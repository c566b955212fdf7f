import Lok.Mandates

/-!
# Hubs

Authorizing a hub replaces what was known of it: its services, the roles and scopes they
declare, and the mandates of the apps it runs itself, under the keys it proposes. The
deployment config keeps mandates of its own the same way. Both edit the mandates of their
own origin in place and never another's.
-/

namespace Lok

open Checks

/-! ## What a hub vouches for -/

def isBase64Char (c : Char) : Bool := c.isAlphanum || c == '+' || c == '/'

/-- The number of bytes a base64 string stands for, if it is one. -/
def base64Size (s : String) : Option Nat :=
  let data := s.toList.takeWhile isBase64Char
  let padding := s.toList.dropWhile isBase64Char
  if padding.all (· == '=') && padding.length ≤ 2 && (data.length + padding.length) % 4 == 0 then some
    (data.length * 3 / 4)
  else none

/-- `validate_challenge_key`: a raw Ed25519 public key. -/
def validateChallengeKey (key : String) : Answer Unit := do
  let size ← found (base64Size key) ⟨.exception, "challenge_key is not base64"⟩
  assert (size == 32) .exception s!"challenge_key must be a raw 32-byte Ed25519 public key, got {size} bytes"

def maxPemLength : Nat := 16384

/-- `validate_tls_certificate`: one server certificate, as the library reads it. -/
def validateTlsCertificate (env : Env) (pem : String) : Answer Unit := do
  assert (pem.length ≤ maxPemLength) .exception "tls_certificate must be a PEM string of at most 16 KiB"
  assert ((pem.splitOn "-----BEGIN CERTIFICATE-----").length == 2) .exception
    "tls_certificate must hold exactly one PEM certificate"
  whenSome (env.certificateFault pem) fun text => refuse .exception text

/-- An entry of `mandate_keys` in the deployment config. -/
structure MandateKeySettings where
  name : String
  key : String
  user : String
  organization : String
  hub : String
  app : Option String
  scopes : Option (List String)
  expiresAt : Option Time
  maxClients : Option Nat
  allowMesh : Bool
  deriving DecidableEq, Repr

def MandateKeySettings.pin (spec : MandateKeySettings) : MandatePin :=
  ⟨spec.app, none, spec.scopes.map sortedSet, none, none⟩

namespace DB

variable (db : DB)

/-! ## Roles and scopes of a service -/

/-- A role as an instance declares it: made, or updated in place. -/
def declareRole (instance_ organization : Pk) (d : DB) (r : RoleDeclaration) : DB :=
  match d.roles.first fun _ x => x.organization == organization && x.identifier == r.key with
  | some (pk, _) => { d with roles := d.roles.modify pk fun x =>
      { x with
        description := some (r.description.getD ""), isAdminRole := r.isAdminRole, isDefaultRole := r.isDefaultRole,
               usedBy := addPks x.usedBy [instance_] } }
  | none =>
    let role := ⟨r.key, some (r.description.getD ""), organization, some instance_, false, r.isAdminRole,
      r.isDefaultRole, [instance_]⟩
    { d with roles := d.roles.insert role }

def declareScope (instance_ organization : Pk) (d : DB) (s : ScopeDeclaration) : DB :=
  match d.scopes.first fun _ x => x.organization == organization && x.identifier == s.key with
  | some (pk, _) => { d with scopes := d.scopes.modify pk fun x =>
      { x with description := some (s.description.getD ""), isAllScope := s.isAllScope,
               usedBy := addPks x.usedBy [instance_] } }
  | none =>
    let scope := ⟨s.key, some (s.description.getD ""), organization, some instance_, false,
      s.isAllScope, [instance_]⟩
    { d with scopes := d.scopes.insert scope }

/-- A role the instance stopped declaring: gone when a service made it and none declares it any more. -/
def undeclareRole (instance_ : Pk) (d : DB) (role : Pk) : DB :=
  let d := { d with roles := d.roles.modify role fun x => { x with usedBy := removePks x.usedBy [instance_] } }
  if (d.roles.row role).any fun x => x.creatingInstance.isSome && !x.isBuiltin && x.usedBy.isEmpty then
    d.delete .role [⟨.role, role⟩] none
  else d

def scopeIsHeld (scope : Pk) (s : Scope) : Bool :=
  (db.clients.exists? fun _ c => c.scopes.contains scope)
    || db.mandates.exists? fun _ m =>
      m.organization == s.organization && m.pin.scopes.any (·.contains s.identifier)

def undeclareScope (instance_ : Pk) (d : DB) (scope : Pk) : DB :=
  let d := { d with scopes := d.scopes.modify scope fun x => { x with usedBy := removePks x.usedBy [instance_] } }
  if (d.scopes.row scope).any fun x => x.creatingInstance.isSome && !x.isBuiltin && x.usedBy.isEmpty
      && !d.scopeIsHeld scope x then
    d.delete .scope [⟨.scope, scope⟩] none
  else d

def registerPermissions (instance_ organization : Pk) (roles : List RoleDeclaration)
    (scopes : List ScopeDeclaration) : DB :=
  let d := roles.foldl (declareRole instance_ organization) db
  let d := scopes.foldl (declareScope instance_ organization) d
  let droppedRoles := d.roles.pks fun _ r => r.organization == organization && r.usedBy.contains instance_
    && !roles.any fun x => x.key == r.identifier
  let d := droppedRoles.foldl (undeclareRole instance_) d
  let droppedScopes := d.scopes.pks fun _ s => s.organization == organization && s.usedBy.contains instance_
    && !scopes.any fun x => x.key == s.identifier
  let d := droppedScopes.foldl (undeclareScope instance_) d
  d.syncOrganization organization

/-! ## Mandates of a hub's own apps -/

/-- Delete the clients logged in under a mandate: they log in afresh. -/
def dropClientsOf (mandate : Pk) : DB :=
  db.delete .client ((db.clients.pks fun _ c => c.mandate == some mandate).map fun c => ⟨.client, c⟩) none

/-- The live mandate of a hub's client request. -/
def currentHubMandate (hub : Pk) (request : String) : Option (Pk × Mandate) :=
  db.mandates.first fun _ m => m.hub == hub && m.origin == .hub && m.hubRequest == some request
    && m.revokedAt.isNone

/-- The key is, or was, the key of a mandate on file. -/
def keyIsKnown (hash : String) : Bool := db.mandates.exists? fun _ m => m.keyHash == some hash

/-- `issue_mandate` for a client request of a hub, under the key it proposes. -/
def issueHubMandate (env : Env) (hub grantor : Pk) (requestAuthKey : Bool) (request : ClientRequest) : Answer DB :=
  (db.issueMandate env (.hub hub request.identifier) grantor hub (.fromManifest request.manifest false true)
    (.key (some request.mandateKey)) none none requestAuthKey
    ((given request.description).getD request.identifier) "").map (·.1)

/-- A live mandate whose key is still proposed: it acts as the new grantor, and clients of another one's log
in afresh. -/
def keepHubMandate (pk : Pk) (current : Mandate) (grantor : Pk) (requestAuthKey : Bool) (request : ClientRequest) :
    DB :=
  let d := if current.membership != grantor then db.dropClientsOf pk else db
  { d with mandates := d.mandates.modify pk fun m =>
    { m with
      membership := grantor, pin := .fromManifest request.manifest false true, allowMesh := requestAuthKey } }

/-- One client request of `ensure_hub_mandates`: kept, skipped, superseded or issued. -/
def ensureHubMandate (env : Env) (hub grantor : Pk) (requestAuthKey : Bool) (d : DB) (request : ClientRequest) :
    Answer DB :=
  match d.currentHubMandate hub request.identifier with
  | some (pk, current) =>
    if current.keyHash == some (env.hashKey request.mandateKey) then
      .ok (d.keepHubMandate pk current grantor requestAuthKey request)
    else if d.keyIsKnown (env.hashKey request.mandateKey) then .ok d
    else do
      let d ← d.revokeMandate pk .superseded
      d.issueHubMandate env hub grantor requestAuthKey request
  | none =>
    if d.keyIsKnown (env.hashKey request.mandateKey) then .ok d
    else d.issueHubMandate env hub grantor requestAuthKey request

/-- Revoke mandates within the transaction that asks for it. -/
def revokeAll (reason : MandateRevocation) (mandates : List Pk) : Answer DB :=
  mandates.foldlM (fun d pk => d.revokeMandate pk reason) db

def ensureHubMandates (env : Env) (hub : Pk) (manifest : HubManifest) (grantor : Pk) : Answer DB := do
  let d ← manifest.clients.foldlM (ensureHubMandate env hub grantor manifest.requestAuthKey) db
  d.revokeAll .superseded (d.mandates.pks fun _ m => m.hub == hub && m.origin == .hub && m.revokedAt.isNone
    && !manifest.clients.any fun r => m.hubRequest == some r.identifier)

/-! ## Services of a hub -/

/-- `get_or_create` of the hub of a uid. -/
def getOrCreateHub (organization : Pk) (manifest : HubManifest) (creator : Pk) : DB × Pk :=
  match db.hubs.first fun _ h => h.organization == organization && h.uid == manifest.uid with
  | some (pk, _) =>
    ({ db with hubs := db.hubs.modify pk fun h => { h with identifier := manifest.identifier } }, pk)
  | none =>
    ({ db with hubs := db.hubs.insert ⟨organization, creator, manifest.uid, manifest.identifier, none⟩ },
      db.hubs.next)

/-- The services the hub no longer runs go, with the grants that were listed under them. -/
def dropInstances (hub : Pk) (manifest : HubManifest) : DB :=
  let gone := db.instances.pks fun _ i => i.hub == hub && !manifest.instances.any fun r => r.name == i.instanceId
  db.delete .instance_ (gone.map fun i => ⟨.instance_, i⟩) none

def instanceNamed (hub : Pk) (name : String) : Option (Pk × ServiceInstance) :=
  db.instances.first fun _ i => i.hub == hub && i.instanceId == name

/-- One service as the device-code path keeps it: its release, device and steward are what was just approved. -/
def provisionInstance (env : Env) (hub organization steward : Pk) (d : DB) (r : InstanceRequest) : DB :=
  let (d, device) := d.deviceOf env r.deviceId organization
  match d.instanceNamed hub r.name with
  | some (pk, _) =>
    let d := { d with instances := d.instances.modify pk fun i =>
      { i with
        service := r.service, version := r.version, device, steward,
        publicKey := (given r.challengeKey).or i.publicKey } }
    d.registerPermissions pk organization r.roles r.scopes
  | none =>
    let pk := d.instances.next
    let i : ServiceInstance :=
      { hub, instanceId := r.name, service := r.service, version := r.version, steward, organization, device,
        publicKey := given r.challengeKey, deniedUsers := [], deniedGroups := [], allowedUsers := [],
        allowedGroups := [] }
    let d := { d with instances := d.instances.insert i }
    d.registerPermissions pk organization r.roles r.scopes

/-- A key the service did not have yet is checked. -/
def checkChallengeKey (hub : Pk) (r : InstanceRequest) : Answer Unit :=
  whenSome (given r.challengeKey) fun key =>
    if (db.instanceNamed hub r.name).any (·.2.publicKey == some key) then .ok () else validateChallengeKey key

/-- One turn of the loop over the services. -/
def provisionService (env : Env) (hub organization steward : Pk) (d : DB) (r : InstanceRequest) : Answer DB := do
  d.checkChallengeKey hub r
  return provisionInstance env hub organization steward d r

/-- One service as the partner path keeps it, with `key` if it sets one: stewarded by the owner, its device
left alone. -/
def keepInstance (hub organization owner : Pk) (key : Option String) (r : InstanceRequest) : DB × Pk :=
  match db.instanceNamed hub r.name with
  | some (pk, _) =>
    ({ db with instances := db.instances.modify pk fun i =>
      { i with
        service := r.service, version := r.version, steward := owner, organization,
        publicKey := key.or i.publicKey } }, pk)
  | none =>
    let i : ServiceInstance :=
      { hub, instanceId := r.name, service := r.service, version := r.version, steward := owner, organization,
        device := none, publicKey := key, deniedUsers := [], deniedGroups := [], allowedUsers := [], allowedGroups := [] }
    ({ db with instances := db.instances.insert i }, db.instances.next)

/-- One turn of the loop over the services: a key that is refused leaves the row without it. -/
def configureInstance (hub organization owner : Pk) (r : InstanceRequest) : DB × Answer Unit :=
  match db.checkChallengeKey hub r with
  | .error e => ((db.keepInstance hub organization owner none r).1, .error e)
  | .ok () =>
    let (d, pk) := db.keepInstance hub organization owner (given r.challengeKey) r
    (d.registerPermissions pk organization r.roles r.scopes, .ok ())

def configureInstances (hub organization owner : Pk) : List InstanceRequest → DB → DB × Answer Unit
  | [], d => (d, .ok ())
  | r :: rest, d =>
    match d.configureInstance hub organization owner r with
    | (d, .ok ()) => configureInstances hub organization owner rest d
    | (d, .error e) => (d, .error e)

/-- The services half of `create_hub_from_manifest`; none of it is in a transaction. -/
def configureHub (env : Env) (organization : Pk) (manifest : HubManifest) : DB × Answer Pk :=
  match db.organizations.get organization with
  | .error e => (db, .error e)
  | .ok o =>
    let (d, hub) := db.getOrCreateHub organization manifest o.owner
    let d := { d with hubs := d.hubs.modify hub fun h => { h with creator := o.owner } }
    match whenSome (given manifest.tlsCertificate) (validateTlsCertificate env) with
    | .error e => (d, .error e)
    | .ok () =>
      let (d, answer) := configureInstances hub organization o.owner manifest.instances
        (d.dropInstances hub manifest)
      (d, answer.map fun _ => hub)

/-- The mandates half of `create_hub_from_manifest`: the clients act as the owner of the hub's organization. -/
def configureHubMandates (env : Env) (hub : Pk) (manifest : HubManifest) : Answer DB := do
  let h ← db.hubs.get hub
  let o ← db.organizations.get h.organization
  let (owner, _) ← found (db.membershipOf o.owner h.organization)
    ⟨.doesNotExist, "Membership matching query does not exist."⟩
  db.ensureHubMandates env hub manifest owner

/-! ## Mandates of the deployment config -/

/-- `_same_pin`: an open pin is fixed by the first app that logs in; that is not a change. -/
def samePin (current wanted : MandatePin) : Bool :=
  (if wanted.isOpen then { current with identifier := none } else current) == wanted

/-- What the config says of a mandate it keeps. -/
def applySettings (spec : MandateKeySettings) (membership organization hub : Pk) (pin : MandatePin) (m : Mandate) :
    Mandate :=
  { m with membership, organization, hub, pin := if samePin m.pin pin then m.pin else pin,
           expiresAt := spec.expiresAt, maxClients := spec.maxClients, allowMesh := spec.allowMesh }

/-- `issue_mandate` for an entry of the config, unless its key is known. -/
def issueConfigMandate (env : Env) (spec : MandateKeySettings) (membership hub : Pk) (pin : MandatePin) :
    Answer DB :=
  if db.keyIsKnown (env.hashKey spec.key) then .ok db
  else (db.issueMandate env (.config spec.name) membership hub pin (.key (some spec.key)) spec.expiresAt
    spec.maxClients spec.allowMesh spec.name "").map (·.1)

/-- A live mandate whose key the entry still names. -/
def keepConfigMandate (spec : MandateKeySettings) (pk : Pk) (current : Mandate)
    (membership organization hub : Pk) : DB :=
  let d := if current.membership != membership || current.hub != hub then db.dropClientsOf pk else db
  { d with mandates := d.mandates.modify pk (applySettings spec membership organization hub spec.pin) }

/-- `_ensure` of one entry. -/
def ensureConfigMandate (env : Env) (spec : MandateKeySettings) : Answer DB := do
  let (membership, m) ← db.memberships.one fun _ m => (db.users.row m.user).any (·.username == spec.user)
    && (db.organizations.row m.organization).any (·.slug == spec.organization)
  let (hub, _) ← db.hubs.one fun _ h => h.organization == m.organization && h.identifier == spec.hub
  match db.mandates.first fun _ n => n.configName == some spec.name && n.revokedAt.isNone with
  | some (pk, current) =>
    if current.keyHash == some (env.hashKey spec.key) then
      return db.keepConfigMandate spec pk current membership m.organization hub
    else do
      let d ← db.revokeMandate pk .superseded
      d.issueConfigMandate env spec membership hub spec.pin
  | none => db.issueConfigMandate env spec membership hub spec.pin

/-- Revoke the mandates of the entries the config dropped. -/
def revokeDropped (names : List String) : DB × Answer Unit :=
  revokeEach .removedFromConfig (db.mandates.pks fun _ m => m.origin == .config && m.revokedAt.isNone
    && !names.any fun n => m.configName == some n) db

end DB

end Lok
