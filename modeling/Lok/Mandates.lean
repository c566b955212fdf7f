import Lok.Clients

/-!
# Mandates

A mandate is a standing authority to act as its grantor, inside one hub, up to a pin. Every
path that creates one comes through `issueMandate`, under one policy; `authenticateKey`
exchanges a key for the client it logs in as; `revokeMandate` withdraws a mandate and every
child issued under it, and deletes their clients.
-/

namespace Lok

open Checks

/-- The longest an app may issue a key for, as itself. -/
def appKeyMaxTtl : Time := 30 * day

/-- The longest an app may grant an agent mandate for. -/
def agentMandateMaxTtl : Time := 365 * day

inductive Issuer
  | member (membership : Pk)
  | client (client : Pk)
  | agent (parent client : Pk)
  | hub (hub : Pk) (request : String)
  | config (name : String)
  deriving DecidableEq, Repr

inductive Claimant
  /-- Whoever holds the key; `none` lets lok mint it. -/
  | key (key : Option String)
  | agent (identifier : String) (deviceId : Option String) (membership : Option Pk) (attestation : String)
  deriving DecidableEq, Repr

def Claimant.isKey : Claimant → Bool
  | .key _ => true
  | .agent .. => false

structure MandateKeyGrantRequest where
  key : String
  manifest : Manifest
  kind : ClientKind
  role : ClientRole
  requestAuthKey : Bool
  deriving DecidableEq, Repr

namespace DB

variable (db : DB)

/-! ## Liveness -/

/-- `membership.user.is_active`. -/
def grantorIsActive (membership : Pk) : Bool :=
  (db.memberships.row membership).any fun m => (db.users.row m.user).any (·.isActive)

/-- The row method `Mandate.is_live`. -/
def isLive (m : Mandate) : Bool :=
  if m.revokedAt.isSome then false
  else if m.expiresAt.any (· ≤ db.now) then false
  else db.grantorIsActive m.membership

/-- The queryset `MandateQuerySet.live`. -/
def liveMandates : List (Pk × Mandate) :=
  db.mandates.filter fun _ m => m.revokedAt.isNone
    && (db.memberships.exists?
      fun pk row => pk == m.membership && (db.users.exists? fun u user => u == row.user && user.isActive))
    && (m.expiresAt.isNone || m.expiresAt.any (db.now < ·))

def liveChildren (parent : Pk) : List (Pk × Mandate) := db.liveMandates.filter fun r => r.2.parent == some parent

def assertLive (m : Mandate) : Answer Unit := do
  assert (db.isLive m) .mandateNotLive "This mandate has been revoked or has expired."
  whenSome m.parent fun p => do
    let parent ← db.mandates.get p
    assert (db.isLive parent) .mandateNotLive
      "The mandate this one was issued under has been revoked or has expired."

def isOrgAdmin (membership : Pk) : Bool :=
  (db.memberships.row membership).any fun m =>
    (db.organizations.row m.organization).any (·.owner == m.user) || m.isAdmin

/-- `assert_is_agent`: refuse unless the client is (a narrowed-enough instance of) the mandate's agent. -/
def assertIsAgent (m : Mandate) (client : Client) : Answer Unit := do
  assert (m.claimant == .agent) .mandateAgentMismatch "This mandate names no agent."
  assert (client.organization == some m.organization) .mandateAgentMismatch
    "The caller is not the agent of this mandate."
  assert ((client.release.map (·.identifier)) == m.agentIdentifier) .mandateAgentMismatch
    "The caller is not the agent of this mandate."
  assert (m.agentDevice.isNone || client.node == m.agentDevice) .mandateAgentMismatch
    "This mandate is pinned to a different agent device."
  assert (m.agentMembership.isNone || client.membership == m.agentMembership) .mandateAgentMismatch
    "This mandate is pinned to a different agent operator."

/-! ## What an issuer may hand out -/

def assertKnownScopes (organization : Pk) (slug : String) (pin : MandatePin) : Answer Unit :=
  whenSome pin.scopes fun scopes =>
    let unknown := sortedSet (scopes.filter fun s =>
      !db.scopes.exists? fun _ row => row.organization == organization && row.identifier == s)
    assert unknown.isEmpty .unknownMandateScope
      s!"Scope(s) {commaJoin unknown} are not available in organization '{slug}'."

/-- What a catch-all among the held scopes covers. -/
def coveredBy (s : Scope) : List String :=
  if s.creatingInstance.isNone then lokScopes.map (·.key)
  else (db.scopes.filter fun _ t => t.organization == s.organization && t.usedBy.any s.usedBy.contains).map
    (·.2.identifier)

/-- `_covered_scopes`: the scopes the held ones stand for, themselves and what each catch-all covers. -/
def coveredScopes (held : List Scope) : List String :=
  held.map (·.identifier) ++ (held.filter (·.isAllScope)).flatMap db.coveredBy

def clientCeiling (c : Client) : MandatePin where
  identifier := none
  version := none
  scopes := some (sortedSet (db.coveredScopes (c.scopes.filterMap db.scopes.row)))
  requirements := some ((c.manifest.elim [] (·.requirements)).map fun r => ⟨r.key, r.service⟩)
  deviceId := none

/-- `_assert_expiry`; `maximum` in days. -/
def assertExpiry (expiresAt : Option Time) (maximum : Option Time) (required : Bool) : Answer Unit :=
  match expiresAt with
  | none => assert (!required) .mandateError "This mandate needs an expiry."
  | some t => do
    assert (db.now < t) .mandateError "The expiry must lie in the future."
    whenSome maximum fun max =>
      assert (t ≤ db.now + max) .mandateError s!"The expiry may lie at most {max / day} days ahead."

/-- A pin refused by its ceiling is refused as exceeding the issuer. -/
def exceeds {α : Type} (suffix : String) : Answer α → Answer α
  | .ok a => .ok a
  | .error e => .error (if e.kind == .mandatePinMismatch then ⟨.mandateExceedsIssuer, e.text ++ suffix⟩ else e)

@[simp] theorem exceeds_ok {α : Type} {suffix : String} {x : Answer α} {a : α} :
    exceeds suffix x = .ok a ↔ x = .ok a := by
  cases x <;> simp [exceeds]

/-- `_assert_policy`: who may issue what. -/
def assertPolicy (issuer : Issuer) (grantor hub : Pk) (hubOrganization : Pk) (pin : MandatePin)
    (claimant : Claimant)
    (expiresAt : Option Time) : Answer Unit :=
  match issuer with
  | .member membership => do
    assert (membership == grantor) .mandateError "A member grants mandates as themselves."
    assert (!pin.isOpen || db.isOrgAdmin membership) .mandateError
      "Only an owner or admin may issue a mandate for any app; name the app."
    db.assertExpiry expiresAt none false
  | .client client => do
    let c ← db.clients.get client
    assert c.mandate.isNone .mandateChaining "A client logged in under a mandate cannot issue mandates."
    assert (c.membership == some grantor) .mandateError "An app issues mandates as its own user."
    assert (c.organization == some hubOrganization) .mandateError
      "The hub does not belong to the app's organization."
    assert (!pin.isOpen) .mandateError "An app must name the app a mandate is for."
    exceeds " An app can only hand out what it holds itself." (pin.assertWithin (db.clientCeiling c))
    if claimant.isKey then db.assertExpiry expiresAt (some appKeyMaxTtl) true
    else db.assertExpiry expiresAt (some agentMandateMaxTtl) false
  | .agent parent client => do
    let p ← db.mandates.get parent
    let c ← db.clients.get client
    assert claimant.isKey .mandateError "An agent issues keyed mandates only."
    assert p.parent.isNone .mandateError "A mandate issued by an agent cannot itself name an agent."
    assertIsAgent p c
    db.assertLive p
    assert (grantor == p.membership && hub == p.hub) .mandateError
      "A child mandate acts as its parent's grantor, in its parent's hub."
    assert pin.deviceId.isSome .mandateError "A device id is required: it tells the instances an agent runs apart."
    exceeds "" (pin.assertWithin p.pin)
    assert (p.expiresAt.all fun t => expiresAt.any (· ≤ t)) .mandateError
      "A child mandate cannot outlive the mandate it was issued under."
    db.assertExpiry expiresAt none false
  | .hub _ _ =>
    match claimant with
    | .key (some _) => .ok ()
    | _ => refuse .mandateError "A hub proposes the key of every client it asks for."
  | .config _ =>
    match claimant with
    | .key (some _) => .ok ()
    | _ => refuse .mandateError "A mandate in the config names its key."

/-! ## Issuing -/

def withIssuer (m : Mandate) : Issuer → Mandate
  | .member _ => { m with origin := .member }
  | .client client => { m with origin := .client, issuingClient := some client }
  | .agent parent client => { m with origin := .agent, parent := some parent, issuingClient := some client }
  | .hub _ request => { m with origin := .hub, hubRequest := some request }
  | .config name => { m with origin := .config, configName := some name }

/-- The columns that name the claimant, and the key when lok minted it. -/
def withClaimant (env : Env) (m : Mandate) (minted : String) : Claimant → Answer (DB × Mandate × Option String)
  | .key proposed => do
    let key := proposed.getD minted
    assert (32 ≤ key.length) .mandateError "A mandate key has at least 32 characters."
    assert (!db.mandates.exists? fun _ m => m.keyHash == some (env.hashKey key)) .mandateKeyReused
      "This key is, or was, the key of another mandate; propose a new one."
    return (db, { m with
        claimant := .key, keyHash := some (env.hashKey key), keyPrefix := String.ofList (key.toList.take 6) },
      if proposed.isNone then some key else none)
  | .agent identifier deviceId membership attestation => do
    whenSome membership fun a => do
      let row ← db.memberships.get a
      assert (row.organization == m.organization) .mandateError
        "The agent membership does not belong to the grantor's organization."
    let (d, device) := db.deviceOf env deviceId m.organization
    return (d, { m with claimant := .agent, agentIdentifier := some identifier, agentMembership := membership,
                        attestation, agentDevice := device }, none)

/-- `mandate.save()`: one live mandate per config entry, and per client request of a hub. -/
def saveNewMandate (m : Mandate) : Answer DB := do
  assert (!(m.configName.isSome && db.mandates.exists?
    fun _ n => n.configName == m.configName && n.revokedAt.isNone))
    .integrityError "One live mandate per config entry"
  assert (!(m.hubRequest.isSome && db.mandates.exists? fun _ n =>
      n.hub == m.hub && n.hubRequest == m.hubRequest && n.revokedAt.isNone))
    .integrityError "One live mandate per client request of a hub"
  return { db with mandates := db.mandates.insert m }

/-- The budget of an agent mandate, read under the parent's lock. -/
def assertSlots (issuer : Issuer) : Answer Unit :=
  match issuer with
  | .agent parent _ => do
    let p ← db.mandates.get parent
    assert (p.maxClients.all fun max => (db.liveChildren parent).length < max) .mandateExhausted
      "This mandate has no slots left."
  | _ => .ok ()

/-- `issue_mandate`: the database after it, the new mandate's key, and the mandate key if lok minted it. -/
def issueMandate (env : Env) (issuer : Issuer) (grantor hub : Pk) (pin : MandatePin) (claimant : Claimant)
    (expiresAt : Option Time) (maxClients : Option Nat) (allowMesh : Bool) (label minted : String) :
    Answer (DB × Pk × Option String) := do
  let g ← db.memberships.get grantor
  let o ← db.organizations.get g.organization
  let h ← db.hubs.get hub
  assert (h.organization == g.organization) .mandateError "The hub does not belong to the grantor's organization."
  assert (maxClients.all (1 ≤ ·)) .mandateError "maxClients must be at least 1."
  db.assertKnownScopes g.organization o.slug pin
  db.assertSlots issuer
  db.assertPolicy issuer grantor hub h.organization pin claimant expiresAt
  let blank : Mandate :=
    { membership := grantor, organization := g.organization, hub, claimant := .key, origin := .member, label,
      keyHash := none, keyPrefix := "", agentIdentifier := none, agentDevice := none, agentMembership := none, pin,
      attestation := "", maxClients, allowMesh, parent := none, issuingClient := none, configName := none,
      hubRequest := none, expiresAt, revokedAt := none, revocationReason := none, lastUsedAt := none }
  let (d, m, key) ← db.withClaimant env blank minted claimant
  let saved ← d.saveNewMandate (withIssuer m issuer)
  return (saved, d.mandates.next, key)

/-! ## Revoking -/

/-- Revoke the refresh tokens of clients, by their row keys. -/
def revokeTokensOf (clients : List Pk) : DB :=
  let ids := clients.filterMap fun pk => (db.clients.row pk).map (·.clientId)
  { db with
    tokens := db.tokens.updateWhere (fun _ t => ids.contains t.clientId) fun t => { t with revoked := true } }

def deleteClients (mandates : List Pk) : DB :=
  let clients := db.clients.pks fun _ c => c.mandate.any mandates.contains
  (db.revokeTokensOf clients).delete .client (clients.map fun c => ⟨.client, c⟩) none

/-- The mandates issued under one, in key order. -/
def childrenOf (mandate : Pk) : List Pk := db.mandates.pks fun _ m => m.parent == some mandate

/-- Mark a mandate revoked, unless it is already. -/
def revokeRow (now : Time) (reason : MandateRevocation) (m : Mandate) : Mandate :=
  if m.revokedAt.isSome then m else { m with revokedAt := some now, revocationReason := some reason }

def revokeMandate (mandate : Pk) (reason : MandateRevocation) : Answer DB := do
  let _ ← db.mandates.get mandate
  let children := db.childrenOf mandate
  let d := { db with mandates := db.mandates.update fun pk m =>
    if pk = mandate then revokeRow db.now reason m
    else if children.contains pk then revokeRow db.now .parentRevoked m
    else m }
  return d.deleteClients (mandate :: children)

/-- Revoke mandates one after the other, each in a transaction of its own. -/
def revokeEach (reason : MandateRevocation) : List Pk → DB → DB × Answer Unit
  | [], d => (d, .ok ())
  | pk :: rest, d =>
    match d.revokeMandate pk reason with
    | .ok d' => revokeEach reason rest d'
    | .error e => (d, .error e)

def revokeIssuedBy (clients : List Pk) : DB × Answer Unit :=
  revokeEach .issuerRevoked
    (db.mandates.pks fun _ m => m.issuingClient.any clients.contains && m.revokedAt.isNone) db

def revokeOrganizationMandates (organization : Pk) : DB × Answer Unit :=
  revokeEach .organizationRevoked
    (db.mandates.pks fun _ m => m.organization == organization && m.revokedAt.isNone && m.parent.isNone) db

/-! ## The grant -/

/-- The later of two clients by the mandate they are bound to. -/
def newerMandate (best : Option (Pk × Client)) (c : Pk × Client) : Option (Pk × Client) :=
  match best with
  | none => some c
  | some b => if b.2.mandate.getD 0 < c.2.mandate.getD 0 then some c else some b

/-- `_predecessor_client`: the client the device ran under an older key of the same grantor, hub and origin. -/
def predecessorClient (pk : Pk) (m : Mandate) (node : Pk) (identifier : String) : Option (Pk × Client) :=
  (db.clients.filter fun _ c => c.node == some node && (c.release.map (·.identifier)) == some identifier
    && c.mandate.any fun old => old < pk && (db.mandates.row old).any fun o =>
      o.membership == m.membership && o.hub == m.hub && o.origin == m.origin).foldl newerMandate none

/-- The client a device logs in as: its own, an older key's, or a new one. -/
def clientForLogin (pk : Pk) (m : Mandate) (node : Option Pk) (request : MandateKeyGrantRequest) :
    Answer (DB × Pk × Client) := do
  match db.clients.first fun _ c => c.mandate == some pk && c.node == node with
  | some (c, client) => return (db, c, client)
  | none =>
    assert (m.maxClients.all fun max => db.clients.count (fun _ c => c.mandate == some pk) < max) .mandateExhausted
      "This mandate key has been used on as many devices as it allows."
    match node.bind fun n => db.predecessorClient pk m n request.manifest.identifier with
    | some (c, client) => return (db, c, client)
    | none =>
      let (d, c) := db.createPublicClient request.kind request.role [] false [.mandateKey]
      let client ← d.clients.get c
      return (d, c, client)

/-- Whether a login has to bind its client again. -/
def mustBind (env : Env) (pk : Pk) (request : MandateKeyGrantRequest) (c : Client) : Bool :=
  c.membership.isNone || c.mandate != some pk || c.manifestHash != env.hashManifest request.manifest
    || c.kind != request.kind || c.role != request.role

def bindForLogin (env : Env) (pk : Pk) (m : Mandate) (request : MandateKeyGrantRequest) (c : Pk)
    (client : Client) :
    Answer DB :=
  if mustBind env pk request client then
    db.bindClient env c { client with kind := request.kind, role := request.role } request.manifest m.membership
      (some m.hub) [] (some pk)
  else .ok db

/-- The pin a login is checked against: an open one is fixed to the first app that logs in. -/
def loginPin (pin : MandatePin) (m : Manifest) : MandatePin := if pin.isOpen then pin.fixedTo m.identifier else pin

/-- `authenticate_key`: the database after it and the client the key logs in as. -/
def authenticateKey (env : Env) (request : MandateKeyGrantRequest) : Answer (DB × Pk) := do
  let (pk, m) ← found (db.mandates.first fun _ m => m.keyHash == some (env.hashKey request.key))
    ⟨.unknownMandateKey, "Invalid mandate key."⟩
  db.assertLive m
  let pin := loginPin m.pin request.manifest
  pin.check request.manifest
  let o ← db.organizations.get m.organization
  assert (!o.requireDeviceAuth || (given request.manifest.deviceId).isSome) .deviceAuthRequired
    "This organization requires device authentication; the client manifest must include a device_id."
  let (d, node) := db.deviceOf env request.manifest.deviceId m.organization
  let (d, c, client) ← d.clientForLogin pk m node request
  let d ← d.bindForLogin env pk m request c client
  return ({ d with mandates := d.mandates.modify pk fun m => { m with lastUsedAt := some db.now, pin := pin } }, c)

end DB

end Lok
