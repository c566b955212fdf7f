import Lok.Guests

/-!
# Clients

Registration mints an unbound public client; approval binds it: membership, organization,
release, hub, the instances its requirements are composed to, and the scope it may ask for.
An earlier installation of the same identity is deleted, and the mandates it issued move to
the new row.
-/

namespace Lok

open Checks

/-- Every fakts client is registered for these; one that logs in with a mandate key for that grant only. -/
def faktsClientGrantTypes : List GrantType := [.deviceCode, .refreshToken, .authorizationCode]

/-- One entry of `openid_apps` in the deployment config. -/
structure OpenIDAppConfig where
  clientId : String
  clientSecret : String
  redirectUris : List String
  scope : List String
  requireNonce : Bool
  deriving DecidableEq, Repr

namespace DB

variable (db : DB)

def getOrCreateDevice (organization : Pk) (nodeId : String) : DB × Pk :=
  match db.devices.first fun _ d => d.organization == organization && d.nodeId == nodeId with
  | some (pk, _) => (db, pk)
  | none => ({ db with devices := db.devices.insert ⟨organization, nodeId⟩ }, db.devices.next)

/-- The device a manifest names, made if it is new; none without a device id. -/
def deviceOf (env : Env) (deviceId : Option String) (organization : Pk) : DB × Option Pk :=
  match given deviceId with
  | none => (db, none)
  | some d =>
    let (db₁, pk) := db.getOrCreateDevice organization (env.hashDeviceId d organization)
    (db₁, some pk)

/-- `create_public_client`: an unbound row that carries only identity. -/
def createPublicClient (kind : ClientKind) (role : ClientRole) (redirectUris : List String) (isPublic : Bool)
    (grantTypes : List GrantType) : DB × Pk :=
  let client : Client :=
    { createdAt := db.now, clientId := .uuid db.draws, clientSecret := none, grantTypes, redirectUris, scope := [],
      public_ := isPublic, requireNonce := false, kind, role, membership := none, organization := none,
      release := none, hub := none, node := none, mandate := none, manifest := none, manifestHash := "",
      scopes := [], statuses := [] }
  ({ db with draws := db.draws + 1, clients := db.clients.insert client }, db.clients.next)

/-- `ensureopenid`: a relying party belongs to no organization and only runs the code flow. -/
def ensureOpenId (config : OpenIDAppConfig) : DB :=
  match db.clients.first fun _ c => c.clientId == .named config.clientId with
  | some (pk, _) => { db with clients := db.clients.modify pk fun c =>
      { c with
        clientSecret := some config.clientSecret, redirectUris := config.redirectUris, scope := config.scope,
               grantTypes := [.authorizationCode, .refreshToken], kind := .relyingParty,
               requireNonce := config.requireNonce } }
  | none =>
    let client : Client :=
      { createdAt := db.now, clientId := .named config.clientId, clientSecret := some config.clientSecret,
        grantTypes := [.authorizationCode, .refreshToken], redirectUris := config.redirectUris,
        scope := config.scope, public_ := false, requireNonce := config.requireNonce, kind := .relyingParty, role := .interface,
        membership := none, organization := none, release := none, hub := none, node := none, mandate := none,
        manifest := none, manifestHash := "", scopes := [], statuses := [] }
    { db with clients := db.clients.insert client }

/-! ## Composing -/

/-- The access lists of an instance, as the lookup reads them. -/
def admits (i : ServiceInstance) (user : Pk) (groups : List String) : Bool :=
  i.allowedUsers.isEmpty
    || (i.allowedUsers.contains user && (i.deniedUsers.isEmpty || !i.deniedUsers.contains user)
      && (i.allowedGroups.isEmpty || groups.any i.allowedGroups.contains)
      && (i.deniedGroups.isEmpty || !groups.any i.deniedGroups.contains))

/-- `find_instance_for_requirement_and_hub`. -/
def findInstance (service : String) (user : Pk) (hub : Option Pk) : Option Pk :=
  let groups := (db.users.row user).elim [] (·.groups)
  (db.instances.first fun _ i => i.service == service && some i.hub == hub && admits i user groups).map (·.1)

/-- `ServiceInstanceMapping.objects.get_or_create`; a client has one mapping under a key. -/
def mapInstance (client instance_ : Pk) (key : String) : Answer DB := do
  if db.mappings.exists? fun _ m => m.client == client && m.instance_ == instance_ && m.key == key then return db
  assert (!db.mappings.exists? fun _ m => m.client == client && m.key == key) .integrityError
    "duplicate key value violates unique constraint"
  return { db with mappings := db.mappings.insert ⟨client, instance_, key⟩ }

def mapRequirement (client user : Pk) (hub : Option Pk) (req : Requirement) : Answer DB := do
  let i ← found (db.findInstance req.service user hub)
    ⟨.instanceNotFound, s!"No instance for {req.service} in this hub."⟩
  db.mapInstance client i req.key

def setStatus (statuses : List (String × MappingStatus)) (key : String) (status : MappingStatus) :
    List (String × MappingStatus) :=
  statuses.filter (·.1 != key) ++ [(key, status)]

/-- One requirement: declined, mapped, or (when optional) left out. -/
def composeOne (client user : Pk) (hub : Option Pk) (declined : List String)
    (state : DB × List (String × MappingStatus)) (req : Requirement) :
    Answer (DB × List (String × MappingStatus)) :=
  if req.optional && declined.contains req.key then .ok (state.1, setStatus state.2 req.key .denied)
  else
    match state.1.mapRequirement client user hub req with
    | .ok d => .ok (d, setStatus state.2 req.key .granted)
    | .error _ =>
      if req.optional then .ok (state.1, setStatus state.2 req.key .unavailable)
      else refuse .exception s!"Unable to find instance for requirement {req.service}"

/-- `auto_compose`: without requirements nothing is touched. -/
def autoCompose (client : Pk) (hub : Option Pk) (requirements : List Requirement) (user : Pk)
    (declined : List String) :
    Answer DB := do
  if requirements.isEmpty then return db
  let cleared := { db with mappings := db.mappings.keep fun _ m => m.client != client }
  let (d, statuses) ← requirements.foldlM (composeOne client user hub declined) (cleared, [])
  return { d with clients := d.clients.modify client fun c => { c with statuses := statuses } }

/-! ## Binding -/

def staleClients (client : Pk) (kind : ClientKind) (release : Release) (membership : Pk)
    (node hub mandate : Option Pk) :
    List Pk :=
  db.clients.pks fun pk c => pk != client &&
    match mandate with
    | none => c.release == some release && c.membership == some membership && c.node == node && c.hub == hub
        && c.kind == kind && c.mandate == none
    | some m => c.mandate == some m && c.node == node

/-- The mandates the given clients issued move to another. -/
def reissue (issuers : List Pk) (client : Pk) : DB :=
  { db with mandates := db.mandates.updateWhere (fun _ m => m.issuingClient.any issuers.contains) fun m =>
      { m with issuingClient := some client } }

/-- The earlier installations go; the mandates they issued move first. -/
def dropStale (client : Pk) (stale : List Pk) : DB :=
  (db.reissue stale client).delete .client (stale.map fun s => ⟨.client, s⟩) none

/-- The unique constraints on a client's identity; a null column never collides. -/
def sameIdentity (a b : Client) : Bool :=
  match a.mandate, b.mandate with
  | none, none => a.release.isSome && a.release == b.release && a.membership.isSome && a.membership == b.membership
      && a.node.isSome && a.node == b.node && a.hub.isSome && a.hub == b.hub
  | some m, some n => m == n && a.node == b.node
  | _, _ => false

/-- `client.save()`. -/
def saveClient (pk : Pk) (c : Client) : Answer DB := do
  assert (!db.clients.exists? fun k d => k != pk && sameIdentity c d) .integrityError
    "duplicate key value violates unique constraint"
  return { db with clients := db.clients.put pk c }

/-- What a manifest asks for and the organization has. -/
def scopesNamed (identifiers : List String) (organization : Pk) : List Pk :=
  db.scopes.pks fun _ s => identifiers.contains s.identifier && s.organization == organization

/-- `finalize_client_scope`: the granted scopes on top of the OIDC base scopes. -/
def finalScope (scopes : List Pk) : List String :=
  let granted := scopes.filterMap fun s => (db.scopes.row s).map (·.identifier)
  baseOidcScopes ++ sortedSet (granted.filter fun s => !baseOidcScopes.contains s)

/-- Save a bound client, compose it, and hold the scopes it asked for. -/
def installClient (pk : Pk) (bound : Client) (manifest : Manifest) (user organization : Pk)
    (declined : List String) :
    Answer DB := do
  let d ← db.saveClient pk bound
  let d ← d.autoCompose pk bound.hub manifest.requirements user declined
  let held := d.scopesNamed manifest.scopes organization
  return { d with clients := d.clients.modify pk fun c => { c with scopes := held, scope := d.finalScope held } }

/-- `bind_client`, of the client object `c` (the row `pk`, with what the caller changed on it). -/
def bindClient (env : Env) (pk : Pk) (c : Client) (manifest : Manifest) (membership : Pk) (hub : Option Pk)
    (declined : List String) (mandate : Option Pk) : Answer DB := do
  let m ← db.memberships.get membership
  let o ← db.organizations.get m.organization
  whenSome (env.logoFault db.now manifest) fun text => refuse .exception s!"Could not download logo {text}"
  assert (!o.requireDeviceAuth || (given manifest.deviceId).isSome) .deviceAuthRequired
    "This organization requires device authentication; the client manifest must include a device_id."
  let release : Release := ⟨m.organization, manifest.identifier, manifest.version⟩
  let (d, node) := db.deviceOf env manifest.deviceId m.organization
  let d := d.dropStale pk (d.staleClients pk c.kind release membership node hub mandate)
  let bound := { c with mandate, manifestHash := env.hashManifest manifest, membership := some membership,
                        organization := some m.organization, release := some release, hub, node,
                        manifest := some manifest }
  d.installClient pk bound manifest m.user m.organization declined

/-- `find_unchanged_client`: the client this approval would replace, if the app did not change. -/
def findUnchangedClient (env : Env) (staged : Pk) (c : Client) (manifest : Manifest) (membership organization : Pk)
    (hub : Option Pk) : Option (Pk × Client) :=
  let onDevice := fun (node : Option Pk) => match given manifest.deviceId with
    | some d => node.any fun n => (db.devices.row n).any fun dev =>
        dev.organization == organization && dev.nodeId == env.hashDeviceId d organization
    | none => node.isNone
  db.clients.first fun pk d => pk != staged && d.membership == some membership && d.hub == hub && d.kind == c.kind
    && d.role == c.role && d.mandate.isNone && d.release == some
      ⟨organization, manifest.identifier, manifest.version⟩
    && d.manifestHash == env.hashManifest manifest && onDevice d.node

end DB

end Lok
