import Lok.Hubs

/-!
# Device codes

An app or a hub registers a public client and stages a device code for it; a human accepts
or declines the code in the frontend, and the device polls with the code's secret. An app
approved again unchanged keeps its earlier client: the code then points to that one, and
the device still polls as the client id it registered with.
-/

namespace Lok

open Checks

/-- The ceiling on a lifetime an anonymous caller may ask for. -/
def maxDeviceCodeLifetimeSeconds : Time := 900

/-- The answer to a caller who may not know whether what they name exists. -/
def denied : Refused := ⟨.denied, "Not found, or you are not authorized to access it."⟩

namespace DB

variable (db : DB)

/-- `_expires_at`. -/
def deviceCodeExpiry (seconds : Time) : Time := db.now + max 1 (min seconds maxDeviceCodeLifetimeSeconds)

/-- Stage a device code for a fresh client. -/
def stageDeviceCode (kind : DeviceCodeKind) (staging : Staging) (client : Pk) (seconds : Time)
    (requestAuthKey : Bool) : DB :=
  let code : DeviceCode :=
    { kind, code := db.draws, secret := db.draws + 1, client, pollingClientId := none, staging,
      organization := none, grantedScope := [], lastPolledAt := none, expiresAt := db.deviceCodeExpiry seconds,
      denied := false, requestAuthKey, authKey := none }
  { db with draws := db.draws + 2, deviceCodes := db.deviceCodes.insert code }

def startDeviceCode (manifest : Manifest) (kind : ClientKind) (role : ClientRole) (redirectUris : List String)
    (requestPublic : Bool) (seconds : Time) (requestAuthKey : Bool) : DB :=
  let (d, client) := db.createPublicClient kind role redirectUris requestPublic faktsClientGrantTypes
  d.stageDeviceCode .app (.app manifest) client seconds requestAuthKey

def startHubDeviceCode (manifest : HubManifest) (seconds : Time) : DB :=
  let (d, client) := db.createPublicClient .hub .interface [] false faktsClientGrantTypes
  d.stageDeviceCode .hub (.hub manifest) client seconds false

/-- `purge_expired_device_codes`: the clients of expired codes nobody accepted. -/
def purgeExpiredDeviceCodes : DB :=
  let expired := db.deviceCodes.filter fun _ c => c.expiresAt < db.now
    && (db.clients.row c.client).any (·.membership.isNone)
  expired.foldl (fun d c => d.delete .client [⟨.client, c.2.client⟩] none) db

def isExpired (c : DeviceCode) : Bool := c.expiresAt < db.now

/-- `resolve_device_code_with_proof`: the caller saw the user code the device displayed. -/
def resolveDeviceCode (pk : Pk) (code : Option Nat) (kind : DeviceCodeKind) : Answer DeviceCode := do
  let c ← found (db.deviceCodes.row pk) denied
  require (c.kind == kind && code == some c.code) denied
  return c

/-! ## Accepting an app -/

/-- An app that did not change keeps its earlier client: the code points to that one, the staged row goes. -/
def keepClient (pk : Pk) (staged : Pk) (c : Client) (kept : Pk) : DB :=
  let d := db.delete .deviceCode
    ((db.deviceCodes.pks fun k code => code.client == kept && k != pk).map fun k => ⟨.deviceCode, k⟩) none
  let d := { d with
      clients := d.clients.modify kept fun k => { k with redirectUris := c.redirectUris, public_ := c.public_ } }
  let d := { d with deviceCodes := d.deviceCodes.modify pk fun code =>
    { code with pollingClientId := some c.clientId, client := kept } }
  d.delete .client [⟨.client, staged⟩] none

def validateDeviceCode (env : Env) (pk : Pk) (code : DeviceCode) (manifest : Manifest) (user organization hub : Pk)
    (declined : List String) : Answer DB := do
  let (membership, _) ← found (db.membershipOf user organization)
    ⟨.doesNotExist, "Membership matching query does not exist."⟩
  let staged ← db.clients.get code.client
  let (d, client) := match db.findUnchangedClient env code.client staged manifest membership
    organization (some hub) with
    | some (kept, _) => (db.keepClient pk code.client staged kept, kept)
    | none => (db, code.client)
  let c ← d.clients.get client
  let d ← d.bindClient env client c manifest membership (some hub) declined none
  let scope := (d.clients.row client).elim [] (·.scope)
  return { d with deviceCodes := d.deviceCodes.modify pk fun code =>
    { code with organization := some organization, grantedScope := scope } }

/-- `assert_member_or_guest`: the membership of a member, or of a guest with a live grant. -/
def assertMemberOrGuest (user organization : Pk) : Answer Pk := do
  let (membership, _) ← found (db.membershipOf user organization) denied
  require (!db.isScoped membership || !(db.liveGrants membership).isEmpty) denied
  return membership

/-- Attach the mesh key minted at the approval to the code, if one was. -/
def attachMeshKey (pk : Pk) (key : Option String) : DB :=
  match key with
  | none => db
  | some k => { db with deviceCodes := db.deviceCodes.modify pk fun c => { c with authKey := some k } }

/-- `accept_device_code`; `minted` is the mesh key the control plane answers with, if asked. -/
def acceptDeviceCode (env : Env) (user pk : Pk) (proof : Option Nat) (hub : Pk) (declined : List String)
    (allowIonscale : Bool) (minted : Option String) : Answer DB := do
  let code ← db.resolveDeviceCode pk proof .app
  assert (!db.isExpired code) .graphQLError "This device code has expired."
  assert (!code.denied) .graphQLError "This device code was already denied."
  let h ← found (db.hubs.row hub) denied
  let membership ← db.assertMemberOrGuest user h.organization
  let guest := db.isScoped membership
  require (!guest || (db.liveGrants membership).any fun g => db.hubOf g.2.instance_ == some hub) denied
  let allowMesh := !guest || (db.meshHubIds membership).contains hub
  match code.staging with
  | .hub _ => refuse .exception "The staged manifest of this device code is malformed."
  | .app manifest =>
    let d ← db.validateDeviceCode env pk code manifest user h.organization hub declined
    return if allowIonscale && code.requestAuthKey && allowMesh then d.attachMeshKey pk minted else d

def declineDeviceCode (pk : Pk) (proof : Option Nat) (kind : DeviceCodeKind) : Answer DB := do
  let _ ← db.resolveDeviceCode pk proof kind
  return { db with deviceCodes := db.deviceCodes.modify pk fun c => { c with denied := true } }

/-! ## Accepting a hub -/

/-- Bind the hub's identity: the staged client takes over, the previous one's chain dies. -/
def bindHubIdentity (hub : Pk) (h : Hub) (client : Pk) (c : Client) (membership organization : Pk) :
    Answer DB := do
  let d ← db.saveClient client
    { c with membership := some membership, organization := some organization, scope := ["openid"] }
  assert (!d.hubs.exists? fun k x => k != hub && x.client == some client) .integrityError
    "duplicate key value violates unique constraint"
  let d := { d with hubs := d.hubs.modify hub fun x => { x with client := some client } }
  return match h.client with
    | some previous => if previous != client then d.delete .client [⟨.client, previous⟩] none else d
    | none => d

def provisionHub (env : Env) (pk : Pk) (code : DeviceCode) (manifest : HubManifest) (user organization : Pk)
    (allowIonscale : Bool) (minted : Option String) : Answer DB := do
  let (d, hub) := db.getOrCreateHub organization manifest user
  whenSome (given manifest.tlsCertificate) (validateTlsCertificate env)
  let d ← manifest.instances.foldlM (provisionService env hub organization user) (d.dropInstances hub manifest)
  let (membership, _) ← found (d.membershipOf user organization) denied
  let d ← reraise Kind.isMandateError .graphQLError (d.ensureHubMandates env hub manifest membership)
  let c ← d.clients.get code.client
  let h ← d.hubs.get hub
  let d ← d.bindHubIdentity hub h code.client c membership organization
  let d := if allowIonscale && manifest.requestAuthKey then d.attachMeshKey pk minted else d
  return { d with deviceCodes := d.deviceCodes.modify pk fun x =>
    { x with organization := some organization, grantedScope := ["openid"] } }

/-- `accept_hub_device_code`, by a full member who owns or administers the organization. -/
def acceptHubDeviceCode (env : Env) (user pk : Pk) (proof : Option Nat) (organization : Pk) (allowIonscale : Bool)
    (minted : Option String) : Answer DB := do
  let code ← db.resolveDeviceCode pk proof .hub
  let _ ← found (db.organizations.row organization) denied
  require (db.memberships.exists? fun m row => row.organization == organization && row.user == user
    && !db.isScoped m) denied
  assert (db.isOwnerOrAdmin user organization) .graphQLError
    "Only organization admins can add a hub. Ask an admin of this organization to do it."
  match code.staging with
  | .app _ => refuse .graphQLError "The staged hub manifest of this device code is malformed."
  | .hub manifest => db.provisionHub env pk code manifest user organization allowIonscale minted

/-! ## A machine joining the mesh -/

def startMeshDeviceCode (seconds : Time) : DB :=
  let code : MeshDeviceCode :=
    { code := db.draws, challengeCode := db.draws + 1, user := none, authKey := none,
      expiresAt := db.deviceCodeExpiry seconds, denied := false }
  { db with draws := db.draws + 2, meshDeviceCodes := db.meshDeviceCodes.insert code }

/-- `resolve_device_code_with_proof`, of a mesh code. -/
def resolveMeshDeviceCode (pk : Pk) (code : Option Nat) : Answer MeshDeviceCode := do
  let c ← found (db.meshDeviceCodes.row pk) denied
  require (code == some c.code) denied
  return c

/-- `reserved_tags`: those of the sidecars of apps and hubs. -/
def reservedTags (tags : List String) : List String :=
  tags.filter fun t => "tag:app-".toList.isPrefixOf t.toList || "tag:hub-".toList.isPrefixOf t.toList

/-- `accept_mesh_device_code`: neither the expiry nor an earlier answer is looked at. `minted` is the key
the control plane answers with, if the organization has a mesh and the mint goes through. -/
def acceptMeshDeviceCode (user pk : Pk) (proof : Option Nat) (organization : Pk) (tags : List String)
    (minted : Option String) :
    Answer DB := do
  let c ← db.resolveMeshDeviceCode pk proof
  let _ ← found (db.organizations.row organization) denied
  assert (db.isOwnerOrAdmin user organization) .graphQLError denied.text
  assert (reservedTags tags).isEmpty .graphQLError
    s!"Tags {commaJoin (reservedTags tags)} are reserved for app and hub sidecars and cannot be assigned by hand."
  let key ← found minted ⟨.exception, "This organization has no mesh."⟩
  return { db with meshDeviceCodes := db.meshDeviceCodes.put pk { c with authKey := some key } }

def declineMeshDeviceCode (pk : Pk) (proof : Option Nat) : Answer DB := do
  let c ← db.resolveMeshDeviceCode pk proof
  return { db with meshDeviceCodes := db.meshDeviceCodes.put pk { c with denied := true } }

/-- `MeshChallengeView.post`: a code that expired, was denied or was granted is burned. -/
def pollMeshDeviceCode (challenge : Nat) : DB × Answer String :=
  match db.meshDeviceCodes.first fun _ c => c.challengeCode == challenge with
  | none => (db, refuse .invalidGrant "Challenge does not exist")
  | some (pk, c) =>
    let burned := db.delete .meshDeviceCode [⟨.meshDeviceCode, pk⟩] none
    if c.expiresAt < db.now then
      (burned, refuse .expiredToken "The user has not given an answer in enough time")
    else if c.denied then (burned, refuse .accessDenied "The user has denied the request")
    else match c.authKey with
      | some key => (burned, .ok key)
      | none => (db, refuse .authorizationPending "User has not verified the challenge")

end DB

end Lok
