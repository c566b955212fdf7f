import Lok.Revocation
import Lok.Runs

/-!
# The system

Everything the deployment does to its database, one action at a time. Requests that the
source does not run in one transaction are also here in their parts, so that what a request
leaves when it fails halfway is a state of the system too. A refused action leaves what the
function it calls leaves.
-/

namespace Lok

inductive Action
  | tick (seconds : Time)
  -- users and organizations
  | createUser (username : String) (groups : List String)
  | setActive (user : Pk) (active : Bool)
  | setActiveOrganization (user : Pk) (organization : Option Pk)
  | createOrganization (slug : String) (owner : Pk) (requireDeviceAuth : Bool)
  | updateOrganization (organization : Pk) (slug : String) (requireDeviceAuth : Bool)
    (accessTokenLifetime : Option Int)
  | changeOrganizationOwner (user organization newOwner : Pk)
  | delete (model : Model) (pks : List Pk)
  -- memberships, roles and guests
  | createMembership (user organization : Pk)
  | createRole (identifier : String) (organization : Pk)
  | renameRole (role : Pk) (identifier : String)
  | addRoles (membership : Pk) (roles : List Pk)
  | removeRoles (membership : Pk) (roles : List Pk)
  | setRoles (membership : Pk) (roles : List Pk)
  | clearRoles (membership : Pk)
  | addMemberships (role : Pk) (memberships : List Pk)
  | removeMemberships (role : Pk) (memberships : List Pk)
  | clearMemberships (role : Pk)
  | syncServiceRoles (memberships : List Pk)
  | createInvite (createdBy createdFor : Pk) (expiresAt : Option Time) (roles : List Pk)
      (sharedCollaborations : Option (List CollaborationRef)) (maxUses : Option Nat) (mesh : Bool)
  | answerInvite (invite : Pk) (status : InviteStatus)
  | redeemInvite (invite user : Pk)
  | grantCollaborations (membership : Pk) (entries : List CollaborationRef) (invite grantedBy : Option Pk)
      (expiresAt : Option Time) (mesh : Bool)
  | revokeGrant (grant : Pk)
  | revokeInviteGrants (invite : Pk)
  | upgradeToFull (membership : Pk)
  | requestRole (membership role : Pk)
  | approveRoleRequest (request user : Pk)
  | requestMembership (user organization : Pk)
  | approveMembershipRequest (request user : Pk) (identifiers : List String)
  | updateMembership (user membership : Pk) (roles : List Pk)
  | addUserToOrganization (user target organization : Pk) (identifiers : List String)
  -- hubs and services
  | configureHub (organization : Pk) (manifest : HubManifest)
  | configureHubMandates (hub : Pk) (manifest : HubManifest)
  | registerPermissions (instance_ organization : Pk) (roles : List RoleDeclaration)
    (scopes : List ScopeDeclaration)
  | updateServiceInstance (instance_ : Pk) (allowedUsers deniedUsers : List Pk)
    (allowedGroups deniedGroups : List String)
  | ensureConfigMandate (spec : MandateKeySettings)
  | revokeDropped (names : List String)
  -- device codes
  | ensureOpenId (config : OpenIDAppConfig)
  | startDeviceCode (manifest : Manifest) (kind : ClientKind) (role : ClientRole) (redirectUris : List String)
      (requestPublic : Bool) (seconds : Time) (requestAuthKey : Bool)
  | startHubDeviceCode (manifest : HubManifest) (seconds : Time)
  | purgeExpiredDeviceCodes
  | acceptDeviceCode (user pk : Pk) (proof : Option Nat) (hub : Pk) (declined : List String) (allowIonscale : Bool)
      (minted : Option String)
  | acceptHubDeviceCode (user pk : Pk) (proof : Option Nat) (organization : Pk) (allowIonscale : Bool)
      (minted : Option String)
  | declineDeviceCode (pk : Pk) (proof : Option Nat) (kind : DeviceCodeKind)
  | startMeshDeviceCode (seconds : Time)
  | acceptMeshDeviceCode (user pk : Pk) (proof : Option Nat) (organization : Pk) (tags : List String)
    (minted : Option String)
  | declineMeshDeviceCode (pk : Pk) (proof : Option Nat)
  | pollMeshDeviceCode (challenge : Nat)
  -- mandates
  | issueMandate (issuer : Issuer) (grantor hub : Pk) (pin : MandatePin) (claimant : Claimant)
      (expiresAt : Option Time)
      (maxClients : Option Nat) (allowMesh : Bool) (label minted : String)
  | revokeMandate (mandate : Pk)
  | revokeIssuedBy (clients : List Pk)
  | authenticateKey (request : MandateKeyGrantRequest)
  -- the endpoints
  | authorize (user organization : Pk) (request : DB.AuthorizationRequest)
  | requestToken (request : TokenRequest)
  | revokeToken (clientId : ClientId) (secret : Option String) (token : Nat)
  -- cutting off
  | revokeTokensOf (clients : List Pk)
  | rejectAppInstallation (client : Pk)
  | revokeClientSessions (user client : Pk)
  | revokeOrganizationSessions (user organization : Pk)
  deriving Repr

namespace DB

variable (db : DB)

/-- A request in one transaction: refused, it leaves the database as it was. -/
def settle (x : Answer DB) : DB :=
  match x with
  | .ok d => d
  | .error _ => db

def createUser (username : String) (groups : List String) : DB :=
  if db.users.exists? fun _ u => u.username == username then db
  else { db with users := db.users.insert ⟨username, true, none, groups⟩ }

def createRole (identifier : String) (organization : Pk) : Answer DB := do
  let _ ← db.organizations.get organization
  return (db.getOrCreateRole identifier organization).1

/-- `delete()` of rows somebody asks to delete. -/
def deleteRows (model : Model) (pks : List Pk) : Answer DB := do
  let roots := pks.map fun pk => ⟨model, pk⟩
  Lok.assert (db.keepsApart (db.collect roots)) .integrityError "duplicate key value violates unique constraint"
  return db.delete model roots none

/-- `update_organization`, by the owner: the slug is not somebody else's, and a lifetime is one that is allowed. -/
def updateOrganization (organization : Pk) (slug : String) (requireDeviceAuth : Bool)
    (accessTokenLifetime : Option Int) :
    Answer DB := do
  let _ ← db.organizations.get organization
  Lok.assert (!db.organizations.exists? fun pk o => pk != organization && o.slug == slug)
    .integrityError "unique slug"
  Lok.assert (accessTokenLifetime.all
    fun (n : Int) => decide (minAccessTokenExpiresIn ≤ n ∧ n ≤ maxAccessTokenExpiresIn)) .graphQLError
    s!"The access token lifetime must be between {minAccessTokenExpiresIn} and {maxAccessTokenExpiresIn} seconds."
  let d := { db with organizations := db.organizations.modify organization fun o =>
    { o with slug := slug, requireDeviceAuth := requireDeviceAuth,
             accessTokenLifetime := accessTokenLifetime.or o.accessTokenLifetime } }
  d.saveOrganization organization

def createInvite (createdBy createdFor : Pk) (expiresAt : Option Time) (roles : List Pk)
    (sharedCollaborations : Option (List CollaborationRef)) (maxUses : Option Nat) (mesh : Bool) : Answer DB := do
  let _ ← db.users.get createdBy
  let _ ← db.organizations.get createdFor
  let invite : Invite :=
    { createdBy, createdFor, expiresAt, status := .pending, acceptedBy := none,
      roles := roles.filter fun r => (db.roles.row r).any (·.organization == createdFor),
        sharedCollaborations, maxUses,
      uses := 0, mesh }
  return { db with invites := db.invites.insert invite }

/-- `decline_invite` and `cancel_invite`, of a pending invite. -/
def answerInvite (invite : Pk) (status : InviteStatus) : DB :=
  db.modifyInvite invite fun i => if i.status == .pending then { i with status := status } else i

def requestRole (membership role : Pk) : Answer DB := do
  let m ← db.memberships.get membership
  Lok.assert (!db.isScoped membership) .graphQLError "Not found, or you are not authorized to access it."
  let r ← db.roles.get role
  Lok.assert (r.organization == m.organization) .graphQLError "That role does not belong to this organization."
  Lok.assert (!m.roles.contains role) .graphQLError "You already have this role."
  Lok.assert (!db.roleRequests.exists? fun _ q => q.membership == membership && q.role == role
    && q.status == .pending)
    .graphQLError "You already have a pending request for this role."
  return { db with roleRequests := db.roleRequests.insert ⟨membership, role, .pending, none, none⟩ }

def maxPendingRequests : Nat := 10

/-- How long a declined request keeps the same user from asking again. -/
def declineCooldown : Time := 7 * day

/-- `_store_request`: nothing tells the user why a request is not stored. -/
def storeRequest (user organization : Pk) : DB :=
  let mine := fun (p : MembershipRequest → Bool) => db.membershipRequests.count fun _ q => q.user == user && p q
  let recent := fun (q : MembershipRequest) =>
    q.status == .pending || q.status == .declined && q.respondedAt.any (db.now ≤ · + declineCooldown)
  if (db.organizations.row organization).isNone
      || (db.memberships.exists? fun pk m => m.user == user && m.organization == organization && !db.isScoped pk)
      || 0 < mine (fun q => recent q && q.organization == organization)
      || maxPendingRequests ≤ mine (·.status == .pending) then db
  else { db with
      membershipRequests := db.membershipRequests.insert ⟨user, organization, .pending, none, none, none⟩ }

def requestMembership (user organization : Pk) : Answer DB := do
  let _ ← db.users.get user
  return db.storeRequest user organization

/-- `update_service_instance`: its access lists. -/
def updateServiceInstance (instance_ : Pk) (allowedUsers deniedUsers : List Pk)
    (allowedGroups deniedGroups : List String) :
    DB :=
  { db with instances := db.instances.modify instance_ fun i =>
    { i with allowedUsers := allowedUsers, deniedUsers := deniedUsers, allowedGroups := allowedGroups,
             deniedGroups := deniedGroups } }

end DB

def step (env : Env) (db : DB) : Action → DB
  | .tick seconds => { db with now := db.now + seconds }
  | .createUser username groups => db.createUser username groups
  | .setActive user active => { db with users := db.users.modify user fun u => { u with isActive := active } }
  | .setActiveOrganization user organization =>
    { db with users := db.users.modify user fun u => { u with activeOrganization := organization } }
  | .createOrganization slug owner device => db.settle ((db.createOrganization slug owner device).map (·.1))
  | .updateOrganization organization slug device lifetime =>
    db.settle (db.updateOrganization organization slug device lifetime)
  | .changeOrganizationOwner user organization owner =>
    db.settle (db.changeOrganizationOwner user organization owner)
  | .delete model pks => db.settle (db.deleteRows model pks)
  | .createMembership user organization => db.settle ((db.createMembership user organization none).map (·.1))
  | .createRole identifier organization => db.settle (db.createRole identifier organization)
  | .renameRole role identifier => db.settle (db.renameRole role identifier)
  | .addRoles membership roles => db.settle (db.addRoles membership roles)
  | .removeRoles membership roles => db.removeRoles membership roles
  | .setRoles membership roles => db.settle (db.setRoles membership roles)
  | .clearRoles membership => db.clearRoles membership
  | .addMemberships role memberships => db.settle (db.addMemberships role memberships)
  | .removeMemberships role memberships => db.removeMemberships role memberships
  | .clearMemberships role => db.clearMemberships role
  | .syncServiceRoles memberships => db.syncServiceRoles memberships
  | .createInvite createdBy createdFor expiresAt roles shared maxUses mesh =>
    db.settle (db.createInvite createdBy createdFor expiresAt roles shared maxUses mesh)
  | .answerInvite invite status => db.answerInvite invite status
  | .redeemInvite invite user => db.settle ((db.redeemInvite invite user).map (·.1))
  | .grantCollaborations membership entries invite grantedBy expiresAt mesh =>
    db.settle ((db.grantCollaborations membership entries invite grantedBy expiresAt mesh).map (·.1))
  | .revokeGrant grant => db.revokeGrant grant
  | .revokeInviteGrants invite => db.revokeInviteGrants invite
  | .upgradeToFull membership => db.upgradeToFull membership
  | .requestRole membership role => db.settle (db.requestRole membership role)
  | .approveRoleRequest request user => db.settle (db.approveRoleRequest request user)
  | .requestMembership user organization => db.settle (db.requestMembership user organization)
  | .approveMembershipRequest request user identifiers =>
    db.settle (db.approveMembershipRequest request user identifiers)
  | .updateMembership user membership roles => db.settle (db.updateMembership user membership roles)
  | .addUserToOrganization user target organization identifiers =>
    db.settle (db.addUserToOrganization user target organization identifiers)
  | .configureHub organization manifest => (db.configureHub env organization manifest).1
  | .configureHubMandates hub manifest => db.settle (db.configureHubMandates env hub manifest)
  | .registerPermissions instance_ organization roles scopes =>
    db.registerPermissions instance_ organization roles scopes
  | .updateServiceInstance instance_ allowedUsers deniedUsers allowedGroups deniedGroups =>
    db.updateServiceInstance instance_ allowedUsers deniedUsers allowedGroups deniedGroups
  | .ensureConfigMandate spec => db.settle (db.ensureConfigMandate env spec)
  | .revokeDropped names => (db.revokeDropped names).1
  | .ensureOpenId config => db.ensureOpenId config
  | .startDeviceCode manifest kind role uris isPublic seconds auth =>
    db.startDeviceCode manifest kind role uris isPublic seconds auth
  | .startHubDeviceCode manifest seconds => db.startHubDeviceCode manifest seconds
  | .purgeExpiredDeviceCodes => db.purgeExpiredDeviceCodes
  | .acceptDeviceCode user pk proof hub declined allow minted =>
    db.settle (db.acceptDeviceCode env user pk proof hub declined allow minted)
  | .acceptHubDeviceCode user pk proof organization allow minted =>
    db.settle (db.acceptHubDeviceCode env user pk proof organization allow minted)
  | .declineDeviceCode pk proof kind => db.settle (db.declineDeviceCode pk proof kind)
  | .startMeshDeviceCode seconds => db.startMeshDeviceCode seconds
  | .acceptMeshDeviceCode user pk proof organization tags minted =>
    db.settle (db.acceptMeshDeviceCode user pk proof organization tags minted)
  | .declineMeshDeviceCode pk proof => db.settle (db.declineMeshDeviceCode pk proof)
  | .pollMeshDeviceCode challenge => (db.pollMeshDeviceCode challenge).1
  | .issueMandate issuer grantor hub pin claimant expiresAt maxClients allowMesh label minted =>
    db.settle ((db.issueMandate env issuer grantor hub pin claimant expiresAt maxClients allowMesh label
      minted).map (·.1))
  | .revokeMandate mandate => db.settle (db.revokeMandate mandate .revoked)
  | .revokeIssuedBy clients => (db.revokeIssuedBy clients).1
  | .authenticateKey request => db.settle ((db.authenticateKey env request).map (·.1))
  | .authorize user organization request => db.settle ((db.authorize user organization request).map (·.1))
  | .requestToken request => (db.createTokenResponse env request).1
  | .revokeToken clientId secret token => db.settle (db.revokeToken clientId secret token)
  | .revokeTokensOf clients => db.revokeTokensOf clients
  | .rejectAppInstallation client => (db.rejectAppInstallation client).1
  | .revokeClientSessions user client => (db.revokeClientSessions user client).1
  | .revokeOrganizationSessions user organization => (db.revokeOrganizationSessions user organization).1

def Step (env : Env) (db : DB) (a : Action) (d : DB) : Prop := d = step env db a

/-- The states of the system: what any number of actions makes of a new deployment. -/
def Reachable (env : Env) (db : DB) : Prop := ∃ as, Runs.Run (Step env) .empty as db

theorem Reachable.step {env : Env} {db d : DB} {a : Action} (h : Reachable env db) (hd : d = Lok.step env db a) :
    Reachable env d := by
  obtain ⟨as, has⟩ := h
  exact ⟨as ++ [a], has.snoc hd⟩

/-- What some actions leave, one after the other. -/
def run (env : Env) (db : DB) (as : List Action) : DB := as.foldl (step env) db

theorem run_steps (env : Env) : ∀ (as : List Action) (db : DB), Runs.Run (Step env) db as (run env db as)
  | [], db => .nil db
  | a :: as, db => .cons (t := step env db a) rfl (run_steps env as (step env db a))

theorem reachable_run (env : Env) (as : List Action) : Reachable env (run env .empty as) :=
  ⟨as, run_steps env as .empty⟩

/-! ## A small deployment -/

/-- An environment whose digests are the things themselves. -/
def plainEnv : Env := ⟨id, fun id _ => id, fun m => m.identifier ++ m.version, id, true, fun _ => none, fun _ _ => none⟩

/-- A hub that runs a service `data` and a service `mail`. -/
def plainHub : HubManifest :=
  ⟨"hub", "hub", [⟨"data", "data", "1", none, [], [], none⟩, ⟨"mail", "mail", "1", none, [], [], none⟩],
   [], false, none⟩

/-- An app that needs `data` and can do without `mail`. -/
def plainApp : Manifest := ⟨"app", "1", [], [⟨"data", "data", false⟩, ⟨"mail", "mail", true⟩], none, ""⟩

/-- Ann owns an organization with a hub, and approves the app there without some of its optional requirements. -/
def plainSetup (declined : List String) : List Action :=
  [.createUser "ann" [], .createOrganization "org" 0 false, .configureHub 0 plainHub,
   .startDeviceCode plainApp .desktop .interface ["app://"] false 600 false,
   .acceptDeviceCode 0 0 (some 1) 0 declined false none]

def plainKey : String := "an-example-of-a-mandate-key-of-lok"

def plainWorker : Manifest := ⟨"worker", "1", [], [], none, ""⟩

/-- The same hub, which proposes the key its worker logs in with. -/
def keyedHub : HubManifest := { plainHub with clients := [⟨"worker", none, plainWorker, plainKey⟩] }

def workerLogin : MandateKeyGrantRequest := ⟨plainKey, plainWorker, .desktop, .interface, false⟩

end Lok
