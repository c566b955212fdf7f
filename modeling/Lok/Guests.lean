import Lok.Roles

/-!
# Guests

Whoever accepts a collaboration invite gets a scoped membership: no roles, and a grant for
each collaboration. Being a guest is not a flag but the presence of grants. Invites,
requests and the admin's mutations that give roles go through the functions here, and
`upgradeToFull` is the one way a guest becomes a full member.
-/

namespace Lok

open Checks

def maxCollaborationsPerInvite : Nat := 50

def maxGrantsPerMembership : Nat := 200

def unionRoles (a b : List String) : List String := sortedSet (a ++ b)

/-- `_merge`: the same collaboration given twice holds the roles of both. -/
def mergeRefs : List CollaborationRef → List CollaborationRef
  | [] => []
  | ref :: refs =>
    let rest := mergeRefs refs
    let same := rest.filter fun r => r.instance_ == ref.instance_ && r.collaboration == ref.collaboration
    { ref with roles := unionRoles ref.roles (same.flatMap (·.roles)) }
      :: rest.filter fun r => !(r.instance_ == ref.instance_ && r.collaboration == ref.collaboration)

namespace DB

variable (db : DB)

/-- `_check_instances`: each instance runs on one of the organization's hubs. -/
def checkInstances (instances : List Pk) (organization : Pk) : Answer Unit := do
  let known := fun i => (db.instances.row i).any
    fun inst => (db.hubs.row inst.hub).any (·.organization == organization)
  let unknown := instances.filter fun i => !known i
  assert unknown.isEmpty .validationError
    s!"Not a service instance of this organization: {commaJoin ((unknown.eraseDups.mergeSort Nat.ble).map toString)}."

/-- What one collaboration adds to a membership, and whether it changed anything. -/
def grantOne (membership : Pk) (invite grantedBy : Option Pk) (expiresAt : Option Time) (mesh : Bool)
    (state : DB × Bool) (ref : CollaborationRef) : Answer (DB × Bool) := do
  let (d, changed) := state
  match d.grants.first fun _ g => g.membership == membership && g.instance_ == ref.instance_
      && g.collaborationId == ref.collaboration with
  | none =>
    let grant := ⟨membership, ref.instance_, ref.collaboration, ref.roles, invite, grantedBy, expiresAt, mesh⟩
    let d₁ := { d with grants := d.grants.insert grant }
    assert (d₁.grants.count (fun _ g => g.membership == membership) ≤ maxGrantsPerMembership) .validationError
      s!"At most {maxGrantsPerMembership} collaborations can be granted to one person."
    return (d₁, true)
  | some (pk, g) =>
    let roles := unionRoles g.roles ref.roles
    if roles != sortedSet g.roles || (mesh && !g.mesh) then
      return ({ d with grants := d.grants.modify pk fun g =>
        { g with roles := roles, mesh := g.mesh || mesh, grantedThrough := invite, grantedBy := grantedBy } },
      true)
    return (d, changed)

def grantCollaborations (membership : Pk) (entries : List CollaborationRef) (invite grantedBy : Option Pk)
    (expiresAt : Option Time) (mesh : Bool) : Answer (DB × Bool) := do
  let m ← db.memberships.get membership
  assert m.roles.isEmpty .validationError "This person is already a member; there is nothing to grant them."
  let refs := mergeRefs entries
  assert (!refs.isEmpty) .validationError "There is no collaboration to grant."
  db.checkInstances (refs.map (·.instance_)) m.organization
  refs.foldlM (grantOne membership invite grantedBy expiresAt mesh) (db, false)

/-- Delete grants one after the other. -/
def deleteGrants (grants : List Pk) (upgrading : Option Pk) : DB :=
  grants.foldl (fun d pk => d.delete .grant [⟨.grant, pk⟩] upgrading) db

def grantsOf (membership : Pk) : List Pk := db.grants.pks fun _ g => g.membership == membership

/-- `upgrade_to_full`: the grants go, the membership stays. -/
def upgradeToFull (membership : Pk) : DB := db.deleteGrants (db.grantsOf membership) (some membership)

def revokeGrant (grant : Pk) : DB := db.deleteGrants [grant] none

def revokeInviteGrants (invite : Pk) : DB :=
  db.deleteGrants (db.grants.pks fun _ g => g.grantedThrough == some invite) none

/-! ## What a guest reaches -/

/-- The users who are active full members of an organization. -/
def isActiveFullMember (organization user : Pk) : Bool :=
  (db.memberships.exists? fun pk m => m.organization == organization && m.user == user && !db.isScoped pk)
    && (db.users.row user).any (·.isActive)

def grantLives (organization : Pk) (g : CollaborationGrant) : Bool :=
  g.expiresAt.all (db.now < ·) && g.grantedBy.any (db.isActiveFullMember organization)

/-- `live_grants`: unexpired, from a granter who is still an active full member. -/
def liveGrants (membership : Pk) : List (Pk × CollaborationGrant) :=
  match db.memberships.row membership with
  | none => []
  | some m => db.grants.filter fun _ g => g.membership == membership && db.grantLives m.organization g

def hubOf (instance_ : Pk) : Option Pk := (db.instances.row instance_).map (·.hub)

def meshHubIds (membership : Pk) : List Pk :=
  ((db.liveGrants membership).filter fun g => g.2.mesh).filterMap fun g => db.hubOf g.2.instance_

/-- The identifiers of the roles a user holds in an organization. -/
def rolesHeld (organization user : Pk) : List String :=
  (db.memberships.filter fun _ m => m.organization == organization && m.user == user).flatMap fun m =>
    m.2.roles.filterMap fun r => (db.roles.row r).map (·.identifier)

/-- `live_collaborations`: what a token lists, by service name and collaboration id, with the roles held there. -/
def liveCollaborations (membership : Pk) (instances : List Pk) : List (String × String × List String) :=
  match db.memberships.row membership with
  | none => []
  | some m =>
    let grants := ((db.liveGrants membership).filter fun g => instances.contains g.2.instance_).take
      maxGrantsPerMembership
    grants.filterMap fun g => (db.instances.row g.2.instance_).map fun i =>
      let held := g.2.grantedBy.elim [] (db.rolesHeld m.organization)
      (i.instanceId, g.2.collaborationId, sortedSet (g.2.roles.filter held.contains))

/-! ## Making members -/

/-- `Membership.objects.create`; one membership per user and organization. -/
def createMembership (user organization : Pk) (createdThrough : Option Pk) : Answer (DB × Pk) := do
  let _ ← db.users.get user
  let _ ← db.organizations.get organization
  assert (!db.memberships.exists? fun _ m => m.user == user && m.organization == organization) .integrityError
    "unique_together (user, organization)"
  return ({ db with memberships := db.memberships.insert ⟨user, organization, [], false, createdThrough, [], []⟩ },
    db.memberships.next)

def membershipOf (user organization : Pk) : Option (Pk × Membership) :=
  db.memberships.first fun _ m => m.user == user && m.organization == organization

def getOrCreateMembership (user organization : Pk) (createdThrough : Option Pk) : Answer (DB × Pk) :=
  match db.membershipOf user organization with
  | some (pk, _) => .ok (db, pk)
  | none => db.createMembership user organization createdThrough

def rolesNamed (identifiers : List String) (organization : Pk) : List Pk :=
  db.roles.pks fun _ r => identifiers.contains r.identifier && r.organization == organization

/-! ## Invites -/

/-- `Invite.is_valid`. -/
def inviteIsValid (invite : Invite) : Bool := invite.status == .pending && invite.expiresAt.all (db.now ≤ ·)

def checkAcceptable (invite : Invite) : Answer Unit :=
  if db.inviteIsValid invite then .ok ()
  else match invite.status with
    | .accepted => refuse .inviteError "This invite has already been accepted"
    | .declined => refuse .inviteError "This invite has been declined"
    | .cancelled => refuse .inviteError "This invite has been cancelled"
    | .pending => refuse .inviteError "This invite has expired"

def modifyInvite (pk : Pk) (f : Invite → Invite) : DB := { db with invites := db.invites.modify pk f }

/-- `Invite.accept`. -/
def acceptInvite (invite user : Pk) : DB :=
  db.modifyInvite invite fun i => { i with status := .accepted, acceptedBy := some user }

def assignInviteRoles (membership : Pk) (invite : Invite) : Answer DB :=
  if !invite.roles.isEmpty then db.setRoles membership invite.roles
  else match db.roles.first fun _ r => r.identifier == "guest" && r.organization == invite.createdFor with
    | some (guestRole, _) => db.addRoles membership [guestRole]
    | none => .ok db

/-- A collaboration invite: what changes the guest's grants is counted. -/
def redeemCollaborationInvite (pk : Pk) (invite : Invite) (refs : List CollaborationRef) (user : Pk) :
    Answer (DB × Pk) := do
  let (d, membership) ← db.getOrCreateMembership user invite.createdFor (some pk)
  let (d, changed) ← reraise (· == .validationError) .inviteError
    (d.grantCollaborations membership refs (some pk) (some invite.createdBy) none invite.mesh)
  if !changed then return (d, membership)
  let d := d.modifyInvite pk fun i => { i with uses := i.uses + 1 }
  return (if invite.maxUses.any (· ≤ invite.uses + 1) then d.acceptInvite pk user else d, membership)

/-- Give a new full member the invite's roles, and spend it. -/
def welcome (pk : Pk) (invite : Invite) (user membership : Pk) : Answer (DB × Pk) := do
  let d ← db.assignInviteRoles membership invite
  return ((d.modifyInvite pk fun i => { i with uses := i.uses + 1 }).acceptInvite pk user, membership)

/-- An ordinary invite: a guest is upgraded, a full member stays as they are. -/
def redeemMemberInvite (pk : Pk) (invite : Invite) (user : Pk) : Answer (DB × Pk) :=
  match db.membershipOf user invite.createdFor with
  | some (membership, _) =>
    if db.isScoped membership then
      ((db.upgradeToFull membership).modifyMembership membership
        fun m => { m with createdThrough := some pk }).welcome pk
        invite user membership
    else .ok (db.acceptInvite pk user, membership)
  | none => do
    let (d, membership) ← db.createMembership user invite.createdFor (some pk)
    d.welcome pk invite user membership

def redeemInvite (pk user : Pk) : Answer (DB × Pk) := do
  let invite ← db.invites.get pk
  db.checkAcceptable invite
  match invite.sharedCollaborations, (db.membershipOf user invite.createdFor).map (·.1) with
  | some refs, some membership =>
    if db.isScoped membership then db.redeemCollaborationInvite pk invite refs user else .ok (db, membership)
  | some refs, none => db.redeemCollaborationInvite pk invite refs user
  | none, _ => db.redeemMemberInvite pk invite user

/-! ## Requests and the admin's mutations -/

/-- `RoleRequest.approve`, whatever the status of the request. -/
def approveRoleRequest (request user : Pk) : Answer DB := do
  let r ← db.roleRequests.get request
  let d ← db.addRoles r.membership [r.role]
  return { d with roleRequests := d.roleRequests.modify request fun r =>
    { r with status := .approved, resolvedBy := some user, respondedAt := some d.now } }

/-- Give a user a full membership with these roles: guests are upgraded first. -/
def letIn (membership : Pk) : DB := if db.isScoped membership then db.upgradeToFull membership else db

/-- `MembershipRequest.approve`, of a pending request: without roles the member gets `guest`. -/
def approveMembershipRequest (request user : Pk) (identifiers : List String) : Answer DB := do
  let r ← db.membershipRequests.get request
  assert (r.status == .pending) .graphQLError s!"This request has already been {r.status.value}"
  let (d, membership) ← db.getOrCreateMembership r.user r.organization none
  let d := d.letIn membership
  let named := d.rolesNamed identifiers r.organization
  let d ← d.addRoles membership (if named.isEmpty then d.rolesNamed ["guest"] r.organization else named)
  return { d with membershipRequests := d.membershipRequests.modify request fun r =>
    { r with
      status := .approved, resolvedBy := some user, respondedAt := some d.now, createdMembership := some membership } }

/-- `update_membership`, by an owner or admin. -/
def updateMembership (user membership : Pk) (roles : List Pk) : Answer DB := do
  let m ← db.memberships.get membership
  assert (db.isOwnerOrAdmin user m.organization) .graphQLError
    "You are not allowed to manage memberships for this organization."
  if roles.isEmpty then return db
  let own := db.roles.pks fun pk r => roles.contains pk && r.organization == m.organization
  (db.letIn membership).setRoles membership own

/-- `add_user_to_organization`, by an owner or admin, of someone who was invited or belongs already. -/
def addUserToOrganization (user target organization : Pk) (identifiers : List String) : Answer DB := do
  assert (db.isOwnerOrAdmin user organization) .graphQLError "Not found, or you are not authorized to access it."
  let (d, membership) ← db.getOrCreateMembership target organization none
  let roles := d.rolesNamed identifiers organization
  assert (roles.length == (sortedSet identifiers).length) .graphQLError
    s!"Unknown role(s) for this organization: {commaJoin (sortedSet (identifiers.filter fun i =>
      !(d.rolesNamed [i] organization).any fun _ => true))}"
  (d.letIn membership).setRoles membership roles

/-! ## Organizations -/

def getOrCreateRole (identifier : String) (organization : Pk) : DB × Pk :=
  match db.roles.first fun _ r => r.identifier == identifier && r.organization == organization with
  | some (pk, _) => (db, pk)
  | none =>
    ({ db with roles := db.roles.insert ⟨identifier, none, organization, none, false, false, false, []⟩ },
      db.roles.next)

/-- `update_or_create` of a scope no service made. -/
def ensureScope (organization : Pk) (identifier : String) (description : Option String)
    (isAllScope isBuiltin : Option Bool) : DB :=
  match db.scopes.first fun _ s => s.identifier == identifier && s.organization == organization with
  | some (pk, _) => { db with scopes := db.scopes.modify pk fun s =>
      { s with description := description.or s.description, isAllScope := isAllScope.getD s.isAllScope,
               isBuiltin := isBuiltin.getD s.isBuiltin } }
  | none =>
    let scope := ⟨identifier, description, organization, none, isBuiltin.getD false, isAllScope.getD false, []⟩
    { db with scopes := db.scopes.insert scope }

def createDefaultScopesForOrg (organization : Pk) : DB :=
  let d := ["openid", "profile", "email", "roles", "groups"].foldl
    (fun d s => d.ensureScope organization s none none none) db
  lokScopes.foldl (fun d s => d.ensureScope organization s.key (some s.description)
    (some s.isAllScope) (some true)) d

def ensureOwnerIsAdmin (organization : Pk) : Answer DB := do
  let o ← db.organizations.get organization
  let (d, membership) ← db.getOrCreateMembership o.owner organization none
  let (d, role) := d.getOrCreateRole adminRole organization
  let d ← d.addRoles membership [role]
  return d.syncOrganization organization

/-- What saving an organization runs: `ensure_default_roles_for_org`. -/
def saveOrganization (organization : Pk) : Answer DB := do
  let (d, _) := db.getOrCreateRole adminRole organization
  let (d, _) := d.getOrCreateRole "guest" organization
  let d ← d.ensureOwnerIsAdmin organization
  return d.createDefaultScopesForOrg organization

/-- `Organization.objects.create`. -/
def createOrganization (slug : String) (owner : Pk) (requireDeviceAuth : Bool) : Answer (DB × Pk) := do
  let _ ← db.users.get owner
  assert (!db.organizations.exists? fun _ o => o.slug == slug) .integrityError "unique slug"
  let d ← saveOrganization { db with
      organizations := db.organizations.insert ⟨slug, owner, requireDeviceAuth, none⟩ }
    db.organizations.next
  return (d, db.organizations.next)

/-- `change_organization_owner`: the new owner is a full member. -/
def changeOrganizationOwner (user organization newOwner : Pk) : Answer DB := do
  let o ← db.organizations.get organization
  assert (o.owner == user) .graphQLError "Only the current owner can transfer ownership of the organization."
  assert (db.memberships.exists? fun pk m => m.organization == organization
    && m.user == newOwner && !db.isScoped pk)
    .graphQLError "The new owner must be a member of the organization."
  saveOrganization { db with
      organizations := db.organizations.modify organization fun o => { o with owner := newOwner } }
    organization

end DB

end Lok
