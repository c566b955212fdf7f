import Lok.Cascade

/-!
# Roles of memberships

A membership's roles change from either side of the relation, through `add`, `remove`,
`set` and `clear`. Each change runs the receivers: a guest is refused roles, the cached
`isAdmin` is recomputed, and the roles lok hands out by itself are synced, remembering
which of them an admin took away.
-/

namespace Lok

open Checks

def addPks (l new : List Pk) : List Pk := l ++ (new.filter fun pk => !l.contains pk)

def removePks (l gone : List Pk) : List Pk := l.filter fun pk => !gone.contains pk

namespace DB

variable (db : DB)

/-- `is_scoped`: the membership is a guest's. -/
abbrev isScoped (membership : Pk) : Bool := db.hasGrants membership

def modifyMembership (pk : Pk) (f : Membership → Membership) : DB :=
  { db with memberships := db.memberships.modify pk f }

/-! ## The roles lok hands out by itself -/

def serviceRoles (organization : Pk) (p : Role → Bool) : List Pk :=
  db.roles.pks fun _ r => r.organization == organization && p r

/-- `_sync`: give and take one full member's service roles. -/
def syncMembership (pk : Pk) : DB :=
  match db.memberships.row pk with
  | none => db
  | some m =>
    let adminRoles := db.serviceRoles m.organization (·.isAdminRole)
    let defaultRoles := db.serviceRoles m.organization (·.isDefaultRole)
    let administers := (db.organizations.row m.organization).any (·.owner == m.user) || db.holdsAdmin m
    let wanted := (if administers then adminRoles else []) ++ removePks defaultRoles m.withheldRoles
    let give := removePks wanted m.roles
    let take := removePks (m.automaticRoles.filter m.roles.contains) wanted
    let stale := removePks m.automaticRoles m.roles
    let db₁ := db.modifyMembership pk fun m =>
      { m with roles := removePks (addPks m.roles give) take,
               automaticRoles := removePks (addPks m.automaticRoles give) (take ++ stale) }
    if give.isEmpty && take.isEmpty then db₁ else db₁.syncAdmin [pk]

/-- `sync_service_roles`: guests are left out. -/
def syncServiceRoles (memberships : List Pk) : DB :=
  (memberships.filter fun pk => !db.isScoped pk).foldl syncMembership db

def syncOrganization (organization : Pk) : DB :=
  db.syncServiceRoles (db.memberships.pks fun _ m => m.organization == organization)

def givenByAnAdmin (membership : Pk) (roles : List Pk) : DB :=
  db.modifyMembership membership fun m => { m with withheldRoles := removePks m.withheldRoles roles }

/-- `_taken_by_an_admin`: a default role is withheld from now on, none is lok's any more. -/
def takenByAnAdmin (membership : Pk) (roles : List Pk) : DB :=
  let defaults := db.roles.pks fun pk r => roles.contains pk && r.isDefaultRole
  db.modifyMembership membership fun m =>
    { m with automaticRoles := removePks m.automaticRoles roles, withheldRoles := addPks m.withheldRoles defaults }

/-! ## From the membership's side -/

def guestOnly : Refused :=
  ⟨.validationError,
    "This person is only a guest of some collaborations. Make them a full member before giving them roles."⟩

/-- `membership.roles.add(*roles)`. -/
def addRoles (membership : Pk) (roles : List Pk) : Answer DB := do
  if roles.isEmpty then return db
  let m ← db.memberships.get membership
  require (!db.isScoped membership) guestOnly
  let missing := removePks roles m.roles
  assert (missing.all fun r => (db.roles.row r).isSome) .integrityError "violates foreign key constraint"
  let db₁ := db.modifyMembership membership fun m => { m with roles := addPks m.roles roles }
  return ((db₁.syncAdmin [membership]).givenByAnAdmin membership missing).syncServiceRoles [membership]

/-- `membership.roles.remove(*roles)`. -/
def removeRoles (membership : Pk) (roles : List Pk) : DB :=
  if roles.isEmpty then db
  else
    let db₁ := db.modifyMembership membership fun m => { m with roles := removePks m.roles roles }
    ((db₁.syncAdmin [membership]).takenByAnAdmin membership roles).syncServiceRoles [membership]

/-- `membership.roles.set(roles)`: the ones to go first, then the new ones. -/
def setRoles (membership : Pk) (roles : List Pk) : Answer DB := do
  let m ← db.memberships.get membership
  let db₁ := db.removeRoles membership (removePks m.roles roles)
  db₁.addRoles membership (removePks roles m.roles)

/-- `membership.roles.clear()`. -/
def clearRoles (membership : Pk) : DB :=
  let held := (db.memberships.row membership).elim [] (·.roles)
  let defaults := db.roles.pks fun pk r => held.contains pk && r.isDefaultRole
  let db₁ := db.modifyMembership membership fun m => { m with roles := [] }
  ((db₁.syncAdmin [membership]).takenByAnAdmin membership defaults).syncServiceRoles [membership]

/-! ## From the role's side -/

/-- `role.memberships.add(*memberships)`: only the memberships that lack the role are asked. -/
def addMemberships (role : Pk) (memberships : List Pk) : Answer DB := do
  let _ ← db.roles.get role
  let missing := db.memberships.pks fun pk m => memberships.contains pk && !m.roles.contains role
  require (missing.all fun pk => !db.isScoped pk) guestOnly
  let db₁ := { db with memberships := db.memberships.updateWhere (fun pk _ => missing.contains pk) fun m =>
    { m with roles := addPks m.roles [role] } }
  let db₂ := missing.foldl (fun d pk => d.givenByAnAdmin pk [role]) (db₁.syncAdmin missing)
  return db₂.syncServiceRoles missing

/-- Take a role out of the roles of memberships. -/
def dropRole (role : Pk) (memberships : List Pk) : DB :=
  { db with memberships := db.memberships.updateWhere (fun pk _ => memberships.contains pk) fun m =>
    { m with roles := removePks m.roles [role] } }

/-- `role.memberships.remove(*memberships)`. -/
def removeMemberships (role : Pk) (memberships : List Pk) : DB :=
  let db₁ := (db.dropRole role memberships).syncAdmin memberships
  let db₂ := memberships.foldl (fun d pk => d.takenByAnAdmin pk [role]) db₁
  db₂.syncServiceRoles memberships

/-- `role.memberships.set(memberships)`. -/
def setMemberships (role : Pk) (memberships : List Pk) : Answer DB := do
  let held := db.memberships.pks fun _ m => m.roles.contains role
  let db₁ := db.removeMemberships role (removePks held memberships)
  db₁.addMemberships role (removePks memberships held)

/-- `role.memberships.clear()`: the cached admins are recomputed, the service roles are not synced. -/
def clearMemberships (role : Pk) : DB :=
  let held := db.memberships.pks fun _ m => m.roles.contains role
  (db.dropRole role held).syncAdmin held

/-! ## Roles themselves -/

/-- Save a role under a new identifier: `isAdmin` is recomputed when it becomes or stops being `admin`. -/
def renameRole (role : Pk) (identifier : String) : Answer DB := do
  let r ← db.roles.get role
  assert (!db.roles.exists?
    fun pk x => pk != role && x.identifier == identifier && x.organization == r.organization)
    .integrityError "unique_together (identifier, organization)"
  let db₁ := { db with roles := db.roles.modify role fun r => { r with identifier := identifier } }
  if (r.identifier == adminRole) != (identifier == adminRole) then
    return db₁.syncAdmin (db₁.memberships.pks fun _ m => m.roles.contains role)
  return db₁

/-! ## Who may -/

def isOwnerOrAdmin (user organization : Pk) : Bool :=
  (db.organizations.row organization).any (·.owner == user)
    || db.memberships.exists? fun _ m => m.organization == organization && m.user == user && m.isAdmin

end DB

end Lok
