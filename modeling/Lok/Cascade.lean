import Lok.Closure
import Lok.Schema

/-!
# Deletion

Deleting rows deletes, with them, every row that hangs on one of them by a cascading
foreign key, clears the nullable keys that are set to null instead, and takes them out of
the many-to-many relations. Then the receivers run: a deleted grant may take its membership
along, a deleted hub its identity, and deleting the `admin` role recomputes the admins.
Each receiver is told the `origin`, the model the deletion began at.
-/

namespace Lok

inductive Model
  | user | organization | role | scope | membership | grant | invite | roleRequest | membershipRequest | device
  | hub | instance_ | client | mapping | mandate | deviceCode | meshDeviceCode | authorizationCode | usedNonce
    | token
  deriving DecidableEq, Repr

/-- A row, named by its model and key. -/
structure Ref where
  model : Model
  pk : Pk
  deriving DecidableEq, Repr

def refsOf {α : Type} (model : Model) (t : Table α) : List Ref := t.rows.map fun r => ⟨model, r.1⟩

/-- The row a nullable key points at, if any. -/
def refOf (model : Model) (o : Option Pk) : List Ref := o.toList.map (⟨model, ·⟩)

@[simp] theorem mem_refOf {model : Model} {o : Option Pk} {r : Ref} :
    r ∈ refOf model o ↔ ∃ pk, o = some pk ∧ r = ⟨model, pk⟩ := by
  simp [refOf, eq_comm]

/-! ## The cascading foreign keys -/

def User.hangsOn (u : User) : List Ref := refOf .organization u.activeOrganization

def Organization.hangsOn (o : Organization) : List Ref := [⟨.user, o.owner⟩]

def Role.hangsOn (r : Role) : List Ref := ⟨.organization, r.organization⟩ :: refOf .instance_ r.creatingInstance

def Scope.hangsOn (s : Scope) : List Ref := ⟨.organization, s.organization⟩ :: refOf .instance_ s.creatingInstance

def Membership.hangsOn (m : Membership) : List Ref := [⟨.user, m.user⟩, ⟨.organization, m.organization⟩]

def CollaborationGrant.hangsOn (g : CollaborationGrant) : List Ref :=
  [⟨.membership, g.membership⟩, ⟨.instance_, g.instance_⟩]

def Invite.hangsOn (i : Invite) : List Ref := [⟨.user, i.createdBy⟩, ⟨.organization, i.createdFor⟩]

def RoleRequest.hangsOn (r : RoleRequest) : List Ref := [⟨.membership, r.membership⟩, ⟨.role, r.role⟩]

def MembershipRequest.hangsOn (r : MembershipRequest) : List Ref :=
  [⟨.user, r.user⟩, ⟨.organization, r.organization⟩]

def Device.hangsOn (d : Device) : List Ref := [⟨.organization, d.organization⟩]

def Hub.hangsOn (h : Hub) : List Ref := [⟨.organization, h.organization⟩, ⟨.user, h.creator⟩]

def ServiceInstance.hangsOn (i : ServiceInstance) : List Ref :=
  [⟨.hub, i.hub⟩, ⟨.user, i.steward⟩, ⟨.organization, i.organization⟩] ++ refOf .device i.device

def Client.hangsOn (c : Client) : List Ref :=
  refOf .membership c.membership ++ refOf .organization c.organization ++ refOf .hub c.hub
    ++ refOf .mandate c.mandate
    ++ refOf .organization (c.release.map (·.organization))

def ServiceInstanceMapping.hangsOn (m : ServiceInstanceMapping) : List Ref :=
  [⟨.client, m.client⟩, ⟨.instance_, m.instance_⟩]

def Mandate.hangsOn (m : Mandate) : List Ref :=
  [⟨.membership, m.membership⟩, ⟨.organization, m.organization⟩, ⟨.hub, m.hub⟩] ++ refOf .device m.agentDevice
    ++ refOf .membership m.agentMembership ++ refOf .mandate m.parent ++ refOf .client m.issuingClient

def DeviceCode.hangsOn (d : DeviceCode) : List Ref := ⟨.client, d.client⟩ :: refOf .organization d.organization

def MeshDeviceCode.hangsOn (d : MeshDeviceCode) : List Ref := refOf .user d.user

def AuthorizationCode.hangsOn (c : AuthorizationCode) : List Ref := [⟨.membership, c.membership⟩]

def OAuth2Token.hangsOn (t : OAuth2Token) : List Ref := [⟨.membership, t.user⟩]

namespace DB

variable (db : DB)

def hangsOn (r : Ref) : List Ref :=
  match r.model with
  | .user => (db.users.row r.pk).elim [] User.hangsOn
  | .organization => (db.organizations.row r.pk).elim [] Organization.hangsOn
  | .role => (db.roles.row r.pk).elim [] Role.hangsOn
  | .scope => (db.scopes.row r.pk).elim [] Scope.hangsOn
  | .membership => (db.memberships.row r.pk).elim [] Membership.hangsOn
  | .grant => (db.grants.row r.pk).elim [] CollaborationGrant.hangsOn
  | .invite => (db.invites.row r.pk).elim [] Invite.hangsOn
  | .roleRequest => (db.roleRequests.row r.pk).elim [] RoleRequest.hangsOn
  | .membershipRequest => (db.membershipRequests.row r.pk).elim [] MembershipRequest.hangsOn
  | .device => (db.devices.row r.pk).elim [] Device.hangsOn
  | .hub => (db.hubs.row r.pk).elim [] Hub.hangsOn
  | .instance_ => (db.instances.row r.pk).elim [] ServiceInstance.hangsOn
  | .client => (db.clients.row r.pk).elim [] Client.hangsOn
  | .mapping => (db.mappings.row r.pk).elim [] ServiceInstanceMapping.hangsOn
  | .mandate => (db.mandates.row r.pk).elim [] Mandate.hangsOn
  | .deviceCode => (db.deviceCodes.row r.pk).elim [] DeviceCode.hangsOn
  | .meshDeviceCode => (db.meshDeviceCodes.row r.pk).elim [] MeshDeviceCode.hangsOn
  | .authorizationCode => (db.authorizationCodes.row r.pk).elim [] AuthorizationCode.hangsOn
  | .usedNonce => []
  | .token => (db.tokens.row r.pk).elim [] OAuth2Token.hangsOn

def refs : List Ref :=
  refsOf .user db.users ++ refsOf .organization db.organizations ++ refsOf .role db.roles
    ++ refsOf .scope db.scopes
    ++ refsOf .membership db.memberships ++ refsOf .grant db.grants ++ refsOf .invite db.invites
    ++ refsOf .roleRequest db.roleRequests ++ refsOf .membershipRequest db.membershipRequests
    ++ refsOf .device db.devices ++ refsOf .hub db.hubs ++ refsOf .instance_ db.instances
    ++ refsOf .client db.clients ++ refsOf .mapping db.mappings ++ refsOf .mandate db.mandates
    ++ refsOf .deviceCode db.deviceCodes ++ refsOf .meshDeviceCode db.meshDeviceCodes
    ++ refsOf .authorizationCode db.authorizationCodes ++ refsOf .usedNonce db.usedNonces
      ++ refsOf .token db.tokens

/-- The rows that go when `roots` go. -/
def collect (roots : List Ref) : List Ref := Closure.closure db.refs db.hangsOn roots

/-! ## Removing a set of rows -/

def keepOpt (gone : List Ref) (model : Model) (o : Option Pk) : Option Pk :=
  o.filter fun pk => !gone.contains ⟨model, pk⟩

def keepList (gone : List Ref) (model : Model) (l : List Pk) : List Pk :=
  l.filter fun pk => !gone.contains ⟨model, pk⟩

def keeps (gone : List Ref) (model : Model) (pk : Pk) : Bool := !gone.contains ⟨model, pk⟩

/-- Delete the rows `gone`, set to null what pointed at them, take them out of relations. -/
def remove (gone : List Ref) : DB where
  now := db.now
  draws := db.draws
  users := db.users.keep fun pk _ => keeps gone .user pk
  organizations := db.organizations.keep fun pk _ => keeps gone .organization pk
  roles := (db.roles.keep fun pk _ => keeps gone .role pk).update fun _ r =>
    { r with usedBy := keepList gone .instance_ r.usedBy }
  scopes := (db.scopes.keep fun pk _ => keeps gone .scope pk).update fun _ s =>
    { s with usedBy := keepList gone .instance_ s.usedBy }
  memberships := (db.memberships.keep fun pk _ => keeps gone .membership pk).update fun _ m =>
    { m with roles := keepList gone .role m.roles, automaticRoles := keepList gone .role m.automaticRoles,
             withheldRoles := keepList gone .role m.withheldRoles,
             createdThrough := keepOpt gone .invite m.createdThrough }
  grants := (db.grants.keep fun pk _ => keeps gone .grant pk).update fun _ g =>
    { g with grantedThrough := keepOpt gone .invite g.grantedThrough, grantedBy := keepOpt gone .user g.grantedBy }
  invites := (db.invites.keep fun pk _ => keeps gone .invite pk).update fun _ i =>
    { i with roles := keepList gone .role i.roles, acceptedBy := keepOpt gone .user i.acceptedBy }
  roleRequests := (db.roleRequests.keep fun pk _ => keeps gone .roleRequest pk).update fun _ r =>
    { r with resolvedBy := keepOpt gone .user r.resolvedBy }
  membershipRequests := (db.membershipRequests.keep fun pk _ => keeps gone .membershipRequest pk).update fun _ r =>
    { r with resolvedBy := keepOpt gone .user r.resolvedBy,
             createdMembership := keepOpt gone .membership r.createdMembership }
  devices := db.devices.keep fun pk _ => keeps gone .device pk
  hubs := (db.hubs.keep fun pk _ => keeps gone .hub pk).update
    fun _ h => { h with client := keepOpt gone .client h.client }
  instances := (db.instances.keep fun pk _ => keeps gone .instance_ pk).update fun _ i =>
    { i with allowedUsers := keepList gone .user i.allowedUsers, deniedUsers := keepList gone .user i.deniedUsers }
  clients := (db.clients.keep fun pk _ => keeps gone .client pk).update fun _ c =>
    { c with node := keepOpt gone .device c.node, scopes := keepList gone .scope c.scopes }
  mappings := db.mappings.keep fun pk _ => keeps gone .mapping pk
  mandates := db.mandates.keep fun pk _ => keeps gone .mandate pk
  deviceCodes := db.deviceCodes.keep fun pk _ => keeps gone .deviceCode pk
  meshDeviceCodes := db.meshDeviceCodes.keep fun pk _ => keeps gone .meshDeviceCode pk
  authorizationCodes := db.authorizationCodes.keep fun pk _ => keeps gone .authorizationCode pk
  usedNonces := db.usedNonces.keep fun pk _ => keeps gone .usedNonce pk
  tokens := db.tokens.keep fun pk _ => keeps gone .token pk

/-- The devices of clients are set to null before any row goes: whether no two clients of a mandate are
without one then. -/
def keepsApart (gone : List Ref) : Bool :=
  !db.clients.exists? fun pk c => c.mandate.isSome && (c.node.any fun n => gone.contains ⟨.device, n⟩)
    && db.clients.exists? fun k b => k != pk && b.mandate == c.mandate && (keepOpt gone .device b.node).isNone

/-- Rows and all that hangs on them, without the receivers. -/
def removeCascade (roots : List Ref) : DB := db.remove (db.collect roots)

/-! ## The receivers -/

/-- The role whose holders administer an organization. -/
def adminRole : String := "admin"

def holdsAdmin (m : Membership) : Bool :=
  m.roles.any fun pk => (db.roles.row pk).elim false fun r => r.identifier == adminRole

/-- `sync_admin`: recompute `is_admin` of these memberships from their roles. -/
def syncAdmin (memberships : List Pk) : DB :=
  { db with memberships := db.memberships.update fun pk m =>
      if memberships.contains pk then { m with isAdmin := db.holdsAdmin m } else m }

def hasGrants (membership : Pk) : Bool := db.grants.exists? fun _ g => g.membership == membership

/-- `_drop_membership_without_grants`, told of a deleted grant's membership. -/
def dropMembershipWithoutGrants (origin : Model) (upgrading : Option Pk) (membership : Pk) : DB :=
  if upgrading = some membership then db
  else if origin = .membership ∨ origin = .organization ∨ origin = .user then db
  else
    match db.memberships.row membership with
    | none => db
    | some m =>
      if !db.hasGrants membership && m.roles.isEmpty then db.removeCascade [⟨.membership, membership⟩] else db

/-- `delete_hub_identity_with_the_hub`. A client's cascade reaches no grant, hub or role, so its
deletion runs no receiver of these. -/
def deleteHubIdentity (hub : Hub) : DB :=
  match hub.client with
  | none => db
  | some client => db.removeCascade [⟨.client, client⟩]

/-- `roots.delete()`: `origin` is their model, `upgrading` the membership being made a full member. -/
def delete (origin : Model) (roots : List Ref) (upgrading : Option Pk) : DB :=
  let gone := db.collect roots
  let grants := db.grants.filter fun pk _ => gone.contains ⟨.grant, pk⟩
  let hubs := db.hubs.filter fun pk _ => gone.contains ⟨.hub, pk⟩
  let adminRoles := db.roles.pks fun pk r => gone.contains ⟨.role, pk⟩ && r.identifier == adminRole
  let held := db.memberships.pks fun _ m => m.roles.any adminRoles.contains
  let db₁ := (db.remove gone).syncAdmin held
  let db₂ := grants.foldl (fun d g => d.dropMembershipWithoutGrants origin upgrading g.2.membership) db₁
  hubs.foldl (fun d h => d.deleteHubIdentity h.2) db₂

end DB

end Lok
