import Lok.Cascade

/-!
# What deleting leaves

Whatever is deleted, each row that is left is a row that was there, with nothing changed but
keys that were set to null and relations the deleted rows were taken out of (`Shrinks`). The
rows collected are gone. A deletion that begins in models no other model hangs on spares the
rows of every other model.
-/

namespace Lok

open Table

/-! ## Which models go with which -/

/-- The models a model's rows hang on. -/
def Model.under : Model → List Model
  | .user => [.organization]
  | .organization => [.user]
  | .role => [.organization, .instance_]
  | .scope => [.organization, .instance_]
  | .membership => [.user, .organization]
  | .grant => [.membership, .instance_]
  | .invite => [.user, .organization]
  | .roleRequest => [.membership, .role]
  | .membershipRequest => [.user, .organization]
  | .device => [.organization]
  | .hub => [.organization, .user]
  | .instance_ => [.hub, .user, .organization, .device]
  | .client => [.membership, .organization, .hub, .mandate]
  | .mapping => [.client, .instance_]
  | .mandate => [.membership, .organization, .hub, .device, .mandate, .client]
  | .deviceCode => [.client, .organization]
  | .meshDeviceCode => [.user]
  | .authorizationCode => [.membership]
  | .usedNonce => []
  | .token => [.membership]

namespace DB

variable {db : DB} {roots : List Ref}

theorem mem_elim {α : Type} {o : Option α} {f : α → List Ref} {p : Ref} :
    p ∈ o.elim [] f ↔ ∃ a, o = some a ∧ p ∈ f a := by
  cases o <;> simp

theorem hangsOn_under {r p : Ref} (h : p ∈ db.hangsOn r) : p.model ∈ r.model.under := by
  obtain ⟨model, pk⟩ := r
  cases model <;> simp only [hangsOn, mem_elim, List.not_mem_nil] at h <;> obtain ⟨row, -, h⟩ := h <;>
    simp only [User.hangsOn, Organization.hangsOn, Role.hangsOn, Scope.hangsOn, Membership.hangsOn,
      CollaborationGrant.hangsOn, Invite.hangsOn, RoleRequest.hangsOn, MembershipRequest.hangsOn, Device.hangsOn,
      Hub.hangsOn, ServiceInstance.hangsOn, Client.hangsOn, ServiceInstanceMapping.hangsOn, Mandate.hangsOn,
      DeviceCode.hangsOn, MeshDeviceCode.hangsOn, AuthorizationCode.hangsOn, OAuth2Token.hangsOn, List.mem_append,
      List.mem_cons, mem_refOf, List.not_mem_nil, or_false] at h <;>
    simp only [Model.under] <;> grind

theorem client_of_hangsOn {x : Ref} {c : Pk} (h : ⟨.client, c⟩ ∈ db.hangsOn x) :
    x.model = .mapping ∨ x.model = .deviceCode
      ∨ x.model = .mandate ∧ ∃ m, db.mandates.row x.pk = some m ∧ m.issuingClient = some c := by
  have hunder := hangsOn_under h
  obtain ⟨model, pk⟩ := x
  cases model <;> simp [Model.under] at hunder ⊢
  simp only [hangsOn, mem_elim] at h
  obtain ⟨m, hm, h⟩ := h
  exact ⟨m, hm, by simpa [Mandate.hangsOn] using h⟩

/-! ## Rows -/

/-- The row a reference names is there. -/
def has (db : DB) (r : Ref) : Prop :=
  match r.model with
  | .user => ∃ a, db.users.row r.pk = some a
  | .organization => ∃ a, db.organizations.row r.pk = some a
  | .role => ∃ a, db.roles.row r.pk = some a
  | .scope => ∃ a, db.scopes.row r.pk = some a
  | .membership => ∃ a, db.memberships.row r.pk = some a
  | .grant => ∃ a, db.grants.row r.pk = some a
  | .invite => ∃ a, db.invites.row r.pk = some a
  | .roleRequest => ∃ a, db.roleRequests.row r.pk = some a
  | .membershipRequest => ∃ a, db.membershipRequests.row r.pk = some a
  | .device => ∃ a, db.devices.row r.pk = some a
  | .hub => ∃ a, db.hubs.row r.pk = some a
  | .instance_ => ∃ a, db.instances.row r.pk = some a
  | .client => ∃ a, db.clients.row r.pk = some a
  | .mapping => ∃ a, db.mappings.row r.pk = some a
  | .mandate => ∃ a, db.mandates.row r.pk = some a
  | .deviceCode => ∃ a, db.deviceCodes.row r.pk = some a
  | .meshDeviceCode => ∃ a, db.meshDeviceCodes.row r.pk = some a
  | .authorizationCode => ∃ a, db.authorizationCodes.row r.pk = some a
  | .usedNonce => ∃ a, db.usedNonces.row r.pk = some a
  | .token => ∃ a, db.tokens.row r.pk = some a

theorem refsOf_update {α : Type} (model : Model) (t : Table α) (f : Nat → α → α) :
    refsOf model (t.update f) = refsOf model t := by
  simp [refsOf, rows_update]

theorem mem_refsOf {α : Type} {model : Model} {t : Table α} {r : Ref} :
    r ∈ refsOf model t ↔ r.model = model ∧ ∃ a, t.row r.pk = some a := by
  obtain ⟨m, pk⟩ := r
  simp only [refsOf, List.mem_map, Prod.exists, mem_rows, Ref.mk.injEq]
  constructor
  · rintro ⟨k, a, ha, rfl, rfl⟩
    exact ⟨rfl, a, ha⟩
  · rintro ⟨rfl, a, ha⟩
    exact ⟨pk, a, ha, rfl, rfl⟩

theorem mem_refs {r : Ref} : r ∈ db.refs ↔ db.has r := by
  obtain ⟨model, pk⟩ := r
  unfold refs
  simp only [List.mem_append, mem_refsOf]
  cases model <;> simp [has]

theorem has_of_hangsOn {x p : Ref} (h : p ∈ db.hangsOn x) : db.has x := by
  obtain ⟨model, pk⟩ := x
  cases model <;> simp only [hangsOn, mem_elim, List.not_mem_nil] at h <;> obtain ⟨row, hrow, -⟩ := h <;>
    exact ⟨row, hrow⟩

/-! ## The rows that go -/

theorem mem_collect_root {r : Ref} (h : r ∈ roots) : r ∈ db.collect roots :=
  Closure.mem_closure.mpr (.root h)

theorem mem_collect_of_hangsOn {x p : Ref} (h : p ∈ db.hangsOn x) (hp : p ∈ db.collect roots) :
    x ∈ db.collect roots :=
  Closure.mem_closure.mpr (.hangs (mem_refs.mpr (has_of_hangsOn h)) h (Closure.mem_closure.mp hp))

/-- Models that no model outside hangs on. -/
def Within (S : List Model) : Prop := ∀ m, (∃ p ∈ m.under, p ∈ S) → m ∈ S

instance (S : List Model) : Decidable (Within S) :=
  decidable_of_iff (∀ m ∈ [Model.user, .organization, .role, .scope, .membership, .grant, .invite, .roleRequest,
      .membershipRequest, .device, .hub, .instance_, .client, .mapping, .mandate, .deviceCode, .meshDeviceCode,
      .authorizationCode, .usedNonce, .token], (∃ p ∈ m.under, p ∈ S) → m ∈ S)
    ⟨fun h m => h m (by cases m <;> simp), fun h m _ => h m⟩

theorem collect_within {S : List Model} (hS : Within S) (hroots : ∀ r ∈ roots, r.model ∈ S) {r : Ref}
    (h : r ∈ db.collect roots) : r.model ∈ S :=
  Closure.closure_induct (P := fun r : Ref => r.model ∈ S) hroots
    (fun x _ p hp hpS => hS x.model ⟨p.model, hangsOn_under hp, hpS⟩) h

/-- The rows that go with memberships. -/
def withMemberships : List Model :=
  [.membership, .grant, .roleRequest, .client, .mapping, .mandate, .deviceCode, .authorizationCode, .token]

theorem withMemberships_within : Within withMemberships := by decide

/-- The rows that go with service instances, and with the guests who lose their last grant. -/
def withInstances : List Model := [.instance_, .role, .scope] ++ withMemberships

theorem withInstances_within : Within withInstances := by decide

def withClients : List Model := [.client, .mapping, .mandate, .deviceCode]

theorem withClients_within : Within withClients := by decide

/-- The rows that go without a user, an organization or a device. -/
def withoutDevices : List Model :=
  [.invite, .membershipRequest, .hub, .meshDeviceCode, .usedNonce] ++ withInstances

theorem withoutDevices_within : Within withoutDevices := by decide

theorem keepsApart_of_within {S : List Model} (hS : Within S) (hdevice : .device ∉ S)
    (hroots : ∀ r ∈ roots, r.model ∈ S) :
    db.keepsApart (db.collect roots) = true := by
  rw [keepsApart, Bool.not_eq_true', exists?_eq_false]
  intro pk c _
  have hkept : (c.node.any fun n => (db.collect roots).contains ⟨.device, n⟩) = false := by
    refine (Option.any_eq_false _ _).mpr fun n _ => ?_
    rw [List.contains_eq_mem, decide_eq_false_iff_not]
    exact fun hmem => hdevice (collect_within hS hroots hmem)
  rw [hkept, Bool.and_false, Bool.false_and]

end DB

/-! ## The rows that stay -/

/-- One row is another with keys and relations cleared. -/
def Role.Cleared (a b : Role) : Prop := ∃ l, b = { a with usedBy := l }

theorem Role.Cleared.trans {a b c : Role} : a.Cleared b → b.Cleared c → a.Cleared c := by
  rintro ⟨_, rfl⟩ ⟨_, rfl⟩
  exact ⟨_, rfl⟩

def Scope.Cleared (a b : Scope) : Prop := ∃ l, b = { a with usedBy := l }

theorem Scope.Cleared.trans {a b c : Scope} : a.Cleared b → b.Cleared c → a.Cleared c := by
  rintro ⟨_, rfl⟩ ⟨_, rfl⟩
  exact ⟨_, rfl⟩

def Membership.Cleared (a b : Membership) : Prop :=
  b.user = a.user ∧ b.organization = a.organization ∧ ∀ r ∈ b.roles, r ∈ a.roles

theorem Membership.Cleared.trans {a b c : Membership} : a.Cleared b → b.Cleared c → a.Cleared c
  | ⟨hu, ho, hr⟩, ⟨hu', ho', hr'⟩ => ⟨hu'.trans hu, ho'.trans ho, fun r h => hr r (hr' r h)⟩

def CollaborationGrant.Cleared (a b : CollaborationGrant) : Prop :=
  ∃ i u, b = { a with grantedThrough := i, grantedBy := u } ∧ (u = a.grantedBy ∨ u = none)

theorem CollaborationGrant.Cleared.trans {a b c : CollaborationGrant} :
    a.Cleared b → b.Cleared c → a.Cleared c := by
  rintro ⟨_, _, rfl, h⟩ ⟨_, _, rfl, rfl | rfl⟩
  · exact ⟨_, _, rfl, h⟩
  · exact ⟨_, _, rfl, .inr rfl⟩

def Invite.Cleared (a b : Invite) : Prop := ∃ l u, b = { a with roles := l, acceptedBy := u }

theorem Invite.Cleared.trans {a b c : Invite} : a.Cleared b → b.Cleared c → a.Cleared c := by
  rintro ⟨_, _, rfl⟩ ⟨_, _, rfl⟩
  exact ⟨_, _, rfl⟩

def RoleRequest.Cleared (a b : RoleRequest) : Prop := ∃ u, b = { a with resolvedBy := u }

theorem RoleRequest.Cleared.trans {a b c : RoleRequest} : a.Cleared b → b.Cleared c → a.Cleared c := by
  rintro ⟨_, rfl⟩ ⟨_, rfl⟩
  exact ⟨_, rfl⟩

def MembershipRequest.Cleared (a b : MembershipRequest) : Prop :=
  ∃ u m, b = { a with resolvedBy := u, createdMembership := m }

theorem MembershipRequest.Cleared.trans {a b c : MembershipRequest} : a.Cleared b → b.Cleared c → a.Cleared c := by
  rintro ⟨_, _, rfl⟩ ⟨_, _, rfl⟩
  exact ⟨_, _, rfl⟩

def Hub.Cleared (a b : Hub) : Prop := ∃ c, b = { a with client := c } ∧ (c = a.client ∨ c = none)

theorem Hub.Cleared.trans {a b c : Hub} : a.Cleared b → b.Cleared c → a.Cleared c := by
  rintro ⟨_, rfl, h⟩ ⟨_, rfl, rfl | rfl⟩
  · exact ⟨_, rfl, h⟩
  · exact ⟨_, rfl, .inr rfl⟩

def ServiceInstance.Cleared (a b : ServiceInstance) : Prop :=
  ∃ l k, b = { a with allowedUsers := l, deniedUsers := k }

theorem ServiceInstance.Cleared.trans {a b c : ServiceInstance} : a.Cleared b → b.Cleared c → a.Cleared c := by
  rintro ⟨_, _, rfl⟩ ⟨_, _, rfl⟩
  exact ⟨_, _, rfl⟩

def Client.Cleared (a b : Client) : Prop := ∃ n l, b = { a with node := n, scopes := l }

theorem Client.Cleared.trans {a b c : Client} : a.Cleared b → b.Cleared c → a.Cleared c := by
  rintro ⟨_, _, rfl⟩ ⟨_, _, rfl⟩
  exact ⟨_, _, rfl⟩

/-- Rows are gone and keys cleared; nothing else happened. -/
structure Shrinks (db d : DB) : Prop where
  now : d.now = db.now
  draws : d.draws = db.draws
  users : Table.Shrinks (fun a b => b = a) db.users d.users
  organizations : Table.Shrinks (fun a b => b = a) db.organizations d.organizations
  roles : Table.Shrinks Role.Cleared db.roles d.roles
  scopes : Table.Shrinks Scope.Cleared db.scopes d.scopes
  memberships : Table.Shrinks Membership.Cleared db.memberships d.memberships
  grants : Table.Shrinks CollaborationGrant.Cleared db.grants d.grants
  invites : Table.Shrinks Invite.Cleared db.invites d.invites
  roleRequests : Table.Shrinks RoleRequest.Cleared db.roleRequests d.roleRequests
  membershipRequests : Table.Shrinks MembershipRequest.Cleared db.membershipRequests d.membershipRequests
  devices : Table.Shrinks (fun a b => b = a) db.devices d.devices
  hubs : Table.Shrinks Hub.Cleared db.hubs d.hubs
  instances : Table.Shrinks ServiceInstance.Cleared db.instances d.instances
  clients : Table.Shrinks Client.Cleared db.clients d.clients
  mappings : Table.Shrinks (fun a b => b = a) db.mappings d.mappings
  mandates : Table.Shrinks (fun a b => b = a) db.mandates d.mandates
  deviceCodes : Table.Shrinks (fun a b => b = a) db.deviceCodes d.deviceCodes
  meshDeviceCodes : Table.Shrinks (fun a b => b = a) db.meshDeviceCodes d.meshDeviceCodes
  authorizationCodes : Table.Shrinks (fun a b => b = a) db.authorizationCodes d.authorizationCodes
  usedNonces : Table.Shrinks (fun a b => b = a) db.usedNonces d.usedNonces
  tokens : Table.Shrinks (fun a b => b = a) db.tokens d.tokens

namespace Shrinks

theorem refl (db : DB) : Shrinks db db where
  now := rfl
  draws := rfl
  users := .same _
  organizations := .same _
  roles := .refl (fun _ => ⟨_, rfl⟩) _
  scopes := .refl (fun _ => ⟨_, rfl⟩) _
  memberships := .refl (fun _ => ⟨rfl, rfl, fun _ h => h⟩) _
  grants := .refl (fun _ => ⟨_, _, rfl, .inl rfl⟩) _
  invites := .refl (fun _ => ⟨_, _, rfl⟩) _
  roleRequests := .refl (fun _ => ⟨_, rfl⟩) _
  membershipRequests := .refl (fun _ => ⟨_, _, rfl⟩) _
  devices := .same _
  hubs := .refl (fun _ => ⟨_, rfl, .inl rfl⟩) _
  instances := .refl (fun _ => ⟨_, _, rfl⟩) _
  clients := .refl (fun _ => ⟨_, _, rfl⟩) _
  mappings := .same _
  mandates := .same _
  deviceCodes := .same _
  meshDeviceCodes := .same _
  authorizationCodes := .same _
  usedNonces := .same _
  tokens := .same _

theorem trans {db d e : DB} (h : Shrinks db d) (k : Shrinks d e) : Shrinks db e where
  now := k.now.trans h.now
  draws := k.draws.trans h.draws
  users := h.users.trans (fun hab hbc => hbc.trans hab) k.users
  organizations := h.organizations.trans (fun hab hbc => hbc.trans hab) k.organizations
  roles := h.roles.trans Role.Cleared.trans k.roles
  scopes := h.scopes.trans Scope.Cleared.trans k.scopes
  memberships := h.memberships.trans Membership.Cleared.trans k.memberships
  grants := h.grants.trans CollaborationGrant.Cleared.trans k.grants
  invites := h.invites.trans Invite.Cleared.trans k.invites
  roleRequests := h.roleRequests.trans RoleRequest.Cleared.trans k.roleRequests
  membershipRequests := h.membershipRequests.trans MembershipRequest.Cleared.trans k.membershipRequests
  devices := h.devices.trans (fun hab hbc => hbc.trans hab) k.devices
  hubs := h.hubs.trans Hub.Cleared.trans k.hubs
  instances := h.instances.trans ServiceInstance.Cleared.trans k.instances
  clients := h.clients.trans Client.Cleared.trans k.clients
  mappings := h.mappings.trans (fun hab hbc => hbc.trans hab) k.mappings
  mandates := h.mandates.trans (fun hab hbc => hbc.trans hab) k.mandates
  deviceCodes := h.deviceCodes.trans (fun hab hbc => hbc.trans hab) k.deviceCodes
  meshDeviceCodes := h.meshDeviceCodes.trans (fun hab hbc => hbc.trans hab) k.meshDeviceCodes
  authorizationCodes := h.authorizationCodes.trans (fun hab hbc => hbc.trans hab) k.authorizationCodes
  usedNonces := h.usedNonces.trans (fun hab hbc => hbc.trans hab) k.usedNonces
  tokens := h.tokens.trans (fun hab hbc => hbc.trans hab) k.tokens

end Shrinks

namespace DB

variable {db : DB} {roots : List Ref}

theorem mem_keepList {gone : List Ref} {model : Model} {l : List Pk} {pk : Pk} :
    pk ∈ keepList gone model l ↔ pk ∈ l ∧ ⟨model, pk⟩ ∉ gone := by
  simp [keepList]

theorem keepOpt_cases (gone : List Ref) (model : Model) (o : Option Pk) :
    keepOpt gone model o = o ∨ keepOpt gone model o = none := by
  cases o with
  | none => exact .inl rfl
  | some pk => by_cases h : (⟨model, pk⟩ : Ref) ∈ gone <;> simp [keepOpt, Option.filter, h]

theorem remove_shrinks (db : DB) (gone : List Ref) : Shrinks db (db.remove gone) where
  now := rfl
  draws := rfl
  users := .keep _ _
  organizations := .keep _ _
  roles := .keep_update _ _ fun _ _ => ⟨_, rfl⟩
  scopes := .keep_update _ _ fun _ _ => ⟨_, rfl⟩
  memberships := .keep_update _ _ fun _ _ => ⟨rfl, rfl, fun _ h => (mem_keepList.mp h).1⟩
  grants := .keep_update _ _ fun _ g => ⟨_, _, rfl, keepOpt_cases gone .user g.grantedBy⟩
  invites := .keep_update _ _ fun _ _ => ⟨_, _, rfl⟩
  roleRequests := .keep_update _ _ fun _ _ => ⟨_, rfl⟩
  membershipRequests := .keep_update _ _ fun _ _ => ⟨_, _, rfl⟩
  devices := .keep _ _
  hubs := .keep_update _ _ fun _ h => ⟨_, rfl, keepOpt_cases gone .client h.client⟩
  instances := .keep_update _ _ fun _ _ => ⟨_, _, rfl⟩
  clients := .keep_update _ _ fun _ _ => ⟨_, _, rfl⟩
  mappings := .keep _ _
  mandates := .keep _ _
  deviceCodes := .keep _ _
  meshDeviceCodes := .keep _ _
  authorizationCodes := .keep _ _
  usedNonces := .keep _ _
  tokens := .keep _ _

theorem syncAdmin_shrinks (db : DB) (memberships : List Pk) : Shrinks db (db.syncAdmin memberships) :=
  { Shrinks.refl db with
    memberships := .update _ fun _ m => by split <;> exact ⟨rfl, rfl, fun _ h => h⟩ }

/-! ## A deletion, step by step -/

/-- The memberships whose admin flag a deletion recomputes: they hold an admin role that goes. -/
def losesAdmin (db : DB) (roots : List Ref) : List Pk :=
  let adminRoles := db.roles.pks fun pk r => (db.collect roots).contains ⟨.role, pk⟩ && r.identifier == adminRole
  db.memberships.pks fun _ m => m.roles.any adminRoles.contains

theorem delete_induct_sync {P : DB → Prop} (hmembership : ∀ d m, P d → P (d.removeCascade [⟨.membership, m⟩]))
    (hclient : ∀ d c, P d → P (d.removeCascade [⟨.client, c⟩])) {origin : Model} {upgrading : Option Pk}
    (h : P ((db.removeCascade roots).syncAdmin (db.losesAdmin roots))) : P (db.delete origin roots upgrading) := by
  have hdrop : ∀ d m, P d → P (d.dropMembershipWithoutGrants origin upgrading m) := by
    intro d m hd
    unfold dropMembershipWithoutGrants
    split
    · exact hd
    · split
      · exact hd
      · split
        · exact hd
        · split
          · exact hmembership _ _ hd
          · exact hd
  have hident : ∀ d h, P d → P (d.deleteHubIdentity h) := by
    intro d h hd
    unfold deleteHubIdentity
    split
    · exact hd
    · exact hclient _ _ hd
  exact Checks.foldl_invariant (fun h _ d => hident d h.2)
    (Checks.foldl_invariant (fun g _ d => hdrop d g.2.membership) h)

theorem dropMembershipWithoutGrants_shrinks (db : DB) (origin : Model) (upgrading : Option Pk) (m : Pk) :
    Shrinks db (db.dropMembershipWithoutGrants origin upgrading m) := by
  unfold dropMembershipWithoutGrants
  split
  · exact .refl db
  · split
    · exact .refl db
    · split
      · exact .refl db
      · split
        · exact remove_shrinks _ _
        · exact .refl db

/-- What cascades and the recomputed admins preserve, a deletion preserves after its own cascade. -/
theorem delete_induct_remove {P : DB → Prop} (hcascade : ∀ d roots, P d → P (d.removeCascade roots))
    (hsync : ∀ d l, P d → P (d.syncAdmin l)) {origin : Model} {upgrading : Option Pk}
    (h : P (db.remove (db.collect roots))) : P (db.delete origin roots upgrading) :=
  delete_induct_sync (fun d _ => hcascade d _) (fun d _ => hcascade d _) (hsync _ _ h)

theorem delete_induct {P : DB → Prop} (hcascade : ∀ d roots, P d → P (d.removeCascade roots))
    (hsync : ∀ d l, P d → P (d.syncAdmin l)) {origin : Model} {upgrading : Option Pk} (h : P db) :
    P (db.delete origin roots upgrading) :=
  delete_induct_remove hcascade hsync (hcascade db roots h)

theorem delete_shrinks_remove (db : DB) (origin : Model) (roots : List Ref) (upgrading : Option Pk) :
    Shrinks (db.remove (db.collect roots)) (db.delete origin roots upgrading) :=
  delete_induct_remove (P := Shrinks (db.remove (db.collect roots))) (fun _ _ hd => hd.trans (remove_shrinks _ _))
    (fun _ _ hd => hd.trans (syncAdmin_shrinks _ _)) (.refl _)

theorem delete_shrinks (db : DB) (origin : Model) (roots : List Ref) (upgrading : Option Pk) :
    Shrinks db (db.delete origin roots upgrading) :=
  (remove_shrinks _ _).trans (delete_shrinks_remove db origin roots upgrading)

/-! ## What goes and what is spared -/

theorem not_has_of_shrinks {db d : DB} (h : Shrinks db d) {r : Ref} (hr : ¬ db.has r) : ¬ d.has r := by
  obtain ⟨model, pk⟩ := r
  cases model <;> rintro ⟨b, hb⟩ <;> refine hr ?_
  · exact (h.users.2 pk b hb).imp fun _ ha => ha.1
  · exact (h.organizations.2 pk b hb).imp fun _ ha => ha.1
  · exact (h.roles.2 pk b hb).imp fun _ ha => ha.1
  · exact (h.scopes.2 pk b hb).imp fun _ ha => ha.1
  · exact (h.memberships.2 pk b hb).imp fun _ ha => ha.1
  · exact (h.grants.2 pk b hb).imp fun _ ha => ha.1
  · exact (h.invites.2 pk b hb).imp fun _ ha => ha.1
  · exact (h.roleRequests.2 pk b hb).imp fun _ ha => ha.1
  · exact (h.membershipRequests.2 pk b hb).imp fun _ ha => ha.1
  · exact (h.devices.2 pk b hb).imp fun _ ha => ha.1
  · exact (h.hubs.2 pk b hb).imp fun _ ha => ha.1
  · exact (h.instances.2 pk b hb).imp fun _ ha => ha.1
  · exact (h.clients.2 pk b hb).imp fun _ ha => ha.1
  · exact (h.mappings.2 pk b hb).imp fun _ ha => ha.1
  · exact (h.mandates.2 pk b hb).imp fun _ ha => ha.1
  · exact (h.deviceCodes.2 pk b hb).imp fun _ ha => ha.1
  · exact (h.meshDeviceCodes.2 pk b hb).imp fun _ ha => ha.1
  · exact (h.authorizationCodes.2 pk b hb).imp fun _ ha => ha.1
  · exact (h.usedNonces.2 pk b hb).imp fun _ ha => ha.1
  · exact (h.tokens.2 pk b hb).imp fun _ ha => ha.1

theorem remove_has {gone : List Ref} {r : Ref} (h : db.has r) (hr : r ∉ gone) : (db.remove gone).has r := by
  obtain ⟨model, pk⟩ := r
  have hkeep : keeps gone model pk = true := by simpa [keeps] using hr
  cases model <;> obtain ⟨a, ha⟩ := h <;>
    first
    | exact ⟨a, keep_row_eq_some.mpr ⟨ha, hkeep⟩⟩
    | exact ⟨_, update_row_eq_some.mpr ⟨a, keep_row_eq_some.mpr ⟨ha, hkeep⟩, rfl⟩⟩

theorem not_has_remove {gone : List Ref} {r : Ref} (hr : r ∈ gone) : ¬ (db.remove gone).has r := by
  obtain ⟨model, pk⟩ := r
  have hkeep : keeps gone model pk = false := by simpa [keeps] using hr
  cases model <;> rintro ⟨a, ha⟩ <;>
    first
    | exact absurd (keep_row_eq_some.mp ha).2 (by simp [hkeep])
    | (obtain ⟨b, hb, -⟩ := update_row_eq_some.mp ha
       exact absurd (keep_row_eq_some.mp hb).2 (by simp [hkeep]))

theorem syncAdmin_has {l : List Pk} {r : Ref} (h : db.has r) : (db.syncAdmin l).has r := by
  obtain ⟨model, pk⟩ := r
  cases model <;> obtain ⟨a, ha⟩ := h <;>
    first
    | exact ⟨a, ha⟩
    | exact ⟨_, update_row_eq_some.mpr ⟨a, ha, rfl⟩⟩

theorem removeCascade_has {S : List Model} (hS : Within S) (hroots : ∀ r ∈ roots, r.model ∈ S) {r : Ref}
    (hr : r.model ∉ S) (h : db.has r) : (db.removeCascade roots).has r :=
  remove_has h fun hmem => hr (collect_within hS hroots hmem)

/-- What is cleared of a row is no cascading key: what is left hangs on what it hung on. -/
theorem hangsOn_eq_of_shrinks {db d : DB} (h : Shrinks db d) {x : Ref} (hx : d.has x) :
    d.hangsOn x = db.hangsOn x := by
  obtain ⟨model, pk⟩ := x
  cases model <;> obtain ⟨b, hb⟩ := hx
  · obtain ⟨a, ha, rfl⟩ := h.users.2 pk b hb; simp only [hangsOn, ha, hb, Option.elim_some]
  · obtain ⟨a, ha, rfl⟩ := h.organizations.2 pk b hb; simp only [hangsOn, ha, hb, Option.elim_some]
  · obtain ⟨a, ha, _, rfl⟩ := h.roles.2 pk b hb; simp only [hangsOn, ha, hb, Option.elim_some]; rfl
  · obtain ⟨a, ha, _, rfl⟩ := h.scopes.2 pk b hb; simp only [hangsOn, ha, hb, Option.elim_some]; rfl
  · obtain ⟨a, ha, hu, ho, -⟩ := h.memberships.2 pk b hb
    simp only [hangsOn, ha, hb, Option.elim_some, Membership.hangsOn, hu, ho]
  · obtain ⟨a, ha, _, _, rfl, -⟩ := h.grants.2 pk b hb; simp only [hangsOn, ha, hb, Option.elim_some]; rfl
  · obtain ⟨a, ha, _, _, rfl⟩ := h.invites.2 pk b hb; simp only [hangsOn, ha, hb, Option.elim_some]; rfl
  · obtain ⟨a, ha, _, rfl⟩ := h.roleRequests.2 pk b hb; simp only [hangsOn, ha, hb, Option.elim_some]; rfl
  · obtain ⟨a, ha, _, _, rfl⟩ := h.membershipRequests.2 pk b hb; simp only [hangsOn, ha, hb, Option.elim_some]; rfl
  · obtain ⟨a, ha, rfl⟩ := h.devices.2 pk b hb; simp only [hangsOn, ha, hb, Option.elim_some]
  · obtain ⟨a, ha, _, rfl, -⟩ := h.hubs.2 pk b hb; simp only [hangsOn, ha, hb, Option.elim_some]; rfl
  · obtain ⟨a, ha, _, _, rfl⟩ := h.instances.2 pk b hb; simp only [hangsOn, ha, hb, Option.elim_some]; rfl
  · obtain ⟨a, ha, _, _, rfl⟩ := h.clients.2 pk b hb; simp only [hangsOn, ha, hb, Option.elim_some]; rfl
  · obtain ⟨a, ha, rfl⟩ := h.mappings.2 pk b hb; simp only [hangsOn, ha, hb, Option.elim_some]
  · obtain ⟨a, ha, rfl⟩ := h.mandates.2 pk b hb; simp only [hangsOn, ha, hb, Option.elim_some]
  · obtain ⟨a, ha, rfl⟩ := h.deviceCodes.2 pk b hb; simp only [hangsOn, ha, hb, Option.elim_some]
  · obtain ⟨a, ha, rfl⟩ := h.meshDeviceCodes.2 pk b hb; simp only [hangsOn, ha, hb, Option.elim_some]
  · obtain ⟨a, ha, rfl⟩ := h.authorizationCodes.2 pk b hb; simp only [hangsOn, ha, hb, Option.elim_some]
  · rfl
  · obtain ⟨a, ha, rfl⟩ := h.tokens.2 pk b hb; simp only [hangsOn, ha, hb, Option.elim_some]

theorem hangsOn_of_shrinks {db d : DB} (h : Shrinks db d) {x p : Ref} (hp : p ∈ d.hangsOn x) : p ∈ db.hangsOn x :=
  hangsOn_eq_of_shrinks h (has_of_hangsOn hp) ▸ hp

theorem delete_target {origin : Model} {upgrading : Option Pk} {x p : Ref}
    (hx : p ∈ (db.delete origin roots upgrading).hangsOn x) (hp : db.has p) :
    (db.delete origin roots upgrading).has p := by
  refine (delete_induct (P := fun d : DB => Shrinks db d ∧ ∀ x, p ∈ d.hangsOn x → d.has p) ?_ ?_
    ⟨.refl db, fun _ _ => hp⟩).2 x hx
  · refine fun d roots hd => ⟨hd.1.trans (remove_shrinks _ _), fun x hx => ?_⟩
    have hx' := hangsOn_of_shrinks (remove_shrinks _ _) hx
    refine remove_has (hd.2 x hx') fun hgone => ?_
    exact not_has_remove (mem_collect_of_hangsOn hx' hgone) (has_of_hangsOn hx)
  · refine fun d l hd => ⟨hd.1.trans (syncAdmin_shrinks _ _), fun x hx => ?_⟩
    exact syncAdmin_has (hd.2 x (hangsOn_of_shrinks (syncAdmin_shrinks _ _) hx))

theorem delete_of_no_receiver {origin : Model} {upgrading : Option Pk}
    (h : ∀ r ∈ db.collect roots, r.model ≠ .grant ∧ r.model ≠ .hub) :
    db.delete origin roots upgrading = (db.removeCascade roots).syncAdmin (db.losesAdmin roots) := by
  have hgrants : (db.grants.filter fun pk _ => (db.collect roots).contains ⟨.grant, pk⟩) = [] := by
    refine List.eq_nil_iff_forall_not_mem.mpr fun g hg => ?_
    exact (h _ (by simpa using (mem_filter.mp hg).2)).1 rfl
  have hhubs : (db.hubs.filter fun pk _ => (db.collect roots).contains ⟨.hub, pk⟩) = [] := by
    refine List.eq_nil_iff_forall_not_mem.mpr fun x hx => ?_
    exact (h _ (by simpa using (mem_filter.mp hx).2)).2 rfl
  unfold delete
  extract_lets gone grants hubs adminRoles held db₁ db₂
  have hdrop : db₂ = db₁ := by
    show List.foldl _ _ grants = _
    rw [show grants = [] from hgrants]
    rfl
  rw [show hubs = [] from hhubs, hdrop]
  rfl

theorem clientRefs_within (clients : List Pk) :
    ∀ r ∈ clients.map fun c => (⟨.client, c⟩ : Ref), r.model ∈ withClients := by
  simp [withClients]

theorem delete_withClients {origin : Model} {upgrading : Option Pk} (hroots : ∀ r ∈ roots, r.model ∈ withClients) :
    db.delete origin roots upgrading = (db.removeCascade roots).syncAdmin (db.losesAdmin roots) := by
  refine delete_of_no_receiver fun r hr => ?_
  have hwithin := collect_within withClients_within hroots hr
  constructor
  · intro hgrant
    exact absurd (hgrant ▸ hwithin) (by decide)
  · intro hhub
    exact absurd (hhub ▸ hwithin) (by decide)

theorem delete_spares {S : List Model} (hS : Within S) (hroots : ∀ r ∈ roots, r.model ∈ S)
    (hguests : .grant ∈ S → .membership ∈ S) (hidentities : .hub ∈ S → .client ∈ S) {origin : Model}
    {upgrading : Option Pk} {r : Ref} (hr : r.model ∉ S) (h : db.has r) :
    (db.delete origin roots upgrading).has r := by
  unfold delete
  refine Checks.foldl_invariant (P := fun d : DB => d.has r) (fun x hx d hd => ?_)
    (Checks.foldl_invariant (P := fun d : DB => d.has r) (fun g hg d hd => ?_)
      (syncAdmin_has (removeCascade_has hS hroots hr h)))
  · have hgone : (⟨.hub, x.1⟩ : Ref) ∈ db.collect roots := by simpa using (mem_filter.mp hx).2
    have hclient := hidentities (collect_within hS hroots hgone)
    unfold deleteHubIdentity
    split
    · exact hd
    · exact removeCascade_has hS (by simpa using hclient) hr hd
  · have hgone : (⟨.grant, g.1⟩ : Ref) ∈ db.collect roots := by simpa using (mem_filter.mp hg).2
    have hmembership := hguests (collect_within hS hroots hgone)
    unfold dropMembershipWithoutGrants
    split
    · exact hd
    · split
      · exact hd
      · split
        · exact hd
        · split
          · exact removeCascade_has hS (by simpa using hmembership) hr hd
          · exact hd

section

variable {S : List Model} (hS : Within S) (hroots : ∀ r ∈ roots, r.model ∈ S)
  (hguests : .grant ∈ S → .membership ∈ S)
  (hidentities : .hub ∈ S → .client ∈ S)
include hS hroots hguests hidentities

theorem delete_hub {origin : Model} {upgrading : Option Pk} (hhub : .hub ∉ S) {k : Pk} {h : Hub}
    (hk : db.hubs.row k = some h) :
    ∃ h', (db.delete origin roots upgrading).hubs.row k = some h' ∧ h'.organization = h.organization := by
  obtain ⟨h', hk'⟩ : (db.delete origin roots upgrading).has ⟨.hub, k⟩ :=
    delete_spares hS hroots hguests hidentities hhub ⟨h, hk⟩
  obtain ⟨h₀, hk₀, _, rfl, -⟩ := (delete_shrinks db origin roots upgrading).hubs.2 k h' hk'
  rw [hk] at hk₀
  cases hk₀
  exact ⟨_, hk', rfl⟩

theorem delete_membership {origin : Model} {upgrading : Option Pk} (hmembership : .membership ∉ S) {k : Pk}
    {m : Membership} (hk : db.memberships.row k = some m) :
    ∃ m', (db.delete origin roots upgrading).memberships.row k = some m' ∧ m'.user = m.user
      ∧ m'.organization = m.organization := by
  obtain ⟨m', hk'⟩ : (db.delete origin roots upgrading).has ⟨.membership, k⟩ :=
    delete_spares hS hroots hguests hidentities hmembership ⟨m, hk⟩
  obtain ⟨m₀, hk₀, hu, ho, -⟩ := (delete_shrinks db origin roots upgrading).memberships.2 k m' hk'
  rw [hk] at hk₀
  cases hk₀
  exact ⟨m', hk', hu, ho⟩

end

theorem delete_not_has {origin : Model} {upgrading : Option Pk} {r : Ref} (hr : r ∈ roots) :
    ¬ (db.delete origin roots upgrading).has r :=
  not_has_of_shrinks (delete_shrinks_remove db origin roots upgrading) (not_has_remove (mem_collect_root hr))

end DB

end Lok
