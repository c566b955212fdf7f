import Lok.Owners

/-!
# The steps of approving a hub

Up to where it binds the hub's identity, the approval keeps the hub's services, with the roles
and scopes they declare and the admins these make, and the mandates of the hub's own apps. Each of
that is a step of one of a few kinds, so what all of them preserve an approval preserves.
-/

namespace Lok

open Table Checks

namespace DB

variable {db d e : DB} {roots : List Ref}

/-- The rows that go with hubs and their services: never a user, an organization or a device. -/
def withHubs : List Model := .hub :: withInstances

theorem withHubs_within : Within withHubs := by decide

/-- Neither people nor who they speak for changed: no user, client, token or mandate, and no hub's identity. -/
structure Beside (db d : DB) : Prop where
  now : d.now = db.now
  users : d.users = db.users
  clients : d.clients = db.clients
  tokens : d.tokens = db.tokens
  mandates : d.mandates = db.mandates
  memberships : ∀ k m, db.memberships.row k = some m → ∃ m', d.memberships.row k = some m' ∧ m'.user = m.user
  next : db.hubs.next ≤ d.hubs.next
  hubs : ∀ h x', d.hubs.row h = some x' →
    (∃ x, db.hubs.row h = some x ∧ x'.client = x.client) ∨ db.hubs.next ≤ h ∧ x'.client = none

/-- What relates the states before and after each step of approving a hub. -/
structure Steps (R : DB → DB → Prop) : Prop where
  refl : ∀ db, R db db
  trans : ∀ {db e d}, R db e → R e d → R db d
  beside : ∀ {db d}, Beside db d → R db d
  delete : ∀ {db : DB} {roots}, (∀ r ∈ roots, r.model ∈ withHubs ∧ r.model ≠ .token) →
    ∀ origin, R db (db.delete origin roots none)
  revoke : ∀ {db d : DB} {mandate reason}, db.revokeMandate mandate reason = .ok d → R db d
  issue : ∀ {db : DB} {m : Mandate} devices, m.issuingClient = none →
    R db { db with devices, mandates := db.mandates.insert m }
  keep : ∀ {db : DB} {pk current} grantor auth request, db.mandates.row pk = some current →
    R db (db.keepHubMandate pk current grantor auth request)

namespace Steps

variable {R : DB → DB → Prop} (h : Steps R) {env : Env}
include h

theorem foldl {α : Type} {f : DB → α → DB} (hf : ∀ d a, R d (f d a)) (l : List α) (db : DB) :
    R db (l.foldl f db) :=
  foldl_invariant (P := fun d : DB => R db d) (fun a _ d hd => h.trans hd (hf d a)) (h.refl db)

theorem foldlM {α : Type} {f : DB → α → Answer DB} (hf : ∀ d e a, f d a = .ok e → R d e) {l : List α}
    (hok : l.foldlM f db = .ok d) : R db d :=
  foldlM_ok (R := R) h.refl h.trans (fun a _ s t hst => hf s t a hst) hok

/-! ## Services -/

theorem services {roles : Table Role} {scopes : Table Scope} {devices : Table Device}
    {instances : Table ServiceInstance} (db : DB) :
    R db { db with roles, scopes, devices, instances } :=
  h.beside ⟨rfl, rfl, rfl, rfl, rfl, fun _ m hm => ⟨m, hm, rfl⟩, Nat.le_refl _, fun _ x hx => .inl ⟨x, hx, rfl⟩⟩

theorem registerPermissions (db : DB) (instance_ organization : Pk) (roles : List RoleDeclaration)
    (scopes : List ScopeDeclaration) :
    R db (db.registerPermissions instance_ organization roles scopes) := by
  have hdeclareRole : ∀ (d : DB) r, R d (declareRole instance_ organization d r) := by
    intro d r
    unfold declareRole
    split <;> exact h.services d
  have hdeclareScope : ∀ (d : DB) s, R d (declareScope instance_ organization d s) := by
    intro d s
    unfold declareScope
    split <;> exact h.services d
  have hundeclareRole : ∀ (d : DB) r, R d (undeclareRole instance_ d r) := by
    intro d r
    have hunused : R d { d with
        roles := d.roles.modify r fun x => { x with usedBy := removePks x.usedBy [instance_] } } := h.services d
    unfold undeclareRole
    dsimp only
    split
    · exact h.trans hunused (h.delete (by simp [withHubs, withInstances]) .role)
    · exact hunused
  have hundeclareScope : ∀ (d : DB) s, R d (undeclareScope instance_ d s) := by
    intro d s
    have hunused : R d { d with
        scopes := d.scopes.modify s fun x => { x with usedBy := removePks x.usedBy [instance_] } } := h.services d
    unfold undeclareScope
    dsimp only
    split
    · exact h.trans hunused (h.delete (by simp [withHubs, withInstances]) .scope)
    · exact hunused
  have hsync : ∀ d : DB, R d (d.syncOrganization organization) := by
    intro d
    unfold syncOrganization
    obtain ⟨t, ht, hpeople⟩ := syncServiceRoles_people d
      (d.memberships.pks fun _ m => m.organization == organization)
    rw [ht]
    refine h.beside ⟨rfl, rfl, rfl, rfl, rfl, fun k m hm => ?_, Nat.le_refl _, fun _ x hx => .inl ⟨x, hx, rfl⟩⟩
    obtain ⟨m', hm', hfollows⟩ := hpeople.after hm
    exact ⟨m', hm', hfollows.1.1⟩
  unfold DB.registerPermissions
  refine h.trans ?_ (hsync _)
  refine h.trans ?_ (h.foldl hundeclareScope _ _)
  refine h.trans ?_ (h.foldl hundeclareRole _ _)
  exact h.trans (h.foldl hdeclareRole roles db) (h.foldl hdeclareScope scopes _)

theorem provisionInstance (hub organization steward : Pk) (db : DB) (r : InstanceRequest) :
    R db (provisionInstance env hub organization steward db r) := by
  obtain ⟨t, ht, -⟩ := deviceOf_eq db env r.deviceId organization
  unfold DB.provisionInstance
  generalize db.deviceOf env r.deviceId organization = s at ht
  obtain ⟨e, device⟩ := s
  dsimp only at ht ⊢
  subst ht
  have hkept : ∀ u : Table ServiceInstance, R db { db with devices := t, instances := u } := fun _ => h.services db
  split
  · exact h.trans (hkept _) (h.registerPermissions _ _ _ _ _)
  · exact h.trans (hkept _) (h.registerPermissions _ _ _ _ _)

theorem getOrCreateHub (db : DB) (organization : Pk) (manifest : HubManifest) (creator : Pk) :
    R db (db.getOrCreateHub organization manifest creator).1 := by
  unfold DB.getOrCreateHub
  split
  · refine h.beside ⟨rfl, rfl, rfl, rfl, rfl, fun _ m hm => ⟨m, hm, rfl⟩, Nat.le_refl _, fun k x' hx' => .inl ?_⟩
    rcases modify_row_eq_some.mp hx' with ⟨-, hx⟩ | ⟨-, x, hx, rfl⟩
    · exact ⟨x', hx, rfl⟩
    · exact ⟨x, hx, rfl⟩
  · refine h.beside ⟨rfl, rfl, rfl, rfl, rfl, fun _ m hm => ⟨m, hm, rfl⟩, Nat.le_succ _, fun k x' hx' => ?_⟩
    rcases insert_row_eq_some.mp hx' with ⟨rfl, rfl⟩ | hx
    · exact .inr ⟨Nat.le_refl _, rfl⟩
    · exact .inl ⟨x', hx, rfl⟩

/-! ## Mandates -/

theorem issueHubMandate {hub grantor : Pk} {auth : Bool} {request : ClientRequest}
    (hok : db.issueHubMandate env hub grantor auth request = .ok d) : R db d := by
  obtain ⟨r, hr, rfl⟩ := map_ok.mp hok
  obtain ⟨t, m, hasked, heq, -, -⟩ := issueMandate_ok hr
  obtain ⟨m₀, -, hnone, -, -, rfl⟩ := hasked.issuer
  rw [heq]
  exact h.issue t hnone

theorem ensureHubMandate {hub grantor : Pk} {auth : Bool} {request : ClientRequest}
    (hok : ensureHubMandate env hub grantor auth db request = .ok d) : R db d := by
  unfold DB.ensureHubMandate at hok
  split at hok
  · rename_i pk current hcurrent
    split at hok
    · cases hok
      exact h.keep _ _ _ (first_eq_some hcurrent).1
    · split at hok
      · cases hok
        exact h.refl db
      · simp only [bind_ok] at hok
        obtain ⟨e, he, hok⟩ := hok
        exact h.trans (h.revoke he) (h.issueHubMandate hok)
  · split at hok
    · cases hok
      exact h.refl db
    · exact h.issueHubMandate hok

theorem ensureHubMandates {hub grantor : Pk} {manifest : HubManifest}
    (hok : db.ensureHubMandates env hub manifest grantor = .ok d) : R db d := by
  simp only [DB.ensureHubMandates, revokeAll, bind_ok] at hok
  obtain ⟨e, he, hok⟩ := hok
  exact h.trans (h.foldlM (fun _ _ _ hst => h.ensureHubMandate hst) he)
    (h.foldlM (fun _ _ _ hst => h.revoke hst) hok)

end Steps

/-! ## The approval -/

theorem Steps.provisionServices {R : DB → DB → Prop} (h : Steps R) {env : Env} {manifest : HubManifest}
    {user organization hub
    membership : Pk} (hok : db.provisionServices env manifest user organization = .ok (d, hub, membership)) :
      R db d := by
  simp only [DB.provisionServices, bind_ok, found_ok, reraise_ok, pure_ok, Prod.exists, Prod.mk.injEq] at hok
  obtain ⟨-, -, t, ht, _, _, -, e, he, rfl, rfl, rfl⟩ := hok
  obtain rfl := provisionService_foldl ht
  refine h.trans ?_ (h.ensureHubMandates he)
  refine h.trans ?_ (h.foldl (h.provisionInstance _ _ _) _ _)
  exact h.trans (h.getOrCreateHub db organization manifest user)
    (h.delete (by simp [withHubs, withInstances]) .instance_)

end DB

end Lok
