import Lok.Registrations
import Lok.System

/-!
# Roles and scopes while they are declared

Instances register what they declare, again and again, and go, by themselves or with their
hub. Both registries list exactly who declares an entry last. An entry goes with the
instance that made it, whoever else declares it: only where the maker is not survived by
other users, holders or pins do roles and scopes exist exactly as long as they should.
-/

namespace Lok

open Table Registry Checks

namespace DB

variable {db d : DB} {roots : List Ref} {organization : Pk}

/-! ## Deleting instances and hubs -/

/-- The receivers of a deletion leave roles, scopes and instances to its own cascade. -/
theorem delete_services (origin : Model) (upgrading : Option Pk) :
    (db.delete origin roots upgrading).roles = (db.removeCascade roots).roles
      ∧ (db.delete origin roots upgrading).scopes = (db.removeCascade roots).scopes
      ∧ (db.delete origin roots upgrading).instances = (db.removeCascade roots).instances := by
  have hcascade : ∀ (d : DB) (S : List Model) (rs : List Ref), Within S →
    (∀ r ∈ rs, r.model ∈ S) → Model.role ∉ S →
      Model.scope ∉ S → Model.instance_ ∉ S → Model.user ∉ S →
      (d.removeCascade rs).roles = d.roles ∧ (d.removeCascade rs).scopes = d.scopes
        ∧ (d.removeCascade rs).instances = d.instances := by
    intro d S rs hS hrs hrole hscope hinstance huser
    have hne : ∀ model, model ∉ S → ∀ r ∈ d.collect rs, r.model ≠ model :=
      fun model hmodel r hr heq => hmodel (heq ▸ collect_within hS hrs hr)
    refine ⟨?_, ?_, ?_⟩ <;> simp only [removeCascade, remove]
    · rw [keep_eq_self fun pk _ => keeps_eq_true (hne _ hrole) pk]
      exact update_eq_self fun _ _ _ => by rw [keepList_eq_self (hne _ hinstance)]
    · rw [keep_eq_self fun pk _ => keeps_eq_true (hne _ hscope) pk]
      exact update_eq_self fun _ _ _ => by rw [keepList_eq_self (hne _ hinstance)]
    · rw [keep_eq_self fun pk _ => keeps_eq_true (hne _ hinstance) pk]
      exact update_eq_self fun _ _ _ => by rw [keepList_eq_self (hne _ huser), keepList_eq_self (hne _ huser)]
  refine delete_induct_sync (P := fun d : DB => d.roles = (db.removeCascade roots).roles
    ∧ d.scopes = (db.removeCascade roots).scopes ∧ d.instances = (db.removeCascade roots).instances)
    (fun d m hd => ?_) (fun d c hd => ?_) ⟨rfl, rfl, rfl⟩
  · obtain ⟨hr, hs, hi⟩ := hcascade d withMemberships [⟨.membership, m⟩] withMemberships_within
      (by simp [withMemberships])
      (by decide) (by decide) (by decide) (by decide)
    exact ⟨hr.trans hd.1, hs.trans hd.2.1, hi.trans hd.2.2⟩
  · obtain ⟨hr, hs, hi⟩ := hcascade d withClients [⟨.client, c⟩] withClients_within (by simp [withClients])
      (by decide) (by decide) (by decide) (by decide)
    exact ⟨hr.trans hd.1, hs.trans hd.2.1, hi.trans hd.2.2⟩

/-- The instance goes in a deletion that begins at `roots`. -/
def goes (db : DB) (roots : List Ref) (i : Pk) : Prop := (⟨.instance_, i⟩ : Ref) ∈ db.collect roots

instance (db : DB) (roots : List Ref) (i : Pk) : Decidable (db.goes roots i) := inferInstanceAs (Decidable (_ ∈ _))

section

variable (hroots : ∀ r ∈ roots, r.model = .instance_ ∨ r.model = .hub)
include hroots

theorem goes_with_maker {x : Ref} {o : Pk} {maker : Option Pk} (hx : x.model ≠ .instance_ ∧ x.model ≠ .hub)
    (hhangs : ∀ p, p ∈ db.hangsOn x ↔ p = ⟨.organization, o⟩ ∨ ∃ m, maker = some m ∧ p = ⟨.instance_, m⟩) :
    x ∈ db.collect roots ↔ ∃ m, maker = some m ∧ db.goes roots m := by
  constructor
  · intro h
    cases Closure.mem_closure.mp h with
    | root h => exact (hroots _ h).elim (fun h => absurd h hx.1) fun h => absurd h hx.2
    | hangs _ hp hreached =>
      have hp' := Closure.mem_closure.mpr hreached
      rcases (hhangs _).mp hp with rfl | ⟨m, hm, rfl⟩
      · -- instances and hubs take no organization along
        have horganization : Model.organization ∈ Model.hub :: withInstances :=
          collect_within (by decide) (fun r hr => by rcases hroots r hr with h | h <;> simp [h, withInstances]) hp'
        exact absurd horganization (by simp [withInstances, withMemberships])
      · exact ⟨m, hm, hp'⟩
  · rintro ⟨m, hm, hgoes⟩
    exact mem_collect_of_hangsOn ((hhangs _).mpr (.inr ⟨m, hm, rfl⟩)) hgoes

theorem role_goes {pk : Pk} {r : Role} (hr : db.roles.row pk = some r) :
    (⟨.role, pk⟩ : Ref) ∈ db.collect roots ↔ ∃ m, r.creatingInstance = some m ∧ db.goes roots m :=
  goes_with_maker (o := r.organization) hroots (by simp) fun p => by simp [hangsOn, hr, Role.hangsOn, mem_refOf]

theorem scope_goes {pk : Pk} {s : Scope} (hs : db.scopes.row pk = some s) :
    (⟨.scope, pk⟩ : Ref) ∈ db.collect roots ↔ ∃ m, s.creatingInstance = some m ∧ db.goes roots m :=
  goes_with_maker (o := s.organization) hroots (by simp) fun p => by simp [hangsOn, hs, Scope.hangsOn, mem_refOf]

theorem roles_departed (db : DB) (origin : Model) (upgrading : Option Pk) :
    Departed Role.view Role.setUsers (db.goes roots) db.roles (db.delete origin roots upgrading).roles := by
  rw [(delete_services origin upgrading).1]
  have hrow : ∀ pk, (db.removeCascade roots).roles.row pk
      = ((db.roles.row pk).filter fun _ => keeps (db.collect roots) .role pk).map fun r =>
        r.setUsers (keepList (db.collect roots) .instance_ r.usedBy) := fun _ => rfl
  refine ⟨fun pk r hr => ?_, fun pk hpk => by rw [hrow, hpk, Option.filter_none, Option.map_none]⟩
  rw [hrow, hr]
  by_cases hgone : (⟨.role, pk⟩ : Ref) ∈ db.collect roots
  · refine .inr ⟨by simp [keeps, hgone], (role_goes hroots hr).mp hgone⟩
  · refine .inl ⟨r.setUsers (keepList (db.collect roots) .instance_ r.usedBy), by simp [keeps, hgone], ⟨_, rfl⟩,
      fun i => mem_keepList, fun m hm hgoes => ?_⟩
    exact hgone ((role_goes hroots hr).mpr ⟨m, hm, hgoes⟩)

theorem scopes_departed (db : DB) (origin : Model) (upgrading : Option Pk) :
    Departed Scope.view Scope.setUsers (db.goes roots) db.scopes (db.delete origin roots upgrading).scopes := by
  rw [(delete_services origin upgrading).2.1]
  have hrow : ∀ pk, (db.removeCascade roots).scopes.row pk
      = ((db.scopes.row pk).filter fun _ => keeps (db.collect roots) .scope pk).map fun s =>
        s.setUsers (keepList (db.collect roots) .instance_ s.usedBy) := fun _ => rfl
  refine ⟨fun pk s hs => ?_, fun pk hpk => by rw [hrow, hpk, Option.filter_none, Option.map_none]⟩
  rw [hrow, hs]
  by_cases hgone : (⟨.scope, pk⟩ : Ref) ∈ db.collect roots
  · refine .inr ⟨by simp [keeps, hgone], (scope_goes hroots hs).mp hgone⟩
  · refine .inl ⟨s.setUsers (keepList (db.collect roots) .instance_ s.usedBy), by simp [keeps, hgone], ⟨_, rfl⟩,
      fun i => mem_keepList, fun m hm hgoes => ?_⟩
    exact hgone ((scope_goes hroots hs).mpr ⟨m, hm, hgoes⟩)

end

theorem instance_left (db : DB) (roots : List Ref) (origin : Model) (upgrading : Option Pk) (i : Pk) :
    (db.delete origin roots upgrading).has ⟨.instance_, i⟩ ↔ db.has ⟨.instance_, i⟩ ∧ ¬ db.goes roots i := by
  have hsame : (db.delete origin roots upgrading).has ⟨.instance_, i⟩
    ↔ (db.removeCascade roots).has ⟨.instance_, i⟩ := by
    simp only [has, (delete_services origin upgrading).2.2]
  rw [hsame]
  constructor
  · intro h
    exact ⟨Classical.by_contradiction fun hno => not_has_of_shrinks (remove_shrinks _ _) hno h,
      fun hgoes => not_has_remove hgoes h⟩
  · exact fun h => remove_has h.1 h.2

end DB

/-! ## What instances declare -/

/-- The database, and the keys each instance registered last. -/
structure Declaring where
  db : DB
  roles : Pk → List String
  scopes : Pk → List String

/-- What happens to the permissions of an organization. -/
inductive PermissionEvent
  | register (instance_ : Pk) (roles : List RoleDeclaration) (scopes : List ScopeDeclaration)
  /-- Instances or hubs are deleted. -/
  | delete (model : Model) (pks : List Pk)
  /-- Anything else that leaves the roles, the scopes and the instances. -/
  | other (d : DB)

def refsAt (model : Model) (pks : List Pk) : List Ref := pks.map (⟨model, ·⟩)

/-- Nothing happened to an organization's roles and scopes, and no instance went. -/
structure Elsewhere (organization : Pk) (db d : DB) : Prop where
  roles : ∀ pk r, r.organization = organization → (d.roles.row pk = some r ↔ db.roles.row pk = some r)
  scopes : ∀ pk s, s.organization = organization → (d.scopes.row pk = some s ↔ db.scopes.row pk = some s)
  instances : ∀ i, db.has ⟨.instance_, i⟩ → d.has ⟨.instance_, i⟩
  newer : ∀ i, d.has ⟨.instance_, i⟩ → db.has ⟨.instance_, i⟩ ∨ db.instances.next ≤ i
  next : db.instances.next ≤ d.instances.next
  unique : Unique Role.view d.roles ∧ Unique Scope.view d.scopes

namespace Declaring

open DB

inductive Step (organization : Pk) : Declaring → PermissionEvent → Declaring → Prop
  | register {s instance_ roles scopes}
    (hi : (s.db.instances.row instance_).map (·.organization) = some organization) :
      Step organization s (.register instance_ roles scopes)
        ⟨s.db.registerPermissions instance_ organization roles scopes,
          fun j => if j = instance_ then roles.map (·.key) else s.roles j,
          fun j => if j = instance_ then scopes.map (·.key) else s.scopes j⟩
  | delete {s model pks} (hmodel : model = .instance_ ∨ model = .hub) :
      Step organization s (.delete model pks) { s with db := s.db.delete model (refsAt model pks) none }
  | other {s d} (h : Elsewhere organization s.db d) : Step organization s (.other d) { s with db := d }

/-- An instance that remains declared the key last. -/
def declaresRole (s : Declaring) (i : Pk) (key : String) : Prop := s.db.has ⟨.instance_, i⟩ ∧ key ∈ s.roles i

def declaresScope (s : Declaring) (i : Pk) (key : String) : Prop := s.db.has ⟨.instance_, i⟩ ∧ key ∈ s.scopes i

/-- A service's role exists exactly while an instance declares it. -/
structure RolesDeclared (organization : Pk) (s : Declaring) : Prop where
  declared : ∀ pk r, s.db.roles.row pk = some r → r.organization = organization →
    r.creatingInstance.isSome = true →
    ∃ i, s.declaresRole i r.identifier
  there : ∀ i key, s.declaresRole i key → ∃ pk r, s.db.roles.row pk = some r ∧ r.organization = organization
    ∧ r.identifier = key

/-- A service's scope that went was declared by no instance left, held by no client left, pinned by no
mandate left. -/
def ScopesKept (organization : Pk) (s t : Declaring) : Prop :=
  ∀ pk x, s.db.scopes.row pk = some x → x.organization = organization → x.creatingInstance.isSome = true →
    t.db.scopes.row pk = none →
    (∀ i, ¬ t.declaresScope i x.identifier)
    ∧ (∀ k c, s.db.clients.row k = some c → pk ∈ c.scopes → ¬ t.db.has ⟨.client, k⟩)
    ∧ ∀ k m, s.db.mandates.row k = some m → m.organization = organization →
      m.pin.scopes.any (·.contains x.identifier) →
      ¬ t.db.has ⟨.mandate, k⟩

/-- In a deletion every service's role goes with the last to declare it, and no scope goes that is still in use. -/
structure Confines (organization : Pk) (db : DB) (roots : List Ref) : Prop where
  roles : ∀ pk r, db.roles.row pk = some r → r.organization = organization → ∀ m ∈ r.creatingInstance,
    (db.goes roots m ↔ ∀ i ∈ r.usedBy, db.goes roots i)
  scopes : ∀ pk x, db.scopes.row pk = some x → x.organization = organization →
    ∀ m ∈ x.creatingInstance, db.goes roots m →
    (∀ i ∈ x.usedBy, db.goes roots i)
    ∧ (∀ k c, db.clients.row k = some c → pk ∈ c.scopes → (⟨.client, k⟩ : Ref) ∈ db.collect roots)
    ∧ ∀ k m, db.mandates.row k = some m → m.organization = organization →
      m.pin.scopes.any (·.contains x.identifier) →
      (⟨.mandate, k⟩ : Ref) ∈ db.collect roots

def Confined (organization : Pk) (s : Declaring) : PermissionEvent → Prop
  | .delete model pks => Confines organization s.db (refsAt model pks)
  | .register .. | .other _ => True

/-! ## The registries follow what is declared -/

structure Law (organization : Pk) (s : Declaring) : Prop where
  roles : Tallies Role.view organization s.declaresRole s.db.roles
  scopes : Tallies Scope.view organization s.declaresScope s.db.scopes
  used : Used Role.view organization s.db.roles
  builtin : ∀ pk r, s.db.roles.row pk = some r → r.organization = organization → r.isBuiltin = false
  unborn : ∀ i, s.db.instances.next ≤ i → s.roles i = [] ∧ s.scopes i = []

variable {organization : Pk} {s t : Declaring} {e : PermissionEvent}

theorem law_register {instance_ : Pk} {roles : List RoleDeclaration} {scopes : List ScopeDeclaration}
    (h : s.Law organization) (hi : s.db.has ⟨.instance_, instance_⟩) :
    Law organization ⟨s.db.registerPermissions instance_ organization roles scopes,
      fun j => if j = instance_ then roles.map (·.key) else s.roles j,
      fun j => if j = instance_ then scopes.map (·.key) else s.scopes j⟩ := by
  obtain ⟨-, hroles, hscopes⟩ := registered_spec instance_ organization s.db roles scopes
  obtain ⟨hbesides, hsameRoles, hsameScopes⟩ :=
    registerPermissions_spec instance_ organization s.db roles scopes
  have hbuiltin := registered_builtin instance_ organization s.db roles scopes h.builtin
  rw [← hsameRoles] at hroles hbuiltin
  rw [← hsameScopes] at hscopes
  generalize s.db.registerPermissions instance_ organization roles scopes = d at *
  have hhas : ∀ j, d.has ⟨.instance_, j⟩ ↔ s.db.has ⟨.instance_, j⟩ :=
    fun j => by simp only [DB.has, hbesides.instances]
  have hdeclares : ∀ (last : Pk → List String) (keys : List String),
      (fun j key => if j = instance_ then key ∈ keys else s.db.has ⟨.instance_, j⟩ ∧ key ∈ last j)
        = fun j key => d.has ⟨.instance_, j⟩ ∧ key ∈ if j = instance_ then keys else last j := by
    intro last keys
    funext j key
    rw [hhas]
    by_cases hj : j = instance_
    · subst hj
      rw [if_pos rfl, if_pos rfl]
      exact propext (and_iff_right hi).symm
    · rw [if_neg hj, if_neg hj]
  have hrolesTally := h.roles.registered hroles
  refine ⟨?_, ?_, hrolesTally.used hroles h.used h.builtin, hbuiltin, fun j hj => ?_⟩
  · have := hdeclares s.roles (roles.map (·.key))
    unfold declaresRole at hrolesTally ⊢
    rwa [this] at hrolesTally
  · have hscopesTally := h.scopes.registered hscopes
    have := hdeclares s.scopes (scopes.map (·.key))
    unfold declaresScope at hscopesTally ⊢
    rwa [this] at hscopesTally
  · have hj : s.db.instances.next ≤ j := by rwa [hbesides.instances] at hj
    obtain ⟨i, hi⟩ := hi
    have hne : j ≠ instance_ := Nat.ne_of_gt (Nat.lt_of_lt_of_le (lt_next hi) hj)
    show (if j = instance_ then _ else s.roles j) = [] ∧ (if j = instance_ then _ else s.scopes j) = []
    rw [if_neg hne, if_neg hne]
    exact h.unborn j hj

theorem law_delete {model : Model} {pks : List Pk} (h : s.Law organization)
    (hmodel : model = .instance_ ∨ model = .hub)
    (hconfined : Confines organization s.db (refsAt model pks)) :
    Law organization { s with db := s.db.delete model (refsAt model pks) none } := by
  have hroots : ∀ r ∈ refsAt model pks, r.model = .instance_ ∨ r.model = .hub := by
    intro r hr
    obtain ⟨pk, -, rfl⟩ := List.mem_map.mp hr
    exact hmodel
  have hroles := roles_departed hroots s.db model none
  have hscopes := scopes_departed hroots s.db model none
  have hleft := instance_left s.db (refsAt model pks) model none
  have hshrinks := delete_shrinks s.db model (refsAt model pks) none
  generalize refsAt model pks = roots at *
  generalize s.db.delete model roots none = d at *
  have hdeclares : ∀ last : Pk → List String,
      (fun j (key : String) => (s.db.has ⟨.instance_, j⟩ ∧ key ∈ last j) ∧ ¬ s.db.goes roots j)
        = fun j key => d.has ⟨.instance_, j⟩ ∧ key ∈ last j := by
    intro last
    funext j key
    rw [hleft j]
    exact propext and_right_comm
  refine ⟨?_, ?_, hroles.used Role.lawful ?_, ?_, fun j hj => h.unborn j (by rwa [← hshrinks.instances.1])⟩
  · have hrolesTally := h.roles.departed Role.lawful hroles fun pk r hr ho m hm hgoes =>
      ((hconfined.roles pk r hr ho m hm).mp hgoes)
    unfold declaresRole at hrolesTally ⊢
    rwa [hdeclares s.roles] at hrolesTally
  · have hscopesTally := h.scopes.departed Scope.lawful hscopes fun pk x hx ho m hm hgoes =>
      (hconfined.scopes pk x hx ho m hm hgoes).1
    unfold declaresScope at hscopesTally ⊢
    rwa [hdeclares s.scopes] at hscopesTally
  · exact fun pk r hr ho m hm hall => (hconfined.roles pk r hr ho m hm).mpr hall
  · intro pk r hr ho
    obtain ⟨r₀, hr₀, l, rfl⟩ := hshrinks.roles.2 pk r hr
    exact h.builtin pk r₀ hr₀ ho

theorem law_other {d : DB} (h : s.Law organization) (hother : Elsewhere organization s.db d) :
    Law organization { s with db := d } := by
  have hdeclares : ∀ last : Pk → List String, (∀ i, s.db.instances.next ≤ i → last i = []) → ∀ j key,
      (d.has ⟨.instance_, j⟩ ∧ key ∈ last j ↔ s.db.has ⟨.instance_, j⟩ ∧ key ∈ last j) := by
    refine fun last hlast j key => and_congr_left fun hkey => ⟨fun hj => ?_, hother.instances j⟩
    refine (hother.newer j hj).resolve_right fun hnext => ?_
    rw [hlast j hnext] at hkey
    cases hkey
  have hroles := hdeclares s.roles fun i hi => (h.unborn i hi).1
  have hscopes := hdeclares s.scopes fun i hi => (h.unborn i hi).2
  refine ⟨⟨hother.unique.1, fun pk r hr ho i => ?_, fun i key hi => ?_⟩,
    ⟨hother.unique.2, fun pk x hx ho i => ?_, fun i key hi => ?_⟩, fun pk r hr ho => ?_, fun pk r hr ho => ?_,
    fun j hj => h.unborn j (Nat.le_trans hother.next hj)⟩
  · exact (h.roles.users pk r ((hother.roles pk r ho).mp hr) ho i).trans (hroles i _).symm
  · obtain ⟨pk, r, hr, ho, hname⟩ := h.roles.there i key ((hroles i key).mp hi)
    exact ⟨pk, r, (hother.roles pk r ho).mpr hr, ho, hname⟩
  · exact (h.scopes.users pk x ((hother.scopes pk x ho).mp hx) ho i).trans (hscopes i _).symm
  · obtain ⟨pk, x, hx, ho, hname⟩ := h.scopes.there i key ((hscopes i key).mp hi)
    exact ⟨pk, x, (hother.scopes pk x ho).mpr hx, ho, hname⟩
  · exact h.used pk r ((hother.roles pk r ho).mp hr) ho
  · exact h.builtin pk r ((hother.roles pk r ho).mp hr) ho

theorem law_step (h : s.Law organization) (hstep : Step organization s e t)
    (hconfined : s.Confined organization e) :
    t.Law organization := by
  cases hstep with
  | register hi =>
    obtain ⟨i, hi, -⟩ := Option.map_eq_some_iff.mp hi
    exact law_register h ⟨i, hi⟩
  | delete hmodel => exact law_delete h hmodel hconfined
  | other hother => exact law_other h hother

theorem Law.rolesDeclared (h : s.Law organization) : s.RolesDeclared organization := by
  refine ⟨fun pk r hr ho hmaker => ?_, fun i key hi => h.roles.there i key hi⟩
  obtain ⟨i, hi⟩ := List.exists_mem_of_ne_nil _ (h.used pk r hr ho hmaker)
  exact ⟨i, (h.roles.users pk r hr ho i).mp hi⟩

theorem Law.scopesKept (h : s.Law organization) (hstep : Step organization s e t)
    (hconfined : s.Confined organization e) :
    ScopesKept organization s t := by
  intro pk x hx ho hmaker hgone
  cases hstep with
  | @register instance_ roles scopes hi =>
    obtain ⟨-, -, hscopes⟩ := registered_spec instance_ organization s.db roles scopes
    obtain ⟨hbesides, -, hsame⟩ :=
      registerPermissions_spec instance_ organization s.db roles scopes
    dsimp only at hgone
    rw [hsame] at hgone
    rcases hscopes.kept pk x hx with ⟨y, hy, -⟩ | ⟨-, -, -, hname, hall, -, hheld⟩
    · rw [hgone] at hy
      cases hy
    · simp only [scopeIsHeld, Bool.or_eq_false_iff] at hheld
      refine ⟨fun j hj => ?_, fun k c hc hpk _ => ?_, fun k m hm hmo hpin _ => ?_⟩
      · obtain ⟨hhas, hkey⟩ := hj
        dsimp only at hhas hkey
        split at hkey
        · exact hname hkey
        · rename_i hne
          simp only [DB.has, hbesides.instances] at hhas
          exact hne (hall.2 j ((h.scopes.users pk x hx ho j).mpr ⟨hhas, hkey⟩))
      · simpa [hpk] using exists?_eq_false.mp hheld.1 k c hc
      · have := exists?_eq_false.mp hheld.2 k m hm
        rw [hpin, hmo, ho] at this
        simp at this
  | @delete model pks hmodel =>
    have hroots : ∀ r ∈ refsAt model pks, r.model = .instance_ ∨ r.model = .hub := by
      intro r hr
      obtain ⟨pk, -, rfl⟩ := List.mem_map.mp hr
      exact hmodel
    rcases (scopes_departed hroots s.db model none).kept pk x hx with ⟨y, hy, -⟩ | ⟨-, m, hm, hgoes⟩
    · dsimp only at hgone
      rw [hgone] at hy
      cases hy
    · obtain ⟨husers, hclients, hmandates⟩ := hconfined.scopes pk x hx ho m hm hgoes
      have hnothas : ∀ r ∈ s.db.collect (refsAt model pks), ¬ (s.db.delete model (refsAt model pks) none).has r :=
        fun r hr => not_has_of_shrinks (delete_shrinks_remove _ _ _ _) (not_has_remove hr)
      refine ⟨fun i hi => ?_, fun k c hc hpk => hnothas _ (hclients k c hc hpk),
        fun k m hm hmo hpin => hnothas _ (hmandates k m hm hmo hpin)⟩
      obtain ⟨hhas, hkey⟩ := hi
      obtain ⟨hbefore, hstays⟩ := (instance_left _ _ model none i).mp hhas
      exact hstays (husers i ((h.scopes.users pk x hx ho i).mpr ⟨hbefore, hkey⟩))
  | other hother =>
    dsimp only at hgone
    rw [(hother.scopes pk x ho).mpr hx] at hgone
    cases hgone

/-! ## Every run -/

/-- No service of the organization registered anything yet. -/
structure Bare (organization : Pk) (db : DB) : Prop where
  unique : Unique Role.view db.roles ∧ Unique Scope.view db.scopes
  roles : ∀ pk r, db.roles.row pk = some r → r.organization = organization →
    r.creatingInstance = none ∧ r.usedBy = [] ∧ r.isBuiltin = false
  scopes : ∀ pk x, db.scopes.row pk = some x → x.organization = organization → x.usedBy = []

def start (db : DB) : Declaring := ⟨db, fun _ => [], fun _ => []⟩

theorem Bare.law {db : DB} (h : Bare organization db) : (start db).Law organization where
  roles := by
    refine ⟨h.unique.1, fun pk r hr ho i => ?_, fun i key hi => (List.not_mem_nil hi.2).elim⟩
    have hnil : Role.view.users r = [] := (h.roles pk r hr ho).2.1
    rw [hnil]
    exact iff_of_false List.not_mem_nil fun hi => List.not_mem_nil hi.2
  scopes := by
    refine ⟨h.unique.2, fun pk x hx ho i => ?_, fun i key hi => (List.not_mem_nil hi.2).elim⟩
    have hnil : Scope.view.users x = [] := h.scopes pk x hx ho
    rw [hnil]
    exact iff_of_false List.not_mem_nil fun hi => List.not_mem_nil hi.2
  used pk r hr ho hmaker := by
    have hnone : Role.view.maker r = none := (h.roles pk r hr ho).1
    rw [hnone] at hmaker
    cases hmaker
  builtin pk r hr ho := (h.roles pk r hr ho).2.2
  unborn _ _ := ⟨rfl, rfl⟩

/-- Steps none of whose deletions takes what is still in use, or leaves what nobody declares. -/
def ConfinedStep (organization : Pk) (s : Declaring) (e : PermissionEvent) (t : Declaring) : Prop :=
  Step organization s e t ∧ s.Confined organization e

/-- Roles exist exactly while they are declared, and no scope goes that is in use, whoever declared first. -/
theorem permissions_while_declared {db : DB} {es : List PermissionEvent} (hbare : Bare organization db)
    (hrun : Runs.Run (ConfinedStep organization) (start db) es s) :
    s.RolesDeclared organization ∧ ∀ e t, ConfinedStep organization s e t → ScopesKept organization s t := by
  have hlaw : s.Law organization :=
    hrun.invariant (P := fun s => s.Law organization) (fun h hstep => law_step h hstep.1 hstep.2) hbare.law
  exact ⟨hlaw.rolesDeclared, fun e t hstep => hlaw.scopesKept hstep.1 hstep.2⟩

/-! ## A role two services share -/

theorem plain_bare : Bare 0 (run plainEnv .empty (plainSetup [])) := by
  refine ⟨⟨?_, ?_⟩, ?_, ?_⟩
  · rw [unique_iff]
    decide +kernel
  · rw [unique_iff]
    decide +kernel
  · simp only [Table.forall_row_iff]
    decide +kernel
  · simp only [Table.forall_row_iff]
    decide +kernel

/-- One service declares a role, another a scope; the first is deleted, and its role with it. -/
theorem permissions_while_declared_deleted :
    ∃ s, Runs.Run (ConfinedStep 0) (start (run plainEnv .empty (plainSetup [])))
        [.register 0 [⟨"editor", none, false, false⟩] [], .register 1 [] [⟨"send", none, false⟩],
         .delete .instance_ [0]] s
      ∧ s.RolesDeclared 0 ∧ ∀ e t, ConfinedStep 0 s e t → ScopesKept 0 s t := by
  have hrun : ∃ s, Runs.Run (ConfinedStep 0) (start (run plainEnv .empty (plainSetup [])))
      [.register 0 [⟨"editor", none, false, false⟩] [], .register 1 [] [⟨"send", none, false⟩],
       .delete .instance_ [0]] s := by
    refine ⟨_, .cons ⟨.register (by decide +kernel), trivial⟩ (.cons ⟨.register (by decide +kernel), trivial⟩
      (.cons ⟨.delete (.inl rfl), ?_, ?_⟩ (.nil _)))⟩ <;> simp only [Table.forall_row_iff] <;> decide +kernel
  obtain ⟨s, hrun⟩ := hrun
  exact ⟨s, hrun, permissions_while_declared plain_bare hrun⟩

theorem not_rolesDeclared (i : Pk) (key : String) (hi : (s.db.instances.row i).isSome = true)
    (hkey : key ∈ s.roles i)
    (hnone : (s.db.roles.exists? fun _ r => r.organization == organization && r.identifier == key) = false) :
    ¬ s.RolesDeclared organization := by
  intro h
  obtain ⟨pk, r, hr, ho, hname⟩ := h.there i key ⟨Option.isSome_iff_exists.mp hi, hkey⟩
  simpa [ho, hname] using exists?_eq_false.mp hnone pk r hr

/-- Two services declare the same role; with the one that declared it first the role goes, though the other
declares it. -/
theorem shared_role_goes :
    ∃ es s, Runs.Run (Step 0) (start (run plainEnv .empty (plainSetup []))) es s ∧ ¬ s.RolesDeclared 0 := by
  refine ⟨[.register 0 [⟨"editor", none, false, false⟩] [], .register 1 [⟨"editor", none, false, false⟩] [],
    .delete .instance_ [0]], _, .cons (.register (by decide +kernel)) (.cons (.register (by decide +kernel))
      (.cons (.delete (.inl rfl)) (.nil _))), ?_⟩
  exact not_rolesDeclared 1 "editor" (by decide +kernel) (by decide +kernel) (by decide +kernel)

end Declaring

end Lok
