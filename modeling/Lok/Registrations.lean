import Lok.Hubs
import Lok.Upserts
import Lok.RoleWrites

/-!
# What registering leaves

A registration declares the roles and scopes of an instance, signs the instance off from
those it dropped, and syncs the memberships. Deleting a role or a scope takes nothing along
that another registration reads, so both relations are registries of their own.
-/

namespace Lok

open Table Registry Checks

/-! ## Removing what few rows hang on -/

namespace DB

variable {db d : DB} {gone : List Ref}

theorem keepList_eq_self {model : Model} {l : List Pk} (h : ∀ r ∈ gone, r.model ≠ model) :
    keepList gone model l = l :=
  List.filter_eq_self.mpr fun pk _ => by
    have : (⟨model, pk⟩ : Ref) ∉ gone := fun hmem => h _ hmem rfl
    simpa using this

theorem keepOpt_eq_self {model : Model} {o : Option Pk} (h : ∀ r ∈ gone, r.model ≠ model) :
    keepOpt gone model o = o := by
  cases o with
  | none => rfl
  | some pk =>
    have : (⟨model, pk⟩ : Ref) ∉ gone := fun hmem => h _ hmem rfl
    simp [keepOpt, Option.filter, this]

theorem keep_eq_self {α : Type} {t : Table α} {p : Nat → α → Bool} (h : ∀ pk a, p pk a = true) : t.keep p = t :=
  Table.ext rfl fun pk => by
    cases hrow : t.row pk <;> simp [keep, hrow, h]

theorem update_eq_self {α : Type} {t : Table α} {f : Nat → α → α} (h : ∀ pk a, t.row pk = some a → f pk a = a) :
    t.update f = t :=
  Table.ext rfl fun pk => by
    cases hrow : t.row pk with
    | none => simp [update_row, hrow]
    | some a => simp [update_row, hrow, h pk a hrow]

theorem keeps_eq_true {model : Model} (h : ∀ r ∈ gone, r.model ≠ model) (pk : Pk) :
    keeps gone model pk = true := by
  have : (⟨model, pk⟩ : Ref) ∉ gone := fun hmem => h _ hmem rfl
  simpa [keeps] using this

/-- What deleting a role or a scope leaves alone. -/
structure Besides (db d : DB) : Prop where
  clients : d.clients = db.clients
  mandates : d.mandates = db.mandates
  instances : d.instances = db.instances
  hubs : d.hubs = db.hubs
  grants : d.grants = db.grants
  organizations : d.organizations = db.organizations
  users : d.users = db.users

theorem Besides.refl (db : DB) : Besides db db := ⟨rfl, rfl, rfl, rfl, rfl, rfl, rfl⟩

theorem Besides.trans {e : DB} (h : Besides db d) (k : Besides d e) : Besides db e :=
  ⟨k.clients.trans h.clients, k.mandates.trans h.mandates, k.instances.trans h.instances, k.hubs.trans h.hubs,
    k.grants.trans h.grants, k.organizations.trans h.organizations, k.users.trans h.users⟩

/-! ## Deleting a role -/

theorem collect_role {role : Pk} {r : Ref} (h : r ∈ db.collect [⟨.role, role⟩]) :
    r = ⟨.role, role⟩ ∨ r.model = .roleRequest := by
  have hwithin : r.model ∈ [Model.role, .roleRequest] :=
    collect_within (by decide) (by simp) h
  cases Closure.mem_closure.mp h with
  | root hr => exact .inl (by simpa using hr)
  | hangs hn hp hreached =>
    rename_i p
    have hunder := hangsOn_under hp
    have hpin : p.model ∈ [Model.role, .roleRequest] :=
      collect_within (by decide) (by simp) (Closure.mem_closure.mpr hreached)
    obtain ⟨model, pk⟩ := r
    simp only [List.mem_cons, List.not_mem_nil, or_false] at hwithin
    rcases hwithin with rfl | rfl
    · simp only [Model.under, List.mem_cons, List.not_mem_nil, or_false] at hunder
      rcases hunder with hm | hm <;> simp [hm] at hpin
    · exact .inr rfl

theorem delete_role_eq (role : Pk) :
    db.delete .role [⟨.role, role⟩] none
      = (db.removeCascade [⟨.role, role⟩]).syncAdmin (db.losesAdmin [⟨.role, role⟩]) := by
  refine delete_of_no_receiver fun r hr => ?_
  rcases collect_role hr with rfl | hr
  · simp
  · simp [hr]

theorem collect_scope {scope : Pk} {r : Ref} (h : r ∈ db.collect [⟨.scope, scope⟩]) : r = ⟨.scope, scope⟩ := by
  cases Closure.mem_closure.mp h with
  | root hr => simpa using hr
  | hangs hn hp hreached =>
    rename_i p
    have hunder := hangsOn_under hp
    have hpin : p.model ∈ [Model.scope] := collect_within (by decide) (by simp) (Closure.mem_closure.mpr hreached)
    rw [List.mem_singleton.mp hpin] at hunder
    obtain ⟨model, pk⟩ := r
    cases model <;> simp [Model.under] at hunder

theorem delete_scope_eq (scope : Pk) :
    db.delete .scope [⟨.scope, scope⟩] none
      = (db.removeCascade [⟨.scope, scope⟩]).syncAdmin (db.losesAdmin [⟨.scope, scope⟩]) := by
  refine delete_of_no_receiver fun r hr => ?_
  rw [collect_scope hr]
  simp

theorem remove_besides (h : ∀ r ∈ gone, r.model = .role ∨ r.model = .roleRequest ∨ r.model = .scope)
    (hheld : ∀ pk c, db.clients.row pk = some c → ∀ s ∈ c.scopes, (⟨.scope, s⟩ : Ref) ∉ gone) :
    Besides db (db.remove gone) := by
  have hne : ∀ model, model ≠ .role → model ≠ .roleRequest → model ≠ .scope → ∀ r ∈ gone, r.model ≠ model := by
    intro model h₁ h₂ h₃ r hr heq
    rcases h r hr with hm | hm | hm
    · exact h₁ (heq ▸ hm)
    · exact h₂ (heq ▸ hm)
    · exact h₃ (heq ▸ hm)
  refine ⟨?_, ?_, ?_, ?_, ?_, ?_, ?_⟩ <;> simp only [remove] <;>
    rw [keep_eq_self fun pk _ => keeps_eq_true (hne _ (by decide) (by decide) (by decide)) pk]
  · refine update_eq_self fun pk c hc => ?_
    have hscopes : keepList gone .scope c.scopes = c.scopes :=
      List.filter_eq_self.mpr fun s hs => by simpa using hheld pk c hc s hs
    rw [keepOpt_eq_self (hne _ (by decide) (by decide) (by decide)), hscopes]
  · refine update_eq_self fun _ _ _ => ?_
    rw [keepList_eq_self (hne _ (by decide) (by decide) (by decide)),
      keepList_eq_self (hne _ (by decide) (by decide) (by decide))]
  · refine update_eq_self fun _ _ _ => ?_
    rw [keepOpt_eq_self (hne _ (by decide) (by decide) (by decide))]
  · refine update_eq_self fun _ _ _ => ?_
    rw [keepOpt_eq_self (hne _ (by decide) (by decide) (by decide)),
      keepOpt_eq_self (hne _ (by decide) (by decide) (by decide))]

theorem losesAdmin_eq_nil {roots : List Ref}
    (h : ∀ pk r, db.roles.row pk = some r → ⟨.role, pk⟩ ∈ db.collect roots → r.identifier ≠ adminRole) :
    db.losesAdmin roots = [] := by
  unfold losesAdmin
  extract_lets adminRoles
  have hnil : adminRoles = [] := by
    refine List.eq_nil_iff_forall_not_mem.mpr fun pk hpk => ?_
    obtain ⟨r, hr, hp⟩ := mem_pks.mp hpk
    simp only [Bool.and_eq_true, List.contains_eq_mem, decide_eq_true_eq, beq_iff_eq] at hp
    exact h pk r hr hp.1 hp.2
  refine List.eq_nil_iff_forall_not_mem.mpr fun pk hpk => ?_
  obtain ⟨m, -, hm⟩ := mem_pks.mp hpk
  rw [hnil] at hm
  simp at hm

theorem syncAdmin_nil : db.syncAdmin [] = db := by
  show { db with memberships := _ } = db
  rw [update_eq_self fun _ _ _ => by simp]

theorem delete_role_besides (role : Pk) : Besides db (db.delete .role [⟨.role, role⟩] none) := by
  rw [delete_role_eq]
  have hremove : Besides db (db.removeCascade [⟨.role, role⟩]) := by
    refine remove_besides (fun r hr => ?_) fun _ _ _ s _ hs => ?_
    · rcases collect_role hr with rfl | hr
      · exact .inl rfl
      · exact .inr (.inl hr)
    · rcases collect_role hs with h | h <;> cases h
  exact hremove.trans ⟨rfl, rfl, rfl, rfl, rfl, rfl, rfl⟩

theorem delete_role_tables (db : DB) (role : Pk) :
    (db.delete .role [⟨.role, role⟩] none).scopes = db.scopes
      ∧ ∀ pk, (db.delete .role [⟨.role, role⟩] none).roles.row pk = if pk = role then none else db.roles.row
      pk := by
  have hinstances : ∀ r ∈ db.collect [⟨.role, role⟩], r.model ≠ .instance_ := by
    intro r hr
    rcases collect_role hr with rfl | hr
    · simp
    · simp [hr]
  rw [delete_role_eq]
  refine ⟨?_, fun pk => ?_⟩
  · show Table.update (db.scopes.keep _) _ = db.scopes
    rw [keep_eq_self fun pk _ => keeps_eq_true ?_ pk,
      update_eq_self fun _ _ _ => by rw [keepList_eq_self hinstances]]
    intro r hr
    rcases collect_role hr with rfl | hr
    · simp
    · simp [hr]
  · show (Table.update (db.roles.keep _) _).row pk = _
    rw [update_eq_self fun _ _ _ => by rw [keepList_eq_self hinstances]]
    by_cases hpk : pk = role
    · subst hpk
      have hgone : keeps (db.collect [⟨.role, pk⟩]) .role pk = false := by
        simpa [keeps] using db.mem_collect_root (List.mem_singleton_self (⟨.role, pk⟩ : Ref))
      cases hrow : db.roles.row pk <;> simp [keep, hrow, hgone]
    · have hkeeps : keeps (db.collect [⟨.role, role⟩]) .role pk = true := by
        have : (⟨.role, pk⟩ : Ref) ∉ db.collect [⟨.role, role⟩] := by
          intro hmem
          rcases collect_role hmem with h | h
          · cases h
            exact hpk rfl
          · cases h
        simpa [keeps] using this
      rw [if_neg hpk]
      cases hrow : db.roles.row pk <;> simp [keep, hrow, hkeeps]

theorem delete_scope_tables {scope : Pk} (hheld : ∀ pk c, db.clients.row pk = some c → scope ∉ c.scopes) :
    Besides db (db.delete .scope [⟨.scope, scope⟩] none)
      ∧ (db.delete .scope [⟨.scope, scope⟩] none).roles = db.roles
      ∧ (db.delete .scope [⟨.scope, scope⟩] none).memberships = db.memberships
      ∧ ∀ pk, (db.delete .scope [⟨.scope, scope⟩] none).scopes.row pk = if pk = scope then none else db.scopes.row
      pk := by
  have hmodel : ∀ r ∈ db.collect [⟨.scope, scope⟩], r.model = .scope := fun r hr => by rw [collect_scope hr]
  have hne : ∀ model, model ≠ .scope → ∀ r ∈ db.collect [⟨.scope, scope⟩], r.model ≠ model :=
    fun model h r hr heq => h (heq ▸ hmodel r hr)
  have hlost : db.losesAdmin [⟨.scope, scope⟩] = [] :=
    losesAdmin_eq_nil fun _ _ _ hgone => absurd rfl (hne .role (by decide) _ hgone)
  rw [delete_scope_eq, hlost, syncAdmin_nil]
  refine ⟨?_, ?_, ?_, fun pk => ?_⟩
  · have hremove : Besides db (db.removeCascade [⟨.scope, scope⟩]) := by
      refine remove_besides (fun r hr => .inr (.inr (hmodel r hr))) fun pk c hc s hs hgone => ?_
      cases collect_scope hgone
      exact hheld pk c hc hs
    exact hremove
  · show Table.update (db.roles.keep _) _ = db.roles
    rw [keep_eq_self fun pk _ => keeps_eq_true (hne _ (by decide)) pk,
      update_eq_self fun _ _ _ => by rw [keepList_eq_self (hne _ (by decide))]]
  · show Table.update (db.memberships.keep _) _ = db.memberships
    rw [keep_eq_self fun pk _ => keeps_eq_true (hne _ (by decide)) pk]
    refine update_eq_self fun _ _ _ => ?_
    rw [keepList_eq_self (hne _ (by decide)), keepList_eq_self (hne _ (by decide)),
      keepList_eq_self (hne _ (by decide)), keepOpt_eq_self (hne _ (by decide))]
  · show (Table.update (db.scopes.keep _) _).row pk = _
    rw [update_eq_self fun _ _ _ => by rw [keepList_eq_self (hne _ (by decide))]]
    by_cases hpk : pk = scope
    · subst hpk
      have hgone : keeps (db.collect [⟨.scope, pk⟩]) .scope pk = false := by
        simpa [keeps] using db.mem_collect_root (List.mem_singleton_self (⟨.scope, pk⟩ : Ref))
      cases hrow : db.scopes.row pk <;> simp [keep, hrow, hgone]
    · have hkeeps : keeps (db.collect [⟨.scope, scope⟩]) .scope pk = true := by
        have : (⟨.scope, pk⟩ : Ref) ∉ db.collect [⟨.scope, scope⟩] := by
          intro hmem
          cases collect_scope hmem
          exact hpk rfl
        simpa [keeps] using this
      rw [if_neg hpk]
      cases hrow : db.scopes.row pk <;> simp [keep, hrow, hkeeps]

end DB

/-! ## Roles and scopes as registries -/

def Role.view : View Role := ⟨(·.organization), (·.identifier), (·.creatingInstance), (·.usedBy)⟩

def Role.setUsers (r : Role) (l : List Pk) : Role := { r with usedBy := l }

theorem Role.lawful : Role.view.Lawful Role.setUsers := fun _ _ => ⟨⟨rfl, rfl, rfl⟩, rfl, rfl⟩

def Scope.view : View Scope := ⟨(·.organization), (·.identifier), (·.creatingInstance), (·.usedBy)⟩

def Scope.setUsers (s : Scope) (l : List Pk) : Scope := { s with usedBy := l }

theorem Scope.lawful : Scope.view.Lawful Scope.setUsers := fun _ _ => ⟨⟨rfl, rfl, rfl⟩, rfl, rfl⟩

/-- How a declaration is written to its role. -/
def Role.writer (instance_ : Pk) : Writer Role.view RoleDeclaration (Option String × Bool × Bool) where
  key := (·.key)
  word s := (some (s.description.getD ""), s.isAdminRole, s.isDefaultRole)
  reads x := (x.description, x.isAdminRole, x.isDefaultRole)
  tell s x := { x with description := some (s.description.getD ""), isAdminRole := s.isAdminRole,
                       isDefaultRole := s.isDefaultRole, usedBy := addPks x.usedBy [instance_] }
  make home s := ⟨s.key, some (s.description.getD ""), home, some instance_, false, s.isAdminRole,
    s.isDefaultRole, [instance_]⟩
  same _ _ := ⟨rfl, rfl, rfl⟩
  home _ _ := rfl
  name _ _ := rfl
  tell_reads _ _ := rfl
  make_reads _ _ := rfl

def Scope.writer (instance_ : Pk) : Writer Scope.view ScopeDeclaration (Option String × Bool) where
  key := (·.key)
  word s := (some (s.description.getD ""), s.isAllScope)
  reads x := (x.description, x.isAllScope)
  tell s x := { x with description := some (s.description.getD ""), isAllScope := s.isAllScope,
                       usedBy := addPks x.usedBy [instance_] }
  make home s := ⟨s.key, some (s.description.getD ""), home, some instance_, false, s.isAllScope, [instance_]⟩
  same _ _ := ⟨rfl, rfl, rfl⟩
  home _ _ := rfl
  name _ _ := rfl
  tell_reads _ _ := rfl
  make_reads _ _ := rfl

namespace DB

variable {db d : DB} (instance_ organization : Pk)

theorem declareRole_eq (d : DB) (r : RoleDeclaration) :
    declareRole instance_ organization d
    r = { d with roles := (Role.writer instance_).upsert organization d.roles r } := by
  unfold declareRole
  split
  · rename_i pk x hfirst
    have hfind : Role.view.find organization ((Role.writer instance_).key r) d.roles = some (pk, x) := hfirst
    rw [Writer.upsert, hfind]
    rfl
  · rename_i hnone
    have hfind : Role.view.find organization ((Role.writer instance_).key r) d.roles = none := hnone
    rw [Writer.upsert, hfind]
    rfl

theorem declareScope_eq (d : DB) (s : ScopeDeclaration) :
    declareScope instance_ organization d
    s = { d with scopes := (Scope.writer instance_).upsert organization d.scopes s } := by
  unfold declareScope
  split
  · rename_i pk x hfirst
    have hfind : Scope.view.find organization ((Scope.writer instance_).key s) d.scopes = some (pk, x) := hfirst
    rw [Writer.upsert, hfind]
    rfl
  · rename_i hnone
    have hfind : Scope.view.find organization ((Scope.writer instance_).key s) d.scopes = none := hnone
    rw [Writer.upsert, hfind]
    rfl

theorem declareRole_declared (db : DB) (r : RoleDeclaration) :
    ∃ t, declareRole instance_ organization db r = { db with roles := t }
    ∧ Declared Role.view instance_ organization [r.key] db.roles t := by
  unfold declareRole
  split
  · rename_i pk x hfirst
    obtain ⟨hx, hp⟩ := first_eq_some hfirst
    simp only [Bool.and_eq_true, beq_iff_eq] at hp
    exact ⟨_, rfl, .modify hx hp.1 hp.2 ⟨rfl, rfl, rfl⟩ fun i => by simp [Role.view]⟩
  · rename_i hnone
    refine ⟨_, rfl, .insert rfl rfl rfl (fun i => by simp [Role.view]) fun pk x hx hhome hname => ?_⟩
    have := first_eq_none.mp hnone pk x hx
    simp only [Bool.and_eq_false_iff, beq_eq_false_iff_ne] at this
    exact this.elim (fun h => h hhome) fun h => h hname

theorem declareScope_declared (db : DB) (s : ScopeDeclaration) :
    ∃ t, declareScope instance_ organization db s = { db with scopes := t }
      ∧ Declared Scope.view instance_ organization [s.key] db.scopes t := by
  unfold declareScope
  split
  · rename_i pk x hfirst
    obtain ⟨hx, hp⟩ := first_eq_some hfirst
    simp only [Bool.and_eq_true, beq_iff_eq] at hp
    exact ⟨_, rfl, .modify hx hp.1 hp.2 ⟨rfl, rfl, rfl⟩ fun i => by simp [Scope.view]⟩
  · rename_i hnone
    refine ⟨_, rfl, .insert rfl rfl rfl (fun i => by simp [Scope.view]) fun pk x hx hhome hname => ?_⟩
    have := first_eq_none.mp hnone pk x hx
    simp only [Bool.and_eq_false_iff, beq_eq_false_iff_ne] at this
    exact this.elim (fun h => h hhome) fun h => h hname

theorem declareRoles_declared : ∀ (rs : List RoleDeclaration) (db : DB),
    ∃ t, rs.foldl (declareRole instance_ organization) db = { db with roles := t }
      ∧ Declared Role.view instance_ organization (rs.map (·.key)) db.roles t
  | [], db => ⟨db.roles, rfl, .nil _⟩
  | r :: rs, db => by
    obtain ⟨t, ht, hdeclared⟩ := declareRole_declared instance_ organization db r
    obtain ⟨u, hu, hrest⟩ := declareRoles_declared rs { db with roles := t }
    refine ⟨u, ?_, hdeclared.trans hrest⟩
    rw [List.foldl_cons, ht, hu]

theorem declareScopes_declared : ∀ (ss : List ScopeDeclaration) (db : DB),
    ∃ t, ss.foldl (declareScope instance_ organization) db = { db with scopes := t }
      ∧ Declared Scope.view instance_ organization (ss.map (·.key)) db.scopes t
  | [], db => ⟨db.scopes, rfl, .nil _⟩
  | s :: ss, db => by
    obtain ⟨t, ht, hdeclared⟩ := declareScope_declared instance_ organization db s
    obtain ⟨u, hu, hrest⟩ := declareScopes_declared ss { db with scopes := t }
    refine ⟨u, ?_, hdeclared.trans hrest⟩
    rw [List.foldl_cons, ht, hu]

/-! ## Signing off -/

theorem mem_removePks_singleton {l : List Pk} {i j : Pk} : j ∈ removePks l [i] ↔ j ∈ l ∧ j ≠ i := by
  simp

theorem undeclareRole_undeclared (db : DB) (role : Pk) :
    Besides db (undeclareRole instance_ db role) ∧ (undeclareRole instance_ db role).scopes = db.scopes
      ∧ Undeclared Role.view Role.setUsers (fun _ r => r.isBuiltin = false) instance_ [role] db.roles
        (undeclareRole instance_ db role).roles := by
  unfold undeclareRole
  extract_lets d
  have hrow : d.roles.row role = (db.roles.row role).map
    fun x => { x with usedBy := removePks x.usedBy [instance_] } :=
    modify_row_self ..
  have hother : ∀ pk, pk ≠ role → d.roles.row pk = db.roles.row pk := fun pk hpk => modify_row_of_ne hpk
  split
  · rename_i hgoes
    obtain ⟨hscopes, hroles⟩ := d.delete_role_tables role
    refine ⟨(show Besides db d from ⟨rfl, rfl, rfl, rfl, rfl, rfl, rfl⟩).trans (delete_role_besides role),
      hscopes, ?_, ?_, ?_⟩
    · intro pk hpk
      have hpk : pk ≠ role := by simpa using hpk
      rw [hroles, if_neg hpk, hother pk hpk]
    · intro pk hpk a ha
      obtain rfl : pk = role := by simpa using hpk
      rw [hrow, ha] at hgoes
      simp only [Option.map_some, Option.any_some, Bool.and_eq_true, Bool.not_eq_true', List.isEmpty_iff] at hgoes
      refine .inr ⟨by rw [hroles, if_pos rfl], hgoes.1.1, fun i hi => ?_, hgoes.1.2⟩
      refine Classical.by_contradiction fun hne => ?_
      have : i ∈ removePks a.usedBy [instance_] := mem_removePks_singleton.mpr ⟨hi, hne⟩
      rw [hgoes.2] at this
      cases this
    · intro pk hpk
      rw [hroles]
      split
      · rfl
      · rename_i hne
        rw [hother pk hne, hpk]
  · rename_i hstays
    refine ⟨⟨rfl, rfl, rfl, rfl, rfl, rfl, rfl⟩, rfl, ?_, ?_, ?_⟩
    · exact fun pk hpk => hother pk (by simpa using hpk)
    · intro pk hpk a ha
      obtain rfl : pk = role := by simpa using hpk
      refine .inl ⟨_, by rw [hrow, ha]; rfl, ⟨_, rfl⟩, fun i => mem_removePks_singleton, fun hempty => ?_⟩
      rw [hrow, ha] at hstays
      cases hmaker : a.creatingInstance with
      | none => exact .inl hmaker
      | some c =>
        refine .inr fun hbuiltin => hstays ?_
        have hempty : removePks a.usedBy [instance_] = [] := hempty
        simp [hmaker, hbuiltin, hempty]
    · intro pk hpk
      show (db.roles.modify role _).row pk = none
      rw [modify_row, hpk]
      simp

theorem scopeIsHeld_congr (h : Besides db d) (pk : Pk) (s : Scope) : d.scopeIsHeld pk s = db.scopeIsHeld pk s := by
  unfold scopeIsHeld
  rw [h.clients, h.mandates]

theorem undeclareScope_undeclared (db : DB) (scope : Pk) :
    Besides db (undeclareScope instance_ db scope) ∧ (undeclareScope instance_ db scope).roles = db.roles
      ∧ (undeclareScope instance_ db scope).memberships = db.memberships
      ∧ Undeclared Scope.view Scope.setUsers
      (fun pk s => s.isBuiltin = false ∧ db.scopeIsHeld pk s = false) instance_
        [scope] db.scopes (undeclareScope instance_ db scope).scopes := by
  unfold undeclareScope
  extract_lets d
  have hrow : d.scopes.row scope = (db.scopes.row scope).map
    fun x => { x with usedBy := removePks x.usedBy [instance_] } :=
    modify_row_self ..
  have hother : ∀ pk, pk ≠ scope → d.scopes.row pk = db.scopes.row pk := fun pk hpk => modify_row_of_ne hpk
  split
  · rename_i hgoes
    cases ha : db.scopes.row scope with
    | none => simp [hrow, ha] at hgoes
    | some a =>
      rw [hrow, ha] at hgoes
      simp only [Option.map_some, Option.any_some, Bool.and_eq_true, Bool.not_eq_true', List.isEmpty_iff] at hgoes
      obtain ⟨⟨⟨hmaker, hbuiltin⟩, hempty⟩, hfree⟩ := hgoes
      have hheld : ∀ pk c, d.clients.row pk = some c → scope ∉ c.scopes := by
        intro pk c hc hs
        simp only [scopeIsHeld, Bool.or_eq_false_iff] at hfree
        simpa [hs] using exists?_eq_false.mp hfree.1 pk c hc
      obtain ⟨hbesides, hroles, hmemberships, hscopes⟩ := delete_scope_tables hheld
      refine ⟨(show Besides db d from ⟨rfl, rfl, rfl, rfl, rfl, rfl, rfl⟩).trans hbesides, hroles,
        hmemberships, ?_, ?_, ?_⟩
      · intro pk hpk
        have hpk : pk ≠ scope := by simpa using hpk
        rw [hscopes, if_neg hpk, hother pk hpk]
      · intro pk hpk b hb
        obtain rfl : pk = scope := by simpa using hpk
        rw [ha] at hb
        cases hb
        refine .inr ⟨by rw [hscopes, if_pos rfl], hmaker, fun i hi => ?_, hbuiltin, hfree⟩
        refine Classical.by_contradiction fun hne => ?_
        have : i ∈ removePks a.usedBy [instance_] := mem_removePks_singleton.mpr ⟨hi, hne⟩
        rw [hempty] at this
        cases this
      · intro pk hpk
        rw [hscopes]
        split
        · rfl
        · rename_i hne
          rw [hother pk hne, hpk]
  · rename_i hstays
    refine ⟨⟨rfl, rfl, rfl, rfl, rfl, rfl, rfl⟩, rfl, rfl, ?_, ?_, ?_⟩
    · exact fun pk hpk => hother pk (by simpa using hpk)
    · intro pk hpk a ha
      obtain rfl : pk = scope := by simpa using hpk
      refine .inl ⟨_, by rw [hrow, ha]; rfl, ⟨_, rfl⟩, fun i => mem_removePks_singleton, fun hempty => ?_⟩
      rw [hrow, ha] at hstays
      cases hmaker : a.creatingInstance with
      | none => exact .inl hmaker
      | some c =>
        refine .inr fun hfree => hstays ?_
        have hempty : removePks a.usedBy [instance_] = [] := hempty
        have hheld : d.scopeIsHeld pk { a with usedBy := removePks a.usedBy [instance_] } = false := hfree.2
        simp [hmaker, hfree.1, hempty] at hheld ⊢
        exact hheld
    · intro pk hpk
      show (db.scopes.modify scope _).row pk = none
      rw [modify_row, hpk]
      simp

theorem undeclareRoles_undeclared : ∀ (pks : List Pk) (db : DB), pks.Nodup →
    Besides db (pks.foldl (undeclareRole instance_) db)
    ∧ (pks.foldl (undeclareRole instance_) db).scopes = db.scopes
      ∧ Undeclared Role.view Role.setUsers (fun _ r => r.isBuiltin = false) instance_ pks db.roles
        (pks.foldl (undeclareRole instance_) db).roles
  | [], db, _ => ⟨.refl db, rfl, .nil _⟩
  | pk :: pks, db, hnodup => by
    obtain ⟨hpk, hnodup⟩ := List.nodup_cons.mp hnodup
    obtain ⟨hbesides, hscopes, hundeclared⟩ := undeclareRole_undeclared instance_ db pk
    obtain ⟨hbesides', hscopes', hundeclared'⟩ :=
      undeclareRoles_undeclared pks (undeclareRole instance_ db pk) hnodup
    exact ⟨hbesides.trans hbesides', hscopes'.trans hscopes, hundeclared.cons hundeclared' hpk⟩

theorem undeclareScopes_undeclared : ∀ (pks : List Pk) (db : DB), pks.Nodup →
    Besides db (pks.foldl (undeclareScope instance_) db)
    ∧ (pks.foldl (undeclareScope instance_) db).roles = db.roles
      ∧ (pks.foldl (undeclareScope instance_) db).memberships = db.memberships
      ∧ Undeclared Scope.view Scope.setUsers
      (fun pk s => s.isBuiltin = false ∧ db.scopeIsHeld pk s = false) instance_ pks
        db.scopes (pks.foldl (undeclareScope instance_) db).scopes
  | [], db, _ => ⟨.refl db, rfl, rfl, .nil _⟩
  | pk :: pks, db, hnodup => by
    obtain ⟨hpk, hnodup⟩ := List.nodup_cons.mp hnodup
    obtain ⟨hbesides, hroles, hmemberships, hundeclared⟩ := undeclareScope_undeclared instance_ db pk
    obtain ⟨hbesides', hroles', hmemberships', hundeclared'⟩ :=
      undeclareScopes_undeclared pks (undeclareScope instance_ db pk) hnodup
    simp only [scopeIsHeld_congr hbesides] at hundeclared'
    exact ⟨hbesides.trans hbesides', hroles'.trans hroles, hmemberships'.trans hmemberships,
      hundeclared.cons hundeclared' hpk⟩

/-! ## Registering -/

def declared (db : DB) (instance_ organization : Pk) (roles : List RoleDeclaration)
    (scopes : List ScopeDeclaration) : DB :=
  scopes.foldl (declareScope instance_ organization) (roles.foldl (declareRole instance_ organization) db)

def signOffRoles (d : DB) (instance_ organization : Pk) (roles : List RoleDeclaration) : DB :=
  (d.roles.pks fun _ r => r.organization == organization && r.usedBy.contains instance_
    && !roles.any fun x => x.key == r.identifier).foldl (undeclareRole instance_) d

def signOffScopes (d : DB) (instance_ organization : Pk) (scopes : List ScopeDeclaration) : DB :=
  (d.scopes.pks fun _ s => s.organization == organization && s.usedBy.contains instance_
    && !scopes.any fun x => x.key == s.identifier).foldl (undeclareScope instance_) d

/-- The state before the memberships are synced. -/
def registered (db : DB) (instance_ organization : Pk) (roles : List RoleDeclaration)
    (scopes : List ScopeDeclaration) : DB :=
  ((db.declared instance_ organization roles scopes).signOffRoles instance_ organization roles).signOffScopes
    instance_
    organization scopes

theorem registerPermissions_eq (db : DB) (roles : List RoleDeclaration) (scopes : List ScopeDeclaration) :
    db.registerPermissions instance_ organization roles scopes
      = (db.registered instance_ organization roles scopes).syncOrganization organization := rfl

theorem declared_eq (db : DB) (roles : List RoleDeclaration) (scopes : List ScopeDeclaration) :
    db.declared instance_ organization roles scopes =
      { db with roles := roles.foldl ((Role.writer instance_).upsert organization) db.roles,
                scopes := scopes.foldl ((Scope.writer instance_).upsert organization) db.scopes } := by
  have hroles : ∀ (l : List RoleDeclaration) (d : DB), l.foldl (declareRole instance_ organization) d =
      { d with roles := l.foldl ((Role.writer instance_).upsert organization) d.roles } := by
    intro l
    induction l with
    | nil => exact fun _ => rfl
    | cons r l ih => exact fun d => by rw [List.foldl_cons, declareRole_eq, ih]; rfl
  have hscopes : ∀ (l : List ScopeDeclaration) (d : DB), l.foldl (declareScope instance_ organization) d =
      { d with scopes := l.foldl ((Scope.writer instance_).upsert organization) d.scopes } := by
    intro l
    induction l with
    | nil => exact fun _ => rfl
    | cons s l ih => exact fun d => by rw [List.foldl_cons, declareScope_eq, ih]; rfl
  rw [declared, hroles, hscopes]

theorem not_any_key {α : Type} {l : List α} {f : α → String} {k : String} :
    (!l.any fun x => f x == k) = true ↔ k ∉ l.map f := by
  simp [List.any_eq_false]

theorem signOffRoles_spec (d : DB) (roles : List RoleDeclaration) : ∃ pks,
    (∀ pk, pk ∈ pks ↔ ∃ r, d.roles.row pk = some r ∧ Role.view.home r = organization
      ∧ instance_ ∈ Role.view.users r
      ∧ Role.view.name r ∉ roles.map (·.key))
    ∧ Besides d (d.signOffRoles instance_ organization roles)
    ∧ (d.signOffRoles instance_ organization roles).scopes = d.scopes
    ∧ Undeclared Role.view Role.setUsers (fun _ r => r.isBuiltin = false) instance_ pks d.roles
      (d.signOffRoles instance_ organization roles).roles := by
  refine ⟨_, fun pk => ?_, undeclareRoles_undeclared instance_ _ d (pks_nodup _ _)⟩
  simp only [mem_pks, Bool.and_eq_true, beq_iff_eq, List.contains_eq_mem, decide_eq_true_eq,
    not_any_key, and_assoc]
  rfl

theorem signOffScopes_spec (d : DB) (scopes : List ScopeDeclaration) : ∃ pks,
    (∀ pk, pk ∈ pks ↔ ∃ s, d.scopes.row pk = some s ∧ Scope.view.home s = organization
      ∧ instance_ ∈ Scope.view.users s
      ∧ Scope.view.name s ∉ scopes.map (·.key))
    ∧ Besides d (d.signOffScopes instance_ organization scopes)
    ∧ (d.signOffScopes instance_ organization scopes).roles = d.roles
    ∧ (d.signOffScopes instance_ organization scopes).memberships = d.memberships
    ∧ Undeclared Scope.view Scope.setUsers
    (fun pk s => s.isBuiltin = false ∧ d.scopeIsHeld pk s = false) instance_ pks
      d.scopes (d.signOffScopes instance_ organization scopes).scopes := by
  refine ⟨_, fun pk => ?_, undeclareScopes_undeclared instance_ _ d (pks_nodup _ _)⟩
  simp only [mem_pks, Bool.and_eq_true, beq_iff_eq, List.contains_eq_mem, decide_eq_true_eq,
    not_any_key, and_assoc]
  rfl

theorem declared_spec (db : DB) (roles : List RoleDeclaration) (scopes : List ScopeDeclaration) :
    ∃ t u, db.declared instance_ organization roles scopes = { db with roles := t, scopes := u }
      ∧ Declared Role.view instance_ organization (roles.map (·.key)) db.roles t
      ∧ Declared Scope.view instance_ organization (scopes.map (·.key)) db.scopes u := by
  obtain ⟨t, ht, hroles⟩ := declareRoles_declared instance_ organization roles db
  obtain ⟨u, hu, hscopes⟩ :=
    declareScopes_declared instance_ organization scopes { db with roles := t }
  exact ⟨t, u, by rw [declared, ht, hu], hroles, hscopes⟩

theorem registered_spec (db : DB) (roles : List RoleDeclaration) (scopes : List ScopeDeclaration) :
    Besides db (db.registered instance_ organization roles scopes)
      ∧ Registered Role.view Role.setUsers (fun _ r => r.isBuiltin = false) instance_ organization
      (roles.map (·.key))
        db.roles (db.registered instance_ organization roles scopes).roles
      ∧ Registered Scope.view Scope.setUsers
      (fun pk s => s.isBuiltin = false ∧ db.scopeIsHeld pk s = false) instance_
        organization (scopes.map (·.key)) db.scopes
        (db.registered instance_ organization roles scopes).scopes := by
  obtain ⟨t, u, hd, hroles, hscopes⟩ :=
    declared_spec instance_ organization db roles scopes
  generalize hdeclared : db.declared instance_ organization roles scopes = d at hd
  obtain ⟨pks, hpks, hbesides, hsame, hundeclared⟩ :=
    signOffRoles_spec instance_ organization d roles
  generalize he : d.signOffRoles instance_ organization roles = e at hbesides hsame hundeclared
  obtain ⟨pks', hpks', hbesides', hsame', -, hundeclared'⟩ :=
    signOffScopes_spec instance_ organization e scopes
  have hfrom : Besides db e := by
    subst hd
    exact (show Besides db { db with roles := t, scopes := u } from ⟨rfl, rfl, rfl, rfl, rfl, rfl, rfl⟩).trans
      hbesides
  rw [registered, hdeclared, he]
  refine ⟨hfrom.trans hbesides', ?_, ?_⟩
  · rw [hsame']
    have hrt : d.roles = t := by rw [hd]
    rw [hrt] at hundeclared hpks
    exact hroles.registered Role.lawful hundeclared hpks
  · have hut : e.scopes = u := by rw [hsame, hd]
    simp only [scopeIsHeld_congr hfrom] at hundeclared'
    rw [hut] at hundeclared' hpks'
    exact hscopes.registered Scope.lawful hundeclared' hpks'

theorem registered_leaves (db : DB) (roles : List RoleDeclaration) (scopes : List ScopeDeclaration)
    (hroles : Unique Role.view db.roles) (hscopes : Unique Scope.view db.scopes) :
    (Role.writer instance_).Leaves (fun _ r => r.isBuiltin = false) instance_ organization roles db.roles
        (db.registered instance_ organization roles scopes).roles
      ∧ (Scope.writer instance_).Leaves (fun pk s => s.isBuiltin = false ∧ db.scopeIsHeld pk s = false)
      instance_ organization
        scopes db.scopes (db.registered instance_ organization roles scopes).scopes
      ∧ (∀ pk x y, db.roles.row pk = some x →
        (db.registered instance_ organization roles scopes).roles.row pk = some y →
        y.isBuiltin = x.isBuiltin)
      ∧ ∀ pk x y, db.scopes.row pk = some x →
      (db.registered instance_ organization roles scopes).scopes.row pk = some y →
        y.isBuiltin = x.isBuiltin := by
  obtain ⟨-, hregistered, hregistered'⟩ := registered_spec instance_ organization db roles scopes
  have hdeclared := declared_eq instance_ organization db roles scopes
  unfold registered at hregistered hregistered' ⊢
  generalize db.declared instance_ organization roles scopes = d at hdeclared hregistered hregistered' ⊢
  obtain ⟨pks, -, -, hsame, hundeclared⟩ := signOffRoles_spec instance_ organization d roles
  obtain ⟨pks', -, -, hsame', -, hundeclared'⟩ :=
    signOffScopes_spec instance_ organization (d.signOffRoles instance_ organization roles) scopes
  rw [hsame'] at hregistered ⊢
  rw [hsame] at hundeclared'
  rw [show d.roles = roles.foldl ((Role.writer instance_).upsert organization)
    db.roles by rw [hdeclared]] at hundeclared
  rw [show d.scopes = scopes.foldl ((Scope.writer instance_).upsert organization)
    db.scopes by rw [hdeclared]] at hundeclared'
  refine ⟨?_, ?_, fun pk x y hx hy => ?_, fun pk x y hx hy => ?_⟩
  · exact (Role.writer instance_).leaves hroles hregistered hundeclared fun _ _ => rfl
  · exact (Scope.writer instance_).leaves hscopes hregistered' hundeclared' fun _ _ => rfl
  · obtain ⟨z, hz, hbuiltin⟩ :
      ∃ z, (roles.foldl ((Role.writer instance_).upsert organization) db.roles).row pk = some z
        ∧ z.isBuiltin = x.isBuiltin := (Role.writer instance_).upserts_row (f := (·.isBuiltin)) (fun _ _ => rfl) hx
    rw [← hbuiltin]
    exact Writer.undeclared_row (f := fun r : Role => r.isBuiltin) hundeclared (fun _ _ => rfl) hz hy
  · obtain ⟨z, hz, hbuiltin⟩ :
      ∃ z, (scopes.foldl ((Scope.writer instance_).upsert organization) db.scopes).row pk = some z
        ∧ z.isBuiltin = x.isBuiltin := (Scope.writer instance_).upserts_row (f := (·.isBuiltin))
          (fun _ _ => rfl) hx
    rw [← hbuiltin]
    exact Writer.undeclared_row (f := fun s : Scope => s.isBuiltin) hundeclared' (fun _ _ => rfl) hz hy

theorem registerPermissions_spec (db : DB) (roles : List RoleDeclaration) (scopes : List ScopeDeclaration) :
    Besides db (db.registerPermissions instance_ organization roles scopes)
      ∧ (db.registerPermissions instance_ organization roles scopes).roles
        = (db.registered instance_ organization roles scopes).roles
      ∧ (db.registerPermissions instance_ organization roles scopes).scopes
        = (db.registered instance_ organization roles scopes).scopes := by
  obtain ⟨h, -, -⟩ := registered_spec instance_ organization db roles scopes
  obtain ⟨t, ht⟩ := syncServiceRoles_eq (db.registered instance_ organization roles scopes)
    ((db.registered instance_ organization roles scopes).memberships.pks fun _ m => m.organization == organization)
  rw [registerPermissions_eq, syncOrganization, ht]
  exact ⟨h.trans ⟨rfl, rfl, rfl, rfl, rfl, rfl, rfl⟩, rfl, rfl⟩

theorem registered_builtin (db : DB) (roles : List RoleDeclaration) (scopes : List ScopeDeclaration)
    (h : ∀ pk r, db.roles.row pk = some r → r.organization = organization → r.isBuiltin = false) :
    ∀ pk r, (db.registered instance_ organization roles scopes).roles.row pk = some r →
    r.organization = organization →
      r.isBuiltin = false := by
  have hrole : ∀ (d : DB) (x : RoleDeclaration),
      (∀ pk r, d.roles.row pk = some r → r.organization = organization → r.isBuiltin = false) →
      ∀ pk r, (declareRole instance_ organization d x).roles.row pk = some r → r.organization = organization →
        r.isBuiltin = false := by
    intro d x hd pk r hr ho
    unfold declareRole at hr
    split at hr
    · rcases modify_row_eq_some.mp hr with ⟨-, hr⟩ | ⟨-, r₀, hr₀, rfl⟩
      · exact hd pk r hr ho
      · exact hd pk r₀ hr₀ ho
    · rcases insert_row_eq_some.mp hr with ⟨-, rfl⟩ | hr
      · rfl
      · exact hd pk r hr ho
  have hscope : ∀ (d : DB) (x : ScopeDeclaration), (declareScope instance_ organization d x).roles = d.roles := by
    intro d x
    obtain ⟨t, ht, -⟩ := declareScope_declared instance_ organization d x
    rw [ht]
  have hdeclared : ∀ pk r, (db.declared instance_ organization roles scopes).roles.row pk = some r →
      r.organization = organization → r.isBuiltin = false :=
    foldl_invariant (P := fun d : DB => ∀ pk r, d.roles.row pk = some r → r.organization = organization →
      r.isBuiltin = false)
      (fun x _ d hd => by rw [hscope]; exact hd) (foldl_invariant (fun x _ d hd => hrole d x hd) h)
  generalize hd : db.declared instance_ organization roles scopes = d at hdeclared
  obtain ⟨pks, -, -, -, hundeclared⟩ :=
    signOffRoles_spec instance_ organization d roles
  obtain ⟨-, -, -, hsame, -⟩ :=
    signOffScopes_spec instance_ organization (d.signOffRoles instance_ organization roles)
      scopes
  intro pk r hr ho
  rw [registered, hd, hsame] at hr
  cases hpk : d.roles.row pk with
  | none =>
    rw [hundeclared.old pk hpk] at hr
    cases hr
  | some r₀ =>
    by_cases hmem : pk ∈ pks
    · rcases hundeclared.listed pk hmem r₀ hpk with ⟨r', hr', ⟨l, rfl⟩, -⟩ | ⟨hnone, -⟩
      · rw [hr] at hr'
        cases hr'
        exact hdeclared pk r₀ hpk ho
      · rw [hr] at hnone
        cases hnone
    · rw [hundeclared.others pk hmem] at hr
      exact hdeclared pk r hr ho

end DB

end Lok
