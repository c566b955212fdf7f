import Lok.AdminCache

/-!
# What lok owns

A service's manifest is free to name any key, and a registration writes the row of that name
whoever made it. What it says last of a name is what the row says then, roles are handed out
by it, and a catch-all covers what has a declarer in common with it: lok's own stays as it is
exactly where that comes to what was there before.
-/

namespace Lok

open Table Registry Checks

def lokKeys : List String := lokScopes.map (·.key)

namespace DB

variable {db d : DB} {instance_ organization : Pk} {roles : List RoleDeclaration} {scopes : List ScopeDeclaration}

def scopeRows (db : DB) (c : Client) : List Scope := c.scopes.filterMap db.scopes.row

/-- What lok owns is the same in both states. -/
structure LeavesLok (db d : DB) : Prop where
  admins : ∀ pk m, db.memberships.row pk = some m → ∃ m', d.memberships.row pk = some m' ∧ m'.isAdmin = m.isAdmin
  roles : ∀ pk x, db.roles.row pk = some x → x.creatingInstance = none → ∃ y, d.roles.row pk = some y
    ∧ y.description = x.description ∧ y.isAdminRole = x.isAdminRole ∧ y.isDefaultRole = x.isDefaultRole
    ∧ y.isBuiltin = x.isBuiltin
  scopes : ∀ pk x, db.scopes.row pk = some x → x.creatingInstance = none → ∃ y, d.scopes.row pk = some y
    ∧ y.description = x.description ∧ y.isAllScope = x.isAllScope ∧ y.isBuiltin = x.isBuiltin
  covered : ∀ pk c, db.clients.row pk = some c → ∃ c', d.clients.row pk = some c' ∧ ∀ k ∈ lokKeys,
    (k ∈ d.coveredScopes (d.scopeRows c') ↔ k ∈ db.coveredScopes (db.scopeRows c))

/-- What the database holds to: a name is used once in an organization, what is held is there, and the
cached flags say who holds `admin`. -/
structure Consistent (db : DB) : Prop where
  roles : Unique Role.view db.roles
  scopes : Unique Scope.view db.scopes
  held : ∀ k m, db.memberships.row k = some m → ∀ r, r ∈ m.roles ∨ r ∈ m.automaticRoles ∨ r ∈ m.withheldRoles →
    ∃ x, db.roles.row r = some x
  clients : ∀ k c, db.clients.row k = some c → ∀ s ∈ c.scopes, ∃ x, db.scopes.row s = some x
  cached : db.Cached

/-! ## What a manifest says -/

/-- The role goes: a service made it, and the one that declares it no more was the last to. -/
abbrev RoleGoes (instance_ organization : Pk) (roles : List RoleDeclaration) (r : Pk) (x : Role) : Prop :=
  Writer.Goes Role.view (fun _ x => x.isBuiltin = false) instance_ organization (roles.map (·.key)) r x

section

variable (db : DB) (instance_ organization : Pk) (roles : List RoleDeclaration) (scopes : List ScopeDeclaration)

def StaysAdmin (r : Pk) : Prop :=
  ∃ x, db.roles.row r = some x ∧ x.identifier = adminRole ∧ ¬ RoleGoes instance_ organization roles r x

/-- They own the organization, or hold an admin role that does not go. -/
def AdministersStill (m : Membership) : Prop :=
  (db.organizations.row m.organization).any (·.owner == m.user) = true
    ∨ ∃ r ∈ m.roles, db.StaysAdmin instance_ organization roles r

/-- A role of which this is said is handed to the member. -/
def Hands (m : Membership) (withheld : Prop) (word : Option String × Bool × Bool) : Prop :=
  word.2.1 = true ∧ db.AdministersStill instance_ organization roles m ∨ word.2.2 = true ∧ ¬ withheld

/-- The role, as the manifest says it or else as it was said, is handed to the member. -/
def RoleDue (m : Membership) (r : Pk) (x : Role) : Prop :=
  x.organization = m.organization
    ∧ db.Hands instance_ organization roles m (r ∈ m.withheldRoles)
      ((Role.writer instance_).said organization roles x)

/-- Some `admin` is handed to the member, one that is there or one the manifest makes. -/
def AdminDue (m : Membership) : Prop :=
  (∃ r x, db.roles.row r = some x ∧ x.identifier = adminRole ∧ ¬ RoleGoes instance_ organization roles r x
    ∧ db.RoleDue instance_ organization roles m r x)
  ∨ (∀ r x, db.roles.row r = some x → x.organization = organization → x.identifier ≠ adminRole)
    ∧ ∃ s, (Role.writer instance_).last adminRole roles = some s
      ∧ db.Hands instance_ organization roles m False ((Role.writer instance_).word s)

/-- They hold an admin role that does not go, and it is not lok's to take back. -/
def AdminKept (k : Pk) (m : Membership) : Prop :=
  ∃ r ∈ m.roles, db.StaysAdmin instance_ organization roles r
    ∧ (db.isScoped k = false → m.organization = organization → r ∈ m.automaticRoles →
      ∃ x, db.roles.row r = some x ∧ db.RoleDue instance_ organization roles m r x)

def covers (s : Scope) (k : String) : Prop := s.identifier = k ∨ s.isAllScope = true ∧ k ∈ db.coveredBy s

/-- The catch-all has a declarer in common with a scope of this key, by what the manifest names for its service. -/
def DeclaredTogether (s : Scope) (k : String) : Prop :=
  s.organization = organization ∧ s.identifier ∈ scopes.map (·.key) ∧ k ∈ scopes.map (·.key)
  ∨ ∃ j t, db.scopes.row j = some t ∧ t.organization = s.organization ∧ t.identifier = k
    ∧ ∃ i ∈ t.usedBy, i ∈ s.usedBy ∧ (i ≠ instance_ ∨ s.organization ≠ organization)

/-- The scope covers the key by what the manifest says, or else by what was said. -/
def CoversAfter (s : Scope) (k : String) : Prop :=
  s.identifier = k ∨ ((Scope.writer instance_).said organization scopes s).2 = true
    ∧ (s.creatingInstance = none ∨ db.DeclaredTogether instance_ organization scopes s k)

/-- What a manifest says comes to what is there already, as far as it is lok's own. -/
structure SparesLok : Prop where
  role : ∀ r x, db.roles.row r = some x → x.creatingInstance = none →
    (Role.writer instance_).said organization roles x = (x.description, x.isAdminRole, x.isDefaultRole)
  scope : ∀ j s, db.scopes.row j = some s → s.creatingInstance = none →
    (Scope.writer instance_).said organization scopes s = (s.description, s.isAllScope)
  covered : ∀ k c, db.clients.row k = some c → ∀ n ∈ lokKeys,
    ((∃ j ∈ c.scopes, ∃ s, db.scopes.row j = some s ∧ db.CoversAfter instance_ organization scopes s n)
      ↔ ∃ j ∈ c.scopes, ∃ s, db.scopes.row j = some s ∧ db.covers s n)
  raised : ∀ k m, db.memberships.row k = some m → db.isScoped k = false → m.organization = organization →
    m.isAdmin = false → ¬ db.AdminDue instance_ organization roles m
  lowered : ∀ k m, db.memberships.row k = some m → m.isAdmin = true → db.AdminKept instance_ organization roles k m
    ∨ db.isScoped k = false ∧ m.organization = organization ∧ db.AdminDue instance_ organization roles m

end

/-! ## Memberships, while roles go -/

theorem undeclareRole_dropped (db : DB) (instance_ role : Pk) :
    Rewrites (fun _ m m' => ∃ gone, LostRoles gone m m' ∧ ∀ r x, db.roles.row r = some x →
      (r ∈ gone ↔ (DB.undeclareRole instance_ db role).roles.row r = none)) db.memberships
      (DB.undeclareRole instance_ db role).memberships := by
  have hrow : ∀ r x, db.roles.row r = some x →
      ∃ y, (db.roles.modify role fun x => { x with usedBy := removePks x.usedBy [instance_] }).row r = some y := by
    intro r x hx
    by_cases hr : r = role
    · subst hr
      exact ⟨_, by rw [modify_row_self, hx, Option.map_some]⟩
    · exact ⟨x, by rw [modify_row_of_ne hr, hx]⟩
  unfold DB.undeclareRole
  extract_lets d
  split
  · refine (delete_role_rows d role).mono fun k m m' hdropped => ⟨[role], hdropped, fun r x hx => ?_⟩
    obtain ⟨y, hy⟩ := hrow r x hx
    rw [(d.delete_role_tables role).2, show d.roles.row r = some y from hy]
    simp
  · refine .refl (fun _ m => ⟨[], .refl m, fun r x hx => ?_⟩) _
    obtain ⟨y, hy⟩ := hrow r x hx
    rw [show d.roles.row r = some y from hy]
    simp

theorem undeclareRoles_dropped (instance_ : Pk) : ∀ (pks : List Pk) (db : DB),
    Rewrites (fun _ m m' => ∃ gone, LostRoles gone m m' ∧ ∀ r x, db.roles.row r = some x →
      (r ∈ gone ↔ (pks.foldl (DB.undeclareRole instance_) db).roles.row r = none)) db.memberships
      (pks.foldl (DB.undeclareRole instance_) db).memberships
  | [], db => .refl (fun _ m => ⟨[], .refl m, fun r x hx => by simp [hx]⟩) _
  | pk :: pks, db => by
    refine ((undeclareRole_dropped db instance_ pk).comp (undeclareRoles_dropped instance_ pks _)).mono ?_
    rintro k m m' ⟨m₁, ⟨gone, hdropped, hgone⟩, more, hdropped', hmore⟩
    refine ⟨gone ++ more, hdropped.trans hdropped', fun r x hx => ?_⟩
    rw [List.mem_append, hgone r x hx, List.foldl_cons]
    cases hy : (DB.undeclareRole instance_ db pk).roles.row r with
    | none => exact iff_of_true (.inl rfl) (undeclareRoles_none pks hy)
    | some y => simp [hmore r y hy]

/-- The memberships before they are synced: the roles that went are no longer among theirs. -/
theorem registered_dropped (db : DB) (instance_ organization : Pk) (roles : List RoleDeclaration)
    (scopes : List ScopeDeclaration) :
    Rewrites (fun _ m m' => ∃ gone, LostRoles gone m m' ∧ ∀ r x, db.roles.row r = some x →
      (r ∈ gone ↔ (db.registered instance_ organization roles scopes).roles.row r = none)) db.memberships
      (db.registered instance_ organization roles scopes).memberships := by
  obtain ⟨t, u, hd, hdeclared, -⟩ := declared_spec instance_ organization db roles scopes
  unfold registered
  generalize db.declared instance_ organization roles scopes = d at hd ⊢
  obtain ⟨-, -, -, hroles, hmemberships, -⟩ :=
    signOffScopes_spec instance_ organization (d.signOffRoles instance_ organization roles) scopes
  rw [hroles, hmemberships, show db.memberships = d.memberships by rw [hd]]
  refine (undeclareRoles_dropped instance_ _ d).mono ?_
  rintro k m m' ⟨gone, hdropped, hgone⟩
  refine ⟨gone, hdropped, fun r x hx => ?_⟩
  obtain ⟨y, hy, -⟩ := hdeclared.kept r x hx
  exact hgone r y (by rw [hd]; exact hy)

/-! ## Who holds `admin` afterwards -/

section

variable (h : db.Consistent)
include h

theorem Consistent.roles_leave (instance_ organization : Pk) (roles : List RoleDeclaration)
    (scopes : List ScopeDeclaration) :
    (Role.writer instance_).Leaves (fun _ r => r.isBuiltin = false) instance_ organization roles db.roles
      (db.registered instance_ organization roles scopes).roles :=
  (registered_leaves instance_ organization db roles scopes h.roles h.scopes).1

theorem Consistent.isAdmin_after {r : Pk} {x : Role} (hx : db.roles.row r = some x) :
    (db.registered instance_ organization roles scopes).IsAdmin r
      ↔ x.identifier = adminRole ∧ ¬ RoleGoes instance_ organization roles r x := by
  have hleaves := h.roles_leave instance_ organization roles scopes
  generalize db.registered instance_ organization roles scopes = d at hleaves ⊢
  have hgone : d.roles.row r = none ↔ RoleGoes instance_ organization roles r x := hleaves.gone r x hx
  unfold IsAdmin
  constructor
  · rintro ⟨y, hy, hname⟩
    obtain ⟨hsame, -⟩ := hleaves.kept r x y hx hy
    refine ⟨hsame.2.1.symm.trans hname, fun hgoes => ?_⟩
    rw [hgone.mpr hgoes] at hy
    cases hy
  · rintro ⟨hname, hstays⟩
    obtain ⟨y, hy⟩ := Option.ne_none_iff_exists'.mp fun hnone => hstays (hgone.mp hnone)
    obtain ⟨hsame, -⟩ := hleaves.kept r x y hx hy
    exact ⟨y, hy, hsame.2.1.trans hname⟩

theorem Consistent.staysAdmin_iff {r : Pk} {x : Role} (hx : db.roles.row r = some x) :
    db.StaysAdmin instance_ organization roles r
    ↔ (db.registered instance_ organization roles scopes).IsAdmin r := by
  rw [h.isAdmin_after hx]
  constructor
  · rintro ⟨x', hx', hname, hstays⟩
    rw [hx] at hx'
    cases hx'
    exact ⟨hname, hstays⟩
  · rintro ⟨hname, hstays⟩
    exact ⟨x, hx, hname, hstays⟩

/-! ### What is due to a member -/

section

variable {k : Pk} {m m₁ : Membership} {gone : List Pk} (hm : db.memberships.row k = some m)
  (hdropped : LostRoles gone m m₁)
  (hgone : ∀ r x, db.roles.row r = some x →
    (r ∈ gone ↔ (db.registered instance_ organization roles scopes).roles.row r = none))
include hm hdropped hgone

theorem Consistent.mem_roles_after {r : Pk} :
    (db.registered instance_ organization roles scopes).IsAdmin r ∧ r ∈ m₁.roles
      ↔ db.StaysAdmin instance_ organization roles r ∧ r ∈ m.roles := by
  constructor
  · rintro ⟨hadmin, hr⟩
    have hr := ((hdropped.roles r).mp hr).1
    obtain ⟨x, hx⟩ := h.held k m hm r (.inl hr)
    exact ⟨(h.staysAdmin_iff hx).mpr hadmin, hr⟩
  · rintro ⟨hstays, hr⟩
    obtain ⟨x, hx, -⟩ := id hstays
    have hadmin : (db.registered instance_ organization roles scopes).IsAdmin r := (h.staysAdmin_iff hx).mp hstays
    refine ⟨hadmin, (hdropped.roles r).mpr ⟨hr, fun hmem => ?_⟩⟩
    obtain ⟨y, hy, -⟩ := hadmin
    rw [(hgone r x hx).mp hmem] at hy
    cases hy

theorem Consistent.administers_after :
    (db.registered instance_ organization roles scopes).administers m₁ = true
      ↔ db.AdministersStill instance_ organization roles m := by
  obtain ⟨hbesides, -⟩ := registered_spec instance_ organization db roles scopes
  unfold administers AdministersStill
  rw [Bool.or_eq_true, hbesides.organizations, hdropped.user, hdropped.organization, holdsAdmin_iff_isAdmin]
  refine or_congr_right (exists_congr fun r => ?_)
  rw [and_comm, h.mem_roles_after hm hdropped hgone, and_comm]

theorem Consistent.entitled_after {r : Pk} {x : Role} (hx : db.roles.row r = some x) :
    (db.registered instance_ organization roles scopes).Entitled m₁ r
      ↔ ¬ RoleGoes instance_ organization roles r x ∧ db.RoleDue instance_ organization roles m r x := by
  have hadministers := h.administers_after hm hdropped hgone
  have hleaves := h.roles_leave instance_ organization roles scopes
  have hgone' := hleaves.gone r x hx
  unfold Entitled RoleDue Hands
  generalize db.registered instance_ organization roles scopes = d at hgone hadministers hleaves hgone' ⊢
  constructor
  · rintro ⟨y, hy, ho, hflag⟩
    obtain ⟨hsame, hreads, -⟩ := hleaves.kept r x y hx hy
    have hstays : ¬ RoleGoes instance_ organization roles r x := fun hgoes => by
      rw [hgone'.mpr hgoes] at hy
      cases hy
    have hnot : r ∉ gone := fun hmem => by
      rw [(hgone r x hx).mp hmem] at hy
      cases hy
    refine ⟨hstays, hsame.1.symm.trans (ho.trans hdropped.organization), ?_⟩
    rw [← hreads, ← hadministers]
    exact hflag.imp_right (And.imp_right fun hno hr => hno ((hdropped.withheld r).mpr ⟨hr, hnot⟩))
  · rintro ⟨hstays, ho, hflag⟩
    obtain ⟨y, hy⟩ := Option.ne_none_iff_exists'.mp fun hnone => hstays (hgone'.mp hnone)
    obtain ⟨hsame, hreads, -⟩ := hleaves.kept r x y hx hy
    refine ⟨y, hy, hsame.1.trans (ho.trans hdropped.organization.symm), ?_⟩
    rw [← hreads, ← hadministers] at hflag
    exact hflag.imp_right (And.imp_right fun hno hr => hno ((hdropped.withheld r).mp hr).1)

theorem Consistent.admin_due_iff (ho : m.organization = organization) :
    (∃ r, (db.registered instance_ organization roles scopes).IsAdmin r
      ∧ (db.registered instance_ organization roles scopes).Entitled m₁ r)
        ↔ db.AdminDue instance_ organization roles m := by
  have hadministers := h.administers_after hm hdropped hgone
  have hentitled := fun r x (hx : db.roles.row r = some x) => h.entitled_after hm hdropped hgone hx
  have hisAdmin : ∀ r x, db.roles.row r = some x → ((db.registered instance_ organization roles scopes).IsAdmin r
      ↔ x.identifier = adminRole ∧ ¬ RoleGoes instance_ organization roles r x) := fun r x hx => h.isAdmin_after hx
  have hleaves := h.roles_leave instance_ organization roles scopes
  generalize db.registered instance_ organization roles scopes = d at hadministers hentitled hisAdmin hleaves ⊢
  constructor
  · rintro ⟨r, hadmin, hdue⟩
    cases hx : db.roles.row r with
    | some x =>
      obtain ⟨hname, hstays⟩ := (hisAdmin r x hx).mp hadmin
      exact .inl ⟨r, x, hx, hname, hstays, ((hentitled r x hx).mp hdue).2⟩
    | none =>
      -- the manifest made it
      obtain ⟨y, hy, hname⟩ := hadmin
      obtain ⟨hhome, -, hfresh, ⟨s, hs, hreads⟩, -⟩ := hleaves.new r y hx hy
      obtain ⟨y', hy', -, hflag⟩ := hdue
      rw [hy] at hy'
      cases hy'
      have hname : Role.view.name y = adminRole := hname
      rw [hname] at hs hfresh
      refine .inr ⟨fun k x hx ho => hfresh k x hx ho, s, hs, ?_⟩
      rw [Hands, ← hreads, ← hadministers]
      exact hflag.imp_right (And.imp_right fun _ => id)
  · rintro (⟨r, x, hx, hname, hstays, hdue⟩ | ⟨hfresh, s, hs, hhands⟩)
    · exact ⟨r, (hisAdmin r x hx).mpr ⟨hname, hstays⟩, (hentitled r x hx).mpr ⟨hstays, hdue⟩⟩
    · obtain ⟨hs', hkey⟩ := Writer.last_some _ hs
      obtain ⟨r, y, hy, hhome, hname, -⟩ := hleaves.there adminRole (List.mem_map.mpr ⟨s, hs', hkey⟩)
      have hx : db.roles.row r = none := by
        cases hx : db.roles.row r with
        | none => rfl
        | some x =>
          obtain ⟨hsame, -⟩ := hleaves.kept r x y hx hy
          exact absurd (hsame.2.1.symm.trans hname) (hfresh r x hx (hsame.1.symm.trans hhome))
      obtain ⟨-, -, -, ⟨s', hs', hreads⟩, -⟩ := hleaves.new r y hx hy
      rw [hname, hs] at hs'
      cases hs'
      have hhome : y.organization = m₁.organization :=
        (show y.organization = organization from hhome).trans (ho.symm.trans hdropped.organization.symm)
      refine ⟨r, ⟨y, hy, hname⟩, y, hy, hhome, ?_⟩
      rw [Hands, ← hreads, ← hadministers] at hhands
      refine hhands.imp_right (And.imp_right fun _ hr => ?_)
      obtain ⟨x, hx'⟩ := h.held k m hm r (.inr (.inr ((hdropped.withheld r).mp hr).1))
      rw [hx] at hx'
      cases hx'

end

theorem Consistent.cached_after (instance_ organization : Pk) (roles : List RoleDeclaration)
    (scopes : List ScopeDeclaration) :
    (db.registerPermissions instance_ organization roles scopes).Cached := by
  have hdeclared : (db.declared instance_ organization roles scopes).Cached := by
    obtain ⟨t, u, hd, hroles, -⟩ := declared_spec instance_ organization db roles scopes
    rw [hd]
    intro k m hm _
    refine (h.cached k m hm (by simp)).trans (holdsAdmin_same fun r => and_congr_left fun hr => ?_)
    obtain ⟨x, hx⟩ := h.held k m hm r (.inl hr)
    obtain ⟨y, hy, hsame, -⟩ := hroles.kept r x hx
    have hname : y.identifier = x.identifier := hsame.2.1
    simp [IsAdmin, hx, hy, hname]
  have hrole : ∀ role d, d.Cached → (DB.undeclareRole instance_ d role).Cached := by
    intro role d hd
    have hsigned : ({ d with roles := d.roles.modify role fun x =>
        { x with usedBy := removePks x.usedBy [instance_] } } : DB).Cached := by
      intro k m hm _
      refine (hd k m hm (by simp)).trans (holdsAdmin_same fun r => and_congr_left fun _ => ?_)
      unfold IsAdmin
      rw [show ({ d with
          roles := d.roles.modify role fun x => { x with usedBy := removePks x.usedBy [instance_] } } : DB).roles.row
        r = _ from modify_row ..]
      by_cases hr : r = role <;> cases d.roles.row r <;> simp [hr]
    unfold DB.undeclareRole
    extract_lets d₁
    split
    · exact Cached.delete hsigned
    · exact hsigned
  have hscope : ∀ scope d, d.Cached → (DB.undeclareScope instance_ d scope).Cached := by
    intro scope d hd
    unfold DB.undeclareScope
    extract_lets d₁
    have hd₁ : d₁.Cached := hd
    split
    · exact Cached.delete hd₁
    · exact hd₁
  have hregistered : (db.registered instance_ organization roles scopes).Cached :=
    foldl_invariant (P := Cached) (fun scope _ d hd => hscope scope d hd)
      (foldl_invariant (P := Cached) (fun role _ d hd => hrole role d hd) hdeclared)
  rw [registerPermissions_eq]
  exact hregistered.syncServiceRoles

theorem Consistent.admins_after (instance_ organization : Pk) (roles : List RoleDeclaration)
    (scopes : List ScopeDeclaration)
    {k : Pk} {m : Membership} (hm : db.memberships.row k = some m) :
    ∃ m', (db.registerPermissions instance_ organization roles scopes).memberships.row k = some m'
    ∧ (m'.isAdmin = true
      ↔ db.AdminKept instance_ organization roles k m
        ∨ db.isScoped k = false ∧ m.organization = organization ∧ db.AdminDue instance_ organization roles m) := by
  have hcached := h.cached_after instance_ organization roles scopes
  have hroles := (registerPermissions_spec instance_ organization db roles scopes).2.1
  obtain ⟨hbesides, -⟩ := registered_spec instance_ organization db roles scopes
  obtain ⟨m₁, hm₁, gone, hdropped, hgone⟩ := (registered_dropped db instance_ organization roles scopes).after hm
  have hadmin := fun r => h.mem_roles_after hm hdropped hgone (r := r)
  have hdue := h.admin_due_iff hm hdropped hgone
  have hentitled := fun r x (hx : db.roles.row r = some x) => h.entitled_after hm hdropped hgone hx
  have hsynced := syncServiceRoles_synced (db.registered instance_ organization roles scopes)
    (pks_nodup (db.registered instance_ organization roles scopes).memberships
      fun _ m => m.organization == organization)
  rw [registerPermissions_eq] at hcached hroles ⊢
  unfold syncOrganization at hcached hroles ⊢
  generalize db.registered instance_ organization roles scopes = d at *
  obtain ⟨m', hm', hsynced, hsame⟩ := hsynced.after hm₁
  refine ⟨m', hm', ?_⟩
  have hisAdmin : ∀ r, (d.syncServiceRoles _).IsAdmin r ↔ d.IsAdmin r := fun r => by
    unfold IsAdmin
    rw [hroles]
  have htouched : (k ∈ (d.memberships.pks fun _ m => m.organization == organization) ∧ d.isScoped k = false)
      ↔ db.isScoped k = false ∧ m.organization = organization := by
    rw [mem_pks, show d.isScoped k = db.isScoped k by simp only [DB.isScoped, hasGrants, hbesides.grants],
      and_comm]
    refine and_congr_right fun _ => ?_
    rw [← hdropped.organization]
    constructor
    · rintro ⟨m₂, hm₂, ho⟩
      rw [hm₁] at hm₂
      cases hm₂
      simpa using ho
    · exact fun ho => ⟨m₁, hm₁, by simpa using ho⟩
  rw [hcached k m' hm' (by simp), holdsAdmin_iff_isAdmin]
  by_cases hfull : db.isScoped k = false ∧ m.organization = organization
  · have hs := hsynced (htouched.mpr hfull)
    have hdue := hdue hfull.2
    constructor
    · rintro ⟨r, hr, hname⟩
      rw [hisAdmin] at hname
      obtain ⟨hr, hauto⟩ := (hs.roles r).mp hr
      by_cases hent : d.Entitled m₁ r
      · exact .inr ⟨hfull.1, hfull.2, hdue.mp ⟨r, hname, hent⟩⟩
      · obtain ⟨hstays, hheld⟩ := (hadmin r).mp ⟨hname, hr.resolve_right hent⟩
        refine .inl ⟨r, hheld, hstays, fun _ _ hmem => absurd ⟨?_, hent⟩ hauto⟩
        exact (hdropped.automatic r).mpr ⟨hmem, ((hdropped.roles r).mp (hr.resolve_right hent)).2⟩
    · rintro (⟨r, hheld, hstays, hauto⟩ | ⟨-, -, hadue⟩)
      · obtain ⟨hname, hr⟩ := (hadmin r).mpr ⟨hstays, hheld⟩
        refine ⟨r, (hs.roles r).mpr ⟨.inl hr, fun hno => hno.2 ?_⟩, (hisAdmin r).mpr hname⟩
        obtain ⟨x, hx, hrole⟩ := hauto hfull.1 hfull.2 ((hdropped.automatic r).mp hno.1).1
        obtain ⟨x', hx', -, hstays⟩ := hstays
        rw [hx] at hx'
        cases hx'
        exact (hentitled r x hx).mpr ⟨hstays, hrole⟩
      · obtain ⟨r, hname, hent⟩ := hdue.mpr hadue
        exact ⟨r, (hs.roles r).mpr ⟨.inr hent, fun hno => hno.2 hent⟩, (hisAdmin r).mpr hname⟩
  · have hs := hsame fun ht => hfull (htouched.mp ht)
    rw [hs.roles]
    constructor
    · rintro ⟨r, hr, hname⟩
      obtain ⟨hstays, hheld⟩ := (hadmin r).mp ⟨(hisAdmin r).mp hname, hr⟩
      exact .inl ⟨r, hheld, hstays, fun hk ho => absurd ⟨hk, ho⟩ hfull⟩
    · rintro (⟨r, hheld, hstays, -⟩ | ⟨hk, ho, -⟩)
      · obtain ⟨hname, hr⟩ := (hadmin r).mpr ⟨hstays, hheld⟩
        exact ⟨r, hr, (hisAdmin r).mpr hname⟩
      · exact absurd ⟨hk, ho⟩ hfull

end

/-! ## What the scopes of a client cover -/

theorem mem_coveredBy {s : Scope} (hs : s.creatingInstance ≠ none) {k : String} :
    k ∈ db.coveredBy s ↔ ∃ pk t, db.scopes.row pk = some t ∧ t.organization = s.organization ∧ t.identifier = k
      ∧ ∃ i ∈ t.usedBy, i ∈ s.usedBy := by
  unfold coveredBy
  rw [if_neg (by simpa using hs)]
  simp only [List.mem_map, Prod.exists, mem_filter, Bool.and_eq_true, beq_iff_eq, List.any_eq_true,
    List.contains_eq_mem,
    decide_eq_true_eq]
  constructor
  · rintro ⟨pk, t, ⟨ht, ho, hi⟩, rfl⟩
    exact ⟨pk, t, ht, ho, rfl, hi⟩
  · rintro ⟨pk, t, ht, ho, rfl, hi⟩
    exact ⟨pk, t, ⟨ht, ho, hi⟩, rfl⟩

theorem mem_coveredScopes {c : Client} {k : String} :
    k ∈ db.coveredScopes (db.scopeRows c) ↔ ∃ pk ∈ c.scopes, ∃ s, db.scopes.row pk = some s ∧ db.covers s k := by
  simp only [coveredScopes, scopeRows, covers, List.mem_append, List.mem_map, List.mem_flatMap, List.mem_filter,
    List.mem_filterMap]
  constructor
  · rintro (⟨s, ⟨pk, hpk, hs⟩, rfl⟩ | ⟨s, ⟨⟨pk, hpk, hs⟩, hall⟩, hk⟩)
    · exact ⟨pk, hpk, s, hs, .inl rfl⟩
    · exact ⟨pk, hpk, s, hs, .inr ⟨hall, hk⟩⟩
  · rintro ⟨pk, hpk, s, hs, rfl | ⟨hall, hk⟩⟩
    · exact .inl ⟨s, ⟨pk, hpk, hs⟩, rfl⟩
    · exact .inr ⟨s, ⟨⟨pk, hpk, hs⟩, hall⟩, hk⟩

section

variable (h : db.Consistent)
include h

theorem Consistent.scopes_leave (instance_ organization : Pk) (roles : List RoleDeclaration)
    (scopes : List ScopeDeclaration) :
    (Scope.writer instance_).Leaves (fun pk s => s.isBuiltin = false ∧ db.scopeIsHeld pk s = false)
    instance_ organization
      scopes db.scopes (db.registered instance_ organization roles scopes).scopes :=
  (registered_leaves instance_ organization db roles scopes h.roles h.scopes).2.1

theorem Consistent.together_after {j : Pk} {s s' : Scope} (hs : db.scopes.row j = some s)
    (hs' : (db.registered instance_ organization roles scopes).scopes.row j = some s')
    (hmaker : s.creatingInstance ≠ none)
    {n : String} :
    n ∈ (db.registered instance_ organization roles scopes).coveredBy s'
      ↔ db.DeclaredTogether instance_ organization scopes s n := by
  have hleaves := h.scopes_leave instance_ organization roles scopes
  generalize db.registered instance_ organization roles scopes = d at hleaves hs' ⊢
  obtain ⟨⟨ho, hname, hmaker'⟩, -, husers⟩ := hleaves.kept j s s' hs hs'
  have ho : s'.organization = s.organization := ho
  have hmaker' : s'.creatingInstance = s.creatingInstance := hmaker'
  have husers : ∀ i, i ∈ s'.usedBy ↔
      if i = instance_ ∧ s.organization = organization then s.identifier ∈ scopes.map (·.key) else i ∈ s.usedBy :=
        husers
  rw [mem_coveredBy (by rw [hmaker']; exact hmaker), ho]
  constructor
  · rintro ⟨l, t', ht', hot, hid, i, hit, his⟩
    rw [husers] at his
    cases ht : db.scopes.row l with
    | none =>
      -- the manifest made it, and nobody else uses it
      obtain ⟨hhome, -, -, ⟨x, hx, -⟩, hothers⟩ := hleaves.new l t' ht ht'
      obtain rfl := (hothers i).mp hit
      have hos : s.organization = organization := hot.symm.trans hhome
      rw [if_pos ⟨rfl, hos⟩] at his
      obtain ⟨hx, hkey⟩ := Writer.last_some _ hx
      exact .inl ⟨hos, his, List.mem_map.mpr ⟨x, hx, hkey.trans hid⟩⟩
    | some t =>
      obtain ⟨⟨hot', hid', -⟩, -, husers'⟩ := hleaves.kept l t t' ht ht'
      have hot' : t.organization = s.organization := Eq.trans (Eq.symm hot') hot
      have hid' : t.identifier = n := Eq.trans (Eq.symm hid') hid
      have husers' : i ∈ t'.usedBy
        ↔ if i = instance_ ∧ t.organization = organization then t.identifier ∈ scopes.map (·.key)
        else i ∈ t.usedBy := husers' i
      rw [husers', hot'] at hit
      split at his
      · rename_i hown
        rw [if_pos hown, hid'] at hit
        exact .inl ⟨hown.2, his, hit⟩
      · rename_i hown
        rw [if_neg hown] at hit
        exact .inr ⟨l, t, ht, hot', hid', i, hit, his, not_and_or.mp hown⟩
  · rintro (⟨hos, hkey, hn⟩ | ⟨l, t, ht, hot, hid, i, hit, his, hother⟩)
    · obtain ⟨l, t', ht', hot, hid, huser⟩ := hleaves.there n hn
      refine ⟨l, t', ht', (show t'.organization = organization from hot).trans hos.symm, hid, instance_, huser, ?_⟩
      rw [husers, if_pos ⟨rfl, hos⟩]
      exact hkey
    · have hown : ¬ (i = instance_ ∧ s.organization = organization) :=
        fun hown => hother.elim (· hown.1) (· hown.2)
      have hstays : ¬ Writer.Goes Scope.view
        (fun pk s => s.isBuiltin = false ∧ db.scopeIsHeld pk s = false) instance_
          organization (scopes.map (·.key)) l t := fun hgoes =>
        hown ⟨hgoes.users.2 i hit, hot.symm.trans hgoes.home⟩
      obtain ⟨t', ht'⟩ := Option.ne_none_iff_exists'.mp fun hnone => hstays ((hleaves.gone l t ht).mp hnone)
      obtain ⟨⟨hot', hid', -⟩, -, husers'⟩ := hleaves.kept l t t' ht ht'
      refine ⟨l, t', ht', Eq.trans hot' hot, Eq.trans hid' hid, i, (husers' i).mpr ?_, ?_⟩
      · rw [if_neg (by rw [show Scope.view.home t = s.organization from hot]; exact hown)]
        exact hit
      · rw [husers, if_neg hown]
        exact his

theorem Consistent.covered_after (instance_ organization : Pk) (roles : List RoleDeclaration)
    (scopes : List ScopeDeclaration)
    {k : Pk} {c : Client} (hc : db.clients.row k = some c) {n : String} (hn : n ∈ lokKeys) :
    n ∈ (db.registered instance_ organization roles scopes).coveredScopes
        ((db.registered instance_ organization roles scopes).scopeRows c)
      ↔ ∃ j ∈ c.scopes, ∃ s, db.scopes.row j = some s ∧ db.CoversAfter instance_ organization scopes s n := by
  have hleaves := h.scopes_leave instance_ organization roles scopes
  have htogether : ∀ {j s s'}, db.scopes.row j = some s →
      (db.registered instance_ organization roles scopes).scopes.row j = some s' → s.creatingInstance ≠ none → _ :=
    fun hs hs' hmaker => h.together_after hs hs' hmaker (n := n)
  generalize db.registered instance_ organization roles scopes = d at hleaves htogether ⊢
  have hcovers : ∀ {j s s'}, db.scopes.row j = some s → d.scopes.row j = some s' →
      (d.covers s' n ↔ db.CoversAfter instance_ organization scopes s n) := by
    intro j s s' hs hs'
    obtain ⟨⟨-, hid, hmaker⟩, hreads, -⟩ := hleaves.kept j s s' hs hs'
    have hid : s'.identifier = s.identifier := hid
    have hmaker : s'.creatingInstance = s.creatingInstance := hmaker
    unfold covers CoversAfter
    rw [hid, ← hreads]
    refine or_congr_right (and_congr_right fun _ => ?_)
    by_cases hnone : s.creatingInstance = none
    · refine iff_of_true ?_ (.inl hnone)
      rw [coveredBy, hmaker, hnone]
      exact hn
    · rw [or_iff_right hnone]
      exact htogether hs hs' hnone
  rw [mem_coveredScopes]
  refine exists_congr fun j => and_congr_right fun hj => ?_
  obtain ⟨s, hs⟩ := h.clients k c hc j hj
  -- a scope a client holds does not go
  have hstays : ¬ Writer.Goes Scope.view (fun pk s => s.isBuiltin = false ∧ db.scopeIsHeld pk s = false) instance_
      organization (scopes.map (·.key)) j s := fun hgoes => by
    obtain ⟨-, hheld⟩ := hgoes.free
    simp only [scopeIsHeld, Bool.or_eq_false_iff] at hheld
    simpa [hj] using exists?_eq_false.mp hheld.1 k c hc
  obtain ⟨s', hs'⟩ := Option.ne_none_iff_exists'.mp fun hnone => hstays ((hleaves.gone j s hs).mp hnone)
  constructor
  · rintro ⟨s₁, hs₁, hcov⟩
    exact ⟨s, hs, (hcovers hs hs₁).mp hcov⟩
  · rintro ⟨s₁, hs₁, hcov⟩
    exact ⟨s', hs', (hcovers hs₁ hs').mpr hcov⟩

/-! ## What a registration leaves of lok's -/

theorem Consistent.role_left (instance_ organization : Pk) (roles : List RoleDeclaration)
    (scopes : List ScopeDeclaration)
    {r : Pk} {x : Role} (hx : db.roles.row r = some x) (hnone : x.creatingInstance = none) :
    ∃ y, (db.registerPermissions instance_ organization roles scopes).roles.row r = some y
      ∧ (y.description, y.isAdminRole, y.isDefaultRole) = (Role.writer instance_).said organization roles x
      ∧ y.isBuiltin = x.isBuiltin := by
  obtain ⟨hleaves, -, hbuiltin, -⟩ := registered_leaves instance_ organization db roles scopes h.roles h.scopes
  obtain ⟨y, hy⟩ := Option.ne_none_iff_exists'.mp fun hgone => by
    have hmaker : x.creatingInstance.isSome = true := ((hleaves.gone r x hx).mp hgone).maker
    simp [hnone] at hmaker
  refine ⟨y, ?_, (hleaves.kept r x y hx hy).2.1, hbuiltin r x y hx hy⟩
  rw [(registerPermissions_spec instance_ organization db roles scopes).2.1, hy]

theorem Consistent.scope_left (instance_ organization : Pk) (roles : List RoleDeclaration)
    (scopes : List ScopeDeclaration)
    {j : Pk} {s : Scope} (hs : db.scopes.row j = some s) (hnone : s.creatingInstance = none) :
    ∃ y, (db.registerPermissions instance_ organization roles scopes).scopes.row j = some y
      ∧ (y.description, y.isAllScope) = (Scope.writer instance_).said organization scopes s
      ∧ y.isBuiltin = s.isBuiltin := by
  obtain ⟨-, hleaves, -, hbuiltin⟩ := registered_leaves instance_ organization db roles scopes h.roles h.scopes
  obtain ⟨y, hy⟩ := Option.ne_none_iff_exists'.mp fun hgone => by
    have hmaker : s.creatingInstance.isSome = true := ((hleaves.gone j s hs).mp hgone).maker
    simp [hnone] at hmaker
  refine ⟨y, ?_, (hleaves.kept j s y hs hy).2.1, hbuiltin j s y hs hy⟩
  rw [(registerPermissions_spec instance_ organization db roles scopes).2.2, hy]

theorem Consistent.covered_left (instance_ organization : Pk) (roles : List RoleDeclaration)
    (scopes : List ScopeDeclaration)
    {k : Pk} {c : Client} (hc : db.clients.row k = some c) {n : String} (hn : n ∈ lokKeys) :
    n ∈ (db.registerPermissions instance_ organization roles scopes).coveredScopes
        ((db.registerPermissions instance_ organization roles scopes).scopeRows c)
      ↔ ∃ j ∈ c.scopes, ∃ s, db.scopes.row j = some s ∧ db.CoversAfter instance_ organization scopes s n := by
  rw [← h.covered_after instance_ organization roles scopes hc hn]
  have hscopes := (registerPermissions_spec instance_ organization db roles scopes).2.2
  unfold coveredScopes scopeRows coveredBy
  rw [hscopes]

/-- A registration leaves lok's own alone exactly when what its manifest says comes to what is there. -/
theorem registration_leaves_lok_alone (instance_ organization : Pk) (roles : List RoleDeclaration)
    (scopes : List ScopeDeclaration) :
    db.LeavesLok (db.registerPermissions instance_ organization roles scopes)
      ↔ db.SparesLok instance_ organization roles scopes := by
  have hrole := fun r x => h.role_left instance_ organization roles scopes (r := r) (x := x)
  have hscope := fun j s => h.scope_left instance_ organization roles scopes (j := j) (s := s)
  have hadmins := fun k m => h.admins_after instance_ organization roles scopes (k := k) (m := m)
  have hcovered := fun k c (hc : db.clients.row k = some c) n (hn : n ∈ lokKeys) =>
    h.covered_left instance_ organization roles scopes hc hn
  obtain ⟨hbesides, -⟩ := registerPermissions_spec instance_ organization db roles scopes
  generalize db.registerPermissions instance_ organization roles scopes = d at *
  constructor
  · intro hl
    have hflag : ∀ k m, db.memberships.row k = some m →
        (m.isAdmin = true ↔ db.AdminKept instance_ organization roles k m
          ∨ db.isScoped k = false ∧ m.organization = organization ∧ db.AdminDue instance_ organization roles m) := by
      intro k m hm
      obtain ⟨m', hm', hiff⟩ := hadmins k m hm
      obtain ⟨m'', hm'', hsame⟩ := hl.admins k m hm
      rw [hm'] at hm''
      cases hm''
      rw [← hsame]
      exact hiff
    refine ⟨fun r x hx hnone => ?_, fun j s hs hnone => ?_, fun k c hc n hn => ?_,
      fun k m hm hfull ho hno hdue => ?_,
      fun k m hm hyes => (hflag k m hm).mp hyes⟩
    · obtain ⟨y, hy, hsaid, -⟩ := hrole r x hx hnone
      obtain ⟨y', hy', hdescription, hadmin, hdefault, -⟩ := hl.roles r x hx hnone
      rw [hy] at hy'
      cases hy'
      rw [← hsaid, hdescription, hadmin, hdefault]
    · obtain ⟨y, hy, hsaid, -⟩ := hscope j s hs hnone
      obtain ⟨y', hy', hdescription, hall, -⟩ := hl.scopes j s hs hnone
      rw [hy] at hy'
      cases hy'
      rw [← hsaid, hdescription, hall]
    · obtain ⟨c', hc', hsame⟩ := hl.covered k c hc
      rw [hbesides.clients, hc] at hc'
      cases hc'
      rw [← hcovered k c hc n hn, hsame n hn, mem_coveredScopes]
    · have hyes := (hflag k m hm).mpr (.inr ⟨hfull, ho, hdue⟩)
      rw [hno] at hyes
      cases hyes
  · intro hs
    refine ⟨fun k m hm => ?_, fun r x hx hnone => ?_, fun j s hs' hnone => ?_, fun k c hc => ?_⟩
    · obtain ⟨m', hm', hiff⟩ := hadmins k m hm
      refine ⟨m', hm', ?_⟩
      cases hflag : m.isAdmin with
      | true => exact hiff.mpr (hs.lowered k m hm hflag)
      | false =>
        rw [← Bool.not_eq_true, hiff]
        rintro (⟨r, hr, ⟨x, hx, hname, -⟩, -⟩ | ⟨hfull, ho, hdue⟩)
        · -- who holds an admin role is flagged
          have hholds : db.holdsAdmin m = true := holdsAdmin_iff_isAdmin.mpr ⟨r, hr, x, hx, hname⟩
          rw [← h.cached k m hm (by simp), hflag] at hholds
          cases hholds
        · exact hs.raised k m hm hfull ho hflag hdue
    · obtain ⟨y, hy, hsaid, hbuiltin⟩ := hrole r x hx hnone
      rw [hs.role r x hx hnone] at hsaid
      simp only [Prod.mk.injEq] at hsaid
      exact ⟨y, hy, hsaid.1, hsaid.2.1, hsaid.2.2, hbuiltin⟩
    · obtain ⟨y, hy, hsaid, hbuiltin⟩ := hscope j s hs' hnone
      rw [hs.scope j s hs' hnone] at hsaid
      simp only [Prod.mk.injEq] at hsaid
      exact ⟨y, hy, hsaid.1, hsaid.2, hbuiltin⟩
    · refine ⟨c, by rw [hbesides.clients, hc], fun n hn => ?_⟩
      rw [hcovered k c hc n hn, hs.covered k c hc n hn, mem_coveredScopes]

end

theorem staysAdmin_of_lok {r : Pk} {x : Role} (hx : db.roles.row r = some x) (hname : x.identifier = adminRole)
    (hnone : x.creatingInstance = none) : db.StaysAdmin instance_ organization roles r := by
  refine ⟨x, hx, hname, fun hgoes => ?_⟩
  have hmaker : x.creatingInstance.isSome = true := hgoes.maker
  simp [hnone] at hmaker

end DB

/-- Bob is made a member of Ann's organization, where a service runs. -/
def bobJoins : List Action :=
  [.createUser "ann" [], .createUser "bob" [], .createOrganization "org" 0 false, .configureHub 0 plainHub,
   .createMembership 1 0]

/-- A registration of a role and a scope of its own: Bob is no admin before or after. -/
theorem registration_leaves_lok_alone_analyst :
    (run plainEnv .empty bobJoins).SparesLok 0 0 [⟨"analyst", none, false, true⟩] [⟨"data_read", none, false⟩]
    ∧ (run plainEnv .empty bobJoins).LeavesLok ((run plainEnv .empty bobJoins).registerPermissions 0 0
      [⟨"analyst", none, false, true⟩] [⟨"data_read", none, false⟩]) := by
  have hconsistent : (run plainEnv .empty bobJoins).Consistent := by
    refine ⟨unique_iff.mpr (by decide +kernel), unique_iff.mpr (by decide +kernel), fun k m hm r hr => ?_, ?_, ?_⟩
    · have hheld : ∀ k m, (run plainEnv .empty bobJoins).memberships.row k = some m →
          ∀ r ∈ m.roles ++ (m.automaticRoles ++ m.withheldRoles),
            ((run plainEnv .empty bobJoins).roles.row r).isSome = true := by
        simp only [forall_row_iff]
        decide +kernel
      exact Option.isSome_iff_exists.mp (hheld k m hm r (by simpa using hr))
    · simp only [forall_row_iff, ← Option.isSome_iff_exists]
      decide +kernel
    · unfold DB.Cached DB.CachedBut
      simp only [forall_row_iff]
      decide +kernel
  have hspares : (run plainEnv .empty bobJoins).SparesLok 0 0 [⟨"analyst", none, false, true⟩]
    [⟨"data_read", none, false⟩] := by
    have hadmin : ∀ r x, (run plainEnv .empty bobJoins).roles.row r = some x → x.identifier = DB.adminRole →
        x.creatingInstance = none
          ∧ ((Role.writer 0).said 0 [⟨"analyst", none, false, true⟩] x).2 = (false, false) := by
      simp only [forall_row_iff]
      decide +kernel
    obtain ⟨x, hx, hname, ho⟩ : ∃ x, (run plainEnv .empty bobJoins).roles.row 0 = some x
      ∧ x.identifier = DB.adminRole
        ∧ x.organization = 0 := ⟨_, rfl, rfl, rfl⟩
    refine ⟨?_, ?_, fun k c hc => ?_, fun k m hm _ _ _ => ?_, fun k m hm hflag => .inl ?_⟩
    · simp only [forall_row_iff]
      decide +kernel
    · simp only [forall_row_iff]
      decide +kernel
    · have hnone : (run plainEnv .empty bobJoins).clients.rows = [] := by decide +kernel
      exact absurd (mem_rows.mpr hc) (by simp [hnone])
    · rintro (⟨r, y, hy, hyname, -, -, hhands⟩ | ⟨hfresh, -⟩)
      · unfold DB.Hands at hhands
        rw [(hadmin r y hy hyname).2] at hhands
        simp at hhands
      · exact hfresh 0 x hx ho hname
    · have hheld : ∀ k m, (run plainEnv .empty bobJoins).memberships.row k = some m → m.isAdmin = true →
          0 ∈ m.roles ∧ m.automaticRoles = [] := by
        simp only [forall_row_iff]
        decide +kernel
      obtain ⟨hr, hauto⟩ := hheld k m hm hflag
      exact ⟨0, hr, DB.staysAdmin_of_lok hx hname (hadmin 0 x hx hname).1,
        fun _ _ hmem => absurd hmem (by simp [hauto])⟩
  exact ⟨hspares, (DB.registration_leaves_lok_alone hconsistent 0 0 _ _).mpr hspares⟩

/-- A service that declares `admin` a default role makes Bob an admin. -/
theorem service_declares_admin :
    ¬ (run plainEnv .empty bobJoins).LeavesLok
      ((run plainEnv .empty bobJoins).registerPermissions 0 0 [⟨"admin", none, false, true⟩] []) := by
  intro h
  have hbob : ((run plainEnv .empty bobJoins).memberships.row 1).map (·.isAdmin) = some false := by decide +kernel
  have hafter : (((run plainEnv .empty bobJoins).registerPermissions 0 0 [⟨"admin", none, false, true⟩]
    []).memberships.row
      1).map (·.isAdmin) = some true := by decide +kernel
  obtain ⟨m, hm, hadmin⟩ := Option.map_eq_some_iff.mp hbob
  obtain ⟨m', hm', hsame⟩ := h.admins 1 m hm
  rw [hm', Option.map_some, hsame, hadmin] at hafter
  cases hafter

end Lok
