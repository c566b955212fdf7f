import Lok.Frames
import Lok.Registrations
import Lok.ServiceRoles

/-!
# Changes no sync follows

A role cleared from its own side, `admin` renamed or deleted and a guest made a full member
are not followed by a sync: memberships in order stay so where nothing lok hands out hangs on
the change. A new membership, a new owner and a registration are, and the sync settles them.
-/

namespace Lok

open Table Checks Runs

/-- The member as if they did not hold the role. -/
def Membership.without (m : Membership) (role : Pk) : Membership := { m with roles := removePks m.roles [role] }

namespace DB

variable {db d : DB} {given : List (Pk × Pk)} {role : Pk}

abbrev InOrder (db : DB) (given : List (Pk × Pk)) : Prop := db.InOrderBut (fun _ _ => False) given

theorem InOrderBut.kept (h : db.InOrder given) {k : Pk} {m : Membership} (hm : db.memberships.row k = some m) :
    db.MemberKept k m :=
  (h.members k m hm).resolve_right fun hd => hd.1

theorem InOrderBut.claim {due : Pk → Membership → Prop} {new : List (Pk × Pk)} (h : db.InOrderBut due given)
    (hnew : ∀ p ∈ new, ∃ m, db.memberships.row p.1 = some m ∧ p.2 ∈ m.roles ∧ p.2 ∉ m.automaticRoles) :
    db.InOrderBut due (given ++ new) :=
  ⟨h.members, h.automatic, h.exist, fun p hp => (List.mem_append.mp hp).elim (h.given p) (hnew p), h.apart⟩

theorem InOrderBut.same {due : Pk → Membership → Prop} (h : db.InOrderBut due given) (hrules : SameRules db d)
    (hmemberships : d.memberships = db.memberships) : d.InOrderBut due given := by
  refine ⟨fun k m hm => ?_, fun k m hm r hr => ?_, fun k m hm r hr => ?_, fun p hp => ?_, ?_⟩
  · rw [hmemberships] at hm
    rw [hrules.isScoped]
    exact (h.members k m hm).imp_left fun hkept => hkept.congr hrules (.refl m)
  · rw [hmemberships] at hm
    rw [hrules.roles]
    exact h.automatic k m hm r hr
  · rw [hmemberships] at hm
    rw [hrules.roles]
    exact h.exist k m hm r hr
  · rw [hmemberships]
    exact h.given p hp
  · unfold AdminApart
    rw [hrules.roles]
    exact h.apart

/-! ## A member without a role -/

theorem isAdmin_without {m : Membership} {r : Pk} (hr : r ∈ (m.without role).roles) : r ∈ m.roles ∧ r ≠ role := by
  simpa [Membership.without] using hr

theorem without_of_not_held {m : Membership} (h : role ∉ m.roles) : m.without role = m := by
  have hroles : removePks m.roles [role] = m.roles :=
    List.filter_eq_self.mpr fun r hr => by simpa using fun heq : r = role => h (heq ▸ hr)
  unfold Membership.without
  rw [hroles]

theorem administers_of_without {m : Membership} (h : db.administers (m.without role) = true) :
    db.administers m = true := by
  unfold administers at h ⊢
  rw [Bool.or_eq_true] at h ⊢
  refine h.imp_right fun hholds => ?_
  obtain ⟨r, hr, hadmin⟩ := holdsAdmin_iff_isAdmin.mp hholds
  exact holdsAdmin_iff_isAdmin.mpr ⟨r, (isAdmin_without hr).1, hadmin⟩

theorem entitled_of_without {m : Membership} {r : Pk} (h : db.Entitled (m.without role) r) : db.Entitled m r := by
  obtain ⟨x, hx, ho, hflag⟩ := h
  exact ⟨x, hx, ho, hflag.imp_left (And.imp_right administers_of_without)⟩

/-- Nothing lok gave a full member hangs on their holding the role. -/
def Dispensable (db : DB) (role : Pk) : Prop :=
  ∀ k m, db.memberships.row k = some m → db.isScoped k = false → role ∈ m.roles →
    ∀ r ∈ m.automaticRoles, db.Entitled (m.without role) r

theorem Dispensable.still (h : db.Dispensable role) {k : Pk} {m : Membership} (hm : db.memberships.row k = some m)
    (hkept : db.MemberKept k m) {r : Pk} (hr : r ∈ m.automaticRoles) : db.Entitled (m.without role) r := by
  obtain ⟨-, hfull, hentitled⟩ := hkept.automatic r hr
  by_cases hheld : role ∈ m.roles
  · exact h k m hm hfull hheld r hr
  · rw [without_of_not_held hheld]
    exact hentitled

/-! ## Clearing a role of its members -/

theorem clearMemberships_rows (db : DB) (role : Pk) :
    Rewrites (fun _ m m' => SameRoles (m.without role) m') db.memberships
    (db.clearMemberships role).memberships := by
  unfold clearMemberships
  extract_lets held
  have hdrop : Rewrites (fun _ m m' => m' = m.without role) db.memberships
    (db.dropRole role held).memberships := by
    refine .update fun k m hm => ?_
    split
    · rfl
    · rename_i hk
      refine (without_of_not_held fun hr => hk ?_).symm
      simp only [List.contains_eq_mem, decide_eq_true_eq]
      exact mem_pks.mpr ⟨m, hm, by simpa using hr⟩
  refine (hdrop.comp (syncAdmin_rows _ held)).mono ?_
  rintro k m m' ⟨_, rfl, hsame⟩
  exact hsame

theorem InOrderBut.clearMemberships (h : db.InOrder given) (hspare : db.Dispensable role)
    (hlacks : ∀ k m, db.memberships.row k = some m → db.isScoped k = false → role ∈ m.roles →
      ¬ db.Entitled (m.without role) role) :
    (db.clearMemberships role).InOrder (given.filter fun p => p.2 != role) := by
  have hrows := clearMemberships_rows db role
  have hrules : SameRules db (db.clearMemberships role) := ⟨rfl, rfl, rfl⟩
  have hapart : (db.clearMemberships role).AdminApart := h.apart
  refine ⟨fun k m' hm' => .inl ?_, fun k m' hm' r hr => ?_, fun k m' hm' r hr => ?_, fun p hp => ?_, hapart⟩
  · obtain ⟨m, hm, hsame⟩ := hrows.before hm'
    have hkept := h.kept hm
    have hnot : ∀ r, db.isScoped k = false → r ∈ m.roles → db.Entitled (m.without role) r → r ≠ role := by
      rintro r hfull hr hentitled rfl
      exact hlacks k m hm hfull hr hentitled
    refine MemberKept.congr hrules (m := m.without role) ⟨fun hfull r hr => ?_, fun r hr => ?_⟩ hsame
    · have hheld := hkept.held hfull r (entitled_of_without hr)
      exact mem_removePks.mpr ⟨hheld, by simpa using hnot r hfull hheld hr⟩
    · obtain ⟨hheld, hfull, -⟩ := hkept.automatic r hr
      have hentitled := hspare.still hm hkept hr
      exact ⟨mem_removePks.mpr ⟨hheld, by simpa using hnot r hfull hheld hentitled⟩, hfull, hentitled⟩
  · obtain ⟨m, hm, hsame⟩ := hrows.before hm'
    rw [hsame.automatic] at hr
    exact h.automatic k m hm r hr
  · obtain ⟨m, hm, hsame⟩ := hrows.before hm'
    rw [hsame.roles] at hr
    exact h.exist k m hm r (isAdmin_without hr).1
  · obtain ⟨hp, hne⟩ := List.mem_filter.mp hp
    obtain ⟨m, hm, hheld, hhand⟩ := h.given p hp
    obtain ⟨m', hm', hsame⟩ := hrows.after hm
    refine ⟨m', hm', ?_, ?_⟩
    · rw [hsame.roles]
      exact mem_removePks.mpr ⟨hheld, by simpa using hne⟩
    · rw [hsame.automatic]
      exact hhand

/-! ## Renaming a role -/

/-- A rename makes nobody an admin who lacks an admin role of a service, and nothing lok gave hangs on the
old name. -/
structure Renamable (db : DB) (role : Pk) (identifier : String) : Prop where
  away : db.IsAdmin role → identifier ≠ adminRole → db.Dispensable role
  apart : identifier = adminRole → ∀ x, db.roles.row role = some x →
    x.isAdminRole = false ∧ x.isDefaultRole = false ∧ x.creatingInstance = none
  onto : ¬ db.IsAdmin role → identifier = adminRole →
    ∀ k m, db.memberships.row k = some m → db.isScoped k = false →
    role ∈ m.roles → db.administers m = true ∨ ∀ r x, db.roles.row r = some x → x.organization = m.organization →
      x.isAdminRole = true → r ∈ m.roles

/-- What a rename leaves, of roles and members. -/
structure Renamed (db : DB) (role : Pk) (identifier : String) (d : DB) : Prop where
  organizations : d.organizations = db.organizations
  grants : d.grants = db.grants
  roles : ∀ r, d.roles.row r = (db.roles.row r).map
    fun x => if r = role then { x with identifier := identifier } else x
  memberships : Rewrites (fun _ => SameRoles) db.memberships d.memberships

theorem renameRole_renamed {identifier : String} (h : db.renameRole role identifier = .ok d) :
    Renamed db role identifier d ∧ ∃ x, db.roles.row role = some x := by
  obtain ⟨x, l, hx, rfl, -⟩ := renameRole_ok h
  refine ⟨⟨rfl, rfl, fun r => ?_, syncAdmin_rows _ l⟩, x, hx⟩
  show (db.roles.modify role _).row r = _
  rw [modify_row]
  by_cases hr : r = role <;> cases db.roles.row r <;> simp [hr]

theorem Renamed.isAdmin {identifier : String} (h : Renamed db role identifier d) {x : Role}
    (hx : db.roles.row role = some x)
    (r : Pk) : d.IsAdmin r ↔ r = role ∧ identifier = adminRole ∨ r ≠ role ∧ db.IsAdmin r := by
  unfold IsAdmin
  rw [h.roles]
  by_cases hr : r = role
  · subst hr
    simp [hx]
  · cases db.roles.row r <;> simp [hr]

theorem Renamed.entitled {identifier : String} (h : Renamed db role identifier d) {m m' : Membership} {r : Pk}
    (hsame : SameRoles m m') : d.Entitled m' r ↔ ∃ x, db.roles.row r = some x ∧ x.organization = m.organization
      ∧ (x.isAdminRole = true ∧ d.administers m' = true ∨ x.isDefaultRole = true ∧ r ∉ m.withheldRoles) := by
  unfold Entitled
  rw [h.roles, hsame.organization, hsame.withheld]
  cases db.roles.row r with
  | none => simp
  | some x => by_cases hr : r = role <;> simp [hr]

theorem Renamed.isScoped {identifier : String} (h : Renamed db role identifier d) (k : Pk) :
    d.isScoped k = db.isScoped k := by
  simp only [DB.isScoped, hasGrants, h.grants]

theorem Renamed.kept {identifier : String} (h : Renamed db role identifier d) (hin : db.InOrder given) {x : Role}
    (hx : db.roles.row role = some x) (hrenamable : db.Renamable role identifier) {k : Pk} {m m' : Membership}
    (hm : db.memberships.row k = some m) (hsame : SameRoles m m') : d.MemberKept k m' := by
  have hkept := hin.kept hm
  -- what they hold is unchanged, so it is about who administers
  have hsuffices : (∀ r, db.isScoped k = false → d.Entitled m' r → r ∈ m.roles)
      → (∀ r ∈ m.automaticRoles, d.Entitled m' r) → d.MemberKept k m' := by
    intro hheld hauto
    refine ⟨fun hfull r hr => ?_, fun r hr => ?_⟩
    · rw [h.isScoped] at hfull
      rw [hsame.roles]
      exact hheld r hfull hr
    · rw [hsame.automatic] at hr
      rw [hsame.roles, h.isScoped]
      obtain ⟨hr', hfull, -⟩ := hkept.automatic r hr
      exact ⟨hr', hfull, hauto r hr⟩
  have hcongr : ∀ n : Membership, n.user = m.user → n.organization = m.organization →
    n.withheldRoles = m.withheldRoles
      → (∀ r, d.IsAdmin r ∧ r ∈ m'.roles ↔ db.IsAdmin r ∧ r ∈ n.roles) →
        ∀ r, d.Entitled m' r ↔ db.Entitled n r := by
    intro n hu ho hw hroles r
    have hadministers : d.administers m' = db.administers n :=
      administers_congr h.organizations (hsame.user.trans hu.symm) (hsame.organization.trans ho.symm) hroles
    rw [h.entitled hsame, hadministers]
    unfold Entitled
    rw [ho, hw]
  by_cases hwas : db.IsAdmin role <;> by_cases his : identifier = adminRole
  · have hentitled := hcongr m rfl rfl rfl fun r => by
      rw [h.isAdmin hx, hsame.roles]
      by_cases hr : r = role <;> simp [hr, his, hwas]
    exact hsuffices (fun r hfull hr => hkept.held hfull r ((hentitled r).mp hr)) fun r hr =>
      (hentitled r).mpr (hkept.automatic r hr).2.2
  · -- `admin` no longer: they administer as if without it
    have hentitled := hcongr (m.without role) rfl rfl rfl fun r => by
      rw [h.isAdmin hx, hsame.roles]
      by_cases hr : r = role <;> simp [hr, his, Membership.without]
    refine hsuffices (fun r hfull hr => hkept.held hfull r (entitled_of_without ((hentitled r).mp hr)))
      fun r hr => ?_
    exact (hentitled r).mpr ((hrenamable.away hwas his).still hm hkept hr)
  · -- `admin` from now on
    have hholds : d.administers m' = true ↔ db.administers m = true ∨ role ∈ m.roles := by
      unfold administers
      rw [h.organizations, hsame.user, hsame.organization, Bool.or_eq_true, Bool.or_eq_true, or_assoc,
        holdsAdmin_iff_isAdmin, holdsAdmin_iff_isAdmin, hsame.roles]
      refine or_congr_right ⟨?_, ?_⟩
      · rintro ⟨r, hr, hadmin⟩
        rcases (h.isAdmin hx r).mp hadmin with ⟨rfl, -⟩ | ⟨-, hadmin⟩
        · exact .inr hr
        · exact .inl ⟨r, hr, hadmin⟩
      · rintro (⟨r, hr, hadmin⟩ | hr)
        · exact ⟨r, hr, (h.isAdmin hx r).mpr (.inr ⟨fun heq => hwas (heq ▸ hadmin), hadmin⟩)⟩
        · exact ⟨role, hr, (h.isAdmin hx role).mpr (.inl ⟨rfl, his⟩)⟩
    refine hsuffices (fun r hfull hr => ?_) fun r hr => ?_
    · obtain ⟨y, hy, ho, ⟨hflag, hadministers⟩ | hdefault⟩ := (h.entitled hsame).mp hr
      · rcases hholds.mp hadministers with hadministers | hheld
        · exact hkept.held hfull r ⟨y, hy, ho, .inl ⟨hflag, hadministers⟩⟩
        · rcases hrenamable.onto hwas his k m hm hfull hheld with hadministers | hall
          · exact hkept.held hfull r ⟨y, hy, ho, .inl ⟨hflag, hadministers⟩⟩
          · exact hall r y hy ho hflag
      · exact hkept.held hfull r ⟨y, hy, ho, .inr hdefault⟩
    · obtain ⟨-, -, y, hy, ho, hflag⟩ := hkept.automatic r hr
      exact (h.entitled hsame).mpr
        ⟨y, hy, ho, hflag.imp_left (And.imp_right fun hadministers => hholds.mpr (.inl hadministers))⟩
  · have hentitled := hcongr m rfl rfl rfl fun r => by
      rw [h.isAdmin hx, hsame.roles]
      by_cases hr : r = role <;> simp [hr, his, hwas]
    exact hsuffices (fun r hfull hr => hkept.held hfull r ((hentitled r).mp hr)) fun r hr =>
      (hentitled r).mpr (hkept.automatic r hr).2.2

theorem InOrderBut.renameRole {identifier : String} (h : db.InOrder given)
    (hrenamable : db.Renamable role identifier)
    (hok : db.renameRole role identifier = .ok d) : d.InOrder given := by
  obtain ⟨hrenamed, x, hx⟩ := renameRole_renamed hok
  refine ⟨fun k m' hm' => .inl ?_, fun k m' hm' r hr => ?_, fun k m' hm' r hr => ?_, fun p hp => ?_,
    fun r y hy hname => ?_⟩
  · obtain ⟨m, hm, hsame⟩ := hrenamed.memberships.before hm'
    exact hrenamed.kept h hx hrenamable hm hsame
  · obtain ⟨m, hm, hsame⟩ := hrenamed.memberships.before hm'
    rw [hsame.automatic] at hr
    obtain ⟨y, hy, hname⟩ := h.automatic k m hm r hr
    rw [hrenamed.roles, hy]
    refine ⟨_, rfl, ?_⟩
    split
    · rename_i hr'
      -- a role lok gave is flagged, and the admin role is not
      subst hr'
      intro his
      obtain ⟨-, -, z, hz, -, hflag⟩ := (h.kept hm).automatic r hr
      obtain ⟨hadmin, hdefault, -⟩ := hrenamable.apart his z hz
      rw [hadmin, hdefault] at hflag
      exact hflag.elim (fun h => nomatch h.1) fun h => nomatch h.1
    · exact hname
  · obtain ⟨m, hm, hsame⟩ := hrenamed.memberships.before hm'
    rw [hsame.roles] at hr
    obtain ⟨y, hy⟩ := h.exist k m hm r hr
    rw [hrenamed.roles, hy]
    exact ⟨_, rfl⟩
  · obtain ⟨m, hm, hheld⟩ := h.given p hp
    obtain ⟨m', hm', hsame⟩ := hrenamed.memberships.after hm
    refine ⟨m', hm', ?_⟩
    rw [hsame.roles, hsame.automatic]
    exact hheld
  · rw [hrenamed.roles] at hy
    obtain ⟨z, hz, rfl⟩ := Option.map_eq_some_iff.mp hy
    by_cases hr : r = role
    · subst hr
      rw [if_pos rfl] at hname ⊢
      exact hrenamable.apart hname z hz
    · rw [if_neg hr] at hname ⊢
      exact h.apart r z hz hname

/-! ## Deleting a role -/

/-- The roles that are gone are no longer among the member's. -/
structure LostRoles (gone : List Pk) (m m' : Membership) : Prop where
  user : m'.user = m.user
  organization : m'.organization = m.organization
  roles : ∀ r, r ∈ m'.roles ↔ r ∈ m.roles ∧ r ∉ gone
  automatic : ∀ r, r ∈ m'.automaticRoles ↔ r ∈ m.automaticRoles ∧ r ∉ gone
  withheld : ∀ r, r ∈ m'.withheldRoles ↔ r ∈ m.withheldRoles ∧ r ∉ gone

theorem LostRoles.refl (m : Membership) : LostRoles [] m m := ⟨rfl, rfl, by simp, by simp, by simp⟩

theorem LostRoles.trans {gone more : List Pk} {a b c : Membership} (h : LostRoles gone a b)
    (k : LostRoles more b c) :
    LostRoles (gone ++ more) a c := by
  have hand : ∀ r, (r ∉ gone ∧ r ∉ more) ↔ r ∉ gone ++ more := fun r => by simp
  refine ⟨k.user.trans h.user, k.organization.trans h.organization, fun r => ?_, fun r => ?_, fun r => ?_⟩
  · rw [k.roles, h.roles, and_assoc, hand]
  · rw [k.automatic, h.automatic, and_assoc, hand]
  · rw [k.withheld, h.withheld, and_assoc, hand]

theorem mem_keepList_role {l : List Pk} {r : Pk} :
    r ∈ keepList (db.collect [⟨.role, role⟩]) .role l ↔ r ∈ l ∧ r ∉ [role] := by
  have hgone : (⟨.role, r⟩ : Ref) ∈ db.collect [⟨.role, role⟩] ↔ r = role := by
    constructor
    · intro hmem
      rcases collect_role hmem with heq | hmodel
      · cases heq
        rfl
      · cases hmodel
    · rintro rfl
      exact mem_collect_root (List.mem_singleton_self _)
  unfold keepList
  rw [List.mem_filter]
  simp [hgone]

theorem delete_role_rows (db : DB) (role : Pk) :
    Rewrites (fun _ => LostRoles [role]) db.memberships (db.delete .role [⟨.role, role⟩] none).memberships := by
  have hnone : ∀ r ∈ db.collect [⟨.role, role⟩], r.model ≠ .membership := by
    intro r hr
    rcases collect_role hr with rfl | hr
    · simp
    · simp [hr]
  rw [delete_role_eq]
  have hremove : Rewrites (fun _ => LostRoles [role]) db.memberships
    (db.removeCascade [⟨.role, role⟩]).memberships := by
    show Rewrites _ _ (Table.update (db.memberships.keep _) _)
    rw [keep_eq_self fun pk _ => keeps_eq_true hnone pk]
    exact .update fun _ m _ => ⟨rfl, rfl, fun _ => mem_keepList_role, fun _ => mem_keepList_role,
      fun _ => mem_keepList_role⟩
  refine (hremove.comp (syncAdmin_rows _ _)).mono ?_
  rintro k m m' ⟨m₁, h₁, h₂⟩
  exact ⟨h₂.user.trans h₁.user, h₂.organization.trans h₁.organization, fun r => by rw [h₂.roles]; exact h₁.roles r,
    fun r => by rw [h₂.automatic]; exact h₁.automatic r, fun r => by rw [h₂.withheld]; exact h₁.withheld r⟩

/-- Without the role, members are due what they were due as if they did not hold it. -/
theorem delete_role_entitled (db : DB) (role : Pk) {m m' : Membership} (h : LostRoles [role] m m') (r : Pk) :
    (db.delete .role [⟨.role, role⟩] none).Entitled m' r ↔ db.Entitled (m.without role) r ∧ r ≠ role := by
  obtain ⟨-, hroles⟩ := delete_role_tables db role
  have hbesides : Besides db (db.delete .role [⟨.role, role⟩] none) := delete_role_besides role
  generalize db.delete .role [⟨.role, role⟩] none = d at hroles hbesides ⊢
  have hisAdmin : ∀ r, d.IsAdmin r ↔ db.IsAdmin r ∧ r ≠ role := by
    intro r
    unfold IsAdmin
    rw [hroles]
    by_cases hr : r = role <;> simp [hr]
  have hadministers : d.administers m' = db.administers (m.without role) := by
    refine administers_congr hbesides.organizations h.user h.organization fun r => ?_
    rw [hisAdmin, h.roles]
    simp only [Membership.without, mem_removePks, List.mem_singleton]
    tauto
  unfold Entitled
  rw [hroles, h.organization, hadministers]
  by_cases hr : r = role
  · simp [hr]
  · simp [hr, h.withheld, Membership.without]

theorem InOrderBut.deleteRole {due : Pk → Membership → Prop} (h : db.InOrderBut due given)
    (hdue : ∀ k m m', m'.organization = m.organization → due k m → due k m')
    (hspare : ∀ k m, db.memberships.row k = some m → db.MemberKept k m →
      ∀ r ∈ m.automaticRoles, db.Entitled (m.without role) r) :
    (db.delete .role [⟨.role, role⟩] none).InOrderBut due (given.filter fun p => p.2 != role) := by
  have hrows := delete_role_rows db role
  obtain ⟨-, hroles⟩ := delete_role_tables db role
  have hbesides : Besides db (db.delete .role [⟨.role, role⟩] none) := delete_role_besides role
  have hentitled := fun m m' (hdropped : LostRoles [role] m m') r => delete_role_entitled db role hdropped r
  generalize db.delete .role [⟨.role, role⟩] none = d at hrows hroles hbesides hentitled ⊢
  have hscoped : ∀ k, d.isScoped k = db.isScoped k :=
    fun k => by simp only [DB.isScoped, hasGrants, hbesides.grants]
  refine ⟨fun k m' hm' => ?_, fun k m' hm' r hr => ?_, fun k m' hm' r hr => ?_, fun p hp => ?_,
    fun r x hx hname => ?_⟩
  · obtain ⟨m, hm, hdropped⟩ := hrows.before hm'
    rw [hscoped]
    refine (h.members k m hm).imp (fun hkept => ⟨fun hfull r hr => ?_, fun r hr => ?_⟩) fun hd =>
      ⟨hdue k m m' hdropped.organization hd.1, hd.2⟩
    · rw [hscoped] at hfull
      obtain ⟨hr, hne⟩ := (hentitled m m' hdropped r).mp hr
      exact (hdropped.roles r).mpr ⟨hkept.held hfull r (entitled_of_without hr), by simpa using hne⟩
    · obtain ⟨hr, hne⟩ := (hdropped.automatic r).mp hr
      obtain ⟨hheld, hfull, -⟩ := hkept.automatic r hr
      rw [hscoped]
      refine ⟨(hdropped.roles r).mpr ⟨hheld, hne⟩, hfull,
        (hentitled m m' hdropped r).mpr ⟨hspare k m hm hkept r hr, ?_⟩⟩
      simpa using hne
  · obtain ⟨m, hm, hdropped⟩ := hrows.before hm'
    obtain ⟨hr, hne⟩ := (hdropped.automatic r).mp hr
    rw [hroles, if_neg (by simpa using hne)]
    exact h.automatic k m hm r hr
  · obtain ⟨m, hm, hdropped⟩ := hrows.before hm'
    obtain ⟨hr, hne⟩ := (hdropped.roles r).mp hr
    rw [hroles, if_neg (by simpa using hne)]
    exact h.exist k m hm r hr
  · obtain ⟨hp, hne⟩ := List.mem_filter.mp hp
    obtain ⟨m, hm, hheld, hhand⟩ := h.given p hp
    obtain ⟨m', hm', hdropped⟩ := hrows.after hm
    refine ⟨m', hm', (hdropped.roles _).mpr ⟨hheld, by simpa using hne⟩, fun hr => ?_⟩
    exact hhand ((hdropped.automatic _).mp hr).1
  · rw [hroles] at hx
    split at hx
    · cases hx
    · exact h.apart r x hx hname

/-! ## Making a guest a full member -/

theorem collect_grant {grant : Pk} {r : Ref} (h : r ∈ db.collect [⟨.grant, grant⟩]) : r = ⟨.grant, grant⟩ := by
  cases Closure.mem_closure.mp h with
  | root hr => simpa using hr
  | hangs hn hp hreached =>
    rename_i p
    have hunder := hangsOn_under hp
    have hpin : p.model ∈ [Model.grant] := collect_within (by decide) (by simp) (Closure.mem_closure.mpr hreached)
    rw [List.mem_singleton.mp hpin] at hunder
    obtain ⟨model, pk⟩ := r
    cases model <;> simp [Model.under] at hunder

theorem delete_grant_eq {grant membership : Pk}
    (h : ∀ g, db.grants.row grant = some g → g.membership = membership) :
    db.delete .grant [⟨.grant, grant⟩] (some membership) = db.removeCascade [⟨.grant, grant⟩] := by
  have hlost : db.losesAdmin [⟨.grant, grant⟩] = [] := losesAdmin_eq_nil fun _ _ _ hgone => by
    cases collect_grant hgone
  have hhubs : (db.hubs.filter fun pk _ => (db.collect [⟨.grant, grant⟩]).contains ⟨.hub, pk⟩) = [] := by
    refine List.eq_nil_iff_forall_not_mem.mpr fun x hx => ?_
    cases collect_grant (by simpa using (mem_filter.mp hx).2 : (⟨.hub, x.1⟩ : Ref) ∈ db.collect [⟨.grant, grant⟩])
  unfold delete
  extract_lets gone grants hubs adminRoles held db₁ db₂
  have hdb₁ : db₁ = db.removeCascade [⟨.grant, grant⟩] := by
    show (db.removeCascade [⟨.grant, grant⟩]).syncAdmin (db.losesAdmin [⟨.grant, grant⟩]) = _
    rw [hlost, syncAdmin_nil]
  have hdb₂ : db₂ = db₁ := by
    refine foldl_invariant (P := fun d : DB => d = db₁) (fun g hg d hd => ?_) rfl
    have hgone := collect_grant
      (by simpa using (mem_filter.mp hg).2 : (⟨.grant, g.1⟩ : Ref) ∈ db.collect [⟨.grant, grant⟩])
    have hkey : g.1 = grant := congrArg Ref.pk hgone
    have hmembership : g.2.membership = membership := h g.2 (hkey ▸ (mem_filter.mp hg).1)
    rw [hd, hmembership]
    exact if_pos rfl
  rw [show hubs = [] from hhubs, hdb₂, hdb₁]
  rfl

/-- The grants `gone` were deleted, and nothing that roles are handed out by. -/
structure Ungranted (gone : List Pk) (db d : DB) : Prop where
  memberships : d.memberships = db.memberships
  roles : d.roles = db.roles
  organizations : d.organizations = db.organizations
  grants : ∀ k, d.grants.row k = if k ∈ gone then none else db.grants.row k

theorem remove_grant_ungranted (db : DB) (grant : Pk) :
    Ungranted [grant] db (db.removeCascade [⟨.grant, grant⟩]) := by
  have hne : ∀ model, model ≠ .grant → ∀ r ∈ db.collect [⟨.grant, grant⟩], r.model ≠ model := by
    intro model hmodel r hr heq
    rw [collect_grant hr] at heq
    exact hmodel heq.symm
  refine ⟨?_, ?_, ?_, fun k => ?_⟩ <;> simp only [removeCascade, remove]
  · rw [keep_eq_self fun pk _ => keeps_eq_true (hne _ (by decide)) pk]
    refine update_eq_self fun _ _ _ => ?_
    rw [keepList_eq_self (hne _ (by decide)), keepList_eq_self (hne _ (by decide)),
      keepList_eq_self (hne _ (by decide)),
      keepOpt_eq_self (hne _ (by decide))]
  · rw [keep_eq_self fun pk _ => keeps_eq_true (hne _ (by decide)) pk]
    exact update_eq_self fun _ _ _ => by rw [keepList_eq_self (hne _ (by decide))]
  · exact keep_eq_self fun pk _ => keeps_eq_true (hne _ (by decide)) pk
  · rw [update_eq_self fun _ _ _ =>
      by rw [keepOpt_eq_self (hne _ (by decide)), keepOpt_eq_self (hne _ (by decide))]]
    have hkeeps : keeps (db.collect [⟨.grant, grant⟩]) .grant k = !decide (k = grant) := by
      have hgone : (⟨.grant, k⟩ : Ref) ∈ db.collect [⟨.grant, grant⟩] ↔ k = grant := by
        constructor
        · intro hmem
          exact congrArg Ref.pk (collect_grant hmem)
        · rintro rfl
          exact mem_collect_root (List.mem_singleton_self _)
      simp [keeps, hgone]
    show (db.grants.row k).filter _ = _
    by_cases hk : k = grant
    · subst hk
      cases db.grants.row k <;> simp [hkeeps]
    · cases db.grants.row k <;> simp [hkeeps, hk]

theorem Ungranted.trans {gone more : List Pk} {e : DB} (h : Ungranted gone db d) (k : Ungranted more d e) :
    Ungranted (gone ++ more) db e := by
  refine ⟨k.memberships.trans h.memberships, k.roles.trans h.roles,
    k.organizations.trans h.organizations, fun pk => ?_⟩
  rw [k.grants, h.grants]
  by_cases hgone : pk ∈ gone <;> by_cases hmore : pk ∈ more <;> simp [hgone, hmore]

theorem deleteGrants_ungranted {membership : Pk} : ∀ (grants : List Pk) (db : DB),
    (∀ grant ∈ grants, ∀ g, db.grants.row grant = some g → g.membership = membership) →
      Ungranted grants db (db.deleteGrants grants (some membership))
  | [], db, _ => ⟨rfl, rfl, rfl, by simp [deleteGrants]⟩
  | grant :: grants, db, h => by
    have hfirst : Ungranted [grant] db (db.delete .grant [⟨.grant, grant⟩] (some membership)) := by
      rw [delete_grant_eq (h grant (by simp))]
      exact remove_grant_ungranted db grant
    refine hfirst.trans (deleteGrants_ungranted grants _ fun other hother g hg => ?_)
    rw [hfirst.grants] at hg
    split at hg
    · cases hg
    · exact h other (by simp [hother]) g hg

theorem mem_grantsOf {membership pk : Pk} {g : CollaborationGrant} (hg : db.grants.row pk = some g) :
    pk ∈ db.grantsOf membership ↔ g.membership = membership := by
  constructor
  · intro hpk
    obtain ⟨g', hg', hm⟩ := mem_pks.mp hpk
    rw [hg] at hg'
    cases hg'
    simpa using hm
  · intro hm
    exact mem_pks.mpr ⟨g, hg, by simpa using hm⟩

theorem upgradeToFull_ungranted (db : DB) (membership : Pk) :
    Ungranted (db.grantsOf membership) db (db.upgradeToFull membership) :=
  deleteGrants_ungranted _ db fun _ hgrant _ hg => (mem_grantsOf hg).mp hgrant

theorem upgradeToFull_isScoped (db : DB) (membership k : Pk) :
    (db.upgradeToFull membership).isScoped k = true ↔ db.isScoped k = true ∧ k ≠ membership := by
  simp only [DB.isScoped, hasGrants, exists?_eq_true, (upgradeToFull_ungranted db membership).grants, beq_iff_eq]
  constructor
  · rintro ⟨pk, g, hg, rfl⟩
    split at hg
    · cases hg
    · rename_i hpk
      exact ⟨⟨pk, g, hg, rfl⟩, fun heq => hpk ((mem_grantsOf hg).mpr heq)⟩
  · rintro ⟨⟨pk, g, hg, rfl⟩, hne⟩
    exact ⟨pk, g, by rw [if_neg fun hpk => hne ((mem_grantsOf hg).mp hpk), hg], rfl⟩

theorem InOrderBut.upgradeToFull {membership : Pk} (h : db.InOrder given)
    (hholds : ∀ m, db.memberships.row membership = some m → db.isScoped membership = true →
      ∀ r, db.Entitled m r → r ∈ m.roles) :
    (db.upgradeToFull membership).InOrder given := by
  have hungranted := upgradeToFull_ungranted db membership
  have hscoped := upgradeToFull_isScoped db membership
  generalize db.upgradeToFull membership = d at hungranted hscoped ⊢
  have hisAdmin : ∀ r, d.IsAdmin r ↔ db.IsAdmin r := fun r => by
    unfold IsAdmin
    rw [hungranted.roles]
  have hentitled : ∀ m r, d.Entitled m r ↔ db.Entitled m r := by
    intro m r
    have hadministers : d.administers m = db.administers m :=
      administers_congr hungranted.organizations rfl rfl fun r => and_congr_left fun _ => hisAdmin r
    unfold Entitled
    rw [hungranted.roles, hadministers]
  refine ⟨fun k m hm => .inl ?_, fun k m hm r hr => ?_, fun k m hm r hr => ?_, fun p hp => ?_, ?_⟩
  · rw [hungranted.memberships] at hm
    refine ⟨fun hfull r hr => ?_, fun r hr => ?_⟩
    · rw [hentitled] at hr
      cases hbefore : db.isScoped k with
      | false => exact (h.kept hm).held hbefore r hr
      | true =>
        -- a guest before, so they are the one made a full member
        have hk : k = membership := Classical.by_contradiction fun hne => by
          rw [(hscoped k).mpr ⟨hbefore, hne⟩] at hfull
          cases hfull
        subst hk
        exact hholds m hm hbefore r hr
    · obtain ⟨hheld, hfull, hr⟩ := (h.kept hm).automatic r hr
      refine ⟨hheld, ?_, (hentitled m r).mpr hr⟩
      rw [← Bool.not_eq_true, hscoped]
      simp [hfull]
  · rw [hungranted.memberships] at hm
    rw [hungranted.roles]
    exact h.automatic k m hm r hr
  · rw [hungranted.memberships] at hm
    rw [hungranted.roles]
    exact h.exist k m hm r hr
  · rw [hungranted.memberships]
    exact h.given p hp
  · unfold AdminApart
    rw [hungranted.roles]
    exact h.apart

/-! ## New members -/

theorem InOrderBut.insertMembership {due : Pk → Membership → Prop} {m : Membership} (h : db.InOrderBut due given)
    (hroles : m.roles = []) (hautomatic : m.automaticRoles = []) :
    ({ db with memberships := db.memberships.insert m } : DB).InOrderBut
      (fun k n => due k n ∨ k = db.memberships.next ∧ n = m) given := by
  have hrules : SameRules db { db with memberships := db.memberships.insert m } := ⟨rfl, rfl, rfl⟩
  refine ⟨fun k n hn => ?_, fun k n hn r hr => ?_, fun k n hn r hr => ?_, fun p hp => ?_, h.apart⟩
  · rcases insert_row_eq_some.mp hn with ⟨rfl, rfl⟩ | hn
    · cases hfull : db.isScoped db.memberships.next with
      | false => exact .inr ⟨.inr ⟨rfl, rfl⟩, hfull⟩
      | true =>
        refine .inl ⟨fun hno => ?_, by simp [hautomatic]⟩
        rw [hrules.isScoped, hfull] at hno
        cases hno
    · exact (h.members k n hn).imp (fun hkept => hkept.congr hrules (.refl n)) fun hd => ⟨.inl hd.1, hd.2⟩
  · rcases insert_row_eq_some.mp hn with ⟨rfl, rfl⟩ | hn
    · rw [hautomatic] at hr
      cases hr
    · exact h.automatic k n hn r hr
  · rcases insert_row_eq_some.mp hn with ⟨rfl, rfl⟩ | hn
    · rw [hroles] at hr
      cases hr
    · exact h.exist k n hn r hr
  · obtain ⟨n, hn, hheld⟩ := h.given p hp
    exact ⟨n, insert_row_of_some hn, hheld⟩

theorem InOrderBut.createMembership {user organization : Pk} {through : Option Pk} {r : DB × Pk}
    (h : db.InOrder given)
    (hok : db.createMembership user organization through = .ok r) :
    (r.1.syncServiceRoles [r.2]).InOrder given := by
  simp only [DB.createMembership, bind_ok, Table.get_ok, require_ok, exists_unit, pure_ok] at hok
  obtain ⟨_, -, _, -, -, rfl⟩ := hok
  have hnew := h.insertMembership (m := ⟨user, organization, [], false, through, [], []⟩) rfl rfl
  have hdue : ({ db with memberships := db.memberships.insert ⟨user, organization, [], false, through, [], []⟩ } :
      DB).InOrderBut (fun k _ => k = db.memberships.next) given := by
    refine hnew.mono ?_
    rintro k n - - (hno | ⟨hk, -⟩)
    · exact hno.elim
    · exact hk
  refine (hdue.syncServiceRoles [db.memberships.next] fun k n n' _ hk => hk).mono ?_
  rintro k n - - ⟨hk, hno⟩
  exact absurd (List.mem_singleton.mpr hk) hno

/-! ## A new owner -/

theorem InOrderBut.modifyOrganization {organization : Pk} {f : Organization → Organization}
    (h : db.InOrder given) :
    ({ db with organizations := db.organizations.modify organization f } : DB).InOrderBut
      (fun _ m => m.organization = organization) given := by
  refine ⟨fun k m hm => ?_, h.automatic, h.exist, h.given, h.apart⟩
  have hkept := h.kept hm
  by_cases ho : m.organization = organization
  · cases hfull : db.isScoped k with
    | false => exact .inr ⟨ho, hfull⟩
    | true => exact .inl (hkept.guest hfull hfull fun _ hr => hr)
  · have hadministers : ({ db with organizations := db.organizations.modify organization f } : DB).administers m
        = db.administers m := by
      show (((db.organizations.modify organization f).row m.organization).any _ || db.holdsAdmin m) = _
      rw [modify_row_of_ne ho]
      rfl
    have hentitled : ∀ r, ({ db with organizations := db.organizations.modify organization f } : DB).Entitled m r
        ↔ db.Entitled m r := by
      intro r
      unfold Entitled
      rw [hadministers]
    refine .inl ⟨fun hfull r hr => hkept.held hfull r ((hentitled r).mp hr), fun r hr => ?_⟩
    obtain ⟨hheld, hfull, hr⟩ := hkept.automatic r hr
    exact ⟨hheld, hfull, (hentitled r).mpr hr⟩

theorem InOrderBut.insertRole {due : Pk → Membership → Prop} {x : Role} (h : db.InOrderBut due given)
    (hadmin : x.isAdminRole = false) (hdefault : x.isDefaultRole = false) (hmaker : x.creatingInstance = none) :
    ({ db with roles := db.roles.insert x } : DB).InOrderBut due given := by
  have hold : ∀ r y, db.roles.row r = some y → (db.roles.insert x).row r = some y :=
    fun r y hy => insert_row_of_some hy
  have hback : ∀ r y, (db.roles.insert x).row r = some y → (∃ y', db.roles.row r = some y') →
    db.roles.row r = some y := by
    rintro r y hy ⟨y', hy'⟩
    rw [hold r y' hy'] at hy
    rw [hy', hy]
  have hentitled : ∀ k m, db.memberships.row k = some m → ∀ r,
      ({ db with roles := db.roles.insert x } : DB).Entitled m r ↔ db.Entitled m r := by
    intro k m hm r
    have hadministers : ({ db with roles := db.roles.insert x } : DB).administers m = db.administers m := by
      refine administers_congr rfl rfl rfl fun r => and_congr_left fun hr => ⟨?_, ?_⟩
      · rintro ⟨y, hy, hname⟩
        exact ⟨y, hback r y hy (h.exist k m hm r hr), hname⟩
      · rintro ⟨y, hy, hname⟩
        exact ⟨y, hold r y hy, hname⟩
    unfold Entitled
    rw [hadministers]
    constructor
    · rintro ⟨y, hy, ho, hflag⟩
      rcases insert_row_eq_some.mp hy with ⟨-, rfl⟩ | hy
      · rw [hadmin, hdefault] at hflag
        exact hflag.elim (fun h => nomatch h.1) fun h => nomatch h.1
      · exact ⟨y, hy, ho, hflag⟩
    · rintro ⟨y, hy, ho, hflag⟩
      exact ⟨y, hold r y hy, ho, hflag⟩
  refine ⟨fun k m hm => (h.members k m hm).imp_left fun hkept => ⟨fun hfull r hr => ?_, fun r hr => ?_⟩,
    fun k m hm r hr => ?_,
    fun k m hm r hr => ?_, h.given, fun r y hy hname => ?_⟩
  · exact hkept.held hfull r ((hentitled k m hm r).mp hr)
  · obtain ⟨hheld, hfull, hr⟩ := hkept.automatic r hr
    exact ⟨hheld, hfull, (hentitled k m hm r).mpr hr⟩
  · obtain ⟨y, hy, hname⟩ := h.automatic k m hm r hr
    exact ⟨y, hold r y hy, hname⟩
  · obtain ⟨y, hy⟩ := h.exist k m hm r hr
    exact ⟨y, hold r y hy⟩
  · rcases insert_row_eq_some.mp hy with ⟨-, rfl⟩ | hy
    · exact ⟨hadmin, hdefault, hmaker⟩
    · exact h.apart r y hy hname

theorem InOrderBut.getOrCreateRole {due : Pk → Membership → Prop} {identifier : String} {organization : Pk}
    (h : db.InOrderBut due given) : (db.getOrCreateRole identifier organization).1.InOrderBut due given := by
  unfold DB.getOrCreateRole
  split
  · exact h
  · exact h.insertRole rfl rfl rfl

theorem ensureScope_rules (db : DB) (organization : Pk) (identifier : String) (description : Option String)
    (isAll isBuiltin : Option Bool) :
    SameRules db (db.ensureScope organization identifier description isAll isBuiltin)
      ∧ (db.ensureScope organization identifier description isAll isBuiltin).memberships = db.memberships := by
  unfold ensureScope
  split <;> exact ⟨⟨rfl, rfl, rfl⟩, rfl⟩

theorem InOrderBut.createDefaultScopesForOrg {due : Pk → Membership → Prop} {organization : Pk}
    (h : db.InOrderBut due given) : (db.createDefaultScopesForOrg organization).InOrderBut due given := by
  unfold DB.createDefaultScopesForOrg
  refine foldl_invariant (P := fun d : DB => d.InOrderBut due given) (fun _ _ d hd => ?_)
    (foldl_invariant (P := fun d : DB => d.InOrderBut due given) (fun _ _ d hd => ?_) h)
  · obtain ⟨hrules, hmemberships⟩ := ensureScope_rules d organization _ _ _ _
    exact hd.same hrules hmemberships
  · obtain ⟨hrules, hmemberships⟩ := ensureScope_rules d organization _ _ _ _
    exact hd.same hrules hmemberships

theorem InOrderBut.syncOrganization {organization : Pk}
    (h : db.InOrderBut (fun _ m => m.organization = organization) given) :
    (db.syncOrganization organization).InOrder given := by
  unfold DB.syncOrganization
  refine (h.syncServiceRoles _ fun k m m' ho hm => ho.trans hm).mono ?_
  rintro k m' hm' - ⟨ho, hno⟩
  obtain ⟨m, hm, hless, -⟩ := (syncServiceRoles_rows h.apart _).before hm'
  exact hno (mem_pks.mpr ⟨m, hm, by simpa using hless.organization.symm.trans ho⟩)

theorem InOrderBut.ensureOwnerIsAdmin {organization : Pk}
    (h : db.InOrderBut (fun _ m => m.organization = organization) given)
    (hok : db.ensureOwnerIsAdmin organization = .ok d) : d.InOrder given := by
  simp only [DB.ensureOwnerIsAdmin, bind_ok, Table.get_ok, pure_ok, Prod.exists] at hok
  obtain ⟨o, -, e, membership, he, e', he', rfl⟩ := hok
  have hmember : e.InOrderBut (fun _ m => m.organization = organization) given := by
    unfold getOrCreateMembership at he
    split at he
    · cases he
      exact h
    · simp only [DB.createMembership, bind_ok, Table.get_ok, require_ok, exists_unit, pure_ok] at he
      obtain ⟨_, -, _, -, -, hnew⟩ := he
      cases hnew
      refine (h.insertMembership rfl rfl).mono ?_
      rintro k m - - (ho | ⟨-, rfl⟩)
      · exact ho
      · rfl
  have hrole : (e.getOrCreateRole adminRole organization).1.InOrderBut
    (fun _ m => m.organization = organization) given :=
    hmember.getOrCreateRole
  have hadded : e'.InOrderBut (fun _ m => m.organization = organization) (given ++ []) :=
    hrole.addRoles (fun k m m' ho hm => ho.trans hm) he' (by simp)
  rw [List.append_nil] at hadded
  exact hadded.syncOrganization

theorem InOrderBut.changeOrganizationOwner {user organization newOwner : Pk} (h : db.InOrder given)
    (hok : db.changeOrganizationOwner user organization newOwner = .ok d) : d.InOrder given := by
  simp only [DB.changeOrganizationOwner, saveOrganization, bind_ok, Table.get_ok, require_ok,
    exists_unit, pure_ok] at hok
  obtain ⟨o, -, -, -, e, he, rfl⟩ := hok
  exact (h.modifyOrganization.getOrCreateRole.getOrCreateRole.ensureOwnerIsAdmin he).createDefaultScopesForOrg

/-! ## A registration -/

theorem entitled_without {m : Membership} {r : Pk} (h : ¬ db.IsAdmin role) :
    db.Entitled (m.without role) r ↔ db.Entitled m r := by
  refine ⟨entitled_of_without, ?_⟩
  rintro ⟨x, hx, ho, hflag⟩
  refine ⟨x, hx, ho, hflag.imp_left (And.imp_right fun hadministers => ?_)⟩
  unfold administers at hadministers ⊢
  rw [Bool.or_eq_true] at hadministers ⊢
  refine hadministers.imp_right fun hholds => ?_
  obtain ⟨r, hr, hadmin⟩ := holdsAdmin_iff_isAdmin.mp hholds
  refine holdsAdmin_iff_isAdmin.mpr ⟨r, mem_removePks.mpr ⟨hr, ?_⟩, hadmin⟩
  simpa using fun heq : r = role => h (heq ▸ hadmin)

/-- Only what lok hands out of the roles of one organization changed: the sync of its members is due. -/
theorem InOrderBut.modifyRoles {due : Pk → Membership → Prop} (organization : Pk) {t : Table Role}
    (h : db.InOrderBut due given)
    (hkept : ∀ r x, db.roles.row r = some x → ∃ y, t.row r = some y ∧ y.organization = x.organization
      ∧ y.identifier = x.identifier ∧ y.creatingInstance = x.creatingInstance
      ∧ (x.organization = organization ∧ x.identifier ≠ adminRole
        ∨ y.isAdminRole = x.isAdminRole ∧ y.isDefaultRole = x.isDefaultRole))
    (hnew : ∀ r y, t.row r = some y → db.roles.row r = none →
      y.organization = organization ∧ y.identifier ≠ adminRole) :
    ({ db with roles := t } : DB).InOrderBut (fun k m => due k m ∨ m.organization = organization) given := by
  have hisAdmin : ∀ r, ({ db with roles := t } : DB).IsAdmin r ↔ db.IsAdmin r := by
    intro r
    constructor
    · rintro ⟨y, hy, hname⟩
      cases hx : db.roles.row r with
      | none => exact absurd hname (hnew r y hy hx).2
      | some x =>
        obtain ⟨y', hy', -, hid, -⟩ := hkept r x hx
        have hy : t.row r = some y := hy
        rw [hy] at hy'
        cases hy'
        exact ⟨x, hx, hid.symm.trans hname⟩
    · rintro ⟨x, hx, hname⟩
      obtain ⟨y, hy, -, hid, -⟩ := hkept r x hx
      exact ⟨y, hy, hid.trans hname⟩
  have hentitled : ∀ m : Membership, m.organization ≠ organization →
      ∀ r, ({ db with roles := t } : DB).Entitled m r ↔ db.Entitled m r := by
    intro m hne r
    have hadministers : ({ db with roles := t } : DB).administers m = db.administers m :=
      administers_congr rfl rfl rfl fun r => and_congr_left fun _ => hisAdmin r
    unfold Entitled
    rw [hadministers]
    constructor
    · rintro ⟨y, hy, ho, hflag⟩
      cases hx : db.roles.row r with
      | none => exact absurd (ho.symm.trans (hnew r y hy hx).1) hne
      | some x =>
        obtain ⟨y', hy', ho', -, -, hflags⟩ := hkept r x hx
        have hy : t.row r = some y := hy
        rw [hy] at hy'
        cases hy'
        rcases hflags with ⟨hhome, -⟩ | ⟨hadmin, hdefault⟩
        · exact absurd (ho.symm.trans (ho'.trans hhome)) hne
        · exact ⟨x, rfl, ho'.symm.trans ho, by rwa [hadmin, hdefault] at hflag⟩
    · rintro ⟨x, hx, ho, hflag⟩
      obtain ⟨y, hy, ho', -, -, hflags⟩ := hkept r x hx
      rcases hflags with ⟨hhome, -⟩ | ⟨hadmin, hdefault⟩
      · exact absurd (ho.symm.trans hhome) hne
      · exact ⟨y, hy, ho'.trans ho, by rwa [hadmin, hdefault]⟩
  refine ⟨fun k m hm => ?_, fun k m hm r hr => ?_, fun k m hm r hr => ?_, h.given, fun r y hy hname => ?_⟩
  · rcases h.members k m hm with hkept | ⟨hd, hfull⟩
    · by_cases ho : m.organization = organization
      · cases hfull : db.isScoped k with
        | false => exact .inr ⟨.inr ho, hfull⟩
        | true => exact .inl (hkept.guest hfull hfull fun _ hr => hr)
      · refine .inl ⟨fun hfull r hr => hkept.held hfull r ((hentitled m ho r).mp hr), fun r hr => ?_⟩
        obtain ⟨hheld, hfull, hr⟩ := hkept.automatic r hr
        exact ⟨hheld, hfull, (hentitled m ho r).mpr hr⟩
    · exact .inr ⟨.inl hd, hfull⟩
  · obtain ⟨x, hx, hname⟩ := h.automatic k m hm r hr
    obtain ⟨y, hy, -, hid, -⟩ := hkept r x hx
    exact ⟨y, hy, fun hno => hname (hid.symm.trans hno)⟩
  · obtain ⟨x, hx⟩ := h.exist k m hm r hr
    obtain ⟨y, hy, -⟩ := hkept r x hx
    exact ⟨y, hy⟩
  · cases hx : db.roles.row r with
    | none => exact absurd hname (hnew r y hy hx).2
    | some x =>
      obtain ⟨y', hy', -, hid, hmaker, hflags⟩ := hkept r x hx
      have hy : t.row r = some y := hy
      rw [hy] at hy'
      cases hy'
      have hname' : x.identifier = adminRole := hid.symm.trans hname
      rcases hflags with ⟨-, hno⟩ | ⟨hadmin, hdefault⟩
      · exact absurd hname' hno
      · rw [hadmin, hdefault, hmaker]
        exact h.apart r x hx hname'

section

variable {instance_ organization : Pk} {roles : List RoleDeclaration} {scopes : List ScopeDeclaration}

/-- The sync of an organization's members is due. -/
abbrev Registering (organization : Pk) (db : DB) (given : List (Pk × Pk)) : Prop :=
  db.InOrderBut (fun _ m => m.organization = organization) given

/-- Declared as `admin` is at most the organization's own admin role, and not to be handed out. -/
def LeavesAdminApart (db : DB) (organization : Pk) (roles : List RoleDeclaration) : Prop :=
  ∀ x ∈ roles, x.key = adminRole → x.isAdminRole = false ∧ x.isDefaultRole = false
    ∧ ∃ r y, db.roles.row r = some y ∧ y.organization = organization ∧ y.identifier = adminRole

theorem AdminApart.declareRole {x : RoleDeclaration} (h : d.AdminApart)
    (hx : d.LeavesAdminApart organization [x]) :
    (declareRole instance_ organization d x).AdminApart := by
  unfold DB.declareRole
  split
  · rename_i pk y hfirst
    obtain ⟨hy, hp⟩ := first_eq_some hfirst
    simp only [Bool.and_eq_true, beq_iff_eq] at hp
    intro r z hz hname
    rcases modify_row_eq_some.mp hz with ⟨-, hz⟩ | ⟨rfl, z, hz₀, rfl⟩
    · exact h r z hz hname
    · rw [hy] at hz₀
      cases hz₀
      obtain ⟨hadmin, hdefault, -⟩ := hx x (List.mem_singleton_self x) (hp.2.symm.trans hname)
      exact ⟨hadmin, hdefault, (h r y hy hname).2.2⟩
  · rename_i hnone
    intro r z hz hname
    rcases insert_row_eq_some.mp hz with ⟨-, rfl⟩ | hz
    · obtain ⟨-, -, pk, y, hy, ho, hadmin⟩ := hx x (List.mem_singleton_self x) hname
      have hother := first_eq_none.mp hnone pk y hy
      have hname : x.key = adminRole := hname
      rw [ho, hadmin, hname] at hother
      simp at hother
    · exact h r z hz hname

theorem AdminApart.declareRoles : ∀ (roles : List RoleDeclaration) {d : DB}, d.AdminApart →
    d.LeavesAdminApart organization roles → (roles.foldl (DB.declareRole instance_ organization) d).AdminApart
  | [], _, h, _ => h
  | x :: roles, d, h, hroles => by
    refine AdminApart.declareRoles roles (h.declareRole fun y hy => hroles y (by simp_all)) fun y hy hname => ?_
    obtain ⟨hadmin, hdefault, r, z, hz, ho, hz'⟩ := hroles y (by simp [hy]) hname
    obtain ⟨t, ht, hdeclared⟩ := declareRole_declared instance_ organization d x
    obtain ⟨z', hkept, hsame, -⟩ := hdeclared.kept r z hz
    refine ⟨hadmin, hdefault, r, z', ?_, hsame.1.trans ho, hsame.2.1.trans hz'⟩
    rw [ht]
    exact hkept

theorem InOrderBut.declared (h : db.InOrder given) (hkeys : db.LeavesAdminApart organization roles) :
    (db.declared instance_ organization roles scopes).Registering organization given := by
  have hapart : (db.declared instance_ organization roles scopes).AdminApart := by
    obtain ⟨u, hu, -⟩ := declareScopes_declared instance_ organization scopes
      (roles.foldl (DB.declareRole instance_ organization) db)
    unfold DB.declared
    rw [hu]
    exact AdminApart.declareRoles roles h.apart hkeys
  obtain ⟨t, u, hd, hdeclared, -⟩ := declared_spec instance_ organization db roles scopes
  rw [hd] at hapart ⊢
  have hroles : ({ db with roles := t } : DB).Registering organization given := by
    refine (h.modifyRoles organization (fun r x hx => ?_) fun r y hy hnone => ?_).mono ?_
    · obtain ⟨y, hy, hsame, -, -, hflags⟩ := hdeclared.kept r x hx
      refine ⟨y, hy, hsame.1, hsame.2.1, hsame.2.2, ?_⟩
      rcases hflags with hat | rfl
      · by_cases hname : x.identifier = adminRole
        · obtain ⟨hadmin, hdefault, -⟩ := h.apart r x hx hname
          obtain ⟨hadmin', hdefault', -⟩ := hapart r y hy (hsame.2.1.trans hname)
          exact .inr ⟨hadmin'.trans hadmin.symm, hdefault'.trans hdefault.symm⟩
        · exact .inl ⟨hat.1, hname⟩
      · exact .inr ⟨rfl, rfl⟩
    · obtain ⟨hat, hmaker, -⟩ := hdeclared.new r y hy hnone
      refine ⟨hat.1, fun hname => ?_⟩
      have hnomaker : Role.view.maker y = none := (hapart r y hy hname).2.2
      rw [hnomaker] at hmaker
      cases hmaker
    · rintro k m - - (hno | ho)
      · exact hno.elim
      · exact ho
  exact hroles.same ⟨rfl, rfl, rfl⟩ rfl

theorem undeclareRole_roles_none (d : DB) {r : Pk} (h : d.roles.row r = none) :
    (undeclareRole instance_ d role).roles.row r = none := by
  obtain ⟨-, -, hundeclared⟩ := undeclareRole_undeclared instance_ d role
  exact hundeclared.old r h

/-- The gifts of roles that are still there. -/
def standing (db : DB) (given : List (Pk × Pk)) : List (Pk × Pk) := given.filter fun p => (db.roles.row p.2).isSome

theorem InOrderBut.undeclareRole (h : db.Registering organization given) :
    (undeclareRole instance_ db role).Registering organization
    ((undeclareRole instance_ db role).standing given) := by
  have hsignedOff : ({ db with
      roles := db.roles.modify role fun x => { x with usedBy := removePks x.usedBy [instance_] } } : DB).Registering
      organization given := by
    refine (h.modifyRoles organization (fun r x hx => ?_) fun r y hy hnone => ?_).mono ?_
    · by_cases hr : r = role
      · subst hr
        refine ⟨{ x with usedBy := removePks x.usedBy [instance_] }, ?_, rfl, rfl, rfl, .inr ⟨rfl, rfl⟩⟩
        rw [modify_row_self, hx, Option.map_some]
      · exact ⟨x, by rw [modify_row_of_ne hr, hx], rfl, rfl, rfl, .inr ⟨rfl, rfl⟩⟩
    · rw [modify_row, hnone] at hy
      simp at hy
    · rintro k m - - (ho | ho) <;> exact ho
  unfold DB.undeclareRole
  generalize ({ db with
      roles := db.roles.modify role fun x => { x with usedBy := removePks x.usedBy [instance_] } } : DB) = d
    at hsignedOff ⊢
  dsimp only
  split
  · rename_i hgoes
    -- only a service's role goes, and that is not the admin role
    have hnot : ¬ d.IsAdmin role := by
      rintro ⟨x, hx, hname⟩
      rw [hx] at hgoes
      simp [(hsignedOff.apart role x hx hname).2.2] at hgoes
    refine (hsignedOff.deleteRole (fun k m m' ho hm => ho.trans hm) fun k m _ hkept r hr => ?_).subset
      fun p hp => ?_
    · exact (entitled_without hnot).mpr (hkept.automatic r hr).2.2
    · obtain ⟨hp, hstands⟩ := List.mem_filter.mp hp
      refine List.mem_filter.mpr ⟨hp, ?_⟩
      rw [(d.delete_role_tables role).2] at hstands
      rw [bne_iff_ne]
      intro heq
      rw [if_pos heq] at hstands
      cases hstands
  · exact hsignedOff.subset fun p hp => (List.mem_filter.mp hp).1

theorem InOrderBut.undeclareRoles :
    ∀ (pks : List Pk) {db : DB} {given : List (Pk × Pk)}, db.Registering organization given →
    (pks.foldl (DB.undeclareRole instance_) db).Registering organization
      ((pks.foldl (DB.undeclareRole instance_) db).standing given)
  | [], _, _, h => h.subset fun _ hp => (List.mem_filter.mp hp).1
  | pk :: pks, db, given, h => by
    have hfirst : (DB.undeclareRole instance_ db pk).Registering organization
      ((DB.undeclareRole instance_ db pk).standing given) :=
      h.undeclareRole
    refine (undeclareRoles pks hfirst).subset fun p hp => ?_
    obtain ⟨hp, hstands⟩ := List.mem_filter.mp hp
    refine List.mem_filter.mpr ⟨List.mem_filter.mpr ⟨hp, ?_⟩, hstands⟩
    rw [← Option.ne_none_iff_isSome]
    intro hnone
    have hgone := foldl_invariant (f := DB.undeclareRole instance_) (P := fun d : DB => d.roles.row p.2 = none)
      (l := pks) (fun _ _ d hd => undeclareRole_roles_none d hd) hnone
    rw [List.foldl_cons, hgone] at hstands
    cases hstands

theorem InOrderBut.registerPermissions (h : db.InOrder given) (hkeys : db.LeavesAdminApart organization roles) :
    (db.registerPermissions instance_ organization roles scopes).InOrder
      ((db.registerPermissions instance_ organization roles scopes).standing given) := by
  have hregistered : (db.registered instance_ organization roles scopes).Registering organization
      ((db.registered instance_ organization roles scopes).standing given) := by
    have hsigned : ((db.declared instance_ organization roles scopes).signOffRoles instance_ organization
      roles).Registering
        organization (((db.declared instance_ organization roles scopes).signOffRoles instance_ organization
          roles).standing given) :=
      InOrderBut.undeclareRoles _ (h.declared hkeys)
    obtain ⟨_, -, hbesides, hroles, hmemberships, -⟩ := signOffScopes_spec instance_ organization
      ((db.declared instance_ organization roles scopes).signOffRoles instance_ organization roles) scopes
    have hsame := hsigned.same ⟨hroles, hbesides.organizations, hbesides.grants⟩ hmemberships
    unfold registered standing
    rw [hroles]
    exact hsame
  have hroles := (registerPermissions_spec instance_ organization db roles scopes).2.1
  unfold standing
  rw [hroles]
  exact hregistered.syncOrganization

end

end DB

end Lok
