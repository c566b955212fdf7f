import Lok.RoleWrites

/-!
# The roles lok hands out

What a member is entitled to is read from the roles of the organization, its owner, the
member's own roles and the ones an admin withheld from them. A sync gives exactly that, and
takes back what lok gave and the member is not entitled to any more; in between, only the
members whose sync is due can lack something.
-/

namespace Lok

open Table Checks

namespace DB

variable {db d : DB}

/-! ## What a member is entitled to -/

/-- They own the organization, or hold `admin`. -/
def administers (db : DB) (m : Membership) : Bool :=
  (db.organizations.row m.organization).any (·.owner == m.user) || db.holdsAdmin m

/-- A role lok hands a full member: a service's admin role if they administer the organization, a default
one unless it was withheld. -/
def Entitled (db : DB) (m : Membership) (r : Pk) : Prop :=
  ∃ x, db.roles.row r = some x ∧ x.organization = m.organization
    ∧ (x.isAdminRole = true ∧ db.administers m = true ∨ x.isDefaultRole = true ∧ r ∉ m.withheldRoles)

/-- The role under this key is named `admin`. -/
def IsAdmin (db : DB) (r : Pk) : Prop := ∃ x, db.roles.row r = some x ∧ x.identifier = adminRole

/-- The admin role is the organization's own: no service made it, and lok hands it to nobody. -/
def AdminApart (db : DB) : Prop :=
  ∀ r x, db.roles.row r = some x → x.identifier = adminRole →
    x.isAdminRole = false ∧ x.isDefaultRole = false ∧ x.creatingInstance = none

theorem holdsAdmin_iff_isAdmin {m : Membership} : db.holdsAdmin m = true ↔ ∃ r ∈ m.roles, db.IsAdmin r := by
  unfold holdsAdmin IsAdmin
  rw [List.any_eq_true]
  refine exists_congr fun r => and_congr_right fun _ => ?_
  cases db.roles.row r <;> simp

theorem AdminApart.entitled (h : db.AdminApart) {m : Membership} {r : Pk} (hr : db.Entitled m r) :
    ∃ x, db.roles.row r = some x ∧ x.identifier ≠ adminRole := by
  obtain ⟨x, hx, -, hflag⟩ := hr
  refine ⟨x, hx, fun hname => ?_⟩
  obtain ⟨hadmin, hdefault, -⟩ := h r x hx hname
  rcases hflag with ⟨hflag, -⟩ | ⟨hflag, -⟩
  · rw [hadmin] at hflag
    cases hflag
  · rw [hdefault] at hflag
    cases hflag

theorem not_isAdmin {r : Pk} (h : ∃ x, db.roles.row r = some x ∧ x.identifier ≠ adminRole) : ¬ db.IsAdmin r := by
  rintro ⟨y, hy, hname⟩
  obtain ⟨x, hx, hne⟩ := h
  rw [hy] at hx
  cases hx
  exact hne hname

theorem AdminApart.not_isAdmin (h : db.AdminApart) {m : Membership} {r : Pk} (hr : db.Entitled m r) :
    ¬ db.IsAdmin r :=
  DB.not_isAdmin (h.entitled hr)

theorem administers_congr {m m' : Membership} (horganizations : d.organizations = db.organizations)
    (huser : m'.user = m.user) (horganization : m'.organization = m.organization)
    (hroles : ∀ r, d.IsAdmin r ∧ r ∈ m'.roles ↔ db.IsAdmin r ∧ r ∈ m.roles) :
    d.administers m' = db.administers m := by
  have hholds : d.holdsAdmin m' = db.holdsAdmin m := by
    rw [Bool.eq_iff_iff, holdsAdmin_iff_isAdmin, holdsAdmin_iff_isAdmin]
    constructor
    · rintro ⟨r, hr, hadmin⟩
      obtain ⟨hadmin, hr⟩ := (hroles r).mp ⟨hadmin, hr⟩
      exact ⟨r, hr, hadmin⟩
    · rintro ⟨r, hr, hadmin⟩
      obtain ⟨hadmin, hr⟩ := (hroles r).mpr ⟨hadmin, hr⟩
      exact ⟨r, hr, hadmin⟩
  unfold administers
  rw [horganizations, huser, horganization, hholds]

/-! ## One sync -/

/-- All but the cached flag is as it was. -/
structure SameRoles (m m' : Membership) : Prop where
  user : m'.user = m.user
  organization : m'.organization = m.organization
  roles : m'.roles = m.roles
  automatic : m'.automaticRoles = m.automaticRoles
  withheld : m'.withheldRoles = m.withheldRoles

theorem SameRoles.refl (m : Membership) : SameRoles m m := ⟨rfl, rfl, rfl, rfl, rfl⟩

theorem SameRoles.trans {a b c : Membership} (h : SameRoles a b) (k : SameRoles b c) : SameRoles a c :=
  ⟨k.user.trans h.user, k.organization.trans h.organization, k.roles.trans h.roles, k.automatic.trans h.automatic,
    k.withheld.trans h.withheld⟩

/-- What a sync makes of a full member. -/
structure Synced (db : DB) (m m' : Membership) : Prop where
  user : m'.user = m.user
  organization : m'.organization = m.organization
  withheld : m'.withheldRoles = m.withheldRoles
  roles : ∀ r, r ∈ m'.roles ↔ (r ∈ m.roles ∨ db.Entitled m r) ∧ ¬ (r ∈ m.automaticRoles ∧ ¬ db.Entitled m r)
  automatic : ∀ r, r ∈ m'.automaticRoles ↔
    db.Entitled m r ∧ (r ∈ m.automaticRoles ∧ r ∈ m.roles ∨ r ∉ m.automaticRoles ∧ r ∉ m.roles)

theorem mem_serviceRoles {organization r : Pk} {p : Role → Bool} :
    r ∈ db.serviceRoles organization p ↔ ∃ x, db.roles.row r = some x ∧ x.organization = organization
    ∧ p x = true := by
  unfold serviceRoles
  rw [mem_pks]
  simp only [Bool.and_eq_true, beq_iff_eq]

theorem mem_wanted {m : Membership} {r : Pk} :
    r ∈ (if db.administers m then db.serviceRoles m.organization (·.isAdminRole) else [])
        ++ removePks (db.serviceRoles m.organization (·.isDefaultRole)) m.withheldRoles ↔ db.Entitled m r := by
  have hadmin : r ∈ (if db.administers m then db.serviceRoles m.organization (·.isAdminRole) else [])
      ↔ db.administers m = true ∧ r ∈ db.serviceRoles m.organization (·.isAdminRole) := by
    split <;> rename_i h <;> simp [h]
  rw [List.mem_append, hadmin, mem_removePks, mem_serviceRoles, mem_serviceRoles]
  unfold Entitled
  constructor
  · rintro (⟨h, x, hx, ho, hflag⟩ | ⟨⟨x, hx, ho, hflag⟩, h⟩)
    · exact ⟨x, hx, ho, .inl ⟨hflag, h⟩⟩
    · exact ⟨x, hx, ho, .inr ⟨hflag, h⟩⟩
  · rintro ⟨x, hx, ho, ⟨hflag, h⟩ | ⟨hflag, h⟩⟩
    · exact .inl ⟨h, x, hx, ho, hflag⟩
    · exact .inr ⟨⟨x, hx, ho, hflag⟩, h⟩

theorem syncAdmin_rows (db : DB) (l : List Pk) :
    Rewrites (fun _ => SameRoles) db.memberships (db.syncAdmin l).memberships :=
  .update fun _ m _ => by
    split
    · exact ⟨rfl, rfl, rfl, rfl, rfl⟩
    · exact .refl m

theorem syncMembership_rows (db : DB) (pk : Pk) :
    Rewrites (fun k m m' => (k = pk → Synced db m m') ∧ (k ≠ pk → SameRoles m m')) db.memberships
      (db.syncMembership pk).memberships := by
  unfold syncMembership
  split
  · rename_i hnone
    refine ⟨rfl, fun k => ?_⟩
    cases hk : db.memberships.row k with
    | none => exact .none
    | some m =>
      refine .some ⟨?_, fun _ => .refl m⟩
      rintro rfl
      rw [hnone] at hk
      cases hk
  · rename_i m hm
    extract_lets adminRoles defaultRoles administers wanted give take stale db₁
    have hwanted : ∀ r, r ∈ wanted ↔ db.Entitled m r := fun r => mem_wanted
    have hrows : Rewrites (fun k m m' => (k = pk → Synced db m m') ∧ (k ≠ pk → SameRoles m m')) db.memberships
        db₁.memberships := by
      refine .update fun k m' hk => ?_
      dsimp only
      by_cases hpk : k = pk
      · subst hpk
        rw [hm] at hk
        cases hk
        rw [if_pos rfl]
        refine ⟨fun _ => ⟨rfl, rfl, rfl, fun r => ?_, fun r => ?_⟩, fun hne => absurd rfl hne⟩
        · simp only [mem_removePks, mem_addPks, take, give, List.mem_filter, List.contains_eq_mem,
            decide_eq_true_eq, hwanted]
          tauto
        · simp only [mem_removePks, mem_addPks, take, give, stale, List.mem_append, List.mem_filter,
            List.contains_eq_mem,
            decide_eq_true_eq, hwanted]
          tauto
      · rw [if_neg hpk]
        exact ⟨fun h => absurd h hpk, fun _ => .refl m'⟩
    split
    · exact hrows
    · refine (hrows.comp (syncAdmin_rows db₁ [pk])).mono ?_
      rintro k m m' ⟨m₁, h₁, h₂⟩
      refine ⟨fun hk => ?_, fun hk => (h₁.2 hk).trans h₂⟩
      have hsynced := h₁.1 hk
      exact ⟨h₂.user.trans hsynced.user, h₂.organization.trans hsynced.organization,
        h₂.withheld.trans hsynced.withheld,
        fun r => by rw [h₂.roles]; exact hsynced.roles r, fun r => by rw [h₂.automatic]; exact hsynced.automatic r⟩

/-! ## Members in order, and members whose sync is due -/

/-- A full member holds what they are entitled to, and what lok gave is held and still due to them. -/
structure MemberKept (db : DB) (k : Pk) (m : Membership) : Prop where
  held : db.isScoped k = false → ∀ r, db.Entitled m r → r ∈ m.roles
  automatic : ∀ r ∈ m.automaticRoles, r ∈ m.roles ∧ db.isScoped k = false ∧ db.Entitled m r

/-- The memberships are in order but for the full members whose sync is `due`; `given` are the roles an
admin gave by hand and nobody took away, with who got them. -/
structure InOrderBut (due : Pk → Membership → Prop) (db : DB) (given : List (Pk × Pk)) : Prop where
  members : ∀ k m, db.memberships.row k = some m → db.MemberKept k m ∨ due k m ∧ db.isScoped k = false
  automatic : ∀ k m, db.memberships.row k = some m → ∀ r ∈ m.automaticRoles,
    ∃ x, db.roles.row r = some x ∧ x.identifier ≠ adminRole
  exist : ∀ k m, db.memberships.row k = some m → ∀ r ∈ m.roles, ∃ x, db.roles.row r = some x
  given : ∀ p ∈ given, ∃ m, db.memberships.row p.1 = some m ∧ p.2 ∈ m.roles ∧ p.2 ∉ m.automaticRoles
  apart : db.AdminApart

/-- What a member is entitled to is read from. -/
structure SameRules (db d : DB) : Prop where
  roles : d.roles = db.roles
  organizations : d.organizations = db.organizations
  grants : d.grants = db.grants

theorem SameRules.isAdmin (h : SameRules db d) (r : Pk) : d.IsAdmin r ↔ db.IsAdmin r := by
  unfold IsAdmin
  rw [h.roles]

theorem SameRules.isScoped (h : SameRules db d) (k : Pk) : d.isScoped k = db.isScoped k := by
  simp only [DB.isScoped, hasGrants, h.grants]

theorem SameRules.entitled (h : SameRules db d) {m m' : Membership}
    (horganization : m'.organization = m.organization)
    (hwithheld : m'.withheldRoles = m.withheldRoles)
    (hadministers : d.administers m' = db.administers m) (r : Pk) :
    d.Entitled m' r ↔ db.Entitled m r := by
  unfold Entitled
  rw [h.roles, horganization, hwithheld, hadministers]

theorem SameRules.administers (h : SameRules db d) {m m' : Membership} (huser : m'.user = m.user)
    (horganization : m'.organization = m.organization)
    (hroles : ∀ r, db.IsAdmin r → (r ∈ m'.roles ↔ r ∈ m.roles)) :
    d.administers m' = db.administers m := by
  refine administers_congr h.organizations huser horganization fun r => ?_
  rw [h.isAdmin]
  exact and_congr_right fun hr => hroles r hr

theorem MemberKept.congr (hrules : SameRules db d) {k : Pk} {m m' : Membership} (h : db.MemberKept k m)
    (hsame : SameRoles m m') : d.MemberKept k m' := by
  have hentitled : ∀ r, d.Entitled m' r ↔ db.Entitled m r :=
    hrules.entitled hsame.organization hsame.withheld
      (hrules.administers hsame.user hsame.organization fun r _ => by rw [hsame.roles])
  refine ⟨fun hfull r hr => ?_, fun r hr => ?_⟩
  · rw [hrules.isScoped] at hfull
    rw [hsame.roles]
    exact h.held hfull r ((hentitled r).mp hr)
  · rw [hsame.automatic] at hr
    rw [hsame.roles, hrules.isScoped, hentitled]
    exact h.automatic r hr

theorem MemberKept.guest {k : Pk} {m m' : Membership} (h : db.MemberKept k m) (hguest : db.isScoped k = true)
    (hguest' : d.isScoped k = true) (hautomatic : ∀ r ∈ m'.automaticRoles, r ∈ m.automaticRoles) :
    d.MemberKept k m' := by
  refine ⟨fun hfull => ?_, fun r hr => ?_⟩
  · rw [hguest'] at hfull
    cases hfull
  · have hfull := (h.automatic r (hautomatic r hr)).2.1
    rw [hguest] at hfull
    cases hfull

theorem Synced.kept (hrules : SameRules db d) (hapart : db.AdminApart) {k : Pk} {m m' : Membership}
    (h : Synced db m m')
    (hautomatic : ∀ r ∈ m.automaticRoles, ¬ db.IsAdmin r) (hfull : db.isScoped k = false) : d.MemberKept k m' := by
  have hroles : ∀ r, db.IsAdmin r → (r ∈ m'.roles ↔ r ∈ m.roles) := by
    intro r hadmin
    have hr : ¬ db.Entitled m r := fun hr => hapart.not_isAdmin hr hadmin
    have hr' : r ∉ m.automaticRoles := fun hr => hautomatic r hr hadmin
    rw [h.roles r]
    tauto
  have hentitled : ∀ r, d.Entitled m' r ↔ db.Entitled m r :=
    hrules.entitled h.organization h.withheld (hrules.administers h.user h.organization hroles)
  refine ⟨fun _ r hr => ?_, fun r hr => ?_⟩
  · rw [hentitled] at hr
    exact (h.roles r).mpr ⟨.inr hr, fun hno => hno.2 hr⟩
  · obtain ⟨hr, hheld⟩ := (h.automatic r).mp hr
    refine ⟨(h.roles r).mpr ⟨.inr hr, fun hno => hno.2 hr⟩, ?_, (hentitled r).mpr hr⟩
    rw [hrules.isScoped]
    exact hfull

theorem InOrderBut.syncMembership {due : Pk → Membership → Prop} {given : List (Pk × Pk)}
    (h : db.InOrderBut due given) {pk : Pk}
    (hfull : db.isScoped pk = false) (hdue : ∀ k m m', m'.organization = m.organization → due k m → due k m') :
    (db.syncMembership pk).InOrderBut (fun k m => due k m ∧ k ≠ pk) given := by
  have hrows := syncMembership_rows db pk
  obtain ⟨t, ht⟩ := syncMembership_eq db pk
  rw [ht] at hrows ⊢
  have hrules : SameRules db { db with memberships := t } := ⟨rfl, rfl, rfl⟩
  refine ⟨fun k m' hm' => ?_, fun k m' hm' r hr => ?_, fun k m' hm' r hr => ?_, fun p hp => ?_, h.apart⟩
  · obtain ⟨m, hm, hsynced, hsame⟩ := hrows.before hm'
    by_cases hk : k = pk
    · subst hk
      exact .inl ((hsynced rfl).kept hrules h.apart (fun r hr => not_isAdmin (h.automatic k m hm r hr)) hfull)
    · rcases h.members k m hm with hkept | ⟨hd, hscoped⟩
      · exact .inl (hkept.congr hrules (hsame hk))
      · exact .inr ⟨⟨hdue k m m' (hsame hk).organization hd, hk⟩, hscoped⟩
  · obtain ⟨m, hm, hsynced, hsame⟩ := hrows.before hm'
    by_cases hk : k = pk
    · exact h.apart.entitled (((hsynced hk).automatic r).mp hr).1
    · rw [(hsame hk).automatic] at hr
      exact h.automatic k m hm r hr
  · obtain ⟨m, hm, hsynced, hsame⟩ := hrows.before hm'
    by_cases hk : k = pk
    · rcases (((hsynced hk).roles r).mp hr).1 with hr | ⟨x, hx, -⟩
      · exact h.exist k m hm r hr
      · exact ⟨x, hx⟩
    · rw [(hsame hk).roles] at hr
      exact h.exist k m hm r hr
  · obtain ⟨m, hm, hheld, hhand⟩ := h.given p hp
    obtain ⟨m', hm', hsynced, hsame⟩ := hrows.after hm
    refine ⟨m', hm', ?_⟩
    by_cases hk : p.1 = pk
    · refine ⟨((hsynced hk).roles _).mpr ⟨.inl hheld, fun hno => hhand hno.1⟩, fun hauto => ?_⟩
      rcases (((hsynced hk).automatic _).mp hauto).2 with hno | hno
      · exact hhand hno.1
      · exact hno.2 hheld
    · rw [(hsame hk).roles, (hsame hk).automatic]
      exact ⟨hheld, hhand⟩

theorem InOrderBut.mono {due due' : Pk → Membership → Prop} {given : List (Pk × Pk)} (h : db.InOrderBut due given)
    (hle : ∀ k m, db.memberships.row k = some m → db.isScoped k = false → due k m → due' k m) :
    db.InOrderBut due' given :=
  ⟨fun k m hm => (h.members k m hm).imp_right fun hd => ⟨hle k m hm hd.2 hd.1, hd.2⟩, h.automatic, h.exist,
   h.given, h.apart⟩

theorem InOrderBut.syncServiceRoles {due : Pk → Membership → Prop} {given : List (Pk × Pk)}
    (h : db.InOrderBut due given)
    (pks : List Pk) (hdue : ∀ k m m', m'.organization = m.organization → due k m → due k m') :
    (db.syncServiceRoles pks).InOrderBut (fun k m => due k m ∧ k ∉ pks) given := by
  have hsync : ∀ (l : List Pk) (d : DB) (due : Pk → Membership → Prop), d.InOrderBut due given →
      (∀ pk ∈ l, d.isScoped pk = false) → (∀ k m m', m'.organization = m.organization → due k m → due k m') →
      (l.foldl DB.syncMembership d).InOrderBut (fun k m => due k m ∧ k ∉ l) given := by
    intro l
    induction l with
    | nil => intro d due hd _ _; exact hd.mono fun k m _ _ h => ⟨h, by simp⟩
    | cons pk l ih =>
      intro d due hd hfull hdue
      obtain ⟨t, ht⟩ := syncMembership_eq d pk
      have hscoped : ∀ k, (d.syncMembership pk).isScoped k = d.isScoped k := by
        rw [ht]
        exact fun k => rfl
      refine (ih _ _ (hd.syncMembership (hfull pk (by simp)) hdue) (fun k hk => ?_) fun k m m' ho hm => ?_).mono ?_
      · rw [hscoped]
        exact hfull k (by simp [hk])
      · exact ⟨hdue k m m' ho hm.1, hm.2⟩
      · rintro k m - - ⟨⟨hk, hne⟩, hl⟩
        exact ⟨hk, by simp [hne, hl]⟩
  unfold DB.syncServiceRoles
  obtain ⟨t, ht⟩ := syncServiceRoles_eq db pks
  have hscoped : ∀ k, (db.syncServiceRoles pks).isScoped k = db.isScoped k := by
    rw [ht]
    exact fun k => rfl
  refine (hsync _ db due h (fun pk hpk => by simpa using (List.mem_filter.mp hpk).2) hdue).mono ?_
  rintro k m - hfull ⟨hd, hk⟩
  refine ⟨hd, fun hmem => hk (List.mem_filter.mpr ⟨hmem, ?_⟩)⟩
  have : db.isScoped k = false := (hscoped k).symm.trans hfull
  simp [this]

theorem Synced.congr (hrules : SameRules db d) {m m' : Membership} (h : Synced d m m') : Synced db m m' := by
  have hentitled : ∀ r, d.Entitled m r ↔ db.Entitled m r :=
    hrules.entitled rfl rfl (hrules.administers rfl rfl fun _ _ => .rfl)
  refine ⟨h.user, h.organization, h.withheld, fun r => ?_, fun r => ?_⟩
  · rw [h.roles, hentitled]
  · rw [h.automatic, hentitled]

theorem Synced.after_same {a b c : Membership} (h : SameRoles a b) (k : Synced db b c) : Synced db a c := by
  have hentitled : ∀ r, db.Entitled b r ↔ db.Entitled a r :=
    SameRules.entitled ⟨rfl, rfl, rfl⟩ h.organization h.withheld
      (SameRules.administers ⟨rfl, rfl, rfl⟩ h.user h.organization fun r _ => by rw [h.roles])
  refine ⟨k.user.trans h.user, k.organization.trans h.organization, k.withheld.trans h.withheld,
    fun r => ?_, fun r => ?_⟩
  · rw [k.roles, hentitled, h.roles, h.automatic]
  · rw [k.automatic, hentitled, h.roles, h.automatic]

theorem Synced.same {a b c : Membership} (h : Synced db a b) (k : SameRoles b c) : Synced db a c :=
  ⟨k.user.trans h.user, k.organization.trans h.organization, k.withheld.trans h.withheld,
    fun r => by rw [k.roles, h.roles], fun r => by rw [k.automatic, h.automatic]⟩

/-- Syncing members, each once: the full ones are synced by the same rules, and nobody else is touched. -/
theorem syncServiceRoles_synced (db : DB) {pks : List Pk} (hnodup : pks.Nodup) :
    Rewrites (fun k m m' => (k ∈ pks ∧ db.isScoped k = false → Synced db m m')
      ∧ (¬ (k ∈ pks ∧ db.isScoped k = false) → SameRoles m m')) db.memberships
        (db.syncServiceRoles pks).memberships := by
  have hsync : ∀ (l : List Pk) (d : DB), l.Nodup → SameRules db d →
      Rewrites (fun k m m' => (k ∈ l → Synced db m m') ∧ (k ∉ l → SameRoles m m')) d.memberships
        (l.foldl DB.syncMembership d).memberships := by
    intro l
    induction l with
    | nil => exact fun d _ _ => .refl (fun _ m => ⟨fun h => absurd h (by simp), fun _ => .refl m⟩) _
    | cons pk l ih =>
      intro d hnodup hrules
      obtain ⟨hpk, hnodup⟩ := List.nodup_cons.mp hnodup
      obtain ⟨t, ht⟩ := syncMembership_eq d pk
      have hrules' : SameRules db (d.syncMembership pk) := by
        rw [ht]
        exact ⟨hrules.roles, hrules.organizations, hrules.grants⟩
      refine ((syncMembership_rows d pk).comp (ih _ hnodup hrules')).mono ?_
      rintro k m m' ⟨m₁, ⟨hsynced, hsame⟩, hsynced', hsame'⟩
      by_cases hk : k = pk
      · subst hk
        exact ⟨fun _ => ((hsynced rfl).congr hrules).same (hsame' hpk),
          fun hno => absurd (List.mem_cons_self ..) hno⟩
      · refine ⟨fun hmem => .after_same (hsame hk) (hsynced' (List.mem_of_ne_of_mem hk hmem)), fun hno => ?_⟩
        exact (hsame hk).trans (hsame' fun hmem => hno (List.mem_cons_of_mem _ hmem))
  unfold DB.syncServiceRoles
  refine (hsync _ db (hnodup.filter _) ⟨rfl, rfl, rfl⟩).mono fun k m m' => ?_
  simp only [List.mem_filter, Bool.not_eq_true']
  exact id

/-! ## What an admin changes, before the sync -/

/-- Who the member is and what they hold is as it was; lok gave no more of it than before, and at most what
is `gone` is withheld that was not. -/
structure Noted (gone : Pk → Prop) (m m' : Membership) : Prop where
  user : m'.user = m.user
  organization : m'.organization = m.organization
  roles : m'.roles = m.roles
  automatic : ∀ r ∈ m'.automaticRoles, r ∈ m.automaticRoles
  withheld : ∀ r ∈ m'.withheldRoles, r ∈ m.withheldRoles ∨ gone r

theorem SameRoles.noted {gone : Pk → Prop} {m m' : Membership} (h : SameRoles m m') : Noted gone m m' :=
  ⟨h.user, h.organization, h.roles, fun r hr => by rwa [h.automatic] at hr,
   fun r hr => .inl (by rwa [h.withheld] at hr)⟩

theorem Noted.trans {gone : Pk → Prop} {a b c : Membership} (h : Noted gone a b) (k : Noted gone b c) :
    Noted gone a c :=
  ⟨k.user.trans h.user, k.organization.trans h.organization, k.roles.trans h.roles,
    fun r hr => h.automatic r (k.automatic r hr), fun r hr => (k.withheld r hr).elim (h.withheld r) .inr⟩

/-- The roles `gone` were taken from the member and the roles that `came` given to them. -/
structure Changed (gone came : Pk → Prop) (m m' : Membership) : Prop where
  user : m'.user = m.user
  organization : m'.organization = m.organization
  roles : ∀ r, r ∈ m'.roles ↔ (r ∈ m.roles ∨ came r) ∧ ¬ gone r
  automatic : ∀ r ∈ m'.automaticRoles, r ∈ m.automaticRoles
  withheld : ∀ r ∈ m'.withheldRoles, r ∈ m.withheldRoles ∨ gone r

theorem Changed.noted {gone came : Pk → Prop} {a b c : Membership} (h : Changed gone came a b)
    (k : Noted gone b c) :
    Changed gone came a c :=
  ⟨k.user.trans h.user, k.organization.trans h.organization, fun r => by rw [k.roles]; exact h.roles r,
    fun r hr => h.automatic r (k.automatic r hr), fun r hr => (k.withheld r hr).elim (h.withheld r) .inr⟩

/-- Only the members of `pks` changed. -/
def Changes (pks : List Pk) (gone came : Pk → Pk → Prop) (t u : Table Membership) : Prop :=
  Rewrites (fun k m m' => (k ∈ pks → Changed (gone k) (came k) m m') ∧ (k ∉ pks → SameRoles m m')) t u

theorem Changes.noted {pks : List Pk} {gone came : Pk → Pk → Prop} {t u v : Table Membership}
    (h : Changes pks gone came t u)
    (k : Rewrites (fun k m m' => Noted (gone k) m m' ∧ (k ∉ pks → SameRoles m m')) u v) :
    Changes pks gone came t v :=
  (Rewrites.comp h k).mono fun _ _ _ ⟨_, h₁, h₂⟩ => ⟨fun hk => (h₁.1 hk).noted h₂.1,
    fun hk => (h₁.2 hk).trans (h₂.2 hk)⟩

theorem Changes.syncAdmin {pks : List Pk} {gone came : Pk → Pk → Prop} {t : Table Membership}
    (h : Changes pks gone came t d.memberships)
    (l : List Pk) : Changes pks gone came t (d.syncAdmin l).memberships :=
  h.noted ((syncAdmin_rows d l).mono fun _ _ _ hs => ⟨hs.noted, fun _ => hs⟩)

section

variable {gone : Pk → Pk → Prop}

theorem givenByAnAdmin_rows (db : DB) (pk : Pk) (roles : List Pk) :
    Rewrites (fun k m m' => Noted (gone k) m m' ∧ (k ∉ [pk] → SameRoles m m')) db.memberships
      (db.givenByAnAdmin pk roles).memberships :=
  .update fun k m _ => by
    split
    · exact ⟨⟨rfl, rfl, rfl, fun _ h => h, fun r hr => .inl (mem_removePks.mp hr).1⟩,
        fun hk => absurd ‹k = pk› (by simpa using hk)⟩
    · exact ⟨(SameRoles.refl m).noted, fun _ => .refl m⟩

theorem takenByAnAdmin_rows (db : DB) {pk : Pk} {roles : List Pk} (hgone : ∀ r ∈ roles, gone pk r) :
    Rewrites (fun k m m' => Noted (gone k) m m' ∧ (k ∉ [pk] → SameRoles m m')) db.memberships
      (db.takenByAnAdmin pk roles).memberships :=
  .update fun k m _ => by
    split
    · rename_i hk
      subst hk
      refine ⟨⟨rfl, rfl, rfl, fun r hr => (mem_removePks.mp hr).1, fun r hr => ?_⟩,
        fun hk => absurd (List.mem_singleton_self _) hk⟩
      refine (mem_addPks.mp hr).imp_right fun hdefault => hgone r ?_
      obtain ⟨x, -, hp⟩ := mem_pks.mp hdefault
      simp only [Bool.and_eq_true, List.contains_eq_mem, decide_eq_true_eq] at hp
      exact hp.1
    · exact ⟨(SameRoles.refl m).noted, fun _ => .refl m⟩

theorem foldl_noted {f : DB → Pk → DB}
    (hf : ∀ d pk, Rewrites (fun k m m' => Noted (gone k) m m' ∧ (k ∉ [pk] → SameRoles m m')) d.memberships
      (f d pk).memberships) :
    ∀ (pks : List Pk) (d : DB),
      Rewrites (fun k m m' => Noted (gone k) m m' ∧ (k ∉ pks → SameRoles m m')) d.memberships
      (pks.foldl f d).memberships
  | [], d => .refl (fun _ m => ⟨(SameRoles.refl m).noted, fun _ => .refl m⟩) _
  | pk :: pks, d => by
    refine ((hf d pk).comp (foldl_noted hf pks (f d pk))).mono ?_
    rintro k m m' ⟨m₁, h₁, h₂⟩
    refine ⟨h₁.1.trans h₂.1, fun hk => ?_⟩
    rw [List.mem_cons, not_or] at hk
    exact (h₁.2 (by simpa using hk.1)).trans (h₂.2 hk.2)

end

theorem InOrderBut.change {due : Pk → Membership → Prop} {given given' : List (Pk × Pk)} {pks : List Pk}
    {gone came : Pk → Pk → Prop} {t : Table Membership} (h : db.InOrderBut due given)
    (ht : Changes pks gone came db.memberships t)
    (hdue : ∀ k m m', m'.organization = m.organization → due k m → due k m')
    (hcame : ∀ k ∈ pks, ∀ r, came k r → ∃ x, db.roles.row r = some x)
    (hgiven : ∀ p ∈ given', p ∈ given ∧ (p.1 ∈ pks → ¬ gone p.1 p.2)
      ∨ p.1 ∈ pks ∧ came p.1 p.2 ∧ ¬ gone p.1 p.2
      ∧ ∃ m, db.memberships.row p.1 = some m ∧ p.2 ∉ m.automaticRoles) :
    ({ db with memberships := t } : DB).InOrderBut (fun k m => due k m ∨ k ∈ pks) given' := by
  have hrules : SameRules db { db with memberships := t } := ⟨rfl, rfl, rfl⟩
  refine ⟨fun k m' hm' => ?_, fun k m' hm' r hr => ?_, fun k m' hm' r hr => ?_, fun p hp => ?_, h.apart⟩
  · obtain ⟨m, hm, hchanged, hsame⟩ := Rewrites.before ht hm'
    by_cases hk : k ∈ pks
    · cases hscoped : db.isScoped k with
      | false => exact .inr ⟨.inr hk, hscoped⟩
      | true =>
        rcases h.members k m hm with hkept | ⟨-, hfull⟩
        · exact .inl (hkept.guest hscoped hscoped (hchanged hk).automatic)
        · rw [hscoped] at hfull
          cases hfull
    · rcases h.members k m hm with hkept | ⟨hd, hscoped⟩
      · exact .inl (hkept.congr hrules (hsame hk))
      · exact .inr ⟨.inl (hdue k m m' (hsame hk).organization hd), hscoped⟩
  · obtain ⟨m, hm, hchanged, hsame⟩ := Rewrites.before ht hm'
    by_cases hk : k ∈ pks
    · exact h.automatic k m hm r ((hchanged hk).automatic r hr)
    · exact h.automatic k m hm r (by rwa [(hsame hk).automatic] at hr)
  · obtain ⟨m, hm, hchanged, hsame⟩ := Rewrites.before ht hm'
    by_cases hk : k ∈ pks
    · rcases (((hchanged hk).roles r).mp hr).1 with hr | hr
      · exact h.exist k m hm r hr
      · exact hcame k hk r hr
    · exact h.exist k m hm r (by rwa [(hsame hk).roles] at hr)
  · rcases hgiven p hp with ⟨hold, hkept⟩ | ⟨hk, hcome, hnotgone, m, hm, hhand⟩
    · obtain ⟨m, hm, hheld, hhand⟩ := h.given p hold
      obtain ⟨m', hm', hchanged, hsame⟩ := Rewrites.after ht hm
      refine ⟨m', hm', ?_⟩
      by_cases hk : p.1 ∈ pks
      · exact ⟨((hchanged hk).roles _).mpr ⟨.inl hheld, hkept hk⟩, fun hr => hhand ((hchanged hk).automatic _ hr)⟩
      · rw [(hsame hk).roles, (hsame hk).automatic]
        exact ⟨hheld, hhand⟩
    · obtain ⟨m', hm', hchanged, -⟩ := Rewrites.after ht hm
      exact ⟨m', hm', ((hchanged hk).roles _).mpr ⟨.inr hcome, hnotgone⟩,
        fun hr => hhand ((hchanged hk).automatic _ hr)⟩

theorem InOrderBut.change_sync {due : Pk → Membership → Prop} {given given' : List (Pk × Pk)} {pks : List Pk}
    {gone came : Pk → Pk → Prop} {t : Table Membership} (h : db.InOrderBut due given)
    (ht : Changes pks gone came db.memberships t)
    (hdue : ∀ k m m', m'.organization = m.organization → due k m → due k m')
    (hcame : ∀ k ∈ pks, ∀ r, came k r → ∃ x, db.roles.row r = some x)
    (hgiven : ∀ p ∈ given', p ∈ given ∧ (p.1 ∈ pks → ¬ gone p.1 p.2)
      ∨ p.1 ∈ pks ∧ came p.1 p.2 ∧ ¬ gone p.1 p.2
      ∧ ∃ m, db.memberships.row p.1 = some m ∧ p.2 ∉ m.automaticRoles) :
    (({ db with memberships := t } : DB).syncServiceRoles pks).InOrderBut due given' := by
  refine ((h.change ht hdue hcame hgiven).syncServiceRoles pks fun k m m' ho hm => ?_).mono ?_
  · exact hm.imp_left (hdue k m m' ho)
  · rintro k m - - ⟨hd | hk, hno⟩
    · exact hd
    · exact absurd hk hno

/-! ## Who is entitled after a change -/

/-- The roles `gone` were taken from the member and the roles that `came` given to them, as far as what is
due to them goes. -/
structure Reassigned (db : DB) (gone came : Pk → Prop) (m m' : Membership) : Prop where
  user : m'.user = m.user
  organization : m'.organization = m.organization
  admin : ∀ r, db.IsAdmin r → (r ∈ m'.roles ↔ (r ∈ m.roles ∨ came r) ∧ ¬ gone r)
  withheld : ∀ r ∈ m'.withheldRoles, r ∈ m.withheldRoles ∨ gone r

section

variable {gone came : Pk → Prop}

/-- Nothing was given or taken that anything is due by. -/
abbrev Unassigned (db : DB) (m m' : Membership) : Prop := Reassigned db (fun _ => False) (fun _ => False) m m'

theorem Unassigned.refl (m : Membership) : Unassigned db m m := ⟨rfl, rfl, fun r _ => by simp, fun _ => .inl⟩

theorem SameRoles.unassigned {m m' : Membership} (h : SameRoles m m') : Unassigned db m m' :=
  ⟨h.user, h.organization, fun r _ => by simp [h.roles], fun r hr => .inl (by rwa [h.withheld] at hr)⟩

theorem Reassigned.then {a b c : Membership} (h : Reassigned db gone came a b) (k : Unassigned db b c) :
    Reassigned db gone came a c :=
  ⟨k.user.trans h.user, k.organization.trans h.organization,
   fun r hr => by rw [k.admin r hr, ← h.admin r hr]; simp,
    fun r hr => (k.withheld r hr).elim (h.withheld r) False.elim⟩

theorem Reassigned.give {a b c : Membership} (hrules : SameRules db d)
    (h : Reassigned db gone (fun _ => False) a b)
    (k : Reassigned d (fun _ => False) came b c) (hapart : ∀ r, came r → ¬ gone r) :
    Reassigned db gone came a c := by
  refine ⟨k.user.trans h.user, k.organization.trans h.organization, fun r hr => ?_, fun r hr => ?_⟩
  · rw [k.admin r ((hrules.isAdmin r).mpr hr), h.admin r hr]
    have := hapart r
    tauto
  · exact (k.withheld r hr).elim (h.withheld r) False.elim

theorem Changed.reassigned {m m' : Membership} (h : Changed gone came m m') : Reassigned db gone came m m' :=
  ⟨h.user, h.organization, fun r _ => h.roles r, h.withheld⟩

/-- What was due to the member as they would be without what was taken and with what was given still is. -/
theorem Reassigned.entitled (hrules : SameRules db d) {m m' n : Membership} (h : Reassigned db gone came m m')
    (huser : n.user = m.user) (horganization : n.organization = m.organization)
    (hwithheld : n.withheldRoles = m.withheldRoles) (hroles : ∀ r ∈ n.roles, (r ∈ m.roles ∨ came r) ∧ ¬ gone r)
    {r : Pk} (hr : db.Entitled n r) (hstays : ¬ gone r) : d.Entitled m' r := by
  have hadministers : db.administers n = true → d.administers m' = true := by
    unfold administers
    rw [hrules.organizations, h.user, h.organization, huser, horganization]
    simp only [Bool.or_eq_true]
    refine Or.imp_right fun hholds => ?_
    obtain ⟨r, hr, hadmin⟩ := holdsAdmin_iff_isAdmin.mp hholds
    exact holdsAdmin_iff_isAdmin.mpr ⟨r, (h.admin r hadmin).mpr (hroles r hr), (hrules.isAdmin r).mpr hadmin⟩
  obtain ⟨x, hx, ho, hflag⟩ := hr
  refine ⟨x, by rw [hrules.roles, hx], ho.trans (horganization.trans h.organization.symm), ?_⟩
  refine hflag.imp (And.imp_right hadministers) (And.imp_right fun hno hwithheld' => ?_)
  rcases h.withheld r hwithheld' with hwas | hgone
  · exact hno (hwithheld ▸ hwas)
  · exact hstays hgone

end

/-- A sync gives and takes nothing that anything is due by: what lok gave is no admin role. -/
theorem syncServiceRoles_unassigned (hapart : db.AdminApart) (pks : List Pk) :
    Rewrites (fun _ m m' => (∀ r ∈ m.automaticRoles, ¬ db.IsAdmin r) → Unassigned db m m') db.memberships
      (db.syncServiceRoles pks).memberships := by
  have hsync : ∀ (l : List Pk) (d : DB), d.roles = db.roles →
      Rewrites (fun _ m m' => (∀ r ∈ m.automaticRoles, ¬ db.IsAdmin r) →
        Unassigned db m m' ∧ ∀ r ∈ m'.automaticRoles, ¬ db.IsAdmin r) d.memberships
          (l.foldl DB.syncMembership d).memberships := by
    intro l
    induction l with
    | nil => exact fun d _ => .refl (fun _ m h => ⟨.refl m, h⟩) _
    | cons pk l ih =>
      intro d hd
      obtain ⟨t, ht⟩ := syncMembership_eq d pk
      have hadmin : ∀ r, d.IsAdmin r ↔ db.IsAdmin r := fun r => by
        unfold IsAdmin
        rw [hd]
      have hnot : ∀ {m r}, d.Entitled m r → ¬ db.IsAdmin r := by
        intro m r hr hadmin'
        have hapart' : d.AdminApart := by
          unfold AdminApart
          rw [hd]
          exact hapart
        exact hapart'.not_isAdmin hr ((hadmin r).mpr hadmin')
      refine ((syncMembership_rows d pk).comp (ih (d.syncMembership pk) (by rw [ht]; exact hd))).mono ?_
      rintro k m m' ⟨m₁, ⟨hsynced, hsame⟩, hrest⟩ hauto
      have hfirst : Unassigned db m m₁ ∧ ∀ r ∈ m₁.automaticRoles, ¬ db.IsAdmin r := by
        by_cases hk : k = pk
        · have hs := hsynced hk
          refine ⟨⟨hs.user, hs.organization, fun r hr => ?_, fun r hr => .inl (by rwa [hs.withheld] at hr)⟩,
            fun r hr => ?_⟩
          · have hnone : r ∉ m.automaticRoles := fun hmem => hauto r hmem hr
            have hnone' : ¬ d.Entitled m r := fun he => hnot he hr
            simp [hs.roles, hnone, hnone']
          · exact hnot ((hs.automatic r).mp hr).1
        · exact ⟨(hsame hk).unassigned, by rw [(hsame hk).automatic]; exact hauto⟩
      obtain ⟨hunassigned, hauto'⟩ := hrest hfirst.2
      exact ⟨hfirst.1.then hunassigned, hauto'⟩
  exact (hsync _ db rfl).mono fun _ m m' h hauto => (h hauto).1

theorem InOrderBut.reassigned {due : Pk → Membership → Prop} {given : List (Pk × Pk)} {pks : List Pk}
    {gone came : Pk → Pk → Prop} {t : Table Membership} (h : db.InOrderBut due given)
    (ht : Changes pks gone came db.memberships t) :
    Rewrites (fun k => Reassigned db (fun r => k ∈ pks ∧ gone k r) fun r => k ∈ pks ∧ came k r) db.memberships
      (({ db with memberships := t } : DB).syncServiceRoles pks).memberships := by
  have hapart : ({ db with memberships := t } : DB).AdminApart := h.apart
  have hsynced : Rewrites _ t _ := syncServiceRoles_unassigned hapart pks
  refine (Rewrites.comp ht hsynced).mono_of_row ?_
  rintro k m m' hm ⟨m₁, ⟨hchanged, hsame⟩, hunassigned⟩
  have hauto : ∀ r ∈ m₁.automaticRoles, ¬ db.IsAdmin r := by
    intro r hr
    refine not_isAdmin (h.automatic k m hm r ?_)
    by_cases hk : k ∈ pks
    · exact (hchanged hk).automatic r hr
    · rwa [(hsame hk).automatic] at hr
  have hsync := hunassigned hauto
  refine Reassigned.then (b := m₁) ?_ ⟨hsync.user, hsync.organization, hsync.admin, hsync.withheld⟩
  by_cases hk : k ∈ pks
  · simpa [hk] using (hchanged hk).reassigned
  · simpa [hk] using (hsame hk).unassigned

/-! ## From the membership's side -/

section

variable {due : Pk → Membership → Prop} {given : List (Pk × Pk)} {membership : Pk} {roles : List Pk}

theorem changes_modify {gone came : Pk → Pk → Prop} {f : Membership → Membership}
    (hf : ∀ m, db.memberships.row membership = some m → Changed (gone membership) (came membership) m (f m)) :
    Changes [membership] gone came db.memberships (db.modifyMembership membership f).memberships := by
  refine .update fun k m hm => ?_
  split
  · rename_i hk
    subst hk
    exact ⟨fun _ => hf m hm, fun hk => absurd (List.mem_singleton_self _) hk⟩
  · rename_i hk
    exact ⟨fun hmem => absurd (List.mem_singleton.mp hmem) hk, fun _ => .refl m⟩

theorem addRoles_change (hok : db.addRoles membership roles = .ok d) : roles = [] ∧ d = db ∨
    ∃ m t, db.memberships.row membership = some m ∧ (∀ r ∈ roles, r ∉ m.roles → ∃ x, db.roles.row r = some x)
      ∧ Changes [membership] (fun _ _ => False) (fun _ r => r ∈ roles) db.memberships t
      ∧ d = ({ db with memberships := t } : DB).syncServiceRoles [membership] := by
  unfold DB.addRoles at hok
  split at hok
  · rename_i hempty
    obtain rfl : db = d := by simpa using hok
    exact .inl ⟨by simpa using hempty, rfl⟩
  · simp only [bind_ok, Table.get_ok, require_ok, exists_unit, pure_ok, List.all_eq_true, mem_removePks] at hok
    obtain ⟨m, hm, -, hexist, rfl⟩ := hok
    have hrows : Changes [membership] (fun _ _ => False) (fun _ r => r ∈ roles) db.memberships
        (db.modifyMembership membership fun m => { m with roles := addPks m.roles roles }).memberships :=
      changes_modify fun m _ => ⟨rfl, rfl, fun r => by simp [mem_addPks], fun _ h => h, fun _ => .inl⟩
    exact .inr ⟨m, _, hm, fun r hr hlacks => Option.isSome_iff_exists.mp (hexist r ⟨hr, hlacks⟩),
      (hrows.syncAdmin [membership]).noted (givenByAnAdmin_rows _ membership (removePks roles m.roles)), rfl⟩

theorem InOrderBut.addRoles (h : db.InOrderBut due given)
    (hdue : ∀ k m m', m'.organization = m.organization → due k m → due k m')
    (hok : db.addRoles membership roles = .ok d) {new : List (Pk × Pk)}
    (hnew : ∀ p ∈ new, p.1 = membership ∧ p.2 ∈ roles
      ∧ ∃ m, db.memberships.row membership = some m ∧ p.2 ∉ m.automaticRoles) :
    d.InOrderBut due (given ++ new) := by
  rcases addRoles_change hok with ⟨rfl, rfl⟩ | ⟨m, t, hm, hexist, ht, rfl⟩
  · obtain rfl : new = [] := List.eq_nil_iff_forall_not_mem.mpr fun p hp => by simpa using (hnew p hp).2.1
    simpa using h
  · refine h.change_sync ht hdue (fun k hk r hr => ?_) fun p hp => ?_
    · by_cases hheld : r ∈ m.roles
      · exact h.exist membership m hm r hheld
      · exact hexist r hr hheld
    · rcases List.mem_append.mp hp with hp | hp
      · exact .inl ⟨hp, fun _ h => h⟩
      · obtain ⟨hk, hr, m', hm', hhand⟩ := hnew p hp
        exact .inr ⟨by simp [hk], hr, fun h => h, m', by rw [hk]; exact hm', hhand⟩

theorem removeRoles_change (db : DB) (membership : Pk) (roles : List Pk) :
    roles = [] ∧ db.removeRoles membership roles = db ∨
    ∃ t, Changes [membership] (fun _ r => r ∈ roles) (fun _ _ => False) db.memberships t
      ∧ db.removeRoles membership roles = ({ db with memberships := t } : DB).syncServiceRoles [membership] := by
  unfold DB.removeRoles
  split
  · rename_i hempty
    exact .inl ⟨by simpa using hempty, rfl⟩
  · have hrows : Changes [membership] (fun _ r => r ∈ roles) (fun _ _ => False) db.memberships
        (db.modifyMembership membership fun m => { m with roles := removePks m.roles roles }).memberships :=
      changes_modify fun m _ => ⟨rfl, rfl, fun r => by simp [mem_removePks], fun _ h => h, fun _ => .inl⟩
    exact .inr ⟨_, (hrows.syncAdmin [membership]).noted (takenByAnAdmin_rows _ fun _ h => h), rfl⟩

theorem InOrderBut.removeRoles (h : db.InOrderBut due given)
    (hdue : ∀ k m m', m'.organization = m.organization → due k m → due k m') :
    (db.removeRoles membership roles).InOrderBut due
    (given.filter fun p => !(p.1 == membership && roles.contains p.2)) := by
  have hfilter : ∀ p ∈ given.filter fun p => !(p.1 == membership && roles.contains p.2),
      p ∈ given ∧ (p.1 ∈ [membership] → ¬ p.2 ∈ roles) := by
    intro p hp
    obtain ⟨hp, hkeep⟩ := List.mem_filter.mp hp
    refine ⟨hp, fun hk hr => ?_⟩
    simp [List.mem_singleton.mp hk, hr] at hkeep
  rcases removeRoles_change db membership roles with ⟨-, heq⟩ | ⟨t, ht, heq⟩
  · rw [heq]
    exact ⟨h.members, h.automatic, h.exist, fun p hp => h.given p (hfilter p hp).1, h.apart⟩
  · rw [heq]
    exact h.change_sync ht hdue (fun _ _ _ h => h.elim) fun p hp => .inl (hfilter p hp)

theorem clearRoles_change (db : DB) (membership : Pk) :
    ∃ t, Changes [membership] (fun _ _ => True) (fun _ _ => False) db.memberships t
      ∧ db.clearRoles membership = ({ db with memberships := t } : DB).syncServiceRoles [membership] := by
  have hrows : Changes [membership] (fun _ _ => True) (fun _ _ => False) db.memberships
      (db.modifyMembership membership fun m => { m with roles := [] }).memberships :=
    changes_modify fun m _ => ⟨rfl, rfl, fun r => by simp, fun _ h => h, fun _ => .inl⟩
  exact ⟨_, (hrows.syncAdmin [membership]).noted (takenByAnAdmin_rows _ fun _ _ => trivial), rfl⟩

theorem InOrderBut.clearRoles (h : db.InOrderBut due given)
    (hdue : ∀ k m m', m'.organization = m.organization → due k m → due k m') :
    (db.clearRoles membership).InOrderBut due (given.filter fun p => p.1 != membership) := by
  obtain ⟨t, ht, heq⟩ := clearRoles_change db membership
  rw [heq]
  refine h.change_sync ht hdue (fun _ _ _ h => h.elim) fun p hp => ?_
  obtain ⟨hp, hne⟩ := List.mem_filter.mp hp
  exact .inl ⟨hp, fun hk => by simp [List.mem_singleton.mp hk] at hne⟩

/-- No more is due to the member than before. -/
structure Lessened (db : DB) (m m' : Membership) : Prop where
  user : m'.user = m.user
  organization : m'.organization = m.organization
  admin : ∀ r, db.IsAdmin r → r ∈ m'.roles → r ∈ m.roles
  withheld : ∀ r ∈ m.withheldRoles, r ∈ m'.withheldRoles

theorem SameRoles.lessened {m m' : Membership} (h : SameRoles m m') : Lessened db m m' :=
  ⟨h.user, h.organization, fun r _ hr => by rwa [h.roles] at hr, fun r hr => by rwa [h.withheld]⟩

theorem Lessened.trans {a b c : Membership} (h : Lessened db a b) (k : Lessened db b c) : Lessened db a c :=
  ⟨k.user.trans h.user, k.organization.trans h.organization,
   fun r hadmin hr => h.admin r hadmin (k.admin r hadmin hr),
    fun r hr => k.withheld r (h.withheld r hr)⟩

theorem Lessened.entitled (hrules : SameRules db d) {m m' : Membership} (h : Lessened db m m') {r : Pk}
    (hr : d.Entitled m' r) :
    db.Entitled m r := by
  have hadministers : d.administers m' = true → db.administers m = true := by
    unfold administers
    rw [hrules.organizations, h.user, h.organization]
    simp only [Bool.or_eq_true]
    refine Or.imp_right fun hholds => ?_
    obtain ⟨r, hr, hadmin⟩ := holdsAdmin_iff_isAdmin.mp hholds
    rw [hrules.isAdmin] at hadmin
    exact holdsAdmin_iff_isAdmin.mpr ⟨r, h.admin r hadmin hr, hadmin⟩
  obtain ⟨x, hx, ho, hflag⟩ := hr
  rw [hrules.roles] at hx
  refine ⟨x, hx, ho.trans h.organization, ?_⟩
  exact hflag.imp (And.imp_right hadministers) (And.imp_right fun hno hr => hno (h.withheld r hr))

theorem syncServiceRoles_rows (hapart : db.AdminApart) (pks : List Pk) :
    Rewrites (fun k m m' => Lessened db m m' ∧ (k ∉ pks → SameRoles m m')) db.memberships
    (db.syncServiceRoles pks).memberships := by
  have hsync : ∀ (l : List Pk) (d : DB), d.roles = db.roles →
      Rewrites (fun k m m' => Lessened db m m' ∧ (k ∉ l → SameRoles m m')) d.memberships
        (l.foldl DB.syncMembership d).memberships := by
    intro l
    induction l with
    | nil => exact fun d _ => .refl (fun _ m => ⟨(SameRoles.refl m).lessened, fun _ => .refl m⟩) _
    | cons pk l ih =>
      intro d hd
      obtain ⟨t, ht⟩ := syncMembership_eq d pk
      refine ((syncMembership_rows d pk).comp (ih (d.syncMembership pk) (by rw [ht]; exact hd))).mono ?_
      rintro k m m' ⟨m₁, ⟨hsynced, hsame⟩, hless, hothers⟩
      have hapart' : d.AdminApart := by
        unfold AdminApart
        rw [hd]
        exact hapart
      have hadmin : ∀ r, db.IsAdmin r → d.IsAdmin r := by
        unfold IsAdmin
        rw [hd]
        exact fun _ h => h
      constructor
      · by_cases hk : k = pk
        · have hs := hsynced hk
          refine Lessened.trans ⟨hs.user, hs.organization, fun r hr hheld => ?_,
            fun r hr => by rwa [hs.withheld]⟩ hless
          exact (((hs.roles r).mp hheld).1).resolve_right fun he => hapart'.not_isAdmin he (hadmin r hr)
        · exact (hsame hk).lessened.trans hless
      · intro hk
        rw [List.mem_cons, not_or] at hk
        exact (hsame hk.1).trans (hothers hk.2)
  exact (hsync _ db rfl).mono fun k m m' h => ⟨h.1, fun hk => h.2 fun hmem => hk (List.mem_filter.mp hmem).1⟩

theorem removeRoles_rows (hapart : db.AdminApart) :
    Rewrites (fun _ m m' => Lessened db m m') db.memberships (db.removeRoles membership roles).memberships := by
  unfold DB.removeRoles
  split
  · exact .refl (fun _ m => (SameRoles.refl m).lessened) _
  · have hmodify : Rewrites (fun _ m m' => Lessened db m m') db.memberships
        (db.modifyMembership membership fun m => { m with roles := removePks m.roles roles }).memberships :=
      .modify (fun _ m => (SameRoles.refl m).lessened) fun m _ =>
        ⟨rfl, rfl, fun r _ hr => (mem_removePks.mp hr).1, fun _ h => h⟩
    have htaken : ∀ d : DB, Rewrites (fun _ m m' => Lessened db m m') d.memberships
        (d.takenByAnAdmin membership roles).memberships := fun d =>
      .modify (fun _ m => (SameRoles.refl m).lessened) fun m _ =>
        ⟨rfl, rfl, fun _ _ h => h, fun r hr => mem_addPks.mpr (.inl hr)⟩
    have hapart' : (((db.modifyMembership membership
      fun m => { m with roles := removePks m.roles roles }).syncAdmin
        [membership]).takenByAnAdmin membership roles).AdminApart := hapart
    refine (((hmodify.comp (syncAdmin_rows _ [membership])).comp (htaken _)).comp
      (syncServiceRoles_rows hapart' [membership])).mono ?_
    rintro k m m' ⟨m₃, ⟨m₂, ⟨m₁, h₁, h₂⟩, h₃⟩, h₄, -⟩
    exact h₁.trans (h₂.lessened.trans (h₃.trans ⟨h₄.user, h₄.organization, h₄.admin, h₄.withheld⟩))

theorem syncServiceRoles_rules (db : DB) (pks : List Pk) : SameRules db (db.syncServiceRoles pks) := by
  obtain ⟨t, ht⟩ := syncServiceRoles_eq db pks
  rw [ht]
  exact ⟨rfl, rfl, rfl⟩

theorem removeRoles_rules (db : DB) (membership : Pk) (roles : List Pk) :
    SameRules db (db.removeRoles membership roles) := by
  unfold DB.removeRoles
  split
  · exact ⟨rfl, rfl, rfl⟩
  · have h := syncServiceRoles_rules
      (((db.modifyMembership membership fun m => { m with roles := removePks m.roles roles }).syncAdmin
      [membership]).takenByAnAdmin membership roles) [membership]
    exact ⟨h.roles, h.organizations, h.grants⟩

theorem InOrderBut.subset {given' : List (Pk × Pk)} (h : db.InOrderBut due given) (hle : ∀ p ∈ given', p ∈ given) :
    db.InOrderBut due given' :=
  ⟨h.members, h.automatic, h.exist, fun p hp => h.given p (hle p hp), h.apart⟩

theorem InOrderBut.setRoles (h : db.InOrderBut due given)
    (hdue : ∀ k m m', m'.organization = m.organization → due k m → due k m') (hnot : ∀ m, ¬ due membership m)
    (hok : db.setRoles membership roles = .ok d) :
    ∃ m, db.memberships.row membership = some m ∧ d.InOrderBut due
      ((given.filter fun p => !(p.1 == membership && !roles.contains p.2))
        ++ (removePks roles m.roles).map fun r => (membership, r)) := by
  simp only [DB.setRoles, bind_ok, Table.get_ok] at hok
  obtain ⟨m, hm, hok⟩ := hok
  refine ⟨m, hm, ?_⟩
  have hremoved : (db.removeRoles membership (removePks m.roles roles)).InOrderBut due
      (given.filter fun p => !(p.1 == membership && (removePks m.roles roles).contains p.2)) := h.removeRoles hdue
  have hnew : ∀ p ∈ (removePks roles m.roles).map fun r => (membership, r), p.1 = membership
    ∧ p.2 ∈ removePks roles m.roles
      ∧ ∃ m₁, (db.removeRoles membership (removePks m.roles roles)).memberships.row membership = some m₁
        ∧ p.2 ∉ m₁.automaticRoles := by
    intro p hp
    obtain ⟨r, hr, rfl⟩ := List.mem_map.mp hp
    refine ⟨rfl, hr, ?_⟩
    obtain ⟨m₁, hm₁, hless⟩ := (removeRoles_rows h.apart).after hm
    refine ⟨m₁, hm₁, fun hauto => ?_⟩
    -- what lok gave on the removal was due before, and so it was held
    have hkept := (hremoved.members membership m₁ hm₁).resolve_right fun hd => hnot m₁ hd.1
    obtain ⟨-, hfull, hentitled⟩ := hkept.automatic r hauto
    have hrules := removeRoles_rules db membership (removePks m.roles roles)
    rw [hrules.isScoped] at hfull
    have hkept₀ := (h.members membership m hm).resolve_right fun hd => hnot m hd.1
    exact (mem_removePks.mp hr).2 (hkept₀.held hfull r (hless.entitled hrules hentitled))
  refine (hremoved.addRoles hdue hok hnew).subset fun p hp => ?_
  refine (List.mem_append.mp hp).elim (fun hp => List.mem_append_left _ ?_) fun hp => List.mem_append_right _ hp
  obtain ⟨hp, hkeep⟩ := List.mem_filter.mp hp
  refine List.mem_filter.mpr ⟨hp, ?_⟩
  simp only [Bool.not_eq_true', Bool.and_eq_false_iff, beq_eq_false_iff_ne, Bool.not_eq_false',
    List.contains_eq_mem,
    decide_eq_true_eq, decide_eq_false_iff_not] at hkeep ⊢
  exact hkeep.imp_right fun hr hmem => (mem_removePks.mp hmem).2 hr

end

/-! ## From the role's side -/

section

variable {due : Pk → Membership → Prop} {given : List (Pk × Pk)} {role : Pk} {pks : List Pk}

theorem changes_updateWhere {gone came : Pk → Pk → Prop} {f : Membership → Membership}
    (hf : ∀ k m, k ∈ pks → Changed (gone k) (came k) m (f m)) :
    Changes pks gone came db.memberships (db.memberships.updateWhere (fun pk _ => pks.contains pk) f) := by
  refine .update fun k m _ => ?_
  split
  · rename_i hk
    have hk : k ∈ pks := by simpa using hk
    exact ⟨fun _ => hf k m hk, fun hno => absurd hk hno⟩
  · rename_i hk
    have hk : k ∉ pks := by simpa using hk
    exact ⟨fun hmem => absurd hmem hk, fun _ => .refl m⟩

theorem foldl_eq {f : DB → Pk → DB} (hf : ∀ d pk, ∃ t, f d pk = { d with memberships := t })
    (pks : List Pk) (d : DB) :
    ∃ t, pks.foldl f d = { d with memberships := t } := by
  refine foldl_invariant (P := fun e : DB => ∃ t, e = { d with memberships := t }) ?_ ⟨_, rfl⟩
  rintro pk - _ ⟨t, rfl⟩
  exact hf _ pk

theorem addMemberships_change (hok : db.addMemberships role pks = .ok d) :
    ∃ x t, db.roles.row role = some x
      ∧ Changes (db.memberships.pks fun pk m => pks.contains pk && !m.roles.contains role) (fun _ _ => False)
        (fun _ r => r = role) db.memberships t
      ∧ d = ({ db with memberships := t } : DB).syncServiceRoles
        (db.memberships.pks fun pk m => pks.contains pk && !m.roles.contains role) := by
  simp only [DB.addMemberships, bind_ok, Table.get_ok, require_ok, exists_unit, pure_ok] at hok
  obtain ⟨x, hx, -, rfl⟩ := hok
  generalize (db.memberships.pks fun pk m => pks.contains pk && !m.roles.contains role) = missing
  have hrows : Changes missing (fun _ _ => False) (fun _ r => r = role) db.memberships
      (db.memberships.updateWhere (fun pk _ => missing.contains pk)
        fun m => { m with roles := addPks m.roles [role] }) :=
    changes_updateWhere fun _ m _ => ⟨rfl, rfl, fun r => by simp [mem_addPks], fun _ h => h, fun _ => .inl⟩
  generalize (db.memberships.updateWhere (fun pk _ => missing.contains pk) fun m =>
    { m with roles := addPks m.roles [role] }) = t₀ at hrows ⊢
  have hadded := Changes.syncAdmin (d := { db with memberships := t₀ }) hrows missing
  obtain ⟨t, ht⟩ := foldl_eq (fun d pk => ⟨_, rfl⟩) missing (DB.syncAdmin { db with memberships := t₀ } missing)
    (f := fun d pk => d.givenByAnAdmin pk [role])
  have hnoted := hadded.noted (foldl_noted (fun d pk => givenByAnAdmin_rows d pk [role]) missing _)
  rw [ht] at hnoted ⊢
  exact ⟨x, t, hx, hnoted, rfl⟩

theorem InOrderBut.addMemberships (h : db.InOrderBut due given)
    (hdue : ∀ k m m', m'.organization = m.organization → due k m → due k m')
    (hok : db.addMemberships role pks = .ok d) {new : List (Pk × Pk)}
    (hnew : ∀ p ∈ new, p.2 = role ∧ p.1 ∈ pks ∧ ∃ m, db.memberships.row p.1 = some m ∧ role ∉ m.roles
      ∧ role ∉ m.automaticRoles) :
    d.InOrderBut due (given ++ new) := by
  obtain ⟨x, t, hx, ht, rfl⟩ := addMemberships_change hok
  refine h.change_sync ht hdue (fun k _ r hr => ⟨x, by rw [hr]; exact hx⟩) fun p hp => ?_
  rcases List.mem_append.mp hp with hp | hp
  · exact .inl ⟨hp, fun _ h => h⟩
  · obtain ⟨hr, hk, m, hm, hlacks, hhand⟩ := hnew p hp
    exact .inr ⟨mem_pks.mpr ⟨m, hm, by simp [hk, hlacks]⟩, hr, fun h => h, m, hm, by rw [hr]; exact hhand⟩

theorem removeMemberships_change (db : DB) (role : Pk) (pks : List Pk) :
    ∃ t, Changes pks (fun _ r => r = role) (fun _ _ => False) db.memberships t
      ∧ db.removeMemberships role pks = ({ db with memberships := t } : DB).syncServiceRoles pks := by
  have hrows : Changes pks (fun _ r => r = role) (fun _ _ => False) db.memberships
    (db.dropRole role pks).memberships :=
    changes_updateWhere fun _ m _ => ⟨rfl, rfl, fun r => by simp [mem_removePks], fun _ h => h, fun _ => .inl⟩
  obtain ⟨t, ht⟩ := foldl_eq (fun d pk => ⟨_, rfl⟩) pks ((db.dropRole role pks).syncAdmin pks)
    (f := fun d pk => d.takenByAnAdmin pk [role])
  have hnoted := (hrows.syncAdmin pks).noted
    (foldl_noted (fun d _ => takenByAnAdmin_rows d fun _ hr => List.mem_singleton.mp hr) pks _)
  rw [ht] at hnoted
  refine ⟨t, hnoted, ?_⟩
  unfold DB.removeMemberships
  dsimp only
  rw [ht]
  rfl

theorem InOrderBut.removeMemberships (h : db.InOrderBut due given)
    (hdue : ∀ k m m', m'.organization = m.organization → due k m → due k m') :
    (db.removeMemberships role pks).InOrderBut due (given.filter fun p => !(p.2 == role && pks.contains p.1)) := by
  obtain ⟨t, ht, heq⟩ := removeMemberships_change db role pks
  rw [heq]
  refine h.change_sync ht hdue (fun _ _ _ h => h.elim) fun p hp => ?_
  obtain ⟨hp, hkeep⟩ := List.mem_filter.mp hp
  exact .inl ⟨hp, fun hk hr => by simp [hr, hk] at hkeep⟩

theorem removeMemberships_others (hapart : db.AdminApart) {k : Pk} {m : Membership}
    (hm : db.memberships.row k = some m)
    (hk : k ∉ pks) : ∃ m', (db.removeMemberships role pks).memberships.row k = some m' ∧ SameRoles m m' := by
  obtain ⟨t, ht, heq⟩ := removeMemberships_change db role pks
  obtain ⟨m₁, hm₁, -, hsame⟩ := Rewrites.after ht hm
  have hapart' : ({ db with memberships := t } : DB).AdminApart := hapart
  obtain ⟨m₂, hm₂, -, hsame'⟩ := (syncServiceRoles_rows hapart' pks).after hm₁
  rw [heq]
  exact ⟨m₂, hm₂, (hsame hk).trans (hsame' hk)⟩

theorem InOrderBut.setMemberships (h : db.InOrderBut due given)
    (hdue : ∀ k m m', m'.organization = m.organization → due k m → due k m') (hnot : ∀ k m, ¬ due k m)
    (hok : db.setMemberships role pks = .ok d) :
    d.InOrderBut due ((given.filter fun p => !(p.2 == role && !pks.contains p.1))
      ++ (db.memberships.pks fun k m => pks.contains k && !m.roles.contains role).map fun k => (k, role)) := by
  unfold DB.setMemberships at hok
  extract_lets held db₁ at hok
  have hheld : ∀ k, k ∈ held ↔ ∃ m, db.memberships.row k = some m ∧ role ∈ m.roles := by
    intro k
    rw [mem_pks]
    simp only [List.contains_eq_mem, decide_eq_true_eq]
  have hremoved : db₁.InOrderBut due (given.filter fun p => !(p.2 == role && (removePks held pks).contains p.1)) :=
    h.removeMemberships hdue
  have hnew : ∀ p ∈
      (db.memberships.pks fun k m => pks.contains k && !m.roles.contains role).map fun k => (k, role),
      p.2 = role ∧ p.1 ∈ removePks pks held
        ∧ ∃ m, db₁.memberships.row p.1 = some m ∧ role ∉ m.roles ∧ role ∉ m.automaticRoles := by
    intro p hp
    obtain ⟨k, hk, rfl⟩ := List.mem_map.mp hp
    obtain ⟨m, hm, hlacks⟩ := mem_pks.mp hk
    simp only [Bool.and_eq_true, List.contains_eq_mem, decide_eq_true_eq, Bool.not_eq_true',
      decide_eq_false_iff_not] at hlacks
    have hnotheld : k ∉ held := by
      rw [hheld]
      rintro ⟨m', hm', hr⟩
      rw [hm] at hm'
      cases hm'
      exact hlacks.2 hr
    have hkept : k ∉ removePks held pks := fun hmem => hnotheld (mem_removePks.mp hmem).1
    obtain ⟨m', hm', hsame⟩ : ∃ m', db₁.memberships.row k = some m' ∧ SameRoles m m' :=
      removeMemberships_others h.apart hm hkept
    refine ⟨rfl, mem_removePks.mpr ⟨hlacks.1, hnotheld⟩, m', hm', ?_, ?_⟩
    · rw [hsame.roles]
      exact hlacks.2
    · rw [hsame.automatic]
      have hkept := (h.members k m hm).resolve_right fun hd => hnot k m hd.1
      exact fun hauto => hlacks.2 (hkept.automatic role hauto).1
  refine (hremoved.addMemberships hdue hok hnew).subset fun p hp => ?_
  refine (List.mem_append.mp hp).elim (fun hp => List.mem_append_left _ ?_) fun hp => List.mem_append_right _ hp
  obtain ⟨hp, hkeep⟩ := List.mem_filter.mp hp
  refine List.mem_filter.mpr ⟨hp, ?_⟩
  simp only [Bool.not_eq_true', Bool.and_eq_false_iff, beq_eq_false_iff_ne, Bool.not_eq_false',
    List.contains_eq_mem,
    decide_eq_true_eq, decide_eq_false_iff_not] at hkeep ⊢
  exact hkeep.imp_right fun hk hmem => (mem_removePks.mp hmem).2 hk

end

end DB

end Lok
