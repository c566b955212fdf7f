import Lok.StillEntitled
import Lok.System

/-!
# What lok hands out stays where it belongs

Along any sequence of changes to roles, members and owners, full members hold what they are
entitled to, lok remembers only what it gave and they still are, and what an admin gave by
hand is held until somebody takes it away.
-/

namespace Lok

open Table Checks Runs

namespace DB

variable {db d : DB} {given : List (Pk × Pk)} {role : Pk}

/-! ## What is given by hand -/

/-- What an admin gives a member by naming these roles. -/
def byHand (membership : Pk) (roles : List Pk) : List (Pk × Pk) := roles.map fun r => (membership, r)

theorem mem_byHand {membership : Pk} {roles : List Pk} {p : Pk × Pk} :
    p ∈ byHand membership roles ↔ p.1 = membership ∧ p.2 ∈ roles := by
  obtain ⟨k, r⟩ := p
  simp [byHand, eq_comm, and_comm]

/-- The same for the members named, where there are such. -/
def byHandEach (db : DB) (role : Pk) (memberships : List Pk) : List (Pk × Pk) :=
  (memberships.filter fun k => (db.memberships.row k).isSome).map fun k => (k, role)

theorem mem_byHandEach {memberships : List Pk} {p : Pk × Pk} :
    p ∈ db.byHandEach role memberships
    ↔ p.2 = role ∧ p.1 ∈ memberships ∧ ∃ m, db.memberships.row p.1 = some m := by
  obtain ⟨k, r⟩ := p
  simp only [byHandEach, List.mem_map, List.mem_filter, Option.isSome_iff_exists, Prod.mk.injEq]
  constructor
  · rintro ⟨k, h, rfl, rfl⟩
    exact ⟨rfl, h⟩
  · rintro ⟨rfl, h⟩
    exact ⟨k, h, rfl, rfl⟩

/-- Of what is given, what lok had not given the member before. -/
def notLoks (db : DB) (given : List (Pk × Pk)) : List (Pk × Pk) :=
  given.filter fun p => (db.memberships.row p.1).any fun m => !m.automaticRoles.contains p.2

theorem mem_notLoks {p : Pk × Pk} :
    p ∈ db.notLoks given ↔ p ∈ given ∧ ∃ m, db.memberships.row p.1 = some m ∧ p.2 ∉ m.automaticRoles := by
  unfold notLoks
  rw [List.mem_filter, Option.any_eq_true]
  simp

theorem notLoks_filter (f : Pk × Pk → Bool) : db.notLoks (given.filter f) = (db.notLoks given).filter f :=
  List.filter_comm ..

theorem notLoks_append (new : List (Pk × Pk)) : db.notLoks (given ++ new) = db.notLoks given ++ db.notLoks new :=
  List.filter_append ..

theorem InOrderBut.claimHeld (h : db.InOrder given) (new : List (Pk × Pk))
    (hnew : ∀ p ∈ new, ∃ m, db.memberships.row p.1 = some m ∧ p.2 ∉ m.automaticRoles) :
    ∃ held lacked : List (Pk × Pk), (∀ p ∈ new, p ∈ held ∨ p ∈ lacked) ∧ (∀ p ∈ held, p ∈ new)
    ∧ db.InOrder (given ++ held)
      ∧ ∀ p ∈ lacked, p ∈ new ∧ ∃ m, db.memberships.row p.1 = some m ∧ p.2 ∉ m.roles ∧ p.2 ∉ m.automaticRoles := by
  classical
  have hholds : ∀ p ∈ new, (∃ m, db.memberships.row p.1 = some m ∧ p.2 ∈ m.roles ∧ p.2 ∉ m.automaticRoles)
      ∨ ∃ m, db.memberships.row p.1 = some m ∧ p.2 ∉ m.roles ∧ p.2 ∉ m.automaticRoles := by
    intro p hp
    obtain ⟨m, hm, hnot⟩ := hnew p hp
    by_cases hr : p.2 ∈ m.roles
    · exact .inl ⟨m, hm, hr, hnot⟩
    · exact .inr ⟨m, hm, hr, hnot⟩
  refine ⟨new.filter fun p => ∃ m, db.memberships.row p.1 = some m ∧ p.2 ∈ m.roles ∧ p.2 ∉ m.automaticRoles,
    new.filter fun p => ∃ m, db.memberships.row p.1 = some m ∧ p.2 ∉ m.roles ∧ p.2 ∉ m.automaticRoles,
    fun p hp => ?_, fun p hp => (List.mem_filter.mp hp).1, h.claim fun p hp => ?_, fun p hp => ?_⟩
  · exact (hholds p hp).imp (fun hm => List.mem_filter.mpr ⟨hp, by simpa using hm⟩)
      fun hm => List.mem_filter.mpr ⟨hp, by simpa using hm⟩
  · simpa using (List.mem_filter.mp hp).2
  · exact ⟨(List.mem_filter.mp hp).1, by simpa using (List.mem_filter.mp hp).2⟩

theorem not_due : ∀ (_ : Pk) (m m' : Membership), m'.organization = m.organization → False → False :=
  fun _ _ _ _ h => h

theorem InOrderBut.addRoles_byHand {membership : Pk} {roles : List Pk} (h : db.InOrder given)
    (hok : db.addRoles membership roles = .ok d) : d.InOrder (given ++ db.notLoks (byHand membership roles)) := by
  refine h.addRoles not_due hok fun p hp => ?_
  obtain ⟨hp, hhand⟩ := mem_notLoks.mp hp
  obtain ⟨hk, hr⟩ := mem_byHand.mp hp
  exact ⟨hk, hr, hk ▸ hhand⟩

theorem InOrderBut.setRoles_byHand {membership : Pk} {roles : List Pk} (h : db.InOrder given)
    (hok : db.setRoles membership roles = .ok d) :
    d.InOrder ((given.filter fun p => !(p.1 == membership && !roles.contains p.2)) ++ db.notLoks
      (byHand membership roles)) := by
  obtain ⟨held, lacked, hnew, hheld, hclaimed, hlacked⟩ :=
    h.claimHeld (db.notLoks (byHand membership roles)) fun p hp => (mem_notLoks.mp hp).2
  obtain ⟨m, hm, hset⟩ := hclaimed.setRoles not_due (fun _ hno => hno) hok
  refine hset.subset fun p hp => ?_
  rw [List.filter_append, List.append_assoc]
  rcases List.mem_append.mp hp with hp | hp
  · exact List.mem_append_left _ hp
  · refine List.mem_append_right _ ?_
    obtain ⟨hk, hr⟩ := mem_byHand.mp (mem_notLoks.mp hp).1
    rcases hnew p hp with hp | hp
    · exact List.mem_append_left _ (List.mem_filter.mpr ⟨hp, by simp [hr]⟩)
    · obtain ⟨-, m', hm', hlacks, -⟩ := hlacked p hp
      rw [hk, hm] at hm'
      cases hm'
      exact List.mem_append_right _ (List.mem_map.mpr ⟨p.2, mem_removePks.mpr ⟨hr, hlacks⟩, by rw [← hk]⟩)

theorem InOrderBut.addMemberships_byHand {memberships : List Pk} (h : db.InOrder given)
    (hok : db.addMemberships role memberships = .ok d) :
    d.InOrder (given ++ db.notLoks (db.byHandEach role memberships)) := by
  obtain ⟨held, lacked, hnew, -, hclaimed, hlacked⟩ :=
    h.claimHeld (db.notLoks (db.byHandEach role memberships)) fun p hp => (mem_notLoks.mp hp).2
  have hadded : d.InOrder ((given ++ held) ++ lacked) := by
    refine hclaimed.addMemberships not_due hok fun p hp => ?_
    obtain ⟨hp, m, hm, hlacks, hhand⟩ := hlacked p hp
    obtain ⟨hr, hk, -⟩ := mem_byHandEach.mp (mem_notLoks.mp hp).1
    rw [hr] at hlacks hhand
    exact ⟨hr, hk, m, hm, hlacks, hhand⟩
  refine hadded.subset fun p hp => ?_
  rw [List.append_assoc]
  exact (List.mem_append.mp hp).elim (List.mem_append_left _) fun hp =>
    List.mem_append_right _ (List.mem_append.mpr (hnew p hp))

theorem InOrderBut.setMemberships_byHand {memberships : List Pk} (h : db.InOrder given)
    (hok : db.setMemberships role memberships = .ok d) :
    d.InOrder ((given.filter fun p => !(p.2 == role && !memberships.contains p.1))
      ++ db.notLoks (db.byHandEach role memberships)) := by
  obtain ⟨held, lacked, hnew, hheld, hclaimed, hlacked⟩ :=
    h.claimHeld (db.notLoks (db.byHandEach role memberships)) fun p hp => (mem_notLoks.mp hp).2
  refine (hclaimed.setMemberships not_due (fun _ _ hno => hno) hok).subset fun p hp => ?_
  rw [List.filter_append, List.append_assoc]
  rcases List.mem_append.mp hp with hp | hp
  · exact List.mem_append_left _ hp
  · refine List.mem_append_right _ ?_
    obtain ⟨hr, hk, -⟩ := mem_byHandEach.mp (mem_notLoks.mp hp).1
    rcases hnew p hp with hp | hp
    · exact List.mem_append_left _ (List.mem_filter.mpr ⟨hp, by simp [hk]⟩)
    · obtain ⟨-, m, hm, hlacks, -⟩ := hlacked p hp
      rw [hr] at hlacks
      exact List.mem_append_right _
        (List.mem_map.mpr ⟨p.1, mem_pks.mpr ⟨m, hm, by simp [hk, hlacks]⟩, by rw [← hr]⟩)

/-! ## What lok had given before -/

/-- The memberships are in order, and what was given by hand is held, also where lok had given it before. -/
structure InHand (db : DB) (given : List (Pk × Pk)) : Prop where
  inOrder : db.InOrder []
  held : ∀ p ∈ given, ∃ m, db.memberships.row p.1 = some m ∧ p.2 ∈ m.roles

/-- Of what was given by hand, what lok had given before is due as `due` says. -/
def StillDue (db : DB) (given : List (Pk × Pk)) (due : Pk → Membership → Pk → Prop) : Prop :=
  ∀ p ∈ given, ∀ m, db.memberships.row p.1 = some m → p.2 ∈ m.automaticRoles → due p.1 m p.2

theorem InHand.notLoks (h : db.InHand given) : db.InOrder (db.notLoks given) := by
  refine h.inOrder.claim fun p hp => ?_
  obtain ⟨hp, m, hm, hhand⟩ := mem_notLoks.mp hp
  obtain ⟨m', hm', hheld⟩ := h.held p hp
  rw [hm] at hm'
  cases hm'
  exact ⟨m, hm, hheld, hhand⟩

theorem InHand.after (hgifts : d.InOrder (db.notLoks given))
    (hthere : ∀ p ∈ given, ∃ m, db.memberships.row p.1 = some m)
    (hdue : db.StillDue given fun k _ r => d.Due (k, r)) : d.InHand given := by
  refine ⟨hgifts.subset fun p hp => absurd hp (by simp), fun p hp => ?_⟩
  obtain ⟨m, hm⟩ := hthere p hp
  by_cases hauto : p.2 ∈ m.automaticRoles
  · exact (hdue p hp m hm hauto).held hgifts
  · obtain ⟨m', hm', hheld, -⟩ := hgifts.given p (mem_notLoks.mpr ⟨hp, m, hm, hauto⟩)
    exact ⟨m', hm', hheld⟩

theorem InHand.there (h : db.InHand given) : ∀ p ∈ given, ∃ m, db.memberships.row p.1 = some m := fun p hp => by
  obtain ⟨m, hm, -⟩ := h.held p hp
  exact ⟨m, hm⟩

section

variable {membership : Pk} {roles memberships : List Pk}

theorem InHand.still (h : db.InHand given) {new : List (Pk × Pk)}
    (hnew : ∀ p ∈ new, ∃ m, db.memberships.row p.1 = some m)
    (hgifts : d.InOrder (db.notLoks given ++ db.notLoks new)) (hstill : StillEntitled (fun _ => False) db d) :
    d.InHand (given ++ new) :=
  .after (by rwa [notLoks_append]) (fun p hp => (List.mem_append.mp hp).elim (h.there p) (hnew p))
    fun _ _ _ hm hauto =>
    hstill.due (h.inOrder.due hm hauto) id

theorem InHand.filter {f : Pk × Pk → Bool} (h : db.InHand given) (hgifts : d.InOrder ((db.notLoks given).filter f))
    (hauto : ∀ p, f p = true → ∀ m, db.memberships.row p.1 = some m → p.2 ∈ m.automaticRoles →
      ∃ m', d.memberships.row p.1 = some m' ∧ p.2 ∈ m'.automaticRoles) : d.InHand (given.filter f) :=
  .after (by rwa [notLoks_filter]) (fun p hp => h.there p (List.mem_filter.mp hp).1) fun p hp m hm hr => by
    obtain ⟨m', hm', hr'⟩ := hauto p (List.mem_filter.mp hp).2 m hm hr
    exact InOrderBut.due (hgifts.subset fun p hp => absurd hp (by simp) : d.InOrder []) hm' hr'

theorem InHand.createMembership {user organization : Pk} {through : Option Pk} {r : DB × Pk} (h : db.InHand given)
    (hok : db.createMembership user organization through = .ok r) : (r.1.syncServiceRoles [r.2]).InHand given := by
  have hstill : (r.1.syncServiceRoles [r.2]).InHand (given ++ []) := h.still (by simp)
    (by simpa [DB.notLoks] using h.notLoks.createMembership hok) (h.inOrder.createMembership_still hok)
  rwa [List.append_nil] at hstill

theorem InHand.addRoles (h : db.InHand given) (hok : db.addRoles membership roles = .ok d) :
    d.InHand (given ++ byHand membership roles) := by
  refine h.still (fun p hp => ?_) (h.notLoks.addRoles_byHand hok) (h.inOrder.addRoles_still hok)
  obtain ⟨hk, hr⟩ := mem_byHand.mp hp
  rcases addRoles_change hok with ⟨rfl, -⟩ | ⟨m, -, hm, -⟩
  · simp at hr
  · exact ⟨m, hk ▸ hm⟩

theorem InHand.removeRoles (h : db.InHand given)
    (hdue : db.StillDue given fun k m r => k = membership → r ∉ roles →
      db.Entitled { m with roles := removePks m.roles roles } r) :
    (db.removeRoles membership roles).InHand
    (given.filter fun p => !(p.1 == membership && roles.contains p.2)) := by
  refine .after (by rw [notLoks_filter]; exact h.notLoks.removeRoles not_due)
    (fun p hp => h.there p (List.mem_filter.mp hp).1) fun p hp m hm hauto => ?_
  obtain ⟨hp, hkeep⟩ := List.mem_filter.mp hp
  have hstays : p.1 = membership → p.2 ∉ roles := fun hk hr => by simp [hk, hr] at hkeep
  exact h.inOrder.removeRoles_due hm hauto hstays fun hk => hdue p hp m hm hauto hk (hstays hk)

theorem InHand.setRoles (h : db.InHand given) (hok : db.setRoles membership roles = .ok d)
    (hdue : (∀ r ∈ roles, (db.roles.row r).isSome = true) →
      db.StillDue (byHand membership roles) fun _ m r => db.Entitled { m with roles := roles } r) :
    d.InHand ((given.filter fun p => !(p.1 == membership && !roles.contains p.2)) ++ byHand membership roles) := by
  have hgifts := h.notLoks.setRoles_byHand hok
  obtain ⟨m₀, hm₀, hexist⟩ : ∃ m₀, db.memberships.row membership = some m₀
      ∧ ∀ r ∈ roles, (db.roles.row r).isSome = true := by
    simp only [DB.setRoles, bind_ok, Table.get_ok] at hok
    obtain ⟨m₀, hm₀, hok⟩ := hok
    refine ⟨m₀, hm₀, fun r hr => Option.isSome_iff_exists.mpr ?_⟩
    have hremoved : (db.removeRoles membership (removePks m₀.roles roles)).InOrder _ :=
      h.inOrder.removeRoles not_due
    have hroles := (removeRoles_rules db membership (removePks m₀.roles roles)).roles
    by_cases hheld : r ∈ m₀.roles
    · exact h.inOrder.exist membership m₀ hm₀ r hheld
    · have hnew : r ∈ removePks roles m₀.roles := mem_removePks.mpr ⟨hr, hheld⟩
      rcases addRoles_change hok with ⟨hempty, -⟩ | ⟨m₁, -, hm₁, hexist, -⟩
      · rw [hempty] at hnew
        cases hnew
      · rw [← hroles]
        by_cases hheld₁ : r ∈ m₁.roles
        · exact hremoved.exist membership m₁ hm₁ r hheld₁
        · exact hexist r hnew hheld₁
  refine .after (by rwa [notLoks_append, notLoks_filter]) (fun p hp => ?_) fun p hp m hm hauto => ?_
  · rcases List.mem_append.mp hp with hp | hp
    · exact h.there p (List.mem_filter.mp hp).1
    · exact ⟨m₀, (mem_byHand.mp hp).1 ▸ hm₀⟩
  · have hstays : p.1 = membership → p.2 ∈ roles := fun hk => by
      rcases List.mem_append.mp hp with hp | hp
      · simpa [hk] using (List.mem_filter.mp hp).2
      · exact (mem_byHand.mp hp).2
    exact h.inOrder.setRoles_due hok hm hauto hstays fun hk =>
      hdue hexist p (mem_byHand.mpr ⟨hk, hstays hk⟩) m hm hauto

theorem InHand.clearRoles (h : db.InHand given) :
    (db.clearRoles membership).InHand (given.filter fun p => p.1 != membership) := by
  refine .after (by rw [notLoks_filter]; exact h.notLoks.clearRoles not_due)
    (fun p hp => h.there p (List.mem_filter.mp hp).1) fun p hp m hm hauto => ?_
  exact h.inOrder.clearRoles_due hm hauto (by simpa using (List.mem_filter.mp hp).2)

theorem InHand.addMemberships (h : db.InHand given) (hok : db.addMemberships role memberships = .ok d) :
    d.InHand (given ++ db.byHandEach role memberships) :=
  h.still (fun _ hp => (mem_byHandEach.mp hp).2.2) (h.notLoks.addMemberships_byHand hok)
    (h.inOrder.addMemberships_still hok)

theorem InHand.removeMemberships (h : db.InHand given)
    (hdue : db.StillDue given fun k m r => k ∈ memberships → role ∈ m.roles → r ≠ role →
      db.Entitled (m.without role) r) :
    (db.removeMemberships role memberships).InHand
    (given.filter fun p => !(p.2 == role && memberships.contains p.1)) := by
  refine .after (by rw [notLoks_filter]; exact h.notLoks.removeMemberships not_due)
    (fun p hp => h.there p (List.mem_filter.mp hp).1) fun p hp m hm hauto => ?_
  obtain ⟨hp, hkeep⟩ := List.mem_filter.mp hp
  have hstays : p.1 ∈ memberships → p.2 ≠ role := fun hk hr => by simp [hk, hr] at hkeep
  exact h.inOrder.removeMemberships_due hm hauto hstays fun hk hheld => hdue p hp m hm hauto hk hheld (hstays hk)

theorem InHand.setMemberships (h : db.InHand given) (hok : db.setMemberships role memberships = .ok d)
    (hdue : (∀ k ∈ memberships, ∀ m, db.memberships.row k = some m → role ∉ m.roles → db.isScoped k = false) →
      db.StillDue given fun k m r => k ∉ memberships → role ∈ m.roles → r ≠ role →
      db.Entitled (m.without role) r) :
    d.InHand ((given.filter fun p => !(p.2 == role && !memberships.contains p.1)) ++ db.byHandEach role
      memberships) := by
  have hgifts := h.notLoks.setMemberships_byHand hok
  have hfull : ∀ k ∈ memberships, ∀ m, db.memberships.row k = some m → role ∉ m.roles → db.isScoped k = false := by
    intro k hk m hm hlacks
    unfold DB.setMemberships at hok
    extract_lets held db₁ at hok
    have hnot : k ∉ held := fun hheld => by
      obtain ⟨m', hm', hr⟩ := mem_pks.mp hheld
      rw [hm] at hm'
      cases hm'
      exact hlacks (by simpa using hr)
    obtain ⟨m', hm', hsame⟩ : ∃ m', db₁.memberships.row k = some m' ∧ SameRoles m m' :=
      removeMemberships_others h.inOrder.apart hm fun hmem => hnot (mem_removePks.mp hmem).1
    have hscoped : db₁.isScoped k = db.isScoped k := by
      obtain ⟨t, -, heq⟩ := removeMemberships_change db role (removePks held memberships)
      exact (show db₁ = _ from heq) ▸ (sync_rules db t _).isScoped k
    simp only [DB.addMemberships, bind_ok, Table.get_ok, require_ok, exists_unit, pure_ok, List.all_eq_true,
      Bool.not_eq_true'] at hok
    obtain ⟨_, -, hmissing, -⟩ := hok
    rw [← hscoped]
    exact hmissing k (mem_pks.mpr ⟨m', hm', by simp [hsame.roles, hlacks, hk, hnot]⟩)
  refine .after (by rwa [notLoks_append, notLoks_filter]) (fun p hp => ?_) fun p hp m hm hauto => ?_
  · exact (List.mem_append.mp hp).elim (fun hp => h.there p (List.mem_filter.mp hp).1)
      fun hp => (mem_byHandEach.mp hp).2.2
  · have hgiven : p.1 ∉ memberships → p ∈ given ∧ p.2 ≠ role := fun hk => by
      rcases List.mem_append.mp hp with hp | hp
      · obtain ⟨hp, hkeep⟩ := List.mem_filter.mp hp
        exact ⟨hp, fun hr => by simp [hr, hk] at hkeep⟩
      · exact absurd (mem_byHandEach.mp hp).2.1 hk
    exact h.inOrder.setMemberships_due hok hm hauto (fun hk => (hgiven hk).2) fun hk hheld =>
      hdue hfull p (hgiven hk).1 m hm hauto hk hheld (hgiven hk).2

theorem InHand.clearMemberships (h : db.InHand given) (hspare : db.Dispensable role)
    (hlacks : ∀ k m, db.memberships.row k = some m → db.isScoped k = false → role ∈ m.roles →
      ¬ db.Entitled (m.without role) role) :
    (db.clearMemberships role).InHand (given.filter fun p => p.2 != role) :=
  h.filter (h.notLoks.clearMemberships hspare hlacks) fun p _ m hm hauto => by
    obtain ⟨m', hm', hsame⟩ := (clearMemberships_rows db role).after hm
    exact ⟨m', hm', by rw [hsame.automatic]; exact hauto⟩

theorem InHand.renameRole {identifier : String} (h : db.InHand given) (hrenamable : db.Renamable role identifier)
    (hok : db.renameRole role identifier = .ok d) : d.InHand given := by
  have hgifts := h.notLoks.renameRole hrenamable hok
  refine .after hgifts h.there fun p _ m hm hauto => ?_
  obtain ⟨m', hm', hsame⟩ := (renameRole_renamed hok).1.memberships.after hm
  exact (hgifts.subset fun p hp => absurd hp (by simp) : d.InOrder []).due hm'
    (by rw [hsame.automatic]; exact hauto)

theorem InHand.deleteRole (h : db.InHand given) (hspare : db.Dispensable role) :
    (db.delete .role [⟨.role, role⟩] none).InHand (given.filter fun p => p.2 != role) :=
  h.filter (h.notLoks.deleteRole not_due fun k m hm hkept r hr => hspare.still hm hkept hr)
    fun p hne m hm hauto => by
    obtain ⟨m', hm', hdropped⟩ := (delete_role_rows db role).after hm
    exact ⟨m', hm', (hdropped.automatic _).mpr ⟨hauto, by simpa using hne⟩⟩

theorem InHand.changeOrganizationOwner {user organization newOwner : Pk} (h : db.InHand given)
    (hok : db.changeOrganizationOwner user organization newOwner = .ok d)
    (hdue : (∃ o, db.organizations.row organization = some o ∧ o.owner = user) →
      (db.memberships.exists? fun k m => m.organization == organization && m.user == newOwner
        && !db.isScoped k) = true →
        db.StillDue given fun _ m r => (db.ownedBy organization newOwner).Entitled m r) : d.InHand given := by
  refine .after (h.notLoks.changeOrganizationOwner hok) h.there fun p hp m hm hauto => ?_
  have hstill : StillEntitled (fun _ => False) (db.ownedBy organization newOwner) d :=
    h.inOrder.changeOrganizationOwner_still hok
  simp only [DB.changeOrganizationOwner, bind_ok, Table.get_ok, require_ok, exists_unit, beq_iff_eq] at hok
  obtain ⟨o, ho, howner, hmember, -⟩ := hok
  have hfull := ((h.inOrder.kept hm).automatic _ hauto).2.1
  exact hstill.due ⟨m, hm, hfull, hdue ⟨o, ho, howner⟩ hmember p hp m hm hauto⟩ id

theorem InHand.upgradeToFull (h : db.InHand given)
    (hholds : ∀ m, db.memberships.row membership = some m → db.isScoped membership = true →
      ∀ r, db.Entitled m r → r ∈ m.roles) : (db.upgradeToFull membership).InHand given :=
  .after (h.notLoks.upgradeToFull hholds) h.there fun _ _ _ hm hauto => by
    have hstill : StillEntitled (fun _ => False) db (db.upgradeToFull membership) :=
      upgradeToFull_still db membership
    exact hstill.due (h.inOrder.due hm hauto) id

theorem InHand.registerPermissions {instance_ organization : Pk} {declarations : List RoleDeclaration}
    {scopes : List ScopeDeclaration} (h : db.InHand given) (hkeys : db.LeavesAdminApart organization declarations)
    (hdue : db.StillDue given fun _ m r => db.DeclaredDue organization declarations m r) :
    (db.registerPermissions instance_ organization declarations scopes).InHand
      ((db.registerPermissions instance_ organization declarations scopes).standing given) := by
  have hgifts := @InOrderBut.registerPermissions _ _ instance_ organization declarations scopes h.notLoks hkeys
  have hstill := @InOrderBut.registerPermissions_still db
    [] organization instance_ declarations scopes h.inOrder hkeys
  have hdeclared : ∀ p ∈ given, ∀ m, db.memberships.row p.1 = some m → p.2 ∈ m.automaticRoles →
      (db.declared instance_ organization declarations scopes).Due p := fun p hp m hm hauto => by
    obtain ⟨-, hfull, hr⟩ := (h.inOrder.kept hm).automatic _ hauto
    have hentitled : (db.declared instance_ organization declarations scopes).Entitled m p.2 :=
      (hdue p hp m hm hauto).entitled hr
    rw [declared_eq] at hentitled ⊢
    exact ⟨m, hm, hfull, hentitled⟩
  generalize db.registerPermissions instance_ organization declarations scopes = d at hgifts hstill ⊢
  unfold standing at hgifts ⊢
  rw [← notLoks_filter] at hgifts
  refine .after hgifts (fun p hp => h.there p (List.mem_filter.mp hp).1) fun p hp m hm hauto => ?_
  obtain ⟨hp, hstands⟩ := List.mem_filter.mp hp
  refine hstill.due (hdeclared p hp m hm hauto) fun hnone => ?_
  rw [hnone] at hstands
  cases hstands

end

end DB

/-! ## Any sequence of changes -/

inductive RoleEvent
  | createMembership (user organization : Pk) (through : Option Pk)
  | addRoles (membership : Pk) (roles : List Pk)
  | removeRoles (membership : Pk) (roles : List Pk)
  | setRoles (membership : Pk) (roles : List Pk)
  | clearRoles (membership : Pk)
  | addMemberships (role : Pk) (memberships : List Pk)
  | removeMemberships (role : Pk) (memberships : List Pk)
  | setMemberships (role : Pk) (memberships : List Pk)
  | clearMemberships (role : Pk)
  | renameRole (role : Pk) (identifier : String)
  | deleteRole (role : Pk)
  | changeOrganizationOwner (user organization newOwner : Pk)
  | upgradeToFull (membership : Pk)
  | registerPermissions (instance_ organization : Pk) (roles : List RoleDeclaration)
    (scopes : List ScopeDeclaration)

/-- A new membership is synced once its transaction is committed. -/
def RoleEvent.apply (db : DB) : RoleEvent → DB
  | .createMembership user organization through =>
    db.settle ((db.createMembership user organization through).map fun r => r.1.syncServiceRoles [r.2])
  | .addRoles membership roles => db.settle (db.addRoles membership roles)
  | .removeRoles membership roles => db.removeRoles membership roles
  | .setRoles membership roles => db.settle (db.setRoles membership roles)
  | .clearRoles membership => db.clearRoles membership
  | .addMemberships role memberships => db.settle (db.addMemberships role memberships)
  | .removeMemberships role memberships => db.removeMemberships role memberships
  | .setMemberships role memberships => db.settle (db.setMemberships role memberships)
  | .clearMemberships role => db.clearMemberships role
  | .renameRole role identifier => db.settle (db.renameRole role identifier)
  | .deleteRole role => db.delete .role [⟨.role, role⟩] none
  | .changeOrganizationOwner user organization newOwner =>
    db.settle (db.changeOrganizationOwner user organization newOwner)
  | .upgradeToFull membership => db.upgradeToFull membership
  | .registerPermissions instance_ organization roles scopes =>
    db.registerPermissions instance_ organization roles scopes

/-- What was given by hand, and nobody took away: with a role that is deleted all gifts of it are gone. -/
def RoleEvent.given (db : DB) (given : List (Pk × Pk)) : RoleEvent → List (Pk × Pk)
  | .addRoles membership roles =>
    match db.addRoles membership roles with
    | .ok _ => given ++ DB.byHand membership roles
    | .error _ => given
  | .removeRoles membership roles => given.filter fun p => !(p.1 == membership && roles.contains p.2)
  | .setRoles membership roles =>
    match db.setRoles membership roles with
    | .ok _ => (given.filter fun p => !(p.1 == membership && !roles.contains p.2)) ++ DB.byHand membership roles
    | .error _ => given
  | .clearRoles membership => given.filter fun p => p.1 != membership
  | .addMemberships role memberships =>
    match db.addMemberships role memberships with
    | .ok _ => given ++ db.byHandEach role memberships
    | .error _ => given
  | .removeMemberships role memberships => given.filter fun p => !(p.2 == role && memberships.contains p.1)
  | .setMemberships role memberships =>
    match db.setMemberships role memberships with
    | .ok _ =>
      (given.filter fun p => !(p.2 == role && !memberships.contains p.1)) ++ db.byHandEach role memberships
    | .error _ => given
  | .clearMemberships role => given.filter fun p => p.2 != role
  | .deleteRole role => given.filter fun p => p.2 != role
  | .registerPermissions instance_ organization roles scopes =>
    (db.registerPermissions instance_ organization roles scopes).standing given
  | _ => given

/-- The changes no sync follows take nothing away that lok handed out, and make nobody entitled to more;
what is given by hand over what lok had given stays due. -/
def RoleEvent.Orderly (db : DB) (given : List (Pk × Pk)) : RoleEvent → Prop
  | .removeRoles membership roles => db.StillDue given fun k m r => k = membership → r ∉ roles →
      db.Entitled { m with roles := removePks m.roles roles } r
  | .setRoles membership roles => (∀ r ∈ roles, (db.roles.row r).isSome = true) →
      db.StillDue (DB.byHand membership roles) fun _ m r => db.Entitled { m with roles := roles } r
  | .removeMemberships role memberships =>
    db.StillDue given fun k m r => k ∈ memberships → role ∈ m.roles → r ≠ role →
      db.Entitled (m.without role) r
  | .setMemberships role memberships =>
      (∀ k ∈ memberships, ∀ m, db.memberships.row k = some m → role ∉ m.roles → db.isScoped k = false) →
        db.StillDue given fun k m r => k ∉ memberships → role ∈ m.roles → r ≠ role → db.Entitled (m.without role) r
  | .clearMemberships role => db.Dispensable role ∧ ∀ k m, db.memberships.row k = some m → db.isScoped k = false →
      role ∈ m.roles → ¬ db.Entitled (m.without role) role
  | .renameRole role identifier => db.Renamable role identifier
  | .deleteRole role => db.Dispensable role
  | .changeOrganizationOwner user organization newOwner =>
      (∃ o, db.organizations.row organization = some o ∧ o.owner = user) →
        (db.memberships.exists? fun k m => m.organization == organization && m.user == newOwner
          && !db.isScoped k) = true →
          db.StillDue given fun _ m r => (db.ownedBy organization newOwner).Entitled m r
  | .upgradeToFull membership => ∀ m, db.memberships.row membership = some m → db.isScoped membership = true →
      ∀ r, db.Entitled m r → r ∈ m.roles
  | .registerPermissions _ organization roles _ => db.LeavesAdminApart organization roles
      ∧ db.StillDue given fun _ m r => db.DeclaredDue organization roles m r
  | _ => True

/-- One change, of the state and of what was given by hand. -/
def RoleStep (s : DB × List (Pk × Pk)) (e : RoleEvent) (t : DB × List (Pk × Pk)) : Prop :=
  t = (e.apply s.1, e.given s.1 s.2)

def OrderlyStep (s : DB × List (Pk × Pk)) (e : RoleEvent) (t : DB × List (Pk × Pk)) : Prop :=
  e.Orderly s.1 s.2 ∧ RoleStep s e t

theorem RoleEvent.inHand {db : DB} {given : List (Pk × Pk)} (h : db.InHand given) (e : RoleEvent)
    (he : e.Orderly db given) :
    (e.apply db).InHand (e.given db given) := by
  cases e with
  | createMembership user organization through =>
    simp only [apply, RoleEvent.given, DB.settle]
    cases hok : db.createMembership user organization through with
    | error => exact h
    | ok r => exact h.createMembership hok
  | addRoles membership roles =>
    simp only [apply, RoleEvent.given, DB.settle]
    cases hok : db.addRoles membership roles with
    | error => exact h
    | ok d => exact h.addRoles hok
  | removeRoles membership roles => exact h.removeRoles he
  | setRoles membership roles =>
    simp only [apply, RoleEvent.given, DB.settle]
    cases hok : db.setRoles membership roles with
    | error => exact h
    | ok d => exact h.setRoles hok he
  | clearRoles membership => exact h.clearRoles
  | addMemberships role memberships =>
    simp only [apply, RoleEvent.given, DB.settle]
    cases hok : db.addMemberships role memberships with
    | error => exact h
    | ok d => exact h.addMemberships hok
  | removeMemberships role memberships => exact h.removeMemberships he
  | setMemberships role memberships =>
    simp only [apply, RoleEvent.given, DB.settle]
    cases hok : db.setMemberships role memberships with
    | error => exact h
    | ok d => exact h.setMemberships hok he
  | clearMemberships role => exact h.clearMemberships he.1 he.2
  | renameRole role identifier =>
    simp only [apply, RoleEvent.given, DB.settle]
    cases hok : db.renameRole role identifier with
    | error => exact h
    | ok d => exact h.renameRole he hok
  | deleteRole role => exact h.deleteRole he
  | changeOrganizationOwner user organization newOwner =>
    simp only [apply, RoleEvent.given, DB.settle]
    cases hok : db.changeOrganizationOwner user organization newOwner with
    | error => exact h
    | ok d => exact h.changeOrganizationOwner hok he
  | upgradeToFull membership => exact h.upgradeToFull he
  | registerPermissions instance_ organization roles scopes => exact h.registerPermissions he.1 he.2

/-! ## What is handed out -/

/-- What lok gives by itself is where it belongs, and what was given by hand is held. -/
structure DB.HandsOut (db : DB) (given : List (Pk × Pk)) : Prop where
  defaults : ∀ k m, db.memberships.row k = some m → db.isScoped k = false → ∀ r x, db.roles.row r = some x →
    x.organization = m.organization → x.isDefaultRole = true → r ∉ m.withheldRoles → r ∈ m.roles
  admins : ∀ k m, db.memberships.row k = some m → db.isScoped k = false → db.administers m = true →
    ∀ r x, db.roles.row r = some x → x.organization = m.organization → x.isAdminRole = true → r ∈ m.roles
  automatic : ∀ k m, db.memberships.row k = some m → ∀ r ∈ m.automaticRoles,
    r ∈ m.roles ∧ db.isScoped k = false ∧ db.Entitled m r
  given : ∀ p ∈ given, ∃ m, db.memberships.row p.1 = some m ∧ p.2 ∈ m.roles

theorem DB.InHand.handsOut {db : DB} {given : List (Pk × Pk)} (h : db.InHand given) : db.HandsOut given where
  defaults _ _ hm hfull r x hx ho hdefault hnot :=
    (h.inOrder.kept hm).held hfull r ⟨x, hx, ho, .inr ⟨hdefault, hnot⟩⟩
  admins _ _ hm hfull hadministers r x hx ho hadmin :=
    (h.inOrder.kept hm).held hfull r ⟨x, hx, ho, .inl ⟨hadmin, hadministers⟩⟩
  automatic _ _ hm := (h.inOrder.kept hm).automatic
  given := h.held

/-- Along orderly changes what lok gives by itself stays where it belongs, and gifts stay. -/
theorem handed_out_along_runs {db d : DB} {given given' : List (Pk × Pk)} {es : List RoleEvent}
    (h : db.InHand given)
    (hrun : Run OrderlyStep (db, given) es (d, given')) : d.HandsOut given' := by
  have hin : d.InHand given' :=
    hrun.invariant (P := fun s : DB × List (Pk × Pk) => s.1.InHand s.2) (fun hs hstep => by
      obtain ⟨he, rfl⟩ := hstep
      exact RoleEvent.inHand hs _ he) h
  exact hin.handsOut

/-! ## Before any service handed out roles -/

theorem DB.inOrder_of_bare {db : DB}
    (hroles : ∀ r x, db.roles.row r = some x →
      x.isAdminRole = false ∧ x.isDefaultRole = false ∧ (x.identifier = adminRole → x.creatingInstance = none))
    (hmembers : ∀ k m, db.memberships.row k = some m →
      m.automaticRoles = [] ∧ ∀ r ∈ m.roles, (db.roles.row r).isSome = true) :
    db.InOrder [] := by
  have hnone : ∀ m r, ¬ db.Entitled m r := by
    rintro m r ⟨x, hx, -, hflag⟩
    obtain ⟨hadmin, hdefault, -⟩ := hroles r x hx
    rw [hadmin, hdefault] at hflag
    exact hflag.elim (fun h => nomatch h.1) fun h => nomatch h.1
  refine ⟨fun k m hm => .inl ⟨fun _ r hr => absurd hr (hnone m r), fun r hr => ?_⟩, fun k m hm r hr => ?_,
    fun k m hm r hr => Option.isSome_iff_exists.mp ((hmembers k m hm).2 r hr), by simp, fun r x hx hname => ?_⟩
  · rw [(hmembers k m hm).1] at hr
    cases hr
  · rw [(hmembers k m hm).1] at hr
    cases hr
  · obtain ⟨hadmin, hdefault, hmaker⟩ := hroles r x hx
    exact ⟨hadmin, hdefault, hmaker hname⟩

/-- Bob is a member of Ann's organization, where a service runs. -/
def bobsMembership : List Action :=
  [.createUser "ann" [], .createUser "bob" [], .createOrganization "org" 0 false, .configureHub 0 plainHub,
   .createMembership 1 0]

theorem bobsMembership_inOrder : (run plainEnv .empty bobsMembership).InOrder [] := by
  refine DB.inOrder_of_bare ?_ ?_ <;> simp only [forall_row_iff] <;> decide +kernel

theorem removable_of_defaults {db : DB} {given : List (Pk × Pk)} {membership : Pk} {roles : List Pk}
    (hdefault : given.all (fun p => (db.memberships.row p.1).all fun m => !m.automaticRoles.contains p.2
      || (db.roles.row p.2).any fun x => x.organization == m.organization && x.isDefaultRole
        && !m.withheldRoles.contains p.2) = true) :
    (RoleEvent.removeRoles membership roles).Orderly db given := by
  intro p hp m hm hauto _ _
  have hp := List.all_eq_true.mp hdefault p hp
  rw [hm] at hp
  obtain ⟨x, hx, ⟨ho, hdefault⟩, hnot⟩ : ∃ x, db.roles.row p.2 = some x
      ∧ (x.organization = m.organization ∧ x.isDefaultRole = true) ∧ p.2 ∉ m.withheldRoles := by
    simpa [hauto, Option.any_eq_true] using hp
  exact ⟨x, hx, ho, .inr ⟨hdefault, hnot⟩⟩

/-- The service declares a role for every member, Bob is given it and made an admin by hand, and is no admin
any more. -/
theorem handed_out_along_runs_withheld :
    ∃ d given, Run OrderlyStep (run plainEnv .empty bobsMembership, [])
        [.registerPermissions 0 0 [⟨"data_user", none, false, true⟩] [], .addRoles 1 [0, 2],
         .removeRoles 1 [0]] (d, given)
      ∧ d.HandsOut given ∧ given = [(1, 2)] := by
  have hrun : ∃ d given, Run OrderlyStep (run plainEnv .empty bobsMembership, [])
      [.registerPermissions 0 0 [⟨"data_user", none, false, true⟩] [], .addRoles 1 [0, 2],
       .removeRoles 1 [0]] (d, given)
        ∧ given = [(1, 2)] := by
    refine ⟨_, _, .cons ⟨⟨fun x hx hname => ?_, by simp [DB.StillDue]⟩, rfl⟩
      (.cons ⟨trivial, rfl⟩ (.cons ⟨?_, rfl⟩ (.nil _))), ?_⟩
    · rw [List.mem_singleton] at hx
      subst hx
      exact absurd hname (by decide)
    · exact removable_of_defaults (by decide +kernel)
    · decide +kernel
  obtain ⟨d, given, hrun, hgiven⟩ := hrun
  exact ⟨d, given, hrun, handed_out_along_runs ⟨bobsMembership_inOrder, by simp⟩ hrun, hgiven⟩

theorem not_handsOut {db : DB} {given : List (Pk × Pk)} (k r : Pk)
    (hlacks : ((db.memberships.row k).any
      fun m => m.organization == 0 && !m.roles.contains r && !m.withheldRoles.contains r) = true)
    (hfull : db.isScoped k = false)
    (hdefault : ((db.roles.row r).any fun x => x.organization == 0 && x.isDefaultRole) = true) :
    ¬ db.HandsOut given := by
  intro h
  obtain ⟨m, hm, hlacks⟩ := (Option.any_eq_true _ _).mp hlacks
  obtain ⟨x, hx, hdefault⟩ := (Option.any_eq_true _ _).mp hdefault
  simp only [Bool.and_eq_true, beq_iff_eq, Bool.not_eq_true', List.contains_eq_mem,
    decide_eq_false_iff_not] at hlacks hdefault
  exact hlacks.1.2 (h.defaults k m hm hfull r x hx (hdefault.1.trans hlacks.1.1.symm) hdefault.2 hlacks.2)

/-- A role every member holds is cleared from its own side: nobody holds it, and no sync follows. -/
theorem cleared_default_role_is_lost :
    ∃ d given, (run plainEnv .empty bobsMembership).InOrder []
      ∧ Run RoleStep (run plainEnv .empty bobsMembership, [])
        [.registerPermissions 0 0 [⟨"data_user", none, false, true⟩] [], .clearMemberships 2] (d, given)
      ∧ ¬ d.HandsOut given :=
  ⟨_, _, bobsMembership_inOrder, .cons rfl (.cons rfl (.nil _)),
    not_handsOut 1 2 (by decide +kernel) (by decide +kernel) (by decide +kernel)⟩

end Lok
