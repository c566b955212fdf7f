import Lok.SystemWrites

/-!
# Guests

Whoever has grants has no roles and is no admin, and whoever loses the last grant loses the
membership, unless they were made a full member. The first is an invariant of every write.
The second rests on the receiver of a deleted grant, which stands back when the deletion
began at a membership, an organization or a user: then it holds of the deletions that leave
no membership behind without the grants they took.
-/

namespace Lok

open Table Runs Checks

/-- What some iteration establishes and every iteration keeps, the loop establishes. -/
theorem foldl_establishes {σ α : Type} {f : σ → α → σ} {I Q : σ → Prop} : ∀ {l : List α} {s : σ},
    (∀ a ∈ l, ∀ s, I s → I (f s a) ∧ (Q s → Q (f s a))) → (∃ a ∈ l, ∀ s, I s → Q (f s a)) → I s → Q (l.foldl f s)
  | [], _, _, h, _ => by obtain ⟨_, ha, _⟩ := h; cases ha
  | b :: l, s, hkeep, h, hs => by
    rw [List.foldl_cons]
    have hkeep' : ∀ a ∈ l, ∀ s, I s → I (f s a) ∧ (Q s → Q (f s a)) := fun a ha => hkeep a (by simp [ha])
    obtain ⟨a, ha, hq⟩ := h
    rcases List.mem_cons.mp ha with rfl | ha
    · exact (foldl_invariant (P := fun s => I s ∧ Q s)
        (fun a ha s hs => ⟨(hkeep' a ha s hs.1).1, (hkeep' a ha s hs.1).2 hs.2⟩)
        ⟨(hkeep a (by simp) s hs).1, hq s hs⟩).2
    · exact foldl_establishes hkeep' ⟨a, ha, hq⟩ (hkeep b (by simp) s hs).1

namespace DB

variable {db d : DB} {l : Label}

/-! ## The laws -/

structure GuestLaws (db : DB) : Prop where
  /-- A cached admin holds the admin role. -/
  admin : ∀ pk m, db.memberships.row pk = some m → m.isAdmin = true → db.holdsAdmin m = true
  /-- A grant is someone's. -/
  owned : ∀ pk g, db.grants.row pk = some g → g.membership < db.memberships.next
  guest : ∀ pk m, db.memberships.row pk = some m → db.hasGrants pk = true → m.roles = []

theorem GuestLaws.empty : DB.empty.GuestLaws := ⟨by simp [DB.empty], by simp [DB.empty], by simp [DB.empty]⟩

theorem hasGrants_iff {pk : Pk} :
    db.hasGrants pk = true ↔ ∃ k g, db.grants.row k = some g ∧ g.membership = pk := by
  simp [hasGrants, exists?_eq_true]

theorem GuestLaws.notAdmin (h : db.GuestLaws) {pk : Pk} {m : Membership} (hm : db.memberships.row pk = some m)
    (hroles : m.roles = []) : m.isAdmin = false := by
  cases ha : m.isAdmin with
  | false => rfl
  | true =>
    have := h.admin pk m hm ha
    simp [holdsAdmin, hroles] at this

theorem holdsAdmin_iff {m : Membership} :
    db.holdsAdmin m = true ↔ ∃ r ∈ m.roles, ∃ x, db.roles.row r = some x ∧ x.identifier = adminRole := by
  simp only [holdsAdmin, List.any_eq_true]
  refine exists_congr fun r => and_congr_right fun _ => ?_
  cases db.roles.row r <;> simp

theorem holdsAdmin_mono {m m' : Membership} (h : db.holdsAdmin m = true) (hroles : ∀ r ∈ m.roles, r ∈ m'.roles)
    (hkeep : ∀ r x, db.roles.row r = some x → ∃ y, d.roles.row r = some y ∧ y.identifier = x.identifier) :
    d.holdsAdmin m' = true := by
  obtain ⟨r, hr, x, hx, hid⟩ := holdsAdmin_iff.mp h
  obtain ⟨y, hy, hyx⟩ := hkeep r x hx
  exact holdsAdmin_iff.mpr ⟨r, hroles r hr, y, hy, hyx.trans hid⟩

/-! ## Roles change -/

theorem GuestLaws.memberships {t : Table Membership} (h : db.GuestLaws)
    (ht : Rewrites (Regrade db) db.memberships t) :
    ({ db with memberships := t } : DB).GuestLaws where
  admin pk m' hm' ha := by
    obtain ⟨m, hm, hR⟩ := ht.before hm'
    rcases hR.isAdmin ha with hholds | ⟨hwas, hroles⟩
    · exact hholds
    · exact holdsAdmin_mono (h.admin pk m hm hwas) hroles fun r x hx => ⟨x, hx, rfl⟩
  owned pk g hg := ht.1 ▸ h.owned pk g hg
  guest pk m' hm' hg := by
    obtain ⟨m, hm, hR⟩ := ht.before hm'
    have hroles := h.guest pk m hm hg
    rcases hR.roles with hless | hfree
    · refine List.eq_nil_iff_forall_not_mem.mpr fun r hr => ?_
      have := hless r hr
      rw [hroles] at this
      cases this
    · have hg' : db.hasGrants pk = true := hg
      rw [hfree] at hg'
      cases hg'

theorem GuestLaws.roles {t : Table Role} (h : db.GuestLaws)
    (hkeep : ∀ r x, db.roles.row r = some x → ∃ y, t.row r = some y ∧ y.identifier = x.identifier) :
    ({ db with roles := t } : DB).GuestLaws :=
  ⟨fun pk m hm ha => holdsAdmin_mono (h.admin pk m hm ha) (fun _ => id) hkeep, h.owned, h.guest⟩

theorem GuestLaws.renameRole {role : Pk} {identifier : String} (h : db.GuestLaws)
    (hd : db.renameRole role identifier = .ok d) :
    d.GuestLaws := by
  obtain ⟨r, l, hr, rfl, hl⟩ := renameRole_ok hd
  refine ⟨fun pk m' hm' ha => ?_, h.owned, fun pk m' hm' hg => ?_⟩
  · obtain ⟨m, hm, rfl⟩ := update_row_eq_some.mp hm'
    dsimp only at hm ha ⊢
    by_cases hin : l.contains pk = true
    · rw [if_pos hin] at ha ⊢
      exact ha
    · rw [if_neg hin] at ha ⊢
      obtain ⟨k, hk, x, hx, hid⟩ := holdsAdmin_iff.mp (h.admin pk m hm ha)
      refine holdsAdmin_iff.mpr ⟨k, hk, ?_⟩
      by_cases hkr : k = role
      · subst hkr
        rw [hr] at hx
        cases hx
        rcases hl with hsame | rfl
        · refine ⟨_, modify_row_eq_some.mpr (.inr ⟨rfl, r, hr, rfl⟩), ?_⟩
          simpa [hid] using hsame
        · refine absurd ?_ hin
          simp only [List.contains_eq_mem, decide_eq_true_eq]
          exact mem_pks.mpr ⟨m, hm, by simpa using hk⟩
      · exact ⟨x, modify_row_eq_some.mpr (.inl ⟨hkr, hx⟩), hid⟩
  · obtain ⟨m, hm, rfl⟩ := update_row_eq_some.mp hm'
    have hroles := h.guest pk m hm hg
    split <;> exact hroles

/-! ## Deletions -/

theorem admin_removeCascade {S : List Model} (hS : Within S) {roots : List Ref} (hroots : ∀ r ∈ roots, r.model ∈ S)
    (hrole : .role ∉ S) (h : ∀ pk m, db.memberships.row pk = some m → m.isAdmin = true → db.holdsAdmin m = true) :
    ∀ pk m, (db.removeCascade roots).memberships.row pk = some m → m.isAdmin = true →
    (db.removeCascade roots).holdsAdmin m = true := by
  intro pk m' hm' ha
  obtain ⟨m, hm, rfl⟩ := update_row_eq_some.mp hm'
  obtain ⟨r, hr, x, hx, hid⟩ := holdsAdmin_iff.mp (h pk m (keep_row_eq_some.mp hm).1 ha)
  have hstays : (⟨.role, r⟩ : Ref) ∉ db.collect roots := fun hgone => hrole (collect_within hS hroots hgone)
  refine holdsAdmin_iff.mpr ⟨r, mem_keepList.mpr ⟨hr, hstays⟩, ?_⟩
  exact ⟨_, update_row_eq_some.mpr ⟨x, keep_row_eq_some.mpr ⟨hx, by simpa [keeps] using hstays⟩, rfl⟩, hid⟩

theorem admin_syncAdmin (roots : List Ref)
    (h : ∀ pk m, db.memberships.row pk = some m → m.isAdmin = true → db.holdsAdmin m = true) :
    ∀ pk m, ((db.removeCascade roots).syncAdmin (db.losesAdmin roots)).memberships.row pk = some m →
    m.isAdmin = true →
      ((db.removeCascade roots).syncAdmin (db.losesAdmin roots)).holdsAdmin m = true := by
  intro pk m' hm' ha
  obtain ⟨m₁, hm₁, rfl⟩ := update_row_eq_some.mp hm'
  by_cases hin : (db.losesAdmin roots).contains pk = true
  · rw [if_pos hin] at ha ⊢
    exact ha
  · rw [if_neg hin] at ha ⊢
    obtain ⟨m, hm, rfl⟩ := update_row_eq_some.mp hm₁
    have hrow := (keep_row_eq_some.mp hm).1
    obtain ⟨r, hr, x, hx, hid⟩ := holdsAdmin_iff.mp (h pk m hrow ha)
    have hstays : (⟨.role, r⟩ : Ref) ∉ db.collect roots := by
      intro hgone
      refine hin ?_
      simp only [List.contains_eq_mem, decide_eq_true_eq]
      refine mem_pks.mpr ⟨m, hrow, List.any_eq_true.mpr ⟨r, hr, ?_⟩⟩
      simp only [List.contains_eq_mem, decide_eq_true_eq]
      exact mem_pks.mpr ⟨x, hx, by simp [hgone, hid]⟩
    refine holdsAdmin_iff.mpr ⟨r, mem_keepList.mpr ⟨hr, hstays⟩, ?_⟩
    exact ⟨_, update_row_eq_some.mpr ⟨x, keep_row_eq_some.mpr ⟨hx, by simpa [keeps] using hstays⟩, rfl⟩, hid⟩

theorem hasGrants_of_shrinks (h : Shrinks db d) {pk : Pk} (hg : d.hasGrants pk = true) :
    db.hasGrants pk = true := by
  obtain ⟨k, g, hk, rfl⟩ := hasGrants_iff.mp hg
  obtain ⟨g₀, hk₀, _, _, rfl, -⟩ := h.grants.2 k g hk
  exact hasGrants_iff.mpr ⟨k, g₀, hk₀, rfl⟩

theorem GuestLaws.delete (h : db.GuestLaws) (origin : Model) (roots : List Ref) (upgrading : Option Pk) :
    (db.delete origin roots upgrading).GuestLaws where
  admin := delete_induct_sync
    (P := fun d : DB => ∀ pk m, d.memberships.row pk = some m → m.isAdmin = true → d.holdsAdmin m = true)
    (fun _ _ hd => admin_removeCascade withMemberships_within (by simp [withMemberships])
      (by simp [withMemberships]) hd)
    (fun _ _ hd => admin_removeCascade withClients_within (by simp [withClients]) (by simp [withClients]) hd)
    (admin_syncAdmin roots h.admin)
  owned pk g hg := by
    obtain ⟨g₀, hg₀, _, _, rfl, -⟩ := (delete_shrinks db origin roots upgrading).grants.2 pk g hg
    rw [(delete_shrinks db origin roots upgrading).memberships.1]
    exact h.owned pk g₀ hg₀
  guest pk m hm hg := by
    obtain ⟨m₀, hm₀, -, -, hroles⟩ := (delete_shrinks db origin roots upgrading).memberships.2 pk m hm
    have hnone := h.guest pk m₀ hm₀ (hasGrants_of_shrinks (delete_shrinks db origin roots upgrading) hg)
    refine List.eq_nil_iff_forall_not_mem.mpr fun r hr => ?_
    have := hroles r hr
    rw [hnone] at this
    cases this

/-! ## Every write -/

theorem hasGrants_insert {g : CollaborationGrant} {pk : Pk} :
    ({ db with grants := db.grants.insert g } : DB).hasGrants pk = true
    ↔ g.membership = pk ∨ db.hasGrants pk = true := by
  simp only [hasGrants_iff, insert_row_eq_some]
  constructor
  · rintro ⟨k, g', ⟨-, rfl⟩ | hk, rfl⟩
    · exact .inl rfl
    · exact .inr ⟨k, g', hk, rfl⟩
  · rintro (rfl | ⟨k, g', hk, rfl⟩)
    · exact ⟨_, g, .inl ⟨rfl, rfl⟩, rfl⟩
    · exact ⟨k, g', .inr hk, rfl⟩

theorem hasGrants_rewrite {R : Nat → CollaborationGrant → CollaborationGrant → Prop} {t : Table CollaborationGrant}
    (ht : Rewrites R db.grants t) (hR : ∀ k g g', R k g g' → g'.membership = g.membership) {pk : Pk} :
    ({ db with grants := t } : DB).hasGrants pk = true ↔ db.hasGrants pk = true := by
  simp only [hasGrants_iff]
  constructor
  · rintro ⟨k, g', hk, rfl⟩
    obtain ⟨g, hg, hgg⟩ := ht.before hk
    exact ⟨k, g, hg, (hR k g g' hgg).symm⟩
  · rintro ⟨k, g, hk, rfl⟩
    obtain ⟨g', hg', hgg⟩ := ht.after hk
    exact ⟨k, g', hg', hR k g g' hgg⟩

theorem GuestLaws.write (h : db.GuestLaws) (hw : Write db l d) : d.GuestLaws := by
  cases hw with
  | newRole r => exact h.roles fun k x hx => ⟨x, insert_row_of_some hx, rfl⟩
  | roles ht =>
    refine h.roles fun k x hx => ?_
    obtain ⟨y, hy, hid, -⟩ := ht.after hx
    exact ⟨y, hy, hid⟩
  | renameRole hd => exact h.renameRole hd
  | newMembership m hroles hadmin =>
    refine ⟨fun pk m' hm' ha => ?_, fun pk g hg => Nat.lt_succ_of_lt (h.owned pk g hg), fun pk m' hm' hg => ?_⟩
    · rcases insert_row_eq_some.mp hm' with ⟨-, rfl⟩ | hm'
      · rw [hadmin] at ha
        cases ha
      · exact h.admin pk m' hm' ha
    · rcases insert_row_eq_some.mp hm' with ⟨-, rfl⟩ | hm'
      · exact hroles
      · exact h.guest pk m' hm' hg
  | memberships ht => exact h.memberships ht
  | newGrant g hm hroles =>
    refine ⟨h.admin, fun pk g' hg' => ?_, fun pk m' hm' hg => ?_⟩
    · rcases insert_row_eq_some.mp hg' with ⟨-, rfl⟩ | hg'
      · exact lt_next hm
      · exact h.owned pk g' hg'
    · rcases hasGrants_insert.mp hg with rfl | hg
      · obtain rfl : _ = m' := by simpa [hm] using hm'
        exact hroles
      · exact h.guest pk m' hm' hg
  | grants ht =>
    refine ⟨h.admin, fun pk g' hg' => ?_, fun pk m' hm' hg => ?_⟩
    · obtain ⟨g, hg, hmem, -⟩ := ht.before hg'
      rw [hmem]
      exact h.owned pk g hg
    · exact h.guest pk m' hm' ((hasGrants_rewrite ht fun _ _ _ hR => hR.1).mp hg)
  | delete origin roots upgrading => exact h.delete origin roots upgrading
  | _ => exact ⟨h.admin, h.owned, h.guest⟩

/-! ## Losing the last grant -/

/-- The membership has grants, or it is gone for good. -/
def Lasts (db : DB) (pk : Pk) : Prop :=
  db.hasGrants pk = true ∨ pk < db.memberships.next ∧ db.memberships.row pk = none

theorem Lasts.gone (h : Shrinks db d) {pk : Pk} (hgone : pk < db.memberships.next ∧ db.memberships.row pk = none) :
    d.Lasts pk :=
  .inr ⟨h.memberships.1 ▸ hgone.1, h.memberships.row_none hgone.2⟩

/-! ### What goes with memberships -/

section

variable {roots : List Ref} (hroots : ∀ r ∈ roots, r.model = .membership)
include hroots

theorem collect_withMemberships {r : Ref} (h : r ∈ db.collect roots) : r.model ∈ withMemberships :=
  collect_within withMemberships_within (fun r hr => by simp [hroots r hr, withMemberships]) h

theorem collect_memberships {x : Pk} (h : (⟨.membership, x⟩ : Ref) ∈ db.collect roots) :
    ⟨.membership, x⟩ ∈ roots := by
  cases Closure.mem_closure.mp h with
  | root hroot => exact hroot
  | hangs _ hp hreached =>
    have hwithin := collect_withMemberships hroots (Closure.mem_closure.mpr hreached)
    rcases List.mem_cons.mp (hangsOn_under hp) with he | he
    · rw [he] at hwithin
      simp [withMemberships] at hwithin
    · rw [List.mem_singleton.mp he] at hwithin
      simp [withMemberships] at hwithin

theorem collect_grants {j : Pk} {g : CollaborationGrant} (hj : db.grants.row j = some g)
    (h : (⟨.grant, j⟩ : Ref) ∈ db.collect roots) : ⟨.membership, g.membership⟩ ∈ db.collect roots := by
  cases Closure.mem_closure.mp h with
  | root hroot => cases hroots _ hroot
  | hangs _ hp hreached =>
    have hin := Closure.mem_closure.mpr hreached
    simp only [hangsOn, hj, Option.elim_some, CollaborationGrant.hangsOn, List.mem_cons,
      List.not_mem_nil, or_false] at hp
    rcases hp with rfl | rfl
    · exact hin
    · have hwithin := collect_withMemberships hroots hin
      simp [withMemberships] at hwithin

end

theorem Lasts.removeMembership {pk k : Pk} (h : db.Lasts pk) (hlt : pk < db.memberships.next) :
    (db.removeCascade [⟨.membership, k⟩]).Lasts pk := by
  rcases h with hg | hgone
  · by_cases hk : pk = k
    · subst hk
      refine .inr ⟨hlt, ?_⟩
      cases hrow : (db.removeCascade [⟨.membership, pk⟩]).memberships.row pk with
      | none => rfl
      | some m => exact absurd ⟨m, hrow⟩ (not_has_remove (r := ⟨.membership, pk⟩) (mem_collect_root (by simp)))
    · obtain ⟨j, g, hj, rfl⟩ := hasGrants_iff.mp hg
      have hstays : (⟨.grant, j⟩ : Ref) ∉ db.collect [⟨.membership, k⟩] := by
        intro hgone
        have hin := collect_memberships (by simp) (collect_grants (by simp) hj hgone)
        exact hk (by simpa using hin)
      exact .inl (hasGrants_iff.mpr
        ⟨j, _, update_row_eq_some.mpr ⟨g, keep_row_eq_some.mpr ⟨hj, by simpa [keeps] using hstays⟩, rfl⟩,
        rfl⟩)
  · exact .gone (remove_shrinks _ _) hgone

theorem Lasts.removeClient {pk c : Pk} (h : db.Lasts pk) : (db.removeCascade [⟨.client, c⟩]).Lasts pk := by
  rcases h with hg | hgone
  · obtain ⟨j, g, hj, rfl⟩ := hasGrants_iff.mp hg
    obtain ⟨g', hg'⟩ : (db.removeCascade [⟨.client, c⟩]).has ⟨.grant, j⟩ :=
      removeCascade_has withClients_within (by simp [withClients]) (by simp [withClients]) ⟨g, hj⟩
    obtain ⟨g₀, hg₀, _, _, rfl, -⟩ := (remove_shrinks db _).grants.2 j g' hg'
    rw [hj] at hg₀
    cases hg₀
    exact .inl (hasGrants_iff.mpr ⟨j, _, hg', rfl⟩)
  · exact .gone (remove_shrinks _ _) hgone

/-- Whoever has grants left after a deletion's own cascade, or is gone with it, is one or the other at its end. -/
theorem Lasts.delete_of_cascade {pk : Pk} {roots : List Ref} {origin : Model} {upgrading : Option Pk}
    (hlt : pk < db.memberships.next) (h : (db.removeCascade roots).Lasts pk) :
    (db.delete origin roots upgrading).Lasts pk := by
  refine (delete_induct_sync (P := fun d : DB => Shrinks db d ∧ d.Lasts pk) (fun d m hd => ?_)
    (fun d c hd => ?_) ⟨?_, ?_⟩).2
  · exact ⟨hd.1.trans (remove_shrinks _ _), hd.2.removeMembership (hd.1.memberships.1 ▸ hlt)⟩
  · exact ⟨hd.1.trans (remove_shrinks _ _), hd.2.removeClient⟩
  · exact (remove_shrinks _ _).trans (syncAdmin_shrinks _ _)
  · rcases h with hg | hgone
    · exact .inl hg
    · exact .gone (syncAdmin_shrinks _ _) hgone

/-- Told of a guest without grants, the receiver takes the membership, unless it stands back. -/
theorem dropMembershipWithoutGrants_row {origin : Model} {upgrading : Option Pk} {pk : Pk}
    (hup : upgrading ≠ some pk)
    (horigin : ¬ (origin = .membership ∨ origin = .organization ∨ origin = .user))
    (hnone : db.hasGrants pk = false)
    (hroles : ∀ m, db.memberships.row pk = some m → m.roles.isEmpty = true) :
    (db.dropMembershipWithoutGrants origin upgrading pk).memberships.row pk = none := by
  unfold dropMembershipWithoutGrants
  rw [if_neg hup, if_neg horigin]
  split
  · rename_i hrow
    exact hrow
  · rename_i m hm
    rw [if_pos (by simp [hnone, hroles m hm])]
    cases hrow : (db.removeCascade [⟨.membership, pk⟩]).memberships.row pk with
    | none => rfl
    | some x => exact absurd ⟨x, hrow⟩ (not_has_remove (r := ⟨.membership, pk⟩) (mem_collect_root (by simp)))

/-- Unless the deletion began where the receiver stands back, or upgrades the membership, a guest who loses
the last grant goes. -/
theorem GuestLaws.delete_lasts (h : db.GuestLaws) {pk : Pk} (hg : db.hasGrants pk = true) {roots : List Ref}
    {origin : Model} {upgrading : Option Pk} (hup : upgrading ≠ some pk)
    (horigin : ¬ (origin = .membership ∨ origin = .organization ∨ origin = .user)) :
    (db.delete origin roots upgrading).Lasts pk := by
  obtain ⟨j, g, hj, rfl⟩ := hasGrants_iff.mp hg
  have hlt : g.membership < db.memberships.next := h.owned j g hj
  cases hleft : (db.removeCascade roots).hasGrants g.membership with
  | true => exact Lasts.delete_of_cascade hlt (.inl hleft)
  | false =>
    -- The grant is among those the receiver is told of, and none is left when it is.
    have hgone : (⟨.grant, j⟩ : Ref) ∈ db.collect roots := by
      by_contra hstays
      have : (db.removeCascade roots).hasGrants g.membership = true :=
        hasGrants_iff.mpr ⟨j, _, update_row_eq_some.mpr
          ⟨g, keep_row_eq_some.mpr ⟨hj, by simpa [keeps] using hstays⟩, rfl⟩, rfl⟩
      rw [hleft] at this
      cases this
    have hfree : ∀ d : DB, Shrinks ((db.removeCascade roots).syncAdmin (db.losesAdmin roots)) d →
      d.hasGrants g.membership = false := by
      intro d hd
      cases hgd : d.hasGrants g.membership with
      | false => rfl
      | true =>
        have : (db.removeCascade roots).hasGrants g.membership = true := hasGrants_of_shrinks hd hgd
        rw [hleft] at this
        cases this
    have hdropped : ∀ d : DB, Shrinks ((db.removeCascade roots).syncAdmin (db.losesAdmin roots)) d →
        (d.dropMembershipWithoutGrants origin upgrading g.membership).memberships.row g.membership = none := by
      intro d hd
      have hnone := hfree d hd
      have hroles : ∀ m, d.memberships.row g.membership = some m → m.roles.isEmpty = true := by
        intro m hm
        have hshrinks := ((remove_shrinks db _).trans (syncAdmin_shrinks _ _)).trans hd
        obtain ⟨m₀, hm₀, -, -, hless⟩ := hshrinks.memberships.2 _ m hm
        have hempty := h.guest _ m₀ hm₀ hg
        refine List.isEmpty_iff.mpr (List.eq_nil_iff_forall_not_mem.mpr fun r hr => ?_)
        have := hless r hr
        rw [hempty] at this
        cases this
      exact dropMembershipWithoutGrants_row hup horigin hnone hroles
    refine .inr ⟨(delete_shrinks db origin roots upgrading).memberships.1 ▸ hlt, ?_⟩
    unfold DB.delete
    extract_lets gone grants hubs adminRoles held db₁ db₂
    have hmem : (j, g) ∈ grants := mem_filter.mpr ⟨hj, by simpa [gone] using hgone⟩
    have hdrop : Shrinks db₁ db₂ ∧ db₂.memberships.row g.membership = none := by
      refine ⟨foldl_invariant (P := Shrinks db₁)
        (fun x _ d hd => hd.trans (dropMembershipWithoutGrants_shrinks _ _ _ _)) (.refl _), ?_⟩
      exact foldl_establishes (I := Shrinks db₁) (Q := fun d : DB => d.memberships.row g.membership = none)
        (fun x _ d hd => ⟨hd.trans (dropMembershipWithoutGrants_shrinks _ _ _ _),
          (dropMembershipWithoutGrants_shrinks d _ _ _).memberships.row_none⟩)
        ⟨(j, g), hmem, hdropped⟩ (.refl _)
    refine foldl_invariant (P := fun d : DB => d.memberships.row g.membership = none) (fun x _ d hd => ?_) hdrop.2
    unfold deleteHubIdentity
    split
    · exact hd
    · exact (remove_shrinks _ _).memberships.row_none hd

theorem gone_write {pk : Pk} (hgone : pk < db.memberships.next ∧ db.memberships.row pk = none)
    (hw : Write db l d) :
    pk < d.memberships.next ∧ d.memberships.row pk = none := by
  cases hw with
  | newMembership m =>
    refine ⟨Nat.lt_succ_of_lt hgone.1, ?_⟩
    rw [insert_row, if_neg (Nat.ne_of_lt hgone.1), hgone.2]
  | memberships ht => exact ⟨ht.1 ▸ hgone.1, ht.row_none hgone.2⟩
  | renameRole hd =>
    obtain ⟨_, _, -, rfl, -⟩ := renameRole_ok hd
    exact ⟨hgone.1, by rw [syncAdmin, update_row]; simp [hgone.2]⟩
  | delete origin roots upgrading =>
    have hshrinks := (delete_shrinks db origin roots upgrading).memberships
    exact ⟨hshrinks.1 ▸ hgone.1, hshrinks.row_none hgone.2⟩
  | _ => exact hgone

/-- The one write that can take a guest's last grant and leave the membership is one that upgrades them. -/
theorem Lasts.write {pk : Pk} (h : db.Lasts pk) (hlaws : db.GuestLaws) {A : Licence} (hw : Write db l d)
    (hl : A.admits l)
    (hup : ¬ A.upgrade pk) : d.Lasts pk := by
  rcases h with hg | hgone
  · cases hw with
    | newGrant g => exact .inl (hasGrants_insert.mpr (.inr hg))
    | grants ht => exact .inl ((hasGrants_rewrite ht fun _ _ _ hR => hR.1).mpr hg)
    | renameRole hd =>
      obtain ⟨_, _, -, rfl, -⟩ := renameRole_ok hd
      exact .inl hg
    | delete origin roots upgrading =>
      refine hlaws.delete_lasts hg (fun he => hup (hl.2.2 pk he)) fun horigin => ?_
      rcases horigin with rfl | rfl | rfl <;> simp [Licence.admits, routineOrigins] at hl
    | _ => exact .inl hg
  · exact .inr (gone_write hgone hw)

/-! ## Deletions asked for directly -/

theorem GuestLaws.delete_memberships (h : db.GuestLaws) {pk : Pk} (hg : db.hasGrants pk = true) (pks : List Pk) :
    (db.removeCascade (pks.map fun k => ⟨.membership, k⟩)).Lasts pk := by
  obtain ⟨j, g, hj, rfl⟩ := hasGrants_iff.mp hg
  by_cases hgone : (⟨.grant, j⟩ : Ref) ∈ db.collect (pks.map fun k => ⟨.membership, k⟩)
  · have hmembership : (⟨.membership, g.membership⟩ : Ref) ∈ db.collect (pks.map fun k => ⟨.membership, k⟩) :=
      collect_grants (by simp) hj hgone
    refine .inr ⟨h.owned j g hj, ?_⟩
    cases hrow : (db.removeCascade (pks.map fun k => ⟨.membership, k⟩)).memberships.row g.membership with
    | none => rfl
    | some m => exact absurd ⟨m, hrow⟩ (not_has_remove (r := ⟨.membership, g.membership⟩) hmembership)
  · exact .inl (hasGrants_iff.mpr
      ⟨j, _, update_row_eq_some.mpr ⟨g, keep_row_eq_some.mpr ⟨hj, by simpa [keeps] using hgone⟩, rfl⟩,
      rfl⟩)

end DB

/-- A deletion of users or organizations takes the membership of everyone whose last grant it takes. -/
def LeavesNoGuest (db : DB) : Action → Prop
  | .delete model pks => model = .user ∨ model = .organization →
    ∀ m, db.hasGrants m = true → ⟨.membership, m⟩ ∈ db.collect (pks.map fun pk => ⟨model, pk⟩)
      ∨ ∃ g row, db.grants.row g = some row ∧ row.membership = m ∧ ⟨.grant, g⟩ ∉ db.collect
        (pks.map fun pk => ⟨model, pk⟩)
  | _ => True

namespace DB

variable {db d : DB} {env : Env}

/-- A guest who has no grants after an action is gone, or was deliberately made a full member. -/
theorem GuestLaws.step_lasts (h : db.GuestLaws) {a : Action} (hleaves : LeavesNoGuest db a) {pk : Pk}
    (hlasts : db.Lasts pk) (hup : ¬ a.upgrades db pk) : (step env db a).Lasts pk := by
  cases ha : a.deletes with
  | false =>
    exact ((step_writes env db ha).invariant (I := fun d : DB => d.GuestLaws ∧ d.Lasts pk)
      (fun hI hw hl => ⟨hI.1.write hw, hI.2.write hI.1 hw hl hup⟩) ⟨h, hlasts⟩).2
  | true =>
    cases a with
    | delete model pks =>
      rcases step_delete env db model pks with hstep | hstep <;> rw [hstep]
      · exact hlasts
      · rcases hlasts with hg | hgone
        · obtain ⟨j, g, hj, hpk⟩ := hasGrants_iff.mp hg
          have hlt : pk < db.memberships.next := hpk ▸ h.owned j g hj
          by_cases horigin : model = .membership ∨ model = .organization ∨ model = .user
          · refine Lasts.delete_of_cascade hlt ?_
            rcases horigin with rfl | horigin
            · exact h.delete_memberships hg pks
            · rcases hleaves horigin.symm pk hg with hin | ⟨k, row, hk, rfl, hstays⟩
              · refine .inr ⟨hlt, ?_⟩
                cases hrow : (db.removeCascade (pks.map fun pk => ⟨model, pk⟩)).memberships.row pk with
                | none => rfl
                | some m => exact absurd ⟨m, hrow⟩ (not_has_remove hin)
              · exact .inl (hasGrants_iff.mpr ⟨k, _, update_row_eq_some.mpr
                  ⟨row, keep_row_eq_some.mpr ⟨hk, by simpa [keeps] using hstays⟩, rfl⟩, rfl⟩)
          · exact h.delete_lasts hg (by simp) horigin
        · exact .gone (delete_shrinks db model _ none) hgone
    | _ => cases ha

theorem GuestLaws.step_keeps (h : db.GuestLaws) {a : Action} (hleaves : LeavesNoGuest db a) {pk : Pk}
    (hlasts : db.Lasts pk)
    (hup : ¬ (a.upgrades db pk ∧ db.hasGrants pk = true ∧ (step env db a).hasGrants pk = false)) :
    (step env db a).Lasts pk := by
  rcases hlasts with hg | hgone
  · cases hleft : (step env db a).hasGrants pk with
    | true => exact .inl hleft
    | false => exact h.step_lasts hleaves (.inl hg) fun hupgrade => hup ⟨hupgrade, hg, hleft⟩
  · exact .inr (step_invariant (P := fun d : DB => pk < d.memberships.next ∧ d.memberships.row pk = none)
      gone_write a hgone)

end DB

theorem Reachable.guestLaws {env : Env} {db : DB} (h : Reachable env db) : db.GuestLaws :=
  h.invariant (fun hI hw => hI.write hw) .empty

/-- Whoever has grants holds no roles and is no admin, and whoever had grants and has none any more is gone,
unless the action that took the last of them deliberately made them a full member. -/
theorem guests_stay_guests {env : Env} {db d : DB} {as : List Action} (hdb : Reachable env db)
    (hrun : Run (fun s a t => Step env s a t ∧ LeavesNoGuest s a) db as d) :
    (∀ pk m, d.memberships.row pk = some m → d.hasGrants pk = true → m.roles = [] ∧ m.isAdmin = false)
      ∧ ∀ pk, db.hasGrants pk = true → d.hasGrants pk = false → d.memberships.row pk = none
        ∨ ∃ before a after s, as = before ++ a :: after ∧ Run (Step env) db before s ∧ a.upgrades s pk
          ∧ s.hasGrants pk = true ∧ (step env s a).hasGrants pk = false := by
  have hlaws : db.GuestLaws := hdb.guestLaws
  have hd : d.GuestLaws := run_invariant (fun hI hw => hI.write hw) (hrun.mono fun h => h.1) hlaws
  refine ⟨fun pk m hm hg => ⟨hd.guest pk m hm hg, hd.notAdmin hm (hd.guest pk m hm hg)⟩, fun pk hg hnone => ?_⟩
  have hkept := hrun.keeps_until (I := DB.GuestLaws) (P := fun s : DB => s.Lasts pk)
    (Q := fun s a => a.upgrades s pk ∧ s.hasGrants pk = true ∧ (step env s a).hasGrants pk = false)
    (fun hI hst => by rw [hst.1]; exact step_invariant (fun hI hw => hI.write hw) _ hI)
    (fun hI hP hQ hst => by rw [hst.1]; exact hI.step_keeps hst.2 hP hQ) hlaws (.inl hg)
  rcases hkept with (hhas | hgone) | ⟨before, a, after, s, has, hbefore, hup⟩
  · rw [hnone] at hhas
    cases hhas
  · exact .inl hgone.2
  · exact .inr ⟨before, a, after, s, has, hbefore.mono fun h => h.1, hup⟩

/-- Bob, an admin, sets up the hub, and Carol is its guest. -/
def sharedHub : List Action :=
  [.createUser "ann" [], .createUser "bob" [], .createUser "carol" [], .createOrganization "org" 0 false,
   .createMembership 1 0, .addRoles 1 [0], .startHubDeviceCode plainHub 600,
   .acceptHubDeviceCode 1 0 (some 1) 0 false none,
   .createMembership 2 0, .grantCollaborations 2 [⟨0, "c", []⟩] none (some 0) none false]

/-- The hub is deleted, and Carol goes with her grant. -/
theorem guests_stay_guests_hub_deleted :
    (step plainEnv (run plainEnv .empty sharedHub) (.delete .hub [0])).memberships.row 2 = none := by
  have hdb := reachable_run plainEnv sharedHub
  have hguest : (run plainEnv .empty sharedHub).hasGrants 2 = true := by decide +kernel
  have hnone : (step plainEnv (run plainEnv .empty sharedHub) (.delete .hub [0])).hasGrants
    2 = false := by decide +kernel
  generalize run plainEnv .empty sharedHub = db at hdb hguest hnone ⊢
  have hleaves : LeavesNoGuest db (.delete .hub [0]) := fun horigin => by rcases horigin with h | h <;> cases h
  rcases (guests_stay_guests hdb (.single ⟨rfl, hleaves⟩)).2 2 hguest hnone with hgone | ⟨before, a, after, s, has,
    -, hup, -⟩
  · exact hgone
  · have ha : a ∈ [Action.delete .hub [0]] := has ▸ by simp
    rw [List.mem_singleton.mp ha] at hup
    exact hup.elim

/-- Bob is deleted, and his hub with him: Carol's grant goes, and she is a member without roles. -/
theorem guest_left_without_grants :
    ∃ db, Reachable plainEnv db ∧ db.hasGrants 2 = true
    ∧ (step plainEnv db (.delete .user [1])).hasGrants 2 = false
      ∧ (step plainEnv db (.delete .user [1])).memberships.row 2 ≠ none
      ∧ ¬ (Action.delete .user [1]).upgrades db 2 :=
  ⟨_, reachable_run plainEnv sharedHub, by decide +kernel, by decide +kernel, by decide +kernel, id⟩

end Lok
