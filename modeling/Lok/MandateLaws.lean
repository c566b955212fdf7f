import Lok.SystemWrites

/-!
# Mandates and the mandates they were issued under

A child mandate acts for its parent's grantor in its parent's hub, expires no later and pins
no more, and it is revoked when its parent is. The laws name the columns that tell the
origins of mandates apart, since an edit in place is an edit of one origin's mandates: a hub
and the config edit only their own, and a login only fixes the pin of a keyed one.
-/

namespace Lok

open Table Runs Checks

/-- The columns that go with a mandate's claimant and origin. -/
structure Mandate.Shaped (m : Mandate) : Prop where
  keyed : m.keyHash.isSome = true ↔ m.claimant = .key
  agents : m.claimant = .agent → m.origin = .member ∨ m.origin = .client
  child : m.parent.isSome = true → m.origin = .agent
  ofHub : m.hubRequest.isSome = true → m.origin = .hub
  ofConfig : m.configName.isSome = true → m.origin = .config

/-- A mandate with the one it was issued under. -/
def Mandate.Follows (m p : Mandate) : Prop := m.Under p ∧ (p.revokedAt.isSome = true → m.revokedAt.isSome = true)

/-- What may become of a mandate while it is on file. -/
structure Mandate.Later (m m' : Mandate) : Prop where
  keyHash : m'.keyHash = m.keyHash
  claimant : m'.claimant = m.claimant
  origin : m'.origin = m.origin
  parent : m'.parent = m.parent
  revoked : m.revokedAt.isSome = true → m'.revokedAt.isSome = true
  pin : (m.origin = .hub ∨ m.origin = .config) ∨ m'.pin = m.pin
    ∨ m.keyHash.isSome = true ∧ m.pin.isOpen = true ∧ ∃ i, m'.pin = m.pin.fixedTo i

theorem Mandate.Later.refl (m : Mandate) : m.Later m := ⟨rfl, rfl, rfl, rfl, id, .inr (.inl rfl)⟩

namespace DB

structure MandateLaws (db : DB) : Prop where
  shaped : ∀ pk m, db.mandates.row pk = some m → m.Shaped
  parent : ∀ pk m p, db.mandates.row pk = some m → m.parent = some p →
    ∃ q, db.mandates.row p = some q ∧ m.Follows q

variable {db d : DB} {l : Label}

theorem MandateLaws.empty : DB.empty.MandateLaws := ⟨by simp [DB.empty], by simp [DB.empty]⟩

/-- Rewriting mandates keeps the laws when it keeps them of each mandate with its parent. -/
theorem MandateLaws.rewrite {R : Nat → Mandate → Mandate → Prop} {t : Table Mandate} (h : db.MandateLaws)
    (ht : Rewrites R db.mandates t) (hshape : ∀ pk m m', m.Shaped → R pk m m' → m'.Shaped ∧ m'.parent = m.parent)
    (hfollow : ∀ pk m m' p q q', db.mandates.row pk = some m → m.parent = some p →
      m.Shaped → q.Shaped → m.Follows q →
      R pk m m' → R p q q' → m'.Follows q') : ({ db with mandates := t } : DB).MandateLaws where
  shaped pk m' hm' := by
    obtain ⟨m, hm, hR⟩ := ht.before hm'
    exact (hshape pk m m' (h.shaped pk m hm) hR).1
  parent pk m' p hm' hp := by
    obtain ⟨m, hm, hR⟩ := ht.before hm'
    rw [(hshape pk m m' (h.shaped pk m hm) hR).2] at hp
    obtain ⟨q, hq, hfollows⟩ := h.parent pk m p hm hp
    obtain ⟨q', hq', hR'⟩ := ht.after hq
    exact ⟨q', hq', hfollow pk m m' p q q' hm hp (h.shaped pk m hm) (h.shaped p q hq) hfollows hR hR'⟩

theorem revokeRow_same (now : Time) (reason : MandateRevocation) (m : Mandate) :
    ∃ t r, revokeRow now reason m = { m with revokedAt := t, revocationReason := r } ∧ t.isSome = true := by
  unfold revokeRow
  split
  · rename_i h
    exact ⟨m.revokedAt, m.revocationReason, rfl, h⟩
  · exact ⟨_, _, rfl, rfl⟩

theorem withdrawn_same {now : Time} {mandate pk : Pk} {reason : MandateRevocation} {m m' : Mandate}
    (hw : Withdrawn now mandate reason pk m m') :
    ∃ t r, m' = { m with revokedAt := t, revocationReason := r }
    ∧ (m.revokedAt.isSome = true → t.isSome = true) := by
  unfold Withdrawn at hw
  split at hw
  · obtain ⟨t, r, he, ht⟩ := revokeRow_same now reason m
    exact ⟨t, r, hw.trans he, fun _ => ht⟩
  · split at hw
    · obtain ⟨t, r, he, ht⟩ := revokeRow_same now .parentRevoked m
      exact ⟨t, r, hw.trans he, fun _ => ht⟩
    · exact ⟨_, _, hw, id⟩

theorem MandateLaws.withdraw {mandate : Pk} {reason : MandateRevocation} {t : Table Mandate} (h : db.MandateLaws)
    (ht : Rewrites (Withdrawn db.now mandate reason) db.mandates t) :
    ({ db with mandates := t } : DB).MandateLaws := by
  refine h.rewrite ht (fun pk m m' hm hw => ?_) (fun pk m m' p q q' hrow hp _ _ hf hw hw' => ?_)
  · obtain ⟨t, r, rfl, -⟩ := withdrawn_same hw
    exact ⟨⟨hm.keyed, hm.agents, hm.child, hm.ofHub, hm.ofConfig⟩, rfl⟩
  · obtain ⟨t, r, hm', hkeep⟩ := withdrawn_same hw
    obtain ⟨t', r', hq', -⟩ := withdrawn_same hw'
    refine ⟨?_, fun hrevoked => ?_⟩
    · rw [hm', hq']
      exact ⟨hf.1.agent, hf.1.root, hf.1.membership, hf.1.hub, hf.1.expiry, hf.1.pin⟩
    · by_cases hpm : p = mandate
      · -- The withdrawn mandate's own child is marked with it.
        unfold Withdrawn at hw
        split at hw
        · obtain ⟨t, r, he, ht⟩ := revokeRow_same db.now reason m
          rw [hw, he]
          exact ht
        · rw [if_pos (hpm ▸ hp)] at hw
          obtain ⟨t, r, he, ht⟩ := revokeRow_same db.now .parentRevoked m
          rw [hw, he]
          exact ht
      · unfold Withdrawn at hw'
        rw [if_neg hpm, if_neg (by rw [hf.1.root]; simp)] at hw'
        rw [hm']
        exact hkeep (hf.2 (hw' ▸ hrevoked))

theorem MandateLaws.logIn {t : Table Mandate} (h : db.MandateLaws) (ht : Rewrites LoggedIn db.mandates t) :
    ({ db with mandates := t } : DB).MandateLaws := by
  refine h.rewrite ht (fun pk m m' hm hR => ?_) (fun pk m m' p q q' _ _ _ hq hf hR hR' => ?_)
  · rcases hR with rfl | ⟨-, _, _, rfl⟩
    · exact ⟨hm, rfl⟩
    · exact ⟨⟨hm.keyed, hm.agents, hm.child, hm.ofHub, hm.ofConfig⟩, rfl⟩
  · have hq' : q' = q := by
      rcases hR' with h | ⟨hkey, -⟩
      · exact h
      · have hagent := hf.1.agent
        rw [hq.keyed.mp hkey] at hagent
        cases hagent
    subst hq'
    rcases hR with rfl | ⟨-, manifest, now, rfl⟩
    · exact hf
    · refine ⟨⟨hf.1.agent, hf.1.root, hf.1.membership, hf.1.hub, hf.1.expiry, ?_⟩, hf.2⟩
      unfold loginPin
      split
      · rename_i hopen
        exact hf.1.pin.fixedTo hopen _
      · exact hf.1.pin

/-- Only a hub's and the config's mandates are edited; parents and children are neither. -/
theorem MandateLaws.resettle {pk : Pk} {t : Table Mandate} (h : db.MandateLaws)
    (ht : Rewrites (fun k m m' => m' = m ∨ k = pk ∧ Resettled db k m m') db.mandates t) :
    ({ db with mandates := t } : DB).MandateLaws := by
  have horigin : ∀ {k} {m m' : Mandate}, m.Shaped → Resettled db k m m' → m.origin = .hub ∨ m.origin = .config :=
    fun hm hr => hr.own.imp_right hm.ofConfig
  refine h.rewrite ht (fun k m m' hm hR => ?_) (fun k m m' p q q' _ hp hm hq hf hR hR' => ?_)
  · rcases hR with rfl | ⟨-, hr⟩
    · exact ⟨hm, rfl⟩
    · obtain ⟨_, _, _, _, _, _, _, rfl⟩ := hr.same
      exact ⟨⟨hm.keyed, hm.agents, hm.child, hm.ofHub, hm.ofConfig⟩, rfl⟩
  · have hm' : m' = m := by
      rcases hR with h | ⟨-, hr⟩
      · exact h
      · have hchild := hm.child (by simp [hp])
        rcases horigin hm hr with ho | ho <;> rw [ho] at hchild <;> cases hchild
    have hq' : q' = q := by
      rcases hR' with h | ⟨-, hr⟩
      · exact h
      · rcases hq.agents hf.1.agent with ho' | ho' <;> rcases horigin hq hr with ho | ho <;> rw [ho] at ho' <;>
          cases ho'
    rw [hm', hq']
    exact hf

theorem MandateLaws.issue {m : Mandate} (h : db.MandateLaws) (hm : Issued db m) :
    ({ db with mandates := db.mandates.insert m } : DB).MandateLaws where
  shaped pk n hn := by
    rcases insert_row_eq_some.mp hn with ⟨-, rfl⟩ | hn
    · exact ⟨hm.keyed, hm.agents, hm.child, hm.ofHub, hm.ofConfig⟩
    · exact h.shaped pk n hn
  parent pk n p hn hp := by
    rcases insert_row_eq_some.mp hn with ⟨-, rfl⟩ | hn
    · obtain ⟨q, hq, hunder, hrevoked⟩ := hm.parent p hp
      exact ⟨q, insert_row_of_some hq, hunder, by simp [hrevoked]⟩
    · obtain ⟨q, hq, hf⟩ := h.parent pk n p hn hp
      exact ⟨q, insert_row_of_some hq, hf⟩

theorem MandateLaws.delete (h : db.MandateLaws) (origin : Model) (roots : List Ref) (upgrading : Option Pk) :
    (db.delete origin roots upgrading).MandateLaws where
  shaped pk m hm := by
    obtain ⟨_, hm₀, rfl⟩ := (delete_shrinks db origin roots upgrading).mandates.2 pk m hm
    exact h.shaped pk m hm₀
  parent pk m p hm hp := by
    obtain ⟨_, hm₀, rfl⟩ := (delete_shrinks db origin roots upgrading).mandates.2 pk m hm
    obtain ⟨q, hq, hf⟩ := h.parent pk m p hm₀ hp
    have hhangs : (⟨.mandate, p⟩ : Ref) ∈ (db.delete origin roots upgrading).hangsOn ⟨.mandate, pk⟩ := by
      simp [hangsOn, hm, Mandate.hangsOn, hp]
    obtain ⟨q', hq'⟩ : (db.delete origin roots upgrading).has ⟨.mandate, p⟩ := delete_target hhangs ⟨q, hq⟩
    obtain ⟨_, hq₀, rfl⟩ := (delete_shrinks db origin roots upgrading).mandates.2 p q' hq'
    rw [hq] at hq₀
    cases hq₀
    exact ⟨q, hq', hf⟩

theorem MandateLaws.write (h : db.MandateLaws) (hw : Write db l d) : d.MandateLaws := by
  cases hw with
  | issue hm => exact h.issue hm
  | withdraw ht => exact h.withdraw ht
  | logIn ht => exact h.logIn ht
  | resettle ht => exact h.resettle ht
  | reissue ht =>
    refine h.rewrite ht (fun pk m m' hm hR => ?_) (fun pk m m' p q q' _ _ _ _ hf hR hR' => ?_)
    · obtain ⟨c, rfl⟩ := hR
      exact ⟨⟨hm.keyed, hm.agents, hm.child, hm.ofHub, hm.ofConfig⟩, rfl⟩
    · obtain ⟨c, rfl⟩ := hR
      obtain ⟨c', rfl⟩ := hR'
      exact ⟨⟨hf.1.agent, hf.1.root, hf.1.membership, hf.1.hub, hf.1.expiry, hf.1.pin⟩, hf.2⟩
  | delete origin roots upgrading => exact h.delete origin roots upgrading
  | renameRole hd =>
    obtain ⟨_, _, -, rfl, -⟩ := renameRole_ok hd
    exact ⟨h.shaped, h.parent⟩
  | _ => exact ⟨h.shaped, h.parent⟩

/-- What a write does to the mandates: it issues one, or takes some away and carries the others on. -/
theorem mandates_later (h : db.MandateLaws) (hw : Write db l d) :
    Table.Shrinks Mandate.Later db.mandates d.mandates
      ∨ ∃ m, Issued db m ∧ l = .issue m.keyHash ∧ d.mandates = db.mandates.insert m := by
  have hsame : Table.Shrinks Mandate.Later db.mandates db.mandates := .refl Mandate.Later.refl _
  cases hw with
  | issue hm => exact .inr ⟨_, hm, rfl, rfl⟩
  | withdraw ht =>
    refine .inl ⟨ht.1, fun pk m' hm' => ?_⟩
    obtain ⟨m, hm, hR⟩ := ht.before hm'
    obtain ⟨t, r, rfl, hkeep⟩ := withdrawn_same hR
    exact ⟨m, hm, rfl, rfl, rfl, rfl, hkeep, .inr (.inl rfl)⟩
  | logIn ht =>
    refine .inl ⟨ht.1, fun pk m' hm' => ?_⟩
    obtain ⟨m, hm, rfl | ⟨hkey, manifest, now, rfl⟩⟩ := ht.before hm'
    · exact ⟨_, hm, .refl _⟩
    · refine ⟨m, hm, rfl, rfl, rfl, rfl, id, .inr ?_⟩
      dsimp only
      unfold loginPin
      split
      · rename_i hopen
        exact .inr ⟨hkey, hopen, _, rfl⟩
      · exact .inl rfl
  | resettle ht =>
    refine .inl ⟨ht.1, fun pk m' hm' => ?_⟩
    obtain ⟨m, hm, rfl | ⟨-, hr⟩⟩ := ht.before hm'
    · exact ⟨_, hm, .refl _⟩
    · obtain ⟨_, _, _, _, _, _, _, rfl⟩ := hr.same
      exact ⟨m, hm, rfl, rfl, rfl, rfl, id, .inl (hr.own.imp_right (h.shaped pk m hm).ofConfig)⟩
  | reissue ht =>
    refine .inl ⟨ht.1, fun pk m' hm' => ?_⟩
    obtain ⟨m, hm, c, rfl⟩ := ht.before hm'
    exact ⟨m, hm, rfl, rfl, rfl, rfl, id, .inr (.inl rfl)⟩
  | delete origin roots upgrading =>
    refine .inl ⟨(delete_shrinks db origin roots upgrading).mandates.1, fun pk m hm => ?_⟩
    obtain ⟨_, hm₀, rfl⟩ := (delete_shrinks db origin roots upgrading).mandates.2 pk m hm
    exact ⟨_, hm₀, .refl _⟩
  | renameRole hd =>
    obtain ⟨_, _, -, rfl, -⟩ := renameRole_ok hd
    exact .inl hsame
  | _ => exact .inl hsame

/-! ## Live mandates -/

theorem isLive_parent {m p : Mandate} (h : m.Follows p) (hm : db.isLive m = true) : db.isLive p = true := by
  have hunrevoked : m.revokedAt = none := isLive_unrevoked hm
  have hp : p.revokedAt.isSome = false := by
    cases hr : p.revokedAt.isSome with
    | false => rfl
    | true =>
      have := h.2 hr
      rw [hunrevoked] at this
      cases this
  simp only [isLive, hunrevoked, hp, Option.isSome_none, Bool.false_eq_true, if_false] at hm ⊢
  split at hm
  · cases hm
  · rename_i hexpiry
    rw [if_neg, ← h.1.membership]
    · exact hm
    · intro hpast
      obtain ⟨t, ht, hle⟩ := (Option.any_eq_true _ _).mp hpast
      obtain ⟨u, hu, hut⟩ := h.1.expiry t ht
      refine hexpiry ((Option.any_eq_true _ _).mpr ⟨u, hu, ?_⟩)
      simp only [decide_eq_true_eq] at hle ⊢
      exact Nat.le_trans hut hle

theorem mem_liveMandates {pk : Pk} {m : Mandate} :
    (pk, m) ∈ db.liveMandates ↔ db.mandates.row pk = some m ∧ db.isLive m = true := by
  have hgrantor : (db.memberships.exists? fun k row => k == m.membership
        && (db.users.exists? fun u user => u == row.user && user.isActive)) = db.grantorIsActive m.membership := by
    rw [Bool.eq_iff_iff, exists?_eq_true]
    simp only [grantorIsActive, Bool.and_eq_true, beq_iff_eq, exists?_eq_true, Option.any_eq_true]
    grind
  simp only [liveMandates, mem_filter, isLive, hgrantor]
  cases m.revokedAt <;> cases m.expiresAt <;> simp [and_comm]

end DB

theorem Reachable.mandateLaws {env : Env} {db : DB} (h : Reachable env db) : db.MandateLaws :=
  h.invariant (fun hI hw => hI.write hw) .empty

/-- A live child mandate has a live parent, at this moment and at any later one: it acts as the parent's
grantor, in the parent's hub, within the parent's pin, and both ways of asking which mandates are live
agree. -/
theorem live_child_has_live_parent {env : Env} {db : DB} (h : Reachable env db) :
    (∀ pk m p, db.mandates.row pk = some m → m.parent = some p → ∃ q, db.mandates.row p = some q
      ∧ (∀ t, db.now ≤ t → ({ db with now := t } : DB).isLive m = true →
        ({ db with now := t } : DB).isLive q = true)
      ∧ m.membership = q.membership ∧ m.hub = q.hub ∧ m.pin.Within q.pin)
    ∧ ∀ pk m, (pk, m) ∈ db.liveMandates ↔ db.mandates.row pk = some m ∧ db.isLive m = true := by
  refine ⟨fun pk m p hm hp => ?_, fun _ _ => DB.mem_liveMandates⟩
  obtain ⟨q, hq, hf⟩ := h.mandateLaws.parent pk m p hm hp
  exact ⟨q, hq, fun t _ => DB.isLive_parent hf, hf.1.membership, hf.1.hub, hf.1.pin⟩

/-- Ann lets the app grant keys for a worker, and it grants one. -/
def childIssued : List Action :=
  plainSetup [] ++
    [.issueMandate (.member 0) 0 0 ⟨some "worker", none, none, none, none⟩
      (.agent "app" none none "") none none false "" "",
     .issueMandate (.agent 0 0) 0 0 ⟨some "worker", none, none, none, some "device"⟩ (.key (some plainKey))
     (some 100) none
       false "" ""]

theorem live_child_has_live_parent_issued :
    ∃ q, (run plainEnv .empty childIssued).mandates.row 0 = some q
    ∧ (run plainEnv .empty childIssued).isLive q = true := by
  have hreachable := reachable_run plainEnv childIssued
  have hchild : ((run plainEnv .empty childIssued).mandates.row 1).any (fun m =>
      m.parent == some 0 && (run plainEnv .empty childIssued).isLive m) = true := by decide +kernel
  generalize run plainEnv .empty childIssued = db at hreachable hchild ⊢
  obtain ⟨m, hm, hp⟩ := (Option.any_eq_true _ _).mp hchild
  simp only [Bool.and_eq_true, beq_iff_eq] at hp
  obtain ⟨q, hq, hlive, -⟩ := (live_child_has_live_parent hreachable).1 1 m 0 hm hp.1
  exact ⟨q, hq, hlive _ (Nat.le_refl _) hp.2⟩

end Lok
