import Lok.ClientLaws
import Lok.MandateCalls
import Lok.MandateClients

/-!
# Mandate calls in any interleaving

However the statements of any number of calls fall between each other, and between the writes of other
requests, no client is bound to a revoked mandate, no child outlives its parent's revocation, and no mandate
gets more clients or more open children than it has slots for. Each call relies on what it has seen of the
rows it holds the locks of: nobody else touches those.
-/

namespace Lok

open Table Checks RowLocks Calls

/-! ## Mandates in order -/

/-- What of a mandate stays as it was issued; a revocation stays too. -/
structure Mandate.Onward (m m' : Mandate) : Prop where
  membership : m'.membership = m.membership
  parent : m'.parent = m.parent
  maxClients : m'.maxClients = m.maxClients
  expiresAt : m'.expiresAt = m.expiresAt
  revoked : m.revokedAt.isSome = true → m'.revokedAt.isSome = true

theorem Mandate.Onward.refl (m : Mandate) : m.Onward m := ⟨rfl, rfl, rfl, rfl, id⟩

/-- What of a mandate anybody may leave: who it acts for may change, and, if it has no parent, when it expires. -/
structure Mandate.Ahead (m m' : Mandate) : Prop where
  parent : m'.parent = m.parent
  maxClients : m'.maxClients = m.maxClients
  expiresAt : m.parent.isSome = true → m'.expiresAt = m.expiresAt
  revoked : m.revokedAt.isSome = true → m'.revokedAt.isSome = true

theorem Mandate.Onward.ahead {m m' : Mandate} (h : m.Onward m') : m.Ahead m' :=
  ⟨h.parent, h.maxClients, fun _ => h.expiresAt, h.revoked⟩

theorem Mandate.Ahead.refl (m : Mandate) : m.Ahead m := (Mandate.Onward.refl m).ahead

/-- Nothing of it changed that anybody relies on. -/
def Mandate.Alike (m m' : Mandate) : Prop := m.Onward m' ∧ m'.revokedAt = m.revokedAt

theorem Mandate.Alike.refl (m : Mandate) : m.Alike m := ⟨.refl m, rfl⟩

theorem Mandate.Alike.trans {m m' m'' : Mandate} (h : m.Alike m') (h' : m'.Alike m'') : m.Alike m'' :=
  ⟨⟨h'.1.membership.trans h.1.membership, h'.1.parent.trans h.1.parent, h'.1.maxClients.trans h.1.maxClients,
    h'.1.expiresAt.trans h.1.expiresAt, fun hm => h'.1.revoked (h.1.revoked hm)⟩, h'.2.trans h.2⟩

theorem Mandate.Ahead.unrevoked {m m' : Mandate} (h : m.Ahead m') (hm' : m'.revokedAt = none) :
    m.revokedAt = none := by
  cases hm : m.revokedAt with
  | none => rfl
  | some t => simpa [hm'] using h.revoked (by simp [hm])

namespace DB

variable {db d : DB} {env : Env} {budgeted : Pk → Prop}

/-- The children of a mandate that are neither revoked nor expired. -/
def openChildren (db : DB) (p : Pk) : Nat :=
  db.mandates.count fun _ m => m.parent == some p && m.revokedAt.isNone && !m.expiresAt.any (· ≤ db.now)

def seated (db : DB) (M : Pk) : Nat := db.clients.count fun _ c => c.mandate == some M

/-- A mandate has no more clients, and no more open children, than it has slots for. -/
def WithinBudget (db : DB) (M : Pk) : Prop :=
  ∀ m max, db.mandates.row M = some m → m.maxClients = some max → db.seated M ≤ max ∧ db.openChildren M ≤ max

/-- What holds of the mandates and their clients at every moment; the budgets, of the mandates that are
`budgeted`. -/
structure Abiding (budgeted : Pk → Prop) (db : DB) : Prop where
  family : ∀ k m p, db.mandates.row k = some m → m.parent = some p →
    p < k ∧ ∃ q, db.mandates.row p = some q ∧ q.parent = none
    ∧ m.membership = q.membership ∧ (q.revokedAt.isSome = true → m.revokedAt.isSome = true)
  bound : ∀ k c M, db.clients.row k = some c → c.mandate = some M →
    ∃ m, db.mandates.row M = some m ∧ m.revokedAt = none
  budgets : ∀ M, budgeted M → db.WithinBudget M

theorem parents_first (hdb : Reachable env db) :
    ∀ k m p, db.mandates.row k = some m → m.parent = some p → p < k := by
  refine (hdb.invariant (P := fun db => db.MandateLaws
    ∧ ∀ k m p, db.mandates.row k = some m → m.parent = some p → p < k)
    (fun hI hw => ⟨hI.1.write hw, fun k m p hm hp => ?_⟩) ⟨.empty, by simp [DB.empty]⟩).2
  rcases mandates_later hI.1 hw with hshrinks | ⟨n, hn, -, hinsert⟩
  · obtain ⟨m₀, hm₀, hlater⟩ := hshrinks.2 k m hm
    exact hI.2 k m₀ p hm₀ (hlater.parent.symm.trans hp)
  · rw [hinsert] at hm
    rcases insert_row_eq_some.mp hm with ⟨rfl, rfl⟩ | hm
    · obtain ⟨q, hq, -⟩ := hn.parent p hp
      exact lt_next hq
    · exact hI.2 k m p hm hp

theorem Abiding.ofReachable (hdb : Reachable env db) (h : ∀ M, budgeted M → db.WithinBudget M) :
    db.Abiding budgeted where
  family k m p hm hp := by
    obtain ⟨q, hq, hfollows⟩ := hdb.mandateLaws.parent k m p hm hp
    exact ⟨parents_first hdb k m p hm hp, q, hq, hfollows.1.root, hfollows.1.membership, hfollows.2⟩
  bound k c M hc hM := by
    obtain ⟨m, hm, -⟩ := (hdb.clientLaws.lawful k c hc).mandated M hM
    exact ⟨m, hm, hdb.revokedBare k c M m hc hM hm⟩
  budgets := h

theorem openChildren_le {p : Pk} (hnow : db.now ≤ d.now)
    (h : ∀ k m', d.mandates.row k = some m' → m'.parent = some p →
    ∃ m, db.mandates.row k = some m ∧ m.Ahead m') : d.openChildren p ≤ db.openChildren p := by
  refine count_le fun k m' hm' hopen => ?_
  simp only [Bool.and_eq_true, beq_iff_eq, Option.isNone_iff_eq_none, Bool.not_eq_true', Option.any_eq_false,
    decide_eq_false_iff_not] at hopen ⊢
  obtain ⟨⟨hp, hunrevoked⟩, hexpiry⟩ := hopen
  obtain ⟨m, hm, hahead⟩ := h k m' hm' hp
  have hparent : m.parent = some p := hahead.parent.symm.trans hp
  refine ⟨m, hm, ⟨hparent, hahead.unrevoked hunrevoked⟩, fun t ht hpast => ?_⟩
  exact hexpiry t ((hahead.expiresAt (by simp [hparent])).trans ht) (Nat.le_trans hpast hnow)

/-- A mandate that gets no new clients and no new children stays within its budget. -/
theorem WithinBudget.onward {M : Pk} (h : db.WithinBudget M) (hnow : db.now ≤ d.now)
    (hrow : ∀ m', d.mandates.row M = some m' → ∃ m, db.mandates.row M = some m ∧ m.Ahead m')
    (hchildren : ∀ k m', d.mandates.row k = some m' → m'.parent = some M →
      ∃ m, db.mandates.row k = some m ∧ m.Ahead m')
    (hclients : ∀ k c, d.clients.row k = some c → c.mandate = some M →
      ∃ c₀, db.clients.row k = some c₀ ∧ c₀.mandate = some M) : d.WithinBudget M := by
  intro m' max hm' hmax
  obtain ⟨m, hm, hahead⟩ := hrow m' hm'
  obtain ⟨hseats, hslots⟩ := h m max hm (hahead.maxClients.symm.trans hmax)
  refine ⟨Nat.le_trans (count_le fun k c hc hM => ?_) hseats, Nat.le_trans (openChildren_le hnow hchildren) hslots⟩
  obtain ⟨c₀, hc₀, hM₀⟩ := hclients k c hc (by simpa using hM)
  exact ⟨c₀, hc₀, by simpa using hM₀⟩

/-! ## Rows that go -/

/-- The mandate has a parent or children. -/
def Related (db : DB) (k : Pk) (m : Mandate) : Prop :=
  m.parent.isSome = true ∨ ∃ j n, db.mandates.row j = some n ∧ n.parent = some k

/-- What other requests leave of a mandate: its parent, its slots and whether it is revoked, and in a family
whom it acts for and when it expires. -/
structure Rewritten (db : DB) (k : Pk) (m m' : Mandate) : Prop where
  parent : m'.parent = m.parent
  maxClients : m'.maxClients = m.maxClients
  revokedAt : m'.revokedAt = m.revokedAt
  related : db.Related k m → m'.membership = m.membership ∧ m'.expiresAt = m.expiresAt

theorem Rewritten.refl (db : DB) (k : Pk) (m : Mandate) : db.Rewritten k m m :=
  ⟨rfl, rfl, rfl, fun _ => ⟨rfl, rfl⟩⟩

theorem Rewritten.ahead {k : Pk} {m m' : Mandate} (h : db.Rewritten k m m') : m.Ahead m' :=
  ⟨h.parent, h.maxClients, fun hp => (h.related (.inl hp)).2, fun hm => h.revokedAt ▸ hm⟩

/-- Mandates and clients that go, and mandates written in place, leave the others in order, as none is left
pointing at one that went. -/
theorem Abiding.shrink (h : db.Abiding budgeted) (hnow : db.now ≤ d.now)
    (hrows : ∀ k m', d.mandates.row k = some m' → ∃ m, db.mandates.row k = some m ∧ db.Rewritten k m m')
    (hparents : ∀ k m p, d.mandates.row k = some m → m.parent = some p → ∃ q, d.mandates.row p = some q)
    (hclients : ∀ k c M, d.clients.row k = some c → c.mandate = some M →
      (∃ c₀, db.clients.row k = some c₀ ∧ c₀.mandate = some M) ∧ ∃ m, d.mandates.row M = some m) :
        d.Abiding budgeted where
  family k m' p hm' hp := by
    obtain ⟨m, hm, hrewritten⟩ := hrows k m' hm'
    have hp₀ : m.parent = some p := hrewritten.parent.symm.trans hp
    obtain ⟨hlt, q, hq, hroot, hgrantor, hfollows⟩ := h.family k m p hm hp₀
    obtain ⟨q', hq'⟩ := hparents k m' p hm' hp
    obtain ⟨q₀, hq₀, hrewritten'⟩ := hrows p q' hq'
    rw [hq] at hq₀
    cases hq₀
    have hchild : m'.membership = m.membership := (hrewritten.related (.inl (by simp [hp₀]))).1
    have hparent : q'.membership = q.membership := (hrewritten'.related (.inr ⟨k, m, hm, hp₀⟩)).1
    refine ⟨hlt, q', hq', hrewritten'.parent.trans hroot, hchild.trans (hgrantor.trans hparent.symm), ?_⟩
    rw [hrewritten.revokedAt, hrewritten'.revokedAt]
    exact hfollows
  bound k c M hc hM := by
    obtain ⟨⟨c₀, hc₀, hM₀⟩, m', hm'⟩ := hclients k c M hc hM
    obtain ⟨m₀, hm₀, hunrevoked⟩ := h.bound k c₀ M hc₀ hM₀
    obtain ⟨m, hm, hrewritten⟩ := hrows M m' hm'
    rw [hm] at hm₀
    cases hm₀
    exact ⟨m', hm', hrewritten.revokedAt.trans hunrevoked⟩
  budgets M hM := by
    have hahead : ∀ k m', d.mandates.row k = some m' → ∃ m, db.mandates.row k = some m ∧ m.Ahead m' :=
      fun k m' hm' =>
      (hrows k m' hm').imp fun _ hm => hm.imp_right (·.ahead)
    exact (h.budgets M hM).onward hnow (hahead M) (fun k m' hm' _ => hahead k m' hm')
      fun k c hc hcM => (hclients k c M hc hcM).1

theorem Abiding.delete (h : db.Abiding budgeted) (origin : Model) (roots : List Ref) (upgrading : Option Pk) :
    (db.delete origin roots upgrading).Abiding budgeted := by
  have hshrinks := delete_shrinks db origin roots upgrading
  have hrows : ∀ k m, (db.delete origin roots upgrading).mandates.row k = some m → db.mandates.row k = some m := by
    intro k m hm
    obtain ⟨_, hm₀, rfl⟩ := hshrinks.mandates.2 k m hm
    exact hm₀
  refine h.shrink (Nat.le_of_eq hshrinks.now.symm) (fun k m hm => ⟨m, hrows k m hm, .refl db k m⟩)
    (fun k m p hm hp => ?_)
    fun k c M hc hM => ?_
  · obtain ⟨-, q, hq, -⟩ := h.family k m p (hrows k m hm) hp
    exact delete_target (x := ⟨.mandate, k⟩) (p := ⟨.mandate, p⟩)
      (by simp [hangsOn, hm, Mandate.hangsOn, hp]) ⟨q, hq⟩
  · obtain ⟨c₀, hc₀, _, _, rfl⟩ := hshrinks.clients.2 k c hc
    obtain ⟨m, hm, -⟩ := h.bound k c₀ M hc₀ hM
    refine ⟨⟨c₀, hc₀, hM⟩, ?_⟩
    exact delete_target (x := ⟨.client, k⟩) (p := ⟨.mandate, M⟩)
      (by simp [hangsOn, hc, Client.hangsOn, show c₀.mandate = some M from hM])
      ⟨m, hm⟩

/-! ## A new mandate -/

theorem saveIssue_ok {r : IssueRequest} {x : DB × Pk × Option String} (h : db.saveIssue env r = .ok x) :
    ∃ t m, x.1 = { db with devices := t, mandates := db.mandates.insert m } ∧ m.parent = r.issuer.parent?
      ∧ m.membership = r.grantor ∧ m.revokedAt = none := by
  simp only [saveIssue, bind_ok, saveNewMandate, require_ok, exists_unit, pure_ok, Prod.exists] at h
  obtain ⟨_, -, _, -, -, d, m, key, hclaim, _, ⟨-, -, rfl⟩, rfl⟩ := h
  obtain ⟨⟨t, rfl, -⟩, hclaimed⟩ := withClaimant_ok hclaim
  obtain ⟨_, _, _, _, _, _, _, rfl⟩ := hclaimed.same
  refine ⟨t, _, rfl, ?_, ?_, ?_⟩ <;> cases r.issuer <;> rfl

/-- What a call knows of the parent it has locked. -/
def Slot (db : DB) (p : Pk) (grantor : Pk) : Prop :=
  ∃ q, db.mandates.row p = some q ∧ q.parent = none ∧ q.revokedAt = none ∧ grantor = q.membership
    ∧ ∀ max, q.maxClients = some max → db.openChildren p < max

theorem mem_liveChildren {p k : Pk} {m : Mandate} :
    (k, m) ∈ db.liveChildren p ↔ db.mandates.row k = some m ∧ db.isLive m = true ∧ m.parent = some p := by
  simp [liveChildren, mem_liveMandates, and_assoc]

theorem filter_nodup {α : Type} (t : Table α) (p : Nat → α → Bool) : (t.filter p).Nodup :=
  List.Nodup.of_map _ (pks_nodup t p)

theorem liveChildren_le (db : DB) (p : Pk) : (db.liveChildren p).length ≤ db.openChildren p := by
  refine List.Nodup.length_le_of_subset ((filter_nodup _ _).filter _) fun r hr => ?_
  obtain ⟨hm, hlive, hp⟩ := mem_liveChildren.mp hr
  refine mem_filter.mpr ⟨hm, ?_⟩
  unfold isLive at hlive
  split at hlive
  · cases hlive
  · rename_i hunrevoked
    split at hlive
    · cases hlive
    · rename_i hexpiry
      simp [hp, Option.not_isSome_iff_eq_none.mp hunrevoked, Bool.not_eq_true _ ▸ hexpiry]

/-- While the parent is live so is every open child: they act for the same grantor. -/
theorem openChildren_le_live {p : Pk} {q : Mandate} (h : db.Abiding budgeted) (hq : db.mandates.row p = some q)
    (hlive : db.isLive q = true) : db.openChildren p ≤ (db.liveChildren p).length := by
  refine List.Nodup.length_le_of_subset (filter_nodup _ _) fun r hr => ?_
  obtain ⟨hm, hopen⟩ := mem_filter.mp hr
  simp only [Bool.and_eq_true, beq_iff_eq, Bool.not_eq_true', Option.isNone_iff_eq_none] at hopen
  obtain ⟨⟨hp, hunrevoked⟩, hexpiry⟩ := hopen
  obtain ⟨-, q', hq', -, hgrantor, -⟩ := h.family r.1 r.2 p hm hp
  rw [hq] at hq'
  cases hq'
  refine mem_liveChildren.mpr ⟨hm, ?_, hp⟩
  have hactive : db.grantorIsActive q.membership = true := by
    unfold isLive at hlive
    split at hlive
    · cases hlive
    · split at hlive
      · cases hlive
      · exact hlive
  simp [isLive, hunrevoked, hexpiry, hgrantor, hactive]

theorem checkIssue_slot {r : IssueRequest} {p : Pk} (habiding : db.Abiding budgeted)
    (hp : r.issuer.parent? = some p)
    (h : db.checkIssue r = .ok ()) : db.Slot p r.grantor := by
  cases hissuer : r.issuer with
  | agent parent client =>
    rw [hissuer] at hp
    cases hp
    simp only [checkIssue, hissuer, bind_ok, exists_unit, assertSlots, Table.get_ok, require_ok] at h
    obtain ⟨_, -, ⟨q, hq, hslots⟩, hpolicy⟩ := h
    obtain ⟨-, q', _, hchild⟩ := assertPolicy_agent hpolicy
    have hsame := hchild.row
    rw [hq] at hsame
    cases hsame
    refine ⟨q, hq, hchild.root, isLive_unrevoked hchild.live, hchild.grantor, fun max hmax => ?_⟩
    rw [hmax, Option.all_some, decide_eq_true_eq] at hslots
    exact Nat.lt_of_le_of_lt (openChildren_le_live habiding hq hchild.live) hslots
  | _ => rw [hissuer] at hp; cases hp

theorem count_le_succ {α : Type} {t u : Table α} {p q : Nat → α → Bool} {c : Nat}
    (h : ∀ k b, u.row k = some b → q k b = true → k = c ∨ ∃ a, t.row k = some a ∧ p k a = true) :
    u.count q ≤ t.count p + 1 := by
  have hle : (u.pks q).length ≤ (c :: t.pks p).length := by
    refine (pks_nodup u q).length_le_of_subset fun k hk => ?_
    obtain ⟨b, hb, hq⟩ := mem_pks.mp hk
    rcases h k b hb hq with rfl | hold
    · exact List.mem_cons_self
    · exact List.mem_cons_of_mem _ (mem_pks.mpr hold)
  simpa [pks, count] using hle

theorem count_eq_zero {α : Type} {t : Table α} {p : Nat → α → Bool} (h : ∀ k a, t.row k = some a → p k a = false) :
    t.count p = 0 := by
  refine List.length_eq_zero_iff.mpr (List.eq_nil_iff_forall_not_mem.mpr fun r hr => ?_)
  obtain ⟨hrow, hp⟩ := mem_filter.mp hr
  rw [h r.1 r.2 hrow] at hp
  cases hp

theorem Abiding.issue {m : Mandate} {t : Table Device} (h : db.Abiding budgeted)
    (hslot : ∀ p, m.parent = some p → db.Slot p m.membership) :
    ({ db with devices := t, mandates := db.mandates.insert m } : DB).Abiding budgeted where
  family k n p hn hp := by
    rcases insert_row_eq_some.mp hn with ⟨rfl, rfl⟩ | hn
    · obtain ⟨q, hq, hroot, hlive, hgrantor, -⟩ := hslot p hp
      exact ⟨lt_next hq, q, insert_row_of_some hq, hroot, hgrantor, by simp [hlive]⟩
    · obtain ⟨hlt, q, hq, hrest⟩ := h.family k n p hn hp
      exact ⟨hlt, q, insert_row_of_some hq, hrest⟩
  bound k c M hc hM := by
    obtain ⟨n, hn, hunrevoked⟩ := h.bound k c M hc hM
    exact ⟨n, insert_row_of_some hn, hunrevoked⟩
  budgets M hM n max hn hmax := by
    rcases insert_row_eq_some.mp hn with ⟨rfl, rfl⟩ | hn
    · -- nothing points at a mandate that was not there
      have hnone : ∀ q : Mandate, ¬ db.mandates.row db.mandates.next = some q :=
        fun q hq => Nat.lt_irrefl _ (lt_next hq)
      refine ⟨Nat.le_trans (Nat.le_of_eq (count_eq_zero fun k c hc => ?_)) (Nat.zero_le max),
        Nat.le_trans (Nat.le_of_eq (count_eq_zero fun k n hn => ?_)) (Nat.zero_le max)⟩
      · rw [beq_eq_false_iff_ne]
        intro hcM
        obtain ⟨q, hq, -⟩ := h.bound k c _ hc hcM
        exact hnone q hq
      · simp only [Bool.and_eq_false_iff, beq_eq_false_iff_ne]
        refine .inl (.inl fun hp => ?_)
        rcases insert_row_eq_some.mp hn with ⟨-, rfl⟩ | hn
        · obtain ⟨q, hq, -⟩ := hslot _ hp
          exact hnone q hq
        · obtain ⟨-, q, hq, -⟩ := h.family k n _ hn hp
          exact hnone q hq
    · obtain ⟨hseats, hslots⟩ := h.budgets M hM n max hn hmax
      refine ⟨hseats, ?_⟩
      by_cases hp : m.parent = some M
      · obtain ⟨q, hq, -, -, -, hfree⟩ := hslot M hp
        rw [hn] at hq
        cases hq
        refine Nat.le_trans (count_le_succ (c := db.mandates.next) fun k x hx hopen => ?_) (hfree max hmax)
        exact (insert_row_eq_some.mp hx).imp (·.1) fun hx => ⟨x, hx, hopen⟩
      · refine Nat.le_trans (@openChildren_le db _ M (Nat.le_refl _) fun k x hx hxp => ?_) hslots
        rcases insert_row_eq_some.mp hx with ⟨-, rfl⟩ | hx
        · exact absurd hxp hp
        · exact ⟨x, hx, .refl x⟩

/-! ## A login -/

theorem bindClient_now {pk membership : Pk} {c : Client} {manifest : Manifest} {hub mandate : Option Pk}
    {declined : List String} (h : db.bindClient env pk c manifest membership hub declined mandate = .ok d) :
    d.now = db.now := by
  obtain ⟨m, t, node, stale, -, -, h⟩ := bindClient_installs h
  simp only [installClient, saveClient, bind_ok, require_ok, exists_unit, pure_ok] at h
  obtain ⟨_, ⟨-, rfl⟩, f, hf, rfl⟩ := h
  obtain ⟨⟨x, y, rfl⟩, -⟩ := autoCompose_elsewhere hf
  exact (delete_shrinks _ _ _ _).now

/-- What a login leaves: the mandates as they were issued, and no client bound but its own. -/
structure Enters (db d : DB) (pk c : Pk) : Prop where
  now : d.now = db.now
  mandates : Rewrites (fun _ => Mandate.Alike) db.mandates d.mandates
  others : ∀ k y, k ≠ c → d.clients.row k = some y → db.clients.row k = some y
  own : ∀ y M, d.clients.row c = some y → y.mandate = some M →
    M = pk ∨ ∃ y₀, db.clients.row c = some y₀ ∧ y₀.mandate = some M

theorem bindForLogin_enters {pk c : Pk} {m : Mandate} {x : Client} {request : MandateKeyGrantRequest}
    (h : db.bindForLogin env pk m request c x = .ok d) : Enters db d pk c := by
  unfold bindForLogin at h
  split at h
  · obtain ⟨hmandates, hothers⟩ := bindClient_others h
    obtain ⟨y, _, hy, -, -, -, -, hmandate, -⟩ := bindClient_row h
    refine ⟨bindClient_now h, hmandates.mono fun _ n n' hn => ?_, hothers, fun x M hx hM => ?_⟩
    · obtain ⟨i, rfl, -⟩ := hn
      exact ⟨⟨rfl, rfl, rfl, rfl, id⟩, rfl⟩
    · rw [hy] at hx
      cases hx
      exact .inl (Option.some.inj (hM.symm.trans hmandate))
  · cases h
    exact ⟨rfl, .refl (fun _ => .refl) _, fun _ _ _ hy => hy, fun y M hy hM => .inr ⟨y, hy, hM⟩⟩

theorem clientOfLogin_ok {c : Pk} {x : Client} {request : MandateKeyGrantRequest} {client : Option (Pk × Client)}
    (h : db.clientOfLogin request client = .ok (d, c, x)) : d.now = db.now ∧ d.mandates = db.mandates
      ∧ (∀ k y, k ≠ c → d.clients.row k = some y → db.clients.row k = some y)
      ∧ (d.clients.row c = db.clients.row c ∨ ∃ y, d.clients.row c = some y ∧ y.mandate = none)
      ∧ ∀ r, client = some r → r.1 = c := by
  cases client with
  | some r =>
    simp only [clientOfLogin, Except.ok.injEq, Prod.mk.injEq] at h
    obtain ⟨rfl, rfl, -⟩ := h
    exact ⟨rfl, rfl, fun _ _ _ hy => hy, .inl rfl, fun r' hr' => by rw [Option.some.inj hr']⟩
  | none =>
    simp only [clientOfLogin, bind_ok, Table.get_ok, pure_ok, Prod.mk.injEq] at h
    obtain ⟨y, hy, rfl, rfl, -⟩ := h
    refine ⟨rfl, rfl, fun k y hk hy => ?_, .inr ⟨y, hy, ?_⟩, fun _ hr => by cases hr⟩
    · exact (insert_row_eq_some.mp hy).resolve_left fun hnew => hk hnew.1
    · simp only [createPublicClient, insert_row_next, Option.some.injEq] at hy
      rw [← hy]

theorem saveLogin_enters {pk c : Pk} {m : Mandate} {request : MandateKeyGrantRequest}
    {client : Option (Pk × Client)}
    (h : db.saveLogin env request pk m client = .ok (d, c)) :
    Enters db d pk c ∧ ∀ r, client = some r → r.1 = c := by
  obtain ⟨t, ht, -⟩ := deviceOf_eq db env request.manifest.deviceId m.organization
  simp only [saveLogin, bind_ok, pure_ok, Prod.exists, Prod.mk.injEq] at h
  obtain ⟨e, c', x, hclient, f, hf, rfl, rfl⟩ := h
  obtain ⟨hnow, hmandates, hothers, hown, hsame⟩ := clientOfLogin_ok hclient
  have hbind := bindForLogin_enters hf
  have hdevice : (db.deviceOf env request.manifest.deviceId m.organization).1.now = db.now
      ∧ (db.deviceOf env request.manifest.deviceId m.organization).1.mandates = db.mandates
      ∧ (db.deviceOf env request.manifest.deviceId m.organization).1.clients = db.clients := by
    rw [ht]
    exact ⟨rfl, rfl, rfl⟩
  rw [hdevice.1] at hnow
  rw [hdevice.2.1] at hmandates
  rw [hdevice.2.2] at hothers hown
  refine ⟨⟨hbind.now.trans hnow, ?_, fun k y hk hy => hothers k y hk (hbind.others k y hk hy), ?_⟩, hsame⟩
  · rw [← hmandates]
    refine (hbind.mandates.comp (.modify (fun _ => Mandate.Alike.refl) fun n _ => ?_)).mono fun _ n n' hn => ?_
    · exact ⟨⟨rfl, rfl, rfl, rfl, id⟩, rfl⟩
    · obtain ⟨n₁, h₁, h₂⟩ := hn
      exact h₁.trans h₂
  · intro y M hy hM
    refine (hbind.own y M hy hM).imp_right fun hold => ?_
    obtain ⟨y₀, hy₀, hM₀⟩ := hold
    rcases hown with hrow | ⟨x, hx, hnone⟩
    · exact ⟨y₀, hrow ▸ hy₀, hM₀⟩
    · rw [hx] at hy₀
      cases hy₀
      rw [hnone] at hM₀
      cases hM₀

/-- A call finds the row of the mandate it has locked as it read it. -/
def StillGood (db : DB) (pk : Pk) (m : Mandate) : Prop :=
  ∃ x, db.mandates.row pk = some x ∧ x.revokedAt = none ∧ x.maxClients = m.maxClients

/-- The clients of a mandate besides one. -/
def seatedBesides (db : DB) (pk : Pk) (client : Option Pk) : Nat :=
  db.clients.count fun k c => c.mandate == some pk && client != some k

theorem Enters.clients {pk c : Pk} (h : Enters db d pk c) {k : Pk} {y : Client} {M : Pk}
    (hy : d.clients.row k = some y)
    (hM : y.mandate = some M) : M = pk ∨ ∃ y₀, db.clients.row k = some y₀ ∧ y₀.mandate = some M := by
  by_cases hk : k = c
  · rw [hk] at hy ⊢
    exact h.own y M hy hM
  · exact .inr ⟨y, h.others k y hk hy, hM⟩

theorem Abiding.login {pk c : Pk} {m : Mandate} {client : Option Pk} (h : db.Abiding budgeted)
    (hin : Enters db d pk c)
    (hclient : ∀ k, client = some k → k = c) (hgood : db.StillGood pk m)
    (hfree : budgeted pk → ∀ max, m.maxClients = some max → db.seatedBesides pk client < max) :
    d.Abiding budgeted where
  family k n p hn hp := by
    obtain ⟨n₀, hn₀, honward, hrevoked⟩ := hin.mandates.before hn
    obtain ⟨hlt, q, hq, hroot, hgrantor, hfollows⟩ := h.family k n₀ p hn₀ (honward.parent.symm.trans hp)
    obtain ⟨q', hq', honward', hrevoked'⟩ := hin.mandates.after hq
    refine ⟨hlt, q', hq', honward'.parent.trans hroot, ?_, ?_⟩
    · rw [honward.membership, honward'.membership, hgrantor]
    · rw [hrevoked, hrevoked']
      exact hfollows
  bound k y M hy hM := by
    have hrow : ∃ x, db.mandates.row M = some x ∧ x.revokedAt = none := by
      rcases hin.clients hy hM with rfl | ⟨y₀, hy₀, hM₀⟩
      · obtain ⟨x, hx, hunrevoked, -⟩ := hgood
        exact ⟨x, hx, hunrevoked⟩
      · exact h.bound k y₀ M hy₀ hM₀
    obtain ⟨x, hx, hunrevoked⟩ := hrow
    obtain ⟨x', hx', -, hsame⟩ := hin.mandates.after hx
    exact ⟨x', hx', hsame.trans hunrevoked⟩
  budgets M hM := by
    have hnow : db.now ≤ d.now := Nat.le_of_eq hin.now.symm
    have hrows : ∀ k n', d.mandates.row k = some n' → ∃ n, db.mandates.row k = some n ∧ n.Ahead n' := by
      intro k n' hn'
      obtain ⟨n, hn, honward, -⟩ := hin.mandates.before hn'
      exact ⟨n, hn, honward.ahead⟩
    by_cases hpk : M = pk
    · intro n' max hn' hmax
      obtain ⟨n, hn, honward⟩ := hrows M n' hn'
      obtain ⟨x, hx, -, hsame⟩ := hgood
      rw [hpk] at hn
      rw [hn] at hx
      cases hx
      have hmax' : n.maxClients = some max := honward.maxClients.symm.trans hmax
      refine ⟨?_, Nat.le_trans (openChildren_le hnow fun k n' hn' _ => hrows k n' hn')
        (h.budgets M hM n max (hpk ▸ hn) hmax').2⟩
      refine Nat.le_trans (count_le_succ (c := c) fun k y hy hyM => ?_)
        (hfree (hpk ▸ hM) max (hsame.symm.trans hmax'))
      by_cases hk : k = c
      · exact .inl hk
      · refine .inr ⟨y, hin.others k y hk hy, ?_⟩
        have hclient : client ≠ some k := fun heq => hk (hclient k heq)
        simpa [← hpk, hclient] using hyM
    · refine (h.budgets M hM).onward hnow (hrows M) (fun k n' hn' _ => hrows k n' hn') fun k y hy hyM => ?_
      exact (hin.clients hy hyM).resolve_left hpk

/-! ## A revocation -/

/-- The children of a mandate are among those a call has listed, and only they. -/
structure Family (db : DB) (pk : Pk) (children : List Pk) : Prop where
  all : ∀ k m, db.mandates.row k = some m → m.parent = some pk → k ∈ children
  only : ∀ k ∈ children, k < db.mandates.next ∧ ∀ m, db.mandates.row k = some m → m.parent = some pk

theorem Family.ofChildren (db : DB) (pk : Pk) : db.Family pk (db.childrenOf pk) where
  all k m hm hp := mem_childrenOf.mpr ⟨m, hm, hp⟩
  only k hk := by
    obtain ⟨m, hm, hp⟩ := mem_childrenOf.mp hk
    refine ⟨lt_next hm, fun n hn => ?_⟩
    rw [hm] at hn
    cases hn
    exact hp

/-- The mark a revocation puts on a mandate's row. -/
def withdrawn (now : Time) (pk : Pk) (reason : MandateRevocation) (children : List Pk) (k : Pk) (m : Mandate) :
    Mandate :=
  if k = pk then revokeRow now reason m
  else if children.contains k then revokeRow now .parentRevoked m
  else m

section

variable {now : Time} {pk : Pk} {reason : MandateRevocation} {children clients : List Pk}

theorem revokeRow_onward (m : Mandate) :
    m.Onward (revokeRow now reason m) ∧ (revokeRow now reason m).revokedAt.isSome = true := by
  obtain ⟨t, r, heq, ht⟩ := revokeRow_same now reason m
  rw [heq]
  exact ⟨⟨rfl, rfl, rfl, rfl, fun _ => ht⟩, ht⟩

theorem withdrawn_onward (k : Pk) (m : Mandate) : m.Onward (withdrawn now pk reason children k m) := by
  unfold withdrawn
  split
  · exact (revokeRow_onward m).1
  · split
    · exact (revokeRow_onward m).1
    · exact .refl m

theorem withdrawn_revoked {k : Pk} (hk : k ∈ pk :: children) (m : Mandate) :
    (withdrawn now pk reason children k m).revokedAt.isSome = true := by
  unfold withdrawn
  split
  · exact (revokeRow_onward m).2
  · rename_i hne
    rw [if_pos (by simpa [hne] using hk)]
    exact (revokeRow_onward m).2

theorem withdrawn_other {k : Pk} (hk : k ∉ pk :: children) (m : Mandate) :
    withdrawn now pk reason children k m = m := by
  simp only [List.mem_cons, not_or] at hk
  simp [withdrawn, hk]

theorem withdrawn_hangsOn (k : Pk) (m : Mandate) : (withdrawn now pk reason children k m).hangsOn = m.hangsOn := by
  unfold withdrawn
  split
  · exact revokeRow_hangsOn now reason m
  · split
    · exact revokeRow_hangsOn now .parentRevoked m
    · rfl

/-- Marking a mandate with its children, when no client is bound to any of them any more. -/
theorem Abiding.withdraw (h : db.Abiding budgeted) (hfamily : db.Family pk children)
    (hbare : ∀ k c M, db.clients.row k = some c → c.mandate = some M → M ∉ pk :: children) :
    ({ db with mandates := db.mandates.update (withdrawn now pk reason children) } : DB).Abiding budgeted := by
  have hrows : ∀ k n', (db.mandates.update (withdrawn now pk reason children)).row k = some n' →
      ∃ n, db.mandates.row k = some n ∧ n.Ahead n' := fun k n' hn' => by
    obtain ⟨n, hn, rfl⟩ := update_row_eq_some.mp hn'
    exact ⟨n, hn, (withdrawn_onward k n).ahead⟩
  refine ⟨fun k n' p hn' hp => ?_, fun k c M hc hM => ?_, fun M hM => ?_⟩
  · obtain ⟨n, hn, rfl⟩ := update_row_eq_some.mp hn'
    have honward : n.Onward (withdrawn now pk reason children k n) := withdrawn_onward k n
    have hp₀ : n.parent = some p := honward.parent.symm.trans hp
    obtain ⟨hlt, q, hq, hroot, hgrantor, hfollows⟩ := h.family k n p hn hp₀
    have honward' : q.Onward (withdrawn now pk reason children p q) := withdrawn_onward p q
    refine ⟨hlt, _, update_row_eq_some.mpr ⟨q, hq, rfl⟩, honward'.parent.trans hroot, ?_, fun hrevoked => ?_⟩
    · rw [honward.membership, honward'.membership, hgrantor]
    · by_cases hpk : p = pk
      · exact withdrawn_revoked (List.mem_cons_of_mem _ (hfamily.all k n hn (hpk ▸ hp₀))) n
      · -- no child has children of its own
        have hchild : p ∉ children := by
          intro hmem
          have hparent := (hfamily.only p hmem).2 q hq
          rw [hroot] at hparent
          cases hparent
        rw [withdrawn_other (by simp [hpk, hchild])] at hrevoked
        exact honward.revoked (hfollows hrevoked)
  · obtain ⟨m, hm, hunrevoked⟩ := h.bound k c M hc hM
    refine ⟨m, update_row_eq_some.mpr ⟨m, hm, ?_⟩, hunrevoked⟩
    exact withdrawn_other (hbare k c M hc hM) m
  · exact (h.budgets M hM).onward (Nat.le_refl _) (hrows M) (fun k n' hn' _ => hrows k n' hn')
      fun k c hc hcM => ⟨c, hc, hcM⟩

def bared (db : DB) (clients : List Pk) : DB :=
  (db.revokeTokensOf clients).delete .client (clients.map fun c => ⟨.client, c⟩) none

theorem saveRevocation_eq (db : DB) : db.saveRevocation pk reason children clients
    = { db.bared clients with
        mandates := (db.bared clients).mandates.update (withdrawn db.now pk reason children) } :=
  delete_withdraw (d := db.revokeTokensOf clients) (f := withdrawn db.now pk reason children)
    withdrawn_hangsOn clients

theorem bared_shrinks (db : DB) (clients : List Pk) : Shrinks (db.revokeTokensOf clients) (db.bared clients) :=
  delete_shrinks _ _ _ _

theorem bared_mandates {k : Pk} {m : Mandate} (h : (db.bared clients).mandates.row k = some m) :
    db.mandates.row k = some m := by
  obtain ⟨_, hm, rfl⟩ := (bared_shrinks db clients).mandates.2 k m h
  exact hm

theorem bared_clients {k : Pk} {c : Client} (h : (db.bared clients).clients.row k = some c) :
    k ∉ clients ∧ ∃ c₀, db.clients.row k = some c₀ ∧ c.mandate = c₀.mandate := by
  obtain ⟨c₀, hc₀, _, _, rfl⟩ := (bared_shrinks db clients).clients.2 k c h
  refine ⟨fun hmem => ?_, c₀, hc₀, rfl⟩
  exact delete_not_has (List.mem_map.mpr ⟨k, hmem, rfl⟩) (r := ⟨.client, k⟩) ⟨_, h⟩

/-- What a call knows that has listed what it is about to revoke and delete. -/
structure Listed (db : DB) (pk : Pk) (children clients : List Pk) : Prop where
  family : db.Family pk children
  clients : ∀ k c M, db.clients.row k = some c → c.mandate = some M → M ∈ pk :: children → k ∈ clients

theorem Abiding.revoke (h : db.Abiding budgeted) (hlisted : db.Listed pk children clients) :
    (db.saveRevocation pk reason children clients).Abiding budgeted := by
  rw [saveRevocation_eq]
  have htokens : (db.revokeTokensOf clients).Abiding budgeted := ⟨h.family, h.bound, h.budgets⟩
  refine (htokens.delete .client (clients.map fun c => ⟨.client, c⟩) none).withdraw ⟨?_, ?_⟩ ?_
  · exact fun k m hm hp => hlisted.family.all k m (bared_mandates hm) hp
  · intro k hk
    obtain ⟨hlt, hparent⟩ := hlisted.family.only k hk
    exact ⟨(bared_shrinks db clients).mandates.1 ▸ hlt, fun m hm => hparent m (bared_mandates hm)⟩
  · intro k c M hc hM hmem
    obtain ⟨hout, c₀, hc₀, hsame⟩ := bared_clients hc
    exact hout (hlisted.clients k c₀ M hc₀ (hsame.symm.trans hM) hmem)

end

/-! ## Other requests -/

/-- What a write other than a login leaves: no client gets a mandate, and only a deletion takes mandates. -/
structure Bystands (db d : DB) : Prop where
  now : db.now ≤ d.now
  next : db.mandates.next ≤ d.mandates.next
  clients : ∀ k c M, d.clients.row k = some c → c.mandate = some M →
    ∃ c₀, db.clients.row k = some c₀ ∧ c₀.mandate = some M
  mandates : (∃ origin roots upgrading, d = db.delete origin roots upgrading)
    ∨ ∀ k m, db.mandates.row k = some m → ∃ m', d.mandates.row k = some m'

theorem Bystands.write {l : Label} (hw : Write db l d) (hl : l ≠ .login) : Bystands db d := by
  have hstay : ∀ k m, db.mandates.row k = some m → ∃ m', db.mandates.row k = some m' := fun _ m hm => ⟨m, hm⟩
  have hsame : ∀ k c M, db.clients.row k = some c → c.mandate = some M →
      ∃ c₀, db.clients.row k = some c₀ ∧ c₀.mandate = some M := fun _ c _ hc hM => ⟨c, hc, hM⟩
  have hrewrite : ∀ {R : Nat → Mandate → Mandate → Prop} {t : Table Mandate}, Rewrites R db.mandates t →
      Bystands db { db with mandates := t } := fun ht => by
    refine ⟨Nat.le_refl _, Nat.le_of_eq ht.1.symm, hsame, .inr fun k m hm => ?_⟩
    obtain ⟨m', hm', -⟩ := ht.after hm
    exact ⟨m', hm'⟩
  cases hw with
  | tick seconds => exact ⟨Nat.le_add_right _ _, Nat.le_refl _, hsame, .inr hstay⟩
  | newClient c _ hunbound =>
    refine ⟨Nat.le_refl _, Nat.le_refl _, fun k x M hx hM => ?_, .inr hstay⟩
    rcases insert_row_eq_some.mp hx with ⟨-, rfl⟩ | hx
    · exact absurd (hunbound.2.2.2.2.symm.trans hM) nofun
    · exact ⟨x, hx, hM⟩
  | newRelyingParty c name _ hunbound =>
    refine ⟨Nat.le_refl _, Nat.le_refl _, fun k x M hx hM => ?_, .inr hstay⟩
    rcases insert_row_eq_some.mp hx with ⟨-, rfl⟩ | hx
    · exact absurd (hunbound.2.2.2.2.symm.trans hM) nofun
    · exact ⟨x, hx, hM⟩
  | clients ht =>
    refine ⟨Nat.le_refl _, Nat.le_refl _, fun k x M hx hM => ?_, .inr hstay⟩
    obtain ⟨c, hc, hbinding⟩ := ht.before hx
    exact ⟨c, hc, (congrArg Binding.mandate hbinding).symm.trans hM⟩
  | @bindApp pk c c' m o hc _ _ hmandate =>
    refine ⟨Nat.le_refl _, Nat.le_refl _, fun k x M hx hM => ?_, .inr hstay⟩
    rw [put_row] at hx
    split at hx
    · rename_i hk
      cases hx
      rcases hmandate with hnone | hkept
      · exact absurd (hnone.symm.trans hM) nofun
      · exact ⟨c, hk ▸ hc, hkept.symm.trans hM⟩
    · exact ⟨x, hx, hM⟩
  | bindKeyed => exact absurd rfl hl
  | issue => exact ⟨Nat.le_refl _, Nat.le_succ _, hsame, .inr fun k m hm => ⟨m, insert_row_of_some hm⟩⟩
  | reissue ht => exact hrewrite ht
  | withdraw ht => exact hrewrite ht
  | logIn ht => exact hrewrite ht
  | resettle ht => exact hrewrite ht
  | delete origin roots upgrading =>
    have hshrinks := delete_shrinks db origin roots upgrading
    refine ⟨Nat.le_of_eq hshrinks.now.symm, Nat.le_of_eq hshrinks.mandates.1.symm, fun k c M hc hM => ?_,
      .inl ⟨_, _, _, rfl⟩⟩
    obtain ⟨c₀, hc₀, _, _, rfl⟩ := hshrinks.clients.2 k c hc
    exact ⟨c₀, hc₀, hM⟩
  | renameRole hd =>
    obtain ⟨_, _, -, rfl, -⟩ := renameRole_ok hd
    exact ⟨Nat.le_refl _, Nat.le_refl _, hsame, .inr hstay⟩
  | _ => exact ⟨Nat.le_refl _, Nat.le_refl _, hsame, .inr hstay⟩

/-- Another request writes: it is no login with a key, makes and revokes no mandate, and of those that are
there it writes in place or deletes some of `rows`. -/
def WritesBeside (db : DB) (rows : List Pk) (d : DB) : Prop :=
  (∃ l, Write db l d ∧ l ≠ .login)
    ∧ (∀ k m', d.mandates.row k = some m' → ∃ m, db.mandates.row k = some m ∧ db.Rewritten k m m')
    ∧ ∀ k m, db.mandates.row k = some m → k ∉ rows → d.mandates.row k = some m

theorem Abiding.elsewhere {rows : List Pk} (h : db.Abiding budgeted) (hd : db.WritesBeside rows d) :
    d.Abiding budgeted := by
  obtain ⟨⟨l, hw, hl⟩, hrows, -⟩ := hd
  have hbystands := Bystands.write hw hl
  rcases hbystands.mandates with ⟨origin, roots, upgrading, rfl⟩ | hstay
  · exact h.delete origin roots upgrading
  · refine h.shrink hbystands.now hrows (fun k m' p hm' hp => ?_) fun k c M hc hM => ?_
    · obtain ⟨m, hm, hrewritten⟩ := hrows k m' hm'
      obtain ⟨-, q, hq, -⟩ := h.family k m p hm (hrewritten.parent.symm.trans hp)
      exact hstay p q hq
    · obtain ⟨c₀, hc₀, hM₀⟩ := hbystands.clients k c M hc hM
      obtain ⟨m, hm, -⟩ := h.bound k c₀ M hc₀ hM₀
      exact ⟨⟨c₀, hc₀, hM₀⟩, hstay M m hm⟩

/-! ## What a step leaves of the rows that are locked -/

/-- Only mandates of `own` are written, deleted, and given clients or children. -/
structure Touches (own : List Pk) (db d : DB) : Prop where
  now : db.now ≤ d.now
  next : db.mandates.next ≤ d.mandates.next
  kept : ∀ k m, db.mandates.row k = some m → k ∉ own → ∃ m', d.mandates.row k = some m' ∧ m.Alike m'
  before : ∀ k m', d.mandates.row k = some m' →
    (∃ m, db.mandates.row k = some m ∧ m.Ahead m') ∨ db.mandates.next ≤ k ∧ ∀ p, m'.parent = some p → p ∈ own
  clients : ∀ k c M, d.clients.row k = some c → c.mandate = some M →
    M ∈ own ∨ ∃ c₀, db.clients.row k = some c₀ ∧ c₀.mandate = some M

theorem Touches.refl (own : List Pk) (db : DB) : Touches own db db :=
  ⟨Nat.le_refl _, Nat.le_refl _, fun _ m hm _ => ⟨m, hm, .refl m⟩, fun _ m hm => .inl ⟨m, hm, .refl m⟩,
    fun _ c _ hc hM => .inr ⟨c, hc, hM⟩⟩

theorem Touches.elsewhere {rows : List Pk} (hd : db.WritesBeside rows d) : Touches rows db d := by
  obtain ⟨⟨l, hw, hl⟩, hrows, hkept⟩ := hd
  have hbystands := Bystands.write hw hl
  exact ⟨hbystands.now, hbystands.next, fun k m hm hk => ⟨m, hkept k m hm hk, .refl m⟩,
    fun k m hm => .inl ((hrows k m hm).imp fun _ hm => hm.imp_right (·.ahead)),
    fun k c M hc hM => .inr (hbystands.clients k c M hc hM)⟩

section

variable {own : List Pk} {pk : Pk} (h : Touches own db d) (hpk : pk ∉ own)
include h hpk

theorem Touches.child {k : Pk} {m' : Mandate} (hm' : d.mandates.row k = some m') (hp : m'.parent = some pk) :
    ∃ m, db.mandates.row k = some m ∧ m.Ahead m' :=
  (h.before k m' hm').resolve_right fun hnew => hpk (hnew.2 pk hp)

theorem Touches.client {k : Pk} {c : Client} (hc : d.clients.row k = some c) (hM : c.mandate = some pk) :
    ∃ c₀, db.clients.row k = some c₀ ∧ c₀.mandate = some pk :=
  (h.clients k c pk hc hM).resolve_left hpk

theorem Slot.touched {grantor : Pk} (hslot : db.Slot pk grantor) : d.Slot pk grantor := by
  obtain ⟨q, hq, hroot, hunrevoked, hgrantor, hfree⟩ := hslot
  obtain ⟨q', hq', honward, hsame⟩ := h.kept pk q hq hpk
  refine ⟨q', hq', honward.parent.trans hroot, hsame.trans hunrevoked, hgrantor.trans honward.membership.symm,
    fun max hmax => ?_⟩
  exact Nat.lt_of_le_of_lt (openChildren_le h.now fun k m' hm' hp => h.child hpk hm' hp)
    (hfree max (honward.maxClients.symm.trans hmax))

theorem StillGood.touched {m : Mandate} (hgood : db.StillGood pk m) : d.StillGood pk m := by
  obtain ⟨x, hx, hunrevoked, hmax⟩ := hgood
  obtain ⟨x', hx', honward, hsame⟩ := h.kept pk x hx hpk
  exact ⟨x', hx', hsame.trans hunrevoked, honward.maxClients.trans hmax⟩

theorem seatedBesides_le (client : Option Pk) : d.seatedBesides pk client ≤ db.seatedBesides pk client := by
  refine count_le fun k c hc hp => ?_
  simp only [Bool.and_eq_true, beq_iff_eq] at hp ⊢
  obtain ⟨c₀, hc₀, hM₀⟩ := h.client hpk hc hp.1
  exact ⟨c₀, hc₀, hM₀, hp.2⟩

theorem Family.touched {children : List Pk} (hfamily : db.Family pk children) : d.Family pk children where
  all k m' hm' hp := by
    obtain ⟨m, hm, honward⟩ := h.child hpk hm' hp
    exact hfamily.all k m hm (honward.parent.symm.trans hp)
  only k hk := by
    obtain ⟨hlt, hparent⟩ := hfamily.only k hk
    refine ⟨Nat.lt_of_lt_of_le hlt h.next, fun m' hm' => ?_⟩
    obtain ⟨m, hm, honward⟩ := (h.before k m' hm').resolve_right fun hnew => Nat.not_lt.mpr hnew.1 hlt
    exact honward.parent.trans (hparent m hm)

end

theorem Listed.touched {own children clients : List Pk} {pk : Pk} (h : Touches own db d)
    (hown : ∀ k ∈ own, k ∉ pk :: children)
    (hlisted : db.Listed pk children clients) : d.Listed pk children clients where
  family := hlisted.family.touched h fun hpk => hown pk hpk List.mem_cons_self
  clients k c M hc hM hmem := by
    obtain ⟨c₀, hc₀, hM₀⟩ := h.client (fun hown' => hown M hown' hmem) hc hM
    exact hlisted.clients k c₀ M hc₀ hM₀ hmem

/-! ## What a statement touches, and what it finds out -/

theorem Touches.issue {r : IssueRequest} {x : DB × Pk × Option String} (h : db.saveIssue env r = .ok x) :
    Touches r.issuer.parent?.toList db x.1 := by
  obtain ⟨t, m, hx, hparent, -, -⟩ := saveIssue_ok h
  rw [hx]
  refine ⟨Nat.le_refl _, Nat.le_succ _, fun k n hn _ => ⟨n, insert_row_of_some hn, .refl n⟩, fun k n hn => ?_,
    fun k c M hc hM => .inr ⟨c, hc, hM⟩⟩
  rcases insert_row_eq_some.mp hn with ⟨rfl, rfl⟩ | hn
  · exact .inr ⟨Nat.le_refl _, fun p hp => Option.mem_toList.mpr (hparent.symm.trans hp)⟩
  · exact .inl ⟨n, hn, .refl n⟩

theorem Touches.login {pk c : Pk} (h : Enters db d pk c) : Touches [pk] db d where
  now := Nat.le_of_eq h.now.symm
  next := Nat.le_of_eq h.mandates.1.symm
  kept k m hm _ := h.mandates.after hm
  before k m' hm' := by
    obtain ⟨m, hm, honward, -⟩ := h.mandates.before hm'
    exact .inl ⟨m, hm, honward.ahead⟩
  clients k y M hy hM := (h.clients hy hM).imp_left fun heq => by rw [heq]; exact List.mem_cons_self

theorem bared_kept {clients : List Pk} {k : Pk} {m : Mandate} (hm : db.mandates.row k = some m)
    (hk : k ∉ db.takenAlong clients) :
    (db.bared clients).mandates.row k = some m := by
  unfold bared
  rw [delete_withClients (clientRefs_within clients)]
  refine keep_row_eq_some.mpr ⟨hm, ?_⟩
  simp only [keeps, Bool.not_eq_true', List.contains_eq_mem, decide_eq_false_iff_not]
  exact fun hgone => hk (List.mem_filterMap.mpr ⟨_, hgone, by simp⟩)

theorem Touches.revoke {pk : Pk} {reason : MandateRevocation} {children clients : List Pk} (db : DB) :
    Touches (pk :: children ++ (db.takenAlong clients).filter fun k => !(pk :: children).contains k) db
      (db.saveRevocation pk reason children clients) := by
  rw [saveRevocation_eq]
  refine ⟨Nat.le_of_eq (bared_shrinks db clients).now.symm,
    Nat.le_of_eq (bared_shrinks db clients).mandates.1.symm,
    fun k m hm hk => ?_, fun k m' hm' => ?_, fun k c M hc hM => ?_⟩
  · rw [List.mem_append, not_or] at hk
    have hspared : k ∉ db.takenAlong clients := fun hmem => hk.2 (List.mem_filter.mpr ⟨hmem, by simpa using hk.1⟩)
    exact ⟨m, update_row_eq_some.mpr ⟨m, bared_kept hm hspared, withdrawn_other hk.1 m⟩, .refl m⟩
  · obtain ⟨m, hm, rfl⟩ := update_row_eq_some.mp hm'
    exact .inl ⟨m, bared_mandates hm, (withdrawn_onward k m).ahead⟩
  · obtain ⟨-, c₀, hc₀, hsame⟩ := bared_clients hc
    exact .inr ⟨c₀, hc₀, hsame.symm.trans hM⟩

theorem admitLogin_ok {request : MandateKeyGrantRequest} {r : Pk × Mandate}
    (h : db.admitLogin env request = .ok r) :
    db.keyed env request.key = some r ∧ db.StillGood r.1 r.2 := by
  simp only [admitLogin, bind_ok, found_ok, exists_unit, pure_ok, Prod.exists] at h
  obtain ⟨pk, m, hkeyed, hlive, -, -, -, -, rfl⟩ := h
  exact ⟨hkeyed, m, (first_eq_some hkeyed).1, assertLive_unrevoked hlive, rfl⟩

theorem seatedBesides_lt {pk k : Pk} {c : Client} (hc : db.clients.row k = some c) (hM : c.mandate = some pk) :
    db.seatedBesides pk (some k) < db.seated pk := by
  have hle : (k :: db.clients.pks fun j c => c.mandate == some pk && some k != some j).length
      ≤ (db.clients.pks fun _ c => c.mandate == some pk).length := by
    refine List.Nodup.length_le_of_subset (List.nodup_cons.mpr ⟨fun hmem => ?_, pks_nodup _ _⟩) fun j hj => ?_
    · obtain ⟨_, -, hne⟩ := mem_pks.mp hmem
      simp at hne
    · rcases List.mem_cons.mp hj with rfl | hj
      · exact mem_pks.mpr ⟨c, hc, by simpa using hM⟩
      · obtain ⟨b, hb, hp⟩ := mem_pks.mp hj
        simp only [Bool.and_eq_true] at hp
        exact mem_pks.mpr ⟨b, hb, hp.1⟩
  exact Nat.lt_of_succ_le (by simpa [pks, seatedBesides, seated, count] using hle)

theorem findLogin_seats {request : MandateKeyGrantRequest} {pk : Pk} {m : Mandate} {client : Option (Pk × Client)}
    (habiding : db.Abiding budgeted) (hgood : db.StillGood pk m) (h : db.findLogin env request pk m = .ok client)
    (hpk : budgeted pk) :
    ∀ max, m.maxClients = some max → db.seatedBesides pk (client.map (·.1)) < max := by
  intro max hmax
  unfold findLogin at h
  dsimp only at h
  split at h
  · rename_i r hfirst
    obtain ⟨hc, hp⟩ := first_eq_some hfirst
    simp only [Bool.and_eq_true, beq_iff_eq] at hp
    obtain ⟨x, hx, -, hsame⟩ := hgood
    rw [← pure_ok.mp h]
    exact Nat.lt_of_lt_of_le (seatedBesides_lt hc hp.1) (habiding.budgets pk hpk x max hx (hsame.trans hmax)).1
  · simp only [bind_ok, require_ok, exists_unit, hmax, Option.all_some, decide_eq_true_eq] at h
    refine Nat.lt_of_le_of_lt (count_le fun k c hc hp => ⟨c, hc, ?_⟩) h.1
    simp only [Bool.and_eq_true] at hp
    exact hp.1

theorem childrenOf_ascending {pk : Pk} (h : db.Abiding budgeted) : (pk :: db.childrenOf pk).Pairwise (· < ·) := by
  refine List.pairwise_cons.mpr ⟨fun k hk => ?_, ?_⟩
  · obtain ⟨m, hm, hp⟩ := mem_childrenOf.mp hk
    exact (h.family k m pk hm hp).1
  · exact List.pairwise_map.mpr (db.mandates.rows_sorted.filter _)

end DB

namespace MandateCall

variable {db d : DB} {env : Env} {budgeted : Pk → Prop} {c c' : MandateCall}

/-- What a call knows of the rows it has locked. -/
def Knows (budgeted : Pk → Prop) (db : DB) : MandateCall → Prop
  | checked r => ∀ p, r.issuer.parent? = some p → db.Slot p r.grantor
  | admitted _ pk m => db.StillGood pk m
  | found _ pk m client =>
    db.StillGood pk m ∧ (budgeted pk →
      ∀ max, m.maxClients = some max → db.seatedBesides pk (client.map (·.1)) < max)
  | locking pk _ locked rest => db.Family pk (locked ++ rest) ∧ (pk :: (locked ++ rest)).Pairwise (· < ·)
  | listed pk _ children clients => db.Listed pk children clients
  | _ => True

theorem next_store (h : (c.next env db).2 = some c') : (c.next env db).1 = db := by
  cases c with
  | locking pk reason locked rest => cases rest <;> rfl
  | checked | found => simp [next] at h
  | listed => cases h
  | _ => simp [next]

theorem next_holds (h : (c.next env db).2 = some c') {k : Pk} (hk : k ∈ c'.holds) :
    k ∈ c.holds ∨ k ∈ c.wants env db := by
  cases c with
  | asked | admitted | revoking | issuing =>
    obtain ⟨_, -, rfl⟩ := goesOn_snd.mp h
    simp_all [holds, wants]
  | loggingIn request =>
    obtain ⟨r, hr, rfl⟩ := goesOn_snd.mp h
    rw [List.mem_singleton.mp hk]
    exact .inr (by simp [wants, (DB.admitLogin_ok hr).1])
  | checked | found => simp [next] at h
  | rooted => cases h; exact .inl hk
  | locking pk reason locked rest =>
    cases rest with
    | nil => cases h; exact .inl hk
    | cons j rest =>
      cases h
      simp only [holds, wants, List.mem_cons, List.mem_append, List.not_mem_nil, or_false] at hk ⊢
      tauto
  | listed => cases h

theorem next_knows (habiding : db.Abiding budgeted) (hc : c.Knows budgeted db) (h : (c.next env db).2 = some c') :
    c'.Knows budgeted db := by
  cases c with
  | asked r =>
    obtain ⟨_, -, rfl⟩ := goesOn_snd.mp h
    trivial
  | issuing r =>
    obtain ⟨_, hr, rfl⟩ := goesOn_snd.mp h
    exact fun p hp => DB.checkIssue_slot habiding hp hr
  | checked | found => simp [next] at h
  | loggingIn request =>
    obtain ⟨r, hr, rfl⟩ := goesOn_snd.mp h
    exact (DB.admitLogin_ok hr).2
  | admitted request pk m =>
    obtain ⟨client, hclient, rfl⟩ := goesOn_snd.mp h
    exact ⟨hc, DB.findLogin_seats habiding hc hclient⟩
  | revoking pk reason =>
    obtain ⟨_, -, rfl⟩ := goesOn_snd.mp h
    trivial
  | rooted pk reason =>
    cases h
    exact ⟨.ofChildren db pk, DB.childrenOf_ascending habiding⟩
  | locking pk reason locked rest =>
    cases rest with
    | nil =>
      cases h
      refine ⟨by simpa using hc.1, fun k x M hx hM hmem => mem_pks.mpr ⟨x, hx, ?_⟩⟩
      simpa [hM] using hmem
    | cons k rest =>
      cases h
      simpa [Knows] using hc
  | listed => cases h

theorem next_touches (env : Env) (db : DB) (c : MandateCall) :
    DB.Touches (c.holds ++ c.wants env db) db (c.next env db).1 := by
  cases c with
  | checked r =>
    refine commits_fst (.refl _ db) fun x hx => ?_
    simpa [holds, wants] using DB.Touches.issue hx
  | found request pk m client =>
    refine commits_fst (.refl _ db) fun x hx => ?_
    simpa [holds, wants] using DB.Touches.login (DB.saveLogin_enters (d := x.1) (c := x.2) hx).1
  | listed pk reason children clients => exact @DB.Touches.revoke pk reason children clients db
  | locking pk reason locked rest => cases rest <;> simp only [next] <;> exact .refl _ db
  | rooted => simp only [next]; exact .refl _ db
  | _ => simp only [next, goesOn_fst]; exact .refl _ db

theorem next_abiding (habiding : db.Abiding budgeted) (hc : c.Knows budgeted db) :
    (c.next env db).1.Abiding budgeted := by
  cases c with
  | checked r =>
    refine commits_fst habiding fun x hx => ?_
    obtain ⟨t, m, heq, hparent, hgrantor, -⟩ := DB.saveIssue_ok hx
    rw [heq]
    refine habiding.issue fun p hp => ?_
    rw [hgrantor]
    exact hc p (hparent.symm.trans hp)
  | found request pk m client =>
    refine commits_fst habiding fun x hx => ?_
    obtain ⟨henters, hsame⟩ := DB.saveLogin_enters (d := x.1) (c := x.2) hx
    refine habiding.login henters (fun k hk => ?_) hc.1 hc.2
    obtain ⟨r, hr, rfl⟩ := Option.map_eq_some_iff.mp hk
    exact hsame r hr
  | listed pk reason children clients => exact habiding.revoke hc
  | locking pk reason locked rest => cases rest <;> exact habiding
  | rooted => exact habiding
  | _ => simp only [next, goesOn_fst]; exact habiding

theorem Knows.touched {own : List Pk} (hc : c.Knows budgeted db) (h : DB.Touches own db d)
    (hown : ∀ k ∈ own, k ∉ c.holds) :
    c.Knows budgeted d := by
  have hapart : ∀ {k}, k ∈ c.holds → k ∉ own := fun hk hmem => hown _ hmem hk
  cases c with
  | checked r => exact fun p hp => (hc p hp).touched h (hapart (Option.mem_toList.mpr hp))
  | admitted request pk m =>
    have hpk := hapart (k := pk) (by simp [holds])
    exact DB.StillGood.touched h hpk hc
  | found request pk m client =>
    have hpk := hapart (k := pk) (by simp [holds])
    exact ⟨hc.1.touched h hpk,
      fun hb max hmax => Nat.lt_of_le_of_lt (DB.seatedBesides_le h hpk _) (hc.2 hb max hmax)⟩
  | locking pk reason locked rest =>
    have hpk := hapart (k := pk) (by simp [holds])
    exact ⟨hc.1.touched h hpk, hc.2⟩
  | listed pk reason children clients => exact DB.Listed.touched h hown hc
  | _ => trivial

theorem guarded (env : Env) (budgeted : Pk → Prop) :
    (mandateCalls env).Guarded Begins DB.WritesBeside (DB.Abiding budgeted) (Knows budgeted) where
  lockless c hc := by cases c <;> first | rfl | cases hc
  begun _ c hc := by cases c <;> trivial
  acquires _ _ _ h _ hk := next_holds h hk
  law _ _ habiding hc := next_abiding habiding hc
  fact db c c' habiding hc h := (next_store h).symm ▸ next_knows habiding hc h
  frame db c d _ _ hd hheld hwanted := by
    refine hd.touched (next_touches env db c) fun k hk => ?_
    rcases List.mem_append.mp hk with hk | hk
    · exact hheld k hk
    · exact hwanted k hk
  outside _ _ _ hd habiding := habiding.elsewhere hd
  aside _ _ _ _ hd _ hc hfree := hc.touched (.elsewhere hd) hfree

end MandateCall

/-! ## Safety -/

/-- However any number of calls that issue, revoke, and log in fall between each other and between other
requests' writes: at every moment no client is bound to a revoked mandate, a mandate whose parent was
revoked is revoked, and a mandate that was within its budget when the first of them began, or was issued
since, has no more clients and no more live children than its slots. -/
theorem mandates_hold_in_any_interleaving {env : Env} {db : DB} {s : Pool DB MandateCall} (hdb : Reachable env db)
    (hrun : (mandateCalls env).Run MandateCall.Begins DB.WritesBeside ⟨db, []⟩ s) :
    (∀ k c M m, s.store.clients.row k = some c → c.mandate = some M → s.store.mandates.row M = some m →
      m.revokedAt = none)
    ∧ (∀ k m p, s.store.mandates.row k = some m → m.parent = some p →
      ∃ q, s.store.mandates.row p = some q ∧ (q.revokedAt.isSome = true → m.revokedAt.isSome = true))
    ∧ ∀ M m max, db.WithinBudget M → s.store.mandates.row M = some m → m.maxClients = some max →
      (s.store.clients.count fun _ c => c.mandate == some M) ≤ max ∧ (s.store.liveChildren M).length ≤ max := by
  have hsound := Protocol.Sound.run (MandateCall.guarded env db.WithinBudget)
    (.idle (DB.Abiding.ofReachable hdb fun _ h => h)) hrun
  have habiding := hsound.law
  refine ⟨fun k c M m hc hM hm => ?_, fun k m p hm hp => ?_, fun M m max hM hm hmax => ?_⟩
  · obtain ⟨m', hm', hunrevoked⟩ := habiding.bound k c M hc hM
    rw [hm] at hm'
    cases hm'
    exact hunrevoked
  · obtain ⟨-, q, hq, -, -, hfollows⟩ := habiding.family k m p hm hp
    exact ⟨q, hq, hfollows⟩
  · obtain ⟨hseats, hslots⟩ := habiding.budgets M hM m max hm hmax
    exact ⟨hseats, Nat.le_trans (DB.liveChildren_le s.store M) hslots⟩

/-- Ann lets the app grant one key for a worker. -/
def oneSlot : DB := run plainEnv .empty (plainSetup [] ++
  [.issueMandate (.member 0) 0 0 ⟨some "worker", none, none, none, none⟩ (.agent "app" none none "") none
    (some 1) false "" ""])

/-- The app grants a worker on a device its key. -/
def workerOn (device key : String) : IssueRequest :=
  ⟨.agent 0 0, 0, 0, ⟨some "worker", none, none, none, some device⟩, .key (some key),
   some 100, none, false, "", ""⟩

theorem oneSlot_reachable : Reachable plainEnv oneSlot := reachable_run plainEnv _

/-- It grants keys for two devices at once. -/
def twoWorkers : Pool DB MandateCall :=
  (Pool.begin ⟨oneSlot, []⟩ (.asked (workerOn "red" plainKey))).begin
    (.asked (workerOn "blue" "another-example-of-a-mandate-key-of-lok"))

theorem twoWorkers_begin : (mandateCalls plainEnv).Run MandateCall.Begins DB.WritesBeside
    ⟨oneSlot, []⟩ twoWorkers := by
  refine .tail (.single (Protocol.Happens.begin ?_)) (Protocol.Happens.begin ?_)
  · trivial
  · trivial

theorem mandates_hold_in_any_interleaving_twice : ∃ s,
    (mandateCalls plainEnv).goAll [0, 1, 0, 0, 0] twoWorkers = some s ∧ s.calls = []
      ∧ 0 < (s.store.liveChildren 0).length ∧ (s.store.liveChildren 0).length ≤ 1 := by
  have hend : ((mandateCalls plainEnv).goAll [0, 1, 0, 0, 0] twoWorkers).any (fun s => s.calls.isEmpty
      && decide (0 < (s.store.liveChildren 0).length)
        && (s.store.mandates.row 0).any (·.maxClients == some 1)) = true := by
    decide +kernel
  have hbudget : (oneSlot.seated 0 == 0 && oneSlot.openChildren 0 == 0) = true := by decide +kernel
  obtain ⟨s, hs, hend⟩ := (Option.any_eq_true _ _).mp hend
  simp only [Bool.and_eq_true, decide_eq_true_eq, List.isEmpty_iff, Option.any_eq_true, beq_iff_eq] at hend hbudget
  obtain ⟨⟨hcalls, hlive⟩, m, hm, hmax⟩ := hend
  have hwithin : oneSlot.WithinBudget 0 := fun _ max _ _ => by
    rw [hbudget.1, hbudget.2]
    exact ⟨Nat.zero_le max, Nat.zero_le max⟩
  have hrun := twoWorkers_begin.trans (Protocol.Happens.goAll hs)
  exact ⟨s, hs, hcalls, hlive,
    ((mandates_hold_in_any_interleaving oneSlot_reachable hrun).2.2 0 m 1 hwithin hm hmax).2⟩

/-! ## Progress -/

namespace MandateCall

variable {db : DB} {env : Env} {budgeted : Pk → Prop} {c c' : MandateCall}

/-- A revocation that is about to delete takes no mandate along that it has not locked. -/
def TakesNone (db : DB) : MandateCall → Prop
  | listed pk _ children clients => ∀ k ∈ db.takenAlong clients, k ∈ pk :: children
  | _ => True

/-- Parents are locked before their children, and those in the order of their keys. -/
theorem wants_above (hc : c.Knows budgeted db) (htakes : c.TakesNone db) {j k : Pk} (hj : j ∈ c.holds)
    (hk : k ∈ c.wants env db) :
    j < k := by
  cases c with
  | locking pk reason locked rest =>
    cases rest with
    | nil => cases hk
    | cons i rest =>
      rw [List.mem_singleton.mp hk]
      have hascending : (pk :: locked ++ i :: rest).Pairwise (· < ·) := hc.2
      exact (List.pairwise_append.mp hascending).2.2 j hj i List.mem_cons_self
  | listed pk reason children clients =>
    simp only [wants] at hk
    obtain ⟨htaken, hout⟩ := List.mem_filter.mp hk
    have hin : k ∈ pk :: children := htakes k htaken
    simp [hin] at hout
  | asked | issuing | loggingIn | revoking => cases hj
  | checked | admitted | found | rooted => cases hk

theorem next_size (h : (c.next env db).2 = some c') : c'.size < c.size := by
  cases c with
  | checked | found => simp [next] at h
  | listed => cases h
  | rooted => cases h; simp [size, Prod.Lex.toLex_lt_toLex]
  | locking pk reason locked rest => cases rest <;> cases h <;> simp [size, Prod.Lex.toLex_lt_toLex]
  | asked | issuing | loggingIn | admitted | revoking =>
    obtain ⟨_, -, rfl⟩ := goesOn_snd.mp h
    simp [size, Prod.Lex.toLex_lt_toLex]

end MandateCall

end Lok
