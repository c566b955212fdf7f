import Lok.Calls
import Mathlib.Data.Finset.Max
import Mathlib.Data.Multiset.DershowitzManna
import Mathlib.Data.Prod.Lex
import Mathlib.Logic.Relation

/-!
# Calls that lock rows

A call takes locks as it goes, waits while another has one it wants, and lets go of all of them when it
ends. What a call found out about the rows it has locked stays true while the others go on. Where every call
takes its locks in ascending order, somebody can always go on.
-/

namespace RowLocks

open Calls Relation

variable {σ γ κ α : Type}

/-- How calls on a store go about the locks of its rows. -/
structure Protocol (σ γ κ : Type) where
  holds : γ → List κ
  /-- The locks the next statement of a call waits for. -/
  wants : σ → γ → List κ
  next : σ → γ → σ × Option γ

namespace Protocol

variable (P : Protocol σ γ κ)

section
variable [DecidableEq κ]

/-- The next statement of the `n`-th call, unless another has a lock it waits for. -/
def goOn (s : Pool σ γ) (n : Nat) : Option (Pool σ γ) := do
  let c ← s.calls[n]?
  if (P.wants s.store c).any fun k => (s.others n).any fun d => (P.holds d).contains k then none
  else s.goOn (fun store c _ => some (P.next store c)) n ()

/-- What happens next: a call begins, one goes on or is given up, or somebody else writes rows that are not
locked. -/
inductive Happens (begins : γ → Prop) (elsewhere : σ → List κ → σ → Prop) (s : Pool σ γ) : Pool σ γ → Prop
  | begin {c : γ} (h : begins c) : Happens begins elsewhere s (s.begin c)
  | goOn {n : Nat} {t : Pool σ γ} (h : P.goOn s n = some t) : Happens begins elsewhere s t
  | giveUp (n : Nat) : Happens begins elsewhere s { s with calls := s.others n }
  | elsewhere {rows : List κ} {d : σ} (h : elsewhere s.store rows d)
    (hfree : ∀ c ∈ s.calls, ∀ k ∈ rows, k ∉ P.holds c) :
      Happens begins elsewhere s { s with store := d }

abbrev Run (begins : γ → Prop) (elsewhere : σ → List κ → σ → Prop) : Pool σ γ → Pool σ γ → Prop :=
  ReflTransGen (P.Happens begins elsewhere)

/-- The calls under way go on in the order of `schedule`. -/
def goAll (schedule : List Nat) (s : Pool σ γ) : Option (Pool σ γ) := schedule.foldlM P.goOn s

variable {P} {begins : γ → Prop} {elsewhere : σ → List κ → σ → Prop} {s t : Pool σ γ} {n : Nat} {c d : γ}

theorem goOn_eq_some (h : P.goOn s n = some t) : ∃ c, s.calls[n]? = some c
    ∧ (∀ k ∈ P.wants s.store c, ∀ d ∈ s.others n, k ∉ P.holds d) ∧ t.store = (P.next s.store c).1
    ∧ s.calls.Perm (c :: s.others n) ∧ t.calls.Perm ((P.next s.store c).2.toList ++ s.others n) := by
  unfold goOn at h
  obtain ⟨c, hc, h⟩ := Option.bind_eq_some_iff.mp h
  split at h
  · cases h
  · rename_i hfree
    obtain ⟨c', next, hc', hadvance, hbefore, hafter⟩ := Pool.goOn_eq_some h
    rw [hc] at hc'
    cases hc'
    have hnext : P.next s.store c = (t.store, next) := Option.some.inj hadvance
    refine ⟨c, hc, fun k hk d hd hheld => hfree ?_, by rw [hnext], hbefore, by rw [hnext]; exact hafter⟩
    exact List.any_eq_true.mpr ⟨k, hk, List.any_eq_true.mpr ⟨d, hd, by simpa using hheld⟩⟩

theorem Happens.goAll {schedule : List Nat} (h : P.goAll schedule s = some t) : P.Run begins elsewhere s t := by
  induction schedule generalizing s with
  | nil =>
    cases h
    exact .refl
  | cons n schedule ih =>
    obtain ⟨u, hu, h⟩ := Option.bind_eq_some_iff.mp h
    exact .head (.goOn hu) (ih h)

theorem goOn_eq_none (hc : s.calls[n]? = some c) (h : P.goOn s n = none) :
    ∃ k ∈ P.wants s.store c, ∃ d ∈ s.calls, k ∈ P.holds d := by
  unfold goOn at h
  rw [hc, Option.bind_eq_bind, Option.bind_some] at h
  split at h
  · rename_i hblocked
    obtain ⟨k, hk, hheld⟩ := List.any_eq_true.mp hblocked
    obtain ⟨d, hd, hheld⟩ := List.any_eq_true.mp hheld
    exact ⟨k, hk, d, Pool.mem_of_others hd, by simpa using hheld⟩
  · simp [Pool.goOn, hc] at h

/-! ## What a call knows -/

def Exclusive (P : Protocol σ γ κ) (s : Pool σ γ) : Prop :=
  s.calls.Pairwise fun c d => ∀ k ∈ P.holds c, k ∉ P.holds d

/-- A law of the store that every call keeps, because of what it knows of the rows it has locked. -/
structure Guarded (P : Protocol σ γ κ) (begins : γ → Prop) (elsewhere : σ → List κ → σ → Prop) (Law : σ → Prop)
    (Fact : σ → γ → Prop) :
    Prop where
  lockless : ∀ c, begins c → P.holds c = []
  begun : ∀ store c, begins c → Fact store c
  acquires : ∀ store c d, (P.next store c).2 = some d → ∀ k ∈ P.holds d, k ∈ P.holds c ∨ k ∈ P.wants store c
  law : ∀ store c, Law store → Fact store c → Law (P.next store c).1
  fact : ∀ store c d, Law store → Fact store c → (P.next store c).2 = some d → Fact (P.next store c).1 d
  frame : ∀ store c d, Law store → Fact store c → Fact store d → (∀ k ∈ P.holds c, k ∉ P.holds d) →
    (∀ k ∈ P.wants store c, k ∉ P.holds d) → Fact (P.next store c).1 d
  outside : ∀ store rows store', elsewhere store rows store' → Law store → Law store'
  aside : ∀ store rows store' c, elsewhere store rows store' → Law store → Fact store c →
    (∀ k ∈ rows, k ∉ P.holds c) →
    Fact store' c

variable {Law : σ → Prop} {Fact : σ → γ → Prop}

structure Sound (P : Protocol σ γ κ) (Law : σ → Prop) (Fact : σ → γ → Prop) (s : Pool σ γ) : Prop where
  law : Law s.store
  facts : s.Each Fact
  exclusive : P.Exclusive s

theorem Sound.goOn (hG : P.Guarded begins elsewhere Law Fact) (h : P.Sound Law Fact s)
    (hgo : P.goOn s n = some t) :
    P.Sound Law Fact t := by
  obtain ⟨c, -, hfree, hstore, hbefore, hafter⟩ := goOn_eq_some hgo
  have hc : Fact s.store c := h.facts c (hbefore.mem_iff.mpr (by simp))
  have hsymm : ∀ {c d : γ}, (∀ k ∈ P.holds c, k ∉ P.holds d) → ∀ k ∈ P.holds d, k ∉ P.holds c :=
    fun hcd k hd hc => hcd k hc hd
  obtain ⟨hapart, hothers⟩ := List.pairwise_cons.mp ((hbefore.pairwise_iff hsymm).mp h.exclusive)
  refine ⟨?_, ?_, (hafter.pairwise_iff hsymm).mpr ?_⟩
  · rw [hstore]
    exact hG.law s.store c h.law hc
  · refine h.facts.goOn hafter (fun d hd => ?_) fun d hd hfact => ?_
    · rw [hstore]
      exact hG.fact s.store c d h.law hc hd
    · rw [hstore]
      exact hG.frame s.store c d h.law hc hfact (hapart d hd) fun k hk => hfree k hk d hd
  · cases hnext : (P.next s.store c).2 with
    | none => exact hothers
    | some c' =>
      refine List.pairwise_cons.mpr ⟨fun d hd k hk => ?_, hothers⟩
      rcases hG.acquires s.store c c' hnext k hk with hheld | hwanted
      · exact hapart d hd k hheld
      · exact hfree k hwanted d hd

theorem Sound.happens (hG : P.Guarded begins elsewhere Law Fact) (h : P.Sound Law Fact s)
    (hs : P.Happens begins elsewhere s t) : P.Sound Law Fact t := by
  cases hs with
  | @begin c hc =>
    refine ⟨h.law, h.facts.begin (hG.begun _ c hc), ?_⟩
    refine List.pairwise_append.mpr ⟨h.exclusive, List.pairwise_singleton _ _, fun d _ e he k _ hk => ?_⟩
    rw [List.mem_singleton.mp he, hG.lockless c hc] at hk
    cases hk
  | goOn hgo => exact h.goOn hG hgo
  | giveUp n =>
    exact ⟨h.law, fun c hc => h.facts c (Pool.mem_of_others hc), h.exclusive.sublist (List.eraseIdx_sublist _ n)⟩
  | elsewhere hd hfree =>
    exact ⟨hG.outside _ _ _ hd h.law,
      h.facts.store fun c hc hfact => hG.aside _ _ _ c hd h.law hfact (hfree c hc), h.exclusive⟩

theorem Sound.run (hG : P.Guarded begins elsewhere Law Fact) (h : P.Sound Law Fact s)
    (hrun : P.Run begins elsewhere s t) :
    P.Sound Law Fact t := by
  induction hrun with
  | refl => exact h
  | tail _ hs ih => exact ih.happens hG hs

omit [DecidableEq κ] in
theorem Sound.idle {store : σ} (h : Law store) : P.Sound Law Fact ⟨store, []⟩ := ⟨h, .none rfl, .nil⟩

/-! ## Calls come to an end -/

/-- The statements left of the calls under way are finitely many, whoever goes on. -/
theorem wellFounded [Preorder α] [WellFoundedLT α] (size : γ → α)
    (hsize : ∀ store c d, (P.next store c).2 = some d → size d < size c) :
    WellFounded fun t s : Pool σ γ => ∃ n, P.goOn s n = some t := by
  refine Subrelation.wf (r := InvImage Multiset.IsDershowitzMannaLT
    fun s : Pool σ γ => (s.calls.map size : Multiset α)) ?_
    (InvImage.wf _ Multiset.wellFounded_isDershowitzMannaLT)
  intro t s h
  obtain ⟨n, h⟩ := h
  obtain ⟨c, -, -, -, hbefore, hafter⟩ := goOn_eq_some h
  refine ⟨(s.others n).map size, (P.next s.store c).2.toList.map size, {size c},
    Multiset.singleton_ne_zero _, ?_, ?_, ?_⟩
  · rw [Multiset.coe_add, ← List.map_append, Multiset.coe_eq_coe]
    exact (hafter.trans List.perm_append_comm).map size
  · rw [← Multiset.coe_singleton, Multiset.coe_add, Multiset.coe_eq_coe]
    exact (hbefore.map size).trans (List.perm_append_singleton _ _).symm
  · intro x hx
    obtain ⟨d, hd, rfl⟩ := List.mem_map.mp (Multiset.mem_coe.mp hx)
    exact ⟨size c, Multiset.mem_singleton_self _, hsize s.store c d (Option.mem_toList.mp hd)⟩

end

section
variable [LinearOrder κ] {P : Protocol σ γ κ} {begins : γ → Prop} {elsewhere : σ → List κ → σ → Prop}
  {Law : σ → Prop} {Fact : σ → γ → Prop} {s : Pool σ γ}

/-- No call waits for a lock below one it has. -/
def Ascending (P : Protocol σ γ κ) (s : Pool σ γ) : Prop :=
  ∀ c ∈ s.calls, ∀ k ∈ P.wants s.store c, ∀ j ∈ P.holds c, j < k

/-- Somebody can go on: whoever has the greatest of all locks has none to wait for. -/
theorem Ascending.goesOn (h : P.Ascending s) (hcalls : s.calls ≠ []) : ∃ n t, P.goOn s n = some t := by
  by_contra hstuck
  have hblocked : ∀ c ∈ s.calls, ∃ k ∈ P.wants s.store c, ∃ d ∈ s.calls, k ∈ P.holds d := by
    intro c hc
    obtain ⟨n, hn⟩ := List.mem_iff_getElem?.mp hc
    refine goOn_eq_none hn ?_
    cases hgo : P.goOn s n with
    | none => rfl
    | some t => exact absurd ⟨n, t, hgo⟩ hstuck
  let held := (s.calls.flatMap P.holds).toFinset
  have hmem : ∀ {d k}, d ∈ s.calls → k ∈ P.holds d → k ∈ held := fun hd hk =>
    List.mem_toFinset.mpr (List.mem_flatMap.mpr ⟨_, hd, hk⟩)
  obtain ⟨c, hc⟩ := List.exists_mem_of_ne_nil _ hcalls
  obtain ⟨k, -, d, hd, hk⟩ := hblocked c hc
  have hheld : held.Nonempty := ⟨k, hmem hd hk⟩
  obtain ⟨top, htop, hmax⟩ := List.mem_flatMap.mp (List.mem_toFinset.mp (held.max'_mem hheld))
  obtain ⟨j, hj, e, he, hje⟩ := hblocked top htop
  exact absurd (h top htop j hj _ hmax) (not_lt_of_ge (held.le_max' j (hmem he hje)))

end

/-! ## A call by itself -/

/-- A call that runs to its end with nobody in between. -/
abbrev Alone : σ → γ → σ → Prop := Calls.Alone (fun store c (_ : Unit) => some (P.next store c)) ()

end Protocol

end RowLocks
