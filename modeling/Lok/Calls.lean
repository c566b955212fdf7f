import Mathlib.Data.List.Perm.Basic

/-!
# Calls under way

Calls that work on one store, each a few statements with the others' in between. A call is what it keeps in
memory; its next statement changes the store, and leaves the call further on, or ends it.
-/

namespace Calls

/-- A store, and the calls under way on it. -/
structure Pool (σ γ : Type) where
  store : σ
  calls : List γ

namespace Pool

variable {σ γ ε : Type}

def begin (s : Pool σ γ) (c : γ) : Pool σ γ := { s with calls := s.calls ++ [c] }

/-- The calls besides the `n`-th. -/
def others (s : Pool σ γ) (n : Nat) : List γ := s.calls.eraseIdx n

/-- The next statement of the `n`-th call. -/
def goOn (advance : σ → γ → ε → Option (σ × Option γ)) (s : Pool σ γ) (n : Nat) (e : ε) : Option (Pool σ γ) := do
  let c ← s.calls[n]?
  let (store, next) ← advance s.store c e
  return ⟨store, match next with | some c => s.calls.set n c | none => s.calls.eraseIdx n⟩

variable {advance : σ → γ → ε → Option (σ × Option γ)} {s t : Pool σ γ} {n : Nat} {e : ε} {c d : γ}

theorem perm_replaced {calls : List γ} (h : calls[n]? = some c) (next : Option γ) :
    calls.Perm (c :: calls.eraseIdx n)
      ∧ (match next with | some d => calls.set n d | none => calls.eraseIdx n).Perm
      (next.toList ++ calls.eraseIdx n) := by
  obtain ⟨hlt, rfl⟩ := List.getElem?_eq_some_iff.mp h
  refine ⟨(List.getElem_cons_eraseIdx_perm hlt).symm, ?_⟩
  cases next with
  | none => exact .refl _
  | some d => exact List.set_perm_cons_eraseIdx hlt d

theorem goOn_eq_some (h : s.goOn advance n e = some t) : ∃ c next, s.calls[n]? = some c
    ∧ advance s.store c e = some (t.store, next)
    ∧ s.calls.Perm (c :: s.others n) ∧ t.calls.Perm (next.toList ++ s.others n) := by
  simp only [goOn, Option.bind_eq_bind, Option.bind_eq_some_iff, Prod.exists, Option.pure_def,
    Option.some.injEq] at h
  obtain ⟨c, hc, store, next, hadvance, rfl⟩ := h
  exact ⟨c, next, hc, hadvance, perm_replaced hc next⟩

theorem goOn_last (calls : List γ) {store store' : σ} {next : Option γ}
    (h : advance store c e = some (store', next)) :
    goOn advance ⟨store, calls ++ [c]⟩ calls.length e = some ⟨store', calls ++ next.toList⟩ := by
  have hget : (calls ++ [c])[calls.length]? = some c := by simp
  simp only [goOn, hget, Option.bind_eq_bind, Option.bind_some, h]
  cases next with
  | none => simp [List.eraseIdx_append_of_length_le]
  | some d => simp

theorem mem_of_others (h : d ∈ s.others n) : d ∈ s.calls := List.mem_of_mem_eraseIdx h

/-- What holds of every call under way and the store. -/
def Each (I : σ → γ → Prop) (s : Pool σ γ) : Prop := ∀ c ∈ s.calls, I s.store c

variable {I : σ → γ → Prop}

theorem Each.none (h : s.calls = []) : s.Each I := fun c hc => by
  rw [h] at hc
  cases hc

theorem Each.begin (h : s.Each I) (hc : I s.store c) : (s.begin c).Each I := by
  intro d hd
  rcases List.mem_append.mp hd with hd | hd
  · exact h d hd
  · rw [List.mem_singleton.mp hd]
    exact hc

theorem Each.store {store : σ} (h : s.Each I) (hkeeps : ∀ c ∈ s.calls, I s.store c → I store c) :
    Each I { s with store := store } :=
  fun c hc => hkeeps c hc (h c hc)

theorem Each.goOn {next : Option γ} (h : s.Each I) (hcalls : t.calls.Perm (next.toList ++ s.others n))
    (hnext : ∀ d ∈ next, I t.store d) (hothers : ∀ d ∈ s.others n, I s.store d → I t.store d) : t.Each I := by
  intro d hd
  rcases List.mem_append.mp (hcalls.mem_iff.mp hd) with hd | hd
  · exact hnext d (Option.mem_toList.mp hd)
  · exact hothers d hd (h d (mem_of_others hd))

end Pool

/-- A call that runs to its end by itself, every statement of it turning out as `e`. -/
inductive Alone {σ γ ε : Type} (advance : σ → γ → ε → Option (σ × Option γ)) (e : ε) : σ → γ → σ → Prop
  | last {s t : σ} {c : γ} : advance s c e = some (t, none) → Alone advance e s c t
  | more {s t u : σ} {c d : γ} : advance s c e = some (t, some d) → Alone advance e t d u → Alone advance e s c u

end Calls
