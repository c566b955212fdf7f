import Mathlib.Data.List.Induction

/-!
# What happened in a run

A system takes one action after another, and some actions are events. What a step keeps,
given the events up to and with it, holds at the end of every run, given those of the run.
-/

namespace Traces

variable {σ α ε : Type*} (step : σ → α → σ) (event : σ → α → ε → Prop)

/-- One of the actions was the event, in the state it was taken in. -/
def Happened (s : σ) : List α → ε → Prop
  | [], _ => False
  | a :: as, e => event s a e ∨ Happened (step s a) as e

variable {step event} {s : σ} {as : List α} {a : α} {e : ε}

@[simp] theorem happened_nil : ¬ Happened step event s [] e := id

theorem happened_snoc : Happened step event s (as ++ [a]) e ↔ Happened step event s as e ∨ event
    (as.foldl step s) a e := by
  induction as generalizing s with
  | nil => simp [Happened]
  | cons b as ih => simp [Happened, ih, or_assoc]

theorem Happened.split (h : Happened step event s as e) :
    ∃ bs a cs, as = bs ++ a :: cs ∧ event (bs.foldl step s) a e := by
  induction as generalizing s with
  | nil => exact h.elim
  | cons b as ih =>
    rcases h with h | h
    · exact ⟨[], b, as, rfl, h⟩
    · obtain ⟨bs, a, cs, heq, ha⟩ := ih h
      exact ⟨b :: bs, a, cs, by rw [heq, List.cons_append], ha⟩

/-- What every step keeps with its events holds at the end of a run with the events of the run. -/
theorem history {I : (ε → Prop) → σ → Prop} (hstep : ∀ E s a, I E s → I (fun e => E e ∨ event s a e) (step s a))
    (h : I (fun _ => False) s) (as : List α) : I (Happened step event s as) (as.foldl step s) := by
  induction as using List.reverseRecOn with
  | nil => exact h
  | append_singleton as a ih =>
    have hsnoc : Happened step event s (as ++ [a]) = fun e => Happened step event s as e
      ∨ event (as.foldl step s) a e :=
      funext fun _ => propext happened_snoc
    rw [hsnoc, List.foldl_append]
    exact hstep _ _ a ih

end Traces
