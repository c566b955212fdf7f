import Mathlib.Data.List.Basic

/-!
# Least closed sets

Each node lists the nodes it hangs on (`hangs x`). A set is closed when a node that hangs
on a member is a member. `closure` computes the least closed set holding the roots: it adds
every node that hangs on what is there, until a pass adds nothing. One pass per node is
enough, since a pass that adds nothing is the last.
-/

namespace Closure

variable {α : Type} [DecidableEq α] (nodes : List α) (hangs : α → List α)

/-- The least closed set holding `roots`, as a relation. -/
inductive Reached (roots : List α) : α → Prop
  | root {x : α} : x ∈ roots → Reached roots x
  | hangs {x p : α} : x ∈ nodes → p ∈ hangs x → Reached roots p → Reached roots x

/-- The nodes a pass adds to `s`. -/
def pass (s : List α) : List α :=
  nodes.filter fun x => !s.contains x && (hangs x).any s.contains

def saturate : Nat → List α → List α
  | 0, s => s
  | n + 1, s => if (pass nodes hangs s).isEmpty then s else saturate n (s ++ pass nodes hangs s)

def closure (roots : List α) : List α :=
  saturate nodes hangs nodes.length roots

variable {nodes hangs}

theorem mem_pass {s : List α} {x : α} :
    x ∈ pass nodes hangs s ↔ x ∈ nodes ∧ x ∉ s ∧ ∃ p ∈ hangs x, p ∈ s := by
  simp [pass]

theorem subset_saturate : ∀ (n : Nat) (s : List α), s ⊆ saturate nodes hangs n s
  | 0, _ => fun _ h => h
  | n + 1, s => by
    rw [saturate]
    split
    · exact fun _ h => h
    · exact fun _ h => subset_saturate n _ (List.mem_append.mpr (.inl h))

theorem saturate_sound {roots : List α} : ∀ (n : Nat) (s : List α), (∀ x ∈ s, Reached nodes hangs roots x) →
    ∀ x ∈ saturate nodes hangs n s, Reached nodes hangs roots x
  | 0, _, hs => hs
  | n + 1, s, hs => by
    rw [saturate]
    split
    · exact hs
    · refine saturate_sound n _ fun x hx => ?_
      rcases List.mem_append.mp hx with hx | hx
      · exact hs x hx
      · obtain ⟨hn, -, p, hp, hps⟩ := mem_pass.mp hx
        exact .hangs hn hp (hs p hps)

theorem left_lt {s : List α} {x : α} (hx : x ∈ pass nodes hangs s) :
    (nodes.filter fun y => !(s ++ pass nodes hangs s).contains y).length
      < (nodes.filter fun y => !s.contains y).length := by
  obtain ⟨hn, hs, -⟩ := mem_pass.mp hx
  have hsub : (nodes.filter fun y => !(s ++ pass nodes hangs s).contains y)
      = (nodes.filter fun y => !s.contains y).filter fun y => !(pass nodes hangs s).contains y := by
    rw [List.filter_filter]
    exact List.filter_congr fun y _ => by simp [Bool.and_comm]
  rw [hsub]
  exact List.length_filter_lt_length_iff_exists.mpr ⟨x, by simp [hn, hs], by simpa using hx⟩

theorem saturate_closed : ∀ (n : Nat) (s : List α), (nodes.filter fun y => !s.contains y).length ≤ n →
    ∀ x ∈ nodes, ∀ p ∈ hangs x, p ∈ saturate nodes hangs n s → x ∈ saturate nodes hangs n s
  | 0, s, hn, x, hx, _, _, _ => by
    have hnil : (nodes.filter fun y => !s.contains y) = [] := List.length_eq_zero_iff.mp (by omega)
    have := List.filter_eq_nil_iff.mp hnil x hx
    simpa [saturate] using this
  | n + 1, s, hn, x, hx, p, hp, hps => by
    rw [saturate] at hps ⊢
    split at hps
    · rename_i hempty
      rw [if_pos hempty]
      by_cases hs : x ∈ s
      · exact hs
      · have : x ∈ pass nodes hangs s := mem_pass.mpr ⟨hx, hs, p, hp, hps⟩
        rw [List.isEmpty_iff.mp hempty] at this; cases this
    · rename_i hne
      rw [if_neg hne]
      obtain ⟨y, hy⟩ : ∃ y, y ∈ pass nodes hangs s := by
        cases hpass : pass nodes hangs s with
        | nil => rw [hpass] at hne; exact absurd rfl hne
        | cons y _ => exact ⟨y, by simp⟩
      exact saturate_closed n _ (by have := left_lt hy; omega) x hx p hp hps

theorem mem_closure {roots : List α} {x : α} :
    x ∈ closure nodes hangs roots ↔ Reached nodes hangs roots x := by
  refine ⟨saturate_sound _ _ (fun y hy => .root hy) x, fun h => ?_⟩
  induction h with
  | root hx => exact subset_saturate _ _ hx
  | hangs hn hp _ ih => exact saturate_closed _ _ (List.length_filter_le _ _) _ hn _ hp ih

/-- A property of the roots that a node takes over from what it hangs on holds of the whole set. -/
theorem closure_induct {roots : List α} {P : α → Prop} (hroot : ∀ x ∈ roots, P x)
    (hstep : ∀ x ∈ nodes, ∀ p ∈ hangs x, P p → P x) {x : α} (h : x ∈ closure nodes hangs roots) : P x := by
  replace h := mem_closure.mp h
  induction h with
  | root hx => exact hroot _ hx
  | hangs hn hp _ ih => exact hstep _ hn _ hp ih

end Closure
