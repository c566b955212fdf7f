import Mathlib.Logic.Basic
import Mathlib.Data.List.Basic

/-!
# Labelled runs

A system is a relation `step s l t`: from `s`, doing `l` leads to `t`. A run is any
number of such steps. What is proved of one step is carried to a run once, here:
invariants, relations that compose, and properties kept until some step is an exception.
-/

namespace Runs

variable {σ ℓ : Type*} {step : σ → ℓ → σ → Prop}

/-- Any number of steps, in order, with the label of each. -/
inductive Run (step : σ → ℓ → σ → Prop) : σ → List ℓ → σ → Prop
  | nil (s : σ) : Run step s [] s
  | cons {s t u : σ} {l : ℓ} {ls : List ℓ} : step s l t → Run step t ls u → Run step s (l :: ls) u

theorem Run.single {s t : σ} {l : ℓ} (h : step s l t) : Run step s [l] t :=
  .cons h (.nil t)

theorem Run.append {s t u : σ} {ls ms : List ℓ} (h : Run step s ls t) (k : Run step t ms u) :
    Run step s (ls ++ ms) u := by
  induction h with
  | nil => exact k
  | cons hs _ ih => exact .cons hs (ih k)

theorem Run.snoc {s t u : σ} {ls : List ℓ} {l : ℓ} (h : Run step s ls t) (k : step t l u) :
    Run step s (ls ++ [l]) u :=
  h.append (.single k)

/-- A run of one list of labels after another passes through a state between the two. -/
theorem Run.split {s u : σ} {ls ms : List ℓ} (h : Run step s (ls ++ ms) u) :
    ∃ t, Run step s ls t ∧ Run step t ms u := by
  induction ls generalizing s with
  | nil => exact ⟨s, .nil s, h⟩
  | cons l ls ih =>
    cases h with
    | cons hst hrest =>
      obtain ⟨t, hls, hms⟩ := ih hrest
      exact ⟨t, .cons hst hls, hms⟩

/-- What every step preserves, a run preserves. -/
theorem Run.invariant {P : σ → Prop} (hstep : ∀ {s l t}, P s → step s l t → P t) {s t : σ} {ls : List ℓ}
    (h : Run step s ls t) (hs : P s) : P t := by
  induction h with
  | nil => exact hs
  | cons hst _ ih => exact ih (hstep hs hst)

/-- A reflexive and transitive relation that holds of every step holds of a run; the steps may
use an invariant `I` of the states they start from. -/
theorem Run.relates {I : σ → Prop} {R : σ → σ → Prop} (hI : ∀ {s l t}, I s → step s l t → I t)
    (hrefl : ∀ s, R s s) (htrans : ∀ {s t u}, R s t → R t u → R s u)
    (hstep : ∀ {s l t}, I s → step s l t → R s t) {s t : σ} {ls : List ℓ} (h : Run step s ls t) (hs : I s) :
    R s t := by
  induction h with
  | nil => exact hrefl _
  | cons hst _ ih => exact htrans (hstep hs hst) (ih (hI hs hst))

theorem Run.mono {step' : σ → ℓ → σ → Prop} (hle : ∀ {s l t}, step s l t → step' s l t) {s t : σ} {ls : List ℓ}
    (h : Run step s ls t) : Run step' s ls t := by
  induction h with
  | nil => exact .nil _
  | cons hst _ ih => exact .cons (hle hst) ih

/-- A run whose labels all satisfy `Q` is a run of the steps that do. -/
theorem Run.restrict {Q : ℓ → Prop} {s t : σ} {ls : List ℓ} (h : Run step s ls t) (hQ : ∀ l ∈ ls, Q l) :
    Run (fun s l t => step s l t ∧ Q l) s ls t := by
  induction h with
  | nil => exact .nil _
  | cons hst _ ih =>
    exact .cons ⟨hst, hQ _ (by simp)⟩ (ih fun l hl => hQ l (by simp [hl]))

/-- Along a run a property is kept until some step is an exception. -/
theorem Run.keeps_until {I P : σ → Prop} {Q : σ → ℓ → Prop} (hI : ∀ {s l t}, I s → step s l t → I t)
    (hstep : ∀ {s l t}, I s → P s → ¬ Q s l → step s l t → P t) {s t : σ} {ls : List ℓ} (h : Run step s ls t)
    (hs : I s) (hP : P s) : P t ∨ ∃ ms l ns u, ls = ms ++ l :: ns ∧ Run step s ms u ∧ Q u l := by
  induction h with
  | nil => exact .inl hP
  | cons hst hrun ih =>
    rename_i s₀ t₀ u₀ l₀ ls₀
    by_cases hQ : Q s₀ l₀
    · exact .inr ⟨[], l₀, ls₀, s₀, rfl, .nil _, hQ⟩
    · rcases ih (hI hs hst) (hstep hs hP hQ hst) with hP | ⟨ms, l, ns, u, rfl, hms, hQ⟩
      · exact .inl hP
      · exact .inr ⟨l₀ :: ms, l, ns, u, rfl, .cons hst hms, hQ⟩

/-- Executing a list of labels, where each has a function that does it, is a run. -/
theorem Run.of_foldlM {f : σ → ℓ → Option σ} (hf : ∀ {s l t}, f s l = some t → step s l t) :
    ∀ {ls : List ℓ} {s t : σ}, ls.foldlM f s = some t → Run step s ls t
  | [], s, t, h => by
    obtain rfl : s = t := by simpa using h
    exact .nil s
  | l :: ls, s, t, h => by
    simp only [List.foldlM_cons, Option.bind_eq_bind, Option.bind_eq_some_iff] at h
    obtain ⟨u, hu, ht⟩ := h
    exact .cons (hf hu) (Run.of_foldlM hf ht)

/-! ## Runs whose labels are of a kind -/

/-- A run from `s` to `t` whose labels all satisfy `P`. -/
def Via (step : σ → ℓ → σ → Prop) (P : ℓ → Prop) (s t : σ) : Prop :=
  ∃ ls, Run step s ls t ∧ ∀ l ∈ ls, P l

variable {P : ℓ → Prop}

theorem Via.refl (s : σ) : Via step P s s := ⟨[], .nil s, fun _ h => nomatch h⟩

theorem Via.single {s t : σ} {l : ℓ} (h : step s l t) (hl : P l) : Via step P s t :=
  ⟨[l], .single h, by simpa using hl⟩

theorem Via.trans {s t u : σ} (h : Via step P s t) (k : Via step P t u) : Via step P s u := by
  obtain ⟨ls, hls, hP⟩ := h
  obtain ⟨ms, hms, hQ⟩ := k
  refine ⟨ls ++ ms, hls.append hms, fun l hl => ?_⟩
  rcases List.mem_append.mp hl with hl | hl
  · exact hP l hl
  · exact hQ l hl

theorem Via.mono {Q : ℓ → Prop} (hle : ∀ l, P l → Q l) {s t : σ} (h : Via step P s t) : Via step Q s t := by
  obtain ⟨ls, hls, hP⟩ := h
  exact ⟨ls, hls, fun l hl => hle l (hP l hl)⟩

/-- A loop whose every iteration is such a run is one; the iterations may use an invariant. -/
theorem Via.foldl_of {α : Type*} {f : σ → α → σ} {I : σ → Prop} : ∀ {l : List α} {s : σ},
    (∀ a ∈ l, ∀ s, I s → Via step P s (f s a) ∧ I (f s a)) → I s → Via step P s (l.foldl f s)
  | [], s, _, _ => .refl s
  | a :: l, s, hf, hs => by
    rw [List.foldl_cons]
    obtain ⟨hvia, hI⟩ := hf a (by simp) s hs
    exact hvia.trans (Via.foldl_of (fun b hb => hf b (by simp [hb])) hI)

theorem Via.foldl {α : Type*} {f : σ → α → σ} {l : List α} {s : σ} (hf : ∀ a ∈ l, ∀ s, Via step P s (f s a)) :
    Via step P s (l.foldl f s) :=
  .foldl_of (I := fun _ => True) (fun a ha s _ => ⟨hf a ha s, trivial⟩) trivial

/-- What every step of the kind preserves, the run preserves. -/
theorem Via.invariant {I : σ → Prop} {s t : σ} (h : Via step P s t)
    (hstep : ∀ {s l t}, I s → step s l t → P l → I t)
    (hs : I s) : I t := by
  obtain ⟨ls, hls, hP⟩ := h
  exact Run.invariant (P := I) (fun hI hst => hstep hI hst.1 hst.2) (hls.restrict hP) hs

/-- A reflexive and transitive relation that holds of every step of the kind holds of the run. -/
theorem Via.relates {R : σ → σ → Prop} (hrefl : ∀ s, R s s) (htrans : ∀ {s t u}, R s t → R t u → R s u)
    (hstep : ∀ {s l t}, step s l t → P l → R s t) {s t : σ} (h : Via step P s t) : R s t := by
  obtain ⟨ls, hls, hP⟩ := h
  exact Run.relates (I := fun _ => True) (R := R) (fun _ _ => trivial) hrefl htrans
    (fun _ hst => hstep hst.1 hst.2)
    (hls.restrict hP) trivial

end Runs
