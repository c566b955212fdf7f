import Mathlib.Data.List.Basic
import Mathlib.Data.List.Forall2

/-!
# Checked computations

A computation that may refuse is an `Except`. A successful one is taken apart at each bind,
so that what it checked and what it computed on the way can be named.
-/

namespace Checks

variable {ε α β σ : Type}

/-- Go on if the condition holds, refuse with `e` otherwise. -/
def require (c : Bool) (e : ε) : Except ε Unit :=
  if c then .ok () else .error e

/-- The value of an option, or a refusal. -/
def found (o : Option α) (e : ε) : Except ε α :=
  match o with
  | some a => .ok a
  | none => .error e

/-- A check on the value of an option; nothing is checked when there is none. -/
def whenSome (o : Option α) (k : α → Except ε Unit) : Except ε Unit :=
  match o with
  | some a => k a
  | none => .ok ()

@[simp] theorem bind_ok {x : Except ε α} {f : α → Except ε β} {b : β} :
    (x >>= f) = .ok b ↔ ∃ a, x = .ok a ∧ f a = .ok b := by
  cases x <;> simp [bind, Except.bind]

@[simp] theorem pure_ok {a b : α} : (pure a : Except ε α) = .ok b ↔ a = b := by
  simp [pure, Except.pure]

@[simp] theorem throw_ok {e : ε} {a : α} : (throw e : Except ε α) = .ok a ↔ False := by
  simp [throw, throwThe, MonadExceptOf.throw]

@[simp] theorem map_ok {x : Except ε α} {f : α → β} {b : β} : x.map f = .ok b ↔ ∃ a, x = .ok a ∧ f a = b := by
  cases x <;> simp [Except.map]

@[simp] theorem require_ok {c : Bool} {e : ε} {u : Unit} : require c e = .ok u ↔ c = true := by
  cases c <;> simp [require]

@[simp] theorem found_ok {o : Option α} {e : ε} {a : α} : found o e = .ok a ↔ o = some a := by
  cases o <;> simp [found]

@[simp] theorem whenSome_ok {o : Option α} {k : α → Except ε Unit} {u : Unit} :
    whenSome o k = .ok u ↔ ∀ a, o = some a → k a = .ok u := by
  cases o <;> simp [whenSome]

/-- What follows a computation need only agree where it succeeds. -/
theorem bind_congr_ok {x : Except ε α} {f g : α → Except ε β} (h : ∀ a, x = .ok a → f a = g a) :
    (x >>= f) = (x >>= g) := by
  cases x with
  | ok a => exact h a rfl
  | error => rfl

theorem exists_ok {x : Except ε α} (h : x.isOk = true) : ∃ a, x = .ok a := by
  cases x with
  | ok a => exact ⟨a, rfl⟩
  | error => cases h

theorem exists_ok_and {x : Except ε α} {p : α → Bool} (h : x.toOption.any p = true) :
    ∃ a, x = .ok a ∧ p a = true := by
  cases x with
  | ok a => exact ⟨a, rfl, by simpa [Except.toOption] using h⟩
  | error => cases h

/-- The value of a check says nothing. -/
@[simp] theorem exists_unit {p : Unit → Prop} : (∃ u, p u) ↔ p () :=
  ⟨fun ⟨(), h⟩ => h, fun h => ⟨(), h⟩⟩

/-- What each iteration of a checked loop preserves, the loop preserves. -/
theorem foldlM_ok {f : σ → α → Except ε σ} {R : σ → σ → Prop} (hrefl : ∀ s, R s s)
    (htrans : ∀ {s t u}, R s t → R t u → R s u) : ∀ {l : List α} {s t : σ},
    (∀ a ∈ l, ∀ s t, f s a = .ok t → R s t) → l.foldlM f s = .ok t → R s t
  | [], s, t, _, h => by
    obtain rfl : s = t := by simpa using h
    exact hrefl s
  | a :: l, s, t, hf, h => by
    rw [List.foldlM_cons] at h
    obtain ⟨u, hu, ht⟩ := bind_ok.mp h
    exact htrans (hf a (by simp) s u hu) (foldlM_ok hrefl htrans (fun b hb => hf b (by simp [hb])) ht)

theorem foldlM_error {f : σ → α → Except ε σ} {P : ε → Prop} (hf : ∀ s a e, f s a = .error e → P e) :
    ∀ {l : List α} {s : σ} {e : ε}, l.foldlM f s = .error e → P e
  | [], _, _, h => by cases h
  | a :: l, s, e, h => by
    rw [List.foldlM_cons] at h
    cases hs : f s a with
    | error x =>
      rw [hs] at h
      cases h
      exact hf s a e hs
    | ok t =>
      rw [hs] at h
      exact foldlM_error hf h

/-- A checked loop read against the list done so far: if a step from a state with `P` succeeds exactly when `Q`
holds of it, and keeps `P`, then the loop succeeds exactly when `Q` holds of all its steps, and keeps `P`. -/
theorem foldlM_prefix {f : σ → α → Except ε σ} {P : List α → σ → Prop} {Q : List α → α → Prop}
    (hstep : ∀ before a s, P before s → (∃ t, f s a = .ok t ∧ P (before ++ [a]) t ∧ Q before a) ∨
      (∃ e, f s a = .error e) ∧ ¬ Q before a) :
    ∀ (l before : List α) (s : σ), P before s →
      (∃ t, l.foldlM f s = .ok t ∧ P (before ++ l) t ∧ ∀ mid a after, l = mid ++ a :: after → Q (before ++ mid) a)
      ∨
      (∃ e, l.foldlM f s = .error e) ∧ ∃ mid a after, l = mid ++ a :: after ∧ ¬ Q (before ++ mid) a := by
  intro l
  induction l with
  | nil =>
    intro before s hs
    refine .inl ⟨s, rfl, by simpa using hs, ?_⟩
    intro mid a after h
    simp at h
  | cons b l ih =>
    intro before s hs
    rcases hstep before b s hs with ⟨t, ht, hPt, hQ⟩ | ⟨⟨e, he⟩, hQ⟩
    · have hcons : (b :: l).foldlM f s = l.foldlM f t := by
        rw [List.foldlM_cons, ht]
        rfl
      rw [hcons]
      rcases ih (before ++ [b]) t hPt with ⟨u, hu, hPu, hall⟩ | ⟨herror, mid, a, after, rfl, hno⟩
      · refine .inl ⟨u, hu, by simpa using hPu, ?_⟩
        intro mid a after heq
        cases mid with
        | nil =>
          obtain ⟨rfl, rfl⟩ : b = a ∧ l = after := by simpa using heq
          simpa using hQ
        | cons c mid =>
          obtain ⟨rfl, rfl⟩ : b = c ∧ l = mid ++ a :: after := by simpa using heq
          simpa using hall mid a after rfl
      · exact .inr ⟨herror, b :: mid, a, after, rfl, by simpa using hno⟩
    · refine .inr ⟨⟨e, ?_⟩, [], b, l, rfl, by simpa using hQ⟩
      rw [List.foldlM_cons, he]
      rfl

theorem mapM_ok {f : α → Except ε β} {l : List α} {m : List β} :
    l.mapM f = .ok m ↔ List.Forall₂ (fun a b => f a = .ok b) l m := by
  induction l generalizing m with
  | nil =>
    rw [List.mapM_nil, pure_ok, List.forall₂_nil_left_iff]
    exact eq_comm
  | cons a l ih =>
    simp only [List.mapM_cons, bind_ok, pure_ok, ih, List.forall₂_cons_left_iff]
    constructor
    · intro h
      obtain ⟨b, hb, m, hm, rfl⟩ := h
      exact ⟨b, m, hb, hm, rfl⟩
    · intro h
      obtain ⟨b, m, hb, hm, rfl⟩ := h
      exact ⟨b, hb, m, hm, rfl⟩

/-- What each iteration of a loop preserves, the loop preserves. -/
theorem foldl_invariant {f : σ → α → σ} {P : σ → Prop} : ∀ {l : List α} {s : σ},
    (∀ a ∈ l, ∀ s, P s → P (f s a)) → P s → P (l.foldl f s)
  | [], _, _, hs => hs
  | a :: l, s, hf, hs => by
    rw [List.foldl_cons]
    exact foldl_invariant (fun b hb => hf b (by simp [hb])) (hf a (by simp) s hs)

end Checks
