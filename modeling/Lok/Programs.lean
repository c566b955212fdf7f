import Mathlib.Data.List.Basic

/-!
# Programs that call a service

A program works on a state, may fail, and calls a service that may not answer. Each call takes what becomes
of it off a list; when the list is used up, calls are answered. What a program did before it failed stays
done.
-/

namespace Programs

/-- What becomes of a call: it is answered, it is done and the answer does not arrive, or it is not done. -/
inductive Wire (ε : Type)
  | answers
  | lost (e : ε)
  | refuses (e : ε)
  deriving Repr

def Prog (σ ε α : Type) := σ → List (Wire ε) → Except ε α × σ × List (Wire ε)

variable {σ ε α β γ : Type}

namespace Prog

def throw (e : ε) : Prog σ ε α := fun s ws => (.error e, s, ws)

def bind (x : Prog σ ε α) (f : α → Prog σ ε β) : Prog σ ε β := fun s ws =>
  match x s ws with
  | (.ok a, t, vs) => f a t vs
  | (.error e, t, vs) => (.error e, t, vs)

/-- `try: x; except: h`. -/
def catching (x : Prog σ ε α) (h : ε → Prog σ ε α) : Prog σ ε α := fun s ws =>
  match x s ws with
  | (.ok a, t, vs) => (.ok a, t, vs)
  | (.error e, t, vs) => h e t vs

/-- What is done to the state without the service. -/
def act (f : σ → α × σ) : Prog σ ε α := fun s ws => (.ok (f s).1, (f s).2, ws)

/-- A call to the service, which does `f` when it gets there. -/
def call (f : σ → Except ε α × σ) : Prog σ ε α := fun s ws =>
  match ws with
  | [] => ((f s).1, (f s).2, [])
  | .answers :: vs => ((f s).1, (f s).2, vs)
  | .lost e :: vs => (.error e, (f s).2, vs)
  | .refuses e :: vs => (.error e, s, vs)

end Prog

instance : Monad (Prog σ ε) where
  pure a := fun s ws => (.ok a, s, ws)
  bind := Prog.bind

/-- What holds after a program that begins where `P` holds: `Q` if it returns, `T` if it fails. Under `A` every
call is answered. -/
def Meets (A : Prop) (P : σ → Prop) (x : Prog σ ε α) (Q : α → σ → Prop) (T : ε → σ → Prop) : Prop :=
  ∀ s ws, (A → ws = []) → P s → (A → (x s ws).2.2 = []) ∧
    match x s ws with
    | (.ok a, t, _) => Q a t
    | (.error e, t, _) => T e t

namespace Meets

variable {A : Prop} {P P' : σ → Prop} {x : Prog σ ε α} {f : α → Prog σ ε β} {Q K : α → σ → Prop} {R : β → σ → Prop}
  {T F : ε → σ → Prop}

theorem pure {a : α} (h : ∀ s, P s → Q a s) : Meets A P (pure a : Prog σ ε α) Q T :=
  fun s _ hws hs => ⟨hws, h s hs⟩

theorem throw {e : ε} (h : ∀ s, P s → T e s) : Meets A P (Prog.throw e : Prog σ ε α) Q T :=
  fun s _ hws hs => ⟨hws, h s hs⟩

theorem bind (hx : Meets A P x Q T) (hf : ∀ a, Meets A (Q a) (f a) R T) : Meets A P (x >>= f) R T := by
  intro s ws hws hs
  obtain ⟨hvs, hx⟩ := hx s ws hws hs
  show (A → (Prog.bind x f s ws).2.2 = []) ∧ _
  simp only [Bind.bind, Prog.bind]
  rcases h : x s ws with ⟨a | a, t, vs⟩
  · rw [h] at hvs hx
    exact ⟨hvs, hx⟩
  · rw [h] at hvs hx
    exact hf a t vs hvs hx

theorem catching {h : ε → Prog σ ε α} (hx : Meets A P x Q F) (hh : ∀ e, Meets A (F e) (h e) Q T) :
    Meets A P (Prog.catching x h) Q T := by
  intro s ws hws hs
  obtain ⟨hvs, hx⟩ := hx s ws hws hs
  simp only [Prog.catching]
  rcases hr : x s ws with ⟨a | a, t, vs⟩
  · rw [hr] at hvs hx
    exact hh a t vs hvs hx
  · rw [hr] at hvs hx
    exact ⟨hvs, hx⟩

theorem weaken (hx : Meets A P x Q T) (hP : ∀ s, P' s → P s) (hQ : ∀ a s, Q a s → K a s)
    (hT : ∀ e s, T e s → F e s) :
    Meets A P' x K F := by
  intro s ws hws hs
  obtain ⟨hvs, hx⟩ := hx s ws hws (hP s hs)
  refine ⟨hvs, ?_⟩
  rcases hr : x s ws with ⟨a | a, t, vs⟩
  · rw [hr] at hx
    exact hT a t hx
  · rw [hr] at hx
    exact hQ a t hx

theorem assume {φ : Prop} (h : φ → Meets A P x Q T) : Meets A (fun s => φ ∧ P s) x Q T :=
  fun s ws hws hs => h hs.1 s ws hws hs.2

/-- Each state in which a program may begin can be looked at by itself. -/
theorem each (h : ∀ s, P s → Meets A (· = s) x Q T) : Meets A P x Q T := fun s ws hws hs => h s hs s ws hws rfl

theorem choose {ι : Type} {P : ι → σ → Prop} (h : ∀ i, Meets A (P i) x Q T) :
    Meets A (fun s => ∃ i, P i s) x Q T :=
  fun s ws hws ⟨i, hs⟩ => h i s ws hws hs

theorem act {f : σ → α × σ} (h : ∀ s, P s → Q (f s).1 (f s).2) : Meets A P (Prog.act f : Prog σ ε α) Q T :=
  fun s _ hws hs => ⟨hws, h s hs⟩

/-- A call does what it does, or fails, and then it may have done it or not. -/
theorem call {f : σ → Except ε α × σ}
    (hdone : ∀ s, P s → match f s with | (.ok a, t) => Q a t | (.error e, t) => T e t)
    (hlost : ¬ A → ∀ s e, P s → T e (f s).2 ∧ T e s) : Meets A P (Prog.call f) Q T := by
  intro s ws hws hs
  have hdone := hdone s hs
  cases ws with
  | nil =>
    refine ⟨fun _ => rfl, ?_⟩
    simp only [Prog.call]
    rcases hr : f s with ⟨a | a, t⟩ <;> rw [hr] at hdone <;> exact hdone
  | cons w vs =>
    have hA : ¬ A := fun hA => by cases hws hA
    refine ⟨fun h => absurd h hA, ?_⟩
    cases w with
    | answers =>
      simp only [Prog.call]
      rcases hr : f s with ⟨a | a, t⟩ <;> rw [hr] at hdone <;> exact hdone
    | lost e => exact (hlost hA s e hs).1
    | refuses e => exact (hlost hA s e hs).2

theorem foldlM {b : β} {l : List α} {f : β → α → Prog σ ε β} {I : β → σ → Prop}
    (h : ∀ b, ∀ a ∈ l, Meets A (I b) (f b a) I T) : Meets A (I b) (l.foldlM f b) I T := by
  induction l generalizing b with
  | nil => exact pure fun _ hs => hs
  | cons a l ih =>
    rw [List.foldlM_cons]
    exact (h b a (by simp)).bind fun c => ih fun d y hy => h d y (List.mem_cons_of_mem a hy)

theorem after {R : σ → Prop} (h : Meets False P x (fun _ => R) fun _ => R) {s : σ} (hs : P s)
    (ws : List (Wire ε)) : R (x s ws).2.1 := by
  obtain ⟨-, hx⟩ := h s ws (fun h => h.elim) hs
  rcases hr : x s ws with ⟨e | a, t, vs⟩ <;>
  · rw [hr] at hx
    exact hx

/-- Whatever becomes of the calls, a program that fails nowhere returns. -/
theorem returns (h : Meets False P x Q fun _ _ => False) {s : σ} (hs : P s) (ws : List (Wire ε)) :
    ∃ a t vs, x s ws = (.ok a, t, vs) ∧ Q a t := by
  obtain ⟨-, hx⟩ := h s ws (fun h => h.elim) hs
  rcases hr : x s ws with ⟨e | a, t, vs⟩
  · rw [hr] at hx
    exact hx.elim
  · rw [hr] at hx
    exact ⟨a, t, vs, rfl, hx⟩

/-- All calls are answered, so that nothing fails that does not fail then. -/
theorem answered (h : Meets True P x Q fun _ _ => False) {s : σ} (hs : P s) :
    ∃ a t, x s [] = (.ok a, t, []) ∧ Q a t := by
  obtain ⟨hvs, hx⟩ := h s [] (fun _ => rfl) hs
  rcases hr : x s [] with ⟨e | a, t, vs⟩
  · rw [hr] at hx
    exact hx.elim
  · rw [hr] at hx hvs
    obtain rfl : vs = [] := hvs trivial
    exact ⟨a, t, rfl, hx⟩

end Meets

end Programs
