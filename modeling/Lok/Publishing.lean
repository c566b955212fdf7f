import Lok.Runs

/-!
# Publishing

A value computed from a source is shown somewhere else. Whoever changes the source leaves
jobs behind; a job reads the source once and later overwrites what is shown with what it
read. Jobs run side by side, so one that read earlier may write later. When no job does,
and no change that matters is left without a job, what is shown in the end is current.
-/

namespace Publishing

variable {S V : Type*}

/-- A job has not read yet, or holds what it read and the version it read. -/
abbrev Job (V : Type*) := Option (Nat × V)

/-- The source with the number of its changes, what is shown and from which version, and the jobs at work. -/
structure Board (S V : Type*) where
  source : S
  version : Nat
  shown : V
  shownAt : Nat
  jobs : List (Job V)

inductive Move (S : Type*)
  | change (source : S) (jobs : Nat)
  | read (job : Nat)
  | write (job : Nat)

inductive Step (view : S → V) : Board S V → Move S → Board S V → Prop
  | change (b : Board S V) (s : S) (n : Nat) :
    Step view b (.change s n) { b with source := s, version := b.version + 1, jobs := b.jobs ++ .replicate n none }
  | read (b : Board S V) (i : Nat) (h : b.jobs[i]? = some none) :
    Step view b (.read i) { b with jobs := b.jobs.set i (some (b.version, view b.source)) }
  | write (b : Board S V) (i v : Nat) (x : V) (h : b.jobs[i]? = some (some (v, x))) :
    Step view b (.write i) { b with shown := x, shownAt := v, jobs := b.jobs.eraseIdx i }

/-- A change that matters leaves a job, and no job overwrites what was read later than it read. -/
def Orderly (view : S → V) (b : Board S V) : Move S → Prop
  | .change s n => view s = view b.source ∨ 0 < n
  | .read _ => True
  | .write i => ∀ v x, b.jobs[i]? = some (some (v, x)) → b.shownAt ≤ v

/-- Whatever was read since the last change that matters is current, and it is shown or about to be. -/
structure Current (view : S → V) (b : Board S V) (last : Nat) : Prop where
  shownAt : b.shownAt ≤ b.version
  shown : last ≤ b.shownAt → b.shown = view b.source
  reads : ∀ v x, some (v, x) ∈ b.jobs → v ≤ b.version ∧ (last ≤ v → x = view b.source)
  pending : last ≤ b.shownAt ∨ none ∈ b.jobs ∨ ∃ v x, some (v, x) ∈ b.jobs ∧ last ≤ v
  last : last ≤ b.version

variable {view : S → V} {b c : Board S V} {m : Move S} {last : Nat}

theorem Current.of_quiescent (h : Current view b last) (hjobs : b.jobs = []) : b.shown = view b.source := by
  rcases h.pending with hlast | hnone | ⟨v, x, hx, -⟩
  · exact h.shown hlast
  · simp [hjobs] at hnone
  · simp [hjobs] at hx

theorem Current.start (hshown : b.shown = view b.source) (hat : b.shownAt = b.version) (hjobs : b.jobs = []) :
    Current view b b.version where
  shownAt := by omega
  shown _ := hshown
  reads v x h := by simp [hjobs] at h
  pending := .inl (by omega)
  last := Nat.le_refl _

theorem Current.unnoticed (h : Current view b last) {s : S} {n : Nat} (hs : view s = view b.source) :
    Current view { b with source := s, version := b.version + 1, jobs := b.jobs ++ .replicate n none } last where
  shownAt := Nat.le_succ_of_le h.shownAt
  shown hl := (h.shown hl).trans hs.symm
  reads v x hx := by
    have hx : some (v, x) ∈ b.jobs := by simpa using hx
    exact ⟨Nat.le_succ_of_le (h.reads v x hx).1, fun hl => ((h.reads v x hx).2 hl).trans hs.symm⟩
  pending := by
    rcases h.pending with hl | hnone | ⟨v, x, hx, hl⟩
    · exact .inl hl
    · exact .inr (.inl (List.mem_append_left _ hnone))
    · exact .inr (.inr ⟨v, x, List.mem_append_left _ hx, hl⟩)
  last := Nat.le_succ_of_le h.last

theorem Current.noticed (h : Current view b last) (s : S) {n : Nat} (hn : 0 < n) :
    Current view { b with source := s, version := b.version + 1, jobs := b.jobs ++ .replicate n none }
    (b.version + 1) where
  shownAt := Nat.le_succ_of_le h.shownAt
  shown hl := absurd (Nat.le_trans hl h.shownAt) (Nat.not_succ_le_self _)
  reads v x hx := by
    have hx : some (v, x) ∈ b.jobs := by simpa using hx
    have hv := (h.reads v x hx).1
    exact ⟨Nat.le_succ_of_le hv, fun hl => by omega⟩
  pending := .inr (.inl (List.mem_append_right _ (List.mem_replicate.mpr ⟨by omega, rfl⟩)))
  last := Nat.le_refl _

theorem Current.read (h : Current view b last) {i : Nat} (hi : b.jobs[i]? = some none) :
    Current view { b with jobs := b.jobs.set i (some (b.version, view b.source)) } last where
  shownAt := h.shownAt
  shown := h.shown
  reads v x hx := by
    rcases List.mem_or_eq_of_mem_set hx with hx | hx
    · exact h.reads v x hx
    · cases hx
      exact ⟨Nat.le_refl _, fun _ => rfl⟩
  -- the job itself is the one that is about to show what is current
  pending := by
    obtain ⟨hlt, -⟩ := List.getElem?_eq_some_iff.mp hi
    exact .inr (.inr ⟨b.version, view b.source, List.mem_set hlt _, h.last⟩)
  last := h.last

theorem Current.write (h : Current view b last) {i v : Nat} {x : V} (hi : b.jobs[i]? = some (some (v, x)))
    (hv : b.shownAt ≤ v) : Current view { b with shown := x, shownAt := v, jobs := b.jobs.eraseIdx i } last := by
  have hmem : some (v, x) ∈ b.jobs := List.mem_of_getElem? hi
  have hread := h.reads v x hmem
  refine ⟨hread.1, hread.2, fun w y hy => h.reads w y (List.mem_of_mem_eraseIdx hy), ?_, h.last⟩
  -- another job still has to write, unless the one that wrote was the last
  have hother : ∀ j ∈ b.jobs, j ≠ some (v, x) → j ∈ b.jobs.eraseIdx i := by
    intro j hj hne
    obtain ⟨k, hk⟩ := List.mem_iff_getElem?.mp hj
    refine List.mem_eraseIdx_iff_getElem?.mpr ⟨k, fun heq => hne ?_, hk⟩
    rw [heq, hi] at hk
    exact (Option.some.inj hk).symm
  rcases h.pending with hl | hnone | ⟨w, y, hy, hl⟩
  · exact .inl (Nat.le_trans hl hv)
  · exact .inr (.inl (hother _ hnone (by simp)))
  · by_cases heq : (w, y) = (v, x)
    · cases heq
      exact .inl hl
    · exact .inr (.inr ⟨w, y, hother _ hy (by simpa using heq), hl⟩)

theorem Current.step (h : Current view b last) (hstep : Step view b m c) (hm : Orderly view b m) :
    ∃ last', Current view c last' := by
  cases hstep with
  | change s n =>
    rcases hm with hs | hn
    · exact ⟨_, h.unnoticed hs⟩
    · exact ⟨_, h.noticed s hn⟩
  | read i hi => exact ⟨_, h.read hi⟩
  | write i v x hi => exact ⟨_, h.write hi (hm v x hi)⟩

end Publishing
