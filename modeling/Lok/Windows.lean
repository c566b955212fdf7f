import Mathlib.Data.List.Induction

/-!
# Fixed windows

A counter for each key, started by the first hit and gone when its window is over. A hit is let through while the
counter is within the limit. Counters are cached, and a cache may drop what it holds at any time.
-/

namespace Windows

structure Entry where
  count : Nat
  expires : Nat
  deriving DecidableEq, Repr

inductive Act (κ : Type)
  | hit (k : κ)
  | drop (p : κ → Bool)

structure Event (κ : Type) where
  time : Nat
  act : Act κ

/-- What is cached for each key; what has expired is still there, and not found. -/
abbrev Cache (κ : Type) := κ → Option Entry

section

variable {κ : Type} {e f : Event κ} {es : List (Event κ)}

/-- No event is before an earlier one. -/
def InOrder (es : List (Event κ)) : Prop := es.Pairwise fun e f => e.time ≤ f.time

theorem InOrder.tail (h : InOrder (e :: es)) : InOrder es := (List.pairwise_cons.mp h).2

theorem InOrder.le (h : InOrder (e :: es)) (hf : f ∈ es) : e.time ≤ f.time := (List.pairwise_cons.mp h).1 f hf

theorem InOrder.front (h : InOrder (es ++ [e])) : InOrder es := (List.pairwise_append.mp h).1

theorem InOrder.le_last (h : InOrder (es ++ [e])) (hf : f ∈ es) : f.time ≤ e.time :=
  (List.pairwise_append.mp h).2.2 f hf e (by simp)

def Cache.find (c : Cache κ) (k : κ) (now : Nat) : Option Entry := (c k).filter fun e => now < e.expires

theorem Cache.find_eq_some {c : Cache κ} {k : κ} {now : Nat} {x : Entry} :
    c.find k now = some x ↔ c k = some x ∧ now < x.expires := by
  simp [find, Option.filter_eq_some_iff]

end

variable {κ : Type} [DecidableEq κ]

namespace Cache

/-- `add`: only where nothing is found. -/
def add (c : Cache κ) (k : κ) (now window : Nat) : Option (Cache κ) :=
  match c.find k now with
  | some _ => none
  | none => some (Function.update c k (some ⟨1, now + window⟩))

/-- `incr`: only where something is found; it expires when it would have. -/
def incr (c : Cache κ) (k : κ) (now : Nat) : Option (Nat × Cache κ) :=
  (c.find k now).map fun e => (e.count + 1, Function.update c k (some { e with count := e.count + 1 }))

def drop (c : Cache κ) (p : κ → Bool) : Cache κ := fun k => if p k then none else c k

/-- A hit: what is cached afterwards, and whether it is let through. -/
def hit (window limit : Nat) (c : Cache κ) (k : κ) (now : Nat) : Cache κ × Bool :=
  match c.add k now window with
  | some c' => (c', true)
  | none =>
    match c.incr k now with
    | some (n, c') => (c', decide (n ≤ limit))
    | none => (c, true)

variable {c : Cache κ} {k j : κ} {now window limit : Nat}

theorem hit_of_none (h : c.find k now = none) :
    c.hit window limit k now = (Function.update c k (some ⟨1, now + window⟩), true) := by
  simp [hit, add, h]

theorem hit_of_some {e : Entry} (h : c.find k now = some e) :
    c.hit window limit k now = (Function.update c k (some { e with count := e.count + 1 }),
      decide (e.count + 1 ≤ limit)) := by
  simp [hit, add, incr, h]

theorem hit_other (hne : j ≠ k) : (c.hit window limit k now).1 j = c j := by
  cases h : c.find k now with
  | none => rw [hit_of_none h]; exact Function.update_of_ne hne _ _
  | some e => rw [hit_of_some h]; exact Function.update_of_ne hne _ _

end Cache

/-! ## Hits one after the other -/

section

variable (window : Nat) (limit : κ → Nat)

def Event.after (c : Cache κ) (e : Event κ) : Cache κ :=
  match e.act with
  | .hit k => (c.hit window (limit k) k e.time).1
  | .drop p => c.drop p

def Event.passes (c : Cache κ) (e : Event κ) : Bool :=
  match e.act with
  | .hit k => (c.hit window (limit k) k e.time).2
  | .drop _ => false

def Event.hits (k : κ) (e : Event κ) : Bool :=
  match e.act with
  | .hit j => decide (j = k)
  | .drop _ => false

def Event.drops (k : κ) (e : Event κ) : Bool :=
  match e.act with
  | .hit _ => false
  | .drop p => p k

def Event.within (start : Nat) (e : Event κ) : Bool := decide (start ≤ e.time ∧ e.time < start + window)

def state (c : Cache κ) (es : List (Event κ)) : Cache κ := es.foldl (Event.after window limit) c

def passed (c : Cache κ) : List (Event κ) → List (Event κ)
  | [] => []
  | e :: es => (if e.passes window limit c then [e] else []) ++ passed (e.after window limit c) es

end

variable {c : Cache κ} {k : κ} {window start : Nat} {limit : κ → Nat} {e : Event κ} {es : List (Event κ)}

theorem mem_of_passed (h : e ∈ passed window limit c es) : e ∈ es := by
  induction es generalizing c with
  | nil => simp [passed] at h
  | cons f es ih =>
    rw [passed, List.mem_append] at h
    rcases h with h | h
    · split at h
      · rw [List.mem_singleton] at h
        simp [h]
      · simp at h
    · exact List.mem_cons_of_mem f (ih h)

/-! ## How many are let through -/

/-- How many more hits may be let through in a window that begins at `start`, from then on. -/
def spare (window limit start : Nat) : Option Entry → Nat
  | none => max 1 limit
  | some e => max 1 limit - e.count + if e.expires < start + window then max 1 limit else 0

theorem spare_le (m : Nat) (o : Option Entry) (h : ∀ e, o = some e → 1 ≤ e.count) :
    spare window m start o ≤ 2 * max 1 m - 1 := by
  cases o with
  | none => simp only [spare]; omega
  | some e =>
    have hcount := h e rfl
    simp only [spare]
    split <;> omega

theorem spare_hit (limit : κ → Nat) (c : Cache κ) (k : κ) (hstart : start ≤ e.time)
    (hend : e.time < start + window) :
    (e.passes window limit c && e.hits k).toNat + spare window (limit k) start (e.after window limit c k)
      ≤ spare window (limit k) start (c k) + if e.drops k then max 1 (limit k) else 0 := by
  obtain ⟨t, act⟩ := e
  dsimp only at hstart hend
  cases act with
  | drop p =>
    simp only [Event.hits, Event.after, Event.drops, Cache.drop]
    by_cases hp : p k = true
    · simp only [hp, if_true, spare, Bool.and_false, Bool.toNat_false]
      omega
    · simp [hp]
  | hit j =>
    simp only [Event.hits, Event.passes, Event.after, Event.drops, Bool.false_eq_true, if_false]
    by_cases hj : j = k
    · subst hj
      cases hfind : c.find j t with
      | none =>
        -- a new window begins, which reaches beyond the one that is counted in
        have hspare : max 1 (limit j) ≤ spare window (limit j) start (c j) := by
          cases hc : c j with
          | none => exact Nat.le_refl _
          | some e =>
            have hexpired : ¬ t < e.expires := fun hlive => by
              have hfound := Cache.find_eq_some.mpr ⟨hc, hlive⟩
              rw [hfind] at hfound
              cases hfound
            have hearly : e.expires < start + window := by omega
            simp only [spare, hearly, if_true]
            omega
        have hlate : ¬ t + window < start + window := by omega
        simp only [Cache.hit_of_none hfind, Function.update_self, decide_true, Bool.and_self, Bool.toNat_true]
        have hnew : spare window (limit j) start (some ⟨1, t + window⟩) = max 1
          (limit j) - 1 := by simp [spare, hlate]
        omega
      | some e =>
        simp only [Cache.hit_of_some hfind, (Cache.find_eq_some.mp hfind).1,
          Function.update_self, spare, decide_true,
          Bool.and_true]
        by_cases hpasses : e.count + 1 ≤ limit j
        · simp only [hpasses, decide_true, Bool.toNat_true]
          omega
        · simp only [hpasses, decide_false, Bool.toNat_false]
          omega
    · simp [Cache.hit_other (Ne.symm hj), hj]

/-- The hits on a key that are let through in a window. -/
def passedWithin (window : Nat) (limit : κ → Nat) (c : Cache κ) (k : κ) (start : Nat) (es : List (Event κ)) :
    Nat :=
  (passed window limit c es).countP fun e => e.hits k && e.within window start

/-- How often what is cached for a key is dropped in a window. -/
def dropsWithin (window : Nat) (k : κ) (start : Nat) (es : List (Event κ)) : Nat :=
  es.countP fun e => e.drops k && e.within window start

theorem passedWithin_cons : passedWithin window limit c k start (e :: es) =
    (e.passes window limit c && (e.hits k && e.within window start)).toNat
      + passedWithin window limit (e.after window limit c) k start es := by
  simp only [passedWithin, passed, List.countP_append]
  cases hp : e.passes window limit c with
  | false => simp
  | true => cases hk : e.hits k && e.within window start <;> simp [hk]

theorem passedWithin_over (horder : InOrder (e :: es)) (hend : start + window ≤ e.time) :
    passedWithin window limit c k start (e :: es) = 0 := by
  rw [passedWithin, List.countP_eq_zero]
  intro f hf
  have hle : e.time ≤ f.time := by
    rcases List.mem_cons.mp (mem_of_passed hf) with rfl | hf
    · exact Nat.le_refl _
    · exact horder.le hf
  simp only [Event.within, Bool.and_eq_true, decide_eq_true_eq, not_and]
  intro _ _
  omega

theorem passedWithin_spare (window : Nat) (limit : κ → Nat) (c : Cache κ) (k : κ) (horder : InOrder es)
    (hstart : ∀ e ∈ es, start ≤ e.time) :
    passedWithin window limit c k start es
      ≤ spare window (limit k) start (c k) + dropsWithin window k start es * max 1 (limit k) := by
  induction es generalizing c with
  | nil => simp [passedWithin, passed]
  | cons e es ih =>
    by_cases hend : e.time < start + window
    · have hstart' : start ≤ e.time := hstart e (by simp)
      have hin : e.within window start = true := by simp [Event.within, hstart', hend]
      have hrest := ih (c := e.after window limit c) horder.tail fun f hf => hstart f (List.mem_cons_of_mem e hf)
      have hone := spare_hit limit c k hstart' hend
      rw [passedWithin_cons, dropsWithin, List.countP_cons, hin]
      simp only [Bool.and_true]
      simp only [dropsWithin] at hrest
      rw [Nat.add_mul]
      by_cases hdrops : e.drops k = true
      · simp only [hdrops, if_true, Nat.one_mul] at hone ⊢
        omega
      · simp only [hdrops, Bool.false_eq_true, if_false, Nat.zero_mul] at hone ⊢
        omega
    · rw [passedWithin_over horder (by omega)]
      exact Nat.zero_le _

def Started (c : Cache κ) : Prop := ∀ k e, c k = some e → 1 ≤ e.count

theorem Started.after (h : Started c) : Started (e.after window limit c) := by
  obtain ⟨t, act⟩ := e
  intro k x hx
  cases act with
  | drop p =>
    simp only [Event.after, Cache.drop] at hx
    by_cases hp : p k = true
    · simp [hp] at hx
    · simp only [hp] at hx
      exact h k x hx
  | hit j =>
    simp only [Event.after] at hx
    by_cases hj : k = j
    · subst hj
      cases hfind : c.find k t with
      | none =>
        simp only [Cache.hit_of_none hfind, Function.update_self] at hx
        cases hx
        exact Nat.le_refl _
      | some y =>
        simp only [Cache.hit_of_some hfind, Function.update_self] at hx
        cases hx
        exact Nat.le_add_left _ _
    · rw [Cache.hit_other hj] at hx
      exact h k x hx

/-- However the hits on a key fall, fewer than twice the limit are let through in any window, and the limit
once more for each time that the cache drops the counter. -/
theorem passedWithin_le (horder : InOrder es) (hstarted : Started c) :
    passedWithin window limit c k start es ≤ 2 * max 1 (limit k) - 1 + dropsWithin window k start
    es * max 1 (limit k) := by
  induction es generalizing c with
  | nil => simp [passedWithin, passed]
  | cons e es ih =>
    by_cases hstart : start ≤ e.time
    · have hall : ∀ f ∈ e :: es, start ≤ f.time := by
        intro f hf
        rcases List.mem_cons.mp hf with rfl | hf
        · exact hstart
        · exact Nat.le_trans hstart (horder.le hf)
      have hle := passedWithin_spare window limit c k horder hall
      have hspare : spare window (limit k) start (c k) ≤ 2 * max 1 (limit k) - 1 := spare_le _ _ (hstarted k)
      omega
    · have hout : e.within window start = false := by simp [Event.within, hstart]
      have hrest := ih (c := e.after window limit c) horder.tail hstarted.after
      rw [passedWithin_cons, dropsWithin, List.countP_cons, hout]
      simpa [dropsWithin] using hrest

/-! ## Who is turned away -/

/-- A counter counts hits since its window began. -/
def Counts (window now : Nat) (c : Cache κ) (es : List (Event κ)) : Prop :=
  ∀ k e, c k = some e → e.expires ≤ now + window
    ∧ e.count ≤ es.countP fun f => f.hits k && decide (e.expires ≤ f.time + window)

theorem Counts.later {now later : Nat} (h : Counts window now c es) (hle : now ≤ later) :
    Counts window later c es := by
  intro k e hc
  obtain ⟨hexpires, hcount⟩ := h k e hc
  exact ⟨by omega, hcount⟩

theorem Counts.snoc {now : Nat} (h : Counts window now c es) (hle : now ≤ e.time) :
    Counts window e.time (e.after window limit c) (es ++ [e]) := by
  intro k x hx
  have hkept : ∀ y, c k = some y → y.expires ≤ e.time + window
      ∧ y.count ≤ (es ++ [e]).countP fun f => f.hits k && decide (y.expires ≤ f.time + window) := by
    intro y hy
    obtain ⟨hexpires, hcount⟩ := h.later hle k y hy
    rw [List.countP_append]
    exact ⟨hexpires, by omega⟩
  obtain ⟨t, act⟩ := e
  cases act with
  | drop p =>
    simp only [Event.after, Cache.drop] at hx
    by_cases hp : p k = true
    · simp [hp] at hx
    · simp only [hp] at hx
      exact hkept x hx
  | hit j =>
    simp only [Event.after] at hx
    by_cases hj : j = k
    · subst hj
      cases hfind : c.find j t with
      | none =>
        simp only [Cache.hit_of_none hfind, Function.update_self] at hx
        cases hx
        refine ⟨Nat.le_refl _, ?_⟩
        rw [List.countP_append]
        simp [Event.hits]
      | some y =>
        simp only [Cache.hit_of_some hfind, Function.update_self] at hx
        cases hx
        obtain ⟨hexpires, hcount⟩ := h.later hle j y (Cache.find_eq_some.mp hfind).1
        refine ⟨hexpires, ?_⟩
        rw [List.countP_append]
        simpa [Event.hits, hexpires] using hcount
    · rw [Cache.hit_other (Ne.symm hj)] at hx
      exact hkept x hx

theorem counts_of_run (horder : InOrder es) {now : Nat} (hnow : ∀ e ∈ es, e.time ≤ now) :
    Counts window now (state window limit (fun _ => none) es) es := by
  induction es using List.reverseRecOn generalizing now with
  | nil =>
    intro k e h
    cases h
  | append_singleton es e ih =>
    have hbefore := ih horder.front fun f hf => horder.le_last hf
    rw [state, List.foldl_append]
    exact (hbefore.snoc (Nat.le_refl _)).later (hnow e (by simp))

/-- Whoever is turned away has had as many hits as the limit says in the window that ends there. -/
theorem limit_le_of_refused (window : Nat) (limit : κ → Nat) (horder : InOrder (es ++ [e]))
    (hhit : e.hits k = true)
    (hrefused : e.passes window limit (state window limit (fun _ => none) es) = false) :
    limit k ≤ es.countP fun f => f.hits k && decide (f.time ≤ e.time ∧ e.time < f.time + window) := by
  have hcounts : Counts window e.time (state window limit (fun _ => none) es) es :=
    counts_of_run horder.front fun f hf => horder.le_last hf
  have hle : ∀ f ∈ es, f.time ≤ e.time := fun f hf => horder.le_last hf
  obtain ⟨t, act⟩ := e
  cases act with
  | drop p => simp [Event.hits] at hhit
  | hit j =>
    obtain rfl : j = k := by simpa [Event.hits] using hhit
    simp only [Event.passes] at hrefused
    generalize state window limit (fun _ => none) es = c at hcounts hrefused
    cases hfind : c.find j t with
    | none =>
      rw [Cache.hit_of_none hfind] at hrefused
      cases hrefused
    | some x =>
      rw [Cache.hit_of_some hfind, decide_eq_false_iff_not] at hrefused
      obtain ⟨hc, hlive⟩ := Cache.find_eq_some.mp hfind
      obtain ⟨-, hcount⟩ := hcounts j x hc
      refine Nat.le_trans (by omega) (Nat.le_trans hcount (List.countP_mono_left ?_))
      intro f hf hmine
      simp only [Bool.and_eq_true, decide_eq_true_eq] at hmine ⊢
      exact ⟨hmine.1, hle f hf, by omega⟩

end Windows
