import Mathlib.Data.List.Perm.Subperm
import Mathlib.Data.List.Nodup
import Lok.Checks
import Lok.Text

/-!
# Slugs

An organization's slug is its handle in lok's addresses: words of lowercase letters and digits, with single
hyphens between them. One module of the source says how a slug is derived from a name, what is accepted as
one, and what is offered instead of one that is taken.
-/

namespace Lok.Slugs

open Checks Text

def isSlugChar (c : Char) : Bool := c.isLower || c.isDigit

/-- `[a-z0-9]+(?:-[a-z0-9]+)*`, from within a word or from where one has to begin. -/
def slugFrom : Bool → List Char → Bool
  | within, [] => within
  | within, c :: s => if isSlugChar c then slugFrom true s else c == '-' && within && slugFrom false s

def isSlug (s : List Char) : Bool := slugFrom false s

def validateSlug (slug : List Char) : Except String Unit := do
  require (!slug.isEmpty) "A slug is required — please provide a name or handle with at least one letter or number."
  require (matchesLine isSlug slug)
    "Handle must be lowercase letters, numbers and single hyphens only (e.g. 'my-organization')."

/-- `[^a-z0-9]+` to a hyphen; `gap` while within such a run. -/
def collapse : Bool → List Char → List Char
  | _, [] => []
  | gap, c :: s =>
    if isSlugChar c then c :: collapse false s else if gap then collapse true s else '-' :: collapse true s

def isHyphen (c : Char) : Bool := c == '-'

section

variable (casing : Casing)

def slugifyName (name : List Char) : List Char :=
  ((collapse false (casing.lower name)).dropWhile isHyphen).rdropWhile isHyphen

def normalizeSlug (raw : List Char) : List Char := slugifyName casing raw

end

/-! ## What is taken -/

/-- How the database tells strings apart when it is to ignore case: digits and hyphens have none. -/
structure Folding where
  fold : List Char → List Char
  fold_append : ∀ s t, (∀ c ∈ t, c.isDigit = true ∨ c = '-') → fold (s ++ t) = fold s ++ t

def isSlugTaken (folding : Folding) (held : List (List Char)) (slug : List Char) : Bool :=
  held.any fun h => folding.fold h == folding.fold slug

def suggestionPrefixes : List (List Char) := ["the-real-".toList, "the-actual-".toList, "the-one-true-".toList]

def numbered (slug : List Char) (counter : Nat) : List Char := slug ++ '-' :: Nat.toDigits 10 counter

def countUp (taken : List Char → Bool) (slug : List Char) : Nat → Nat → Option (List Char)
  | 0, _ => none
  | fuel + 1, counter =>
    if taken (numbered slug counter) then countUp taken slug fuel (counter + 1) else some (numbered slug counter)

def suggestSlug (taken : List Char → Bool) (fuel : Nat) (slug : List Char) : Option (List Char) :=
  match suggestionPrefixes.find? fun p => !taken (p ++ slug) with
  | some p => some (p ++ slug)
  | none => countUp taken slug fuel 2

variable {casing : Casing} {folding : Folding} {held : List (List Char)} {taken : List Char → Bool}
  {s t slug : List Char}
  {within gap : Bool}

/-! ## The form of a slug -/

theorem isSlugChar_toNat {c : Char} (h : isSlugChar c = true) :
    97 ≤ c.toNat ∧ c.toNat ≤ 122 ∨ 48 ≤ c.toNat ∧ c.toNat ≤ 57 := by
  rw [isSlugChar, Bool.or_eq_true] at h
  exact h.imp toNat_of_isLower toNat_of_isDigit

theorem isSlugChar_hyphen : isSlugChar '-' = false := by decide

theorem slugFrom_hyphen : slugFrom within (s ++ '-' :: t) = (slugFrom within s && slugFrom false t) := by
  induction s generalizing within with
  | nil => simp [slugFrom, isSlugChar_hyphen]
  | cons c s ih =>
    rw [List.cons_append, slugFrom, slugFrom]
    split
    · exact ih
    · simp only [ih, Bool.and_assoc]

theorem slugFrom_of_hyphen (h : slugFrom false ('-' :: s) = true) : False := by
  rw [slugFrom, if_neg (by decide)] at h
  simp at h

theorem slugFrom_chars (h : s.all isSlugChar = true) : slugFrom within s = (within || !s.isEmpty) := by
  induction s generalizing within with
  | nil => simp [slugFrom]
  | cons c s ih =>
    rw [List.all_cons, Bool.and_eq_true] at h
    rw [slugFrom, if_pos h.1, ih h.2]
    simp

theorem slugFrom_mem (h : slugFrom within s = true) {c : Char} (hc : c ∈ s) : isSlugChar c = true ∨ c = '-' := by
  induction s generalizing within with
  | nil => cases hc
  | cons d s ih =>
    rw [slugFrom] at h
    split at h
    · rename_i hd
      rcases List.mem_cons.mp hc with rfl | hc
      · exact .inl hd
      · exact ih h hc
    · simp only [Bool.and_eq_true, beq_iff_eq] at h
      rcases List.mem_cons.mp hc with rfl | hc
      · exact .inr h.1.1
      · exact ih h.2 hc

theorem accepted_iff : validateSlug s = .ok () ↔ isSlug s = true ∨ ∃ t, isSlug t = true ∧ s = t ++ ['\n'] := by
  have hempty : matchesLine isSlug [] = false := by decide
  simp only [validateSlug, bind_ok, require_ok, exists_unit]
  rw [← matchesLine_iff]
  constructor
  · exact And.right
  · intro h
    refine ⟨?_, h⟩
    cases s with
    | nil => rw [hempty] at h; cases h
    | cons => rfl

theorem accepted_of_isSlug (h : isSlug s = true) : validateSlug s = .ok () := accepted_iff.mpr (.inl h)

theorem newline_not_slug (h : slugFrom within (s ++ ['\n']) = true) : False := by
  rcases slugFrom_mem h (c := '\n') (by simp) with hc | hc
  · revert hc
    decide
  · cases hc

/-! ## What is derived from a name -/

/-- What an unfinished slug looks like: hyphens may begin and end it, but never two in a row. -/
def loose : Bool → List Char → Bool
  | _, [] => true
  | gap, c :: s => if isSlugChar c then loose false s else c == '-' && !gap && loose true s

theorem loose_collapse : loose gap (collapse gap s) = true := by
  induction s generalizing gap with
  | nil => rfl
  | cons c s ih =>
    rw [collapse]
    split
    · rename_i hc
      rw [loose, if_pos hc]
      exact ih
    · split
      · rename_i hgap
        rw [hgap]
        exact ih
      · rename_i hgap
        simp [loose, isSlugChar_hyphen, hgap, ih]

theorem collapse_of_loose (h : loose gap s = true) : collapse gap s = s := by
  induction s generalizing gap with
  | nil => rfl
  | cons c s ih =>
    rw [loose] at h
    rw [collapse]
    split at h
    · rw [if_pos ‹_›, ih h]
    · simp only [Bool.and_eq_true, beq_iff_eq, Bool.not_eq_true'] at h
      obtain ⟨⟨rfl, hgap⟩, h⟩ := h
      rw [if_neg ‹_›, if_neg (by simp [hgap]), ih h]

theorem loose_of_slugFrom (h : slugFrom within s = true) : loose (!within) s = true := by
  induction s generalizing within with
  | nil => rfl
  | cons c s ih =>
    rw [slugFrom] at h
    rw [loose]
    split at h
    · rw [if_pos ‹_›]
      exact ih h
    · simp only [Bool.and_eq_true, beq_iff_eq] at h
      obtain ⟨⟨rfl, rfl⟩, h⟩ := h
      rw [if_neg ‹_›]
      exact ih h

theorem loose_of_tight (h : loose true s = true) : loose false s = true := by
  cases s with
  | nil => rfl
  | cons c s =>
    rw [loose] at h ⊢
    split at h
    · rw [if_pos ‹_›]
      exact h
    · simp at h

theorem loose_tail (h : loose gap s = true) : loose false (s.dropWhile isHyphen) = true := by
  induction s generalizing gap with
  | nil => rfl
  | cons c s ih =>
    have h' := h
    rw [loose] at h
    rw [List.dropWhile_cons]
    split
    · split at h
      · exact ih h
      · exact ih (Bool.and_eq_true _ _ ▸ h).2
    · rename_i hc
      rw [loose]
      split at h
      · rw [if_pos ‹_›]
        exact h
      · simp only [Bool.and_eq_true] at h
        exact absurd h.1.1 hc

theorem loose_append (h : loose gap (s ++ t) = true) : loose gap s = true := by
  induction s generalizing gap with
  | nil => rfl
  | cons c s ih =>
    rw [List.cons_append, loose] at h
    rw [loose]
    split at h
    · rw [if_pos ‹_›]
      exact ih h
    · simp only [Bool.and_eq_true] at h ⊢
      rw [if_neg ‹_›]
      simp only [Bool.and_eq_true]
      exact ⟨h.1, ih h.2⟩

theorem slugFrom_of_loose (h : loose gap s = true) (hne : s = [] → gap = false) (hlast : s.getLast? ≠ some '-') :
    slugFrom (!gap) s = true := by
  induction s generalizing gap with
  | nil => simp [slugFrom, hne rfl]
  | cons c s ih =>
    have hlast' : s.getLast? ≠ some '-' := by
      cases s with
      | nil => simp
      | cons => simpa using hlast
    rw [loose] at h
    rw [slugFrom]
    split at h
    · rw [if_pos ‹_›]
      exact ih h (fun _ => rfl) hlast'
    · rw [if_neg ‹_›]
      simp only [Bool.and_eq_true] at h ⊢
      refine ⟨h.1, ih h.2 (fun hnil => ?_) hlast'⟩
      rw [hnil, beq_iff_eq.mp h.1.1] at hlast
      exact absurd rfl hlast

theorem loose_of_head {c : Char} (h : loose gap (c :: s) = true) (hc : c ≠ '-') : loose true (c :: s) = true := by
  rw [loose] at h ⊢
  split at h
  · rw [if_pos ‹_›]
    exact h
  · simp only [Bool.and_eq_true, beq_iff_eq] at h
    exact absurd h.1.1 hc

theorem slugifyName_isSlug (casing : Casing) (name : List Char) :
    slugifyName casing name = [] ∨ isSlug (slugifyName casing name) = true := by
  set s := (collapse false (casing.lower name)).dropWhile isHyphen with hs
  show s.rdropWhile isHyphen = [] ∨ isSlug (s.rdropWhile isHyphen) = true
  cases hw : s.rdropWhile isHyphen with
  | nil => exact .inl rfl
  | cons c rest =>
    right
    obtain ⟨u, hu⟩ := List.rdropWhile_prefix isHyphen s
    rw [hw] at hu
    have hloose : loose false (c :: rest) = true := by
      apply loose_append (t := u)
      rw [hu, hs]
      exact loose_tail loose_collapse
    have hfirst : c ≠ '-' := by
      have hnot := List.head?_dropWhile_not isHyphen (collapse false (casing.lower name))
      rw [← hs, ← hu] at hnot
      simpa [isHyphen] using hnot
    have hlast : (c :: rest).getLast? ≠ some '-' := by
      have hnot := List.rdropWhile_last_not isHyphen s (by simp [hw])
      intro heq
      rw [List.getLast?_eq_some_getLast (by simp)] at heq
      simp only [hw, isHyphen, Option.some.inj heq] at hnot
      exact hnot rfl
    exact slugFrom_of_loose (loose_of_head hloose hfirst) (fun hnil => by cases hnil) hlast

theorem toNat_of_isSlug (h : isSlug s = true) {c : Char} (hc : c ∈ s) :
    97 ≤ c.toNat ∧ c.toNat ≤ 122 ∨ 48 ≤ c.toNat ∧ c.toNat ≤ 57 ∨ c.toNat = 45 := by
  rcases slugFrom_mem h hc with hc | rfl
  · rcases isSlugChar_toNat hc with hc | hc
    · exact .inl hc
    · exact .inr (.inl hc)
  · exact .inr (.inr rfl)

theorem lower_of_isSlug (h : isSlug s = true) : casing.lower s = s := by
  have hascii : s.all isAscii = true := by
    refine List.all_eq_true.mpr fun c hc => ?_
    have hn := toNat_of_isSlug h hc
    simp only [isAscii, decide_eq_true_eq]
    omega
  rw [casing.lower_ascii s hascii]
  calc s.map Char.toLower = s.map id := List.map_congr_left fun c hc => ?_
    _ = s := List.map_id s
  have hn := toNat_of_isSlug h hc
  refine dif_neg fun hupper => ?_
  have hge : 65 ≤ c.toNat := hupper.1
  have hle : c.toNat ≤ 90 := hupper.2
  omega

theorem slugifyName_of_isSlug (h : isSlug s = true) : slugifyName casing s = s := by
  have hcollapsed : collapse false s = s := collapse_of_loose (loose_of_tight (loose_of_slugFrom h))
  have hfirst : s.dropWhile isHyphen = s := by
    cases s with
    | nil => rfl
    | cons c s => exact List.dropWhile_cons_of_neg fun hc => slugFrom_of_hyphen (beq_iff_eq.mp hc ▸ h)
  have hlast : s.rdropWhile isHyphen = s := by
    refine List.rdropWhile_eq_self_iff.mpr fun hne hc => ?_
    have heq : s.dropLast ++ ['-'] = s := by
      rw [← beq_iff_eq.mp hc]
      exact List.dropLast_append_getLast hne
    rw [← heq, isSlug, slugFrom_hyphen, slugFrom, Bool.and_false] at h
    cases h
  rw [slugifyName, lower_of_isSlug h, hcollapsed, hfirst, hlast]

theorem slugifyName_slugifyName (name : List Char) :
    slugifyName casing (slugifyName casing name) = slugifyName casing name := by
  rcases slugifyName_isSlug casing name with hnil | hslug
  · rw [hnil, slugifyName, casing.lower_ascii [] rfl]
    rfl
  · exact slugifyName_of_isSlug hslug

/-! ## What is offered instead -/

theorem toDigits_slugChars (n : Nat) : (Nat.toDigits 10 n).all isSlugChar = true := by
  refine List.all_eq_true.mpr fun c hc => ?_
  rw [isSlugChar, Nat.isDigit_of_mem_toDigits (by decide) (by decide) hc, Bool.or_true]

theorem isSlug_hyphen (h : t.all isSlugChar = true) (hne : t ≠ []) : isSlug (s ++ '-' :: t) = isSlug s := by
  rw [isSlug, slugFrom_hyphen, slugFrom_chars h, isSlug]
  simp [hne]

theorem accepted_hyphen (h : t.all isSlugChar = true) (hne : t ≠ []) :
    validateSlug (s ++ '-' :: t) = .ok () ↔ isSlug s = true := by
  rw [accepted_iff, isSlug_hyphen h hne]
  constructor
  · intro haccepted
    rcases haccepted with hslug | ⟨u, -, hu⟩
    · exact hslug
    · have hlast := congrArg List.getLast? hu
      rw [List.getLast?_append_of_ne_nil _ (by simp), List.getLast?_cons_of_ne_nil hne,
        List.getLast?_concat] at hlast
      have hword := List.all_eq_true.mp h _ (List.mem_of_getLast? hlast)
      cases hword
  · exact .inl

theorem isSlug_numbered {n : Nat} : isSlug (numbered slug n) = isSlug slug :=
  isSlug_hyphen (toDigits_slugChars n) Nat.toDigits_ne_nil

theorem accepted_numbered {n : Nat} : validateSlug (numbered slug n) = .ok () ↔ isSlug slug = true :=
  accepted_hyphen (toDigits_slugChars n) Nat.toDigits_ne_nil

theorem isSlug_prefixed {p : List Char} (hp : p ∈ suggestionPrefixes) (h : isSlug slug = true) :
    isSlug (p ++ slug) = true := by
  have hword : ∃ w, isSlug w = true ∧ p = w ++ ['-'] := by
    simp only [suggestionPrefixes, List.mem_cons, List.not_mem_nil, or_false] at hp
    rcases hp with rfl | rfl | rfl
    · exact ⟨"the-real".toList, by decide, rfl⟩
    · exact ⟨"the-actual".toList, by decide, rfl⟩
    · exact ⟨"the-one-true".toList, by decide, rfl⟩
  obtain ⟨w, hw, rfl⟩ := hword
  rw [List.append_assoc, List.singleton_append, isSlug, slugFrom_hyphen, Bool.and_eq_true]
  exact ⟨hw, h⟩

theorem accepted_prefixed {p : List Char} (hp : p ∈ suggestionPrefixes) (h : validateSlug slug = .ok ()) :
    validateSlug (p ++ slug) = .ok () := by
  rcases accepted_iff.mp h with h | ⟨t, ht, rfl⟩
  · exact accepted_iff.mpr (.inl (isSlug_prefixed hp h))
  · exact accepted_iff.mpr (.inr ⟨p ++ t, isSlug_prefixed hp ht, (List.append_assoc p t _).symm⟩)

theorem fold_numbered (n : Nat) :
    folding.fold (numbered slug n) = folding.fold slug ++ '-' :: Nat.toDigits 10 n := by
  refine folding.fold_append slug _ fun c hc => ?_
  rcases List.mem_cons.mp hc with rfl | hc
  · exact .inr rfl
  · exact .inl (Nat.isDigit_of_mem_toDigits (by decide) (by decide) hc)

theorem fold_numbered_inj {m n : Nat} (h : folding.fold (numbered slug m) = folding.fold (numbered slug n)) :
    m = n := by
  rw [fold_numbered, fold_numbered, List.append_cancel_left_eq, List.cons.injEq] at h
  calc m = Nat.ofDigitChars 10 (Nat.toDigits 10 m) 0 := Nat.ofDigitChars_ten_toDigits.symm
    _ = Nat.ofDigitChars 10 (Nat.toDigits 10 n) 0 := by rw [h.2]
    _ = n := Nat.ofDigitChars_ten_toDigits

theorem numbers_le {l : List (List Char)} {counter : Nat}
    (h : ∀ n, 2 ≤ n → n < counter → folding.fold (numbered slug n) ∈ l) : counter ≤ l.length + 2 := by
  have hnodup : ((List.range' 2 (counter - 2)).map fun n => folding.fold (numbered slug n)).Nodup :=
    List.Nodup.map (fun _ _ heq => fold_numbered_inj heq) List.nodup_range'
  have hsub : ((List.range' 2 (counter - 2)).map fun n => folding.fold (numbered slug n)) ⊆ l := by
    intro x hx
    obtain ⟨n, hn, rfl⟩ := List.mem_map.mp hx
    rw [List.mem_range'_1] at hn
    exact h n hn.1 (by omega)
  have hlength := (hnodup.subperm hsub).length_le
  rw [List.length_map, List.length_range'] at hlength
  omega

theorem isSlugTaken_iff : isSlugTaken folding held slug = true ↔ folding.fold slug ∈ held.map folding.fold := by
  simp only [isSlugTaken, List.any_eq_true, beq_iff_eq, List.mem_map]

theorem countUp_some : ∀ {fuel counter : Nat}, countUp taken slug fuel counter = some s →
    ∃ n, s = numbered slug n ∧ taken s = false
  | fuel + 1, counter, h => by
    rw [countUp] at h
    split at h
    · exact countUp_some h
    · rename_i hfree
      cases h
      exact ⟨counter, rfl, by simpa using hfree⟩

theorem counter_le {counter : Nat}
    (h : ∀ n, 2 ≤ n → n < counter → isSlugTaken folding held (numbered slug n) = true) :
    counter ≤ held.length + 2 := by
  have hcount := numbers_le fun n hn hlt => isSlugTaken_iff.mp (h n hn hlt)
  rwa [List.length_map] at hcount

theorem countUp_ends {counter : Nat}
    (h : ∀ n, 2 ≤ n → n < counter → isSlugTaken folding held (numbered slug n) = true) :
    ∃ s, ∀ fuel, held.length + 2 < fuel + counter →
    countUp (isSlugTaken folding held) slug fuel counter = some s := by
  have hle := counter_le h
  by_cases htaken : isSlugTaken folding held (numbered slug counter) = true
  · have hnext : ∀ n, 2 ≤ n → n < counter + 1 → isSlugTaken folding held (numbered slug n) = true := by
      intro n hn hlt
      rcases Nat.lt_succ_iff_lt_or_eq.mp hlt with hlt | rfl
      · exact h n hn hlt
      · exact htaken
    have hnextLe := counter_le hnext
    obtain ⟨s, hs⟩ := countUp_ends hnext
    refine ⟨s, fun fuel hfuel => ?_⟩
    cases fuel with
    | zero => omega
    | succ fuel =>
      rw [countUp, if_pos htaken]
      exact hs fuel (by omega)
  · refine ⟨numbered slug counter, fun fuel hfuel => ?_⟩
    cases fuel with
    | zero => omega
    | succ fuel => rw [countUp, if_neg htaken]
  termination_by held.length + 2 - counter

/-- One of the prefixes, as long as one is free; else a number. -/
inductive Suggests (taken : List Char → Bool) (slug : List Char) : List Char → Prop
  | prefixed {p : List Char} (hp : p ∈ suggestionPrefixes) (hfree : taken (p ++ slug) = false) :
    Suggests taken slug (p ++ slug)
  | numbered {n : Nat} (hall : ∀ p ∈ suggestionPrefixes, taken (p ++ slug) = true)
    (hfree : taken (numbered slug n) = false) :
      Suggests taken slug (numbered slug n)

theorem Suggests.free (h : Suggests taken slug s) : taken s = false := by
  cases h with
  | prefixed _ hfree => exact hfree
  | numbered _ hfree => exact hfree

theorem suggestSlug_some {fuel : Nat} (h : suggestSlug taken fuel slug = some s) : Suggests taken slug s := by
  unfold suggestSlug at h
  split at h
  · rename_i p hfind
    cases h
    have hfree := List.find?_some hfind
    exact .prefixed (List.mem_of_find?_eq_some hfind) (by simpa using hfree)
  · rename_i hnone
    obtain ⟨n, rfl, hfree⟩ := countUp_some h
    exact .numbered (fun p hp => by simpa using List.find?_eq_none.mp hnone p hp) hfree

theorem suggestSlug_ends (folding : Folding) (held : List (List Char)) (slug : List Char) :
    ∃ s, Suggests (isSlugTaken folding held) slug s
    ∧ ∀ fuel, held.length < fuel → suggestSlug (isSlugTaken folding held) fuel slug = some s := by
  have hsome : ∃ s, ∀ fuel, held.length < fuel → suggestSlug (isSlugTaken folding held) fuel slug = some s := by
    cases hfind : suggestionPrefixes.find? fun p => !isSlugTaken folding held (p ++ slug) with
    | some p => exact ⟨p ++ slug, fun fuel _ => by rw [suggestSlug, hfind]⟩
    | none =>
      have hnone : ∀ n, 2 ≤ n → n < 2 → isSlugTaken folding held (numbered slug n) = true :=
        fun n hn hlt => by omega
      obtain ⟨s, hs⟩ := countUp_ends hnone
      exact ⟨s, fun fuel hfuel => by rw [suggestSlug, hfind]; exact hs fuel (by omega)⟩
  obtain ⟨s, hs⟩ := hsome
  exact ⟨s, suggestSlug_some (hs (held.length + 1) (Nat.lt_succ_self _)), hs⟩

/-- Of an accepted slug, what is offered is accepted too, unless a number follows the newline that is let
through. -/
theorem Suggests.accepted_iff (h : Suggests taken slug s) (hslug : validateSlug slug = .ok ()) :
    validateSlug s = .ok () ↔ isSlug slug = true ∨ ∃ p ∈ suggestionPrefixes, taken (p ++ slug) = false := by
  cases h with
  | prefixed hp hfree => exact ⟨fun _ => .inr ⟨_, hp, hfree⟩, fun _ => accepted_prefixed hp hslug⟩
  | numbered hall hfree =>
    rw [accepted_numbered]
    constructor
    · exact .inl
    · intro h
      rcases h with h | ⟨p, hp, hfree⟩
      · exact h
      · rw [hall p hp] at hfree
        cases hfree

/-- A database that knows no letters but the ASCII ones. -/
def asciiFolding : Folding where
  fold s := s.map Char.toUpper
  fold_append s t ht := by
    rw [List.map_append]
    refine congrArg _ ?_
    calc t.map Char.toUpper = t.map id := List.map_congr_left fun c hc => ?_
      _ = t := List.map_id t
    refine dif_neg fun hlower => ?_
    have hge : 97 ≤ c.toNat := hlower.1
    rcases ht c hc with hdigit | rfl
    · simp only [Char.isDigit, Bool.and_eq_true, decide_eq_true_eq] at hdigit
      have hle : c.toNat ≤ 57 := hdigit.2
      omega
    · revert hge
      decide

end Lok.Slugs
