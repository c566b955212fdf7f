import Mathlib.Data.List.DropRight

/-!
# Strings

A string is the list of its characters. Trimming and taking a suffix off are the same for every script;
changing case is not, and of it only what happens to ASCII is fixed here.
-/

namespace Text

/-- `str.isspace`, of one character. -/
def isSpace (c : Char) : Bool :=
  let n := c.toNat
  9 ≤ n && n ≤ 13 || 28 ≤ n && n ≤ 32 || n == 0x85 || n == 0xa0 || n == 0x1680 || 0x2000 ≤ n && n ≤ 0x200a
    || n == 0x2028 || n == 0x2029 || n == 0x202f || n == 0x205f || n == 0x3000

def isAscii (c : Char) : Bool := c.toNat < 128

def strip (s : List Char) : List Char := (s.dropWhile isSpace).rdropWhile isSpace

def removeSuffix (suffix s : List Char) : List Char :=
  if suffix.isSuffixOf s then s.take (s.length - suffix.length) else s

/-- `re.match` of a pattern that ends in `$`: it matches to the end, or to a newline there. -/
def matchesLine (p : List Char → Bool) (s : List Char) : Bool := p s || s.getLast? == some '\n' && p s.dropLast

/-- Changing the case of a string, of which the script decides more than is needed here. -/
structure Casing where
  lower : List Char → List Char
  capitalize : List Char → List Char
  lower_ascii : ∀ s, s.all isAscii = true → lower s = s.map Char.toLower
  capitalize_ascii : ∀ c s, (c :: s).all isAscii = true → capitalize (c :: s) = c.toUpper :: s.map Char.toLower

variable {s t : List Char} {c : Char}

/-! ## ASCII -/

theorem toNat_of_isUpper (h : c.isUpper = true) : 65 ≤ c.toNat ∧ c.toNat ≤ 90 := by
  have hbounds : decide (c.val ≥ 65 ∧ c.val ≤ 90) = true := h
  rw [decide_eq_true_eq] at hbounds
  exact hbounds

theorem toNat_of_isLower (h : c.isLower = true) : 97 ≤ c.toNat ∧ c.toNat ≤ 122 := by
  have hbounds : (decide (c.val ≥ 97) && decide (c.val ≤ 122)) = true := h
  rw [Bool.and_eq_true, decide_eq_true_eq, decide_eq_true_eq] at hbounds
  exact hbounds

theorem toNat_of_isDigit (h : c.isDigit = true) : 48 ≤ c.toNat ∧ c.toNat ≤ 57 := Char.isDigit_iff_toNat.mp h

/-! ## Trimming -/

theorem strip_eq_self (hfirst : ∀ c ∈ s.head?, isSpace c = false) (hlast : ∀ c ∈ s.getLast?, isSpace c = false) :
    strip s = s := by
  have hleft : s.dropWhile isSpace = s := by
    cases s with
    | nil => rfl
    | cons c s => simp [hfirst c rfl]
  rw [strip, hleft, List.rdropWhile_eq_self_iff]
  intro hne
  simp [hlast _ (List.getLast?_eq_some_getLast hne)]

theorem strip_of_clean (h : ∀ c ∈ s, isSpace c = false) : strip s = s :=
  strip_eq_self (fun c hc => h c (List.mem_of_mem_head? hc)) fun c hc => h c (List.mem_of_getLast? hc)

theorem strip_getLast {c : Char} (h : (strip s).getLast? = some c) : isSpace c = false := by
  have hne : strip s ≠ [] := by
    intro hnil
    rw [hnil] at h
    cases h
  have hlast := List.rdropWhile_last_not isSpace (s.dropWhile isSpace) hne
  rw [List.getLast?_eq_some_getLast hne] at h
  cases h
  exact Bool.eq_false_iff.mpr hlast

theorem strip_head {c : Char} (h : (strip s).head? = some c) : isSpace c = false := by
  obtain ⟨u, hu⟩ := List.rdropWhile_prefix isSpace (s.dropWhile isSpace)
  have hhead : (s.dropWhile isSpace).head? = some c := by
    rw [← hu, List.head?_append]
    show (strip s).head?.or _ = _
    rw [h]
    rfl
  have hnot := List.head?_dropWhile_not isSpace s
  rw [hhead] at hnot
  exact hnot

theorem strip_strip : strip (strip s) = strip s :=
  strip_eq_self (fun _ hc => strip_head hc) fun _ hc => strip_getLast hc

theorem strip_concat {c : Char} (h : isSpace c = true) : strip (s ++ [c]) = strip s := by
  unfold strip
  rw [List.dropWhile_append]
  split
  · rename_i hnil
    rw [List.isEmpty_iff.mp hnil]
    simp [h]
  · exact List.rdropWhile_concat_pos isSpace _ c h

/-! ## Suffixes -/

theorem removeSuffix_append : removeSuffix t (s ++ t) = s := by
  simp [removeSuffix]

theorem removeSuffix_of_not (h : ¬ t <:+ s) : removeSuffix t s = s := by
  simp [removeSuffix, h]

theorem removeSuffix_cases (t s : List Char) :
    (∃ u, s = u ++ t ∧ removeSuffix t s = u) ∨ ¬ t <:+ s ∧ removeSuffix t s = s := by
  by_cases h : t <:+ s
  · obtain ⟨u, rfl⟩ := h
    exact .inl ⟨u, rfl, removeSuffix_append⟩
  · exact .inr ⟨h, removeSuffix_of_not h⟩

/-! ## Patterns -/

theorem matchesLine_iff {p : List Char → Bool} :
    matchesLine p s = true ↔ p s = true ∨ ∃ t, p t = true ∧ s = t ++ ['\n'] := by
  simp only [matchesLine, Bool.or_eq_true, Bool.and_eq_true, beq_iff_eq]
  constructor
  · intro h
    rcases h with h | ⟨hlast, h⟩
    · exact .inl h
    · exact .inr ⟨s.dropLast, h, (List.dropLast_append_getLast? _ hlast).symm⟩
  · intro h
    rcases h with h | ⟨t, ht, rfl⟩
    · exact .inl h
    · exact .inr (by simpa using ht)

/-- A pattern of which no match holds a newline matches a string to its end, if the string has none there. -/
theorem matchesLine_of_last {p : List Char → Bool} (h : matchesLine p s = true) (hlast : s.getLast? ≠ some '\n') :
    p s = true := by
  rcases matchesLine_iff.mp h with h | ⟨t, -, rfl⟩
  · exact h
  · simp at hlast

/-! ## ASCII -/

/-- A casing that knows no letters but the ASCII ones. -/
def asciiCasing : Casing where
  lower s := s.map Char.toLower
  capitalize
    | [] => []
    | c :: s => c.toUpper :: s.map Char.toLower
  lower_ascii _ _ := rfl
  capitalize_ascii _ _ _ := rfl

end Text
