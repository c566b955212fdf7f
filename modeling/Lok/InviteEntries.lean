import Lok.Gifts
import Lok.Text

/-!
# The entries of an invite

An invite names collaborations by entries that come as JSON: an instance by its number or by a string,
padded or with leading zeros, the roles in any order. They are brought to one form, in which the same
collaboration is one entry, so that whatever is granted later is keyed by it.
-/

namespace Lok

namespace InviteEntries

open Checks Text
open DB (SameKey eq_of_apart mergeRefs_apart mergeRefs_keeps)

inductive Raw
  | null
  | bool (b : Bool)
  | int (n : Int)
  | float (isZero : Bool)
  | str (s : List Char)
  | list (l : List Raw)
  | dict (fields : List (List Char × Raw))

/-! ## One entry -/

def get (fields : List (List Char × Raw)) (key : String) : Option Raw :=
  (fields.find? fun f => f.1 == key.toList).map (·.2)

/-- `str(n)`. -/
def intText : Int → List Char
  | .ofNat n => Nat.toDigits 10 n
  | .negSucc n => '-' :: Nat.toDigits 10 (n + 1)

def instanceText : Option Raw → List Char
  | some (.str s) => strip s
  | some (.int n) => strip (intText n)
  | _ => []

def collaborationText : Option Raw → List Char
  | some (.str s) => strip s
  | _ => []

/-- `[0-9]{1,18}`. -/
def isInstance (s : List Char) : Bool := 1 ≤ s.length && s.length ≤ 18 && s.all Char.isDigit

/-- `[A-Za-z0-9_.-]`. -/
def isRefChar (c : Char) : Bool := c.isAlphanum || c == '_' || c == '.' || c == '-'

def isCollaboration (s : List Char) : Bool := 1 ≤ s.length && s.length ≤ 200 && s.all isRefChar

def maxRoleLength : Nat := 1000

/-- `roles or []`, as far as it can be gone through. -/
def roleItems : Option Raw → Option (List Raw)
  | none | some .null | some (.bool false) | some (.float true) => some []
  | some (.int n) => if n = 0 then some [] else none
  | some (.str s) => if s.isEmpty then some [] else none
  | some (.list l) => some l
  | some (.dict fields) => some (fields.map fun f => .str f.1)
  | some (.bool true) | some (.float false) => none

section

-- `shown` is how Python shows a value
variable (shown : Raw → String)

def cleanRole (raw : Raw) : Answer String := do
  let role ← found (match raw with | .str s => some (strip s) | _ => none)
    ⟨.validationError, s!"'{shown raw}' is not a role identifier."⟩
  assert (1 ≤ role.length && role.length ≤ maxRoleLength) .validationError
    s!"'{shown raw}' is not a role identifier."
  return String.ofList role

def parseFields (fields : List (List Char × Raw)) : Answer CollaborationRef := do
  let instance_ := instanceText (get fields "instance")
  let collaboration := collaborationText (get fields "collaboration")
  assert (matchesLine isInstance instance_) .validationError
    ("'" ++ shown ((get fields "instance").getD .null) ++ "' is not a service instance id.")
  assert (matchesLine isCollaboration collaboration) .validationError
    ("'" ++ shown ((get fields "collaboration").getD .null) ++ "' is not a collaboration id. "
      ++ "Use letters, digits, '_', '.' and '-' (at most 200).")
  let items ← found (roleItems (get fields "roles"))
    ⟨.validationError, "A collaboration's roles must be a list of role identifiers."⟩
  let roles ← items.mapM (cleanRole shown)
  return ⟨Nat.ofDigitChars 10 instance_ 0, String.ofList collaboration, sortedSet roles⟩

def parseCollaboration : Raw → Answer CollaborationRef
  | .dict fields => parseFields shown fields
  | _ => refuse .validationError ("A collaboration must be given as \x7binstance, collaboration, roles\x7d, "
      ++ "e.g. \x7binstance: 7, collaboration: '12', roles: ['editor']\x7d.")

end

/-! ## Merging -/

def widened (ref : CollaborationRef) (roles : List String) : CollaborationRef :=
  { ref with roles := sortedSet (ref.roles ++ roles) }

def sameKey (a b : CollaborationRef) : Bool := a.instance_ == b.instance_ && a.collaboration == b.collaboration

/-- One turn of the loop of `_merge`; a dictionary keeps the order in which its keys came. -/
def mergeInto (refs : List CollaborationRef) (ref : CollaborationRef) : List CollaborationRef :=
  if refs.any (sameKey ref) then refs.map
    fun r => if sameKey ref r then widened r ref.roles else r else refs ++ [ref]

def merge (shown : Raw → String) (raw : List Raw) : Answer (List CollaborationRef) :=
  raw.foldlM (fun refs item => do return mergeInto refs (← parseCollaboration shown item)) []

/-! ## The list -/

def asEntry (ref : CollaborationRef) : Raw :=
  .dict [("instance".toList, .str (Nat.toDigits 10 ref.instance_)),
    ("collaboration".toList, .str ref.collaboration.toList),
    ("roles".toList, .list (ref.roles.map fun r => .str r.toList))]

def unknownRoles (db : DB) (refs : List CollaborationRef) (organization : Pk) : List String :=
  sortedSet ((refs.flatMap (·.roles)).filter
    fun r => !db.roles.exists? fun _ x => x.identifier == r && x.organization == organization)

def normalizeCollaborations (shown : Raw → String) (db : DB) (raw : Option (List Raw)) (organization : Option Pk) :
    Answer (List Raw) := do
  let raw := raw.getD []
  assert (!raw.isEmpty) .validationError "A collaboration invite must grant at least one collaboration."
  let refs ← merge shown raw
  assert (refs.length ≤ maxCollaborationsPerInvite) .validationError
    s!"An invite can grant at most {maxCollaborationsPerInvite} collaborations."
  whenSome organization fun o => do
    db.checkInstances (refs.map (·.instance_)) o
    assert (unknownRoles db refs o).isEmpty .validationError
      s!"Not a role of this organization: {commaJoin (unknownRoles db refs o)}."
  return refs.map asEntry

/-! ## What is merged -/

def rolesFor (l : List CollaborationRef) (ref : CollaborationRef) : List String :=
  (l.filter (sameKey ref)).flatMap (·.roles)

/-- One of each collaboration that is listed, with the sorted union of its roles. -/
structure Merged (l refs : List CollaborationRef) : Prop where
  listed : ∀ ref ∈ refs, ∃ e ∈ l, SameKey ref e
  roles : ∀ ref ∈ refs, ref.roles = sortedSet (rolesFor l ref)
  covers : ∀ e ∈ l, ∃ ref ∈ refs, SameKey ref e
  apart : refs.Pairwise fun a b => ¬ SameKey a b

variable {shown : Raw → String} {db : DB} {l l' refs refs' : List CollaborationRef}
  {ref ref' a b e : CollaborationRef}

theorem sameKey_iff : sameKey a b = true ↔ SameKey a b := by
  simp [sameKey, SameKey]

theorem mem_rolesFor {r : String} : r ∈ rolesFor l ref ↔ ∃ e ∈ l, SameKey ref e ∧ r ∈ e.roles := by
  simp [rolesFor, List.mem_flatMap, sameKey_iff, and_assoc]

theorem rolesFor_of_sameKey (h : SameKey a b) : rolesFor l a = rolesFor l b := by
  have hsame : sameKey a = sameKey b := by
    funext c
    rw [sameKey, h.1, h.2, sameKey]
  rw [rolesFor, hsame, rolesFor]

theorem ref_ext (hkey : SameKey a b) (hroles : a.roles = b.roles) : a = b := by
  obtain ⟨i, c, r⟩ := a
  obtain ⟨j, d, q⟩ := b
  obtain ⟨hi, hc⟩ := hkey
  dsimp only at hi hc hroles
  rw [hi, hc, hroles]

theorem sortedSet_sortedSet (l : List String) : sortedSet (sortedSet l) = sortedSet l :=
  sortedSet_congr fun _ => mem_sortedSet

theorem Merged.mem_iff (h : Merged l refs) :
    ref ∈ refs ↔ (∃ e ∈ l, SameKey ref e) ∧ ref.roles = sortedSet (rolesFor l ref) := by
  constructor
  · exact fun href => ⟨h.listed ref href, h.roles ref href⟩
  · intro hmem
    obtain ⟨⟨e, he, hkey⟩, hroles⟩ := hmem
    obtain ⟨x, hx, hxe⟩ := h.covers e he
    have hsame : SameKey x ref := hxe.trans hkey.symm
    have heq : x = ref := ref_ext hsame (by rw [h.roles x hx, hroles, rolesFor_of_sameKey hsame])
    rwa [← heq]

theorem Merged.nodup (h : Merged l refs) : refs.Nodup :=
  h.apart.imp fun hapart heq => hapart (by rw [heq]; exact ⟨rfl, rfl⟩)

theorem Merged.perm (h : Merged l refs) (h' : Merged l' refs') (hsame : ∀ e, e ∈ l ↔ e ∈ l') :
    refs.Perm refs' := by
  refine (List.perm_ext_iff_of_nodup h.nodup h'.nodup).mpr fun ref => ?_
  have hroles : sortedSet (rolesFor l ref) = sortedSet (rolesFor l' ref) :=
    sortedSet_congr fun r => by simp only [mem_rolesFor, hsame]
  rw [h.mem_iff, h'.mem_iff, hroles]
  simp only [hsame]

theorem Merged.nil : Merged [] [] := ⟨by simp, by simp, by simp, .nil⟩

theorem Merged.widen (h : Merged l refs) (hknown : ∃ x ∈ refs, SameKey e x) :
    Merged (l ++ [e]) (refs.map fun r => if sameKey e r then widened r e.roles else r) := by
  have hkey : ∀ r, SameKey (if sameKey e r then widened r e.roles else r) r := by
    intro r
    split
    · exact ⟨rfl, rfl⟩
    · exact ⟨rfl, rfl⟩
  constructor
  · intro ref href
    obtain ⟨r, hr, rfl⟩ := List.mem_map.mp href
    obtain ⟨x, hx, hrx⟩ := h.listed r hr
    exact ⟨x, by simp [hx], (hkey r).trans hrx⟩
  · intro ref href
    obtain ⟨r, hr, rfl⟩ := List.mem_map.mp href
    rw [rolesFor_of_sameKey (hkey r)]
    by_cases hsame : SameKey e r
    · rw [if_pos (sameKey_iff.mpr hsame), widened]
      refine sortedSet_congr fun x => ?_
      rw [List.mem_append, h.roles r hr, mem_sortedSet, mem_rolesFor, mem_rolesFor]
      simp only [List.mem_append, List.mem_singleton]
      constructor
      · intro hx
        rcases hx with ⟨y, hy, hry, hxy⟩ | hx
        · exact ⟨y, .inl hy, hry, hxy⟩
        · exact ⟨e, .inr rfl, hsame.symm, hx⟩
      · intro hx
        obtain ⟨y, hy, hry, hxy⟩ := hx
        rcases hy with hy | rfl
        · exact .inl ⟨y, hy, hry, hxy⟩
        · exact .inr hxy
    · rw [if_neg (fun hk => hsame (sameKey_iff.mp hk)), h.roles r hr]
      refine sortedSet_congr fun x => ?_
      rw [mem_rolesFor, mem_rolesFor]
      constructor
      · intro hx
        obtain ⟨y, hy, hry, hxy⟩ := hx
        exact ⟨y, by simp [hy], hry, hxy⟩
      · intro hx
        obtain ⟨y, hy, hry, hxy⟩ := hx
        rcases List.mem_append.mp hy with hy | hy
        · exact ⟨y, hy, hry, hxy⟩
        · obtain rfl := List.mem_singleton.mp hy
          exact absurd hry.symm hsame
  · intro x hx
    have hcovered : ∃ r ∈ refs, SameKey r x := by
      rcases List.mem_append.mp hx with hx | hx
      · exact h.covers x hx
      · obtain rfl := List.mem_singleton.mp hx
        obtain ⟨r, hr, hxr⟩ := hknown
        exact ⟨r, hr, hxr.symm⟩
    obtain ⟨r, hr, hrx⟩ := hcovered
    exact ⟨_, List.mem_map_of_mem hr, (hkey r).trans hrx⟩
  · rw [List.pairwise_map]
    exact h.apart.imp fun hapart hsame => hapart ((hkey _).symm.trans (hsame.trans (hkey _)))

theorem Merged.append (h : Merged l refs) (hnew : ∀ x ∈ refs, ¬ SameKey e x)
    (hsorted : sortedSet e.roles = e.roles) :
    Merged (l ++ [e]) (refs ++ [e]) := by
  have hfresh : ∀ x ∈ l, ¬ SameKey e x := by
    intro x hx hex
    obtain ⟨r, hr, hrx⟩ := h.covers x hx
    exact hnew r hr (hex.trans hrx.symm)
  constructor
  · intro ref href
    rcases List.mem_append.mp href with href | href
    · obtain ⟨x, hx, hkey⟩ := h.listed ref href
      exact ⟨x, by simp [hx], hkey⟩
    · obtain rfl := List.mem_singleton.mp href
      exact ⟨ref, by simp, ⟨rfl, rfl⟩⟩
  · intro ref href
    rcases List.mem_append.mp href with hold | href
    · rw [h.roles ref hold]
      refine sortedSet_congr fun x => ?_
      rw [mem_rolesFor, mem_rolesFor]
      constructor
      · intro hx
        obtain ⟨y, hy, hkey, hxy⟩ := hx
        exact ⟨y, by simp [hy], hkey, hxy⟩
      · intro hx
        obtain ⟨y, hy, hkey, hxy⟩ := hx
        rcases List.mem_append.mp hy with hy | hy
        · exact ⟨y, hy, hkey, hxy⟩
        · obtain rfl := List.mem_singleton.mp hy
          exact absurd hkey.symm (hnew ref hold)
    · obtain rfl := List.mem_singleton.mp href
      rw [← hsorted]
      refine sortedSet_congr fun x => ?_
      rw [mem_rolesFor]
      constructor
      · exact fun hx => ⟨ref, by simp, ⟨rfl, rfl⟩, hx⟩
      · intro hx
        obtain ⟨y, hy, hkey, hxy⟩ := hx
        rcases List.mem_append.mp hy with hy | hy
        · exact absurd hkey (hfresh y hy)
        · obtain rfl := List.mem_singleton.mp hy
          exact hxy
  · intro x hx
    rcases List.mem_append.mp hx with hx | hx
    · obtain ⟨r, hr, hkey⟩ := h.covers x hx
      exact ⟨r, by simp [hr], hkey⟩
    · exact ⟨x, by simp [List.mem_singleton.mp hx], ⟨rfl, rfl⟩⟩
  · refine List.pairwise_append.mpr ⟨h.apart, List.pairwise_singleton _ _, fun x hx y hy hsame => ?_⟩
    obtain rfl := List.mem_singleton.mp hy
    exact hnew x hx hsame.symm

theorem Merged.mergeInto (h : Merged l refs) (hsorted : sortedSet e.roles = e.roles) :
    Merged (l ++ [e]) (mergeInto refs e) := by
  unfold InviteEntries.mergeInto
  split
  · rename_i hany
    obtain ⟨x, hx, hkey⟩ := List.any_eq_true.mp hany
    exact h.widen ⟨x, hx, sameKey_iff.mp hkey⟩
  · rename_i hnone
    refine h.append (fun x hx hkey => hnone ?_) hsorted
    exact List.any_eq_true.mpr ⟨x, hx, sameKey_iff.mpr hkey⟩

theorem merged_foldl (hsorted : ∀ e ∈ l', sortedSet e.roles = e.roles) (h : Merged l refs) :
    Merged (l ++ l') (l'.foldl InviteEntries.mergeInto refs) := by
  induction l' generalizing l refs with
  | nil => simpa using h
  | cons e l' ih =>
    have hnext := ih (fun x hx => hsorted x (by simp [hx])) (h.mergeInto (hsorted e (by simp)))
    simpa using hnext

theorem mergeRefs_sorted : ∀ {l : List CollaborationRef}, ref ∈ mergeRefs l → sortedSet ref.roles = ref.roles
  | e :: l, href => by
    rw [mergeRefs] at href
    rcases List.mem_cons.mp href with rfl | href
    · exact sortedSet_sortedSet _
    · exact mergeRefs_sorted (List.mem_filter.mp href).1

theorem merged_mergeRefs (l : List CollaborationRef) : Merged l (mergeRefs l) where
  listed ref href := by
    obtain ⟨e, he, hkey⟩ := (mem_mergeRefs href).1
    exact ⟨e, he, hkey.1.symm, hkey.2.symm⟩
  roles ref href := by
    rw [← mergeRefs_sorted href]
    refine sortedSet_congr fun x => ?_
    rw [mem_rolesFor]
    constructor
    · intro hx
      obtain ⟨e, he, hkey, hxe⟩ := (mem_mergeRefs href).2 x hx
      exact ⟨e, he, ⟨hkey.1.symm, hkey.2.symm⟩, hxe⟩
    · intro hx
      obtain ⟨e, he, hkey, hxe⟩ := hx
      obtain ⟨ref', href', hkey', hroles⟩ := mergeRefs_keeps he
      have heq : ref' = ref := eq_of_apart (mergeRefs_apart l) href' href (hkey'.trans hkey.symm)
      rw [← heq]
      exact hroles x hxe
  covers e he := by
    obtain ⟨ref, href, hkey, -⟩ := mergeRefs_keeps he
    exact ⟨ref, href, hkey⟩
  apart := mergeRefs_apart l

/-! ## What is read -/

/-- The instance, by its number, and the collaboration that an entry names. -/
def key : Raw → Pk × String
  | .dict fields => (Nat.ofDigitChars 10 (instanceText (get fields "instance")) 0,
      String.ofList (collaborationText (get fields "collaboration")))
  | _ => (0, "")

def trimmedRole : Raw → Option String
  | .str s => some (String.ofList (strip s))
  | _ => none

def rolesGiven : Raw → List String
  | .dict fields => ((roleItems (get fields "roles")).getD []).filterMap trimmedRole
  | _ => []

def reading (raw : Raw) : CollaborationRef := ⟨(key raw).1, (key raw).2, sortedSet (rolesGiven raw)⟩

structure WellFormed (ref : CollaborationRef) : Prop where
  instance_ : ref.instance_ < 10 ^ 18
  collaboration : isCollaboration ref.collaboration.toList = true
  roles : ∀ r ∈ ref.roles, strip r.toList = r.toList ∧ 1 ≤ r.toList.length ∧ r.toList.length ≤ maxRoleLength
  sorted : sortedSet ref.roles = ref.roles

theorem toNat_of_isRefChar {c : Char} (h : isRefChar c = true) : 45 ≤ c.toNat ∧ c.toNat ≤ 122 := by
  have hclasses : (((((c.isUpper || c.isLower) || c.isDigit) || c == '_') || c == '.') || c == '-') = true := h
  simp only [Bool.or_eq_true, beq_iff_eq] at hclasses
  rcases hclasses with (((((hupper | hlower) | hdigit) | rfl) | rfl) | rfl)
  · have hbounds := toNat_of_isUpper hupper
    omega
  · have hbounds := toNat_of_isLower hlower
    omega
  · have hbounds := toNat_of_isDigit hdigit
    omega
  · decide
  · decide
  · decide

theorem isSpace_of_toNat {c : Char} (hge : 45 ≤ c.toNat) (hle : c.toNat ≤ 122) : isSpace c = false := by
  simp only [isSpace, Bool.or_eq_false_iff, Bool.and_eq_false_iff, decide_eq_false_iff_not, beq_eq_false_iff_ne]
  omega

theorem strip_of_isInstance {s : List Char} (h : s.all Char.isDigit = true) : strip s = s := by
  refine strip_of_clean fun c hc => ?_
  have hbounds := toNat_of_isDigit (List.all_eq_true.mp h c hc)
  exact isSpace_of_toNat (by omega) (by omega)

theorem strip_of_isCollaboration {s : List Char} (h : isCollaboration s = true) : strip s = s := by
  simp only [isCollaboration, Bool.and_eq_true] at h
  refine strip_of_clean fun c hc => ?_
  have hbounds := toNat_of_isRefChar (List.all_eq_true.mp h.2 c hc)
  exact isSpace_of_toNat hbounds.1 hbounds.2

theorem matchesLine_strip {p : List Char → Bool} {s : List Char} (h : matchesLine p (strip s) = true) :
    p (strip s) = true := by
  apply matchesLine_of_last h
  intro hlast
  have hspace := strip_getLast hlast
  revert hspace
  decide

theorem ofDigitChars_lt : ∀ {s : List Char} {n : Nat}, s.all Char.isDigit = true →
    Nat.ofDigitChars 10 s n < (n + 1) * 10 ^ s.length
  | [], n, _ => by simp
  | c :: s, n, h => by
    rw [List.all_cons, Bool.and_eq_true] at h
    have hdigit := (toNat_of_isDigit h.1).2
    have hrest := ofDigitChars_lt (n := 10 * n + (c.toNat - '0'.toNat)) h.2
    have hn : 10 * n + (c.toNat - '0'.toNat) + 1 ≤ (n + 1) * 10 := by
      show 10 * n + (c.toNat - 48) + 1 ≤ _
      omega
    calc Nat.ofDigitChars 10 (c :: s) n = Nat.ofDigitChars 10 s (10 * n + (c.toNat - '0'.toNat)) :=
      Nat.ofDigitChars_cons
      _ < (10 * n + (c.toNat - '0'.toNat) + 1) * 10 ^ s.length := hrest
      _ ≤ (n + 1) * 10 * 10 ^ s.length := Nat.mul_le_mul_right _ hn
      _ = (n + 1) * 10 ^ (c :: s).length := by rw [List.length_cons, Nat.pow_succ, Nat.mul_assoc, Nat.mul_comm 10]

theorem cleanRole_ok {raw : Raw} {r : String} (h : cleanRole shown raw = .ok r) : trimmedRole raw = some r
    ∧ strip r.toList = r.toList ∧ 1 ≤ r.toList.length ∧ r.toList.length ≤ maxRoleLength := by
  unfold cleanRole at h
  simp only [bind_ok, found_ok, require_ok, pure_ok, exists_unit, Bool.and_eq_true, decide_eq_true_eq] at h
  obtain ⟨role, hrole, hlength, rfl⟩ := h
  cases raw with
  | str s =>
    cases hrole
    rw [String.toList_ofList]
    exact ⟨rfl, strip_strip, hlength⟩
  | _ => cases hrole

theorem cleanRole_str {r : String} (hclean : strip r.toList = r.toList)
    (hlength : 1 ≤ r.toList.length ∧ r.toList.length ≤ maxRoleLength) :
    cleanRole shown (.str r.toList) = .ok r := by
  unfold cleanRole
  simp only [bind_ok, found_ok, require_ok, pure_ok, exists_unit, Bool.and_eq_true, decide_eq_true_eq]
  exact ⟨r.toList, by rw [hclean], hlength, String.ofList_toList⟩

theorem cleanRoles_ok {items : List Raw} {roles : List String} (h : items.mapM (cleanRole shown) = .ok roles) :
    items.filterMap trimmedRole = roles
      ∧ ∀ r ∈ roles, strip r.toList = r.toList ∧ 1 ≤ r.toList.length ∧ r.toList.length ≤ maxRoleLength := by
  induction mapM_ok.mp h with
  | nil => exact ⟨rfl, by simp⟩
  | cons hrole hrest ih =>
    obtain ⟨hgiven, hroles⟩ := ih (mapM_ok.mpr hrest)
    obtain ⟨hrole, hclean⟩ := cleanRole_ok hrole
    exact ⟨by rw [List.filterMap_cons, hrole, hgiven], List.forall_mem_cons.mpr ⟨hclean, hroles⟩⟩

theorem instanceText_trimmed (raw : Option Raw) : ∃ s, instanceText raw = strip s := by
  unfold instanceText
  split
  · exact ⟨_, rfl⟩
  · exact ⟨_, rfl⟩
  · exact ⟨[], rfl⟩

theorem collaborationText_trimmed (raw : Option Raw) : ∃ s, collaborationText raw = strip s := by
  unfold collaborationText
  split
  · exact ⟨_, rfl⟩
  · exact ⟨[], rfl⟩

theorem parse_ok {raw : Raw} (h : parseCollaboration shown raw = .ok ref) :
    ref = reading raw ∧ WellFormed ref := by
  cases raw with
  | dict fields =>
    simp only [parseCollaboration, parseFields, bind_ok, found_ok, require_ok, pure_ok, exists_unit] at h
    obtain ⟨hinstance, hcollaboration, items, hitems, roles, hroles, rfl⟩ := h
    obtain ⟨hgiven, hclean⟩ := cleanRoles_ok hroles
    have hinstance : isInstance (instanceText (get fields "instance")) = true := by
      obtain ⟨s, hs⟩ := instanceText_trimmed (get fields "instance")
      rw [hs] at hinstance ⊢
      exact matchesLine_strip hinstance
    have hcollaboration : isCollaboration (collaborationText (get fields "collaboration")) = true := by
      obtain ⟨s, hs⟩ := collaborationText_trimmed (get fields "collaboration")
      rw [hs] at hcollaboration ⊢
      exact matchesLine_strip hcollaboration
    constructor
    · rw [reading, rolesGiven, hitems, Option.getD_some, hgiven, key]
    · constructor
      · simp only [isInstance, Bool.and_eq_true, decide_eq_true_eq] at hinstance
        calc _ < (0 + 1) * 10 ^ (instanceText (get fields "instance")).length := ofDigitChars_lt hinstance.2
          _ ≤ 10 ^ 18 := by
            rw [Nat.zero_add, Nat.one_mul]
            exact Nat.pow_le_pow_right (by decide) hinstance.1.2
      · rw [String.toList_ofList]
        exact hcollaboration
      · exact fun r hr => hclean r (mem_sortedSet.mp hr)
      · exact sortedSet_sortedSet roles
  | _ => cases h

theorem parse_asEntry (h : WellFormed ref) : parseCollaboration shown (asEntry ref) = .ok ref := by
  have hdigits : (Nat.toDigits 10 ref.instance_).all Char.isDigit = true :=
    List.all_eq_true.mpr fun c hc => Nat.isDigit_of_mem_toDigits (by decide) (by decide) hc
  have hinstance : isInstance (Nat.toDigits 10 ref.instance_) = true := by
    simp only [isInstance, Bool.and_eq_true, decide_eq_true_eq]
    exact ⟨⟨Nat.length_toDigits_pos, (Nat.length_toDigits_le_iff (by decide) (by decide)).mpr h.instance_⟩,
      hdigits⟩
  have hroles : (ref.roles.map fun r => Raw.str r.toList).mapM (cleanRole shown) = .ok ref.roles := by
    rw [mapM_ok, List.forall₂_map_left_iff]
    exact List.forall₂_same.mpr fun r hr => cleanRole_str (h.roles r hr).1 (h.roles r hr).2
  have hinstanceText : instanceText
    (some (.str (Nat.toDigits 10 ref.instance_))) = Nat.toDigits 10 ref.instance_ :=
    strip_of_isInstance hdigits
  have hcollaborationText : collaborationText (some (.str ref.collaboration.toList)) = ref.collaboration.toList :=
    strip_of_isCollaboration h.collaboration
  show parseFields shown _ = _
  simp only [parseFields, bind_ok, found_ok, require_ok, pure_ok, exists_unit]
  refine ⟨?_, ?_, ref.roles.map fun r => Raw.str r.toList, rfl, ref.roles, hroles, ?_⟩
  · show matchesLine isInstance (instanceText (some _)) = true
    rw [hinstanceText, matchesLine, hinstance, Bool.true_or]
  · show matchesLine isCollaboration (collaborationText (some _)) = true
    rw [hcollaborationText, matchesLine, h.collaboration, Bool.true_or]
  · show CollaborationRef.mk (Nat.ofDigitChars 10 (instanceText (some _)) 0)
      (String.ofList (collaborationText (some _))) _ = ref
    rw [hinstanceText, hcollaborationText, Nat.ofDigitChars_ten_toDigits, String.ofList_toList, h.sorted]

/-! ## The one form -/

theorem merge_foldl {raw : List Raw} (hparse : ∀ item ∈ raw, parseCollaboration shown item = .ok (reading item)) :
    raw.foldlM (fun refs item => do return mergeInto refs (← parseCollaboration shown item)) refs
      = .ok ((raw.map reading).foldl mergeInto refs) := by
  induction raw generalizing refs with
  | nil => rfl
  | cons item raw ih =>
    rw [List.foldlM_cons, hparse item (by simp), List.map_cons, List.foldl_cons]
    exact ih fun x hx => hparse x (by simp [hx])

theorem merge_parsed {raw : List Raw}
    (h : raw.foldlM (fun refs item => do return mergeInto refs (← parseCollaboration shown item))
      refs = .ok refs') :
    ∀ item ∈ raw, parseCollaboration shown item = .ok (reading item) := by
  induction raw generalizing refs with
  | nil => simp
  | cons item raw ih =>
    simp only [List.foldlM_cons, bind_ok, pure_ok] at h
    obtain ⟨_, ⟨ref, hparse, rfl⟩, h⟩ := h
    refine List.forall_mem_cons.mpr ⟨?_, ih h⟩
    rw [← (parse_ok hparse).1]
    exact hparse

theorem merge_ok {raw : List Raw} : merge shown raw = .ok refs ↔
    (∀ item ∈ raw, parseCollaboration shown item = .ok (reading item))
    ∧ refs = (raw.map reading).foldl mergeInto [] := by
  constructor
  · intro h
    have hparse := merge_parsed h
    have heq := h.symm.trans (merge_foldl hparse)
    exact ⟨hparse, Except.ok.inj heq⟩
  · intro h
    obtain ⟨hparse, rfl⟩ := h
    exact merge_foldl hparse

/-- What an invite may name: between one and fifty collaborations, on the organization's hubs and with its
roles. -/
structure Allowed (db : DB) (organization : Option Pk) (refs : List CollaborationRef) : Prop where
  count : refs.length ≤ maxCollaborationsPerInvite
  instances : ∀ o, organization = some o → db.checkInstances (refs.map (·.instance_)) o = .ok ()
  roles : ∀ o, organization = some o → unknownRoles db refs o = []

theorem checkInstances_perm {instances instances' : List Pk} {o : Pk} (h : instances.Perm instances')
    (hok : db.checkInstances instances o = .ok ()) : db.checkInstances instances' o = .ok () := by
  simp only [DB.checkInstances, require_ok, List.isEmpty_iff, List.filter_eq_nil_iff] at hok ⊢
  exact fun i hi => hok i (h.mem_iff.mpr hi)

theorem unknownRoles_perm {o : Pk} (h : refs.Perm refs') : unknownRoles db refs' o = unknownRoles db refs o :=
  sortedSet_congr fun r => by simp only [List.mem_filter, List.mem_flatMap, h.mem_iff]

theorem Allowed.perm {organization : Option Pk} (h : Allowed db organization refs) (hperm : refs.Perm refs') :
    Allowed db organization refs' where
  count := hperm.length_eq ▸ h.count
  instances o ho := checkInstances_perm (hperm.map _) (h.instances o ho)
  roles o ho := (unknownRoles_perm hperm).trans (h.roles o ho)

theorem normalize_ok {raw out : List Raw} {organization : Option Pk} :
    normalizeCollaborations shown db (some raw) organization = .ok out ↔
      raw ≠ [] ∧ (∀ item ∈ raw, parseCollaboration shown item = .ok (reading item))
        ∧ Allowed db organization ((raw.map reading).foldl mergeInto [])
        ∧ out = ((raw.map reading).foldl mergeInto []).map asEntry := by
  simp only [normalizeCollaborations, Option.getD_some, bind_ok, require_ok, pure_ok,
    exists_unit, whenSome_ok, merge_ok,
    decide_eq_true_eq, Bool.not_eq_true', List.isEmpty_eq_false_iff, List.isEmpty_iff]
  constructor
  · intro h
    obtain ⟨hne, refs, ⟨hparse, rfl⟩, hcount, horganization, rfl⟩ := h
    exact ⟨hne, hparse, ⟨hcount, fun o ho => (horganization o ho).1, fun o ho => (horganization o ho).2⟩, rfl⟩
  · intro h
    obtain ⟨hne, hparse, hallowed, rfl⟩ := h
    exact ⟨hne, _, ⟨hparse, rfl⟩, hallowed.count, fun o ho => ⟨hallowed.instances o ho, hallowed.roles o ho⟩, rfl⟩

theorem foldl_mergeInto_of_apart (h : (refs ++ l).Pairwise fun a b => ¬ SameKey a b) :
    l.foldl mergeInto refs = refs ++ l := by
  induction l generalizing refs with
  | nil => simp
  | cons e l ih =>
    have hnew : refs.any (sameKey e) = false := by
      refine List.any_eq_false.mpr fun x hx hkey => ?_
      have hapart := (List.pairwise_append.mp h).2.2 x hx e (by simp)
      exact hapart (sameKey_iff.mp hkey).symm
    rw [List.foldl_cons, mergeInto, if_neg (by simp [hnew]), ih (by simpa using h)]
    simp

theorem Merged.wellFormed (h : Merged l refs) (hl : ∀ e ∈ l, WellFormed e) (href : ref ∈ refs) :
    WellFormed ref := by
  obtain ⟨e, he, hkey⟩ := h.listed ref href
  constructor
  · rw [hkey.1]
    exact (hl e he).instance_
  · rw [hkey.2]
    exact (hl e he).collaboration
  · intro r hr
    rw [h.roles ref href, mem_sortedSet, mem_rolesFor] at hr
    obtain ⟨e', he', -, hr⟩ := hr
    exact (hl e' he').roles r hr
  · rw [h.roles ref href]
    exact sortedSet_sortedSet _

theorem reading_asEntry (h : WellFormed ref) : reading (asEntry ref) = ref :=
  have hparse : parseCollaboration (fun _ => "") (asEntry ref) = .ok ref := parse_asEntry h
  (parse_ok hparse).1.symm

theorem key_of_reading {raw : Raw} (h : reading raw = ref) : key raw = (ref.instance_, ref.collaboration) := by
  rw [← h]
  rfl

theorem merged_reading {raw : List Raw}
    (hparse : ∀ item ∈ raw, parseCollaboration shown item = .ok (reading item)) :
    Merged (raw.map reading) ((raw.map reading).foldl mergeInto []) := by
  refine merged_foldl (l := []) (fun e he => ?_) .nil
  obtain ⟨item, hitem, rfl⟩ := List.mem_map.mp he
  exact (parse_ok (hparse item hitem)).2.sorted

theorem wellFormed_reading {raw : List Raw}
    (hparse : ∀ item ∈ raw, parseCollaboration shown item = .ok (reading item)) :
    ∀ e ∈ raw.map reading, WellFormed e := by
  intro e he
  obtain ⟨item, hitem, rfl⟩ := List.mem_map.mp he
  exact (parse_ok (hparse item hitem)).2

theorem map_reading_asEntry (h : ∀ ref ∈ refs, WellFormed ref) : (refs.map asEntry).map reading = refs := by
  calc (refs.map asEntry).map reading = refs.map fun ref => reading (asEntry ref) := List.map_map
    _ = refs.map id := List.map_congr_left fun ref href => reading_asEntry (h ref href)
    _ = refs := List.map_id refs

theorem mem_rolesFor_reading {raw : List Raw} {r : String} : r ∈ rolesFor (raw.map reading) ref
    ↔ r ∈ (raw.filter fun item => key item == (ref.instance_, ref.collaboration)).flatMap rolesGiven := by
  simp only [mem_rolesFor, List.mem_map, List.mem_flatMap, List.mem_filter, beq_iff_eq]
  constructor
  · intro h
    obtain ⟨_, ⟨item, hitem, rfl⟩, hkey, hr⟩ := h
    exact ⟨item, ⟨hitem, (Prod.ext hkey.1 hkey.2).symm⟩, mem_sortedSet.mp hr⟩
  · intro h
    obtain ⟨item, ⟨hitem, hkey⟩, hr⟩ := h
    exact ⟨_, ⟨item, hitem, rfl⟩, ⟨(congrArg Prod.fst hkey).symm, (congrArg Prod.snd hkey).symm⟩,
      mem_sortedSet.mpr hr⟩

/-- The entries that an invite stores are the one form of those it was given: normalizing them again changes
nothing, each collaboration is there once, with the sorted union of the roles asked for it, and the order
and the number of times in which the entries were given do not matter. -/
theorem normalized_entries {raw out : List Raw} {organization : Option Pk}
    (h : normalizeCollaborations shown db (some raw) organization = .ok out) :
    normalizeCollaborations shown db (some out) organization = .ok out
      ∧ (out.map key).Nodup
      ∧ (∀ k, k ∈ out.map key ↔ k ∈ raw.map key)
      ∧ (∀ entry ∈ out, entry = asEntry ⟨(key entry).1, (key entry).2,
          sortedSet ((raw.filter fun item => key item == key entry).flatMap rolesGiven)⟩)
      ∧ ∀ raw', (∀ item, item ∈ raw' ↔ item ∈ raw) →
          ∃ out', normalizeCollaborations shown db (some raw') organization = .ok out' ∧ out'.Perm out := by
  obtain ⟨hne, hparse, hallowed, rfl⟩ := normalize_ok.mp h
  have hmerged := merged_reading hparse
  set refs := (raw.map reading).foldl mergeInto []
  have hwell : ∀ ref ∈ refs, WellFormed ref := fun ref href => hmerged.wellFormed (wellFormed_reading hparse) href
  have hread := map_reading_asEntry hwell
  have hkeys : (refs.map asEntry).map key = refs.map fun ref => (ref.instance_, ref.collaboration) := by
    rw [List.map_map]
    exact List.map_congr_left fun ref href => key_of_reading (reading_asEntry (hwell ref href))
  refine ⟨?_, ?_, fun k => ?_, fun entry hentry => ?_, fun raw' hsame => ?_⟩
  · have hagain : ((refs.map asEntry).map reading).foldl mergeInto [] = refs := by
      rw [hread]
      have happart : ([] ++ refs).Pairwise fun a b => ¬ SameKey a b := hmerged.apart
      exact foldl_mergeInto_of_apart happart
    refine normalize_ok.mpr ⟨?_, fun entry hentry => ?_, by rwa [hagain], by rw [hagain]⟩
    · obtain ⟨item, hitem⟩ := List.exists_mem_of_ne_nil raw hne
      obtain ⟨ref, href, -⟩ := hmerged.covers _ (List.mem_map_of_mem hitem)
      exact List.ne_nil_of_mem (List.mem_map_of_mem href)
    · obtain ⟨ref, href, rfl⟩ := List.mem_map.mp hentry
      rw [reading_asEntry (hwell ref href)]
      exact parse_asEntry (hwell ref href)
  · rw [hkeys, List.Nodup, List.pairwise_map]
    exact hmerged.apart.imp fun hapart heq => hapart ⟨congrArg Prod.fst heq, congrArg Prod.snd heq⟩
  · rw [hkeys, List.mem_map, List.mem_map]
    constructor
    · intro hk
      obtain ⟨ref, href, rfl⟩ := hk
      obtain ⟨e, he, hkey⟩ := hmerged.listed ref href
      obtain ⟨item, hitem, rfl⟩ := List.mem_map.mp he
      exact ⟨item, hitem, (Prod.ext hkey.1 hkey.2).symm⟩
    · intro hk
      obtain ⟨item, hitem, rfl⟩ := hk
      obtain ⟨ref, href, hkey⟩ := hmerged.covers _ (List.mem_map_of_mem hitem)
      exact ⟨ref, href, Prod.ext hkey.1 hkey.2⟩
  · obtain ⟨ref, href, rfl⟩ := List.mem_map.mp hentry
    rw [key_of_reading (reading_asEntry (hwell ref href))]
    refine congrArg asEntry (ref_ext ⟨rfl, rfl⟩ ?_)
    exact (hmerged.roles ref href).trans (sortedSet_congr fun r => mem_rolesFor_reading)
  · have hparse' : ∀ item ∈ raw', parseCollaboration shown item = .ok (reading item) :=
      fun item hitem => hparse item ((hsame item).mp hitem)
    have hperm := hmerged.perm (merged_reading hparse') fun e => by simp only [List.mem_map, hsame]
    refine ⟨_, normalize_ok.mpr ⟨?_, hparse', hallowed.perm hperm, rfl⟩, (hperm.map asEntry).symm⟩
    obtain ⟨item, hitem⟩ := List.exists_mem_of_ne_nil raw hne
    exact List.ne_nil_of_mem ((hsame item).mpr hitem)

def entry (instance_ : Raw) (collaboration : String) (roles : List String) : Raw :=
  .dict [("instance".toList, instance_), ("collaboration".toList, .str collaboration.toList),
    ("roles".toList, .list (roles.map fun r => .str r.toList))]

def spelledTwice : List Raw :=
  [entry (.int 7) "12" ["viewer"], entry (.str " 007".toList) " 12 " ["editor", " viewer"],
   entry (.str "8".toList) "12" []]

theorem normalized_entries_spelledTwice :
    ∃ out, normalizeCollaborations (fun _ => "") .empty (some spelledTwice) none = .ok out
    ∧ out.length = 2 ∧ normalizeCollaborations (fun _ => "") .empty (some out) none = .ok out := by
  obtain ⟨out, hout, hlength⟩ :=
    exists_ok_and (x := normalizeCollaborations (fun _ => "") .empty (some spelledTwice) none)
    (p := fun out => decide (out.length = 2)) (by decide +kernel)
  exact ⟨out, hout, of_decide_eq_true hlength, (normalized_entries hout).1⟩

end InviteEntries

end Lok
