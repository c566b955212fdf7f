import Mathlib.Data.List.Dedup
import Lok.Checks
import Lok.Text

/-!
# Service names

What a hub calls its services: tokens for a service name it so as their audience. The pattern for a name
ends in `$`, which also matches before a newline that ends the string.
-/

namespace Lok

namespace ServiceNames

open Checks Text

/-- What the rules use of the standard library: case, and the uuid that is derived from a name. -/
structure Library extends Casing where
  uuid5 : List Char → String

/-! ## Names -/

/-- `[a-z0-9]`. -/
def isAlnum (c : Char) : Bool := 97 ≤ c.toNat && c.toNat ≤ 122 || 48 ≤ c.toNat && c.toNat ≤ 57

/-- `[a-z0-9_-]`. -/
def isNameChar (c : Char) : Bool := isAlnum c || c == '_' || c == '-'

/-- `[a-z0-9][a-z0-9_-]{0,99}`, over the whole length. -/
def plain : List Char → Bool
  | [] => false
  | c :: s => isAlnum c && s.length ≤ 99 && s.all isNameChar

/-- `NAME_RE`. -/
def nameMatches (s : List Char) : Bool := matchesLine plain s

structure InstanceRequest where
  identifier : List Char
  /-- Empty when it was left out. -/
  name : List Char
  /-- The identifier of its manifest. -/
  service : List Char
  deriving DecidableEq, Repr

namespace InstanceRequest

variable (u : Library) (i : InstanceRequest)

/-- The name as it is given, or the last part of the service's identifier. -/
def chosenName : List Char := if i.name.isEmpty then u.lower (i.service.rtakeWhile (· != '.')) else i.name

def namedInTheHub : Except String InstanceRequest := do
  let name := i.chosenName u
  require (nameMatches name)
    s!"'{String.ofList name}' is not a service name: lowercase letters, digits, '_' and '-' (at most 100)"
  return { i with name := name }

end InstanceRequest

structure HubManifest where
  uid : Option String
  identifier : List Char
  instances : List InstanceRequest
  deriving DecidableEq, Repr

/-- How Python shows a name that matched. -/
def repr (name : List Char) : String :=
  "'" ++ String.ofList (name.flatMap fun c => if c == '\n' then ['\\', 'n'] else [c]) ++ "'"

namespace HubManifest

variable (u : Library) (m : HubManifest)

def names : List (List Char) := m.instances.map (·.name)

def namedTwice : List (List Char) := (m.names.dedup.filter fun n => 1 < m.names.count n).mergeSort fun a b =>
  String.ofList a ≤ String.ofList b

def namedByItself : Except String HubManifest := do
  let uid := m.uid.getD (u.uuid5 ("arkitekt-hub:".toList ++ m.identifier))
  let twice := ", ".intercalate (m.namedTwice.map repr)
  require (m.names.dedup.length == m.names.length) s!"A hub names each of its services once: [{twice}]"
  return { m with uid := some uid }

/-- The manifest as it is validated: its instances first, and then itself. -/
def validate : Except String HubManifest := do
  let instances ← m.instances.mapM (·.namedInTheHub u)
  namedByItself u { m with instances := instances }

end HubManifest

variable {u : Library} {s : List Char} {i j : InstanceRequest} {m hub : HubManifest}

theorem newline_not_nameChar : isNameChar '\n' = false := by decide

theorem isNameChar_of_alnum {c : Char} (h : isAlnum c = true) : isNameChar c = true := by
  simp [isNameChar, h]

theorem plain_all (h : plain s = true) : s.all isNameChar = true := by
  cases s with
  | nil => cases h
  | cons c s =>
    simp only [plain, Bool.and_eq_true] at h
    rw [List.all_cons, isNameChar_of_alnum h.1.1, h.2]
    rfl

theorem plain_filter (h : plain s = true) : s.filter isNameChar = s :=
  List.filter_eq_self.mpr fun _ hc => List.all_eq_true.mp (plain_all h) _ hc

theorem plain_getLast (h : plain s = true) : s.getLast? ≠ some '\n' := by
  intro hlast
  have hc := List.all_eq_true.mp (plain_all h) _ (List.mem_of_getLast? hlast)
  rw [newline_not_nameChar] at hc
  cases hc

theorem nameMatches_plain_iff (h : nameMatches s = true) : plain s = true ↔ s.getLast? ≠ some '\n' :=
  ⟨plain_getLast, matchesLine_of_last h⟩

theorem namedInTheHub_ok (h : i.namedInTheHub u = .ok j) :
    j = { i with name := i.chosenName u } ∧ nameMatches (i.chosenName u) = true := by
  simp only [InstanceRequest.namedInTheHub, bind_ok, require_ok, exists_unit, pure_ok] at h
  exact ⟨h.2.symm, h.1⟩

theorem mapM_namedInTheHub {l r : List InstanceRequest}
    (h : List.Forall₂ (fun i j => i.namedInTheHub u = .ok j) l r) :
    r = l.map (fun i => { i with name := i.chosenName u }) ∧ ∀ i ∈ l, nameMatches (i.chosenName u) = true := by
  induction h with
  | nil => simp
  | cons hij _ ih =>
    obtain ⟨rfl, hmatches⟩ := namedInTheHub_ok hij
    exact ⟨by rw [List.map_cons, ← ih.1], List.forall_mem_cons.mpr ⟨hmatches, ih.2⟩⟩

theorem validate_ok (h : m.validate u = .ok hub) :
    hub.instances = m.instances.map (fun i => { i with name := i.chosenName u })
      ∧ (∀ i ∈ m.instances, nameMatches (i.chosenName u) = true) ∧ hub.names.Nodup := by
  simp only [HubManifest.validate, HubManifest.namedByItself, bind_ok, mapM_ok, require_ok, exists_unit,
    pure_ok, beq_iff_eq] at h
  obtain ⟨instances, hnamed, honce, rfl⟩ := h
  obtain ⟨hinstances, hmatches⟩ := mapM_namedInTheHub hnamed
  refine ⟨hinstances, hmatches, ?_⟩
  rw [← List.dedup_eq_self]
  exact (List.dedup_sublist _).eq_of_length honce

/-! ## One name, one service -/

/-- The names are plain, and differ in what plain names are made of. -/
def PlainAndApart (names : List (List Char)) : Prop :=
  (∀ s ∈ names, plain s = true) ∧ names.Pairwise fun s t => s.filter isNameChar ≠ t.filter isNameChar

theorem plainAndApart_of_nodup {names : List (List Char)} (hplain : ∀ s ∈ names, plain s = true)
    (hnodup : names.Nodup) :
    PlainAndApart names := by
  refine ⟨hplain, List.Pairwise.imp_of_mem (fun hs ht hne => ?_) hnodup⟩
  rw [plain_filter (hplain _ hs), plain_filter (hplain _ ht)]
  exact hne

/-- The services of a hub that validates are named plainly, and apart, just when no name ends in a newline. -/
theorem names_plain_and_apart_iff (h : m.validate u = .ok hub) :
    PlainAndApart hub.names ↔ ∀ i ∈ m.instances, (i.chosenName u).getLast? ≠ some '\n' := by
  obtain ⟨hinstances, hmatches, hnodup⟩ := validate_ok h
  have hnames : hub.names = m.instances.map fun i => i.chosenName u := by
    rw [HubManifest.names, hinstances, List.map_map]
    rfl
  constructor
  · intro hplain i hi
    have hmem : i.chosenName u ∈ hub.names := by
      rw [hnames]
      exact List.mem_map_of_mem hi
    exact plain_getLast (hplain.1 _ hmem)
  · intro hlast
    refine plainAndApart_of_nodup (fun s hs => ?_) hnodup
    rw [hnames] at hs
    obtain ⟨i, hi, rfl⟩ := List.mem_map.mp hs
    exact (nameMatches_plain_iff (hmatches i hi)).mpr (hlast i hi)

def asciiLibrary : Library := { asciiCasing with uuid5 := String.ofList }

/-- A service that names itself, and one that is named by its manifest. -/
def plainManifest (name : List Char) : HubManifest :=
  ⟨none, "lab".toList, [⟨"Mikro".toList, name, "live.arkitekt.mikro".toList⟩,
    ⟨"Mikro".toList, [], "live.arkitekt.Mikro".toList⟩]⟩

theorem names_plain_and_apart_iff_lab :
    ∃ hub, (plainManifest "omero-1".toList).validate asciiLibrary = .ok hub ∧ PlainAndApart hub.names := by
  obtain ⟨hub, hhub⟩ := exists_ok (x := (plainManifest "omero-1".toList).validate asciiLibrary) (by decide +kernel)
  exact ⟨hub, hhub, (names_plain_and_apart_iff hhub).mpr (by decide +kernel)⟩

/-- With a newline at the end it is another name, that tells itself from the first by nothing else. -/
theorem names_apart_by_a_newline :
    ∃ hub, (plainManifest "mikro\n".toList).validate asciiLibrary = .ok hub
      ∧ hub.names = ["mikro\n".toList, "mikro".toList] ∧ ¬ PlainAndApart hub.names := by
  obtain ⟨hub, hhub, hnames⟩ := exists_ok_and (x := (plainManifest "mikro\n".toList).validate asciiLibrary)
    (p := fun hub => hub.names == ["mikro\n".toList, "mikro".toList]) (by decide +kernel)
  have hnames := eq_of_beq hnames
  refine ⟨hub, hhub, hnames, fun hplain => ?_⟩
  have hlast := hplain.1 "mikro\n".toList (by rw [hnames]; simp)
  exact absurd hlast (by decide)

end ServiceNames

end Lok
