import Lok.FormatStrings

/-!
# Email templates

What a relying party is told of a person's email address may be a template, filled in from six variables of
a membership. It is checked when the configuration is read, and rendered when somebody logs in. The check
reads the names of the fields alone.
-/

namespace Lok.EmailTemplates

open Checks FormatStrings

structure User where
  id : Nat
  username : String
  email : Option String

structure Organization where
  slug : Option String
  name : Option String

structure Membership where
  id : Nat
  user : User
  organization : Organization

def emailTemplateVariables : List String :=
  ["username", "user_id", "email", "membership_id", "org_slug", "org_name"]

def allowed : String := ", ".intercalate (emailTemplateVariables.mergeSort (· ≤ ·))

def buildEmailVariables (membership : Membership) (name : List Char) : Option (List Char) :=
  let user := membership.user
  let organization := membership.organization
  let variables_ := [("username", user.username), ("user_id", toString user.id), ("email", user.email.getD ""),
    ("membership_id", toString membership.id), ("org_slug", organization.slug.getD ""),
      ("org_name", organization.name.getD "")]
  (variables_.lookup (String.ofList name)).map String.toList

section

variable (unicode : Unicode)

def quoted (s : List Char) : String := String.ofList (repr unicode s)

def validateEmailTemplate (template : String) : Except String Unit :=
  match parse template.toList with
  | .error exc => .error s!"email_template {quoted unicode template.toList} is not a valid format string: {exc}"
  | .ok parsed => do
    let fieldNames := parsed.filterMap fun piece => piece.field.map (·.name)
    require (!fieldNames.isEmpty)
      (s!"email_template {quoted unicode template.toList} contains no variables — it would render the same "
        ++ s!"email for every user. Include at least one of: {allowed}.")
    let unknown := fieldNames.filter fun f => !emailTemplateVariables.contains (String.ofList f)
    let names := ", ".intercalate (unknown.map (quoted unicode))
    require unknown.isEmpty
      (s!"email_template {quoted unicode template.toList} references unknown variable(s) "
        ++ s!"{names}. Available variables: {allowed}. "
        ++ "Attribute/index access (e.g. '\x7buser.email\x7d') is not allowed.")

def resolveEmail (interpreter : Interpreter) (membership : Membership) (emailTemplate : Option String) :
    Except String String :=
  match emailTemplate.filter (· ≠ "") with
  | some template =>
    (formatMap unicode interpreter (buildEmailVariables membership) template.toList).map String.ofList
  | none => .ok ((membership.user.email.filter (· ≠ "")).getD s!"{membership.id}@users.noreply")

/-- The template renders, to an email that only the variables decide. -/
def Renders (template : String) (membership : Membership) : Prop :=
  ∃ email, ∀ (interpreter : Interpreter) (other : Membership),
    buildEmailVariables other = buildEmailVariables membership →
    resolveEmail unicode interpreter other (some template) = .ok email

/-- The conversion and the spec, with its own fields filled in, are those that strings take, and by them the
field takes up so many characters. -/
def Fits (membership : Membership) (f : Field) (size : Nat) : Prop :=
  IsConversion f.conversion ∧ ∃ value converted spec width precision,
    getFirst unicode (buildEmailVariables membership) f.name = .ok value
      ∧ convertText unicode f.conversion value = .ok converted ∧
      Filled unicode (buildEmailVariables membership) 1 f.spec spec ∧ StrSpec unicode spec width precision ∧
      size = paddedSize width precision converted.length

/-- The piece's literal text, and its field if there is one, take up so many characters. -/
def PieceFits (membership : Membership) (piece : Piece) (size : Nat) : Prop :=
  match piece.field with
  | none => size = piece.literal.length
  | some f => ∃ n, Fits unicode membership f n ∧ size = piece.literal.length + n

end

/-! ## What is accepted -/

variable {unicode : Unicode}

theorem variable_chars (unicode : Unicode) {name : List Char} (h : String.ofList name ∈ emailTemplateVariables) :
    name ≠ [] ∧ ∀ c ∈ name, startsPath c = false ∧ unicode.decimal c = none := by
  have hall : emailTemplateVariables.all (fun v => !v.toList.isEmpty &&
      v.toList.all fun c => !startsPath c && Text.isAscii c && !c.isDigit) = true := by decide
  have hname := List.all_eq_true.mp hall _ h
  rw [String.toList_ofList, Bool.and_eq_true, Bool.not_eq_true', List.isEmpty_eq_false_iff] at hname
  refine ⟨hname.1, fun c hc => ?_⟩
  have hchar := List.all_eq_true.mp hname.2 c hc
  simp only [Bool.and_eq_true, Bool.not_eq_true'] at hchar
  obtain ⟨⟨hpath, hascii⟩, hdigit⟩ := hchar
  exact ⟨hpath, decimal_none hascii hdigit⟩

theorem buildEmailVariables_isSome (membership : Membership) {name : List Char}
    (h : String.ofList name ∈ emailTemplateVariables) : (buildEmailVariables membership name).isSome = true := by
  simp only [emailTemplateVariables, List.mem_cons, List.not_mem_nil, or_false] at h
  rcases h with h | h | h | h | h | h <;> simp [buildEmailVariables, h, List.lookup_cons]

theorem getFirst_variable (unicode : Unicode) (membership : Membership) {name : List Char}
    (h : String.ofList name ∈ emailTemplateVariables) :
    ∃ value, getFirst unicode (buildEmailVariables membership) name = .ok value := by
  obtain ⟨hne, hchars⟩ := variable_chars unicode h
  obtain ⟨value, hvalue⟩ := Option.isSome_iff_exists.mp (buildEmailVariables_isSome membership h)
  have hnumber : readInteger unicode name = none := by
    cases name with
    | nil => exact absurd rfl hne
    | cons c name => simp [readInteger, (hchars c (by simp)).2]
  refine ⟨value, ?_⟩
  simp only [getFirst, bind_ok, require_ok, exists_unit, found_ok]
  exact ⟨by simp [hnumber, hne], hvalue⟩

theorem validateEmailTemplate_ok {template : String} (h : validateEmailTemplate unicode template = .ok ()) :
    template ≠ "" ∧ ∃ pieces, parse template.toList = .ok pieces ∧
      ∀ piece ∈ pieces, ∀ f ∈ piece.field, String.ofList f.name ∈ emailTemplateVariables := by
  cases hparse : parse template.toList with
  | error exc => simp [validateEmailTemplate, hparse] at h
  | ok pieces =>
    simp only [validateEmailTemplate, hparse, bind_ok, require_ok, exists_unit] at h
    obtain ⟨hfields, hunknown⟩ := h
    refine ⟨?_, pieces, rfl, fun piece hpiece f hf => ?_⟩
    · rintro rfl
      obtain rfl : pieces = [] := (Except.ok.inj hparse).symm
      simp at hfields
    · have hmem : f.name ∈ pieces.filterMap fun piece => piece.field.map (·.name) :=
        List.mem_filterMap.mpr ⟨piece, hpiece, by rw [Option.mem_def.mp hf]; rfl⟩
      rw [List.isEmpty_iff, List.filter_eq_nil_iff] at hunknown
      simpa using hunknown f.name hmem

/-! ## What renders -/

theorem renders_iff_alike {template : String} {membership : Membership} (hne : template ≠ "") :
    Renders unicode template membership ↔
      ∃ text, ∀ interpreter, build unicode interpreter (buildEmailVariables membership) 2
      template.toList = .ok text := by
  have hsome : (some template).filter (· ≠ "") = some template := by simp [Option.filter, hne]
  constructor
  · rintro ⟨email, h⟩
    refine ⟨email.toList, fun interpreter => ?_⟩
    have hemail := h interpreter membership rfl
    simp only [resolveEmail, hsome, map_ok] at hemail
    obtain ⟨text, htext, rfl⟩ := hemail
    rw [String.toList_ofList]
    exact htext
  · rintro ⟨text, h⟩
    refine ⟨String.ofList text, fun interpreter other hother => ?_⟩
    simp only [resolveEmail, hsome, map_ok, hother]
    exact ⟨text, h interpreter, rfl⟩

theorem pieceText_iff {membership : Membership} {piece : Piece} {size : Nat} (hmemory : size ≤ unicode.memory)
    (hname : ∀ f ∈ piece.field, String.ofList f.name ∈ emailTemplateVariables) :
    (∃ text, PieceText unicode (buildEmailVariables membership)
      (Filled unicode (buildEmailVariables membership) 1) piece text
      ∧ text.length = size) ↔ PieceFits unicode membership piece size := by
  obtain ⟨literal, field⟩ := piece
  cases field with
  | none =>
    constructor
    · rintro ⟨_, htext, rfl⟩
      cases htext
      rfl
    · rintro rfl
      exact ⟨literal, .literal literal, rfl⟩
  | some f =>
    have hname := hname f rfl
    obtain ⟨value, hvalue⟩ := getFirst_variable unicode membership hname
    have hplain : ∀ c ∈ f.name, startsPath c = false := fun c hc => ((variable_chars unicode hname).2 c hc).1
    constructor
    · rintro ⟨_, htext, rfl⟩
      cases htext with
      | @field _ text _ htext =>
        have hlength : text.length ≤ unicode.memory := by
          rw [List.length_append] at hmemory
          omega
        obtain ⟨converted, spec, width, precision, hconverted, hspec, hstr, hsize⟩ :=
          (fieldText_of_name hplain hvalue hlength).mp ⟨text, htext, rfl⟩
        exact ⟨text.length, ⟨convertText_ok.mp ⟨_, hconverted⟩, value, converted, spec, width,
          precision, hvalue, hconverted,
          hspec, hstr, hsize⟩, List.length_append⟩
    · rintro ⟨n, ⟨-, value', converted, spec, width, precision, hvalue', hconverted, hspec, hstr, hsize⟩, rfl⟩
      obtain rfl := Except.ok.inj (hvalue.symm.trans hvalue')
      obtain ⟨text, htext, rfl⟩ := (fieldText_of_name hplain hvalue (Nat.le_of_add_left_le hmemory)).mpr
        ⟨converted, spec, width, precision, hconverted, hspec, hstr, hsize⟩
      exact ⟨literal ++ text, .field htext, List.length_append⟩

/-- An accepted template renders for a membership exactly when every field of it has a conversion and a spec
for strings, and there is memory for the characters its pieces take up. -/
theorem accepted_renders_iff (template : String) (membership : Membership)
    (h : validateEmailTemplate unicode template = .ok ()) :
    Renders unicode template membership ↔
      ∀ pieces, parse template.toList = .ok pieces →
        ∃ sizes, List.Forall₂ (PieceFits unicode membership) pieces sizes ∧ sizes.sum ≤ unicode.memory := by
  obtain ⟨hne, pieces, hparse, hnames⟩ := validateEmailTemplate_ok h
  have hpieces := fun piece hpiece n hn => @pieceText_iff unicode membership piece n hn (hnames piece hpiece)
  have hsizes := fun {total : Nat} (htotal : total ≤ unicode.memory) => texts_iff_sizes hpieces htotal
  rw [renders_iff_alike hne, build_alike]
  constructor
  · rintro ⟨others, texts, hothers, htexts, hmemory⟩ pieces' hpieces'
    obtain rfl := Except.ok.inj (hparse.symm.trans hothers)
    obtain rfl := Except.ok.inj (hparse.symm.trans hpieces')
    obtain ⟨sizes, hfits, hsum⟩ := (hsizes hmemory).mp ⟨texts, htexts, rfl⟩
    exact ⟨sizes, hfits, hsum ▸ hmemory⟩
  · intro hfits
    obtain ⟨sizes, hfits, hmemory⟩ := hfits pieces hparse
    obtain ⟨texts, htexts, hlength⟩ := (hsizes hmemory).mpr ⟨sizes, hfits, rfl⟩
    exact ⟨pieces, texts, hparse, htexts, hlength ▸ hmemory⟩

/-! ## A template of each kind -/

def asciiUnicode : Unicode where
  printable c := 32 ≤ c.toNat && c.toNat < 127
  decimal c := if c.isDigit then some (c.toNat - 48) else none
  decimal_ascii _ _ := rfl
  memory := 1000

def ada : Membership where
  id := 2
  user := { id := 1, username := "ada", email := none }
  organization := { slug := some "lab", name := some "-" }

/-- The width and the alignment may come from a variable. -/
theorem accepted_renders_filled :
    Renders asciiUnicode "\x7busername:\x7borg_name\x7d<6\x7d@\x7borg_slug\x7d" ada := by
  let spec := "\x7borg_name\x7d<6".toList
  have hparse : parse "\x7busername:\x7borg_name\x7d<6\x7d@\x7borg_slug\x7d".toList =
      .ok [⟨[], some ⟨"username".toList, none, spec⟩⟩, ⟨['@'], some ⟨"org_slug".toList, none, []⟩⟩] := rfl
  have hfilled : fillIn (build asciiUnicode stringsOnly (buildEmailVariables ada) 1) spec = .ok "-<6".toList := rfl
  have hwidth : StrSpec asciiUnicode "-<6".toList 6 none :=
    @StrSpec.mk _ ['-', '<'] ['6'] [] [] _ (.filled '-' (by simp)) ⟨by simp [asciiUnicode], by decide +kernel⟩ .all (.inl rfl)
  refine (accepted_renders_iff _ _ (by decide +kernel)).mpr fun pieces hpieces => ?_
  obtain rfl := Except.ok.inj (hparse.symm.trans hpieces)
  refine ⟨[6, 4], .cons ⟨6,
    ⟨by simp [IsConversion], "ada".toList, _, _, 6, none, rfl, rfl, filled_of_fillIn hfilled, hwidth, rfl⟩, rfl⟩
    (.cons ⟨3, ⟨by simp [IsConversion], "lab".toList, _, [], 0, none, rfl, rfl, .inl ⟨by simp, rfl⟩, strSpec_nil, rfl⟩,
      rfl⟩ .nil), by decide⟩

theorem a_number_code_is_accepted :
    ¬ ∀ (template : String) (membership : Membership), validateEmailTemplate asciiUnicode template = .ok () →
      Renders asciiUnicode template membership := by
  intro h
  obtain ⟨email, hemail⟩ := h "\x7busername:d\x7d" ada (by decide +kernel)
  have hraised : (resolveEmail asciiUnicode stringsOnly ada (some "\x7busername:d\x7d")).isOk
    = false := by decide +kernel
  rw [hemail stringsOnly ada rfl] at hraised
  cases hraised

end Lok.EmailTemplates
