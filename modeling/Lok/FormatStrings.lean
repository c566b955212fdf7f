import Mathlib.Algebra.GroupWithZero.Nat
import Lok.Checks
import Lok.Text

/-!
# Format strings

The language of `str.format`: literal text and replacement fields, each with a name to look up, a
conversion, and a format spec that may hold fields again. A string is read a character at a time. What a
field may reach beyond the strings it is given, the attributes of objects, is a parameter, and so is what
Unicode says of a character and how much text there is memory for.
-/

namespace FormatStrings

open Checks

/-! ## Unicode -/

structure Unicode where
  printable : Char → Bool
  /-- The value of a decimal digit. -/
  decimal : Char → Option Nat
  decimal_ascii : ∀ c, Text.isAscii c = true → decimal c = if c.isDigit then some (c.toNat - 48) else none
  /-- The most characters there is memory for. -/
  memory : Nat

variable (unicode : Unicode)

/-- An integer of decimal digits, of whatever script. -/
def readInteger (s : List Char) : Option Nat :=
  if s.isEmpty then none else s.foldlM (fun n c => (unicode.decimal c).map (10 * n + ·)) 0

/-! ## Reading a string -/

structure Field where
  name : List Char
  conversion : Option Char
  spec : List Char

structure Piece where
  literal : List Char
  field : Option Field

/-- Where in the string the reading is, and what it has of the piece. -/
inductive Scan
  | literal (text : List Char)
  | opened (text : List Char)
  | closed (text : List Char)
  | name (text name : List Char)
  | bracket (text name : List Char)
  | conversion (text name : List Char)
  | converted (text name : List Char) (conversion : Char)
  | spec (text name : List Char) (conversion : Option Char) (spec : List Char) (depth : Nat)

/-- A character of a field's name: the reading goes on, or the field is complete. -/
def scanName (text name : List Char) (c : Char) : Except String (Piece ⊕ Scan) :=
  if c = '{' then .error "unexpected '\x7b' in field name"
  else if c = '[' then .ok (.inr (.bracket text (name ++ [c])))
  else if c = '}' then .ok (.inl ⟨text, some ⟨name, none, []⟩⟩)
  else if c = ':' then .ok (.inr (.spec text name none [] 1))
  else if c = '!' then .ok (.inr (.conversion text name))
  else .ok (.inr (.name text (name ++ [c])))

def scan : Scan → Char → Except String (Piece ⊕ Scan)
  | .literal text, c =>
    if c = '{' then .ok (.inr (.opened text)) else if c = '}' then .ok (.inr (.closed text))
    else .ok (.inr (.literal (text ++ [c])))
  | .opened text, c => if c = '{' then .ok (.inl ⟨text ++ [c], none⟩) else scanName text [] c
  | .closed text, c =>
    if c = '}' then .ok (.inl ⟨text ++ [c], none⟩) else .error "Single '\x7d' encountered in format string"
  | .name text name, c => scanName text name c
  | .bracket text name, c => .ok (.inr (if c = ']' then .name text (name ++ [c]) else .bracket text (name ++ [c])))
  | .conversion text name, c => .ok (.inr (.converted text name c))
  | .converted text name conversion, c =>
    if c = '}' then .ok (.inl ⟨text, some ⟨name, some conversion, []⟩⟩)
    else if c = ':' then .ok (.inr (.spec text name (some conversion) [] 1))
    else .error "expected ':' after conversion specifier"
  | .spec text name conversion spec depth, c =>
    if c = '{' then .ok (.inr (.spec text name conversion (spec ++ [c]) (depth + 1)))
    else if c = '}' then
      if depth = 1 then .ok (.inl ⟨text, some ⟨name, conversion, spec⟩⟩)
      else .ok (.inr (.spec text name conversion (spec ++ [c]) (depth - 1)))
    else .ok (.inr (.spec text name conversion (spec ++ [c]) depth))

def scanEnd : Scan → Except String (List Piece)
  | .literal text => .ok (if text.isEmpty then [] else [⟨text, none⟩])
  | .opened _ => .error "Single '\x7b' encountered in format string"
  | .closed _ => .error "Single '\x7d' encountered in format string"
  | .name _ _ | .bracket _ _ => .error "expected '\x7d' before end of string"
  | .conversion _ _ => .error "end of string while looking for conversion specifier"
  | .converted _ _ _ | .spec _ _ _ _ _ => .error "unmatched '\x7b' in format spec"

def parseFrom : Scan → List Char → Except String (List Piece)
  | state, [] => scanEnd state
  | state, c :: s => do
    match ← scan state c with
    | .inl piece => return piece :: (← parseFrom (.literal []) s)
    | .inr state => parseFrom state s

def parse (s : List Char) : Except String (List Piece) := parseFrom (.literal []) s

/-! ## Names -/

inductive Access
  | getattr (name : List Char)
  | getitem (name : List Char)

inductive PathScan
  | start
  | attr (name : List Char)
  | item (name : List Char)

def access (make : List Char → Access) (name : List Char) : Except String Access :=
  if name.isEmpty then .error "Empty attribute in format string" else .ok (make name)

/-- What follows the first part of a name: attributes after a dot and items in brackets. -/
def parsePath : PathScan → List Char → Except String (List Access)
  | .start, [] => .ok []
  | .attr name, [] => return [← access .getattr name]
  | .item _, [] => .error "Missing ']' in format string"
  | .start, c :: s =>
    if c = '.' then parsePath (.attr []) s else if c = '[' then parsePath (.item []) s
    else .error "Only '.' or '[' may follow ']' in format field specifier"
  | .attr name, c :: s => do
    if c = '.' then return (← access .getattr name) :: (← parsePath (.attr []) s)
    if c = '[' then return (← access .getattr name) :: (← parsePath (.item []) s)
    parsePath (.attr (name ++ [c])) s
  | .item name, c :: s => do
    if c = ']' then return (← access .getitem name) :: (← parsePath .start s)
    parsePath (.item (name ++ [c])) s

def startsPath (c : Char) : Bool := c == '.' || c == '['

def firstName (name : List Char) : List Char := name.takeWhile fun c => !startsPath c

def namePath (name : List Char) : Except String (List Access) :=
  parsePath .start (name.dropWhile fun c => !startsPath c)

/-! ## Values -/

inductive Value (Obj : Type)
  | str (s : List Char)
  | other (o : Obj)

/-- What the interpreter has beyond the strings: what attributes and items of objects are, and how objects
are shown. -/
structure Interpreter where
  Obj : Type
  getattr : Value Obj → List Char → Except String (Value Obj)
  getitem : Obj → List Char → Except String (Value Obj)
  convert : Char → Obj → Except String (List Char)
  format : Obj → List Char → Except String (List Char)

/-- One in which there is nothing but strings. -/
def stringsOnly : Interpreter where
  Obj := Empty
  getattr _ _ := .error "object has no attribute"
  getitem o := nomatch o
  convert _ o := nomatch o
  format o := nomatch o

/-! ## Conversions -/

def hex (width n : Nat) : List Char :=
  let digits := Nat.toDigits 16 n
  List.replicate (width - digits.length) '0' ++ digits

/-- `\x..`, `\u....` or `\U........`. -/
def escaped (c : Char) : List Char :=
  if c.toNat < 0x100 then '\\' :: 'x' :: hex 2 c.toNat
  else if c.toNat < 0x10000 then '\\' :: 'u' :: hex 4 c.toNat
  else '\\' :: 'U' :: hex 8 c.toNat

def reprChar (quote c : Char) : List Char :=
  if c = quote || c = '\\' then ['\\', c]
  else if c = '\t' then ['\\', 't']
  else if c = '\n' then ['\\', 'n']
  else if c = '\r' then ['\\', 'r']
  else if c.toNat < 32 || c.toNat = 127 then escaped c
  else if c.toNat < 127 || unicode.printable c then [c]
  else escaped c

/-- `repr`, of a string. -/
def repr (s : List Char) : List Char :=
  let quote := if s.contains '\'' && !s.contains '"' then '"' else '\''
  quote :: s.flatMap (reprChar unicode quote) ++ [quote]

/-- `ascii`, of a string. -/
def ascii (s : List Char) : List Char := (repr unicode s).flatMap fun c => if c.toNat < 128 then [c] else escaped c

def unknownConversion (c : Char) : String :=
  if 32 < c.toNat && c.toNat < 127 then s!"Unknown conversion specifier {c}"
  else s!"Unknown conversion specifier \\x{String.ofList (Nat.toDigits 16 c.toNat)}"

/-- A conversion of a string; a null character is none at all. -/
def convertStr (c : Char) (s : List Char) : Except String (List Char) :=
  if c = 's' || c.toNat = 0 then .ok s
  else if c = 'r' then .ok (repr unicode s)
  else if c = 'a' then .ok (ascii unicode s)
  else .error (unknownConversion c)

/-! ## Format specs -/

def isAlign (c : Char) : Bool := c == '<' || c == '>' || c == '=' || c == '^'

def isSign (c : Char) : Bool := c == ' ' || c == '+' || c == '-'

structure Spec where
  fill : Char
  align : Char
  sign : Bool
  noNegZero : Bool
  alternate : Bool
  width : Option Nat
  separators : Bool
  precision : Option Nat
  type : Char

/-- The fill character, if there is one, and the alignment. -/
def takeAlign : List Char → (Option Char × Option Char) × List Char
  | f :: a :: s =>
    if isAlign a then ((some f, some a), s) else if isAlign f then ((none, some f), a :: s) else
      ((none, none), f :: a :: s)
  | [a] => if isAlign a then ((none, some a), []) else ((none, none), [a])
  | [] => ((none, none), [])

/-- The next character, if it is such a one. -/
def takeIf (p : Char → Bool) : List Char → Bool × List Char
  | [] => (false, [])
  | c :: s => if p c then (true, s) else (false, c :: s)

def maxSize : Nat := 0x7fffffffffffffff

def takeInteger (s : List Char) : Except String (Option Nat × List Char) := do
  let digits := s.takeWhile fun c => (unicode.decimal c).isSome
  let n := readInteger unicode digits
  require (n.all (· ≤ maxSize)) "Too many decimal digits in format string"
  return (n, s.dropWhile fun c => (unicode.decimal c).isSome)

def takePrecision (s : List Char) : Except String (Option Nat × List Char) :=
  match takeIf (· == '.') s with
  | (false, s) => .ok (none, s)
  | (true, s) => do
    let (n, s) ← takeInteger unicode s
    require n.isSome "Format specifier missing precision"
    return (n, s)

/-- What `,` and `_` there are. -/
def takeSeparators (s : List Char) : Except String (Bool × List Char) := do
  let (comma, s) := takeIf (· == ',') s
  let (underscore, s) := takeIf (· == '_') s
  require (!(comma && underscore || underscore && (takeIf (· == ',') s).1)) "Cannot specify both ',' and '_'."
  return (comma || underscore, s)

/-- `parse_internal_render_format_spec`, for a string. -/
def parseSpec (s : List Char) : Except String Spec := do
  let ((fill, align), s) := takeAlign s
  let (sign, s) := takeIf isSign s
  let (noNegZero, s) := takeIf (· == 'z') s
  let (alternate, s) := takeIf (· == '#') s
  let (zero, s) := if fill.isSome then (false, s) else takeIf (· == '0') s
  let (width, s) ← takeInteger unicode s
  let (separators, s) ← takeSeparators s
  let (precision, s) ← takePrecision unicode s
  require (s.length ≤ 1) "Invalid format specifier"
  let fill := fill.getD (if zero then '0' else ' ')
  return ⟨fill, align.getD '<', sign, noNegZero, alternate, width, separators, precision, s.headD 's'⟩

/-- What there is to pad on the left and on the right. -/
def padding (align : Char) (missing : Nat) : Nat × Nat :=
  if align = '>' then (missing, 0) else if align = '^' then (missing / 2, missing - missing / 2) else (0, missing)

/-- The characters a string takes up, of this length, when it is cut to the precision and padded to the width. -/
def paddedSize (width : Nat) (precision : Option Nat) (length : Nat) : Nat :=
  max width (min (precision.getD length) length)

def pad (spec : Spec) (s : List Char) : List Char :=
  let s := s.take (spec.precision.getD s.length)
  let (left, right) := padding spec.align (spec.width.getD 0 - s.length)
  List.replicate left spec.fill ++ s ++ List.replicate right spec.fill

/-- What a string does not take, though numbers do. -/
def Spec.forStr (spec : Spec) : Except String Unit := do
  require (!spec.separators) "Cannot specify ',' or '_' with 's'."
  require (spec.type == 's') "Unknown format code for object of type 'str'"
  require (!spec.sign) "Sign not allowed in string format specifier"
  require (!spec.noNegZero) "Negative zero coercion (z) not allowed in string format specifier"
  require (!spec.alternate) "Alternate form (#) not allowed in string format specifier"
  require (spec.align != '=') "'=' alignment not allowed in string format specifier"

/-- `str.__format__`. -/
def formatStr (s spec : List Char) : Except String (List Char) :=
  if spec.isEmpty then .ok s
  else do
    let spec ← parseSpec unicode spec
    spec.forStr
    require (paddedSize (spec.width.getD 0) spec.precision s.length ≤ unicode.memory) "MemoryError"
    return pad spec s

/-! ## Rendering -/

section

variable (interpreter : Interpreter) (vars : List Char → Option (List Char))

def getFirst (name : List Char) : Except String (List Char) := do
  require (!name.isEmpty && (readInteger unicode name).isNone) "Format string contains positional fields"
  found (vars name) (String.ofList (repr unicode name))

def follow : Value interpreter.Obj → Access → Except String (Value interpreter.Obj)
  | v, .getattr name => interpreter.getattr v name
  | .str s, .getitem name => do
    let n ← found (readInteger unicode name) "string indices must be integers, not 'str'"
    let c ← found s[n]? "string index out of range"
    return .str [c]
  | .other o, .getitem name => interpreter.getitem o name

def getField (name : List Char) : Except String (Value interpreter.Obj) := do
  let first ← getFirst unicode vars (firstName name)
  let path ← namePath name
  path.foldlM (follow unicode interpreter) (.str first)

def convert : Option Char → Value interpreter.Obj → Except String (Value interpreter.Obj)
  | none, v => .ok v
  | some c, .str s => (convertStr unicode c s).map .str
  | some c, .other o => if c.toNat = 0 then .ok (.other o) else (interpreter.convert c o).map .str

def formatValue (spec : List Char) : Value interpreter.Obj → Except String (List Char)
  | .str s => formatStr unicode s spec
  | .other o => interpreter.format o spec

def fillIn (expand : List Char → Except String (List Char)) (spec : List Char) : Except String (List Char) :=
  if spec.contains '{' then expand spec else .ok spec

def renderField (expand : List Char → Except String (List Char)) (f : Field) : Except String (List Char) := do
  let v ← getField unicode interpreter vars f.name
  let v ← convert unicode interpreter f.conversion v
  let spec ← fillIn expand f.spec
  formatValue unicode interpreter spec v

def renderPiece (expand : List Char → Except String (List Char)) (piece : Piece) : Except String (List Char) :=
  match piece.field with
  | none => .ok piece.literal
  | some f => (renderField unicode interpreter vars expand f).map (piece.literal ++ ·)

/-- `build_string`, as deep as it may go. -/
def build : Nat → List Char → Except String (List Char)
  | 0, _ => .error "Max string recursion exceeded"
  | depth + 1, s => do
    let pieces ← parse s
    let texts ← pieces.mapM (renderPiece unicode interpreter vars (build depth))
    require (texts.flatten.length ≤ unicode.memory) "MemoryError"
    return texts.flatten

def formatMap (s : List Char) : Except String (List Char) := build unicode interpreter vars 2 s

end

/-! ## The specs that strings take -/

/-- A decimal number that is not too large, if there is one. -/
def IsNumber (digits : List Char) : Prop :=
  (∀ c ∈ digits, (unicode.decimal c).isSome = true) ∧ ∀ n, readInteger unicode digits = some n → n ≤ maxSize

/-- `[[fill]align]`, with an alignment that text has. -/
inductive Alignment : List Char → Prop
  | default : Alignment []
  | align {a : Char} (h : a ∈ ['<', '>', '^']) : Alignment [a]
  | filled {a : Char} (fill : Char) (h : a ∈ ['<', '>', '^']) : Alignment [fill, a]

inductive Precision : List Char → Option Nat → Prop
  | all : Precision [] none
  | digits {digits : List Char} {n : Nat} (h : IsNumber unicode digits)
    (hn : readInteger unicode digits = some n) :
      Precision ('.' :: digits) (some n)

/-- `[[fill]align][0][width][.precision][s]`, with the width and the precision that it gives. -/
inductive StrSpec : List Char → Nat → Option Nat → Prop
  | mk {align digits precision type : List Char} {n : Option Nat} (halign : Alignment align)
      (hdigits : IsNumber unicode digits)
      (hprecision : Precision unicode precision n) (htype : type = [] ∨ type = ['s']) :
      StrSpec (align ++ (digits ++ (precision ++ type))) ((readInteger unicode digits).getD 0) n

/-! ## What fields stand for -/

section

variable (vars : List Char → Option (List Char))

def convertText : Option Char → List Char → Except String (List Char)
  | none, s => .ok s
  | some c, s => convertStr unicode c s

/-- The characters that a conversion of a string takes. -/
def IsConversion (conversion : Option Char) : Prop := ∀ c ∈ conversion, c.toNat = 0 ∨ c ∈ ['s', 'r', 'a']

/-- Items of a string, and of what they are, and no attributes. -/
inductive Picks : List Char → List Access → List Char → Prop
  | whole (s : List Char) : Picks s [] s
  | item {s name text : List Char} {n : Nat} {c : Char} {path : List Access}
      (hread : readInteger unicode name = some n)
      (hitem : s[n]? = some c) (h : Picks [c] path text) : Picks s (.getitem name :: path) text

/-- The text a field is replaced by, given what its spec may stand for. -/
inductive FieldText (Filled : List Char → List Char → Prop) : Field → List Char → Prop
  | mk {f : Field} {first picked converted spec text : List Char} {path : List Access}
      (hfirst : getFirst unicode vars (firstName f.name) = .ok first) (hpath : namePath f.name = .ok path)
      (hpicks : Picks unicode first path picked)
        (hconverted : convertText unicode f.conversion picked = .ok converted)
      (hspec : Filled f.spec spec) (htext : formatStr unicode converted spec = .ok text) : FieldText Filled f text

inductive PieceText (Filled : List Char → List Char → Prop) : Piece → List Char → Prop
  | literal (text : List Char) : PieceText Filled ⟨text, none⟩ text
  | field {literal text : List Char} {f : Field} (h : FieldText unicode vars Filled f text) :
      PieceText Filled ⟨literal, some f⟩ (literal ++ text)

/-- What a spec stands for when the fields in it are replaced, and the fields in theirs, to a depth. -/
def Filled : Nat → List Char → List Char → Prop
  | 0, spec, text => '{' ∉ spec ∧ text = spec
  | depth + 1, spec, text =>
    '{' ∉ spec ∧ text = spec ∨
      '{' ∈ spec ∧ ∃ pieces texts, parse spec = .ok pieces
        ∧ List.Forall₂ (PieceText unicode vars (Filled depth)) pieces texts ∧
        text = texts.flatten ∧ text.length ≤ unicode.memory

end

/-! ## Reading a spec -/

/-- The characters before the digits of a spec, and those around its separators. -/
def marks : List Char := ['<', '>', '=', '^', ' ', '+', '-', 'z', '#', ',', '_']

variable {unicode}

theorem decimal_none {c : Char} (hascii : Text.isAscii c = true) (hdigit : c.isDigit = false) :
    unicode.decimal c = none := by
  rw [unicode.decimal_ascii c hascii, hdigit, if_neg Bool.false_ne_true]

theorem mark_is_none (unicode : Unicode) {c : Char} (h : c ∈ marks) :
    unicode.decimal c = none ∧ c ≠ '.' ∧ c ≠ 's' := by
  have hall : marks.all (fun c => Text.isAscii c && !c.isDigit && c != '.' && c != 's') = true := by decide
  have hc := List.all_eq_true.mp hall c h
  simp only [Bool.and_eq_true, Bool.not_eq_true', bne_iff_ne] at hc
  obtain ⟨⟨⟨hascii, hdigit⟩, hdot⟩, hs⟩ := hc
  exact ⟨decimal_none hascii hdigit, hdot, hs⟩

theorem takeIf_of_head {p : Char → Bool} {s : List Char} (h : ∀ c ∈ s.head?, p c = false) :
    takeIf p s = (false, s) := by
  cases s with
  | nil => rfl
  | cons c s => simp [takeIf, h c (by simp)]

theorem takeIf_false {p : Char → Bool} {s rest : List Char} (h : takeIf p s = (false, rest)) :
    s = rest ∧ ∀ c ∈ rest.head?, p c = false := by
  cases s with
  | nil => simp [takeIf] at h; simp [h]
  | cons c s =>
    by_cases hc : p c = true
    · simp [takeIf, hc] at h
    · simp [takeIf, hc] at h
      simp [← h, hc]

theorem takeIf_true {c : Char} {s rest : List Char} (h : takeIf (· == c) s = (true, rest)) : s = c :: rest := by
  cases s with
  | nil => simp [takeIf] at h
  | cons a s =>
    by_cases hc : a = c
    · simp [takeIf, hc] at h
      rw [hc, h]
    · simp [takeIf, hc] at h

/-! ### Numbers -/

theorem takeInteger_ok {s rest : List Char} {n : Option Nat} :
    takeInteger unicode s = .ok (n, rest) ↔
      ∃ digits, s = digits ++ rest ∧ IsNumber unicode digits ∧ n = readInteger unicode digits ∧
        ∀ c ∈ rest.head?, unicode.decimal c = none := by
  have hsome : ∀ c, (unicode.decimal c).isSome = false ↔ unicode.decimal c = none := by simp
  constructor
  · intro h
    simp only [takeInteger, bind_ok, require_ok, exists_unit, pure_ok, Prod.mk.injEq] at h
    obtain ⟨hmax, hn, hrest⟩ := h
    refine ⟨s.takeWhile fun c => (unicode.decimal c).isSome, ?_, ⟨?_, ?_⟩, hn.symm, ?_⟩
    · rw [← hrest, List.takeWhile_append_dropWhile]
    · exact List.all_eq_true.mp List.all_takeWhile
    · intro k hk
      simpa [hk] using hmax
    · intro c hc
      have hnot := List.head?_dropWhile_not (fun c => (unicode.decimal c).isSome) s
      rw [hrest, Option.mem_def.mp hc] at hnot
      simpa using hnot
  · rintro ⟨digits, rfl, ⟨hdigits, hmax⟩, rfl, hrest⟩
    have htake : (digits ++ rest).takeWhile (fun c => (unicode.decimal c).isSome) = digits := by
      rw [List.takeWhile_append_of_pos hdigits]
      cases rest with
      | nil => simp
      | cons c rest => simp [hrest c (by simp)]
    have hdrop : (digits ++ rest).dropWhile (fun c => (unicode.decimal c).isSome) = rest := by
      rw [List.dropWhile_append_of_pos hdigits]
      cases rest with
      | nil => simp
      | cons c rest => simp [hrest c (by simp)]
    simp only [takeInteger, htake, hdrop, bind_ok, require_ok, exists_unit, pure_ok, and_true]
    cases hn : readInteger unicode digits with
    | none => rfl
    | some k => simpa using hmax k hn

theorem decimal_zero : unicode.decimal '0' = some 0 := by
  rw [unicode.decimal_ascii '0' (by decide)]
  rfl

theorem readInteger_zero (digits : List Char) :
    readInteger unicode ('0' :: digits) = if digits.isEmpty then some 0 else readInteger unicode digits := by
  cases digits with
  | nil => simp [readInteger, decimal_zero]
  | cons c digits => simp [readInteger, decimal_zero]

theorem getD_zero (digits : List Char) :
    (readInteger unicode ('0' :: digits)).getD 0 = (readInteger unicode digits).getD 0 := by
  rw [readInteger_zero]
  cases digits <;> rfl

theorem isNumber_zero {digits : List Char} : IsNumber unicode ('0' :: digits) ↔ IsNumber unicode digits := by
  have hread : readInteger unicode ('0' :: digits) = _ := readInteger_zero digits
  have hnil : readInteger unicode [] = none := rfl
  unfold IsNumber
  rw [hread]
  cases digits with
  | nil => simp [hnil, decimal_zero]
  | cons c digits => simp [decimal_zero]

theorem isNumber_nil : IsNumber unicode [] := by
  simp [IsNumber, readInteger]

/-! ### Alignments -/

theorem takeAlign_alignment {align rest : List Char} (h : Alignment align)
    (hrest : ∀ c ∈ rest.take 2, isAlign c = false) :
    ∃ fill a, takeAlign (align ++ rest) = ((fill, a), rest) ∧ a ≠ some '=' := by
  have hstart : ∀ a ∈ ['<', '>', '^'], isAlign a = true ∧ a ≠ '=' := by simp [isAlign]
  cases h with
  | default =>
    refine ⟨none, none, ?_, by simp⟩
    rcases rest with _ | ⟨f, _ | ⟨a, s⟩⟩
    · rfl
    · simp [takeAlign, hrest f (by simp)]
    · simp [takeAlign, hrest f (by simp), hrest a (by simp)]
  | align ha =>
    obtain ⟨halign, hne⟩ := hstart _ ha
    refine ⟨none, some _, ?_, fun heq => hne (Option.some.inj heq)⟩
    cases rest with
    | nil => simp [takeAlign, halign]
    | cons c s => simp [takeAlign, halign, hrest c (by simp)]
  | filled fill ha =>
    obtain ⟨halign, hne⟩ := hstart _ ha
    refine ⟨some fill, some _, ?_, fun heq => hne (Option.some.inj heq)⟩
    simp [takeAlign, halign]

theorem isAlign_text {a : Char} (h : isAlign a = true) (hne : a ≠ '=') : a ∈ ['<', '>', '^'] := by
  simp [isAlign] at h ⊢
  tauto

theorem alignment_of_takeAlign {s rest : List Char} {fill a : Option Char} (h : takeAlign s = ((fill, a), rest))
    (hne : a ≠ some '=') : ∃ align, s = align ++ rest ∧ Alignment align := by
  rcases s with _ | ⟨f, _ | ⟨c, s⟩⟩
  · simp [takeAlign] at h
    exact ⟨[], by simp [h], .default⟩
  · by_cases hc : isAlign f = true
    · simp [takeAlign, hc] at h
      have ha : f ≠ '=' := fun heq => hne (by rw [← h.1.2, heq])
      exact ⟨[f], by simp [← h.2], .align (isAlign_text hc ha)⟩
    · simp [takeAlign, hc] at h
      exact ⟨[], by simp [← h.2], .default⟩
  · by_cases hc : isAlign c = true
    · simp [takeAlign, hc] at h
      have ha : c ≠ '=' := fun heq => hne (by rw [← h.1.2, heq])
      exact ⟨[f, c], by simp [← h.2], .filled f (isAlign_text hc ha)⟩
    · by_cases hf : isAlign f = true
      · simp [takeAlign, hc, hf] at h
        have ha : f ≠ '=' := fun heq => hne (by rw [← h.1.2, heq])
        exact ⟨[f], by simp [← h.2], .align (isAlign_text hf ha)⟩
      · simp [takeAlign, hc, hf] at h
        exact ⟨[], by simp [← h.2], .default⟩

/-! ### Specs -/

theorem takeSeparators_none {s rest : List Char} (h : takeSeparators s = .ok (false, rest)) :
    s = rest := by
  rcases hcomma : takeIf (· == ',') s with ⟨comma, afterComma⟩
  rcases hunder : takeIf (· == '_') afterComma with ⟨underscore, afterUnder⟩
  simp only [takeSeparators, hcomma, hunder, bind_ok, require_ok, exists_unit, pure_ok, Prod.mk.injEq,
    Bool.or_eq_false_iff] at h
  obtain ⟨-, ⟨rfl, rfl⟩, rfl⟩ := h
  rw [(takeIf_false hcomma).1, (takeIf_false hunder).1]

theorem precision_of_take {s rest : List Char} {n : Option Nat} (h : takePrecision unicode s = .ok (n, rest)) :
    ∃ precision, s = precision ++ rest ∧ Precision unicode precision n := by
  rcases hdot : takeIf (· == '.') s with ⟨_ | _, afterDot⟩
  · simp only [takePrecision, hdot, Except.ok.injEq, Prod.mk.injEq] at h
    exact ⟨[], by rw [(takeIf_false hdot).1, h.2]; rfl, h.1 ▸ .all⟩
  · simp only [takePrecision, hdot, bind_ok, Prod.exists, require_ok, exists_unit, pure_ok, Prod.mk.injEq] at h
    obtain ⟨k, after, htake, hsome, rfl, rfl⟩ := h
    obtain ⟨digits, rfl, hnumber, rfl, -⟩ := takeInteger_ok.mp htake
    obtain ⟨n, hn⟩ := Option.isSome_iff_exists.mp hsome
    exact ⟨'.' :: digits, by rw [takeIf_true hdot]; rfl, hn ▸ .digits hnumber hn⟩

theorem strSpec_of_parse {s : List Char} {spec : Spec} (h : parseSpec unicode s = .ok spec)
    (hstr : spec.forStr = .ok ()) :
    StrSpec unicode s (spec.width.getD 0) spec.precision := by
  rcases halign : takeAlign s with ⟨⟨fill, align⟩, afterAlign⟩
  rcases hsign : takeIf isSign afterAlign with ⟨sign, afterSign⟩
  rcases hz : takeIf (· == 'z') afterSign with ⟨noNegZero, afterZ⟩
  rcases hsharp : takeIf (· == '#') afterZ with ⟨alternate, afterSharp⟩
  rcases hzero : (if fill.isSome then (false, afterSharp) else takeIf (· == '0') afterSharp) with ⟨zero, afterZero⟩
  simp only [parseSpec, halign, hsign, hz, hsharp, hzero, bind_ok, Prod.exists, require_ok,
    exists_unit, pure_ok] at h
  obtain ⟨width, afterWidth, hwidth, separators, afterSeparators, hseparators, precision, type, hprecision,
    hlength, rfl⟩ := h
  simp only [Spec.forStr, bind_ok, require_ok, exists_unit, Bool.not_eq_true', beq_iff_eq, bne_iff_ne] at hstr
  obtain ⟨rfl, htype, rfl, rfl, rfl, hne⟩ := hstr
  have heqs : afterAlign = afterSharp := by
    rw [(takeIf_false hsign).1, (takeIf_false hz).1, (takeIf_false hsharp).1]
  obtain ⟨align, rfl, halignment⟩ := alignment_of_takeAlign halign (by rintro rfl; exact hne rfl)
  obtain ⟨digits, rfl, hdigits, rfl, -⟩ := takeInteger_ok.mp hwidth
  obtain ⟨precision, hprec, hprecision⟩ := precision_of_take hprecision
  have htypes : type = [] ∨ type = ['s'] := by
    rcases type with _ | ⟨c, _ | ⟨d, more⟩⟩
    · exact .inl rfl
    · exact .inr (by simpa using htype)
    · simp at hlength
  -- a zero read as the fill belongs to the digits all the same
  have hzeros : ∃ zeros, afterSharp = zeros ++ afterWidth ∧ IsNumber unicode zeros
      ∧ (readInteger unicode zeros).getD 0 = (readInteger unicode digits).getD 0 := by
    by_cases hfill : fill.isSome = true
    · simp only [hfill, if_true, Prod.mk.injEq] at hzero
      exact ⟨digits, hzero.2, hdigits, rfl⟩
    · rw [if_neg hfill] at hzero
      cases zero with
      | false => exact ⟨digits, (takeIf_false hzero).1, hdigits, rfl⟩
      | true => exact ⟨'0' :: digits, takeIf_true hzero, isNumber_zero.mpr hdigits, getD_zero digits⟩
  obtain ⟨zeros, hzeros, hnumber, hsame⟩ := hzeros
  rw [heqs, hzeros, takeSeparators_none hseparators, hprec]
  dsimp only
  rw [← hsame]
  exact .mk halignment hnumber hprecision htypes

theorem tail_chars {digits precision type : List Char} {n : Option Nat} (hdigits : IsNumber unicode digits)
    (hprecision : Precision unicode precision n) (htype : type = [] ∨ type = ['s']) {c : Char}
    (hc : c ∈ digits ++ (precision ++ type)) : c ∉ marks := by
  intro hmark
  obtain ⟨hnone, hdot, hs⟩ := mark_is_none unicode hmark
  have hdec : ∀ {digits : List Char}, IsNumber unicode digits → c ∉ digits := by
    intro digits hnumber hmem
    simpa [hnone] using hnumber.1 c hmem
  rcases List.mem_append.mp hc with hmem | hmem
  · exact hdec hdigits hmem
  · rcases List.mem_append.mp hmem with hmem | hmem
    · cases hprecision with
      | all => simp at hmem
      | digits hnumber _ =>
        rcases List.mem_cons.mp hmem with heq | hmem
        · exact hdot heq
        · exact hdec hnumber hmem
    · rcases htype with rfl | rfl
      · simp at hmem
      · exact hs (by simpa using hmem)

theorem takePrecision_ok {precision type : List Char} {n : Option Nat} (hprecision : Precision unicode precision n)
    (htype : type = [] ∨ type = ['s']) : takePrecision unicode (precision ++ type) = .ok (n, type) := by
  have hs : ∀ c ∈ type.head?, c = 's' := by
    intro c hc
    rcases htype with rfl | rfl
    · simp at hc
    · simpa using hc.symm
  cases hprecision with
  | all =>
    have htake : takeIf (· == '.') type = (false, type) := takeIf_of_head fun c hc => by rw [hs c hc]; rfl
    rw [takePrecision, List.nil_append, htake]
  | @digits digits n hnumber hn =>
    have hnone : unicode.decimal 's' = none := decimal_none (by decide) (by decide)
    have htake : takeInteger unicode (digits ++ type) = .ok (readInteger unicode digits, type) :=
      takeInteger_ok.mpr ⟨digits, rfl, hnumber, rfl, fun c hc => by rw [hs c hc, hnone]⟩
    simp only [takePrecision, List.cons_append, takeIf, beq_self_eq_true, if_true, htake, hn,
      bind_ok, Prod.exists, require_ok,
      exists_unit, pure_ok]
    exact ⟨_, _, rfl, rfl, rfl⟩

theorem precision_head {precision type : List Char} {n : Option Nat} (hprecision : Precision unicode precision n)
    (htype : type = [] ∨ type = ['s']) : ∀ c ∈ (precision ++ type).head?, c = '.' ∨ c = 's' := by
  intro c hc
  cases hprecision with
  | all => rcases htype with rfl | rfl <;> simp at hc; exact .inr hc.symm
  | digits => exact .inl (by simpa using hc.symm)

theorem takeZero {digits rest : List Char} (hdigits : IsNumber unicode digits)
    (hrest : ∀ c ∈ rest.head?, c = '.' ∨ c = 's') :
    ∃ zero more, takeIf (· == '0') (digits ++ rest) = (zero, more ++ rest) ∧ IsNumber unicode more
      ∧ (readInteger unicode more).getD 0 = (readInteger unicode digits).getD 0 := by
  cases digits with
  | nil =>
    refine ⟨false, [], takeIf_of_head fun c hc => ?_, isNumber_nil, rfl⟩
    rcases hrest c hc with rfl | rfl <;> rfl
  | cons c digits =>
    by_cases hc : c = '0'
    · subst hc
      exact ⟨true, digits, rfl, isNumber_zero.mp hdigits, (getD_zero digits).symm⟩
    · exact ⟨false, c :: digits, by simp [takeIf, hc], hdigits, rfl⟩

theorem parse_of_strSpec {s : List Char} {width : Nat} {precision : Option Nat}
    (h : StrSpec unicode s width precision) :
    ∃ spec, parseSpec unicode s = .ok spec ∧ spec.forStr = .ok () ∧ spec.width.getD 0 = width
    ∧ spec.precision = precision := by
  obtain ⟨halign, hdigits, hprecision, htype⟩ := h
  rename_i align digits text type
  have htail : ∀ {c : Char}, c ∈ digits ++ (text ++ type) → c ∉ marks := tail_chars hdigits hprecision htype
  have hhead := precision_head hprecision htype
  have hskip : ∀ {p : Char → Bool} {rest : List Char}, (∀ c, p c = true → c ∈ marks) →
      (∀ c ∈ rest, c ∈ digits ++ (text ++ type)) → takeIf p rest = (false, rest) := by
    intro p rest hp hsub
    refine takeIf_of_head fun c hc => Bool.eq_false_iff.mpr fun hpc => ?_
    exact htail (hsub c (List.mem_of_mem_head? hc)) (hp c hpc)
  obtain ⟨fill, a, htake, hne⟩ := @takeAlign_alignment _ (digits ++ (text ++ type)) halign fun c hc =>
    Bool.eq_false_iff.mpr fun hac => htail (List.mem_of_mem_take hc)
      (by simp [isAlign] at hac; simp [marks]; tauto)
  have hsign : takeIf isSign (digits ++ (text ++ type)) = (false, digits ++ (text ++ type)) :=
    hskip (by simp [isSign, marks]; tauto) fun _ hc => hc
  have hz : takeIf (· == 'z') (digits ++ (text ++ type)) = (false, digits ++ (text ++ type)) :=
    hskip (by simp [marks]) fun _ hc => hc
  have hsharp : takeIf (· == '#') (digits ++ (text ++ type)) = (false, digits ++ (text ++ type)) :=
    hskip (by simp [marks]) fun _ hc => hc
  have hcomma : takeIf (· == ',') (text ++ type) = (false, text ++ type) :=
    hskip (by simp [marks]) fun _ hc => List.mem_append_right _ hc
  have hunder : takeIf (· == '_') (text ++ type) = (false, text ++ type) :=
    hskip (by simp [marks]) fun _ hc => List.mem_append_right _ hc
  have hseparators : takeSeparators (text ++ type) = .ok (false, text ++ type) := by
    simp [takeSeparators, hcomma, hunder, require]
  obtain ⟨zero, more, hzero, hmore, hsame⟩ : ∃ zero more,
      (if fill.isSome then (false, digits ++ (text ++ type)) else takeIf (· == '0') (digits ++ (text ++ type))) =
        (zero, more ++ (text ++ type)) ∧ IsNumber unicode more
        ∧ (readInteger unicode more).getD 0 = (readInteger unicode digits).getD 0 := by
    by_cases hfill : fill.isSome = true
    · exact ⟨false, digits, by rw [if_pos hfill], hdigits, rfl⟩
    · rw [if_neg hfill]
      exact takeZero hdigits hhead
  have hwidth : takeInteger unicode (more ++ (text ++ type)) = .ok (readInteger unicode more, text ++ type) := by
    refine takeInteger_ok.mpr ⟨more, rfl, hmore, rfl, fun c hc => ?_⟩
    rcases hhead c hc with rfl | rfl
    · exact decimal_none (by decide) (by decide)
    · exact decimal_none (by decide) (by decide)
  have hprec := takePrecision_ok hprecision htype
  have hlength : type.length ≤ 1 := by rcases htype with rfl | rfl <;> simp
  have hs : type.headD 's' = 's' := by rcases htype with rfl | rfl <;> rfl
  let padding := fill.getD (if zero then '0' else ' ')
  refine ⟨⟨padding, a.getD '<', false, false, false, readInteger unicode more, false, precision, 's'⟩,
    ?_, ?_, hsame, rfl⟩
  · simp only [parseSpec, htake, hsign, hz, hsharp, hzero, bind_ok, Prod.exists, require_ok, exists_unit, pure_ok]
    exact ⟨_, _, hwidth, _, _, hseparators, _, _, hprec, by simpa using hlength, by rw [hs]⟩
  · simp only [Spec.forStr, bind_ok, require_ok, exists_unit]
    refine ⟨rfl, rfl, rfl, rfl, rfl, ?_⟩
    cases a with
    | none => rfl
    | some a => simpa using fun heq => hne (by rw [heq])

theorem pad_length (spec : Spec) (s : List Char) :
    (pad spec s).length = paddedSize (spec.width.getD 0) spec.precision s.length := by
  have htake : (s.take (spec.precision.getD s.length)).length = min (spec.precision.getD s.length) s.length :=
    List.length_take
  have hpadding : ∀ missing, (padding spec.align missing).1 + (padding spec.align missing).2 = missing := by
    intro missing
    unfold padding
    split
    · rfl
    · split <;> dsimp only <;> omega
  have hsum := hpadding (spec.width.getD 0 - (s.take (spec.precision.getD s.length)).length)
  simp only [pad, paddedSize, List.length_append, List.length_replicate] at hsum ⊢
  omega

theorem strSpec_nil : StrSpec unicode [] 0 none :=
  @StrSpec.mk unicode [] [] [] [] none .default isNumber_nil .all (.inl rfl)

/-- The specs with which a string can be formatted, whatever the string, and how long it gets. -/
theorem formatStr_ok {s spec : List Char} {n : Nat} (hmemory : n ≤ unicode.memory) :
    (∃ text, formatStr unicode s spec = .ok text ∧ text.length = n) ↔
      ∃ width precision, StrSpec unicode spec width precision ∧ n = paddedSize width precision s.length := by
  have hwhole : paddedSize 0 none s.length = s.length := by simp [paddedSize]
  constructor
  · rintro ⟨text, h, hn⟩
    by_cases hempty : spec.isEmpty = true
    · rw [formatStr, if_pos hempty] at h
      cases h
      rw [List.isEmpty_iff.mp hempty]
      exact ⟨0, none, strSpec_nil, by rw [hwhole, hn]⟩
    · rw [formatStr, if_neg hempty] at h
      simp only [bind_ok, exists_unit, require_ok, pure_ok] at h
      obtain ⟨parsed, hparse, hstr, -, rfl⟩ := h
      exact ⟨_, _, strSpec_of_parse hparse hstr, by rw [← hn, pad_length]⟩
  · rintro ⟨width, precision, h, hn⟩
    obtain ⟨parsed, hparse, hstr, hwidth, hprecision⟩ := parse_of_strSpec h
    by_cases hempty : spec.isEmpty = true
    · obtain rfl := List.isEmpty_iff.mp hempty
      obtain rfl := Except.ok.inj (hparse.symm.trans (show parseSpec unicode [] = .ok _ from rfl))
      refine ⟨s, rfl, ?_⟩
      rw [hn, ← hwidth, ← hprecision]
      exact hwhole.symm
    · refine ⟨pad parsed s, ?_, by rw [pad_length, hwidth, hprecision, hn]⟩
      rw [formatStr, if_neg hempty]
      simp only [bind_ok, exists_unit, require_ok, pure_ok]
      exact ⟨parsed, hparse, hstr, by simpa [hwidth, hprecision, ← hn] using hmemory, rfl⟩

/-! ## Rendering from strings -/

variable {vars : List Char → Option (List Char)}

theorem convertText_ok {conversion : Option Char} {s : List Char} :
    (∃ text, convertText unicode conversion s = .ok text) ↔ IsConversion conversion := by
  cases conversion with
  | none => simp [convertText, IsConversion]
  | some c =>
    simp only [convertText, convertStr, IsConversion, Option.mem_some_iff, forall_eq', Bool.or_eq_true,
      decide_eq_true_eq]
    by_cases hs : c = 's' ∨ c.toNat = 0
    · simp [hs]
      tauto
    · by_cases hr : c = 'r'
      · simp [hr]
      · by_cases ha : c = 'a'
        · simp [ha]
        · simp [hs, hr, ha]
          tauto

theorem convert_str (interpreter : Interpreter) (conversion : Option Char) (s : List Char) :
    convert unicode interpreter conversion (.str s) = (convertText unicode conversion s).map .str := by
  cases conversion with
  | none => rfl
  | some c => rfl

theorem Picks.follow {s text : List Char} {path : List Access} (h : Picks unicode s path text)
    (interpreter : Interpreter) :
    path.foldlM (follow unicode interpreter) (.str s) = .ok (.str text) := by
  induction h with
  | whole s => rfl
  | item hread hitem _ ih =>
    simp only [List.foldlM_cons, FormatStrings.follow, bind_ok, found_ok]
    exact ⟨_, ⟨_, hread, _, hitem, rfl⟩, ih⟩

theorem picks_of_follow {path : List Access} {v : Value stringsOnly.Obj} {s : List Char}
    (h : path.foldlM (follow unicode stringsOnly) (.str s) = .ok v) :
    ∃ text, v = .str text ∧ Picks unicode s path text := by
  induction path generalizing s with
  | nil =>
    simp only [List.foldlM_nil, pure_ok] at h
    exact ⟨s, h.symm, .whole s⟩
  | cons access path ih =>
    simp only [List.foldlM_cons, bind_ok] at h
    obtain ⟨w, hstep, hrest⟩ := h
    cases access with
    | getattr name => simp [FormatStrings.follow, stringsOnly] at hstep
    | getitem name =>
      simp only [FormatStrings.follow, bind_ok, found_ok, pure_ok] at hstep
      obtain ⟨n, hread, c, hitem, rfl⟩ := hstep
      obtain ⟨text, rfl, hpicks⟩ := ih hrest
      exact ⟨text, rfl, .item hread hitem hpicks⟩

theorem PieceText.render {expand : List Char → Except String (List Char)} {R : List Char → List Char → Prop}
    {piece : Piece} {text : List Char} (h : PieceText unicode vars R piece text) (interpreter : Interpreter)
    (hexpand : ∀ spec text, R spec text → fillIn expand spec = .ok text) :
    renderPiece unicode interpreter vars expand piece = .ok text := by
  cases h with
  | literal text => rfl
  | field h =>
    obtain ⟨hfirst, hpath, hpicks, hconverted, hspec, htext⟩ := h
    simp only [renderPiece, renderField, getField, map_ok, bind_ok]
    refine ⟨_, ⟨_, ⟨_, hfirst, _, hpath, hpicks.follow interpreter⟩, ?_⟩, rfl⟩
    rw [convert_str, hconverted]
    exact ⟨_, rfl, _, hexpand _ _ hspec, htext⟩

theorem pieceText_of_render {expand : List Char → Except String (List Char)} {R : List Char → List Char → Prop}
    {piece : Piece} {text : List Char} (h : renderPiece unicode stringsOnly vars expand piece = .ok text)
    (hexpand : ∀ spec text, fillIn expand spec = .ok text → R spec text) :
    PieceText unicode vars R piece text := by
  obtain ⟨literal, field⟩ := piece
  cases field with
  | none =>
    simp only [renderPiece, Except.ok.injEq] at h
    rw [← h]
    exact .literal literal
  | some f =>
    simp only [renderPiece, renderField, getField, map_ok, bind_ok] at h
    obtain ⟨value, ⟨v, ⟨first, hfirst, path, hpath, hfollow⟩, converted, hconvert, spec, hspec, hformat⟩, rfl⟩ := h
    obtain ⟨picked, rfl, hpicks⟩ := picks_of_follow hfollow
    rw [convert_str] at hconvert
    obtain ⟨converted, hconverted, rfl⟩ := map_ok.mp hconvert
    exact .field (.mk hfirst hpath hpicks hconverted (hexpand _ _ hspec) hformat)

theorem Filled.fillIn {depth : Nat} {spec text : List Char} (h : Filled unicode vars depth spec text)
    (interpreter : Interpreter) : fillIn (build unicode interpreter vars depth) spec = .ok text := by
  induction depth generalizing spec text with
  | zero =>
    obtain ⟨hplain, rfl⟩ := h
    simp [FormatStrings.fillIn, hplain]
  | succ depth ih =>
    rcases h with ⟨hplain, rfl⟩ | ⟨hfields, pieces, texts, hparse, htexts, rfl, hmemory⟩
    · simp [FormatStrings.fillIn, hplain]
    · have hrender : pieces.mapM
        (renderPiece unicode interpreter vars (build unicode interpreter vars depth)) = .ok texts :=
        mapM_ok.mpr (htexts.imp fun _ _ h => h.render interpreter fun _ _ => ih)
      simp only [FormatStrings.fillIn, List.contains_iff_mem, hfields, if_true, build, bind_ok, require_ok,
        exists_unit, pure_ok]
      exact ⟨pieces, hparse, texts, hrender, by simpa using hmemory, rfl⟩

theorem filled_of_fillIn {depth : Nat} {spec text : List Char}
    (h : fillIn (build unicode stringsOnly vars depth) spec = .ok text) : Filled unicode vars depth spec text := by
  induction depth generalizing spec text with
  | zero =>
    by_cases hfields : '{' ∈ spec
    · simp [FormatStrings.fillIn, hfields, build] at h
    · simp [FormatStrings.fillIn, hfields] at h
      exact ⟨hfields, h.symm⟩
  | succ depth ih =>
    by_cases hfields : '{' ∈ spec
    · simp only [FormatStrings.fillIn, List.contains_iff_mem, hfields, if_true, build,
        bind_ok, require_ok, exists_unit,
        pure_ok] at h
      obtain ⟨pieces, hparse, texts, hrender, hmemory, rfl⟩ := h
      refine .inr ⟨hfields, pieces, texts, hparse, ?_, rfl, by simpa using hmemory⟩
      exact (mapM_ok.mp hrender).imp fun _ _ h => pieceText_of_render h fun _ _ => ih
    · simp [FormatStrings.fillIn, hfields] at h
      exact .inl ⟨hfields, h.symm⟩

/-- A format string renders, to the same text whatever objects there are, when each field has a text made of
strings alone and there is memory for them all. -/
theorem build_alike {depth : Nat} {s : List Char} :
    (∃ text, ∀ interpreter, build unicode interpreter vars (depth + 1) s = .ok text) ↔
      ∃ pieces texts, parse s = .ok pieces
      ∧ List.Forall₂ (PieceText unicode vars (Filled unicode vars depth)) pieces texts ∧
        texts.flatten.length ≤ unicode.memory := by
  have hstrings : ∀ piece text, renderPiece unicode stringsOnly vars (build unicode stringsOnly vars depth)
    piece = .ok text →
      PieceText unicode vars (Filled unicode vars depth) piece text :=
    fun _ _ h => pieceText_of_render h fun _ _ => filled_of_fillIn
  have hany : ∀ interpreter piece text, PieceText unicode vars (Filled unicode vars depth) piece text →
      renderPiece unicode interpreter vars (build unicode interpreter vars depth) piece = .ok text :=
    fun interpreter _ _ h => h.render interpreter fun _ _ hfilled => hfilled.fillIn interpreter
  constructor
  · rintro ⟨text, h⟩
    have hbuild := h stringsOnly
    simp only [build, bind_ok, require_ok, exists_unit, decide_eq_true_eq, pure_ok] at hbuild
    obtain ⟨pieces, hparse, texts, hrender, hmemory, -⟩ := hbuild
    exact ⟨pieces, texts, hparse, (mapM_ok.mp hrender).imp hstrings, hmemory⟩
  · rintro ⟨pieces, texts, hparse, htexts, hmemory⟩
    refine ⟨texts.flatten, fun interpreter => ?_⟩
    have hrender : pieces.mapM
      (renderPiece unicode interpreter vars (build unicode interpreter vars depth)) = .ok texts :=
      mapM_ok.mpr (htexts.imp (hany interpreter))
    simp only [build, bind_ok, require_ok, exists_unit, decide_eq_true_eq, pure_ok]
    exact ⟨pieces, hparse, texts, hrender, hmemory, rfl⟩

/-- Pieces have texts of a total length when they have sizes of that sum. -/
theorem texts_iff_sizes {R : Piece → List Char → Prop} {S : Piece → Nat → Prop} {pieces : List Piece}
    {memory total : Nat}
    (hsize : ∀ piece ∈ pieces, ∀ n ≤ memory, (∃ text, R piece text ∧ text.length = n) ↔ S piece n)
    (htotal : total ≤ memory) :
    (∃ texts, List.Forall₂ R pieces texts ∧ texts.flatten.length = total) ↔
      ∃ sizes, List.Forall₂ S pieces sizes ∧ sizes.sum = total := by
  induction pieces generalizing total with
  | nil => simp
  | cons piece pieces ih =>
    have ih := fun {total : Nat} => @ih total fun piece hpiece => hsize piece (List.mem_cons_of_mem _ hpiece)
    have hpiece := hsize piece (List.mem_cons_self ..)
    simp only [List.forall₂_cons_left_iff]
    constructor
    · rintro ⟨_, ⟨text, texts, htext, htexts, rfl⟩, rfl⟩
      rw [List.flatten_cons, List.length_append] at htotal ⊢
      obtain ⟨sizes, hsizes, hsum⟩ := (ih (Nat.le_of_add_left_le htotal)).mp ⟨texts, htexts, rfl⟩
      exact ⟨_, ⟨text.length, sizes, (hpiece _ (by omega)).mp ⟨text, htext, rfl⟩, hsizes,
        rfl⟩, by rw [List.sum_cons, hsum]⟩
    · rintro ⟨_, ⟨n, sizes, hn, hsizes, rfl⟩, rfl⟩
      rw [List.sum_cons] at htotal ⊢
      obtain ⟨texts, htexts, hsum⟩ := (ih (Nat.le_of_add_left_le htotal)).mpr ⟨sizes, hsizes, rfl⟩
      obtain ⟨text, htext, rfl⟩ := (hpiece n (by omega)).mpr hn
      exact ⟨_, ⟨text, texts, htext, htexts, rfl⟩, by rw [List.flatten_cons, List.length_append, hsum]⟩

/-- Where the name is a variable's, only the conversion and the spec can go wrong, and they decide how long
the text gets. -/
theorem fieldText_of_name {R : List Char → List Char → Prop} {f : Field} {value : List Char} {n : Nat}
    (hplain : ∀ c ∈ f.name, startsPath c = false) (hvalue : getFirst unicode vars f.name = .ok value)
    (hmemory : n ≤ unicode.memory) :
    (∃ text, FieldText unicode vars R f text ∧ text.length = n) ↔
      ∃ converted spec width precision, convertText unicode f.conversion value = .ok converted ∧ R f.spec spec ∧
        StrSpec unicode spec width precision ∧ n = paddedSize width precision converted.length := by
  have hname : firstName f.name = f.name := List.takeWhile_eq_self_iff.mpr fun c hc => by simp [hplain c hc]
  have hpath : namePath f.name = .ok [] := by
    have hdrop : (f.name.dropWhile fun c => !startsPath c) = [] :=
      List.dropWhile_eq_nil_iff.mpr fun c hc => by simp [hplain c hc]
    rw [namePath, hdrop]
    rfl
  constructor
  · rintro ⟨text, ⟨hfirst, hpath', hpicks, hconverted, hspec, htext⟩, hn⟩
    rw [hname, hvalue] at hfirst
    rw [hpath] at hpath'
    cases hfirst
    cases hpath'
    cases hpicks
    obtain ⟨width, precision, hstr, hsize⟩ := (formatStr_ok hmemory).mp ⟨text, htext, hn⟩
    exact ⟨_, _, width, precision, hconverted, hspec, hstr, hsize⟩
  · rintro ⟨converted, spec, width, precision, hconverted, hspec, hstr, hsize⟩
    obtain ⟨text, htext, hn⟩ := (formatStr_ok hmemory).mpr ⟨width, precision, hstr, hsize⟩
    exact ⟨text, .mk (by rw [hname, hvalue]) hpath (.whole value) hconverted hspec htext, hn⟩

end FormatStrings
