import Mathlib.Data.List.Forall2
import Mathlib.Data.List.Infix
import Lok.Checks
import Lok.Text

/-!
# Deep links

The apps that an organization lets its deep links open. A link navigates the browser to the protocol of an
app, so that a protocol which the browser reads as one of its own would turn the link page into an open
redirect.
-/

namespace Lok

namespace Deeplinks

open Checks Text

/-- What the rules use of the standard library: case, and what `urlsplit` finds, or refuses, in an address. -/
structure Library extends Casing where
  urlsplit : List Char → Except String (String × Option String)

def maxApps : Nat := 10

def maxNameLength : Nat := 60

def maxInstallUrlLength : Nat := 500

/-! ## Protocols -/

/-- `[a-z]`. -/
def isLetter (c : Char) : Bool := 97 ≤ c.toNat && c.toNat ≤ 122

/-- `[a-z0-9+.-]`. -/
def isSchemeChar (c : Char) : Bool :=
  isLetter c || 48 ≤ c.toNat && c.toNat ≤ 57 || c == '+' || c == '.' || c == '-'

/-- `PROTOCOL_RE`, whose `$` also matches before a newline that ends the string. -/
def protocolMatches : List Char → Bool
  | [] => false
  | c :: s => isLetter c && (s.takeWhile isSchemeChar).length ≤ 31
      && (s.dropWhile isSchemeChar == [] || s.dropWhile isSchemeChar == ['\n'])

def forbiddenProtocols : List (List Char) :=
  ["http", "https", "javascript", "data", "file", "blob", "vbscript", "about", "ftp", "ws", "wss", "mailto",
   "tel"].map String.toList

variable (u : Library)

/-- The string as the pattern sees it: trimmed, in lower case, without a pasted `://` or `:`. -/
def bare (raw : List Char) : List Char := removeSuffix [':'] (removeSuffix [':', '/', '/'] (u.lower (strip raw)))

def normalizeProtocol (raw : List Char) : Except String (List Char) := do
  let protocol := bare u raw
  require (protocolMatches protocol)
    (s!"'{String.ofList raw}' is not a valid protocol. Use a URL scheme such as 'orkestrator': "
      ++ "a letter followed by letters, digits, '+', '.' or '-'.")
  require (!forbiddenProtocols.contains protocol)
    s!"'{String.ofList protocol}' cannot be used as a deep link protocol."
  return protocol

/-- A letter followed by at most 31 letters, digits, pluses, dots and minuses. -/
def Plain (s : List Char) : Prop :=
  ∃ c rest, s = c :: rest ∧ isLetter c = true ∧ rest.length ≤ 31 ∧ ∀ d ∈ rest, isSchemeChar d = true

variable {u} {s p raw : List Char}

theorem isSchemeChar_of_letter {c : Char} (h : isLetter c = true) : isSchemeChar c = true := by
  simp [isSchemeChar, h]

theorem Plain.schemeChar (h : Plain s) {c : Char} (hc : c ∈ s) : isSchemeChar c = true := by
  obtain ⟨d, rest, rfl, hd, -, hrest⟩ := h
  rcases List.mem_cons.mp hc with rfl | hc
  · exact isSchemeChar_of_letter hd
  · exact hrest c hc

theorem isSchemeChar_toNat {c : Char} (h : isSchemeChar c = true) :
    97 ≤ c.toNat ∧ c.toNat ≤ 122 ∨ 48 ≤ c.toNat ∧ c.toNat ≤ 57 ∨ c.toNat = 43 ∨ c.toNat = 46 ∨ c.toNat = 45 := by
  simp only [isSchemeChar, isLetter, Bool.or_eq_true, Bool.and_eq_true, decide_eq_true_eq, beq_iff_eq] at h
  rcases h with (((h | h) | rfl) | rfl) | rfl
  · exact .inl h
  · exact .inr (.inl h)
  · exact .inr (.inr (.inl rfl))
  · exact .inr (.inr (.inr (.inl rfl)))
  · exact .inr (.inr (.inr (.inr rfl)))

theorem isSpace_of_schemeChar {c : Char} (h : isSchemeChar c = true) : isSpace c = false := by
  have hn := isSchemeChar_toNat h
  simp only [isSpace, Bool.or_eq_false_iff, Bool.and_eq_false_iff, decide_eq_false_iff_not, beq_eq_false_iff_ne]
  omega

theorem isAscii_of_schemeChar {c : Char} (h : isSchemeChar c = true) : isAscii c = true := by
  have hn := isSchemeChar_toNat h
  simp only [isAscii, decide_eq_true_eq]
  omega

theorem toLower_of_schemeChar {c : Char} (h : isSchemeChar c = true) : c.toLower = c := by
  have hn := isSchemeChar_toNat h
  unfold Char.toLower
  refine dif_neg fun hupper => ?_
  have hge : 65 ≤ c.toNat := hupper.1
  have hle : c.toNat ≤ 90 := hupper.2
  omega

theorem newline_not_schemeChar : isSchemeChar '\n' = false := by decide

theorem protocolMatches_iff : protocolMatches s = true ↔ Plain s ∨ ∃ p, Plain p ∧ s = p ++ ['\n'] := by
  cases s with
  | nil => simp [protocolMatches, Plain]
  | cons c s =>
    simp only [protocolMatches, Bool.and_eq_true, Bool.or_eq_true, decide_eq_true_eq, beq_iff_eq]
    constructor
    · intro h
      obtain ⟨⟨hc, hlen⟩, hrest⟩ := h
      have hbody : ∀ d ∈ s.takeWhile isSchemeChar, isSchemeChar d = true := fun d hd => List.mem_takeWhile_imp hd
      have hsplit := List.takeWhile_append_dropWhile (p := isSchemeChar) (l := s)
      rcases hrest with hrest | hrest
      · rw [hrest, List.append_nil] at hsplit
        rw [hsplit] at hlen hbody
        exact .inl ⟨c, s, rfl, hc, hlen, hbody⟩
      · rw [hrest] at hsplit
        exact .inr ⟨c :: s.takeWhile isSchemeChar, ⟨c, _, rfl, hc, hlen, hbody⟩, by rw [List.cons_append, hsplit]⟩
    · intro h
      rcases h with ⟨d, rest, heq, hd, hlen, hrest⟩ | ⟨p, ⟨d, rest, rfl, hd, hlen, hrest⟩, heq⟩
      · obtain ⟨rfl, rfl⟩ := List.cons.inj heq
        have htake : s.takeWhile isSchemeChar = s := List.takeWhile_eq_self_iff.mpr hrest
        have hdrop : s.dropWhile isSchemeChar = [] := List.dropWhile_eq_nil_iff.mpr hrest
        rw [htake, hdrop]
        exact ⟨⟨hd, hlen⟩, .inl rfl⟩
      · rw [List.cons_append] at heq
        obtain ⟨rfl, rfl⟩ := List.cons.inj heq
        have htake : (rest ++ ['\n']).takeWhile isSchemeChar = rest := by
          rw [List.takeWhile_append_of_pos hrest]
          simp [newline_not_schemeChar]
        have hdrop : (rest ++ ['\n']).dropWhile isSchemeChar = ['\n'] := by
          rw [List.dropWhile_append_of_pos hrest]
          simp [newline_not_schemeChar]
        rw [htake, hdrop]
        exact ⟨⟨hd, hlen⟩, .inr rfl⟩

theorem normalizeProtocol_ok :
    normalizeProtocol u raw = .ok p ↔ bare u raw = p ∧ protocolMatches p = true ∧ p ∉ forbiddenProtocols := by
  simp only [normalizeProtocol, bind_ok, require_ok, exists_unit, pure_ok, Bool.not_eq_true', List.contains_eq_mem,
    decide_eq_false_iff_not]
  constructor
  · intro h
    obtain ⟨hmatches, hallowed, rfl⟩ := h
    exact ⟨rfl, hmatches, hallowed⟩
  · intro h
    obtain ⟨rfl, hmatches, hallowed⟩ := h
    exact ⟨hmatches, hallowed, rfl⟩

theorem Plain.bare (h : Plain s) : Deeplinks.bare u s = s := by
  have hstrip : strip s = s := strip_of_clean fun c hc => isSpace_of_schemeChar (h.schemeChar hc)
  have hlower : u.lower s = s := by
    rw [u.lower_ascii s (List.all_eq_true.mpr fun c hc => isAscii_of_schemeChar (h.schemeChar hc))]
    exact (List.map_congr_left fun c hc => toLower_of_schemeChar (h.schemeChar hc)).trans (List.map_id s)
  have hcolon : ':' ∉ s := fun hc => absurd (h.schemeChar hc) (by decide)
  have hslash : '/' ∉ s := fun hc => absurd (h.schemeChar hc) (by decide)
  unfold Deeplinks.bare
  rw [hstrip, hlower, removeSuffix_of_not fun hs => hslash (hs.mem (by simp)),
    removeSuffix_of_not fun hs => hcolon (hs.mem (by simp))]

/-! ### What may be returned -/

/-- A control character, as ASCII has them. -/
def isControl (c : Char) : Bool := c.toNat < 32 || c.toNat == 127

/-- What a browser reads of an address: it drops tabs and newlines. -/
def asBrowserReads (s : List Char) : List Char := s.filter fun c => !(c == '\t' || c == '\n' || c == '\r')

structure Safe (u : Library) (s : List Char) : Prop where
  plain : Plain s
  clean : ∀ c ∈ s, isSpace c = false ∧ isControl c = false
  allowed : s ∉ forbiddenProtocols ∧ asBrowserReads s ∉ forbiddenProtocols
  fixed : normalizeProtocol u s = .ok s

/-- A newline stands before what is dropped at the end. -/
def EndsInNewline (u : Library) (raw : List Char) : Prop :=
  ∃ dropped ∈ [[], [':'], [':', '/', '/'], [':', ':', '/', '/']], '\n' :: dropped <:+ u.lower (strip raw)

theorem removeSuffix_of_last {t : List Char} {c d : Char} (h : c ≠ d) :
    removeSuffix (s ++ [c]) (t ++ [d]) = t ++ [d] := by
  refine removeSuffix_of_not fun hs => h ?_
  obtain ⟨w, hw⟩ := hs
  rw [← List.append_assoc] at hw
  exact (List.append_singleton_inj.mp hw).2

theorem bare_getLast : (bare u raw).getLast? = some '\n' ↔ EndsInNewline u raw := by
  unfold bare EndsInNewline
  generalize u.lower (strip raw) = t
  rw [List.getLast?_eq_some_iff]
  constructor
  · intro h
    obtain ⟨w, hw⟩ := h
    rcases removeSuffix_cases [':', '/', '/'] t with ⟨v, rfl, hv⟩ | ⟨-, hv⟩ <;> rw [hv] at hw
    · rcases removeSuffix_cases [':'] v with ⟨v', rfl, hv'⟩ | ⟨-, hv'⟩ <;> rw [hv'] at hw <;> subst hw
      · exact ⟨[':', ':', '/', '/'], by simp, w, by simp⟩
      · exact ⟨[':', '/', '/'], by simp, w, by simp⟩
    · rcases removeSuffix_cases [':'] t with ⟨v', rfl, hv'⟩ | ⟨-, hv'⟩ <;> rw [hv'] at hw <;> subst hw
      · exact ⟨[':'], by simp, w, by simp⟩
      · exact ⟨[], by simp, w, by simp⟩
  · intro h
    obtain ⟨dropped, hdropped, w, rfl⟩ := h
    have hscheme : ∀ {v : List Char} {c : Char}, '/' ≠ c → removeSuffix [':', '/', '/'] (v ++ [c]) = v ++ [c] :=
      fun hc =>
      removeSuffix_of_last (s := [':', '/']) hc
    have hcolon : ∀ {v : List Char} {c : Char}, ':' ≠ c → removeSuffix [':'] (v ++ [c]) = v ++ [c] := fun hc =>
      removeSuffix_of_last (s := []) hc
    refine ⟨w, ?_⟩
    simp only [List.mem_cons, List.not_mem_nil, or_false] at hdropped
    rcases hdropped with rfl | rfl | rfl | rfl
    · rw [hscheme (by decide), hcolon (by decide)]
    · rw [List.append_cons, hscheme (by decide), removeSuffix_append]
    · rw [List.append_cons, removeSuffix_append, hcolon (by decide)]
    · rw [List.append_cons, List.append_cons, removeSuffix_append, removeSuffix_append]

theorem Plain.not_newline (h : Plain s) : s.getLast? ≠ some '\n' := fun hlast =>
  absurd (h.schemeChar (List.mem_of_getLast? hlast)) (by decide)

theorem Plain.safe (h : Plain s) (hallowed : s ∉ forbiddenProtocols) : Safe u s := by
  have hchar : ∀ c ∈ s, isControl c = false ∧ (!(c == '\t' || c == '\n' || c == '\r')) = true := by
    intro c hc
    have hn := isSchemeChar_toNat (h.schemeChar hc)
    refine ⟨?_, ?_⟩
    · simp only [isControl, Bool.or_eq_false_iff, decide_eq_false_iff_not, beq_eq_false_iff_ne]
      omega
    · simp only [Bool.not_eq_true', Bool.or_eq_false_iff, beq_eq_false_iff_ne]
      refine ⟨⟨?_, ?_⟩, ?_⟩ <;> rintro rfl <;> exact absurd (h.schemeChar hc) (by decide)
  have hreads : asBrowserReads s = s := List.filter_eq_self.mpr fun c hc => (hchar c hc).2
  refine ⟨h, fun c hc => ⟨isSpace_of_schemeChar (h.schemeChar hc), (hchar c hc).1⟩,
    ⟨hallowed, by rw [hreads]; exact hallowed⟩, ?_⟩
  exact normalizeProtocol_ok.mpr ⟨h.bare, protocolMatches_iff.mpr (.inl h), hallowed⟩

theorem safe_iff (h : normalizeProtocol u raw = .ok p) : Safe u p ↔ ¬ EndsInNewline u raw := by
  obtain ⟨rfl, hmatches, hallowed⟩ := normalizeProtocol_ok.mp h
  rw [← bare_getLast]
  constructor
  · intro hsafe
    exact hsafe.plain.not_newline
  · intro hnot
    rcases protocolMatches_iff.mp hmatches with hplain | ⟨q, -, hq⟩
    · exact hplain.safe hallowed
    · exact absurd (by rw [hq]; simp) hnot

/-! ## The list of an organization -/

structure Entry where
  protocol : Option (List Char)
  name : Option (List Char)
  installUrl : Option (List Char)
  mobile : Option Bool

structure App where
  protocol : List Char
  name : List Char
  installUrl : Option (List Char)
  mobile : Bool
  deriving DecidableEq

/-- The app as it is stored, and may be given again. -/
def App.entry (a : App) : Entry := ⟨some a.protocol, some a.name, a.installUrl, some a.mobile⟩

variable (u)

def normalizeInstallUrl (raw : Option (List Char)) : Except String (Option (List Char)) :=
  let url := strip (raw.getD [])
  if url.isEmpty then .ok none
  else do
    let url := if [':', '/', '/'] <:+: url then url else "https://".toList ++ url
    require (url.length ≤ maxInstallUrlLength)
      s!"An install link can be at most {maxInstallUrlLength} characters long."
    let (scheme, hostname) ← u.urlsplit url
    require (scheme == "https" && hostname.any (· != "") && !url.any isSpace)
      s!"'{String.ofList (raw.getD [])}' is not a valid install link. Use an https address."
    return some url

/-- One turn of the loop over the entries. -/
def addApp (apps : List App) (entry : Entry) : Except String (List App) := do
  let protocol ← normalizeProtocol u (entry.protocol.getD [])
  require (!apps.any (·.protocol == protocol)) s!"'{String.ofList protocol}' is listed more than once."
  let name := strip (entry.name.getD [])
  let name := if name.isEmpty then u.capitalize protocol else name
  require (name.length ≤ maxNameLength) s!"An app name can be at most {maxNameLength} characters long."
  let installUrl ← normalizeInstallUrl u entry.installUrl
  return apps ++ [⟨protocol, name, installUrl, entry.mobile.getD false⟩]

def normalizeDeeplinkApps (raw : List Entry) : Except String (List App) := do
  let apps ← raw.foldlM (addApp u) []
  require (apps.length ≤ maxApps) s!"An organization can allow at most {maxApps} deep link apps."
  return apps

/-- The app is what an entry stands for. -/
structure AppOf (e : Entry) (a : App) : Prop where
  protocol : normalizeProtocol u (e.protocol.getD []) = .ok a.protocol
  name : (if (strip (e.name.getD [])).isEmpty then u.capitalize a.protocol else strip (e.name.getD [])) = a.name
  short : a.name.length ≤ maxNameLength
  installUrl : normalizeInstallUrl u e.installUrl = .ok a.installUrl
  mobile : e.mobile.getD false = a.mobile

variable {u}

theorem addApp_ok {apps apps' : List App} {e : Entry} : addApp u apps e = .ok apps'
    ↔ ∃ a, AppOf u e a ∧ (∀ b ∈ apps, b.protocol ≠ a.protocol) ∧ apps' = apps ++ [a] := by
  simp only [addApp, bind_ok, require_ok, exists_unit, pure_ok, Bool.not_eq_true', List.any_eq_false, beq_iff_eq,
    decide_eq_true_eq]
  constructor
  · intro h
    obtain ⟨protocol, hprotocol, hnew, hshort, url, hurl, rfl⟩ := h
    exact ⟨_, ⟨hprotocol, rfl, hshort, hurl, rfl⟩, hnew, rfl⟩
  · intro h
    obtain ⟨a, ha, hnew, rfl⟩ := h
    refine ⟨a.protocol, ha.protocol, hnew, ?_, a.installUrl, ha.installUrl, ?_⟩
    · rw [ha.name]
      exact ha.short
    · rw [ha.name, ha.mobile]

theorem foldlM_addApp_ok : ∀ {raw : List Entry} {apps out : List App}, raw.foldlM (addApp u) apps = .ok out
    ↔ ∃ added, List.Forall₂ (AppOf u) raw added ∧ out = apps ++ added
      ∧ (∀ a ∈ added, ∀ b ∈ apps, b.protocol ≠ a.protocol) ∧ added.Pairwise fun a b => a.protocol ≠ b.protocol
  | [], apps, out => by
    rw [List.foldlM_nil, pure_ok]
    constructor
    · intro h
      exact ⟨[], .nil, by simp [h], by simp, .nil⟩
    · intro h
      obtain ⟨added, hadded, rfl, -⟩ := h
      cases hadded
      simp
  | e :: raw, apps, out => by
    simp only [List.foldlM_cons, bind_ok, addApp_ok]
    constructor
    · intro h
      obtain ⟨_, ⟨a, ha, hnew, rfl⟩, hrest⟩ := h
      obtain ⟨added, hadded, rfl, hapart, hpairs⟩ := foldlM_addApp_ok.mp hrest
      refine ⟨a :: added, .cons ha hadded, by simp, fun b hb c hc => ?_,
        List.pairwise_cons.mpr ⟨fun b hb => ?_, hpairs⟩⟩
      · rcases List.mem_cons.mp hb with rfl | hb
        · exact hnew c hc
        · exact hapart b hb c (by simp [hc])
      · exact hapart b hb a (by simp)
    · intro h
      obtain ⟨added, hadded, rfl, hapart, hpairs⟩ := h
      cases hadded with
      | @cons _ a _ added ha hadded =>
        obtain ⟨hfirst, hpairs⟩ := List.pairwise_cons.mp hpairs
        refine ⟨_, ⟨a, ha, hapart a (by simp), rfl⟩,
          foldlM_addApp_ok.mpr ⟨added, hadded, by simp, fun b hb c hc => ?_, hpairs⟩⟩
        rcases List.mem_append.mp hc with hc | hc
        · exact hapart b (by simp [hb]) c hc
        · rw [List.mem_singleton.mp hc]
          exact hfirst b hb

theorem normalizeDeeplinkApps_ok {raw : List Entry} {apps : List App} : normalizeDeeplinkApps u raw = .ok apps
    ↔ List.Forall₂ (AppOf u) raw apps ∧ (apps.Pairwise fun a b => a.protocol ≠ b.protocol)
    ∧ apps.length ≤ maxApps := by
  simp only [normalizeDeeplinkApps, bind_ok, require_ok, exists_unit, pure_ok, decide_eq_true_eq, foldlM_addApp_ok]
  simp [and_assoc]

theorem normalizeInstallUrl_some {raw : Option (List Char)} {url : List Char}
    (h : normalizeInstallUrl u raw = .ok (some url)) :
    [':', '/', '/'] <:+: url ∧ url.length ≤ maxInstallUrlLength
    ∧ ∃ scheme hostname, u.urlsplit url = .ok (scheme, hostname)
      ∧ (scheme == "https" && hostname.any (· != "") && !url.any isSpace) = true := by
  unfold normalizeInstallUrl at h
  dsimp only at h
  split at h
  · cases h
  · simp only [bind_ok, require_ok, exists_unit, pure_ok, Option.some.injEq, Prod.exists, decide_eq_true_eq] at h
    obtain ⟨hlen, scheme, hostname, hsplit, hok, rfl⟩ := h
    refine ⟨?_, hlen, scheme, hostname, hsplit, hok⟩
    split
    · assumption
    · exact ⟨"https".toList, _, rfl⟩

theorem normalizeInstallUrl_idempotent {raw url : Option (List Char)} (h : normalizeInstallUrl u raw = .ok url) :
    normalizeInstallUrl u url = .ok url := by
  cases url with
  | none => rfl
  | some url =>
    obtain ⟨hinside, hlen, scheme, hostname, hsplit, hok⟩ := normalizeInstallUrl_some h
    have hstrip : strip url = url := by
      refine strip_of_clean fun c hc => ?_
      simp only [Bool.and_eq_true, Bool.not_eq_true', List.any_eq_false] at hok
      simpa using hok.2 c hc
    have hne : url.isEmpty = false := by
      cases url with
      | nil => exact absurd (hinside.subset (a := ':') (by simp)) (by simp)
      | cons => rfl
    simp only [normalizeInstallUrl, Option.getD_some, hstrip, hne, hinside, if_true, Bool.false_eq_true, if_false]
    simp only [bind_ok, require_ok, exists_unit, pure_ok, Prod.exists, decide_eq_true_eq]
    exact ⟨hlen, scheme, hostname, hsplit, hok, trivial⟩

theorem capitalize_strip (h : Plain p) : strip (u.capitalize p) = u.capitalize p ∧ u.capitalize p ≠ [] := by
  have hall : p.all isAscii = true := List.all_eq_true.mpr fun c hc => isAscii_of_schemeChar (h.schemeChar hc)
  obtain ⟨c, rest, rfl, hc, -, hrest⟩ := h
  have hupper : isSpace c.toUpper = false := by
    simp only [isLetter, Bool.and_eq_true, decide_eq_true_eq] at hc
    have hletters : ∀ n < 26, isSpace (Char.ofNat (97 + n)).toUpper = false := by decide
    have hn := hletters (c.toNat - 97) (by omega)
    rwa [show 97 + (c.toNat - 97) = c.toNat by omega, Char.ofNat_toNat] at hn
  rw [u.capitalize_ascii c rest hall]
  refine ⟨strip_of_clean fun d hd => ?_, by simp⟩
  rcases List.mem_cons.mp hd with rfl | hd
  · exact hupper
  · obtain ⟨e, he, rfl⟩ := List.mem_map.mp hd
    rw [toLower_of_schemeChar (hrest e he)]
    exact isSpace_of_schemeChar (hrest e he)

theorem AppOf.again {e : Entry} {a : App} (h : AppOf u e a) (hplain : Plain a.protocol)
    (hallowed : a.protocol ∉ forbiddenProtocols) :
    AppOf u a.entry a := by
  have hname : strip a.name = a.name ∧ a.name ≠ [] := by
    rw [← h.name]
    split
    · exact capitalize_strip hplain
    · rename_i hne
      exact ⟨strip_strip, by simpa using hne⟩
  refine ⟨(hplain.safe hallowed).fixed, ?_, h.short, normalizeInstallUrl_idempotent h.installUrl, rfl⟩
  show (if (strip a.name).isEmpty then u.capitalize a.protocol else strip a.name) = a.name
  rw [hname.1, if_neg (by simpa using hname.2)]

theorem AppOf.again_iff {e : Entry} {a : App} (h : AppOf u e a) :
    AppOf u a.entry a ↔ ¬ EndsInNewline u (e.protocol.getD []) := by
  rw [← safe_iff h.protocol]
  constructor
  · intro hagain
    have hfixed : normalizeProtocol u a.protocol = .ok a.protocol := hagain.protocol
    obtain ⟨hbare, hmatches, hallowed⟩ := normalizeProtocol_ok.mp hfixed
    rcases protocolMatches_iff.mp hmatches with hplain | ⟨q, hplain, hq⟩
    · exact hplain.safe hallowed
    · -- trimming takes the newline away
      rw [hq, bare, strip_concat (by decide), ← bare, hplain.bare] at hbare
      exact absurd (congrArg List.length hbare) (by simp)
  · intro hsafe
    exact h.again hsafe.plain hsafe.allowed.1

end Deeplinks

open Deeplinks Text

/-- Exactly a newline before what is dropped at the end of a protocol makes it one that is not meant to be;
and exactly then a list is not accepted as it was returned. No two apps of a list have the same protocol. -/
theorem protocols_are_plain (u : Library) :
    (∀ raw p, normalizeProtocol u raw = .ok p → (Safe u p ↔ ¬ EndsInNewline u raw))
      ∧ ∀ raw apps, normalizeDeeplinkApps u raw = .ok apps →
        (normalizeDeeplinkApps u (apps.map App.entry) = .ok apps
          ↔ ∀ e ∈ raw, ¬ EndsInNewline u (e.protocol.getD []))
          ∧ apps.Pairwise fun a b => a.protocol ≠ b.protocol := by
  refine ⟨fun raw p => safe_iff, fun raw apps h => ?_⟩
  obtain ⟨hall, hapart, hfew⟩ := normalizeDeeplinkApps_ok.mp h
  refine ⟨?_, hapart⟩
  rw [normalizeDeeplinkApps_ok, and_iff_left ⟨hapart, hfew⟩, List.forall₂_map_left_iff, List.forall₂_same]
  clear h hapart hfew
  induction hall with
  | nil => simp
  | cons h _ ih => simp [h.again_iff, ih]

/-- The standard library on ASCII, for addresses that name a host. -/
def plainLibrary : Library where
  toCasing := asciiCasing
  urlsplit _ := .ok ("https", some "example.com")

/-- A pasted protocol in mixed case is returned as it is meant to be. -/
theorem protocols_are_plain_pasted : Safe plainLibrary "my-app".toList
    ∧ ∃ apps, normalizeDeeplinkApps plainLibrary [⟨some " My-App:// ".toList, none, none, none⟩] = .ok apps
      ∧ normalizeDeeplinkApps plainLibrary (apps.map App.entry) = .ok apps := by
  obtain ⟨hprotocols, hlists⟩ := protocols_are_plain plainLibrary
  have hclean : ¬ EndsInNewline plainLibrary " My-App:// ".toList := by
    unfold EndsInNewline
    decide +kernel
  refine ⟨(hprotocols _ _
      (by decide +kernel : normalizeProtocol plainLibrary " My-App:// ".toList = .ok "my-app".toList)).mpr hclean,
    [⟨"my-app".toList, "My-app".toList, none, false⟩], by decide +kernel, ?_⟩
  refine ((hlists _ _ (by decide +kernel :
    normalizeDeeplinkApps plainLibrary [⟨some " My-App:// ".toList, none, none, none⟩]
    = .ok [⟨"my-app".toList, "My-app".toList, none, false⟩])).1).mpr fun e he => ?_
  rw [List.mem_singleton.mp he]
  exact hclean

/-- A newline before the pasted `://` is let through: the browser reads `javascript`, and the list is not
accepted again. -/
theorem newline_is_let_through :
    normalizeProtocol plainLibrary "javascript\n://".toList = .ok "javascript\n".toList
      ∧ ¬ Safe plainLibrary "javascript\n".toList ∧ asBrowserReads "javascript\n".toList ∈ forbiddenProtocols
      ∧ ∃ apps, normalizeDeeplinkApps plainLibrary
          [⟨some "app".toList, none, none, none⟩, ⟨some "app\n:".toList, none, none, none⟩] = .ok apps
        ∧ normalizeDeeplinkApps plainLibrary (apps.map App.entry) = .error "'app' is listed more than once." := by
  refine ⟨by decide +kernel, fun h => h.plain.not_newline (by decide), by decide +kernel,
    [⟨"app".toList, "App".toList, none, false⟩, ⟨"app\n".toList, "App\n".toList, none, false⟩], ?_, ?_⟩
  · decide +kernel
  · decide +kernel

end Lok
