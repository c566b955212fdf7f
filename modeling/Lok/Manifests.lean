import Lok.Basic

/-!
# Manifests and the pins of mandates

A manifest is what an app says of itself. A mandate's pin is the ceiling it puts on the
apps that log in under it: `check` compares a manifest with a pin, `assertWithin` one pin
with another. Identity must match exactly; scopes and the services of the requirements
are ceilings, and a field left open admits anything.
-/

namespace Lok

open Checks

structure Requirement where
  key : String
  service : String
  optional : Bool
  deriving DecidableEq, Repr

structure Manifest where
  identifier : String
  version : String
  scopes : List String
  requirements : List Requirement
  deviceId : Option String
  /-- Title, logo, authors, links: hashed, and the logo downloaded. -/
  cosmetics : String
  deriving DecidableEq, Repr

/-! ## What a hub says of itself -/

structure RoleDeclaration where
  key : String
  description : Option String
  isAdminRole : Bool
  isDefaultRole : Bool
  deriving DecidableEq, Repr

structure ScopeDeclaration where
  key : String
  description : Option String
  isAllScope : Bool
  deriving DecidableEq, Repr

/-- A service the hub runs, under its name there. -/
structure InstanceRequest where
  name : String
  service : String
  version : String
  deviceId : Option String
  roles : List RoleDeclaration
  scopes : List ScopeDeclaration
  /-- The base64 of the service's public key. -/
  challengeKey : Option String
  deriving DecidableEq, Repr

/-- An app the hub runs itself, with the mandate key it proposes for it. -/
structure ClientRequest where
  identifier : String
  description : Option String
  manifest : Manifest
  mandateKey : String
  deriving DecidableEq, Repr

structure HubManifest where
  uid : String
  identifier : String
  instances : List InstanceRequest
  clients : List ClientRequest
  requestAuthKey : Bool
  tlsCertificate : Option String
  deriving DecidableEq, Repr

/-! ## Pins -/

/-- A requirement as a mandate pins it: which key, served by which service. -/
structure RequirementPin where
  key : String
  service : String
  deriving DecidableEq, Repr

structure MandatePin where
  identifier : Option String
  version : Option String
  scopes : Option (List String)
  requirements : Option (List RequirementPin)
  deviceId : Option String
  deriving DecidableEq, Repr

namespace MandatePin

def fromManifest (m : Manifest) (version device : Bool) : MandatePin where
  identifier := some m.identifier
  version := if version then some m.version else none
  scopes := some (sortedSet m.scopes)
  requirements := some (m.requirements.map fun r => ⟨r.key, r.service⟩)
  deviceId := if device then m.deviceId else none

def isOpen (pin : MandatePin) : Bool := pin.identifier.isNone

/-- The services the pin lets an app require; the key a requirement is listed under is only a name. -/
def requiredServices (pin : MandatePin) : Option (List String) :=
  pin.requirements.map fun rs => rs.map (·.service)

def fixedTo (pin : MandatePin) (identifier : String) : MandatePin := { pin with identifier := some identifier }

def mismatch (text : String) : Refused := ⟨.mandatePinMismatch, text⟩

/-- `set(asked) - set(allowed) - set(BASE_OIDC_SCOPES)`, sorted. -/
def extraScopes (asked allowed : List String) : List String :=
  sortedSet (asked.filter fun s => !allowed.contains s && !baseOidcScopes.contains s)

def extraRequirements (asked : List RequirementPin) (services : List String) : List String :=
  sortedSet ((asked.filter fun r => !services.contains r.service).map fun r => r.key ++ "=" ++ r.service)

/-- Refuse unless the pin covers the manifest. -/
def check (pin : MandatePin) (m : Manifest) : Answer Unit := do
  whenSome pin.identifier fun i =>
    require (m.identifier == i) (mismatch s!"This mandate is pinned to app '{i}', not '{m.identifier}'.")
  whenSome pin.version fun v =>
    require (m.version == v)
      (mismatch s!"This mandate is pinned to version '{v}' of '{m.identifier}', not '{m.version}'.")
  whenSome pin.deviceId fun d =>
    require (m.deviceId == some d)
      (mismatch "This mandate is pinned to a different device than the one the manifest names.")
  whenSome pin.scopes fun scopes =>
    let extra := extraScopes m.scopes scopes
    require extra.isEmpty (mismatch s!"This mandate does not authorize the scope(s) {commaJoin extra}.")
  whenSome pin.requiredServices fun services =>
    let extra := extraRequirements (m.requirements.map fun r => ⟨r.key, r.service⟩) services
    require extra.isEmpty (mismatch s!"This mandate does not authorize the requirement(s) {commaJoin extra}.")

/-- A field that must match exactly when the ceiling fixes it. -/
def assertFixed (name : String) (own fixed : Option String) : Answer Unit :=
  whenSome fixed fun f => require (own == some f)
    (mismatch s!"The {name} must be '{f}', as the issuing mandate pins it.")

/-- Refuse unless every app this pin admits is admitted by `ceiling`. -/
def assertWithin (pin ceiling : MandatePin) : Answer Unit := do
  assertFixed "identifier" pin.identifier ceiling.identifier
  assertFixed "version" pin.version ceiling.version
  assertFixed "device id" pin.deviceId ceiling.deviceId
  whenSome ceiling.scopes fun allowed => do
    let asked ← found pin.scopes (mismatch "Scopes must be pinned, as the issuing mandate pins them.")
    let extra := extraScopes asked allowed
    require extra.isEmpty (mismatch s!"The scope(s) {commaJoin extra} exceed the issuer's.")
  whenSome ceiling.requiredServices fun services => do
    let asked ← found pin.requirements (mismatch "Requirements must be pinned, as the issuing mandate pins them.")
    let extra := extraRequirements asked services
    require extra.isEmpty (mismatch s!"The requirement(s) {commaJoin extra} exceed the issuer's.")

/-! ## What the checks establish -/

theorem extraScopes_isEmpty {asked allowed : List String} :
    (extraScopes asked allowed).isEmpty = true ↔ ∀ s ∈ asked, s ∈ allowed ∨ s ∈ baseOidcScopes := by
  rw [List.isEmpty_iff, List.eq_nil_iff_forall_not_mem]
  simp only [extraScopes, mem_sortedSet, List.mem_filter, Bool.and_eq_true, Bool.not_eq_true',
    List.contains_eq_mem, decide_eq_false_iff_not, not_and, not_not]
  exact ⟨fun h s hs => by by_cases hm : s ∈ allowed <;> simp_all, fun h s hs hn => (h s hs).resolve_left hn⟩

theorem extraRequirements_isEmpty {asked : List RequirementPin} {services : List String} :
    (extraRequirements asked services).isEmpty = true ↔ ∀ r ∈ asked, r.service ∈ services := by
  rw [List.isEmpty_iff, List.eq_nil_iff_forall_not_mem]
  simp only [extraRequirements, mem_sortedSet, List.mem_map, List.mem_filter, Bool.not_eq_true',
    List.contains_eq_mem, decide_eq_false_iff_not, not_exists, not_and]
  exact ⟨fun h r hr => not_not.mp fun hn => h _ r ⟨hr, hn⟩ rfl, fun h _ r hr => absurd (h r hr.1) hr.2⟩

/-- The manifests a pin covers, field by field. -/
structure Covers (pin : MandatePin) (m : Manifest) : Prop where
  identifier : ∀ i, pin.identifier = some i → m.identifier = i
  version : ∀ v, pin.version = some v → m.version = v
  deviceId : ∀ d, pin.deviceId = some d → m.deviceId = some d
  scopes : ∀ allowed, pin.scopes = some allowed → ∀ s ∈ m.scopes, s ∈ allowed ∨ s ∈ baseOidcScopes
  services : ∀ rs, pin.requirements = some rs → ∀ r ∈ m.requirements, ∃ q ∈ rs, q.service = r.service

/-- One pin within another, field by field. -/
structure Within (pin ceiling : MandatePin) : Prop where
  identifier : ∀ i, ceiling.identifier = some i → pin.identifier = some i
  version : ∀ v, ceiling.version = some v → pin.version = some v
  deviceId : ∀ d, ceiling.deviceId = some d → pin.deviceId = some d
  scopes : ∀ allowed, ceiling.scopes = some allowed →
    ∃ asked, pin.scopes = some asked ∧ ∀ s ∈ asked, s ∈ allowed ∨ s ∈ baseOidcScopes
  services : ∀ rs, ceiling.requirements = some rs →
    ∃ asked, pin.requirements = some asked ∧ ∀ r ∈ asked, ∃ q ∈ rs, q.service = r.service

theorem check_ok {pin : MandatePin} {m : Manifest} : pin.check m = .ok () ↔ Covers pin m := by
  simp only [check, bind_ok, exists_unit, whenSome_ok, require_ok, extraScopes_isEmpty, extraRequirements_isEmpty,
    requiredServices, Option.map_eq_some_iff, beq_iff_eq]
  constructor
  · rintro ⟨hi, hv, hd, hs, hr⟩
    refine ⟨hi, hv, hd, hs, fun rs hrs r hr' => ?_⟩
    simpa using hr _ ⟨rs, hrs, rfl⟩ ⟨r.key, r.service⟩ (List.mem_map.mpr ⟨r, hr', rfl⟩)
  · rintro ⟨hi, hv, hd, hs, hr⟩
    refine ⟨hi, hv, hd, hs, ?_⟩
    rintro _ ⟨rs, hrs, rfl⟩ q hq
    obtain ⟨r, hr', rfl⟩ := List.mem_map.mp hq
    simpa using hr rs hrs r hr'

theorem assertFixed_ok {name : String} {own fixed : Option String} :
    assertFixed name own fixed = .ok () ↔ ∀ f, fixed = some f → own = some f := by
  simp [assertFixed]

theorem assertWithin_ok {pin ceiling : MandatePin} : pin.assertWithin ceiling = .ok () ↔ Within pin ceiling := by
  simp only [assertWithin, bind_ok, exists_unit, assertFixed_ok, whenSome_ok, found_ok, require_ok,
    extraScopes_isEmpty, extraRequirements_isEmpty, requiredServices, Option.map_eq_some_iff]
  constructor
  · rintro ⟨hi, hv, hd, hs, hr⟩
    refine ⟨hi, hv, hd, hs, fun rs hrs => ?_⟩
    obtain ⟨asked, ha, hall⟩ := hr _ ⟨rs, hrs, rfl⟩
    exact ⟨asked, ha, fun r hr' => by simpa using hall r hr'⟩
  · rintro ⟨hi, hv, hd, hs, hr⟩
    refine ⟨hi, hv, hd, hs, ?_⟩
    rintro _ ⟨rs, hrs, rfl⟩
    obtain ⟨asked, ha, hall⟩ := hr rs hrs
    exact ⟨asked, ha, fun r hr' => by simpa using hall r hr'⟩

/-! ## Pins compose -/

theorem Within.refl (pin : MandatePin) : Within pin pin where
  identifier _ := id
  version _ := id
  deviceId _ := id
  scopes allowed h := ⟨allowed, h, fun _ => .inl⟩
  services rs h := ⟨rs, h, fun r hr => ⟨r, hr, rfl⟩⟩

theorem Within.covers {pin ceiling : MandatePin} (h : Within pin ceiling) {m : Manifest} (hm : Covers pin m) :
    Covers ceiling m where
  identifier i hi := hm.identifier i (h.identifier i hi)
  version v hv := hm.version v (h.version v hv)
  deviceId d hd := hm.deviceId d (h.deviceId d hd)
  scopes allowed ha s hs := by
    obtain ⟨asked, hasked, hall⟩ := h.scopes allowed ha
    rcases hm.scopes asked hasked s hs with hs | hs
    · exact hall s hs
    · exact .inr hs
  services rs hrs r hr := by
    obtain ⟨asked, hasked, hall⟩ := h.services rs hrs
    obtain ⟨q, hq, hqr⟩ := hm.services asked hasked r hr
    obtain ⟨p, hp, hpq⟩ := hall q hq
    exact ⟨p, hp, hpq.trans hqr⟩

theorem Within.fixedTo {pin ceiling : MandatePin} (h : Within pin ceiling)
    (hopen : pin.isOpen = true) (i : String) :
    Within (pin.fixedTo i) ceiling where
  identifier j hj := by
    have := h.identifier j hj
    simp [isOpen, this] at hopen
  version := h.version
  deviceId := h.deviceId
  scopes := h.scopes
  services := h.services

end MandatePin

end Lok
