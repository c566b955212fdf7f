import Lok.Manifests
import Mathlib.Data.Fintype.EquivFin
import Mathlib.Data.List.Chain
import Mathlib.Data.Set.Basic

/-!
# The order of pins

A pin stands for the set of manifests it covers, and the checks of one pin within another
decide inclusion of these sets. That they never let too much through is `Within.covers`; that
they never refuse too much needs, for each field the ceiling fixes, a manifest of the pin that
differs there from all the ceiling allows.
-/

namespace Lok

open Checks

namespace MandatePin

def admitted (pin : MandatePin) : Set Manifest := {m | Covers pin m}

theorem exists_unlisted (listed : List String) : ∃ s, s ∉ listed := by
  simpa using Infinite.exists_notMem_finset listed.toFinset

/-! ## A manifest that uses all a pin leaves it -/

/-- The manifest of a pin that asks for all of its ceilings, and for `m` where the pin is open. -/
def widest (pin : MandatePin) (m : Manifest) : Manifest where
  identifier := pin.identifier.getD m.identifier
  version := pin.version.getD m.version
  scopes := pin.scopes.getD m.scopes
  requirements := (pin.requirements.map (·.map fun r => ⟨r.key, r.service, false⟩)).getD m.requirements
  deviceId := pin.deviceId.or m.deviceId
  cosmetics := m.cosmetics

theorem covers_widest (pin : MandatePin) (m : Manifest) : Covers pin (pin.widest m) where
  identifier i hi := by simp [widest, hi]
  version v hv := by simp [widest, hv]
  deviceId d hd := by simp [widest, hd]
  scopes allowed ha s hs := by
    left
    simpa [widest, ha] using hs
  services rs hrs r hr := by
    simp only [widest, hrs, Option.map_some, Option.getD_some, List.mem_map] at hr
    obtain ⟨q, hq, rfl⟩ := hr
    exact ⟨q, hq, rfl⟩

/-! ## Completeness, one field at a time -/

section
variable {pin ceiling : MandatePin} (h : pin.admitted ⊆ ceiling.admitted)

/-- A manifest with one app name, version, device, list of scopes and list of requirements. -/
def plainManifest (name : String) (scopes : List String) (requirements : List Requirement) : Manifest where
  identifier := name
  version := name
  scopes := scopes
  requirements := requirements
  deviceId := none
  cosmetics := ""

include h in
theorem widest_covered (m : Manifest) : Covers ceiling (pin.widest m) := h (covers_widest pin m)

include h in
theorem identifier_fixed {i : String} (hi : ceiling.identifier = some i) : pin.identifier = some i := by
  obtain ⟨other, hother⟩ := exists_unlisted [i]
  have hc := (widest_covered h (plainManifest other [] [])).identifier i hi
  cases hp : pin.identifier with
  | none => simp_all [widest, plainManifest]
  | some j => simpa [widest, hp] using hc

include h in
theorem version_fixed {v : String} (hv : ceiling.version = some v) : pin.version = some v := by
  obtain ⟨other, hother⟩ := exists_unlisted [v]
  have hc := (widest_covered h (plainManifest other [] [])).version v hv
  cases hp : pin.version with
  | none => simp_all [widest, plainManifest]
  | some w => simpa [widest, hp] using hc

include h in
theorem deviceId_fixed {d : String} (hd : ceiling.deviceId = some d) : pin.deviceId = some d := by
  have hc := (widest_covered h (plainManifest "" [] [])).deviceId d hd
  simpa [widest, plainManifest] using hc

include h in
theorem scopes_bounded {allowed : List String} (ha : ceiling.scopes = some allowed) :
    ∃ asked, pin.scopes = some asked ∧ ∀ s ∈ asked, s ∈ allowed ∨ s ∈ baseOidcScopes := by
  obtain ⟨other, hother⟩ := exists_unlisted (allowed ++ baseOidcScopes)
  have hc := (widest_covered h (plainManifest "" [other] [])).scopes allowed ha
  cases hp : pin.scopes with
  | none =>
    -- a pin with open scopes admits a scope the ceiling has never heard of
    have := hc other (by simp [widest, plainManifest, hp])
    exact absurd (List.mem_append.mpr this) hother
  | some asked => exact ⟨asked, rfl, fun s hs => hc s (by simpa [widest, hp] using hs)⟩

include h in
theorem services_bounded {rs : List RequirementPin} (hrs : ceiling.requirements = some rs) :
    ∃ asked, pin.requirements = some asked ∧ ∀ r ∈ asked, ∃ q ∈ rs, q.service = r.service := by
  obtain ⟨other, hother⟩ := exists_unlisted (rs.map (·.service))
  have hc := (widest_covered h (plainManifest "" [] [⟨"", other, false⟩])).services rs hrs
  cases hp : pin.requirements with
  | none =>
    obtain ⟨q, hq, hqs⟩ := hc ⟨"", other, false⟩ (by simp [widest, plainManifest, hp])
    exact absurd (List.mem_map.mpr ⟨q, hq, hqs⟩) hother
  | some asked =>
    refine ⟨asked, rfl, fun r hr => ?_⟩
    exact hc ⟨r.key, r.service, false⟩ (by simpa [widest, hp] using ⟨r, hr, rfl, rfl⟩)

end

/-! ## The order is inclusion -/

theorem within_iff_admitted {pin ceiling : MandatePin} : Within pin ceiling ↔ pin.admitted ⊆ ceiling.admitted := by
  constructor
  · intro h m hm
    exact h.covers hm
  · intro h
    exact {
      identifier := fun _ => identifier_fixed h
      version := fun _ => version_fixed h
      deviceId := fun _ => deviceId_fixed h
      scopes := fun _ => scopes_bounded h
      services := fun _ => services_bounded h }

theorem Within.trans {a b c : MandatePin} (hab : Within a b) (hbc : Within b c) : Within a c :=
  within_iff_admitted.mpr ((within_iff_admitted.mp hab).trans (within_iff_admitted.mp hbc))

instance : Trans Within Within Within := ⟨Within.trans⟩

/-! ## The pin of a manifest -/

theorem covers_fromManifest (m : Manifest) (version device : Bool) : Covers (fromManifest m version device) m where
  identifier i hi := by simpa [fromManifest] using hi
  version v hv := by cases version <;> simp_all [fromManifest]
  deviceId d hd := by cases device <;> simp_all [fromManifest]
  scopes allowed ha s hs := by
    left
    obtain rfl : sortedSet m.scopes = allowed := by simpa [fromManifest] using ha
    exact mem_sortedSet.mpr hs
  services rs hrs r hr := by
    obtain rfl : m.requirements.map (fun r => ⟨r.key, r.service⟩) = rs := by simpa [fromManifest] using hrs
    exact ⟨_, List.mem_map.mpr ⟨r, hr, rfl⟩, rfl⟩

/-- With version and device kept, the pin of a manifest is the least pin that covers it. -/
theorem within_fromManifest {m : Manifest} {ceiling : MandatePin} :
    Within (fromManifest m true true) ceiling ↔ Covers ceiling m := by
  constructor
  · intro h
    exact h.covers (covers_fromManifest m true true)
  · intro h
    refine ⟨?_, ?_, ?_, ?_, ?_⟩
    · intro i hi
      simp [fromManifest, h.identifier i hi]
    · intro v hv
      simp [fromManifest, h.version v hv]
    · intro d hd
      simp [fromManifest, h.deviceId d hd]
    · intro allowed ha
      exact ⟨_, rfl, fun s hs => h.scopes allowed ha s (mem_sortedSet.mp hs)⟩
    · intro rs hrs
      refine ⟨_, rfl, fun q hq => ?_⟩
      obtain ⟨r, hr, rfl⟩ := List.mem_map.mp hq
      exact h.services rs hrs r hr

/-- Within a ceiling is admitting no manifest the ceiling does not; so the order is reflexive and goes
through chains, and the pin of a manifest admits it and is below all pins that do. -/
theorem assertWithin_exact :
    (∀ pin ceiling : MandatePin,
      pin.assertWithin ceiling = .ok () ↔ ∀ m, pin.check m = .ok () → ceiling.check m = .ok ()) ∧
    (∀ pin : MandatePin, pin.assertWithin pin = .ok ()) ∧
    (∀ (pin : MandatePin) (chain : List MandatePin),
      List.IsChain (fun below above => below.assertWithin above = .ok ()) (pin :: chain) →
        ∀ ceiling ∈ chain, pin.assertWithin ceiling = .ok ()) ∧
    (∀ (m : Manifest) (version device : Bool), (fromManifest m version device).check m = .ok ()) ∧
    (∀ (m : Manifest) (ceiling : MandatePin),
      (fromManifest m true true).assertWithin ceiling = .ok () ↔ ceiling.check m = .ok ()) := by
  simp only [assertWithin_ok, check_ok]
  refine ⟨?_, Within.refl, ?_, covers_fromManifest, fun m ceiling => within_fromManifest⟩
  · intro pin ceiling
    exact within_iff_admitted
  · intro pin chain h ceiling hmem
    exact List.IsChain.rel_cons h hmem

end MandatePin

end Lok
