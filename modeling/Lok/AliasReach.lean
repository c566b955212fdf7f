import Lok.Checks
import Lok.Schema
import Lok.Text

/-!
# Where an alias works

An alias of a service says its reach in one word. It is stored as it always was, by a kind and a scope, from
which the reach is read again; an older hub says only these. An alias may be validated more than once, so it
must come out the same.
-/

namespace Lok

namespace AliasReach

open Checks Table Text

/-- What the rules use of the standard library: case, and whether a string is a loopback address. -/
structure Library extends Casing where
  /-- `ipaddress.ip_address(name).is_loopback`; a string that is no address is none. -/
  isLoopbackAddress : List Char → Bool

inductive Reach
  | loopback | internal | lan | mesh | public_
  deriving DecidableEq, Repr

inductive AliasScope
  | local_ | network | public_ | ionscale
  deriving DecidableEq, Repr

/-- The values of `AliasKindChoices`. -/
def aliasKinds : List String := ["absolute", "mesh", "docker"]

/-! ## Two vocabularies -/

/-- A host that is there, and not empty. -/
def truthy (host : Option (List Char)) : Bool := host.any (!·.isEmpty)

section

variable (u : Library)

def isLoopbackHost (host : Option (List Char)) : Bool :=
  host.any fun h => !h.isEmpty &&
    let inner := ((strip h).dropWhile "[]".toList.contains).rdropWhile "[]".toList.contains
    let name := u.lower (inner.rdropWhile (· == '.'))
    name == "localhost".toList || ".localhost".toList.isSuffixOf name || u.isLoopbackAddress name

def reachOf (kind : String) (scope : AliasScope) (host : Option (List Char)) : Reach :=
  if kind == "mesh" then .mesh
  else if kind == "docker" then .internal
  else match scope with
    | .ionscale => .mesh
    | .public_ => .public_
    | .network => .lan
    | .local_ => if isLoopbackHost u host then .loopback else .internal

def legacyOf (reach : Reach) (host : Option (List Char)) : String × AliasScope :=
  match reach with
  | .mesh => (if truthy host then "absolute" else "mesh", .ionscale)
  | .internal => ("docker", .local_)
  | .loopback => ("absolute", .local_)
  | .lan => ("absolute", .network)
  | .public_ => ("absolute", .public_)

/-! ## The wire -/

structure StagingAlias where
  id : List Char
  name : Option (List Char)
  ssl : Bool
  host : Option (List Char)
  port : Option Int
  path : Option (List Char)
  challenge : Option (List Char)
  reach : Option Reach
  kind : String
  scope : AliasScope
  public_ : Bool
  lokChecks : Option Bool
  deriving DecidableEq, Repr

namespace StagingAlias

variable (a : StagingAlias)

/-- A reach that is said decides the kind and the scope. -/
def placed : StagingAlias :=
  match a.reach with
  | none => a
  | some r => { a with kind := (legacyOf r a.host).1, scope := (legacyOf r a.host).2 }

/-- `lok_checks` wins over `public` when it is said. -/
def flagged : StagingAlias := { a with public_ := a.lokChecks.getD a.public_ }

/-- A mesh alias leaves its host to lok. -/
def unhosted : StagingAlias := if a.kind == "mesh" then { a with host := none } else a

def hostUnlessMesh : Except String StagingAlias := do
  let host := a.host.elim "None" String.ofList
  require (a.reach != some .loopback || isLoopbackHost u a.host)
    s!"Alias '{String.ofList a.id}' says it is loopback, but '{host}' is not this machine."
  let a := a.placed.flagged
  let kinds := ", ".intercalate aliasKinds
  require (aliasKinds.contains a.kind)
    s!"Alias '{String.ofList a.id}' has an unknown kind '{a.kind}' (one of: {kinds})."
  require (a.kind == "mesh" || truthy a.host)
    s!"Alias '{String.ofList a.id}' needs a host (only kind 'mesh' resolves its own)."
  require (!(a.kind == "docker" && a.public_))
    (s!"Alias '{String.ofList a.id}' is internal and cannot be checked by the coordination server: "
      ++ "it is only reachable from inside the hub's own network.")
  return a.unhosted

def effectiveReach : Reach := a.reach.getD (reachOf u a.kind a.scope a.host)

end StagingAlias

/-! ## The rows -/

structure InstanceAlias where
  instance_ : Pk
  name : List Char
  host : Option (List Char)
  port : Option Int
  kind : String
  ssl : Bool
  public_ : Bool
  challenge : List Char
  path : Option (List Char)
  scope : AliasScope
  deriving DecidableEq, Repr

def InstanceAlias.reach (r : InstanceAlias) : Reach := reachOf u r.kind r.scope r.host

/-- The row is of the alias's natural key. -/
def InstanceAlias.isOf (instance_ : Pk) (a : StagingAlias) (r : InstanceAlias) : Bool :=
  r.instance_ == instance_ && r.host == a.host && r.port == a.port && r.ssl == a.ssl
    && r.path == a.path && r.kind == a.kind

def StagingAlias.storedName (a : StagingAlias) : List Char :=
  if (a.name.getD []).isEmpty then a.id else a.name.getD []

/-- The table with the alias's row, and whether it is new. -/
def upsertInstanceAlias (t : Table InstanceAlias) (instance_ : Pk) (a : StagingAlias) :
    Except String (Table InstanceAlias × Pk × Bool) :=
  match t.filter fun _ r => r.isOf instance_ a with
  | [] =>
    .ok (t.insert ⟨instance_, a.storedName, a.host, a.port, a.kind, a.ssl, a.public_,
      a.challenge.getD "ht".toList, a.path,
      a.scope⟩, t.next, true)
  | [(pk, _)] => .ok (t.modify pk fun r =>
      { r with
        name := a.storedName, scope := a.scope, public_ := a.public_, challenge := a.challenge.getD r.challenge }, pk,
      false)
  | _ => .error "MultipleObjectsReturned"

/-! ## The envelope -/

structure Alias where
  id : Pk
  ssl : Bool
  host : List Char
  port : Option Int
  path : Option (List Char)
  challenge : List Char
  public_ : Bool
  kind : String
  reach : Option Reach
  deriving DecidableEq, Repr

/-- `to_url`; `hubHost` is where the hub's node is on the mesh, if it is there. -/
def InstanceAlias.toUrl (hubHost : Option (List Char)) (pk : Pk) (r : InstanceAlias) :
    Except String (Option Alias) :=
  if r.kind == "mesh" then
    .ok (hubHost.map fun host => ⟨pk, r.ssl, host, r.port, r.path, r.challenge, r.public_, "mesh",
      some (r.reach u)⟩)
  else do
    let host ← found r.host "host: Input should be a valid string"
    return some (if r.kind == "docker" then ⟨pk, r.ssl, host, r.port, r.path, r.challenge, false, "docker",
      some (r.reach u)⟩
      else ⟨pk, r.ssl, host, r.port, r.path, r.challenge, r.public_, "absolute", some (r.reach u)⟩)

end

variable {u : Library} {a b : StagingAlias}

/-- A reach is read back off what it is stored as, if a loopback one has a host that is this machine. -/
theorem reachOf_legacyOf {r : Reach} {host : Option (List Char)}
    (h : r = .loopback → isLoopbackHost u host = true) :
    reachOf u (legacyOf r host).1 (legacyOf r host).2 host = r := by
  cases r with
  | loopback => simp [legacyOf, reachOf, h rfl]
  | mesh =>
    cases htruthy : truthy host with
    | true => simp [legacyOf, reachOf, htruthy]
    | false => simp [legacyOf, reachOf, htruthy]
  | internal => rfl
  | lan => rfl
  | public_ => rfl

theorem truthy_of_legacy_mesh {r : Reach} {host : Option (List Char)} (h : (legacyOf r host).1 = "mesh") :
    r = .mesh ∧ truthy host = false := by
  cases r with
  | mesh =>
    refine ⟨rfl, ?_⟩
    by_cases htruthy : truthy host = true
    · simp [legacyOf, htruthy] at h
    · simpa using htruthy
  | _ => simp [legacyOf] at h

theorem hostUnlessMesh_ok : a.hostUnlessMesh u = .ok b
    ↔ (a.reach = some .loopback → isLoopbackHost u a.host = true) ∧ a.placed.kind ∈ aliasKinds
      ∧ (a.placed.kind = "mesh" ∨ truthy a.placed.host = true)
      ∧ (a.placed.kind = "docker" → a.placed.flagged.public_ = false) ∧ b = a.placed.flagged.unhosted := by
  simp only [StagingAlias.hostUnlessMesh, bind_ok, require_ok, exists_unit, pure_ok,
    Bool.or_eq_true, bne_iff_ne, beq_iff_eq,
    Bool.not_eq_true', Bool.and_eq_false_iff, beq_eq_false_iff_ne, List.contains_iff_mem]
  constructor
  · intro h
    obtain ⟨hloopback, hkind, hhost, hdocker, hb⟩ := h
    exact ⟨fun hr => hloopback.resolve_left fun hne => hne hr, hkind, hhost,
      fun hd => hdocker.resolve_left fun hne => hne hd, hb.symm⟩
  · intro h
    obtain ⟨hloopback, hkind, hhost, hdocker, hb⟩ := h
    refine ⟨?_, hkind, hhost, ?_, hb.symm⟩
    · by_cases hr : a.reach = some .loopback
      · exact .inr (hloopback hr)
      · exact .inl hr
    · by_cases hd : a.placed.kind = "docker"
      · exact .inr (hdocker hd)
      · exact .inl hd

@[simp] theorem placed_host (a : StagingAlias) : a.placed.host = a.host := by
  unfold StagingAlias.placed
  split <;> rfl

@[simp] theorem placed_reach (a : StagingAlias) : a.placed.reach = a.reach := by
  unfold StagingAlias.placed
  split <;> rfl

@[simp] theorem placed_public (a : StagingAlias) : a.placed.public_ = a.public_ := by
  unfold StagingAlias.placed
  split <;> rfl

@[simp] theorem placed_lokChecks (a : StagingAlias) : a.placed.lokChecks = a.lokChecks := by
  unfold StagingAlias.placed
  split <;> rfl

theorem flagged_flagged (a : StagingAlias) : a.flagged.flagged = a.flagged := by
  cases h : a.lokChecks <;> simp [StagingAlias.flagged, h]

theorem legacyOf_none {r : Reach} {host : Option (List Char)} (h : (legacyOf r host).1 = "mesh") :
    legacyOf r none = legacyOf r host := by
  obtain ⟨rfl, htruthy⟩ := truthy_of_legacy_mesh h
  have hnone : truthy none = false := rfl
  simp [legacyOf, htruthy, hnone]

theorem placed_unhosted (a : StagingAlias) : a.placed.unhosted.placed = a.placed.unhosted := by
  cases hr : a.reach with
  | none =>
    have hplaced : a.placed = a := by
      unfold StagingAlias.placed
      rw [hr]
    rw [hplaced]
    unfold StagingAlias.unhosted
    split
    · simp [StagingAlias.placed, hr]
    · exact hplaced
  | some r =>
    have hplaced : a.placed = { a with kind := (legacyOf r a.host).1, scope := (legacyOf r a.host).2 } := by
      unfold StagingAlias.placed
      rw [hr]
    rw [hplaced, StagingAlias.unhosted]
    by_cases hmesh : (legacyOf r a.host).1 = "mesh"
    · simp [hmesh, StagingAlias.placed, hr, legacyOf_none hmesh]
    · simp [hmesh, StagingAlias.placed, hr]

theorem unhosted_flagged (a : StagingAlias) : a.flagged.unhosted = a.unhosted.flagged := by
  unfold StagingAlias.unhosted StagingAlias.flagged
  dsimp only
  split <;> rfl

theorem placed_flagged (a : StagingAlias) : a.flagged.placed = a.placed.flagged := by
  unfold StagingAlias.placed StagingAlias.flagged
  dsimp only
  split <;> rfl

theorem unhosted_unhosted (a : StagingAlias) : a.unhosted.unhosted = a.unhosted := by
  unfold StagingAlias.unhosted
  by_cases hmesh : (a.kind == "mesh") = true
  · simp [hmesh]
  · simp [hmesh]

@[simp] theorem unhosted_kind (a : StagingAlias) : a.unhosted.kind = a.kind := by
  unfold StagingAlias.unhosted
  split <;> rfl

@[simp] theorem unhosted_reach (a : StagingAlias) : a.unhosted.reach = a.reach := by
  unfold StagingAlias.unhosted
  split <;> rfl

@[simp] theorem unhosted_scope (a : StagingAlias) : a.unhosted.scope = a.scope := by
  unfold StagingAlias.unhosted
  split <;> rfl

@[simp] theorem unhosted_public (a : StagingAlias) : a.unhosted.public_ = a.public_ := by
  unfold StagingAlias.unhosted
  split <;> rfl

theorem unhosted_host (h : a.kind ≠ "mesh") : a.unhosted.host = a.host := by
  simp [StagingAlias.unhosted, h]

theorem hostUnlessMesh_again (h : a.hostUnlessMesh u = .ok b) : b.hostUnlessMesh u = .ok b := by
  obtain ⟨hloopback, hkind, hhost, hdocker, rfl⟩ := hostUnlessMesh_ok.mp h
  have hplaced : a.placed.flagged.unhosted.placed = a.placed.flagged.unhosted := by
    rw [unhosted_flagged, placed_flagged, placed_unhosted]
  have hflagged : a.placed.flagged.unhosted.flagged = a.placed.flagged.unhosted := by
    rw [unhosted_flagged, flagged_flagged]
  have hkept : a.placed.kind ≠ "mesh" → a.placed.flagged.unhosted.host = a.host := fun hne =>
    (unhosted_host (a := a.placed.flagged) hne).trans (placed_host a)
  refine hostUnlessMesh_ok.mpr ⟨fun hr => ?_, ?_, ?_, fun hd => ?_, ?_⟩
  · have hr : a.reach = some .loopback := by simpa [StagingAlias.flagged] using hr
    rw [hkept (by simp [StagingAlias.placed, hr, legacyOf])]
    exact hloopback hr
  · rw [hplaced, unhosted_kind]
    exact hkind
  · rw [hplaced, unhosted_kind]
    by_cases hmesh : a.placed.kind = "mesh"
    · exact .inl hmesh
    · refine .inr ?_
      rw [hkept hmesh, ← placed_host]
      exact hhost.resolve_left hmesh
  · rw [hplaced, unhosted_kind] at hd
    rw [hplaced, hflagged, unhosted_public]
    exact hdocker hd
  · rw [hplaced, hflagged, unhosted_unhosted]

theorem reachOf_effective (h : a.hostUnlessMesh u = .ok b) :
    reachOf u b.kind b.scope b.host = b.effectiveReach u := by
  obtain ⟨hloopback, -, -, -, -⟩ := hostUnlessMesh_ok.mp (hostUnlessMesh_again h)
  have hplaced : b.placed = b := by
    obtain ⟨-, -, -, -, rfl⟩ := hostUnlessMesh_ok.mp h
    rw [unhosted_flagged, placed_flagged, placed_unhosted]
  unfold StagingAlias.effectiveReach
  cases hr : b.reach with
  | none => rfl
  | some r =>
    rw [Option.getD_some, ← hplaced]
    have hread : reachOf u (legacyOf r b.host).1 (legacyOf r b.host).2 b.host = r :=
      reachOf_legacyOf fun hl => hloopback (by rw [hr, hl])
    simpa [StagingAlias.placed, hr] using hread

theorem upsert_row {t t' : Table InstanceAlias} {instance_ pk : Pk} {new : Bool}
    (h : upsertInstanceAlias t instance_ b = .ok (t', pk, new)) :
    ∃ r, t'.row pk = some r ∧ r.kind = b.kind ∧ r.scope = b.scope ∧ r.host = b.host ∧ r.public_ = b.public_ := by
  unfold upsertInstanceAlias at h
  split at h
  · obtain ⟨rfl, rfl, -⟩ : _ ∧ _ ∧ _ := by simpa using h
    exact ⟨_, insert_row_next _ _, rfl, rfl, rfl, rfl⟩
  · rename_i pk r hfound
    obtain ⟨rfl, rfl, -⟩ : _ ∧ _ ∧ _ := by simpa using h
    obtain ⟨hr, hof⟩ := mem_filter.mp (by rw [hfound]; exact List.mem_singleton_self (pk, r))
    simp only [InstanceAlias.isOf, Bool.and_eq_true, beq_iff_eq] at hof
    refine ⟨{ r with
        name := b.storedName, scope := b.scope, public_ := b.public_, challenge := b.challenge.getD r.challenge },
      ?_, hof.2, rfl, hof.1.1.1.1.2, rfl⟩
    rw [modify_row_self, hr]
    rfl
  · cases h

theorem toUrl_reach {r : InstanceAlias} {hubHost : Option (List Char)} {pk : Pk} {out : Alias}
    (h : r.toUrl u hubHost pk = .ok (some out)) :
    out.reach = some (r.reach u) ∧ (out.public_ = true → r.public_ = true) := by
  unfold InstanceAlias.toUrl at h
  split at h
  · obtain ⟨host, -, rfl⟩ := Option.map_eq_some_iff.mp (Except.ok.inj h)
    exact ⟨rfl, id⟩
  · simp only [bind_ok, found_ok, pure_ok, Option.some.injEq] at h
    obtain ⟨host, -, rfl⟩ := h
    split
    · exact ⟨rfl, fun hpublic => absurd hpublic Bool.false_ne_true⟩
    · exact ⟨rfl, id⟩

/-- An older hub's alias: it says no reach, and reads as internal by its scope and its host. -/
structure ReadsInternal (u : Library) (a : StagingAlias) : Prop where
  reach : a.reach = none
  kind : a.kind = "absolute"
  scope : a.scope = .local_
  host : isLoopbackHost u a.host = false

/-- What an alias `a` that is accepted as `b` keeps from the wire to the envelope. -/
structure KeepsMeaning (u : Library) (a b : StagingAlias) : Prop where
  again : b.hostUnlessMesh u = .ok b
  said : ∀ r, a.reach = some r → b.effectiveReach u = r
  derived : a.reach = none → b.effectiveReach u = reachOf u a.kind a.scope a.host
  stored : ∀ t instance_ t' pk new, upsertInstanceAlias t instance_ b = .ok (t', pk, new) →
    ∃ r, t'.row pk = some r ∧ r.reach u = b.effectiveReach u
      ∧ ∀ hubHost out, r.toUrl u hubHost pk = .ok (some out) → out.reach = some (b.effectiveReach u)
        ∧ (out.public_ = true → b.public_ = true)
  marked : b.effectiveReach u = .internal →
    (b.public_ = true ↔ ReadsInternal u a ∧ a.lokChecks.getD a.public_ = true)

theorem effective_said {r : Reach} (h : a.hostUnlessMesh u = .ok b) (hr : a.reach = some r) :
    b.effectiveReach u = r := by
  obtain ⟨-, -, -, -, rfl⟩ := hostUnlessMesh_ok.mp h
  have hreach : a.placed.flagged.unhosted.reach = some r := by
    rw [unhosted_reach]
    exact (placed_reach a).trans hr
  rw [StagingAlias.effectiveReach, hreach, Option.getD_some]

theorem placed_of_silent (hr : a.reach = none) : a.placed = a := by
  unfold StagingAlias.placed
  rw [hr]

theorem effective_derived (h : a.hostUnlessMesh u = .ok b) (hr : a.reach = none) :
    b.effectiveReach u = reachOf u a.kind a.scope a.host := by
  rw [← reachOf_effective h]
  obtain ⟨-, -, -, -, rfl⟩ := hostUnlessMesh_ok.mp h
  rw [placed_of_silent hr, unhosted_kind, unhosted_scope]
  by_cases hmesh : a.kind = "mesh"
  · simp [reachOf, StagingAlias.flagged, hmesh]
  · rw [unhosted_host (a := a.flagged) hmesh]
    rfl

/-- An internal alias that was accepted is marked just when an older hub marks it. -/
theorem marked_iff (h : a.hostUnlessMesh u = .ok b) (hinternal : b.effectiveReach u = .internal) :
    b.public_ = true ↔ ReadsInternal u a ∧ a.lokChecks.getD a.public_ = true := by
  obtain ⟨-, hkind, -, hdocker, hb⟩ := hostUnlessMesh_ok.mp h
  have hpublic : b.public_ = a.lokChecks.getD a.public_ := by
    rw [hb, unhosted_public]
    simp [StagingAlias.flagged]
  have hflag : a.placed.flagged.public_ = b.public_ := by rw [hb, unhosted_public]
  rw [hpublic]
  constructor
  · intro hmarked
    have hnotDocker : a.placed.kind ≠ "docker" := fun hd => by
      rw [hflag, hpublic, hmarked] at hdocker
      cases hdocker hd
    refine ⟨?_, hmarked⟩
    cases hr : a.reach with
    | some r =>
      rw [effective_said h hr] at hinternal
      subst hinternal
      simp [StagingAlias.placed, hr, legacyOf] at hnotDocker
    | none =>
      rw [effective_derived h hr] at hinternal
      rw [placed_of_silent hr] at hkind hnotDocker
      have hnotMesh : a.kind ≠ "mesh" := fun hm => by simp [reachOf, hm] at hinternal
      have habsolute : a.kind = "absolute" := by
        simp only [aliasKinds, List.mem_cons, List.not_mem_nil, or_false] at hkind
        rcases hkind with hk | hk | hk
        · exact hk
        · exact absurd hk hnotMesh
        · exact absurd hk hnotDocker
      cases hs : a.scope with
      | local_ =>
        by_cases hloopback : isLoopbackHost u a.host = true
        · simp [reachOf, habsolute, hs, hloopback] at hinternal
        · exact ⟨hr, habsolute, hs, by simpa using hloopback⟩
      | _ => simp [reachOf, habsolute, hs] at hinternal
  · exact And.right

/-- An alias that is accepted keeps its meaning; of those whose reach is internal, an older hub's may be
marked for checks. -/
theorem accepted_keeps_meaning (h : a.hostUnlessMesh u = .ok b) : KeepsMeaning u a b where
  again := hostUnlessMesh_again h
  said _ hr := effective_said h hr
  derived hr := effective_derived h hr
  stored t instance_ t' pk new hok := by
    obtain ⟨r, hrow, hkind, hscope, hhost, hpublic⟩ := upsert_row hok
    have hreach : r.reach u = b.effectiveReach u := by
      rw [InstanceAlias.reach, hkind, hscope, hhost]
      exact reachOf_effective h
    refine ⟨r, hrow, hreach, fun hubHost out hout => ?_⟩
    obtain ⟨hsame, hmarked⟩ := toUrl_reach hout
    rw [← hreach, ← hpublic]
    exact ⟨hsame, hmarked⟩
  marked hinternal := marked_iff h hinternal

/-! ## Two aliases -/

/-- A library that knows IPv4 addresses, and no letters but the ASCII ones. -/
def plainLibrary : Library := { asciiCasing with isLoopbackAddress := fun s => s.take 4 == "127.".toList }

def plainAlias (host : String) (reach : Option Reach) (public_ : Bool) : StagingAlias :=
  ⟨"a".toList, none, true, some host.toList, some 80, none, none, reach, "absolute", .local_, public_, none⟩

/-- The gateway, on the network of the hub. -/
theorem accepted_keeps_meaning_gateway :
    ∃ b, (plainAlias "gateway" (some .internal) false).hostUnlessMesh plainLibrary = .ok b ∧ b.kind = "docker"
      ∧ KeepsMeaning plainLibrary (plainAlias "gateway" (some .internal) false) b := by
  obtain ⟨b, hb, hkind⟩ := exists_ok_and
    (x := (plainAlias "gateway" (some .internal) false).hostUnlessMesh plainLibrary)
    (p := fun b => b.kind == "docker") (by decide +kernel)
  exact ⟨b, hb, eq_of_beq hkind, accepted_keeps_meaning hb⟩

/-- What an older hub says of a public host, and leaves its scope out, reads as internal, and may be checked. -/
theorem older_alias_is_internal_and_checked :
    ∃ b, (plainAlias "example.com" none true).hostUnlessMesh plainLibrary = .ok b
      ∧ b.effectiveReach plainLibrary = .internal ∧ b.public_ = true := by
  obtain ⟨b, hb, hboth⟩ := exists_ok_and (x := (plainAlias "example.com" none true).hostUnlessMesh plainLibrary)
    (p := fun b => b.effectiveReach plainLibrary == .internal && b.public_) (by decide +kernel)
  rw [Bool.and_eq_true] at hboth
  exact ⟨b, hb, eq_of_beq hboth.1, hboth.2⟩

end AliasReach

end Lok
