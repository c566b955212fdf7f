import Mathlib
import Lok.ControlPlane
import Lok.Programs

/-!
# Reconciling meshes with the control plane

The control plane keeps a tailnet for each organization, bound to it by the organization's id. The layers of
lok name them. Either side may have been changed while the other did not know, or a call may have got lost
halfway. A command walks through the layers and brings both sides in line.
-/

namespace Lok

namespace Reconciles

open Programs Table

/-! ## The control plane -/

structure DnsConfig where
  magicDns : Bool
  httpsCerts : Bool
  deriving DecidableEq, Repr

/-- Who has logged in; an older control plane does not say under which subject. -/
structure TailnetUser where
  name : String
  externalId : Option String
  deriving DecidableEq, Repr

structure Tailnet where
  name : String
  organization : Option String
  policy : IamPolicy
  dns : Option DnsConfig
  users : List TailnetUser

structure MeshLayer where
  organization : Pk
  tailnetName : String
  identifier : String
  magicDnsEnabled : Bool
  httpsEnabled : Bool
  deriving DecidableEq, Repr

/-- The database with the layers, and the tailnets of the control plane. -/
structure Meshes where
  db : DB
  layers : Table MeshLayer
  tailnets : Table Tailnet

inductive Fault
  | ionscale (code message : String)
  | integrityError
  deriving DecidableEq, Repr

def Fault.alreadyExists : Fault → Option String
  | .ionscale code message => if code = "already_exists" then some message else none
  | .integrityError => none

abbrev M := Prog Meshes Fault

namespace Meshes

variable (s : Meshes)

def named (name : String) : Option (Nat × Tailnet) := s.tailnets.first fun _ t => t.name == name

def boundTo (organization : String) : Option (Nat × Tailnet) :=
  s.tailnets.first fun _ t => t.organization == some organization

/-- What a call does to the tailnet of a name, and what it answers. -/
def onTailnet {α : Type} (name : String) (f : Tailnet → α × Tailnet) : Except Fault α × Meshes :=
  match s.named name with
  | none => (.error (.ionscale "not_found" s!"tailnet '{name}' not found"), s)
  | some (id, t) => (.ok (f t).1, { s with tailnets := s.tailnets.modify id fun t => (f t).2 })

def createTailnet (name : String) (organization : Option String) : Except Fault Tailnet × Meshes :=
  if (s.named name).isSome then (.error (.ionscale "already_exists" s!"tailnet '{name}' already exists"), s)
  else if organization.any fun o => (s.boundTo o).isSome then
    let bound := organization.getD ""
    (.error (.ionscale "already_exists" s!"organization '{bound}' already has a tailnet"), s)
  else
    let t : Tailnet := ⟨name, organization, ⟨[], fun _ => none⟩, none, []⟩
    (.ok t, { s with tailnets := s.tailnets.insert t })

/-- `update_tailnet`, of the name. -/
def renameTailnet (old new : String) : Except Fault Tailnet × Meshes :=
  if new != old && (s.named old).isSome && (s.named new).isSome then
    (.error (.ionscale "already_exists" s!"tailnet '{new}' already exists"), s)
  else s.onTailnet old fun t => ({ t with name := new }, { t with name := new })

/-- `revoke_account`, in the tailnet of one organization. -/
def revokeAccount (externalId organization : String) : Meshes :=
  { s with tailnets := s.tailnets.updateWhere (fun _ t => t.organization == some organization) fun t =>
    { t with users := t.users.filter (·.externalId != some externalId) } }

/-- `save(update_fields=["tailnet_name", "identifier"])`: both names are unique. -/
def saveNames (layer : Pk) (name : String) : Bool × Meshes :=
  if s.layers.exists? fun k l => k != layer && (l.tailnetName == name || l.identifier == name) then (false, s)
  else (true, { s with
      layers := s.layers.modify layer fun l => { l with tailnetName := name, identifier := name } })

def members (organization : Pk) : List String :=
  (s.db.memberships.filter fun pk m => m.organization == organization && !s.db.isScoped pk).map
    fun m => toString m.2.user

end Meshes

/-! ## What lok calls -/

def getTailnetByOrganization (organization : String) : M (Option Tailnet) :=
  .call fun s => (.ok ((s.boundTo organization).map (·.2)), s)

def createTailnet (name organization : String) : M Tailnet :=
  .call fun s => s.createTailnet name (some organization)

def updateTailnet (old new : String) : M Tailnet := .call fun s => s.renameTailnet old new

def getPolicy (name : String) : M IamPolicy := .call fun s => s.onTailnet name fun t => (t.policy, t)

def updatePolicy (name : String) (policy : IamPolicy) : M Unit :=
  .call fun s => s.onTailnet name fun t => ((), { t with policy := policy })

def setDnsConfig (name : String) (config : DnsConfig) : M Unit :=
  .call fun s => s.onTailnet name fun t => ((), { t with dns := some config })

def listUsers (name : String) : M (List TailnetUser) := .call fun s => s.onTailnet name fun t => (t.users, t)

def revokeAccount (externalId organization : String) : M Unit :=
  .call fun s => (.ok (), s.revokeAccount externalId organization)

def listTailnets : M (List Tailnet) := .call fun s => (.ok (s.tailnets.rows.map (·.2)), s)

/-- `sync`: lok owns `subs`, and carries over what else the policy holds if it can be read. -/
def sync (layer : MeshLayer) : M Unit := do
  let members ← Prog.act fun s => (s.members layer.organization, s)
  let current ← (getPolicy layer.tailnetName).catching fun _ => pure ⟨[], fun _ => none⟩
  updatePolicy layer.tailnetName (current.withSubs members)

/-- `apply_dns_config`, with `raise_on_error` off. -/
def applyDnsConfig (layer : MeshLayer) : M Unit :=
  (setDnsConfig layer.tailnetName ⟨layer.magicDnsEnabled, layer.httpsEnabled⟩).catching fun _ => pure ()

def desiredTailnetName (organization : Pk) : String := toString organization

def ensureOrgMesh (organization : Pk) : M (Option Pk) := do
  let existing ← Prog.act fun s => (s.layers.first fun _ l => l.organization == organization, s)
  match existing with
  | some (pk, _) => return some pk
  | none =>
    let name := desiredTailnetName organization
    let layer : MeshLayer := ⟨organization, name, name, true, true⟩
    let provision : M (Option Pk) := do
      let _ ← createTailnet name (toString organization)
      let pk ← Prog.act fun s =>
        if s.layers.exists? fun _ l => l.tailnetName == name || l.identifier == name then (none, s)
        else (some s.layers.next, { s with layers := s.layers.insert layer })
      match pk with
      | none => .throw .integrityError
      | some pk =>
        sync layer
        applyDnsConfig layer
        return some pk
    provision.catching fun _ => pure none

/-! ## Reconciling one mesh -/

structure ReconcileReport where
  createdTailnet : Bool := false
  renamedFrom : Option String := none
  synced : Bool := false
  dnsApplied : Bool := false
  revoked : List String := []
  warnings : List String := []
  deriving DecidableEq, Repr

def ReconcileReport.changed (r : ReconcileReport) : Bool :=
  r.createdTailnet || r.renamedFrom.any (· != "") || !r.revoked.isEmpty

def ReconcileReport.warn (r : ReconcileReport) (warning : String) : ReconcileReport :=
  { r with warnings := r.warnings ++ [warning] }

/-- The organization's tailnet, created when it is missing. -/
def findTailnet (organization : Pk) (dryRun : Bool) : M (Option Tailnet × ReconcileReport) := do
  let wanted := desiredTailnetName organization
  let tailnet ← getTailnetByOrganization (toString organization)
  match tailnet with
  | some t => return (some t, {})
  | none =>
    let report : ReconcileReport := { createdTailnet := true }
    if dryRun then return (none, report)
    else
      let create : M (Option Tailnet × ReconcileReport) := do
        let t ← createTailnet wanted (toString organization)
        return (some t, report)
      create.catching fun e =>
        match e.alreadyExists with
        | none => .throw e
        | some message => do
          -- raced with another creator, or the name is taken: it is not stolen
          let t ← getTailnetByOrganization (toString organization)
          return (t, report.warn s!"could not create tailnet '{wanted}': {message}")

/-- It is named after the organization's id. -/
def renameTailnet (t : Tailnet) (wanted : String) (dryRun : Bool) (report : ReconcileReport) :
    M (Tailnet × ReconcileReport) :=
  if t.name = wanted then return (t, report)
  else
    let report := { report with renamedFrom := some t.name }
    if dryRun then return (t, report)
    else
      let rename : M (Tailnet × ReconcileReport) := do
        let t ← updateTailnet t.name wanted
        return (t, report)
      rename.catching fun e =>
        match e.alreadyExists with
        | none => .throw e
        | some _ => return (t, report.warn s!"cannot rename tailnet to '{wanted}': name taken on ionscale")

/-- The names of the layer follow; the layer at hand has them even if they could not be saved. -/
def adoptName (pk : Pk) (layer : MeshLayer) (name : String) (dryRun : Bool) (report : ReconcileReport) :
    M (MeshLayer × ReconcileReport) :=
  if layer.tailnetName = name ∧ layer.identifier = name then return (layer, report)
  else if dryRun then return (layer, report)
  else do
    let saved ← Prog.act fun s => s.saveNames pk name
    let layer := { layer with tailnetName := name, identifier := name }
    if saved then return (layer, report)
    else return (layer, report.warn s!"another layer already uses tailnet_name '{name}'; left unchanged")

/-- The users whose subject is no longer a member's. -/
def revokeOrphans (organization : Pk) (name : String) (members : List String) :
    List TailnetUser → ReconcileReport → M ReconcileReport
  | [], report => return report
  | user :: users, report =>
    match user.externalId with
    | none => return report.warn s!"ionscale does not report external ids for '{name}'; cannot detect orphans"
    | some externalId =>
      if members.contains externalId then revokeOrphans organization name members users report
      else do
        revokeAccount externalId (toString organization)
        revokeOrphans organization name members users { report with revoked := report.revoked ++ [externalId] }

/-- `reconcile_layer`, of a layer as it was read. -/
def reconcileLayer (pk : Pk) (layer : MeshLayer) (dryRun revoking : Bool) : M ReconcileReport := do
  let organization := layer.organization
  let (tailnet, report) ← findTailnet organization dryRun
  match tailnet with
  | none => return report
  | some t =>
    let (t, report) ← renameTailnet t (desiredTailnetName organization) dryRun report
    let (layer, report) ← adoptName pk layer t.name dryRun report
    if dryRun then return report
    else
      sync layer
      applyDnsConfig layer
      let report := { report with synced := true, dnsApplied := true }
      if revoking then
        let members ← Prog.act fun s => (s.members organization, s)
        let users ← listUsers layer.tailnetName
        revokeOrphans organization layer.tailnetName members users report
      else return report

/-! ## The command -/

structure Options where
  dryRun : Bool := false
  revokeOrphans : Bool := false
  organization : Option Pk := none
  autoCreateMesh : Bool := true
  deriving DecidableEq, Repr

structure Summary where
  provisioned : List Pk := []
  reports : List (Pk × ReconcileReport) := []
  orphans : List String := []
  changed : Nat := 0
  failed : Nat := 0
  deriving DecidableEq, Repr

def provisionOne (dryRun : Bool) (summary : Summary) (organization : Pk) : M Summary :=
  if dryRun then return { summary with changed := summary.changed + 1 }
  else do
    match ← ensureOrgMesh organization with
    | some _ =>
      return { summary with provisioned := summary.provisioned ++ [organization], changed := summary.changed + 1 }
    | none => return { summary with failed := summary.failed + 1 }

/-- One layer; a broken mesh does not stop the others. -/
def reconcileOne (o : Options) (summary : Summary) (layer : Pk × MeshLayer) : M Summary :=
  let reconcile : M Summary := do
    let report ← reconcileLayer layer.1 layer.2 o.dryRun o.revokeOrphans
    return { summary with reports := summary.reports ++ [(layer.1, report)],
                          changed := summary.changed + if report.changed then 1 else 0 }
  reconcile.catching fun _ => pure { summary with failed := summary.failed + 1 }

def Options.covers (o : Options) (organization : Pk) : Bool := o.organization.all (· == organization)

/-- The layers in the order of their organizations. -/
def Meshes.layersOf (s : Meshes) (o : Options) : List (Pk × MeshLayer) :=
  (s.layers.filter fun _ l => o.covers l.organization).mergeSort fun x y => x.2.organization ≤ y.2.organization

def Meshes.bare (s : Meshes) (o : Options) : List Pk :=
  s.db.organizations.pks fun pk _ => o.covers pk && !s.layers.exists? fun _ l => l.organization == pk

def orphanedTailnets (layers : List (Pk × MeshLayer)) : M (List String) := do
  let tailnets ← listTailnets
  return (tailnets.filter fun t => t.organization.any fun org =>
    org != "" && !layers.any fun l => toString l.2.organization == org).map (·.name)

/-- `reconcile_meshes` without the sidecar pass; it raises in the end if something failed. -/
def reconcileMeshes (o : Options) : M Summary := do
  let bare ← Prog.act fun s => (if o.autoCreateMesh then s.bare o else [], s)
  let summary ← bare.foldlM (provisionOne o.dryRun) {}
  let layers ← Prog.act fun s => (s.layersOf o, s)
  let summary ← layers.foldlM (reconcileOne o) summary
  if o.organization.isSome then return summary
  else
    let orphans ← (orphanedTailnets layers).catching fun _ => pure []
    return { summary with orphans := orphans }

/-! ## Everything that changes meshes -/

def deleteTailnet (name : String) : M Unit :=
  .call fun s =>
    match s.named name with
    | none => (.error (.ionscale "not_found" s!"tailnet '{name}' not found"), s)
    | some (id, _) => (.ok (), { s with tailnets := s.tailnets.keep fun k _ => k != id })

/-- `delete_ionscale_layer`: the row goes, and the tailnet it names once that is committed. -/
def deleteIonscaleLayer (pk : Pk) : M Unit := do
  let layer ← Prog.act fun s => (s.layers.row pk, { s with layers := s.layers.keep fun k _ => k != pk })
  match layer with
  | none => return
  | some l => (deleteTailnet l.tailnetName).catching fun _ => pure ()

/-- `update_ionscale_layer`, of the DNS: what the control plane refuses is not stored. -/
def updateIonscaleLayer (pk : Pk) (magicDns https : Bool) : M Unit := do
  let layer ← Prog.act fun s => (s.layers.row pk, s)
  match layer with
  | none => return
  | some l =>
    if https && !magicDns then return
    else
      setDnsConfig l.tailnetName ⟨magicDns, https⟩
      Prog.act fun s =>
        ((), { s with
            layers := s.layers.modify pk fun l => { l with magicDnsEnabled := magicDns, httpsEnabled := https } })

inductive MeshAction
  -- the rest of the database
  | elsewhere (db : DB)
  | provision (organization : Pk) (wires : List (Wire Fault))
  | reconcile (o : Options) (wires : List (Wire Fault))
  | updateLayer (pk : Pk) (magicDns https : Bool) (wires : List (Wire Fault))
  | deleteLayer (pk : Pk) (wires : List (Wire Fault))
  -- by others, on the control plane
  | created (name : String) (organization : Option String)
  | renamed (old new : String)
  | deleted (name : String)
  | loggedIn (name : String) (user : TailnetUser)
  | policyWritten (name : String) (policy : IamPolicy)

def MeshAction.step (s : Meshes) : MeshAction → Meshes
  | .elsewhere db => { s with db := db }
  | .provision organization wires => (ensureOrgMesh organization s wires).2.1
  | .reconcile o wires => (reconcileMeshes o s wires).2.1
  | .updateLayer pk magicDns https wires => (updateIonscaleLayer pk magicDns https s wires).2.1
  | .deleteLayer pk wires => (deleteIonscaleLayer pk s wires).2.1
  | .created name organization => (s.createTailnet name organization).2
  | .renamed old new => (s.renameTailnet old new).2
  | .deleted name => (deleteTailnet name s []).2.1
  | .loggedIn name user => (s.onTailnet name fun t => ((), { t with users := t.users ++ [user] })).2
  | .policyWritten name policy => (s.onTailnet name fun t => ((), { t with policy := policy })).2

def Meshes.empty : Meshes := ⟨.empty, .empty, .empty⟩

def Meshes.run (s : Meshes) (as : List MeshAction) : Meshes := as.foldl MeshAction.step s

/-! ## What is unique -/

/-- No two tailnets have a name in common, or an organization. -/
structure Unique (s : Meshes) : Prop where
  named : ∀ j k t u, s.tailnets.row j = some t → s.tailnets.row k = some u → t.name = u.name → j = k
  bound : ∀ j k t u o, s.tailnets.row j = some t → s.tailnets.row k = some u → t.organization = some o →
    u.organization = some o → j = k

/-- Besides, no organization has two layers. -/
structure Sound (s : Meshes) : Prop extends Unique s where
  layers : ∀ j k l m, s.layers.row j = some l → s.layers.row k = some m → l.organization = m.organization → j = k

variable {A : Prop} {s t u : Meshes} {pk : Pk} {organization : String}

theorem Unique.same (h : Unique s) (ht : t.tailnets = s.tailnets) : Unique t :=
  ⟨by rw [ht]; exact h.named, by rw [ht]; exact h.bound⟩

theorem Unique.find_named (h : Unique s) {id : Nat} {x : Tailnet} (hx : s.tailnets.row id = some x) :
    s.named x.name = some (id, x) :=
  first_of_unique hx (by simp) fun k y hy hname => h.named k id y x hy hx (by simpa using hname)

theorem Unique.find_bound (h : Unique s) {id : Nat} {x : Tailnet} (hx : s.tailnets.row id = some x)
    (ho : x.organization = some organization) : s.boundTo organization = some (id, x) :=
  first_of_unique hx (by simp [ho]) fun k y hy hbound => h.bound k id y x organization hy hx
    (by simpa using hbound) ho

theorem named_eq_some {name : String} {id : Nat} {x : Tailnet} (h : s.named name = some (id, x)) :
    s.tailnets.row id = some x ∧ x.name = name := by
  obtain ⟨hx, hname⟩ := first_eq_some h
  exact ⟨hx, by simpa using hname⟩

theorem boundTo_eq_some {id : Nat} {x : Tailnet} (h : s.boundTo organization = some (id, x)) :
    s.tailnets.row id = some x ∧ x.organization = some organization := by
  obtain ⟨hx, ho⟩ := first_eq_some h
  exact ⟨hx, by simpa using ho⟩

theorem boundTo_eq_none (h : s.boundTo organization = none) {id : Nat} {x : Tailnet}
    (hx : s.tailnets.row id = some x) :
    x.organization ≠ some organization := by
  have hno := first_eq_none.mp h id x hx
  simpa using hno

theorem named_eq_none {name : String} (h : s.named name = none) {id : Nat} {x : Tailnet}
    (hx : s.tailnets.row id = some x) :
    x.name ≠ name := by
  have hno := first_eq_none.mp h id x hx
  simpa using hno

theorem Unique.modify (h : Unique s) {id : Nat} {f : Tailnet → Tailnet}
    (horg : ∀ x, (f x).organization = x.organization)
    (hname : ∀ x, s.tailnets.row id = some x → ∀ k y, s.tailnets.row k = some y → y.name = (f x).name → k = id) :
    Unique { s with tailnets := s.tailnets.modify id f } := by
  refine ⟨fun j k x y hx hy hxy => ?_, fun j k x y o hx hy hxo hyo => ?_⟩
  · rcases modify_row_eq_some.mp hx with ⟨-, hx'⟩ | ⟨rfl, v, hv, rfl⟩ <;>
      rcases modify_row_eq_some.mp hy with ⟨-, hy'⟩ | ⟨rfl, w, hw, rfl⟩
    · exact h.named j k x y hx' hy' hxy
    · exact hname w hw j x hx' hxy
    · exact (hname v hv k y hy' hxy.symm).symm
    · rfl
  · have hback : ∀ i z, (s.tailnets.modify id f).row i = some z → z.organization = some o →
        ∃ w, s.tailnets.row i = some w ∧ w.organization = some o := by
      intro i z hz hzo
      rcases modify_row_eq_some.mp hz with ⟨-, hz⟩ | ⟨rfl, w, hw, rfl⟩
      · exact ⟨z, hz, hzo⟩
      · exact ⟨w, hw, (horg w).symm.trans hzo⟩
    obtain ⟨x, hx, hxo⟩ := hback j x hx hxo
    obtain ⟨y, hy, hyo⟩ := hback k y hy hyo
    exact h.bound j k x y o hx hy hxo hyo

theorem Unique.insert (h : Unique s) {x : Tailnet} (hname : s.named x.name = none)
    (hbound : ∀ o, x.organization = some o → s.boundTo o = none) :
    Unique { s with tailnets := s.tailnets.insert x } := by
  refine ⟨fun j k y z hy hz hyz => ?_, fun j k y z o hy hz hyo hzo => ?_⟩
  · rcases insert_row_eq_some.mp hy with ⟨rfl, rfl⟩ | hy <;> rcases insert_row_eq_some.mp hz with ⟨rfl, rfl⟩ | hz
    · rfl
    · exact absurd hyz.symm (named_eq_none hname hz)
    · exact absurd hyz (named_eq_none hname hy)
    · exact h.named j k y z hy hz hyz
  · rcases insert_row_eq_some.mp hy with ⟨rfl, rfl⟩ | hy <;> rcases insert_row_eq_some.mp hz with ⟨rfl, rfl⟩ | hz
    · rfl
    · exact absurd hzo (boundTo_eq_none (hbound o hyo) hz)
    · exact absurd hyo (boundTo_eq_none (hbound o hzo) hy)
    · exact h.bound j k y z o hy hz hyo hzo

/-! ## What reconciling one organization leaves alone -/

/-- The tailnet of the organization is still its own; the tailnets of others and all layers but one are as
they were. -/
structure Kept (A : Prop) (pk : Pk) (organization : String) (s t : Meshes) : Prop where
  db : t.db = s.db
  others : ∀ id x, x.organization ≠ some organization → (t.tailnets.row id = some x ↔ s.tailnets.row id = some x)
  own : ∀ id x, s.tailnets.row id = some x → x.organization = some organization →
    ∃ y, t.tailnets.row id = some y ∧ y.organization = some organization ∧ (A → y.policy.other = x.policy.other)
  layers : ∀ k, k ≠ pk → t.layers.row k = s.layers.row k
  layer : ∀ l, s.layers.row pk = some l → ∃ name identifier,
    t.layers.row pk = some { l with tailnetName := name, identifier := identifier }
  gone : s.layers.row pk = none → t.layers.row pk = none

theorem Kept.refl (A : Prop) (pk : Pk) (organization : String) (s : Meshes) : Kept A pk organization s s where
  db := rfl
  others _ _ _ := Iff.rfl
  own _ x hx ho := ⟨x, hx, ho, fun _ => rfl⟩
  layers _ _ := rfl
  layer l hl := ⟨l.tailnetName, l.identifier, hl⟩
  gone h := h

theorem Kept.trans (h : Kept A pk organization s t) (k : Kept A pk organization t u) :
    Kept A pk organization s u where
  db := k.db.trans h.db
  others id x hx := (k.others id x hx).trans (h.others id x hx)
  own id x hx ho := by
    obtain ⟨y, hy, hyo, hother⟩ := h.own id x hx ho
    obtain ⟨z, hz, hzo, hother'⟩ := k.own id y hy hyo
    exact ⟨z, hz, hzo, fun hA => (hother' hA).trans (hother hA)⟩
  layers j hj := (k.layers j hj).trans (h.layers j hj)
  layer l hl := by
    obtain ⟨name, identifier, hl⟩ := h.layer l hl
    obtain ⟨name, identifier, hl⟩ := k.layer _ hl
    exact ⟨name, identifier, hl⟩
  gone hl := k.gone (h.gone hl)

theorem Kept.modify {id : Nat} {x : Tailnet} {f : Tailnet → Tailnet} (hx : s.tailnets.row id = some x)
    (ho : x.organization = some organization) (horg : ∀ x, (f x).organization = x.organization)
    (hother : A → (f x).policy.other = x.policy.other) :
    Kept A pk organization s { s with tailnets := s.tailnets.modify id f } where
  db := rfl
  others j y hy := by
    by_cases hj : j = id
    · subst hj
      simp only [modify_row_self, hx, Option.map_some, Option.some.injEq]
      refine ⟨fun heq => ?_, fun heq => ?_⟩
      · exact absurd (heq ▸ (horg x).trans ho) hy
      · exact absurd (heq ▸ ho) hy
    · rw [modify_row_of_ne hj]
  own j y hy hyo := by
    by_cases hj : j = id
    · subst hj
      rw [hx] at hy
      cases hy
      exact ⟨f x, by rw [modify_row_self, hx]; rfl, (horg x).trans ho, hother⟩
    · exact ⟨y, by rw [modify_row_of_ne hj]; exact hy, hyo, fun _ => rfl⟩
  layers _ _ := rfl
  layer l hl := ⟨l.tailnetName, l.identifier, hl⟩
  gone h := h

theorem Kept.insert {x : Tailnet} (ho : x.organization = some organization) :
    Kept A pk organization s { s with tailnets := s.tailnets.insert x } where
  db := rfl
  others j y hy := by
    rw [insert_row_eq_some]
    refine ⟨fun h => h.elim (fun h => absurd (h.2 ▸ ho) hy) id, .inr⟩
  own j y hy hyo := ⟨y, insert_row_of_some hy, hyo, fun _ => rfl⟩
  layers _ _ := rfl
  layer l hl := ⟨l.tailnetName, l.identifier, hl⟩
  gone h := h

theorem Kept.saveNames (name : String) : Kept A pk organization s (s.saveNames pk name).2 := by
  unfold Meshes.saveNames
  split
  · exact .refl A pk organization s
  · exact {
      db := rfl
      others := fun _ _ _ => Iff.rfl
      own := fun _ x hx ho => ⟨x, hx, ho, fun _ => rfl⟩
      layers := fun k hk => modify_row_of_ne hk
      layer := fun l hl => ⟨name, name, by simp [hl]⟩
      gone := fun hl => by simp [hl] }

theorem Sound.kept (h : Sound s) (k : Kept A pk organization s t) (hunique : Unique t) : Sound t := by
  refine ⟨hunique, fun i j l m hl hm hlm => ?_⟩
  have hback : ∀ i l, t.layers.row i = some l →
    ∃ l', s.layers.row i = some l' ∧ l'.organization = l.organization := by
    intro i l hl
    by_cases hi : i = pk
    · subst hi
      cases hs : s.layers.row i with
      | none =>
        rw [k.gone hs] at hl
        cases hl
      | some l' =>
        obtain ⟨_, _, hl'⟩ := k.layer l' hs
        rw [hl'] at hl
        cases hl
        exact ⟨l', rfl, rfl⟩
    · exact ⟨l, (k.layers i hi).symm.trans hl, rfl⟩
  obtain ⟨l', hl', hlo⟩ := hback i l hl
  obtain ⟨m', hm', hmo⟩ := hback j m hm
  exact h.layers i j l' m' hl' hm' (by rw [hlo, hmo, hlm])

/-! ## Calls about one tailnet -/

/-- Whoever bears the name is the organization's tailnet; if every call is answered, one does, and it
satisfies `Pre`. -/
structure At (A : Prop) (pk organization : Pk) (s₀ : Meshes) (layers : Table MeshLayer) (name : String)
    (Pre : Tailnet → Prop)
    (s : Meshes) : Prop where
  kept : Kept A pk (toString organization) s₀ s
  unique : Unique s
  layers : s.layers = layers
  ours : ∀ id x, s.tailnets.row id = some x → x.name = name → x.organization = some (toString organization)
  borne : A → ∃ id x, s.tailnets.row id = some x ∧ x.organization = some (toString organization)
    ∧ x.name = name ∧ Pre x

section

variable {o : Pk} {s₀ : Meshes} {L : Table MeshLayer} {name : String} {Pre Post : Tailnet → Prop} {α : Type}

theorem At.mono (h : At A pk o s₀ L name Pre s) (hle : ∀ x, Pre x → Post x) : At A pk o s₀ L name Post s where
  kept := h.kept
  unique := h.unique
  layers := h.layers
  ours := h.ours
  borne hA := by
    obtain ⟨id, x, hx, ho, hname, hpre⟩ := h.borne hA
    exact ⟨id, x, hx, ho, hname, hle x hpre⟩

theorem At.lost (h : At A pk o s₀ L name Pre s) (hA : ¬ A) : ¬ A ∧ At A pk o s₀ L name Post s :=
  ⟨hA, h.kept, h.unique, h.layers, h.ours, fun h => absurd h hA⟩

theorem At.of_row (hkept : Kept A pk (toString o) s₀ s) (hunique : Unique s) {id : Nat} {x : Tailnet}
    (hx : s.tailnets.row id = some x) (ho : x.organization = some (toString o)) :
    At A pk o s₀ s.layers x.name (· = x) s where
  kept := hkept
  unique := hunique
  layers := rfl
  ours j y hy hname := by
    obtain rfl := hunique.named j id y x hy hx hname
    rw [hx] at hy
    cases hy
    exact ho
  borne _ := ⟨id, x, hx, ho, rfl, rfl⟩

theorem At.modify (h : At A pk o s₀ L name Pre s) {id : Nat} {x : Tailnet} (hx : s.tailnets.row id = some x)
    (hxname : x.name = name)
    {f : Tailnet → Tailnet} (horg : ∀ x, (f x).organization = x.organization) (hname : ∀ x, (f x).name = x.name)
    (hother : A → ∀ x, Pre x → (f x).policy.other = x.policy.other) :
    At A pk o s₀ L name (fun y => Pre x ∧ y = f x) { s with tailnets := s.tailnets.modify id f } := by
  have ho := h.ours id x hx hxname
  have hpre : A → Pre x := by
    intro hA
    obtain ⟨j, y, hy, -, hyname, hpre⟩ := h.borne hA
    obtain rfl := h.unique.named j id y x hy hx (hyname.trans hxname.symm)
    rw [hx] at hy
    cases hy
    exact hpre
  refine ⟨h.kept.trans (.modify hx ho horg fun hA => hother hA x (hpre hA)), ?_, h.layers,
    fun j y hy hyname => ?_, fun hA => ?_⟩
  · refine h.unique.modify horg fun y hy k z hz hzname => ?_
    rw [hx] at hy
    cases hy
    exact h.unique.named k id z x hz hx (hzname.trans (hname x))
  · rcases modify_row_eq_some.mp hy with ⟨-, hy⟩ | ⟨rfl, z, hz, rfl⟩
    · exact h.ours j y hy hyname
    · rw [hx] at hz
      cases hz
      exact (horg x).trans ho
  · exact ⟨id, f x, modify_row_eq_some.mpr (.inr ⟨rfl, x, hx, rfl⟩), (horg x).trans ho,
      (hname x).trans hxname, hpre hA, rfl⟩

theorem onTailnet_meets {f : Tailnet → α × Tailnet} (horg : ∀ x, (f x).2.organization = x.organization)
    (hname : ∀ x, (f x).2.name = x.name) (hother : A → ∀ x, Pre x → (f x).2.policy.other = x.policy.other) :
    Meets A (At A pk o s₀ L name Pre) (.call fun s => s.onTailnet name f : M α)
      (fun a => At A pk o s₀ L name fun y => ∃ x, Pre x ∧ a = (f x).1 ∧ y = (f x).2)
      (fun _ s => ¬ A ∧ At A pk o s₀ L name Pre s) := by
  have hafter : ∀ s, At A pk o s₀ L name Pre s → ∀ id x, s.named name = some (id, x) →
      At A pk o s₀ L name (fun y => Pre x ∧ y = (f x).2)
        { s with tailnets := s.tailnets.modify id fun t => (f t).2 } := by
    intro s hs id x hfound
    obtain ⟨hx, hxname⟩ := named_eq_some hfound
    exact hs.modify hx hxname horg hname hother
  apply Meets.call
  · intro s hs
    unfold Meshes.onTailnet
    cases hfound : s.named name with
    | none =>
      refine hs.lost fun hA => ?_
      obtain ⟨id, x, hx, -, hxname, -⟩ := hs.borne hA
      exact named_eq_none hfound hx hxname
    | some r =>
      obtain ⟨id, x⟩ := r
      exact (hafter s hs id x hfound).mono fun y hy => ⟨x, hy.1, rfl, hy.2⟩
  · intro hA s e hs
    refine ⟨?_, hs.lost hA⟩
    unfold Meshes.onTailnet
    cases hfound : s.named name with
    | none => exact hs.lost hA
    | some r => exact (hafter s hs r.1 r.2 hfound).lost hA

/-- The tailnet with the policy that `sync` writes. -/
def Tailnet.synced (x : Tailnet) (members : List String) : Tailnet :=
  { x with policy := x.policy.withSubs members }

theorem sync_meets {l : MeshLayer} (ho : l.organization = o) (hname : l.tailnetName = name) :
    Meets A (At A pk o s₀ L name Pre) (sync l)
      (fun _ => At A pk o s₀ L name fun y => ∃ x, Pre x ∧ y = x.synced (s₀.members o))
      (fun _ s => ¬ A ∧ At A pk o s₀ L name Pre s) := by
  subst ho hname
  unfold sync
  apply Meets.bind (Q := fun members s => members = s₀.members l.organization
    ∧ At A pk l.organization s₀ L l.tailnetName Pre s)
  · apply Meets.act
    intro s hs
    refine ⟨?_, hs⟩
    simp only [Meshes.members, hs.kept.db]
  refine fun members => Meets.assume fun hmembers => ?_
  apply Meets.bind (Q := fun current => At A pk l.organization s₀ L l.tailnetName
    fun x => Pre x ∧ x.policy = current)
  · -- a policy that cannot be read is taken to be empty
    apply Meets.catching (F := fun _ s => ¬ A ∧ At A pk l.organization s₀ L l.tailnetName Pre s)
    · apply (onTailnet_meets (f := fun t => (t.policy, t)) (fun _ => rfl) (fun _ => rfl) (fun _ _ _ => rfl)).weaken
        (fun _ hs => hs)
      · intro policy s hs
        exact hs.mono fun y ⟨x, hx, hpolicy, hy⟩ => by subst hy; exact ⟨hx, hpolicy.symm⟩
      · intro _ _ hs
        exact hs
    · intro e
      apply Meets.pure
      intro s hs
      exact (hs.2.lost hs.1).2
  intro current
  apply (onTailnet_meets (f := fun t => ((), { t with policy := current.withSubs members }))
    (fun _ => rfl) (fun _ => rfl)
    fun _ x hx => by rw [← hx.2]; rfl).weaken (fun _ hs => hs)
  · intro _ s hs
    exact hs.mono fun y ⟨x, hx, _, hy⟩ => ⟨x, hx.1, by rw [hy, ← hx.2, hmembers]; rfl⟩
  · intro _ s hs
    exact hs.2.lost hs.1

theorem applyDnsConfig_meets {l : MeshLayer} (hname : l.tailnetName = name) :
    Meets A (At A pk o s₀ L name Pre) (applyDnsConfig l)
      (fun _ => At A pk o s₀ L name
        fun y => ∃ x, Pre x ∧ y = { x with dns := some ⟨l.magicDnsEnabled, l.httpsEnabled⟩ })
      (fun _ _ => False) := by
  subst hname
  apply Meets.catching (F := fun _ s => ¬ A ∧ At A pk o s₀ L l.tailnetName Pre s)
  · apply (onTailnet_meets (f :=
      fun t => ((), { t with dns := some (⟨l.magicDnsEnabled, l.httpsEnabled⟩ : DnsConfig) }))
      (fun _ => rfl) (fun _ => rfl) (fun _ _ _ => rfl)).weaken (fun _ hs => hs)
    · intro _ s hs
      exact hs.mono fun y ⟨x, hx, _, hy⟩ => ⟨x, hx, hy⟩
    · intro _ _ hs
      exact hs
  · intro e
    apply Meets.pure
    intro s hs
    exact (hs.2.lost hs.1).2

/-! ## Orphans -/

def Belongs (members : List String) (u : TailnetUser) : Prop :=
  ∃ externalId ∈ members, u.externalId = some externalId

theorem At.revokeAccount (h : At A pk o s₀ L name Pre s) (externalId : String) :
    At A pk o s₀ L name (fun y =>
      ∃ x, Pre x ∧ y = { x with users := x.users.filter (·.externalId != some externalId) })
      (s.revokeAccount externalId (toString o)) := by
  let f : Tailnet → Tailnet := fun x => { x with users := x.users.filter (·.externalId != some externalId) }
  have hrow : ∀ id y, (s.revokeAccount externalId (toString o)).tailnets.row id = some y →
      ∃ x, s.tailnets.row id = some x ∧ y = if x.organization = some (toString o) then f x else x := by
    intro id y hy
    obtain ⟨x, hx, hxy⟩ := updateWhere_row_eq_some.mp hy
    exact ⟨x, hx, by simpa using hxy.symm⟩
  have hown : ∀ id x, s.tailnets.row id = some x → x.organization = some (toString o) →
      (s.revokeAccount externalId (toString o)).tailnets.row id = some (f x) :=
    fun id x hx hxo => updateWhere_row_eq_some.mpr ⟨x, hx, by simp [hxo, f]⟩
  have hsame : ∀ id y, (s.revokeAccount externalId (toString o)).tailnets.row id = some y →
      ∃ x, s.tailnets.row id = some x ∧ y.name = x.name ∧ y.organization = x.organization := by
    intro id y hy
    obtain ⟨x, hx, rfl⟩ := hrow id y hy
    refine ⟨x, hx, ?_⟩
    split <;> exact ⟨rfl, rfl⟩
  have hkept : Kept A pk (toString o) s (s.revokeAccount externalId (toString o)) := {
    db := rfl
    others := by
      intro id y hyo
      refine ⟨fun hy => ?_, fun hy => updateWhere_row_eq_some.mpr ⟨y, hy, if_neg (by simpa using hyo)⟩⟩
      obtain ⟨x, hx, rfl⟩ := hrow id y hy
      by_cases hxo : x.organization = some (toString o)
      · rw [if_pos hxo] at hyo
        exact absurd hxo hyo
      · rwa [if_neg hxo]
    own := fun id x hx hxo => ⟨f x, hown id x hx hxo, hxo, fun _ => rfl⟩
    layers := fun _ _ => rfl
    layer := fun l hl => ⟨l.tailnetName, l.identifier, hl⟩
    gone := fun hl => hl }
  refine ⟨h.kept.trans hkept, ⟨fun j k x y hx hy hxy => ?_, fun j k x y p hx hy hxp hyp => ?_⟩, h.layers,
    fun id y hy hname => ?_,
    fun hA => ?_⟩
  · obtain ⟨v, hv, hvname, -⟩ := hsame j x hx
    obtain ⟨w, hw, hwname, -⟩ := hsame k y hy
    exact h.unique.named j k v w hv hw (by rw [← hvname, ← hwname, hxy])
  · obtain ⟨v, hv, -, hvorg⟩ := hsame j x hx
    obtain ⟨w, hw, -, hworg⟩ := hsame k y hy
    exact h.unique.bound j k v w p hv hw (hvorg ▸ hxp) (hworg ▸ hyp)
  · obtain ⟨x, hx, hxname, hxorg⟩ := hsame id y hy
    rw [hxorg]
    exact h.ours id x hx (hxname.symm.trans hname)
  · obtain ⟨id, x, hx, hxo, hxname, hpre⟩ := h.borne hA
    exact ⟨id, f x, hown id x hx hxo, hxo, hxname, x, hpre, rfl⟩

theorem revokeAccount_meets (externalId : String) :
    Meets A (At A pk o s₀ L name Pre) (revokeAccount externalId (toString o))
      (fun _ => At A pk o s₀ L name
        fun y => ∃ x, Pre x ∧ y = { x with users := x.users.filter (·.externalId != some externalId) })
      (fun _ s => ¬ A ∧ At A pk o s₀ L name Pre s) := by
  apply Meets.call
  · intro s hs
    exact hs.revokeAccount externalId
  · intro hA s e hs
    exact ⟨(hs.revokeAccount externalId).lost hA, hs.lost hA⟩

theorem revokeOrphans_meets {B : Tailnet → Prop} (hbase : ∀ x us, B x → B { x with users := us })
    {members : List String}
    {users : List TailnetUser} {report : ReconcileReport} :
    Meets A (At A pk o s₀ L name fun x => B x ∧ ∀ u ∈ x.users, u ∈ users ∨ Belongs members u)
      (revokeOrphans o name members users report)
      (fun r s => (r.createdTailnet = report.createdTailnet ∧ r.renamedFrom = report.renamedFrom
          ∧ (r.warnings = [] → report.warnings = []))
        ∧ At A pk o s₀ L name (fun x => B x ∧ (r.warnings = [] → ∀ u ∈ x.users, Belongs members u)) s)
      (fun _ s => ¬ A ∧ At A pk o s₀ L name (fun _ => True) s) := by
  induction users generalizing report with
  | nil =>
    apply Meets.pure
    intro s hs
    exact ⟨⟨rfl, rfl, id⟩, hs.mono fun x hx => ⟨hx.1, fun _ u hu => (hx.2 u hu).resolve_left (by simp)⟩⟩
  | cons user users ih =>
    unfold revokeOrphans
    cases hid : user.externalId with
    | none =>
      apply Meets.pure
      intro s hs
      exact ⟨⟨rfl, rfl, fun h => by simp [ReconcileReport.warn] at h⟩,
        hs.mono fun x hx => ⟨hx.1, fun h => by simp [ReconcileReport.warn] at h⟩⟩
    | some externalId =>
      dsimp only
      by_cases hmember : members.contains externalId = true
      · rw [if_pos hmember]
        apply ih.weaken
        · intro s hs
          refine hs.mono fun x hx => ⟨hx.1, fun u hu => ?_⟩
          rcases hx.2 u hu with hin | hbelongs
          · rcases List.mem_cons.mp hin with rfl | hin
            · exact .inr ⟨externalId, by simpa using hmember, hid⟩
            · exact .inl hin
          · exact .inr hbelongs
        · exact fun _ _ h => h
        · exact fun _ _ h => h
      · rw [if_neg hmember]
        apply Meets.bind
        · apply (revokeAccount_meets externalId).weaken (fun _ hs => hs) (fun _ _ h => h)
          exact fun _ s hs => hs.2.lost hs.1
        intro _
        apply ih.weaken
        · intro s hs
          refine hs.mono fun y ⟨x, hx, hy⟩ => ?_
          subst hy
          refine ⟨hbase x _ hx.1, fun u hu => ?_⟩
          obtain ⟨hu, hother⟩ := List.mem_filter.mp hu
          rcases hx.2 u hu with hin | hbelongs
          · rcases List.mem_cons.mp hin with rfl | hin
            · simp [hid] at hother
            · exact .inl hin
          · exact .inr hbelongs
        · exact fun _ _ h => h
        · exact fun _ _ h => h

/-! ## One mesh -/

/-- What a dry run says a layer's organization needs: a tailnet, or a name for the one it has. -/
def Meshes.foreseen (s : Meshes) (o : Pk) : Bool × Option String :=
  match s.boundTo (toString o) with
  | none => (true, none)
  | some (_, t) => (false, if t.name = desiredTailnetName o then none else some t.name)

/-- After the organization's tailnet was looked for; nothing but tailnets is touched. -/
structure Found (A : Prop) (pk o : Pk) (s₀ : Meshes) (x : Option Tailnet × ReconcileReport) (s : Meshes) :
    Prop where
  kept : Kept A pk (toString o) s₀ s
  unique : Unique s
  layers : s.layers = s₀.layers
  found : ∀ t, x.1 = some t → At A pk o s₀ s₀.layers t.name (· = t) s
  missing : x.1 = none → x.2.warnings ≠ []
  foreseen : A → x.2.createdTailnet = (s₀.foreseen o).1 ∧ x.2.renamedFrom = none
    ∧ (s₀.foreseen o).2 = x.1.bind fun t => if t.name = desiredTailnetName o then none else some t.name

theorem At.of_found (hkept : Kept A pk (toString o) s₀ s) (hunique : Unique s)
    (hlayers : s.layers = s₀.layers) {id : Nat}
    {x : Tailnet} (hx : s.boundTo (toString o) = some (id, x)) : At A pk o s₀ s₀.layers x.name (· = x) s := by
  obtain ⟨hrow, ho⟩ := boundTo_eq_some hx
  rw [← hlayers]
  exact .of_row hkept hunique hrow ho

theorem createTailnet_ok {organization : Option String} {x : Tailnet}
    (h : s.createTailnet name organization = (.ok x, t)) :
    s.named name = none ∧ (∀ o, organization = some o → s.boundTo o = none) ∧ x.name = name
    ∧ x.organization = organization
      ∧ t = { s with tailnets := s.tailnets.insert x } := by
  unfold Meshes.createTailnet at h
  split at h
  · cases h
  · rename_i hname
    split at h
    · cases h
    · rename_i hbound
      cases h
      refine ⟨by simpa using hname, fun o ho => ?_, rfl, rfl, rfl⟩
      subst ho
      simpa using hbound

theorem createTailnet_error {organization : Option String} {e : Fault}
    (h : s.createTailnet name organization = (.error e, t)) :
    t = s ∧ e.alreadyExists.isSome = true := by
  unfold Meshes.createTailnet at h
  split at h
  · cases h
    exact ⟨rfl, rfl⟩
  · split at h
    · cases h
      exact ⟨rfl, rfl⟩
    · cases h

theorem findTailnet_meets (hs₀ : Unique s₀) :
    Meets A (· = s₀) (findTailnet o false) (Found A pk o s₀)
    (fun _ s => ¬ A ∧ Kept A pk (toString o) s₀ s ∧ Unique s) := by
  unfold findTailnet
  apply Meets.bind (Q := fun x s => x = (s₀.boundTo (toString o)).map (·.2) ∧ s = s₀)
  · apply Meets.call
    · intro s hs
      subst hs
      exact ⟨rfl, rfl⟩
    · intro hA s _ hs
      subst hs
      exact ⟨⟨hA, .refl _ _ _ _, hs₀⟩, hA, .refl _ _ _ _, hs₀⟩
  refine fun x => Meets.assume fun hx => ?_
  cases hbound : s₀.boundTo (toString o) with
  | some r =>
    obtain ⟨id, t⟩ := r
    rw [hbound] at hx
    subst hx
    apply Meets.pure
    intro s hs
    subst hs
    refine ⟨.refl _ _ _ _, hs₀, rfl, fun u hu => ?_, (fun h => by cases h), fun _ => ⟨?_, rfl, ?_⟩⟩
    · cases hu
      exact .of_found (.refl _ _ _ _) hs₀ rfl hbound
    · simp only [Meshes.foreseen, hbound]
    · simp only [Meshes.foreseen, hbound, Option.bind_some]
  | none =>
    rw [hbound] at hx
    subst hx
    have hforeseen : s₀.foreseen o = (true, none) := by simp only [Meshes.foreseen, hbound]
    dsimp only [Option.map_none]
    rw [if_neg (by decide)]
    -- if the creation fails, it is because there is such a tailnet, or its answer is lost
    apply Meets.catching (F := fun e s => Kept A pk (toString o) s₀ s ∧ Unique s ∧ s.layers = s₀.layers
      ∧ (A → s = s₀ ∧ e.alreadyExists.isSome = true))
    · apply Meets.bind (Q := fun t s => t.name = desiredTailnetName o
        ∧ Found A pk o s₀ (some t, { createdTailnet := true }) s)
      · have hdone : ∀ t s, s₀.createTailnet (desiredTailnetName o) (some (toString o)) = (.ok t, s) →
            t.name = desiredTailnetName o ∧ Found A pk o s₀ (some t, { createdTailnet := true }) s := by
          intro t s h
          obtain ⟨hname, hfree, htname, hto, rfl⟩ := createTailnet_ok h
          have hunique : Unique { s₀ with tailnets := s₀.tailnets.insert t } :=
            hs₀.insert (htname ▸ hname) fun p hp => hfree p (hto ▸ hp)
          have hkept : Kept A pk (toString o) s₀ { s₀ with tailnets := s₀.tailnets.insert t } := .insert hto
          refine ⟨htname, hkept, hunique, rfl, fun u hu => ?_, (fun h => by cases h), fun _ => ⟨?_, rfl, ?_⟩⟩
          · cases hu
            exact .of_row hkept hunique (insert_row_next _ _) hto
          · rw [hforeseen]
          · simp [hforeseen, htname]
        apply Meets.call
        · intro s hs
          subst hs
          rcases hr : s.createTailnet (desiredTailnetName o) (some (toString o)) with ⟨e | t, u⟩
          · obtain ⟨rfl, he⟩ := createTailnet_error hr
            exact ⟨.refl _ _ _ _, hs₀, rfl, fun _ => ⟨rfl, he⟩⟩
          · exact hdone t u hr
        · intro hA s e hs
          subst hs
          refine ⟨?_, .refl _ _ _ _, hs₀, rfl, fun h => absurd h hA⟩
          rcases hr : s.createTailnet (desiredTailnetName o) (some (toString o)) with ⟨e' | t, u⟩
          · obtain ⟨rfl, -⟩ := createTailnet_error hr
            exact ⟨.refl _ _ _ _, hs₀, rfl, fun h => absurd h hA⟩
          · have hfound := (hdone t u hr).2
            exact ⟨hfound.kept, hfound.unique, hfound.layers, fun h => absurd h hA⟩
      · intro t
        apply Meets.pure
        intro s hs
        exact hs.2
    · intro e
      cases he : e.alreadyExists with
      | none =>
        apply Meets.throw
        intro s hs
        refine ⟨fun hA => ?_, hs.1, hs.2.1⟩
        have hsome := (hs.2.2.2 hA).2
        cases hsome
      | some message =>
        apply Meets.bind (Q := fun x s => x = (s.boundTo (toString o)).map (·.2)
          ∧ Kept A pk (toString o) s₀ s ∧ Unique s
          ∧ s.layers = s₀.layers ∧ (A → s = s₀))
        · apply Meets.call
          · intro s hs
            exact ⟨rfl, hs.1, hs.2.1, hs.2.2.1, fun hA => (hs.2.2.2 hA).1⟩
          · intro hA s _ hs
            exact ⟨⟨hA, hs.1, hs.2.1⟩, hA, hs.1, hs.2.1⟩
        intro x
        apply Meets.pure
        intro s hs
        obtain ⟨rfl, hkept, hunique, hlayers, hsame⟩ := hs
        refine ⟨hkept, hunique, hlayers, fun t ht => ?_, fun _ h => by simp [ReconcileReport.warn] at h,
          fun hA => ⟨?_, rfl, ?_⟩⟩
        · obtain ⟨⟨id, y⟩, hy, rfl⟩ := Option.map_eq_some_iff.mp ht
          exact .of_found hkept hunique hlayers hy
        · rw [hforeseen]
          rfl
        · obtain rfl := hsame hA
          simp only [hforeseen, hbound, Option.map_none, Option.bind_none]

theorem renameTailnet_cases (s : Meshes) {old new : String} (hne : new ≠ old) :
    (∃ message, s.renameTailnet old new = (.error (.ionscale "not_found" message), s) ∧ s.named old = none)
      ∨ (∃ message, s.renameTailnet old new = (.error (.ionscale "already_exists" message), s))
      ∨ ∃ id x, s.named old = some (id, x) ∧ s.named new = none
        ∧ s.renameTailnet old new
          = (.ok { x with name := new },
            { s with tailnets := s.tailnets.modify id fun t => { t with name := new } }) := by
  have hbne : (new != old) = true := by simpa using hne
  unfold Meshes.renameTailnet Meshes.onTailnet
  cases hold : s.named old with
  | none => exact .inl ⟨s!"tailnet '{old}' not found", by simp, rfl⟩
  | some r =>
    cases hnew : s.named new with
    | some q => exact .inr (.inl ⟨s!"tailnet '{new}' already exists", by simp [hbne]⟩)
    | none => exact .inr (.inr ⟨r.1, r.2, rfl, rfl, by simp⟩)

theorem At.renamed {old new : String} (hs : At A pk o s₀ L old Pre s) {id : Nat} {x : Tailnet}
    (hold : s.named old = some (id, x))
    (hnew : s.named new = none) (hne : new ≠ old) :
    At A pk o s₀ L new (· = { x with name := new })
    { s with tailnets := s.tailnets.modify id fun t => { t with name := new } }
      ∧ (¬ A → At A pk o s₀ L old Pre
        { s with tailnets := s.tailnets.modify id fun t => { t with name := new } }) := by
  obtain ⟨hx, hxname⟩ := named_eq_some hold
  have hxo := hs.ours id x hx hxname
  have hunique : Unique { s with tailnets := s.tailnets.modify id fun t => { t with name := new } } :=
    hs.unique.modify (fun _ => rfl) fun _ _ k y hy hyname => absurd hyname (named_eq_none hnew hy)
  have hkept : Kept A pk (toString o) s₀
    { s with tailnets := s.tailnets.modify id fun t => { t with name := new } } :=
    hs.kept.trans (.modify hx hxo (fun _ => rfl) fun _ => rfl)
  refine ⟨⟨hkept, hunique, hs.layers, fun k y hy hyname => ?_, fun _ => ?_⟩,
    fun hA => ⟨hkept, hunique, hs.layers, fun k y hy hyname => ?_, fun h => absurd h hA⟩⟩
  · rcases modify_row_eq_some.mp hy with ⟨-, hy⟩ | ⟨rfl, z, hz, rfl⟩
    · exact absurd hyname (named_eq_none hnew hy)
    · rw [hx] at hz
      cases hz
      exact hxo
  · exact ⟨id, _, modify_row_eq_some.mpr (.inr ⟨rfl, x, hx, rfl⟩), hxo, rfl, rfl⟩
  · rcases modify_row_eq_some.mp hy with ⟨-, hy⟩ | ⟨rfl, z, -, rfl⟩
    · exact hs.ours k y hy hyname
    · exact absurd hyname hne

theorem renameTailnet_meets {t : Tailnet} {report : ReconcileReport} :
    Meets A (At A pk o s₀ L t.name (· = t)) (renameTailnet t (desiredTailnetName o) false report)
      (fun x s => (x.2.createdTailnet = report.createdTailnet
          ∧ x.2.renamedFrom = (if t.name = desiredTailnetName o then report.renamedFrom else some t.name)
          ∧ (x.2.warnings = [] → report.warnings = [] ∧ x.1.name = desiredTailnetName o))
        ∧ At A pk o s₀ L x.1.name (· = x.1) s)
      (fun _ s => ¬ A ∧ Kept A pk (toString o) s₀ s ∧ Unique s) := by
  unfold renameTailnet
  by_cases hname : t.name = desiredTailnetName o
  · rw [if_pos hname]
    apply Meets.pure
    intro s hs
    exact ⟨⟨rfl, by rw [if_pos hname], fun h => ⟨h, hname⟩⟩, hs⟩
  rw [if_neg hname]
  dsimp only
  rw [if_neg (by decide)]
  have hne : desiredTailnetName o ≠ t.name := Ne.symm hname
  apply Meets.catching (F := fun e s => At A pk o s₀ L t.name (· = t) s ∧ (A → e.alreadyExists.isSome = true))
  · apply Meets.bind (Q := fun x s => x.name = desiredTailnetName o ∧ At A pk o s₀ L x.name (· = x) s)
    · apply Meets.call
      · intro s hs
        obtain ⟨message, hr, hnone⟩ | ⟨message, hr⟩ | ⟨id, x, hold, hnew, hr⟩ := renameTailnet_cases s hne
        · rw [hr]
          refine ⟨hs, fun hA => ?_⟩
          obtain ⟨id, x, hx, -, hxname, -⟩ := hs.borne hA
          exact absurd hxname (named_eq_none hnone hx)
        · rw [hr]
          exact ⟨hs, fun _ => rfl⟩
        · rw [hr]
          exact ⟨rfl, (hs.renamed hold hnew hne).1⟩
      · intro hA s e hs
        refine ⟨⟨?_, fun h => absurd h hA⟩, hs, fun h => absurd h hA⟩
        obtain ⟨message, hr, -⟩ | ⟨message, hr⟩ | ⟨id, x, hold, hnew, hr⟩ := renameTailnet_cases s hne
        · rw [hr]
          exact hs
        · rw [hr]
          exact hs
        · rw [hr]
          exact (hs.renamed hold hnew hne).2 hA
    · intro x
      apply Meets.pure
      intro s hs
      exact ⟨⟨rfl, by rw [if_neg hname], fun h => ⟨h, hs.1⟩⟩, hs.2⟩
  · intro e
    cases he : e.alreadyExists with
    | none =>
      apply Meets.throw
      intro s hs
      refine ⟨fun hA => ?_, hs.1.kept, hs.1.unique⟩
      have hsome := hs.2 hA
      cases hsome
    | some message =>
      apply Meets.pure
      intro s hs
      exact ⟨⟨rfl, by rw [if_neg hname]; rfl, fun h => by simp [ReconcileReport.warn] at h⟩, hs.1⟩

theorem adoptName_meets {layer : MeshLayer} {report : ReconcileReport} (hrow : L.row pk = some layer) :
    Meets A (At A pk o s₀ L name Pre) (adoptName pk layer name false report)
      (fun x s => (x.1 = { layer with tailnetName := name, identifier := name }
          ∧ x.2.createdTailnet = report.createdTailnet ∧ x.2.renamedFrom = report.renamedFrom)
        ∧ ∃ L', (x.2.warnings = [] → report.warnings = [] ∧ L'.row pk = some x.1) ∧ At A pk o s₀ L' name Pre s)
      (fun _ _ => False) := by
  unfold adoptName
  by_cases hnames : layer.tailnetName = name ∧ layer.identifier = name
  · rw [if_pos hnames]
    apply Meets.pure
    intro s hs
    have hsame : layer = { layer with tailnetName := name, identifier := name } := by
      obtain ⟨rfl, hidentifier⟩ := hnames
      obtain ⟨organization, tailnetName, identifier, magicDns, https⟩ := layer
      simp_all
    exact ⟨⟨hsame, rfl, rfl⟩, L, fun h => ⟨h, hrow⟩, hs⟩
  rw [if_neg hnames, if_neg (by decide)]
  apply Meets.bind (Q := fun saved s =>
    ∃ L', (saved = true → L'.row pk = some { layer with tailnetName := name, identifier := name })
    ∧ At A pk o s₀ L' name Pre s)
  · apply Meets.act
    intro s hs
    have hkept := hs.kept.trans (.saveNames name : Kept A pk (toString o) s (s.saveNames pk name).2)
    have htailnets : (s.saveNames pk name).2.tailnets = s.tailnets := by
      unfold Meshes.saveNames
      split <;> rfl
    refine ⟨(s.saveNames pk name).2.layers, fun hsaved => ?_, hkept, hs.unique.same htailnets, rfl, ?_, ?_⟩
    · unfold Meshes.saveNames at hsaved ⊢
      split at hsaved
      · cases hsaved
      · rename_i hfree
        rw [if_neg hfree]
        rw [← hs.layers] at hrow
        simp [hrow]
    · rw [htailnets]
      exact hs.ours
    · rw [htailnets]
      exact hs.borne
  intro saved
  cases saved with
  | true =>
    apply Meets.pure
    intro s hs
    obtain ⟨L', hsaved, hs⟩ := hs
    exact ⟨⟨rfl, rfl, rfl⟩, L', fun h => ⟨h, hsaved rfl⟩, hs⟩
  | false =>
    apply Meets.pure
    intro s hs
    obtain ⟨L', -, hs⟩ := hs
    exact ⟨⟨rfl, rfl, rfl⟩, L', (fun h => by simp [ReconcileReport.warn] at h), hs⟩

/-- The layer and its tailnet bear the organization's name, and the tailnet has its members and the layer's
DNS; if orphans are revoked, nobody else has an account. -/
structure InLine (revoking : Bool) (s : Meshes) (pk : Pk) (l : MeshLayer) : Prop where
  layer : s.layers.row pk = some l
  tailnetName : l.tailnetName = desiredTailnetName l.organization
  identifier : l.identifier = desiredTailnetName l.organization
  tailnet : ∃ id x, s.tailnets.row id = some x ∧ x.organization = some (toString l.organization)
    ∧ x.name = desiredTailnetName l.organization ∧ x.policy.subs = s.members l.organization
    ∧ x.dns = some ⟨l.magicDnsEnabled, l.httpsEnabled⟩
    ∧ (revoking = true → ∀ u ∈ x.users, Belongs (s.members l.organization) u)

theorem reconcileLayer_meets {layer : MeshLayer} {revoking : Bool} (hs₀ : Unique s₀)
    (hrow : s₀.layers.row pk = some layer) :
    Meets A (· = s₀) (reconcileLayer pk layer false revoking)
      (fun r s => (Kept A pk (toString layer.organization) s₀ s ∧ Unique s)
        ∧ (A → (r.createdTailnet, r.renamedFrom) = s₀.foreseen layer.organization)
        ∧ (A → r.warnings = [] → ∃ l, l.organization = layer.organization ∧ InLine revoking s pk l))
      (fun _ s => ¬ A ∧ Kept A pk (toString layer.organization) s₀ s ∧ Unique s) := by
  obtain ⟨o, tailnetName, identifier, magicDns, https⟩ := layer
  unfold reconcileLayer
  apply (findTailnet_meets hs₀).bind
  intro x
  obtain ⟨found, report⟩ := x
  cases found with
  | none =>
    apply Meets.pure
    intro s hs
    refine ⟨⟨hs.kept, hs.unique⟩, fun hA => ?_, fun _ h => absurd h (hs.missing rfl)⟩
    obtain ⟨hcreated, hrenamed, hforeseen⟩ := hs.foreseen hA
    exact Prod.ext hcreated (hrenamed.trans hforeseen.symm)
  | some t =>
    dsimp only
    apply Meets.bind (Q := fun x s => ((A → (x.2.createdTailnet, x.2.renamedFrom) = s₀.foreseen o)
      ∧ (x.2.warnings = [] → x.1.name = desiredTailnetName o)) ∧ At A pk o s₀ s₀.layers x.1.name (· = x.1) s)
    · apply Meets.weaken (P := fun s => (A → report.createdTailnet = (s₀.foreseen o).1 ∧ report.renamedFrom = none
        ∧ (s₀.foreseen o).2 = if t.name = desiredTailnetName o then none else some t.name)
        ∧ At A pk o s₀ s₀.layers t.name (· = t) s) (Meets.assume fun hforeseen => ?_)
        (fun s hs => ⟨fun hA => by simpa using hs.foreseen hA, hs.found t rfl⟩) (fun _ _ h => h) (fun _ _ h => h)
      apply renameTailnet_meets.weaken (fun _ h => h)
      · intro x s ⟨⟨hcreated, hrenamed, hwarn⟩, hat⟩
        refine ⟨⟨fun hA => ?_, fun h => (hwarn h).2⟩, hat⟩
        obtain ⟨hcreated', hrenamed', hname⟩ := hforeseen hA
        refine Prod.ext (hcreated.trans hcreated') (hrenamed.trans ?_)
        rw [hname, hrenamed']
      · exact fun _ _ h => h
    intro x
    obtain ⟨t, report⟩ := x
    refine Meets.assume fun hreport => ?_
    obtain ⟨hforeseen, hnamed⟩ := hreport
    dsimp only at hforeseen hnamed ⊢
    apply ((adoptName_meets hrow).weaken (fun _ h => h) (fun _ _ h => h) fun _ _ h => h.elim).bind
    intro x
    obtain ⟨layer, report'⟩ := x
    refine Meets.assume fun hreport' => Meets.choose fun L => Meets.assume fun hlayer => ?_
    obtain ⟨rfl, hcreated, hrenamed⟩ := hreport'
    dsimp only at hcreated hrenamed hlayer ⊢
    rw [if_neg (by decide)]
    have hforeseen' : A → (report'.createdTailnet, report'.renamedFrom) = s₀.foreseen o := fun hA => by
      rw [hcreated, hrenamed, hforeseen hA]
    apply ((sync_meets (l := ⟨o, t.name, t.name, magicDns, https⟩) rfl rfl).weaken (fun _ h => h) (fun _ _ h => h)
      fun _ s hs => ⟨hs.1, hs.2.kept, hs.2.unique⟩).bind
    intro _
    apply ((applyDnsConfig_meets (l := ⟨o, t.name, t.name, magicDns, https⟩) rfl).weaken
      (fun _ h => h) (fun _ _ h => h)
      fun _ _ h => h.elim).bind
    intro _
    dsimp only
    -- what the tailnet is like now, but for its users
    let Base : Tailnet → Prop := fun y => y.policy.subs = s₀.members o ∧ y.dns = some ⟨magicDns, https⟩
    have hinline : ∀ s, ∀ r : ReconcileReport, r.warnings = [] → (r.warnings = [] → report'.warnings = []) → A →
        At A pk o s₀ L t.name (fun y => Base y
          ∧ (revoking = true → r.warnings = [] → ∀ u ∈ y.users, Belongs (s₀.members o) u)) s →
        ∃ l, l.organization = o ∧ InLine revoking s pk l := by
      intro s r hr hmono hA hs
      obtain ⟨hwarn, hL⟩ := hlayer (hmono hr)
      have hname := hnamed hwarn
      have hmembers : s.members o = s₀.members o := by simp only [Meshes.members, hs.kept.db]
      obtain ⟨id, y, hy, hyo, hyname, ⟨hsubs, hdns⟩, husers⟩ := hs.borne hA
      refine ⟨⟨o, t.name, t.name, magicDns, https⟩, rfl, by rw [hs.layers]; exact hL, hname, hname, id, y, hy, hyo,
        hyname.trans hname, ?_, hdns, fun hrevoking => ?_⟩
      · rw [hmembers]
        exact hsubs
      · rw [hmembers]
        exact husers hrevoking hr
    cases revoking with
    | false =>
      apply Meets.pure
      intro s hs
      refine ⟨⟨hs.kept, hs.unique⟩, hforeseen', fun hA hr => ?_⟩
      exact hinline s { report' with synced := true, dnsApplied := true } hr (fun h => h) hA
        (hs.mono fun y ⟨x, ⟨z, _, hz⟩, hy⟩ => by
        subst hz hy
        exact ⟨⟨rfl, rfl⟩, fun h => by cases h⟩)
    | true =>
      rw [if_pos rfl]
      apply Meets.bind (Q := fun members s => members = s₀.members o ∧ At A pk o s₀ L t.name Base s)
      · apply Meets.act
        intro s hs
        refine ⟨by simp only [Meshes.members, hs.kept.db], hs.mono fun y ⟨x, ⟨z, _, hz⟩, hy⟩ => ?_⟩
        subst hz hy
        exact ⟨rfl, rfl⟩
      refine fun members => Meets.assume fun hmembers => ?_
      apply Meets.bind (Q := fun users => At A pk o s₀ L t.name
        fun x => Base x ∧ ∀ u ∈ x.users, u ∈ users ∨ Belongs members u)
      · apply (onTailnet_meets (f := fun t => (t.users, t)) (fun _ => rfl) (fun _ => rfl)
          (fun _ _ _ => rfl)).weaken (fun _ hs => hs)
        · intro users s hs
          exact hs.mono fun y ⟨x, hx, husers, hy⟩ => by
            subst hy
            exact ⟨hx, fun u hu => .inl (husers ▸ hu)⟩
        · exact fun _ s hs => ⟨hs.1, hs.2.kept, hs.2.unique⟩
      intro users
      apply (revokeOrphans_meets (B := Base) (fun _ _ h => h)).weaken (fun _ hs => hs)
      · intro r s ⟨⟨hcreated, hrenamed, hwarn⟩, hs⟩
        refine ⟨⟨hs.kept, hs.unique⟩, fun hA => ?_, fun hA hr => ?_⟩
        · rw [hcreated, hrenamed]
          exact hforeseen' hA
        · exact hinline s r hr hwarn hA (hs.mono fun y hy => ⟨hy.1, fun _ h => hmembers ▸ hy.2 h⟩)
      · exact fun _ s hs => ⟨hs.1, hs.2.kept, hs.2.unique⟩

end

end Reconciles

end Lok
