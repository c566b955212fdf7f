import Lok.Sidecars
import Lok.Tailnets

/-!
# The sidecar sweep

The periodic sweep of an organization's mesh reaps the enrollments and the hub keys that no client backs,
and deletes the nodes with nothing behind them. It reads what is kept before it lists the nodes, one query
after the other, and looks again before it reaps, but not before it deletes. So it deletes only orphans as
long as nothing comes to be backed that it has looked at, or has read the tables without.
-/

namespace Lok

namespace Sweeps

open Table Runs

structure Sweep where
  organization : Pk
  tailnet : String
  grace : Time
  dryRun : Bool
  migrateTags : Bool

/-- What a sweep and everybody else work on: the database with the mesh, the tailnets, and the policy of the
organization's. -/
structure Fleet where
  db : DB
  net : Net
  plane : Tailnets
  policy : AclPolicy

/-! ## Reaping, call by call -/

/-- What a reap still has to do. Rows and nodes stay as they were read. -/
inductive Task
  -- `reap_enrollment`
  | reap (e : AppMeshEnrollment)
  | select (e : AppMeshEnrollment)
  | delete (l : List (Pk × AppMeshEnrollment))
  -- `revoke_enrollment_nodes`
  | revoke (tailnet : String) (tag : Selector) (key : Option String)
  | find (tailnet : String) (tag : Selector)
  | purge (tag : Selector) (l : List Node)
  -- `reap_hub_sidecar`
  | reapHub (pk : Pk) (h : Hub) (key : Pk)
  | unkey (pk : Pk)
  | dropKey (key : Pk)
  -- `apply_acl_policy`
  | apply

namespace Fleet

variable (f : Fleet)

def retains (grace : Time) (e : AppMeshEnrollment) : Bool :=
  f.db.enrollmentIsRetained grace e.membership e.app e.device

/-- `schedule_enrollment_revocation`: the target is captured before the row goes. -/
def revocation (organization : Pk) (tag : Selector) (key : Option Pk) : List Task :=
  ((f.net.orgMesh organization).map
    fun l => Task.revoke l.2.tailnetName tag ((key.bind f.net.keys.row).map (·.key))).toList

def dropEnrollment (pk : Pk) : Fleet :=
  { f with net := { f.net with enrollments := f.net.enrollments.keep fun k _ => k != pk } }

def deleteMachine (id : Nat) : Fleet := { f with plane := f.plane.deleteMachine id }

def applyPolicy (organization : Pk) : Fleet := { f with policy := f.db.buildAclPolicy f.net organization }

end Fleet

/-- What a task does, and what it leaves to be done. -/
def Task.run (sw : Sweep) (f : Fleet) : Task → Fleet × List Task
  | .reap e => (f, if f.retains sw.grace e then [] else [.select e])
  | .select e => (f, [.delete (f.net.enrollments.filter fun _ x => x.isOf e.membership e.app e.device)])
  | .delete [] => (f, [])
  | .delete ((pk, e) :: l) =>
    (f.dropEnrollment pk, f.revocation e.organization (.app pk) e.authKey ++ [.apply, .delete l])
  | .revoke tailnet tag key =>
    -- an organization's deletion tears its tailnet down as a whole
    if f.net.layers.exists? fun _ l => l.tailnetName == tailnet then
      (key.elim f fun k => { f with plane := f.plane.deleteAuthKey tailnet k }, [.find tailnet tag])
    else (f, [])
  | .find tailnet tag => (f, [.purge tag ((f.plane.listMachines tailnet).filter (·.tags.contains tag))])
  | .purge _ [] => (f, [])
  | .purge tag (n :: l) => (f.deleteMachine n.id, [.purge tag l])
  | .reapHub pk h key =>
    (f, if f.db.hubIdentityIsRetained sw.grace h then []
      else f.revocation h.organization (.hub pk) (some key) ++ [.unkey pk, .dropKey key, .apply])
  | .unkey pk =>
    ({ f with net := { f.net with hubKeys := fun k => if k = pk then none else f.net.hubKeys k } }, [])
  | .dropKey key => ({ f with net := { f.net with keys := f.net.keys.keep fun k _ => k != key } }, [])
  | .apply => (f.applyPolicy sw.organization, [])

/-! ## The sweep -/

/-- How far `reconcile_sidecars` has come. -/
inductive Stage
  | enrollments
  | looking (l : List (Pk × AppMeshEnrollment))
  | hubs
  | lookingAtHubs (l : List (Pk × Hub × Option Pk))
  | apps
  | listing
  | nodes (l : List Node)
  | policy
  | finished

structure State where
  fleet : Fleet
  stage : Stage
  tasks : List Task
  reapedEnrollments : List Pk
  reapedHubs : List Pk
  liveHubs : List Pk
  liveApps : List Pk
  deletedMachines : List Nat

def start (f : Fleet) : State := ⟨f, .enrollments, [], [], [], [], [], []⟩

/-- An orphaned sidecar, or one that still carries the tag from before sidecars were isolated. -/
def Sweep.dooms (sw : Sweep) (lives : Selector → Bool) (n : Node) : Bool :=
  n.tags.any Net.isSidecarTag && (!(n.tags.any fun t => Net.isSidecarTag t && lives t)
    || sw.migrateTags && n.tags.contains (.mesh sw.organization))

namespace State

variable (sw : Sweep) (s : State)

def lives : Selector → Bool
  | .app pk => s.liveApps.contains pk
  | .hub pk => s.liveHubs.contains pk
  | _ => false

def dooms (n : Node) : Bool := sw.dooms s.lives n

/-- The next step of the sweep itself. -/
def nextStage : Option State :=
  match s.stage with
  | .enrollments =>
    some { s with stage := .looking (s.fleet.net.enrollments.filter fun _ e => e.organization == sw.organization) }
  | .looking [] => some { s with stage := .hubs }
  | .looking ((pk, e) :: l) =>
    if s.fleet.retains sw.grace e then some { s with stage := .looking l }
    else some { s with stage := .looking l, reapedEnrollments := s.reapedEnrollments ++ [pk],
                       tasks := if sw.dryRun then [] else [.reap e] }
  | .hubs =>
    some { s with
        stage := .lookingAtHubs ((s.fleet.db.hubs.filter fun _ h => h.organization == sw.organization).map fun r =>
      (r.1, r.2, s.fleet.net.hubKeys r.1)) }
  | .lookingAtHubs [] => some { s with stage := .apps }
  | .lookingAtHubs ((pk, h, key) :: l) =>
    if s.fleet.db.hubIdentityIsRetained sw.grace h then some
      { s with stage := .lookingAtHubs l, liveHubs := s.liveHubs ++ [pk] }
    else match key with
      | none => some { s with stage := .lookingAtHubs l }
      | some k => some { s with stage := .lookingAtHubs l, reapedHubs := s.reapedHubs ++ [pk],
                                tasks := if sw.dryRun then [] else [.reapHub pk h k] }
  | .apps =>
    some { s with stage := .listing, liveApps := s.fleet.net.enrollments.pks fun pk e =>
      e.organization == sw.organization && !s.reapedEnrollments.contains pk }
  | .listing => some { s with stage := .nodes (s.fleet.plane.listMachines sw.tailnet) }
  | .nodes [] => some { s with stage := if sw.dryRun then .finished else .policy }
  | .nodes (n :: l) =>
    if s.dooms sw n then
      some { s with stage := .nodes l, deletedMachines := s.deletedMachines ++ [n.id],
                    fleet := if sw.dryRun then s.fleet else s.fleet.deleteMachine n.id }
    else some { s with stage := .nodes l }
  | .policy => some { s with stage := .finished, fleet := s.fleet.applyPolicy sw.organization }
  | .finished => none

/-- The next step: a reap that is under way goes first. -/
def next : Option State :=
  match s.tasks with
  | [] => s.nextStage sw
  | t :: rest => some { s with fleet := (t.run sw s.fleet).1, tasks := (t.run sw s.fleet).2 ++ rest }

/-- A call that fails ends a revocation, which says so and no more, or the sweep. -/
def fail : State :=
  match s.tasks with
  | .revoke _ _ _ :: rest | .find _ _ :: rest | .purge _ _ :: rest | .apply :: rest => { s with tasks := rest }
  | _ => { s with stage := .finished, tasks := [] }

/-- The node that the next step deletes. -/
def deletes : Option Node :=
  match s.tasks, s.stage with
  | .purge _ (n :: _) :: _, _ => some n
  | [], .nodes (n :: _) => if s.dooms sw n && !sw.dryRun then some n else none
  | _, _ => none

end State

/-! ## Everybody else -/

/-- What holds from one state of the database to a later one: no primary key is given twice, and what an
enrollment or a hub is for stays as it is. -/
structure Later (f g : Fleet) : Prop where
  enrollments : f.net.enrollments.next ≤ g.net.enrollments.next
  hubs : f.db.hubs.next ≤ g.db.hubs.next
  enrollment : ∀ k e, g.net.enrollments.row k = some e → f.net.enrollments.next ≤ k
    ∨ ∃ x, f.net.enrollments.row k = some x ∧ e.isOf x.membership x.app x.device = true
      ∧ e.organization = x.organization
  hub : ∀ k h, g.db.hubs.row k = some h → f.db.hubs.next ≤ k ∨ ∃ x, f.db.hubs.row k = some x
    ∧ h.organization = x.organization

inductive Event
  | next
  | fail
  | others (f : Fleet)

/-- The sweep goes on, one of its calls fails, or somebody else changes anything. -/
inductive Step (sw : Sweep) (s : State) : Event → State → Prop
  | next {t : State} (h : s.next sw = some t) : Step sw s .next t
  | fail : Step sw s .fail s.fail
  | others {f : Fleet} (h : Later s.fleet f) : Step sw s (.others f) { s with fleet := f }

/-! ## What a sweep may delete -/

/-- An enrollment that exists, or a hub with a retained identity, is behind the tag. -/
def Fleet.Backs (f : Fleet) (grace : Time) : Selector → Prop
  | .app k => ∃ e, f.net.enrollments.row k = some e
  | .hub k => ∃ h, f.db.hubs.row k = some h ∧ f.db.hubIdentityIsRetained grace h = true
  | _ => False

/-- What a step takes away is backed by nothing, or it is a node with the old tag that migrates. -/
structure OnlyOrphans (sw : Sweep) (s t : State) : Prop where
  nodes : ∀ n ∈ s.fleet.plane.nodes, n ∉ t.fleet.plane.nodes → ∃ m, s.deletes sw = some m ∧ m.id = n.id
    ∧ ((∀ t ∈ m.tags, Net.isSidecarTag t = true → ¬ s.fleet.Backs sw.grace t)
      ∨ sw.migrateTags = true ∧ .mesh sw.organization ∈ m.tags)
  enrollments : ∀ k e, s.fleet.net.enrollments.row k = some e → t.fleet.net.enrollments.row k ≠ some e →
    s.fleet.retains sw.grace e = false
  hubKeys : ∀ k h, t.fleet.net.hubKeys k ≠ s.fleet.net.hubKeys k → s.fleet.db.hubs.row k = some h →
    s.fleet.db.hubIdentityIsRetained sw.grace h = false

/-- The node that goes next carries one sidecar tag, of the organization's own. -/
def OneTag (sw : Sweep) (s : State) : Prop :=
  ∀ n, s.deletes sw = some n →
    (∀ t ∈ n.tags, ∀ u ∈ n.tags, Net.isSidecarTag t = true → Net.isSidecarTag u = true → t = u)
    ∧ (∀ k e, .app k ∈ n.tags → s.fleet.net.enrollments.row k = some e → e.organization = sw.organization)
    ∧ ∀ k h, .hub k ∈ n.tags → s.fleet.db.hubs.row k = some h → h.organization = sw.organization

/-! ## What others must not do meanwhile -/

/-- The hubs that are still to be looked at, once they were read. -/
def Stage.pendingHubs : Stage → Option (List (Pk × Hub × Option Pk))
  | .enrollments | .looking _ | .hubs => none
  | .lookingAtHubs l => some l
  | .apps | .listing | .nodes _ | .policy | .finished => some []

/-- Whether the kept enrollments were read. -/
def Stage.appsRead : Stage → Bool
  | .listing | .nodes _ | .policy | .finished => true
  | _ => false

/-- The enrollments that are being reaped. -/
def Task.enrollments : Task → List AppMeshEnrollment
  | .reap e | .select e => [e]
  | .delete l => l.map (·.2)
  | _ => []

/-- Every hub of the organization with a retained identity is kept, or will be looked at as what it is. -/
def Fleet.KnowsHubs (f : Fleet) (sw : Sweep) (live : List Pk) (pending : List (Pk × Hub × Option Pk)) : Prop :=
  ∀ k h, f.db.hubs.row k = some h → h.organization = sw.organization →
    f.db.hubIdentityIsRetained sw.grace h = true →
    k ∈ live ∨ ∃ x ∈ pending, x.1 = k ∧ x.2.1.client = h.client

/-- What others leave: no client backs what is being reaped, no hub of the organization is backed that was
read without its identity or passed over, and the organization has no enrollment that was not read. -/
structure Undisturbed (sw : Sweep) (s : State) (f : Fleet) : Prop where
  reaping : ∀ t ∈ s.tasks, ∀ e ∈ t.enrollments, f.retains sw.grace e = false
  hubs : ∀ pending, s.stage.pendingHubs = some pending → f.KnowsHubs sw s.liveHubs pending
  apps : s.stage.appsRead = true →
    ∀ k e, f.net.enrollments.row k = some e → e.organization = sw.organization → k ∈ s.liveApps

def State.Over (s : State) : Prop := (s.stage = .policy ∨ s.stage = .finished) ∧ s.tasks = []

/-- A step that leaves the sweep undisturbed, while there is something left to delete. -/
def CalmStep (sw : Sweep) (s : State) (e : Event) (t : State) : Prop :=
  Step sw s e t ∧ ∀ f, e = .others f → s.Over ∨ Undisturbed sw s f

/-! ## What a real sweep goes by -/

section

variable {sw : Sweep} {s t : State} {f g : Fleet}

/-- The row of the hub is the organization's, if it is still there. -/
def Fleet.OwnHub (f : Fleet) (sw : Sweep) (k : Pk) : Prop :=
  k < f.db.hubs.next ∧ ∀ h, f.db.hubs.row k = some h → h.organization = sw.organization

/-- The hub was looked at, and not kept. -/
def State.Forgone (s : State) (sw : Sweep) (k : Pk) : Prop :=
  s.fleet.OwnHub sw k ∧ k ∉ s.liveHubs ∧ ∃ pending, s.stage.pendingHubs = some pending ∧ k ∉ pending.map (·.1)

/-- Nothing comes to be behind the tag any more. -/
def State.Spent (s : State) (sw : Sweep) : Selector → Prop
  | .app k => k < s.fleet.net.enrollments.next ∧ s.fleet.net.enrollments.row k = none
  | .hub k => s.Forgone sw k
  | _ => False

/-- What was read is still of the same installation, if it is still there. -/
def Fleet.StillOf (f : Fleet) (k : Pk) (e : AppMeshEnrollment) : Prop :=
  k < f.net.enrollments.next ∧ ∀ x, f.net.enrollments.row k = some x → x.isOf e.membership e.app e.device = true

def Task.Sound (sw : Sweep) (s : State) : Task → Prop
  | .reap e | .select e => s.fleet.retains sw.grace e = false
  | .delete l => ∀ r ∈ l, s.fleet.StillOf r.1 r.2 ∧ s.fleet.retains sw.grace r.2 = false
  | .revoke _ tag _ | .find _ tag => s.Spent sw tag
  | .purge tag l => s.Spent sw tag ∧ ∀ n ∈ l, tag ∈ n.tags
  | .reapHub pk _ _ | .unkey pk => s.Forgone sw pk
  | .dropKey _ | .apply => True

def Task.Covers (pk : Pk) (x : AppMeshEnrollment) : Task → Prop
  | .reap e | .select e => x.isOf e.membership e.app e.device = true
  | .delete l => pk ∈ l.map (·.1)
  | _ => False

structure Sound (sw : Sweep) (s : State) : Prop where
  tasks : ∀ t ∈ s.tasks, t.Sound sw s
  hubs : ∀ pending, s.stage.pendingHubs = some pending → s.fleet.KnowsHubs sw s.liveHubs pending
  unread : s.stage.pendingHubs = none → s.liveHubs = []
  pending : ∀ pending, s.stage.pendingHubs = some pending →
    (pending.map (·.1)).Nodup ∧ ∀ x ∈ pending, x.1 ∉ s.liveHubs ∧ s.fleet.OwnHub sw x.1
  apps : s.stage.appsRead = true → ∀ k e, s.fleet.net.enrollments.row k = some e →
    e.organization = sw.organization → k ∈ s.liveApps
  looking : ∀ l, s.stage = .looking l → ∀ r ∈ l, s.fleet.StillOf r.1 r.2
  /-- What is reported as reaped is gone, or going. -/
  reaped : ∀ pk ∈ s.reapedEnrollments, pk < s.fleet.net.enrollments.next
    ∧ ∀ x, s.fleet.net.enrollments.row pk = some x → ∃ t ∈ s.tasks, t.Covers pk x

theorem isOf_trans {x y e : AppMeshEnrollment} (h : x.isOf y.membership y.app y.device = true)
    (k : y.isOf e.membership e.app e.device = true) : x.isOf e.membership e.app e.device = true := by
  simp only [AppMeshEnrollment.isOf, Bool.and_eq_true, beq_iff_eq] at h k ⊢
  exact ⟨⟨h.1.1.trans k.1.1, h.1.2.trans k.1.2⟩, h.2.trans k.2⟩

theorem isOf_self (e : AppMeshEnrollment) : e.isOf e.membership e.app e.device = true := by
  simp [AppMeshEnrollment.isOf]

theorem Fleet.StillOf.of_row {k : Pk} {e : AppMeshEnrollment} (h : f.net.enrollments.row k = some e) :
    f.StillOf k e := by
  refine ⟨lt_next h, fun x hx => ?_⟩
  rw [h] at hx
  obtain rfl := Option.some.inj hx
  exact isOf_self _

theorem retains_of_isOf {x e : AppMeshEnrollment} {grace : Time} (h : x.isOf e.membership e.app e.device = true) :
    f.retains grace x = f.retains grace e := by
  simp only [AppMeshEnrollment.isOf, Bool.and_eq_true, beq_iff_eq] at h
  rw [Fleet.retains, h.1.1, h.1.2, h.2, Fleet.retains]

theorem retained_of_client {db : DB} {grace : Time} {x y : Hub} (h : x.client = y.client) :
    db.hubIdentityIsRetained grace x = db.hubIdentityIsRetained grace y := by
  rw [DB.hubIdentityIsRetained, h, DB.hubIdentityIsRetained]

theorem Sound.forgone (h : Sound sw s) {k : Pk} (hk : s.Forgone sw k) {x : Hub}
    (hx : s.fleet.db.hubs.row k = some x) :
    s.fleet.db.hubIdentityIsRetained sw.grace x = false := by
  obtain ⟨hown, hlive, pending, hpending, hnot⟩ := hk
  by_cases hretained : s.fleet.db.hubIdentityIsRetained sw.grace x = true
  · rcases h.hubs pending hpending k x hx (hown.2 x hx) hretained with hmem | ⟨y, hy, rfl, -⟩
    · exact absurd hmem hlive
    · exact absurd (List.mem_map_of_mem hy) hnot
  · simpa using hretained

theorem Sound.not_backs (h : Sound sw s) {tag : Selector} (hspent : s.Spent sw tag) :
    ¬ s.fleet.Backs sw.grace tag := by
  intro hbacks
  cases tag with
  | app k =>
    obtain ⟨e, he⟩ := hbacks
    rw [hspent.2] at he
    cases he
  | hub k =>
    obtain ⟨x, hx, hretained⟩ := hbacks
    rw [h.forgone hspent hx] at hretained
    cases hretained
  | _ => exact hspent

/-- Every sidecar tag that something is behind is a kept one, when the nodes are looked at. -/
theorem Sound.lives (h : Sound sw s) (hread : s.stage.appsRead = true) (hpending : s.stage.pendingHubs = some [])
    {t : Selector} (hbacks : s.fleet.Backs sw.grace t)
    (happ : ∀ k e, t = .app k → s.fleet.net.enrollments.row k = some e → e.organization = sw.organization)
    (hhub : ∀ k x, t = .hub k → s.fleet.db.hubs.row k = some x → x.organization = sw.organization) :
    s.lives t = true := by
  cases t with
  | app k =>
    obtain ⟨e, he⟩ := hbacks
    simpa [State.lives] using h.apps hread k e he (happ k e rfl he)
  | hub k =>
    obtain ⟨x, hx, hretained⟩ := hbacks
    rcases h.hubs [] hpending k x hx (hhub k x rfl hx) hretained with hmem | ⟨_, hmem, -⟩
    · simpa [State.lives] using hmem
    · cases hmem
  | _ => exact hbacks.elim

theorem Sound.deletes (h : Sound sw s) (hone : OneTag sw s) {n : Node} (hn : s.deletes sw = some n) :
    (∀ t ∈ n.tags, Net.isSidecarTag t = true → ¬ s.fleet.Backs sw.grace t) ∨ sw.migrateTags = true
    ∧ .mesh sw.organization ∈ n.tags := by
  obtain ⟨hsingle, happ, hhub⟩ := hone n hn
  unfold State.deletes at hn
  split at hn
  · rename_i tag m l rest htasks
    obtain rfl := Option.some.inj hn
    obtain ⟨hspent, htagged⟩ : Task.Sound sw s (.purge tag (m :: l)) := h.tasks _ (by rw [htasks]; simp)
    have hsidecar : Net.isSidecarTag tag = true := by
      cases tag with
      | app k => rfl
      | hub k => rfl
      | _ => exact hspent.elim
    refine .inl fun t ht hs => ?_
    rw [hsingle t ht tag (htagged _ (by simp)) hs hsidecar]
    exact h.not_backs hspent
  · rename_i l htasks hstage
    split at hn
    · rename_i hdoomed
      obtain rfl := Option.some.inj hn
      simp only [State.dooms, Sweep.dooms, Bool.and_eq_true, Bool.or_eq_true, Bool.not_eq_true',
        List.any_eq_false] at hdoomed
      rcases hdoomed.1.2 with horphan | hstale
      · refine .inl fun t ht hs hbacks => horphan t ht ⟨hs, ?_⟩
        refine h.lives (by rw [hstage]; rfl) (by rw [hstage]; rfl) hbacks (fun k e hk => ?_) fun k x hk => ?_
        · exact happ k e (hk ▸ ht)
        · exact hhub k x (hk ▸ ht)
      · exact .inr ⟨hstale.1, by simpa using hstale.2⟩
    · cases hn
  · cases hn

/-! ## What a step takes away -/

/-- A task deletes the one node, the one enrollment or the one hub key that it says. -/
theorem Task.run_takes (sw : Sweep) (f : Fleet) (u : Task) :
    (∀ n ∈ f.plane.nodes, n ∉ (u.run sw f).1.plane.nodes → ∃ tag m l, u = .purge tag (m :: l) ∧ m.id = n.id)
    ∧ (∀ k e, f.net.enrollments.row k = some e → (u.run sw f).1.net.enrollments.row k ≠ some e →
      ∃ x l, u = .delete ((k, x) :: l))
    ∧ ∀ k, (u.run sw f).1.net.hubKeys k ≠ f.net.hubKeys k → u = .unkey k := by
  cases u with
  | delete l =>
    cases l with
    | nil =>
      exact ⟨fun n hn hgone => absurd hn hgone, fun k e he hgone => absurd he hgone,
        fun k hgone => absurd rfl hgone⟩
    | cons r l =>
      refine ⟨fun n hn hgone => absurd hn hgone, fun k e he hgone => ?_, fun k hgone => absurd rfl hgone⟩
      by_cases hk : k = r.1
      · exact ⟨r.2, l, by rw [hk]⟩
      · have hkept : (f.dropEnrollment r.1).net.enrollments.row k = some
          e := by simp [Fleet.dropEnrollment, Table.keep_ne_row, hk, he]
        exact absurd hkept hgone
  | revoke tailnet tag key =>
    have hplane : ((Task.revoke tailnet tag key).run sw f).1.plane.nodes = f.plane.nodes := by
      simp only [Task.run]
      split
      · cases key <;> rfl
      · rfl
    have hnet : ((Task.revoke tailnet tag key).run sw f).1.net = f.net := by
      simp only [Task.run]
      split
      · cases key <;> rfl
      · rfl
    rw [hplane, hnet]
    exact ⟨fun n hn hgone => absurd hn hgone, fun k e he hgone => absurd he hgone, fun k hgone => absurd rfl hgone⟩
  | purge tag l =>
    cases l with
    | nil =>
      exact ⟨fun n hn hgone => absurd hn hgone, fun k e he hgone => absurd he hgone,
        fun k hgone => absurd rfl hgone⟩
    | cons m l =>
      refine ⟨fun n hn hgone => ⟨tag, m, l, rfl, ?_⟩, fun k e he hgone => absurd he hgone,
        fun k hgone => absurd rfl hgone⟩
      by_cases hid : n.id = m.id
      · exact hid.symm
      · exact absurd (Tailnets.mem_deleteMachine.mpr ⟨hn, hid⟩) hgone
  | unkey pk =>
    refine ⟨fun n hn hgone => absurd hn hgone, fun k e he hgone => absurd he hgone, fun k hgone => ?_⟩
    by_cases hk : k = pk
    · rw [hk]
    · exact absurd (if_neg hk) hgone
  | _ =>
    exact ⟨fun n hn hgone => absurd hn hgone, fun k e he hgone => absurd he hgone, fun k hgone => absurd rfl hgone⟩

theorem State.nextStage_takes (htasks : s.tasks = []) (h : s.nextStage sw = some t) :
    (∀ n ∈ s.fleet.plane.nodes, n ∉ t.fleet.plane.nodes → ∃ m, s.deletes sw = some m ∧ m.id = n.id)
    ∧ t.fleet.net = s.fleet.net ∧ t.fleet.db = s.fleet.db := by
  have hsame : t.fleet = s.fleet →
    (∀ n ∈ s.fleet.plane.nodes, n ∉ t.fleet.plane.nodes → ∃ m, s.deletes sw = some m ∧ m.id = n.id)
      ∧ t.fleet.net = s.fleet.net ∧ t.fleet.db = s.fleet.db := by
    intro heq
    rw [heq]
    exact ⟨fun n hn hgone => absurd hn hgone, rfl, rfl⟩
  unfold State.nextStage at h
  split at h
  · exact hsame (by rw [← Option.some.inj h])
  · exact hsame (by rw [← Option.some.inj h])
  · split at h <;> exact hsame (by rw [← Option.some.inj h])
  · exact hsame (by rw [← Option.some.inj h])
  · exact hsame (by rw [← Option.some.inj h])
  · split at h
    · exact hsame (by rw [← Option.some.inj h])
    · split at h <;> exact hsame (by rw [← Option.some.inj h])
  · exact hsame (by rw [← Option.some.inj h])
  · exact hsame (by rw [← Option.some.inj h])
  · exact hsame (by rw [← Option.some.inj h])
  · rename_i m l hstage
    split at h
    · rename_i hdoomed
      obtain rfl := Option.some.inj h
      by_cases hdry : sw.dryRun = true
      · exact hsame (if_pos hdry)
      · simp only [if_neg hdry]
        refine ⟨fun n hn hgone => ⟨m, ?_, ?_⟩, rfl, rfl⟩
        · unfold State.deletes
          rw [htasks, hstage]
          simp [hdoomed, hdry]
        · by_cases hid : n.id = m.id
          · exact hid.symm
          · exact absurd (Tailnets.mem_deleteMachine.mpr ⟨hn, hid⟩) hgone
    · exact hsame (by rw [← Option.some.inj h])
  · obtain rfl := Option.some.inj h
    exact ⟨fun n hn hgone => absurd hn hgone, rfl, rfl⟩
  · cases h

theorem Sound.onlyOrphans (h : Sound sw s) (hone : OneTag sw s) (hnext : s.next sw = some t) :
    OnlyOrphans sw s t := by
  unfold State.next at hnext
  split at hnext
  · rename_i htasks
    obtain ⟨hnodes, hnet, -⟩ := State.nextStage_takes htasks hnext
    constructor
    · intro n hn hgone
      obtain ⟨m, hm, hid⟩ := hnodes n hn hgone
      exact ⟨m, hm, hid, h.deletes hone hm⟩
    · intro k e he hgone
      rw [hnet] at hgone
      exact absurd he hgone
    · intro k x hgone
      rw [hnet] at hgone
      exact absurd rfl hgone
  · rename_i u rest htasks
    obtain rfl := Option.some.inj hnext
    have hu : u.Sound sw s := h.tasks u (by rw [htasks]; simp)
    obtain ⟨hnodes, hrows, hkeys⟩ := u.run_takes sw s.fleet
    constructor
    · intro n hn hgone
      obtain ⟨tag, m, l, rfl, hid⟩ := hnodes n hn hgone
      have hm : s.deletes sw = some m := by
        unfold State.deletes
        rw [htasks]
      exact ⟨m, hm, hid, h.deletes hone hm⟩
    · intro k e he hgone
      obtain ⟨x, l, rfl⟩ := hrows k e he hgone
      obtain ⟨hstill, hlost⟩ := hu (k, x) (by simp)
      exact (retains_of_isOf (hstill.2 e he)).trans hlost
    · intro k x hgone hx
      obtain rfl := hkeys k hgone
      exact h.forgone hu hx

/-! ## What the sweep's own steps leave -/

/-- The database is as it was, and enrollments only go. -/
structure Shrunk (f g : Fleet) : Prop where
  db : g.db = f.db
  next : g.net.enrollments.next = f.net.enrollments.next
  rows : ∀ k e, g.net.enrollments.row k = some e → f.net.enrollments.row k = some e

theorem Shrunk.refl (f : Fleet) : Shrunk f f := ⟨rfl, rfl, fun _ _ h => h⟩

theorem Task.run_shrinks (sw : Sweep) (f : Fleet) (t : Task) : Shrunk f (t.run sw f).1 := by
  cases t with
  | delete l =>
    cases l with
    | nil => exact .refl f
    | cons r l => exact ⟨rfl, rfl, fun k e he => (keep_row_eq_some.mp he).1⟩
  | revoke tailnet tag key =>
    simp only [Task.run]
    split
    · cases key <;> exact ⟨rfl, rfl, fun _ _ h => h⟩
    · exact .refl f
  | purge tag l => cases l <;> exact ⟨rfl, rfl, fun _ _ h => h⟩
  | _ => exact ⟨rfl, rfl, fun _ _ h => h⟩

theorem Shrunk.retains (h : Shrunk f g) (grace : Time) (e : AppMeshEnrollment) :
    g.retains grace e = f.retains grace e := by
  rw [Fleet.retains, h.db, Fleet.retains]

theorem Shrunk.stillOf (h : Shrunk f g) {k : Pk} {e : AppMeshEnrollment} (hk : f.StillOf k e) : g.StillOf k e :=
  ⟨by rw [h.next]; exact hk.1, fun x hx => hk.2 x (h.rows k x hx)⟩

theorem Shrunk.ownHub (h : Shrunk f g) {k : Pk} (hk : f.OwnHub sw k) : g.OwnHub sw k := by
  unfold Fleet.OwnHub
  rw [h.db]
  exact hk

theorem Shrunk.knowsHubs (h : Shrunk f g) {live : List Pk} {pending : List (Pk × Hub × Option Pk)}
    (hk : f.KnowsHubs sw live pending) :
    g.KnowsHubs sw live pending := by
  unfold Fleet.KnowsHubs
  rw [h.db]
  exact hk

theorem State.Spent.shrunk {tag : Selector} (h : s.Spent sw tag) (hf : Shrunk s.fleet g) (tasks : List Task) :
    ({ s with fleet := g, tasks := tasks } : State).Spent sw tag := by
  cases tag with
  | app k =>
    refine ⟨by rw [hf.next]; exact h.1, ?_⟩
    cases hrow : g.net.enrollments.row k with
    | none => rfl
    | some e =>
      have := hf.rows k e hrow
      rw [h.2] at this
      cases this
  | hub k => exact ⟨hf.ownHub h.1, h.2⟩
  | _ => exact h

theorem Task.Sound.shrunk {t : Task} (h : t.Sound sw s) (hf : Shrunk s.fleet g) (tasks : List Task) :
    t.Sound sw { s with fleet := g, tasks := tasks } := by
  cases t with
  | reap e => exact (hf.retains _ e).trans h
  | select e => exact (hf.retains _ e).trans h
  | delete l =>
    intro r hr
    exact ⟨hf.stillOf (h r hr).1, (hf.retains _ r.2).trans (h r hr).2⟩
  | revoke tailnet tag key => exact State.Spent.shrunk h hf tasks
  | find tailnet tag => exact State.Spent.shrunk h hf tasks
  | purge tag l => exact ⟨State.Spent.shrunk h.1 hf tasks, h.2⟩
  | reapHub pk x key => exact ⟨hf.ownHub h.1, h.2⟩
  | unkey pk => exact ⟨hf.ownHub h.1, h.2⟩
  | dropKey key => trivial
  | apply => trivial

theorem revocation_sound {organization : Pk} {tag : Selector} {key : Option Pk} (hspent : s.Spent sw tag) :
    ∀ t ∈ f.revocation organization tag key, t.Sound sw s := by
  intro t ht
  simp only [Fleet.revocation, Option.mem_toList, Option.map_eq_some_iff] at ht
  obtain ⟨l, -, rfl⟩ := ht
  exact hspent

theorem Task.Sound.run {t : Task} (h : t.Sound sw s) (tasks : List Task) :
    ∀ u ∈ (t.run sw s.fleet).2, u.Sound sw { s with fleet := (t.run sw s.fleet).1, tasks := tasks } := by
  have hshrunk := t.run_shrinks sw s.fleet
  cases t with
  | reap e =>
    intro u hu
    simp only [Task.run] at hu
    split at hu
    · cases hu
    · obtain rfl := List.mem_singleton.mp hu
      exact h
  | select e =>
    intro u hu
    obtain rfl := List.mem_singleton.mp hu
    intro r hr
    obtain ⟨hrow, hof⟩ := mem_filter.mp (show (r.1, r.2) ∈ _ from hr)
    exact ⟨.of_row hrow, (retains_of_isOf hof).trans h⟩
  | delete l =>
    cases l with
    | nil => simp [Task.run]
    | cons r l =>
      obtain ⟨pk, e⟩ := r
      intro u hu
      rcases List.mem_append.mp hu with hu | hu
      · refine revocation_sound (s := { s with fleet := s.fleet.dropEnrollment pk, tasks := tasks }) ?_ u hu
        exact ⟨(h (pk, e) (by simp)).1.1, by simp [Fleet.dropEnrollment, Table.keep_ne_row]⟩
      · rcases List.mem_cons.mp hu with rfl | hu
        · trivial
        · obtain rfl := List.mem_singleton.mp hu
          exact fun r hr => ⟨hshrunk.stillOf (h r (by simp [hr])).1, (h r (by simp [hr])).2⟩
  | revoke tailnet tag key =>
    intro u hu
    have hspent := State.Spent.shrunk h hshrunk tasks
    simp only [Task.run] at hu hspent
    split at hu
    · obtain rfl := List.mem_singleton.mp hu
      exact hspent
    · cases hu
  | find tailnet tag =>
    intro u hu
    obtain rfl := List.mem_singleton.mp hu
    exact ⟨h, fun n hn => by simpa using (List.mem_filter.mp hn).2⟩
  | purge tag l =>
    cases l with
    | nil => simp [Task.run]
    | cons n l =>
      intro u hu
      obtain rfl := List.mem_singleton.mp hu
      exact ⟨State.Spent.shrunk h.1 hshrunk tasks, fun m hm => h.2 m (by simp [hm])⟩
  | reapHub pk x key =>
    intro u hu
    simp only [Task.run] at hu
    split at hu
    · cases hu
    · rcases List.mem_append.mp hu with hu | hu
      · have hspent : ({ s with tasks := tasks } : State).Spent sw (.hub pk) := h
        exact revocation_sound hspent u hu
      · simp only [List.mem_cons, List.not_mem_nil, or_false] at hu
        rcases hu with rfl | rfl | rfl
        · exact h
        · trivial
        · trivial
  | _ => simp [Task.run]

theorem Task.Covers.run {t : Task} {pk : Pk} {x : AppMeshEnrollment} (h : t.Covers pk x) (hsound : t.Sound sw s)
    (hx : (t.run sw s.fleet).1.net.enrollments.row pk = some x) : ∃ u ∈ (t.run sw s.fleet).2, u.Covers pk x := by
  cases t with
  | reap e =>
    refine ⟨.select e, ?_, h⟩
    simp only [Task.run]
    rw [if_neg (by rw [show s.fleet.retains sw.grace e = false from hsound]; simp)]
    simp
  | select e =>
    refine ⟨_, List.mem_singleton_self _, ?_⟩
    have hmem : (pk, x) ∈ s.fleet.net.enrollments.filter fun _ y => y.isOf e.membership e.app e.device :=
      mem_filter.mpr ⟨hx, h⟩
    exact List.mem_map_of_mem hmem
  | delete l =>
    cases l with
    | nil => cases h
    | cons r l =>
      refine ⟨.delete l, by simp [Task.run], ?_⟩
      rcases List.mem_cons.mp h with rfl | h
      · simp [Task.run, Fleet.dropEnrollment, Table.keep_ne_row] at hx
      · exact h
  | _ => exact h.elim

theorem Sound.run {u : Task} {rest : List Task} (h : Sound sw s) (htasks : s.tasks = u :: rest) :
    Sound sw { s with fleet := (u.run sw s.fleet).1, tasks := (u.run sw s.fleet).2 ++ rest } := by
  have hshrunk := u.run_shrinks sw s.fleet
  have hu : u.Sound sw s := h.tasks u (by rw [htasks]; simp)
  constructor
  · intro t ht
    rcases List.mem_append.mp ht with ht | ht
    · exact hu.run _ t ht
    · exact (h.tasks t (by rw [htasks]; simp [ht])).shrunk hshrunk _
  · exact fun pending hp => hshrunk.knowsHubs (h.hubs pending hp)
  · exact h.unread
  · intro pending hp
    obtain ⟨hnodup, hown⟩ := h.pending pending hp
    exact ⟨hnodup, fun x hx => ⟨(hown x hx).1, hshrunk.ownHub (hown x hx).2⟩⟩
  · exact fun hread k e he => h.apps hread k e (hshrunk.rows k e he)
  · exact fun l hl r hr => hshrunk.stillOf (h.looking l hl r hr)
  · intro pk hpk
    refine ⟨by rw [hshrunk.next]; exact (h.reaped pk hpk).1, fun x hx => ?_⟩
    obtain ⟨t, ht, hcovers⟩ := (h.reaped pk hpk).2 x (hshrunk.rows pk x hx)
    rw [htasks] at ht
    rcases List.mem_cons.mp ht with rfl | ht
    · obtain ⟨v, hv, hcovers⟩ := hcovers.run hu hx
      exact ⟨v, List.mem_append_left _ hv, hcovers⟩
    · exact ⟨t, List.mem_append_right _ ht, hcovers⟩

theorem Later.before (hl : Later f g) {k : Pk} {e : AppMeshEnrollment} (hk : k < f.net.enrollments.next)
    (he : g.net.enrollments.row k = some e) :
    ∃ x, f.net.enrollments.row k = some x ∧ e.isOf x.membership x.app x.device = true := by
  rcases hl.enrollment k e he with hnew | ⟨x, hx, hof, -⟩
  · exact absurd hnew (Nat.not_le_of_lt hk)
  · exact ⟨x, hx, hof⟩

theorem Later.stillOf (hl : Later f g) {k : Pk} {e : AppMeshEnrollment} (hk : f.StillOf k e) : g.StillOf k e := by
  refine ⟨Nat.lt_of_lt_of_le hk.1 hl.enrollments, fun x hx => ?_⟩
  obtain ⟨y, hy, hof⟩ := hl.before hk.1 hx
  exact isOf_trans hof (hk.2 y hy)

theorem Task.Sound.later {u : Task} (h : u.Sound sw s) (hl : Later s.fleet f)
    (hreaping : ∀ e ∈ u.enrollments, f.retains sw.grace e = false) : u.Sound sw { s with fleet := f } := by
  have hown : ∀ k, s.fleet.OwnHub sw k → f.OwnHub sw k := by
    intro k hk
    refine ⟨Nat.lt_of_lt_of_le hk.1 hl.hubs, fun x hx => ?_⟩
    rcases hl.hub k x hx with hnew | ⟨y, hy, horg⟩
    · exact absurd hnew (Nat.not_le_of_lt hk.1)
    · exact horg.trans (hk.2 y hy)
  have hspent : ∀ tag, s.Spent sw tag → ({ s with fleet := f } : State).Spent sw tag := by
    intro tag hspent
    cases tag with
    | app k =>
      refine ⟨Nat.lt_of_lt_of_le hspent.1 hl.enrollments, ?_⟩
      cases hrow : f.net.enrollments.row k with
      | none => rfl
      | some e =>
        rcases hl.enrollment k e hrow with hnew | ⟨x, hx, -⟩
        · exact absurd hnew (Nat.not_le_of_lt hspent.1)
        · rw [hspent.2] at hx
          cases hx
    | hub k => exact ⟨hown k hspent.1, hspent.2⟩
    | _ => exact hspent
  cases u with
  | reap e => exact hreaping e (by simp [Task.enrollments])
  | select e => exact hreaping e (by simp [Task.enrollments])
  | delete l =>
    exact fun r hr => ⟨hl.stillOf (h r hr).1, hreaping r.2 (List.mem_map_of_mem hr)⟩
  | revoke tailnet tag key => exact hspent tag h
  | find tailnet tag => exact hspent tag h
  | purge tag l => exact ⟨hspent tag h.1, h.2⟩
  | reapHub pk x key => exact ⟨hown pk h.1, h.2⟩
  | unkey pk => exact ⟨hown pk h.1, h.2⟩
  | _ => trivial

theorem Task.Covers.of_isOf {u : Task} {pk : Pk} {x e : AppMeshEnrollment} (h : u.Covers pk x)
    (hof : e.isOf x.membership x.app x.device = true) : u.Covers pk e := by
  cases u with
  | reap y => exact isOf_trans hof h
  | select y => exact isOf_trans hof h
  | delete l => exact h
  | _ => exact h

theorem Sound.others (h : Sound sw s) (hl : Later s.fleet f) (hcalm : Undisturbed sw s f) :
    Sound sw { s with fleet := f } where
  tasks t ht := (h.tasks t ht).later hl (hcalm.reaping t ht)
  hubs := hcalm.hubs
  unread := h.unread
  pending pending hp := by
    refine ⟨(h.pending pending hp).1, fun x hx => ⟨((h.pending pending hp).2 x hx).1, ?_⟩⟩
    obtain ⟨hlt, horg⟩ := ((h.pending pending hp).2 x hx).2
    refine ⟨Nat.lt_of_lt_of_le hlt hl.hubs, fun y hy => ?_⟩
    rcases hl.hub x.1 y hy with hnew | ⟨z, hz, hsame⟩
    · exact absurd hnew (Nat.not_le_of_lt hlt)
    · exact hsame.trans (horg z hz)
  apps := hcalm.apps
  looking l hstage r hr := hl.stillOf (h.looking l hstage r hr)
  reaped pk hpk := by
    obtain ⟨hlt, hcovers⟩ := h.reaped pk hpk
    refine ⟨Nat.lt_of_lt_of_le hlt hl.enrollments, fun x hx => ?_⟩
    obtain ⟨y, hy, hof⟩ := hl.before hlt hx
    obtain ⟨t, ht, hcovers⟩ := hcovers y hy
    exact ⟨t, ht, hcovers.of_isOf hof⟩

theorem Sound.gone (h : Sound sw s) (htasks : s.tasks = []) {pk : Pk} (hpk : pk ∈ s.reapedEnrollments) :
    s.fleet.net.enrollments.row pk = none := by
  cases hrow : s.fleet.net.enrollments.row pk with
  | none => rfl
  | some x =>
    obtain ⟨t, ht, -⟩ := (h.reaped pk hpk).2 x hrow
    rw [htasks] at ht
    cases ht

theorem next_of_idle (htasks : s.tasks = []) : s.next sw = s.nextStage sw := by
  unfold State.next
  rw [htasks]

theorem no_tasks (htasks : s.tasks = []) {P : Task → Prop} : ∀ u ∈ s.tasks, P u := by
  simp [htasks]

theorem Sound.readHubs (h : Sound sw s) (htasks : s.tasks = []) (hstage : s.stage = .hubs) :
    Sound sw { s with
        stage := .lookingAtHubs ((s.fleet.db.hubs.filter fun _ h => h.organization == sw.organization).map fun r =>
      (r.1, r.2, s.fleet.net.hubKeys r.1)) } where
  tasks := no_tasks htasks
  hubs pending hp := by
    obtain rfl := Option.some.inj hp
    intro k x hx horg _
    exact .inr ⟨(k, x, _), List.mem_map_of_mem (mem_filter.mpr ⟨hx, by simpa using horg⟩), rfl, rfl⟩
  unread hnone := by cases hnone
  pending pending hp := by
    obtain rfl := Option.some.inj hp
    have hlive : s.liveHubs = [] := h.unread (by rw [hstage]; rfl)
    refine ⟨?_, fun x hx => ⟨by simp [hlive], ?_⟩⟩
    · rw [List.map_map]
      exact pks_nodup _ _
    · obtain ⟨r, hr, rfl⟩ := List.mem_map.mp hx
      obtain ⟨hrow, horg⟩ := mem_filter.mp (show (r.1, r.2) ∈ _ from hr)
      refine ⟨lt_next hrow, fun y hy => ?_⟩
      rw [hrow] at hy
      cases hy
      simpa using horg
  apps hread := by cases hread
  looking l hl := by cases hl
  reaped := h.reaped

theorem Sound.keepHub {pk : Pk} {x : Hub} {key : Option Pk} {l : List (Pk × Hub × Option Pk)} (h : Sound sw s)
    (htasks : s.tasks = []) (hstage : s.stage = .lookingAtHubs ((pk, x, key) :: l)) :
    Sound sw { s with stage := .lookingAtHubs l, liveHubs := s.liveHubs ++ [pk] } where
  tasks := no_tasks htasks
  hubs pending hp := by
    obtain rfl := Option.some.inj hp
    intro k y hy horg hretained
    rcases h.hubs _ (by rw [hstage]; rfl) k y hy horg hretained with hmem | ⟨r, hr, hk, hclient⟩
    · exact .inl (List.mem_append_left _ hmem)
    · rcases List.mem_cons.mp hr with rfl | hr
      · obtain rfl : pk = k := hk
        exact .inl (List.mem_append_right _ (List.mem_singleton_self pk))
      · exact .inr ⟨r, hr, hk, hclient⟩
  unread hnone := by cases hnone
  pending pending hp := by
    obtain rfl := Option.some.inj hp
    obtain ⟨hnodup, hown⟩ := h.pending _ (by rw [hstage]; rfl)
    rw [List.map_cons, List.nodup_cons] at hnodup
    refine ⟨hnodup.2, fun r hr => ⟨?_, (hown r (by simp [hr])).2⟩⟩
    intro hmem
    rcases List.mem_append.mp hmem with hmem | hmem
    · exact (hown r (by simp [hr])).1 hmem
    · have hfirst : r.1 ∈ l.map (·.1) := List.mem_map_of_mem hr
      rw [List.mem_singleton.mp hmem] at hfirst
      exact hnodup.1 hfirst
  apps hread := by cases hread
  looking l hl := by cases hl
  reaped := h.reaped

theorem Sound.passHub {pk : Pk} {x : Hub} {key : Option Pk} {l : List (Pk × Hub × Option Pk)}
    (h : Sound sw s) (reaped : List Pk) (tasks : List Task) (htasks : s.tasks = [])
    (hstage : s.stage = .lookingAtHubs ((pk, x, key) :: l))
    (hlost : s.fleet.db.hubIdentityIsRetained sw.grace x = false) (hnew : ∀ u ∈ tasks, ∃ k, u = .reapHub pk x k) :
    Sound sw { s with stage := .lookingAtHubs l, reapedHubs := reaped, tasks := tasks } := by
  obtain ⟨hnodup, hown⟩ := h.pending _ (by rw [hstage]; rfl)
  rw [List.map_cons, List.nodup_cons] at hnodup
  constructor
  · intro u hu
    obtain ⟨k, rfl⟩ := hnew u hu
    exact ⟨(hown (pk, x, key) (by simp)).2, (hown (pk, x, key) (by simp)).1, l, rfl, hnodup.1⟩
  · intro pending hp
    obtain rfl := Option.some.inj hp
    intro k y hy horg hretained
    rcases h.hubs _ (by rw [hstage]; rfl) k y hy horg hretained with hmem | ⟨r, hr, hk, hclient⟩
    · exact .inl hmem
    · rcases List.mem_cons.mp hr with rfl | hr
      · have hsame : s.fleet.db.hubIdentityIsRetained sw.grace x = s.fleet.db.hubIdentityIsRetained sw.grace y :=
          retained_of_client hclient
        rw [hlost] at hsame
        exact absurd (hsame.trans hretained) (by simp)
      · exact .inr ⟨r, hr, hk, hclient⟩
  · intro hnone
    cases hnone
  · intro pending hp
    obtain rfl := Option.some.inj hp
    exact ⟨hnodup.2, fun r hr => hown r (by simp [hr])⟩
  · intro hread
    cases hread
  · intro l hl
    cases hl
  · intro k hk
    refine ⟨(h.reaped k hk).1, fun y hy => ?_⟩
    have hgone := h.gone htasks hk
    rw [show s.fleet.net.enrollments.row k = some y from hy] at hgone
    cases hgone

/-- The sweep goes on to a stage with the hubs read as before, and maybe the kept enrollments. -/
theorem Sound.goOn {stage : Stage} {apps : List Pk} {deleted : List Nat} (h : Sound sw s) (htasks : s.tasks = [])
    (hf : Shrunk s.fleet f) (hpending : stage.pendingHubs = s.stage.pendingHubs)
    (happs : stage.appsRead = true → ∀ k e, s.fleet.net.enrollments.row k = some e →
      e.organization = sw.organization → k ∈ apps)
    (hlooking : ∀ l, stage = .looking l → ∀ r ∈ l, s.fleet.StillOf r.1 r.2) :
    Sound sw { s with fleet := f, stage := stage, liveApps := apps, deletedMachines := deleted } where
  tasks := no_tasks htasks
  hubs pending hp := hf.knowsHubs (h.hubs pending (hpending ▸ hp))
  unread hnone := h.unread (hpending ▸ hnone)
  pending pending hp := by
    obtain ⟨hnodup, hown⟩ := h.pending pending (hpending ▸ hp)
    exact ⟨hnodup, fun r hr => ⟨(hown r hr).1, hf.ownHub (hown r hr).2⟩⟩
  apps hread k e he := happs hread k e (hf.rows k e he)
  looking l hl r hr := hf.stillOf (hlooking l hl r hr)
  reaped pk hpk := by
    refine ⟨by rw [hf.next]; exact (h.reaped pk hpk).1, fun x hx => ?_⟩
    have hgone := h.gone htasks hpk
    rw [hf.rows pk x hx] at hgone
    cases hgone

theorem Sound.reap {pk : Pk} {e : AppMeshEnrollment} {l : List (Pk × AppMeshEnrollment)} (h : Sound sw s)
    (htasks : s.tasks = [])
    (hstage : s.stage = .looking ((pk, e) :: l)) (hlost : s.fleet.retains sw.grace e = false) :
    Sound sw { s with stage := .looking l, reapedEnrollments := s.reapedEnrollments ++ [pk], tasks := [.reap e] }
    where
  tasks u hu := by
    obtain rfl := List.mem_singleton.mp hu
    exact hlost
  hubs pending hp := by cases hp
  unread _ := h.unread (by rw [hstage]; rfl)
  pending pending hp := by cases hp
  apps hread := by cases hread
  looking l' hl r hr := by
    obtain rfl := Stage.looking.inj hl
    exact h.looking _ hstage r (by simp [hr])
  reaped k hk := by
    rcases List.mem_append.mp hk with hk | hk
    · refine ⟨(h.reaped k hk).1, fun x hx => ?_⟩
      have hgone := h.gone htasks hk
      rw [show s.fleet.net.enrollments.row k = some x from hx] at hgone
      cases hgone
    · obtain rfl := List.mem_singleton.mp hk
      obtain ⟨hlt, hsame⟩ := h.looking _ hstage (k, e) (by simp)
      exact ⟨hlt, fun x hx => ⟨.reap e, by simp, hsame x hx⟩⟩

theorem Sound.nextStage (h : Sound sw s) (hreal : sw.dryRun = false) (htasks : s.tasks = [])
    (hnext : s.nextStage sw = some t) :
    Sound sw t := by
  unfold State.nextStage at hnext
  split at hnext
  · rename_i hstage
    obtain rfl := Option.some.inj hnext
    refine h.goOn htasks (.refl _) (by rw [hstage]; rfl) nofun fun l hl r hr => ?_
    obtain rfl := Stage.looking.inj hl
    exact .of_row (mem_filter.mp (show (r.1, r.2) ∈ _ from hr)).1
  · rename_i hstage
    obtain rfl := Option.some.inj hnext
    exact h.goOn htasks (.refl _) (by rw [hstage]; rfl) nofun nofun
  · rename_i pk e l hstage
    split at hnext
    · obtain rfl := Option.some.inj hnext
      refine h.goOn htasks (.refl _) (by rw [hstage]; rfl) nofun fun l' hl r hr => ?_
      obtain rfl := Stage.looking.inj hl
      exact h.looking _ hstage r (by simp [hr])
    · rename_i hlost
      obtain rfl := Option.some.inj hnext
      rw [hreal]
      exact h.reap htasks hstage (by simpa using hlost)
  · rename_i hstage
    obtain rfl := Option.some.inj hnext
    exact h.readHubs htasks hstage
  · rename_i hstage
    obtain rfl := Option.some.inj hnext
    exact h.goOn htasks (.refl _) (by rw [hstage]; rfl) nofun nofun
  · rename_i pk x key l hstage
    split at hnext
    · obtain rfl := Option.some.inj hnext
      exact h.keepHub htasks hstage
    · rename_i hlost
      split at hnext
      · obtain rfl := Option.some.inj hnext
        have hpass := h.passHub s.reapedHubs [] htasks hstage (by simpa using hlost) nofun
        rw [← htasks] at hpass
        exact hpass
      · rename_i k
        obtain rfl := Option.some.inj hnext
        refine h.passHub _ _ htasks hstage (by simpa using hlost) fun u hu => ?_
        rw [hreal] at hu
        exact ⟨k, List.mem_singleton.mp hu⟩
  · rename_i hstage
    obtain rfl := Option.some.inj hnext
    refine h.goOn htasks (.refl _) (by rw [hstage]; rfl) (fun _ k e he horg => ?_) nofun
    refine mem_pks.mpr ⟨e, he, ?_⟩
    have hkept : k ∉ s.reapedEnrollments := fun hk => by rw [h.gone htasks hk] at he; cases he
    simp [horg, hkept]
  · rename_i hstage
    obtain rfl := Option.some.inj hnext
    exact h.goOn htasks (.refl _) (by rw [hstage]; rfl) (fun _ => h.apps (by rw [hstage]; rfl)) nofun
  · rename_i hstage
    obtain rfl := Option.some.inj hnext
    rw [hreal]
    exact h.goOn htasks (.refl _) (by rw [hstage]; rfl) (fun _ => h.apps (by rw [hstage]; rfl)) nofun
  · rename_i n l hstage
    have happs := h.apps (by rw [hstage]; rfl)
    split at hnext
    · obtain rfl := Option.some.inj hnext
      rw [hreal]
      exact h.goOn htasks ⟨rfl, rfl, fun _ _ he => he⟩ (by rw [hstage]; rfl) (fun _ => happs) nofun
    · obtain rfl := Option.some.inj hnext
      exact h.goOn htasks (.refl _) (by rw [hstage]; rfl) (fun _ => happs) nofun
  · rename_i hstage
    obtain rfl := Option.some.inj hnext
    exact h.goOn htasks ⟨rfl, rfl, fun _ _ he => he⟩ (by rw [hstage]; rfl) (fun _ => h.apps (by rw [hstage]; rfl))
      nofun
  · cases hnext

theorem sound_start (sw : Sweep) (f : Fleet) : Sound sw (start f) where
  tasks := no_tasks rfl
  hubs pending hp := by cases hp
  unread _ := rfl
  pending pending hp := by cases hp
  apps hread := by cases hread
  looking l hl := by cases hl
  reaped pk hpk := by cases hpk

/-- A sweep goes by what it has read, until a call of its own fails. -/
def Goes (sw : Sweep) (s : State) : Prop := Sound sw s ∨ s.Over

theorem Sound.dropTask {u : Task} {rest : List Task} (h : Sound sw s) (htasks : s.tasks = u :: rest)
    (hreaps : ∀ pk x, ¬ u.Covers pk x) : Sound sw { s with tasks := rest } where
  tasks t ht := h.tasks t (by rw [htasks]; simp [ht])
  hubs := h.hubs
  unread := h.unread
  pending := h.pending
  apps := h.apps
  looking := h.looking
  reaped pk hpk := by
    refine ⟨(h.reaped pk hpk).1, fun x hx => ?_⟩
    obtain ⟨t, ht, hcovers⟩ := (h.reaped pk hpk).2 x hx
    rw [htasks] at ht
    rcases List.mem_cons.mp ht with rfl | ht
    · exact absurd hcovers (hreaps pk x)
    · exact ⟨t, ht, hcovers⟩

theorem Sound.fail (h : Sound sw s) : Goes sw s.fail := by
  unfold State.fail
  split
  · rename_i htasks
    exact .inl (h.dropTask htasks fun _ _ hcovers => hcovers)
  · rename_i htasks
    exact .inl (h.dropTask htasks fun _ _ hcovers => hcovers)
  · rename_i htasks
    exact .inl (h.dropTask htasks fun _ _ hcovers => hcovers)
  · rename_i htasks
    exact .inl (h.dropTask htasks fun _ _ hcovers => hcovers)
  · exact .inr ⟨.inr rfl, rfl⟩

theorem State.Over.next (hover : s.Over) (hnext : s.next sw = some t) :
    t = { s with stage := .finished, fleet := s.fleet.applyPolicy sw.organization } := by
  rw [next_of_idle hover.2] at hnext
  unfold State.nextStage at hnext
  rcases hover.1 with hstage | hstage
  · rw [hstage] at hnext
    exact (Option.some.inj hnext).symm
  · rw [hstage] at hnext
    cases hnext

theorem Sound.next (h : Sound sw s) (hreal : sw.dryRun = false) (hnext : s.next sw = some t) : Sound sw t := by
  unfold State.next at hnext
  split at hnext
  · rename_i htasks
    exact h.nextStage hreal htasks hnext
  · rename_i htasks
    obtain rfl := Option.some.inj hnext
    exact h.run htasks

/-- A step that leaves it undisturbed keeps a real sweep to what it has read. -/
theorem Goes.step {e : Event} (hreal : sw.dryRun = false) (h : Goes sw s) (hst : CalmStep sw s e t) :
    Goes sw t := by
  obtain ⟨hst, hcalm⟩ := hst
  rcases h with h | hover
  · cases hst with
    | next hnext => exact .inl (h.next hreal hnext)
    | fail => exact h.fail
    | others hl =>
      rcases hcalm _ rfl with hover | hcalm
      · exact .inr hover
      · exact .inl (h.others hl hcalm)
  · refine .inr ?_
    cases hst with
    | next hnext =>
      rw [hover.next hnext]
      exact ⟨.inr rfl, hover.2⟩
    | fail =>
      unfold State.fail
      rw [hover.2]
      exact ⟨.inr rfl, rfl⟩
    | others hl => exact hover

/-! ## Dry runs -/

/-- A dry run has no reap under way, and does not come to the policy. -/
def Dry (s : State) : Prop := s.tasks = [] ∧ s.stage ≠ .policy

theorem Dry.next (hdry : sw.dryRun = true) (h : Dry s) (hnext : s.next sw = some t) :
    Dry t ∧ t.fleet = s.fleet := by
  obtain ⟨htasks, hpolicy⟩ := h
  rw [next_of_idle htasks] at hnext
  unfold State.nextStage at hnext
  split at hnext
  · obtain rfl := Option.some.inj hnext
    exact ⟨⟨htasks, nofun⟩, rfl⟩
  · obtain rfl := Option.some.inj hnext
    exact ⟨⟨htasks, nofun⟩, rfl⟩
  · split at hnext
    · obtain rfl := Option.some.inj hnext
      exact ⟨⟨htasks, nofun⟩, rfl⟩
    · obtain rfl := Option.some.inj hnext
      exact ⟨⟨rfl, nofun⟩, rfl⟩
  · obtain rfl := Option.some.inj hnext
    exact ⟨⟨htasks, nofun⟩, rfl⟩
  · obtain rfl := Option.some.inj hnext
    exact ⟨⟨htasks, nofun⟩, rfl⟩
  · split at hnext
    · obtain rfl := Option.some.inj hnext
      exact ⟨⟨htasks, nofun⟩, rfl⟩
    · split at hnext
      · obtain rfl := Option.some.inj hnext
        exact ⟨⟨htasks, nofun⟩, rfl⟩
      · obtain rfl := Option.some.inj hnext
        exact ⟨⟨rfl, nofun⟩, rfl⟩
  · obtain rfl := Option.some.inj hnext
    exact ⟨⟨htasks, nofun⟩, rfl⟩
  · obtain rfl := Option.some.inj hnext
    exact ⟨⟨htasks, nofun⟩, rfl⟩
  · obtain rfl := Option.some.inj hnext
    exact ⟨⟨htasks, by simp [hdry]⟩, rfl⟩
  · split at hnext
    · obtain rfl := Option.some.inj hnext
      exact ⟨⟨htasks, nofun⟩, rfl⟩
    · obtain rfl := Option.some.inj hnext
      exact ⟨⟨htasks, nofun⟩, rfl⟩
  · rename_i hstage
    exact absurd hstage hpolicy
  · cases hnext

theorem Dry.step {e : Event} (hdry : sw.dryRun = true) (h : Dry s) (hst : Step sw s e t) : Dry t := by
  cases hst with
  | next hnext => exact (h.next hdry hnext).1
  | fail =>
    unfold State.fail
    rw [h.1]
    exact ⟨rfl, nofun⟩
  | others hl => exact h

theorem onlyOrphans_of_run {ls : List Event} (hrun : Run (CalmStep sw) (start f) ls s) (hone : OneTag sw s)
    (hnext : s.next sw = some t) : OnlyOrphans sw s t := by
  by_cases hdry : sw.dryRun = true
  · have hsame : t.fleet = s.fleet :=
      (Dry.next hdry (hrun.invariant (P := Dry) (fun hs hst => hs.step hdry hst.1) ⟨rfl, nofun⟩) hnext).2
    constructor <;> rw [hsame]
    · exact fun n hn hgone => absurd hn hgone
    · exact fun k e he hgone => absurd he hgone
    · exact fun k x hgone => absurd rfl hgone
  · have hgoes : Goes sw s := hrun.invariant (P := Goes sw) (fun hs hst => hs.step (by simpa using hdry) hst)
      (.inl (sound_start sw f))
    rcases hgoes with hsound | hover
    · exact hsound.onlyOrphans hone hnext
    · rw [hover.next hnext]
      exact ⟨fun n hn hgone => absurd hn hgone, fun k e he hgone => absurd he hgone,
        fun k x hgone => absurd rfl hgone⟩

end

end Sweeps

end Lok
