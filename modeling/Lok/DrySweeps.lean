import Lok.MeshRenewals
import Lok.Sweeps

/-!
# Dry runs of the sidecar sweep

A sweep that is left alone comes to its end, and a dry run then reports what a real one deletes: both look
at the same rows in the same order, and what a reap deletes early is doomed in the listing, if no node
carries two sidecar tags.
-/

namespace Lok

namespace Sweeps

open Table Runs

section

variable {sw : Sweep} {s t : State} {f g : Fleet}

/-! ## A sweep by itself -/

abbrev Alone (sw : Sweep) (s t : State) : Prop := Via (Step sw) (fun e => e = .next) s t

theorem alone_next (h : s.next sw = some t) : Alone sw s t := Via.single (Step.next h) rfl

/-- A reap that goes first leaves the sweep where it was. -/
def Task.Settles (sw : Sweep) (u : Task) : Prop :=
  ∀ (s : State) rest, s.tasks = u :: rest → ∃ g, Alone sw s { s with fleet := g, tasks := rest }

theorem settles_all {l : List Task} (h : ∀ u ∈ l, u.Settles sw) :
    ∀ (s : State) rest, s.tasks = l ++ rest → ∃ g, Alone sw s { s with fleet := g, tasks := rest } := by
  induction l with
  | nil =>
    intro s rest hs
    refine ⟨s.fleet, ?_⟩
    rw [← show s.tasks = rest from hs]
    exact .refl s
  | cons u l ih =>
    intro s rest hs
    obtain ⟨g, hg⟩ := h u (by simp) s (l ++ rest) hs
    obtain ⟨k, hk⟩ := ih (fun v hv => h v (by simp [hv])) { s with fleet := g, tasks := l ++ rest } rest rfl
    exact ⟨k, hg.trans hk⟩

theorem settles_of_run {u : Task} (h : ∀ f, ∀ v ∈ (u.run sw f).2, v.Settles sw) : u.Settles sw := by
  intro s rest hs
  have hnext : s.next sw = some
    { s with fleet := (u.run sw s.fleet).1, tasks := (u.run sw s.fleet).2 ++ rest } := by
    unfold State.next
    rw [hs]
  obtain ⟨g, hg⟩ := settles_all (h s.fleet)
    { s with fleet := (u.run sw s.fleet).1, tasks := (u.run sw s.fleet).2 ++ rest } rest rfl
  exact ⟨g, (alone_next hnext).trans hg⟩

theorem purge_settles (tag : Selector) (l : List Node) : (Task.purge tag l).Settles sw := by
  induction l with
  | nil => exact settles_of_run (by simp [Task.run])
  | cons n l ih => exact settles_of_run fun f v hv => by rwa [List.mem_singleton.mp hv]

theorem revoke_settles (tailnet : String) (tag : Selector) (key : Option String) :
    (Task.revoke tailnet tag key).Settles sw := by
  refine settles_of_run fun f v hv => ?_
  simp only [Task.run] at hv
  split at hv
  · rw [List.mem_singleton.mp hv]
    exact settles_of_run fun f v hv => by rw [List.mem_singleton.mp hv]; exact purge_settles _ _
  · cases hv

theorem revocation_settles {organization : Pk} {tag : Selector} {key : Option Pk} :
    ∀ u ∈ f.revocation organization tag key, u.Settles sw := by
  intro u hu
  simp only [Fleet.revocation, Option.mem_toList, Option.map_eq_some_iff] at hu
  obtain ⟨l, -, rfl⟩ := hu
  exact revoke_settles _ _ _

theorem delete_settles (l : List (Pk × AppMeshEnrollment)) : (Task.delete l).Settles sw := by
  induction l with
  | nil => exact settles_of_run (by simp [Task.run])
  | cons r l ih =>
    refine settles_of_run fun f v hv => ?_
    rcases List.mem_append.mp hv with hv | hv
    · exact revocation_settles v hv
    · simp only [List.mem_cons, List.not_mem_nil, or_false] at hv
      rcases hv with rfl | rfl
      · exact settles_of_run (by simp [Task.run])
      · exact ih

theorem task_settles (u : Task) : u.Settles sw := by
  have hselect : ∀ e, (Task.select e).Settles sw := fun e =>
    settles_of_run fun f v hv => by rw [List.mem_singleton.mp hv]; exact delete_settles _
  cases u with
  | reap e =>
    refine settles_of_run fun f v hv => ?_
    simp only [Task.run] at hv
    split at hv
    · cases hv
    · rw [List.mem_singleton.mp hv]
      exact hselect e
  | select e => exact hselect e
  | delete l => exact delete_settles l
  | revoke tailnet tag key => exact revoke_settles tailnet tag key
  | find tailnet tag =>
    exact settles_of_run fun f v hv => by rw [List.mem_singleton.mp hv]; exact purge_settles _ _
  | purge tag l => exact purge_settles tag l
  | reapHub pk h key =>
    refine settles_of_run fun f v hv => ?_
    simp only [Task.run] at hv
    split at hv
    · cases hv
    · rcases List.mem_append.mp hv with hv | hv
      · exact revocation_settles v hv
      · simp only [List.mem_cons, List.not_mem_nil, or_false] at hv
        rcases hv with rfl | rfl | rfl <;> exact settles_of_run (by simp [Task.run])
  | unkey pk => exact settles_of_run (by simp [Task.run])
  | dropKey key => exact settles_of_run (by simp [Task.run])
  | apply => exact settles_of_run (by simp [Task.run])

def State.Finished (s : State) : Prop := s.stage = .finished ∧ s.tasks = []

/-- From this stage the sweep comes to its end. -/
def Stage.Ends (sw : Sweep) (stage : Stage) : Prop :=
  ∀ s, s.stage = stage → s.tasks = [] → ∃ t, Alone sw s t ∧ t.Finished

theorem ends_of_nextStage {stage : Stage}
    (h : ∀ s : State, s.stage = stage → ∃ t, s.nextStage sw = some t ∧ t.stage.Ends sw) : stage.Ends sw := by
  intro s hs htasks
  obtain ⟨t, hnext, hends⟩ := h s hs
  rw [← next_of_idle htasks] at hnext
  obtain ⟨g, hg⟩ := settles_all (fun u (_ : u ∈ t.tasks) => task_settles u) t [] (List.append_nil _).symm
  obtain ⟨u, hu, hfinished⟩ := hends { t with fleet := g, tasks := [] } rfl rfl
  exact ⟨u, (alone_next hnext).trans (hg.trans hu), hfinished⟩

theorem finished_ends : Stage.finished.Ends sw := fun s hs htasks => ⟨s, .refl s, hs, htasks⟩

theorem nodes_ends (l : List Node) : (Stage.nodes l).Ends sw := by
  induction l with
  | nil =>
    refine ends_of_nextStage fun s hs => ⟨_, by unfold State.nextStage; rw [hs], ?_⟩
    dsimp only
    split
    · exact finished_ends
    · exact ends_of_nextStage fun s hs => ⟨_, by unfold State.nextStage; rw [hs], finished_ends⟩
  | cons n l ih =>
    refine ends_of_nextStage fun s hs => ?_
    unfold State.nextStage
    rw [hs]
    dsimp only
    split
    · exact ⟨_, rfl, ih⟩
    · exact ⟨_, rfl, ih⟩

theorem apps_ends : Stage.apps.Ends sw :=
  ends_of_nextStage fun s hs => ⟨_, by unfold State.nextStage; rw [hs],
    ends_of_nextStage fun s hs => ⟨_, by unfold State.nextStage; rw [hs], nodes_ends _⟩⟩

theorem hubs_ends (l : List (Pk × Hub × Option Pk)) : (Stage.lookingAtHubs l).Ends sw := by
  induction l with
  | nil => exact ends_of_nextStage fun s hs => ⟨_, by unfold State.nextStage; rw [hs], apps_ends⟩
  | cons x l ih =>
    refine ends_of_nextStage fun s hs => ?_
    unfold State.nextStage
    rw [hs]
    dsimp only
    split
    · exact ⟨_, rfl, ih⟩
    · split
      · exact ⟨_, rfl, ih⟩
      · exact ⟨_, rfl, ih⟩

theorem looking_ends (l : List (Pk × AppMeshEnrollment)) : (Stage.looking l).Ends sw := by
  induction l with
  | nil =>
    exact ends_of_nextStage fun s hs => ⟨_, by unfold State.nextStage; rw [hs],
      ends_of_nextStage fun s hs => ⟨_, by unfold State.nextStage; rw [hs], hubs_ends _⟩⟩
  | cons r l ih =>
    refine ends_of_nextStage fun s hs => ?_
    unfold State.nextStage
    rw [hs]
    dsimp only
    split
    · exact ⟨_, rfl, ih⟩
    · exact ⟨_, rfl, ih⟩

theorem start_ends (sw : Sweep) (f : Fleet) : ∃ t, Alone sw (start f) t ∧ t.Finished :=
  (ends_of_nextStage fun s hs => ⟨_, by unfold State.nextStage; rw [hs], looking_ends _⟩ :
    Stage.enrollments.Ends sw) (start f) rfl rfl

end

/-! ## What there is to report -/

namespace Fleet

variable (f : Fleet) (sw : Sweep)

def ownEnrollments : List (Pk × AppMeshEnrollment) :=
  f.net.enrollments.filter fun _ e => e.organization == sw.organization

/-- The hubs of the organization, each with its key. -/
def ownHubs : List (Pk × Hub × Option Pk) :=
  (f.db.hubs.filter fun _ h => h.organization == sw.organization).map fun r => (r.1, r.2, f.net.hubKeys r.1)

def unbacked (l : List (Pk × AppMeshEnrollment)) : List Pk := (l.filter fun r => !f.retains sw.grace r.2).map (·.1)

def kept (l : List (Pk × Hub × Option Pk)) : List Pk :=
  (l.filter fun x => f.db.hubIdentityIsRetained sw.grace x.2.1).map (·.1)

def unkeyed (l : List (Pk × Hub × Option Pk)) : List Pk :=
  (l.filter fun x => !f.db.hubIdentityIsRetained sw.grace x.2.1 && x.2.2.isSome).map (·.1)

/-- The organization keeps the enrollment, or the identity of the hub, of the tag. -/
def keeps : Selector → Bool
  | .app k => (f.net.enrollments.row k).any fun e => e.organization == sw.organization && f.retains sw.grace e
  | .hub k =>
    (f.db.hubs.row k).any fun h => h.organization == sw.organization && f.db.hubIdentityIsRetained sw.grace h
  | _ => false

def doomed (l : List Node) : List Nat := (l.filter (sw.dooms (f.keeps sw))).map (·.id)

/-- A sidecar tag that the organization does not keep. -/
def Loses (tag : Selector) : Prop := Net.isSidecarTag tag = true ∧ f.keeps sw tag = false

/-- The swept tailnet is the mesh of the organization, and a node carries one sidecar tag. -/
structure Tidy : Prop where
  lawful : f.net.Lawful
  mesh : ∀ l, f.net.orgMesh sw.organization = some l → l.2.tailnetName = sw.tailnet
  tags : ∀ n ∈ f.plane.listMachines sw.tailnet, ∀ t ∈ n.tags, ∀ u ∈ n.tags,
    Net.isSidecarTag t = true → Net.isSidecarTag u = true → t = u

end Fleet

namespace Stage

variable (sw : Sweep) (f : Fleet)

def enrollmentsLeft : Stage → List (Pk × AppMeshEnrollment)
  | .enrollments => f.ownEnrollments sw
  | .looking l => l
  | _ => []

def hubsLeft : Stage → List (Pk × Hub × Option Pk)
  | .enrollments | .looking _ | .hubs => f.ownHubs sw
  | .lookingAtHubs l => l
  | _ => []

def nodesLeft : Stage → List Node
  | .nodes l => l
  | .policy | .finished => []
  | _ => f.plane.listMachines sw.tailnet

end Stage

/-- The task is about what there is to report. -/
def Task.Fits (sw : Sweep) (f : Fleet) (hubs : List Pk) : Task → Prop
  | .reap e | .select e => e.app.organization = sw.organization ∧ f.retains sw.grace e = false
  | .delete l =>
    ∀ r ∈ l, f.net.enrollments.row r.1 = some r.2 ∧ r.2.organization = sw.organization
      ∧ f.retains sw.grace r.2 = false
  | .revoke tailnet tag _ | .find tailnet tag => tailnet = sw.tailnet ∧ f.Loses sw tag
  | .purge tag l => f.Loses sw tag ∧ ∀ n ∈ l, n ∈ f.plane.listMachines sw.tailnet ∧ tag ∈ n.tags
  | .reapHub pk h _ => f.db.hubs.row pk = some h ∧ h.organization = sw.organization
      ∧ f.db.hubIdentityIsRetained sw.grace h = false ∧ pk ∈ hubs
  | .unkey pk => pk ∈ hubs
  | .dropKey _ | .apply => True

/-- The task will take the key of the hub. -/
def Task.Unkeys (k : Pk) : Task → Prop
  | .reapHub pk _ _ | .unkey pk => pk = k
  | _ => False

/-- How far a sweep by itself has come with what there was to report, and what it has left of it. -/
structure Follows (sw : Sweep) (f : Fleet) (s : State) : Prop where
  db : s.fleet.db = f.db
  layers : s.fleet.net.layers = f.net.layers
  rows : ∀ k e, s.fleet.net.enrollments.row k = some e → f.net.enrollments.row k = some e
  spared : ∀ k e, f.net.enrollments.row k = some e →
    s.fleet.net.enrollments.row k = some e ∨ e.organization = sw.organization ∧ f.retains sw.grace e = false
  hubKeys : ∀ k, s.fleet.net.hubKeys k = f.net.hubKeys k ∨ s.fleet.net.hubKeys k = none ∧ k ∈ s.reapedHubs
  unkeyed : sw.dryRun = false → ∀ k ∈ s.reapedHubs, s.fleet.net.hubKeys k = none ∨ ∃ t ∈ s.tasks, t.Unkeys k
  tasks : ∀ t ∈ s.tasks, t.Fits sw f s.reapedHubs
  nodes : ∃ ids : List Nat, (∀ i ∈ ids, i ∈ f.doomed sw (f.plane.listMachines sw.tailnet))
    ∧ ∀ n, n ∈ s.fleet.plane.nodes ↔ n ∈ f.plane.nodes ∧ n.id ∉ ids
  untouched : sw.dryRun = true ∨ s.stage = .enrollments → s.fleet = f ∧ s.tasks = []
  -- what was done, and what is left
  reapedEnrollments : s.reapedEnrollments ++ f.unbacked sw (s.stage.enrollmentsLeft sw f) = f.unbacked sw
    (f.ownEnrollments sw)
  reapedHubs : s.reapedHubs ++ f.unkeyed sw (s.stage.hubsLeft sw f) = f.unkeyed sw (f.ownHubs sw)
  liveHubs : s.liveHubs ++ f.kept sw (s.stage.hubsLeft sw f) = f.kept sw (f.ownHubs sw)
  liveApps : s.stage.appsRead = true → ∀ k, k ∈ s.liveApps ↔ f.keeps sw (.app k) = true
  reported : sw.dryRun = true →
    s.deletedMachines ++ f.doomed sw (s.stage.nodesLeft sw f) = f.doomed sw (f.plane.listMachines sw.tailnet)
  remaining : sw.dryRun = false → ∀ n ∈ s.fleet.plane.nodes, n.tailnet = sw.tailnet →
    sw.dooms (f.keeps sw) n = true →
    n ∈ s.stage.nodesLeft sw f
  enrollmentsLeft : ∀ r ∈ s.stage.enrollmentsLeft sw f, r ∈ f.ownEnrollments sw
  hubsLeft : ∀ x ∈ s.stage.hubsLeft sw f, x ∈ f.ownHubs sw
  nodesLeft : ∀ n ∈ s.stage.nodesLeft sw f, n ∈ f.plane.listMachines sw.tailnet

section

variable {sw : Sweep} {s t : State} {f g : Fleet}

theorem mem_ownEnrollments {k : Pk} {e : AppMeshEnrollment} :
    (k, e) ∈ f.ownEnrollments sw ↔ f.net.enrollments.row k = some e ∧ e.organization = sw.organization := by
  rw [Fleet.ownEnrollments, mem_filter, beq_iff_eq]

theorem mem_ownHubs {x : Pk × Hub × Option Pk} :
    x ∈ f.ownHubs sw ↔ f.db.hubs.row x.1 = some x.2.1 ∧ x.2.1.organization = sw.organization ∧ x.2.2
    = f.net.hubKeys x.1 := by
  obtain ⟨k, h, key⟩ := x
  simp only [Fleet.ownHubs, List.mem_map, Prod.exists, mem_filter, beq_iff_eq, Prod.mk.injEq]
  constructor
  · rintro ⟨_, _, ⟨hrow, horg⟩, rfl, rfl, rfl⟩
    exact ⟨hrow, horg, rfl⟩
  · rintro ⟨hrow, horg, rfl⟩
    exact ⟨k, h, ⟨hrow, horg⟩, rfl, rfl, rfl⟩

theorem mem_unbacked {k : Pk} :
    k ∈ f.unbacked sw (f.ownEnrollments sw)
    ↔ ∃ e, f.net.enrollments.row k = some e ∧ e.organization = sw.organization
      ∧ f.retains sw.grace e = false := by
  simp [Fleet.unbacked, mem_ownEnrollments, and_assoc]

theorem keeps_app {k : Pk} :
    f.keeps sw (.app k) = true ↔ ∃ e, f.net.enrollments.row k = some e ∧ e.organization = sw.organization
      ∧ f.retains sw.grace e = true := by
  simp [Fleet.keeps, Option.any_eq_true]

theorem mem_kept {k : Pk} : k ∈ f.kept sw (f.ownHubs sw) ↔ f.keeps sw (.hub k) = true := by
  simp [Fleet.kept, Fleet.keeps, Option.any_eq_true, mem_ownHubs, and_assoc]

/-- A node with a tag that the organization loses is doomed, if it carries no other. -/
theorem Fleet.Tidy.dooms (h : f.Tidy sw) {tag : Selector} (hlost : f.Loses sw tag) {n : Node}
    (hn : n ∈ f.plane.listMachines sw.tailnet) (htag : tag ∈ n.tags) :
    n.id ∈ f.doomed sw (f.plane.listMachines sw.tailnet) := by
  refine List.mem_map_of_mem (List.mem_filter.mpr ⟨hn, ?_⟩)
  have hsidecar : n.tags.any Net.isSidecarTag = true := List.any_eq_true.mpr ⟨tag, htag, hlost.1⟩
  have horphan : (n.tags.any fun t => Net.isSidecarTag t && f.keeps sw t) = false := by
    refine List.any_eq_false.mpr fun t ht hkept => ?_
    rw [Bool.and_eq_true] at hkept
    rw [h.tags n hn t ht tag htag hkept.1 hlost.1, hlost.2] at hkept
    exact absurd hkept.2 (by simp)
  simp [Sweep.dooms, hsidecar, horphan]

theorem Task.run_layers (u : Task) : (u.run sw f).1.net.layers = f.net.layers := by
  cases u with
  | delete l => cases l <;> rfl
  | revoke tailnet tag key =>
    simp only [Task.run]
    split
    · cases key <;> rfl
    · rfl
  | purge tag l => cases l <;> rfl
  | _ => rfl

theorem Task.run_nodes (sw : Sweep) (f : Fleet) (u : Task) :
    (u.run sw f).1.plane.nodes = f.plane.nodes
      ∨ ∃ tag m l, u = .purge tag (m :: l) ∧ (u.run sw f).1.plane = f.plane.deleteMachine m.id := by
  cases u with
  | delete l => cases l <;> exact .inl rfl
  | revoke tailnet tag key =>
    refine .inl ?_
    simp only [Task.run]
    split
    · cases key <;> rfl
    · rfl
  | purge tag l =>
    cases l with
    | nil => exact .inl rfl
    | cons m l => exact .inr ⟨tag, m, l, rfl, rfl⟩
  | _ => exact .inl rfl

theorem Fleet.Tidy.revocation (htidy : f.Tidy sw) {g : Fleet} (hlayers : g.net.layers = f.net.layers)
    {tag : Selector} (hlost : f.Loses sw tag) {key : Option Pk} {hubs : List Pk} :
    ∀ u ∈ g.revocation sw.organization tag key, u.Fits sw f hubs := by
  intro u hu
  simp only [Fleet.revocation, Option.mem_toList, Option.map_eq_some_iff] at hu
  obtain ⟨l, hl, rfl⟩ := hu
  have hmesh : f.net.orgMesh sw.organization = some l := by
    unfold Net.orgMesh at hl ⊢
    rwa [← hlayers]
  exact ⟨htidy.mesh l hmesh, hlost⟩

theorem Follows.fits_run (h : Follows sw f s) (htidy : f.Tidy sw) {u : Task} (hu : u.Fits sw f s.reapedHubs) :
    ∀ v ∈ (u.run sw s.fleet).2, v.Fits sw f s.reapedHubs := by
  intro v hv
  cases u with
  | reap e =>
    simp only [Task.run] at hv
    split at hv
    · cases hv
    · rw [List.mem_singleton.mp hv]
      exact hu
  | select e =>
    rw [List.mem_singleton.mp hv]
    intro r hr
    obtain ⟨hrow, hof⟩ := mem_filter.mp (show (r.1, r.2) ∈ _ from hr)
    have hbefore := h.rows r.1 r.2 hrow
    refine ⟨hbefore, ?_, (retains_of_isOf hof).trans hu.2⟩
    simp only [AppMeshEnrollment.isOf, Bool.and_eq_true, beq_iff_eq] at hof
    rw [htidy.lawful r.1 r.2 hbefore, hof.1.2]
    exact hu.1
  | delete l =>
    cases l with
    | nil => cases hv
    | cons r l =>
      obtain ⟨hrow, horg, hlost⟩ := hu r (by simp)
      rcases List.mem_append.mp hv with hv | hv
      · rw [horg] at hv
        refine htidy.revocation h.layers ⟨rfl, ?_⟩ v hv
        simp [Fleet.keeps, hrow, hlost]
      · simp only [List.mem_cons, List.not_mem_nil, or_false] at hv
        rcases hv with rfl | rfl
        · trivial
        · exact fun r hr => hu r (by simp [hr])
  | revoke tailnet tag key =>
    simp only [Task.run] at hv
    split at hv
    · rw [List.mem_singleton.mp hv]
      exact hu
    · cases hv
  | find tailnet tag =>
    rw [List.mem_singleton.mp hv]
    refine ⟨hu.2, fun n hn => ?_⟩
    obtain ⟨hlisted, htag⟩ := List.mem_filter.mp hn
    obtain ⟨hnode, htailnet⟩ := List.mem_filter.mp hlisted
    obtain ⟨ids, -, hnodes⟩ := h.nodes
    refine ⟨List.mem_filter.mpr ⟨((hnodes n).mp hnode).1, ?_⟩, by simpa using htag⟩
    rw [← hu.1]
    exact htailnet
  | purge tag l =>
    cases l with
    | nil => cases hv
    | cons n l =>
      rw [List.mem_singleton.mp hv]
      exact ⟨hu.1, fun m hm => hu.2 m (by simp [hm])⟩
  | reapHub pk x key =>
    obtain ⟨hrow, horg, hlost, hmem⟩ := hu
    simp only [Task.run] at hv
    split at hv
    · cases hv
    · rcases List.mem_append.mp hv with hv | hv
      · rw [horg] at hv
        refine htidy.revocation h.layers ⟨rfl, ?_⟩ v hv
        simp [Fleet.keeps, hrow, hlost]
      · simp only [List.mem_cons, List.not_mem_nil, or_false] at hv
        rcases hv with rfl | rfl | rfl
        · exact hmem
        · trivial
        · trivial
  | _ => cases hv

theorem Follows.unkeys_run (h : Follows sw f s) {u : Task} (hu : u.Fits sw f s.reapedHubs) {k : Pk}
    (hk : u.Unkeys k) :
    (u.run sw s.fleet).1.net.hubKeys k = none ∨ ∃ v ∈ (u.run sw s.fleet).2, v.Unkeys k := by
  cases u with
  | reapHub pk x key =>
    refine .inr ⟨.unkey pk, ?_, hk⟩
    have hlost : s.fleet.db.hubIdentityIsRetained sw.grace x = false := by
      rw [h.db]
      exact hu.2.2.1
    simp [Task.run, hlost]
  | unkey pk => exact .inl (if_pos hk.symm)
  | _ => exact hk.elim

theorem Follows.run {u : Task} {rest : List Task} (h : Follows sw f s) (htidy : f.Tidy sw)
    (htasks : s.tasks = u :: rest) :
    Follows sw f { s with fleet := (u.run sw s.fleet).1, tasks := (u.run sw s.fleet).2 ++ rest } := by
  have hu : u.Fits sw f s.reapedHubs := h.tasks u (by rw [htasks]; simp)
  have hshrunk := u.run_shrinks sw s.fleet
  obtain ⟨-, hrows, hkeys⟩ := u.run_takes sw s.fleet
  have hnodes : ∀ n ∈ (u.run sw s.fleet).1.plane.nodes, n ∈ s.fleet.plane.nodes := by
    intro n hn
    rcases u.run_nodes sw s.fleet with hsame | ⟨_, m, _, _, hdeleted⟩
    · rwa [hsame] at hn
    · rw [hdeleted] at hn
      exact (Tailnets.mem_deleteMachine.mp hn).1
  exact {
    h with
    db := hshrunk.db.trans h.db
    layers := u.run_layers.trans h.layers
    rows := fun k e he => h.rows k e (hshrunk.rows k e he)
    spared := fun k e he => by
      rcases h.spared k e he with hkept | hlost
      · by_cases hgone : (u.run sw s.fleet).1.net.enrollments.row k = some e
        · exact .inl hgone
        · obtain ⟨x, l, rfl⟩ := hrows k e hkept hgone
          obtain ⟨hrow, horg, hlost⟩ := hu (k, x) (by simp)
          rw [he] at hrow
          obtain rfl := Option.some.inj hrow
          exact .inr ⟨horg, hlost⟩
      · exact .inr hlost
    hubKeys := fun k => by
      by_cases hsame : (u.run sw s.fleet).1.net.hubKeys k = s.fleet.net.hubKeys k
      · rw [hsame]
        exact h.hubKeys k
      · obtain rfl := hkeys k hsame
        exact .inr ⟨if_pos rfl, hu⟩
    unkeyed := fun hreal k hk => by
      rcases h.unkeyed hreal k hk with hnone | ⟨v, hv, hunkeys⟩
      · by_cases hsame : (u.run sw s.fleet).1.net.hubKeys k = s.fleet.net.hubKeys k
        · exact .inl (hsame.trans hnone)
        · obtain rfl := hkeys k hsame
          exact .inl (if_pos rfl)
      · rw [htasks] at hv
        rcases List.mem_cons.mp hv with rfl | hv
        · rcases h.unkeys_run hu hunkeys with hnone | ⟨w, hw, hunkeys⟩
          · exact .inl hnone
          · exact .inr ⟨w, List.mem_append_left _ hw, hunkeys⟩
        · exact .inr ⟨v, List.mem_append_right _ hv, hunkeys⟩
    tasks := fun v hv => by
      rcases List.mem_append.mp hv with hv | hv
      · exact h.fits_run htidy hu v hv
      · exact h.tasks v (by rw [htasks]; simp [hv])
    nodes := by
      obtain ⟨ids, hids, hleft⟩ := h.nodes
      rcases u.run_nodes sw s.fleet with hsame | ⟨tag, m, l, rfl, hdeleted⟩
      · refine ⟨ids, hids, fun n => ?_⟩
        rw [hsame]
        exact hleft n
      · refine ⟨m.id :: ids, ?_, fun n => ?_⟩
        · obtain ⟨hlisted, htag⟩ := hu.2 m (by simp)
          exact List.forall_mem_cons.mpr ⟨htidy.dooms hu.1 hlisted htag, hids⟩
        · rw [hdeleted, Tailnets.mem_deleteMachine, hleft, List.mem_cons, not_or, and_assoc,
            and_comm (a := n.id ∉ ids)]
    untouched := fun hnot => by
      have hnone := (h.untouched hnot).2
      rw [htasks] at hnone
      cases hnone
    remaining := fun hreal n hn => h.remaining hreal n (hnodes n hn) }

theorem append_left_nil {α : Type*} {l m : List α} (h : l ++ m = m) : l = [] := by
  simpa using h

theorem Follows.lives (h : Follows sw f s) (happs : s.stage.appsRead = true) (hhubs : s.stage.hubsLeft sw f = []) :
    s.lives = f.keeps sw := by
  funext t
  cases t with
  | app k =>
    rw [Bool.eq_iff_iff, ← h.liveApps happs k]
    simp [State.lives]
  | hub k =>
    have hlive := h.liveHubs
    rw [hhubs, show f.kept sw [] = [] from rfl, List.append_nil] at hlive
    rw [Bool.eq_iff_iff, ← mem_kept, ← hlive]
    simp [State.lives]
  | _ => rfl

theorem Follows.readApps (h : Follows sw f s) (hleft : s.stage.enrollmentsLeft sw f = []) (k : Pk) :
    (k ∈ s.fleet.net.enrollments.pks
      fun pk e => e.organization == sw.organization && !s.reapedEnrollments.contains pk)
      ↔ f.keeps sw (.app k) = true := by
  have hreaped := h.reapedEnrollments
  rw [hleft, show f.unbacked sw [] = [] from rfl, List.append_nil] at hreaped
  simp only [mem_pks, keeps_app, Bool.and_eq_true, beq_iff_eq, Bool.not_eq_true', List.contains_eq_mem,
    decide_eq_false_iff_not, hreaped, mem_unbacked, not_exists, not_and, Bool.not_eq_false]
  constructor
  · intro ⟨e, he, horg, hretained⟩
    have hrow := h.rows k e he
    exact ⟨e, hrow, horg, hretained e hrow horg⟩
  · intro ⟨e, he, horg, hretained⟩
    rcases h.spared k e he with hkept | ⟨-, hlost⟩
    · refine ⟨e, hkept, horg, fun x hx _ => ?_⟩
      rw [he] at hx
      obtain rfl := Option.some.inj hx
      exact hretained
    · rw [hretained] at hlost
      cases hlost

theorem unbacked_cons {k : Pk} {e : AppMeshEnrollment} {l : List (Pk × AppMeshEnrollment)} :
    f.unbacked sw ((k, e) :: l) = if f.retains sw.grace e then f.unbacked sw l else k :: f.unbacked sw l := by
  cases hretained : f.retains sw.grace e <;> simp [Fleet.unbacked, hretained]

theorem kept_cons {x : Pk × Hub × Option Pk} {l : List (Pk × Hub × Option Pk)} :
    f.kept sw (x :: l) = if f.db.hubIdentityIsRetained sw.grace x.2.1 then x.1 :: f.kept sw l else f.kept sw
    l := by
  cases hretained : f.db.hubIdentityIsRetained sw.grace x.2.1 <;> simp [Fleet.kept, hretained]

theorem unkeyed_cons {x : Pk × Hub × Option Pk} {l : List (Pk × Hub × Option Pk)} :
    f.unkeyed sw (x :: l) =
      if f.db.hubIdentityIsRetained sw.grace x.2.1 || x.2.2.isNone then f.unkeyed sw l else x.1 :: f.unkeyed sw
      l := by
  obtain ⟨k, h, key⟩ := x
  cases hretained : f.db.hubIdentityIsRetained sw.grace h <;> cases key <;> simp [Fleet.unkeyed, hretained]

theorem doomed_cons {n : Node} {l : List Node} :
    f.doomed sw (n :: l) = if sw.dooms (f.keeps sw) n then n.id :: f.doomed sw l else f.doomed sw l := by
  cases hdoomed : sw.dooms (f.keeps sw) n <;> simp [Fleet.doomed, hdoomed]

theorem Follows.retains (h : Follows sw f s) (e : AppMeshEnrollment) :
    s.fleet.retains sw.grace e = f.retains sw.grace e := by
  rw [Fleet.retains, h.db, Fleet.retains]

theorem Follows.look {k : Pk} {e : AppMeshEnrollment} {l : List (Pk × AppMeshEnrollment)} (h : Follows sw f s)
    (hlawful : f.net.Lawful) (hstage : s.stage = .looking ((k, e) :: l)) (htasks : s.tasks = [])
    (hnext : s.nextStage sw = some t) : Follows sw f t := by
  obtain ⟨fleet, stage, tasks, reapedEnrollments, reapedHubs, liveHubs, liveApps, deleted⟩ := s
  obtain rfl : stage = _ := hstage
  obtain rfl : tasks = [] := htasks
  have hreaped : reapedEnrollments ++ f.unbacked sw ((k, e) :: l) = f.unbacked sw (f.ownEnrollments sw) :=
    h.reapedEnrollments
  have hleft : ∀ r ∈ (k, e) :: l, r ∈ f.ownEnrollments sw := h.enrollmentsLeft
  rw [unbacked_cons] at hreaped
  simp only [State.nextStage, h.retains e] at hnext
  by_cases hretained : f.retains sw.grace e = true
  · rw [if_pos hretained] at hnext hreaped
    obtain rfl := Option.some.inj hnext
    exact { h with
      reapedEnrollments := hreaped
      enrollmentsLeft := fun r hr => hleft r (List.mem_cons_of_mem _ hr)
      untouched := fun hnot => h.untouched (.inl (hnot.resolve_right nofun)) }
  · rw [if_neg hretained] at hnext hreaped
    obtain rfl := Option.some.inj hnext
    exact { h with
      reapedEnrollments := (List.append_assoc _ _ _).trans hreaped
      enrollmentsLeft := fun r hr => hleft r (List.mem_cons_of_mem _ hr)
      unkeyed := fun hreal k hk => .inl ((h.unkeyed hreal k hk).resolve_right nofun)
      tasks := fun u hu => by
        obtain ⟨hrow, horg⟩ := mem_ownEnrollments.mp (hleft (k, e) (by simp))
        cases hdry : sw.dryRun with
        | true => simp [hdry] at hu
        | false =>
          simp only [hdry, Bool.false_eq_true, if_false, List.mem_singleton] at hu
          rw [hu]
          exact ⟨(hlawful k e hrow).symm.trans horg, by simpa using hretained⟩
      untouched := fun hnot => by
        have hdry : sw.dryRun = true := hnot.resolve_right nofun
        exact ⟨(h.untouched (.inl hdry)).1, if_pos hdry⟩ }

theorem Follows.lookAtHub {x : Pk × Hub × Option Pk} {l : List (Pk × Hub × Option Pk)} (h : Follows sw f s)
    (hstage : s.stage = .lookingAtHubs (x :: l)) (htasks : s.tasks = []) (hnext : s.nextStage sw = some t) :
    Follows sw f t := by
  obtain ⟨fleet, stage, tasks, reapedEnrollments, reapedHubs, liveHubs, liveApps, deleted⟩ := s
  obtain ⟨k, y, key⟩ := x
  obtain rfl : stage = _ := hstage
  obtain rfl : tasks = [] := htasks
  have hreaped : reapedHubs ++ f.unkeyed sw ((k, y, key) :: l) = f.unkeyed sw (f.ownHubs sw) := h.reapedHubs
  have hlive : liveHubs ++ f.kept sw ((k, y, key) :: l) = f.kept sw (f.ownHubs sw) := h.liveHubs
  have hleft : ∀ r ∈ (k, y, key) :: l, r ∈ f.ownHubs sw := h.hubsLeft
  have hdb : fleet.db = f.db := h.db
  have huntouched : sw.dryRun = true ∨ Stage.lookingAtHubs l = .enrollments → sw.dryRun = true :=
    fun hnot => hnot.resolve_right nofun
  rw [unkeyed_cons] at hreaped
  rw [kept_cons] at hlive
  simp only [State.nextStage, hdb] at hnext
  by_cases hretained : f.db.hubIdentityIsRetained sw.grace y = true
  · rw [if_pos hretained] at hnext hlive
    rw [if_pos (by simp [hretained])] at hreaped
    obtain rfl := Option.some.inj hnext
    exact { h with
      reapedHubs := hreaped
      liveHubs := (List.append_assoc _ _ _).trans hlive
      hubsLeft := fun r hr => hleft r (List.mem_cons_of_mem _ hr)
      untouched := fun hnot => h.untouched (.inl (huntouched hnot)) }
  · rw [if_neg hretained] at hnext hlive
    cases key with
    | none =>
      rw [if_pos (by simp)] at hreaped
      obtain rfl := Option.some.inj hnext
      exact { h with
        reapedHubs := hreaped
        liveHubs := hlive
        hubsLeft := fun r hr => hleft r (List.mem_cons_of_mem _ hr)
        untouched := fun hnot => h.untouched (.inl (huntouched hnot)) }
    | some key =>
      rw [if_neg (by simp [hretained])] at hreaped
      obtain rfl := Option.some.inj hnext
      exact { h with
        reapedHubs := (List.append_assoc _ _ _).trans hreaped
        liveHubs := hlive
        hubsLeft := fun r hr => hleft r (List.mem_cons_of_mem _ hr)
        hubKeys := fun j => (h.hubKeys j).imp_right fun hnone => ⟨hnone.1, List.mem_append_left _ hnone.2⟩
        unkeyed := fun hreal j hj => by
          rcases List.mem_append.mp hj with hj | hj
          · exact .inl ((h.unkeyed hreal j hj).resolve_right nofun)
          · refine .inr ⟨.reapHub k y key, ?_, (List.mem_singleton.mp hj).symm⟩
            simp [hreal]
        tasks := fun u hu => by
          obtain ⟨hrow, horg, -⟩ := mem_ownHubs.mp (hleft (k, y, some key) (by simp))
          cases hdry : sw.dryRun with
          | true => simp [hdry] at hu
          | false =>
            simp only [hdry, Bool.false_eq_true, if_false, List.mem_singleton] at hu
            rw [hu]
            exact ⟨hrow, horg, by simpa using hretained, List.mem_append_right _ (List.mem_singleton_self k)⟩
        untouched := fun hnot => ⟨(h.untouched (.inl (huntouched hnot))).1, if_pos (huntouched hnot)⟩ }

theorem Follows.lookAtNode {n : Node} {l : List Node} (h : Follows sw f s) (hstage : s.stage = .nodes (n :: l))
    (hnext : s.nextStage sw = some t) : Follows sw f t := by
  obtain ⟨fleet, stage, tasks, reapedEnrollments, reapedHubs, liveHubs, liveApps, deleted⟩ := s
  obtain rfl : stage = _ := hstage
  have hlives := h.lives rfl rfl
  have hreported : sw.dryRun = true → deleted ++ f.doomed sw (n :: l) = f.doomed sw
    (f.plane.listMachines sw.tailnet) := h.reported
  have hremaining : sw.dryRun = false → ∀ m ∈ fleet.plane.nodes, m.tailnet = sw.tailnet →
    sw.dooms (f.keeps sw) m = true →
    m ∈ n :: l := h.remaining
  have hleft : ∀ m ∈ n :: l, m ∈ f.plane.listMachines sw.tailnet := h.nodesLeft
  have huntouched : sw.dryRun = true ∨ Stage.nodes l = .enrollments → sw.dryRun = true :=
    fun hnot => hnot.resolve_right nofun
  simp only [State.nextStage, State.dooms, hlives] at hnext
  rw [doomed_cons] at hreported
  by_cases hdoomed : sw.dooms (f.keeps sw) n = true
  · rw [if_pos hdoomed] at hnext hreported
    obtain rfl := Option.some.inj hnext
    by_cases hdry : sw.dryRun = true
    · simp only [if_pos hdry]
      exact { h with
        reported := fun hdry => (List.append_assoc _ _ _).trans (hreported hdry)
        remaining := fun hreal => by simp [hdry] at hreal
        nodesLeft := fun m hm => hleft m (List.mem_cons_of_mem _ hm)
        untouched := fun _ => h.untouched (.inl hdry) }
    · simp only [if_neg hdry]
      exact { h with
        nodes := by
          obtain ⟨ids, hids, hnodes⟩ := h.nodes
          refine ⟨n.id :: ids, List.forall_mem_cons.mpr ⟨?_, hids⟩, fun m => ?_⟩
          · exact List.mem_map_of_mem (List.mem_filter.mpr ⟨hleft n (by simp), hdoomed⟩)
          · rw [Fleet.deleteMachine, Tailnets.mem_deleteMachine, hnodes, List.mem_cons, not_or, and_assoc,
              and_comm (a := m.id ∉ ids)]
        reported := fun h => absurd h hdry
        remaining := fun hreal m hm htailnet hd => by
          obtain ⟨hm, hid⟩ := Tailnets.mem_deleteMachine.mp hm
          rcases List.mem_cons.mp (hremaining hreal m hm htailnet hd) with rfl | hmem
          · exact absurd rfl hid
          · exact hmem
        nodesLeft := fun m hm => hleft m (List.mem_cons_of_mem _ hm)
        untouched := fun hnot => absurd (huntouched hnot) hdry }
  · rw [if_neg hdoomed] at hnext hreported
    obtain rfl := Option.some.inj hnext
    exact { h with
      reported := hreported
      remaining := fun hreal m hm htailnet hd => by
        rcases List.mem_cons.mp (hremaining hreal m hm htailnet hd) with rfl | hmem
        · exact absurd hd hdoomed
        · exact hmem
      nodesLeft := fun m hm => hleft m (List.mem_cons_of_mem _ hm)
      untouched := fun hnot => h.untouched (.inl (huntouched hnot)) }

theorem Follows.nextStage (h : Follows sw f s) (hlawful : f.net.Lawful) (htasks : s.tasks = [])
    (hpolicy : sw.dryRun = true → s.stage ≠ .policy) (hnext : s.nextStage sw = some t) : Follows sw f t := by
  cases hstage : s.stage with
  | looking l =>
    cases l with
    | cons r l => exact h.look hlawful hstage htasks hnext
    | nil =>
      obtain ⟨fleet, stage, tasks, reapedEnrollments, reapedHubs, liveHubs, liveApps, deleted⟩ := s
      obtain rfl : stage = _ := hstage
      obtain rfl := Option.some.inj hnext
      exact { h with untouched := fun hnot => h.untouched (.inl (hnot.resolve_right nofun)) }
  | lookingAtHubs l =>
    cases l with
    | cons x l => exact h.lookAtHub hstage htasks hnext
    | nil =>
      obtain ⟨fleet, stage, tasks, reapedEnrollments, reapedHubs, liveHubs, liveApps, deleted⟩ := s
      obtain rfl : stage = _ := hstage
      obtain rfl := Option.some.inj hnext
      exact { h with untouched := fun hnot => h.untouched (.inl (hnot.resolve_right nofun)) }
  | nodes l =>
    cases l with
    | cons n l => exact h.lookAtNode hstage hnext
    | nil =>
      obtain ⟨fleet, stage, tasks, reapedEnrollments, reapedHubs, liveHubs, liveApps, deleted⟩ := s
      obtain rfl : stage = _ := hstage
      obtain rfl := Option.some.inj hnext
      by_cases hdry : sw.dryRun = true
      · simp only [if_pos hdry]
        exact { h with untouched := fun _ => h.untouched (.inl hdry) }
      · simp only [if_neg hdry]
        exact { h with untouched := fun hnot => absurd (hnot.resolve_right nofun) hdry }
  | enrollments =>
    obtain ⟨fleet, stage, tasks, reapedEnrollments, reapedHubs, liveHubs, liveApps, deleted⟩ := s
    obtain rfl : stage = _ := hstage
    obtain rfl := Option.some.inj hnext
    have hsame : fleet = f := (h.untouched (.inr rfl)).1
    have hread : (fleet.net.enrollments.filter fun _ e => e.organization == sw.organization)
      = f.ownEnrollments sw := by
      rw [hsame, Fleet.ownEnrollments]
    simp only [hread]
    exact { h with
      enrollmentsLeft := fun _ hr => hr
      untouched := fun _ => h.untouched (.inr rfl) }
  | hubs =>
    obtain ⟨fleet, stage, tasks, reapedEnrollments, reapedHubs, liveHubs, liveApps, deleted⟩ := s
    obtain rfl : stage = _ := hstage
    obtain rfl := Option.some.inj hnext
    have hnone : reapedHubs = [] := append_left_nil h.reapedHubs
    have hkeys : fleet.net.hubKeys = f.net.hubKeys := by
      funext k
      refine (h.hubKeys k).resolve_right fun hk => ?_
      rw [hnone] at hk
      exact absurd hk.2 (List.not_mem_nil)
    have hread : ((fleet.db.hubs.filter fun _ h => h.organization == sw.organization).map fun r =>
        (r.1, r.2, fleet.net.hubKeys r.1)) = f.ownHubs sw := by
      rw [hkeys, show fleet.db = f.db from h.db, Fleet.ownHubs]
    simp only [hread]
    exact { h with
      hubsLeft := fun _ hx => hx
      untouched := fun hnot => h.untouched (.inl (hnot.resolve_right nofun)) }
  | apps =>
    have hread := h.readApps (by rw [hstage]; rfl)
    obtain ⟨fleet, stage, tasks, reapedEnrollments, reapedHubs, liveHubs, liveApps, deleted⟩ := s
    obtain rfl : stage = _ := hstage
    obtain rfl := Option.some.inj hnext
    exact { h with
      liveApps := fun _ => hread
      untouched := fun hnot => h.untouched (.inl (hnot.resolve_right nofun)) }
  | listing =>
    obtain ⟨fleet, stage, tasks, reapedEnrollments, reapedHubs, liveHubs, liveApps, deleted⟩ := s
    obtain rfl : stage = _ := hstage
    obtain rfl := Option.some.inj hnext
    exact { h with
      reported := fun hdry => by
        have hreported := h.reported hdry
        rw [← show fleet = f from (h.untouched (.inl hdry)).1] at hreported ⊢
        exact hreported
      remaining := fun _ n hn htailnet _ => List.mem_filter.mpr ⟨hn, by simpa using htailnet⟩
      nodesLeft := fun n hn => by
        obtain ⟨ids, -, hnodes⟩ := h.nodes
        obtain ⟨hn, htailnet⟩ := List.mem_filter.mp hn
        exact List.mem_filter.mpr ⟨((hnodes n).mp hn).1, htailnet⟩
      untouched := fun hnot => h.untouched (.inl (hnot.resolve_right nofun)) }
  | policy =>
    obtain ⟨fleet, stage, tasks, reapedEnrollments, reapedHubs, liveHubs, liveApps, deleted⟩ := s
    obtain rfl : stage = _ := hstage
    obtain rfl := Option.some.inj hnext
    exact { h with untouched := fun hnot => absurd rfl (hpolicy (hnot.resolve_right nofun)) }
  | finished =>
    unfold State.nextStage at hnext
    rw [hstage] at hnext
    cases hnext

theorem follows_start (sw : Sweep) (f : Fleet) : Follows sw f (start f) where
  db := rfl
  layers := rfl
  rows _ _ he := he
  spared _ _ he := .inl he
  hubKeys _ := .inl rfl
  unkeyed _ _ hk := absurd hk List.not_mem_nil
  tasks := no_tasks rfl
  nodes := ⟨[], by simp, by simp [start]⟩
  untouched _ := ⟨rfl, rfl⟩
  reapedEnrollments := rfl
  reapedHubs := rfl
  liveHubs := rfl
  liveApps hread := by cases hread
  reported _ := rfl
  remaining _ n hn htailnet _ := List.mem_filter.mpr ⟨hn, by simpa using htailnet⟩
  enrollmentsLeft _ hr := hr
  hubsLeft _ hx := hx
  nodesLeft _ hn := hn

theorem follows_of_alone (sw : Sweep) (htidy : f.Tidy sw) (h : Alone sw (start f) s) :
    Follows sw f s ∧ (sw.dryRun = true → Dry s) ∧ (sw.dryRun = false → Sound sw s) := by
  refine h.invariant (I := fun s => Follows sw f s ∧ (sw.dryRun = true → Dry s)
    ∧ (sw.dryRun = false → Sound sw s)) ?_
    ⟨follows_start sw f, fun _ => ⟨rfl, nofun⟩, fun _ => sound_start sw f⟩
  intro s e t ⟨hfollows, hdry, hsound⟩ hst he
  subst he
  cases hst with
  | next hnext =>
    refine ⟨?_, fun hd => ((hdry hd).next hd hnext).1, fun hreal => (hsound hreal).next hreal hnext⟩
    cases htasks : s.tasks with
    | nil =>
      rw [next_of_idle htasks] at hnext
      exact hfollows.nextStage htidy.lawful htasks (fun hd => (hdry hd).2) hnext
    | cons u rest =>
      unfold State.next at hnext
      rw [htasks] at hnext
      obtain rfl := Option.some.inj hnext
      exact hfollows.run htidy htasks

/-! ## What a dry run foretells -/

/-- What the dry run `d` from the fleet reports is what the real run `t` from it reaps and deletes. -/
structure Foretells (f : Fleet) (d t : State) : Prop where
  reapedEnrollments : t.reapedEnrollments = d.reapedEnrollments
  reapedHubs : t.reapedHubs = d.reapedHubs
  enrollments : ∀ k e, t.fleet.net.enrollments.row k = some e
    ↔ f.net.enrollments.row k = some e ∧ k ∉ d.reapedEnrollments
  hubKeys : ∀ k, t.fleet.net.hubKeys k = if k ∈ d.reapedHubs then none else f.net.hubKeys k
  nodes : ∀ n, n ∈ t.fleet.plane.nodes ↔ n ∈ f.plane.nodes ∧ n.id ∉ d.deletedMachines

/-- A sweep at its end has come to all of the organization's enrollments and hubs. -/
theorem Follows.finished (h : Follows sw f s) (hfinished : s.Finished) :
    s.reapedEnrollments = f.unbacked sw (f.ownEnrollments sw) ∧ s.reapedHubs = f.unkeyed sw (f.ownHubs sw)
      ∧ (sw.dryRun = true → s.deletedMachines = f.doomed sw (f.plane.listMachines sw.tailnet)) := by
  have henrollments := h.reapedEnrollments
  have hhubs := h.reapedHubs
  have hreported := h.reported
  rw [hfinished.1] at henrollments hhubs hreported
  exact ⟨(List.append_nil _).symm.trans henrollments, (List.append_nil _).symm.trans hhubs,
    fun hdry => (List.append_nil _).symm.trans (hreported hdry)⟩

theorem dry_foretells {d t : State} (htidy : f.Tidy sw) (hd : Alone { sw with dryRun := true } (start f) d)
    (hdend : d.Finished)
    (ht : Alone { sw with dryRun := false } (start f) t) (htend : t.Finished) : Foretells f d t := by
  obtain ⟨hdry, -, -⟩ := follows_of_alone { sw with dryRun := true } ⟨htidy.lawful, htidy.mesh, htidy.tags⟩ hd
  obtain ⟨hreal, -, hsound⟩ := follows_of_alone { sw with dryRun := false }
    ⟨htidy.lawful, htidy.mesh, htidy.tags⟩ ht
  obtain ⟨hdreaped, hdhubs, hddeleted⟩ := hdry.finished hdend
  obtain ⟨htreaped, hthubs, -⟩ := hreal.finished htend
  have hreaped : t.reapedEnrollments = d.reapedEnrollments := htreaped.trans hdreaped.symm
  have hhubs : t.reapedHubs = d.reapedHubs := hthubs.trans hdhubs.symm
  constructor
  · exact hreaped
  · exact hhubs
  · intro k e
    rw [← hreaped]
    constructor
    · intro he
      refine ⟨hreal.rows k e he, fun hk => ?_⟩
      rw [(hsound rfl).gone htend.2 hk] at he
      cases he
    · intro ⟨he, hk⟩
      rcases hreal.spared k e he with hkept | hlost
      · exact hkept
      · rw [htreaped] at hk
        exact absurd (mem_unbacked.mpr ⟨e, he, hlost⟩) hk
  · intro k
    rw [← hhubs]
    by_cases hk : k ∈ t.reapedHubs
    · rw [if_pos hk]
      exact (hreal.unkeyed rfl k hk).resolve_right fun ⟨u, hu, _⟩ => by rw [htend.2] at hu; cases hu
    · rw [if_neg hk]
      exact (hreal.hubKeys k).resolve_right fun hnone => hk hnone.2
  · intro n
    obtain ⟨ids, hids, hnodes⟩ := hreal.nodes
    rw [hddeleted rfl]
    constructor
    · intro hn
      refine ⟨((hnodes n).mp hn).1, fun hdoomed => ?_⟩
      obtain ⟨m, hm, hid⟩ := List.mem_map.mp hdoomed
      obtain ⟨hlisted, hdooms⟩ := List.mem_filter.mp hm
      obtain ⟨hm, htailnet⟩ := List.mem_filter.mp hlisted
      -- it went by its id already, or it was still there to be looked at
      have hleft : m ∈ t.fleet.plane.nodes := (hnodes m).mpr ⟨hm, by rw [hid]; exact ((hnodes n).mp hn).2⟩
      have hmem := hreal.remaining rfl m hleft (by simpa using htailnet) hdooms
      rw [htend.1] at hmem
      cases hmem
    · intro ⟨hn, hid⟩
      exact (hnodes n).mpr ⟨hn, fun hgone => hid (hids _ hgone)⟩

/-- A sweep that nobody disturbs takes away orphans only, a dry run writes nothing, and a sweep alone comes
to its end, where a dry run has reported what a real one takes away. -/
theorem sweep_takes_only_orphans (sw : Sweep) (f : Fleet) :
    (∀ ls s t, Run (CalmStep sw) (start f) ls s → OneTag sw s → s.next sw = some t → OnlyOrphans sw s t)
    ∧ (sw.dryRun = true → ∀ ls s t, Run (Step sw) (start f) ls s → s.next sw = some t → t.fleet = s.fleet)
    ∧ (∃ t, Alone sw (start f) t ∧ t.Finished)
    ∧ (f.Tidy sw → ∀ d t, Alone { sw with dryRun := true } (start f) d → d.Finished →
      Alone { sw with dryRun := false } (start f) t → t.Finished → Foretells f d t) := by
  refine ⟨fun ls s t hrun hone hnext => onlyOrphans_of_run hrun hone hnext,
    fun hdry ls s t hrun hnext => ?_, start_ends sw f,
    fun htidy d t hd hdend ht htend => dry_foretells htidy hd hdend ht htend⟩
  have hs : Dry s := hrun.invariant (P := Dry) (fun hs hst => hs.step hdry hst) ⟨rfl, nofun⟩
  exact (hs.next hdry hnext).2

/-! ## A sidecar that joins during a sweep -/

theorem no_keys_to_reap (sw : Sweep) {l : List (Pk × Hub × Option Pk)} (h : ∀ x ∈ l, x.2.2 = none)
    (hstage : s.stage = .lookingAtHubs l)
    (htasks : s.tasks = []) : ∃ live, Alone sw s { s with stage := .apps, liveHubs := live } := by
  induction l generalizing s with
  | nil =>
    refine ⟨s.liveHubs, alone_next ?_⟩
    rw [next_of_idle htasks]
    unfold State.nextStage
    rw [hstage]
  | cons x l ih =>
    obtain ⟨k, y, key⟩ := x
    obtain rfl : key = none := h (k, y, key) (by simp)
    have hrest : ∀ x ∈ l, x.2.2 = none := fun x hx => h x (by simp [hx])
    by_cases hretained : s.fleet.db.hubIdentityIsRetained sw.grace y = true
    · obtain ⟨live, hlive⟩ := ih (s := { s with stage := .lookingAtHubs l, liveHubs := s.liveHubs ++ [k] }) hrest
        rfl htasks
      refine ⟨live, (alone_next ?_).trans hlive⟩
      rw [next_of_idle htasks]
      unfold State.nextStage
      rw [hstage]
      exact if_pos hretained
    · obtain ⟨live, hlive⟩ := ih (s := { s with stage := .lookingAtHubs l }) hrest rfl htasks
      refine ⟨live, (alone_next ?_).trans hlive⟩
      rw [next_of_idle htasks]
      unfold State.nextStage
      rw [hstage]
      exact if_neg hretained

/-- A mesh that no app is enrolled on. -/
def newFleet (db : DB) (nodes : List Node) : Fleet :=
  ⟨db, ⟨Table.empty.insert ⟨0, "org"⟩, .empty, .empty, fun _ => none⟩, ⟨[], nodes⟩, ⟨[], []⟩⟩

def laptopNode : Node := ⟨7, "org", [.app 0], true⟩

def joinedFleet (db : DB) : Fleet :=
  { newFleet db [laptopNode] with
    net := { (newFleet db [laptopNode]).net with
        enrollments := Table.empty.insert ⟨0, 0, ⟨0, "app"⟩, some 0, none⟩ } }

def plainSweep : Sweep := ⟨0, "org", 0, false, false⟩

theorem new_listing (db : DB) (nodes : List Node) : ∃ live, Alone plainSweep (start (newFleet db nodes))
    { start (newFleet db nodes) with stage := .listing, liveHubs := live, liveApps := [] } := by
  have hlooking : Alone plainSweep (start (newFleet db nodes))
    { start (newFleet db nodes) with stage := .looking [] } := alone_next rfl
  have hhubs : Alone plainSweep { start (newFleet db nodes) with stage := .looking [] }
    { start (newFleet db nodes) with stage := .hubs } :=
    alone_next rfl
  have hread : Alone plainSweep { start (newFleet db nodes) with stage := .hubs }
      { start (newFleet db nodes) with stage := .lookingAtHubs ((newFleet db nodes).ownHubs plainSweep) } :=
        alone_next rfl
  have hnone : ∀ x ∈ (newFleet db nodes).ownHubs plainSweep, x.2.2 = none := fun x hx => (mem_ownHubs.mp hx).2.2
  obtain ⟨live, hlive⟩ := no_keys_to_reap plainSweep hnone
    (s := { start (newFleet db nodes) with stage := .lookingAtHubs ((newFleet db nodes).ownHubs plainSweep) }) rfl
      rfl
  exact ⟨live, hlooking.trans (hhubs.trans (hread.trans (hlive.trans (alone_next rfl))))⟩

theorem calm_of_alone (h : Alone sw s t) : ∃ ls, Run (CalmStep sw) s ls t := by
  obtain ⟨ls, hls, hnext⟩ := h
  refine ⟨ls, (hls.restrict hnext).mono fun {s e t} hst => ⟨hst.1, fun f hf => ?_⟩⟩
  rw [hst.2] at hf
  cases hf

theorem newFleet_tidy (db : DB) : (newFleet db [laptopNode]).Tidy plainSweep where
  lawful k e he := by cases he
  mesh l hl := by
    obtain ⟨hl, -⟩ := first_eq_some hl
    rcases insert_row_eq_some.mp hl with ⟨-, hl⟩ | hl
    · rw [← hl]
      rfl
    · cases hl
  tags n hn := by
    obtain rfl := List.mem_singleton.mp hn
    simp [laptopNode]

/-- A node that was left behind goes, and a dry run says so. -/
theorem sweep_takes_only_orphans_laptop :
    (∃ s t, Alone plainSweep (start (newFleet (run plainEnv .empty laptopApp) [laptopNode])) s
      ∧ s.deletes plainSweep = some laptopNode
      ∧ OnlyOrphans plainSweep s t)
    ∧ ∃ d t, d.deletedMachines = [7] ∧ Foretells (newFleet (run plainEnv .empty laptopApp) [laptopNode]) d t := by
  generalize run plainEnv .empty laptopApp = db
  obtain ⟨hruns, -, -, hforetells⟩ := sweep_takes_only_orphans plainSweep (newFleet db [laptopNode])
  have htidy := newFleet_tidy db
  constructor
  · obtain ⟨live, hlisting⟩ := new_listing db [laptopNode]
    have hnodes := hlisting.trans
      (alone_next (t := ⟨newFleet db [laptopNode], .nodes [laptopNode], [], [], [], live, [], []⟩) rfl)
    obtain ⟨ls, hls⟩ := calm_of_alone hnodes
    refine ⟨_, _, hnodes, rfl, hruns ls _ _ hls ?_ rfl⟩
    intro n hn
    obtain rfl : laptopNode = n := Option.some.inj hn
    refine ⟨by simp [laptopNode], fun k e _ he => ?_, fun k x hk => ?_⟩
    · cases he
    · simp [laptopNode] at hk
  · obtain ⟨d, hd, hdend⟩ := start_ends { plainSweep with dryRun := true } (newFleet db [laptopNode])
    obtain ⟨t, ht, htend⟩ := start_ends { plainSweep with dryRun := false } (newFleet db [laptopNode])
    refine ⟨d, t, ?_, hforetells htidy d t hd hdend ht htend⟩
    obtain ⟨hfollows, -, -⟩ := follows_of_alone { plainSweep with dryRun := true }
      ⟨htidy.lawful, htidy.mesh, htidy.tags⟩ hd
    rw [(hfollows.finished hdend).2.2 rfl]
    rfl

/-- An app joins after the kept enrollments were read and before the nodes are listed: its node is deleted,
and the enrollment is there. -/
theorem sweep_takes_a_new_sidecar :
    ∃ sw f ls s t, Reachable plainEnv f.db ∧ Run (Step sw) (start f) ls s ∧ OneTag sw s ∧ s.next sw = some t
      ∧ s.fleet.retains sw.grace ⟨0, 0, ⟨0, "app"⟩, some 0, none⟩ = true ∧ ¬ OnlyOrphans sw s t := by
  have hdb := reachable_run plainEnv (laptopApp.take 4)
  have hretained : (joinedFleet (run plainEnv .empty laptopApp)).retains 0
    ⟨0, 0, ⟨0, "app"⟩, some 0, none⟩ = true := by
    decide +kernel
  have hhubs : (run plainEnv .empty laptopApp).hubs.rows.map (fun r => (r.1, r.2.organization))
      = (run plainEnv .empty (laptopApp.take 4)).hubs.rows.map
        (fun r => (r.1, r.2.organization)) := by decide +kernel
  have hnext : (run plainEnv .empty (laptopApp.take 4)).hubs.next
    ≤ (run plainEnv .empty laptopApp).hubs.next := by decide +kernel
  generalize run plainEnv .empty (laptopApp.take 4) = db at hdb hhubs hnext
  generalize run plainEnv .empty laptopApp = db' at hretained hhubs hnext
  obtain ⟨live, ls, hls, -⟩ := new_listing db []
  have hlater : Later (newFleet db []) (joinedFleet db') := by
    refine ⟨Nat.zero_le _, hnext, fun k e _ => .inl (Nat.zero_le k), fun k h hk => .inr ?_⟩
    have hmem : (k, h.organization) ∈ db'.hubs.rows.map fun r => (r.1, r.2.organization) :=
      List.mem_map_of_mem (mem_rows.mpr hk)
    rw [hhubs] at hmem
    obtain ⟨⟨j, x⟩, hx, heq⟩ := List.mem_map.mp hmem
    obtain ⟨rfl, horg⟩ := Prod.mk.inj heq
    exact ⟨x, mem_rows.mp hx, horg.symm⟩
  have hjoined := hls.snoc (.others hlater)
  have hlisted := hjoined.snoc (.next (t := ⟨joinedFleet db', .nodes [laptopNode], [], [], [], live, [], []⟩) rfl)
  refine ⟨plainSweep, newFleet db [], _, _, _, hdb, hlisted, ?_, rfl, hretained, fun h => ?_⟩
  · intro n hn
    obtain rfl : laptopNode = n := Option.some.inj hn
    refine ⟨?_, fun k e hk he => ?_, fun k x hk => ?_⟩
    · simp [laptopNode]
    · obtain rfl : k = 0 := by simpa [laptopNode] using hk
      obtain rfl := Option.some.inj he
      rfl
    · simp [laptopNode] at hk
  · obtain ⟨m, hm, -, horphan⟩ := h.nodes laptopNode (List.mem_singleton_self _) List.not_mem_nil
    obtain rfl : laptopNode = m := Option.some.inj hm
    rcases horphan with horphan | hmigrates
    · exact horphan (.app 0) (by simp [laptopNode]) rfl ⟨_, rfl⟩
    · exact absurd hmigrates.1 (by decide)

end

end Sweeps

end Lok
