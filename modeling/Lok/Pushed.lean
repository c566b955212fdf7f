import Mathlib.Data.List.InsertIdx
import Lok.ControlPlane

/-!
# What was pushed

The two documents of a mesh as boards: the hooks are jobs, and an event of the control
plane is a move of each board or leaves it alone. So when no hook writes after one that read
a later state, and no transaction changes what a document says without scheduling its hook,
the documents say what is stored once all hooks have run. Nothing in the code sees to either.
-/

namespace Lok

open Runs Publishing

/-- The hooks that change a document are left by whoever changes it, and none writes after one that read later. -/
def Control.Orderly (organization : Pk) (c : Control) : Event → Prop
  | .commit tx =>
    ((c.world.after tx).fullMembers organization = c.world.fullMembers organization
      ∨ 0 < c.world.resyncsOf organization tx)
      ∧ ((c.world.after tx).policy organization = c.world.policy organization
        ∨ 0 < c.world.appliesOf organization tx)
  | .updatePolicy i => ∀ current v members, c.resyncs[i]? = some (.listed current v members) → c.iamAt ≤ v
  | .setAcl i => ∀ v policy, c.applies[i]? = some (.built v policy) → c.aclAt ≤ v
  | _ => True

/-! ## The boards -/

def Resync.job : Resync → Job (List String)
  | .waiting | .fetched _ => none
  | .listed _ v members => some (v, members)

def AclApply.job : AclApply → Job AclPolicy
  | .waiting => none
  | .built v policy => some (v, policy)

def Control.subsBoard (c : Control) : Board World (List String) :=
  ⟨c.world, c.commits, c.iam.subs, c.iamAt, c.resyncs.map Resync.job⟩

def Control.aclBoard (c : Control) : Board World AclPolicy :=
  ⟨c.world, c.commits, c.acl, c.aclAt, c.applies.map AclApply.job⟩

theorem map_set_same {α β : Type} {f : α → β} {l : List α} {i : Nat} {a b : α} (hi : l[i]? = some a)
    (h : f b = f a) :
    (l.set i b).map f = l.map f := by
  rw [List.map_set, h]
  obtain ⟨hlt, rfl⟩ := List.getElem?_eq_some_iff.mp hi
  refine List.ext_getElem? fun k => ?_
  rw [List.getElem?_set]
  split <;> rename_i hk
  · subst hk
    simp [hlt]
  · rfl

variable {organization : Pk} {c d : Control} {e : Event}

theorem subsBoard_step (h : c.Step organization e d) :
    d.subsBoard = c.subsBoard
    ∨ ∃ m, Publishing.Step (fun w : World => w.fullMembers organization) c.subsBoard m d.subsBoard
      ∧ (c.Orderly organization e →
        Publishing.Orderly (fun w : World => w.fullMembers organization) c.subsBoard m) := by
  cases h with
  | commit tx =>
    refine .inr ⟨.change (c.world.after tx) (c.world.resyncsOf organization tx), ?_, fun h => h.1⟩
    have : Publishing.Step (fun w : World => w.fullMembers organization) _ _ _ :=
      .change c.subsBoard (c.world.after tx)
      (c.world.resyncsOf organization tx)
    simpa [Control.subsBoard, Resync.job] using this
  | getPolicy i hi =>
    left
    simp only [Control.subsBoard]
    rw [map_set_same (f := Resync.job) (b := .fetched c.iam) hi rfl]
  | listMembers i current hi =>
    refine .inr ⟨.read i, ?_, fun _ => trivial⟩
    have : Publishing.Step (fun w : World => w.fullMembers organization) _ _ _ :=
      .read c.subsBoard i (by simp [Control.subsBoard, hi, Resync.job])
    simpa [Control.subsBoard, List.map_set, Resync.job] using this
  | updatePolicy i v current members hi =>
    have hjob : c.subsBoard.jobs[i]? = some (some (v, members)) := by simp [Control.subsBoard, hi, Resync.job]
    refine .inr ⟨.write i, ?_, fun h w x hx => ?_⟩
    · have : Publishing.Step (fun w : World => w.fullMembers organization) _ _ _ :=
        .write c.subsBoard i v members hjob
      simpa [Control.subsBoard, IamPolicy.withSubs, List.eraseIdx_map] using this
    · rw [hjob] at hx
      cases hx
      exact h _ _ _ hi
  | buildAcl i hi => exact .inl rfl
  | setAcl i v policy hi => exact .inl rfl

theorem aclBoard_step (h : c.Step organization e d) :
    d.aclBoard = c.aclBoard ∨ ∃ m, Publishing.Step (fun w : World => w.policy organization) c.aclBoard m d.aclBoard
      ∧ (c.Orderly organization e → Publishing.Orderly (fun w : World => w.policy organization) c.aclBoard m) := by
  cases h with
  | commit tx =>
    refine .inr ⟨.change (c.world.after tx) (c.world.appliesOf organization tx), ?_, fun h => h.2⟩
    have : Publishing.Step (fun w : World => w.policy organization) _ _ _ :=
      .change c.aclBoard (c.world.after tx) (c.world.appliesOf organization tx)
    simpa [Control.aclBoard, AclApply.job] using this
  | buildAcl i hi =>
    refine .inr ⟨.read i, ?_, fun _ => trivial⟩
    have : Publishing.Step (fun w : World => w.policy organization) _ _ _ :=
      .read c.aclBoard i (by simp [Control.aclBoard, hi, AclApply.job])
    simpa [Control.aclBoard, List.map_set, AclApply.job] using this
  | setAcl i v policy hi =>
    have hjob : c.aclBoard.jobs[i]? = some (some (v, policy)) := by simp [Control.aclBoard, hi, AclApply.job]
    refine .inr ⟨.write i, ?_, fun h w x hx => ?_⟩
    · have : Publishing.Step (fun w : World => w.policy organization) _ _ _ := .write c.aclBoard i v policy hjob
      simpa [Control.aclBoard, List.eraseIdx_map] using this
    · rw [hjob] at hx
      cases hx
      exact h _ _ hi
  | getPolicy i hi => exact .inl rfl
  | listMembers i current hi => exact .inl rfl
  | updatePolicy i v current members hi => exact .inl rfl

/-! ## The other keys -/

/-- What is carried over is what ionscale wrote. -/
def Control.Carries (other : String → Option String) (c : Control) : Prop :=
  c.iam.other = other ∧ ∀ r ∈ c.resyncs, match r with
    | .waiting => True
    | .fetched current | .listed current _ _ => current.other = other

theorem carries_step {other : String → Option String} (hc : c.Carries other) (h : c.Step organization e d) :
    d.Carries other := by
  obtain ⟨hiam, hjobs⟩ := hc
  cases h with
  | commit tx =>
    refine ⟨hiam, fun r hr => ?_⟩
    rcases List.mem_append.mp hr with hr | hr
    · exact hjobs r hr
    · obtain rfl := (List.mem_replicate.mp hr).2
      trivial
  | getPolicy i hi =>
    refine ⟨hiam, fun r hr => ?_⟩
    rcases List.mem_or_eq_of_mem_set hr with hr | rfl
    · exact hjobs r hr
    · exact hiam
  | listMembers i current hi =>
    refine ⟨hiam, fun r hr => ?_⟩
    rcases List.mem_or_eq_of_mem_set hr with hr | rfl
    · exact hjobs r hr
    · exact hjobs _ (List.mem_of_getElem? hi)
  | updatePolicy i v current members hi =>
    exact ⟨hjobs _ (List.mem_of_getElem? hi), fun r hr => hjobs r (List.mem_of_mem_eraseIdx hr)⟩
  | buildAcl i hi => exact ⟨hiam, hjobs⟩
  | setAcl i v policy hi => exact ⟨hiam, hjobs⟩

/-! ## Runs -/

/-- What is kept along an orderly run. -/
def Control.Kept (organization : Pk) (other : String → Option String) (c : Control) : Prop :=
  (∃ last, Current (fun w : World => w.fullMembers organization) c.subsBoard last)
    ∧ (∃ last, Current (fun w : World => w.policy organization) c.aclBoard last)
    ∧ c.Carries other

theorem kept_step {other : String → Option String} (hc : c.Kept organization other) (h : c.Step organization e d)
    (ho : c.Orderly organization e) : d.Kept organization other := by
  obtain ⟨⟨i, hsubs⟩, ⟨j, hacl⟩, hcarries⟩ := hc
  refine ⟨?_, ?_, carries_step hcarries h⟩
  · rcases subsBoard_step h with heq | ⟨m, hstep, hm⟩
    · exact ⟨i, heq ▸ hsubs⟩
    · exact hsubs.step hstep (hm ho)
  · rcases aclBoard_step h with heq | ⟨m, hstep, hm⟩
    · exact ⟨j, heq ▸ hacl⟩
    · exact hacl.step hstep (hm ho)

/-- Once all hooks of an orderly run are done, both documents say what is stored. -/
theorem last_push_is_current {organization : Pk} {c d : Control} {es : List Event} (hdone : c.Done)
    (hsync : c.InSync organization) (hat : c.iamAt = c.commits ∧ c.aclAt = c.commits)
    (hrun : Run (fun c e d => Control.Step organization c e d ∧ c.Orderly organization e) c es d) (hend : d.Done) :
    d.InSync organization ∧ d.iam.other = c.iam.other := by
  have hstart : c.Kept organization c.iam.other := by
    refine ⟨⟨_, .start hsync.1 hat.1 ?_⟩, ⟨_, .start hsync.2 hat.2 ?_⟩, rfl, ?_⟩
    · simp [Control.subsBoard, hdone.1]
    · simp [Control.aclBoard, hdone.2]
    · simp [hdone.1]
  obtain ⟨⟨i, hsubs⟩, ⟨j, hacl⟩, hother, -⟩ := hrun.invariant (P := Control.Kept organization c.iam.other)
    (fun hc h => kept_step hc h.1 h.2) hstart
  refine ⟨⟨hsubs.of_quiescent ?_, hacl.of_quiescent ?_⟩, hother⟩
  · simp [Control.subsBoard, hend.1]
  · simp [Control.aclBoard, hend.2]

/-! ## A small mesh -/

/-- Ann owns an organization, with a mesh no sidecar has joined. -/
def plainMesh : World :=
  ⟨run plainEnv .empty [.createUser "ann" [], .createUser "bob" [], .createUser "carol" [],
    .createOrganization "org" 0 false],
    ⟨.empty, .empty, .empty, fun _ => none⟩⟩

def plainControl : Control := ⟨plainMesh, 0, ⟨["0"], fun _ => none⟩, 0, plainMesh.policy 0, 0, [], []⟩

/-- A user joins the organization of `plainMesh`. -/
def joins (membership user : Pk) : List RowChange :=
  [.saveMembership membership ⟨user, 0, [], false, none, [], []⟩]

theorem last_push_is_current_joined :
    ∃ es d, Run (fun c e d => Control.Step 0 c e d ∧ c.Orderly 0 e) plainControl es d
    ∧ d.InSync 0 ∧ d.iam.other = plainControl.iam.other := by
  have hrun : ∃ es d, Run (fun c e d => Control.Step 0 c e d ∧ c.Orderly 0 e) plainControl es d ∧ d.Done :=
    ⟨[.commit (joins 1 1), .getPolicy 0, .listMembers 0, .updatePolicy 0], _,
      .cons ⟨.commit _ _, .inr (by decide +kernel), .inl (by decide +kernel)⟩ (.cons ⟨.getPolicy _ 0 rfl, trivial⟩
        (.cons ⟨.listMembers _ 0 _ rfl, trivial⟩
          (.cons ⟨.updatePolicy _ 0 _ _ _ rfl, fun _ _ _ h => by cases h; decide⟩
          (.nil _)))),
      rfl, rfl⟩
  obtain ⟨es, d, hrun, hdone⟩ := hrun
  exact ⟨es, d, hrun, last_push_is_current ⟨rfl, rfl⟩ ⟨by decide +kernel, rfl⟩ ⟨rfl, rfl⟩ hrun hdone⟩

/-- Bob joins, his hook lists the members; Carol joins, her hook lists them and writes first. -/
theorem stale_push_written_last : plainControl.Done ∧ plainControl.InSync 0
    ∧ ∃ es d, Run (Control.Step 0) plainControl es d ∧ d.Done ∧ ¬ d.InSync 0 := by
  refine ⟨⟨rfl, rfl⟩, ⟨by decide +kernel, rfl⟩,
    [.commit (joins 1 1), .getPolicy 0, .listMembers 0, .commit (joins 2 2), .getPolicy 1, .listMembers 1,
    .updatePolicy 1, .updatePolicy 0], _,
    .cons (.commit _ _) (.cons (.getPolicy _ 0 rfl) (.cons (.listMembers _ 0 _ rfl) (.cons (.commit _ _)
      (.cons (.getPolicy _ 1 rfl) (.cons (.listMembers _ 1 _ rfl) (.cons (.updatePolicy _ 1 _ _ _ rfl)
        (.cons (.updatePolicy _ 0 _ _ _ rfl) (.nil _)))))))), ⟨rfl, rfl⟩, fun h => ?_⟩
  have hsubs := h.1
  revert hsubs
  decide +kernel

end Lok
