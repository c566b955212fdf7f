import Lok.MeshPolicy

/-!
# Sidecars

A sidecar lives only while a client backs it. An approval that grants the mesh enrolls the
app and mints its key; an enrollment without a session is reaped, right after the client
that backed it went or in the periodic sweep, which also writes the policy anew.
-/

namespace Lok

open Table Checks

/-! ## Enrolling -/

/-- `enrollment_clients`: what an enrollment of this membership, app and device stands for. -/
def standsFor (membership : Pk) (app : App) (device : Option Pk) (c : Client) : Bool :=
  AppMeshEnrollment.standsFor ⟨app.organization, membership, app, device, none⟩ c

/-- The enrollments of one membership, app and device; one at most is ever created. -/
def AppMeshEnrollment.isOf (membership : Pk) (app : App) (device : Option Pk) (e : AppMeshEnrollment) : Bool :=
  e.membership == membership && e.app == app && e.device == device

namespace Net

variable (net : Net)

/-- The enrollment of an installation, created if there is none. -/
def getOrCreateEnrollment (organization membership : Pk) (app : App) (device : Option Pk) :
    Table AppMeshEnrollment × Pk × Option Pk :=
  match net.enrollments.first fun _ e => e.isOf membership app device with
  | some (pk, e) => (net.enrollments, pk, e.authKey)
  | none => (net.enrollments.insert ⟨organization, membership, app, device, none⟩, net.enrollments.next, none)

/-- `enroll_app_on_mesh`, with the enrollment the key is for; `minted` is the key the control plane answers
with, if it answers, and `revoked` says that it took the previous one back. -/
def enrollApp (now : Time) (organization membership : Pk) (app : App) (device : Option Pk) (minted : Option String)
    (revoked : Bool) : Option (Net × Pk × String) := do
  let (layer, _) ← net.orgMesh organization
  let value ← minted
  let (enrollments, pk, previous) := net.getOrCreateEnrollment organization membership app device
  let key := net.keys.next
  let keys := net.keys.insert ⟨now, layer, value⟩
  return ({ net with enrollments := enrollments.modify pk fun e => { e with authKey := some key },
                     keys := if revoked then keys.keep fun k _ => some k != previous else keys }, pk, value)

end Net

namespace DB

variable (db : DB)

/-- `_grant_mesh_key`: best effort, an app without a key is authorized all the same. -/
def grantMeshKey (net : Net) (pk organization : Pk) (minted : Option String) (revoked : Bool) :
    DB × Net × Option Pk :=
  let granted := do
    let code ← db.deviceCodes.row pk
    let c ← db.clients.row code.client
    net.enrollApp db.now organization (← c.membership) (← c.release).app c.node minted revoked
  match granted with
  | some (n, enrollment, key) => (db.attachMeshKey pk (some key), n, some enrollment)
  | none => (db, net, none)

/-- Whether accepting the code grants the mesh: the approver allows it, the app asked, and a guest may have it. -/
def grantsMesh (user pk hub : Pk) (allowIonscale : Bool) : Bool :=
  allowIonscale && (db.deviceCodes.row pk).any (·.requestAuthKey)
    && (db.hubs.row hub).any fun h => (db.membershipOf user h.organization).any fun m =>
      !db.isScoped m.1 || (db.meshHubIds m.1).contains hub

/-- `accept_device_code` with what it does to the mesh: the approval and the key are one transaction. -/
def acceptOnMesh (env : Env) (net : Net) (user pk : Pk) (proof : Option Nat) (hub : Pk) (declined : List String)
    (allowIonscale : Bool) (minted : Option String) (revoked : Bool) : Answer (DB × Net × Option Pk) := do
  let d ← db.acceptDeviceCode env user pk proof hub declined allowIonscale none
  return match (db.hubs.row hub).filter fun _ => db.grantsMesh user pk hub allowIonscale with
    | some h => d.grantMeshKey net pk h.organization minted revoked
    | none => (d, net, none)

end DB

/-! ## Reaping -/

namespace DB

variable (db : DB)

def enrollmentIsRetained (grace : Time) (membership : Pk) (app : App) (device : Option Pk) : Bool :=
  db.clients.exists? fun _ c => standsFor membership app device c && db.withSession grace c

def hubIdentityIsRetained (grace : Time) (h : Hub) : Bool :=
  (h.client.bind db.clients.row).any (db.withSession grace)

end DB

namespace Net

variable (net : Net)

def reapEnrollment (db : DB) (grace : Time) (membership : Pk) (app : App) (device : Option Pk) : Net :=
  if db.enrollmentIsRetained grace membership app device then net
  else { net with enrollments := net.enrollments.keep fun _ e => !e.isOf membership app device }

/-- `reap_hub_sidecar`: the hub stays, its key goes. -/
def reapHubSidecar (db : DB) (grace : Time) (pk : Pk) (h : Hub) : Net :=
  match net.hubKeys pk with
  | none => net
  | some key =>
    if db.hubIdentityIsRetained grace h then net
    else { net with
        hubKeys := fun k => if k = pk then none else net.hubKeys k, keys := net.keys.keep fun k _ => k != key }

/-- A node of the tailnet, by the tags it carries. -/
structure Machine where
  id : Nat
  tags : List Selector
  deriving DecidableEq, Repr

structure SidecarReport where
  net : Net
  reapedEnrollments : List Pk
  reapedHubs : List Pk
  deletedMachines : List Nat
  policy : AclPolicy

def isSidecarTag : Selector → Bool
  | .app _ | .hub _ => true
  | _ => false

/-- `reconcile_sidecars`, given the nodes of the tailnet. -/
def reconcileSidecars (db : DB) (grace : Time) (organization : Pk) (machines : List Machine) (migrateTags : Bool) :
    SidecarReport :=
  let retained := fun (e : AppMeshEnrollment) => db.enrollmentIsRetained grace e.membership e.app e.device
  let unbacked := net.enrollments.filter fun _ e => e.organization == organization && !retained e
  let reaped := unbacked.foldl (fun n e => n.reapEnrollment db grace e.2.membership e.2.app e.2.device) net
  let hubs := db.hubs.filter fun _ h => h.organization == organization
  let unkeyed := hubs.filter fun h => !db.hubIdentityIsRetained grace h.2 && (net.hubKeys h.1).isSome
  let swept := unkeyed.foldl (fun n h => n.reapHubSidecar db grace h.1 h.2) reaped
  let live := ((swept.enrollments.filter fun pk e => e.organization == organization
      && !(unbacked.map (·.1)).contains pk).map fun e => Selector.app e.1)
    ++ (hubs.filter fun h => db.hubIdentityIsRetained grace h.2).map fun h => .hub h.1
  let orphaned := fun (m : Machine) => m.tags.any isSidecarTag
    && (!(m.tags.any fun t => isSidecarTag t && live.contains t) || migrateTags && m.tags.contains
      (.mesh organization))
  { net := swept, reapedEnrollments := unbacked.map (·.1), reapedHubs := unkeyed.map (·.1),
    deletedMachines := (machines.filter orphaned).map (·.id), policy := db.buildAclPolicy swept organization }

end Net

/-! ## What a backed sidecar survives -/

namespace DB

variable {db : DB}

theorem withSession_of_live {c : Client} (grace : Time) (h : db.isLiveClient c = true) :
    db.withSession grace c = true := by
  cases hmandate : c.mandate with
  | none =>
    simp only [isLiveClient, withSession, hmandate, hasSession, Bool.or_eq_true, exists?_eq_true,
      Bool.and_eq_true] at h ⊢
    rcases h with ⟨pk, t, ht, hid, hholds⟩ | hfresh
    · refine .inl ⟨pk, t, ht, hid, ?_⟩
      simp only [chainHolds, Bool.and_eq_true, decide_eq_true_eq] at hholds ⊢
      exact ⟨⟨hholds.1.1, Nat.le_add_right_of_le hholds.1.2⟩, Nat.le_add_right_of_le hholds.2⟩
    · exact .inr hfresh
  | some m =>
    simp only [isLiveClient, withSession, hmandate, Option.any_eq_true, mandateHolds, Bool.and_eq_true,
      Option.all_eq_true,
      decide_eq_true_eq] at h ⊢
    obtain ⟨x, hx, hunrevoked, hexpiry⟩ := h
    exact ⟨x, hx, hunrevoked, fun t ht => Nat.lt_add_right grace (hexpiry t ht)⟩

theorem enrollmentIsRetained_of_live {c : Client} {k membership : Pk} {app : App} {device : Option Pk}
    (grace : Time) (hc : db.clients.row k = some c) (hstands : standsFor membership app device c = true)
    (hlive : db.isLiveClient c = true) :
    db.enrollmentIsRetained grace membership app device = true := by
  unfold enrollmentIsRetained
  rw [exists?_eq_true]
  exact ⟨k, c, hc, by rw [hstands, withSession_of_live grace hlive]; rfl⟩

end DB

namespace Net

variable {net n : Net} {db : DB} {grace : Time} {a : Pk} {x : AppMeshEnrollment}

theorem reapEnrollment_spares {membership : Pk} {app : App} {device : Option Pk}
    (hx : net.enrollments.row a = some x)
    (hretained : db.enrollmentIsRetained grace x.membership x.app x.device = true) :
    (net.reapEnrollment db grace membership app device).enrollments.row a = some x := by
  unfold reapEnrollment
  split
  · exact hx
  · rename_i hlost
    rw [keep_row_eq_some]
    refine ⟨hx, ?_⟩
    cases hof : x.isOf membership app device with
    | false => rfl
    | true =>
      -- only the enrollment of an installation without a session is reaped
      simp only [AppMeshEnrollment.isOf, Bool.and_eq_true, beq_iff_eq] at hof
      obtain ⟨⟨rfl, rfl⟩, rfl⟩ := hof
      exact absurd hretained hlost

theorem reapHubSidecar_enrollments (pk : Pk) (h : Hub) :
    (net.reapHubSidecar db grace pk h).enrollments = net.enrollments := by
  unfold reapHubSidecar
  split
  · rfl
  · split <;> rfl

theorem reconcileSidecars_spares {organization : Pk} {machines : List Machine} {migrate : Bool}
    (hx : net.enrollments.row a = some x)
    (hretained : db.enrollmentIsRetained grace x.membership x.app x.device = true) :
    (net.reconcileSidecars db grace organization machines migrate).net.enrollments.row a = some x := by
  have hreaped : ∀ (l : List (Pk × AppMeshEnrollment)),
      (l.foldl (fun n e => n.reapEnrollment db grace e.2.membership e.2.app e.2.device) net).enrollments.row
        a = some x :=
    fun l => foldl_invariant (P := fun n : Net => n.enrollments.row a = some x)
      (fun _ _ n hn => reapEnrollment_spares hn hretained) hx
  have hswept : ∀ (l : List (Pk × Hub)) (n : Net),
      (l.foldl (fun n h => n.reapHubSidecar db grace h.1 h.2) n).enrollments = n.enrollments := fun l n =>
    foldl_invariant (P := fun s : Net => s.enrollments = n.enrollments)
      (fun h _ s hs => (reapHubSidecar_enrollments h.1 h.2).trans hs) rfl
  unfold reconcileSidecars
  dsimp only
  rw [hswept]
  exact hreaped _

/-! ## Which enrollments there are -/

/-- What enrollments, keys and their ends make of an empty mesh. -/
inductive Reached : Net → Prop
  | empty : Reached ⟨.empty, .empty, .empty, fun _ => none⟩
  | enroll {net n : Net} {now : Time} {organization membership pk : Pk} {app : App} {device : Option Pk}
      {minted : Option String} {revoked : Bool} {key : String} (h : Reached net)
        (horganization : app.organization = organization)
      (he : net.enrollApp now organization membership app device minted revoked = some (n, pk, key)) : Reached n
  -- layers, hubs and keys come and go
  | keys {net : Net} (h : Reached net) (layers : Table IonscaleLayer) (keys : Table IonscaleAuthKey)
      (hubKeys : Pk → Option Pk)
      (gone : Pk → AppMeshEnrollment → Bool) :
      Reached ⟨layers, keys, net.enrollments.updateWhere gone fun e => { e with authKey := none }, hubKeys⟩
  -- reaped, rejected, or gone with the membership, the app or the device
  | drop {net : Net} (h : Reached net) (kept : Pk → AppMeshEnrollment → Bool) :
      Reached { net with enrollments := net.enrollments.keep kept }

/-- An enrollment is in the organization of its app. -/
def Lawful (net : Net) : Prop := ∀ pk e, net.enrollments.row pk = some e → e.organization = e.app.organization

theorem enrollApp_ok {now : Time} {organization membership : Pk} {app : App} {device : Option Pk}
    {minted : Option String}
    {revoked : Bool} {key : String}
    (h : net.enrollApp now organization membership app device minted revoked = some (n, a, key)) :
    (∃ x, n.enrollments.row a = some x ∧ x.isOf membership app device = true ∧ x.authKey.isSome = true
        ∧ (x.organization = organization
          ∨ ∃ y, net.enrollments.row a = some y ∧ x.app = y.app ∧ x.organization = y.organization))
      ∧ ∀ k x, n.enrollments.row k = some x → k ≠ a → net.enrollments.row k = some x := by
  simp only [enrollApp, Option.bind_eq_bind, Option.bind_eq_some_iff, Prod.exists, Option.pure_def,
    Option.some.injEq,
    Prod.mk.injEq] at h
  obtain ⟨layer, -, -, value, -, rfl, rfl, -⟩ := h
  unfold getOrCreateEnrollment
  cases hfirst : net.enrollments.first fun _ e => e.isOf membership app device with
  | some found =>
    obtain ⟨pk, e⟩ := found
    obtain ⟨he, hof⟩ := first_eq_some hfirst
    refine ⟨⟨_, modify_row_eq_some.mpr (.inr ⟨rfl, e, he, rfl⟩), hof, rfl, .inr ⟨e, he, rfl, rfl⟩⟩,
      fun k x hk hne => ?_⟩
    rcases modify_row_eq_some.mp hk with ⟨-, hk⟩ | ⟨rfl, -⟩
    · exact hk
    · exact absurd rfl hne
  | none =>
    refine ⟨⟨_, modify_row_eq_some.mpr (.inr ⟨rfl, _, insert_row_next _ _, rfl⟩), ?_, rfl, .inl rfl⟩,
      fun k x hk hne => ?_⟩
    · simp [AppMeshEnrollment.isOf]
    · rcases modify_row_eq_some.mp hk with ⟨-, hk⟩ | ⟨rfl, -⟩
      · rcases insert_row_eq_some.mp hk with ⟨rfl, -⟩ | hk
        · exact absurd rfl hne
        · exact hk
      · exact absurd rfl hne

theorem Reached.lawful (h : Reached net) : net.Lawful := by
  induction h with
  | empty => intro pk e he; simp at he
  | @enroll net n now organization membership pk app device minted revoked key _ horganization he ih =>
    obtain ⟨⟨x, hx, hof, -, horg⟩, hrest⟩ := enrollApp_ok he
    simp only [AppMeshEnrollment.isOf, Bool.and_eq_true, beq_iff_eq] at hof
    intro k y hy
    by_cases hk : k = pk
    · subst hk
      rw [hx] at hy
      cases hy
      rcases horg with horg | ⟨y, hy, happ, horg⟩
      · rw [horg, hof.1.2, horganization]
      · rw [horg, happ]
        exact ih k y hy
    · exact ih k y (hrest k y hy hk)
  | keys _ layers keys hubKeys gone ih =>
    intro pk e he
    rcases updateWhere_row_eq_some.mp he with ⟨x, hx, rfl⟩
    have := ih pk x hx
    split <;> exact this
  | drop _ kept ih =>
    intro pk e he
    exact ih pk e (keep_row_eq_some.mp he).1

end Net

end Lok
