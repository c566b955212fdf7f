import Lok.GuestBounds
import Lok.SidecarReaps
import Lok.Tailnets

/-!
# Renewing a mesh key

A sidecar that lost its state asks for another key of the tag it was granted. The checks look at the
session, at what an approval granted, at the key the sidecar has, and at its nodes; then it is enrolled as
an approval enrolls it. Enrolling creates what is missing, and the checks see to it that nothing is.
-/

namespace Lok

open Table Checks

structure Mesh where
  net : Net
  /-- `IonscaleAuthKey.tags`, by key. -/
  tags : Pk → List Selector
  plane : Tailnets
  /-- The organizations whose policy is written anew after the commit. -/
  applies : List Pk

/-- How the control plane answers the calls of a renewal. -/
structure Reception where
  /-- Whether the nodes are listed. -/
  lists : Bool
  /-- The key that is minted, unless that fails. -/
  minted : Option String
  /-- Whether the previous key is taken back. -/
  revokes : Bool
  /-- How many of the stale nodes are deleted before a call fails, unless listing them does. -/
  prunes : Option Nat

/-- What ends a renewal without a key. -/
inductive MeshKeyError
  | refused (refusal : MeshKeyRefused)
  | controlPlane
  deriving DecidableEq, Repr

def appMeshKeyExpirySeconds : Time := 15 * 60

/-! ## Enrolling -/

namespace Tailnets

/-- `_prune_stale_machines`: the nodes with the tag that are offline and not the newest. -/
def stale (p : Tailnets) (tailnet : String) (tag : Selector) : List Node :=
  let tagged := (p.listMachines tailnet).filter (·.tags.contains tag)
  if tagged.length < 2 then [] else tagged.filter fun n => !(some n.id == (tagged.map (·.id)).max? || n.connected)

def pruneStale (p : Tailnets) (tailnet : String) (tag : Selector) (answered : Option Nat) : Tailnets :=
  match answered with
  | none => p
  | some calls => p.deleteMachines ((p.stale tailnet tag).take calls)

end Tailnets

namespace Mesh

variable (s : Mesh)

/-- What enrolling does once the key is minted, beside what it does to the `net`: the previous key is taken
back, and the stale nodes go. -/
def enrolled (net : Net) (organization : Pk) (layer : IonscaleLayer) (key : JoinKey) (tag : Selector)
    (previous : Option Pk)
    (prunes : Bool) (a : Reception) : Mesh :=
  let minted := s.plane.createAuthKey key
  let revoked := match (previous.filter fun _ => a.revokes).bind s.net.keys.row with
    | none => minted
    | some k => minted.deleteAuthKey ((s.net.layers.row k.layer).elim layer.tailnetName (·.tailnetName)) k.key
  { net, tags := fun k => if k = s.net.keys.next then key.tags else s.tags k,
    plane := if prunes then revoked.pruneStale layer.tailnetName tag a.prunes else revoked,
    applies := s.applies ++ [organization] }

/-- `enroll_app_on_mesh`, with the key and its row: none without a mesh. -/
def enrollApp (now : Time) (organization membership : Pk) (app : App) (device : Option Pk) (a : Reception) :
    Mesh × Except MeshKeyError (Option (Pk × JoinKey)) :=
  match s.net.orgMesh organization with
  | none => (s, .ok none)
  | some (_, layer) =>
    let (enrollments, pk, previous) := s.net.getOrCreateEnrollment organization membership app device
    match s.net.enrollApp now organization membership app device a.minted a.revokes with
    | none => ({ s with net := { s.net with enrollments } }, .error .controlPlane)
    | some (net, _, value) =>
      let key : JoinKey := ⟨layer.tailnetName, value, [.app pk], false, appMeshKeyExpirySeconds⟩
      (s.enrolled net organization layer key (.app pk) previous device.isSome a, .ok (some (s.net.keys.next, key)))

/-- `enroll_hub_on_mesh`. -/
def enrollHub (now : Time) (organization hub : Pk) (a : Reception) :
    Mesh × Except MeshKeyError (Option (Pk × JoinKey)) :=
  match s.net.orgMesh organization with
  | none => (s, .ok none)
  | some (_, layer) =>
    match s.net.enrollHub now organization hub a.minted a.revokes with
    | none => (s, .error .controlPlane)
    | some (net, value) =>
      let key : JoinKey := ⟨layer.tailnetName, value, [.hub hub], false, appMeshKeyExpirySeconds⟩
      (s.enrolled net organization layer key (.hub hub) (s.net.hubKeys hub) true a,
        .ok (some (s.net.keys.next, key)))

end Mesh

/-! ## The checks -/

/-- What was granted to a client: a hub is its own enrollment. -/
inductive Standing
  | hub (pk : Pk) (hub : Hub) (key : Pk)
  | app (pk : Pk) (app : App) (device : Pk) (enrollment : AppMeshEnrollment)

namespace Standing

def tag : Standing → Selector
  | .hub pk _ _ => .hub pk
  | .app pk _ _ _ => .app pk

def authKey : Standing → Option Pk
  | .hub _ _ key => some key
  | .app _ _ _ e => e.authKey

end Standing

namespace DB

variable (db : DB)

/-- The sidecar of a client, the row `pk` that acts for a member. -/
def sidecarGranted (net : Net) (pk : Pk) (c : Client) (membership : Pk) : Option Standing :=
  match db.hubs.first fun _ h => h.client == some pk with
  | some (hub, h) => (net.hubKeys hub).map (.hub hub h ·)
  | none => do
    let app := (← c.release).app
    let device ← c.node
    let (pk, e) ← net.enrollments.first fun _ e => e.isOf membership app (some device)
    if db.isScoped membership && !c.hub.any (db.meshHubIds membership).contains then none
    else some (.app pk app device e)

/-- What `renew_mesh_key` checks before it enrolls anybody: who acts, what was granted, and where. -/
def checkRenewal (s : Mesh) (pk : Pk) (c : Client) (lists : Bool) : Except MeshKeyError (Pk × Standing × Pk) := do
  let notLive : MeshKeyError := .refused ⟨"not_live", "The client has no live session"⟩
  let notEnrolled : MeshKeyError := .refused ⟨"not_enrolled", "No mesh access was granted to this client"⟩
  let membership ← found c.membership notLive
  require (db.isLiveClient c) notLive
  let g ← found (db.sidecarGranted s.net pk c membership) notEnrolled
  let organization ← found c.organization notEnrolled
  let (_, layer) ← found (s.net.orgMesh organization) notEnrolled
  require ((g.authKey.bind s.net.keys.row).all fun key => key.createdAt + meshKeyRenewalIntervalSeconds ≤ db.now)
    (.refused ⟨"throttled", "A mesh key was issued to this client a moment ago"⟩)
  require lists .controlPlane
  require (!(s.plane.listMachines layer.tailnetName).any fun n => n.tags.contains g.tag && n.connected)
    (.refused ⟨"connected", "This client's mesh node is online"⟩)
  return (membership, g, organization)

/-- `renew_mesh_key`, with the key and its row. -/
def renewOnMesh (s : Mesh) (pk : Pk) (c : Client) (a : Reception) : Mesh × Except MeshKeyError (Pk × JoinKey) :=
  match db.checkRenewal s pk c a.lists with
  | .error e => (s, .error e)
  | .ok (membership, g, organization) =>
    let (t, key) := match g with
      | .hub hub h _ => s.enrollHub db.now h.organization hub a
      | .app _ app device _ => s.enrollApp db.now organization membership app (some device) a
    (t, key.bind fun k => found k (.refused ⟨"not_enrolled", "No mesh access was granted to this client"⟩))

end DB

/-! ## What a renewal rests on -/

/-- The sidecar is there, and the client's. The app of a guest has a hub that the guest's live mesh grants
cover. -/
def Standing.Holds (db : DB) (net : Net) (pk : Pk) (c : Client) (membership : Pk) : Standing → Prop
  | .hub k h key => db.hubs.row k = some h ∧ h.client = some pk ∧ net.hubKeys k = some key
  | .app e a device x => net.enrollments.row e = some x ∧ x.isOf membership a (some device) = true
      ∧ c.release.map (·.app) = some a ∧ c.node = some device
      ∧ (db.isScoped membership = true → ∃ k, c.hub = some k ∧ k ∈ db.meshHubIds membership)

/-- A key was issued, for a sidecar that was granted before. -/
structure Renewed (db : DB) (s t : Mesh) (pk : Pk) (c : Client) (membership : Pk) (x : Standing)
    (key : Pk × JoinKey) :
    Prop where
  acts : c.membership = some membership
  live : db.isLiveClient c = true
  stands : x.Holds db s.net pk c membership
  waited : ∀ j k, x.authKey = some j → s.net.keys.row j = some k →
    k.createdAt + meshKeyRenewalIntervalSeconds ≤ db.now
  offline : ∃ o l, c.organization = some o ∧ s.net.orgMesh o = some l
    ∧ ∀ n ∈ s.plane.listMachines l.2.tailnetName, x.tag ∈ n.tags → n.connected = false
  carries : key.2.tags = [x.tag] ∧ t.tags key.1 = [x.tag]
  /-- No other key is issued, no enrollment made and no node let in. -/
  keys : ∀ k ∈ t.plane.keys, k ∈ s.plane.keys ∨ k = key.2
  enrollments : ∀ e y, t.net.enrollments.row e = some y →
    ∃ z, s.net.enrollments.row e = some z ∧ y = { z with authKey := y.authKey }
  nodes : ∀ n ∈ t.plane.nodes, n ∈ s.plane.nodes

namespace DB

variable {db : DB} {net : Net} {s t : Mesh} {pk membership organization : Pk} {c : Client} {x : Standing}

theorem sidecarGranted_holds (h : db.sidecarGranted net pk c membership = some x) :
    x.Holds db net pk c membership := by
  unfold sidecarGranted at h
  split at h
  · rename_i hub y hfirst
    obtain ⟨hrow, hclient⟩ := first_eq_some hfirst
    obtain ⟨key, hkey, rfl⟩ := Option.map_eq_some_iff.mp h
    exact ⟨hrow, by simpa using hclient, hkey⟩
  · simp only [Option.bind_eq_bind, Option.bind_eq_some_iff, Prod.exists] at h
    obtain ⟨release, hrelease, device, hdevice, e, y, hfirst, h⟩ := h
    obtain ⟨hrow, hof⟩ := first_eq_some hfirst
    split at h
    · cases h
    · rename_i hreach
      obtain rfl := Option.some.inj h
      refine ⟨hrow, hof, by rw [hrelease, Option.map_some], hdevice, fun hscoped => ?_⟩
      simpa [hscoped, Option.any_eq_true] using hreach

theorem sidecarGranted_found {app : App} {e device : Pk} {y : AppMeshEnrollment}
    (h : db.sidecarGranted net pk c membership = some (.app e app device y)) :
    net.getOrCreateEnrollment organization membership app (some device) = (net.enrollments, e, y.authKey) := by
  unfold sidecarGranted at h
  split at h
  · obtain ⟨_, -, h⟩ := Option.map_eq_some_iff.mp h
    cases h
  · simp only [Option.bind_eq_bind, Option.bind_eq_some_iff, Prod.exists] at h
    obtain ⟨_, -, _, -, _, _, hfirst, h⟩ := h
    split at h
    · cases h
    · cases Option.some.inj h
      unfold Net.getOrCreateEnrollment
      rw [hfirst]

theorem checkRenewal_ok {lists : Bool} (h : db.checkRenewal s pk c lists = .ok (membership, x, organization)) :
    c.membership = some membership ∧ db.isLiveClient c = true ∧ db.sidecarGranted s.net pk c membership = some x
      ∧ (∀ j k, x.authKey = some j → s.net.keys.row j = some k →
        k.createdAt + meshKeyRenewalIntervalSeconds ≤ db.now)
      ∧ ∃ l, c.organization = some organization ∧ s.net.orgMesh organization = some l
        ∧ ∀ n ∈ s.plane.listMachines l.2.tailnetName, x.tag ∈ n.tags → n.connected = false := by
  simp only [checkRenewal, bind_ok, found_ok, require_ok, exists_unit, pure_ok, Prod.mk.injEq] at h
  obtain ⟨m, hm, hlive, g, hg, o, ho, l, hl, hwaited, -, hoffline, rfl, rfl, rfl⟩ := h
  refine ⟨hm, hlive, hg, fun j k hj hk => ?_, l, ho, hl, fun n hn htag => ?_⟩
  · simpa [hj, hk] using hwaited
  · simp only [Bool.not_eq_true', List.any_eq_false, Bool.and_eq_true, not_and, Bool.not_eq_true] at hoffline
    exact hoffline n hn (by simpa using htag)

end DB

/-! ## What enrolling leaves as it was -/

theorem Tailnets.pruneStale_keys (p : Tailnets) (tailnet : String) (tag : Selector) (answered : Option Nat) :
    (p.pruneStale tailnet tag answered).keys = p.keys := by
  unfold pruneStale
  split
  · rfl
  · exact deleteMachines_keys _

theorem Tailnets.mem_of_pruneStale {p : Tailnets} {tailnet : String} {tag : Selector} {answered : Option Nat}
    {n : Node} (h : n ∈ (p.pruneStale tailnet tag answered).nodes) : n ∈ p.nodes := by
  unfold pruneStale at h
  split at h
  · exact h
  · exact (mem_deleteMachines.mp h).1

namespace Mesh

variable {s t : Mesh} {net : Net} {organization : Pk} {layer : IonscaleLayer} {key : JoinKey} {tag : Selector}
  {previous : Option Pk}
  {prunes : Bool} {a : Reception} {now : Time}

theorem mem_enrolled_keys {k : JoinKey}
    (h : k ∈ (s.enrolled net organization layer key tag previous prunes a).plane.keys) :
    k ∈ s.plane.keys ∨ k = key := by
  simp only [enrolled, apply_ite Tailnets.keys, Tailnets.pruneStale_keys, ite_self] at h
  split at h
  · exact Tailnets.mem_createAuthKey.mp h
  · exact Tailnets.mem_createAuthKey.mp (Tailnets.mem_of_deleteAuthKey h)

theorem mem_enrolled_nodes {n : Node}
    (h : n ∈ (s.enrolled net organization layer key tag previous prunes a).plane.nodes) :
    n ∈ s.plane.nodes := by
  have hrevoked : ∀ p : Tailnets, n ∈ (if prunes then p.pruneStale layer.tailnetName tag a.prunes else p).nodes →
    n ∈ p.nodes := by
    intro p hp
    split at hp
    · exact Tailnets.mem_of_pruneStale hp
    · exact hp
  have h := hrevoked _ h
  split at h <;> exact h

/-- Enrolling who is enrolled makes a key for the enrollment that is there, or leaves everything as it is. -/
theorem enrollApp_cases {membership e : Pk} {app : App} {device : Option Pk}
    {r : Except MeshKeyError (Option (Pk × JoinKey))}
    (hfound : s.net.getOrCreateEnrollment organization membership app device = (s.net.enrollments, e, previous))
    (h : s.enrollApp now organization membership app device a = (t, r)) :
    t = s ∧ (∀ k, r ≠ .ok (some k))
    ∨ ∃ net layer key, t = s.enrolled net organization layer key (.app e) previous device.isSome a
      ∧ r = .ok (some (s.net.keys.next, key)) ∧ key.tags = [.app e] ∧ a.minted = some key.value
      ∧ ∀ i y, net.enrollments.row i = some y →
      ∃ z, s.net.enrollments.row i = some z ∧ y = { z with authKey := y.authKey } := by
  unfold enrollApp at h
  split at h
  · obtain ⟨rfl, rfl⟩ := Prod.mk.inj h
    exact .inl ⟨rfl, by simp⟩
  · rename_i l layer hlayer
    rw [hfound] at h
    dsimp only at h
    split at h
    · obtain ⟨rfl, rfl⟩ := Prod.mk.inj h
      exact .inl ⟨rfl, by simp⟩
    · rename_i net j value henroll
      obtain ⟨rfl, rfl⟩ := Prod.mk.inj h
      simp only [Net.enrollApp, hfound, Option.bind_eq_bind, Option.bind_eq_some_iff, Option.pure_def,
        Option.some.injEq,
        Prod.mk.injEq] at henroll
      obtain ⟨_, -, _, hminted, rfl, -, rfl⟩ := henroll
      refine .inr ⟨_, layer, _, rfl, rfl, rfl, hminted, fun i y hy => ?_⟩
      rcases modify_row_eq_some.mp hy with ⟨-, hy⟩ | ⟨rfl, z, hz, rfl⟩
      · exact ⟨y, hy, rfl⟩
      · exact ⟨z, hz, rfl⟩

theorem enrollHub_cases {hub : Pk} {r : Except MeshKeyError (Option (Pk × JoinKey))}
    (h : s.enrollHub now organization hub a = (t, r)) :
    t = s ∧ (∀ k, r ≠ .ok (some k))
    ∨ ∃ net layer key, t = s.enrolled net organization layer key (.hub hub) (s.net.hubKeys hub) true a
      ∧ r = .ok (some (s.net.keys.next, key)) ∧ key.tags = [.hub hub] ∧ a.minted = some key.value
      ∧ net.enrollments = s.net.enrollments := by
  unfold enrollHub at h
  split at h
  · obtain ⟨rfl, rfl⟩ := Prod.mk.inj h
    exact .inl ⟨rfl, by simp⟩
  · rename_i l layer hlayer
    split at h
    · obtain ⟨rfl, rfl⟩ := Prod.mk.inj h
      exact .inl ⟨rfl, by simp⟩
    · rename_i net value henroll
      obtain ⟨rfl, rfl⟩ := Prod.mk.inj h
      simp only [Net.enrollHub, Option.bind_eq_bind, Option.bind_eq_some_iff, Option.pure_def, Option.some.injEq,
        Prod.mk.injEq] at henroll
      obtain ⟨_, -, _, hminted, rfl, rfl⟩ := henroll
      exact .inr ⟨_, layer, _, rfl, rfl, rfl, hminted, rfl⟩

end Mesh

theorem DB.renewOnMesh_cases {db : DB} {s t : Mesh} {pk : Pk} {c : Client} {a : Reception}
    {r : Except MeshKeyError (Pk × JoinKey)}
    (h : db.renewOnMesh s pk c a = (t, r)) : t = s ∧ (∀ k, r ≠ .ok k)
      ∨ ∃ membership x organization o net layer key previous prunes, db.checkRenewal s pk c a.lists = .ok
      (membership, x, organization)
        ∧ t = s.enrolled net o layer key x.tag previous prunes a ∧ r = .ok (s.net.keys.next, key)
        ∧ key.tags = [x.tag]
        ∧ a.minted = some key.value
        ∧ ∀ i y, net.enrollments.row i = some y →
        ∃ z, s.net.enrollments.row i = some z ∧ y = { z with authKey := y.authKey } := by
  unfold renewOnMesh at h
  split at h
  · obtain ⟨rfl, rfl⟩ := Prod.mk.inj h
    exact .inl ⟨rfl, by simp⟩
  · rename_i membership x organization hcheck
    obtain ⟨-, -, hgranted, -⟩ := DB.checkRenewal_ok hcheck
    -- what the enrolling call says is what the renewal says
    have hanswer : ∀ q : Mesh × Except MeshKeyError (Option (Pk × JoinKey)),
        (q.1, q.2.bind fun k => found k (.refused ⟨"not_enrolled", "No mesh access was granted to this client"⟩))
          = (t, r) →
        (q.1 = s ∧ ∀ k, q.2 ≠ .ok (some k)) → t = s ∧ ∀ k, r ≠ .ok k := by
      intro q hq hnone
      obtain ⟨rfl, rfl⟩ := Prod.mk.inj hq
      refine ⟨hnone.1, fun k hk => ?_⟩
      obtain ⟨k', hk', hfound⟩ := bind_ok.mp hk
      obtain rfl := found_ok.mp hfound
      exact hnone.2 k hk'
    cases x with
    | hub hub y j =>
      cases hq : s.enrollHub db.now y.organization hub a with
      | mk t' r' =>
        dsimp only at h
        rw [hq] at h
        rcases Mesh.enrollHub_cases hq with hnone | ⟨net, layer, key, rfl, rfl, htags, hminted, hnet⟩
        · exact .inl (hanswer (t', r') h hnone)
        · obtain ⟨rfl, rfl⟩ := Prod.mk.inj h
          exact .inr ⟨membership, _, organization, _, net, layer, key, _, _, hcheck, rfl, rfl, htags, hminted,
            fun i z hz => ⟨z, hnet ▸ hz, rfl⟩⟩
    | app e app device y =>
      cases hq : s.enrollApp db.now organization membership app (some device) a with
      | mk t' r' =>
        dsimp only at h
        rw [hq] at h
        rcases Mesh.enrollApp_cases (DB.sidecarGranted_found hgranted) hq with hnone | ⟨net, layer, key, rfl, rfl,
          htags, hminted, hrows⟩
        · exact .inl (hanswer (t', r') h hnone)
        · obtain ⟨rfl, rfl⟩ := Prod.mk.inj h
          exact .inr ⟨membership, _, organization, _, net, layer, key, _, _, hcheck, rfl,
            rfl, htags, hminted, hrows⟩

/-- The online nodes of an organization's tailnet, by their tags. -/
def Mesh.online (s : Mesh) (organization : Pk) (tag : Selector) : Bool :=
  (s.net.orgMesh organization).any fun l => (s.plane.listMachines l.2.tailnetName).any
    fun n => n.tags.contains tag && n.connected

theorem DB.sidecarGranted_sidecar {db : DB} {net : Net} {pk membership : Pk} {c : Client} {x : Standing}
    (hm : c.membership = some membership) (h : db.sidecarGranted net pk c membership = some x) :
    (match db.hubs.first fun _ h => h.client == some pk with
      | some (hub, _) => net.hubSidecar hub
      | none =>
        (net.appSidecar c).filter
          fun _ => !db.isScoped membership || c.hub.any (db.meshHubIds membership).contains)
      = some (x.tag, x.authKey) := by
  unfold sidecarGranted at h
  split at h
  · obtain ⟨key, hkey, rfl⟩ := Option.map_eq_some_iff.mp h
    simp [Net.hubSidecar, hkey, Standing.tag, Standing.authKey]
  · simp only [Option.bind_eq_bind, Option.bind_eq_some_iff, Prod.exists] at h
    obtain ⟨release, hrelease, device, hdevice, e, y, hfirst, h⟩ := h
    have hsame : (fun _ (e : AppMeshEnrollment) => e.standsFor c && e.device.isSome)
        = fun (_ : Pk) e => e.isOf membership release.app (some device) := by
      funext _ e
      simp only [AppMeshEnrollment.standsFor, AppMeshEnrollment.isOf, hm, hrelease, hdevice, Option.map_some]
      rw [Bool.eq_iff_iff]
      simp only [Bool.and_eq_true, beq_iff_eq, Option.some.injEq]
      grind
    split at h
    · cases h
    · rename_i hreach
      obtain rfl := Option.some.inj h
      rw [Net.appSidecar, hsame, hfirst]
      simp only [Option.map_some, Standing.tag, Standing.authKey]
      refine Option.filter_eq_some_iff.mpr ⟨rfl, ?_⟩
      cases hscoped : db.isScoped membership with
      | false => simp
      | true => simpa [hscoped] using hreach

theorem DB.renewOnMesh_renewMeshKey {db : DB} {s t : Mesh} {pk : Pk} {c : Client} {a : Reception}
    {key : Pk × JoinKey}
    (h : db.renewOnMesh s pk c a = (t, .ok key)) :
    ∃ organization, db.renewMeshKey s.net pk c (s.online organization) a.minted = .ok key.2.value := by
  rcases DB.renewOnMesh_cases h with ⟨-, hnone⟩ | ⟨membership, x, organization, _, _, _, key', _, _, hcheck, -, hr,
    -, hminted, -⟩
  · exact absurd rfl (hnone key)
  · obtain rfl := Except.ok.inj hr
    obtain ⟨hm, hlive, hgranted, hwaited, l, ho, hl, hoffline⟩ := DB.checkRenewal_ok hcheck
    refine ⟨organization, ?_⟩
    simp only [DB.renewMeshKey, bind_ok, found_ok, require_ok, exists_unit, Prod.exists]
    refine ⟨membership, hm, hlive, x.tag, x.authKey,
      DB.sidecarGranted_sidecar hm hgranted, by simp [ho, hl], ?_, ?_, hminted⟩
    · simp only [Option.all_eq_true, Option.bind_eq_some_iff, decide_eq_true_eq]
      intro k hk
      obtain ⟨j, hj, hk⟩ := hk
      exact hwaited j k hj hk
    · simp only [Mesh.online, hl, Option.any_some, Bool.not_eq_true', List.any_eq_false, Bool.and_eq_true, not_and,
        Bool.not_eq_true]
      exact fun n hn htag => hoffline n hn (by simpa using htag)

/-- A key is only issued to a live client, for the one sidecar that was granted to it before, if the key it
has is old enough and no node of it is online. Whatever ends without a key leaves everything as it was. -/
theorem renewal_grants_nothing_new {db : DB} {s t : Mesh} {pk : Pk} {c : Client} {a : Reception}
    {r : Except MeshKeyError (Pk × JoinKey)} (h : db.renewOnMesh s pk c a = (t, r)) :
    (∀ key, r = .ok key → ∃ membership x, Renewed db s t pk c membership x key) ∧ (∀ e, r = .error e → t = s) := by
  rcases DB.renewOnMesh_cases h with ⟨hsame, hnone⟩ | ⟨membership, x, organization, o, net, layer, key, previous,
    prunes, hcheck, rfl, rfl, htags, -, hrows⟩
  · exact ⟨fun key hr => absurd hr (hnone key), fun _ _ => hsame⟩
  · refine ⟨fun key' hr => ?_, fun e hr => by cases hr⟩
    obtain rfl := Except.ok.inj hr
    obtain ⟨hm, hlive, hgranted, hwaited, l, ho, hl, hoffline⟩ := DB.checkRenewal_ok hcheck
    refine ⟨membership, x, hm, hlive, DB.sidecarGranted_holds hgranted, hwaited,
      ⟨organization, l, ho, hl, hoffline⟩, ⟨htags, ?_⟩,
      fun k hk => Mesh.mem_enrolled_keys hk, hrows, fun n hn => Mesh.mem_enrolled_nodes hn⟩
    simp [Mesh.enrolled, htags]

/-! ## What the checks do not look at -/

namespace Mesh

/-- `delete_ionscale_layer`: its keys go with it, and its tailnet. -/
def deleteLayer (s : Mesh) (layer : Pk) : Mesh :=
  match s.net.layers.row layer with
  | none => s
  | some l =>
    let gone := fun key => (s.net.keys.row key).any (·.layer == layer)
    let net : Net :=
      { layers := s.net.layers.keep fun k _ => k != layer, keys := s.net.keys.keep fun _ k => k.layer != layer,
        enrollments := s.net.enrollments.update fun _ e => { e with authKey := e.authKey.filter fun k => !gone k },
        hubKeys := fun h => (s.net.hubKeys h).filter fun k => !gone k }
    { s with net, plane := s.plane.deleteTailnet l.tailnetName }

/-- `ensure_org_mesh`, for an organization without a mesh. -/
def createLayer (s : Mesh) (organization : Pk) (tailnet : String) : Mesh :=
  { s with net := { s.net with layers := s.net.layers.insert ⟨organization, tailnet⟩ } }

end Mesh

def newMesh : Mesh := Mesh.createLayer ⟨noNet, fun _ => [], ⟨[], []⟩, []⟩ 0 "org"

/-- A control plane that answers every call. -/
def answering (value : String) : Reception := ⟨true, some value, true, some 0⟩

/-- Ann approves an app on her laptop, for the hub of her organization. -/
def laptopApp : List Action :=
  [.createUser "ann" [], .createOrganization "org" 0 false, .configureHub 0 plainHub,
   .startDeviceCode { plainApp with deviceId := some "laptop" } .desktop .interface ["app://"] false 600 true,
   .acceptDeviceCode 0 0 (some 1) 0 [] true none]

/-- The app is enrolled, and its key renewed. -/
def enrolledLaptop (as : List Action) : Mesh × Except MeshKeyError (Option (Pk × JoinKey)) :=
  newMesh.enrollApp (run plainEnv .empty as).now 0 0 ⟨0, "app"⟩ (some 0) (answering "first")

/-- After a minute the app gets a key for its enrollment. -/
theorem renewal_grants_nothing_new_laptop :
    ∃ db s t c key membership x, Reachable plainEnv db ∧ db.clients.row 0 = some c
    ∧ Renewed db s t 0 c membership x key := by
  have hdb := reachable_run plainEnv (laptopApp ++ [.tick 100])
  have hkey : ((run plainEnv .empty (laptopApp ++ [.tick 100])).clients.row 0).any (fun c =>
      ((run plainEnv .empty (laptopApp ++ [.tick 100])).renewOnMesh (enrolledLaptop laptopApp).1 0 c
        (answering "second")).2.toOption.isSome) = true := by decide +kernel
  generalize run plainEnv .empty (laptopApp ++ [.tick 100]) = db at hdb hkey
  obtain ⟨c, hc, hkey⟩ := (Option.any_eq_true _ _).mp hkey
  cases hr : db.renewOnMesh (enrolledLaptop laptopApp).1 0 c (answering "second") with
  | mk t r =>
    rw [hr] at hkey
    cases r with
    | error e => cases hkey
    | ok key =>
      obtain ⟨membership, x, hrenewed⟩ := (renewal_grants_nothing_new hr).1 key rfl
      exact ⟨db, _, t, c, key, membership, x, hdb, hc, hrenewed⟩

/-- Ann lets a hub in, loses her roles, and is made a guest of it. -/
def hubOfGuest : List Action :=
  [.createUser "ann" [], .createOrganization "org" 0 false, .startHubDeviceCode plainHub 600,
   .acceptHubDeviceCode 0 0 (some 1) 0 true none, .clearRoles 0, .grantCollaborations 0 [⟨0, "c", []⟩] none
   (some 0) none false]

/-- A key that went with the mesh it was for holds nobody up: the next one is issued at once for the mesh
that is made anew. And the identity of a hub is not asked for grants, whoever it acts for. -/
theorem renewal_looks_no_further :
    (∃ db u t c first second, Reachable plainEnv db ∧ db.clients.row 0 = some c
      ∧ newMesh.enrollApp db.now 0 0 ⟨0, "app"⟩ (some 0) (answering "first") = (u, .ok (some first))
      ∧ (step plainEnv db (.tick 10)).renewOnMesh ((u.deleteLayer 0).createLayer 0 "org") 0 c
      (answering "second") = (t, .ok second)
      ∧ 10 < meshKeyRenewalIntervalSeconds)
    ∧ ∃ db s t c key, Reachable plainEnv db ∧ db.clients.row 0 = some c ∧ c.membership = some 0
    ∧ db.isScoped 0 = true
      ∧ db.meshHubIds 0 = [] ∧ db.renewOnMesh s 0 c (answering "second") = (t, .ok key) := by
  constructor
  · have hdb := reachable_run plainEnv laptopApp
    have hfirst : (enrolledLaptop laptopApp).2.toOption.join.isSome = true := by decide +kernel
    have hsecond : ((run plainEnv .empty laptopApp).clients.row 0).any (fun c =>
        ((step plainEnv (run plainEnv .empty laptopApp) (.tick 10)).renewOnMesh
          (((enrolledLaptop laptopApp).1.deleteLayer 0).createLayer 0 "org") 0 c
            (answering "second")).2.toOption.isSome) = true := by
      decide +kernel
    unfold enrolledLaptop at hfirst hsecond
    generalize run plainEnv .empty laptopApp = db at hdb hfirst hsecond
    obtain ⟨c, hc, hsecond⟩ := (Option.any_eq_true _ _).mp hsecond
    cases hu : newMesh.enrollApp db.now 0 0 ⟨0, "app"⟩ (some 0) (answering "first") with
    | mk u r =>
      rw [hu] at hfirst hsecond
      dsimp only at hsecond
      cases r with
      | error e => cases hfirst
      | ok first =>
        cases first with
        | none => cases hfirst
        | some first =>
          cases ht : (step plainEnv db (.tick 10)).renewOnMesh ((u.deleteLayer 0).createLayer 0 "org") 0 c
            (answering "second") with
          | mk t r =>
            rw [ht] at hsecond
            cases r with
            | error e => cases hsecond
            | ok second => exact ⟨db, u, t, c, first, second, hdb, hc, hu, ht, by decide⟩
  · have hdb := reachable_run plainEnv (hubOfGuest ++ [.tick 100])
    have hkey : ((run plainEnv .empty (hubOfGuest ++ [.tick 100])).clients.row 0).any (fun c =>
        c.membership == some 0 && (run plainEnv .empty (hubOfGuest ++ [.tick 100])).isScoped 0
          && (run plainEnv .empty (hubOfGuest ++ [.tick 100])).meshHubIds 0 == []
          && ((run plainEnv .empty (hubOfGuest ++ [.tick 100])).renewOnMesh
            (newMesh.enrollHub 0 0 0 (answering "first")).1 0 c
            (answering "second")).2.toOption.isSome) = true := by decide +kernel
    generalize run plainEnv .empty (hubOfGuest ++ [.tick 100]) = db at hdb hkey
    obtain ⟨c, hc, hkey⟩ := (Option.any_eq_true _ _).mp hkey
    simp only [Bool.and_eq_true, beq_iff_eq] at hkey
    obtain ⟨⟨⟨hm, hscoped⟩, hhubs⟩, hkey⟩ := hkey
    cases hr : db.renewOnMesh (newMesh.enrollHub 0 0 0 (answering "first")).1 0 c (answering "second") with
    | mk t r =>
      rw [hr] at hkey
      cases r with
      | error e => cases hkey
      | ok key => exact ⟨db, _, t, c, key, hdb, hc, hm, hscoped, hhubs, hr⟩

end Lok
