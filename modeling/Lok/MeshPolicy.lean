import Lok.Mesh

/-!
# The mesh policy

What the written policy lets a sidecar reach, from both sides: sidecars are sources only
towards hubs, hubs are destinations only, and an app reaches exactly the hubs its live
clients are bound to, a guest's app no further than the guest's mesh grants.
-/

namespace Lok

open Table

/-! ## Who counts -/

namespace DB

variable {db : DB} {net : Net}

theorem isScoped_eq_false {membership : Pk} :
    db.isScoped membership = false ↔ ∀ pk g, db.grants.row pk = some g → g.membership ≠ membership := by
  simp [hasGrants, exists?_eq_false]

/-- A live grant is one of the membership's own, unexpired, from a granter who is still an active full member. -/
theorem mem_liveGrants {membership pk : Pk} {g : CollaborationGrant} :
    (pk, g) ∈ db.liveGrants membership ↔ ∃ m, db.memberships.row membership = some m ∧ db.grants.row pk = some g
      ∧ g.membership = membership ∧ db.grantLives m.organization g = true := by
  unfold liveGrants
  cases hm : db.memberships.row membership with
  | none => simp
  | some m => simp [mem_filter]

theorem mem_meshHubIds {membership hub : Pk} :
    hub ∈ db.meshHubIds membership ↔
      ∃ pk g, (pk, g) ∈ db.liveGrants membership ∧ g.mesh = true ∧ db.hubOf g.instance_ = some hub := by
  unfold meshHubIds
  simp only [List.mem_filterMap, List.mem_filter, Prod.exists, and_assoc]

/-- A client has a live session: a refresh chain within its lifetimes, the grace of a client that never
polled, or a mandate that works. -/
theorem isLiveClient_iff {c : Client} :
    db.isLiveClient c = true ↔
      (c.mandate = none ∧ ((∃ pk t, db.tokens.row pk = some t ∧ t.clientId = c.clientId ∧ db.chainHolds 0 t = true)
        ∨ (∀ pk t, db.tokens.row pk = some t → t.clientId ≠ c.clientId)
        ∧ db.now ≤ c.createdAt + backerGraceSeconds))
      ∨ ∃ pk m, c.mandate = some pk ∧ db.mandates.row pk = some m ∧ db.mandateHolds 0 m = true := by
  cases hm : c.mandate with
  | none => simp [withSession, hm, hasSession, isFresh, exists?_eq_true, exists?_eq_false]
  | some pk => simp [withSession, hm, Option.any_eq_true]

theorem mem_hubsOfEnrollment {e : AppMeshEnrollment} {hub : Pk} :
    hub ∈ db.hubsOfEnrollment e ↔ ∃ pk c, db.clients.row pk = some c ∧ e.standsFor c = true ∧ c.hub = some hub
      ∧ db.isLiveClient c = true := by
  unfold hubsOfEnrollment
  simp only [List.mem_filterMap, Prod.exists, mem_filter, Bool.and_eq_true, and_assoc]
  constructor
  · rintro ⟨pk, c, hc, hstands, -, hlive, hhub⟩
    exact ⟨pk, c, hc, hstands, hhub, hlive⟩
  · rintro ⟨pk, c, hc, hstands, hhub, hlive⟩
    exact ⟨pk, c, hc, hstands, by simp [hhub], hlive, hhub⟩

theorem mem_reachOf {e : AppMeshEnrollment} {hub : Pk} :
    hub ∈ db.reachOf e ↔ hub ∈ db.hubsOfEnrollment e
      ∧ (db.isScoped e.membership = false ∨ hub ∈ db.meshHubIds e.membership) := by
  unfold reachOf
  split <;> rename_i h
  · simp [List.mem_filter, h]
  · simp [h]

/-! ## The entries -/

theorem mem_sourcesOf {organization hub : Pk} {s : Selector} :
    s ∈ db.sourcesOf net organization hub ↔
      ∃ a e, s = .app a ∧ (a, e) ∈ net.keyedEnrollments organization ∧ hub ∈ db.reachOf e := by
  unfold sourcesOf
  simp only [List.mem_map, List.mem_filter, List.contains_eq_mem, decide_eq_true_eq, Prod.exists, and_assoc]
  constructor
  · rintro ⟨a, e, he, hhub, rfl⟩
    exact ⟨a, e, rfl, he, hhub⟩
  · rintro ⟨a, e, rfl, he, hhub⟩
    exact ⟨a, e, he, hhub, rfl⟩

theorem mem_reachedHubs {organization hub : Pk} :
    hub ∈ db.reachedHubs net organization
    ↔ ∃ a e, (a, e) ∈ net.keyedEnrollments organization ∧ hub ∈ db.reachOf e := by
  unfold reachedHubs
  simp only [List.mem_mergeSort, List.mem_dedup, List.mem_flatMap, Prod.exists]

@[simp] theorem mem_sortedSelectors {l : List Selector} {s : Selector} : s ∈ sortedSelectors l ↔ s ∈ l := by
  simp [sortedSelectors]

theorem mem_acls {organization : Pk} {entry : AclEntry} (h : entry ∈ (db.buildAclPolicy net organization).acls) :
    (entry.src = [.members, .mesh organization] ∧ entry.dst = [.members, .mesh organization])
      ∨ ∃ hub, (∀ s, s ∈ entry.src ↔ s ∈ db.sourcesOf net organization hub) ∧ entry.dst = [.hub hub] := by
  unfold buildAclPolicy at h
  simp only [List.mem_cons, List.mem_map] at h
  rcases h with rfl | ⟨hub, -, rfl⟩
  · exact .inl ⟨rfl, rfl⟩
  · exact .inr ⟨hub, fun s => mem_sortedSelectors, rfl⟩

/-- An app reaches a hub exactly when its enrollment has a key and reaches it. -/
theorem mayReach_iff {organization a hub : Pk} :
    (db.buildAclPolicy net organization).MayReach (.app a) (.hub hub) ↔
      ∃ e, (a, e) ∈ net.keyedEnrollments organization ∧ hub ∈ db.reachOf e := by
  constructor
  · rintro ⟨entry, hentry, hsrc, hdst⟩
    rcases mem_acls hentry with ⟨-, h⟩ | ⟨m, hm, h⟩
    · rw [h] at hdst
      simp at hdst
    · obtain rfl : hub = m := by
        rw [h] at hdst
        simpa using hdst
      obtain ⟨b, e, hb, he, hreach⟩ := mem_sourcesOf.mp ((hm _).mp hsrc)
      cases hb
      exact ⟨e, he, hreach⟩
  · rintro ⟨e, he, hreach⟩
    refine ⟨⟨"accept", sortedSelectors (db.sourcesOf net organization hub), [.hub hub]⟩, ?_, ?_, by simp⟩
    · unfold buildAclPolicy
      exact List.mem_cons_of_mem _ (List.mem_map.mpr ⟨hub, mem_reachedHubs.mpr ⟨a, e, he, hreach⟩, rfl⟩)
    · exact mem_sortedSelectors.mpr (mem_sourcesOf.mpr ⟨a, e, rfl, he, hreach⟩)

end DB

/-! ## Isolation -/

/-- Sidecars are kept apart: no app is a destination, no hub a source, neither is among the peers; and an
app reaches exactly the hubs its live clients are bound to, a guest's app only those its mesh grants cover.
-/
theorem sidecars_isolated (db : DB) (net : Net) (organization : Pk) :
    (∀ entry ∈ (db.buildAclPolicy net organization).acls,
      (∀ a, .app a ∉ entry.dst) ∧ (∀ m, .hub m ∉ entry.src)
      ∧ (.members ∈ entry.src ∨ .members ∈ entry.dst ∨ (∃ o, .mesh o ∈ entry.src ∨ .mesh o ∈ entry.dst) →
        ∀ pk, .app pk ∉ entry.src ∧ .app pk ∉ entry.dst ∧ .hub pk ∉ entry.src ∧ .hub pk ∉ entry.dst))
    ∧ ∀ a m, (db.buildAclPolicy net organization).MayReach (.app a) (.hub m) ↔
      ∃ e, net.enrollments.row a = some e ∧ e.organization = organization ∧ e.authKey.isSome = true
        ∧ (∃ pk c, db.clients.row pk = some c ∧ db.isLiveClient c = true ∧ c.membership = some e.membership
          ∧ c.release.map (·.app) = some e.app ∧ c.node = e.device ∧ c.hub = some m)
        ∧ ((∀ pk g, db.grants.row pk = some g → g.membership ≠ e.membership)
          ∨ ∃ pk g, (pk, g) ∈ db.liveGrants e.membership ∧ g.mesh = true ∧ db.hubOf g.instance_ = some m) := by
  refine ⟨fun entry hentry => ?_, fun a m => ?_⟩
  · rcases DB.mem_acls hentry with ⟨hsrc, hdst⟩ | ⟨hub, hsrc, hdst⟩
    · simp [hsrc, hdst]
    · have happ : ∀ s ∈ entry.src, ∃ a, s = .app a := by
        intro s hs
        obtain ⟨a, -, rfl, -⟩ := DB.mem_sourcesOf.mp ((hsrc s).mp hs)
        exact ⟨a, rfl⟩
      refine ⟨by simp [hdst], fun m hm => ?_, fun hpeer => ?_⟩
      · obtain ⟨_, h⟩ := happ _ hm
        cases h
      · rcases hpeer with hm | hm | ⟨o, hm | hm⟩
        · obtain ⟨_, h⟩ := happ _ hm
          cases h
        · simp [hdst] at hm
        · obtain ⟨_, h⟩ := happ _ hm
          cases h
        · simp [hdst] at hm
  · rw [DB.mayReach_iff]
    simp only [Net.keyedEnrollments, mem_filter, DB.mem_reachOf, DB.mem_hubsOfEnrollment, DB.isScoped_eq_false,
      DB.mem_meshHubIds, AppMeshEnrollment.standsFor, Bool.and_eq_true, beq_iff_eq, and_assoc]
    refine exists_congr fun e => and_congr_right fun _ => and_congr_right fun _ => and_congr_right fun _ => ?_
    refine and_congr_left fun _ => exists_congr fun pk => exists_congr fun c => and_congr_right fun _ => ?_
    tauto

end Lok
