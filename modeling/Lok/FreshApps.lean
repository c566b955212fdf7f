import Lok.Approvals
import Lok.IssuedScopes
import Lok.Sidecars

/-!
# Freshly approved apps

An approval that granted a mesh key says the app is connected: its client is live, its
enrollment stays, and the policy written with it lets the app reach its hub. A client that
was registered for the approval has the grace for that. One that was kept from an earlier
installation has what its earlier sessions left, and no poll writes the policy again.
-/

namespace Lok

open Table Runs Checks

namespace DB

variable {db d e f : DB} {env : Env}

/-! ## The approval -/

/-- Who approved an app, where, and the client it ends with. -/
structure Approval where
  membership : Pk
  organization : Pk
  pk : Pk
  client : Client

/-- The approval that accepting a code into a hub makes. -/
def approvalOf (db : DB) (env : Env) (user pk hub : Pk) : Option Approval := do
  let code ← db.deviceCodes.row pk
  let h ← db.hubs.row hub
  let (membership, _) ← db.membershipOf user h.organization
  match code.staging with
  | .hub _ => none
  | .app manifest => do
    let (k, c) ← db.clientOfApproval env code manifest membership h.organization hub
    return ⟨membership, h.organization, k, c⟩

/-- A client that has a session, and has it until then: a refresh chain that nobody revoked and that lasts,
or the grace of one that never had a token. -/
def HasSessionUntil (db : DB) (deadline : Time) (c : Client) : Prop :=
  (∃ pk t, db.tokens.row pk = some t ∧ t.clientId = c.clientId ∧ t.revoked = false ∧ t.refreshToken.isSome = true
      ∧ deadline ≤ t.issuedAt + refreshTokenLifetime ∧ deadline ≤ t.chainStartedAt + refreshChainMaxLifetime)
    ∨ (∀ pk t, db.tokens.row pk = some t → t.clientId ≠ c.clientId) ∧ deadline ≤ c.createdAt + backerGraceSeconds

/-! ## Being connected -/

/-- A client backs the sidecar: it is live, and no reaping takes the enrollment. -/
structure BacksSidecar (db : DB) (net : Net) (k a organization : Pk) : Prop where
  live : ∃ c, db.clients.row k = some c ∧ db.isLiveClient c = true
  reaped : ∀ grace membership app device,
    ∃ x, (net.reapEnrollment db grace membership app device).enrollments.row a = some x
  swept : ∀ grace machines migrate, ∃ x,
    (net.reconcileSidecars db grace organization machines migrate).net.enrollments.row a = some x

/-- What became of the database and the mesh while nobody polled for the client `k` and nothing of it was
revoked: its chains were rotated at most, its enrollment got a new key at most, and a guest lost access by
the passing of time at most. -/
structure Undisturbed (env : Env) (d : DB) (net : Net) (membership k a hub : Pk) (e : DB) (n : Net) : Prop where
  reachable : Reachable env e
  now : d.now ≤ e.now
  client : ∀ c, d.clients.row k = some c → ∃ c', e.clients.row k = some c' ∧ c'.binding = c.binding
    ∧ c'.node = c.node
    ∧ c'.createdAt = c.createdAt
  unpolled : ∀ c, d.clients.row k = some c → (∀ pk t, d.tokens.row pk = some t → t.clientId ≠ c.clientId) →
    ∀ pk t, e.tokens.row pk = some t → t.clientId ≠ c.clientId
  chains : ∀ c pk t, d.clients.row k = some c → d.tokens.row pk = some t → t.clientId = c.clientId →
    t.revoked = false →
    t.refreshToken.isSome = true → ∃ pk' t', e.tokens.row pk' = some t' ∧ t'.clientId = c.clientId
      ∧ t'.revoked = false
      ∧ t'.refreshToken.isSome = true ∧ t.issuedAt ≤ t'.issuedAt ∧ t'.chainStartedAt = t.chainStartedAt
  enrollment : ∀ x, net.enrollments.row a = some x →
    ∃ key, n.enrollments.row a = some { x with authKey := some key }
  full : e.isScoped membership = true → d.isScoped membership = true
  guest : ∀ t, hub ∈ ({ d with now := t } : DB).meshHubIds membership →
    hub ∈ ({ e with now := t } : DB).meshHubIds membership

/-- The app stays connected until then: whenever a policy is written, and from its first poll on by the
policy then in force, which is one that was written before. -/
structure StaysConnected (env : Env) (d : DB) (net : Net) (membership k a organization hub : Pk)
    (deadline : Time) : Prop where
  waiting : ∀ e n, Undisturbed env d net membership k a hub e n → e.now ≤ deadline →
    BacksSidecar e n k a organization ∧ (e.buildAclPolicy n organization).MayReach (.app a) (.hub hub)
  polled : ∀ e₀ n₀ e n clientId secret f response, Undisturbed env d net membership k a hub e₀ n₀ →
    Undisturbed env d net membership k a hub e n → e₀.now ≤ e.now → e.now ≤ deadline →
    e.pollDeviceCode env clientId secret = (f, .ok response) → response.client = k →
    BacksSidecar f n k a organization ∧ (e₀.buildAclPolicy n₀ organization).MayReach (.app a) (.hub hub)

/-! ## Sessions -/

theorem hasSessionUntil_iff {c : Client} (hmandate : c.mandate = none) :
    db.isLiveClient c = true ↔ db.HasSessionUntil db.now c := by
  rw [isLiveClient_iff]
  simp only [hmandate, HasSessionUntil, true_and, chainHolds, Bool.and_eq_true, Bool.not_eq_true',
    decide_eq_true_eq,
    and_assoc, Nat.add_zero, false_and, exists_false, or_false, reduceCtorEq]

theorem HasSessionUntil.earlier {c : Client} {t u : Time} (h : db.HasSessionUntil u c) (hle : t ≤ u) :
    db.HasSessionUntil t c := by
  rcases h with ⟨pk, x, hx, hid, hrevoked, hrefresh, hissued, hchain⟩ | ⟨hnone, hfresh⟩
  · exact .inl ⟨pk, x, hx, hid, hrevoked, hrefresh, Nat.le_trans hle hissued, Nat.le_trans hle hchain⟩
  · exact .inr ⟨hnone, Nat.le_trans hle hfresh⟩

/-- A guest reaches later nothing by mesh that was out of reach before, as long as only time passes. -/
theorem meshHubIds_antitone {membership hub : Pk} {t u : Time} (hle : t ≤ u)
    (h : hub ∈ ({ db with now := u } : DB).meshHubIds membership) :
    hub ∈ ({ db with now := t } : DB).meshHubIds membership := by
  obtain ⟨pk, g, hg, hmesh, hhub⟩ := mem_meshHubIds.mp h
  obtain ⟨m, hm, hrow, hmember, hlives⟩ := mem_liveGrants.mp hg
  refine mem_meshHubIds.mpr ⟨pk, g, mem_liveGrants.mpr ⟨m, hm, hrow, hmember, ?_⟩, hmesh, hhub⟩
  simp only [grantLives, Bool.and_eq_true, Option.all_eq_true, decide_eq_true_eq] at hlives ⊢
  exact ⟨fun expiry hexpiry => Nat.lt_of_le_of_lt hle (hlives.1 expiry hexpiry), hlives.2⟩

section
variable {net n : Net} {k a organization hub : Pk} {c : Client} {x : AppMeshEnrollment}

theorem backsSidecar_of_live (hc : db.clients.row k = some c) (hlive : db.isLiveClient c = true)
    (hx : n.enrollments.row a = some x) (hstands : x.standsFor c = true) : BacksSidecar db n k a organization := by
  have hretained : ∀ grace, db.enrollmentIsRetained grace x.membership x.app x.device = true := fun grace =>
    enrollmentIsRetained_of_live grace hc hstands hlive
  exact ⟨⟨c, hc, hlive⟩, fun grace _ _ _ => ⟨x, Net.reapEnrollment_spares hx (hretained grace)⟩,
    fun grace _ _ => ⟨x, Net.reconcileSidecars_spares hx (hretained grace)⟩⟩

theorem mayReach_of_live (hc : db.clients.row k = some c) (hlive : db.isLiveClient c = true)
    (hhub : c.hub = some hub)
    (hx : n.enrollments.row a = some x) (hstands : x.standsFor c = true)
    (horganization : x.organization = organization)
    (hkey : x.authKey.isSome = true)
    (hguest : db.isScoped x.membership = true → hub ∈ db.meshHubIds x.membership) :
    (db.buildAclPolicy n organization).MayReach (.app a) (.hub hub) := by
  refine mayReach_iff.mpr ⟨x, ?_, mem_reachOf.mpr ⟨mem_hubsOfEnrollment.mpr ⟨k, c, hc, hstands, hhub, hlive⟩, ?_⟩⟩
  · simp [Net.keyedEnrollments, mem_filter, hx, horganization, hkey]
  · cases hscoped : db.isScoped x.membership with
    | false => exact .inl rfl
    | true => exact .inr (hguest hscoped)

end

/-! ## What an approval makes -/

theorem clientOfApproval_plain {pk m organization hub : Pk} {code : DeviceCode} {manifest : Manifest}
    {r : Pk × Client}
    (hdb : db.ClientLaws) (hcode : db.deviceCodes.row pk = some code)
    (h : db.clientOfApproval env code manifest m organization hub = some r) : r.2.binding.Plain := by
  obtain ⟨c, hc, hplain⟩ := hdb.staged pk code hcode
  simp only [clientOfApproval, hc, Option.map_some, Option.some.injEq] at h
  cases hfind : db.findUnchangedClient env code.client c manifest m organization (some hub) with
  | none =>
    simp only [hfind, Option.getD_none] at h
    subst h
    exact hplain
  | some found =>
    obtain ⟨k, kept⟩ := found
    simp only [hfind, Option.getD_some] at h
    subst h
    obtain ⟨hrow, hm, hmandate⟩ := findUnchangedClient_some hfind
    have hlawful := hdb.lawful k kept hrow
    exact ⟨(hlawful.bound m hm).1, hmandate, hlawful.keyed m hm hmandate⟩

/-- The client of an approval that granted the mesh, and the enrollment its key is for. -/
structure Granted (db d : DB) (net : Net) (p : Approval) (pk a hub : Pk) (c : Client) (x : AppMeshEnrollment) :
    Prop where
  aside : Aside db d
  code : ∃ y, d.deviceCodes.row pk = some y ∧ y.client = p.pk
  row : d.clients.row p.pk = some c
  bound : BoundAs p.client c p.membership p.organization hub
  plain : p.client.binding.Plain
  grants : p.client.grantTypes = faktsClientGrantTypes
  enrollment : net.enrollments.row a = some x
  organization : x.organization = p.organization
  key : x.authKey.isSome = true
  stands : x.standsFor c = true

theorem grantMeshKey_some {net net' : Net} {pk organization a : Pk} {minted : Option String} {revoked : Bool}
    (h : db.grantMeshKey net pk organization minted revoked = (d, net', some a)) :
    ∃ code c m r key, db.deviceCodes.row pk = some code ∧ db.clients.row code.client = some c
    ∧ c.membership = some m
      ∧ c.release = some r ∧ net.enrollApp db.now organization m r.app c.node minted revoked = some (net', a, key)
      ∧ d = db.attachMeshKey pk (some key) := by
  unfold grantMeshKey at h
  dsimp only at h
  split at h
  · rename_i n a' key hgranted
    simp only [Option.bind_eq_bind, Option.bind_eq_some_iff] at hgranted
    obtain ⟨code, hcode, c, hc, m, hm, r, hr, henroll⟩ := hgranted
    simp only [Prod.mk.injEq, Option.some.injEq] at h
    obtain ⟨rfl, rfl, rfl⟩ := h
    exact ⟨code, c, m, r, key, hcode, hc, hm, hr, henroll, rfl⟩
  · simp at h

theorem acceptOnMesh_granted {net net' : Net} {user pk hub a : Pk} {proof : Option Nat} {declined : List String}
    {allow : Bool} {minted : Option String} {revoked : Bool} (hdb : db.ClientLaws) (hnet : net.Lawful)
    (h : db.acceptOnMesh env net user pk proof hub declined allow minted revoked = .ok (d, net', some a)) :
    ∃ p c x, db.approvalOf env user pk hub = some p ∧ Granted db d net' p pk a hub c x := by
  simp only [acceptOnMesh, bind_ok, pure_ok] at h
  obtain ⟨s, hs, h⟩ := h
  obtain ⟨haside, code, manifest, o, m, hcode, hstaging, ho, hm, -, hrow⟩ := acceptDeviceCode_bound hs
  obtain ⟨⟨m', row⟩, hm', rfl⟩ := Option.map_eq_some_iff.mp hm
  split at h
  · rename_i o' hgrants
    rw [Option.filter_eq_some_iff, ho] at hgrants
    obtain ⟨⟨⟩, -⟩ := hgrants
    obtain ⟨y, c, member, r, key, hy, hc, hmember, hr, henroll, rfl⟩ := grantMeshKey_some h
    obtain ⟨⟨c₀, c', happroval, hc', hbound⟩, -⟩ := hrow y hy
    rw [hc] at hc'
    cases hc'
    obtain ⟨⟨x, hx, hof, hkey, horg⟩, -⟩ := Net.enrollApp_ok henroll
    simp only [AppMeshEnrollment.isOf, Bool.and_eq_true, beq_iff_eq] at hof
    obtain ⟨⟨hxm, happ⟩, hdevice⟩ := hof
    obtain ⟨r', hr', horg'⟩ := hbound.organization
    rw [hr] at hr'
    cases hr'
    have hplain : c₀.binding.Plain := clientOfApproval_plain hdb hcode happroval
    have hgrants : c₀.grantTypes = faktsClientGrantTypes := by
      have hminted : c₀.clientId.minted = true := hplain.minted
      simpa [Client.binding, hminted] using hplain.grants (hdb.lawful _ _ (clientOfApproval_row happroval))
    refine ⟨⟨m', o.organization, y.client, c₀⟩, c, x, ?_, haside.codes _, ?_, hc, hbound, hplain,
      hgrants, hx, ?_, hkey, ?_⟩
    · simp [approvalOf, hcode, ho, hm', hstaging, happroval]
    · exact ⟨{ y with authKey := some key }, modify_row_eq_some.mpr (.inr ⟨rfl, y, hy, rfl⟩), rfl⟩
    · rcases horg with horg | ⟨z, hz, hsame, horg⟩
      · exact horg
      · rw [horg, hnet a z hz, ← hsame, happ]
        exact horg'
    · simp [AppMeshEnrollment.standsFor, hxm, happ, hdevice, hmember, hr]
  · simp at h

/-! ## The first poll -/

theorem burn_clients_eq (pk : Pk) : (db.delete .deviceCode [⟨.deviceCode, pk⟩] none).clients = db.clients := by
  have hwithin : ∀ r ∈ db.collect [⟨.deviceCode, pk⟩], r.model ∈ [Model.deviceCode] := fun r hr =>
    collect_within (by decide) (by simp) hr
  have hne : ∀ model, model ∉ [Model.deviceCode] → ∀ r ∈ db.collect [⟨.deviceCode, pk⟩], r.model ≠ model := by
    intro model hmodel r hr heq
    exact hmodel (heq ▸ hwithin r hr)
  rw [delete_of_no_receiver fun r hr => ⟨hne .grant (by decide) r hr, hne .hub (by decide) r hr⟩,
    losesAdmin_eq_nil fun _ _ _ hgone => absurd rfl (hne .role (by decide) _ hgone), syncAdmin_nil]
  show Table.update _ _ = _
  rw [keep_eq_self fun pk _ => keeps_eq_true (hne .client (by decide)) pk]
  exact update_eq_self fun _ _ _ =>
    by rw [keepOpt_eq_self (hne .device (by decide)), keepList_eq_self (hne .scope (by decide))]

theorem pollDeviceCode_live {clientId : ClientId} {secret : Nat} {response : TokenResponse} {c : Client}
    (h : e.pollDeviceCode env clientId secret = (f, .ok response)) (hc : e.clients.row response.client = some c)
    (hmandate : c.mandate = none) (hgrants : c.checkGrantType .refreshToken = true) :
    f.clients = e.clients ∧ f.isLiveClient c = true := by
  obtain ⟨pk, c', codePk, code, k, m, x, t, hclient, hcode, -, -, -, -, -, -, hsaved, hr⟩ :=
    pollDeviceCode_ok (r := (f, response)) h
  obtain ⟨rfl, rfl⟩ := Prod.mk.inj hr
  have hresponse : x.2.client = pk := hsaved.client
  have hc : e.clients.row pk = some c := hresponse ▸ hc
  rw [(clientFor_ok hclient).1] at hc
  cases hc
  have hsame : x.1.clients = e.clients := by rw [hsaved.state]
  have hnow : x.1.now = e.now := by rw [hsaved.state]
  have hburned : (x.1.delete .deviceCode [⟨.deviceCode, codePk⟩] none).now = e.now := by
    rw [(delete_shrinks _ _ _ _).now, hnow]
  refine ⟨(burn_clients_eq codePk).trans hsame, (hasSessionUntil_iff hmandate).mpr ?_⟩
  refine .inl ⟨_, t, burn_tokens codePk hsaved.token_row, hsaved.clientId, hsaved.unrevoked, ?_, ?_, ?_⟩
  · rw [hsaved.refreshToken, hgrants]
    rfl
  · rw [hburned, hsaved.issuedAt]
    exact Nat.le_add_right _ _
  · rw [hburned, hsaved.chainStartedAt]
    exact Nat.le_add_right _ _

/-! ## While nobody polled -/

section
variable {net n : Net} {p : Approval} {pk a hub : Pk} {c : Client} {x : AppMeshEnrollment}

theorem Granted.enrolledFor (hg : Granted db d net p pk a hub c x) : x.membership = p.membership := by
  have hstands := hg.stands
  simp only [AppMeshEnrollment.standsFor, Bool.and_eq_true, beq_iff_eq] at hstands
  have : some x.membership = some p.membership := hstands.1.1.symm.trans hg.bound.membership
  exact Option.some.inj this

/-- The client as it is later: bound as it was, and it may still log in by its refresh chain. -/
theorem Granted.later (hg : Granted db d net p pk a hub c x)
    (h : Undisturbed env d net p.membership p.pk a hub e n) :
    ∃ c' x', e.clients.row p.pk = some c' ∧ c'.clientId = c.clientId ∧ c'.createdAt = c.createdAt
    ∧ c'.mandate = none
      ∧ c'.hub = some hub ∧ c'.checkGrantType .refreshToken = true ∧ n.enrollments.row a = some x'
      ∧ x'.standsFor c' = true ∧ x'.organization = p.organization ∧ x'.authKey.isSome = true
      ∧ x'.membership = p.membership := by
  obtain ⟨c', hc', hbinding, hnode, hcreated⟩ := h.client c hg.row
  obtain ⟨key, hx'⟩ := h.enrollment x hg.enrollment
  have hid : c'.clientId = c.clientId := congrArg Binding.clientId hbinding
  have hmembership : c'.membership = c.membership := congrArg Binding.membership hbinding
  have hrelease : c'.release = c.release := congrArg Binding.release hbinding
  have hhub : c'.hub = c.hub := congrArg Binding.hub hbinding
  have hmandate : c'.mandate = c.mandate := congrArg Binding.mandate hbinding
  have hminted : c.clientId.minted = true := by
    rw [hg.bound.clientId]
    exact hg.plain.minted
  have hbindingGrants : c'.binding.grants = c.binding.grants := congrArg Binding.grants hbinding
  have hgrants' : c'.grantTypes = faktsClientGrantTypes := by
    simpa [Client.binding, hid, hminted, hg.bound.grantTypes, hg.grants] using hbindingGrants
  have hstands := hg.stands
  simp only [AppMeshEnrollment.standsFor, Bool.and_eq_true, beq_iff_eq] at hstands
  obtain ⟨⟨hxm, happ⟩, hdevice⟩ := hstands
  refine ⟨c', _, hc', hid, hcreated, hmandate.trans hg.bound.mandate, hhub.trans hg.bound.hub, ?_, hx', ?_,
    hg.organization, rfl, hg.enrolledFor⟩
  · simp [Client.checkGrantType, hgrants', faktsClientGrantTypes]
  · simp only [AppMeshEnrollment.standsFor, Bool.and_eq_true, beq_iff_eq]
    exact ⟨⟨hmembership.trans hxm, by rw [hrelease]; exact happ⟩, hnode.trans hdevice⟩

theorem Granted.session (hg : Granted db d net p pk a hub c x)
    (h : Undisturbed env d net p.membership p.pk a hub e n)
    {u : Time} (hsession : db.HasSessionUntil u p.client) {c' : Client} (hid : c'.clientId = c.clientId)
    (hcreated : c'.createdAt = c.createdAt) : e.HasSessionUntil u c' := by
  have hid₀ : c.clientId = p.client.clientId := hg.bound.clientId
  rcases hsession with ⟨k, t, ht, htid, hrevoked, hrefresh, hissued, hchain⟩ | ⟨hnone, hfresh⟩
  · rw [← hg.aside.tokens] at ht
    obtain ⟨k', t', ht', htid', hrevoked', hrefresh', hissued', hchain'⟩ :=
      h.chains c k t hg.row ht (htid.trans hid₀.symm) hrevoked hrefresh
    refine .inl ⟨k', t', ht', htid'.trans hid.symm, hrevoked', hrefresh', ?_, by rw [hchain']; exact hchain⟩
    exact Nat.le_trans hissued (Nat.add_le_add_right hissued' _)
  · rw [← hg.aside.tokens] at hnone
    refine .inr ⟨fun k t ht => ?_, ?_⟩
    · rw [hid]
      exact h.unpolled c hg.row (fun k t ht => by rw [hid₀]; exact hnone k t ht) k t ht
    · rw [hcreated, hg.bound.createdAt]
      exact hfresh

end

/-! ## Runs -/

theorem acceptDeviceCode_minted {user pk hub : Pk} {proof : Option Nat} {declined : List String} {allow : Bool}
    (key : String) (h : db.acceptDeviceCode env user pk proof hub declined allow none = .ok d)
    (hgrants : db.grantsMesh user pk hub allow = true) :
    db.acceptDeviceCode env user pk proof hub declined allow (some key) = .ok (d.attachMeshKey pk (some key)) := by
  simp only [acceptDeviceCode, bind_ok, found_ok, require_ok, exists_unit] at h ⊢
  obtain ⟨code, hresolve, hexpired, hdenied, x, hx, m, hmember, hguest, h⟩ := h
  refine ⟨code, hresolve, hexpired, hdenied, x, hx, m, hmember, hguest, ?_⟩
  obtain ⟨⟨m', row⟩, hm, rfl⟩ := Option.map_eq_some_iff.mp (assertMemberOrGuest_ok hmember)
  simp only [grantsMesh, resolveDeviceCode_ok hresolve, hx, hm, Option.any_some, Bool.and_eq_true] at hgrants
  split at h
  · simp at h
  · simp only [bind_ok, pure_ok] at h ⊢
    obtain ⟨e, he, rfl⟩ := h
    refine ⟨e, he, ?_⟩
    simp only [hgrants, Bool.and_self, if_true, attachMeshKey]

theorem acceptOnMesh_reachable {net net' : Net} {user pk hub a : Pk} {proof : Option Nat} {declined : List String}
    {allow : Bool} {minted : Option String} {revoked : Bool} (hdb : Reachable env db)
    (h : db.acceptOnMesh env net user pk proof hub declined allow minted revoked = .ok (d, net', some a)) :
    Reachable env d := by
  simp only [acceptOnMesh, bind_ok, pure_ok] at h
  obtain ⟨s, hs, h⟩ := h
  split at h
  · rename_i o hgrants
    rw [Option.filter_eq_some_iff] at hgrants
    obtain ⟨y, c, member, r, key, hy, hc, hmember, hr, henroll, rfl⟩ := grantMeshKey_some h
    obtain ⟨as, hrun⟩ := hdb
    refine ⟨as ++ [.acceptDeviceCode user pk proof hub declined allow (some key)], hrun.snoc ?_⟩
    show _ = step env db _
    simp only [step, settle, acceptDeviceCode_minted key hs hgrants.2]
  · simp at h

theorem undisturbed_wait {net : Net} {membership k a hub : Pk} {t : Time} (hd : Reachable env d)
    (hkey : ∀ x, net.enrollments.row a = some x → x.authKey.isSome = true) (ht : d.now ≤ t) :
    Undisturbed env d net membership k a hub { d with now := t } net where
  reachable := by
    obtain ⟨as, hrun⟩ := hd
    refine ⟨as ++ [.tick (t - d.now)], hrun.snoc ?_⟩
    show _ = step env d _
    simp only [step, Nat.add_sub_cancel' ht]
  now := ht
  client c hc := ⟨c, hc, rfl, rfl, rfl⟩
  unpolled _ _ h := h
  chains _ pk t _ ht hid hrevoked hrefresh := ⟨pk, t, ht, hid, hrevoked, hrefresh, Nat.le_refl _, rfl⟩
  enrollment x hx := by
    obtain ⟨key, hkey⟩ := Option.isSome_iff_exists.mp (hkey x hx)
    exact ⟨key, by rw [hx, ← hkey]⟩
  full h := h
  guest _ h := h

end DB

/-- An app stays connected until a given moment exactly when the client its approval ends with has, going by
the state before, a session that lasts until then, and a guest may reach the hub by mesh until then. -/
theorem fresh_app_connected_iff {env : Env} {db d : DB} {net net' : Net} {user pk hub a : Pk} {proof : Option Nat}
    {declined : List String} {allow : Bool} {minted : Option String} {revoked : Bool} {deadline : Time}
    (hdb : Reachable env db)
    (hnet : net.Reached) (hdeadline : db.now ≤ deadline)
    (h : db.acceptOnMesh env net user pk proof hub declined allow minted revoked = .ok (d, net', some a)) :
    ∃ p, db.approvalOf env user pk hub = some p ∧ (∃ code, d.deviceCodes.row pk = some code ∧ code.client = p.pk)
      ∧ (DB.StaysConnected env d net' p.membership p.pk a p.organization hub deadline ↔
        db.HasSessionUntil deadline p.client
          ∧ (db.isScoped p.membership = true →
            hub ∈ ({ db with now := deadline } : DB).meshHubIds p.membership)) := by
  obtain ⟨p, c, x, hp, hg⟩ := DB.acceptOnMesh_granted hdb.clientLaws hnet.lawful h
  have hd := DB.acceptOnMesh_reachable hdb h
  have hnow : d.now = db.now := hg.aside.now
  have hreach : ∀ t, ({ d with now := t } : DB).meshHubIds p.membership = ({ db with now := t } : DB).meshHubIds
    p.membership := by
    intro t
    have hkept : DB.GuestsKept { db with now := t } { d with now := t } :=
      ⟨rfl, hg.aside.users, hg.aside.grants, hg.aside.memberships, hg.aside.instances⟩
    exact hkept.meshHubIds p.membership
  have hscoped : d.isScoped p.membership = db.isScoped p.membership := hg.aside.toGuestsKept.isScoped p.membership
  refine ⟨p, hp, hg.code, fun hstays => ?_, fun ⟨hsession, hguest⟩ => ?_⟩
  · have hkey : ∀ y, net'.enrollments.row a = some y → y.authKey.isSome = true := by
      intro y hy
      rw [hg.enrollment] at hy
      cases hy
      exact hg.key
    obtain ⟨hbacks, hmay⟩ := hstays.waiting _ _
      (DB.undisturbed_wait hd hkey (by rw [hnow]; exact hdeadline)) (Nat.le_refl _)
    refine ⟨?_, fun hisScoped => ?_⟩
    · obtain ⟨c', hc', hlive⟩ := hbacks.live
      have hc' : d.clients.row p.pk = some c' := hc'
      rw [hg.row] at hc'
      cases hc'
      have hsession := (DB.hasSessionUntil_iff hg.bound.mandate).mp hlive
      simpa only [DB.HasSessionUntil, hg.aside.tokens, hg.bound.clientId, hg.bound.createdAt] using hsession
    · obtain ⟨y, hy, hhub⟩ := DB.mayReach_iff.mp hmay
      simp only [Net.keyedEnrollments, mem_filter, hg.enrollment, Option.some.injEq] at hy
      obtain ⟨rfl, -⟩ := hy
      rw [DB.mem_reachOf, hg.enrolledFor] at hhub
      rcases hhub.2 with hfull | hmesh
      · have hfull : d.isScoped p.membership = false := hfull
        rw [hscoped, hisScoped] at hfull
        cases hfull
      · rw [← hreach]
        exact hmesh
  · have hlive : ∀ {e n c'}, DB.Undisturbed env d net' p.membership p.pk a hub e n → e.now ≤ deadline →
        c'.clientId = c.clientId → c'.createdAt = c.createdAt → c'.mandate = none → e.isLiveClient c' = true := by
      intro e n c' hund hle hid hcreated hmandate
      exact (DB.hasSessionUntil_iff hmandate).mpr ((hg.session hund hsession hid hcreated).earlier hle)
    have hmay : ∀ {e n}, DB.Undisturbed env d net' p.membership p.pk a hub e n → e.now ≤ deadline →
        DB.BacksSidecar e n p.pk a p.organization ∧ (e.buildAclPolicy n p.organization).MayReach
          (.app a) (.hub hub) := by
      intro e n hund hle
      obtain ⟨c', x', hc', hid, hcreated, hmandate, hhub, -, hx', hstands, horg, hkey, hmember⟩ := hg.later hund
      have hlive := hlive hund hle hid hcreated hmandate
      refine ⟨DB.backsSidecar_of_live hc' hlive hx' hstands,
        DB.mayReach_of_live hc' hlive hhub hx' hstands horg hkey ?_⟩
      rw [hmember]
      intro he
      have := hguest (by rw [← hscoped]; exact hund.full he)
      rw [← hreach] at this
      exact DB.meshHubIds_antitone (u := deadline) hle (hund.guest deadline this)
    refine ⟨fun e n hund hle => hmay hund hle, ?_⟩
    intro e₀ n₀ e n clientId secret f response hund₀ hund hle hle' hpoll hclient
    obtain ⟨c', x', hc', hid, hcreated, hmandate, hhub, hrefresh, hx', hstands, horg, hkey, hmember⟩ :=
      hg.later hund
    obtain ⟨hclients, hf⟩ := DB.pollDeviceCode_live hpoll (by rw [hclient]; exact hc') hmandate hrefresh
    exact ⟨DB.backsSidecar_of_live (by rw [hclients]; exact hc') hf hx' hstands,
      (hmay hund₀ (Nat.le_trans hle hle')).2⟩

/-- The mesh of the organization, with nobody on it yet. -/
def annsMesh : Net := ⟨.insert .empty ⟨0, "org"⟩, .empty, .empty, fun _ => none⟩

theorem annsMesh_reached : annsMesh.Reached :=
  Net.Reached.keys .empty (.insert .empty ⟨0, "org"⟩) .empty (fun _ => none) fun _ _ => false

def askingApp : List Action :=
  [.createUser "ann" [], .createOrganization "org" 0 false, .configureHub 0 plainHub,
   .startDeviceCode plainApp .desktop .interface ["app://"] false 600 true]

/-- It was approved and polled, Ann revoked its sessions, and it asks again unchanged. -/
def revokedApp : List Action :=
  askingApp ++ [.acceptDeviceCode 0 0 (some 1) 0 [] true none, .requestToken (.deviceCode (.uuid 0) 2),
    .revokeClientSessions 0 0, .startDeviceCode plainApp .desktop .interface ["app://"] false 600 true]

/-- A client that was registered for the approval is connected for the whole grace. -/
theorem fresh_app_connected_iff_registered :
    ∃ d n a p, (run plainEnv .empty askingApp).acceptOnMesh plainEnv annsMesh 0 0 (some 1) 0 [] true
    (some "mesh") false
        = .ok (d, n, some a)
      ∧ (run plainEnv .empty askingApp).approvalOf plainEnv 0 0 0 = some p
      ∧ DB.StaysConnected plainEnv d n p.membership p.pk a p.organization 0 backerGraceSeconds := by
  have hdb := reachable_run plainEnv askingApp
  have hout : ((run plainEnv .empty askingApp).acceptOnMesh plainEnv annsMesh 0 0 (some 1) 0 [] true
    (some "mesh") false).toOption.any
      (fun r => r.2.2.isSome) = true := by decide +kernel
  have hnow : (run plainEnv .empty askingApp).now = 0 := by decide +kernel
  have htokens : ∀ pk t, (run plainEnv .empty askingApp).tokens.row pk = some t → False := by
    simp only [Table.forall_row_iff]
    decide +kernel
  have hfull : ((run plainEnv .empty askingApp).approvalOf plainEnv 0 0 0).all (fun p =>
      !(run plainEnv .empty askingApp).isScoped p.membership) = true := by decide +kernel
  generalize run plainEnv .empty askingApp = db at *
  obtain ⟨⟨d, n, granted⟩, hok, hgranted⟩ := exists_ok_and hout
  obtain ⟨a, rfl⟩ := Option.isSome_iff_exists.mp hgranted
  obtain ⟨p, hp, -, hiff⟩ := fresh_app_connected_iff hdb annsMesh_reached
    (show db.now ≤ backerGraceSeconds by simp [hnow]) hok
  refine ⟨d, n, a, p, hok, hp,
    hiff.mpr ⟨.inr ⟨fun pk t ht => (htokens pk t ht).elim, Nat.le_add_left _ _⟩, fun hscoped => ?_⟩⟩
  simp [hp, hscoped] at hfull

/-- An earlier client is kept with its sessions revoked: the app is approved, has a mesh key, and reaches
nothing. -/
theorem reapproved_app_is_cut_off :
    ∃ db d n a p, Reachable plainEnv db
      ∧ db.acceptOnMesh plainEnv annsMesh 0 1 (some 6) 0 [] true (some "mesh") false = .ok (d, n, some a)
      ∧ db.approvalOf plainEnv 0 1 0 = some p
      ∧ ¬ DB.StaysConnected plainEnv d n p.membership p.pk a p.organization 0 d.now := by
  have hdb := reachable_run plainEnv revokedApp
  have hout : ((run plainEnv .empty revokedApp).acceptOnMesh plainEnv annsMesh 0 1 (some 6) 0 [] true
    (some "mesh") false).toOption.any
      (fun r => r.2.2.isSome && (r.1.clients.row 0).all fun c => !r.1.isLiveClient c) = true := by decide +kernel
  have hpk : ((run plainEnv .empty revokedApp).approvalOf plainEnv 0 1 0).any
    (fun p => p.pk == 0) = true := by decide +kernel
  generalize run plainEnv .empty revokedApp = db at *
  obtain ⟨⟨d, n, granted⟩, hok, hp⟩ := exists_ok_and hout
  simp only [Bool.and_eq_true, Option.isSome_iff_exists, Option.all_eq_true, Bool.not_eq_true'] at hp
  obtain ⟨⟨a, rfl⟩, hdead⟩ := hp
  obtain ⟨p, hp, hpk⟩ := (Option.any_eq_true _ _).mp hpk
  rw [beq_iff_eq] at hpk
  obtain ⟨q, c, x, -, hg⟩ := DB.acceptOnMesh_granted hdb.clientLaws annsMesh_reached.lawful hok
  refine ⟨db, d, n, a, p, hdb, hok, hp, fun hstays => ?_⟩
  have hkey : ∀ y, n.enrollments.row a = some y → y.authKey.isSome = true := by
    intro y hy
    rw [hg.enrollment] at hy
    cases hy
    exact hg.key
  have hundisturbed : DB.Undisturbed plainEnv d n p.membership p.pk a 0 { d with now := d.now } n :=
    DB.undisturbed_wait (DB.acceptOnMesh_reachable hdb hok) hkey (Nat.le_refl d.now)
  obtain ⟨c', hc', hlive⟩ := (hstays.waiting _ _ hundisturbed (Nat.le_refl _)).1.live
  rw [hpk] at hc'
  have := hdead c' hc'
  rw [show d.isLiveClient c' = true from hlive] at this
  cases this

end Lok
