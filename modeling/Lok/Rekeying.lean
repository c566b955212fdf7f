import Lok.ClientLaws
import Lok.MandateClients
import Lok.OpenPins

/-!
# Re-keying a device

The first login of a key on a device takes over the client the device has there under the newest older key
of the same grantor, hub and origin, for the same app: the device keeps its client id. A key keeps the
client it has until a newer one takes it over, or its mandate is revoked, and an older key that logs in
later gets a client of its own.
-/

namespace Lok

open Table Runs Checks

/-- What the keys of a device have in common: grantor, hub and origin, the device, and the app. -/
structure Line where
  membership : Pk
  hub : Pk
  origin : MandateOrigin
  node : Option Pk
  app : String
  deriving DecidableEq, Repr

/-- The line of a key that is used on a device, for an app. -/
def Mandate.line (m : Mandate) (node : Option Pk) (app : String) : Line :=
  ⟨m.membership, m.hub, m.origin, node, app⟩

namespace DB

variable {env : Env} {db d e s t : DB} {line : Line} {M N k : Pk}

/-- The client is one of the line, under the mandate. -/
structure On (s : DB) (line : Line) (M k : Pk) (c : Client) : Prop where
  row : s.clients.row k = some c
  mandate : c.mandate = some M
  node : c.node = line.node
  app : c.release.map (·.identifier) = some line.app
  member : ∃ m, s.mandates.row M = some m ∧ m.line line.node line.app = line

/-- The mandate has no client on the device. -/
def Unused (s : DB) (M : Pk) (node : Option Pk) : Prop :=
  ∀ k c, s.clients.row k = some c → c.mandate = some M → c.node ≠ node

/-- Which client a login of the key gets, and under which client id. -/
inductive Gets (s : DB) (line : Line) (M k : Pk) : ClientId → Prop
  /-- The one it has there. -/
  | own {c} (hc : s.clients.row k = some c) (hM : c.mandate = some M) (hnode : c.node = line.node) :
    Gets s line M k c.clientId
  /-- The one of the newest older key that has one there, which is not revoked. -/
  | taken {N c m} (hunused : s.Unused M line.node) (hon : s.On line N k c) (holder : N < M)
      (hnewest : ∀ N' k' c', s.On line N' k' c' → N' < M → N' ≤ N) (hm : s.mandates.row N = some m)
        (hlive : m.revokedAt = none) :
      Gets s line M k c.clientId
  /-- A new one, where no older key has one. -/
  | new (hunused : s.Unused M line.node) (hk : k = s.clients.next)
      (hnobody : line.node ≠ none → ∀ N k c, s.On line N k c → M ≤ N) : Gets s line M k (.uuid s.draws)

/-! ## The client of a login -/

theorem deviceOf_again (db : DB) (env : Env) (deviceId : Option String) (organization : Pk)
    (hd : d.devices = (db.deviceOf env deviceId organization).1.devices) :
    (d.deviceOf env deviceId organization).2 = (db.deviceOf env deviceId organization).2 := by
  unfold deviceOf at hd ⊢
  cases hgiven : given deviceId with
  | none => rfl
  | some id =>
    simp only [hgiven] at hd ⊢
    unfold getOrCreateDevice at hd ⊢
    cases hfirst : db.devices.first
      fun _ x => x.organization == organization && x.nodeId == env.hashDeviceId id organization with
    | some r =>
      simp only [hfirst] at hd ⊢
      simp [hd, hfirst]
    | none =>
      simp only [hfirst] at hd ⊢
      have hnew : d.devices.first
        (fun _ x => x.organization == organization && x.nodeId == env.hashDeviceId id organization)
          = some (db.devices.next, ⟨organization, env.hashDeviceId id organization⟩) := by
        refine first_of_unique (by rw [hd]; exact insert_row_next _ _) (by simp) fun k b hb hp => ?_
        rw [hd] at hb
        rcases insert_row_eq_some.mp hb with ⟨hk, -⟩ | hb
        · exact hk
        · rw [first_eq_none.mp hfirst k b hb] at hp
          cases hp
      simp [hnew]

theorem newest_of_foldl {l : List (Pk × Client)} : ∀ {best : Option (Pk × Client)} {r : Pk × Client},
    l.foldl newerMandate best = some r →
      ∀ x ∈ best.toList ++ l, x.2.mandate.getD 0 ≤ r.2.mandate.getD 0 := by
  induction l with
  | nil =>
    intro best r h x hx
    cases best with
    | none => cases h
    | some b =>
      cases h
      have hx : x = r := by simpa using hx
      rw [hx]
  | cons c l ih =>
    intro best r h x hx
    have hstep : ∀ x ∈ (newerMandate best c).toList ++ l, x.2.mandate.getD 0 ≤ r.2.mandate.getD 0 := ih h
    cases best with
    | none => exact hstep x (by simpa [newerMandate] using hx)
    | some b =>
      have hb : b.2.mandate.getD 0 ≤ r.2.mandate.getD 0 ∧ c.2.mandate.getD 0 ≤ r.2.mandate.getD 0 := by
        by_cases hlt : b.2.mandate.getD 0 < c.2.mandate.getD 0
        · have hc := hstep c (by simp [newerMandate, hlt])
          exact ⟨Nat.le_trans (Nat.le_of_lt hlt) hc, hc⟩
        · have hb := hstep b (by simp [newerMandate, hlt])
          exact ⟨hb, Nat.le_trans (Nat.le_of_not_lt hlt) hb⟩
      have hx : x = b ∨ x = c ∨ x ∈ l := by simpa using hx
      rcases hx with rfl | rfl | hx
      · exact hb.1
      · exact hb.2
      · exact hstep x (List.mem_append_right _ hx)

theorem eq_nil_of_foldl {l : List (Pk × Client)} {best : Option (Pk × Client)}
    (h : l.foldl newerMandate best = none) : l = [] := by
  have hsome : ∀ (l : List (Pk × Client)) b, (l.foldl newerMandate (some b)).isSome = true := by
    intro l
    induction l with
    | nil => exact fun _ => rfl
    | cons c l ih =>
      intro b
      by_cases hlt : b.2.mandate.getD 0 < c.2.mandate.getD 0
      · simpa [newerMandate, hlt] using ih c
      · simpa [newerMandate, hlt] using ih b
  cases l with
  | nil => rfl
  | cons c l =>
    have hnew : ∃ b, newerMandate best c = some b := by
      cases best with
      | none => exact ⟨c, rfl⟩
      | some b => by_cases hlt : b.2.mandate.getD 0 < c.2.mandate.getD 0 <;> simp [newerMandate, hlt]
    obtain ⟨b, hb⟩ := hnew
    have hfold := hsome l b
    rw [List.foldl_cons, hb] at h
    rw [h] at hfold
    cases hfold

theorem mem_predecessors {m : Mandate} {n : Pk} {app : String} {c : Client} :
    (k, c) ∈ (db.clients.filter fun _ c => c.node == some n && (c.release.map (·.identifier)) == some app
      && c.mandate.any fun old => old < M && (db.mandates.row old).any fun o =>
        o.membership == m.membership && o.hub == m.hub && o.origin == m.origin)
      ↔ ∃ N, N < M ∧ db.On (m.line (some n) app) N k c := by
  simp only [mem_filter, Bool.and_eq_true, beq_iff_eq, Option.any_eq_true, decide_eq_true_eq]
  constructor
  · intro h
    obtain ⟨hrow, ⟨hnode, happ⟩, N, hN, hlt, o, ho, ⟨hm, hh⟩, horigin⟩ := h
    exact ⟨N, hlt, hrow, hN, hnode, happ, o, ho, by simp [Mandate.line, hm, hh, horigin]⟩
  · intro h
    obtain ⟨N, hlt, hrow, hN, hnode, happ, o, ho, hline⟩ := h
    simp only [Mandate.line, Line.mk.injEq, and_true] at hline
    exact ⟨hrow, ⟨hnode, happ⟩, N, hN, hlt, o, ho, ⟨hline.1, hline.2.1⟩, hline.2.2⟩

theorem predecessorClient_eq_none {m : Mandate} {n : Pk} {app : String} :
    db.predecessorClient M m n app = none → ∀ N k c, db.On (m.line (some n) app) N k c → M ≤ N := by
  intro h N k c hon
  unfold predecessorClient at h
  by_contra hlt
  have hmem := mem_predecessors.mpr ⟨N, Nat.lt_of_not_le hlt, hon⟩
  rw [eq_nil_of_foldl h] at hmem
  cases hmem

theorem predecessorClient_eq_some {m : Mandate} {n : Pk} {app : String} {c : Client}
    (h : db.predecessorClient M m n app = some (k, c)) :
    ∃ N, db.On (m.line (some n) app) N k c ∧ N < M
    ∧ ∀ N' k' c', db.On (m.line (some n) app) N' k' c' → N' < M → N' ≤ N := by
  unfold predecessorClient at h
  have hmem := (foldl_newerMandate h).resolve_right nofun
  obtain ⟨N, hlt, hon⟩ := mem_predecessors.mp hmem
  refine ⟨N, hon, hlt, fun N' k' c' hon' hlt' => ?_⟩
  have hle := newest_of_foldl h (k', c') (by simpa using mem_predecessors.mpr ⟨N', hlt', hon'⟩)
  simpa [hon.mandate, hon'.mandate] using hle

theorem unused_of_first {node : Option Pk}
    (h : (db.clients.first fun _ c => c.mandate == some M && c.node == node) = none) :
    db.Unused M node := by
  intro k c hc hM hnode
  have hno := first_eq_none.mp h k c hc
  simp [hM, hnode] at hno

/-- What the look-up of a login does: it touches no client on file. -/
structure Found (db d : DB) (line : Line) (M k : Pk) (c : Client) : Prop where
  same : d.mandates = db.mandates ∧ d.devices = db.devices ∧ d.memberships = db.memberships
  row : d.clients.row k = some c
  others : ∀ j, j ≠ k → d.clients.row j = db.clients.row j
  gets : db.Gets line M k c.clientId
  own : c.mandate = some M → db.clients.row k = some c ∧ c.node = line.node
  other : c.mandate ≠ some M → db.Unused M line.node

theorem clientForLogin_finds {m : Mandate} {node : Option Pk} {request : MandateKeyGrantRequest} {c : Client}
    (hbare : db.RevokedBare)
    (h : db.clientForLogin M m node request = .ok (d, k, c)) :
    Found db d (m.line node request.manifest.identifier) M k c := by
  unfold clientForLogin at h
  split at h
  · rename_i hfirst
    cases pure_ok.mp h
    obtain ⟨hrow, hp⟩ := first_eq_some hfirst
    simp only [Bool.and_eq_true, beq_iff_eq] at hp
    exact ⟨⟨rfl, rfl, rfl⟩, hrow, fun _ _ => rfl, .own hrow hp.1 hp.2, fun _ => ⟨hrow, hp.2⟩,
      fun hne => absurd hp.1 hne⟩
  · rename_i hfirst
    have hunused := unused_of_first hfirst
    simp only [bind_ok, require_ok, exists_unit] at h
    obtain ⟨-, h⟩ := h
    split at h
    · rename_i hpred
      cases pure_ok.mp h
      obtain ⟨n, hn, hpred⟩ := Option.bind_eq_some_iff.mp hpred
      subst hn
      obtain ⟨N, hon, hlt, hnewest⟩ := predecessorClient_eq_some hpred
      obtain ⟨o, ho, -⟩ := hon.member
      refine ⟨⟨rfl, rfl, rfl⟩, hon.row, fun _ _ => rfl, .taken hunused hon hlt hnewest ho
        (hbare k c N o hon.row hon.mandate ho),
        fun hM => absurd hon.node (hunused k c hon.row hM), fun _ => hunused⟩
    · rename_i hpred
      simp only [bind_ok, Table.get_ok, pure_ok, Prod.mk.injEq] at h
      obtain ⟨client, hc, rfl, rfl, rfl⟩ := h
      have hclient := hc
      simp only [createPublicClient, insert_row_next, Option.some.injEq] at hclient
      refine ⟨⟨rfl, rfl, rfl⟩, hc, fun j hj => insert_row_of_ne hj, ?_, fun hM => ?_, fun _ => hunused⟩
      · rw [← hclient]
        refine .new hunused rfl fun hnode => ?_
        obtain ⟨n, hn⟩ := Option.ne_none_iff_exists'.mp hnode
        have hn : node = some n := hn
        subst hn
        exact predecessorClient_eq_none hpred
      · rw [← hclient] at hM
        cases hM

/-- What binding the client of a login does: no other row changes. -/
structure Settles (d e : DB) (line : Line) (M k : Pk) (c : Client) : Prop where
  others : ∀ j, j ≠ k → e.clients.row j = d.clients.row j
  mandates : e.mandates = d.mandates
  client : ∃ y, e.clients.row k = some y ∧ y.mandate = some M ∧ y.node = line.node ∧ y.clientId = c.clientId
    ∧ (y.release.map (·.identifier) = some line.app ∨ c.mandate = some M ∧ y = c)

theorem Found.stale {c : Client} {kind : ClientKind} {release : Release} {membership : Pk} {hub : Option Pk}
    (h : Found db d line M k c) (hapart : db.Apart) (hclients : e.clients = d.clients) :
    e.staleClients k kind release membership line.node hub (some M) = [] := by
  refine List.eq_nil_iff_forall_not_mem.mpr fun j hj => ?_
  obtain ⟨x, hx, hp⟩ := mem_pks.mp hj
  simp only [Bool.and_eq_true, bne_iff_ne, beq_iff_eq] at hp
  obtain ⟨hjk, hM, hnode⟩ := hp
  rw [hclients, h.others j hjk] at hx
  by_cases hcM : c.mandate = some M
  · obtain ⟨hc, hcn⟩ := h.own hcM
    exact hjk (hapart j k x c M hx hc hM hcM (hnode.trans hcn.symm))
  · exact h.other hcM j x hx hM hnode

theorem bindForLogin_binds {m : Mandate} {g : Membership} {request : MandateKeyGrantRequest} {c : Client}
    (hfound : Found db d line M k c) (hapart : db.Apart) (hm : d.memberships.row m.membership = some g)
    (hnode : (d.deviceOf env request.manifest.deviceId g.organization).2 = line.node)
    (happ : line.app = request.manifest.identifier) (h : d.bindForLogin env M m request k c = .ok e) :
    Settles d e line M k c := by
  unfold bindForLogin at h
  split at h
  · simp only [bindClient, bind_ok, Table.get_ok, require_ok, exists_unit] at h
    obtain ⟨g', hg', o, -, -, -, h⟩ := h
    rw [hm] at hg'
    cases hg'
    have hdevice : (d.deviceOf env request.manifest.deviceId g.organization).1.mandates = d.mandates :=
      deviceOf_mandates _ _ _
    have hclients : (d.deviceOf env request.manifest.deviceId g.organization).1.clients = d.clients :=
      deviceOf_clients _ _ _
    generalize d.deviceOf env request.manifest.deviceId g.organization = r at h hdevice hclients hnode
    obtain ⟨d', node⟩ := r
    dsimp only at h hdevice hclients hnode
    subst hnode
    rw [hfound.stale hapart hclients] at h
    have hempty : k ∉ ([] : List Pk) := by simp
    obtain ⟨hmandates, hothers⟩ := installClient_elsewhere h
    obtain ⟨l, held, scope, hrow⟩ := installClient_row h
    refine ⟨fun j hj => ?_, ?_, _, hrow, rfl, rfl, rfl, .inl ?_⟩
    · rw [hothers j hj, dropStale_clients hempty, if_neg (by simp), hclients]
    · rw [hmandates, dropStale_mandates_eq hempty, ← hdevice]
      exact update_eq_self fun _ x _ => by cases hissuer : x.issuingClient <;> simp [hissuer]
    · rw [happ]
      rfl
  · rename_i hkept
    cases h
    simp only [mustBind, Bool.or_eq_true, not_or, bne_iff_ne, ne_eq, not_not] at hkept
    have hM := hkept.1.1.1.2
    exact ⟨fun _ _ => rfl, rfl, c, hfound.row, hM, (hfound.own hM).2, rfl, .inr ⟨hM, rfl⟩⟩

theorem Gets.devices {devices : Table Device} {id : ClientId}
    (h : ({ s with devices := devices } : DB).Gets line M k id) :
    s.Gets line M k id := by
  have hon : ∀ {N k c}, ({ s with devices := devices } : DB).On line N k c ↔ s.On line N k c := fun {N k c} =>
    ⟨fun h => ⟨h.row, h.mandate, h.node, h.app, h.member⟩, fun h => ⟨h.row, h.mandate, h.node, h.app, h.member⟩⟩
  cases h with
  | own hc hM hnode => exact .own hc hM hnode
  | taken hunused h holder hnewest hm hlive =>
    exact .taken hunused (hon.mp h) holder (fun N k c h => hnewest N k c (hon.mpr h)) hm hlive
  | new hunused hk hnobody => exact .new hunused hk fun hnode N k c h => hnobody hnode N k c (hon.mpr h)

/-- A login with a key of the line: whose client it gets, and that it touches no other client and no other
mandate. -/
structure LogsIn (s t : DB) (line : Line) (M k : Pk) (id : ClientId) : Prop where
  gets : s.Gets line M k id
  client : ∃ c, t.clients.row k = some c ∧ c.mandate = some M ∧ c.node = line.node ∧ c.clientId = id
    ∧ (c.release.map (·.identifier) = some line.app ∨ s.clients.row k = some c)
  others : ∀ j, j ≠ k → t.clients.row j = s.clients.row j
  mandate : ∃ m pin used, s.mandates.row M = some m ∧ m.revokedAt = none ∧ m.line line.node line.app = line
    ∧ t.mandates.row M = some { m with pin := pin, lastUsedAt := used } ∧ pin.identifier = some line.app
    ∧ (m.pin.identifier.isSome = true → pin = m.pin)
  mandates : t.mandates.next = s.mandates.next ∧ ∀ j, j ≠ M → t.mandates.row j = s.mandates.row j

end DB

theorem Reachable.logsIn {env : Env} {s t : DB} {request : MandateKeyGrantRequest} {k : Pk} (hs : Reachable env s)
    (h : s.authenticateKey env request = .ok (t, k)) : ∃ M m,
      s.mandates.first (fun _ m => m.keyHash == some (env.hashKey request.key)) = some (M, m) ∧ ∃ id,
        DB.LogsIn s t (m.line (s.deviceOf env request.manifest.deviceId m.organization).2
          request.manifest.identifier) M k id := by
  simp only [DB.authenticateKey, bind_ok, found_ok, Table.get_ok, require_ok, exists_unit, pure_ok,
    MandatePin.check_ok, Prod.exists, Prod.mk.injEq] at h
  obtain ⟨M, m, hfirst, hlive, hpin, o, -, -, d, k', c, hclient, e, he, rfl, rfl⟩ := h
  obtain ⟨hm, hkey⟩ := first_eq_some hfirst
  obtain ⟨⟨g, hg, hgo⟩, -⟩ := hs.homed M m hm
  refine ⟨M, m, hfirst, ?_⟩
  have hagain := fun d => DB.deviceOf_again (d := d) s env request.manifest.deviceId m.organization
  obtain ⟨devices, hdevices, -⟩ := DB.deviceOf_eq s env request.manifest.deviceId m.organization
  generalize s.deviceOf env request.manifest.deviceId m.organization = r at hclient hagain hdevices ⊢
  obtain ⟨s', node⟩ := r
  dsimp only at hclient hagain hdevices ⊢
  subst hdevices
  have hbare : ({ s with devices := devices } : DB).RevokedBare := hs.revokedBare
  have hapart : ({ s with devices := devices } : DB).Apart := hs.apart
  have hfound := DB.clientForLogin_finds hbare hclient
  have hbound := DB.bindForLogin_binds hfound hapart (hfound.same.2.2 ▸ hg)
    (by rw [hgo]; exact hagain d hfound.same.2.1) rfl he
  have hmandates : e.mandates = s.mandates := hbound.mandates.trans hfound.same.1
  obtain ⟨y, hy, hM, hnode, hid, happ⟩ := hbound.client
  refine ⟨c.clientId, hfound.gets.devices, ⟨y, hy, hM, hnode, hid, happ.imp_right fun hown => ?_⟩,
    fun j hj => ?_, ?_, ?_⟩
  · obtain ⟨hcM, rfl⟩ := hown
    exact (hfound.own hcM).1
  · exact (hbound.others j hj).trans (hfound.others j hj)
  · refine ⟨m, DB.loginPin m.pin request.manifest, some s.now, hm, DB.assertLive_unrevoked hlive, rfl, ?_,
      DB.loginPin_identifier hpin, fun hfixed => ?_⟩
    · show (e.mandates.modify M _).row M = _
      rw [hmandates, modify_row_self, hm]
      rfl
    · unfold DB.loginPin
      rw [if_neg (by simp [MandatePin.isOpen, Option.isSome_iff_ne_none.mp hfixed])]
  · rw [← hmandates]
    exact ⟨rfl, fun j hj => modify_row_of_ne hj⟩

/-! ## Revoking -/

namespace DB

variable {env : Env} {db d e s t : DB} {line : Line} {M N k : Pk} {id : ClientId}

theorem deleteClients_client {mandates : List Pk} {c : Client} {m : Mandate} (hc : s.clients.row k = some c)
    (hM : c.mandate = some M)
    (hother : M ∉ mandates) (hm : (s.deleteClients mandates).mandates.row M = some m) :
    ∃ l, (s.deleteClients mandates).clients.row k = some { c with scopes := l } := by
  unfold deleteClients at hm ⊢
  dsimp only at hm ⊢
  have hroots : k ∉ s.clients.pks fun _ c => c.mandate.any mandates.contains := by
    intro hin
    obtain ⟨c', hc', hp⟩ := mem_pks.mp hin
    rw [hc] at hc'
    cases hc'
    exact hother (by simpa [hM] using hp)
  generalize (s.clients.pks fun _ c => c.mandate.any mandates.contains) = clients at hm hroots ⊢
  have hwithin : ∀ r ∈ (s.revokeTokensOf clients).collect (clients.map fun c => ⟨.client, c⟩),
    r.model ∈ withClients := fun r hr =>
    collect_within withClients_within (clientRefs_within clients) hr
  rw [delete_withClients (clientRefs_within clients)] at hm ⊢
  have hmandate := (keep_row_eq_some.mp hm).2
  have hstays : (⟨.client, k⟩ : Ref) ∉ (s.revokeTokensOf clients).collect (clients.map fun c => ⟨.client, c⟩) := by
    intro hin
    cases Closure.mem_closure.mp hin with
    | root hroot => exact hroots (by simpa using hroot)
    | @hangs _ p _ hp hgone =>
      have hgone : p ∈ (s.revokeTokensOf clients).collect (clients.map fun c => ⟨.client, c⟩) :=
        Closure.mem_closure.mpr hgone
      have hmodel := hwithin p hgone
      have hclient : (s.revokeTokensOf clients).clients.row k = some c := hc
      simp only [hangsOn, hclient, Option.elim_some, Client.hangsOn, List.mem_append, mem_refOf] at hp
      rcases hp with (((⟨_, -, rfl⟩ | ⟨_, -, rfl⟩) | ⟨_, -, rfl⟩) | ⟨x, hx, rfl⟩) | ⟨_, -, rfl⟩
      · simp [withClients] at hmodel
      · simp [withClients] at hmodel
      · simp [withClients] at hmodel
      · rw [hM] at hx
        cases hx
        simp [keeps, hgone] at hmandate
      · simp [withClients] at hmodel
  refine ⟨keepList ((s.revokeTokensOf clients).collect (clients.map fun c => ⟨.client, c⟩)) .scope c.scopes, ?_⟩
  refine update_row_eq_some.mpr ⟨c, keep_row_eq_some.mpr ⟨hc, by simpa [keeps] using hstays⟩, ?_⟩
  rw [keepOpt_eq_self fun r hr heq => absurd (heq ▸ hwithin r hr) (by decide)]

theorem revokeMandate_leaves {mandate : Pk} {reason : MandateRevocation}
    (h : s.revokeMandate mandate reason = .ok t) :
    t.mandates.next = s.mandates.next
      ∧ (∀ j m', t.mandates.row j = some m' → ∃ m r a, s.mandates.row j = some m
        ∧ m' = { m with revokedAt := r, revocationReason := a } ∧ (m.revokedAt.isSome = true → r.isSome = true))
      ∧ ∀ k c M m, s.clients.row k = some c → c.mandate = some M → t.mandates.row M = some m → m.revokedAt = none →
        ∃ l, t.clients.row k = some { c with scopes := l } := by
  simp only [revokeMandate, bind_ok, Table.get_ok, pure_ok] at h
  obtain ⟨_, -, rfl⟩ := h
  have hspares := deleteClients_roots s (mandate :: s.childrenOf mandate)
  have hsame : ∀ j (m : Mandate), ∃ r a, (if j = mandate then revokeRow s.now reason m
      else if (s.childrenOf mandate).contains j then revokeRow s.now .parentRevoked m else m)
        = { m with revokedAt := r, revocationReason := a } ∧ (m.revokedAt.isSome = true → r.isSome = true)
        ∧ (r = none → j ∉ mandate :: s.childrenOf mandate) := by
    intro j m
    by_cases hj : j = mandate
    · obtain ⟨r, a, heq, hr⟩ := revokeRow_same s.now reason m
      exact ⟨r, a, by rw [if_pos hj, heq], fun _ => hr, fun hnone => by rw [hnone] at hr; cases hr⟩
    · by_cases hchild : (s.childrenOf mandate).contains j = true
      · obtain ⟨r, a, heq, hr⟩ := revokeRow_same s.now .parentRevoked m
        exact ⟨r, a, by rw [if_neg hj, if_pos hchild, heq], fun _ => hr,
          fun hnone => by rw [hnone] at hr; cases hr⟩
      · exact ⟨m.revokedAt, m.revocationReason, by rw [if_neg hj, if_neg hchild], id,
          fun _ => by simpa [hj] using hchild⟩
  rw [deleteClients_withdraw fun j m => by
    obtain ⟨r, a, heq, -⟩ := hsame j m
    rw [heq]
    rfl]
  refine ⟨hspares.next, fun j m' hm' => ?_, fun k c M m hc hM hm hlive => ?_⟩
  · obtain ⟨m, hm, rfl⟩ := update_row_eq_some.mp hm'
    obtain ⟨r, a, heq, hr, -⟩ := hsame j m
    exact ⟨m, r, a, hspares.rows j m hm, heq, hr⟩
  · obtain ⟨m₀, hm₀, rfl⟩ := update_row_eq_some.mp hm
    obtain ⟨r, a, heq, -, hother⟩ := hsame M m₀
    rw [heq] at hlive
    exact deleteClients_client hc hM (hother hlive) hm₀

end DB

/-! ## Keys over time -/

/-- Time passes, a mandate is issued, a key logs in on its line and is a client, or a mandate is revoked. -/
inductive Rekey
  | wait (seconds : Time)
  | issue (mandate : Pk)
  | login (line : Line) (mandate client : Pk)
  | revoke (mandate : Pk)
  deriving DecidableEq, Repr

inductive Rekeying (env : Env) (s : DB) : Rekey → DB → Prop
  | wait (seconds : Time) : Rekeying env s (.wait seconds) { s with now := s.now + seconds }
  | issue {issuer grantor hub pin claimant expiresAt maxClients allowMesh label minted t mandate key}
      (h : s.issueMandate env issuer grantor hub pin claimant expiresAt maxClients allowMesh label minted = .ok
        (t, mandate, key)) :
      Rekeying env s (.issue mandate) t
  | login {request M m t client}
      (hkey : s.mandates.first (fun _ m => m.keyHash == some (env.hashKey request.key)) = some (M, m))
      (h : s.authenticateKey env request = .ok (t, client)) :
      Rekeying env s
        (.login (m.line (s.deviceOf env request.manifest.deviceId m.organization).2 request.manifest.identifier)
          M client) t
  | revoke {mandate t} (h : s.revokeMandate mandate .revoked = .ok t) : Rekeying env s (.revoke mandate) t

section

variable {env : Env} {db e s t : DB} {line : Line} {M N k : Pk} {id : ClientId} {a : Rekey}

theorem Rekeying.reachable (h : Rekeying env s a t) (hs : Reachable env s) : Reachable env t := by
  cases h with
  | wait seconds => exact hs.step (a := .tick seconds) rfl
  | @issue issuer grantor hub pin claimant expiresAt maxClients allowMesh label minted t mandate key h =>
    refine hs.step (a := .issueMandate issuer grantor hub pin claimant expiresAt maxClients
      allowMesh label minted) ?_
    simp only [step, h]
    rfl
  | @login request M m t client _ h =>
    refine hs.step (a := .authenticateKey request) ?_
    simp only [step, h]
    rfl
  | @revoke mandate t h =>
    refine hs.step (a := .revokeMandate mandate) ?_
    simp only [step, h]
    rfl

theorem Rekeying.logsIn (h : Rekeying env s (.login line M k) t) (hs : Reachable env s) :
    ∃ id, DB.LogsIn s t line M k id := by
  cases h with
  | login hkey h =>
    obtain ⟨M', m', hkey', hlogs⟩ := hs.logsIn h
    rw [hkey] at hkey'
    cases hkey'
    exact hlogs

/-- The key of the mandate has the client on its line, under the client id, and is pinned to the app. -/
structure DB.Keyed (s : DB) (line : Line) (M k : Pk) (id : ClientId) : Prop where
  client : ∃ c, s.On line M k c ∧ c.clientId = id
  pin : ∃ m, s.mandates.row M = some m ∧ m.pin.identifier = some line.app

/-- The mandate was revoked, or is gone. -/
def DB.Dead (s : DB) (M : Pk) : Prop :=
  M < s.mandates.next ∧ ∀ m, s.mandates.row M = some m → m.revokedAt.isSome = true

theorem DB.Dead.step (h : s.Dead M) (hs : Reachable env s) (ha : Rekeying env s a t) : t.Dead M := by
  obtain ⟨hlt, hdead⟩ := h
  cases a with
  | wait =>
    cases ha
    exact ⟨hlt, hdead⟩
  | issue =>
    cases ha with
    | issue h =>
      obtain ⟨devices, m, -, ht, -⟩ := DB.issueMandate_ok h
      have ht : t = { s with devices := devices, mandates := s.mandates.insert m } := ht
      subst ht
      refine ⟨Nat.lt_succ_of_lt hlt, fun x hx => ?_⟩
      rcases insert_row_eq_some.mp hx with ⟨hM, -⟩ | hx
      · exact absurd hM (Nat.ne_of_lt hlt)
      · exact hdead x hx
  | login line' N k =>
    obtain ⟨id, hlogs⟩ := ha.logsIn hs
    refine ⟨hlogs.mandates.1 ▸ hlt, fun x hx => ?_⟩
    by_cases hN : M = N
    · obtain ⟨m, _, _, hm, hlive, -⟩ := hlogs.mandate
      have hrevoked := hdead m (hN ▸ hm)
      rw [hlive] at hrevoked
      cases hrevoked
    · exact hdead x (hlogs.mandates.2 M hN ▸ hx)
  | revoke =>
    cases ha with
    | revoke h =>
      obtain ⟨hnext, hrows, -⟩ := DB.revokeMandate_leaves h
      refine ⟨hnext ▸ hlt, fun x hx => ?_⟩
      obtain ⟨m, _, _, hm, rfl, hkept⟩ := hrows M x hx
      exact hkept (hdead m hm)

theorem DB.Keyed.logsIn {line' : Line} {j : Pk} {id' : ClientId} (h : s.Keyed line M k id)
    (hlogs : DB.LogsIn s t line' N j id')
    (hnewer : line' = line → N ≤ M) : t.Keyed line M k id := by
  obtain ⟨⟨c, hon, hid⟩, m, hm, hpin⟩ := h
  obtain ⟨m₁, hm₁, hmine⟩ := hon.member
  rw [hm] at hm₁
  cases hm₁
  obtain ⟨n, pin, used, hn, -, -, hn', happ, hfixed⟩ := hlogs.mandate
  have hafter : ∃ m', t.mandates.row M = some m' ∧ m'.line line.node line.app = line
    ∧ m'.pin.identifier = some line.app := by
    by_cases hMN : M = N
    · subst hMN
      rw [hm] at hn
      cases hn
      exact ⟨_, hn', hmine, by rw [hfixed (by rw [hpin]; rfl)]; exact hpin⟩
    · exact ⟨m, (hlogs.mandates.2 M hMN).trans hm, hmine, hpin⟩
  obtain ⟨m', hm', hmine', hpin'⟩ := hafter
  by_cases hjk : j = k
  · subst hjk
    have hgets := hlogs.gets
    cases hgets with
    | @own c₀ hc hM hnode =>
      rw [hon.row] at hc
      cases hc
      rw [hon.mandate] at hM
      cases hM
      rw [hm] at hn
      cases hn
      have hsame : line'.app = line.app := by
        rw [hfixed (by rw [hpin]; rfl), hpin] at happ
        exact (Option.some.inj happ).symm
      obtain ⟨y, hy, hyM, hynode, hyid, hyapp⟩ := hlogs.client
      refine ⟨⟨y, ⟨hy, hyM, hynode.trans (hnode.symm.trans hon.node), ?_, m', hm', hmine'⟩, hyid.trans hid⟩,
        m', hm', hpin'⟩
      rcases hyapp with hyapp | hkept
      · rw [hyapp, hsame]
      · rw [hon.row] at hkept
        cases hkept
        exact hon.app
    | @taken K c₀ o hunused hon' holder hnewest ho hlive =>
      -- the newer key is one of the same line
      have hrow := hon'.row
      rw [hon.row] at hrow
      cases hrow
      have hK := hon'.mandate
      rw [hon.mandate] at hK
      cases hK
      have hnode : line'.node = line.node := hon'.node.symm.trans hon.node
      have hsame : line'.app = line.app := by
        have happ' := hon'.app
        rw [hon.app] at happ'
        exact (Option.some.inj happ').symm
      obtain ⟨m₁, hm₁, htheirs⟩ := hon'.member
      rw [hm] at hm₁
      cases hm₁
      rw [hnode, hsame, hmine] at htheirs
      exact absurd holder (Nat.not_lt.mpr (hnewer htheirs.symm))
    | new hunused hk => exact absurd hk (Nat.ne_of_lt (lt_next hon.row))
  · exact ⟨⟨c, ⟨(hlogs.others k (Ne.symm hjk)).trans hon.row, hon.mandate, hon.node, hon.app, m', hm', hmine'⟩,
      hid⟩, m', hm', hpin'⟩

theorem DB.LogsIn.keyed (h : DB.LogsIn s t line M k id) (hunused : s.Unused M line.node) :
    t.Keyed line M k id := by
  obtain ⟨c, hc, hM, hnode, hid, happ⟩ := h.client
  obtain ⟨m, pin, used, -, -, hline, hm, hpin, -⟩ := h.mandate
  refine ⟨⟨c, ⟨hc, hM, hnode, ?_, _, hm, hline⟩, hid⟩, _, hm, hpin⟩
  rcases happ with happ | hkept
  · exact happ
  · exact absurd hnode (hunused k c hkept hM)

theorem DB.Keyed.step (h : s.Keyed line M k id) (hs : Reachable env s) (ha : Rekeying env s a t)
    (hnewer : ∀ N j, a = .login line N j → N ≤ M) : t.Keyed line M k id ∨ t.Dead M := by
  cases a with
  | wait =>
    cases ha
    obtain ⟨⟨c, hon, hid⟩, hpin⟩ := h
    exact .inl ⟨⟨c, ⟨hon.row, hon.mandate, hon.node, hon.app, hon.member⟩, hid⟩, hpin⟩
  | issue =>
    cases ha with
    | issue hissue =>
      obtain ⟨devices, n, -, ht, -⟩ := DB.issueMandate_ok hissue
      have ht : t = { s with devices := devices, mandates := s.mandates.insert n } := ht
      subst ht
      obtain ⟨⟨c, hon, hid⟩, m, hm, hpin⟩ := h
      obtain ⟨m₁, hm₁, hmine⟩ := hon.member
      exact .inl ⟨⟨c, ⟨hon.row, hon.mandate, hon.node, hon.app, m₁, insert_row_of_some hm₁, hmine⟩, hid⟩, m,
        insert_row_of_some hm, hpin⟩
  | login line' N j =>
    obtain ⟨id', hlogs⟩ := ha.logsIn hs
    exact .inl (h.logsIn hlogs fun heq => hnewer N j (heq ▸ rfl))
  | revoke X =>
    cases ha with
    | revoke hrevoke =>
      obtain ⟨hnext, hrows, hclients⟩ := DB.revokeMandate_leaves hrevoke
      obtain ⟨⟨c, hon, hid⟩, m, hm, hpin⟩ := h
      by_cases hlive : ∃ x, t.mandates.row M = some x ∧ x.revokedAt = none
      · obtain ⟨x, hx, hlive⟩ := hlive
        obtain ⟨l, hl⟩ := hclients k c M x hon.row hon.mandate hx hlive
        obtain ⟨m₀, r, b, hm₀, rfl, -⟩ := hrows M x hx
        obtain ⟨m₁, hm₁, hmine⟩ := hon.member
        rw [hm] at hm₀ hm₁
        cases hm₀
        cases hm₁
        exact .inl ⟨⟨_, ⟨hl, hon.mandate, hon.node, hon.app, _, hx, hmine⟩, hid⟩, _, hx, hpin⟩
      · refine .inr ⟨hnext ▸ lt_next hm, fun x hx => ?_⟩
        by_contra hnone
        exact hlive ⟨x, hx, by simpa using hnone⟩

end

/-- Along every run the clients of mandates stay apart and none is left to a revoked mandate. The first
login of a key takes over the client, with its client id, of the newest older key that has one there, which
is not revoked, and no login touches any other client: the key keeps it until a newer key of the line logs
in, or its mandate is revoked. -/
theorem rekeying_keeps_client {env : Env} {db e : DB} {history : List Rekey} (hdb : Reachable env db)
    (hrun : Run (Rekeying env) db history e) : e.Apart ∧ e.RevokedBare
    ∧ ∀ before line M k after, history = before ++ .login line M k :: after → ∃ s t id,
      Run (Rekeying env) db before s ∧ Rekeying env s (.login line M k) t ∧ Run (Rekeying env) t after e
        ∧ DB.LogsIn s t line M k id
        ∧ (s.Unused M line.node ∨ s.Keyed line M k id → t.Keyed line M k id)
        ∧ (t.Keyed line M k id → (∀ N j, .login line N j ∈ after → N ≤ M) → e.Keyed line M k id ∨ e.Dead M) := by
  have hreach : ∀ {s t : DB} {as : List Rekey}, Run (Rekeying env) s as t → Reachable env s → Reachable env t :=
    fun hrun hs =>
    hrun.invariant (P := Reachable env) (fun hs ha => ha.reachable hs) hs
  have he := hreach hrun hdb
  refine ⟨he.apart, he.revokedBare, ?_⟩
  intro before line M k after heq
  subst heq
  obtain ⟨s, hbefore, hrest⟩ := hrun.split
  cases hrest with
  | @cons _ t _ _ _ hlogin hafter =>
    have hs := hreach hbefore hdb
    obtain ⟨id, hlogs⟩ := hlogin.logsIn hs
    refine ⟨s, t, id, hbefore, hlogin, hafter, hlogs, fun hfirst => ?_, fun hkeyed hnewer => ?_⟩
    · rcases hfirst with hunused | hkeyed
      · exact hlogs.keyed hunused
      · exact hkeyed.logsIn hlogs fun _ => Nat.le_refl M
    · have hkept := (hafter.restrict (Q := fun a => ∀ N j, a = .login line N j → N ≤ M)
        fun a ha N j heq => hnewer N j (heq ▸ ha)).invariant
        (P := fun d => Reachable env d ∧ (d.Keyed line M k id ∨ d.Dead M)) (fun {d a d'} hd ha => ?_)
        ⟨hlogin.reachable hs, .inl hkeyed⟩
      · exact hkept.2
      · obtain ⟨ha, hnewer⟩ := ha
        refine ⟨ha.reachable hd.1, ?_⟩
        rcases hd.2 with hkeyed | hdead
        · exact hkeyed.step hd.1 ha hnewer
        · exact .inr (hdead.step hd.1 ha)

/-- Ann issues two keys for the worker in her hub. -/
def twoKeys : List Action :=
  [.createUser "ann" [], .createOrganization "org" 0 false, .configureHub 0 plainHub,
   .issueMandate (.member 0) 0 0 ⟨some "worker", none, none, none, none⟩ (.key (some plainKey)) none none false ""
   "",
   .issueMandate (.member 0) 0 0 ⟨some "worker", none, none, none, none⟩ (.key (some (plainKey ++ "-2"))) none none
   false "" ""]

/-- The worker logs in on its device, with a key. -/
def deviceLogin (key : String) : MandateKeyGrantRequest :=
  ⟨key, { plainWorker with deviceId := some "device" }, .desktop, .interface, false⟩

def workerLine : Line := ⟨0, 0, .member, some 0, "worker"⟩

def olderUsed : List Action := twoKeys ++ [.authenticateKey (deviceLogin plainKey)]

/-- The older key was used; the newer one takes its client over. -/
theorem rekeying_keeps_client_taken :
    ((run plainEnv .empty olderUsed).clients.row 0).any (fun c =>
        c.mandate == some 0 && c.clientId == .uuid 0) = true
      ∧ ∃ t, Rekeying plainEnv (run plainEnv .empty olderUsed)
        (.login workerLine 1 0) t ∧ t.Apart ∧ t.Keyed workerLine 1 0 (.uuid 0) := by
  have hdb := reachable_run plainEnv olderUsed
  have hclient : ((run plainEnv .empty olderUsed).clients.row 0).any (fun c =>
      c.mandate == some 0 && c.clientId == .uuid 0) = true := by decide +kernel
  have hunused : ((run plainEnv .empty olderUsed).clients.exists? fun _ c =>
      c.mandate == some 1) = false := by decide +kernel
  have hkey : ((run plainEnv .empty olderUsed).mandates.first fun _ m =>
      m.keyHash == some (plainEnv.hashKey (deviceLogin (plainKey ++ "-2")).key)).any (fun r => r.1 == 1
        && r.2.line ((run plainEnv .empty olderUsed).deviceOf plainEnv
          (deviceLogin (plainKey ++ "-2")).manifest.deviceId r.2.organization).2 "worker" == workerLine)
            = true := by decide +kernel
  have hlogin : ((run plainEnv .empty olderUsed).authenticateKey plainEnv
      (deviceLogin (plainKey ++ "-2"))).toOption.any (fun r => r.2 == 0) = true := by decide +kernel
  generalize run plainEnv .empty olderUsed = db at hdb hclient hunused hkey hlogin ⊢
  refine ⟨hclient, ?_⟩
  obtain ⟨⟨t, k⟩, hlogin, hk⟩ := exists_ok_and hlogin
  obtain ⟨⟨M, m⟩, hkey, hm⟩ := (Option.any_eq_true _ _).mp hkey
  obtain ⟨c, hc, hp⟩ := (Option.any_eq_true _ _).mp hclient
  simp only [Bool.and_eq_true, beq_iff_eq] at hk hm hp
  obtain ⟨rfl, hline⟩ := hm
  subst hk
  have hlogs : Rekeying plainEnv db (.login workerLine 1 0) t := by
    rw [← hline]
    exact .login hkey hlogin
  obtain ⟨hapart, -, hall⟩ := rekeying_keeps_client hdb (.single hlogs)
  obtain ⟨s, t', id, hbefore, hlogs', hafter, hin, hkeyed, -⟩ := hall [] workerLine 1 0 [] rfl
  cases hbefore
  cases hafter
  refine ⟨t, hlogs, hapart, ?_⟩
  have hnone : db.Unused 1 workerLine.node := fun j x hx hM => by
    have hno := exists?_eq_false.mp hunused j x hx
    simp [hM] at hno
  have hkeyed := hkeyed (.inl hnone)
  have hgets := hin.gets
  cases hgets with
  | own hx hM hnode => exact absurd hnode (hnone _ _ hx hM)
  | taken _ hon =>
    have hrow := hon.row
    rw [hc] at hrow
    cases hrow
    rw [hp.2] at hkeyed
    exact hkeyed
  | new _ hnext => exact absurd hnext (Nat.ne_of_lt (lt_next hc))

theorem exists_on (s : DB) (line : Line) (M k : Pk) (id : ClientId)
    (hclient : (s.clients.row k).any (fun c => c.mandate == some M && c.node == line.node
      && c.release.map (·.identifier) == some line.app && c.clientId == id) = true)
    (hmandate : (s.mandates.row M).any (fun m => m.line line.node line.app == line && m.revokedAt.isNone) = true) :
    ∃ c m, s.On line M k c ∧ c.clientId = id ∧ s.mandates.row M = some m ∧ m.revokedAt = none := by
  obtain ⟨c, hc, hp⟩ := (Option.any_eq_true _ _).mp hclient
  obtain ⟨m, hm, hq⟩ := (Option.any_eq_true _ _).mp hmandate
  simp only [Bool.and_eq_true, beq_iff_eq, Option.isNone_iff_eq_none] at hp hq
  obtain ⟨⟨⟨hM, hnode⟩, happ⟩, hid⟩ := hp
  exact ⟨c, m, ⟨hc, hM, hnode, happ, m, hm, hq.1⟩, hid, hm, hq.2⟩

def newerFirst : List Action :=
  twoKeys ++ [.authenticateKey (deviceLogin (plainKey ++ "-2")), .authenticateKey (deviceLogin plainKey)]

/-- The newer key logs in first: the older one then gets a client of its own, and the newer does not have
its client id. -/
theorem newer_key_logs_in_first : ∃ c c' m m', (run plainEnv .empty newerFirst).On workerLine 1 0 c
    ∧ (run plainEnv .empty newerFirst).mandates.row 1 = some m ∧ m.revokedAt = none
    ∧ (run plainEnv .empty newerFirst).On workerLine 0 1 c'
    ∧ (run plainEnv .empty newerFirst).mandates.row 0 = some m' ∧ m'.revokedAt = none
    ∧ ∀ k x, (run plainEnv .empty newerFirst).clients.row k = some x → x.mandate = some 1 →
    x.clientId ≠ c'.clientId := by
  obtain ⟨c, m, hon, -, hm, hlive⟩ := exists_on (run plainEnv .empty newerFirst) workerLine 1 0
    (.uuid 0) (by decide +kernel) (by decide +kernel)
  obtain ⟨c', m', hon', hid, hm', hlive'⟩ := exists_on (run plainEnv .empty newerFirst) workerLine 0 1
    (.uuid 1) (by decide +kernel) (by decide +kernel)
  have hnone : ((run plainEnv .empty newerFirst).clients.exists?
    fun _ x => x.mandate == some 1 && x.clientId == .uuid 1) = false := by
    decide +kernel
  refine ⟨c, c', m, m', hon, hm, hlive, hon', hm', hlive', fun k x hx hM hsame => ?_⟩
  have hno := exists?_eq_false.mp hnone k x hx
  simp [hM, hsame, hid] at hno

end Lok
