import Lok.GuestWrites

/-!
# Writes of the client functions

Binding a client is one labelled write between quiet ones: the earlier installations go
before it, which takes neither the client itself nor any mandate, and the client is
composed after it.
-/

namespace Lok

open Table Runs Checks

namespace DB

variable {A : Licence} {db d : DB}

theorem Cleared.binding {c c' : Client} (h : c.Cleared c') : c'.binding = c.binding := by
  obtain ⟨_, _, rfl⟩ := h
  rfl

theorem deviceOf_eq (db : DB) (env : Env) (deviceId : Option String) (organization : Pk) :
    ∃ t, (db.deviceOf env deviceId organization).1 = { db with devices := t }
      ∧ (t = db.devices ∨ ∃ x, t = db.devices.insert x) := by
  unfold deviceOf
  split
  · exact ⟨_, rfl, .inl rfl⟩
  · unfold getOrCreateDevice
    dsimp only
    split
    · exact ⟨_, rfl, .inl rfl⟩
    · exact ⟨_, rfl, .inr ⟨_, rfl⟩⟩

theorem devices_writes {t : Table Device} (h : t = db.devices ∨ ∃ x, t = db.devices.insert x) :
    Writes A db { db with devices := t } := by
  rcases h with rfl | ⟨x, rfl⟩
  · exact .refl db
  · exact Writes.quiet (.newDevice x)

theorem deviceOf_writes (env : Env) (deviceId : Option String) (organization : Pk) :
    Writes A db (db.deviceOf env deviceId organization).1 := by
  obtain ⟨t, ht, hdevices⟩ := deviceOf_eq db env deviceId organization
  exact ht ▸ devices_writes hdevices

section

variable (env : Env) (deviceId : Option String) (organization : Pk)

@[simp] theorem deviceOf_clients : (db.deviceOf env deviceId organization).1.clients = db.clients := by
  obtain ⟨t, ht, -⟩ := deviceOf_eq db env deviceId organization
  rw [ht]

@[simp] theorem deviceOf_memberships : (db.deviceOf env deviceId organization).1.memberships = db.memberships := by
  obtain ⟨t, ht, -⟩ := deviceOf_eq db env deviceId organization
  rw [ht]

@[simp] theorem deviceOf_hubs : (db.deviceOf env deviceId organization).1.hubs = db.hubs := by
  obtain ⟨t, ht, -⟩ := deviceOf_eq db env deviceId organization
  rw [ht]

@[simp] theorem deviceOf_mandates : (db.deviceOf env deviceId organization).1.mandates = db.mandates := by
  obtain ⟨t, ht, -⟩ := deviceOf_eq db env deviceId organization
  rw [ht]

end

theorem createPublicClient_writes (hE : A.enroll) (kind : ClientKind) (role : ClientRole) (uris : List String)
    (isPublic : Bool) {grantTypes : List GrantType}
    (hgrants : grantTypes = faktsClientGrantTypes ∨ grantTypes = [.mandateKey]) :
    Writes A db (db.createPublicClient kind role uris isPublic grantTypes).1 :=
  Via.single (.newClient _ rfl ⟨rfl, rfl, rfl, rfl, rfl⟩ hgrants) hE

theorem ensureOpenId_writes (hE : A.enroll) (config : OpenIDAppConfig) : Writes A db (db.ensureOpenId config) := by
  unfold ensureOpenId
  split
  · rename_i pk c hfirst
    obtain ⟨hc, hid⟩ := first_eq_some hfirst
    refine Writes.quiet (.clients (.modify (fun _ _ => rfl) fun x hx => ?_)
      (.modify (fun _ _ => rfl) fun _ _ => rfl))
    rw [hc] at hx
    cases hx
    simp [Client.binding, show c.clientId = .named config.clientId by simpa using hid, ClientId.minted]
  · rename_i hnone
    refine Via.single (.newRelyingParty _ config.clientId rfl ⟨rfl, rfl, rfl, rfl, rfl⟩ fun pk c hc => ?_) hE
    simpa using first_eq_none.mp hnone pk c hc

/-! ## Composing -/

theorem findInstance_some {service : String} {user : Pk} {hub : Option Pk} {i : Pk}
    (h : db.findInstance service user hub = some i) :
    ∃ inst, db.instances.row i = some inst ∧ inst.service = service ∧ some inst.hub = hub := by
  simp only [findInstance, Option.map_eq_some_iff, Prod.exists] at h
  obtain ⟨pk, inst, hfirst, rfl⟩ := h
  obtain ⟨hrow, hp⟩ := first_eq_some hfirst
  simp only [Bool.and_eq_true, beq_iff_eq] at hp
  exact ⟨inst, hrow, hp.1.1, hp.1.2⟩

theorem mapInstance_ok {client instance_ : Pk} {key : String} (h : db.mapInstance client instance_ key = .ok d) :
    d = db ∧ (∃ k, db.mappings.row k = some ⟨client, instance_, key⟩) ∨
      d = { db with mappings := db.mappings.insert ⟨client, instance_, key⟩ } ∧
        ∀ k m, db.mappings.row k = some m → ¬ (m.client = client ∧ m.key = key) := by
  unfold mapInstance at h
  split at h
  · rename_i hexists
    obtain rfl := pure_ok.mp h
    obtain ⟨k, ⟨c, i, x⟩, hm, hp⟩ := exists?_eq_true.mp hexists
    simp only [Bool.and_eq_true, beq_iff_eq] at hp
    obtain ⟨⟨rfl, rfl⟩, rfl⟩ := hp
    exact .inl ⟨rfl, k, hm⟩
  · simp only [bind_ok, require_ok, exists_unit, pure_ok, Bool.not_eq_true', exists?_eq_false] at h
    obtain ⟨hnone, rfl⟩ := h
    exact .inr ⟨rfl, fun k m hm => by simpa using hnone k m hm⟩

theorem mapInstance_error {client instance_ : Pk} {key : String} {e : Refused}
    (h : db.mapInstance client instance_ key = .error e) :
    ∃ k i, db.mappings.row k = some ⟨client, i, key⟩ ∧ i ≠ instance_ := by
  unfold mapInstance at h
  split at h
  · cases h
  · rename_i hnew
    cases htaken : db.mappings.exists? fun _ m => m.client == client && m.key == key with
    | false =>
      rw [htaken] at h
      cases h
    | true =>
      obtain ⟨k, ⟨c, i, x⟩, hm, hp⟩ := exists?_eq_true.mp htaken
      simp only [Bool.and_eq_true, beq_iff_eq] at hp
      obtain ⟨rfl, rfl⟩ := hp
      refine ⟨k, i, hm, fun heq => hnew ?_⟩
      exact exists?_eq_true.mpr ⟨k, _, hm, by simp [heq]⟩

theorem mapRequirement_ok {client user : Pk} {hub : Option Pk} {req : Requirement}
    (h : db.mapRequirement client user hub req = .ok d) :
    ∃ i, db.findInstance req.service user hub = some i ∧ db.mapInstance client i req.key = .ok d := by
  simpa [mapRequirement] using h

theorem mapRequirement_error {client user : Pk} {hub : Option Pk} {req : Requirement} {e : Refused} {i : Pk}
    (h : db.mapRequirement client user hub req = .error e) (hi : db.findInstance req.service user hub = some i) :
    db.mapInstance client i req.key = .error e := by
  rw [mapRequirement, hi] at h
  exact h

theorem mapInstance_writes {client instance_ : Pk} {key : String} {c : Client} {i : ServiceInstance}
    (hc : db.clients.row client = some c) (hi : db.instances.row instance_ = some i) (hhub : c.hub = some i.hub)
    (h : db.mapInstance client instance_ key = .ok d) : Writes A db d ∧ ∃ x, d = { db with mappings := x } := by
  rcases mapInstance_ok h with ⟨rfl, -⟩ | ⟨rfl, -⟩
  · exact ⟨.refl d, _, rfl⟩
  · exact ⟨Writes.quiet (.newMapping _ hc hi hhub), _, rfl⟩

theorem composeOne_writes {client user : Pk} {hub : Option Pk} {declined : List String}
    {s t : DB × List (String × MappingStatus)} {req : Requirement}
    (hhub : ∃ c, s.1.clients.row client = some c ∧ c.hub = hub)
    (h : composeOne client user hub declined s req = .ok t) :
    Writes A s.1 t.1 ∧ ∃ x, t.1 = { s.1 with mappings := x } := by
  unfold composeOne at h
  split at h
  · cases h
    exact ⟨.refl _, _, rfl⟩
  · split at h
    · rename_i e hmap
      cases h
      obtain ⟨i, hfind, hplaced⟩ := mapRequirement_ok hmap
      obtain ⟨inst, hinst, -, hi⟩ := findInstance_some hfind
      obtain ⟨c, hc, rfl⟩ := hhub
      exact mapInstance_writes hc hinst hi.symm hplaced
    · split at h
      · cases h
        exact ⟨.refl _, _, rfl⟩
      · simp at h

theorem autoCompose_writes {client user : Pk} {hub : Option Pk} {requirements : List Requirement}
    {declined : List String}
    (hhub : ∃ c, db.clients.row client = some c ∧ c.hub = hub)
    (h : db.autoCompose client hub requirements user declined = .ok d) :
    Writes A db d ∧ ∃ x y, d = { db with mappings := x, clients := y }
      ∧ Rewrites (fun _ c c' => ∃ l, c' = { c with statuses := l }) db.clients y := by
  unfold autoCompose at h
  split at h
  · obtain rfl := pure_ok.mp h
    exact ⟨.refl _, _, _, rfl, .refl (R := fun _ (c c' : Client) => ∃ l, c' = { c with statuses := l })
      (fun _ c => ⟨c.statuses, rfl⟩) _⟩
  · simp only [bind_ok, pure_ok, Prod.exists] at h
    obtain ⟨e, statuses, he, rfl⟩ := h
    have hR := foldlM_ok (R := fun s t : DB × List (String × MappingStatus) =>
        (∃ c, s.1.clients.row client = some c ∧ c.hub = hub) →
          Writes A s.1 t.1 ∧ ∃ x, t.1 = { s.1 with mappings := x })
      (fun _ _ => ⟨.refl _, _, rfl⟩)
      (fun {s t u} hst htu hs => by
        obtain ⟨hw, x, hx⟩ := hst hs
        obtain ⟨hw', x', hx'⟩ := htu (by rw [hx]; exact hs)
        exact ⟨hw.trans hw', x', by rw [hx', hx]⟩)
      (fun _ _ s t hst hs => composeOne_writes hs hst) he
    obtain ⟨hw, x, hx⟩ := hR hhub
    dsimp only at hw hx
    have hstatuses : Rewrites (fun _ c c' => ∃ l, c' = { c with statuses := l }) e.clients
      (e.clients.modify client fun c =>
        { c with statuses := statuses }) := .modify (fun _ c => ⟨c.statuses, rfl⟩) fun _ _ => ⟨_, rfl⟩
    have hbinding : Rewrites (fun _ c c' => c'.binding = c.binding) e.clients (e.clients.modify client fun c =>
        { c with statuses := statuses }) := .modify (fun _ _ => rfl) fun _ _ => rfl
    have hnode : Rewrites (fun _ c c' => c'.node = c.node) e.clients (e.clients.modify client fun c =>
        { c with statuses := statuses }) := .modify (fun _ _ => rfl) fun _ _ => rfl
    subst hx
    exact ⟨.trans (Writes.quiet (.dropMappings _)) (hw.trans (Writes.quiet (.clients hbinding hnode))),
      x, _, rfl, hstatuses⟩

/-! ## Earlier installations -/

theorem delete_clients_membership (clients : List Pk) {k : Pk} {m : Membership}
    (h : db.memberships.row k = some m) :
    ∃ m', (db.delete .client (clients.map fun c => ⟨.client, c⟩) none).memberships.row k = some m'
      ∧ m'.user = m.user ∧ m'.organization = m.organization :=
  delete_membership withClients_within (by simp [withClients]) (by simp [withClients]) (by simp [withClients])
    (by simp [withClients]) h

theorem delete_clients_hub (clients : List Pk) {k : Pk} {h : Hub} (hk : db.hubs.row k = some h) :
    ∃ h', (db.delete .client (clients.map fun c => ⟨.client, c⟩) none).hubs.row k = some h'
      ∧ h'.organization = h.organization :=
  delete_hub withClients_within (by simp [withClients]) (by simp [withClients]) (by simp [withClients])
    (by simp [withClients]) hk

theorem reissue_writes (issuers : List Pk) (client : Pk) : Writes A db (db.reissue issuers client) :=
  Writes.quiet (.reissue (.updateWhere (fun _ m => ⟨m.issuingClient, rfl⟩) fun _ _ _ _ => ⟨some client, rfl⟩))

theorem reissue_issuer {issuers : List Pk} {client k s : Pk} {m : Mandate} (hclient : client ∉ issuers)
    (h : (db.reissue issuers client).mandates.row k = some m) (hs : m.issuingClient = some s) : s ∉ issuers := by
  obtain ⟨m₀, -, rfl⟩ := updateWhere_row_eq_some.mp h
  split at hs
  · obtain rfl : client = s := by simpa using hs
    exact hclient
  · rename_i hp
    simpa [hs] using hp

/-- Once their mandates moved, the earlier installations take only their own mappings and codes along. -/
theorem collect_stale_rows {client : Pk} {stale : List Pk} (hclient : client ∉ stale) {r : Ref}
    (h : r ∈ (db.reissue stale client).collect (stale.map fun s => ⟨.client, s⟩)) :
    (∃ s ∈ stale, r = ⟨.client, s⟩) ∨ (r.model = .mapping ∧ ∃ m, db.mappings.row r.pk = some m ∧ m.client ∈ stale)
      ∨ r.model = .deviceCode := by
  refine Closure.closure_induct
    (P := fun r : Ref => (∃ s ∈ stale, r = ⟨.client, s⟩)
      ∨ (r.model = .mapping ∧ ∃ m, db.mappings.row r.pk = some m ∧ m.client ∈ stale) ∨ r.model = .deviceCode)
    (fun r hr => ?_) (fun x _ p hp hP => ?_) h
  · obtain ⟨s, hs, rfl⟩ := List.mem_map.mp hr
    exact .inl ⟨s, hs, rfl⟩
  · rcases hP with ⟨s, hs, rfl⟩ | hP
    · rcases client_of_hangsOn hp with hx | hx | ⟨-, m, hm, hi⟩
      · obtain ⟨model, k⟩ := x
        obtain rfl : model = .mapping := hx
        simp only [hangsOn, mem_elim] at hp
        obtain ⟨m, hm, hp⟩ := hp
        obtain rfl : s = m.client := by simpa [ServiceInstanceMapping.hangsOn] using hp
        exact .inr (.inl ⟨rfl, m, hm, hs⟩)
      · exact .inr (.inr hx)
      · exact absurd hs (reissue_issuer hclient hm hi)
    · have hunder := hangsOn_under hp
      obtain ⟨model, pk⟩ := x
      rcases hP with ⟨hP, -⟩ | hP <;> rw [hP] at hunder <;> cases model <;> simp [Model.under] at hunder

theorem collect_stale {client : Pk} {stale : List Pk} (hclient : client ∉ stale) {r : Ref}
    (h : r ∈ (db.reissue stale client).collect (stale.map fun s => ⟨.client, s⟩)) :
    (∃ s ∈ stale, r = ⟨.client, s⟩) ∨ r.model = .mapping ∨ r.model = .deviceCode := by
  rcases collect_stale_rows hclient h with hr | ⟨hr, -⟩ | hr
  · exact .inl hr
  · exact .inr (.inl hr)
  · exact .inr (.inr hr)

section

variable {client : Pk} {stale : List Pk} (hclient : client ∉ stale)
include hclient

theorem dropStale_eq (db : DB) : ∃ held, db.dropStale client stale
    = ((db.reissue stale client).removeCascade (stale.map fun s => ⟨.client, s⟩)).syncAdmin held := by
  refine ⟨_, delete_of_no_receiver fun r hr => ?_⟩
  rcases collect_stale hclient hr with ⟨s, -, rfl⟩ | h | h
  · exact ⟨by simp, by simp⟩
  · simp [h]
  · simp [h]

theorem dropStale_client {k : Pk} {c : Client} (hk : k ∉ stale) (h : db.clients.row k = some c) :
    ∃ c', (db.dropStale client stale).clients.row k = some c' ∧ c.Cleared c' := by
  obtain ⟨held, heq⟩ := dropStale_eq hclient db
  have hgone : (⟨.client, k⟩ : Ref) ∉ (db.reissue stale client).collect (stale.map fun s => ⟨.client, s⟩) := by
    intro hmem
    rcases collect_stale hclient hmem with ⟨s, hs, he⟩ | he | he
    · cases he
      exact hk hs
    · cases he
    · cases he
  rw [heq]
  refine ⟨_, update_row_eq_some.mpr ⟨c, keep_row_eq_some.mpr ⟨h, ?_⟩, rfl⟩, _, _, rfl⟩
  simpa [keeps] using hgone

theorem dropStale_mandate {k : Pk} {m : Mandate} (h : db.mandates.row k = some m) :
    ∃ c, (db.dropStale client stale).mandates.row k = some { m with issuingClient := c } := by
  obtain ⟨held, heq⟩ := dropStale_eq hclient db
  have hgone : (⟨.mandate, k⟩ : Ref) ∉ (db.reissue stale client).collect (stale.map fun s => ⟨.client, s⟩) := by
    intro hmem
    rcases collect_stale hclient hmem with ⟨s, hs, he⟩ | he | he <;> cases he
  obtain ⟨m', hm', hR⟩ := (Rewrites.updateWhere
    (R := fun _ (m m' : Mandate) => ∃ c, m' = { m with issuingClient := c })
    (p := fun _ m => m.issuingClient.any stale.contains) (f := fun m => { m with issuingClient := some client })
    (fun _ m => ⟨m.issuingClient, rfl⟩) fun _ _ _ _ => ⟨_, rfl⟩).after h
  obtain ⟨c, rfl⟩ := hR
  rw [heq]
  exact ⟨c, keep_row_eq_some.mpr ⟨hm', by simpa [keeps] using hgone⟩⟩

end

theorem dropStale_writes (client : Pk) (stale : List Pk) : Writes A db (db.dropStale client stale) :=
  (reissue_writes _ _).trans Writes.delete

theorem dropStale_membership (client : Pk) (stale : List Pk) {k : Pk} {m : Membership}
    (h : db.memberships.row k = some m) :
    ∃ m', (db.dropStale client stale).memberships.row k = some m' ∧ m'.organization = m.organization := by
  have h' : (db.reissue stale client).memberships.row k = some m := h
  obtain ⟨m', hm', -, ho⟩ := delete_clients_membership stale h'
  exact ⟨m', hm', ho⟩

/-! ## Binding -/

/-- What the save of a bound client finds: the client, its membership, and what is left of the rest. -/
structure Prepared (db e : DB) (pk membership : Pk) (c : Client) : Prop where
  client : ∃ c₁, e.clients.row pk = some c₁ ∧ c₁.binding = c.binding
  membership : ∃ m g, db.memberships.row membership = some m ∧ e.memberships.row membership = some g
    ∧ g.organization = m.organization
  hubs : ∀ k h, e.hubs.row k = some h → ∃ h₀, db.hubs.row k = some h₀ ∧ h₀.organization = h.organization
  mandates : ∀ k m, db.mandates.row k = some m → ∃ c, e.mandates.row k = some { m with issuingClient := c }

theorem Prepared.membership_of {e : DB} {pk membership : Pk} {c : Client} {m : Membership}
    (h : Prepared db e pk membership c) (hm : db.memberships.row membership = some m) :
    ∃ g, e.memberships.row membership = some g ∧ g.organization = m.organization := by
  obtain ⟨m', g, hm', hg, ho⟩ := h.membership
  rw [hm] at hm'
  cases hm'
  exact ⟨g, hg, ho⟩

theorem mem_staleClients {pk k : Pk} {kind : ClientKind} {release : Release} {membership : Pk}
    {node hub mandate : Option Pk} (h : k ∈ db.staleClients pk kind release membership node hub mandate) :
    k ≠ pk := by
  obtain ⟨c, -, hp⟩ := mem_pks.mp h
  simp only [Bool.and_eq_true, bne_iff_ne] at hp
  exact hp.1

theorem dropStale_prepared {pk membership : Pk} {stale : List Pk} {c : Client} {m : Membership}
    (hstale : pk ∉ stale)
    (hc : db.clients.row pk = some c) (hm : db.memberships.row membership = some m) :
    Prepared db (db.dropStale pk stale) pk membership c where
  client := by
    obtain ⟨c₁, h₁, hcleared⟩ := dropStale_client hstale hstale hc
    exact ⟨c₁, h₁, Cleared.binding hcleared⟩
  membership := by
    obtain ⟨g, hg, ho⟩ := dropStale_membership pk stale hm
    exact ⟨m, g, hm, hg, ho⟩
  hubs k h hk := by
    obtain ⟨h₀, hk₀, _, rfl, -⟩ := (delete_shrinks (db.reissue stale pk) .client _ none).hubs.2 k h hk
    exact ⟨h₀, hk₀, rfl⟩
  mandates _ _ hk := dropStale_mandate hstale hk

/-- No other client is the same to the constraints. -/
def Distinct (db : DB) (pk : Pk) (c : Client) : Prop :=
  ∀ k x, k ≠ pk → db.clients.row k = some x → sameIdentity c x = false

theorem saveClient_ok {pk : Pk} {c : Client} :
    db.saveClient pk c = .ok d ↔ db.Distinct pk c ∧ d = { db with clients := db.clients.put pk c } := by
  simp only [saveClient, bind_ok, require_ok, exists_unit, pure_ok, eq_comm (a := d), Bool.not_eq_true',
    exists?_eq_false]
  refine and_congr_left fun _ => forall_congr' fun k => forall_congr' fun x => ?_
  by_cases hk : k = pk <;> simp [hk]

theorem installClient_writes {pk user organization : Pk} {bound : Client} {manifest : Manifest}
    {declined : List String}
    (hsave : db.Distinct pk bound → Writes A db { db with clients := db.clients.put pk bound })
    (h : db.installClient pk bound manifest user organization declined = .ok d) :
    Writes A db d ∧ d.mandates = db.mandates := by
  simp only [installClient, bind_ok, saveClient_ok, pure_ok] at h
  obtain ⟨_, ⟨hdistinct, rfl⟩, e, he, rfl⟩ := h
  obtain ⟨hw, x, y, rfl, -⟩ := autoCompose_writes ⟨bound, by rw [put_row, if_pos rfl], rfl⟩ he
  refine ⟨(hsave hdistinct).trans
    (hw.trans (Writes.quiet (.clients (.modify (fun _ _ => rfl) fun _ _ => rfl) ?_))), rfl⟩
  exact .modify (fun _ _ => rfl) fun _ _ => rfl

theorem dropStale_mandates (db : DB) (client : Pk) (stale : List Pk) {k : Pk} {m : Mandate}
    (h : (db.dropStale client stale).mandates.row k = some m) :
    ∃ m₀ c, db.mandates.row k = some m₀ ∧ m = { m₀ with issuingClient := c } := by
  obtain ⟨m₁, hm₁, rfl⟩ := (delete_shrinks (db.reissue stale client) .client _ none).mandates.2 k m h
  obtain ⟨m₀, hm₀, rfl⟩ := updateWhere_row_eq_some.mp hm₁
  split
  · exact ⟨m₀, _, hm₀, rfl⟩
  · exact ⟨m₀, m₀.issuingClient, hm₀, rfl⟩

theorem rebind_writes {pk membership user : Pk} {stale : List Pk} {c₀ bound : Client} {m : Membership}
    {manifest : Manifest} {declined : List String} (hstale : pk ∉ stale) (hc : db.clients.row pk = some c₀)
    (hm : db.memberships.row membership = some m)
    (hsave : ∀ e, Prepared db e pk membership c₀ → e.Distinct pk bound →
      Writes A e { e with clients := e.clients.put pk bound })
    (h : (db.dropStale pk stale).installClient pk bound manifest user m.organization declined = .ok d) :
    Writes A db d ∧ ∀ k x, d.mandates.row k = some x → ∃ x₀ c, db.mandates.row k = some x₀
      ∧ x = { x₀ with issuingClient := c } := by
  have hprepared := dropStale_prepared hstale hc hm
  have hmandates := @dropStale_mandates db pk stale
  have hdrop : Writes A db (db.dropStale pk stale) := dropStale_writes pk stale
  generalize db.dropStale pk stale = e at h hprepared hmandates hdrop
  obtain ⟨hw, heq⟩ := installClient_writes (hsave e hprepared) h
  exact ⟨hdrop.trans hw, fun k x hx => hmandates (heq ▸ hx)⟩

theorem bindClient_writes {env : Env} {pk membership : Pk} {c c₀ : Client} {manifest : Manifest}
    {hub mandate : Option Pk} {declined : List String} (hc : db.clients.row pk = some c₀)
    (hid : c.clientId = c₀.clientId) (hgrants : c.grantTypes = c₀.grantTypes)
    (hsave : ∀ e c' m, Prepared db e pk membership c₀ → db.memberships.row membership = some m →
      c'.clientId = c₀.clientId → c'.binding.grants = c₀.binding.grants → c'.membership = some membership →
      c'.mandate = mandate → c'.hub = hub → c'.organization = some m.organization → e.Distinct pk c' →
      Writes A e { e with clients := e.clients.put pk c' })
    (h : db.bindClient env pk c manifest membership hub declined mandate = .ok d) :
    Writes A db d ∧ ∀ k x, d.mandates.row k = some x → ∃ x₀ c, db.mandates.row k = some x₀
      ∧ x = { x₀ with issuingClient := c } := by
  simp only [bindClient, bind_ok, Table.get_ok, require_ok, exists_unit] at h
  obtain ⟨m, hm, o, -, -, -, h⟩ := h
  have hdevice : Writes A db (db.deviceOf env manifest.deviceId m.organization).1 := deviceOf_writes _ _ _
  have hclients : (db.deviceOf env manifest.deviceId m.organization).1.clients = db.clients :=
    deviceOf_clients _ _ _
  have hmemberships : (db.deviceOf env manifest.deviceId m.organization).1.memberships = db.memberships :=
    deviceOf_memberships _ _ _
  have hhubs : (db.deviceOf env manifest.deviceId m.organization).1.hubs = db.hubs := deviceOf_hubs _ _ _
  have hmandates : (db.deviceOf env manifest.deviceId m.organization).1.mandates = db.mandates :=
    deviceOf_mandates _ _ _
  generalize db.deviceOf env manifest.deviceId m.organization = r
    at h hdevice hclients hmemberships hhubs hmandates
  obtain ⟨e, node⟩ := r
  dsimp only at h hdevice hclients hmemberships hhubs hmandates
  refine (rebind_writes (fun hmem => mem_staleClients hmem rfl) (hclients ▸ hc) (hmemberships ▸ hm)
    (fun x hx hdistinct => ?_) h).imp hdevice.trans (hmandates ▸ ·)
  refine hsave x _ m ⟨hx.client, hmemberships ▸ hx.membership, hhubs ▸ hx.hubs, hmandates ▸ hx.mandates⟩ hm hid ?_
    rfl rfl rfl rfl hdistinct
  simp only [Client.binding, hid, hgrants]

theorem installClient_row {pk user organization : Pk} {bound : Client} {manifest : Manifest}
    {declined : List String}
    (h : db.installClient pk bound manifest user organization declined = .ok d) :
    ∃ l held scope, d.clients.row pk = some { bound with statuses := l, scopes := held, scope := scope } := by
  simp only [installClient, saveClient, bind_ok, require_ok, exists_unit, pure_ok] at h
  obtain ⟨_, ⟨-, rfl⟩, e, he, rfl⟩ := h
  obtain ⟨-, _, _, rfl, hclients⟩ := autoCompose_writes (A := .free) ⟨bound, by rw [put_row, if_pos rfl], rfl⟩ he
  obtain ⟨c', hc', l, rfl⟩ := hclients.after
    (show (db.clients.put pk bound).row pk = some bound by rw [put_row, if_pos rfl])
  exact ⟨l, _, _, modify_row_eq_some.mpr (.inr ⟨rfl, _, hc', rfl⟩)⟩

/-- Binding a client installs it where the ones it replaces were dropped, on a device that may be new. -/
theorem bindClient_installs {env : Env} {pk membership : Pk} {c : Client} {manifest : Manifest}
    {hub mandate : Option Pk}
    {declined : List String} (h : db.bindClient env pk c manifest membership hub declined mandate = .ok d) :
    ∃ m t node stale, db.memberships.row membership = some m ∧ pk ∉ stale ∧
      (({ db with devices := t } : DB).dropStale pk stale).installClient pk
        { c with mandate, manifestHash := env.hashManifest manifest, membership := some membership,
                 organization := some m.organization, release :=
                 some ⟨m.organization, manifest.identifier, manifest.version⟩,
                 hub, node, manifest := some manifest } manifest m.user m.organization declined = .ok d := by
  simp only [bindClient, bind_ok, Table.get_ok, require_ok, exists_unit] at h
  obtain ⟨m, hm, o, -, -, -, h⟩ := h
  obtain ⟨t, ht, -⟩ := deviceOf_eq db env manifest.deviceId m.organization
  rw [ht] at h
  exact ⟨m, t, _, _, hm, fun hmem => mem_staleClients hmem rfl, h⟩

/-- The client then speaks for the membership, in the hub, under the mandate or under none. -/
theorem bindClient_row {env : Env} {pk membership : Pk} {c : Client} {manifest : Manifest}
    {hub mandate : Option Pk}
    {declined : List String} (h : db.bindClient env pk c manifest membership hub declined mandate = .ok d) :
    ∃ c' m, d.clients.row pk = some c' ∧ db.memberships.row membership = some m ∧ c'.membership = some membership
      ∧ c'.release = some ⟨m.organization, manifest.identifier, manifest.version⟩ ∧ c'.hub = hub
      ∧ c'.mandate = mandate
      ∧ c'.clientId = c.clientId ∧ c'.createdAt = c.createdAt ∧ c'.grantTypes = c.grantTypes := by
  simp only [bindClient, bind_ok, Table.get_ok, require_ok, exists_unit] at h
  obtain ⟨m, hm, o, -, -, -, h⟩ := h
  obtain ⟨_, _, _, hrow⟩ := installClient_row h
  exact ⟨_, m, hrow, hm, rfl, rfl, rfl, rfl, rfl, rfl, rfl⟩

theorem bindClient_app_writes {env : Env} {pk membership hub : Pk} {c₀ c : Client} {manifest : Manifest}
    {declined : List String} (hc : db.clients.row pk = some c₀) (hid : c.clientId = c₀.clientId)
    (hgrants : c.grantTypes = c₀.grantTypes)
    (hhub : ∀ h m, db.hubs.row hub = some h → db.memberships.row membership = some m →
      h.organization = m.organization)
    (hA : A.bind c₀.binding membership)
    (h : db.bindClient env pk c manifest membership (some hub) declined none = .ok d) : Writes A db d := by
  refine (bindClient_writes hc hid hgrants ?_ h).1
  intro e c' m hprepared hrow hid' hgrants' hm hmandate hhub' ho _
  obtain ⟨c₁, hc₁, hbinding⟩ := hprepared.client
  have hid₁ : c₁.clientId = c₀.clientId := congrArg Binding.clientId hbinding
  have hgrants₁ : c₁.binding.grants = c₀.binding.grants := congrArg Binding.grants hbinding
  refine Via.single (.bindApp hc₁ (hid'.trans hid₁.symm) (hgrants'.trans hgrants₁.symm) (.inl hmandate) hm ho
    (hprepared.membership_of hrow)
    (.inr fun k x hk hx => ?_) (.inl hmandate)) ?_
  · rw [hhub'] at hk
    cases hk
    obtain ⟨h₀, hh₀, horg⟩ := hprepared.hubs _ x hx
    rw [← horg, hhub h₀ m hh₀ hrow]
  · show A.bind c₁.binding membership
    rw [hbinding]
    exact hA

theorem bindClient_keyed_writes {env : Env} {pk M : Pk} {c₀ c : Client} {manifest : Manifest} {mandate : Mandate}
    {declined : List String} (hc : db.clients.row pk = some c₀) (hid : c.clientId = c₀.clientId)
    (hgrants : c.grantTypes = c₀.grantTypes) (hM : db.mandates.row M = some mandate)
    (hbefore : c₀.membership = none ∧ c₀.binding.keyed = true
      ∨ ∃ old o, c₀.mandate = some old ∧ db.mandates.row old = some o ∧ o.membership = mandate.membership)
    (hlive : mandate.revokedAt = none) (hA : A.login)
    (h : db.bindClient env pk c manifest mandate.membership (some mandate.hub) declined (some M) = .ok d) :
    Writes A db d ∧ ∀ k x, d.mandates.row k = some x → ∃ x₀ c, db.mandates.row k = some x₀
      ∧ x = { x₀ with issuingClient := c } := by
  refine bindClient_writes hc hid hgrants
    (fun e c' m hprepared hrow hid' hgrants' hm hmandate hhub' ho hdistinct => ?_) h
  obtain ⟨c₁, hc₁, hbinding⟩ := hprepared.client
  have hid₁ : c₁.clientId = c₀.clientId := congrArg Binding.clientId hbinding
  have hm₁ : c₁.membership = c₀.membership := congrArg Binding.membership hbinding
  have hmandate₁ : c₁.mandate = c₀.mandate := congrArg Binding.mandate hbinding
  obtain ⟨i, hM'⟩ := hprepared.mandates M mandate hM
  obtain ⟨g, hg, hgo⟩ := hprepared.membership_of hrow
  have hgrants₁ : c₁.binding.grants = c₀.binding.grants := congrArg Binding.grants hbinding
  refine Via.single (.bindKeyed hc₁ (hid'.trans hid₁.symm) (hgrants'.trans hgrants₁.symm) hmandate hM' hm
    ⟨g, hg, hgo ▸ ho⟩ hhub' ?_
    (fun k x hk hx hxM hnode => ?_) hlive) hA
  · rw [hm₁, hmandate₁, hbinding]
    refine hbefore.imp_right ?_
    rintro ⟨old, x, hold, hx, hxm⟩
    obtain ⟨j, hx'⟩ := hprepared.mandates old x hx
    exact ⟨old, _, hold, hx', hxm⟩
  · have hother := hdistinct k x hk hx
    simp [sameIdentity, hmandate, hxM, hnode] at hother

end DB

end Lok
