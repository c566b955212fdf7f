import Lok.MandateWrites

/-!
# Writes of the hub functions

Services come and go with the roles and scopes they declare, and none of that touches the
hub itself. A mandate that a hub or the config keeps is resettled once the clients of
another grantor are gone; the licence names the hashes of the proposed keys.
-/

namespace Lok

open Table Runs Checks

namespace DB

variable {A : Licence} {db d : DB} {env : Env}

/-- The hub is there, and the organization's. -/
def HubIn (db : DB) (hub organization : Pk) : Prop := ∃ h, db.hubs.row hub = some h ∧ h.organization = organization

/-- The membership is there, and in the organization. -/
def MemberIn (db : DB) (membership organization : Pk) : Prop :=
  ∃ m, db.memberships.row membership = some m ∧ m.organization = organization

/-! ## Roles and scopes of a service -/

section

variable (instance_ organization : Pk)

theorem declareRole_writes (r : RoleDeclaration) : Writes A db (declareRole instance_ organization db r) := by
  unfold declareRole
  split
  · exact Writes.quiet (.roles (.modify (fun _ _ => ⟨rfl, rfl⟩) fun _ _ => ⟨rfl, rfl⟩))
  · exact Writes.quiet (.newRole _)

theorem declareScope_writes (s : ScopeDeclaration) : Writes A db (declareScope instance_ organization db s) := by
  unfold declareScope
  split
  · exact Writes.quiet (.scopes (.modify (fun _ _ => ⟨rfl, rfl⟩) fun _ _ => ⟨rfl, rfl⟩))
  · exact Writes.quiet (.newScope _)

theorem undeclareRole_writes (role : Pk) : Writes A db (undeclareRole instance_ db role) := by
  have hroles : Writes A db
    { db with roles := db.roles.modify role fun x => { x with usedBy := removePks x.usedBy [instance_] } } :=
    Writes.quiet (.roles (.modify (fun _ _ => ⟨rfl, rfl⟩) fun _ _ => ⟨rfl, rfl⟩))
  unfold undeclareRole
  dsimp only
  split
  · exact hroles.trans Writes.delete
  · exact hroles

theorem undeclareScope_writes (scope : Pk) : Writes A db (undeclareScope instance_ db scope) := by
  have hscopes : Writes A db
    { db with scopes := db.scopes.modify scope fun x => { x with usedBy := removePks x.usedBy [instance_] } } :=
    Writes.quiet (.scopes (.modify (fun _ _ => ⟨rfl, rfl⟩) fun _ _ => ⟨rfl, rfl⟩))
  unfold undeclareScope
  dsimp only
  split
  · exact hscopes.trans Writes.delete
  · exact hscopes

theorem registerPermissions_writes (roles : List RoleDeclaration) (scopes : List ScopeDeclaration) :
    Writes A db (db.registerPermissions instance_ organization roles scopes) :=
  (Via.foldl fun _ _ _ => declareRole_writes _ _ _).trans ((Via.foldl fun _ _ _ => declareScope_writes _ _ _).trans
    ((Via.foldl fun _ _ _ => undeclareRole_writes _ _).trans
      ((Via.foldl fun _ _ _ => undeclareScope_writes _ _).trans
      (syncOrganization_writes _))))

end

/-! ## What leaves a hub where it is -/

section

variable {hub o : Pk}

theorem HubIn.delete {S : List Model} (h : HubIn db hub o) (hS : Within S) {roots : List Ref}
    (hroots : ∀ r ∈ roots, r.model ∈ S) (hguests : .grant ∈ S → .membership ∈ S) (hhub : .hub ∉ S) {origin : Model}
    {upgrading : Option Pk} : HubIn (db.delete origin roots upgrading) hub o := by
  obtain ⟨x, hx, rfl⟩ := h
  exact delete_hub hS hroots hguests (fun h => absurd h hhub) hhub hx

theorem HubIn.registerPermissions (h : HubIn db hub o) (instance_ organization : Pk) (roles : List RoleDeclaration)
    (scopes : List ScopeDeclaration) :
    HubIn (db.registerPermissions instance_ organization roles scopes) hub o := by
  have hdeclareRole : ∀ (d : DB) r, HubIn d hub o → HubIn (declareRole instance_ organization d r) hub o := by
    intro d r hd
    unfold declareRole
    split <;> exact hd
  have hdeclareScope : ∀ (d : DB) s, HubIn d hub o → HubIn (declareScope instance_ organization d s) hub o := by
    intro d s hd
    unfold declareScope
    split <;> exact hd
  have hundeclareRole : ∀ (d : DB) r, HubIn d hub o → HubIn (undeclareRole instance_ d r) hub o := by
    intro d r hd
    unfold undeclareRole
    dsimp only
    split
    · refine HubIn.delete (S := [.role, .roleRequest]) ?_ (by decide) (by simp) (by simp) (by simp)
      exact hd
    · exact hd
  have hundeclareScope : ∀ (d : DB) s, HubIn d hub o → HubIn (undeclareScope instance_ d s) hub o := by
    intro d s hd
    unfold undeclareScope
    dsimp only
    split
    · refine HubIn.delete (S := [.scope]) ?_ (by decide) (by simp) (by simp) (by simp)
      exact hd
    · exact hd
  unfold DB.registerPermissions
  obtain ⟨t, ht⟩ := syncServiceRoles_eq _ _
  rw [syncOrganization, ht]
  exact foldl_invariant (fun s _ d => hundeclareScope d s) (foldl_invariant (fun r _ d => hundeclareRole d r)
    (foldl_invariant (fun s _ d => hdeclareScope d s) (foldl_invariant (fun r _ d => hdeclareRole d r) h)))

end

/-! ## Mandates edited in place -/

theorem dropClientsOf_writes (mandate : Pk) : Writes A db (db.dropClientsOf mandate) :=
  Writes.delete

theorem dropClientsOf_clients {mandate k : Pk} {c : Client}
    (h : (db.dropClientsOf mandate).clients.row k = some c) :
    c.mandate ≠ some mandate := by
  intro hc
  obtain ⟨c₀, hc₀, _, _, rfl⟩ := (delete_shrinks db .client _ none).clients.2 k c h
  have hroot : (⟨.client, k⟩ : Ref) ∈ (db.clients.pks fun _ c => c.mandate == some mandate).map
    fun c => (⟨.client, c⟩ : Ref) :=
    List.mem_map.mpr ⟨k, mem_pks.mpr ⟨c₀, hc₀, by simpa using hc⟩, rfl⟩
  exact delete_not_has hroot ⟨_, h⟩

theorem resettle_writes {pk : Pk} {current : Mandate} {drop : Bool} {f : Mandate → Mandate}
    (hrow : db.mandates.row pk = some current) (hown : current.origin = .hub ∨ current.configName.isSome = true)
    (hsame : ∃ g o h pin t n mesh,
      f current = { current with membership := g, organization := o, hub := h, pin := pin,
                                                              expiresAt := t, maxClients := n, allowMesh := mesh })
    (hdrop : drop = false → (f current).membership = current.membership ∧ (f current).hub = current.hub)
    (horg : ∃ o, MemberIn db (f current).membership o ∧ HubIn db (f current).hub o
      ∧ ((f current).organization = o ∨ (f current).hub = current.hub
        ∧ (f current).organization = current.organization)) :
    Writes A db { (if drop then db.dropClientsOf pk else db) with
      mandates := (if drop then db.dropClientsOf pk else db).mandates.modify pk f } := by
  obtain ⟨o, ⟨g, hg, hgo⟩, ⟨h, hh, hho⟩, horg⟩ := horg
  cases drop with
  | false =>
    refine Writes.quiet (.resettle (.modify (fun _ _ => .inl rfl) fun m hm => .inr ⟨rfl, ?_⟩))
    have hm : db.mandates.row pk = some m := hm
    rw [hrow] at hm
    cases hm
    exact ⟨hown, hsame, ⟨g, h, hg, hh, hgo.trans hho.symm, hho ▸ horg⟩, .inl (hdrop rfl)⟩
  | true =>
    refine (dropClientsOf_writes pk).trans
      (Writes.quiet (.resettle (.modify (fun _ _ => .inl rfl) fun m hm => .inr ⟨rfl, ?_⟩)))
    obtain ⟨m₀, hm₀, rfl⟩ := (delete_shrinks db .client _ none).mandates.2 pk m hm
    rw [hrow] at hm₀
    cases hm₀
    obtain ⟨g', hg', -, hgo'⟩ := delete_clients_membership (db.clients.pks fun _ c => c.mandate == some pk) hg
    obtain ⟨h', hh', hho'⟩ := delete_clients_hub (db.clients.pks fun _ c => c.mandate == some pk) hh
    refine ⟨hown, hsame, ⟨g', h', hg', hh', ?_, ?_⟩, .inr fun k c hc => dropClientsOf_clients hc⟩
    · rw [hgo', hho', hgo, hho]
    · rw [hho', hho]
      exact horg

/-! ## Mandates of a hub's own apps -/

/-- A hub and a member of the same organization. -/
def Settled (db : DB) (hub membership o : Pk) : Prop := HubIn db hub o ∧ MemberIn db membership o

section

variable {hub grantor o : Pk}

theorem Settled.delete_clients (h : Settled db hub grantor o) (clients : List Pk) :
    Settled (db.delete .client (clients.map fun c => ⟨.client, c⟩) none) hub grantor o := by
  obtain ⟨⟨x, hx, rfl⟩, m, hm, ho⟩ := h
  obtain ⟨m', hm', -, ho'⟩ := delete_clients_membership clients hm
  exact ⟨delete_clients_hub clients hx, m', hm', ho'.trans ho⟩

theorem Settled.revokeMandate (h : Settled db hub grantor o) {mandate : Pk} {reason : MandateRevocation}
    (hd : db.revokeMandate mandate reason = .ok d) : Settled d hub grantor o := by
  simp only [DB.revokeMandate, bind_ok, Table.get_ok, pure_ok] at hd
  obtain ⟨m, -, rfl⟩ := hd
  unfold deleteClients
  refine Settled.delete_clients ?_ _
  exact h

theorem issueHubMandate_writes {auth : Bool} {request : ClientRequest}
    (hA : A.issue (env.hashKey request.mandateKey))
    (h : db.issueHubMandate env hub grantor auth request = .ok d) :
    Writes A db d ∧ (Settled db hub grantor o → Settled d hub grantor o) := by
  simp only [issueHubMandate, map_ok] at h
  obtain ⟨r, hr, rfl⟩ := h
  refine ⟨issueMandate_writes (by simpa [claimedHash] using hA) hr, fun hs => ?_⟩
  obtain ⟨t, m, -, heq, -⟩ := issueMandate_ok hr
  rw [heq]
  exact hs

theorem keepHubMandate_writes {pk : Pk} {current : Mandate} {auth : Bool} {request : ClientRequest}
    (hcurrent : db.currentHubMandate hub request.identifier = some (pk, current)) (hs : Settled db hub grantor o) :
    Writes A db (db.keepHubMandate pk current grantor auth request)
      ∧ Settled (db.keepHubMandate pk current grantor auth request) hub grantor o := by
  obtain ⟨hrow, hp⟩ := first_eq_some hcurrent
  simp only [Bool.and_eq_true, beq_iff_eq] at hp
  refine ⟨resettle_writes hrow (.inl hp.1.1.2) ⟨_, _, _, _, _, _, _, rfl⟩
    (fun h => ⟨by simpa using Eq.symm (by simpa using h), rfl⟩)
    ⟨o, hs.2, by rw [← hp.1.1.1] at hs; exact hs.1, .inr ⟨rfl, rfl⟩⟩, ?_⟩
  unfold keepHubMandate
  dsimp only
  split
  · exact Settled.delete_clients hs _
  · exact hs

theorem ensureHubMandate_writes {auth : Bool} {request : ClientRequest}
    (hA : A.issue (env.hashKey request.mandateKey))
    (hs : Settled db hub grantor o) (h : ensureHubMandate env hub grantor auth db request = .ok d) :
    Writes A db d ∧ Settled d hub grantor o := by
  unfold ensureHubMandate at h
  split at h
  · rename_i pk current hcurrent
    split at h
    · cases h
      exact keepHubMandate_writes hcurrent hs
    · split at h
      · cases h
        exact ⟨.refl _, hs⟩
      · simp only [bind_ok] at h
        obtain ⟨e, he, h⟩ := h
        obtain ⟨hw, hd⟩ := issueHubMandate_writes hA h
        exact ⟨(revokeMandate_writes he).trans hw, hd (hs.revokeMandate he)⟩
  · split at h
    · cases h
      exact ⟨.refl _, hs⟩
    · obtain ⟨hw, hd⟩ := issueHubMandate_writes hA h
      exact ⟨hw, hd hs⟩

theorem revokeAll_writes {reason : MandateRevocation} {mandates : List Pk}
    (h : db.revokeAll reason mandates = .ok d) :
    Writes A db d ∧ (Settled db hub grantor o → Settled d hub grantor o) :=
  foldlM_ok (R := fun s t : DB => Writes A s t ∧ (Settled s hub grantor o → Settled t hub grantor o))
    (fun _ => ⟨.refl _, id⟩) (fun hst htu => ⟨hst.1.trans htu.1, htu.2 ∘ hst.2⟩)
    (fun _ _ _ _ h => ⟨revokeMandate_writes h, fun hs => hs.revokeMandate h⟩) h

theorem ensureHubMandates_writes {manifest : HubManifest}
    (hA : ∀ r ∈ manifest.clients, A.issue (env.hashKey r.mandateKey))
    (hs : Settled db hub grantor o) (h : db.ensureHubMandates env hub manifest grantor = .ok d) :
    Writes A db d ∧ Settled d hub grantor o := by
  simp only [ensureHubMandates, bind_ok] at h
  obtain ⟨e, he, h⟩ := h
  have hR := foldlM_ok (R := fun s t : DB => Settled s hub grantor o → Writes A s t ∧ Settled t hub grantor o)
    (fun _ hs => ⟨.refl _, hs⟩)
    (fun hst htu hs => ⟨(hst hs).1.trans (htu (hst hs).2).1, (htu (hst hs).2).2⟩)
    (fun r hr s t hst hs => ensureHubMandate_writes (hA r hr) hs hst) he
  obtain ⟨hw, hs'⟩ := hR hs
  obtain ⟨hw', hd⟩ := revokeAll_writes h
  exact ⟨hw.trans hw', hd hs'⟩

end

/-! ## Services of a hub -/

section

variable {hub o : Pk}

theorem getOrCreateHub_writes (db : DB) (organization : Pk) (manifest : HubManifest) (creator : Pk) :
    Writes A db (db.getOrCreateHub organization manifest creator).1
      ∧ HubIn (db.getOrCreateHub organization manifest creator).1
      (db.getOrCreateHub organization manifest creator).2
        organization := by
  unfold getOrCreateHub
  split
  · rename_i pk x hfirst
    obtain ⟨hx, hp⟩ := first_eq_some hfirst
    simp only [Bool.and_eq_true, beq_iff_eq] at hp
    refine ⟨Writes.quiet (.hubs (.modify (fun _ _ => ⟨rfl, rfl⟩) fun _ _ => ⟨rfl, rfl⟩)), ?_⟩
    exact ⟨_, modify_row_eq_some.mpr (.inr ⟨rfl, x, hx, rfl⟩), hp.1⟩
  · exact ⟨Writes.quiet (.newHub _ rfl), _, insert_row_next _ _, rfl⟩

theorem dropInstances_writes (hs : HubIn db hub o) (manifest : HubManifest) :
    Writes A db (db.dropInstances hub manifest) ∧ HubIn (db.dropInstances hub manifest) hub o := by
  refine ⟨Writes.delete, ?_⟩
  exact hs.delete withInstances_within (by simp [withInstances]) (by simp [withInstances, withMemberships])
    (by simp [withInstances, withMemberships])

/-- An instance of the hub, made or updated in place, with the roles and scopes it declares. -/
theorem insertInstance_writes {i : ServiceInstance} (hs : HubIn db hub o) (hhub : i.hub = hub)
    (ho : i.organization = o)
    (hd : d = { db with instances := db.instances.insert i }) (pk : Pk) (roles : List RoleDeclaration)
    (scopes : List ScopeDeclaration) :
    Writes A db (d.registerPermissions pk o roles scopes)
    ∧ HubIn (d.registerPermissions pk o roles scopes) hub o := by
  obtain ⟨h, hh, hho⟩ := id hs
  have hw : Writes A db d := hd ▸ Writes.quiet (.newInstance i (hhub ▸ hh) (hho.trans ho.symm))
  have hs' : HubIn d hub o := hd ▸ hs
  exact ⟨hw.trans (registerPermissions_writes _ _ _ _), hs'.registerPermissions _ _ _ _⟩

theorem updateInstance_writes {k pk : Pk} {i : ServiceInstance} {f : ServiceInstance → ServiceInstance}
    (hs : HubIn db hub o) (hi : db.instances.row k = some i) (hhub : i.hub = hub)
    (hf : ∀ x, (f x).hub = x.hub ∧ ((f x).organization = x.organization ∨ (f x).organization = o))
    (hd : d = { db with instances := db.instances.modify k f }) (roles : List RoleDeclaration)
    (scopes : List ScopeDeclaration) :
    Writes A db (d.registerPermissions pk o roles scopes)
    ∧ HubIn (d.registerPermissions pk o roles scopes) hub o := by
  obtain ⟨h, hh, hho⟩ := id hs
  have hw : Writes A db d := hd ▸ Writes.quiet (.instances (.modify (fun _ _ => ⟨rfl, .inl rfl⟩) fun x hx => by
    rw [hi] at hx
    cases hx
    exact ⟨(hf i).1, (hf i).2.imp_right fun h' => ⟨h, hhub ▸ hh, h'.trans hho.symm⟩⟩))
  have hs' : HubIn d hub o := hd ▸ hs
  exact ⟨hw.trans (registerPermissions_writes _ _ _ _), hs'.registerPermissions _ _ _ _⟩

theorem provisionInstance_writes (hs : HubIn db hub o) (steward : Pk) (r : InstanceRequest) :
    Writes A db (provisionInstance env hub o steward db r)
    ∧ HubIn (provisionInstance env hub o steward db r) hub o := by
  have hw : Writes A db (db.deviceOf env r.deviceId o).1 := deviceOf_writes _ _ _
  have hd : HubIn (db.deviceOf env r.deviceId o).1 hub o := by
    rw [HubIn, deviceOf_hubs]
    exact hs
  unfold provisionInstance
  generalize db.deviceOf env r.deviceId o = e at hw hd
  dsimp only
  split
  · rename_i pk i hfirst
    obtain ⟨hi, hp⟩ := first_eq_some hfirst
    simp only [Bool.and_eq_true, beq_iff_eq] at hp
    refine (updateInstance_writes hd hi hp.1 ?_ rfl _ _).imp_left hw.trans
    exact fun _ => ⟨rfl, .inl rfl⟩
  · refine (insertInstance_writes hd ?_ ?_ rfl _ _ _).imp_left hw.trans <;> rfl

theorem keepInstance_writes (hs : HubIn db hub o) (owner : Pk) (key : Option String) (r : InstanceRequest) :
    Writes A db (db.keepInstance hub o owner key r).1 ∧ HubIn (db.keepInstance hub o owner key r).1 hub o := by
  obtain ⟨h, hh, hho⟩ := id hs
  unfold keepInstance
  split
  · rename_i pk i hfirst
    obtain ⟨hi, hp⟩ := first_eq_some hfirst
    simp only [Bool.and_eq_true, beq_iff_eq] at hp
    refine ⟨Writes.quiet (.instances (.modify (fun _ _ => ⟨rfl, .inl rfl⟩) fun x hx => ⟨rfl, .inr ?_⟩)), hs⟩
    rw [hi] at hx
    cases hx
    exact ⟨h, hp.1 ▸ hh, hho.symm⟩
  · exact ⟨Writes.quiet (.newInstance _ hh hho), hs⟩

theorem configureInstance_writes (hs : HubIn db hub o) (owner : Pk) (r : InstanceRequest) :
    Writes A db (db.configureInstance hub o owner r).1 ∧ HubIn (db.configureInstance hub o owner r).1 hub o := by
  unfold configureInstance
  split
  · exact keepInstance_writes hs owner none r
  · obtain ⟨hw, hd⟩ := keepInstance_writes (A := A) hs owner (given r.challengeKey) r
    generalize db.keepInstance hub o owner (given r.challengeKey) r = e at hw hd
    obtain ⟨d, pk⟩ := e
    dsimp only at hw hd ⊢
    exact ⟨hw.trans (registerPermissions_writes _ _ _ _), hd.registerPermissions _ _ _ _⟩

theorem configureInstances_writes (owner : Pk) (l : List InstanceRequest) : ∀ {db : DB}, HubIn db hub o →
    Writes A db (configureInstances hub o owner l db).1 := by
  induction l with
  | nil => exact fun {db} _ => .refl db
  | cons r rest ih =>
    intro db hs
    obtain ⟨hw, hd⟩ := configureInstance_writes (A := A) hs owner r
    unfold configureInstances
    split
    · rename_i d hconfigured
      rw [hconfigured] at hw hd
      exact hw.trans (ih hd)
    · rename_i d e hconfigured
      rw [hconfigured] at hw
      exact hw

/-- Where no key is refused, the loop over the services is what each of them does. -/
theorem provisionService_foldl {steward organization : Pk} {l : List InstanceRequest}
    (h : l.foldlM (provisionService env hub organization steward) db = .ok d) :
    d = l.foldl (provisionInstance env hub organization steward) db := by
  induction l generalizing db with
  | nil => exact (pure_ok.mp h).symm
  | cons r rest ih =>
    rw [List.foldlM_cons, bind_ok] at h
    obtain ⟨e, he, h⟩ := h
    simp only [provisionService, bind_ok, pure_ok] at he
    obtain ⟨-, -, rfl⟩ := he
    exact ih h

theorem instances_writes {f : DB → InstanceRequest → DB}
    (hf : ∀ d r, HubIn d hub o → Writes A d (f d r) ∧ HubIn (f d r) hub o)
    (hs : HubIn db hub o) (l : List InstanceRequest) : Writes A db (l.foldl f db) ∧ HubIn (l.foldl f db) hub o :=
  ⟨Via.foldl_of (fun r _ d hd => hf d r hd) hs, foldl_invariant (fun r _ d hd => (hf d r hd).2) hs⟩

theorem configureHub_writes {organization : Pk} {manifest : HubManifest} :
    Writes A db (db.configureHub env organization manifest).1 := by
  unfold configureHub
  split
  · exact .refl db
  · rename_i x _
    obtain ⟨hw, hs⟩ := getOrCreateHub_writes (A := A) db organization manifest x.owner
    generalize db.getOrCreateHub organization manifest x.owner = e at hw hs
    obtain ⟨e, hub⟩ := e
    dsimp only at hw hs ⊢
    have hw' : Writes A e { e with hubs := e.hubs.modify hub fun h => { h with creator := x.owner } } :=
      Writes.quiet (.hubs (.modify (fun _ _ => ⟨rfl, rfl⟩) fun _ _ => ⟨rfl, rfl⟩))
    have hs' : HubIn { e with hubs := e.hubs.modify hub fun h => { h with creator := x.owner } } hub
      organization := by
      obtain ⟨y, hy, ho⟩ := hs
      exact ⟨_, modify_row_eq_some.mpr (.inr ⟨rfl, y, hy, rfl⟩), ho⟩
    split
    · exact hw.trans hw'
    · obtain ⟨hw₂, hs₂⟩ := dropInstances_writes (A := A) hs' manifest
      exact hw.trans (hw'.trans (hw₂.trans (configureInstances_writes x.owner _ hs₂)))

end

/-! ## The config -/

theorem membershipOf_some {user organization : Pk} {r : Pk × Membership}
    (h : db.membershipOf user organization = some r) :
    db.memberships.row r.1 = some r.2 ∧ r.2.user = user ∧ r.2.organization = organization := by
  obtain ⟨hrow, hp⟩ := first_eq_some h
  simp only [Bool.and_eq_true, beq_iff_eq] at hp
  exact ⟨hrow, hp⟩

theorem configureHubMandates_writes {hub : Pk} {manifest : HubManifest}
    (hA : ∀ r ∈ manifest.clients, A.issue (env.hashKey r.mandateKey))
    (h : db.configureHubMandates env hub manifest = .ok d) : Writes A db d := by
  simp only [configureHubMandates, bind_ok, Table.get_ok, found_ok, Prod.exists] at h
  obtain ⟨x, hx, o, -, owner, m, hm, h⟩ := h
  obtain ⟨hrow, -, ho⟩ := membershipOf_some hm
  exact (ensureHubMandates_writes hA ⟨⟨x, hx, rfl⟩, m, hrow, ho⟩ h).1

theorem issueConfigMandate_writes {spec : MandateKeySettings} {membership hub : Pk} {pin : MandatePin}
    (hA : A.issue (env.hashKey spec.key)) (h : db.issueConfigMandate env spec membership hub pin = .ok d) :
    Writes A db d := by
  unfold issueConfigMandate at h
  split at h
  · cases h
    exact .refl _
  · simp only [map_ok] at h
    obtain ⟨r, hr, rfl⟩ := h
    exact issueMandate_writes (by simpa [claimedHash] using hA) hr

theorem keepConfigMandate_writes {spec : MandateKeySettings} {pk membership organization hub : Pk}
    {current : Mandate}
    (hrow : db.mandates.row pk = some current) (hname : current.configName.isSome = true)
    (hm : MemberIn db membership organization) (hh : HubIn db hub organization) :
    Writes A db (db.keepConfigMandate spec pk current membership organization hub) := by
  refine resettle_writes hrow (.inr hname) ⟨_, _, _, _, _, _, _, rfl⟩ (fun h => ?_)
    ⟨organization, hm, hh, .inl rfl⟩
  simp only [Bool.or_eq_false_iff, bne_eq_false_iff_eq] at h
  exact ⟨h.1.symm, h.2.symm⟩

theorem ensureConfigMandate_writes {spec : MandateKeySettings} (hA : A.issue (env.hashKey spec.key))
    (h : db.ensureConfigMandate env spec = .ok d) : Writes A db d := by
  simp only [ensureConfigMandate, bind_ok, Prod.exists] at h
  obtain ⟨membership, m, hm, hub, x, hx, h⟩ := h
  obtain ⟨hmrow, -⟩ := Table.one_ok hm
  obtain ⟨hxrow, hxp⟩ := Table.one_ok hx
  simp only [Bool.and_eq_true, beq_iff_eq] at hxp
  split at h
  · rename_i pk current hfirst
    obtain ⟨hrow, hp⟩ := first_eq_some hfirst
    simp only [Bool.and_eq_true, beq_iff_eq] at hp
    split at h
    · obtain rfl := pure_ok.mp h
      exact keepConfigMandate_writes hrow (by simp [hp.1]) ⟨m, hmrow, rfl⟩ ⟨x, hxrow, hxp.1⟩
    · simp only [bind_ok] at h
      obtain ⟨e, he, h⟩ := h
      exact (revokeMandate_writes he).trans (issueConfigMandate_writes hA h)
  · exact issueConfigMandate_writes hA h

theorem revokeDropped_writes (names : List String) : Writes A db (db.revokeDropped names).1 := revokeEach_writes

end DB

end Lok
