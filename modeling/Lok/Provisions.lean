import Lok.HubSteps
import Lok.Registrations
import Lok.RootMandates

/-!
# What provisioning a hub needs

The certificate and the challenge keys are checked, each app of the hub must get the scopes it asks
for, and the code's client must not be another hub's identity. Which of these fails can be told from
the state before: services and scopes only go by being left out of the manifest.
-/

namespace Lok

open Table Registry Checks

/-- The services of a hub by their names. -/
def ServiceInstance.view : View ServiceInstance := ⟨(·.hub), (·.instanceId), fun _ => none, fun _ => []⟩

/-- How a request is written to the service it names. -/
def ServiceInstance.writer (organization steward : Pk) (device : Option Pk) :
    Writer ServiceInstance.view InstanceRequest (String × String) where
  key := (·.name)
  word r := (r.service, r.version)
  reads i := (i.service, i.version)
  tell r i := { i with service := r.service, version := r.version, device, steward,
                       publicKey := (given r.challengeKey).or i.publicKey }
  make hub r :=
    { hub, instanceId := r.name, service := r.service, version := r.version, steward, organization, device,
      publicKey := given r.challengeKey, deniedUsers := [], deniedGroups := [], allowedUsers := [],
      allowedGroups := [] }
  same _ _ := ⟨rfl, rfl, rfl⟩
  home _ _ := rfl
  name _ _ := rfl
  tell_reads _ _ := rfl
  make_reads _ _ := rfl

namespace DB

variable {db d e : DB} {env : Env} {organization hub : Pk} {manifest : HubManifest}

/-- The hub of this uid, or else the one that is made next. -/
def hubOfUid (db : DB) (organization : Pk) (uid : String) : Pk :=
  (db.hubs.first fun _ h => h.organization == organization && h.uid == uid).elim db.hubs.next (·.1)

/-- A service of the hub has the key under this name. -/
def HoldsKey (db : DB) (hub : Pk) (name key : String) : Prop :=
  ∃ k i, db.instances.row k = some i ∧ i.hub = hub ∧ i.instanceId = name ∧ i.publicKey = some key

/-- A service of the hub that its manifest leaves out. -/
def LeftOff (db : DB) (hub : Pk) (manifest : HubManifest) (i : Pk) : Prop :=
  ∃ x, db.instances.row i = some x ∧ x.hub = hub ∧ ∀ r ∈ manifest.instances, r.name ≠ x.instanceId

/-- A service of the hub that its manifest names again. -/
def NamedAgain (db : DB) (hub : Pk) (manifest : HubManifest) (i : Pk) : Prop :=
  ∃ r ∈ manifest.instances, ∃ x, db.instanceNamed hub r.name = some (i, x)

/-- A scope none of the services declares: it goes with the one that made it, or once all who used it
dropped it. -/
def ScopeGoes (db : DB) (hub : Pk) (manifest : HubManifest) (k : Pk) (s : Scope) : Prop :=
  (∃ i, s.creatingInstance = some i ∧ db.LeftOff hub manifest i) ∨
    s.creatingInstance.isSome = true ∧ s.isBuiltin = false ∧ db.scopeIsHeld k s = false ∧
      (∃ i ∈ s.usedBy, db.NamedAgain hub manifest i)
        ∧ ∀ i ∈ s.usedBy, db.LeftOff hub manifest i ∨ db.NamedAgain hub manifest i

/-- No service of the manifest declares the scope, and the organization has none that stays. -/
def ScopeMissing (db : DB) (organization hub : Pk) (manifest : HubManifest) (identifier : String) : Prop :=
  (∀ r ∈ manifest.instances, ∀ s ∈ r.scopes, s.key ≠ identifier) ∧
    ∀ k s, db.scopes.row k = some s → s.organization = organization → s.identifier = identifier →
      db.ScopeGoes hub manifest k s

theorem getOrCreateHub_hub (db : DB) (creator : Pk) :
    (db.getOrCreateHub organization manifest creator).2 = db.hubOfUid organization manifest.uid := by
  unfold getOrCreateHub hubOfUid
  split <;> simp_all

/-! ## Challenge keys -/

/-- No malformed key came to a service. -/
def KeysFrom (db d : DB) : Prop :=
  ∀ hub name key, validateChallengeKey key ≠ .ok () → d.HoldsKey hub name key → db.HoldsKey hub name key

theorem KeysFrom.of_instances (h : d.instances = db.instances) : KeysFrom db d := by
  intro hub name key _ hholds
  rw [HoldsKey, h] at hholds
  exact hholds

theorem delete_keysFrom (origin : Model) (roots : List Ref) : KeysFrom db (db.delete origin roots none) := by
  rintro hub name key - ⟨k, i, hi, hhub, hname, hkey⟩
  obtain ⟨j, hj, _, _, rfl⟩ := (delete_shrinks db origin roots none).instances.2 k i hi
  exact ⟨k, j, hj, hhub, hname, hkey⟩

theorem checkChallengeKey_ok {r : InstanceRequest} (h : db.checkChallengeKey hub r = .ok ()) {key : String}
    (hkey : given r.challengeKey = some key) : validateChallengeKey key = .ok () ∨ db.HoldsKey hub r.name key := by
  rw [checkChallengeKey, hkey] at h
  simp only [whenSome] at h
  split at h
  · rename_i hany
    obtain ⟨⟨k, i⟩, hi, hp⟩ := (Option.any_eq_true _ _).mp hany
    obtain ⟨hrow, hfound⟩ := first_eq_some hi
    simp only [Bool.and_eq_true, beq_iff_eq] at hp hfound
    exact .inr ⟨k, i, hrow, hfound.1, hfound.2, hp⟩
  · exact .inl h

/-! ## One service -/

/-- The service a request names is written, or made; then it registers its roles and scopes. -/
theorem provisionInstance_eq (db : DB) (steward : Pk) (r : InstanceRequest) :
    ∃ pk t W, (∃ device, W = ServiceInstance.writer organization steward device) ∧
      (∃ x, ServiceInstance.view.find hub r.name (W.upsert hub db.instances r) = some (pk, x)) ∧
      provisionInstance env hub organization steward db r
        = ({ db with devices := t, instances := W.upsert hub db.instances r } : DB).registerPermissions pk
        organization r.roles
            r.scopes := by
  obtain ⟨t, ht, -⟩ := deviceOf_eq db env r.deviceId organization
  unfold provisionInstance
  generalize db.deviceOf env r.deviceId organization = s at ht
  obtain ⟨e, device⟩ := s
  dsimp only at ht ⊢
  subst ht
  cases hfind : db.instanceNamed hub r.name with
  | some found =>
    obtain ⟨pk, i⟩ := found
    have hfind' : ServiceInstance.view.find hub r.name db.instances = some (pk, i) := hfind
    refine ⟨pk, t, _, ⟨device, rfl⟩, ⟨_, Writer.upsert_find _ hfind'⟩, ?_⟩
    rw [Writer.upsert, show ServiceInstance.view.find hub
      ((ServiceInstance.writer organization steward device).key r) db.instances
      = some (pk, i) from hfind']
    rw [show ({ db with devices := t } : DB).instanceNamed hub r.name = some (pk, i) from hfind]
    rfl
  | none =>
    have hfind' : ServiceInstance.view.find hub r.name db.instances = none := hfind
    refine ⟨db.instances.next, t, _, ⟨device, rfl⟩, ⟨_, (Writer.upsert_find_none _ hfind').trans (if_pos rfl)⟩, ?_⟩
    rw [Writer.upsert, show ServiceInstance.view.find hub
      ((ServiceInstance.writer organization steward device).key r) db.instances
      = none from hfind']
    rw [show ({ db with devices := t } : DB).instanceNamed hub r.name = none from hfind]
    rfl

/-- What a service's turn does to the database. -/
structure Hosts (hub organization : Pk) (r : InstanceRequest) (pk : Pk) (db d : DB) : Prop where
  own : ∃ x, d.instanceNamed hub r.name = some (pk, x)
  named : ∀ name i x, db.instanceNamed hub name = some (i, x) → ∃ y, d.instanceNamed hub name = some (i, y)
  keys : db.checkChallengeKey hub r = .ok () → KeysFrom db d
  clients : d.clients = db.clients
  mandates : d.mandates = db.mandates
  hubs : d.hubs = db.hubs
  scopes : Registered Scope.view Scope.setUsers
    (fun k s => s.isBuiltin = false ∧ db.scopeIsHeld k s = false) pk organization
    (r.scopes.map (·.key)) db.scopes d.scopes

theorem provisionInstance_hosts (db : DB) (steward : Pk) (r : InstanceRequest) :
    ∃ pk, Hosts hub organization r pk db (provisionInstance env hub organization steward db r) := by
  obtain ⟨pk, t, W, ⟨device, hW⟩, hown, heq⟩ := @provisionInstance_eq env organization hub db steward r
  obtain ⟨hbesides, -, hscopes⟩ := registerPermissions_spec pk organization
    { db with devices := t, instances := W.upsert hub db.instances r } r.roles r.scopes
  obtain ⟨-, -, hregistered⟩ := registered_spec pk organization
    { db with devices := t, instances := W.upsert hub db.instances r } r.roles r.scopes
  rw [← heq] at hbesides hscopes
  rw [← hscopes] at hregistered
  generalize provisionInstance env hub organization steward db r = d at hbesides hregistered ⊢
  have hinstances : d.instances = W.upsert hub db.instances r := hbesides.instances
  refine ⟨pk, ?_, ?_, ?_, hbesides.clients, hbesides.mandates, hbesides.hubs, hregistered⟩
  · obtain ⟨x, hx⟩ := hown
    exact ⟨x, by rw [instanceNamed, hinstances]; exact hx⟩
  · intro name i x hx
    obtain ⟨y, hy⟩ : ∃ y, ServiceInstance.view.find hub name (W.upsert hub db.instances r) = some (i, y) :=
      ⟨_, W.upsert_find hx⟩
    exact ⟨y, by rw [instanceNamed, hinstances]; exact hy⟩
  · rintro hcheck hub' name key hbad ⟨k, y, hy, hhub, hname, hkey⟩
    have hgiven : given r.challengeKey = some key → hub' = hub → name = r.name → db.HoldsKey hub' name key := by
      rintro hgiven rfl rfl
      exact (checkChallengeKey_ok hcheck hgiven).resolve_left hbad
    rw [hinstances, hW, Writer.upsert] at hy
    split at hy
    · rename_i j x hfind
      obtain ⟨hx, hxhub, hxname⟩ := Writer.find_some hfind
      rcases modify_row_eq_some.mp hy with ⟨-, hy⟩ | ⟨rfl, z, hz, rfl⟩
      · exact ⟨k, y, hy, hhub, hname, hkey⟩
      · rw [hx] at hz
        cases hz
        rcases Option.or_eq_some_iff.mp hkey with hnew | ⟨-, hold⟩
        · exact hgiven hnew (hhub.symm.trans hxhub) (hname.symm.trans hxname)
        · exact ⟨k, x, hx, hhub, hname, hold⟩
    · rcases insert_row_eq_some.mp hy with ⟨rfl, rfl⟩ | hy
      · exact hgiven hkey hhub.symm hname.symm
      · exact ⟨k, y, hy, hhub, hname, hkey⟩

/-! ## All of them -/

section
variable {steward : Pk} {r : InstanceRequest} {l : List InstanceRequest}

theorem provisionService_hosts (h : provisionService env hub organization steward db r = .ok d) :
    db.checkChallengeKey hub r = .ok () ∧ ∃ pk, Hosts hub organization r pk db d := by
  simp only [provisionService, bind_ok, exists_unit, pure_ok] at h
  obtain ⟨hcheck, rfl⟩ := h
  exact ⟨hcheck, provisionInstance_hosts db steward r⟩

theorem provisionService_loop_same (h : l.foldlM (provisionService env hub organization steward) db = .ok d) :
    d.clients = db.clients ∧ d.mandates = db.mandates ∧ d.hubs = db.hubs := by
  induction l generalizing db with
  | nil =>
    cases pure_ok.mp h
    exact ⟨rfl, rfl, rfl⟩
  | cons r rest ih =>
    rw [List.foldlM_cons, bind_ok] at h
    obtain ⟨e, he, h⟩ := h
    obtain ⟨-, pk, hhosts⟩ := provisionService_hosts he
    obtain ⟨hclients, hmandates, hhubs⟩ := ih h
    exact ⟨hclients.trans hhosts.clients, hmandates.trans hhosts.mandates, hhubs.trans hhosts.hubs⟩

theorem provisionService_loop_keys (h : l.foldlM (provisionService env hub organization steward) db = .ok d)
    {key : String} (hr : r ∈ l) (hkey : given r.challengeKey = some key) :
    validateChallengeKey key = .ok () ∨ db.HoldsKey hub r.name key := by
  induction l generalizing db with
  | nil => cases hr
  | cons x rest ih =>
    rw [List.foldlM_cons, bind_ok] at h
    obtain ⟨e, he, h⟩ := h
    obtain ⟨hcheck, pk, hhosts⟩ := provisionService_hosts he
    rcases List.mem_cons.mp hr with rfl | hr
    · exact checkChallengeKey_ok hcheck hkey
    · by_cases hvalid : validateChallengeKey key = .ok ()
      · exact .inl hvalid
      · exact .inr (hhosts.keys hcheck _ _ _ hvalid ((ih h hr).resolve_left hvalid))

theorem scopeIsHeld_same (hclients : d.clients = db.clients) (hmandates : d.mandates = db.mandates) (k : Pk)
    (s : Scope) (users : List Pk) :
    d.scopeIsHeld k (Scope.setUsers s users) = db.scopeIsHeld k s := by
  unfold scopeIsHeld
  rw [hclients, hmandates]
  rfl

/-- A row of a scope that is not declared in the turn was there, and who drops it uses it no more. -/
theorem Hosts.scope {pk k : Pk} {b : Scope} (h : Hosts hub organization r pk db d) (hb : d.scopes.row k = some b)
    (ho : b.organization = organization) (hnone : ∀ s ∈ r.scopes, s.key ≠ b.identifier) :
    ∃ a users, db.scopes.row k = some a ∧ b = Scope.setUsers a users ∧ (∀ j ∈ users, j ∈ a.usedBy ∧ j ≠ pk) ∧
      (users = [] → a.usedBy = [] ∨ a.creatingInstance = none ∨ ¬ (a.isBuiltin = false
        ∧ db.scopeIsHeld k a = false)) := by
  have hnot : b.identifier ∉ r.scopes.map (·.key) := by
    rintro hmem
    obtain ⟨s, hs, hkey⟩ := List.mem_map.mp hmem
    exact hnone s hs hkey
  cases ha : db.scopes.row k with
  | none => exact absurd (h.scopes.new k b hb ha).1.2 hnot
  | some a =>
    rcases h.scopes.kept k a ha with ⟨b', hb', hsame, hothers, hown, hsaid, -, hempty⟩ | ⟨hgone, -⟩
    · rw [hb] at hb'
      cases hb'
      have hname : a.identifier = b.identifier := hsame.2.1.symm
      have hhome : a.organization = organization := hsame.1.symm.trans ho
      rcases hsaid with hat | ⟨users, rfl⟩
      · exact absurd (hname ▸ hat.2) hnot
      · refine ⟨a, users, rfl, rfl, fun j hj => ?_, hempty⟩
        have hne : j ≠ pk := by
          rintro rfl
          exact hnot (hown hj hhome)
        exact ⟨(hothers j hne).mp hj, hne⟩
    · rw [hb] at hgone
      cases hgone

/-- A row of a scope that is not declared was there, and none of the services uses it any more. -/
theorem provisionService_loop_scope (h : l.foldlM (provisionService env hub organization steward) db = .ok d)
    {k : Pk} {b : Scope} (hb : d.scopes.row k = some b) (ho : b.organization = organization)
    (hnone : ∀ r ∈ l, ∀ s ∈ r.scopes, s.key ≠ b.identifier) :
    ∃ a users, db.scopes.row k = some a ∧ b = Scope.setUsers a users ∧
      (∀ j ∈ users, j ∈ a.usedBy ∧ ∀ r ∈ l, ∀ x, db.instanceNamed hub r.name ≠ some (j, x)) ∧
      (users = [] → a.usedBy = [] ∨ a.creatingInstance = none ∨ ¬ (a.isBuiltin = false
        ∧ db.scopeIsHeld k a = false)) := by
  induction l generalizing db with
  | nil =>
    cases pure_ok.mp h
    exact ⟨b, b.usedBy, hb, rfl, fun j hj => ⟨hj, by simp⟩, .inl⟩
  | cons r rest ih =>
    rw [List.foldlM_cons, bind_ok] at h
    obtain ⟨e, he, h⟩ := h
    obtain ⟨-, pk, hhosts⟩ := provisionService_hosts he
    obtain ⟨a', users, ha', rfl, husers, hempty⟩ := ih h fun r' hr' => hnone r' (List.mem_cons_of_mem _ hr')
    obtain ⟨a, users', ha, rfl, husers', hempty'⟩ := hhosts.scope ha' ho (hnone r (List.mem_cons_self ..))
    refine ⟨a, users, ha, rfl, fun j hj => ?_, fun hnil => ?_⟩
    · obtain ⟨hj', hlater⟩ := husers j hj
      obtain ⟨hja, hne⟩ := husers' j hj'
      refine ⟨hja, fun r' hr' x hx => ?_⟩
      obtain ⟨y, hy⟩ := hhosts.named _ _ _ hx
      rcases List.mem_cons.mp hr' with rfl | hr'
      · obtain ⟨z, hz⟩ := hhosts.own
        rw [hy] at hz
        cases hz
        exact hne rfl
      · exact hlater r' hr' y hy
    · rcases hempty hnil with hnil' | hmaker | hfree
      · exact hempty' hnil'
      · exact .inr (.inl hmaker)
      · rw [scopeIsHeld_same hhosts.clients hhosts.mandates] at hfree
        exact .inr (.inr hfree)

end

/-! ## The services that are left out -/

theorem collect_instances {roots : List Ref} (hroots : ∀ r ∈ roots, r.model = .instance_) {i : Pk} :
    (⟨.instance_, i⟩ : Ref) ∈ db.collect roots ↔ (⟨.instance_, i⟩ : Ref) ∈ roots := by
  refine ⟨fun h => ?_, mem_collect_root⟩
  cases Closure.mem_closure.mp h with
  | root hr => exact hr
  | hangs _ hp hreached =>
    have hwithin : ∀ r ∈ roots, r.model ∈ withInstances := fun r hr => by simp [hroots r hr, withInstances]
    have hmodel := collect_within withInstances_within hwithin (Closure.mem_closure.mpr hreached)
    have hunder := hangsOn_under hp
    simp only [Model.under, List.mem_cons, List.not_mem_nil, or_false] at hunder
    rcases hunder with h | h | h | h <;> rw [h] at hmodel <;> simp [withInstances, withMemberships] at hmodel

theorem delete_scope_row {roots : List Ref} {origin : Model} {k : Pk} {a : Scope}
    (h : (db.delete origin roots none).scopes.row k = some a) :
    ∃ x, db.scopes.row k = some x ∧ a = Scope.setUsers x (keepList (db.collect roots) .instance_ x.usedBy) := by
  have hcascade : ∀ {S : List Model} (d : DB) (r : Ref), Within S → .instance_ ∉ S → r.model ∈ S →
      (∀ k a, d.scopes.row k = some a →
        ∃ x, db.scopes.row k = some x ∧ a = Scope.setUsers x (keepList (db.collect roots) .instance_ x.usedBy)) →
      ∀ k a, (d.removeCascade [r]).scopes.row k = some a →
        ∃ x, db.scopes.row k = some x
          ∧ a = Scope.setUsers x (keepList (db.collect roots) .instance_ x.usedBy) := by
    intro S d r hS hinstance hr hd k a ha
    obtain ⟨y, hy, rfl⟩ := update_row_eq_some.mp ha
    obtain ⟨x, hx, rfl⟩ := hd k y (keep_row_eq_some.mp hy).1
    have hkept : ∀ l, keepList (d.collect [r]) .instance_ l = l := fun l =>
      keepList_eq_self fun r' hr' heq => hinstance (heq ▸ collect_within hS (by simpa using hr) hr')
    refine ⟨x, hx, ?_⟩
    show Scope.setUsers x (keepList (d.collect [r]) .instance_
      (keepList (db.collect roots) .instance_ x.usedBy)) = _
    rw [hkept]
  refine delete_induct_sync (P := fun d : DB => ∀ k a, d.scopes.row k = some a →
      ∃ x, db.scopes.row k = some x ∧ a = Scope.setUsers x (keepList (db.collect roots) .instance_ x.usedBy))
    (fun d m hd => hcascade d _ withMemberships_within (by decide) (by simp [withMemberships]) hd)
    (fun d c hd => hcascade d _ withClients_within (by decide) (by simp [withClients]) hd) (fun k a ha => ?_) k a h
  obtain ⟨x, hx, rfl⟩ := update_row_eq_some.mp ha
  exact ⟨x, (keep_row_eq_some.mp hx).1, rfl⟩

theorem dropInstances_scope {k : Pk} {a : Scope} (h : (db.dropInstances hub manifest).scopes.row k = some a) :
    ∃ x users, db.scopes.row k = some x ∧ a = Scope.setUsers x users ∧
      (∀ i, x.creatingInstance = some i → ¬ db.LeftOff hub manifest i) ∧
      ∀ j, j ∈ users ↔ j ∈ x.usedBy ∧ ¬ db.LeftOff hub manifest j := by
  have hroots : ∀ j, (⟨.instance_, j⟩ : Ref) ∈ (db.instances.pks fun _ i => i.hub == hub &&
      !manifest.instances.any fun r => r.name == i.instanceId).map (fun i => ⟨.instance_, i⟩)
        ↔ db.LeftOff hub manifest j := by
    intro j
    simp only [List.mem_map, mem_pks, Ref.mk.injEq, true_and, exists_eq_right, LeftOff, Bool.and_eq_true, beq_iff_eq,
      Bool.not_eq_true', List.any_eq_false]
  unfold dropInstances at h
  dsimp only at h
  generalize hgone : (db.instances.pks fun _ i => i.hub == hub &&
      !manifest.instances.any fun r => r.name == i.instanceId).map (fun i => (⟨.instance_, i⟩ : Ref)) = roots
    at h hroots
  have hmodel : ∀ r ∈ roots, r.model = .instance_ := by
    rw [← hgone]
    simp
  obtain ⟨x, hx, rfl⟩ := delete_scope_row h
  refine ⟨x, _, hx, rfl, fun i hi hleft => ?_, fun j => ?_⟩
  · have hhangs : (⟨.instance_, i⟩ : Ref) ∈ (db.delete .instance_ roots none).hangsOn ⟨.scope, k⟩ := by
      simp only [hangsOn, h, Option.elim_some, Scope.hangsOn, List.mem_cons, mem_refOf]
      exact .inr ⟨i, hi, rfl⟩
    obtain ⟨y, hy, -⟩ := id hleft
    exact delete_not_has ((hroots i).mpr hleft) (delete_target hhangs ⟨y, hy⟩)
  · rw [mem_keepList, collect_instances hmodel, hroots]

theorem dropInstances_named {r : InstanceRequest} {j : Pk} {x : ServiceInstance} (hr : r ∈ manifest.instances)
    (h : db.instanceNamed hub r.name = some (j, x)) :
    ∃ y, (db.dropInstances hub manifest).instanceNamed hub r.name = some (j, y) := by
  obtain ⟨hx, hp⟩ := first_eq_some h
  have hback := (delete_shrinks db .instance_ ((db.instances.pks fun _ i => i.hub == hub &&
    !manifest.instances.any fun r => r.name == i.instanceId).map fun i => (⟨.instance_, i⟩ : Ref))
      none).instances.2
  have hthere : (db.dropInstances hub manifest).has ⟨.instance_, j⟩ := by
    unfold dropInstances
    refine delete_induct_sync (P := fun d : DB => d.has ⟨.instance_, j⟩)
      (fun d m hd => removeCascade_has withMemberships_within (by simp [withMemberships])
        (by simp [withMemberships]) hd)
      (fun d c hd => removeCascade_has withClients_within (by simp [withClients]) (by simp [withClients]) hd)
        (syncAdmin_has ?_)
    refine remove_has ⟨x, hx⟩ fun hmem => ?_
    rw [collect_instances (by simp)] at hmem
    obtain ⟨k, hk, heq⟩ := List.mem_map.mp hmem
    cases heq
    obtain ⟨x', hx', hleft⟩ := mem_pks.mp hk
    rw [hx] at hx'
    cases hx'
    simp only [Bool.and_eq_true, beq_iff_eq] at hp
    simp only [Bool.and_eq_true, Bool.not_eq_true', List.any_eq_false, beq_iff_eq] at hleft
    exact hleft.2 r hr hp.2.symm
  obtain ⟨y, hy⟩ := hthere
  obtain ⟨x', hx', _, _, rfl⟩ := hback j y hy
  rw [hx] at hx'
  cases hx'
  refine ⟨_, first_of_least hy hp fun k z hz hpz => ?_⟩
  obtain ⟨z', hz', _, _, rfl⟩ := hback k z hz
  exact first_le h hz' hpz

theorem delete_scopeIsHeld {roots : List Ref} {origin : Model} {k : Pk} {s : Scope} {users : List Pk}
    (hfree : db.scopeIsHeld k s = false) :
    (db.delete origin roots none).scopeIsHeld k (Scope.setUsers s users) = false := by
  have hcascade : ∀ (d : DB) roots,
    (∀ c x', d.clients.row c = some x' → ∃ x, db.clients.row c = some x ∧ ∀ j ∈ x'.scopes, j ∈ x.scopes) →
      ∀ c x', (d.removeCascade roots).clients.row c = some x' →
        ∃ x, db.clients.row c = some x ∧ ∀ j ∈ x'.scopes, j ∈ x.scopes := by
    intro d roots hd c x' hx'
    obtain ⟨y, hy, rfl⟩ := update_row_eq_some.mp hx'
    obtain ⟨x, hx, hsub⟩ := hd c y (keep_row_eq_some.mp hy).1
    exact ⟨x, hx, fun j hj => hsub j (mem_keepList.mp hj).1⟩
  have hscopes : ∀ c x', (db.delete origin roots none).clients.row c = some x' →
      ∃ x, db.clients.row c = some x ∧ ∀ j ∈ x'.scopes, j ∈ x.scopes :=
    delete_induct (P := fun d : DB => ∀ c x', d.clients.row c = some x' →
      ∃ x, db.clients.row c = some x ∧ ∀ j ∈ x'.scopes, j ∈ x.scopes)
      hcascade (fun _ _ hd => hd) (fun c x hx => ⟨x, hx, fun _ hj => hj⟩)
  have hmandates := (delete_shrinks db origin roots none).mandates.2
  unfold scopeIsHeld at hfree ⊢
  rw [Bool.or_eq_false_iff, exists?_eq_false, exists?_eq_false] at hfree ⊢
  refine ⟨fun c x' hx' => ?_, fun j m hm => ?_⟩
  · obtain ⟨x, hx, hsub⟩ := hscopes c x' hx'
    have hnot := hfree.1 c x hx
    simp only [List.contains_eq_mem, decide_eq_false_iff_not] at hnot ⊢
    exact fun hmem => hnot (hsub k hmem)
  · obtain ⟨n, hn, rfl⟩ := hmandates j m hm
    exact hfree.2 j m hn

/-- A scope that is missing is in the organization no more once the services are provisioned. -/
theorem services_scope_missing {steward : Pk} {identifier : String}
    (hmissing : db.ScopeMissing organization hub manifest identifier)
    (h : manifest.instances.foldlM (provisionService env hub organization steward)
      (db.dropInstances hub manifest) = .ok d)
    {k : Pk} {b : Scope} (hb : d.scopes.row k = some b) (ho : b.organization = organization) :
    b.identifier ≠ identifier := by
  rintro rfl
  obtain ⟨hundeclared, hgoes⟩ := hmissing
  obtain ⟨a, users, ha, rfl, husers, hempty⟩ := provisionService_loop_scope h hb ho hundeclared
  obtain ⟨x, users₀, hx, rfl, hmaker, husers₀⟩ := dropInstances_scope ha
  rcases hgoes k x hx ho rfl with ⟨i, hi, hleft⟩ | ⟨hmade, hbuiltin, hfree, ⟨i, hi, hagain⟩, hall⟩
  · exact hmaker i hi hleft
  have hnone : users = [] := by
    refine List.eq_nil_iff_forall_not_mem.mpr fun j hj => ?_
    obtain ⟨hj₀, hlater⟩ := husers j hj
    obtain ⟨hjx, hkept⟩ := (husers₀ j).mp hj₀
    obtain ⟨r, hr, y, hy⟩ := (hall j hjx).resolve_left hkept
    obtain ⟨z, hz⟩ := dropInstances_named hr hy
    exact hlater r hr z hz
  have hkept : ¬ db.LeftOff hub manifest i := by
    rintro ⟨y, hy, -, hleft⟩
    obtain ⟨r, hr, z, hz⟩ := hagain
    obtain ⟨hrow, hp⟩ := first_eq_some hz
    rw [hy] at hrow
    cases hrow
    simp only [Bool.and_eq_true, beq_iff_eq] at hp
    exact hleft r hr hp.2.symm
  rcases hempty hnone with hnil | hmaker' | hheld
  · have hmem := (husers₀ i).mpr ⟨hi, hkept⟩
    rw [show users₀ = [] from hnil] at hmem
    cases hmem
  · rw [show x.creatingInstance = none from hmaker'] at hmade
    cases hmade
  · exact hheld ⟨hbuiltin, delete_scopeIsHeld hfree⟩

/-! ## The apps of the hub -/

/-- Going on from `db`: only keys that were proposed are new, scopes and memberships only go, and a hub
loses its identity only with the client. -/
structure Onward (proposed : String → Prop) (client : Pk) (db d : DB) : Prop where
  known : ∀ x, d.keyIsKnown x = true → db.keyIsKnown x = true ∨ proposed x
  scopes : ∀ k s', d.scopes.row k = some s' → ∃ s, db.scopes.row k = some s ∧ s'.organization = s.organization ∧
    s'.identifier = s.identifier
  memberships : ∀ k m', d.memberships.row k = some m' →
    ∃ m, db.memberships.row k = some m ∧ m'.organization = m.organization
  gone : db.clients.row client = none → d.clients.row client = none
  identity : ∀ k x, db.hubs.row k = some x → x.client = some client →
    (∃ x', d.hubs.row k = some x' ∧ x'.client = some client) ∨ d.clients.row client = none

section
variable {proposed : String → Prop} {client : Pk}

theorem Onward.refl (db : DB) : Onward proposed client db db :=
  ⟨fun _ => .inl, fun _ s hs => ⟨s, hs, rfl, rfl⟩, fun _ m hm => ⟨m, hm, rfl⟩, id,
   fun _ x hx hc => .inl ⟨x, hx, hc⟩⟩

theorem Onward.trans (h : Onward proposed client db d) (k : Onward proposed client d e) :
    Onward proposed client db e where
  known x hx := (k.known x hx).elim (h.known x) .inr
  scopes j s'' hs'' := by
    obtain ⟨s', hs', ho', hi'⟩ := k.scopes j s'' hs''
    obtain ⟨s, hs, ho, hi⟩ := h.scopes j s' hs'
    exact ⟨s, hs, ho'.trans ho, hi'.trans hi⟩
  memberships j m'' hm'' := by
    obtain ⟨m', hm', ho'⟩ := k.memberships j m'' hm''
    obtain ⟨m, hm, ho⟩ := h.memberships j m' hm'
    exact ⟨m, hm, ho'.trans ho⟩
  gone hnone := k.gone (h.gone hnone)
  identity j x hx hc := by
    rcases h.identity j x hx hc with ⟨x', hx', hc'⟩ | hnone
    · exact k.identity j x' hx' hc'
    · exact .inr (k.gone hnone)

theorem Onward.mono {proposed' : String → Prop} (h : Onward proposed client db d)
    (himp : ∀ x, proposed x → proposed' x) :
    Onward proposed' client db d :=
  ⟨fun x hx => (h.known x hx).imp_right (himp x), h.scopes, h.memberships, h.gone, h.identity⟩

theorem Onward.mandates {devices : Table Device} {mandates : Table Mandate} {tokens : Table OAuth2Token}
    (h : ∀ k m, mandates.row k = some m → ∀ x, m.keyHash = some x → db.keyIsKnown x = true ∨ proposed x) :
    Onward proposed client db { db with devices, mandates, tokens } := by
  refine ⟨fun x hx => ?_, fun _ s hs => ⟨s, hs, rfl, rfl⟩, fun _ m hm => ⟨m, hm, rfl⟩, id,
    fun _ x hx hc => .inl ⟨x, hx, hc⟩⟩
  obtain ⟨k, m, hm, hkey⟩ := keyIsKnown_iff.mp hx
  exact h k m hm x hkey

theorem removeCascade_onward {S : List Model} {roots : List Ref} (hS : Within S) (hhub : .hub ∉ S)
    (hroots : ∀ r ∈ roots, r.model ∈ S) :
    Onward proposed client db (db.removeCascade roots) := by
  have hshrinks := remove_shrinks db (db.collect roots)
  refine ⟨fun x hx => ?_, fun k s' hs' => ?_, fun k m' hm' => ?_, fun hnone => hshrinks.clients.row_none hnone,
    fun k x hx hc => ?_⟩
  · obtain ⟨k, m, hm, hkey⟩ := keyIsKnown_iff.mp hx
    exact .inl (keyIsKnown_iff.mpr ⟨k, m, (keep_row_eq_some.mp hm).1, hkey⟩)
  · obtain ⟨s, hs, _, rfl⟩ := hshrinks.scopes.2 k s' hs'
    exact ⟨s, hs, rfl, rfl⟩
  · obtain ⟨m, hm, -, ho, -⟩ := hshrinks.memberships.2 k m' hm'
    exact ⟨m, hm, ho⟩
  · have hnone : ∀ r ∈ db.collect roots, r.model ≠ .hub := fun r hr heq => hhub (heq ▸ collect_within hS hroots hr)
    have hkept : keeps (db.collect roots) .hub k = true := keeps_eq_true hnone k
    by_cases hgone : (⟨.client, client⟩ : Ref) ∈ db.collect roots
    · refine .inr ?_
      show (Table.update (Table.keep _ _) _).row client = none
      have hlost : keeps (db.collect roots) .client client = false := by simpa [keeps] using hgone
      rw [update_row]
      cases hrow : db.clients.row client <;> simp [keep, hrow, hlost]
    · refine .inl ⟨_, update_row_eq_some.mpr ⟨x, keep_row_eq_some.mpr ⟨hx, hkept⟩, rfl⟩, ?_⟩
      show keepOpt (db.collect roots) .client x.client = some client
      rw [hc]
      simp [keepOpt, Option.filter, hgone]

theorem delete_onward {S : List Model} {roots : List Ref} (hS : Within S) (hhub : .hub ∉ S)
    (hroots : ∀ r ∈ roots, r.model ∈ S)
    (origin : Model) : Onward proposed client db (db.delete origin roots none) := by
  have hsync : ∀ (d : DB) l, Onward proposed client d (d.syncAdmin l) := by
    intro d l
    refine ⟨fun _ => .inl, fun _ s hs => ⟨s, hs, rfl, rfl⟩, fun k m' hm' => ?_, id,
      fun _ x hx hc => .inl ⟨x, hx, hc⟩⟩
    obtain ⟨m, hm, -, ho, -⟩ := (syncAdmin_shrinks d l).memberships.2 k m' hm'
    exact ⟨m, hm, ho⟩
  refine delete_induct_sync (P := fun d : DB => Onward proposed client db d)
    (fun d m hd => hd.trans (removeCascade_onward withMemberships_within (by decide) (by simp [withMemberships])))
    (fun d c hd => hd.trans (removeCascade_onward withClients_within (by decide) (by simp [withClients]))) ?_
  exact (removeCascade_onward hS hhub hroots).trans (hsync _ _)

theorem delete_clients_onward (clients : List Pk) :
    Onward proposed client db (db.delete .client (clients.map fun c => ⟨.client, c⟩) none) :=
  delete_onward withClients_within (by decide) (clientRefs_within clients) .client

theorem revokeMandate_onward {k : Pk} {reason : MandateRevocation} (h : db.revokeMandate k reason = .ok d) :
    Onward proposed client db d := by
  simp only [revokeMandate, bind_ok, Table.get_ok, pure_ok] at h
  obtain ⟨-, -, rfl⟩ := h
  refine Onward.trans ?_ (delete_clients_onward _)
  refine @Onward.mandates _ _ _ db.devices _ _ fun j m hm x hkey => .inl ?_
  obtain ⟨m₀, hm₀, rfl⟩ := update_row_eq_some.mp hm
  refine keyIsKnown_iff.mpr ⟨j, m₀, hm₀, ?_⟩
  rw [← hkey]
  unfold revokeRow
  split
  · split <;> rfl
  · split
    · split <;> rfl
    · rfl

theorem assertKnownScopes_ok {slug : String} {pin : MandatePin} {scopes : List String}
    (hscopes : pin.scopes = some scopes) :
    db.assertKnownScopes organization slug pin = .ok () ↔
      ∀ s ∈ scopes, ∃ k x, db.scopes.row k = some x ∧ x.organization = organization ∧ x.identifier = s := by
  have hknown : ∀ s, (db.scopes.exists? fun _ x => x.organization == organization && x.identifier == s) = true ↔
      ∃ k x, db.scopes.row k = some x ∧ x.organization = organization ∧ x.identifier = s := by
    intro s
    simp only [exists?_eq_true, Bool.and_eq_true, beq_iff_eq]
  simp only [assertKnownScopes, hscopes, whenSome, require_ok, List.isEmpty_iff,
    List.eq_nil_iff_forall_not_mem, mem_sortedSet,
    List.mem_filter, Bool.not_eq_true', not_and, Bool.not_eq_false, hknown]

/-- What a request must be when lok issues a mandate for it. -/
def Issuable (db : DB) (organization : Pk) (r : ClientRequest) : Prop :=
  32 ≤ r.mandateKey.length ∧ ∀ s ∈ r.manifest.scopes,
    ∃ k x, db.scopes.row k = some x ∧ x.organization = organization ∧ x.identifier = s

theorem Onward.issuable (h : Onward proposed client db d) {r : ClientRequest} (hr : d.Issuable organization r) :
    db.Issuable organization r := by
  refine ⟨hr.1, fun s hs => ?_⟩
  obtain ⟨k, x', hx', ho, hi⟩ := hr.2 s hs
  obtain ⟨x, hx, ho', hi'⟩ := h.scopes k x' hx'
  exact ⟨k, x, hx, ho'.symm.trans ho, hi'.symm.trans hi⟩

variable {grantor : Pk} {auth : Bool} {r : ClientRequest}

theorem issueHubMandate_onward
    (hgrantor : ∀ g, db.memberships.row grantor = some g → g.organization = organization)
    (h : db.issueHubMandate env hub grantor auth r = .ok d) :
    Onward (· = env.hashKey r.mandateKey) client db d ∧ db.Issuable organization r := by
  obtain ⟨x, hx, rfl⟩ := map_ok.mp h
  obtain ⟨t, m, hasked, heq, -⟩ := issueMandate_ok hx
  rw [heq]
  refine ⟨.mandates fun k n hn y hkey => ?_, ?_⟩
  · rcases insert_row_eq_some.mp hn with ⟨-, rfl⟩ | hn
    · exact .inr (Option.some.inj (hkey.symm.trans hasked.keyHash))
    · exact .inl (keyIsKnown_iff.mpr ⟨k, n, hn, hkey⟩)
  · simp only [issueMandate, bind_ok, Table.get_ok, require_ok, exists_unit, pure_ok, Prod.exists] at hx
    obtain ⟨g, hg, o, -, y, -, -, -, hscopes, -, -, e, m', key, hclaim, -⟩ := hx
    rw [hgrantor g hg] at hscopes
    refine ⟨?_, fun s hs => (assertKnownScopes_ok rfl).mp hscopes s (mem_sortedSet.mpr hs)⟩
    simp only [withClaimant, bind_ok, require_ok, exists_unit, decide_eq_true_eq] at hclaim
    exact hclaim.1

/-- A turn goes on from where it was, with a key that was on file or a mandate that could be issued. -/
theorem ensureHubMandate_onward
    (hgrantor : ∀ g, db.memberships.row grantor = some g → g.organization = organization)
    (h : ensureHubMandate env hub grantor auth db r = .ok d) :
    Onward (· = env.hashKey r.mandateKey) client db d ∧
      (db.keyIsKnown (env.hashKey r.mandateKey) = true ∨ db.Issuable organization r) := by
  unfold ensureHubMandate at h
  split at h
  · rename_i pk current hcurrent
    split at h
    · rename_i hkey
      cases h
      have hknown : db.keyIsKnown (env.hashKey r.mandateKey) = true :=
        keyIsKnown_iff.mpr ⟨pk, current, (first_eq_some hcurrent).1, beq_iff_eq.mp hkey⟩
      refine ⟨?_, .inl hknown⟩
      have hdropped : Onward (· = env.hashKey r.mandateKey) client db
          (if current.membership != grantor then db.dropClientsOf pk else db) := by
        split
        · exact delete_clients_onward _
        · exact .refl db
      unfold keepHubMandate
      generalize (if current.membership != grantor then db.dropClientsOf pk else db) = e at hdropped
      refine hdropped.trans (@Onward.mandates _ _ _ e.devices _ e.tokens fun k m hm x hx => .inl ?_)
      rcases modify_row_eq_some.mp hm with ⟨-, hm⟩ | ⟨-, m₀, hm₀, rfl⟩
      · exact keyIsKnown_iff.mpr ⟨k, m, hm, hx⟩
      · exact keyIsKnown_iff.mpr ⟨k, m₀, hm₀, hx⟩
    · split at h
      · rename_i hknown
        cases h
        exact ⟨.refl db, .inl hknown⟩
      · simp only [bind_ok] at h
        obtain ⟨e, he, h⟩ := h
        have hrevoked : Onward (· = env.hashKey r.mandateKey) client db e := revokeMandate_onward he
        have hgrantor' : ∀ g, e.memberships.row grantor = some g → g.organization = organization := by
          intro g hg
          obtain ⟨g₀, hg₀, ho⟩ := hrevoked.memberships _ g hg
          exact ho.trans (hgrantor g₀ hg₀)
        obtain ⟨hissued, hissuable⟩ : Onward _ client e d ∧ _ := issueHubMandate_onward hgrantor' h
        exact ⟨hrevoked.trans hissued, .inr (hrevoked.issuable hissuable)⟩
  · split at h
    · rename_i hknown
      cases h
      exact ⟨.refl db, .inl hknown⟩
    · exact (issueHubMandate_onward hgrantor h).imp_right .inr

/-- The turns of some requests: each had a key on file or one that was proposed before, or a mandate could
be issued. -/
theorem ensureHubMandate_loop_onward {requests : List ClientRequest}
    (hgrantor : ∀ g, db.memberships.row grantor = some g → g.organization = organization)
    (h : requests.foldlM (ensureHubMandate env hub grantor auth) db = .ok d) :
    Onward (fun x => ∃ r ∈ requests, env.hashKey r.mandateKey = x) client db d ∧
      ∀ before r after, requests = before ++ r :: after → db.keyIsKnown (env.hashKey r.mandateKey) = true ∨
        (∃ b ∈ before, env.hashKey b.mandateKey = env.hashKey r.mandateKey) ∨ db.Issuable organization r := by
  induction requests generalizing db with
  | nil =>
    cases pure_ok.mp h
    exact ⟨.refl _, fun before r after heq => by simp at heq⟩
  | cons x rest ih =>
    rw [List.foldlM_cons, bind_ok] at h
    obtain ⟨e, he, h⟩ := h
    obtain ⟨hturn, hneeds⟩ : Onward _ client db e ∧ _ := ensureHubMandate_onward hgrantor he
    have hgrantor' : ∀ g, e.memberships.row grantor = some g → g.organization = organization := by
      intro g hg
      obtain ⟨g₀, hg₀, ho⟩ := hturn.memberships _ g hg
      exact ho.trans (hgrantor g₀ hg₀)
    obtain ⟨hlater, hneeds'⟩ := ih hgrantor' h
    refine ⟨.trans (hturn.mono ?_) (hlater.mono ?_), fun before r after heq => ?_⟩
    · rintro _ rfl
      exact ⟨x, List.mem_cons_self .., rfl⟩
    · rintro y ⟨r, hr, rfl⟩
      exact ⟨r, List.mem_cons_of_mem _ hr, rfl⟩
    · cases before with
      | nil =>
        cases heq
        exact hneeds.imp_right .inr
      | cons b before =>
        cases heq
        rcases hneeds' before r after rfl with hknown | ⟨b', hb', heq⟩ | hissuable
        · rcases hturn.known _ hknown with hknown | heq
          · exact .inl hknown
          · exact .inr (.inl ⟨x, List.mem_cons_self .., heq.symm⟩)
        · exact .inr (.inl ⟨b', List.mem_cons_of_mem _ hb', heq⟩)
        · exact .inr (.inr (hturn.issuable hissuable))

theorem ensureHubMandates_onward
    (hgrantor : ∀ g, db.memberships.row grantor = some g → g.organization = organization)
    (h : db.ensureHubMandates env hub manifest grantor = .ok d) :
    Onward (fun x => ∃ r ∈ manifest.clients, env.hashKey r.mandateKey = x) client db d ∧
      ∀ before r after, manifest.clients = before ++ r :: after → db.keyIsKnown (env.hashKey r.mandateKey) = true ∨
        (∃ b ∈ before, env.hashKey b.mandateKey = env.hashKey r.mandateKey) ∨ db.Issuable organization r := by
  simp only [ensureHubMandates, revokeAll, bind_ok] at h
  obtain ⟨e, he, h⟩ := h
  obtain ⟨honward, hneeds⟩ : Onward _ client db e ∧ _ := ensureHubMandate_loop_onward hgrantor he
  refine ⟨honward.trans ?_, hneeds⟩
  exact foldlM_ok (R := Onward _ client) (fun s => .refl s) (fun h k => h.trans k)
    (fun _ _ _ _ hst => revokeMandate_onward hst) h

end

/-! ## The approval -/

/-- What the approval of a hub needs: its certificate and its new keys are well-formed, the client is there
and no other hub's, and each request is known or can be issued. -/
structure Provisionable (db : DB) (env : Env) (organization : Pk) (manifest : HubManifest) (client : Pk) :
    Prop where
  certificate : ∀ pem, given manifest.tlsCertificate = some pem → validateTlsCertificate env pem = .ok ()
  keys : ∀ r ∈ manifest.instances, ∀ key, given r.challengeKey = some key →
    validateChallengeKey key = .ok () ∨ db.HoldsKey (db.hubOfUid organization manifest.uid) r.name key
  staged : (db.clients.row client).isSome = true
  identity : ∀ k x, db.hubs.row k = some x → x.client = some client → k = db.hubOfUid organization manifest.uid
  requests : ∀ before r after, manifest.clients = before ++ r :: after →
    db.keyIsKnown (env.hashKey r.mandateKey) = true ∨
    (∃ b ∈ before, env.hashKey b.mandateKey = env.hashKey r.mandateKey) ∨
    32 ≤ r.mandateKey.length ∧ ∀ s ∈ r.manifest.scopes,
      ¬ db.ScopeMissing organization (db.hubOfUid organization manifest.uid) manifest s

/-- Nothing but the hub is made or named. -/
structure Hubbed (db d : DB) : Prop where
  instances : d.instances = db.instances
  scopes : d.scopes = db.scopes
  clients : d.clients = db.clients
  mandates : d.mandates = db.mandates
  hubs : ∀ k x, db.hubs.row k = some x → ∃ x', d.hubs.row k = some x' ∧ x'.client = x.client

theorem getOrCreateHub_hubbed (db : DB) (creator : Pk) :
    Hubbed db (db.getOrCreateHub organization manifest creator).1 := by
  unfold getOrCreateHub
  split
  · rename_i pk _ _
    have hrewrites : Rewrites (fun _ (x x' : Hub) => x'.client = x.client) db.hubs
        (db.hubs.modify pk fun h => { h with identifier := manifest.identifier }) :=
          .modify (fun _ _ => rfl) fun _ _ => rfl
    exact ⟨rfl, rfl, rfl, rfl, fun k x hx => hrewrites.after hx⟩
  · exact ⟨rfl, rfl, rfl, rfl, fun k x hx => ⟨x, insert_row_of_some hx, rfl⟩⟩

theorem Hubbed.scopeMissing (h : Hubbed db d) {identifier : String}
    (hmissing : db.ScopeMissing organization hub manifest identifier) :
    d.ScopeMissing organization hub manifest identifier := by
  unfold ScopeMissing ScopeGoes LeftOff NamedAgain instanceNamed scopeIsHeld at hmissing ⊢
  rw [h.instances, h.scopes, h.clients, h.mandates]
  exact hmissing

theorem provisionHub_needs {pk user : Pk} {code : DeviceCode} {allow : Bool} {minted : Option String}
    (h : db.provisionHub env pk code manifest user organization allow minted = .ok d) :
    db.Provisionable env organization manifest code.client := by
  simp only [provisionHub, bind_ok, found_ok, Table.get_ok, reraise_ok, pure_ok, Prod.exists] at h
  obtain ⟨u, hcertificate, t, ht, membership, row, hrow, e, he, c, hc, x, hx, s, hs, -⟩ := h
  have hhubbed := @getOrCreateHub_hubbed organization manifest db user
  rw [getOrCreateHub_hub] at ht he hx hs
  generalize (db.getOrCreateHub organization manifest user).1 = made at hhubbed ht
  obtain ⟨hrow, -, ho⟩ := membershipOf_some hrow
  have hdropped : Onward (fun _ => False) code.client made
    (made.dropInstances (db.hubOfUid organization manifest.uid) manifest) :=
    delete_onward withInstances_within (by decide) (by simp [withInstances]) .instance_
  have hgrantor : ∀ g, t.memberships.row membership = some g → g.organization = organization := by
    intro g hg
    rw [hrow] at hg
    cases hg
    exact ho
  obtain ⟨honward, hneeds⟩ : Onward _ code.client t _ ∧ _ := ensureHubMandates_onward hgrantor he
  obtain ⟨hclients, hmandates, hsame⟩ := provisionService_loop_same ht
  refine ⟨fun pem hpem => ?_, fun r hr key hkey => ?_, ?_, fun k y hy hclient => ?_,
    fun before r after hsplit => ?_⟩
  · rw [hpem] at hcertificate
    exact hcertificate
  · by_cases hvalid : validateChallengeKey key = .ok ()
    · exact .inl hvalid
    · have hholds := (provisionService_loop_keys ht hr hkey).resolve_left hvalid
      exact .inr (KeysFrom.of_instances hhubbed.instances _ _ _ hvalid (delete_keysFrom _ _ _ _ _ hvalid hholds))
  · cases hclient : db.clients.row code.client with
    | some _ => rfl
    | none =>
      rw [← hhubbed.clients] at hclient
      have hgone := honward.gone (by rw [hclients]; exact hdropped.gone hclient)
      rw [hc] at hgone
      cases hgone
  · by_contra hne
    obtain ⟨y', hy', hsameClient⟩ := hhubbed.hubs k y hy
    have hthere : ∃ z, e.hubs.row k = some z ∧ z.client = some code.client := by
      rcases hdropped.identity k y' hy' (hsameClient.trans hclient) with ⟨z, hz, hzc⟩ | hnone
      · rw [← hsame] at hz
        rcases honward.identity k z hz hzc with hz' | hnone
        · exact hz'
        · rw [hc] at hnone
          cases hnone
      · have hgone := honward.gone (by rw [hclients]; exact hnone)
        rw [hc] at hgone
        cases hgone
    obtain ⟨z, hz, hzc⟩ := hthere
    unfold bindHubIdentity saveClient at hs
    simp only [bind_ok, require_ok, exists_unit, pure_ok] at hs
    obtain ⟨_, ⟨-, rfl⟩, hunique, -⟩ := hs
    have hother := exists?_eq_false.mp (by simpa using hunique) k z hz
    simp [hne, hzc] at hother
  · rcases hneeds before r after hsplit with hknown | hbefore | ⟨hlength, hscopes⟩
    · refine .inl ?_
      rw [keyIsKnown, hmandates] at hknown
      have hbefore := (hdropped.known _ hknown).resolve_right id
      rw [keyIsKnown, hhubbed.mandates] at hbefore
      exact hbefore
    · exact .inr (.inl hbefore)
    · refine .inr (.inr ⟨hlength, fun s hs hmissing => ?_⟩)
      obtain ⟨k, b, hb, hbo, hbi⟩ := hscopes s hs
      exact services_scope_missing (hhubbed.scopeMissing hmissing) ht hb hbo hbi

end DB

end Lok
