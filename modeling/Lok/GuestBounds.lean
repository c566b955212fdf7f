import Lok.Approvals
import Lok.MandateKeys
import Lok.Mesh

/-!
# The bounds of a guest's apps

Approving an app looks at the guest's live grants before it binds the client, and renewing a
mesh key looks at them again. A mandate is checked against its own policy when it is issued
and when its key logs in, and neither check reads a grant. Binding a client changes nothing
a guest's reach is computed from, so what was checked before it holds after it.
-/

namespace Lok

open Table Runs Checks

namespace DB

variable {db d : DB} {env : Env}

/-! ## Logging in with a key -/

theorem authenticateKey_aside {request : MandateKeyGrantRequest} {r : DB × Pk}
    (h : db.authenticateKey env request = .ok r) : Aside db r.1 := by
  simp only [authenticateKey, bind_ok, found_ok, Table.get_ok, require_ok, exists_unit, pure_ok, Prod.exists] at h
  obtain ⟨pk, m, -, -, -, o, -, -, e, c, client, hclient, e', he', rfl⟩ := h
  have hdevice : Aside db (db.deviceOf env request.manifest.deviceId m.organization).1 := deviceOf_aside _ _
  generalize db.deviceOf env request.manifest.deviceId m.organization = s at hclient hdevice
  obtain ⟨s, node⟩ := s
  dsimp only at hclient hdevice
  have hlogin : Aside s e := by
    unfold clientForLogin at hclient
    split at hclient
    · cases pure_ok.mp hclient
      exact .refl _
    · simp only [bind_ok, require_ok, exists_unit] at hclient
      obtain ⟨-, hclient⟩ := hclient
      split at hclient
      · cases pure_ok.mp hclient
        exact .refl _
      · simp only [bind_ok, Table.get_ok, pure_ok] at hclient
        obtain ⟨_, -, heq⟩ := hclient
        cases heq
        exact ⟨⟨rfl, rfl, rfl, rfl, rfl⟩, rfl⟩
  have hbind : Aside e e' := by
    unfold bindForLogin at he'
    split at he'
    · exact (bindClient_aside he').1
    · cases he'
      exact .refl _
  have hkept := hdevice.trans (hlogin.trans hbind)
  exact ⟨⟨hkept.now, hkept.users, hkept.grants, hkept.memberships, hkept.instances⟩, hkept.tokens⟩

/-- The client of a login is bound where its mandate is, and gets a mesh key if both ask for it. -/
theorem mandateKeyGrant_bound {request : MandateKeyGrantRequest} {minted : Option String} {r : DB × TokenResponse}
    (hlaws : db.ClientLaws) (h : db.mandateKeyGrant env request minted = .ok r) :
    GuestsKept db r.1 ∧ ∃ pk m c, Admitted db env request pk m ∧ r.1.clients.row r.2.client = some c
      ∧ c.membership = some m.membership ∧ c.hub = some m.hub
      ∧ r.2.meshKey = if request.requestAuthKey && m.allowMesh then minted else none := by
  obtain ⟨e, client, c, subject, x, t, p, hauth, hc, hsubject, hsaved, hr, -, hclient, -, -, hmesh⟩ :=
    mandateKeyGrant_ok h
  obtain ⟨-, pk, m, c', hadmitted, hc', hmandate, hrow⟩ := authenticateKey_ok (A := .free) trivial trivial hauth
  obtain rfl : c' = c := by simpa [hc] using hc'.symm
  have hlawful : e.ClientLaws := by
    have hstep : step env db (.authenticateKey request) = e := by simp [step, hauth, settle, Except.map]
    rw [← hstep]
    exact step_clientLaws _ hlaws
  obtain ⟨y, hy, hm, hhub⟩ := (hlawful.lawful client c' hc).mandated pk hmandate
  obtain ⟨i, pin, used, rfl⟩ := hrow y hy
  have hkept := authenticateKey_aside hauth
  rw [hr, hsaved.state, hclient, hsaved.client]
  refine ⟨⟨hkept.now, hkept.users, hkept.grants, hkept.memberships, hkept.instances⟩, pk, m, c',
    hadmitted, hc, hm, hhub, ?_⟩
  have hallowed : (c'.mandate.bind e.mandates.row).any (·.allowMesh) = m.allowMesh := by
    rw [hmandate]
    show (e.mandates.row pk).any _ = _
    rw [hy]
    rfl
  rw [hmesh, hallowed]

/-! ## Every path -/

/-- The hub a client is bound to, or is the identity of. -/
def boundHub (db : DB) (pk : Pk) (c : Client) : Option Pk :=
  c.hub.orElse fun _ => (db.hubs.first fun _ h => h.client == some pk).map (·.1)

/-- Some live grant of a guest is for an instance that runs on the hub. -/
def Reaches (db : DB) (membership hub : Pk) : Prop :=
  ∃ g ∈ db.liveGrants membership, db.hubOf g.2.instance_ = some hub

/-- If the client acts for a guest, its hub is one the guest reaches, by a mesh grant if it was handed a
mesh key. -/
def Bounded (db : DB) (client : Pk) (mesh : Bool) : Prop :=
  ∀ c m, db.clients.row client = some c → c.membership = some m → db.isScoped m = true →
    ∃ hub, db.boundHub client c = some hub ∧ db.Reaches m hub ∧ (mesh = true → hub ∈ db.meshHubIds m)

theorem renewMeshKey_app {net : Net} {pk m : Pk} {c : Client} {online : Selector → Bool} {minted : Option String}
    {key : String} (h : db.renewMeshKey net pk c online minted = .ok key) (hm : c.membership = some m)
    (hidentity : db.hubs.exists? (fun _ h => h.client == some pk) = false) (hscoped : db.isScoped m = true) :
    ∃ hub, c.hub = some hub ∧ hub ∈ db.meshHubIds m := by
  simp only [renewMeshKey, bind_ok, found_ok, require_ok, exists_unit, Prod.exists] at h
  obtain ⟨m', hm', -, tag, current, hsidecar, -⟩ := h
  rw [hm] at hm'
  cases hm'
  split at hsidecar
  · rename_i hub x hfirst
    obtain ⟨hrow, hx⟩ := first_eq_some hfirst
    rw [exists?_eq_false.mp hidentity hub x hrow] at hx
    cases hx
  · obtain ⟨-, hhub⟩ := Option.filter_eq_some_iff.mp hsidecar
    simpa [hscoped, Option.any_eq_true] using hhub

theorem reaches_of_mesh {m hub : Pk} (h : hub ∈ db.meshHubIds m) : db.Reaches m hub := by
  obtain ⟨g, hg, hhub⟩ := List.mem_filterMap.mp h
  exact ⟨g, (List.mem_filter.mp hg).1, hhub⟩

theorem GuestsKept.reaches (h : GuestsKept db d) (m hub : Pk) : d.Reaches m hub ↔ db.Reaches m hub := by
  simp only [Reaches, h.liveGrants, h.hubOf]

/-- For a client bound to a hub, the bounds are those of the guest before it was bound. -/
theorem bounded_iff {client m hub : Pk} {mesh : Bool} {c : Client} (hkept : GuestsKept db d)
    (hc : d.clients.row client = some c) (hm : c.membership = some m) (hhub : c.hub = some hub) :
    d.Bounded client mesh ↔ (db.isScoped m = true → db.Reaches m hub ∧ (mesh = true → hub ∈ db.meshHubIds m)) := by
  have hbound : d.boundHub client c = some hub := by simp [boundHub, hhub]
  constructor
  · intro h hscoped
    obtain ⟨k, hk, hreach, hmesh⟩ := h c m hc hm (by rw [hkept.isScoped]; exact hscoped)
    rw [hbound] at hk
    cases hk
    rw [hkept.meshHubIds] at hmesh
    exact ⟨(hkept.reaches m hub).mp hreach, hmesh⟩
  · intro h c' m' hc' hm' hscoped
    rw [hc] at hc'
    cases hc'
    rw [hm] at hm'
    cases hm'
    rw [hkept.isScoped] at hscoped
    obtain ⟨hreach, hmesh⟩ := h hscoped
    exact ⟨hub, hbound, (hkept.reaches m hub).mpr hreach, by rwa [hkept.meshHubIds]⟩

end DB

/-- How a client comes to act for somebody, or gets a mesh key for them; `minted` is the mesh key the control plane
answers with. -/
inductive Arrival
  | accept (user pk : Pk) (proof : Option Nat) (hub : Pk) (declined : List String) (allowIonscale : Bool)
      (minted : Option String)
  | login (request : MandateKeyGrantRequest) (minted : Option String)
  | renew (client : Pk) (online : Selector → Bool) (minted : Option String)

namespace Arrival

variable (env : Env) (net : Net) (db : DB)

/-- What is left, for which client, and whether it has a mesh key now: an accepted code carries it to the
device. -/
def outcome : Arrival → Option (DB × Pk × Bool)
  | .accept user pk proof hub declined allow minted =>
    match db.acceptDeviceCode env user pk proof hub declined allow minted with
    | .ok d => (d.deviceCodes.row pk).map fun code => (d, code.client, code.authKey.isSome)
    | .error _ => none
  | .login request minted =>
    match db.mandateKeyGrant env request minted with
    | .ok (d, response) => some (d, response.client, response.meshKey.isSome)
    | .error _ => none
  | .renew client online minted =>
    (db.clients.row client).bind fun c =>
      match db.renewMeshKey net client c online minted with
      | .ok _ => some (db, client, true)
      | .error _ => none

/-- What no check of the path looks at: that a mesh key left on the code by an earlier approval is one the
guest may have, that the grantor of the mandate reaches its hub, and that a hub's own identity is no
guest's. -/
def Vetted : Arrival → Prop
  | .accept user pk _ hub _ _ _ => ∀ code x m, db.deviceCodes.row pk = some code → db.hubs.row hub = some x →
      DB.memberOf db user x.organization = some m → db.isScoped m = true → code.authKey.isSome = true →
        hub ∈ db.meshHubIds m
  | .login request minted => ∀ pk m, db.mandates.row pk = some m → m.keyHash = some (env.hashKey request.key) →
      db.isScoped m.membership = true → db.Reaches m.membership m.hub
        ∧ (request.requestAuthKey = true → m.allowMesh = true → minted.isSome = true →
          m.hub ∈ db.meshHubIds m.membership)
  | .renew client _ _ => ∀ c m, db.clients.row client = some c → c.membership = some m → db.isScoped m = true →
      (db.hubs.exists? fun _ h => h.client == some client) = true →
        ∃ hub, db.boundHub client c = some hub ∧ hub ∈ db.meshHubIds m

end Arrival

/-- Whichever way a guest's client comes to act or gets a mesh key, it is within the guest's bounds exactly
if what the path does not check holds. -/
theorem arrival_bounded_iff {env : Env} {net : Net} {db d : DB} {a : Arrival} {client : Pk} {mesh : Bool}
    (hdb : Reachable env db) (h : a.outcome env net db = some (d, client, mesh)) :
    d.Bounded client mesh ↔ a.Vetted env db := by
  cases a with
  | accept user pk proof hub declined allow minted =>
    simp only [Arrival.outcome] at h
    split at h
    · rename_i e he
      obtain ⟨y, hy, heq⟩ := Option.map_eq_some_iff.mp h
      cases heq
      obtain ⟨hkept, code, _, x, m, hcode, -, hx, hm, hreach, hrow⟩ := DB.acceptDeviceCode_bound he
      obtain ⟨⟨_, c, -, hc, hbound⟩, hkey⟩ := hrow y hy
      rw [DB.bounded_iff hkept.toGuestsKept hc hbound.membership hbound.hub]
      constructor
      · intro hbounded code' x' m' hcode' hx' hm' hscoped hearlier
        rw [hcode] at hcode'
        cases hcode'
        rw [hx] at hx'
        cases hx'
        rw [hm] at hm'
        cases hm'
        rcases hkey with hsame | hmesh
        · exact (hbounded hscoped).2 (by rw [hsame]; exact hearlier)
        · exact hmesh hscoped
      · intro hvetted hscoped
        refine ⟨hreach hscoped, fun hhas => ?_⟩
        rcases hkey with hsame | hmesh
        · exact hvetted code x m hcode hx hm hscoped (by rw [← hsame]; exact hhas)
        · exact hmesh hscoped
    · cases h
  | login request minted =>
    simp only [Arrival.outcome] at h
    split at h
    · rename_i e response he
      cases h
      obtain ⟨hkept, pk, m, c, hadmitted, hc, hcm, hhub, hmesh⟩ := DB.mandateKeyGrant_bound hdb.clientLaws he
      rw [DB.bounded_iff hkept hc hcm hhub, hmesh]
      constructor
      · intro hbounded pk' m' hm' hkey hscoped
        obtain rfl := hdb.keysUnique pk pk' m m' _ hadmitted.row hm' hadmitted.key hkey
        obtain rfl : m' = m := by simpa [hadmitted.row] using hm'.symm
        obtain ⟨hreach, hhas⟩ := hbounded hscoped
        refine ⟨hreach, fun hasked hallowed hminted => hhas ?_⟩
        rw [hasked, hallowed]
        exact hminted
      · intro hvetted hscoped
        obtain ⟨hreach, hhas⟩ := hvetted pk m hadmitted.row hadmitted.key hscoped
        refine ⟨hreach, fun hminted => ?_⟩
        by_cases hgiven : (request.requestAuthKey && m.allowMesh) = true
        · rw [if_pos hgiven] at hminted
          simp only [Bool.and_eq_true] at hgiven
          exact hhas hgiven.1 hgiven.2 hminted
        · rw [if_neg hgiven] at hminted
          cases hminted
    · cases h
  | renew k online minted =>
    obtain ⟨c, hc, h⟩ := Option.bind_eq_some_iff.mp h
    split at h
    · rename_i key hkey
      cases h
      cases hidentity : db.hubs.exists? fun _ h => h.client == some client with
      | false =>
        refine iff_of_true (fun c' m hc' hm hscoped => ?_) fun c' m hc' hm hscoped his => ?_
        · rw [hc] at hc'
          cases hc'
          obtain ⟨hub, hhub, hmesh⟩ := DB.renewMeshKey_app hkey hm hidentity hscoped
          exact ⟨hub, by simp [DB.boundHub, hhub], DB.reaches_of_mesh hmesh, fun _ => hmesh⟩
        · rw [hidentity] at his
          cases his
      | true =>
        constructor
        · intro hbounded c' m hc' hm hscoped _
          obtain ⟨hub, hhub, -, hmesh⟩ := hbounded c' m hc' hm hscoped
          exact ⟨hub, hhub, hmesh rfl⟩
        · intro hvetted c' m hc' hm hscoped
          obtain ⟨hub, hhub, hmesh⟩ := hvetted c' m hc' hm hscoped hidentity
          exact ⟨hub, hhub, DB.reaches_of_mesh hmesh, fun _ => hmesh⟩
    · cases h

def otherHub : HubManifest := ⟨"other", "other", [⟨"images", "images", "1", none, [], [], none⟩], [], false, none⟩

/-- Bob is a guest of one collaboration, and logs an app in where it lives. -/
def guestsApp : List Action :=
  [.createUser "ann" [], .createUser "bob" [], .createOrganization "org" 0 false, .configureHub 0 plainHub,
   .configureHub 0 otherHub, .createInvite 0 0 none [] (some [⟨0, "c", []⟩]) none false, .redeemInvite 0 1,
   .startDeviceCode plainApp .desktop .interface ["app://"] false 600 true,
   .acceptDeviceCode 1 0 (some 1) 0 [] true none]

/-- The app issues a key for a worker in a hub. -/
def keyIn (hub : Pk) : Action :=
  .issueMandate (.client 0) 1 hub (.fromManifest plainWorker false false) (.key (some plainKey))
    (some 100) none true "" ""

/-- A worker that asks for a mesh key. -/
def meshLogin : Arrival := .login { workerLogin with requestAuthKey := true } (some "mesh")

def noNet : Net := ⟨.empty, .empty, .empty, fun _ => none⟩

/-- The key of a hub that Bob reaches logs a worker in there; without a mesh grant it gets no mesh key if it
asks for none. -/
theorem arrival_bounded_iff_reached :
    ∃ d client, (Arrival.login workerLogin (some "mesh")).outcome plainEnv noNet
    (run plainEnv .empty (guestsApp ++ [keyIn 0]))
      = some (d, client, false) ∧ d.Bounded client false := by
  have hdb := reachable_run plainEnv (guestsApp ++ [keyIn 0])
  have hout : ((Arrival.login workerLogin (some "mesh")).outcome plainEnv noNet
    (run plainEnv .empty (guestsApp ++ [keyIn 0]))).any
      (fun x => !x.2.2) = true := by decide +kernel
  have hreach : (run plainEnv .empty (guestsApp ++ [keyIn 0])).Reaches 1 0 := by
    unfold DB.Reaches
    decide +kernel
  have hmandates : ∀ pk m, (run plainEnv .empty (guestsApp ++ [keyIn 0])).mandates.row pk = some m →
    m.membership = 1 ∧ m.hub = 0 := by
    simp only [Table.forall_row_iff]
    decide +kernel
  generalize run plainEnv .empty (guestsApp ++ [keyIn 0]) = db at *
  obtain ⟨⟨d, client, mesh⟩, hout, hmesh⟩ := (Option.any_eq_true _ _).mp hout
  obtain rfl : mesh = false := by simpa using hmesh
  refine ⟨d, client, hout, (arrival_bounded_iff hdb hout).mpr fun pk m hm _ _ => ?_⟩
  obtain ⟨hmembership, hhub⟩ := hmandates pk m hm
  rw [hmembership, hhub]
  exact ⟨hreach, fun hasked => by cases hasked⟩

/-- A guest's app issues a key for a hub the guest has no business on, and whoever holds it is let in there. -/
theorem guest_key_for_another_hub :
    ∃ db d client, Reachable plainEnv db ∧ meshLogin.outcome plainEnv noNet db = some (d, client, true)
      ∧ d.isScoped 1 = true ∧ d.liveGrants 1 ≠ [] ∧ ¬ d.Bounded client true := by
  have hout : (meshLogin.outcome plainEnv noNet (run plainEnv .empty (guestsApp ++ [keyIn 1]))).any (fun x =>
      x.2.2 && x.1.isScoped 1 && !(x.1.liveGrants 1).isEmpty && (x.1.clients.row x.2.1).any fun c =>
        c.membership == some 1 && c.hub == some 1 && !(x.1.liveGrants 1).any
          fun g => x.1.hubOf g.2.instance_ == some 1) = true := by
    decide +kernel
  have hdb := reachable_run plainEnv (guestsApp ++ [keyIn 1])
  generalize run plainEnv .empty (guestsApp ++ [keyIn 1]) = db at hout hdb
  obtain ⟨⟨d, client, mesh⟩, hout, hp⟩ := (Option.any_eq_true _ _).mp hout
  simp only [Bool.and_eq_true, Option.any_eq_true, Bool.not_eq_true', List.isEmpty_eq_false_iff, beq_iff_eq] at hp
  obtain ⟨⟨⟨rfl, hscoped⟩, hlive⟩, c, hc, ⟨hm, hhub⟩, hnone⟩ := hp
  refine ⟨db, d, client, hdb, hout, hscoped, hlive, fun hbounded => ?_⟩
  obtain ⟨hub, hbound, ⟨g, hg, hgrant⟩, -⟩ := hbounded c 1 hc hm hscoped
  obtain rfl : 1 = hub := by simpa [DB.boundHub, hhub] using hbound
  have := List.any_eq_false.mp hnone g hg
  simp [hgrant] at this

end Lok
