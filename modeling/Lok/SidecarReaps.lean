import Lok.FreshApps
import Lok.Sessions

/-!
# Reaping when a transaction commits

Whatever ends the session of a client schedules a look at the sidecars it backs: its
enrollment, and the hub it is the identity of. Nothing is reaped before the transaction
commits, and then only what no client backs in the state it left. So an approval may delete a client
and bind its successor in one transaction, and the sidecar stays.
-/

namespace Lok

open Table Checks Runs

/-! ## Identities of hubs -/

namespace DB

variable {db d e : DB}

/-- The identity of a hub is a bound client, and no other hub's. -/
structure Identities (db : DB) : Prop where
  bound : ∀ h x k, db.hubs.row h = some x → x.client = some k →
    ∃ c m, db.clients.row k = some c ∧ c.membership = some m
  unique : ∀ i j x y k, db.hubs.row i = some x → db.hubs.row j = some y → x.client = some k →
    y.client = some k → i = j

theorem delete_identity {origin : Model} {roots : List Ref} {upgrading : Option Pk}
    (hdb : ∀ h x k, db.hubs.row h = some x → x.client = some k → db.has ⟨.client, k⟩) {h k : Pk} {x : Hub}
    (hx : (db.delete origin roots upgrading).hubs.row h = some x) (hk : x.client = some k) :
    (db.delete origin roots upgrading).has ⟨.client, k⟩ := by
  refine delete_induct (P := fun d : DB => ∀ h x k, d.hubs.row h = some x → x.client = some k → d.has ⟨.client, k⟩)
    (fun d roots hd h x' k hx' hk => ?_) (fun d l hd h x k hx hk => syncAdmin_has (hd h x k hx hk)) hdb h x k hx hk
  obtain ⟨x, hx, rfl⟩ := update_row_eq_some.mp hx'
  have hk : (x.client.filter fun pk => !(d.collect roots).contains ⟨.client, pk⟩) = some k := hk
  obtain ⟨hclient, hkept⟩ := Option.filter_eq_some_iff.mp hk
  exact remove_has (hd h x k (keep_row_eq_some.mp hx).1 hclient) (by simpa using hkept)

theorem identified_row {hub client i k : Pk} {y : Hub}
    (hy : (db.hubs.modify hub fun x => { x with client := some client }).row i = some y) (hk : y.client = some k) :
    i = hub ∧ k = client ∨ i ≠ hub ∧ db.hubs.row i = some y := by
  rcases modify_row_eq_some.mp hy with ⟨hne, hy⟩ | ⟨hi, z, hz, rfl⟩
  · exact .inr ⟨hne, hy⟩
  · exact .inl ⟨hi, (Option.some.inj hk).symm⟩

theorem Identities.identified_unique {hub client : Pk} (h : db.Identities)
    (hnew : ∀ k y, k ≠ hub → db.hubs.row k = some y → y.client ≠ some client) (i j : Pk) (x y : Hub) (k : Pk)
    (hx : (db.hubs.modify hub fun x => { x with client := some client }).row i = some x)
    (hy : (db.hubs.modify hub fun x => { x with client := some client }).row j = some y) (hkx : x.client = some k)
    (hky : y.client = some k) : i = j := by
  rcases identified_row hx hkx with ⟨hi, hk⟩ | ⟨hi, hx⟩
  · rcases identified_row hy hky with ⟨hj, -⟩ | ⟨hj, hy⟩
    · exact hi.trans hj.symm
    · exact absurd (hk ▸ hky) (hnew j y hj hy)
  · rcases identified_row hy hky with ⟨hj, hk⟩ | ⟨hj, hy⟩
    · exact absurd (hk ▸ hkx) (hnew i x hi hx)
    · exact h.unique i j x y k hx hy hkx hky

theorem Identities.write {l : Label} (h : db.Identities) (hw : Write db l d) : d.Identities := by
  have hclients : ∀ (t : Table Client), (∀ k c m, db.clients.row k = some c → c.membership = some m →
      ∃ c' m', t.row k = some c' ∧ c'.membership = some m') → ({ db with clients := t } : DB).Identities := by
    intro t ht
    refine ⟨fun i x k hx hk => ?_, h.unique⟩
    obtain ⟨c, m, hc, hm⟩ := h.bound i x k hx hk
    exact ht k c m hc hm
  have hput : ∀ pk c' m, c'.membership = some m →
    ({ db with clients := db.clients.put pk c' } : DB).Identities := by
    intro pk c' m hm
    refine hclients _ fun k c n hc hn => ?_
    rw [put_row]
    split
    · exact ⟨c', m, rfl, hm⟩
    · exact ⟨c, n, hc, hn⟩
  cases hw with
  | newHub x hnone =>
    have hold : ∀ i y k, (db.hubs.insert x).row i = some y → y.client = some k → db.hubs.row i = some y := by
      intro i y k hy hk
      rcases insert_row_eq_some.mp hy with ⟨-, rfl⟩ | hy
      · rw [hnone] at hk
        cases hk
      · exact hy
    exact ⟨fun i y k hy hk => h.bound i y k (hold i y k hy hk) hk,
      fun i j x y k hx hy hkx hky => h.unique i j x y k (hold i x k hx hkx) (hold j y k hy hky) hkx hky⟩
  | hubs ht =>
    refine ⟨fun i y k hy hk => ?_, fun i j x y k hx hy hkx hky => ?_⟩
    · obtain ⟨z, hz, -, hclient⟩ := ht.before hy
      exact h.bound i z k hz (hclient ▸ hk)
    · obtain ⟨x₀, hx₀, -, hx⟩ := ht.before hx
      obtain ⟨y₀, hy₀, -, hy⟩ := ht.before hy
      exact h.unique i j x₀ y₀ k hx₀ hy₀ (hx ▸ hkx) (hy ▸ hky)
  | @identify hub client _ c m hh hc hm ho hnew =>
    refine ⟨fun i y k hy hk => ?_, h.identified_unique hnew⟩
    rcases identified_row hy hk with ⟨-, rfl⟩ | ⟨-, hy⟩
    · exact ⟨c, m, hc, hm⟩
    · exact h.bound i y k hy hk
  | newClient c =>
    have hinsert : ({ db with clients := db.clients.insert c } : DB).Identities :=
      hclients _ fun k c' m hc' hm => ⟨c', m, insert_row_of_some hc', hm⟩
    exact ⟨hinsert.bound, hinsert.unique⟩
  | newRelyingParty c => exact hclients _ fun k c' m hc' hm => ⟨c', m, insert_row_of_some hc', hm⟩
  | clients ht =>
    refine hclients _ fun k c m hc hm => ?_
    obtain ⟨c', hc', hbinding⟩ := ht.after hc
    have hmembership : c'.membership = c.membership := congrArg Binding.membership hbinding
    exact ⟨c', m, hc', hmembership.trans hm⟩
  | bindApp _ _ _ _ hm => exact hput _ _ _ hm
  | bindKeyed _ _ _ _ _ hm => exact hput _ _ _ hm
  | delete origin roots upgrading =>
    have hshrinks := delete_shrinks db origin roots upgrading
    refine ⟨fun i y k hy hk => ?_, fun i j x y k hx hy hkx hky => ?_⟩
    · obtain ⟨c, hc⟩ := delete_identity (fun i x k hx hk => (h.bound i x k hx hk).imp fun c ⟨_, hc, _⟩ => hc) hy hk
      obtain ⟨c₀, hc₀, _, _, rfl⟩ := hshrinks.clients.2 k c hc
      obtain ⟨y₀, hy₀, client, rfl, hclient⟩ := hshrinks.hubs.2 i y hy
      have hk₀ : y₀.client = some k := by
        rcases hclient with rfl | rfl
        · exact hk
        · cases hk
      obtain ⟨c₁, m, hc₁, hm⟩ := h.bound i y₀ k hy₀ hk₀
      rw [hc₀] at hc₁
      cases hc₁
      exact ⟨_, m, hc, hm⟩
    · obtain ⟨x₀, hx₀, cx, rfl, hcx⟩ := hshrinks.hubs.2 i x hx
      obtain ⟨y₀, hy₀, cy, rfl, hcy⟩ := hshrinks.hubs.2 j y hy
      refine h.unique i j x₀ y₀ k hx₀ hy₀ ?_ ?_
      · rcases hcx with rfl | rfl
        · exact hkx
        · cases hkx
      · rcases hcy with rfl | rfl
        · exact hky
        · cases hky
  | renameRole hr =>
    obtain ⟨_, _, -, rfl, -⟩ := renameRole_ok hr
    exact ⟨h.bound, h.unique⟩
  | _ => exact ⟨h.bound, h.unique⟩

end DB

theorem Reachable.identities {env : Env} {db : DB} (h : Reachable env db) : db.Identities :=
  h.invariant (fun h hw => h.write hw) ⟨by simp [DB.empty], by simp [DB.empty]⟩

/-! ## What is scheduled -/

/-- `schedule_client_reap`: the sidecars to look at after commit, an installation's and a hub's. -/
structure Reap where
  membership : Option Pk
  app : Option App
  device : Option Pk
  hub : Option Pk
  deriving DecidableEq, Repr

/-- The look at them, in the state that was committed. -/
def Reap.run (db : DB) (grace : Time) (net : Net) (r : Reap) : Net :=
  let reaped := match r.app, r.membership with
    | some app, some membership => net.reapEnrollment db grace membership app r.device
    | _, _ => net
  match r.hub with
  | none => reaped
  | some pk =>
    match db.hubs.row pk with
    | none => reaped
    | some h => reaped.reapHubSidecar db grace pk h

def Reap.covers (r : Reap) (membership : Pk) (app : App) (device : Option Pk) : Prop :=
  r.membership = some membership ∧ r.app = some app ∧ r.device = device

/-- The hub the client is the identity of. -/
def identityOf (hubs : Table Hub) (client : Pk) : Option Pk :=
  (hubs.first fun _ h => h.client == some client).map (·.1)

def reapOf (hubs : Table Hub) (pk : Pk) (c : Client) : Reap :=
  ⟨c.membership, c.release.map (·.app), c.node, identityOf hubs pk⟩

/-- What `reap_mesh_sidecar_on_client_delete` schedules for the clients that are gone, each looked up before
it went. -/
def reapsOfDeleted (db d : DB) : List Reap :=
  (db.clients.filter fun pk _ => (d.clients.row pk).isNone).map fun r => reapOf db.hubs r.1 r.2

/-- `schedule_reap_for_clients`. -/
def reapsFor (db : DB) (clients : List Pk) : List Reap :=
  (db.clients.filter fun pk _ => clients.contains pk).map fun r => reapOf db.hubs r.1 r.2

namespace Net

variable (net : Net)

/-- Enrollments cascade from their membership, and a hub's key is the hub's. -/
def follow (db : DB) : Net :=
  { net with enrollments := net.enrollments.keep fun _ e => (db.memberships.row e.membership).isSome,
             hubKeys := fun h => (db.hubs.row h).bind fun _ => net.hubKeys h }

/-- The enrollments of a rejected installation go at once. -/
def dropEnrollments (membership : Pk) (app : App) (device : Option Pk) : Net :=
  { net with enrollments := net.enrollments.keep fun _ e => !e.isOf membership app device }

/-- `enroll_hub_on_mesh`; `minted` is the key the control plane answers with, if it answers, and `revoked`
says that it took the previous one back. -/
def enrollHub (now : Time) (organization hub : Pk) (minted : Option String) (revoked : Bool) :
    Option (Net × String) := do
  let (layer, _) ← net.orgMesh organization
  let value ← minted
  let previous := net.hubKeys hub
  let key := net.keys.next
  let keys := net.keys.insert ⟨now, layer, value⟩
  return ({ net with hubKeys := fun h => if h = hub then some key else net.hubKeys h,
                     keys := if revoked then keys.keep fun k _ => some k != previous else keys }, value)

end Net

/-! ## Transactions -/

/-- A transaction as it goes on: what is written, and what waits for its commit. -/
structure Transaction where
  db : DB
  net : Net
  hooks : List Reap
  /-- The hubs whose identity was revoked or deleted, or that were authorized again. -/
  touched : List Pk
  /-- The installations that were rejected, or whose membership went. -/
  ended : List (Pk × App × Option Pk)

def AppMeshEnrollment.installation (e : AppMeshEnrollment) : Pk × App × Option Pk :=
  (e.membership, e.app, e.device)

/-- The hubs whose identity is one of the clients, or gone. -/
def touchedHubs (db d : DB) (clients : List Pk) : List Pk :=
  db.hubs.pks fun _ h => h.client.any fun c => clients.contains c || (d.clients.row c).isNone

namespace Transaction

variable (t : Transaction)

/-- The database became `d`: the clients that are gone and the ones that are `named` have their sidecars
looked at. -/
def becomes (d : DB) (named : List Pk) : Transaction where
  db := d
  net := t.net.follow d
  hooks := t.hooks ++ reapsOfDeleted t.db d ++ reapsFor d named
  touched := t.touched ++ touchedHubs t.db d named
  ended := t.ended ++ (t.net.enrollments.filter fun _ e => (d.memberships.row e.membership).isNone).map
    (·.2.installation)

def commit (grace : Time) : Net := t.hooks.foldl (Reap.run t.db grace) t.net

end Transaction

inductive Op
  | rejectAppInstallation (client : Pk)
  | revokeToken (clientId : ClientId) (secret : Option String) (token : Nat)
  | revokeMandate (mandate : Pk)
  | deleteClients (pks : List Pk)
  | deleteHubs (pks : List Pk)
  | deleteMemberships (pks : List Pk)
  | acceptDeviceCode (user pk : Pk) (proof : Option Nat) (hub : Pk) (declined : List String) (allowIonscale : Bool)
      (minted : Option String) (revoked : Bool)
  | acceptHubDeviceCode (user pk : Pk) (proof : Option Nat) (organization : Pk) (allowIonscale : Bool)
      (minted : Option String) (revoked : Bool)
  deriving Repr

/-- The clients of the token that is presented. -/
def DB.clientsOfToken (db : DB) (token : Nat) : List Pk :=
  db.clients.pks fun _ c => (db.presented token).any fun t => t.2.clientId == c.clientId

/-- The installation a rejection takes off the mesh. -/
def DB.rejectedInstallation (db : DB) (client : Pk) : Option (Pk × App × Option Pk) := do
  let c ← db.clients.row client
  match c.mandate with
  | some _ => none
  | none => return (← c.membership, (← c.release).app, c.node)

/-- The hub an approval is for, and whether it grants the mesh. -/
def DB.hubOfApproval (db : DB) (user pk organization : Pk) (allowIonscale : Bool) :
    Option (Pk × HubManifest × Bool) := do
  let code ← db.deviceCodes.row pk
  match code.staging with
  | .app _ => none
  | .hub manifest =>
    return ((db.getOrCreateHub organization manifest user).2, manifest, allowIonscale && manifest.requestAuthKey)

/-- `_grant_hub_mesh_key`: best effort. -/
def Transaction.enrolledHub (t : Transaction) (user pk organization : Pk) (allowIonscale : Bool)
    (minted : Option String)
    (revoked : Bool) : Option (Net × String) := do
  let (hub, _, grants) ← t.db.hubOfApproval user pk organization allowIonscale
  if grants then t.net.enrollHub t.db.now organization hub minted revoked else none

/-- `accept_hub_device_code`: the services are kept, the identity is bound, and the previous one goes. -/
def Transaction.acceptHub (env : Env) (t : Transaction) (user pk : Pk) (proof : Option Nat) (organization : Pk)
    (allowIonscale : Bool) (minted : Option String) (revoked : Bool) : Answer Transaction := do
  let granted := t.enrolledHub user pk organization allowIonscale minted revoked
  let d ← t.db.acceptHubDeviceCode env user pk proof organization allowIonscale (granted.map Prod.snd)
  let code ← t.db.deviceCodes.get pk
  let (_, manifest, _) ← found (t.db.hubOfApproval user pk organization allowIonscale) denied
  let (e, hub, membership) ← t.db.provisionServices env manifest user organization
  let c ← e.clients.get code.client
  let kept := { t with net := (granted.map Prod.fst).getD t.net }.becomes e []
  let bound := { kept with
      db := e.withIdentity hub code.client c membership organization, touched := kept.touched ++ [hub] }
  return bound.becomes d []

/-- One of its calls. A call that raises ends the transaction. -/
def Op.run (env : Env) (t : Transaction) : Op → Answer Transaction
  | .rejectAppInstallation client =>
    match t.db.rejectAppInstallation client with
    | (_, .error e) => .error e
    | (d, .ok ()) =>
      let after := t.becomes d (t.db.rejectedClients client)
      match t.db.rejectedInstallation client with
      | none => .ok after
      | some i => .ok { after with net := after.net.dropEnrollments i.1 i.2.1 i.2.2, ended := after.ended ++ [i] }
  | .revokeToken clientId secret token => do
    let d ← t.db.revokeToken clientId secret token
    return t.becomes d (t.db.clientsOfToken token)
  | .revokeMandate mandate => do
    let d ← t.db.revokeMandate mandate .revoked
    return t.becomes d []
  | .deleteClients pks => .ok (t.becomes (t.db.delete .client (pks.map fun pk => ⟨.client, pk⟩) none) [])
  | .deleteHubs pks => .ok (t.becomes (t.db.delete .hub (pks.map fun pk => ⟨.hub, pk⟩) none) [])
  | .deleteMemberships pks =>
    .ok (t.becomes (t.db.delete .membership (pks.map fun pk => ⟨.membership, pk⟩) none) [])
  | .acceptDeviceCode user pk proof hub declined allow minted revoked => do
    let (d, net, _) ← t.db.acceptOnMesh env t.net user pk proof hub declined allow minted revoked
    return { t with net }.becomes d []
  | .acceptHubDeviceCode user pk proof organization allow minted revoked =>
    t.acceptHub env user pk proof organization allow minted revoked

/-! ## The deployment -/

/-- The database with the mesh; `touched` as over all transactions. -/
structure Deployment where
  db : DB
  net : Net
  touched : List Pk

inductive DeploymentEvent
  | tick (seconds : Time)
  | transaction (ops : List Op)
  deriving Repr

def Deployment.begin (s : Deployment) : Transaction := ⟨s.db, s.net, [], s.touched, []⟩

/-- Time passes, or a transaction commits and its hooks run, or it is rolled back. -/
inductive Happens (env : Env) (grace : Time) (s : Deployment) : DeploymentEvent → Deployment → Prop
  | tick (seconds : Time) : Happens env grace s (.tick seconds)
    { s with db := { s.db with now := s.db.now + seconds } }
  | commit {ops : List Op} {t : Transaction} (h : ops.foldlM (Op.run env) s.begin = .ok t) :
      Happens env grace s (.transaction ops) ⟨t.db, t.commit grace, t.touched⟩
  | rollback {ops : List Op} {e : Refused} (h : ops.foldlM (Op.run env) s.begin = .error e) : Happens env grace s
    (.transaction ops) s

/-- Every enrollment has a retained client, and so has every hub that was touched and has a key. -/
structure Backed (grace : Time) (s : Deployment) : Prop where
  enrollments : ∀ a x, s.net.enrollments.row a = some x →
    s.db.enrollmentIsRetained grace x.membership x.app x.device = true
  hubs : ∀ h ∈ s.touched, (s.net.hubKeys h).isSome = true →
    ∀ x, s.db.hubs.row h = some x → s.db.hubIdentityIsRetained grace x = true

end Lok
