import Mathlib.Data.List.Dedup
import Lok.Tokens

/-!
# The mesh

An app installation stands on its organization's mesh by an enrollment: one for each
membership, app and device. Its node carries the enrollment's tag, a hub's node the hub's.
Which nodes reach each other is the policy lok writes from its database, and a node counts
only while a client with a live session backs it.
-/

namespace Lok

/-- An app is its organization's; a release is one version of it. -/
structure App where
  organization : Pk
  identifier : String
  deriving DecidableEq, Repr

def Release.app (r : Release) : App := ⟨r.organization, r.identifier⟩

structure IonscaleLayer where
  organization : Pk
  tailnetName : String
  deriving DecidableEq, Repr

structure IonscaleAuthKey where
  createdAt : Time
  layer : Pk
  key : String
  deriving DecidableEq, Repr

structure AppMeshEnrollment where
  organization : Pk
  membership : Pk
  app : App
  device : Option Pk
  authKey : Option Pk
  deriving DecidableEq, Repr

/-- The tables of the mesh, beside the database of the rest. -/
structure Net where
  layers : Table IonscaleLayer
  keys : Table IonscaleAuthKey
  enrollments : Table AppMeshEnrollment
  /-- `Hub.auth_key`, by hub. -/
  hubKeys : Pk → Option Pk

/-! ## Sessions -/

def backerGraceSeconds : Time := 60 * 60

namespace DB

variable (db : DB)

/-- A token whose refresh chain is within its lifetimes, or expired no longer than the grace. -/
def chainHolds (grace : Time) (t : OAuth2Token) : Bool :=
  !t.revoked && t.refreshToken.isSome && db.now ≤ t.issuedAt + refreshTokenLifetime + grace
    && db.now ≤ t.chainStartedAt + refreshChainMaxLifetime + grace

/-- A client that has not polled for its first token yet, and is new. -/
def isFresh (c : Client) : Bool :=
  !(db.tokens.exists? fun _ t => t.clientId == c.clientId) && db.now ≤ c.createdAt + backerGraceSeconds

def hasSession (grace : Time) (c : Client) : Bool :=
  (db.tokens.exists? fun _ t => t.clientId == c.clientId && db.chainHolds grace t) || db.isFresh c

/-- The mandates that still work, or expired no longer ago than the grace. -/
def mandateHolds (grace : Time) (m : Mandate) : Bool :=
  m.revokedAt.isNone && (db.memberships.row m.membership).any (fun x => (db.users.row x.user).any (·.isActive))
    && m.expiresAt.all (db.now < · + grace)

/-- `_clients_with_session`: a client logging in with a key is backed by its mandate instead. -/
def withSession (grace : Time) (c : Client) : Bool :=
  match c.mandate with
  | none => db.hasSession grace c
  | some m => (db.mandates.row m).any (db.mandateHolds grace)

/-- `live_clients`. -/
abbrev isLiveClient (c : Client) : Bool := db.withSession 0 c

end DB

/-- `enrollment_clients`: the clients an enrollment stands for. -/
def AppMeshEnrollment.standsFor (e : AppMeshEnrollment) (c : Client) : Bool :=
  c.membership == some e.membership && (c.release.map (·.app)) == some e.app && c.node == e.device

/-! ## The policy -/

/-- Who an entry of the policy names: people's own devices, standalone machines, or a sidecar. -/
inductive Selector
  | members
  | mesh (organization : Pk)
  | app (enrollment : Pk)
  | hub (pk : Pk)
  deriving DecidableEq, Repr

def Selector.text : Selector → String
  | .members => "autogroup:member"
  | .mesh organization => s!"tag:mesh-{organization}"
  | .app enrollment => s!"tag:app-{enrollment}"
  | .hub pk => s!"tag:hub-{pk}"

/-- What accepts what; a destination stands for all its ports. -/
structure AclEntry where
  action : String
  src : List Selector
  dst : List Selector
  deriving DecidableEq, Repr

structure SshRule where
  action : String
  src : List String
  dst : List String
  users : List String
  deriving DecidableEq, Repr

structure AclPolicy where
  acls : List AclEntry
  ssh : List SshRule
  deriving DecidableEq, Repr

def sortedSelectors (l : List Selector) : List Selector := l.dedup.mergeSort fun a b => a.text ≤ b.text

namespace DB

variable (db : DB)

/-- The hubs the live clients of an enrollment are bound to. -/
def hubsOfEnrollment (e : AppMeshEnrollment) : List Pk :=
  (db.clients.filter fun _ c => e.standsFor c && c.hub.isSome && db.isLiveClient c).filterMap (·.2.hub)

/-- The hubs an enrollment reaches: a guest's no further than their mesh grants. -/
def reachOf (e : AppMeshEnrollment) : List Pk :=
  if db.isScoped e.membership then (db.hubsOfEnrollment e).filter (db.meshHubIds e.membership).contains
  else db.hubsOfEnrollment e

end DB

/-- The enrollments of an organization that have a key. -/
def Net.keyedEnrollments (net : Net) (organization : Pk) : List (Pk × AppMeshEnrollment) :=
  net.enrollments.filter fun _ e => e.organization == organization && e.authKey.isSome

namespace DB

variable (db : DB) (net : Net)

/-- The sidecars allowed to reach a hub. -/
def sourcesOf (organization hub : Pk) : List Selector :=
  ((net.keyedEnrollments organization).filter fun e => (db.reachOf e.2).contains hub).map fun e => .app e.1

/-- The hubs some sidecar may reach, in key order. -/
def reachedHubs (organization : Pk) : List Pk :=
  ((net.keyedEnrollments organization).flatMap fun e => db.reachOf e.2).dedup.mergeSort

def buildAclPolicy (organization : Pk) : AclPolicy where
  acls :=
    let peers := [.members, .mesh organization]
    ⟨"accept", peers, peers⟩ :: (db.reachedHubs net organization).map fun hub =>
      ⟨"accept", sortedSelectors (db.sourcesOf net organization hub), [.hub hub]⟩
  ssh := [⟨"check", ["autogroup:member"], ["autogroup:self"], ["autogroup:nonroot", "root"]⟩]

end DB

/-! ## Renewing a mesh key -/

structure MeshKeyRefused where
  reason : String
  message : String
  deriving DecidableEq, Repr

def meshKeyRenewalIntervalSeconds : Time := 60

namespace Net

variable (net : Net)

/-- `get_org_mesh`. -/
def orgMesh (organization : Pk) : Option (Pk × IonscaleLayer) :=
  net.layers.first fun _ l => l.organization == organization

/-- The sidecar granted to a hub: its tag and its current key. -/
def hubSidecar (hub : Pk) : Option (Selector × Option Pk) := (net.hubKeys hub).map fun key => (.hub hub, some key)

/-- The sidecar granted to an app: only one on a device has nodes that can be pruned. -/
def appSidecar (c : Client) : Option (Selector × Option Pk) :=
  (net.enrollments.first fun _ e => e.standsFor c && e.device.isSome).map fun e => (.app e.1, e.2.authKey)

end Net

/-- `renew_mesh_key`, for the row `pk`; `online` says of a tag whether a node that carries it is online,
`minted` is the key the control plane answers with. -/
def DB.renewMeshKey (db : DB) (net : Net) (pk : Pk) (c : Client) (online : Selector → Bool)
    (minted : Option String) :
    Except MeshKeyRefused String := do
  let notEnrolled : MeshKeyRefused := ⟨"not_enrolled", "No mesh access was granted to this client"⟩
  let membership ← Checks.found c.membership ⟨"not_live", "The client has no live session"⟩
  Checks.require (db.isLiveClient c) ⟨"not_live", "The client has no live session"⟩
  let sidecar := match db.hubs.first fun _ h => h.client == some pk with
    | some (hub, _) => net.hubSidecar hub
    | none => (net.appSidecar c).filter fun _ =>
      !db.isScoped membership || c.hub.any (db.meshHubIds membership).contains
  let (tag, current) ← Checks.found sidecar notEnrolled
  Checks.require (c.organization.any fun o => (net.orgMesh o).isSome) notEnrolled
  Checks.require ((current.bind net.keys.row).all
    fun key => key.createdAt + meshKeyRenewalIntervalSeconds ≤ db.now)
    ⟨"throttled", "A mesh key was issued to this client a moment ago"⟩
  Checks.require (!online tag) ⟨"connected", "This client's mesh node is online"⟩
  Checks.found minted notEnrolled

/-- Some entry of the policy lets `source` reach `target`. -/
def AclPolicy.MayReach (policy : AclPolicy) (source target : Selector) : Prop :=
  ∃ entry ∈ policy.acls, source ∈ entry.src ∧ target ∈ entry.dst

end Lok
