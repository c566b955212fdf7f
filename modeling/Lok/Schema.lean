import Lok.Manifests
import Lok.Table

/-!
# The database

One structure per model, with the columns the modelled functions read or write, and the
database as a table of each. Foreign keys are primary keys, many-to-many relations are
lists of them on the side that declares the relation. Client ids, device-code secrets,
authorization codes and tokens are drawn at random in the source; here each draw is a new
number, so two draws never agree.
-/

namespace Lok

/-- A client id: drawn at registration, or named in the config (a relying party). -/
inductive ClientId
  | uuid (n : Nat)
  | named (name : String)
  deriving DecidableEq, Repr

inductive GrantType
  | deviceCode | refreshToken | authorizationCode | mandateKey
  deriving DecidableEq, Repr

/-! ## People and organizations -/

structure User where
  username : String
  isActive : Bool
  activeOrganization : Option Pk
  groups : List String
  deriving DecidableEq, Repr

structure Organization where
  slug : String
  owner : Pk
  requireDeviceAuth : Bool
  accessTokenLifetime : Option Int
  deriving DecidableEq, Repr

structure Role where
  identifier : String
  description : Option String
  organization : Pk
  creatingInstance : Option Pk
  isBuiltin : Bool
  isAdminRole : Bool
  isDefaultRole : Bool
  usedBy : List Pk
  deriving DecidableEq, Repr

structure Scope where
  identifier : String
  description : Option String
  organization : Pk
  creatingInstance : Option Pk
  isBuiltin : Bool
  isAllScope : Bool
  usedBy : List Pk
  deriving DecidableEq, Repr

structure Membership where
  user : Pk
  organization : Pk
  roles : List Pk
  isAdmin : Bool
  createdThrough : Option Pk
  automaticRoles : List Pk
  withheldRoles : List Pk
  deriving DecidableEq, Repr

/-- A collaboration named by its instance and its id there, with the roles that hold inside it. -/
structure CollaborationRef where
  instance_ : Pk
  collaboration : String
  roles : List String
  deriving DecidableEq, Repr

structure CollaborationGrant where
  membership : Pk
  instance_ : Pk
  collaborationId : String
  roles : List String
  grantedThrough : Option Pk
  grantedBy : Option Pk
  expiresAt : Option Time
  mesh : Bool
  deriving DecidableEq, Repr

structure Invite where
  createdBy : Pk
  createdFor : Pk
  expiresAt : Option Time
  status : InviteStatus
  acceptedBy : Option Pk
  roles : List Pk
  sharedCollaborations : Option (List CollaborationRef)
  maxUses : Option Nat
  uses : Nat
  mesh : Bool
  deriving DecidableEq, Repr

structure RoleRequest where
  membership : Pk
  role : Pk
  status : RequestStatus
  resolvedBy : Option Pk
  respondedAt : Option Time
  deriving DecidableEq, Repr

structure MembershipRequest where
  user : Pk
  organization : Pk
  status : RequestStatus
  resolvedBy : Option Pk
  respondedAt : Option Time
  createdMembership : Option Pk
  deriving DecidableEq, Repr

/-! ## Hubs and their services -/

structure Device where
  organization : Pk
  nodeId : String
  deriving DecidableEq, Repr

structure Hub where
  organization : Pk
  creator : Pk
  uid : String
  identifier : String
  /-- The identity the hub itself logs in as. -/
  client : Option Pk
  deriving DecidableEq, Repr

structure ServiceInstance where
  hub : Pk
  instanceId : String
  service : String
  version : String
  steward : Pk
  organization : Pk
  device : Option Pk
  publicKey : Option String
  deniedUsers : List Pk
  deniedGroups : List String
  allowedUsers : List Pk
  allowedGroups : List String
  deriving DecidableEq, Repr

/-! ## Clients -/

/-- A release of an app, the app being its organization's. -/
structure Release where
  organization : Pk
  identifier : String
  version : String
  deriving DecidableEq, Repr

structure Client where
  createdAt : Time
  clientId : ClientId
  /-- Confidential clients (relying parties) have one. -/
  clientSecret : Option String
  grantTypes : List GrantType
  redirectUris : List String
  scope : List String
  public_ : Bool
  requireNonce : Bool
  kind : ClientKind
  role : ClientRole
  membership : Option Pk
  organization : Option Pk
  release : Option Release
  hub : Option Pk
  node : Option Pk
  mandate : Option Pk
  manifest : Option Manifest
  manifestHash : String
  scopes : List Pk
  statuses : List (String × MappingStatus)
  deriving DecidableEq, Repr

structure ServiceInstanceMapping where
  client : Pk
  instance_ : Pk
  key : String
  deriving DecidableEq, Repr

structure Mandate where
  membership : Pk
  organization : Pk
  hub : Pk
  claimant : MandateClaimant
  origin : MandateOrigin
  label : String
  keyHash : Option String
  keyPrefix : String
  agentIdentifier : Option String
  agentDevice : Option Pk
  agentMembership : Option Pk
  /-- `subject_manifest`, as the source reads it back. -/
  pin : MandatePin
  attestation : String
  maxClients : Option Nat
  allowMesh : Bool
  parent : Option Pk
  issuingClient : Option Pk
  configName : Option String
  hubRequest : Option String
  expiresAt : Option Time
  revokedAt : Option Time
  revocationReason : Option MandateRevocation
  lastUsedAt : Option Time
  deriving DecidableEq, Repr

/-! ## Codes and tokens -/

inductive Staging
  | app (manifest : Manifest)
  | hub (manifest : HubManifest)
  deriving DecidableEq, Repr

structure DeviceCode where
  kind : DeviceCodeKind
  code : Nat
  secret : Nat
  client : Pk
  pollingClientId : Option ClientId
  staging : Staging
  organization : Option Pk
  grantedScope : List String
  lastPolledAt : Option Time
  expiresAt : Time
  denied : Bool
  requestAuthKey : Bool
  /-- The mesh key minted at the approval, handed out once. -/
  authKey : Option String
  deriving DecidableEq, Repr

/-- A machine asking to join the mesh. -/
structure MeshDeviceCode where
  code : Nat
  challengeCode : Nat
  user : Option Pk
  authKey : Option String
  expiresAt : Time
  denied : Bool
  deriving DecidableEq, Repr

structure AuthorizationCode where
  membership : Pk
  clientId : ClientId
  code : Nat
  redirectUri : String
  scope : List String
  authTime : Time
  nonce : String
  codeChallenge : String
  codeChallengeMethod : String
  deriving DecidableEq, Repr

structure UsedNonce where
  clientId : ClientId
  nonce : String
  deriving DecidableEq, Repr

structure OAuth2Token where
  /-- The subject: a membership. -/
  user : Pk
  clientId : ClientId
  accessToken : Nat
  refreshToken : Option Nat
  scope : List String
  revoked : Bool
  issuedAt : Time
  expiresIn : Nat
  chainStartedAt : Time
  deriving DecidableEq, Repr

/-! ## The database -/

structure DB where
  now : Time
  /-- The next random draw. -/
  draws : Nat
  users : Table User
  organizations : Table Organization
  roles : Table Role
  scopes : Table Scope
  memberships : Table Membership
  grants : Table CollaborationGrant
  invites : Table Invite
  roleRequests : Table RoleRequest
  membershipRequests : Table MembershipRequest
  devices : Table Device
  hubs : Table Hub
  instances : Table ServiceInstance
  clients : Table Client
  mappings : Table ServiceInstanceMapping
  mandates : Table Mandate
  deviceCodes : Table DeviceCode
  meshDeviceCodes : Table MeshDeviceCode
  authorizationCodes : Table AuthorizationCode
  usedNonces : Table UsedNonce
  tokens : Table OAuth2Token

def DB.empty : DB where
  now := 0
  draws := 0
  users := .empty
  organizations := .empty
  roles := .empty
  scopes := .empty
  memberships := .empty
  grants := .empty
  invites := .empty
  roleRequests := .empty
  membershipRequests := .empty
  devices := .empty
  hubs := .empty
  instances := .empty
  clients := .empty
  mappings := .empty
  mandates := .empty
  deviceCodes := .empty
  meshDeviceCodes := .empty
  authorizationCodes := .empty
  usedNonces := .empty
  tokens := .empty

/-- What the deployment brings along: its digests, what its libraries answer and what it downloads. -/
structure Env where
  /-- SHA-256 of a mandate key. -/
  hashKey : String → String
  /-- A device id, hashed with the salt of an organization. -/
  hashDeviceId : String → Pk → String
  hashManifest : Manifest → String
  /-- The S256 challenge of a PKCE verifier. -/
  s256 : String → String
  /-- Whether the token generator of the OAuth library asks the client for its scope when none reaches it, as
  it does from 1.7 on. -/
  narrowsEmpty : Bool
  /-- What the certificate library finds wrong with a PEM string, if it is not a server certificate that
  names its hosts. -/
  certificateFault : String → Option String
  /-- Why the logo of a manifest, where it names one, cannot be downloaded at a time. -/
  logoFault : Nat → Manifest → Option String

end Lok

/-- The row under a key, or `DoesNotExist`. -/
def Table.get {α : Type} (t : Table α) (pk : Lok.Pk) : Lok.Answer α :=
  Checks.found (t.row pk) ⟨.doesNotExist, "matching query does not exist."⟩

@[simp] theorem Table.get_ok {α : Type} {t : Table α} {pk : Lok.Pk} {a : α} :
    t.get pk = .ok a ↔ t.row pk = some a :=
  Checks.found_ok

/-- `objects.get(..)`: the one row that satisfies `p`. -/
def Table.one {α : Type} (t : Table α) (p : Nat → α → Bool) : Lok.Answer (Lok.Pk × α) :=
  match t.filter p with
  | [r] => .ok r
  | [] => Lok.refuse .doesNotExist "matching query does not exist."
  | _ => Lok.refuse .exception "get() returned more than one row."

theorem Table.one_ok {α : Type} {t : Table α} {p : Nat → α → Bool} {pk : Lok.Pk} {a : α}
    (h : t.one p = .ok (pk, a)) :
    t.row pk = some a ∧ p pk a = true := by
  unfold Table.one at h
  split at h
  · rename_i r hr
    cases h
    exact Table.mem_filter.mp (by rw [hr]; simp)
  · simp at h
  · simp at h
