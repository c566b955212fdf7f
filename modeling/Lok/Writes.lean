import Lok.Deletions
import Lok.Revocation
import Lok.Runs

/-!
# Writes

What any function of the system does to the database is a sequence of writes, each to one
table, under the conditions its callers have checked by then. An invariant is proved once
for each kind of write, and holds of every action whose writes are known. Writes that some
guarantee depends on carry a label, and a licence says which of them an action may make.
-/

namespace Lok

open Table Runs

/-! ## Rows rewritten in place -/

/-- A change of a membership's roles, with the admin flag recomputed when roles go. -/
structure Regrade (db : DB) (pk : Pk) (m m' : Membership) : Prop where
  user : m'.user = m.user
  organization : m'.organization = m.organization
  /-- Roles are only added to a membership without grants. -/
  roles : (∀ r ∈ m'.roles, r ∈ m.roles) ∨ db.hasGrants pk = false
  isAdmin : m'.isAdmin = true → db.holdsAdmin m' = true ∨ m.isAdmin = true ∧ ∀ r ∈ m.roles, r ∈ m'.roles

/-- Whom a client speaks for, and where. -/
structure Binding where
  clientId : ClientId
  membership : Option Pk
  organization : Option Pk
  release : Option Release
  hub : Option Pk
  mandate : Option Pk
  /-- What it may log in by, for a client that was minted. -/
  grants : List GrantType
  deriving DecidableEq, Repr

def ClientId.minted : ClientId → Bool
  | .uuid _ => true
  | .named _ => false

def Client.binding (c : Client) : Binding :=
  ⟨c.clientId, c.membership, c.organization, c.release, c.hub, c.mandate,
   if c.clientId.minted then c.grantTypes else []⟩

/-- It logs in with a mandate key and nothing else. -/
def Binding.keyed (b : Binding) : Bool := b.grants == [.mandateKey]

def Client.Unbound (c : Client) : Prop :=
  c.membership = none ∧ c.organization = none ∧ c.release = none ∧ c.hub = none ∧ c.mandate = none

/-- What a mandate takes from the one it was issued under. -/
structure Mandate.Under (m p : Mandate) : Prop where
  agent : p.claimant = .agent
  root : p.parent = none
  membership : m.membership = p.membership
  hub : m.hub = p.hub
  expiry : ∀ t, p.expiresAt = some t → ∃ u, m.expiresAt = some u ∧ u ≤ t
  pin : m.pin.Within p.pin

/-- What issuing a mandate has seen to. -/
structure Issued (db : DB) (m : Mandate) : Prop where
  fresh : ∀ h, m.keyHash = some h → ∀ pk n, db.mandates.row pk = some n → n.keyHash ≠ some h
  unrevoked : m.revokedAt = none
  membership : ∃ g, db.memberships.row m.membership = some g ∧ g.organization = m.organization
  hub : ∃ h, db.hubs.row m.hub = some h ∧ h.organization = m.organization
  keyed : m.keyHash.isSome = true ↔ m.claimant = .key
  agents : m.claimant = .agent → m.origin = .member ∨ m.origin = .client
  child : m.parent.isSome = true → m.origin = .agent
  ofHub : m.hubRequest.isSome = true → m.origin = .hub
  ofConfig : m.configName.isSome = true → m.origin = .config
  parent : ∀ p, m.parent = some p → ∃ P, db.mandates.row p = some P ∧ m.Under P ∧ P.revokedAt = none

/-- `revokeMandate` of `mandate`: it and its children are revoked, whoever is already stays as it was. -/
def Withdrawn (now : Time) (mandate : Pk) (reason : MandateRevocation) (pk : Pk) (m m' : Mandate) : Prop :=
  if pk = mandate then m' = DB.revokeRow now reason m
  else if m.parent = some mandate then m' = DB.revokeRow now .parentRevoked m
  else m' = m

/-- A login fixes the pin it used and is remembered. -/
def LoggedIn (_ : Pk) (m m' : Mandate) : Prop :=
  m' = m ∨ m.keyHash.isSome = true
    ∧ ∃ manifest now, m' = { m with lastUsedAt := some now, pin := DB.loginPin m.pin manifest }

/-- A hub or the config edits a mandate of its own; whoever logged in for another grantor is gone. -/
structure Resettled (db : DB) (pk : Pk) (m m' : Mandate) : Prop where
  own : m.origin = .hub ∨ m.configName.isSome = true
  same : ∃ g o h pin t n mesh,
    m' = { m with membership := g, organization := o, hub := h, pin := pin, expiresAt := t,
                                             maxClients := n, allowMesh := mesh }
  organization : ∃ g h, db.memberships.row m'.membership = some g ∧ db.hubs.row m'.hub = some h
    ∧ g.organization = h.organization
    ∧ (m'.organization = h.organization ∨ m'.hub = m.hub ∧ m'.organization = m.organization)
  clients : m'.membership = m.membership ∧ m'.hub = m.hub ∨ ∀ k c, db.clients.row k = some c → c.mandate ≠ some pk

/-! ## Who a token is for -/

/-- A client, a stored code or an earlier token says whom a client id speaks for. -/
inductive Vouched (db : DB) (clientId : ClientId) (membership : Pk) : Prop
  | client {pk : Pk} {c : Client} (hc : db.clients.row pk = some c) (hid : c.clientId = clientId)
      (hm : c.membership = some membership)
  | code {pk : Pk} {a : AuthorizationCode} (ha : db.authorizationCodes.row pk = some a)
      (hid : a.clientId = clientId)
      (hm : a.membership = membership)
  | token {pk : Pk} {t : OAuth2Token} (ht : db.tokens.row pk = some t) (hid : t.clientId = clientId)
      (hm : t.user = membership)

/-! ## The writes -/

inductive Label
  | quiet
  /-- A client is registered, or a membership made. -/
  | enroll
  /-- A deletion that began at `origin`. -/
  | delete (origin : Model) (roots : List Ref) (upgrading : Option Pk)
  /-- A mandate with the given key. -/
  | issue (keyHash : Option String)
  /-- An approval binds a client, which was bound as in `before`. -/
  | bind (before : Binding) (membership : Pk)
  /-- A login with a mandate key binds its client. -/
  | login
  /-- A code of a client is stored for a membership. -/
  | authorize (client : Client) (membership : Pk)
  /-- A collaboration is granted. -/
  | share

inductive Write (db : DB) : Label → DB → Prop
  | tick (seconds : Time) : Write db .quiet { db with now := db.now + seconds }
  | users {t} (h : Edit db.users t) : Write db .quiet { db with users := t }
  | organizations {t} (h : Edit db.organizations t) : Write db .quiet { db with organizations := t }
  | newRole (r : Role) : Write db .quiet { db with roles := db.roles.insert r }
  | roles {t} (h : Rewrites (fun _ r r' => r'.identifier = r.identifier ∧ r'.organization = r.organization)
    db.roles t) :
      Write db .quiet { db with roles := t }
  | renameRole {role identifier d} (h : db.renameRole role identifier = .ok d) : Write db .quiet d
  | newScope (s : Scope) : Write db .quiet { db with scopes := db.scopes.insert s }
  | scopes {t}
      (h : Rewrites (fun _ s s' => s'.identifier = s.identifier ∧ s'.organization = s.organization) db.scopes t) :
      Write db .quiet { db with scopes := t }
  | newMembership (m : Membership) (hroles : m.roles = []) (hadmin : m.isAdmin = false)
      (hnew : ∀ pk x, db.memberships.row pk = some x → x.user = m.user → x.organization ≠ m.organization) :
      Write db .enroll { db with memberships := db.memberships.insert m }
  | memberships {t} (h : Rewrites (Regrade db) db.memberships t) : Write db .quiet { db with memberships := t }
  | newGrant (g : CollaborationGrant) {m} (hm : db.memberships.row g.membership = some m) (hroles : m.roles = []) :
      Write db .share { db with grants := db.grants.insert g }
  | grants {t} (h : Rewrites (fun _ g g' => g'.membership = g.membership ∧ g'.instance_ = g.instance_) db.grants
    t) :
      Write db .share { db with grants := t }
  | invites {t} (h : Edit db.invites t) : Write db .quiet { db with invites := t }
  | roleRequests {t} (h : Edit db.roleRequests t) : Write db .quiet { db with roleRequests := t }
  | membershipRequests {t} (h : Edit db.membershipRequests t) : Write db .quiet { db with membershipRequests := t }
  | newDevice (d : Device) : Write db .quiet { db with devices := db.devices.insert d }
  | newHub (h : Hub) (hclient : h.client = none) : Write db .quiet { db with hubs := db.hubs.insert h }
  | hubs {t} (h : Rewrites (fun _ x x' => x'.organization = x.organization ∧ x'.client = x.client) db.hubs t) :
      Write db .quiet { db with hubs := t }
  | identify {hub client h c m} (hh : db.hubs.row hub = some h) (hc : db.clients.row client = some c)
      (hm : c.membership = some m) (ho : c.organization = some h.organization)
      (hnew : ∀ k x, k ≠ hub → db.hubs.row k = some x → x.client ≠ some client) :
      Write db .quiet { db with hubs := db.hubs.modify hub fun x => { x with client := some client } }
  | newInstance (i : ServiceInstance) {h} (hh : db.hubs.row i.hub = some h)
    (ho : h.organization = i.organization) :
      Write db .quiet { db with instances := db.instances.insert i }
  | instances {t}
      (h : Rewrites (fun _ i i' => i'.hub = i.hub ∧ (i'.organization = i.organization
        ∨ ∃ h, db.hubs.row i.hub = some h ∧ i'.organization = h.organization)) db.instances t) :
      Write db .quiet { db with instances := t }
  | newClient (c : Client) (hid : c.clientId = .uuid db.draws) (hunbound : c.Unbound)
      (hgrants : c.grantTypes = faktsClientGrantTypes ∨ c.grantTypes = [.mandateKey]) :
      Write db .enroll { db with draws := db.draws + 1, clients := db.clients.insert c }
  | newRelyingParty (c : Client) (name : String) (hid : c.clientId = .named name) (hunbound : c.Unbound)
      (hnew : ∀ pk d, db.clients.row pk = some d → d.clientId ≠ .named name) :
      Write db .enroll { db with clients := db.clients.insert c }
  | clients {t} (h : Rewrites (fun _ c c' => c'.binding = c.binding) db.clients t)
      (hnode : Rewrites (fun _ c c' => c'.node = c.node) db.clients t) : Write db .quiet { db with clients := t }
  | bindApp {pk c c' m o} (hc : db.clients.row pk = some c) (hid : c'.clientId = c.clientId)
      (hgrants : c'.binding.grants = c.binding.grants)
      (hmandate : c'.mandate = none ∨ c'.mandate = c.mandate) (hm : c'.membership = some m)
        (horg : c'.organization = some o)
      (hmembership : ∃ g, db.memberships.row m = some g ∧ g.organization = o)
      (hhub : c'.hub = c.hub ∨ ∀ k h, c'.hub = some k → db.hubs.row k = some h → h.organization = o)
      (hnode : c'.mandate = none ∨ c'.node = c.node) :
      Write db (.bind c.binding m) { db with clients := db.clients.put pk c' }
  | bindKeyed {pk c c' M mandate} (hc : db.clients.row pk = some c) (hid : c'.clientId = c.clientId)
      (hgrants : c'.binding.grants = c.binding.grants)
      (hmandate : c'.mandate = some M) (hM : db.mandates.row M = some mandate)
        (hm : c'.membership = some mandate.membership)
      (hmembership : ∃ g, db.memberships.row mandate.membership = some g ∧ c'.organization = some g.organization)
      (hhub : c'.hub = some mandate.hub)
      (hbefore : c.membership = none ∧ c.binding.keyed = true
        ∨ ∃ old o, c.mandate = some old ∧ db.mandates.row old = some o ∧ o.membership = mandate.membership)
      (hnode : ∀ k x, k ≠ pk → db.clients.row k = some x → x.mandate = some M → x.node ≠ c'.node)
      (hlive : mandate.revokedAt = none) :
      Write db .login { db with clients := db.clients.put pk c' }
  | newMapping (x : ServiceInstanceMapping) {c i} (hc : db.clients.row x.client = some c)
      (hi : db.instances.row x.instance_ = some i) (hhub : c.hub = some i.hub) :
      Write db .quiet { db with mappings := db.mappings.insert x }
  | dropMappings (p : Nat → ServiceInstanceMapping → Bool) : Write db .quiet
    { db with mappings := db.mappings.keep p }
  | issue {m} (h : Issued db m) : Write db (.issue m.keyHash) { db with mandates := db.mandates.insert m }
  | reissue {t} (h : Rewrites (fun _ m m' => ∃ c, m' = { m with issuingClient := c }) db.mandates t) :
      Write db .quiet { db with mandates := t }
  | withdraw {mandate reason t} (h : Rewrites (Withdrawn db.now mandate reason) db.mandates t)
      (hbare : ∀ k c M m, db.clients.row k = some c → c.mandate = some M → db.mandates.row M = some m →
        M ≠ mandate ∧ m.parent ≠ some mandate) :
      Write db .quiet { db with mandates := t }
  | logIn {t} (h : Rewrites LoggedIn db.mandates t) : Write db .quiet { db with mandates := t }
  | resettle {pk t} (h : Rewrites (fun k m m' => m' = m ∨ k = pk ∧ Resettled db k m m') db.mandates t) :
      Write db .quiet { db with mandates := t }
  | stage (c : DeviceCode) (hsecret : c.secret = db.draws + 1)
      (hclient : ∃ d n, db.clients.row c.client = some d ∧ d.clientId = .uuid n ∧ db.draws = n + 1
        ∧ d.mandate = none
        ∧ d.binding.keyed = false) :
      Write db .quiet { db with draws := db.draws + 2, deviceCodes := db.deviceCodes.insert c }
  | deviceCodes {t}
      (h : Rewrites (fun _ c c' => c'.client = c.client ∧ c'.secret = c.secret ∧ c'.expiresAt = c.expiresAt
        ∧ (c.denied = true → c'.denied = true)) db.deviceCodes t) :
      Write db .quiet { db with deviceCodes := t }
  | repoint {pk kept c m} (polling : Option ClientId) (hc : db.clients.row kept = some c)
      (hm : c.membership = some m)
      (hmandate : c.mandate = none) :
      Write db .quiet { db with deviceCodes := db.deviceCodes.modify pk fun x =>
        { x with pollingClientId := polling, client := kept } }
  | stageMesh (c : MeshDeviceCode) :
      Write db .quiet { db with draws := db.draws + 2, meshDeviceCodes := db.meshDeviceCodes.insert c }
  | answerMesh (pk : Pk) (c : MeshDeviceCode) : Write db .quiet
    { db with meshDeviceCodes := db.meshDeviceCodes.put pk c }
  | authorize {pk c} (a : AuthorizationCode) (hc : db.clients.row pk = some c) (hid : a.clientId = c.clientId)
      (hcode : a.code = db.draws) :
      Write db (.authorize c a.membership)
        { db with draws := db.draws + 1, authorizationCodes := db.authorizationCodes.insert a }
  | dropCodes (p : Nat → AuthorizationCode → Bool) :
      Write db .quiet { db with authorizationCodes := db.authorizationCodes.keep p }
  | usedNonces {t} (h : Edit db.usedNonces t) : Write db .quiet { db with usedNonces := t }
  | mint (t : OAuth2Token) (hvouched : Vouched db t.clientId t.user)
      (hrefresh : ∀ r, t.refreshToken = some r → r = db.draws + 1) :
      Write db .quiet { db with draws := db.draws + 2, tokens := db.tokens.insert t }
  | tokens {t}
      (h : Rewrites (fun _ t t' => ∃ r, t' = { t with revoked := r } ∧ (t.revoked = true → r = true))
        db.tokens t) :
      Write db .quiet { db with tokens := t }
  | dropTokens (p : Nat → OAuth2Token → Bool) : Write db .quiet { db with tokens := db.tokens.keep p }
  | delete (origin : Model) (roots : List Ref) (upgrading : Option Pk) :
      Write db (.delete origin roots upgrading) (db.delete origin roots upgrading)

/-! ## Licences -/

/-- Where every deletion but one asked for directly begins. -/
def routineOrigins : List Model := [.grant, .client, .deviceCode, .meshDeviceCode, .instance_, .role, .scope]

/-- The labelled writes an action may make, besides routine ones. -/
structure Licence where
  enroll : Prop
  upgrade : Pk → Prop
  issue : String → Prop
  bind : Binding → Pk → Prop
  login : Prop
  authorize : Client → Pk → Prop
  share : Prop

/-- The licence to make any write but a deletion asked for directly. -/
def Licence.free : Licence := ⟨True, fun _ => True, fun _ => True, fun _ _ => True, True, fun _ _ => True, True⟩

def Licence.admits (A : Licence) : Label → Prop
  | .quiet => True
  | .enroll => A.enroll
  | .delete origin roots upgrading =>
    origin ∈ routineOrigins ∧ (∀ r ∈ roots, r.model = origin) ∧ ∀ m, upgrading = some m → A.upgrade m
  | .issue keyHash => ∀ h, keyHash = some h → A.issue h
  | .bind before membership => A.bind before membership
  | .login => A.login
  | .authorize client membership => A.authorize client membership
  | .share => A.share

/-- A sequence of writes within a licence. -/
abbrev Writes (A : Licence) (db d : DB) : Prop := Via Write A.admits db d

end Lok
