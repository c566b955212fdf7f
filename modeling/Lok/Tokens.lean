import Lok.DeviceCodes

/-!
# Tokens

The authorization endpoint stores a code for the membership the signed-in user picked; the
token endpoint redeems a device code, an authorization code, a refresh token or a mandate
key. Each grant takes the subject from a different place, the claims are computed from the
subject and the client, and the row of the token is what revocation and refreshing read.
A refused request may still have written: a poll its time, a replayed refresh token the
revocation of its chain.
-/

namespace Lok

open Checks

def refreshTokenLifetime : Time := 2592000

def refreshChainMaxLifetime : Time := 15552000

/-- An authorization code is valid for ten minutes. -/
def authorizationCodeLifetime : Time := 600

/-- The interval a device may poll at. -/
def pollInterval : Time := 5

def accessTokenLifetimeDefault : Nat := 3600

def minAccessTokenExpiresIn : Nat := 300

def maxAccessTokenExpiresIn : Nat := 86400

def scopedAccessTokenExpiresIn : Nat := 900

/-- What the token is for: the services of a hub by name (and lok), or the client itself. -/
inductive Audience
  | services (names : List String)
  | client (clientId : ClientId)
  deriving DecidableEq, Repr

structure Claims where
  /-- The subject: a membership. -/
  membership : Pk
  user : Pk
  org : Pk
  roles : List String
  collabs : List (String × String × List String)
  scope : List String
  clientApp : Option String
  clientRelease : Option String
  clientDevice : Option String
  clientRole : Option ClientRole
  hub : Option String
  act : Option (String × Pk)
  aud : Audience
  deriving DecidableEq, Repr

/-- What is posted to the token endpoint, by grant. -/
inductive TokenRequest
  | deviceCode (clientId : ClientId) (deviceCode : Nat)
  | authorizationCode (clientId : ClientId) (secret : Option String) (code : Nat) (redirectUri verifier : String)
  | refreshToken (clientId : ClientId) (secret : Option String) (refreshToken : Nat) (scope : List String)
  | mandateKey (request : MandateKeyGrantRequest) (minted : Option String)
  deriving DecidableEq, Repr

structure TokenResponse where
  client : Pk
  claims : Claims
  /-- The key of the row that was saved. -/
  token : Pk
  meshKey : Option String
  deriving DecidableEq, Repr

namespace OAuth2Token

def isRefreshTokenActive (t : OAuth2Token) (now : Time) : Bool :=
  !t.revoked && now ≤ t.issuedAt + refreshTokenLifetime && now ≤ t.chainStartedAt + refreshChainMaxLifetime

end OAuth2Token

namespace AuthorizationCode

def isExpired (c : AuthorizationCode) (now : Time) : Bool := c.authTime + authorizationCodeLifetime < now

end AuthorizationCode

namespace Client

def checkGrantType (c : Client) (g : GrantType) : Bool := c.grantTypes.contains g

/-- `get_allowed_scope`: an omitted scope is the client's own. -/
def allowedScope (c : Client) (scope : List String) : List String :=
  if scope.isEmpty then c.scope else scope.filter c.scope.contains

/-- The scope a token is generated for: the library asks the client, for an empty scope only where it
narrows that too. -/
def issuedScope (env : Env) (c : Client) (scope : List String) : List String :=
  if scope.isEmpty && !env.narrowsEmpty then [] else c.allowedScope scope

end Client

/-- A PKCE verifier or challenge: 43 to 128 unreserved characters. -/
def pkcePattern (s : String) : Bool :=
  43 ≤ s.length && s.length ≤ 128
    && s.toList.all fun c => c.isAlphanum || c == '-' || c == '.' || c == '_' || c == '~'

namespace DB

variable (db : DB)

/-! ## Claims -/

/-- The lifetime of the client's organization: what it set (not nought), within what is allowed. -/
def organizationLifetime (c : Client) : Nat :=
  match (c.organization.bind db.organizations.row).bind (·.accessTokenLifetime) with
  | none | some 0 => accessTokenLifetimeDefault
  | some n => (max (minAccessTokenExpiresIn : Int) (min n maxAccessTokenExpiresIn)).toNat

def isScopedClient (c : Client) : Bool := c.membership.any db.isScoped

def accessTokenExpiresIn (c : Client) : Nat :=
  if db.isScopedClient c then min (db.organizationLifetime c) scopedAccessTokenExpiresIn else
    db.organizationLifetime c

def mappingsOf (client : Pk) : List ServiceInstanceMapping :=
  (db.mappings.filter fun _ m => m.client == client).map (·.2)

/-- The hub a client is the identity of. -/
def hubIdentity (client : Pk) : Option Hub := (db.hubs.first fun _ h => h.client == some client).map (·.2)

/-- `_app_hub`: the client's hub, else the one hub its services run in. -/
def appHub (pk : Pk) (c : Client) : Option Hub :=
  match c.hub with
  | some h => db.hubs.row h
  | none =>
    match ((db.mappingsOf pk).filterMap fun m => db.hubOf m.instance_).dedup with
    | [h] => db.hubs.row h
    | _ => none

/-- `_actor_claim`: the app that issued the key a client logs in with. -/
def actorClaim (c : Client) : Option (String × Pk) := do
  let pk ← c.mandate
  let m ← db.mandates.row pk
  match m.parent with
  | some p => do
    let parent ← db.mandates.row p
    return (parent.agentIdentifier.getD "", p)
  | none => do
    let issuer ← m.issuingClient.bind db.clients.row
    let release ← issuer.release
    return (release.identifier, pk)

/-- The names of the services a client is composed for. -/
def instanceAudiences (pk : Pk) : List String :=
  sortedSet ((db.mappingsOf pk).filterMap fun m => (db.instances.row m.instance_).map (·.instanceId))

/-- `get_audiences`. -/
def audiences (pk : Pk) (c : Client) : Audience :=
  if c.release.isSome then .services ("lok" :: db.instanceAudiences pk)
  else if (db.hubIdentity pk).isSome then .services ["lok"]
  else .client c.clientId

/-- `get_extra_claims`, for the client `c` and the subject membership. -/
def extraClaims (pk : Pk) (c : Client) (subject : Pk) (m : Membership) (scope : List String) : Claims :=
  let isApp := c.release.isSome
  let tokenHub := (db.hubIdentity pk).orElse fun _ => if isApp then db.appHub pk c else none
  let guest := db.isScoped subject
  { membership := subject, user := m.user, org := m.organization,
    roles := if guest then [] else m.roles.filterMap fun r => (db.roles.row r).map (·.identifier),
    collabs := if guest && isApp then db.liveCollaborations subject ((db.mappingsOf pk).map (·.instance_)) else [],
    scope := if scope.isEmpty then c.scope else scope,
    clientApp := c.release.map (·.identifier), clientRelease := c.release.map (·.version),
    clientDevice := if isApp then (c.node.bind db.devices.row).map (·.nodeId) else none,
    clientRole := if isApp then some c.role else none,
    hub := tokenHub.map (·.uid), act := if isApp then db.actorClaim c else none, aud := db.audiences pk c }

/-- Generate a token for a subject and save its row. -/
def issueToken (env : Env) (pk : Pk) (c : Client) (subject : Pk) (scope : List String)
    (includeRefreshToken : Bool) :
    Answer (DB × TokenResponse) := do
  let m ← db.memberships.get subject
  let narrowed := c.issuedScope env scope
  let row : OAuth2Token :=
    { user := subject, clientId := c.clientId, accessToken := db.draws,
      refreshToken := if includeRefreshToken then some (db.draws + 1) else none, scope := narrowed,
      revoked := false, issuedAt := db.now, expiresIn := db.accessTokenExpiresIn c, chainStartedAt := db.now }
  return ({ db with draws := db.draws + 2, tokens := db.tokens.insert row },
    ⟨pk, db.extraClaims pk c subject m narrowed, db.tokens.next, none⟩)

/-! ## Clients at the endpoints -/

/-- `query_client`: a device whose approval kept an earlier client still polls as the id it registered with. -/
def queryClient (clientId : ClientId) : Option (Pk × Client) :=
  match db.clients.first fun _ c => c.clientId == clientId with
  | some r => some r
  | none => do
    let (_, code) ← db.deviceCodes.first fun _ c => c.pollingClientId == some clientId
    let c ← db.clients.row code.client
    return (code.client, c)

/-- Public clients authenticate by their id alone, confidential ones by their secret. -/
def authenticateClient (clientId : ClientId) (secret : Option String) : Answer (Pk × Client) := do
  let (pk, c) ← found (db.queryClient clientId) ⟨.invalidClient, "The client does not exist on this server."⟩
  assert (c.clientSecret == secret) .invalidClient "The client cannot authenticate with this method."
  return (pk, c)

def clientFor (clientId : ClientId) (secret : Option String) (grant : GrantType) : Answer (Pk × Client) := do
  let (pk, c) ← db.authenticateClient clientId secret
  assert (c.checkGrantType grant) .unauthorizedClient "The client is not authorized to use this grant."
  return (pk, c)

/-! ## The authorization endpoint -/

/-- What a browser submits to the consent page. -/
structure AuthorizationRequest where
  clientId : ClientId
  redirectUri : Option String
  scope : List String
  codeChallenge : String
  codeChallengeMethod : String
  nonce : String
  deriving DecidableEq, Repr

/-- `exists_nonce`, under the client id as it was sent. -/
def existsNonce (clientId : ClientId) (nonce : String) : Bool :=
  (db.authorizationCodes.exists? fun _ c => c.clientId == clientId && c.nonce == nonce)
    || db.usedNonces.exists? fun _ n => n.clientId == clientId && n.nonce == nonce

/-- What the authorization request must satisfy, whoever signed in. -/
def validateAuthorizationRequest (r : AuthorizationRequest) : Answer Client := do
  let (_, c) ← found (db.queryClient r.clientId) ⟨.invalidClient, "The client does not exist on this server."⟩
  match r.redirectUri with
  | some uri => assert (c.redirectUris.contains uri) .invalidRequest "Redirect URI is not supported by client."
  | none => assert (!c.redirectUris.isEmpty) .invalidRequest "Missing 'redirect_uri' in request."
  assert (r.codeChallenge != "") .invalidRequest "Missing 'code_challenge' in request."
  assert (pkcePattern r.codeChallenge) .invalidRequest "Invalid 'code_challenge' in request."
  assert (r.codeChallengeMethod == "" || r.codeChallengeMethod == "S256") .invalidRequest
    "Unsupported 'code_challenge_method'"
  if r.scope.contains "openid" then
    assert (!(c.requireNonce && r.nonce == "")) .invalidRequest "Missing 'nonce' in request."
    assert (r.nonce == "" || !db.existsNonce r.clientId r.nonce) .invalidRequest "Replay attack"
  return c

/-- `authorize`, the consent decision of a signed-in user: a code for their membership in the organization
they picked. -/
def authorize (user organization : Pk) (r : AuthorizationRequest) : Answer (DB × Nat) := do
  let (membership, _) ← found (db.membershipOf user organization)
    ⟨.invalidRequest, "You are not a member of the selected organization."⟩
  let c ← db.validateAuthorizationRequest r
  let code : AuthorizationCode :=
    { membership, clientId := c.clientId, code := db.draws, redirectUri := r.redirectUri.getD "", scope := r.scope,
      authTime := db.now, nonce := r.nonce, codeChallenge := r.codeChallenge,
      codeChallengeMethod := r.codeChallengeMethod }
  return ({ db with draws := db.draws + 1, authorizationCodes := db.authorizationCodes.insert code }, db.draws)

/-! ## The authorization-code grant -/

def queryAuthorizationCode (code : Nat) (clientId : ClientId) : Option (Pk × AuthorizationCode) :=
  (db.authorizationCodes.first fun _ c => c.code == code && c.clientId == clientId).filter
    fun c => !c.2.isExpired db.now

def verifyCode (env : Env) (c : AuthorizationCode) (verifier : String) : Answer Unit := do
  assert (verifier != "") .invalidRequest "Missing 'code_verifier'"
  assert (pkcePattern verifier) .invalidRequest "Invalid 'code_verifier'"
  assert (env.s256 verifier == c.codeChallenge) .invalidGrant "Code challenge failed."

/-- `UsedNonce.objects.get_or_create`, when the code carries one. -/
def useNonce (clientId : ClientId) (nonce : String) : DB :=
  if nonce == "" || db.usedNonces.exists? fun _ n => n.clientId == clientId && n.nonce == nonce then db
  else { db with usedNonces := db.usedNonces.insert ⟨clientId, nonce⟩ }

/-- The authorization-code grant: the subject is the membership the code was stored for. -/
def exchangeCode (env : Env) (clientId : ClientId) (secret : Option String) (code : Nat)
    (redirectUri verifier : String) :
    Answer (DB × TokenResponse) := do
  let (pk, c) ← db.clientFor clientId secret .authorizationCode
  let (codePk, item) ← found (db.queryAuthorizationCode code c.clientId)
    ⟨.invalidGrant, "Invalid 'code' in request."⟩
  assert (item.redirectUri == "" || redirectUri == item.redirectUri) .invalidGrant
    "Invalid 'redirect_uri' in request."
  verifyCode env item verifier
  let (d, response) ← (db.useNonce item.clientId item.nonce).issueToken env pk c item.membership item.scope
    (c.checkGrantType .refreshToken)
  return ({ d with authorizationCodes := d.authorizationCodes.keep fun k _ => k != codePk }, response)

/-! ## The refresh grant -/

/-- Revoke what is left of a chain, and every mandate its client issued: the token leaked. -/
def revokeChain (t : OAuth2Token) : DB :=
  let ofChain := fun (x : OAuth2Token) => x.clientId == t.clientId
    && x.chainStartedAt == t.chainStartedAt && !x.revoked
  let d := { db with tokens := db.tokens.updateWhere (fun _ x => ofChain x) fun x => { x with revoked := true } }
  (d.revokeIssuedBy (d.clients.pks fun _ c => c.clientId == t.clientId)).1

/-- `authenticate_refresh_token`: presenting a consumed token revokes its chain. -/
def authenticateRefreshToken (refreshToken : Nat) : DB × Option (Pk × OAuth2Token) :=
  match db.tokens.first fun _ t => t.refreshToken == some refreshToken with
  | none => (db, none)
  | some (pk, t) =>
    if t.isRefreshTokenActive db.now then (db, some (pk, t))
    else if t.revoked then (db.revokeChain t, none)
    else (db, none)

/-- The scope a refresh asks for must lie within the one the token was granted. -/
def refreshScope (t : OAuth2Token) (scope : List String) : Answer (List String) := do
  if scope.isEmpty then return t.scope
  assert (!t.scope.isEmpty && scope.all t.scope.contains) .invalidRequest
    "The requested scope is invalid, unknown, or malformed."
  return scope

/-- Rotate: a new token for the old one's subject, which is revoked; the chain keeps its start. -/
def rotate (env : Env) (pk : Pk) (c : Client) (tokenPk : Pk) (t : OAuth2Token) (scope : List String) :
    Answer (DB × TokenResponse) := do
  let scope ← refreshScope t scope
  let (d, response) ← db.issueToken env pk c t.user scope true
  let d := { d with tokens := d.tokens.modify tokenPk fun x => { x with revoked := true } }
  return ({ d with
      tokens := d.tokens.modify response.token fun x => { x with chainStartedAt := t.chainStartedAt } }, response)

/-- Run a request in which a refusal leaves the database as it was. -/
def orElseSame {α : Type} (x : Answer (DB × α)) : DB × Answer α :=
  match x with
  | .ok (d, a) => (d, .ok a)
  | .error e => (db, .error e)

/-- The refresh grant: the subject is that of the token it rotates. -/
def refresh (env : Env) (clientId : ClientId) (secret : Option String) (refreshToken : Nat) (scope : List String) :
    DB × Answer TokenResponse :=
  match db.clientFor clientId secret .refreshToken with
  | .error e => (db, .error e)
  | .ok (pk, c) =>
    match db.authenticateRefreshToken refreshToken with
    | (d, none) => (d, refuse .invalidGrant "")
    | (d, some (tokenPk, t)) =>
      if t.clientId == c.clientId then d.orElseSame (d.rotate env pk c tokenPk t scope)
      else (d, refuse .invalidGrant "")

/-! ## The device-code grant -/

/-- `should_slow_down`: remember the poll, and answer whether it came too soon. -/
def shouldSlowDown (pk : Pk) (c : DeviceCode) : DB × Bool :=
  ({ db with deviceCodes := db.deviceCodes.modify pk fun x => { x with lastPolledAt := some db.now } },
    c.lastPolledAt.any fun last => db.now < last + pollInterval)

/-- `validate_device_credential`: the subject of an approved code. -/
def validateDeviceCredential (pk : Pk) (c : DeviceCode) : DB × Answer Pk :=
  if db.isExpired c then (db, refuse .expiredToken "")
  else if c.denied then (db, refuse .accessDenied "")
  else match (db.clients.row c.client).bind (·.membership) with
    | some membership => (db, .ok membership)
    | none =>
      let (d, soon) := db.shouldSlowDown pk c
      (d, if soon then refuse .slowDown "" else refuse .authorizationPending "")

/-- Mint the tokens of an approved code, hand out its mesh key, and burn it. -/
def redeemDeviceCode (env : Env) (pk : Pk) (c : Client) (codePk : Pk) (code : DeviceCode) (subject : Pk) :
    Answer (DB × TokenResponse) := do
  let (d, response) ← db.issueToken env pk c subject code.grantedScope (c.checkGrantType .refreshToken)
  return (d.delete .deviceCode [⟨.deviceCode, codePk⟩] none, { response with meshKey := code.authKey })

/-- A poll of the token endpoint with a device code's secret. -/
def pollDeviceCode (env : Env) (clientId : ClientId) (deviceCode : Nat) : DB × Answer TokenResponse :=
  match db.clientFor clientId none .deviceCode with
  | .error e => (db, .error e)
  | .ok (pk, c) =>
    match db.deviceCodes.first fun _ x => x.secret == deviceCode with
    | none => (db, refuse .invalidRequest "Invalid 'device_code' in payload")
    | some (codePk, code) =>
      if (db.clients.row code.client).any (·.clientId == c.clientId) then
        match db.validateDeviceCredential codePk code with
        | (d, .error e) => (d, .error e)
        | (d, .ok subject) =>
          d.orElseSame (reraise (fun _ => true) .invalidGrant (d.redeemDeviceCode env pk c codePk code subject))
      else (db, refuse .unauthorizedClient "")

/-! ## The mandate-key grant -/

/-- The form fields are checked before the key is. -/
def validateKeyRequest (r : MandateKeyGrantRequest) : Answer Unit := do
  assert (32 ≤ r.key.length && r.key.length ≤ 1000) .invalidRequest "Malformed request"
  assert (r.kind == .development || r.kind == .desktop || r.kind == .mobile) .invalidRequest "Malformed request"

/-- The mandate-key grant: the subject is the membership of the client the key logs in as; no refresh token. -/
def mandateKeyGrant (env : Env) (r : MandateKeyGrantRequest) (minted : Option String) :
    Answer (DB × TokenResponse) := do
  validateKeyRequest r
  let (d, pk) ← reraise (fun _ => true) .invalidGrant (db.authenticateKey env r)
  let c ← d.clients.get pk
  let subject ← found c.membership ⟨.invalidClient, "Client is not attached to an organization membership."⟩
  let mesh := r.requestAuthKey && (c.mandate.bind d.mandates.row).any (·.allowMesh)
  let (d, response) ← d.issueToken env pk c subject c.scope false
  let d := { d with tokens := d.tokens.keep fun _ t =>
    !(t.clientId == c.clientId && t.refreshToken.isNone && t.issuedAt + maxAccessTokenExpiresIn < d.now) }
  return (d, { response with meshKey := if mesh then minted else none })

/-! ## The two endpoints -/

/-- `create_token_response`: the grant answers, and a refused request leaves what it wrote on the way. -/
def createTokenResponse (env : Env) : TokenRequest → DB × Answer TokenResponse
  | .deviceCode clientId deviceCode => db.pollDeviceCode env clientId deviceCode
  | .authorizationCode clientId secret code redirectUri verifier =>
    db.orElseSame (db.exchangeCode env clientId secret code redirectUri verifier)
  | .refreshToken clientId secret refreshToken scope => db.refresh env clientId secret refreshToken scope
  | .mandateKey request minted => db.orElseSame (db.mandateKeyGrant env request minted)

/-- A client revokes one of its own tokens. -/
def revokeToken (clientId : ClientId) (secret : Option String) (token : Nat) : Answer DB := do
  let (_, c) ← db.authenticateClient clientId secret
  let (pk, t) ← found (db.tokens.first fun _ t => t.refreshToken == some token || t.accessToken == token)
    ⟨.invalidGrant, ""⟩
  assert (t.clientId == c.clientId) .invalidGrant ""
  return { db with tokens := db.tokens.modify pk fun t => { t with revoked := true } }

end DB

end Lok
