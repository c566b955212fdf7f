import Lok.IssuedScopes

/-!
# Exchanges of one code

An authorization code is looked up, its nonce remembered, the token generated and saved, and only
then the code is deleted, each in a transaction of its own; the authorization endpoint checks
a request and saves its code later likewise. However the steps of many requests are
interleaved, the deletion lets one exchange of a code through. But whoever comes late has saved
its token by then, and leaves it behind.
-/

namespace Lok

open Table Runs Checks

/-- What is posted to exchange a code. -/
structure CodeRequest where
  clientId : ClientId
  secret : Option String
  code : Nat
  redirectUri : String
  verifier : String
  deriving DecidableEq, Repr

/-- What an exchange goes on with: the request, when it came, its client and the code it found. -/
structure FoundCode where
  request : CodeRequest
  at_ : Time
  pk : Pk
  client : Client
  codePk : Pk
  item : AuthorizationCode

namespace DB

variable (db : DB)

/-! ## The steps of an exchange -/

/-- `validate_token_request`: the client, the code by `query_authorization_code`, and its verifier. -/
def findCode (env : Env) (r : CodeRequest) : Answer FoundCode := do
  let (pk, c) ← db.clientFor r.clientId r.secret .authorizationCode
  let (codePk, item) ← found (db.queryAuthorizationCode r.code c.clientId)
    ⟨.invalidGrant, "Invalid 'code' in request."⟩
  assert (item.redirectUri == "" || r.redirectUri == item.redirectUri) .invalidGrant
    "Invalid 'redirect_uri' in request."
  verifyCode env item r.verifier
  return ⟨r, db.now, pk, c, codePk, item⟩

def authenticateUser (f : FoundCode) : DB := db.useNonce f.item.clientId f.item.nonce

/-- `generate_token` and `save_token`. -/
def saveToken (env : Env) (f : FoundCode) : Answer (DB × TokenResponse) :=
  db.issueToken env f.pk f.client f.item.membership f.item.scope (f.client.checkGrantType .refreshToken)

def deleteAuthorizationCode (codePk : Pk) : Answer DB :=
  if (db.authorizationCodes.row codePk).isSome then
    .ok { db with authorizationCodes := db.authorizationCodes.keep fun k _ => k != codePk }
  else refuse .invalidGrant "Authorization code has already been used."

/-! ## The steps of an authorization -/

/-- `validate_authorization_request`, of a user who is a member. -/
def checkAuthorization (user organization : Pk) (r : AuthorizationRequest) : Answer (Pk × Client) := do
  let (membership, _) ← found (db.membershipOf user organization)
    ⟨.invalidRequest, "You are not a member of the selected organization."⟩
  let c ← db.validateAuthorizationRequest r
  return (membership, c)

def saveAuthorizationCode (membership : Pk) (c : Client) (r : AuthorizationRequest) : DB × Nat :=
  let code : AuthorizationCode :=
    { membership, clientId := c.clientId, code := db.draws, redirectUri := r.redirectUri.getD "", scope := r.scope,
      authTime := db.now, nonce := r.nonce, codeChallenge := r.codeChallenge,
      codeChallengeMethod := r.codeChallengeMethod }
  ({ db with draws := db.draws + 1, authorizationCodes := db.authorizationCodes.insert code }, db.draws)

variable {db} {env : Env} {d : DB}

theorem findCode_ok {r : CodeRequest} {f : FoundCode} (h : db.findCode env r = .ok f) :
    db.authorizationCodes.row f.codePk = some f.item ∧ f.item.clientId = f.client.clientId
      ∧ f.item.isExpired f.at_ = false ∧ verifyCode env f.item f.request.verifier = .ok () := by
  simp only [findCode, bind_ok, found_ok, require_ok, exists_unit, pure_ok, Prod.exists] at h
  obtain ⟨pk, c, -, codePk, item, hquery, -, hverify, rfl⟩ := h
  obtain ⟨hrow, -, hclient, hexpired⟩ := queryAuthorizationCode_some hquery
  exact ⟨hrow, hclient, hexpired, hverify⟩

theorem saveToken_ok {f : FoundCode} {response : TokenResponse} (h : db.saveToken env f = .ok (d, response)) :
    d.authorizationCodes = db.authorizationCodes ∧ d.usedNonces = db.usedNonces := by
  obtain ⟨t, hsaved⟩ := issueToken_ok h
  rw [show d = _ from hsaved.state]
  exact ⟨rfl, rfl⟩

theorem useNonce_codes (clientId : ClientId) (nonce : String) :
    (db.useNonce clientId nonce).authorizationCodes = db.authorizationCodes := by
  obtain ⟨t, ht, -⟩ := useNonce_eq db clientId nonce
  rw [ht]

theorem deleteAuthorizationCode_ok {k : Pk} (h : db.deleteAuthorizationCode k = .ok d) :
    (∃ a, db.authorizationCodes.row k = some a)
      ∧ d = { db with authorizationCodes := db.authorizationCodes.keep fun j _ => j != k } := by
  unfold deleteAuthorizationCode at h
  split at h
  · rename_i hsome
    cases h
    exact ⟨Option.isSome_iff_exists.mp hsome, rfl⟩
  · exact absurd h (by simp)

theorem deleteAuthorizationCode_error {k : Pk} {e : Refused} (h : db.deleteAuthorizationCode k = .error e) :
    db.authorizationCodes.row k = none := by
  unfold deleteAuthorizationCode at h
  split at h
  · cases h
  · rename_i hnone
    simpa using hnone

theorem exchangeCode_steps (r : CodeRequest) :
    db.exchangeCode env r.clientId r.secret r.code r.redirectUri r.verifier = (do
    let f ← db.findCode env r
    let (d, response) ← (db.authenticateUser f).saveToken env f
    let d ← d.deleteAuthorizationCode f.codePk
    return (d, response)) := by
  simp only [exchangeCode, findCode, bind_assoc, pure_bind]
  refine bind_congr_ok fun x _ => bind_congr_ok
    fun y hfound => bind_congr_ok fun _ _ => bind_congr_ok fun _ _ => ?_
  obtain ⟨codePk, item⟩ := y
  obtain ⟨hrow, -⟩ := queryAuthorizationCode_some (found_ok.mp hfound)
  refine bind_congr_ok fun z hsaved => ?_
  obtain ⟨d, response⟩ := z
  -- nobody deleted the code meanwhile
  have hrow' : d.authorizationCodes.row codePk = some item := by
    have hcodes := (saveToken_ok (f := ⟨r, db.now, x.1, x.2, codePk, item⟩) hsaved).1
    rw [hcodes, useNonce_codes]
    exact hrow
  simp only [deleteAuthorizationCode, hrow', Option.isSome_some, if_true]
  rfl

theorem authorize_steps (user organization : Pk) (r : AuthorizationRequest) :
    db.authorize user organization r = (do
    let (membership, c) ← db.checkAuthorization user organization r
    return db.saveAuthorizationCode membership c r) := by
  simp only [authorize, checkAuthorization, saveAuthorizationCode, bind_assoc, pure_bind]

end DB

/-! ## Many requests -/

/-- How far an exchange has come: it found its code, remembered the nonce, saved the token, and was answered
or came too late to delete the code. -/
inductive Exchange
  | found (f : FoundCode)
  | noted (f : FoundCode)
  | saved (f : FoundCode) (response : TokenResponse)
  | answered (f : FoundCode) (response : TokenResponse)
  | late (f : FoundCode) (response : TokenResponse)
  | refused

/-- How far an authorization has come. -/
inductive Consent
  | checked (membership : Pk) (client : Client) (r : DB.AuthorizationRequest)
  | stored

/-- The database, and all requests so far. -/
structure Endpoints where
  db : DB
  exchanges : Table Exchange
  consents : Table Consent

inductive EndpointEvent
  | post (r : CodeRequest)
  | note (n : Pk)
  | save (n : Pk)
  | delete (n : Pk)
  | check (user organization : Pk) (r : DB.AuthorizationRequest)
  | store (n : Pk)
  | elsewhere
  deriving DecidableEq, Repr

/-- Any request takes its next step, or something else happens that touches no code and no nonce. -/
inductive EndpointStep (env : Env) : Endpoints → EndpointEvent → Endpoints → Prop
  | find {s : Endpoints} {r : CodeRequest} {f : FoundCode} (h : s.db.findCode env r = .ok f) :
    EndpointStep env s (.post r) { s with exchanges := s.exchanges.insert (.found f) }
  | notFound {s : Endpoints} {r : CodeRequest} {e : Refused} (h : s.db.findCode env r = .error e) :
    EndpointStep env s (.post r) { s with exchanges := s.exchanges.insert .refused }
  | note {s : Endpoints} {n : Pk} {f : FoundCode} (h : s.exchanges.row n = some (.found f)) :
    EndpointStep env s (.note n)
      { s with db := s.db.authenticateUser f, exchanges := s.exchanges.modify n fun _ => .noted f }
  | save {s : Endpoints} {n : Pk} {f : FoundCode} {d : DB} {r : TokenResponse}
    (h : s.exchanges.row n = some (.noted f))
    (hd : s.db.saveToken env f = .ok (d, r)) :
    EndpointStep env s (.save n) { s with db := d, exchanges := s.exchanges.modify n fun _ => .saved f r }
  | notSaved {s : Endpoints} {n : Pk} {f : FoundCode} {e : Refused} (h : s.exchanges.row n = some (.noted f))
    (hd : s.db.saveToken env f = .error e) :
    EndpointStep env s (.save n) { s with exchanges := s.exchanges.modify n fun _ => .refused }
  | delete {s : Endpoints} {n : Pk} {f : FoundCode} {r : TokenResponse} {d : DB}
    (h : s.exchanges.row n = some (.saved f r))
    (hd : s.db.deleteAuthorizationCode f.codePk = .ok d) :
    EndpointStep env s (.delete n) { s with db := d, exchanges := s.exchanges.modify n fun _ => .answered f r }
  | late {s : Endpoints} {n : Pk} {f : FoundCode} {r : TokenResponse} {e : Refused}
    (h : s.exchanges.row n = some (.saved f r))
    (hd : s.db.deleteAuthorizationCode f.codePk = .error e) :
    EndpointStep env s (.delete n) { s with exchanges := s.exchanges.modify n fun _ => .late f r }
  | check {s : Endpoints} {user organization membership : Pk} {r : DB.AuthorizationRequest} {c : Client}
    (h : s.db.checkAuthorization user organization r = .ok (membership, c)) :
    EndpointStep env s (.check user organization r)
      { s with consents := s.consents.insert (.checked membership c r) }
  | store {s : Endpoints} {n membership : Pk} {c : Client} {r : DB.AuthorizationRequest}
    (h : s.consents.row n = some (.checked membership c r)) :
    EndpointStep env s (.store n) { s with
      db := (s.db.saveAuthorizationCode membership c r).1, consents := s.consents.modify n fun _ => .stored }
  | elsewhere {s : Endpoints} {d : DB} (hcodes : d.authorizationCodes = s.db.authorizationCodes)
    (hnonces : d.usedNonces = s.db.usedNonces) : EndpointStep env s .elsewhere { s with db := d }

namespace Exchange

def code : Exchange → Option FoundCode
  | found f | noted f | saved f _ | answered f _ | late f _ => some f
  | refused => none

def token : Exchange → Option Pk
  | saved _ r | answered _ r | late _ r => some r.token
  | found _ | noted _ | refused => none

def Refused : Exchange → Prop
  | late .. | refused => True
  | found _ | noted _ | saved .. | answered .. => False

end Exchange

namespace Endpoints

variable {env : Env} {s t : Endpoints} {start : Table AuthorizationCode}

/-- The code of an exchange is the one on file, if one is, and was valid and proven when it was found. -/
structure Found (env : Env) (s : Endpoints) (f : FoundCode) : Prop where
  known : f.codePk < s.db.authorizationCodes.next
  same : ∀ a, s.db.authorizationCodes.row f.codePk = some a → a = f.item
  live : f.item.isExpired f.at_ = false
  proven : DB.verifyCode env f.item f.request.verifier = .ok ()

/-- The exchange was answered, for the code. -/
def Answered (s : Endpoints) (n codePk : Pk) : Prop :=
  ∃ f r, s.exchanges.row n = some (.answered f r) ∧ f.codePk = codePk

/-- What holds in any interleaving, from when `start` were the codes. -/
structure ExchangeLaws (env : Env) (start : Table AuthorizationCode) (s : Endpoints) : Prop where
  found : ∀ n x f, s.exchanges.row n = some x → x.code = some f → s.Found env f
  burnt : ∀ n k, s.Answered n k → s.db.authorizationCodes.row k = none
  one : ∀ m n k, s.Answered m k → s.Answered n k → m = n
  spent : ∀ k, k < s.db.authorizationCodes.next → s.db.authorizationCodes.row k = none →
    (k < start.next ∧ start.row k = none) ∨ ∃ n, s.Answered n k

theorem Answered.known {n k : Pk} (h : s.ExchangeLaws env start) (ha : s.Answered n k) :
    k < s.db.authorizationCodes.next := by
  obtain ⟨f, r, hn, rfl⟩ := ha
  exact (h.found n _ f hn rfl).known

theorem ExchangeLaws.goes_on (h : s.ExchangeLaws env start)
    (hcodes : t.db.authorizationCodes = s.db.authorizationCodes)
    (hx : ∀ n y, t.exchanges.row n = some y → s.exchanges.row n = some y
      ∨ (∀ f r, y ≠ .answered f r) ∧ ∀ f, y.code = some f → s.Found env f)
    (hkept : ∀ n f r, s.exchanges.row n = some (.answered f r) → t.exchanges.row n = some (.answered f r)) :
    t.ExchangeLaws env start := by
  have hback : ∀ n k, t.Answered n k → s.Answered n k := by
    intro n k ha
    obtain ⟨f, r, hn, hk⟩ := ha
    rcases hx n _ hn with hn | ⟨hnot, -⟩
    · exact ⟨f, r, hn, hk⟩
    · exact absurd rfl (hnot f r)
  refine ⟨fun n y f hn hy => ?_, fun n k ha => ?_, fun m n k hm hn => h.one m n k (hback m k hm) (hback n k hn),
    fun k hk hrow => ?_⟩
  · have hf : s.Found env f := by
      rcases hx n y hn with hn | ⟨-, hfound⟩
      · exact h.found n y f hn hy
      · exact hfound f hy
    exact ⟨hcodes ▸ hf.known, fun a ha => hf.same a (hcodes ▸ ha), hf.live, hf.proven⟩
  · rw [hcodes]
    exact h.burnt n k (hback n k ha)
  · rw [hcodes] at hk hrow
    refine (h.spent k hk hrow).imp_right fun hn => ?_
    obtain ⟨n, f, r, hn, hf⟩ := hn
    exact ⟨n, f, r, hkept n f r hn, hf⟩

theorem ExchangeLaws.steps (h : s.ExchangeLaws env start)
    (hcodes : t.db.authorizationCodes = s.db.authorizationCodes) {n : Pk}
    {x y : Exchange} (hn : s.exchanges.row n = some x) (ht : t.exchanges = s.exchanges.modify n fun _ => y)
    (hx : ∀ f r, x ≠ .answered f r) (hy : ∀ f r, y ≠ .answered f r)
    (hcode : ∀ f, y.code = some f → x.code = some f) :
    t.ExchangeLaws env start := by
  refine h.goes_on hcodes (fun m z hm => ?_) (fun m f r hm => ?_)
  · rw [ht] at hm
    rcases modify_row_eq_some.mp hm with ⟨-, hm⟩ | ⟨-, -, -, rfl⟩
    · exact .inl hm
    · exact .inr ⟨hy, fun f hf => h.found n x f hn (hcode f hf)⟩
  · have hne : m ≠ n := by
      rintro rfl
      rw [hn] at hm
      exact hx f r (Option.some.inj hm)
    rw [ht, modify_row_of_ne hne]
    exact hm

theorem ExchangeLaws.begins (h : s.ExchangeLaws env start) {x : Exchange} (hx : ∀ f r, x ≠ .answered f r)
    (hcode : ∀ f, x.code = some f → s.Found env f) :
    ExchangeLaws env start { s with exchanges := s.exchanges.insert x } := by
  refine h.goes_on rfl (fun m z hm => ?_) (fun m f r hm => insert_row_of_some hm)
  rcases insert_row_eq_some.mp hm with ⟨-, rfl⟩ | hm
  · exact .inr ⟨hx, hcode⟩
  · exact .inl hm

theorem ExchangeLaws.burn (h : s.ExchangeLaws env start) {n : Pk} {f : FoundCode} {r : TokenResponse} {d : DB}
    (hn : s.exchanges.row n = some (.saved f r)) (hd : s.db.deleteAuthorizationCode f.codePk = .ok d)
    (ht : t = { s with db := d, exchanges := s.exchanges.modify n fun _ => .answered f r }) :
    t.ExchangeLaws env start := by
  obtain ⟨⟨a, ha⟩, hd⟩ := DB.deleteAuthorizationCode_ok hd
  have hcodes : t.db.authorizationCodes = s.db.authorizationCodes.keep fun j _ => j != f.codePk := by rw [ht, hd]
  have hexchanges : t.exchanges = s.exchanges.modify n fun _ => .answered f r := by rw [ht]
  have hback : ∀ m k, t.Answered m k → s.Answered m k ∨ m = n ∧ k = f.codePk := by
    intro m k hm
    obtain ⟨g, q, hm, hk⟩ := hm
    rw [hexchanges] at hm
    rcases modify_row_eq_some.mp hm with ⟨-, hm⟩ | ⟨rfl, -, -, heq⟩
    · exact .inl ⟨g, q, hm, hk⟩
    · cases heq
      exact .inr ⟨rfl, hk.symm⟩
  -- the code was there, so nobody was answered for it before
  have hnobody : ∀ m, ¬ s.Answered m f.codePk := by
    intro m hm
    rw [h.burnt m _ hm] at ha
    cases ha
  refine ⟨fun m y g hm hy => ?_, fun m k hm => ?_, fun l m k hl hm => ?_, fun k hk hrow => ?_⟩
  · have hg : s.Found env g := by
      rw [hexchanges] at hm
      rcases modify_row_eq_some.mp hm with ⟨-, hm⟩ | ⟨-, -, -, rfl⟩
      · exact h.found m y g hm hy
      · exact h.found n _ g hn hy
    refine ⟨?_, fun b hb => ?_, hg.live, hg.proven⟩
    · rw [hcodes]
      exact hg.known
    · rw [hcodes] at hb
      exact hg.same b (keep_row_eq_some.mp hb).1
  · rw [hcodes, keep_ne_row]
    rcases hback m k hm with hm | ⟨-, hk⟩
    · rw [h.burnt m k hm, ite_self]
    · exact if_pos hk
  · rcases hback l k hl with hl | ⟨hl, hk⟩ <;> rcases hback m k hm with hm | ⟨hm, hk'⟩
    · exact h.one l m k hl hm
    · exact absurd (hk' ▸ hl) (hnobody l)
    · exact absurd (hk ▸ hm) (hnobody m)
    · exact hl.trans hm.symm
  · rw [hcodes] at hk hrow
    by_cases hkf : k = f.codePk
    · refine .inr ⟨n, f, r, ?_, hkf.symm⟩
      rw [hexchanges, modify_row_self, hn]
      rfl
    · rw [keep_ne_row, if_neg hkf] at hrow
      refine (h.spent k hk hrow).imp_right fun hm => ?_
      obtain ⟨m, g, q, hm, hg⟩ := hm
      have hne : m ≠ n := by
        rintro rfl
        rw [hn] at hm
        cases hm
      exact ⟨m, g, q, by rw [hexchanges, modify_row_of_ne hne, hm], hg⟩

theorem ExchangeLaws.stores (h : s.ExchangeLaws env start) {a : AuthorizationCode}
    (hcodes : t.db.authorizationCodes = s.db.authorizationCodes.insert a)
    (hexchanges : t.exchanges = s.exchanges) :
    t.ExchangeLaws env start := by
  have hanswered : ∀ n k, t.Answered n k ↔ s.Answered n k := by
    intro n k
    rw [Answered, hexchanges]
    rfl
  have hnext : t.db.authorizationCodes.next = s.db.authorizationCodes.next + 1 := by rw [hcodes, insert_next]
  refine ⟨fun n y f hn hy => ?_, fun n k hn => ?_,
    fun m n k hm hn => h.one m n k ((hanswered m k).mp hm) ((hanswered n k).mp hn), fun k hk hrow => ?_⟩
  · have hf := h.found n y f (hexchanges ▸ hn) hy
    refine ⟨hnext ▸ Nat.lt_succ_of_lt hf.known, fun b hb => ?_, hf.live, hf.proven⟩
    rw [hcodes, insert_row_of_ne (Nat.ne_of_lt hf.known)] at hb
    exact hf.same b hb
  · have hn := (hanswered n k).mp hn
    rw [hcodes, insert_row_of_ne (Nat.ne_of_lt (Answered.known h hn))]
    exact h.burnt n k hn
  · rw [hcodes, insert_row] at hrow
    split at hrow
    · cases hrow
    · refine (h.spent k (by omega) hrow).imp_right fun hn => ?_
      obtain ⟨n, hn⟩ := hn
      exact ⟨n, (hanswered n k).mpr hn⟩

theorem not_answered (hs : ∀ n, s.exchanges.row n = none) (n k : Pk) : ¬ s.Answered n k := by
  intro h
  obtain ⟨f, r, hn, -⟩ := h
  rw [hs] at hn
  cases hn

theorem ExchangeLaws.begin (hs : ∀ n, s.exchanges.row n = none) : s.ExchangeLaws env s.db.authorizationCodes := by
  refine ⟨fun n x f hn => ?_, fun n k h => absurd h (not_answered hs n k),
    fun m n k h => absurd h (not_answered hs m k),
    fun k hk hrow => .inl ⟨hk, hrow⟩⟩
  rw [hs] at hn
  cases hn

theorem ExchangeLaws.step {e : EndpointEvent} (h : s.ExchangeLaws env start) (hst : EndpointStep env s e t) :
    t.ExchangeLaws env start := by
  cases hst with
  | find hf =>
    obtain ⟨hrow, -, hlive, hproven⟩ := DB.findCode_ok hf
    refine h.begins (by simp) fun g hg => ?_
    cases hg
    exact ⟨lt_next hrow, fun a ha => Option.some.inj (ha.symm.trans hrow), hlive, hproven⟩
  | notFound hf => exact h.begins (by simp) (by simp [Exchange.code])
  | note hn => exact h.steps (DB.useNonce_codes _ _) hn rfl (by simp) (by simp) fun _ => id
  | save hn hd => exact h.steps (DB.saveToken_ok hd).1 hn rfl (by simp) (by simp) fun _ => id
  | notSaved hn hd => exact h.steps rfl hn rfl (by simp) (by simp) (by simp [Exchange.code])
  | delete hn hd => exact h.burn hn hd rfl
  | late hn hd => exact h.steps rfl hn rfl (by simp) (by simp) fun _ => id
  | check hc => exact h.goes_on rfl (fun _ _ => .inl) fun _ _ _ => id
  | store hn => exact h.stores rfl rfl
  | elsewhere hcodes hnonces => exact h.goes_on hcodes (fun _ _ => .inl) fun _ _ _ => id

/-! ## One token out at a time -/

/-- A token is saved only while its code is on file, and no other exchange of the code has saved one and not
come to its delete yet. -/
def SavesAlone (s : Endpoints) : EndpointEvent → Prop
  | .save n => ∀ f, s.exchanges.row n = some (.noted f) → (∃ a, s.db.authorizationCodes.row f.codePk = some a)
      ∧ ∀ m g r, s.exchanges.row m = some (.saved g r) → g.codePk ≠ f.codePk
  | _ => True

/-- Whoever saved a token can still delete its code, and nobody is late. -/
structure Held (s : Endpoints) : Prop where
  held : ∀ n f r, s.exchanges.row n = some (.saved f r) → ∃ a, s.db.authorizationCodes.row f.codePk = some a
  alone : ∀ m n f g r q, s.exchanges.row m = some (.saved f r) → s.exchanges.row n = some (.saved g q) →
    f.codePk = g.codePk → m = n
  onTime : ∀ n f r, s.exchanges.row n ≠ some (.late f r)

theorem Held.goes_on (h : s.Held)
    (hcodes : ∀ k a, s.db.authorizationCodes.row k = some a → t.db.authorizationCodes.row k = some a)
    (hx : ∀ n y, t.exchanges.row n = some y →
      s.exchanges.row n = some y ∨ (∀ f r, y ≠ .saved f r) ∧ ∀ f r, y ≠ .late f r) :
    t.Held := by
  have hsaved : ∀ n f r, t.exchanges.row n = some (.saved f r) → s.exchanges.row n = some (.saved f r) := by
    intro n f r hn
    rcases hx n _ hn with hn | ⟨hnot, -⟩
    · exact hn
    · exact absurd rfl (hnot f r)
  refine ⟨fun n f r hn => ?_, fun m n f g r q hm hn => h.alone m n f g r q (hsaved m f r hm) (hsaved n g q hn),
    fun n f r hn => ?_⟩
  · obtain ⟨a, ha⟩ := h.held n f r (hsaved n f r hn)
    exact ⟨a, hcodes _ _ ha⟩
  · rcases hx n _ hn with hn | ⟨-, hnot⟩
    · exact h.onTime n f r hn
    · exact hnot f r rfl

theorem Held.steps (h : s.Held) (hcodes : t.db.authorizationCodes = s.db.authorizationCodes) {n : Pk}
    {y : Exchange} (ht : t.exchanges = s.exchanges.modify n fun _ => y) (hsaved : ∀ f r, y ≠ .saved f r)
    (hlate : ∀ f r, y ≠ .late f r) :
    t.Held := by
  refine h.goes_on (fun k a ha => hcodes ▸ ha) fun m z hm => ?_
  rw [ht] at hm
  rcases modify_row_eq_some.mp hm with ⟨-, hm⟩ | ⟨-, -, -, rfl⟩
  · exact .inl hm
  · exact .inr ⟨hsaved, hlate⟩

theorem Held.begins (h : s.Held) {x : Exchange} (hsaved : ∀ f r, x ≠ .saved f r) (hlate : ∀ f r, x ≠ .late f r) :
    Held { s with exchanges := s.exchanges.insert x } := by
  refine h.goes_on (fun _ _ => id) fun m z hm => ?_
  rcases insert_row_eq_some.mp hm with ⟨-, rfl⟩ | hm
  · exact .inr ⟨hsaved, hlate⟩
  · exact .inl hm

theorem Held.save (h : s.Held) {n : Pk} {f : FoundCode} {r : TokenResponse}
    (hn : s.exchanges.row n = some (.noted f))
    (halone : s.SavesAlone (.save n)) (hcodes : t.db.authorizationCodes = s.db.authorizationCodes)
    (ht : t.exchanges = s.exchanges.modify n fun _ => .saved f r) : t.Held := by
  obtain ⟨hrow, hothers⟩ := halone f hn
  have hback : ∀ m g q, t.exchanges.row m = some (.saved g q) →
    s.exchanges.row m = some (.saved g q) ∨ m = n ∧ g = f := by
    intro m g q hm
    rw [ht] at hm
    rcases modify_row_eq_some.mp hm with ⟨-, hm⟩ | ⟨hmn, -, -, heq⟩
    · exact .inl hm
    · cases heq
      exact .inr ⟨hmn, rfl⟩
  refine ⟨fun m g q hm => ?_, fun l m g g' q q' hl hm hsame => ?_, fun m g q hm => ?_⟩
  · rw [hcodes]
    rcases hback m g q hm with hm | ⟨-, rfl⟩
    · exact h.held m g q hm
    · exact hrow
  · rcases hback l g q hl with hl | ⟨rfl, rfl⟩ <;> rcases hback m g' q' hm with hm | ⟨rfl, rfl⟩
    · exact h.alone l m g g' q q' hl hm hsame
    · exact absurd hsame (hothers l g q hl)
    · exact absurd hsame.symm (hothers m g' q' hm)
    · rfl
  · rw [ht] at hm
    rcases modify_row_eq_some.mp hm with ⟨-, hm⟩ | ⟨-, -, -, heq⟩
    · exact h.onTime m g q hm
    · cases heq

theorem Held.burn (h : s.Held) {n : Pk} {f : FoundCode} {r : TokenResponse}
    (hn : s.exchanges.row n = some (.saved f r))
    (hcodes : t.db.authorizationCodes = s.db.authorizationCodes.keep fun j _ => j != f.codePk)
    (ht : t.exchanges = s.exchanges.modify n fun _ => .answered f r) : t.Held := by
  have hback : ∀ m y, t.exchanges.row m = some y → (m ≠ n ∧ s.exchanges.row m = some y) ∨ y = .answered f r := by
    intro m y hm
    rw [ht] at hm
    rcases modify_row_eq_some.mp hm with hm | ⟨-, -, -, heq⟩
    · exact .inl hm
    · exact .inr heq.symm
  refine ⟨fun m g q hm => ?_, fun l m g g' q q' hl hm hsame => ?_, fun m g q hm => ?_⟩
  · rcases hback m _ hm with ⟨hne, hm⟩ | heq
    · obtain ⟨a, ha⟩ := h.held m g q hm
      have hother : g.codePk ≠ f.codePk := fun hsame => hne (h.alone m n g f q r hm hn hsame)
      exact ⟨a, by rw [hcodes, keep_ne_row, if_neg hother, ha]⟩
    · cases heq
  · rcases hback l _ hl with ⟨-, hl⟩ | heq <;> rcases hback m _ hm with ⟨-, hm⟩ | heq'
    · exact h.alone l m g g' q q' hl hm hsame
    · cases heq'
    · cases heq
    · cases heq
  · rcases hback m _ hm with ⟨-, hm⟩ | heq
    · exact h.onTime m g q hm
    · cases heq

theorem Held.step {e : EndpointEvent} (h : s.Held) (hst : EndpointStep env s e t) (halone : s.SavesAlone e) :
    t.Held := by
  cases hst with
  | find hf => exact h.begins (by simp) (by simp)
  | notFound hf => exact h.begins (by simp) (by simp)
  | note hn => exact h.steps (DB.useNonce_codes _ _) rfl (by simp) (by simp)
  | save hn hd => exact h.save hn halone (DB.saveToken_ok hd).1 rfl
  | notSaved hn hd => exact h.steps rfl rfl (by simp) (by simp)
  | delete hn hd =>
    obtain ⟨-, rfl⟩ := DB.deleteAuthorizationCode_ok hd
    exact h.burn hn rfl rfl
  | late hn hd =>
    obtain ⟨a, ha⟩ := h.held _ _ _ hn
    rw [DB.deleteAuthorizationCode_error hd] at ha
    cases ha
  | check hc => exact h.goes_on (fun _ _ => id) fun _ _ => .inl
  | store hn => exact h.goes_on (fun _ _ => insert_row_of_some) fun _ _ => .inl
  | elsewhere hcodes hnonces => exact h.goes_on (fun _ _ ha => hcodes ▸ ha) fun _ _ => .inl

/-- Of the exchanges of a code, made in time and with its verifier, one is answered, and those refused leave
no token. -/
structure ExchangedOnce (env : Env) (start : Table AuthorizationCode) (s : Endpoints) : Prop where
  one : ∀ m n k, s.Answered m k → s.Answered n k → m = n
  proper : ∀ n f r, s.exchanges.row n = some (.answered f r) →
    f.item.isExpired f.at_ = false ∧ DB.verifyCode env f.item f.request.verifier = .ok ()
  spent : ∀ k, k < s.db.authorizationCodes.next → s.db.authorizationCodes.row k = none →
    (k < start.next ∧ start.row k = none) ∨ ∃ n, s.Answered n k
  clean : ∀ n x token row, s.exchanges.row n = some x → x.Refused → x.token = some token →
    s.db.tokens.row token = some row →
    row.revoked = true

/-! ## Two ways to run it -/

/-- An exchange that nobody interferes with ends as the exchange in one piece does. -/
theorem exchange_alone {d : DB} {r : CodeRequest} {x : TokenResponse}
    (hs : ∀ m f q, s.exchanges.row m ≠ some (.saved f q))
    (h : s.db.exchangeCode env r.clientId r.secret r.code r.redirectUri r.verifier = .ok (d, x)) :
    let n := s.exchanges.next
    ∃ f t, s.db.findCode env r = .ok f
      ∧ Run (fun s e t => EndpointStep env s e t ∧ s.SavesAlone e) s [.post r, .note n, .save n, .delete n] t
      ∧ t.db = d ∧ t.exchanges.row n = some (.answered f x) ∧ (∀ m, m ≠ n → t.exchanges.row m = s.exchanges.row m)
      ∧ t.exchanges.next = n + 1 := by
  intro n
  rw [DB.exchangeCode_steps] at h
  simp only [bind_ok, pure_ok, Prod.exists, Prod.mk.injEq] at h
  obtain ⟨f, hf, d₁, y, hsaved, d₂, hdeleted, rfl, rfl⟩ := h
  have hfound : (s.exchanges.insert (.found f)).row n = some (.found f) := insert_row_next _ _
  have hnoted : ((s.exchanges.insert (.found f)).modify n fun _ => .noted f).row n = some (.noted f) := by
    rw [modify_row_self, hfound]
    rfl
  have hsaved' : (((s.exchanges.insert (.found f)).modify n fun _ => .noted f).modify n fun _ => .saved f y).row n
      = some (.saved f y) := by
    rw [modify_row_self, hnoted]
    rfl
  refine ⟨f, _, hf, .cons ⟨.find hf, trivial⟩ (.cons ⟨.note hfound, trivial⟩ (.cons ⟨.save hnoted hsaved, ?_⟩
    (.single ⟨.delete hsaved' hdeleted, trivial⟩))), rfl, ?_, fun m hm => ?_, rfl⟩
  · intro g hg
    obtain rfl : f = g := by simpa using hnoted.symm.trans hg
    refine ⟨⟨f.item, ?_⟩, fun m g q hm => ?_⟩
    · show (s.db.authenticateUser f).authorizationCodes.row f.codePk = some f.item
      rw [DB.authenticateUser, DB.useNonce_codes]
      exact (DB.findCode_ok hf).1
    · rcases modify_row_eq_some.mp hm with ⟨hne, hm⟩ | ⟨-, -, -, heq⟩
      · rw [insert_row_of_ne hne] at hm
        exact absurd hm (hs m g q)
      · cases heq
  · rw [modify_row_self, hsaved']
    rfl
  · rw [modify_row_of_ne hm, modify_row_of_ne hm, modify_row_of_ne hm, insert_row_of_ne hm]

/-- Of two exchanges that find a code before either deletes it, the second to delete leaves the token it saved. -/
theorem second_leaves_token {db d e : DB} {r q : CodeRequest} {f g : FoundCode} {x y : TokenResponse}
    (hf : db.findCode env r = .ok f) (hg : db.findCode env q = .ok g) (hsame : g.codePk = f.codePk)
    (hd : (db.authenticateUser f).saveToken env f = .ok (d, x))
    (he : (d.authenticateUser g).saveToken env g = .ok (e, y)) :
    ∃ t, Run (EndpointStep env) ⟨db, .empty, .empty⟩
      [.post r, .post q, .note 0, .save 0, .note 1, .save 1, .delete 0, .delete 1] t
      ∧ t.exchanges.row 1 = some (.late g y)
      ∧ ∃ row, t.db.tokens.row y.token = some row ∧ row.revoked = false := by
  have hrow : e.authorizationCodes.row f.codePk = some f.item := by
    rw [(DB.saveToken_ok he).1, DB.authenticateUser, DB.useNonce_codes, (DB.saveToken_ok hd).1,
      DB.authenticateUser, DB.useNonce_codes]
    exact (DB.findCode_ok hf).1
  let d' : DB := { e with authorizationCodes := e.authorizationCodes.keep fun j _ => j != f.codePk }
  have hfirst : e.deleteAuthorizationCode f.codePk = .ok d' := by
    rw [DB.deleteAuthorizationCode, hrow]
    rfl
  have hsecond : d'.deleteAuthorizationCode g.codePk = refuse .invalidGrant
    "Authorization code has already been used." := by
    have hgone : d'.authorizationCodes.row g.codePk = none := by
      rw [hsame]
      exact (keep_ne_row _ _ _).trans (if_pos rfl)
    rw [DB.deleteAuthorizationCode, hgone]
    rfl
  obtain ⟨row, hsaved⟩ := DB.issueToken_ok he
  refine ⟨_, .cons (.find hf)
    (.cons (.find hg) (.cons (.note (n := 0) (f := f) rfl) (.cons (.save (n := 0) (f := f) rfl hd)
    (.cons (.note (n := 1) (f := g) rfl) (.cons (.save (n := 1) (f := g) rfl he)
    (.cons (.delete (n := 0) (f := f) (r := x) rfl hfirst)
      (.single (.late (n := 1) (f := g) (r := y) rfl hsecond)))))))),
    rfl, row, hsaved.token_row, hsaved.unrevoked⟩

end Endpoints

open Endpoints

/-- In any interleaving in which nobody saves a token for a code that is gone, or is about to go with
another's, a code is exchanged once and a refused exchange leaves nothing. -/
theorem exchanged_once {env : Env} {s t : Endpoints} {events : List EndpointEvent}
    (hs : ∀ n, s.exchanges.row n = none)
    (hrun : Run (fun s e t => EndpointStep env s e t ∧ s.SavesAlone e) s events t) :
    t.ExchangedOnce env s.db.authorizationCodes := by
  have hlaws : t.ExchangeLaws env s.db.authorizationCodes :=
    hrun.invariant (P := ExchangeLaws env s.db.authorizationCodes) (fun h hst => h.step hst.1) (.begin hs)
  have hheld : t.Held := by
    refine hrun.invariant (P := Held) (fun h hst => h.step hst.1 hst.2) ?_
    refine ⟨fun n f r hn => ?_, fun m n f g r q hm => ?_, fun n f r hn => ?_⟩
    · rw [hs] at hn
      cases hn
    · rw [hs] at hm
      cases hm
    · rw [hs] at hn
      cases hn
  refine ⟨hlaws.one, fun n f r hn => ?_, hlaws.spent, fun n x token row hn hrefused htoken _ => ?_⟩
  · have hf := hlaws.found n _ f hn rfl
    exact ⟨hf.live, hf.proven⟩
  · cases x with
    | late f r => exact absurd hn (hheld.onTime n f r)
    | refused => cases htoken
    | _ => cases hrefused

/-- The exchange of the code that `signIn` stored. -/
def signInCode : CodeRequest := ⟨.uuid 0, none, 3, "app://", plainVerifier⟩

/-- The exchange of the code that she is sent when she signs in once more. -/
def otherCode : CodeRequest := { signInCode with code := 4 }

/-- The exchanges of two codes side by side; another exchange finds the first while its token is saved, and
one comes too late. -/
theorem exchanged_once_signIn :
    let db := run plainEnv .empty
      (signIn ["email"] ++ [.authorize 0 0 ⟨.uuid 0, some "app://", ["email"], plainVerifier, "S256", ""⟩])
    ∃ t f g r q, Run (fun s e t => EndpointStep plainEnv s e t ∧ s.SavesAlone e) ⟨db, .empty, .empty⟩
      [.post signInCode, .post otherCode, .note 0, .save 0, .post signInCode, .note 1, .save 1, .delete 0, .delete 1,
        .post signInCode] t ∧ t.exchanges.row 0 = some (.answered f r) ∧ t.exchanges.row 1 = some (.answered g q)
      ∧ t.ExchangedOnce plainEnv db.authorizationCodes := by
  intro db
  have hok : (db.findCode plainEnv signInCode).toOption.any (fun f =>
      (db.findCode plainEnv otherCode).toOption.any fun g => f.codePk != g.codePk
        && ((db.authenticateUser f).saveToken plainEnv f).toOption.any fun x =>
          (x.1.findCode plainEnv signInCode).isOk
          && ((x.1.authenticateUser g).saveToken plainEnv g).toOption.any fun y =>
            (y.1.deleteAuthorizationCode f.codePk).toOption.any fun d =>
              (d.deleteAuthorizationCode g.codePk).toOption.any fun e =>
                !(e.findCode plainEnv signInCode).isOk) = true := by decide +kernel
  obtain ⟨f, hf, hok⟩ := exists_ok_and hok
  obtain ⟨g, hg, hok⟩ := exists_ok_and hok
  obtain ⟨hne, hok⟩ := (Bool.and_eq_true _ _).mp hok
  obtain ⟨⟨d, x⟩, hd, hok⟩ := exists_ok_and hok
  obtain ⟨hfound, hok⟩ := (Bool.and_eq_true _ _).mp hok
  obtain ⟨k, hk⟩ := exists_ok hfound
  obtain ⟨⟨e, y⟩, he, hok⟩ := exists_ok_and hok
  obtain ⟨d', hd', hok⟩ := exists_ok_and hok
  obtain ⟨e', he', hlate⟩ := exists_ok_and hok
  obtain ⟨refused, hrefused⟩ : ∃ refused, e'.findCode plainEnv signInCode = .error refused := by
    cases h : e'.findCode plainEnv signInCode with
    | error refused => exact ⟨refused, rfl⟩
    | ok _ =>
      rw [h] at hlate
      cases hlate
  have hcodes : d.authorizationCodes = db.authorizationCodes := by
    rw [(DB.saveToken_ok hd).1, DB.authenticateUser, DB.useNonce_codes]
  have halone : ∀ {s : Endpoints} {n : Pk} {h : FoundCode}, s.exchanges.row n = some (.noted h) →
      h.codePk = f.codePk ∨ h.codePk = g.codePk → s.db.authorizationCodes = db.authorizationCodes →
      (∀ m i r, s.exchanges.row m = some (.saved i r) → i.codePk ≠ h.codePk) → s.SavesAlone (.save n) := by
    intro s n h hn hcode hsame hothers i hi
    obtain rfl : h = i := by simpa using hn.symm.trans hi
    rw [hsame]
    refine ⟨?_, hothers⟩
    rcases hcode with hcode | hcode
    · exact ⟨_, hcode ▸ (DB.findCode_ok hf).1⟩
    · exact ⟨_, hcode ▸ (DB.findCode_ok hg).1⟩
  let first : Table Exchange := ((Table.empty.insert (.found f)).insert (.found g)).modify 0 fun _ => .noted f
  let second : Table Exchange := ((first.modify 0 fun _ => .saved f x).insert (.found k)).modify 1 fun _ => .noted g
  have hfirst : ∀ m i r, first.row m ≠ some (.saved i r) := by
    intro m i r hm
    have hlt : m < 2 := lt_next hm
    rcases (by omega : m = 0 ∨ m = 1) with rfl | rfl <;> cases hm
  have hsecond : ∀ m i r, second.row m = some (.saved i r) → i.codePk ≠ g.codePk := by
    intro m i r hm
    have hlt : m < 3 := lt_next hm
    rcases (by omega : m = 0 ∨ m = 1 ∨ m = 2) with rfl | rfl | rfl <;> cases hm
    simpa using hne
  have hrun : Run (fun s e t => EndpointStep plainEnv s e t ∧ s.SavesAlone e) ⟨db, .empty, .empty⟩ _ _ :=
    .cons ⟨.find hf, trivial⟩ (.cons ⟨.find hg, trivial⟩ (.cons ⟨.note (n := 0) (f := f) rfl, trivial⟩
      (.cons ⟨.save (n := 0) (f := f) rfl hd,
        halone rfl (.inl rfl) (DB.useNonce_codes _ _) fun m i r hm => absurd hm (hfirst m i r)⟩
      (.cons ⟨.find hk, trivial⟩ (.cons ⟨.note (n := 1) (f := g) rfl, trivial⟩
      (.cons ⟨.save (n := 1) (f := g) rfl he, halone rfl (.inr rfl) ((DB.useNonce_codes _ _).trans hcodes) hsecond⟩
      (.cons ⟨.delete (n := 0) (f := f) rfl hd', trivial⟩ (.cons ⟨.delete (n := 1) (f := g) rfl he', trivial⟩
      (.single ⟨.notFound hrefused, trivial⟩)))))))))
  exact ⟨_, f, g, x, y, hrun, rfl, rfl, exchanged_once (fun _ => rfl) hrun⟩

/-- Two exchanges of the code find it before either deletes it. -/
theorem refused_exchange_leaves_token :
    let db := run plainEnv .empty (signIn ["email"])
    ∃ t, Run (EndpointStep plainEnv) ⟨db, .empty, .empty⟩
      [.post signInCode, .post signInCode, .note 0, .save 0, .note 1, .save 1, .delete 0, .delete 1] t
      ∧ ¬ t.ExchangedOnce plainEnv db.authorizationCodes := by
  intro db
  have hok : (db.findCode plainEnv signInCode).toOption.any
    (fun f => ((db.authenticateUser f).saveToken plainEnv f).toOption.any fun x =>
      ((x.1.authenticateUser f).saveToken plainEnv f).isOk) = true := by decide +kernel
  obtain ⟨f, hf, hok⟩ := exists_ok_and hok
  obtain ⟨x, hx, hok⟩ := exists_ok_and hok
  obtain ⟨y, hy⟩ := exists_ok hok
  obtain ⟨t, hrun, hlate, row, hrow, hlive⟩ := second_leaves_token (d := x.1) (x := x.2) (e := y.1)
    (y := y.2) hf hf rfl hx hy
  refine ⟨t, hrun, fun h => ?_⟩
  have hrevoked := h.clean 1 _ _ row hlate trivial rfl hrow
  rw [hlive] at hrevoked
  cases hrevoked

end Lok
