import Lok.CodeWrites

/-!
# Writes of the token functions

A token row is saved for the client and the membership that something in the database
vouches for: the client itself, a stored code, or the token it replaces. Revoking marks
tokens, withdraws mandates and deletes codes.
-/

namespace Lok

open Table Runs Checks

namespace DB

variable {A : Licence} {db d : DB} {env : Env}

/-! ## Clients at the endpoints -/

theorem queryClient_some {clientId : ClientId} {r : Pk × Client} (h : db.queryClient clientId = some r) :
    db.clients.row r.1 = some r.2 := by
  unfold queryClient at h
  split at h
  · rename_i r' hfirst
    cases h
    exact (first_eq_some hfirst).1
  · simp only [Option.bind_eq_bind, Option.bind_eq_some_iff] at h
    obtain ⟨_, -, c, hc, h⟩ := h
    obtain rfl : _ = r := by simpa using h
    exact hc

theorem authenticateClient_query {clientId : ClientId} {secret : Option String} {r : Pk × Client}
    (h : db.authenticateClient clientId secret = .ok r) : db.queryClient clientId = some r := by
  simp only [authenticateClient, bind_ok, found_ok, require_ok, exists_unit, pure_ok, Prod.exists] at h
  obtain ⟨pk, c, hquery, -, rfl⟩ := h
  exact hquery

theorem authenticateClient_ok {clientId : ClientId} {secret : Option String} {r : Pk × Client}
    (h : db.authenticateClient clientId secret = .ok r) : db.clients.row r.1 = some r.2 :=
  queryClient_some (authenticateClient_query h)

theorem clientFor_authenticated {clientId : ClientId} {secret : Option String} {grant : GrantType}
    {r : Pk × Client}
    (h : db.clientFor clientId secret grant = .ok r) :
    db.authenticateClient clientId secret = .ok r ∧ r.2.checkGrantType grant = true := by
  simp only [clientFor, bind_ok, require_ok, exists_unit, pure_ok, Prod.exists] at h
  obtain ⟨pk, c, hauth, hgrant, rfl⟩ := h
  exact ⟨hauth, hgrant⟩

theorem clientFor_query {clientId : ClientId} {secret : Option String} {grant : GrantType} {r : Pk × Client}
    (h : db.clientFor clientId secret grant = .ok r) : db.queryClient clientId = some r :=
  authenticateClient_query (clientFor_authenticated h).1

theorem clientFor_ok {clientId : ClientId} {secret : Option String} {grant : GrantType} {r : Pk × Client}
    (h : db.clientFor clientId secret grant = .ok r) :
    db.clients.row r.1 = some r.2 ∧ r.2.checkGrantType grant = true :=
  ⟨authenticateClient_ok (clientFor_authenticated h).1, (clientFor_authenticated h).2⟩

/-! ## The authorization endpoint -/

theorem validateAuthorizationRequest_ok {r : AuthorizationRequest} {c : Client}
    (h : db.validateAuthorizationRequest r = .ok c) : ∃ pk, db.queryClient r.clientId = some (pk, c) := by
  simp only [validateAuthorizationRequest, bind_ok, found_ok, Prod.exists] at h
  obtain ⟨pk, c', hquery, h⟩ := h
  suffices c' = c from ⟨pk, this ▸ hquery⟩
  split at h <;> simp only [bind_ok, require_ok, exists_unit] at h <;> obtain ⟨-, -, -, -, h⟩ :=
    h <;> split at h <;>
    simp only [bind_ok, require_ok, exists_unit, pure_ok] at h <;> grind

theorem authorize_writes {user organization : Pk} {r : AuthorizationRequest} {x : DB × Nat}
    (hA : ∀ pk c m, db.queryClient r.clientId = some (pk, c) →
      db.memberOf user organization = some m → A.authorize c m)
    (h : db.authorize user organization r = .ok x) : Writes A db x.1 := by
  simp only [authorize, bind_ok, found_ok, pure_ok, Prod.exists] at h
  obtain ⟨membership, m, hm, c, hc, rfl⟩ := h
  obtain ⟨pk, hquery⟩ := validateAuthorizationRequest_ok hc
  exact Via.single (.authorize _ (queryClient_some hquery) rfl rfl)
    (hA pk c membership hquery (by simp [memberOf, hm]))

/-! ## Saving a token -/

/-- The row a token is saved under when `asked` is the scope passed on, and what the response says. -/
structure Saved (env : Env) (db : DB) (pk : Pk) (c : Client) (subject : Pk) (asked : List String) (refresh : Bool)
    (r : DB × TokenResponse)
    (t : OAuth2Token) : Prop where
  state : r.1 = { db with draws := db.draws + 2, tokens := db.tokens.insert t }
  user : t.user = subject
  clientId : t.clientId = c.clientId
  refreshToken : t.refreshToken = if refresh then some (db.draws + 1) else none
  unrevoked : t.revoked = false
  issuedAt : t.issuedAt = db.now
  expiresIn : t.expiresIn = db.accessTokenExpiresIn c
  chainStartedAt : t.chainStartedAt = db.now
  scope : t.scope = c.issuedScope env asked
  client : r.2.client = pk
  claims : ∃ m, db.memberships.row subject = some m ∧ r.2.claims = db.extraClaims pk c subject m t.scope
  token : r.2.token = db.tokens.next

theorem issueToken_ok {pk subject : Pk} {c : Client} {scope : List String} {refresh : Bool}
    {r : DB × TokenResponse}
    (h : db.issueToken env pk c subject scope refresh = .ok r) :
    ∃ t, Saved env db pk c subject scope refresh r t := by
  simp only [issueToken, bind_ok, Table.get_ok, pure_ok] at h
  obtain ⟨m, hm, rfl⟩ := h
  exact ⟨_, rfl, rfl, rfl, rfl, rfl, rfl, rfl, rfl, rfl, rfl, ⟨m, hm, rfl⟩, rfl⟩

theorem Saved.writes {pk subject : Pk} {c : Client} {asked : List String} {refresh : Bool} {r : DB × TokenResponse}
    {t : OAuth2Token} (h : Saved env db pk c subject asked refresh r t) (hv : Vouched db c.clientId subject) :
    Writes A db r.1 := by
  rw [h.state]
  refine Writes.quiet (.mint t (by rw [h.clientId, h.user]; exact hv) fun x hx => ?_)
  rw [h.refreshToken] at hx
  cases refresh <;> simp at hx
  exact hx.symm

/-! ## The grants -/

theorem useNonce_eq (db : DB) (clientId : ClientId) (nonce : String) :
    ∃ t, db.useNonce clientId nonce = { db with usedNonces := t } ∧ Edit db.usedNonces t := by
  unfold useNonce
  split
  · exact ⟨_, rfl, .rewrite (.refl (fun _ _ => trivial) _)⟩
  · exact ⟨_, rfl, .insert _⟩

/-- A code exchange saves a token for the membership the code was stored for, and burns the code. -/
theorem exchangeCode_ok {clientId : ClientId} {secret : Option String} {code : Nat} {uri verifier : String}
    {r : DB × TokenResponse} (h : db.exchangeCode env clientId secret code uri verifier = .ok r) :
    ∃ pk c codePk item u x t, db.clientFor clientId secret .authorizationCode = .ok (pk, c)
      ∧ db.queryAuthorizationCode code c.clientId = some (codePk, item) ∧ verifyCode env item verifier = .ok ()
      ∧ Edit db.usedNonces u
      ∧ Saved env { db with usedNonces := u } pk c item.membership item.scope (c.checkGrantType .refreshToken) x t
      ∧ r = ({ x.1 with authorizationCodes := db.authorizationCodes.keep fun k _ => k != codePk }, x.2) := by
  simp only [exchangeCode, bind_ok, found_ok, require_ok, exists_unit, pure_ok, Prod.exists] at h
  obtain ⟨pk, c, hclient, codePk, item, hquery, -, hverify, d, response, hissue, rfl⟩ := h
  obtain ⟨u, hu, hedit⟩ := useNonce_eq db item.clientId item.nonce
  rw [hu] at hissue
  obtain ⟨t, hsaved⟩ := issueToken_ok hissue
  refine ⟨pk, c, codePk, item, u, (d, response), t, hclient, hquery, hverify, hedit, hsaved, ?_⟩
  rw [show d = _ from hsaved.state]

theorem queryAuthorizationCode_some {code : Nat} {clientId : ClientId} {r : Pk × AuthorizationCode}
    (h : db.queryAuthorizationCode code clientId = some r) :
    db.authorizationCodes.row r.1 = some r.2 ∧ r.2.code = code ∧ r.2.clientId = clientId
    ∧ r.2.isExpired db.now = false := by
  simp only [queryAuthorizationCode, Option.filter_eq_some_iff, Bool.not_eq_true'] at h
  obtain ⟨hfirst, hlive⟩ := h
  obtain ⟨hrow, hp⟩ := first_eq_some hfirst
  simp only [Bool.and_eq_true, beq_iff_eq] at hp
  exact ⟨hrow, hp.1, hp.2, hlive⟩

theorem revokeChain_writes (t : OAuth2Token) : Writes A db (db.revokeChain t) := by
  unfold revokeChain
  dsimp only
  refine .trans (Writes.quiet
    (.tokens (.updateWhere (fun _ t => ⟨t.revoked, rfl, id⟩) fun _ _ _ _ => ⟨true, rfl, fun _ => rfl⟩)))
    (revokeIssuedBy_writes _)

theorem authenticateRefreshToken_writes (refreshToken : Nat) :
    Writes A db (db.authenticateRefreshToken refreshToken).1 := by
  unfold authenticateRefreshToken
  split
  · exact .refl db
  · split
    · exact .refl db
    · split
      · exact revokeChain_writes _
      · exact .refl db

theorem authenticateRefreshToken_some {refreshToken : Nat} {r : Pk × OAuth2Token}
    (h : (db.authenticateRefreshToken refreshToken).2 = some r) :
    (db.authenticateRefreshToken refreshToken).1 = db ∧ db.tokens.row r.1 = some r.2
      ∧ r.2.refreshToken = some refreshToken ∧ r.2.isRefreshTokenActive db.now = true := by
  unfold authenticateRefreshToken at h ⊢
  split at h
  · cases h
  · rename_i pk t hfirst
    obtain ⟨hrow, hp⟩ := first_eq_some hfirst
    split at h
    · rename_i hactive
      cases h
      exact ⟨by simp [hactive], hrow, by simpa using hp, hactive⟩
    · split at h <;> cases h

theorem rotate_ok {pk tokenPk : Pk} {c : Client} {t : OAuth2Token} {scope : List String} {r : DB × TokenResponse}
    (h : db.rotate env pk c tokenPk t scope = .ok r) :
    ∃ x n asked, refreshScope t scope = .ok asked ∧ Saved env db pk c t.user asked true x n
      ∧ r = ({ x.1 with
          tokens := (x.1.tokens.modify tokenPk fun x => { x with revoked := true }).modify db.tokens.next fun x =>
          { x with chainStartedAt := t.chainStartedAt } }, x.2) := by
  simp only [rotate, bind_ok, pure_ok, Prod.exists] at h
  obtain ⟨asked, hasked, d, response, hissue, rfl⟩ := h
  obtain ⟨n, hsaved⟩ := issueToken_ok hissue
  refine ⟨(d, response), n, asked, hasked, hsaved, ?_⟩
  rw [show response.token = _ from hsaved.token]

theorem orElseSame_ok {α : Type} {x : Answer (DB × α)} {r : DB × α} (h : db.orElseSame x = (r.1, .ok r.2)) :
    x = .ok r := by
  unfold orElseSame at h
  split at h <;> simp at h
  obtain ⟨rfl, rfl⟩ := h
  rfl

theorem refresh_ok {clientId : ClientId} {secret : Option String} {refreshToken : Nat} {scope : List String}
    {r : DB × TokenResponse} (h : db.refresh env clientId secret refreshToken scope = (r.1, .ok r.2)) :
    ∃ pk c tokenPk t, db.clientFor clientId secret .refreshToken = .ok (pk, c) ∧ db.tokens.row tokenPk = some t
      ∧ t.refreshToken = some refreshToken
      ∧ t.isRefreshTokenActive db.now = true ∧ t.clientId = c.clientId
      ∧ db.rotate env pk c tokenPk t scope = .ok r := by
  unfold refresh at h
  split at h
  · simp at h
  · rename_i pk c hclient
    split at h
    · simp at h
    · rename_i d tokenPk t hauth
      have hsome : (db.authenticateRefreshToken refreshToken).2 = some (tokenPk, t) := by rw [hauth]
      obtain ⟨hsame, hrow, htoken, hactive⟩ := authenticateRefreshToken_some hsome
      rw [hauth] at hsame
      obtain rfl : d = db := hsame
      split at h
      · rename_i hid
        exact ⟨pk, c, tokenPk, t, hclient, hrow, htoken, hactive, by simpa using hid, orElseSame_ok h⟩
      · simp at h

theorem validateDeviceCredential_writes (pk : Pk) (c : DeviceCode) :
    Writes A db (db.validateDeviceCredential pk c).1 := by
  unfold validateDeviceCredential
  split
  · exact .refl db
  · split
    · exact .refl db
    · split
      · exact .refl db
      · exact deviceCodes_writes fun _ => ⟨rfl, rfl, rfl, id⟩

/-- An approved code is neither expired nor denied, and its subject is its client's membership. -/
theorem validateDeviceCredential_ok {pk subject : Pk} {c : DeviceCode}
    (h : (db.validateDeviceCredential pk c).2 = .ok subject) :
    (db.validateDeviceCredential pk c).1 = db ∧ db.isExpired c = false ∧ c.denied = false
      ∧ ∃ client, db.clients.row c.client = some client ∧ client.membership = some subject := by
  unfold validateDeviceCredential at h ⊢
  split at h
  · simp at h
  · rename_i hexpired
    split at h
    · simp at h
    · rename_i hdenied
      split at h
      · rename_i m hm
        cases h
        simp only [hexpired, hdenied]
        obtain ⟨client, hclient, hmembership⟩ := Option.bind_eq_some_iff.mp hm
        exact ⟨by simp, by simp, by simp, client, hclient, hmembership⟩
      · split at h
        split at h <;> simp at h

/-- A poll that is answered saves a token for the membership the code's client is bound to. -/
theorem pollDeviceCode_ok {clientId : ClientId} {deviceCode : Nat} {r : DB × TokenResponse}
    (h : db.pollDeviceCode env clientId deviceCode = (r.1, .ok r.2)) :
    ∃ pk c codePk code k m x t, db.clientFor clientId none .deviceCode = .ok (pk, c)
    ∧ db.deviceCodes.row codePk = some code
      ∧ code.secret = deviceCode ∧ db.isExpired code = false ∧ code.denied = false
      ∧ db.clients.row code.client = some k ∧ k.clientId = c.clientId ∧ k.membership = some m
      ∧ Saved env db pk c m code.grantedScope (c.checkGrantType .refreshToken) x t
      ∧ r = (x.1.delete .deviceCode [⟨.deviceCode, codePk⟩] none, { x.2 with meshKey := code.authKey }) := by
  unfold pollDeviceCode at h
  split at h
  · simp at h
  · rename_i pk c hclient
    split at h
    · simp at h
    · rename_i codePk code hfirst
      obtain ⟨hrow, hsecret⟩ := first_eq_some hfirst
      split at h
      · rename_i hown
        split at h
        · simp at h
        · rename_i d subject hvalid
          have hok : (db.validateDeviceCredential codePk code).2 = .ok subject := by rw [hvalid]
          obtain ⟨hsame, hexpired, hdenied, k, hk, hm⟩ := validateDeviceCredential_ok hok
          rw [hvalid] at hsame
          obtain rfl : d = db := hsame
          have hredeem := reraise_ok.mp (orElseSame_ok h)
          simp only [redeemDeviceCode, bind_ok, pure_ok, Prod.exists] at hredeem
          obtain ⟨e, response, hissue, rfl⟩ := hredeem
          obtain ⟨t, hsaved⟩ := issueToken_ok hissue
          rw [hk] at hown
          exact ⟨pk, c, codePk, code, k, subject, (e, response), t, hclient,
            hrow, by simpa using hsecret, hexpired,
            hdenied, hk, by simpa using hown, hm, hsaved, rfl⟩
      · simp at h

theorem mandateKeyGrant_ok {request : MandateKeyGrantRequest} {minted : Option String} {r : DB × TokenResponse}
    (h : db.mandateKeyGrant env request minted = .ok r) :
    ∃ d pk c m x t p, db.authenticateKey env request = .ok (d, pk) ∧ d.clients.row pk = some c
    ∧ c.membership = some m
      ∧ Saved env d pk c m c.scope false x t ∧ r.1 = { x.1 with tokens := x.1.tokens.keep p }
      ∧ (∀ k n, n.issuedAt = d.now → p k n = true)
      ∧ r.2.client = x.2.client ∧ r.2.claims = x.2.claims ∧ r.2.token = x.2.token
      ∧ r.2.meshKey = if request.requestAuthKey && (c.mandate.bind d.mandates.row).any
      (·.allowMesh) then minted else none := by
  simp only [mandateKeyGrant, bind_ok, found_ok, Table.get_ok, reraise_ok, exists_unit, pure_ok, Prod.exists] at h
  obtain ⟨-, d, pk, hauth, c, hc, m, hm, e, response, hissue, rfl⟩ := h
  obtain ⟨t, hsaved⟩ := issueToken_ok hissue
  refine ⟨d, pk, c, m, (e, response), t, _, hauth, hc, hm, hsaved, rfl, fun k n hn => ?_, rfl, rfl, rfl, rfl⟩
  have hnow : e.now = d.now := by rw [show e = _ from hsaved.state]
  simp [hn, hnow]

/-! ## The writes of the endpoints -/

theorem usedNonces_writes {u : Table UsedNonce} (h : Edit db.usedNonces u) :
    Writes A db { db with usedNonces := u } :=
  Writes.quiet (.usedNonces h)

theorem exchangeCode_writes {clientId : ClientId} {secret : Option String} {code : Nat} {uri verifier : String}
    {r : DB × TokenResponse} (h : db.exchangeCode env clientId secret code uri verifier = .ok r) :
    Writes A db r.1 := by
  obtain ⟨pk, c, codePk, item, u, x, t, -, hquery, -, hedit, hsaved, rfl⟩ := exchangeCode_ok h
  obtain ⟨hrow, -, hid, -⟩ := queryAuthorizationCode_some hquery
  refine (usedNonces_writes hedit).trans ((hsaved.writes (.code hrow hid rfl)).trans (Writes.quiet ?_))
  rw [hsaved.state]
  exact .dropCodes _

theorem tokens_writes {pk : Pk} {f : OAuth2Token → OAuth2Token}
    (hf : ∀ t, ∃ r, f t = { t with revoked := r } ∧ (t.revoked = true → r = true)) :
    Writes A db { db with tokens := db.tokens.modify pk f } :=
  Writes.quiet (.tokens (.modify (fun _ t => ⟨t.revoked, rfl, id⟩) fun t _ => hf t))

theorem rotated_tokens {x : DB × TokenResponse} {pk tokenPk subject : Pk} {c : Client} {asked : List String}
    {refresh : Bool} {n t : OAuth2Token} (hsaved : Saved env db pk c subject asked refresh x n)
    (ht : db.tokens.row tokenPk = some t) (s : Time) :
    ({ x.1 with
        tokens := (x.1.tokens.modify tokenPk fun x => { x with revoked := true }).modify db.tokens.next fun x =>
        { x with chainStartedAt := s } } : DB)
      = { db with draws := db.draws + 2,
                  tokens := (db.tokens.insert { n with chainStartedAt := s }).modify tokenPk
                    fun x => { x with revoked := true } } := by
  have hne : tokenPk ≠ db.tokens.next := Nat.ne_of_lt (lt_next ht)
  have htable : ((db.tokens.insert n).modify tokenPk fun x => { x with revoked := true }).modify
    db.tokens.next (fun x =>
      { x with chainStartedAt := s })
      = (db.tokens.insert { n with chainStartedAt := s }).modify tokenPk fun x => { x with revoked := true } := by
    refine Table.ext rfl fun k => ?_
    simp only [Table.modify, Table.update, Table.insert]
    by_cases hk : k = db.tokens.next
    · subst hk
      simp [hne.symm]
    · simp [hk]
      rfl
  rw [hsaved.state]
  dsimp only
  rw [htable]

theorem rotate_writes {pk tokenPk : Pk} {c : Client} {t : OAuth2Token} {scope : List String}
    {r : DB × TokenResponse}
    (ht : db.tokens.row tokenPk = some t) (hid : t.clientId = c.clientId)
    (h : db.rotate env pk c tokenPk t scope = .ok r) :
    Writes A db r.1 := by
  obtain ⟨x, n, asked, -, hsaved, rfl⟩ := rotate_ok h
  rw [rotated_tokens hsaved ht]
  have hmint : Writes A db { db with
      draws := db.draws + 2, tokens := db.tokens.insert { n with chainStartedAt := t.chainStartedAt } } := by
    refine Writes.quiet (.mint _ ?_ fun r hr => ?_)
    · rw [hsaved.clientId, hsaved.user]
      exact .token ht hid rfl
    · have hr : n.refreshToken = some r := hr
      rw [hsaved.refreshToken] at hr
      exact (Option.some.inj hr).symm
  exact hmint.trans (tokens_writes fun t => ⟨true, rfl, fun _ => rfl⟩)

theorem refresh_writes (clientId : ClientId) (secret : Option String) (refreshToken : Nat) (scope : List String) :
    Writes A db (db.refresh env clientId secret refreshToken scope).1 := by
  have hauth : Writes A db (db.authenticateRefreshToken refreshToken).1 :=
    authenticateRefreshToken_writes refreshToken
  have hsome := @authenticateRefreshToken_some db refreshToken
  unfold refresh
  split
  · exact .refl db
  · rename_i pk c hclient
    generalize db.authenticateRefreshToken refreshToken = x at hauth hsome
    obtain ⟨d, o⟩ := x
    cases o with
    | none => exact hauth
    | some r =>
      obtain ⟨tokenPk, t⟩ := r
      obtain ⟨hsame, hrow, -, -⟩ := hsome rfl
      dsimp only at hsame ⊢
      subst hsame
      split
      · rename_i hid
        unfold orElseSame
        split
        · rename_i d' r hr
          exact rotate_writes hrow (by simpa using hid) hr
        · exact .refl _
      · exact .refl _

theorem pollDeviceCode_writes (clientId : ClientId) (deviceCode : Nat) :
    Writes A db (db.pollDeviceCode env clientId deviceCode).1 := by
  unfold pollDeviceCode
  split
  · exact .refl db
  · rename_i pk c hclient
    split
    · exact .refl db
    · rename_i codePk code hfirst
      split
      · rename_i hown
        have hvalid : Writes A db (db.validateDeviceCredential codePk code).1 :=
          validateDeviceCredential_writes codePk code
        split
        · rename_i d e hd
          rw [hd] at hvalid
          exact hvalid
        · rename_i d subject hd
          have hsubject : (db.validateDeviceCredential codePk code).2 = .ok subject := by rw [hd]
          obtain ⟨hsame, -, -, k, hk, hm⟩ := validateDeviceCredential_ok hsubject
          rw [hd] at hsame
          obtain rfl : d = db := hsame
          unfold orElseSame
          split
          · rename_i d' r hr
            have hredeem := reraise_ok.mp hr
            simp only [redeemDeviceCode, bind_ok, pure_ok, Prod.exists] at hredeem
            obtain ⟨e, response, hissue, hr⟩ := hredeem
            obtain ⟨t, hsaved⟩ := issueToken_ok hissue
            obtain rfl : _ = d' := congrArg Prod.fst hr
            rw [hk] at hown
            exact (hsaved.writes (.client hk (by simpa using hown) hm)).trans Writes.delete
          · exact .refl _
      · exact .refl _

theorem mandateKeyGrant_writes {request : MandateKeyGrantRequest} {minted : Option String} {r : DB × TokenResponse}
    (hE : A.enroll) (hA : A.login) (h : db.mandateKeyGrant env request minted = .ok r) : Writes A db r.1 := by
  obtain ⟨d, pk, c, m, x, t, p, hauth, hc, hm, hsaved, hr, -⟩ := mandateKeyGrant_ok h
  rw [hr]
  exact (authenticateKey_writes hE hA hauth).trans
    ((hsaved.writes (.client hc rfl hm)).trans (Writes.quiet (.dropTokens p)))

theorem orElseSame_writes {α : Type} {x : Answer (DB × α)} (h : ∀ r, x = .ok r → Writes A db r.1) :
    Writes A db (db.orElseSame x).1 := by
  unfold orElseSame
  split
  · exact h _ rfl
  · exact .refl db

theorem createTokenResponse_writes (hE : A.enroll) (hA : A.login) (request : TokenRequest) :
    Writes A db (db.createTokenResponse env request).1 := by
  cases request with
  | deviceCode clientId code => exact pollDeviceCode_writes clientId code
  | authorizationCode => exact orElseSame_writes fun _ => exchangeCode_writes
  | refreshToken clientId secret token scope => exact refresh_writes clientId secret token scope
  | mandateKey => exact orElseSame_writes fun _ => mandateKeyGrant_writes hE hA

theorem revokeToken_writes {clientId : ClientId} {secret : Option String} {token : Nat}
    (h : db.revokeToken clientId secret token = .ok d) : Writes A db d := by
  simp only [revokeToken, bind_ok, found_ok, require_ok, exists_unit, pure_ok, Prod.exists] at h
  obtain ⟨_, c, -, pk, t, -, -, rfl⟩ := h
  exact tokens_writes fun t => ⟨true, rfl, fun _ => rfl⟩

/-! ## Cutting off -/

theorem cutOff_writes (clients issuers : List Pk) :
    Writes A db ((db.revokeTokensOf clients).revokeIssuedBy issuers).1 :=
  (revokeTokensOf_writes _).trans (revokeIssuedBy_writes _)

theorem rejectAppInstallation_writes (client : Pk) : Writes A db (db.rejectAppInstallation client).1 := by
  unfold rejectAppInstallation
  split
  · exact .refl db
  · split
    · refine orElseSame_writes fun r hr => ?_
      simp only [map_ok] at hr
      obtain ⟨d, hd, rfl⟩ := hr
      exact revokeMandate_writes hd
    · split
      · rename_i r membership _ _
        extract_lets siblings
        have hw : Writes A db ((db.revokeTokensOf siblings).revokeIssuedBy siblings).1 :=
          cutOff_writes siblings siblings
        split
        · rename_i d e hd
          rw [hd] at hw
          exact hw
        · rename_i d hd
          rw [hd] at hw
          exact hw.trans Writes.delete
      · exact cutOff_writes _ _

theorem revokeClientSessions_writes (user client : Pk) : Writes A db (db.revokeClientSessions user client).1 := by
  unfold revokeClientSessions
  split
  · exact .refl db
  · split
    · exact rejectAppInstallation_writes _
    · exact .refl db

theorem revokeOrganizationSessions_writes (user organization : Pk) :
    Writes A db (db.revokeOrganizationSessions user organization).1 := by
  unfold revokeOrganizationSessions
  split
  · exact .refl db
  · split
    · exact (revokeTokensOf_writes _).trans (revokeOrganizationMandates_writes _)
    · exact .refl db

end DB

end Lok
