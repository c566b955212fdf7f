import Lok.GuestBounds
import Lok.IssuedScopes

/-!
# Deactivation

A mandate is live while its grantor's user is active, so a key stops working with the
deactivation of the user it acts for. The other three grants decide by what they stored:
a code, a chain or an approved device code yields a token for its membership whether or
not the user of that membership was deactivated in between.
-/

namespace Lok

open Table Checks

namespace DB

variable {db d : DB} {env : Env} {subject : Pk}

/-- The membership is of a user that was deactivated. -/
def Deactivated (db : DB) (subject : Pk) : Prop :=
  ∃ m u, db.memberships.row subject = some m ∧ db.users.row m.user = some u ∧ u.isActive = false

theorem deactivated_of_any (h : (db.memberships.row subject).any
    (fun m => (db.users.row m.user).any (!·.isActive)) = true) :
    db.Deactivated subject := by
  simpa [Deactivated, Option.any_eq_true, and_assoc] using h

theorem Deactivated.grantorIsActive (h : db.Deactivated subject) : db.grantorIsActive subject = false := by
  obtain ⟨m, u, hm, hu, hinactive⟩ := h
  simp [DB.grantorIsActive, hm, hu, hinactive]

theorem assertLive_grantor {m : Mandate} (h : db.assertLive m = .ok ()) :
    db.grantorIsActive m.membership = true := by
  simp only [assertLive, bind_ok, require_ok, exists_unit] at h
  have hlive := h.1
  unfold isLive at hlive
  split at hlive
  · cases hlive
  · split at hlive
    · cases hlive
    · exact hlive

/-! ## What a grant redeems -/

/-- A code of the subject's that its client may exchange, presented as it was asked for. -/
def RedeemsCode (db : DB) (env : Env) (clientId : ClientId) (secret : Option String) (code : Nat)
    (redirectUri verifier : String)
    (subject : Pk) : Prop :=
  ∃ pk c codePk item, db.clientFor clientId secret .authorizationCode = .ok (pk, c)
    ∧ db.queryAuthorizationCode code c.clientId = some (codePk, item)
    ∧ (item.redirectUri = "" ∨ redirectUri = item.redirectUri) ∧ verifyCode env item verifier = .ok ()
    ∧ item.membership = subject

/-- An active refresh token of the subject's that its client may rotate within the scope of the chain. -/
def RedeemsRefresh (db : DB) (clientId : ClientId) (secret : Option String) (refreshToken : Nat)
    (scope : List String)
    (subject : Pk) : Prop :=
  ∃ pk c tokenPk t asked, db.clientFor clientId secret .refreshToken = .ok (pk, c)
    ∧ db.tokens.first (fun _ t => t.refreshToken == some refreshToken) = some (tokenPk, t)
    ∧ t.isRefreshTokenActive db.now = true ∧ t.clientId = c.clientId ∧ refreshScope t scope = .ok asked
    ∧ t.user = subject

/-- A device code of the client that polls, neither expired nor denied, and approved for the subject. -/
def RedeemsDeviceCode (db : DB) (clientId : ClientId) (deviceCode : Nat) (subject : Pk) : Prop :=
  ∃ pk c codePk code staged, db.clientFor clientId none .deviceCode = .ok (pk, c)
    ∧ db.deviceCodes.first (fun _ x => x.secret == deviceCode) = some (codePk, code)
    ∧ db.clients.row code.client = some staged ∧ staged.clientId = c.clientId
    ∧ db.isExpired code = false ∧ code.denied = false ∧ staged.membership = some subject

/-- The request presents a stored credential of the subject's that is still good; a key is none. -/
def Redeems (db : DB) (env : Env) (subject : Pk) : TokenRequest → Prop
  | .deviceCode clientId deviceCode => db.RedeemsDeviceCode clientId deviceCode subject
  | .authorizationCode clientId secret code redirectUri verifier =>
    db.RedeemsCode env clientId secret code redirectUri verifier subject
  | .refreshToken clientId secret refreshToken scope =>
    db.RedeemsRefresh clientId secret refreshToken scope subject
  | .mandateKey .. => False

/-! ## Each grant answers exactly what it redeems -/

/-- The request is answered with a token for the subject. -/
def Yields (db : DB) (env : Env) (subject : Pk) (request : TokenRequest) : Prop :=
  ∃ d response, db.createTokenResponse env request = (d, .ok response) ∧ response.claims.membership = subject

theorem issueToken_of {m : Membership} (hm : db.memberships.row subject = some m) (pk : Pk) (c : Client)
    (scope : List String)
    (refresh : Bool) :
    ∃ d response, db.issueToken env pk c subject scope refresh = .ok (d, response)
    ∧ response.claims.membership = subject := by
  have hget : db.memberships.get subject = .ok m := Table.get_ok.mpr hm
  simp only [issueToken, hget]
  exact ⟨_, _, rfl, rfl⟩

theorem Saved.membership {pk : Pk} {c : Client} {asked : List String} {refresh : Bool} {r : DB × TokenResponse}
    {t : OAuth2Token}
    (h : Saved env db pk c subject asked refresh r t) : r.2.claims.membership = subject := by
  obtain ⟨m, -, hclaims⟩ := h.claims
  rw [hclaims]
  rfl

theorem exchangeCode_yields {m : Membership} (hm : db.memberships.row subject = some m) {clientId : ClientId}
    {secret : Option String} {code : Nat} {uri verifier : String} :
    (∃ r, db.exchangeCode env clientId secret code uri verifier = .ok r ∧ r.2.claims.membership = subject)
      ↔ db.RedeemsCode env clientId secret code uri verifier subject := by
  constructor
  · rintro ⟨r, h, hsubject⟩
    simp only [exchangeCode, bind_ok, found_ok, require_ok, exists_unit, pure_ok, Prod.exists] at h
    obtain ⟨pk, c, hclient, codePk, item, hquery, huri, hverify, d, response, hissue, rfl⟩ := h
    obtain ⟨t, hsaved⟩ := issueToken_ok hissue
    exact ⟨pk, c, codePk, item, hclient, hquery, by simpa using huri, hverify,
      hsaved.membership.symm.trans hsubject⟩
  · rintro ⟨pk, c, codePk, item, hclient, hquery, huri, hverify, rfl⟩
    obtain ⟨u, hu, -⟩ := useNonce_eq db item.clientId item.nonce
    have hstill : ({ db with usedNonces := u } : DB).memberships.row item.membership = some m := hm
    obtain ⟨d, response, hissue, hsubject⟩ := issueToken_of hstill pk c item.scope (c.checkGrantType .refreshToken)
    refine ⟨({ d with authorizationCodes := d.authorizationCodes.keep fun k _ => k != codePk }, response),
      ?_, hsubject⟩
    simp only [exchangeCode, bind_ok, found_ok, require_ok, exists_unit, pure_ok, Prod.exists]
    exact ⟨pk, c, hclient, codePk, item, hquery, by simpa using huri, hverify, d,
      response, by rw [hu]; exact hissue, rfl⟩

theorem authenticateRefreshToken_eq_some {refreshToken : Nat} {r : Pk × OAuth2Token} :
    db.authenticateRefreshToken refreshToken = (d, some r)
      ↔ d = db ∧ db.tokens.first (fun _ t => t.refreshToken == some refreshToken) = some r
        ∧ r.2.isRefreshTokenActive db.now = true := by
  unfold authenticateRefreshToken
  constructor
  · intro h
    split at h
    · simp at h
    · rename_i pk t hfirst
      split at h
      · rename_i hactive
        obtain ⟨rfl, rfl⟩ : db = d ∧ (pk, t) = r := by simpa using h
        exact ⟨rfl, hfirst, hactive⟩
      · split at h <;> simp at h
  · rintro ⟨rfl, hfirst, hactive⟩
    simp [hfirst, hactive]

/-- A refresh token is rotated into one of the subject's exactly when it redeems one. -/
theorem refresh_yields {m : Membership} (hm : db.memberships.row subject = some m) {clientId : ClientId}
    {secret : Option String} {refreshToken : Nat} {scope : List String} :
    (∃ d response, db.refresh env clientId secret refreshToken scope = (d, .ok response)
      ∧ response.claims.membership = subject)
      ↔ db.RedeemsRefresh clientId secret refreshToken scope subject := by
  constructor
  · rintro ⟨d, response, h, hsubject⟩
    unfold refresh at h
    split at h
    · simp at h
    · rename_i pk c hclient
      split at h
      · simp at h
      · rename_i e tokenPk t hauth
        obtain ⟨rfl, hfirst, hactive⟩ := authenticateRefreshToken_eq_some.mp hauth
        split at h
        · rename_i hid
          obtain ⟨x, n, asked, hasked, hsaved, hr⟩ := rotate_ok (orElseSame_ok (r := (d, response)) h)
          obtain ⟨-, rfl⟩ := Prod.mk.inj hr
          exact ⟨pk, c, tokenPk, t, asked, hclient, hfirst, hactive, by simpa using hid, hasked,
            hsaved.membership.symm.trans hsubject⟩
        · simp at h
  · rintro ⟨pk, c, tokenPk, t, asked, hclient, hfirst, hactive, hid, hasked, rfl⟩
    have hauth : db.authenticateRefreshToken refreshToken = (db, some (tokenPk, t)) :=
      authenticateRefreshToken_eq_some.mpr ⟨rfl, hfirst, hactive⟩
    obtain ⟨d, response, hissue, hsubject⟩ := issueToken_of hm pk c asked true
    obtain ⟨e, hrotate⟩ : ∃ e, db.rotate env pk c tokenPk t scope = .ok (e, response) := by
      simp only [rotate, bind_ok, pure_ok, Prod.exists]
      exact ⟨_, asked, hasked, d, response, hissue, rfl⟩
    simp only [refresh, hclient, hauth, hid, beq_self_eq_true, if_true, hrotate]
    exact ⟨e, response, rfl, hsubject⟩

/-- A poll is answered with a token of the subject's exactly when its device code redeems one. -/
theorem pollDeviceCode_yields {m : Membership} (hm : db.memberships.row subject = some m) {clientId : ClientId}
    {deviceCode : Nat} :
    (∃ d response, db.pollDeviceCode env clientId deviceCode = (d, .ok response)
      ∧ response.claims.membership = subject)
      ↔ db.RedeemsDeviceCode clientId deviceCode subject := by
  constructor
  · rintro ⟨d, response, h, hsubject⟩
    unfold pollDeviceCode at h
    split at h
    · simp at h
    · rename_i pk c hclient
      split at h
      · simp at h
      · rename_i codePk code hfirst
        split at h
        · rename_i hown
          split at h
          · simp at h
          · rename_i e target hvalid
            have hok : (db.validateDeviceCredential codePk code).2 = .ok target := by rw [hvalid]
            obtain ⟨hsame, hexpired, hdenied, staged, hstaged, htarget⟩ := validateDeviceCredential_ok hok
            rw [hvalid] at hsame
            obtain rfl : e = db := hsame
            have hredeem := reraise_ok.mp (orElseSame_ok (r := (d, response)) h)
            simp only [redeemDeviceCode, bind_ok, pure_ok, Prod.exists] at hredeem
            obtain ⟨e, issued, hissue, hr⟩ := hredeem
            obtain ⟨-, rfl⟩ := Prod.mk.inj hr
            obtain ⟨t, hsaved⟩ := issueToken_ok hissue
            obtain rfl : target = subject := hsaved.membership.symm.trans hsubject
            rw [hstaged] at hown
            exact ⟨pk, c, codePk, code, staged, hclient, hfirst, hstaged, by simpa using hown,
              hexpired, hdenied, htarget⟩
        · simp at h
  · rintro ⟨pk, c, codePk, code, staged, hclient, hfirst, hstaged, hid, hexpired, hdenied, hsubject⟩
    have hvalid : db.validateDeviceCredential codePk code = (db, .ok subject) := by
      simp [validateDeviceCredential, hexpired, hdenied, hstaged, hsubject]
    obtain ⟨d, response, hissue, hsubject⟩ :=
      issueToken_of hm pk c code.grantedScope (c.checkGrantType .refreshToken)
    have hown : (db.clients.row code.client).any (·.clientId == c.clientId) = true := by simp [hstaged, hid]
    have hredeem : reraise (fun _ => true) .invalidGrant (db.redeemDeviceCode env pk c codePk code subject)
        = .ok (d.delete .deviceCode [⟨.deviceCode, codePk⟩] none, { response with meshKey := code.authKey }) := by
      refine reraise_ok.mpr ?_
      simp only [redeemDeviceCode, bind_ok, pure_ok, Prod.exists]
      exact ⟨d, response, hissue, rfl⟩
    simp only [pollDeviceCode, hclient, hfirst, hown, if_true, hvalid, hredeem]
    exact ⟨_, _, rfl, hsubject⟩

theorem orElseSame_yields {x : Answer (DB × TokenResponse)} :
    (∃ d response, db.orElseSame x = (d, .ok response) ∧ response.claims.membership = subject)
      ↔ ∃ r, x = .ok r ∧ r.2.claims.membership = subject := by
  constructor
  · rintro ⟨d, response, h, hsubject⟩
    exact ⟨(d, response), orElseSame_ok h, hsubject⟩
  · rintro ⟨r, rfl, hsubject⟩
    exact ⟨r.1, r.2, rfl, hsubject⟩

theorem mandateKeyGrant_subject (hdb : Reachable env db) {request : MandateKeyGrantRequest}
    {minted : Option String}
    {r : DB × TokenResponse} (h : db.mandateKeyGrant env request minted = .ok r) :
    ∃ pk mandate, Admitted db env request pk mandate ∧ r.2.claims.membership = mandate.membership := by
  obtain ⟨e, client, c, m, x, t, p, hauth, hc, hsubject, hsaved, -, -, -, hclaims, -⟩ := mandateKeyGrant_ok h
  obtain ⟨-, pk, mandate, c', hadmitted, hc', hmandate, hrow⟩ :=
    authenticateKey_ok (A := .free) trivial trivial hauth
  dsimp only at hc' hrow
  rw [hc] at hc'
  obtain rfl := Option.some.inj hc'
  have hlaws : e.ClientLaws := by
    have hstep : e = step env db (.authenticateKey request) := by simp [step, hauth, settle, Except.map]
    exact (hdb.step hstep).clientLaws
  -- the client is bound to the mandate after the login, so it speaks for the mandate's grantor
  obtain ⟨y, hy, hmembership, -⟩ := (hlaws.lawful client c hc).mandated pk hmandate
  obtain ⟨i, pin, used, rfl⟩ := hrow y hy
  have hgrantor : c.membership = some mandate.membership := hmembership
  obtain rfl : mandate.membership = m := Option.some.inj (hgrantor.symm.trans hsubject)
  exact ⟨pk, mandate, hadmitted, by rw [hclaims, hsaved.membership]⟩

theorem mandateKeyGrant_active (hdb : Reachable env db) {request : MandateKeyGrantRequest} {minted : Option String}
    {r : DB × TokenResponse} (h : db.mandateKeyGrant env request minted = .ok r) :
    db.grantorIsActive r.2.claims.membership = true := by
  obtain ⟨pk, mandate, hadmitted, hsubject⟩ := mandateKeyGrant_subject hdb h
  rw [hsubject]
  exact assertLive_grantor hadmitted.live

end DB

/-- A deactivated user's membership gets no token exactly when the request presents no stored credential of
it that is still good: of the four grants only the key's asks whether the user is active. -/
theorem no_token_after_deactivation {env : Env} {db : DB} {subject : Pk} (hdb : Reachable env db)
    (hsubject : db.Deactivated subject) (request : TokenRequest) :
    (∀ d response, db.createTokenResponse env request = (d, .ok response) → response.claims.membership ≠ subject)
      ↔ ¬ db.Redeems env subject request := by
  obtain ⟨m, -, hm, -⟩ := id hsubject
  suffices hyields : db.Yields env subject request ↔ db.Redeems env subject request by
    rw [← hyields]
    simp only [DB.Yields, not_exists, not_and, ne_eq]
  cases request with
  | deviceCode clientId deviceCode => exact DB.pollDeviceCode_yields hm
  | authorizationCode clientId secret code uri verifier =>
    exact DB.orElseSame_yields.trans (DB.exchangeCode_yields hm)
  | refreshToken clientId secret token scope => exact DB.refresh_yields hm
  | mandateKey key minted =>
    refine DB.orElseSame_yields.trans ⟨?_, False.elim⟩
    rintro ⟨r, hr, rfl⟩
    have hactive := DB.mandateKeyGrant_active hdb hr
    rw [hsubject.grantorIsActive] at hactive
    cases hactive

/-- Ann's hub has a key for its worker, and Ann is deactivated. -/
def keyOfDeactivated : List Action :=
  [.createUser "ann" [], .createOrganization "org" 0 false, .configureHub 0 keyedHub,
   .configureHubMandates 0 keyedHub,
   .setActive 0 false]

theorem no_token_after_deactivation_key :
    ¬ (run plainEnv .empty keyOfDeactivated).Yields plainEnv 0 (.mandateKey workerLogin none) := by
  have hdb := reachable_run plainEnv keyOfDeactivated
  have hinactive : ((run plainEnv .empty keyOfDeactivated).memberships.row 0).any (fun m =>
      ((run plainEnv .empty keyOfDeactivated).users.row m.user).any (!·.isActive)) = true := by decide +kernel
  generalize run plainEnv .empty keyOfDeactivated = db at hdb hinactive ⊢
  intro h
  obtain ⟨d, response, hyields, hsubject⟩ := h
  exact (no_token_after_deactivation hdb (DB.deactivated_of_any hinactive) _).mpr id d response hyields hsubject

/-- Ann signs in to the app and is deactivated before it exchanges the code: the token is issued for her all
the same. -/
theorem deactivated_user_gets_token :
    Reachable plainEnv (run plainEnv .empty (signIn ["email"] ++ [.setActive 0 false]))
      ∧ (run plainEnv .empty (signIn ["email"] ++ [.setActive 0 false])).Deactivated 0
      ∧ ∃ d response, (run plainEnv .empty (signIn ["email"] ++ [.setActive 0 false])).createTokenResponse
      plainEnv signInExchange
          = (d, .ok response) ∧ response.claims.membership = 0 := by
  have hdb := reachable_run plainEnv (signIn ["email"] ++ [.setActive 0 false])
  have hinactive : ((run plainEnv .empty (signIn ["email"] ++ [.setActive 0 false])).memberships.row 0).any
    (fun m =>
      ((run plainEnv .empty (signIn ["email"] ++ [.setActive 0 false])).users.row m.user).any
        (!·.isActive)) = true := by
    decide +kernel
  have hok : ((run plainEnv .empty (signIn ["email"] ++ [.setActive 0 false])).createTokenResponse plainEnv
      signInExchange).2.toOption.any (·.claims.membership == 0) = true := by decide +kernel
  generalize run plainEnv .empty (signIn ["email"] ++ [.setActive 0 false]) = db at hdb hinactive hok ⊢
  obtain ⟨response, hresponse, hsubject⟩ := exists_ok_and hok
  exact ⟨hdb, DB.deactivated_of_any hinactive, (db.createTokenResponse plainEnv signInExchange).1, response,
    Prod.ext rfl hresponse, by simpa using hsubject⟩

end Lok
