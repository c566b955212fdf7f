import Lok.SystemWrites

/-!
# The scope of an issued token

The scope a grant passes on is narrowed to the client's own before the row of the token is
saved, and the claims fall back to the client's own when nothing is left. So row and claims
agree, and say no more than was asked for, when the two scopes meet.
-/

namespace Lok

open Table Checks

/-- The scope claim, as the claims builder computes it from the scope of the row. -/
def claimedScope (held row : List String) : List String := if row.isEmpty then held else row

namespace DB

variable {db d : DB} {env : Env}

theorem Saved.scope_claim {pk subject : Pk} {c : Client} {asked : List String} {refresh : Bool}
    {r : DB × TokenResponse}
    {t : OAuth2Token} (h : Saved env db pk c subject asked refresh r t) :
    r.2.claims.scope = claimedScope c.scope t.scope := by
  obtain ⟨m, -, hclaims⟩ := h.claims
  rw [hclaims]
  rfl

theorem issuedScope_nil (env : Env) (c : Client) :
    c.issuedScope env [] = if env.narrowsEmpty then c.scope else [] := by
  cases h : env.narrowsEmpty <;> simp [Client.issuedScope, Client.allowedScope, h]

theorem issuedScope_of_ne {c : Client} {asked : List String} (hasked : asked ≠ []) :
    c.issuedScope env asked = asked.filter c.scope.contains := by
  have hempty : asked.isEmpty = false := by simpa using hasked
  simp [Client.issuedScope, Client.allowedScope, hempty]

/-- Row and claim agree, within what is held and what was asked for, when the two meet, nothing is held, or
nothing was asked for and the library fills in what is held. -/
theorem Saved.scope_within {pk subject : Pk} {c : Client} {asked : List String} {refresh : Bool}
    {r : DB × TokenResponse}
    {t : OAuth2Token} (h : Saved env db pk c subject asked refresh r t) :
    (r.2.claims.scope = t.scope ∧ (∀ s ∈ r.2.claims.scope, s ∈ c.scope)
      ∧ (asked ≠ [] → ∀ s ∈ r.2.claims.scope, s ∈ asked)) ↔
        c.scope = [] ∨ (asked = [] ∧ env.narrowsEmpty = true) ∨ ∃ s ∈ asked, s ∈ c.scope := by
  rw [h.scope_claim, h.scope]
  by_cases hasked : asked = []
  · subst hasked
    rw [issuedScope_nil]
    cases hnarrows : env.narrowsEmpty <;> simp [claimedScope]
  · have hrow : c.issuedScope env asked = asked.filter c.scope.contains := issuedScope_of_ne hasked
    by_cases hmeet : ∃ s ∈ asked, s ∈ c.scope
    · obtain ⟨s, hs, hc⟩ := hmeet
      have hne : asked.filter c.scope.contains ≠ [] := by
        intro hnone
        have hin : s ∈ asked.filter c.scope.contains := List.mem_filter.mpr ⟨hs, by simpa using hc⟩
        rw [hnone] at hin
        cases hin
      have hclaim : claimedScope c.scope (asked.filter c.scope.contains) = asked.filter c.scope.contains :=
        if_neg (by simpa using hne)
      rw [hrow, hclaim]
      refine iff_of_true ⟨rfl, fun x hx => ?_, fun _ x hx => (List.mem_filter.mp hx).1⟩ (.inr (.inr ⟨s, hs, hc⟩))
      simpa using (List.mem_filter.mp hx).2
    · have hempty : asked.filter c.scope.contains = [] :=
        List.filter_eq_nil_iff.mpr fun s hs hc => hmeet ⟨s, hs, by simpa using hc⟩
      rw [hrow, hempty]
      constructor
      · intro hall
        exact .inl hall.1
      · rintro (hnone | ⟨hnone, -⟩ | hsome)
        · simp [claimedScope, hnone]
        · exact absurd hnone hasked
        · exact absurd hsome hmeet

/-! ## What a request asks for -/

/-- The authorization asked for a scope, the refresh or the chain it continues did, the approval did; a key
logs in for all its client holds. -/
def Asks (db d : DB) (response : TokenResponse) (asked : List String) : TokenRequest → Prop
  | .authorizationCode _ _ code _ _ =>
    ∃ k a, db.authorizationCodes.row k = some a ∧ a.code = code ∧ a.scope = asked
  | .refreshToken _ _ token scope =>
    (scope ≠ [] ∧ asked = scope)
      ∨ scope = [] ∧ ∃ k t, db.tokens.row k = some t ∧ t.refreshToken = some token ∧ t.scope = asked
  | .deviceCode _ secret => ∃ k x, db.deviceCodes.row k = some x ∧ x.secret = secret ∧ x.grantedScope = asked
  | .mandateKey .. => ∃ c, d.clients.row response.client = some c ∧ c.scope = asked

theorem refreshScope_ok {t : OAuth2Token} {scope asked : List String} (h : refreshScope t scope = .ok asked) :
    (scope ≠ [] ∧ asked = scope) ∨ scope = [] ∧ t.scope = asked := by
  unfold refreshScope at h
  split at h
  · rename_i hempty
    exact .inr ⟨by simpa using hempty, pure_ok.mp h⟩
  · rename_i hempty
    simp only [bind_ok, require_ok, exists_unit, pure_ok] at h
    exact .inl ⟨by simpa using hempty, h.2.symm⟩

theorem burn_clients (codePk : Pk) {pk : Pk} {c : Client} (hc : db.clients.row pk = some c) :
    ∃ c', (db.delete .deviceCode [⟨.deviceCode, codePk⟩] none).clients.row pk = some c' ∧ c.Cleared c' := by
  obtain ⟨c', hc'⟩ : (db.delete .deviceCode [⟨.deviceCode, codePk⟩] none).has ⟨.client, pk⟩ :=
    delete_spares (S := [.deviceCode]) (by decide) (by simp) (by simp) (by simp) (by simp) ⟨c, hc⟩
  obtain ⟨c₀, hc₀, hcleared⟩ := (delete_shrinks db .deviceCode _ none).clients.2 pk c' hc'
  rw [hc] at hc₀
  cases hc₀
  exact ⟨c', hc', hcleared⟩

theorem burn_tokens (codePk : Pk) {pk : Pk} {t : OAuth2Token} (ht : db.tokens.row pk = some t) :
    (db.delete .deviceCode [⟨.deviceCode, codePk⟩] none).tokens.row pk = some t := by
  obtain ⟨t', ht'⟩ : (db.delete .deviceCode [⟨.deviceCode, codePk⟩] none).has ⟨.token, pk⟩ :=
    delete_spares (S := [.deviceCode]) (by decide) (by simp) (by simp) (by simp) (by simp) ⟨t, ht⟩
  obtain ⟨t₀, ht₀, rfl⟩ := (delete_shrinks db .deviceCode _ none).tokens.2 pk t' ht'
  rw [ht] at ht₀
  cases ht₀
  exact ht'

theorem Saved.token_row {pk subject : Pk} {c : Client} {asked : List String} {refresh : Bool}
    {r : DB × TokenResponse}
    {t : OAuth2Token} (h : Saved env db pk c subject asked refresh r t) : r.1.tokens.row r.2.token = some t := by
  rw [h.state, h.token]
  exact insert_row_next _ _

theorem Saved.client_row {pk subject : Pk} {c : Client} {asked : List String} {refresh : Bool}
    {r : DB × TokenResponse}
    {t : OAuth2Token} (h : Saved env db pk c subject asked refresh r t) : r.1.clients = db.clients := by
  rw [h.state]

/-- What the token is issued from, as which client and for whom: a code's or a chain's subject as the client
that asks, the client's own membership otherwise. -/
def ActsFor (env : Env) (db e : DB) (c : Client) (subject : Pk) : TokenRequest → Prop
  | .authorizationCode clientId .. | .refreshToken clientId .. =>
    ∃ pk u, db.queryClient clientId = some (pk, c) ∧ e = { db with usedNonces := u }
  | .deviceCode .. =>
    ∃ k x pk staged, db.deviceCodes.row k = some x ∧ db.clients.row pk = some c
      ∧ db.clients.row x.client = some staged
      ∧ staged.clientId = c.clientId ∧ staged.membership = some subject ∧ e = db
  | .mandateKey request _ => ∃ pk, db.authenticateKey env request = .ok (e, pk) ∧ c.membership = some subject

/-- An answered request saved one token, for the scope it asks for and for whom it acts. -/
theorem createTokenResponse_saved {request : TokenRequest} {response : TokenResponse}
    (h : db.createTokenResponse env request = (d, .ok response)) :
    ∃ e pk c subject asked refresh x t c' s, Saved env e pk c subject asked refresh x t
    ∧ response.claims = x.2.claims
      ∧ d.clients.row response.client = some c' ∧ c'.scope = c.scope
      ∧ d.tokens.row response.token = some { t with chainStartedAt := s }
      ∧ Asks db d response asked request ∧ ActsFor env db e c subject request := by
  cases request with
  | deviceCode clientId secret =>
    obtain ⟨pk, c, codePk, code, k, m, x, t, hclient, hcode, hsecret, -, -, hk, hid, hm, hsaved, hr⟩ :=
      pollDeviceCode_ok (r := (d, response)) h
    obtain ⟨rfl, rfl⟩ := Prod.mk.inj hr
    have hc : x.1.clients.row pk = some c := hsaved.client_row ▸ (clientFor_ok hclient).1
    obtain ⟨c', hc', hcleared⟩ := burn_clients codePk hc
    have hscope : c'.scope = c.scope := by
      obtain ⟨_, _, rfl⟩ := hcleared
      rfl
    refine ⟨db, pk, c, m, _, _, x, t, c', t.chainStartedAt, hsaved, rfl, ?_, hscope,
      burn_tokens codePk hsaved.token_row,
      ⟨codePk, code, hcode, hsecret, rfl⟩, codePk, code, pk, k, hcode, (clientFor_ok hclient).1, hk, hid, hm, rfl⟩
    rw [show ({ x.2 with meshKey := code.authKey } : TokenResponse).client = pk from hsaved.client]
    exact hc'
  | authorizationCode clientId secret code uri verifier =>
    obtain ⟨pk, c, codePk, item, u, x, t, hclient, hquery, -, -, hsaved, hr⟩ :=
      exchangeCode_ok (orElseSame_ok (r := (d, response)) h)
    obtain ⟨rfl, rfl⟩ := Prod.mk.inj hr
    obtain ⟨hrow, hcode, -⟩ := queryAuthorizationCode_some hquery
    refine ⟨_, pk, c, _, _, _, x, t, c, t.chainStartedAt, hsaved, rfl, ?_, rfl, hsaved.token_row,
      ⟨codePk, item, hrow, hcode, rfl⟩,
      pk, u, clientFor_query hclient, rfl⟩
    rw [hsaved.client]
    exact hsaved.client_row ▸ (clientFor_ok hclient).1
  | refreshToken clientId secret token scope =>
    obtain ⟨pk, c, tokenPk, t₀, hclient, hrow, htoken, -, -, hrotate⟩ := refresh_ok (r := (d, response)) h
    obtain ⟨x, t, asked, hasked, hsaved, hr⟩ := rotate_ok hrotate
    obtain ⟨rfl, rfl⟩ := Prod.mk.inj hr
    have hnext : tokenPk ≠ db.tokens.next := Nat.ne_of_lt (lt_next hrow)
    have ht' : ((x.1.tokens.modify tokenPk fun x => { x with revoked := true }).modify db.tokens.next fun x =>
        { x with chainStartedAt := t₀.chainStartedAt }).row x.2.token = some
          { t with chainStartedAt := t₀.chainStartedAt } := by
      refine modify_row_eq_some.mpr (.inr ⟨hsaved.token, t, ?_, rfl⟩)
      exact modify_row_eq_some.mpr (.inl ⟨hsaved.token ▸ hnext.symm, hsaved.token_row⟩)
    refine ⟨db, pk, c, _, asked, _, x, t, c, _, hsaved, rfl, ?_, rfl, ht', ?_, pk, db.usedNonces,
      clientFor_query hclient, rfl⟩
    · rw [hsaved.client]
      exact hsaved.client_row ▸ (clientFor_ok hclient).1
    · rcases refreshScope_ok hasked with hscope | ⟨hscope, hsame⟩
      · exact .inl hscope
      · exact .inr ⟨hscope, tokenPk, t₀, hrow, htoken, hsame⟩
  | mandateKey key minted =>
    obtain ⟨e, pk, c, m, x, t, p, hauth, hc, hm, hsaved, hd, hp, hclient, hclaims, htoken, -⟩ :=
      mandateKeyGrant_ok (orElseSame_ok (r := (d, response)) h)
    dsimp only at hd hclient hclaims htoken
    have hrow : d.clients.row response.client = some c := by
      rw [hd, hclient, hsaved.client]
      exact hsaved.client_row ▸ hc
    refine ⟨e, pk, c, m, _, _, x, t, c, t.chainStartedAt, hsaved, hclaims, hrow, rfl, ?_,
      ⟨c, hrow, rfl⟩, pk, hauth, hm⟩
    rw [hd, htoken]
    exact keep_row_eq_some.mpr ⟨hsaved.token_row, hp _ _ hsaved.issuedAt⟩

end DB

/-- The scope of a token is the recorded one, the client's at most and no more than was asked for, exactly
when what was asked for meets what the client holds, the client holds none, or none was asked for and the
library fills in the client's. -/
theorem issued_scope_recorded {env : Env} {db d : DB} {request : TokenRequest} {response : TokenResponse}
    (h : db.createTokenResponse env request = (d, .ok response)) :
    ∃ c t asked, d.clients.row response.client = some c ∧ d.tokens.row response.token = some t
      ∧ DB.Asks db d response asked request
      ∧ ((response.claims.scope = t.scope ∧ (∀ s ∈ response.claims.scope, s ∈ c.scope)
          ∧ (asked ≠ [] → ∀ s ∈ response.claims.scope, s ∈ asked)) ↔
        c.scope = [] ∨ (asked = [] ∧ env.narrowsEmpty = true) ∨ ∃ s ∈ asked, s ∈ c.scope) := by
  obtain ⟨e, pk, c, subject, asked, refresh, x, t, c', s, hsaved, hclaims, hc', hcs, ht', hasks, -⟩ :=
    DB.createTokenResponse_saved h
  refine ⟨c', _, asked, hc', ht', hasks, ?_⟩
  rw [hclaims, hcs]
  exact hsaved.scope_within

def plainVerifier : String := "a-verifier-of-at-least-forty-three-characters"

/-- Ann signs in to the app, which asks for a scope. -/
def signIn (scope : List String) : List Action :=
  plainSetup [] ++ [.authorize 0 0 ⟨.uuid 0, some "app://", scope, plainVerifier, "S256", ""⟩]

/-- The exchange of the code that `signIn` stored. -/
def signInExchange : TokenRequest := .authorizationCode (.uuid 0) none 3 "app://" plainVerifier

theorem issued_scope_recorded_email :
    ∃ d response c t, (run plainEnv .empty (signIn ["email", "roles"])).createTokenResponse plainEnv
    signInExchange = (d, .ok response)
      ∧ d.clients.row response.client = some c ∧ d.tokens.row response.token = some t
      ∧ response.claims.scope = t.scope := by
  have hok : ((run plainEnv .empty (signIn ["email", "roles"])).createTokenResponse plainEnv signInExchange).2.isOk
    = true := by
    decide +kernel
  have hcode : (run plainEnv .empty (signIn ["email", "roles"])).authorizationCodes.rows.all
      (fun a => a.2.scope == ["email", "roles"]) = true := by decide +kernel
  have hheld : ((run plainEnv .empty (signIn ["email", "roles"])).createTokenResponse plainEnv
    signInExchange).1.clients.rows.all
      (fun c => c.2.scope.contains "email") = true := by decide +kernel
  generalize run plainEnv .empty (signIn ["email", "roles"]) = db at hok hcode hheld ⊢
  obtain ⟨response, hresponse⟩ := exists_ok hok
  have hx : db.createTokenResponse plainEnv
    signInExchange = ((db.createTokenResponse plainEnv signInExchange).1, .ok response) :=
    Prod.ext rfl hresponse
  generalize (db.createTokenResponse plainEnv signInExchange).1 = d at hheld hx
  obtain ⟨c, t, asked, hc, ht, ⟨k, a, ha, -, rfl⟩, hiff⟩ := issued_scope_recorded hx
  have hscope : a.scope = ["email", "roles"] := by simpa using List.all_eq_true.mp hcode (k, a) (mem_rows.mpr ha)
  have hin : "email" ∈ c.scope := by simpa using List.all_eq_true.mp hheld (response.client, c) (mem_rows.mpr hc)
  exact ⟨d, response, c, t, hx, hc, ht, (hiff.mpr (.inr (.inr ⟨"email", by simp [hscope], hin⟩))).1⟩

/-- Asked for a scope it does not hold, the client gets a token for all it holds, recorded as one for none. -/
theorem scope_wider_than_asked :
    ∃ d response t, (run plainEnv .empty (signIn ["roles"])).createTokenResponse plainEnv
    signInExchange = (d, .ok response)
      ∧ d.tokens.row response.token = some t ∧ t.scope = []
      ∧ response.claims.scope = ["openid", "profile", "email"]
      ∧ "profile" ∉ ["roles"] := by
  have hok : ((run plainEnv .empty (signIn ["roles"])).createTokenResponse plainEnv signInExchange).2.toOption.any
    (fun response =>
      response.claims.scope == ["openid", "profile", "email"]
        && (((run plainEnv .empty (signIn ["roles"])).createTokenResponse plainEnv signInExchange).1.tokens.row
          response.token).any
          (fun t => t.scope == [])) = true := by decide +kernel
  generalize (run plainEnv .empty (signIn ["roles"])).createTokenResponse plainEnv signInExchange = x at hok ⊢
  obtain ⟨d, answer⟩ := x
  obtain ⟨response, rfl, hp⟩ := exists_ok_and hok
  simp only [Bool.and_eq_true, beq_iff_eq, Option.any_eq_true] at hp
  obtain ⟨hscope, t, ht, hrow⟩ := hp
  exact ⟨d, response, t, rfl, ht, hrow, hscope, by decide⟩

end Lok
