import Lok.ClientLaws
import Lok.IssuedScopes

/-!
# Refresh chains

A token is rotated into the next of its chain. The row of a token changes in one way only:
it gets revoked. So a chain keeps the start of its first token, and its lifetime. Whoever
presents a token that was rotated already revokes the chain, of which nothing is refreshed
from then on, and nothing else.
-/

namespace Lok

open Table Runs Checks

variable {env : Env} {db d : DB}

/-! ## What happens to the row of a token -/

namespace DB

/-- A token that was there is as it was, or revoked, or gone. -/
structure TokensKept (db d : DB) : Prop where
  next : db.tokens.next ≤ d.tokens.next
  row : ∀ k t', d.tokens.row k = some t' → k < db.tokens.next → ∃ t, db.tokens.row k = some t
    ∧ t' = { t with revoked := t'.revoked } ∧ (t.revoked = true → t'.revoked = true)

theorem TokensKept.refl (db : DB) : TokensKept db db := ⟨Nat.le_refl _, fun _ t ht _ => ⟨t, ht, rfl, id⟩⟩

theorem TokensKept.trans {e : DB} (h : TokensKept db d) (k : TokensKept d e) : TokensKept db e := by
  refine ⟨Nat.le_trans h.next k.next, fun pk t'' ht'' hlt => ?_⟩
  obtain ⟨t', ht', hsame', hrevoked'⟩ := k.row pk t'' ht'' (Nat.lt_of_lt_of_le hlt h.next)
  obtain ⟨t, ht, hsame, hrevoked⟩ := h.row pk t' ht' hlt
  refine ⟨t, ht, ?_, fun hr => hrevoked' (hrevoked hr)⟩
  rw [hsame', hsame]

theorem TokensKept.same (h : d.tokens = db.tokens) : TokensKept db d :=
  ⟨Nat.le_of_eq (by rw [h]), fun _ t ht _ => ⟨t, h ▸ ht, rfl, id⟩⟩

theorem TokensKept.write {l : Label} (hw : Write db l d) : TokensKept db d := by
  cases hw with
  | mint t =>
    refine ⟨Nat.le_succ _, fun k t' ht' hlt => ?_⟩
    rcases insert_row_eq_some.mp ht' with ⟨rfl, -⟩ | ht'
    · exact absurd hlt (Nat.lt_irrefl _)
    · exact ⟨t', ht', rfl, id⟩
  | tokens ht =>
    refine ⟨Nat.le_of_eq ht.1.symm, fun k t' ht' _ => ?_⟩
    obtain ⟨t, htrow, r, rfl, hr⟩ := ht.before ht'
    exact ⟨t, htrow, rfl, hr⟩
  | dropTokens p => exact ⟨Nat.le_refl _, fun k t' ht' _ => ⟨t', (keep_row_eq_some.mp ht').1, rfl, id⟩⟩
  | delete origin roots upgrading =>
    have hd := (delete_shrinks db origin roots upgrading).tokens
    refine ⟨Nat.le_of_eq hd.1.symm, fun k t' ht' _ => ?_⟩
    obtain ⟨t, ht, rfl⟩ := hd.2 k t' ht'
    exact ⟨t', ht, rfl, id⟩
  | renameRole hr =>
    obtain ⟨_, _, -, rfl, -⟩ := renameRole_ok hr
    exact .same rfl
  | _ => exact .same rfl

def RefreshTokensDrawn (db : DB) : Prop := Drawn (fun t : OAuth2Token => t.refreshToken) db.tokens db.draws

theorem RefreshTokensDrawn.write {l : Label} (h : db.RefreshTokensDrawn) (hw : Write db l d) :
    d.RefreshTokensDrawn := by
  cases hw with
  | mint t hvouched hrefresh =>
    refine h.insert (Nat.le_add_right _ _) fun x hx => ?_
    rw [hrefresh x hx]
    exact ⟨Nat.le_succ _, Nat.lt_succ_self _⟩
  | tokens ht =>
    refine h.rewrite ht fun _ t t' hr => ?_
    obtain ⟨r, rfl, -⟩ := hr
    rfl
  | dropTokens p => exact h.of_before fun k t ht => ⟨t, (keep_row_eq_some.mp ht).1, rfl⟩
  | delete origin roots upgrading =>
    have hd := delete_shrinks db origin roots upgrading
    refine (h.of_before fun k t ht => ?_).mono (Nat.le_of_eq hd.draws.symm)
    obtain ⟨t₀, ht₀, rfl⟩ := hd.tokens.2 k t ht
    exact ⟨t, ht₀, rfl⟩
  | renameRole hr =>
    obtain ⟨_, _, -, rfl, -⟩ := renameRole_ok hr
    exact h
  | newClient | stage | stageMesh | authorize => exact h.mono (Nat.le_add_right _ _)
  | _ => exact h

theorem RefreshTokensDrawn.first (h : db.RefreshTokensDrawn) {k : Pk} {t : OAuth2Token} {r : Nat}
    (ht : db.tokens.row k = some t)
    (hr : t.refreshToken = some r) : (db.tokens.first fun _ t => t.refreshToken == some r) = some (k, t) :=
  Drawn.first h ht hr (by simp [hr]) fun _ _ hp => by simpa using hp

end DB

theorem step_tokensKept (a : Action) : DB.TokensKept db (step env db a) := by
  cases ha : a.deletes with
  | true => exact step_deletes ha (.refl db) fun _ _ => .write (.delete _ _ _)
  | false =>
    exact Via.relates (R := DB.TokensKept) DB.TokensKept.refl (fun h k => h.trans k) (fun hw _ => .write hw)
      (step_writes env db ha)

theorem run_tokensKept (as : List Action) : ∀ db : DB, DB.TokensKept db (run env db as) := by
  induction as with
  | nil => exact fun db => .refl db
  | cons a as ih => exact fun db => (step_tokensKept a).trans (ih (step env db a))

theorem Reachable.refreshTokensDrawn (h : Reachable env db) : db.RefreshTokensDrawn :=
  h.invariant (fun h hw => h.write hw) .empty

theorem run_append (as bs : List Action) : run env db (as ++ bs) = run env (run env db as) bs := List.foldl_append

theorem Reachable.run (h : Reachable env db) (as : List Action) : Reachable env (Lok.run env db as) := by
  obtain ⟨bs, hbs⟩ := h
  exact ⟨bs ++ as, hbs.append (run_steps env as db)⟩

/-! ## Chains -/

/-- The action issues a token, other than by a refresh. -/
def Issues (env : Env) (db : DB) (a : Action) (k : Pk) : Prop :=
  ∃ request d response, a = .requestToken request
    ∧ (∀ clientId secret r scope, request ≠ .refreshToken clientId secret r scope)
    ∧ db.createTokenResponse env request = (d, .ok response) ∧ response.token = k

/-- The action presents the refresh token of the row `k` at the token endpoint, as a client that may refresh. -/
def Presents (db : DB) (a : Action) (k : Pk) : Prop :=
  ∃ clientId secret r scope t client, a = .requestToken (.refreshToken clientId secret r scope)
    ∧ db.tokens.row k = some t
    ∧ t.refreshToken = some r ∧ db.clientFor clientId secret .refreshToken = .ok client

/-- The action is a refresh that succeeds: it rotates the token `k` into `k'`. -/
def Rotates (env : Env) (db : DB) (a : Action) (k k' : Pk) : Prop :=
  ∃ clientId secret r scope t d response, a = .requestToken (.refreshToken clientId secret r scope)
    ∧ db.tokens.row k = some t ∧ t.refreshToken = some r
    ∧ db.refresh env clientId secret r scope = (d, .ok response)
    ∧ response.token = k'

/-- After the actions `as`, `k` is a token of the chain that begins with `k₀`; it was issued at `τ`. -/
inductive InChain (env : Env) (db : DB) (k₀ : Pk) (τ₀ : Time) : List Action → Pk → Time → Prop
  | first : InChain env db k₀ τ₀ [] k₀ τ₀
  | kept {as : List Action} {k : Pk} {τ : Time} (a : Action) (h : InChain env db k₀ τ₀ as k τ) :
    InChain env db k₀ τ₀ (as ++ [a]) k τ
  | rotated {as : List Action} {k k' : Pk} {τ : Time} {a : Action} (h : InChain env db k₀ τ₀ as k τ)
    (hr : Rotates env (run env db as) a k k') : InChain env db k₀ τ₀ (as ++ [a]) k' (run env db as).now

theorem InChain.keeps {k₀ k : Pk} {τ₀ τ : Time} {as : List Action} (h : InChain env db k₀ τ₀ as k τ) :
    ∀ bs, InChain env db k₀ τ₀ (as ++ bs) k τ := by
  intro bs
  induction bs generalizing as with
  | nil => exact (List.append_nil as).symm ▸ h
  | cons b bs ih =>
    rw [List.append_cons]
    exact ih (h.kept b)

theorem Rotates.rows {a : Action} {k k' : Pk} (h : Rotates env db a k k') (hdrawn : db.RefreshTokensDrawn) :
    ∃ t t', db.tokens.row k = some t ∧ t.isRefreshTokenActive db.now = true
    ∧ (step env db a).tokens.row k' = some t'
      ∧ t'.clientId = t.clientId ∧ t'.chainStartedAt = t.chainStartedAt ∧ t'.issuedAt = db.now
      ∧ ∀ x, (step env db a).tokens.row k = some x → x.revoked = true := by
  obtain ⟨clientId, secret, r, scope, t, d, response, rfl, ht, hr, hok, rfl⟩ := h
  obtain ⟨pk, c, tokenPk, t₀, -, hrow, htoken, hactive, hid, hrotate⟩ := DB.refresh_ok (r := (d, response)) hok
  obtain rfl : k = tokenPk := hdrawn.unique k tokenPk t t₀ r ht hrow hr htoken
  rw [ht] at hrow
  obtain rfl := Option.some.inj hrow
  obtain ⟨x, n, asked, -, hsaved, hrotated⟩ := DB.rotate_ok hrotate
  obtain ⟨rfl, rfl⟩ := Prod.mk.inj hrotated
  have hstep : step env db (.requestToken (.refreshToken clientId secret r scope))
    = (db.refresh env clientId secret r scope).1 := rfl
  rw [hstep, hok, DB.rotated_tokens hsaved ht, hsaved.token]
  have hne : k ≠ db.tokens.next := Nat.ne_of_lt (lt_next ht)
  refine ⟨t, { n with chainStartedAt := t.chainStartedAt }, ht, hactive, ?_, hsaved.clientId.trans hid.symm,
    rfl, hsaved.issuedAt,
    fun x hx => ?_⟩
  · exact modify_row_eq_some.mpr (.inl ⟨hne.symm, insert_row_next _ _⟩)
  · rcases modify_row_eq_some.mp hx with ⟨hk, -⟩ | ⟨-, y, -, rfl⟩
    · exact absurd rfl hk
    · rfl

theorem Issues.row {a : Action} {k : Pk} (h : Issues env db a k) :
    ∃ t, (step env db a).tokens.row k = some t ∧ t.chainStartedAt = t.issuedAt
      ∧ (t.refreshToken.isSome = true → t.issuedAt = db.now) := by
  obtain ⟨request, d, response, rfl, hother, hok, rfl⟩ := h
  have hstep : step env db (.requestToken request) = (db.createTokenResponse env request).1 := rfl
  rw [hstep, hok]
  cases request with
  | deviceCode clientId secret =>
    obtain ⟨pk, c, codePk, code, k, m, x, t, -, -, -, -, -, -, -, -, hsaved, hr⟩ :=
      DB.pollDeviceCode_ok (r := (d, response)) hok
    obtain ⟨rfl, rfl⟩ := Prod.mk.inj hr
    exact ⟨t, DB.burn_tokens codePk hsaved.token_row, hsaved.chainStartedAt.trans hsaved.issuedAt.symm,
      fun _ => hsaved.issuedAt⟩
  | authorizationCode clientId secret code uri verifier =>
    obtain ⟨pk, c, codePk, item, u, x, t, -, -, -, -, hsaved, hr⟩ :=
      DB.exchangeCode_ok (DB.orElseSame_ok (r := (d, response)) hok)
    obtain ⟨rfl, rfl⟩ := Prod.mk.inj hr
    exact ⟨t, hsaved.token_row, hsaved.chainStartedAt.trans hsaved.issuedAt.symm, fun _ => hsaved.issuedAt⟩
  | refreshToken clientId secret token scope => exact absurd rfl (hother clientId secret token scope)
  | mandateKey key minted =>
    obtain ⟨e, pk, c, m, x, t, p, -, -, -, hsaved, hd, hp, -, -, htoken, -⟩ :=
      DB.mandateKeyGrant_ok (DB.orElseSame_ok (r := (d, response)) hok)
    dsimp only at hd htoken ⊢
    refine ⟨t, ?_, hsaved.chainStartedAt.trans hsaved.issuedAt.symm, fun hsome => ?_⟩
    · rw [hd, htoken]
      exact keep_row_eq_some.mpr ⟨hsaved.token_row, hp _ _ hsaved.issuedAt⟩
    · -- a key is answered without a refresh token
      rw [hsaved.refreshToken] at hsome
      cases hsome

section

variable {k₀ : Pk} {t₀ : OAuth2Token}

/-- A token of a chain is for the client of the first, has its start, and was issued when it was issued. -/
theorem InChain.row (hr : Reachable env db) (h₀ : db.tokens.row k₀ = some t₀) {as : List Action} {k : Pk}
    {τ : Time} (h : InChain env db k₀ t₀.issuedAt as k τ) :
    k < (run env db as).tokens.next ∧ ∀ t, (run env db as).tokens.row k = some t →
      t.clientId = t₀.clientId ∧ t.chainStartedAt = t₀.chainStartedAt ∧ t.issuedAt = τ := by
  induction h with
  | first =>
    refine ⟨lt_next h₀, fun t ht => ?_⟩
    have ht : db.tokens.row k₀ = some t := ht
    rw [h₀] at ht
    obtain rfl := Option.some.inj ht
    exact ⟨rfl, rfl, rfl⟩
  | @kept as k τ a h ih =>
    have hkept : (run env db as).TokensKept (step env (run env db as) a) := step_tokensKept a
    rw [run_append]
    refine ⟨Nat.lt_of_lt_of_le ih.1 hkept.next, fun t ht => ?_⟩
    obtain ⟨t', ht', hsame, -⟩ := hkept.row k t ht ih.1
    rw [hsame]
    exact ih.2 t' ht'
  | @rotated as k k' τ a h hrot ih =>
    obtain ⟨t, t', ht, -, ht', hid, hstart, hissued, -⟩ := hrot.rows (hr.run as).refreshTokensDrawn
    rw [run_append]
    refine ⟨lt_next ht', fun x hx => ?_⟩
    have hx : (step env (run env db as) a).tokens.row k' = some x := hx
    rw [ht'] at hx
    obtain rfl := Option.some.inj hx
    obtain ⟨hid₀, hstart₀, -⟩ := ih.2 t ht
    exact ⟨hid.trans hid₀, hstart.trans hstart₀, hissued⟩

theorem InChain.within (hr : Reachable env db) (h₀ : db.tokens.row k₀ = some t₀) {as : List Action} {k k' : Pk}
    {τ : Time} {a : Action}
    (h : InChain env db k₀ t₀.issuedAt as k τ) (hrot : Rotates env (run env db as) a k k') :
    (run env db as).now ≤ t₀.chainStartedAt + refreshChainMaxLifetime
    ∧ (run env db as).now ≤ τ + refreshTokenLifetime := by
  obtain ⟨t, _, ht, hactive, -⟩ := @Rotates.rows env _ _ _ _ hrot (hr.run as).refreshTokensDrawn
  obtain ⟨-, hstart, hissued⟩ := (h.row hr h₀).2 t ht
  unfold OAuth2Token.isRefreshTokenActive at hactive
  simp only [Bool.and_eq_true, decide_eq_true_eq] at hactive
  rw [← hstart, ← hissued]
  exact ⟨hactive.2, hactive.1.2⟩

end

/-! ## A token that leaked -/

namespace DB

theorem revokeChain_revokes {t x : OAuth2Token} {k : Pk} (hx : (db.revokeChain t).tokens.row k = some x)
    (hk : k < db.tokens.next)
    (hid : x.clientId = t.clientId) (hstart : x.chainStartedAt = t.chainStartedAt) : x.revoked = true := by
  unfold revokeChain at hx
  dsimp only at hx
  generalize htokens : db.tokens.updateWhere _ _ = tokens at hx
  have hrow : ∀ y, tokens.row k = some y → y.clientId = t.clientId → y.chainStartedAt = t.chainStartedAt →
    y.revoked = true := by
    intro y hy hid hstart
    subst htokens
    obtain ⟨y₀, -, hy⟩ := updateWhere_row_eq_some.mp hy
    split at hy
    · subst hy
      rfl
    · rename_i hnot
      subst hy
      simpa [hid, hstart] using hnot
  have hnext : k < tokens.next := by
    subst htokens
    exact hk
  have hkept : ∀ clients, TokensKept { db with tokens := tokens }
    (({ db with tokens := tokens } : DB).revokeIssuedBy clients).1 :=
    fun _ => Via.relates (R := TokensKept) TokensKept.refl (fun h k => h.trans k) (fun hw _ => .write hw)
      (revokeIssuedBy_writes (A := .free) _)
  obtain ⟨y, hy, hsame, hrevoked⟩ := (hkept _).row k x hx hnext
  refine hrevoked (hrow y hy ?_ ?_)
  · rw [← hid, hsame]
  · rw [← hstart, hsame]

end DB

theorem Presents.sweeps {a : Action} {k : Pk} (h : Presents db a k) (hdrawn : db.RefreshTokensDrawn)
    (hrevoked : ∀ t, db.tokens.row k = some t → t.revoked = true) :
    ∃ t, db.tokens.row k = some t ∧ step env db a = db.revokeChain t := by
  obtain ⟨clientId, secret, r, scope, t, ⟨pk, c⟩, rfl, ht, hr, hclient⟩ := h
  refine ⟨t, ht, ?_⟩
  have hinactive : t.isRefreshTokenActive db.now = false := by
    unfold OAuth2Token.isRefreshTokenActive
    simp [hrevoked t ht]
  have hauth : db.authenticateRefreshToken r = (db.revokeChain t, none) := by
    unfold DB.authenticateRefreshToken
    simp only [hdrawn.first ht hr, hinactive, hrevoked t ht]
    rfl
  show (db.refresh env clientId secret r scope).1 = _
  unfold DB.refresh
  rw [hclient]
  simp only [hauth]

section

variable {k₀ : Pk} {t₀ : OAuth2Token}

/-- Once all there is of a chain is revoked, nothing of it is ever unrevoked again. -/
theorem InChain.dead (hr : Reachable env db) (h₀ : db.tokens.row k₀ = some t₀) {past : List Action}
    (hpast : past ≠ [])
    (hdead : ∀ k τ, InChain env db k₀ t₀.issuedAt past k τ → ∀ x, (run env db past).tokens.row k = some x →
      x.revoked = true)
    {as : List Action} {k : Pk} {τ : Time} (h : InChain env db k₀ t₀.issuedAt as k τ) :
    ∀ later, as = past ++ later → ∀ x, (run env db as).tokens.row k = some x → x.revoked = true := by
  induction h with
  | first =>
    intro later heq
    exact absurd (List.append_eq_nil_iff.mp heq.symm).1 hpast
  | @kept as k τ a h ih =>
    intro later heq
    rcases List.eq_nil_or_concat later with rfl | ⟨later, b, rfl⟩
    · rw [List.append_nil] at heq
      subst heq
      exact hdead k τ (h.kept a)
    · rw [List.concat_eq_append, ← List.append_assoc] at heq
      obtain ⟨rfl, -⟩ := List.append_inj' heq rfl
      rw [run_append]
      intro x hx
      obtain ⟨y, hy, -, hrevoked⟩ := (step_tokensKept a).row k x hx (h.row hr h₀).1
      exact hrevoked (ih later rfl y hy)
  | @rotated as k k' τ a h hrot ih =>
    intro later heq
    rcases List.eq_nil_or_concat later with rfl | ⟨later, b, rfl⟩
    · rw [List.append_nil] at heq
      subst heq
      exact hdead k' _ (h.rotated hrot)
    · rw [List.concat_eq_append, ← List.append_assoc] at heq
      obtain ⟨rfl, -⟩ := List.append_inj' heq rfl
      -- what is revoked is not rotated
      obtain ⟨t, _, ht, hactive, -⟩ := @Rotates.rows env _ _ _ _ hrot (hr.run _).refreshTokensDrawn
      unfold OAuth2Token.isRefreshTokenActive at hactive
      simp [ih later rfl t ht] at hactive

theorem Rotates.consumed (hr : Reachable env db) {a : Action} {k k' : Pk} (h : Rotates env db a k k')
    (as : List Action) :
    ∀ t, (run env db (a :: as)).tokens.row k = some t → t.revoked = true := by
  intro t ht
  obtain ⟨y, _, hy, -, -, -, -, -, hrevoked⟩ := h.rows hr.refreshTokensDrawn
  have hlt : k < (step env db a).tokens.next := Nat.lt_of_lt_of_le (lt_next hy) (step_tokensKept a).next
  obtain ⟨x, hx, -, hstays⟩ := (run_tokensKept as (step env db a)).row k t ht hlt
  exact hstays (hrevoked x hx)

end

/-! ## What a sweep leaves alone -/

namespace DB

/-- Clients that log in under no mandate stand, with their codes, and so do the tokens of theirs. -/
structure Stands (db d : DB) : Prop where
  now : d.now = db.now
  memberships : ∀ m x, db.memberships.row m = some x → ∃ x', d.memberships.row m = some x'
  back : ∀ k c', d.clients.row k = some c' → ∃ c, db.clients.row k = some c ∧ c.Cleared c'
  clients : ∀ k c, db.clients.row k = some c → c.mandate = none → ∃ c', d.clients.row k = some c' ∧ c.Cleared c'
  codesBack : ∀ k x, d.deviceCodes.row k = some x → db.deviceCodes.row k = some x
  codes : ∀ k x c, db.deviceCodes.row k = some x → db.clients.row x.client = some c → c.mandate = none →
    d.deviceCodes.row k = some x
  tokensNext : d.tokens.next = db.tokens.next
  tokens : ∀ k t, db.tokens.row k = some t →
    (∀ j c, db.clients.row j = some c → c.mandate.isSome = true → c.clientId ≠ t.clientId) →
      d.tokens.row k = some t

theorem Stands.of_same (hnow : d.now = db.now) (hmemberships : d.memberships = db.memberships)
    (hclients : d.clients = db.clients)
    (hcodes : d.deviceCodes = db.deviceCodes) (hnext : d.tokens.next = db.tokens.next)
    (htokens : ∀ k t, db.tokens.row k = some t →
      (∀ j c, db.clients.row j = some c → c.mandate.isSome = true → c.clientId ≠ t.clientId) →
      d.tokens.row k = some t) :
    Stands db d where
  now := hnow
  memberships _ x hx := ⟨x, hmemberships ▸ hx⟩
  back _ c hc := ⟨c, hclients ▸ hc, c.node, c.scopes, rfl⟩
  clients _ c hc _ := ⟨c, hclients ▸ hc, c.node, c.scopes, rfl⟩
  codesBack _ _ hx := hcodes ▸ hx
  codes _ _ _ hx _ _ := hcodes ▸ hx
  tokensNext := hnext
  tokens := htokens

theorem Stands.refl (db : DB) : Stands db db := .of_same rfl rfl rfl rfl rfl fun _ _ ht _ => ht

theorem Client.Cleared.mandate {c c' : Client} (h : c.Cleared c') :
    c'.mandate = c.mandate ∧ c'.clientId = c.clientId := by
  obtain ⟨_, _, rfl⟩ := h
  exact ⟨rfl, rfl⟩

theorem Stands.trans {e : DB} (h : Stands db d) (k : Stands d e) : Stands db e where
  now := k.now.trans h.now
  memberships m x hx := by
    obtain ⟨x', hx'⟩ := h.memberships m x hx
    exact k.memberships m x' hx'
  back j c'' hc'' := by
    obtain ⟨c', hc', hcleared'⟩ := k.back j c'' hc''
    obtain ⟨c, hc, hcleared⟩ := h.back j c' hc'
    exact ⟨c, hc, hcleared.trans hcleared'⟩
  clients j c hc hm := by
    obtain ⟨c', hc', hcleared⟩ := h.clients j c hc hm
    obtain ⟨c'', hc'', hcleared'⟩ := k.clients j c' hc' ((Client.Cleared.mandate hcleared).1.trans hm)
    exact ⟨c'', hc'', hcleared.trans hcleared'⟩
  codesBack j x hx := h.codesBack j x (k.codesBack j x hx)
  codes j x c hx hc hm := by
    obtain ⟨c', hc', hcleared⟩ := h.clients _ c hc hm
    exact k.codes j x c' (h.codes j x c hx hc hm) hc' ((Client.Cleared.mandate hcleared).1.trans hm)
  tokensNext := k.tokensNext.trans h.tokensNext
  tokens j t ht hother := by
    refine k.tokens j t (h.tokens j t ht hother) fun i c' hc' hm => ?_
    obtain ⟨c, hc, hcleared⟩ := h.back i c' hc'
    obtain ⟨hmandate, hid⟩ := Client.Cleared.mandate hcleared
    rw [hid]
    exact hother i c hc (hmandate ▸ hm)

theorem collect_mandated {roots : List Ref} (hroots : ∀ r ∈ roots, r.model = .client
      ∧ ∀ c, db.clients.row r.pk = some c → c.mandate.isSome = true) {r : Ref} (h : r ∈ db.collect roots) :
    r.model ∈ withClients ∧ (r.model = .client → ∀ c, db.clients.row r.pk = some c → c.mandate.isSome = true)
      ∧ (r.model = .deviceCode → ∀ x c, db.deviceCodes.row r.pk = some x → db.clients.row x.client = some c →
        c.mandate.isSome = true) := by
  refine Closure.closure_induct (P := fun r : Ref => r.model ∈ withClients
    ∧ (r.model = .client → ∀ c, db.clients.row r.pk = some c → c.mandate.isSome = true)
    ∧ (r.model = .deviceCode → ∀ x c, db.deviceCodes.row r.pk = some x → db.clients.row x.client = some c →
      c.mandate.isSome = true))
    (fun r hr => ?_) (fun y _ p hp hP => ?_) h
  · obtain ⟨hmodel, hmandated⟩ := hroots r hr
    refine ⟨by simp [hmodel, withClients], fun _ => hmandated, fun hcode => ?_⟩
    rw [hmodel] at hcode
    cases hcode
  · obtain ⟨hp₀, hclient, -⟩ := hP
    refine ⟨withClients_within _ ⟨_, hangsOn_under hp, hp₀⟩, fun hy c hc => ?_, fun hy x c hx hc => ?_⟩
    · obtain ⟨model, k⟩ := y
      dsimp only at hy hc
      subst hy
      simp only [hangsOn, mem_elim] at hp
      obtain ⟨c', hc', hp⟩ := hp
      rw [hc] at hc'
      obtain rfl := Option.some.inj hc'
      simp only [Client.hangsOn, List.mem_append, mem_refOf] at hp
      rcases hp with (((⟨_, -, rfl⟩ | ⟨_, -, rfl⟩) | ⟨_, -, rfl⟩) | ⟨_, hm, rfl⟩) | ⟨_, -, rfl⟩
      · simp [withClients] at hp₀
      · simp [withClients] at hp₀
      · simp [withClients] at hp₀
      · rw [hm]
        rfl
      · simp [withClients] at hp₀
    · obtain ⟨model, k⟩ := y
      dsimp only at hy hx
      subst hy
      simp only [hangsOn, mem_elim] at hp
      obtain ⟨x', hx', hp⟩ := hp
      rw [hx] at hx'
      obtain rfl := Option.some.inj hx'
      simp only [DeviceCode.hangsOn, List.mem_cons, mem_refOf] at hp
      rcases hp with rfl | ⟨_, -, rfl⟩
      · exact hclient rfl c hc
      · simp [withClients] at hp₀

theorem delete_stands {roots : List Ref} (hroots : ∀ r ∈ roots, r.model = .client
      ∧ ∀ c, db.clients.row r.pk = some c → c.mandate.isSome = true) : Stands db
        (db.delete .client roots none) := by
  have hshrinks := delete_shrinks db .client roots none
  have hspares : ∀ {r : Ref}, r.model ∉ withClients → db.has r → (db.delete .client roots none).has r :=
    fun hr h =>
    delete_spares withClients_within (fun r hr => by simp [(hroots r hr).1, withClients]) (by simp [withClients])
      (by simp [withClients]) hr h
  have hreceiver : ∀ r ∈ db.collect roots, r.model ≠ .grant ∧ r.model ≠ .hub := by
    intro r hr
    have hmodel := (collect_mandated hroots hr).1
    constructor <;> intro heq <;> simp [heq, withClients] at hmodel
  refine ⟨hshrinks.now, fun m x hx => hspares (r := ⟨.membership, m⟩) (by simp [withClients]) ⟨x, hx⟩,
    hshrinks.clients.2,
    fun k c hc hm => ?_, fun k x hx => ?_, fun k x c hx hc hm => ?_, hshrinks.tokens.1, fun k t ht _ => ?_⟩
  · have hstays : (⟨.client, k⟩ : Ref) ∉ db.collect roots := by
      intro hmem
      have := (collect_mandated hroots hmem).2.1 rfl c hc
      simp [hm] at this
    have hrow : ∃ c', (db.delete .client roots none).clients.row k = some c' := by
      rw [delete_of_no_receiver hreceiver]
      exact ⟨_, update_row_eq_some.mpr ⟨c, keep_row_eq_some.mpr ⟨hc, by simpa [keeps] using hstays⟩, rfl⟩⟩
    obtain ⟨c', hc'⟩ := hrow
    obtain ⟨c₀, hc₀, hcleared⟩ := hshrinks.clients.2 k c' hc'
    rw [hc] at hc₀
    obtain rfl := Option.some.inj hc₀
    exact ⟨c', hc', hcleared⟩
  · obtain ⟨x₀, hx₀, rfl⟩ := hshrinks.deviceCodes.2 k x hx
    exact hx₀
  · have hstays : (⟨.deviceCode, k⟩ : Ref) ∉ db.collect roots := by
      intro hmem
      have := (collect_mandated hroots hmem).2.2 rfl x c hx hc
      simp [hm] at this
    rw [delete_of_no_receiver hreceiver]
    exact keep_row_eq_some.mpr ⟨hx, by simpa [keeps] using hstays⟩
  · obtain ⟨t', ht'⟩ := hspares (r := ⟨.token, k⟩) (by simp [withClients]) ⟨t, ht⟩
    obtain ⟨t₀, ht₀, rfl⟩ := hshrinks.tokens.2 k t' ht'
    rw [ht] at ht₀
    obtain rfl := Option.some.inj ht₀
    exact ht'

theorem revokeTokensOf_stands {clients : List Pk}
    (hclients : ∀ k ∈ clients, ∀ c, db.clients.row k = some c → c.mandate.isSome = true) :
    Stands db (db.revokeTokensOf clients) := by
  refine .of_same rfl rfl rfl rfl rfl fun k t ht hother => ?_
  refine updateWhere_row_eq_some.mpr ⟨t, ht, if_neg fun hmem => ?_⟩
  simp only [List.contains_eq_mem, List.mem_filterMap, decide_eq_true_eq] at hmem
  obtain ⟨j, hj, hid⟩ := hmem
  obtain ⟨c, hc, hid⟩ := Option.map_eq_some_iff.mp hid
  exact hother j c hc (hclients j hj c hc) hid

theorem revokeMandate_stands {mandate : Pk} {reason : MandateRevocation}
    (h : db.revokeMandate mandate reason = .ok d) : Stands db d := by
  simp only [revokeMandate, bind_ok, Table.get_ok, pure_ok] at h
  obtain ⟨_, -, rfl⟩ := h
  have hmarked : ∀ t : Table Mandate, Stands db { db with mandates := t } :=
    fun _ => .of_same rfl rfl rfl rfl rfl fun _ _ ht _ => ht
  generalize db.mandates.update _ = t
  refine (hmarked t).trans ?_
  generalize ({ db with mandates := t } : DB) = e
  unfold deleteClients
  dsimp only
  have hclients : ∀ l : List Pk,
    ∀ k ∈ e.clients.pks fun _ c => c.mandate.any l.contains, ∀ c, e.clients.row k = some c →
      c.mandate.isSome = true := by
    intro l k hk c hc
    obtain ⟨c', hc', hp⟩ := mem_pks.mp hk
    rw [hc] at hc'
    obtain rfl := Option.some.inj hc'
    obtain ⟨_, hm, -⟩ := (Option.any_eq_true _ _).mp hp
    rw [hm]
    rfl
  refine (revokeTokensOf_stands (hclients _)).trans (delete_stands fun r hr => ?_)
  obtain ⟨k, hk, rfl⟩ := List.mem_map.mp hr
  exact ⟨rfl, hclients _ k hk⟩

theorem revokeEach_stands {reason : MandateRevocation} :
    ∀ {mandates : List Pk} {db : DB}, Stands db (revokeEach reason mandates db).1
  | [], db => .refl db
  | pk :: rest, db => by
    unfold revokeEach
    split
    · rename_i d hd
      exact (revokeMandate_stands hd).trans revokeEach_stands
    · exact .refl db

theorem revokeChain_stands (t : OAuth2Token) :
    ∃ tokens, tokens.next = db.tokens.next ∧ Stands { db with tokens := tokens } (db.revokeChain t)
      ∧ ∀ k x, db.tokens.row k = some x → x.chainStartedAt ≠ t.chainStartedAt → tokens.row k = some x := by
  refine ⟨db.tokens.updateWhere
    (fun _ x => x.clientId == t.clientId && x.chainStartedAt == t.chainStartedAt && !x.revoked)
    fun x => { x with revoked := true }, rfl, revokeEach_stands, fun k x hx hstart => ?_⟩
  refine updateWhere_row_eq_some.mpr ⟨x, hx, if_neg ?_⟩
  simp [hstart]

theorem Stands.queryClient (h : Stands db d) {clientId : ClientId} {pk : Pk} {c : Client}
    (hq : db.queryClient clientId = some (pk, c)) (hm : c.mandate = none) :
    ∃ c', d.queryClient clientId = some (pk, c') ∧ c.Cleared c' := by
  have hrow : db.clients.row pk = some c := queryClient_some hq
  obtain ⟨c', hc', hcleared⟩ := h.clients pk c hrow hm
  refine ⟨c', ?_, hcleared⟩
  unfold DB.queryClient at hq ⊢
  split at hq
  · rename_i r hfirst
    obtain rfl := Option.some.inj hq
    obtain ⟨-, hid⟩ := first_eq_some hfirst
    have hfound : (d.clients.first fun _ c => c.clientId == clientId) = some (pk, c') := by
      refine first_of_least hc' ?_ fun k b hb hbid => ?_
      · rw [(Client.Cleared.mandate hcleared).2]
        exact hid
      · obtain ⟨b₀, hb₀, hcleared₀⟩ := h.back k b hb
        refine first_le hfirst hb₀ ?_
        rw [← (Client.Cleared.mandate hcleared₀).2]
        exact hbid
    rw [hfound]
  · rename_i hnone
    simp only [Option.bind_eq_bind, Option.bind_eq_some_iff, Prod.exists, Option.pure_def, Option.some.injEq,
      Prod.mk.injEq] at hq
    obtain ⟨k, x, hfirst, y, hy, rfl, rfl⟩ := hq
    obtain ⟨hx, hpolling⟩ := first_eq_some hfirst
    have hnone' : (d.clients.first fun _ c => c.clientId == clientId) = none := by
      refine first_eq_none.mpr fun j b hb => ?_
      obtain ⟨b₀, hb₀, hcleared₀⟩ := h.back j b hb
      rw [(Client.Cleared.mandate hcleared₀).2]
      exact first_eq_none.mp hnone j b₀ hb₀
    have hcode : (d.deviceCodes.first fun _ c => c.pollingClientId == some clientId) = some (k, x) := by
      refine first_of_least (h.codes k x y hx hy hm) hpolling fun j b hb hbp => ?_
      exact first_le hfirst (h.codesBack j b hb) hbp
    rw [hnone', hcode]
    simp [hc']

/-- Who logs in under a mandate logs in with its key. -/
def MandatedKeyed (db : DB) : Prop :=
  ∀ k c, db.clients.row k = some c → c.mandate.isSome = true → c.binding.keyed = true

theorem MandatedKeyed.write {l : Label} (h : db.MandatedKeyed) (hw : Write db l d) : d.MandatedKeyed := by
  have hshrink : Table.Shrinks (fun c c' : Client => c'.binding = c.binding) db.clients d.clients →
    d.MandatedKeyed := by
    intro hs k c' hc' hm
    obtain ⟨c, hc, hbinding⟩ := hs.2 k c' hc'
    have hmandate : c'.mandate = c.mandate := congrArg Binding.mandate hbinding
    rw [hbinding]
    exact h k c hc (hmandate ▸ hm)
  have hnew : ∀ c, c.Unbound → ∀ k c', (db.clients.insert c).row k = some c' → c'.mandate.isSome = true →
    c'.binding.keyed = true := by
    intro c hunbound k c' hc' hm
    rcases insert_row_eq_some.mp hc' with ⟨-, rfl⟩ | hc'
    · rw [hunbound.2.2.2.2] at hm
      cases hm
    · exact h k c' hc' hm
  cases hw with
  | newClient c _ hunbound => exact hnew c hunbound
  | newRelyingParty c _ _ hunbound => exact hnew c hunbound
  | clients ht hn => exact hshrink (Write.clients_shrink (.clients ht hn) trivial)
  | delete origin roots upgrading =>
    exact hshrink (Write.clients_shrink (l := .delete origin roots upgrading) (.delete _ _ _) trivial)
  | bindApp hc hid hgrants hmandate =>
    intro k c' hc' hm
    rw [put_row] at hc'
    split at hc'
    · cases hc'
      rcases hmandate with hmandate | hmandate
      · rw [hmandate] at hm
        cases hm
      · unfold Binding.keyed
        rw [hgrants]
        exact h _ _ hc (hmandate ▸ hm)
    · exact h k c' hc' hm
  | bindKeyed hc hid hgrants _ _ _ _ _ hbefore =>
    intro k c' hc' hm
    rw [put_row] at hc'
    split at hc'
    · cases hc'
      unfold Binding.keyed
      rw [hgrants]
      rcases hbefore with ⟨-, hkeyed⟩ | ⟨old, _, hold, -⟩
      · exact hkeyed
      · exact h _ _ hc (by rw [hold]; rfl)
    · exact h k c' hc' hm
  | renameRole hr =>
    obtain ⟨_, _, -, rfl, -⟩ := renameRole_ok hr
    exact h
  | _ => exact h

theorem MandatedKeyed.refreshes (h : db.MandatedKeyed) {k : Pk} {c : Client} (hc : db.clients.row k = some c)
    (hgrant : c.checkGrantType .refreshToken = true) : c.mandate = none := by
  cases hm : c.mandate with
  | none => rfl
  | some m =>
    have hkeyed := h k c hc (by rw [hm]; rfl)
    unfold Client.checkGrantType at hgrant
    unfold Binding.keyed Client.binding at hkeyed
    split at hkeyed
    · have hgrants : c.grantTypes = [.mandateKey] := by simpa using hkeyed
      rw [hgrants] at hgrant
      simp at hgrant
    · simp at hkeyed

theorem ClientLaws.mandated_id (h : db.ClientLaws) {j k : Pk} {b c : Client} (hb : db.clients.row j = some b)
    (hbm : b.mandate.isSome = true) (hc : db.clients.row k = some c) (hcm : c.mandate = none) :
    b.clientId ≠ c.clientId := by
  intro heq
  obtain ⟨M, hM⟩ := Option.isSome_iff_exists.mp hbm
  obtain ⟨x, -, hm, -⟩ := (h.lawful j b hb).mandated M hM
  have hminted : b.clientId.minted = true := ((h.lawful j b hb).bound _ hm).1
  cases hid : b.clientId with
  | named name =>
    rw [hid] at hminted
    cases hminted
  | uuid n =>
    have hcid : c.clientId = .uuid n := heq ▸ hid
    obtain rfl := h.drawn.unique j k b c n hb hc (by simp [hid, ClientId.number]) (by simp [hcid, ClientId.number])
    rw [hb] at hc
    obtain rfl := Option.some.inj hc
    rw [hcm] at hbm
    cases hbm

end DB

theorem Reachable.mandatedKeyed (h : Reachable env db) : db.MandatedKeyed :=
  h.invariant (fun h hw => h.write hw) (by simp [DB.MandatedKeyed, DB.empty])

/-- Where a token with another start was refreshed before a sweep, it is refreshed after it. -/
theorem Rotates.after_sweep (hr : Reachable env db) {t x : OAuth2Token}
    (hdrawn : (db.revokeChain t).RefreshTokensDrawn)
    {a : Action} {k k' : Pk} (h : Rotates env db a k k') (hx : db.tokens.row k = some x)
    (hstart : x.chainStartedAt ≠ t.chainStartedAt) : ∃ k'', Rotates env (db.revokeChain t) a k k'' := by
  obtain ⟨clientId, secret, r, scope, x', d, response, rfl, hx', hrefresh, hok, rfl⟩ := h
  rw [hx] at hx'
  obtain rfl := Option.some.inj hx'
  obtain ⟨pk, c, tokenPk, x', hclient, hrow, htoken, hactive, hid, hrotate⟩ :=
    DB.refresh_ok (r := (d, response)) hok
  obtain rfl : k = tokenPk := hr.refreshTokensDrawn.unique k tokenPk x x' r hx hrow hrefresh htoken
  rw [hx] at hrow
  obtain rfl := Option.some.inj hrow
  obtain ⟨hc, hgrant⟩ := DB.clientFor_ok hclient
  have hunmandated := hr.mandatedKeyed.refreshes hc hgrant
  obtain ⟨tokens, -, hstands, hkept⟩ := db.revokeChain_stands t
  -- the client, and what it presents, is as it was
  simp only [DB.clientFor, DB.authenticateClient, bind_ok, found_ok, require_ok, exists_unit, pure_ok, Prod.exists,
    Prod.mk.injEq] at hclient
  obtain ⟨_, _, ⟨pk', c', hquery, hsecret, rfl, rfl⟩, -, rfl, rfl⟩ := hclient
  obtain ⟨c', hquery', hcleared⟩ := hstands.queryClient (c := c') hquery hunmandated
  have hclient' : (db.revokeChain t).clientFor clientId secret .refreshToken = .ok (pk', c') := by
    obtain ⟨_, _, rfl⟩ := hcleared
    simp only [DB.clientFor, DB.authenticateClient, bind_ok, found_ok, require_ok,
      exists_unit, pure_ok, Prod.exists,
      Prod.mk.injEq]
    exact ⟨_, _, ⟨_, _, hquery', hsecret, rfl, rfl⟩, hgrant, rfl, rfl⟩
  have hid' : x.clientId = c'.clientId := hid.trans (DB.Client.Cleared.mandate hcleared).2.symm
  have hxd : (db.revokeChain t).tokens.row k = some x := by
    refine hstands.tokens k x (hkept k x hx hstart) fun j b hb hbm => ?_
    rw [hid]
    exact hr.clientLaws.mandated_id hb hbm hc hunmandated
  have hauth : (db.revokeChain t).authenticateRefreshToken r = (db.revokeChain t, some (k, x)) := by
    unfold DB.authenticateRefreshToken
    have hnow : (db.revokeChain t).now = db.now := hstands.now
    simp [hdrawn.first hxd hrefresh, hnow, hactive]
  obtain ⟨s, n, asked, hasked, hsaved, -⟩ := DB.rotate_ok hrotate
  obtain ⟨m, hm, -⟩ := hsaved.claims
  obtain ⟨m', hm'⟩ := hstands.memberships _ m hm
  have hrotate' : ∃ s, (db.revokeChain t).rotate env pk' c' k x scope = .ok s := by
    unfold DB.rotate DB.issueToken
    simp only [hasked, Table.get, hm']
    exact ⟨_, rfl⟩
  obtain ⟨s', hs'⟩ := hrotate'
  have hok' : (db.revokeChain t).refresh env clientId secret r scope = (s'.1, .ok s'.2) := by
    unfold DB.refresh
    simp only [hclient', hauth, hid', beq_self_eq_true, if_true, hs']
    rfl
  exact ⟨_, clientId, secret, r, scope, x, s'.1, s'.2, rfl, hxd, hrefresh, hok', rfl⟩

/-! ## Chains end -/

/-- A chain keeps the start of its first token and is refreshed within its lifetime, and each token within
its own. Once a token that was rotated is presented again nothing of the chain is refreshed any more, and
other chains still are. -/
theorem refresh_chains_end (hr : Reachable env db) {a₀ : Action} {k₀ : Pk} (hissue : Issues env db a₀ k₀) :
    ∃ t₀, (step env db a₀).tokens.row k₀ = some t₀ ∧ (t₀.refreshToken.isSome = true → t₀.issuedAt = db.now)
      ∧ (∀ as k τ, InChain env (step env db a₀) k₀ t₀.issuedAt as k τ →
        (∀ t, (run env (step env db a₀) as).tokens.row k = some t → t.chainStartedAt = t₀.issuedAt)
          ∧ ∀ a k', Rotates env (run env (step env db a₀) as) a k k' →
            (run env (step env db a₀) as).now ≤ t₀.issuedAt + refreshChainMaxLifetime
              ∧ (run env (step env db a₀) as).now ≤ τ + refreshTokenLifetime)
      ∧ ∀ as k τ a k' bs p, InChain env (step env db a₀) k₀ t₀.issuedAt as k τ →
      Rotates env (run env (step env db a₀) as) a k k' →
        Presents (run env (step env db a₀) (as ++ a :: bs)) p k →
        (∀ cs j σ b j', InChain env (step env db a₀) k₀ t₀.issuedAt ((as ++ a :: bs) ++ [p] ++ cs) j σ →
          ¬ Rotates env (run env (step env db a₀) ((as ++ a :: bs) ++ [p] ++ cs)) b j j')
          ∧ ∀ j t b j', (run env (step env db a₀) (as ++ a :: bs)).tokens.row j = some t →
          t.chainStartedAt ≠ t₀.issuedAt →
            Rotates env (run env (step env db a₀) (as ++ a :: bs)) b j j' →
            ∃ j'', Rotates env (run env (step env db a₀) ((as ++ a :: bs) ++ [p])) b j j'' := by
  obtain ⟨t₀, h₀, hstart, hnow⟩ := hissue.row
  have hr₀ : Reachable env (step env db a₀) := hr.run [a₀]
  refine ⟨t₀, h₀, hnow, fun as k τ h => ⟨fun t ht => ?_, fun a k' hrot => ?_⟩,
    fun as k τ a k' bs p h hrot hpresents => ?_⟩
  · exact ((h.row hr₀ h₀).2 t ht).2.1.trans hstart
  · rw [← hstart]
    exact h.within hr₀ h₀ hrot
  · have hconsumed : ∀ t, (run env (step env db a₀) (as ++ a :: bs)).tokens.row k = some t → t.revoked = true := by
      rw [run_append]
      exact hrot.consumed (hr₀.run as) bs
    have hpast := hr₀.run (as ++ a :: bs)
    obtain ⟨t, ht, hsweep⟩ := hpresents.sweeps hpast.refreshTokensDrawn hconsumed
    have hswept : run env (step env db a₀) ((as ++ a :: bs) ++ [p])
        = (run env (step env db a₀) (as ++ a :: bs)).revokeChain t := by
      rw [run_append]
      exact hsweep
    obtain ⟨hid, htstart, -⟩ := (InChain.row hr₀ h₀ (h.keeps (a :: bs))).2 t ht
    refine ⟨fun cs j σ b j' hj hdead => ?_, fun j x b j' hx hother hb => ?_⟩
    · obtain ⟨y, _, hy, hactive, -⟩ := @Rotates.rows env _ _ _ _ hdead (hr₀.run _).refreshTokensDrawn
      have hrevoked : y.revoked = true := by
        refine hj.dead hr₀ h₀ (by simp) (fun i ρ hi x hx => ?_) cs rfl y hy
        obtain ⟨-, hrow⟩ := hi.row hr₀ h₀
        obtain ⟨hxid, hxstart, -⟩ := hrow x hx
        rw [hswept] at hx
        obtain ⟨tokens, hnext, hstands, -⟩ := (run env (step env db a₀) (as ++ a :: bs)).revokeChain_stands t
        have hlt := hstands.tokensNext.trans hnext ▸ lt_next hx
        exact DB.revokeChain_revokes hx hlt (hxid.trans hid.symm) (hxstart.trans htstart.symm)
      unfold OAuth2Token.isRefreshTokenActive at hactive
      simp [hrevoked] at hactive
    · have hdrawn := (hr₀.run ((as ++ a :: bs) ++ [p])).refreshTokensDrawn
      rw [hswept] at hdrawn ⊢
      exact hb.after_sweep hpast hdrawn hx (by rw [htstart, hstart]; exact hother)

/-- A refresh of the app that Ann approved. -/
def refreshWith (token : Nat) : Action := .requestToken (.refreshToken (.uuid 0) none token [])

/-- The app polls, its token is rotated and then presented again: the next one is not rotated any more. -/
theorem refresh_chains_end_replayed :
    ¬ Rotates plainEnv (run plainEnv
        (step plainEnv (run plainEnv .empty (plainSetup [])) (.requestToken (.deviceCode (.uuid 0) 2)))
      [refreshWith 4, refreshWith 4]) (refreshWith 6) 1 2 := by
  have hdb := reachable_run plainEnv (plainSetup [])
  have hpoll : ((run plainEnv .empty (plainSetup [])).createTokenResponse plainEnv
      (.deviceCode (.uuid 0) 2)).2.toOption.any
      (·.token == 0) = true := by decide +kernel
  have htoken : ((step plainEnv (run plainEnv .empty (plainSetup []))
      (.requestToken (.deviceCode (.uuid 0) 2))).tokens.row 0).any
      (·.refreshToken == some 4) = true := by decide +kernel
  have hrefresh : ((step plainEnv (run plainEnv .empty (plainSetup []))
      (.requestToken (.deviceCode (.uuid 0) 2))).refresh
      plainEnv (.uuid 0) none 4 []).2.toOption.any (·.token == 1) = true := by decide +kernel
  have hagain : ((step plainEnv
      (step plainEnv (run plainEnv .empty (plainSetup [])) (.requestToken (.deviceCode (.uuid 0) 2)))
      (refreshWith 4)).tokens.row 0).any (·.refreshToken == some 4) = true := by decide +kernel
  have hclient : ((step plainEnv
      (step plainEnv (run plainEnv .empty (plainSetup [])) (.requestToken (.deviceCode (.uuid 0) 2)))
      (refreshWith 4)).clientFor (.uuid 0) none .refreshToken).isOk = true := by decide +kernel
  generalize run plainEnv .empty (plainSetup []) = db at hdb hpoll htoken hrefresh hagain hclient ⊢
  obtain ⟨response, hresponse, hzero⟩ := exists_ok_and hpoll
  have hissue : Issues plainEnv db (.requestToken (.deviceCode (.uuid 0) 2)) 0 :=
    ⟨.deviceCode (.uuid 0) 2, (db.createTokenResponse plainEnv (.deviceCode (.uuid 0) 2)).1, response, rfl, by simp,
      Prod.ext rfl hresponse, by simpa using hzero⟩
  obtain ⟨t₀, -, -, -, hall⟩ := refresh_chains_end hdb hissue
  generalize step plainEnv db (.requestToken (.deviceCode (.uuid 0) 2)) = d
    at htoken hrefresh hagain hclient hall ⊢
  obtain ⟨t, ht, hr⟩ := (Option.any_eq_true _ _).mp htoken
  obtain ⟨response', hresponse', hone⟩ := exists_ok_and hrefresh
  have hrot : Rotates plainEnv (run plainEnv d []) (refreshWith 4) 0 1 :=
    ⟨.uuid 0, none, 4, [], t, (d.refresh plainEnv (.uuid 0) none 4 []).1, response', rfl, ht, by simpa using hr,
      Prod.ext rfl hresponse', by simpa using hone⟩
  obtain ⟨t', ht', hr'⟩ := (Option.any_eq_true _ _).mp hagain
  obtain ⟨client, hclient⟩ := exists_ok hclient
  have hpresents : Presents (run plainEnv d ([] ++ refreshWith 4 :: [])) (refreshWith 4) 0 :=
    ⟨.uuid 0, none, 4, [], t', client, rfl, ht', by simpa using hr', hclient⟩
  have hfirst : InChain plainEnv d 0 t₀.issuedAt [] 0 t₀.issuedAt := .first
  have hchain : InChain plainEnv d 0 t₀.issuedAt ([] ++ [refreshWith 4]) 1 _ := hfirst.rotated hrot
  exact (hall [] 0 _ _ 1 [] _ hfirst hrot hpresents).1 [] 1 _ _ 2 (hchain.keeps [refreshWith 4])

end Lok
