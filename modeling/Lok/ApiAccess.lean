import Lok.Assents
import Lok.RefreshChains
import Lok.SidecarReaps

/-!
# Access tokens at lok's own API

lok accepts the tokens it signs, at its GraphQL API and at the endpoints a hub calls. It
reads whom a request acts for from the claims and looks the rows up anew. A token may be
used long after it was issued: by then its client, its membership or its user may be gone
or back again. Who is found is still whom the token was issued for, and the client the one
that asked for it.
-/

namespace Lok

open Table Runs Checks

/-! ## Tokens -/

/-- What lok signs: the claims that its own API reads. -/
structure AccessToken where
  iss : String
  exp : Time
  clientId : ClientId
  sub : Pk
  org : Pk
  aud : Audience
  deriving DecidableEq, Repr

/-- The token that is signed with the claims of a response, whose row is `t`. -/
def accessToken (issuer : String) (t : OAuth2Token) (claims : Claims) : AccessToken :=
  ⟨issuer, t.issuedAt + t.expiresIn, t.clientId, claims.user, claims.org, claims.aud⟩

/-- `"lok" in aud`; an id that was drawn is no such word. -/
def Audience.holdsLok : Audience → Bool
  | .services names => names.contains "lok"
  | .client (.named name) => name == "lok"
  | .client (.uuid _) => false

def assertAddressedToLok (issuer : String) (t : AccessToken) : Except String Unit := do
  require (t.iss == issuer) "Token was not issued by this server"
  require t.aud.holdsLok "Token is not addressed to lok"

/-- Whom a request at the GraphQL API acts as. -/
structure ApiContext where
  user : Pk
  client : Pk
  organization : Pk
  membership : Pk
  deriving DecidableEq, Repr

namespace DB

variable (db : DB)

/-- `aget(..)`: the one row that satisfies `p`. -/
def theOne {α : Type} (t : Table α) (p : Nat → α → Bool) (name : String) : Except String Pk :=
  match t.filter p with
  | [r] => .ok r.1
  | [] => .error s!"{name} matching query does not exist."
  | _ => .error s!"get() returned more than one {name}"

/-- `aexpand_token_context`. -/
def expandTokenContext (issuer : String) (t : AccessToken) : Except String ApiContext := do
  assertAddressedToLok issuer t
  let _ ← found (db.organizations.row t.org) "Token names an organization that does not exist"
  let _ ← found (db.users.row t.sub) "User matching query does not exist."
  let client ← theOne db.clients (fun _ c => c.clientId == t.clientId) "Client"
  let membership ← theOne db.memberships (fun _ m => m.user == t.sub && m.organization == t.org) "Membership"
  return ⟨t.sub, client, t.org, membership⟩

/-- `decode_bearer_token`, of a token that lok signed. -/
def decodeBearerToken (issuer : String) (t : AccessToken) : Except String Unit := do
  require (db.now ≤ t.exp) "Token expired"
  assertAddressedToLok issuer t

/-- The hub whose identity has a client id. -/
def hubOfIdentity (clientId : ClientId) : Option (Pk × Hub) :=
  db.hubs.first fun _ h => (h.client.bind db.clients.row).any (·.clientId == clientId)

/-- `HubDeleteView.post`: a hub removes itself. -/
def deleteHub (issuer : String) (t : AccessToken) : Except String DB := do
  db.decodeBearerToken issuer t
  let (hub, _) ← found (db.hubOfIdentity t.clientId) "No hub found for this token"
  match db.deleteRows .hub [hub] with
  | .ok d => return d
  | .error _ => .error "Error deleting hub"

end DB

/-! ## What the API looks up -/

namespace DB

variable {db d e : DB} {env : Env} {l : Label}

theorem theOne_ok {α : Type} {t : Table α} {p : Nat → α → Bool} {name : String} {k : Pk}
    (h : theOne t p name = .ok k) :
    ∃ a, t.row k = some a ∧ p k a = true := by
  unfold theOne at h
  split at h
  · rename_i r hr
    cases h
    exact ⟨r.2, Table.mem_filter.mp (by rw [hr]; simp)⟩
  · cases h
  · cases h

theorem expandTokenContext_ok {issuer : String} {t : AccessToken} {x : ApiContext}
    (h : db.expandTokenContext issuer t = .ok x) :
    t.iss = issuer ∧ t.aud.holdsLok = true ∧ x.user = t.sub ∧ x.organization = t.org
      ∧ (∃ c, db.clients.row x.client = some c ∧ c.clientId = t.clientId)
      ∧ ∃ m, db.memberships.row x.membership = some m ∧ m.user = t.sub ∧ m.organization = t.org := by
  simp only [expandTokenContext, assertAddressedToLok, bind_ok, found_ok, require_ok, exists_unit, pure_ok] at h
  obtain ⟨⟨hiss, haud⟩, _, -, _, -, client, hclient, membership, hmembership, rfl⟩ := h
  obtain ⟨c, hc, hid⟩ := theOne_ok hclient
  obtain ⟨m, hm, hmine⟩ := theOne_ok hmembership
  simp only [Bool.and_eq_true, beq_iff_eq] at hmine hid
  exact ⟨by simpa using hiss, haud, rfl, rfl, ⟨c, hc, hid⟩, m, hm, hmine⟩

theorem deleteHub_ok {issuer : String} {t : AccessToken} (h : db.deleteHub issuer t = .ok d) :
    db.now ≤ t.exp ∧ t.aud.holdsLok = true ∧ ∃ hub x client c, db.hubs.row hub = some x ∧ x.client = some client
      ∧ db.clients.row client = some c ∧ c.clientId = t.clientId ∧ db.deleteRows .hub [hub] = .ok d := by
  simp only [deleteHub, decodeBearerToken, assertAddressedToLok, bind_ok, found_ok, require_ok, exists_unit,
    Prod.exists] at h
  obtain ⟨⟨hexp, -, haud⟩, hub, x, hfirst, h⟩ := h
  obtain ⟨hx, hp⟩ := first_eq_some hfirst
  simp only [Option.any_eq_true, Option.bind_eq_some_iff, beq_iff_eq] at hp
  obtain ⟨c, ⟨client, hclient, hc⟩, hid⟩ := hp
  split at h
  · rename_i d' hd
    cases h
    exact ⟨by simpa using hexp, haud, hub, x, client, c, hx, hclient, hc, hid, hd⟩
  · cases h

/-! ## What happens to the row of a client -/

/-- Whoever has an id that was drawn by then had it then, under the same row. -/
structure ClientsKept (db d : DB) : Prop where
  draws : db.draws ≤ d.draws
  row : ∀ k c' n, d.clients.row k = some c' → c'.clientId = .uuid n → n < db.draws →
    ∃ c, db.clients.row k = some c ∧ c.clientId = .uuid n

theorem ClientsKept.same (hdraws : db.draws ≤ d.draws) (hclients : d.clients = db.clients) : ClientsKept db d :=
  ⟨hdraws, fun _ c _ hc hid _ => ⟨c, hclients ▸ hc, hid⟩⟩

theorem ClientsKept.refl (db : DB) : ClientsKept db db := .same (Nat.le_refl _) rfl

theorem ClientsKept.trans (h : ClientsKept db d) (k : ClientsKept d e) : ClientsKept db e := by
  refine ⟨Nat.le_trans h.draws k.draws, fun pk c'' n hc'' hid hn => ?_⟩
  obtain ⟨c', hc', hid'⟩ := k.row pk c'' n hc'' hid (Nat.lt_of_lt_of_le hn h.draws)
  exact h.row pk c' n hc' hid' hn

theorem ClientsKept.put {pk : Pk} {c c' : Client} (hc : db.clients.row pk = some c)
    (hid : c'.clientId = c.clientId) :
    ClientsKept db { db with clients := db.clients.put pk c' } := by
  refine ⟨Nat.le_refl _, fun k x n hx hxid _ => ?_⟩
  by_cases hk : k = pk
  · subst hk
    rw [put_row, if_pos rfl] at hx
    cases hx
    exact ⟨c, hc, hid ▸ hxid⟩
  · rw [put_row, if_neg hk] at hx
    exact ⟨x, hx, hxid⟩

theorem ClientsKept.insert {c : Client} {m : Nat} (hm : db.draws ≤ m)
    (hnew : ∀ n, c.clientId = .uuid n → db.draws ≤ n) :
    ClientsKept db { db with draws := m, clients := db.clients.insert c } := by
  refine ⟨hm, fun k x n hx hxid hn => ?_⟩
  rcases insert_row_eq_some.mp hx with ⟨-, rfl⟩ | hx
  · have hle := hnew n hxid
    omega
  · exact ⟨x, hx, hxid⟩

theorem ClientsKept.write (hw : Write db l d) : ClientsKept db d := by
  cases hw with
  | newClient c hid =>
    refine .insert (Nat.le_succ _) fun n hn => ?_
    rw [hid] at hn
    cases hn
    exact Nat.le_refl _
  | newRelyingParty c name hid =>
    refine .insert (Nat.le_refl _) fun n hn => ?_
    rw [hid] at hn
    cases hn
  | clients ht =>
    refine ⟨Nat.le_refl _, fun k c' n hc' hid _ => ?_⟩
    obtain ⟨c, hc, hb⟩ := ht.before hc'
    exact ⟨c, hc, (congrArg Binding.clientId hb).symm.trans hid⟩
  | bindApp hc hid => exact .put hc hid
  | bindKeyed hc hid => exact .put hc hid
  | delete origin roots upgrading =>
    have hshrinks := delete_shrinks db origin roots upgrading
    refine ⟨Nat.le_of_eq hshrinks.draws.symm, fun k c' n hc' hid _ => ?_⟩
    obtain ⟨c, hc, hcleared⟩ := hshrinks.clients.2 k c' hc'
    exact ⟨c, hc, (congrArg Binding.clientId (Cleared.binding hcleared)).symm.trans hid⟩
  | renameRole hd =>
    obtain ⟨_, _, -, rfl, -⟩ := renameRole_ok hd
    exact .same (Nat.le_refl _) rfl
  | stage | stageMesh | mint => exact .same (Nat.le_add_right _ _) rfl
  | authorize => exact .same (Nat.le_succ _) rfl
  | _ => exact .same (Nat.le_refl _) rfl

/-- No user is twice in an organization. -/
def MembersApart (db : DB) : Prop := ∀ j k m n, db.memberships.row j = some m → db.memberships.row k = some n →
  m.user = n.user → m.organization = n.organization → j = k

theorem MembersApart.write (h : db.MembersApart) (hw : Write db l d) : d.MembersApart := by
  by_cases hnext : d.memberships.next = db.memberships.next
  · -- nobody joined
    have hkept : MembersKept db d := .write hw
    intro j k m' n' hm' hn' huser horg
    have hback : ∀ k x, d.memberships.row k = some x → k < db.memberships.next := fun k x hx => hnext ▸ lt_next hx
    obtain ⟨m, hm, hmu, hmo⟩ := hkept.row j m' hm' (hback j m' hm')
    obtain ⟨n, hn, hnu, hno⟩ := hkept.row k n' hn' (hback k n' hn')
    exact h j k m n hm hn (by rw [← hmu, ← hnu, huser]) (by rw [← hmo, ← hno, horg])
  · cases hw with
    | newMembership x _ _ hnew =>
      intro j k m n hm hn huser horg
      rcases insert_row_eq_some.mp hm with ⟨rfl, rfl⟩ | hm <;> rcases insert_row_eq_some.mp hn with ⟨rfl, rfl⟩ | hn
      · rfl
      · exact absurd horg.symm (hnew k n hn huser.symm)
      · exact absurd horg (hnew j m hm huser)
      · exact h j k m n hm hn huser horg
    | memberships ht => exact absurd ht.1 hnext
    | renameRole hd =>
      obtain ⟨_, _, -, rfl, -⟩ := renameRole_ok hd
      exact absurd rfl hnext
    | delete origin roots upgrading => exact absurd (delete_shrinks db origin roots upgrading).memberships.1 hnext
    | _ => exact absurd rfl hnext

/-! ## Relying parties -/

/-- A client that the config names is no app. -/
def NamedBare (db : DB) : Prop :=
  ∀ k c name, db.clients.row k = some c → c.clientId = .named name → c.release = none

theorem NamedBare.insert (h : db.NamedBare) {c : Client} (hunbound : c.Unbound) {n : Nat} :
    ({ db with draws := n, clients := db.clients.insert c } : DB).NamedBare := by
  intro k x name hx hid
  rcases insert_row_eq_some.mp hx with ⟨-, rfl⟩ | hx
  · exact hunbound.2.2.1
  · exact h k x name hx hid

theorem NamedBare.put (h : db.NamedBare) {pk : Pk} {c c' : Client} (hid : c'.clientId = c.clientId)
    (hminted : c.clientId.minted = true) : ({ db with clients := db.clients.put pk c' } : DB).NamedBare := by
  intro k x name hx hxid
  by_cases hk : k = pk
  · subst hk
    rw [put_row, if_pos rfl] at hx
    cases hx
    rw [← hid, hxid] at hminted
    cases hminted
  · rw [put_row, if_neg hk] at hx
    exact h k x name hx hxid

theorem NamedBare.shrink (h : db.NamedBare)
    (hs : Table.Shrinks (fun c c' : Client => c'.binding = c.binding) db.clients d.clients) : d.NamedBare := by
  intro k c' name hc' hid
  obtain ⟨c, hc, hb⟩ := hs.2 k c' hc'
  have hrelease : c'.release = c.release := congrArg Binding.release hb
  rw [hrelease]
  exact h k c name hc ((congrArg Binding.clientId hb).symm.trans hid)

theorem NamedBare.write (h : db.NamedBare) (hlaws : db.ClientLaws) (hw : Write db l d) (hl : l.binds) :
    d.NamedBare := by
  cases hw with
  | newClient c hid hunbound => exact h.insert hunbound
  | newRelyingParty c name hid hunbound => exact h.insert hunbound
  | clients ht => exact h.shrink ⟨ht.1, fun k c' hc' => ht.before hc'⟩
  | @bindApp pk c c' m o hc hid =>
    refine h.put hid ?_
    obtain ⟨-, hsame | hplain⟩ := hl _ _ rfl
    · exact ((hlaws.lawful pk c hc).bound m hsame).1
    · exact hplain.minted
  | @bindKeyed pk c c' M x hc hid _ _ _ _ _ _ hbefore =>
    refine h.put hid ?_
    obtain ⟨-, hkeyed⟩ | ⟨old, o, hold, -⟩ := hbefore
    · exact Client.minted_of_keyed hkeyed
    · obtain ⟨_, -, hbound, -⟩ := (hlaws.lawful pk c hc).mandated old hold
      exact ((hlaws.lawful pk c hc).bound _ hbound).1
  | delete origin roots upgrading =>
    have hshrinks := (delete_shrinks db origin roots upgrading).clients
    refine h.shrink ⟨hshrinks.1, fun k c' hc' => ?_⟩
    obtain ⟨c, hc, hcleared⟩ := hshrinks.2 k c' hc'
    exact ⟨c, hc, Cleared.binding hcleared⟩
  | renameRole hd =>
    obtain ⟨_, _, -, rfl, -⟩ := renameRole_ok hd
    exact h
  | _ => exact h

end DB

section

variable {env : Env} {db d : DB}

theorem step_namedBare (a : Action) (hlaws : db.ClientLaws) (h : db.NamedBare) : (step env db a).NamedBare := by
  cases ha : a.deletes with
  | true => exact step_deletes ha h fun _ _ => h.write hlaws (.delete _ _ _) (by intro _ _ heq; cases heq)
  | false =>
    have hboth : (step env db a).ClientLaws ∧ (step env db a).NamedBare :=
      (step_writes env db ha).invariant (I := fun d => d.ClientLaws ∧ d.NamedBare)
        (fun hI hw hl => ⟨hI.1.write hw (licence_binds hlaws a hl), hI.2.write hI.1 hw (licence_binds hlaws a hl)⟩)
          ⟨hlaws, h⟩
    exact hboth.2

theorem Reachable.namedBare (h : Reachable env db) : db.NamedBare := by
  obtain ⟨as, hrun⟩ := h
  have hboth : db.ClientLaws ∧ db.NamedBare := hrun.invariant (P := fun d : DB => d.ClientLaws ∧ d.NamedBare)
    (fun {s a t} hs hst => by rw [hst]; exact ⟨step_clientLaws a hs.1, step_namedBare a hs.1 hs.2⟩)
    ⟨.empty, by simp [DB.NamedBare, DB.empty]⟩
  exact hboth.2

theorem Reachable.membersApart (h : Reachable env db) : db.MembersApart :=
  h.invariant (fun h hw => h.write hw) (by simp [DB.MembersApart, DB.empty])

theorem run_clientsKept (env : Env) (as : List Action) (db : DB) : DB.ClientsKept db (run env db as) :=
  run_relates DB.ClientsKept.refl (fun h k => h.trans k) (fun hw => .write hw) env as db

theorem run_membersKept (env : Env) (as : List Action) (db : DB) : DB.MembersKept db (run env db as) :=
  run_relates DB.MembersKept.refl (fun h k => h.trans k) (fun hw => .write hw) env as db

/-- A client that the config names is told it is the audience itself. -/
theorem Reachable.named_audience (h : Reachable env db) {k : Pk} {c : Client} (hc : db.clients.row k = some c)
    (hnamed : c.clientId.minted = false) : db.audiences k c = .client c.clientId := by
  cases hid : c.clientId with
  | uuid n => simp [hid, ClientId.minted] at hnamed
  | named name =>
    have hrelease : c.release = none := h.namedBare k c name hc hid
    have hidentity : db.hubIdentity k = none := by
      unfold DB.hubIdentity
      cases hfirst : db.hubs.first fun _ x => x.client == some k with
      | none => rfl
      | some r =>
        obtain ⟨hx, hk⟩ := first_eq_some hfirst
        obtain ⟨c', m, hc', hm⟩ := h.identities.bound r.1 r.2 k hx (by simpa using hk)
        rw [hc] at hc'
        obtain rfl := Option.some.inj hc'
        have hminted := ((h.clientLaws.lawful k c hc).bound m hm).1
        rw [show c.binding.clientId = c.clientId from rfl, hid] at hminted
        cases hminted
    simp [DB.audiences, hrelease, hidentity, hid]

end

/-! ## What a token says -/

/-- The state a token was issued in, its client and its subject there, and the row that was saved. -/
structure AnsweredAs (d : DB) (response : TokenResponse) (e : DB) (c : Client) (g : Membership) (t : OAuth2Token) :
    Prop where
  client : e.clients.row response.client = some c
  claims : ∃ scope, response.claims = e.extraClaims response.client c response.claims.membership g scope
  member : e.memberships.row response.claims.membership = some g
  still : ∃ c', d.clients.row response.client = some c' ∧ c'.clientId = c.clientId
  token : d.tokens.row response.token = some t
  named : t.clientId = c.clientId

section

variable {env : Env} {db d : DB} {issuer : String}

theorem answeredAs (hdb : Reachable env db) {request : TokenRequest} {response : TokenResponse}
    (h : db.createTokenResponse env request = (d, .ok response)) :
    ∃ e c g t, Reachable env e ∧ DB.MembersKept e d ∧ AnsweredAs d response e c g t := by
  have hkept : DB.MembersKept db d := by
    have hstep : d = step env db (.requestToken request) := by simp [step, h]
    rw [hstep]
    exact step_relates DB.MembersKept.refl (fun h k => h.trans k) (fun hw => .write hw) env db _
  cases request with
  | deviceCode clientId secret =>
    obtain ⟨pk, c, codePk, code, k, m, x, t, hclient, -, -, -, -, -, -, -, hsaved, hr⟩ :=
      DB.pollDeviceCode_ok (r := (d, response)) h
    obtain ⟨rfl, rfl⟩ := Prod.mk.inj hr
    obtain ⟨g, hg, hclaims⟩ := hsaved.claims
    obtain rfl : x.2.client = pk := hsaved.client
    obtain rfl : x.2.claims.membership = m := by rw [hclaims]; rfl
    have hc := (DB.clientFor_ok hclient).1
    obtain ⟨c', hc', hcleared⟩ := DB.burn_clients codePk
      (hsaved.client_row ▸ hc : x.1.clients.row x.2.client = some c)
    exact ⟨db, c, g, t, hdb, hkept, hc, ⟨_, hclaims⟩, hg,
      ⟨c', hc', congrArg Binding.clientId (DB.Cleared.binding hcleared)⟩,
      DB.burn_tokens codePk hsaved.token_row, hsaved.clientId⟩
  | authorizationCode clientId secret code uri verifier =>
    obtain ⟨pk, c, codePk, item, u, x, t, hclient, -, -, -, hsaved, hr⟩ :=
      DB.exchangeCode_ok (DB.orElseSame_ok (r := (d, response)) h)
    obtain ⟨rfl, rfl⟩ := Prod.mk.inj hr
    obtain ⟨g, hg, hclaims⟩ := hsaved.claims
    obtain rfl : x.2.client = pk := hsaved.client
    have hsubject : x.2.claims.membership = item.membership := by rw [hclaims]; rfl
    rw [← hsubject] at hclaims hg
    have hc := (DB.clientFor_ok hclient).1
    exact ⟨db, c, g, t, hdb, hkept, hc, ⟨_, hclaims⟩, hg, ⟨c, hsaved.client_row ▸ hc, rfl⟩,
      hsaved.token_row, hsaved.clientId⟩
  | refreshToken clientId secret token scope =>
    obtain ⟨pk, c, tokenPk, t₀, hclient, hrow, -, -, -, hrotate⟩ := DB.refresh_ok (r := (d, response)) h
    obtain ⟨x, t, asked, -, hsaved, hr⟩ := DB.rotate_ok hrotate
    obtain ⟨rfl, rfl⟩ := Prod.mk.inj hr
    obtain ⟨g, hg, hclaims⟩ := hsaved.claims
    obtain rfl : x.2.client = pk := hsaved.client
    have hsubject : x.2.claims.membership = t₀.user := by rw [hclaims]; rfl
    rw [← hsubject] at hclaims hg
    have hc := (DB.clientFor_ok hclient).1
    refine ⟨db, c, g, { t with chainStartedAt := t₀.chainStartedAt }, hdb, hkept, hc, ⟨_, hclaims⟩, hg,
      ⟨c, hsaved.client_row ▸ hc, rfl⟩, ?_, hsaved.clientId⟩
    have hne : x.2.token ≠ tokenPk := by
      rw [hsaved.token]
      exact (Nat.ne_of_lt (lt_next hrow)).symm
    exact modify_row_eq_some.mpr
      (.inr ⟨hsaved.token, t, modify_row_eq_some.mpr (.inl ⟨hne, hsaved.token_row⟩), rfl⟩)
  | mandateKey key minted =>
    obtain ⟨e, pk, c, m, x, t, p, hauth, hc, -, hsaved, hd, hp, hclient, hclaims, htoken, -⟩ :=
      DB.mandateKeyGrant_ok (DB.orElseSame_ok (r := (d, response)) h)
    dsimp only at hd hclient hclaims htoken
    obtain ⟨g, hg, hclaims'⟩ := hsaved.claims
    obtain rfl : x.2.client = pk := hsaved.client
    have hsubject : x.2.claims.membership = m := by rw [hclaims']; rfl
    rw [← hsubject] at hclaims' hg
    have hd' : d = { x.1 with tokens := x.1.tokens.keep p } := hd
    have he : Reachable env e := by
      refine hdb.step (a := .authenticateKey key) ?_
      simp [step, hauth, DB.settle, Except.map]
    have hmembers : d.memberships = e.memberships := by rw [hd', hsaved.state]
    refine ⟨e, c, g, t, he, .same hmembers, ?_, ⟨t.scope, ?_⟩, ?_, ⟨c, ?_, rfl⟩, ?_, hsaved.clientId⟩
    · rw [hclient]
      exact hc
    · rw [hclaims, hclient]
      exact hclaims'
    · rw [hclaims]
      exact hg
    · rw [hd', hclient]
      exact hsaved.client_row ▸ hc
    · rw [hd', htoken]
      exact keep_row_eq_some.mpr ⟨hsaved.token_row, hp _ _ hsaved.issuedAt⟩

/-- The client that has the id of a token later is the one it was issued to, if the id was drawn. -/
theorem AnsweredAs.client_later {e : DB} {response : TokenResponse} {c x : Client} {g : Membership}
    {t : OAuth2Token}
    (h : AnsweredAs d response e c g t) (hd : Reachable env d) (later : List Action) {k : Pk}
    (hx : (run env d later).clients.row k = some x) (hid : x.clientId = t.clientId)
    (hminted : t.clientId.minted = true) :
    k = response.client := by
  cases hnumber : t.clientId with
  | named name => simp [hnumber, ClientId.minted] at hminted
  | uuid n =>
    obtain ⟨c', hc', hsame⟩ := h.still
    have hc'id : c'.clientId.number = some n := by rw [hsame, ← h.named, hnumber]; rfl
    have hlt := hd.clientLaws.drawn.lt _ c' n hc' hc'id
    obtain ⟨y, hy, hyid⟩ := (run_clientsKept env later d).row k x n hx (hid.trans hnumber) hlt
    exact hd.clientLaws.drawn.unique k _ y c' n hy hc' (by rw [hyid]; rfl) hc'id

end

/-- Whenever the API takes a token, it acts for the user and the organization the token was issued for,
through the user's membership there, which is the token's own as long as that stands. The client is the one
that the token was issued to; a token that was issued to a relying party is not taken, unless the party is
called "lok". -/
theorem api_acts_for_subject {env : Env} {db d : DB} {issuer : String} {request : TokenRequest}
    {response : TokenResponse}
    {t : OAuth2Token} {x : ApiContext} (hdb : Reachable env db)
    (h : db.createTokenResponse env request = (d, .ok response))
    (ht : d.tokens.row response.token = some t) (later : List Action)
    (hx : (run env d later).expandTokenContext issuer (accessToken issuer t response.claims) = .ok x) :
    x.user = response.claims.user ∧ x.organization = response.claims.org
      ∧ (∃ m, (run env d later).memberships.row x.membership = some m ∧ m.user = x.user
        ∧ m.organization = x.organization)
      ∧ (∀ m, (run env d later).memberships.row response.claims.membership = some m →
        x.membership = response.claims.membership)
      ∧ (t.clientId.minted = true → x.client = response.client)
      ∧ (t.clientId.minted = false → t.clientId = .named "lok") := by
  have hd : Reachable env d := hdb.step (a := .requestToken request) (by simp [step, h])
  obtain ⟨e, c, g, t', he, hmembers, hanswered⟩ := answeredAs hdb h
  obtain rfl : t' = t := Option.some.inj (hanswered.token.symm.trans ht)
  obtain ⟨-, haud, huser, horg, ⟨client, hclient, hid⟩, m, hm, hmu, hmo⟩ := DB.expandTokenContext_ok hx
  obtain ⟨scope, hclaims⟩ := hanswered.claims
  refine ⟨huser, horg, ⟨m, hm, hmu.trans huser.symm, hmo.trans horg.symm⟩, fun n hn => ?_, fun hminted => ?_,
    fun hnamed => ?_⟩
  · -- the membership the token is for has its user and its organization
    have hkept := hmembers.trans (run_membersKept env later d)
    obtain ⟨g', hg', hnu, hno⟩ := hkept.row _ n hn (lt_next hanswered.member)
    rw [hanswered.member] at hg'
    obtain rfl := Option.some.inj hg'
    have hguser : response.claims.user = g.user := by rw [hclaims]; rfl
    have hgorg : response.claims.org = g.organization := by rw [hclaims]; rfl
    have hsub : m.user = response.claims.user := hmu
    have horg' : m.organization = response.claims.org := hmo
    refine (hd.run later).membersApart _ _ m n hm hn ?_ ?_
    · rw [hsub, hguser, hnu]
    · rw [horg', hgorg, hno]
  · exact hanswered.client_later hd later hclient hid hminted
  · have hcnamed : c.clientId.minted = false := by rw [← hanswered.named]; exact hnamed
    have haud' : (e.audiences response.client c).holdsLok = true := by
      have hsame : response.claims.aud = e.audiences response.client c := by rw [hclaims]; rfl
      rw [← hsame]
      exact haud
    rw [he.named_audience hanswered.client hcnamed] at haud'
    rw [hanswered.named]
    cases hcid : c.clientId with
    | uuid n => simp [hcid, ClientId.minted] at hcnamed
    | named name =>
      rw [hcid] at haud'
      simp only [Audience.holdsLok, beq_iff_eq] at haud'
      rw [haud']

theorem api_acts_for_subject_sign_in :
    ∃ d response t x, (run plainEnv .empty (signIn ["email"])).createTokenResponse plainEnv
    signInExchange = (d, .ok response)
      ∧ (run plainEnv d [.tick 60]).expandTokenContext "lok" (accessToken "lok" t response.claims) = .ok x
      ∧ x.user = response.claims.user ∧ x.organization = response.claims.org := by
  have hdb := reachable_run plainEnv (signIn ["email"])
  have hok : ((run plainEnv .empty (signIn ["email"])).createTokenResponse plainEnv signInExchange).2.toOption.any
    (fun r =>
      (((run plainEnv .empty (signIn ["email"])).createTokenResponse plainEnv signInExchange).1.tokens.row
        r.token).any fun t =>
        ((run plainEnv ((run plainEnv .empty (signIn ["email"])).createTokenResponse plainEnv signInExchange).1
          [.tick 60]).expandTokenContext "lok" (accessToken "lok" t r.claims)).isOk) = true := by decide +kernel
  generalize run plainEnv .empty (signIn ["email"]) = db at hdb hok ⊢
  obtain ⟨response, hresponse, hok⟩ := exists_ok_and hok
  obtain ⟨t, ht, hok⟩ := (Option.any_eq_true _ _).mp hok
  obtain ⟨x, hx⟩ := exists_ok hok
  have hacts := api_acts_for_subject hdb (Prod.ext rfl hresponse) ht _ hx
  exact ⟨_, response, t, x, Prod.ext rfl hresponse, hx, hacts.1, hacts.2.1⟩

/-- A hub is removed with a token only through its own identity: the client the token was issued to, within the
lifetime of the token. -/
theorem hub_removed_by_own_token {env : Env} {db d e : DB} {issuer : String} {request : TokenRequest}
    {response : TokenResponse}
    {t : OAuth2Token} (hdb : Reachable env db) (h : db.createTokenResponse env request = (d, .ok response))
    (ht : d.tokens.row response.token = some t) (later : List Action)
    (he : (run env d later).deleteHub issuer (accessToken issuer t response.claims) = .ok e) :
    (run env d later).now ≤ t.issuedAt + t.expiresIn
      ∧ ∃ hub x, (run env d later).hubs.row hub = some x ∧ x.client = some response.client
        ∧ e = (run env d later).delete .hub [⟨.hub, hub⟩] none := by
  have hd : Reachable env d := hdb.step (a := .requestToken request) (by simp [step, h])
  obtain ⟨_, c, g, t', _, _, hanswered⟩ := answeredAs hdb h
  obtain rfl : t' = t := Option.some.inj (hanswered.token.symm.trans ht)
  obtain ⟨hexp, -, hub, x, client, c', hx, hclient, hc', hid, hdeleted⟩ := DB.deleteHub_ok he
  obtain ⟨b, m, hb, hm⟩ := (hd.run later).identities.bound hub x client hx hclient
  rw [hc'] at hb
  obtain rfl := Option.some.inj hb
  have hminted : t'.clientId.minted = true := by
    have hbound := (((hd.run later).clientLaws.lawful client c' hc').bound m hm).1
    rw [show c'.binding.clientId = c'.clientId from rfl, hid] at hbound
    exact hbound
  have hown := hanswered.client_later hd later hc' hid hminted
  rw [hown] at hclient
  exact ⟨hexp, hub, x, hx, hclient, (DB.deleteRows_ok.mp hdeleted).2⟩

/-- Ann approves a hub, which collects its token. -/
def hubSetup : List Action :=
  [.createUser "ann" [], .createOrganization "org" 0 false, .startHubDeviceCode plainHub 600,
   .acceptHubDeviceCode 0 0 (some 1) 0 false none]

theorem hub_removed_by_own_token_approved :
    ∃ d response t e, (run plainEnv .empty hubSetup).createTokenResponse plainEnv
    (.deviceCode (.uuid 0) 2) = (d, .ok response)
      ∧ (run plainEnv d [.tick 60]).deleteHub "lok" (accessToken "lok" t response.claims) = .ok e
      ∧ ∃ hub x, (run plainEnv d [.tick 60]).hubs.row hub = some x ∧ x.client = some response.client := by
  have hdb := reachable_run plainEnv hubSetup
  have hok : ((run plainEnv .empty hubSetup).createTokenResponse plainEnv (.deviceCode (.uuid 0) 2)).2.toOption.any
    (fun r =>
      (((run plainEnv .empty hubSetup).createTokenResponse plainEnv (.deviceCode (.uuid 0) 2)).1.tokens.row
        r.token).any fun t =>
        ((run plainEnv ((run plainEnv .empty hubSetup).createTokenResponse plainEnv (.deviceCode (.uuid 0) 2)).1
          [.tick 60]).deleteHub "lok" (accessToken "lok" t r.claims)).isOk) = true := by decide +kernel
  generalize run plainEnv .empty hubSetup = db at hdb hok ⊢
  obtain ⟨response, hresponse, hok⟩ := exists_ok_and hok
  obtain ⟨t, ht, hok⟩ := (Option.any_eq_true _ _).mp hok
  obtain ⟨e, he⟩ := exists_ok hok
  obtain ⟨-, hub, x, hx, hclient, -⟩ := hub_removed_by_own_token hdb (Prod.ext rfl hresponse) ht _ he
  exact ⟨_, response, t, e, Prod.ext rfl hresponse, he, hub, x, hx, hclient⟩

end Lok
