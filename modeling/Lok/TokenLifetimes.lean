import Lok.GuestBounds
import Lok.IssuedScopes

/-!
# How long a token lasts

The lifetime of a token is computed from the client, its claims from the subject. The two are of one
membership where the grant takes the subject from the client; a code is for whoever signed in, and a refresh
for whom the chain is.
-/

namespace Lok

open Table Checks

namespace DB

variable {db d e : DB} {env : Env}

/-! ## The lifetime of a client's tokens -/

theorem organizationLifetime_within (db : DB) (c : Client) :
    minAccessTokenExpiresIn ≤ db.organizationLifetime c ∧ db.organizationLifetime c ≤ maxAccessTokenExpiresIn := by
  unfold organizationLifetime
  split
  · decide
  · decide
  · unfold minAccessTokenExpiresIn maxAccessTokenExpiresIn
    omega

theorem accessTokenExpiresIn_within (db : DB) (c : Client) :
    minAccessTokenExpiresIn ≤ db.accessTokenExpiresIn c ∧ db.accessTokenExpiresIn c ≤ maxAccessTokenExpiresIn := by
  have hwithin := organizationLifetime_within db c
  unfold accessTokenExpiresIn
  split
  · unfold minAccessTokenExpiresIn maxAccessTokenExpiresIn scopedAccessTokenExpiresIn at *
    omega
  · exact hwithin

/-- Tokens are kept short for a client that acts for a guest, or by its organization. -/
theorem accessTokenExpiresIn_short (db : DB) (c : Client) :
    db.accessTokenExpiresIn c ≤ scopedAccessTokenExpiresIn
      ↔ db.isScopedClient c = true ∨ db.organizationLifetime c ≤ scopedAccessTokenExpiresIn := by
  unfold accessTokenExpiresIn
  split
  · rename_i hscoped
    exact iff_of_true (Nat.min_le_right _ _) (.inl hscoped)
  · rename_i hfull
    rw [or_iff_right hfull]

/-- The database with these lifetimes stored, whoever wrote them. -/
def withLifetimes (db : DB) (lifetimes : Pk → Option Int) : DB :=
  { db with organizations := db.organizations.update fun pk o => { o with accessTokenLifetime := lifetimes pk } }

theorem ClientLaws.withLifetimes (h : db.ClientLaws) (lifetimes : Pk → Option Int) :
    (db.withLifetimes lifetimes).ClientLaws :=
  h.places ⟨fun _ g hg => ⟨g, hg, rfl⟩, fun _ x hx => ⟨x, hx, rfl, rfl⟩⟩ rfl rfl (Nat.le_refl _)

/-! ## Whose token it is -/

theorem ClientLaws.staged_eq (h : db.ClientLaws) {k pk : Pk} {x : DeviceCode} {staged c : Client}
    (hx : db.deviceCodes.row k = some x) (hstaged : db.clients.row x.client = some staged)
    (hc : db.clients.row pk = some c)
    (hid : staged.clientId = c.clientId) : c = staged := by
  obtain ⟨y, hy, hplain⟩ := h.staged k x hx
  rw [hstaged] at hy
  cases hy
  have hminted : staged.clientId.minted = true := hplain.minted
  cases hnumber : staged.clientId with
  | named name =>
    rw [hnumber] at hminted
    cases hminted
  | uuid n =>
    have hkey : staged.clientId.number = some n := by rw [hnumber]; rfl
    have hsame : pk = x.client := h.drawn.unique _ _ _ _ n hc hstaged (by rw [← hid]; exact hkey) hkey
    rw [hsame, hstaged] at hc
    exact (Option.some.inj hc).symm

/-- The subject comes from elsewhere than the client: the signed-in user picked it, or an earlier token had it. -/
def borrower : TokenRequest → Option ClientId
  | .authorizationCode clientId .. | .refreshToken clientId .. => some clientId
  | .deviceCode .. | .mandateKey .. => none

/-- A client whose subject comes from elsewhere acts for a guest itself, or its organization keeps tokens as
short. -/
def KeepsShort (db : DB) (request : TokenRequest) : Prop :=
  ∀ clientId, borrower request = some clientId → ∀ r, db.queryClient clientId = some r →
    db.isScopedClient r.2 = true ∨ db.organizationLifetime r.2 ≤ scopedAccessTokenExpiresIn

theorem accessTokenExpiresIn_own {c : Client} {subject : Pk} (hsubject : c.membership = some subject)
    (hguest : e.isScoped subject = true) : e.accessTokenExpiresIn c ≤ scopedAccessTokenExpiresIn := by
  refine (accessTokenExpiresIn_short e c).mpr (.inl ?_)
  unfold isScopedClient
  rw [hsubject]
  exact hguest

theorem ActsFor.short_iff {request : TokenRequest} {c : Client} {subject : Pk} (hlaws : db.ClientLaws)
    (h : ActsFor env db e c subject request) :
    (db.isScoped subject = true → e.accessTokenExpiresIn c ≤ scopedAccessTokenExpiresIn)
      ↔ (db.isScoped subject = true → db.KeepsShort request) := by
  have hborrowed : ∀ clientId, borrower request = some clientId → ∀ pk u, db.queryClient clientId = some (pk, c) →
      e = { db with usedNonces := u } →
      (e.accessTokenExpiresIn c ≤ scopedAccessTokenExpiresIn ↔ db.KeepsShort request) := by
    intro clientId hborrower pk u hquery he
    subst he
    refine (accessTokenExpiresIn_short _ c).trans
      ⟨fun hshort id hid r hr => ?_, fun hshort => hshort clientId hborrower _ hquery⟩
    rw [hborrower] at hid
    cases hid
    rw [hquery] at hr
    cases hr
    exact hshort
  have hown : borrower request = none →
    (db.isScoped subject = true → e.accessTokenExpiresIn c ≤ scopedAccessTokenExpiresIn) →
      ((db.isScoped subject = true → e.accessTokenExpiresIn c ≤ scopedAccessTokenExpiresIn)
        ↔ (db.isScoped subject = true → db.KeepsShort request)) := by
    intro hnone hshort
    refine iff_of_true hshort fun _ clientId hid => ?_
    rw [hnone] at hid
    cases hid
  cases request with
  | authorizationCode clientId secret code uri verifier =>
    obtain ⟨pk, u, hquery, he⟩ := h
    exact imp_congr_right fun _ => hborrowed clientId rfl pk u hquery he
  | refreshToken clientId secret token scope =>
    obtain ⟨pk, u, hquery, he⟩ := h
    exact imp_congr_right fun _ => hborrowed clientId rfl pk u hquery he
  | deviceCode clientId secret =>
    obtain ⟨k, x, pk, staged, hx, hc, hstaged, hid, hm, rfl⟩ := h
    have hsame := hlaws.staged_eq hx hstaged hc hid
    exact hown rfl (accessTokenExpiresIn_own (hsame ▸ hm))
  | mandateKey key minted =>
    obtain ⟨pk, hauth, hm⟩ := h
    refine hown rfl fun hguest => accessTokenExpiresIn_own hm ?_
    rw [(authenticateKey_aside hauth).isScoped]
    exact hguest

end DB

/-- Whatever lifetimes are stored, a token lasts as long as tokens may; and a guest's is short exactly where
the subject is the client's own, the client's own membership is a guest too, or the organization keeps its
tokens as short. -/
theorem guest_tokens_are_short {env : Env} {db d : DB} {lifetimes : Pk → Option Int} {request : TokenRequest}
    {response : TokenResponse} (hdb : Reachable env db)
    (h : (db.withLifetimes lifetimes).createTokenResponse env request = (d, .ok response)) :
    ∃ t, d.tokens.row response.token = some t ∧ t.user = response.claims.membership
      ∧ minAccessTokenExpiresIn ≤ t.expiresIn ∧ t.expiresIn ≤ maxAccessTokenExpiresIn
      ∧ ((db.isScoped t.user = true → t.expiresIn ≤ scopedAccessTokenExpiresIn)
        ↔ (db.isScoped t.user = true → (db.withLifetimes lifetimes).KeepsShort request)) := by
  obtain ⟨e, pk, c, subject, asked, refresh, x, t, c', s, hsaved, hclaims, -, -, ht, -, hacts⟩ :=
    DB.createTokenResponse_saved h
  refine ⟨_, ht, ?_, ?_⟩
  · obtain ⟨m, -, hextra⟩ := hsaved.claims
    rw [hclaims, hextra]
    exact hsaved.user
  · show minAccessTokenExpiresIn ≤ t.expiresIn ∧ t.expiresIn ≤ maxAccessTokenExpiresIn
      ∧ ((db.isScoped t.user = true → t.expiresIn ≤ scopedAccessTokenExpiresIn) ↔ _)
    have hwithin := DB.accessTokenExpiresIn_within e c
    have hshort := hacts.short_iff (hdb.clientLaws.withLifetimes lifetimes)
    rw [hsaved.expiresIn, hsaved.user]
    exact ⟨hwithin.1, hwithin.2, hshort⟩

/-- Bob, a guest, signs in to the app of Ann. -/
def guestSignsIn : List Action :=
  plainSetup [] ++ [.createUser "bob" [], .createInvite 0 0 none [] (some [⟨0, "c", []⟩]) none false,
    .redeemInvite 0 1,
    .authorize 1 0 ⟨.uuid 0, some "app://", [], plainVerifier, "S256", ""⟩]

/-- A lifetime below what is allowed was stored: the tokens of the organization are as short as they may be,
and so is Bob's. -/
theorem guest_tokens_are_short_below :
    ∃ d response t, ((run plainEnv .empty guestSignsIn).withLifetimes fun _ => some (-1)).createTokenResponse
    plainEnv signInExchange
        = (d, .ok response) ∧ d.tokens.row response.token = some t ∧ minAccessTokenExpiresIn ≤ t.expiresIn
      ∧ t.expiresIn ≤ scopedAccessTokenExpiresIn := by
  have hdb := reachable_run plainEnv guestSignsIn
  have hguest : (run plainEnv .empty guestSignsIn).isScoped 1 = true := by decide +kernel
  have hok : (((run plainEnv .empty guestSignsIn).withLifetimes fun _ => some (-1)).createTokenResponse plainEnv
      signInExchange).2.toOption.any (fun response => response.claims.membership == 1) = true := by decide +kernel
  have hkept : (((run plainEnv .empty guestSignsIn).withLifetimes fun _ => some (-1)).queryClient (.uuid 0)).all
    (fun r =>
      ((run plainEnv .empty guestSignsIn).withLifetimes fun _ => some (-1)).organizationLifetime
        r.2 ≤ scopedAccessTokenExpiresIn)
      = true := by decide +kernel
  generalize run plainEnv .empty guestSignsIn = db at hdb hguest hok hkept ⊢
  generalize hx : (db.withLifetimes fun _ => some (-1)).createTokenResponse plainEnv signInExchange = x at hok ⊢
  obtain ⟨d, answer⟩ := x
  obtain ⟨response, rfl, hbob⟩ := exists_ok_and hok
  obtain ⟨t, ht, huser, hmin, -, hshort⟩ := guest_tokens_are_short hdb hx
  have hscoped : db.isScoped t.user = true := by
    rw [huser, beq_iff_eq.mp hbob]
    exact hguest
  refine ⟨d, response, t, rfl, ht, hmin, hshort.mpr (fun _ clientId hid r hr => .inr ?_) hscoped⟩
  cases hid
  rw [hr] at hkept
  simpa using hkept

/-- The token lists the collaboration Bob was let in to, for an hour: the app is Ann's, who is a full member. -/
theorem guest_token_for_an_hour :
    ∃ d response t, (run plainEnv .empty guestSignsIn).createTokenResponse plainEnv
    signInExchange = (d, .ok response)
      ∧ d.tokens.row response.token = some t ∧ d.isScoped t.user = true
      ∧ response.claims.collabs = [("data", "c", [])]
      ∧ t.expiresIn = 3600 ∧ scopedAccessTokenExpiresIn < t.expiresIn := by
  have hok : ((run plainEnv .empty guestSignsIn).createTokenResponse plainEnv signInExchange).2.toOption.any
    (fun response =>
      response.claims.collabs == [("data", "c", [])]
        && (((run plainEnv .empty guestSignsIn).createTokenResponse plainEnv signInExchange).1.tokens.row
          response.token).any
          (fun t => ((run plainEnv .empty guestSignsIn).createTokenResponse plainEnv
            signInExchange).1.isScoped t.user
            && t.expiresIn == 3600)) = true := by decide +kernel
  generalize (run plainEnv .empty guestSignsIn).createTokenResponse plainEnv signInExchange = x at hok ⊢
  obtain ⟨d, answer⟩ := x
  obtain ⟨response, rfl, hp⟩ := exists_ok_and hok
  simp only [Bool.and_eq_true, beq_iff_eq, Option.any_eq_true] at hp
  obtain ⟨hcollabs, t, ht, hguest, hhour⟩ := hp
  exact ⟨d, response, t, rfl, ht, hguest, hcollabs, hhour, by rw [hhour]; decide⟩

end Lok
