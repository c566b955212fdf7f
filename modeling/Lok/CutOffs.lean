import Lok.Assents
import Lok.MandateClients
import Lok.RefreshChains
import Lok.RootMandates
import Lok.Sessions

/-!
# What is cut off stays cut off

Revoking the sessions of an organization, or rejecting an app, revokes tokens and mandates
that are on file. Neither ever comes back, whatever happens later: who refreshes then
presents a token saved since, or somebody else's, and who logs in with a key does so under
a mandate issued since, or another one.
-/

namespace Lok

open Table Runs Checks

namespace DB

variable {env : Env} {db d e : DB} {reason : MandateRevocation}

/-! ## What happens to the row of a mandate -/

/-- A mandate that was on file is still under its parent and still revoked if it was, or gone. -/
structure MandatesKept (db d : DB) : Prop where
  next : db.mandates.next ≤ d.mandates.next
  row : ∀ k m', d.mandates.row k = some m' → k < db.mandates.next → ∃ m, db.mandates.row k = some m
    ∧ m'.parent = m.parent ∧ (m.revokedAt.isSome = true → m'.revokedAt.isSome = true)

theorem MandatesKept.refl (db : DB) : MandatesKept db db := ⟨Nat.le_refl _, fun _ m hm _ => ⟨m, hm, rfl, id⟩⟩

theorem MandatesKept.trans (h : MandatesKept db d) (k : MandatesKept d e) : MandatesKept db e := by
  refine ⟨Nat.le_trans h.next k.next, fun pk m'' hm'' hlt => ?_⟩
  obtain ⟨m', hm', hparent', hrevoked'⟩ := k.row pk m'' hm'' (Nat.lt_of_lt_of_le hlt h.next)
  obtain ⟨m, hm, hparent, hrevoked⟩ := h.row pk m' hm' hlt
  exact ⟨m, hm, hparent'.trans hparent, fun hr => hrevoked' (hrevoked hr)⟩

theorem MandatesKept.write {l : Label} (hlaws : db.MandateLaws) (hw : Write db l d) : MandatesKept db d := by
  rcases mandates_later hlaws hw with hlater | ⟨n, -, -, hd⟩
  · refine ⟨Nat.le_of_eq hlater.1.symm, fun k m' hm' _ => ?_⟩
    obtain ⟨m, hm, hl⟩ := hlater.2 k m' hm'
    exact ⟨m, hm, hl.parent, hl.revoked⟩
  · refine ⟨by rw [hd]; exact Nat.le_succ _, fun k m' hm' hlt => ?_⟩
    rw [hd] at hm'
    rcases insert_row_eq_some.mp hm' with ⟨rfl, -⟩ | hm'
    · exact absurd hlt (Nat.lt_irrefl _)
    · exact ⟨m', hm', rfl, id⟩

theorem MandatesKept.writes {A : Licence} (hlaws : db.MandateLaws) (hw : Writes A db d) :
    d.MandateLaws ∧ MandatesKept db d :=
  hw.invariant (I := fun e => e.MandateLaws ∧ MandatesKept db e)
    (fun hI hw _ => ⟨hI.1.write hw, hI.2.trans (.write hI.1 hw)⟩) ⟨hlaws, .refl db⟩

theorem step_mandatesKept (hlaws : db.MandateLaws) (a : Action) : MandatesKept db (step env db a) := by
  cases ha : a.deletes with
  | true => exact step_deletes ha (.refl db) fun _ _ => .write hlaws (.delete _ _ _)
  | false => exact (MandatesKept.writes hlaws (step_writes env db ha)).2

theorem run_mandatesKept (as : List Action) : ∀ {db : DB}, Reachable env db → MandatesKept db (run env db as) := by
  induction as with
  | nil => exact fun {db} _ => .refl db
  | cons a as ih => exact fun {db} h => (step_mandatesKept h.mandateLaws a).trans (ih (h.step rfl))

/-! ## Revoking mandates one after the other -/

theorem revokeMandate_revokes {k j : Pk} {m : Mandate} (h : db.revokeMandate k reason = .ok d)
    (hm : d.mandates.row j = some m)
    (hj : j = k ∨ m.parent = some k) : m.revokedAt.isSome = true := by
  simp only [revokeMandate, bind_ok, Table.get_ok, pure_ok] at h
  obtain ⟨_, -, rfl⟩ := h
  have hrow := (deleteClients_roots _ _).rows j m hm
  obtain ⟨m₀, -, hw⟩ := (withdrawn_rewrites db k reason fun _ _ => id).before hrow
  have hparent : m.parent = m₀.parent := by
    obtain ⟨_, _, rfl, -⟩ := withdrawn_same hw
    rfl
  unfold Withdrawn at hw
  by_cases hjk : j = k
  · rw [if_pos hjk] at hw
    obtain ⟨t, r, heq, ht⟩ := revokeRow_same db.now reason m₀
    rw [hw, heq]
    exact ht
  · rw [if_neg hjk, if_pos (hparent.symm.trans (hj.resolve_left hjk))] at hw
    obtain ⟨t, r, heq, ht⟩ := revokeRow_same db.now .parentRevoked m₀
    rw [hw, heq]
    exact ht

/-- Every mandate of the list, and every one under it, is revoked or gone when the last one is done. -/
theorem revokeEach_revokes {l : List Pk} : ∀ {db : DB}, db.MandateLaws → revokeEach reason l db = (d, .ok ()) →
    MandatesKept db d ∧ ∀ j m, d.mandates.row j = some m → j < db.mandates.next →
    (j ∈ l ∨ ∃ p ∈ l, m.parent = some p) →
      m.revokedAt.isSome = true := by
  induction l with
  | nil =>
    intro db _ h
    obtain rfl : db = d := (Prod.mk.inj h).1
    exact ⟨.refl db, fun j m _ _ hl => by simp at hl⟩
  | cons k l ih =>
    intro db hlaws h
    unfold revokeEach at h
    split at h
    · rename_i d₁ h₁
      obtain ⟨hlaws₁, hkept₁⟩ := MandatesKept.writes (A := .free) hlaws (revokeMandate_writes h₁)
      obtain ⟨hkept, hrest⟩ := ih hlaws₁ h
      refine ⟨hkept₁.trans hkept, fun j m hm hlt hl => ?_⟩
      have hlt₁ := Nat.lt_of_lt_of_le hlt hkept₁.next
      obtain ⟨m₁, hm₁, hparent, hrevoked⟩ := hkept.row j m hm hlt₁
      by_cases hnow : j = k ∨ m.parent = some k
      · exact hrevoked (revokeMandate_revokes h₁ hm₁ (by rw [← hparent]; exact hnow))
      · refine hrest j m hm hlt₁ ?_
        rcases hl with hj | ⟨p, hp, hmp⟩
        · exact .inl ((List.mem_cons.mp hj).resolve_left fun hjk => hnow (.inl hjk))
        · refine .inr ⟨p, (List.mem_cons.mp hp).resolve_left fun hpk => hnow (.inr ?_), hmp⟩
          rw [hmp, hpk]
    · simp at h

/-- Where the list has every mandate `p` that stands, none of them stands afterwards, nor does one under them. -/
theorem revokeEach_all {l : List Pk} {p : Pk → Mandate → Prop} (hlaws : db.MandateLaws)
    (h : revokeEach reason l db = (d, .ok ()))
    (hl : ∀ k m, db.mandates.row k = some m → p k m → m.revokedAt = none → k ∈ l) {k : Pk} {m m' : Mandate}
    (hm : db.mandates.row k = some m) (hm' : d.mandates.row k = some m')
    (hp : p k m ∨ ∃ j q, m.parent = some j ∧ db.mandates.row j = some q ∧ p j q) : m'.revokedAt.isSome = true := by
  obtain ⟨hkept, hrevoked⟩ := revokeEach_revokes hlaws h
  have hlt := lt_next hm
  obtain ⟨m₀, hm₀, hparent, hstays⟩ := hkept.row k m' hm' hlt
  rw [hm] at hm₀
  obtain rfl := Option.some.inj hm₀
  by_cases hdead : m.revokedAt.isSome = true
  · exact hstays hdead
  · refine hrevoked k m' hm' hlt ?_
    have hnone : m.revokedAt = none := by simpa using hdead
    rcases hp with hp | ⟨j, q, hj, hq, hp⟩
    · exact .inl (hl k m hm hp hnone)
    · -- a parent that is revoked has its children revoked
      obtain ⟨q₀, hq₀, hfollows⟩ := hlaws.parent k m j hm hj
      rw [hq] at hq₀
      obtain rfl := Option.some.inj hq₀
      have hstands : q.revokedAt = none := by
        by_cases hq : q.revokedAt.isSome = true
        · exact absurd (hfollows.2 hq) hdead
        · simpa using hq
      exact .inr ⟨j, hl j q hq hp hstands, hparent.trans hj⟩

/-! ## Cuts -/

/-- Of what is on file in `db`, the tokens under the ids and the mandates of the cut are revoked in `d`, or
gone. -/
structure Cut (db d : DB) (ids : ClientId → Prop) (mandates : Pk → Prop) : Prop where
  tokensNext : db.tokens.next ≤ d.tokens.next
  tokens : ∀ k t t', db.tokens.row k = some t → ids t.clientId → d.tokens.row k = some t' → t'.revoked = true
  mandatesNext : db.mandates.next ≤ d.mandates.next
  mandates : ∀ k m m', db.mandates.row k = some m → mandates k → d.mandates.row k = some m' →
    m'.revokedAt.isSome = true

variable {ids : ClientId → Prop} {mandates : Pk → Prop}

theorem Cut.later (h : Cut db d ids mandates) (ht : TokensKept d e) (hm : MandatesKept d e) :
    Cut db e ids mandates where
  tokensNext := Nat.le_trans h.tokensNext ht.next
  tokens k t t'' hk hids ht'' := by
    obtain ⟨t', ht', -, hrevoked⟩ := ht.row k t'' ht'' (Nat.lt_of_lt_of_le (lt_next hk) h.tokensNext)
    exact hrevoked (h.tokens k t t' hk hids ht')
  mandatesNext := Nat.le_trans h.mandatesNext hm.next
  mandates k m m'' hk hcut hm'' := by
    obtain ⟨m', hm', -, hrevoked⟩ := hm.row k m'' hm'' (Nat.lt_of_lt_of_le (lt_next hk) h.mandatesNext)
    exact hrevoked (h.mandates k m m' hk hcut hm')

theorem Cut.run (h : Cut db d ids mandates) (hd : Reachable env d) (as : List Action) :
    Cut db (run env d as) ids mandates :=
  h.later (run_tokensKept as d) (run_mandatesKept as hd)

theorem Cut.refreshes (h : Cut db d ids mandates) {clientId : ClientId} {secret : Option String} {r : Nat}
    {scope : List String}
    {x : DB × TokenResponse} (hok : d.refresh env clientId secret r scope = (x.1, .ok x.2)) :
    ∃ k t, d.tokens.row k = some t ∧ t.refreshToken = some r
    ∧ ∀ t₀, db.tokens.row k = some t₀ → ¬ ids t₀.clientId := by
  obtain ⟨_, _, k, t, -, ht, hr, hactive, -⟩ := refresh_ok hok
  refine ⟨k, t, ht, hr, fun t₀ ht₀ hids => ?_⟩
  unfold OAuth2Token.isRefreshTokenActive at hactive
  simp [h.tokens k t₀ t ht₀ hids ht] at hactive

theorem Cut.logsIn (h : Cut db d ids mandates) (hd : Reachable env d) {key : MandateKeyGrantRequest}
    {minted : Option String}
    {x : DB × TokenResponse} (hok : d.mandateKeyGrant env key minted = .ok x) :
    ∃ k m, d.mandates.row k = some m ∧ m.keyHash = some (env.hashKey key.key)
    ∧ m.membership = x.2.claims.membership
      ∧ ∀ m₀, db.mandates.row k = some m₀ → ¬ mandates k := by
  obtain ⟨k, m, hadmitted, hsubject⟩ := mandateKeyGrant_subject hd hok
  refine ⟨k, m, hadmitted.row, hadmitted.key, hsubject.symm, fun m₀ hm₀ hcut => ?_⟩
  have hrevoked := h.mandates k m₀ m hm₀ hcut hadmitted.row
  rw [assertLive_unrevoked hadmitted.live] at hrevoked
  cases hrevoked

def IsIdOf (db : DB) (clients : List Pk) (id : ClientId) : Prop :=
  ∃ k c, k ∈ clients ∧ db.clients.row k = some c ∧ c.clientId = id

theorem revokeTokensOf_revokes {clients : List Pk} (hkept : TokensKept (db.revokeTokensOf clients) d) {k : Pk}
    {t t' : OAuth2Token}
    (ht : db.tokens.row k = some t) (hid : db.IsIdOf clients t.clientId) (ht' : d.tokens.row k = some t') :
    t'.revoked = true := by
  obtain ⟨t₁, ht₁, -, hrevoked⟩ := hkept.row k t' ht' (lt_next (t := db.tokens) ht)
  obtain ⟨t₀, ht₀, heq⟩ := updateWhere_row_eq_some.mp ht₁
  rw [ht] at ht₀
  obtain rfl := Option.some.inj ht₀
  obtain ⟨j, c, hj, hc, hid⟩ := hid
  have hmem : (clients.filterMap fun pk => (db.clients.row pk).map (·.clientId)).contains t.clientId = true := by
    rw [List.contains_iff_mem, List.mem_filterMap]
    exact ⟨j, hj, by rw [hc, ← hid]; rfl⟩
  rw [if_pos hmem] at heq
  exact hrevoked (by rw [← heq])

theorem revokeEach_cut {clients l : List Pk} {p : Pk → Mandate → Prop} (hlaws : db.MandateLaws)
    (h : revokeEach reason l (db.revokeTokensOf clients) = (d, .ok ()))
    (hl : ∀ k m, db.mandates.row k = some m → p k m → m.revokedAt = none → k ∈ l) :
    Cut db d (db.IsIdOf clients)
      (fun k => ∃ m, db.mandates.row k = some m ∧ (p k m
        ∨ ∃ j q, m.parent = some j ∧ db.mandates.row j = some q ∧ p j q)) := by
  have hlaws' : (db.revokeTokensOf clients).MandateLaws := ⟨hlaws.shaped, hlaws.parent⟩
  have hkept : TokensKept (db.revokeTokensOf clients) d := by
    have hw : Writes .free (db.revokeTokensOf clients) (revokeEach reason l (db.revokeTokensOf clients)).1 :=
      revokeEach_writes
    rw [h] at hw
    exact Via.relates (R := TokensKept) TokensKept.refl (fun h k => h.trans k) (fun hw _ => .write hw) hw
  refine ⟨hkept.next, fun k t t' ht hids ht' => revokeTokensOf_revokes hkept ht hids ht',
    (revokeEach_revokes hlaws' h).1.next, fun k m m' hm hcut hm' => ?_⟩
  obtain ⟨m₀, hm₀, hp⟩ := hcut
  rw [hm] at hm₀
  obtain rfl := Option.some.inj hm₀
  exact revokeEach_all hlaws' h hl hm hm' hp

theorem deleteClients_revokes {mandates : List Pk} {k : Pk} {t t' : OAuth2Token} (ht : db.tokens.row k = some t)
    (hid : db.IsIdOf (db.clients.pks fun _ c => c.mandate.any mandates.contains) t.clientId)
    (ht' : (db.deleteClients mandates).tokens.row k = some t') : t'.revoked = true := by
  unfold deleteClients at ht'
  exact revokeTokensOf_revokes (.write (.delete _ _ _)) ht hid ht'

theorem deleteClients_tokens_next (db : DB) (mandates : List Pk) :
    (db.deleteClients mandates).tokens.next = db.tokens.next := by
  unfold deleteClients
  exact (delete_shrinks (db.revokeTokensOf _) .client _ none).tokens.1

/-- The clients of a mandate and of those under it. -/
def clientsOfMandate (db : DB) (M : Pk) : List Pk :=
  db.clients.pks fun _ c => c.mandate.any (M :: db.childrenOf M).contains

/-- A mandate is revoked with those under it, and the tokens of the clients of them all are. -/
theorem revokeMandate_cut {M : Pk} (h : db.revokeMandate M reason = .ok d) :
    Cut db d (db.IsIdOf (db.clientsOfMandate M))
    (fun k => ∃ m, db.mandates.row k = some m ∧ (k = M ∨ m.parent = some M)) := by
  have hkept := revokeMandate_edits h
  have hrevokes := fun j m => @revokeMandate_revokes db d reason M j m h
  simp only [revokeMandate, bind_ok, Table.get_ok, pure_ok] at h
  obtain ⟨_, -, rfl⟩ := h
  generalize db.mandates.update _ = table at hkept hrevokes ⊢
  refine ⟨Nat.le_of_eq (deleteClients_tokens_next { db with mandates := table } _).symm,
    fun k t t' ht hids ht' => ?_,
    Nat.le_of_eq hkept.next.symm, fun k m m' hm hcut hm' => hrevokes k m' hm' ?_⟩
  · exact deleteClients_revokes (show ({ db with mandates := table } : DB).tokens.row k = some t from ht) hids ht'
  · obtain ⟨m₀, hm₀, hp⟩ := hcut
    obtain ⟨m₁, hm₁, -, hparent, -⟩ := hkept.back k m' hm'
    rw [hm₀] at hm₁
    obtain rfl := Option.some.inj hm₁
    rw [hparent]
    exact hp

theorem revokeMandate_deletes {M k : Pk} (h : db.revokeMandate M reason = .ok d) (hk : k ∈ db.clientsOfMandate M) :
    d.clients.row k = none := by
  simp only [revokeMandate, bind_ok, Table.get_ok, pure_ok] at h
  obtain ⟨_, -, rfl⟩ := h
  cases hrow : (deleteClients _ _).clients.row k with
  | none => rfl
  | some c => exact absurd ⟨c, hrow⟩ (delete_not_has (r := ⟨.client, k⟩) (List.mem_map_of_mem hk))

/-! ## The organization's kill switch -/

theorem revokeOrganizationSessions_cut {user organization : Pk} (hlaws : db.MandateLaws) (hhomed : db.Homed)
    (hok : db.revokeOrganizationSessions user organization = (d, .ok ())) :
    Cut db d (db.IsIdOf (db.organizationClients organization))
      (fun k => ∃ m, db.mandates.row k = some m ∧ m.organization = organization) := by
  unfold revokeOrganizationSessions at hok
  split at hok
  · simp at hok
  · split at hok
    · have hcut := revokeEach_cut (p := fun _ m => m.organization = organization ∧ m.parent = none) hlaws hok
        fun k m hm hp hlive => mem_pks.mpr ⟨m, hm, by simp [hp, hlive]⟩
      refine ⟨hcut.tokensNext, hcut.tokens, hcut.mandatesNext,
        fun k m m' hm horg hm' => hcut.mandates k m m' hm ⟨m, hm, ?_⟩ hm'⟩
      obtain ⟨m₀, hm₀, horg⟩ := horg
      rw [hm] at hm₀
      obtain rfl := Option.some.inj hm₀
      cases hparent : m.parent with
      | none => exact .inl ⟨horg, rfl⟩
      | some j =>
        -- a mandate is in its parent's hub, and so in its organization
        obtain ⟨q, hq, hfollows⟩ := hlaws.parent k m j hm hparent
        obtain ⟨-, x, hx, hxo⟩ := hhomed k m hm
        obtain ⟨-, y, hy, hyo⟩ := hhomed j q hq
        rw [hfollows.1.hub, hy] at hx
        obtain rfl := Option.some.inj hx
        exact .inr ⟨j, q, rfl, hq, hyo.symm.trans (hxo.trans horg), hfollows.1.root⟩
    · simp at hok

end DB

/-- The kill switch lasts: whatever happens after it, no token of a client of the organization's that was on
file is refreshed again, and no mandate of the organization's that was on file logs anybody in. -/
theorem organization_stays_cut_off {env : Env} {db d : DB} {user organization : Pk} (hdb : Reachable env db)
    (hok : db.revokeOrganizationSessions user organization = (d, .ok ())) (later : List Action) :
    (∀ clientId secret r scope e response, (run env d later).createTokenResponse env
      (.refreshToken clientId secret r scope)
        = (e, .ok response) → ∃ k t, (run env d later).tokens.row k = some t ∧ t.refreshToken = some r
          ∧ ∀ t₀, db.tokens.row k = some t₀ → ¬ db.IsIdOf (db.organizationClients organization) t₀.clientId)
      ∧ ∀ key minted e response, (run env d later).createTokenResponse env
      (.mandateKey key minted) = (e, .ok response) →
        ∃ k m, (run env d later).mandates.row k = some m ∧ m.keyHash = some (env.hashKey key.key)
          ∧ m.membership = response.claims.membership
          ∧ ∀ m₀, db.mandates.row k = some m₀ → m₀.organization ≠ organization := by
  have hd : Reachable env d := hdb.step (a := .revokeOrganizationSessions user organization) (by simp [step, hok])
  have hcut := (DB.revokeOrganizationSessions_cut hdb.mandateLaws hdb.homed hok).run hd later
  refine ⟨fun clientId secret r scope e response h => hcut.refreshes (x := (e, response)) h,
    fun key minted e response h => ?_⟩
  obtain ⟨k, m, hm, hkey, hsubject, hno⟩ := hcut.logsIn (hd.run later) (DB.orElseSame_ok (r := (e, response)) h)
  exact ⟨k, m, hm, hkey, hsubject, fun m₀ hm₀ horg => hno m₀ hm₀ ⟨m₀, hm₀, horg⟩⟩

/-- The hub's worker has a key, and Ann revokes every session of her organization. -/
theorem organization_stays_cut_off_worker :
    ∃ d, (run plainEnv .empty [.createUser "ann" [], .createOrganization "org" 0 false, .configureHub 0 keyedHub,
        .configureHubMandates 0 keyedHub]).revokeOrganizationSessions 0 0 = (d, .ok ())
      ∧ ∀ later minted e response, (run plainEnv d later).createTokenResponse plainEnv
      (.mandateKey workerLogin minted)
          = (e, .ok response) → ∃ k m, (run plainEnv d later).mandates.row k = some m ∧ m.keyHash = some plainKey
            ∧ ∀ m₀, (run plainEnv .empty
              [.createUser "ann" [], .createOrganization "org" 0 false, .configureHub 0 keyedHub,
              .configureHubMandates 0 keyedHub]).mandates.row k = some m₀ → m₀.organization ≠ 0 := by
  have hdb := reachable_run plainEnv
    [.createUser "ann" [], .createOrganization "org" 0 false, .configureHub 0 keyedHub,
    .configureHubMandates 0 keyedHub]
  have hok : ((run plainEnv .empty
    [.createUser "ann" [], .createOrganization "org" 0 false, .configureHub 0 keyedHub,
      .configureHubMandates 0 keyedHub]).revokeOrganizationSessions 0 0).2.isOk = true := by decide +kernel
  generalize run plainEnv .empty _ = db at hdb hok ⊢
  obtain ⟨⟨⟩, hunit⟩ := exists_ok hok
  refine ⟨(db.revokeOrganizationSessions 0 0).1, Prod.ext rfl hunit, fun later minted e response h => ?_⟩
  obtain ⟨k, m, hm, hkey, -, hno⟩ :=
    (organization_stays_cut_off hdb (Prod.ext rfl hunit) later).2 _ minted e response h
  exact ⟨k, m, hm, hkey, hno⟩

/-! ## The rejection of an app -/

/-- The client is under a mandate, or of an app. -/
def Client.Installed (c : Client) : Prop :=
  c.mandate.isSome = true ∨ c.release.isSome = true ∧ c.membership.isSome = true

namespace DB

variable {env : Env} {db d : DB}

/-- One of the clients issued the mandate, or the one it is under. -/
def IssuedBy (db : DB) (clients : List Pk) (m : Mandate) : Prop :=
  m.issuingClient.any clients.contains = true
    ∨ ∃ j q, m.parent = some j ∧ db.mandates.row j = some q ∧ q.issuingClient.any clients.contains = true

theorem mem_enrollmentClients {membership organization : Pk} {identifier : String} {node : Option Pk} {k : Pk} :
    k ∈ db.enrollmentClients membership organization identifier node ↔ ∃ c, db.clients.row k = some c
      ∧ c.membership = some membership ∧ c.node = node
      ∧ (c.release.any fun r => r.organization == organization && r.identifier == identifier) = true := by
  simp [enrollmentClients, mem_pks, and_assoc]

theorem enrollmentClients_carries {ended : Pk → Prop} {membership organization : Pk} {identifier : String}
    {node : Option Pk}
    (h : Carries ended db d) {k : Pk} (hk : k ∈ db.enrollmentClients membership organization identifier node)
    (hrow : ∃ c, d.clients.row k = some c) : k ∈ d.enrollmentClients membership organization identifier node := by
  obtain ⟨c', hc'⟩ := hrow
  obtain ⟨c, hc, hsame⟩ := h.clients k c' hc'
  obtain ⟨c₀, hc₀, hm, hnode, hr⟩ := mem_enrollmentClients.mp hk
  rw [hc] at hc₀
  obtain rfl := Option.some.inj hc₀
  refine mem_enrollmentClients.mpr ⟨c', hc', hsame.membership.trans hm, hsame.node.trans hnode, ?_⟩
  rw [hsame.release]
  exact hr

/-- Revoking for some clients carries everybody else's sessions on, and cuts off the clients and what they
issued. -/
theorem revokeIssuedBy_cut {clients : List Pk} (hlaws : db.MandateLaws)
    (h : (db.revokeTokensOf clients).revokeIssuedBy clients = (d, .ok ())) :
    Cut db d (db.IsIdOf clients) (fun k => ∃ m, db.mandates.row k = some m ∧ db.IssuedBy clients m)
      ∧ d.MandateLaws ∧ Carries (· ∈ clients) db d := by
  have hcarries : Carries (· ∈ clients) db ((db.revokeTokensOf clients).revokeIssuedBy clients).1 :=
    (Carries.revokeTokensOf clients fun _ hk => hk).trans (revokeEach_carries _ _)
  have hwrites : Writes .free (db.revokeTokensOf clients) ((db.revokeTokensOf clients).revokeIssuedBy clients).1 :=
    revokeIssuedBy_writes clients
  rw [h] at hcarries hwrites
  have hlaws' : (db.revokeTokensOf clients).MandateLaws := ⟨hlaws.shaped, hlaws.parent⟩
  refine ⟨?_, (MandatesKept.writes hlaws' hwrites).1, hcarries⟩
  exact revokeEach_cut (p := fun _ m => m.issuingClient.any clients.contains = true) hlaws h
    fun k m hm hp hlive => mem_pks.mpr ⟨m, hm, by simp [hp, hlive]⟩

/-- Whom the rejection of a client cuts off: under a mandate everybody under it or its children, of an app
the whole installation, and else the client alone. -/
def cutOffClients (db : DB) (client : Pk) (c : Client) : List Pk :=
  match c.mandate with
  | some M => db.clientsOfMandate M
  | none =>
    match c.release, c.membership with
    | some r, some m => db.enrollmentClients m r.organization r.identifier c.node
    | _, _ => [client]

def RejectedMandate (db : DB) (client : Pk) (c : Client) (k : Pk) (m : Mandate) : Prop :=
  match c.mandate with
  | some M => k = M ∨ m.parent = some M
  | none => db.IssuedBy (db.cutOffClients client c) m

/-- The tokens of the rejected clients and what they issued are cut off, and device codes of an installation
deleted. -/
theorem rejectAppInstallation_cut {client : Pk} {c : Client} (hlaws : db.MandateLaws)
    (hc : db.clients.row client = some c)
    (hok : db.rejectAppInstallation client = (d, .ok ())) :
    Cut db d (db.IsIdOf (db.cutOffClients client c))
        (fun k => ∃ m, db.mandates.row k = some m ∧ db.RejectedMandate client c k m)
      ∧ (c.Installed → ∀ k x, d.deviceCodes.row k = some x → (∃ y, d.clients.row x.client = some y) →
        x.client ∉ db.cutOffClients client c) := by
  unfold rejectAppInstallation at hok
  unfold RejectedMandate cutOffClients Client.Installed
  simp only [hc] at hok
  cases hmandate : c.mandate with
  | some M =>
    simp only [hmandate] at hok
    cases hrevoked : db.revokeMandate M .revoked with
    | error e =>
      rw [hrevoked] at hok
      simp [orElseSame, Except.map] at hok
    | ok e =>
      rw [hrevoked] at hok
      obtain rfl : e = d := by simpa [orElseSame, Except.map] using hok
      refine ⟨revokeMandate_cut hrevoked, fun _ k x _ hclient hmem => ?_⟩
      obtain ⟨y, hy⟩ := hclient
      rw [revokeMandate_deletes hrevoked hmem] at hy
      cases hy
  | none =>
    simp only [hmandate] at hok
    dsimp only
    split
    · rename_i r m hr hm
      simp only [hr, hm] at hok
      split at hok
      · simp at hok
      · rename_i e he
        obtain ⟨rfl, -⟩ := Prod.mk.inj hok
        obtain ⟨hcut, hlaws', hcarries⟩ := revokeIssuedBy_cut hlaws he
        refine ⟨hcut.later (.write (.delete _ _ _)) (.write hlaws' (.delete _ _ _)),
          fun _ k x hx hclient hmem => ?_⟩
        -- a code goes with its client, and is deleted while its client is there
        obtain ⟨y, hy⟩ := hclient
        obtain ⟨y₁, hy₁, -⟩ := (delete_shrinks e _ _ _).clients.2 x.client y hy
        obtain ⟨x₁, hx₁, rfl⟩ := (delete_shrinks e _ _ _).deviceCodes.2 k x hx
        have hleft := enrollmentClients_carries hcarries hmem ⟨y₁, hy₁⟩
        have hroot : (⟨.deviceCode, k⟩ : Ref) ∈ (e.deviceCodes.pks fun _ code =>
            (e.enrollmentClients m r.organization r.identifier c.node).contains code.client).map
              fun k => ⟨.deviceCode, k⟩ :=
          List.mem_map.mpr ⟨k, mem_pks.mpr ⟨x, hx₁, by simpa using hleft⟩, rfl⟩
        exact delete_not_has hroot ⟨x, hx⟩
    · rename_i hbare
      have hbare : ¬ (c.release.isSome = true ∧ c.membership.isSome = true) := by
        rintro ⟨hr, hm⟩
        obtain ⟨r, hr⟩ := Option.isSome_iff_exists.mp hr
        obtain ⟨m, hm⟩ := Option.isSome_iff_exists.mp hm
        exact hbare r m hr hm
      refine ⟨?_, fun hinstalled => absurd (hinstalled.resolve_left (by simp)) hbare⟩
      split at hok
      · rename_i r m hr hm
        exact absurd ⟨by rw [hr]; rfl, by rw [hm]; rfl⟩ hbare
      · exact (revokeIssuedBy_cut hlaws hok).1

end DB

/-- A rejection lasts: it leaves no device code of an installation or of the clients under a mandate, and
whatever happens after it, no token of a rejected client that was on file is refreshed again, and no mandate
that it revoked logs anybody in. -/
theorem app_stays_cut_off {env : Env} {db d : DB} {client : Pk} {c : Client} (hdb : Reachable env db)
    (hc : db.clients.row client = some c) (hok : db.rejectAppInstallation client = (d, .ok ()))
    (later : List Action) :
    (c.Installed → ∀ k x, d.deviceCodes.row k = some x → x.client ∉ db.cutOffClients client c)
      ∧ (∀ clientId secret token scope e response, (run env d later).createTokenResponse env
          (.refreshToken clientId secret token scope) = (e, .ok response) →
          ∃ k t, (run env d later).tokens.row k = some t
            ∧ t.refreshToken = some token ∧ ∀ t₀, db.tokens.row k = some t₀ →
              ¬ db.IsIdOf (db.cutOffClients client c) t₀.clientId)
      ∧ ∀ key minted e response, (run env d later).createTokenResponse env
      (.mandateKey key minted) = (e, .ok response) →
        ∃ k x, (run env d later).mandates.row k = some x ∧ x.keyHash = some (env.hashKey key.key)
          ∧ x.membership = response.claims.membership
          ∧ ∀ x₀, db.mandates.row k = some x₀ → ¬ db.RejectedMandate client c k x₀ := by
  have hd : Reachable env d := hdb.step (a := .rejectAppInstallation client) (by simp [step, hok])
  obtain ⟨hcut, hcodes⟩ := DB.rejectAppInstallation_cut hdb.mandateLaws hc hok
  have hall := hcut.run hd later
  refine ⟨fun hinstalled k x hx => hcodes hinstalled k x hx ?_,
    fun clientId secret token scope e response h => hall.refreshes (x := (e, response)) h,
      fun key minted e response h => ?_⟩
  · obtain ⟨y, hy, -⟩ := hd.clientLaws.staged k x hx
    exact ⟨y, hy⟩
  · obtain ⟨k, x, hx, hkey, hsubject, hno⟩ := hall.logsIn (hd.run later) (DB.orElseSame_ok (r := (e, response)) h)
    exact ⟨k, x, hx, hkey, hsubject, fun x₀ hx₀ hrevoked => hno x₀ hx₀ ⟨x₀, hx₀, hrevoked⟩⟩

/-- Ann approved an app, and rejects it. -/
theorem app_stays_cut_off_plain :
    ∃ d c, (run plainEnv .empty (plainSetup [])).rejectAppInstallation 0 = (d, .ok ())
      ∧ (run plainEnv .empty (plainSetup [])).clients.row 0 = some c
      ∧ ∀ k x, d.deviceCodes.row k = some x →
      x.client ∉ (run plainEnv .empty (plainSetup [])).cutOffClients 0 c := by
  have hdb := reachable_run plainEnv (plainSetup [])
  have hok : ((run plainEnv .empty (plainSetup [])).rejectAppInstallation 0).2.isOk = true := by decide +kernel
  have hclient : ((run plainEnv .empty (plainSetup [])).clients.row 0).any
      (fun c => c.release.isSome && c.membership.isSome) = true := by decide +kernel
  generalize run plainEnv .empty (plainSetup []) = db at hdb hok hclient ⊢
  obtain ⟨⟨⟩, hunit⟩ := exists_ok hok
  obtain ⟨c, hc, hinstalled⟩ := (Option.any_eq_true _ _).mp hclient
  exact ⟨_, c, Prod.ext rfl hunit, hc,
    (app_stays_cut_off hdb hc (Prod.ext rfl hunit) []).1 (.inr ((Bool.and_eq_true _ _).mp hinstalled))⟩

end Lok
