import Lok.Deactivation
import Lok.MandateKeys
import Lok.Traces

/-!
# Whoever a token is for has assented

A user assents to a client by approving its device code, by approving the hub that it is
the identity of, or at the authorization endpoint. Clients that take no key, stored codes
and tokens all go back to such an assent, by the user of the very membership they name, so
a token that is answered does too. A mandate key is the other way in: its token is for the
grantor of a mandate that is live.
-/

namespace Lok

open Table Runs Checks

/-- A user lets the client with an id speak for a membership of theirs. -/
structure Assent where
  user : Pk
  clientId : ClientId
  membership : Pk

/-- The action, which succeeds, is a user's assent. -/
inductive Assents (env : Env) (db : DB) : Action → Assent → Prop
  | app {user pk hub m : Pk} {proof : Option Nat} {declined : List String} {allow : Bool} {minted : Option String}
      {d : DB}
      {h : Hub} {g : Membership} {c : Client}
      (hok : db.acceptDeviceCode env user pk proof hub declined allow minted = .ok d)
        (hc : db.codeClient pk = some c)
      (hh : db.hubs.row hub = some h) (hm : db.memberships.row m = some g) (huser : g.user = user)
      (horg : g.organization = h.organization) :
      Assents env db (.acceptDeviceCode user pk proof hub declined allow minted) ⟨user, c.clientId, m⟩
  | hub {user pk organization m : Pk} {proof : Option Nat} {allow : Bool} {minted : Option String} {d : DB}
      {g : Membership}
      {c : Client} (hok : db.acceptHubDeviceCode env user pk proof organization allow minted = .ok d)
      (hc : db.codeClient pk = some c) (hm : db.memberships.row m = some g) (huser : g.user = user)
      (horg : g.organization = organization) :
      Assents env db (.acceptHubDeviceCode user pk proof organization allow minted) ⟨user, c.clientId, m⟩
  | authorize {user organization m pk : Pk} {request : DB.AuthorizationRequest} {r : DB × Nat} {g : Membership}
      {c : Client}
      (hok : db.authorize user organization request = .ok r) (hc : db.queryClient request.clientId = some (pk, c))
      (hm : db.memberships.row m = some g) (huser : g.user = user) (horg : g.organization = organization) :
      Assents env db (.authorize user organization request) ⟨user, c.clientId, m⟩

/-- What an approval or a stored code rests on: an assent, or a client bound there already. -/
def Label.Assented (E : Assent → Prop) (l : Label) : Prop :=
  (∀ before m, l = .bind before m → before.membership = some m ∨ ∃ u, E ⟨u, before.clientId, m⟩)
    ∧ ∀ c m, l = .authorize c m → ∃ u, E ⟨u, c.clientId, m⟩

namespace DB

/-- The id is that of clients that log in with a key only. -/
def KeyedId (db : DB) (id : ClientId) : Prop :=
  ∃ n, id = .uuid n ∧ n < db.draws ∧ ∀ k c, db.clients.row k = some c → c.clientId = id → c.binding.keyed = true

/-- Clients, codes and tokens go back to the assents `E`. -/
structure Assented (E : Assent → Prop) (db : DB) : Prop where
  own : ∀ e, E e → e.membership < db.memberships.next ∧ ∀ g,
    db.memberships.row e.membership = some g → g.user = e.user
  clients : ∀ k c m, db.clients.row k = some c → c.membership = some m → c.binding.keyed = false →
    ∃ u, E ⟨u, c.clientId, m⟩
  codes : ∀ k a, db.authorizationCodes.row k = some a → ∃ u, E ⟨u, a.clientId, a.membership⟩
  tokens : ∀ k t, db.tokens.row k = some t → (∃ u, E ⟨u, t.clientId, t.user⟩) ∨ db.KeyedId t.clientId

variable {db d e : DB} {env : Env} {l : Label} {E : Assent → Prop}

/-! ## What happens to the row of a membership -/

/-- A membership that was on file is its user's in its organization still, or gone. -/
structure MembersKept (db d : DB) : Prop where
  next : db.memberships.next ≤ d.memberships.next
  row : ∀ k g', d.memberships.row k = some g' → k < db.memberships.next → ∃ g, db.memberships.row k = some g
    ∧ g'.user = g.user ∧ g'.organization = g.organization

theorem MembersKept.same (h : d.memberships = db.memberships) : MembersKept db d :=
  ⟨Nat.le_of_eq (by rw [h]), fun _ g hg _ => ⟨g, h ▸ hg, rfl, rfl⟩⟩

theorem MembersKept.refl (db : DB) : MembersKept db db := .same rfl

theorem MembersKept.trans (h : MembersKept db d) (k : MembersKept d e) : MembersKept db e := by
  refine ⟨Nat.le_trans h.next k.next, fun pk g'' hg'' hlt => ?_⟩
  obtain ⟨g', hg', huser', horg'⟩ := k.row pk g'' hg'' (Nat.lt_of_lt_of_le hlt h.next)
  obtain ⟨g, hg, huser, horg⟩ := h.row pk g' hg' hlt
  exact ⟨g, hg, huser'.trans huser, horg'.trans horg⟩

theorem MembersKept.write (hw : Write db l d) : MembersKept db d := by
  cases hw with
  | newMembership m =>
    refine ⟨Nat.le_succ _, fun k g' hg' hlt => ?_⟩
    rcases insert_row_eq_some.mp hg' with ⟨rfl, -⟩ | hg'
    · exact absurd hlt (Nat.lt_irrefl _)
    · exact ⟨g', hg', rfl, rfl⟩
  | memberships ht =>
    refine ⟨Nat.le_of_eq ht.1.symm, fun k g' hg' _ => ?_⟩
    obtain ⟨g, hg, hregrade⟩ := ht.before hg'
    exact ⟨g, hg, hregrade.user, hregrade.organization⟩
  | renameRole hd =>
    obtain ⟨r, l, -, rfl, -⟩ := renameRole_ok hd
    refine ⟨Nat.le_refl _, fun k g' hg' _ => ?_⟩
    obtain ⟨g, hg, rfl⟩ := update_row_eq_some.mp hg'
    refine ⟨g, hg, ?_⟩
    split <;> exact ⟨rfl, rfl⟩
  | delete origin roots upgrading =>
    have hshrinks := (delete_shrinks db origin roots upgrading).memberships
    refine ⟨Nat.le_of_eq hshrinks.1.symm, fun k g' hg' _ => ?_⟩
    obtain ⟨g, hg, huser, horg, -⟩ := hshrinks.2 k g' hg'
    exact ⟨g, hg, huser, horg⟩
  | _ => exact .same rfl

/-! ## Assents -/

theorem Assented.empty : DB.empty.Assented fun _ => False := by
  refine ⟨?_, ?_, ?_, ?_⟩ <;> simp [DB.empty]

theorem Assented.more {F : Assent → Prop} (h : db.Assented E)
    (hF : ∀ e, F e → ∃ g, db.memberships.row e.membership = some g ∧ g.user = e.user) :
    db.Assented fun e => E e ∨ F e where
  own e he := by
    rcases he with he | he
    · exact h.own e he
    · obtain ⟨g, hg, huser⟩ := hF e he
      refine ⟨lt_next hg, fun x hx => ?_⟩
      rw [hg] at hx
      exact Option.some.inj hx ▸ huser
  clients k c m hc hm hkeyed := (h.clients k c m hc hm hkeyed).imp fun _ => .inl
  codes k a ha := (h.codes k a ha).imp fun _ => .inl
  tokens k t ht := (h.tokens k t ht).imp_left fun ⟨u, hu⟩ => ⟨u, .inl hu⟩

/-! ## What a write leaves of the ids that take a key -/

/-- Clients were rewritten or removed, none with another binding in place of its id and its grants. -/
theorem KeyedId.of_clients {id : ClientId} (h : db.KeyedId id) (hdraws : db.draws ≤ d.draws)
    (hclients : ∀ k c', d.clients.row k = some c' → c'.clientId = id →
      ∃ j c, db.clients.row j = some c ∧ c.clientId = c'.clientId ∧ c'.binding.keyed = c.binding.keyed) :
        d.KeyedId id := by
  obtain ⟨n, hid, hn, hkeyed⟩ := h
  refine ⟨n, hid, by omega, fun k c' hc' hc'id => ?_⟩
  obtain ⟨j, c, hc, hsame, hkept⟩ := hclients k c' hc' hc'id
  rw [hkept]
  exact hkeyed j c hc (hsame.trans hc'id)

theorem KeyedId.same {id : ClientId} (h : db.KeyedId id) (hdraws : db.draws ≤ d.draws)
    (hclients : d.clients = db.clients) :
    d.KeyedId id :=
  h.of_clients hdraws fun k c' hc' _ => ⟨k, c', hclients ▸ hc', rfl, rfl⟩

theorem keyed_of_binding {c c' : Client} (hid : c'.clientId = c.clientId)
    (hgrants : c'.binding.grants = c.binding.grants) :
    c'.clientId = c.clientId ∧ c'.binding.keyed = c.binding.keyed :=
  ⟨hid, by unfold Binding.keyed; rw [hgrants]⟩

/-- The clients of an id that one keyed client has all take a key, since they are that client. -/
theorem KeyedId.of_client (hdrawn : Drawn (fun c : Client => c.clientId.number) db.clients db.draws) {k : Pk}
    {c : Client} (hc : db.clients.row k = some c) (hkeyed : c.binding.keyed = true) : db.KeyedId c.clientId := by
  have hminted := Client.minted_of_keyed hkeyed
  cases hid : c.clientId with
  | named name => simp [hid, ClientId.minted] at hminted
  | uuid n =>
    refine ⟨n, rfl, hdrawn.lt k c n hc (by simp [hid, ClientId.number]), fun j x hx hxid => ?_⟩
    have hsame : k = j := hdrawn.unique k j c x n hc hx (by simp [hid, ClientId.number])
      (by simp [hxid, ClientId.number])
    subst hsame
    rw [hc] at hx
    exact Option.some.inj hx ▸ hkeyed

/-! ## Every write -/

theorem Assented.kept_members (h : db.Assented E) (hkept : MembersKept db d) (e : Assent) (he : E e) :
    e.membership < d.memberships.next ∧ ∀ g, d.memberships.row e.membership = some g → g.user = e.user := by
  obtain ⟨hlt, huser⟩ := h.own e he
  refine ⟨Nat.lt_of_lt_of_le hlt hkept.next, fun g' hg' => ?_⟩
  obtain ⟨g, hg, hsame, -⟩ := hkept.row _ g' hg' hlt
  rw [hsame]
  exact huser g hg

theorem Assented.members (h : db.Assented E) (hkept : MembersKept db d) (hdraws : d.draws = db.draws)
    (hclients : d.clients = db.clients) (hcodes : d.authorizationCodes = db.authorizationCodes)
    (htokens : d.tokens = db.tokens) :
    d.Assented E :=
  ⟨h.kept_members hkept, hclients ▸ h.clients, hcodes ▸ h.codes, fun k t ht =>
    (h.tokens k t (htokens ▸ ht)).imp_right fun hkeyed => hkeyed.same (Nat.le_of_eq hdraws.symm) hclients⟩

/-- Clients were rewritten or removed, and the bindings that changed rest on an assent. -/
theorem Assented.rebound (h : db.Assented E) {t : Table Client} {n : Nat} (hn : db.draws ≤ n)
    (hids : ∀ k c', t.row k = some c' → (∃ j c, db.clients.row j = some c ∧ c.clientId = c'.clientId
      ∧ c'.binding.keyed = c.binding.keyed) ∨ ∀ x, c'.clientId = .uuid x → db.draws ≤ x)
    (hbound : ∀ k c' m, t.row k = some c' → c'.membership = some m → c'.binding.keyed = false →
      ∃ u, E ⟨u, c'.clientId, m⟩) :
    ({ db with draws := n, clients := t } : DB).Assented E := by
  refine ⟨h.own, hbound, h.codes, fun k x hx => (h.tokens k x hx).imp_right fun hkeyed => ?_⟩
  refine hkeyed.of_clients hn fun j c' hc' hid => ?_
  rcases hids j c' hc' with hold | hnew
  · exact hold
  · -- a fresh client has an id of its own
    obtain ⟨y, hy, hlt, -⟩ := hkeyed
    have hle := hnew y (hid.trans hy)
    omega

theorem Assented.newClient (h : db.Assented E) {c : Client} {n : Nat} (hn : db.draws ≤ n) (hunbound : c.Unbound)
    (hid : ∀ x, c.clientId = .uuid x → db.draws ≤ x) :
    ({ db with draws := n, clients := db.clients.insert c } : DB).Assented E := by
  refine h.rebound hn (fun k c' hc' => ?_) fun k c' m hc' hm hkeyed => ?_
  · rcases insert_row_eq_some.mp hc' with ⟨-, rfl⟩ | hc'
    · exact .inr hid
    · exact .inl ⟨k, c', hc', rfl, rfl⟩
  · rcases insert_row_eq_some.mp hc' with ⟨-, rfl⟩ | hc'
    · rw [hunbound.1] at hm
      cases hm
    · exact h.clients k c' m hc' hm hkeyed

theorem Assented.put (h : db.Assented E) {pk m : Pk} {c c' : Client} (hc : db.clients.row pk = some c)
    (hid : c'.clientId = c.clientId) (hgrants : c'.binding.grants = c.binding.grants) (hm : c'.membership = some m)
    (hassent : c.binding.keyed = false → ∃ u, E ⟨u, c.clientId, m⟩) :
    ({ db with clients := db.clients.put pk c' } : DB).Assented E := by
  obtain ⟨-, hkeyed⟩ := keyed_of_binding hid hgrants
  refine h.rebound (Nat.le_refl _) (fun k x hx => .inl ?_) fun k x n hx hn hno => ?_
  · rw [put_row] at hx
    by_cases hk : k = pk
    · rw [if_pos hk] at hx
      cases hx
      exact ⟨pk, c, hc, hid.symm, hkeyed⟩
    · rw [if_neg hk] at hx
      exact ⟨k, x, hx, rfl, rfl⟩
  · rw [put_row] at hx
    by_cases hk : k = pk
    · rw [if_pos hk] at hx
      cases hx
      rw [hm] at hn
      cases hn
      rw [hid]
      exact hassent (hkeyed ▸ hno)
    · rw [if_neg hk] at hx
      exact h.clients k x n hx hn hno

theorem Assented.vouched (h : db.Assented E)
    (hdrawn : Drawn (fun c : Client => c.clientId.number) db.clients db.draws)
    {id : ClientId} {m : Pk} (hv : Vouched db id m) : (∃ u, E ⟨u, id, m⟩) ∨ db.KeyedId id := by
  cases hv with
  | @client pk c hc hid hm =>
    subst hid
    cases hkeyed : c.binding.keyed with
    | true => exact .inr (.of_client hdrawn hc hkeyed)
    | false => exact .inl (h.clients pk c m hc hm hkeyed)
  | @code pk a ha hid hm =>
    subst hid hm
    exact .inl (h.codes pk a ha)
  | @token pk t ht hid hm =>
    subst hid hm
    exact h.tokens pk t ht

theorem Assented.delete (h : db.Assented E) (origin : Model) (roots : List Ref) (upgrading : Option Pk) :
    (db.delete origin roots upgrading).Assented E := by
  have hkept : MembersKept db (db.delete origin roots upgrading) := .write (.delete origin roots upgrading)
  have hshrinks := delete_shrinks db origin roots upgrading
  generalize db.delete origin roots upgrading = d at hkept hshrinks ⊢
  have hclients : ∀ k c', d.clients.row k = some c' → ∃ c, db.clients.row k = some c ∧ c'.clientId = c.clientId
      ∧ c'.membership = c.membership ∧ c'.binding.keyed = c.binding.keyed := by
    intro k c' hc'
    obtain ⟨c, hc, hcleared⟩ := hshrinks.clients.2 k c' hc'
    have hb := Cleared.binding hcleared
    exact ⟨c, hc, congrArg Binding.clientId hb, congrArg Binding.membership hb, by rw [hb]⟩
  refine ⟨fun e he => ?_, fun k c' m hc' hm hkeyed => ?_, fun k a ha => ?_, fun k t ht => ?_⟩
  · exact h.kept_members hkept e he
  · obtain ⟨c, hc, hid, hmembership, hsame⟩ := hclients k c' hc'
    rw [hid]
    exact h.clients k c m hc (hmembership ▸ hm) (hsame ▸ hkeyed)
  · obtain ⟨a₀, ha₀, rfl⟩ := hshrinks.authorizationCodes.2 k a ha
    exact h.codes k a ha₀
  · obtain ⟨t₀, ht₀, rfl⟩ := hshrinks.tokens.2 k t ht
    refine (h.tokens k t ht₀).imp_right fun hkeyed => ?_
    refine hkeyed.of_clients (Nat.le_of_eq hshrinks.draws.symm) fun j c' hc' _ => ?_
    obtain ⟨c, hc, hid, -, hsame⟩ := hclients j c' hc'
    exact ⟨j, c, hc, hid.symm, hsame⟩

theorem Assented.issued (h : db.Assented E) {n : Nat} (hn : db.draws ≤ n) {codes : Table AuthorizationCode}
    {tokens : Table OAuth2Token} (hcodes : ∀ k a, codes.row k = some a → ∃ u, E ⟨u, a.clientId, a.membership⟩)
    (htokens : ∀ k t, tokens.row k = some t → (∃ u, E ⟨u, t.clientId, t.user⟩) ∨ db.KeyedId t.clientId) :
    ({ db with draws := n, authorizationCodes := codes, tokens := tokens } : DB).Assented E :=
  ⟨h.own, h.clients, hcodes, fun k t ht => (htokens k t ht).imp_right fun hkeyed => hkeyed.same hn rfl⟩

theorem Assented.write (h : db.Assented E) (hlaws : db.ClientLaws) (hw : Write db l d) (hl : l.Assented E) :
    d.Assented E := by
  cases hw with
  | newMembership m hroles hadmin hnew =>
    exact h.members (.write (.newMembership m hroles hadmin hnew)) rfl rfl rfl rfl
  | memberships ht => exact h.members (.write (.memberships ht)) rfl rfl rfl rfl
  | renameRole hd =>
    have hkept : MembersKept db d := .write (.renameRole hd)
    obtain ⟨r, l, -, rfl, -⟩ := renameRole_ok hd
    exact h.members hkept rfl rfl rfl rfl
  | clients ht =>
    refine h.rebound (Nat.le_refl _) (fun k c' hc' => .inl ?_) fun k c' m hc' hm hkeyed => ?_
    · obtain ⟨c, hc, hb⟩ := ht.before hc'
      exact ⟨k, c, hc, (congrArg Binding.clientId hb).symm, by rw [hb]⟩
    · obtain ⟨c, hc, hb⟩ := ht.before hc'
      have hid : c'.clientId = c.clientId := congrArg Binding.clientId hb
      have hm' : c'.membership = c.membership := congrArg Binding.membership hb
      rw [hid]
      exact h.clients k c m hc (hm' ▸ hm) (hb ▸ hkeyed)
  | newClient c hid hunbound =>
    refine h.newClient (Nat.le_succ _) hunbound fun x hx => ?_
    rw [hid] at hx
    cases hx
    exact Nat.le_refl _
  | newRelyingParty c name hid hunbound =>
    refine h.newClient (Nat.le_refl _) hunbound fun x hx => ?_
    rw [hid] at hx
    cases hx
  | @bindApp pk c c' m o hc hid hgrants _ hm =>
    refine h.put hc hid hgrants hm fun hkeyed => ?_
    rcases hl.1 _ m rfl with hsame | hassent
    · exact h.clients pk c m hc hsame hkeyed
    · exact hassent
  | @bindKeyed pk c c' M x hc hid hgrants _ _ hm _ _ hbefore =>
    refine h.put hc hid hgrants hm fun hkeyed => ?_
    -- only a client that takes a key is under a mandate, or comes under one
    obtain ⟨-, hkey⟩ | ⟨old, o, hold, ho, hsame⟩ := hbefore
    · rw [hkey] at hkeyed
      cases hkeyed
    · obtain ⟨y, hy, hmembership, -⟩ := (hlaws.lawful pk c hc).mandated old hold
      rw [ho] at hy
      cases hy
      exact h.clients pk c x.membership hc (hsame ▸ hmembership) hkeyed
  | delete origin roots upgrading => exact h.delete origin roots upgrading
  | authorize a hc hid =>
    refine h.issued (Nat.le_succ _) (fun k b hb => ?_) h.tokens
    rcases insert_row_eq_some.mp hb with ⟨-, rfl⟩ | hb
    · rw [hid]
      exact hl.2 _ _ rfl
    · exact h.codes k b hb
  | dropCodes p => exact h.issued (Nat.le_refl _) (fun k a ha => h.codes k a (keep_row_eq_some.mp ha).1) h.tokens
  | mint t hvouched =>
    refine h.issued (Nat.le_add_right _ _) h.codes fun k x hx => ?_
    rcases insert_row_eq_some.mp hx with ⟨-, rfl⟩ | hx
    · exact h.vouched hlaws.drawn hvouched
    · exact h.tokens k x hx
  | tokens ht =>
    refine h.issued (Nat.le_refl _) h.codes fun k x hx => ?_
    obtain ⟨t, htrow, r, rfl, -⟩ := ht.before hx
    exact h.tokens k t htrow
  | dropTokens p => exact h.issued (Nat.le_refl _) h.codes fun k t ht => h.tokens k t (keep_row_eq_some.mp ht).1
  | stage | stageMesh =>
    exact ⟨h.own, h.clients, h.codes, fun k t ht => (h.tokens k t ht).imp_right fun hk => hk.same (by simp) rfl⟩
  | _ => exact ⟨h.own, h.clients, h.codes, h.tokens⟩

theorem settle_ne {x : Answer DB} (h : db.settle x ≠ db) : ∃ d, x = .ok d := by
  cases x with
  | ok d => exact ⟨d, rfl⟩
  | error e => exact absurd rfl h

theorem memberOf_row {user organization m : Pk} (h : db.memberOf user organization = some m) :
    ∃ g, db.memberships.row m = some g ∧ g.user = user ∧ g.organization = organization := by
  obtain ⟨r, hr, rfl⟩ := Option.map_eq_some_iff.mp h
  exact ⟨r.2, membershipOf_some hr⟩

end DB

/-! ## Every action -/

/-- What holds of every write holds of whatever an action does, if it is reflexive and transitive. -/
theorem step_relates {R : DB → DB → Prop} (hrefl : ∀ db, R db db) (htrans : ∀ {db d e}, R db d → R d e → R db e)
    (hwrite : ∀ {db d l}, Write db l d → R db d) (env : Env) (db : DB) (a : Action) : R db (step env db a) := by
  cases ha : a.deletes with
  | true => exact step_deletes ha (hrefl db) fun _ _ => hwrite (.delete _ _ _)
  | false => exact Via.relates (R := R) hrefl htrans (fun hw _ => hwrite hw) (step_writes env db ha)

theorem run_relates {R : DB → DB → Prop} (hrefl : ∀ db, R db db) (htrans : ∀ {db d e}, R db d → R d e → R db e)
    (hwrite : ∀ {db d l}, Write db l d → R db d) (env : Env) (as : List Action) : ∀ db, R db (run env db as) := by
  induction as with
  | nil => exact hrefl
  | cons a as ih => exact fun db => htrans (step_relates hrefl htrans hwrite env db a) (ih _)

section

variable {env : Env} {db d : DB} {E : Assent → Prop}

theorem Assents.own {a : Action} {e : Assent} (h : Assents env db a e) :
    ∃ g, db.memberships.row e.membership = some g ∧ g.user = e.user := by
  cases h with
  | app _ _ _ hm huser => exact ⟨_, hm, huser⟩
  | hub _ _ hm huser => exact ⟨_, hm, huser⟩
  | authorize _ _ hm huser => exact ⟨_, hm, huser⟩

/-- An action that is not refused binds and stores codes only with its user's assent. -/
theorem licence_assented {a : Action} {l : Label} (hne : step env db a ≠ db) (hl : (a.licence env db).admits l) :
    l.Assented (Assents env db a) := by
  refine ⟨fun before m heq => ?_, fun c m heq => ?_⟩ <;> subst heq
  · have hl : a.binds db before m := hl
    cases a with
    | acceptDeviceCode user pk proof hub declined allow minted =>
      obtain ⟨⟨h, hh, hm⟩, ⟨hsame, -⟩ | ⟨c, hc, rfl⟩⟩ := hl
      · exact .inl hsame
      · obtain ⟨d, hok⟩ := DB.settle_ne hne
        obtain ⟨g, hg, huser, horg⟩ := DB.memberOf_row hm
        exact .inr ⟨user, .app hok hc hh hg huser horg⟩
    | acceptHubDeviceCode user pk proof organization allow minted =>
      obtain ⟨⟨g, hg, huser, horg⟩, c, hc, rfl⟩ := hl
      obtain ⟨d, hok⟩ := DB.settle_ne hne
      exact .inr ⟨user, .hub hok hc hg huser horg⟩
    | _ => exact hl.elim
  · have hl : a.authorizes db c m := hl
    cases a with
    | authorize user organization request =>
      obtain ⟨⟨pk, hc⟩, hm⟩ := hl
      obtain ⟨d, hok⟩ := DB.settle_ne hne
      obtain ⟨r, hr, -⟩ := map_ok.mp hok
      obtain ⟨g, hg, huser, horg⟩ := DB.memberOf_row hm
      exact ⟨user, .authorize hr hc hg huser horg⟩
    | _ => exact hl.elim

theorem Label.Assented.mono {F : Assent → Prop} {l : Label} (hle : ∀ e, E e → F e) (h : l.Assented E) :
    l.Assented F :=
  ⟨fun before m heq => (h.1 before m heq).imp_right fun ⟨u, hu⟩ => ⟨u, hle _ hu⟩, fun c m heq =>
    (h.2 c m heq).imp fun _ => hle _⟩

theorem step_assented (a : Action) (hlaws : db.ClientLaws) (h : db.Assented E) :
    (step env db a).Assented fun e => E e ∨ Assents env db a e := by
  have hmore : db.Assented fun e => E e ∨ Assents env db a e := h.more fun e he => he.own
  by_cases hsame : step env db a = db
  · rw [hsame]
    exact hmore
  · cases ha : a.deletes with
    | true => exact step_deletes ha hmore fun _ _ => hmore.delete _ _ _
    | false =>
      have hboth : (step env db a).ClientLaws ∧ (step env db a).Assented fun e => E e ∨ Assents env db a e :=
        (step_writes env db ha).invariant
          (I := fun d => d.ClientLaws ∧ d.Assented fun e => E e ∨ Assents env db a e)
          (fun hI hw hl => ⟨hI.1.write hw (licence_binds hlaws a hl),
            hI.2.write hI.1 hw ((licence_assented hsame hl).mono fun _ => .inr)⟩) ⟨hlaws, hmore⟩
      exact hboth.2

theorem run_assented (env : Env) (as : List Action) :
    (run env .empty as).Assented (Traces.Happened (step env) (Assents env) .empty as) := by
  have hboth : (run env .empty as).ClientLaws
      ∧ (run env .empty as).Assented (Traces.Happened (step env) (Assents env) .empty as) :=
    Traces.history (I := fun E (db : DB) => db.ClientLaws ∧ db.Assented E)
      (fun E db a h => ⟨step_clientLaws a h.1, step_assented a h.1 h.2⟩) ⟨.empty, .empty⟩ as
  exact hboth.2

end

/-! ## Every token -/

namespace DB

variable {db d : DB} {env : Env} {E : Assent → Prop}

theorem keyed_of_grant {c : Client} {grant : GrantType} (hgrant : c.checkGrantType grant = true)
    (hother : grant ≠ .mandateKey) :
    c.binding.keyed = false := by
  unfold Client.checkGrantType at hgrant
  unfold Binding.keyed Client.binding
  split
  · by_cases hkey : c.grantTypes = [.mandateKey]
    · rw [hkey] at hgrant
      exact absurd (by simpa using hgrant) hother
    · simpa using hkey
  · rfl

theorem assent_of_client {k m : Pk} {c : Client} {grant : GrantType} (hc : db.clients.row k = some c)
    (hgrant : c.checkGrantType grant = true) (hother : grant ≠ .mandateKey)
    (h : (∃ u, E ⟨u, c.clientId, m⟩) ∨ db.KeyedId c.clientId) : ∃ u, E ⟨u, c.clientId, m⟩ := by
  refine h.resolve_right fun hid => ?_
  obtain ⟨n, -, -, hkeyed⟩ := hid
  have hno := keyed_of_grant hgrant hother
  rw [hkeyed k c hc rfl] at hno
  cases hno

/-- The client of a grant and the membership it was answered for are those of an assent. -/
theorem Assented.answered (h : db.Assented E) (hlaws : db.ClientLaws) {request : TokenRequest}
    {response : TokenResponse}
    (hother : ∀ key minted, request ≠ .mandateKey key minted)
    (hok : db.createTokenResponse env request = (d, .ok response)) :
    ∃ c g, db.clients.row response.client = some c ∧ db.memberships.row response.claims.membership = some g
      ∧ response.claims.user = g.user ∧ ∃ u, E ⟨u, c.clientId, response.claims.membership⟩ := by
  cases request with
  | deviceCode clientId secret =>
    obtain ⟨pk, c, codePk, code, k, m, x, t, hclient, -, -, -, -, hk, hid, hm, hsaved, hr⟩ :=
      pollDeviceCode_ok (r := (d, response)) hok
    obtain ⟨-, rfl⟩ := Prod.mk.inj hr
    obtain ⟨hc, hgrant⟩ := clientFor_ok hclient
    obtain ⟨g, hg, hclaims⟩ := hsaved.claims
    have hvouched := h.vouched hlaws.drawn (.client hk hid hm)
    rw [show x.2.client = pk from hsaved.client, hclaims]
    exact ⟨c, g, hc, hg, rfl, assent_of_client hc hgrant (by simp) hvouched⟩
  | authorizationCode clientId secret code uri verifier =>
    obtain ⟨pk, c, codePk, item, u, x, t, hclient, hquery, -, -, hsaved, hr⟩ :=
      exchangeCode_ok (orElseSame_ok (r := (d, response)) hok)
    obtain ⟨-, rfl⟩ := Prod.mk.inj hr
    obtain ⟨hc, hgrant⟩ := clientFor_ok hclient
    obtain ⟨hrow, -, hid, -⟩ := queryAuthorizationCode_some hquery
    obtain ⟨g, hg, hclaims⟩ := hsaved.claims
    have hvouched := h.vouched hlaws.drawn (.code hrow hid rfl)
    rw [show x.2.client = pk from hsaved.client, hclaims]
    exact ⟨c, g, hc, hg, rfl, assent_of_client hc hgrant (by simp) hvouched⟩
  | refreshToken clientId secret token scope =>
    obtain ⟨pk, c, tokenPk, t, hclient, hrow, -, -, hid, hrotate⟩ := refresh_ok (r := (d, response)) hok
    obtain ⟨x, n, asked, -, hsaved, hr⟩ := rotate_ok hrotate
    obtain ⟨-, rfl⟩ := Prod.mk.inj hr
    obtain ⟨hc, hgrant⟩ := clientFor_ok hclient
    obtain ⟨g, hg, hclaims⟩ := hsaved.claims
    have hvouched := h.vouched hlaws.drawn (.token hrow hid rfl)
    rw [show x.2.client = pk from hsaved.client, hclaims]
    exact ⟨c, g, hc, hg, rfl, assent_of_client hc hgrant (by simp) hvouched⟩
  | mandateKey key minted => exact absurd rfl (hother key minted)

end DB

/-- Every token that is answered is for a membership whose user assented earlier in the run to its client's
speaking for it. Only a mandate key needs no assent: its token is for the grantor of the live mandate with
that key. -/
theorem answered_with_assent (env : Env) (as : List Action) {request : TokenRequest} {d : DB}
    {response : TokenResponse}
    (h : (run env .empty as).createTokenResponse env request = (d, .ok response)) :
    (∃ c, (run env .empty as).clients.row response.client = some c ∧ ∃ past a later, as = past ++ a :: later
        ∧ Assents env (run env .empty past) a ⟨response.claims.user, c.clientId, response.claims.membership⟩)
      ∨ ∃ key minted pk mandate, request = .mandateKey key minted
      ∧ (run env .empty as).mandates.row pk = some mandate
        ∧ mandate.keyHash = some (env.hashKey key.key) ∧ (run env .empty as).isLive mandate = true
        ∧ response.claims.membership = mandate.membership := by
  have hassented := run_assented env as
  have hdb := reachable_run env as
  by_cases hkey : ∃ key minted, request = .mandateKey key minted
  · obtain ⟨key, minted, rfl⟩ := hkey
    obtain ⟨pk, mandate, hadmitted, hsubject⟩ :=
      DB.mandateKeyGrant_subject hdb (DB.orElseSame_ok (r := (d, response)) h)
    have hlive := hadmitted.live
    simp only [DB.assertLive, bind_ok, require_ok, exists_unit] at hlive
    exact .inr ⟨key, minted, pk, mandate, rfl, hadmitted.row, hadmitted.key, hlive.1, hsubject⟩
  · obtain ⟨c, g, hc, hg, huser, u, hu⟩ := hassented.answered hdb.clientLaws
      (fun key minted heq => hkey ⟨key, minted, heq⟩) h
    have hsame : g.user = u := (hassented.own _ hu).2 g hg
    rw [huser, hsame]
    exact .inl ⟨c, hc, hu.split⟩

theorem answered_with_assent_sign_in :
    ∃ d response c, (run plainEnv .empty (signIn ["email"])).createTokenResponse plainEnv
    signInExchange = (d, .ok response)
      ∧ (run plainEnv .empty (signIn ["email"])).clients.row response.client = some c
      ∧ ∃ past a later, signIn ["email"] = past ++ a :: later
        ∧ Assents plainEnv (run plainEnv .empty past) a
        ⟨response.claims.user, c.clientId, response.claims.membership⟩ := by
  have hok : ((run plainEnv .empty (signIn ["email"])).createTokenResponse plainEnv signInExchange).2.toOption.any
      (fun _ => true) = true := by decide +kernel
  obtain ⟨response, hresponse, -⟩ := exists_ok_and hok
  obtain ⟨c, hc, hassent⟩ | ⟨key, minted, _, _, heq, -⟩ := answered_with_assent plainEnv (signIn ["email"])
    (Prod.ext rfl hresponse)
  · exact ⟨_, response, c, Prod.ext rfl hresponse, hc, hassent⟩
  · cases heq

end Lok
