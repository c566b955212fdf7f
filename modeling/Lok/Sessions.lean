import Lok.Approvals
import Lok.HubSteps
import Lok.Sidecars

/-!
# Who keeps a session

What backs a sidecar is a session: a refresh chain, the grace of a new client, or a mandate.
A deletion or a revocation ends the sessions of the clients it takes along or names. Everybody
else's stay, as long as a client's tokens are for the membership it is bound to: those are
the tokens that go when the client does.
-/

namespace Lok

open Table Checks

/-- The same client, bound the same way. -/
structure Client.Same (c c' : Client) : Prop where
  clientId : c'.clientId = c.clientId
  createdAt : c'.createdAt = c.createdAt
  mandate : c'.mandate = c.mandate
  membership : c'.membership = c.membership
  release : c'.release = c.release
  node : c'.node = c.node

theorem Client.Same.refl (c : Client) : c.Same c := ⟨rfl, rfl, rfl, rfl, rfl, rfl⟩

theorem Client.Same.trans {a b c : Client} (h : a.Same b) (k : b.Same c) : a.Same c :=
  ⟨k.clientId.trans h.clientId, k.createdAt.trans h.createdAt, k.mandate.trans h.mandate,
   k.membership.trans h.membership,
    k.release.trans h.release, k.node.trans h.node⟩

theorem Client.Same.standsFor {c c' : Client} (h : c.Same c') (membership : Pk) (app : App) (device : Option Pk) :
    Lok.standsFor membership app device c' = Lok.standsFor membership app device c := by
  simp only [Lok.standsFor, AppMeshEnrollment.standsFor, h.membership, h.release, h.node]

namespace DB

variable {db d e : DB} {roots : List Ref}

/-- Bound clients and the identities of hubs were minted, each under an id and for a hub of its own, and the
tokens under the id are for the membership the client is bound to. -/
structure Tidy (db : DB) : Prop where
  minted : ∀ k c m, db.clients.row k = some c → c.membership = some m → c.clientId.minted = true
  member : ∀ k c m, db.clients.row k = some c → c.membership = some m → ∃ x, db.memberships.row m = some x
  unique : ∀ j k b c, db.clients.row j = some b → db.clients.row k = some c → b.clientId = c.clientId →
    b.clientId.minted = true → j = k
  owned : ∀ k c pk t, db.clients.row k = some c → c.clientId.minted = true → db.tokens.row pk = some t →
    t.clientId = c.clientId → c.membership = some t.user
  identity : ∀ h x k c, db.hubs.row h = some x → x.client = some k → db.clients.row k = some c →
    c.clientId.minted = true
  hubs : ∀ i j x y k, db.hubs.row i = some x → db.hubs.row j = some y → x.client = some k →
    y.client = some k → i = j

/-- Nobody logs in anew: clients and tokens go at most, a hub loses its identity only with the client, and
whoever is still there has the session it had, unless it is one of `ended`. -/
structure Carries (ended : Pk → Prop) (db d : DB) : Prop where
  now : d.now = db.now
  clients : ∀ k c', d.clients.row k = some c' → ∃ c, db.clients.row k = some c ∧ c.Same c'
  tokens : ∀ pk t', d.tokens.row pk = some t' → ∃ t, db.tokens.row pk = some t ∧ t'.user = t.user
    ∧ t'.clientId = t.clientId
  members : ∀ k c m x, d.clients.row k = some c → c.membership = some m → db.memberships.row m = some x →
    ∃ x', d.memberships.row m = some x'
  sessions : db.Tidy → ∀ grace k c c', db.clients.row k = some c → d.clients.row k = some c' →
    c.clientId.minted = true →
    ¬ ended k → db.withSession grace c = true → d.withSession grace c' = true
  next : db.hubs.next ≤ d.hubs.next
  hubs : ∀ h x', d.hubs.row h = some x' →
    (∃ x, db.hubs.row h = some x
      ∧ (x'.client = x.client ∨ x'.client = none ∧ ∃ k, x.client = some k ∧ d.clients.row k = none))
      ∨ db.hubs.next ≤ h ∧ x'.client = none

namespace Carries

variable {ended : Pk → Prop}

theorem refl (ended : Pk → Prop) (db : DB) : Carries ended db db where
  now := rfl
  clients k c hc := ⟨c, hc, .refl c⟩
  tokens pk t ht := ⟨t, ht, rfl, rfl⟩
  members _ _ _ x _ _ hx := ⟨x, hx⟩
  sessions _ grace k c c' hc hc' _ _ h := by
    rw [hc] at hc'
    cases hc'
    exact h
  next := Nat.le_refl _
  hubs _ x hx := .inl ⟨x, hx, .inl rfl⟩

theorem before (h : Carries ended db d) {i k : Pk} {x' : Hub} (hx' : d.hubs.row i = some x')
    (hk : x'.client = some k) :
    ∃ x, db.hubs.row i = some x ∧ x.client = some k := by
  rcases h.hubs i x' hx' with ⟨x, hx, hclient | ⟨hnone, -⟩⟩ | ⟨-, hnone⟩
  · exact ⟨x, hx, hclient ▸ hk⟩
  · rw [hnone] at hk
    cases hk
  · rw [hnone] at hk
    cases hk

theorem tidy (h : Carries ended db d) (htidy : db.Tidy) : d.Tidy where
  identity i x' k c' hx' hk hc' := by
    obtain ⟨x, hx, hclient⟩ := h.before hx' hk
    obtain ⟨c, hc, hsame⟩ := h.clients k c' hc'
    rw [hsame.clientId]
    exact htidy.identity i x k c hx hclient hc
  hubs i j x' y' k hx' hy' hkx hky := by
    obtain ⟨x, hx, hclient⟩ := h.before hx' hkx
    obtain ⟨y, hy, hclient'⟩ := h.before hy' hky
    exact htidy.hubs i j x y k hx hy hclient hclient'
  minted k c m hc hm := by
    obtain ⟨c₀, hc₀, hsame⟩ := h.clients k c hc
    rw [hsame.clientId]
    exact htidy.minted k c₀ m hc₀ (hsame.membership ▸ hm)
  member k c m hc hm := by
    obtain ⟨c₀, hc₀, hsame⟩ := h.clients k c hc
    obtain ⟨x, hx⟩ := htidy.member k c₀ m hc₀ (hsame.membership ▸ hm)
    exact h.members k c m x hc hm hx
  unique j k b c hb hc hid hminted := by
    obtain ⟨b₀, hb₀, hsame⟩ := h.clients j b hb
    obtain ⟨c₀, hc₀, hsame'⟩ := h.clients k c hc
    refine htidy.unique j k b₀ c₀ hb₀ hc₀ ?_ (hsame.clientId ▸ hminted)
    rw [← hsame.clientId, ← hsame'.clientId, hid]
  owned k c pk t hc hminted ht hid := by
    obtain ⟨c₀, hc₀, hsame⟩ := h.clients k c hc
    obtain ⟨t₀, ht₀, huser, hid₀⟩ := h.tokens pk t ht
    rw [hsame.membership, huser]
    refine htidy.owned k c₀ pk t₀ hc₀ (hsame.clientId ▸ hminted) ht₀ ?_
    rw [← hid₀, hid, hsame.clientId]

theorem gone (h : Carries ended db d) {k : Pk} (hk : db.clients.row k = none) : d.clients.row k = none := by
  refine Option.eq_none_iff_forall_ne_some.mpr fun c hc => ?_
  obtain ⟨c₀, hc₀, -⟩ := h.clients k c hc
  rw [hk] at hc₀
  cases hc₀

theorem trans (h : Carries ended db e) (k : Carries ended e d) : Carries ended db d where
  now := k.now.trans h.now
  clients j c' hc' := by
    obtain ⟨c₁, hc₁, hsame₁⟩ := k.clients j c' hc'
    obtain ⟨c, hc, hsame⟩ := h.clients j c₁ hc₁
    exact ⟨c, hc, hsame.trans hsame₁⟩
  tokens pk t' ht' := by
    obtain ⟨t₁, ht₁, huser₁, hid₁⟩ := k.tokens pk t' ht'
    obtain ⟨t, ht, huser, hid⟩ := h.tokens pk t₁ ht₁
    exact ⟨t, ht, huser₁.trans huser, hid₁.trans hid⟩
  members j c m x hc hm hx := by
    obtain ⟨c₁, hc₁, hsame⟩ := k.clients j c hc
    obtain ⟨x₁, hx₁⟩ := h.members j c₁ m x hc₁ (hsame.membership ▸ hm) hx
    exact k.members j c m x₁ hc hm hx₁
  sessions htidy grace j c c' hc hc' hminted hended hsession := by
    obtain ⟨c₁, hc₁, -⟩ := k.clients j c' hc'
    obtain ⟨c₀, hc₀, hsame⟩ := h.clients j c₁ hc₁
    rw [hc] at hc₀
    cases hc₀
    exact k.sessions (h.tidy htidy) grace j c₁ c' hc₁ hc' (by rw [hsame.clientId]; exact hminted) hended
      (h.sessions htidy grace j c c₁ hc hc₁ hminted hended hsession)
  next := Nat.le_trans h.next k.next
  hubs j x' hx' := by
    rcases k.hubs j x' hx' with ⟨x₁, hx₁, hclient₁⟩ | ⟨hj, hnone⟩
    · rcases h.hubs j x₁ hx₁ with ⟨x, hx, hclient⟩ | ⟨hj, hnone⟩
      · refine .inl ⟨x, hx, ?_⟩
        rcases hclient with hclient | ⟨hnone, i, hi, hgone⟩
        · rw [← hclient]
          exact hclient₁
        · refine .inr ⟨?_, i, hi, k.gone hgone⟩
          rcases hclient₁ with hclient₁ | ⟨hnone₁, -⟩
          · exact hclient₁.trans hnone
          · exact hnone₁
      · refine .inr ⟨hj, ?_⟩
        rcases hclient₁ with hclient₁ | ⟨hnone₁, -⟩
        · exact hclient₁.trans hnone
        · exact hnone₁
    · exact .inr ⟨Nat.le_trans h.next hj, hnone⟩

theorem mono {ended' : Pk → Prop} (h : Carries ended db d)
    (hle : ∀ k, ended k → ended' k ∨ d.clients.row k = none) :
    Carries ended' db d where
  now := h.now
  clients := h.clients
  tokens := h.tokens
  members := h.members
  sessions htidy grace k c c' hc hc' hminted hended hsession := by
    refine h.sessions htidy grace k c c' hc hc' hminted (fun hk => ?_) hsession
    rcases hle k hk with hk | hgone
    · exact hended hk
    · rw [hgone] at hc'
      cases hc'
  next := h.next
  hubs := h.hubs

end Carries

/-! ## What a session depends on -/

theorem mandateHolds_of (db d : DB) {grace : Time} {m m' : Mandate} (hnow : d.now = db.now)
    (hrevoked : m'.revokedAt = m.revokedAt)
    (hexpires : m'.expiresAt = m.expiresAt)
    (hmember : ∀ x, db.memberships.row m.membership = some x → ∃ x', d.memberships.row m'.membership = some x'
      ∧ x'.user = x.user
      ∧ ∀ u, db.users.row x.user = some u → d.users.row x.user = some u)
    (h : db.mandateHolds grace m = true) : d.mandateHolds grace m' = true := by
  simp only [mandateHolds, Bool.and_eq_true, Option.any_eq_true] at h ⊢
  obtain ⟨⟨hunrevoked, x, hx, u, hu, hactive⟩, hexpiry⟩ := h
  obtain ⟨x', hx', huser, husers⟩ := hmember x hx
  refine ⟨⟨by rw [hrevoked]; exact hunrevoked, x', hx', u, ?_, hactive⟩, by rw [hexpires, hnow]; exact hexpiry⟩
  rw [huser]
  exact husers u hu

theorem withSession_of (db d : DB) {grace : Time} {c c' : Client} (hnow : d.now = db.now)
    (hclient : c'.clientId = c.clientId)
    (hcreated : c'.createdAt = c.createdAt) (hkey : c'.mandate = c.mandate)
    (hkept : c.mandate = none → ∀ pk t, db.tokens.row pk = some t → t.clientId = c.clientId →
      d.tokens.row pk = some t)
    (hback : ∀ pk t', d.tokens.row pk = some t' → ∃ t, db.tokens.row pk = some t ∧ t'.user = t.user
      ∧ t'.clientId = t.clientId)
    (hmandate : ∀ M m, c.mandate = some M → db.mandates.row M = some m → db.mandateHolds grace m = true →
      ∃ m', d.mandates.row M = some m' ∧ d.mandateHolds grace m' = true)
    (h : db.withSession grace c = true) : d.withSession grace c' = true := by
  unfold withSession at h ⊢
  rw [hkey]
  cases hM : c.mandate with
  | some M =>
    simp only [hM, Option.any_eq_true] at h ⊢
    obtain ⟨m, hm, hholds⟩ := h
    exact hmandate M m hM hm hholds
  | none =>
    simp only [hM, hasSession, Bool.or_eq_true, exists?_eq_true, Bool.and_eq_true, beq_iff_eq] at h ⊢
    rcases h with ⟨pk, t, ht, hid, hholds⟩ | hfresh
    · refine .inl ⟨pk, t, hkept hM pk t ht hid, hid.trans hclient.symm, ?_⟩
      unfold chainHolds at hholds ⊢
      rw [hnow]
      exact hholds
    · refine .inr ?_
      simp only [isFresh, Bool.and_eq_true, Bool.not_eq_true', decide_eq_true_eq] at hfresh ⊢
      refine ⟨exists?_eq_false.mpr fun pk t' ht' => ?_, by rw [hnow, hcreated]; exact hfresh.2⟩
      -- a client that never polled still has not
      obtain ⟨t, ht, -, hid⟩ := hback pk t' ht'
      have := exists?_eq_false.mp hfresh.1 pk t ht
      rw [hid, hclient]
      exact this

theorem Carries.untouched {ended : Pk → Prop} (hnow : d.now = db.now) (husers : d.users = db.users)
    (htokens : d.tokens = db.tokens)
    (hmandates : d.mandates = db.mandates)
    (hclients : ∀ k c', d.clients.row k = some c' → ∃ c, db.clients.row k = some c ∧ c.Same c')
    (hmemberships : ∀ k m, db.memberships.row k = some m → ∃ m', d.memberships.row k = some m' ∧ m'.user = m.user)
    (hnext : db.hubs.next ≤ d.hubs.next)
    (hhubs : ∀ h x', d.hubs.row h = some x' →
      (∃ x, db.hubs.row h = some x ∧ x'.client = x.client) ∨ db.hubs.next ≤ h ∧ x'.client = none) :
    Carries ended db d where
  now := hnow
  clients := hclients
  tokens pk t ht := ⟨t, htokens ▸ ht, rfl, rfl⟩
  members _ _ m x _ _ hx := by
    obtain ⟨x', hx', -⟩ := hmemberships m x hx
    exact ⟨x', hx'⟩
  sessions _ grace k c c' hc hc' _ _ hsession := by
    obtain ⟨c₀, hc₀, hsame⟩ := hclients k c' hc'
    rw [hc] at hc₀
    cases hc₀
    refine withSession_of db d hnow hsame.clientId hsame.createdAt hsame.mandate
      (fun _ pk t ht _ => by rw [htokens]; exact ht)
      (fun pk t ht => ⟨t, htokens ▸ ht, rfl, rfl⟩)
        (fun M m _ hm hholds => ⟨m, by rw [hmandates]; exact hm, ?_⟩) hsession
    refine mandateHolds_of db d hnow rfl rfl (fun x hx => ?_) hholds
    obtain ⟨x', hx', huser⟩ := hmemberships _ x hx
    exact ⟨x', hx', huser, fun u hu => by rw [husers]; exact hu⟩
  next := hnext
  hubs h x' hx' := (hhubs h x' hx').imp_left fun ⟨x, hx, hclient⟩ => ⟨x, hx, .inl hclient⟩

theorem Beside.carries {ended : Pk → Prop} (h : Beside db d) : Carries ended db d :=
  .untouched h.now h.users h.tokens h.mandates (fun _ c hc => ⟨c, h.clients ▸ hc, .refl c⟩)
    h.memberships h.next h.hubs

/-! ## Deleting -/

theorem removeCascade_token (hroots : ∀ r ∈ roots, r.model ≠ .token) {pk : Pk} {t : OAuth2Token}
    (ht : db.tokens.row pk = some t) :
    (db.removeCascade roots).has ⟨.token, pk⟩ ∨ ¬ (db.removeCascade roots).has ⟨.membership, t.user⟩ := by
  by_cases hgone : (⟨.token, pk⟩ : Ref) ∈ db.collect roots
  · refine .inr ?_
    cases Closure.mem_closure.mp hgone with
    | root h => exact absurd rfl (hroots _ h)
    | hangs _ hp hreached =>
      simp only [hangsOn, ht, Option.elim_some, OAuth2Token.hangsOn, List.mem_singleton] at hp
      subst hp
      exact not_has_remove (Closure.mem_closure.mpr hreached)
  · exact .inl (remove_has ⟨t, ht⟩ hgone)

theorem delete_token (hroots : ∀ r ∈ roots, r.model ≠ .token) {origin : Model} {upgrading : Option Pk} {pk : Pk}
    {t : OAuth2Token} (ht : db.tokens.row pk = some t)
    (hmember : (db.delete origin roots upgrading).has ⟨.membership, t.user⟩) :
    (db.delete origin roots upgrading).tokens.row pk = some t := by
  have hcascade : ∀ (d : DB) (rs : List Ref), (∀ r ∈ rs, r.model ≠ .token) → Shrinks db d ∧
      (d.has ⟨.token, pk⟩ ∨ ¬ d.has ⟨.membership, t.user⟩) → Shrinks db (d.removeCascade rs) ∧
      ((d.removeCascade rs).has ⟨.token, pk⟩ ∨ ¬ (d.removeCascade rs).has ⟨.membership, t.user⟩) := by
    intro d rs hrs ⟨hshrinks, hd⟩
    refine ⟨hshrinks.trans (remove_shrinks _ _), ?_⟩
    rcases hd with ⟨t', ht'⟩ | hnone
    · obtain ⟨t₀, ht₀, rfl⟩ := hshrinks.tokens.2 pk t' ht'
      rw [ht] at ht₀
      cases ht₀
      exact removeCascade_token hrs ht'
    · exact .inr (not_has_of_shrinks (remove_shrinks _ _) hnone)
  have hdelete : Shrinks db (db.delete origin roots upgrading)
    ∧ ((db.delete origin roots upgrading).has ⟨.token, pk⟩
      ∨ ¬ (db.delete origin roots upgrading).has ⟨.membership, t.user⟩) := by
    refine delete_induct_sync
      (P := fun d : DB => Shrinks db d ∧ (d.has ⟨.token, pk⟩ ∨ ¬ d.has ⟨.membership, t.user⟩))
      (fun d m => hcascade d _ (by simp)) (fun d c => hcascade d _ (by simp)) ?_
    obtain ⟨hshrinks, h⟩ := hcascade db roots hroots ⟨.refl db, .inl ⟨t, ht⟩⟩
    refine ⟨hshrinks.trans (syncAdmin_shrinks _ _), h.imp syncAdmin_has fun hnone => ?_⟩
    exact not_has_of_shrinks (syncAdmin_shrinks _ _) hnone
  obtain ⟨t', ht'⟩ := hdelete.2.resolve_right fun hnone => hnone hmember
  obtain ⟨t₀, ht₀, rfl⟩ := hdelete.1.tokens.2 pk t' ht'
  rw [ht] at ht₀
  cases ht₀
  exact ht'

/-- Clients are left as they are or go, and a hub's identity is cleared with the client. -/
structure Clears (db d : DB) : Prop where
  clients : ∀ k c', d.clients.row k = some c' → ∃ c, db.clients.row k = some c ∧ c.Same c'
  hubs : ∀ h x', d.hubs.row h = some x' →
    ∃ x, db.hubs.row h = some x
      ∧ (x'.client = x.client ∨ x'.client = none ∧ ∃ k, x.client = some k ∧ d.clients.row k = none)

theorem Clears.removeCascade {S : List Model} (h : Clears db d) (hS : Within S) (hroots : ∀ r ∈ roots, r.model ∈ S)
    (hdevice : .device ∉ S) : Clears db (d.removeCascade roots) := by
  have hgone : ∀ k, d.clients.row k = none → (d.removeCascade roots).clients.row k = none := fun k hk =>
    Table.Shrinks.row_none (remove_shrinks d _).clients hk
  refine ⟨fun k c' hc' => ?_, fun j x' hx' => ?_⟩
  · obtain ⟨c₁, hc₁, rfl⟩ := update_row_eq_some.mp hc'
    obtain ⟨c, hc, hsame⟩ := h.clients k c₁ (keep_row_eq_some.mp hc₁).1
    refine ⟨c, hc, hsame.trans ⟨rfl, rfl, rfl, rfl, rfl, ?_⟩⟩
    exact keepOpt_eq_self fun r hr heq => hdevice (heq ▸ collect_within hS hroots hr)
  · obtain ⟨x₁, hx₁, rfl⟩ := update_row_eq_some.mp hx'
    obtain ⟨x, hx, hclient⟩ := h.hubs j x₁ (keep_row_eq_some.mp hx₁).1
    refine ⟨x, hx, ?_⟩
    rcases hclient with hclient | ⟨hnone, k, hk, hrow⟩
    · cases hk : x.client with
      | none => exact .inl (by simp [hclient, hk, keepOpt])
      | some k =>
        by_cases hmem : (⟨.client, k⟩ : Ref) ∈ d.collect roots
        · refine .inr ⟨by simp [hclient, hk, keepOpt, Option.filter, hmem], k, rfl,
            Option.eq_none_iff_forall_ne_some.mpr fun c hc => ?_⟩
          exact not_has_remove hmem ⟨c, hc⟩
        · exact .inl (by simp [hclient, hk, keepOpt, Option.filter, hmem])
    · exact .inr ⟨by simp [hnone, keepOpt], k, hk, hgone k hrow⟩

theorem delete_clears (hroots : ∀ r ∈ roots, r.model ∈ withHubs) (origin : Model) (upgrading : Option Pk) :
    Clears db (db.delete origin roots upgrading) := by
  have hrefl : Clears db db := ⟨fun k c hc => ⟨c, hc, .refl c⟩, fun _ x hx => ⟨x, hx, .inl rfl⟩⟩
  refine delete_induct_sync (P := fun d : DB => Clears db d)
    (fun d m hd => hd.removeCascade withMemberships_within (by simp [withMemberships]) (by decide))
    (fun d c hd => hd.removeCascade withClients_within (by simp [withClients]) (by decide)) ?_
  have hcascade := hrefl.removeCascade withHubs_within hroots (by decide)
  exact ⟨hcascade.clients, hcascade.hubs⟩

theorem Carries.delete {ended : Pk → Prop} (hroots : ∀ r ∈ roots, r.model ∈ withHubs ∧ r.model ≠ .token)
    (origin : Model) (upgrading : Option Pk) : Carries ended db (db.delete origin roots upgrading) := by
  have hshrinks := delete_shrinks db origin roots upgrading
  have hclears : Clears db (db.delete origin roots upgrading) :=
    delete_clears (fun r hr => (hroots r hr).1) origin upgrading
  have htarget : ∀ {x p}, p ∈ (db.delete origin roots upgrading).hangsOn x → db.has p →
      (db.delete origin roots upgrading).has p := fun hx hp => delete_target hx hp
  have hnottoken : ∀ r ∈ roots, r.model ≠ .token := fun r hr => (hroots r hr).2
  have hkept : ∀ {pk t}, db.tokens.row pk = some t → (db.delete origin roots upgrading).has ⟨.membership, t.user⟩ →
      (db.delete origin roots upgrading).tokens.row pk = some t := fun ht hm => delete_token hnottoken ht hm
  generalize db.delete origin roots upgrading = d at *
  have htokens : ∀ pk t', d.tokens.row pk = some t' →
      ∃ t, db.tokens.row pk = some t ∧ t'.user = t.user ∧ t'.clientId = t.clientId := by
    intro pk t' ht'
    obtain ⟨t, ht, rfl⟩ := hshrinks.tokens.2 pk t' ht'
    exact ⟨_, ht, rfl, rfl⟩
  have hmembers : ∀ k c m x, d.clients.row k = some c → c.membership = some m → db.memberships.row m = some x →
      d.has ⟨.membership, m⟩ := by
    intro k c m x hc hm hx
    exact htarget (x := ⟨.client, k⟩) (by simp [hangsOn, hc, Client.hangsOn, hm]) ⟨x, hx⟩
  refine ⟨hshrinks.now, hclears.clients, htokens, hmembers, fun htidy grace k c c' hc hc' hminted _ hsession => ?_,
    Nat.le_of_eq hshrinks.hubs.1.symm, fun h x' hx' => .inl (hclears.hubs h x' hx')⟩
  obtain ⟨c₀, hc₀, hsame⟩ := hclears.clients k c' hc'
  rw [hc] at hc₀
  cases hc₀
  refine withSession_of db d hshrinks.now hsame.clientId hsame.createdAt hsame.mandate
    (fun _ pk t ht hid => ?_) htokens (fun M m hM hm hholds => ?_) hsession
  · -- its tokens are for its own membership, which stays where the client does
    have howned := htidy.owned k c pk t hc hminted ht hid
    obtain ⟨x, hx⟩ := htidy.member k c _ hc howned
    exact hkept ht (hmembers k c' _ x hc' (hsame.membership.trans howned) hx)
  · have hM' : c'.mandate = some M := hsame.mandate.trans hM
    obtain ⟨m', hm'⟩ := htarget (x := ⟨.client, k⟩) (p := ⟨.mandate, M⟩)
      (by simp [hangsOn, hc', Client.hangsOn, hM']) ⟨m, hm⟩
    obtain ⟨m₀, hm₀, heq⟩ := hshrinks.mandates.2 M m' hm'
    rw [hm] at hm₀
    cases hm₀
    rw [heq] at hm'
    refine ⟨m, hm', mandateHolds_of db d hshrinks.now rfl rfl (fun x hx => ?_) hholds⟩
    obtain ⟨x', hx'⟩ := htarget (x := ⟨.mandate, M⟩) (p := ⟨.membership, m.membership⟩)
      (by simp [hangsOn, hm', Mandate.hangsOn]) ⟨x, hx⟩
    obtain ⟨x₀, hx₀, huser, -, -⟩ := hshrinks.memberships.2 _ x' hx'
    rw [hx] at hx₀
    cases hx₀
    refine ⟨x', hx', huser, fun u hu => ?_⟩
    obtain ⟨u', hu'⟩ := htarget (x := ⟨.membership, m.membership⟩) (p := ⟨.user, x.user⟩)
      (by simp [hangsOn, hx', Membership.hangsOn, huser]) ⟨u, hu⟩
    obtain ⟨u₀, hu₀, heq⟩ := hshrinks.users.2 _ u' hu'
    rw [hu] at hu₀
    cases hu₀
    rw [← heq]
    exact hu'

/-! ## Revoking -/

section
variable {ended : Pk → Prop}

/-- Mandates rewritten, the ones of the clients that are not ended as far as a session goes the same. -/
theorem Carries.mandates {t : Table Mandate}
    (h : ∀ k c M m, db.clients.row k = some c → ¬ ended k → c.mandate = some M →
    db.mandates.row M = some m → ∃ m', t.row M = some m' ∧ m'.revokedAt = m.revokedAt ∧ m'.expiresAt = m.expiresAt
      ∧ m'.membership = m.membership) : Carries ended db { db with mandates := t } where
  now := rfl
  clients k c hc := ⟨c, hc, .refl c⟩
  tokens pk t ht := ⟨t, ht, rfl, rfl⟩
  members _ _ _ x _ _ hx := ⟨x, hx⟩
  sessions _ grace k c c' hc hc' _ hended hsession := by
    have hc' : db.clients.row k = some c' := hc'
    rw [hc] at hc'
    cases hc'
    refine withSession_of db _ rfl rfl rfl rfl (fun _ _ _ ht _ => ht) (fun pk t ht => ⟨t, ht, rfl, rfl⟩)
      (fun M m hM hm hholds => ?_) hsession
    obtain ⟨m', hm', hrevoked, hexpires, hmember⟩ := h k c M m hc hended hM hm
    exact ⟨m', hm', mandateHolds_of db _ rfl hrevoked hexpires
      (fun x hx => ⟨x, by rw [hmember]; exact hx, rfl, fun _ hu => hu⟩) hholds⟩
  next := Nat.le_refl _
  hubs _ x hx := .inl ⟨x, hx, .inl rfl⟩

/-- Tokens revoked: the sessions of the clients whose tokens are as they were stay. -/
theorem Carries.tokensRevoked {t : Table OAuth2Token}
    (ht : Rewrites (fun _ x x' => ∃ r, x' = { x with revoked := r }) db.tokens t)
    (h : db.Tidy → ∀ k c pk x, db.clients.row k = some c → c.clientId.minted = true → ¬ ended k →
      db.tokens.row pk = some x →
      x.clientId = c.clientId → t.row pk = some x) : Carries ended db { db with tokens := t } where
  now := rfl
  clients k c hc := ⟨c, hc, .refl c⟩
  tokens pk x' hx' := by
    obtain ⟨x, hx, _, rfl⟩ := ht.before hx'
    exact ⟨x, hx, rfl, rfl⟩
  members _ _ _ x _ _ hx := ⟨x, hx⟩
  sessions htidy grace k c c' hc hc' hminted hended hsession := by
    have hc' : db.clients.row k = some c' := hc'
    rw [hc] at hc'
    cases hc'
    refine withSession_of db _ rfl rfl rfl rfl (fun _ pk x hx hid => h htidy k c pk x hc hminted hended hx hid)
      (fun pk x' hx' => ?_)
      (fun M m _ hm hholds => ⟨m, hm, hholds⟩) hsession
    obtain ⟨x, hx, _, rfl⟩ := ht.before hx'
    exact ⟨x, hx, rfl, rfl⟩
  next := Nat.le_refl _
  hubs _ x hx := .inl ⟨x, hx, .inl rfl⟩

theorem Carries.revokeTokensOf (l : List Pk) (h : ∀ k ∈ l, ended k) : Carries ended db (db.revokeTokensOf l) := by
  refine .tokensRevoked (.updateWhere (fun _ x => ⟨x.revoked, rfl⟩) fun _ _ _ _ => ⟨true, rfl⟩)
    fun htidy k c pk x hc hminted hended hx hid => ?_
  refine updateWhere_row_eq_some.mpr ⟨x, hx, if_neg fun hrevoked => hended ?_⟩
  rw [List.contains_iff_mem, List.mem_filterMap] at hrevoked
  obtain ⟨j, hj, hb⟩ := hrevoked
  obtain ⟨b, hb, hbid⟩ := Option.map_eq_some_iff.mp hb
  have hsameId : c.clientId = b.clientId := by rw [hbid, hid]
  rw [htidy.unique k j c b hc hb hsameId hminted]
  exact h j hj

theorem revokeMandate_carries {mandate : Pk} {reason : MandateRevocation}
    (h : db.revokeMandate mandate reason = .ok d) :
    Carries ended db d := by
  simp only [revokeMandate, bind_ok, Table.get_ok, pure_ok] at h
  obtain ⟨_, -, rfl⟩ := h
  have hmarked : Carries (· ∈ db.clients.pks fun _ c => c.mandate.any (mandate :: db.childrenOf mandate).contains)
    db { db with
      mandates := db.mandates.update fun pk m =>
        if pk = mandate then revokeRow db.now reason m
        else if (db.childrenOf mandate).contains pk then revokeRow db.now .parentRevoked m
        else m } := by
    refine .mandates fun k c M m hc hk hM hm => ⟨m, update_row_eq_some.mpr ⟨m, hm, ?_⟩, rfl, rfl, rfl⟩
    have hnot : ¬ (mandate :: db.childrenOf mandate).contains M = true := fun hmem =>
      hk (mem_pks.mpr ⟨c, hc, by rw [hM]; exact hmem⟩)
    rw [List.contains_iff_mem, List.mem_cons, not_or] at hnot
    rw [if_neg hnot.1, if_neg (by rw [List.contains_iff_mem]; exact hnot.2)]
  have hclients : ({ db with
      mandates := db.mandates.update fun pk m =>
        if pk = mandate then revokeRow db.now reason m
        else if (db.childrenOf mandate).contains pk then revokeRow db.now .parentRevoked m
        else m } : DB).clients = db.clients := rfl
  unfold deleteClients
  rw [hclients]
  generalize ({ db with mandates := _ } : DB) = e at hmarked ⊢
  generalize (db.clients.pks fun _ c => c.mandate.any (mandate :: db.childrenOf mandate).contains) = l at hmarked ⊢
  have hdeleted : Carries (· ∈ l) db ((e.revokeTokensOf l).delete .client (l.map fun c => ⟨.client, c⟩) none) :=
    (hmarked.trans (.revokeTokensOf l fun _ hk => hk)).trans
      (.delete (by simp [withHubs, withInstances, withMemberships]) .client none)
  refine hdeleted.mono fun k hk => .inr (Option.eq_none_iff_forall_ne_some.mpr fun c hc => ?_)
  -- whoever used it is gone
  have hroot : (⟨.client, k⟩ : Ref) ∈ l.map fun c => (⟨.client, c⟩ : Ref) := List.mem_map.mpr ⟨k, hk, rfl⟩
  exact delete_not_has hroot ⟨c, hc⟩

theorem revokeEach_carries {reason : MandateRevocation} :
    ∀ (l : List Pk) (db : DB), Carries ended db (revokeEach reason l db).1
  | [], db => .refl ended db
  | pk :: rest, db => by
    unfold revokeEach
    split
    · rename_i d h
      exact (revokeMandate_carries h).trans (revokeEach_carries rest d)
    · exact .refl ended db

/-- The token that is presented to be revoked. -/
def presented (db : DB) (token : Nat) : Option (Pk × OAuth2Token) :=
  db.tokens.first fun _ t => t.refreshToken == some token || t.accessToken == token

theorem revokeToken_carries {clientId : ClientId} {secret : Option String} {token : Nat}
    (h : db.revokeToken clientId secret token = .ok d) :
    Carries (fun k => ∃ c, db.clients.row k = some c ∧ (db.presented token).any
      (·.2.clientId == c.clientId) = true) db d := by
  simp only [revokeToken, bind_ok, found_ok, require_ok, exists_unit, pure_ok, Prod.exists] at h
  obtain ⟨_, _, -, pk, t, hfirst, -, rfl⟩ := h
  refine .tokensRevoked (.modify (fun _ x => ⟨x.revoked, rfl⟩) fun _ _ => ⟨true, rfl⟩)
    fun _ k c j x hc _ hended hx hid => ?_
  refine modify_row_eq_some.mpr (.inl ⟨fun hj => hended ⟨c, hc, ?_⟩, hx⟩)
  subst hj
  rw [(first_eq_some hfirst).1] at hx
  cases hx
  simp [presented, hfirst, hid]

/-- The clients a rejection names: those of the installation, or the client itself if it is none of an app.
Who logs in with a key goes with its mandate. -/
def rejectedClients (db : DB) (client : Pk) : List Pk :=
  match db.clients.row client with
  | none => []
  | some c =>
    match c.mandate with
    | some _ => []
    | none =>
      match c.release, c.membership with
      | some r, some membership => db.enrollmentClients membership r.organization r.identifier c.node
      | _, _ => [client]

theorem rejectAppInstallation_carries {client : Pk} (h : db.rejectAppInstallation client = (d, .ok ())) :
    Carries (· ∈ db.rejectedClients client) db d := by
  have hrejected : ∀ l, Carries (· ∈ l) db ((db.revokeTokensOf l).revokeIssuedBy l).1 := fun l =>
    (Carries.revokeTokensOf l fun _ hk => hk).trans (revokeEach_carries _ _)
  unfold rejectAppInstallation at h
  split at h
  · simp [refuse] at h
  · rename_i c hc
    split at h
    · rename_i m hm
      have hnone : db.rejectedClients client = [] := by simp only [rejectedClients, hc, hm]
      rw [hnone]
      unfold orElseSame at h
      split at h
      · rename_i r hr
        obtain ⟨rfl, -⟩ := Prod.mk.inj h
        obtain ⟨e, he, hpair⟩ := map_ok.mp hr
        obtain ⟨rfl, -⟩ := Prod.mk.inj hpair
        exact revokeMandate_carries he
      · simp at h
    · rename_i hm
      split at h
      · rename_i r membership hr hmember
        dsimp only at h
        have hall : db.rejectedClients client = db.enrollmentClients membership r.organization
          r.identifier c.node := by
          simp only [rejectedClients, hc, hm, hr, hmember]
        rw [hall]
        have hissued := hrejected (db.enrollmentClients membership r.organization r.identifier c.node)
        split at h
        · simp at h
        · rename_i e he
          obtain ⟨rfl, -⟩ := Prod.mk.inj h
          rw [he] at hissued
          exact hissued.trans (.delete (by simp [withHubs, withInstances, withMemberships]) .deviceCode none)
      · rename_i hneither
        have hself := hrejected [client]
        rw [h] at hself
        have honly : db.rejectedClients client = [client] := by
          unfold rejectedClients
          rw [hc]
          dsimp only
          rw [hm]
          dsimp only
          split
          · rename_i r membership hr hmember
            exact absurd hmember (hneither r membership hr)
          · rfl
        rw [honly]
        exact hself

/-! ## Approving -/

theorem carries_steps : Steps (Carries ended) where
  refl := .refl ended
  trans := .trans
  beside := Beside.carries
  delete h origin := .delete h origin none
  revoke := revokeMandate_carries
  issue := by
    intro db m devices _
    have hissued : Carries ended db { db with mandates := db.mandates.insert m } :=
      .mandates fun _ _ M x _ _ _ hx => ⟨x, insert_row_of_some hx, rfl, rfl, rfl⟩
    exact hissued.trans (Beside.carries ⟨rfl, rfl, rfl, rfl, rfl, fun _ m hm => ⟨m, hm, rfl⟩, Nat.le_refl _,
      fun _ x hx => .inl ⟨x, hx, rfl⟩⟩)
  keep := by
    intro db pk current grantor auth request hcurrent
    unfold keepHubMandate
    dsimp only
    split
    · -- the clients that logged in for another grantor are gone
      have hdropped : Carries ended db (db.dropClientsOf pk) :=
        .delete (by simp [withHubs, withInstances, withMemberships]) .client none
      refine hdropped.trans (.mandates fun k c M x hc _ hM hx => ?_)
      have hne : M ≠ pk := fun heq => dropClientsOf_clients hc (heq ▸ hM)
      exact ⟨x, by rw [modify_row_of_ne hne]; exact hx, rfl, rfl, rfl⟩
    · rename_i hsame
      have hsame : current.membership = grantor := by simpa using hsame
      refine .mandates fun k c M x hc _ hM hx => ?_
      by_cases hpk : M = pk
      · subst hpk
        rw [hcurrent] at hx
        cases hx
        exact ⟨_, modify_row_eq_some.mpr (.inr ⟨rfl, _, hcurrent, rfl⟩), rfl, rfl, hsame.symm⟩
      · exact ⟨x, by rw [modify_row_of_ne hpk]; exact hx, rfl, rfl, rfl⟩

/-- One client was bound anew, and nobody else's. -/
structure Rebound (pk : Pk) (db d : DB) : Prop where
  now : d.now = db.now
  users : d.users = db.users
  memberships : d.memberships = db.memberships
  mandates : d.mandates = db.mandates
  tokens : d.tokens = db.tokens
  clients : ∀ k c', d.clients.row k = some c' → k ≠ pk → ∃ c, db.clients.row k = some c ∧ c.Same c'
  gone : ∀ k, d.clients.row k = none → db.clients.row k = none

theorem Rebound.session {pk : Pk} (h : Rebound pk db d) {grace : Time} {c c' : Client}
    (hid : c'.clientId = c.clientId)
    (hcreated : c'.createdAt = c.createdAt) (hmandate : c'.mandate = c.mandate)
    (hsession : db.withSession grace c = true) :
    d.withSession grace c' = true := by
  refine withSession_of db d h.now hid hcreated hmandate (fun _ pk t ht _ => by rw [h.tokens]; exact ht)
    (fun pk t ht => ⟨t, h.tokens ▸ ht, rfl, rfl⟩)
      (fun M m _ hm hholds => ⟨m, by rw [h.mandates]; exact hm, ?_⟩) hsession
  exact mandateHolds_of db d h.now rfl rfl
    (fun x hx => ⟨x, by rw [h.memberships]; exact hx, rfl, fun u hu => by rw [h.users]; exact hu⟩)
    hholds

/-- The client of an approval, as it is bound: an installation of the app on the device. -/
structure InstalledAs (c c' : Client) (membership : Pk) (app : App) (node : Option Pk) : Prop where
  clientId : c'.clientId = c.clientId
  createdAt : c'.createdAt = c.createdAt
  mandate : c'.mandate = none
  membership : c'.membership = some membership
  app : c'.release.map (·.app) = some app
  node : c'.node = node

theorem installClient_rebinds {pk user organization : Pk} {bound : Client} {manifest : Manifest}
    {declined : List String}
    (h : db.installClient pk bound manifest user organization declined = .ok d) :
    Rebound pk db d ∧ d.hubs = db.hubs := by
  simp only [installClient, saveClient, bind_ok, require_ok, exists_unit, pure_ok] at h
  obtain ⟨_, ⟨-, rfl⟩, e, he, rfl⟩ := h
  obtain ⟨-, mappings, clients, rfl, hclients⟩ :=
    autoCompose_writes (A := .free) ⟨bound, by rw [put_row, if_pos rfl], rfl⟩ he
  refine ⟨⟨rfl, rfl, rfl, rfl, rfl, fun k c' hc' hne => ?_, fun k hk => ?_⟩, rfl⟩
  · rcases modify_row_eq_some.mp hc' with ⟨-, hc'⟩ | ⟨heq, -⟩
    · obtain ⟨c₀, hc₀, l, rfl⟩ := hclients.before hc'
      rw [show (db.clients.put pk bound).row k = db.clients.row k by rw [put_row, if_neg hne]] at hc₀
      exact ⟨c₀, hc₀, ⟨rfl, rfl, rfl, rfl, rfl, rfl⟩⟩
    · exact absurd heq hne
  · refine Option.eq_none_iff_forall_ne_some.mpr fun c₀ hc₀ => ?_
    obtain ⟨c₁, hc₁⟩ : ∃ c₁, (db.clients.put pk bound).row k = some c₁ := by
      rw [put_row]
      split
      · exact ⟨_, rfl⟩
      · exact ⟨c₀, hc₀⟩
    obtain ⟨c₂, hc₂, -⟩ := hclients.after hc₁
    rw [modify_row, hc₂] at hk
    split at hk <;> cases hk

theorem delete_spares_client (hroots : ∀ r ∈ roots, r.model ∈ withClients) {origin : Model} {upgrading : Option Pk}
    {k : Pk} {c : Client} (hc : db.clients.row k = some c) (hmandate : c.mandate = none)
    (hk : (⟨.client, k⟩ : Ref) ∉ roots) :
    ∃ c', (db.delete origin roots upgrading).clients.row k = some c' := by
  have hwithin : ∀ r ∈ db.collect roots, r.model ∈ withClients :=
    fun r hr => collect_within withClients_within hroots hr
  have hkept : (⟨.client, k⟩ : Ref) ∉ db.collect roots := by
    intro hmem
    cases Closure.mem_closure.mp hmem with
    | root h => exact hk h
    | hangs _ hp hreached =>
      have hmodel := hwithin _ (Closure.mem_closure.mpr hreached)
      simp only [hangsOn, hc, Option.elim_some, Client.hangsOn, hmandate, List.mem_append, mem_refOf] at hp
      rcases hp with (((⟨_, -, rfl⟩ | ⟨_, -, rfl⟩) | ⟨_, -, rfl⟩) | ⟨_, h, -⟩) | ⟨_, -, rfl⟩
      · simp [withClients] at hmodel
      · simp [withClients] at hmodel
      · simp [withClients] at hmodel
      · cases h
      · simp [withClients] at hmodel
  rw [delete_withClients hroots]
  have hhas : (db.removeCascade roots).has ⟨.client, k⟩ := remove_has ⟨c, hc⟩ hkept
  exact syncAdmin_has hhas

theorem bindClient_rebinds {env : Env} {pk membership : Pk} {c c₀ : Client} {manifest : Manifest} {hub : Option Pk}
    {declined : List String} {m : Membership} (hm : db.memberships.row membership = some m)
    (hc : db.clients.row pk = some c₀)
    (hmandate : c₀.mandate = none) (h : db.bindClient env pk c manifest membership hub declined none = .ok d) :
    ∃ e c₁ c', Carries ended db e ∧ Rebound pk e d ∧ d.hubs = e.hubs ∧ e.clients.row pk = some c₁
    ∧ d.clients.row pk = some c'
      ∧ InstalledAs c c' membership ⟨m.organization, manifest.identifier⟩
      (db.deviceOf env manifest.deviceId m.organization).2 := by
  simp only [bindClient, bind_ok, Table.get_ok, require_ok, exists_unit] at h
  obtain ⟨m', hm', o, -, -, -, h⟩ := h
  rw [hm] at hm'
  cases hm'
  obtain ⟨t, ht, -⟩ := deviceOf_eq db env manifest.deviceId m.organization
  have hdevices : Carries ended db (db.deviceOf env manifest.deviceId m.organization).1 := by
    rw [ht]
    exact Beside.carries ⟨rfl, rfl, rfl, rfl, rfl, fun _ x hx => ⟨x, hx, rfl⟩, Nat.le_refl _,
      fun _ x hx => .inl ⟨x, hx, rfl⟩⟩
  have hthere : (db.deviceOf env manifest.deviceId m.organization).1.clients.row pk = some c₀ := by
    rw [ht]
    exact hc
  generalize db.deviceOf env manifest.deviceId m.organization = s at h hdevices hthere
  obtain ⟨s, node⟩ := s
  dsimp only at h hdevices hthere ⊢
  have hdropped : ∀ stale, Carries ended s (s.dropStale pk stale) := by
    intro stale
    have hreissued : Carries ended s (s.reissue stale pk) := .mandates fun _ _ M x _ _ _ hx =>
      ⟨_, updateWhere_row_eq_some.mpr ⟨x, hx, rfl⟩, by split <;> rfl, by split <;> rfl, by split <;> rfl⟩
    exact hreissued.trans (.delete (by simp [withHubs, withInstances, withMemberships]) .client none)
  have hspared : ∀ kind release,
    ∃ c₁, (s.dropStale pk (s.staleClients pk kind release membership node hub none)).clients.row pk = some c₁ := by
    intro kind release
    have hnot : (⟨.client, pk⟩ : Ref) ∉ (s.staleClients pk kind release membership node hub none).map
      fun k => (⟨.client, k⟩ : Ref) := by
      intro hmem
      obtain ⟨k, hk, heq⟩ := List.mem_map.mp hmem
      obtain ⟨_, -, hne⟩ := mem_pks.mp hk
      rw [Bool.and_eq_true, bne_iff_ne] at hne
      exact hne.1 (congrArg Ref.pk heq)
    have hrow : (s.reissue (s.staleClients pk kind release membership node hub none) pk).clients.row
      pk = some c₀ := hthere
    exact delete_spares_client (by simp [withClients]) hrow hmandate hnot
  obtain ⟨c₁, hc₁⟩ := hspared c.kind ⟨m.organization, manifest.identifier, manifest.version⟩
  generalize s.staleClients pk c.kind _ membership node hub none = stale at h hc₁
  obtain ⟨_, _, _, hrow⟩ := installClient_row h
  obtain ⟨hrebound, hhubs⟩ := installClient_rebinds h
  exact ⟨_, c₁, _, hdevices.trans (hdropped stale), hrebound, hhubs, hc₁, hrow, ⟨rfl, rfl, rfl, rfl, rfl, rfl⟩⟩

theorem keepClient_carries (pk staged kept : Pk) (c : Client) :
    Carries ended db (db.keepClient pk staged c kept) := by
  have hcodes : Carries ended db (db.delete .deviceCode
      ((db.deviceCodes.pks fun k code => code.client == kept && k != pk).map fun k => ⟨.deviceCode, k⟩) none) :=
    .delete (by simp [withHubs, withInstances, withMemberships]) .deviceCode none
  unfold keepClient
  dsimp only
  refine hcodes.trans ?_
  generalize db.delete .deviceCode _ none = e
  refine Carries.trans ?_ (.delete (by simp [withHubs, withInstances, withMemberships]) .client none)
  refine .untouched rfl rfl rfl rfl (fun k x' hx' => ?_) (fun _ x hx => ⟨x, hx, rfl⟩) (Nat.le_refl _)
    fun _ x hx => .inl ⟨x, hx, rfl⟩
  rcases modify_row_eq_some.mp hx' with ⟨-, hx⟩ | ⟨-, x, hx, rfl⟩
  · exact ⟨x', hx, .refl x'⟩
  · exact ⟨x, hx, ⟨rfl, rfl, rfl, rfl, rfl, rfl⟩⟩

theorem removeCascade_devices {S : List Model} (hS : Within S) (hroots : ∀ r ∈ roots, r.model ∈ S)
    (hdevice : .device ∉ S) :
    (db.removeCascade roots).devices = db.devices := by
  have hnone : ∀ r ∈ db.collect roots, r.model ≠ .device :=
    fun r hr heq => hdevice (heq ▸ collect_within hS hroots hr)
  exact keep_eq_self fun pk _ => keeps_eq_true hnone pk

theorem delete_devices (hroots : ∀ r ∈ roots, r.model ∈ withHubs) (origin : Model) (upgrading : Option Pk) :
    (db.delete origin roots upgrading).devices = db.devices := by
  have hsync : ∀ (d : DB) l, (d.syncAdmin l).devices = d.devices := fun _ _ => rfl
  have hcascade : ((db.removeCascade roots).syncAdmin (db.losesAdmin roots)).devices = db.devices := by
    rw [hsync]
    exact removeCascade_devices withHubs_within hroots (by decide)
  refine delete_induct_sync (P := fun d : DB => d.devices = db.devices) (fun d m hd => ?_)
    (fun d c hd => ?_) hcascade
  · exact (removeCascade_devices withMemberships_within (by simp [withMemberships]) (by decide)).trans hd
  · exact (removeCascade_devices withClients_within (by simp [withClients]) (by decide)).trans hd

theorem keepClient_devices (pk staged kept : Pk) (c : Client) :
    (db.keepClient pk staged c kept).devices = db.devices := by
  unfold keepClient
  dsimp only
  rw [delete_devices (by simp [withHubs, withInstances, withMemberships])]
  exact delete_devices (by simp [withHubs, withInstances, withMemberships]) _ _

theorem deviceOf_congr {env : Env} (h : d.devices = db.devices) (deviceId : Option String) (organization : Pk) :
    (d.deviceOf env deviceId organization).2 = (db.deviceOf env deviceId organization).2 := by
  unfold deviceOf
  split
  · rfl
  · dsimp only
    unfold getOrCreateDevice
    rw [h]
    split <;> rfl

/-- Approving an app binds the client it ends with, as an installation of the app. -/
theorem validateDeviceCode_rebinds {env : Env} {pk user organization hub : Pk} {code : DeviceCode}
    {manifest : Manifest}
    {declined : List String} (hplain : ∀ c, db.clients.row code.client = some c → c.mandate = none)
    (h : db.validateDeviceCode env pk code manifest user organization hub declined = .ok d) :
    ∃ m row k c e c₁ c', db.membershipOf user organization = some (m, row)
      ∧ db.clientOfApproval env code manifest m organization hub = some (k, c)
      ∧ Carries ended db e ∧ Rebound k e d ∧ d.hubs = e.hubs ∧ e.clients.row k = some c₁
      ∧ d.clients.row k = some c'
      ∧ InstalledAs c c' m ⟨organization, manifest.identifier⟩
      (db.deviceOf env manifest.deviceId organization).2 := by
  simp only [validateDeviceCode, bind_ok, found_ok, Table.get_ok, pure_ok, Prod.exists] at h
  obtain ⟨m, row, hm, staged, hstaged, c, hc, e, he, rfl⟩ := h
  obtain ⟨hrow, -, horganization⟩ := membershipOf_some hm
  have hcode : ∀ {f : DB} {k : Pk} {codes : Table DeviceCode}, Rebound k f e →
    Rebound k f { e with deviceCodes := codes } :=
    fun hr => ⟨hr.now, hr.users, hr.memberships, hr.mandates, hr.tokens, hr.clients, hr.gone⟩
  cases hfind : db.findUnchangedClient env code.client staged manifest m organization (some hub) with
  | some found =>
    obtain ⟨kept, k⟩ := found
    obtain ⟨hk, -, hmandate⟩ := findUnchangedClient_some hfind
    simp only [hfind] at he hc
    have haside := @keepClient_aside db pk code.client kept staged
    have hmember : (db.keepClient pk code.client staged kept).memberships.row m = some row := by
      rw [haside.memberships]
      exact hrow
    obtain ⟨c₀, hc₀, hid, hcreated, -⟩ := keepClient_client hc
    have hkept : Carries ended db (db.keepClient pk code.client staged kept) :=
      keepClient_carries pk code.client kept staged
    obtain ⟨_, hc₀', hsame⟩ := hkept.clients kept c hc
    rw [hk] at hc₀ hc₀'
    cases hc₀
    cases hc₀'
    obtain ⟨f, c₁, c', hf, hrebound, hhubs, hc₁, hc', hinstalled⟩ :=
      bindClient_rebinds hmember hc (hsame.mandate.trans hmandate) he
    rw [horganization, deviceOf_congr (keepClient_devices pk code.client kept staged)] at hinstalled
    refine ⟨m, row, kept, k, f, c₁, c', hm, by simp [clientOfApproval, hstaged, hfind], hkept.trans hf,
      hcode hrebound, hhubs, hc₁, hc', ?_⟩
    exact ⟨hinstalled.clientId.trans hid, hinstalled.createdAt.trans hcreated, hinstalled.mandate,
      hinstalled.membership,
      hinstalled.app, hinstalled.node⟩
  | none =>
    simp only [hfind] at he hc
    rw [hstaged] at hc
    cases hc
    obtain ⟨f, c₁, c', hf, hrebound, hhubs, hc₁, hc', hinstalled⟩ :=
      bindClient_rebinds hrow hstaged (hplain staged hstaged) he
    rw [horganization] at hinstalled
    exact ⟨m, row, code.client, staged, f, c₁, c', hm, by simp [clientOfApproval, hstaged, hfind], hf,
      hcode hrebound, hhubs, hc₁, hc',
      hinstalled⟩

/-- The hub with the staged client as its identity, which speaks for who approves it. -/
def withIdentity (db : DB) (hub client : Pk) (c : Client) (membership organization : Pk) : DB :=
  { db with
    clients := db.clients.put client
      { c with membership := some membership, organization := some organization, scope := ["openid"] },
    hubs := db.hubs.modify hub fun x => { x with client := some client } }

theorem withIdentity_rebinds (hub client : Pk) (c : Client) (membership organization : Pk) :
    Rebound client db (db.withIdentity hub client c membership organization) := by
  refine ⟨rfl, rfl, rfl, rfl, rfl, fun k c' hc' hne => ?_, fun k hk => ?_⟩
  · simp only [withIdentity] at hc'
    rw [put_row, if_neg hne] at hc'
    exact ⟨c', hc', .refl c'⟩
  · simp only [withIdentity] at hk
    rw [put_row] at hk
    split at hk
    · cases hk
    · exact hk

theorem bindHubIdentity_carries {hub client membership organization : Pk} {x : Hub} {c : Client}
    (h : db.bindHubIdentity hub x client c membership organization = .ok d) :
    (∀ k y, k ≠ hub → db.hubs.row k = some y → y.client ≠ some client)
      ∧ Carries ended (db.withIdentity hub client c membership organization) d := by
  simp only [bindHubIdentity, saveClient, bind_ok, require_ok, exists_unit, pure_ok] at h
  obtain ⟨_, ⟨-, rfl⟩, hunique, rfl⟩ := h
  constructor
  · intro k y hne hy hclient
    have hunique : (db.hubs.exists? fun k x => k != hub && x.client == some client)
      = false := by simpa using hunique
    have := exists?_eq_false.mp hunique k y hy
    simp [hne, hclient] at this
  · unfold withIdentity
    split
    · split
      · exact .delete (by simp [withHubs, withInstances, withMemberships]) .client none
      · exact .refl _ _
    · exact .refl _ _

end

end DB

end Lok
