import Lok.ClientLaws
import Lok.Registrations

/-!
# What an approval leaves

Approving an app binds one client, deletes the earlier installations it replaces, and points
the code to the client it kept. All of this happens among clients, mandates, codes and
devices: what a guest's reach and a session are computed from stays as it was.
-/

namespace Lok

open Table Runs Checks

namespace DB

variable {db d e : DB} {env : Env}

/-! ## What binding a client leaves -/

/-- Nothing a guest's reach is read from was touched. -/
structure GuestsKept (db d : DB) : Prop where
  now : d.now = db.now
  users : d.users = db.users
  grants : d.grants = db.grants
  memberships : d.memberships = db.memberships
  instances : d.instances = db.instances

/-- What binding a client leaves: no token was touched either. -/
structure Aside (db d : DB) : Prop extends GuestsKept db d where
  tokens : d.tokens = db.tokens

namespace GuestsKept

theorem isScoped (h : GuestsKept db d) (m : Pk) : d.isScoped m = db.isScoped m := by
  simp only [DB.isScoped, hasGrants, h.grants]

theorem grantLives (h : GuestsKept db d) (organization : Pk) (g : CollaborationGrant) :
    d.grantLives organization g = db.grantLives organization g := by
  have hmember : d.isActiveFullMember organization = db.isActiveFullMember organization := by
    funext user
    simp only [isActiveFullMember, h.memberships, h.users, h.isScoped]
  simp only [DB.grantLives, h.now, hmember]

theorem liveGrants (h : GuestsKept db d) (m : Pk) : d.liveGrants m = db.liveGrants m := by
  simp only [DB.liveGrants, h.memberships, h.grants, h.grantLives]

theorem hubOf (h : GuestsKept db d) (i : Pk) : d.hubOf i = db.hubOf i := by
  simp only [DB.hubOf, h.instances]

theorem meshHubIds (h : GuestsKept db d) (m : Pk) : d.meshHubIds m = db.meshHubIds m := by
  simp only [DB.meshHubIds, h.liveGrants, h.hubOf]

end GuestsKept

namespace Aside

theorem refl (db : DB) : Aside db db := ⟨⟨rfl, rfl, rfl, rfl, rfl⟩, rfl⟩

theorem trans (h : Aside db d) (k : Aside d e) : Aside db e where
  now := k.now.trans h.now
  users := k.users.trans h.users
  grants := k.grants.trans h.grants
  memberships := k.memberships.trans h.memberships
  instances := k.instances.trans h.instances
  tokens := k.tokens.trans h.tokens

theorem codes (h : Aside db d) (t : Table DeviceCode) : Aside db { d with deviceCodes := t } :=
  ⟨⟨h.now, h.users, h.grants, h.memberships, h.instances⟩, h.tokens⟩

end Aside

theorem delete_aside {origin : Model} {roots : List Ref} (hroots : ∀ r ∈ roots, r.model ∈ withClients) :
    Aside db (db.delete origin roots none) := by
  have hwithin : ∀ r ∈ db.collect roots, r.model ∈ withClients :=
    fun r hr => collect_within withClients_within hroots hr
  have hne : ∀ model, model ∉ withClients → ∀ r ∈ db.collect roots, r.model ≠ model := by
    intro model hmodel r hr heq
    exact hmodel (heq ▸ hwithin r hr)
  have hrole := hne .role (by decide)
  have huser := hne .user (by decide)
  have hinvite := hne .invite (by decide)
  rw [delete_withClients hroots,
    losesAdmin_eq_nil fun _ _ _ hgone => absurd rfl (hrole _ hgone), syncAdmin_nil]
  refine ⟨⟨rfl, ?_, ?_, ?_, ?_⟩, keep_eq_self fun pk _ => keeps_eq_true (hne .token (by decide)) pk⟩
  · exact keep_eq_self fun pk _ => keeps_eq_true huser pk
  · show Table.update _ _ = _
    rw [keep_eq_self fun pk _ => keeps_eq_true (hne .grant (by decide)) pk]
    exact update_eq_self fun _ _ _ => by rw [keepOpt_eq_self hinvite, keepOpt_eq_self huser]
  · show Table.update _ _ = _
    rw [keep_eq_self fun pk _ => keeps_eq_true (hne .membership (by decide)) pk]
    refine update_eq_self fun _ _ _ => ?_
    rw [keepList_eq_self hrole, keepList_eq_self hrole, keepList_eq_self hrole, keepOpt_eq_self hinvite]
  · show Table.update _ _ = _
    rw [keep_eq_self fun pk _ => keeps_eq_true (hne .instance_ (by decide)) pk]
    exact update_eq_self fun _ _ _ => by rw [keepList_eq_self huser, keepList_eq_self huser]

theorem deviceOf_aside (deviceId : Option String) (organization : Pk) :
    Aside db (db.deviceOf env deviceId organization).1 := by
  obtain ⟨t, hd, -⟩ := deviceOf_eq db env deviceId organization
  rw [hd]
  exact ⟨⟨rfl, rfl, rfl, rfl, rfl⟩, rfl⟩

theorem dropStale_aside (client : Pk) (stale : List Pk) : Aside db (db.dropStale client stale) := by
  have hreissue : Aside db (db.reissue stale client) := ⟨⟨rfl, rfl, rfl, rfl, rfl⟩, rfl⟩
  exact hreissue.trans (delete_aside (by simp [withClients]))

theorem installClient_aside {pk user organization : Pk} {bound : Client} {manifest : Manifest}
    {declined : List String}
    (h : db.installClient pk bound manifest user organization declined = .ok d) :
    Aside db d ∧ d.deviceCodes = db.deviceCodes := by
  simp only [installClient, saveClient, bind_ok, require_ok, exists_unit, pure_ok] at h
  obtain ⟨_, ⟨-, rfl⟩, e, he, rfl⟩ := h
  obtain ⟨-, _, _, rfl, -⟩ := autoCompose_writes (A := .free) ⟨bound, by rw [put_row, if_pos rfl], rfl⟩ he
  exact ⟨⟨⟨rfl, rfl, rfl, rfl, rfl⟩, rfl⟩, rfl⟩

theorem bindClient_aside {pk membership : Pk} {c : Client} {manifest : Manifest} {hub mandate : Option Pk}
    {declined : List String} (h : db.bindClient env pk c manifest membership hub declined mandate = .ok d) :
    Aside db d ∧ ∀ k code, d.deviceCodes.row k = some code → db.deviceCodes.row k = some code := by
  obtain ⟨m, t, node, stale, -, -, h⟩ := bindClient_installs h
  have hdevice : Aside db { db with devices := t } := ⟨⟨rfl, rfl, rfl, rfl, rfl⟩, rfl⟩
  obtain ⟨hinstall, hsame⟩ := installClient_aside h
  refine ⟨hdevice.trans ((dropStale_aside _ _).trans hinstall), fun k code hcode => ?_⟩
  rw [hsame] at hcode
  obtain ⟨x, hx, rfl⟩ := (delete_shrinks _ _ _ _).deviceCodes.2 k code hcode
  exact hx

/-! ## Accepting an app -/

theorem keepClient_aside (pk staged kept : Pk) (c : Client) : Aside db (db.keepClient pk staged c kept) := by
  have hcodes : ∀ roots : List Pk, Aside db (db.delete .deviceCode (roots.map fun k => ⟨.deviceCode, k⟩) none) :=
    fun roots => delete_aside (by simp [withClients])
  unfold keepClient
  dsimp only
  refine (hcodes (db.deviceCodes.pks fun k code => code.client == kept && k != pk)).trans ?_
  generalize db.delete .deviceCode _ none = e
  refine .trans ?_ (delete_aside (by simp [withClients]))
  exact ⟨⟨rfl, rfl, rfl, rfl, rfl⟩, rfl⟩

theorem keepClient_code {pk staged kept : Pk} {c : Client} {x : DeviceCode}
    (hx : (db.keepClient pk staged c kept).deviceCodes.row pk = some x) :
    ∃ code, db.deviceCodes.row pk = some code
    ∧ x = { code with pollingClientId := some c.clientId, client := kept } := by
  unfold keepClient at hx
  dsimp only at hx
  obtain ⟨y, hy, rfl⟩ := (delete_shrinks _ _ _ _).deviceCodes.2 pk x hx
  rcases modify_row_eq_some.mp hy with ⟨hne, -⟩ | ⟨-, z, hz, rfl⟩
  · exact absurd rfl hne
  · obtain ⟨code, hcode, rfl⟩ := (delete_shrinks _ _ _ _).deviceCodes.2 pk z hz
    exact ⟨z, hcode, rfl⟩

/-- A row of `keepClient` is an earlier one with the redirect URIs of the staged row, if it is the one that
is kept. -/
theorem keepClient_client {pk staged kept k : Pk} {c x : Client}
    (hx : (db.keepClient pk staged c kept).clients.row k = some x) :
    ∃ y, db.clients.row k = some y ∧ x.clientId = y.clientId ∧ x.createdAt = y.createdAt
    ∧ x.grantTypes = y.grantTypes := by
  unfold keepClient at hx
  dsimp only at hx
  obtain ⟨y, hy, _, _, rfl⟩ := (delete_shrinks _ _ _ _).clients.2 k x hx
  rcases modify_row_eq_some.mp hy with ⟨-, hz⟩ | ⟨-, z, hz, rfl⟩
  · obtain ⟨w, hw, _, _, rfl⟩ := (delete_shrinks _ _ _ _).clients.2 k y hz
    exact ⟨w, hw, rfl, rfl, rfl⟩
  · obtain ⟨w, hw, _, _, rfl⟩ := (delete_shrinks _ _ _ _).clients.2 k z hz
    exact ⟨w, hw, rfl, rfl, rfl⟩

/-- The client an approval ends with: an earlier installation that did not change, or else the registered one. -/
def clientOfApproval (db : DB) (env : Env) (code : DeviceCode) (manifest : Manifest)
    (membership organization hub : Pk) :
    Option (Pk × Client) :=
  (db.clients.row code.client).map fun staged =>
    (db.findUnchangedClient env code.client staged manifest membership organization (some hub)).getD
      (code.client, staged)

/-- The same client, bound by its approval. -/
structure BoundAs (c₀ c : Client) (membership organization hub : Pk) : Prop where
  clientId : c.clientId = c₀.clientId
  createdAt : c.createdAt = c₀.createdAt
  grantTypes : c.grantTypes = c₀.grantTypes
  membership : c.membership = some membership
  organization : ∃ r, c.release = some r ∧ r.organization = organization
  hub : c.hub = some hub
  mandate : c.mandate = none

theorem clientOfApproval_row {code : DeviceCode} {manifest : Manifest} {m organization hub : Pk} {r : Pk × Client}
    (h : db.clientOfApproval env code manifest m organization hub = some r) : db.clients.row r.1 = some r.2 := by
  obtain ⟨staged, hstaged, rfl⟩ := Option.map_eq_some_iff.mp h
  cases hfind : db.findUnchangedClient env code.client staged manifest m organization (some hub) with
  | none => exact hstaged
  | some found =>
    obtain ⟨k, c⟩ := found
    exact (findUnchangedClient_some hfind).1

theorem validateDeviceCode_bound {pk user organization hub : Pk} {code : DeviceCode} {manifest : Manifest}
    {declined : List String} (hcode : db.deviceCodes.row pk = some code)
    (h : db.validateDeviceCode env pk code manifest user organization hub declined = .ok d) :
    Aside db d ∧ ∃ m, db.memberOf user organization = some m
      ∧ ∀ x, d.deviceCodes.row pk = some x → x.authKey = code.authKey
        ∧ ∃ c₀ c, db.clientOfApproval env code manifest m organization hub = some (x.client, c₀)
          ∧ d.clients.row x.client = some c ∧ BoundAs c₀ c m organization hub := by
  simp only [validateDeviceCode, bind_ok, found_ok, Table.get_ok, pure_ok, Prod.exists] at h
  obtain ⟨m, row, hm, staged, hstaged, c, hc, e, he, rfl⟩ := h
  have hbound : ∀ {s : DB} {k : Pk} {c₀ : Client}, Aside db s → s.bindClient env k c manifest m
    (some hub) declined none = .ok e →
      c.clientId = c₀.clientId → c.createdAt = c₀.createdAt → c.grantTypes = c₀.grantTypes →
      (∀ x, s.deviceCodes.row pk = some x → x.client = k ∧ x.authKey = code.authKey) → ∀ scope : List String,
      Aside db e ∧ ∀ x, (e.deviceCodes.modify pk
        fun y => { y with organization := some organization, grantedScope := scope }).row pk
        = some x → x.authKey = code.authKey ∧ x.client = k
          ∧ ∃ c, e.clients.row k = some c ∧ BoundAs c₀ c m organization hub := by
    intro s k c₀ hkept hbind hid hcreated hgrants hrow scope
    obtain ⟨hsame, hcodes⟩ := bindClient_aside hbind
    refine ⟨hkept.trans hsame, fun x hx => ?_⟩
    obtain ⟨c', m', hc', hm', hmember, hrelease, hhub, hmandate, hid', hcreated', hgrants'⟩ := bindClient_row hbind
    rw [hkept.memberships, (membershipOf_some hm).1] at hm'
    cases hm'
    rcases modify_row_eq_some.mp hx with ⟨hne, -⟩ | ⟨-, y, hy, rfl⟩
    · exact absurd rfl hne
    · obtain ⟨rfl, hkey⟩ := hrow y (hcodes pk y hy)
      exact ⟨hkey, rfl, c', hc', ⟨hid'.trans hid, hcreated'.trans hcreated, hgrants'.trans hgrants, hmember,
        ⟨_, hrelease, (membershipOf_some hm).2.2⟩, hhub, hmandate⟩⟩
  cases hfind : db.findUnchangedClient env code.client staged manifest m organization (some hub) with
  | some found =>
    obtain ⟨kept, k⟩ := found
    simp only [hfind] at he hc
    obtain ⟨c₀, hc₀, hid, hcreated, hgrants⟩ := keepClient_client hc
    rw [(findUnchangedClient_some hfind).1] at hc₀
    cases hc₀
    obtain ⟨hkept, hrow⟩ := hbound (keepClient_aside _ _ _ _) he hid hcreated hgrants (fun x hx => by
      obtain ⟨y, hy, rfl⟩ := keepClient_code hx
      rw [hcode] at hy
      cases hy
      exact ⟨rfl, rfl⟩) ((e.clients.row kept).elim [] (·.scope))
    refine ⟨hkept.codes _, m, by simp [memberOf, hm], fun x hx => ?_⟩
    obtain ⟨hkey, rfl, c', hc', hboundAs⟩ := hrow x hx
    exact ⟨hkey, k, c', by simp [clientOfApproval, hstaged, hfind], hc', hboundAs⟩
  | none =>
    simp only [hfind] at he hc
    rw [hstaged] at hc
    cases hc
    obtain ⟨hkept, hrow⟩ := hbound (.refl db) he rfl rfl rfl (fun x hx => by
      rw [hcode] at hx
      cases hx
      exact ⟨rfl, rfl⟩) ((e.clients.row code.client).elim [] (·.scope))
    refine ⟨hkept.codes _, m, by simp [memberOf, hm], fun x hx => ?_⟩
    obtain ⟨hkey, hclient, c', hc', hboundAs⟩ := hrow x hx
    rw [hclient]
    exact ⟨hkey, staged, c', by simp [clientOfApproval, hstaged, hfind], hc', hboundAs⟩

/-- An accepted code points to the client of the approval, bound to the hub; its mesh key is an earlier one, or its
approver may have one. -/
theorem acceptDeviceCode_bound {user pk hub : Pk} {proof : Option Nat} {declined : List String} {allow : Bool}
    {minted : Option String} (h : db.acceptDeviceCode env user pk proof hub declined allow minted = .ok d) :
    Aside db d ∧ ∃ code manifest x m, db.deviceCodes.row pk = some code ∧ code.staging = .app manifest
      ∧ db.hubs.row hub = some x ∧ db.memberOf user x.organization = some m
      ∧ (db.isScoped m = true → ∃ g ∈ db.liveGrants m, db.hubOf g.2.instance_ = some hub)
      ∧ ∀ y, d.deviceCodes.row pk = some y
        → (∃ c₀ c, db.clientOfApproval env code manifest m x.organization hub = some (y.client, c₀)
            ∧ d.clients.row y.client = some c ∧ BoundAs c₀ c m x.organization hub)
          ∧ (y.authKey = code.authKey ∨ (db.isScoped m = true → hub ∈ db.meshHubIds m)) := by
  simp only [acceptDeviceCode, bind_ok, found_ok, require_ok, exists_unit] at h
  obtain ⟨code, hresolve, -, -, x, hx, m, hmember, hguest, h⟩ := h
  have hcode := resolveDeviceCode_ok hresolve
  have hm := assertMemberOrGuest_ok hmember
  have hbounds : db.isScoped m = true → ∃ g ∈ db.liveGrants m, db.hubOf g.2.instance_ = some hub := by
    intro hscoped
    simpa [hscoped] using hguest
  split at h
  · simp at h
  · rename_i manifest hstaging
    simp only [bind_ok, pure_ok] at h
    obtain ⟨e, he, rfl⟩ := h
    obtain ⟨hkept, m', hm', hrow⟩ := validateDeviceCode_bound hcode he
    rw [hm] at hm'
    cases hm'
    have hearlier : ∀ y, e.deviceCodes.row pk = some y
        → (∃ c₀ c, db.clientOfApproval env code manifest m x.organization hub = some (y.client, c₀)
            ∧ e.clients.row y.client = some c ∧ BoundAs c₀ c m x.organization hub)
          ∧ (y.authKey = code.authKey ∨ (db.isScoped m = true → hub ∈ db.meshHubIds m)) := by
      intro y hy
      obtain ⟨hkey, hbound⟩ := hrow y hy
      exact ⟨hbound, .inl hkey⟩
    split
    · rename_i hmints
      simp only [Bool.and_eq_true, Bool.or_eq_true, Bool.not_eq_true', List.contains_eq_mem,
        decide_eq_true_eq] at hmints
      have hmesh : db.isScoped m = true → hub ∈ db.meshHubIds m := by
        intro hscoped
        rcases hmints.2 with hfull | hmesh
        · rw [hscoped] at hfull
          cases hfull
        · exact hmesh
      cases minted with
      | none => exact ⟨hkept, code, manifest, x, m, hcode, hstaging, hx, hm, hbounds, hearlier⟩
      | some key =>
        refine ⟨hkept.codes _, code, manifest, x, m, hcode, hstaging, hx, hm, hbounds,
          fun y hy => ⟨?_, .inr hmesh⟩⟩
        rcases modify_row_eq_some.mp hy with ⟨hne, -⟩ | ⟨-, z, hz, rfl⟩
        · exact absurd rfl hne
        · exact (hrow z hz).2
    · exact ⟨hkept, code, manifest, x, m, hcode, hstaging, hx, hm, hbounds, hearlier⟩

end DB

end Lok
