import Lok.MandateClients
import Lok.Provisions
import Lok.Rotations
import Lok.Sessions
import Lok.SystemWrites

/-!
# Accepting a stale code

A code that was denied, has expired or was accepted before can yield nothing more. The accept
of an app looks at the first two before it binds; the accept of a hub and that of a machine
look at none of the three. So what is left to refuse them is what refuses a fresh code: the
checks of the caller, and what cannot be bound, provisioned or minted.
-/

namespace Lok

open Table Checks Runs

namespace DB

variable {db : DB} {env : Env} {roots : List Ref}

/-! ## Keeping a client that did not change -/

theorem delete_organizations (hroots : ∀ r ∈ roots, r.model ∈ withClients) (origin : Model)
    (upgrading : Option Pk) :
    (db.delete origin roots upgrading).organizations = db.organizations := by
  rw [delete_withClients hroots]
  exact keep_eq_self fun pk _ => keeps_eq_true
    (fun r hr heq => absurd (heq ▸ collect_within withClients_within hroots hr)
    (by decide)) pk

/-- A client of no mandate that is not deleted itself is left with its kind and its place. -/
theorem delete_leaves_client (hroots : ∀ r ∈ roots, r.model ∈ withClients) {origin : Model} {k : Pk} {x : Client}
    (hx : db.clients.row k = some x) (hmandate : x.mandate = none) (hk : (⟨.client, k⟩ : Ref) ∉ roots) :
    ∃ l, (db.delete origin roots none).clients.row k = some { x with scopes := l } := by
  obtain ⟨x', hx'⟩ := delete_spares_client hroots hx hmandate hk
  obtain ⟨y, l, hy, rfl⟩ := delete_client hx'
  rw [hx] at hy
  cases hy
  refine ⟨l, ?_⟩
  rw [hx', keepOpt_eq_self fun r hr heq => absurd (heq ▸ collect_within withClients_within hroots hr) (by decide)]

theorem delete_client_back (hroots : ∀ r ∈ roots, r.model ∈ withClients) {origin : Model} {k : Pk} {x : Client}
    (hx : (db.delete origin roots none).clients.row k = some x) :
    ∃ y l, db.clients.row k = some y ∧ x = { y with scopes := l } := by
  obtain ⟨y, l, hy, rfl⟩ := delete_client hx
  refine ⟨y, l, hy, ?_⟩
  rw [keepOpt_eq_self fun r hr heq => absurd (heq ▸ collect_within withClients_within hroots hr) (by decide)]

theorem findUnchangedClient_kind {staged membership organization k : Pk} {c c' : Client} {manifest : Manifest}
    {hub : Option Pk} (h : db.findUnchangedClient env staged c manifest membership
      organization hub = some (k, c')) :
    k ≠ staged ∧ c'.kind = c.kind := by
  unfold findUnchangedClient at h
  extract_lets onDevice at h
  obtain ⟨-, hp⟩ := first_eq_some h
  simp only [Bool.and_eq_true, beq_iff_eq, bne_iff_ne] at hp
  exact ⟨hp.1.1.1.1.1.1.1.1, hp.1.1.1.1.1.2⟩

section
variable {pk staged kept : Pk} {c k : Client}

theorem keepClient_organizations : (db.keepClient pk staged c kept).organizations = db.organizations := by
  unfold keepClient
  dsimp only
  rw [delete_organizations (by simp [withClients])]
  exact delete_organizations (by simp [withClients]) _ _

theorem keepClient_leaves {j : Pk} {x : Client} (hx : db.clients.row j = some x) (hmandate : x.mandate = none)
    (hj : j ≠ staged) :
    ∃ x', (db.keepClient pk staged c kept).clients.row j = some x' ∧ x'.mandate = x.mandate
    ∧ x'.installation = x.installation
      ∧ x'.kind = x.kind := by
  obtain ⟨l, hrow⟩ := @delete_leaves_client db
    ((db.deviceCodes.pks fun k code => code.client == kept && k != pk).map fun k => ⟨.deviceCode, k⟩)
      (by simp [withClients])
    .deviceCode j x hx hmandate (by simp)
  unfold keepClient
  dsimp only
  generalize db.delete .deviceCode _ none = e at hrow ⊢
  have hroots : ∀ r ∈ [(⟨.client, staged⟩ : Ref)], r.model ∈ withClients := by simp [withClients]
  have hnot : (⟨.client, j⟩ : Ref) ∉ [(⟨.client, staged⟩ : Ref)] := by simpa using hj
  by_cases hkept : j = kept
  · subst hkept
    obtain ⟨l', hrow'⟩ := @delete_leaves_client { e with
        clients := e.clients.modify j fun k => { k with redirectUris := c.redirectUris, public_ := c.public_ },
        deviceCodes := e.deviceCodes.modify pk
          fun code => { code with pollingClientId := some c.clientId, client := j } }
      _ hroots .client j { x with scopes := l, redirectUris := c.redirectUris, public_ := c.public_ }
      (modify_row_eq_some.mpr (.inr ⟨rfl, _, hrow, rfl⟩)) hmandate hnot
    exact ⟨_, hrow', rfl, rfl, rfl⟩
  · obtain ⟨l', hrow'⟩ := @delete_leaves_client { e with
        clients := e.clients.modify kept fun k => { k with redirectUris := c.redirectUris, public_ := c.public_ },
        deviceCodes := e.deviceCodes.modify pk
          fun code => { code with pollingClientId := some c.clientId, client := kept } }
      _ hroots .client j { x with scopes := l } (modify_row_eq_some.mpr (.inl ⟨hkept, hrow⟩)) hmandate hnot
    exact ⟨_, hrow', rfl, rfl, rfl⟩

theorem keepClient_back {j : Pk} {x' : Client} (hx' : (db.keepClient pk staged c kept).clients.row j = some x') :
    ∃ x, db.clients.row j = some x ∧ x'.mandate = x.mandate ∧ x'.installation = x.installation
    ∧ x'.kind = x.kind := by
  unfold keepClient at hx'
  dsimp only at hx'
  obtain ⟨y, l, hy, rfl⟩ := delete_client_back (by simp [withClients]) hx'
  rcases modify_row_eq_some.mp hy with ⟨-, hz⟩ | ⟨-, z, hz, rfl⟩
  · obtain ⟨x, l', hx, rfl⟩ := delete_client_back (by simp [withClients]) hz
    exact ⟨x, hx, rfl, rfl, rfl⟩
  · obtain ⟨x, l', hx, rfl⟩ := delete_client_back (by simp [withClients]) hz
    exact ⟨x, hx, rfl, rfl, rfl⟩

/-- Another kind is in the way of the client that is kept where it is in the way of the staged one. -/
theorem keepClient_otherKind {s : Client} {spot : Installation} (hstaged : db.clients.row staged = some s)
    (hkept : db.clients.row kept = some k) (hkind : k.kind = s.kind) :
    (db.keepClient pk staged c kept).OtherKind kept s.kind spot ↔ db.OtherKind staged s.kind spot := by
  constructor
  · rintro ⟨j, x', -, hx', hmandate, hspot, hother⟩
    obtain ⟨x, hx, hxm, hxi, hxk⟩ := keepClient_back hx'
    refine ⟨j, x, ?_, hx, hxm ▸ hmandate, hxi ▸ hspot, hxk ▸ hother⟩
    rintro rfl
    rw [hstaged] at hx
    cases hx
    exact hother hxk
  · rintro ⟨j, x, hj, hx, hmandate, hspot, hother⟩
    obtain ⟨x', hx', hxm, hxi, hxk⟩ := @keepClient_leaves db pk staged kept c j x hx hmandate hj
    refine ⟨j, x', ?_, hx', hxm.trans hmandate, hxi.trans hspot, hxk ▸ hother⟩
    rintro rfl
    rw [hkept] at hx
    cases hx
    exact hother hkind

theorem keepClient_installable {s : Client} {manifest : Manifest} {membership : Pk} {m : Membership}
    {hub : Option Pk}
    {declined : List String} (hstaged : db.clients.row staged = some s) (hkept : db.clients.row kept = some k)
    (hkind : k.kind = s.kind) :
    (db.keepClient pk staged c kept).Installable env kept s.kind manifest membership m hub declined ↔
      db.Installable env staged s.kind manifest membership m hub declined := by
  have haside := @keepClient_aside db pk staged kept c
  have hspot : (db.keepClient pk staged c kept).spotOf env manifest membership m.organization hub
      = db.spotOf env manifest membership m.organization hub := by
    unfold spotOf
    rw [deviceOf_congr (keepClient_devices pk staged kept c)]
  have hcomposable : (db.keepClient pk staged c kept).Composable m.user hub declined manifest.requirements ↔
      db.Composable m.user hub declined manifest.requirements := composable_congr haside.instances haside.users _
  have horganizations : (db.keepClient pk staged c kept).organizations = db.organizations :=
    keepClient_organizations
  have hnow : (db.keepClient pk staged c kept).now = db.now := haside.now
  have hother := @keepClient_otherKind db pk staged kept c k s
    (db.spotOf env manifest membership m.organization hub) hstaged
    hkept hkind
  generalize db.keepClient pk staged c kept = e at hspot hcomposable horganizations hnow hother ⊢
  constructor
  · rintro ⟨hlogo, hdevice, hcompose, hfree⟩
    rw [hspot, hother] at hfree
    exact ⟨hnow ▸ hlogo, horganizations ▸ hdevice, hcomposable.mp hcompose, hfree⟩
  · rintro ⟨hlogo, hdevice, hcompose, hfree⟩
    rw [← hother, ← hspot] at hfree
    exact ⟨hnow ▸ hlogo, horganizations ▸ hdevice, hcomposable.mpr hcompose, hfree⟩

end

theorem validateDeviceCode_member {pk user organization hub : Pk} {code : DeviceCode} {manifest : Manifest}
    {declined : List String} {d : DB}
    (h : db.validateDeviceCode env pk code manifest user organization hub declined = .ok d) :
    ∃ k m, db.membershipOf user organization = some (k, m) := by
  simp only [validateDeviceCode, bind_ok, found_ok, Prod.exists] at h
  obtain ⟨k, m, hm, -⟩ := h
  exact ⟨k, m, hm⟩

/-- An approval goes through where the staged client is there, and is installable. -/
theorem validateDeviceCode_isOk {pk user organization hub membership : Pk} {code : DeviceCode}
    {manifest : Manifest}
    {declined : List String} {m : Membership} (hm : db.membershipOf user organization = some (membership, m)) :
    (∃ d, db.validateDeviceCode env pk code manifest user organization hub declined = .ok d) ↔
      ∃ s, db.clients.row code.client = some s ∧
        db.Installable env code.client s.kind manifest membership m (some hub) declined := by
  obtain ⟨hrow, -, -⟩ := membershipOf_some hm
  constructor
  · rintro ⟨d, h⟩
    simp only [validateDeviceCode, bind_ok, found_ok, Table.get_ok, pure_ok, Prod.exists] at h
    obtain ⟨m', row, hm', s, hs, c, hc, e, he, -⟩ := h
    rw [hm] at hm'
    cases hm'
    refine ⟨s, hs, ?_⟩
    cases hfind : db.findUnchangedClient env code.client s manifest membership organization (some hub) with
    | none =>
      simp only [hfind] at hc he
      rw [hs] at hc
      cases hc
      exact (bindClient_isOk hrow).mp ⟨e, he⟩
    | some r =>
      obtain ⟨kept, k⟩ := r
      simp only [hfind] at hc he
      obtain ⟨hk, -, -⟩ := findUnchangedClient_some hfind
      obtain ⟨-, hkind⟩ := findUnchangedClient_kind hfind
      obtain ⟨k₀, hk₀, -, -, hsame⟩ := keepClient_back hc
      rw [hk] at hk₀
      cases hk₀
      have hkept : (db.keepClient pk code.client s kept).memberships.row membership = some m := by
        rw [(keepClient_aside pk code.client kept s).memberships]
        exact hrow
      have hinstallable := (bindClient_isOk hkept).mp ⟨e, he⟩
      rw [hsame.trans hkind] at hinstallable
      exact (keepClient_installable hs hk hkind).mp hinstallable
  · rintro ⟨s, hs, h⟩
    simp only [validateDeviceCode, bind_ok, found_ok, Table.get_ok, pure_ok, Prod.exists]
    cases hfind : db.findUnchangedClient env code.client s manifest membership organization (some hub) with
    | none =>
      obtain ⟨e, he⟩ := (bindClient_isOk hrow).mpr h
      refine ⟨_, membership, m, hm, s, hs, s, ?_, e, ?_, rfl⟩
      · simpa only [hfind] using hs
      · simpa only [hfind] using he
    | some r =>
      obtain ⟨kept, k⟩ := r
      obtain ⟨hk, -, hmandate⟩ := findUnchangedClient_some hfind
      obtain ⟨hne, hkind⟩ := findUnchangedClient_kind hfind
      obtain ⟨k', hk', -, -, hsame⟩ := @keepClient_leaves db pk code.client kept s kept k hk hmandate hne
      have hkept : (db.keepClient pk code.client s kept).memberships.row membership = some m := by
        rw [(keepClient_aside pk code.client kept s).memberships]
        exact hrow
      have hinstallable : (db.keepClient pk code.client s kept).Installable env kept k'.kind
        manifest membership m (some hub)
          declined := by
        rw [hsame.trans hkind]
        exact (keepClient_installable hs hk hkind).mpr h
      obtain ⟨e, he⟩ := (bindClient_isOk hkept).mpr hinstallable
      refine ⟨_, membership, m, hm, s, hs, k', ?_, e, ?_, rfl⟩
      · simpa only [hfind] using hk'
      · simpa only [hfind] using he

end DB

namespace Action

variable (env : Env) (db : DB)

def accepted : Action → Option (Answer DB)
  | .acceptDeviceCode user pk proof hub declined allow minted =>
    some (db.acceptDeviceCode env user pk proof hub declined allow minted)
  | .acceptHubDeviceCode user pk proof organization allow minted =>
    some (db.acceptHubDeviceCode env user pk proof organization allow minted)
  | .acceptMeshDeviceCode user pk proof organization tags minted =>
    some (db.acceptMeshDeviceCode user pk proof organization tags minted)
  | _ => none

/-- The accept names a code that is denied, expired or already accepted. -/
def Stale : Action → Prop
  | .acceptDeviceCode _ pk .. | .acceptHubDeviceCode _ pk .. =>
    ∃ c, db.deviceCodes.row pk = some c ∧ (c.denied = true ∨ db.isExpired c = true ∨ c.organization.isSome = true)
  | .acceptMeshDeviceCode _ pk .. =>
    ∃ c, db.meshDeviceCodes.row pk = some c ∧ (c.denied = true ∨ c.expiresAt < db.now ∨ c.authKey.isSome = true)
  | _ => False

/-- The accept is raised, and nothing changed. -/
def ChangesNothing (a : Action) : Prop := (∃ e, a.accepted env db = some (.error e)) ∧ step env db a = db

/-- The caller saw the code and may approve it there. -/
def Checked : Action → Prop
  | .acceptDeviceCode user pk proof hub _ _ _ =>
    ∃ c h m, db.deviceCodes.row pk = some c ∧ c.kind = .app ∧ proof = some c.code
      ∧ db.hubs.row hub = some h ∧ db.assertMemberOrGuest user h.organization = .ok m
      ∧ (db.isScoped m = true → ∃ g ∈ db.liveGrants m, db.hubOf g.2.instance_ = some hub)
  | .acceptHubDeviceCode user pk proof organization _ _ => ∃ c, db.deviceCodes.row pk = some c ∧ c.kind = .hub
      ∧ proof = some c.code ∧ (∃ o, db.organizations.row organization = some o)
      ∧ (∃ k x, db.memberships.row k = some x ∧ x.organization = organization ∧ x.user = user
        ∧ db.isScoped k = false)
      ∧ db.isOwnerOrAdmin user organization = true
  | .acceptMeshDeviceCode user pk proof organization _ _ =>
    ∃ c, db.meshDeviceCodes.row pk = some c ∧ proof = some c.code
      ∧ (∃ o, db.organizations.row organization = some o) ∧ db.isOwnerOrAdmin user organization = true
  | _ => False

/-- The one accept that looks at the state of its code, and the states it looks at. -/
def SeenStale : Action → Prop
  | .acceptDeviceCode _ pk .. => ∃ c, db.deviceCodes.row pk = some c ∧ (c.denied = true ∨ db.isExpired c = true)
  | _ => False

/-- What is asked for is to be had: the app is installable, the hub provisionable, the machine's key minted
under its tags. -/
def Provides : Action → Prop
  | .acceptDeviceCode user pk _ hub declined _ _ =>
    ∃ c h manifest s k m, db.deviceCodes.row pk = some c ∧ db.hubs.row hub = some h
      ∧ c.staging = .app manifest ∧ db.clients.row c.client = some s
      ∧ db.membershipOf user h.organization = some (k, m)
      ∧ db.Installable env c.client s.kind manifest k m (some hub) declined
  | .acceptHubDeviceCode _ pk _ organization _ _ =>
    ∃ c manifest, db.deviceCodes.row pk = some c ∧ c.staging = .hub manifest
      ∧ db.Provisionable env organization manifest c.client
  | .acceptMeshDeviceCode _ _ _ _ tags minted => DB.reservedTags tags = [] ∧ minted.isSome = true
  | _ => False

/-- Why the accept of a stale code is refused. -/
def RefusedAnyway (a : Action) : Prop := ¬ a.Checked db ∨ a.SeenStale db ∨ ¬ a.Provides env db

def OfHub : Action → Prop
  | .acceptHubDeviceCode .. => True
  | _ => False

variable {env db}

theorem changesNothing_iff {a : Action} {x : Answer DB} (hx : a.accepted env db = some x)
    (hstep : step env db a = db.settle x) :
    a.ChangesNothing env db ↔ ∀ d, x ≠ .ok d := by
  unfold ChangesNothing
  rw [hx, hstep]
  cases x with
  | ok d => simp
  | error e => simp [DB.settle]

theorem resolveDeviceCode_iff {pk : Pk} {proof : Option Nat} {kind : DeviceCodeKind} {c : DeviceCode} :
    db.resolveDeviceCode pk proof kind = .ok c
    ↔ db.deviceCodes.row pk = some c ∧ c.kind = kind ∧ proof = some c.code := by
  simp only [DB.resolveDeviceCode, bind_ok, found_ok, require_ok, exists_unit, pure_ok,
    Bool.and_eq_true, beq_iff_eq]
  constructor
  · rintro ⟨x, hx, hp, rfl⟩
    exact ⟨hx, hp⟩
  · rintro ⟨hx, hp⟩
    exact ⟨c, hx, hp, rfl⟩

/-- The accept of an app goes through when its checks do, the code is seen to be fresh, and the app can be
bound. -/
theorem acceptDeviceCode_ok_iff {user pk hub : Pk} {proof : Option Nat} {declined : List String} {allow : Bool}
    {minted : Option String} : (∃ d, db.acceptDeviceCode env user pk proof hub declined allow minted = .ok d)
      ↔ (Action.acceptDeviceCode user pk proof hub declined allow minted).Checked db
        ∧ ¬ (Action.acceptDeviceCode user pk proof hub declined allow minted).SeenStale db
        ∧ (Action.acceptDeviceCode user pk proof hub declined allow minted).Provides env db := by
  simp only [DB.acceptDeviceCode, bind_ok, found_ok, require_ok, exists_unit, resolveDeviceCode_iff]
  constructor
  · rintro ⟨d, c, ⟨hc, hkind, hproof⟩, hexpired, hdenied, h, hh, m, hm, hguest, hd⟩
    refine ⟨⟨c, h, m, hc, hkind, hproof, hh, hm, fun hscoped => ?_⟩, ?_, ?_⟩
    · simpa [hscoped] using hguest
    · rintro ⟨c', hc', hstale⟩
      rw [hc] at hc'
      cases hc'
      simp only [Bool.not_eq_true'] at hexpired hdenied
      rcases hstale with hstale | hstale
      · rw [hdenied] at hstale
        cases hstale
      · rw [hexpired] at hstale
        cases hstale
    · split at hd
      · simp at hd
      · rename_i manifest hstaging
        simp only [bind_ok] at hd
        obtain ⟨e, he, -⟩ := hd
        obtain ⟨k, row, hmember⟩ := DB.validateDeviceCode_member he
        obtain ⟨s, hs, hinstallable⟩ := (DB.validateDeviceCode_isOk hmember).mp ⟨e, he⟩
        exact ⟨c, h, manifest, s, k, row, hc, hh, hstaging, hs, hmember, hinstallable⟩
  · rintro ⟨⟨c, h, m, hc, hkind, hproof, hh, hm, hguest⟩, hfresh, c', h', manifest, s, k,
      row, hc', hh', hstaging, hs,
      hmember, hinstallable⟩
    rw [hc] at hc'
    rw [hh] at hh'
    cases hc'
    cases hh'
    obtain ⟨e, he⟩ := (@DB.validateDeviceCode_isOk _ _ pk _ _ _ _ _ _ _ _ hmember).mpr ⟨s, hs, hinstallable⟩
    have hdenied : c.denied = false := by
      cases hd : c.denied with
      | false => rfl
      | true => exact absurd ⟨c, hc, .inl hd⟩ hfresh
    have hexpired : db.isExpired c = false := by
      cases hd : db.isExpired c with
      | false => rfl
      | true => exact absurd ⟨c, hc, .inr hd⟩ hfresh
    have hgrant : (!db.isScoped m
      || (db.liveGrants m).any fun g => db.hubOf g.2.instance_ == some hub) = true := by
      cases hscoped : db.isScoped m with
      | false => rfl
      | true => simpa using hguest hscoped
    refine ⟨if allow && c.requestAuthKey
      && (!db.isScoped m || (db.meshHubIds m).contains hub) then e.attachMeshKey pk minted
      else e, c, ⟨hc, hkind, hproof⟩, by simp [hexpired], by simp [hdenied], h, hh, m, hm, hgrant, ?_⟩
    rw [hstaging]
    exact bind_ok.mpr ⟨e, he, rfl⟩

/-- The accept of a hub goes through only when its checks do and the hub can be provisioned. -/
theorem acceptHubDeviceCode_needs {user pk organization : Pk} {proof : Option Nat} {allow : Bool}
    {minted : Option String} {d : DB}
    (h : db.acceptHubDeviceCode env user pk proof organization allow minted = .ok d) :
    (Action.acceptHubDeviceCode user pk proof organization allow minted).Checked db
      ∧ (Action.acceptHubDeviceCode user pk proof organization allow minted).Provides env db := by
  simp only [DB.acceptHubDeviceCode, bind_ok, found_ok, require_ok, exists_unit, resolveDeviceCode_iff] at h
  obtain ⟨c, ⟨hc, hkind, hproof⟩, o, ho, hmember, hadmin, h⟩ := h
  refine ⟨⟨c, hc, hkind, hproof, ⟨o, ho⟩, ?_, hadmin⟩, ?_⟩
  · obtain ⟨k, x, hx, hp⟩ := Table.exists?_eq_true.mp hmember
    simp only [Bool.and_eq_true, beq_iff_eq, Bool.not_eq_true'] at hp
    exact ⟨k, x, hx, hp.1.1, hp.1.2, hp.2⟩
  · split at h
    · simp at h
    · rename_i manifest hstaging
      exact ⟨c, manifest, hc, hstaging, DB.provisionHub_needs h⟩

theorem acceptMeshDeviceCode_ok_iff {user pk organization : Pk} {proof : Option Nat} {tags : List String}
    {minted : Option String} :
    (∃ d, db.acceptMeshDeviceCode user pk proof organization tags minted = .ok d)
      ↔ (Action.acceptMeshDeviceCode user pk proof organization tags minted).Checked db
        ∧ (Action.acceptMeshDeviceCode user pk proof organization tags minted).Provides env db := by
  simp only [DB.acceptMeshDeviceCode, DB.resolveMeshDeviceCode, bind_ok, found_ok, require_ok, exists_unit,
    pure_ok, beq_iff_eq,
    List.isEmpty_iff]
  constructor
  · rintro ⟨d, c, ⟨x, hx, hproof, rfl⟩, o, ho, hadmin, htags, key, rfl, -⟩
    exact ⟨⟨x, hx, hproof, ⟨o, ho⟩, hadmin⟩, htags, rfl⟩
  · rintro ⟨⟨c, hc, hproof, ⟨o, ho⟩, hadmin⟩, htags, hminted⟩
    obtain ⟨key, rfl⟩ := Option.isSome_iff_exists.mp hminted
    exact ⟨_, c, ⟨c, hc, hproof, rfl⟩, o, ho, hadmin, htags, key, rfl, rfl⟩

end Action

/-- An accept of a stale code changes nothing when it fails a check that does not look at the code's state,
when it is an app's and the code is denied or expired, or when what is asked for is not to be had. -/
theorem Action.changesNothing_of_refused {env : Env} {db : DB} {a : Action} (hstale : a.Stale db)
    (hrefused : a.RefusedAnyway env db) : a.ChangesNothing env db := by
  cases a with
  | acceptDeviceCode user pk proof hub declined allow minted =>
    rw [Action.changesNothing_iff rfl rfl, ← not_exists, Action.acceptDeviceCode_ok_iff,
      not_and_or, not_and_or, not_not]
    exact hrefused
  | acceptHubDeviceCode user pk proof organization allow minted =>
    rw [Action.changesNothing_iff rfl rfl]
    intro d hd
    obtain ⟨hchecked, hprovides⟩ := Action.acceptHubDeviceCode_needs hd
    rcases hrefused with hunchecked | hseen | hnot
    · exact hunchecked hchecked
    · exact hseen
    · exact hnot hprovides
  | acceptMeshDeviceCode user pk proof organization tags minted =>
    rw [Action.changesNothing_iff rfl rfl, ← not_exists, @Action.acceptMeshDeviceCode_ok_iff env, not_and_or]
    exact hrefused.elim .inl fun h => h.elim False.elim .inr
  | _ => exact hstale.elim

/-- For an app and a machine there is no other reason. -/
theorem Action.refused_of_changesNothing {env : Env} {db : DB} {a : Action} (hstale : a.Stale db) (hnot : ¬ a.OfHub)
    (hnothing : a.ChangesNothing env db) : a.RefusedAnyway env db := by
  cases a with
  | acceptDeviceCode user pk proof hub declined allow minted =>
    rw [Action.changesNothing_iff rfl rfl, ← not_exists, Action.acceptDeviceCode_ok_iff,
      not_and_or, not_and_or, not_not] at hnothing
    exact hnothing
  | acceptHubDeviceCode user pk proof organization allow minted => exact absurd trivial hnot
  | acceptMeshDeviceCode user pk proof organization tags minted =>
    rw [Action.changesNothing_iff rfl rfl, ← not_exists, @Action.acceptMeshDeviceCode_ok_iff env,
      not_and_or] at hnothing
    exact hnothing.elim .inl fun h => .inr (.inr h)
  | _ => exact hstale.elim

/-- Accepts that change nothing can be left out of a run. -/
theorem Action.run_without_stale {env : Env} {db d : DB} {as : List Action}
    (h : Run (fun s a t => Step env s a t ∧ (a.Stale s → a.ChangesNothing env s)) db as d) :
    ∃ bs, bs.Sublist as ∧ Run (fun s a t => Step env s a t ∧ ¬ a.Stale s) db bs d := by
  induction h with
  | nil s => exact ⟨[], .slnil, .nil s⟩
  | @cons s t u a as hst _ ih =>
    obtain ⟨bs, hbs, hfresh⟩ := ih
    by_cases hstale : a.Stale s
    · -- the state is the one before
      obtain ⟨rfl, hnothing⟩ := hst
      rw [(hnothing hstale).2] at hfresh
      exact ⟨bs, hbs.cons a, hfresh⟩
    · exact ⟨a :: bs, hbs.cons_cons a, .cons ⟨hst.1, hstale⟩ hfresh⟩

/-- In every run in which the accepts of stale codes are refused anyway each of them is raised and changes
nothing, and the run leads where it leads without them; for an app and a machine, only then. -/
theorem stale_accept_changes_nothing (env : Env) :
    (∀ {db d : DB} {as : List Action},
      Run (fun s a t => Step env s a t ∧ (a.Stale s → a.RefusedAnyway env s)) db as d →
        Run (fun s a t => Step env s a t ∧ (a.Stale s → a.ChangesNothing env s)) db as d
        ∧ ∃ bs, bs.Sublist as ∧ Run (fun s a t => Step env s a t ∧ ¬ a.Stale s) db bs d)
    ∧ ∀ {db : DB} {a : Action}, a.Stale db → ¬ a.OfHub → (a.ChangesNothing env db ↔ a.RefusedAnyway env db) := by
  refine ⟨fun {db d as} hrun => ?_, fun hstale hnot =>
    ⟨Action.refused_of_changesNothing hstale hnot, Action.changesNothing_of_refused hstale⟩⟩
  have hrun : Run (fun s a t => Step env s a t ∧ (a.Stale s → a.ChangesNothing env s)) db as d :=
    hrun.mono fun hst => ⟨hst.1, fun hstale => Action.changesNothing_of_refused hstale (hst.2 hstale)⟩
  exact ⟨hrun, Action.run_without_stale hrun⟩

/-- Ann's hub runs, and she declines a code that was staged for it. -/
def declinedHub : List Action :=
  [.createUser "ann" [], .createOrganization "org" 0 false, .startHubDeviceCode plainHub 600,
   .acceptHubDeviceCode 0 0 (some 1) 0 false none, .startHubDeviceCode plainHub 600,
   .declineDeviceCode 1 (some 4) .hub]

/-- An app's code that has expired is refused in the middle of a run. -/
theorem stale_accept_changes_nothing_expired :
    ∃ db d, (Action.acceptDeviceCode 0 0 (some 1) 0 [] false none).Stale (step plainEnv db (.tick 900))
      ∧ Run (fun s a t => Step plainEnv s a t ∧ (a.Stale s → a.ChangesNothing plainEnv s)) db
        [.tick 900, .acceptDeviceCode 0 0 (some 1) 0 [] false none, .createUser "bob" []] d := by
  have hexpired : ((step plainEnv (run plainEnv .empty (plainSetup [])) (.tick 900)).deviceCodes.row 0).any
      (step plainEnv (run plainEnv .empty (plainSetup [])) (.tick 900)).isExpired = true := by decide +kernel
  generalize run plainEnv .empty (plainSetup []) = db at hexpired
  obtain ⟨c, hc, hp⟩ := (Option.any_eq_true _ _).mp hexpired
  have hrun : Run (fun s a t => Step plainEnv s a t ∧ (a.Stale s → a.RefusedAnyway plainEnv s)) db
      [.tick 900, .acceptDeviceCode 0 0 (some 1) 0 [] false none, .createUser "bob" []] _ :=
    .cons ⟨rfl, False.elim⟩ (.cons ⟨rfl, fun _ => .inr (.inl ⟨c, hc, .inr hp⟩)⟩ (.single ⟨rfl, False.elim⟩))
  exact ⟨db, _, ⟨c, hc, .inr (.inl hp)⟩, ((stale_accept_changes_nothing plainEnv).1 hrun).1⟩

/-- The declined code is accepted, and the hub's working identity is gone. -/
theorem declined_hub_accepted :
    (Action.acceptHubDeviceCode 0 1 (some 4) 0 false none).Stale (run plainEnv .empty declinedHub)
      ∧ ((run plainEnv .empty declinedHub).clients.row 0).isSome = true
      ∧ (step plainEnv (run plainEnv .empty declinedHub)
        (.acceptHubDeviceCode 0 1 (some 4) 0 false none)).clients.row 0 = none
      ∧ ¬ (Action.acceptHubDeviceCode 0 1 (some 4) 0 false none).ChangesNothing plainEnv
      (run plainEnv .empty declinedHub) := by
  have hdenied : ((run plainEnv .empty declinedHub).deviceCodes.row 1).any (·.denied) = true := by decide +kernel
  have hbefore : ((run plainEnv .empty declinedHub).clients.row 0).isSome = true := by decide +kernel
  have hafter : (step plainEnv (run plainEnv .empty declinedHub)
    (.acceptHubDeviceCode 0 1 (some 4) 0 false none)).clients.row 0
      = none := by decide +kernel
  generalize run plainEnv .empty declinedHub = db at hdenied hbefore hafter ⊢
  obtain ⟨c, hc, hp⟩ := (Option.any_eq_true _ _).mp hdenied
  refine ⟨⟨c, hc, .inl hp⟩, hbefore, hafter, ?_⟩
  intro hnothing
  rw [hnothing.2] at hafter
  rw [hafter] at hbefore
  cases hbefore

end Lok
