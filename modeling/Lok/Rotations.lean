import Lok.Compositions
import Lok.System

/-!
# Approving an app again

An approval deletes the client it replaces and takes its place. What it deletes are the clients of
its own kind at the same installation; what the database forbids is another client there of any
kind. So a second kind is refused where the constraint sees it, and stays beside the first where a
missing device or hub hides it.
-/

namespace Lok

open Table Checks

/-- Which app of whom, on which device and for which hub. -/
structure Installation where
  release : Option Release
  membership : Option Pk
  node : Option Pk
  hub : Option Pk
  deriving DecidableEq, Repr

def Client.installation (c : Client) : Installation := ⟨c.release, c.membership, c.node, c.hub⟩

namespace DB

variable {db d : DB} {env : Env}

/-! ## Deleting the earlier clients -/

section
variable {client : Pk} {stale : List Pk} (hclient : client ∉ stale)
include hclient

theorem collect_stale_ne {model : Model} (hmodel : model = .device ∨ model = .scope ∨ model = .mandate) :
    ∀ r ∈ (db.reissue stale client).collect (stale.map fun s => ⟨.client, s⟩), r.model ≠ model := by
  intro r hr heq
  rcases collect_stale hclient hr with ⟨s, -, rfl⟩ | h | h
  · rcases hmodel with rfl | rfl | rfl <;> cases heq
  · rw [h] at heq
    subst heq
    simp at hmodel
  · rw [h] at heq
    subst heq
    simp at hmodel

theorem dropStale_clients (k : Pk) :
    (db.dropStale client stale).clients.row k = if k ∈ stale then none else db.clients.row k := by
  have hgone : (⟨.client, k⟩ : Ref) ∈ (db.reissue stale client).collect (stale.map fun s => ⟨.client, s⟩)
    ↔ k ∈ stale := by
    constructor
    · intro h
      rcases collect_stale hclient h with ⟨s, hs, heq⟩ | heq | heq
      · cases heq
        exact hs
      · cases heq
      · cases heq
    · intro h
      exact mem_collect_root (List.mem_map.mpr ⟨k, h, rfl⟩)
  obtain ⟨held, heq⟩ := dropStale_eq hclient db
  rw [heq]
  show (Table.update (Table.keep _ _) _).row k = _
  rw [update_eq_self fun _ _ _ => by
    rw [keepOpt_eq_self (collect_stale_ne hclient (.inl rfl)),
      keepList_eq_self (collect_stale_ne hclient (.inr (.inl rfl)))]]
  show Option.filter (fun _ => keeps _ .client k) (db.clients.row k) = _
  by_cases hk : k ∈ stale
  · rw [if_pos hk]
    simp [keeps, hgone.mpr hk]
  · rw [if_neg hk]
    have : (⟨.client, k⟩ : Ref) ∉ (db.reissue stale client).collect (stale.map fun s => ⟨.client, s⟩) :=
      fun h => hk (hgone.mp h)
    cases db.clients.row k <;> simp [keeps, this]

theorem dropStale_mandates_eq : (db.dropStale client stale).mandates = (db.reissue stale client).mandates := by
  obtain ⟨held, heq⟩ := dropStale_eq hclient db
  rw [heq]
  exact keep_eq_self fun pk _ => keeps_eq_true (collect_stale_ne hclient (.inr (.inr rfl))) pk

theorem dropStale_mappings {k : Pk} {m : ServiceInstanceMapping} (hm : m.client ∉ stale) :
    (db.dropStale client stale).mappings.row k = some m ↔ db.mappings.row k = some m := by
  obtain ⟨held, heq⟩ := dropStale_eq hclient db
  rw [heq]
  refine keep_row_eq_some.trans (and_iff_left_of_imp fun hrow => ?_)
  simp only [keeps, Bool.not_eq_true', List.contains_eq_mem, decide_eq_false_iff_not]
  intro h
  rcases collect_stale_rows hclient h with ⟨s, -, heq⟩ | ⟨-, x, hx, hgone⟩ | heq
  · cases heq
  · have hx : db.mappings.row k = some x := hx
    have hrow : db.mappings.row k = some m := hrow
    rw [hrow] at hx
    cases hx
    exact hm hgone
  · cases heq

end

/-! ## The clients at an installation -/

theorem mem_staleClients_iff {pk k membership : Pk} {kind : ClientKind} {release : Release}
    {node hub : Option Pk} :
    k ∈ db.staleClients pk kind release membership node hub none ↔ k ≠ pk ∧ ∃ c, db.clients.row k = some c ∧
      c.mandate = none ∧ c.installation = ⟨some release, some membership, node, hub⟩ ∧ c.kind = kind := by
  simp only [staleClients, mem_pks, Bool.and_eq_true, bne_iff_ne, beq_iff_eq, Client.installation,
    Installation.mk.injEq]
  constructor
  · intro h
    obtain ⟨c, hc, hne, ⟨⟨⟨⟨hrelease, hmembership⟩, hnode⟩, hhub⟩, hkind⟩, hmandate⟩ := h
    exact ⟨hne, c, hc, hmandate, ⟨hrelease, hmembership, hnode, hhub⟩, hkind⟩
  · intro h
    obtain ⟨hne, c, hc, hmandate, ⟨hrelease, hmembership, hnode, hhub⟩, hkind⟩ := h
    exact ⟨c, hc, hne, ⟨⟨⟨⟨hrelease, hmembership⟩, hnode⟩, hhub⟩, hkind⟩, hmandate⟩

/-- A client that no mandate lets in is at the installation already, and is of another kind. -/
def OtherKind (db : DB) (pk : Pk) (kind : ClientKind) (spot : Installation) : Prop :=
  ∃ k c, k ≠ pk ∧ db.clients.row k = some c ∧ c.mandate = none ∧ c.installation = spot ∧ c.kind ≠ kind

/-- The constraint compares installations whose columns are all given. -/
theorem sameIdentity_iff {a b : Client} (ha : a.mandate = none) (hrelease : a.release.isSome = true)
    (hmembership : a.membership.isSome = true) :
    sameIdentity a b = true ↔ b.mandate = none ∧ b.installation = a.installation ∧ a.node.isSome = true
    ∧ a.hub.isSome = true := by
  unfold sameIdentity
  rw [ha]
  cases hb : b.mandate with
  | some m => simp
  | none =>
    simp only [Bool.and_eq_true, beq_iff_eq, Client.installation, Installation.mk.injEq, true_and]
    constructor
    · intro h
      obtain ⟨⟨⟨⟨⟨⟨⟨-, hr⟩, -⟩, hm⟩, hn⟩, hne⟩, hh⟩, hhe⟩ := h
      exact ⟨⟨hr.symm, hm.symm, hne.symm, hhe.symm⟩, hn, hh⟩
    · intro h
      obtain ⟨⟨hr, hm, hne, hhe⟩, hn, hh⟩ := h
      exact ⟨⟨⟨⟨⟨⟨⟨hrelease, hr.symm⟩, hmembership⟩, hm.symm⟩, hn⟩, hne.symm⟩, hh⟩, hhe.symm⟩

/-! ## What a re-approval is to do -/

/-- One client is at the installation, it took over what the others there had issued, and no one else was
touched. -/
structure Replaced (db d : DB) (pk : Pk) (spot : Installation) : Prop where
  bound : ∃ c, d.clients.row pk = some c ∧ c.mandate = none ∧ c.installation = spot
  only : ∀ k c, d.clients.row k = some c → c.mandate = none → c.installation = spot → k = pk
  mandates : ∀ M m s c, db.mandates.row M = some m → m.issuingClient = some s → db.clients.row s = some c →
    c.mandate = none → c.installation = spot → d.mandates.row M = some { m with issuingClient := some pk }
  others : ∀ k c, k ≠ pk → db.clients.row k = some c → (c.mandate = none → c.installation ≠ spot) →
    d.clients.row k = some c

/-- Where a client of a manifest is installed. -/
def spotOf (db : DB) (env : Env) (manifest : Manifest) (membership organization : Pk) (hub : Option Pk) :
    Installation :=
  ⟨some ⟨organization, manifest.identifier, manifest.version⟩, some membership,
    (db.deviceOf env manifest.deviceId organization).2, hub⟩

/-- No constraint is violated, and a binding that is not refused replaces its predecessor. -/
def Rotates (db : DB) (env : Env) (pk : Pk) (c : Client) (manifest : Manifest) (membership : Pk) (hub : Option Pk)
    (declined : List String) : Prop :=
  (∀ text, db.bindClient env pk c manifest membership hub declined none ≠ .error ⟨.integrityError, text⟩) ∧
    ∀ d, db.bindClient env pk c manifest membership hub declined none = .ok d →
      ∃ m, db.memberships.row membership = some m
        ∧ Replaced db d pk (db.spotOf env manifest membership m.organization hub)

/-- No check stands before the place where another kind is in the way: where the constraint sees the client that
is its save, and else all the binding has to do. -/
def GetsThere (db : DB) (env : Env) (manifest : Manifest) (m : Membership) (spot : Installation)
    (declined : List String) : Prop :=
  env.logoFault db.now manifest = none ∧
    (∃ o, db.organizations.row m.organization = some o ∧
      (o.requireDeviceAuth = true → (given manifest.deviceId).isSome = true)) ∧
    (spot.node.isSome = true ∧ spot.hub.isSome = true
      ∨ db.Composable m.user spot.hub declined manifest.requirements)

section
variable {pk membership : Pk} {c : Client} {manifest : Manifest} {hub : Option Pk}
  {declined : List String} {m : Membership}

/-- The database as the save of the bound client finds it. -/
def cleared (db : DB) (env : Env) (pk : Pk) (kind : ClientKind) (manifest : Manifest) (membership : Pk)
    (m : Membership) (hub : Option Pk) : DB :=
  let e := (db.deviceOf env manifest.deviceId m.organization).1
  e.dropStale pk (e.staleClients pk kind ⟨m.organization, manifest.identifier, manifest.version⟩ membership
    (db.deviceOf env manifest.deviceId m.organization).2 hub none)

theorem cleared_aside (kind : ClientKind) : Aside db (db.cleared env pk kind manifest membership m hub) :=
  (deviceOf_aside _ _).trans (dropStale_aside _ _)

theorem cleared_clients {kind : ClientKind} {k : Pk} {x : Client} :
    (db.cleared env pk kind manifest membership m hub).clients.row k = some x ↔ db.clients.row k = some x ∧
      (k ≠ pk → x.mandate = none → x.installation = db.spotOf env manifest membership m.organization hub →
        x.kind ≠ kind) := by
  rw [cleared, dropStale_clients fun h => mem_staleClients h rfl, deviceOf_clients]
  split
  · rename_i hmem
    obtain ⟨hne, y, hy, hmandate, hspot, hkind⟩ := mem_staleClients_iff.mp hmem
    rw [deviceOf_clients] at hy
    constructor
    · intro h
      cases h
    · intro h
      rw [hy] at h
      obtain ⟨heq, hother⟩ := h
      cases heq
      exact absurd hkind (hother hne hmandate hspot)
  · rename_i hmem
    refine ⟨fun h => ⟨h, fun hne hmandate hspot hkind => hmem ?_⟩, And.left⟩
    exact mem_staleClients_iff.mpr ⟨hne, x, by rw [deviceOf_clients]; exact h, hmandate, hspot, hkind⟩

theorem cleared_mandates {kind : ClientKind} {M s : Pk} {x : Mandate} {y : Client}
    (hM : db.mandates.row M = some x)
    (hs : x.issuingClient = some s) (hy : db.clients.row s = some y) (hmandate : y.mandate = none)
    (hspot : y.installation = db.spotOf env manifest membership m.organization hub)
    (hkind : s ≠ pk → y.kind = kind) :
    (db.cleared env pk kind manifest membership m hub).mandates.row M = some
    { x with issuingClient := some pk } := by
  rw [cleared, dropStale_mandates_eq fun h => mem_staleClients h rfl, reissue, deviceOf_mandates]
  refine updateWhere_row_eq_some.mpr ⟨x, hM, ?_⟩
  by_cases hne : s = pk
  · subst hne
    split
    · rfl
    · rw [← hs]
  · have hmem : s ∈ (db.deviceOf env manifest.deviceId m.organization).1.staleClients pk kind
        ⟨m.organization, manifest.identifier, manifest.version⟩ membership
        (db.deviceOf env manifest.deviceId m.organization).2 hub none :=
      mem_staleClients_iff.mpr ⟨hne, y, by rw [deviceOf_clients]; exact hy, hmandate, hspot, hkind hne⟩
    rw [if_pos (by simp [hs, hmem])]

def boundTo (env : Env) (c : Client) (manifest : Manifest) (organization : Pk) (spot : Installation) : Client :=
  { c with mandate := none, manifestHash := env.hashManifest manifest, membership := spot.membership,
           organization := some organization, release := spot.release, hub := spot.hub, node := spot.node,
           manifest := some manifest }

theorem bindClient_eq (hm : db.memberships.row membership = some m)
    (hlogo : env.logoFault db.now manifest = none) {o : Organization}
    (ho : db.organizations.row m.organization = some o)
    (hauth : o.requireDeviceAuth = true → (given manifest.deviceId).isSome = true) :
    db.bindClient env pk c manifest membership hub declined none
      = (db.cleared env pk c.kind manifest membership m hub).installClient pk
          (boundTo env c manifest m.organization (db.spotOf env manifest membership m.organization hub))
          manifest m.user
          m.organization declined := by
  have hcheck : (!o.requireDeviceAuth || (given manifest.deviceId).isSome) = true := by
    cases hrequired : o.requireDeviceAuth with
    | false => rfl
    | true => simpa using hauth hrequired
  simp only [bindClient, Table.get, hm, ho, hlogo, found, whenSome, bind, Except.bind, assert, require, hcheck,
    if_true]
  rfl

/-- The constraint is in the way exactly when it sees a client of another kind. -/
theorem blocked_iff : ((db.cleared env pk c.kind manifest membership m hub).clients.exists?
    fun k d => k != pk && sameIdentity
      (boundTo env c manifest m.organization (db.spotOf env manifest membership m.organization hub)) d) = true ↔
    (db.spotOf env manifest membership m.organization hub).node.isSome = true ∧ hub.isSome = true ∧
      db.OtherKind pk c.kind (db.spotOf env manifest membership m.organization hub) := by
  have hsame : ∀ x, sameIdentity
    (boundTo env c manifest m.organization (db.spotOf env manifest membership m.organization hub)) x
      = true ↔ x.mandate = none ∧ x.installation = db.spotOf env manifest membership m.organization hub ∧
        (db.spotOf env manifest membership m.organization hub).node.isSome = true ∧ hub.isSome = true :=
    fun x => sameIdentity_iff rfl rfl rfl
  simp only [exists?_eq_true, Bool.and_eq_true, bne_iff_ne, hsame, cleared_clients]
  constructor
  · intro h
    obtain ⟨k, x, ⟨hx, hother⟩, hne, hmandate, hspot, hnode, hhub⟩ := h
    exact ⟨hnode, hhub, k, x, hne, hx, hmandate, hspot, hother hne hmandate hspot⟩
  · intro h
    obtain ⟨hnode, hhub, k, x, hne, hx, hmandate, hspot, hkind⟩ := h
    exact ⟨k, x, ⟨hx, fun _ _ _ => hkind⟩, hne, hmandate, hspot, hnode, hhub⟩

theorem installClient_elsewhere {e : DB} {bound : Client} {user organization : Pk}
    (h : e.installClient pk bound manifest user organization declined = .ok d) :
    d.mandates = e.mandates ∧ ∀ k, k ≠ pk → d.clients.row k = e.clients.row k := by
  simp only [installClient, saveClient, bind_ok, require_ok, exists_unit, pure_ok] at h
  obtain ⟨_, ⟨-, rfl⟩, f, hf, rfl⟩ := h
  obtain ⟨⟨x, y, rfl⟩, hothers⟩ := autoCompose_elsewhere hf
  refine ⟨rfl, fun k hk => ?_⟩
  rw [modify_row_of_ne hk]
  rw [hothers k hk, put_row, if_neg hk]

/-- A binding that goes through replaces its predecessor, but for predecessors of another kind. -/
theorem replaced_iff (h : (db.cleared env pk c.kind manifest membership m hub).installClient pk
      (boundTo env c manifest m.organization (db.spotOf env manifest membership m.organization hub))
      manifest m.user
      m.organization declined = .ok d) :
    Replaced db d pk (db.spotOf env manifest membership m.organization hub) ↔
      ¬ db.OtherKind pk c.kind (db.spotOf env manifest membership m.organization hub) := by
  obtain ⟨hmandates, hothers⟩ := installClient_elsewhere h
  obtain ⟨_, _, _, hrow⟩ := installClient_row h
  constructor
  · intro hreplaced hother
    obtain ⟨k, x, hne, hx, hmandate, hspot, hkind⟩ := hother
    refine hne (hreplaced.only k x ?_ hmandate hspot)
    rw [hothers k hne]
    exact cleared_clients.mpr ⟨hx, fun _ _ _ => hkind⟩
  · intro hnone
    have hkind : ∀ k x, db.clients.row k = some x → x.mandate = none →
        x.installation = db.spotOf env manifest membership m.organization hub → k ≠ pk → x.kind = c.kind := by
      intro k x hx hmandate hspot hne
      by_contra hkind
      exact hnone ⟨k, x, hne, hx, hmandate, hspot, hkind⟩
    refine ⟨⟨_, hrow, rfl, rfl⟩, ?_, ?_, ?_⟩
    · intro k x hx hmandate hspot
      by_contra hne
      rw [hothers k hne] at hx
      obtain ⟨hx, hother⟩ := cleared_clients.mp hx
      exact hother hne hmandate hspot (hkind k x hx hmandate hspot hne)
    · intro M x s y hM hs hy hmandate hspot
      rw [hmandates]
      exact cleared_mandates hM hs hy hmandate hspot (hkind s y hy hmandate hspot)
    · intro k x hne hx hapart
      rw [hothers k hne]
      exact cleared_clients.mpr ⟨hx, fun _ hmandate hspot => absurd hspot (hapart hmandate)⟩

/-- Saved and composed, or stopped by the constraint or by a requirement that is not to be had. -/
theorem installClient_cleared :
    ((db.spotOf env manifest membership m.organization hub).node.isSome = true ∧ hub.isSome = true ∧
        db.OtherKind pk c.kind (db.spotOf env manifest membership m.organization hub) ∧
        ∃ text, (db.cleared env pk c.kind manifest membership m hub).installClient pk
          (boundTo env c manifest m.organization (db.spotOf env manifest membership m.organization hub))
          manifest m.user
          m.organization declined = .error ⟨.integrityError, text⟩) ∨
      ¬ ((db.spotOf env manifest membership m.organization hub).node.isSome = true ∧ hub.isSome = true ∧
        db.OtherKind pk c.kind (db.spotOf env manifest membership m.organization hub)) ∧
        ((db.Composable m.user hub declined manifest.requirements ∧
            ∃ d, (db.cleared env pk c.kind manifest membership m hub).installClient pk
              (boundTo env c manifest m.organization (db.spotOf env manifest membership m.organization hub))
              manifest m.user
              m.organization declined = .ok d) ∨
          ¬ db.Composable m.user hub declined manifest.requirements ∧
            ∃ e : Refused, e.kind = .exception
            ∧ (db.cleared env pk c.kind manifest membership m hub).installClient pk
              (boundTo env c manifest m.organization (db.spotOf env manifest membership m.organization hub))
              manifest m.user
              m.organization declined = .error e) := by
  have hblocked := @blocked_iff db env pk membership c manifest hub m
  have haside := @cleared_aside db env pk membership manifest hub m c.kind
  generalize db.cleared env pk c.kind manifest membership m hub = e at hblocked haside
  have hhub : (boundTo env c manifest m.organization (db.spotOf env manifest membership m.organization hub)).hub
    = hub := rfl
  generalize boundTo env c manifest m.organization
    (db.spotOf env manifest membership m.organization hub) = bound at hblocked hhub
  by_cases hsees : (e.clients.exists? fun k d => k != pk && sameIdentity bound d) = true
  · left
    obtain ⟨hnode, hgiven, hother⟩ := hblocked.mp hsees
    exact ⟨hnode, hgiven, hother, _, by simp only [installClient, saveClient, hsees]; rfl⟩
  · right
    refine ⟨fun h => hsees (hblocked.mpr h), ?_⟩
    have hsaved : e.installClient pk bound manifest m.user m.organization declined
        = (({ e with clients := e.clients.put pk bound } : DB).autoCompose pk hub
          manifest.requirements m.user declined).bind
          fun d => .ok { d with clients := d.clients.modify pk fun c =>
            { c with scopes := d.scopesNamed manifest.scopes m.organization,
                     scope := d.finalScope (d.scopesNamed manifest.scopes m.organization) } } := by
      simp only [installClient, saveClient, hhub, Bool.eq_false_iff.mpr hsees]
      rfl
    have hcomposable : ({ e with clients := e.clients.put pk bound } : DB).Composable m.user hub declined
      manifest.requirements ↔
        db.Composable m.user hub declined manifest.requirements := composable_congr haside.instances haside.users _
    rw [hsaved]
    cases hcompose : ({ e with clients := e.clients.put pk bound } : DB).autoCompose pk hub
      manifest.requirements m.user
      declined with
    | ok d => exact .inl ⟨hcomposable.mp (autoCompose_isOk.mp ⟨d, hcompose⟩), _, rfl⟩
    | error x =>
      refine .inr ⟨fun h => ?_, x, autoCompose_error hcompose, rfl⟩
      obtain ⟨d, hd⟩ := autoCompose_isOk.mpr (hcomposable.mpr h)
      rw [hcompose] at hd
      cases hd

/-- A binding goes through where the logo is had, and the installation is admitted, composable and not taken by
another kind. -/
structure Installable (db : DB) (env : Env) (pk : Pk) (kind : ClientKind) (manifest : Manifest) (membership : Pk)
    (m : Membership) (hub : Option Pk) (declined : List String) : Prop where
  logo : env.logoFault db.now manifest = none
  device : ∃ o, db.organizations.row m.organization = some o ∧
    (o.requireDeviceAuth = true → (given manifest.deviceId).isSome = true)
  composable : db.Composable m.user hub declined manifest.requirements
  free : (db.spotOf env manifest membership m.organization hub).node.isSome = true → hub.isSome = true →
    ¬ db.OtherKind pk kind (db.spotOf env manifest membership m.organization hub)

theorem bindClient_isOk (hm : db.memberships.row membership = some m) :
    (∃ d, db.bindClient env pk c manifest membership hub declined none = .ok d) ↔
      db.Installable env pk c.kind manifest membership m hub declined := by
  constructor
  · rintro ⟨d, hd⟩
    have hbind := hd
    simp only [bindClient, bind_ok, Table.get_ok, whenSome_refuse, require_ok, exists_unit] at hbind
    obtain ⟨m', hm', o, ho, hlogo, hcheck, -⟩ := hbind
    obtain rfl : m = m' := by simpa [hm] using hm'
    have hauth : o.requireDeviceAuth = true → (given manifest.deviceId).isSome = true := by
      intro hrequired
      simpa [hrequired] using hcheck
    rw [bindClient_eq hm hlogo ho hauth] at hd
    rcases @installClient_cleared db env pk membership c manifest hub declined m with
      ⟨-, -, -, text, herror⟩ | ⟨hfree, ⟨hcomposable, -⟩ | ⟨-, e, -, herror⟩⟩
    · rw [herror] at hd
      cases hd
    · exact ⟨hlogo, ⟨o, ho, hauth⟩, hcomposable, fun hnode hhub hother => hfree ⟨hnode, hhub, hother⟩⟩
    · rw [herror] at hd
      cases hd
  · intro h
    obtain ⟨o, ho, hauth⟩ := h.device
    rw [bindClient_eq hm h.logo ho hauth]
    rcases @installClient_cleared db env pk membership c manifest hub declined m with
      ⟨hnode, hhub, hother, -⟩ | ⟨-, ⟨-, hok⟩ | ⟨hno, -⟩⟩
    · exact absurd hother (h.free hnode hhub)
    · exact hok
    · exact absurd h.composable hno

/-- A re-approval does what it is to do exactly when no client of another kind is at the installation, or an
earlier check refuses it anyway. -/
theorem rotates_iff (db : DB) (env : Env) (pk : Pk) (c : Client) (manifest : Manifest) (membership : Pk)
    (hub : Option Pk)
    (declined : List String) : db.Rotates env pk c manifest membership hub declined ↔
      ∀ m, db.memberships.row membership = some m →
        db.GetsThere env manifest m (db.spotOf env manifest membership m.organization hub) declined →
        ¬ db.OtherKind pk c.kind (db.spotOf env manifest membership m.organization hub) := by
  constructor
  · intro h m hm hthere hother
    obtain ⟨hlogo, ⟨o, ho, hauth⟩, hpassed⟩ := hthere
    have heq := @bindClient_eq db env pk membership c manifest hub declined m hm hlogo o ho hauth
    rcases @installClient_cleared db env pk membership c manifest hub declined m with
      ⟨-, -, -, text, herror⟩ | ⟨hunseen, ⟨-, d, hd⟩ | ⟨hno, -⟩⟩
    · exact h.1 text (heq.trans herror)
    · obtain ⟨m', hm', hreplaced⟩ := h.2 d (heq.trans hd)
      obtain rfl : m = m' := by simpa [hm] using hm'
      exact (replaced_iff hd).mp hreplaced hother
    · rcases hpassed with ⟨hnode, hhub⟩ | hcomposable
      · exact hunseen ⟨hnode, hhub, hother⟩
      · exact hno hcomposable
  · intro h
    refine ⟨?_, ?_⟩
    · intro text hbind
      cases hm : db.memberships.row membership with
      | none => simp [bindClient, Table.get, hm, found, bind, Except.bind] at hbind
      | some m =>
        cases ho : db.organizations.row m.organization with
        | none => simp [bindClient, Table.get, hm, ho, found, bind, Except.bind] at hbind
        | some o =>
          cases hlogo : env.logoFault db.now manifest with
          | some fault =>
            simp [bindClient, Table.get, hm, ho, hlogo, found, whenSome, refuse, bind, Except.bind] at hbind
          | none =>
            by_cases hauth : o.requireDeviceAuth = true → (given manifest.deviceId).isSome = true
            · rw [bindClient_eq hm hlogo ho hauth] at hbind
              rcases @installClient_cleared db env pk membership c manifest hub declined m with
                ⟨hnode, hhub, hother, -⟩ | ⟨-, ⟨-, d, hd⟩ | ⟨-, e, hkind, herror⟩⟩
              · exact h m hm ⟨hlogo, ⟨o, ho, hauth⟩, .inl ⟨hnode, hhub⟩⟩ hother
              · rw [hd] at hbind
                cases hbind
              · rw [herror] at hbind
                cases hbind
                cases hkind
            · simp only [Classical.not_imp, Bool.not_eq_true] at hauth
              simp [bindClient, Table.get, hm, ho, hlogo, found, whenSome, bind, Except.bind, require, hauth.1,
                hauth.2] at hbind
    · intro d hd
      have hbind := hd
      simp only [bindClient, bind_ok, Table.get_ok, whenSome_refuse, require_ok, exists_unit] at hbind
      obtain ⟨m, hm, o, ho, hlogo, hcheck, -⟩ := hbind
      have hauth : o.requireDeviceAuth = true → (given manifest.deviceId).isSome = true := by
        intro hrequired
        simpa [hrequired] using hcheck
      rw [bindClient_eq hm hlogo ho hauth] at hd
      refine ⟨m, hm, (replaced_iff hd).mpr ?_⟩
      rcases @installClient_cleared db env pk membership c manifest hub declined m with
        ⟨-, -, -, text, herror⟩ | ⟨-, ⟨hcomposable, -⟩ | ⟨-, e, -, herror⟩⟩
      · rw [herror] at hd
        cases hd
      · exact h m hm ⟨hlogo, ⟨o, ho, hauth⟩, .inr hcomposable⟩
      · rw [herror] at hd
        cases hd

end

/-- The app, run on one device first from the desktop and then as a website. -/
def portable : Manifest := { plainApp with deviceId := some "laptop" }

/-- Ann approved the desktop app, and the same app's website on the same device waits for her approval. -/
theorem second_kind_refused :
    let db := run plainEnv .empty [.createUser "ann" [], .createOrganization "org" 0 false, .configureHub 0 plainHub,
      .startDeviceCode portable .desktop .interface [] false 600 false, .acceptDeviceCode 0 0 (some 1) 0 [] false none,
      .startDeviceCode portable .website .interface [] false 600 false]
    ∃ c, db.clients.row 1 = some c ∧ ¬ db.Rotates plainEnv 1 c portable 0 (some 0) [] := by
  intro db
  have hstaged : (db.clients.row 1).any (fun c =>
      (refusal (db.bindClient plainEnv 1 c portable 0 (some 0) [] none)).any
      (·.kind == .integrityError)) = true := by decide +kernel
  obtain ⟨c, hc, hrefused⟩ := (Option.any_eq_true _ _).mp hstaged
  obtain ⟨e, he, hkind⟩ := (Option.any_eq_true _ _).mp hrefused
  obtain ⟨kind, text⟩ := e
  obtain rfl : kind = .integrityError := by simpa using hkind
  refine ⟨c, hc, fun h => ?_⟩
  exact h.1 text (refusal_eq_some.mp he)

end DB

end Lok
