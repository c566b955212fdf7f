import Lok.RootMandates
import Lok.Rotations

/-!
# Open mandates

An entry of the config that names no app has a mandate with an open pin, and the first app that
logs in with its key fixes it. The login writes the pin it fixed, and the config command writes
the entry's pin again whenever anything else of it differs: then the mandate is open once more.
As long as the entry asks for the scopes the stored pin has, one app logs in with the key for good.
-/

namespace Lok

open Table Runs Checks

namespace DB

variable {env : Env} {db d s t : DB} {hash : String}

/-! ## A login -/

def appOf (db : DB) (client : Pk) : Option String :=
  (db.clients.row client).bind fun c => c.release.map (·.identifier)

/-- What a login makes of a mandate: its own one is pinned to the app. -/
def Fixes (pk : Pk) (pin : MandatePin) (k : Pk) (n n' : Mandate) : Prop :=
  n'.keyHash = n.keyHash ∧ (n.IsRoot → n'.IsRoot) ∧ n'.pin = if k = pk then pin else n.pin

theorem reissue_rewrites (stale : List Pk) (client : Pk) :
    Rewrites (fun _ m m' => ∃ c, m' = { m with issuingClient := c } ∧ (m.issuingClient = none → c = none))
    db.mandates
      (db.reissue stale client).mandates := by
  refine .update fun k m _ => ?_
  split
  · rename_i hissuer
    refine ⟨some client, rfl, fun hnone => ?_⟩
    simp [hnone] at hissuer
  · exact ⟨m.issuingClient, rfl, id⟩

/-- Binding a client moves the mandates of the ones it replaces, and rewrites no other client. -/
theorem bindClient_others {pk membership : Pk} {c : Client} {manifest : Manifest} {hub mandate : Option Pk}
    {declined : List String} (h : db.bindClient env pk c manifest membership hub declined mandate = .ok d) :
    Rewrites (fun _ m m' => ∃ c, m' = { m with issuingClient := c } ∧ (m.issuingClient = none → c = none))
    db.mandates d.mandates
      ∧ ∀ k x, k ≠ pk → d.clients.row k = some x → db.clients.row k = some x := by
  obtain ⟨m, t, node, stale, -, hstale, h⟩ := bindClient_installs h
  simp only [installClient, saveClient, bind_ok, require_ok, exists_unit, pure_ok] at h
  obtain ⟨_, ⟨-, rfl⟩, f, hf, rfl⟩ := h
  obtain ⟨hshape, helse⟩ := autoCompose_elsewhere hf
  constructor
  · obtain ⟨x, y, rfl⟩ := hshape
    show Rewrites _ db.mandates (({ db with devices := t } : DB).dropStale pk stale).mandates
    rw [dropStale_mandates_eq hstale]
    exact reissue_rewrites stale pk
  · intro k x hk hx
    rw [modify_row_of_ne hk, helse k hk, put_row, if_neg hk, dropStale_clients hstale] at hx
    split at hx
    · cases hx
    · exact hx

/-- A successful login: whose key it was, what it was pinned to, and the client it is. -/
structure LoggedInAs (env : Env) (request : MandateKeyGrantRequest) (db d : DB) (client pk : Pk) (m : Mandate) :
    Prop where
  row : db.mandates.row pk = some m
  key : m.keyHash = some (env.hashKey request.key)
  pin : (loginPin m.pin request.manifest).identifier = some request.manifest.identifier
  mandates : Rewrites (Fixes pk (loginPin m.pin request.manifest)) db.mandates d.mandates
  others : ∀ k x, k ≠ client → d.clients.row k = some x → db.clients.row k = some x
  client : ∃ x, d.clients.row client = some x ∧ x.mandate = some pk ∧
    (x.release.map (·.identifier) = some request.manifest.identifier ∨ db.clients.row client = some x)

theorem loginPin_identifier {pin : MandatePin} {manifest : Manifest}
    (h : (loginPin pin manifest).Covers manifest) :
    (loginPin pin manifest).identifier = some manifest.identifier := by
  cases hi : (loginPin pin manifest).identifier with
  | some i => rw [h.identifier i hi]
  | none =>
    unfold loginPin at hi
    split at hi
    · cases hi
    · rename_i hopen
      simp [MandatePin.isOpen, hi] at hopen

theorem clientForLogin_found {pk : Pk} {m : Mandate} {node : Option Pk} {request : MandateKeyGrantRequest} {c : Pk}
    {x : Client} (h : db.clientForLogin pk m node request = .ok (d, c, x)) :
    d.mandates = db.mandates ∧ d.clients.row c = some x
    ∧ (∀ k y, k ≠ c → d.clients.row k = some y → db.clients.row k = some y)
      ∧ (db.clients.row c = some x ∨ x.membership = none) := by
  unfold clientForLogin at h
  split at h
  · rename_i c client hfirst
    obtain ⟨rfl, rfl, rfl⟩ := by simpa [pure_ok] using h
    have hrow := (first_eq_some hfirst).1
    exact ⟨rfl, hrow, fun _ _ _ hy => hy, .inl hrow⟩
  · simp only [bind_ok, require_ok, exists_unit] at h
    obtain ⟨-, h⟩ := h
    split at h
    · rename_i c client hpred
      obtain ⟨rfl, rfl, rfl⟩ := by simpa [pure_ok] using h
      obtain ⟨n, -, hpred⟩ := Option.bind_eq_some_iff.mp hpred
      have hrow := (predecessorClient_some hpred).1
      exact ⟨rfl, hrow, fun _ _ _ hy => hy, .inl hrow⟩
    · simp only [bind_ok, Table.get_ok, pure_ok, Prod.mk.injEq] at h
      obtain ⟨client, hc, rfl, rfl, rfl⟩ := h
      refine ⟨rfl, hc, fun k y hk hy => ?_, .inr ?_⟩
      · exact (insert_row_eq_some.mp hy).resolve_left fun hnew => hk hnew.1
      · simp only [createPublicClient, insert_row_next, Option.some.injEq] at hc
        rw [← hc]

theorem bindForLogin_others {pk c : Pk} {m : Mandate} {x : Client} {request : MandateKeyGrantRequest}
    (h : db.bindForLogin env pk m request c x = .ok d) (hx : db.clients.row c = some x) :
    Rewrites (fun _ m m' => ∃ c, m' = { m with issuingClient := c } ∧ (m.issuingClient = none → c = none))
    db.mandates d.mandates
      ∧ (∀ k y, k ≠ c → d.clients.row k = some y → db.clients.row k = some y)
      ∧ ∃ y, d.clients.row c = some y ∧ y.mandate = some pk
        ∧ (y.release.map (·.identifier) = some request.manifest.identifier ∨ x.membership ≠ none ∧ y = x) := by
  unfold bindForLogin at h
  split at h
  · obtain ⟨hmandates, hothers⟩ := bindClient_others h
    obtain ⟨y, _, hy, -, -, hrelease, -, hmandate, -⟩ := bindClient_row h
    exact ⟨hmandates, hothers, y, hy, hmandate, .inl (by rw [hrelease]; rfl)⟩
  · rename_i hkept
    cases h
    simp only [mustBind, Bool.or_eq_true, not_or, bne_iff_ne, ne_eq, not_not, Option.isNone_iff_eq_none] at hkept
    refine ⟨⟨rfl, fun k => ?_⟩, fun _ _ _ hy => hy, x, hx, hkept.1.1.1.2, .inr ⟨hkept.1.1.1.1, rfl⟩⟩
    cases db.mandates.row k with
    | none => exact .none
    | some n => exact .some ⟨n.issuingClient, rfl, id⟩

theorem authenticateKey_loggedInAs {request : MandateKeyGrantRequest} {client : Pk}
    (h : db.authenticateKey env request = .ok (d, client)) : ∃ pk m, LoggedInAs env request db d client pk m := by
  simp only [authenticateKey, bind_ok, found_ok, Table.get_ok, require_ok, exists_unit, pure_ok,
    MandatePin.check_ok, Prod.exists, Prod.mk.injEq] at h
  obtain ⟨pk, m, hfirst, -, hpin, o, -, -, e, c, x, hclient, f, hf, rfl, rfl⟩ := h
  obtain ⟨hm, hkey⟩ := first_eq_some hfirst
  have hdevice : (db.deviceOf env request.manifest.deviceId m.organization).1.mandates = db.mandates
      ∧ (db.deviceOf env request.manifest.deviceId m.organization).1.clients = db.clients := by
    obtain ⟨t, ht, -⟩ := deviceOf_eq db env request.manifest.deviceId m.organization
    rw [ht]
    exact ⟨rfl, rfl⟩
  generalize db.deviceOf env request.manifest.deviceId m.organization = r at hclient hdevice
  obtain ⟨db', node⟩ := r
  dsimp only at hclient hdevice
  obtain ⟨hmandates, hx, hothers, hfound⟩ := clientForLogin_found hclient
  obtain ⟨hissuers, hothers', y, hy, hmandate, hrelease⟩ := bindForLogin_others hf hx
  rw [hdevice.2] at hothers hfound
  rw [hmandates, hdevice.1] at hissuers
  refine ⟨pk, m, hm, by simpa using hkey, loginPin_identifier hpin, ⟨hissuers.1, fun k => ?_⟩,
    fun k z hk hz => hothers k z hk (hothers' k z hk hz), y, hy, hmandate, ?_⟩
  · have hrow := hissuers.2 k
    rw [modify_row]
    cases hn : db.mandates.row k with
    | none =>
      rw [hn] at hrow
      cases hf' : f.mandates.row k with
      | none => split <;> exact .none
      | some n' =>
        rw [hf'] at hrow
        cases hrow
    | some n =>
      obtain ⟨n', hn', i, rfl, hi⟩ := hissuers.after hn
      rw [hn']
      split
      · rename_i hk
        exact .some ⟨rfl, fun hroot => ⟨hroot.1, hi hroot.2⟩, (if_pos hk).symm⟩
      · rename_i hk
        exact .some ⟨rfl, fun hroot => ⟨hroot.1, hi hroot.2⟩, (if_neg hk).symm⟩
  · rcases hrelease with hrelease | ⟨hmember, rfl⟩
    · exact .inl hrelease
    · exact .inr (hfound.resolve_right hmember)

/-! ## The mandates of a key -/

/-- No two mandates on file have the key, none goes with another row, and no client logs in under one still
to come. -/
structure KeyLaws (db : DB) (hash : String) : Prop where
  roots : ∀ k m, db.mandates.row k = some m → m.keyHash = some hash → m.IsRoot
  unique : ∀ j m k n, db.mandates.row j = some m → db.mandates.row k = some n → m.keyHash = some hash →
    n.keyHash = some hash →
    j = k
  handed : ∀ k c M, db.clients.row k = some c → c.mandate = some M → M < db.mandates.next

/-- Nobody has logged in with the key. -/
def KeyUnused (db : DB) (hash : String) : Prop :=
  ∀ k c M m, db.clients.row k = some c → c.mandate = some M → db.mandates.row M = some m → m.keyHash ≠ some hash

/-- The key is pinned to the app, and whoever logged in with it is of the app. -/
structure KeyIs (db : DB) (hash app : String) : Prop where
  known : db.keyIsKnown hash = true
  pin : ∀ k m, db.mandates.row k = some m → m.keyHash = some hash → m.pin.identifier = some app
  clients : ∀ k c M m, db.clients.row k = some c → c.mandate = some M → db.mandates.row M = some m →
    m.keyHash = some hash →
    c.release.map (·.identifier) = some app

/-- The apps that logged in with the key are all one, and the key is pinned to it. -/
def KeyState (db : DB) (hash : String) (apps : List (Option String)) : Prop :=
  db.KeyLaws hash ∧ (apps = [] ∧ db.KeyUnused hash ∨ ∃ app, (∀ a ∈ apps, a = some app) ∧ db.KeyIs hash app)

/-- `d` has the mandates of the key that `db` has, pinned to the app once one logged in, and no client more
under one. -/
structure Retains (hash : String) (db d : DB) : Prop where
  next : db.mandates.next ≤ d.mandates.next
  back : ∀ k n, d.mandates.row k = some n → n.keyHash = some hash →
    ∃ m, db.mandates.row k = some m ∧ m.keyHash = some hash ∧ (m.IsRoot → n.IsRoot)
  pinned : db.KeyLaws hash → ∀ app, db.KeyIs hash app → ∀ k n, d.mandates.row k = some n → n.keyHash = some hash →
    n.pin.identifier = some app
  kept : db.KeyLaws hash → ∀ k m, db.mandates.row k = some m → m.keyHash = some hash →
    ∃ n, d.mandates.row k = some n ∧ n.keyHash = some hash
  clients : ∀ k c M, d.clients.row k = some c → c.mandate = some M →
    (∃ c₀, db.clients.row k = some c₀ ∧ c₀.mandate = some M
    ∧ c.release = c₀.release) ∨ ∃ n, d.mandates.row M = some n ∧ n.keyHash ≠ some hash

theorem KeyLaws.retained (h : db.KeyLaws hash) (hd : Retains hash db d) : d.KeyLaws hash where
  roots k n hn hkey := by
    obtain ⟨m, hm, hkey, hroot⟩ := hd.back k n hn hkey
    exact hroot (h.roots k m hm hkey)
  unique j m k n hm hn hkey hkey' := by
    obtain ⟨m₀, hm₀, hkey, -⟩ := hd.back j m hm hkey
    obtain ⟨n₀, hn₀, hkey', -⟩ := hd.back k n hn hkey'
    exact h.unique j m₀ k n₀ hm₀ hn₀ hkey hkey'
  handed k c M hc hM := by
    rcases hd.clients k c M hc hM with ⟨c₀, hc₀, hM₀, -⟩ | ⟨n, hn, -⟩
    · exact Nat.lt_of_lt_of_le (h.handed k c₀ M hc₀ hM₀) hd.next
    · exact lt_next hn

theorem KeyState.retained {apps : List (Option String)} (h : db.KeyState hash apps) (hd : Retains hash db d) :
    d.KeyState hash apps := by
  obtain ⟨hlaws, h⟩ := h
  refine ⟨hlaws.retained hd, ?_⟩
  rcases h with ⟨hnone, hunused⟩ | ⟨app, hall, his⟩
  · refine .inl ⟨hnone, fun k c M n hc hM hn hkey => ?_⟩
    rcases hd.clients k c M hc hM with ⟨c₀, hc₀, hM₀, -⟩ | ⟨n', hn', hother⟩
    · obtain ⟨m, hm, hkey, -⟩ := hd.back M n hn hkey
      exact hunused k c₀ M m hc₀ hM₀ hm hkey
    · rw [hn] at hn'
      cases hn'
      exact hother hkey
  · refine .inr ⟨app, hall, ?_, hd.pinned hlaws app his, fun k c M n hc hM hn hkey => ?_⟩
    · obtain ⟨k, m, hm, hkey⟩ := keyIsKnown_iff.mp his.known
      obtain ⟨n, hn, hkey⟩ := hd.kept hlaws k m hm hkey
      exact keyIsKnown_iff.mpr ⟨k, n, hn, hkey⟩
    · rcases hd.clients k c M hc hM with ⟨c₀, hc₀, hM₀, hrelease⟩ | ⟨n', hn', hother⟩
      · obtain ⟨m, hm, hkey, -⟩ := hd.back M n hn hkey
        rw [hrelease]
        exact his.clients k c₀ M m hc₀ hM₀ hm hkey
      · rw [hn] at hn'
        cases hn'
        exact absurd hkey hother

/-! ## The config -/

theorem Edits.retains {k : Pk} {f : Mandate → Mandate} (h : Edits k f db d)
    (hpin : ∀ m app, db.mandates.row k = some m → m.keyHash = some hash → db.KeyIs hash app →
      (f m).pin.identifier = some app) : Retains hash db d where
  next := h.next.ge
  back j n hn hkey := by
    obtain ⟨m, hm, -, hparent, hissuer, hsame⟩ := h.back j n hn
    rw [hkey] at hsame
    exact ⟨m, hm, hsame.symm, fun hroot => ⟨hparent.trans hroot.1, hissuer.trans hroot.2⟩⟩
  pinned hlaws app his j n hn hkey := by
    obtain ⟨m, hm, -, -, -, hsame⟩ := h.back j n hn
    rw [hkey] at hsame
    have hrow := h.roots j m hm (hlaws.roots j m hm hsame.symm)
    rw [hn] at hrow
    obtain rfl := Option.some.inj hrow
    split
    · rename_i hj
      subst hj
      exact hpin m app hm hsame.symm his
    · exact his.pin j m hm hsame.symm
  kept hlaws j m hm hkey := by
    have hrow := h.roots j m hm (hlaws.roots j m hm hkey)
    obtain ⟨m', hm', -, -, -, hsame⟩ := h.back j _ hrow
    rw [hm] at hm'
    cases hm'
    exact ⟨_, hrow, hsame.trans hkey⟩
  clients j c M hc hM := by
    obtain ⟨c₀, hc₀, n, l, rfl⟩ := h.clients j c hc
    exact .inl ⟨c₀, hc₀, hM, rfl⟩

theorem revokeMandate_retains {k : Pk} {reason : MandateRevocation} (h : db.revokeMandate k reason = .ok d) :
    Retains hash db d := by
  refine (revokeMandate_edits h).retains fun m app hm hkey his => ?_
  obtain ⟨r, u, heq, -⟩ := revokeRow_same db.now reason m
  rw [heq]
  exact his.pin k m hm hkey

theorem revokeEach_keyState {reason : MandateRevocation} {apps : List (Option String)} {mandates : List Pk}
    (h : db.KeyState hash apps) : (revokeEach reason mandates db).1.KeyState hash apps := by
  induction mandates generalizing db with
  | nil => exact h
  | cons k rest ih =>
    unfold revokeEach
    split
    · rename_i d hd
      exact ih (h.retained (revokeMandate_retains hd))
    · exact h

theorem KeyState.insert {apps : List (Option String)} {m : Mandate} {devices : Table Device}
    (h : db.KeyState hash apps)
    (hroot : m.IsRoot) (hfresh : ∀ x, m.keyHash = some x →
      ∀ k n, db.mandates.row k = some n → n.keyHash ≠ some x) :
    ({ db with devices := devices, mandates := db.mandates.insert m } : DB).KeyState hash apps := by
  by_cases hkey : m.keyHash = some hash
  · -- nobody has the key yet
    have hnone := hfresh hash hkey
    obtain ⟨hlaws, ⟨hempty, -⟩ | ⟨app, -, his⟩⟩ := h
    · have hnew : ∀ k n, (db.mandates.insert m).row k = some n → n.keyHash = some hash →
        k = db.mandates.next ∧ m = n := by
        intro k n hn hx
        exact (insert_row_eq_some.mp hn).resolve_right fun hold => hnone k n hold hx
      refine ⟨⟨fun k n hn hx => ?_, fun j n k n' hn hn' hx hx' => ?_, fun k c M hc hM => ?_⟩, .inl ⟨hempty, ?_⟩⟩
      · exact (hnew k n hn hx).2 ▸ hroot
      · exact (hnew j n hn hx).1.trans (hnew k n' hn' hx').1.symm
      · exact Nat.lt_succ_of_lt (hlaws.handed k c M hc hM)
      · intro k c M n hc hM hn hx
        have hlt := hlaws.handed k c M hc hM
        exact absurd (hnew M n hn hx).1 (Nat.ne_of_lt hlt)
    · obtain ⟨k, n, hn, hx⟩ := keyIsKnown_iff.mp his.known
      exact absurd hx (hnone k n hn)
  · have hold : ∀ k n, (db.mandates.insert m).row k = some n → n.keyHash = some hash →
      db.mandates.row k = some n := by
      intro k n hn hx
      refine (insert_row_eq_some.mp hn).resolve_left fun hnew => hkey ?_
      rw [hnew.2]
      exact hx
    refine h.retained ⟨Nat.le_succ _, fun k n hn hx => ⟨n, hold k n hn hx, hx, id⟩,
      fun _ app his k n hn hx => his.pin k n (hold k n hn hx) hx, fun _ k n hn hx => ?_,
        fun k c M hc hM => .inl ⟨c, hc, hM, rfl⟩⟩
    · exact ⟨n, insert_row_of_some hn, hx⟩

theorem issueConfigMandate_keyState {spec : MandateKeySettings} {membership hub : Pk} {pin : MandatePin}
    {apps : List (Option String)} (h : db.KeyState hash apps)
    (hd : db.issueConfigMandate env spec membership hub pin = .ok d) :
    d.KeyState hash apps := by
  unfold issueConfigMandate at hd
  split at hd
  · cases hd
    exact h
  · simp only [map_ok] at hd
    obtain ⟨r, hr, rfl⟩ := hd
    obtain ⟨devices, m, hasked, heq, -⟩ := issueMandate_ok hr
    obtain ⟨m₀, hparent, hissuer, -, -, hm⟩ := hasked.issuer
    rw [heq]
    refine h.insert ?_ hasked.issued.fresh
    rw [hm]
    exact ⟨hparent, hissuer⟩

/-- The live mandate of a config entry. -/
def currentConfigMandate (db : DB) (name : String) : Option (Pk × Mandate) :=
  db.mandates.first fun _ n => n.configName == some name && n.revokedAt.isNone

theorem keepConfigMandate_edits {spec : MandateKeySettings} {pk membership organization hub : Pk}
    {current : Mandate} :
    Edits pk (applySettings spec membership organization hub spec.pin) db
      (db.keepConfigMandate spec pk current membership organization hub) := by
  unfold keepConfigMandate
  dsimp only
  split
  · exact modify_edits (delete_clients_roots db _) fun _ => ⟨rfl, rfl, rfl, rfl⟩
  · exact modify_edits (.refl db) fun _ => ⟨rfl, rfl, rfl, rfl⟩

/-- The entry asks for what the stored pin of the key has, or nobody fixed that one yet. -/
def AsksTheSame (db : DB) (hash : String) (spec : MandateKeySettings) : Prop :=
  ∀ k m, db.currentConfigMandate spec.name = some (k, m) → m.keyHash = some hash →
    m.pin.isOpen = true ∨ samePin m.pin spec.pin = true

theorem applySettings_pin {spec : MandateKeySettings} {membership organization hub : Pk} {m : Mandate}
    (h : samePin m.pin spec.pin = true) :
    (applySettings spec membership organization hub spec.pin m).pin = m.pin :=
  if_pos h

theorem KeyIs.not_open {app : String} (h : db.KeyIs hash app) {k : Pk} {m : Mandate}
    (hm : db.mandates.row k = some m)
    (hkey : m.keyHash = some hash) : m.pin.isOpen = false := by
  simp [MandatePin.isOpen, h.pin k m hm hkey]

theorem ensureConfigMandate_keyState {spec : MandateKeySettings} {apps : List (Option String)}
    (h : db.KeyState hash apps)
    (hsame : db.AsksTheSame hash spec) (hd : db.ensureConfigMandate env spec = .ok d) : d.KeyState hash apps := by
  simp only [ensureConfigMandate, bind_ok, Prod.exists] at hd
  obtain ⟨membership, m, -, hub, x, -, hd⟩ := hd
  split at hd
  · rename_i k current hfirst
    have hrow := (first_eq_some hfirst).1
    split at hd
    · obtain rfl := pure_ok.mp hd
      refine h.retained (keepConfigMandate_edits.retains fun n app hn hkey his => ?_)
      obtain rfl : current = n := by simpa [hrow] using hn
      rcases hsame k current hfirst hkey with hopen | hpin
      · rw [his.not_open hrow hkey] at hopen
        cases hopen
      · rw [applySettings_pin hpin]
        exact his.pin k current hrow hkey
    · simp only [bind_ok] at hd
      obtain ⟨e, he, hd⟩ := hd
      exact issueConfigMandate_keyState (h.retained (revokeMandate_retains he)) hd
  · exact issueConfigMandate_keyState h hd

/-! ## A login with the key, or with another -/

theorem LoggedInAs.keyLaws {request : MandateKeyGrantRequest} {client pk : Pk} {m : Mandate}
    (h : LoggedInAs env request db d client pk m) (hlaws : db.KeyLaws hash) : d.KeyLaws hash where
  roots k n hn hkey := by
    obtain ⟨n₀, hn₀, hsame, hroot, -⟩ := h.mandates.before hn
    exact hroot (hlaws.roots k n₀ hn₀ (hsame ▸ hkey))
  unique j n k n' hn hn' hkey hkey' := by
    obtain ⟨n₀, hn₀, hsame, -⟩ := h.mandates.before hn
    obtain ⟨n₀', hn₀', hsame', -⟩ := h.mandates.before hn'
    exact hlaws.unique j n₀ k n₀' hn₀ hn₀' (hsame ▸ hkey) (hsame' ▸ hkey')
  handed k c M hc hM := by
    rw [h.mandates.1]
    by_cases hk : k = client
    · subst hk
      obtain ⟨x, hx, hmandate, -⟩ := h.client
      obtain rfl : x = c := by simpa [hx] using hc
      obtain rfl : M = pk := by simpa [hM] using hmandate
      exact lt_next h.row
    · exact hlaws.handed k c M (h.others k c hk hc) hM

theorem LoggedInAs.retains {request : MandateKeyGrantRequest} {client pk : Pk} {m : Mandate}
    (h : LoggedInAs env request db d client pk m) (hother : m.keyHash ≠ some hash) : Retains hash db d where
  next := h.mandates.1.ge
  back k n hn hkey := by
    obtain ⟨n₀, hn₀, hsame, hroot, -⟩ := h.mandates.before hn
    exact ⟨n₀, hn₀, hsame.symm.trans hkey, hroot⟩
  pinned _ app his k n hn hkey := by
    obtain ⟨n₀, hn₀, hsame, -, hpin⟩ := h.mandates.before hn
    have hkey₀ := hsame.symm.trans hkey
    have hk : k ≠ pk := by
      intro hk
      subst hk
      rw [h.row] at hn₀
      cases hn₀
      exact hother hkey₀
    rw [hpin, if_neg hk]
    exact his.pin k n₀ hn₀ hkey₀
  kept _ k n hn hkey := by
    obtain ⟨n', hn', hsame, -⟩ := h.mandates.after hn
    exact ⟨n', hn', hsame.trans hkey⟩
  clients k c M hc hM := by
    by_cases hk : k = client
    · subst hk
      obtain ⟨x, hx, hmandate, -⟩ := h.client
      obtain rfl : x = c := by simpa [hx] using hc
      obtain rfl : M = pk := by simpa [hM] using hmandate
      obtain ⟨n, hn, hsame, -⟩ := h.mandates.after h.row
      exact .inr ⟨n, hn, hsame ▸ hother⟩
    · exact .inl ⟨c, h.others k c hk hc, hM, rfl⟩

theorem LoggedInAs.app {request : MandateKeyGrantRequest} {client pk : Pk} {m : Mandate} {app : String}
    (h : LoggedInAs env request db d client pk m) (hkey : m.keyHash = some hash) (his : db.KeyIs hash app) :
    request.manifest.identifier = app := by
  have hpin := h.pin
  rw [loginPin, his.not_open h.row hkey, if_neg Bool.false_ne_true, his.pin pk m h.row hkey] at hpin
  exact (Option.some.inj hpin).symm

/-- With the key: it is pinned to the app of the login, and everyone who logged in with it is of the app. -/
theorem LoggedInAs.keyIs {request : MandateKeyGrantRequest} {client pk : Pk} {m : Mandate}
    (hlaws : db.KeyLaws hash)
    (h : LoggedInAs env request db d client pk m) (hkey : m.keyHash = some hash)
    (hbefore : db.KeyUnused hash ∨ db.KeyIs hash request.manifest.identifier) :
    d.KeyIs hash request.manifest.identifier := by
  have hold : ∀ k c M n, db.clients.row k = some c → c.mandate = some M → db.mandates.row M = some n →
    n.keyHash = some hash →
      c.release.map (·.identifier) = some request.manifest.identifier := by
    intro k c M n hc hM hn hx
    rcases hbefore with hunused | his
    · exact absurd hx (hunused k c M n hc hM hn)
    · exact his.clients k c M n hc hM hn hx
  refine ⟨?_, fun k n hn hx => ?_, fun k c M n hc hM hn hx => ?_⟩
  · obtain ⟨n, hn, hsame, -⟩ := h.mandates.after h.row
    exact keyIsKnown_iff.mpr ⟨pk, n, hn, hsame.trans hkey⟩
  · obtain ⟨n₀, hn₀, hsame, -, hpin⟩ := h.mandates.before hn
    rw [hpin, if_pos (hlaws.unique k n₀ pk m hn₀ h.row (hsame.symm.trans hx) hkey)]
    exact h.pin
  · obtain ⟨n₀, hn₀, hsame, -⟩ := h.mandates.before hn
    by_cases hk : k = client
    · subst hk
      obtain ⟨x, hx', -, hrelease⟩ := h.client
      obtain rfl : x = c := by simpa [hx'] using hc
      rcases hrelease with hrelease | hfound
      · exact hrelease
      · exact hold k x M n₀ hfound hM hn₀ (hsame.symm.trans hx)
    · exact hold k c M n₀ (h.others k c hk hc) hM hn₀ (hsame.symm.trans hx)

theorem LoggedInAs.appOf {request : MandateKeyGrantRequest} {client pk : Pk} {m : Mandate} {app : String}
    (h : LoggedInAs env request db d client pk m) (hkey : m.keyHash = some hash) (his : d.KeyIs hash app) :
    d.appOf client = some app := by
  obtain ⟨x, hx, hmandate, -⟩ := h.client
  obtain ⟨n, hn, hsame, -⟩ := h.mandates.after h.row
  rw [DB.appOf, hx]
  exact his.clients client x pk n hx hmandate hn (hsame.trans hkey)

theorem authenticateKey_keyState {request : MandateKeyGrantRequest} {client : Pk} {apps : List (Option String)}
    (h : db.KeyState hash apps) (hd : db.authenticateKey env request = .ok (d, client)) :
    d.KeyState hash (if env.hashKey request.key = hash then apps ++ [d.appOf client] else apps) := by
  obtain ⟨pk, m, hlogged⟩ := authenticateKey_loggedInAs hd
  split
  · rename_i hkey
    have hkey := hlogged.key.trans (congrArg some hkey)
    obtain ⟨hlaws, hstate⟩ := h
    refine ⟨hlogged.keyLaws hlaws, .inr ⟨request.manifest.identifier, ?_⟩⟩
    rcases hstate with ⟨hempty, hunused⟩ | ⟨app, hall, his⟩
    · have hafter := hlogged.keyIs hlaws hkey (.inl hunused)
      refine ⟨fun a ha => ?_, hafter⟩
      rw [hempty] at ha
      obtain rfl : a = d.appOf client := by simpa using ha
      exact hlogged.appOf hkey hafter
    · obtain rfl := hlogged.app hkey his
      have hafter := hlogged.keyIs hlaws hkey (.inr his)
      refine ⟨fun a ha => ?_, hafter⟩
      rcases List.mem_append.mp ha with ha | ha
      · exact hall a ha
      · obtain rfl : a = d.appOf client := by simpa using ha
        exact hlogged.appOf hkey hafter
  · rename_i hother
    refine h.retained (hlogged.retains fun hkey => hother ?_)
    exact Option.some.inj (hlogged.key.symm.trans hkey)

end DB

/-! ## Any history of the key -/

/-- The system, and the apps of the clients that logged in with a key so far. -/
structure PinRun where
  db : DB
  apps : List (Option String)

inductive PinEvent
  | login (request : MandateKeyGrantRequest)
  | ensure (spec : MandateKeySettings)
  | drop (names : List String)
  | elsewhere

/-- Whatever else goes on, with other mandates and other clients. -/
structure LeavesKey (hash : String) (db d : DB) : Prop where
  mandates : ∀ k m, m.keyHash = some hash → (d.mandates.row k = some m ↔ db.mandates.row k = some m)
  next : db.mandates.next ≤ d.mandates.next
  clients : ∀ k c M, d.clients.row k = some c → c.mandate = some M →
    ∃ c₀, db.clients.row k = some c₀ ∧ c₀.mandate = some M
    ∧ c.release = c₀.release

/-- What goes on: logins with any key, the config command's turns over its entries, and the rest. -/
inductive PinStep (env : Env) (key : String) (s : PinRun) : PinEvent → PinRun → Prop
  | login {request : MandateKeyGrantRequest} {d : DB} {client : Pk}
    (h : s.db.authenticateKey env request = .ok (d, client)) :
      PinStep env key s (.login request)
        ⟨d, if env.hashKey request.key = env.hashKey key then s.apps ++ [d.appOf client] else s.apps⟩
  | refused {request : MandateKeyGrantRequest} {e : Refused} (h : s.db.authenticateKey env request = .error e) :
      PinStep env key s (.login request) s
  | ensure (spec : MandateKeySettings) :
      PinStep env key s (.ensure spec) ⟨s.db.settle (s.db.ensureConfigMandate env spec), s.apps⟩
  | drop (names : List String) : PinStep env key s (.drop names) ⟨(s.db.revokeDropped names).1, s.apps⟩
  | elsewhere {d : DB} (h : LeavesKey (env.hashKey key) s.db d) : PinStep env key s .elsewhere ⟨d, s.apps⟩

/-- Whenever the config command comes to an entry whose live mandate has the key and is fixed, the entry
asks for what the stored pin has. -/
def KeepsPin (env : Env) (key : String) (s : PinRun) : PinEvent → Prop
  | .ensure spec => s.db.AsksTheSame (env.hashKey key) spec
  | _ => True

/-- All clients that logged in with the key are of one app, and it is pinned to that one. -/
def FixedOnce (env : Env) (key : String) (s : PinRun) : Prop :=
  ∃ app, (∀ a ∈ s.apps, a = some app) ∧ (s.apps ≠ [] → ∀ k m, s.db.mandates.row k = some m →
    m.keyHash = some (env.hashKey key) → m.pin.identifier = some app)

theorem LeavesKey.retains {hash : String} {db d : DB} (h : LeavesKey hash db d) : DB.Retains hash db d where
  next := h.next
  back k n hn hkey := ⟨n, (h.mandates k n hkey).mp hn, hkey, id⟩
  pinned _ _ his k n hn hkey := his.pin k n ((h.mandates k n hkey).mp hn) hkey
  kept _ k m hm hkey := ⟨m, (h.mandates k m hkey).mpr hm, hkey⟩
  clients k c M hc hM := .inl (h.clients k c M hc hM)

theorem PinStep.keyState {env : Env} {key : String} {s t : PinRun} {l : PinEvent} (hstep : PinStep env key s l t)
    (hkeeps : KeepsPin env key s l) (h : s.db.KeyState (env.hashKey key) s.apps) :
    t.db.KeyState (env.hashKey key) t.apps := by
  cases hstep with
  | login hd => exact DB.authenticateKey_keyState h hd
  | refused => exact h
  | ensure spec =>
    unfold DB.settle
    dsimp only
    split
    · rename_i d hd
      exact DB.ensureConfigMandate_keyState h hkeeps hd
    · exact h
  | drop names => exact DB.revokeEach_keyState h
  | elsewhere hd => exact h.retained hd.retains

/-- From when the key is not on file yet, in every history in which the entry asks for what the stored pin
has once an app fixed it, one app logs in with the key. -/
theorem fixed_once {env : Env} {key : String} {db : DB} {events : List PinEvent} {s : PinRun}
    (hr : Reachable env db)
    (hnew : db.keyIsKnown (env.hashKey key) = false)
    (hrun : Run (fun s l t => PinStep env key s l t ∧ KeepsPin env key s l) ⟨db, []⟩ events s) :
    FixedOnce env key s := by
  have hnone : ∀ k m, db.mandates.row k = some m → m.keyHash ≠ some (env.hashKey key) := by
    intro k m hm hkey
    rw [DB.keyIsKnown_iff.mpr ⟨k, m, hm, hkey⟩] at hnew
    cases hnew
  have hstart : db.KeyState (env.hashKey key) [] := by
    refine ⟨⟨fun k m hm hkey => absurd hkey (hnone k m hm), fun j m k n hm _ hkey => absurd hkey (hnone j m hm),
      fun k c M hc hM => ?_⟩, .inl ⟨rfl, fun k c M m _ _ hm => hnone M m hm⟩⟩
    obtain ⟨m, hm, -⟩ := (hr.clientLaws.lawful k c hc).mandated M hM
    exact lt_next hm
  obtain ⟨-, hstate⟩ := hrun.invariant (P := fun s : PinRun => s.db.KeyState (env.hashKey key) s.apps)
    (fun hs hst => hst.1.keyState hst.2 hs) hstart
  rcases hstate with ⟨hempty, -⟩ | ⟨app, hall, his⟩
  · exact ⟨"", by simp [hempty], fun hne => absurd hempty hne⟩
  · exact ⟨app, hall, fun _ => his.pin⟩

/-- An entry for whoever comes first, as Ann in her hub. -/
def openEntry : MandateKeySettings := ⟨"worker", plainKey, "ann", "org", "hub", none, none, none, none, false⟩

def annsHub : List Action := [.createUser "ann" [], .createOrganization "org" 0 false, .configureHub 0 plainHub]

/-- The worker logs in with the entry's key, and the config command runs again. -/
theorem fixed_once_worker :
    let db := run plainEnv .empty annsHub
    ∃ events s, Run (PinStep plainEnv plainKey) ⟨db, []⟩ events s ∧ s.apps = [some "worker"]
      ∧ FixedOnce plainEnv plainKey s := by
  intro db
  have hnew : db.keyIsKnown (plainEnv.hashKey plainKey) = false := by decide +kernel
  have hlogin : ((db.settle (db.ensureConfigMandate plainEnv openEntry)).authenticateKey plainEnv
    workerLogin).toOption.any
      (fun r => r.1.appOf r.2 == some "worker" && (r.1.currentConfigMandate "worker").all fun m =>
        DB.samePin m.2.pin openEntry.pin) = true := by decide +kernel
  have hempty : db.currentConfigMandate "worker" = none := by
    refine first_eq_none.mpr fun k m hm => ?_
    have hrows : db.mandates.rows = [] := by decide +kernel
    simpa [hrows] using mem_rows.mpr hm
  obtain ⟨r, hr, hp⟩ := exists_ok_and hlogin
  obtain ⟨d, client⟩ := r
  simp only [Bool.and_eq_true, beq_iff_eq] at hp
  have hsteps : Run (fun s l t => PinStep plainEnv plainKey s l t ∧ KeepsPin plainEnv plainKey s l) ⟨db, []⟩
      [.ensure openEntry, .login workerLogin, .ensure openEntry]
      ⟨d.settle (d.ensureConfigMandate plainEnv openEntry),
        if plainEnv.hashKey workerLogin.key = plainEnv.hashKey plainKey then [] ++ [d.appOf client] else []⟩ := by
    refine .cons ⟨.ensure openEntry, fun k m hm => ?_⟩
      (.cons ⟨.login hr, trivial⟩ (.single ⟨.ensure openEntry, fun k m hm _ => ?_⟩))
    · have hm : db.currentConfigMandate "worker" = some (k, m) := hm
      rw [hempty] at hm
      cases hm
    · have hm : d.currentConfigMandate "worker" = some (k, m) := hm
      rw [hm] at hp
      exact .inr hp.2
  refine ⟨_, _, hsteps.mono fun h => h.1, ?_, fixed_once (reachable_run plainEnv annsHub) hnew hsteps⟩
  have hkey : plainEnv.hashKey workerLogin.key = plainEnv.hashKey plainKey := rfl
  dsimp only
  rw [if_pos hkey, hp.1, List.nil_append]

/-- The entry is given scopes, and another app logs in with its key. -/
theorem reopened_by_new_scopes :
    let db := run plainEnv .empty annsHub
    db.keyIsKnown (plainEnv.hashKey plainKey) = false
      ∧ ∃ events s, Run (PinStep plainEnv plainKey) ⟨db, []⟩ events s ∧
      (∀ spec, .ensure spec ∈ events → spec.name = "worker" ∧ spec.key = plainKey ∧ spec.app = none) ∧
      ¬ FixedOnce plainEnv plainKey s := by
  intro db
  have hnew : db.keyIsKnown (plainEnv.hashKey plainKey) = false := by decide +kernel
  let other : MandateKeyGrantRequest := { workerLogin with manifest := { plainWorker with identifier := "other" } }
  let rescoped : MandateKeySettings := { openEntry with scopes := some [] }
  have hlogins : ((db.settle (db.ensureConfigMandate plainEnv openEntry)).authenticateKey plainEnv
    workerLogin).toOption.any
      (fun r => r.1.appOf r.2 == some "worker" &&
        ((r.1.settle (r.1.ensureConfigMandate plainEnv rescoped)).authenticateKey plainEnv other).toOption.any
          fun r' => r'.1.appOf r'.2 == some "other") = true := by decide +kernel
  obtain ⟨r, hr, hp⟩ := exists_ok_and hlogins
  obtain ⟨d, client⟩ := r
  obtain ⟨hworker, hagain⟩ := (Bool.and_eq_true _ _).mp hp
  obtain ⟨r', hr', hother⟩ := exists_ok_and hagain
  obtain ⟨d', client'⟩ := r'
  have hsteps : Run (PinStep plainEnv plainKey) ⟨db, []⟩
    [.ensure openEntry, .login workerLogin, .ensure rescoped, .login other] _ :=
    .cons (.ensure openEntry) (.cons (.login hr) (.cons (.ensure rescoped) (.single (.login hr'))))
  refine ⟨hnew, _, _, hsteps, fun spec hspec => ?_, fun hfixed => ?_⟩
  · have hspec : spec = openEntry ∨ spec = rescoped := by simpa using hspec
    rcases hspec with rfl | rfl <;> exact ⟨rfl, rfl, rfl⟩
  · obtain ⟨app, hall, -⟩ := hfixed
    have hfirst : d.appOf client = some app := hall _ (by simp [workerLogin, other])
    have hsecond : d'.appOf client' = some app := hall _ (by simp [workerLogin, other])
    rw [beq_iff_eq.mp hworker] at hfirst
    rw [beq_iff_eq.mp hother, ← hfirst] at hsecond
    exact absurd hsecond (by decide)

end Lok
