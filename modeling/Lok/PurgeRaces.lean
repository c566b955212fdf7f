import Lok.ClientLaws
import Lok.HubSteps

/-!
# Purging expired device codes

Every anonymous start request purges the codes that expired before anybody accepted them: it
reads them once, and deletes their clients one after the other. Nothing is locked in between,
and the accept of a hub does not look at the expiry: it may bind a client that a purge has
read already, and that the purge then deletes.
-/

namespace Lok

open Table Runs Checks

namespace DB

variable {db d : DB} {l : Label}

/-! ## What a purge reads -/

/-- The expired codes of unbound clients, each with its client. -/
def expiredUnbound (db : DB) : List (Pk × Pk) :=
  (db.deviceCodes.filter fun _ c => c.expiresAt < db.now && (db.clients.row c.client).any
    (·.membership.isNone)).map
    fun c => (c.1, c.2.client)

theorem mem_expiredUnbound {k x : Pk} : (k, x) ∈ db.expiredUnbound ↔
    ∃ code c, db.deviceCodes.row k = some code ∧ code.client = x ∧ code.expiresAt < db.now
    ∧ db.clients.row x = some c
      ∧ c.membership = none := by
  unfold expiredUnbound
  simp only [List.mem_map, Prod.exists, Prod.mk.injEq, mem_filter, Bool.and_eq_true, decide_eq_true_eq,
    Option.any_eq_true,
    Option.isNone_iff_eq_none]
  constructor
  · rintro ⟨k, code, ⟨hrow, hexpired, c, hc, hm⟩, rfl, rfl⟩
    exact ⟨code, c, hrow, rfl, hexpired, hc, hm⟩
  · rintro ⟨code, c, hrow, rfl, hexpired, hc, hm⟩
    exact ⟨k, code, ⟨hrow, hexpired, c, hc, hm⟩, rfl, rfl⟩

theorem purgeExpiredDeviceCodes_eq :
    db.purgeExpiredDeviceCodes = db.expiredUnbound.foldl
    (fun d p => d.delete .client [⟨.client, p.2⟩] none) db := by
  unfold purgeExpiredDeviceCodes expiredUnbound
  rw [List.foldl_map]

/-! ## Clients that are bound, and clients nobody claimed -/

/-- The client, if it is there, speaks for a membership. -/
def Bound (db : DB) (x : Pk) : Prop :=
  x < db.clients.next ∧ ∀ c, db.clients.row x = some c → c.membership.isSome = true

/-- The client, if it is there, speaks for nobody, has such an id, and was staged with a code that expired. -/
structure Lapsed (db : DB) (ids : ClientId → Prop) (x : Pk) : Prop where
  known : x < db.clients.next
  unbound : ∀ c, db.clients.row x = some c → c.membership = none ∧ ids c.clientId
  staged : ∀ c n, db.clients.row x = some c → c.clientId = .uuid n → n + 2 ≤ db.draws
  expired : ∀ k code, db.deviceCodes.row k = some code → code.client = x → code.expiresAt < db.now

theorem bound_of_shrinks (h : Table.Shrinks (fun c c' : Client => c'.binding = c.binding) db.clients d.clients)
    {x : Pk} (hx : db.Bound x) : d.Bound x := by
  refine ⟨h.1 ▸ hx.1, fun c' hc' => ?_⟩
  obtain ⟨c, hc, hbinding⟩ := h.2 x c' hc'
  have hm : c'.membership = c.membership := congrArg Binding.membership hbinding
  rw [hm]
  exact hx.2 c hc

theorem Bound.write {x : Pk} (h : db.Bound x) (hw : Write db l d) : d.Bound x := by
  have hnew : ∀ c, ∀ c', (db.clients.insert c).row x = some c' → db.clients.row x = some c' := by
    intro c c' hc'
    rcases insert_row_eq_some.mp hc' with ⟨rfl, -⟩ | hc'
    · exact absurd h.1 (Nat.lt_irrefl _)
    · exact hc'
  have hput : ∀ pk c m, c.membership = some m →
    ∀ c', (db.clients.put pk c).row x = some c' → c'.membership.isSome = true := by
    intro pk c m hm c' hc'
    rw [put_row] at hc'
    split at hc'
    · cases hc'
      rw [hm]
      rfl
    · exact h.2 c' hc'
  cases hw with
  | newClient c => exact ⟨Nat.lt_succ_of_lt h.1, fun c' hc' => h.2 c' (hnew c c' hc')⟩
  | newRelyingParty c => exact ⟨Nat.lt_succ_of_lt h.1, fun c' hc' => h.2 c' (hnew c c' hc')⟩
  | bindApp hc _ _ _ hm => exact ⟨Nat.lt_of_lt_of_le h.1 (Nat.le_max_left _ _), hput _ _ _ hm⟩
  | bindKeyed hc _ _ _ _ hm => exact ⟨Nat.lt_of_lt_of_le h.1 (Nat.le_max_left _ _), hput _ _ _ hm⟩
  | newMembership => exact h
  | delete => exact bound_of_shrinks (Write.clients_shrink (l := .delete _ _ _) (.delete _ _ _) trivial) h
  | clients ht hn => exact bound_of_shrinks (Write.clients_shrink (.clients ht hn) trivial) h
  | renameRole hr => exact bound_of_shrinks (Write.clients_shrink (.renameRole hr) trivial) h
  | _ => exact h

theorem Lapsed.mono {ids : ClientId → Prop} {x : Pk} (h : db.Lapsed ids x)
    (hnext : db.clients.next ≤ d.clients.next)
    (hdraws : db.draws ≤ d.draws) (hnow : db.now ≤ d.now)
    (hclients : ∀ c', d.clients.row x = some c' → ∃ c, db.clients.row x = some c ∧ c.membership = c'.membership
      ∧ c.clientId = c'.clientId)
    (hcodes : ∀ k code', d.deviceCodes.row k = some code' → code'.client = x →
      ∃ code, db.deviceCodes.row k = some code
      ∧ code.client = x ∧ code.expiresAt = code'.expiresAt) : d.Lapsed ids x where
  known := Nat.lt_of_lt_of_le h.known hnext
  unbound c' hc' := by
    obtain ⟨c, hc, hm, hid⟩ := hclients c' hc'
    rw [← hm, ← hid]
    exact h.unbound c hc
  staged c' n hc' hn := by
    obtain ⟨c, hc, -, hid⟩ := hclients c' hc'
    exact Nat.le_trans (h.staged c n hc (hid ▸ hn)) hdraws
  expired k code' hcode' hx := by
    obtain ⟨code, hcode, hclient, hexpires⟩ := hcodes k code' hcode' hx
    rw [← hexpires]
    exact Nat.lt_of_lt_of_le (h.expired k code hcode hclient) hnow

/-- An unbound client stays so until an approval binds a client of its id, and no second code is staged for it. -/
theorem Lapsed.write {ids : ClientId → Prop} {x : Pk} (h : db.Lapsed ids x) (hw : Write db l d)
    (hbind : ∀ before m, l = .bind before m → before.membership = none → ¬ ids before.clientId)
    (hlogin : l ≠ .login) :
    d.Lapsed ids x := by
  have hclients : ∀ c', db.clients.row x = some c' → ∃ c, db.clients.row x = some c ∧ c.membership = c'.membership
      ∧ c.clientId = c'.clientId := fun c' hc' => ⟨c', hc', rfl, rfl⟩
  have hcodes : ∀ k code', db.deviceCodes.row k = some code' → code'.client = x →
    ∃ code, db.deviceCodes.row k = some code
      ∧ code.client = x ∧ code.expiresAt = code'.expiresAt := fun k code' hcode' hx => ⟨code', hcode', hx, rfl⟩
  have hnew : ∀ c c', (db.clients.insert c).row x = some c' →
    ∃ c, db.clients.row x = some c ∧ c.membership = c'.membership
      ∧ c.clientId = c'.clientId := by
    intro c c' hc'
    rcases insert_row_eq_some.mp hc' with ⟨rfl, -⟩ | hc'
    · exact absurd h.known (Nat.lt_irrefl _)
    · exact hclients c' hc'
  have hshrink : Table.Shrinks (fun c c' : Client => c'.binding = c.binding) db.clients d.clients →
      ∀ c', d.clients.row x = some c' → ∃ c, db.clients.row x = some c ∧ c.membership = c'.membership
        ∧ c.clientId = c'.clientId := by
    intro hs c' hc'
    obtain ⟨c, hc, hbinding⟩ := hs.2 x c' hc'
    exact ⟨c, hc, (congrArg Binding.membership hbinding).symm, (congrArg Binding.clientId hbinding).symm⟩
  cases hw with
  | tick seconds => exact h.mono (Nat.le_refl _) (Nat.le_refl _) (Nat.le_add_right _ _) hclients hcodes
  | newClient c => exact h.mono (Nat.le_succ _) (Nat.le_succ _) (Nat.le_refl _) (hnew c) hcodes
  | newRelyingParty c => exact h.mono (Nat.le_succ _) (Nat.le_refl _) (Nat.le_refl _) (hnew c) hcodes
  | @bindApp pk c c' m _ hc =>
    refine h.mono (Nat.le_max_left _ _) (Nat.le_refl _) (Nat.le_refl _) (fun c' hc' => ?_) hcodes
    rw [put_row] at hc'
    split at hc'
    · rename_i hx
      subst hx
      exact absurd (h.unbound _ hc).2 (hbind _ _ rfl (h.unbound _ hc).1)
    · exact hclients c' hc'
  | bindKeyed => exact absurd rfl hlogin
  | clients ht hn =>
    have hs := Write.clients_shrink (.clients ht hn) trivial
    exact h.mono (Nat.le_of_eq hs.1.symm) (Nat.le_refl _) (Nat.le_refl _) (hshrink hs) hcodes
  | delete origin roots upgrading =>
    have hs := Write.clients_shrink (l := .delete origin roots upgrading) (d := db.delete origin roots upgrading)
      (.delete _ _ _) trivial
    have hd := delete_shrinks db origin roots upgrading
    refine h.mono (Nat.le_of_eq hs.1.symm) (Nat.le_of_eq hd.draws.symm) (Nat.le_of_eq hd.now.symm) (hshrink hs)
      fun k code hcode hx => ?_
    obtain ⟨_, hcode', rfl⟩ := hd.deviceCodes.2 k code hcode
    exact hcodes k code hcode' hx
  | renameRole hr =>
    obtain ⟨_, _, -, rfl, -⟩ := renameRole_ok hr
    exact h.mono (Nat.le_refl _) (Nat.le_refl _) (Nat.le_refl _) hclients hcodes
  | stage code hsecret hclient =>
    refine h.mono (Nat.le_refl _) (Nat.le_add_right _ _) (Nat.le_refl _) hclients fun k code' hcode hx => ?_
    rcases insert_row_eq_some.mp hcode with ⟨-, rfl⟩ | hcode
    · -- the client would have been drawn just now
      subst hx
      obtain ⟨c, n, hc, hid, hdraws, -⟩ := hclient
      have := h.staged c n hc hid
      omega
    · exact hcodes k code' hcode hx
  | deviceCodes ht =>
    refine h.mono (Nat.le_refl _) (Nat.le_refl _) (Nat.le_refl _) hclients fun k code' hcode' hx => ?_
    obtain ⟨code, hcode, hclient, -, hexpires, -⟩ := ht.before hcode'
    exact ⟨code, hcode, hclient ▸ hx, hexpires.symm⟩
  | repoint polling hc hbound =>
    refine h.mono (Nat.le_refl _) (Nat.le_refl _) (Nat.le_refl _) hclients fun k code' hcode' hx => ?_
    rcases modify_row_eq_some.mp hcode' with ⟨-, hcode'⟩ | ⟨-, code, hcode, rfl⟩
    · exact hcodes k code' hcode' hx
    · subst hx
      have hnone := (h.unbound _ hc).1
      rw [hbound] at hnone
      cases hnone
  | stageMesh | authorize | mint =>
    exact h.mono (Nat.le_refl _) (Nat.le_add_right _ _) (Nat.le_refl _) hclients hcodes
  | _ => exact h.mono (Nat.le_refl _) (Nat.le_refl _) (Nat.le_refl _) hclients hcodes

/-- A hub is identified by a bound client. -/
def Identified (db : DB) : Prop := ∀ k h x, db.hubs.row k = some h → h.client = some x → db.Bound x

theorem Identified.write (h : db.Identified) (hw : Write db l d) : d.Identified := by
  have hkept : (∀ k y x, d.hubs.row k = some y → y.client = some x →
    ∃ k' y', db.hubs.row k' = some y' ∧ y'.client = some x) →
      d.Identified := by
    intro hold k y x hy hx
    obtain ⟨k', y', hy', hx'⟩ := hold k y x hy hx
    exact (h k' y' x hy' hx').write hw
  cases hw with
  | newHub y hclient =>
    intro k y' x hy hx
    rcases insert_row_eq_some.mp hy with ⟨-, rfl⟩ | hy
    · rw [hclient] at hx
      cases hx
    · exact h k y' x hy hx
  | hubs ht =>
    refine hkept fun k y x hy hx => ?_
    obtain ⟨y', hy', -, hclient⟩ := ht.before hy
    exact ⟨k, y', hy', hclient ▸ hx⟩
  | identify hh hc hm =>
    intro k y x hy hx
    rcases modify_row_eq_some.mp hy with ⟨-, hy⟩ | ⟨-, y', -, rfl⟩
    · exact h k y x hy hx
    · obtain rfl := Option.some.inj hx
      refine ⟨lt_next hc, fun c' hc' => ?_⟩
      have hc' : db.clients.row _ = some c' := hc'
      rw [hc] at hc'
      cases hc'
      rw [hm]
      rfl
  | delete origin roots upgrading =>
    refine hkept fun k y x hy hx => ?_
    obtain ⟨y', hy', c, rfl, hc⟩ := (delete_shrinks db origin roots upgrading).hubs.2 k y hy
    rcases hc with rfl | rfl
    · exact ⟨k, y', hy', hx⟩
    · cases hx
  | renameRole hr =>
    obtain ⟨_, _, -, rfl, -⟩ := renameRole_ok hr
    exact hkept fun k y x hy hx => ⟨k, y, hy, hx⟩
  | _ => exact hkept fun k y x hy hx => ⟨k, y, hy, hx⟩

/-! ## A client is staged once -/

/-- A code of an unbound client was drawn right after it. -/
structure StagedOnce (db : DB) : Prop where
  known : ∀ k code, db.deviceCodes.row k = some code → code.client < db.clients.next
  drawn : Drawn (fun code : DeviceCode => some code.secret) db.deviceCodes db.draws
  after : ∀ k code c, db.deviceCodes.row k = some code → db.clients.row code.client = some c →
    c.membership = none →
    ∃ n, c.clientId = .uuid n ∧ code.secret = n + 2

theorem StagedOnce.unique (h : db.StagedOnce) {j k : Pk} {code code' : DeviceCode} {c : Client}
    (hj : db.deviceCodes.row j = some code) (hk : db.deviceCodes.row k = some code')
    (hsame : code.client = code'.client)
    (hc : db.clients.row code.client = some c) (hm : c.membership = none) : j = k := by
  obtain ⟨n, hn, hsecret⟩ := h.after j code c hj hc hm
  obtain ⟨n', hn', hsecret'⟩ := h.after k code' c hk (hsame ▸ hc) hm
  have hid : n = n' := by
    rw [hn] at hn'
    exact ClientId.uuid.inj hn'
  refine h.drawn.unique j k code code' code.secret hj hk rfl ?_
  rw [hsecret, hsecret', hid]

theorem StagedOnce.mono (h : db.StagedOnce) (hnext : db.clients.next ≤ d.clients.next)
    (hdraws : db.draws ≤ d.draws)
    (hcodes : ∀ k code, d.deviceCodes.row k = some code → db.deviceCodes.row k = some code)
    (hclients : ∀ x c', x < db.clients.next → d.clients.row x = some c' → c'.membership = none →
      ∃ c, db.clients.row x = some c ∧ c.membership = none ∧ c.clientId = c'.clientId) : d.StagedOnce where
  known k code hcode := Nat.lt_of_lt_of_le (h.known k code (hcodes k code hcode)) hnext
  drawn := (h.drawn.of_before fun k code hcode => ⟨code, hcodes k code hcode, rfl⟩).mono hdraws
  after k code c' hcode hc' hm := by
    have hold := hcodes k code hcode
    obtain ⟨c, hc, hnone, hid⟩ := hclients code.client c' (h.known k code hold) hc' hm
    obtain ⟨n, hn, hsecret⟩ := h.after k code c hold hc hnone
    exact ⟨n, hid ▸ hn, hsecret⟩

theorem StagedOnce.write (h : db.StagedOnce) (hw : Write db l d) : d.StagedOnce := by
  have hshrink : Table.Shrinks (fun c c' : Client => c'.binding = c.binding) db.clients d.clients →
      ∀ x c', x < db.clients.next → d.clients.row x = some c' → c'.membership = none →
        ∃ c, db.clients.row x = some c ∧ c.membership = none ∧ c.clientId = c'.clientId := by
    intro hs x c' _ hc' hm
    obtain ⟨c, hc, hbinding⟩ := hs.2 x c' hc'
    have hmember : c'.membership = c.membership := congrArg Binding.membership hbinding
    have hid : c'.clientId = c.clientId := congrArg Binding.clientId hbinding
    exact ⟨c, hc, hmember ▸ hm, hid.symm⟩
  have hnew : ∀ c x c', x < db.clients.next → (db.clients.insert c).row x = some c' → c'.membership = none →
      ∃ c, db.clients.row x = some c ∧ c.membership = none ∧ c.clientId = c'.clientId := by
    intro c x c' hx hc' hm
    rcases insert_row_eq_some.mp hc' with ⟨rfl, -⟩ | hc'
    · exact absurd hx (Nat.lt_irrefl _)
    · exact ⟨c', hc', hm, rfl⟩
  have hput : ∀ pk c m, c.membership = some m →
    ∀ x c', x < db.clients.next → (db.clients.put pk c).row x = some c' →
      c'.membership = none → ∃ c, db.clients.row x = some c ∧ c.membership = none ∧ c.clientId = c'.clientId := by
    intro pk c m hbound x c' _ hc' hm
    rw [put_row] at hc'
    split at hc'
    · cases hc'
      rw [hbound] at hm
      cases hm
    · exact ⟨c', hc', hm, rfl⟩
  have hsame : ∀ x c', x < db.clients.next → db.clients.row x = some c' → c'.membership = none →
      ∃ c, db.clients.row x = some c ∧ c.membership = none ∧ c.clientId = c'.clientId :=
    fun x c' _ hc' hm => ⟨c', hc', hm, rfl⟩
  cases hw with
  | newClient c => exact h.mono (Nat.le_succ _) (Nat.le_succ _) (fun _ _ => id) (hnew c)
  | newRelyingParty c => exact h.mono (Nat.le_succ _) (Nat.le_refl _) (fun _ _ => id) (hnew c)
  | bindApp hc _ _ _ hm => exact h.mono (Nat.le_max_left _ _) (Nat.le_refl _) (fun _ _ => id) (hput _ _ _ hm)
  | bindKeyed hc _ _ _ _ hm => exact h.mono (Nat.le_max_left _ _) (Nat.le_refl _) (fun _ _ => id) (hput _ _ _ hm)
  | clients ht hn =>
    have hs := Write.clients_shrink (.clients ht hn) trivial
    exact h.mono (Nat.le_of_eq hs.1.symm) (Nat.le_refl _) (fun _ _ => id) (hshrink hs)
  | delete origin roots upgrading =>
    have hs := Write.clients_shrink (l := .delete origin roots upgrading) (d := db.delete origin roots upgrading)
      (.delete _ _ _) trivial
    have hd := delete_shrinks db origin roots upgrading
    refine h.mono (Nat.le_of_eq hs.1.symm) (Nat.le_of_eq hd.draws.symm) (fun k code hcode => ?_) (hshrink hs)
    obtain ⟨_, hcode', rfl⟩ := hd.deviceCodes.2 k code hcode
    exact hcode'
  | renameRole hr =>
    obtain ⟨_, _, -, rfl, -⟩ := renameRole_ok hr
    exact h.mono (Nat.le_refl _) (Nat.le_refl _) (fun _ _ => id) hsame
  | stage code hsecret hclient =>
    obtain ⟨c, n, hc, hid, hdraws, -⟩ := hclient
    refine ⟨fun k code' hcode => ?_, h.drawn.insert (Nat.le_add_right _ _) fun x hx => ?_,
      fun k code' c' hcode hc' hm => ?_⟩
    · rcases insert_row_eq_some.mp hcode with ⟨-, rfl⟩ | hcode
      · exact lt_next hc
      · exact h.known k code' hcode
    · obtain rfl := Option.some.inj hx
      rw [hsecret]
      exact ⟨Nat.le_succ _, Nat.lt_succ_self _⟩
    · rcases insert_row_eq_some.mp hcode with ⟨-, rfl⟩ | hcode
      · have hc' : db.clients.row code.client = some c' := hc'
        rw [hc] at hc'
        cases hc'
        exact ⟨n, hid, by omega⟩
      · exact h.after k code' c' hcode hc' hm
  | deviceCodes ht =>
    refine ⟨fun k code hcode => ?_, h.drawn.rewrite ht fun _ _ _ hr => congrArg some hr.2.1,
      fun k code c hcode hc hm => ?_⟩
    · obtain ⟨code', hcode', hclient, -⟩ := ht.before hcode
      rw [hclient]
      exact h.known k code' hcode'
    · obtain ⟨code', hcode', hclient, hsecret, -⟩ := ht.before hcode
      rw [hsecret]
      exact h.after k code' c hcode' (hclient ▸ hc) hm
  | repoint polling hc hbound =>
    refine ⟨fun k code hcode => ?_, h.drawn.of_before fun k code hcode => ?_, fun k code c hcode hc' hm => ?_⟩
    · rcases modify_row_eq_some.mp hcode with ⟨-, hcode⟩ | ⟨-, code', hcode', rfl⟩
      · exact h.known k code hcode
      · exact lt_next hc
    · rcases modify_row_eq_some.mp hcode with ⟨-, hcode⟩ | ⟨-, code', hcode', rfl⟩
      · exact ⟨code, hcode, rfl⟩
      · exact ⟨code', hcode', rfl⟩
    · rcases modify_row_eq_some.mp hcode with ⟨-, hcode⟩ | ⟨-, code', hcode', rfl⟩
      · exact h.after k code c hcode hc' hm
      · have hc' : db.clients.row _ = some c := hc'
        rw [hc] at hc'
        cases hc'
        rw [hbound] at hm
        cases hm
  | stageMesh | authorize | mint => exact h.mono (Nat.le_refl _) (Nat.le_add_right _ _) (fun _ _ => id) hsame
  | _ => exact h.mono (Nat.le_refl _) (Nat.le_refl _) (fun _ _ => id) hsame

/-! ## Mandates are issued by bound clients -/

/-- Whom a mandate names as the client that issued it is bound. -/
def IssuedByBound (db : DB) : Prop := ∀ k m i, db.mandates.row k = some m → m.issuingClient = some i → db.Bound i

/-- Every mandate was issued by whom it was before, or by one of these. -/
def IssuersFrom (issuers : Pk → Prop) (db d : DB) : Prop :=
  ∀ k m i, d.mandates.row k = some m → m.issuingClient = some i →
    issuers i ∨ ∃ k' m', db.mandates.row k' = some m' ∧ m'.issuingClient = some i

variable {issuers : Pk → Prop}

theorem IssuersFrom.refl (db : DB) : IssuersFrom issuers db db := fun k m _ hm hi => .inr ⟨k, m, hm, hi⟩

theorem IssuersFrom.trans {e : DB} (h : IssuersFrom issuers db d) (k : IssuersFrom issuers d e) :
    IssuersFrom issuers db e := by
  intro pk m i hm hi
  rcases k pk m i hm hi with hnew | ⟨pk', m', hm', hi'⟩
  · exact .inl hnew
  · exact h pk' m' i hm' hi'

theorem IssuersFrom.same (h : d.mandates = db.mandates) : IssuersFrom issuers db d :=
  fun k m _ hm hi => .inr ⟨k, m, h ▸ hm, hi⟩

theorem IssuersFrom.rewrites
    (h : Rewrites (fun (_ : Nat) (m m' : Mandate) => m'.issuingClient = m.issuingClient) db.mandates d.mandates) :
    IssuersFrom issuers db d := by
  intro k m i hm hi
  obtain ⟨m₀, hm₀, heq⟩ := h.before hm
  exact .inr ⟨k, m₀, hm₀, heq ▸ hi⟩

theorem IssuersFrom.delete {origin : Model} {roots : List Ref} {upgrading : Option Pk} :
    IssuersFrom issuers db (db.delete origin roots upgrading) := by
  intro k m i hm hi
  obtain ⟨m₀, hm₀, rfl⟩ := (delete_shrinks db origin roots upgrading).mandates.2 k m hm
  exact .inr ⟨k, m, hm₀, hi⟩

/-! ### The accept of an app -/

theorem keepClient_issuers {pk staged kept : Pk} {c : Client} :
    IssuersFrom issuers db (db.keepClient pk staged c kept) := by
  have hcodes : IssuersFrom issuers db (db.delete .deviceCode
      ((db.deviceCodes.pks fun k code => code.client == kept && k != pk).map fun k => ⟨.deviceCode, k⟩) none) :=
        .delete
  unfold keepClient
  dsimp only
  refine hcodes.trans ?_
  clear hcodes
  generalize db.delete .deviceCode _ none = d
  have hsame : IssuersFrom issuers d { d with
      clients := d.clients.modify kept fun k => { k with redirectUris := c.redirectUris, public_ := c.public_ },
      deviceCodes := d.deviceCodes.modify pk
        fun code => { code with pollingClientId := some c.clientId, client := kept } } := .same rfl
  exact hsame.trans .delete

theorem reissue_issuers (from_ : List Pk) (client : Pk) :
    IssuersFrom (· = client) db (db.reissue from_ client) := by
  intro k m i hm hi
  obtain ⟨m₀, hm₀, rfl⟩ := updateWhere_row_eq_some.mp hm
  split at hi
  · exact .inl (Option.some.inj hi).symm
  · exact .inr ⟨k, m₀, hm₀, hi⟩

theorem dropStale_issuers (client : Pk) (stale : List Pk) :
    IssuersFrom (· = client) db (db.dropStale client stale) := by
  unfold dropStale
  exact (reissue_issuers stale client).trans .delete

theorem installClient_issuers {pk user organization : Pk} {bound : Client} {manifest : Manifest}
    {declined : List String}
    (h : db.installClient pk bound manifest user organization declined = .ok d) : IssuersFrom issuers db d := by
  simp only [installClient, saveClient, bind_ok, require_ok, exists_unit, pure_ok] at h
  obtain ⟨_, ⟨-, rfl⟩, e, he, rfl⟩ := h
  obtain ⟨-, _, _, rfl, -⟩ := autoCompose_writes (A := .free) ⟨bound, by rw [put_row, if_pos rfl], rfl⟩ he
  exact .same rfl

theorem bindClient_issuers {env : Env} {pk membership : Pk} {c : Client} {manifest : Manifest}
    {hub mandate : Option Pk}
    {declined : List String} (h : db.bindClient env pk c manifest membership hub declined mandate = .ok d) :
    IssuersFrom (· = pk) db d := by
  obtain ⟨m, t, node, stale, -, -, h⟩ := bindClient_installs h
  have hdevices : IssuersFrom (· = pk) db { db with devices := t } := .same rfl
  exact (hdevices.trans (dropStale_issuers _ _)).trans (installClient_issuers h)

/-- The mandates of the installations an approval replaces move to the client it binds. -/
theorem acceptDeviceCode_issuers {env : Env} {user pk hub : Pk} {proof : Option Nat}
    {declined : List String} {allow : Bool}
    {minted : Option String} (h : db.acceptDeviceCode env user pk proof hub declined allow minted = .ok d) :
    IssuersFrom d.Bound db d := by
  simp only [acceptDeviceCode, bind_ok, found_ok, require_ok, exists_unit] at h
  obtain ⟨code, -, -, -, x, -, membership, -, -, h⟩ := h
  split at h
  · simp at h
  · simp only [bind_ok, pure_ok] at h
    obtain ⟨e, he, hd⟩ := h
    simp only [validateDeviceCode, bind_ok, found_ok, Table.get_ok, pure_ok, Prod.exists] at he
    obtain ⟨m, -, -, staged, -, c, hc, e', he', rfl⟩ := he
    have hbound : ∀ k, IssuersFrom (· = k) db e' → (∃ c', e'.clients.row k = some c' ∧ c'.membership = some m) →
        IssuersFrom d.Bound db d := by
      rintro k hfrom ⟨c', hc', hm⟩
      have hclients : d.clients = e'.clients := by
        rw [← hd]
        split
        · unfold attachMeshKey
          split <;> rfl
        · rfl
      have hmandates : d.mandates = e'.mandates := by
        rw [← hd]
        split
        · unfold attachMeshKey
          split <;> rfl
        · rfl
      intro pk' m' i hm' hi
      rcases hfrom pk' m' i (hmandates ▸ hm') hi with rfl | hold
      · refine .inl ⟨hclients ▸ lt_next hc', fun c'' hc'' => ?_⟩
        rw [hclients, hc'] at hc''
        cases hc''
        rw [hm]
        rfl
      · exact .inr hold
    obtain ⟨c', -, hc', -, hm, -⟩ := bindClient_row he'
    refine hbound _ ?_ ⟨c', hc', hm⟩
    split at he'
    · exact keepClient_issuers.trans (bindClient_issuers he')
    · exact bindClient_issuers he'

/-! ### The accept of a hub -/

theorem revokeRow_issuer (now : Time) (reason : MandateRevocation) (m : Mandate) :
    (revokeRow now reason m).issuingClient = m.issuingClient := by
  unfold revokeRow
  split <;> rfl

theorem revokeMandate_issuers {mandate : Pk} {reason : MandateRevocation}
    (h : db.revokeMandate mandate reason = .ok d) :
    IssuersFrom issuers db d := by
  simp only [revokeMandate, bind_ok, Table.get_ok, pure_ok] at h
  obtain ⟨_, -, rfl⟩ := h
  have hmarked : IssuersFrom issuers db { db with
      mandates := db.mandates.update fun pk m =>
        if pk = mandate then revokeRow db.now reason m
        else if (db.childrenOf mandate).contains pk then revokeRow db.now .parentRevoked m
        else m } := by
    refine .rewrites (.update fun k m _ => ?_)
    split
    · exact revokeRow_issuer _ _ _
    · split
      · exact revokeRow_issuer _ _ _
      · rfl
  refine hmarked.trans ?_
  generalize ({ db with mandates := _ } : DB) = e
  have htokens : ∀ l, IssuersFrom issuers e (e.revokeTokensOf l) := fun _ => .same rfl
  exact (htokens _).trans .delete

theorem issuersFrom_steps : Steps (IssuersFrom issuers) where
  refl := .refl
  trans := IssuersFrom.trans
  beside h := .same h.mandates
  delete _ _ := .delete
  revoke := revokeMandate_issuers
  issue := by
    intro db m devices hnone k m' i hm' hi
    rcases insert_row_eq_some.mp hm' with ⟨-, rfl⟩ | hm'
    · rw [hnone] at hi
      cases hi
    · exact .inr ⟨k, m', hm', hi⟩
  keep := by
    intro db pk current grantor auth request _
    unfold keepHubMandate
    have hkept : ∀ e : DB, IssuersFrom issuers e { e with mandates := e.mandates.modify pk fun m =>
        { m with membership := grantor, pin := .fromManifest request.manifest false true, allowMesh := auth } } :=
      fun e => .rewrites (.modify (fun _ _ => rfl) fun _ _ => rfl)
    dsimp only
    split
    · exact IssuersFrom.delete.trans (hkept _)
    · exact hkept db

theorem acceptHubDeviceCode_issuers {env : Env} {user pk organization : Pk} {proof : Option Nat} {allow : Bool}
    {minted : Option String} (h : db.acceptHubDeviceCode env user pk proof organization allow minted = .ok d) :
    IssuersFrom issuers db d := by
  simp only [acceptHubDeviceCode, bind_ok, found_ok, require_ok, exists_unit] at h
  obtain ⟨code, -, _, -, -, -, h⟩ := h
  split at h
  · simp at h
  · obtain ⟨e, hub, membership, c, x, e', he, -, -, hbind, codes, rfl, -⟩ := provisionHub_ok h
    have hidentified : IssuersFrom issuers e e' := by
      unfold bindHubIdentity at hbind
      simp only [saveClient, bind_ok, require_ok, exists_unit, pure_ok] at hbind
      obtain ⟨_, ⟨-, rfl⟩, -, rfl⟩ := hbind
      have hsame : ∀ (t : Table Client) (u : Table Hub),
        IssuersFrom issuers e { e with clients := t, hubs := u } := fun _ _ => .same rfl
      split
      · split
        · exact (hsame _ _).trans .delete
        · exact hsame _ _
      · exact hsame _ _
    exact ((issuersFrom_steps.provisionServices he).trans hidentified).trans (.same rfl)

/-! ## Deleting a client nobody claimed -/

theorem collect_alone {x : Pk} (hnone : ∀ k m, db.mandates.row k = some m → m.issuingClient ≠ some x) {r : Ref}
    (h : r ∈ db.collect [⟨.client, x⟩]) : r = ⟨.client, x⟩ ∨ r.model = .mapping
      ∨ r.model = .deviceCode ∧ ∃ code, db.deviceCodes.row r.pk = some code ∧ code.client = x := by
  refine Closure.closure_induct (P := fun r : Ref => r = ⟨.client, x⟩ ∨ r.model = .mapping
    ∨ r.model = .deviceCode ∧ ∃ code, db.deviceCodes.row r.pk = some code ∧ code.client = x) (fun r hr => ?_)
      (fun y _ p hp hP => ?_) h
  · exact .inl (List.mem_singleton.mp hr)
  · have hleaf : p.model ≠ .mapping ∧ p.model ≠ .deviceCode := by
      have hunder := hangsOn_under hp
      constructor <;> intro hmodel <;> rw [hmodel] at hunder <;> cases hy :
        y.model <;> simp [hy, Model.under] at hunder
    rcases hP with rfl | hP | ⟨hP, -⟩
    · rcases client_of_hangsOn hp with hy | hy | ⟨-, m, hm, hi⟩
      · exact .inr (.inl hy)
      · refine .inr (.inr ⟨hy, ?_⟩)
        obtain ⟨model, k⟩ := y
        dsimp only at hy
        subst hy
        simp only [hangsOn, mem_elim] at hp
        obtain ⟨code, hcode, hmem⟩ := hp
        refine ⟨code, hcode, ?_⟩
        simp only [DeviceCode.hangsOn, List.mem_cons, mem_refOf, Ref.mk.injEq, true_and,
          reduceCtorEq, false_and, and_false,
          exists_false, or_false] at hmem
        exact hmem.symm
      · exact absurd hi (hnone _ m hm)
    · exact absurd hP hleaf.1
    · exact absurd hP hleaf.2

/-- The client is gone with its codes, and nothing else. -/
structure Purged (db d : DB) (x : Pk) : Prop where
  clients : ∀ y c, db.clients.row y = some c → (y = x ∧ d.clients.row y = none)
    ∨ (y ≠ x ∧ ∃ c', d.clients.row y = some c' ∧ c'.membership = c.membership)
  codes : ∀ k code, db.deviceCodes.row k = some code → (code.client = x ∧ d.deviceCodes.row k = none)
    ∨ (code.client ≠ x ∧ d.deviceCodes.row k = some code)
  hubs : ∀ k h, db.hubs.row k = some h → h.client ≠ some x → ∃ h', d.hubs.row k = some h' ∧ h'.client = h.client

theorem delete_client_alone {x : Pk} (hnone : ∀ k m, db.mandates.row k = some m → m.issuingClient ≠ some x) :
    Purged db (db.delete .client [⟨.client, x⟩] none) x := by
  have hroot : (⟨.client, x⟩ : Ref) ∈ db.collect [⟨.client, x⟩] := mem_collect_root (by simp)
  rw [delete_of_no_receiver fun r hr => by
    rcases collect_alone hnone hr with rfl | h | ⟨h, -⟩
    · simp
    · simp [h]
    · simp [h]]
  refine ⟨fun y c hc => ?_, fun k code hcode => ?_, fun k h hh hne => ?_⟩
  · by_cases hy : y = x
    · refine .inl ⟨hy, Option.eq_none_iff_forall_ne_some.mpr fun c' hc' => ?_⟩
      subst hy
      obtain ⟨c₀, hc₀, -⟩ := update_row_eq_some.mp hc'
      have hkeeps := (keep_row_eq_some.mp hc₀).2
      simp [keeps, hroot] at hkeeps
    · refine .inr ⟨hy, _, update_row_eq_some.mpr ⟨c, keep_row_eq_some.mpr ⟨hc, ?_⟩, rfl⟩, rfl⟩
      have hgone : (⟨.client, y⟩ : Ref) ∉ db.collect [⟨.client, x⟩] := by
        intro hmem
        rcases collect_alone hnone hmem with h | h | ⟨h, -⟩
        · exact hy (congrArg Ref.pk h)
        · cases h
        · cases h
      simpa [keeps] using hgone
  · by_cases hx : code.client = x
    · refine .inl ⟨hx, Option.eq_none_iff_forall_ne_some.mpr fun code' hcode' => ?_⟩
      have hmem : (⟨.deviceCode, k⟩ : Ref) ∈ db.collect [⟨.client, x⟩] := by
        refine mem_collect_of_hangsOn (p := ⟨.client, x⟩) ?_ hroot
        simp [hangsOn, hcode, DeviceCode.hangsOn, hx]
      have hkeeps := (keep_row_eq_some.mp hcode').2
      simp [keeps, hmem] at hkeeps
    · refine .inr ⟨hx, keep_row_eq_some.mpr ⟨hcode, ?_⟩⟩
      have hgone : (⟨.deviceCode, k⟩ : Ref) ∉ db.collect [⟨.client, x⟩] := by
        intro hmem
        rcases collect_alone hnone hmem with h | h | ⟨-, code', hcode', hx'⟩
        · cases h
        · cases h
        · have hcode' : db.deviceCodes.row k = some code' := hcode'
          rw [hcode] at hcode'
          cases hcode'
          exact hx hx'
      simpa [keeps] using hgone
  · have hgone : (⟨.hub, k⟩ : Ref) ∉ db.collect [⟨.client, x⟩] := by
      intro hmem
      rcases collect_alone hnone hmem with h | h | ⟨h, -⟩ <;> cases h
    refine ⟨_, update_row_eq_some.mpr ⟨h, keep_row_eq_some.mpr ⟨hh, by simpa [keeps] using hgone⟩, rfl⟩, ?_⟩
    cases hclient : h.client with
    | none => rfl
    | some y =>
      have hkept : (⟨.client, y⟩ : Ref) ∉ db.collect [⟨.client, x⟩] := by
        intro hmem
        rcases collect_alone hnone hmem with h' | h' | ⟨h', -⟩
        · exact hne (hclient.trans (congrArg (some ∘ Ref.pk) h'))
        · cases h'
        · cases h'
      simpa [keepOpt] using hkept

end DB

/-! ## Purges and accepts, interleaved -/

/-- What a purge read, and what of it is left to delete: codes with their clients. -/
structure Purge where
  read : List (Pk × Pk)
  rest : List (Pk × Pk)

structure PurgeState where
  db : DB
  purges : List Purge

inductive PurgeEvent
  | tick (seconds : Time)
  | start (manifest : Manifest) (kind : ClientKind) (role : ClientRole) (redirectUris : List String)
      (isPublic : Bool)
      (seconds : Time) (requestAuthKey : Bool)
  | startHub (manifest : HubManifest) (seconds : Time)
  | accept (user pk : Pk) (proof : Option Nat) (hub : Pk) (declined : List String) (allowIonscale : Bool)
    (minted : Option String)
  | acceptHub (user pk : Pk) (proof : Option Nat) (organization : Pk) (allowIonscale : Bool)
    (minted : Option String)
  | read
  | delete (purge : Nat)

/-- What the event does to the database in one transaction. -/
def PurgeEvent.action : PurgeEvent → Option Action
  | .tick seconds => some (.tick seconds)
  | .start manifest kind role uris isPublic seconds auth =>
    some (.startDeviceCode manifest kind role uris isPublic seconds auth)
  | .startHub manifest seconds => some (.startHubDeviceCode manifest seconds)
  | .accept user pk proof hub declined allow minted =>
    some (.acceptDeviceCode user pk proof hub declined allow minted)
  | .acceptHub user pk proof organization allow minted =>
    some (.acceptHubDeviceCode user pk proof organization allow minted)
  | .read | .delete _ => none

def PurgeEvent.accepts : PurgeEvent → Bool
  | .accept .. | .acceptHub .. => true
  | _ => false

/-- `device_code.client.delete()`; nothing hangs on a client that is gone already. -/
def DB.deleteClient (db : DB) (x : Pk) : DB :=
  if (db.clients.row x).isSome then db.delete .client [⟨.client, x⟩] none else db

inductive PurgeStep (env : Env) : PurgeState → PurgeEvent → PurgeState → Prop
  | act {s : PurgeState} {e : PurgeEvent} {a : Action} (ha : e.action = some a) :
    PurgeStep env s e { s with db := step env s.db a }
  | read (s : PurgeState) : PurgeStep env s .read
    { s with purges := s.purges ++ [⟨s.db.expiredUnbound, s.db.expiredUnbound⟩] }
  | delete {s : PurgeState} {i : Nat} {p : Purge} {c : Pk × Pk} {rest : List (Pk × Pk)}
      (hp : s.purges[i]? = some p)
      (hrest : p.rest = c :: rest) :
    PurgeStep env s (.delete i) ⟨s.db.deleteClient c.2, s.purges.set i { p with rest := rest }⟩

/-- A purge under way is about to delete the client. -/
def PurgeState.Pending (s : PurgeState) (x : Pk) : Prop := ∃ p ∈ s.purges, ∃ c ∈ p.rest, c.2 = x

/-- No hub is accepted with a code whose client a purge is about to delete. -/
def PurgeEvent.Safe (s : PurgeState) : PurgeEvent → Prop
  | .acceptHub _ pk .. => ∀ code, s.db.deviceCodes.row pk = some code → ¬ s.Pending code.client
  | _ => True

def SafeStep (env : Env) (s : PurgeState) (e : PurgeEvent) (t : PurgeState) : Prop :=
  e.Safe s ∧ PurgeStep env s e t

/-- Whoever is bound stays, and hubs keep their identity. -/
structure DB.Spares (db d : DB) : Prop where
  clients : ∀ x c m, db.clients.row x = some c → c.membership = some m →
    ∃ c', d.clients.row x = some c' ∧ c'.membership = some m
  hubs : ∀ k h x, db.hubs.row k = some h → h.client = some x → ∃ h', d.hubs.row k = some h' ∧ h'.client = some x

/-! ## Whom a purge is about to delete stays unbound -/

section

variable {env : Env} {db d : DB} {s t : PurgeState} {e : PurgeEvent}

/-- Staging and approving: bind these, and log nobody in. -/
def approving (bind : Binding → Pk → Prop) : Licence :=
  ⟨True, fun _ => False, fun _ => True, bind, False, fun _ _ => False, False⟩

theorem lapsed_of_staging {x : Pk} (hx : db.Lapsed (fun _ => True) x)
    (hw : Writes (approving fun _ _ => False) db d) :
    d.Lapsed (fun _ => True) x := by
  refine hw.invariant (I := fun d : DB => d.Lapsed (fun _ => True) x) (fun hI hwrite hl => ?_) hx
  refine hI.write hwrite (fun before m hbefore => ?_) fun hlogin => ?_
  · subst hbefore
    exact hl.elim
  · subst hlogin
    exact hl

theorem lapsed_of_approval {x pk : Pk} (hlaws : db.ClientLaws) (hx : db.Lapsed (fun _ => True) x)
    (hother : ∀ code, db.deviceCodes.row pk = some code → code.client ≠ x)
    (hw : Writes (approving fun before m => before.membership = some m
      ∨ ∃ c, db.codeClient pk = some c ∧ c.binding = before) db d) :
    d.Lapsed (fun _ => True) x := by
  have hstart : db.Lapsed (fun id => ∃ c, db.clients.row x = some c ∧ c.clientId = id) x :=
    ⟨hx.known, fun c hc => ⟨(hx.unbound c hc).1, c, hc, rfl⟩, hx.staged, hx.expired⟩
  have hend : d.Lapsed (fun id => ∃ c, db.clients.row x = some c ∧ c.clientId = id) x := by
    refine hw.invariant (I := fun d : DB => d.Lapsed
      (fun id => ∃ c, db.clients.row x = some c ∧ c.clientId = id) x)
      (fun hI hwrite hl => hI.write hwrite (fun before m hbefore hm => ?_) fun hlogin => ?_) hstart
    · rintro ⟨c, hc, hid⟩
      subst hbefore
      rcases hl with hbound | ⟨c', hc', rfl⟩
      · rw [hm] at hbound
        cases hbound
      · obtain ⟨code, hcode, hc'⟩ := Option.bind_eq_some_iff.mp hc'
        obtain ⟨c'', hc'', hplain⟩ := hlaws.staged pk code hcode
        rw [hc'] at hc''
        cases hc''
        have hminted := hplain.minted
        cases hn : c'.clientId with
        | named name =>
          have hid' : c'.binding.clientId = .named name := hn
          rw [hid'] at hminted
          cases hminted
        | uuid n =>
          have hid' : c.clientId = .uuid n := hid.trans hn
          refine hother code hcode (hlaws.drawn.unique _ _ c' c n hc' hc ?_ ?_)
          · simp [hn, ClientId.number]
          · simp [hid', ClientId.number]
    · subst hlogin
      exact hl
  exact ⟨hend.known, fun c hc => ⟨(hend.unbound c hc).1, trivial⟩, hend.staged, hend.expired⟩

theorem DB.StagedOnce.lapsed (h : db.StagedOnce) {k x : Pk} (hread : (k, x) ∈ db.expiredUnbound) :
    db.Lapsed (fun _ => True) x := by
  obtain ⟨code, c, hcode, rfl, hexpired, hc, hm⟩ := DB.mem_expiredUnbound.mp hread
  refine ⟨lt_next hc, fun c' hc' => ?_, fun c' n hc' hn => ?_, fun j code' hcode' hsame => ?_⟩
  · rw [hc] at hc'
    cases hc'
    exact ⟨hm, trivial⟩
  · rw [hc] at hc'
    cases hc'
    obtain ⟨n', hn', hsecret⟩ := h.after k code c hcode hc hm
    rw [hn] at hn'
    cases hn'
    have hdrawn := h.drawn.lt k code code.secret hcode rfl
    omega
  · obtain rfl := h.unique hcode hcode' hsame.symm hc hm
    rw [hcode] at hcode'
    cases hcode'
    exact hexpired

/-- What holds of the database between the steps. -/
structure DB.Lawful (env : Env) (db : DB) : Prop where
  reachable : Reachable env db
  issued : db.IssuedByBound

theorem DB.Lawful.identified (h : db.Lawful env) : db.Identified :=
  h.reachable.invariant (fun h hw => h.write hw) (by simp [DB.Identified, DB.empty])

theorem DB.Lawful.stagedOnce (h : db.Lawful env) : db.StagedOnce :=
  h.reachable.invariant (fun h hw => h.write hw) ⟨by simp [DB.empty], .empty, by simp [DB.empty]⟩

theorem DB.Lawful.step (h : db.Lawful env) {a : Action}
    (hissuers : DB.IssuersFrom (step env db a).Bound db (step env db a)) :
    (step env db a).Lawful env := by
  obtain ⟨as, hrun⟩ := h.reachable
  refine ⟨⟨as ++ [a], hrun.snoc rfl⟩, fun k m i hm hi => ?_⟩
  rcases hissuers k m i hm hi with hbound | ⟨k', m', hm', hi'⟩
  · exact hbound
  · exact step_invariant (P := fun d => d.Bound i) (fun h hw => h.write hw) a (h.issued k' m' i hm' hi')

theorem PurgeEvent.issuers {a : Action} (ha : e.action = some a) :
    DB.IssuersFrom (step env db a).Bound db (step env db a) := by
  cases e with
  | tick | start | startHub =>
    cases ha
    exact .same rfl
  | accept user pk proof hub declined allow minted =>
    cases ha
    unfold Lok.step DB.settle
    dsimp only
    split
    · rename_i d hd
      exact DB.acceptDeviceCode_issuers hd
    · exact .refl db
  | acceptHub user pk proof organization allow minted =>
    cases ha
    unfold Lok.step DB.settle
    dsimp only
    split
    · rename_i d hd
      exact DB.acceptHubDeviceCode_issuers hd
    · exact .refl db
  | read | delete => cases ha

theorem DB.Lawful.deleteClient (h : db.Lawful env) (x : Pk) : (db.deleteClient x).Lawful env := by
  unfold DB.deleteClient
  split
  · have hstep : Lok.step env db (.delete .client [x]) = db.delete .client [⟨.client, x⟩] none :=
      step_delete_of_within env db DB.withClients_within (by decide) (by decide) [x]
    rw [← hstep]
    exact h.step (hstep ▸ .delete)
  · exact h

theorem PurgeStep.lawful (h : PurgeStep env s e t) (hs : s.db.Lawful env) : t.db.Lawful env := by
  cases h with
  | act ha => exact hs.step (PurgeEvent.issuers ha)
  | read => exact hs
  | delete hp hrest => exact hs.deleteClient _

theorem DB.Lapsed.deleteClient {ids : ClientId → Prop} {x : Pk} (h : db.Lapsed ids x) (y : Pk) :
    (db.deleteClient y).Lapsed ids x := by
  unfold DB.deleteClient
  split
  · exact h.write (.delete .client [⟨.client, y⟩] none) (fun _ _ h => nomatch h) (fun h => nomatch h)
  · exact h

/-- Nothing but the accept of a hub binds the client of an expired code, and only that of its own. -/
theorem PurgeStep.lapsed (h : PurgeStep env s e t) (hs : s.db.Lawful env) {x : Pk}
    (hx : s.db.Lapsed (fun _ => True) x)
    (hsafe : ∀ user pk proof organization allow minted, e = .acceptHub user pk proof organization allow minted →
      ∀ code, s.db.deviceCodes.row pk = some code → code.client ≠ x) : t.db.Lapsed (fun _ => True) x := by
  cases h with
  | read => exact hx
  | delete => exact hx.deleteClient _
  | act ha =>
    cases e with
    | tick seconds =>
      cases ha
      exact lapsed_of_staging hx (Writes.quiet (.tick seconds))
    | start manifest kind role uris isPublic seconds auth =>
      cases ha
      exact lapsed_of_staging hx (DB.startDeviceCode_writes trivial _ _ _ _ _ _ _)
    | startHub manifest seconds =>
      cases ha
      exact lapsed_of_staging hx (DB.startHubDeviceCode_writes trivial _ _)
    | accept user pk proof hub declined allow minted =>
      cases ha
      unfold Lok.step DB.settle
      dsimp only
      split
      · rename_i d hd
        -- the code did not expire, so that it is another's
        refine lapsed_of_approval hs.reachable.clientLaws hx (fun code hcode hsame => ?_)
          (DB.acceptDeviceCode_writes (fun h m _ _ => ⟨fun b hb _ => .inl hb, fun c hc => .inr ⟨c, hc, rfl⟩⟩) hd)
        simp only [DB.acceptDeviceCode, bind_ok, found_ok, require_ok, exists_unit] at hd
        obtain ⟨code', hresolved, hfresh, -⟩ := hd
        have hcode' := DB.resolveDeviceCode_ok hresolved
        rw [hcode] at hcode'
        cases hcode'
        have hexpired := hx.expired pk code hcode hsame
        simp [DB.isExpired] at hfresh
        exact absurd hexpired (Nat.not_lt.mpr hfresh)
      · exact hx
    | acceptHub user pk proof organization allow minted =>
      cases ha
      unfold Lok.step DB.settle
      dsimp only
      split
      · rename_i d hd
        exact lapsed_of_approval hs.reachable.clientLaws hx (hsafe _ _ _ _ _ _ rfl)
          (DB.acceptHubDeviceCode_writes (fun _ _ _ _ _ _ => trivial) (fun c m _ hc _ _ _ => .inr ⟨c, hc, rfl⟩) hd)
      · exact hx
    | read | delete => cases ha

/-! ## Purges between accepts -/

/-- Whom a purge is about to delete is unbound. -/
structure PurgeState.Apart (env : Env) (s : PurgeState) : Prop where
  lawful : s.db.Lawful env
  pending : ∀ x, s.Pending x → s.db.Lapsed (fun _ => True) x

theorem SafeStep.apart (h : SafeStep env s e t) (hs : s.Apart env) : t.Apart env := by
  obtain ⟨hsafe, hstep⟩ := h
  refine ⟨hstep.lawful hs.lawful, fun x hx => ?_⟩
  have hkept : s.Pending x → t.db.Lapsed (fun _ => True) x := by
    intro hx
    refine hstep.lapsed hs.lawful (hs.pending x hx) fun _ _ _ _ _ _ he code hcode hsame => ?_
    subst he
    exact hsafe code hcode (hsame ▸ hx)
  cases hstep with
  | act => exact hkept hx
  | read =>
    obtain ⟨p, hp, ⟨k, x⟩, hc, rfl⟩ := hx
    rcases List.mem_append.mp hp with hp | hp
    · exact hkept ⟨p, hp, _, hc, rfl⟩
    · obtain rfl := List.mem_singleton.mp hp
      exact hs.lawful.stagedOnce.lapsed hc
  | @delete i p c rest hp hrest =>
    obtain ⟨q, hq, c', hc, rfl⟩ := hx
    rcases List.mem_or_eq_of_mem_set hq with hq | rfl
    · exact hkept ⟨q, hq, c', hc, rfl⟩
    · exact hkept ⟨p, List.mem_of_getElem? hp, c', hrest ▸ List.mem_cons_of_mem _ hc, rfl⟩

theorem DB.Lapsed.purged {x : Pk} {c : Client} (hx : db.Lapsed (fun _ => True) x) (hi : db.IssuedByBound)
    (hc : db.clients.row x = some c) : Purged db (db.delete .client [⟨.client, x⟩] none) x := by
  refine DB.delete_client_alone fun k m hm hissuer => ?_
  have hbound := (hi k m x hm hissuer).2 c hc
  rw [(hx.unbound c hc).1] at hbound
  cases hbound

theorem DB.Lapsed.spares {x : Pk} (hx : db.Lapsed (fun _ => True) x) (hs : db.Lawful env) :
    db.Spares (db.deleteClient x) := by
  unfold DB.deleteClient
  split
  · rename_i hsome
    obtain ⟨c, hc⟩ := Option.isSome_iff_exists.mp hsome
    have hpurged := hx.purged hs.issued hc
    refine ⟨fun y b m hb hm => ?_, fun k h y hh hy => ?_⟩
    · rcases hpurged.clients y b hb with ⟨rfl, -⟩ | ⟨-, b', hb', hm'⟩
      · rw [(hx.unbound b hb).1] at hm
        cases hm
      · exact ⟨b', hb', hm'.trans hm⟩
    · obtain ⟨h', hh', hclient⟩ := hpurged.hubs k h hh fun hsame => by
        have hbound := (hs.identified k h x hh hsame).2 c hc
        rw [(hx.unbound c hc).1] at hbound
        cases hbound
      exact ⟨h', hh', hclient.trans hy⟩
  · exact ⟨fun y b m hb hm => ⟨b, hb, hm⟩, fun k h y hh hy => ⟨h, hh, hy⟩⟩

/-! ## Purges without accepts -/

/-- Old codes and clients stay or go, and new codes are of new clients. -/
structure DB.Ages (db d : DB) : Prop where
  codesNext : db.deviceCodes.next ≤ d.deviceCodes.next
  clientsNext : db.clients.next ≤ d.clients.next
  codes : ∀ k code, d.deviceCodes.row k = some code → db.deviceCodes.row k = some code
    ∨ db.deviceCodes.next ≤ k ∧ db.clients.next ≤ code.client
  clients : ∀ x c, d.clients.row x = some c → (∃ c₀, db.clients.row x = some c₀) ∨ db.clients.next ≤ x

theorem DB.Ages.refl (db : DB) : db.Ages db :=
  ⟨Nat.le_refl _, Nat.le_refl _, fun _ _ => .inl, fun _ c hc => .inl ⟨c, hc⟩⟩

theorem DB.Ages.trans {f : DB} (h : db.Ages d) (k : d.Ages f) : db.Ages f where
  codesNext := Nat.le_trans h.codesNext k.codesNext
  clientsNext := Nat.le_trans h.clientsNext k.clientsNext
  codes j code hcode := by
    rcases k.codes j code hcode with hold | ⟨hj, hclient⟩
    · exact h.codes j code hold
    · exact .inr ⟨Nat.le_trans h.codesNext hj, Nat.le_trans h.clientsNext hclient⟩
  clients x c hc := by
    rcases k.clients x c hc with ⟨c₀, hc₀⟩ | hx
    · exact h.clients x c₀ hc₀
    · exact .inr (Nat.le_trans h.clientsNext hx)

theorem DB.Ages.deleteClient (db : DB) (x : Pk) : db.Ages (db.deleteClient x) := by
  unfold DB.deleteClient
  split
  · have hd := DB.delete_shrinks db .client [⟨.client, x⟩] none
    refine ⟨Nat.le_of_eq hd.deviceCodes.1.symm, Nat.le_of_eq hd.clients.1.symm, fun k code hcode => .inl ?_,
      fun y c hc => .inl ?_⟩
    · obtain ⟨_, hcode', rfl⟩ := hd.deviceCodes.2 k code hcode
      exact hcode'
    · obtain ⟨c₀, hc₀, -⟩ := hd.clients.2 y c hc
      exact ⟨c₀, hc₀⟩
  · exact .refl db

theorem stageDeviceCode_ages (kind : DeviceCodeKind) (staging : Staging) (clientKind : ClientKind)
    (role : ClientRole)
    (uris : List String) (isPublic : Bool) (grants : List GrantType) (seconds : Time) (auth : Bool) :
    db.Ages ((db.createPublicClient clientKind role uris isPublic grants).1.stageDeviceCode kind staging
      (db.createPublicClient clientKind role uris isPublic grants).2 seconds auth) := by
  refine ⟨Nat.le_succ _, Nat.le_succ _, fun k code hcode => ?_, fun x c hc => ?_⟩
  · rcases insert_row_eq_some.mp hcode with ⟨rfl, rfl⟩ | hcode
    · exact .inr ⟨Nat.le_refl _, Nat.le_refl _⟩
    · exact .inl hcode
  · rcases insert_row_eq_some.mp hc with ⟨rfl, -⟩ | hc
    · exact .inr (Nat.le_refl _)
    · exact .inl ⟨c, hc⟩

theorem PurgeStep.ages (h : PurgeStep env s e t) (he : e.accepts = false) : s.db.Ages t.db := by
  cases h with
  | read => exact .refl _
  | delete => exact .deleteClient _ _
  | act ha =>
    cases e with
    | tick seconds =>
      cases ha
      exact ⟨Nat.le_refl _, Nat.le_refl _, fun _ _ => .inl, fun _ c hc => .inl ⟨c, hc⟩⟩
    | start manifest kind role uris isPublic seconds auth =>
      cases ha
      exact stageDeviceCode_ages _ _ _ _ _ _ _ _ _
    | startHub manifest seconds =>
      cases ha
      exact stageDeviceCode_ages _ _ _ _ _ _ _ _ _
    | accept | acceptHub => cases he
    | read | delete => cases ha

/-- The code is gone, and its client with it. -/
def DB.Gone (db : DB) (c : Pk × Pk) : Prop := db.deviceCodes.row c.1 = none ∧ db.clients.row c.2 = none

theorem DB.Gone.ages {c : Pk × Pk} (h : db.Gone c) (hcode : c.1 < db.deviceCodes.next)
    (hclient : c.2 < db.clients.next)
    (hages : db.Ages d) : d.Gone c := by
  refine ⟨Option.eq_none_iff_forall_ne_some.mpr fun code hrow => ?_, Option.eq_none_iff_forall_ne_some.mpr
    fun x hrow => ?_⟩
  · rcases hages.codes _ code hrow with hold | ⟨hnew, -⟩
    · rw [h.1] at hold
      cases hold
    · exact absurd hcode (Nat.not_lt.mpr hnew)
  · rcases hages.clients _ x hrow with ⟨x₀, hold⟩ | hnew
    · rw [h.2] at hold
      cases hold
    · exact absurd hclient (Nat.not_lt.mpr hnew)

/-- The purge `i`, which read the database `db`, since when nothing was accepted. -/
structure PurgeState.Reads (env : Env) (db : DB) (i : Nat) (s : PurgeState) : Prop where
  lawful : s.db.Lawful env
  ages : db.Ages s.db
  lapsed : ∀ c ∈ db.expiredUnbound, s.db.Lapsed (fun _ => True) c.2
  purge : ∃ p, s.purges[i]? = some p ∧ (∀ c ∈ p.rest, c ∈ db.expiredUnbound)
    ∧ ∀ c ∈ db.expiredUnbound, c ∈ p.rest ∨ s.db.Gone c

theorem PurgeState.Reads.code {i : Nat} (h : s.Reads env db i) (hs : db.Lawful env) {c : Pk × Pk}
    (hc : c ∈ db.expiredUnbound)
    {k : Pk} {code : DeviceCode} (hcode : s.db.deviceCodes.row k = some code) : code.client = c.2 ↔ k = c.1 := by
  obtain ⟨j, x⟩ := c
  obtain ⟨code₀, c₀, hcode₀, rfl, -, hc₀, hm⟩ := DB.mem_expiredUnbound.mp hc
  constructor
  · intro hx
    rcases h.ages.codes k code hcode with hold | ⟨-, hnew⟩
    · exact (hs.stagedOnce.unique hcode₀ hold hx.symm hc₀ hm).symm
    · rw [hx] at hnew
      exact absurd (lt_next hc₀) (Nat.not_lt.mpr hnew)
  · rintro rfl
    rcases h.ages.codes _ code hcode with hold | ⟨hnew, -⟩
    · rw [hcode₀] at hold
      cases hold
      rfl
    · exact absurd (lt_next hcode₀) (Nat.not_lt.mpr hnew)

/-- Deleting a client that was read deletes its code, and nothing else. -/
structure DB.Deletes (db d : DB) (c : Pk × Pk) : Prop where
  gone : d.Gone c
  codes : ∀ k code, db.deviceCodes.row k = some code → k ≠ c.1 → d.deviceCodes.row k = some code
  clients : ∀ x a, db.clients.row x = some a → x ≠ c.2 →
    ∃ a', d.clients.row x = some a' ∧ a'.membership = a.membership

theorem PurgeState.Reads.deletes {i : Nat} (h : s.Reads env db i) (hs : db.Lawful env) {c : Pk × Pk}
    (hc : c ∈ db.expiredUnbound) :
    s.db.Deletes (s.db.deleteClient c.2) c := by
  unfold DB.deleteClient
  split
  · rename_i hsome
    obtain ⟨a, ha⟩ := Option.isSome_iff_exists.mp hsome
    have hpurged := (h.lapsed c hc).purged h.lawful.issued ha
    refine ⟨⟨?_, ?_⟩, fun k code hcode hk => ?_, fun x b hb hx => ?_⟩
    · cases hcode : s.db.deviceCodes.row c.1 with
      | none =>
        refine Option.eq_none_iff_forall_ne_some.mpr fun code' hcode' => ?_
        obtain ⟨code, hrow, -⟩ := (DB.delete_shrinks s.db .client [⟨.client, c.2⟩] none).deviceCodes.2
          _ code' hcode'
        rw [hcode] at hrow
        cases hrow
      | some code =>
        rcases hpurged.codes _ code hcode with ⟨-, hnone⟩ | ⟨hne, -⟩
        · exact hnone
        · exact absurd ((h.code hs hc hcode).mpr rfl) hne
    · rcases hpurged.clients _ a ha with ⟨-, hnone⟩ | ⟨hne, -⟩
      · exact hnone
      · exact absurd rfl hne
    · rcases hpurged.codes k code hcode with ⟨hx, -⟩ | ⟨-, hkept⟩
      · exact absurd ((h.code hs hc hcode).mp hx) hk
      · exact hkept
    · rcases hpurged.clients x b hb with ⟨rfl, -⟩ | ⟨-, hkept⟩
      · exact absurd rfl hx
      · exact hkept
  · rename_i hnone
    have hclient : s.db.clients.row c.2 = none := by simpa using hnone
    refine ⟨⟨Option.eq_none_iff_forall_ne_some.mpr fun code hcode => ?_, hclient⟩, fun k code hcode _ => hcode,
      fun x b hb _ => ⟨b, hb, rfl⟩⟩
    obtain ⟨a, ha, -⟩ := h.lawful.reachable.clientLaws.staged _ code hcode
    rw [(h.code hs hc hcode).mpr rfl, hclient] at ha
    cases ha

theorem PurgeState.Reads.step {i : Nat} (h : s.Reads env db i) (hs : db.Lawful env) (hst : PurgeStep env s e t)
    (he : e.accepts = false) : t.Reads env db i := by
  obtain ⟨p, hp, hrest, hgone⟩ := h.purge
  have hages := hst.ages he
  have hstill : ∀ c ∈ db.expiredUnbound, s.db.Gone c → t.db.Gone c := by
    intro c hc hcgone
    obtain ⟨k, x⟩ := c
    obtain ⟨code, c₀, hcode, rfl, -, hc₀, -⟩ := DB.mem_expiredUnbound.mp hc
    exact hcgone.ages (Nat.lt_of_lt_of_le (lt_next hcode) h.ages.codesNext)
      (Nat.lt_of_lt_of_le (lt_next hc₀) h.ages.clientsNext)
      hages
  refine ⟨hst.lawful h.lawful, h.ages.trans hages, fun c hc => ?_, ?_⟩
  · refine hst.lapsed h.lawful (h.lapsed c hc) fun _ _ _ _ _ _ heq => ?_
    subst heq
    cases he
  · have hsame : ∃ q, s.purges[i]? = some q ∧ (∀ c ∈ q.rest, c ∈ db.expiredUnbound)
        ∧ ∀ c ∈ db.expiredUnbound, c ∈ q.rest ∨ t.db.Gone c :=
      ⟨p, hp, hrest, fun c hc => (hgone c hc).imp_right (hstill c hc)⟩
    cases hst with
    | act => exact hsame
    | read =>
      obtain ⟨q, hq, hrest, hgone⟩ := hsame
      exact ⟨q, by rw [List.getElem?_append_left (List.getElem?_eq_some_iff.mp hq).1, hq], hrest, hgone⟩
    | @delete j q c rest hq hqrest =>
      by_cases hij : j = i
      · subst hij
        rw [hp] at hq
        cases hq
        have hlt := (List.getElem?_eq_some_iff.mp hp).1
        refine ⟨{ p with rest := rest }, by simp [hlt],
          fun c' hc' => hrest c' (hqrest ▸ List.mem_cons_of_mem _ hc'), fun c' hc' => ?_⟩
        rcases hgone c' hc' with hmem | hcgone
        · rw [hqrest] at hmem
          rcases List.mem_cons.mp hmem with rfl | hmem
          · exact .inr (h.deletes hs hc').gone
          · exact .inl hmem
        · exact .inr (hstill c' hc' hcgone)
      · obtain ⟨q', hq', hrest, hgone⟩ := hsame
        exact ⟨q', by simp [hij, hq'], hrest, hgone⟩

end

/-- As long as no hub is accepted with a code whose client a purge read and did not delete yet, purges spare
whoever is bound. Without accepts they delete what they read, and nothing else. -/
theorem purges_spare_whoever_is_bound {env : Env} {db : DB} (hr : Reachable env db) (hi : db.IssuedByBound) :
    (∀ es s, Run (SafeStep env) ⟨db, []⟩ es s → ∀ i u, PurgeStep env s (.delete i) u → s.db.Spares u.db)
      ∧ ∀ ps es t, Run (PurgeStep env) ⟨db, ps⟩ (.read :: es) t → (∀ e ∈ es, e.accepts = false) →
        ∃ p, t.purges[ps.length]? = some p ∧ (∀ c ∈ db.expiredUnbound, c ∈ p.rest ∨ t.db.Gone c)
          ∧ ∀ u, PurgeStep env t (.delete ps.length) u → ∃ c ∈ db.expiredUnbound, t.db.Deletes u.db c := by
  have hs : db.Lawful env := ⟨hr, hi⟩
  refine ⟨fun es s hrun i u hdelete => ?_, fun ps es t hrun hes => ?_⟩
  · have hapart : s.Apart env := hrun.invariant (P := fun s => s.Apart env) (fun h hst => hst.apart h)
      ⟨hs, fun x ⟨p, hp, _⟩ => nomatch hp⟩
    cases hdelete with
    | act ha => cases ha
    | @delete _ p c rest hp hrest =>
      have hpending : s.Pending c.2 := ⟨p, List.mem_of_getElem? hp, c, hrest ▸ List.mem_cons_self, rfl⟩
      exact (hapart.pending c.2 hpending).spares hapart.lawful
  · cases hrun with
    | cons hread hrun =>
      cases hread with
      | act ha => cases ha
      | read =>
        have hreads : PurgeState.Reads env db ps.length ⟨db, ps ++ [⟨db.expiredUnbound, db.expiredUnbound⟩]⟩ :=
          ⟨hs, .refl db, fun c hc => hs.stagedOnce.lapsed hc,
           ⟨db.expiredUnbound, db.expiredUnbound⟩, by simp, fun _ => id,
            fun _ => .inl⟩
        have hend : t.Reads env db ps.length :=
          (hrun.restrict hes).invariant (P := fun s => s.Reads env db ps.length)
          (fun h hst => h.step hs hst.1 hst.2) hreads
        obtain ⟨p, hp, hrest, hgone⟩ := hend.purge
        refine ⟨p, hp, hgone, fun u hdelete => ?_⟩
        cases hdelete with
        | act ha => cases ha
        | @delete _ q c rest hq hqrest =>
          rw [hp] at hq
          cases hq
          have hc : c ∈ db.expiredUnbound := hrest c (hqrest ▸ List.mem_cons_self)
          exact ⟨c, hc, hend.deletes hs hc⟩

/-- Ann stages a hub for her organization. -/
def stagedHub : List Action :=
  [.createUser "ann" [], .createOrganization "org" 0 false, .startHubDeviceCode plainHub 600]

/-- Nobody accepts it, and a purge deletes its code with its client. -/
theorem purges_spare_whoever_is_bound_expired :
    ∃ t u, Run (PurgeStep plainEnv) ⟨run plainEnv .empty (stagedHub ++ [.tick 900]), []⟩ [.read] t
      ∧ PurgeStep plainEnv t (.delete 0) u ∧ ∃ c ∈ [((0, 0) : Pk × Pk)], t.db.Deletes u.db c := by
  have hdb := reachable_run plainEnv (stagedHub ++ [.tick 900])
  have hissued : (run plainEnv .empty (stagedHub ++ [.tick 900])).IssuedByBound := by
    have hnone : ∀ k m, (run plainEnv .empty (stagedHub ++ [.tick 900])).mandates.row k = some m →
      m.issuingClient = none := by
      simp only [forall_row_iff]
      decide +kernel
    intro k m i hm hi
    rw [hnone k m hm] at hi
    cases hi
  have hread : (run plainEnv .empty (stagedHub ++ [.tick 900])).expiredUnbound = [(0, 0)] := by decide +kernel
  generalize run plainEnv .empty (stagedHub ++ [.tick 900]) = db at hdb hissued hread ⊢
  have hrun : Run (PurgeStep plainEnv) ⟨db, []⟩ [.read] ⟨db, [⟨db.expiredUnbound, db.expiredUnbound⟩]⟩ :=
    .single (.read _)
  have hdelete : PurgeStep plainEnv ⟨db, [⟨db.expiredUnbound, db.expiredUnbound⟩]⟩ (.delete 0) _ :=
    .delete rfl hread
  refine ⟨_, _, hrun, hdelete, ?_⟩
  obtain ⟨-, -, -, hall⟩ := (purges_spare_whoever_is_bound hdb hissued).2 [] [] _ hrun fun _ h => nomatch h
  obtain ⟨c, hc, hdeletes⟩ := hall _ hdelete
  exact ⟨c, hread ▸ hc, hdeletes⟩

/-- The hub as its own code, which expired, is accepted, and a purge that read it before. -/
def acceptedLate : List PurgeEvent := [.tick 900, .read, .acceptHub 0 0 (some 1) 0 false none]

/-- The purge deletes the client the hub is identified by, which is Ann's by then. -/
theorem purge_deletes_a_hub_identity :
    ∃ s u, Run (PurgeStep plainEnv) ⟨run plainEnv .empty stagedHub, []⟩ acceptedLate s
      ∧ PurgeStep plainEnv s (.delete 0) u
      ∧ (s.db.clients.row 0).any (·.membership == some 0) = true
      ∧ (s.db.hubs.row 0).any (·.client == some 0) = true
      ∧ u.db.clients.row 0 = none ∧ (u.db.hubs.row 0).all (·.client == none) = true := by
  have hread : (step plainEnv (run plainEnv .empty stagedHub) (.tick 900)).expiredUnbound
    = [(0, 0)] := by decide +kernel
  have hbound : ((step plainEnv (step plainEnv (run plainEnv .empty stagedHub) (.tick 900))
      (.acceptHubDeviceCode 0 0 (some 1) 0 false none)).clients.row 0).any
        (·.membership == some 0) = true := by decide +kernel
  have hidentity : ((step plainEnv (step plainEnv (run plainEnv .empty stagedHub) (.tick 900))
      (.acceptHubDeviceCode 0 0 (some 1) 0 false none)).hubs.row 0).any
        (·.client == some 0) = true := by decide +kernel
  have hclient : (((step plainEnv (step plainEnv (run plainEnv .empty stagedHub) (.tick 900))
      (.acceptHubDeviceCode 0 0 (some 1) 0 false none)).deleteClient 0).clients.row 0).isNone
        = true := by decide +kernel
  have hgone : (((step plainEnv (step plainEnv (run plainEnv .empty stagedHub) (.tick 900))
      (.acceptHubDeviceCode 0 0 (some 1) 0 false none)).deleteClient 0).hubs.row 0).all
        (·.client == none) = true := by decide +kernel
  generalize run plainEnv .empty stagedHub = db at hread hbound hidentity hclient hgone ⊢
  refine ⟨_, _, .cons (.act rfl) (.cons (.read _) (.cons (.act rfl) (.nil _))), .delete rfl hread, hbound,
    hidentity, ?_, hgone⟩
  exact Option.isNone_iff_eq_none.mp hclient

end Lok
