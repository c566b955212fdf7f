import Lok.MandateLaws

/-!
# Whom clients speak for

A bound client was minted, its membership is on file and its organization is the
membership's. A client that logs in under a mandate is bound where the mandate is. A client
without one does not log in with a key. The client of a device code is of that second kind.
-/

namespace Lok

open Table Runs Checks

/-- A client that can be approved: it was minted, and no key logs it in. -/
structure Binding.Plain (b : Binding) : Prop where
  minted : b.clientId.minted = true
  mandate : b.mandate = none
  keyed : b.keyed = false

structure Binding.Lawful (memberships : Table Membership) (mandates : Table Mandate) (b : Binding) : Prop where
  unbound : b.membership = none → b.mandate = none ∧ b.organization = none ∧ b.hub = none
  bound : ∀ m, b.membership = some m → b.clientId.minted = true
    ∧ ∃ g, memberships.row m = some g ∧ b.organization = some g.organization
  mandated : ∀ M, b.mandate = some M → ∃ x, mandates.row M = some x ∧ b.membership = some x.membership
    ∧ b.hub = some x.hub
  keyed : ∀ m, b.membership = some m → b.mandate = none → b.keyed = false
  /-- It was registered like every client, or to log in with a key. -/
  grants : b.clientId.minted = true → b.grants = faktsClientGrantTypes ∨ b.grants = [.mandateKey]

theorem Binding.Plain.grants {memberships : Table Membership} {mandates : Table Mandate} {b : Binding}
    (h : b.Plain) (hlawful : b.Lawful memberships mandates) : b.grants = faktsClientGrantTypes := by
  refine (hlawful.grants h.minted).resolve_right fun hkey => ?_
  have := h.keyed
  simp [Binding.keyed, hkey] at this

theorem Client.minted_of_keyed {c : Client} (h : c.binding.keyed = true) : c.clientId.minted = true := by
  cases hm : c.clientId.minted with
  | true => rfl
  | false => simp [Binding.keyed, Client.binding, hm] at h

def ClientId.number : ClientId → Option Nat
  | .uuid n => some n
  | .named _ => none

/-- An approval only binds a client that is bound there already, or can be approved. -/
def Label.binds (l : Label) : Prop :=
  ∀ before m, l = .bind before m → before.mandate = none ∧ (before.membership = some m ∨ before.Plain)

namespace DB

structure ClientLaws (db : DB) : Prop where
  lawful : ∀ pk c, db.clients.row pk = some c → c.binding.Lawful db.memberships db.mandates
  drawn : Drawn (fun c : Client => c.clientId.number) db.clients db.draws
  staged : ∀ pk x, db.deviceCodes.row pk = some x → ∃ c, db.clients.row x.client = some c ∧ c.binding.Plain

variable {db d : DB} {l : Label}

theorem ClientLaws.empty : DB.empty.ClientLaws := ⟨by simp [DB.empty], .empty, by simp [DB.empty]⟩

/-! ## What the laws read of other tables -/

/-- The memberships and the mandates that clients name are still there, and still of the same place. -/
structure KeepsPlaces (db d : DB) : Prop where
  memberships : ∀ m g, db.memberships.row m = some g →
    ∃ g', d.memberships.row m = some g' ∧ g'.organization = g.organization
  mandates : ∀ M x, db.mandates.row M = some x →
    ∃ x', d.mandates.row M = some x' ∧ x'.membership = x.membership ∧ x'.hub = x.hub

theorem KeepsPlaces.lawful (hkeeps : KeepsPlaces db d) {b : Binding} (h : b.Lawful db.memberships db.mandates) :
    b.Lawful d.memberships d.mandates where
  unbound := h.unbound
  bound m hm := by
    obtain ⟨hminted, g, hg, ho⟩ := h.bound m hm
    obtain ⟨g', hg', ho'⟩ := hkeeps.memberships m g hg
    exact ⟨hminted, g', hg', by rw [ho, ho']⟩
  mandated M hM := by
    obtain ⟨x, hx, hm, hh⟩ := h.mandated M hM
    obtain ⟨x', hx', hm', hh'⟩ := hkeeps.mandates M x hx
    exact ⟨x', hx', by rw [hm, hm'], by rw [hh, hh']⟩
  keyed := h.keyed
  grants := h.grants

theorem ClientLaws.places (h : db.ClientLaws) (hkeeps : KeepsPlaces db d) (hclients : d.clients = db.clients)
    (hcodes : d.deviceCodes = db.deviceCodes) (hdraws : db.draws ≤ d.draws) : d.ClientLaws := by
  refine ⟨fun pk c hc => ?_, ?_, fun pk x hx => ?_⟩
  · rw [hclients] at hc
    exact hkeeps.lawful (h.lawful pk c hc)
  · rw [hclients]
    exact h.drawn.mono hdraws
  · rw [hcodes] at hx
    rw [hclients]
    exact h.staged pk x hx

theorem ClientLaws.clients {t : Table Client} (h : db.ClientLaws)
    (ht : Rewrites (fun _ c c' => c'.binding = c.binding) db.clients t) :
    ({ db with clients := t } : DB).ClientLaws := by
  refine ⟨fun pk c' hc' => ?_, h.drawn.rewrite ht fun _ c c' hb => ?_, fun pk x hx => ?_⟩
  · obtain ⟨c, hc, hb⟩ := ht.before hc'
    rw [hb]
    exact h.lawful pk c hc
  · have hid : c'.clientId = c.clientId := congrArg Binding.clientId hb
    rw [hid]
  · obtain ⟨c, hc, hplain⟩ := h.staged pk x hx
    obtain ⟨c', hc', hb⟩ := ht.after hc
    exact ⟨c', hc', by rw [hb]; exact hplain⟩

theorem ClientLaws.newClient {c : Client} {n : Nat} (h : db.ClientLaws) (hunbound : c.Unbound) (hn : db.draws ≤ n)
    (hgrants : c.clientId.minted = true → c.grantTypes = faktsClientGrantTypes ∨ c.grantTypes = [.mandateKey])
    (hid : ∀ x, c.clientId.number = some x → db.draws ≤ x ∧ x < n) :
    ({ db with draws := n, clients := db.clients.insert c } : DB).ClientLaws := by
  obtain ⟨hm, ho, -, hh, hM⟩ := hunbound
  refine ⟨fun pk c' hc' => ?_, h.drawn.insert hn hid, fun pk x hx => ?_⟩
  · rcases insert_row_eq_some.mp hc' with ⟨-, rfl⟩ | hc'
    · refine ⟨fun _ => ⟨hM, ho, hh⟩, fun m hm' => ?_, fun M hM' => ?_, fun m hm' => ?_, fun hminted => ?_⟩
      · have : c.membership = some m := hm'
        simp [hm] at this
      · have : c.mandate = some M := hM'
        simp [hM] at this
      · have : c.membership = some m := hm'
        simp [hm] at this
      · have hminted : c.clientId.minted = true := hminted
        simpa [Client.binding, hminted] using hgrants hminted
    · exact h.lawful pk c' hc'
  · obtain ⟨c', hc', hplain⟩ := h.staged pk x hx
    exact ⟨c', insert_row_of_some hc', hplain⟩

theorem ClientLaws.put {pk : Pk} {c c' : Client} (h : db.ClientLaws) (hc : db.clients.row pk = some c)
    (hid : c'.clientId = c.clientId) (hlawful : c'.binding.Lawful db.memberships db.mandates)
    (hplain : c.binding.Plain → c'.binding.Plain) :
    ({ db with clients := db.clients.put pk c' } : DB).ClientLaws := by
  refine ⟨fun k x hx => ?_, ?_, fun k x hx => ?_⟩
  · rw [put_row] at hx
    by_cases hk : k = pk
    · rw [if_pos hk] at hx
      cases hx
      exact hlawful
    · rw [if_neg hk] at hx
      exact h.lawful k x hx
  · refine h.drawn.rewrite (R := fun _ a b => b.clientId = a.clientId) (.put (fun _ _ => rfl) hc hid)
      fun _ a b hab => ?_
    rw [hab]
  · obtain ⟨y, hy, hyplain⟩ := h.staged k x hx
    by_cases hk : x.client = pk
    · rw [hk, hc] at hy
      cases hy
      exact ⟨c', by simp [put_row, hk], hplain hyplain⟩
    · exact ⟨y, by simp [put_row, hk, hy], hyplain⟩

/-- A deletion takes a client with its membership and its mandate, and a code with its client. -/
theorem ClientLaws.delete (h : db.ClientLaws) (origin : Model) (roots : List Ref) (upgrading : Option Pk) :
    (db.delete origin roots upgrading).ClientLaws := by
  have hshrinks := delete_shrinks db origin roots upgrading
  have htarget : ∀ {x p : Ref}, p ∈ (db.delete origin roots upgrading).hangsOn x → db.has p →
      (db.delete origin roots upgrading).has p := delete_target
  have hdraws : db.draws ≤ (db.delete origin roots upgrading).draws :=
    delete_induct (P := fun d : DB => db.draws ≤ d.draws) (fun _ _ h => h) (fun _ _ h => h) (Nat.le_refl _)
  generalize db.delete origin roots upgrading = d at *
  refine ⟨fun pk c' hc' => ?_, ?_, fun pk x hx => ?_⟩
  · obtain ⟨c, hc, hcleared⟩ := hshrinks.clients.2 pk c' hc'
    have hb := Cleared.binding hcleared
    have hlawful := h.lawful pk c hc
    rw [← hb] at hlawful
    have hhangs : ∀ p, p ∈ c'.hangsOn → p ∈ d.hangsOn ⟨.client, pk⟩ := fun p hp => by simpa [hangsOn, hc'] using hp
    refine ⟨hlawful.unbound, fun m hm => ?_, fun M hM => ?_, hlawful.keyed, hlawful.grants⟩
    · obtain ⟨hminted, g, hg, ho⟩ := hlawful.bound m hm
      have hm' : c'.membership = some m := hm
      obtain ⟨g', hg'⟩ := htarget (p := ⟨.membership, m⟩) (hhangs _ (by simp [Client.hangsOn, hm'])) ⟨g, hg⟩
      obtain ⟨g₀, hg₀, -, hgo, -⟩ := hshrinks.memberships.2 m g' hg'
      rw [hg] at hg₀
      cases hg₀
      exact ⟨hminted, g', hg', by rw [ho, hgo]⟩
    · obtain ⟨x, hx, hrest⟩ := hlawful.mandated M hM
      have hM' : c'.mandate = some M := hM
      obtain ⟨x', hx'⟩ := htarget (p := ⟨.mandate, M⟩) (hhangs _ (by simp [Client.hangsOn, hM'])) ⟨x, hx⟩
      obtain ⟨x₀, hx₀, rfl⟩ := hshrinks.mandates.2 M x' hx'
      rw [hx] at hx₀
      cases hx₀
      exact ⟨x, hx', hrest⟩
  · refine (h.drawn.shrink hshrinks.clients fun c c' hcleared => ?_).mono hdraws
    have hid : c'.clientId = c.clientId := congrArg Binding.clientId (Cleared.binding hcleared)
    rw [hid]
  · obtain ⟨x₀, hx₀, rfl⟩ := hshrinks.deviceCodes.2 pk x hx
    obtain ⟨c, hc, hplain⟩ := h.staged pk x hx₀
    obtain ⟨c', hc'⟩ := htarget (x := ⟨.deviceCode, pk⟩) (p := ⟨.client, x.client⟩)
      (by simp [hangsOn, hx, DeviceCode.hangsOn]) ⟨c, hc⟩
    obtain ⟨c₀, hc₀, hcleared⟩ := hshrinks.clients.2 x.client c' hc'
    rw [hc] at hc₀
    cases hc₀
    exact ⟨c', hc', by rw [Cleared.binding hcleared]; exact hplain⟩

/-! ## Every write -/

theorem ClientLaws.write (h : db.ClientLaws) (hw : Write db l d) (hl : l.binds) : d.ClientLaws := by
  have hmandates : ∀ {R : Nat → Mandate → Mandate → Prop} {t : Table Mandate}, Rewrites R db.mandates t →
      (∀ k m m', R k m m' → m'.membership = m.membership ∧ m'.hub = m.hub) →
      ({ db with mandates := t } : DB).ClientLaws := by
    intro R t ht hR
    refine h.places ⟨fun m g hg => ⟨g, hg, rfl⟩, fun M x hx => ?_⟩ rfl rfl (Nat.le_refl _)
    obtain ⟨x', hx', hr⟩ := ht.after hx
    exact ⟨x', hx', hR M x x' hr⟩
  cases hw with
  | clients ht => exact h.clients ht
  | newClient c hid hunbound hgrants =>
    refine h.newClient hunbound (by omega) (fun _ => hgrants) fun x hx => ?_
    simp only [hid, ClientId.number, Option.some.injEq] at hx
    omega
  | newRelyingParty c name hid hunbound hnew =>
    refine h.newClient hunbound (Nat.le_refl _) (fun hminted => ?_) fun x hx => ?_
    · simp [hid, ClientId.minted] at hminted
    · simp [hid, ClientId.number] at hx
  | @bindApp pk c c' m o hc hid hgrants hmandate hm horg hmembership hhub =>
    obtain ⟨hnone, hbefore⟩ := hl _ _ rfl
    have hnone : c.mandate = none := hnone
    have hnone' : c'.mandate = none := by
      rcases hmandate with h | h
      · exact h
      · rw [h, hnone]
    have hlawful := h.lawful pk c hc
    have hplain : c.clientId.minted = true ∧ c.binding.keyed = false := by
      rcases hbefore with hsame | hplain
      · exact ⟨(hlawful.bound m hsame).1, hlawful.keyed m hsame hnone⟩
      · exact ⟨hplain.minted, hplain.keyed⟩
    have hminted : c'.clientId.minted = true := by rw [hid]; exact hplain.1
    have hkeyed' : c'.binding.keyed = false := by
      unfold Binding.keyed
      rw [hgrants]
      exact hplain.2
    refine h.put hc hid ⟨fun hno => ?_, fun n hn => ?_, fun M hM => ?_, fun _ _ _ => hkeyed', fun _ => ?_⟩
      fun _ => ⟨hminted, hnone', hkeyed'⟩
    · have hno : c'.membership = none := hno
      simp [hm] at hno
    · have hn : c'.membership = some n := hn
      rw [hm] at hn
      cases hn
      obtain ⟨g, hg, rfl⟩ := hmembership
      exact ⟨hminted, g, hg, horg⟩
    · have hM : c'.mandate = some M := hM
      simp [hnone'] at hM
    · rw [hgrants]
      exact hlawful.grants hplain.1
  | @bindKeyed pk c c' M x hc hid hgrants hmandate hM hm hmembership hhub hbefore =>
    have hlawful := h.lawful pk c hc
    have hminted : c.clientId.minted = true := by
      rcases hbefore with ⟨-, hkeyed⟩ | ⟨old, o, hold, -⟩
      · exact Client.minted_of_keyed hkeyed
      · obtain ⟨_, -, hbound, -⟩ := hlawful.mandated old hold
        exact (hlawful.bound _ hbound).1
    refine h.put hc hid ⟨fun hno => ?_, fun n hn => ?_, fun K hK => ?_, fun _ _ hno => ?_, fun _ => ?_⟩
      fun hplain => ?_
    · have hno : c'.membership = none := hno
      simp [hm] at hno
    · have hn : c'.membership = some n := hn
      rw [hm] at hn
      cases hn
      exact ⟨by rw [← hid] at hminted; exact hminted, hmembership⟩
    · have hK : c'.mandate = some K := hK
      rw [hmandate] at hK
      cases hK
      exact ⟨x, hM, hm, hhub⟩
    · have hno : c'.mandate = none := hno
      simp [hmandate] at hno
    · rw [hgrants]
      exact hlawful.grants hminted
    · -- a client that can be approved is neither keyed nor under a mandate
      rcases hbefore with ⟨-, hkeyed⟩ | ⟨old, o, hold, -⟩
      · rw [hplain.keyed] at hkeyed
        cases hkeyed
      · have hno : c.mandate = none := hplain.mandate
        simp [hno] at hold
  | delete origin roots upgrading => exact h.delete origin roots upgrading
  | newMembership m =>
    exact h.places ⟨fun k g hg => ⟨g, insert_row_of_some hg, rfl⟩, fun M x hx => ⟨x, hx, rfl, rfl⟩⟩
      rfl rfl (Nat.le_refl _)
  | memberships ht =>
    refine h.places ⟨fun m g hg => ?_, fun M x hx => ⟨x, hx, rfl, rfl⟩⟩ rfl rfl (Nat.le_refl _)
    obtain ⟨g', hg', hregrade⟩ := ht.after hg
    exact ⟨g', hg', hregrade.organization⟩
  | renameRole hd =>
    obtain ⟨r, l, -, rfl, -⟩ := renameRole_ok hd
    refine h.places ⟨fun m g hg => ?_, fun M x hx => ⟨x, hx, rfl, rfl⟩⟩ rfl rfl (Nat.le_refl _)
    refine ⟨_, update_row_eq_some.mpr ⟨g, hg, rfl⟩, ?_⟩
    split <;> rfl
  | issue hm =>
    exact h.places ⟨fun m g hg => ⟨g, hg, rfl⟩, fun M x hx => ⟨x, insert_row_of_some hx, rfl, rfl⟩⟩
      rfl rfl (Nat.le_refl _)
  | reissue ht =>
    refine hmandates ht fun _ m m' hR => ?_
    obtain ⟨c, rfl⟩ := hR
    exact ⟨rfl, rfl⟩
  | withdraw ht =>
    refine hmandates ht fun _ m m' hR => ?_
    obtain ⟨_, _, rfl, -⟩ := withdrawn_same hR
    exact ⟨rfl, rfl⟩
  | logIn ht =>
    refine hmandates ht fun _ m m' hR => ?_
    rcases hR with rfl | ⟨-, _, _, rfl⟩
    · exact ⟨rfl, rfl⟩
    · exact ⟨rfl, rfl⟩
  | @resettle pk t ht =>
    refine ⟨fun k c hc => ?_, h.drawn, h.staged⟩
    have hlawful := h.lawful k c hc
    refine ⟨hlawful.unbound, hlawful.bound, fun M hM => ?_, hlawful.keyed, hlawful.grants⟩
    obtain ⟨x, hx, hm, hh⟩ := hlawful.mandated M hM
    obtain ⟨x', hx', rfl | ⟨rfl, hsettled⟩⟩ := ht.after hx
    · exact ⟨x', hx', hm, hh⟩
    · rcases hsettled.clients with ⟨hm', hh'⟩ | hno
      · exact ⟨x', hx', by rw [hm, hm'], by rw [hh, hh']⟩
      · exact absurd hM (hno k c hc)
  | stage c hsecret hclient =>
    refine ⟨fun k x hx => h.lawful k x hx, h.drawn.mono (Nat.le_add_right _ _), fun pk x hx => ?_⟩
    rcases insert_row_eq_some.mp hx with ⟨-, rfl⟩ | hx
    · obtain ⟨y, n, hy, hid, -, hmandate, hkeyed⟩ := hclient
      exact ⟨y, hy, by simp [Client.binding, hid, ClientId.minted], hmandate, hkeyed⟩
    · exact h.staged pk x hx
  | deviceCodes ht =>
    refine ⟨h.lawful, h.drawn, fun pk x hx => ?_⟩
    obtain ⟨x₀, hx₀, hsame, -⟩ := ht.before hx
    rw [hsame]
    exact h.staged pk x₀ hx₀
  | @repoint pk kept c m polling hc hm hmandate =>
    refine ⟨h.lawful, h.drawn, fun k x hx => ?_⟩
    rcases modify_row_eq_some.mp hx with ⟨-, hx⟩ | ⟨-, x₀, hx₀, rfl⟩
    · exact h.staged k x hx
    · have hlawful := h.lawful kept c hc
      exact ⟨c, hc, (hlawful.bound m hm).1, hmandate, hlawful.keyed m hm hmandate⟩
  | stageMesh | authorize | mint => exact ⟨h.lawful, h.drawn.mono (Nat.le_add_right _ _), h.staged⟩
  | _ => exact ⟨h.lawful, h.drawn, h.staged⟩

end DB

/-! ## Every action -/

theorem licence_binds {env : Env} {db : DB} (h : db.ClientLaws) (a : Action) {l : Label}
    (hl : (a.licence env db).admits l) :
    l.binds := by
  intro before m heq
  subst heq
  have hplain : ∀ pk c, DB.codeClient db pk = some c → c.binding.Plain := by
    intro pk c hc
    obtain ⟨x, hx, hc⟩ := Option.bind_eq_some_iff.mp hc
    obtain ⟨c', hc', hplain⟩ := h.staged pk x hx
    rw [hc] at hc'
    cases hc'
    exact hplain
  have hl : a.binds db before m := hl
  cases a with
  | acceptDeviceCode =>
    obtain ⟨-, ⟨hm, hnone⟩ | ⟨c, hc, rfl⟩⟩ := hl
    · exact ⟨hnone, .inl hm⟩
    · exact ⟨(hplain _ c hc).mandate, .inr (hplain _ c hc)⟩
  | acceptHubDeviceCode =>
    obtain ⟨-, c, hc, rfl⟩ := hl
    exact ⟨(hplain _ c hc).mandate, .inr (hplain _ c hc)⟩
  | _ => exact hl.elim

theorem step_clientLaws {env : Env} {db : DB} (a : Action) (h : db.ClientLaws) : (step env db a).ClientLaws := by
  cases ha : a.deletes with
  | true => exact step_deletes ha h fun _ _ => h.delete _ _ _
  | false =>
    exact (step_writes env db ha).invariant (I := DB.ClientLaws)
      (fun hI hw hl => hI.write hw (licence_binds h a hl)) h

theorem Reachable.clientLaws {env : Env} {db : DB} (h : Reachable env db) : db.ClientLaws := by
  obtain ⟨as, hrun⟩ := h
  exact hrun.invariant (P := DB.ClientLaws) (fun {s a t} hs hst => by rw [hst]; exact step_clientLaws a hs) .empty

end Lok
