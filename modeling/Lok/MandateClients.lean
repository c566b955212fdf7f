import Lok.MandateLaws
import Lok.Registrations
import Lok.SystemWrites

/-!
# The clients of a mandate

A mandate has one client for each device its key is used on, and one for all that name none. A login looks
its client up by the two. Another for them is never saved, and a device is not deleted where that leaves the
mandate a second client without one.
-/

namespace Lok

open Table Runs Checks

namespace DB

variable {db d : DB} {roots : List Ref}

/-! ## What a deletion leaves of a client -/

/-- A client that is still there is on the device it was on, unless the device goes. -/
theorem delete_client {origin : Model} {upgrading : Option Pk} {k : Pk} {c' : Client}
    (h : (db.delete origin roots upgrading).clients.row k = some c') :
    ∃ c l, db.clients.row k = some c
    ∧ c' = { c with node := keepOpt (db.collect roots) .device c.node, scopes := l } := by
  have hcascade : ∀ {S : List Model} (d : DB) (r : Ref), Within S → .device ∉ S → r.model ∈ S →
      (∀ k c', d.clients.row k = some c' →
        ∃ c l, db.clients.row k = some
          c ∧ c' = { c with node := keepOpt (db.collect roots) .device c.node, scopes := l }) →
      ∀ k c', (d.removeCascade [r]).clients.row k = some c' →
        ∃ c l, db.clients.row k = some c
          ∧ c' = { c with node := keepOpt (db.collect roots) .device c.node, scopes := l } := by
    intro S d r hS hdevice hr hd k c' hc'
    obtain ⟨c₁, hc₁, rfl⟩ := update_row_eq_some.mp hc'
    obtain ⟨c, l, hc, rfl⟩ := hd k c₁ (keep_row_eq_some.mp hc₁).1
    have hkept : ∀ o, keepOpt (d.collect [r]) .device o = o := fun o =>
      keepOpt_eq_self fun r' hr' heq => hdevice (heq ▸ collect_within hS (by simpa using hr) hr')
    refine ⟨c, keepList (d.collect [r]) .scope l, hc, ?_⟩
    rw [hkept]
  refine delete_induct_sync (P := fun d : DB => ∀ k c', d.clients.row k = some c' →
      ∃ c l, db.clients.row k = some c
        ∧ c' = { c with node := keepOpt (db.collect roots) .device c.node, scopes := l })
    (fun d m hd => hcascade d _ withMemberships_within (by decide) (by simp [withMemberships]) hd)
    (fun d c hd => hcascade d _ withClients_within (by decide) (by simp [withClients]) hd)
      (fun k c' hc' => ?_) k c' h
  obtain ⟨c, hc, rfl⟩ := update_row_eq_some.mp hc'
  exact ⟨c, _, (keep_row_eq_some.mp hc).1, rfl⟩

/-! ## One client for a mandate and a device -/

/-- No mandate has two clients on a device, or two without one. -/
def Apart (db : DB) : Prop :=
  ∀ j k b c M, db.clients.row j = some b → db.clients.row k = some c → b.mandate = some M → c.mandate = some M →
    b.node = c.node → j = k

theorem Apart.delete {origin : Model} {upgrading : Option Pk} (h : db.Apart)
    (hkept : db.keepsApart (db.collect roots) = true) :
    (db.delete origin roots upgrading).Apart := by
  have hnoone : ∀ j k b c M, j ≠ k → db.clients.row j = some b → db.clients.row k = some c → b.mandate = some M →
      c.mandate = some M → keepOpt (db.collect roots) .device c.node = none →
      (b.node.any fun n => (db.collect roots).contains ⟨.device, n⟩) = false := by
    intro j k b c M hjk hb hc hbM hcM hnone
    rw [keepsApart, Bool.not_eq_true', exists?_eq_false] at hkept
    have hb := hkept j b hb
    have hother : (db.clients.exists? fun k' b' => k' != j && b'.mandate == b.mandate
        && (keepOpt (db.collect roots) .device b'.node).isNone) = true :=
      exists?_eq_true.mpr ⟨k, c, hc, by simp [hjk.symm, hbM, hcM, hnone]⟩
    rw [hother, Bool.and_true, hbM] at hb
    simpa using hb
  intro j k b' c' M hb' hc' hbM hcM hnode
  obtain ⟨b, l, hb, rfl⟩ := delete_client hb'
  obtain ⟨c, l', hc, rfl⟩ := delete_client hc'
  by_contra hjk
  have hnode : keepOpt (db.collect roots) .device b.node = keepOpt (db.collect roots) .device c.node := hnode
  cases hn : keepOpt (db.collect roots) .device c.node with
  | some n =>
    rw [hn] at hnode
    have hbn := (Option.filter_eq_some_iff.mp hnode).1
    have hcn := (Option.filter_eq_some_iff.mp hn).1
    exact hjk (h j k b c M hb hc hbM hcM (hbn.trans hcn.symm))
  | none =>
    -- neither is on a device that goes, so neither was on one
    have hkeeps : ∀ o : Option Pk, (o.any fun n => (db.collect roots).contains ⟨.device, n⟩) = false →
        keepOpt (db.collect roots) .device o = none → o = none := by
      intro o hstays hgone
      cases o with
      | none => rfl
      | some n =>
        have hstays : ¬ (⟨.device, n⟩ : Ref) ∈ db.collect roots := by simpa using hstays
        simp [keepOpt, Option.filter, hstays] at hgone
    have hb₀ := hkeeps b.node (hnoone j k b c M hjk hb hc hbM hcM hn) (hnode.trans hn)
    have hc₀ := hkeeps c.node (hnoone k j c b M (Ne.symm hjk) hc hb hcM hbM (hnode.trans hn)) hn
    exact hjk (h j k b c M hb hc hbM hcM (hb₀.trans hc₀.symm))

/-- Rows of clients rewritten, none of them for another mandate or on another device. -/
theorem Apart.rewrite {t : Table Client} (h : db.Apart)
    (ht : Rewrites (fun _ c c' => c'.mandate = c.mandate ∧ c'.node = c.node) db.clients t) :
    ({ db with clients := t } : DB).Apart := by
  intro j k b' c' M hb' hc' hbM hcM hnode
  obtain ⟨b, hb, hbm, hbn⟩ := ht.before hb'
  obtain ⟨c, hc, hcm, hcn⟩ := ht.before hc'
  exact h j k b c M hb hc (hbm ▸ hbM) (hcm ▸ hcM) (by rw [← hbn, ← hcn, hnode])

theorem Apart.insert {c : Client} (h : db.Apart) (hnone : c.mandate = none) (n : Nat) :
    ({ db with draws := n, clients := db.clients.insert c } : DB).Apart := by
  intro j k x y M hx hy hxM hyM hnode
  rcases insert_row_eq_some.mp hx with ⟨-, rfl⟩ | hx <;> rcases insert_row_eq_some.mp hy with ⟨-, rfl⟩ | hy
  · exact absurd (hnone.symm.trans hxM) nofun
  · exact absurd (hnone.symm.trans hxM) nofun
  · exact absurd (hnone.symm.trans hyM) nofun
  · exact h j k x y M hx hy hxM hyM hnode

theorem Apart.put {pk : Pk} {c : Client} (h : db.Apart)
    (hnew : ∀ M, c.mandate = some M → ∀ k x, k ≠ pk → db.clients.row k = some x → x.mandate = some M →
      x.node ≠ c.node) :
    ({ db with clients := db.clients.put pk c } : DB).Apart := by
  intro j k x y M hx hy hxM hyM hnode
  simp only [put_row] at hx hy
  split at hx <;> split at hy
  · rename_i hj hk
    rw [hj, hk]
  · rename_i hk
    cases hx
    exact absurd hnode.symm (hnew M hxM k y hk hy hyM)
  · rename_i hj _
    cases hy
    exact absurd hnode (hnew M hyM j x hj hx hxM)
  · exact h j k x y M hx hy hxM hyM hnode

theorem Apart.write {A : Licence} {l : Label} (h : db.Apart) (hw : Write db l d) (hl : A.admits l) : d.Apart := by
  cases hw with
  | newClient c _ hunbound => exact h.insert hunbound.2.2.2.2 _
  | newRelyingParty c name _ hunbound => exact h.insert hunbound.2.2.2.2 _
  | clients ht hn =>
    refine h.rewrite ((ht.both hn).mono fun _ c c' hsame => ?_)
    exact ⟨congrArg Binding.mandate hsame.1, hsame.2⟩
  | @bindApp pk c c' m o hc _ _ hmandate _ _ _ _ hnode =>
    refine h.put fun M hM k x hk hx hxM hxn => ?_
    have hcM : c.mandate = some M := (hmandate.resolve_left fun hnone => nomatch hnone.symm.trans hM).symm.trans hM
    have hcn : c'.node = c.node := hnode.resolve_left fun hnone => nomatch hnone.symm.trans hM
    exact hk (h k pk x c M hx hc hxM hcM (hxn.trans hcn))
  | @bindKeyed pk c c' M mandate _ _ _ hmandate _ _ _ _ _ hnode =>
    refine h.put fun N hN k x hk hx hxN => hnode k x hk hx ?_
    rw [hmandate] at hN
    exact hxN.trans hN.symm
  | delete origin roots upgrading =>
    refine h.delete (keepsApart_of_within withoutDevices_within (by decide) fun r hr => ?_)
    rw [hl.2.1 r hr]
    exact (by decide : ∀ m ∈ routineOrigins, m ∈ withoutDevices) origin hl.1
  | renameRole hd =>
    obtain ⟨_, _, -, rfl, -⟩ := renameRole_ok hd
    exact h
  | _ => exact h

end DB

theorem step_apart {env : Env} {db : DB} (a : Action) (h : db.Apart) : (step env db a).Apart := by
  cases ha : a.deletes with
  | true =>
    cases a with
    | delete model pks =>
      show (db.settle (db.deleteRows model pks)).Apart
      cases hd : db.deleteRows model pks with
      | error => exact h
      | ok d =>
        obtain ⟨hkept, rfl⟩ := DB.deleteRows_ok.mp hd
        exact h.delete hkept
    | _ => cases ha
  | false => exact (step_writes env db ha).invariant (I := DB.Apart) (fun hI hw hl => hI.write hw hl) h

theorem Reachable.apart {env : Env} {db : DB} (h : Reachable env db) : db.Apart := by
  obtain ⟨as, hrun⟩ := h
  exact hrun.invariant (P := DB.Apart) (fun {s a t} hs hst => by rw [hst]; exact step_apart a hs)
    (by simp [DB.Apart, DB.empty])

/-! ## None for a mandate that was revoked -/

namespace DB

variable {db d : DB} {l : Label}

/-- No client logs in under a mandate that was revoked. -/
def RevokedBare (db : DB) : Prop :=
  ∀ k c M m, db.clients.row k = some c → c.mandate = some M → db.mandates.row M = some m → m.revokedAt = none

theorem RevokedBare.mandates {R : Nat → Mandate → Mandate → Prop} {t : Table Mandate} (h : db.RevokedBare)
    (ht : Rewrites R db.mandates t) (hR : ∀ k m m', db.mandates.row k = some m → R k m m' →
      (∃ j c, db.clients.row j = some c ∧ c.mandate = some k) → m'.revokedAt = m.revokedAt) :
    ({ db with mandates := t } : DB).RevokedBare := by
  intro k c M m' hc hM hm'
  obtain ⟨m, hm, hrow⟩ := ht.before hm'
  exact (hR M m m' hm hrow ⟨k, c, hc, hM⟩).trans (h k c M m hc hM hm)

theorem RevokedBare.clients {t : Table Client} {n : Nat} (h : db.RevokedBare) (ht : ∀ k c', t.row k = some c' →
      c'.mandate = none ∨ (∃ c, db.clients.row k = some c ∧ c'.mandate = c.mandate)
        ∨ ∃ M m, c'.mandate = some M ∧ db.mandates.row M = some m ∧ m.revokedAt = none) :
    ({ db with draws := n, clients := t } : DB).RevokedBare := by
  intro k c' M m hc' hM hm
  rcases ht k c' hc' with hnone | ⟨c, hc, hsame⟩ | ⟨N, x, hN, hx, hlive⟩
  · rw [hnone] at hM
    cases hM
  · exact h k c M m hc (hsame.symm.trans hM) hm
  · have hM : c'.mandate = some M := hM
    have hm : db.mandates.row M = some m := hm
    rw [hN] at hM
    cases hM
    rw [hx] at hm
    cases hm
    exact hlive

theorem RevokedBare.write (h : db.RevokedBare) (hw : Write db l d) : d.RevokedBare := by
  cases hw with
  | newClient c _ hunbound =>
    refine h.clients fun k c' hc' => ?_
    rcases insert_row_eq_some.mp hc' with ⟨-, rfl⟩ | hc'
    · exact .inl hunbound.2.2.2.2
    · exact .inr (.inl ⟨c', hc', rfl⟩)
  | newRelyingParty c name _ hunbound =>
    refine h.clients (n := db.draws) fun k c' hc' => ?_
    rcases insert_row_eq_some.mp hc' with ⟨-, rfl⟩ | hc'
    · exact .inl hunbound.2.2.2.2
    · exact .inr (.inl ⟨c', hc', rfl⟩)
  | clients ht =>
    refine h.clients (n := db.draws) fun k c' hc' => ?_
    obtain ⟨c, hc, hsame⟩ := ht.before hc'
    exact .inr (.inl ⟨c, hc, congrArg Binding.mandate hsame⟩)
  | @bindApp pk c c' m o hc _ _ hmandate =>
    refine h.clients (n := db.draws) fun k x hx => ?_
    rw [put_row] at hx
    split at hx
    · rename_i hk
      cases hx
      exact hmandate.imp_right fun hsame => .inl ⟨c, hk ▸ hc, hsame⟩
    · exact .inr (.inl ⟨x, hx, rfl⟩)
  | @bindKeyed pk c c' M mandate hc _ _ hmandate hM _ _ _ _ _ hlive =>
    refine h.clients (n := db.draws) fun k x hx => ?_
    rw [put_row] at hx
    split at hx
    · cases hx
      exact .inr (.inr ⟨M, mandate, hmandate, hM, hlive⟩)
    · exact .inr (.inl ⟨x, hx, rfl⟩)
  | @issue n hn =>
    intro k c M m hc hM hm
    rcases insert_row_eq_some.mp hm with ⟨-, rfl⟩ | hm
    · exact hn.unrevoked
    · exact h k c M m hc hM hm
  | reissue ht =>
    refine h.mandates ht fun k m m' _ hsame _ => ?_
    obtain ⟨_, rfl⟩ := hsame
    rfl
  | withdraw ht hbare =>
    refine h.mandates ht fun k m m' hm hw hused => ?_
    obtain ⟨j, c, hc, hM⟩ := hused
    obtain ⟨hne, hparent⟩ := hbare j c k m hc hM hm
    unfold Withdrawn at hw
    rw [if_neg hne, if_neg hparent] at hw
    rw [hw]
  | logIn ht =>
    refine h.mandates ht fun k m m' _ hsame _ => ?_
    rcases hsame with rfl | ⟨-, _, _, rfl⟩ <;> rfl
  | resettle ht =>
    refine h.mandates ht fun k m m' _ hsame _ => ?_
    rcases hsame with rfl | ⟨-, hsettled⟩
    · rfl
    · obtain ⟨_, _, _, _, _, _, _, rfl⟩ := hsettled.same
      rfl
  | delete origin roots upgrading =>
    have hshrinks := delete_shrinks db origin roots upgrading
    intro k c' M m hc' hM hm
    obtain ⟨c, hc, _, _, rfl⟩ := hshrinks.clients.2 k c' hc'
    obtain ⟨m₀, hm₀, rfl⟩ := hshrinks.mandates.2 M m hm
    exact h k c M m hc hM hm₀
  | renameRole hd =>
    obtain ⟨_, _, -, rfl, -⟩ := renameRole_ok hd
    exact h
  | _ => exact h

end DB

theorem Reachable.revokedBare {env : Env} {db : DB} (h : Reachable env db) : db.RevokedBare :=
  h.invariant (fun hI hw => hI.write hw) (by simp [DB.RevokedBare, DB.empty])

/-! ## Where a mandate is -/

namespace DB

variable {db d : DB} {l : Label}

/-- A mandate is of the organization of its grantor and of its hub. -/
def Homed (db : DB) : Prop :=
  ∀ k m, db.mandates.row k = some m →
    (∃ g, db.memberships.row m.membership = some g ∧ g.organization = m.organization)
    ∧ ∃ h, db.hubs.row m.hub = some h ∧ h.organization = m.organization

theorem Homed.places (h : db.Homed) (hmandates : d.mandates = db.mandates)
    (hmemberships : ∀ k g, db.memberships.row k = some g →
      ∃ g', d.memberships.row k = some g' ∧ g'.organization = g.organization)
    (hhubs : ∀ k x, db.hubs.row k = some x → ∃ x', d.hubs.row k = some x' ∧ x'.organization = x.organization) :
    d.Homed := by
  intro k m hm
  rw [hmandates] at hm
  obtain ⟨⟨g, hg, hgo⟩, x, hx, hxo⟩ := h k m hm
  obtain ⟨g', hg', hsame⟩ := hmemberships _ g hg
  obtain ⟨x', hx', hsame'⟩ := hhubs _ x hx
  exact ⟨⟨g', hg', hsame.trans hgo⟩, x', hx', hsame'.trans hxo⟩

theorem Homed.mandates {R : Nat → Mandate → Mandate → Prop} {t : Table Mandate} (h : db.Homed)
    (ht : Rewrites R db.mandates t)
    (hR : ∀ k m m', R k m m' → m'.membership = m.membership ∧ m'.hub = m.hub ∧ m'.organization = m.organization) :
    ({ db with mandates := t } : DB).Homed := by
  intro k m' hm'
  obtain ⟨m, hm, hrow⟩ := ht.before hm'
  obtain ⟨hmembership, hhub, ho⟩ := hR k m m' hrow
  rw [hmembership, hhub, ho]
  exact h k m hm

theorem Homed.delete (h : db.Homed) (origin : Model) (roots : List Ref) (upgrading : Option Pk) :
    (db.delete origin roots upgrading).Homed := by
  have hshrinks := delete_shrinks db origin roots upgrading
  intro k m hm
  obtain ⟨m₀, hm₀, rfl⟩ := hshrinks.mandates.2 k m hm
  obtain ⟨⟨g, hg, hgo⟩, x, hx, hxo⟩ := h k m hm₀
  have hhangs : ∀ p ∈ m.hangsOn, p ∈ (db.delete origin roots upgrading).hangsOn ⟨.mandate, k⟩ := fun p hp => by
    simpa [hangsOn, hm] using hp
  obtain ⟨g', hg'⟩ := delete_target (hhangs ⟨.membership, m.membership⟩ (by simp [Mandate.hangsOn])) ⟨g, hg⟩
  obtain ⟨x', hx'⟩ := delete_target (hhangs ⟨.hub, m.hub⟩ (by simp [Mandate.hangsOn])) ⟨x, hx⟩
  obtain ⟨g₀, hg₀, -, hgo', -⟩ := hshrinks.memberships.2 _ g' hg'
  obtain ⟨x₀, hx₀, _, rfl, -⟩ := hshrinks.hubs.2 _ x' hx'
  rw [hg] at hg₀
  cases hg₀
  rw [hx] at hx₀
  cases hx₀
  exact ⟨⟨g', hg', hgo'.trans hgo⟩, _, hx', hxo⟩

theorem Homed.write (h : db.Homed) (hw : Write db l d) : d.Homed := by
  have hsame : ∀ k (x : Hub), db.hubs.row k = some x →
    ∃ x', db.hubs.row k = some x' ∧ x'.organization = x.organization :=
    fun k x hx => ⟨x, hx, rfl⟩
  have hstays : ∀ k (g : Membership), db.memberships.row k = some g →
    ∃ g', db.memberships.row k = some g' ∧ g'.organization = g.organization :=
    fun k g hg => ⟨g, hg, rfl⟩
  cases hw with
  | newMembership m => exact h.places rfl (fun k g hg => ⟨g, insert_row_of_some hg, rfl⟩) hsame
  | memberships ht =>
    refine h.places rfl (fun k g hg => ?_) hsame
    obtain ⟨g', hg', hregrade⟩ := ht.after hg
    exact ⟨g', hg', hregrade.organization⟩
  | renameRole hd =>
    obtain ⟨r, t, -, rfl, -⟩ := renameRole_ok hd
    refine h.places rfl (fun k g hg => ⟨_, update_row_eq_some.mpr ⟨g, hg, rfl⟩, ?_⟩) hsame
    split <;> rfl
  | newHub x => exact h.places rfl hstays fun k y hy => ⟨y, insert_row_of_some hy, rfl⟩
  | hubs ht =>
    refine h.places rfl hstays fun k x hx => ?_
    obtain ⟨x', hx', ho, -⟩ := ht.after hx
    exact ⟨x', hx', ho⟩
  | @identify hub client =>
    refine h.places rfl hstays fun k x hx => ?_
    by_cases hk : k = hub
    · exact ⟨_, modify_row_eq_some.mpr (.inr ⟨hk, x, hx, rfl⟩), rfl⟩
    · exact ⟨x, modify_row_eq_some.mpr (.inl ⟨hk, hx⟩), rfl⟩
  | @issue n hn =>
    intro k m hm
    rcases insert_row_eq_some.mp hm with ⟨-, rfl⟩ | hm
    · exact ⟨hn.membership, hn.hub⟩
    · exact h k m hm
  | reissue ht =>
    refine h.mandates ht fun k m m' hsame => ?_
    obtain ⟨_, rfl⟩ := hsame
    exact ⟨rfl, rfl, rfl⟩
  | withdraw ht =>
    refine h.mandates ht fun k m m' hw => ?_
    obtain ⟨_, _, rfl, -⟩ := withdrawn_same hw
    exact ⟨rfl, rfl, rfl⟩
  | logIn ht =>
    refine h.mandates ht fun k m m' hsame => ?_
    rcases hsame with rfl | ⟨-, _, _, rfl⟩
    · exact ⟨rfl, rfl, rfl⟩
    · exact ⟨rfl, rfl, rfl⟩
  | resettle ht =>
    intro k m' hm'
    obtain ⟨m, hm, rfl | ⟨-, hsettled⟩⟩ := ht.before hm'
    · exact h k _ hm
    · obtain ⟨g, x, hg, hx, hgx, hrest⟩ := hsettled.organization
      have ho : m'.organization = x.organization := by
        rcases hrest with ho | ⟨hhub, ho⟩
        · exact ho
        · obtain ⟨-, x₀, hx₀, hxo⟩ := h k m hm
          rw [hhub, hx₀] at hx
          cases hx
          rw [ho, hxo]
      exact ⟨⟨g, hg, hgx.trans ho.symm⟩, x, hx, ho.symm⟩
  | delete origin roots upgrading => exact h.delete origin roots upgrading
  | _ => exact h

end DB

theorem Reachable.homed {env : Env} {db : DB} (h : Reachable env db) : db.Homed :=
  h.invariant (fun hI hw => hI.write hw) (by simp [DB.Homed, DB.empty])

theorem DB.Apart.first {db : DB} (h : db.Apart) {M k : Pk} {node : Option Pk} {c : Client} :
    (db.clients.first fun _ c => c.mandate == some M && c.node == node) = some (k, c)
      ↔ db.clients.row k = some c ∧ c.mandate = some M ∧ c.node = node := by
  constructor
  · intro hfirst
    obtain ⟨hrow, hp⟩ := first_eq_some hfirst
    simp only [Bool.and_eq_true, beq_iff_eq] at hp
    exact ⟨hrow, hp⟩
  · intro hc
    obtain ⟨hrow, hM, hnode⟩ := hc
    refine first_of_unique hrow (by simp [hM, hnode]) fun j b hb hp => ?_
    simp only [Bool.and_eq_true, beq_iff_eq] at hp
    exact h j k b c M hb hrow hp.1 hM (hp.2.trans hnode.symm)

end Lok
