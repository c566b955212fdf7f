import Lok.ClientLaws
import Lok.GuestLaws
import Lok.MandateClients
import Mathlib.Data.List.Induction

/-!
# Deleting a device

A device goes with its service instances, the mandates issued to an agent on it and the guests whose last
grants were for a service on it. The clients on it stay, without a device: and so a client of a mandate
takes the place of the one that logs in without a device, and is refused where there is one already.
-/

namespace Lok

open Table Checks

namespace DB

variable {db d : DB} {roots gone : List Ref} {origin : Model}

/-! ## The guests who go -/

/-- The guests whose last grant goes with these rows, and who hold no role that stays. -/
def lostGuests (db : DB) (gone : List Ref) : List Pk :=
  db.memberships.pks fun pk m =>
    (db.grants.exists? fun g x => x.membership == pk && gone.contains ⟨.grant, g⟩)
      && !(db.grants.exists? fun g x => x.membership == pk && !gone.contains ⟨.grant, g⟩)
      && (keepList gone .role m.roles).isEmpty

theorem mem_lostGuests {pk : Pk} : pk ∈ db.lostGuests gone ↔ ∃ m, db.memberships.row pk = some m
    ∧ (∃ g x, db.grants.row g = some x ∧ x.membership = pk ∧ ⟨.grant, g⟩ ∈ gone)
    ∧ (∀ g x, db.grants.row g = some x → x.membership = pk → ⟨.grant, g⟩ ∈ gone)
    ∧ keepList gone .role m.roles = [] := by
  simp only [lostGuests, mem_pks, Bool.and_eq_true, exists?_eq_true, beq_iff_eq, List.contains_eq_mem,
    decide_eq_true_eq,
    Bool.not_eq_true', exists?_eq_false, List.isEmpty_iff]
  refine exists_congr fun m => and_congr_right fun _ => ?_
  constructor
  · intro h
    obtain ⟨⟨hsome, hall⟩, hroles⟩ := h
    refine ⟨hsome, fun g x hx hpk => ?_, hroles⟩
    by_contra hstays
    simpa [hpk, hstays] using hall g x hx
  · intro h
    obtain ⟨hsome, hall, hroles⟩ := h
    refine ⟨⟨hsome, fun g x hx => ?_⟩, hroles⟩
    by_cases hpk : x.membership = pk
    · simp [hpk, hall g x hx hpk]
    · simp [hpk]

/-- All that a deletion takes: what hangs on its rows, and on the guests it leaves without a grant. -/
def takes (db : DB) (roots : List Ref) : List Ref :=
  db.collect (roots ++ (db.lostGuests (db.collect roots)).map (⟨.membership, ·⟩))

theorem collect_subset {r : Ref} (h : r ∈ db.collect roots) : r ∈ db.takes roots :=
  Closure.closure_induct (P := fun r => r ∈ db.takes roots)
    (fun _ hx => mem_collect_root (List.mem_append_left _ hx))
    (fun _ _ _ hp hin => mem_collect_of_hangsOn hp hin) h

theorem takes_cases {r : Ref} (h : r ∈ db.takes roots) : r ∈ db.collect roots ∨ r.model ∈ withMemberships := by
  refine Closure.closure_induct (P := fun r => r ∈ db.collect roots ∨ r.model ∈ withMemberships) (fun x hx => ?_)
    (fun x _ p hp hin => ?_) h
  · rcases List.mem_append.mp hx with hx | hx
    · exact .inl (mem_collect_root hx)
    · obtain ⟨m, -, rfl⟩ := List.mem_map.mp hx
      exact .inr (by simp [withMemberships])
  · exact hin.imp (mem_collect_of_hangsOn hp) fun hp' => withMemberships_within _ ⟨_, hangsOn_under hp, hp'⟩

/-- What a deletion leaves while its receivers run. -/
structure Dropping (db : DB) (roots : List Ref) (d : DB) : Prop where
  shrinks : Shrinks (db.remove (db.collect roots)) d
  spared : ∀ r, db.has r → r ∉ db.takes roots → d.has r
  roles : ∀ k m', d.memberships.row k = some m' →
    ∃ m, db.memberships.row k = some m ∧ m'.roles = keepList (db.collect roots) .role m.roles

theorem Dropping.start (db : DB) (roots : List Ref) :
    Dropping db roots ((db.removeCascade roots).syncAdmin (db.losesAdmin roots)) where
  shrinks := syncAdmin_shrinks _ _
  spared r hr hstays := syncAdmin_has (remove_has hr fun hgone => hstays (collect_subset hgone))
  roles k m' hm' := by
    obtain ⟨m₁, hm₁, rfl⟩ := update_row_eq_some.mp hm'
    obtain ⟨m, hm, rfl⟩ := update_row_eq_some.mp hm₁
    refine ⟨m, (keep_row_eq_some.mp hm).1, ?_⟩
    split <;> rfl

/-- The guest who loses the last grant is gone once the receiver of a grant has run. -/
theorem Dropping.drops (h : Dropping db roots d)
    (horigin : origin ≠ .membership ∧ origin ≠ .organization ∧ origin ≠ .user)
    {m : Pk} (hlost : m ∈ db.lostGuests (db.collect roots)) :
    ¬ (d.dropMembershipWithoutGrants origin none m).has ⟨.membership, m⟩ := by
  obtain ⟨row, hrow, -, hall, hroles⟩ := mem_lostGuests.mp hlost
  unfold dropMembershipWithoutGrants
  rw [if_neg nofun, if_neg (by simp [horigin])]
  split
  · rename_i hnone
    intro hhas
    obtain ⟨m', hm'⟩ := hhas
    rw [hnone] at hm'
    cases hm'
  · rename_i m' hm'
    obtain ⟨row', hrow', hsame⟩ := h.roles m m' hm'
    rw [hrow] at hrow'
    cases hrow'
    have hnone : d.hasGrants m = false := by
      rw [Bool.eq_false_iff]
      intro hsome
      obtain ⟨j, y', hy', hym⟩ := hasGrants_iff.mp hsome
      obtain ⟨y₀, hy₀, _, _, rfl, -⟩ := h.shrinks.grants.2 j y' hy'
      obtain ⟨y, hy, rfl⟩ := update_row_eq_some.mp hy₀
      obtain ⟨hy, hkept⟩ := keep_row_eq_some.mp hy
      have hgone := hall j y hy hym
      simp [keeps, hgone] at hkept
    rw [if_pos (by simp [hnone, hsame, hroles])]
    exact not_has_remove (mem_collect_root (by simp))

section
variable {S : List Model} (hS : Within S) (hpeople : .membership ∉ S ∧ .user ∉ S ∧ .organization ∉ S)
  (hroots : ∀ r ∈ roots, r.model ∈ S)
include hS hpeople hroots

/-- The memberships that go are those of the guests: a membership hangs on a user and an organization. -/
theorem takes_membership {m : Pk} (h : ⟨.membership, m⟩ ∈ db.takes roots) :
    m ∈ db.lostGuests (db.collect roots) := by
  cases Closure.mem_closure.mp h with
  | root hin =>
    rcases List.mem_append.mp hin with hin | hin
    · exact absurd (hroots _ hin) hpeople.1
    · obtain ⟨k, hk, heq⟩ := List.mem_map.mp hin
      cases heq
      exact hk
  | @hangs _ p _ hp hin =>
    have hin : p ∈ db.takes roots := Closure.mem_closure.mpr hin
    have hunder : p.model = .user ∨ p.model = .organization := by simpa [Model.under] using hangsOn_under hp
    rcases takes_cases hin with hin | hin
    · have hp' := collect_within hS hroots hin
      rcases hunder with hu | ho
      · exact absurd (hu ▸ hp') hpeople.2.1
      · exact absurd (ho ▸ hp') hpeople.2.2
    · rcases hunder with hu | ho
      · exact absurd (hu ▸ hin) (by decide)
      · exact absurd (ho ▸ hin) (by decide)

theorem Dropping.lost (h : Dropping db roots d) {g m : Pk} {x : CollaborationGrant} {m' : Membership}
    (hx : db.grants.row g = some x) (hgone : ⟨.grant, g⟩ ∈ db.collect roots) (hxm : x.membership = m)
    (hm' : d.memberships.row m = some m') (hnone : d.hasGrants m = false) (hroles : m'.roles = []) :
    m ∈ db.lostGuests (db.collect roots) := by
  obtain ⟨row, hrow, hsame⟩ := h.roles m m' hm'
  by_contra hnot
  refine hnot (mem_lostGuests.mpr ⟨row, hrow, ⟨g, x, hx, hxm, hgone⟩, fun j y hy hym => ?_, hsame ▸ hroles⟩)
  by_contra hstays
  have hspared : ⟨.grant, j⟩ ∉ db.takes roots := by
    intro hin
    cases Closure.mem_closure.mp hin with
    | root hin =>
      rcases List.mem_append.mp hin with hin | hin
      · exact hstays (mem_collect_root hin)
      · obtain ⟨_, -, heq⟩ := List.mem_map.mp hin
        cases heq
    | @hangs _ p _ hp hin =>
      have hin : p ∈ db.takes roots := Closure.mem_closure.mpr hin
      have hp : p = ⟨.membership, y.membership⟩ ∨ p = ⟨.instance_, y.instance_⟩ := by
        simpa [hangsOn, hy, CollaborationGrant.hangsOn] using hp
      rcases hp with rfl | rfl
      · exact hnot (hym ▸ takes_membership hS hpeople hroots hin)
      · have hin := (takes_cases hin).resolve_right (by simp [withMemberships])
        exact hstays (mem_collect_of_hangsOn (by simp [hangsOn, hy, CollaborationGrant.hangsOn]) hin)
  obtain ⟨y', hy'⟩ := h.spared ⟨.grant, j⟩ ⟨y, hy⟩ hspared
  obtain ⟨y₀, hy₀, _, _, rfl, -⟩ := h.shrinks.grants.2 j y' hy'
  obtain ⟨y₁, hy₁, rfl⟩ := update_row_eq_some.mp hy₀
  have hy₁ := (keep_row_eq_some.mp hy₁).1
  rw [hy] at hy₁
  cases hy₁
  have hsome : d.hasGrants m = true := hasGrants_iff.mpr ⟨j, _, hy', hym⟩
  rw [hnone] at hsome
  cases hsome

theorem Dropping.drop (h : Dropping db roots d)
    (horigin : origin ≠ .membership ∧ origin ≠ .organization ∧ origin ≠ .user)
    {g : Pk} {x : CollaborationGrant} (hx : db.grants.row g = some x) (hgone : ⟨.grant, g⟩ ∈ db.collect roots) :
    Dropping db roots (d.dropMembershipWithoutGrants origin none x.membership) := by
  unfold dropMembershipWithoutGrants
  rw [if_neg nofun, if_neg (by simp [horigin])]
  split
  · exact h
  · rename_i m' hm'
    split
    · rename_i hlast
      simp only [Bool.and_eq_true, Bool.not_eq_true', List.isEmpty_iff] at hlast
      have hlost := h.lost hS hpeople hroots hx hgone rfl hm' hlast.1 hlast.2
      have hin : ∀ r ∈ d.collect [⟨.membership, x.membership⟩], r ∈ db.takes roots := fun r hr =>
        Closure.closure_induct (P := fun r => r ∈ db.takes roots)
          (fun y hy => by
            rw [List.mem_singleton.mp hy]
            exact mem_collect_root (List.mem_append_right _ (List.mem_map.mpr ⟨_, hlost, rfl⟩)))
          (fun _ _ _ hp hin =>
            mem_collect_of_hangsOn (hangsOn_of_shrinks ((remove_shrinks _ _).trans h.shrinks) hp) hin) hr
      refine ⟨h.shrinks.trans (remove_shrinks _ _), fun r hr hstays => ?_, fun k row hrow => ?_⟩
      · exact remove_has (h.spared r hr hstays) fun hr => hstays (hin r hr)
      · obtain ⟨row', hrow', rfl⟩ := update_row_eq_some.mp hrow
        obtain ⟨m, hm, hsame⟩ := h.roles k row' (keep_row_eq_some.mp hrow').1
        refine ⟨m, hm, ?_⟩
        have hnorole : ∀ r ∈ d.collect [⟨.membership, x.membership⟩], r.model ≠ .role := fun r hr heq => by
          have hwithin := collect_within withMemberships_within (by simp [withMemberships]) hr
          rw [heq] at hwithin
          exact absurd hwithin (by decide)
        rw [keepList_eq_self hnorole]
        exact hsame
    · exact h

/-- A deletion that begins at none of the people takes what hangs on its rows, and the guests it leaves
without a grant. -/
theorem delete_has_iff (hhub : .hub ∉ S) (horigin : origin ≠ .membership ∧ origin ≠ .organization ∧ origin ≠ .user)
    (hthere : ∀ r ∈ roots, db.has r) {r : Ref} :
    (db.delete origin roots none).has r ↔ db.has r ∧ r ∉ db.takes roots := by
  have hhubs : (db.hubs.filter fun pk _ => (db.collect roots).contains ⟨.hub, pk⟩) = [] := by
    refine List.eq_nil_iff_forall_not_mem.mpr fun x hx => hhub ?_
    exact collect_within hS hroots (by simpa using (mem_filter.mp hx).2)
  have heq : db.delete origin roots
    none = (db.grants.filter fun pk _ => (db.collect roots).contains ⟨.grant, pk⟩).foldl
      (fun d g => d.dropMembershipWithoutGrants origin none g.2.membership)
      ((db.removeCascade roots).syncAdmin (db.losesAdmin roots)) := by
    unfold delete
    extract_lets gone grants hubs adminRoles held db₁ db₂
    rw [show hubs = [] from hhubs]
    rfl
  have hgrants : ∀ g ∈ db.grants.filter (fun pk _ => (db.collect roots).contains ⟨.grant, pk⟩),
      db.grants.row g.1 = some g.2 ∧ ⟨.grant, g.1⟩ ∈ db.collect roots := fun g hg => by
    obtain ⟨hrow, hgone⟩ := mem_filter.mp hg
    exact ⟨hrow, by simpa using hgone⟩
  constructor
  · intro hhas
    have hshrinks := delete_shrinks db origin roots none
    have hdb : db.has r := by
      by_contra hnot
      exact not_has_of_shrinks hshrinks hnot hhas
    refine ⟨hdb, fun hin => ?_⟩
    refine (Closure.closure_induct (P := fun r => db.has r ∧ ¬ (db.delete origin roots none).has r)
      (fun x hx => ?_) (fun x hx p hp hgone => ?_) hin).2 hhas
    · rcases List.mem_append.mp hx with hx | hx
      · exact ⟨hthere x hx, delete_not_has hx⟩
      · obtain ⟨m, hm, rfl⟩ := List.mem_map.mp hx
        obtain ⟨row, hrow, ⟨g, y, hy, hym, hgone⟩, -⟩ := mem_lostGuests.mp hm
        refine ⟨⟨row, hrow⟩, ?_⟩
        rw [heq]
        have hmem : (g, y) ∈ db.grants.filter fun pk _ => (db.collect roots).contains ⟨.grant, pk⟩ :=
          mem_filter.mpr ⟨hy, by simpa using hgone⟩
        generalize db.grants.filter (fun pk _ => (db.collect roots).contains ⟨.grant, pk⟩) = l at hgrants hmem
        obtain ⟨before, after, rfl⟩ := List.append_of_mem hmem
        rw [List.foldl_append, List.foldl_cons]
        have hbefore : Dropping db roots
          (before.foldl (fun d g => d.dropMembershipWithoutGrants origin none g.2.membership)
            ((db.removeCascade roots).syncAdmin (db.losesAdmin roots))) :=
          foldl_invariant (fun g hg d hd => by
            obtain ⟨hrow, hgone⟩ := hgrants g (by simp [hg])
            exact hd.drop hS hpeople hroots horigin hrow hgone) (.start db roots)
        subst hym
        have hdropped := hbefore.drops horigin hm
        exact foldl_invariant (P := fun d : DB => ¬ d.has ⟨.membership, y.membership⟩)
          (fun g _ d hd => not_has_of_shrinks (dropMembershipWithoutGrants_shrinks d origin none _) hd) hdropped
    · have hx : db.has x := mem_refs.mp hx
      refine ⟨hx, fun hstays => hgone.2 (delete_target (x := x) ?_ hgone.1)⟩
      rw [hangsOn_eq_of_shrinks hshrinks hstays]
      exact hp
  · intro hstays
    rw [heq]
    have hdropping := foldl_invariant (P := fun d => Dropping db roots d) (fun g hg d hd => by
      obtain ⟨hrow, hgone⟩ := hgrants g hg
      exact hd.drop hS hpeople hroots horigin hrow hgone) (.start db roots)
    exact hdropping.spared r hstays.1 hstays.2

end

/-! ## Deleting a device -/

/-- The rows that go with a device, the guests aside. -/
def withDevices : List Model :=
  [.device, .instance_, .mandate, .role, .scope, .grant, .mapping, .roleRequest, .client, .deviceCode]

theorem withDevices_within : Within withDevices := by decide

theorem withDevices_device {r : Ref} {pk : Pk} (hr : r ∈ [(⟨.device, pk⟩ : Ref)]) : r.model ∈ withDevices := by
  rw [List.mem_singleton.mp hr]
  simp [withDevices]

theorem device_has_iff {pk : Pk} (hpk : db.has ⟨.device, pk⟩) {r : Ref} :
    (db.delete .device [⟨.device, pk⟩] none).has r ↔ db.has r ∧ r ∉ db.takes [⟨.device, pk⟩] :=
  delete_has_iff withDevices_within (by decide) (fun _ => withDevices_device) (by decide) (by decide)
    fun r hr => by rw [List.mem_singleton.mp hr]; exact hpk

theorem takes_device {pk : Pk} {r : Ref} (h : r ∈ db.takes [⟨.device, pk⟩]) :
    r.model ∈ withDevices ++ withMemberships :=
  List.mem_append.mpr ((takes_cases h).imp_left
    fun h => collect_within withDevices_within (fun _ => withDevices_device) h)

theorem mem_collect_device {pk n : Pk} : ⟨.device, n⟩ ∈ db.collect [⟨.device, pk⟩] ↔ n = pk := by
  constructor
  · intro h
    cases Closure.mem_closure.mp h with
    | root hin =>
      cases List.mem_singleton.mp hin
      rfl
    | @hangs _ p _ hp hin =>
      have hunder : p.model = .organization := by simpa [Model.under] using hangsOn_under hp
      have hp' := collect_within withDevices_within (fun _ => withDevices_device) (Closure.mem_closure.mpr hin)
      rw [hunder] at hp'
      exact absurd hp' (by decide)
  · intro h
    subst h
    exact mem_collect_root (by simp)

theorem keepOpt_device {pk : Pk} {o : Option Pk} :
    keepOpt (db.collect [⟨.device, pk⟩]) .device o = if o = some pk then none else o := by
  cases o with
  | none => rfl
  | some n =>
    by_cases hn : n = pk
    · simp [keepOpt, Option.filter, mem_collect_device, hn]
    · simp [keepOpt, Option.filter, mem_collect_device, hn]

/-- A device goes when no client of a mandate on it leaves the mandate a second one without a device. -/
theorem keepsApart_device (h : db.Apart) {pk : Pk} : db.keepsApart (db.collect [⟨.device, pk⟩]) = true ↔
    ∀ k c M, db.clients.row k = some c → c.mandate = some M → c.node = some pk →
      ∀ j b, db.clients.row j = some b → b.mandate = some M → b.node ≠ none := by
  rw [keepsApart, Bool.not_eq_true', exists?_eq_false]
  constructor
  · intro hkept k c M hc hcM hcn j b hb hbM hbn
    have hnone := hkept k c hc
    have hother : (db.clients.exists? fun k' b => k' != k && b.mandate == c.mandate
        && (keepOpt (db.collect [⟨.device, pk⟩]) .device b.node).isNone) = true := by
      refine exists?_eq_true.mpr ⟨j, b, hb, ?_⟩
      have hjk : j ≠ k := by
        intro hjk
        subst hjk
        rw [hb] at hc
        cases hc
        rw [hbn] at hcn
        cases hcn
      simp [hjk, hbM, hcM, hbn, keepOpt_device]
    rw [hother] at hnone
    simp [hcM, hcn, mem_collect_device] at hnone
  · intro hnone k c hc
    by_contra hfail
    simp only [Bool.not_eq_false, Bool.and_eq_true, Option.any_eq_true, List.contains_eq_mem, decide_eq_true_eq,
      mem_collect_device, exists?_eq_true, bne_iff_ne, beq_iff_eq, Option.isNone_iff_eq_none,
        keepOpt_device] at hfail
    obtain ⟨⟨hM, n, hcn, hn⟩, j, b, hb, ⟨hjk, hbM⟩, hbn⟩ := hfail
    subst hn
    obtain ⟨M, hcM⟩ := Option.isSome_iff_exists.mp hM
    by_cases hsame : b.node = some n
    · exact hjk (h j k b c M hb hc (hbM.trans hcM) hcM (hsame.trans hcn.symm))
    · rw [if_neg hsame] at hbn
      exact hnone k c M hc hcM hcn j b hb (hbM.trans hcM) hbn

/-- Who may act on a device: the full members of its organization. -/
def mayDeleteDevice (db : DB) (user device : Pk) : Bool :=
  (db.devices.row device).any fun d =>
    db.memberships.exists? fun m row => row.organization == d.organization && row.user == user && !db.isScoped m

def deleteDevice (db : DB) (user device : Pk) : Answer DB := do
  let d ← found (db.devices.row device) denied
  require (db.memberships.exists?
    fun m row => row.organization == d.organization && row.user == user && !db.isScoped m) denied
  db.deleteRows .device [device]

/-- One call after the other, by a user each. -/
def deviceDeletions (db : DB) (calls : List (Pk × Pk)) : DB :=
  calls.foldl (fun d call => d.settle (d.deleteDevice call.1 call.2)) db

theorem mayDeleteDevice_has {user pk : Pk} (h : db.mayDeleteDevice user pk = true) : db.has ⟨.device, pk⟩ := by
  obtain ⟨row, hrow, -⟩ := (Option.any_eq_true _ _).mp h
  exact ⟨row, hrow⟩

theorem deleteDevice_eq (db : DB) (user pk : Pk) :
    db.deleteDevice user pk = if db.mayDeleteDevice user pk then db.deleteRows .device
    [pk] else .error denied := by
  unfold deleteDevice mayDeleteDevice
  cases db.devices.row pk with
  | none => rfl
  | some row =>
    cases hfull : db.memberships.exists?
      fun m r => r.organization == row.organization && r.user == user && !db.isScoped m <;>
      simp [found, require, hfull, bind, Except.bind]

theorem deleteDevice_cases (db : DB) (user pk : Pk) :
    (db.mayDeleteDevice user pk = false ∧ db.deleteDevice user pk = .error denied)
      ∨ (db.mayDeleteDevice user pk = true ∧ db.keepsApart (db.collect [⟨.device, pk⟩]) = false
        ∧ db.deleteDevice user pk = .error ⟨.integrityError, "duplicate key value violates unique constraint"⟩)
      ∨ (db.mayDeleteDevice user pk = true ∧ db.keepsApart (db.collect [⟨.device, pk⟩]) = true
        ∧ db.deleteDevice user pk = .ok (db.delete .device [⟨.device, pk⟩] none)) := by
  rw [deleteDevice_eq]
  cases hmay : db.mayDeleteDevice user pk with
  | false => exact .inl ⟨rfl, rfl⟩
  | true =>
    cases hkept : db.keepsApart (db.collect [⟨.device, pk⟩]) with
    | false =>
      refine .inr (.inl ⟨rfl, rfl, ?_⟩)
      simp [deleteRows, hkept, assert, require, bind, Except.bind]
    | true => exact .inr (.inr ⟨rfl, rfl, deleteRows_ok.mpr ⟨hkept, rfl⟩⟩)

/-! ## What blocks a key -/

/-- No client of a mandate stays when the device it is on is deleted, or has one without a device beside it. -/
def LeavesNoClient (db : DB) (user pk : Pk) : Prop :=
  db.mayDeleteDevice user pk = true → ∀ k c M, db.clients.row k = some c → c.mandate = some M → c.node = some pk →
    ⟨.client, k⟩ ∈ db.takes [⟨.device, pk⟩] ∧ ∀ j b, db.clients.row j = some b → b.mandate = some M → b.node ≠ none

/-- After deletions of devices a key logs in on those that are left, as the clients it had there, and on
others while those do not use it up. -/
structure Unblocked (db d : DB) : Prop where
  /-- The clients that count are those there were, on the devices they were on: none of these was deleted. -/
  counted : ∀ k c M, d.clients.row k = some c → c.mandate = some M →
    (∃ c₀, db.clients.row k = some c₀ ∧ c₀.mandate = some M ∧ c₀.node = c.node)
      ∧ ∀ n, c.node = some n → db.has ⟨.device, n⟩ → d.has ⟨.device, n⟩
  remaining : ∀ M m k c₀ request, d.mandates.row M = some m → db.clients.row k = some c₀ → c₀.mandate = some M →
    (∀ n, c₀.node = some n → d.has ⟨.device, n⟩) → ∃ c, d.clientForLogin M m c₀.node request = .ok (d, k, c)
  returning : ∀ env M m request, d.mandates.row M = some m →
    (m.maxClients.all fun max => db.clients.count (fun _ c => c.mandate == some M
      && c.node.all fun n => (d.devices.row n).isSome || (db.devices.row n).isNone) < max) = true →
    ∃ r, (d.deviceOf env request.manifest.deviceId m.organization).1.clientForLogin M m
      (d.deviceOf env request.manifest.deviceId m.organization).2 request = .ok r
  /-- Without a device it logs in as the client it had without one, or as a new one. -/
  deviceless : ∀ M m k c request d', d.clientForLogin M m none request = .ok (d', k, c) →
    k = d.clients.next ∨ ∃ c₀, db.clients.row k = some c₀ ∧ c₀.mandate = some M ∧ c₀.node = none

/-- What deletions of devices that leave no client keep. -/
structure Kept (db d : DB) : Prop where
  counted : ∀ k c M, d.clients.row k = some c → c.mandate = some M →
    (∃ c₀, db.clients.row k = some c₀ ∧ c₀.mandate = some M ∧ c₀.node = c.node)
      ∧ ∀ n, c.node = some n → db.has ⟨.device, n⟩ → d.has ⟨.device, n⟩
  stays : ∀ M k c₀, db.clients.row k = some c₀ → c₀.mandate = some M → d.has ⟨.mandate, M⟩ →
    ∃ c, d.clients.row k = some c ∧ c.mandate = some M

theorem Kept.refl (db : DB) : Kept db db where
  counted _ c _ hc hM := ⟨⟨c, hc, hM, rfl⟩, fun _ _ hn => hn⟩
  stays _ _ c₀ hc hM _ := ⟨c₀, hc, hM⟩

theorem takes_mandate (h : d.ClientLaws) {pk k M : Pk} {c : Client} (hc : d.clients.row k = some c)
    (hM : c.mandate = some M)
    (hgone : ⟨.client, k⟩ ∈ d.takes [⟨.device, pk⟩]) : ⟨.mandate, M⟩ ∈ d.takes [⟨.device, pk⟩] := by
  obtain ⟨m, hm, hmembership, hhub⟩ := (h.lawful k c hc).mandated M hM
  cases Closure.mem_closure.mp hgone with
  | root hin =>
    rcases List.mem_append.mp hin with hin | hin
    · cases List.mem_singleton.mp hin
    · obtain ⟨_, -, heq⟩ := List.mem_map.mp hin
      cases heq
  | @hangs _ p _ hp hin =>
    have hin : p ∈ d.takes [⟨.device, pk⟩] := Closure.mem_closure.mpr hin
    have hmodel := takes_device hin
    simp only [hangsOn, hc, Option.elim_some, Client.hangsOn, List.mem_append, mem_refOf] at hp
    rcases hp with (((⟨x, hx, rfl⟩ | ⟨x, -, rfl⟩) | ⟨x, -, rfl⟩) | ⟨x, hx, rfl⟩) | ⟨x, -, rfl⟩
    · have hx : c.membership = some x := hx
      have hmembership : c.membership = some m.membership := hmembership
      rw [hx] at hmembership
      cases hmembership
      exact mem_collect_of_hangsOn (by simp [hangsOn, hm, Mandate.hangsOn]) hin
    · exact absurd hmodel (by simp [withDevices, withMemberships])
    · exact absurd hmodel (by simp [withDevices, withMemberships])
    · rw [hM] at hx
      cases hx
      exact hin
    · exact absurd hmodel (by simp [withDevices, withMemberships])

theorem Kept.delete (h : Kept db d) (hlaws : d.ClientLaws) {user pk : Pk} (hmay : d.mayDeleteDevice user pk = true)
    (hleaves : d.LeavesNoClient user pk) : Kept db (d.delete .device [⟨.device, pk⟩] none) := by
  have hhas : ∀ r, (d.delete .device [⟨.device, pk⟩] none).has r ↔ d.has r ∧ r ∉ d.takes [⟨.device, pk⟩] :=
    fun r =>
    device_has_iff (mayDeleteDevice_has hmay)
  constructor
  · intro k c' M hc' hM
    obtain ⟨c, l, hc, rfl⟩ := delete_client hc'
    have hM : c.mandate = some M := hM
    have hstays := ((hhas ⟨.client, k⟩).mp ⟨_, hc'⟩).2
    have hother : c.node ≠ some pk := fun hn => hstays (hleaves hmay k c M hc hM hn).1
    obtain ⟨hbefore, hdevices⟩ := h.counted k c M hc hM
    show (∃ c₀, db.clients.row k = some c₀ ∧ c₀.mandate = some M ∧ c₀.node = keepOpt _ .device c.node)
      ∧ ∀ n, keepOpt _ .device c.node = some n → _
    rw [keepOpt_device, if_neg hother]
    refine ⟨hbefore, fun n hn hhad => (hhas _).mpr ⟨hdevices n hn hhad, fun hgone => hother ?_⟩⟩
    have hroot := (takes_cases hgone).resolve_right (by simp [withMemberships])
    rw [hn, mem_collect_device.mp hroot]
  · intro M k c₀ hc₀ hM hthere
    obtain ⟨hmandate, hspared⟩ := (hhas _).mp hthere
    obtain ⟨c, hc, hcM⟩ := h.stays M k c₀ hc₀ hM hmandate
    obtain ⟨c', hc'⟩ := (hhas ⟨.client, k⟩).mpr ⟨⟨c, hc⟩, fun hgone => hspared (takes_mandate hlaws hc hcM hgone)⟩
    obtain ⟨c₁, l, hc₁, rfl⟩ := delete_client hc'
    rw [hc] at hc₁
    cases hc₁
    exact ⟨_, hc', hcM⟩

theorem clientForLogin_of_room {pk : Pk} {m : Mandate} (node : Option Pk) (request : MandateKeyGrantRequest)
    (hroom : (m.maxClients.all fun max => db.clients.count (fun _ c => c.mandate == some pk) < max) = true) :
    ∃ r, db.clientForLogin pk m node request = .ok r := by
  unfold clientForLogin
  split
  · exact ⟨_, rfl⟩
  · simp only [bind_ok, require_ok, exists_unit, hroom, true_and]
    split
    · exact ⟨_, rfl⟩
    · simp only [bind_ok, Table.get_ok, pure_ok]
      exact ⟨_, _, insert_row_next _ _, rfl⟩

/-- Without a device a key logs in as the client it has without one, or as a new one. -/
theorem clientForLogin_deviceless {pk : Pk} {m : Mandate} {request : MandateKeyGrantRequest} {d' : DB} {k : Pk}
    {c : Client} (h : db.clientForLogin pk m none request = .ok (d', k, c)) :
    k = db.clients.next ∨ db.clients.row k = some c ∧ c.mandate = some pk ∧ c.node = none := by
  unfold clientForLogin at h
  split at h
  · rename_i hfirst
    cases pure_ok.mp h
    obtain ⟨hrow, hp⟩ := first_eq_some hfirst
    simp only [Bool.and_eq_true, beq_iff_eq] at hp
    exact .inr ⟨hrow, hp⟩
  · simp only [Option.bind_none, bind_ok, pure_ok, Prod.mk.injEq] at h
    obtain ⟨-, -, client, -, -, rfl, -⟩ := h
    exact .inl rfl

theorem Kept.unblocked (h : Kept db d) (hapart : d.Apart) : Unblocked db d where
  counted := h.counted
  remaining M m k c₀ request hm hc₀ hM hdevice := by
    obtain ⟨c, hc, hcM⟩ := h.stays M k c₀ hc₀ hM ⟨m, hm⟩
    obtain ⟨⟨c₁, hc₁, -, hnode⟩, -⟩ := h.counted k c M hc hcM
    rw [hc₀] at hc₁
    cases hc₁
    refine ⟨c, ?_⟩
    rw [clientForLogin, hapart.first.mpr ⟨hc, hcM, hnode.symm⟩]
    rfl
  returning env M m request _ hroom := by
    refine clientForLogin_of_room _ _ ?_
    rw [deviceOf_clients]
    rw [Option.all_eq_true] at hroom ⊢
    intro max hmax
    refine decide_eq_true (Nat.lt_of_le_of_lt (count_le fun k c hc hM => ?_) (of_decide_eq_true (hroom max hmax)))
    obtain ⟨⟨c₀, hc₀, hM₀, hnode⟩, hdevices⟩ := h.counted k c M hc (by simpa using hM)
    refine ⟨c₀, hc₀, ?_⟩
    simp only [hM₀, beq_self_eq_true, Bool.true_and, hnode, Option.all_eq_true, Bool.or_eq_true]
    intro n hn
    cases hrow : db.devices.row n with
    | none => exact .inr rfl
    | some x => exact .inl (Option.isSome_iff_exists.mpr (hdevices n hn ⟨x, hrow⟩))
  deviceless M m k c request d' hlogin := by
    refine (clientForLogin_deviceless hlogin).imp_right fun hc => ?_
    obtain ⟨hc, hM, hnode⟩ := hc
    obtain ⟨⟨c₀, hc₀, hM₀, hsame⟩, -⟩ := h.counted k c M hc hM
    exact ⟨c₀, hc₀, hM₀, hsame.trans hnode⟩

/-- A deletion that leaves no client is not refused, and keeps what the ones before it kept. -/
theorem Kept.deleteDevice (h : Kept db d) (hlaws : d.ClientLaws) (hapart : d.Apart) {user pk : Pk}
    (hleaves : d.LeavesNoClient user pk) :
    (∀ e, d.deleteDevice user pk = .error e → e = denied) ∧ Kept db (d.settle (d.deleteDevice user pk)) := by
  rcases deleteDevice_cases d user pk with ⟨-, hrun⟩ | ⟨hmay, hclash, -⟩ | ⟨hmay, -, hrun⟩
  · rw [hrun]
    refine ⟨fun e he => ?_, h⟩
    cases he
    rfl
  · have hkept := (keepsApart_device hapart).mpr fun k c M hc hM hn => (hleaves hmay k c M hc hM hn).2
    rw [hkept] at hclash
    cases hclash
  · rw [hrun]
    exact ⟨nofun, h.delete hlaws hmay hleaves⟩

theorem Kept.leavesNoClient (h : Kept db d) (hapart : d.Apart) {user pk : Pk}
    (hallowed : ∀ e, d.deleteDevice user pk = .error e → e = denied)
    (hafter : Unblocked db (d.settle (d.deleteDevice user pk))) : d.LeavesNoClient user pk := by
  intro hmay k c M hc hM hn
  rcases deleteDevice_cases d user pk with ⟨hmay', -⟩ | ⟨-, -, hrun⟩ | ⟨-, hkept, hrun⟩
  · rw [hmay] at hmay'
    cases hmay'
  · have hdenied := hallowed _ hrun
    cases hdenied
  · refine ⟨?_, (keepsApart_device hapart).mp hkept k c M hc hM hn⟩
    by_contra hstays
    obtain ⟨c', hc'⟩ := (device_has_iff (r := ⟨.client, k⟩) (mayDeleteDevice_has hmay)).mpr ⟨⟨c, hc⟩, hstays⟩
    obtain ⟨c₁, l, hc₁, rfl⟩ := delete_client hc'
    rw [hc] at hc₁
    cases hc₁
    rw [hrun] at hafter
    obtain ⟨⟨c₀, hc₀, -, hafter⟩, -⟩ := hafter.counted k _ M hc' hM
    obtain ⟨⟨c₂, hc₂, -, hbefore⟩, -⟩ := h.counted k c M hc hM
    rw [hc₀] at hc₂
    cases hc₂
    have hnone : c₀.node = none := hafter.trans (by rw [keepOpt_device, if_pos hn])
    rw [hnone, hn] at hbefore
    cases hbefore

theorem deviceDeletions_concat (db : DB) (calls : List (Pk × Pk)) (call : Pk × Pk) :
    db.deviceDeletions (calls ++ [call])
    = (db.deviceDeletions calls).settle ((db.deviceDeletions calls).deleteDevice call.1 call.2) := by
  simp [deviceDeletions]

end DB

theorem Reachable.deviceDeletions {env : Env} {db : DB} (h : Reachable env db) (calls : List (Pk × Pk)) :
    Reachable env (db.deviceDeletions calls) := by
  induction calls using List.reverseRecOn with
  | nil => exact h
  | append_singleton calls call ih =>
    rw [DB.deviceDeletions_concat]
    generalize db.deviceDeletions calls = d at ih
    rcases DB.deleteDevice_cases d call.1 call.2 with ⟨-, hrun⟩ | ⟨-, -, hrun⟩ | ⟨-, hkept, hrun⟩
    · rw [hrun]
      exact ih
    · rw [hrun]
      exact ih
    · have hrows : d.deleteRows .device [call.2] = .ok (d.delete .device [⟨.device, call.2⟩] none) :=
        DB.deleteRows_ok.mpr ⟨hkept, rfl⟩
      refine ih.step (a := .delete .device [call.2]) ?_
      show _ = d.settle (d.deleteRows .device [call.2])
      rw [hrun, hrows]

theorem Reachable.kept {env : Env} {db : DB} (h : Reachable env db) (calls : List (Pk × Pk))
    (hleaves : ∀ before call, before ++ [call] <+: calls →
      (db.deviceDeletions before).LeavesNoClient call.1 call.2) :
    DB.Kept db (db.deviceDeletions calls) := by
  induction calls using List.reverseRecOn with
  | nil => exact .refl db
  | append_singleton calls call ih =>
    have hkept := ih fun before call hprefix => hleaves before call (List.prefix_append_of_prefix hprefix)
    have hd := h.deviceDeletions calls
    rw [DB.deviceDeletions_concat]
    exact (hkept.deleteDevice hd.clientLaws hd.apart (hleaves calls call List.prefix_rfl)).2

/-- Deletions of devices go on, none of them refused but to those who may not, and leave every key to the
devices that are left and to those that return, exactly when no client of a mandate stays that was on the
device. -/
theorem device_deletions_unblock {env : Env} {db : DB} (h : Reachable env db) (calls : List (Pk × Pk)) :
    (∀ before call, before ++ [call] <+: calls →
      (∀ e, (db.deviceDeletions before).deleteDevice call.1 call.2 = .error e → e = denied)
        ∧ DB.Unblocked db (db.deviceDeletions (before ++ [call])))
    ↔ ∀ before call, before ++ [call] <+: calls → (db.deviceDeletions before).LeavesNoClient call.1 call.2 := by
  constructor
  · intro hunblocked
    induction calls using List.reverseRecOn with
    | nil => simp
    | append_singleton calls last ih =>
      have hleaves := ih fun before call hprefix => hunblocked before call (List.prefix_append_of_prefix hprefix)
      intro before call hprefix
      rcases List.prefix_concat_iff.mp hprefix with heq | hprefix
      · obtain ⟨rfl, hcall⟩ := List.append_inj' heq rfl
        cases hcall
        obtain ⟨hallowed, hafter⟩ := hunblocked before last List.prefix_rfl
        rw [DB.deviceDeletions_concat] at hafter
        exact (h.kept before hleaves).leavesNoClient (h.deviceDeletions before).apart hallowed hafter
      · exact hleaves before call hprefix
  · intro hleaves before call hprefix
    have hd := h.deviceDeletions before
    have hkept := h.kept before fun before' call' hprefix' =>
      hleaves before' call' (hprefix'.trans ((List.prefix_append before [call]).trans hprefix))
    obtain ⟨hallowed, hafter⟩ := hkept.deleteDevice hd.clientLaws hd.apart (hleaves before call hprefix)
    refine ⟨hallowed, ?_⟩
    rw [← DB.deviceDeletions_concat] at hafter
    exact hafter.unblocked (h.deviceDeletions _).apart

def onDevice (device : String) : MandateKeyGrantRequest :=
  { workerLogin with manifest := { plainWorker with deviceId := some device } }

/-- A worker runs without a device, and the app is installed on one. -/
def appOnDevice : List Action :=
  [.createUser "ann" [], .createOrganization "org" 0 false, .configureHub 0 keyedHub,
   .configureHubMandates 0 keyedHub,
   .authenticateKey workerLogin, .startDeviceCode { plainApp with deviceId := some "laptop" } .desktop .interface
   ["app://"] false
     600 false,
   .acceptDeviceCode 0 0 (some 2) 0 [] false none]

theorem device_deletions_unblock_app :
    ∃ d, (run plainEnv .empty appOnDevice).deleteDevice 0 0 = .ok d
    ∧ DB.Unblocked (run plainEnv .empty appOnDevice) d := by
  have hdb := reachable_run plainEnv appOnDevice
  have hok : ((run plainEnv .empty appOnDevice).deleteDevice 0 0).isOk = true := by decide +kernel
  have hnone : ((run plainEnv .empty appOnDevice).clients.exists? fun _ c => c.mandate.isSome
    && c.node == some 0) = false := by
    decide +kernel
  generalize run plainEnv .empty appOnDevice = db at hdb hok hnone ⊢
  obtain ⟨d, hd⟩ := exists_ok hok
  have hunblocked := (device_deletions_unblock hdb [(0, 0)]).mpr (fun before call hprefix => ?_) []
    (0, 0) List.prefix_rfl
  · have hsame : db.deviceDeletions ([] ++ [(0, 0)]) = d := by
      rw [DB.deviceDeletions_concat]
      show db.settle (db.deleteDevice 0 0) = d
      rw [hd]
      rfl
    rw [hsame] at hunblocked
    exact ⟨d, hd, hunblocked.2⟩
  · obtain ⟨rfl, rfl⟩ : before = [] ∧ call = (0, 0) := by
      have heq : before ++ [call] = [(0, 0)] := hprefix.eq_of_length_le (by simp)
      simpa using List.append_eq_singleton_iff.mp heq
    intro _ k c M hc hM hn
    have hfalse := exists?_eq_false.mp hnone k c hc
    simp [hM, show c.node = some 0 from hn] at hfalse

def workersOnDevices : List Action :=
  [.createUser "ann" [], .createOrganization "org" 0 false, .configureHub 0 keyedHub,
   .configureHubMandates 0 keyedHub,
   .authenticateKey (onDevice "desk"), .authenticateKey (onDevice "laptop")]

/-- The first device goes, and a login without a device is answered with the client it had; the second is
not deleted any more. -/
theorem second_device_is_not_deleted :
    (∃ r, ((run plainEnv .empty workersOnDevices).deviceDeletions [(0, 0)]).authenticateKey plainEnv
      workerLogin = .ok r
      ∧ ((run plainEnv .empty workersOnDevices).clients.row r.2).any (fun c => c.node == some 0) = true)
    ∧ ¬ ∀ before call, before ++ [call] <+: [(0, 0), (0, 1)] →
      (∀ e, ((run plainEnv .empty workersOnDevices).deviceDeletions before).deleteDevice call.1
        call.2 = .error e → e = denied)
        ∧ DB.Unblocked (run plainEnv .empty workersOnDevices)
          ((run plainEnv .empty workersOnDevices).deviceDeletions (before ++ [call])) := by
  constructor
  · have hlogin : (((run plainEnv .empty workersOnDevices).deviceDeletions [(0, 0)]).authenticateKey plainEnv
        workerLogin).toOption.any
          (fun r => ((run plainEnv .empty workersOnDevices).clients.row r.2).any fun c => c.node == some 0)
        = true := by decide +kernel
    exact exists_ok_and hlogin
  · intro hall
    have hrefused : refusal (((run plainEnv .empty workersOnDevices).deviceDeletions [(0, 0)]).deleteDevice 0 1)
        = some ⟨.integrityError, "duplicate key value violates unique constraint"⟩ := by decide +kernel
    have hdenied := (hall [(0, 0)] (0, 1) List.prefix_rfl).1 _ (refusal_eq_some.mp hrefused)
    cases hdenied

end Lok
