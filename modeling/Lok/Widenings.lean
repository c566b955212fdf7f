import Lok.Gifts

/-!
# What an accepted invite widens

One row holds what a guest may do in a collaboration: the roles of every invite that was accepted for it,
and one granter. So the stored roles only grow, but what a token lists of them is what the last granter
holds.
-/

namespace Lok

open Table Runs Checks DB

/-! ## What granting keeps -/

section

variable {P : DB → Prop} {env : Env} {db : DB} (hwrite : ∀ {db l d}, P db → Write db l d → l ≠ .share → P d)
  (hgrant : ∀ {db : DB} {k : Pk} {entries : List CollaborationRef} {invite grantedBy : Option Pk}
    {expiresAt : Option Time}
    {mesh : Bool} {u : DB × Bool}, P db →
      db.grantCollaborations k entries invite grantedBy expiresAt mesh = .ok u → P u.1)
include hwrite

theorem unshared_invariant {A : Licence} {d : DB} (hA : ¬ A.share) (hw : Writes A db d) (h : P db) : P d :=
  hw.invariant (I := P) (fun hI hw hl => hwrite hI hw fun heq => by rw [heq] at hl; exact hA hl) h

include hgrant

theorem redeemCollaborationInvite_invariant {pk user : Pk} {i : Invite} {refs : List CollaborationRef}
    {r : DB × Pk} (h : P db)
    (hok : db.redeemCollaborationInvite pk i refs user = .ok r) : P r.1 := by
  simp only [redeemCollaborationInvite, bind_ok, reraise_ok, Prod.exists] at hok
  obtain ⟨d, k, hd, e, changed, hgranted, hok⟩ := hok
  have hd : P d := unshared_invariant hwrite (A := unshared) id (getOrCreateMembership_writes trivial hd) h
  have he : P e := hgrant hd hgranted
  split at hok
  · cases pure_ok.mp hok
    exact he
  · cases pure_ok.mp hok
    refine unshared_invariant hwrite (A := unshared) id ?_ he
    dsimp only
    split
    · exact (modifyInvite_writes _ _).trans (acceptInvite_writes _ _)
    · exact modifyInvite_writes _ _

theorem redeemInvite_invariant {pk user : Pk} {r : DB × Pk} (h : P db) (hok : db.redeemInvite pk user = .ok r) :
    P r.1 := by
  simp only [redeemInvite, bind_ok, Table.get_ok, exists_unit] at hok
  obtain ⟨i, -, -, hok⟩ := hok
  split at hok
  · split at hok
    · exact redeemCollaborationInvite_invariant hwrite hgrant h hok
    · cases hok
      exact h
  · exact redeemCollaborationInvite_invariant hwrite hgrant h hok
  · exact unshared_invariant hwrite (A := unshared) id
      (redeemMemberInvite_writes trivial (fun _ _ => trivial) hok) h

/-- What granting keeps, and every write that does not share, every action keeps. -/
theorem step_granting (a : Action) (h : P db) : P (step env db a) := by
  by_cases hshares : a.shares
  · cases a with
    | redeemInvite invite user =>
      show P (db.settle _)
      cases hr : db.redeemInvite invite user with
      | error => exact h
      | ok r => exact redeemInvite_invariant hwrite hgrant h hr
    | grantCollaborations k entries invite grantedBy expiresAt mesh =>
      show P (db.settle _)
      cases hr : db.grantCollaborations k entries invite grantedBy expiresAt mesh with
      | error => exact h
      | ok r => exact hgrant h hr
    | _ => exact hshares.elim
  · cases hdeletes : a.deletes with
    | true => exact step_deletes hdeletes h fun _ _ => hwrite h (.delete _ _ _) (by simp)
    | false => exact unshared_invariant hwrite hshares (step_writes env db hdeletes) h

theorem Reachable.granting (h : Reachable env db) (hempty : P .empty) : P db := by
  obtain ⟨as, hrun⟩ := h
  exact hrun.invariant (P := P) (fun {s a t} hs hst => by rw [hst]; exact step_granting hwrite hgrant a hs) hempty

end

/-! ## Grants that are one each -/

namespace DB

variable {db d : DB} {env : Env}

/-- A membership has one grant for each collaboration, and no more grants than its tokens list. -/
structure GrantsTidy (db : DB) : Prop where
  unique : ∀ i j g h, db.grants.row i = some g → db.grants.row j = some h → g.membership = h.membership →
    g.instance_ = h.instance_ → g.collaborationId = h.collaborationId → i = j
  few : ∀ k, db.grants.count (fun _ g => g.membership == k) ≤ maxGrantsPerMembership

theorem GrantsTidy.empty : GrantsTidy .empty :=
  ⟨by simp [DB.empty], by simp [DB.empty, Table.count, Table.filter, Table.rows, Table.empty]⟩

theorem GrantsTidy.of_before (h : db.GrantsTidy)
    (hbefore : ∀ j g', d.grants.row j = some g' → ∃ g, db.grants.row j = some g
    ∧ g'.membership = g.membership ∧ g'.instance_ = g.instance_ ∧ g'.collaborationId = g.collaborationId) :
      d.GrantsTidy where
  unique i j g' h' hi hj hk hx hc := by
    obtain ⟨g, hg, hgk, hgx, hgc⟩ := hbefore i g' hi
    obtain ⟨u, hu, huk, hux, huc⟩ := hbefore j h' hj
    exact h.unique i j g u hg hu (hgk ▸ huk ▸ hk) (hgx ▸ hux ▸ hx) (hgc ▸ huc ▸ hc)
  few k := by
    refine Nat.le_trans (Table.count_le fun j g' hj hk => ?_) (h.few k)
    obtain ⟨g, hg, hgk, -⟩ := hbefore j g' hj
    exact ⟨g, hg, hgk ▸ hk⟩

theorem GrantsTidy.same (h : db.GrantsTidy) (hgrants : d.grants = db.grants) : d.GrantsTidy :=
  h.of_before fun _ g hj => ⟨g, hgrants ▸ hj, rfl, rfl, rfl⟩

theorem GrantsTidy.write {l : Label} (h : db.GrantsTidy) (hw : Write db l d) (hl : l ≠ .share) : d.GrantsTidy := by
  cases hw with
  | newGrant | grants => exact absurd rfl hl
  | delete origin roots upgrading =>
    refine h.of_before fun j g' hj => ?_
    obtain ⟨g, hg, i, u, rfl, -⟩ := (delete_shrinks db origin roots upgrading).grants.2 j g' hj
    exact ⟨g, hg, rfl, rfl, rfl⟩
  | renameRole hd =>
    obtain ⟨_, _, -, rfl, -⟩ := renameRole_ok hd
    exact h.same rfl
  | _ => exact h.same rfl

theorem GrantsTidy.grantOne {k : Pk} {invite grantedBy : Option Pk} {expiresAt : Option Time} {mesh : Bool}
    {s u : DB × Bool}
    {ref : CollaborationRef} (h : s.1.GrantsTidy)
    (hok : DB.grantOne k invite grantedBy expiresAt mesh s ref = .ok u) :
    u.1.GrantsTidy := by
  cases grantOne_gives hok with
  | made hnone ht hcount =>
    have hfree := grantFor_none hnone
    subst ht
    refine ⟨fun i j g g' hi hj hk hx hc => ?_, fun k' => ?_⟩
    · rcases insert_row_eq_some.mp hi with ⟨hi', rfl⟩ | hi <;> rcases insert_row_eq_some.mp hj with ⟨hj', rfl⟩ | hj
      · exact hi'.trans hj'.symm
      · exact absurd hc.symm (hfree j g' hj hk.symm hx.symm)
      · exact absurd hc (hfree i g hi hk hx)
      · exact h.unique i j g g' hi hj hk hx hc
    · by_cases hk : k' = k
      · rw [hk]
        simpa using hcount
      · refine Nat.le_trans (Table.count_le fun j g hj hg => ?_) (h.few k')
        rcases insert_row_eq_some.mp hj with ⟨-, rfl⟩ | hj
        · exact absurd (by simpa using hg : k = k').symm hk
        · exact ⟨g, hj, hg⟩
  | widened =>
    refine h.of_before fun j g' hj => ?_
    rcases modify_row_eq_some.mp hj with ⟨-, hj⟩ | ⟨-, g, hg, rfl⟩
    · exact ⟨g', hj, rfl, rfl, rfl⟩
    · exact ⟨g, hg, rfl, rfl, rfl⟩
  | kept => exact h

theorem GrantsTidy.grantCollaborations {k : Pk} {entries : List CollaborationRef} {invite grantedBy : Option Pk}
    {expiresAt : Option Time} {mesh : Bool} {u : DB × Bool} (h : db.GrantsTidy)
    (hok : db.grantCollaborations k entries invite grantedBy expiresAt mesh = .ok u) : u.1.GrantsTidy := by
  simp only [DB.grantCollaborations, bind_ok, Table.get_ok, require_ok, exists_unit] at hok
  obtain ⟨m, -, -, -, -, hok⟩ := hok
  exact foldlM_ok (R := fun s t : DB × Bool => s.1.GrantsTidy → t.1.GrantsTidy) (fun _ => id)
    (fun hst htu hs => htu (hst hs))
    (fun ref _ s t hst hs => hs.grantOne hst) hok h

end DB

theorem Reachable.grantsTidy {env : Env} {db : DB} (h : Reachable env db) : db.GrantsTidy :=
  h.granting (fun hI hw hl => hI.write hw hl) (fun hI hok => hI.grantCollaborations hok) .empty

/-! ## The grant of a collaboration -/

/-- The invite adds something to the grant, or makes it. -/
def Invite.Adds (i : Invite) (x : Pk) (c : String) (old : Option (Pk × CollaborationGrant)) : Prop :=
  i.Names x c ∧ ∀ o ∈ old, (∃ r, i.Gives x c r ∧ r ∉ o.2.roles) ∨ i.mesh = true ∧ o.2.mesh = false

/-- What accepting the invite makes of the grant of a collaboration. -/
structure Invite.Widens (i : Invite) (x : Pk) (c : String) (old new : Option (Pk × CollaborationGrant)) :
    Prop where
  same : ¬ i.Adds x c old → new = old
  grown : i.Adds x c old → ∃ n, new = some n ∧ (∀ o ∈ old, n.1 = o.1)
    ∧ (∀ r, r ∈ n.2.roles ↔ (∃ o ∈ old, r ∈ o.2.roles) ∨ i.Gives x c r)
    ∧ (n.2.mesh = true ↔ (∃ o ∈ old, o.2.mesh = true) ∨ i.mesh = true)
    ∧ n.2.grantedBy = some i.createdBy ∧ ∀ t, n.2.expiresAt = some t ↔ ∃ o ∈ old, o.2.expiresAt = some t

theorem Invite.Widens.congr {i i' : Invite} {x : Pk} {c : String} {old new : Option (Pk × CollaborationGrant)}
    (h : i.Widens x c old new)
    (hmesh : i'.mesh = i.mesh) (hby : i'.createdBy = i.createdBy) (hnames : i'.Names x c ↔ i.Names x c)
    (hgives : ∀ r, i'.Gives x c r ↔ i.Gives x c r) : i'.Widens x c old new := by
  have hadds : i'.Adds x c old ↔ i.Adds x c old := by simp only [Invite.Adds, hmesh, hnames, hgives]
  refine ⟨fun hnot => h.same (hadds.not.mp hnot), fun hadd => ?_⟩
  simpa only [hmesh, hby, hgives] using h.grown (hadds.mp hadd)

theorem Invite.Widens.grows {i : Invite} {x : Pk} {c : String} {old new : Option (Pk × CollaborationGrant)}
    (h : i.Widens x c old new)
    {o : Pk × CollaborationGrant} (ho : old = some o) :
    ∃ n, new = some n ∧ n.1 = o.1 ∧ (∀ r ∈ o.2.roles, r ∈ n.2.roles) ∧ (o.2.mesh = true → n.2.mesh = true) := by
  by_cases hadd : i.Adds x c old
  · obtain ⟨n, hn, hrow, hroles, hmesh, -⟩ := h.grown hadd
    exact ⟨n, hn, hrow o ho, fun r hr => (hroles r).mpr (.inl ⟨o, ho, hr⟩), fun hm => hmesh.mpr (.inl ⟨o, ho, hm⟩)⟩
  · exact ⟨o, (h.same hadd).trans ho, rfl, fun _ => id, id⟩

theorem Invite.Widens.gives {i : Invite} {x : Pk} {c : String} {old new : Option (Pk × CollaborationGrant)}
    (h : i.Widens x c old new)
    (hnames : i.Names x c) : ∃ n, new = some n ∧ (∀ r, i.Gives x c r → r ∈ n.2.roles)
    ∧ (i.mesh = true → n.2.mesh = true) := by
  by_cases hadd : i.Adds x c old
  · obtain ⟨n, hn, -, hroles, hmesh, -⟩ := h.grown hadd
    exact ⟨n, hn, fun r hr => (hroles r).mpr (.inr hr), fun hm => hmesh.mpr (.inr hm)⟩
  · -- the grant had all of it
    have hhad : ∃ o ∈ old, ¬ ((∃ r, i.Gives x c r ∧ r ∉ o.2.roles) ∨ i.mesh = true ∧ o.2.mesh = false) := by
      by_contra hnone
      exact hadd ⟨hnames, fun o ho => by_contra fun hnot => hnone ⟨o, ho, hnot⟩⟩
    obtain ⟨o, ho, hnot⟩ := hhad
    rw [not_or] at hnot
    refine ⟨o, (h.same hadd).trans ho, fun r hr => ?_, fun hm => ?_⟩
    · by_contra hmissing
      exact hnot.1 ⟨r, hr, hmissing⟩
    · by_contra hmissing
      exact hnot.2 ⟨hm, by simpa using hmissing⟩

theorem unionRoles_ne {a b : List String} : (unionRoles a b != sortedSet a) = true ↔ ∃ r ∈ b, r ∉ a := by
  rw [bne_iff_ne]
  constructor
  · intro hne
    by_contra hnone
    refine hne (sortedSet_congr fun r => ⟨fun hr => ?_, List.mem_append_left _⟩)
    rcases List.mem_append.mp hr with hr | hr
    · exact hr
    · by_contra hnot
      exact hnone ⟨r, hr, hnot⟩
  · intro hnew heq
    obtain ⟨r, hr, hnot⟩ := hnew
    have hin : r ∈ unionRoles a b := mem_sortedSet.mpr (List.mem_append_right _ hr)
    rw [heq] at hin
    exact hnot (mem_sortedSet.mp hin)

namespace DB

variable {db d : DB} {env : Env} {k x : Pk} {c : String}

def grantAt (db : DB) (k x : Pk) (c : String) : Option (Pk × CollaborationGrant) :=
  db.grants.first fun _ g => g.membership == k && g.instance_ == x && g.collaborationId == c

theorem GrantsTidy.grantAt_eq_some (h : db.GrantsTidy) {j : Pk} {g : CollaborationGrant} :
    db.grantAt k x c = some (j, g)
    ↔ db.grants.row j = some g ∧ g.membership = k ∧ g.instance_ = x ∧ g.collaborationId = c := by
  constructor
  · intro hat
    obtain ⟨hj, hp⟩ := first_eq_some hat
    simp only [Bool.and_eq_true, beq_iff_eq] at hp
    exact ⟨hj, hp.1.1, hp.1.2, hp.2⟩
  · intro hrow
    obtain ⟨hj, rfl, rfl, rfl⟩ := hrow
    refine first_of_unique hj (by simp) fun j' g' hj' hp => ?_
    simp only [Bool.and_eq_true, beq_iff_eq] at hp
    exact h.unique j' j g' g hj' hj hp.1.1 hp.1.2 hp.2

theorem GrantsTidy.grantAt_congr (h : db.GrantsTidy) (h' : d.GrantsTidy)
    (hsame : ∀ j g, g.membership = k → g.instance_ = x →
    g.collaborationId = c → (d.grants.row j = some g ↔ db.grants.row j = some g)) :
      d.grantAt k x c = db.grantAt k x c := by
  refine Option.ext fun r => ?_
  constructor
  · intro hr
    obtain ⟨hj, hk, hx, hc⟩ := h'.grantAt_eq_some.mp hr
    exact h.grantAt_eq_some.mpr ⟨(hsame _ _ hk hx hc).mp hj, hk, hx, hc⟩
  · intro hr
    obtain ⟨hj, hk, hx, hc⟩ := h.grantAt_eq_some.mp hr
    exact h'.grantAt_eq_some.mpr ⟨(hsame _ _ hk hx hc).mpr hj, hk, hx, hc⟩

/-- What one entry of an invite makes of the grant of its collaboration, and of the others. -/
theorem GrantsTidy.grantOne_at {invite : Option Pk} {i : Invite} {s u : DB × Bool} {ref : CollaborationRef}
    (h : s.1.GrantsTidy)
    (hok : DB.grantOne k invite (some i.createdBy) none i.mesh s ref = .ok u) :
    (upTo i [ref]).Widens ref.instance_ ref.collaboration (s.1.grantAt k ref.instance_ ref.collaboration)
        (u.1.grantAt k ref.instance_ ref.collaboration)
      ∧ ∀ k' x c, ¬ (k' = k ∧ ref.instance_ = x ∧ ref.collaboration = c) →
      u.1.grantAt k' x c = s.1.grantAt k' x c := by
  have h' := h.grantOne hok
  have hnames : (upTo i [ref]).Names ref.instance_ ref.collaboration := ⟨ref, List.mem_cons_self, rfl, rfl⟩
  have hgives : ∀ r, (upTo i [ref]).Gives ref.instance_ ref.collaboration r ↔ r ∈ ref.roles := by simp [upTo_gives]
  have hadds : ∀ (pk : Pk) (g : CollaborationGrant),
    (upTo i [ref]).Adds ref.instance_ ref.collaboration (some (pk, g))
      ↔ (unionRoles g.roles ref.roles != sortedSet g.roles || (i.mesh && !g.mesh)) = true := by
    intro pk g
    simp only [Invite.Adds, hnames, true_and, Option.mem_def, Option.some.injEq,
      forall_eq', hgives, Bool.or_eq_true,
      unionRoles_ne, Bool.and_eq_true, Bool.not_eq_true']
    exact Iff.rfl
  cases grantOne_gives hok with
  | made hnone ht =>
    have hold : s.1.grantAt k ref.instance_ ref.collaboration = none := hnone
    subst ht
    rw [hold, h'.grantAt_eq_some.mpr ⟨insert_row_next _ _, rfl, rfl, rfl⟩]
    refine ⟨⟨fun hnot => absurd ⟨hnames, by simp⟩ hnot,
      fun _ => ⟨_, rfl, by simp, by simp [hgives], by simp [upTo], rfl, by simp⟩⟩, fun k' x c hother => ?_⟩
    refine h.grantAt_congr h' fun j g hk hx hc => ?_
    rw [insert_row_eq_some]
    refine or_iff_right fun hnew => hother ?_
    obtain ⟨-, rfl⟩ := hnew
    exact ⟨hk.symm, hx, hc⟩
  | @widened pk g hgrant hwider =>
    have hold : s.1.grantAt k ref.instance_ ref.collaboration = some (pk, g) := hgrant
    obtain ⟨hrow, hk, hx, hc⟩ := h.grantAt_eq_some.mp hold
    rw [hold, h'.grantAt_eq_some.mpr ⟨modify_row_eq_some.mpr (.inr ⟨rfl, g, hrow, rfl⟩), hk, hx, hc⟩]
    refine ⟨⟨fun hnot => absurd ((hadds pk g).mpr hwider) hnot,
      fun _ => ⟨_, rfl, by simp, fun r => ?_, ?_, rfl, by simp⟩⟩,
      fun k' x c hother => ?_⟩
    · simp [unionRoles, hgives]
    · simp [upTo]
    · have hthis : ∀ g' : CollaborationGrant, g'.membership = k' → g'.instance_ = x → g'.collaborationId = c →
          g'.membership = g.membership → g'.instance_ = g.instance_ → g'.collaborationId ≠ g.collaborationId := by
        intro g' hk' hx' hc' hgk hgx hgc
        exact hother ⟨hk'.symm.trans (hgk.trans hk), (hx.symm.trans hgx.symm).trans hx',
          (hc.symm.trans hgc.symm).trans hc'⟩
      refine h.grantAt_congr h' fun j g' hk' hx' hc' => ?_
      rw [modify_row_eq_some]
      constructor
      · intro hj
        rcases hj with ⟨-, hj⟩ | ⟨rfl, g₀, hg₀, rfl⟩
        · exact hj
        · rw [hrow] at hg₀
          obtain rfl := Option.some.inj hg₀
          exact absurd rfl (hthis _ hk' hx' hc' rfl rfl)
      · intro hj
        refine .inl ⟨?_, hj⟩
        rintro rfl
        rw [hrow] at hj
        obtain rfl := Option.some.inj hj
        exact hthis _ hk' hx' hc' rfl rfl rfl
  | @kept pk g hgrant hsame =>
    have hold : s.1.grantAt k ref.instance_ ref.collaboration = some (pk, g) := hgrant
    rw [hold]
    exact ⟨⟨fun _ => rfl, fun hadd => absurd ((hadds pk g).mp hadd) hsame⟩, fun _ _ _ _ => rfl⟩

theorem GrantsTidy.foldlM_at {invite : Option Pk} {i : Invite} :
    ∀ {refs : List CollaborationRef} {s u : DB × Bool},
    s.1.GrantsTidy → refs.Pairwise (fun a b => ¬ SameKey a b) →
    refs.foldlM (DB.grantOne k invite (some i.createdBy) none i.mesh) s = .ok u →
    (∀ x c, (upTo i refs).Widens x c (s.1.grantAt k x c) (u.1.grantAt k x c))
      ∧ ∀ k' x c, k' ≠ k → u.1.grantAt k' x c = s.1.grantAt k' x c
  | [], s, u, _, _, hok => by
    obtain rfl := pure_ok.mp hok
    refine ⟨fun x c => ⟨fun _ => rfl, fun hadd => ?_⟩, fun _ _ _ _ => rfl⟩
    obtain ⟨ref, href, -⟩ := upTo_names.mp hadd.1
    cases href
  | ref :: refs, s, u, h, hapart, hok => by
    simp only [List.foldlM_cons, bind_ok] at hok
    obtain ⟨v, hv, hok⟩ := hok
    obtain ⟨hfirst, hapart⟩ := List.pairwise_cons.mp hapart
    obtain ⟨hone, hothers⟩ := h.grantOne_at hv
    obtain ⟨hrest, hrests⟩ := foldlM_at (h.grantOne hv) hapart hok
    refine ⟨fun x c => ?_, fun k' x c hk => ?_⟩
    · by_cases hkey : ref.instance_ = x ∧ ref.collaboration = c
      · obtain ⟨rfl, rfl⟩ := hkey
        have hno : ¬ (upTo i refs).Names ref.instance_ ref.collaboration := by
          intro hnames
          obtain ⟨ref', href', hx, hc⟩ := upTo_names.mp hnames
          exact hfirst ref' href' ⟨hx.symm, hc.symm⟩
        rw [(hrest ref.instance_ ref.collaboration).same fun hadd => hno hadd.1]
        refine hone.congr rfl rfl (by simp [upTo_names]) fun r => ?_
        constructor
        · intro hgives
          obtain ⟨ref', href', hkey, hr⟩ := upTo_gives.mp hgives
          rcases List.mem_cons.mp href' with rfl | href'
          · exact upTo_gives.mpr ⟨ref', List.mem_cons_self, hkey, hr⟩
          · exact absurd (upTo_names.mpr ⟨ref', href', hkey⟩) hno
        · intro hgives
          obtain ⟨ref', href', hkey, hr⟩ := upTo_gives.mp hgives
          obtain rfl := List.mem_singleton.mp href'
          exact upTo_gives.mpr ⟨ref', List.mem_cons_self, hkey, hr⟩
      · rw [← hothers k x c fun hsame => hkey hsame.2]
        exact (hrest x c).congr rfl rfl (DB.upTo_cons hkey).1 (DB.upTo_cons hkey).2
    · rw [hrests k' x c hk, hothers k' x c fun hsame => hk hsame.1]

theorem GrantsTidy.grantCollaborations_at {invite : Option Pk} {i : Invite} {entries : List CollaborationRef}
    {u : DB × Bool} (h : db.GrantsTidy) (hshared : i.sharedCollaborations = some entries)
    (hok : db.grantCollaborations k entries invite (some i.createdBy) none i.mesh = .ok u) :
    (∀ x c, i.Widens x c (db.grantAt k x c) (u.1.grantAt k x c))
      ∧ (∀ k' x c, k' ≠ k → u.1.grantAt k' x c = db.grantAt k' x c) ∧ ∃ x c, i.Names x c := by
  simp only [DB.grantCollaborations, bind_ok, Table.get_ok, require_ok, exists_unit, Bool.not_eq_true',
    List.isEmpty_eq_false_iff] at hok
  obtain ⟨m, -, -, hsome, -, hok⟩ := hok
  obtain ⟨hat, hothers⟩ := h.foldlM_at (mergeRefs_apart entries) hok
  refine ⟨fun x c => ?_, hothers, ?_⟩
  · obtain ⟨hnames, hgives⟩ := upTo_merged hshared (x := x) (c := c)
    exact (hat x c).congr rfl rfl hnames.symm fun r => (hgives r).symm
  · obtain ⟨ref, href⟩ := List.exists_mem_of_ne_nil _ hsome
    exact ⟨_, _, (upTo_merged hshared).1.mp (upTo_names.mpr ⟨ref, href, rfl, rfl⟩)⟩

theorem GrantsTidy.hasGrants_iff (h : db.GrantsTidy) :
    db.hasGrants k = true ↔ ∃ x c o, db.grantAt k x c = some o := by
  rw [DB.hasGrants_iff]
  constructor
  · intro hgrants
    obtain ⟨j, g, hj, hk⟩ := hgrants
    exact ⟨g.instance_, g.collaborationId, (j, g), h.grantAt_eq_some.mpr ⟨hj, hk, rfl, rfl⟩⟩
  · intro hat
    obtain ⟨x, c, o, ho⟩ := hat
    obtain ⟨hj, hk, -⟩ := h.grantAt_eq_some.mp ho
    exact ⟨o.1, o.2, hj, hk⟩

/-! ## Accepting -/

/-- What accepting an invite changes: the grants of the membership that accepts, which may be new. -/
structure Accepted (db d : DB) (k : Pk) (i : Invite) : Prop where
  now : d.now = db.now
  users : d.users = db.users
  roles : d.roles = db.roles
  instances : d.instances = db.instances
  widens : ∀ x c, i.Widens x c (db.grantAt k x c) (d.grantAt k x c)
  others : ∀ k' x c, k' ≠ k → d.grantAt k' x c = db.grantAt k' x c
  names : ∃ x c, i.Names x c
  member : ∃ m, d.memberships.row k = some m ∧ m.organization = i.createdFor
  memberships : d.memberships = db.memberships ∧ db.isScoped k = true
    ∨ db.memberships.row k = none ∧ (∀ x c, db.grantAt k x c = none)
      ∧ ∃ m, m.roles = [] ∧ d.memberships.row k = some m ∧ ∀ j, j ≠ k → d.memberships.row j = db.memberships.row j

theorem redeemInvite_accepted {pk user : Pk} {i : Invite} {r : DB × Pk} (htidy : db.GrantsTidy)
    (hlaws : db.GuestLaws)
    (hi : db.invites.row pk = some i) (hshared : i.sharedCollaborations.isSome = true)
    (hguest : ∀ k, db.IsMember user i.createdFor k → db.isScoped k = true)
    (hok : db.redeemInvite pk user = .ok r) :
    Accepted db r.1 r.2 i := by
  obtain ⟨entries, hentries⟩ := Option.isSome_iff_exists.mp hshared
  obtain ⟨d, u, v, hd, hgrant, hr, -⟩ :=
    redeemCollaborationInvite_gives (redeemInvite_collaborates hi hentries hguest hok)
  obtain ⟨r, k⟩ := r
  dsimp only at hd hgrant hr ⊢
  subst hr
  have hsame : d.grants = db.grants := (getOrCreateMembership_same hd).2
  have hat : ∀ k x c, d.grantAt k x c = db.grantAt k x c := fun _ _ _ => by unfold grantAt; rw [hsame]
  obtain ⟨hwidens, hothers, hnames⟩ := (htidy.same hsame).grantCollaborations_at hentries hgrant
  simp only [hat] at hwidens hothers
  rcases getOrCreateMembership_cases hd with ⟨rfl, hk⟩ | ⟨-, rfl, rfl⟩
  · obtain ⟨m, hm, -, hfor⟩ := id hk
    exact ⟨rfl, rfl, rfl, rfl, hwidens, hothers, hnames, ⟨m, hm, hfor⟩, .inl ⟨rfl, hguest k hk⟩⟩
  · refine ⟨rfl, rfl, rfl, rfl, hwidens, hothers, hnames, ⟨_, insert_row_next _ _, rfl⟩,
      .inr ⟨db.memberships.fresh _ (Nat.le_refl _), fun x c => ?_, _, rfl, insert_row_next _ _,
        fun j hj => insert_row_of_ne hj⟩⟩
    refine Option.eq_none_iff_forall_not_mem.mpr fun o ho => ?_
    obtain ⟨hj, hk, -⟩ := htidy.grantAt_eq_some.mp ho
    have hlt := hlaws.owned o.1 o.2 hj
    rw [hk] at hlt
    exact Nat.lt_irrefl _ hlt

section

variable {i : Invite} (h : Accepted db d k i)
include h

theorem Accepted.isScoped (hdb : db.GrantsTidy) (hd : d.GrantsTidy) :
    d.isScoped k = true ∧ ∀ j, j ≠ k → d.isScoped j = db.isScoped j := by
  constructor
  · obtain ⟨x, c, hnames⟩ := h.names
    obtain ⟨n, hn, -⟩ := (h.widens x c).gives hnames
    exact hd.hasGrants_iff.mpr ⟨x, c, n, hn⟩
  · intro j hj
    rw [Bool.eq_iff_iff, DB.isScoped, DB.isScoped, hd.hasGrants_iff, hdb.hasGrants_iff]
    simp only [h.others j _ _ hj]

theorem Accepted.isActiveFullMember (hdb : db.GrantsTidy) (hd : d.GrantsTidy) (organization user : Pk) :
    d.isActiveFullMember organization user = db.isActiveFullMember organization user := by
  obtain ⟨hscoped, hothers⟩ := h.isScoped hdb hd
  unfold DB.isActiveFullMember
  rw [h.users]
  congr 1
  rw [Bool.eq_iff_iff, exists?_eq_true, exists?_eq_true]
  refine exists_congr fun j => exists_congr fun m => ?_
  by_cases hj : j = k
  · subst hj
    rcases h.memberships with ⟨hsame, hbefore⟩ | ⟨hbefore, -⟩
    · simp [hsame, hscoped, hbefore]
    · simp [hscoped, hbefore]
  · rw [hothers j hj]
    rcases h.memberships with ⟨hsame, -⟩ | ⟨-, -, _, -, -, hsame⟩
    · rw [hsame]
    · rw [hsame j hj]

theorem Accepted.rolesHeld (organization user : Pk) (r : String) :
    r ∈ d.rolesHeld organization user ↔ r ∈ db.rolesHeld organization user := by
  unfold DB.rolesHeld
  rw [h.roles]
  simp only [List.mem_flatMap, Prod.exists, mem_filter]
  refine exists_congr fun j => exists_congr fun m => ?_
  rcases h.memberships with ⟨hsame, -⟩ | ⟨hbefore, -, m', hroles, hrow, hsame⟩
  · rw [hsame]
  · by_cases hj : j = k
    · subst hj
      rw [hbefore, hrow]
      constructor
      · intro hin
        obtain ⟨⟨heq, -⟩, hin⟩ := hin
        obtain rfl := Option.some.inj heq
        simp [hroles] at hin
      · intro hin
        cases hin.1.1
    · rw [hsame j hj]

theorem Accepted.grantLives (hdb : db.GrantsTidy) (hd : d.GrantsTidy) (organization : Pk)
    (g : CollaborationGrant) :
    d.grantLives organization g = db.grantLives organization g := by
  have hactive : d.isActiveFullMember organization = db.isActiveFullMember organization :=
    funext (h.isActiveFullMember hdb hd organization)
  rw [DB.grantLives, DB.grantLives, h.now, hactive]

end

/-! ## What a token lists -/

def nameOf (db : DB) (x : Pk) : Option String := (db.instances.row x).map (·.instanceId)

/-- The roles of a grant that its granter holds now. -/
def cut (db : DB) (organization : Pk) (g : CollaborationGrant) : List String :=
  sortedSet (g.roles.filter (g.grantedBy.elim [] (db.rolesHeld organization)).contains)

/-- The dict that `live_collaborations` makes of its entries: of two under one name and id the later stays. -/
def collabs (db : DB) (k : Pk) (instances : List Pk) (name c : String) : Option (List String) :=
  ((db.liveCollaborations k instances).filter fun e => e.1 == name && e.2.1 == c).getLast?.map (·.2.2)

/-- The grant is listed under the name and the id. -/
def listedAs (db : DB) (organization k : Pk) (instances : List Pk) (name c : String) (g : CollaborationGrant) :
    Bool :=
  g.membership == k && db.grantLives organization g && instances.contains g.instance_
    && (db.nameOf g.instance_ == some name && g.collaborationId == c)

theorem collabs_eq_none (h : db.memberships.row k = none) (instances : List Pk) (name c : String) :
    db.collabs k instances name c = none := by
  unfold collabs liveCollaborations
  rw [h]
  rfl

theorem GrantsTidy.collabs (h : db.GrantsTidy) {m : Membership} (hm : db.memberships.row k = some m)
    (instances : List Pk)
    (name c : String) : db.collabs k instances name c
      = (db.grants.filter fun _ g => db.listedAs m.organization k instances name c g).getLast?.map
      fun g => db.cut m.organization g.2 := by
  have hentries : ∀ grants : List (Pk × CollaborationGrant),
      (grants.filterMap fun g => (db.instances.row g.2.instance_).map fun i =>
          (i.instanceId, g.2.collaborationId, db.cut m.organization g.2)).filter
            (fun e => e.1 == name && e.2.1 == c)
        = (grants.filter fun g => db.nameOf g.2.instance_ == some name && g.2.collaborationId == c).map fun g =>
          (name, c, db.cut m.organization g.2) := by
    intro grants
    induction grants with
    | nil => rfl
    | cons g grants ih =>
      cases hrow : db.instances.row g.2.instance_ with
      | none => simpa [nameOf, hrow] using ih
      | some y =>
        by_cases hname : y.instanceId = name <;> by_cases hc : g.2.collaborationId = c <;>
          simpa [nameOf, hrow, hname, hc] using ih
  have hfew : ((db.liveGrants k).filter fun g => instances.contains g.2.instance_).length
    ≤ maxGrantsPerMembership := by
    refine Nat.le_trans (List.length_filter_le _ _) ?_
    unfold liveGrants
    rw [hm]
    refine Nat.le_trans (Table.count_le fun j g hj hp => ⟨g, hj, ?_⟩) (h.few k)
    simp only [Bool.and_eq_true] at hp
    exact hp.1
  have hlisted : (db.liveCollaborations k instances).filter (fun e => e.1 == name && e.2.1 == c)
      = (db.grants.filter fun _ g => db.listedAs m.organization k instances name c g).map fun g =>
        (name, c, db.cut m.organization g.2) := by
    unfold liveCollaborations
    simp only [hm]
    rw [List.take_of_length_le hfew]
    refine (hentries _).trans (congrArg _ ?_)
    simp only [liveGrants, hm, Table.filter, List.filter_filter, listedAs]
    refine List.filter_congr fun g _ => ?_
    simp only [Bool.and_comm, Bool.and_left_comm]
  unfold DB.collabs
  rw [hlisted, List.getLast?_map, Option.map_map]
  rfl

theorem GrantsTidy.listed (h : db.GrantsTidy) {organization j : Pk} {instances : List Pk} {name : String}
    {g : CollaborationGrant} :
    db.grants.row j = some g ∧ db.listedAs organization k instances name c g = true
      ↔ db.grantAt k g.instance_ c = some (j, g) ∧ db.grantLives organization g = true ∧ g.instance_ ∈ instances
        ∧ db.nameOf g.instance_ = some name := by
  simp only [h.grantAt_eq_some, listedAs, Bool.and_eq_true, beq_iff_eq, List.contains_iff_mem, true_and]
  constructor
  · intro hlisted
    obtain ⟨hj, ⟨⟨hk, hlives⟩, hin⟩, hname, hc⟩ := hlisted
    exact ⟨⟨hj, hk, hc⟩, hlives, hin, hname⟩
  · intro hat
    obtain ⟨⟨hj, hk, hc⟩, hlives, hin, hname⟩ := hat
    exact ⟨hj, ⟨⟨hk, hlives⟩, hin⟩, hname, hc⟩

theorem GrantsTidy.mem_listed (h : db.GrantsTidy) {organization : Pk} {instances : List Pk} {name : String}
    {o : Pk × CollaborationGrant} : (o ∈ db.grants.filter fun _ g => db.listedAs organization k instances name c g)
      ↔ db.grantAt k o.2.instance_ c = some o ∧ db.grantLives organization o.2 = true ∧ o.2.instance_ ∈ instances
        ∧ db.nameOf o.2.instance_ = some name :=
  mem_filter.trans h.listed

theorem GrantsTidy.collabs_one (h : db.GrantsTidy) {m : Membership} (hm : db.memberships.row k = some m)
    {name : String} {roles : List String} : db.collabs k [x] name c = some roles ↔ db.nameOf x = some name
      ∧ ∃ o, db.grantAt k x c = some o ∧ db.grantLives m.organization o.2 = true
      ∧ db.cut m.organization o.2 = roles := by
  rw [h.collabs hm, Option.map_eq_some_iff]
  constructor
  · intro hlast
    obtain ⟨o, ho, hroles⟩ := hlast
    obtain ⟨hat, hlives, hx, hname⟩ := h.mem_listed.mp (List.mem_of_getLast? ho)
    obtain hx := List.mem_singleton.mp hx
    rw [hx] at hat hname
    exact ⟨hname, o, hat, hlives, hroles⟩
  · intro hat
    obtain ⟨hname, o, hat, hlives, hroles⟩ := hat
    obtain ⟨-, -, rfl, -⟩ := h.grantAt_eq_some.mp hat
    have hin := h.mem_listed.mpr ⟨hat, hlives, List.mem_singleton_self _, hname⟩
    cases hlast : (db.grants.filter fun _ g => db.listedAs m.organization k [o.2.instance_] name c g).getLast? with
    | none =>
      rw [List.getLast?_eq_none_iff.mp hlast] at hin
      cases hin
    | some o' =>
      obtain ⟨hat', -, hx, -⟩ := h.mem_listed.mp (List.mem_of_getLast? hlast)
      rw [List.mem_singleton.mp hx, hat] at hat'
      cases hat'
      exact ⟨_, rfl, hroles⟩

/-- Over several instances each name lists what one of them lists alone. -/
def ListsEach (db : DB) (k : Pk) : Prop := ∀ instances name c,
  (db.collabs k instances name c = none ↔ ∀ x ∈ instances, db.collabs k [x] name c = none)
    ∧ ∀ roles, db.collabs k instances name c = some roles → ∃ x ∈ instances, db.collabs k [x] name c = some roles

theorem GrantsTidy.listsEach (h : db.GrantsTidy) (k : Pk) : db.ListsEach k := by
  intro instances name c
  cases hm : db.memberships.row k with
  | none => simp [collabs_eq_none hm]
  | some m =>
    have hone : ∀ roles, db.collabs k instances name c = some roles →
      ∃ x ∈ instances, db.collabs k [x] name c = some roles := by
      intro roles hroles
      rw [h.collabs hm, Option.map_eq_some_iff] at hroles
      obtain ⟨o, ho, hroles⟩ := hroles
      obtain ⟨hat, hlives, hx, hname⟩ := h.mem_listed.mp (List.mem_of_getLast? ho)
      exact ⟨_, hx, (h.collabs_one hm).mpr ⟨hname, o, hat, hlives, hroles⟩⟩
    refine ⟨⟨fun hnone x hx => ?_, fun hnone => ?_⟩, hone⟩
    · rw [h.collabs hm, Option.map_eq_none_iff, List.getLast?_eq_none_iff] at hnone
      refine Option.eq_none_iff_forall_ne_some.mpr fun roles hroles => ?_
      obtain ⟨hname, o, hat, hlives, -⟩ := (h.collabs_one hm).mp hroles
      obtain ⟨-, -, rfl, -⟩ := h.grantAt_eq_some.mp hat
      have hin := h.mem_listed.mpr ⟨hat, hlives, hx, hname⟩
      rw [hnone] at hin
      cases hin
    · refine Option.eq_none_iff_forall_ne_some.mpr fun roles hroles => ?_
      obtain ⟨x, hx, hroles⟩ := hone roles hroles
      rw [hnone x hx] at hroles
      cases hroles

section

variable {i : Invite} (h : Accepted db d k i)
include h

theorem Accepted.nameOf (x : Pk) : d.nameOf x = db.nameOf x := by
  unfold DB.nameOf
  rw [h.instances]

theorem Accepted.cut (organization : Pk) (g : CollaborationGrant) :
    d.cut organization g = db.cut organization g := by
  refine sortedSet_congr fun r => ?_
  cases hby : g.grantedBy with
  | none => rfl
  | some b => simp [h.rolesHeld organization b r]

theorem Accepted.kept (hdb : db.GrantsTidy) (hd : d.GrantsTidy) {instances : List Pk} {name : String}
    (hnot : ∀ x ∈ instances, db.nameOf x = some name → ¬ i.Adds x c (db.grantAt k x c)) :
    d.collabs k instances name c = db.collabs k instances name c := by
  obtain ⟨m, hm, -⟩ := h.member
  have hlisted : ∀ j g, d.grants.row j = some g ∧ d.listedAs m.organization k instances name c g = true
      ↔ db.grants.row j = some g ∧ db.listedAs m.organization k instances name c g = true := by
    intro j g
    rw [hd.listed, hdb.listed, h.grantLives hdb hd, h.nameOf]
    refine and_congr_left fun hin => ?_
    rw [(h.widens g.instance_ c).same (hnot _ hin.2.1 hin.2.2)]
  have hlist := filter_congr hlisted
  rw [hd.collabs hm, hlist]
  simp only [h.cut]
  rcases h.memberships with ⟨hsame, -⟩ | ⟨hbefore, hnone, -⟩
  · rw [hdb.collabs (hsame ▸ hm)]
  · rw [collabs_eq_none hbefore, Option.map_eq_none_iff, List.getLast?_eq_none_iff]
    refine List.eq_nil_iff_forall_not_mem.mpr fun o ho => ?_
    have hat := (hdb.mem_listed.mp ho).1
    rw [hnone] at hat
    cases hat

end

/-! ## What accepting does -/

def Unexpired (db : DB) (old : Option (Pk × CollaborationGrant)) : Prop :=
  ∀ o ∈ old, ∀ t, o.2.expiresAt = some t → db.now < t

/-- What accepting an invite does to what a membership holds, and to what its tokens list. -/
structure Widened (db d : DB) (k : Pk) (i : Invite) : Prop where
  grows : ∀ x c, ∀ o ∈ db.grantAt k x c, ∃ n ∈ d.grantAt k x c,
    (∀ r ∈ o.2.roles, r ∈ n.2.roles) ∧ (o.2.mesh = true → n.2.mesh = true)
  gives : ∀ x c, i.Names x c → ∃ n ∈ d.grantAt k x c,
    (∀ r, i.Gives x c r → r ∈ n.2.roles) ∧ (i.mesh = true → n.2.mesh = true)
  /-- Under a name where nothing is added the same is listed. -/
  kept : ∀ instances name c, (∀ x ∈ instances, db.nameOf x = some name → ¬ i.Adds x c (db.grantAt k x c)) →
    d.collabs k instances name c = db.collabs k instances name c
  /-- A grant that is made or grows is listed with the roles that the invite's creator holds. -/
  listed : ∀ x name c, db.nameOf x = some name → i.Adds x c (db.grantAt k x c) → db.Unexpired (db.grantAt k x c) →
    d.isActiveFullMember i.createdFor i.createdBy = true → ∃ roles, d.collabs k [x] name c = some roles
      ∧ ∀ r, r ∈ roles ↔ ((∃ o ∈ db.grantAt k x c, r ∈ o.2.roles) ∨ i.Gives x c r) ∧ r ∈ d.rolesHeld
        i.createdFor i.createdBy
  unlisted : ∀ x name c, i.Adds x c (db.grantAt k x c) → d.isActiveFullMember i.createdFor i.createdBy = false →
    d.collabs k [x] name c = none
  /-- What was listed still is, unless it goes to a granter who does not hold its roles. -/
  still : ∀ x name c roles, db.collabs k [x] name c = some roles →
    ((∃ roles', d.collabs k [x] name c = some roles' ∧ ∀ r ∈ roles, r ∈ roles')
      ↔ (i.Adds x c (db.grantAt k x c) → d.isActiveFullMember i.createdFor i.createdBy = true
        ∧ ∀ r ∈ roles, r ∈ d.rolesHeld i.createdFor i.createdBy))
  several : db.ListsEach k ∧ d.ListsEach k

theorem grantLives_iff {organization : Pk} {g : CollaborationGrant} : db.grantLives organization g = true
    ↔ (∀ t, g.expiresAt = some t → db.now < t) ∧ ∃ b, g.grantedBy = some b
    ∧ db.isActiveFullMember organization b = true := by
  simp [grantLives, Option.all_eq_true, Option.any_eq_true]

theorem mem_cut {organization b : Pk} {g : CollaborationGrant} (hby : g.grantedBy = some b) {r : String} :
    r ∈ db.cut organization g ↔ r ∈ g.roles ∧ r ∈ db.rolesHeld organization b := by
  simp [cut, hby]

section

variable {i : Invite} (h : Accepted db d k i)
include h

theorem Accepted.grown (hadd : i.Adds x c (db.grantAt k x c)) : ∃ n, d.grantAt k x c = some n
    ∧ (d.grantLives i.createdFor n.2 = true ↔ db.Unexpired (db.grantAt k x c) ∧ d.isActiveFullMember i.createdFor
      i.createdBy = true)
    ∧ ∀ r, r ∈ d.cut i.createdFor n.2
      ↔ ((∃ o ∈ db.grantAt k x c, r ∈ o.2.roles) ∨ i.Gives x c r) ∧ r ∈ d.rolesHeld i.createdFor i.createdBy := by
  obtain ⟨n, hn, -, hroles, -, hby, hexpires⟩ := (h.widens x c).grown hadd
  refine ⟨n, hn, ?_, fun r => by rw [mem_cut hby, hroles]⟩
  rw [grantLives_iff, hby, h.now]
  refine and_congr ⟨fun hall o ho t ht => ?_, fun hall t ht => ?_⟩ (by simp)
  · exact hall t ((hexpires t).mpr ⟨o, ho, ht⟩)
  · obtain ⟨o, ho, ht⟩ := (hexpires t).mp ht
    exact hall o ho t ht

theorem Accepted.collabs_one (hd : d.GrantsTidy) {name : String} {roles : List String} :
    d.collabs k [x] name c = some roles
    ↔ db.nameOf x = some name ∧ ∃ n, d.grantAt k x c = some n ∧ d.grantLives i.createdFor n.2 = true
      ∧ d.cut i.createdFor n.2 = roles := by
  obtain ⟨m, hm, hfor⟩ := h.member
  rw [hd.collabs_one hm, hfor, h.nameOf]

theorem Accepted.still (hdb : db.GrantsTidy) (hd : d.GrantsTidy) {name : String} {roles : List String}
    (hroles : db.collabs k [x] name c = some roles) :
    (∃ roles', d.collabs k [x] name c = some roles' ∧ ∀ r ∈ roles, r ∈ roles')
      ↔ (i.Adds x c (db.grantAt k x c) → d.isActiveFullMember i.createdFor i.createdBy = true
        ∧ ∀ r ∈ roles, r ∈ d.rolesHeld i.createdFor i.createdBy) := by
  by_cases hadd : i.Adds x c (db.grantAt k x c)
  · obtain ⟨m, hm⟩ : ∃ m, db.memberships.row k = some m := by
      cases hrow : db.memberships.row k with
      | some m => exact ⟨m, rfl⟩
      | none =>
        rw [collabs_eq_none hrow] at hroles
        cases hroles
    obtain ⟨hname, o, ho, hlives, rfl⟩ := (hdb.collabs_one hm).mp hroles
    obtain ⟨n, hn, hgrown, hmem⟩ := h.grown hadd
    constructor
    · intro hlisted _
      obtain ⟨roles', hroles', hsub⟩ := hlisted
      obtain ⟨-, n', hn', hlives', rfl⟩ := (h.collabs_one hd).mp hroles'
      rw [hn] at hn'
      cases hn'
      exact ⟨(hgrown.mp hlives').2, fun r hr => ((hmem r).mp (hsub r hr)).2⟩
    · intro hholds
      obtain ⟨hactive, hheld⟩ := hholds hadd
      have hunexpired : db.Unexpired (db.grantAt k x c) := by
        intro o' ho' t ht
        rw [ho] at ho'
        cases ho'
        exact (grantLives_iff.mp hlives).1 t ht
      refine ⟨_, (h.collabs_one hd).mpr ⟨hname, n, hn, hgrown.mpr ⟨hunexpired, hactive⟩, rfl⟩, fun r hr => ?_⟩
      have hown : r ∈ o.2.roles := (List.mem_filter.mp (mem_sortedSet.mp hr)).1
      exact (hmem r).mpr ⟨.inl ⟨o, ho, hown⟩, hheld r hr⟩
  · have hsame : d.collabs k [x] name c = db.collabs k [x] name c := h.kept hdb hd fun x' hx' _ => by
      rw [List.mem_singleton.mp hx']
      exact hadd
    rw [hsame]
    exact ⟨fun _ hadd' => absurd hadd' hadd, fun _ => ⟨roles, hroles, fun _ => id⟩⟩

theorem Accepted.widened (hdb : db.GrantsTidy) (hd : d.GrantsTidy) : Widened db d k i := by
  refine ⟨fun x c o ho => ?_, fun x c => (h.widens x c).gives, fun instances name c => h.kept hdb hd,
    fun x name c hname hadd hunexpired hactive => ?_, fun x name c hadd hgone => ?_,
      fun x name c roles => h.still hdb hd,
    hdb.listsEach k, hd.listsEach k⟩
  · obtain ⟨n, hn, -, hgrew⟩ := (h.widens x c).grows ho
    exact ⟨n, hn, hgrew⟩
  · obtain ⟨n, hn, hgrown, hmem⟩ := h.grown hadd
    exact ⟨_, (h.collabs_one hd).mpr ⟨hname, n, hn, hgrown.mpr ⟨hunexpired, hactive⟩, rfl⟩, hmem⟩
  · obtain ⟨n, hn, hgrown, -⟩ := h.grown hadd
    refine Option.eq_none_iff_forall_ne_some.mpr fun roles hroles => ?_
    obtain ⟨-, n', hn', hlives, -⟩ := (h.collabs_one hd).mp hroles
    rw [hn] at hn'
    cases hn'
    rw [(hgrown.mp hlives).2] at hgone
    cases hgone

end

end DB

/-- A guest, or someone new, who accepts a collaboration invite loses nothing that is stored and gets all
the invite gives. What a token lists of it is what the creator of the last invite that added something holds
now. -/
theorem accepted_invite_widens {env : Env} {db : DB} {invite user : Pk} {i : Invite} {r : DB × Pk}
    (hr : Reachable env db)
    (hi : db.invites.row invite = some i) (hshared : i.sharedCollaborations.isSome = true)
    (hguest : ∀ k, db.IsMember user i.createdFor k → db.isScoped k = true)
    (hok : db.redeemInvite invite user = .ok r) :
    Widened db r.1 r.2 i := by
  have hlater : Reachable env r.1 :=
    hr.step (a := .redeemInvite invite user) (by simp [Lok.step, hok, DB.settle, Except.map])
  exact (redeemInvite_accepted hr.grantsTidy hr.guestLaws hi hshared hguest hok).widened hr.grantsTidy
    hlater.grantsTidy

/-- Carol is a guest, or no member yet, and accepts the invite. -/
def Accepts (as : List Action) (invite : Pk) (i : Invite) (r : DB × Pk) : Prop :=
  (run plainEnv .empty as).invites.row invite = some i ∧ i.sharedCollaborations.isSome = true
    ∧ (∀ k, (run plainEnv .empty as).IsMember 2 i.createdFor k → (run plainEnv .empty as).isScoped k = true)
    ∧ (run plainEnv .empty as).redeemInvite invite 2 = .ok r

theorem exists_accepts (as : List Action) (invite : Pk) {p : DB × Pk → Bool} {q : Invite → Bool}
    (hi : ((run plainEnv .empty as).invites.row invite).any (fun i => i.sharedCollaborations.isSome && q i) = true)
    (hguest : (run plainEnv .empty as).memberships.rows.all
      (fun m => !(m.2.user == 2) || (run plainEnv .empty as).isScoped m.1) = true)
    (hok : ((run plainEnv .empty as).redeemInvite invite 2).toOption.any p = true) :
    ∃ i r, Accepts as invite i r ∧ q i = true ∧ p r = true := by
  obtain ⟨i, hi, hshared⟩ := (Option.any_eq_true _ _).mp hi
  obtain ⟨r, hr, hp⟩ := exists_ok_and hok
  obtain ⟨hshared, hq⟩ := (Bool.and_eq_true _ _).mp hshared
  refine ⟨i, r, ⟨hi, hshared, fun k hk => ?_, hr⟩, hq, hp⟩
  obtain ⟨m, hm, huser, -⟩ := hk
  simpa [huser] using List.all_eq_true.mp hguest (k, m) (mem_rows.mpr hm)

/-- Ann, an admin, invites Carol as one, and Bob, an editor, invites her to the same collaboration to edit. -/
def narrowed : List Action := widened.take 9 ++
  [.createInvite 0 0 none [] (some [⟨0, "c", ["admin"]⟩]) none false, .redeemInvite 0 2,
   .createInvite 1 0 none [] (some [⟨0, "c", ["editor"]⟩]) none false]

/-- Carol accepts Bob's invite too: she holds both roles then, and her tokens list the one that Bob holds. -/
theorem accepted_invite_widens_narrowed :
    ∃ i r, Accepts narrowed 1 i r ∧ Widened (run plainEnv .empty narrowed) r.1 r.2 i
    ∧ (∃ n ∈ r.1.grantAt r.2 0 "c", n.2.roles = ["admin", "editor"])
    ∧ r.1.collabs r.2 [0] "data" "c" = some ["editor"] := by
  obtain ⟨i, r, ha, -, hp⟩ := exists_accepts narrowed 1 (q := fun _ => true)
    (p := fun r => (r.1.grantAt r.2 0 "c").any (·.2.roles == ["admin", "editor"]) && r.1.collabs r.2
      [0] "data" "c" == some ["editor"])
    (by decide +kernel) (by decide +kernel) (by decide +kernel)
  simp only [Bool.and_eq_true, beq_iff_eq, Option.any_eq_true] at hp
  exact ⟨i, r, ha, accepted_invite_widens (reachable_run plainEnv _) ha.1 ha.2.1 ha.2.2.1 ha.2.2.2, hp⟩

/-- Nothing that was listed is lost, and what the invite gives is listed as far as its creator holds it. -/
def DB.OnlyAdds (db d : DB) (k : Pk) (i : Invite) : Prop :=
  (∀ instances name c roles, db.collabs k instances name c = some roles →
    ∃ roles', d.collabs k instances name c = some roles' ∧ ∀ r ∈ roles, r ∈ roles')
  ∧ (d.isActiveFullMember i.createdFor i.createdBy = true → ∀ x c, i.Names x c → ∀ instances name, x ∈ instances →
    d.nameOf x = some name → ∃ roles, d.collabs k instances name c = some roles
      ∧ ∀ r, i.Gives x c r → r ∈ d.rolesHeld i.createdFor i.createdBy → r ∈ roles)

/-- What Carol was granted has expired, and Ann invites her to the same collaboration as an admin. -/
def lapsed : List Action := widened.take 9 ++
  [.createMembership 2 0, .grantCollaborations 2 [⟨0, "c", ["editor"]⟩] none (some 0) (some 5) false, .tick 10,
   .createInvite 0 0 none [] (some [⟨0, "c", ["admin"]⟩]) none false]

/-- Bob let Carol in to edit and left, and Ann invites her to the same. -/
def abandoned : List Action := widened.take 9 ++
  [.createInvite 1 0 none [] (some [⟨0, "c", ["editor"]⟩]) none false, .redeemInvite 0 2, .delete .membership [1],
   .createInvite 0 0 none [] (some [⟨0, "c", ["editor"]⟩]) none false]

/-- Ann gives the collaboration and is a member, and Carol's tokens do not list it. -/
theorem not_onlyAdds_of_unlisted {as : List Action} {invite : Pk}
    (h : ∃ i r, Accepts as invite i r
      ∧ (i.createdFor == 0 && i.createdBy == 0
        && (i.sharedCollaborations.getD []).any fun ref => ref.instance_ == 0 && ref.collaboration == "c") = true
      ∧ (r.1.isActiveFullMember 0 0 && r.1.nameOf 0 == some "data"
        && r.1.collabs r.2 [0] "data" "c" == none) = true) :
    ∃ i r, Accepts as invite i r ∧ ¬ OnlyAdds (run plainEnv .empty as) r.1 r.2 i := by
  obtain ⟨i, r, ha, hi, hr⟩ := h
  simp only [Bool.and_eq_true, beq_iff_eq, List.any_eq_true] at hi hr
  obtain ⟨⟨hfor, hby⟩, hnames⟩ := hi
  obtain ⟨⟨hactive, hname⟩, hnone⟩ := hr
  refine ⟨i, r, ha, fun h => ?_⟩
  obtain ⟨roles, hroles, -⟩ := h.2 (by rw [hfor, hby]; exact hactive) 0 "c" hnames [0] "data" (by simp) hname
  rw [hnone] at hroles
  cases hroles

/-- Carol's tokens list less than before; or they do not list what Ann gives, who is a member and holds it. -/
theorem accepted_invite_does_not_only_add :
    (∃ i r, Accepts narrowed 1 i r ∧ ¬ OnlyAdds (run plainEnv .empty narrowed) r.1 r.2 i)
      ∧ (∃ i r, Accepts lapsed 0 i r ∧ ¬ OnlyAdds (run plainEnv .empty lapsed) r.1 r.2 i)
      ∧ ∃ i r, Accepts abandoned 1 i r ∧ ¬ OnlyAdds (run plainEnv .empty abandoned) r.1 r.2 i := by
  refine ⟨?_, not_onlyAdds_of_unlisted
    (exists_accepts lapsed 0 (by decide +kernel) (by decide +kernel) (by decide +kernel)),
    not_onlyAdds_of_unlisted (exists_accepts abandoned 1 (by decide +kernel) (by decide +kernel)
      (by decide +kernel))⟩
  obtain ⟨i, r, ha, -, hp⟩ := exists_accepts narrowed 1 (q := fun _ => true)
    (p := fun r => (run plainEnv .empty narrowed).collabs r.2 [0] "data" "c" == some ["admin"]
      && r.1.collabs r.2 [0] "data" "c" == some ["editor"])
    (by decide +kernel) (by decide +kernel) (by decide +kernel)
  simp only [Bool.and_eq_true, beq_iff_eq] at hp
  refine ⟨i, r, ha, fun h => ?_⟩
  obtain ⟨roles, hroles, hsub⟩ := h.1 [0] "data" "c" ["admin"] hp.1
  rw [hp.2] at hroles
  cases hroles
  simpa using hsub "admin" (by simp)

end Lok
