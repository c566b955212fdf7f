import Mathlib.Data.List.Pairwise
import Lok.InviteRaces
import Lok.Vouching

/-!
# What invites gave

A guest accepts collaboration invites, and invites are revoked. A grant remembers one invite: the one that
made it, or the last that widened it. So a revocation takes back what the invite gave, no more and no less,
as long as no two invites the guest accepted name the same collaboration.
-/

namespace Lok

open Table Runs Checks

namespace DB

variable {db d : DB}

/-! ## Deleting grants -/

theorem removeMembership_grants {k : Pk} (h : db.hasGrants k = false) :
    (db.removeCascade [⟨.membership, k⟩]).grants = db.grants := by
  have hne : ∀ r ∈ db.collect [⟨.membership, k⟩], r.model ≠ .user ∧ r.model ≠ .invite := by
    intro r hr
    have hwithin := collect_withMemberships (by simp) hr
    constructor <;> intro heq <;> rw [heq] at hwithin <;> simp [withMemberships] at hwithin
  have hstays : ∀ j g, db.grants.row j = some g → (⟨.grant, j⟩ : Ref) ∉ db.collect [⟨.membership, k⟩] := by
    intro j g hj hgone
    have hin := collect_memberships (by simp) (collect_grants (by simp) hj hgone)
    have hgrants := hasGrants_iff.mpr ⟨j, g, hj, by simpa using hin⟩
    rw [h] at hgrants
    cases hgrants
  simp only [removeCascade, remove]
  rw [update_eq_self fun _ _ _ =>
    by rw [keepOpt_eq_self fun r hr => (hne r hr).2, keepOpt_eq_self fun r hr => (hne r hr).1]]
  refine Table.ext rfl fun j => ?_
  cases hj : db.grants.row j with
  | none => simp [keep, hj]
  | some g => simp [keep, hj, keeps, hstays j g hj]

theorem dropMembershipWithoutGrants_grants (origin : Model) (upgrading : Option Pk) (k : Pk) :
    (db.dropMembershipWithoutGrants origin upgrading k).grants = db.grants := by
  unfold dropMembershipWithoutGrants
  split
  · rfl
  · split
    · rfl
    · split
      · rfl
      · split
        · rename_i hdrops
          exact removeMembership_grants
            (by simp only [Bool.and_eq_true, Bool.not_eq_true'] at hdrops; exact hdrops.1)
        · rfl

theorem deleteGrant_grants (db : DB) (grant k : Pk) : (db.delete .grant [⟨.grant, grant⟩] none).grants.row k
    = if k = grant then none else db.grants.row k := by
  have hhubs : (db.hubs.filter fun pk _ => (db.collect [⟨.grant, grant⟩]).contains ⟨.hub, pk⟩) = [] := by
    refine List.eq_nil_iff_forall_not_mem.mpr fun x hx => ?_
    cases collect_grant (by simpa using (mem_filter.mp hx).2 : (⟨.hub, x.1⟩ : Ref) ∈ db.collect [⟨.grant, grant⟩])
  unfold delete
  extract_lets gone grants hubs adminRoles held db₁ db₂
  have hdb₁ : db₁.grants = (db.removeCascade [⟨.grant, grant⟩]).grants := rfl
  have hdb₂ : db₂.grants = db₁.grants :=
    foldl_invariant (P := fun d : DB => d.grants = db₁.grants)
      (fun g _ d hd => (dropMembershipWithoutGrants_grants .grant none g.2.membership).trans hd) rfl
  rw [show hubs = [] from hhubs, List.foldl_nil, hdb₂, hdb₁, (remove_grant_ungranted db grant).grants]
  simp

theorem deleteGrants_grants : ∀ (grants : List Pk) (db : DB) (k : Pk),
    (db.deleteGrants grants none).grants.row k = if k ∈ grants then none else db.grants.row k
  | [], db, k => by simp [deleteGrants]
  | grant :: grants, db, k => by
    have hrest := deleteGrants_grants grants (db.delete .grant [⟨.grant, grant⟩] none) k
    show ((db.delete .grant [⟨.grant, grant⟩] none).deleteGrants grants none).grants.row k = _
    rw [hrest, deleteGrant_grants]
    by_cases hk : k = grant <;> by_cases hin : k ∈ grants <;> simp [hk, hin]

theorem deleteGrants_shrinks (grants : List Pk) (db : DB) : Shrinks db (db.deleteGrants grants none) :=
  foldl_invariant (P := fun d : DB => Shrinks db d) (fun _ _ _ hd => hd.trans (delete_shrinks _ _ _ _)) (.refl db)

theorem deleteGrants_member :
    ∀ (grants : List Pk) (db : DB) {k : Pk}, (db.deleteGrants grants none).hasGrants k = true →
    db.has ⟨.membership, k⟩ → (db.deleteGrants grants none).has ⟨.membership, k⟩
  | [], _, _, _, h => h
  | grant :: grants, db, k, hleft, h => by
    refine deleteGrants_member grants (db.delete .grant [⟨.grant, grant⟩] none) hleft ?_
    obtain ⟨j, g, hj, rfl⟩ := hasGrants_iff.mp (hasGrants_of_shrinks (deleteGrants_shrinks grants _) hleft)
    refine delete_target (x := ⟨.grant, j⟩) ?_ h
    simp [hangsOn, hj, CollaborationGrant.hangsOn]

/-! ## The grants of a guest -/

/-- The grant is what the invite gave. -/
structure GivenBy (g : CollaborationGrant) (gift : Pk × Invite) : Prop where
  through : g.grantedThrough = some gift.1
  names : gift.2.Names g.instance_ g.collaborationId
  roles : ∀ r, r ∈ g.roles ↔ gift.2.Gives g.instance_ g.collaborationId r
  mesh : g.mesh = gift.2.mesh

/-- The grants of the membership are what the invites gave, one each for what an invite names. -/
structure HoldsGifts (db : DB) (k : Pk) (gifts : List (Pk × Invite)) : Prop where
  given : ∀ j g, db.grants.row j = some g → g.membership = k → ∃ gift ∈ gifts, GivenBy g gift
  kept : ∀ gift ∈ gifts, ∀ x c, gift.2.Names x c → ∃ j g, db.grants.row j = some g ∧ g.membership = k
    ∧ g.instance_ = x ∧ g.collaborationId = c ∧ GivenBy g gift
  unique : ∀ i j g h, db.grants.row i = some g → db.grants.row j = some h → g.membership = k → h.membership = k →
    g.instance_ = h.instance_ → g.collaborationId = h.collaborationId → i = j

theorem HoldsGifts.hasGrants {k : Pk} {gifts : List (Pk × Invite)} (h : db.HoldsGifts k gifts) {gift : Pk × Invite}
    (hgift : gift ∈ gifts) (hnames : ∃ x c, gift.2.Names x c) : db.hasGrants k = true := by
  obtain ⟨x, c, hnames⟩ := hnames
  obtain ⟨j, g, hj, hk, -⟩ := h.kept gift hgift x c hnames
  exact hasGrants_iff.mpr ⟨j, g, hj, hk⟩

theorem HoldsGifts.same {k : Pk} {gifts : List (Pk × Invite)} (h : db.HoldsGifts k gifts)
    (hgrants : d.grants = db.grants) :
    d.HoldsGifts k gifts := by
  refine ⟨fun j g hj => ?_, fun gift hgift x c hnames => ?_, fun i j g x hi hj => ?_⟩
  · rw [hgrants] at hj
    exact h.given j g hj
  · rw [hgrants]
    exact h.kept gift hgift x c hnames
  · rw [hgrants] at hi hj
    exact h.unique i j g x hi hj

/-- The invite as far as it has been gone through. -/
def upTo (i : Invite) (refs : List CollaborationRef) : Invite := { i with sharedCollaborations := some refs }

theorem upTo_names {i : Invite} {refs : List CollaborationRef} {x : Pk} {c : String} :
    (upTo i refs).Names x c ↔ ∃ ref ∈ refs, ref.instance_ = x ∧ ref.collaboration = c := Iff.rfl

theorem upTo_gives {i : Invite} {refs : List CollaborationRef} {x : Pk} {c r : String} :
    (upTo i refs).Gives x c r ↔ ∃ ref ∈ refs, (ref.instance_ = x ∧ ref.collaboration = c) ∧ r ∈ ref.roles :=
  Iff.rfl

theorem upTo_cons {i : Invite} {refs : List CollaborationRef} {ref : CollaborationRef} {x : Pk} {c : String}
    (hother : ¬ (ref.instance_ = x ∧ ref.collaboration = c)) :
    ((upTo i (ref :: refs)).Names x c ↔ (upTo i refs).Names x c)
      ∧ ∀ r, (upTo i (ref :: refs)).Gives x c r ↔ (upTo i refs).Gives x c r := by
  constructor
  · simp [upTo_names, hother]
  · intro r
    simp [upTo_gives, hother]

theorem GivenBy.upTo_cons {g : CollaborationGrant} {invite : Pk} {i : Invite} {done : List CollaborationRef}
    {ref : CollaborationRef}
    (h : GivenBy g (invite, upTo i done)) (hnew : ¬ (upTo i done).Names ref.instance_ ref.collaboration) :
    GivenBy g (invite, upTo i (ref :: done)) := by
  obtain ⟨hnames, hgives⟩ : ((upTo i (ref :: done)).Names g.instance_ g.collaborationId
    ↔ (upTo i done).Names g.instance_ g.collaborationId)
      ∧ ∀ r, (upTo i (ref :: done)).Gives g.instance_ g.collaborationId r
        ↔ (upTo i done).Gives g.instance_ g.collaborationId r := by
    refine DB.upTo_cons fun hkey => hnew ?_
    rw [hkey.1, hkey.2]
    exact h.names
  exact ⟨h.through, hnames.mpr h.names, fun r => (h.roles r).trans (hgives r).symm, h.mesh⟩

theorem givenBy_last {g : CollaborationGrant} {invite : Pk} {i : Invite} {done : List CollaborationRef}
    {ref : CollaborationRef}
    (hnew : ¬ (upTo i done).Names ref.instance_ ref.collaboration) (hthrough : g.grantedThrough = some invite)
    (hx : g.instance_ = ref.instance_) (hc : g.collaborationId = ref.collaboration)
    (hroles : ∀ r, r ∈ g.roles ↔ r ∈ ref.roles)
    (hmesh : g.mesh = i.mesh) : GivenBy g (invite, upTo i (ref :: done)) := by
  rw [← hx, ← hc] at hnew
  refine ⟨hthrough, upTo_names.mpr ⟨ref, List.mem_cons_self, hx.symm, hc.symm⟩, fun r => ?_, hmesh⟩
  rw [hroles]
  constructor
  · intro hr
    exact upTo_gives.mpr ⟨ref, List.mem_cons_self, ⟨hx.symm, hc.symm⟩, hr⟩
  · intro hgives
    obtain ⟨ref', hmem, hkey, hr⟩ := upTo_gives.mp hgives
    rcases List.mem_cons.mp hmem with rfl | hmem
    · exact hr
    · exact absurd (upTo_names.mpr ⟨ref', hmem, hkey⟩) hnew

/-- What one entry of an invite does to a guest who does not hold it through another. -/
theorem HoldsGifts.grantOne {k invite : Pk} {i : Invite} {gifts : List (Pk × Invite)}
    {done : List CollaborationRef}
    {ref : CollaborationRef} {s u : DB × Bool} (h : s.1.HoldsGifts k ((invite, upTo i done) :: gifts))
    (hnew : ¬ (upTo i done).Names ref.instance_ ref.collaboration)
    (hagain : ∀ gift ∈ gifts, gift.2.Names ref.instance_ ref.collaboration → gift.1 = invite ∧ gift.2.mesh = i.mesh
      ∧ ∀ r, gift.2.Gives ref.instance_ ref.collaboration r ↔ r ∈ ref.roles)
    (hok : DB.grantOne k (some invite) (some i.createdBy) none i.mesh s ref = .ok u) :
    u.1.HoldsGifts k ((invite, upTo i (ref :: done)) :: gifts) := by
  have hgiven : ∀ g, (∃ gift ∈ (invite, upTo i done) :: gifts, GivenBy g gift) →
      ∃ gift ∈ (invite, upTo i (ref :: done)) :: gifts, GivenBy g gift := by
    intro g hg
    obtain ⟨gift, hgift, hby⟩ := hg
    rcases List.mem_cons.mp hgift with rfl | hgift
    · exact ⟨_, List.mem_cons_self, hby.upTo_cons hnew⟩
    · exact ⟨gift, List.mem_cons_of_mem _ hgift, hby⟩
  -- what was named before is kept as it was, and the entry is the one grant of its collaboration
  have hkept : ∀ gift ∈ (invite, upTo i (ref :: done)) :: gifts, ∀ x c, gift.2.Names x c →
      (gift.1 = invite ∧ ref.instance_ = x ∧ ref.collaboration = c ∧ gift = (invite, upTo i (ref :: done)))
        ∨ ∃ j g, s.1.grants.row j = some g ∧ g.membership = k ∧ g.instance_ = x ∧ g.collaborationId = c
          ∧ GivenBy g gift := by
    intro gift hgift x c hnames
    rcases List.mem_cons.mp hgift with rfl | hgift
    · by_cases hkey : ref.instance_ = x ∧ ref.collaboration = c
      · exact .inl ⟨rfl, hkey.1, hkey.2, rfl⟩
      · obtain ⟨j, g, hj, hk, hx, hc, hby⟩ := h.kept (invite, upTo i done) List.mem_cons_self x c
          ((DB.upTo_cons hkey).1.mp hnames)
        exact .inr ⟨j, g, hj, hk, hx, hc, hby.upTo_cons hnew⟩
    · exact .inr (h.kept gift (List.mem_cons_of_mem _ hgift) x c hnames)
  -- the guest holds what is granted already through this invite, so there is nothing to add to it
  have hheld : ∀ {pk g}, s.1.grantFor k ref = some (pk, g) →
      g.grantedThrough = some invite ∧ (∀ r, r ∈ g.roles ↔ r ∈ ref.roles) ∧ g.mesh = i.mesh := by
    intro pk g hgrant
    obtain ⟨hrow, hk, hx, hc⟩ := DB.grantFor_some hgrant
    obtain ⟨gift, hgift, hby⟩ := h.given pk g hrow hk
    have hnames : gift.2.Names ref.instance_ ref.collaboration := by
      rw [← hx, ← hc]
      exact hby.names
    have hgift : gift ∈ gifts := by
      rcases List.mem_cons.mp hgift with rfl | hgift
      · exact absurd hnames hnew
      · exact hgift
    obtain ⟨hinvite, hmesh, hgives⟩ := hagain gift hgift hnames
    refine ⟨by rw [hby.through, hinvite], fun r => ?_, hby.mesh.trans hmesh⟩
    rw [hby.roles, hx, hc, hgives]
  cases DB.grantOne_gives hok with
  | made hnone ht =>
    have hfree := DB.grantFor_none hnone
    subst ht
    refine ⟨fun j g hj hk => ?_, fun gift hgift x c hnames => ?_, fun p q g g' hp hq hk hk' hx hc => ?_⟩
    · rcases insert_row_eq_some.mp hj with ⟨-, rfl⟩ | hj
      · exact ⟨_, List.mem_cons_self, givenBy_last hnew rfl rfl rfl (fun _ => Iff.rfl) rfl⟩
      · exact hgiven g (h.given j g hj hk)
    · rcases hkept gift hgift x c hnames with ⟨-, hx, hc, rfl⟩ | ⟨j, g, hj, hg⟩
      · exact ⟨_, _, insert_row_next _ _, rfl, hx, hc, givenBy_last hnew rfl rfl rfl (fun _ => Iff.rfl) rfl⟩
      · exact ⟨j, g, insert_row_of_some hj, hg⟩
    · rcases insert_row_eq_some.mp hp with ⟨hp', rfl⟩ | hp <;> rcases insert_row_eq_some.mp hq with ⟨hq', rfl⟩ | hq
      · exact hp'.trans hq'.symm
      · exact absurd hc.symm (hfree q g' hq hk' hx.symm)
      · exact absurd hc (hfree p g hp hk hx)
      · exact h.unique p q g g' hp hq hk hk' hx hc
  | @widened pk g hgrant hwider =>
    obtain ⟨-, hroles, hmesh⟩ := hheld hgrant
    have hunion : unionRoles g.roles ref.roles = sortedSet g.roles := sortedSet_congr fun r => by simp [hroles r]
    simp [hunion, hmesh] at hwider
  | @kept pk g hgrant =>
    obtain ⟨hrow, hk, hx, hc⟩ := DB.grantFor_some hgrant
    obtain ⟨hinvite, hroles, hmesh⟩ := hheld hgrant
    refine ⟨fun j g hj hk => hgiven g (h.given j g hj hk), fun gift' hgift' x c hnames => ?_, h.unique⟩
    rcases hkept gift' hgift' x c hnames with ⟨-, hx', hc', rfl⟩ | hold
    · exact ⟨pk, g, hrow, hk, hx.trans hx', hc.trans hc', givenBy_last hnew hinvite hx hc hroles hmesh⟩
    · exact hold

/-! ### The entries of an invite -/

def SameKey (a b : CollaborationRef) : Prop := a.instance_ = b.instance_ ∧ a.collaboration = b.collaboration

theorem SameKey.symm {a b : CollaborationRef} (h : SameKey a b) : SameKey b a := ⟨h.1.symm, h.2.symm⟩

theorem SameKey.trans {a b c : CollaborationRef} (h : SameKey a b) (h' : SameKey b c) : SameKey a c :=
  ⟨h.1.trans h'.1, h.2.trans h'.2⟩

theorem eq_of_apart {refs : List CollaborationRef} (hapart : refs.Pairwise fun a b => ¬ SameKey a b)
    {a b : CollaborationRef}
    (ha : a ∈ refs) (hb : b ∈ refs) (hkey : SameKey a b) : a = b := by
  have hsymm : Std.Symm fun a b : CollaborationRef => ¬ SameKey a b := ⟨fun _ _ hab hba => hab hba.symm⟩
  by_contra hne
  exact hapart.forall ha hb hne hkey

theorem mergeRefs_apart : ∀ entries : List CollaborationRef, (mergeRefs entries).Pairwise fun a b => ¬ SameKey a b
  | [] => by simp [mergeRefs]
  | e :: entries => by
    rw [mergeRefs]
    refine List.pairwise_cons.mpr ⟨fun b hb hsame => ?_, (mergeRefs_apart entries).filter _⟩
    have hother := (List.mem_filter.mp hb).2
    simp [← hsame.1, ← hsame.2] at hother

theorem mergeRefs_keeps {e : CollaborationRef} : ∀ {entries : List CollaborationRef}, e ∈ entries →
    ∃ ref ∈ mergeRefs entries, SameKey ref e ∧ ∀ r ∈ e.roles, r ∈ ref.roles
  | e' :: entries, h => by
    rw [mergeRefs]
    rcases List.mem_cons.mp h with rfl | h
    · exact ⟨_, List.mem_cons_self, ⟨rfl, rfl⟩, fun r hr => mem_sortedSet.mpr (List.mem_append_left _ hr)⟩
    · obtain ⟨ref, href, hkey, hroles⟩ := mergeRefs_keeps h
      by_cases hsame : SameKey ref e'
      · refine ⟨_, List.mem_cons_self, ⟨hsame.1.symm.trans hkey.1, hsame.2.symm.trans hkey.2⟩, fun r hr => ?_⟩
        refine mem_sortedSet.mpr (List.mem_append_right _
          (List.mem_flatMap.mpr ⟨ref, List.mem_filter.mpr ⟨href, ?_⟩, hroles r hr⟩))
        simp [hsame.1, hsame.2]
      · refine ⟨ref, List.mem_cons_of_mem _ (List.mem_filter.mpr ⟨href, ?_⟩), hkey, hroles⟩
        rw [SameKey, not_and_or] at hsame
        simpa using hsame

theorem upTo_merged {i : Invite} {entries : List CollaborationRef} (h : i.sharedCollaborations = some entries)
    {x : Pk} {c : String} :
    ((upTo i (mergeRefs entries)).Names x c ↔ i.Names x c) ∧ ∀ r, (upTo i (mergeRefs entries)).Gives x c r
    ↔ i.Gives x c r := by
  have hshared : i.sharedCollaborations.getD [] = entries := by simp [h]
  unfold Invite.Names Invite.Gives
  rw [hshared]
  refine ⟨⟨fun hnames => ?_, fun hnames => ?_⟩, fun r => ⟨fun hgives => ?_, fun hgives => ?_⟩⟩
  · obtain ⟨ref, href, rfl, rfl⟩ := hnames
    exact (mem_mergeRefs href).1
  · obtain ⟨e, he, rfl, rfl⟩ := hnames
    obtain ⟨ref, href, hkey, -⟩ := mergeRefs_keeps he
    exact ⟨ref, href, hkey⟩
  · obtain ⟨ref, href, ⟨rfl, rfl⟩, hr⟩ := hgives
    exact (mem_mergeRefs href).2 r hr
  · obtain ⟨e, he, ⟨rfl, rfl⟩, hr⟩ := hgives
    obtain ⟨ref, href, hkey, hroles⟩ := mergeRefs_keeps he
    exact ⟨ref, href, hkey, hroles r hr⟩

/-- Of entries that are apart, the one for a collaboration says what is given there. -/
theorem upTo_gives_of_apart {i : Invite} {refs : List CollaborationRef}
    (hapart : refs.Pairwise fun a b => ¬ SameKey a b)
    {ref : CollaborationRef} (href : ref ∈ refs) (r : String) :
    (upTo i refs).Gives ref.instance_ ref.collaboration r ↔ r ∈ ref.roles := by
  constructor
  · intro hgives
    obtain ⟨ref', href', hkey, hr⟩ := upTo_gives.mp hgives
    exact eq_of_apart hapart href' href hkey ▸ hr
  · intro hr
    exact upTo_gives.mpr ⟨ref, href, ⟨rfl, rfl⟩, hr⟩

/-! ### Accepting -/

theorem GivenBy.congr {g : CollaborationGrant} {invite : Pk} {i i' : Invite} (h : GivenBy g (invite, i))
    (hmesh : i'.mesh = i.mesh)
    (hsame : ∀ x c, (i'.Names x c ↔ i.Names x c) ∧ ∀ r, i'.Gives x c r ↔ i.Gives x c r) :
    GivenBy g (invite, i') := by
  obtain ⟨hnames, hgives⟩ := hsame g.instance_ g.collaborationId
  exact ⟨h.through, hnames.mpr h.names, fun r => (h.roles r).trans (hgives r).symm, h.mesh.trans hmesh.symm⟩

theorem HoldsGifts.congr {k invite : Pk} {i i' : Invite} {gifts : List (Pk × Invite)}
    (h : db.HoldsGifts k ((invite, i) :: gifts))
    (hmesh : i'.mesh = i.mesh)
    (hsame : ∀ x c, (i'.Names x c ↔ i.Names x c) ∧ ∀ r, i'.Gives x c r ↔ i.Gives x c r) :
    db.HoldsGifts k ((invite, i') :: gifts) := by
  refine ⟨fun j g hj hk => ?_, fun gift hgift x c hnames => ?_, h.unique⟩
  · obtain ⟨gift, hgift, hby⟩ := h.given j g hj hk
    rcases List.mem_cons.mp hgift with rfl | hgift
    · exact ⟨_, List.mem_cons_self, hby.congr hmesh hsame⟩
    · exact ⟨gift, List.mem_cons_of_mem _ hgift, hby⟩
  · rcases List.mem_cons.mp hgift with rfl | hgift
    · obtain ⟨j, g, hj, hk, hx, hc, hby⟩ := h.kept (invite, i) List.mem_cons_self x c ((hsame x c).1.mp hnames)
      exact ⟨j, g, hj, hk, hx, hc, hby.congr hmesh hsame⟩
    · exact h.kept gift (List.mem_cons_of_mem _ hgift) x c hnames

theorem HoldsGifts.foldlM {k invite : Pk} {i : Invite} {gifts : List (Pk × Invite)} :
    ∀ {refs done : List CollaborationRef} {s u : DB × Bool},
    s.1.HoldsGifts k ((invite, upTo i done) :: gifts) → refs.Pairwise (fun a b => ¬ SameKey a b) →
    (∀ ref ∈ refs, ¬ (upTo i done).Names ref.instance_ ref.collaboration) →
    (∀ ref ∈ refs, ∀ gift ∈ gifts, gift.2.Names ref.instance_ ref.collaboration →
      gift.1 = invite ∧ gift.2.mesh = i.mesh
      ∧ ∀ r, gift.2.Gives ref.instance_ ref.collaboration r ↔ r ∈ ref.roles) →
    refs.foldlM (DB.grantOne k (some invite) (some i.createdBy) none i.mesh) s = .ok u →
    u.1.HoldsGifts k ((invite, upTo i (refs.reverse ++ done)) :: gifts)
  | [], done, s, u, h, _, _, _, hok => by
    obtain rfl := pure_ok.mp hok
    exact h
  | ref :: refs, done, s, u, h, hapart, hnew, hagain, hok => by
    simp only [List.foldlM_cons, bind_ok] at hok
    obtain ⟨v, hv, hok⟩ := hok
    obtain ⟨hfirst, hapart⟩ := List.pairwise_cons.mp hapart
    have hone := h.grantOne (hnew ref (by simp)) (hagain ref (by simp)) hv
    have hrest := HoldsGifts.foldlM hone hapart (fun ref' href' hnames => ?_)
      (fun ref' href' => hagain ref' (by simp [href'])) hok
    · simpa using hrest
    · exact hnew ref' (by simp [href']) ((upTo_cons (hfirst ref' href')).1.mp hnames)

/-- What an accepted invite adds, if no other that the guest accepted names the same. -/
theorem HoldsGifts.grantCollaborations {k invite : Pk} {i : Invite} {entries : List CollaborationRef}
    {gifts : List (Pk × Invite)}
    {u : DB × Bool} (h : db.HoldsGifts k gifts) (hshared : i.sharedCollaborations = some entries)
    (hagain : ∀ gift ∈ gifts, ∀ x c, i.Names x c → gift.2.Names x c → gift.1 = invite ∧ gift.2.mesh = i.mesh
      ∧ ∀ r, gift.2.Gives x c r ↔ i.Gives x c r)
    (hok : db.grantCollaborations k entries (some invite) (some i.createdBy) none i.mesh = .ok u) :
    u.1.HoldsGifts k ((invite, i) :: gifts) ∧ ∃ x c, i.Names x c := by
  simp only [DB.grantCollaborations, bind_ok, Table.get_ok, require_ok, exists_unit, Bool.not_eq_true',
    List.isEmpty_eq_false_iff] at hok
  obtain ⟨m, -, -, hsome, -, hok⟩ := hok
  have hapart := mergeRefs_apart entries
  have hstart : db.HoldsGifts k ((invite, upTo i []) :: gifts) := by
    refine ⟨fun j g hj hk => ?_, fun gift hgift x c hnames => ?_, h.unique⟩
    · obtain ⟨gift, hgift, hby⟩ := h.given j g hj hk
      exact ⟨gift, List.mem_cons_of_mem _ hgift, hby⟩
    · rcases List.mem_cons.mp hgift with rfl | hgift
      · obtain ⟨ref, hmem, -⟩ := upTo_names.mp hnames
        cases hmem
      · exact h.kept gift hgift x c hnames
  have hnamed : ∀ ref ∈ mergeRefs entries, i.Names ref.instance_ ref.collaboration := fun ref href =>
    (upTo_merged hshared).1.mp (upTo_names.mpr ⟨ref, href, rfl, rfl⟩)
  have hall := hstart.foldlM hapart (fun ref _ hnames => ?_) (fun ref href gift hgift hnames => ?_) hok
  · refine ⟨hall.congr rfl fun x c => ?_, ?_⟩
    · obtain ⟨hnames, hgives⟩ := upTo_merged hshared (x := x) (c := c)
      refine ⟨hnames.symm.trans ?_, fun r => (hgives r).symm.trans ?_⟩
      · simp [upTo_names]
      · simp [upTo_gives]
    · obtain ⟨ref, href⟩ := List.exists_mem_of_ne_nil _ hsome
      exact ⟨_, _, hnamed ref href⟩
  · obtain ⟨ref', hmem, -⟩ := upTo_names.mp hnames
    cases hmem
  · obtain ⟨hinvite, hmesh, hgives⟩ := hagain gift hgift _ _ (hnamed ref href) hnames
    refine ⟨hinvite, hmesh, fun r => ?_⟩
    rw [hgives, ← (upTo_merged hshared).2, upTo_gives_of_apart hapart href]

/-! ### Revoking -/

/-- The user's membership in the organization. -/
def IsMember (db : DB) (user organization k : Pk) : Prop :=
  ∃ m, db.memberships.row k = some m ∧ m.user = user ∧ m.organization = organization

theorem revokeInviteGrants_grants (db : DB) (invite : Pk) {j : Pk} {g : CollaborationGrant} :
    (db.revokeInviteGrants invite).grants.row j = some g
    ↔ db.grants.row j = some g ∧ g.grantedThrough ≠ some invite := by
  unfold revokeInviteGrants
  rw [deleteGrants_grants]
  constructor
  · intro hj
    split at hj
    · cases hj
    · rename_i hnot
      refine ⟨hj, fun hthrough => hnot (mem_pks.mpr ⟨g, hj, by simp [hthrough]⟩)⟩
  · rintro ⟨hj, hnot⟩
    rw [if_neg, hj]
    intro hin
    obtain ⟨g', hg', hthrough⟩ := mem_pks.mp hin
    rw [hj] at hg'
    cases hg'
    exact hnot (by simpa using hthrough)

theorem HoldsGifts.revoke {k : Pk} {gifts : List (Pk × Invite)} (h : db.HoldsGifts k gifts) (invite : Pk) :
    (db.revokeInviteGrants invite).HoldsGifts k (gifts.filter (·.1 != invite)) := by
  refine ⟨fun j g hj hk => ?_, fun gift hgift x c hnames => ?_, fun i j g g' hi hj => ?_⟩
  · obtain ⟨hj, hnot⟩ := (revokeInviteGrants_grants db invite).mp hj
    obtain ⟨gift, hgift, hby⟩ := h.given j g hj hk
    refine ⟨gift, List.mem_filter.mpr ⟨hgift, ?_⟩, hby⟩
    rw [hby.through] at hnot
    simpa using hnot
  · obtain ⟨hgift, hother⟩ := List.mem_filter.mp hgift
    obtain ⟨j, g, hj, hk, hx, hc, hby⟩ := h.kept gift hgift x c hnames
    refine ⟨j, g, (revokeInviteGrants_grants db invite).mpr ⟨hj, ?_⟩, hk, hx, hc, hby⟩
    rw [hby.through]
    simpa using hother
  · exact h.unique i j g g' ((revokeInviteGrants_grants db invite).mp hi).1
      ((revokeInviteGrants_grants db invite).mp hj).1

theorem IsMember.before {user organization k : Pk} {grants : List Pk}
    (h : (db.deleteGrants grants none).IsMember user organization k) :
    db.IsMember user organization k := by
  obtain ⟨m', hm', rfl, rfl⟩ := h
  obtain ⟨m, hm, huser, horganization, -⟩ := (deleteGrants_shrinks grants db).memberships.2 k m' hm'
  exact ⟨m, hm, huser.symm, horganization.symm⟩

theorem IsMember.after {user organization k : Pk} {grants : List Pk} (h : db.IsMember user organization k)
    (hleft : (db.deleteGrants grants none).hasGrants k = true) :
    (db.deleteGrants grants none).IsMember user organization k := by
  obtain ⟨m, hm, rfl, rfl⟩ := h
  obtain ⟨m', hm'⟩ := deleteGrants_member grants db hleft ⟨m, hm⟩
  obtain ⟨m₀, hm₀, huser, horganization, -⟩ := (deleteGrants_shrinks grants db).memberships.2 k m' hm'
  rw [hm] at hm₀
  cases hm₀
  exact ⟨m', hm', huser, horganization⟩

/-! ### Redeeming -/

theorem membershipOf_isMember {user organization k : Pk}
    (h : (db.membershipOf user organization).map (·.1) = some k) :
    db.IsMember user organization k := by
  obtain ⟨⟨k', m⟩, hfirst, rfl⟩ := Option.map_eq_some_iff.mp h
  obtain ⟨hm, hp⟩ := first_eq_some hfirst
  simp only [Bool.and_eq_true, beq_iff_eq] at hp
  exact ⟨m, hm, hp⟩

theorem membershipOf_eq_none {user organization : Pk}
    (h : (db.membershipOf user organization).map (·.1) = none) (k : Pk) :
    ¬ db.IsMember user organization k := by
  rintro ⟨m, hm, rfl, rfl⟩
  have hmissed := first_eq_none.mp (Option.map_eq_none_iff.mp h) k m hm
  simp at hmissed

theorem getOrCreateMembership_cases {user organization k : Pk} {through : Option Pk}
    (h : db.getOrCreateMembership user organization through = .ok (d, k)) :
    d = db ∧ db.IsMember user organization k
      ∨ (∀ k, ¬ db.IsMember user organization k) ∧ k = db.memberships.next
        ∧ d = { db with memberships := db.memberships.insert ⟨user, organization, [], false, through, [], []⟩ }
        := by
  unfold getOrCreateMembership at h
  split at h
  · rename_i hm
    cases h
    exact .inl ⟨rfl, membershipOf_isMember (by rw [hm]; rfl)⟩
  · rename_i hnone
    simp only [createMembership, bind_ok, Table.get_ok, require_ok, exists_unit, pure_ok, Prod.mk.injEq] at h
    obtain ⟨_, -, _, -, -, rfl, rfl⟩ := h
    exact .inr ⟨fun k => membershipOf_eq_none (by rw [hnone]; rfl) k, rfl, rfl⟩

/-- What the invites share stays what it was. -/
def SharesAsBefore (db d : DB) : Prop :=
  Rewrites (fun _ (i i' : Invite) => i'.sharedCollaborations = i.sharedCollaborations ∧ i'.mesh = i.mesh)
    db.invites d.invites

theorem modifyInvite_shares {pk : Pk} {f : Invite → Invite} (h : SharesAsBefore db d)
    (hf : ∀ i, (f i).sharedCollaborations = i.sharedCollaborations ∧ (f i).mesh = i.mesh) :
    SharesAsBefore db (d.modifyInvite pk f) := by
  have hmodified : Rewrites
    (fun _ (i i' : Invite) => i'.sharedCollaborations = i.sharedCollaborations ∧ i'.mesh = i.mesh) d.invites
      (d.modifyInvite pk f).invites := .modify (fun _ _ => ⟨rfl, rfl⟩) fun i _ => hf i
  refine (h.comp hmodified).mono fun _ a c hac => ?_
  obtain ⟨b, hab, hbc⟩ := hac
  exact ⟨hbc.1.trans hab.1, hbc.2.trans hab.2⟩

/-- An invite that is accepted to collaborate gives its entries to the member, or to a new one. -/
theorem redeemCollaborationInvite_gives {pk user : Pk} {i : Invite} {entries : List CollaborationRef} {r : DB × Pk}
    (h : db.redeemCollaborationInvite pk i entries user = .ok r) :
    ∃ d u v, db.getOrCreateMembership user i.createdFor (some pk) = .ok (d, r.2)
      ∧ d.grantCollaborations r.2 entries (some pk) (some i.createdBy) none i.mesh = .ok u
      ∧ r.1 = { d with grants := u.1.grants, invites := v } ∧ SharesAsBefore db r.1 := by
  simp only [redeemCollaborationInvite, bind_ok, reraise_ok, Prod.exists] at h
  obtain ⟨d, k, hd, e, changed, hgrant, h⟩ := h
  obtain ⟨t, _, ht, -⟩ := grantCollaborations_grants hgrant
  dsimp only at ht
  subst ht
  have hsame : SharesAsBefore db { d with grants := t } := by
    unfold SharesAsBefore
    rw [(getOrCreateMembership_same hd).1]
    exact .refl (fun _ _ => ⟨rfl, rfl⟩) _
  split at h
  · obtain rfl := pure_ok.mp h
    exact ⟨d, _, _, hd, hgrant, rfl, hsame⟩
  · obtain rfl := pure_ok.mp h
    have hused : SharesAsBefore db
      (({ d with grants := t } : DB).modifyInvite pk fun i => { i with uses := i.uses + 1 }) :=
      modifyInvite_shares hsame fun _ => ⟨rfl, rfl⟩
    dsimp only
    split
    · exact ⟨d, _, _, hd, hgrant, rfl, modifyInvite_shares hused fun _ => ⟨rfl, rfl⟩⟩
    · exact ⟨d, _, _, hd, hgrant, rfl, hused⟩

theorem redeemInvite_collaborates {pk user : Pk} {i : Invite} {entries : List CollaborationRef} {r : DB × Pk}
    (hi : db.invites.row pk = some i) (hentries : i.sharedCollaborations = some entries)
    (hguest : ∀ k, db.IsMember user i.createdFor k → db.isScoped k = true) (h : db.redeemInvite pk user = .ok r) :
    db.redeemCollaborationInvite pk i entries user = .ok r := by
  simp only [redeemInvite, bind_ok, Table.get_ok, exists_unit] at h
  obtain ⟨i', hi', -, h⟩ := h
  rw [hi] at hi'
  obtain rfl := Option.some.inj hi'
  split at h
  · rename_i refs k hrefs hk
    obtain rfl : entries = refs := Option.some.inj (hentries.symm.trans hrefs)
    rw [if_pos (hguest k (membershipOf_isMember hk))] at h
    exact h
  · rename_i refs hrefs hk
    obtain rfl : entries = refs := Option.some.inj (hentries.symm.trans hrefs)
    exact h
  · rename_i hrefs
    rw [hentries] at hrefs
    cases hrefs

end DB

/-! ## Histories -/

/-- A guest's history: the database, and what was accepted and not revoked since. -/
structure GiftHistory where
  db : DB
  gifts : List (Pk × Invite)

inductive GiftEvent
  | accept (invite : Pk)
  | revoke (invite : Pk)
  | act (a : Action)

/-- The user's membership and its grants, and what the invites share, are left alone. -/
structure LeavesGuest (user organization : Pk) (db d : DB) : Prop where
  member : ∀ k, d.IsMember user organization k ↔ db.IsMember user organization k
  grants : ∀ k, db.IsMember user organization k → ∀ j g, g.membership = k → (d.grants.row j = some g
    ↔ db.grants.row j = some g)
  next : db.invites.next ≤ d.invites.next
  shared : ∀ k i', k < db.invites.next → d.invites.row k = some i' → ∃ i, db.invites.row k = some i
    ∧ i'.sharedCollaborations = i.sharedCollaborations ∧ i'.mesh = i.mesh

inductive GiftStep (env : Env) (user organization : Pk) : GiftHistory → GiftEvent → GiftHistory → Prop
  | accept {s : GiftHistory} {invite : Pk} {i : Invite} {r : DB × Pk} (hi : s.db.invites.row invite = some i)
    (hfor : i.createdFor = organization) (hshared : i.sharedCollaborations.isSome = true)
    (h : s.db.redeemInvite invite user = .ok r) :
    GiftStep env user organization s (.accept invite) ⟨r.1, (invite, i) :: s.gifts⟩
  | revoke {s : GiftHistory} (invite : Pk) :
    GiftStep env user organization s (.revoke invite)
      ⟨s.db.revokeInviteGrants invite, s.gifts.filter (·.1 != invite)⟩
  | act {s : GiftHistory} {a : Action} (h : LeavesGuest user organization s.db (step env s.db a)) :
    GiftStep env user organization s (.act a) ⟨step env s.db a, s.gifts⟩

namespace GiftHistory

variable {env : Env} {user organization : Pk} {s t : GiftHistory}

/-- An invite names no collaboration that the guest holds through another. -/
def AcceptsApart (s : GiftHistory) : GiftEvent → Prop
  | .accept invite => ∀ i, s.db.invites.row invite = some i → ∀ gift ∈ s.gifts, gift.1 ≠ invite →
      ∀ x c, i.Names x c → ¬ gift.2.Names x c
  | _ => True

structure GiftLaws (user organization : Pk) (s : GiftHistory) : Prop where
  invites : ∀ gift ∈ s.gifts, gift.1 < s.db.invites.next ∧ ∀ i, s.db.invites.row gift.1 = some i →
    i.sharedCollaborations = gift.2.sharedCollaborations ∧ i.mesh = gift.2.mesh
  names : ∀ gift ∈ s.gifts, ∃ x c, gift.2.Names x c
  member : ∀ k, s.db.IsMember user organization k → s.gifts ≠ [] ∧ s.db.HoldsGifts k s.gifts
  single : ∀ j k, s.db.IsMember user organization j → s.db.IsMember user organization k → j = k
  there : s.gifts ≠ [] → ∃ k, s.db.IsMember user organization k

theorem GiftLaws.revoke (h : s.GiftLaws user organization) (invite : Pk)
    (hlasts : ∀ k, s.db.hasGrants k = true → (s.db.revokeInviteGrants invite).Lasts k) :
    GiftLaws user organization ⟨s.db.revokeInviteGrants invite, s.gifts.filter (·.1 != invite)⟩ := by
  have hleft : ∀ gift ∈ s.gifts.filter (·.1 != invite), ∃ x c, gift.2.Names x c := fun gift hgift =>
    h.names gift (List.mem_filter.mp hgift).1
  refine ⟨fun gift hgift => ?_, hleft, fun k hk => ?_,
    fun j k hj hk => h.single j k hj.before hk.before, fun hne => ?_⟩
  · obtain ⟨hlt, hsame⟩ := h.invites gift (List.mem_filter.mp hgift).1
    have hshrinks := (DB.deleteGrants_shrinks
      (s.db.grants.pks fun _ g => g.grantedThrough == some invite) s.db).invites
    refine ⟨hshrinks.1 ▸ hlt, fun i hi => ?_⟩
    obtain ⟨i₀, hi₀, _, _, rfl⟩ := hshrinks.2 _ i hi
    exact hsame i₀ hi₀
  · obtain ⟨hne, hholds⟩ := h.member k hk.before
    have hafter := hholds.revoke invite
    refine ⟨fun hnone => ?_, hafter⟩
    -- without a gift the guest has no grant, and would be gone
    obtain ⟨gift, hgift⟩ := List.exists_mem_of_ne_nil _ hne
    rcases hlasts k (hholds.hasGrants hgift (h.names gift hgift)) with hhas | ⟨-, hgone⟩
    · obtain ⟨j, g, hj, hjk⟩ := DB.hasGrants_iff.mp hhas
      obtain ⟨gift, hgift, -⟩ := hafter.given j g hj hjk
      exact List.ne_nil_of_mem hgift hnone
    · obtain ⟨m, hm, -⟩ := hk
      have hm : (s.db.revokeInviteGrants invite).memberships.row k = some m := hm
      rw [hgone] at hm
      cases hm
  · obtain ⟨gift, hgift⟩ := List.exists_mem_of_ne_nil _ hne
    obtain ⟨k, hk⟩ := h.there (List.ne_nil_of_mem (List.mem_filter.mp hgift).1)
    exact ⟨k, hk.after (((h.member k hk).2.revoke invite).hasGrants hgift (hleft gift hgift))⟩

theorem GiftLaws.act (h : s.GiftLaws user organization) {d : DB} (hd : LeavesGuest user organization s.db d) :
    GiftLaws user organization ⟨d, s.gifts⟩ := by
  refine ⟨fun gift hgift => ?_, h.names, fun k hk => ?_, fun j k hj hk => ?_, fun hne => ?_⟩
  · obtain ⟨hlt, hsame⟩ := h.invites gift hgift
    refine ⟨Nat.lt_of_lt_of_le hlt hd.next, fun i' hi' => ?_⟩
    obtain ⟨i, hi, hshared, hmesh⟩ := hd.shared _ i' hlt hi'
    obtain ⟨hshared', hmesh'⟩ := hsame i hi
    exact ⟨hshared.trans hshared', hmesh.trans hmesh'⟩
  · have hk := (hd.member k).mp hk
    obtain ⟨hne, hholds⟩ := h.member k hk
    refine ⟨hne, fun j g hj hjk => hholds.given j g ((hd.grants k hk j g hjk).mp hj) hjk,
      fun gift hgift x c hnames => ?_,
      fun i j g g' hi hj hik hjk => ?_⟩
    · obtain ⟨j, g, hj, hjk, hg⟩ := hholds.kept gift hgift x c hnames
      exact ⟨j, g, (hd.grants k hk j g hjk).mpr hj, hjk, hg⟩
    · exact hholds.unique i j g g' ((hd.grants k hk i g hik).mp hi) ((hd.grants k hk j g' hjk).mp hj) hik hjk
  · exact h.single j k ((hd.member j).mp hj) ((hd.member k).mp hk)
  · obtain ⟨k, hk⟩ := h.there hne
    exact ⟨k, (hd.member k).mpr hk⟩

/-- The accepted invite is the only one to name what it names, or was accepted before. -/
theorem GiftLaws.accept (h : s.GiftLaws user organization) (hlaws : s.db.GuestLaws) {invite : Pk} {i : Invite}
    {r : DB × Pk} (hi : s.db.invites.row invite = some i) (hfor : i.createdFor = organization)
    (hshared : i.sharedCollaborations.isSome = true)
    (hapart : s.AcceptsApart (.accept invite)) (hok : s.db.redeemInvite invite user = .ok r) :
    GiftLaws user organization ⟨r.1, (invite, i) :: s.gifts⟩ := by
  obtain ⟨entries, hentries⟩ := Option.isSome_iff_exists.mp hshared
  have hagain : ∀ gift ∈ s.gifts, ∀ x c, i.Names x c → gift.2.Names x c → gift.1 = invite ∧ gift.2.mesh = i.mesh
      ∧ ∀ r, gift.2.Gives x c r ↔ i.Gives x c r := by
    intro gift hgift x c hnames hnames'
    by_cases hsame : gift.1 = invite
    · obtain ⟨hshared, hmesh⟩ := (h.invites gift hgift).2 i (hsame ▸ hi)
      refine ⟨hsame, hmesh.symm, fun r => ?_⟩
      rw [Invite.Gives, ← hshared]
      rfl
    · exact absurd hnames' (hapart i hi gift hgift hsame x c hnames)
  have hguest : ∀ k, s.db.IsMember user i.createdFor k → s.db.isScoped k = true := by
    intro k hk
    obtain ⟨hne, hholds⟩ := h.member k (hfor ▸ hk)
    obtain ⟨gift, hgift⟩ := List.exists_mem_of_ne_nil _ hne
    exact hholds.hasGrants hgift (h.names gift hgift)
  obtain ⟨d, u, v, hd, hgrant, hr, hshares⟩ :=
    DB.redeemCollaborationInvite_gives (DB.redeemInvite_collaborates hi hentries hguest hok)
  have hgrants : r.1.grants = u.1.grants := by rw [hr]
  have hmemberships : r.1.memberships = d.memberships := by rw [hr]
  generalize r.2 = k at hd hgrant
  obtain ⟨hholds, honly⟩ : d.HoldsGifts k s.gifts ∧ ∀ k', d.IsMember user organization k' ↔ k' = k := by
    rcases DB.getOrCreateMembership_cases hd with ⟨rfl, hk⟩ | ⟨hnobody, rfl, rfl⟩
    · rw [hfor] at hk
      exact ⟨(h.member k hk).2, fun k' => ⟨fun hk' => h.single k' k hk' hk, fun heq => heq ▸ hk⟩⟩
    · have hgifts : s.gifts = [] := by
        by_contra hne
        obtain ⟨k', hk'⟩ := h.there hne
        exact hnobody k' (hfor ▸ hk')
      constructor
      · refine ⟨fun j g hj hk => absurd (hlaws.owned j g hj) (by rw [hk]; exact Nat.lt_irrefl _),
          fun gift hgift => ?_,
          fun i j g g' hi _ hk => absurd (hlaws.owned i g hi) (by rw [hk]; exact Nat.lt_irrefl _)⟩
        rw [hgifts] at hgift
        cases hgift
      · intro k'
        constructor
        · rintro ⟨m, hm, huser, horganization⟩
          rcases insert_row_eq_some.mp hm with ⟨hnew, -⟩ | hm
          · exact hnew
          · exact absurd ⟨m, hm, huser, horganization.trans hfor.symm⟩ (hnobody k')
        · rintro rfl
          exact ⟨_, insert_row_next _ _, rfl, hfor⟩
  obtain ⟨hall, hnames⟩ := hholds.grantCollaborations hentries hagain hgrant
  have honly' : ∀ k', r.1.IsMember user organization k' ↔ k' = k := by
    intro k'
    rw [← honly k', DB.IsMember, hmemberships]
    rfl
  refine ⟨fun gift hgift => ?_, fun gift hgift => ?_, fun k' hk' => ?_, fun j k' hj hk' => ?_,
    fun _ => ⟨k, (honly' k).mpr rfl⟩⟩
  · have hbefore : gift.1 < s.db.invites.next ∧ ∀ i, s.db.invites.row gift.1 = some i →
        i.sharedCollaborations = gift.2.sharedCollaborations ∧ i.mesh = gift.2.mesh := by
      rcases List.mem_cons.mp hgift with rfl | hgift
      · refine ⟨lt_next hi, fun i' hi' => ?_⟩
        rw [hi] at hi'
        cases hi'
        exact ⟨rfl, rfl⟩
      · exact h.invites gift hgift
    refine ⟨hshares.1.symm ▸ hbefore.1, fun i' hi' => ?_⟩
    obtain ⟨i₀, hi₀, hshared, hmesh⟩ := hshares.before hi'
    obtain ⟨hshared', hmesh'⟩ := hbefore.2 i₀ hi₀
    exact ⟨hshared.trans hshared', hmesh.trans hmesh'⟩
  · rcases List.mem_cons.mp hgift with rfl | hgift
    · exact hnames
    · exact h.names gift hgift
  · obtain rfl := (honly' k').mp hk'
    exact ⟨List.cons_ne_nil _ _, hall.same hgrants⟩
  · exact ((honly' j).mp hj).trans ((honly' k').mp hk').symm

theorem GiftLaws.step {e : GiftEvent} (h : s.GiftLaws user organization) (hr : Reachable env s.db)
    (hapart : s.AcceptsApart e)
    (hst : GiftStep env user organization s e t) : t.GiftLaws user organization ∧ Reachable env t.db := by
  cases hst with
  | @accept invite i r hi hfor hshared hok =>
    refine ⟨h.accept hr.guestLaws hi hfor hshared hapart hok, hr.step (a := .redeemInvite invite user) ?_⟩
    simp [Lok.step, hok, DB.settle, Except.map]
  | revoke invite =>
    refine ⟨h.revoke invite fun k hk => ?_, hr.step (a := .revokeInviteGrants invite) rfl⟩
    show (Lok.step env s.db (.revokeInviteGrants invite)).Lasts k
    exact hr.guestLaws.step_lasts (a := .revokeInviteGrants invite) trivial (.inl hk) (by simp [Action.upgrades])
  | act hd => exact ⟨h.act hd, hr.step rfl⟩

/-- What is stored for the guest is what the invites gave, and the membership is there as long as one gave
anything. -/
structure StoredAsGiven (user organization : Pk) (s : GiftHistory) : Prop where
  collaborations : ∀ x c, (∃ j g, s.db.grants.row j = some g ∧ s.db.IsMember user organization g.membership
    ∧ g.instance_ = x
    ∧ g.collaborationId = c) ↔ ∃ gift ∈ s.gifts, gift.2.Names x c
  roles : ∀ x c r, (∃ j g, s.db.grants.row j = some g ∧ s.db.IsMember user organization g.membership
    ∧ g.instance_ = x
    ∧ g.collaborationId = c ∧ r ∈ g.roles) ↔ ∃ gift ∈ s.gifts, gift.2.Gives x c r
  mesh : ∀ x c, (∃ j g, s.db.grants.row j = some g ∧ s.db.IsMember user organization g.membership ∧ g.instance_ = x
    ∧ g.collaborationId = c ∧ g.mesh = true) ↔ ∃ gift ∈ s.gifts, gift.2.Names x c ∧ gift.2.mesh = true
  membership : (∃ k, s.db.IsMember user organization k) ↔ s.gifts ≠ []

theorem GiftLaws.stored (h : s.GiftLaws user organization) : s.StoredAsGiven user organization := by
  have hkept : ∀ gift ∈ s.gifts, ∀ x c, gift.2.Names x c → ∃ j g, s.db.grants.row j = some g
      ∧ s.db.IsMember user organization g.membership ∧ g.instance_ = x ∧ g.collaborationId = c
      ∧ DB.GivenBy g gift := by
    intro gift hgift x c hnames
    obtain ⟨k, hk⟩ := h.there (List.ne_nil_of_mem hgift)
    obtain ⟨j, g, hj, rfl, hg⟩ := (h.member k hk).2.kept gift hgift x c hnames
    exact ⟨j, g, hj, hk, hg⟩
  have hgiven : ∀ j g, s.db.grants.row j = some g → s.db.IsMember user organization g.membership →
      ∃ gift ∈ s.gifts, DB.GivenBy g gift := fun j g hj hk => (h.member _ hk).2.given j g hj rfl
  refine ⟨fun x c => ⟨?_, ?_⟩, fun x c r => ⟨?_, ?_⟩, fun x c => ⟨?_, ?_⟩, ⟨?_, h.there⟩⟩
  · rintro ⟨j, g, hj, hk, rfl, rfl⟩
    obtain ⟨gift, hgift, hby⟩ := hgiven j g hj hk
    exact ⟨gift, hgift, hby.names⟩
  · rintro ⟨gift, hgift, hnames⟩
    obtain ⟨j, g, hj, hk, hx, hc, -⟩ := hkept gift hgift x c hnames
    exact ⟨j, g, hj, hk, hx, hc⟩
  · rintro ⟨j, g, hj, hk, rfl, rfl, hr⟩
    obtain ⟨gift, hgift, hby⟩ := hgiven j g hj hk
    exact ⟨gift, hgift, (hby.roles r).mp hr⟩
  · rintro ⟨gift, hgift, hgives⟩
    obtain ⟨j, g, hj, hk, rfl, rfl, hby⟩ := hkept gift hgift x c (hgives.imp fun ref href => ⟨href.1, href.2.1⟩)
    exact ⟨j, g, hj, hk, rfl, rfl, (hby.roles r).mpr hgives⟩
  · rintro ⟨j, g, hj, hk, rfl, rfl, hmesh⟩
    obtain ⟨gift, hgift, hby⟩ := hgiven j g hj hk
    exact ⟨gift, hgift, hby.names, hby.mesh ▸ hmesh⟩
  · rintro ⟨gift, hgift, hnames, hmesh⟩
    obtain ⟨j, g, hj, hk, hx, hc, hby⟩ := hkept gift hgift x c hnames
    exact ⟨j, g, hj, hk, hx, hc, hby.mesh.trans hmesh⟩
  · rintro ⟨k, hk⟩
    exact (h.member k hk).1

end GiftHistory

open GiftHistory

/-- In every history of a guest in which no accepted invite names a collaboration the guest holds through
another, what is stored is what the invites accepted and not revoked gave. -/
theorem revoked_exactly {env : Env} {user organization : Pk} {s t : GiftHistory} {events : List GiftEvent}
    (hr : Reachable env s.db)
    (hnew : ∀ k, ¬ s.db.IsMember user organization k) (hnone : s.gifts = [])
    (hrun : Run (fun s e t => GiftStep env user organization s e t ∧ s.AcceptsApart e) s events t) :
    t.StoredAsGiven user organization := by
  have hstart : s.GiftLaws user organization := by
    refine ⟨fun gift hgift => ?_, fun gift hgift => ?_, fun k hk => absurd hk (hnew k),
      fun j k hj => absurd hj (hnew j),
      fun hne => absurd hnone hne⟩
    · rw [hnone] at hgift
      cases hgift
    · rw [hnone] at hgift
      cases hgift
  have hboth := hrun.invariant (P := fun s : GiftHistory => s.GiftLaws user organization ∧ Reachable env s.db)
    (fun h hst => h.1.step h.2 hst.2 hst.1) ⟨hstart, hr⟩
  exact hboth.1.stored

/-- Ann shares a collaboration with Bob, and another, or the same once more. -/
def sharedTwice (first second : CollaborationRef) : List Action :=
  [.createUser "ann" [], .createUser "bob" [], .createOrganization "org" 0 false, .configureHub 0 plainHub,
   .createInvite 0 0 none [] (some [first]) none false, .createInvite 0 0 none [] (some [second]) none false]

theorem not_isMember {db : DB} {user organization : Pk}
    (h : db.memberships.rows.all (fun m => !(m.2.user == user && m.2.organization == organization)) = true)
    (k : Pk) :
    ¬ db.IsMember user organization k := by
  rintro ⟨m, hm, rfl, rfl⟩
  simpa using List.all_eq_true.mp h (k, m) (mem_rows.mpr hm)

/-- Bob accepts both, and the second is revoked: he keeps the first. -/
theorem revoked_exactly_apart :
    let db := run plainEnv .empty (sharedTwice ⟨0, "paper", ["editor"]⟩ ⟨0, "data", []⟩)
    ∃ t, Run (fun s e t => GiftStep plainEnv 1 0 s e t ∧ s.AcceptsApart e) ⟨db, []⟩
      [.accept 0, .accept 1, .revoke 1] t
      ∧ t.gifts ≠ [] ∧ t.StoredAsGiven 1 0 := by
  intro db
  have hnew : db.memberships.rows.all
    (fun m => !(m.2.user == 1 && m.2.organization == 0)) = true := by decide +kernel
  have hfirst : (db.invites.row 0).any
    (fun i => i.createdFor == 0 && i.sharedCollaborations == some [⟨0, "paper", ["editor"]⟩]) = true := by
    decide +kernel
  have hok : (db.redeemInvite 0 1).toOption.any (fun r => (r.1.redeemInvite 1 1).isOk
      && (r.1.invites.row 1).any fun i => i.createdFor == 0
        && i.sharedCollaborations == some [⟨0, "data", []⟩]) = true := by
    decide +kernel
  obtain ⟨i, hi, hp⟩ := (Option.any_eq_true _ _).mp hfirst
  obtain ⟨r, hr, hok⟩ := exists_ok_and hok
  obtain ⟨hok, hsecond⟩ := (Bool.and_eq_true _ _).mp hok
  obtain ⟨r', hr'⟩ := exists_ok hok
  obtain ⟨j, hj, hq⟩ := (Option.any_eq_true _ _).mp hsecond
  simp only [Bool.and_eq_true, beq_iff_eq] at hp hq
  have hsteps : Run (fun s e t => GiftStep plainEnv 1 0 s e t ∧ s.AcceptsApart e) ⟨db, []⟩
    [.accept 0, .accept 1, .revoke 1]
      ⟨r'.1.revokeInviteGrants 1, [(1, j), (0, i)].filter (·.1 != 1)⟩ := by
    refine .cons ⟨.accept hi hp.1 (by simp [hp.2]) hr, fun _ _ gift hgift => nomatch hgift⟩
      (.cons ⟨.accept hj hq.1 (by simp [hq.2]) hr', fun j' hj' gift hgift _ x c hnames hnames' => ?_⟩
        (.single ⟨.revoke 1, trivial⟩))
    have hj' : r.1.invites.row 1 = some j' := hj'
    rw [hj] at hj'
    cases hj'
    obtain rfl := List.mem_singleton.mp hgift
    simp only [Invite.Names, hp.2, hq.2, Option.getD_some, List.mem_singleton, exists_eq_left] at hnames hnames'
    rw [← hnames.2] at hnames'
    simp at hnames'
  exact ⟨_, hsteps, by simp, revoked_exactly (reachable_run plainEnv _) (not_isMember hnew) rfl hsteps⟩

/-- Bob accepts both, the second widens his one grant, and revoking it takes what the first gave. -/
theorem revocation_takes_more :
    let db := run plainEnv .empty (sharedTwice ⟨0, "paper", ["editor"]⟩ ⟨0, "paper", ["viewer"]⟩)
    (∀ k, ¬ db.IsMember 1 0 k) ∧ ∃ t, Run (GiftStep plainEnv 1 0) ⟨db, []⟩ [.accept 0, .accept 1, .revoke 1] t
      ∧ ¬ t.StoredAsGiven 1 0 := by
  intro db
  have hnew : db.memberships.rows.all
    (fun m => !(m.2.user == 1 && m.2.organization == 0)) = true := by decide +kernel
  have hfirst : (db.invites.row 0).any (fun i => i.createdFor == 0 && i.sharedCollaborations.isSome)
    = true := by decide +kernel
  have hok : (db.redeemInvite 0 1).toOption.any (fun r => (r.1.redeemInvite 1 1).toOption.any
      (fun r' => (r'.1.revokeInviteGrants 1).memberships.rows.all
        fun m => !(m.2.user == 1 && m.2.organization == 0))
      && (r.1.invites.row 1).any fun i => i.createdFor == 0 && i.sharedCollaborations.isSome)
        = true := by decide +kernel
  obtain ⟨i, hi, hp⟩ := (Option.any_eq_true _ _).mp hfirst
  obtain ⟨r, hr, hok⟩ := exists_ok_and hok
  obtain ⟨hok, hsecond⟩ := (Bool.and_eq_true _ _).mp hok
  obtain ⟨r', hr', hgone⟩ := exists_ok_and hok
  obtain ⟨j, hj, hq⟩ := (Option.any_eq_true _ _).mp hsecond
  simp only [Bool.and_eq_true, beq_iff_eq] at hp hq
  refine ⟨not_isMember hnew, ⟨r'.1.revokeInviteGrants 1, [(1, j), (0, i)].filter (·.1 != 1)⟩,
    .cons (.accept hi hp.1 hp.2 hr) (.cons (.accept hj hq.1 hq.2 hr') (.single (.revoke 1))), fun h => ?_⟩
  obtain ⟨k, hk⟩ := h.membership.mpr (by simp)
  exact not_isMember hgone k hk

end Lok
