import Lok.SystemWrites

/-!
# Who stands behind a guest's roles

A grant lists the roles of every invite that was redeemed for its collaboration, and one
granter: whoever made the last invite that added something. A token lists those of its roles
that this granter holds now. So an inviter stands behind every listed role, and an invite
named it, but the two need not be of the same person.
-/

namespace Lok

open Table Runs Checks

/-! ## Invites -/

/-- The invite shares the collaboration. -/
def Invite.Names (i : Invite) (instance_ : Pk) (collaboration : String) : Prop :=
  ∃ ref ∈ i.sharedCollaborations.getD [], ref.instance_ = instance_ ∧ ref.collaboration = collaboration

def Invite.Gives (i : Invite) (instance_ : Pk) (collaboration role : String) : Prop :=
  ∃ ref ∈ i.sharedCollaborations.getD [], (ref.instance_ = instance_ ∧ ref.collaboration = collaboration)
    ∧ role ∈ ref.roles

instance (i : Invite) (instance_ : Pk) (collaboration role : String) :
    Decidable (i.Gives instance_ collaboration role) :=
  inferInstanceAs (Decidable (∃ ref ∈ _, _))

/-- The invite an action redeems, with the membership that accepts it. -/
def accepted (db : DB) : Action → List (Pk × Invite)
  | .redeemInvite invite user =>
    match db.invites.row invite, db.redeemInvite invite user with
    | some i, .ok (_, membership) => [(membership, i)]
    | _, _ => []
  | _ => []

/-- The invites that were accepted along some actions. -/
def acceptances (env : Env) : DB → List Action → List (Pk × Invite)
  | _, [] => []
  | db, a :: as => accepted db a ++ acceptances env (step env db a) as

/-- Granting without an invite, which nothing in the deployment does. -/
def Action.grantsDirectly : Action → Bool
  | .grantCollaborations .. => true
  | _ => false

/-! ## Backed grants -/

/-- The granter made one of the accepted invites for the collaboration, and one of them gave each role. -/
structure Backing (hist : List (Pk × Invite)) (g : CollaborationGrant) : Prop where
  granter : ∀ b, g.grantedBy = some b → ∃ i, (g.membership, i) ∈ hist ∧ i.createdBy = b
    ∧ i.Names g.instance_ g.collaborationId
  roles : ∀ r ∈ g.roles, ∃ i, (g.membership, i) ∈ hist ∧ i.Gives g.instance_ g.collaborationId r

theorem Backing.mono {hist hist' : List (Pk × Invite)} {g : CollaborationGrant} (h : Backing hist g)
    (hsub : hist ⊆ hist') :
    Backing hist' g where
  granter b hb := (h.granter b hb).imp fun _ hi => ⟨hsub hi.1, hi.2⟩
  roles r hr := (h.roles r hr).imp fun _ hi => ⟨hsub hi.1, hi.2⟩

theorem Backing.cleared {hist : List (Pk × Invite)} {g g' : CollaborationGrant} (h : Backing hist g)
    (hc : g.Cleared g') :
    Backing hist g' := by
  obtain ⟨i, u, rfl, hu⟩ := hc
  refine ⟨fun b hb => ?_, h.roles⟩
  have hb : u = some b := hb
  rcases hu with rfl | rfl
  · exact h.granter b hb
  · cases hb

namespace DB

variable {db d : DB} {env : Env} {hist : List (Pk × Invite)}

def Backed (hist : List (Pk × Invite)) (db : DB) : Prop := ∀ pk g, db.grants.row pk = some g → Backing hist g

theorem Backed.mono {hist' : List (Pk × Invite)} (h : db.Backed hist) (hsub : hist ⊆ hist') : db.Backed hist' :=
  fun pk g hg => (h pk g hg).mono hsub

theorem Backed.shrink (h : db.Backed hist) (hs : Table.Shrinks CollaborationGrant.Cleared db.grants d.grants) :
    d.Backed hist := by
  intro pk g' hg'
  obtain ⟨g, hg, hcleared⟩ := hs.2 pk g' hg'
  exact (h pk g hg).cleared hcleared

theorem Backed.write {l : Label} (h : db.Backed hist) (hw : Write db l d) (hl : l ≠ .share) : d.Backed hist := by
  cases hw with
  | newGrant | grants => exact absurd rfl hl
  | delete origin roots upgrading => exact h.shrink (delete_shrinks db origin roots upgrading).grants
  | renameRole hd =>
    obtain ⟨_, _, -, rfl, -⟩ := renameRole_ok hd
    exact h
  | _ => exact h

theorem Backed.writes {A : Licence} (h : db.Backed hist) (hA : ¬ A.share) (hw : Writes A db d) : d.Backed hist :=
  hw.invariant (I := Backed hist) (fun hI hw hl => hI.write hw fun heq => by rw [heq] at hl; exact hA hl) h

end DB

/-! ## Redeeming -/

theorem mem_mergeRefs {ref : CollaborationRef} : ∀ {entries : List CollaborationRef}, ref ∈ mergeRefs entries →
    (∃ e ∈ entries, e.instance_ = ref.instance_ ∧ e.collaboration = ref.collaboration)
      ∧ ∀ r ∈ ref.roles, ∃ e ∈ entries, (e.instance_ = ref.instance_
        ∧ e.collaboration = ref.collaboration) ∧ r ∈ e.roles
  | [], h => by simp [mergeRefs] at h
  | e :: entries, h => by
    rw [mergeRefs] at h
    rcases List.mem_cons.mp h with rfl | h
    · refine ⟨⟨e, by simp, rfl, rfl⟩, fun r hr => ?_⟩
      rcases List.mem_append.mp (mem_sortedSet.mp hr) with hr | hr
      · exact ⟨e, by simp, ⟨rfl, rfl⟩, hr⟩
      · obtain ⟨x, hx, hrx⟩ := List.mem_flatMap.mp hr
        obtain ⟨hx, hsame⟩ := List.mem_filter.mp hx
        simp only [Bool.and_eq_true, beq_iff_eq] at hsame
        obtain ⟨y, hy, hkey, hry⟩ := (mem_mergeRefs hx).2 r hrx
        exact ⟨y, by simp [hy], ⟨hkey.1.trans hsame.1, hkey.2.trans hsame.2⟩, hry⟩
    · obtain ⟨⟨y, hy, hkey⟩, hroles⟩ := mem_mergeRefs (List.mem_filter.mp h).1
      refine ⟨⟨y, by simp [hy], hkey⟩, fun r hr => ?_⟩
      obtain ⟨z, hz, hz'⟩ := hroles r hr
      exact ⟨z, by simp [hz], hz'⟩

namespace DB

variable {db d : DB} {env : Env} {hist : List (Pk × Invite)} {membership : Pk} {i : Invite}

theorem Backed.grantOne {invite : Option Pk} {expiresAt : Option Time} {mesh changed : Bool}
    {ref : CollaborationRef}
    {r : DB × Bool} (hdb : db.Backed hist) (hi : (membership, i) ∈ hist)
    (hnames : i.Names ref.instance_ ref.collaboration)
    (hgives : ∀ x ∈ ref.roles, i.Gives ref.instance_ ref.collaboration x)
    (h : DB.grantOne membership invite (some i.createdBy) expiresAt mesh (db, changed) ref = .ok r) :
    r.1.Backed hist := by
  cases grantOne_gives h with
  | made _ ht =>
    subst ht
    intro pk g hg
    rcases insert_row_eq_some.mp hg with ⟨-, rfl⟩ | hg
    · refine ⟨fun b hb => ?_, fun x hx => ⟨i, hi, hgives x hx⟩⟩
      cases hb
      exact ⟨i, hi, rfl, hnames⟩
    · exact hdb pk g hg
  | @widened _ g hgrant =>
    obtain ⟨hrow, hmembership, hinstance, hcollaboration⟩ := grantFor_some hgrant
    intro pk g' hg'
    rcases modify_row_eq_some.mp hg' with ⟨-, hg'⟩ | ⟨rfl, g₀, hg₀, rfl⟩
    · exact hdb pk g' hg'
    · rw [hrow] at hg₀
      cases hg₀
      refine ⟨fun b hb => ?_, fun x hx => ?_⟩
      · cases hb
        refine ⟨i, ?_, rfl, ?_⟩
        · show (g.membership, i) ∈ hist
          rw [hmembership]
          exact hi
        · show i.Names g.instance_ g.collaborationId
          rw [hinstance, hcollaboration]
          exact hnames
      · rcases List.mem_append.mp (mem_sortedSet.mp hx) with hx | hx
        · exact (hdb _ g hrow).roles x hx
        · refine ⟨i, ?_, ?_⟩
          · show (g.membership, i) ∈ hist
            rw [hmembership]
            exact hi
          · show i.Gives g.instance_ g.collaborationId x
            rw [hinstance, hcollaboration]
            exact hgives x hx
  | kept => exact hdb

theorem Backed.grantCollaborations {entries : List CollaborationRef} {invite : Option Pk} {expiresAt : Option Time}
    {mesh : Bool} {r : DB × Bool} (hdb : db.Backed hist) (hi : (membership, i) ∈ hist)
    (hentries : i.sharedCollaborations = some entries)
    (h : db.grantCollaborations membership entries invite (some i.createdBy) expiresAt mesh = .ok r) :
    r.1.Backed hist := by
  simp only [DB.grantCollaborations, bind_ok, Table.get_ok, require_ok, exists_unit] at h
  obtain ⟨m, -, -, -, -, h⟩ := h
  have hshared : i.sharedCollaborations.getD [] = entries := by simp [hentries]
  refine foldlM_ok (R := fun s t : DB × Bool => s.1.Backed hist → t.1.Backed hist) (fun _ => id)
    (fun hst htu hs => htu (hst hs)) (fun ref hmem s t hst hs => ?_) h hdb
  obtain ⟨hnamed, hroles⟩ := mem_mergeRefs hmem
  refine hs.grantOne hi ?_ (fun x hx => ?_) hst
  · unfold Invite.Names
    rw [hshared]
    exact hnamed
  · unfold Invite.Gives
    rw [hshared]
    exact hroles x hx

/-- The licence to make any write but a grant. -/
def unshared : Licence := { Licence.free with share := False }

theorem Backed.redeemCollaborationInvite {pk user : Pk} {refs : List CollaborationRef} {r : DB × Pk}
    (hdb : db.Backed hist)
    (hi : (r.2, i) ∈ hist) (hrefs : i.sharedCollaborations = some refs)
    (h : db.redeemCollaborationInvite pk i refs user = .ok r) : r.1.Backed hist := by
  simp only [DB.redeemCollaborationInvite, bind_ok, reraise_ok, Prod.exists] at h
  obtain ⟨d, m, hd, e, changed, hgrant, h⟩ := h
  have hd' : d.Backed hist := hdb.writes (A := unshared) id (getOrCreateMembership_writes trivial hd)
  have hgranted : ∀ m', (m', i) ∈ hist → m' = m → e.Backed hist := by
    rintro m' hi rfl
    exact hd'.grantCollaborations hi hrefs hgrant
  split at h
  · cases pure_ok.mp h
    exact hgranted _ hi rfl
  · cases pure_ok.mp h
    refine (hgranted _ hi rfl).writes (A := unshared) id ?_
    dsimp only
    split
    · exact (modifyInvite_writes _ _).trans (acceptInvite_writes _ _)
    · exact modifyInvite_writes _ _

theorem Backed.redeemInvite {pk user : Pk} {r : DB × Pk} (hdb : db.Backed hist) (hi : db.invites.row pk = some i)
    (hmem : (r.2, i) ∈ hist) (h : db.redeemInvite pk user = .ok r) : r.1.Backed hist := by
  simp only [DB.redeemInvite, bind_ok, Table.get_ok, exists_unit] at h
  obtain ⟨i', hi', -, h⟩ := h
  rw [hi] at hi'
  cases hi'
  split at h
  · rename_i hrefs _
    split at h
    · exact hdb.redeemCollaborationInvite hmem hrefs h
    · cases h
      exact hdb
  · rename_i hrefs _
    exact hdb.redeemCollaborationInvite hmem hrefs h
  · exact hdb.writes (A := unshared) id (redeemMemberInvite_writes trivial (fun _ _ => trivial) h)

end DB

/-! ## Every run -/

theorem step_backed {env : Env} {db : DB} {hist : List (Pk × Invite)} (a : Action) (ha : a.grantsDirectly = false)
    (h : db.Backed hist) : (step env db a).Backed (hist ++ accepted db a) := by
  have hlater := h.mono (List.subset_append_left hist (accepted db a))
  by_cases hshares : a.shares
  · cases a with
    | redeemInvite invite user =>
      show (db.settle _).Backed _
      cases hr : db.redeemInvite invite user with
      | error => exact hlater
      | ok r =>
        obtain ⟨i, hi⟩ : ∃ i, db.invites.row invite = some i := by
          simp only [DB.redeemInvite, bind_ok, Table.get_ok] at hr
          obtain ⟨i, hi, -⟩ := hr
          exact ⟨i, hi⟩
        exact hlater.redeemInvite hi (by simp [accepted, hi, hr]) hr
    | grantCollaborations => cases ha
    | _ => exact hshares.elim
  · cases hdeletes : a.deletes with
    | true => exact step_deletes hdeletes hlater fun _ _ => hlater.shrink (DB.delete_shrinks _ _ _ _).grants
    | false => exact hlater.writes hshares (step_writes env db hdeletes)

theorem run_backed {env : Env} {db d : DB} {as : List Action} (hrun : Run (Step env) db as d)
    (has : ∀ a ∈ as, a.grantsDirectly = false) {hist : List (Pk × Invite)} (h : db.Backed hist) :
    d.Backed (hist ++ acceptances env db as) := by
  induction hrun generalizing hist with
  | nil => simpa [acceptances] using h
  | @cons s t u a as hst _ ih =>
    have hst : t = step env s a := hst
    subst hst
    have := ih (fun b hb => has b (by simp [hb])) (step_backed a (has a (by simp)) h)
    rwa [List.append_assoc] at this

theorem mem_liveCollaborations {db : DB} {g : Pk} {instances : List Pk} {name c : String} {roles : List String}
    (h : (name, c, roles) ∈ db.liveCollaborations g instances) :
    ∃ m pk x i, db.memberships.row g = some m ∧ db.grants.row pk = some x ∧ x.membership = g
    ∧ x.collaborationId = c
      ∧ db.instances.row x.instance_ = some i ∧ i.instanceId = name
      ∧ ∃ b, x.grantedBy = some b ∧ db.isActiveFullMember m.organization b = true
        ∧ ∀ r ∈ roles, r ∈ x.roles ∧ r ∈ db.rolesHeld m.organization b := by
  unfold DB.liveCollaborations at h
  split at h
  · cases h
  · rename_i m hm
    dsimp only at h
    obtain ⟨⟨pk, x⟩, hx, hentry⟩ := List.mem_filterMap.mp h
    obtain ⟨i, hi, heq⟩ := Option.map_eq_some_iff.mp hentry
    have hlive := (List.mem_filter.mp (List.mem_of_mem_take hx)).1
    simp only [DB.liveGrants, hm] at hlive
    obtain ⟨hrow, hp⟩ := mem_filter.mp hlive
    simp only [DB.grantLives, Bool.and_eq_true, beq_iff_eq, Option.any_eq_true] at hp
    obtain ⟨hmembership, -, b, hb, hactive⟩ := hp
    cases heq
    refine ⟨m, pk, x, i, hm, hrow, hmembership, rfl, hi, rfl, b, hb, hactive, fun r hr => ?_⟩
    have hr := List.mem_filter.mp (mem_sortedSet.mp hr)
    rw [hb] at hr
    exact ⟨hr.1, by simpa using hr.2⟩

/-- Behind a role that a guest's token lists for a collaboration stands an active full member who holds it
now, whose invite to that collaboration the guest accepted; and some invite the guest accepted gave the role
there. -/
theorem listed_role_backed {env : Env} {d : DB} {as : List Action} {g : Pk} {instances : List Pk}
    {name c r : String}
    {roles : List String} (hrun : Run (Step env) .empty as d) (has : ∀ a ∈ as, a.grantsDirectly = false)
    (hlisted : (name, c, roles) ∈ d.liveCollaborations g instances) (hr : r ∈ roles) :
    ∃ m k i b, d.memberships.row g = some m ∧ d.instances.row k = some i ∧ i.instanceId = name
      ∧ d.isActiveFullMember m.organization b = true ∧ r ∈ d.rolesHeld m.organization b
      ∧ (∃ v, (g, v) ∈ acceptances env .empty as ∧ v.createdBy = b ∧ v.Names k c)
      ∧ ∃ v, (g, v) ∈ acceptances env .empty as ∧ v.Gives k c r := by
  have hbacked : d.Backed ([] ++ acceptances env .empty as) := run_backed hrun has (by simp [DB.Backed, DB.empty])
  obtain ⟨m, pk, x, i, hm, hx, rfl, rfl, hi, hname, b, hb, hactive, hroles⟩ := mem_liveCollaborations hlisted
  have hbacking := hbacked pk x hx
  obtain ⟨hgiven, hheld⟩ := hroles r hr
  exact ⟨m, x.instance_, i, b, hm, hi, hname, hactive, hheld, hbacking.granter b hb, hbacking.roles r hgiven⟩

/-- Bob, an editor, invites Carol to edit; Ann, who holds the role too, invites her to the same
collaboration as an admin. -/
def widened : List Action :=
  [.createUser "ann" [], .createUser "bob" [], .createUser "carol" [], .createOrganization "org" 0 false,
   .configureHub 0 plainHub, .createRole "editor" 0, .addRoles 0 [2], .createMembership 1 0, .addRoles 1 [2],
   .createInvite 1 0 none [] (some [⟨0, "c", ["editor"]⟩]) none false, .redeemInvite 0 2,
   .createInvite 0 0 none [] (some [⟨0, "c", ["admin"]⟩]) none false, .redeemInvite 1 2]

/-- Carol's token lists the editor's role; Ann stands behind it, and an invite that Carol accepted gave it. -/
theorem listed_role_backed_widened :
    ("data", "c", ["admin", "editor"]) ∈ (run plainEnv .empty widened).liveCollaborations 2 [0]
      ∧ ∃ k b v, "editor" ∈ (run plainEnv .empty widened).rolesHeld 0 b
        ∧ (2, v) ∈ acceptances plainEnv .empty widened ∧ v.Gives k "c" "editor" := by
  have hlisted : ("data", "c", ["admin", "editor"]) ∈ (run plainEnv .empty widened).liveCollaborations 2
    [0] := by decide +kernel
  have horg : ∀ pk m, (run plainEnv .empty widened).memberships.row pk = some m → m.organization = 0 := by
    simp only [Table.forall_row_iff]
    decide +kernel
  obtain ⟨m, k, i, b, hm, -, -, -, hheld, -, v, hv, hgives⟩ :=
    listed_role_backed (run_steps plainEnv widened .empty) (by decide) hlisted (r := "editor") (by simp)
  rw [horg 2 m hm] at hheld
  exact ⟨hlisted, k, b, v, hheld, hv, hgives⟩

/-- Bob leaves, and Carol stays an editor: nobody who gave her the role is a member any more. -/
theorem widened_role_outlives_inviter :
    ∃ as d, Run (Step plainEnv) .empty as d ∧ (∀ a ∈ as, a.grantsDirectly = false)
      ∧ ("data", "c", ["admin", "editor"]) ∈ d.liveCollaborations 2 [0]
      ∧ ∀ x ∈ acceptances plainEnv .empty as, x.2.Gives 0 "c" "editor" →
      d.isActiveFullMember 0 x.2.createdBy = false :=
  ⟨widened ++ [.delete .membership [1]], _, run_steps _ _ _, by decide, by decide +kernel, by decide +kernel⟩

end Lok
