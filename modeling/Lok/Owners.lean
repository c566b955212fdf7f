import Lok.GuestLaws
import Lok.HandedOut

/-!
# Owners are full members

Saving an organization adds the admin role to its owner's membership, which a guest is
refused. The owner is a full member where the organization is made and where it changes hands,
and stays one: only leaving, and coming back by an invite to some collaborations, makes the
owner a guest.
-/

namespace Lok

open Table Checks Runs

namespace DB

variable {db d : DB}

/-! ## Who the members are -/

/-- A role lok may hand this member: an admin role, or a default one that was not withheld. -/
def Flagged (roles : Table Role) (m : Membership) (r : Pk) : Prop :=
  ∃ x, roles.row r = some x ∧ x.organization = m.organization ∧ (x.isAdminRole = true ∨ x.isDefaultRole = true
    ∧ r ∉ m.withheldRoles)

/-- What the member has from lok is lok's to give. -/
def Flags (roles : Table Role) (m : Membership) : Prop := ∀ r ∈ m.automaticRoles, Flagged roles m r

theorem Entitled.flagged {m : Membership} {r : Pk} (h : db.Entitled m r) : Flagged db.roles m r := by
  obtain ⟨x, hx, ho, hflag⟩ := h
  exact ⟨x, hx, ho, hflag.imp_left And.left⟩

theorem Flagged.entitled {m : Membership} {r : Pk} (h : Flagged db.roles m r) (howner : db.administers m = true) :
    db.Entitled m r := by
  obtain ⟨x, hx, ho, hflag⟩ := h
  exact ⟨x, hx, ho, hflag.imp_left fun hadmin => ⟨hadmin, howner⟩⟩

/-- The same person in the same organization. -/
def Who (m m' : Membership) : Prop := m'.user = m.user ∧ m'.organization = m.organization

/-- The same person in the same organization, who still has nothing from lok but what is lok's to give. -/
def Follows (roles : Table Role) (m m' : Membership) : Prop := Who m m' ∧ (Flags roles m → Flags roles m')

theorem Who.refl (m : Membership) : Who m m := ⟨rfl, rfl⟩

theorem Follows.refl (roles : Table Role) (m : Membership) : Follows roles m m := ⟨.refl m, id⟩

theorem Follows.trans {roles : Table Role} {a b c : Membership} (h : Follows roles a b) (k : Follows roles b c) :
    Follows roles a c :=
  ⟨⟨k.1.1.trans h.1.1, k.1.2.trans h.1.2⟩, fun hflags => k.2 (h.2 hflags)⟩

theorem Follows.less {roles : Table Role} {m m' : Membership} (hwho : Who m m')
    (hautomatic : ∀ r ∈ m'.automaticRoles, r ∈ m.automaticRoles)
    (hwithheld : ∀ r ∈ m'.automaticRoles, r ∈ m'.withheldRoles → r ∈ m.withheldRoles) : Follows roles m m' := by
  refine ⟨hwho, fun hflags r hr => ?_⟩
  obtain ⟨x, hx, ho, hflag⟩ := hflags r (hautomatic r hr)
  exact ⟨x, hx, ho.trans hwho.2.symm,
    hflag.imp_right fun hdefault => ⟨hdefault.1, fun hno => hdefault.2 (hwithheld r hr hno)⟩⟩

theorem SameRoles.follows {roles : Table Role} {m m' : Membership} (h : SameRoles m m') : Follows roles m m' :=
  .less ⟨h.user, h.organization⟩ (fun r hr => by rwa [h.automatic] at hr) fun r _ hr => by rwa [h.withheld] at hr

theorem Synced.follows {m m' : Membership} (h : db.Synced m m') : Follows db.roles m m' := by
  refine ⟨⟨h.user, h.organization⟩, fun _ r hr => ?_⟩
  obtain ⟨x, hx, ho, hflag⟩ := Entitled.flagged ((h.automatic r).mp hr).1
  refine ⟨x, hx, ho.trans h.organization.symm, ?_⟩
  rw [h.withheld]
  exact hflag

/-- Only memberships changed, and each follows what it was. -/
def SamePeople (db d : DB) : Prop :=
  ∃ t, d = { db with memberships := t } ∧ Rewrites (fun _ => Follows db.roles) db.memberships t

theorem SamePeople.refl (db : DB) : SamePeople db db := ⟨db.memberships, rfl, .refl (fun _ m => .refl _ m) _⟩

theorem SamePeople.trans {e : DB} (h : SamePeople db d) (k : SamePeople d e) : SamePeople db e := by
  obtain ⟨t, rfl, ht⟩ := h
  obtain ⟨u, rfl, hu⟩ := k
  refine ⟨u, rfl, (Rewrites.comp ht hu).mono ?_⟩
  rintro k m m' ⟨m₁, h₁, h₂⟩
  exact h₁.trans h₂

theorem modifyMembership_people {pk : Pk} {f : Membership → Membership} (hf : ∀ m, Follows db.roles m (f m)) :
    SamePeople db (db.modifyMembership pk f) :=
  ⟨_, rfl, .modify (fun _ m => .refl _ m) fun m _ => hf m⟩

theorem syncAdmin_people (l : List Pk) : SamePeople db (db.syncAdmin l) :=
  ⟨_, rfl, (syncAdmin_rows db l).mono fun _ _ _ h => h.follows⟩

theorem takenByAnAdmin_people (db : DB) (membership : Pk) (roles : List Pk) :
    SamePeople db (db.takenByAnAdmin membership roles) :=
  modifyMembership_people fun m => .less ⟨rfl, rfl⟩ (fun r hr => (mem_removePks.mp hr).1) fun r hr hwithheld => by
    rcases mem_addPks.mp hwithheld with hwithheld | hnew
    · exact hwithheld
    · obtain ⟨x, -, hx⟩ := mem_pks.mp hnew
      rw [Bool.and_eq_true, List.contains_iff_mem] at hx
      exact absurd hx.1 (mem_removePks.mp hr).2

theorem givenByAnAdmin_people (db : DB) (membership : Pk) (roles : List Pk) :
    SamePeople db (db.givenByAnAdmin membership roles) :=
  modifyMembership_people fun _ => .less ⟨rfl, rfl⟩ (fun _ hr => hr) fun _ _ hr => (mem_removePks.mp hr).1

theorem syncMembership_people (db : DB) (pk : Pk) : SamePeople db (db.syncMembership pk) := by
  obtain ⟨t, ht⟩ := syncMembership_eq db pk
  have hrows := syncMembership_rows db pk
  rw [ht] at hrows
  refine ⟨t, ht, hrows.mono ?_⟩
  intro k m m' hm
  by_cases hk : k = pk
  · exact (hm.1 hk).follows
  · exact (hm.2 hk).follows

theorem syncServiceRoles_people (db : DB) (pks : List Pk) : SamePeople db (db.syncServiceRoles pks) :=
  foldl_invariant (P := fun d : DB => SamePeople db d)
    (fun pk _ d hd => hd.trans (syncMembership_people d pk)) (.refl db)

theorem removeRoles_people (db : DB) (membership : Pk) (roles : List Pk) :
    SamePeople db (db.removeRoles membership roles) := by
  unfold DB.removeRoles
  split
  · exact .refl db
  · have hremoved : SamePeople db
      (db.modifyMembership membership fun m => { m with roles := removePks m.roles roles }) :=
      modifyMembership_people fun m => .less ⟨rfl, rfl⟩ (fun r hr => hr) fun r _ hr => hr
    exact ((hremoved.trans (syncAdmin_people _)).trans (takenByAnAdmin_people _ _ _)).trans
      (syncServiceRoles_people _ _)

theorem addRoles_people {membership : Pk} {roles : List Pk} (hok : db.addRoles membership roles = .ok d) :
    SamePeople db d := by
  unfold DB.addRoles at hok
  split at hok
  · obtain rfl : db = d := by simpa using hok
    exact .refl db
  · simp only [bind_ok, Table.get_ok, require_ok, exists_unit, pure_ok] at hok
    obtain ⟨m, -, -, -, rfl⟩ := hok
    have hadded : SamePeople db
      (db.modifyMembership membership fun m => { m with roles := addPks m.roles roles }) :=
      modifyMembership_people fun m => .less ⟨rfl, rfl⟩ (fun r hr => hr) fun r _ hr => hr
    exact ((hadded.trans (syncAdmin_people _)).trans (givenByAnAdmin_people _ _ _)).trans
      (syncServiceRoles_people _ _)

theorem setRoles_people {membership : Pk} {roles : List Pk} (hok : db.setRoles membership roles = .ok d) :
    SamePeople db d := by
  simp only [DB.setRoles, bind_ok, Table.get_ok] at hok
  obtain ⟨m, -, hok⟩ := hok
  exact (removeRoles_people db membership _).trans (addRoles_people hok)

/-! ## Owners -/

/-- Whoever owns an organization is no guest of it. -/
structure OwnersFull (db : DB) : Prop where
  owner : ∀ o x, db.organizations.row o = some x → ∀ k m, db.memberships.row k = some m → m.organization = o →
    m.user = x.owner → db.isScoped k = false
  owners : ∀ o x, db.organizations.row o = some x → ∃ u, db.users.row x.owner = some u
  users : ∀ k m, db.memberships.row k = some m → ∃ u, db.users.row m.user = some u
  unique : ∀ j k m n, db.memberships.row j = some m → db.memberships.row k = some n → m.user = n.user →
    m.organization = n.organization → j = k
  owned : ∀ k g, db.grants.row k = some g → g.membership < db.memberships.next
  flags : ∀ k m, db.memberships.row k = some m → Flags db.roles m

theorem OwnersFull.fewer (h : db.OwnersFull)
    (horganizations : ∀ o x, d.organizations.row o = some x → db.organizations.row o = some x)
    (husers : ∀ u a, db.users.row u = some a → ∃ b, d.users.row u = some b)
    (hmembers : Table.Shrinks Who db.memberships d.memberships)
    (hgrants : ∀ k g, d.grants.row k = some g → ∃ g', db.grants.row k = some g' ∧ g.membership = g'.membership)
    (hflags : ∀ k m, d.memberships.row k = some m → Flags d.roles m) : d.OwnersFull := by
  have hscoped : ∀ k, db.isScoped k = false → d.isScoped k = false := by
    intro k hfull
    refine exists?_eq_false.mpr fun j g hg => ?_
    obtain ⟨g', hg', heq⟩ := hgrants j g hg
    rw [heq]
    exact exists?_eq_false.mp hfull j g' hg'
  refine ⟨fun o x hx k m' hm' ho hu => ?_, fun o x hx => ?_, fun k m' hm' => ?_, fun j k m' n' hm' hn' hu ho => ?_,
    fun k g hg => ?_, hflags⟩
  · obtain ⟨m, hm, hwho⟩ := hmembers.2 k m' hm'
    exact hscoped k (h.owner o x (horganizations o x hx) k m hm (hwho.2.symm.trans ho) (hwho.1.symm.trans hu))
  · obtain ⟨u, hu⟩ := h.owners o x (horganizations o x hx)
    exact husers _ _ hu
  · obtain ⟨m, hm, hwho⟩ := hmembers.2 k m' hm'
    obtain ⟨u, hu⟩ := h.users k m hm
    rw [hwho.1]
    exact husers _ _ hu
  · obtain ⟨m, hm, hwho⟩ := hmembers.2 j m' hm'
    obtain ⟨n, hn, hwho'⟩ := hmembers.2 k n' hn'
    exact h.unique j k m n hm hn (hwho.1.symm.trans (hu.trans hwho'.1)) (hwho.2.symm.trans (ho.trans hwho'.2))
  · obtain ⟨g', hg', heq⟩ := hgrants k g hg
    rw [heq, hmembers.1]
    exact h.owned k g' hg'

theorem SamePeople.ownersFull (hsame : SamePeople db d) (h : db.OwnersFull) : d.OwnersFull := by
  obtain ⟨t, rfl, ht⟩ := hsame
  refine h.fewer (fun _ _ hx => hx) (fun _ a ha => ⟨a, ha⟩) ⟨ht.1, fun k m' hm' => ?_⟩ (fun _ g hg => ⟨g, hg, rfl⟩)
    fun k m' hm' => ?_
  · obtain ⟨m, hm, hfollows⟩ := ht.before hm'
    exact ⟨m, hm, hfollows.1⟩
  · obtain ⟨m, hm, hfollows⟩ := ht.before hm'
    exact hfollows.2 (h.flags k m hm)

/-! ## Members leave, guests are upgraded, grants are revoked -/

theorem flags_removeCascade {roots : List Ref} (hrole : ∀ r ∈ db.collect roots, r.model ≠ .role)
    (h : ∀ k m, db.memberships.row k = some m → Flags db.roles m) :
    ∀ k m, (db.removeCascade roots).memberships.row k = some m → Flags (db.removeCascade roots).roles m := by
  intro k m' hm' r hr
  obtain ⟨m, hm, rfl⟩ := update_row_eq_some.mp hm'
  rw [show (Membership.automaticRoles _) = m.automaticRoles from keepList_eq_self hrole] at hr
  obtain ⟨x, hx, ho, hflag⟩ := h k m (keep_row_eq_some.mp hm).1 r hr
  refine ⟨_, update_row_eq_some.mpr ⟨x, keep_row_eq_some.mpr ⟨hx, keeps_eq_true hrole r⟩, rfl⟩, ho, ?_⟩
  rw [show (Membership.withheldRoles _) = m.withheldRoles from keepList_eq_self hrole]
  exact hflag

theorem OwnersFull.delete {origin : Model} {roots : List Ref} {upgrading : Option Pk} (h : db.OwnersFull)
    (hroots : ∀ r ∈ roots, r.model ∈ withMemberships) : (db.delete origin roots upgrading).OwnersFull := by
  have hshrinks := delete_shrinks db origin roots upgrading
  have hnorole : ∀ {S : List Model} {d : DB} {roots : List Ref}, Within S →
    (∀ r ∈ roots, r.model ∈ S) → Model.role ∉ S →
      ∀ r ∈ d.collect roots, r.model ≠ .role :=
    fun hS hroots hno r hr hrole => hno (hrole ▸ collect_within hS hroots hr)
  refine h.fewer (fun o x hx => ?_) (fun u a ha => ?_) ⟨hshrinks.memberships.1, fun k m' hm' => ?_⟩
    (fun k g hg => ?_) ?_
  · obtain ⟨x', hx', rfl⟩ := hshrinks.organizations.2 o x hx
    exact hx'
  · exact delete_spares (r := ⟨.user, u⟩) withMemberships_within hroots (by simp [withMemberships])
      (by simp [withMemberships])
      (by simp [withMemberships]) ⟨a, ha⟩
  · obtain ⟨m, hm, hu, ho, -⟩ := hshrinks.memberships.2 k m' hm'
    exact ⟨m, hm, hu, ho⟩
  · obtain ⟨g', hg', _, _, rfl, -⟩ := hshrinks.grants.2 k g hg
    exact ⟨g', hg', rfl⟩
  · refine delete_induct_sync (P := fun d : DB => ∀ k m, d.memberships.row k = some m → Flags d.roles m)
      (fun d m hd => ?_)
      (fun d c hd => ?_) fun k m' hm' => ?_
    · exact flags_removeCascade
        (hnorole withMemberships_within (by simp [withMemberships]) (by simp [withMemberships])) hd
    · exact flags_removeCascade (hnorole withClients_within (by simp [withClients]) (by simp [withClients])) hd
    · obtain ⟨m, hm, hsame⟩ := (syncAdmin_rows (db.removeCascade roots) _).before hm'
      exact hsame.follows.2 (flags_removeCascade
        (hnorole withMemberships_within hroots (by simp [withMemberships])) h.flags k m hm)

theorem OwnersFull.deleteGrants {grants : List Pk} {upgrading : Option Pk} (h : db.OwnersFull) :
    (db.deleteGrants grants upgrading).OwnersFull :=
  foldl_invariant (P := fun d : DB => d.OwnersFull) (fun _ _ _ hd => hd.delete (by simp [withMemberships])) h

/-- `delete_membership`: by the member, or by those who govern membership, the owner's own apart. -/
def deleteMembership (db : DB) (user membership : Pk) : Answer DB := do
  let m ← db.memberships.get membership
  assert (m.user == user || db.isOwnerOrAdmin user m.organization) .graphQLError
    "You are not allowed to manage memberships for this organization."
  assert (m.user == user || !(db.organizations.row m.organization).any (·.owner == m.user)) .graphQLError
    "The organization's owner cannot be removed. Transfer ownership first."
  return db.delete .membership [⟨.membership, membership⟩] none

theorem OwnersFull.deleteMembership {user membership : Pk} (h : db.OwnersFull)
    (hok : db.deleteMembership user membership = .ok d) :
    d.OwnersFull := by
  simp only [DB.deleteMembership, bind_ok, Table.get_ok, require_ok, exists_unit, pure_ok] at hok
  obtain ⟨m, -, -, -, rfl⟩ := hok
  exact h.delete (by simp [withMemberships])

/-! ## New members and their grants -/

theorem OwnersFull.createMembership {user organization : Pk} {through : Option Pk} {r : DB × Pk}
    (h : db.OwnersFull)
    (hok : db.createMembership user organization through = .ok r) :
    r.1.OwnersFull ∧ r.2 = db.memberships.next
      ∧ r.1 = { db with memberships := db.memberships.insert ⟨user, organization, [], false, through, [], []⟩ }
      := by
  simp only [DB.createMembership, bind_ok, Table.get_ok, require_ok, exists_unit, pure_ok,
    Bool.not_eq_true'] at hok
  obtain ⟨u, hu, _, -, hnone, rfl⟩ := hok
  refine ⟨?_, rfl, rfl⟩
  have hfree : ∀ k m, db.memberships.row k = some m → m.user = user → m.organization ≠ organization := by
    intro k m hm hmu hmo
    have := exists?_eq_false.mp hnone k m hm
    simp [hmu, hmo] at this
  refine ⟨fun o x hx k m hm ho hmu => ?_, h.owners, fun k m hm => ?_, fun j k m n hm hn hu ho => ?_,
    fun k g hg => ?_, ?_⟩
  · rcases insert_row_eq_some.mp hm with ⟨rfl, rfl⟩ | hm
    · refine exists?_eq_false.mpr fun j g hg => ?_
      exact beq_eq_false_iff_ne.mpr (Nat.ne_of_lt (h.owned j g hg))
    · exact h.owner o x hx k m hm ho hmu
  · rcases insert_row_eq_some.mp hm with ⟨-, rfl⟩ | hm
    · exact ⟨u, hu⟩
    · exact h.users k m hm
  · rcases insert_row_eq_some.mp hm with ⟨rfl, rfl⟩ | hm <;> rcases insert_row_eq_some.mp hn with ⟨rfl, rfl⟩ | hn
    · rfl
    · exact absurd ho.symm (hfree k n hn hu.symm)
    · exact absurd ho (hfree j m hm hu)
    · exact h.unique j k m n hm hn hu ho
  · exact Nat.lt_succ_of_lt (h.owned k g hg)
  · intro k m hm
    rcases insert_row_eq_some.mp hm with ⟨-, rfl⟩ | hm
    · exact fun r hr => absurd hr (by simp)
    · exact h.flags k m hm

/-- A change of the grants of someone who does not own the organization they are a member of. -/
theorem OwnersFull.grants {t : Table CollaborationGrant} {membership : Pk} (h : db.OwnersFull)
    (hlt : membership < db.memberships.next)
    (hnew : ∀ k g, t.row k = some g → g.membership = membership ∨ ∃ g', db.grants.row k = some g'
      ∧ g.membership = g'.membership)
    (hnot : ∀ m, db.memberships.row membership = some m →
      ∀ o x, db.organizations.row o = some x → m.organization = o →
      m.user ≠ x.owner) : ({ db with grants := t } : DB).OwnersFull := by
  have hscoped : ∀ k, k ≠ membership → ({ db with grants := t } : DB).isScoped k = true →
    db.isScoped k = true := by
    intro k hk hguest
    obtain ⟨j, g, hg, hm⟩ := hasGrants_iff.mp hguest
    rcases hnew j g hg with hnew | ⟨g', hg', heq⟩
    · exact absurd (hm.symm.trans hnew) hk
    · exact hasGrants_iff.mpr ⟨j, g', hg', heq.symm.trans hm⟩
  refine ⟨fun o x hx k m hm ho hu => ?_, h.owners, h.users, h.unique, fun k g hg => ?_, h.flags⟩
  · by_cases hk : k = membership
    · subst hk
      exact absurd hu (hnot m hm o x hx ho)
    · rw [← Bool.not_eq_true]
      intro hguest
      have hfull := h.owner o x hx k m hm ho hu
      rw [hscoped k hk hguest] at hfull
      cases hfull
  · rcases hnew k g hg with rfl | ⟨g', hg', heq⟩
    · exact hlt
    · rw [heq]
      exact h.owned k g' hg'

theorem grantCollaborations_grants {membership : Pk} {entries : List CollaborationRef}
    {invite grantedBy : Option Pk}
    {expiresAt : Option Time} {mesh : Bool} {r : DB × Bool}
    (hok : db.grantCollaborations membership entries invite grantedBy expiresAt mesh = .ok r) :
    ∃ t m, r.1 = { db with grants := t } ∧ db.memberships.row membership = some m ∧ mergeRefs entries ≠ []
      ∧ db.checkInstances ((mergeRefs entries).map (·.instance_)) m.organization = .ok ()
      ∧ ∀ k g, t.row k = some g → g.membership = membership ∨ ∃ g', db.grants.row k = some g'
      ∧ g.membership = g'.membership := by
  simp only [grantCollaborations, bind_ok, Table.get_ok, require_ok, exists_unit] at hok
  obtain ⟨m, hm, -, hrefs, hinstances, hok⟩ := hok
  have hone : ∀ (s u : DB × Bool) ref, grantOne membership invite grantedBy expiresAt mesh s ref = .ok u →
      ∃ t, u.1 = { s.1 with grants := t }
        ∧ ∀ k g, t.row k = some g → g.membership = membership ∨ ∃ g', s.1.grants.row k = some g'
        ∧ g.membership = g'.membership := by
    intro s u ref hu
    cases grantOne_gives hu with
    | made _ ht =>
      refine ⟨_, rfl, fun k g hg => ?_⟩
      rw [ht] at hg
      rcases insert_row_eq_some.mp hg with ⟨-, rfl⟩ | hg
      · exact .inl rfl
      · exact .inr ⟨g, hg, rfl⟩
    | widened =>
      refine ⟨_, rfl, fun k g hg => .inr ?_⟩
      rcases modify_row_eq_some.mp hg with ⟨-, hg⟩ | ⟨-, g', hg', rfl⟩
      · exact ⟨g, hg, rfl⟩
      · exact ⟨g', hg', rfl⟩
    | kept => exact ⟨_, rfl, fun k g hg => .inr ⟨g, hg, rfl⟩⟩
  have hall := foldlM_ok (R := fun s u : DB × Bool => ∃ t, u.1 = { s.1 with grants := t }
      ∧ ∀ k g, t.row k = some g → g.membership = membership ∨ ∃ g', s.1.grants.row k = some g'
      ∧ g.membership = g'.membership)
    (fun s => ⟨s.1.grants, rfl, fun k g hg => .inr ⟨g, hg, rfl⟩⟩)
    (fun {s u v} hsu huv => by
      obtain ⟨t, ht, hold⟩ := hsu
      obtain ⟨t', ht', hold'⟩ := huv
      refine ⟨t', by rw [ht', ht], fun k g hg => ?_⟩
      rcases hold' k g hg with hnew | ⟨g', hg', heq⟩
      · exact .inl hnew
      · rw [ht] at hg'
        rcases hold k g' hg' with hnew | ⟨g'', hg'', heq'⟩
        · exact .inl (heq.trans hnew)
        · exact .inr ⟨g'', hg'', heq.trans heq'⟩)
    (fun ref _ s u hu => hone s u ref hu) hok
  obtain ⟨t, ht, hgrants⟩ := hall
  exact ⟨t, m, ht, hm, by simpa using hrefs, hinstances, hgrants⟩

/-! ## Invites -/

theorem OwnersFull.invites {t : Table Invite} (h : db.OwnersFull) : ({ db with invites := t } : DB).OwnersFull :=
  h.fewer (fun _ _ hx => hx) (fun _ a ha => ⟨a, ha⟩) (.refl (fun m => .refl m) _)
    (fun _ g hg => ⟨g, hg, rfl⟩) h.flags

theorem OwnersFull.modifyInvite {pk : Pk} {f : Invite → Invite} (h : db.OwnersFull) :
    (db.modifyInvite pk f).OwnersFull :=
  h.invites

theorem OwnersFull.createdThrough {membership : Pk} {through : Option Pk} (h : db.OwnersFull) :
    (db.modifyMembership membership fun m => { m with createdThrough := through }).OwnersFull := by
  have hpeople : SamePeople db (db.modifyMembership membership fun m => { m with createdThrough := through }) :=
    modifyMembership_people fun m => .less ⟨rfl, rfl⟩ (fun r hr => hr) fun r _ hr => hr
  exact hpeople.ownersFull h

theorem OwnersFull.assignInviteRoles {membership : Pk} {invite : Invite} (h : db.OwnersFull)
    (hok : db.assignInviteRoles membership invite = .ok d) : d.OwnersFull := by
  unfold DB.assignInviteRoles at hok
  split at hok
  · exact (setRoles_people hok).ownersFull h
  · split at hok
    · exact (addRoles_people hok).ownersFull h
    · cases hok
      exact h

theorem OwnersFull.welcome {pk user membership : Pk} {invite : Invite} {r : DB × Pk} (h : db.OwnersFull)
    (hok : db.welcome pk invite user membership = .ok r) : r.1.OwnersFull := by
  simp only [DB.welcome, bind_ok, pure_ok] at hok
  obtain ⟨d, hd, rfl⟩ := hok
  exact (h.assignInviteRoles hd).modifyInvite.modifyInvite

theorem OwnersFull.redeemMemberInvite {pk user : Pk} {invite : Invite} {r : DB × Pk} (h : db.OwnersFull)
    (hok : db.redeemMemberInvite pk invite user = .ok r) : r.1.OwnersFull := by
  unfold DB.redeemMemberInvite at hok
  split at hok
  · rename_i membership m hm
    split at hok
    · have hupgraded : (db.upgradeToFull membership).OwnersFull := h.deleteGrants
      exact hupgraded.createdThrough.welcome hok
    · cases hok
      exact h.modifyInvite
  · simp only [bind_ok, Prod.exists] at hok
    obtain ⟨d, membership, hd, hok⟩ := hok
    exact (h.createMembership hd).1.welcome hok

/-- A collaboration invite whose redeemer is a guest already, or no member and not the owner. -/
theorem OwnersFull.redeemCollaborationInvite {pk user : Pk} {invite : Invite} {refs : List CollaborationRef}
    {r : DB × Pk} (h : db.OwnersFull) (hguest : ∀ k m, db.membershipOf user invite.createdFor = some (k, m) →
      db.isScoped k = true)
    (hnew : mergeRefs refs ≠ [] →
      db.checkInstances ((mergeRefs refs).map (·.instance_)) invite.createdFor = .ok () →
      db.membershipOf user invite.createdFor = none →
      ∀ x, db.organizations.row invite.createdFor = some x → user ≠ x.owner)
    (hok : db.redeemCollaborationInvite pk invite refs user = .ok r) : r.1.OwnersFull := by
  simp only [DB.redeemCollaborationInvite, bind_ok, reraise_ok, Prod.exists] at hok
  obtain ⟨d, membership, hd, e, changed, hgrant, hok⟩ := hok
  obtain ⟨t, m, ht, hm, hrefs, hinstances, hgrants⟩ := grantCollaborations_grants hgrant
  dsimp only at ht
  have hgranted : e.OwnersFull := by
    rw [ht]
    unfold DB.getOrCreateMembership at hd
    split at hd
    · rename_i n hn
      cases hd
      have hscoped := hguest _ _ hn
      refine h.grants (lt_next hm) hgrants fun m' hm' o x hx ho hu => ?_
      have hfull := h.owner o x hx membership m' hm' ho hu
      rw [hscoped] at hfull
      cases hfull
    · rename_i hnone
      obtain ⟨hcreated, heq, hdb⟩ := h.createMembership hd
      dsimp only at hcreated heq hdb
      refine hcreated.grants (lt_next hm) hgrants fun m' hm' o x hx ho => ?_
      rw [heq, hdb] at hm hm'
      have hmade : ∀ {n}, (db.memberships.insert ⟨user, invite.createdFor, [], false, some pk, [], []⟩).row
        db.memberships.next
          = some n → n.user = user ∧ n.organization = invite.createdFor := by
        intro n hn
        rw [insert_row_next] at hn
        cases hn
        exact ⟨rfl, rfl⟩
      obtain ⟨-, horganization⟩ := hmade hm
      obtain ⟨huser, horganization'⟩ := hmade hm'
      rw [hdb, horganization] at hinstances
      rw [hdb, ← ho, horganization'] at hx
      rw [huser]
      exact hnew hrefs hinstances hnone x hx
  split at hok
  · obtain rfl := pure_ok.mp hok
    exact hgranted
  · obtain rfl := pure_ok.mp hok
    dsimp only
    split
    · exact hgranted.modifyInvite.modifyInvite
    · exact hgranted.modifyInvite

/-! ## Saving an organization -/

theorem getOrCreateRole_eq (db : DB) (identifier : String) (organization : Pk) :
    ∃ t y, (db.getOrCreateRole identifier organization).1 = { db with roles := t }
      ∧ (∀ r x, db.roles.row r = some x → t.row r = some x)
      ∧ t.row (db.getOrCreateRole identifier organization).2 = some y ∧ y.identifier = identifier
      ∧ y.organization = organization := by
  unfold DB.getOrCreateRole
  split
  · rename_i pk y hfirst
    obtain ⟨hy, hname⟩ := first_eq_some hfirst
    rw [Bool.and_eq_true, beq_iff_eq, beq_iff_eq] at hname
    exact ⟨db.roles, y, rfl, fun _ _ hx => hx, hy, hname.1, hname.2⟩
  · exact ⟨_, _, rfl, fun _ _ hx => insert_row_of_some hx, insert_row_next _ _, rfl, rfl⟩

theorem OwnersFull.getOrCreateRole {identifier : String} {organization : Pk} (h : db.OwnersFull) :
    (db.getOrCreateRole identifier organization).1.OwnersFull := by
  obtain ⟨t, y, heq, hold, -⟩ := getOrCreateRole_eq db identifier organization
  rw [heq]
  refine h.fewer (fun _ _ hx => hx) (fun _ a ha => ⟨a, ha⟩) (.refl (fun m => .refl m) _)
    (fun _ g hg => ⟨g, hg, rfl⟩) ?_
  intro k m hm r hr
  obtain ⟨x, hx, hflag⟩ := h.flags k m hm r hr
  exact ⟨x, hold r x hx, hflag⟩

theorem createDefaultScopesForOrg_eq (db : DB) (organization : Pk) :
    ∃ t, db.createDefaultScopesForOrg organization = { db with scopes := t } := by
  have hensure : ∀ (d : DB) (identifier : String) (description : Option String) (isAll isBuiltin : Option Bool),
      (∃ t, d = { db with scopes := t }) →
      ∃ t, d.ensureScope organization identifier description isAll isBuiltin = { db with scopes := t } := by
    rintro d identifier description isAll isBuiltin ⟨t, rfl⟩
    unfold ensureScope
    split <;> exact ⟨_, rfl⟩
  unfold DB.createDefaultScopesForOrg
  refine foldl_invariant (P := fun d : DB => ∃ t, d = { db with scopes := t })
    (fun _ _ d hd => hensure d _ _ _ _ hd) ?_
  exact foldl_invariant (P := fun d : DB => ∃ t, d = { db with scopes := t })
    (fun _ _ d hd => hensure d _ _ _ _ hd) ⟨db.scopes, rfl⟩

/-- The owner's membership under the rules of `base`, with nothing from lok that is not lok's to give, and
these roles. -/
def Holds (base : DB) (k owner organization : Pk) (held : Pk → Prop) (d : DB) : Prop :=
  SameRules base d ∧ ∃ m, d.memberships.row k = some m ∧ m.user = owner ∧ m.organization = organization
    ∧ Flags d.roles m ∧ ∀ r, held r → r ∈ m.roles

/-- An admin role of the organization. -/
def AdminRoleOf (db : DB) (organization r : Pk) : Prop :=
  ∃ x, db.roles.row r = some x ∧ x.organization = organization ∧ x.isAdminRole = true

section

variable {base : DB} {k owner organization : Pk} {held : Pk → Prop}

theorem Holds.syncMembership {x : Organization} (hx : base.organizations.row organization = some x)
    (howner : x.owner = owner)
    (h : Holds base k owner organization held d) (pk : Pk) :
    Holds base k owner organization (fun r => held r ∨ k = pk ∧ base.AdminRoleOf organization r)
    (d.syncMembership pk) := by
  obtain ⟨hrules, m, hm, huser, horganization, hflags, hheld⟩ := h
  have hadministers : d.administers m = true := by
    unfold administers
    rw [hrules.organizations, horganization, hx, huser]
    simp [howner]
  obtain ⟨t, ht⟩ := syncMembership_eq d pk
  have hrows := syncMembership_rows d pk
  rw [ht] at hrows ⊢
  obtain ⟨m', hm', hsynced, hsame⟩ := hrows.after hm
  refine ⟨⟨hrules.roles, hrules.organizations, hrules.grants⟩, m', hm', ?_⟩
  by_cases hk : k = pk
  · have hsynced := hsynced hk
    refine ⟨hsynced.user.trans huser, hsynced.organization.trans horganization,
      hsynced.follows.2 hflags, fun r hr => ?_⟩
    refine (hsynced.roles r).mpr ⟨?_, fun hlost => hlost.2 ((hflags r hlost.1).entitled hadministers)⟩
    refine hr.imp (hheld r) fun hadmin => ?_
    obtain ⟨y, hy, ho, hflag⟩ := hadmin.2
    exact ⟨y, by rwa [hrules.roles], ho.trans horganization.symm, .inl ⟨hflag, hadministers⟩⟩
  · have hsame := hsame hk
    refine ⟨hsame.user.trans huser, hsame.organization.trans horganization, hsame.follows.2 hflags, fun r hr => ?_⟩
    rw [hsame.roles]
    exact hheld r (hr.resolve_right fun hno => hk hno.1)

theorem Holds.mono {held' : Pk → Prop} (h : Holds base k owner organization held d) (hle : ∀ r, held' r → held r) :
    Holds base k owner organization held' d := by
  obtain ⟨hrules, m, hm, huser, horganization, hflags, hheld⟩ := h
  exact ⟨hrules, m, hm, huser, horganization, hflags, fun r hr => hheld r (hle r hr)⟩

theorem Holds.syncServiceRoles {x : Organization} (hx : base.organizations.row organization = some x)
    (howner : x.owner = owner)
    (h : Holds base k owner organization held d) (pks : List Pk) :
    Holds base k owner organization held (d.syncServiceRoles pks) :=
  foldl_invariant (P := fun d : DB => Holds base k owner organization held d)
    (fun pk _ _ hd => (hd.syncMembership hx howner pk).mono fun _ hr => .inl hr) h

theorem Holds.syncOrganization {x : Organization} (hx : base.organizations.row organization = some x)
    (howner : x.owner = owner)
    (h : Holds base k owner organization held d) (hfull : d.isScoped k = false) :
    Holds base k owner organization (fun r => held r ∨ base.AdminRoleOf organization r)
    (d.syncOrganization organization) := by
  obtain ⟨m, hm, -, horganization, -⟩ := h.2
  refine foldl_establishes (I := fun d : DB => Holds base k owner organization held d)
    (Q := fun d : DB => Holds base k owner organization (fun r => held r ∨ base.AdminRoleOf organization r) d)
    (fun pk _ d hd => ⟨(hd.syncMembership hx howner pk).mono fun _ hr => .inl hr,
      fun hq => (hq.syncMembership hx howner pk).mono fun _ hr => .inl hr⟩)
    ⟨k, List.mem_filter.mpr ⟨mem_pks.mpr ⟨m, hm, by simp [horganization]⟩, by simp [hfull]⟩, fun d hd =>
      (hd.syncMembership hx howner k).mono fun _ hr => hr.imp_right fun hadmin => ⟨rfl, hadmin⟩⟩ h

end

/-- The owner is a full member who holds `admin`, and every admin role of the organization. -/
def OwnerAdministers (db : DB) (organization owner : Pk) : Prop :=
  ∃ k m, db.memberships.row k = some m ∧ m.user = owner ∧ m.organization = organization ∧ db.isScoped k = false
    ∧ (∃ r ∈ m.roles, ∃ x, db.roles.row r = some x ∧ x.organization = organization ∧ x.identifier = adminRole)
    ∧ ∀ r x, db.roles.row r = some x → x.organization = organization → x.isAdminRole = true → r ∈ m.roles

theorem addRoles_holds {k role : Pk} {m : Membership} {x : Organization} (h : db.OwnersFull)
    (hx : db.organizations.row m.organization = some x) (howner : x.owner = m.user)
    (hm : db.memberships.row k = some m)
    (hfull : db.isScoped k = false) (hrole : ∃ y, db.roles.row role = some y) :
    ∃ d, db.addRoles k [role] = .ok d ∧ d.OwnersFull ∧ Holds db k m.user m.organization (· = role) d := by
  have hok : db.addRoles k [role] = .ok
    ((((db.modifyMembership k fun m => { m with roles := addPks m.roles [role] }).syncAdmin
      [k]).givenByAnAdmin k (removePks [role] m.roles)).syncServiceRoles [k]) := by
    unfold DB.addRoles
    rw [if_neg (by simp)]
    simp only [bind_ok, Table.get_ok, require_ok, exists_unit, pure_ok, List.all_eq_true, mem_removePks]
    refine ⟨m, hm, by simp [hfull], fun r hr => ?_, rfl⟩
    rw [List.mem_singleton] at hr
    rw [hr.1]
    exact Option.isSome_iff_exists.mpr hrole
  refine ⟨_, hok, (addRoles_people hok).ownersFull h, Holds.syncServiceRoles hx howner ?_ _⟩
  have hadded : SamePeople db (db.modifyMembership k fun m => { m with roles := addPks m.roles [role] }) :=
    modifyMembership_people fun m => .less ⟨rfl, rfl⟩ (fun _ hr => hr) fun _ _ hr => hr
  obtain ⟨t, ht, hrows⟩ := (hadded.trans (syncAdmin_people [k])).trans
    (givenByAnAdmin_people _ k (removePks [role] m.roles))
  have hchanges : Changes [k] (fun _ _ => False) (fun _ r => r ∈ [role]) db.memberships
      (db.modifyMembership k fun m => { m with roles := addPks m.roles [role] }).memberships :=
    changes_modify fun m _ => ⟨rfl, rfl, fun r => by simp [mem_addPks], fun _ h => h, fun _ => .inl⟩
  have hgiven := (hchanges.syncAdmin [k]).noted (givenByAnAdmin_rows _ k (removePks [role] m.roles))
  rw [ht] at hgiven ⊢
  obtain ⟨m', hm', hfollows⟩ := hrows.after hm
  obtain ⟨m'', hm'', hchanged, -⟩ := hgiven.after hm
  obtain rfl : m' = m'' := Option.some.inj (hm'.symm.trans hm'')
  refine ⟨⟨rfl, rfl, rfl⟩, m', hm', hfollows.1.1, hfollows.1.2, hfollows.2 (h.flags k m hm), fun r hr => ?_⟩
  exact (((hchanged (by simp)).roles r).mpr ⟨.inr (by simp [hr]), not_false⟩)

theorem OwnersFull.getOrCreateMembership {user organization : Pk} {through : Option Pk} (h : db.OwnersFull)
    (huser : ∃ u, db.users.row user = some u) (horganization : ∃ x, db.organizations.row organization = some x) :
    ∃ d k m, db.getOrCreateMembership user organization through = .ok (d, k) ∧ d.OwnersFull
    ∧ d.memberships.row k = some m
      ∧ m.user = user ∧ m.organization = organization ∧ d.organizations = db.organizations
      ∧ d.roles = db.roles := by
  unfold DB.getOrCreateMembership
  split
  · rename_i k m hfirst
    obtain ⟨hm, hwho⟩ := first_eq_some hfirst
    rw [Bool.and_eq_true, beq_iff_eq, beq_iff_eq] at hwho
    exact ⟨db, k, m, rfl, h, hm, hwho.1, hwho.2, rfl, rfl⟩
  · rename_i hnone
    obtain ⟨u, hu⟩ := huser
    obtain ⟨x, hx⟩ := horganization
    have hok : db.createMembership user organization through
        = .ok ({ db with memberships := db.memberships.insert ⟨user, organization, [], false, through, [], []⟩ },
          db.memberships.next) := by
      simp only [DB.createMembership, bind_ok, Table.get_ok, require_ok, exists_unit, pure_ok, Bool.not_eq_true']
      exact ⟨u, hu, x, hx, exists?_eq_false.mpr fun k m hm => by simpa using first_eq_none.mp hnone k m hm,
        trivial⟩
    exact ⟨_, _, _, hok, (h.createMembership hok).1, insert_row_next _ _, rfl, rfl, rfl, rfl⟩

theorem OwnersFull.ensureOwnerIsAdmin {organization : Pk} {x : Organization} (h : db.OwnersFull)
    (hx : db.organizations.row organization = some x) :
    ∃ d, db.ensureOwnerIsAdmin organization = .ok d ∧ d.OwnersFull ∧ d.OwnerAdministers organization x.owner := by
  obtain ⟨e, k, m, hgot, hfull, hm, huser, rfl, horganizations, -⟩ :=
    h.getOrCreateMembership (h.owners organization x hx) ⟨x, hx⟩
  obtain ⟨t, y, heq, -, hy, hname, ho⟩ := getOrCreateRole_eq e adminRole m.organization
  generalize hrole : e.getOrCreateRole adminRole m.organization = r at heq hy
  have hfull' : r.1.OwnersFull := by
    rw [← hrole]
    exact hfull.getOrCreateRole
  have hx' : r.1.organizations.row m.organization = some x := by rw [heq, horganizations, hx]
  have hm' : r.1.memberships.row k = some m := by rw [heq]; exact hm
  have hy' : r.1.roles.row r.2 = some y := by rw [heq]; exact hy
  have hscoped := hfull'.owner _ x hx' k m hm' rfl huser
  obtain ⟨d, hadd, hadded, hholds⟩ := addRoles_holds hfull' hx' huser.symm hm' hscoped ⟨y, hy'⟩
  refine ⟨d.syncOrganization m.organization, ?_, (syncServiceRoles_people d _).ownersFull hadded, ?_⟩
  · simp only [DB.ensureOwnerIsAdmin, bind_ok, Table.get_ok, pure_ok, Prod.exists]
    exact ⟨x, hx, e, k, hgot, d, by rw [hrole]; exact hadd, rfl⟩
  · obtain ⟨hrules, n, hn, hu, horganization, -, hheld⟩ :=
      hholds.syncOrganization hx' huser.symm ((hholds.1.isScoped k).trans hscoped)
    refine ⟨k, n, hn, hu.trans huser, horganization, (hrules.isScoped k).trans hscoped,
      ⟨r.2, hheld _ (.inl rfl), y, by rw [hrules.roles]; exact hy', ho, hname⟩, fun s z hz hoz hadmin => ?_⟩
    rw [hrules.roles] at hz
    exact hheld s (.inr ⟨z, hz, hoz, hadmin⟩)

theorem OwnersFull.saveOrganization {organization : Pk} {x : Organization} (h : db.OwnersFull)
    (hx : db.organizations.row organization = some x) :
    ∃ d, db.saveOrganization organization = .ok d ∧ d.OwnersFull ∧ d.OwnerAdministers organization x.owner := by
  have hguest : ((db.getOrCreateRole adminRole organization).1.getOrCreateRole "guest"
    organization).1.OwnersFull :=
    h.getOrCreateRole.getOrCreateRole
  obtain ⟨t, -, heq, -⟩ := getOrCreateRole_eq db adminRole organization
  obtain ⟨u, -, heq', -⟩ := getOrCreateRole_eq (db.getOrCreateRole adminRole organization).1 "guest" organization
  obtain ⟨d, hok, hfull, hadministers⟩ := hguest.ensureOwnerIsAdmin (x := x) (by rw [heq', heq]; exact hx)
  obtain ⟨scopes, hscopes⟩ := createDefaultScopesForOrg_eq d organization
  refine ⟨d.createDefaultScopesForOrg organization, ?_, ?_, ?_⟩
  · simp only [DB.saveOrganization, bind_ok, pure_ok]
    exact ⟨d, hok, rfl⟩
  · rw [hscopes]
    exact hfull.fewer (fun _ _ hx => hx) (fun _ a ha => ⟨a, ha⟩) (.refl (fun m => .refl m) _)
      (fun _ g hg => ⟨g, hg, rfl⟩) hfull.flags
  · rw [hscopes]
    exact hadministers

/-- Who owns the organization but is no member of it can accept this invite, and would be a guest. -/
def MakesOwnerGuest (db : DB) (pk user : Pk) : Prop :=
  ∃ i refs x, db.invites.row pk = some i ∧ db.inviteIsValid i = true ∧ i.sharedCollaborations = some refs
    ∧ mergeRefs refs ≠ []
    ∧ db.checkInstances ((mergeRefs refs).map (·.instance_)) i.createdFor = .ok ()
    ∧ db.membershipOf user i.createdFor = none
    ∧ db.organizations.row i.createdFor = some x ∧ x.owner = user

theorem checkAcceptable_ok {i : Invite} : db.checkAcceptable i = .ok () ↔ db.inviteIsValid i = true := by
  unfold checkAcceptable
  split
  · simp_all
  · cases i.status <;> simp_all

theorem OwnersFull.redeemInvite {pk user : Pk} {r : DB × Pk} (h : db.OwnersFull)
    (hnot : ¬ db.MakesOwnerGuest pk user)
    (hok : db.redeemInvite pk user = .ok r) : r.1.OwnersFull := by
  simp only [DB.redeemInvite, bind_ok, Table.get_ok, exists_unit] at hok
  obtain ⟨i, hi, hvalid, hok⟩ := hok
  rw [checkAcceptable_ok] at hvalid
  split at hok
  · rename_i refs membership hshared hmember
    obtain ⟨⟨k, m⟩, hm, rfl⟩ := Option.map_eq_some_iff.mp hmember
    split at hok
    · rename_i hscoped
      refine h.redeemCollaborationInvite (fun k' m' hm' => ?_) (fun _ _ hnone => ?_) hok
      · rw [hm] at hm'
        cases hm'
        exact hscoped
      · rw [hm] at hnone
        cases hnone
    · cases hok
      exact h
  · rename_i refs hshared hmember
    have hnone := Option.map_eq_none_iff.mp hmember
    refine h.redeemCollaborationInvite (fun k' m' hm' => ?_) (fun hrefs hinstances _ x hx howner => hnot ?_) hok
    · rw [hnone] at hm'
      cases hm'
    · exact ⟨i, refs, x, hi, hvalid, hshared, hrefs, hinstances, hnone, hx, howner.symm⟩
  · exact h.redeemMemberInvite hok

theorem OwnersFull.changeOrganizationOwner {user organization newOwner : Pk} (h : db.OwnersFull)
    (hok : db.changeOrganizationOwner user organization newOwner = .ok d) : d.OwnersFull := by
  simp only [DB.changeOrganizationOwner, bind_ok, Table.get_ok, require_ok, exists_unit] at hok
  obtain ⟨o, ho, -, hmember, hok⟩ := hok
  obtain ⟨k, m, hm, hwho⟩ := exists?_eq_true.mp hmember
  rw [Bool.and_eq_true, Bool.and_eq_true, beq_iff_eq, beq_iff_eq, Bool.not_eq_true'] at hwho
  obtain ⟨⟨horganization, huser⟩, hscoped⟩ := hwho
  have hchanged : ({ db with
      organizations := db.organizations.modify organization fun o => { o with owner := newOwner } } :
      DB).OwnersFull := by
    refine ⟨fun o' x hx k' m' hm' ho' hu => ?_, fun o' x hx => ?_, h.users, h.unique, h.owned, h.flags⟩
    · rcases modify_row_eq_some.mp hx with ⟨-, hx⟩ | ⟨rfl, x, -, rfl⟩
      · exact h.owner o' x hx k' m' hm' ho' hu
      · rw [h.unique k' k m' m hm' hm (hu.trans huser.symm) (ho'.trans horganization.symm)]
        exact hscoped
    · rcases modify_row_eq_some.mp hx with ⟨-, hx⟩ | ⟨rfl, x, -, rfl⟩
      · exact h.owners o' x hx
      · rw [← huser]
        exact h.users k m hm
  obtain ⟨d', hok', hfull, -⟩ := hchanged.saveOrganization (x := { o with owner := newOwner })
    (modify_row_eq_some.mpr (.inr ⟨rfl, o, ho, rfl⟩))
  rw [hok] at hok'
  cases hok'
  exact hfull

theorem OwnersFull.updateOrganization {organization : Pk} {slug : String} {device : Bool} {lifetime : Option Int}
    (h : db.OwnersFull)
    (hok : db.updateOrganization organization slug device lifetime = .ok d) : d.OwnersFull := by
  simp only [DB.updateOrganization, bind_ok, Table.get_ok, require_ok, exists_unit] at hok
  obtain ⟨o, ho, -, -, hok⟩ := hok
  have hchanged : ({ db with organizations := db.organizations.modify organization fun o =>
      { o with slug := slug, requireDeviceAuth := device,
               accessTokenLifetime := lifetime.or o.accessTokenLifetime } } : DB).OwnersFull := by
    refine ⟨fun o' x hx k m hm ho' hu => ?_, fun o' x hx => ?_, h.users, h.unique, h.owned, h.flags⟩
    · rcases modify_row_eq_some.mp hx with ⟨-, hx⟩ | ⟨-, y, hy, rfl⟩
      · exact h.owner o' x hx k m hm ho' hu
      · exact h.owner o' y hy k m hm ho' hu
    · rcases modify_row_eq_some.mp hx with ⟨-, hx⟩ | ⟨-, y, hy, rfl⟩
      · exact h.owners o' x hx
      · exact h.owners o' y hy
  obtain ⟨d', hok', hfull, -⟩ := hchanged.saveOrganization
    (modify_row_eq_some.mpr (.inr ⟨rfl, o, ho, rfl⟩))
  rw [hok] at hok'
  cases hok'
  exact hfull

/-- What a transaction leaves once it is committed: the members it made are synced. -/
def commit (db : DB) (x : Answer DB) : DB :=
  match x with
  | .ok d => d.syncServiceRoles (d.memberships.pks fun k _ => (db.memberships.row k).isNone)
  | .error _ => db

theorem OwnersFull.commit {x : Answer DB} (h : db.OwnersFull) (hok : ∀ d, x = .ok d → d.OwnersFull) :
    (db.commit x).OwnersFull := by
  unfold DB.commit
  split
  · exact (syncServiceRoles_people _ _).ownersFull (hok _ rfl)
  · exact h

end DB

/-! ## Any sequence of changes -/

inductive OwnerEvent
  | deleteMembership (user membership : Pk)
  | createInvite (createdBy createdFor : Pk) (expiresAt : Option Time) (roles : List Pk)
      (sharedCollaborations : Option (List CollaborationRef)) (maxUses : Option Nat) (mesh : Bool)
  | redeemInvite (invite user : Pk)
  | upgradeToFull (membership : Pk)
  | revokeGrant (grant : Pk)
  | revokeInviteGrants (invite : Pk)
  | changeOrganizationOwner (user organization newOwner : Pk)
  | updateOrganization (organization : Pk) (slug : String) (requireDeviceAuth : Bool)
    (accessTokenLifetime : Option Int)

def OwnerEvent.apply (db : DB) : OwnerEvent → DB
  | .deleteMembership user membership => db.commit (db.deleteMembership user membership)
  | .createInvite createdBy createdFor expiresAt roles shared maxUses mesh =>
    db.commit (db.createInvite createdBy createdFor expiresAt roles shared maxUses mesh)
  | .redeemInvite invite user => db.commit ((db.redeemInvite invite user).map (·.1))
  | .upgradeToFull membership => db.upgradeToFull membership
  | .revokeGrant grant => db.revokeGrant grant
  | .revokeInviteGrants invite => db.revokeInviteGrants invite
  | .changeOrganizationOwner user organization newOwner =>
    db.commit (db.changeOrganizationOwner user organization newOwner)
  | .updateOrganization organization slug device lifetime =>
    db.commit (db.updateOrganization organization slug device lifetime)

/-- No owner who left comes back by an invite to some collaborations. -/
def OwnerEvent.SparesOwners (db : DB) : OwnerEvent → Prop
  | .redeemInvite invite user => ¬ db.MakesOwnerGuest invite user
  | _ => True

def OwnerStep (db : DB) (e : OwnerEvent) (d : DB) : Prop := d = e.apply db

def SparingStep (db : DB) (e : OwnerEvent) (d : DB) : Prop := e.SparesOwners db ∧ OwnerStep db e d

/-- Each organization's owner is no guest of it, and saving it succeeds and leaves the owner in charge. -/
def DB.SavesOrganizations (db : DB) : Prop :=
  ∀ o x, db.organizations.row o = some x →
    (∀ k m, db.memberships.row k = some m → m.organization = o → m.user = x.owner → db.isScoped k = false)
    ∧ ∃ d, db.saveOrganization o = .ok d ∧ d.OwnerAdministers o x.owner

theorem OwnerEvent.ownersFull {db : DB} (h : db.OwnersFull) (e : OwnerEvent) (he : e.SparesOwners db) :
    (e.apply db).OwnersFull := by
  cases e with
  | deleteMembership user membership => exact h.commit fun d hok => h.deleteMembership hok
  | createInvite createdBy createdFor expiresAt roles shared maxUses mesh =>
    refine h.commit fun d hok => ?_
    simp only [DB.createInvite, bind_ok, Table.get_ok, pure_ok] at hok
    obtain ⟨_, -, _, -, rfl⟩ := hok
    exact h.invites
  | redeemInvite invite user =>
    refine h.commit fun d hok => ?_
    obtain ⟨r, hr, rfl⟩ := map_ok.mp hok
    exact h.redeemInvite he hr
  | upgradeToFull membership => exact h.deleteGrants
  | revokeGrant grant => exact h.deleteGrants
  | revokeInviteGrants invite => exact h.deleteGrants
  | changeOrganizationOwner user organization newOwner => exact h.commit fun d hok => h.changeOrganizationOwner hok
  | updateOrganization organization slug device lifetime => exact h.commit fun d hok => h.updateOrganization hok

theorem DB.not_makesOwnerGuest {db : DB} {pk user : Pk}
    (h : ((db.invites.row pk).all (·.sharedCollaborations.isNone)) = true) :
    ¬ db.MakesOwnerGuest pk user := by
  rintro ⟨i, refs, -, hi, -, hshared, -⟩
  simp [hi, hshared] at h

theorem DB.not_savesOrganizations {db : DB} {o : Pk} (hrow : (db.organizations.row o).isSome = true)
    (hrefused : refusal (db.saveOrganization o) = some DB.guestOnly) : ¬ db.SavesOrganizations := by
  intro h
  obtain ⟨x, hx⟩ := Option.isSome_iff_exists.mp hrow
  obtain ⟨-, d, hok, -⟩ := h o x hx
  rw [refusal_eq_some.mp hrefused] at hok
  cases hok

theorem bobsMembership_ownersFull : (run plainEnv .empty bobsMembership).OwnersFull := by
  have hbare : ∀ k m, (run plainEnv .empty bobsMembership).memberships.row k = some m → m.automaticRoles = [] := by
    simp only [forall_row_iff]
    decide +kernel
  have hunique : ∀ j m, (run plainEnv .empty bobsMembership).memberships.row j = some m →
      ∀ k n, (run plainEnv .empty bobsMembership).memberships.row k = some n → m.user = n.user →
        m.organization = n.organization →
      j = k := by
    simp only [forall_row_iff]
    decide +kernel
  refine ⟨?_, ?_, ?_, fun j k m n hm hn => hunique j m hm k n hn, ?_, fun k m hm r hr => ?_⟩
  case refine_5 =>
    rw [hbare k m hm] at hr
    cases hr
  all_goals simp only [forall_row_iff, ← Option.isSome_iff_exists]; decide +kernel

end Lok
