import Mathlib.Logic.Relation
import Lok.InviteRaces
import Lok.System

/-!
# Active organizations

Each user is active in one of their organizations, and the key that says in which cascades. So an
organization that is deleted takes along whoever is active in it, whatever they own goes with them, and so
on.
-/

namespace Lok

open Table Checks Relation

namespace DB

variable (db : DB)

/-! ## Where a user is active -/

def activate (user : Pk) (organization : Option Pk) : DB :=
  { db with users := db.users.modify user fun u => { u with activeOrganization := organization } }

def notFound (text : String) : Refused := ⟨.doesNotExist, text⟩

/-- `change_org`: to an organization the user belongs to. -/
def changeOrg (user : Pk) (slug : String) : Answer DB := do
  let (organization, _) ← found
    (db.organizations.first fun pk o => o.slug == slug && db.memberships.exists?
      fun _ m => m.user == user && m.organization == pk)
    (notFound "Organization does not exist.")
  return db.activate user (some organization)

/-- The view `accept_invite`, posted: whoever joins is active there. A refusal's text is the reason it
redirects with. -/
def postInvite (pk user : Pk) (decline : Bool) : Answer DB := do
  let invite ← found (db.invites.row pk) ⟨.inviteError, "invalid"⟩
  assert (invite.status == .pending) .inviteError "already_processed"
  assert (db.inviteIsValid invite) .inviteError "expired"
  if decline then return db.declineInvite pk invite
  let (d, _) ← (db.redeemInvite pk user).mapError fun e =>
    if e.kind == .inviteError then ⟨.inviteError, "already_processed"⟩ else e
  return d.activate user (some invite.createdFor)

def leaveOrg (user : Pk) (slug : String) : Answer DB := do
  let (organization, _) ← found (db.organizations.first fun _ o => o.slug == slug)
    (notFound "Organization or membership not found.")
  let (membership, _) ← found (db.membershipOf user organization)
    (notFound "Organization or membership not found.")
  let d := db.delete .membership [⟨.membership, membership⟩] none
  return if (db.users.row user).any (·.activeOrganization == some organization) then d.activate user none else d

/-- `delete_organization`, by its owner. -/
def deleteOrganization (user organization : Pk) : Answer DB := do
  let o ← found (db.organizations.row organization) denied
  assert (o.owner == user) .graphQLError "Only the organization owner can delete the organization."
  db.deleteRows .organization [organization]

/-! ## Who goes with an organization -/

def ActiveIn (user organization : Pk) : Prop :=
  ∃ u, db.users.row user = some u ∧ u.activeOrganization = some organization

/-- The owner of the one is active in the other. -/
def LeansOn (organization other : Pk) : Prop :=
  ∃ o, db.organizations.row organization = some o ∧ db.ActiveIn o.owner other

/-- A chain of organizations, each with an owner who is active in the next, leads to the one that is deleted. -/
def FallsWith (deleted organization : Pk) : Prop := ReflTransGen db.LeansOn organization deleted

def UserFallsWith (deleted user : Pk) : Prop :=
  ∃ organization, db.ActiveIn user organization ∧ db.FallsWith deleted organization

variable {db} {d : DB} {deleted organization user : Pk}

/-- Of the rows that may go with an organization: what their going takes. -/
def Falls (db : DB) (deleted : Pk) (r : Ref) : Prop :=
  match r.model with
  | .organization => db.FallsWith deleted r.pk
  | .user => db.UserFallsWith deleted r.pk
  | .membership =>
    ∀ m, db.memberships.row r.pk = some m → db.FallsWith deleted m.organization ∨ db.UserFallsWith deleted m.user
  | _ => True

theorem FallsWith.self (db : DB) (deleted : Pk) : db.FallsWith deleted deleted := ReflTransGen.refl

theorem UserFallsWith.owned {o : Organization} (ho : db.organizations.row organization = some o)
    (h : db.UserFallsWith deleted o.owner) : db.FallsWith deleted organization := by
  obtain ⟨other, hactive, hfalls⟩ := h
  exact ReflTransGen.head ⟨o, ho, hactive⟩ hfalls

theorem falls_hangsOn {x p : Ref} (h : p ∈ db.hangsOn x) (hp : db.Falls deleted p) : db.Falls deleted x := by
  obtain ⟨model, pk⟩ := x
  cases model with
  | user =>
    simp only [hangsOn, mem_elim, User.hangsOn, mem_refOf] at h
    obtain ⟨u, hu, organization, hactive, rfl⟩ := h
    exact ⟨organization, ⟨u, hu, hactive⟩, hp⟩
  | organization =>
    simp only [hangsOn, mem_elim, Organization.hangsOn, List.mem_singleton] at h
    obtain ⟨o, ho, rfl⟩ := h
    exact UserFallsWith.owned ho hp
  | membership =>
    simp only [hangsOn, mem_elim, Membership.hangsOn, List.mem_cons, List.not_mem_nil, or_false] at h
    obtain ⟨m, hm, h⟩ := h
    intro m' hm'
    obtain rfl : m = m' := by simpa [hm] using hm'
    rcases h with rfl | rfl
    · exact .inr hp
    · exact .inl hp
  | _ => trivial

theorem falls_of_collect {r : Ref} (h : r ∈ db.collect [⟨.organization, deleted⟩]) : db.Falls deleted r := by
  refine Closure.closure_induct (P := db.Falls deleted) (fun r hr => ?_)
    (fun x _ p hp hfalls => falls_hangsOn hp hfalls) h
  rw [List.mem_singleton.mp hr]
  exact FallsWith.self db deleted

theorem collect_of_active {roots : List Ref} (h : db.ActiveIn user organization)
    (ho : (⟨.organization, organization⟩ : Ref) ∈ db.collect roots) :
    (⟨.user, user⟩ : Ref) ∈ db.collect roots := by
  obtain ⟨u, hu, hactive⟩ := h
  refine mem_collect_of_hangsOn ?_ ho
  simp only [hangsOn, mem_elim, User.hangsOn, mem_refOf]
  exact ⟨u, hu, organization, hactive, rfl⟩

theorem FallsWith.collect (h : db.FallsWith deleted organization) :
    (⟨.organization, organization⟩ : Ref) ∈ db.collect [⟨.organization, deleted⟩] := by
  induction h using ReflTransGen.head_induction_on with
  | refl => exact mem_collect_root (List.mem_singleton_self _)
  | head hleans _ ih =>
    obtain ⟨o, ho, hactive⟩ := hleans
    refine mem_collect_of_hangsOn ?_ (collect_of_active hactive ih)
    simp only [hangsOn, mem_elim, Organization.hangsOn, List.mem_singleton]
    exact ⟨o, ho, rfl⟩

theorem UserFallsWith.collect (h : db.UserFallsWith deleted user) :
    (⟨.user, user⟩ : Ref) ∈ db.collect [⟨.organization, deleted⟩] := by
  obtain ⟨organization, hactive, hfalls⟩ := h
  exact collect_of_active hactive hfalls.collect

/-! ## What a deletion leaves -/

/-- Told of an organization, the receiver of a deleted grant stands back; only a hub's identity goes as well. -/
theorem delete_organization_has {roots : List Ref} {r : Ref} (h : db.has r) (hstays : r ∉ db.collect roots)
    (hmodel : r.model ∉ withClients) : (db.delete .organization roots none).has r := by
  unfold delete
  refine foldl_invariant (P := fun d : DB => d.has r) (fun x _ d hd => ?_)
    (foldl_invariant (P := fun d : DB => d.has r) (fun g _ d hd => ?_) (syncAdmin_has (remove_has h hstays)))
  · unfold deleteHubIdentity
    split
    · exact hd
    · exact removeCascade_has withClients_within (by simp [withClients]) hmodel hd
  · unfold dropMembershipWithoutGrants
    rw [if_neg (by simp), if_pos (by simp)]
    exact hd

theorem delete_organization_gone {roots : List Ref} {r : Ref} (h : db.has r) (hmodel : r.model ∉ withClients) :
    ¬ (db.delete .organization roots none).has r ↔ r ∈ db.collect roots := by
  constructor
  · intro hgone
    by_contra hstays
    exact hgone (delete_organization_has h hstays hmodel)
  · intro hcollected
    exact not_has_of_shrinks (delete_shrinks_remove db .organization roots none) (not_has_remove hcollected)

theorem row_none_iff {α : Type} {t : Table α} {pk : Pk} : t.row pk = none ↔ ¬ ∃ a, t.row pk = some a := by
  cases t.row pk <;> simp

/-! ## Who comes to be active where -/

theorem activate_active {organization : Option Pk} {k other : Pk} :
    (db.activate user organization).ActiveIn k other
    ↔ if k = user then (db.users.row user).isSome = true ∧ organization = some other else db.ActiveIn k other := by
  unfold ActiveIn activate
  dsimp only
  by_cases hk : k = user
  · subst hk
    rw [if_pos rfl, modify_row_self]
    cases db.users.row k <;> simp
  · rw [if_neg hk, modify_row_of_ne hk]

theorem changeOrg_active {slug : String} (h : db.changeOrg user slug = .ok d) : ∃ organization o,
    db.organizations.row organization = some o ∧ o.slug = slug
      ∧ (∃ k m, db.memberships.row k = some m ∧ m.user = user ∧ m.organization = organization)
      ∧ ∀ k other, d.ActiveIn k other
        ↔ if k = user then (db.users.row user).isSome = true ∧ organization = other else db.ActiveIn k other := by
  simp only [changeOrg, bind_ok, found_ok, pure_ok, Prod.exists] at h
  obtain ⟨organization, o, ho, rfl⟩ := h
  obtain ⟨ho, hp⟩ := first_eq_some ho
  simp only [Bool.and_eq_true, beq_iff_eq, exists?_eq_true] at hp
  obtain ⟨hslug, k, m, hm, huser, horganization⟩ := hp
  refine ⟨organization, o, ho, hslug, ⟨k, m, hm, huser, horganization⟩, fun k other => ?_⟩
  rw [activate_active, Option.some.injEq]

theorem postInvite_active {pk : Pk} (h : db.postInvite pk user false = .ok d) : ∃ i, db.invites.row pk = some i
    ∧ ∀ other, d.ActiveIn user other → other = i.createdFor := by
  simp only [postInvite, bind_ok, found_ok, require_ok, exists_unit, Bool.false_eq_true, if_false, pure_ok,
    Prod.exists] at h
  obtain ⟨i, hi, -, -, e, m, -, rfl⟩ := h
  refine ⟨i, hi, fun other hactive => ?_⟩
  rw [activate_active, if_pos rfl] at hactive
  exact (Option.some.inj hactive.2).symm

/-! ## Members who leave -/

theorem delete_membership_users (db : DB) (membership k : Pk) :
    (db.delete .membership [⟨.membership, membership⟩] none).users.row k = db.users.row k := by
  have hshrinks := delete_shrinks db .membership [⟨.membership, membership⟩] none
  cases hk : db.users.row k with
  | none => exact hshrinks.users.row_none hk
  | some u =>
    have hspared : (db.delete .membership [⟨.membership, membership⟩] none).has ⟨.user, k⟩ :=
      delete_spares withMemberships_within (by simp [withMemberships]) (by simp [withMemberships])
        (by simp [withMemberships])
        (by simp [withMemberships]) ⟨u, hk⟩
    obtain ⟨u', hu'⟩ := hspared
    obtain ⟨x, hx, rfl⟩ := hshrinks.users.2 k u' hu'
    rw [← hk, hx]
    exact hu'

theorem delete_membership_active {membership k other : Pk} :
    (db.delete .membership [⟨.membership, membership⟩] none).ActiveIn k other ↔ db.ActiveIn k other := by
  unfold ActiveIn
  rw [delete_membership_users]

theorem leaveOrg_active {slug : String} (h : db.leaveOrg user slug = .ok d) : ∃ organization o,
    db.organizations.row organization = some o ∧ o.slug = slug
      ∧ ∀ k other, d.ActiveIn k other ↔ db.ActiveIn k other ∧ ¬ (k = user ∧ other = organization) := by
  simp only [leaveOrg, bind_ok, found_ok, pure_ok, Prod.exists] at h
  obtain ⟨organization, o, ho, membership, m, -, rfl⟩ := h
  obtain ⟨ho, hslug⟩ := first_eq_some ho
  refine ⟨organization, o, ho, beq_iff_eq.mp hslug, fun k other => ?_⟩
  by_cases hin : db.ActiveIn user organization
  · have hany : (db.users.row user).any (·.activeOrganization == some organization) = true := by
      obtain ⟨u, hu, hactive⟩ := hin
      simp [hu, hactive]
    rw [if_pos hany, activate_active, delete_membership_active]
    by_cases hk : k = user
    · subst hk
      rw [if_pos rfl]
      refine iff_of_false (fun h => Option.some_ne_none _ h.2.symm) fun h => h.2 ⟨rfl, ?_⟩
      obtain ⟨⟨u, hu, hother⟩, -⟩ := h
      obtain ⟨x, hx, horganization⟩ := hin
      rw [hu] at hx
      obtain rfl := Option.some.inj hx
      exact Option.some.inj (hother.symm.trans horganization)
    · simp [hk]
  · have hnot : ¬ (db.users.row user).any (·.activeOrganization == some organization) = true := by
      intro hany
      obtain ⟨u, hu, hactive⟩ := (Option.any_eq_true _ _).mp hany
      exact hin ⟨u, hu, beq_iff_eq.mp hactive⟩
    rw [if_neg hnot, delete_membership_active]
    refine ⟨fun hactive => ⟨hactive, fun hboth => hin ?_⟩, And.left⟩
    rw [hboth.1, hboth.2] at hactive
    exact hactive

theorem deleteMembership_active {caller membership k other : Pk}
    (h : db.deleteMembership caller membership = .ok d) :
    d.ActiveIn k other ↔ db.ActiveIn k other := by
  simp only [deleteMembership, bind_ok, Table.get_ok, require_ok, exists_unit, pure_ok] at h
  obtain ⟨m, -, -, -, rfl⟩ := h
  exact delete_membership_active

theorem deleteOrganization_ok (h : db.deleteOrganization user organization = .ok d) :
    d = db.delete .organization [⟨.organization, organization⟩] none := by
  simp only [deleteOrganization, deleteRows, bind_ok, found_ok, require_ok, exists_unit, pure_ok] at h
  obtain ⟨o, -, -, -, rfl⟩ := h
  rfl

end DB

theorem DB.deleteOrganization_takes {db d : DB} {user deleted : Pk}
    (h : db.deleteOrganization user deleted = .ok d) :
    (∀ k o, db.organizations.row k = some o → (d.organizations.row k = none ↔ db.FallsWith deleted k)
        ∧ (d.organizations.row k = none ∨ d.organizations.row k = some o))
      ∧ (∀ k u, db.users.row k = some u → (d.users.row k = none ↔ db.UserFallsWith deleted k)
        ∧ (d.users.row k = none ∨ d.users.row k = some u))
      ∧ ∀ k m, db.memberships.row k = some m →
        (d.memberships.row k = none ↔ db.FallsWith deleted m.organization ∨ db.UserFallsWith deleted m.user) := by
  obtain rfl := DB.deleteOrganization_ok h
  have hshrinks := DB.delete_shrinks db .organization [⟨.organization, deleted⟩] none
  refine ⟨fun k o ho => ⟨?_, ?_⟩, fun k u hu => ⟨?_, ?_⟩, fun k m hm => ?_⟩
  · rw [DB.row_none_iff]
    refine (DB.delete_organization_gone (r := ⟨.organization, k⟩) ⟨o, ho⟩ (by simp [DB.withClients])).trans ?_
    exact ⟨fun hgone => DB.falls_of_collect hgone, fun hfalls => hfalls.collect⟩
  · cases hleft : (db.delete .organization [⟨.organization, deleted⟩] none).organizations.row k with
    | none => exact .inl rfl
    | some o' =>
      obtain ⟨x, hx, rfl⟩ := hshrinks.organizations.2 k o' hleft
      exact .inr (by rw [← ho, hx])
  · rw [DB.row_none_iff]
    refine (DB.delete_organization_gone (r := ⟨.user, k⟩) ⟨u, hu⟩ (by simp [DB.withClients])).trans ?_
    exact ⟨fun hgone => DB.falls_of_collect hgone, fun hfalls => hfalls.collect⟩
  · cases hleft : (db.delete .organization [⟨.organization, deleted⟩] none).users.row k with
    | none => exact .inl rfl
    | some u' =>
      obtain ⟨x, hx, rfl⟩ := hshrinks.users.2 k u' hleft
      exact .inr (by rw [← hu, hx])
  · rw [DB.row_none_iff]
    refine (DB.delete_organization_gone (r := ⟨.membership, k⟩) ⟨m, hm⟩ (by simp [DB.withClients])).trans ?_
    constructor
    · intro hgone
      exact DB.falls_of_collect hgone m hm
    · intro hfalls
      rcases hfalls with hfalls | hfalls
      · exact DB.mem_collect_of_hangsOn (p := ⟨.organization, m.organization⟩)
          (by simp [DB.hangsOn, hm, Membership.hangsOn]) hfalls.collect
      · exact DB.mem_collect_of_hangsOn (p := ⟨.user, m.user⟩)
          (by simp [DB.hangsOn, hm, Membership.hangsOn]) hfalls.collect

/-- Bob, who owns an organization, has invited whoever has the link. -/
def strayInvite : List Action :=
  [.createUser "ann" [], .createUser "bob" [], .createOrganization "lab" 0 false,
   .createOrganization "other" 1 false,
   .createInvite 1 1 none [] none none false]

end Lok
