import Lok.RoleWrites

/-!
# Writes of the guest functions

A grant is only written for a membership without roles, and only `upgradeToFull` deletes
grants under the exemption that lets the membership stay: the licence names whom it may
upgrade.
-/

namespace Lok

open Table Runs Checks

namespace DB

variable {A : Licence} {db d : DB}

/-! ## Grants -/

/-- The grant a membership has of a collaboration. -/
def grantFor (db : DB) (membership : Pk) (ref : CollaborationRef) : Option (Pk × CollaborationGrant) :=
  db.grants.first fun _ g => g.membership == membership && g.instance_ == ref.instance_ && g.collaborationId ==
    ref.collaboration

theorem grantFor_some {membership pk : Pk} {ref : CollaborationRef} {g : CollaborationGrant}
    (h : db.grantFor membership ref = some (pk, g)) : db.grants.row pk = some g ∧ g.membership = membership
      ∧ g.instance_ = ref.instance_ ∧ g.collaborationId = ref.collaboration := by
  obtain ⟨hrow, hkey⟩ := first_eq_some h
  simp only [Bool.and_eq_true, beq_iff_eq] at hkey
  exact ⟨hrow, hkey.1.1, hkey.1.2, hkey.2⟩

theorem grantFor_none {membership : Pk} {ref : CollaborationRef} (h : db.grantFor membership ref = none) (j : Pk)
    (g : CollaborationGrant) (hj : db.grants.row j = some g) (hk : g.membership = membership)
    (hx : g.instance_ = ref.instance_) :
    g.collaborationId ≠ ref.collaboration := by
  intro hc
  have hmissed := first_eq_none.mp h j g hj
  simp [hk, hx, hc] at hmissed

/-- What giving one collaboration does: it makes a grant, widens the one there is, or finds nothing to add. -/
inductive GivesOne (membership : Pk) (invite grantedBy : Option Pk) (expiresAt : Option Time) (mesh : Bool)
    (s : DB × Bool) (ref : CollaborationRef) : DB × Bool → Prop
  | made {t : Table CollaborationGrant} (hnone : s.1.grantFor membership ref = none)
      (ht : t = s.1.grants.insert ⟨membership, ref.instance_, ref.collaboration, ref.roles, invite, grantedBy,
        expiresAt, mesh⟩)
      (hfew : t.count (fun _ g => g.membership == membership) ≤ maxGrantsPerMembership) :
      GivesOne membership invite grantedBy expiresAt mesh s ref ({ s.1 with grants := t }, true)
  | widened {pk : Pk} {g : CollaborationGrant} (hgrant : s.1.grantFor membership ref = some (pk, g))
      (hwider : (unionRoles g.roles ref.roles != sortedSet g.roles || (mesh && !g.mesh)) = true) :
      GivesOne membership invite grantedBy expiresAt mesh s ref ({ s.1 with grants := s.1.grants.modify pk fun x =>
        { x with
          roles := unionRoles g.roles ref.roles, mesh := x.mesh || mesh, grantedThrough := invite, grantedBy } }, true)
  | kept {pk : Pk} {g : CollaborationGrant} (hgrant : s.1.grantFor membership ref = some (pk, g))
      (hsame : ¬ (unionRoles g.roles ref.roles != sortedSet g.roles || (mesh && !g.mesh)) = true) :
      GivesOne membership invite grantedBy expiresAt mesh s ref s

theorem grantOne_gives {membership : Pk} {invite grantedBy : Option Pk} {expiresAt : Option Time} {mesh : Bool}
    {s u : DB × Bool} {ref : CollaborationRef}
    (h : grantOne membership invite grantedBy expiresAt mesh s ref = .ok u) :
    GivesOne membership invite grantedBy expiresAt mesh s ref u := by
  unfold grantOne at h
  dsimp only at h
  split at h
  · rename_i hnone
    simp only [bind_ok, require_ok, exists_unit, pure_ok, decide_eq_true_eq] at h
    obtain ⟨hfew, rfl⟩ := h
    exact .made hnone rfl hfew
  · rename_i pk g hgrant
    split at h
    · rename_i hwider
      obtain rfl := pure_ok.mp h
      exact .widened hgrant hwider
    · rename_i hsame
      obtain rfl := pure_ok.mp h
      exact .kept hgrant hsame

theorem grantOne_writes {membership : Pk} {m : Membership} (hm : db.memberships.row membership = some m)
    (hroles : m.roles = []) {invite grantedBy : Option Pk} {expiresAt : Option Time} {mesh changed : Bool}
    {ref : CollaborationRef} {r : DB × Bool} (hS : A.share)
    (h : grantOne membership invite grantedBy expiresAt mesh (db, changed) ref = .ok r) :
    Writes A db r.1 ∧ r.1.memberships = db.memberships := by
  cases grantOne_gives h with
  | made _ ht =>
    subst ht
    exact ⟨Via.single (.newGrant _ hm hroles) hS, rfl⟩
  | widened => exact ⟨Via.single (.grants (.modify (fun _ _ => ⟨rfl, rfl⟩) fun _ _ => ⟨rfl, rfl⟩)) hS, rfl⟩
  | kept => exact ⟨.refl db, rfl⟩

theorem grantCollaborations_writes {membership : Pk} {entries : List CollaborationRef}
    {invite grantedBy : Option Pk}
    {expiresAt : Option Time} {mesh : Bool} {r : DB × Bool} (hS : A.share)
    (h : db.grantCollaborations membership entries invite grantedBy expiresAt mesh = .ok r) : Writes A db r.1 := by
  simp only [grantCollaborations, bind_ok, Table.get_ok, require_ok, exists_unit] at h
  obtain ⟨m, hm, hroles, -, -, h⟩ := h
  have hR := foldlM_ok (R := fun s t : DB × Bool => s.1.memberships.row membership = some m →
      Writes A s.1 t.1 ∧ t.1.memberships = s.1.memberships) (fun _ _ => ⟨.refl _, rfl⟩)
    (fun {s t u} hst htu hs => by
      obtain ⟨hw, he⟩ := hst hs
      obtain ⟨hw', he'⟩ := htu (he ▸ hs)
      exact ⟨hw.trans hw', he'.trans he⟩)
    (fun ref _ s t hst hs => grantOne_writes hs (by simpa using hroles) hS hst) h
  exact (hR hm).1

theorem deleteGrants_writes {upgrading : Option Pk} (hA : ∀ m, upgrading = some m → A.upgrade m)
    (grants : List Pk) :
    Writes A db (db.deleteGrants grants upgrading) :=
  Via.foldl fun _ _ _ => Via.single (.delete _ _ _) ⟨by simp [routineOrigins], by simp, hA⟩

theorem upgradeToFull_writes {membership : Pk} (hA : A.upgrade membership) :
    Writes A db (db.upgradeToFull membership) :=
  deleteGrants_writes (by simpa using hA) _

theorem revokeGrant_writes (grant : Pk) : Writes A db (db.revokeGrant grant) := deleteGrants_writes (by simp) _

theorem revokeInviteGrants_writes (invite : Pk) : Writes A db (db.revokeInviteGrants invite) :=
  deleteGrants_writes (by simp) _

/-! ## Members -/

theorem createMembership_writes {user organization : Pk} {through : Option Pk} {r : DB × Pk} (hE : A.enroll)
    (h : db.createMembership user organization through = .ok r) : Writes A db r.1 := by
  simp only [createMembership, bind_ok, Table.get_ok, require_ok, exists_unit, pure_ok, Bool.not_eq_true'] at h
  obtain ⟨_, -, _, -, hnew, rfl⟩ := h
  refine Via.single (.newMembership _ rfl rfl fun pk x hx hu ho => ?_) hE
  have hno := exists?_eq_false.mp hnew pk x hx
  simp [hu, ho] at hno

theorem getOrCreateMembership_writes {user organization : Pk} {through : Option Pk} {r : DB × Pk} (hE : A.enroll)
    (h : db.getOrCreateMembership user organization through = .ok r) : Writes A db r.1 := by
  unfold getOrCreateMembership at h
  split at h
  · cases h
    exact .refl db
  · exact createMembership_writes hE h

theorem modifyInvite_writes (pk : Pk) (f : Invite → Invite) : Writes A db (db.modifyInvite pk f) :=
  Writes.quiet (.invites .modify)

theorem acceptInvite_writes (pk user : Pk) : Writes A db (db.acceptInvite pk user) := modifyInvite_writes _ _

theorem assignInviteRoles_writes {membership : Pk} {invite : Invite}
    (h : db.assignInviteRoles membership invite = .ok d) : Writes A db d := by
  unfold assignInviteRoles at h
  split at h
  · exact setRoles_writes h
  · split at h
    · exact addRoles_writes h
    · cases h
      exact .refl db

theorem redeemCollaborationInvite_writes {pk user : Pk} {invite : Invite} {refs : List CollaborationRef}
    {r : DB × Pk} (hE : A.enroll) (hS : A.share) (h : db.redeemCollaborationInvite pk invite refs user = .ok r) :
    Writes A db r.1 := by
  simp only [redeemCollaborationInvite, bind_ok, reraise_ok, Prod.exists] at h
  obtain ⟨d, membership, hd, e, changed, hgrant, h⟩ := h
  refine (getOrCreateMembership_writes hE hd).trans (.trans (grantCollaborations_writes hS hgrant) ?_)
  split at h
  · obtain rfl := pure_ok.mp h
    exact .refl _
  · obtain rfl := pure_ok.mp h
    dsimp only
    split
    · exact (modifyInvite_writes _ _).trans (acceptInvite_writes _ _)
    · exact modifyInvite_writes _ _

theorem welcome_writes {pk user membership : Pk} {invite : Invite} {r : DB × Pk}
    (h : db.welcome pk invite user membership = .ok r) : Writes A db r.1 := by
  simp only [welcome, bind_ok, pure_ok] at h
  obtain ⟨d, hd, rfl⟩ := h
  exact (assignInviteRoles_writes hd).trans ((modifyInvite_writes _ _).trans (acceptInvite_writes _ _))

/-- Whom a user's membership in an organization is, if there is one. -/
def memberOf (db : DB) (user organization : Pk) : Option Pk := (db.membershipOf user organization).map (·.1)

theorem redeemMemberInvite_writes {pk user : Pk} {invite : Invite} {r : DB × Pk} (hE : A.enroll)
    (hA : ∀ m, db.memberOf user invite.createdFor = some m → A.upgrade m)
    (h : db.redeemMemberInvite pk invite user = .ok r) : Writes A db r.1 := by
  unfold redeemMemberInvite at h
  split at h
  · rename_i membership m hm
    split at h
    · refine (upgradeToFull_writes (hA membership (by simp [memberOf, hm]))).trans (.trans ?_ (welcome_writes h))
      exact modifyMembership_writes fun _ => ⟨rfl, rfl, rfl, rfl⟩
    · cases h
      exact acceptInvite_writes _ _
  · simp only [bind_ok, Prod.exists] at h
    obtain ⟨d, membership, hd, h⟩ := h
    exact (createMembership_writes hE hd).trans (welcome_writes h)

theorem redeemInvite_writes {pk user : Pk} {r : DB × Pk} (hE : A.enroll) (hS : A.share)
    (hA : ∀ i m, db.invites.row pk = some i → i.sharedCollaborations = none →
      db.memberOf user i.createdFor = some m →
      A.upgrade m) (h : db.redeemInvite pk user = .ok r) : Writes A db r.1 := by
  simp only [redeemInvite, bind_ok, Table.get_ok, exists_unit] at h
  obtain ⟨invite, hinvite, -, h⟩ := h
  split at h
  · split at h
    · exact redeemCollaborationInvite_writes hE hS h
    · cases h
      exact .refl db
  · exact redeemCollaborationInvite_writes hE hS h
  · rename_i hshared
    exact redeemMemberInvite_writes hE (fun m => hA invite m hinvite hshared) h

/-! ## Requests and the admin's mutations -/

theorem approveRoleRequest_writes {request user : Pk} (h : db.approveRoleRequest request user = .ok d) :
    Writes A db d := by
  simp only [approveRoleRequest, bind_ok, Table.get_ok, pure_ok] at h
  obtain ⟨r, -, e, he, rfl⟩ := h
  exact (addRoles_writes he).trans (Writes.quiet (.roleRequests .modify))

theorem letIn_writes {membership : Pk} (hA : A.upgrade membership) : Writes A db (db.letIn membership) := by
  unfold letIn
  split
  · exact upgradeToFull_writes hA
  · exact .refl db

theorem approveMembershipRequest_writes {request user : Pk} {identifiers : List String} (hE : A.enroll)
    (hA : ∀ r m, db.membershipRequests.row request = some r →
      (∃ e, db.getOrCreateMembership r.user r.organization none = .ok (e, m)) →
      A.upgrade m) (h : db.approveMembershipRequest request user identifiers = .ok d) : Writes A db d := by
  simp only [approveMembershipRequest, bind_ok, Table.get_ok, require_ok, exists_unit, pure_ok, Prod.exists] at h
  obtain ⟨r, hr, -, e, membership, he, e', he', rfl⟩ := h
  refine (getOrCreateMembership_writes hE he).trans (.trans (letIn_writes (hA r membership hr ⟨e, he⟩)) ?_)
  exact (addRoles_writes he').trans (Writes.quiet (.membershipRequests .modify))

theorem updateMembership_writes {user membership : Pk} {roles : List Pk} (hA : A.upgrade membership)
    (h : db.updateMembership user membership roles = .ok d) : Writes A db d := by
  simp only [updateMembership, bind_ok, Table.get_ok, require_ok, exists_unit] at h
  obtain ⟨m, -, -, h⟩ := h
  split at h
  · obtain rfl := pure_ok.mp h
    exact .refl db
  · exact (letIn_writes hA).trans (setRoles_writes h)

theorem addUserToOrganization_writes {user target organization : Pk} {identifiers : List String} (hE : A.enroll)
    (hA : ∀ m, (∃ e, db.getOrCreateMembership target organization none = .ok (e, m)) → A.upgrade m)
    (h : db.addUserToOrganization user target organization identifiers = .ok d) : Writes A db d := by
  simp only [addUserToOrganization, bind_ok, require_ok, exists_unit, Prod.exists] at h
  obtain ⟨-, e, membership, he, -, h⟩ := h
  exact (getOrCreateMembership_writes hE he).trans
    ((letIn_writes (hA membership ⟨e, he⟩)).trans (setRoles_writes h))

/-! ## Organizations -/

theorem getOrCreateRole_writes (identifier : String) (organization : Pk) :
    Writes A db (db.getOrCreateRole identifier organization).1 := by
  unfold getOrCreateRole
  split
  · exact .refl db
  · exact Writes.quiet (.newRole _)

theorem ensureScope_writes (organization : Pk) (identifier : String) (description : Option String)
    (isAll isBuiltin : Option Bool) :
    Writes A db (db.ensureScope organization identifier description isAll isBuiltin) := by
  unfold ensureScope
  split
  · exact Writes.quiet (.scopes (.modify (fun _ _ => ⟨rfl, rfl⟩) fun _ _ => ⟨rfl, rfl⟩))
  · exact Writes.quiet (.newScope _)

theorem createDefaultScopesForOrg_writes (organization : Pk) :
    Writes A db (db.createDefaultScopesForOrg organization) :=
  (Via.foldl fun _ _ _ => ensureScope_writes _ _ _ _ _).trans (Via.foldl fun _ _ _ => ensureScope_writes _ _ _ _ _)

theorem ensureOwnerIsAdmin_writes {organization : Pk} (hE : A.enroll)
    (h : db.ensureOwnerIsAdmin organization = .ok d) :
    Writes A db d := by
  simp only [ensureOwnerIsAdmin, bind_ok, Table.get_ok, pure_ok, Prod.exists] at h
  obtain ⟨o, -, e, membership, he, e', he', rfl⟩ := h
  exact (getOrCreateMembership_writes hE he).trans ((getOrCreateRole_writes _ _).trans ((addRoles_writes he').trans
    (syncOrganization_writes _)))

theorem saveOrganization_writes {organization : Pk} (hE : A.enroll)
    (h : db.saveOrganization organization = .ok d) :
    Writes A db d := by
  simp only [saveOrganization, bind_ok, pure_ok] at h
  obtain ⟨e, he, rfl⟩ := h
  exact (getOrCreateRole_writes _ _).trans
    ((getOrCreateRole_writes _ _).trans ((ensureOwnerIsAdmin_writes hE he).trans
    (createDefaultScopesForOrg_writes _)))

theorem createOrganization_writes {slug : String} {owner : Pk} {device : Bool} {r : DB × Pk} (hE : A.enroll)
    (h : db.createOrganization slug owner device = .ok r) : Writes A db r.1 := by
  simp only [createOrganization, bind_ok, Table.get_ok, require_ok, exists_unit, pure_ok] at h
  obtain ⟨_, -, -, e, he, rfl⟩ := h
  exact (Writes.quiet (.organizations (.insert _))).trans (saveOrganization_writes hE he)

theorem changeOrganizationOwner_writes {user organization newOwner : Pk} (hE : A.enroll)
    (h : db.changeOrganizationOwner user organization newOwner = .ok d) : Writes A db d := by
  simp only [changeOrganizationOwner, bind_ok, Table.get_ok, require_ok, exists_unit] at h
  obtain ⟨_, -, -, -, h⟩ := h
  exact (Writes.quiet (.organizations .modify)).trans (saveOrganization_writes hE h)

end DB

end Lok
