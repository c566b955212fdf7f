import Lok.System
import Lok.TokenWrites

/-!
# Every action is a sequence of writes

What an action may do is read from the action and the database it finds: whom it may make a
full member, which key hashes it proposes, which client it binds or stores a code for. Every
action but a deletion is a sequence of writes within that licence, and a deletion is one
write. An invariant of the writes is so one of the system.
-/

namespace Lok

open Table Runs Checks

namespace Action

variable (env : Env) (db : DB)

/-- The memberships an action may deliberately make full members. -/
def upgrades : Action → Pk → Prop
  | .upgradeToFull membership, m => m = membership
  | .updateMembership _ membership _, m => m = membership
  | .redeemInvite invite user, m =>
    ∃ i, db.invites.row invite = some i ∧ i.sharedCollaborations = none ∧ db.memberOf user i.createdFor = some m
  | .approveMembershipRequest request _ _, m =>
    ∃ r, db.membershipRequests.row request = some r
      ∧ ∃ d, db.getOrCreateMembership r.user r.organization none = .ok (d, m)
  | .addUserToOrganization _ target organization _, m =>
    ∃ d, db.getOrCreateMembership target organization none = .ok (d, m)
  | _, _ => False

/-- The key hashes an action proposes for mandates. -/
def proposes : Action → String → Prop
  | .issueMandate _ _ _ _ claimant _ _ _ _ minted, h => DB.claimedHash env minted claimant = some h
  | .configureHubMandates _ manifest, h => ∃ r ∈ manifest.clients, h = env.hashKey r.mandateKey
  | .acceptHubDeviceCode _ pk _ _ _ _, h =>
    ∃ c manifest, db.deviceCodes.row pk = some c ∧ c.staging = .hub manifest
      ∧ ∃ r ∈ manifest.clients, h = env.hashKey r.mandateKey
  | .ensureConfigMandate spec, h => h = env.hashKey spec.key
  | _, _ => False

/-- Whom an approval binds its client to, and how that client was bound before. -/
def binds : Action → Binding → Pk → Prop
  | .acceptDeviceCode user pk _ hub _ _ _, before, m =>
    (∃ h, db.hubs.row hub = some h ∧ db.memberOf user h.organization = some m)
      ∧ (before.membership = some m ∧ before.mandate = none ∨ ∃ c, db.codeClient pk = some c ∧ c.binding = before)
  | .acceptHubDeviceCode user pk _ organization _ _, before, m =>
    (∃ x, db.memberships.row m = some x ∧ x.user = user ∧ x.organization = organization)
      ∧ ∃ c, db.codeClient pk = some c ∧ c.binding = before
  | _, _, _ => False

/-- The client and the membership an action stores a code for. -/
def authorizes : Action → Client → Pk → Prop
  | .authorize user organization request, c, m =>
    (∃ pk, db.queryClient request.clientId = some (pk, c)) ∧ db.memberOf user organization = some m
  | _, _, _ => False

/-- The actions that grant collaborations. -/
def shares : Action → Prop
  | .redeemInvite .. | .grantCollaborations .. => True
  | _ => False

def licence (a : Action) : Licence where
  enroll := True
  upgrade := a.upgrades db
  issue := a.proposes env db
  bind := a.binds db
  login := True
  authorize := a.authorizes db
  share := a.shares

def deletes : Action → Bool
  | .delete .. => true
  | _ => false

end Action

namespace DB

variable {A : Licence} {db d : DB} {env : Env}

theorem settle_writes {x : Answer DB} (h : ∀ d, x = .ok d → Writes A db d) : Writes A db (db.settle x) := by
  unfold settle
  split
  · exact h _ rfl
  · exact .refl db

theorem settle_map_writes {α : Type} {x : Answer (DB × α)} (h : ∀ r, x = .ok r → Writes A db r.1) :
    Writes A db (db.settle (x.map (·.1))) := by
  refine settle_writes fun d hd => ?_
  obtain ⟨r, hr, rfl⟩ := map_ok.mp hd
  exact h r hr

theorem deleteRows_ok {model : Model} {pks : List Pk} :
    db.deleteRows model pks = .ok d ↔ db.keepsApart (db.collect (pks.map fun pk => ⟨model, pk⟩)) = true
      ∧ d = db.delete model (pks.map fun pk => ⟨model, pk⟩) none := by
  simp only [deleteRows, bind_ok, require_ok, exists_unit, pure_ok, eq_comm (a := d)]

theorem deleteRows_of_within {S : List Model} (hS : Within S) (hdevice : .device ∉ S) {model : Model}
    (hmodel : model ∈ S)
    (pks : List Pk) : db.deleteRows model pks = .ok (db.delete model (pks.map fun pk => ⟨model, pk⟩) none) := by
  refine deleteRows_ok.mpr ⟨keepsApart_of_within hS hdevice fun r hr => ?_, rfl⟩
  obtain ⟨k, -, rfl⟩ := List.mem_map.mp hr
  exact hmodel

theorem createUser_writes (username : String) (groups : List String) :
    Writes A db (db.createUser username groups) := by
  unfold createUser
  split
  · exact .refl db
  · exact Writes.quiet (.users (.insert _))

theorem createRole_writes {identifier : String} {organization : Pk}
    (h : db.createRole identifier organization = .ok d) :
    Writes A db d := by
  simp only [createRole, bind_ok, pure_ok] at h
  obtain ⟨_, -, rfl⟩ := h
  exact getOrCreateRole_writes _ _

theorem updateOrganization_writes {organization : Pk} {slug : String} {device : Bool} {lifetime : Option Int}
    (hE : A.enroll) (h : db.updateOrganization organization slug device lifetime = .ok d) : Writes A db d := by
  simp only [updateOrganization, bind_ok] at h
  obtain ⟨_, -, _, -, _, -, h⟩ := h
  exact (Writes.quiet (.organizations .modify)).trans (saveOrganization_writes hE h)

theorem createInvite_writes {createdBy createdFor : Pk} {expiresAt : Option Time} {roles : List Pk}
    {shared : Option (List CollaborationRef)} {maxUses : Option Nat} {mesh : Bool}
    (h : db.createInvite createdBy createdFor expiresAt roles shared maxUses mesh = .ok d) : Writes A db d := by
  simp only [createInvite, bind_ok, pure_ok] at h
  obtain ⟨_, -, _, -, rfl⟩ := h
  exact Writes.quiet (.invites (.insert _))

theorem requestRole_writes {membership role : Pk} (h : db.requestRole membership role = .ok d) :
    Writes A db d := by
  simp only [requestRole, bind_ok, require_ok, exists_unit, pure_ok] at h
  obtain ⟨_, -, -, _, -, -, -, -, rfl⟩ := h
  exact Writes.quiet (.roleRequests (.insert _))

theorem requestMembership_writes {user organization : Pk} (h : db.requestMembership user organization = .ok d) :
    Writes A db d := by
  simp only [requestMembership, bind_ok, pure_ok] at h
  obtain ⟨_, -, rfl⟩ := h
  unfold storeRequest
  dsimp only
  split
  · exact .refl db
  · exact Writes.quiet (.membershipRequests (.insert _))

theorem acceptMeshDeviceCode_writes {user pk : Pk} {proof : Option Nat} {organization : Pk} {tags : List String}
    {minted : Option String} (h : db.acceptMeshDeviceCode user pk proof organization tags minted = .ok d) :
    Writes A db d := by
  simp only [acceptMeshDeviceCode, bind_ok, pure_ok] at h
  obtain ⟨_, -, _, -, _, -, _, -, _, -, rfl⟩ := h
  exact Writes.quiet (.answerMesh _ _)

theorem declineMeshDeviceCode_writes {pk : Pk} {proof : Option Nat}
    (h : db.declineMeshDeviceCode pk proof = .ok d) :
    Writes A db d := by
  simp only [declineMeshDeviceCode, bind_ok, pure_ok] at h
  obtain ⟨_, -, rfl⟩ := h
  exact Writes.quiet (.answerMesh _ _)

theorem pollMeshDeviceCode_writes (challenge : Nat) : Writes A db (db.pollMeshDeviceCode challenge).1 := by
  unfold pollMeshDeviceCode
  split
  · exact .refl db
  · dsimp only
    split
    · exact Writes.delete
    · split
      · exact Writes.delete
      · split
        · exact Writes.delete
        · exact .refl db

theorem acceptHubDeviceCode_writes {user pk organization : Pk} {proof : Option Nat} {allow : Bool}
    {minted : Option String}
    (hissue : ∀ c manifest, db.deviceCodes.row pk = some c → c.staging = .hub manifest →
      ∀ r ∈ manifest.clients, A.issue (env.hashKey r.mandateKey))
    (hA : ∀ c m x, db.codeClient pk = some c → db.memberships.row m = some x → x.user = user →
      x.organization = organization → A.bind c.binding m)
    (h : db.acceptHubDeviceCode env user pk proof organization allow minted = .ok d) : Writes A db d := by
  simp only [acceptHubDeviceCode, bind_ok, found_ok, require_ok, exists_unit] at h
  obtain ⟨code, hcode, _, -, -, -, h⟩ := h
  have hrow := resolveDeviceCode_ok hcode
  split at h
  · simp at h
  · rename_i manifest hstaging
    refine provisionHub_writes (hissue code manifest hrow hstaging) (fun c m x hc => ?_) h
    exact hA c m x (by simp [codeClient, hrow, hc])

end DB

theorem step_writes (env : Env) (db : DB) {a : Action} (ha : a.deletes = false) :
    Writes (a.licence env db) db (step env db a) := by
  cases a with
  | tick seconds => exact Writes.quiet (.tick _)
  | createUser username groups => exact DB.createUser_writes _ _
  | setActive user active => exact Writes.quiet (.users .modify)
  | setActiveOrganization user organization => exact Writes.quiet (.users .modify)
  | createOrganization slug owner device =>
    exact DB.settle_map_writes fun _ => DB.createOrganization_writes trivial
  | updateOrganization => exact DB.settle_writes fun _ => DB.updateOrganization_writes trivial
  | changeOrganizationOwner => exact DB.settle_writes fun _ => DB.changeOrganizationOwner_writes trivial
  | delete => cases ha
  | createMembership => exact DB.settle_map_writes fun _ => DB.createMembership_writes trivial
  | createRole => exact DB.settle_writes fun _ => DB.createRole_writes
  | renameRole => exact DB.settle_writes fun _ => DB.renameRole_writes
  | addRoles => exact DB.settle_writes fun _ => DB.addRoles_writes
  | removeRoles => exact DB.removeRoles_writes _ _
  | setRoles => exact DB.settle_writes fun _ => DB.setRoles_writes
  | clearRoles => exact DB.clearRoles_writes _
  | addMemberships => exact DB.settle_writes fun _ => DB.addMemberships_writes
  | removeMemberships => exact DB.removeMemberships_writes _ _
  | clearMemberships => exact DB.clearMemberships_writes _
  | syncServiceRoles => exact DB.syncServiceRoles_writes _
  | createInvite => exact DB.settle_writes fun _ => DB.createInvite_writes
  | answerInvite => exact DB.modifyInvite_writes _ _
  | redeemInvite invite user =>
    refine DB.settle_map_writes fun _ => DB.redeemInvite_writes trivial trivial fun i m hi hshared hm => ?_
    exact ⟨i, hi, hshared, hm⟩
  | grantCollaborations => exact DB.settle_map_writes fun _ => DB.grantCollaborations_writes trivial
  | revokeGrant => exact DB.revokeGrant_writes _
  | revokeInviteGrants => exact DB.revokeInviteGrants_writes _
  | upgradeToFull membership => exact DB.upgradeToFull_writes rfl
  | requestRole => exact DB.settle_writes fun _ => DB.requestRole_writes
  | approveRoleRequest => exact DB.settle_writes fun _ => DB.approveRoleRequest_writes
  | requestMembership => exact DB.settle_writes fun _ => DB.requestMembership_writes
  | approveMembershipRequest request user identifiers =>
    refine DB.settle_writes fun _ => DB.approveMembershipRequest_writes trivial fun r m hr hm => ?_
    exact ⟨r, hr, hm⟩
  | updateMembership => exact DB.settle_writes fun _ => DB.updateMembership_writes rfl
  | addUserToOrganization => exact DB.settle_writes fun _ => DB.addUserToOrganization_writes trivial fun _ hm => hm
  | configureHub => exact DB.configureHub_writes
  | configureHubMandates hub manifest =>
    exact DB.settle_writes fun _ => DB.configureHubMandates_writes fun r hr => ⟨r, hr, rfl⟩
  | registerPermissions => exact DB.registerPermissions_writes _ _ _ _
  | updateServiceInstance =>
    exact Writes.quiet (.instances (.modify (fun _ _ => ⟨rfl, .inl rfl⟩) fun _ _ => ⟨rfl, .inl rfl⟩))
  | ensureConfigMandate spec => exact DB.settle_writes fun _ => DB.ensureConfigMandate_writes rfl
  | revokeDropped => exact DB.revokeDropped_writes _
  | ensureOpenId => exact DB.ensureOpenId_writes trivial _
  | startDeviceCode => exact DB.startDeviceCode_writes trivial _ _ _ _ _ _ _
  | startHubDeviceCode => exact DB.startHubDeviceCode_writes trivial _ _
  | purgeExpiredDeviceCodes => exact DB.purgeExpiredDeviceCodes_writes
  | acceptDeviceCode user pk proof hub =>
    refine DB.settle_writes fun _ => DB.acceptDeviceCode_writes fun h m hh hm => ?_
    exact ⟨fun b hb hn => ⟨⟨h, hh, hm⟩, .inl ⟨hb, hn⟩⟩, fun c hc => ⟨⟨h, hh, hm⟩, .inr ⟨c, hc, rfl⟩⟩⟩
  | acceptHubDeviceCode user pk proof organization =>
    refine DB.settle_writes fun _ => DB.acceptHubDeviceCode_writes (fun c manifest hc hs r hr => ?_)
      fun c m x hc hx hu ho => ?_
    · exact ⟨c, manifest, hc, hs, r, hr, rfl⟩
    · exact ⟨⟨x, hx, hu, ho⟩, c, hc, rfl⟩
  | declineDeviceCode => exact DB.settle_writes fun _ => DB.declineDeviceCode_writes
  | startMeshDeviceCode => exact Writes.quiet (.stageMesh _)
  | acceptMeshDeviceCode => exact DB.settle_writes fun _ => DB.acceptMeshDeviceCode_writes
  | declineMeshDeviceCode => exact DB.settle_writes fun _ => DB.declineMeshDeviceCode_writes
  | pollMeshDeviceCode => exact DB.pollMeshDeviceCode_writes _
  | issueMandate => exact DB.settle_map_writes fun _ => DB.issueMandate_writes fun _ hh => hh
  | revokeMandate => exact DB.settle_writes fun _ => DB.revokeMandate_writes
  | revokeIssuedBy => exact DB.revokeIssuedBy_writes _
  | authenticateKey => exact DB.settle_map_writes fun _ => DB.authenticateKey_writes trivial trivial
  | authorize user organization request =>
    refine DB.settle_map_writes fun _ => DB.authorize_writes fun pk c m hc hm => ?_
    exact ⟨⟨pk, hc⟩, hm⟩
  | requestToken => exact DB.createTokenResponse_writes trivial trivial _
  | revokeToken => exact DB.settle_writes fun _ => DB.revokeToken_writes
  | revokeTokensOf => exact DB.revokeTokensOf_writes _
  | rejectAppInstallation => exact DB.rejectAppInstallation_writes _
  | revokeClientSessions => exact DB.revokeClientSessions_writes _ _
  | revokeOrganizationSessions => exact DB.revokeOrganizationSessions_writes _ _

/-- What is asked to be deleted is deleted with all that hangs on it, or stays. -/
theorem step_delete (env : Env) (db : DB) (model : Model) (pks : List Pk) :
    step env db (.delete model pks) = db
      ∨ step env db (.delete model pks) = db.delete model (pks.map fun pk => ⟨model, pk⟩) none := by
  show db.settle (db.deleteRows model pks) = db ∨ db.settle (db.deleteRows model pks) = _
  cases h : db.deleteRows model pks with
  | error => exact .inl rfl
  | ok d => exact .inr (DB.deleteRows_ok.mp h).2

/-- What the deletions keep, whoever asks for rows to be deleted keeps. -/
theorem step_deletes {P : DB → Prop} {env : Env} {db : DB} {a : Action} (ha : a.deletes = true) (h : P db)
    (hdelete : ∀ (model : Model) (pks : List Pk), P (db.delete model (pks.map fun pk => ⟨model, pk⟩) none)) :
    P (step env db a) := by
  cases a with
  | delete model pks =>
    rcases step_delete env db model pks with hstep | hstep
    · rw [hstep]
      exact h
    · rw [hstep]
      exact hdelete model pks
  | _ => cases ha

theorem step_delete_of_within (env : Env) (db : DB) {S : List Model} (hS : DB.Within S) (hdevice : .device ∉ S)
    {model : Model} (hmodel : model ∈ S) (pks : List Pk) :
    step env db (.delete model pks) = db.delete model (pks.map fun pk => ⟨model, pk⟩) none := by
  show db.settle (db.deleteRows model pks) = _
  rw [DB.deleteRows_of_within hS hdevice hmodel]
  rfl

theorem Reachable.delete {env : Env} {db : DB} {model : Model} (h : Reachable env db) {S : List Model}
    (hS : DB.Within S)
    (hdevice : .device ∉ S) (hmodel : model ∈ S) (pks : List Pk) :
    Reachable env (db.delete model (pks.map fun pk => ⟨model, pk⟩) none) :=
  h.step (step_delete_of_within env db hS hdevice hmodel pks).symm

section

variable {P : DB → Prop} {env : Env} (hwrite : ∀ {db l d}, P db → Write db l d → P d)
include hwrite

/-- What every write preserves, whoever makes it, every action preserves. -/
theorem step_invariant {db : DB} (a : Action) (h : P db) : P (step env db a) := by
  cases ha : a.deletes with
  | true => exact step_deletes ha h fun _ _ => hwrite h (.delete _ _ _)
  | false => exact (step_writes env db ha).invariant (I := P) (fun hI hw _ => hwrite hI hw) h

theorem run_invariant {db d : DB} {as : List Action} (hrun : Run (Step env) db as d) (h : P db) : P d :=
  hrun.invariant (P := P) (fun {s a t} hs hst => by rw [hst]; exact step_invariant hwrite a hs) h

theorem Reachable.invariant {db : DB} (h : Reachable env db) (hempty : P .empty) : P db := by
  obtain ⟨as, hrun⟩ := h
  exact run_invariant hwrite hrun hempty

end

end Lok
