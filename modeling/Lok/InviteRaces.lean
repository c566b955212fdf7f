import Lok.Owners

/-!
# Answers to one invite

Accepting an invite locks its row and looks at it again. Declining and cancelling read it
first and save their answer later, without a lock. However they are interleaved, what is
accepted is counted, and nothing is accepted once the invite was answered or expired; but
an answer that is saved late may overwrite that the invite was accepted.
-/

namespace Lok

open Table Runs Checks

def InviteStatus.value : InviteStatus → String
  | .pending => "pending"
  | .accepted => "accepted"
  | .declined => "declined"
  | .cancelled => "cancelled"

namespace DB

variable {db d : DB}

/-! ## Declining and cancelling -/

/-- What `decline_invite` reads: an invite that is pending. -/
def readToDecline (db : DB) (invite : Pk) : Answer Invite := do
  let i ← found (db.invites.row invite) ⟨.graphQLError, "Invalid invite token"⟩
  assert (i.status == .pending) .graphQLError s!"This invite has already been {i.status.value}"
  return i

/-- `Invite.decline`: one of many saying no does not close a collaboration invite for the rest. -/
def declineInvite (db : DB) (invite : Pk) (read : Invite) : DB :=
  if read.sharedCollaborations.isSome then db else db.modifyInvite invite fun i => { i with status := .declined }

/-- What `cancel_invite` reads: an invite the user may cancel, that is pending unless its grants are taken
back as well. -/
def readToCancel (db : DB) (user invite : Pk) (revokeShared : Bool) : Answer Invite := do
  let i ← found (db.invites.row invite) denied
  require (db.isOwnerOrAdmin user i.createdFor || i.sharedCollaborations.isSome && i.createdBy == user) denied
  assert (revokeShared && i.sharedCollaborations.isSome || i.status == .pending) .graphQLError
    s!"Cannot cancel an invite that has been {i.status.value}"
  return i

/-- The end of `cancel_invite`. -/
def cancelInvite (db : DB) (invite : Pk) (read : Invite) : DB :=
  if read.status == .pending then db.modifyInvite invite fun i => { i with status := .cancelled } else db

/-! ## What an acceptance does to the grants -/

/-- Grants stay, and gain roles and the mesh. -/
def Grew (t u : Table CollaborationGrant) : Prop :=
  t.next ≤ u.next ∧ ∀ k g, t.row k = some g → ∃ g', u.row k = some g' ∧ (∀ r ∈ g.roles, r ∈ g'.roles)
    ∧ (g.mesh = true → g'.mesh = true)

/-- One is new, or has a role or the mesh it had not. -/
def Gained (t u : Table CollaborationGrant) : Prop :=
  t.next < u.next ∨ ∃ k g g', t.row k = some g ∧ u.row k = some g'
    ∧ ((∃ r ∈ g'.roles, r ∉ g.roles) ∨ g.mesh = false ∧ g'.mesh = true)

theorem Gained.ne {t u : Table CollaborationGrant} (h : Gained t u) : u ≠ t := by
  rintro rfl
  rcases h with h | ⟨k, g, g', hg, hg', h⟩
  · exact absurd h (Nat.lt_irrefl _)
  · rw [hg] at hg'
    obtain rfl := Option.some.inj hg'
    rcases h with ⟨r, hr, hnot⟩ | ⟨hno, hyes⟩
    · exact hnot hr
    · rw [hno] at hyes
      cases hyes

theorem Gained.grew {t u v : Table CollaborationGrant} (h : Gained t u) (k : Grew u v) : Gained t v := by
  rcases h with h | ⟨pk, g, g', hg, hg', h⟩
  · exact .inl (Nat.lt_of_lt_of_le h k.1)
  · obtain ⟨g'', hg'', hroles, hmesh⟩ := k.2 pk g' hg'
    refine .inr ⟨pk, g, g'', hg, hg'', ?_⟩
    rcases h with ⟨r, hr, hnot⟩ | ⟨hno, hyes⟩
    · exact .inl ⟨r, hroles r hr, hnot⟩
    · exact .inr ⟨hno, hmesh hyes⟩

theorem Grew.refl (t : Table CollaborationGrant) : Grew t t :=
  ⟨Nat.le_refl _, fun _ g hg => ⟨g, hg, fun _ => id, id⟩⟩

/-- A collaboration given adds something and says so, or adds nothing and leaves it as it was. -/
theorem grantOne_grants {membership : Pk} {invite grantedBy : Option Pk} {expiresAt : Option Time} {mesh : Bool}
    {s u : DB × Bool} {ref : CollaborationRef}
    (h : grantOne membership invite grantedBy expiresAt mesh s ref = .ok u) :
    (u = s ∨ u.2 = true ∧ Gained s.1.grants u.1.grants) ∧ Grew s.1.grants u.1.grants := by
  cases grantOne_gives h with
  | made _ ht =>
    subst ht
    exact ⟨.inr ⟨rfl, .inl (Nat.lt_succ_self _)⟩, Nat.le_succ _,
      fun k g hg => ⟨g, insert_row_of_some hg, fun _ => id, id⟩⟩
  | @widened pk g hgrant hadds =>
    have hg := (grantFor_some hgrant).1
    have hgrew : ∀ r ∈ g.roles, r ∈ unionRoles g.roles ref.roles := fun r hr => by simp [unionRoles, hr]
    refine ⟨.inr ⟨rfl, .inr ⟨pk, g, _, hg, modify_row_eq_some.mpr (.inr ⟨rfl, g, hg, rfl⟩), ?_⟩⟩, Nat.le_refl _,
      fun k x hx => ?_⟩
    · by_cases hroles : unionRoles g.roles ref.roles = sortedSet g.roles
      · simp only [hroles, bne_self_eq_false, Bool.false_or, Bool.and_eq_true, Bool.not_eq_true'] at hadds
        exact .inr ⟨hadds.2, by simp [hadds.1]⟩
      · refine .inl ?_
        by_contra hnone
        refine hroles (sortedSet_congr fun r => ⟨fun hr => ?_, fun hr => List.mem_append_left _ hr⟩)
        by_contra hnot
        exact hnone ⟨r, mem_sortedSet.mpr hr, hnot⟩
    · by_cases hk : k = pk
      · subst hk
        rw [hg] at hx
        obtain rfl := Option.some.inj hx
        exact ⟨_, modify_row_eq_some.mpr (.inr ⟨rfl, g, hg, rfl⟩), hgrew, fun hmesh => by simp [hmesh]⟩
      · exact ⟨x, modify_row_eq_some.mpr (.inl ⟨hk, hx⟩), fun _ => id, id⟩
  | kept => exact ⟨.inl rfl, .refl _⟩

theorem grantCollaborations_changed {membership : Pk} {entries : List CollaborationRef}
    {invite grantedBy : Option Pk}
    {expiresAt : Option Time} {mesh : Bool} {r : DB × Bool}
    (h : db.grantCollaborations membership entries invite grantedBy expiresAt mesh = .ok r) :
    r.2 = true ∧ r.1.grants ≠ db.grants ∨ r.2 = false ∧ r.1.grants = db.grants := by
  simp only [grantCollaborations, bind_ok, Table.get_ok, require_ok, exists_unit] at h
  obtain ⟨m, -, -, -, -, h⟩ := h
  have hall := foldlM_ok (R := fun s u : DB × Bool => (u.1.grants = s.1.grants ∧ u.2 = s.2 ∨ u.2 = true
    ∧ Gained s.1.grants u.1.grants)
      ∧ Grew s.1.grants u.1.grants) (fun s => ⟨.inl ⟨rfl, rfl⟩, .refl _⟩)
    (fun {s u v} hsu huv => by
      obtain ⟨hsu, hgrew⟩ := hsu
      obtain ⟨huv, hgrew'⟩ := huv
      refine ⟨?_, Nat.le_trans hgrew.1 hgrew'.1, fun k g hg => ?_⟩
      · rcases huv with ⟨hsame, hflag⟩ | ⟨hflag, hgained⟩
        · rw [hsame, hflag]
          exact hsu
        · rcases hsu with ⟨hsame, -⟩ | ⟨-, hgained'⟩
          · exact .inr ⟨hflag, hsame ▸ hgained⟩
          · exact .inr ⟨hflag, hgained'.grew hgrew'⟩
      · obtain ⟨g', hg', hroles, hmesh⟩ := hgrew.2 k g hg
        obtain ⟨g'', hg'', hroles', hmesh'⟩ := hgrew'.2 k g' hg'
        exact ⟨g'', hg'', fun r hr => hroles' r (hroles r hr), fun hm => hmesh' (hmesh hm)⟩)
    (fun ref _ s u hu => by
      obtain ⟨hone, hgrew⟩ := grantOne_grants hu
      refine ⟨?_, hgrew⟩
      rcases hone with rfl | hone
      · exact .inl ⟨rfl, rfl⟩
      · exact .inr hone) h
  rcases hall.1 with ⟨hsame, hflag⟩ | ⟨hflag, hgained⟩
  · exact .inr ⟨hflag, hsame⟩
  · exact .inl ⟨hflag, hgained.ne⟩

/-! ## What an acceptance does to the invite -/

/-- What of an invite only its acceptance and its answers change. -/
structure SameInvite (i j : Invite) : Prop where
  createdFor : j.createdFor = i.createdFor
  shared : j.sharedCollaborations = i.sharedCollaborations
  maxUses : j.maxUses = i.maxUses
  expiresAt : j.expiresAt = i.expiresAt

theorem SameInvite.refl (i : Invite) : SameInvite i i := ⟨rfl, rfl, rfl, rfl⟩

theorem SameInvite.trans {i j k : Invite} (h : SameInvite i j) (h' : SameInvite j k) : SameInvite i k :=
  ⟨h'.createdFor.trans h.createdFor, h'.shared.trans h.shared, h'.maxUses.trans h.maxUses,
   h'.expiresAt.trans h.expiresAt⟩

def KeepsInvite (pk : Pk) (i : Invite) (d : DB) : Prop :=
  ∃ j, d.invites.row pk = some j ∧ SameInvite i j ∧ j.status = i.status ∧ j.uses = i.uses

theorem KeepsInvite.same {pk : Pk} {i : Invite} (h : KeepsInvite pk i db) (hinvites : d.invites = db.invites) :
    KeepsInvite pk i d := by
  unfold KeepsInvite
  rw [hinvites]
  exact h

theorem deleteGrants_keepsInvite {pk : Pk} {i : Invite} {grants : List Pk} {upgrading : Option Pk}
    (h : KeepsInvite pk i db) :
    KeepsInvite pk i (db.deleteGrants grants upgrading) := by
  refine foldl_invariant (P := fun d : DB => KeepsInvite pk i d) (fun g _ d hd => ?_) h
  obtain ⟨j, hj, hsame, hstatus, huses⟩ := hd
  obtain ⟨j', hj'⟩ : (d.delete .grant [⟨.grant, g⟩] upgrading).has ⟨.invite, pk⟩ :=
    delete_spares withMemberships_within (by simp [withMemberships]) (by simp [withMemberships])
      (by simp [withMemberships])
      (by simp [withMemberships]) ⟨j, hj⟩
  obtain ⟨j₀, hj₀, _, _, rfl⟩ := (delete_shrinks d .grant [⟨.grant, g⟩] upgrading).invites.2 pk j' hj'
  rw [hj] at hj₀
  obtain rfl := Option.some.inj hj₀
  exact ⟨_, hj', hsame.trans ⟨rfl, rfl, rfl, rfl⟩, hstatus, huses⟩

theorem SamePeople.invites (h : SamePeople db d) : d.invites = db.invites := by
  obtain ⟨t, rfl, -⟩ := h
  rfl

theorem assignInviteRoles_invites {membership : Pk} {invite : Invite}
    (h : db.assignInviteRoles membership invite = .ok d) :
    d.invites = db.invites := by
  unfold assignInviteRoles at h
  split at h
  · exact (setRoles_people h).invites
  · split at h
    · exact (addRoles_people h).invites
    · cases h
      rfl

theorem createMembership_same {user organization : Pk} {through : Option Pk} {r : DB × Pk}
    (h : db.createMembership user organization through = .ok r) :
    r.1.invites = db.invites ∧ r.1.grants = db.grants := by
  simp only [createMembership, bind_ok, Table.get_ok, require_ok, exists_unit, pure_ok] at h
  obtain ⟨_, -, _, -, -, rfl⟩ := h
  exact ⟨rfl, rfl⟩

theorem getOrCreateMembership_same {user organization : Pk} {through : Option Pk} {r : DB × Pk}
    (h : db.getOrCreateMembership user organization through = .ok r) :
    r.1.invites = db.invites ∧ r.1.grants = db.grants := by
  unfold getOrCreateMembership at h
  split at h
  · cases h
    exact ⟨rfl, rfl⟩
  · exact createMembership_same h

theorem redeemMemberInvite_invite {pk user : Pk} {i : Invite} {r : DB × Pk} (hi : KeepsInvite pk i db)
    (h : db.redeemMemberInvite pk i user = .ok r) :
    ∃ j, r.1.invites.row pk = some j ∧ SameInvite i j ∧ j.status = .accepted := by
  have haccept : ∀ d : DB, (∃ j, d.invites.row pk = some j ∧ SameInvite i j) →
      ∃ j, (d.acceptInvite pk user).invites.row pk = some j ∧ SameInvite i j ∧ j.status = .accepted := by
    rintro d ⟨j, hj, hsame⟩
    exact ⟨_, modify_row_eq_some.mpr (.inr ⟨rfl, j, hj, rfl⟩), hsame.trans ⟨rfl, rfl, rfl, rfl⟩, rfl⟩
  have hwelcome : ∀ (d : DB) membership, KeepsInvite pk i d → d.welcome pk i user membership = .ok r →
      ∃ j, r.1.invites.row pk = some j ∧ SameInvite i j ∧ j.status = .accepted := by
    intro d membership hd hok
    simp only [welcome, bind_ok, pure_ok] at hok
    obtain ⟨e, he, rfl⟩ := hok
    obtain ⟨j, hj, hsame, -⟩ := hd.same (assignInviteRoles_invites he)
    exact haccept _ ⟨_, modify_row_eq_some.mpr (.inr ⟨rfl, j, hj, rfl⟩), hsame.trans ⟨rfl, rfl, rfl, rfl⟩⟩
  unfold redeemMemberInvite at h
  split at h
  · split at h
    · have hupgraded : ∀ membership, KeepsInvite pk i (db.upgradeToFull membership) :=
        fun _ => deleteGrants_keepsInvite hi
      refine hwelcome _ _ ?_ h
      exact (hupgraded _).same rfl
    · obtain rfl := Except.ok.inj h
      obtain ⟨j, hj, hsame, -⟩ := hi
      exact haccept db ⟨j, hj, hsame⟩
  · simp only [bind_ok, Prod.exists] at h
    obtain ⟨d, membership, hd, h⟩ := h
    exact hwelcome d membership (hi.same (createMembership_same hd).1) h

theorem redeemCollaborationInvite_invite {pk user : Pk} {i : Invite} {refs : List CollaborationRef} {r : DB × Pk}
    (hi : db.invites.row pk = some i) (h : db.redeemCollaborationInvite pk i refs user = .ok r) :
    ∃ j, r.1.invites.row pk = some j ∧ SameInvite i j
      ∧ (r.1.grants = db.grants ∧ j.uses = i.uses ∧ j.status = i.status ∨ r.1.grants ≠ db.grants
        ∧ j.uses = i.uses + 1
        ∧ j.status = if i.maxUses.any (· ≤ i.uses + 1) then .accepted else i.status) := by
  simp only [redeemCollaborationInvite, bind_ok, reraise_ok, Prod.exists] at h
  obtain ⟨d, membership, hd, e, changed, hgrant, h⟩ := h
  obtain ⟨hinvites, hgrants⟩ := getOrCreateMembership_same hd
  have hgranted : e.invites = d.invites := by
    obtain ⟨t, _, ht, -⟩ := grantCollaborations_grants hgrant
    dsimp only at ht
    rw [ht]
  have hrow : e.invites.row pk = some i := by rw [hgranted, hinvites, hi]
  have hchanged := grantCollaborations_changed hgrant
  rw [hgrants] at hchanged
  dsimp only at hchanged
  split at h
  · rename_i hno
    obtain rfl := pure_ok.mp h
    rcases hchanged with ⟨hyes, -⟩ | ⟨-, hsame⟩
    · simp [hyes] at hno
    · exact ⟨i, hrow, .refl i, .inl ⟨hsame, rfl, rfl⟩⟩
  · rename_i hyes
    obtain rfl := pure_ok.mp h
    rcases hchanged with ⟨-, hne⟩ | ⟨hno, -⟩
    · have hused : (e.modifyInvite pk fun i => { i with uses := i.uses + 1 }).invites.row pk = some
        { i with uses := i.uses + 1 } :=
        modify_row_eq_some.mpr (.inr ⟨rfl, i, hrow, rfl⟩)
      dsimp only
      split
      · exact ⟨_, modify_row_eq_some.mpr (.inr ⟨rfl, _, hused, rfl⟩), ⟨rfl, rfl, rfl, rfl⟩, .inr ⟨hne, rfl, rfl⟩⟩
      · exact ⟨_, hused, ⟨rfl, rfl, rfl, rfl⟩, .inr ⟨hne, rfl, rfl⟩⟩
    · simp [hno] at hyes

/-- An acceptance finds the invite valid. It spends an ordinary one, and of a collaboration invite a use if
it changes grants. -/
theorem redeemInvite_invite {pk user : Pk} {i : Invite} {r : DB × Pk} (hi : db.invites.row pk = some i)
    (h : db.redeemInvite pk user = .ok r) :
    db.inviteIsValid i = true ∧ ∃ j, r.1.invites.row pk = some j ∧ SameInvite i j
      ∧ (i.sharedCollaborations = none → j.status = .accepted)
      ∧ (i.sharedCollaborations.isSome = true →
        r.1.grants = db.grants ∧ j.uses = i.uses ∧ j.status = i.status ∨ r.1.grants ≠ db.grants
        ∧ j.uses = i.uses + 1
          ∧ (j.status = if i.maxUses.any (· ≤ i.uses + 1) then .accepted else i.status)
          ∧ ∀ m, db.memberOf user i.createdFor = some m → db.isScoped m = true) := by
  simp only [DB.redeemInvite, bind_ok, Table.get_ok, exists_unit] at h
  obtain ⟨i', hi', hvalid, h⟩ := h
  rw [hi] at hi'
  obtain rfl := Option.some.inj hi'
  refine ⟨checkAcceptable_ok.mp hvalid, ?_⟩
  split at h
  · rename_i refs membership hshared hmember
    split at h
    · rename_i hscoped
      obtain ⟨j, hj, hsame, huse⟩ := redeemCollaborationInvite_invite hi h
      refine ⟨j, hj, hsame, fun hnone => by simp [hshared] at hnone,
        fun _ => huse.imp_right fun hused => ⟨hused.1, hused.2.1, hused.2.2, ?_⟩⟩
      intro m hm
      obtain rfl := Option.some.inj (hmember.symm.trans hm)
      exact hscoped
    · obtain rfl := Except.ok.inj h
      exact ⟨i, hi, .refl i, fun hnone => by simp [hshared] at hnone, fun _ => .inl ⟨rfl, rfl, rfl⟩⟩
  · rename_i refs hshared hmember
    obtain ⟨j, hj, hsame, huse⟩ := redeemCollaborationInvite_invite hi h
    refine ⟨j, hj, hsame, fun hnone => by simp [hshared] at hnone,
      fun _ => huse.imp_right fun hused => ⟨hused.1, hused.2.1, hused.2.2, ?_⟩⟩
    intro m hm
    cases hmember.symm.trans hm
  · rename_i hshared
    obtain ⟨j, hj, hsame, haccepted⟩ := redeemMemberInvite_invite ⟨i, hi, .refl i, rfl, rfl⟩ h
    exact ⟨j, hj, hsame, fun _ => haccepted, fun hsome => by simp [hshared] at hsome⟩

theorem readToDecline_ok {pk : Pk} {i : Invite} (h : db.readToDecline pk = .ok i) :
    db.invites.row pk = some i ∧ i.status = .pending := by
  simp only [readToDecline, bind_ok, found_ok, require_ok, exists_unit, pure_ok, beq_iff_eq] at h
  obtain ⟨i', hi, hpending, rfl⟩ := h
  exact ⟨hi, hpending⟩

theorem readToCancel_ok {user pk : Pk} {revoke : Bool} {i : Invite} (h : db.readToCancel user pk revoke = .ok i) :
    db.invites.row pk = some i := by
  simp only [readToCancel, bind_ok, found_ok, require_ok, exists_unit, pure_ok] at h
  obtain ⟨i', hi, -, -, rfl⟩ := h
  exact hi

end DB

/-! ## Answers, interleaved -/

/-- A decline or a cancel under way, with the invite as it read it; a cancel may have grants to take back. -/
inductive Answering
  | decline (read : Invite)
  | cancel (read : Invite) (revoke : Bool)

/-- What it read lets it write the status of the invite. -/
def Answering.writes : Answering → Bool
  | .decline read => read.sharedCollaborations.isNone
  | .cancel read _ => read.status == .pending

structure InviteState where
  db : DB
  answering : List Answering
  /-- Who accepted the invite, and whether grants changed. -/
  accepted : List (Pk × Bool)

inductive InviteEvent
  | tick (seconds : Time)
  | redeem (user : Pk)
  | decline
  | cancel (user : Pk) (revokeShared : Bool)
  | revoke (answer : Nat)
  | answer (answer : Nat)

/-- One step of the calls on an invite: an acceptance is one transaction, the others read, may take grants
back, and write. -/
inductive InviteStep (pk : Pk) : InviteState → InviteEvent → InviteState → Prop
  | tick (s : InviteState) (seconds : Time) : InviteStep pk s (.tick seconds)
    { s with db := { s.db with now := s.db.now + seconds } }
  | redeem {s : InviteState} {user : Pk} {r : DB × Pk} {changed : Bool} (h : s.db.redeemInvite pk user = .ok r)
      (hchanged : changed = true ↔ r.1.grants ≠ s.db.grants) :
    InviteStep pk s (.redeem user) { s with db := r.1, accepted := s.accepted ++ [(user, changed)] }
  | refused {s : InviteState} {user : Pk} {e : Refused} (h : s.db.redeemInvite pk user = .error e) :
    InviteStep pk s (.redeem user) s
  | decline {s : InviteState} {i : Invite} (h : s.db.readToDecline pk = .ok i) :
    InviteStep pk s .decline { s with answering := s.answering ++ [.decline i] }
  | cancel {s : InviteState} {user : Pk} {revoke : Bool} {i : Invite}
    (h : s.db.readToCancel user pk revoke = .ok i) :
    InviteStep pk s (.cancel user revoke)
      { s with answering := s.answering ++ [.cancel i (revoke && i.sharedCollaborations.isSome)] }
  | revoke {s : InviteState} {n : Nat} {i : Invite} (hn : s.answering[n]? = some (.cancel i true)) :
    InviteStep pk s (.revoke n)
      { s with db := s.db.revokeInviteGrants pk, answering := s.answering.set n (.cancel i false) }
  | declined {s : InviteState} {n : Nat} {i : Invite} (hn : s.answering[n]? = some (.decline i)) :
    InviteStep pk s (.answer n) { s with db := s.db.declineInvite pk i, answering := s.answering.eraseIdx n }
  | cancelled {s : InviteState} {n : Nat} {i : Invite} (hn : s.answering[n]? = some (.cancel i false)) :
    InviteStep pk s (.answer n) { s with db := s.db.cancelInvite pk i, answering := s.answering.eraseIdx n }

/-- The user's acceptance would use the invite up: it is an ordinary one, or has one use left and they are
no full member. -/
def DB.LastUse (db : DB) (pk user : Pk) : Prop :=
  ∃ i, db.invites.row pk = some i ∧ (i.sharedCollaborations = none
    ∨ i.maxUses.any (· ≤ i.uses + 1) = true ∧ ∀ m, db.memberOf user i.createdFor = some m → db.isScoped m = true)

/-- The invite is not used up while an answer that saw it pending is still to be saved. -/
def InviteEvent.Safe (pk : Pk) (s : InviteState) : InviteEvent → Prop
  | .redeem user => (∃ a ∈ s.answering, a.writes = true) → ¬ s.db.LastUse pk user
  | _ => True

def SafeAnswer (pk : Pk) (s : InviteState) (e : InviteEvent) (t : InviteState) : Prop :=
  e.Safe pk s ∧ InviteStep pk s e t

/-! ## Every run -/

section

open DB

variable {pk : Pk} {s t : InviteState} {e : InviteEvent}

theorem InviteStep.row (h : InviteStep pk s e t) {j : Invite} (hj : s.db.invites.row pk = some j) :
    (∃ user changed r, s.db.redeemInvite pk user = .ok r ∧ e = .redeem user ∧ t.db = r.1
        ∧ t.accepted = s.accepted ++ [(user, changed)] ∧ (changed = true ↔ r.1.grants ≠ s.db.grants)
        ∧ t.answering = s.answering)
      ∨ t.accepted = s.accepted ∧ s.db.now ≤ t.db.now ∧ ∃ j', t.db.invites.row pk = some j' ∧ SameInvite j j'
      ∧ j'.uses = j.uses
        ∧ (j'.status = j.status
          ∨ (∃ (n : Nat) (a : Answering), s.answering[n]? = some a ∧ a.writes = true)
          ∧ (j'.status = .declined ∨ j'.status = .cancelled)) := by
  have hwritten : ∀ status,
    (∃ j', (s.db.modifyInvite pk fun i => { i with status := status }).invites.row pk = some j'
      ∧ SameInvite j j' ∧ j'.uses = j.uses ∧ j'.status = status) :=
    fun status => ⟨_, modify_row_eq_some.mpr (.inr ⟨rfl, j, hj, rfl⟩), ⟨rfl, rfl, rfl, rfl⟩, rfl, rfl⟩
  cases h with
  | tick seconds => exact .inr ⟨rfl, Nat.le_add_right _ _, j, hj, .refl j, rfl, .inl rfl⟩
  | redeem hok hchanged => exact .inl ⟨_, _, _, hok, rfl, rfl, rfl, hchanged, rfl⟩
  | refused | decline | cancel => exact .inr ⟨rfl, Nat.le_refl _, j, hj, .refl j, rfl, .inl rfl⟩
  | revoke =>
    obtain ⟨j', hj', hsame, hstatus, huses⟩ : DB.KeepsInvite pk j (s.db.revokeInviteGrants pk) :=
      deleteGrants_keepsInvite ⟨j, hj, .refl j, rfl, rfl⟩
    refine .inr ⟨rfl, ?_, j', hj', hsame, huses, .inl hstatus⟩
    exact foldl_invariant (P := fun d : DB => s.db.now ≤ d.now)
      (fun g _ d hd => Nat.le_trans hd (Nat.le_of_eq (delete_shrinks d .grant [⟨.grant, g⟩] none).now.symm))
        (Nat.le_refl _)
  | @declined n i hn =>
    unfold DB.declineInvite
    dsimp only
    split
    · exact .inr ⟨rfl, Nat.le_refl _, j, hj, .refl j, rfl, .inl rfl⟩
    · rename_i hordinary
      obtain ⟨j', hj', hsame, huses, hstatus⟩ := hwritten .declined
      refine .inr ⟨rfl, Nat.le_refl _, j', hj', hsame, huses, .inr ⟨⟨n, _, hn, ?_⟩, .inl hstatus⟩⟩
      simpa [Answering.writes] using hordinary
  | @cancelled n i hn =>
    unfold DB.cancelInvite
    dsimp only
    split
    · rename_i hpending
      obtain ⟨j', hj', hsame, huses, hstatus⟩ := hwritten .cancelled
      exact .inr ⟨rfl, Nat.le_refl _, j', hj', hsame, huses, .inr ⟨⟨n, _, hn, hpending⟩, .inr hstatus⟩⟩
    · exact .inr ⟨rfl, Nat.le_refl _, j, hj, .refl j, rfl, .inl rfl⟩

/-- The acceptances of the invite `i` are counted. -/
def InviteState.Counted (pk : Pk) (i : Invite) (s : InviteState) : Prop :=
  ∃ j, s.db.invites.row pk = some j ∧ SameInvite i j
    ∧ (i.sharedCollaborations = none → s.accepted.length ≤ 1 ∧ (j.status = .pending → s.accepted = []))
    ∧ (i.sharedCollaborations.isSome = true → j.uses = (s.accepted.filter (·.2)).length
      ∧ ∀ m, i.maxUses = some m → j.uses ≤ m ∧ (j.status = .pending → j.uses < m))

theorem DB.inviteIsValid_pending {db : DB} {j : Invite} (h : db.inviteIsValid j = true) : j.status = .pending := by
  unfold DB.inviteIsValid at h
  simp only [Bool.and_eq_true, beq_iff_eq] at h
  exact h.1

theorem InviteStep.counted {i : Invite} (h : InviteStep pk s e t) (hs : s.Counted pk i) : t.Counted pk i := by
  obtain ⟨j, hj, hsame, hordinary, hshared⟩ := hs
  rcases h.row hj with ⟨user, changed, r, hok, -, hdb, haccepted, hchanged, -⟩ | ⟨haccepted, -, j', hj', hsame',
    huses, hstatus⟩
  · obtain ⟨hvalid, j', hj', hsame', hspent, hused⟩ := redeemInvite_invite hj hok
    have hpending := DB.inviteIsValid_pending hvalid
    refine ⟨j', hdb ▸ hj', hsame.trans hsame', fun hnone => ?_, fun hsome => ?_⟩
    · have haccept := hspent (hsame.shared.trans hnone)
      rw [haccepted, (hordinary hnone).2 hpending]
      exact ⟨Nat.le_refl _, fun hstill => by rw [haccept] at hstill; cases hstill⟩
    · obtain ⟨hcount, hmax⟩ := hshared hsome
      rw [haccepted, List.filter_append, List.length_append]
      rcases hused (hsame.shared ▸ hsome) with ⟨hgrants, huses, hstatus⟩ | ⟨hgrants, huses, hstatus, -⟩
      · have hno : changed = false := by
          cases changed with
          | false => rfl
          | true => exact absurd hgrants (hchanged.mp rfl)
        subst hno
        rw [huses, hstatus]
        exact ⟨by simpa using hcount, hmax⟩
      · have hyes : changed = true := hchanged.mpr hgrants
        subst hyes
        refine ⟨by rw [huses, hcount]; rfl, fun m hm => ?_⟩
        have hlt := (hmax m hm).2 hpending
        rw [huses]
        refine ⟨hlt, fun hstill => Nat.lt_of_le_of_ne hlt fun heq => ?_⟩
        have hany : j.maxUses.any (· ≤ j.uses + 1) = true := by simp [hsame.maxUses, hm, heq]
        rw [hstatus, if_pos hany] at hstill
        cases hstill
  · refine ⟨j', hj', hsame.trans hsame', fun hnone => ?_, fun hsome => ?_⟩
    · rw [haccepted]
      obtain ⟨hlen, hempty⟩ := hordinary hnone
      refine ⟨hlen, fun hpending => ?_⟩
      rcases hstatus with hstatus | ⟨-, hstatus | hstatus⟩
      · exact hempty (hstatus ▸ hpending)
      · rw [hpending] at hstatus
        cases hstatus
      · rw [hpending] at hstatus
        cases hstatus
    · rw [haccepted, huses]
      obtain ⟨hcount, hmax⟩ := hshared hsome
      refine ⟨hcount, fun m hm => ⟨(hmax m hm).1, fun hpending => ?_⟩⟩
      rcases hstatus with hstatus | ⟨-, hstatus | hstatus⟩
      · exact (hmax m hm).2 (hstatus ▸ hpending)
      · rw [hpending] at hstatus
        cases hstatus
      · rw [hpending] at hstatus
        cases hstatus

/-- The invite was answered, or expired. -/
def InviteState.Closed (pk : Pk) (s : InviteState) : Prop :=
  ∃ j, s.db.invites.row pk = some j ∧ (j.status ≠ .pending ∨ ∃ t, j.expiresAt = some t ∧ t < s.db.now)

theorem InviteStep.closed (h : InviteStep pk s e t) (hs : s.Closed pk) :
    t.Closed pk ∧ t.accepted = s.accepted := by
  obtain ⟨j, hj, hclosed⟩ := hs
  rcases h.row hj with ⟨user, changed, r, hok, -⟩ | ⟨haccepted, hnow, j', hj', hsame', -, hstatus⟩
  · obtain ⟨hvalid, -⟩ := redeemInvite_invite hj hok
    rcases hclosed with hclosed | ⟨u, hu, hlt⟩
    · exact absurd (DB.inviteIsValid_pending hvalid) hclosed
    · unfold DB.inviteIsValid at hvalid
      simp only [hu, Option.all_some, Bool.and_eq_true, decide_eq_true_eq] at hvalid
      exact absurd hlt (Nat.not_lt.mpr hvalid.2)
  · refine ⟨⟨j', hj', ?_⟩, haccepted⟩
    rcases hclosed with hclosed | ⟨u, hu, hlt⟩
    · refine .inl fun hpending => ?_
      rcases hstatus with hstatus | ⟨-, hstatus | hstatus⟩
      · exact hclosed (hstatus ▸ hpending)
      · rw [hpending] at hstatus
        cases hstatus
      · rw [hpending] at hstatus
        cases hstatus
    · exact .inr ⟨u, hsame'.expiresAt.trans hu, Nat.lt_of_lt_of_le hlt hnow⟩

/-- Once the invite is accepted no answer that is still to be saved would overwrite that. -/
def InviteState.Settled (pk : Pk) (s : InviteState) : Prop :=
  ∃ j, s.db.invites.row pk = some j ∧ (j.status = .accepted → ∀ a ∈ s.answering, a.writes = false)

def InviteState.Accepted (pk : Pk) (s : InviteState) : Prop :=
  ∃ j, s.db.invites.row pk = some j ∧ j.status = .accepted

theorem InviteStep.answering (h : InviteStep pk s e t) {a : Answering} (ha : a ∈ t.answering)
    (hwrites : a.writes = true) :
    (∃ b ∈ s.answering, b.writes = true) ∨ ∃ j, s.db.invites.row pk = some j ∧ t.db = s.db
    ∧ j.status = .pending := by
  cases h with
  | tick | redeem | refused => exact .inl ⟨a, ha, hwrites⟩
  | @decline i hread =>
    rcases List.mem_append.mp ha with ha | ha
    · exact .inl ⟨a, ha, hwrites⟩
    · obtain ⟨hi, hpending⟩ := readToDecline_ok hread
      exact .inr ⟨i, hi, rfl, hpending⟩
  | @cancel user revoke i hread =>
    rcases List.mem_append.mp ha with ha | ha
    · exact .inl ⟨a, ha, hwrites⟩
    · obtain rfl := List.mem_singleton.mp ha
      exact .inr ⟨i, readToCancel_ok hread, rfl, by simpa [Answering.writes] using hwrites⟩
  | @revoke n i hn =>
    rcases List.mem_or_eq_of_mem_set ha with ha | rfl
    · exact .inl ⟨a, ha, hwrites⟩
    · exact .inl ⟨_, List.mem_of_getElem? hn, hwrites⟩
  | declined | cancelled => exact .inl ⟨a, List.mem_of_mem_eraseIdx ha, hwrites⟩

theorem SafeAnswer.settled (h : SafeAnswer pk s e t) (hs : s.Settled pk) :
    t.Settled pk ∧ (s.Accepted pk → t.Accepted pk) := by
  obtain ⟨hsafe, hstep⟩ := h
  obtain ⟨j, hj, hsettled⟩ := hs
  have hnone : ∀ {j' : Invite}, j'.status = .accepted →
    (j.status = .accepted ∨ ¬ ∃ a ∈ s.answering, a.writes = true) →
      (∀ j₀, s.db.invites.row pk = some j₀ → t.db = s.db → j₀.status = .pending → j'.status = j₀.status) →
      ∀ a ∈ t.answering, a.writes = false := by
    intro j' haccepted hbefore hsame a ha
    by_contra hwrites
    rw [Bool.not_eq_false] at hwrites
    rcases hstep.answering ha hwrites with ⟨b, hb, hbwrites⟩ | ⟨j₀, hj₀, hdb, hpending⟩
    · rcases hbefore with hbefore | hbefore
      · rw [hsettled hbefore b hb] at hbwrites
        cases hbwrites
      · exact hbefore ⟨b, hb, hbwrites⟩
    · rw [hsame j₀ hj₀ hdb hpending, hpending] at haccepted
      cases haccepted
  rcases hstep.row hj with ⟨user, changed, r, hok, rfl, hdb, -, -, hanswering⟩ | ⟨-, -, j', hj', -, -, hstatus⟩
  · obtain ⟨hvalid, j', hj', hsame', hspent, hused⟩ := redeemInvite_invite hj hok
    have hpending := DB.inviteIsValid_pending hvalid
    refine ⟨⟨j', hdb ▸ hj', fun haccepted => ?_⟩, fun ⟨j₀, hj₀, haccepted⟩ => ?_⟩
    · have hlast : s.db.LastUse pk user := by
        refine ⟨j, hj, ?_⟩
        cases hshared : j.sharedCollaborations with
        | none => exact .inl rfl
        | some refs =>
          rcases hused (by rw [hshared]; rfl) with ⟨-, -, hstill⟩ | ⟨-, -, hstatus, hscoped⟩
          · rw [hstill, hpending] at haccepted
            cases haccepted
          · refine .inr ⟨?_, hscoped⟩
            by_contra hmore
            rw [hstatus, if_neg hmore, hpending] at haccepted
            cases haccepted
      intro a ha
      by_contra hwrites
      rw [Bool.not_eq_false] at hwrites
      exact hsafe ⟨a, hanswering ▸ ha, hwrites⟩ hlast
    · rw [hj] at hj₀
      obtain rfl := Option.some.inj hj₀
      rw [hpending] at haccepted
      cases haccepted
  · have hkept : j.status = .accepted → j'.status = .accepted := by
      intro haccepted
      rcases hstatus with hstatus | ⟨⟨n, a, hn, hwrites⟩, -⟩
      · exact hstatus.trans haccepted
      · rw [hsettled haccepted a (List.mem_of_getElem? hn)] at hwrites
        cases hwrites
    refine ⟨⟨j', hj', fun haccepted => ?_⟩, fun ⟨j₀, hj₀, haccepted⟩ => ⟨j', hj', hkept ?_⟩⟩
    · have hbefore : j.status = .accepted := by
        rcases hstatus with hstatus | ⟨-, hstatus | hstatus⟩
        · exact hstatus ▸ haccepted
        · rw [haccepted] at hstatus
          cases hstatus
        · rw [haccepted] at hstatus
          cases hstatus
      refine hnone haccepted (.inl hbefore) fun j₀ hj₀ _ hpending => ?_
      rw [hj] at hj₀
      obtain rfl := Option.some.inj hj₀
      rw [hbefore] at hpending
      cases hpending
    · rw [hj] at hj₀
      obtain rfl := Option.some.inj hj₀
      exact haccepted

end

/-- An invite as it is created; `create_invite` takes no fewer uses than one. -/
structure Invite.Fresh (i : Invite) : Prop where
  pending : i.status = .pending
  unused : i.uses = 0
  usable : ∀ m, i.maxUses = some m → 1 ≤ m

/-- However its acceptances, declines and cancels are interleaved, an ordinary invite is accepted once, the
uses of a collaboration invite are the acceptances that changed grants and no more than it has, what was
answered or expired is not accepted, and a refused acceptance changes nothing. An invite that was accepted
stays so when it is not used up while an answer that saw it pending is still to be saved. -/
theorem invite_counted {db : DB} {pk : Pk} {i : Invite} (hi : db.invites.row pk = some i) (hfresh : i.Fresh) :
    (∀ es s, Run (InviteStep pk) ⟨db, [], []⟩ es s →
      (i.sharedCollaborations = none → s.accepted.length ≤ 1)
        ∧ (i.sharedCollaborations.isSome = true →
          ∃ j, s.db.invites.row pk = some j ∧ j.uses = (s.accepted.filter (·.2)).length
          ∧ ∀ m, i.maxUses = some m → j.uses ≤ m)
        ∧ (s.Closed pk → ∀ fs t, Run (InviteStep pk) s fs t → t.accepted = s.accepted)
        ∧ ∀ user refused t, s.db.redeemInvite pk user = .error refused → InviteStep pk s (.redeem user) t → t = s)
      ∧ ∀ es s, Run (SafeAnswer pk) ⟨db, [], []⟩ es s → s.Accepted pk →
      ∀ fs t, Run (SafeAnswer pk) s fs t → t.Accepted pk := by
  have hcounted : InviteState.Counted pk i ⟨db, [], []⟩ := by
    refine ⟨i, hi, .refl i, fun _ => ⟨Nat.zero_le _, fun _ => rfl⟩, fun _ => ⟨hfresh.unused, fun m hm => ?_⟩⟩
    rw [hfresh.unused]
    exact ⟨Nat.zero_le _, fun _ => hfresh.usable m hm⟩
  refine ⟨fun es s hrun => ?_, fun es s hrun haccepted fs t hrun' => ?_⟩
  · obtain ⟨j, hj, -, hordinary, hshared⟩ :=
      hrun.invariant (P := fun s => s.Counted pk i) (fun h hst => hst.counted h) hcounted
    refine ⟨fun hnone => (hordinary hnone).1, fun hsome => ?_, fun hclosed fs t hrun' => ?_,
      fun user refused t herror hstep => ?_⟩
    · obtain ⟨hcount, hmax⟩ := hshared hsome
      exact ⟨j, hj, hcount, fun m hm => (hmax m hm).1⟩
    · exact (hrun'.invariant (P := fun t => t.Closed pk ∧ t.accepted = s.accepted)
        (fun h hst => ⟨(hst.closed h.1).1, (hst.closed h.1).2.trans h.2⟩) ⟨hclosed, rfl⟩).2
    · cases hstep with
      | redeem hok =>
        rw [herror] at hok
        cases hok
      | refused => rfl
  · have hstart : InviteState.Settled pk ⟨db, [], []⟩ := ⟨i, hi, fun _ _ ha => nomatch ha⟩
    have hsettled : s.Settled pk :=
      hrun.invariant (P := fun s => s.Settled pk) (fun h hst => (hst.settled h).1) hstart
    exact (hrun'.invariant (P := fun t => t.Settled pk ∧ t.Accepted pk)
      (fun h hst => ⟨(hst.settled h.1).1, (hst.settled h.1).2 h.2⟩) ⟨hsettled, haccepted⟩).2

def bobInvited : List Action :=
  [.createUser "ann" [], .createUser "bob" [], .createOrganization "org" 0 false,
   .createInvite 0 0 none [] none none false]

theorem exists_invite {db : DB} {p : Invite → Bool} (h : (db.invites.row 0).any p = true) :
    ∃ i, db.invites.row 0 = some i ∧ p i = true := (Option.any_eq_true _ _).mp h

/-- Ann shares a hub with whoever of her guests takes the link first. -/
def hubShared : List Action :=
  [.createUser "ann" [], .createUser "bob" [], .createOrganization "org" 0 false, .configureHub 0 plainHub,
   .createInvite 0 0 none [] (some [⟨0, "c", []⟩]) (some 1) false]

/-- Bob declines on one screen and accepts on another before that is saved; Ann cancels the invite and takes
his grant back. It is used once and stays accepted. -/
theorem invite_counted_bob :
    ∃ s t j, Run (SafeAnswer 0) ⟨run plainEnv .empty hubShared, [], []⟩ [.decline, .redeem 1] s
      ∧ Run (SafeAnswer 0) s [.cancel 0 true, .revoke 1, .answer 1, .answer 0] t ∧ t.db.invites.row 0 = some j
      ∧ j.uses = (t.accepted.filter (·.2)).length ∧ j.uses ≤ 1 ∧ t.Accepted 0 := by
  have hread : ((run plainEnv .empty hubShared).readToDecline 0).toOption.any
      (fun i => i.uses == 0 && i.maxUses == some 1 && i.sharedCollaborations.isSome) = true := by decide +kernel
  have hok : ((run plainEnv .empty hubShared).redeemInvite 0 1).toOption.any (fun r =>
      (r.1.invites.row 0).any (·.status == .accepted)
        && (r.1.readToCancel 0 0 true).toOption.any (·.sharedCollaborations.isSome)) = true := by decide +kernel
  generalize run plainEnv .empty hubShared = db at hread hok ⊢
  obtain ⟨i, hi, hp⟩ := exists_ok_and hread
  simp only [Bool.and_eq_true, beq_iff_eq] at hp
  obtain ⟨⟨huses, hmax⟩, hshared⟩ := hp
  obtain ⟨hrow, hpending⟩ := DB.readToDecline_ok hi
  have hfresh : i.Fresh := ⟨hpending, huses, fun m hm => by rw [hmax] at hm; cases hm; exact Nat.le_refl 1⟩
  obtain ⟨r, hr, hp⟩ := exists_ok_and hok
  obtain ⟨haccepted, hcancel⟩ := (Bool.and_eq_true _ _).mp hp
  obtain ⟨k, hk, hstatus⟩ := exists_invite haccepted
  obtain ⟨c, hc, hcshared⟩ := exists_ok_and hcancel
  obtain ⟨changed, hchanged⟩ : ∃ changed : Bool, changed = true ↔ r.1.grants ≠ db.grants := by
    by_cases h : r.1.grants = db.grants
    · exact ⟨false, by simp [h]⟩
    · exact ⟨true, by simp [h]⟩
  have hno : ¬ ∃ a ∈ [Answering.decline i], a.writes = true := by
    rintro ⟨a, ha, hwrites⟩
    rw [List.mem_singleton.mp ha, Answering.writes, Option.isNone_iff_eq_none] at hwrites
    rw [hwrites] at hshared
    cases hshared
  have htaken : Run (SafeAnswer 0) ⟨db, [], []⟩ [.decline, .redeem 1] ⟨r.1, [.decline i], [(1, changed)]⟩ :=
    .cons ⟨trivial, .decline hi⟩ (.single ⟨fun h => absurd h hno, .redeem hr hchanged⟩)
  have hcancelled : InviteStep 0 ⟨r.1, [.decline i], [(1, changed)]⟩ (.cancel 0 true)
      ⟨r.1, [.decline i, .cancel c true], [(1, changed)]⟩ := by
    have hstep := InviteStep.cancel (s := ⟨r.1, [.decline i], [(1, changed)]⟩) hc
    rwa [hcshared] at hstep
  have hlate : Run (SafeAnswer 0) ⟨r.1, [.decline i], [(1, changed)]⟩
    [.cancel 0 true, .revoke 1, .answer 1, .answer 0] _ :=
    .cons ⟨trivial, hcancelled⟩ (.cons ⟨trivial, .revoke (n := 1) rfl⟩ (.cons ⟨trivial, .cancelled (n := 1) rfl⟩
      (.single ⟨trivial, .declined (n := 0) rfl⟩)))
  have hall := invite_counted hrow hfresh
  obtain ⟨j, hj, hcount, hlimit⟩ := (hall.1 _ _ ((htaken.append hlate).mono And.right)).2.1 hshared
  exact ⟨_, _, j, htaken, hlate, hj, hcount, hlimit 1 hmax,
    hall.2 _ _ htaken ⟨k, hk, by simpa using hstatus⟩ _ _ hlate⟩

/-- Bob declines on one screen and accepts on another: the invite that made him a member is shown as declined. -/
theorem accepted_invite_declined :
    ∃ s t, Run (InviteStep 0) ⟨run plainEnv .empty bobInvited, [], []⟩ [.decline, .redeem 1] s ∧ s.Accepted 0
      ∧ Run (InviteStep 0) s [.answer 0] t ∧ (t.db.invites.row 0).any (·.status == .declined) = true := by
  have hread : ((run plainEnv .empty bobInvited).readToDecline 0).toOption.any
    (·.sharedCollaborations.isNone) = true := by
    decide +kernel
  have hok : ((run plainEnv .empty bobInvited).redeemInvite 0 1).toOption.any
      (fun r => (r.1.invites.row 0).any (·.status == .accepted)) = true := by decide +kernel
  generalize run plainEnv .empty bobInvited = db at hread hok ⊢
  obtain ⟨i, hi, hordinary⟩ := exists_ok_and hread
  obtain ⟨r, hr, hp⟩ := exists_ok_and hok
  obtain ⟨j, hj, hstatus⟩ := exists_invite hp
  obtain ⟨changed, hchanged⟩ : ∃ changed : Bool, changed = true ↔ r.1.grants ≠ db.grants := by
    by_cases h : r.1.grants = db.grants
    · exact ⟨false, by simp [h]⟩
    · exact ⟨true, by simp [h]⟩
  have hshared : i.sharedCollaborations.isSome = false := by
    cases hi : i.sharedCollaborations with
    | none => rfl
    | some _ => simp [hi] at hordinary
  refine ⟨_, _, .cons (.decline hi) (.single (.redeem hr hchanged)), ⟨j, hj, by simpa using hstatus⟩,
    .single (.declined rfl), ?_⟩
  unfold DB.declineInvite
  rw [hshared]
  exact (Option.any_eq_true _ _).mpr ⟨_, modify_row_eq_some.mpr (.inr ⟨rfl, j, hj, rfl⟩), rfl⟩

end Lok
