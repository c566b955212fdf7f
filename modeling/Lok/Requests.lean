import Lok.Calls
import Lok.Owners
import Lok.RoleRuns
import Lok.System

/-!
# Answers to requests

A member asks for a role, or somebody asks to become a member; an admin approves or declines, and who asked
for a role may withdraw the request. An answer reads the request, gives what was asked for, and then saves
itself, each on its own: nothing is locked, and only an answer to a membership request looks whether there
was one before.
-/

namespace Lok

namespace Requests

open Calls Checks Runs

inductive Request
  | role (pk : Pk)
  | membership (pk : Pk)

/-- What an answer has in hand: the columns of the request that never change. -/
inductive Object
  | role (membership role : Pk)
  | membership (user organization : Pk)

inductive Wish
  | approve (identifiers : List String)
  | decline
  | cancel

end Requests

namespace DB

open Checks Requests

variable (db : DB)

/-- A request, with its status, who resolved it, and when. -/
def requested : Request → Option (Object × RequestStatus × Option Pk × Option Time)
  | .role pk =>
    (db.roleRequests.row pk).map fun r => (.role r.membership r.role, r.status, r.resolvedBy, r.respondedAt)
  | .membership pk =>
    (db.membershipRequests.row pk).map
      fun r => (.membership r.user r.organization, r.status, r.resolvedBy, r.respondedAt)

def denied : String := "Not found, or you are not authorized to access it."

/-- What comes before an answer to a role request: the caller may give it, whatever the status of the request. -/
def mayAnswerRole (user membership : Pk) (wish : Wish) : Answer Unit := do
  let m ← db.memberships.get membership
  let mayManage := db.isOwnerOrAdmin user m.organization
  match wish with
  | .approve _ =>
    assert mayManage .graphQLError "You must own or administer the organization to approve role requests."
  | .decline =>
    assert mayManage .graphQLError "You must own or administer the organization to decline role requests."
  | .cancel => assert (m.user == user) .graphQLError "You can only cancel your own role requests."

/-- `_pending_membership_request`, and `_pending_request`, which names the organization of the caller's token. -/
def mayAnswerMembership (user organization : Pk) (token : Option Pk) (status : RequestStatus) : Answer Unit := do
  assert (token.all (· == organization)) .graphQLError denied
  assert (db.isOwnerOrAdmin user organization) .graphQLError denied
  assert (status == .pending) .graphQLError s!"This request has already been {status.value}"

/-- A call reads the request, and the roles that are named. -/
def enter (request : Request) (user : Pk) (token : Option Pk) (wish : Wish) : Answer (Object × List Pk) := do
  let (object, status, _, _) ← found (db.requested request) ⟨.graphQLError, denied⟩
  match object, wish with
  | .role membership _, _ =>
    db.mayAnswerRole user membership wish
    return (object, [])
  | .membership _ organization, .approve identifiers =>
    db.mayAnswerMembership user organization token status
    return (object, db.rolesNamed identifiers organization)
  | .membership _ organization, .decline =>
    db.mayAnswerMembership user organization token status
    return (object, [])
  -- there is no call that withdraws a membership request
  | .membership _ _, .cancel => refuse .graphQLError denied

def respond (request : Request) (user : Pk) (status : RequestStatus) (created : Option Pk) : DB :=
  match request with
  | .role pk =>
    { db with roleRequests := db.roleRequests.modify pk fun r =>
      { r with status := status, resolvedBy := some user, respondedAt := some db.now } }
  | .membership pk =>
    { db with membershipRequests := db.membershipRequests.modify pk fun r =>
      { r with status := status, resolvedBy := some user, respondedAt := some db.now,
               createdMembership := created.or r.createdMembership } }

def withdraw : Request → DB
  | .role pk => { db with roleRequests := db.roleRequests.keep fun k _ => k != pk }
  | .membership pk => { db with membershipRequests := db.membershipRequests.keep fun k _ => k != pk }

end DB

namespace Requests

open Calls Checks Runs

/-! ## Answers, statement by statement -/

/-- How far a call has come. `wrote`: it has given something, or taken a guest's grants. -/
inductive Answering
  | entered (user : Pk) (token : Option Pk) (wish : Wish)
  | loaded (user : Pk) (wish : Wish) (object : Object) (named : List Pk)
  | enrolled (user organization membership : Pk) (named : List Pk) (wrote : Bool)
  | upgraded (user organization membership : Pk) (named : List Pk) (wrote : Bool)
  | given (user : Pk) (membership : Option Pk)

/-- What the calls have done, as it happened. A call that raises may have written before. -/
inductive Entry
  | gave (user : Pk)
  | answered (user : Pk) (status : RequestStatus) (at_ : Time)
  | withdrew (user : Pk)
  | raised (user : Pk) (wrote : Bool)
  deriving DecidableEq

structure Desk where
  db : DB
  log : List Entry

def Answering.user : Answering → Pk
  | .entered user _ _ | .loaded user _ _ _ | .enrolled user _ _ _ _ | .upgraded user _ _ _ _ | .given user _ =>
    user

def Answering.wrote : Answering → Bool
  | .entered _ _ _ | .loaded _ _ _ _ => false
  | .enrolled _ _ _ _ wrote | .upgraded _ _ _ _ wrote => wrote
  | .given _ _ => true

def Answering.hasLoaded : Answering → Bool
  | .entered _ _ _ => false
  | _ => true

namespace Desk

variable (s : Desk)

def note (e : Entry) : Desk := { s with log := s.log ++ [e] }

def raise (user : Pk) (wrote : Bool) : Desk × Option Answering := (s.note (.raised user wrote), none)

/-- The database after a statement of an approval, which may be the first of it that writes. -/
def give (db : DB) (user : Pk) (wrote writes : Bool) : Desk :=
  if writes && !wrote then note { s with db := db } (.gave user) else { s with db := db }

/-- `save(update_fields=..)`: raises when the row is gone. -/
def save (request : Request) (user : Pk) (status : RequestStatus) (created : Option Pk) (wrote : Bool) :
    Desk × Option Answering :=
  if (s.db.requested request).isSome then
    (note { s with db := s.db.respond request user status created } (.answered user status s.db.now), none)
  else s.raise user wrote

end Desk

/-- The next statement of a call, if the database does it. -/
def Answering.statement (request : Request) (s : Desk) : Answering → Desk × Option Answering
  | .entered user token wish =>
    match s.db.enter request user token wish with
    | .ok (object, named) => (s, some (.loaded user wish object named))
    | .error _ => s.raise user false
  | .loaded user (.approve _) (.role membership role) _ =>
    match s.db.addRoles membership [role] with
    | .ok d => (s.give d user false true, some (.given user none))
    | .error _ => s.raise user false
  | .loaded user (.approve _) (.membership requester organization) named =>
    match s.db.getOrCreateMembership requester organization none with
    | .ok (d, membership) =>
      let created := (s.db.membershipOf requester organization).isNone
      (s.give d user false created, some (.enrolled user organization membership named created))
    | .error _ => s.raise user false
  | .loaded user .decline _ _ => s.save request user .declined none false
  | .loaded user .cancel _ _ => (Desk.note { s with db := s.db.withdraw request } (.withdrew user), none)
  | .enrolled user organization membership named wrote =>
    (s.give (s.db.letIn membership) user wrote (s.db.isScoped membership),
      some (.upgraded user organization membership named (wrote || s.db.isScoped membership)))
  | .upgraded user organization membership named wrote =>
    match s.db.addRoles membership (if named.isEmpty then s.db.rolesNamed ["guest"] organization else named) with
    | .ok d => (s.give d user wrote true, some (.given user (some membership)))
    | .error _ => s.raise user wrote
  | .given user membership => s.save request user .approved membership true

def Answering.advance (request : Request) (s : Desk) (c : Answering) (done : Bool) :
    Option (Desk × Option Answering) :=
  some (if done then c.statement request s else s.raise c.user c.wrote)

/-! ## Any interleaving -/

abbrev Office := Pool Desk Answering

inductive Event
  | tick (seconds : Time)
  | call (user : Pk) (token : Option Pk) (wish : Wish)
  /-- `done`: the database does not fail. -/
  | goOn (n : Nat) (done : Bool)

def Event.run (request : Request) (s : Office) : Event → Option Office
  | .tick seconds =>
    some { s with store := { s.store with db := { s.store.db with now := s.store.db.now + seconds } } }
  | .call user token wish => some (s.begin (.entered user token wish))
  | .goOn n done => s.goOn (Answering.advance request) n done

/-- The request is still to be answered. -/
def IsPending (request : Request) (db : DB) : Prop :=
  ∃ object rest, db.requested request = some (object, .pending, rest)

/-- A call that has read the request goes on only while it is pending and no other has given what was asked
for without having saved its answer; and the database does not fail a call that has. -/
def Event.apart (request : Request) (s : Office) : Event → Prop
  | .goOn n done => ∀ c ∈ s.calls[n]?,
      (done = false → c.wrote = false)
      ∧ (c.hasLoaded = true → IsPending request s.store.db
        ∧ ∀ d ∈ s.others n, d.wrote = false)
  | _ => True

def Step (request : Request) (s : Office) (e : Event) (t : Office) : Prop := e.run request s = some t

def ApartStep (request : Request) (s : Office) (e : Event) (t : Office) : Prop :=
  e.apart request s ∧ Step request s e t

/-! ## What becomes of a request -/

inductive Fate
  | pending
  | giving (user : Pk)
  | approved (user : Pk) (at_ : Time)
  | declined (user : Pk) (at_ : Time)
  | withdrawn (user : Pk)

def Fate.log : Fate → List Entry
  | .pending => []
  | .giving user => [.gave user]
  | .approved user at_ => [.gave user, .answered user .approved at_]
  | .declined user at_ => [.answered user .declined at_]
  | .withdrawn user => [.withdrew user]

/-- The row of a request with this fate. -/
def Fate.Row : Fate → Option (Object × RequestStatus × Option Pk × Option Time) → Prop
  | .pending, row | .giving _, row => ∃ object rest, row = some (object, .pending, rest)
  | .approved user at_, row => ∃ object, row = some (object, .approved, some user, some at_)
  | .declined user at_, row => ∃ object, row = some (object, .declined, some user, some at_)
  | .withdrawn _, row => row = none

def Fate.gave : Fate → Bool
  | .giving _ | .approved _ _ => true
  | _ => false

def Entry.isRaise : Entry → Bool
  | .raised _ _ => true
  | _ => false

/-- The request has had this fate and no other: what was done says so, and the row, and who is a member of
what unless something was given. Calls that raised have written nothing. -/
structure Desk.Stands (request : Request) (start : DB) (s : Desk) (fate : Fate) : Prop where
  log : s.log.filter (!·.isRaise) = fate.log
  raised : ∀ user wrote, .raised user wrote ∈ s.log → wrote = false
  row : fate.Row (s.db.requested request)
  people : fate.gave = false → s.db.memberships = start.memberships ∧ s.db.grants = start.grants

/-! ## What the statements leave -/

section

variable {request : Request} {db d : DB} {user : Pk} {status : RequestStatus}

theorem requested_same (hroles : d.roleRequests = db.roleRequests)
    (hmemberships : d.membershipRequests = db.membershipRequests) :
    d.requested request = db.requested request := by
  cases request with
  | role pk => rw [DB.requested, hroles, DB.requested]
  | membership pk => rw [DB.requested, hmemberships, DB.requested]

theorem addRoles_requested {membership : Pk} {roles : List Pk} (h : db.addRoles membership roles = .ok d) :
    d.requested request = db.requested request := by
  obtain ⟨t, rfl, -⟩ := DB.addRoles_people h
  exact requested_same rfl rfl

theorem getOrCreateMembership_requested {r : Request} {requester organization membership : Pk}
    (h : db.getOrCreateMembership requester organization none = .ok (d, membership)) :
    d.requested r = db.requested r ∧ d.roles = db.roles ∧ (d.memberships.row membership).isSome = true
      ∧ ((db.membershipOf requester organization).isNone = false → d = db) := by
  unfold DB.getOrCreateMembership at h
  split at h
  · rename_i pk m hm
    obtain ⟨rfl, rfl⟩ := Prod.mk.inj (Except.ok.inj h)
    refine ⟨rfl, rfl, ?_, fun _ => rfl⟩
    rw [(Table.first_eq_some hm).1]
    rfl
  · rename_i hm
    simp only [DB.createMembership, bind_ok, Table.get_ok, require_ok, exists_unit, pure_ok, Prod.mk.injEq] at h
    obtain ⟨_, -, _, -, -, rfl, rfl⟩ := h
    refine ⟨requested_same rfl rfl, rfl, ?_, fun hnone => ?_⟩
    · rw [Table.insert_row_next]
      rfl
    · rw [hm] at hnone
      cases hnone

/-- Taking a guest's grants leaves a membership request, whose status it does not touch. -/
theorem deleteGrants_pending {pk : Pk} {grants : List Pk} {upgrading : Option Pk}
    (h : IsPending (.membership pk) db) :
    IsPending (.membership pk) (db.deleteGrants grants upgrading) := by
  refine foldl_invariant (P := fun e : DB => IsPending (.membership pk) e) (fun g _ e he => ?_) h
  obtain ⟨object, rest, hrow⟩ := he
  obtain ⟨q, hq, heq⟩ := Option.map_eq_some_iff.mp hrow
  obtain ⟨q', hq'⟩ : (e.delete .grant [⟨.grant, g⟩] upgrading).has ⟨.membershipRequest, pk⟩ :=
    DB.delete_spares DB.withMemberships_within (by simp [DB.withMemberships]) (by simp [DB.withMemberships])
      (by simp [DB.withMemberships]) (by simp [DB.withMemberships]) ⟨q, hq⟩
  obtain ⟨q₀, hq₀, resolver, created, rfl⟩ :=
    (DB.delete_shrinks e .grant [⟨.grant, g⟩] upgrading).membershipRequests.2 pk q' hq'
  obtain rfl := Option.some.inj (hq.symm.trans hq₀)
  have hpending : q.status = .pending := congrArg (fun x => x.2.1) heq
  have hrow' : (e.delete .grant [⟨.grant, g⟩] upgrading).membershipRequests.row pk
      = some { q with resolvedBy := resolver, createdMembership := created } := hq'
  refine ⟨.membership q.user q.organization, (resolver, q.respondedAt), ?_⟩
  rw [DB.requested, hrow', Option.map_some, hpending]

theorem letIn_pending {pk membership : Pk} (h : IsPending (.membership pk) db) :
    IsPending (.membership pk) (db.letIn membership) := by
  unfold DB.letIn
  split
  · exact deleteGrants_pending h
  · exact h

theorem letIn_full (db : DB) (membership : Pk) : (db.letIn membership).memberships = db.memberships
    ∧ (db.letIn membership).roles = db.roles ∧ (db.letIn membership).isScoped membership = false
    ∧ (db.isScoped membership = false → db.letIn membership = db) := by
  unfold DB.letIn
  cases hscoped : db.isScoped membership with
  | false => exact ⟨rfl, rfl, hscoped, fun _ => rfl⟩
  | true =>
    have hungranted := DB.upgradeToFull_ungranted db membership
    refine ⟨hungranted.memberships, hungranted.roles, ?_, nofun⟩
    rw [if_pos rfl, Bool.eq_false_iff]
    exact fun h => ((DB.upgradeToFull_isScoped db membership membership).mp h).2 rfl

theorem addRoles_succeeds {membership : Pk} {roles : List Pk} (hm : (db.memberships.row membership).isSome = true)
    (hfull : db.isScoped membership = false) (hroles : ∀ r ∈ roles, (db.roles.row r).isSome = true) :
    ∃ d, db.addRoles membership roles = .ok d := by
  obtain ⟨m, hm⟩ := Option.isSome_iff_exists.mp hm
  unfold DB.addRoles
  split
  · exact ⟨db, rfl⟩
  · simp only [bind_ok, Table.get_ok, require_ok, exists_unit, pure_ok]
    refine ⟨_, m, hm, by rw [hfull]; rfl, ?_, rfl⟩
    exact List.all_eq_true.mpr fun r hr => hroles r (List.mem_of_mem_filter hr)

theorem rolesNamed_there {identifiers : List String} {organization r : Pk}
    (h : r ∈ db.rolesNamed identifiers organization) :
    (db.roles.row r).isSome = true := by
  obtain ⟨a, ha, -⟩ := Table.mem_pks.mp h
  rw [ha]
  rfl

theorem respond_requested {created : Option Pk} {object : Object} {rest : RequestStatus × Option Pk × Option Time}
    (h : db.requested request = some (object, rest)) :
    (db.respond request user status created).requested request = some
    (object, status, some user, some db.now) := by
  cases request with
  | role pk =>
    obtain ⟨q, hq, heq⟩ := Option.map_eq_some_iff.mp h
    simp only [DB.respond, DB.requested, Table.modify_row_self, hq, Option.map_some]
    exact congrArg (fun o => some (o, _)) (congrArg Prod.fst heq)
  | membership pk =>
    obtain ⟨q, hq, heq⟩ := Option.map_eq_some_iff.mp h
    simp only [DB.respond, DB.requested, Table.modify_row_self, hq, Option.map_some]
    exact congrArg (fun o => some (o, _)) (congrArg Prod.fst heq)

theorem withdraw_requested : (db.withdraw request).requested request = none := by
  cases request with
  | role pk => simp [DB.withdraw, DB.requested, Table.keep_ne_row]
  | membership pk => simp [DB.withdraw, DB.requested, Table.keep_ne_row]

theorem enter_ok {token : Option Pk} {wish : Wish} {object : Object} {named : List Pk}
    (h : db.enter request user token wish = .ok (object, named)) :
    (∃ rest, db.requested request = some (object, rest)) ∧ ∀ r ∈ named, (db.roles.row r).isSome = true := by
  simp only [DB.enter, bind_ok, found_ok, Prod.exists] at h
  obtain ⟨object', status', by_, at_, hrow, h⟩ := h
  have hsame : object' = object → ∃ rest, db.requested request = some (object, rest) := fun heq => ⟨_, heq ▸ hrow⟩
  split at h
  · obtain ⟨-, -, heq⟩ := bind_ok.mp h
    obtain ⟨rfl, rfl⟩ := Prod.mk.inj (pure_ok.mp heq)
    exact ⟨hsame rfl, by simp⟩
  · obtain ⟨-, -, heq⟩ := bind_ok.mp h
    obtain ⟨rfl, rfl⟩ := Prod.mk.inj (pure_ok.mp heq)
    exact ⟨hsame rfl, fun r => rolesNamed_there⟩
  · obtain ⟨-, -, heq⟩ := bind_ok.mp h
    obtain ⟨rfl, rfl⟩ := Prod.mk.inj (pure_ok.mp heq)
    exact ⟨hsame rfl, by simp⟩
  · cases h

end

/-! ## What a step leaves of it -/

/-- What a call will find, as long as nobody else writes. -/
def Answering.Ready (request : Request) (db : DB) : Answering → Prop
  | .entered _ _ _ | .given _ _ => True
  | .loaded _ _ object named =>
    (∃ rest, db.requested request = some (object, rest)) ∧ ∀ r ∈ named, (db.roles.row r).isSome = true
  | .enrolled _ _ membership named _ =>
    (∃ pk, request = .membership pk) ∧ (db.memberships.row membership).isSome = true
      ∧ ∀ r ∈ named, (db.roles.row r).isSome = true
  | .upgraded _ _ membership named _ =>
    (∃ pk, request = .membership pk) ∧ (db.memberships.row membership).isSome = true
    ∧ db.isScoped membership = false ∧ ∀ r ∈ named, (db.roles.row r).isSome = true

/-- The calls under way fit the fate of the request: one that has written is the one that is giving. -/
structure Fits (request : Request) (s : Office) (fate : Fate) : Prop where
  writer : ∀ c ∈ s.calls, c.wrote = true → fate = .giving c.user
  giver : ∀ user, fate = .giving user → ∃ c ∈ s.calls, c.wrote = true
  ready : ∀ c ∈ s.calls, fate = .pending ∨ c.wrote = true → c.Ready request s.store.db

structure Holds (request : Request) (start : DB) (s : Office) (fate : Fate) : Prop where
  stands : s.store.Stands request start fate
  fits : Fits request s fate

/-- What may become of a request that has this fate. -/
inductive Fate.Becomes : Fate → Fate → Prop
  | same (fate : Fate) : Becomes fate fate
  | giving (user : Pk) : Becomes .pending (.giving user)
  | approved (user : Pk) (at_ : Time) : Becomes (.giving user) (.approved user at_)
  | declined (user : Pk) (at_ : Time) : Becomes .pending (.declined user at_)
  | withdrawn (user : Pk) : Becomes .pending (.withdrawn user)

section

variable {request : Request} {start db : DB} {s t : Office} {fate fate' : Fate} {n : Nat} {c d : Answering}
  {next : Option Answering}
  {user : Pk}

theorem Desk.Stands.note {desk : Desk} {e : Entry} (h : desk.Stands request start fate) (he : e.isRaise = false)
    (hlog : fate'.log = fate.log ++ [e]) (hrow : fate'.Row (db.requested request))
    (hpeople : fate'.gave = false → db.memberships = start.memberships ∧ db.grants = start.grants) :
    (Desk.note { desk with db := db } e).Stands request start fate' where
  log := by
    rw [hlog, ← h.log]
    simp [Desk.note, he]
  raised user wrote hmem := by
    rcases List.mem_append.mp hmem with hmem | hmem
    · exact h.raised user wrote hmem
    · rw [← List.mem_singleton.mp hmem] at he
      cases he
  row := hrow
  people := hpeople

theorem Desk.Stands.raise {desk : Desk} (h : desk.Stands request start fate) :
    (desk.raise user false).1.Stands request start fate where
  log := by
    rw [← h.log]
    simp [Desk.raise, Desk.note, Entry.isRaise]
  raised user' wrote hmem := by
    rcases List.mem_append.mp hmem with hmem | hmem
    · exact h.raised user' wrote hmem
    · exact (Entry.raised.inj (List.mem_singleton.mp hmem)).2
  row := h.row
  people := h.people

theorem Fits.goOn (h : Fits request s fate) (hbefore : s.calls.Perm (c :: s.others n))
    (hafter : t.calls.Perm (next.toList ++ s.others n)) (hdb : t.store.db = s.store.db)
    (hnext : ∀ d ∈ next, d.wrote = c.wrote ∧ d.user = c.user
      ∧ (fate = .pending ∨ d.wrote = true → d.Ready request s.store.db))
    (hgoes : c.wrote = true → ∃ d, next = some d) : Fits request t fate where
  writer d hd hwrote := by
    rcases List.mem_append.mp (hafter.mem_iff.mp hd) with hd | hd
    · obtain ⟨hsame, huser, -⟩ := hnext d (Option.mem_toList.mp hd)
      rw [huser]
      exact h.writer c (hbefore.mem_iff.mpr List.mem_cons_self) (hsame ▸ hwrote)
    · exact h.writer d (Pool.mem_of_others hd) hwrote
  giver user hfate := by
    obtain ⟨d, hd, hwrote⟩ := h.giver user hfate
    rcases List.mem_cons.mp (hbefore.mem_iff.mp hd) with rfl | hd
    · obtain ⟨d', hd'⟩ := hgoes hwrote
      refine ⟨d', hafter.mem_iff.mpr (List.mem_append_left _ (Option.mem_toList.mpr hd')), ?_⟩
      rw [(hnext d' hd').1, hwrote]
    · exact ⟨d, hafter.mem_iff.mpr (List.mem_append_right _ hd), hwrote⟩
  ready d hd hready := by
    rw [hdb]
    rcases List.mem_append.mp (hafter.mem_iff.mp hd) with hd | hd
    · exact (hnext d (Option.mem_toList.mp hd)).2.2 hready
    · exact h.ready d (Pool.mem_of_others hd) hready

theorem Fits.giving (hafter : t.calls.Perm (d :: s.others n)) (hwrote : d.wrote = true)
    (hready : d.Ready request t.store.db)
    (hothers : ∀ c ∈ s.others n, c.wrote = false) : Fits request t (.giving d.user) where
  writer c hc hc_wrote := by
    rcases List.mem_cons.mp (hafter.mem_iff.mp hc) with rfl | hc
    · rfl
    · rw [hothers c hc] at hc_wrote
      cases hc_wrote
  giver _ _ := ⟨d, hafter.mem_iff.mpr List.mem_cons_self, hwrote⟩
  ready c hc hcases := by
    have hc_wrote := hcases.resolve_left nofun
    rcases List.mem_cons.mp (hafter.mem_iff.mp hc) with rfl | hc
    · exact hready
    · rw [hothers c hc] at hc_wrote
      cases hc_wrote

theorem Fits.closed (hafter : t.calls.Perm (s.others n)) (hothers : ∀ c ∈ s.others n, c.wrote = false)
    (hpending : fate ≠ .pending) (hgiving : ∀ user, fate ≠ .giving user) : Fits request t fate where
  writer c hc hwrote := by
    rw [hothers c (hafter.mem_iff.mp hc)] at hwrote
    cases hwrote
  giver user hfate := absurd hfate (hgiving user)
  ready c hc hcases := by
    have hwrote := hcases.resolve_left hpending
    rw [hothers c (hafter.mem_iff.mp hc)] at hwrote
    cases hwrote

/-- A call that goes on while the request is pending, and no other has written, is the one that is giving,
or none is. -/
theorem Holds.fate_of_pending (h : Holds request start s fate) (hbefore : s.calls.Perm (c :: s.others n))
    (hrow : IsPending request s.store.db) (hothers : ∀ d ∈ s.others n, d.wrote = false) :
    fate = .pending ∧ c.wrote = false ∨ fate = .giving c.user ∧ c.wrote = true := by
  have hc := hbefore.mem_iff.mpr (List.mem_cons_self (a := c) (l := s.others n))
  obtain ⟨object, rest, hrow⟩ := hrow
  have hstands := h.stands.row
  rw [hrow] at hstands
  cases fate with
  | pending =>
    refine .inl ⟨rfl, Bool.eq_false_iff.mpr fun hwrote => ?_⟩
    cases h.fits.writer c hc hwrote
  | giving user =>
    obtain ⟨d, hd, hwrote⟩ := h.fits.giver user rfl
    rcases List.mem_cons.mp (hbefore.mem_iff.mp hd) with rfl | hd
    · exact .inr ⟨h.fits.writer d hc hwrote, hwrote⟩
    · rw [hothers d hd] at hwrote
      cases hwrote
  | approved user at_ =>
    obtain ⟨object', heq⟩ := hstands
    cases heq
  | declined user at_ =>
    obtain ⟨object', heq⟩ := hstands
    cases heq
  | withdrawn user => cases hstands

theorem Holds.raise (h : Holds request start s fate) (hbefore : s.calls.Perm (c :: s.others n))
    (hafter : t.calls.Perm (s.others n))
    (hwrote : c.wrote = false) (hstore : t.store = (s.store.raise user false).1) : Holds request start t fate where
  stands := by
    rw [hstore]
    exact h.stands.raise
  fits := by
    have hended : t.calls.Perm ((none : Option Answering).toList ++ s.others n) := hafter
    refine h.fits.goOn hbefore hended (by rw [hstore]; rfl) nofun fun hwrites => ?_
    rw [hwrote] at hwrites
    cases hwrites

theorem Holds.give (h : Holds request start s fate) (hafter : t.calls.Perm (d :: s.others n))
    (hstore : t.store = s.store.give db c.user c.wrote true)
    (hfate : fate = .pending ∧ c.wrote = false ∨ fate = .giving c.user ∧ c.wrote = true)
    (hrow : IsPending request db)
    (hd : d.wrote = true ∧ d.user = c.user) (hready : d.Ready request db)
    (hothers : ∀ c ∈ s.others n, c.wrote = false) :
    fate.Becomes (.giving c.user) ∧ Holds request start t (.giving c.user) := by
  have hdb : t.store.db = db := by
    rw [hstore]
    unfold Desk.give
    split <;> rfl
  have hfits : Fits request t (.giving c.user) := hd.2 ▸ Fits.giving hafter hd.1 (hdb.symm ▸ hready) hothers
  rcases hfate with ⟨rfl, hwrote⟩ | ⟨rfl, hwrote⟩
  · refine ⟨.giving _, ?_, hfits⟩
    rw [hstore, Desk.give, hwrote]
    exact h.stands.note rfl rfl hrow nofun
  · refine ⟨.same _, ?_, hfits⟩
    rw [hstore, Desk.give, hwrote]
    exact ⟨h.stands.log, h.stands.raised, hrow, nofun⟩

theorem Holds.save {status : RequestStatus} {created : Option Pk} {wrote : Bool} (h : Holds request start s fate)
    (hafter : t.calls.Perm (next.toList ++ s.others n)) (hpending : IsPending request s.store.db)
    (hstore : s.store.save request user status created wrote = (t.store, next)) (hbecomes : fate.Becomes fate')
    (hlog : fate'.log = fate.log ++ [.answered user status s.store.db.now])
    (hrow : ∀ object, fate'.Row (some (object, status, some user, some s.store.db.now)))
    (hgave : fate'.gave = fate.gave)
    (hpend : fate' ≠ .pending) (hgive : ∀ user, fate' ≠ .giving user)
    (hothers : ∀ c ∈ s.others n, c.wrote = false) :
    fate.Becomes fate' ∧ Holds request start t fate' := by
  obtain ⟨object, rest, hrequested⟩ := hpending
  unfold Desk.save at hstore
  rw [hrequested, Option.isSome_some, if_pos rfl] at hstore
  obtain ⟨hsaved, rfl⟩ := Prod.mk.inj hstore
  refine ⟨hbecomes, ?_, Fits.closed hafter hothers hpend hgive⟩
  rw [← hsaved]
  refine h.stands.note rfl hlog ?_ fun hfalse => ?_
  · rw [respond_requested hrequested]
    exact hrow object
  · have hsame : (s.store.db.respond request user status created).memberships = s.store.db.memberships
        ∧ (s.store.db.respond request user status created).grants = s.store.db.grants := by
      cases request <;> exact ⟨rfl, rfl⟩
    rw [hsame.1, hsame.2]
    exact h.stands.people (hgave ▸ hfalse)

theorem Holds.goOn {done : Bool} (h : Holds request start s fate) (hn : s.calls[n]? = some c)
    (hadvance : c.advance request s.store done = some (t.store, next)) (hbefore : s.calls.Perm (c :: s.others n))
    (hafter : t.calls.Perm (next.toList ++ s.others n)) (hapart : Event.apart request s (.goOn n done)) :
    ∃ fate', fate.Becomes fate' ∧ Holds request start t fate' := by
  obtain ⟨hfails, hloaded⟩ := hapart c hn
  have hmem := List.mem_of_getElem? hn
  have hadvance := Option.some.inj hadvance
  cases done with
  | false =>
    have hwrote := hfails rfl
    rw [hwrote] at hadvance
    obtain ⟨hstore, rfl⟩ := Prod.mk.inj hadvance
    exact ⟨fate, .same _, h.raise hbefore hafter hwrote hstore.symm⟩
  | true =>
    rw [if_pos rfl] at hadvance
    cases c with
    | entered user token wish =>
      cases hentered : s.store.db.enter request user token wish with
      | error e =>
        rw [Answering.statement, hentered] at hadvance
        obtain ⟨hstore, rfl⟩ := Prod.mk.inj hadvance
        exact ⟨fate, .same _, h.raise hbefore hafter rfl hstore.symm⟩
      | ok r =>
        rw [Answering.statement, hentered] at hadvance
        obtain ⟨hstore, rfl⟩ := Prod.mk.inj hadvance
        refine ⟨fate, .same _, hstore ▸ h.stands, ?_⟩
        refine h.fits.goOn hbefore hafter (by rw [← hstore]) (fun d hd => ?_) nofun
        obtain rfl := Option.some.inj hd
        exact ⟨rfl, rfl, fun _ => enter_ok hentered⟩
    | loaded user wish object named =>
      obtain ⟨hrow, hothers⟩ := hloaded rfl
      obtain ⟨rfl, -⟩ := (h.fate_of_pending hbefore hrow hothers).resolve_right fun hg => by cases hg.2
      obtain ⟨⟨rest, hobject⟩, hnamed⟩ := h.fits.ready _ hmem (.inl rfl)
      cases wish with
      | decline =>
        exact ⟨.declined user s.store.db.now, h.save hafter hrow hadvance (.declined _ _) rfl
          (fun object => ⟨object, rfl⟩) rfl nofun nofun hothers⟩
      | cancel =>
        rw [Answering.statement] at hadvance
        obtain ⟨hstore, rfl⟩ := Prod.mk.inj hadvance
        refine ⟨.withdrawn user, .withdrawn _, ?_, Fits.closed hafter hothers nofun nofun⟩
        rw [← hstore]
        refine h.stands.note rfl rfl withdraw_requested fun _ => ?_
        have hsame : (s.store.db.withdraw request).memberships = s.store.db.memberships
            ∧ (s.store.db.withdraw request).grants = s.store.db.grants := by
          cases request <;> exact ⟨rfl, rfl⟩
        rw [hsame.1, hsame.2]
        exact h.stands.people rfl
      | approve identifiers =>
        cases object with
        | role membership role =>
          cases hadd : s.store.db.addRoles membership [role] with
          | error e =>
            rw [Answering.statement, hadd] at hadvance
            obtain ⟨hstore, rfl⟩ := Prod.mk.inj hadvance
            exact ⟨.pending, .same _, h.raise hbefore hafter rfl hstore.symm⟩
          | ok d =>
            rw [Answering.statement, hadd] at hadvance
            obtain ⟨hstore, rfl⟩ := Prod.mk.inj hadvance
            refine ⟨_, h.give (c := .loaded user (.approve identifiers) (.role membership role) named)
              hafter hstore.symm
              (.inl ⟨rfl, rfl⟩) ?_ ⟨rfl, rfl⟩ trivial hothers⟩
            unfold IsPending
            rw [addRoles_requested hadd]
            exact hrow
        | membership requester organization =>
          cases hcreate : s.store.db.getOrCreateMembership requester organization none with
          | error e =>
            rw [Answering.statement, hcreate] at hadvance
            obtain ⟨hstore, rfl⟩ := Prod.mk.inj hadvance
            exact ⟨.pending, .same _, h.raise hbefore hafter rfl hstore.symm⟩
          | ok r =>
            obtain ⟨d, membership⟩ := r
            rw [Answering.statement, hcreate] at hadvance
            obtain ⟨hstore, rfl⟩ := Prod.mk.inj hadvance
            obtain ⟨hrequested, hroles, hthere, hsame⟩ := getOrCreateMembership_requested (r := request) hcreate
            have hkind : ∃ pk, request = .membership pk := by
              cases request with
              | membership pk => exact ⟨pk, rfl⟩
              | role pk =>
                obtain ⟨q, -, heq⟩ := Option.map_eq_some_iff.mp hobject
                cases heq
            have hready : (Answering.enrolled user organization membership named
                (s.store.db.membershipOf requester organization).isNone).Ready request d :=
                  ⟨hkind, hthere, hroles ▸ hnamed⟩
            cases hcreated : (s.store.db.membershipOf requester organization).isNone with
            | true =>
              rw [hcreated] at hstore hafter hready
              refine ⟨_, h.give (c := .loaded user (.approve identifiers)
                (.membership requester organization) named) hafter
                hstore.symm (.inl ⟨rfl, rfl⟩) ?_ ⟨rfl, rfl⟩ hready hothers⟩
              unfold IsPending
              rw [hrequested]
              exact hrow
            | false =>
              rw [hcreated] at hstore hafter hready
              obtain rfl := hsame hcreated
              have hkeeps : t.store = s.store := hstore.symm
              refine ⟨.pending, .same _, hkeeps ▸ h.stands, h.fits.goOn hbefore hafter (by rw [hkeeps])
                (fun d hd => ?_) nofun⟩
              obtain rfl := Option.some.inj hd
              exact ⟨rfl, rfl, fun _ => hready⟩
    | enrolled user organization membership named wrote =>
      obtain ⟨hrow, hothers⟩ := hloaded rfl
      have hfate := h.fate_of_pending hbefore hrow hothers
      obtain ⟨⟨pk, rfl⟩, hthere, hnamed⟩ := h.fits.ready _ hmem (hfate.imp And.left And.right)
      rw [Answering.statement] at hadvance
      obtain ⟨hstore, rfl⟩ := Prod.mk.inj hadvance
      obtain ⟨hmemberships, hroles, hfull, hsame⟩ := letIn_full s.store.db membership
      have hready : ∀ wrote, (Answering.upgraded user organization membership named wrote).Ready (.membership pk)
          (s.store.db.letIn membership) := fun _ => ⟨⟨pk, rfl⟩, hmemberships ▸ hthere, hfull, hroles ▸ hnamed⟩
      cases hscoped : s.store.db.isScoped membership with
      | true =>
        rw [hscoped] at hstore hafter
        rw [Bool.or_true] at hafter
        exact ⟨_, h.give (c := .enrolled user organization membership named wrote) hafter hstore.symm hfate
          (letIn_pending hrow)
          ⟨rfl, rfl⟩ (hready true) hothers⟩
      | false =>
        rw [hscoped, hsame hscoped] at hstore
        rw [hscoped, Bool.or_false] at hafter
        have hkeeps : t.store = s.store := hstore.symm
        refine ⟨fate, .same _, hkeeps ▸ h.stands, h.fits.goOn hbefore hafter (by rw [hkeeps]) (fun d hd => ?_)
          fun _ => ⟨_, rfl⟩⟩
        obtain rfl := Option.some.inj hd
        exact ⟨rfl, rfl, fun _ => hsame hscoped ▸ hready wrote⟩
    | upgraded user organization membership named wrote =>
      obtain ⟨hrow, hothers⟩ := hloaded rfl
      have hfate := h.fate_of_pending hbefore hrow hothers
      obtain ⟨⟨pk, rfl⟩, hthere, hfull, hnamed⟩ := h.fits.ready _ hmem (hfate.imp And.left And.right)
      obtain ⟨d, hadd⟩ : ∃ d, s.store.db.addRoles membership
          (if named.isEmpty then s.store.db.rolesNamed ["guest"] organization else named) = .ok d := by
        refine addRoles_succeeds hthere hfull fun r hr => ?_
        split at hr
        · exact rolesNamed_there hr
        · exact hnamed r hr
      rw [Answering.statement, hadd] at hadvance
      obtain ⟨hstore, rfl⟩ := Prod.mk.inj hadvance
      refine ⟨_, h.give (c := .upgraded user organization membership named wrote) hafter hstore.symm hfate ?_
        ⟨rfl, rfl⟩ trivial hothers⟩
      unfold IsPending
      rw [addRoles_requested hadd]
      exact hrow
    | given user membership =>
      obtain ⟨hrow, hothers⟩ := hloaded rfl
      obtain ⟨rfl, -⟩ := (h.fate_of_pending hbefore hrow hothers).resolve_left fun hp => by cases hp.2
      exact ⟨.approved user s.store.db.now, h.save hafter hrow hadvance (.approved _ _) rfl
        (fun object => ⟨object, rfl⟩) rfl nofun nofun hothers⟩

theorem ApartStep.holds {e : Event} (h : ApartStep request s e t) (hs : Holds request start s fate) :
    ∃ fate', fate.Becomes fate' ∧ Holds request start t fate' := by
  obtain ⟨hapart, hrun⟩ := h
  cases e with
  | tick seconds =>
    obtain rfl := Option.some.inj hrun
    refine ⟨fate, .same _, ⟨hs.stands.log, hs.stands.raised, ?_, hs.stands.people⟩, hs.fits.writer, hs.fits.giver,
      fun c hc hcases => ?_⟩
    · have hrow := hs.stands.row
      cases request <;> exact hrow
    · have hready := hs.fits.ready c hc hcases
      cases request <;> cases c <;> exact hready
  | call user token wish =>
    obtain rfl := Option.some.inj hrun
    refine ⟨fate, .same _, hs.stands, fun c hc hwrote => ?_, fun user hfate => ?_, fun c hc hcases => ?_⟩
    · rcases List.mem_append.mp hc with hc | hc
      · exact hs.fits.writer c hc hwrote
      · rw [List.mem_singleton.mp hc] at hwrote
        cases hwrote
    · obtain ⟨c, hc, hwrote⟩ := hs.fits.giver user hfate
      exact ⟨c, List.mem_append_left _ hc, hwrote⟩
    · rcases List.mem_append.mp hc with hc | hc
      · exact hs.fits.ready c hc hcases
      · rw [List.mem_singleton.mp hc]
        trivial
  | goOn n done =>
    obtain ⟨c, next, hn, hadvance, hbefore, hafter⟩ := Pool.goOn_eq_some hrun
    exact hs.goOn hn hadvance hbefore hafter hapart

/-- The request is answered, or withdrawn. -/
def Fate.Closed (fate : Fate) : Prop := fate ≠ .pending ∧ ∀ user, fate ≠ .giving user

theorem Fate.Becomes.closed (h : fate.Becomes fate') (hclosed : fate.Closed) : fate' = fate := by
  cases h with
  | same => rfl
  | giving => exact absurd rfl hclosed.1
  | approved user at_ => exact absurd rfl (hclosed.2 user)
  | declined => exact absurd rfl hclosed.1
  | withdrawn => exact absurd rfl hclosed.1

theorem Holds.run {es : List Event} (h : Run (ApartStep request) s es t) (hs : Holds request start s fate) :
    ∃ fate', (fate.Closed → fate' = fate) ∧ Holds request start t fate' := by
  induction h generalizing fate with
  | nil => exact ⟨fate, fun _ => rfl, hs⟩
  | cons hstep _ ih =>
    obtain ⟨fate₁, hbecomes, hnext⟩ := hstep.holds hs
    obtain ⟨fate₂, hsame, hlast⟩ := ih hnext
    refine ⟨fate₂, fun hclosed => ?_, hlast⟩
    have hfirst := hbecomes.closed hclosed
    exact (hsame (hfirst ▸ hclosed)).trans hfirst

theorem holds_pending (h : IsPending request db) : Holds request db ⟨⟨db, []⟩, []⟩ .pending where
  stands := ⟨rfl, nofun, h, fun _ => ⟨rfl, rfl⟩⟩
  fits := ⟨nofun, nofun, nofun⟩

/-- A row that has an answer is of a request that is closed, and says what the answer was. -/
theorem Fate.Row.answered {object : Object} {answer : RequestStatus × Option Pk × Option Time}
    (h : fate.Row (some (object, answer))) (hanswer : answer.1 ≠ .pending) : fate.Closed
      ∧ ∀ row, fate.Row row → ∃ object', row = some (object', answer) := by
  cases fate with
  | pending | giving =>
    obtain ⟨object', rest, heq⟩ := h
    obtain ⟨-, rfl⟩ := Prod.mk.inj (Option.some.inj heq)
    exact absurd rfl hanswer
  | approved user at_ | declined user at_ =>
    obtain ⟨object', heq⟩ := h
    obtain ⟨-, rfl⟩ := Prod.mk.inj (Option.some.inj heq)
    exact ⟨⟨nofun, nofun⟩, fun row hrow => hrow⟩
  | withdrawn user => cases h

theorem Fate.Row.gone (h : fate.Row none) : fate.Closed ∧ ∀ row, fate.Row row → row = none := by
  cases fate with
  | pending | giving =>
    obtain ⟨object', rest, heq⟩ := h
    cases heq
  | approved user at_ | declined user at_ =>
    obtain ⟨object', heq⟩ := h
    cases heq
  | withdrawn user => exact ⟨⟨nofun, nofun⟩, fun row hrow => hrow⟩

/-! ## A call by itself -/

theorem alone_approveRoleRequest {pk : Pk} {token : Option Pk} {identifiers : List String} {r : Object × List Pk}
    {d : DB} {log : List Entry} (henter : db.enter (.role pk) user token (.approve identifiers) = .ok r)
    (h : db.approveRoleRequest pk user = .ok d) :
    Alone (Answering.advance (.role pk)) true ⟨db, log⟩ (.entered user token (.approve identifiers))
      ⟨d, log ++ [.gave user] ++ [.answered user .approved d.now]⟩ := by
  simp only [DB.approveRoleRequest, bind_ok, Table.get_ok, pure_ok] at h
  obtain ⟨q, hq, e, hadd, rfl⟩ := h
  obtain ⟨object, named⟩ := r
  obtain ⟨⟨rest, hobject⟩, -⟩ := enter_ok henter
  obtain rfl : Object.role q.membership q.role = object := by
    rw [DB.requested, hq] at hobject
    exact congrArg Prod.fst (Option.some.inj hobject)
  have hthere : (e.requested (.role pk)).isSome = true := by
    rw [addRoles_requested hadd, hobject]
    rfl
  have hentered : Answering.advance (.role pk) ⟨db, log⟩ (.entered user token (.approve identifiers)) true
      = some (⟨db, log⟩, some (.loaded user (.approve identifiers) (.role q.membership q.role) named)) := by
    rw [Answering.advance, if_pos rfl, Answering.statement, henter]
  have hgiven : Answering.advance (.role pk) ⟨db, log⟩
    (.loaded user (.approve identifiers) (.role q.membership q.role) named) true
      = some (⟨e, log ++ [.gave user]⟩, some (.given user none)) := by
    rw [Answering.advance, if_pos rfl, Answering.statement, hadd]
    rfl
  refine .more hentered (.more hgiven (.last ?_))
  rw [Answering.advance, if_pos rfl, Answering.statement, Desk.save, if_pos hthere]
  rfl

end

end Requests

open Runs Requests

/-- When every call that has read the request goes on only while it is pending and no other has given
without having saved its answer, and the database fails no call that has given, the request has one fate: it
is pending, or somebody is giving, or was approved, declined or withdrawn, once. What was given was given by
that approval, calls that raised wrote nothing, and an answer stays as it is. -/
theorem requests_are_answered_once {request : Request} {db : DB} (hpending : IsPending request db)
    {es : List Requests.Event}
    {s : Office} (hrun : Run (Requests.ApartStep request) ⟨⟨db, []⟩, []⟩ es s) :
    (∃ fate, s.store.Stands request db fate)
      ∧ ∀ fs t, Run (Requests.ApartStep request) s fs t →
        (∀ object answer, s.store.db.requested request = some (object, answer) → answer.1 ≠ .pending →
          ∃ object', t.store.db.requested request = some (object', answer))
        ∧ (s.store.db.requested request = none → t.store.db.requested request = none) := by
  obtain ⟨fate, -, hs⟩ := (holds_pending hpending).run hrun
  refine ⟨⟨fate, hs.stands⟩, fun fs t hlater => ?_⟩
  obtain ⟨fate', hsame, ht⟩ := hs.run hlater
  have hrow := hs.stands.row
  refine ⟨fun object answer hrequested hanswer => ?_, fun hnone => ?_⟩
  · rw [hrequested] at hrow
    obtain ⟨hclosed, hrows⟩ := hrow.answered hanswer
    exact hrows _ (hsame hclosed ▸ ht.stands.row)
  · rw [hnone] at hrow
    obtain ⟨hclosed, hrows⟩ := hrow.gone
    exact hrows _ (hsame hclosed ▸ ht.stands.row)

namespace Requests

instance (request : Request) (db : DB) : Decidable (IsPending request db) :=
  decidable_of_iff ((db.requested request).any (·.2.1 == .pending) = true) <| by
    cases h : db.requested request with
    | none => simp [IsPending, h]
    | some row =>
      obtain ⟨object, status, rest⟩ := row
      simp [IsPending, h]

instance (request : Request) (s : Office) : (e : Event) → Decidable (e.apart request s)
  | .tick _ => isTrue trivial
  | .call _ _ _ => isTrue trivial
  | .goOn n done => inferInstanceAs (Decidable (∀ c ∈ s.calls[n]?, (done = false → c.wrote = false)
      ∧ (c.hasLoaded = true → IsPending request s.store.db ∧ ∀ d ∈ s.others n, d.wrote = false)))

def Event.runApart (request : Request) (s : Office) (e : Event) : Option Office :=
  if e.apart request s then e.run request s else none

theorem apartStep_of_runApart {request : Request} {s t : Office} {e : Event} (h : e.runApart request s = some t) :
    ApartStep request s e t := by
  unfold Event.runApart at h
  split at h
  · exact ⟨by assumption, h⟩
  · cases h

/-- Bob, a member, asks for a role, and Cat for a membership, in Ann's organization. -/
def lab : DB := run plainEnv .empty [.createUser "ann" [], .createUser "bob" [], .createUser "cat" [],
  .createOrganization "lab" 0 false, .createMembership 1 0, .createRole "keeper" 0, .requestRole 1 2,
    .requestMembership 2 0]

def Office.logs (log : List Entry) (s : Office) : Bool := s.calls.isEmpty && s.store.log == log

end Requests

/-- Bob's request is approved, while another admin's call is refused; what was answered stays. -/
theorem requests_are_answered_once_keeper : ∃ es s, Run (Requests.ApartStep (.role 0)) ⟨⟨lab, []⟩, []⟩ es s
    ∧ (s.store.db.requested (.role 0)).any (·.2.1 == .approved) = true
    ∧ ∃ fate, s.store.Stands (.role 0) lab fate := by
  have hend : ([.call 0 none (.approve []), .call 1 none .decline, .goOn 0 true, .goOn 1 true, .goOn 0 true,
    .goOn 0 true].foldlM
      (Event.runApart (.role 0)) ⟨⟨lab, []⟩, []⟩).any
        (fun s => (s.store.db.requested (.role 0)).any (·.2.1 == .approved)) = true := by
    decide +kernel
  obtain ⟨s, hs, happroved⟩ := (Option.any_eq_true _ _).mp hend
  have hrun := Run.of_foldlM apartStep_of_runApart hs
  exact ⟨_, s, hrun, happroved, (requests_are_answered_once (by decide +kernel) hrun).1⟩

/-- A role request that was declined is approved all the same; one that is withdrawn while the role is being
given leaves the role, and an approval that raises; and a membership request that is declined after an
approval has read it is approved. -/
theorem declined_requests_are_given :
    (∃ es s, Run (Requests.Step (.role 0)) ⟨⟨lab, []⟩, []⟩ es s
      ∧ s.logs [.answered 0 .declined 0, .gave 0, .answered 0 .approved 0] = true)
    ∧ (∃ es s, Run (Requests.Step (.role 0)) ⟨⟨lab, []⟩, []⟩ es s
      ∧ s.logs [.gave 0, .withdrew 1, .raised 0 true] = true
      ∧ (s.store.db.memberships.row 1).any (·.roles == [2]) = true)
    ∧ ∃ es s, Run (Requests.Step (.membership 0)) ⟨⟨lab, []⟩, []⟩ es s
      ∧ s.logs [.answered 0 .declined 0, .gave 0, .answered 0 .approved 0] = true := by
  have hdeclined : ([.call 0 none .decline, .goOn 0 true, .goOn 0 true, .call 0 none (.approve []),
    .goOn 0 true, .goOn 0 true,
      .goOn 0 true].foldlM (Event.run (.role 0)) ⟨⟨lab, []⟩, []⟩).any
      (·.logs [.answered 0 .declined 0, .gave 0, .answered 0 .approved 0]) = true := by
    decide +kernel
  have hwithdrawn : ([.call 0 none (.approve []), .goOn 0 true, .goOn 0 true, .call 1 none .cancel,
    .goOn 1 true, .goOn 1 true,
      .goOn 0 true].foldlM (Event.run (.role 0)) ⟨⟨lab, []⟩, []⟩).any
        (fun s => s.logs [.gave 0, .withdrew 1, .raised 0 true]
        && (s.store.db.memberships.row 1).any (·.roles == [2])) = true := by
    decide +kernel
  have hread : ([.call 0 none (.approve []), .goOn 0 true, .call 0 none .decline, .goOn 1 true,
    .goOn 1 true, .goOn 0 true,
      .goOn 0 true, .goOn 0 true, .goOn 0 true].foldlM (Event.run (.membership 0)) ⟨⟨lab, []⟩, []⟩).any
      (·.logs [.answered 0 .declined 0, .gave 0, .answered 0 .approved 0]) = true := by
    decide +kernel
  obtain ⟨s, hs, hlog⟩ := (Option.any_eq_true _ _).mp hdeclined
  obtain ⟨t, ht, hgave⟩ := (Option.any_eq_true _ _).mp hwithdrawn
  obtain ⟨hlog', hroles⟩ := (Bool.and_eq_true _ _).mp hgave
  obtain ⟨u, hu, hlog''⟩ := (Option.any_eq_true _ _).mp hread
  exact ⟨⟨_, s, Run.of_foldlM id hs, hlog⟩, ⟨_, t, Run.of_foldlM id ht, hlog', hroles⟩,
    ⟨_, u, Run.of_foldlM id hu, hlog''⟩⟩

end Lok
