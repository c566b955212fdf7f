import Lok.MeshPolicy
import Lok.Publishing
import Lok.System

/-!
# The control plane

What an organization's mesh is told: who may log devices in, and what reaches what.
Transactions change rows, and the receivers of these rows schedule hooks that run after the
commit. A hook reads the database and then writes a whole document, without a lock, so the
hooks of different transactions interleave.
-/

namespace Lok

open Runs Publishing

/-- The IAM policy: lok owns `subs` and carries the other keys over. -/
structure IamPolicy where
  subs : List String
  other : String → Option String

/-- `sync`, between its calls: the policy is fetched before the members are listed. -/
inductive Resync
  | waiting
  | fetched (current : IamPolicy)
  | listed (current : IamPolicy) (version : Nat) (members : List String)

/-- `apply_acl_policy`, between building the policy and setting it. -/
inductive AclApply
  | waiting
  | built (version : Nat) (policy : AclPolicy)

/-- The database with the tables of the mesh. -/
structure World where
  db : DB
  net : Net

/-- The whole: the database, the two documents with the commit each was read after, and the hooks at work. -/
structure Control where
  world : World
  commits : Nat
  iam : IamPolicy
  iamAt : Nat
  acl : AclPolicy
  aclAt : Nat
  resyncs : List Resync
  applies : List AclApply

/-! ## Transactions -/

/-- A row a transaction saves or deletes, one of the functions that schedule a hook themselves, or what a
transaction changes besides. -/
inductive RowChange
  | saveMembership (pk : Pk) (m : Membership)
  | deleteMembership (pk : Pk)
  | saveGrant (pk : Pk) (g : CollaborationGrant)
  | deleteGrant (pk : Pk)
  | upgraded (membership : Pk)
  | saveClient (pk : Pk) (c : Client)
  | bound (client : Pk)
  | deleteClient (pk : Pk)
  | saveEnrollment (pk : Pk) (e : AppMeshEnrollment)
  | enrolled (enrollment : Pk)
  | deleteEnrollment (pk : Pk)
  | others (db : DB)

namespace World

variable (w : World) (organization : Pk)

def apply : RowChange → World
  | .saveMembership pk m => { w with db := { w.db with memberships := w.db.memberships.put pk m } }
  | .deleteMembership pk => { w with db := { w.db with memberships := w.db.memberships.keep fun k _ => k != pk } }
  | .saveGrant pk g => { w with db := { w.db with grants := w.db.grants.put pk g } }
  | .deleteGrant pk => { w with db := { w.db with grants := w.db.grants.keep fun k _ => k != pk } }
  | .saveClient pk c => { w with db := { w.db with clients := w.db.clients.put pk c } }
  | .deleteClient pk => { w with db := { w.db with clients := w.db.clients.keep fun k _ => k != pk } }
  | .saveEnrollment pk e => { w with net := { w.net with enrollments := w.net.enrollments.put pk e } }
  | .deleteEnrollment pk =>
    { w with net := { w.net with enrollments := w.net.enrollments.keep fun k _ => k != pk } }
  | .others db =>
    { w with db := { db with memberships := w.db.memberships, grants := w.db.grants, clients := w.db.clients } }
  | .upgraded _ | .bound _ | .enrolled _ => w

def membershipIn (pk : Pk) : Bool := (w.db.memberships.row pk).any (·.organization == organization)

def clientIn (pk : Pk) : Bool := (w.db.clients.row pk).any (·.organization == some organization)

def enrollmentIn (pk : Pk) : Bool := (w.net.enrollments.row pk).any (·.organization == organization)

/-- `schedule_resync` and `schedule_member_removal`. -/
def resyncs : RowChange → Bool
  | .saveMembership _ m => m.organization == organization
  | .deleteMembership pk | .upgraded pk => w.membershipIn organization pk
  | _ => false

/-- `schedule_acl_apply`. -/
def appliesAcl : RowChange → Bool
  | .saveGrant _ g => w.membershipIn organization g.membership
  | .deleteGrant pk => (w.db.grants.row pk).any fun g => w.membershipIn organization g.membership
  | .bound pk | .deleteClient pk => w.clientIn organization pk
  | .enrolled pk | .deleteEnrollment pk => w.enrollmentIn organization pk
  | _ => false

def after (tx : List RowChange) : World := tx.foldl apply w

/-- How many changes of a transaction schedule a hook of a kind. -/
def scheduled (p : World → RowChange → Bool) (w : World) : List RowChange → Nat
  | [] => 0
  | c :: cs => scheduled p (w.apply c) cs + if p w c then 1 else 0

/-- Every change that asks for a resync schedules one. -/
def resyncsOf (tx : List RowChange) : Nat := w.scheduled (resyncs · organization) tx

/-- The policy is applied once per transaction. -/
def appliesOf (tx : List RowChange) : Nat := min 1 (w.scheduled (appliesAcl · organization) tx)

/-- The full members, as the policy names them. -/
def fullMembers : List String :=
  (w.db.memberships.filter fun pk m => m.organization == organization && !w.db.isScoped pk).map
    fun m => toString m.2.user

def policy : AclPolicy := w.db.buildAclPolicy w.net organization

end World

/-! ## Steps -/

/-- The policy `sync` writes. -/
def IamPolicy.withSubs (current : IamPolicy) (members : List String) : IamPolicy :=
  { current with subs := members }

inductive Event
  | commit (tx : List RowChange)
  -- the calls of a resync
  | getPolicy (hook : Nat)
  | listMembers (hook : Nat)
  | updatePolicy (hook : Nat)
  -- the calls of an ACL application
  | buildAcl (hook : Nat)
  | setAcl (hook : Nat)

/-- One event of an organization; a hook that is done is gone. -/
inductive Control.Step (organization : Pk) : Control → Event → Control → Prop
  | commit (c : Control) (tx : List RowChange) :
    Step organization c (.commit tx)
      { c with world := c.world.after tx, commits := c.commits + 1,
               resyncs := c.resyncs ++ .replicate (c.world.resyncsOf organization tx) .waiting,
               applies := c.applies ++ .replicate (c.world.appliesOf organization tx) .waiting }
  | getPolicy (c : Control) (i : Nat) (h : c.resyncs[i]? = some .waiting) :
    Step organization c (.getPolicy i) { c with resyncs := c.resyncs.set i (.fetched c.iam) }
  | listMembers (c : Control) (i : Nat) (current : IamPolicy) (h : c.resyncs[i]? = some (.fetched current)) :
    Step organization c (.listMembers i)
      { c with resyncs := c.resyncs.set i (.listed current c.commits (c.world.fullMembers organization)) }
  | updatePolicy (c : Control) (i v : Nat) (current : IamPolicy) (members : List String)
      (h : c.resyncs[i]? = some (.listed current v members)) :
    Step organization c (.updatePolicy i)
      { c with iam := current.withSubs members, iamAt := v, resyncs := c.resyncs.eraseIdx i }
  | buildAcl (c : Control) (i : Nat) (h : c.applies[i]? = some .waiting) :
    Step organization c (.buildAcl i)
      { c with applies := c.applies.set i (.built c.commits (c.world.policy organization)) }
  | setAcl (c : Control) (i v : Nat) (policy : AclPolicy) (h : c.applies[i]? = some (.built v policy)) :
    Step organization c (.setAcl i) { c with acl := policy, aclAt := v, applies := c.applies.eraseIdx i }

def Control.Done (c : Control) : Prop := c.resyncs = [] ∧ c.applies = []

/-- Both documents say what is stored. -/
def Control.InSync (organization : Pk) (c : Control) : Prop :=
  c.iam.subs = c.world.fullMembers organization ∧ c.acl = c.world.policy organization

end Lok
