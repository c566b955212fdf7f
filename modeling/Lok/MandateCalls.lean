import Lok.RowLocks
import Lok.OpenPins

/-!
# Mandate calls, statement by statement

`issue_mandate`, `authenticate_key` and `revoke_mandate` each run in a transaction of their own: they lock
rows of mandates, look at what is committed, and what they write is there for the others once they commit.
The stages of a call are the statements with which it takes locks or looks at rows that others may write. A
child is issued under its parent's lock, a login holds the lock of the mandate it is for, and a revocation
those of the mandate, of its children, and of the mandates that go with its clients.
-/

namespace Lok

open Table Checks RowLocks Calls

def Issuer.parent? : Issuer → Option Pk
  | .agent p _ => some p
  | _ => none

def Issuer.client? : Issuer → Option Pk
  | .client c | .agent _ c => some c
  | _ => none

/-- What `issue_mandate` is called with, and the key lok would mint. -/
structure IssueRequest where
  issuer : Issuer
  grantor : Pk
  hub : Pk
  pin : MandatePin
  claimant : Claimant
  expiresAt : Option Time
  maxClients : Option Nat
  allowMesh : Bool
  label : String
  minted : String
  deriving DecidableEq, Repr

namespace DB

variable (db : DB)

/-! ## Issuing -/

/-- What is checked of a request before the transaction. -/
def checkRequest (r : IssueRequest) : Answer Unit := do
  let g ← db.memberships.get r.grantor
  let o ← db.organizations.get g.organization
  let h ← db.hubs.get r.hub
  assert (h.organization == g.organization) .mandateError "The hub does not belong to the grantor's organization."
  assert (r.maxClients.all (1 ≤ ·)) .mandateError "maxClients must be at least 1."
  db.assertKnownScopes g.organization o.slug r.pin

/-- What is checked with the parent locked. -/
def checkIssue (r : IssueRequest) : Answer Unit := do
  let h ← db.hubs.get r.hub
  db.assertSlots r.issuer
  db.assertPolicy r.issuer r.grantor r.hub h.organization r.pin r.claimant r.expiresAt

/-- The rows a new mandate points at are there when it is saved. -/
def saveIssue (env : Env) (r : IssueRequest) : Answer (DB × Pk × Option String) := do
  let g ← db.memberships.get r.grantor
  let _ ← db.hubs.get r.hub
  whenSome r.issuer.client? fun c => do
    let _ ← db.clients.get c
  let blank : Mandate :=
    { membership := r.grantor, organization := g.organization, hub := r.hub, claimant := .key, origin := .member,
      label := r.label, keyHash := none, keyPrefix := "", agentIdentifier := none, agentDevice := none,
      agentMembership := none, pin := r.pin, attestation := "", maxClients := r.maxClients,
      allowMesh := r.allowMesh, parent := none, issuingClient := none, configName := none,
      hubRequest := none, expiresAt := r.expiresAt, revokedAt := none, revocationReason := none, lastUsedAt := none }
  let (d, m, key) ← db.withClaimant env blank r.minted r.claimant
  let saved ← d.saveNewMandate (withIssuer m r.issuer)
  return (saved, d.mandates.next, key)

theorem assertPolicy_issuingClient {r : IssueRequest} {o : Pk}
    (h : db.assertPolicy r.issuer r.grantor r.hub o r.pin r.claimant r.expiresAt = .ok ()) {c : Pk}
    (hc : r.issuer.client? = some c) : ∃ x, db.clients.get c = .ok x := by
  cases hissuer : r.issuer with
  | client k =>
    rw [hissuer] at h hc
    cases hc
    simp only [assertPolicy, bind_ok] at h
    exact ⟨_, h.choose_spec.1⟩
  | agent p k =>
    rw [hissuer] at h hc
    cases hc
    simp only [assertPolicy, bind_ok] at h
    obtain ⟨_, -, x, hx, -⟩ := h
    exact ⟨x, hx⟩
  | _ => rw [hissuer] at hc; cases hc

theorem issueMandate_staged (env : Env) (r : IssueRequest) :
    db.issueMandate env r.issuer r.grantor r.hub r.pin r.claimant r.expiresAt r.maxClients
    r.allowMesh r.label r.minted
      = (do db.checkRequest r; db.checkIssue r; db.saveIssue env r) := by
  simp only [issueMandate, checkRequest, checkIssue, saveIssue, bind_assoc]
  refine bind_congr_ok fun g hg => bind_congr_ok fun o _ => bind_congr_ok fun x hx => bind_congr_ok fun _ _ =>
    bind_congr_ok fun _ _ => bind_congr_ok fun _ _ => ?_
  rw [hx]
  refine bind_congr_ok fun _ _ => bind_congr_ok fun _ hpolicy => ?_
  have hclient : (whenSome r.issuer.client? fun c => do let _ ← db.clients.get c) = .ok () :=
    whenSome_ok.mpr fun c hc => by
      obtain ⟨y, hy⟩ := db.assertPolicy_issuingClient hpolicy hc
      rw [hy]
      rfl
  rw [hg, hclient]
  rfl

/-! ## Logging in -/

def keyed (env : Env) (key : String) : Option (Pk × Mandate) :=
  db.mandates.first fun _ m => m.keyHash == some (env.hashKey key)

/-- What is checked with the mandate locked. -/
def admitLogin (env : Env) (request : MandateKeyGrantRequest) : Answer (Pk × Mandate) := do
  let (pk, m) ← found (db.keyed env request.key) ⟨.unknownMandateKey, "Invalid mandate key."⟩
  db.assertLive m
  (loginPin m.pin request.manifest).check request.manifest
  let o ← db.organizations.get m.organization
  assert (!o.requireDeviceAuth || (given request.manifest.deviceId).isSome) .deviceAuthRequired
    "This organization requires device authentication; the client manifest must include a device_id."
  return (pk, m)

/-- The client a device logs in as, if it has one to be found: its own, or an older key's. -/
def findLogin (env : Env) (request : MandateKeyGrantRequest) (pk : Pk) (m : Mandate) :
    Answer (Option (Pk × Client)) := do
  let node := (db.deviceOf env request.manifest.deviceId m.organization).2
  match db.clients.first fun _ c => c.mandate == some pk && c.node == node with
  | some r => return some r
  | none =>
    assert (m.maxClients.all fun max => db.clients.count (fun _ c => c.mandate == some pk) < max) .mandateExhausted
      "This mandate key has been used on as many devices as it allows."
    return node.bind fun n => db.predecessorClient pk m n request.manifest.identifier

def clientOfLogin (request : MandateKeyGrantRequest) : Option (Pk × Client) → Answer (DB × Pk × Client)
  | some (c, client) => .ok (db, c, client)
  | none => do
    let (d, c) := db.createPublicClient request.kind request.role [] false [.mandateKey]
    let client ← d.clients.get c
    return (d, c, client)

def saveLogin (env : Env) (request : MandateKeyGrantRequest) (pk : Pk) (m : Mandate)
    (client : Option (Pk × Client)) :
    Answer (DB × Pk) := do
  let d := (db.deviceOf env request.manifest.deviceId m.organization).1
  let (d, c, client) ← d.clientOfLogin request client
  let d ← d.bindForLogin env pk m request c client
  return ({ d with mandates := d.mandates.modify pk fun x =>
    { x with lastUsedAt := some db.now, pin := loginPin m.pin request.manifest } }, c)

theorem clientForLogin_staged (env : Env) (request : MandateKeyGrantRequest) (pk : Pk) (m : Mandate) :
    (let (d, node) := db.deviceOf env request.manifest.deviceId m.organization
     d.clientForLogin pk m node request) = (do
      let client ← db.findLogin env request pk m
      (db.deviceOf env request.manifest.deviceId m.organization).1.clientOfLogin request client) := by
  obtain ⟨t, ht, -⟩ := deviceOf_eq db env request.manifest.deviceId m.organization
  have hd : (db.deviceOf env request.manifest.deviceId m.organization).1 = { db with devices := t } := ht
  simp only [findLogin, clientForLogin, hd]
  cases db.clients.first fun _ c => c.mandate == some pk
      && c.node == (db.deviceOf env request.manifest.deviceId m.organization).2 with
  | some r => rfl
  | none =>
    simp only [bind_assoc]
    refine bind_congr_ok fun _ _ => ?_
    simp only [pure_bind]
    show (match (db.deviceOf env request.manifest.deviceId m.organization).2.bind fun n =>
      db.predecessorClient pk m n request.manifest.identifier with | some (c, client) => _ | none => _) = _
    cases (db.deviceOf env request.manifest.deviceId m.organization).2.bind fun n =>
      db.predecessorClient pk m n request.manifest.identifier with
    | some r => rfl
    | none => rfl

theorem authenticateKey_staged (env : Env) (request : MandateKeyGrantRequest) :
    db.authenticateKey env request = (do
      let (pk, m) ← db.admitLogin env request
      let client ← db.findLogin env request pk m
      db.saveLogin env request pk m client) := by
  simp only [authenticateKey, admitLogin, saveLogin, bind_assoc, pure_bind, keyed]
  refine bind_congr_ok fun r _ => bind_congr_ok fun _ _ => bind_congr_ok fun _ _ => bind_congr_ok fun _ _ =>
    bind_congr_ok fun _ _ => ?_
  have h := db.clientForLogin_staged env request r.1 r.2
  simp only at h
  rw [h, bind_assoc]

/-! ## Revoking -/

/-- The clients a revocation is about to delete. -/
def clientsUnder (mandates : List Pk) : List Pk := db.clients.pks fun _ c => c.mandate.any mandates.contains

/-- The mandates that go when clients go, whose tokens were revoked just before: those they issued. -/
def takenAlong (clients : List Pk) : List Pk :=
  ((db.revokeTokensOf clients).collect (clients.map fun c => ⟨.client, c⟩)).filterMap fun r =>
    if r.model = .mandate then some r.pk else none

/-- What a revocation writes, of the children and the clients it listed. -/
def saveRevocation (mandate : Pk) (reason : MandateRevocation) (children clients : List Pk) : DB :=
  let d := { db with mandates := db.mandates.update fun pk m =>
    if pk = mandate then revokeRow db.now reason m
    else if children.contains pk then revokeRow db.now .parentRevoked m
    else m }
  (d.revokeTokensOf clients).delete .client (clients.map fun c => ⟨.client, c⟩) none

theorem revokeMandate_staged (mandate : Pk) (reason : MandateRevocation) :
    db.revokeMandate mandate reason = (do
      let _ ← db.mandates.get mandate
      return db.saveRevocation mandate reason (db.childrenOf mandate)
        (db.clientsUnder (mandate :: db.childrenOf mandate))) := rfl

end DB

/-! ## The calls -/

inductive MandateCall
  | asked (r : IssueRequest)
  | issuing (r : IssueRequest)
  /-- The parent is locked and the policy holds. -/
  | checked (r : IssueRequest)
  | loggingIn (request : MandateKeyGrantRequest)
  | admitted (request : MandateKeyGrantRequest) (pk : Pk) (m : Mandate)
  | found (request : MandateKeyGrantRequest) (pk : Pk) (m : Mandate) (client : Option (Pk × Client))
  | revoking (mandate : Pk) (reason : MandateRevocation)
  | rooted (mandate : Pk) (reason : MandateRevocation)
  /-- The children that are locked, and those that are not yet. -/
  | locking (mandate : Pk) (reason : MandateRevocation) (locked rest : List Pk)
  | listed (mandate : Pk) (reason : MandateRevocation) (children clients : List Pk)

namespace MandateCall

def Begins : MandateCall → Prop
  | asked _ | loggingIn _ | revoking .. => True
  | _ => False

def holds : MandateCall → List Pk
  | asked _ | issuing _ | loggingIn _ | revoking .. => []
  | checked r => r.issuer.parent?.toList
  | admitted _ pk _ | found _ pk _ _ | rooted pk _ => [pk]
  | locking pk _ locked _ => pk :: locked
  | listed pk _ children _ => pk :: children

def wants (env : Env) (db : DB) : MandateCall → List Pk
  | issuing r => r.issuer.parent?.toList
  | loggingIn request => ((db.keyed env request.key).map (·.1)).toList
  | revoking pk _ => [pk]
  | locking _ _ _ (k :: _) => [k]
  | listed pk _ children clients => (db.takenAlong clients).filter fun k => !(pk :: children).contains k
  | _ => []

/-- A call that is refused ends, and its transaction leaves nothing. -/
def goesOn {α : Type} (db : DB) : Answer α → (α → MandateCall) → DB × Option MandateCall
  | .ok a, f => (db, some (f a))
  | .error _, _ => (db, none)

/-- A call commits what it writes, if that is not refused. -/
def commits {α : Type} (db : DB) : Answer (DB × α) → DB × Option MandateCall
  | .ok r => (r.1, none)
  | .error _ => (db, none)

section

variable {α : Type} {db : DB} {c : MandateCall}

@[simp] theorem goesOn_fst (x : Answer α) (f : α → MandateCall) : (goesOn db x f).1 = db := by
  cases x <;> rfl

@[simp] theorem goesOn_snd {x : Answer α} {f : α → MandateCall} :
    (goesOn db x f).2 = some c ↔ ∃ a, x = .ok a ∧ f a = c := by
  cases x <;> simp [goesOn]

@[simp] theorem commits_snd (x : Answer (DB × α)) : (commits db x).2 = none := by
  cases x <;> rfl

theorem commits_fst {P : DB → Prop} {x : Answer (DB × α)} (h : P db) (hok : ∀ r, x = .ok r → P r.1) :
    P (commits db x).1 := by
  cases x with
  | ok r => exact hok r rfl
  | error => exact h

end

def next (env : Env) (db : DB) : MandateCall → DB × Option MandateCall
  | asked r => goesOn db (db.checkRequest r) fun _ => issuing r
  | issuing r => goesOn db (db.checkIssue r) fun _ => checked r
  | checked r => commits db (db.saveIssue env r)
  | loggingIn request => goesOn db (db.admitLogin env request) fun x => admitted request x.1 x.2
  | admitted request pk m => goesOn db (db.findLogin env request pk m) (found request pk m)
  | found request pk m client => commits db (db.saveLogin env request pk m client)
  | revoking pk reason => goesOn db (db.mandates.get pk) fun _ => rooted pk reason
  | rooted pk reason => (db, some (locking pk reason [] (db.childrenOf pk)))
  | locking pk reason locked (k :: rest) => (db, some (locking pk reason (locked ++ [k]) rest))
  | locking pk reason locked [] => (db, some (listed pk reason locked (db.clientsUnder (pk :: locked))))
  | listed pk reason children clients => (db.saveRevocation pk reason children clients, none)

/-- How many statements a call has left; a revocation that has not listed the children cannot tell. -/
def size : MandateCall → Nat ×ₗ Nat
  | asked _ => toLex (2, 0)
  | issuing _ => toLex (1, 0)
  | checked _ => toLex (0, 0)
  | loggingIn _ => toLex (2, 0)
  | admitted .. => toLex (1, 0)
  | found .. => toLex (0, 0)
  | revoking .. => toLex (3, 0)
  | rooted .. => toLex (2, 0)
  | locking _ _ _ rest => toLex (1, rest.length)
  | listed .. => toLex (0, 0)

end MandateCall

def mandateCalls (env : Env) : Protocol DB MandateCall Pk where
  holds := MandateCall.holds
  wants := MandateCall.wants env
  next := MandateCall.next env

/-! ## A call by itself -/

namespace MandateCall

variable {α β : Type} {db : DB} {env : Env} {c : MandateCall}

theorem alone_goesOn {x : Answer α} {f : α → MandateCall} {y : α → Answer (DB × β)}
    (hnext : c.next env db = goesOn db x f)
    (hrest : ∀ a, x = .ok a → (mandateCalls env).Alone db (f a) (db.settle ((y a).map (·.1)))) :
    (mandateCalls env).Alone db c (db.settle ((x >>= y).map (·.1))) := by
  cases x with
  | ok a => exact .more (congrArg some hnext) (hrest a rfl)
  | error e => exact .last (congrArg some hnext)

theorem alone_commits {x : Answer (DB × α)} (hnext : c.next env db = commits db x) :
    (mandateCalls env).Alone db c (db.settle (x.map (·.1))) := by
  cases x with
  | ok r => exact .last (congrArg some hnext)
  | error e => exact .last (congrArg some hnext)

theorem issue_alone (env : Env) (db : DB) (r : IssueRequest) : (mandateCalls env).Alone db (asked r) (db.settle
    ((db.issueMandate env r.issuer r.grantor r.hub r.pin r.claimant r.expiresAt r.maxClients
      r.allowMesh r.label r.minted).map
      (·.1))) := by
  rw [db.issueMandate_staged env r]
  exact alone_goesOn rfl fun _ _ => alone_goesOn rfl fun _ _ => alone_commits rfl

theorem login_alone (env : Env) (db : DB) (request : MandateKeyGrantRequest) :
    (mandateCalls env).Alone db (loggingIn request) (db.settle ((db.authenticateKey env request).map (·.1))) := by
  rw [db.authenticateKey_staged env request]
  exact alone_goesOn rfl fun _ _ => alone_goesOn rfl fun _ _ => alone_commits rfl

theorem lock_alone (env : Env) (db : DB) (pk : Pk) (reason : MandateRevocation) (rest locked : List Pk) :
    (mandateCalls env).Alone db (locking pk reason locked rest)
      (db.saveRevocation pk reason (locked ++ rest) (db.clientsUnder (pk :: (locked ++ rest)))) := by
  induction rest generalizing locked with
  | nil =>
    rw [List.append_nil]
    exact .more rfl (.last rfl)
  | cons k rest ih =>
    rw [show locked ++ k :: rest = locked ++ [k] ++ rest by simp]
    exact .more rfl (ih (locked ++ [k]))

theorem revoke_alone (env : Env) (db : DB) (pk : Pk) (reason : MandateRevocation) :
    (mandateCalls env).Alone db (revoking pk reason) (db.settle (db.revokeMandate pk reason)) := by
  rw [db.revokeMandate_staged pk reason]
  have hnext : next env db (revoking pk reason) = goesOn db (db.mandates.get pk) fun _ => rooted pk reason := rfl
  cases hm : db.mandates.get pk with
  | ok m =>
    rw [hm] at hnext
    exact .more (congrArg some hnext) (.more rfl (lock_alone env db pk reason _ []))
  | error e =>
    rw [hm] at hnext
    exact .last (congrArg some hnext)

end MandateCall

end Lok
