import Lok.Checks
import Mathlib.Data.List.Perm.Basic
import Mathlib.Data.String.Basic

/-!
# Words of the model

Keys, times, refusals and the enumerations the rows use. A refusal keeps the kind of the
exception that is raised and its text.
-/

namespace Lok

open Checks

abbrev Pk := Nat

abbrev Time := Nat

def day : Time := 86400

/-! ## Refusals -/

inductive Kind
  | mandateError | mandateNotLive | mandateAgentMismatch | mandateExhausted | mandateChaining
  | mandateExceedsIssuer | unknownMandateScope | unknownMandateKey | mandateKeyReused | mandatePinMismatch
  | deviceAuthRequired | validationError | inviteError | graphQLError | denied | doesNotExist | integrityError
  | exception | invalidRequest | invalidGrant | invalidClient | unauthorizedClient | accessDenied
  | authorizationPending | slowDown | expiredToken | loginRequired | instanceNotFound
  deriving DecidableEq, Repr

/-- What was raised: its class and its text. -/
structure Refused where
  kind : Kind
  text : String
  deriving DecidableEq, Repr

abbrev Answer (α : Type) := Except Refused α

def refusal {α : Type} : Answer α → Option Refused
  | .ok _ => none
  | .error e => some e

theorem refusal_eq_some {α : Type} {x : Answer α} {e : Refused} : refusal x = some e ↔ x = .error e := by
  cases x <;> simp [refusal]

def refuse {α : Type} (kind : Kind) (text : String) : Answer α := .error ⟨kind, text⟩

@[simp] theorem refuse_ok {α : Type} {kind : Kind} {text : String} {a : α} : refuse kind text = .ok a ↔ False := by
  simp [refuse]

@[simp] theorem whenSome_refuse {α : Type} {o : Option α} {kind : Kind} {text : α → String} {u : Unit} :
    (whenSome o fun a => refuse kind (text a)) = .ok u ↔ o = none := by
  cases o <;> simp [whenSome]

/-- `raise kind(text)` unless the condition holds. -/
abbrev assert (c : Bool) (kind : Kind) (text : String) : Answer Unit := require c ⟨kind, text⟩

/-- `except kinds as e: raise kind(str(e))`. -/
def reraise {α : Type} (kinds : Kind → Bool) (kind : Kind) : Answer α → Answer α
  | .ok a => .ok a
  | .error e => .error (if kinds e.kind then ⟨kind, e.text⟩ else e)

@[simp] theorem reraise_ok {α : Type} {kinds : Kind → Bool} {kind : Kind} {x : Answer α} {a : α} :
    reraise kinds kind x = .ok a ↔ x = .ok a := by
  cases x <;> simp [reraise]

/-- The subclasses of `MandateError`. -/
def Kind.isMandateError : Kind → Bool
  | .mandateError | .mandateNotLive | .mandateAgentMismatch | .mandateExhausted | .mandateChaining
  | .mandateExceedsIssuer | .unknownMandateScope | .unknownMandateKey | .mandateKeyReused => true
  | _ => false

/-! ## Enumerations -/

inductive ClientKind
  | development | website | desktop | mobile | hub | relyingParty
  deriving DecidableEq, Repr

inductive ClientRole
  | interface | agent
  deriving DecidableEq, Repr

inductive DeviceCodeKind
  | app | hub
  deriving DecidableEq, Repr

inductive MandateClaimant
  | key | agent
  deriving DecidableEq, Repr

inductive MandateOrigin
  | member | client | agent | hub | config
  deriving DecidableEq, Repr

inductive MandateRevocation
  | revoked | parentRevoked | issuerRevoked | removedFromConfig | superseded | organizationRevoked
  deriving DecidableEq, Repr

inductive MappingStatus
  | granted | denied | unavailable
  deriving DecidableEq, Repr

inductive InviteStatus
  | pending | accepted | declined | cancelled
  deriving DecidableEq, Repr

inductive RequestStatus
  | pending | approved | declined
  deriving DecidableEq, Repr

def RequestStatus.value : RequestStatus → String
  | .pending => "pending"
  | .approved => "approved"
  | .declined => "declined"

/-! ## Scopes lok knows itself -/

def baseOidcScopes : List String := ["openid", "profile", "email"]

structure LokScope where
  key : String
  description : String
  isAllScope : Bool
  deriving DecidableEq, Repr

def lokScopes : List LokScope :=
  [⟨"lok_read", "See your organizations, their members, groups and roles, and the devices, apps, hubs and services "
      ++ "registered with them.", false⟩,
   ⟨"lok_profile", "Change your profile, your groups' profiles, your devices and your colours in an organization, and "
      ++ "upload the images they show.", false⟩,
   ⟨"lok_organizations", "Create organizations, invite people, add them, and accept or decline who asks to join.",
    false⟩,
   ⟨"lok_mandates", "Issue and revoke mandates and their keys, which let an app act on your behalf.", false⟩,
   ⟨"lok_messages", "Send notifications, acknowledge yours, and register where you receive them.", false⟩,
   ⟨"lok_services", "Register and change service instances, and render their configuration.", false⟩,
   ⟨"lok_all", "Do everything in Lok on your behalf.", true⟩]

/-! ## Text -/

def insertSorted (s : String) : List String → List String
  | [] => [s]
  | t :: ts => if s < t then s :: t :: ts else if s = t then t :: ts else t :: insertSorted s ts

/-- `sorted(set(..))` of strings. -/
def sortedSet : List String → List String
  | [] => []
  | s :: ss => insertSorted s (sortedSet ss)

@[simp] theorem mem_insertSorted {s x : String} : ∀ {l : List String}, x ∈ insertSorted s l ↔ x = s ∨ x ∈ l
  | [] => by simp [insertSorted]
  | t :: ts => by
    rw [insertSorted]
    split
    · simp
    · split
      · rename_i h; subst h; simp
      · simp [mem_insertSorted (l := ts), or_left_comm]

@[simp] theorem mem_sortedSet {x : String} : ∀ {l : List String}, x ∈ sortedSet l ↔ x ∈ l
  | [] => by simp [sortedSet]
  | s :: ss => by simp [sortedSet, mem_sortedSet (l := ss)]

theorem insertSorted_pairwise {s : String} :
    ∀ {l : List String}, l.Pairwise (· < ·) → (insertSorted s l).Pairwise (· < ·)
  | [], _ => List.pairwise_singleton _ _
  | t :: ts, h => by
    obtain ⟨hhead, htail⟩ := List.pairwise_cons.mp h
    rw [insertSorted]
    split
    · rename_i hlt
      refine List.pairwise_cons.mpr ⟨fun x hx => ?_, h⟩
      rcases List.mem_cons.mp hx with rfl | hx
      · exact hlt
      · exact lt_trans hlt (hhead x hx)
    · rename_i hlt
      split
      · exact h
      · rename_i hne
        refine List.pairwise_cons.mpr ⟨fun x hx => ?_, insertSorted_pairwise htail⟩
        rcases mem_insertSorted.mp hx with rfl | hx
        · exact lt_of_le_of_ne (not_lt.mp hlt) (Ne.symm hne)
        · exact hhead x hx

theorem sortedSet_pairwise : ∀ l : List String, (sortedSet l).Pairwise (· < ·)
  | [] => .nil
  | _ :: ss => insertSorted_pairwise (sortedSet_pairwise ss)

theorem sortedSet_congr {l l' : List String} (h : ∀ x, x ∈ l ↔ x ∈ l') : sortedSet l = sortedSet l' := by
  have hnodup : ∀ l : List String, (sortedSet l).Nodup :=
    fun l => (sortedSet_pairwise l).imp fun hlt => ne_of_lt hlt
  have hperm : (sortedSet l).Perm (sortedSet l') :=
    (List.perm_ext_iff_of_nodup (hnodup l) (hnodup l')).mpr fun x => by simp [h]
  exact hperm.eq_of_pairwise (fun a b _ _ hab hba => absurd hab (lt_asymm hba)) (sortedSet_pairwise l)
    (sortedSet_pairwise l')

/-- `', '.join(..)`. -/
def commaJoin : List String → String
  | [] => ""
  | [s] => s
  | s :: ss => s ++ ", " ++ commaJoin ss

/-- Python's truth of an optional string: given, and not empty. -/
def given : Option String → Option String
  | some "" => none
  | o => o

end Lok
