import Lok.MeshKeyRaces

/-!
# Tailnets

What the control plane holds of a tailnet: the keys that nodes join with, and the nodes. A node carries the
tags of the key it joined with, and lok finds the nodes of a sidecar by them.
-/

namespace Lok

/-- A pre-authorized key, as it was minted. -/
structure JoinKey where
  tailnet : String
  value : String
  tags : List Selector
  ephemeral : Bool
  expirySeconds : Time
  deriving DecidableEq, Repr

structure Node where
  id : Nat
  tailnet : String
  tags : List Selector
  connected : Bool
  deriving DecidableEq, Repr

structure Tailnets where
  keys : List JoinKey
  nodes : List Node
  deriving Repr

namespace Tailnets

variable (p : Tailnets)

def createAuthKey (k : JoinKey) : Tailnets := { p with keys := p.keys ++ [k] }

/-- `delete_auth_key`: the first key of the tailnet that the listing shows under the prefix of the value. -/
def deleteAuthKey (tailnet value : String) : Tailnets :=
  { p with keys := p.keys.eraseP fun k => k.tailnet == tailnet && publicPrefix k.value == publicPrefix value }

def listMachines (tailnet : String) : List Node := p.nodes.filter (·.tailnet == tailnet)

def deleteMachine (id : Nat) : Tailnets := { p with nodes := p.nodes.filter (·.id != id) }

/-- Nodes are deleted one after the other. -/
def deleteMachines (l : List Node) : Tailnets := l.foldl (fun p n => p.deleteMachine n.id) p

/-- `delete_tailnet`: everything goes with it. -/
def deleteTailnet (tailnet : String) : Tailnets where
  keys := p.keys.filter (·.tailnet != tailnet)
  nodes := p.nodes.filter (·.tailnet != tailnet)

variable {p} {k : JoinKey} {n : Node}

theorem mem_createAuthKey {j : JoinKey} : k ∈ (p.createAuthKey j).keys ↔ k ∈ p.keys ∨ k = j := by
  simp [createAuthKey]

theorem mem_of_deleteAuthKey {tailnet value : String} (h : k ∈ (p.deleteAuthKey tailnet value).keys) :
    k ∈ p.keys :=
  List.mem_of_mem_eraseP h

theorem mem_deleteMachine {id : Nat} : n ∈ (p.deleteMachine id).nodes ↔ n ∈ p.nodes ∧ n.id ≠ id := by
  simp [deleteMachine]

@[simp] theorem deleteMachines_keys (l : List Node) : (p.deleteMachines l).keys = p.keys := by
  induction l generalizing p with
  | nil => rfl
  | cons n l ih => exact ih (p := p.deleteMachine n.id)

theorem mem_deleteMachines {l : List Node} :
    n ∈ (p.deleteMachines l).nodes ↔ n ∈ p.nodes ∧ ∀ d ∈ l, n.id ≠ d.id := by
  induction l generalizing p with
  | nil => simp [deleteMachines]
  | cons d l ih =>
    have hcons : p.deleteMachines (d :: l) = (p.deleteMachine d.id).deleteMachines l := rfl
    rw [hcons, ih, mem_deleteMachine, and_assoc, List.forall_mem_cons]

end Tailnets

end Lok
