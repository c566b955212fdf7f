import Lok.MandateWrites

/-!
# What writes leave alone

Between the writes that register or bind clients and make memberships, every client keeps
whom it speaks for and every membership its user and organization, for as long as it is
there.
-/

namespace Lok

open Table Runs Checks

/-- Renaming a role touches the roles, and the admin flags if the role is or was the admin role. -/
theorem DB.renameRole_ok {db d : DB} {role : Pk} {identifier : String}
    (h : db.renameRole role identifier = .ok d) :
    ∃ r l, db.roles.row role = some r
      ∧ d = ({ db with roles := db.roles.modify role fun r => { r with identifier := identifier } } :
        DB).syncAdmin l
      ∧ (((r.identifier == adminRole) == (identifier == adminRole)) = true
        ∨ l = db.memberships.pks fun _ m => m.roles.contains role) := by
  simp only [renameRole, bind_ok, Table.get_ok, require_ok, exists_unit] at h
  obtain ⟨r, hr, -, h⟩ := h
  split at h
  · obtain rfl := pure_ok.mp h
    exact ⟨r, _, hr, rfl, .inr rfl⟩
  · rename_i hsame
    obtain rfl := pure_ok.mp h
    refine ⟨r, [], hr, ?_, .inl (by simpa using hsame)⟩
    unfold syncAdmin
    dsimp only
    congr 1
    refine Table.ext rfl fun pk => ?_
    rw [update_row]
    cases db.memberships.row pk <;> simp

section

variable {db d : DB} {l : Label} {A : Licence}

/-- The writes that neither enroll anyone nor bind a client. -/
def Label.settled : Label → Prop
  | .enroll | .bind .. | .login => False
  | _ => True

theorem Write.clients_shrink (h : Write db l d) (hl : l.settled) :
    Table.Shrinks (fun c c' => c'.binding = c.binding) db.clients d.clients := by
  have hsame : Table.Shrinks (fun c c' => c'.binding = c.binding) db.clients db.clients :=
    ⟨rfl, fun _ c hc => ⟨c, hc, rfl⟩⟩
  cases h with
  | clients h => exact ⟨h.1, fun _ _ => h.before⟩
  | newClient | newRelyingParty | newMembership | bindApp | bindKeyed => exact hl.elim
  | delete origin roots upgrading =>
    refine ⟨(DB.delete_shrinks db origin roots upgrading).clients.1, fun pk c hc => ?_⟩
    obtain ⟨c₀, hc₀, hcleared⟩ := (DB.delete_shrinks db origin roots upgrading).clients.2 pk c hc
    exact ⟨c₀, hc₀, DB.Cleared.binding hcleared⟩
  | renameRole h =>
    obtain ⟨_, _, -, rfl, -⟩ := DB.renameRole_ok h
    exact hsame
  | _ => exact hsame

theorem Write.memberships_shrink (h : Write db l d) (hl : l.settled) :
    Table.Shrinks (fun m m' => m'.user = m.user ∧ m'.organization = m.organization) db.memberships
    d.memberships := by
  have hsame : Table.Shrinks (fun m m' : Membership => m'.user = m.user ∧ m'.organization = m.organization)
      db.memberships db.memberships := .refl (fun _ => ⟨rfl, rfl⟩) _
  cases h with
  | memberships h => exact ⟨h.1, fun _ _ hb => (h.before hb).imp fun _ ha => ⟨ha.1, ha.2.user, ha.2.organization⟩⟩
  | newClient | newRelyingParty | newMembership | bindApp | bindKeyed => exact hl.elim
  | delete origin roots upgrading =>
    refine ⟨(DB.delete_shrinks db origin roots upgrading).memberships.1, fun pk m hm => ?_⟩
    obtain ⟨m₀, hm₀, hu, ho, -⟩ := (DB.delete_shrinks db origin roots upgrading).memberships.2 pk m hm
    exact ⟨m₀, hm₀, hu, ho⟩
  | renameRole h =>
    obtain ⟨_, _, -, rfl, -⟩ := DB.renameRole_ok h
    exact .update _ fun _ m => by split <;> exact ⟨rfl, rfl⟩
  | _ => exact hsame

/-- A licence to neither enroll anyone nor bind a client. -/
structure Licence.Settled (A : Licence) : Prop where
  enroll : ¬ A.enroll
  bind : ∀ before m, ¬ A.bind before m
  login : ¬ A.login

theorem Licence.Settled.label (hA : A.Settled) : ∀ l, A.admits l → l.settled
  | .enroll, h => hA.enroll h
  | .bind _ _, h => hA.bind _ _ h
  | .login, h => hA.login h
  | .quiet, _ | .delete .., _ | .issue _, _ | .authorize .., _ | .share, _ => trivial

theorem Writes.clients_shrink (hA : A.Settled) (h : Writes A db d) :
    Table.Shrinks (fun c c' => c'.binding = c.binding) db.clients d.clients :=
  Via.relates (R := fun s t : DB => Table.Shrinks (fun c c' => c'.binding = c.binding) s.clients t.clients)
    (fun _ => ⟨rfl, fun _ c hc => ⟨c, hc, rfl⟩⟩)
    (fun h k => h.trans (R := fun c c' : Client => c'.binding = c.binding) (fun hab hbc => hbc.trans hab) k)
    (fun hw hl => hw.clients_shrink (hA.label _ hl)) h

theorem Writes.memberships_shrink (hA : A.Settled) (h : Writes A db d) :
    Table.Shrinks (fun m m' => m'.user = m.user ∧ m'.organization = m.organization) db.memberships d.memberships :=
  Via.relates (R := fun s t : DB => Table.Shrinks
    (fun m m' : Membership => m'.user = m.user ∧ m'.organization = m.organization)
      s.memberships t.memberships)
    (fun _ => .refl (fun _ => ⟨rfl, rfl⟩) _)
    (fun h k => h.trans (fun hab hbc => ⟨hbc.1.trans hab.1, hbc.2.trans hab.2⟩) k)
    (fun hw hl => hw.memberships_shrink (hA.label _ hl)) h

theorem Licence.admits_mono {A B : Licence} (henroll : A.enroll → B.enroll)
    (hupgrade : ∀ m, A.upgrade m → B.upgrade m)
    (hissue : ∀ h, A.issue h → B.issue h) (hbind : ∀ before m, A.bind before m → B.bind before m)
    (hlogin : A.login → B.login) (hauthorize : ∀ c m, A.authorize c m → B.authorize c m)
    (hshare : A.share → B.share) : ∀ l, A.admits l → B.admits l
  | .quiet, _ => trivial
  | .enroll, h => henroll h
  | .delete .., h => ⟨h.1, h.2.1, fun m hm => hupgrade m (h.2.2 m hm)⟩
  | .issue _, h => fun x hx => hissue x (h x hx)
  | .bind _ _, h => hbind _ _ h
  | .login, h => hlogin h
  | .authorize _ _, h => hauthorize _ _ h
  | .share, h => hshare h

end

end Lok
