import Lok.ClientWrites
import Lok.System

/-!
# The access lists of instances

The four lists of an instance are its access list, but the lookup asks the deny lists and the
groups only of an instance that names its users. An instance without them is open to all, so
what the lookup hands out is permitted when no such instance comes before a permitted one.
-/

namespace Lok

open Table Checks

namespace DB

/-- What the four lists of an instance say of a user. -/
def permits (i : ServiceInstance) (user : Pk) (groups : List String) : Bool :=
  !i.deniedUsers.contains user && !groups.any i.deniedGroups.contains
    && (i.allowedUsers.isEmpty || i.allowedUsers.contains user)
    && (i.allowedGroups.isEmpty || groups.any i.allowedGroups.contains)

theorem admits_of_permits {i : ServiceInstance} {user : Pk} {groups : List String}
    (h : permits i user groups = true) :
    admits i user groups = true := by
  simp only [permits, Bool.and_eq_true, Bool.or_eq_true] at h
  obtain ⟨⟨⟨hdenied, hdeniedGroups⟩, hallowed⟩, hgroups⟩ := h
  simp only [admits, Bool.and_eq_true, Bool.or_eq_true]
  rcases hallowed with hopen | hallowed
  · exact .inl hopen
  · exact .inr ⟨⟨⟨hallowed, .inr hdenied⟩, hgroups⟩, .inr hdeniedGroups⟩

theorem permits_of_admits {i : ServiceInstance} {user : Pk} {groups : List String}
    (h : admits i user groups = true)
    (hnamed : i.allowedUsers.isEmpty = false) : permits i user groups = true := by
  simp only [admits, hnamed, Bool.false_or, Bool.and_eq_true, Bool.or_eq_true] at h
  obtain ⟨⟨⟨hallowed, hdenied⟩, hgroups⟩, hdeniedGroups⟩ := h
  have hdenied' : (!i.deniedUsers.contains user) = true := by
    rcases hdenied with hnone | hdenied
    · simp [List.isEmpty_iff.mp hnone]
    · exact hdenied
  have hdeniedGroups' : (!groups.any i.deniedGroups.contains) = true := by
    rcases hdeniedGroups with hnone | hdenied
    · simp [List.isEmpty_iff.mp hnone]
    · exact hdenied
  simp only [permits, Bool.and_eq_true, Bool.or_eq_true]
  exact ⟨⟨⟨hdenied', hdeniedGroups'⟩, .inr hallowed⟩, hgroups⟩

variable {db : DB} {service : String} {user : Pk} {hub : Option Pk}

def groupsOf (db : DB) (user : Pk) : List String := (db.users.row user).elim [] (·.groups)

/-- An instance of the service on the hub. -/
def Serves (db : DB) (service : String) (hub : Option Pk) (pk : Pk) (i : ServiceInstance) : Prop :=
  db.instances.row pk = some i ∧ i.service = service ∧ some i.hub = hub

/-- An instance of the service on the hub whose lists permit the user. -/
def Permitted (db : DB) (service : String) (user : Pk) (hub : Option Pk) (pk : Pk) : Prop :=
  ∃ i, db.Serves service hub pk i ∧ permits i user (db.groupsOf user) = true

/-- The lookup hands out only instances that permit the user, and one of them if there is any. -/
def AclEnforced (db : DB) (service : String) (user : Pk) (hub : Option Pk) : Prop :=
  (∀ pk, db.findInstance service user hub = some pk → db.Permitted service user hub pk) ∧
    ((∃ pk, db.Permitted service user hub pk) → ∃ pk, db.findInstance service user hub = some pk)

/-- An instance that names no users but whose other lists refuse this one comes after one that permits them. -/
def RefusalsLast (db : DB) (service : String) (user : Pk) (hub : Option Pk) : Prop :=
  ∀ pk i, db.Serves service hub pk i → i.allowedUsers.isEmpty = true → permits i user (db.groupsOf user) = false →
    ∃ k < pk, db.Permitted service user hub k

theorem findInstance_eq_some {pk : Pk} : db.findInstance service user hub = some pk ↔
    (∃ i, db.Serves service hub pk i ∧ admits i user (db.groupsOf user) = true) ∧
      ∀ k i, db.Serves service hub k i → admits i user (db.groupsOf user) = true → pk ≤ k := by
  have hcond : ∀ i : ServiceInstance,
      (i.service == service && some i.hub == hub && admits i user (db.groupsOf user)) = true ↔
        (i.service = service ∧ some i.hub = hub) ∧ admits i user (db.groupsOf user) = true := by
    intro i
    simp only [Bool.and_eq_true, beq_iff_eq]
  simp only [findInstance, Option.map_eq_some_iff, Prod.exists]
  constructor
  · intro h
    obtain ⟨_, i, hfirst, rfl⟩ := h
    obtain ⟨hrow, hp⟩ := first_eq_some hfirst
    obtain ⟨⟨hservice, hhub⟩, hadmits⟩ := (hcond i).mp hp
    refine ⟨⟨i, ⟨hrow, hservice, hhub⟩, hadmits⟩, ?_⟩
    intro k j hj hja
    exact first_le hfirst hj.1 ((hcond j).mpr ⟨hj.2, hja⟩)
  · intro h
    obtain ⟨⟨i, hi, hadmits⟩, hleast⟩ := h
    refine ⟨pk, i, first_of_least hi.1 ((hcond i).mpr ⟨hi.2, hadmits⟩) ?_, rfl⟩
    intro k j hj hp
    obtain ⟨hserves, hja⟩ := (hcond j).mp hp
    exact hleast k j ⟨hj, hserves⟩ hja

theorem findInstance_isSome {pk : Pk} {i : ServiceInstance} (hi : db.Serves service hub pk i)
    (ha : admits i user (db.groupsOf user) = true) : ∃ k, db.findInstance service user hub = some k := by
  obtain ⟨k, j, hfirst⟩ := first_isSome (p := fun _ i => i.service == service && some i.hub == hub
    && admits i user (db.groupsOf user)) hi.1 (by simp [hi.2.1, hi.2.2, ha])
  exact ⟨k, by simpa [findInstance, groupsOf] using ⟨j, hfirst⟩⟩

theorem Permitted.found {pk : Pk} (h : db.Permitted service user hub pk) :
    ∃ k, db.findInstance service user hub = some k := by
  obtain ⟨i, hi, hpermits⟩ := h
  exact findInstance_isSome hi (admits_of_permits hpermits)

/-- The lists are enforced exactly when no instance without named users refuses the user ahead of all that
permit them. -/
theorem aclEnforced_iff (db : DB) (service : String) (user : Pk) (hub : Option Pk) :
    db.AclEnforced service user hub ↔ db.RefusalsLast service user hub := by
  constructor
  · intro h pk i hi hopen hrefused
    have hadmits : admits i user (db.groupsOf user) = true := by simp [admits, hopen]
    obtain ⟨k, hk⟩ := findInstance_isSome hi hadmits
    have hpermitted := h.1 k hk
    refine ⟨k, Nat.lt_of_le_of_ne ((findInstance_eq_some.mp hk).2 pk i hi hadmits) ?_, hpermitted⟩
    intro heq
    subst heq
    obtain ⟨j, hj, hpermits⟩ := hpermitted
    obtain rfl : i = j := by simpa [hi.1] using hj.1
    rw [hrefused] at hpermits
    cases hpermits
  · intro h
    refine ⟨?_, ?_⟩
    · intro pk hpk
      obtain ⟨⟨i, hi, hadmits⟩, hleast⟩ := findInstance_eq_some.mp hpk
      refine ⟨i, hi, ?_⟩
      by_cases hopen : i.allowedUsers.isEmpty = true
      · -- a permitted instance before this one would have been found first
        by_contra hrefused
        obtain ⟨k, hlt, j, hj, hpermits⟩ := h pk i hi hopen (by simpa using hrefused)
        have hle : pk ≤ k := hleast k j hj (admits_of_permits hpermits)
        exact absurd hlt (Nat.not_lt.mpr hle)
      · exact permits_of_admits hadmits (by simpa using hopen)
    · intro hsome
      obtain ⟨pk, hpk⟩ := hsome
      exact hpk.found

/-- Ann is denied the one instance of `data`, which names no users, and still gets it. -/
theorem denied_user_composed :
    let db := run plainEnv .empty (plainSetup [] ++ [.updateServiceInstance 0 [] [0] [] []])
    ¬ db.AclEnforced "data" 0 (some 0) := by
  intro db h
  have hfound : db.findInstance "data" 0 (some 0) = some 0 := by decide +kernel
  have hdenied : (db.instances.row 0).all (fun i => !permits i 0 (db.groupsOf 0)) = true := by decide +kernel
  obtain ⟨i, hi, hpermits⟩ := h.1 0 hfound
  rw [hi.1] at hdenied
  simp [hpermits] at hdenied

end DB

end Lok
