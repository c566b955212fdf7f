import Lok.Writes

/-!
# Writes of the role functions

Changing roles is a sequence of quiet writes: roles come only to full members, and the
admin flag is recomputed in the write that takes roles away.
-/

namespace Lok

open Table Runs Checks

theorem Writes.quiet {A : Licence} {db d : DB} (h : Write db .quiet d) : Writes A db d := Via.single h trivial

theorem Writes.delete {A : Licence} {db : DB} {origin : Model} {roots : List Ref}
    (h : origin ∈ routineOrigins := by decide) (hroots : ∀ r ∈ roots, r.model = origin := by simp) :
    Writes A db (db.delete origin roots none) :=
  Via.single (.delete _ _ _) ⟨h, hroots, by simp⟩

namespace DB

variable {A : Licence} {db : DB}

@[simp] theorem mem_addPks {l new : List Pk} {pk : Pk} : pk ∈ addPks l new ↔ pk ∈ l ∨ pk ∈ new := by
  by_cases h : pk ∈ l <;> simp [addPks, h]

@[simp] theorem mem_removePks {l gone : List Pk} {pk : Pk} : pk ∈ removePks l gone ↔ pk ∈ l ∧ pk ∉ gone := by
  simp [removePks]

theorem Regrade.refl (db : DB) (pk : Pk) (m : Membership) : Regrade db pk m m :=
  ⟨rfl, rfl, .inl fun _ h => h, fun h => .inr ⟨h, fun _ hr => hr⟩⟩

/-! ## Single changes -/

theorem syncAdmin_writes (memberships : List Pk) : Writes A db (db.syncAdmin memberships) := by
  refine Writes.quiet (.memberships (.update fun pk m _ => ?_))
  split
  · exact ⟨rfl, rfl, .inl fun _ h => h, fun h => .inl h⟩
  · exact Regrade.refl db pk m

theorem modifyMembership_writes {pk : Pk} {f : Membership → Membership}
    (hf : ∀ m, (f m).user = m.user ∧ (f m).organization = m.organization ∧ (f m).roles = m.roles
      ∧ (f m).isAdmin = m.isAdmin) :
    Writes A db (db.modifyMembership pk f) := by
  refine Writes.quiet (.memberships (.modify (Regrade.refl db) fun m _ => ?_))
  obtain ⟨hu, ho, hr, ha⟩ := hf m
  exact ⟨hu, ho, .inl (by simp [hr]), fun h => .inr ⟨ha ▸ h, by simp [hr]⟩⟩

theorem strip_writes {memberships : List Pk} {t : Table Membership}
    (h : Rewrites (fun pk m m' => m' = m ∨ pk ∈ memberships ∧ m'.user = m.user ∧ m'.organization = m.organization
      ∧ ∀ r ∈ m'.roles, r ∈ m.roles) db.memberships t) :
    Writes A db (({ db with memberships := t } : DB).syncAdmin memberships) := by
  have hsync : Rewrites (fun pk m m' => m' = if memberships.contains pk then
    { m with isAdmin := db.holdsAdmin m } else m)
      t (t.update fun pk m => if memberships.contains pk then { m with isAdmin := db.holdsAdmin m } else m) :=
    .update fun _ _ _ => rfl
  refine Writes.quiet (.memberships ((h.comp hsync).mono ?_))
  rintro pk m _ ⟨m', hm', rfl⟩
  rcases hm' with rfl | ⟨hpk, hu, ho, hr⟩
  · split
    · exact ⟨rfl, rfl, .inl fun _ h => h, fun h => .inl h⟩
    · exact Regrade.refl db pk m'
  · rw [if_pos (by simpa using hpk)]
    exact ⟨hu, ho, .inl hr, fun h => .inl h⟩

theorem givenByAnAdmin_writes (membership : Pk) (roles : List Pk) :
    Writes A db (db.givenByAnAdmin membership roles) :=
  modifyMembership_writes fun _ => ⟨rfl, rfl, rfl, rfl⟩

theorem takenByAnAdmin_writes (membership : Pk) (roles : List Pk) :
    Writes A db (db.takenByAnAdmin membership roles) :=
  modifyMembership_writes fun _ => ⟨rfl, rfl, rfl, rfl⟩

/-! ## Service roles -/

theorem syncMembership_eq (db : DB) (pk : Pk) : ∃ t, db.syncMembership pk = { db with memberships := t } := by
  unfold syncMembership
  split
  · exact ⟨_, rfl⟩
  · extract_lets
    split <;> exact ⟨_, rfl⟩

theorem syncMembership_writes {pk : Pk} (h : db.hasGrants pk = false) : Writes A db (db.syncMembership pk) := by
  unfold syncMembership
  split
  · exact .refl db
  · rename_i m hm
    extract_lets adminRoles defaultRoles administers wanted give take stale db₁
    split
    · rename_i hnone
      obtain ⟨hgive, htake⟩ : give = [] ∧ take = [] := by simpa using hnone
      refine modifyMembership_writes fun m => ⟨rfl, rfl, ?_, rfl⟩
      simp [hgive, htake, addPks, removePks]
    · have hsync : Rewrites (fun k m m' => m' = if [pk].contains k then { m with isAdmin := db.holdsAdmin m } else
        m)
          db₁.memberships (db₁.memberships.update
            fun k m => if [pk].contains k then { m with isAdmin := db.holdsAdmin m } else m) :=
        .update fun _ _ _ => rfl
      have hmodify : Rewrites (fun k m m' => m' = m ∨ k = pk ∧ m'.user = m.user ∧ m'.organization = m.organization)
          db.memberships db₁.memberships := .update fun k m _ => by
        dsimp only
        split
        · exact .inr ⟨‹_›, rfl, rfl⟩
        · exact .inl rfl
      refine Writes.quiet (.memberships ((hmodify.comp hsync).mono ?_))
      rintro k m _ ⟨m', hm', rfl⟩
      rcases hm' with rfl | ⟨rfl, hu, ho⟩
      · split
        · exact ⟨rfl, rfl, .inl fun _ h => h, fun h => .inl h⟩
        · exact Regrade.refl db k m'
      · rw [if_pos (by simp)]
        exact ⟨hu, ho, .inr h, fun h => .inl h⟩

theorem syncServiceRoles_eq (db : DB) (memberships : List Pk) :
    ∃ t, db.syncServiceRoles memberships = { db with memberships := t } := by
  refine foldl_invariant (P := fun d : DB => ∃ t, d = { db with memberships := t }) ?_ ⟨_, rfl⟩
  rintro pk - _ ⟨t, rfl⟩
  exact syncMembership_eq _ pk

theorem syncServiceRoles_writes (memberships : List Pk) : Writes A db (db.syncServiceRoles memberships) := by
  refine Via.foldl_of (I := fun d => ∃ t, d = { db with memberships := t }) ?_ ⟨_, rfl⟩
  rintro pk hpk _ ⟨t, rfl⟩
  have hfree : db.hasGrants pk = false := by simpa [isScoped] using (List.mem_filter.mp hpk).2
  exact ⟨syncMembership_writes hfree, syncMembership_eq _ pk⟩

theorem syncOrganization_writes (organization : Pk) : Writes A db (db.syncOrganization organization) :=
  syncServiceRoles_writes _

/-! ## From the membership's side -/

theorem addRoles_writes {membership : Pk} {roles : List Pk} {d : DB} (h : db.addRoles membership roles = .ok d) :
    Writes A db d := by
  unfold addRoles at h
  split at h
  · obtain rfl : db = d := by simpa using h
    exact .refl db
  · simp only [bind_ok, Table.get_ok, require_ok, exists_unit, pure_ok, Bool.not_eq_true'] at h
    obtain ⟨m, hm, hfree, -, rfl⟩ := h
    refine .trans ?_ ((syncAdmin_writes _).trans ((givenByAnAdmin_writes _ _).trans (syncServiceRoles_writes _)))
    refine Writes.quiet (.memberships (.update fun k m _ => ?_))
    split
    · rename_i hk
      subst hk
      exact ⟨rfl, rfl, .inr hfree, fun h => .inr ⟨h, fun r hr => mem_addPks.mpr (.inl hr)⟩⟩
    · exact Regrade.refl db k m

theorem removeRoles_writes (membership : Pk) (roles : List Pk) :
    Writes A db (db.removeRoles membership roles) := by
  unfold removeRoles
  split
  · exact .refl db
  · refine .trans (strip_writes (.update fun k m _ => ?_))
      ((takenByAnAdmin_writes _ _).trans (syncServiceRoles_writes _))
    split
    · rename_i hk
      exact .inr ⟨by simp [hk], rfl, rfl, fun r hr => (mem_removePks.mp hr).1⟩
    · exact .inl rfl

theorem setRoles_writes {membership : Pk} {roles : List Pk} {d : DB} (h : db.setRoles membership roles = .ok d) :
    Writes A db d := by
  simp only [setRoles, bind_ok, Table.get_ok] at h
  obtain ⟨m, hm, h⟩ := h
  exact (removeRoles_writes _ _).trans (addRoles_writes h)

theorem clearRoles_writes (membership : Pk) : Writes A db (db.clearRoles membership) := by
  refine .trans (strip_writes (.update fun k m _ => ?_))
    ((takenByAnAdmin_writes _ _).trans (syncServiceRoles_writes _))
  split
  · rename_i hk
    exact .inr ⟨by simp [hk], rfl, rfl, by simp⟩
  · exact .inl rfl

/-! ## From the role's side -/

theorem dropRole_writes (role : Pk) (memberships : List Pk) :
    Writes A db ((db.dropRole role memberships).syncAdmin memberships) := by
  refine strip_writes (.update fun k m _ => ?_)
  split
  · rename_i hk
    exact .inr ⟨by simpa using hk, rfl, rfl, fun r hr => (mem_removePks.mp hr).1⟩
  · exact .inl rfl

theorem addMemberships_writes {role : Pk} {memberships : List Pk} {d : DB}
    (h : db.addMemberships role memberships = .ok d) : Writes A db d := by
  simp only [addMemberships, bind_ok, require_ok, exists_unit, pure_ok, List.all_eq_true, Bool.not_eq_true'] at h
  obtain ⟨_, -, hfree, rfl⟩ := h
  refine .trans ?_ ((syncAdmin_writes _).trans ((Via.foldl fun _ _ _ => givenByAnAdmin_writes _ _).trans
    (syncServiceRoles_writes _)))
  refine Writes.quiet (.memberships (.update fun k m _ => ?_))
  split
  · rename_i hk
    exact ⟨rfl, rfl, .inr (hfree k (by simpa using hk)), fun h => .inr ⟨h, fun r hr => mem_addPks.mpr (.inl hr)⟩⟩
  · exact Regrade.refl db k m

theorem removeMemberships_writes (role : Pk) (memberships : List Pk) :
    Writes A db (db.removeMemberships role memberships) :=
  (dropRole_writes role memberships).trans ((Via.foldl fun _ _ _ => takenByAnAdmin_writes _ _).trans
    (syncServiceRoles_writes _))

theorem clearMemberships_writes (role : Pk) : Writes A db (db.clearMemberships role) := dropRole_writes role _

theorem renameRole_writes {role : Pk} {identifier : String} {d : DB} (h : db.renameRole role identifier = .ok d) :
    Writes A db d :=
  Writes.quiet (.renameRole h)

end DB

end Lok
