import Lok.HandedOut

/-!
# The admin cache

Each membership caches whether it holds a role named `admin`. A change of its roles, a rename
to or from `admin` and the deletion of an admin role recompute the flag of the memberships
they touch, and saving a membership writes every field but the flag, so the flag says who
holds `admin` after any sequence of such writes.
-/

namespace Lok

open Table Checks Runs

namespace DB

variable {db d : DB}

/-- The flag says who holds `admin`, but perhaps for the memberships `l`. -/
def CachedBut (db : DB) (l : List Pk) : Prop :=
  ∀ k m, db.memberships.row k = some m → k ∉ l → m.isAdmin = db.holdsAdmin m

abbrev Cached (db : DB) : Prop := db.CachedBut []

theorem Cached.but (h : db.Cached) (l : List Pk) : db.CachedBut l := fun k m hm _ => h k m hm (by simp)

theorem holdsAdmin_same {m m' : Membership} (h : ∀ r, d.IsAdmin r ∧ r ∈ m'.roles ↔ db.IsAdmin r ∧ r ∈ m.roles) :
    d.holdsAdmin m' = db.holdsAdmin m := by
  rw [Bool.eq_iff_iff, holdsAdmin_iff_isAdmin, holdsAdmin_iff_isAdmin]
  constructor
  · intro hm'
    obtain ⟨r, hr, hadmin⟩ := hm'
    obtain ⟨hadmin, hr⟩ := (h r).mp ⟨hadmin, hr⟩
    exact ⟨r, hr, hadmin⟩
  · intro hm
    obtain ⟨r, hr, hadmin⟩ := hm
    obtain ⟨hadmin, hr⟩ := (h r).mpr ⟨hadmin, hr⟩
    exact ⟨r, hr, hadmin⟩

/-! ## Recomputing, and what needs no recomputing -/

theorem CachedBut.syncAdmin {l : List Pk} (h : db.CachedBut l) : (db.syncAdmin l).Cached := by
  intro k m' hm' _
  obtain ⟨m, hm, rfl⟩ := update_row_eq_some.mp hm'
  by_cases hk : k ∈ l
  · rw [if_pos (by simpa using hk)]
    rfl
  · rw [if_neg (by simpa using hk)]
    exact h k m hm hk

def Untouched (m m' : Membership) : Prop := m'.isAdmin = m.isAdmin ∧ ∀ r, r ∈ m'.roles ↔ r ∈ m.roles

theorem Untouched.refl (m : Membership) : Untouched m m := ⟨rfl, fun _ => Iff.rfl⟩

theorem CachedBut.rewrite {l : List Pk} {t : Table Membership} (h : db.CachedBut l)
    (ht : Rewrites (fun k m m' => k ∉ l → Untouched m m') db.memberships t) :
    ({ db with memberships := t } : DB).CachedBut l := by
  intro k m' hm' hk
  obtain ⟨m, hm, hsame⟩ := ht.before hm'
  obtain ⟨hflag, hroles⟩ := hsame hk
  rw [hflag, h k m hm hk]
  exact holdsAdmin_same fun r => and_congr_right fun _ => (hroles r).symm

theorem Cached.modifyMembership {pk : Pk} {f : Membership → Membership} (h : db.Cached)
    (hf : ∀ m, Untouched m (f m)) :
    (db.modifyMembership pk f).Cached := by
  refine CachedBut.rewrite h (.update fun k m _ _ => ?_)
  split
  · exact hf m
  · exact .refl m

theorem Cached.modify_sync {pk : Pk} {f : Membership → Membership} (h : db.Cached) :
    ((db.modifyMembership pk f).syncAdmin [pk]).Cached := by
  refine CachedBut.syncAdmin (CachedBut.rewrite (h.but [pk]) (.update fun k m _ hk => ?_))
  rw [if_neg (by simpa using hk)]
  exact .refl m

theorem Cached.updateWhere_sync {pks : List Pk} {f : Membership → Membership} (h : db.Cached) :
    (({ db with memberships := db.memberships.updateWhere (fun pk _ => pks.contains pk) f } : DB).syncAdmin
      pks).Cached := by
  refine CachedBut.syncAdmin (CachedBut.rewrite (h.but pks) (.update fun k m _ hk => ?_))
  rw [if_neg (by simpa using hk)]
  exact .refl m

theorem Cached.givenByAnAdmin {pk : Pk} {roles : List Pk} (h : db.Cached) : (db.givenByAnAdmin pk roles).Cached :=
  h.modifyMembership fun m => .refl m

theorem Cached.takenByAnAdmin {pk : Pk} {roles : List Pk} (h : db.Cached) : (db.takenByAnAdmin pk roles).Cached :=
  h.modifyMembership fun m => .refl m

theorem Cached.syncMembership {pk : Pk} (h : db.Cached) : (db.syncMembership pk).Cached := by
  unfold DB.syncMembership
  split
  · exact h
  · extract_lets adminRoles defaultRoles administers wanted give take stale db₁
    split
    · rename_i hnone
      obtain ⟨hgive, htake⟩ : give = [] ∧ take = [] := by simpa using hnone
      refine h.modifyMembership fun m => ⟨rfl, fun r => ?_⟩
      simp [hgive, htake]
    · exact h.modify_sync

theorem Cached.syncServiceRoles {pks : List Pk} (h : db.Cached) : (db.syncServiceRoles pks).Cached :=
  foldl_invariant (P := fun d : DB => d.Cached) (fun _ _ _ hd => hd.syncMembership) h

/-! ## Changes of roles -/

theorem Cached.addRoles {membership : Pk} {roles : List Pk} (h : db.Cached)
    (hok : db.addRoles membership roles = .ok d) :
    d.Cached := by
  unfold DB.addRoles at hok
  split at hok
  · obtain rfl : db = d := by simpa using hok
    exact h
  · simp only [bind_ok, Table.get_ok, require_ok, exists_unit, pure_ok] at hok
    obtain ⟨m, -, -, -, rfl⟩ := hok
    have hadded : ((db.modifyMembership membership fun m => { m with roles := addPks m.roles roles }).syncAdmin
        [membership]).Cached := h.modify_sync
    exact hadded.givenByAnAdmin.syncServiceRoles

theorem Cached.removeRoles {membership : Pk} {roles : List Pk} (h : db.Cached) :
    (db.removeRoles membership roles).Cached := by
  unfold DB.removeRoles
  split
  · exact h
  · have hremoved : ((db.modifyMembership membership
      fun m => { m with roles := removePks m.roles roles }).syncAdmin
        [membership]).Cached := h.modify_sync
    exact hremoved.takenByAnAdmin.syncServiceRoles

theorem Cached.setRoles {membership : Pk} {roles : List Pk} (h : db.Cached)
    (hok : db.setRoles membership roles = .ok d) :
    d.Cached := by
  simp only [DB.setRoles, bind_ok, Table.get_ok] at hok
  obtain ⟨m, -, hok⟩ := hok
  exact h.removeRoles.addRoles hok

theorem Cached.clearRoles {membership : Pk} (h : db.Cached) : (db.clearRoles membership).Cached := by
  have hcleared : ((db.modifyMembership membership fun m => { m with roles := [] }).syncAdmin
    [membership]).Cached :=
    h.modify_sync
  exact hcleared.takenByAnAdmin.syncServiceRoles

theorem Cached.addMemberships {role : Pk} {pks : List Pk} (h : db.Cached)
    (hok : db.addMemberships role pks = .ok d) :
    d.Cached := by
  simp only [DB.addMemberships, bind_ok, Table.get_ok, require_ok, exists_unit, pure_ok] at hok
  obtain ⟨x, -, -, rfl⟩ := hok
  exact (foldl_invariant (P := fun d : DB => d.Cached) (fun _ _ _ hd => hd.givenByAnAdmin)
    h.updateWhere_sync).syncServiceRoles

theorem Cached.dropRole_sync {role : Pk} {pks : List Pk} (h : db.Cached) :
    ((db.dropRole role pks).syncAdmin pks).Cached :=
  h.updateWhere_sync

theorem Cached.removeMemberships {role : Pk} {pks : List Pk} (h : db.Cached) :
    (db.removeMemberships role pks).Cached :=
  (foldl_invariant (P := fun d : DB => d.Cached) (fun _ _ _ hd => hd.takenByAnAdmin)
    h.dropRole_sync).syncServiceRoles

theorem Cached.setMemberships {role : Pk} {pks : List Pk} (h : db.Cached)
    (hok : db.setMemberships role pks = .ok d) :
    d.Cached := by
  unfold DB.setMemberships at hok
  exact h.removeMemberships.addMemberships hok

theorem Cached.clearMemberships {role : Pk} (h : db.Cached) : (db.clearMemberships role).Cached := h.dropRole_sync

/-! ## Renaming and deleting roles -/

theorem Cached.renameRole {role : Pk} {identifier : String} (h : db.Cached)
    (hok : db.renameRole role identifier = .ok d) :
    d.Cached := by
  obtain ⟨x, l, hx, rfl, hl⟩ := renameRole_ok hok
  refine CachedBut.syncAdmin fun k m hm hk => ?_
  have hm : db.memberships.row k = some m := hm
  rw [h k m hm (by simp)]
  refine (holdsAdmin_same fun r => and_congr_left fun hr => ?_).symm
  unfold IsAdmin
  show (∃ y, (db.roles.modify role _).row r = some y ∧ _) ↔ _
  rw [modify_row]
  by_cases hrole : r = role
  · subst hrole
    rcases hl with hsame | rfl
    · -- neither name is `admin`, or both are
      have hsame : x.identifier = adminRole ↔ identifier = adminRole := by
        simpa [beq_eq_beq] using hsame
      simp [hx, hsame]
    · exact absurd (mem_pks.mpr ⟨m, hm, by simpa using hr⟩) hk
  · rw [if_neg hrole]

theorem CachedBut.removeCascade {l : List Pk} {roots : List Ref} (h : db.CachedBut l)
    (hstays : ∀ k m, db.memberships.row k = some m → k ∉ l →
      ∀ r ∈ m.roles, db.IsAdmin r → ⟨.role, r⟩ ∉ db.collect roots) :
    (db.removeCascade roots).CachedBut l := by
  intro k m' hm' hk
  obtain ⟨m, hm, rfl⟩ := update_row_eq_some.mp hm'
  have hm := (keep_row_eq_some.mp hm).1
  show m.isAdmin = _
  rw [h k m hm hk]
  refine (holdsAdmin_same fun r => ?_).symm
  constructor
  · intro hr
    obtain ⟨⟨x', hx', hname⟩, hr⟩ := hr
    obtain ⟨x, hx, rfl⟩ := update_row_eq_some.mp hx'
    exact ⟨⟨x, (keep_row_eq_some.mp hx).1, hname⟩, (mem_keepList.mp hr).1⟩
  · intro hr
    obtain ⟨⟨x, hx, hname⟩, hr⟩ := hr
    have hkept := hstays k m hm hk r hr ⟨x, hx, hname⟩
    refine ⟨⟨_, update_row_eq_some.mpr ⟨x, keep_row_eq_some.mpr ⟨hx, by simpa [keeps] using hkept⟩, rfl⟩, hname⟩,
      ?_⟩
    exact mem_keepList.mpr ⟨hr, hkept⟩

theorem Cached.removeCascade {S : List Model} {roots : List Ref} (h : db.Cached) (hS : Within S)
    (hroots : ∀ r ∈ roots, r.model ∈ S) (hrole : Model.role ∉ S) : (db.removeCascade roots).Cached :=
  CachedBut.removeCascade h fun _ _ _ _ _ _ _ hgone => hrole (collect_within hS hroots hgone)

theorem Cached.delete {origin : Model} {roots : List Ref} {upgrading : Option Pk} (h : db.Cached) :
    (db.delete origin roots upgrading).Cached := by
  refine delete_induct_sync (P := fun d : DB => d.Cached) (fun d m hd => ?_) (fun d c hd => ?_) ?_
  · exact hd.removeCascade withMemberships_within (by simp [withMemberships]) (by simp [withMemberships])
  · exact hd.removeCascade withClients_within (by simp [withClients]) (by simp [withClients])
  · refine CachedBut.syncAdmin (CachedBut.removeCascade (h.but _) fun k m hm hk r hr hadmin hgone => hk ?_)
    obtain ⟨x, hx, hname⟩ := hadmin
    refine mem_pks.mpr ⟨m, hm, List.any_eq_true.mpr ⟨r, hr, ?_⟩⟩
    simp only [List.contains_eq_mem, decide_eq_true_eq]
    exact mem_pks.mpr ⟨x, hx, by simp [hgone, hname]⟩

/-! ## Saving a membership -/

/-- `Membership.save` of an object loaded at any time: every field is written but the flag. -/
def saveMembership (db : DB) (pk : Pk) (loaded : Membership) : Answer DB := do
  let _ ← db.memberships.get pk
  let _ ← db.users.get loaded.user
  let _ ← db.organizations.get loaded.organization
  assert (loaded.createdThrough.all fun i => (db.invites.row i).isSome) .integrityError
    "violates foreign key constraint"
  assert (!db.memberships.exists?
    fun k m => k != pk && m.user == loaded.user && m.organization == loaded.organization)
    .integrityError "unique_together (user, organization)"
  return db.modifyMembership pk fun m =>
    { m with user := loaded.user, organization := loaded.organization, createdThrough := loaded.createdThrough }

theorem Cached.saveMembership {pk : Pk} {loaded : Membership} (h : db.Cached)
    (hok : db.saveMembership pk loaded = .ok d) :
    d.Cached := by
  simp only [DB.saveMembership, bind_ok, Table.get_ok, require_ok, exists_unit, pure_ok] at hok
  obtain ⟨_, -, _, -, _, -, -, -, rfl⟩ := hok
  exact h.modifyMembership fun m => .refl m

end DB

/-! ## Any sequence of writes -/

inductive AdminWrite
  | addRoles (membership : Pk) (roles : List Pk)
  | removeRoles (membership : Pk) (roles : List Pk)
  | setRoles (membership : Pk) (roles : List Pk)
  | clearRoles (membership : Pk)
  | addMemberships (role : Pk) (memberships : List Pk)
  | removeMemberships (role : Pk) (memberships : List Pk)
  | setMemberships (role : Pk) (memberships : List Pk)
  | clearMemberships (role : Pk)
  | renameRole (role : Pk) (identifier : String)
  | delete (model : Model) (pks : List Pk)
  | saveMembership (membership : Pk) (loaded : Membership)

def AdminWrite.apply (db : DB) : AdminWrite → DB
  | .addRoles membership roles => db.settle (db.addRoles membership roles)
  | .removeRoles membership roles => db.removeRoles membership roles
  | .setRoles membership roles => db.settle (db.setRoles membership roles)
  | .clearRoles membership => db.clearRoles membership
  | .addMemberships role memberships => db.settle (db.addMemberships role memberships)
  | .removeMemberships role memberships => db.removeMemberships role memberships
  | .setMemberships role memberships => db.settle (db.setMemberships role memberships)
  | .clearMemberships role => db.clearMemberships role
  | .renameRole role identifier => db.settle (db.renameRole role identifier)
  | .delete model pks => db.delete model (pks.map (⟨model, ·⟩)) none
  | .saveMembership membership loaded => db.settle (db.saveMembership membership loaded)

theorem DB.Cached.settle {db : DB} {x : Answer DB} (h : db.Cached) (hx : ∀ d, x = .ok d → d.Cached) :
    (db.settle x).Cached := by
  unfold DB.settle
  split
  · exact hx _ rfl
  · exact h

theorem AdminWrite.cached {db : DB} (h : db.Cached) (w : AdminWrite) : (w.apply db).Cached := by
  cases w with
  | addRoles => exact h.settle fun d hd => h.addRoles hd
  | removeRoles => exact h.removeRoles
  | setRoles => exact h.settle fun d hd => h.setRoles hd
  | clearRoles => exact h.clearRoles
  | addMemberships => exact h.settle fun d hd => h.addMemberships hd
  | removeMemberships => exact h.removeMemberships
  | setMemberships => exact h.settle fun d hd => h.setMemberships hd
  | clearMemberships => exact h.clearMemberships
  | renameRole => exact h.settle fun d hd => h.renameRole hd
  | delete => exact h.delete
  | saveMembership => exact h.settle fun d hd => h.saveMembership hd

/-- After any sequence of writes, a membership is flagged an admin iff it holds a role named `admin`. -/
theorem admin_cache_is_admin_role {db : DB} (h : db.Cached) (ws : List AdminWrite) {k : Pk} {m : Membership}
    (hm : (ws.foldl AdminWrite.apply db).memberships.row k = some m) :
    m.isAdmin = true ↔ ∃ r ∈ m.roles, ∃ x, (ws.foldl AdminWrite.apply db).roles.row r = some x
    ∧ x.identifier = "admin" := by
  have hcached : (ws.foldl AdminWrite.apply db).Cached :=
    foldl_invariant (P := fun d : DB => d.Cached) (fun w _ _ hd => w.cached hd) h
  rw [hcached k m hm (by simp)]
  exact DB.holdsAdmin_iff_isAdmin

/-- Bob is made an admin, is saved as he was loaded before, and the role is renamed: he is no admin any more. -/
theorem admin_cache_is_admin_role_renamed :
    ∃ m, ([.addRoles 1 [0], .saveMembership 1 ⟨1, 0, [], false, none, [], []⟩,
      .renameRole 0 "lead"].foldl AdminWrite.apply
        (run plainEnv .empty bobsMembership)).memberships.row 1 = some m ∧ (m.isAdmin = true ↔
      ∃ r ∈ m.roles, ∃ x, ([.addRoles 1 [0], .saveMembership 1 ⟨1, 0, [], false, none, [], []⟩,
        .renameRole 0 "lead"].foldl
        AdminWrite.apply (run plainEnv .empty bobsMembership)).roles.row r = some x ∧ x.identifier = "admin") := by
  have hstart : (run plainEnv .empty bobsMembership).Cached := by
    have hflags : ∀ k m, (run plainEnv .empty bobsMembership).memberships.row k = some m →
        m.isAdmin = (run plainEnv .empty bobsMembership).holdsAdmin m := by
      simp only [forall_row_iff]
      decide +kernel
    exact fun k m hm _ => hflags k m hm
  have hrow : (([.addRoles 1 [0], .saveMembership 1 ⟨1, 0, [], false, none, [], []⟩,
    .renameRole 0 "lead"].foldl AdminWrite.apply
      (run plainEnv .empty bobsMembership)).memberships.row 1).isSome = true := by decide +kernel
  obtain ⟨m, hm⟩ := Option.isSome_iff_exists.mp hrow
  exact ⟨m, hm, admin_cache_is_admin_role hstart _ hm⟩

end Lok
