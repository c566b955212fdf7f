import Lok.RoleRuns

/-!
# Who stays entitled

A sync takes a role back that lok gave only from a member who is not entitled to it any more.
Giving roles, new members and owners, and roles that go leave everybody entitled to what is
left of what they were entitled to; a declaration can change what a role is handed out by.
-/

namespace Lok

open Table Checks Registry

namespace DB

variable {db d e : DB} {given : List (Pk × Pk)} {gone : Pk → Prop} {behind : Pk → Membership → Prop}
  {membership organization role : Pk}
  {roles pks : List Pk}

/-- Members are still there, the full ones still full, and entitled to what they were entitled to but the
roles `gone`. -/
structure StillEntitled (gone : Pk → Prop) (db d : DB) : Prop where
  full : ∀ k, db.isScoped k = false → d.isScoped k = false
  entitled : ∀ k m, db.memberships.row k = some m → ∃ m', d.memberships.row k = some m' ∧
    ∀ r, db.Entitled m r → ¬ gone r → d.Entitled m' r

theorem StillEntitled.refl (gone : Pk → Prop) (db : DB) : StillEntitled gone db db :=
  ⟨fun _ h => h, fun _ m hm => ⟨m, hm, fun _ hr _ => hr⟩⟩

theorem StillEntitled.trans (h : StillEntitled gone db d) (k : StillEntitled gone d e) :
    StillEntitled gone db e := by
  refine ⟨fun j hj => k.full j (h.full j hj), fun j m hm => ?_⟩
  obtain ⟨m₁, hm₁, hfirst⟩ := h.entitled j m hm
  obtain ⟨m₂, hm₂, hsecond⟩ := k.entitled j m₁ hm₁
  exact ⟨m₂, hm₂, fun r hr hstays => hsecond r (hfirst r hr hstays) hstays⟩

theorem StillEntitled.same (hrules : SameRules db d) (hmemberships : d.memberships = db.memberships) :
    StillEntitled gone db d :=
  ⟨fun k hk => (hrules.isScoped k).trans hk, fun _ m hm => ⟨m, by rw [hmemberships, hm], fun r hr _ =>
    (hrules.entitled rfl rfl (hrules.administers rfl rfl fun _ _ => .rfl) r).mpr hr⟩⟩

theorem StillEntitled.of_rules (hrules : SameRules db d) {came : Pk → Pk → Prop}
    (h : Rewrites (fun k => Reassigned db (fun _ => False) (came k)) db.memberships d.memberships) :
    StillEntitled gone db d := by
  refine ⟨fun k hk => (hrules.isScoped k).trans hk, fun k m hm => ?_⟩
  obtain ⟨m', hm', hreassigned⟩ := h.after hm
  exact ⟨m', hm', fun r hr _ => hreassigned.entitled (n := m) hrules rfl rfl rfl (fun _ hr => ⟨.inl hr, id⟩) hr id⟩

/-! ## Giving roles -/

theorem sync_rules (db : DB) (t : Table Membership) (pks : List Pk) :
    SameRules db (({ db with memberships := t } : DB).syncServiceRoles pks) := by
  have h := syncServiceRoles_rules ({ db with memberships := t } : DB) pks
  exact ⟨h.roles, h.organizations, h.grants⟩

theorem InOrderBut.given_still {came : Pk → Pk → Prop} {t : Table Membership} (h : db.InOrderBut behind given)
    (ht : Changes pks (fun _ _ => False) came db.memberships t) :
    StillEntitled gone db (({ db with memberships := t } : DB).syncServiceRoles pks) :=
  .of_rules (sync_rules db t pks) (by simpa using h.reassigned ht :
    Rewrites (fun k => Reassigned db (fun _ => False) fun r => k ∈ pks ∧ came k r) db.memberships _)

theorem InOrderBut.sync_still (h : db.InOrderBut behind given) (pks : List Pk) :
    StillEntitled gone db (db.syncServiceRoles pks) := by
  have hrows : Rewrites (fun _ => Unassigned db) db.memberships (db.syncServiceRoles pks).memberships :=
    (syncServiceRoles_unassigned h.apart pks).mono_of_row fun k m m' hm hunassigned => hunassigned fun r hr =>
      not_isAdmin (h.automatic k m hm r hr)
  exact .of_rules (syncServiceRoles_rules db pks) hrows

theorem addRoles_rules (hok : db.addRoles membership roles = .ok d) : SameRules db d := by
  rcases addRoles_change hok with ⟨-, rfl⟩ | ⟨m, t, -, -, -, rfl⟩
  · exact ⟨rfl, rfl, rfl⟩
  · exact sync_rules db t [membership]

theorem InOrderBut.addRoles_reassigned (h : db.InOrderBut behind given)
    (hok : db.addRoles membership roles = .ok d) :
    Rewrites (fun k => Reassigned db (fun _ => False) fun r => k = membership ∧ r ∈ roles) db.memberships
    d.memberships := by
  rcases addRoles_change hok with ⟨rfl, rfl⟩ | ⟨m, t, -, -, ht, rfl⟩
  · exact .refl (fun _ _ => ⟨rfl, rfl, fun r _ => by simp, fun _ => .inl⟩) _
  · simpa using h.reassigned ht

theorem InOrderBut.addRoles_still (h : db.InOrderBut behind given) (hok : db.addRoles membership roles = .ok d) :
    StillEntitled gone db d :=
  .of_rules (addRoles_rules hok) (h.addRoles_reassigned hok)

theorem InOrderBut.addMemberships_still (h : db.InOrderBut behind given)
    (hok : db.addMemberships role pks = .ok d) :
    StillEntitled gone db d := by
  obtain ⟨x, t, -, ht, rfl⟩ := addMemberships_change hok
  exact h.given_still ht

/-! ## Taking roles -/

def Due (db : DB) (p : Pk × Pk) : Prop :=
  ∃ m, db.memberships.row p.1 = some m ∧ db.isScoped p.1 = false ∧ db.Entitled m p.2

theorem StillEntitled.due {p : Pk × Pk} (h : StillEntitled gone db d) (hp : db.Due p) (hstays : ¬ gone p.2) :
    d.Due p := by
  obtain ⟨m, hm, hfull, hr⟩ := hp
  obtain ⟨m', hm', hentitled⟩ := h.entitled p.1 m hm
  exact ⟨m', hm', h.full p.1 hfull, hentitled p.2 hr hstays⟩

theorem InOrderBut.due {p : Pk × Pk} {m : Membership} (h : db.InOrder given) (hm : db.memberships.row p.1 = some m)
    (hr : p.2 ∈ m.automaticRoles) : db.Due p :=
  ⟨m, hm, ((h.kept hm).automatic _ hr).2⟩

theorem Due.held {p : Pk × Pk} (hp : db.Due p) (h : db.InOrder given) :
    ∃ m, db.memberships.row p.1 = some m ∧ p.2 ∈ m.roles := by
  obtain ⟨m, hm, hfull, hr⟩ := hp
  exact ⟨m, hm, (h.kept hm).held hfull p.2 hr⟩

section

variable {p : Pk × Pk} {m n : Membership}

theorem Due.reassigned {taken came : Pk → Pk → Prop} (hrules : SameRules db d)
    (h : Rewrites (fun k => Reassigned db (taken k) (came k)) db.memberships d.memberships)
    (hm : db.memberships.row p.1 = some m) (hfull : db.isScoped p.1 = false) (huser : n.user = m.user)
    (horganization : n.organization = m.organization) (hwithheld : n.withheldRoles = m.withheldRoles)
    (hroles : ∀ r ∈ n.roles, (r ∈ m.roles ∨ came p.1 r) ∧ ¬ taken p.1 r) (hr : db.Entitled n p.2)
    (hstays : ¬ taken p.1 p.2) : d.Due p := by
  obtain ⟨m', hm', hreassigned⟩ := h.after hm
  exact ⟨m', hm', (hrules.isScoped _).trans hfull,
    hreassigned.entitled hrules huser horganization hwithheld hroles hr hstays⟩

theorem InOrderBut.removeRoles_reassigned (h : db.InOrderBut behind given) (membership : Pk) (roles : List Pk) :
    Rewrites (fun k => Reassigned db (fun r => k = membership ∧ r ∈ roles) fun _ => False) db.memberships
      (db.removeRoles membership roles).memberships := by
  rcases removeRoles_change db membership roles with ⟨rfl, heq⟩ | ⟨t, ht, heq⟩
  · rw [heq]
    exact .refl (fun _ _ => ⟨rfl, rfl, fun r _ => by simp, fun _ => .inl⟩) _
  · rw [heq]
    simpa using h.reassigned ht

theorem InOrderBut.removeRoles_due (h : db.InOrder given) (hm : db.memberships.row p.1 = some m)
    (hauto : p.2 ∈ m.automaticRoles) (hstays : p.1 = membership → p.2 ∉ roles)
    (hr : p.1 = membership → db.Entitled { m with roles := removePks m.roles roles } p.2) :
    (db.removeRoles membership roles).Due p := by
  obtain ⟨-, hfull, hentitled⟩ := (h.kept hm).automatic _ hauto
  have hrows := h.removeRoles_reassigned membership roles
  by_cases hk : p.1 = membership
  · exact .reassigned (n := { m with roles := removePks m.roles roles })
      (removeRoles_rules db membership roles) hrows hm
      hfull rfl rfl rfl (fun r hr => ⟨.inl (mem_removePks.mp hr).1, fun hno => (mem_removePks.mp hr).2 hno.2⟩)
        (hr hk)
      fun hno => hstays hk hno.2
  · exact .reassigned (n := m) (removeRoles_rules db membership roles) hrows hm hfull rfl rfl rfl
      (fun r hr => ⟨.inl hr, fun hno => hk hno.1⟩) hentitled fun hno => hk hno.1

theorem InOrderBut.setRoles_due (h : db.InOrder given) (hok : db.setRoles membership roles = .ok d)
    (hm : db.memberships.row p.1 = some m) (hauto : p.2 ∈ m.automaticRoles)
    (hstays : p.1 = membership → p.2 ∈ roles)
    (hr : p.1 = membership → db.Entitled { m with roles := roles } p.2) : d.Due p := by
  obtain ⟨-, hfull, hentitled⟩ := (h.kept hm).automatic _ hauto
  simp only [DB.setRoles, bind_ok, Table.get_ok] at hok
  obtain ⟨m₀, hm₀, hok⟩ := hok
  have hremoved : (db.removeRoles membership (removePks m₀.roles roles)).InOrder _ :=
    h.removeRoles fun _ _ _ _ => id
  have hrules := removeRoles_rules db membership (removePks m₀.roles roles)
  have hrules' := addRoles_rules hok
  have hrows : Rewrites (fun k => Reassigned db (fun r => k = membership ∧ r ∈ removePks m₀.roles roles)
      fun r => k = membership ∧ r ∈ removePks roles m₀.roles) db.memberships d.memberships := by
    refine ((h.removeRoles_reassigned _ _).comp (hremoved.addRoles_reassigned hok)).mono ?_
    rintro k a c ⟨b, htaken, hcame⟩
    exact htaken.give hrules hcame fun r hcame hgone => (mem_removePks.mp hcame.2).2 (mem_removePks.mp hgone.2).1
  have hsame : SameRules db d :=
    ⟨hrules'.roles.trans hrules.roles, hrules'.organizations.trans hrules.organizations,
    hrules'.grants.trans hrules.grants⟩
  by_cases hk : p.1 = membership
  · rw [← hk, hm] at hm₀
    cases hm₀
    refine .reassigned (n := { m with roles := roles }) hsame hrows hm hfull rfl rfl rfl
      (fun r hr => ?_) (hr hk) fun hno => ?_
    · refine ⟨?_, fun hno => (mem_removePks.mp hno.2).2 hr⟩
      by_cases hheld : r ∈ m.roles
      · exact .inl hheld
      · exact .inr ⟨hk, mem_removePks.mpr ⟨hr, hheld⟩⟩
    · exact (mem_removePks.mp hno.2).2 (hstays hk)
  · exact .reassigned (n := m) hsame hrows hm hfull rfl rfl rfl
      (fun r hr => ⟨.inl hr, fun hno => hk hno.1⟩) hentitled
      fun hno => hk hno.1

theorem InOrderBut.clearRoles_due (h : db.InOrder given) (hm : db.memberships.row p.1 = some m)
    (hauto : p.2 ∈ m.automaticRoles) (hk : p.1 ≠ membership) : (db.clearRoles membership).Due p := by
  obtain ⟨-, hfull, hentitled⟩ := (h.kept hm).automatic _ hauto
  obtain ⟨t, ht, heq⟩ := clearRoles_change db membership
  rw [heq]
  exact .reassigned (n := m) (sync_rules db t [membership]) (h.reassigned ht) hm hfull rfl rfl rfl
    (fun r hr => ⟨.inl hr, fun hno => hk (List.mem_singleton.mp hno.1)⟩) hentitled
      fun hno => hk (List.mem_singleton.mp hno.1)

theorem InOrderBut.removeMemberships_due (h : db.InOrder given) (hm : db.memberships.row p.1 = some m)
    (hauto : p.2 ∈ m.automaticRoles) (hstays : p.1 ∈ pks → p.2 ≠ role)
    (hr : p.1 ∈ pks → role ∈ m.roles → db.Entitled (m.without role) p.2) :
    (db.removeMemberships role pks).Due p := by
  obtain ⟨-, hfull, hentitled⟩ := (h.kept hm).automatic _ hauto
  obtain ⟨t, ht, heq⟩ := removeMemberships_change db role pks
  rw [heq]
  by_cases hk : p.1 ∈ pks
  · refine .reassigned (n := m.without role) (sync_rules db t pks) (h.reassigned ht) hm hfull rfl rfl rfl
      (fun r hr => ⟨.inl (isAdmin_without hr).1, fun hno => (isAdmin_without hr).2 hno.2⟩) ?_
        fun hno => hstays hk hno.2
    by_cases hheld : role ∈ m.roles
    · exact hr hk hheld
    · rw [without_of_not_held hheld]
      exact hentitled
  · exact .reassigned (n := m) (sync_rules db t pks) (h.reassigned ht) hm hfull rfl rfl rfl
      (fun r hr => ⟨.inl hr, fun hno => hk hno.1⟩) hentitled fun hno => hk hno.1

theorem InOrderBut.setMemberships_due (h : db.InOrder given) (hok : db.setMemberships role pks = .ok d)
    (hm : db.memberships.row p.1 = some m) (hauto : p.2 ∈ m.automaticRoles) (hstays : p.1 ∉ pks → p.2 ≠ role)
    (hr : p.1 ∉ pks → role ∈ m.roles → db.Entitled (m.without role) p.2) : d.Due p := by
  have hdue : (db.removeMemberships role (removePks (db.memberships.pks fun _ m => m.roles.contains role) pks)).Due
    p :=
    h.removeMemberships_due hm hauto (fun hk => hstays (mem_removePks.mp hk).2)
      fun hk => hr (mem_removePks.mp hk).2
  have hremoved : (db.removeMemberships role
    (removePks (db.memberships.pks fun _ m => m.roles.contains role) pks)).InOrder _ :=
    h.removeMemberships fun _ _ _ _ => id
  have hstill : StillEntitled (fun _ => False) _ d := hremoved.addMemberships_still hok
  exact hstill.due hdue id

end

/-! ## New members and owners -/

theorem insertMembership_still (db : DB) (m : Membership) :
    StillEntitled gone db { db with memberships := db.memberships.insert m } :=
  ⟨fun _ h => h, fun _ n hn => ⟨n, insert_row_of_some hn, fun _ hr _ => hr⟩⟩

theorem createMembership_inserts {user : Pk} {through : Option Pk} {r : DB × Pk}
    (hok : db.createMembership user organization through = .ok r) :
    r = ({ db with memberships := db.memberships.insert ⟨user, organization, [], false, through, [], []⟩ },
      db.memberships.next) := by
  simp only [DB.createMembership, bind_ok, Table.get_ok, require_ok, exists_unit, pure_ok] at hok
  obtain ⟨_, -, _, -, -, rfl⟩ := hok
  rfl

theorem InOrderBut.createMembership_still {user : Pk} {through : Option Pk} {r : DB × Pk} (h : db.InOrder given)
    (hok : db.createMembership user organization through = .ok r) :
    StillEntitled gone db (r.1.syncServiceRoles [r.2]) := by
  obtain rfl := createMembership_inserts hok
  have hnew := h.insertMembership (m := ⟨user, organization, [], false, through, [], []⟩) rfl rfl
  exact (insertMembership_still db _).trans (hnew.sync_still _)

theorem administers_of_names {t : Table Role} {m : Membership}
    (hnames : ∀ j x, db.roles.row j = some x → ∃ y, t.row j = some y ∧ y.identifier = x.identifier)
    (h : db.administers m = true) : ({ db with roles := t } : DB).administers m = true := by
  unfold administers at h ⊢
  rw [Bool.or_eq_true] at h ⊢
  refine h.imp_right fun hholds => ?_
  obtain ⟨j, hj, x, hx, hname⟩ := holdsAdmin_iff_isAdmin.mp hholds
  obtain ⟨y, hy, hid⟩ := hnames j x hx
  exact holdsAdmin_iff_isAdmin.mpr ⟨j, hj, y, hy, hid.trans hname⟩

theorem StillEntitled.of_rows {t : Table Role}
    (hkept : ∀ r x, db.roles.row r = some x → ∃ y, t.row r = some y ∧ y.identifier = x.identifier
      ∧ y.organization = x.organization ∧ y.isAdminRole = x.isAdminRole ∧ y.isDefaultRole = x.isDefaultRole) :
    StillEntitled gone db { db with roles := t } := by
  refine ⟨fun _ h => h, fun k m hm => ⟨m, hm, fun r hr _ => ?_⟩⟩
  obtain ⟨x, hx, ho, hflag⟩ := hr
  obtain ⟨y, hy, -, ho', hadmin, hdefault⟩ := hkept r x hx
  refine ⟨y, hy, ho'.trans ho, ?_⟩
  rw [hadmin, hdefault]
  refine hflag.imp_left (And.imp_right (administers_of_names fun j z hz => ?_))
  obtain ⟨z', hz', hid, -⟩ := hkept j z hz
  exact ⟨z', hz', hid⟩

theorem getOrCreateRole_still (db : DB) (identifier : String) (organization : Pk) :
    StillEntitled gone db (db.getOrCreateRole identifier organization).1 := by
  unfold DB.getOrCreateRole
  split
  · exact .refl gone db
  · exact .of_rows fun r x hx => ⟨x, insert_row_of_some hx, rfl, rfl, rfl, rfl⟩

theorem createDefaultScopesForOrg_still (db : DB) (organization : Pk) :
    StillEntitled gone db (db.createDefaultScopesForOrg organization) := by
  have hscope : ∀ (d : DB) identifier description isAll isBuiltin,
      StillEntitled gone d (d.ensureScope organization identifier description isAll isBuiltin) := by
    intro d identifier description isAll isBuiltin
    obtain ⟨hrules, hmemberships⟩ := ensureScope_rules d organization identifier description isAll isBuiltin
    exact .same hrules hmemberships
  unfold DB.createDefaultScopesForOrg
  exact foldl_invariant (P := StillEntitled gone db) (fun _ _ d hd => hd.trans (hscope d _ _ _ _))
    (foldl_invariant (P := StillEntitled gone db) (fun _ _ d hd => hd.trans (hscope d _ _ _ _)) (.refl gone db))

theorem InOrderBut.ensureOwnerIsAdmin_still (h : db.InOrderBut (fun _ m => m.organization = organization) given)
    (hok : db.ensureOwnerIsAdmin organization = .ok d) : StillEntitled gone db d := by
  simp only [DB.ensureOwnerIsAdmin, bind_ok, Table.get_ok, pure_ok, Prod.exists] at hok
  obtain ⟨o, -, e, membership, he, e', he', rfl⟩ := hok
  have hmember : StillEntitled gone db e ∧ e.InOrderBut (fun _ m => m.organization = organization) given := by
    unfold getOrCreateMembership at he
    split at he
    · cases he
      exact ⟨.refl gone db, h⟩
    · cases createMembership_inserts he
      refine ⟨insertMembership_still db _, (h.insertMembership rfl rfl).mono ?_⟩
      rintro k m - - (ho | ⟨-, rfl⟩)
      · exact ho
      · rfl
  have hrole : (e.getOrCreateRole adminRole organization).1.InOrderBut
    (fun _ m => m.organization = organization) given :=
    hmember.2.getOrCreateRole
  have hadded : e'.InOrderBut (fun _ m => m.organization = organization) (given ++ []) :=
    hrole.addRoles (fun k m m' ho hm => ho.trans hm) he' (by simp)
  exact ((hmember.1.trans (getOrCreateRole_still _ _ _)).trans (hrole.addRoles_still he')).trans
    (hadded.sync_still _)

def ownedBy (db : DB) (organization newOwner : Pk) : DB :=
  { db with organizations := db.organizations.modify organization fun o => { o with owner := newOwner } }

theorem InOrderBut.changeOrganizationOwner_still {user newOwner : Pk} (h : db.InOrder given)
    (hok : db.changeOrganizationOwner user organization newOwner = .ok d) :
    StillEntitled gone (db.ownedBy organization newOwner) d := by
  simp only [DB.changeOrganizationOwner, saveOrganization, bind_ok, Table.get_ok, require_ok,
    exists_unit, pure_ok] at hok
  obtain ⟨o, -, -, -, e, he, rfl⟩ := hok
  have howned : (db.ownedBy organization newOwner).InOrderBut (fun _ m => m.organization = organization) given :=
    h.modifyOrganization
  have hroles : StillEntitled gone (db.ownedBy organization newOwner) _ :=
    (getOrCreateRole_still _ adminRole organization).trans (getOrCreateRole_still _ "guest" organization)
  exact (hroles.trans (howned.getOrCreateRole.getOrCreateRole.ensureOwnerIsAdmin_still he)).trans
    (createDefaultScopesForOrg_still _ _)

theorem upgradeToFull_still (db : DB) (membership : Pk) : StillEntitled gone db (db.upgradeToFull membership) := by
  have hungranted := upgradeToFull_ungranted db membership
  have hscoped := upgradeToFull_isScoped db membership
  generalize db.upgradeToFull membership = d at hungranted hscoped ⊢
  have hisAdmin : ∀ r, d.IsAdmin r ↔ db.IsAdmin r := fun r => by
    unfold IsAdmin
    rw [hungranted.roles]
  refine ⟨fun k hk => ?_, fun k m hm => ⟨m, by rw [hungranted.memberships, hm], fun r hr _ => ?_⟩⟩
  · rw [← Bool.not_eq_true, hscoped]
    simp [hk]
  have hadministers : d.administers m = db.administers m :=
    administers_congr hungranted.organizations rfl rfl fun r => and_congr_left fun _ => hisAdmin r
  unfold Entitled at hr ⊢
  rwa [hungranted.roles, hadministers]

/-! ## A registration -/

section

variable {instance_ : Pk} {declarations : List RoleDeclaration} {scopes : List ScopeDeclaration}

theorem delete_role_still (hgone : gone role) (hnot : ¬ db.IsAdmin role) :
    StillEntitled gone db (db.delete .role [⟨.role, role⟩] none) := by
  have hbesides : Besides db (db.delete .role [⟨.role, role⟩] none) := delete_role_besides role
  refine ⟨fun k hk => ?_, fun k m hm => ?_⟩
  · unfold isScoped hasGrants
    rw [hbesides.grants]
    exact hk
  · obtain ⟨m', hm', hdropped⟩ := (db.delete_role_rows role).after hm
    refine ⟨m', hm', fun r hr hstays => (db.delete_role_entitled role hdropped r).mpr
      ⟨(entitled_without hnot).mpr hr, ?_⟩⟩
    rintro rfl
    exact hstays hgone

/-- The role is no service's any more, and goes if it was some service's and nobody else's. -/
theorem InOrderBut.undeclareRole_still (h : db.InOrderBut behind given)
    (hgone : (DB.undeclareRole instance_ db role).roles.row role = none → gone role) :
    StillEntitled gone db (DB.undeclareRole instance_ db role) := by
  have hsigned : StillEntitled gone db { db with roles := db.roles.modify role fun x =>
      { x with usedBy := removePks x.usedBy [instance_] } } := by
    refine .of_rows fun r x hx => ?_
    by_cases hr : r = role
    · subst hr
      refine ⟨{ x with usedBy := removePks x.usedBy [instance_] }, ?_, rfl, rfl, rfl, rfl⟩
      rw [modify_row_self, hx, Option.map_some]
    · exact ⟨x, by rw [modify_row_of_ne hr, hx], rfl, rfl, rfl, rfl⟩
  have hapart : ∀ x, ({ db with roles := db.roles.modify role fun x =>
      { x with usedBy := removePks x.usedBy [instance_] } } : DB).roles.row role = some x →
        x.identifier = adminRole → x.creatingInstance = none := by
    intro x hx hname
    have hx : (db.roles.modify role _).row role = some x := hx
    rw [modify_row_self] at hx
    obtain ⟨y, hy, rfl⟩ := Option.map_eq_some_iff.mp hx
    exact (h.apart role y hy hname).2.2
  unfold DB.undeclareRole at hgone ⊢
  generalize ({ db with
      roles := db.roles.modify role fun x => { x with usedBy := removePks x.usedBy [instance_] } } : DB) = d
    at hsigned hapart hgone ⊢
  dsimp only at hgone ⊢
  split
  · rename_i hgoes
    rw [if_pos hgoes, (d.delete_role_tables role).2, if_pos rfl] at hgone
    refine hsigned.trans (delete_role_still (hgone rfl) ?_)
    rintro ⟨x, hx, hname⟩
    rw [hx] at hgoes
    simp [hapart x hx hname] at hgoes
  · exact hsigned

theorem undeclareRoles_none (pks : List Pk) {r : Pk} (h : db.roles.row r = none) :
    (pks.foldl (DB.undeclareRole instance_) db).roles.row r = none :=
  foldl_invariant (P := fun d : DB => d.roles.row r = none) (fun _ _ d hd => undeclareRole_roles_none d hd) h

theorem InOrderBut.undeclareRoles_still :
    ∀ (pks : List Pk) {db : DB} {given : List (Pk × Pk)}, db.Registering organization given →
    StillEntitled (fun r => (pks.foldl (DB.undeclareRole instance_) db).roles.row r = none) db
      (pks.foldl (DB.undeclareRole instance_) db)
  | [], db, _, _ => .refl _ db
  | _ :: pks, _, _, h => (h.undeclareRole_still (undeclareRoles_none pks)).trans
    (undeclareRoles_still pks (InOrderBut.undeclareRole h))

theorem InOrderBut.registerPermissions_still (h : db.InOrder given)
    (hkeys : db.LeavesAdminApart organization declarations) :
    StillEntitled (fun r => (db.registerPermissions instance_ organization declarations scopes).roles.row r = none)
      (db.declared instance_ organization declarations scopes)
      (db.registerPermissions instance_ organization declarations scopes) := by
  have hdeclared : (db.declared instance_ organization declarations scopes).Registering organization given :=
    h.declared hkeys
  have hroles := (registerPermissions_spec instance_ organization db declarations scopes).2.1
  rw [hroles, registerPermissions_eq, registered]
  generalize db.declared instance_ organization declarations scopes = d at hdeclared ⊢
  have hundeclared : StillEntitled
    (fun r => (d.signOffRoles instance_ organization declarations).roles.row r = none) d
      (d.signOffRoles instance_ organization declarations) := hdeclared.undeclareRoles_still _
  have hsigned : (d.signOffRoles instance_ organization declarations).Registering organization _ :=
    InOrderBut.undeclareRoles _ hdeclared
  obtain ⟨_, -, hbesides, hsame, hmemberships, -⟩ :=
    signOffScopes_spec instance_ organization (d.signOffRoles instance_ organization declarations) scopes
  have hrules : SameRules (d.signOffRoles instance_ organization declarations)
      ((d.signOffRoles instance_ organization declarations).signOffScopes instance_ organization scopes) :=
    ⟨hsame, hbesides.organizations, hbesides.grants⟩
  rw [hsame]
  exact (hundeclared.trans (.same hrules hmemberships)).trans ((hsigned.same hrules hmemberships).sync_still _)

/-- A member is due the role by what is declared of it last. -/
def DeclaredDue (db : DB) (organization : Pk) (declarations : List RoleDeclaration) (m : Membership) (r : Pk) :
    Prop :=
  ∀ x s, Role.view.find organization x.identifier db.roles = some (r, x) →
    (declarations.reverse.find? (·.key == x.identifier)) = some s →
      s.isAdminRole = true ∧ db.administers m = true ∨ s.isDefaultRole = true ∧ r ∉ m.withheldRoles

theorem DeclaredDue.entitled {m : Membership} {r : Pk} (h : db.DeclaredDue organization declarations m r)
    (hr : db.Entitled m r) : (db.declared instance_ organization declarations scopes).Entitled m r := by
  have hrow : ∀ j x, db.roles.row j = some x → ∃ y,
      (declarations.foldl ((Role.writer instance_).upsert organization) db.roles).row j = some y
        ∧ Role.view.Same x y ∧
        (y = x ∨ Role.view.find organization x.identifier db.roles = some (j, x)
          ∧ (Role.writer instance_).reads y =
          ((Role.writer instance_).last x.identifier declarations).elim ((Role.writer instance_).reads x)
            (Role.writer instance_).word) := by
    intro j x hx
    by_cases hfind : Role.view.find organization x.identifier db.roles = some (j, x)
    · obtain ⟨y, hy, hsame, hreads⟩ := (Role.writer instance_).upserts_find (l := declarations) hfind
      exact ⟨y, (Writer.find_some hy).1, hsame, .inr ⟨hfind, hreads⟩⟩
    · exact ⟨x, (Role.writer instance_).upserts_row_of_not_found hx hfind, .refl x, .inl rfl⟩
  rw [declared_eq]
  obtain ⟨x, hx, ho, hflag⟩ := hr
  obtain ⟨y, hy, hsame, hreads⟩ := hrow r x hx
  refine ⟨y, hy, hsame.1.trans ho, ?_⟩
  have hadministers : db.administers m = true → _ := administers_of_names
    (t := declarations.foldl ((Role.writer instance_).upsert organization) db.roles) fun j z hz => by
      obtain ⟨z', hz', hsame', -⟩ := hrow j z hz
      exact ⟨z', hz', hsame'.2.1⟩
  rcases hreads with rfl | ⟨hfind, hreads⟩
  · exact hflag.imp_left (And.imp_right hadministers)
  · cases hlast : (Role.writer instance_).last x.identifier declarations with
    | none =>
      rw [hlast] at hreads
      rw [show y.isAdminRole = x.isAdminRole from congrArg (·.2.1) hreads,
        show y.isDefaultRole = x.isDefaultRole from congrArg (·.2.2) hreads]
      exact hflag.imp_left (And.imp_right hadministers)
    | some s =>
      rw [hlast] at hreads
      rw [show y.isAdminRole = s.isAdminRole from congrArg (·.2.1) hreads,
        show y.isDefaultRole = s.isDefaultRole from congrArg (·.2.2) hreads]
      exact (h x s hfind hlast).imp_left (And.imp_right hadministers)

end

end DB

end Lok
