import Lok.Gifts
import Lok.Owners
import Lok.Slugs
import Lok.System

/-!
# Handles

An organization gets its slug when it is made, and a new one when its owner renames it, over either of the
two schemas. What is asked of the database before the slug is written may have changed by then: only the
unique column says who has it.
-/

namespace Lok

open Checks Text Slugs Table

namespace DB

variable (db : DB)

/-! ## What every new organization gets -/

def heldSlugs : List (List Char) := db.organizations.rows.map fun o => o.2.slug.toList

def createDefaultRolesForOrg (organization : Pk) : Answer DB := do
  assert (db.organizations.row organization).isSome .integrityError "violates foreign key constraint"
  return ((db.getOrCreateRole adminRole organization).1.getOrCreateRole "guest" organization).1

def addUserRole (organization membership : Pk) (d : DB) (identifier : String) : Answer DB := do
  let role ← found (d.roles.first fun _ r => r.organization == organization && r.identifier == identifier)
    ⟨.doesNotExist, "Role matching query does not exist."⟩
  d.addRoles membership [role.1]

/-- `add_user_roles`: the membership stays even if one of the roles is refused. -/
def addUserRoles (user organization : Pk) (roles : List String) : DB × Answer Unit :=
  match db.getOrCreateMembership user organization none with
  | .error e => (db, .error e)
  | .ok (d, membership) =>
    match roles.foldlM (addUserRole organization membership) d with
    | .error e => (d, .error e)
    | .ok d => (d, .ok ())

/-- `Organization.objects.create`, with nothing said but the slug, the name and the owner. -/
def insertOrganization (slug : List Char) (owner : Pk) : Answer (DB × Pk) := do
  assert (db.users.row owner).isSome .integrityError "violates foreign key constraint"
  db.createOrganization (String.ofList slug) owner false

/-- What both schemas do with an organization they made. -/
def enterOrganization (user organization : Pk) : DB × Answer Pk :=
  match db.createDefaultRolesForOrg organization with
  | .error e => (db, .error e)
  | .ok d =>
    let (d, answer) := d.addUserRoles user organization [adminRole]
    (d, answer.map fun _ => organization)

end DB

namespace Handles

section

variable (casing : Casing) (folding : Folding)

def slugTaken (db : DB) (slug : List Char) : Bool := isSlugTaken folding db.heldSlugs slug

/-- `suggest_slug`, which has found a free one before it has asked for more than there are. -/
def suggestedSlug (db : DB) (slug : List Char) : Option (List Char) :=
  suggestSlug (slugTaken folding db) (db.heldSlugs.length + 1) slug

def alreadyTaken (db : DB) (slug : List Char) : Refused :=
  ⟨.graphQLError, s!"The handle '{String.ofList slug}' is already taken. "
    ++ s!"Try '{String.ofList ((suggestedSlug folding db slug).getD [])}'."⟩

/-- What both schemas make of the unique column's refusal. -/
def reportTaken {α : Type} (db : DB) (slug : List Char) : Answer α → Answer α
  | .ok a => .ok a
  | .error e => .error (if e.kind == .integrityError then alreadyTaken folding db slug else e)

/-- `validate_slug`, whose error the caller raises as one of `kind`. -/
def validated (kind : Kind) (slug : List Char) : Answer Unit :=
  (validateSlug slug).mapError fun text => ⟨kind, text⟩

/-! ## Making an organization -/

def createRandomSlug (name suffix : List Char) : List Char :=
  (casing.lower name).map (fun c => if c == ' ' then '-' else c) ++ '-' :: suffix

/-- Six characters of `string.ascii_lowercase + string.digits`. -/
def Suffix : Type := { s : List Char // s.length = 6 ∧ s.all isSlugChar = true }

/-- `create_organization` of the first schema. -/
def createOrganization (db : DB) (user : Pk) (name : String) (suffix : Suffix) : DB × Answer Pk :=
  match db.insertOrganization (createRandomSlug casing name.toList suffix.1) user with
  | .error e => (db, .error e)
  | .ok (d, organization) => d.enterOrganization user organization

/-- The slug that `create_organization` of the management schema settles on; `asked` is the database as it
was then. -/
def candidateSlug (asked : DB) (name : String) (slug : Option String) : Answer (List Char) := do
  let candidate := match given slug with
    | some slug => normalizeSlug casing slug.toList
    | none => slugifyName casing name.toList
  validated .exception candidate
  require (!slugTaken folding asked candidate) (alreadyTaken folding asked candidate)
  return candidate

def createManagedOrganization (asked db : DB) (user : Pk) (name : String) (slug : Option String) :
    DB × Answer Pk :=
  match candidateSlug casing folding asked name slug with
  | .error e => (db, .error e)
  | .ok candidate =>
    match reportTaken folding db candidate (db.insertOrganization candidate user) with
    | .error e => (db, .error e)
    | .ok (d, organization) => d.enterOrganization user organization

/-! ## Renaming one -/

/-- The slug an update writes: the one it has, unless another is asked for. -/
def newSlug (kind : Kind) (asked : DB) (held : List Char) : Option String → Answer (List Char)
  | none => .ok held
  | some raw => do
    let candidate := normalizeSlug casing raw.toList
    validated kind candidate
    require (candidate == held || !slugTaken folding asked candidate) (alreadyTaken folding asked candidate)
    return candidate

/-- `organization.save()`: every column as it was read or set since, even where the row has changed or gone
meanwhile. -/
def save (db : DB) (organization : Pk) (o : Organization) : Answer DB := do
  assert (!db.organizations.exists? fun pk x => pk != organization && x.slug == o.slug)
    .integrityError "unique slug"
  { db with organizations := db.organizations.put organization o }.saveOrganization organization

/-- The one `update_organization`, once the caller is known to own it. -/
def rename (kind : Kind) (asked db : DB) (organization : Pk) (o : Organization) (slug : Option String)
    (requireDeviceAuth : Option Bool) (accessTokenLifetime : Option Int) : Answer DB := do
  let candidate ← newSlug casing folding kind asked o.slug.toList slug
  assert (accessTokenLifetime.all
    fun (n : Int) => decide (minAccessTokenExpiresIn ≤ n ∧ n ≤ maxAccessTokenExpiresIn)) .graphQLError
    s!"The access token lifetime must be between {minAccessTokenExpiresIn} and {maxAccessTokenExpiresIn} seconds."
  reportTaken folding db candidate (save db organization { o with
    slug := String.ofList candidate, requireDeviceAuth := requireDeviceAuth.getD o.requireDeviceAuth,
    accessTokenLifetime := accessTokenLifetime.or o.accessTokenLifetime })

def denied : Refused := ⟨.graphQLError, "Not found, or you are not authorized to access it."⟩

/-- `update_organization` of the first schema. The row is read from `read`, whether the slug is taken is
asked of `asked`, and the row is written to `db`. -/
def updateOrganization (read asked db : DB) (user organization : Pk) (slug : Option String) : Answer DB := do
  let o ← found (read.organizations.row organization) denied
  require (o.owner == user) denied
  rename casing folding .graphQLError asked db organization o slug none none

/-- `update_organization` of the management schema. -/
def updateManagedOrganization (read asked db : DB) (user organization : Pk) (slug : Option String)
    (requireDeviceAuth : Option Bool) (accessTokenLifetime : Option Int) : Answer DB := do
  let o ← found (read.organizations.row organization) denied
  assert (o.owner == user) .graphQLError "You must own the organization to update it."
  rename casing folding .exception asked db organization o slug requireDeviceAuth accessTokenLifetime

end

end Handles

namespace DB

variable {db d e : DB} {organization user membership : Pk}

/-! ## What making an organization leaves -/

theorem getOrCreateMembership_organizations {k : Pk} {through : Option Pk}
    (h : db.getOrCreateMembership user organization through = .ok (d, k)) :
    d.organizations = db.organizations := by
  rcases getOrCreateMembership_cases h with ⟨rfl, -⟩ | ⟨-, -, rfl⟩
  · rfl
  · rfl

theorem saveOrganization_organizations (h : db.saveOrganization organization = .ok d) :
    d.organizations = db.organizations := by
  simp only [saveOrganization, ensureOwnerIsAdmin, bind_ok, Table.get_ok, pure_ok, Prod.exists] at h
  obtain ⟨e, ⟨o, -, e₁, membership, hgot, e₂, hadded, rfl⟩, rfl⟩ := h
  obtain ⟨scopes, hscopes⟩ := createDefaultScopesForOrg_eq (e₂.syncOrganization organization) organization
  obtain ⟨synced, hsynced⟩ := syncServiceRoles_eq e₂ (e₂.memberships.pks fun _ m => m.organization == organization)
  obtain ⟨t, rfl, -⟩ := addRoles_people hadded
  obtain ⟨r₁, -, hrole₁, -⟩ := getOrCreateRole_eq db adminRole organization
  obtain ⟨r₂, -, hrole₂, -⟩ := getOrCreateRole_eq
    (db.getOrCreateRole adminRole organization).1 "guest" organization
  obtain ⟨r₃, -, hrole₃, -⟩ := getOrCreateRole_eq e₁ adminRole organization
  have hgot := getOrCreateMembership_organizations hgot
  rw [hscopes]
  show (DB.syncServiceRoles _ _).organizations = _
  rw [hsynced]
  show ((e₁.getOrCreateRole adminRole organization).1).organizations = _
  rw [hrole₃]
  show e₁.organizations = _
  rw [hgot, hrole₂]
  show ((db.getOrCreateRole adminRole organization).1).organizations = _
  rw [hrole₁]

theorem insertOrganization_ok {slug : List Char} {r : DB × Pk} (h : db.insertOrganization slug user = .ok r) :
    r.2 = db.organizations.next ∧ (∀ k o, db.organizations.row k = some o → o.slug.toList ≠ slug)
      ∧ r.1.organizations = db.organizations.insert ⟨String.ofList slug, user, false, none⟩ := by
  simp only [insertOrganization, createOrganization, bind_ok, Table.get_ok, require_ok, exists_unit, pure_ok] at h
  obtain ⟨-, _, -, hunique, d, hsaved, rfl⟩ := h
  refine ⟨rfl, fun k o ho heq => ?_, saveOrganization_organizations hsaved⟩
  rw [Bool.not_eq_true'] at hunique
  have hne := exists?_eq_false.mp hunique k o ho
  rw [← heq, String.ofList_toList] at hne
  simp at hne

theorem createDefaultRolesForOrg_ok (h : db.createDefaultRolesForOrg organization = .ok d) :
    ∃ t, d = { db with roles := t } := by
  simp only [createDefaultRolesForOrg, bind_ok, require_ok, exists_unit, pure_ok] at h
  obtain ⟨-, rfl⟩ := h
  obtain ⟨r₁, -, hrole₁, -⟩ := getOrCreateRole_eq db adminRole organization
  obtain ⟨r₂, -, hrole₂, -⟩ := getOrCreateRole_eq
    (db.getOrCreateRole adminRole organization).1 "guest" organization
  exact ⟨r₂, by rw [hrole₂, hrole₁]⟩

theorem addUserRole_ok {identifier : String} (h : addUserRole organization membership db identifier = .ok d) :
    ∃ role, db.addRoles membership [role] = .ok d := by
  simp only [addUserRole, bind_ok, found_ok] at h
  obtain ⟨role, -, h⟩ := h
  exact ⟨role.1, h⟩

theorem addUserRoles_organizations (user organization : Pk) (roles : List String) :
    (db.addUserRoles user organization roles).1.organizations = db.organizations := by
  unfold addUserRoles
  split
  · rfl
  · rename_i d k hgot
    have hgot := getOrCreateMembership_organizations hgot
    split
    · exact hgot
    · rename_i hroles
      refine (foldlM_ok (R := fun d e : DB => e.organizations = d.organizations) (fun _ => rfl)
        (fun h h' => h'.trans h)
        (fun _ _ d e hadd => ?_) hroles).trans hgot
      obtain ⟨role, hadd⟩ := addUserRole_ok hadd
      obtain ⟨t, rfl, -⟩ := addRoles_people hadd
      rfl

theorem enterOrganization_organizations (db : DB) (user organization : Pk) :
    (db.enterOrganization user organization).1.organizations = db.organizations := by
  unfold enterOrganization
  split
  · rfl
  · rename_i hroles
    obtain ⟨t, rfl⟩ := createDefaultRolesForOrg_ok hroles
    exact addUserRoles_organizations user organization [adminRole]

/-! ## Whose roles change -/

/-- The rows that are there stay in their organization, and outside this one nobody's roles change. -/
def RegradesIn (organization : Pk) (db d : DB) : Prop :=
  Rewrites (fun _ m m' => m'.organization = m.organization ∧ (m.organization ≠ organization → SameRoles m m'))
    db.memberships d.memberships

/-- Outside this organization nobody comes to have roles they did not have. -/
def OnlyIn (organization : Pk) (db d : DB) : Prop :=
  ∀ k m', d.memberships.row k = some m' → m'.organization ≠ organization →
    ∃ m, db.memberships.row k = some m ∧ SameRoles m m'

theorem RegradesIn.refl (organization : Pk) (db : DB) : RegradesIn organization db db :=
  Rewrites.refl (fun _ m => ⟨rfl, fun _ => .refl m⟩) _

theorem RegradesIn.trans (h : RegradesIn organization db d) (h' : RegradesIn organization d e) :
    RegradesIn organization db e := by
  refine (Rewrites.comp h h').mono fun k a c hac => ?_
  obtain ⟨b, hab, hbc⟩ := hac
  refine ⟨hbc.1.trans hab.1, fun hne => (hab.2 hne).trans (hbc.2 ?_)⟩
  rw [hab.1]
  exact hne

theorem RegradesIn.onlyIn (h : RegradesIn organization db d) : OnlyIn organization db d := by
  intro k m' hm' hne
  obtain ⟨m, hm, hkept, hsame⟩ := h.before hm'
  exact ⟨m, hm, hsame (by rw [← hkept]; exact hne)⟩

theorem OnlyIn.refl (organization : Pk) (db : DB) : OnlyIn organization db db := fun _ m hm _ => ⟨m, hm, .refl m⟩

theorem OnlyIn.trans (h : OnlyIn organization db d) (h' : OnlyIn organization d e) : OnlyIn organization db e := by
  intro k m'' hm'' hne
  obtain ⟨m', hm', hsame'⟩ := h' k m'' hm'' hne
  obtain ⟨m, hm, hsame⟩ := h k m' hm' (by rw [← hsame'.organization]; exact hne)
  exact ⟨m, hm, hsame.trans hsame'⟩

/-- The membership, if there is one, is one of the organization's. -/
def BelongsTo (db : DB) (membership organization : Pk) : Prop :=
  ∀ m, db.memberships.row membership = some m → m.organization = organization

theorem BelongsTo.regradesIn (h : db.BelongsTo membership organization) {o : Pk} (hd : RegradesIn o db d) :
    d.BelongsTo membership organization := by
  intro m' hm'
  obtain ⟨m, hm, hkept, -⟩ := hd.before hm'
  exact hkept.trans (h m hm)

theorem modifyMembership_regradesIn {f : Membership → Membership} (h : db.BelongsTo membership organization)
    (hf : ∀ m, (f m).organization = m.organization) :
    RegradesIn organization db (db.modifyMembership membership f) :=
  .modify (fun _ m => ⟨rfl, fun _ => .refl m⟩) fun m hm => ⟨hf m, fun hne => absurd (h m hm) hne⟩

theorem syncAdmin_regradesIn (db : DB) (organization : Pk) (l : List Pk) :
    RegradesIn organization db (db.syncAdmin l) :=
  (syncAdmin_rows db l).mono fun _ _ _ h => ⟨h.organization, fun _ => h⟩

theorem syncMembership_regradesIn (h : db.BelongsTo membership organization) :
    RegradesIn organization db (db.syncMembership membership) := by
  refine (syncMembership_rows db membership).mono_of_row fun k m m' hm hrel => ?_
  by_cases hk : k = membership
  · subst hk
    exact ⟨(hrel.1 rfl).organization, fun hne => absurd (h m hm) hne⟩
  · exact ⟨(hrel.2 hk).organization, fun _ => hrel.2 hk⟩

theorem givenByAnAdmin_regradesIn {roles : List Pk} (h : db.BelongsTo membership organization) :
    RegradesIn organization db (db.givenByAnAdmin membership roles) := modifyMembership_regradesIn h fun _ => rfl

theorem syncServiceRoles_regradesIn {pks : List Pk} (h : ∀ pk ∈ pks, db.BelongsTo pk organization) :
    RegradesIn organization db (db.syncServiceRoles pks) := by
  refine foldl_invariant (P := fun d : DB => RegradesIn organization db d) (fun pk hpk d hd => ?_)
    (.refl organization db)
  have hbelongs := (h pk (List.mem_filter.mp hpk).1).regradesIn hd
  exact hd.trans (syncMembership_regradesIn hbelongs)

theorem syncOrganization_regradesIn (db : DB) (organization : Pk) :
    RegradesIn organization db (db.syncOrganization organization) := by
  refine syncServiceRoles_regradesIn fun pk hpk m hm => ?_
  obtain ⟨x, hx, ho⟩ := mem_pks.mp hpk
  rw [hm] at hx
  cases hx
  exact beq_iff_eq.mp ho

theorem addRoles_regradesIn {roles : List Pk} (h : db.BelongsTo membership organization)
    (hok : db.addRoles membership roles = .ok d) :
    RegradesIn organization db d := by
  unfold DB.addRoles at hok
  split at hok
  · obtain rfl : db = d := by simpa using hok
    exact .refl organization db
  · simp only [bind_ok, Table.get_ok, require_ok, exists_unit, pure_ok] at hok
    obtain ⟨m, -, -, -, rfl⟩ := hok
    have hadded : RegradesIn organization db
      (db.modifyMembership membership fun m => { m with roles := addPks m.roles roles }) :=
      modifyMembership_regradesIn h fun _ => rfl
    have hsynced := hadded.trans (syncAdmin_regradesIn _ organization [membership])
    have hgiven := hsynced.trans
      (@givenByAnAdmin_regradesIn _ _ _ (removePks roles m.roles) (h.regradesIn hsynced))
    refine hgiven.trans (syncServiceRoles_regradesIn fun pk hpk => ?_)
    rw [List.mem_singleton.mp hpk]
    exact h.regradesIn hgiven

theorem getOrCreateMembership_onlyIn {k : Pk} {through : Option Pk}
    (h : db.getOrCreateMembership user organization through = .ok (d, k)) :
    OnlyIn organization db d ∧ d.BelongsTo k organization := by
  rcases getOrCreateMembership_cases h with ⟨rfl, m, hm, -, ho⟩ | ⟨-, rfl, rfl⟩
  · refine ⟨.refl organization d, fun m' hm' => ?_⟩
    rw [hm] at hm'
    cases hm'
    exact ho
  · constructor
    · intro j m' hj hne
      rcases insert_row_eq_some.mp hj with ⟨-, rfl⟩ | hj
      · exact absurd rfl hne
      · exact ⟨m', hj, .refl m'⟩
    · intro m' hm'
      rw [insert_row_next] at hm'
      cases hm'
      rfl

theorem onlyIn_of_memberships (h : d.memberships = db.memberships) (organization : Pk) :
    OnlyIn organization db d := by
  intro k m hm _
  rw [h] at hm
  exact ⟨m, hm, .refl m⟩

theorem getOrCreateRole_onlyIn (db : DB) (identifier : String) (o organization : Pk) :
    OnlyIn organization db (db.getOrCreateRole identifier o).1 := by
  obtain ⟨t, -, heq, -⟩ := getOrCreateRole_eq db identifier o
  exact onlyIn_of_memberships (by rw [heq]) organization

theorem addUserRole_regradesIn {identifier : String} (h : db.BelongsTo membership organization)
    (hok : addUserRole organization membership db identifier = .ok d) : RegradesIn organization db d := by
  obtain ⟨role, hadd⟩ := addUserRole_ok hok
  exact addRoles_regradesIn h hadd

theorem addUserRoles_onlyIn (user organization : Pk) (roles : List String) :
    OnlyIn organization db (db.addUserRoles user organization roles).1 := by
  unfold addUserRoles
  split
  · exact .refl organization db
  · rename_i d k hgot
    obtain ⟨hgot, hbelongs⟩ := getOrCreateMembership_onlyIn hgot
    split
    · exact hgot
    · rename_i e hroles
      refine hgot.trans (RegradesIn.onlyIn ?_)
      refine foldlM_ok (R := fun d e : DB => d.BelongsTo k organization → RegradesIn organization d e)
        (fun d _ => .refl organization d)
        (fun h h' hd => (h hd).trans (h' (hd.regradesIn (h hd))))
          (fun _ _ _ _ hadd hd => addUserRole_regradesIn hd hadd) hroles hbelongs

theorem saveOrganization_onlyIn (h : db.saveOrganization organization = .ok d) : OnlyIn organization db d := by
  simp only [saveOrganization, ensureOwnerIsAdmin, bind_ok, Table.get_ok, pure_ok, Prod.exists] at h
  obtain ⟨e, ⟨o, -, e₁, membership, hgot, e₂, hadded, rfl⟩, rfl⟩ := h
  obtain ⟨hgot, hbelongs⟩ := getOrCreateMembership_onlyIn hgot
  have hbelongs' : (e₁.getOrCreateRole adminRole organization).1.BelongsTo membership organization := by
    obtain ⟨t, -, heq, -⟩ := getOrCreateRole_eq e₁ adminRole organization
    rw [heq]
    exact hbelongs
  obtain ⟨scopes, hscopes⟩ := createDefaultScopesForOrg_eq (e₂.syncOrganization organization) organization
  have hroles := (getOrCreateRole_onlyIn db adminRole organization organization).trans
    (getOrCreateRole_onlyIn _ "guest" organization organization)
  have hentered := (hroles.trans hgot).trans (getOrCreateRole_onlyIn e₁ adminRole organization organization)
  have hsynced := ((addRoles_regradesIn hbelongs' hadded).trans
    (syncOrganization_regradesIn e₂ organization)).onlyIn
  exact (hentered.trans hsynced).trans (onlyIn_of_memberships (by rw [hscopes]) organization)

theorem insertOrganization_onlyIn {slug : List Char} {r : DB × Pk} (h : db.insertOrganization slug user = .ok r) :
    OnlyIn r.2 db r.1 := by
  simp only [insertOrganization, createOrganization, bind_ok, Table.get_ok, require_ok, exists_unit, pure_ok] at h
  obtain ⟨-, _, -, -, d, hsaved, rfl⟩ := h
  have hinserted : OnlyIn db.organizations.next db
      { db with organizations := db.organizations.insert ⟨String.ofList slug, user, false, none⟩ } :=
        onlyIn_of_memberships rfl _
  exact hinserted.trans (saveOrganization_onlyIn hsaved)

/-! ## What is stored -/

/-- An organization comes to have the slug. -/
def Stores (db d : DB) (slug : String) : Prop :=
  ∃ k o, d.organizations.row k = some o ∧ o.slug = slug ∧ ∀ o', db.organizations.row k = some o' → o'.slug ≠ slug

theorem not_stores {slug : String} (h : d.organizations = db.organizations) : ¬ Stores db d slug := by
  intro hstores
  obtain ⟨k, o, ho, hslug, hnew⟩ := hstores
  rw [h] at ho
  exact hnew o ho hslug

theorem stores_insert {slug : String} {o : Organization} (h : d.organizations = db.organizations.insert o)
    (hstores : Stores db d slug) :
    slug = o.slug := by
  obtain ⟨k, o', ho', hslug, hnew⟩ := hstores
  rw [h] at ho'
  rcases insert_row_eq_some.mp ho' with ⟨-, rfl⟩ | ho'
  · exact hslug.symm
  · exact absurd hslug (hnew o' ho')

end DB

namespace Handles

variable {casing : Casing} {folding : Folding} {asked db d : DB} {user organization : Pk} {candidate : List Char}
  {name : String} {slug : String} {handle : Option String} {kind : Kind} {read : DB}

theorem reportTaken_ok {α : Type} {x : Answer α} {a : α} :
    reportTaken folding db candidate x = .ok a ↔ x = .ok a := by
  cases x <;> simp [reportTaken]

theorem validated_ok : validated kind candidate = .ok () ↔ validateSlug candidate = .ok () := by
  unfold validated
  cases validateSlug candidate <;> simp [Except.mapError]

theorem createRandomSlug_accepted {suffix : Suffix} :
    validateSlug (createRandomSlug casing name.toList suffix.1) = .ok ()
    ↔ isSlug ((casing.lower name.toList).map fun c => if c == ' ' then '-' else c) = true := by
  obtain ⟨suffix, hlength, hchars⟩ := suffix
  have hne : suffix ≠ [] := by
    intro hnil
    rw [hnil] at hlength
    cases hlength
  exact accepted_hyphen hchars hne

theorem createOrganization_stores {suffix : Suffix}
    (h : DB.Stores db (createOrganization casing db user name suffix).1 slug) :
    slug.toList = createRandomSlug casing name.toList suffix.1 := by
  unfold createOrganization at h
  split at h
  · exact absurd h (DB.not_stores rfl)
  · rename_i r hmade
    have hmade := DB.insertOrganization_ok hmade
    have hslug := DB.stores_insert ((DB.enterOrganization_organizations _ _ _).trans hmade.2.2) h
    rw [hslug, String.toList_ofList]

theorem candidateSlug_ok (h : candidateSlug casing folding asked name handle = .ok candidate) :
    validateSlug candidate = .ok () := by
  simp only [candidateSlug, bind_ok, require_ok, exists_unit, pure_ok] at h
  obtain ⟨hvalid, -, rfl⟩ := h
  exact validated_ok.mp hvalid

theorem createManagedOrganization_stores
    (h : DB.Stores db (createManagedOrganization casing folding asked db user name handle).1 slug) :
    validateSlug slug.toList = .ok () := by
  unfold createManagedOrganization at h
  split at h
  · exact absurd h (DB.not_stores rfl)
  · rename_i candidate hcandidate
    split at h
    · exact absurd h (DB.not_stores rfl)
    · rename_i r hmade
      have hmade := DB.insertOrganization_ok (reportTaken_ok.mp hmade)
      have hslug := DB.stores_insert ((DB.enterOrganization_organizations _ _ _).trans hmade.2.2) h
      rw [hslug, String.toList_ofList]
      exact candidateSlug_ok hcandidate

theorem save_stores {o : Organization} (h : save db organization o = .ok d) (hstores : DB.Stores db d slug) :
    slug = o.slug := by
  simp only [save, bind_ok, require_ok, exists_unit] at h
  obtain ⟨-, h⟩ := h
  obtain ⟨k, o', ho', hslug, hnew⟩ := hstores
  rw [DB.saveOrganization_organizations h] at ho'
  dsimp only at ho'
  rw [put_row] at ho'
  split at ho'
  · obtain rfl := Option.some.inj ho'
    exact hslug.symm
  · exact absurd hslug (hnew o' ho')

/-- An update stores the handle it is asked for, in its form, or else the one it read. -/
theorem rename_stores {o : Organization} {device : Option Bool} {lifetime : Option Int}
    (h : rename casing folding kind asked db organization o handle device lifetime = .ok d)
    (hstores : DB.Stores db d slug) :
    validateSlug slug.toList = .ok () ↔ (handle = none → validateSlug o.slug.toList = .ok ()) := by
  simp only [rename, bind_ok, require_ok, exists_unit, reportTaken_ok] at h
  obtain ⟨candidate, hcandidate, -, h⟩ := h
  have hslug : slug = String.ofList candidate := save_stores h hstores
  rw [hslug, String.toList_ofList]
  cases handle with
  | none =>
    obtain rfl : o.slug.toList = candidate := Except.ok.inj hcandidate
    simp
  | some raw =>
    simp only [newSlug, bind_ok, require_ok, exists_unit, pure_ok] at hcandidate
    obtain ⟨hvalid, -, rfl⟩ := hcandidate
    simp [validated_ok.mp hvalid]

/-- The handle of the organization, as it was read. -/
def ReadASlug (read : DB) (organization : Pk) : Prop :=
  ∀ o, read.organizations.row organization = some o → validateSlug o.slug.toList = .ok ()

theorem updateOrganization_stores
    (h : updateOrganization casing folding read asked db user organization handle = .ok d)
    (hstores : DB.Stores db d slug) :
    validateSlug slug.toList = .ok () ↔ (handle = none → ReadASlug read organization) := by
  simp only [updateOrganization, bind_ok, found_ok, require_ok, exists_unit] at h
  obtain ⟨o, ho, -, h⟩ := h
  simpa [ReadASlug, ho] using rename_stores h hstores

theorem updateManagedOrganization_stores {device : Option Bool} {lifetime : Option Int}
    (h : updateManagedOrganization casing folding read asked db user organization handle device lifetime = .ok d)
    (hstores : DB.Stores db d slug) :
    validateSlug slug.toList = .ok () ↔ (handle = none → ReadASlug read organization) := by
  simp only [updateManagedOrganization, bind_ok, found_ok, require_ok, exists_unit] at h
  obtain ⟨o, ho, -, h⟩ := h
  simpa [ReadASlug, ho] using rename_stores h hstores

end Handles

end Lok
