import Lok.Approvals

/-!
# What a client is composed of

Composing reads the requirements of a manifest one after the other. A key belongs to the first
requirement under it that was wanted and has an instance; a later one that finds another instance
is left out, or refused if it cannot be done without. So what a client is mapped to is a function
of the requirements, the instances and the user alone.
-/

namespace Lok

open Table Checks

/-- Not among the requirements the user declined. -/
def wanted (declined : List String) (req : Requirement) : Bool := !(req.optional && declined.contains req.key)

namespace DB

variable {db d : DB} {client user : Pk} {hub : Option Pk} {declined : List String}

/-- The instance that the requirements give a client under a key. -/
def grantedTo (db : DB) (user : Pk) (hub : Option Pk) (declined : List String)
    (reqs : List Requirement) (key : String) :
    Option Pk :=
  reqs.findSome? fun r => if r.key == key && wanted declined r then db.findInstance r.service user hub else none

/-- A requirement has an instance, and none before it was given another under its key. -/
def Placeable (db : DB) (user : Pk) (hub : Option Pk) (declined : List String) (before : List Requirement)
    (req : Requirement) :
    Prop :=
  ∃ i, db.findInstance req.service user hub = some i ∧
    ∀ j, db.grantedTo user hub declined before req.key = some j → j = i

/-- Whatever the manifest cannot do without is there. -/
def Composable (db : DB) (user : Pk) (hub : Option Pk) (declined : List String) (reqs : List Requirement) : Prop :=
  ∀ before req after, reqs = before ++ req :: after → req.optional = false →
    db.Placeable user hub declined before req

/-- The client is mapped to the instance under the key. -/
def Mapped (db : DB) (client : Pk) (key : String) (instance_ : Pk) : Prop :=
  ∃ k, db.mappings.row k = some ⟨client, instance_, key⟩

/-! ## One requirement -/

theorem grantedTo_snoc (db : DB) (reqs : List Requirement) (req : Requirement) (key : String) :
    db.grantedTo user hub declined (reqs ++ [req]) key = (db.grantedTo user hub declined reqs key).or
      (if req.key == key && wanted declined req then db.findInstance req.service user hub else none) := by
  simp only [grantedTo, List.findSome?_append, List.findSome?_cons, List.findSome?_nil]
  cases (if req.key == key && wanted declined req then db.findInstance req.service user hub else none) <;> rfl

theorem mem_setStatus {statuses : List (String × MappingStatus)} {key k : String} {status : MappingStatus} :
    (∃ s, (k, s) ∈ setStatus statuses key status) ↔ (∃ s, (k, s) ∈ statuses) ∨ k = key := by
  simp only [setStatus, List.mem_append, List.mem_filter, List.mem_singleton, bne_iff_ne, Prod.mk.injEq]
  constructor
  · intro h
    obtain ⟨s, ⟨hs, -⟩ | ⟨rfl, -⟩⟩ := h
    · exact .inl ⟨s, hs⟩
    · exact .inr rfl
  · intro h
    by_cases hk : k = key
    · exact ⟨status, .inr ⟨hk, rfl⟩⟩
    · obtain ⟨s, hs⟩ := h.resolve_right hk
      exact ⟨s, .inl ⟨hs, hk⟩⟩

/-- What composing has made of the requirements `before`, starting at `db`. -/
structure Composing (db : DB) (client user : Pk) (hub : Option Pk) (declined : List String)
    (before : List Requirement)
    (s : DB × List (String × MappingStatus)) : Prop where
  same : ∃ x, s.1 = { db with mappings := x }
  mapped : ∀ key i, s.1.Mapped client key i ↔ db.grantedTo user hub declined before key = some i
  keys : ∀ key, (∃ status, (key, status) ∈ s.2) ↔ ∃ r ∈ before, r.key = key

theorem Composing.leaveOut {before : List Requirement} {s : DB × List (String × MappingStatus)} {req : Requirement}
    (h : Composing db client user hub declined before s) (status : MappingStatus)
    (hnone : ∀ i, wanted declined req = true → db.findInstance req.service user hub = some i →
      (db.grantedTo user hub declined before req.key).isSome = true) :
    Composing db client user hub declined (before ++ [req]) (s.1, setStatus s.2 req.key status) where
  same := h.same
  mapped key i := by
    have hsame : db.grantedTo user hub declined (before ++ [req]) key = db.grantedTo user
      hub declined before key := by
      rw [grantedTo_snoc]
      cases hbefore : db.grantedTo user hub declined before key with
      | some j => rfl
      | none =>
        rw [Option.none_or]
        split
        · rename_i hreq
          simp only [Bool.and_eq_true, beq_iff_eq] at hreq
          obtain ⟨rfl, hwanted⟩ := hreq
          cases hfind : db.findInstance req.service user hub with
          | none => rfl
          | some i =>
            have := hnone i hwanted hfind
            rw [hbefore] at this
            cases this
        · rfl
    rw [hsame]
    exact h.mapped key i
  keys key := by
    rw [mem_setStatus, h.keys key]
    simp [or_comm, eq_comm]

theorem Composing.map {before : List Requirement} {s : DB × List (String × MappingStatus)} {req : Requirement}
    {e : DB} {i : Pk} (h : Composing db client user hub declined before s) (hwanted : wanted declined req = true)
    (hfind : db.findInstance req.service user hub = some i) (he : s.1.mapInstance client i req.key = .ok e) :
    Composing db client user hub declined (before ++ [req]) (e, setStatus s.2 req.key .granted) ∧
      ∀ j, db.grantedTo user hub declined before req.key = some j → j = i := by
  have hkeys : ∀ key, (∃ status, (key, status) ∈ setStatus s.2 req.key .granted)
    ↔ ∃ r ∈ before ++ [req], r.key = key := by
    intro key
    rw [mem_setStatus, h.keys key]
    simp [or_comm, eq_comm]
  rcases mapInstance_ok he with ⟨rfl, hthere⟩ | ⟨rfl, hfree⟩
  · have hbefore : db.grantedTo user hub declined before req.key = some i := (h.mapped req.key i).mp hthere
    have hleft : Composing db client user hub declined (before ++ [req]) (s.1, setStatus s.2 req.key .granted) :=
      h.leaveOut .granted fun _ _ _ => by simp [hbefore]
    refine ⟨⟨hleft.same, hleft.mapped, hkeys⟩, ?_⟩
    intro j hj
    rw [hbefore] at hj
    exact (Option.some.inj hj).symm
  · have hbefore : db.grantedTo user hub declined before req.key = none := by
      cases hb : db.grantedTo user hub declined before req.key with
      | none => rfl
      | some j =>
        obtain ⟨k, hk⟩ := (h.mapped req.key j).mpr hb
        exact absurd ⟨rfl, rfl⟩ (hfree k _ hk)
    refine ⟨⟨?_, ?_, hkeys⟩, fun j hj => by simp [hbefore] at hj⟩
    · obtain ⟨x, hx⟩ := h.same
      exact ⟨_, by rw [hx]⟩
    · intro key j
      rw [grantedTo_snoc, hwanted, Bool.and_true]
      have hold := h.mapped key j
      have hinsert : Mapped { s.1 with mappings := s.1.mappings.insert ⟨client, i, req.key⟩ } client key j ↔
          (i = j ∧ req.key = key) ∨ s.1.Mapped client key j := by
        simp only [Mapped, insert_row_eq_some, exists_or]
        simp
      rw [hinsert, hold]
      by_cases hkey : req.key = key
      · subst hkey
        simp [hbefore, hfind]
      · have hne : (req.key == key) = false := by simp [hkey]
        simp [hkey, hne]

/-- One requirement is composed, or is refused: it cannot be done without, and is not to be had. -/
theorem composeOne_cases {before : List Requirement} {s : DB × List (String × MappingStatus)} (req : Requirement)
    (h : Composing db client user hub declined before s) :
    (∃ t, composeOne client user hub declined s req = .ok t ∧ Composing db client user hub declined
      (before ++ [req]) t ∧
        (req.optional = false → db.Placeable user hub declined before req)) ∨
      (∃ e, composeOne client user hub declined s req = .error e) ∧
        ¬ (req.optional = false → db.Placeable user hub declined before req) := by
  obtain ⟨x, hx⟩ := h.same
  have hsame : s.1.findInstance req.service user hub = db.findInstance req.service user hub := by rw [hx]; rfl
  by_cases hdeclined : (req.optional && declined.contains req.key) = true
  · left
    have hunwanted : wanted declined req = false := by rw [wanted, hdeclined, Bool.not_true]
    refine ⟨_, if_pos hdeclined, h.leaveOut .denied fun _ hwanted => by simp [hunwanted] at hwanted, ?_⟩
    intro hrequired
    rw [hrequired] at hdeclined
    cases hdeclined
  · have hwanted : wanted declined req = true := by rw [wanted, Bool.eq_false_iff.mpr hdeclined, Bool.not_false]
    cases hmap : s.1.mapRequirement client user hub req with
    | ok e =>
      have hcompose : composeOne client user hub declined s req = .ok (e, setStatus s.2 req.key .granted) := by
        rw [composeOne, if_neg hdeclined, hmap]
      rw [hcompose]
      left
      obtain ⟨i, hi, he⟩ := mapRequirement_ok hmap
      rw [hsame] at hi
      obtain ⟨hnext, hfirst⟩ := h.map hwanted hi he
      exact ⟨_, rfl, hnext, fun _ => ⟨i, hi, hfirst⟩⟩
    | error e =>
      have hcompose : composeOne client user hub declined s req =
          if req.optional then .ok (s.1, setStatus s.2 req.key .unavailable)
          else refuse .exception s!"Unable to find instance for requirement {req.service}" := by
        rw [composeOne, if_neg hdeclined, hmap]
      rw [hcompose]
      -- no instance, or the key went to another one
      have hplace : ∀ i, db.findInstance req.service user hub = some i →
          ∃ j, db.grantedTo user hub declined before req.key = some j ∧ j ≠ i := by
        intro i hi
        obtain ⟨k, j, hk, hne⟩ := mapInstance_error (mapRequirement_error hmap (hsame.trans hi))
        exact ⟨j, (h.mapped _ _).mp ⟨k, hk⟩, hne⟩
      by_cases hoptional : req.optional = true
      · left
        refine ⟨_, if_pos hoptional, h.leaveOut .unavailable fun i _ hi => ?_, fun hrequired => ?_⟩
        · obtain ⟨j, hj, -⟩ := hplace i hi
          simp [hj]
        · rw [hoptional] at hrequired
          cases hrequired
      · right
        refine ⟨⟨_, if_neg hoptional⟩, fun hall => ?_⟩
        obtain ⟨i, hi, hfirst⟩ := hall (by simpa using hoptional)
        obtain ⟨j, hj, hne⟩ := hplace i hi
        exact hne (hfirst j hj)

theorem composeOne_error {s : DB × List (String × MappingStatus)} {req : Requirement} {e : Refused}
    (h : composeOne client user hub declined s req = .error e) : e.kind = .exception := by
  unfold composeOne at h
  split at h
  · cases h
  · split at h
    · cases h
    · split at h
      · cases h
      · cases h
        rfl

/-! ## All of them -/

theorem Composing.start (db : DB) (client user : Pk) (hub : Option Pk) (declined : List String) :
    Composing db client user hub declined []
    ({ db with mappings := db.mappings.keep fun _ m => m.client != client }, []) where
  same := ⟨_, rfl⟩
  mapped key i := by
    simp [Mapped, grantedTo, keep_row_eq_some]
  keys key := by simp

theorem autoCompose_nil (db : DB) : db.autoCompose client hub [] user declined = .ok db := rfl

theorem autoCompose_eq {reqs : List Requirement} (hreqs : reqs ≠ []) :
    db.autoCompose client hub reqs user declined = (reqs.foldlM (composeOne client user hub declined)
      ({ db with mappings := db.mappings.keep fun _ m => m.client != client }, [])).bind fun s =>
        .ok { s.1 with clients := s.1.clients.modify client fun c => { c with statuses := s.2 } } := by
  unfold autoCompose
  rw [if_neg (by simpa using hreqs)]
  rfl

/-- A manifest with requirements is composed as its requirements say, or one of them is not to be had. -/
theorem autoCompose_cases {reqs : List Requirement} (hreqs : reqs ≠ []) :
    (∃ x statuses, db.autoCompose client hub reqs user declined
          = .ok { db with
              mappings := x, clients := db.clients.modify client fun c => { c with statuses := statuses } } ∧
        Composing db client user hub declined reqs ({ db with mappings := x }, statuses) ∧
        db.Composable user hub declined reqs) ∨
      (∃ e, db.autoCompose client hub reqs user declined = .error e) ∧ ¬ db.Composable user hub declined reqs := by
  rw [autoCompose_eq hreqs]
  rcases foldlM_prefix (P := Composing db client user hub declined)
    (Q := fun before req => req.optional = false → db.Placeable user hub declined before req)
    (fun _ req _ => composeOne_cases req) reqs [] _ (Composing.start db client user hub declined) with
    ⟨⟨e, statuses⟩, he, hdone, hall⟩ | ⟨⟨e, he⟩, mid, req, after, hsplit, hno⟩
  · left
    obtain ⟨x, hx⟩ := hdone.same
    obtain rfl : e = { db with mappings := x } := hx
    exact ⟨x, statuses, by rw [he]; rfl, hdone,
      fun before req after h hrequired => hall before req after h hrequired⟩
  · right
    refine ⟨⟨e, by rw [he]; rfl⟩, fun hall => hno ?_⟩
    exact hall mid req after hsplit

theorem autoCompose_error {reqs : List Requirement} {e : Refused}
    (h : db.autoCompose client hub reqs user declined = .error e) :
    e.kind = .exception := by
  by_cases hreqs : reqs = []
  · rw [hreqs, autoCompose_nil] at h
    cases h
  · rw [autoCompose_eq hreqs] at h
    cases hfold : reqs.foldlM (composeOne client user hub declined)
      ({ db with mappings := db.mappings.keep fun _ m => m.client != client }, []) with
    | error x =>
      rw [hfold] at h
      cases h
      exact foldlM_error (fun _ _ _ => composeOne_error) hfold
    | ok s =>
      rw [hfold] at h
      cases h

theorem autoCompose_elsewhere {reqs : List Requirement}
    (h : db.autoCompose client hub reqs user declined = .ok d) :
    (∃ x y, d = { db with mappings := x, clients := y })
    ∧ ∀ k, k ≠ client → d.clients.row k = db.clients.row k := by
  by_cases hreqs : reqs = []
  · rw [hreqs, autoCompose_nil] at h
    cases h
    exact ⟨⟨_, _, rfl⟩, fun _ _ => rfl⟩
  · rcases @autoCompose_cases db client user hub declined reqs hreqs with ⟨x, statuses, hok, -, -⟩ | ⟨⟨e, he⟩, -⟩
    · rw [hok] at h
      cases h
      exact ⟨⟨_, _, rfl⟩, fun k hk => modify_row_of_ne hk⟩
    · rw [he] at h
      cases h

/-! ## What composing reads -/

theorem grantedTo_congr (hinstances : d.instances = db.instances) (husers : d.users = db.users)
    (reqs : List Requirement)
    (key : String) : d.grantedTo user hub declined reqs key = db.grantedTo user hub declined reqs key := by
  simp only [grantedTo, findInstance, hinstances, husers]

theorem composable_congr (hinstances : d.instances = db.instances) (husers : d.users = db.users)
    (reqs : List Requirement) :
    d.Composable user hub declined reqs ↔ db.Composable user hub declined reqs := by
  simp only [Composable, Placeable, grantedTo_congr hinstances husers, findInstance, hinstances, husers]

theorem autoCompose_isOk {reqs : List Requirement} :
    (∃ d, db.autoCompose client hub reqs user declined = .ok d) ↔ db.Composable user hub declined reqs := by
  by_cases hreqs : reqs = []
  · subst hreqs
    refine ⟨fun _ before req after h => by simp at h, fun _ => ⟨db, rfl⟩⟩
  · rcases @autoCompose_cases db client user hub declined reqs hreqs with ⟨x, statuses, hok, -, hall⟩ | ⟨⟨e, he⟩,
      hno⟩
    · exact ⟨fun _ => hall, fun _ => ⟨_, hok⟩⟩
    · refine ⟨fun h => ?_, fun h => absurd h hno⟩
      obtain ⟨d, hd⟩ := h
      rw [he] at hd
      cases hd

end DB

end Lok
