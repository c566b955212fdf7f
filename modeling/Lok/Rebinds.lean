import Lok.Rotations

/-!
# Binding a client again

A client's row is bound over and over: to a changed manifest, to another hub, under a newer key.
Each binding composes it anew, unless its manifest has no requirements: then nothing is taken away,
and what an earlier binding left stays in its mappings, its statuses and its tokens' audience.
-/

namespace Lok

open Table Runs Checks

namespace DB

variable {db d e : DB} {env : Env} {pk : Pk}

/-- The client is composed for what the manifest asks for, and nothing else. -/
structure ComposedFor (d : DB) (pk : Pk) (c : Client) (manifest : Manifest) (m : Membership)
    (declined : List String) :
    Prop where
  mappings : ∀ key i, d.Mapped pk key i ↔ d.grantedTo m.user c.hub declined manifest.requirements key = some i
  hub : ∀ key i, d.Mapped pk key i → ∃ inst, d.instances.row i = some inst ∧ some inst.hub = c.hub
  statuses : ∀ key, (∃ status, (key, status) ∈ c.statuses) ↔ ∃ r ∈ manifest.requirements, r.key = key
  scopes : ∀ s, s ∈ c.scopes ↔ ∃ row, d.scopes.row s = some row ∧ row.organization = m.organization ∧
    row.identifier ∈ manifest.scopes
  audience : ∃ names, d.audiences pk c = .services ("lok" :: names) ∧ ∀ n, n ∈ names ↔ ∃ key i inst,
    d.grantedTo m.user c.hub declined manifest.requirements key = some i ∧ d.instances.row i = some inst
      ∧ inst.instanceId = n

/-! ## What the mappings give -/

theorem grantedTo_instance {user i : Pk} {hub : Option Pk} {declined : List String} {reqs : List Requirement}
    {key : String} (h : db.grantedTo user hub declined reqs key = some i) :
    ∃ inst, db.instances.row i = some inst ∧ some inst.hub = hub := by
  obtain ⟨r, -, hr⟩ := List.exists_of_findSome?_eq_some h
  split at hr
  · obtain ⟨inst, hinst, -, hhub⟩ := findInstance_some hr
    exact ⟨inst, hinst, hhub⟩
  · cases hr

theorem mem_instanceAudiences {n : String} : n ∈ db.instanceAudiences pk ↔
    ∃ key i inst, db.Mapped pk key i ∧ db.instances.row i = some inst ∧ inst.instanceId = n := by
  simp only [instanceAudiences, mem_sortedSet, mappingsOf, List.mem_filterMap, List.mem_map, Prod.exists,
    Option.map_eq_some_iff]
  constructor
  · intro h
    obtain ⟨⟨c, i, key⟩, ⟨k, _, hk, rfl⟩, inst, hinst, rfl⟩ := h
    obtain ⟨hrow, hclient⟩ := mem_filter.mp hk
    obtain rfl : c = pk := by simpa using hclient
    exact ⟨key, i, inst, ⟨k, hrow⟩, hinst, rfl⟩
  · intro h
    obtain ⟨key, i, inst, ⟨k, hrow⟩, hinst, rfl⟩ := h
    exact ⟨⟨pk, i, key⟩, ⟨k, _, mem_filter.mpr ⟨hrow, by simp⟩, rfl⟩, inst, hinst, rfl⟩

theorem composedFor_iff {c : Client} {manifest : Manifest} {m : Membership} {declined : List String}
    (hrelease : c.release.isSome = true) (hscopes : c.scopes = d.scopesNamed manifest.scopes m.organization) :
    ComposedFor d pk c manifest m declined ↔
      (∀ key i, d.Mapped pk key i ↔ d.grantedTo m.user c.hub declined manifest.requirements key = some i) ∧
        ∀ key, (∃ status, (key, status) ∈ c.statuses) ↔ ∃ r ∈ manifest.requirements, r.key = key := by
  constructor
  · intro h
    exact ⟨h.mappings, h.statuses⟩
  · intro h
    obtain ⟨hmapped, hstatuses⟩ := h
    refine ⟨hmapped, fun key i hi => grantedTo_instance ((hmapped key i).mp hi), hstatuses, ?_, ?_⟩
    · intro s
      simp only [hscopes, scopesNamed, mem_pks, Bool.and_eq_true, List.contains_eq_mem,
        decide_eq_true_eq, beq_iff_eq]
      constructor
      · intro h
        obtain ⟨row, hrow, hmem, horg⟩ := h
        exact ⟨row, hrow, horg, hmem⟩
      · intro h
        obtain ⟨row, hrow, horg, hmem⟩ := h
        exact ⟨row, hrow, hmem, horg⟩
    · refine ⟨d.instanceAudiences pk, by rw [audiences, if_pos hrelease], fun n => ?_⟩
      simp only [mem_instanceAudiences, hmapped]

/-! ## One binding -/

/-- Without requirements a client keeps its mappings and statuses; with some it is composed anew. -/
theorem installClient_composed {user organization : Pk} {bound : Client} {manifest : Manifest}
    {declined : List String}
    (h : e.installClient pk bound manifest user organization declined = .ok d) :
    d.instances = e.instances ∧ d.users = e.users ∧ ∃ c, d.clients.row pk = some c ∧ c.hub = bound.hub ∧
      c.release = bound.release ∧ c.scopes = d.scopesNamed manifest.scopes organization ∧
      (manifest.requirements = [] → d.mappings = e.mappings ∧ c.statuses = bound.statuses) ∧
      (manifest.requirements ≠ [] →
        (∀ key i, d.Mapped pk key i ↔ e.grantedTo user bound.hub declined manifest.requirements key = some i) ∧
          ∀ key, (∃ status, (key, status) ∈ c.statuses) ↔ ∃ r ∈ manifest.requirements, r.key = key) := by
  simp only [installClient, saveClient, bind_ok, require_ok, exists_unit, pure_ok] at h
  obtain ⟨_, ⟨-, rfl⟩, f, hf, rfl⟩ := h
  have hbound : (e.clients.put pk bound).row pk = some bound := by rw [put_row, if_pos rfl]
  by_cases hreqs : manifest.requirements = []
  · rw [hreqs, autoCompose_nil] at hf
    cases hf
    refine ⟨rfl, rfl, _, modify_row_eq_some.mpr (.inr ⟨rfl, bound, hbound, rfl⟩), rfl, rfl, rfl,
      fun _ => ⟨rfl, rfl⟩, ?_⟩
    intro hne
    exact absurd hreqs hne
  · rcases @autoCompose_cases ({ e with clients := e.clients.put pk bound } : DB) pk user bound.hub declined
      manifest.requirements hreqs with ⟨x, statuses, hok, hdone, -⟩ | ⟨⟨r, hr⟩, -⟩
    · rw [hok] at hf
      cases hf
      have hcomposed := modify_row_eq_some (f := fun c : Client => { c with statuses := statuses }).mpr
        (.inr ⟨rfl, bound, hbound, rfl⟩)
      refine ⟨rfl, rfl, _, modify_row_eq_some.mpr (.inr ⟨rfl, _, hcomposed, rfl⟩), rfl, rfl, rfl, ?_, ?_⟩
      · intro hnone
        exact absurd hnone hreqs
      · intro _
        exact ⟨hdone.mapped, hdone.keys⟩
    · rw [hr] at hf
      cases hf

/-- Nothing an earlier binding made is there. -/
structure Uncomposed (db : DB) (pk : Pk) (statuses : List (String × MappingStatus)) : Prop where
  mappings : ∀ key i, ¬ db.Mapped pk key i
  statuses : statuses = []

theorem Uncomposed.congr {statuses : List (String × MappingStatus)}
    (h : ∀ key i, d.Mapped pk key i ↔ db.Mapped pk key i) :
    d.Uncomposed pk statuses ↔ db.Uncomposed pk statuses := by
  constructor
  · intro hbare
    exact ⟨fun key i hi => hbare.mappings key i ((h key i).mpr hi), hbare.statuses⟩
  · intro hbare
    exact ⟨fun key i hi => hbare.mappings key i ((h key i).mp hi), hbare.statuses⟩

/-- What one binding leaves of what it found. -/
structure RebindKept (db d : DB) (pk : Pk) (c c' : Client) (manifest : Manifest) : Prop where
  kept : manifest.requirements = [] → (∀ key i, d.Mapped pk key i ↔ db.Mapped pk key i) ∧ c'.statuses = c.statuses
  anew : manifest.requirements ≠ [] → c'.statuses ≠ []

/-- A binding composes its client exactly when the manifest has requirements or nothing was there before. -/
theorem bindClient_composed {membership : Pk} {c : Client} {manifest : Manifest} {hub mandate : Option Pk}
    {declined : List String} (h : db.bindClient env pk c manifest membership hub declined mandate = .ok d) :
    ∃ m c', db.memberships.row membership = some m ∧ d.clients.row pk = some c'
    ∧ RebindKept db d pk c c' manifest ∧
      (ComposedFor d pk c' manifest m declined ↔ manifest.requirements ≠ [] ∨ db.Uncomposed pk c.statuses) := by
  obtain ⟨m, t, node, stale, hm, hstale, h⟩ := bindClient_installs h
  have hmapped : ∀ key i, (({ db with devices := t } : DB).dropStale pk stale).Mapped pk key i
    ↔ db.Mapped pk key i :=
    fun key i => exists_congr fun k => dropStale_mappings hstale hstale
  generalize ({ db with devices := t } : DB).dropStale pk stale = f at h hmapped
  obtain ⟨hinstances, husers, c', hc', hhub, hrelease, hscopes, hkept, hanew⟩ := installClient_composed h
  have hgranted : ∀ key, d.grantedTo m.user c'.hub declined manifest.requirements key
      = f.grantedTo m.user hub declined manifest.requirements key := by
    intro key
    rw [hhub]
    exact grantedTo_congr hinstances husers _ _
  have hcomposed : ComposedFor d pk c' manifest m declined ↔ _ := composedFor_iff (by rw [hrelease]; rfl) hscopes
  simp only [hgranted] at hcomposed
  refine ⟨m, c', hm, hc', ⟨?_, ?_⟩, ?_⟩
  · intro hreqs
    obtain ⟨hmappings, hstatuses⟩ := hkept hreqs
    refine ⟨fun key i => ?_, hstatuses⟩
    rw [← hmapped, Mapped, Mapped, hmappings]
  · intro hreqs hnone
    obtain ⟨r, rs, heq⟩ := List.exists_cons_of_ne_nil hreqs
    obtain ⟨status, hstatus⟩ := ((hanew hreqs).2 r.key).mpr ⟨r, by simp [heq], rfl⟩
    simp [hnone] at hstatus
  · rw [hcomposed]
    by_cases hreqs : manifest.requirements = []
    · obtain ⟨hmappings, hstatuses⟩ := hkept hreqs
      simp only [hreqs, ne_eq, not_true_eq_false, false_or, List.not_mem_nil, false_and,
        exists_false, iff_false, grantedTo,
        List.findSome?_nil, reduceCtorEq, hstatuses]
      constructor
      · intro hempty
        refine ⟨fun key i hi => hempty.1 key i ?_, ?_⟩
        · rw [Mapped, hmappings]
          exact (hmapped key i).mpr hi
        · refine List.eq_nil_iff_forall_not_mem.mpr fun x hx => ?_
          exact hempty.2 x.1 ⟨x.2, hx⟩
      · intro hbare
        refine ⟨fun key i hi => hbare.mappings key i ((hmapped key i).mp ?_), fun key hkey => ?_⟩
        · rw [Mapped, hmappings] at hi
          exact hi
        · have hnone : c.statuses = [] := hbare.statuses
          obtain ⟨status, hstatus⟩ := hkey
          simp [hnone] at hstatus
    · exact ⟨fun _ => .inl hreqs, fun _ => hanew hreqs⟩

/-! ## Any number of bindings -/

/-- One binding of a client: the object that is bound, and to what. -/
structure Rebinding where
  client : Client
  manifest : Manifest
  membership : Pk
  hub : Option Pk
  declined : List String
  mandate : Option Pk

/-- What happens to a client's row: it is bound, or whatever else goes on, which maps it to nothing new and leaves
its statuses alone. -/
inductive RebindStep (env : Env) (pk : Pk) : DB → Option Rebinding → DB → Prop
  | bind {db d : DB} {b : Rebinding} {c : Client} (hc : db.clients.row pk = some c)
      (hstatuses : b.client.statuses = c.statuses)
      (h : db.bindClient env pk b.client b.manifest b.membership b.hub b.declined b.mandate = .ok d) :
      RebindStep env pk db (some b) d
  | elsewhere {db d : DB} (hmappings : ∀ key i, d.Mapped pk key i → db.Mapped pk key i)
      (hstatuses : ∀ c', d.clients.row pk = some c' → ∃ c, db.clients.row pk = some c ∧ c'.statuses = c.statuses) :
      RebindStep env pk db none d

/-- A binding without requirements, or anything but a binding. -/
def idle (l : Option Rebinding) : Prop := ∀ b, l = some b → b.manifest.requirements = []

def RowUncomposed (db : DB) (pk : Pk) : Prop := ∀ c, db.clients.row pk = some c → db.Uncomposed pk c.statuses

theorem RowUncomposed.step {l : Option Rebinding} (h : db.RowUncomposed pk) (hstep : RebindStep env pk db l d)
    (hidle : idle l) :
    d.RowUncomposed pk := by
  intro c' hc'
  cases hstep with
  | bind hc hstatuses hbind =>
    obtain ⟨m, c₁, -, hc₁, hrebound, -⟩ := bindClient_composed hbind
    obtain rfl : c' = c₁ := by simpa [hc'] using hc₁
    obtain ⟨hmapped, hsame⟩ := hrebound.kept (hidle _ rfl)
    rw [Uncomposed.congr hmapped, hsame, hstatuses]
    exact h _ hc
  | elsewhere hmappings hstatuses =>
    obtain ⟨c, hc, hsame⟩ := hstatuses c' hc'
    have hbare := h c hc
    exact ⟨fun key i hi => hbare.mappings key i (hmappings key i hi), hsame.trans hbare.statuses⟩

/-- Composed once, a client has statuses for good. -/
def Marked (db : DB) (pk : Pk) : Prop := ∀ c, db.clients.row pk = some c → c.statuses ≠ []

theorem Marked.step {l : Option Rebinding} (h : db.Marked pk) (hstep : RebindStep env pk db l d) :
    d.Marked pk := by
  intro c' hc'
  cases hstep with
  | bind hc hstatuses hbind =>
    rename_i b c
    obtain ⟨m, c₁, -, hc₁, hrebound, -⟩ := bindClient_composed hbind
    obtain rfl : c' = c₁ := by simpa [hc'] using hc₁
    by_cases hreqs : b.manifest.requirements = []
    · obtain ⟨-, hsame⟩ := hrebound.kept hreqs
      rw [hsame, hstatuses]
      exact h c hc
    · exact hrebound.anew hreqs
  | elsewhere hmappings hstatuses =>
    obtain ⟨c, hc, hsame⟩ := hstatuses c' hc'
    rw [hsame]
    exact h c hc

theorem marked_of_bind {b : Rebinding} (hstep : RebindStep env pk db (some b) d)
    (hreqs : b.manifest.requirements ≠ []) :
    d.Marked pk := by
  intro c' hc'
  cases hstep with
  | bind hc hstatuses hbind =>
    obtain ⟨m, c₁, -, hc₁, hrebound, -⟩ := bindClient_composed hbind
    obtain rfl : c' = c₁ := by simpa [hc'] using hc₁
    exact hrebound.anew hreqs

theorem marked_of_run {history : List (Option Rebinding)} (hrun : Run (RebindStep env pk) db history e)
    {b : Rebinding} (hb : some b ∈ history) (hreqs : b.manifest.requirements ≠ []) : e.Marked pk := by
  induction hrun with
  | nil => cases hb
  | cons hstep hrest ih =>
    rcases List.mem_cons.mp hb with heq | hb
    · subst heq
      exact Run.invariant (P := fun d => DB.Marked d pk) (fun hI hst => hI.step hst) hrest
        (marked_of_bind hstep hreqs)
    · exact ih hb

/-- In every history of a client, from its registration on, a binding composes it for what its manifest asks for
exactly when the manifest has requirements or none before it had any. -/
theorem rebinds_composed {history : List (Option Rebinding)} {b : Rebinding} (hbare : db.RowUncomposed pk)
    (hrun : Run (RebindStep env pk) db history e) (hbind : RebindStep env pk e (some b) d) :
    ∃ m c, e.memberships.row b.membership = some m ∧ d.clients.row pk = some c ∧
      (ComposedFor d pk c b.manifest m b.declined ↔
        b.manifest.requirements ≠ [] ∨ ∀ b', some b' ∈ history → b'.manifest.requirements = []) := by
  cases hbind with
  | bind hc hstatuses hbind =>
    rename_i c
    obtain ⟨m, c', hm, hc', -, hcomposed⟩ := bindClient_composed hbind
    refine ⟨m, c', hm, hc', hcomposed.trans (or_congr_right ?_)⟩
    rw [hstatuses]
    constructor
    · intro hnow b' hb'
      by_contra hreqs
      exact marked_of_run hrun hb' hreqs c hc hnow.statuses
    · intro hall
      have hidle : ∀ l ∈ history, idle l := by
        intro l hl b' heq
        subst heq
        exact hall b' hl
      exact Run.invariant (P := fun d => DB.RowUncomposed d pk) (fun hI hst => hI.step hst.1 hst.2)
        (hrun.restrict hidle) hbare c hc

def idleApp : Manifest := { plainApp with requirements := [] }

/-- Ann approves the app, Bob signs up, and she approves its next release, which needs as little. -/
theorem rebinds_composed_again :
    let db := run plainEnv .empty [.createUser "ann" [], .createOrganization "org" 0 false, .configureHub 0 plainHub,
      .startDeviceCode idleApp .desktop .interface [] false 600 false]
    let later : Manifest := { idleApp with version := "2" }
    ∃ c e c' d m c'', db.bindClient plainEnv 0 c idleApp 0 (some 0) [] none = .ok e ∧
      (e.createUser "bob" []).bindClient plainEnv 0 c' later 0 (some 0) [] none = .ok d ∧
      d.clients.row 0 = some c'' ∧ ComposedFor d 0 c'' later m [] := by
  intro db later
  have hnone : (db.mappings.rows.isEmpty && (db.clients.row 0).any (·.statuses.isEmpty)) = true := by decide +kernel
  have hbinds : (db.clients.row 0).any (fun c =>
      (db.bindClient plainEnv 0 c idleApp 0 (some 0) [] none).toOption.any fun e =>
      ((e.createUser "bob" []).clients.row 0).any fun c' =>
        ((e.createUser "bob" []).bindClient plainEnv 0 c' later 0 (some 0) [] none).isOk) = true := by decide +kernel
  obtain ⟨c, hc, hok⟩ := (Option.any_eq_true _ _).mp hbinds
  obtain ⟨e, he, hok⟩ := exists_ok_and hok
  obtain ⟨c', hc', hok⟩ := (Option.any_eq_true _ _).mp hok
  obtain ⟨d, hd⟩ := exists_ok hok
  simp only [hc, Option.any_some, Bool.and_eq_true, List.isEmpty_iff] at hnone
  have hbare : db.RowUncomposed 0 := by
    intro x hx
    obtain rfl : c = x := by simpa [hc] using hx
    refine ⟨fun key i hi => ?_, hnone.2⟩
    obtain ⟨k, hk⟩ := hi
    have hmem := mem_rows.mpr hk
    simp [hnone.1] at hmem
  have hjoins : RebindStep plainEnv 0 e none (e.createUser "bob" []) := by
    unfold createUser
    split
    · exact .elsewhere (fun _ _ => id) fun c hc => ⟨c, hc, rfl⟩
    · exact .elsewhere (fun _ _ => id) fun c hc => ⟨c, hc, rfl⟩
  have hrun : Run (RebindStep plainEnv 0) db [some ⟨c, idleApp, 0, some 0, [], none⟩, none] (e.createUser "bob" []) :=
    .cons (.bind hc rfl he) (.single hjoins)
  have hstep : RebindStep plainEnv 0 (e.createUser "bob" []) (some ⟨c', later, 0, some 0, [], none⟩) d :=
    .bind hc' rfl hd
  obtain ⟨m, c'', -, hc'', hcomposed⟩ := rebinds_composed hbare hrun hstep
  refine ⟨c, e, c', d, m, c'', he, hd, hc'', hcomposed.mpr (.inr fun b hb => ?_)⟩
  obtain rfl : b = ⟨c, idleApp, 0, some 0, [], none⟩ := by simpa using hb
  rfl

/-- A worker that needed `data` at first, and nothing in its next release. -/
def needyWorker : Manifest := { plainWorker with requirements := [⟨"data", "data", false⟩] }

def laterWorker : Manifest := { plainWorker with version := "2" }

/-- The worker logs in with its next release, and its tokens are still for `data`. -/
theorem requirements_dropped_still_composed :
    let hub : HubManifest := { plainHub with clients := [⟨"worker", none, needyWorker, plainKey⟩] }
    let db := run plainEnv .empty [.createUser "ann" [], .createOrganization "org" 0 false, .configureHub 0 hub,
      .configureHubMandates 0 hub, .authenticateKey { workerLogin with manifest := needyWorker },
      .authenticateKey { workerLogin with manifest := laterWorker }]
    ∃ c, db.clients.row 0 = some c ∧ c.manifest = some laterWorker ∧ db.audiences 0 c = .services ["lok", "data"] ∧
      ∀ m, ¬ ComposedFor db 0 c laterWorker m [] := by
  intro hub db
  have hlater : (db.clients.row 0).any (fun c => c.manifest == some laterWorker &&
      db.audiences 0 c == .services ["lok", "data"]) = true := by decide +kernel
  obtain ⟨c, hc, h⟩ := (Option.any_eq_true _ _).mp hlater
  simp only [Bool.and_eq_true, beq_iff_eq] at h
  refine ⟨c, hc, h.1, h.2, fun m hcomposed => ?_⟩
  obtain ⟨names, haudience, hnames⟩ := hcomposed.audience
  rw [h.2] at haudience
  cases haudience
  obtain ⟨key, i, inst, hgranted, -⟩ := (hnames "data").mp (by simp)
  cases hgranted

end DB

end Lok
