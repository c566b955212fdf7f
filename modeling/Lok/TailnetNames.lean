import Lok.Calls
import Lok.Runs
import Lok.Table

/-!
# Names and ids of tailnets

The layers store the name of a tailnet, the control plane is called with its id. The repository looks an id
up by listing the tailnets, and keeps it under the name. Calls of one process share what is kept; whoever
else manages the control plane does not know of it.
-/

namespace Lok

namespace TailnetNames

open Calls Runs

structure Tailnet where
  name : String
  organization : Option String

/-- A tailnet was acted on: the name the call was given, and the name the tailnet bore. -/
structure Act where
  asked : String
  id : Nat
  bore : String

/-- The control plane, whose ids are never used again, the ids the process keeps, and, as nothing records
it, what calls acted on. -/
structure Network where
  tailnets : Table Tailnet
  ids : String → Option Nat
  acts : List Act

/-- A call to the control plane about one tailnet. -/
inductive Rpc
  -- machines, policies, DNS, keys and the lock
  | other
  | update (name : Option String)
  | delete

/-- What becomes of a call to the control plane. -/
inductive Wire
  | answers
  -- it is done, and the answer does not arrive, or cannot be read
  | lost
  | refuses (code : String)

def put (ids : String → Option Nat) (listing : List (Nat × Tailnet)) : String → Option Nat :=
  listing.foldl (fun ids t => Function.update ids t.2.name (some t.1)) ids

namespace Network

variable (s : Network)

def forget (name : String) : Network := { s with ids := Function.update s.ids name none }

def keep (listing : List (Nat × Tailnet)) : Network := { s with ids := put s.ids listing }

end Network

/-- `if name`: an empty name renames nothing. -/
def Rpc.newName : Rpc → Option String
  | .update name => name.filter (· ≠ "")
  | _ => none

/-- What the control plane makes of its tailnets. -/
def Rpc.apply (id : Nat) (rpc : Rpc) (tailnets : Table Tailnet) : Table Tailnet :=
  match rpc with
  | .other => tailnets
  | .update _ => tailnets.modify id fun t => { t with name := rpc.newName.getD t.name }
  | .delete => tailnets.keep fun k _ => k != id

/-- How far a call has come. `again`: a `not_found` is answered by looking the id up once more. -/
inductive Call
  | started (name : String) (rpc : Rpc)
  | looking (name : String) (rpc : Rpc) (again : Bool)
  | listing (name : String) (rpc : Rpc) (again : Bool)
  | listed (name : String) (rpc : Rpc) (again : Bool) (tailnets : List (Nat × Tailnet))
  | found (name : String) (rpc : Rpc) (again : Bool)
  | calling (name : String) (rpc : Rpc) (again : Bool) (id : Nat)
  | stale (name : String) (rpc : Rpc)
  -- the ids of these tailnets are to be kept, after that of a name is forgotten
  | keeping (old : Option String) (tailnets : List (Nat × Tailnet))
  | forgetting (name : String)
  | listingAll
  | creating (name : String) (organization : Option String)
  | ofOrganization (organization : String)
  | listingOrganization (organization : String)

/-- A call raises: `delete_tailnet` forgets the id all the same. -/
def Rpc.raise (rpc : Rpc) (name : String) : Option Call :=
  match rpc with
  | .delete => some (.forgetting name)
  | _ => none

/-- A call was answered, about the tailnet as it is now. -/
def Rpc.done (rpc : Rpc) (name : String) (id : Nat) (t : Tailnet) : Option Call :=
  match rpc with
  | .other => none
  | .update _ =>
    some (.keeping ((rpc.newName.filter (· ≠ name)).map fun _ => name)
      [(id, { t with name := rpc.newName.getD t.name })])
  | .delete => some (.forgetting name)

def Call.notFound (name : String) (rpc : Rpc) (again : Bool) : Option Call :=
  if again then some (.stale name rpc) else rpc.raise name

/-- The RPC of `_tailnet_call`. -/
def Network.call (s : Network) (name : String) (rpc : Rpc) (again : Bool) (id : Nat) : Wire → Network × Option Call
  | .refuses code => (s, if code = "not_found" then Call.notFound name rpc again else rpc.raise name)
  | wire =>
    match s.tailnets.row id with
    | none => (s, Call.notFound name rpc again)
    | some t =>
      ({ s with tailnets := rpc.apply id s.tailnets, acts := s.acts ++ [⟨name, id, t.name⟩] },
        match wire with
        | .answers => rpc.done name id t
        | _ => rpc.raise name)

def boundTo (organization : String) (tailnets : Table Tailnet) : Option Call :=
  (tailnets.first fun _ t => t.organization == some organization).map fun t => .keeping none [t]

/-- The next statement of a call, or the call it makes to the control plane. -/
def Call.advance (s : Network) : Call → Wire → Option (Network × Option Call)
  | .started name rpc, _ => some (s, some (.looking name rpc (s.ids name).isSome))
  | .looking name rpc again, _ =>
    some (s, some (match s.ids name with | some id => .calling name rpc again id | none => .listing name rpc again))
  | .listing name rpc again, .answers => some (s, some (.listed name rpc again s.tailnets.rows))
  | .listing name rpc _, _ => some (s, rpc.raise name)
  | .listed name rpc again tailnets, _ => some (s.keep tailnets, some (.found name rpc again))
  | .found name rpc again, _ =>
    some (s, match s.ids name with | some id => some (.calling name rpc again id) | none => rpc.raise name)
  | .calling name rpc again id, wire => some (s.call name rpc again id wire)
  | .stale name rpc, _ => some (s.forget name, some (.looking name rpc false))
  | .keeping old tailnets, _ => some ((old.elim s s.forget).keep tailnets, none)
  | .forgetting name, _ => some (s.forget name, none)
  | .listingAll, .answers => some (s, some (.keeping none s.tailnets.rows))
  | .listingAll, _ => some (s, none)
  | .creating name organization, .answers =>
    some ({ s with tailnets := s.tailnets.insert ⟨name, organization⟩ },
      some (.keeping none [(s.tailnets.next, ⟨name, organization⟩)]))
  | .creating name organization, .lost =>
    some ({ s with tailnets := s.tailnets.insert ⟨name, organization⟩ }, none)
  | .creating _ _, .refuses _ => some (s, none)
  | .ofOrganization organization, .answers => some (s, boundTo organization s.tailnets)
  -- an older control plane does not know the call
  | .ofOrganization organization, .refuses code =>
    some (s, if code = "unimplemented" then some (.listingOrganization organization) else none)
  | .ofOrganization _, .lost => some (s, none)
  | .listingOrganization organization, .answers => some (s, boundTo organization s.tailnets)
  | .listingOrganization _, _ => some (s, none)

/-! ## Any sequence of calls -/

abbrev Process := Pool Network Call

inductive Event
  | tailnetCall (name : String) (rpc : Rpc)
  | listTailnets
  | createTailnet (name : String) (organization : Option String)
  | getTailnetByOrganization (organization : String)
  | goOn (n : Nat) (wire : Wire)
  -- by others
  | created (name : String) (organization : Option String)
  | renamed (id : Nat) (name : String)
  | deleted (id : Nat)

def Event.run (s : Process) : Event → Option Process
  | .tailnetCall name rpc => some (s.begin (.started name rpc))
  | .listTailnets => some (s.begin .listingAll)
  | .createTailnet name organization => some (s.begin (.creating name organization))
  | .getTailnetByOrganization organization => some (s.begin (.ofOrganization organization))
  | .goOn n wire => s.goOn Call.advance n wire
  | .created name organization =>
    some { s with store := { s.store with tailnets := s.store.tailnets.insert ⟨name, organization⟩ } }
  | .renamed id name => some
    { s with store := { s.store with tailnets := s.store.tailnets.modify id fun t => { t with name := name } } }
  | .deleted id => some { s with store := { s.store with tailnets := s.store.tailnets.keep fun k _ => k != id } }

def Step (s : Process) (e : Event) (t : Process) : Prop := e.run s = some t

def Call.holds : Call → List (String × Nat)
  | .calling name _ _ id => [(name, id)]
  | .listed _ _ _ tailnets | .keeping _ tailnets => tailnets.map fun t => (t.2.name, t.1)
  | _ => []

/-- The name of which a call is to forget the id, as it has renamed the tailnet. -/
def Call.outdated : Call → Option String
  | .keeping old _ => old
  | _ => none

/-- The name of which a call is about to read the id. -/
def Call.reads : Call → Option String
  | .looking name _ _ | .found name _ _ => some name
  | _ => none

/-- The tailnet a call is about to rename. -/
def Call.renames : Call → Option (String × Nat)
  | .calling name rpc _ id => (rpc.newName.filter (· ≠ name)).map fun _ => (name, id)
  | _ => none

/-- No tailnet is renamed by others while the process has its id; when the process renames one itself, the
answer arrives, no call has the id besides, and none reads it before it is forgotten. -/
def Event.steady (s : Process) : Event → Prop
  | .renamed id _ => (∀ name, s.store.ids name ≠ some id) ∧ ∀ c ∈ s.calls, ∀ name, (name, id) ∉ c.holds
  | .goOn n wire => ∀ c, s.calls[n]? = some c →
      (∀ name, c.reads = some name → ∀ d ∈ s.calls, d.outdated ≠ some name)
      ∧ ∀ name id, c.renames = some (name, id) →
        wire ≠ .lost ∧ (∀ other, s.store.ids other = some id → other = name)
        ∧ ∀ d ∈ s.others n, ∀ other, (other, id) ∉ d.holds
  | _ => True

def SteadyStep (s : Process) (e : Event) (t : Process) : Prop := e.steady s ∧ Step s e t

/-! ## What the process keeps is right -/

/-- The tailnet of this id bears this name, if there still is one. -/
def Bears (tailnets : Table Tailnet) (name : String) (id : Nat) : Prop :=
  id < tailnets.next ∧ ∀ t, tailnets.row id = some t → t.name = name

/-- Every id the process has is of a tailnet of that name, unless a call is about to forget it; and so were
those acted on. -/
structure Fresh (s : Process) : Prop where
  ids : ∀ name id, s.store.ids name = some id →
    id < s.store.tailnets.next ∧ (Bears s.store.tailnets name id ∨ ∃ c ∈ s.calls, c.outdated = some name)
  calls : s.Each fun net c => ∀ name id, (name, id) ∈ c.holds → Bears net.tailnets name id
  acts : ∀ a ∈ s.store.acts, a.bore = a.asked

/-- The tailnets that were there have kept their names. -/
def SameNames (before after : Table Tailnet) : Prop :=
  before.next ≤ after.next ∧ ∀ id t, id < before.next → after.row id = some t →
    ∃ u, before.row id = some u ∧ u.name = t.name

section

variable {T T' : Table Tailnet} {s t : Process} {name : String} {id n : Nat} {c : Call} {next : Option Call}

theorem SameNames.refl (T : Table Tailnet) : SameNames T T := ⟨Nat.le_refl _, fun _ t _ ht => ⟨t, ht, rfl⟩⟩

theorem SameNames.insert (T : Table Tailnet) (t : Tailnet) : SameNames T (T.insert t) := by
  refine ⟨Nat.le_succ _, fun id u hlt hu => ?_⟩
  rw [Table.insert_row_of_ne (Nat.ne_of_lt hlt)] at hu
  exact ⟨u, hu, rfl⟩

theorem SameNames.keep (T : Table Tailnet) (p : Nat → Tailnet → Bool) : SameNames T (T.keep p) :=
  ⟨Nat.le_refl _, fun _ t _ ht => ⟨t, (Table.keep_row_eq_some.mp ht).1, rfl⟩⟩

theorem SameNames.modify {f : Tailnet → Tailnet} (h : ∀ t, T.row id = some t → (f t).name = t.name) :
    SameNames T (T.modify id f) := by
  refine ⟨Nat.le_refl _, fun k t _ ht => ?_⟩
  rcases Table.modify_row_eq_some.mp ht with ⟨-, ht⟩ | ⟨rfl, u, hu, rfl⟩
  · exact ⟨t, ht, rfl⟩
  · exact ⟨u, hu, (h u hu).symm⟩

theorem Bears.mono (h : Bears T name id) (hT : SameNames T T') : Bears T' name id := by
  refine ⟨Nat.lt_of_lt_of_le h.1 hT.1, fun t ht => ?_⟩
  obtain ⟨u, hu, hname⟩ := hT.2 id t h.1 ht
  exact hname.symm.trans (h.2 u hu)

theorem Bears.of_row {t : Tailnet} (h : T.row id = some t) : Bears T t.name id :=
  ⟨Table.lt_next h, fun u hu => by rw [Option.some.inj (hu.symm.trans h)]⟩

theorem Bears.renamed {k : Nat} {f : Tailnet → Tailnet} (h : Bears T name id) (hne : id ≠ k) :
    Bears (T.modify k f) name id := by
  refine ⟨h.1, fun t ht => h.2 t ?_⟩
  rw [← Table.modify_row_of_ne hne]
  exact ht

theorem put_eq_some {listing : List (Nat × Tailnet)} {ids : String → Option Nat}
    (h : put ids listing name = some id) :
    ids name = some id ∨ ∃ t ∈ listing, t.2.name = name ∧ t.1 = id := by
  induction listing generalizing ids with
  | nil => exact .inl h
  | cons t listing ih =>
    rcases @ih (Function.update ids t.2.name (some t.1)) h with h | ⟨u, hu, hsame⟩
    · by_cases hname : name = t.2.name
      · rw [hname, Function.update_self] at h
        exact .inr ⟨t, List.mem_cons_self, hname.symm, Option.some.inj h⟩
      · rw [Function.update_of_ne hname] at h
        exact .inl h
    · exact .inr ⟨u, List.mem_cons_of_mem _ hu, hsame⟩

theorem Fresh.world (h : Fresh s) (hT : SameNames s.store.tailnets T) :
    Fresh { s with store := { s.store with tailnets := T } } where
  ids name id hid := by
    obtain ⟨hlt, hbears⟩ := h.ids name id hid
    exact ⟨Nat.lt_of_lt_of_le hlt hT.1, hbears.imp_left (·.mono hT)⟩
  calls := h.calls.store fun c _ hc name id hmem => (hc name id hmem).mono hT
  acts := h.acts

theorem Fresh.begin (h : Fresh s) (hholds : c.holds = []) : Fresh (s.begin c) where
  ids name id hid := by
    obtain ⟨hlt, hbears⟩ := h.ids name id hid
    refine ⟨hlt, hbears.imp_right fun hold => ?_⟩
    obtain ⟨d, hd, hname⟩ := hold
    exact ⟨d, List.mem_append_left _ hd, hname⟩
  calls := h.calls.begin fun name id hmem => by
    rw [hholds] at hmem
    cases hmem
  acts := h.acts

/-- A call goes on: what it adds to the ids is right, and what it was to forget it has forgotten. -/
theorem Fresh.goOn (h : Fresh s) (hbefore : s.calls.Perm (c :: s.others n))
    (hafter : t.calls.Perm (next.toList ++ s.others n))
    (hT : SameNames s.store.tailnets t.store.tailnets)
    (hids : ∀ name id, t.store.ids name = some id →
      s.store.ids name = some id ∧ c.outdated ≠ some name ∨ Bears t.store.tailnets name id)
    (hnext : ∀ d ∈ next, ∀ name id, (name, id) ∈ d.holds → Bears t.store.tailnets name id)
    (hacts : ∀ a ∈ t.store.acts, a ∈ s.store.acts ∨ a.bore = a.asked) : Fresh t where
  ids name id hid := by
    rcases hids name id hid with ⟨hid, hkept⟩ | hbears
    · obtain ⟨hlt, hbears⟩ := h.ids name id hid
      refine ⟨Nat.lt_of_lt_of_le hlt hT.1, hbears.imp (·.mono hT) fun hold => ?_⟩
      obtain ⟨d, hd, hname⟩ := hold
      rcases List.mem_cons.mp (hbefore.mem_iff.mp hd) with rfl | hd
      · exact absurd hname hkept
      · exact ⟨d, hafter.mem_iff.mpr (List.mem_append_right _ hd), hname⟩
    · exact ⟨hbears.1, .inl hbears⟩
  calls := h.calls.goOn hafter hnext fun d _ hd name id hmem => (hd name id hmem).mono hT
  acts a ha := (hacts a ha).elim (h.acts a) id

/-- A tailnet is renamed by the call that has its id, and the old name is about to be forgotten. -/
theorem Fresh.rename (id : Nat) {rest : List (Nat × Tailnet)} {f : Tailnet → Tailnet} (h : Fresh s)
    (hafter : t.calls.Perm (.keeping (some name) rest :: s.others n))
    (htailnets : t.store.tailnets = s.store.tailnets.modify id f) (hsame : t.store.ids = s.store.ids)
    (hids : ∀ other, s.store.ids other = some id → other = name)
    (hcalls : ∀ d ∈ s.others n, ∀ other, (other, id) ∉ d.holds)
    (hrest : ∀ u ∈ rest, Bears t.store.tailnets u.2.name u.1)
    (hacts : ∀ a ∈ t.store.acts, a ∈ s.store.acts ∨ a.bore = a.asked) (hbefore : s.calls.Perm (c :: s.others n))
    (hc : c.outdated = none) : Fresh t where
  ids other k hk := by
    rw [hsame] at hk
    obtain ⟨hlt, hbears⟩ := h.ids other k hk
    rw [htailnets]
    refine ⟨hlt, ?_⟩
    by_cases hid : k = id
    · have hname := hids other (hid ▸ hk)
      exact .inr ⟨_, hafter.mem_iff.mpr List.mem_cons_self, by rw [hname]; rfl⟩
    · refine hbears.imp (·.renamed hid) fun hold => ?_
      obtain ⟨d, hd, hname⟩ := hold
      rcases List.mem_cons.mp (hbefore.mem_iff.mp hd) with rfl | hd
      · rw [hc] at hname
        cases hname
      · exact ⟨d, hafter.mem_iff.mpr (List.mem_cons_of_mem _ hd), hname⟩
  calls := by
    have hafter' : t.calls.Perm ((some (Call.keeping (some name) rest)).toList ++ s.others n) := hafter
    refine h.calls.goOn hafter' (fun d hd other k hmem => ?_) fun d hd hholds other k hmem => ?_
    · obtain rfl := Option.some.inj hd
      obtain ⟨u, hu, heq⟩ := List.mem_map.mp hmem
      obtain ⟨rfl, rfl⟩ := Prod.mk.inj heq
      exact hrest u hu
    · rw [htailnets]
      refine (hholds other k hmem).renamed fun hid => ?_
      exact hcalls d hd other (hid ▸ hmem)
  acts a ha := (hacts a ha).elim (h.acts a) fun hsame => hsame

theorem Fresh.renamed {f : Tailnet → Tailnet} (h : Fresh s) (hids : ∀ name, s.store.ids name ≠ some id)
    (hcalls : ∀ c ∈ s.calls, ∀ name, (name, id) ∉ c.holds) :
    Fresh { s with store := { s.store with tailnets := s.store.tailnets.modify id f } } where
  ids name k hk := by
    obtain ⟨hlt, hbears⟩ := h.ids name k hk
    exact ⟨hlt, hbears.imp_left (·.renamed fun hid => hids name (hid ▸ hk))⟩
  calls := h.calls.store fun c hc hholds name k hmem => (hholds name k hmem).renamed
    fun hid => hcalls c hc name (hid ▸ hmem)
  acts := h.acts

theorem Rpc.raise_spec {rpc : Rpc} {d : Call} (h : rpc.raise name = some d) : d.holds = [] := by
  cases rpc with
  | delete => exact Option.some.inj h ▸ rfl
  | other => cases h
  | update => cases h

theorem Call.notFound_spec {rpc : Rpc} {again : Bool} {d : Call} (h : Call.notFound name rpc again = some d) :
    d.holds = [] := by
  unfold Call.notFound at h
  split at h
  · exact Option.some.inj h ▸ rfl
  · exact Rpc.raise_spec h

theorem Fresh.undone (h : Fresh s) (hbefore : s.calls.Perm (c :: s.others n))
    (hafter : t.calls.Perm (next.toList ++ s.others n))
    (hstore : t.store = s.store) (hc : c.outdated = none)
    (hnext : ∀ d ∈ next, ∀ name id, (name, id) ∈ d.holds → Bears s.store.tailnets name id) : Fresh t := by
  refine h.goOn hbefore hafter ?_ (fun name id hid => .inl ⟨?_, ?_⟩) ?_ fun a ha => .inl ?_
  · rw [hstore]
    exact .refl _
  · rw [← hstore]
    exact hid
  · rw [hc]
    exact nofun
  · rw [hstore]
    exact hnext
  · rw [← hstore]
    exact ha

theorem no_holds {d : Call} (h : d.holds = []) : ∀ name id, (name, id) ∈ d.holds → Bears T name id := by
  intro name id hmem
  rw [h] at hmem
  cases hmem

theorem Fresh.read (h : Fresh s) (hid : s.store.ids name = some id)
    (hreads : ∀ d ∈ s.calls, d.outdated ≠ some name) :
    Bears s.store.tailnets name id :=
  (h.ids name id hid).2.resolve_right fun hold => by
    obtain ⟨d, hd, hname⟩ := hold
    exact hreads d hd hname

theorem Fresh.calling {rpc : Rpc} {again : Bool} (h : Fresh s) (hid : s.store.ids name = some id)
    (hreads : ∀ d ∈ s.calls, d.outdated ≠ some name) :
    ∀ name' id', (name', id') ∈ (Call.calling name rpc again id).holds → Bears s.store.tailnets name' id' := by
  intro name' id' hmem
  obtain ⟨rfl, rfl⟩ := Prod.mk.inj (List.mem_singleton.mp hmem)
  exact h.read hid hreads

theorem Bears.of_rows {t : Nat × Tailnet} (h : t ∈ T.rows) : Bears T t.2.name t.1 := .of_row (Table.mem_rows.mp h)

theorem holds_of_listing {tailnets : List (Nat × Tailnet)} (h : ∀ t ∈ tailnets, Bears T t.2.name t.1) :
    ∀ name id, (name, id) ∈ tailnets.map (fun t => (t.2.name, t.1)) → Bears T name id := by
  intro name id hmem
  obtain ⟨t, ht, heq⟩ := List.mem_map.mp hmem
  obtain ⟨rfl, rfl⟩ := Prod.mk.inj heq
  exact h t ht

theorem boundTo_spec {organization : String} {d : Call} (h : boundTo organization T = some d) :
    ∀ name id, (name, id) ∈ d.holds → Bears T name id := by
  obtain ⟨t, ht, rfl⟩ := Option.map_eq_some_iff.mp h
  refine holds_of_listing fun u hu => ?_
  rw [List.mem_singleton.mp hu]
  exact .of_row (Table.first_eq_some ht).1

theorem Rpc.apply_same {rpc : Rpc} (hnew : rpc.newName.filter (· ≠ name) = none) (h : Bears T name id) :
    SameNames T (rpc.apply id T) := by
  cases rpc with
  | other => exact .refl _
  | delete => exact .keep _ _
  | update newName =>
    refine SameNames.modify fun t ht => ?_
    cases hgiven : (Rpc.update newName).newName with
    | none => rfl
    | some m =>
      rw [hgiven, Option.filter_eq_none_iff] at hnew
      rw [Option.getD_some, h.2 t ht]
      exact Decidable.not_not.mp fun hne => hnew m rfl (decide_eq_true hne)

theorem Rpc.done_spec {rpc : Rpc} {tailnet : Tailnet} {d : Call} (hd : rpc.done name id tailnet = some d)
    (hrow : T.row id = some tailnet) : ∀ name' id', (name', id') ∈ d.holds → Bears (rpc.apply id T) name' id' := by
  cases rpc with
  | other => cases hd
  | delete =>
    obtain rfl := Option.some.inj hd
    exact no_holds rfl
  | update newName =>
    obtain rfl := Option.some.inj hd
    refine holds_of_listing fun u hu => ?_
    rw [List.mem_singleton.mp hu]
    refine .of_row (t := { tailnet with name := _ }) ?_
    rw [Rpc.apply, Table.modify_row_self, hrow]
    rfl

theorem Fresh.called {rpc : Rpc} {again : Bool} {wire : Wire} (h : Fresh s)
    (hbefore : s.calls.Perm (.calling name rpc again id :: s.others n))
    (hafter : t.calls.Perm (next.toList ++ s.others n))
    (hcall : s.store.call name rpc again id wire = (t.store, next))
    (hrenames : ∀ new, rpc.newName.filter (· ≠ name) = some new → wire ≠ .lost
      ∧ (∀ other, s.store.ids other = some id → other = name) ∧ ∀ d ∈ s.others n, ∀ other, (other, id) ∉ d.holds) :
        Fresh t := by
  obtain ⟨store, calls⟩ := t
  have hbears : Bears s.store.tailnets name id :=
    h.calls _ (hbefore.mem_iff.mpr List.mem_cons_self) name id (List.mem_singleton.mpr rfl)
  have hundone : ∀ next', (s.store, next') = (store, next) → (∀ d, next' = some d → d.holds = []) →
    Fresh ⟨store, calls⟩ := by
    intro next' heq hholds
    obtain ⟨rfl, rfl⟩ := Prod.mk.inj heq
    exact h.undone hbefore hafter rfl rfl fun d hd => no_holds (hholds d hd)
  have hdone : ∀ tailnet next', s.store.tailnets.row id = some tailnet →
      ({ s.store with
          tailnets := rpc.apply id s.store.tailnets, acts := s.store.acts ++ [⟨name, id, tailnet.name⟩] }, next')
        = (store, next) → (next' = rpc.done name id tailnet ∨ wire = .lost ∧ next' = rpc.raise name) →
          Fresh ⟨store, calls⟩ := by
    intro tailnet next' hrow heq hnext
    obtain ⟨rfl, rfl⟩ := Prod.mk.inj heq
    have hacts : ∀ a ∈ s.store.acts ++ [⟨name, id, tailnet.name⟩], a ∈ s.store.acts ∨ a.bore = a.asked := by
      intro a ha
      refine (List.mem_append.mp ha).imp_right fun ha => ?_
      rw [List.mem_singleton.mp ha]
      exact hbears.2 tailnet hrow
    cases hnew : rpc.newName.filter (· ≠ name) with
    | none =>
      refine h.goOn hbefore hafter (Rpc.apply_same hnew hbears) (fun other k hk => .inl ⟨hk, nofun⟩)
        (fun d hd => ?_) hacts
      rcases hnext with rfl | ⟨-, rfl⟩
      · exact Rpc.done_spec hd hrow
      · exact no_holds (Rpc.raise_spec hd)
    | some new =>
      obtain ⟨hwire, hids, hcalls⟩ := hrenames new hnew
      have hnext' := hnext.resolve_right fun hlost => hwire hlost.1
      cases rpc with
      | other => cases hnew
      | delete => cases hnew
      | update newName =>
        have hkeeping : next' = some
          (.keeping (some name) [(id, { tailnet with name := (Rpc.update newName).newName.getD tailnet.name })])
          := by
          rw [hnext', Rpc.done, hnew]
          rfl
        have hrest := Rpc.done_spec (hnext'.symm.trans hkeeping) hrow
        rw [hkeeping] at hafter
        exact h.rename id hafter rfl rfl hids hcalls (fun u hu => hrest u.2.name u.1 (List.mem_map_of_mem hu))
          hacts hbefore rfl
  cases wire with
  | refuses code =>
    refine hundone _ hcall fun d hd => ?_
    split at hd
    · exact Call.notFound_spec hd
    · exact Rpc.raise_spec hd
  | answers =>
    cases hrow : s.store.tailnets.row id with
    | none =>
      simp only [Network.call, hrow] at hcall
      exact hundone _ hcall fun d => Call.notFound_spec
    | some tailnet =>
      simp only [Network.call, hrow] at hcall
      exact hdone tailnet _ hrow hcall (.inl rfl)
  | lost =>
    cases hrow : s.store.tailnets.row id with
    | none =>
      simp only [Network.call, hrow] at hcall
      exact hundone _ hcall fun d => Call.notFound_spec
    | some tailnet =>
      simp only [Network.call, hrow] at hcall
      exact hdone tailnet _ hrow hcall (.inr ⟨rfl, rfl⟩)

theorem keep_eq_some {net : Network} {tailnets : List (Nat × Tailnet)}
    (hlisting : ∀ t ∈ tailnets, Bears T t.2.name t.1)
    (h : (net.keep tailnets).ids name = some id) : net.ids name = some id ∨ Bears T name id := by
  refine (put_eq_some h).imp_right fun hmem => ?_
  obtain ⟨t, ht, rfl, rfl⟩ := hmem
  exact hlisting t ht

theorem forget_eq_some {net : Network} {old : String} (h : (net.forget old).ids name = some id) :
    net.ids name = some id ∧ old ≠ name := by
  by_cases hname : name = old
  · rw [hname] at h
    simp [Network.forget] at h
  · change Function.update net.ids old none name = some id at h
    rw [Function.update_of_ne hname] at h
    exact ⟨h, fun heq => hname heq.symm⟩

theorem Fresh.advance {wire : Wire} (h : Fresh s) (hn : s.calls[n]? = some c)
    (hadvance : c.advance s.store wire = some (t.store, next))
    (hbefore : s.calls.Perm (c :: s.others n)) (hafter : t.calls.Perm (next.toList ++ s.others n))
    (hsteady : Event.steady s (.goOn n wire)) : Fresh t := by
  obtain ⟨store, calls⟩ := t
  obtain ⟨hreads, hrenames⟩ := hsteady c hn
  have hc := h.calls c (List.mem_of_getElem? hn)
  cases c with
  | started name rpc =>
    obtain ⟨rfl, rfl⟩ := Prod.mk.inj (Option.some.inj hadvance)
    refine h.undone hbefore hafter rfl rfl fun d hd => ?_
    exact no_holds (Option.some.inj hd ▸ rfl)
  | looking name rpc again =>
    obtain ⟨rfl, rfl⟩ := Prod.mk.inj (Option.some.inj hadvance)
    refine h.undone hbefore hafter rfl rfl fun d hd => ?_
    cases hid : s.store.ids name with
    | none =>
      rw [hid] at hd
      exact no_holds (Option.some.inj hd ▸ rfl)
    | some id =>
      rw [hid] at hd
      obtain rfl := Option.some.inj hd
      exact h.calling hid (hreads name rfl)
  | listing name rpc again =>
    cases wire with
    | answers =>
      obtain ⟨rfl, rfl⟩ := Prod.mk.inj (Option.some.inj hadvance)
      refine h.undone hbefore hafter rfl rfl fun d hd => ?_
      obtain rfl := Option.some.inj hd
      exact holds_of_listing fun u => Bears.of_rows
    | lost | refuses code =>
      obtain ⟨rfl, rfl⟩ := Prod.mk.inj (Option.some.inj hadvance)
      exact h.undone hbefore hafter rfl rfl fun d hd => no_holds (Rpc.raise_spec hd)
  | listed name rpc again tailnets =>
    obtain ⟨rfl, rfl⟩ := Prod.mk.inj (Option.some.inj hadvance)
    have hlisting : ∀ u ∈ tailnets, Bears s.store.tailnets u.2.name u.1 :=
      fun u hu => hc _ _ (List.mem_map_of_mem hu)
    refine h.goOn hbefore hafter (.refl _) (fun other k hk => ?_) (fun d hd => ?_) fun a ha => .inl ha
    · exact (keep_eq_some hlisting hk).imp_left fun hk => ⟨hk, nofun⟩
    · exact no_holds (Option.some.inj hd ▸ rfl)
  | found name rpc again =>
    obtain ⟨rfl, rfl⟩ := Prod.mk.inj (Option.some.inj hadvance)
    refine h.undone hbefore hafter rfl rfl fun d hd => ?_
    cases hid : s.store.ids name with
    | none =>
      rw [hid] at hd
      exact no_holds (Rpc.raise_spec hd)
    | some id =>
      rw [hid] at hd
      obtain rfl := Option.some.inj hd
      exact h.calling hid (hreads name rfl)
  | calling name rpc again id =>
    refine h.called hbefore hafter (Option.some.inj hadvance) fun new hnew => hrenames name id ?_
    rw [Call.renames, hnew]
    rfl
  | stale name rpc =>
    obtain ⟨rfl, rfl⟩ := Prod.mk.inj (Option.some.inj hadvance)
    refine h.goOn hbefore hafter (.refl _) (fun other k hk => .inl ⟨(forget_eq_some hk).1, nofun⟩) (fun d hd => ?_)
      fun a ha => .inl ha
    exact no_holds (Option.some.inj hd ▸ rfl)
  | keeping old tailnets =>
    obtain ⟨rfl, rfl⟩ := Prod.mk.inj (Option.some.inj hadvance)
    have hlisting : ∀ u ∈ tailnets, Bears s.store.tailnets u.2.name u.1 :=
      fun u hu => hc _ _ (List.mem_map_of_mem hu)
    cases old with
    | none =>
      refine h.goOn hbefore hafter (.refl _) (fun other k hk => ?_) nofun fun a ha => .inl ha
      exact (keep_eq_some hlisting hk).imp_left fun hk => ⟨hk, nofun⟩
    | some old =>
      refine h.goOn hbefore hafter (.refl _) (fun other k hk => ?_) nofun fun a ha => .inl ha
      refine (keep_eq_some hlisting hk).imp_left fun hk => ?_
      obtain ⟨hk, hne⟩ := forget_eq_some hk
      exact ⟨hk, fun heq => hne (Option.some.inj heq)⟩
  | forgetting name =>
    obtain ⟨rfl, rfl⟩ := Prod.mk.inj (Option.some.inj hadvance)
    exact h.goOn hbefore hafter (.refl _) (fun other k hk => .inl ⟨(forget_eq_some hk).1, nofun⟩) nofun
      fun a ha => .inl ha
  | listingAll =>
    cases wire with
    | answers =>
      obtain ⟨rfl, rfl⟩ := Prod.mk.inj (Option.some.inj hadvance)
      refine h.undone hbefore hafter rfl rfl fun d hd => ?_
      obtain rfl := Option.some.inj hd
      exact holds_of_listing fun u => Bears.of_rows
    | lost | refuses code =>
      obtain ⟨rfl, rfl⟩ := Prod.mk.inj (Option.some.inj hadvance)
      exact h.undone hbefore hafter rfl rfl nofun
  | creating name organization =>
    have hinsert := SameNames.insert s.store.tailnets ⟨name, organization⟩
    cases wire with
    | answers =>
      obtain ⟨rfl, rfl⟩ := Prod.mk.inj (Option.some.inj hadvance)
      refine h.goOn hbefore hafter hinsert (fun other k hk => .inl ⟨hk, nofun⟩) (fun d hd => ?_)
        fun a ha => .inl ha
      obtain rfl := Option.some.inj hd
      refine holds_of_listing fun u hu => ?_
      rw [List.mem_singleton.mp hu]
      exact .of_row (Table.insert_row_next _ _)
    | lost =>
      obtain ⟨rfl, rfl⟩ := Prod.mk.inj (Option.some.inj hadvance)
      exact h.goOn hbefore hafter hinsert (fun other k hk => .inl ⟨hk, nofun⟩) nofun fun a ha => .inl ha
    | refuses code =>
      obtain ⟨rfl, rfl⟩ := Prod.mk.inj (Option.some.inj hadvance)
      exact h.undone hbefore hafter rfl rfl nofun
  | ofOrganization organization =>
    cases wire with
    | answers =>
      obtain ⟨rfl, rfl⟩ := Prod.mk.inj (Option.some.inj hadvance)
      exact h.undone hbefore hafter rfl rfl fun d hd => boundTo_spec hd
    | lost =>
      obtain ⟨rfl, rfl⟩ := Prod.mk.inj (Option.some.inj hadvance)
      exact h.undone hbefore hafter rfl rfl nofun
    | refuses code =>
      obtain ⟨rfl, rfl⟩ := Prod.mk.inj (Option.some.inj hadvance)
      refine h.undone hbefore hafter rfl rfl fun d hd => no_holds ?_
      obtain ⟨-, heq⟩ := Option.ite_none_right_eq_some.mp hd
      exact Option.some.inj heq ▸ rfl
  | listingOrganization organization =>
    cases wire with
    | answers =>
      obtain ⟨rfl, rfl⟩ := Prod.mk.inj (Option.some.inj hadvance)
      exact h.undone hbefore hafter rfl rfl fun d hd => boundTo_spec hd
    | lost | refuses code =>
      obtain ⟨rfl, rfl⟩ := Prod.mk.inj (Option.some.inj hadvance)
      exact h.undone hbefore hafter rfl rfl nofun

theorem SteadyStep.fresh {e : Event} (h : SteadyStep s e t) (hs : Fresh s) : Fresh t := by
  obtain ⟨hsteady, hrun⟩ := h
  cases e with
  | tailnetCall name rpc => exact Option.some.inj hrun ▸ hs.begin rfl
  | listTailnets => exact Option.some.inj hrun ▸ hs.begin rfl
  | createTailnet name organization => exact Option.some.inj hrun ▸ hs.begin rfl
  | getTailnetByOrganization organization => exact Option.some.inj hrun ▸ hs.begin rfl
  | created name organization => exact Option.some.inj hrun ▸ hs.world (.insert _ _)
  | deleted id => exact Option.some.inj hrun ▸ hs.world (.keep _ _)
  | renamed id name => exact Option.some.inj hrun ▸ hs.renamed hsteady.1 hsteady.2
  | goOn n wire =>
    obtain ⟨c, next, hn, hadvance, hbefore, hafter⟩ := Pool.goOn_eq_some hrun
    exact hs.advance hn hadvance hbefore hafter hsteady

/-! ## A call by itself -/

theorem put_of_not_mem {listing : List (Nat × Tailnet)} {ids : String → Option Nat}
    (h : ∀ t ∈ listing, t.2.name ≠ name) :
    put ids listing name = ids name := by
  induction listing generalizing ids with
  | nil => rfl
  | cons t listing ih =>
    have hne : name ≠ t.2.name := (h t List.mem_cons_self).symm
    calc put ids (t :: listing) name = put (Function.update ids t.2.name (some t.1)) listing name := rfl
      _ = Function.update ids t.2.name (some t.1) name := ih fun u hu => h u (List.mem_cons_of_mem _ hu)
      _ = ids name := Function.update_of_ne hne _ _

theorem put_of_mem {listing : List (Nat × Tailnet)} (ids : String → Option Nat)
    (h : ∃ t ∈ listing, t.2.name = name) :
    ∃ t ∈ listing, t.2.name = name ∧ put ids listing name = some t.1 := by
  induction listing generalizing ids with
  | nil =>
    obtain ⟨t, ht, -⟩ := h
    cases ht
  | cons t listing ih =>
    by_cases hlater : ∃ u ∈ listing, u.2.name = name
    · obtain ⟨u, hu, hname, hput⟩ := ih (Function.update ids t.2.name (some t.1)) hlater
      exact ⟨u, List.mem_cons_of_mem _ hu, hname, hput⟩
    · obtain ⟨u, hu, hname⟩ := h
      rcases List.mem_cons.mp hu with rfl | hu
      · refine ⟨u, List.mem_cons_self, hname, ?_⟩
        calc put ids (u :: listing) name = put (Function.update ids u.2.name (some u.1)) listing name := rfl
          _ = Function.update ids u.2.name (some u.1) name := put_of_not_mem fun v hv heq => hlater ⟨v, hv, heq⟩
          _ = some u.1 := by rw [← hname, Function.update_self]
      · exact absurd ⟨u, hu, hname⟩ hlater

theorem alone_calling (net : Network) (name : String) (rpc : Rpc) (again : Bool) {tailnet : Tailnet}
    (hrow : net.tailnets.row id = some tailnet) :
    ∃ u, Alone Call.advance .answers net (.calling name rpc again id) u
    ∧ u.acts = net.acts ++ [⟨name, id, tailnet.name⟩] := by
  have hcall : Call.advance net (.calling name rpc again id) .answers = some
      ({ net with tailnets := rpc.apply id net.tailnets, acts := net.acts ++ [⟨name, id, tailnet.name⟩] },
        rpc.done name id tailnet) := by
    simp only [Call.advance, Network.call, hrow]
  cases rpc with
  | other => exact ⟨_, .last hcall, rfl⟩
  | delete => exact ⟨_, .more hcall (.last rfl), rfl⟩
  | update newName =>
    refine ⟨_, .more hcall (.last rfl), ?_⟩
    cases ((Rpc.update newName).newName.filter (· ≠ name)) <;> rfl

theorem alone_listing (net : Network) (rpc : Rpc) (again : Bool)
    (h : ∃ k t, net.tailnets.row k = some t ∧ t.name = name) :
    ∃ u k, Alone Call.advance .answers net (.listing name rpc again) u
    ∧ u.acts = net.acts ++ [⟨name, k, name⟩] := by
  have hlisted : ∃ t ∈ net.tailnets.rows, t.2.name = name := by
    obtain ⟨k, t, ht, hname⟩ := h
    exact ⟨(k, t), Table.mem_rows.mpr ht, hname⟩
  obtain ⟨t, ht, hname, hput⟩ := put_of_mem net.ids hlisted
  obtain ⟨u, hu, hacts⟩ := alone_calling (net.keep net.tailnets.rows) name rpc again (Table.mem_rows.mp ht)
  have hfound : Call.advance (net.keep net.tailnets.rows) (.found name rpc again) .answers
      = some (net.keep net.tailnets.rows, some (.calling name rpc again t.1)) := by
    have hid : (net.keep net.tailnets.rows).ids name = some t.1 := hput
    simp only [Call.advance, hid]
  refine ⟨u, t.1, .more rfl (.more rfl (.more hfound hu)), ?_⟩
  rw [hacts, hname]
  rfl

/-- With every call to the control plane answered, the call reaches a tailnet of its name. -/
theorem alone_started {net : Network} (rpc : Rpc)
    (hids : ∀ id, net.ids name = some id → Bears net.tailnets name id)
    (hthere : ∃ k t, net.tailnets.row k = some t ∧ t.name = name) :
    ∃ u k, Alone Call.advance .answers net (.started name rpc) u ∧ u.acts = net.acts ++ [⟨name, k, name⟩] := by
  cases hid : net.ids name with
  | none =>
    obtain ⟨u, k, hu, hacts⟩ := alone_listing net rpc (net.ids name).isSome hthere
    refine ⟨u, k, .more rfl (.more ?_ hu), hacts⟩
    simp only [Call.advance, hid]
  | some id =>
    have hlooking : Call.advance net (.looking name rpc (net.ids name).isSome) .answers
        = some (net, some (.calling name rpc true id)) := by
      simp only [Call.advance, hid, Option.isSome_some]
    cases hrow : net.tailnets.row id with
    | some t =>
      obtain ⟨u, hu, hacts⟩ := alone_calling net name rpc true hrow
      refine ⟨u, id, .more rfl (.more hlooking hu), ?_⟩
      rw [hacts, (hids id hid).2 t hrow]
    | none =>
      -- the tailnet is gone, and another one bears its name
      obtain ⟨u, k, hu, hacts⟩ := alone_listing (net.forget name) rpc false hthere
      have hcall : Call.advance net (.calling name rpc true id) .answers = some (net, some (.stale name rpc)) := by
        simp only [Call.advance, Network.call, hrow]
        rfl
      have hagain : Call.advance (net.forget name) (.looking name rpc false) .answers
          = some (net.forget name, some (.listing name rpc false)) := by
        have hnone : (net.forget name).ids name = none := Function.update_self _ _ _
        simp only [Call.advance, hnone]
      exact ⟨u, k, .more rfl (.more hlooking (.more hcall (.more rfl (.more hagain hu)))), hacts⟩

theorem run_of_alone {net net' : Network} (h : Alone Call.advance .answers net c net') (calls : List Call) :
    ∃ k, Run Step ⟨net, calls ++ [c]⟩ (List.replicate k (.goOn calls.length .answers)) ⟨net', calls⟩ := by
  induction h with
  | last h =>
    have hlast := Pool.goOn_last calls h
    rw [Option.toList_none, List.append_nil] at hlast
    exact ⟨1, .single hlast⟩
  | more h _ ih =>
    obtain ⟨k, hk⟩ := ih
    exact ⟨k + 1, .cons (Pool.goOn_last calls h) hk⟩

structure Started (s : Process) : Prop where
  calls : s.calls = []
  ids : ∀ name, s.store.ids name = none
  acts : s.store.acts = []

theorem Started.fresh (h : Started s) : Fresh s where
  ids name id hid := by
    rw [h.ids] at hid
    cases hid
  calls := .none h.calls
  acts a ha := by
    rw [h.acts] at ha
    cases ha

end

end TailnetNames

open Runs TailnetNames

/-- When no tailnet is renamed by others while the process has its id, and what the process renames itself
is answered, with no other call having the id or reading it meanwhile, every call acts on a tailnet that
bears the name it was given; and one that is not interrupted and whose calls to the control plane are
answered reaches one, if there is any and none is being renamed from it. -/
theorem calls_reach_their_tailnet {s t : Process} {es : List TailnetNames.Event} (hs : Started s)
    (hrun : Run SteadyStep s es t) :
    (∀ a ∈ t.store.acts, a.bore = a.asked)
      ∧ ∀ name rpc, (∃ id tailnet, t.store.tailnets.row id = some tailnet ∧ tailnet.name = name) →
        (∀ c ∈ t.calls, c.outdated ≠ some name) →
        ∃ k u id, Run TailnetNames.Step (t.begin (.started name rpc))
        (List.replicate k (.goOn t.calls.length .answers)) u
          ∧ u.calls = t.calls ∧ u.store.acts = t.store.acts ++ [⟨name, id, name⟩] := by
  have hfresh : Fresh t := hrun.invariant (P := Fresh) (fun hu h => h.fresh hu) hs.fresh
  refine ⟨hfresh.acts, fun name rpc hthere hquiet => ?_⟩
  obtain ⟨net, id, halone, hacts⟩ := alone_started rpc (fun id hid => hfresh.read hid hquiet) hthere
  obtain ⟨k, hk⟩ := run_of_alone halone t.calls
  exact ⟨k, _, id, hk, rfl, hacts⟩

/-- One tailnet, named `acme`, and a process that has not called yet. -/
def acme : Process := ⟨⟨Table.empty.insert ⟨"acme", none⟩, fun _ => none, []⟩, []⟩

theorem acme_started : Started acme := ⟨rfl, fun _ => rfl, rfl⟩

theorem steady_of_only {s : Process} {c : TailnetNames.Call} {wire : Wire} (hcalls : s.calls = [c])
    (hold : c.outdated = none)
    (hrenames : c.renames = none) : Event.steady s (.goOn 0 wire) := by
  intro d hd
  rw [hcalls] at hd ⊢
  obtain rfl := Option.some.inj hd
  refine ⟨fun name _ e he => ?_, fun name id h => ?_⟩
  · rw [List.mem_singleton.mp he, hold]
    exact nofun
  · rw [hrenames] at h
    cases h

/-- The tailnet is deleted by others, and another one created under its name: the next call reaches that. -/
theorem calls_reach_their_tailnet_acme :
    ∃ es t k u, Run SteadyStep acme es t ∧ (∀ a ∈ t.store.acts, a.bore = a.asked)
    ∧ t.store.acts = [⟨"acme", 0, "acme"⟩] ∧ t.store.tailnets.row 0 = none
    ∧ Run TailnetNames.Step (t.begin (.started "acme" .delete)) (List.replicate k (.goOn 0 .answers)) u
    ∧ ∃ id, u.store.acts = [⟨"acme", 0, "acme"⟩, ⟨"acme", id, "acme"⟩] := by
  have hrun : Run SteadyStep acme
      (.tailnetCall "acme" .other :: List.replicate 6 (.goOn 0 .answers)
        ++ [.deleted 0, .created "acme" none]) _ :=
    .cons ⟨trivial, rfl⟩ (.cons ⟨steady_of_only rfl rfl rfl, rfl⟩ (.cons ⟨steady_of_only rfl rfl rfl, rfl⟩
      (.cons ⟨steady_of_only rfl rfl rfl, rfl⟩
        (.cons ⟨steady_of_only rfl rfl rfl, rfl⟩ (.cons ⟨steady_of_only rfl rfl rfl, rfl⟩
        (.cons ⟨steady_of_only rfl rfl rfl, rfl⟩ (.cons ⟨trivial, rfl⟩ (.cons ⟨trivial, rfl⟩ (.nil _)))))))))
  obtain ⟨hacts, hreach⟩ := calls_reach_their_tailnet acme_started hrun
  obtain ⟨k, u, id, hu, -, hreached⟩ := hreach "acme" .delete ⟨1, _, rfl, rfl⟩ (fun c hc => by cases hc)
  exact ⟨_, _, k, u, hrun, hacts, rfl, rfl, hu, id, hreached⟩

/-- Others rename the tailnet whose id is kept, and create another under the name; or the process renames it
itself, and the answer is lost. The tailnet that bears another name is deleted. -/
theorem other_tailnet_deleted :
    (∃ es t, Run TailnetNames.Step acme es t ∧ t.calls = []
      ∧ t.store.acts = [⟨"acme", 0, "acme"⟩, ⟨"acme", 0, "old"⟩]
      ∧ t.store.tailnets.row 0 = none ∧ (t.store.tailnets.row 1).any (·.name == "acme") = true)
    ∧ ∃ es t, Run TailnetNames.Step acme es t ∧ t.calls = []
    ∧ t.store.acts = [⟨"acme", 0, "acme"⟩, ⟨"acme", 0, "old"⟩]
      ∧ t.store.tailnets.row 0 = none := by
  have hothers : Run TailnetNames.Step acme
      (.tailnetCall "acme" .other :: List.replicate 6
        (.goOn 0 .answers) ++ [.renamed 0 "old", .created "acme" none,
        .tailnetCall "acme" .delete] ++ List.replicate 4 (.goOn 0 .answers)) _ :=
    .cons rfl (.cons rfl (.cons rfl (.cons rfl (.cons rfl (.cons rfl (.cons rfl (.cons rfl (.cons rfl (.cons rfl
      (.cons rfl (.cons rfl (.cons rfl (.cons rfl (.nil _))))))))))))))
  have hlost : Run TailnetNames.Step acme
      (.tailnetCall "acme" (.update (some "old")) :: List.replicate 5 (.goOn 0 .answers) ++ [.goOn 0 .lost,
        .tailnetCall "acme" .delete] ++ List.replicate 4 (.goOn 0 .answers)) _ :=
    .cons rfl (.cons rfl (.cons rfl (.cons rfl (.cons rfl (.cons rfl (.cons rfl (.cons rfl (.cons rfl (.cons rfl
      (.cons rfl (.cons rfl (.nil _))))))))))))
  exact ⟨⟨_, _, hothers, rfl, rfl, rfl, rfl⟩, ⟨_, _, hlost, rfl, rfl, rfl⟩⟩

end Lok
