import Mathlib.Logic.Function.Iterate
import Lok.Handles

/-!
# Sign-ups

Whoever signs up gets an organization of their own. Its slug is looked for by asking the database for one
candidate after the other, while others sign up, make organizations and rename them; so the one that is
found may be gone when it is written, and then another is looked for, five times in all.
-/

namespace Lok.SignUps

open Checks Text Slugs Handles Table

/-! ## Looking for a slug -/

/-- Where `create_user_default_organization` is; `left` is how often it would try again. -/
inductive Stage
  | asking (left : Nat)
  | prefixing (left : Nat) (rest : List (List Char))
  | counting (left counter : Nat)
  | creating (left : Nat) (slug : List Char)
  | created (organization : Pk)
  | entering (organization : Pk)
  | returned (organization : Option Pk)
  | raised (e : Refused)

structure Call where
  user : Pk
  base : List Char
  stage : Stage

/-- One question to the database, whether the base slug is taken or, within `suggest_slug`, the next
candidate is. -/
def Stage.search (taken : List Char → Bool) (base : List Char) : Stage → Stage
  | .asking left => if taken base then .prefixing left suggestionPrefixes else .creating left base
  | .prefixing left [] => .counting left 2
  | .prefixing left (p :: rest) => if taken (p ++ base) then .prefixing left rest else .creating left (p ++ base)
  | .counting left counter =>
    if taken (numbered base counter) then .counting left (counter + 1) else .creating left (numbered base counter)
  | stage => stage

def Stage.nextTry : Nat → Stage
  | 0 => .returned none
  | left + 1 => .asking left

def Stage.ended : Stage → Bool
  | .returned _ | .raised _ => true
  | _ => false

def Stage.searching : Stage → Bool
  | .asking _ | .prefixing _ _ | .counting _ _ => true
  | _ => false

def Stage.organization : Stage → Option Pk
  | .created o | .entering o => some o
  | .returned o => o
  | _ => none

section

variable (casing : Casing) (folding : Folding)

/-- The next step of the call, and what it leaves. -/
def Call.next (db : DB) (call : Call) : DB × Stage :=
  match call.stage with
  | .creating left slug =>
    match db.insertOrganization slug call.user with
    | .ok (d, organization) => (d, .created organization)
    | .error e => (db, if e.kind == .integrityError then .nextTry left else .raised e)
  | .created organization =>
    match db.createDefaultRolesForOrg organization with
    | .ok d => (d, .entering organization)
    | .error e => (db, .raised e)
  | .entering organization =>
    match db.addUserRoles call.user organization [DB.adminRole] with
    | (d, .ok _) => (d, .returned (some organization))
    | (d, .error e) => (d, .raised e)
  | stage => (db, stage.search (slugTaken folding db) call.base)

/-- The slug a user's organization gets if nobody has it. -/
def baseSlug (username : String) (user : Pk) : List Char :=
  let handle := slugifyName casing username.toList
  (if handle.isEmpty then "user-".toList ++ Nat.toDigits 10 user else handle) ++ "-org".toList

/-! ## The site -/

structure Site where
  db : DB
  calls : List Call

inductive Event
  /-- Whatever else the deployment does. -/
  | act (a : Action)
  /-- A user is saved for the first time. -/
  | signUp (username : String) (groups : List String)
  | turn (i : Nat)
  | createOrganization (user : Pk) (name : String) (suffix : Suffix)
  | createManagedOrganization (asked : DB) (user : Pk) (name : String) (slug : Option String)
  | updateOrganization (read asked : DB) (user organization : Pk) (slug : Option String)
  | updateManagedOrganization (read asked : DB) (user organization : Pk) (slug : Option String)
      (requireDeviceAuth : Option Bool)
      (accessTokenLifetime : Option Int)

def Site.signUp (s : Site) (username : String) (groups : List String) : Site :=
  if s.db.users.exists? fun _ u => u.username == username then s
  else
    let user := s.db.users.next
    ⟨s.db.createUser username groups, s.calls ++ [⟨user, baseSlug casing username user, .asking 4⟩]⟩

def Site.turn (s : Site) (i : Nat) : Site :=
  match s.calls[i]? with
  | none => s
  | some call =>
    let (d, stage) := call.next folding s.db
    ⟨d, s.calls.set i { call with stage := stage }⟩

variable (env : Env)

def step (s : Site) : Event → Site
  | .act a => { s with db := Lok.step env s.db a }
  | .signUp username groups => s.signUp casing username groups
  | .turn i => s.turn folding i
  | .createOrganization user name suffix => { s with db := (createOrganization casing s.db user name suffix).1 }
  | .createManagedOrganization asked user name slug =>
    { s with db := (createManagedOrganization casing folding asked s.db user name slug).1 }
  | .updateOrganization read asked user organization slug =>
    { s with db := s.db.settle (updateOrganization casing folding read asked s.db user organization slug) }
  | .updateManagedOrganization read asked user organization slug device lifetime =>
    { s with
      db := s.db.settle
        (updateManagedOrganization casing folding read asked s.db user organization slug device lifetime) }

def run (s : Site) (es : List Event) : Site := es.foldl (step casing folding env) s

end

def Event.isTurn (i : Nat) : Event → Bool
  | .turn j => j == i
  | _ => false

def Event.isAct : Event → Bool
  | .act _ => true
  | _ => false

variable {casing : Casing} {folding : Folding} {env : Env} {db : DB} {s t : Site} {i : Nat} {call : Call}
  {es : List Event}
  {taken : List Char → Bool} {base slug : List Char} {stage : Stage}

/-! ## The search is `suggest_slug` -/

theorem search_counting {fuel counter left : Nat} {found : List Char}
    (h : countUp taken base fuel counter = some found) :
    ∃ n, (Stage.search taken base)^[n] (.counting left counter) = .creating left found := by
  induction fuel generalizing counter with
  | zero => cases h
  | succ fuel ih =>
    rw [countUp] at h
    split at h
    · rename_i htaken
      obtain ⟨n, hn⟩ := ih h
      exact ⟨n + 1, by rw [Function.iterate_succ_apply, Stage.search, if_pos htaken, hn]⟩
    · rename_i hfree
      cases h
      exact ⟨1, by rw [Function.iterate_one, Stage.search, if_neg hfree]⟩

theorem search_prefixing {left : Nat} (rest : List (List Char)) :
    ∃ n, (Stage.search taken base)^[n] (.prefixing left rest) = match rest.find? fun p => !taken (p ++ base) with
      | some p => .creating left (p ++ base)
      | none => .counting left 2 := by
  induction rest with
  | nil => exact ⟨1, rfl⟩
  | cons p rest ih =>
    by_cases htaken : taken (p ++ base) = true
    · obtain ⟨n, hn⟩ := ih
      refine ⟨n + 1, ?_⟩
      rw [Function.iterate_succ_apply, Stage.search, if_pos htaken, hn, List.find?_cons_of_neg (by simp [htaken])]
    · refine ⟨1, ?_⟩
      rw [Function.iterate_one, Stage.search, if_neg htaken, List.find?_cons_of_pos (by simp [htaken])]

theorem search_suggests {fuel left : Nat} {found : List Char} (h : suggestSlug taken fuel base = some found) :
    ∃ n, (Stage.search taken base)^[n] (.prefixing left suggestionPrefixes) = .creating left found := by
  obtain ⟨n, hn⟩ := @search_prefixing taken base left suggestionPrefixes
  unfold suggestSlug at h
  split at h
  · rename_i p hfind
    cases h
    exact ⟨n, by rw [hn, hfind]⟩
  · rename_i hnone
    obtain ⟨m, hm⟩ := @search_counting taken base _ _ left _ h
    exact ⟨m + n, by rw [Function.iterate_add_apply, hn, hnone, hm]⟩

/-! ## What a call does -/

theorem next_of_searching (h : call.stage.searching = true) :
    call.next folding db = (db, call.stage.search (slugTaken folding db) call.base) := by
  obtain ⟨user, base, stage⟩ := call
  cases stage with
  | asking => rfl
  | prefixing => rfl
  | counting => rfl
  | _ => cases h

/-- What a step of a call does, in each of the cases there are. -/
inductive Turns (folding : Folding) (db : DB) (call : Call) : DB × Stage → Prop
  | searches (h : call.stage.searching = true) : Turns folding db call
    (db, call.stage.search (slugTaken folding db) call.base)
  | makes {left : Nat} {slug : List Char} {d : DB} {organization : Pk} (hstage : call.stage = .creating left slug)
      (hmade : db.insertOrganization slug call.user = .ok (d, organization)) : Turns folding db call
        (d, .created organization)
  | collides {left : Nat} {slug : List Char} (hstage : call.stage = .creating left slug) : Turns folding db call
    (db, .nextTry left)
  | fails (e : Refused) (hended : call.stage.ended = false) (hstage : call.stage.searching = false) :
      Turns folding db call (db, .raised e)
  | createsRoles {organization : Pk} {d : DB} (hstage : call.stage = .created organization)
      (hroles : db.createDefaultRolesForOrg organization = .ok d) : Turns folding db call
        (d, .entering organization)
  | enters {organization : Pk} (hstage : call.stage = .entering organization) (stage : Stage)
      (hreturned : stage = .returned (some organization) ∨ ∃ e, stage = .raised e) :
      Turns folding db call ((db.addUserRoles call.user organization [DB.adminRole]).1, stage)
  | stays (hended : call.stage.ended = true) : Turns folding db call (db, call.stage)

theorem next_turns (folding : Folding) (db : DB) (call : Call) : Turns folding db call (call.next folding db) := by
  by_cases hsearching : call.stage.searching = true
  · rw [next_of_searching hsearching]
    exact .searches hsearching
  · obtain ⟨user, base, stage⟩ := call
    cases stage with
    | creating left slug =>
      dsimp only [Call.next]
      split
      · rename_i hmade
        exact .makes rfl hmade
      · split
        · exact .collides rfl
        · exact .fails _ rfl rfl
    | created organization =>
      dsimp only [Call.next]
      split
      · rename_i hroles
        exact .createsRoles rfl hroles
      · exact .fails _ rfl rfl
    | entering organization =>
      dsimp only [Call.next]
      have hadded := @Turns.enters folding db ⟨user, base, .entering organization⟩ organization rfl
      split
      · rename_i d answer heq
        have hreturned := hadded (.returned (some organization)) (.inl rfl)
        rwa [heq] at hreturned
      · rename_i d e heq
        have hraised := hadded (.raised e) (.inr ⟨e, rfl⟩)
        rwa [heq] at hraised
    | returned => exact .stays rfl
    | raised => exact .stays rfl
    | _ => exact absurd rfl hsearching

/-! ## Coming to an end -/

/-- The numbers that were passed over were held by somebody. -/
def Counted (folding : Folding) (l : List (List Char)) (base : List Char) : Stage → Prop
  | .counting _ counter => ∀ n, 2 ≤ n → n < counter → folding.fold (numbered base n) ∈ l.map folding.fold
  | _ => True

/-- How many steps are left, when all the slugs that are ever held are `bound`. -/
def Stage.remaining (bound : Nat) : Stage → Nat
  | .asking left => (left + 1) * (bound + 7) + 2
  | .prefixing left rest => left * (bound + 7) + bound + 5 + rest.length
  | .counting left counter => left * (bound + 7) + bound + 6 - counter
  | .creating left _ => left * (bound + 7) + 3
  | .created _ => 2
  | .entering _ => 1
  | .returned _ | .raised _ => 0

theorem counted_search {l : List (List Char)} (hl : ∀ x, taken x = true → folding.fold x ∈ l.map folding.fold)
    (h : Counted folding l base stage) : Counted folding l base (stage.search taken base) := by
  cases stage with
  | asking left =>
    rw [Stage.search]
    split <;> trivial
  | prefixing left rest =>
    cases rest with
    | nil => exact fun n hn hlt => absurd hlt (by omega)
    | cons p rest =>
      rw [Stage.search]
      split <;> trivial
  | counting left counter =>
    rw [Stage.search]
    split
    · rename_i htaken
      intro n hn hlt
      rcases Nat.lt_succ_iff_lt_or_eq.mp hlt with hlt | rfl
      · exact h n hn hlt
      · exact hl _ htaken
    · trivial
  | _ => trivial

theorem counted_le {l : List (List Char)} {left counter : Nat}
    (h : Counted folding l base (.counting left counter)) :
    counter ≤ l.length + 2 := by
  have hle := numbers_le h
  rwa [List.length_map] at hle

theorem remaining_search {l : List (List Char)} (hl : ∀ x, taken x = true → folding.fold x ∈ l.map folding.fold)
    (h : Counted folding l base stage) (hsearching : stage.searching = true) :
    (stage.search taken base).remaining l.length < stage.remaining l.length := by
  have hnext := counted_search hl h
  cases stage with
  | asking left =>
    rw [Stage.search]
    split
    · simp only [Stage.remaining, suggestionPrefixes, List.length_cons, List.length_nil, Nat.add_mul]
      omega
    · simp only [Stage.remaining, Nat.add_mul]
      omega
  | prefixing left rest =>
    cases rest with
    | nil =>
      simp only [Stage.search, Stage.remaining, List.length_nil]
      omega
    | cons p rest =>
      rw [Stage.search]
      split
      · simp only [Stage.remaining, List.length_cons]
        omega
      · simp only [Stage.remaining, List.length_cons]
        omega
  | counting left counter =>
    have hle := counted_le h
    rw [Stage.search] at hnext ⊢
    split
    · rename_i htaken
      rw [if_pos htaken] at hnext
      have hle' := counted_le hnext
      simp only [Stage.remaining]
      omega
    · simp only [Stage.remaining]
      omega
  | _ => cases hsearching

theorem remaining_nextTry (bound left : Nat) : (Stage.nextTry left).remaining bound ≤ left * (bound + 7) + 2 := by
  cases left with
  | zero => exact Nat.zero_le _
  | succ left => exact Nat.le_refl _

theorem counted_nextTry (l : List (List Char)) (left : Nat) : Counted folding l base (.nextTry left) := by
  cases left <;> trivial

/-- Each of its own steps brings a call nearer to its end, whatever the others did in between. -/
theorem next_remaining {l : List (List Char)} (hl : ∀ x ∈ db.heldSlugs, x ∈ l)
    (h : Counted folding l call.base call.stage)
    (hended : call.stage.ended = false) : Counted folding l call.base (call.next folding db).2
      ∧ (call.next folding db).2.remaining l.length < call.stage.remaining l.length := by
  have htaken : ∀ x, slugTaken folding db x = true → folding.fold x ∈ l.map folding.fold := by
    intro x hx
    obtain ⟨held, hheld, heq⟩ := List.mem_map.mp (isSlugTaken_iff.mp hx)
    exact List.mem_map.mpr ⟨held, hl held hheld, heq⟩
  have hturns := next_turns folding db call
  generalize call.next folding db = r at hturns ⊢
  cases hturns with
  | searches hsearching => exact ⟨counted_search htaken h, remaining_search htaken h hsearching⟩
  | makes hstage =>
    rw [hstage]
    exact ⟨trivial, by simp only [Stage.remaining]; omega⟩
  | collides hstage =>
    rw [hstage]
    exact ⟨counted_nextTry l _, Nat.lt_of_le_of_lt (remaining_nextTry l.length _) (Nat.lt_succ_self _)⟩
  | fails e _ hsearching =>
    refine ⟨trivial, ?_⟩
    cases hstage : call.stage with
    | creating => simp only [Stage.remaining]; omega
    | created => exact Nat.zero_lt_two
    | entering => exact Nat.zero_lt_one
    | _ => simp [hstage, Stage.ended, Stage.searching] at hended hsearching
  | createsRoles hstage =>
    rw [hstage]
    exact ⟨trivial, Nat.lt_succ_self 1⟩
  | enters hstage stage hreturned =>
    rw [hstage]
    rcases hreturned with rfl | ⟨e, rfl⟩
    · exact ⟨trivial, Nat.zero_lt_one⟩
    · exact ⟨trivial, Nat.zero_lt_one⟩
  | stays hstays =>
    rw [hended] at hstays
    cases hstays

/-! ## Runs -/

theorem run_append (s : Site) (ms ns : List Event) :
    run casing folding env s (ms ++ ns) = run casing folding env (run casing folding env s ms) ns :=
  List.foldl_append

theorem run_concat (s : Site) (es : List Event) (e : Event) :
    run casing folding env s (es ++ [e]) = step casing folding env (run casing folding env s es) e :=
  run_append s es [e]

theorem turn_of_call (h : s.calls[i]? = some call) :
    s.turn folding i = ⟨(call.next folding s.db).1,
      s.calls.set i { call with stage := (call.next folding s.db).2 }⟩ := by
  unfold Site.turn
  rw [h]

theorem turn_of_none (h : s.calls[i]? = none) : step casing folding env s (.turn i) = s := by
  show s.turn folding i = s
  unfold Site.turn
  rw [h]

theorem step_call {e : Event} (h : s.calls[i]? = some call) (he : e.isTurn i = false) :
    (step casing folding env s e).calls[i]? = some call := by
  cases e with
  | signUp username groups =>
    show (s.signUp casing username groups).calls[i]? = _
    unfold Site.signUp
    split
    · exact h
    · rw [List.getElem?_append_left (List.getElem?_eq_some_iff.mp h).1]
      exact h
  | turn j =>
    have hne : j ≠ i := by simpa [Event.isTurn] using he
    show (s.turn folding j).calls[i]? = _
    unfold Site.turn
    split
    · exact h
    · rw [List.getElem?_set_ne hne]
      exact h
  | _ => exact h

theorem turn_call (h : s.calls[i]? = some call) :
    (step casing folding env s (.turn i)).calls[i]? = some { call with stage := (call.next folding s.db).2 } := by
  show (s.turn folding i).calls[i]? = _
  rw [turn_of_call h]
  exact List.getElem?_set_self (List.getElem?_eq_some_iff.mp h).1

/-- The slugs that organizations have at one time or another. -/
def heldAlong (casing : Casing) (folding : Folding) (env : Env) (s : Site) : List Event → List (List Char)
  | [] => s.db.heldSlugs
  | e :: es => s.db.heldSlugs ++ heldAlong casing folding env (step casing folding env s e) es

theorem next_of_ended (h : call.stage.ended = true) : (call.next folding db).2 = call.stage := by
  obtain ⟨user, base, stage⟩ := call
  cases stage with
  | returned => rfl
  | raised => rfl
  | _ => cases h

theorem ended_of_remaining {l : List (List Char)} (hcounted : Counted folding l base stage)
    (h : stage.remaining l.length = 0) :
    stage.ended = true := by
  cases stage with
  | returned => rfl
  | raised => rfl
  | counting left counter =>
    have hle := counted_le hcounted
    simp only [Stage.remaining] at h
    omega
  | _ =>
    simp only [Stage.remaining] at h
    omega

theorem remaining_of_ended {bound : Nat} (h : stage.ended = true) : stage.remaining bound = 0 := by
  cases stage with
  | returned => rfl
  | raised => rfl
  | _ => cases h

/-- Over a run a call either ends or has come as many steps nearer to its end as it was given. -/
theorem run_remaining {l : List (List Char)} (hcall : s.calls[i]? = some call)
    (hcounted : Counted folding l call.base call.stage)
    (hl : ∀ x ∈ heldAlong casing folding env s es, x ∈ l) :
    ∃ call', (run casing folding env s es).calls[i]? = some call' ∧ Counted folding l call'.base call'.stage
      ∧ (call'.stage.ended = true
        ∨ call'.stage.remaining l.length + es.countP (Event.isTurn i) ≤ call.stage.remaining l.length) := by
  induction es generalizing s call with
  | nil => exact ⟨call, hcall, hcounted, .inr (Nat.le_refl _)⟩
  | cons e es ih =>
    rw [heldAlong] at hl
    have hnow : ∀ x ∈ s.db.heldSlugs, x ∈ l := fun x hx => hl x (List.mem_append_left _ hx)
    have hlater : ∀ x ∈ heldAlong casing folding env (step casing folding env s e) es, x ∈ l :=
      fun x hx => hl x (List.mem_append_right _ hx)
    by_cases he : e.isTurn i = true
    · have hturn : e = .turn i := by
        cases e with
        | turn j => rw [beq_iff_eq.mp he]
        | _ => cases he
      rw [List.countP_cons_of_pos he]
      subst hturn
      by_cases hended : call.stage.ended = true
      · have hsame : (call.next folding s.db).2 = call.stage := next_of_ended hended
        obtain ⟨call', hcall', hcounted', hrest⟩ := ih (turn_call hcall) (by rw [hsame]; exact hcounted) hlater
        refine ⟨call', hcall', hcounted', .inl (hrest.elim id fun hle => ended_of_remaining hcounted' ?_)⟩
        rw [hsame, remaining_of_ended hended] at hle
        omega
      · obtain ⟨hcounted', hless⟩ := next_remaining hnow hcounted (by simpa using hended)
        obtain ⟨call', hcall', hcounted', hrest⟩ := ih (turn_call hcall) hcounted' hlater
        refine ⟨call', hcall', hcounted', hrest.imp_right fun hle => ?_⟩
        dsimp only at hle
        omega
    · rw [List.countP_cons_of_neg he]
      exact ih (step_call hcall (by simpa using he)) hcounted hlater

/-- A call that is given enough steps ends: how many it needs is bounded by the slugs that are held while it
looks for one. -/
theorem call_ends {l : List (List Char)} (hcall : s.calls[i]? = some call) (hstage : call.stage = .asking 4)
    (hl : ∀ x ∈ heldAlong casing folding env s es, x ∈ l)
    (hturns : 5 * (l.length + 7) + 2 ≤ es.countP (Event.isTurn i)) :
    ∃ call', (run casing folding env s es).calls[i]? = some call' ∧ call'.stage.ended = true := by
  obtain ⟨call', hcall', hcounted', hrest⟩ := run_remaining hcall (by rw [hstage]; trivial) hl
  refine ⟨call', hcall', hrest.elim id fun hle => ended_of_remaining hcounted' ?_⟩
  have hstart : call.stage.remaining l.length = (4 + 1) * (l.length + 7) + 2 := by rw [hstage, Stage.remaining]
  omega

/-! ## Slugs that are stored -/

def Stage.Formed : Stage → Prop
  | .prefixing _ rest => ∀ p ∈ rest, p ∈ suggestionPrefixes
  | .creating _ slug => isSlug slug = true
  | _ => True

def Call.Formed (call : Call) : Prop := isSlug call.base = true ∧ call.stage.Formed

theorem isSlug_org {t : List Char} : isSlug (t ++ "-org".toList) = isSlug t :=
  isSlug_hyphen (t := "org".toList) (by decide) (by decide)

theorem isSlug_baseSlug (username : String) (user : Pk) : isSlug (baseSlug casing username user) = true := by
  unfold baseSlug
  dsimp only
  rw [isSlug_org]
  split
  · exact (@isSlug_numbered "user".toList _).trans (by decide)
  · rename_i hne
    rcases slugifyName_isSlug casing username.toList with hnil | hslug
    · rw [hnil] at hne
      exact absurd rfl hne
    · exact hslug

theorem search_formed (hbase : isSlug base = true) (h : stage.Formed) : (stage.search taken base).Formed := by
  cases stage with
  | asking left =>
    rw [Stage.search]
    split
    · exact fun p hp => hp
    · exact hbase
  | prefixing left rest =>
    cases rest with
    | nil => trivial
    | cons p rest =>
      rw [Stage.search]
      split
      · exact fun q hq => h q (List.mem_cons_of_mem p hq)
      · exact isSlug_prefixed (h p List.mem_cons_self) hbase
  | counting left counter =>
    rw [Stage.search]
    split
    · trivial
    · exact isSlug_numbered.trans hbase
  | _ => exact h

theorem formed_nextTry (left : Nat) : (Stage.nextTry left).Formed := by
  cases left <;> trivial

theorem next_formed (h : call.Formed) : (call.next folding db).2.Formed := by
  have hturns := next_turns folding db call
  generalize call.next folding db = r at hturns ⊢
  cases hturns with
  | searches => exact search_formed h.1 h.2
  | collides => exact formed_nextTry _
  | enters _ _ hreturned => rcases hreturned with rfl | ⟨e, rfl⟩ <;> trivial
  | stays => exact h.2
  | _ => trivial

theorem step_formed {e : Event} (h : ∀ call ∈ s.calls, call.Formed) :
    ∀ call ∈ (step casing folding env s e).calls, call.Formed := by
  cases e with
  | signUp username groups =>
    show ∀ call ∈ (s.signUp casing username groups).calls, _
    unfold Site.signUp
    split
    · exact h
    · intro call hcall
      rcases List.mem_append.mp hcall with hcall | hcall
      · exact h call hcall
      · rw [List.mem_singleton.mp hcall]
        exact ⟨isSlug_baseSlug username s.db.users.next, trivial⟩
  | turn i =>
    show ∀ call ∈ (s.turn folding i).calls, _
    unfold Site.turn
    split
    · exact h
    · rename_i call hcall
      have hformed := h call (List.mem_of_getElem? hcall)
      intro call' hcall'
      rcases List.mem_or_eq_of_mem_set hcall' with hcall' | rfl
      · exact h call' hcall'
      · exact ⟨hformed.1, next_formed hformed⟩
  | _ => exact h

theorem run_formed (db : DB) (es : List Event) :
    ∀ call ∈ (run casing folding env ⟨db, []⟩ es).calls, call.Formed :=
  foldl_invariant (P := fun s : Site => ∀ call ∈ s.calls, call.Formed) (fun _ _ _ hs => step_formed hs) (by simp)

theorem next_stores {slug : String} (h : call.Formed) (hstores : DB.Stores db (call.next folding db).1 slug) :
    validateSlug slug.toList = .ok () := by
  have hturns := next_turns folding db call
  generalize call.next folding db = r at hturns hstores
  cases hturns with
  | makes hstage hmade =>
    rw [DB.stores_insert (DB.insertOrganization_ok hmade).2.2 hstores, String.toList_ofList]
    have hslug : call.stage.Formed := h.2
    rw [hstage] at hslug
    exact accepted_of_isSlug hslug
  | createsRoles _ hroles =>
    obtain ⟨t, rfl⟩ := DB.createDefaultRolesForOrg_ok hroles
    exact absurd hstores (DB.not_stores rfl)
  | enters => exact absurd hstores (DB.not_stores (DB.addUserRoles_organizations _ _ _))
  | _ => exact absurd hstores (DB.not_stores rfl)

/-- Of what the writers take slugs from, only the name given to the first schema is not brought into their
form; and an update that is asked for no handle writes back the one it read. -/
def Event.NamesASlug (casing : Casing) : Event → Prop
  | .createOrganization _ name _ =>
    isSlug ((casing.lower name.toList).map fun c => if c == ' ' then '-' else c) = true
  | .updateOrganization read _ _ organization slug | .updateManagedOrganization read _ _ organization slug _ _ =>
    slug = none → ReadASlug read organization
  | _ => True

theorem step_stores {e : Event} {slug : String} (h : ∀ call ∈ s.calls, call.Formed) (he : e.isAct = false)
    (hstores : DB.Stores s.db (step casing folding env s e).db slug) :
    validateSlug slug.toList = .ok () ↔ e.NamesASlug casing := by
  have hsettled : ∀ x : Answer DB, DB.Stores s.db (s.db.settle x) slug →
    ∃ d, x = .ok d ∧ DB.Stores s.db d slug := by
    intro x hx
    cases x with
    | ok d => exact ⟨d, rfl, hx⟩
    | error => exact absurd hx (DB.not_stores rfl)
  cases e with
  | act => cases he
  | signUp username groups =>
    refine absurd hstores (DB.not_stores ?_)
    show (s.signUp casing username groups).db.organizations = _
    unfold Site.signUp
    split
    · rfl
    · dsimp only [DB.createUser]
      split <;> rfl
  | turn i =>
    replace hstores : DB.Stores s.db (s.turn folding i).db slug := hstores
    unfold Site.turn at hstores
    split at hstores
    · exact absurd hstores (DB.not_stores rfl)
    · rename_i call hcall
      exact iff_of_true (next_stores (h call (List.mem_of_getElem? hcall)) hstores) trivial
  | createOrganization user name suffix =>
    rw [createOrganization_stores hstores]
    exact createRandomSlug_accepted
  | createManagedOrganization asked user name handle =>
    exact iff_of_true (createManagedOrganization_stores hstores) trivial
  | updateOrganization read asked user organization handle =>
    obtain ⟨d, hd, hstores⟩ := hsettled _ hstores
    exact updateOrganization_stores hd hstores
  | updateManagedOrganization read asked user organization handle device lifetime =>
    obtain ⟨d, hd, hstores⟩ := hsettled _ hstores
    exact updateManagedOrganization_stores hd hstores

/-! ## Where roles are given -/

theorem organization_nextTry (left : Nat) : (Stage.nextTry left).organization = none := by
  cases left <;> rfl

theorem organization_search (h : stage.searching = true) : (stage.search taken base).organization = none := by
  cases stage with
  | asking left =>
    rw [Stage.search]
    split <;> rfl
  | prefixing left rest =>
    cases rest with
    | nil => rfl
    | cons p rest =>
      rw [Stage.search]
      split <;> rfl
  | counting left counter =>
    rw [Stage.search]
    split <;> rfl
  | _ => cases h

theorem next_organization {o : Pk} (h : (call.next folding db).2.organization = some o) :
    call.stage.organization = some o
    ∨ ∃ left slug, call.stage = .creating left slug ∧ db.insertOrganization slug call.user = .ok
    ((call.next folding db).1, o) := by
  have hturns := next_turns folding db call
  generalize call.next folding db = r at hturns h ⊢
  cases hturns with
  | searches hsearching =>
    rw [organization_search hsearching] at h
    cases h
  | makes hstage hmade =>
    cases h
    exact .inr ⟨_, _, hstage, hmade⟩
  | collides =>
    rw [organization_nextTry] at h
    cases h
  | fails => cases h
  | createsRoles hstage =>
    rw [hstage]
    exact .inl h
  | enters hstage stage hreturned =>
    rw [hstage]
    rcases hreturned with rfl | ⟨e, rfl⟩
    · exact .inl h
    · cases h
  | stays => exact .inl h

theorem next_onlyIn (folding : Folding) (db : DB) (call : Call) : ∃ o, DB.OnlyIn o db (call.next folding db).1
    ∧ ((call.next folding db).1 = db ∨ call.stage.organization = some o
      ∨ (call.next folding db).2.organization = some o) := by
  have hturns := next_turns folding db call
  generalize call.next folding db = r at hturns ⊢
  cases hturns with
  | makes _ hmade => exact ⟨_, DB.insertOrganization_onlyIn hmade, .inr (.inr rfl)⟩
  | @createsRoles organization d hstage hroles =>
    obtain ⟨t, rfl⟩ := DB.createDefaultRolesForOrg_ok hroles
    exact ⟨organization, DB.onlyIn_of_memberships rfl organization, .inr (.inl (by rw [hstage]; rfl))⟩
  | @enters organization hstage =>
    exact ⟨organization, DB.addUserRoles_onlyIn _ _ _, .inr (.inl (by rw [hstage]; rfl))⟩
  | _ => exact ⟨0, .refl 0 db, .inl rfl⟩

/-- From `s` to `t` the call makes the organization, with a slug that nobody has. -/
def Makes (s t : Site) (i : Nat) (o : Pk) : Prop :=
  ∃ call slug, s.calls[i]? = some call ∧ s.db.organizations.row o = none
    ∧ (∀ k x, s.db.organizations.row k = some x → x.slug ≠ slug)
    ∧ ∃ x, t.db.organizations.row o = some x ∧ x.slug = slug ∧ x.owner = call.user

/-- The call made the organization in one of its steps. -/
def MadeBy (casing : Casing) (folding : Folding) (env : Env) (s : Site) (es : List Event) (i : Nat) (o : Pk) :
    Prop :=
  ∃ ms ns, es = ms ++ .turn i :: ns
    ∧ Makes (run casing folding env s ms) (run casing folding env s (ms ++ [.turn i])) i o

theorem MadeBy.append {o : Pk} (h : MadeBy casing folding env s es i o) (ns : List Event) :
    MadeBy casing folding env s (es ++ ns) i o := by
  obtain ⟨ms, rest, rfl, hmakes⟩ := h
  exact ⟨ms, rest ++ ns, by simp, hmakes⟩

theorem turn_makes {o : Pk} (hcall : s.calls[i]? = some call)
    (hmade : s.db.insertOrganization slug call.user = .ok ((call.next folding s.db).1, o)) :
    Makes s (step casing folding env s (.turn i)) i o := by
  obtain ⟨ho, hunused, hmade⟩ := DB.insertOrganization_ok hmade
  dsimp only at ho hmade
  refine ⟨call, String.ofList slug, hcall, ?_, fun k x hx heq => hunused k x hx ?_,
    ⟨String.ofList slug, call.user, false, none⟩,
    ?_, rfl, rfl⟩
  · rw [ho]
    exact s.db.organizations.fresh _ (Nat.le_refl _)
  · rw [heq, String.toList_ofList]
  · show (s.turn folding i).db.organizations.row o = _
    rw [turn_of_call hcall]
    dsimp only
    rw [hmade, ho, insert_row_next]

theorem call_of_step {e : Event} (h : (step casing folding env s e).calls[i]? = some call)
    (he : e.isTurn i = false) :
    s.calls[i]? = some call ∨ call.stage = .asking 4 := by
  cases e with
  | signUp username groups =>
    replace h : (s.signUp casing username groups).calls[i]? = some call := h
    unfold Site.signUp at h
    split at h
    · exact .inl h
    · dsimp only at h
      rw [List.getElem?_append] at h
      split at h
      · exact .inl h
      · rw [List.mem_singleton.mp (List.mem_of_getElem? h)]
        exact .inr rfl
  | turn j =>
    have hne : j ≠ i := by simpa [Event.isTurn] using he
    replace h : (s.turn folding j).calls[i]? = some call := h
    unfold Site.turn at h
    split at h
    · exact .inl h
    · rw [List.getElem?_set_ne hne] at h
      exact .inl h
  | _ => exact .inl h

theorem organization_madeBy {o : Pk} (hcall : (run casing folding env ⟨db, []⟩ es).calls[i]? = some call)
    (ho : call.stage.organization = some o) : MadeBy casing folding env ⟨db, []⟩ es i o := by
  induction es using List.reverseRecOn generalizing call with
  | nil => cases hcall
  | append_singleton es e ih =>
    rw [run_concat] at hcall
    by_cases he : e.isTurn i = true
    · obtain rfl : e = .turn i := by
        cases e with
        | turn j => rw [beq_iff_eq.mp he]
        | _ => cases he
      cases hbefore : (run casing folding env ⟨db, []⟩ es).calls[i]? with
      | none =>
        rw [turn_of_none hbefore, hbefore] at hcall
        cases hcall
      | some call' =>
        rw [turn_call hbefore] at hcall
        cases hcall
        rcases next_organization ho with hold | ⟨left, slug, -, hmade⟩
        · exact (ih hbefore hold).append _
        · refine ⟨es, [], rfl, ?_⟩
          rw [run_concat]
          exact turn_makes hbefore hmade
    · rcases call_of_step hcall (by simpa using he) with hbefore | hstage
      · exact (ih hbefore ho).append _
      · rw [hstage] at ho
        cases ho

theorem turn_roles {k : Pk} {m' : Membership}
    (hm' : (step casing folding env (run casing folding env ⟨db, []⟩ es) (.turn i)).db.memberships.row
      k = some m') :
    (∃ m, (run casing folding env ⟨db, []⟩ es).db.memberships.row k = some m ∧ DB.SameRoles m m')
      ∨ MadeBy casing folding env ⟨db, []⟩ (es ++ [.turn i]) i m'.organization := by
  cases hcall : (run casing folding env ⟨db, []⟩ es).calls[i]? with
  | none =>
    rw [turn_of_none hcall] at hm'
    exact .inl ⟨m', hm', .refl m'⟩
  | some call =>
    have hdb : (step casing folding env (run casing folding env ⟨db, []⟩ es) (.turn i)).db
        = (call.next folding (run casing folding env ⟨db, []⟩ es).db).1 := congrArg Site.db (turn_of_call hcall)
    rw [hdb] at hm'
    obtain ⟨o, honly, hwhich⟩ := next_onlyIn folding (run casing folding env ⟨db, []⟩ es).db call
    by_cases ho : m'.organization = o
    · rcases hwhich with hsame | hbefore | hafter
      · rw [hsame] at hm'
        exact .inl ⟨m', hm', .refl m'⟩
      · rw [ho]
        exact .inr ((organization_madeBy hcall hbefore).append [.turn i])
      · rw [ho]
        have hturned : (run casing folding env ⟨db, []⟩ (es ++ [.turn i])).calls[i]?
            = some { call with stage := (call.next folding (run casing folding env ⟨db, []⟩ es).db).2 } := by
          rw [run_concat]
          exact turn_call hcall
        exact .inr (organization_madeBy hturned hafter)
    · exact .inl (honly k m' hm' ho)

/-! ## What holds of slugs and sign-ups -/

/-- An accepted slug keeps its form when an alternative to it is looked for, unless it ends in the newline
that the pattern lets through and all that is left is to number it. -/
def KeepsForm (folding : Folding) (db : DB) (slug : List Char) : Prop :=
  slug.getLast? ≠ some '\n' ∨ ∃ p ∈ suggestionPrefixes, slugTaken folding db (p ++ slug) = false

theorem suggested (folding : Folding) (db : DB) (slug : List Char) :
    ∃ s, (∀ fuel, db.heldSlugs.length < fuel → suggestSlug (slugTaken folding db) fuel slug = some s)
      ∧ (∀ k o, db.organizations.row k = some o → folding.fold o.slug.toList ≠ folding.fold s)
      ∧ (validateSlug slug = .ok () → (validateSlug s = .ok () ↔ KeepsForm folding db slug)) := by
  obtain ⟨s, hs, hfuel⟩ := suggestSlug_ends folding db.heldSlugs slug
  refine ⟨s, hfuel, fun k o ho heq => ?_, fun hslug => ?_⟩
  · have hfree := hs.free
    rw [Bool.eq_false_iff] at hfree
    refine hfree (isSlugTaken_iff.mpr (List.mem_map.mpr ⟨o.slug.toList, ?_, heq⟩))
    exact List.mem_map.mpr ⟨(k, o), mem_rows.mpr ho, rfl⟩
  · have hlast : isSlug slug = true ↔ slug.getLast? ≠ some '\n' := by
      constructor
      · intro hform hlast
        rw [← List.dropLast_append_getLast? _ hlast] at hform
        exact newline_not_slug hform
      · intro hlast
        rcases accepted_iff.mp hslug with hform | ⟨t, -, rfl⟩
        · exact hform
        · exact absurd List.getLast?_concat hlast
    rw [hs.accepted_iff hslug, hlast]
    exact Iff.rfl

/-- Deriving a slug is idempotent. A free alternative is found among any organizations, and it is accepted
just if the slug keeps its form. Over every run of a site: what a writer stores is accepted just if, on the
first schema, the name is one already, and if an update that is asked for no handle read an accepted one; a
sign-up gives roles in no organization but one it made itself, with a slug nobody had; and it ends after a
number of steps of its own that is bounded by the slugs that are held meanwhile. -/
theorem slugs_and_sign_ups (casing : Casing) (folding : Folding) (env : Env) :
    (∀ name, slugifyName casing (slugifyName casing name) = slugifyName casing name)
      ∧ (∀ db slug, ∃ s, (∀ fuel, db.heldSlugs.length < fuel →
        suggestSlug (slugTaken folding db) fuel slug = some s)
          ∧ (∀ k o, db.organizations.row k = some o → folding.fold o.slug.toList ≠ folding.fold s)
          ∧ (validateSlug slug = .ok () → (validateSlug s = .ok () ↔ KeepsForm folding db slug)))
      ∧ ∀ db es,
          (∀ e slug, e.isAct = false →
            DB.Stores (run casing folding env ⟨db, []⟩ es).db
            (run casing folding env ⟨db, []⟩ (es ++ [e])).db slug →
            (validateSlug slug.toList = .ok () ↔ e.NamesASlug casing))
          ∧ (∀ i k m', (run casing folding env ⟨db, []⟩ (es ++ [.turn i])).db.memberships.row k = some m' →
            (∃ m, (run casing folding env ⟨db, []⟩ es).db.memberships.row k = some m ∧ DB.SameRoles m m')
              ∨ MadeBy casing folding env ⟨db, []⟩ (es ++ [.turn i]) i m'.organization)
          ∧ ∀ i call, (run casing folding env ⟨db, []⟩ es).calls[i]? = some call → call.stage = .asking 4 →
            ∀ (es' : List Event) (l : List (List Char)),
              (∀ x ∈ heldAlong casing folding env (run casing folding env ⟨db, []⟩ es) es', x ∈ l) →
              5 * (l.length + 7) + 2 ≤ es'.countP (Event.isTurn i) →
              ∃ call', (run casing folding env ⟨db, []⟩ (es ++ es')).calls[i]? = some call'
              ∧ call'.stage.ended = true := by
  refine ⟨slugifyName_slugifyName, suggested folding,
    fun db es => ⟨fun e slug he hstores => ?_, fun i k m' hm' => ?_, ?_⟩⟩
  · rw [run_concat] at hstores
    exact step_stores (run_formed db es) he hstores
  · rw [run_concat] at hm'
    exact turn_roles hm'
  · intro i call hcall hstage es' l hl hturns
    rw [run_append]
    exact call_ends hcall hstage hl hturns

/-- The first schema keeps what is neither a letter nor a digit, and the slug is not one. -/
theorem an_exclamation_mark_is_stored :
    ¬ ∀ (casing : Casing) (folding : Folding) (env : Env) (db : DB) (es : List Event) (e : Event)
    (slug : String), e.isAct = false →
      DB.Stores (run casing folding env ⟨db, []⟩ es).db (run casing folding env ⟨db, []⟩ (es ++ [e])).db slug →
      validateSlug slug.toList = .ok () := by
  intro hclaim
  have hstored : ((run asciiCasing asciiFolding plainEnv ⟨DB.empty, []⟩
      ([.signUp "ann" []] ++ [.createOrganization 0 "Acme Inc!"
        ⟨"x7k2p9".toList, by decide⟩])).db.organizations.row 0).any
        (fun o => o.slug == "acme-inc!-x7k2p9") = true := by decide +kernel
  obtain ⟨o, ho, hslug⟩ := (Option.any_eq_true _ _).mp hstored
  have haccepted := hclaim asciiCasing asciiFolding plainEnv DB.empty [.signUp "ann" []]
    (.createOrganization 0 "Acme Inc!" ⟨"x7k2p9".toList, by decide⟩) "acme-inc!-x7k2p9" rfl
    ⟨0, o, ho, beq_iff_eq.mp hslug, fun o' ho' => by cases ho'⟩
  revert haccepted
  decide +kernel

end Lok.SignUps
