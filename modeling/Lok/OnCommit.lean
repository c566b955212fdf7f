import Lok.Runs

/-!
# Hooks that run after commit

A database connection with nested atomic blocks. A hook registered inside them waits for the
outermost block: the rollback of a savepoint drops it together with what was written there, and
after commit the ones left run in order. A hook's code may open blocks and register hooks
again. What is written while some hook stands for it is never committed without that hook
running later.
-/

namespace OnCommit

open Runs

variable {κ ω α : Type*}

/-! ## The connection -/

/-- The savepoint of a nested block, if it made one. -/
abbrev Sid := Option Nat

/-- A registered hook, under the savepoints that were open. -/
structure Hook (κ : Type*) where
  sids : List Sid
  key : κ
  done : Bool

/-- What is left to run of the hooks of a committed transaction, and whether one of them is running. -/
structure Drain (κ : Type*) where
  rest : List (Hook κ)
  running : Bool

inductive Entry (κ ω : Type*)
  | committed (write : ω)
  | ran (hook : κ)

/-- The open blocks innermost first, with what they wrote; the log is newest first. -/
structure Connection (κ ω : Type*) where
  inAtomicBlock : Bool
  savepointIds : List Sid
  savepointState : Nat
  needsRollback : Bool
  runOnCommit : List (Hook κ)
  writes : List (List Sid × ω)
  draining : List (Drain κ)
  log : List (Entry κ ω)

namespace Connection

def fresh : Connection κ ω := ⟨false, [], 0, false, [], [], [], []⟩

variable (c : Connection κ ω)

def enter (savepoint : Bool) : Connection κ ω :=
  if !c.inAtomicBlock then { c with inAtomicBlock := true, needsRollback := false }
  else if savepoint && !c.needsRollback then
    { c with savepointIds := some c.savepointState :: c.savepointIds, savepointState := c.savepointState + 1 }
  else { c with savepointIds := none :: c.savepointIds }

def savepointRollback (sid : Sid) : Connection κ ω :=
  { c with runOnCommit := c.runOnCommit.filter fun h => !h.sids.contains sid,
           writes := c.writes.filter fun w => !w.1.contains sid }

/-- The outermost block ends well: its hooks are taken, and run next. -/
def commit : Connection κ ω :=
  { c with
    inAtomicBlock := false, runOnCommit := [], writes := [], draining := ⟨c.runOnCommit, false⟩ :: c.draining,
           log := (c.writes.map fun w => .committed w.2).reverse ++ c.log }

def exit (raised : Bool) : Connection κ ω :=
  match c.savepointIds with
  | [] =>
    if !raised && !c.needsRollback then c.commit
    else { c with inAtomicBlock := false, needsRollback := false, runOnCommit := [], writes := [] }
  | sid :: sids =>
    if !raised && !c.needsRollback then { c with savepointIds := sids }
    else match sid with
      | none => { c with savepointIds := sids, needsRollback := true }
      | some n => savepointRollback { c with savepointIds := sids, needsRollback := false } (some n)

def write (w : ω) : Connection κ ω :=
  if c.inAtomicBlock then { c with writes := c.writes ++ [(c.savepointIds, w)] }
  else { c with log := .committed w :: c.log }

/-- `on_commit`: outside of any block the hook runs at once. -/
def onCommit (key : κ) : Connection κ ω :=
  if c.inAtomicBlock then { c with runOnCommit := c.runOnCommit ++ [⟨c.savepointIds, key, false⟩] }
  else { c with log := .ran key :: c.log }

/-- Code runs: that of a request, or of the hook that is running. -/
def CodeRuns : Prop := ∀ d ds, c.draining = d :: ds → d.running = true

end Connection

/-! ## Steps -/

inductive Move (α : Type*)
  | enter (savepoint : Bool)
  | exit (raised : Bool)
  | fail
  | call (a : α)
  | next
  | finish
  | drained

/-- `call` is what the code may call, and `body` tells the hooks that have code of their own. -/
inductive Step (call : α → Connection κ ω → Connection κ ω) (body : κ → Bool) :
    Connection κ ω → Move α → Connection κ ω → Prop
  | enter (c : Connection κ ω) (savepoint : Bool) (h : c.CodeRuns) : Step call body c (.enter savepoint)
    (c.enter savepoint)
  | exit (c : Connection κ ω) (raised : Bool) (h : c.CodeRuns) (hin : c.inAtomicBlock = true) :
    Step call body c (.exit raised) (c.exit raised)
  | fail (c : Connection κ ω) (h : c.CodeRuns) (hin : c.inAtomicBlock = true) :
    Step call body c .fail { c with needsRollback := true }
  | call (c : Connection κ ω) (a : α) (h : c.CodeRuns) : Step call body c (.call a) (call a c)
  | next (c : Connection κ ω) (k : Hook κ) (rest : List (Hook κ)) (ds : List (Drain κ))
    (h : c.draining = ⟨k :: rest, false⟩ :: ds) :
    Step call body c .next { c with draining := ⟨rest, body k.key⟩ :: ds, log := .ran k.key :: c.log }
  | finish (c : Connection κ ω) (rest : List (Hook κ)) (ds : List (Drain κ)) (h : c.draining = ⟨rest, true⟩ :: ds)
      (hout : c.inAtomicBlock = false) : Step call body c .finish { c with draining := ⟨rest, false⟩ :: ds }
  | drained (c : Connection κ ω) (ds : List (Drain κ)) (h : c.draining = ⟨[], false⟩ :: ds) :
    Step call body c .drained { c with draining := ds }

/-! ## Hooks that stand for what was written -/

variable {serves : κ → ω → Prop} {c : Connection κ ω}

/-- Where the hook is dropped, so is what was written. -/
def Outlasts (opened : List Sid) (h : Hook κ) (sids : List Sid) : Prop :=
  ∀ n, some n ∈ h.sids → some n ∈ opened → some n ∈ sids

/-- A hook waits for each write, those committed already and those that may still be. -/
structure Kept (serves : κ → ω → Prop) (c : Connection κ ω) : Prop where
  outside : c.inAtomicBlock = false → c.savepointIds = [] ∧ c.runOnCommit = [] ∧ c.writes = []
  known : ∀ n, some n ∈ c.savepointIds → n < c.savepointState
  knownHooks : ∀ h ∈ c.runOnCommit, ∀ n, some n ∈ h.sids → n < c.savepointState
  covered : ∀ w ∈ c.writes, ∃ h ∈ c.runOnCommit, serves h.key w.2 ∧ Outlasts c.savepointIds h w.1
  pending : ∀ newer w older, c.log = newer ++ .committed w :: older →
    (∃ k, serves k w ∧ .ran k ∈ newer) ∨ ∃ d ∈ c.draining, ∃ h ∈ d.rest, serves h.key w

theorem Kept.fresh : Kept serves (.fresh : Connection κ ω) :=
  ⟨fun _ => ⟨rfl, rfl, rfl⟩, by simp [Connection.fresh], by simp [Connection.fresh], by simp [Connection.fresh],
   fun newer w older h => by
    simp [Connection.fresh] at h⟩

theorem Kept.enter (h : Kept serves c) (savepoint : Bool) : Kept serves (c.enter savepoint) := by
  unfold Connection.enter
  split
  · exact ⟨fun hout => (nomatch hout), h.known, h.knownHooks, h.covered, h.pending⟩
  · rename_i hin
    simp only [Bool.not_eq_true, Bool.not_eq_false'] at hin
    split
    · refine ⟨fun hout => ?_, fun n hn => ?_, fun k hk n hn => Nat.lt_succ_of_lt (h.knownHooks k hk n hn),
        fun w hw => ?_, h.pending⟩
      · rw [show c.inAtomicBlock = false from hout] at hin
        cases hin
      · rcases List.mem_cons.mp hn with hn | hn
        · cases hn
          exact Nat.lt_succ_self _
        · exact Nat.lt_succ_of_lt (h.known n hn)
      · obtain ⟨k, hk, hserves, hlasts⟩ := h.covered w hw
        refine ⟨k, hk, hserves, fun n hn hopen => ?_⟩
        -- no hook was registered under the new savepoint
        rcases List.mem_cons.mp hopen with hnew | hopen
        · cases hnew
          exact absurd (h.knownHooks k hk _ hn) (Nat.lt_irrefl _)
        · exact hlasts n hn hopen
    · refine ⟨fun hout => ?_, fun n hn => h.known n (by simpa using hn), h.knownHooks, fun w hw => ?_, h.pending⟩
      · rw [show c.inAtomicBlock = false from hout] at hin
        cases hin
      · obtain ⟨k, hk, hserves, hlasts⟩ := h.covered w hw
        exact ⟨k, hk, hserves, fun n hn hopen => hlasts n hn (by simpa using hopen)⟩

theorem Kept.commit (h : Kept serves c) (hempty : c.savepointIds = []) : Kept serves c.commit := by
  refine ⟨fun _ => ⟨hempty, rfl, rfl⟩, h.known, fun k hk => by simp [Connection.commit] at hk, fun w hw => by
    simp [Connection.commit] at hw, fun newer w older hlog => ?_⟩
  have hlog : (c.writes.map fun w => Entry.committed w.2).reverse ++ c.log = newer ++ .committed w :: older := hlog
  rcases List.append_eq_append_iff.mp hlog with ⟨l, hnewer, hold⟩ | ⟨l, hwritten, hold⟩
  · rcases h.pending l w older hold with ⟨k, hserves, hran⟩ | ⟨d, hd, hk⟩
    · exact .inl ⟨k, hserves, hnewer ▸ List.mem_append_right _ hran⟩
    · exact .inr ⟨d, List.mem_cons_of_mem _ hd, hk⟩
  · cases l with
    | nil =>
      rcases h.pending [] w older (by simpa using hold.symm) with ⟨k, -, hran⟩ | ⟨d, hd, hk⟩
      · cases hran
      · exact .inr ⟨d, List.mem_cons_of_mem _ hd, hk⟩
    | cons e l =>
      obtain ⟨rfl, -⟩ := List.cons.inj hold
      have hmem : Entry.committed w ∈ (c.writes.map fun w => (Entry.committed w.2 : Entry κ ω)).reverse := by
        rw [hwritten]
        simp
      obtain ⟨v, hv, hvw⟩ := List.mem_map.mp (List.mem_reverse.mp hmem)
      cases hvw
      obtain ⟨k, hk, hserves, -⟩ := h.covered v hv
      exact .inr ⟨_, List.mem_cons_self, k, hk, hserves⟩

theorem Kept.savepointRollback (h : Kept serves c) {n : Nat}
    (hcovered : ∀ w ∈ c.writes,
      ∃ k ∈ c.runOnCommit, serves k.key w.2 ∧ Outlasts (some n :: c.savepointIds) k w.1) :
    Kept serves (c.savepointRollback (some n)) := by
  refine ⟨fun hout => ?_, h.known, fun k hk => h.knownHooks k (List.mem_filter.mp hk).1, fun w hw => ?_, h.pending⟩
  · obtain ⟨hids, hhooks, hwrites⟩ := h.outside hout
    simp [Connection.savepointRollback, hids, hhooks, hwrites]
  · obtain ⟨hw, hkept⟩ := List.mem_filter.mp hw
    simp only [Bool.not_eq_true', List.contains_eq_mem, decide_eq_false_iff_not] at hkept
    obtain ⟨k, hk, hserves, hlasts⟩ := hcovered w hw
    refine ⟨k, List.mem_filter.mpr ⟨hk, ?_⟩, hserves, fun m hm hopen => hlasts m hm (List.mem_cons_of_mem _ hopen)⟩
    simp only [Bool.not_eq_true', List.contains_eq_mem, decide_eq_false_iff_not]
    exact fun hdropped => hkept (hlasts n hdropped List.mem_cons_self)

theorem Kept.exit (h : Kept serves c) (hin : c.inAtomicBlock = true) (raised : Bool) :
    Kept serves (c.exit raised) := by
  unfold Connection.exit
  split
  · rename_i hids
    split
    · exact h.commit hids
    · exact ⟨fun _ => ⟨hids, rfl, rfl⟩, h.known, by simp, by simp, h.pending⟩
  · rename_i sid sids hids
    have hpopped : ∀ b, Kept serves { c with savepointIds := sids, needsRollback := b } := by
      intro b
      refine ⟨fun hout => ?_, fun n hn => h.known n (by simp [hids, show some n ∈ sids from hn]), h.knownHooks,
        fun w hw => ?_, h.pending⟩
      · rw [show c.inAtomicBlock = false from hout] at hin
        cases hin
      · obtain ⟨k, hk, hserves, hlasts⟩ := h.covered w hw
        exact ⟨k, hk, hserves, fun n hn hopen => hlasts n hn (by simp [hids, show some n ∈ sids from hopen])⟩
    split
    · exact hpopped c.needsRollback
    · split
      · exact hpopped true
      · refine (hpopped false).savepointRollback fun w hw => ?_
        rw [← hids]
        exact h.covered w hw

theorem Kept.write (h : Kept serves c) {w : ω} (hin : c.inAtomicBlock = true)
    (hk : ∃ k ∈ c.runOnCommit, serves k.key w ∧ Outlasts c.savepointIds k c.savepointIds) :
    Kept serves (c.write w) := by
  unfold Connection.write
  rw [if_pos hin]
  refine ⟨fun hout => ?_, h.known, h.knownHooks, fun v hv => ?_, h.pending⟩
  · rw [show c.inAtomicBlock = false from hout] at hin
    cases hin
  · rcases List.mem_append.mp hv with hv | hv
    · exact h.covered v hv
    · rw [List.mem_singleton.mp hv]
      exact hk

theorem Kept.onCommit (h : Kept serves c) (key : κ) : Kept serves (c.onCommit key) := by
  unfold Connection.onCommit
  split
  · rename_i hin
    refine ⟨fun hout => ?_, h.known, fun k hk n hn => ?_, fun w hw => ?_, h.pending⟩
    · rw [show c.inAtomicBlock = false from hout] at hin
      cases hin
    · rcases List.mem_append.mp hk with hk | hk
      · exact h.knownHooks k hk n hn
      · rw [List.mem_singleton.mp hk] at hn
        exact h.known n hn
    · obtain ⟨k, hk, hserves, hlasts⟩ := h.covered w hw
      exact ⟨k, List.mem_append_left _ hk, hserves, hlasts⟩
  · refine ⟨h.outside, h.known, h.knownHooks, h.covered, fun newer w older hlog => ?_⟩
    cases newer with
    | nil => cases hlog
    | cons e newer =>
      obtain ⟨rfl, hold⟩ : Entry.ran key = e ∧ c.log = newer ++ .committed w :: older := List.cons.inj hlog
      exact (h.pending newer w older hold).imp_left
        fun ⟨k, hserves, hran⟩ => ⟨k, hserves, List.mem_cons_of_mem _ hran⟩

/-- Outside of any block, a write and the hook that serves it. -/
theorem Kept.writeOnCommit (h : Kept serves c) {w : ω} {key : κ} (hout : c.inAtomicBlock = false)
    (hserves : serves key w) :
    Kept serves ((c.write w).onCommit key) := by
  have heq : (c.write w).onCommit key = { c with log := .ran key :: .committed w :: c.log } := by
    simp [Connection.write, Connection.onCommit, hout]
  rw [heq]
  refine ⟨h.outside, h.known, h.knownHooks, h.covered, fun newer v older hlog => ?_⟩
  rcases newer with - | ⟨e, - | ⟨f, newer⟩⟩
  · cases hlog
  · cases hlog
    exact .inl ⟨key, hserves, List.mem_cons_self⟩
  · obtain ⟨rfl, rfl, hold⟩ : Entry.ran key = e ∧ Entry.committed w = f
      ∧ c.log = newer ++ .committed v :: older := by
      simpa using hlog
    refine (h.pending newer v older hold).imp_left fun ⟨k, hk, hran⟩ => ⟨k, hk, ?_⟩
    exact List.mem_cons_of_mem _ (List.mem_cons_of_mem _ hran)

theorem Kept.next (h : Kept serves c) {k : Hook κ} {rest : List (Hook κ)} {ds : List (Drain κ)} {b : Bool}
    (hd : c.draining = ⟨k :: rest, false⟩ :: ds) :
    Kept serves { c with draining := ⟨rest, b⟩ :: ds, log := .ran k.key :: c.log } := by
  refine ⟨h.outside, h.known, h.knownHooks, h.covered, fun newer w older hlog => ?_⟩
  cases newer with
  | nil => cases hlog
  | cons e newer =>
    obtain ⟨rfl, hold⟩ : Entry.ran k.key = e ∧ c.log = newer ++ .committed w :: older := List.cons.inj hlog
    rcases h.pending newer w older hold with ⟨k', hserves, hran⟩ | ⟨d, hmem, k', hk', hserves⟩
    · exact .inl ⟨k', hserves, List.mem_cons_of_mem _ hran⟩
    · rw [hd] at hmem
      rcases List.mem_cons.mp hmem with rfl | hmem
      · rcases List.mem_cons.mp hk' with rfl | hk'
        · exact .inl ⟨k'.key, hserves, List.mem_cons_self⟩
        · exact .inr ⟨_, List.mem_cons_self, k', hk', hserves⟩
      · exact .inr ⟨d, List.mem_cons_of_mem _ hmem, k', hk', hserves⟩

theorem Kept.redrain (h : Kept serves c) {ds : List (Drain κ)}
    (hds : ∀ d ∈ c.draining, ∀ k ∈ d.rest, ∃ d' ∈ ds, k ∈ d'.rest) :
    Kept serves { c with draining := ds } := by
  refine ⟨h.outside, h.known, h.knownHooks, h.covered, fun newer w older hlog => ?_⟩
  refine (h.pending newer w older hlog).imp_right fun ⟨d, hd, k, hk, hserves⟩ => ?_
  obtain ⟨d', hd', hk'⟩ := hds d hd k hk
  exact ⟨d', hd', k, hk', hserves⟩

/-- Along any run whose calls leave no write without a hook, every committed write has its hook waiting, or
run since. -/
theorem Kept.step {call : α → Connection κ ω → Connection κ ω} {body : κ → Bool}
    {c d : Connection κ ω} {m : Move α}
    (hcall : ∀ a c, Kept serves c → Kept serves (call a c)) (h : Kept serves c) (hstep : Step call body c m d) :
    Kept serves d := by
  cases hstep with
  | enter savepoint => exact h.enter savepoint
  | exit raised _ hin => exact h.exit hin raised
  | fail _ hin =>
    refine ⟨fun hout => ?_, h.known, h.knownHooks, h.covered, h.pending⟩
    rw [show c.inAtomicBlock = false from hout] at hin
    cases hin
  | call a => exact hcall a c h
  | next k rest ds hd => exact h.next hd
  | finish rest ds hd =>
    refine h.redrain fun d hmem k hk => ?_
    rw [hd] at hmem
    rcases List.mem_cons.mp hmem with rfl | hmem
    · exact ⟨_, List.mem_cons_self, hk⟩
    · exact ⟨d, List.mem_cons_of_mem _ hmem, hk⟩
  | drained ds hd =>
    refine h.redrain fun d hmem k hk => ?_
    rw [hd] at hmem
    rcases List.mem_cons.mp hmem with rfl | hmem
    · cases hk
    · exact ⟨d, hmem, hk⟩

/-- With nothing left to run, every committed write had its hook run since. -/
theorem Kept.served (h : Kept serves c) (hdone : c.draining = []) {newer older : List (Entry κ ω)} {w : ω}
    (hlog : c.log = newer ++ .committed w :: older) : ∃ k, serves k w ∧ .ran k ∈ newer := by
  rcases h.pending newer w older hlog with hran | ⟨d, hd, -⟩
  · exact hran
  · rw [hdone] at hd
    cases hd

/-! ## Lists of hooks -/

/-- What holds of every list of hooks: the one being made, and those being run. -/
structure Lists (P : List (Hook κ) → Prop) (c : Connection κ ω) : Prop where
  registered : P c.runOnCommit
  draining : ∀ d ∈ c.draining, P d.rest

variable {P : List (Hook κ) → Prop}

/-- A property that sublists inherit is kept by all but the calls. -/
theorem Lists.step {call : α → Connection κ ω → Connection κ ω} {body : κ → Bool}
    {c d : Connection κ ω} {m : Move α}
    (hsub : ∀ l l' : List (Hook κ), l'.Sublist l → P l → P l') (hcall : ∀ a c, Lists P c → Lists P (call a c))
    (h : Lists P c) (hstep : Step call body c m d) : Lists P d := by
  have hnil : P [] := hsub _ _ (List.nil_sublist _) h.registered
  have htail : ∀ {d : Drain κ} {ds}, c.draining = d :: ds → P d.rest ∧ ∀ e ∈ ds, P e.rest := fun hd =>
    ⟨h.draining _ (by simp [hd]), fun e he => h.draining e (by simp [hd, he])⟩
  cases hstep with
  | enter savepoint =>
    unfold Connection.enter
    split
    · exact ⟨h.registered, h.draining⟩
    · split
      · exact ⟨h.registered, h.draining⟩
      · exact ⟨h.registered, h.draining⟩
  | exit raised =>
    unfold Connection.exit
    split
    · split
      · exact ⟨hnil, List.forall_mem_cons.mpr ⟨h.registered, h.draining⟩⟩
      · exact ⟨hnil, h.draining⟩
    · split
      · exact ⟨h.registered, h.draining⟩
      · split
        · exact ⟨h.registered, h.draining⟩
        · exact ⟨hsub _ _ List.filter_sublist h.registered, h.draining⟩
  | fail => exact ⟨h.registered, h.draining⟩
  | call a => exact hcall a c h
  | next k rest ds hd =>
    exact ⟨h.registered, List.forall_mem_cons.mpr
      ⟨hsub _ _ (List.sublist_cons_self _ _) (htail hd).1, (htail hd).2⟩⟩
  | finish rest ds hd => exact ⟨h.registered, List.forall_mem_cons.mpr ⟨(htail hd).1, (htail hd).2⟩⟩
  | drained ds hd => exact ⟨h.registered, (htail hd).2⟩

end OnCommit
