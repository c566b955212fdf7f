import Lok.Basic
import Lok.OnCommit

/-!
# One rewrite of the policy per transaction

Whatever changes who reaches whom schedules a rewrite of the organization's policy, after
commit and once per transaction: a call that finds a rewrite registered and not run does
nothing. The registered one is dropped only where the change that relied on it is.
-/

namespace Lok

open OnCommit Runs

/-- What waits for a commit: a rewrite of an organization's policy, or code of another kind. -/
inductive CommitHook
  | applyAclPolicy (organization : Pk)
  | other
  deriving DecidableEq, Repr

abbrev AclConnection := Connection CommitHook Pk

def isPendingApply (organization : Pk) (h : Hook CommitHook) : Bool :=
  h.key == .applyAclPolicy organization && !h.done

/-- `schedule_acl_apply`; `configured` is whether there is a control plane. -/
def scheduleAclApply (configured : Bool) (organization : Option Pk) (c : AclConnection) : AclConnection :=
  match organization with
  | none => c
  | some o =>
    if !configured then c
    else if c.runOnCommit.any (isPendingApply o) then c
    else c.onCommit (.applyAclPolicy o)

/-- Change rows of an organization and schedule the rewrite, or register another hook. -/
inductive AclCall
  | change (organization : Option Pk)
  | register

def AclCall.run (configured : Bool) : AclCall → AclConnection → AclConnection
  | .change organization, c => scheduleAclApply configured organization (organization.elim c c.write)
  | .register, c => c.onCommit .other

abbrev AclStep (configured : Bool) : AclConnection → Move AclCall → AclConnection → Prop :=
  Step (AclCall.run configured) (· == .other)

/-- The hook is a rewrite of the organization's policy. -/
def RewritesPolicy (h : CommitHook) (organization : Pk) : Prop := h = .applyAclPolicy organization

variable {c : AclConnection}

/-- Inside a block, a change is covered by the rewrite it finds or registers; outside, the rewrite runs at once. -/
theorem kept_change (h : Kept RewritesPolicy c) (o : Pk) :
    Kept RewritesPolicy (AclCall.run true (.change (some o)) c) := by
  have heq : AclCall.run true (.change (some o)) c = if (c.write o).runOnCommit.any
    (isPendingApply o) then c.write o
      else (c.write o).onCommit (.applyAclPolicy o) := rfl
  rw [heq]
  cases hin : c.inAtomicBlock with
  | true =>
    have hlist : (c.write o).runOnCommit = c.runOnCommit := by simp [Connection.write, hin]
    rw [hlist]
    split
    · rename_i hany
      obtain ⟨k, hk, hpending⟩ := List.any_eq_true.mp hany
      unfold isPendingApply at hpending
      rw [Bool.and_eq_true, beq_iff_eq] at hpending
      exact h.write hin ⟨k, hk, hpending.1, fun _ _ hopen => hopen⟩
    · have hswap : (c.write o).onCommit (.applyAclPolicy o) = (c.onCommit (.applyAclPolicy o)).write o := by
        simp [Connection.write, Connection.onCommit, hin]
      have hin' : (c.onCommit (.applyAclPolicy o)).inAtomicBlock = true := by simp [Connection.onCommit, hin]
      rw [hswap]
      refine (h.onCommit _).write hin' ⟨⟨c.savepointIds, .applyAclPolicy o, false⟩, ?_, rfl, fun n hn _ => ?_⟩
      · simp [Connection.onCommit, hin]
      · simpa [Connection.onCommit, hin] using hn
  | false =>
    have hnone : (c.write o).runOnCommit = [] := by simpa [Connection.write, hin] using (h.outside hin).2.1
    rw [hnone, if_neg (by simp)]
    exact h.writeOnCommit hin rfl

theorem kept_call (a : AclCall) (c : AclConnection) (h : Kept RewritesPolicy c) :
    Kept RewritesPolicy (a.run true c) := by
  cases a with
  | change organization =>
    cases organization with
    | none => exact h
    | some o => exact kept_change h o
  | register => exact h.onCommit _

/-- At most one rewrite per organization. -/
def AtMostOnce (l : List (Hook CommitHook)) : Prop := ∀ o, l.countP (isPendingApply o) ≤ 1

theorem AtMostOnce.sublist (l l' : List (Hook CommitHook)) (hsub : l'.Sublist l) (h : AtMostOnce l) :
    AtMostOnce l' :=
  fun o => Nat.le_trans hsub.countP_le (h o)

theorem atMostOnce_onCommit {k : CommitHook} (h : Lists AtMostOnce c)
    (hnone : ∀ o, k = .applyAclPolicy o → c.runOnCommit.any (isPendingApply o) = false) :
    Lists AtMostOnce (c.onCommit k) := by
  unfold Connection.onCommit
  split
  · refine ⟨fun o => ?_, h.draining⟩
    show (c.runOnCommit ++ [(⟨c.savepointIds, k, false⟩ : Hook CommitHook)]).countP (isPendingApply o) ≤ 1
    rw [List.countP_append]
    by_cases hk : k = .applyAclPolicy o
    · have hzero : c.runOnCommit.countP (isPendingApply o) = 0 :=
        List.countP_eq_zero.mpr fun h hh hp => by simpa [hp] using List.any_eq_false.mp (hnone o hk) h hh
      have hone : [(⟨c.savepointIds, k, false⟩ : Hook CommitHook)].countP (isPendingApply o) ≤ 1 :=
        List.countP_le_length
      omega
    · have hzero : [(⟨c.savepointIds, k, false⟩ : Hook CommitHook)].countP (isPendingApply o) = 0 := by
        simp [isPendingApply, hk]
      rw [hzero]
      exact h.registered o
  · exact ⟨h.registered, h.draining⟩

theorem atMostOnce_call (configured : Bool) (a : AclCall) (c : AclConnection) (h : Lists AtMostOnce c) :
    Lists AtMostOnce (a.run configured c) := by
  cases a with
  | register => exact atMostOnce_onCommit h (by simp)
  | change organization =>
    cases organization with
    | none => exact h
    | some o =>
      have hwritten : Lists AtMostOnce (c.write o) := by
        unfold Connection.write
        split <;> exact ⟨h.registered, h.draining⟩
      have heq : AclCall.run configured (.change (some o)) c = if !configured then c.write o
          else if (c.write o).runOnCommit.any (isPendingApply o) then c.write o
          else (c.write o).onCommit (.applyAclPolicy o) := rfl
      rw [heq]
      split
      · exact hwritten
      · split
        · exact hwritten
        · rename_i hnone
          refine atMostOnce_onCommit hwritten fun o' ho => ?_
          cases ho
          simpa using hnone

/-- Once no hook is left to run, each committed change has a rewrite after it; no transaction has two for
one organization. -/
theorem acl_applies_coalesce {configured : Bool} {ms : List (Move AclCall)}
    (hrun : Run (AclStep configured) .fresh ms c) :
    (configured = true → c.draining = [] → ∀ newer o older, c.log = newer ++ .committed o :: older →
      .ran (.applyAclPolicy o) ∈ newer)
    ∧ AtMostOnce c.runOnCommit ∧ ∀ d ∈ c.draining, AtMostOnce d.rest := by
  have hlists : Lists AtMostOnce c :=
    hrun.invariant (P := fun c : AclConnection => Lists AtMostOnce c)
      (fun h hstep => h.step AtMostOnce.sublist (atMostOnce_call configured) hstep)
      ⟨fun o => by simp [Connection.fresh], fun d hd => by simp [Connection.fresh] at hd⟩
  refine ⟨fun hconfigured hdone newer o older hlog => ?_, hlists.registered, hlists.draining⟩
  subst hconfigured
  have hkept : Kept RewritesPolicy c :=
    hrun.invariant (P := fun c : AclConnection => Kept RewritesPolicy c)
      (fun h hstep => h.step kept_call hstep) .fresh
  obtain ⟨k, rfl, hran⟩ := hkept.served hdone hlog
  exact hran

/-- A change is undone with its savepoint, and made again: one rewrite follows it. -/
theorem acl_applies_coalesce_again :
    ∃ c : AclConnection, Run (AclStep true) .fresh [.enter true, .enter true, .call (.change (some 0)), .exit true,
        .call (.change (some 0)), .call (.change (some 0)), .exit false, .next, .drained] c
      ∧ c.log = [.ran (.applyAclPolicy 0), .committed 0, .committed 0]
      ∧ ∀ newer o older, c.log = newer ++ .committed o :: older → .ran (.applyAclPolicy o) ∈ newer := by
  have hrun : ∃ c : AclConnection, Run (AclStep true) .fresh [.enter true, .enter true,
    .call (.change (some 0)), .exit true,
      .call (.change (some 0)), .call (.change (some 0)), .exit false, .next, .drained] c
      ∧ c.log = [.ran (.applyAclPolicy 0), .committed 0, .committed 0] ∧ c.draining = [] := by
    have hcode : ∀ {c : AclConnection}, c.draining = [] → c.CodeRuns := fun h d ds hd => by simp [h] at hd
    refine ⟨_, .cons (.enter _ _ (hcode rfl)) (.cons (.enter _ _ (hcode rfl)) (.cons (.call _ _ (hcode rfl))
      (.cons (.exit _ _ (hcode rfl) rfl) (.cons (.call _ _ (hcode rfl)) (.cons (.call _ _ (hcode rfl))
      (.cons (.exit _ _ (hcode rfl) rfl) (.cons (.next _ _ _ _ rfl) (.cons (.drained _ _ rfl) (.nil _))))))))),
        rfl, rfl⟩
  obtain ⟨c, hrun, hlog, hdone⟩ := hrun
  exact ⟨c, hrun, hlog, (acl_applies_coalesce hrun).1 rfl hdone⟩

/-- A hook that runs before the rewrite changes the organization in a transaction of its own: two rewrites
wait at once. -/
theorem two_applies_pending :
    ∃ c : AclConnection, Run (AclStep true) .fresh [.enter true, .call .register, .call (.change (some 0)),
      .exit false, .next,
        .enter true, .call (.change (some 0))] c
      ∧ (c.runOnCommit ++ c.draining.flatMap (·.rest)).countP (isPendingApply 0) = 2 := by
  have hcode : ∀ {c : AclConnection}, c.draining = [] → c.CodeRuns := fun h d ds hd => by simp [h] at hd
  have hhook : ∀ {c : AclConnection} {rest ds}, c.draining = ⟨rest, true⟩ :: ds → c.CodeRuns := fun h d ds hd => by
    rw [h] at hd
    obtain ⟨rfl, -⟩ := List.cons.inj hd
    rfl
  exact ⟨_, .cons (.enter _ _ (hcode rfl)) (.cons (.call _ _ (hcode rfl)) (.cons (.call _ _ (hcode rfl))
    (.cons (.exit _ _ (hcode rfl) rfl) (.cons (.next _ _ _ _ rfl) (.cons (.enter _ _ (hhook rfl))
    (.cons (.call _ _ (hhook rfl)) (.nil _))))))), rfl⟩

end Lok
