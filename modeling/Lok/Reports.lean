import Mathlib.Data.List.Sort
import Lok.Calls
import Lok.Checks
import Lok.Runs
import Lok.Schema

/-!
# Reports and their triage

A client reports how it is doing; an operator answers a report. A report is written in one transaction that
holds the client's row. An answer is three statements, and holds nothing: it saves the report, asks whether
that is the client's latest, and if it is writes the flag that says whether the latest report is resolved.
-/

namespace Lok

namespace Reports

open Calls Checks Runs

structure AliasReport where
  aliasId : Option String
  valid : Bool
  reason : Option String

structure ReportRequest where
  aliasReports : List (String × AliasReport)
  functional : Bool

structure UsedAlias where
  alias_ : Option Pk
  valid : Bool
  reason : Option String
  usedAt : Time

structure Report where
  functional : Bool
  aliasReports : List (String × AliasReport)
  createdAt : Time
  resolvedAt : Option Time
  resolvedBy : Option Pk
  resolutionNote : Option String

def Report.isResolved (r : Report) : Bool := r.resolvedAt.isSome

/-- What is stored of one client, and, as no table has it, every report there ever was, oldest first. -/
structure Reporting where
  organization : Option Pk
  functional : Bool
  latestReportResolved : Bool
  reportRequestedAt : Option Time
  reportRequestedBy : Option Pk
  lastHealthyReport : Option Pk
  usedAliases : String → Option UsedAlias
  reports : Table Report
  made : List Report

/-! ## Reporting -/

/-- The order of the reports: `("-created_at", "-id")`. -/
def Newer (a b : Pk × Report) : Prop := b.2.createdAt < a.2.createdAt ∨ b.2.createdAt = a.2.createdAt ∧ b.1 ≤ a.1

instance : DecidableRel Newer := fun _ _ => inferInstanceAs (Decidable (_ ∨ _))

def newest (reports : Table Report) : List (Pk × Report) := reports.rows.insertionSort Newer

/-- The query for an alias by its id among those of the instances of an organization's hubs. It raises for
an id that is no number. -/
abbrev Visible := Pk → String → Answer (Option Pk)

def resolveReportedAlias (visible : Visible) (organization : Option Pk) : Option String → Answer (Option Pk)
  | none => .ok none
  | some aliasId =>
    if aliasId.isEmpty then .ok none
    else
      match organization with
      | none => .ok none
      | some organization => visible organization aliasId

def ReportRequest.snapshot (claim : ReportRequest) (now : Time) : Report where
  functional := claim.functional
  aliasReports := claim.aliasReports
  createdAt := now
  resolvedAt := none
  resolvedBy := none
  resolutionNote := none

namespace Reporting

variable (s : Reporting)

def useAliases (visible : Visible) (now : Time) (claim : ReportRequest) : Answer (String → Option UsedAlias) :=
  claim.aliasReports.foldlM
    (fun used r => do
      let alias_ ← resolveReportedAlias visible s.organization r.2.aliasId
      return Function.update used r.1 (some ⟨alias_, r.2.valid, r.2.reason, now⟩))
    s.usedAliases

/-- The newest of the reports, and the last healthy one. -/
def keepIds (retention : Nat) : List Pk :=
  ((newest s.reports).take retention).map Prod.fst ++ s.lastHealthyReport.toList

def prune (retention : Nat) : Reporting :=
  { s with reports := s.reports.keep fun pk _ => (s.keepIds retention).contains pk }

def record (used : String → Option UsedAlias) (now : Time) (claim : ReportRequest) : Reporting where
  organization := s.organization
  functional := claim.functional
  latestReportResolved := false
  reportRequestedAt := none
  reportRequestedBy := none
  lastHealthyReport := if claim.functional then some s.reports.next else s.lastHealthyReport
  usedAliases := used
  reports := s.reports.insert (claim.snapshot now)
  made := s.made ++ [claim.snapshot now]

/-- `report_client`, in one transaction. -/
def reportClient (retention : Nat) (visible : Visible) (now : Time) (claim : ReportRequest) :
    Answer Reporting := do
  let used ← s.useAliases visible now claim
  return (s.record used now claim).prune retention

def isLatest (pk : Pk) : Bool := (newest s.reports).head?.any (·.1 == pk)

end Reporting

/-! ## Triage -/

inductive Triage
  | resolve (user : Pk) (note : Option String)
  | unresolve

def Triage.resolves : Triage → Bool
  | .resolve _ _ => true
  | .unresolve => false

def Report.triaged (now : Time) : Triage → Report → Report
  | .resolve user note, r => { r with resolvedAt := some now, resolvedBy := some user, resolutionNote := note }
  | .unresolve, r => { r with resolvedAt := none, resolvedBy := none, resolutionNote := none }

inductive Answering
  | loaded (report : Pk) (triage : Triage)
  | saved (report : Pk) (triage : Triage)
  | asked (report : Pk) (triage : Triage) (isLatest : Bool)

/-- The next statement of `resolve` or `unresolve`. A save that finds no row raises. -/
def Answering.advance (s : Reporting) : Answering → Time → Option (Reporting × Option Answering)
  | .loaded report triage, now =>
    if (s.reports.row report).isSome then
      some ({ s with reports := s.reports.modify report (Report.triaged now triage) }, some (.saved report triage))
    else some (s, none)
  | .saved report triage, _ => some (s, some (.asked report triage (s.isLatest report)))
  | .asked _ triage true, _ => some ({ s with latestReportResolved := triage.resolves }, none)
  | .asked _ _ false, _ => some (s, none)

/-! ## Any interleaving -/

abbrev Desk := Pool Reporting Answering

inductive Event
  | report (now : Time) (visible : Visible) (claim : ReportRequest)
  | answer (report : Pk) (triage : Triage)
  | goOn (n : Nat) (now : Time)

def Event.run (retention : Nat) (s : Desk) : Event → Option Desk
  | .report now visible claim =>
    match s.store.reportClient retention visible now claim with
    | .ok store => some { s with store := store }
    | .error _ => some s
  | .answer pk triage => if (s.store.reports.row pk).isSome then some (s.begin (.loaded pk triage)) else none
  | .goOn n now => s.goOn Answering.advance n now

/-- What an answer is about to make of the flag, and for which report. -/
def Answering.writes : Answering → Option (Pk × Bool)
  | .saved report triage | .asked report triage true => some (report, triage.resolves)
  | _ => none

def Answering.hasAsked : Answering → Bool
  | .asked _ _ true => true
  | _ => false

/-- The clock is not set back: what is stored is not from the future. -/
def Event.clocked (s : Desk) : Event → Prop
  | .report now _ _ => ∀ pk r, s.store.reports.row pk = some r → r.createdAt ≤ now
  | _ => True

/-- No report arrives while an answer was told that its report is the latest and has not written the flag,
and no answer saves a report while another, to the contrary, has saved it and not written the flag. -/
def Event.apart (s : Desk) : Event → Prop
  | .report _ _ _ => ∀ c ∈ s.calls, c.hasAsked = false
  | .answer _ _ => True
  | .goOn n _ => ∀ pk triage, s.calls[n]? = some (.loaded pk triage) →
      ∀ c ∈ s.others n, ∀ resolves, c.writes = some (pk, resolves) → resolves = triage.resolves

def Step (retention : Nat) (s : Desk) (e : Event) (t : Desk) : Prop := e.clocked s ∧ e.run retention s = some t

def ApartStep (retention : Nat) (s : Desk) (e : Event) (t : Desk) : Prop := e.apart s ∧ Step retention s e t

structure Reporting.Unheard (s : Reporting) : Prop where
  reports : s.reports = .empty
  made : s.made = []
  healthy : s.lastHealthyReport = none
  flag : s.latestReportResolved = false

/-- The last healthy report there was. -/
def Reporting.LastHealthy (s : Reporting) (pk : Pk) : Prop :=
  (∃ r, s.made[pk]? = some r ∧ r.functional = true) ∧ ∀ q r, pk < q → s.made[q]? = some r → r.functional = false

/-- What is kept of the reports there were. -/
structure Reporting.Kept (retention : Nat) (s : Reporting) : Prop where
  few : s.reports.count (fun _ _ => true) ≤ retention + 1
  recent : ∀ pk, pk < s.made.length → s.made.length ≤ pk + retention → (s.reports.row pk).isSome = true
  healthy : ∀ pk, s.lastHealthyReport = some pk ↔ s.LastHealthy pk
  healthyKept : ∀ pk, s.lastHealthyReport = some pk → (s.reports.row pk).isSome = true
  asMade : ∀ pk r, s.reports.row pk = some r →
    ∃ m, s.made[pk]? = some m ∧ r.functional = m.functional ∧ r.aliasReports = m.aliasReports
      ∧ r.createdAt = m.createdAt

/-- The most recent report there was is resolved. -/
def Reporting.LatestResolved (s : Reporting) : Prop :=
  ∃ pk r, pk + 1 = s.made.length ∧ s.reports.row pk = some r ∧ r.isResolved = true

/-! ## What reporting keeps -/

variable {retention : Nat} {s t : Reporting} {visible : Visible} {used : String → Option UsedAlias} {now : Time}
  {claim : ReportRequest}

instance : Std.Total Newer := ⟨fun a b => by unfold Newer Time Pk; omega⟩

instance : IsTrans (Pk × Report) Newer := ⟨fun a b c hab hbc => by unfold Newer Time Pk at *; omega⟩

/-- Reports are created in the order of their keys. -/
def InOrder (reports : Table Report) : Prop :=
  ∀ p q r r', reports.row p = some r → reports.row q = some r' → p ≤ q → r.createdAt ≤ r'.createdAt

theorem mem_newest {reports : Table Report} {pk : Pk} {r : Report} :
    (pk, r) ∈ newest reports ↔ reports.row pk = some r := by
  rw [newest, List.mem_insertionSort, Table.mem_rows]

theorem InOrder.newest {reports : Table Report} (h : InOrder reports) :
    (newest reports).Pairwise fun a b => b.1 < a.1 := by
  have hne : (Reports.newest reports).Pairwise fun a b => a.1 ≠ b.1 :=
    (List.perm_insertionSort Newer reports.rows).symm.pairwise
      (reports.rows_sorted.imp fun hlt => Nat.ne_of_lt hlt) fun h => h.symm
  have hboth := (List.pairwise_insertionSort Newer reports.rows).and hne
  refine List.Pairwise.imp_of_mem (fun {a b} ha hb hab => ?_) hboth
  obtain ⟨hnewer, hne⟩ := hab
  have hab := h a.1 b.1 a.2 b.2 (mem_newest.mp ha) (mem_newest.mp hb)
  unfold Newer Time Pk at *
  omega

theorem length_le_of_descending {l : List (Nat × Report)} {low high : Nat} (h : l.Pairwise fun a b => b.1 < a.1)
    (hlow : ∀ a ∈ l, low < a.1) (hhigh : ∀ a ∈ l, a.1 < high) : l.length ≤ high - (low + 1) := by
  have hnodup : (l.map Prod.fst).Nodup := List.pairwise_map.mpr (h.imp fun hlt => Nat.ne_of_gt hlt)
  have hsub : l.map Prod.fst ⊆ List.range' (low + 1) (high - (low + 1)) := by
    intro pk hpk
    obtain ⟨a, ha, rfl⟩ := List.mem_map.mp hpk
    have := hlow a ha
    have := hhigh a ha
    rw [List.mem_range'_1]
    omega
  simpa using (List.subperm_of_subset hnodup hsub).length_le

theorem InOrder.mem_take {reports : Table Report} (h : InOrder reports) {pk : Pk} {r : Report}
    (hrow : reports.row pk = some r)
    (hrecent : reports.next ≤ pk + retention) : (pk, r) ∈ (Reports.newest reports).take retention := by
  have hmem := mem_newest.mpr hrow
  have hsorted := h.newest
  rw [← List.take_append_drop retention (Reports.newest reports)] at hmem hsorted
  rcases List.mem_append.mp hmem with hmem | hdrop
  · exact hmem
  · exfalso
    obtain ⟨htake, -, hacross⟩ := List.pairwise_append.mp hsorted
    have hfits := length_le_of_descending htake (fun a ha => hacross a ha _ hdrop) fun a ha =>
      Table.lt_next (mem_newest.mp (List.mem_of_mem_take ha))
    have hfull := List.length_pos_of_mem hdrop
    rw [List.length_drop] at hfull
    rw [List.length_take] at hfits
    have hlt := Table.lt_next hrow
    omega

/-- The keys of the reports are their places among those there were. -/
structure Reporting.Sound (retention : Nat) (s : Reporting) : Prop extends s.Kept retention where
  length : s.made.length = s.reports.next
  ordered : InOrder s.reports

theorem Reporting.Unheard.sound (h : s.Unheard) : s.Sound retention where
  few := by
    rw [h.reports]
    exact Nat.zero_le _
  recent pk hlt := by simp [h.made] at hlt
  healthy pk := by simp [h.healthy, Reporting.LastHealthy, h.made]
  healthyKept pk hpk := by simp [h.healthy] at hpk
  asMade pk r hrow := by simp [h.reports] at hrow
  length := by simp [h.made, h.reports, Table.empty]
  ordered p q r r' hr := by simp [h.reports] at hr

theorem prune_few : (s.prune retention).reports.count (fun _ _ => true) ≤ retention + 1 := by
  have hsub : (s.prune retention).reports.pks (fun _ _ => true) ⊆ s.keepIds retention := by
    intro pk hpk
    obtain ⟨r, hr, -⟩ := Table.mem_pks.mp hpk
    exact List.contains_iff_mem.mp (Table.keep_row_eq_some.mp hr).2
  have hcount := ((s.prune retention).reports.pks_nodup _).length_le_of_subset hsub
  have hkeep : (s.keepIds retention).length ≤ retention + 1 := by
    unfold Reporting.keepIds
    rw [List.length_append, List.length_map, List.length_take]
    exact Nat.add_le_add (Nat.min_le_left _ _) (by cases s.lastHealthyReport <;> simp)
  rw [Table.pks, List.length_map] at hcount
  exact Nat.le_trans hcount hkeep

theorem Reporting.Sound.lt (h : s.Sound retention) {pk : Pk} {r : Report} (hrow : s.reports.row pk = some r) :
    pk < s.made.length := by
  rw [h.length]
  exact Table.lt_next hrow

theorem Reporting.Sound.record_ordered (h : s.Sound retention)
    (hclock : ∀ pk r, s.reports.row pk = some r → r.createdAt ≤ now) :
    InOrder (s.record used now claim).reports := by
  intro p q r r' hr hr' hle
  rcases Table.insert_row_eq_some.mp hr with ⟨hp, hnew⟩ | hr
  · rcases Table.insert_row_eq_some.mp hr' with ⟨-, hnew'⟩ | hr'
    · rw [← hnew, ← hnew']
    · exact absurd (Table.lt_next hr') (Nat.not_lt.mpr (hp ▸ hle))
  · rcases Table.insert_row_eq_some.mp hr' with ⟨-, hnew'⟩ | hr'
    · rw [← hnew']
      exact hclock p r hr
    · exact h.ordered p q r r' hr hr' hle

theorem Reporting.Sound.report_recent (h : s.Sound retention)
    (hclock : ∀ pk r, s.reports.row pk = some r → r.createdAt ≤ now)
    {pk : Pk} (hlt : pk < s.reports.next + 1) (hrecent : s.reports.next + 1 ≤ pk + retention) :
    (((s.record used now claim).prune retention).reports.row pk).isSome = true := by
  have hrow : ∃ r, (s.record used now claim).reports.row pk = some r := by
    rcases Nat.lt_succ_iff_lt_or_eq.mp hlt with hlt | hpk
    · have hold := h.recent pk (h.length ▸ hlt) (h.length ▸ Nat.le_of_succ_le hrecent)
      obtain ⟨r, hr⟩ := Option.isSome_iff_exists.mp hold
      exact ⟨r, Table.insert_row_of_some hr⟩
    · rw [hpk]
      exact ⟨_, Table.insert_row_next _ _⟩
  obtain ⟨r, hr⟩ := hrow
  have hmem := (h.record_ordered hclock).mem_take hr hrecent
  refine Option.isSome_iff_exists.mpr ⟨r, Table.keep_row_eq_some.mpr ⟨hr, ?_⟩⟩
  exact List.contains_iff_mem.mpr (List.mem_append_left _ (List.mem_map_of_mem hmem))

theorem lastHealthy_append {m : Report} {t : Reporting} (hmade : t.made = s.made ++ [m]) {pk : Pk} :
    t.LastHealthy pk ↔ if m.functional then pk = s.made.length else s.LastHealthy pk := by
  unfold Reporting.LastHealthy
  rw [hmade]
  by_cases hm : m.functional = true
  · rw [if_pos hm]
    constructor
    · intro h
      obtain ⟨⟨r, hr, -⟩, hafter⟩ := h
      rcases Nat.lt_or_ge pk s.made.length with hlt | hge
      · have := hafter s.made.length m hlt (by simp)
        rw [hm] at this
        cases this
      · have hlast := (List.getElem?_eq_some_iff.mp hr).1
        rw [List.length_append, List.length_singleton] at hlast
        exact Nat.le_antisymm (Nat.lt_succ_iff.mp hlast) hge
    · intro h
      rw [h]
      refine ⟨⟨m, by simp, hm⟩, fun q r hlt hr => ?_⟩
      have hlast := (List.getElem?_eq_some_iff.mp hr).1
      rw [List.length_append, List.length_singleton] at hlast
      exact absurd hlt (Nat.not_lt.mpr (Nat.lt_succ_iff.mp hlast))
  · rw [if_neg hm]
    have hget : ∀ q r, (s.made ++ [m])[q]? = some r ↔ s.made[q]? = some r ∨ q = s.made.length ∧ r = m := by
      intro q r
      rcases Nat.lt_trichotomy q s.made.length with hlt | heq | hgt
      · rw [List.getElem?_append_left hlt]
        simp [Nat.ne_of_lt hlt]
      · simp [heq, eq_comm]
      · rw [List.getElem?_eq_none (by simp; omega), List.getElem?_eq_none (by omega)]
        simp [Nat.ne_of_gt hgt]
    constructor
    · intro h
      obtain ⟨⟨r, hr, hfunctional⟩, hafter⟩ := h
      refine ⟨⟨r, ?_, hfunctional⟩, fun q r hlt hr => hafter q r hlt ((hget q r).mpr (.inl hr))⟩
      rcases (hget pk r).mp hr with hr | ⟨-, rfl⟩
      · exact hr
      · exact absurd hfunctional hm
    · intro h
      obtain ⟨⟨r, hr, hfunctional⟩, hafter⟩ := h
      refine ⟨⟨r, (hget pk r).mpr (.inl hr), hfunctional⟩, fun q r hlt hr => ?_⟩
      rcases (hget q r).mp hr with hr | ⟨-, rfl⟩
      · exact hafter q r hlt hr
      · exact Bool.not_eq_true _ ▸ hm

theorem Reporting.Sound.report (h : s.Sound retention)
    (hclock : ∀ pk r, s.reports.row pk = some r → r.createdAt ≤ now) :
    ((s.record used now claim).prune retention).Sound retention where
  few := prune_few
  recent pk hlt hrecent := by
    have hlength : ((s.record used now claim).prune retention).made.length = s.reports.next + 1 := by
      rw [← h.length]
      exact List.length_append
    rw [hlength] at hlt hrecent
    exact h.report_recent hclock hlt hrecent
  healthy pk := by
    rw [lastHealthy_append (s := s) rfl, h.length]
    show (if claim.functional = true then some s.reports.next else s.lastHealthyReport) = some pk ↔ _
    change _ ↔ if claim.functional = true then _ else _
    by_cases hfunctional : claim.functional = true
    · rw [if_pos hfunctional, if_pos hfunctional, Option.some.injEq, eq_comm]
    · rw [if_neg hfunctional, if_neg hfunctional]
      exact h.healthy pk
  healthyKept pk hpk := by
    have hrow : ∃ r, (s.record used now claim).reports.row pk = some r := by
      change (if claim.functional = true then some s.reports.next else s.lastHealthyReport) = some pk at hpk
      by_cases hfunctional : claim.functional = true
      · rw [if_pos hfunctional] at hpk
        rw [← Option.some.inj hpk]
        exact ⟨_, Table.insert_row_next _ _⟩
      · rw [if_neg hfunctional] at hpk
        obtain ⟨r, hr⟩ := Option.isSome_iff_exists.mp (h.healthyKept pk hpk)
        exact ⟨r, Table.insert_row_of_some hr⟩
    obtain ⟨r, hr⟩ := hrow
    refine Option.isSome_iff_exists.mpr ⟨r, Table.keep_row_eq_some.mpr ⟨hr, ?_⟩⟩
    exact List.contains_iff_mem.mpr (List.mem_append_right _ (Option.mem_toList.mpr hpk))
  asMade pk r hrow := by
    rcases Table.insert_row_eq_some.mp (Table.keep_row_eq_some.mp hrow).1 with ⟨hpk, hnew⟩ | hrow
    · refine ⟨r, ?_, rfl, rfl, rfl⟩
      change (s.made ++ [claim.snapshot now])[pk]? = some r
      rw [hpk, ← h.length, hnew]
      simp
    · obtain ⟨m, hm, hsame⟩ := h.asMade pk r hrow
      exact ⟨m, List.getElem?_append_left (h.lt hrow) ▸ hm, hsame⟩
  length := by
    change (s.made ++ [_]).length = s.reports.next + 1
    rw [List.length_append, h.length]
    rfl
  ordered p q r r' hr hr' := h.record_ordered hclock p q r r' (Table.keep_row_eq_some.mp hr).1
    (Table.keep_row_eq_some.mp hr').1

/-! ## What an answer keeps -/

variable {pk : Pk} {triage : Triage} {c : Answering} {next : Option Answering}

@[simp] theorem triaged_isResolved (r : Report) : (r.triaged now triage).isResolved = triage.resolves := by
  cases triage <;> rfl

theorem triaged_same (now : Time) (triage : Triage) (r : Report) : (r.triaged now triage).functional = r.functional
    ∧ (r.triaged now triage).aliasReports = r.aliasReports ∧ (r.triaged now triage).createdAt = r.createdAt := by
  cases triage <;> exact ⟨rfl, rfl, rfl⟩

theorem modify_triaged {reports : Table Report} {q : Pk} {r : Report}
    (h : (reports.modify pk (Report.triaged now triage)).row q = some r) : ∃ r', reports.row q = some r'
      ∧ r.functional = r'.functional ∧ r.aliasReports = r'.aliasReports ∧ r.createdAt = r'.createdAt
      ∧ r.isResolved = if q = pk then triage.resolves else r'.isResolved := by
  rcases Table.modify_row_eq_some.mp h with ⟨hne, hrow⟩ | ⟨rfl, r', hrow, rfl⟩
  · exact ⟨r, hrow, rfl, rfl, rfl, (if_neg hne).symm⟩
  · obtain ⟨hfunctional, haliases, hcreated⟩ := triaged_same now triage r'
    exact ⟨r', hrow, hfunctional, haliases, hcreated, by rw [if_pos rfl, triaged_isResolved]⟩

theorem modify_isSome {reports : Table Report} {f : Report → Report} {q : Pk} :
    ((reports.modify pk f).row q).isSome = (reports.row q).isSome := by
  rw [Table.modify_row]
  split <;> simp

theorem Reporting.Sound.save (h : s.Sound retention) :
    Reporting.Sound retention { s with reports := s.reports.modify pk (Report.triaged now triage) } where
  few := Nat.le_trans (Table.count_le fun q r hr _ => by
    obtain ⟨r', hr', -⟩ := modify_triaged hr
    exact ⟨r', hr', rfl⟩) h.few
  recent q hlt hrecent := by
    rw [modify_isSome]
    exact h.recent q hlt hrecent
  healthy := h.healthy
  healthyKept q hq := by
    rw [modify_isSome]
    exact h.healthyKept q hq
  asMade q r hr := by
    obtain ⟨r', hr', hfunctional, haliases, hcreated, -⟩ := modify_triaged hr
    obtain ⟨m, hm, hfunctional', haliases', hcreated'⟩ := h.asMade q r' hr'
    exact ⟨m, hm, hfunctional.trans hfunctional', haliases.trans haliases', hcreated.trans hcreated'⟩
  length := h.length
  ordered p q r r' hr hr' hle := by
    obtain ⟨_, hp, -, -, hcreated, -⟩ := modify_triaged hr
    obtain ⟨_, hq, -, -, hcreated', -⟩ := modify_triaged hr'
    rw [hcreated, hcreated']
    exact h.ordered p q _ _ hp hq hle

theorem Reporting.Sound.flag (h : s.Sound retention) (resolved : Bool) :
    Reporting.Sound retention { s with latestReportResolved := resolved } :=
  ⟨⟨h.few, h.recent, h.healthy, h.healthyKept, h.asMade⟩, h.length, h.ordered⟩

theorem Reporting.Sound.advance (h : s.Sound retention) (hadvance : c.advance s now = some (t, next)) :
    t.Sound retention := by
  cases c with
  | loaded pk triage =>
    by_cases hrow : (s.reports.row pk).isSome = true
    · simp only [Answering.advance, hrow, if_true, Option.some.injEq, Prod.mk.injEq] at hadvance
      rw [← hadvance.1]
      exact h.save
    · simp only [Answering.advance, hrow, Bool.false_eq_true, if_false, Option.some.injEq,
        Prod.mk.injEq] at hadvance
      exact hadvance.1 ▸ h
  | saved pk triage =>
    simp only [Answering.advance, Option.some.injEq, Prod.mk.injEq] at hadvance
    exact hadvance.1 ▸ h
  | asked pk triage isLatest =>
    cases isLatest with
    | true =>
      simp only [Answering.advance, Option.some.injEq, Prod.mk.injEq] at hadvance
      rw [← hadvance.1]
      exact h.flag _
    | false =>
      simp only [Answering.advance, Option.some.injEq, Prod.mk.injEq] at hadvance
      exact hadvance.1 ▸ h

theorem report_eq {s t : Desk} (h : (Event.report now visible claim).run retention s = some t) :
    (∃ used, t = { s with store := (s.store.record used now claim).prune retention }) ∨ t = s := by
  unfold Event.run at h
  dsimp only at h
  split at h
  · rename_i store hstore
    simp only [Reporting.reportClient, bind_ok, pure_ok] at hstore
    obtain ⟨used, -, rfl⟩ := hstore
    exact .inl ⟨used, (Option.some.inj h).symm⟩
  · exact .inr (Option.some.inj h).symm

theorem Step.sound {s t : Desk} {e : Event} (h : Step retention s e t) (hs : s.store.Sound retention) :
    t.store.Sound retention := by
  obtain ⟨hclock, hrun⟩ := h
  cases e with
  | report now visible claim =>
    rcases report_eq hrun with ⟨used, hstore⟩ | rfl
    · rw [hstore]
      exact hs.report hclock
    · exact hs
  | answer pk triage =>
    simp only [Event.run, Option.ite_none_right_eq_some, Option.some.injEq] at hrun
    rw [← hrun.2]
    exact hs
  | goOn n now =>
    obtain ⟨c, next, -, hadvance, -, -⟩ := Pool.goOn_eq_some hrun
    exact hs.advance hadvance

theorem Reporting.Sound.isLatest (h : s.Sound retention) (hretention : 1 ≤ retention) {pk : Nat} :
    s.isLatest pk = true ↔ pk + 1 = s.made.length := by
  unfold Reporting.isLatest
  cases hnewest : newest s.reports with
  | nil =>
    simp only [List.head?_nil, Option.any_none, Bool.false_eq_true, false_iff]
    intro hlast
    obtain ⟨r, hr⟩ := Option.isSome_iff_exists.mp (h.recent pk (by omega) (by omega))
    have := mem_newest.mpr hr
    rw [hnewest] at this
    cases this
  | cons a rest =>
    have hrow : s.reports.row a.1 = some a.2 := mem_newest.mp (hnewest ▸ List.mem_cons_self)
    have hfirst : a.1 + 1 = s.made.length := by
      have hlt := h.lt hrow
      have hpos : 0 < s.made.length := Nat.zero_lt_of_lt hlt
      obtain ⟨r, hr⟩ := Option.isSome_iff_exists.mp (h.recent (s.made.length - 1) (by omega) (by omega))
      have hmem := mem_newest.mpr hr
      have hsorted := h.ordered.newest
      rw [hnewest] at hmem hsorted
      rcases List.mem_cons.mp hmem with heq | hmem
      · rw [← congrArg Prod.fst heq]
        exact Nat.sub_add_cancel (Nat.one_le_of_lt hlt)
      · exact absurd (List.rel_of_pairwise_cons hsorted hmem) (Nat.not_lt.mpr (Nat.le_sub_one_of_lt hlt))
    simp only [List.head?_cons, Option.any_some, beq_iff_eq, ← hfirst, Nat.add_right_cancel_iff]
    exact eq_comm

/-! ## The flag -/

def Answering.report : Answering → Pk
  | .loaded report _ | .saved report _ | .asked report _ _ => report

/-- An answer that has saved its report finds it as it was saved, and what it was told of it stays so. -/
structure Answering.Stands (s : Reporting) (c : Answering) : Prop where
  known : c.report < s.made.length
  asSaved : ∀ pk resolves r, c.writes = some (pk, resolves) → s.reports.row pk = some r → r.isResolved = resolves
  latest : c.hasAsked = true → c.report + 1 = s.made.length

/-- The flag is right, unless an answer to the latest report is about to write it. -/
structure Truthful (s : Desk) : Prop where
  flag : (s.store.latestReportResolved = true ↔ s.store.LatestResolved)
    ∨ ∃ c ∈ s.calls, ∃ resolves, c.writes = some (c.report, resolves) ∧ c.report + 1 = s.store.made.length
  stands : s.Each Answering.Stands

theorem Answering.report_of_writes {resolves : Bool} (h : c.writes = some (pk, resolves)) : c.report = pk := by
  cases c with
  | loaded pk triage => cases h
  | saved pk triage => exact congrArg Prod.fst (Option.some.inj h)
  | asked pk triage isLatest =>
    cases isLatest with
    | true => exact congrArg Prod.fst (Option.some.inj h)
    | false => cases h

theorem Reporting.Unheard.truthful (h : s.Unheard) : Truthful ⟨s, []⟩ where
  flag := .inl (by simp [h.flag, Reporting.LatestResolved, h.made])
  stands := Pool.Each.none rfl

theorem Truthful.report {s : Desk} (h : Truthful s) (hs : s.store.Sound retention)
    (hasked : ∀ c ∈ s.calls, c.hasAsked = false) :
    Truthful { s with store := (s.store.record used now claim).prune retention } where
  flag := by
    refine .inl (iff_of_false Bool.false_ne_true fun hlatest => ?_)
    obtain ⟨pk, r, hlast, hrow, hresolved⟩ := hlatest
    change pk + 1 = (s.store.made ++ [_]).length at hlast
    rw [List.length_append, List.length_singleton, hs.length] at hlast
    rcases Table.insert_row_eq_some.mp (Table.keep_row_eq_some.mp hrow).1 with ⟨-, rfl⟩ | hrow
    · cases hresolved
    · exact absurd (Table.lt_next hrow) (by omega)
  stands := h.stands.store fun c hc hstands => by
    refine ⟨?_, fun pk resolves r hwrites hrow => ?_, fun hlatest => ?_⟩
    · change c.report < (s.store.made ++ [_]).length
      rw [List.length_append]
      exact Nat.lt_succ_of_lt hstands.known
    · have hold : pk < s.store.reports.next := by
        rw [← Answering.report_of_writes hwrites, ← hs.length]
        exact hstands.known
      rcases Table.insert_row_eq_some.mp (Table.keep_row_eq_some.mp hrow).1 with ⟨hpk, -⟩ | hrow
      · exact absurd hold (Nat.not_lt.mpr (Nat.le_of_eq hpk.symm))
      · exact hstands.asSaved pk resolves r hwrites hrow
    · rw [hasked c hc] at hlatest
      cases hlatest

/-- The store stays, and the call that goes on, if it was to write the flag for the latest report, still is. -/
theorem Truthful.goOn {s t : Desk} {n : Nat} (h : Truthful s) (hbefore : s.calls.Perm (c :: s.others n))
    (hafter : t.calls.Perm (next.toList ++ s.others n)) (hstore : t.store = s.store)
    (hnext : ∀ d ∈ next, d.Stands s.store)
    (hwrites : ∀ resolves, c.writes = some (c.report, resolves) → c.report + 1 = s.store.made.length →
      ∃ d ∈ next, d.report = c.report ∧ d.writes = c.writes) : Truthful t where
  flag := by
    rw [hstore]
    refine h.flag.imp_right fun hpending => ?_
    obtain ⟨d, hd, resolves, hd_writes, hlast⟩ := hpending
    rcases List.mem_cons.mp (hbefore.mem_iff.mp hd) with rfl | hd
    · obtain ⟨d', hd', hreport, hsame⟩ := hwrites resolves hd_writes hlast
      refine ⟨d', hafter.mem_iff.mpr (List.mem_append_left _ (Option.mem_toList.mpr hd')), resolves, ?_, ?_⟩
      · rw [hsame, hreport, hd_writes]
      · rw [hreport, hlast]
    · exact ⟨d, hafter.mem_iff.mpr (List.mem_append_right _ hd), resolves, hd_writes, hlast⟩
  stands := h.stands.goOn hafter (fun d hd => hstore ▸ hnext d hd) fun d _ hstands => hstore ▸ hstands

theorem Truthful.save {s t : Desk} {n : Nat} (h : Truthful s)
    (hbefore : s.calls.Perm (.loaded pk triage :: s.others n))
    (hafter : t.calls.Perm (.saved pk triage :: s.others n))
    (hstore : t.store = { s.store with reports := s.store.reports.modify pk (Report.triaged now triage) })
    (hknown : pk < s.store.made.length)
    (hapart : ∀ c ∈ s.others n, ∀ resolves, c.writes = some (pk, resolves) → resolves = triage.resolves) :
    Truthful t where
  flag := by
    rw [hstore]
    by_cases hlast : pk + 1 = s.store.made.length
    · exact .inr ⟨.saved pk triage, hafter.mem_iff.mpr List.mem_cons_self, triage.resolves, rfl, hlast⟩
    · rcases h.flag with hflag | hpending
      · refine .inl (hflag.trans ?_)
        have hrow : ∀ q : Pk, q + 1 = s.store.made.length →
            (s.store.reports.modify pk (Report.triaged now triage)).row q = s.store.reports.row q := fun q hq =>
          Table.modify_row_of_ne fun heq => hlast (heq ▸ hq)
        constructor
        · intro hlatest
          obtain ⟨q, r, hq, hr, hresolved⟩ := hlatest
          exact ⟨q, r, hq, (hrow q hq).trans hr, hresolved⟩
        · intro hlatest
          obtain ⟨q, r, hq, hr, hresolved⟩ := hlatest
          exact ⟨q, r, hq, (hrow q hq).symm.trans hr, hresolved⟩
      · obtain ⟨d, hd, resolves, hwrites, hd_last⟩ := hpending
        rcases List.mem_cons.mp (hbefore.mem_iff.mp hd) with rfl | hd
        · exact absurd hd_last hlast
        · exact .inr ⟨d, hafter.mem_iff.mpr (List.mem_cons_of_mem _ hd), resolves, hwrites, hd_last⟩
  stands := by
    have hafter' : t.calls.Perm ((some (Answering.saved pk triage)).toList ++ s.others n) := hafter
    refine h.stands.goOn hafter' (fun d hd => ?_) fun d hd hstands => ?_
    · obtain rfl := Option.some.inj hd
      refine ⟨hstore ▸ hknown, fun q resolves r hwrites hrow => ?_, fun hasked => by cases hasked⟩
      obtain ⟨rfl, rfl⟩ := Prod.mk.inj (Option.some.inj hwrites)
      rw [hstore] at hrow
      obtain ⟨r', -, -, -, -, hresolved⟩ := modify_triaged hrow
      rw [hresolved, if_pos rfl]
    · refine ⟨hstore ▸ hstands.known, fun q resolves r hwrites hrow => ?_,
        fun hasked => hstore ▸ hstands.latest hasked⟩
      rw [hstore] at hrow
      obtain ⟨r', hr', -, -, -, hresolved⟩ := modify_triaged hrow
      rw [hresolved]
      by_cases hq : q = pk
      · rw [if_pos hq]
        exact (hapart d hd resolves (hq ▸ hwrites)).symm
      · rw [if_neg hq]
        exact hstands.asSaved q resolves r' hwrites hr'

theorem Truthful.write {s t : Desk} {n : Nat} (h : Truthful s) (hs : s.store.Sound retention)
    (hretention : 1 ≤ retention)
    (hbefore : s.calls.Perm (.asked pk triage true :: s.others n)) (hafter : t.calls.Perm (s.others n))
    (hstore : t.store = { s.store with latestReportResolved := triage.resolves }) : Truthful t where
  flag := by
    have hstands := h.stands _ (hbefore.mem_iff.mpr List.mem_cons_self)
    have hlast : pk + 1 = s.store.made.length := hstands.latest rfl
    obtain ⟨r, hr⟩ := Option.isSome_iff_exists.mp
      (hs.recent pk hstands.known (by rw [← hlast]; exact Nat.add_le_add_left hretention pk))
    have hresolved := hstands.asSaved pk triage.resolves r rfl hr
    rw [hstore]
    left
    constructor
    · intro hflag
      exact ⟨pk, r, hlast, hr, hresolved.trans hflag⟩
    · intro hlatest
      obtain ⟨q, r', hq, hr', hresolved'⟩ := hlatest
      obtain rfl : q = pk := Nat.add_right_cancel (hq.trans hlast.symm)
      obtain rfl : r' = r := Option.some.inj (hr'.symm.trans hr)
      exact hresolved.symm.trans hresolved'
  stands := by
    have hafter' : t.calls.Perm ((none : Option Answering).toList ++ s.others n) := hafter
    refine h.stands.goOn hafter' (fun d hd => by cases hd) fun d _ hstands => ?_
    rw [hstore]
    exact ⟨hstands.known, hstands.asSaved, hstands.latest⟩

theorem ApartStep.truthful {s t : Desk} {e : Event} (h : ApartStep retention s e t) (hretention : 1 ≤ retention)
    (hs : s.store.Sound retention) (htruth : Truthful s) : Truthful t := by
  obtain ⟨hapart, -, hrun⟩ := h
  cases e with
  | report now visible claim =>
    rcases report_eq hrun with ⟨used, rfl⟩ | rfl
    · exact htruth.report hs hapart
    · exact htruth
  | answer pk triage =>
    simp only [Event.run, Option.ite_none_right_eq_some, Option.some.injEq] at hrun
    obtain ⟨hrow, rfl⟩ := hrun
    obtain ⟨r, hr⟩ := Option.isSome_iff_exists.mp hrow
    refine ⟨htruth.flag.imp_right fun hpending => ?_,
      htruth.stands.begin ⟨hs.lt hr, fun q resolves r hwrites => ?_, fun hasked => ?_⟩⟩
    · obtain ⟨c, hc, hwrites⟩ := hpending
      exact ⟨c, List.mem_append_left _ hc, hwrites⟩
    · cases hwrites
    · cases hasked
  | goOn n now =>
    obtain ⟨c, next, hn, hadvance, hbefore, hafter⟩ := Pool.goOn_eq_some hrun
    have hstands := htruth.stands c (List.mem_of_getElem? hn)
    cases c with
    | loaded pk triage =>
      by_cases hrow : (s.store.reports.row pk).isSome = true
      · simp only [Answering.advance, hrow, if_true, Option.some.injEq, Prod.mk.injEq] at hadvance
        obtain ⟨hstore, rfl⟩ := hadvance
        exact htruth.save hbefore hafter hstore.symm hstands.known (hapart pk triage hn)
      · simp only [Answering.advance, hrow, Bool.false_eq_true, if_false, Option.some.injEq,
          Prod.mk.injEq] at hadvance
        obtain ⟨hstore, rfl⟩ := hadvance
        exact htruth.goOn hbefore hafter hstore.symm (fun d hd => by cases hd)
          fun resolves hwrites => by cases hwrites
    | saved pk triage =>
      simp only [Answering.advance, Option.some.injEq, Prod.mk.injEq] at hadvance
      obtain ⟨hstore, rfl⟩ := hadvance
      refine htruth.goOn hbefore hafter hstore.symm (fun d hd => ?_) fun resolves _ hlast => ?_
      · obtain rfl := Option.some.inj hd
        refine ⟨hstands.known, fun q resolves r hwrites hr => ?_, fun hasked => ?_⟩
        · cases hlatest : s.store.isLatest pk with
          | true =>
            rw [hlatest] at hwrites
            exact hstands.asSaved q resolves r hwrites hr
          | false =>
            rw [hlatest] at hwrites
            cases hwrites
        · cases hlatest : s.store.isLatest pk with
          | true => exact (hs.isLatest hretention).mp hlatest
          | false =>
            rw [hlatest] at hasked
            cases hasked
      · refine ⟨_, rfl, rfl, ?_⟩
        have hlatest : s.store.isLatest pk = true := (hs.isLatest hretention).mpr hlast
        rw [hlatest]
        rfl
    | asked pk triage isLatest =>
      cases isLatest with
      | true =>
        simp only [Answering.advance, Option.some.injEq, Prod.mk.injEq] at hadvance
        obtain ⟨hstore, rfl⟩ := hadvance
        exact htruth.write hs hretention hbefore hafter hstore.symm
      | false =>
        simp only [Answering.advance, Option.some.injEq, Prod.mk.injEq] at hadvance
        obtain ⟨hstore, rfl⟩ := hadvance
        exact htruth.goOn hbefore hafter hstore.symm (fun d hd => by cases hd)
          fun resolves hwrites => by cases hwrites

end Reports

open Runs Reports

/-- However reports and answers interleave, as long as the clock is not set back, the reports that are to be
kept are kept, and no more than one besides. And when no report arrives between an answer's question and its
write, and no two answers to one report contradict each other at the same time, the flag says of the latest
report whether it is resolved, once no answer is under way. -/
theorem latest_report_resolved_is_right (retention : Nat) (s : Reporting) (hs : s.Unheard) :
    (∀ es t, Run (Reports.Step retention) ⟨s, []⟩ es t → t.store.Kept retention)
      ∧ (1 ≤ retention → ∀ es t, Run (ApartStep retention) ⟨s, []⟩ es t → t.calls = [] →
        (t.store.latestReportResolved = true ↔ t.store.LatestResolved)) := by
  refine ⟨fun es t hrun => ?_, fun hretention es t hrun hcalls => ?_⟩
  · have hsound : t.store.Sound retention := hrun.invariant (P := fun u => u.store.Sound retention)
      (fun hu h => h.sound hu) hs.sound
    exact hsound.toKept
  · have hboth : t.store.Sound retention ∧ Truthful t :=
      hrun.invariant (P := fun u => u.store.Sound retention ∧ Truthful u)
        (fun hu h => ⟨h.2.sound hu.1, h.truthful hretention hu.1 hu.2⟩) ⟨hs.sound, hs.truthful⟩
    refine hboth.2.flag.resolve_right fun hpending => ?_
    obtain ⟨c, hc, -⟩ := hpending
    rw [hcalls] at hc
    cases hc

def silentClient : Reporting where
  organization := some 0
  functional := true
  latestReportResolved := false
  reportRequestedAt := none
  reportRequestedBy := none
  lastHealthyReport := none
  usedAliases _ := none
  reports := .empty
  made := []

theorem silentClient_unheard : silentClient.Unheard := ⟨rfl, rfl, rfl, rfl⟩

def brokenAt (now : Time) : Reports.Event := .report now (fun _ _ => .ok none) ⟨[], false⟩

/-- A client reports that it is broken, and an operator resolves the report. -/
theorem latest_report_resolved_is_right_once : ∃ es t, Run (ApartStep 5) ⟨silentClient, []⟩ es t ∧ t.calls = []
    ∧ t.store.latestReportResolved = true ∧ t.store.LatestResolved ∧ t.store.Kept 5 := by
  obtain ⟨hkept, hflag⟩ := latest_report_resolved_is_right 5 silentClient silentClient_unheard
  have hrun : Run (ApartStep 5) ⟨silentClient, []⟩
    [brokenAt 1, .answer 0 (.resolve 7 none), .goOn 0 2, .goOn 0 2, .goOn 0 2] _ :=
    .cons ⟨fun c hc => (by cases hc), fun pk r hr => (by cases hr), rfl⟩
      (.cons ⟨trivial, trivial, rfl⟩
        (.cons ⟨fun pk triage _ c hc => (by cases hc), trivial, rfl⟩
          (.cons ⟨fun pk triage _ c hc => (by cases hc), trivial, rfl⟩
            (.cons ⟨fun pk triage _ c hc => (by cases hc), trivial, rfl⟩ (.nil _)))))
  exact ⟨_, _, hrun, rfl, rfl, (hflag (by decide) _ _ hrun rfl).mp rfl, hkept _ _ (hrun.mono fun h => h.2)⟩

/-- A report arrives after the operator's answer to the one before was told that this is the latest. -/
theorem new_report_taken_for_resolved : ∃ es t, Run (Reports.Step 5) ⟨silentClient, []⟩ es t ∧ t.calls = []
    ∧ t.store.latestReportResolved = true ∧ ¬ t.store.LatestResolved := by
  have hclock : ∀ (reports : Table Report) (now : Time), (∀ r ∈ reports.rows, r.2.createdAt ≤ now) →
      ∀ pk r, reports.row pk = some r → r.createdAt ≤ now :=
        fun reports now h pk r hr => h (pk, r) (Table.mem_rows.mpr hr)
  have hrun : Run (Reports.Step 5) ⟨silentClient, []⟩
      [brokenAt 1, .answer 0 (.resolve 7 none), .goOn 0 2, .goOn 0 2, brokenAt 3, .goOn 0 4] _ :=
    .cons ⟨fun pk r hr => (by cases hr), rfl⟩
      (.cons ⟨trivial, rfl⟩ (.cons ⟨trivial, rfl⟩ (.cons ⟨trivial, rfl⟩
        (.cons ⟨hclock _ _ (by decide), rfl⟩ (.cons ⟨trivial, rfl⟩ (.nil _))))))
  refine ⟨_, _, hrun, rfl, rfl, fun hlatest => ?_⟩
  obtain ⟨pk, r, hlast, hr, hresolved⟩ := hlatest
  obtain rfl : pk = 1 := Nat.succ.inj hlast
  obtain rfl := Option.some.inj hr
  cases hresolved

end Lok
