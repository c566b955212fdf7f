import Mathlib.Data.Option.Basic
import Mathlib.Data.List.Basic

/-!
# Tables

A table maps primary keys to rows. Keys are handed out in order and never twice, so a
deleted row's key stays unused; that is a field of the structure, and every operation
carries it. Queries list the rows in key order.
-/

/-- Rows by primary key; `next` is the key the next insert gets. -/
structure Table (α : Type) where
  next : Nat
  row : Nat → Option α
  fresh : ∀ pk, next ≤ pk → row pk = none

namespace Table

variable {α β : Type}

@[ext] theorem ext {t u : Table α} (hn : t.next = u.next) (hr : ∀ pk, t.row pk = u.row pk) : t = u := by
  cases t; cases u
  obtain rfl : _ = _ := hn
  obtain rfl : _ = _ := funext hr
  rfl

theorem lt_next {t : Table α} {pk : Nat} {a : α} (h : t.row pk = some a) : pk < t.next := by
  rcases Nat.lt_or_ge pk t.next with hlt | hge
  · exact hlt
  · rw [t.fresh pk hge] at h; cases h

/-! ## Operations -/

def empty : Table α := ⟨0, fun _ => none, fun _ _ => rfl⟩

instance : Inhabited (Table α) := ⟨empty⟩

def insert (t : Table α) (a : α) : Table α where
  next := t.next + 1
  row pk := if pk = t.next then some a else t.row pk
  fresh pk h := by rw [if_neg (by omega), t.fresh pk (by omega)]

/-- Rewrite every row, knowing its key. -/
def update (t : Table α) (f : Nat → α → α) : Table α where
  next := t.next
  row pk := (t.row pk).map (f pk)
  fresh pk h := by rw [t.fresh pk h]; rfl

/-- Rewrite the row of one key, if there is one. -/
def modify (t : Table α) (pk : Nat) (f : α → α) : Table α :=
  t.update fun k a => if k = pk then f a else a

/-- Rewrite the rows that satisfy `p`. -/
def updateWhere (t : Table α) (p : Nat → α → Bool) (f : α → α) : Table α :=
  t.update fun k a => if p k a then f a else a

/-- Delete the rows that do not satisfy `p`. -/
def keep (t : Table α) (p : Nat → α → Bool) : Table α where
  next := t.next
  row pk := (t.row pk).filter (p pk)
  fresh pk h := by rw [t.fresh pk h]; rfl

/-- Write a row under a key that was handed out before, whether or not it still has one. -/
def put (t : Table α) (pk : Nat) (a : α) : Table α where
  next := max t.next (pk + 1)
  row k := if k = pk then some a else t.row k
  fresh k h := by rw [if_neg (by omega), t.fresh k (by omega)]

/-! ## Queries -/

def rows (t : Table α) : List (Nat × α) :=
  (List.range t.next).filterMap fun pk => (t.row pk).map (pk, ·)

/-- The rows that satisfy `p`, in key order. -/
def filter (t : Table α) (p : Nat → α → Bool) : List (Nat × α) :=
  t.rows.filter fun r => p r.1 r.2

def first (t : Table α) (p : Nat → α → Bool) : Option (Nat × α) :=
  t.rows.find? fun r => p r.1 r.2

def exists? (t : Table α) (p : Nat → α → Bool) : Bool :=
  t.rows.any fun r => p r.1 r.2

def count (t : Table α) (p : Nat → α → Bool) : Nat :=
  (t.filter p).length

def pks (t : Table α) (p : Nat → α → Bool) : List Nat :=
  (t.filter p).map Prod.fst

/-! ## What the operations leave -/

@[simp] theorem empty_row (pk : Nat) : (empty : Table α).row pk = none := rfl

@[simp] theorem insert_next (t : Table α) (a : α) : (t.insert a).next = t.next + 1 := rfl

theorem insert_row (t : Table α) (a : α) (pk : Nat) :
    (t.insert a).row pk = if pk = t.next then some a else t.row pk := rfl

@[simp] theorem insert_row_next (t : Table α) (a : α) : (t.insert a).row t.next = some a := if_pos rfl

theorem insert_row_of_some {t : Table α} {a b : α} {pk : Nat} (h : t.row pk = some b) :
    (t.insert a).row pk = some b := by
  rw [insert_row, if_neg (Nat.ne_of_lt (lt_next h)), h]

theorem insert_row_of_ne {t : Table α} {a : α} {pk : Nat} (h : pk ≠ t.next) : (t.insert a).row pk = t.row pk :=
  if_neg h

theorem insert_row_eq_some {t : Table α} {a b : α} {pk : Nat} :
    (t.insert a).row pk = some b ↔ pk = t.next ∧ a = b ∨ t.row pk = some b := by
  by_cases hpk : pk = t.next
  · subst hpk; simp [t.fresh _ (Nat.le_refl _)]
  · simp [insert_row, hpk]

@[simp] theorem update_next (t : Table α) (f : Nat → α → α) : (t.update f).next = t.next := rfl

theorem update_row (t : Table α) (f : Nat → α → α) (pk : Nat) : (t.update f).row pk = (t.row pk).map (f pk) := rfl

theorem update_row_eq_some {t : Table α} {f : Nat → α → α} {pk : Nat} {b : α} :
    (t.update f).row pk = some b ↔ ∃ a, t.row pk = some a ∧ f pk a = b := by
  simp [update_row]

@[simp] theorem modify_next (t : Table α) (pk : Nat) (f : α → α) : (t.modify pk f).next = t.next := rfl

theorem modify_row (t : Table α) (pk k : Nat) (f : α → α) :
    (t.modify pk f).row k = if k = pk then (t.row k).map f else t.row k := by
  by_cases h : k = pk <;> simp [modify, update_row, h]

@[simp] theorem modify_row_self (t : Table α) (pk : Nat) (f : α → α) :
    (t.modify pk f).row pk = (t.row pk).map f := by
  rw [modify_row, if_pos rfl]

theorem modify_row_of_ne {t : Table α} {pk k : Nat} {f : α → α} (h : k ≠ pk) :
    (t.modify pk f).row k = t.row k := by
  rw [modify_row, if_neg h]

theorem modify_row_eq_some {t : Table α} {pk k : Nat} {f : α → α} {b : α} :
    (t.modify pk f).row k = some b ↔
      k ≠ pk ∧ t.row k = some b ∨ k = pk ∧ ∃ a, t.row k = some a ∧ f a = b := by
  by_cases h : k = pk <;> simp [modify_row, h]

@[simp] theorem updateWhere_next (t : Table α) (p : Nat → α → Bool) (f : α → α) :
    (t.updateWhere p f).next = t.next := rfl

theorem updateWhere_row (t : Table α) (p : Nat → α → Bool) (f : α → α) (pk : Nat) :
    (t.updateWhere p f).row pk = (t.row pk).map fun a => if p pk a then f a else a := rfl

theorem updateWhere_row_eq_some {t : Table α} {p : Nat → α → Bool} {f : α → α} {pk : Nat} {b : α} :
    (t.updateWhere p f).row pk = some b ↔ ∃ a, t.row pk = some a ∧ (if p pk a then f a else a) = b := by
  simp [updateWhere_row]

@[simp] theorem keep_next (t : Table α) (p : Nat → α → Bool) : (t.keep p).next = t.next := rfl

theorem keep_row_eq_some {t : Table α} {p : Nat → α → Bool} {pk : Nat} {a : α} :
    (t.keep p).row pk = some a ↔ t.row pk = some a ∧ p pk a = true := by
  simp [keep, Option.filter_eq_some_iff]

theorem keep_ne_row (t : Table α) (k pk : Nat) :
    (t.keep fun j _ => j != k).row pk = if pk = k then none else t.row pk := by
  by_cases h : pk = k
  · subst h
    cases hrow : t.row pk <;> simp [keep, hrow]
  · cases hrow : t.row pk <;> simp [keep, hrow, h]

theorem put_row (t : Table α) (pk k : Nat) (a : α) :
    (t.put pk a).row k = if k = pk then some a else t.row k := rfl

/-- Deleting by key and rewriting do not disturb each other. -/
theorem keep_update_comm (t : Table α) (p : Nat → Bool) (f : Nat → α → α) :
    (t.update f).keep (fun pk _ => p pk) = (t.keep fun pk _ => p pk).update f := by
  refine ext rfl fun pk => ?_
  show ((t.row pk).map (f pk)).filter (fun _ => p pk) = ((t.row pk).filter fun _ => p pk).map (f pk)
  cases t.row pk with
  | none => rfl
  | some a => cases p pk <;> simp [Option.filter]

/-! ## What the queries find -/

theorem rows_update (t : Table α) (f : Nat → α → α) :
    (t.update f).rows = t.rows.map fun r => (r.1, f r.1 r.2) := by
  simp only [rows, update, List.map_filterMap, Option.map_map]
  rfl

@[simp] theorem mem_rows {t : Table α} {pk : Nat} {a : α} : (pk, a) ∈ t.rows ↔ t.row pk = some a := by
  simp only [rows, List.mem_filterMap, List.mem_range, Option.map_eq_some_iff, Prod.mk.injEq]
  constructor
  · rintro ⟨k, -, b, hb, rfl, rfl⟩
    exact hb
  · exact fun h => ⟨pk, lt_next h, a, h, rfl, rfl⟩

theorem forall_row_iff {t : Table α} {P : Nat → α → Prop} :
    (∀ pk a, t.row pk = some a → P pk a) ↔ ∀ r ∈ t.rows, P r.1 r.2 := by
  simp

theorem row_none_of_rows {t : Table α} (h : t.rows = []) (pk : Nat) : t.row pk = none := by
  cases hrow : t.row pk with
  | none => rfl
  | some a => simpa [h] using mem_rows.mpr hrow

theorem mem_filter {t : Table α} {p : Nat → α → Bool} {pk : Nat} {a : α} :
    (pk, a) ∈ t.filter p ↔ t.row pk = some a ∧ p pk a = true := by
  simp [filter]

theorem mem_pks {t : Table α} {p : Nat → α → Bool} {pk : Nat} :
    pk ∈ t.pks p ↔ ∃ a, t.row pk = some a ∧ p pk a = true := by
  simp only [pks, List.mem_map, Prod.exists, exists_and_right, exists_eq_right, mem_filter]

theorem pks_nodup (t : Table α) (p : Nat → α → Bool) : (t.pks p).Nodup := by
  have hkeys : t.rows.map Prod.fst = (List.range t.next).filter fun pk => (t.row pk).isSome := by
    unfold rows
    induction List.range t.next with
    | nil => rfl
    | cons pk pks ih =>
      cases hrow : t.row pk <;> simp [hrow, ih]
  unfold pks filter
  refine List.Nodup.sublist (List.filter_sublist.map Prod.fst) ?_
  rw [hkeys]
  exact List.nodup_range.filter _

theorem first_eq_some {t : Table α} {p : Nat → α → Bool} {pk : Nat} {a : α} (h : t.first p = some (pk, a)) :
    t.row pk = some a ∧ p pk a = true :=
  ⟨mem_rows.mp (List.mem_of_find?_eq_some h), by simpa using List.find?_some h⟩

theorem first_eq_none {t : Table α} {p : Nat → α → Bool} :
    t.first p = none ↔ ∀ pk a, t.row pk = some a → p pk a = false := by
  simp [first, List.find?_eq_none]

theorem first_isSome {t : Table α} {p : Nat → α → Bool} {pk : Nat} {a : α} (h : t.row pk = some a)
    (hp : p pk a = true) :
    ∃ k b, t.first p = some (k, b) := by
  cases hf : t.first p with
  | some r => exact ⟨r.1, r.2, rfl⟩
  | none => rw [first_eq_none.mp hf pk a h] at hp; cases hp

theorem rows_sorted (t : Table α) : t.rows.Pairwise fun x y => x.1 < y.1 := by
  refine List.pairwise_filterMap.mpr (List.pairwise_lt_range.imp fun {x y} hlt r hr s hs => ?_)
  obtain ⟨_, -, rfl⟩ := Option.map_eq_some_iff.mp hr
  obtain ⟨_, -, rfl⟩ := Option.map_eq_some_iff.mp hs
  exact hlt

theorem filter_congr {t u : Table α} {p q : Nat → α → Bool}
    (h : ∀ pk a, t.row pk = some a ∧ p pk a = true ↔ u.row pk = some a ∧ q pk a = true) :
    t.filter p = u.filter q := by
  have hsorted : ∀ (t : Table α) (p : Nat → α → Bool), (t.filter p).Pairwise fun x y => x.1 < y.1 := fun t p =>
    t.rows_sorted.filter _
  have hnodup : ∀ (t : Table α) (p : Nat → α → Bool), (t.filter p).Nodup := fun t p =>
    (hsorted t p).imp fun hlt heq => Nat.ne_of_lt hlt (congrArg Prod.fst heq)
  have hperm : (t.filter p).Perm (u.filter q) := by
    refine (List.perm_ext_iff_of_nodup (hnodup t p) (hnodup u q)).mpr fun r => ?_
    exact mem_filter.trans ((h r.1 r.2).trans mem_filter.symm)
  exact hperm.eq_of_pairwise (fun _ _ _ _ hlt hgt => absurd hlt (Nat.lt_asymm hgt)) (hsorted t p) (hsorted u q)

/-- What satisfies `q` here satisfied `p` there, so there are no more of it. -/
theorem count_le {t u : Table α} {p q : Nat → α → Bool}
    (h : ∀ pk b, u.row pk = some b → q pk b = true → ∃ a, t.row pk = some a ∧ p pk a = true) :
    u.count q ≤ t.count p := by
  have hle : (u.pks q).length ≤ (t.pks p).length := by
    refine (pks_nodup u q).length_le_of_subset fun pk hpk => ?_
    obtain ⟨b, hb, hq⟩ := mem_pks.mp hpk
    exact mem_pks.mpr (h pk b hb hq)
  simpa [pks, count] using hle

theorem first_le {t : Table α} {p : Nat → α → Bool} {pk : Nat} {a : α} (h : t.first p = some (pk, a)) {k : Nat}
    {b : α} (hb : t.row k = some b) (hp : p k b = true) : pk ≤ k := by
  have hsorted := t.rows_sorted
  obtain ⟨-, before, after, hrows, hbefore⟩ := List.find?_eq_some_iff_append.mp h
  have hmem : (k, b) ∈ before ++ (pk, a) :: after := hrows ▸ mem_rows.mpr hb
  rw [hrows] at hsorted
  rcases List.mem_append.mp hmem with hmem | hmem
  · have hfalse := hbefore _ hmem
    simp [hp] at hfalse
  · rcases List.mem_cons.mp hmem with heq | hmem
    · exact Nat.le_of_eq (congrArg Prod.fst heq).symm
    · exact Nat.le_of_lt (List.rel_of_pairwise_cons (List.pairwise_append.mp hsorted).2.1 hmem)

/-- The row of the least key that satisfies `p` is the one `first` finds. -/
theorem first_of_least {t : Table α} {p : Nat → α → Bool} {pk : Nat} {a : α} (h : t.row pk = some a)
    (hp : p pk a = true)
    (hleast : ∀ k b, t.row k = some b → p k b = true → pk ≤ k) : t.first p = some (pk, a) := by
  obtain ⟨k, b, hf⟩ := first_isSome h hp
  obtain ⟨hb, hpb⟩ := first_eq_some hf
  obtain rfl := Nat.le_antisymm (first_le hf h hp) (hleast k b hb hpb)
  rw [hb] at h
  cases h
  exact hf

theorem exists?_eq_true {t : Table α} {p : Nat → α → Bool} :
    t.exists? p = true ↔ ∃ pk a, t.row pk = some a ∧ p pk a = true := by
  simp [exists?]

theorem exists?_eq_false {t : Table α} {p : Nat → α → Bool} :
    t.exists? p = false ↔ ∀ pk a, t.row pk = some a → p pk a = false := by
  simp [exists?]

/-- The one row that satisfies `p` is the one `first` finds. -/
theorem first_of_unique {t : Table α} {p : Nat → α → Bool} {pk : Nat} {a : α} (h : t.row pk = some a)
    (hp : p pk a = true) (huniq : ∀ k b, t.row k = some b → p k b = true → k = pk) : t.first p = some (pk, a) := by
  obtain ⟨k, b, hf⟩ := first_isSome h hp
  obtain ⟨hb, hpb⟩ := first_eq_some hf
  obtain rfl := huniq k b hb hpb
  rw [hb] at h; cases h
  exact hf

/-! ## Rewriting rows

`Rewrites R t u`: `u` has the keys of `t`, and each row is related by `R` to the one it replaces. -/

def Rewrites (R : Nat → α → α → Prop) (t u : Table α) : Prop :=
  u.next = t.next ∧ ∀ pk, Option.Rel (R pk) (t.row pk) (u.row pk)

namespace Rewrites

variable {R : Nat → α → α → Prop} {t u v : Table α}

theorem update {f : Nat → α → α} (h : ∀ pk a, t.row pk = some a → R pk a (f pk a)) :
    Rewrites R t (t.update f) := by
  refine ⟨rfl, fun pk => ?_⟩
  rw [update_row]
  cases hrow : t.row pk with
  | none => exact .none
  | some a => exact .some (h pk a hrow)

theorem modify {pk : Nat} {f : α → α} (hrefl : ∀ k a, R k a a) (h : ∀ a, t.row pk = some a → R pk a (f a)) :
    Rewrites R t (t.modify pk f) := by
  refine .update fun k a ha => ?_
  split
  · rename_i hk
    subst hk
    exact h a ha
  · exact hrefl k a

theorem updateWhere {p : Nat → α → Bool} {f : α → α} (hrefl : ∀ k a, R k a a)
    (h : ∀ pk a, t.row pk = some a → p pk a = true → R pk a (f a)) : Rewrites R t (t.updateWhere p f) := by
  refine .update fun k a ha => ?_
  split
  · rename_i hp
    exact h k a ha hp
  · exact hrefl k a

theorem refl (h : ∀ k a, R k a a) (t : Table α) : Rewrites R t t := by
  refine ⟨rfl, fun pk => ?_⟩
  cases t.row pk with
  | none => exact .none
  | some a => exact .some (h pk a)

theorem mono_of_row {S : Nat → α → α → Prop} (h : Rewrites R t u)
    (hle : ∀ k a b, t.row k = some a → R k a b → S k a b) :
    Rewrites S t u := by
  refine ⟨h.1, fun pk => ?_⟩
  have hle := hle pk
  have h := h.2 pk
  generalize t.row pk = a, u.row pk = b at h hle
  cases h with
  | none => exact .none
  | some hR => exact .some (hle _ _ rfl hR)

theorem mono {S : Nat → α → α → Prop} (h : Rewrites R t u) (hle : ∀ k a b, R k a b → S k a b) : Rewrites S t u :=
  h.mono_of_row fun k a b _ => hle k a b

theorem both {S : Nat → α → α → Prop} (h : Rewrites R t u) (k : Rewrites S t u) :
    Rewrites (fun pk a b => R pk a b ∧ S pk a b) t u := by
  refine ⟨h.1, fun pk => ?_⟩
  have h := h.2 pk
  have k := k.2 pk
  generalize t.row pk = a, u.row pk = b at h k
  cases h with
  | none => exact .none
  | some hR =>
    cases k with
    | some hS => exact .some ⟨hR, hS⟩

theorem comp {S : Nat → α → α → Prop} (h : Rewrites R t u) (k : Rewrites S u v) :
    Rewrites (fun k a c => ∃ b, R k a b ∧ S k b c) t v := by
  refine ⟨k.1.trans h.1, fun pk => ?_⟩
  have h := h.2 pk
  have k := k.2 pk
  generalize t.row pk = a, u.row pk = b, v.row pk = c at h k
  cases h with
  | none => cases k; exact .none
  | some hab =>
    cases k with
    | some hbc => exact .some ⟨_, hab, hbc⟩

theorem before (h : Rewrites R t u) {pk : Nat} {b : α} (hb : u.row pk = some b) :
    ∃ a, t.row pk = some a ∧ R pk a b := by
  have := h.2 pk
  rw [hb] at this
  cases ht : t.row pk with
  | none => rw [ht] at this; cases this
  | some a =>
    rw [ht] at this
    cases this with
    | some hR => exact ⟨a, rfl, hR⟩

theorem after (h : Rewrites R t u) {pk : Nat} {a : α} (ha : t.row pk = some a) :
    ∃ b, u.row pk = some b ∧ R pk a b := by
  have := h.2 pk
  rw [ha] at this
  cases hu : u.row pk with
  | none => rw [hu] at this; cases this
  | some b =>
    rw [hu] at this
    cases this with
    | some hR => exact ⟨b, rfl, hR⟩

theorem row_none (h : Rewrites R t u) {pk : Nat} (hn : t.row pk = none) : u.row pk = none := by
  cases hu : u.row pk with
  | none => rfl
  | some b =>
    obtain ⟨a, ha, -⟩ := h.before hu
    rw [hn] at ha; cases ha

theorem put {pk : Nat} {a b : α} (hrefl : ∀ k a, R k a a) (ha : t.row pk = some a) (h : R pk a b) :
    Rewrites R t (t.put pk b) := by
  refine ⟨Nat.max_eq_left (lt_next ha), fun k => ?_⟩
  rw [put_row]
  split
  · rename_i hk
    subst hk
    rw [ha]
    exact .some h
  · cases t.row k with
    | none => exact .none
    | some x => exact .some (hrefl k x)

end Rewrites

inductive Edit (t : Table α) : Table α → Prop
  | insert (a : α) : Edit t (t.insert a)
  | rewrite {u : Table α} (h : Rewrites (fun _ _ _ => True) t u) : Edit t u

theorem Edit.modify {t : Table α} {pk : Nat} {f : α → α} : Edit t (t.modify pk f) :=
  .rewrite (.modify (fun _ _ => trivial) fun _ _ => trivial)

/-! ## Losing rows

`Shrinks R t u`: every row of `u` is under the same key in `t`, related by `R`. -/

def Shrinks (R : α → α → Prop) (t u : Table α) : Prop :=
  u.next = t.next ∧ ∀ pk b, u.row pk = some b → ∃ a, t.row pk = some a ∧ R a b

namespace Shrinks

variable {R : α → α → Prop} {t u v : Table α}

theorem refl (h : ∀ a, R a a) (t : Table α) : Shrinks R t t := ⟨rfl, fun _ b hb => ⟨b, hb, h b⟩⟩

theorem trans (hR : ∀ {a b c}, R a b → R b c → R a c) (h : Shrinks R t u) (k : Shrinks R u v) : Shrinks R t v := by
  refine ⟨k.1.trans h.1, fun pk c hc => ?_⟩
  obtain ⟨b, hb, hbc⟩ := k.2 pk c hc
  obtain ⟨a, ha, hab⟩ := h.2 pk b hb
  exact ⟨a, ha, hR hab hbc⟩

theorem same (t : Table α) : Shrinks (fun a b => b = a) t t := ⟨rfl, fun _ b hb => ⟨b, hb, rfl⟩⟩

theorem keep (t : Table α) (p : Nat → α → Bool) : Shrinks (fun a b => b = a) t (t.keep p) :=
  ⟨rfl, fun _ b hb => ⟨b, (keep_row_eq_some.mp hb).1, rfl⟩⟩

theorem keep_update (t : Table α) (p : Nat → α → Bool) {f : Nat → α → α} (h : ∀ pk a, R a (f pk a)) :
    Shrinks R t ((t.keep p).update f) := by
  refine ⟨rfl, fun pk b hb => ?_⟩
  obtain ⟨a, ha, rfl⟩ := update_row_eq_some.mp hb
  exact ⟨a, (keep_row_eq_some.mp ha).1, h pk a⟩

theorem update (t : Table α) {f : Nat → α → α} (h : ∀ pk a, R a (f pk a)) : Shrinks R t (t.update f) := by
  refine ⟨rfl, fun pk b hb => ?_⟩
  obtain ⟨a, ha, rfl⟩ := update_row_eq_some.mp hb
  exact ⟨a, ha, h pk a⟩

theorem row_none (h : Shrinks R t u) {pk : Nat} (hn : t.row pk = none) : u.row pk = none := by
  cases hu : u.row pk with
  | none => rfl
  | some b =>
    obtain ⟨a, ha, -⟩ := h.2 pk b hu
    rw [hn] at ha; cases ha

end Shrinks

/-! ## Drawn columns

`Drawn key t n`: the numbers a column holds were drawn one after the other, each below `n`,
and no two rows hold the same. -/

structure Drawn (key : α → Option Nat) (t : Table α) (n : Nat) : Prop where
  lt : ∀ pk a x, t.row pk = some a → key a = some x → x < n
  unique : ∀ pk k a b x, t.row pk = some a → t.row k = some b → key a = some x → key b = some x → pk = k

namespace Drawn

variable {key : α → Option Nat} {t u : Table α} {m n : Nat}

theorem empty : Drawn key (Table.empty : Table α) n := ⟨by simp [Table.empty], by simp [Table.empty]⟩

theorem mono (h : Drawn key t m) (hle : m ≤ n) : Drawn key t n :=
  ⟨fun pk a x ha hx => Nat.lt_of_lt_of_le (h.lt pk a x ha hx) hle, h.unique⟩

theorem insert (h : Drawn key t m) {a : α} (hle : m ≤ n) (hnew : ∀ x, key a = some x → m ≤ x ∧ x < n) :
    Drawn key (t.insert a) n where
  lt pk b x hb hx := by
    rcases insert_row_eq_some.mp hb with ⟨-, rfl⟩ | hb
    · exact (hnew x hx).2
    · exact Nat.lt_of_lt_of_le (h.lt pk b x hb hx) hle
  unique pk k b c x hb hc hbx hcx := by
    rcases insert_row_eq_some.mp hb with ⟨rfl, rfl⟩ | hb' <;> rcases insert_row_eq_some.mp hc with ⟨rfl, rfl⟩ | hc'
    · rfl
    · exact absurd (h.lt k c x hc' hcx) (Nat.not_lt.mpr (hnew x hbx).1)
    · exact absurd (h.lt pk b x hb' hbx) (Nat.not_lt.mpr (hnew x hcx).1)
    · exact h.unique pk k b c x hb' hc' hbx hcx

theorem of_before (h : Drawn key t n)
    (hbefore : ∀ pk b, u.row pk = some b → ∃ a, t.row pk = some a ∧ key b = key a) :
    Drawn key u n where
  lt pk b x hb hx := by
    obtain ⟨a, ha, hk⟩ := hbefore pk b hb
    exact h.lt pk a x ha (hk ▸ hx)
  unique pk k b c x hb hc hbx hcx := by
    obtain ⟨a, ha, hk⟩ := hbefore pk b hb
    obtain ⟨a', ha', hk'⟩ := hbefore k c hc
    exact h.unique pk k a a' x ha ha' (hk ▸ hbx) (hk' ▸ hcx)

theorem rewrite {R : Nat → α → α → Prop} (h : Drawn key t n) (ht : Rewrites R t u)
    (hR : ∀ k a b, R k a b → key b = key a) :
    Drawn key u n :=
  h.of_before fun pk _ hb => (ht.before hb).imp fun a ha => ⟨ha.1, hR pk a _ ha.2⟩

theorem shrink {R : α → α → Prop} (h : Drawn key t n) (ht : Shrinks R t u) (hR : ∀ a b, R a b → key b = key a) :
    Drawn key u n :=
  h.of_before fun pk _ hb => (ht.2 pk _ hb).imp fun a ha => ⟨ha.1, hR a _ ha.2⟩

theorem first {p : Nat → α → Bool} (h : Drawn key t n) {pk x : Nat} {a : α} (ha : t.row pk = some a)
    (hx : key a = some x)
    (hpa : p pk a = true) (hp : ∀ k b, p k b = true → key b = some x) : t.first p = some (pk, a) :=
  first_of_unique ha hpa fun k b hb hpb => h.unique k pk b a x hb ha (hp k b hpb) hx

end Drawn

end Table
