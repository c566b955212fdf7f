import Lok.Registry

/-!
# Entries written by name

An upsert writes what is said of the entry of a name: the entry that is found is told, and
where there is none one is made. After several, an entry says what was said of it last; no
other is touched, and of each new name there is one.
-/

namespace Registry

open Table

variable {α σ γ : Type}

/-- The entry of this name, as a query finds it. -/
def View.find (V : View α) (home : Nat) (name : String) (t : Table α) : Option (Nat × α) :=
  t.first fun _ a => V.home a == home && V.name a == name

/-- How what is said is written to an entry that is there, or to a new one. -/
structure Writer (V : View α) (σ γ : Type) where
  key : σ → String
  word : σ → γ
  reads : α → γ
  tell : σ → α → α
  make : Nat → σ → α
  same : ∀ s a, V.Same a (tell s a)
  home : ∀ h s, V.home (make h s) = h
  name : ∀ h s, V.name (make h s) = key s
  tell_reads : ∀ s a, reads (tell s a) = word s
  make_reads : ∀ h s, reads (make h s) = word s

namespace Writer

variable {V : View α} (W : Writer V σ γ) {home pk : Nat} {n : String} {a b : α} {t : Table α} {s : σ} {l : List σ}

def upsert (home : Nat) (t : Table α) (s : σ) : Table α :=
  match V.find home (W.key s) t with
  | some (pk, _) => t.modify pk (W.tell s)
  | none => t.insert (W.make home s)

def last (n : String) (l : List σ) : Option σ := l.reverse.find? (W.key · == n)

theorem last_cons : W.last n (s :: l) = (W.last n l).or (if W.key s = n then some s else none) := by
  simp [last, List.find?_append, List.find?_singleton]

theorem last_some (h : W.last n l = some s) : s ∈ l ∧ W.key s = n :=
  ⟨List.mem_reverse.mp (List.mem_of_find?_eq_some h), by simpa using List.find?_some h⟩

theorem find_some (h : V.find home n t = some (pk, a)) : t.row pk = some a ∧ V.home a = home ∧ V.name a = n := by
  obtain ⟨ha, hp⟩ := first_eq_some h
  simp only [Bool.and_eq_true, beq_iff_eq] at hp
  exact ⟨ha, hp⟩

theorem find_isSome (ha : t.row pk = some a) (hhome : V.home a = home) :
    ∃ k b, V.find home (V.name a) t = some (k, b) :=
  first_isSome ha (by simp [hhome])

/-! ## One upsert -/

theorem upsert_row (h : V.find home (W.key s) t = some (pk, a)) :
    (W.upsert home t s).row pk = some (W.tell s a) := by
  rw [upsert, h]
  simp [(find_some h).1]

theorem upsert_row_of_not_found (ha : t.row pk = some a) (h : V.find home (W.key s) t ≠ some (pk, a)) :
    (W.upsert home t s).row pk = some a := by
  unfold upsert
  split
  · rename_i k b hfind
    have hk : pk ≠ k := by
      rintro rfl
      obtain rfl := Option.some.inj (ha.symm.trans (find_some hfind).1)
      exact h hfind
    rw [modify_row_of_ne hk, ha]
  · exact insert_row_of_some ha

theorem upsert_back (hb : (W.upsert home t s).row pk = some b) :
    (∃ a, t.row pk = some a ∧ V.Same a b) ∨
      t.row pk = none ∧ V.find home (W.key s) t = none ∧ pk = t.next ∧ b = W.make home s := by
  unfold upsert at hb
  split at hb
  · rcases modify_row_eq_some.mp hb with ⟨-, hb⟩ | ⟨-, a, ha, rfl⟩
    · exact .inl ⟨b, hb, .refl b⟩
    · exact .inl ⟨a, ha, W.same s a⟩
  · rename_i hnone
    rcases insert_row_eq_some.mp hb with ⟨rfl, rfl⟩ | hb
    · exact .inr ⟨t.fresh _ (Nat.le_refl _), hnone, rfl, rfl⟩
    · exact .inl ⟨b, hb, .refl b⟩

theorem upsert_next : t.next ≤ (W.upsert home t s).next := by
  unfold upsert
  split
  · exact Nat.le_refl _
  · exact Nat.le_succ _

theorem upsert_find (h : V.find home n t = some (pk, a)) :
    V.find home n (W.upsert home t s) = some (pk, if W.key s = n then W.tell s a else a) := by
  obtain ⟨ha, hhome, hname⟩ := find_some h
  have hrow : (W.upsert home t s).row pk = some (if W.key s = n then W.tell s a else a) := by
    split
    · rename_i hkey
      exact W.upsert_row (hkey ▸ h)
    · rename_i hkey
      exact W.upsert_row_of_not_found ha fun hs => hkey ((find_some hs).2.2.symm.trans hname)
  have hsame : V.Same a (if W.key s = n then W.tell s a else a) := by
    split
    · exact W.same s a
    · exact .refl a
  refine first_of_least hrow (by simp [hsame.1, hsame.2.1, hhome, hname]) fun k b hb hp => ?_
  simp only [Bool.and_eq_true, beq_iff_eq] at hp
  rcases W.upsert_back hb with ⟨a', ha', hsame'⟩ | ⟨-, -, rfl, -⟩
  · exact first_le h ha' (by simp [← hsame'.1, ← hsame'.2.1, hp.1, hp.2])
  · exact Nat.le_of_lt (lt_next ha)

theorem upsert_find_none (h : V.find home n t = none) :
    V.find home n (W.upsert home t s) = if W.key s = n then some (t.next, W.make home s) else none := by
  have hback : ∀ k b, (W.upsert home t s).row k = some b → V.home b = home → V.name b = n →
      k = t.next ∧ b = W.make home s := by
    intro k b hb hhome hname
    rcases W.upsert_back hb with ⟨a, ha, hsame⟩ | ⟨-, -, hk, hb⟩
    · have hno := first_eq_none.mp h k a ha
      simp [← hsame.1, ← hsame.2.1, hhome, hname] at hno
    · exact ⟨hk, hb⟩
  split
  · rename_i hkey
    subst hkey
    have hrow : (W.upsert home t s).row t.next = some (W.make home s) := by
      rw [upsert, h]
      exact insert_row_next _ _
    refine first_of_least hrow (by simp [W.home, W.name]) fun k b hb hp => ?_
    simp only [Bool.and_eq_true, beq_iff_eq] at hp
    exact Nat.le_of_eq (hback k b hb hp.1 hp.2).1.symm
  · rename_i hkey
    refine first_eq_none.mpr fun k b hb => ?_
    by_contra hp
    simp only [Bool.not_eq_false, Bool.and_eq_true, beq_iff_eq] at hp
    obtain ⟨-, rfl⟩ := hback k b hb hp.1 hp.2
    exact hkey ((W.name home s).symm.trans hp.2)

/-! ## Several -/

theorem upserts_find (h : V.find home n t = some (pk, a)) :
    ∃ b, V.find home n (l.foldl (W.upsert home) t) = some (pk, b) ∧ V.Same a b ∧ W.reads b = (W.last n l).elim
    (W.reads a) W.word := by
  induction l generalizing t a with
  | nil => exact ⟨a, h, .refl a, rfl⟩
  | cons s l ih =>
    obtain ⟨b, hb, hsame, hreads⟩ := ih (W.upsert_find (s := s) h)
    refine ⟨b, hb, ?_, ?_⟩
    · refine View.Same.trans ?_ hsame
      split
      · exact W.same s a
      · exact .refl a
    · rw [hreads, last_cons]
      cases W.last n l with
      | some _ => rfl
      | none => by_cases hkey : W.key s = n <;> simp [hkey, W.tell_reads]

/-- An entry of another home, or one no query finds, is not touched. -/
theorem upserts_row_of_not_found (ha : t.row pk = some a) (h : V.find home (V.name a) t ≠ some (pk, a)) :
    (l.foldl (W.upsert home) t).row pk = some a := by
  induction l generalizing t with
  | nil => exact ha
  | cons s l ih =>
    have hrow : (W.upsert home t s).row pk = some a :=
      W.upsert_row_of_not_found ha fun hs => h ((find_some hs).2.2 ▸ hs)
    refine ih hrow fun hfound => ?_
    obtain ⟨k, b, hb⟩ := find_isSome ha (find_some hfound).2.1
    have hstays := W.upsert_find (s := s) hb
    rw [hfound] at hstays
    obtain rfl : pk = k := congrArg Prod.fst (Option.some.inj hstays)
    obtain rfl := Option.some.inj (ha.symm.trans (find_some hb).1)
    exact h hb

/-- A new name has an entry that says what was said of it last. -/
theorem upserts_find_none (h : V.find home n t = none) :
    (W.last n l = none → V.find home n (l.foldl (W.upsert home) t) = none) ∧
      ∀ s, W.last n l = some s →
        ∃ k b, V.find home n (l.foldl (W.upsert home) t) = some (k, b) ∧ t.next ≤ k ∧ W.reads b = W.word s := by
  induction l generalizing t with
  | nil => exact ⟨fun _ => h, fun s hs => by simp [last] at hs⟩
  | cons s l ih =>
    have hfirst := W.upsert_find_none (s := s) h
    rw [last_cons]
    by_cases hkey : W.key s = n
    · rw [if_pos hkey] at hfirst ⊢
      obtain ⟨b, hb, -, hreads⟩ := W.upserts_find (l := l) hfirst
      refine ⟨fun hnone => by cases hlast : W.last n l <;> simp [hlast] at hnone, fun s' hs' => ?_⟩
      refine ⟨_, b, hb, Nat.le_refl _, ?_⟩
      cases hlast : W.last n l with
      | some s'' =>
        rw [hlast] at hs' hreads
        cases hs'
        exact hreads
      | none =>
        rw [hlast] at hs' hreads
        cases hs'
        exact hreads.trans (W.make_reads home s)
    · rw [if_neg hkey] at hfirst ⊢
      rw [Option.or_none]
      obtain ⟨hnone, hsome⟩ := ih hfirst
      refine ⟨hnone, fun s' hs' => ?_⟩
      obtain ⟨k, b, hb, hle, hreads⟩ := hsome s' hs'
      exact ⟨k, b, hb, Nat.le_trans W.upsert_next hle, hreads⟩

theorem upserts_row_new (ht : t.row pk = none) (hb : (l.foldl (W.upsert home) t).row pk = some b) :
    V.find home (V.name b) t = none ∧ V.find home (V.name b) (l.foldl (W.upsert home) t) = some (pk, b) := by
  induction l generalizing t with
  | nil =>
    rw [List.foldl_nil, ht] at hb
    cases hb
  | cons s l ih =>
    cases hrow : (W.upsert home t s).row pk with
    | none =>
      obtain ⟨hnone, hfound⟩ := ih hrow hb
      refine ⟨?_, hfound⟩
      cases hfind : V.find home (V.name b) t with
      | none => rfl
      | some r =>
        have hstays := W.upsert_find (s := s) hfind
        rw [hnone] at hstays
        cases hstays
    | some a =>
      rcases W.upsert_back hrow with ⟨a', ha', -⟩ | ⟨-, hnone, rfl, rfl⟩
      · rw [ht] at ha'
        cases ha'
      · have hfirst := W.upsert_find_none (s := s) hnone
        rw [if_pos rfl] at hfirst
        obtain ⟨b', hb', hsame, -⟩ := W.upserts_find (l := l) hfirst
        have hrow' := (find_some hb').1
        rw [List.foldl_cons, hrow'] at hb
        cases hb
        have hname : V.name b = W.key s := hsame.2.1.trans (W.name home s)
        rw [hname]
        exact ⟨hnone, hb'⟩

theorem upserts_row {β : Type} {f : α → β} (hf : ∀ s a, f (W.tell s a) = f a) (ha : t.row pk = some a) :
    ∃ b, (l.foldl (W.upsert home) t).row pk = some b ∧ f b = f a := by
  induction l generalizing t a with
  | nil => exact ⟨a, ha, rfl⟩
  | cons s l ih =>
    by_cases hfind : V.find home (W.key s) t = some (pk, a)
    · obtain ⟨b, hb, hsame⟩ := ih (W.upsert_row hfind)
      exact ⟨b, hb, hsame.trans (hf s a)⟩
    · exact ih (W.upsert_row_of_not_found ha hfind)

/-! ## Saying anew -/

/-- The entry goes: somebody made it, only this user uses it, who says nothing of it any more, and it is
free to go. -/
structure Goes (V : View α) (free : Nat → α → Prop) (user home : Nat) (ks : List String) (pk : Nat) (a : α) :
    Prop where
  maker : (V.maker a).isSome = true
  home : V.home a = home
  name : V.name a ∉ ks
  users : user ∈ V.users a ∧ ∀ i ∈ V.users a, i = user
  free : free pk a

/-- What an entry says once the user has said `l`. -/
def said (home : Nat) (l : List σ) (a : α) : γ :=
  if V.home a = home then (W.last (V.name a) l).elim (W.reads a) W.word else W.reads a

/-- A user who says `l` at a home and nothing else there leaves the entries so. -/
structure Leaves (free : Nat → α → Prop) (user home : Nat) (l : List σ) (t u : Table α) : Prop where
  gone : ∀ pk a, t.row pk = some a → (u.row pk = none ↔ Goes V free user home (l.map W.key) pk a)
  kept : ∀ pk a b, t.row pk = some a → u.row pk = some b → V.Same a b ∧ W.reads b = W.said home l a
    ∧ ∀ i, i ∈ V.users b ↔ if i = user ∧ V.home a = home then V.name a ∈ l.map W.key else i ∈ V.users a
  new : ∀ pk b, t.row pk = none → u.row pk = some b → V.home b = home ∧ V.maker b = some user
    ∧ (∀ k a, t.row k = some a → V.home a = home → V.name a ≠ V.name b)
    ∧ (∃ s, W.last (V.name b) l = some s ∧ W.reads b = W.word s) ∧ ∀ i, i ∈ V.users b ↔ i = user
  there : ∀ n ∈ l.map W.key, ∃ pk b, u.row pk = some b ∧ V.home b = home ∧ V.name b = n ∧ user ∈ V.users b

theorem find_of_unique (h : Unique V t) (ha : t.row pk = some a) (hhome : V.home a = home) :
    V.find home (V.name a) t = some (pk, a) := by
  obtain ⟨k, b, hb⟩ := find_isSome ha hhome
  obtain ⟨hrow, hhome', hname⟩ := find_some hb
  obtain rfl := h pk k a b ha hrow (hhome.trans hhome'.symm) hname.symm
  rw [ha] at hrow
  cases hrow
  exact hb

theorem undeclared_row {β : Type} {f : α → β} {setUsers : α → List Nat → α} {free : Nat → α → Prop} {user : Nat}
    {pks : List Nat} {u : Table α} (k : Undeclared V setUsers free user pks t u)
    (hset : ∀ a l, f (setUsers a l) = f a)
    (ha : t.row pk = some a) (hb : u.row pk = some b) : f b = f a := by
  by_cases hpk : pk ∈ pks
  · rcases k.listed pk hpk a ha with ⟨b', hb', ⟨l, rfl⟩, -⟩ | ⟨hnone, -⟩
    · rw [hb] at hb'
      cases hb'
      exact hset a l
    · rw [hb] at hnone
      cases hnone
  · rw [k.others pk hpk, ha] at hb
    cases hb
    rfl

/-- What the row of an entry says once all has been said. -/
theorem upserts_said (hunique : Unique V t) (ha : t.row pk = some a) :
    ∃ c, (l.foldl (W.upsert home) t).row pk = some c ∧ W.reads c = W.said home l a := by
  unfold said
  split
  · rename_i hhome
    obtain ⟨c, hc, -, hword⟩ := W.upserts_find (l := l) (find_of_unique hunique ha hhome)
    exact ⟨c, (find_some hc).1, hword⟩
  · rename_i hhome
    exact ⟨a, W.upserts_row_of_not_found ha fun hfind => hhome (find_some hfind).2.1, rfl⟩

section

variable {setUsers : α → List Nat → α} {free free' : Nat → α → Prop} {user : Nat} {pks : List Nat} {u : Table α}
  (hunique : Unique V t) (h : Registered V setUsers free user home (l.map W.key) t u)
include hunique h

/-- Of what is said of, the user is a user. -/
theorem user_of_said (hb : u.row pk = some b) (hhome : V.home b = home) (hname : V.name b ∈ l.map W.key) :
    user ∈ V.users b := by
  obtain ⟨k, b', hb', hhome', hname', huser⟩ := h.named _ hname
  obtain rfl := h.unique hunique pk k b b' hb hb' (hhome.trans hhome'.symm) hname'.symm
  rw [hb] at hb'
  cases hb'
  exact huser

/-- What is said of is not signed off from. -/
theorem row_of_said (k : Undeclared V setUsers free' user pks (l.foldl (W.upsert home) t) u)
    (hb : u.row pk = some b) (hhome : V.home b = home) (hname : V.name b ∈ l.map W.key) :
    (l.foldl (W.upsert home) t).row pk = some b := by
  have hpk : pk ∉ pks := fun hpk => by
    cases hc : (l.foldl (W.upsert home) t).row pk with
    | none =>
      rw [k.old pk hc] at hb
      cases hb
    | some c =>
      rcases k.listed pk hpk c hc with ⟨b', hb', -, husers, -⟩ | ⟨hnone, -⟩
      · rw [hb] at hb'
        cases hb'
        exact ((husers user).mp (W.user_of_said hunique h hb hhome hname)).2 rfl
      · rw [hb] at hnone
        cases hnone
  rw [← k.others pk hpk]
  exact hb

/-- An upsert of all that is said, and a sign-off from the rest. -/
theorem leaves (k : Undeclared V setUsers free' user pks (l.foldl (W.upsert home) t) u)
    (hreads : ∀ a l, W.reads (setUsers a l) = W.reads a) : W.Leaves free user home l t u where
  gone pk a ha := by
    rcases h.kept pk a ha with ⟨b, hb, -, husers, hsaid, -, -, hempty⟩ | ⟨hnone, hmaker, hhome, hname, hall, hfree⟩
    · refine iff_of_false (by simp [hb]) fun hgoes => ?_
      have hnobody : V.users b = [] := List.eq_nil_iff_forall_not_mem.mpr fun i hi => by
        by_cases hi' : i = user
        · subst hi'
          exact hgoes.name (hsaid hi hgoes.home)
        · exact hi' (hgoes.users.2 i ((husers i hi').mp hi))
      rcases hempty hnobody with hempty | hmaker | hfree
      · have huser := hgoes.users.1
        rw [hempty] at huser
        cases huser
      · have hsome := hgoes.maker
        rw [hmaker] at hsome
        cases hsome
      · exact hfree hgoes.free
    · exact iff_of_true hnone ⟨hmaker, hhome, hname, hall, hfree⟩
  kept pk a b ha hb := by
    rcases h.kept pk a ha with ⟨b', hb', hsame, husers, hsaid, -, hothers, -⟩ | ⟨hnone, -⟩
    · rw [hb] at hb'
      cases hb'
      obtain ⟨c, hc, hreads'⟩ := W.upserts_said hunique ha
      refine ⟨hsame, (undeclared_row k hreads hc hb).trans hreads', fun i => ?_⟩
      by_cases hi : i = user ∧ V.home a = home
      · obtain ⟨rfl, hhome⟩ := hi
        rw [if_pos ⟨rfl, hhome⟩]
        refine ⟨fun hi => hsaid hi hhome, fun hname => ?_⟩
        rw [← hsame.2.1] at hname
        exact W.user_of_said hunique h hb (hsame.1.trans hhome) hname
      · rw [if_neg hi]
        by_cases hi' : i = user
        · rw [hothers.resolve_left fun hhome => hi ⟨hi', hhome⟩]
        · exact husers i hi'
    · rw [hb] at hnone
      cases hnone
  new pk b ha hb := by
    obtain ⟨⟨hhome, hname⟩, hmaker, husers⟩ := h.new pk b hb ha
    obtain ⟨hnone, hfound⟩ := W.upserts_row_new ha (W.row_of_said hunique h k hb hhome hname)
    refine ⟨hhome, hmaker, fun k a ha hhome' hname' => ?_, ?_, fun i => ⟨husers i, ?_⟩⟩
    · have := first_eq_none.mp hnone k a ha
      simp [hhome', hname'] at this
    · obtain ⟨hno, hsome⟩ := W.upserts_find_none (l := l) hnone
      cases hlast : W.last (V.name b) l with
      | none =>
        rw [hno hlast] at hfound
        cases hfound
      | some s =>
        obtain ⟨pk', b', hb', -, hreads'⟩ := hsome s hlast
        rw [hfound] at hb'
        cases hb'
        exact ⟨s, rfl, hreads'⟩
    · rintro rfl
      exact W.user_of_said hunique h hb hhome hname
  there := h.named

end

end Writer

end Registry
