import Lok.Table

/-!
# Registries

Entries are found by their home and name, and several users declare them. A user's new
declaration makes the entries nobody had declared and signs the user up for the others;
for those it dropped it signs off, and an entry may go that way once no user is left.
-/

namespace Registry

/-- What a registry reads of an entry. -/
structure View (α : Type) where
  home : α → Nat
  name : α → String
  maker : α → Option Nat
  users : α → List Nat

variable {α : Type} (V : View α)

/-- The same entry, whoever uses it and whatever is said of it. -/
def View.Same (a b : α) : Prop := V.home b = V.home a ∧ V.name b = V.name a ∧ V.maker b = V.maker a

/-- Nothing of an entry changed but its users. -/
def SameBut (setUsers : α → List Nat → α) (a b : α) : Prop := ∃ l, b = setUsers a l

def Unique (t : Table α) : Prop :=
  ∀ pk k a b, t.row pk = some a → t.row k = some b → V.home a = V.home b → V.name a = V.name b → pk = k

/-- The entry is among those a user declares at its home. -/
def View.At (home : Nat) (keys : List String) (a : α) : Prop := V.home a = home ∧ V.name a ∈ keys

variable {V} {t u v : Table α} {user home : Nat} {ks ls : List String}

theorem unique_iff : Unique V t
    ↔ ∀ r ∈ t.rows, ∀ q ∈ t.rows, V.home r.2 = V.home q.2 → V.name r.2 = V.name q.2 → r.1 = q.1 := by
  constructor
  · exact fun h r hr q hq => h r.1 q.1 r.2 q.2 (Table.mem_rows.mp hr) (Table.mem_rows.mp hq)
  · exact fun h pk k a b ha hb => h (pk, a) (Table.mem_rows.mpr ha) (k, b) (Table.mem_rows.mpr hb)

theorem View.Same.refl (a : α) : V.Same a a := ⟨rfl, rfl, rfl⟩

theorem View.Same.trans {a b c : α} (h : V.Same a b) (k : V.Same b c) : V.Same a c :=
  ⟨k.1.trans h.1, k.2.1.trans h.2.1, k.2.2.trans h.2.2⟩

theorem View.Same.at {a b : α} (h : V.Same a b) : V.At home ks b ↔ V.At home ks a := by
  rw [View.At, View.At, h.1, h.2.1]

/-! ## Declaring -/

/-- `user` declares the entries `ks` of `home`: others stay as they are, what is new is the user's. -/
structure Declared (V : View α) (user home : Nat) (ks : List String) (t u : Table α) : Prop where
  kept : ∀ pk a, t.row pk = some a → ∃ b, u.row pk = some b ∧ V.Same a b ∧ (∀ i ∈ V.users a, i ∈ V.users b)
    ∧ (∀ i ∈ V.users b, i ∈ V.users a ∨ i = user ∧ V.At home ks a) ∧ (V.At home ks a ∨ b = a)
  new : ∀ pk b, u.row pk = some b → t.row pk = none →
    V.At home ks b ∧ V.maker b = some user ∧ ∀ i ∈ V.users b, i = user
  named : ∀ k ∈ ks, ∃ pk b, u.row pk = some b ∧ V.home b = home ∧ V.name b = k ∧ user ∈ V.users b
  unique : Unique V t → Unique V u

theorem Declared.nil (t : Table α) : Declared V user home [] t t where
  kept _ a ha := ⟨a, ha, .refl a, fun _ h => h, fun _ h => .inl h, .inr rfl⟩
  new _ _ hb ht := by rw [hb] at ht; cases ht
  named _ h := by cases h
  unique h := h

theorem Declared.trans (h : Declared V user home ks t u) (k : Declared V user home ls u v) :
    Declared V user home (ks ++ ls) t v where
  kept pk a ha := by
    obtain ⟨b, hb, hab, hsub, husers, hsame⟩ := h.kept pk a ha
    obtain ⟨c, hc, hbc, hsub', husers', hsame'⟩ := k.kept pk b hb
    have hat : V.At home ls b → V.At home (ks ++ ls) a := fun hls =>
      ⟨(hab.at.mp hls).1, List.mem_append_right _ (hab.at.mp hls).2⟩
    have hat' : V.At home ks a → V.At home (ks ++ ls) a := fun hks => ⟨hks.1, List.mem_append_left _ hks.2⟩
    refine ⟨c, hc, hab.trans hbc, fun i hi => hsub' i (hsub i hi), fun i hi => ?_, ?_⟩
    · rcases husers' i hi with hi | ⟨rfl, hls⟩
      · rcases husers i hi with hi | ⟨rfl, hks⟩
        · exact .inl hi
        · exact .inr ⟨rfl, hat' hks⟩
      · exact .inr ⟨rfl, hat hls⟩
    · rcases hsame with hks | rfl
      · exact .inl (hat' hks)
      · exact hsame'.imp hat id
  new pk c hc ht := by
    cases hu : u.row pk with
    | none =>
      obtain ⟨hat, hmaker, husers⟩ := k.new pk c hc hu
      exact ⟨⟨hat.1, List.mem_append_right _ hat.2⟩, hmaker, husers⟩
    | some b =>
      obtain ⟨hat, hmaker, husers⟩ := h.new pk b hu ht
      obtain ⟨c', hc', hbc, -, husers', -⟩ := k.kept pk b hu
      rw [hc] at hc'
      cases hc'
      refine ⟨⟨hbc.1.trans hat.1, List.mem_append_left _ (hbc.2.1 ▸ hat.2)⟩, hbc.2.2.trans hmaker, fun i hi => ?_⟩
      rcases husers' i hi with hi | ⟨rfl, -⟩
      · exact husers i hi
      · rfl
  named key hkey := by
    rcases List.mem_append.mp hkey with hkey | hkey
    · obtain ⟨pk, b, hb, hhome, hname, huser⟩ := h.named key hkey
      obtain ⟨c, hc, hbc, hsub, -, -⟩ := k.kept pk b hb
      exact ⟨pk, c, hc, hbc.1.trans hhome, hbc.2.1.trans hname, hsub _ huser⟩
    · exact k.named key hkey
  unique hu := k.unique (h.unique hu)

theorem Declared.modify {pk : Nat} {f : α → α} {a : α} {key : String} (ha : t.row pk = some a)
    (hhome : V.home a = home)
    (hname : V.name a = key) (hsame : V.Same a (f a))
    (husers : ∀ i, i ∈ V.users (f a) ↔ i ∈ V.users a ∨ i = user) :
    Declared V user home [key] t (t.modify pk f) where
  kept k b hb := by
    by_cases hk : k = pk
    · subst hk
      rw [ha] at hb
      cases hb
      have hat : V.At home [key] a := ⟨hhome, by simp [hname]⟩
      refine ⟨f a, by simp [ha], hsame, fun i hi => (husers i).mpr (.inl hi), fun i hi => ?_, .inl hat⟩
      exact ((husers i).mp hi).imp id fun h => ⟨h, hat⟩
    · exact ⟨b, by rw [Table.modify_row_of_ne hk, hb], .refl b, fun _ h => h, fun _ h => .inl h, .inr rfl⟩
  new k b hb ht := by
    rw [Table.modify_row, ht] at hb
    simp at hb
  named k hk := by
    obtain rfl : k = key := by simpa using hk
    exact ⟨pk, f a, by simp [ha], hsame.1.trans hhome, hsame.2.1.trans hname, (husers user).mpr (.inr rfl)⟩
  unique hu j k b c hb hc hh hn := by
    have hback : ∀ j b, (t.modify pk f).row j = some b → ∃ b₀, t.row j = some b₀ ∧ V.Same b₀ b := by
      intro j b hb
      rcases Table.modify_row_eq_some.mp hb with ⟨-, hb⟩ | ⟨rfl, b₀, hb₀, rfl⟩
      · exact ⟨b, hb, .refl b⟩
      · rw [ha] at hb₀
        cases hb₀
        exact ⟨a, ha, hsame⟩
    obtain ⟨b₀, hb₀, hbb⟩ := hback j b hb
    obtain ⟨c₀, hc₀, hcc⟩ := hback k c hc
    exact hu j k b₀ c₀ hb₀ hc₀ (hbb.1.symm.trans (hh.trans hcc.1)) (hbb.2.1.symm.trans (hn.trans hcc.2.1))

theorem Declared.insert {a : α} {key : String} (hhome : V.home a = home) (hname : V.name a = key)
    (hmaker : V.maker a = some user) (husers : ∀ i, i ∈ V.users a ↔ i = user)
    (hnone : ∀ pk b, t.row pk = some b → V.home b = home → V.name b ≠ key) :
    Declared V user home [key] t (t.insert a) where
  kept pk b hb := ⟨b, Table.insert_row_of_some hb, .refl b, fun _ h => h, fun _ h => .inl h, .inr rfl⟩
  new pk b hb ht := by
    rcases Table.insert_row_eq_some.mp hb with ⟨rfl, rfl⟩ | hb
    · exact ⟨⟨hhome, by simp [hname]⟩, hmaker, fun i hi => (husers i).mp hi⟩
    · rw [hb] at ht
      cases ht
  named k hk := by
    obtain rfl : k = key := by simpa using hk
    exact ⟨t.next, a, by simp, hhome, hname, (husers user).mpr rfl⟩
  unique hu j k b c hb hc hh hn := by
    rcases Table.insert_row_eq_some.mp hb with ⟨rfl, rfl⟩ | hb <;>
      rcases Table.insert_row_eq_some.mp hc with ⟨rfl, rfl⟩ | hc
    · rfl
    · exact absurd (hn.symm.trans hname) (hnone k c hc (hh.symm.trans hhome))
    · exact absurd (hn.trans hname) (hnone j b hb (hh.trans hhome))
    · exact hu j k b c hb hc hh hn

/-! ## Signing off -/

/-- `user` signs off from the entries under `pks`; one that goes had a maker and no other user, and was free
to go. -/
structure Undeclared (V : View α) (setUsers : α → List Nat → α) (free : Nat → α → Prop) (user : Nat)
    (pks : List Nat) (t u : Table α) : Prop where
  others : ∀ pk, pk ∉ pks → u.row pk = t.row pk
  listed : ∀ pk ∈ pks, ∀ a, t.row pk = some a →
    (∃ b, u.row pk = some b ∧ SameBut setUsers a b ∧ (∀ i, i ∈ V.users b ↔ i ∈ V.users a ∧ i ≠ user)
      ∧ (V.users b = [] → V.maker a = none ∨ ¬ free pk a))
    ∨ u.row pk = none ∧ (V.maker a).isSome = true ∧ (∀ i ∈ V.users a, i = user) ∧ free pk a
  old : ∀ pk, t.row pk = none → u.row pk = none

variable {setUsers : α → List Nat → α} {free : Nat → α → Prop} {pks : List Nat}

theorem Undeclared.nil (t : Table α) : Undeclared V setUsers free user [] t t :=
  ⟨fun _ _ => rfl, fun _ h => (List.not_mem_nil h).elim, fun _ h => h⟩

theorem Undeclared.cons {pk : Nat} (h : Undeclared V setUsers free user [pk] t u)
    (k : Undeclared V setUsers free user pks u v) (hpk : pk ∉ pks) :
    Undeclared V setUsers free user (pk :: pks) t v where
  others j hj := by
    rw [List.mem_cons, not_or] at hj
    rw [k.others j hj.2, h.others j (by simpa using hj.1)]
  listed j hj a ha := by
    rcases List.mem_cons.mp hj with rfl | hj
    · rw [k.others j hpk]
      exact h.listed j (by simp) a ha
    · have hne : j ≠ pk := fun heq => hpk (heq ▸ hj)
      exact k.listed j hj a (by rw [h.others j (by simpa using hne), ha])
  old j hj := k.old j (h.old j hj)

/-! ## Registering anew -/

/-- `user` declares `ks` of `home` and signs off from what it dropped there. -/
structure Registered (V : View α) (setUsers : α → List Nat → α) (free : Nat → α → Prop) (user home : Nat)
    (ks : List String) (t u : Table α) : Prop where
  kept : ∀ pk a, t.row pk = some a →
    (∃ b, u.row pk = some b ∧ V.Same a b ∧ (∀ i, i ≠ user → (i ∈ V.users b ↔ i ∈ V.users a))
      ∧ (user ∈ V.users b → V.home a = home → V.name a ∈ ks) ∧ (V.At home ks a ∨ SameBut setUsers a b)
      ∧ (V.home a = home ∨ b = a) ∧ (V.users b = [] → V.users a = [] ∨ V.maker a = none ∨ ¬ free pk a))
    ∨ u.row pk = none ∧ (V.maker a).isSome = true ∧ V.home a = home ∧ V.name a ∉ ks
      ∧ (user ∈ V.users a ∧ ∀ i ∈ V.users a, i = user) ∧ free pk a
  new : ∀ pk b, u.row pk = some b → t.row pk = none →
    V.At home ks b ∧ V.maker b = some user ∧ ∀ i ∈ V.users b, i = user
  named : ∀ k ∈ ks, ∃ pk b, u.row pk = some b ∧ V.home b = home ∧ V.name b = k ∧ user ∈ V.users b
  unique : Unique V t → Unique V u

/-- Setting the users is all `setUsers` does. -/
def View.Lawful (V : View α) (setUsers : α → List Nat → α) : Prop :=
  ∀ a l, V.Same a (setUsers a l) ∧ V.users (setUsers a l) = l ∧ setUsers a (V.users a) = a

theorem SameBut.same (hV : V.Lawful setUsers) {a b : α} (h : SameBut setUsers a b) : V.Same a b := by
  obtain ⟨l, rfl⟩ := h
  exact (hV a l).1

theorem Declared.registered (hV : V.Lawful setUsers) (h : Declared V user home ks t u)
    (k : Undeclared V setUsers free user pks u v)
    (hpks : ∀ pk, pk ∈ pks ↔ ∃ a, u.row pk = some a ∧ V.home a = home ∧ user ∈ V.users a ∧ V.name a ∉ ks) :
    Registered V setUsers free user home ks t v where
  kept pk a ha := by
    obtain ⟨b, hb, hab, hsub, husers, hsame⟩ := h.kept pk a ha
    by_cases hpk : pk ∈ pks
    · obtain ⟨b', hb', hhome, huser, hname⟩ := (hpks pk).mp hpk
      rw [hb] at hb'
      cases hb'
      -- what is signed off from was not declared, so it is as it was
      obtain rfl : b = a := hsame.resolve_left fun hat => hname (hab.2.1 ▸ hat.2)
      rcases k.listed pk hpk b hb with ⟨c, hc, hbc, hcu, hempty⟩ | ⟨hc, hmaker, hall, hf⟩
      · refine .inl ⟨c, hc, hbc.same hV, fun i hi => ?_, fun hi => absurd rfl ((hcu user).mp hi).2, .inr hbc,
          .inl hhome, fun he => .inr (hempty he)⟩
        rw [hcu i]
        exact and_iff_left hi
      · exact .inr ⟨hc, hmaker, hhome, hname, ⟨huser, hall⟩, hf⟩
    · refine .inl ⟨b, by rw [k.others pk hpk, hb], hab, fun i hi => ⟨fun hib => ?_, hsub i⟩,
        fun hi hhome => ?_, ?_,
        hsame.imp_left And.left, fun he => .inl ?_⟩
      · exact (husers i hib).resolve_right fun h => hi h.1
      · refine Classical.by_contradiction fun hname => hpk ((hpks pk).mpr ⟨b, hb, hab.1.trans hhome, hi, ?_⟩)
        rw [hab.2.1]
        exact hname
      · rcases hsame with hat | rfl
        · exact .inl hat
        · exact .inr ⟨V.users b, ((hV b (V.users b)).2.2).symm⟩
      · exact List.eq_nil_iff_forall_not_mem.mpr fun i hi => by simpa [he] using hsub i hi
  new pk c hc ht := by
    cases hu : u.row pk with
    | none =>
      rw [k.old pk hu] at hc
      cases hc
    | some b =>
      obtain ⟨hat, hmaker, husers⟩ := h.new pk b hu ht
      have hpk : pk ∉ pks := by
        intro hpk
        obtain ⟨b', hb', -, -, hname⟩ := (hpks pk).mp hpk
        rw [hu] at hb'
        cases hb'
        exact hname hat.2
      rw [k.others pk hpk, hu] at hc
      cases hc
      exact ⟨hat, hmaker, husers⟩
  named key hkey := by
    obtain ⟨pk, b, hb, hhome, hname, huser⟩ := h.named key hkey
    refine ⟨pk, b, ?_, hhome, hname, huser⟩
    rw [k.others pk ?_, hb]
    intro hpk
    obtain ⟨b', hb', -, -, hname'⟩ := (hpks pk).mp hpk
    rw [hb] at hb'
    cases hb'
    exact hname' (hname ▸ hkey)
  unique hu j l b c hb hc hh hn := by
    have hback : ∀ j b, v.row j = some b → ∃ b₀, u.row j = some b₀ ∧ V.Same b₀ b := by
      intro j b hb
      cases huj : u.row j with
      | none =>
        rw [k.old j huj] at hb
        cases hb
      | some b₀ =>
        refine ⟨b₀, rfl, ?_⟩
        by_cases hj : j ∈ pks
        · rcases k.listed j hj b₀ huj with ⟨b', hb', hbb, -⟩ | ⟨hnone, -⟩
          · rw [hb] at hb'
            cases hb'
            exact hbb.same hV
          · rw [hb] at hnone
            cases hnone
        · rw [k.others j hj, huj] at hb
          cases hb
          exact .refl b
    obtain ⟨b₀, hb₀, hbb⟩ := hback j b hb
    obtain ⟨c₀, hc₀, hcc⟩ := hback l c hc
    exact h.unique hu j l b₀ c₀ hb₀ hc₀ (hbb.1.symm.trans (hh.trans hcc.1)) (hbb.2.1.symm.trans (hn.trans hcc.2.1))

/-! ## Departing -/

/-- The users `gone` leave, and the entries they made go with them. -/
structure Departed (V : View α) (setUsers : α → List Nat → α) (gone : Nat → Prop) (t u : Table α) : Prop where
  kept : ∀ pk a, t.row pk = some a →
    (∃ b, u.row pk = some b ∧ SameBut setUsers a b ∧ (∀ i, i ∈ V.users b ↔ i ∈ V.users a ∧ ¬ gone i)
      ∧ ∀ m, V.maker a = some m → ¬ gone m)
    ∨ u.row pk = none ∧ ∃ m, V.maker a = some m ∧ gone m
  old : ∀ pk, t.row pk = none → u.row pk = none

/-! ## Entries for what is declared -/

/-- The entries at `home` list exactly who declares them, and there is one for everything declared. -/
structure Tallies (V : View α) (home : Nat) (declares : Nat → String → Prop) (t : Table α) : Prop where
  unique : Unique V t
  users : ∀ pk a, t.row pk = some a → V.home a = home → ∀ i, i ∈ V.users a ↔ declares i (V.name a)
  there : ∀ i k, declares i k → ∃ pk a, t.row pk = some a ∧ V.home a = home ∧ V.name a = k

variable {declares : Nat → String → Prop}

/-- An entry another user declares outlasts a registration. -/
theorem Registered.outlasts (k : Registered V setUsers free user home ks t u) {pk i : Nat} {a : α}
    (ha : t.row pk = some a) (hi : i ∈ V.users a) (hne : i ≠ user) : ∃ b, u.row pk = some b ∧ V.Same a b := by
  rcases k.kept pk a ha with ⟨b, hb, hsame, -⟩ | ⟨-, -, -, -, ⟨-, hall⟩, -⟩
  · exact ⟨b, hb, hsame⟩
  · exact absurd (hall i hi) hne

theorem Tallies.registered (h : Tallies V home declares t) (k : Registered V setUsers free user home ks t u) :
    Tallies V home (fun i key => if i = user then key ∈ ks else declares i key) u where
  unique := k.unique h.unique
  users pk b hb hhome i := by
    by_cases hi : i = user
    · subst hi
      rw [if_pos rfl]
      constructor
      · intro huser
        cases ht : t.row pk with
        | none => exact (k.new pk b hb ht).1.2
        | some a =>
          rcases k.kept pk a ht with ⟨b', hb', hsame, -, hdeclared, -⟩ | ⟨hnone, -⟩
          · rw [hb] at hb'
            cases hb'
            rw [hsame.2.1]
            exact hdeclared huser (hsame.1.symm.trans hhome)
          · rw [hb] at hnone
            cases hnone
      · intro hkey
        obtain ⟨pk', b', hb', hhome', hname', huser⟩ := k.named _ hkey
        obtain rfl := k.unique h.unique pk pk' b b' hb hb' (hhome.trans hhome'.symm) hname'.symm
        rw [hb] at hb'
        cases hb'
        exact huser
    · rw [if_neg hi]
      cases ht : t.row pk with
      | some a =>
        rcases k.kept pk a ht with ⟨b', hb', hsame, husers, -⟩ | ⟨hnone, -⟩
        · rw [hb] at hb'
          cases hb'
          rw [husers i hi, hsame.2.1]
          exact h.users pk a ht (hsame.1.symm.trans hhome) i
        · rw [hb] at hnone
          cases hnone
      | none =>
        -- nobody else declares an entry that was just made
        refine iff_of_false (fun hib => hi ((k.new pk b hb ht).2.2 i hib)) fun hdeclares => ?_
        obtain ⟨pk₀, a, ha, hhome₀, hname₀⟩ := h.there i _ hdeclares
        have hia : i ∈ V.users a := (h.users pk₀ a ha hhome₀ i).mpr (hname₀ ▸ hdeclares)
        obtain ⟨b', hb', hsame⟩ := k.outlasts ha hia hi
        obtain rfl := k.unique h.unique pk pk₀ b b' hb hb' (hhome.trans (hsame.1.trans hhome₀).symm)
          (hsame.2.1.trans hname₀).symm
        rw [ha] at ht
        cases ht
  there i key hdeclares := by
    by_cases hi : i = user
    · rw [if_pos hi] at hdeclares
      obtain ⟨pk, b, hb, hhome, hname, -⟩ := k.named key hdeclares
      exact ⟨pk, b, hb, hhome, hname⟩
    · rw [if_neg hi] at hdeclares
      obtain ⟨pk, a, ha, hhome, hname⟩ := h.there i key hdeclares
      have hia : i ∈ V.users a := (h.users pk a ha hhome i).mpr (hname ▸ hdeclares)
      obtain ⟨b, hb, hsame⟩ := k.outlasts ha hia hi
      exact ⟨pk, b, hb, hsame.1.trans hhome, hsame.2.1.trans hname⟩

/-- Entries somebody made have a user. -/
def Used (V : View α) (home : Nat) (t : Table α) : Prop :=
  ∀ pk a, t.row pk = some a → V.home a = home → (V.maker a).isSome = true → V.users a ≠ []

theorem Tallies.used (h : Tallies V home (fun i key => if i = user then key ∈ ks else declares i key) u)
    (k : Registered V setUsers free user home ks t u) (hused : Used V home t)
    (hfree : ∀ pk a, t.row pk = some a → V.home a = home → free pk a) : Used V home u := by
  intro pk b hb hhome hmaker hempty
  cases ht : t.row pk with
  | none =>
    have hkey := (k.new pk b hb ht).1.2
    have huser : user ∈ V.users b := (h.users pk b hb hhome user).mpr (by rwa [if_pos rfl])
    rw [hempty] at huser
    cases huser
  | some a =>
    rcases k.kept pk a ht with ⟨b', hb', hsame, -, -, -, -, hlast⟩ | ⟨hnone, -⟩
    · rw [hb] at hb'
      cases hb'
      have hhome₀ : V.home a = home := hsame.1.symm.trans hhome
      rw [hsame.2.2] at hmaker
      rcases hlast hempty with h | h | h
      · exact hused pk a ht hhome₀ hmaker h
      · rw [h] at hmaker
        cases hmaker
      · exact h (hfree pk a ht hhome₀)
    · rw [hb] at hnone
      cases hnone

/-- Where all who declare an entry only leave with its maker, what stays has a user. -/
theorem Departed.used (hV : V.Lawful setUsers) {gone : Nat → Prop} (k : Departed V setUsers gone t u)
    (hlast : ∀ pk a, t.row pk = some a → V.home a = home → ∀ m, V.maker a = some m → (∀ i ∈ V.users a, gone i) →
      gone m) : Used V home u := by
  intro pk b hb hhome hmaker hempty
  cases ht : t.row pk with
  | none =>
    rw [k.old pk ht] at hb
    cases hb
  | some a =>
    rcases k.kept pk a ht with ⟨b', hb', hbut, husers, hstays⟩ | ⟨hnone, -⟩
    · rw [hb] at hb'
      cases hb'
      have hsame := hbut.same hV
      rw [hsame.2.2] at hmaker
      obtain ⟨m, hm⟩ := Option.isSome_iff_exists.mp hmaker
      refine hstays m hm (hlast pk a ht (hsame.1.symm.trans hhome) m hm
        fun i hi => Classical.by_contradiction fun hne => ?_)
      have hib : i ∈ V.users b := (husers i).mpr ⟨hi, hne⟩
      rw [hempty] at hib
      cases hib
    · rw [hb] at hnone
      cases hnone

/-- Where a maker only leaves with all who declare its entry, what the others declare stays. -/
theorem Tallies.departed (hV : V.Lawful setUsers) {gone : Nat → Prop} (h : Tallies V home declares t)
    (k : Departed V setUsers gone t u)
    (hmade : ∀ pk a, t.row pk = some a → V.home a = home → ∀ m, V.maker a = some m → gone m →
      ∀ i ∈ V.users a, gone i) : Tallies V home (fun i key => declares i key ∧ ¬ gone i) u := by
  have hback : ∀ pk b, u.row pk = some b → ∃ a, t.row pk = some a ∧ V.Same a b
      ∧ ∀ i, i ∈ V.users b ↔ i ∈ V.users a ∧ ¬ gone i := by
    intro pk b hb
    cases ht : t.row pk with
    | none =>
      rw [k.old pk ht] at hb
      cases hb
    | some a =>
      rcases k.kept pk a ht with ⟨b', hb', hbut, husers, -⟩ | ⟨hnone, -⟩
      · rw [hb] at hb'
        cases hb'
        exact ⟨a, rfl, hbut.same hV, husers⟩
      · rw [hb] at hnone
        cases hnone
  refine ⟨fun j l b c hb hc hh hn => ?_, fun pk b hb hhome i => ?_, fun i key hdeclares => ?_⟩
  · obtain ⟨b₀, hb₀, hbb, -⟩ := hback j b hb
    obtain ⟨c₀, hc₀, hcc, -⟩ := hback l c hc
    exact h.unique j l b₀ c₀ hb₀ hc₀ (hbb.1.symm.trans (hh.trans hcc.1)) (hbb.2.1.symm.trans (hn.trans hcc.2.1))
  · obtain ⟨a, ha, hsame, husers⟩ := hback pk b hb
    rw [husers i, hsame.2.1, h.users pk a ha (hsame.1.symm.trans hhome) i]
  · obtain ⟨pk, a, ha, hhome, hname⟩ := h.there i key hdeclares.1
    have hia : i ∈ V.users a := (h.users pk a ha hhome i).mpr (hname ▸ hdeclares.1)
    rcases k.kept pk a ha with ⟨b, hb, hbut, -⟩ | ⟨-, m, hm, hgone⟩
    · exact ⟨pk, b, hb, (hbut.same hV).1.trans hhome, (hbut.same hV).2.1.trans hname⟩
    · exact absurd (hmade pk a ha hhome m hm hgone i hia) hdeclares.2

end Registry
