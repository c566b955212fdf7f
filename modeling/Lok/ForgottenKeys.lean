import Lok.RootMandates

/-!
# Keys that are forgotten with clients

A key is on file as long as its mandate is. Deleting the clients of some mandates takes the
mandates these clients issued as agents with them, and what hangs on these in turn, so a key
can be forgotten and be new again. What is left is told from the state before: no edit and no
new mandate changes on whom the old ones hang.
-/

namespace Lok

open Table Checks

/-- The columns no edit of these writes. -/
structure Mandate.Kept (m n : Mandate) : Prop where
  origin : n.origin = m.origin
  parent : n.parent = m.parent
  issuer : n.issuingClient = m.issuingClient
  key : n.keyHash = m.keyHash
  request : n.hubRequest = m.hubRequest

theorem Mandate.Kept.refl (m : Mandate) : m.Kept m := ⟨rfl, rfl, rfl, rfl, rfl⟩

theorem Mandate.Kept.trans {l m n : Mandate} (h : l.Kept m) (h' : m.Kept n) : l.Kept n :=
  ⟨h'.origin.trans h.origin, h'.parent.trans h.parent, h'.issuer.trans h.issuer, h'.key.trans h.key,
   h'.request.trans h.request⟩

/-- A mandate a hub asked for since, under one of the keys `issued`. -/
structure Mandate.Since (n : Mandate) (issued : String → Prop) : Prop where
  root : n.IsRoot
  request : n.hubRequest.isSome = true
  key : ∃ x, n.keyHash = some x ∧ issued x

namespace DB

variable {db d u v : DB} {out out' : Pk → Prop} {issued : String → Prop}

/-- What falls when the clients of the mandates `out` are deleted. -/
inductive Forgotten (db : DB) (out : Pk → Prop) : Pk → Prop
  | issued {j c k : Pk} {n : Mandate} {x : Client} (hn : db.mandates.row j = some n)
      (hc : n.issuingClient = some c)
      (hx : db.clients.row c = some x) (hk : x.mandate = some k) (h : out k) : Forgotten db out j
  | passed {j c k : Pk} {n : Mandate} {x : Client} (hn : db.mandates.row j = some n)
      (hc : n.issuingClient = some c)
      (hx : db.clients.row c = some x) (hk : x.mandate = some k) (h : Forgotten db out k) : Forgotten db out j
  | child {j p : Pk} {n : Mandate} (hn : db.mandates.row j = some n) (hp : n.parent = some p)
    (h : Forgotten db out p) :
      Forgotten db out j

/-- A client that goes: of one of the mandates, or of one that falls. -/
def GoneClient (db : DB) (out : Pk → Prop) (c : Pk) : Prop :=
  ∃ x k, db.clients.row c = some x ∧ x.mandate = some k ∧ (out k ∨ db.Forgotten out k)

theorem Forgotten.of_gone {j c : Pk} {n : Mandate} (hn : db.mandates.row j = some n)
    (hc : n.issuingClient = some c)
    (h : db.GoneClient out c) : db.Forgotten out j := by
  obtain ⟨x, k, hx, hk, hout | hfalls⟩ := h
  · exact .issued hn hc hx hk hout
  · exact .passed hn hc hx hk hfalls

theorem Forgotten.not_root {k : Pk} {m : Mandate} (h : db.Forgotten out k) (hm : db.mandates.row k = some m) :
    ¬ m.IsRoot := by
  intro hroot
  cases h with
  | issued hn hc => rw [hm] at hn; cases hn; simp [hroot.2] at hc
  | passed hn hc => rw [hm] at hn; cases hn; simp [hroot.2] at hc
  | child hn hp => rw [hm] at hn; cases hn; simp [hroot.1] at hp

/-! ## The cascade -/

def clientRefsOf (db : DB) (mandates : List Pk) : List Ref :=
  (db.clients.pks fun _ c => c.mandate.any mandates.contains).map fun c => ⟨.client, c⟩

theorem mem_clientRefsOf {mandates : List Pk} {r : Ref} :
    r ∈ db.clientRefsOf mandates ↔ ∃ c x k, r = ⟨.client, c⟩ ∧ db.clients.row c = some x ∧ x.mandate = some k
    ∧ k ∈ mandates := by
  simp only [clientRefsOf, List.mem_map, mem_pks, Option.any_eq_true, List.contains_eq_mem, decide_eq_true_eq]
  constructor
  · rintro ⟨c, ⟨x, hx, k, hk, hmem⟩, rfl⟩
    exact ⟨c, x, k, rfl, hx, hk, hmem⟩
  · rintro ⟨c, x, k, rfl, hx, hk, hmem⟩
    exact ⟨c, ⟨x, hx, k, hk, hmem⟩, rfl⟩

/-- What the cascade of some mandates' clients may say of a row. -/
def FallsWithClients (db : DB) (out : Pk → Prop) (r : Ref) : Prop :=
  match r.model with
  | .client => db.GoneClient out r.pk
  | .mandate => db.Forgotten out r.pk
  | .mapping | .deviceCode => True
  | _ => False

theorem fallsWithClients_hangsOn {x p : Ref} (h : p ∈ db.hangsOn x) (hp : db.FallsWithClients out p) :
    db.FallsWithClients out x := by
  have hmodel : x.model ∈ withClients := by
    refine withClients_within x.model ⟨p.model, hangsOn_under h, ?_⟩
    unfold FallsWithClients at hp
    split at hp <;> simp_all [withClients]
  obtain ⟨model, pk⟩ := x
  simp only [withClients, List.mem_cons, List.not_mem_nil, or_false] at hmodel
  rcases hmodel with rfl | rfl | rfl | rfl
  · simp only [hangsOn, mem_elim, Client.hangsOn, List.mem_append, mem_refOf] at h
    obtain ⟨c, hc, (((⟨_, -, rfl⟩ | ⟨_, -, rfl⟩) | ⟨_, -, rfl⟩) | ⟨k, hk, rfl⟩) | ⟨_, -, rfl⟩⟩ := h
    · exact absurd hp id
    · exact absurd hp id
    · exact absurd hp id
    · exact ⟨c, k, hc, hk, .inr hp⟩
    · exact absurd hp id
  · trivial
  · simp only [hangsOn, mem_elim, Mandate.hangsOn, List.mem_append, List.mem_cons, List.not_mem_nil,
      or_false, mem_refOf] at h
    obtain ⟨n, hn, ((((rfl | rfl | rfl) | ⟨_, -, rfl⟩) | ⟨_, -, rfl⟩) | ⟨k, hk, rfl⟩) | ⟨c, hc, rfl⟩⟩ := h
    · exact absurd hp id
    · exact absurd hp id
    · exact absurd hp id
    · exact absurd hp id
    · exact absurd hp id
    · exact .child hn hk hp
    · exact .of_gone hn hc hp
  · trivial

theorem fallsWithClients_of_collect {mandates : List Pk} {r : Ref}
    (h : r ∈ db.collect (db.clientRefsOf mandates)) :
    db.FallsWithClients (· ∈ mandates) r := by
  refine Closure.closure_induct (P := db.FallsWithClients (· ∈ mandates)) (fun r hr => ?_)
    (fun x _ p hp hfalls => fallsWithClients_hangsOn hp hfalls) h
  obtain ⟨c, x, k, rfl, hx, hk, hmem⟩ := mem_clientRefsOf.mp hr
  exact ⟨x, k, hx, hk, .inl hmem⟩

theorem collect_of_client {roots : List Ref} {j c : Pk} {n : Mandate} (hn : db.mandates.row j = some n)
    (hc : n.issuingClient = some c) (h : (⟨.client, c⟩ : Ref) ∈ db.collect roots) :
    (⟨.mandate, j⟩ : Ref) ∈ db.collect roots := by
  refine mem_collect_of_hangsOn ?_ h
  simp only [hangsOn, mem_elim, Mandate.hangsOn, List.mem_append, mem_refOf]
  exact ⟨n, hn, .inr ⟨c, hc, rfl⟩⟩

theorem collect_of_parent {roots : List Ref} {j p : Pk} {n : Mandate} (hn : db.mandates.row j = some n)
    (hp : n.parent = some p) (h : (⟨.mandate, p⟩ : Ref) ∈ db.collect roots) :
    (⟨.mandate, j⟩ : Ref) ∈ db.collect roots := by
  refine mem_collect_of_hangsOn ?_ h
  simp only [hangsOn, mem_elim, Mandate.hangsOn, List.mem_append, mem_refOf]
  exact ⟨n, hn, .inl (.inr ⟨p, hp, rfl⟩)⟩

theorem collect_of_mandate {roots : List Ref} {c k : Pk} {x : Client} (hx : db.clients.row c = some x)
    (hk : x.mandate = some k) (h : (⟨.mandate, k⟩ : Ref) ∈ db.collect roots) :
    (⟨.client, c⟩ : Ref) ∈ db.collect roots := by
  refine mem_collect_of_hangsOn ?_ h
  simp only [hangsOn, mem_elim, Client.hangsOn, List.mem_append, mem_refOf]
  exact ⟨x, hx, .inl (.inr ⟨k, hk, rfl⟩)⟩

theorem Forgotten.collect {mandates : List Pk} {j : Pk} (h : db.Forgotten (· ∈ mandates) j) :
    (⟨.mandate, j⟩ : Ref) ∈ db.collect (db.clientRefsOf mandates) := by
  induction h with
  | issued hn hc hx hk hmem =>
    exact collect_of_client hn hc (mem_collect_root (mem_clientRefsOf.mpr ⟨_, _, _, rfl, hx, hk, hmem⟩))
  | passed hn hc hx hk _ ih => exact collect_of_client hn hc (collect_of_mandate hx hk ih)
  | child hn hp _ ih => exact collect_of_parent hn hp ih

theorem mandate_mem_collect {mandates : List Pk} {j : Pk} :
    (⟨.mandate, j⟩ : Ref) ∈ db.collect (db.clientRefsOf mandates) ↔ db.Forgotten (· ∈ mandates) j :=
  ⟨fallsWithClients_of_collect, Forgotten.collect⟩

theorem client_mem_collect {mandates : List Pk} {c : Pk} :
    (⟨.client, c⟩ : Ref) ∈ db.collect (db.clientRefsOf mandates) ↔ db.GoneClient (· ∈ mandates) c := by
  refine ⟨fallsWithClients_of_collect, fun h => ?_⟩
  obtain ⟨x, k, hx, hk, hmem | hfalls⟩ := h
  · exact mem_collect_root (mem_clientRefsOf.mpr ⟨c, x, k, rfl, hx, hk, hmem⟩)
  · exact collect_of_mandate hx hk hfalls.collect

/-! ## Telling what is left from the state before -/

/-- `u` is `db` without what falls with the clients of the mandates `out`, and with mandates under the keys
`issued`. -/
structure Tracks (db : DB) (out : Pk → Prop) (issued : String → Prop) (u : DB) : Prop where
  left : ∀ j n, db.mandates.row j = some n → ¬ db.Forgotten out j → ∃ n', u.mandates.row j = some n' ∧ n.Kept n'
  back : ∀ j n', u.mandates.row j = some n' →
    (∃ n, db.mandates.row j = some n ∧ ¬ db.Forgotten out j ∧ n.Kept n') ∨ n'.Since issued
  new : ∀ x, issued x → ∃ j n', u.mandates.row j = some n' ∧ n'.keyHash = some x ∧ n'.Since issued
  clients : ∀ c x, db.clients.row c = some x → ¬ db.GoneClient out c →
    ∃ x', u.clients.row c = some x' ∧ x'.mandate = x.mandate
  clientsBack : ∀ c x', u.clients.row c = some x' →
    ∃ x, db.clients.row c = some x ∧ ¬ db.GoneClient out c ∧ x'.mandate = x.mandate

def OnFile (db : DB) (out : Pk → Prop) (x : String) : Prop :=
  ∃ k m, db.mandates.row k = some m ∧ m.keyHash = some x ∧ ¬ db.Forgotten out k

theorem Tracks.known (h : Tracks db out issued u) {x : String} :
    u.keyIsKnown x = true ↔ db.OnFile out x ∨ issued x := by
  rw [keyIsKnown_iff]
  constructor
  · rintro ⟨j, n', hn', hkey⟩
    rcases h.back j n' hn' with ⟨n, hn, hleft, hkept⟩ | hnew
    · exact .inl ⟨j, n, hn, hkept.key ▸ hkey, hleft⟩
    · obtain ⟨y, hy, hissued⟩ := hnew.key
      obtain rfl := Option.some.inj (hkey.symm.trans hy)
      exact .inr hissued
  · rintro (⟨k, m, hm, hkey, hleft⟩ | hissued)
    · obtain ⟨m', hm', hkept⟩ := h.left k m hm hleft
      exact ⟨k, m', hm', hkept.key.trans hkey⟩
    · obtain ⟨j, n', hn', hkey, -⟩ := h.new x hissued
      exact ⟨j, n', hn', hkey⟩

theorem forgotten_false (k : Pk) : ¬ db.Forgotten (fun _ => False) k := by
  intro h
  induction h with
  | issued _ _ _ _ h => exact h
  | passed _ _ _ _ _ ih => exact ih
  | child _ _ _ ih => exact ih

theorem Tracks.refl (db : DB) : Tracks db (fun _ => False) (fun _ => False) db := by
  have hgone : ∀ c, ¬ db.GoneClient (fun _ => False) c := by
    rintro c ⟨x, k, -, -, hout | hfalls⟩
    · exact hout
    · exact forgotten_false k hfalls
  exact ⟨fun j n hn _ => ⟨n, hn, .refl n⟩, fun j n hn => .inl ⟨n, hn, forgotten_false j, .refl n⟩,
    fun _ h => h.elim,
    fun c x hx _ => ⟨x, hx, rfl⟩, fun c x hx => ⟨x, hx, hgone c, rfl⟩⟩

theorem Forgotten.mono (hout : ∀ k, out k → out' k) {j : Pk} (h : db.Forgotten out j) : db.Forgotten out' j := by
  induction h with
  | issued hn hc hx hk h => exact .issued hn hc hx hk (hout _ h)
  | passed hn hc hx hk _ ih => exact .passed hn hc hx hk ih
  | child hn hp _ ih => exact .child hn hp ih

/-- Only which mandates are out counts, and those that fall anyway may be among them. -/
structure Grows (db : DB) (out : Pk → Prop) (mandates : List Pk) (out' : Pk → Prop) : Prop where
  old : ∀ k, out k → out' k
  new : ∀ k ∈ mandates, out' k
  only : ∀ k, out' k → out k ∨ k ∈ mandates ∨ db.Forgotten out k

section
variable {mandates : List Pk} (h : Tracks db out issued u) (hgrows : Grows db out mandates out')
include h hgrows

theorem Tracks.forgotten_after {j : Pk} (hj : u.Forgotten (· ∈ mandates) j) : db.Forgotten out' j := by
  -- A mandate issued since is a root, so nothing of what falls is one.
  have hback : ∀ {j n'}, u.mandates.row j = some n' → ¬ n'.IsRoot →
    ∃ n, db.mandates.row j = some n ∧ n.Kept n' := by
    intro j n' hn' hroot
    rcases h.back j n' hn' with ⟨n, hn, -, hkept⟩ | hnew
    · exact ⟨n, hn, hkept⟩
    · exact absurd hnew.root hroot
  induction hj with
  | issued hn hc hx hk hmem =>
    obtain ⟨n, hn₀, hkept⟩ := hback hn fun hroot => by simp [hroot.2] at hc
    obtain ⟨x, hx₀, -, hsame⟩ := h.clientsBack _ _ hx
    exact .issued hn₀ (hkept.issuer ▸ hc) hx₀ (hsame ▸ hk) (hgrows.new _ hmem)
  | passed hn hc hx hk _ ih =>
    obtain ⟨n, hn₀, hkept⟩ := hback hn fun hroot => by simp [hroot.2] at hc
    obtain ⟨x, hx₀, -, hsame⟩ := h.clientsBack _ _ hx
    exact .passed hn₀ (hkept.issuer ▸ hc) hx₀ (hsame ▸ hk) ih
  | child hn hp _ ih =>
    obtain ⟨n, hn₀, hkept⟩ := hback hn fun hroot => by simp [hroot.1] at hp
    exact .child hn₀ (hkept.parent ▸ hp) ih

theorem Tracks.forgotten_iff {j : Pk} :
    db.Forgotten out' j ↔ db.Forgotten out j ∨ u.Forgotten (· ∈ mandates) j := by
  refine ⟨fun hj => ?_, fun hj => hj.elim (.mono hgrows.old) (h.forgotten_after hgrows)⟩
  -- Whose client issued it is out, falls already, or goes now.
  have hissued : ∀ {j c k n x}, db.mandates.row j = some n → n.issuingClient = some c → db.clients.row c = some x →
      x.mandate = some k → out k ∨ db.Forgotten out k ∨ k ∈ mandates ∨ u.Forgotten (· ∈ mandates) k →
        db.Forgotten out j ∨ u.Forgotten (· ∈ mandates) j := by
    intro j c k n x hn hc hx hk hcase
    by_cases hgone : db.GoneClient out c
    · exact .inl (.of_gone hn hc hgone)
    by_cases hfalls : db.Forgotten out j
    · exact .inl hfalls
    obtain ⟨n', hn', hkept⟩ := h.left j n hn hfalls
    obtain ⟨x', hx', hsame⟩ := h.clients c x hx hgone
    rcases hcase with hout | hfallsk | hmem | hnow
    · exact absurd ⟨x, k, hx, hk, .inl hout⟩ hgone
    · exact absurd ⟨x, k, hx, hk, .inr hfallsk⟩ hgone
    · exact .inr (.issued hn' (hkept.issuer.trans hc) hx' (hsame.trans hk) hmem)
    · exact .inr (.passed hn' (hkept.issuer.trans hc) hx' (hsame.trans hk) hnow)
  induction hj with
  | issued hn hc hx hk hout =>
    rcases hgrows.only _ hout with hold | hmem | hfalls
    · exact hissued hn hc hx hk (.inl hold)
    · exact hissued hn hc hx hk (.inr (.inr (.inl hmem)))
    · exact hissued hn hc hx hk (.inr (.inl hfalls))
  | passed hn hc hx hk _ ih =>
    rcases ih with hfalls | hnow
    · exact hissued hn hc hx hk (.inr (.inl hfalls))
    · exact hissued hn hc hx hk (.inr (.inr (.inr hnow)))
  | @child j p n hn hp _ ih =>
    by_cases hfalls : db.Forgotten out j
    · exact .inl hfalls
    rcases ih with hparent | hnow
    · exact .inl (.child hn hp hparent)
    · obtain ⟨n', hn', hkept⟩ := h.left j n hn hfalls
      exact .inr (.child hn' (hkept.parent.trans hp) hnow)

theorem Tracks.gone_iff {c : Pk} : db.GoneClient out' c ↔ db.GoneClient out c ∨ u.GoneClient (· ∈ mandates) c := by
  constructor
  · rintro ⟨x, k, hx, hk, hcase⟩
    by_cases hgone : db.GoneClient out c
    · exact .inl hgone
    obtain ⟨x', hx', hsame⟩ := h.clients c x hx hgone
    refine .inr ⟨x', k, hx', hsame.trans hk, ?_⟩
    rcases hcase with hout | hfalls
    · rcases hgrows.only k hout with hold | hmem | hfalls
      · exact absurd ⟨x, k, hx, hk, .inl hold⟩ hgone
      · exact .inl hmem
      · exact absurd ⟨x, k, hx, hk, .inr hfalls⟩ hgone
    · rcases (h.forgotten_iff hgrows).mp hfalls with hold | hnow
      · exact absurd ⟨x, k, hx, hk, .inr hold⟩ hgone
      · exact .inr hnow
  · rintro (⟨x, k, hx, hk, hcase⟩ | ⟨x', k, hx', hk, hcase⟩)
    · exact ⟨x, k, hx, hk, hcase.imp (hgrows.old k) (.mono hgrows.old)⟩
    · obtain ⟨x, hx, -, hsame⟩ := h.clientsBack c x' hx'
      exact ⟨x, k, hx, hsame ▸ hk, hcase.imp (hgrows.new k) (h.forgotten_after hgrows)⟩

theorem Tracks.delete : Tracks db out' issued (u.delete .client (u.clientRefsOf mandates) none) := by
  have hwithin : ∀ r ∈ u.clientRefsOf mandates, r.model ∈ withClients := clientRefs_within _
  rw [delete_withClients hwithin]
  have hmandates : ∀ j n, ((u.removeCascade (u.clientRefsOf mandates)).mandates.row j = some n ↔
      u.mandates.row j = some n ∧ ¬ u.Forgotten (· ∈ mandates) j) := by
    intro j n
    rw [← mandate_mem_collect]
    refine keep_row_eq_some.trans (and_congr_right fun _ => ?_)
    simp [keeps]
  have hclients : ∀ c x', (u.removeCascade (u.clientRefsOf mandates)).clients.row c = some x' ↔
      ∃ x, u.clients.row c = some x ∧ ¬ u.GoneClient (· ∈ mandates) c ∧
        { x with node := keepOpt (u.collect (u.clientRefsOf mandates)) .device x.node,
                 scopes := keepList (u.collect (u.clientRefsOf mandates)) .scope x.scopes } = x' := by
    intro c x'
    rw [← client_mem_collect]
    refine update_row_eq_some.trans (exists_congr fun x => ?_)
    rw [keep_row_eq_some, and_assoc]
    refine and_congr_right fun _ => and_congr ?_ Iff.rfl
    simp [keeps]
  refine ⟨fun j n hn hstays => ?_, fun j n' hn' => ?_, fun x hx => ?_, fun c x hx hstays => ?_, fun c x' hx' => ?_⟩
  · rw [h.forgotten_iff hgrows, not_or] at hstays
    obtain ⟨n', hn', hkept⟩ := h.left j n hn hstays.1
    exact ⟨n', (hmandates j n').mpr ⟨hn', hstays.2⟩, hkept⟩
  · obtain ⟨hn', hnow⟩ := (hmandates j n').mp hn'
    rcases h.back j n' hn' with ⟨n, hn, hstays, hkept⟩ | hnew
    · exact .inl ⟨n, hn, fun hfalls => ((h.forgotten_iff hgrows).mp hfalls).elim hstays hnow, hkept⟩
    · exact .inr hnew
  · obtain ⟨j, n', hn', hkey, hnew⟩ := h.new x hx
    exact ⟨j, n', (hmandates j n').mpr ⟨hn', fun hfalls => hfalls.not_root hn' hnew.root⟩, hkey, hnew⟩
  · rw [h.gone_iff hgrows, not_or] at hstays
    obtain ⟨x', hx', hsame⟩ := h.clients c x hx hstays.1
    exact ⟨_, (hclients c _).mpr ⟨x', hx', hstays.2, rfl⟩, hsame⟩
  · obtain ⟨x₀, hx₀, hnow, rfl⟩ := (hclients c x').mp hx'
    obtain ⟨x, hx, hstays, hsame⟩ := h.clientsBack c x₀ hx₀
    exact ⟨x, hx, fun hgone => ((h.gone_iff hgrows).mp hgone).elim hstays hnow, hsame⟩

theorem Tracks.deleteClients : Tracks db out' issued (u.deleteClients mandates) :=
  Tracks.delete (u := u.revokeTokensOf _) ⟨h.left, h.back, h.new, h.clients, h.clientsBack⟩ hgrows

end

theorem Tracks.update (h : Tracks db out issued u) {f : Nat → Mandate → Mandate}
    (hf : ∀ k (m : Mandate), m.Kept (f k m)) :
    Tracks db out issued { u with mandates := u.mandates.update f } := by
  have hsince : ∀ {k m}, m.Since issued → (f k m).Since issued := by
    intro k m hm
    have hkept := hf k m
    exact ⟨⟨hkept.parent.trans hm.root.1, hkept.issuer.trans hm.root.2⟩, hkept.request ▸ hm.request,
      hkept.key ▸ hm.key⟩
  refine ⟨fun j n hn hstays => ?_, fun j n' hn' => ?_, fun x hx => ?_, h.clients, h.clientsBack⟩
  · obtain ⟨n', hn', hkept⟩ := h.left j n hn hstays
    exact ⟨f j n', update_row_eq_some.mpr ⟨n', hn', rfl⟩, hkept.trans (hf j n')⟩
  · obtain ⟨n₀, hn₀, rfl⟩ := update_row_eq_some.mp hn'
    rcases h.back j n₀ hn₀ with ⟨n, hn, hstays, hkept⟩ | hnew
    · exact .inl ⟨n, hn, hstays, hkept.trans (hf j n₀)⟩
    · exact .inr (hsince hnew)
  · obtain ⟨j, n', hn', hkey, hnew⟩ := h.new x hx
    exact ⟨j, f j n', update_row_eq_some.mpr ⟨n', hn', rfl⟩, (hf j n').key.trans hkey, hsince hnew⟩

theorem Tracks.insert (h : Tracks db out issued u) {m : Mandate} {x : String} (hm : m.IsRoot)
    (hrequest : m.hubRequest.isSome = true)
    (hkey : m.keyHash = some x) (hmandates : v.mandates = u.mandates.insert m) (hclients : v.clients = u.clients) :
    Tracks db out (fun y => issued y ∨ x = y) v := by
  have hsince : ∀ {n : Mandate}, n.Since issued → n.Since (fun y => issued y ∨ x = y) := by
    intro n hn
    obtain ⟨y, hy, hissued⟩ := hn.key
    exact ⟨hn.root, hn.request, y, hy, .inl hissued⟩
  have hnew : m.Since (fun y => issued y ∨ x = y) := ⟨hm, hrequest, x, hkey, .inr rfl⟩
  refine ⟨fun j n hn hstays => ?_, fun j n' hn' => ?_, fun y hy => ?_, hclients ▸ h.clients,
    hclients ▸ h.clientsBack⟩
  · obtain ⟨n', hn', hkept⟩ := h.left j n hn hstays
    exact ⟨n', by rw [hmandates]; exact insert_row_of_some hn', hkept⟩
  · rw [hmandates] at hn'
    rcases insert_row_eq_some.mp hn' with ⟨-, rfl⟩ | hold
    · exact .inr hnew
    · exact (h.back j n' hold).imp_right hsince
  · rcases hy with hy | rfl
    · obtain ⟨j, n', hn', hkey', hold⟩ := h.new y hy
      exact ⟨j, n', by rw [hmandates]; exact insert_row_of_some hn', hkey', hsince hold⟩
    · exact ⟨_, m, by rw [hmandates]; exact insert_row_next _ _, hkey, hnew⟩

theorem Tracks.congr (h : Tracks db out issued u) {issued' : String → Prop} (hout : ∀ k, out k ↔ out' k)
    (hissued : ∀ x, issued x ↔ issued' x) : Tracks db out' issued' u := by
  obtain rfl : out = out' := funext fun k => propext (hout k)
  obtain rfl : issued = issued' := funext fun x => propext (hissued x)
  exact h

theorem revokeMandate_tracks {k : Pk} {reason : MandateRevocation} (h : Tracks db out issued u)
    (hgrows : Grows db out (k :: u.childrenOf k) out') (hrevoked : u.revokeMandate k reason = .ok v) :
    Tracks db out' issued v := by
  simp only [revokeMandate, bind_ok, Table.get_ok, pure_ok] at hrevoked
  obtain ⟨-, -, rfl⟩ := hrevoked
  refine Tracks.deleteClients (h.update fun j m => ?_) hgrows
  have hrow : ∀ reason, m.Kept (revokeRow u.now reason m) := by
    intro reason
    obtain ⟨t, r, hsame, -⟩ := revokeRow_same u.now reason m
    rw [hsame]
    exact ⟨rfl, rfl, rfl, rfl, rfl⟩
  split
  · exact hrow _
  · split
    · exact hrow _
    · exact .refl m

end DB

end Lok
