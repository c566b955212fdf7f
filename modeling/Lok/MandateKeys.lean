import Lok.MandateLaws

/-!
# Keys of revoked mandates

A revoked mandate stays on file with the hash of its key, and issuing refuses a hash that is
on file: that is what keeps a revoked key dead. The row can go by a cascade, of its hub, its
grantor or the app that issued it, and with it the memory of the key. A revoked key stays
dead along every run in which whoever proposes it again finds the revoked mandate on file
and does not delete it on the way.
-/

namespace Lok

open Table Runs Checks

namespace DB

variable {db d : DB} {l : Label} {env : Env} {x : String}

/-- No two mandates on file have the same key. -/
def KeysUnique (db : DB) : Prop :=
  ∀ k k' m m' x, db.mandates.row k = some m → db.mandates.row k' = some m' → m.keyHash = some x →
    m'.keyHash = some x →
    k = k'

/-- Every mandate on file with this key is revoked. -/
def KeyDead (db : DB) (x : String) : Prop :=
  ∀ k m, db.mandates.row k = some m → m.keyHash = some x → m.revokedAt.isSome = true

theorem KeysUnique.write (h : db.KeysUnique) (hlaws : db.MandateLaws) (hw : Write db l d) : d.KeysUnique := by
  intro k k' m m' x hk hk' hm hm'
  rcases mandates_later hlaws hw with hlater | ⟨n, hn, -, hd⟩
  · obtain ⟨m₀, hk₀, hl⟩ := hlater.2 k m hk
    obtain ⟨m₀', hk₀', hl'⟩ := hlater.2 k' m' hk'
    exact h k k' m₀ m₀' x hk₀ hk₀' (hl.keyHash ▸ hm) (hl'.keyHash ▸ hm')
  · rw [hd] at hk hk'
    rcases insert_row_eq_some.mp hk with ⟨rfl, rfl⟩ | hk <;> rcases insert_row_eq_some.mp hk' with ⟨rfl, rfl⟩ | hk'
    · rfl
    · exact absurd hm' (hn.fresh x hm k' m' hk')
    · exact absurd hm (hn.fresh x hm' k m hk)
    · exact h k k' m m' x hk hk' hm hm'

theorem KeyDead.later (h : db.KeyDead x) (hl : Table.Shrinks Mandate.Later db.mandates d.mandates) :
    d.KeyDead x := by
  intro k m hk hm
  obtain ⟨m₀, hk₀, hlater⟩ := hl.2 k m hk
  exact hlater.revoked (h k m₀ hk₀ (hlater.keyHash ▸ hm))

theorem KeyDead.write (h : db.KeyDead x) (hlaws : db.MandateLaws) (hw : Write db l d) (hl : l ≠ .issue (some x)) :
    d.KeyDead x := by
  rcases mandates_later hlaws hw with hlater | ⟨n, -, rfl, hd⟩
  · exact h.later hlater
  · intro k m hk hm
    rw [hd] at hk
    rcases insert_row_eq_some.mp hk with ⟨-, rfl⟩ | hk
    · exact absurd (congrArg Label.issue hm) hl
    · exact h k m hk hm

/-- The mandate `pk` holds the key, which is dead; or `pk` is gone, for good. -/
def HeldOrGone (db : DB) (x : String) (pk : Pk) : Prop :=
  (db.KeyDead x ∧ ∃ m, db.mandates.row pk = some m ∧ m.keyHash = some x) ∨ pk < db.mandates.next
    ∧ db.mandates.row pk = none

/-- While the mandate is on file nothing issues its key, and a key that is gone does not come back under its
row. -/
theorem HeldOrGone.write {pk : Pk} (h : db.HeldOrGone x pk) (hlaws : db.MandateLaws) (hw : Write db l d) :
    d.HeldOrGone x pk := by
  rcases mandates_later hlaws hw with hlater | ⟨n, hn, rfl, hd⟩
  · rcases h with ⟨hdead, m, hm, hkey⟩ | ⟨hlt, hnone⟩
    · cases hrow : d.mandates.row pk with
      | none => exact .inr ⟨hlater.1 ▸ lt_next hm, hrow⟩
      | some m' =>
        obtain ⟨m₀, hm₀, hl⟩ := hlater.2 pk m' hrow
        rw [hm] at hm₀
        cases hm₀
        exact .inl ⟨hdead.later hlater, m', hrow, hl.keyHash.trans hkey⟩
    · exact .inr ⟨hlater.1 ▸ hlt, hlater.row_none hnone⟩
  · rcases h with ⟨hdead, m, hm, hkey⟩ | ⟨hlt, hnone⟩
    · have hother : n.keyHash ≠ some x := fun hx => hn.fresh x hx pk m hm hkey
      exact .inl ⟨hdead.write hlaws hw (by simpa using hother), m, hd ▸ insert_row_of_some hm, hkey⟩
    · refine .inr ⟨by rw [hd]; exact Nat.lt_succ_of_lt hlt, ?_⟩
      rw [hd, insert_row, if_neg (Nat.ne_of_lt hlt), hnone]

end DB

/-- Where an action proposes the key of a revoked mandate, a mandate with that key is on file and stays there. -/
def StaysOnFile (env : Env) (x : String) (db : DB) (a : Action) : Prop :=
  a.proposes env db x → ∃ pk m, db.mandates.row pk = some m ∧ m.keyHash = some x
    ∧ ((step env db a).mandates.row pk).isSome = true

namespace DB

variable {db d : DB} {env : Env} {x : String}

theorem step_keyDead {a : Action} (h : db.KeyDead x) (hlaws : db.MandateLaws) (hstays : StaysOnFile env x db a) :
    (step env db a).KeyDead x := by
  cases ha : a.deletes with
  | true => exact step_deletes (P := fun d => d.KeyDead x) ha h fun _ _ => h.write hlaws (.delete _ _ _) (by simp)
  | false =>
    have hw := step_writes env db ha
    by_cases hp : a.proposes env db x
    · obtain ⟨pk, m, hm, hkey, hstays⟩ := hstays hp
      have hheld := (hw.invariant (I := fun d : DB => d.MandateLaws ∧ d.HeldOrGone x pk)
        (fun hI hw _ => ⟨hI.1.write hw, hI.2.write hI.1 hw⟩) ⟨hlaws, .inl ⟨h, m, hm, hkey⟩⟩).2
      rcases hheld with ⟨hdead, -⟩ | ⟨-, hnone⟩
      · exact hdead
      · rw [hnone] at hstays
        cases hstays
    · refine (hw.invariant (I := fun d : DB => d.MandateLaws ∧ d.KeyDead x)
        (fun hI hw hl => ⟨hI.1.write hw, ?_⟩) ⟨hlaws, h⟩).2
      refine hI.2.write hI.1 hw ?_
      rintro rfl
      exact hp (hl x rfl)

theorem authenticateKey_of_dead {request : MandateKeyGrantRequest}
    (h : db.KeyDead (env.hashKey request.key)) (r : DB × Pk) :
    db.authenticateKey env request ≠ .ok r := by
  intro hr
  obtain ⟨-, pk, m, _, ⟨hm, hkey, hlive, -⟩, -⟩ := authenticateKey_ok (A := .free) trivial trivial hr
  have hrevoked := h pk m hm hkey
  rw [assertLive_unrevoked hlive] at hrevoked
  cases hrevoked

end DB

theorem Reachable.keysUnique {env : Env} {db : DB} (h : Reachable env db) : db.KeysUnique :=
  (h.invariant (P := fun d : DB => d.MandateLaws ∧ d.KeysUnique) (fun hI hw => ⟨hI.1.write hw, hI.2.write hI.1 hw⟩)
    ⟨.empty, by simp [DB.KeysUnique, DB.empty]⟩).2

/-- Once the mandate that carries a key was revoked the key never logs in again, along every run in which
each action that proposes the key again finds a mandate with it on file and leaves it there. -/
theorem revoked_key_stays_dead {env : Env} {db d : DB} {as : List Action} {pk : Pk} {m : Mandate}
    {request : MandateKeyGrantRequest} (hdb : Reachable env db) (hm : db.mandates.row pk = some m)
    (hkey : m.keyHash = some (env.hashKey request.key)) (hrevoked : m.revokedAt.isSome = true)
    (hrun : Run (fun s a t => Step env s a t ∧ StaysOnFile env (env.hashKey request.key) s a) db as d) :
    ∀ r, d.authenticateKey env request ≠ .ok r := by
  have hdead : db.KeyDead (env.hashKey request.key) := by
    intro k n hn hx
    obtain rfl := hdb.keysUnique k pk n m _ hn hm hx hkey
    rw [hn] at hm
    cases hm
    exact hrevoked
  refine DB.authenticateKey_of_dead
    (hrun.invariant (P := fun d : DB => d.MandateLaws ∧ d.KeyDead (env.hashKey request.key))
    (fun {s a t} hs hst => ?_) ⟨hdb.mandateLaws, hdead⟩).2
  obtain ⟨rfl, hstays⟩ := hst
  exact ⟨step_invariant (fun hI hw => hI.write hw) a hs.1, DB.step_keyDead hs.2 hs.1 hstays⟩

/-- The hub's worker has a mandate, which is revoked. -/
def workerRevoked : List Action :=
  [.createUser "ann" [], .createOrganization "org" 0 false, .configureHub 0 keyedHub,
   .configureHubMandates 0 keyedHub,
   .revokeMandate 0]

/-- The hub proposes the key again: it is known, and nothing is issued. -/
theorem revoked_key_stays_dead_proposed :
    ¬ ∃ r, (step plainEnv (run plainEnv .empty workerRevoked)
      (.configureHubMandates 0 keyedHub)).authenticateKey plainEnv
      workerLogin = .ok r := by
  have hdb := reachable_run plainEnv workerRevoked
  have hm : ((run plainEnv .empty workerRevoked).mandates.row 0).any (fun m =>
      m.keyHash == some (plainEnv.hashKey workerLogin.key) && m.revokedAt.isSome) = true := by decide +kernel
  have hstays : ((step plainEnv (run plainEnv .empty workerRevoked)
    (.configureHubMandates 0 keyedHub)).mandates.row 0).isSome
      = true := by decide +kernel
  generalize run plainEnv .empty workerRevoked = db at hdb hm hstays ⊢
  obtain ⟨m, hm, hp⟩ := (Option.any_eq_true _ _).mp hm
  simp only [Bool.and_eq_true, beq_iff_eq] at hp
  rintro ⟨r, hr⟩
  exact revoked_key_stays_dead hdb hm hp.1 hp.2 (.single ⟨rfl, fun _ => ⟨0, m, hm, hp.1, hstays⟩⟩) r hr

/-- The hub is deleted and comes back: its revoked mandate went with it, and the key is issued once more. -/
theorem revoked_key_logs_in_again :
    (∃ m, (run plainEnv .empty workerRevoked).mandates.row 0 = some m
      ∧ m.keyHash = some (plainEnv.hashKey plainKey)
      ∧ m.revokedAt.isSome = true)
    ∧ ∃ r, (run plainEnv .empty (workerRevoked ++ [.delete .hub [0], .configureHub 0 keyedHub,
        .configureHubMandates 1 keyedHub])).authenticateKey plainEnv workerLogin = .ok r := by
  have hm : ((run plainEnv .empty workerRevoked).mandates.row 0).any (fun m =>
      m.keyHash == some (plainEnv.hashKey plainKey) && m.revokedAt.isSome) = true := by decide +kernel
  obtain ⟨m, hm, hp⟩ := (Option.any_eq_true _ _).mp hm
  simp only [Bool.and_eq_true, beq_iff_eq] at hp
  exact ⟨⟨m, hm, hp⟩, exists_ok (by decide +kernel)⟩

end Lok
