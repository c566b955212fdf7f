import Lok.CodeExchanges

/-!
# Nonces

A nonce is looked for among the stored codes and the spent nonces when the authorization is checked, and moves from
the one table to the other when the code is exchanged. Between the check and the save of the code another
authorization may store the same nonce, and an authorization under a polling client id looks for it under the
wrong client. Where it is still fresh under the code's own client when the code is saved, no nonce is issued twice.
-/

namespace Lok

open Table Runs Checks

/-- Whether the answer carries an id token: the issued scope has `openid`. -/
def FoundCode.idToken (env : Env) (f : FoundCode) : Bool :=
  (f.client.issuedScope env f.item.scope).contains "openid"

/-- A code stored for this scope may end in an id token: it names `openid`, or it names none and the library
fills in the client's. -/
def AsksIdToken (env : Env) (scope : List String) : Prop :=
  "openid" ∈ scope ∨ (scope = [] ∧ env.narrowsEmpty = true)

theorem FoundCode.idToken_asked {env : Env} {f : FoundCode} (h : f.idToken env = true) :
    AsksIdToken env f.item.scope := by
  have hissued : "openid" ∈ f.client.issuedScope env f.item.scope := List.contains_iff_mem.mp h
  by_cases hscope : f.item.scope = []
  · rw [hscope, DB.issuedScope_nil] at hissued
    cases hnarrows : env.narrowsEmpty with
    | true => exact .inr ⟨hscope, hnarrows⟩
    | false => simp [hnarrows] at hissued
  · rw [DB.issuedScope_of_ne hscope] at hissued
    exact .inl (List.mem_filter.mp hissued).1

/-- The exchange remembered the nonce of what it found. -/
def Exchange.remembered : Exchange → Option FoundCode
  | noted f | saved f _ | answered f _ | late f _ => some f
  | found _ | refused => none

namespace DB

variable {db : DB}

/-- The nonce of the client is remembered as spent. -/
def Spent (db : DB) (clientId : ClientId) (nonce : String) : Prop :=
  ∃ k, db.usedNonces.row k = some ⟨clientId, nonce⟩

theorem useNonce_spent (clientId : ClientId) {nonce : String} (hne : nonce ≠ "") :
    (db.useNonce clientId nonce).Spent clientId nonce := by
  unfold useNonce
  split
  · rename_i hknown
    simp only [Bool.or_eq_true, beq_iff_eq, hne, false_or, exists?_eq_true] at hknown
    obtain ⟨k, n, hn, hp⟩ := hknown
    simp only [Bool.and_eq_true, beq_iff_eq] at hp
    exact ⟨k, by rw [hn, ← hp.1, ← hp.2]⟩
  · exact ⟨_, insert_row_next _ _⟩

theorem Spent.useNonce {clientId : ClientId} {nonce : String} (h : db.Spent clientId nonce) (i : ClientId)
    (n : String) : (db.useNonce i n).Spent clientId nonce := by
  obtain ⟨k, hk⟩ := h
  unfold DB.useNonce
  split
  · exact ⟨k, hk⟩
  · exact ⟨k, insert_row_of_some hk⟩

theorem Spent.exists {clientId : ClientId} {nonce : String} (h : db.Spent clientId nonce) :
    db.existsNonce clientId nonce = true := by
  obtain ⟨k, hk⟩ := h
  rw [existsNonce, exists?_eq_true.mpr ⟨k, _, hk, by simp⟩, Bool.or_true]

end DB

/-- The code asks for an id token, and was stored for the client with the nonce. -/
def AuthorizationCode.Carries (env : Env) (a : AuthorizationCode) (clientId : ClientId) (nonce : String) : Prop :=
  AsksIdToken env a.scope ∧ a.clientId = clientId ∧ a.nonce = nonce

namespace Endpoints

variable {env : Env} {s t : Endpoints}

/-- The exchange issued the client an id token with the nonce. -/
def IdToken (env : Env) (s : Endpoints) (n : Pk) (clientId : ClientId) (nonce : String) : Prop :=
  ∃ f r, s.exchanges.row n = some (.answered f r) ∧ f.idToken env = true ∧ f.item.clientId = clientId
    ∧ f.item.nonce = nonce

/-- No two id tokens of a client carry the same nonce. -/
def NonceOnce (env : Env) (s : Endpoints) : Prop :=
  ∀ m n clientId nonce, nonce ≠ "" → s.IdToken env m clientId nonce → s.IdToken env n clientId nonce → m = n

/-- A code for an id token is saved only while its nonce is neither stored nor spent under the client of the
code. -/
def StoresFresh (env : Env) (s : Endpoints) : EndpointEvent → Prop
  | .store n =>
    ∀ membership c r, s.consents.row n = some (.checked membership c r) → AsksIdToken env r.scope → r.nonce ≠ "" →
      s.db.existsNonce c.clientId r.nonce = false
  | _ => True

/-- Where a nonce can be: with one stored code, or spent. -/
structure NonceLaws (env : Env) (s : Endpoints) : Prop where
  uniq : ∀ j k a b clientId nonce, nonce ≠ "" → s.db.authorizationCodes.row j = some a →
    s.db.authorizationCodes.row k = some b →
    a.Carries env clientId nonce → b.Carries env clientId nonce → j = k
  used : ∀ n x f, s.exchanges.row n = some x → x.remembered = some f → f.item.nonce ≠ "" →
    s.db.Spent f.item.clientId f.item.nonce
  gone : ∀ n clientId nonce k a, nonce ≠ "" → s.IdToken env n clientId nonce →
    s.db.authorizationCodes.row k = some a →
    ¬ a.Carries env clientId nonce
  once : s.NonceOnce env

theorem NonceLaws.goes_on (h : s.NonceLaws env) (hcodes : t.db.authorizationCodes = s.db.authorizationCodes)
    (hspent : ∀ i n, s.db.Spent i n → t.db.Spent i n)
    (hx : ∀ n y, t.exchanges.row n = some y → s.exchanges.row n = some y ∨ (∀ f r, y ≠ .answered f r) ∧
      ∀ f, y.remembered = some f → f.item.nonce ≠ "" → t.db.Spent f.item.clientId f.item.nonce) :
        t.NonceLaws env := by
  have hback : ∀ n i nonce, t.IdToken env n i nonce → s.IdToken env n i nonce := by
    intro n i nonce hn
    obtain ⟨f, r, hn, hf⟩ := hn
    rcases hx n _ hn with hn | ⟨hnot, -⟩
    · exact ⟨f, r, hn, hf⟩
    · exact absurd rfl (hnot f r)
  refine ⟨fun j k a b i nonce hne ha hb => ?_, fun n y f hn hy hne => ?_, fun n i nonce k a hne hn ha => ?_,
    fun m n i nonce hne hm hn => h.once m n i nonce hne (hback m i nonce hm) (hback n i nonce hn)⟩
  · rw [hcodes] at ha hb
    exact h.uniq j k a b i nonce hne ha hb
  · rcases hx n y hn with hn | ⟨-, hused⟩
    · exact hspent _ _ (h.used n y f hn hy hne)
    · exact hused f hy hne
  · rw [hcodes] at ha
    exact h.gone n i nonce k a hne (hback n i nonce hn) ha

theorem NonceLaws.steps (h : s.NonceLaws env) (hcodes : t.db.authorizationCodes = s.db.authorizationCodes)
    (hspent : ∀ i n, s.db.Spent i n → t.db.Spent i n) {n : Pk} {y : Exchange}
    (ht : t.exchanges = s.exchanges.modify n fun _ => y)
    (hy : ∀ f r, y ≠ .answered f r)
    (hused : ∀ f, y.remembered = some f → f.item.nonce ≠ "" → t.db.Spent f.item.clientId f.item.nonce) :
    t.NonceLaws env := by
  refine h.goes_on hcodes hspent fun m z hm => ?_
  rw [ht] at hm
  rcases modify_row_eq_some.mp hm with ⟨-, hm⟩ | ⟨-, -, -, rfl⟩
  · exact .inl hm
  · exact .inr ⟨hy, hused⟩

theorem NonceLaws.begins (h : s.NonceLaws env) {x : Exchange} (hx : ∀ f r, x ≠ .answered f r)
    (hnone : x.remembered = none) :
    NonceLaws env { s with exchanges := s.exchanges.insert x } := by
  refine h.goes_on rfl (fun _ _ => id) fun m z hm => ?_
  rcases insert_row_eq_some.mp hm with ⟨-, rfl⟩ | hm
  · refine .inr ⟨hx, fun f hf => ?_⟩
    rw [hnone] at hf
    cases hf
  · exact .inl hm

theorem NonceLaws.burn {start : Table AuthorizationCode} (h : s.NonceLaws env) (hlaws : s.ExchangeLaws env start)
    {n : Pk} {f : FoundCode}
    {r : TokenResponse} (hn : s.exchanges.row n = some (.saved f r)) {a : AuthorizationCode}
    (ha : s.db.authorizationCodes.row f.codePk = some a)
    (hcodes : t.db.authorizationCodes = s.db.authorizationCodes.keep fun j _ => j != f.codePk)
    (hnonces : t.db.usedNonces = s.db.usedNonces)
    (ht : t.exchanges = s.exchanges.modify n fun _ => .answered f r) : t.NonceLaws env := by
  obtain rfl := (hlaws.found n _ f hn rfl).same a ha
  have hspent : ∀ i nonce, s.db.Spent i nonce → t.db.Spent i nonce := by
    intro i nonce hs
    rw [DB.Spent, hnonces]
    exact hs
  have hback : ∀ m i nonce, t.IdToken env m i nonce →
    s.IdToken env m i nonce ∨ m = n ∧ f.item.Carries env i nonce := by
    intro m i nonce hm
    obtain ⟨g, q, hm, htoken, hclient, hnonce⟩ := hm
    rw [ht] at hm
    rcases modify_row_eq_some.mp hm with ⟨-, hm⟩ | ⟨hmn, -, -, heq⟩
    · exact .inl ⟨g, q, hm, htoken, hclient, hnonce⟩
    · cases heq
      exact .inr ⟨hmn, f.idToken_asked htoken, hclient, hnonce⟩
  refine ⟨fun j k b c i nonce hne hb hc => ?_, fun m y g hm hy hne => ?_, fun m i nonce k b hne hm hb => ?_,
    fun l m i nonce hne hl hm => ?_⟩
  · rw [hcodes] at hb hc
    exact h.uniq j k b c i nonce hne (keep_row_eq_some.mp hb).1 (keep_row_eq_some.mp hc).1
  · rw [ht] at hm
    rcases modify_row_eq_some.mp hm with ⟨-, hm⟩ | ⟨-, -, -, rfl⟩
    · exact hspent _ _ (h.used m y g hm hy hne)
    · exact hspent _ _ (h.used n _ g hn hy hne)
  · rw [hcodes] at hb
    obtain ⟨hb, hother⟩ := keep_row_eq_some.mp hb
    rcases hback m i nonce hm with hm | ⟨-, hf⟩
    · exact h.gone m i nonce k b hne hm hb
    · intro hcarries
      obtain rfl := h.uniq k f.codePk b f.item i nonce hne hb ha hcarries hf
      simp at hother
  · -- the code was there, so the nonce was not issued before
    rcases hback l i nonce hl with hl | ⟨hl, hf⟩ <;> rcases hback m i nonce hm with hm | ⟨hm, hf'⟩
    · exact h.once l m i nonce hne hl hm
    · exact absurd hf' (h.gone l i nonce _ _ hne hl ha)
    · exact absurd hf (h.gone m i nonce _ _ hne hm ha)
    · exact hl.trans hm.symm

theorem NonceLaws.stores (h : s.NonceLaws env) {a : AuthorizationCode}
    (hfresh : AsksIdToken env a.scope → a.nonce ≠ "" → s.db.existsNonce a.clientId a.nonce = false)
    (hcodes : t.db.authorizationCodes = s.db.authorizationCodes.insert a)
    (hnonces : t.db.usedNonces = s.db.usedNonces)
    (ht : t.exchanges = s.exchanges) : t.NonceLaws env := by
  have hissued : ∀ n i nonce, t.IdToken env n i nonce → s.IdToken env n i nonce := by
    intro n i nonce hn
    rw [IdToken, ht] at hn
    exact hn
  have hunstored : ∀ i nonce k b, nonce ≠ "" → a.Carries env i nonce → s.db.authorizationCodes.row k = some b →
    ¬ b.Carries env i nonce := by
    intro i nonce k b hne ha hb hcarries
    obtain ⟨hscope, rfl, rfl⟩ := ha
    have hnone := hfresh hscope hne
    rw [DB.existsNonce, Bool.or_eq_false_iff] at hnone
    have hother := exists?_eq_false.mp hnone.1 k b hb
    simp [hcarries.2.1, hcarries.2.2] at hother
  have hunspent : ∀ n i nonce, nonce ≠ "" → a.Carries env i nonce → ¬ s.IdToken env n i nonce := by
    intro n i nonce hne ha hn
    obtain ⟨hscope, rfl, rfl⟩ := ha
    obtain ⟨f, r, hn, -, hclient, hnonce⟩ := hn
    have hspent := h.used n _ f hn rfl (hnonce ▸ hne)
    rw [hclient, hnonce] at hspent
    have hnone := hfresh hscope hne
    rw [hspent.exists] at hnone
    cases hnone
  refine ⟨fun j k b c i nonce hne hb hc hb' hc' => ?_, fun n y f hn hy hne => ?_,
    fun n i nonce k b hne hn hb => ?_,
    fun m n i nonce hne hm hn => h.once m n i nonce hne (hissued m i nonce hm) (hissued n i nonce hn)⟩
  · rw [hcodes] at hb hc
    rcases insert_row_eq_some.mp hb with ⟨hj, rfl⟩ | hb <;> rcases insert_row_eq_some.mp hc with ⟨hk, rfl⟩ | hc
    · exact hj.trans hk.symm
    · exact absurd hc' (hunstored i nonce k c hne hb' hc)
    · exact absurd hb' (hunstored i nonce j b hne hc' hb)
    · exact h.uniq j k b c i nonce hne hb hc hb' hc'
  · rw [DB.Spent, hnonces]
    rw [ht] at hn
    exact h.used n y f hn hy hne
  · rw [hcodes] at hb
    rcases insert_row_eq_some.mp hb with ⟨-, rfl⟩ | hb
    · exact fun hcarries => hunspent n i nonce hne hcarries (hissued n i nonce hn)
    · exact h.gone n i nonce k b hne (hissued n i nonce hn) hb

theorem NonceLaws.step {start : Table AuthorizationCode} {e : EndpointEvent} (h : s.NonceLaws env)
    (hlaws : s.ExchangeLaws env start)
    (hst : EndpointStep env s e t) (hfresh : s.StoresFresh env e) : t.NonceLaws env := by
  have hremembered : ∀ {n x}, s.exchanges.row n = some x → ∀ f, x.remembered = some f → f.item.nonce ≠ "" →
      s.db.Spent f.item.clientId f.item.nonce := fun hn f hf => h.used _ _ f hn hf
  cases hst with
  | find hf => exact h.begins (by simp) rfl
  | notFound hf => exact h.begins (by simp) rfl
  | note hn =>
    refine h.steps (DB.useNonce_codes _ _) (fun i n hs => hs.useNonce _ _) rfl (by simp) fun g hg hne => ?_
    cases hg
    exact DB.useNonce_spent _ hne
  | @save n f d r hn hd =>
    have hspent : ∀ i nonce, s.db.Spent i nonce → d.Spent i nonce := by
      intro i nonce hs
      rw [DB.Spent, (DB.saveToken_ok hd).2]
      exact hs
    exact h.steps (DB.saveToken_ok hd).1 hspent rfl (by simp) fun g hg hne => hspent _ _ (hremembered hn g hg hne)
  | notSaved hn hd => exact h.steps rfl (fun _ _ => id) rfl (by simp) (by simp [Exchange.remembered])
  | delete hn hd =>
    obtain ⟨⟨a, ha⟩, rfl⟩ := DB.deleteAuthorizationCode_ok hd
    exact h.burn hlaws hn ha rfl rfl rfl
  | late hn hd => exact h.steps rfl (fun _ _ => id) rfl (by simp) fun g hg => hremembered hn g hg
  | check hc => exact h.goes_on rfl (fun _ _ => id) fun _ _ => .inl
  | store hn => exact h.stores (fun hscope hne => hfresh _ _ _ hn hscope hne) rfl rfl rfl
  | elsewhere hcodes hnonces =>
    refine h.goes_on hcodes (fun i nonce hs => ?_) fun _ _ => .inl
    rw [DB.Spent, hnonces]
    exact hs

/-- Two authorizations that are checked before either is stored, each followed by the exchange of its code. -/
theorem checked_together {db : DB} {user organization membership : Pk} {c : Client} {r : DB.AuthorizationRequest}
    (hc : db.checkAuthorization user organization r = .ok (membership, c)) {q q' : CodeRequest}
    {x y : DB × TokenResponse} :
    let d := ((db.saveAuthorizationCode membership c r).1.saveAuthorizationCode membership c r).1
    d.exchangeCode env q.clientId q.secret q.code q.redirectUri q.verifier = .ok x →
    x.1.exchangeCode env q'.clientId q'.secret q'.code q'.redirectUri q'.verifier = .ok y →
    ∃ f g t, d.findCode env q = .ok f ∧ x.1.findCode env q' = .ok g
      ∧ Run (EndpointStep env) ⟨db, .empty, .empty⟩
        ([.check user organization r, .check user organization r, .store 0, .store 1]
        ++ ([.post q, .note 0, .save 0, .delete 0] ++ [.post q', .note 1, .save 1, .delete 1])) t
      ∧ t.exchanges.row 0 = some (.answered f x.2) ∧ t.exchanges.row 1 = some (.answered g y.2) := by
  intro d hx hy
  let consents : Table Consent :=
    (((Table.empty.insert (.checked membership c r)).insert (.checked membership c r)).modify 0
    fun _ => .stored).modify 1 fun _ => .stored
  have hstored : Run (EndpointStep env) ⟨db, .empty, .empty⟩
    [.check user organization r, .check user organization r, .store 0, .store 1]
      ⟨d, .empty, consents⟩ :=
    .cons (.check hc) (.cons (.check hc) (.cons (.store (n := 0) rfl) (.single (.store (n := 1) rfl))))
  obtain ⟨f, s, hf, hfirst, hdb, hs, hothers, hnext⟩ := exchange_alone (s := ⟨d, .empty, consents⟩) (d := x.1)
    (x := x.2) (by simp [Table.empty]) hx
  have hnext : s.exchanges.next = 1 := hnext
  have hdone : ∀ m h q, s.exchanges.row m ≠ some (.saved h q) := by
    intro m h q hm
    by_cases hm0 : m = 0
    · subst hm0
      have hs : s.exchanges.row 0 = some (.answered f x.2) := hs
      rw [hs] at hm
      cases hm
    · rw [hothers m hm0] at hm
      cases hm
  obtain ⟨g, t, hg, hsecond, -, ht, hothers', -⟩ := exchange_alone (d := y.1) (x := y.2) hdone (hdb ▸ hy)
  rw [hnext] at hsecond ht hothers'
  refine ⟨f, g, t, hf, hdb ▸ hg,
    hstored.append ((hfirst.mono fun h => h.1).append (hsecond.mono fun h => h.1)), ?_, ht⟩
  rw [hothers' 0 (by decide)]
  exact hs

end Endpoints

open Endpoints

/-- In any interleaving in which each code for an id token is saved while its nonce is fresh, no nonce is
issued twice. -/
theorem nonce_once {env : Env} {s t : Endpoints} {events : List EndpointEvent} (hs : ∀ n, s.exchanges.row n = none)
    (hcodes : ∀ k, s.db.authorizationCodes.row k = none)
    (hrun : Run (fun s e t => EndpointStep env s e t ∧ s.StoresFresh env e) s events t) : t.NonceOnce env := by
  have hlaws : s.NonceLaws env := by
    refine ⟨fun j k a b i nonce _ ha => ?_, fun n x f hn => ?_, fun n i nonce k a _ _ ha => ?_,
      fun m n i nonce _ hm => ?_⟩
    · rw [hcodes] at ha
      cases ha
    · rw [hs] at hn
      cases hn
    · rw [hcodes] at ha
      cases ha
    · obtain ⟨f, r, hm, -⟩ := hm
      rw [hs] at hm
      cases hm
  have hboth := hrun.invariant
    (P := fun t : Endpoints => t.ExchangeLaws env s.db.authorizationCodes ∧ t.NonceLaws env)
    (fun h hst => ⟨h.1.step hst.1, h.2.step h.1 hst.1 hst.2⟩) ⟨.begin hs, hlaws⟩
  exact hboth.2.once

/-- The authorization of an app that wants an id token. -/
def nonceRequest : DB.AuthorizationRequest := ⟨.uuid 0, some "app://", ["openid"], plainVerifier, "S256", "n"⟩

/-- Two sign-ins, one inside the other: the second is checked, stored and its code found while the first
code is exchanged. -/
theorem nonce_once_signIn :
    let db := run plainEnv .empty (plainSetup [])
    ∃ t, Run (fun s e t => EndpointStep plainEnv s e t ∧ s.StoresFresh plainEnv e) ⟨db, .empty, .empty⟩
      [.check 0 0 nonceRequest, .store 0, .post signInCode, .note 0,
       .check 0 0 { nonceRequest with nonce := "m" }, .store 1,
        .save 0, .post otherCode, .delete 0, .note 1, .save 1, .delete 1] t
      ∧ t.IdToken plainEnv 0 (.uuid 0) "n" ∧ t.IdToken plainEnv 1 (.uuid 0) "m" ∧ t.NonceOnce plainEnv := by
  intro db
  have hrows : db.authorizationCodes.rows = [] := by decide +kernel
  let later : DB.AuthorizationRequest := { nonceRequest with nonce := "m" }
  have hok : (db.checkAuthorization 0 0 nonceRequest).toOption.any (fun a => !db.existsNonce a.2.clientId "n" &&
      ((db.saveAuthorizationCode a.1 a.2 nonceRequest).1.findCode plainEnv signInCode).toOption.any fun f =>
        let d := (db.saveAuthorizationCode a.1 a.2 nonceRequest).1.authenticateUser f
        (f.idToken plainEnv && f.item.clientId == .uuid 0 && f.item.nonce == "n")
        && (d.checkAuthorization 0 0 later).toOption.any fun b => !d.existsNonce b.2.clientId "m" &&
          ((d.saveAuthorizationCode b.1 b.2 later).1.saveToken plainEnv f).toOption.any fun x =>
            (x.1.findCode plainEnv otherCode).toOption.any fun g =>
              (g.idToken plainEnv && g.item.clientId == .uuid 0 && g.item.nonce == "m")
              && (x.1.deleteAuthorizationCode f.codePk).toOption.any fun e =>
                ((e.authenticateUser g).saveToken plainEnv g).toOption.any fun y =>
                  (y.1.deleteAuthorizationCode g.codePk).isOk) = true := by decide +kernel
  obtain ⟨a, ha, hok⟩ := exists_ok_and hok
  obtain ⟨hfresh, hok⟩ := (Bool.and_eq_true _ _).mp hok
  obtain ⟨f, hf, hok⟩ := exists_ok_and hok
  obtain ⟨hp, hok⟩ := (Bool.and_eq_true _ _).mp hok
  obtain ⟨b, hb, hok⟩ := exists_ok_and hok
  obtain ⟨hfresh', hok⟩ := (Bool.and_eq_true _ _).mp hok
  obtain ⟨⟨d, x⟩, hx, hok⟩ := exists_ok_and hok
  obtain ⟨g, hg, hok⟩ := exists_ok_and hok
  obtain ⟨hq, hok⟩ := (Bool.and_eq_true _ _).mp hok
  obtain ⟨e, he, hok⟩ := exists_ok_and hok
  obtain ⟨⟨d', y⟩, hy, hok⟩ := exists_ok_and hok
  obtain ⟨e', he'⟩ := exists_ok hok
  simp only [Bool.and_eq_true, beq_iff_eq] at hp hq
  have hrun : Run (fun s e t => EndpointStep plainEnv s e t ∧ s.StoresFresh plainEnv e) ⟨db, .empty, .empty⟩ _ _ :=
    .cons ⟨.check ha, trivial⟩
      (.cons ⟨.store (n := 0) rfl, fun membership c r hn _ _ => by cases hn; exact (Bool.not_eq_true' _).mp hfresh⟩
      (.cons ⟨.find hf, trivial⟩ (.cons ⟨.note (n := 0) (f := f) rfl, trivial⟩ (.cons ⟨.check hb, trivial⟩
      (.cons ⟨.store (n := 1) rfl,
        fun membership c r hn _ _ => by cases hn; exact (Bool.not_eq_true' _).mp hfresh'⟩
      (.cons ⟨.save (n := 0) (f := f) rfl hx, trivial⟩ (.cons ⟨.find hg, trivial⟩
      (.cons ⟨.delete (n := 0) (f := f) rfl he, trivial⟩ (.cons ⟨.note (n := 1) (f := g) rfl, trivial⟩
      (.cons ⟨.save (n := 1) (f := g) rfl hy, trivial⟩
        (.single ⟨.delete (n := 1) (f := g) rfl he', trivial⟩)))))))))))
  exact ⟨_, hrun, ⟨f, x, rfl, hp.1.1, hp.1.2, hp.2⟩, ⟨g, y, rfl, hq.1.1, hq.1.2, hq.2⟩,
    nonce_once (fun _ => rfl) (row_none_of_rows hrows) hrun⟩

/-- Two authorizations with the nonce are checked before either is stored. -/
theorem nonce_issued_twice :
    let db := run plainEnv .empty (plainSetup [])
    (∀ k, db.authorizationCodes.row k = none)
      ∧ ∃ events t, Run (EndpointStep plainEnv) ⟨db, .empty, .empty⟩ events t ∧ ¬ t.NonceOnce plainEnv := by
  intro db
  have hrows : db.authorizationCodes.rows = [] := by decide +kernel
  have hok : (db.checkAuthorization 0 0 nonceRequest).toOption.any (fun a =>
      let d := ((db.saveAuthorizationCode a.1 a.2 nonceRequest).1.saveAuthorizationCode a.1 a.2 nonceRequest).1
      let carries := fun f : FoundCode => f.idToken plainEnv && f.item.clientId == .uuid 0 && f.item.nonce == "n"
      (d.findCode plainEnv signInCode).toOption.any carries
      && (d.exchangeCode plainEnv signInCode.clientId signInCode.secret signInCode.code signInCode.redirectUri
        signInCode.verifier).toOption.any fun x => (x.1.findCode plainEnv otherCode).toOption.any carries
          && (x.1.exchangeCode plainEnv otherCode.clientId otherCode.secret otherCode.code otherCode.redirectUri
            otherCode.verifier).isOk) = true := by
    decide +kernel
  obtain ⟨a, ha, hok⟩ := exists_ok_and hok
  obtain ⟨hfirst, hok⟩ := (Bool.and_eq_true _ _).mp hok
  obtain ⟨x, hx, hok⟩ := exists_ok_and hok
  obtain ⟨hsecond, hok⟩ := (Bool.and_eq_true _ _).mp hok
  obtain ⟨y, hy⟩ := exists_ok hok
  obtain ⟨f, g, t, hf, hg, hrun, h0, h1⟩ := checked_together ha hx hy
  have htoken : ∀ {d : DB} {q : CodeRequest} {f : FoundCode}, d.findCode plainEnv q = .ok f →
      (d.findCode plainEnv q).toOption.any
        (fun f => f.idToken plainEnv && f.item.clientId == .uuid 0 && f.item.nonce == "n") = true →
      f.idToken plainEnv = true ∧ f.item.clientId = .uuid 0 ∧ f.item.nonce = "n" := by
    intro d q f hf hp
    rw [hf] at hp
    simpa [Except.toOption, and_assoc] using hp
  refine ⟨row_none_of_rows hrows, _, t, hrun, fun h => ?_⟩
  have hsame := h 0 1 (.uuid 0) "n" (by decide) ⟨f, x.2, h0, htoken hf hfirst⟩ ⟨g, y.2, h1, htoken hg hsecond⟩
  cases hsame

end Lok
