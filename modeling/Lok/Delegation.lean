import Lok.MandateKeys

/-!
# What an app hands on

An app that issues a mandate is held to a ceiling: the scopes it holds, and the services of
the requirements in its manifest. Pins only narrow along the chain, and a login's manifest
lies within the pin of its key, so nothing down the chain exceeds the ceiling. The ceiling
itself names what the app asked for: a requirement that was declined, or had no instance,
is in it too. What is handed on is what the app was granted when the pin leaves such
requirements out.
-/

namespace Lok

open Table Runs Checks

namespace DB

variable {db d : DB} {l : Label} {env : Env}

/-- The services of the instances a client is mapped to. -/
def grantedServices (db : DB) (client : Pk) : List String :=
  (db.mappingsOf client).filterMap fun m => (db.instances.row m.instance_).map (·.service)

/-- The scopes a client stands for: those it holds, and what the catch-alls among them cover. -/
def heldScopes (db : DB) (c : Client) : List String := db.coveredScopes (c.scopes.filterMap db.scopes.row)

/-- What an app must satisfy to issue a mandate. -/
structure AppPolicy (db : DB) (client : Pk) (pin : MandatePin) (c : Client) : Prop where
  row : db.clients.row client = some c
  unchained : c.mandate = none
  closed : pin.isOpen = false
  within : pin.Within (db.clientCeiling c)

theorem assertPolicy_client {client grantor hub o : Pk} {pin : MandatePin} {claimant : Claimant}
    {expiresAt : Option Time}
    (h : db.assertPolicy (.client client) grantor hub o pin claimant expiresAt = .ok ()) :
    ∃ c, AppPolicy db client pin c := by
  simp only [assertPolicy, bind_ok, Table.get_ok, require_ok, exists_unit, exceeds_ok, MandatePin.assertWithin_ok,
    Option.isNone_iff_eq_none, Bool.not_eq_true'] at h
  obtain ⟨c, hc, hmandate, -, -, hopen, hwithin, -⟩ := h
  exact ⟨c, hc, hmandate, hopen, hwithin⟩

/-! ## The pin along a run -/

/-- The mandate `M` is gone, or an app's, with the pin it was issued with. -/
def Pinned (db : DB) (M : Pk) (pin : MandatePin) : Prop :=
  M < db.mandates.next ∧ ∀ q, db.mandates.row M = some q → q.origin = .client ∧ q.pin = pin

theorem Pinned.write {M : Pk} {pin : MandatePin} (h : db.Pinned M pin) (hclosed : pin.isOpen = false)
    (hlaws : db.MandateLaws)
    (hw : Write db l d) : d.Pinned M pin := by
  rcases mandates_later hlaws hw with hlater | ⟨n, -, -, hd⟩
  · refine ⟨hlater.1 ▸ h.1, fun q hq => ?_⟩
    obtain ⟨q₀, hq₀, hl⟩ := hlater.2 M q hq
    obtain ⟨horigin, hpin⟩ := h.2 q₀ hq₀
    refine ⟨hl.origin.trans horigin, ?_⟩
    rcases hl.pin with hother | hsame | ⟨-, hopen, -⟩
    · rw [horigin] at hother
      rcases hother with ho | ho <;> cases ho
    · exact hsame.trans hpin
    · rw [hpin, hclosed] at hopen
      cases hopen
  · refine ⟨by rw [hd]; exact Nat.lt_succ_of_lt h.1, fun q hq => h.2 q ?_⟩
    rw [hd, insert_row, if_neg (Nat.ne_of_lt h.1)] at hq
    exact hq

/-- What a login was let in with is covered by the pin of the app's mandate, its own or its parent's. -/
theorem covers_of_login {request : MandateKeyGrantRequest} {r : DB × Pk} {M pk : Pk} {m : Mandate}
    {pin : MandatePin}
    (hlaws : db.MandateLaws) (hkeys : db.KeysUnique) (hpin : db.Pinned M pin)
    (hauth : db.authenticateKey env request = .ok r) (hm : db.mandates.row pk = some m)
    (hkey : m.keyHash = some (env.hashKey request.key)) (hunder : pk = M ∨ m.parent = some M) :
    pin.Covers request.manifest := by
  obtain ⟨-, k, n, _, ⟨hn, hhash, -, hcovers⟩, -⟩ := authenticateKey_ok (A := .free) trivial trivial hauth
  obtain rfl := hkeys k pk n m _ hn hm hhash hkey
  obtain rfl : n = m := by simpa [hn] using hm
  have hwithin : n.pin.Within pin := by
    rcases hunder with rfl | hparent
    · rw [← (hpin.2 n hn).2]
      exact .refl _
    · obtain ⟨q, hq, hf⟩ := hlaws.parent k n M hn hparent
      rw [← (hpin.2 q hq).2]
      exact hf.1.pin
  unfold loginPin at hcovers
  split at hcovers
  · rename_i hopen
    exact (hwithin.fixedTo hopen _).covers hcovers
  · exact hwithin.covers hcovers

end DB

/-- A mandate an app issues, for a key or for an agent, and every key an agent issues under it, lets in only
manifests whose services the app was granted and whose scopes it holds or covers, when the pin names no
requirement of the app's manifest that was left without an instance. -/
theorem delegation_never_escalates {env : Env} {db d : DB} {client grantor hub pk : Pk} {c : Client}
    {pin : MandatePin}
    {claimant : Claimant} {expiresAt : Option Time} {maxClients : Option Nat} {allowMesh : Bool}
    {label minted : String}
    {issued : DB × Pk × Option String} {as : List Action} {request : MandateKeyGrantRequest} {m : Mandate}
    {r : DB × Pk} (hdb : Reachable env db) (hc : db.clients.row client = some c)
    (hissue : db.issueMandate env (.client client) grantor hub pin claimant expiresAt maxClients allowMesh label
      minted = .ok issued)
    (hgranted : ∀ q ∈ c.manifest.elim [] (·.requirements),
      (∃ services, pin.requiredServices = some services ∧ q.service ∈ services) →
      q.service ∈ db.grantedServices client)
    (hrun : Run (Step env) issued.1 as d) (hm : d.mandates.row pk = some m)
    (hkey : m.keyHash = some (env.hashKey request.key)) (hunder : pk = issued.2.1 ∨ m.parent = some issued.2.1)
    (hauth : d.authenticateKey env request = .ok r) :
    (∀ q ∈ request.manifest.requirements, q.service ∈ db.grantedServices client)
      ∧ ∀ s ∈ request.manifest.scopes, s ∈ baseOidcScopes ∨ s ∈ db.heldScopes c := by
  obtain ⟨t, n, hasked, hissued, hpk, -⟩ := DB.issueMandate_ok hissue
  obtain ⟨o, hpolicy⟩ := hasked.policy
  obtain ⟨c', hpolicy⟩ := DB.assertPolicy_client hpolicy
  obtain rfl : c' = c := by simpa [hc] using hpolicy.row.symm
  have hw : Writes .free db issued.1 := DB.issueMandate_writes (fun _ _ => trivial) hissue
  have hlaws : issued.1.MandateLaws ∧ issued.1.KeysUnique :=
    hw.invariant (I := fun u : DB => u.MandateLaws ∧ u.KeysUnique)
      (fun hI hw _ => ⟨hI.1.write hw, hI.2.write hI.1 hw⟩)
      ⟨hdb.mandateLaws, hdb.keysUnique⟩
  -- The mandate as it is saved, and in every state after it.
  have hpinned : issued.1.Pinned issued.2.1 pin := by
    rw [hissued, hpk]
    refine ⟨Nat.lt_succ_self _, fun q hq => ?_⟩
    obtain rfl : n = q := by simpa using hq
    obtain ⟨n₀, -, -, -, -, rfl⟩ := hasked.issuer
    exact ⟨rfl, hasked.pin⟩
  have hafter := run_invariant (P := fun u : DB => u.MandateLaws ∧ u.KeysUnique ∧ u.Pinned issued.2.1 pin)
    (fun hI hw => ⟨hI.1.write hw, hI.2.1.write hI.1 hw, hI.2.2.write hpolicy.closed hI.1 hw⟩) hrun
    ⟨hlaws.1, hlaws.2, hpinned⟩
  have hcovers := DB.covers_of_login hafter.1 hafter.2.1 hafter.2.2 hauth hm hkey hunder
  refine ⟨fun q hq => ?_, fun s hs => ?_⟩
  · -- The pin names the service, and the ceiling has it from a requirement of the app.
    obtain ⟨rs, hrs, hall⟩ := hpolicy.within.services _ rfl
    obtain ⟨p, hp, hpq⟩ := hcovers.services rs hrs q hq
    obtain ⟨x, hx, hxp⟩ := hall p hp
    obtain ⟨y, hy, rfl⟩ := List.mem_map.mp hx
    have hservice : y.service = q.service := hxp.trans hpq
    rw [← hservice]
    refine hgranted y hy ⟨rs.map (·.service), by simp [MandatePin.requiredServices, hrs], ?_⟩
    exact List.mem_map.mpr ⟨p, hp, hxp.symm⟩
  · obtain hheld | hbase := (hpolicy.within.covers hcovers).scopes _ rfl s hs
    · exact .inr (mem_sortedSet.mp hheld)
    · exact .inl hbase

/-- A worker that reads what it is let read. -/
def readerOf (service : String) : Manifest := ⟨"worker", "1", [], [⟨service, service, false⟩], none, ""⟩

/-- The app issues a key for a worker that needs one service. -/
def handOn (db : DB) (service : String) : Answer (DB × Pk × Option String) :=
  db.issueMandate plainEnv (.client 0) 0 0 (.fromManifest (readerOf service) false false)
    (.key (some plainKey)) (some 100) none
    false "" ""

def readerLogin (service : String) : MandateKeyGrantRequest :=
  ⟨plainKey, readerOf service, .desktop, .interface, false⟩

/-- An app that was granted everything hands on what it was granted. -/
theorem delegation_never_escalates_granted :
    ∃ r issued, handOn (run plainEnv .empty (plainSetup [])) "data" = .ok issued
      ∧ issued.1.authenticateKey plainEnv (readerLogin "data") = .ok r
      ∧ ∀ q ∈ (readerOf "data").requirements,
      q.service ∈ (run plainEnv .empty (plainSetup [])).grantedServices 0 := by
  have hdb := reachable_run plainEnv (plainSetup [])
  have hclient : ((run plainEnv .empty (plainSetup [])).clients.row 0).any
    (fun c => (c.manifest.elim [] (·.requirements)).all fun q =>
      ((run plainEnv .empty (plainSetup [])).grantedServices 0).contains q.service) = true := by decide +kernel
  have hissue : (handOn (run plainEnv .empty (plainSetup [])) "data").toOption.any (fun issued =>
      (issued.1.mandates.row issued.2.1).any (fun m => m.keyHash == some (plainEnv.hashKey plainKey))
        && (issued.1.authenticateKey plainEnv (readerLogin "data")).isOk) = true := by decide +kernel
  generalize run plainEnv .empty (plainSetup []) = db at hdb hclient hissue ⊢
  obtain ⟨c, hc, hgranted⟩ := (Option.any_eq_true _ _).mp hclient
  obtain ⟨issued, hissue, hp⟩ := exists_ok_and hissue
  simp only [Bool.and_eq_true, Option.any_eq_true, beq_iff_eq] at hp
  obtain ⟨⟨m, hm, hkey⟩, hauth⟩ := hp
  obtain ⟨r, hauth⟩ := exists_ok hauth
  refine ⟨r, issued, hissue, hauth, ?_⟩
  refine (delegation_never_escalates hdb hc hissue (fun q hq _ => ?_) (.nil _) hm hkey (.inl rfl) hauth).1
  simpa using List.all_eq_true.mp hgranted q hq

/-- An app that was declined a service hands on a key for it. -/
theorem declined_service_handed_on :
    ∃ c issued m r, (run plainEnv .empty (plainSetup ["mail"])).clients.row 0 = some c
      ∧ handOn (run plainEnv .empty (plainSetup ["mail"])) "mail" = .ok issued
      ∧ issued.1.mandates.row issued.2.1 = some m ∧ m.keyHash = some (plainEnv.hashKey plainKey)
      ∧ issued.1.authenticateKey plainEnv (readerLogin "mail") = .ok r
      ∧ ∃ q ∈ (readerOf "mail").requirements,
      q.service ∉ (run plainEnv .empty (plainSetup ["mail"])).grantedServices 0 := by
  have hclient : ((run plainEnv .empty (plainSetup ["mail"])).clients.row 0).isSome = true := by decide +kernel
  have hissue : (handOn (run plainEnv .empty (plainSetup ["mail"])) "mail").toOption.any (fun issued =>
      (issued.1.mandates.row issued.2.1).any (fun m => m.keyHash == some (plainEnv.hashKey plainKey))
        && (issued.1.authenticateKey plainEnv (readerLogin "mail")).isOk) = true := by decide +kernel
  have hnone : "mail" ∉ (run plainEnv .empty (plainSetup ["mail"])).grantedServices 0 := by decide +kernel
  generalize run plainEnv .empty (plainSetup ["mail"]) = db at hclient hissue hnone ⊢
  obtain ⟨c, hc⟩ := Option.isSome_iff_exists.mp hclient
  obtain ⟨issued, hissue, hp⟩ := exists_ok_and hissue
  simp only [Bool.and_eq_true, Option.any_eq_true, beq_iff_eq] at hp
  obtain ⟨⟨m, hm, hkey⟩, hauth⟩ := hp
  obtain ⟨r, hauth⟩ := exists_ok hauth
  exact ⟨c, issued, m, r, hc, hissue, hm, hkey, hauth, _, List.mem_singleton_self _, hnone⟩

end Lok
