import Lok.ClientWrites

/-!
# Writes of the mandate functions

`issueMandate` inserts one mandate that satisfies `Issued`; `revokeMandate` withdraws a
mandate with its children before the clients go; a login fixes the pin it used. The
licence names the key hashes an action may issue.
-/

namespace Lok

open Table Runs Checks

namespace DB

variable {A : Licence} {db d : DB} {env : Env}

/-! ## Issuing -/

/-- The hash of the key a claimant proposes, or of the one lok mints for it. -/
def claimedHash (env : Env) (minted : String) : Claimant → Option String
  | .key proposed => some (env.hashKey (proposed.getD minted))
  | .agent .. => none

/-- What naming the claimant leaves of a mandate. -/
structure Claimed (db : DB) (env : Env) (minted : String) (claimant : Claimant) (m m' : Mandate) : Prop where
  same : ∃ c h p i dev mem att, m' = { m with claimant := c, keyHash := h, keyPrefix := p, agentIdentifier := i,
                                              agentDevice := dev, agentMembership := mem, attestation := att }
  key : m'.claimant = .key ↔ claimant.isKey = true
  keyHash : m.keyHash = none → m'.keyHash = claimedHash env minted claimant
  fresh : ∀ h, claimedHash env minted claimant = some h → ∀ pk n, db.mandates.row pk = some n → n.keyHash ≠ some h

theorem withClaimant_ok {m m' : Mandate} {minted : String} {claimant : Claimant} {key : Option String}
    (h : db.withClaimant env m minted claimant = .ok (d, m', key)) :
    (∃ t, d = { db with devices := t } ∧ (t = db.devices ∨ ∃ x, t = db.devices.insert x))
      ∧ Claimed db env minted claimant m m' := by
  cases claimant with
  | key proposed =>
    simp only [withClaimant, bind_ok, require_ok, exists_unit, pure_ok, Bool.not_eq_true', Prod.mk.injEq] at h
    obtain ⟨-, hfresh, rfl, rfl, -⟩ := h
    refine ⟨⟨_, rfl, .inl rfl⟩, ⟨_, _, _, _, _, _, _, rfl⟩, by simp [Claimant.isKey], fun _ => rfl, ?_⟩
    intro h hh pk n hn
    cases hh
    simpa using exists?_eq_false.mp hfresh pk n hn
  | agent identifier deviceId membership attestation =>
    simp only [withClaimant, bind_ok, exists_unit, pure_ok, Prod.mk.injEq] at h
    obtain ⟨-, rfl, rfl, -⟩ := h
    obtain ⟨t, ht, hdevices⟩ := deviceOf_eq db env deviceId m.organization
    refine ⟨⟨t, ht, hdevices⟩, ⟨_, _, _, _, _, _, _, rfl⟩, by simp [Claimant.isKey], ?_, ?_⟩
    · exact fun hnone => hnone
    · intro h hh
      cases hh

/-- What an issuer's policy establishes of a child mandate. -/
structure ChildPolicy (db : DB) (parent client grantor hub : Pk) (pin : MandatePin) (expiresAt : Option Time)
    (p : Mandate) (c : Client) : Prop where
  row : db.mandates.row parent = some p
  client : db.clients.row client = some c
  root : p.parent = none
  agent : p.claimant = .agent
  isAgent : assertIsAgent p c = .ok ()
  live : db.isLive p = true
  grantor : grantor = p.membership
  hub : hub = p.hub
  device : pin.deviceId.isSome = true
  pin : pin.Within p.pin
  expiry : ∀ t, p.expiresAt = some t → ∃ u, expiresAt = some u ∧ u ≤ t

theorem assertPolicy_agent {parent client grantor hub o : Pk} {pin : MandatePin} {claimant : Claimant}
    {expiresAt : Option Time}
    (h : db.assertPolicy (.agent parent client) grantor hub o pin claimant expiresAt = .ok ()) :
    claimant.isKey = true ∧ ∃ p c, ChildPolicy db parent client grantor hub pin expiresAt p c := by
  simp only [assertPolicy, bind_ok, Table.get_ok, require_ok, exists_unit, exceeds_ok, MandatePin.assertWithin_ok,
    Bool.and_eq_true, beq_iff_eq, Option.isNone_iff_eq_none] at h
  obtain ⟨p, hp, c, hc, hkey, hroot, hagent, hlive, ⟨hgrantor, hhub⟩, hdevice, hwithin, hexpiry, -⟩ := h
  have hclaimant : p.claimant = .agent := by
    simp only [assertIsAgent, bind_ok, require_ok, exists_unit, beq_iff_eq] at hagent
    exact hagent.1
  have hlive' : db.isLive p = true := by
    simp only [assertLive, bind_ok, require_ok, exists_unit] at hlive
    exact hlive.1
  refine ⟨hkey, p, c, hp, hc, hroot, hclaimant, hagent, hlive', hgrantor, hhub, hdevice, hwithin, fun t ht => ?_⟩
  rw [ht, Option.all_some] at hexpiry
  cases expiresAt with
  | none => simp at hexpiry
  | some u => exact ⟨u, rfl, by simpa using hexpiry⟩

theorem isLive_unrevoked {m : Mandate} (h : db.isLive m = true) : m.revokedAt = none := by
  unfold isLive at h
  split at h
  · cases h
  · rename_i hn
    simpa using hn

theorem assertLive_unrevoked {m : Mandate} (h : db.assertLive m = .ok ()) : m.revokedAt = none := by
  simp only [assertLive, bind_ok, require_ok, exists_unit] at h
  exact isLive_unrevoked h.1

theorem withIssuer_issued {m : Mandate} {issuer : Issuer} {grantor hub o : Pk} {pin : MandatePin}
    {claimant : Claimant}
    {expiresAt : Option Time} (hpolicy : db.assertPolicy issuer grantor hub o pin claimant expiresAt = .ok ())
    (hkey : m.claimant = .key ↔ claimant.isKey = true)
    (hm : m.parent = none ∧ m.hubRequest = none ∧ m.configName = none)
    (hgrantor : m.membership = grantor) (hhub : m.hub = hub) (hpin : m.pin = pin)
    (hexp : m.expiresAt = expiresAt) :
    ((withIssuer m issuer).claimant = .agent →
      (withIssuer m issuer).origin = .member ∨ (withIssuer m issuer).origin = .client)
      ∧ ((withIssuer m issuer).parent.isSome = true → (withIssuer m issuer).origin = .agent)
      ∧ ((withIssuer m issuer).hubRequest.isSome = true → (withIssuer m issuer).origin = .hub)
      ∧ ((withIssuer m issuer).configName.isSome = true → (withIssuer m issuer).origin = .config)
      ∧ ∀ p, (withIssuer m issuer).parent = some p →
        ∃ P, db.mandates.row p = some P ∧ (withIssuer m issuer).Under P ∧ P.revokedAt = none := by
  obtain ⟨hparent, hrequest, hname⟩ := hm
  cases issuer with
  | member g => simp [withIssuer, hparent, hrequest, hname]
  | client c => simp [withIssuer, hparent, hrequest, hname]
  | agent parent client =>
    obtain ⟨hk, p, c, hp⟩ := assertPolicy_agent hpolicy
    refine ⟨fun h => ?_, fun _ => rfl, by simp [withIssuer, hrequest], by simp [withIssuer, hname], ?_⟩
    · have : m.claimant = .key := hkey.mpr hk
      simp [withIssuer, this] at h
    · rintro q ⟨⟩
      exact ⟨p, hp.row, ⟨hp.agent, hp.root, hgrantor.trans hp.grantor, hhub.trans hp.hub,
        hexp ▸ hp.expiry, hpin ▸ hp.pin⟩,
        isLive_unrevoked hp.live⟩
  | hub h request =>
    refine ⟨fun h => ?_, by simp [withIssuer, hparent],
      fun _ => rfl, by simp [withIssuer, hname], by simp [withIssuer, hparent]⟩
    have hk : claimant.isKey = true := by
      simp only [assertPolicy] at hpolicy
      split at hpolicy
      · rfl
      · simp at hpolicy
    simp [withIssuer, hkey.mpr hk] at h
  | config name =>
    refine ⟨fun h => ?_, by simp [withIssuer, hparent], by simp [withIssuer, hrequest],
      fun _ => rfl, by simp [withIssuer, hparent]⟩
    have hk : claimant.isKey = true := by
      simp only [assertPolicy] at hpolicy
      split at hpolicy
      · rfl
      · simp at hpolicy
    simp [withIssuer, hkey.mpr hk] at h

/-- The mandate an issuer asks for, as it is saved. -/
structure Asked (db : DB) (env : Env) (issuer : Issuer) (grantor hub : Pk) (pin : MandatePin) (claimant : Claimant)
    (expiresAt : Option Time) (maxClients : Option Nat) (minted : String) (m : Mandate) : Prop where
  issued : Issued db m
  policy : ∃ o, db.assertPolicy issuer grantor hub o pin claimant expiresAt = .ok ()
  slots : db.assertSlots issuer = .ok ()
  membership : m.membership = grantor
  hub : m.hub = hub
  pin : m.pin = pin
  expiresAt : m.expiresAt = expiresAt
  maxClients : m.maxClients = maxClients
  keyHash : m.keyHash = claimedHash env minted claimant
  issuer : ∃ m₀ : Mandate, m₀.parent = none ∧ m₀.issuingClient = none ∧ m₀.hubRequest = none ∧ m₀.configName = none
    ∧ m = withIssuer m₀ issuer

/-- Everything about a successful `issueMandate`: besides a device, it adds the mandate asked for. -/
theorem issueMandate_ok {issuer : Issuer} {grantor hub : Pk} {pin : MandatePin} {claimant : Claimant}
    {expiresAt : Option Time} {maxClients : Option Nat} {allowMesh : Bool} {label minted : String}
    {r : DB × Pk × Option String}
    (h : db.issueMandate env issuer grantor hub pin claimant expiresAt maxClients allowMesh label minted = .ok r) :
    ∃ t m, Asked db env issuer grantor hub pin claimant expiresAt maxClients minted m
      ∧ r.1 = { db with devices := t, mandates := db.mandates.insert m } ∧ r.2.1 = db.mandates.next
      ∧ (t = db.devices ∨ ∃ x, t = db.devices.insert x) := by
  simp only [issueMandate, bind_ok, Table.get_ok, require_ok, exists_unit, pure_ok, beq_iff_eq, saveNewMandate,
    Prod.exists] at h
  obtain ⟨g, hg, o, ho, x, hx, horg, -, -, hslots, hpolicy, e, m, key, hclaim, e', ⟨-, -, rfl⟩, rfl⟩ := h
  obtain ⟨⟨t, rfl, ht⟩, hclaimed⟩ := withClaimant_ok hclaim
  obtain ⟨c, k, p, i, dev, mem, att, hm⟩ := hclaimed.same
  have hkey := hclaimed.keyHash rfl
  have hclaimant := hclaimed.key
  obtain ⟨hagents, hchild, hofHub, hofConfig, hparent⟩ := withIssuer_issued (m := m) hpolicy hclaimant
    (by simp [hm]) (by simp [hm]) (by simp [hm]) (by simp [hm]) (by simp [hm])
  have hrest : (withIssuer m issuer).membership = grantor ∧ (withIssuer m issuer).organization = g.organization
      ∧ (withIssuer m issuer).hub = hub ∧ (withIssuer m issuer).pin = pin
      ∧ (withIssuer m issuer).expiresAt = expiresAt
      ∧ (withIssuer m issuer).maxClients = maxClients ∧ (withIssuer m issuer).keyHash = m.keyHash
      ∧ (withIssuer m issuer).claimant = m.claimant ∧ (withIssuer m issuer).revokedAt = none := by
    cases issuer <;> simp [withIssuer, hm]
  obtain ⟨hgrantor, horganization, hhub, hpin, hexp, hmax, hhash, hwho, hrevoked⟩ := hrest
  refine ⟨t, withIssuer m issuer, ⟨⟨fun h hh => ?_, hrevoked, ⟨g, hgrantor ▸ hg, horganization.symm⟩,
    ⟨x, hhub ▸ hx, horg.trans horganization.symm⟩, ?_, hagents, hchild, hofHub, hofConfig, hparent⟩,
      ⟨_, hpolicy⟩, hslots,
    hgrantor, hhub, hpin, hexp, hmax, hhash.trans hkey, ⟨m, by simp [hm]⟩⟩, rfl, rfl, ht⟩
  · exact hclaimed.fresh h (hkey ▸ hhash ▸ hh)
  · rw [hhash, hwho, hclaimant, hkey]
    cases claimant <;> simp [claimedHash, Claimant.isKey]

theorem issueMandate_writes {issuer : Issuer} {grantor hub : Pk} {pin : MandatePin} {claimant : Claimant}
    {expiresAt : Option Time} {maxClients : Option Nat} {allowMesh : Bool} {label minted : String}
    {r : DB × Pk × Option String} (hA : ∀ h, claimedHash env minted claimant = some h → A.issue h)
    (h : db.issueMandate env issuer grantor hub pin claimant expiresAt maxClients allowMesh label minted = .ok r) :
    Writes A db r.1 := by
  obtain ⟨t, m, hasked, hr, -, hdevices⟩ := issueMandate_ok h
  rw [hr]
  refine (devices_writes hdevices).trans
    (Via.single (l := .issue m.keyHash) (.issue ?_) fun h hh => hA h (hasked.keyHash ▸ hh))
  obtain ⟨hfresh, hrevoked, hmembership, hhub, hkeyed, hagents, hchild, hofHub, hofConfig, hparent⟩ :=
    hasked.issued
  exact ⟨hfresh, hrevoked, hmembership, hhub, hkeyed, hagents, hchild, hofHub, hofConfig, hparent⟩

/-! ## Revoking -/

theorem revokeTokensOf_writes (clients : List Pk) : Writes A db (db.revokeTokensOf clients) :=
  Writes.quiet (.tokens (.updateWhere (fun _ t => ⟨t.revoked, rfl, id⟩) fun _ _ _ _ => ⟨true, rfl, fun _ => rfl⟩))

theorem deleteClients_writes (mandates : List Pk) : Writes A db (db.deleteClients mandates) :=
  (revokeTokensOf_writes _).trans Writes.delete

theorem mem_childrenOf {mandate k : Pk} :
    k ∈ db.childrenOf mandate ↔ ∃ m, db.mandates.row k = some m ∧ m.parent = some mandate := by
  simp [childrenOf, mem_pks]

theorem withdrawn_rewrites (db : DB) (mandate : Pk) (reason : MandateRevocation) {t : Table Mandate}
    (ht : ∀ pk m, t.row pk = some m → db.mandates.row pk = some m) :
    Rewrites (Withdrawn db.now mandate reason) t (t.update fun pk m =>
      if pk = mandate then revokeRow db.now reason m
      else if (db.childrenOf mandate).contains pk then revokeRow db.now .parentRevoked m else m) := by
  refine .update fun pk m hm => ?_
  unfold Withdrawn
  split
  · rfl
  · have hchild : (db.childrenOf mandate).contains pk = true ↔ m.parent = some mandate := by
      simp only [List.contains_eq_mem, decide_eq_true_eq, mem_childrenOf, ht pk m hm,
        Option.some.injEq, exists_eq_left']
    by_cases h : m.parent = some mandate
    · rw [if_pos (hchild.mpr h), if_pos h]
    · rw [if_neg fun hc => h (hchild.mp hc), if_neg h]

section

variable {f : Nat → Mandate → Mandate} (hf : ∀ k m, (f k m).hangsOn = m.hangsOn)
include hf

theorem collect_withdraw {roots : List Ref} :
    ({ db with mandates := db.mandates.update f } : DB).collect roots = db.collect roots := by
  have hhangs : ({ db with mandates := db.mandates.update f } : DB).hangsOn = db.hangsOn := by
    funext r
    obtain ⟨model, pk⟩ := r
    cases model with
    | mandate =>
      show ((db.mandates.update f).row pk).elim [] Mandate.hangsOn = (db.mandates.row pk).elim [] Mandate.hangsOn
      rw [update_row]
      cases db.mandates.row pk with
      | none => rfl
      | some m => exact hf pk m
    | _ => rfl
  unfold collect
  rw [hhangs]
  unfold refs
  rw [refsOf_update]

theorem delete_withdraw {d : DB} (clients : List Pk) :
    ({ d with mandates := d.mandates.update f } : DB).delete .client (clients.map fun c => ⟨.client, c⟩) none
      = { d.delete .client (clients.map fun c => ⟨.client, c⟩) none with
          mandates := (d.delete .client (clients.map fun c => ⟨.client, c⟩) none).mandates.update f } := by
  have hremove : ∀ gone, ({ d with mandates := d.mandates.update f } : DB).remove gone
      = { d.remove gone with mandates := (d.remove gone).mandates.update f } := fun gone => by
    simp only [remove, keep_update_comm]
  rw [delete_withClients (clientRefs_within clients), delete_withClients (clientRefs_within clients)]
  unfold losesAdmin removeCascade
  rw [collect_withdraw hf, hremove]
  rfl

theorem deleteClients_withdraw (mandates : List Pk) :
    ({ db with mandates := db.mandates.update f } : DB).deleteClients mandates
      = { db.deleteClients mandates with mandates := (db.deleteClients mandates).mandates.update f } :=
  delete_withdraw (d := db.revokeTokensOf (db.clients.pks fun _ c => c.mandate.any mandates.contains)) hf _

end

theorem revokeRow_hangsOn (now : Time) (reason : MandateRevocation) (m : Mandate) :
    (revokeRow now reason m).hangsOn = m.hangsOn := by
  unfold revokeRow
  split <;> rfl

theorem deleteClients_bare {mandates : List Pk} {k M : Pk} {c : Client}
    (hc : (db.deleteClients mandates).clients.row k = some c)
    (hM : c.mandate = some M) : M ∉ mandates := by
  intro hmem
  obtain ⟨c₀, hc₀, n, l, rfl⟩ := (delete_shrinks (db.revokeTokensOf _) .client _ none).clients.2 k c hc
  have hroot : (⟨.client, k⟩ : Ref) ∈ (db.clients.pks fun _ c => c.mandate.any mandates.contains).map
    fun c => ⟨.client, c⟩ := by
    refine List.mem_map.mpr ⟨k, mem_pks.mpr ⟨c₀, hc₀, ?_⟩, rfl⟩
    simp [show c₀.mandate = some M from hM, hmem]
  exact delete_not_has hroot ⟨_, hc⟩

theorem revokeMandate_writes {mandate : Pk} {reason : MandateRevocation}
    (h : db.revokeMandate mandate reason = .ok d) :
    Writes A db d := by
  simp only [revokeMandate, bind_ok, Table.get_ok, pure_ok] at h
  obtain ⟨m, -, rfl⟩ := h
  rw [deleteClients_withdraw fun pk m => by
    split
    · exact revokeRow_hangsOn _ _ m
    · split
      · exact revokeRow_hangsOn _ _ m
      · rfl]
  have hshrinks := delete_shrinks
    (db.revokeTokensOf (db.clients.pks fun _ c => c.mandate.any (mandate :: db.childrenOf mandate).contains))
    .client ((db.clients.pks fun _ c => c.mandate.any (mandate :: db.childrenOf mandate).contains).map
      fun c => ⟨.client, c⟩) none
  have hrows : ∀ pk m, (db.deleteClients (mandate :: db.childrenOf mandate)).mandates.row pk = some m →
      db.mandates.row pk = some m := fun pk m hm => by
    obtain ⟨m₀, hm₀, rfl⟩ := hshrinks.mandates.2 pk m hm
    exact hm₀
  have hnow : (db.deleteClients (mandate :: db.childrenOf mandate)).now = db.now := hshrinks.now
  have hwithdrawn := withdrawn_rewrites db mandate reason hrows
  have hbare : ∀ {k c M}, (db.deleteClients (mandate :: db.childrenOf mandate)).clients.row k = some c →
    c.mandate = some M →
      M ∉ mandate :: db.childrenOf mandate := deleteClients_bare
  refine (deleteClients_writes (mandate :: db.childrenOf mandate)).trans (Writes.quiet ?_)
  generalize db.deleteClients (mandate :: db.childrenOf mandate) = e at hrows hnow hwithdrawn hbare ⊢
  rw [← hnow] at hwithdrawn ⊢
  refine .withdraw hwithdrawn fun k c M m hc hM hm => ⟨fun heq => hbare hc hM (by simp [heq]), fun hparent => ?_⟩
  exact hbare hc hM (List.mem_cons_of_mem _ (mem_childrenOf.mpr ⟨m, hrows M m hm, hparent⟩))

theorem revokeEach_writes {reason : MandateRevocation} : ∀ {mandates : List Pk} {db : DB},
    Writes A db (revokeEach reason mandates db).1
  | [], db => .refl db
  | pk :: rest, db => by
    unfold revokeEach
    split
    · rename_i d' h
      exact (revokeMandate_writes h).trans revokeEach_writes
    · exact .refl db

theorem revokeIssuedBy_writes (clients : List Pk) : Writes A db (db.revokeIssuedBy clients).1 := revokeEach_writes

theorem revokeOrganizationMandates_writes (organization : Pk) :
    Writes A db (db.revokeOrganizationMandates organization).1 := revokeEach_writes

/-! ## Logging in -/

theorem foldl_newerMandate {l : List (Pk × Client)} : ∀ {best : Option (Pk × Client)} {r : Pk × Client},
    l.foldl newerMandate best = some r → r ∈ l ∨ best = some r := by
  induction l with
  | nil => exact fun h => .inr h
  | cons c l ih =>
    intro best r h
    rcases ih h with hr | hr
    · exact .inl (List.mem_cons_of_mem _ hr)
    · unfold newerMandate at hr
      split at hr
      · cases hr
        exact .inl (by simp)
      · split at hr <;> cases hr
        · exact .inl (by simp)
        · exact .inr rfl

theorem predecessorClient_some {pk node : Pk} {m : Mandate} {identifier : String} {r : Pk × Client}
    (h : db.predecessorClient pk m node identifier = some r) :
    db.clients.row r.1 = some r.2
      ∧ ∃ old o, r.2.mandate = some old ∧ db.mandates.row old = some o ∧ o.membership = m.membership := by
  obtain ⟨k, c⟩ := r
  rcases foldl_newerMandate h with hmem | hnone
  · obtain ⟨hrow, hp⟩ := mem_filter.mp hmem
    simp only [Bool.and_eq_true, Option.any_eq_true, beq_iff_eq, decide_eq_true_eq] at hp
    obtain ⟨-, old, hold, -, o, ho, ⟨hm, -⟩, -⟩ := hp
    exact ⟨hrow, old, o, hold, ho, hm⟩
  · cases hnone

/-- The client a login finds or makes is there, and of the mandate's grantor if it is anyone's. -/
theorem clientForLogin_ok {pk : Pk} {m : Mandate} {node : Option Pk} {request : MandateKeyGrantRequest}
    {r : DB × Pk × Client} (hE : A.enroll) (hrow : db.mandates.row pk = some m)
    (h : db.clientForLogin pk m node request = .ok r) :
    Writes A db r.1 ∧ r.1.mandates = db.mandates ∧ r.1.clients.row r.2.1 = some r.2.2
      ∧ (r.2.2.membership = none ∧ r.2.2.binding.keyed = true
        ∨ ∃ old o, r.2.2.mandate = some old ∧ db.mandates.row old = some o ∧ o.membership = m.membership) := by
  unfold clientForLogin at h
  split at h
  · rename_i c client hfirst
    obtain rfl := pure_ok.mp h
    obtain ⟨hc, hp⟩ := first_eq_some hfirst
    simp only [Bool.and_eq_true, beq_iff_eq] at hp
    exact ⟨.refl db, rfl, hc, .inr ⟨pk, m, hp.1, hrow, rfl⟩⟩
  · simp only [bind_ok, require_ok, exists_unit] at h
    obtain ⟨-, h⟩ := h
    split at h
    · rename_i c client hpred
      obtain rfl := pure_ok.mp h
      obtain ⟨n, -, hpred⟩ := Option.bind_eq_some_iff.mp hpred
      obtain ⟨hc, hbefore⟩ := predecessorClient_some hpred
      exact ⟨.refl db, rfl, hc, .inr hbefore⟩
    · simp only [bind_ok, Table.get_ok, pure_ok] at h
      obtain ⟨client, hc, rfl⟩ := h
      refine ⟨createPublicClient_writes hE _ _ _ _ (.inr rfl), rfl, hc, .inl ?_⟩
      simp only [createPublicClient, insert_row_next, Option.some.injEq] at hc
      rw [← hc]
      exact ⟨rfl, rfl⟩

theorem bindForLogin_writes {pk c : Pk} {m : Mandate} {client : Client} {request : MandateKeyGrantRequest}
    (hc : db.clients.row c = some client) (hm : db.mandates.row pk = some m)
    (hbefore : client.membership = none ∧ client.binding.keyed = true
      ∨ ∃ old o, client.mandate = some old ∧ db.mandates.row old = some o ∧ o.membership = m.membership)
    (hlive : m.revokedAt = none) (hA : A.login) (h : db.bindForLogin env pk m request c client = .ok d) :
    Writes A db d ∧ ∀ k x, d.mandates.row k = some x → ∃ x₀ c, db.mandates.row k = some x₀
      ∧ x = { x₀ with issuingClient := c } := by
  unfold bindForLogin at h
  split at h
  · exact bindClient_keyed_writes (c := { client with kind := request.kind, role := request.role }) hc rfl rfl hm
      hbefore hlive hA h
  · cases h
    exact ⟨.refl _, fun k x hx => ⟨x, x.issuingClient, hx, rfl⟩⟩

theorem bindForLogin_row {pk c : Pk} {m : Mandate} {client : Client} {request : MandateKeyGrantRequest}
    (hc : db.clients.row c = some client) (h : db.bindForLogin env pk m request c client = .ok d) :
    ∃ c', d.clients.row c = some c' ∧ c'.mandate = some pk := by
  unfold bindForLogin at h
  split at h
  · obtain ⟨c', _, hc', -, -, -, -, hmandate, -⟩ := bindClient_row h
    exact ⟨c', hc', hmandate⟩
  · rename_i hkept
    cases h
    simp only [mustBind, Bool.or_eq_true, not_or, bne_iff_ne, ne_eq, not_not] at hkept
    exact ⟨client, hc, hkept.1.1.1.2⟩

/-- What a successful login found: a live mandate of the key, whose pin covers the manifest. -/
structure Admitted (db : DB) (env : Env) (request : MandateKeyGrantRequest) (pk : Pk) (m : Mandate) : Prop where
  row : db.mandates.row pk = some m
  key : m.keyHash = some (env.hashKey request.key)
  live : db.assertLive m = .ok ()
  pin : (loginPin m.pin request.manifest).Covers request.manifest

theorem authenticateKey_ok {request : MandateKeyGrantRequest} {r : DB × Pk} (hE : A.enroll) (hA : A.login)
    (h : db.authenticateKey env request = .ok r) : Writes A db r.1 ∧ ∃ pk m c, Admitted db env request pk m
      ∧ r.1.clients.row r.2 = some c ∧ c.mandate = some pk
      ∧ ∀ x, r.1.mandates.row pk = some x →
      ∃ i pin t, x = { m with issuingClient := i, pin := pin, lastUsedAt := t } := by
  simp only [authenticateKey, bind_ok, found_ok, Table.get_ok, require_ok, exists_unit, pure_ok,
    MandatePin.check_ok, Prod.exists] at h
  obtain ⟨pk, m, hfirst, hlive, hpin, o, -, -, e, c, client, hclient, e', he', rfl⟩ := h
  obtain ⟨hm, hkey⟩ := first_eq_some hfirst
  simp only [beq_iff_eq] at hkey
  have hdevice : Writes A db (db.deviceOf env request.manifest.deviceId m.organization).1 := deviceOf_writes _ _ _
  have hmandates : (db.deviceOf env request.manifest.deviceId m.organization).1.mandates = db.mandates :=
    deviceOf_mandates _ _ _
  generalize db.deviceOf env request.manifest.deviceId m.organization = s at hclient hdevice hmandates
  obtain ⟨d, node⟩ := s
  dsimp only at hclient hdevice hmandates
  obtain ⟨hw, heq, hrow, hbefore⟩ := clientForLogin_ok hE (hmandates ▸ hm) hclient
  dsimp only at hw heq hrow hbefore
  have hbind := bindForLogin_writes hrow (heq ▸ hmandates ▸ hm) (heq ▸ hbefore) (assertLive_unrevoked hlive) hA he'
  have hsame : ∀ x, e'.mandates.row pk = some x → ∃ i, x = { m with issuingClient := i } := by
    intro x hx
    obtain ⟨x₀, i, hx₀, rfl⟩ := hbind.2 pk x hx
    rw [heq, hmandates, hm] at hx₀
    cases hx₀
    exact ⟨i, rfl⟩
  obtain ⟨c', hc', hmandate⟩ := bindForLogin_row hrow he'
  refine ⟨?_, pk, m, c', ⟨hm, hkey, hlive, hpin⟩, hc', hmandate, fun x hx => ?_⟩
  · refine hdevice.trans (hw.trans
      (hbind.1.trans (Writes.quiet (.logIn (.modify (fun _ _ => .inl rfl) fun x hx => ?_)))))
    obtain ⟨i, rfl⟩ := hsame x hx
    exact .inr ⟨by simp [hkey], request.manifest, _, rfl⟩
  · rcases modify_row_eq_some.mp hx with ⟨hne, -⟩ | ⟨-, y, hy, rfl⟩
    · exact absurd rfl hne
    · obtain ⟨i, rfl⟩ := hsame y hy
      exact ⟨i, _, _, rfl⟩

theorem authenticateKey_writes {request : MandateKeyGrantRequest} {r : DB × Pk} (hE : A.enroll) (hA : A.login)
    (h : db.authenticateKey env request = .ok r) : Writes A db r.1 :=
  (authenticateKey_ok hE hA h).1

end DB

end Lok
