import Lok.ForgottenKeys
import Mathlib.Data.List.Induction
import Mathlib.Data.List.Nodup

/-!
# The clients a hub asks for

Approving a hub goes through the client requests of its manifest one by one. A turn keeps the
request's live mandate, leaves the request out, or issues a mandate in place of the live one,
and no turn touches the mandates of another request. A request is left out when its key is on
file for some other mandate, also when it has a live one: that one keeps working under the
key the hub gave up.
-/

namespace Lok

open Table Checks

namespace DB

variable {env : Env} {db d s t e : DB} {hub grantor : Pk} {auth : Bool} {request : ClientRequest}

variable {k : Pk} {f : Mandate → Mandate}

/-- No mandate a hub asked for was issued under another one, or by an app. -/
def OwnMandates (db : DB) : Prop :=
  ∀ k m, db.mandates.row k = some m → m.origin = .hub → m.IsRoot

theorem Edits.own (h : Edits k f s t) (hs : s.OwnMandates) : t.OwnMandates := by
  intro j n hn ho
  obtain ⟨n₀, hn₀, horigin, hparent, hissuer, -⟩ := h.back j n hn
  obtain ⟨hroot, hroot'⟩ := hs j n₀ hn₀ (horigin ▸ ho)
  exact ⟨hparent.trans hroot, hissuer.trans hroot'⟩

theorem Edits.of_asked (h : Edits k f s t) (hs : s.OwnMandates) {j : Pk} {n : Mandate}
    (hn : t.mandates.row j = some n)
    (ho : n.origin = .hub) : ∃ n₀, s.mandates.row j = some n₀ ∧ n₀.origin = .hub
    ∧ n = if j = k then f n₀ else n₀ := by
  obtain ⟨n₀, hn₀, -, horigin, -, heq⟩ := h.isRoot_back hn (h.own hs j n hn ho)
  exact ⟨n₀, hn₀, horigin.trans ho, heq⟩

theorem Edits.asked (h : Edits k f s t) (hs : s.OwnMandates) {j : Pk} {n : Mandate}
    (hn : s.mandates.row j = some n)
    (ho : n.origin = .hub) : t.mandates.row j = some (if j = k then f n else n) :=
  h.roots j n hn (hs j n hn ho)

/-! ## Live mandates of a request -/

/-- A live mandate of the hub that answers this request. -/
structure LiveFor (db : DB) (hub : Pk) (identifier : String) (k : Pk) (m : Mandate) : Prop where
  row : db.mandates.row k = some m
  hub : m.hub = hub
  origin : m.origin = .hub
  unrevoked : m.revokedAt = none
  request : m.hubRequest = some identifier

def OneEach (db : DB) (hub : Pk) : Prop :=
  ∀ q j m k n, db.LiveFor hub q j m → db.LiveFor hub q k n → j = k

theorem LiveFor.current {q : String} {k : Pk} {m : Mandate} (hone : db.OneEach hub) (h : db.LiveFor hub q k m) :
    db.currentHubMandate hub q = some (k, m) := by
  refine first_of_unique h.row (by simp [h.hub, h.origin, h.unrevoked, h.request]) fun j n hn hp => ?_
  simp only [Bool.and_eq_true, beq_iff_eq, Option.isNone_iff_eq_none] at hp
  exact hone q j n k m ⟨hn, hp.1.1.1, hp.1.1.2, hp.2, hp.1.2⟩ h

theorem currentHubMandate_some {q : String} {k : Pk} {m : Mandate} (h : db.currentHubMandate hub q = some (k, m)) :
    db.LiveFor hub q k m := by
  obtain ⟨hrow, hp⟩ := first_eq_some h
  simp only [Bool.and_eq_true, beq_iff_eq, Option.isNone_iff_eq_none] at hp
  exact ⟨hrow, hp.1.1.1, hp.1.1.2, hp.2, hp.1.2⟩

theorem currentHubMandate_none {q : String} (h : db.currentHubMandate hub q = none) (k : Pk) (m : Mandate) :
    ¬ db.LiveFor hub q k m := by
  intro hlive
  have hp := first_eq_none.mp h k m hlive.row
  simp [hlive.hub, hlive.origin, hlive.unrevoked, hlive.request] at hp

theorem LiveFor.known {q hash : String} {k : Pk} {m : Mandate} (h : db.LiveFor hub q k m)
    (hkey : m.keyHash = some hash) :
    db.keyIsKnown hash = true :=
  keyIsKnown_iff.mpr ⟨k, m, h.row, hkey⟩

/-- The mandate is what its request asks for. -/
structure Answers (env : Env) (grantor : Pk) (auth : Bool) (request : ClientRequest) (m : Mandate) : Prop where
  identifier : m.hubRequest = some request.identifier
  key : m.keyHash = some (env.hashKey request.mandateKey)
  pin : m.pin = .fromManifest request.manifest false true
  grantor : m.membership = grantor
  allowMesh : m.allowMesh = auth

/-! ## One turn -/

/-- The request is left out: its key is on file, and not for a live mandate of its own. -/
structure LeftOut (db : DB) (env : Env) (hub : Pk) (request : ClientRequest) : Prop where
  known : db.keyIsKnown (env.hashKey request.mandateKey) = true
  other : ∀ k m, db.LiveFor hub request.identifier k m → m.keyHash ≠ some (env.hashKey request.mandateKey)

/-- What the turn of a request does to the hub's live mandates, and to the keys on file. -/
structure Turned (env : Env) (hub grantor : Pk) (auth : Bool) (request : ClientRequest) (s t : DB) : Prop where
  own : t.OwnMandates
  one : t.OneEach hub
  others : ∀ q, q ≠ request.identifier → ∀ k m, t.LiveFor hub q k m ↔ s.LiveFor hub q k m
  outcome : s.LeftOut env hub request ∧ t = s ∨
    ¬ s.LeftOut env hub request ∧ ∃ k m, t.LiveFor hub request.identifier k m ∧ Answers env grantor auth request m
  next : s.mandates.next ≤ t.mandates.next
  idle : t.mandates.next = s.mandates.next →
    s.keyIsKnown (env.hashKey request.mandateKey) = true ∧ ∀ x, t.keyIsKnown x = true → s.keyIsKnown x = true

theorem Edits.liveFor_of_ne (h : Edits k f s t) (hs : s.OwnMandates) {q : String} {j : Pk}
    {n : Mandate} (hj : j ≠ k) :
    t.LiveFor hub q j n ↔ s.LiveFor hub q j n := by
  constructor
  · intro hlive
    obtain ⟨n₀, hn₀, -, heq⟩ := h.of_asked hs hlive.row hlive.origin
    obtain rfl : n = n₀ := heq.trans (if_neg hj)
    exact ⟨hn₀, hlive.hub, hlive.origin, hlive.unrevoked, hlive.request⟩
  · intro hlive
    have hrow := h.asked hs hlive.row hlive.origin
    rw [if_neg hj] at hrow
    exact ⟨hrow, hlive.hub, hlive.origin, hlive.unrevoked, hlive.request⟩

theorem Edits.known (h : Edits k f s t) {x : String} (hx : t.keyIsKnown x = true) : s.keyIsKnown x = true := by
  obtain ⟨j, n, hn, hkey⟩ := keyIsKnown_iff.mp hx
  obtain ⟨n₀, hn₀, -, -, -, hsame⟩ := h.back j n hn
  exact keyIsKnown_iff.mpr ⟨j, n₀, hn₀, hsame ▸ hkey⟩

/-- What a kept mandate takes over from the request. -/
def takeOver (grantor : Pk) (auth : Bool) (request : ClientRequest) (m : Mandate) : Mandate :=
  { m with membership := grantor, pin := .fromManifest request.manifest false true, allowMesh := auth }

theorem keepHubMandate_edits {m : Mandate} :
    Edits k (takeOver grantor auth request) s (s.keepHubMandate k m grantor auth request) := by
  unfold keepHubMandate
  dsimp only
  split
  · exact modify_edits (delete_clients_roots s _) fun _ => ⟨rfl, rfl, rfl, rfl⟩
  · exact modify_edits (.refl s) fun _ => ⟨rfl, rfl, rfl, rfl⟩

theorem keepHubMandate_turned {m : Mandate} (hown : s.OwnMandates) (hone : s.OneEach hub)
    (hlive : s.LiveFor hub request.identifier k m) (hkey : m.keyHash = some (env.hashKey request.mandateKey)) :
    Turned env hub grantor auth request s (s.keepHubMandate k m grantor auth request) := by
  have hedits : Edits k (takeOver grantor auth request) s (s.keepHubMandate k m grantor auth request) :=
    keepHubMandate_edits
  generalize s.keepHubMandate k m grantor auth request = t at hedits
  have hback : ∀ q j n, t.LiveFor hub q j n → ∃ n₀, s.LiveFor hub q j n₀ := by
    intro q j n hn
    by_cases hj : j = k
    · obtain ⟨n₀, hn₀, ho, rfl⟩ := hedits.of_asked hown hn.row hn.origin
      rw [if_pos hj] at hn
      exact ⟨n₀, hn₀, hn.hub, ho, hn.unrevoked, hn.request⟩
    · exact ⟨n, (hedits.liveFor_of_ne hown hj).mp hn⟩
  have hafter : t.LiveFor hub request.identifier k (takeOver grantor auth request m) := by
    have hrow := hedits.asked hown hlive.row hlive.origin
    rw [if_pos rfl] at hrow
    exact ⟨hrow, hlive.hub, hlive.origin, hlive.unrevoked, hlive.request⟩
  refine ⟨hedits.own hown, ?_, ?_,
    .inr ⟨fun hleft => hleft.other k m hlive hkey, k, _, hafter, hlive.request, hkey, rfl, rfl, rfl⟩,
    hedits.next.ge, fun _ => ?_⟩
  · intro q j m k n hm hn
    obtain ⟨m₀, hm₀⟩ := hback q j m hm
    obtain ⟨n₀, hn₀⟩ := hback q k n hn
    exact hone q j m₀ k n₀ hm₀ hn₀
  · intro q hq j n
    by_cases hj : j = k
    · subst hj
      have hrequest : ∀ n', ¬ s.LiveFor hub q j n' := by
        intro n' hn'
        have hrow := hn'.row
        rw [hlive.row] at hrow
        cases hrow
        exact hq (Option.some.inj (hn'.request.symm.trans hlive.request))
      constructor
      · intro hn
        obtain ⟨n₀, hn₀⟩ := hback q j n hn
        exact absurd hn₀ (hrequest n₀)
      · intro hn
        exact absurd hn (hrequest n)
    · exact hedits.liveFor_of_ne hown hj
  · exact ⟨hlive.known hkey, fun x hx => hedits.known hx⟩

/-- `d` is `s` without a live mandate of the request. -/
structure Vacated (hub : Pk) (identifier : String) (s d : DB) : Prop where
  own : d.OwnMandates
  one : d.OneEach hub
  none : ∀ k m, ¬ d.LiveFor hub identifier k m
  others : ∀ q, q ≠ identifier → ∀ k m, d.LiveFor hub q k m ↔ s.LiveFor hub q k m
  next : d.mandates.next = s.mandates.next

theorem revokeMandate_vacated {m : Mandate} {reason : MandateRevocation} {identifier : String}
    (hown : s.OwnMandates)
    (hone : s.OneEach hub) (hlive : s.LiveFor hub identifier k m) (h : s.revokeMandate k reason = .ok d) :
    Vacated hub identifier s d := by
  have hedits := revokeMandate_edits h
  have hrevoked : ∀ q n, ¬ d.LiveFor hub q k n := by
    intro q n hn
    obtain ⟨n₀, -, -, heq⟩ := hedits.of_asked hown hn.row hn.origin
    obtain ⟨r, u, hrow, hr⟩ := revokeRow_same s.now reason n₀
    rw [if_pos rfl, hrow] at heq
    have hunrevoked := hn.unrevoked
    rw [heq] at hunrevoked
    exact absurd hr (by simp [show r = none from hunrevoked])
  have hback : ∀ q j n, d.LiveFor hub q j n → j ≠ k ∧ s.LiveFor hub q j n := by
    intro q j n hn
    have hj : j ≠ k := by
      intro hj
      exact hrevoked q n (hj ▸ hn)
    exact ⟨hj, (hedits.liveFor_of_ne hown hj).mp hn⟩
  refine ⟨hedits.own hown, ?_, ?_, ?_, hedits.next⟩
  · intro q j m k n hm hn
    exact hone q j m k n (hback q j m hm).2 (hback q k n hn).2
  · intro j n hn
    obtain ⟨hj, hn⟩ := hback _ j n hn
    exact hj (hone _ j n k m hn hlive)
  · intro q hq j n
    constructor
    · intro hn
      exact (hback q j n hn).2
    · intro hn
      refine (hedits.liveFor_of_ne hown fun hj => ?_).mpr hn
      subst hj
      have hrow := hn.row
      rw [hlive.row] at hrow
      cases hrow
      exact hq (Option.some.inj (hn.request.symm.trans hlive.request))

theorem issueMandate_allowMesh {issuer : Issuer} {pin : MandatePin} {claimant : Claimant} {expiresAt : Option Time}
    {maxClients : Option Nat} {label minted : String} {r : DB × Pk × Option String} {m : Mandate}
    (h : d.issueMandate env issuer grantor hub pin claimant expiresAt maxClients auth label minted = .ok r)
    (hm : r.1.mandates.row r.2.1 = some m) : m.allowMesh = auth := by
  simp only [issueMandate, bind_ok, Table.get_ok, require_ok, exists_unit, pure_ok, beq_iff_eq, saveNewMandate,
    Prod.exists] at h
  obtain ⟨g, -, o, -, x, -, -, -, -, -, -, e, n, key, hclaim, e', ⟨-, -, rfl⟩, rfl⟩ := h
  obtain ⟨-, hclaimed⟩ := withClaimant_ok hclaim
  obtain ⟨c, k, p, i, dev, mem, att, rfl⟩ := hclaimed.same
  obtain rfl := Option.some.inj ((insert_row_next _ _).symm.trans hm)
  cases issuer <;> rfl

theorem issueHubMandate_ok (h : d.issueHubMandate env hub grantor auth request = .ok t) :
    ∃ m, t.mandates = d.mandates.insert m ∧ t.clients = d.clients
    ∧ Answers env grantor auth request m ∧ m.hub = hub
      ∧ m.origin = .hub ∧ m.revokedAt = none ∧ m.parent = none ∧ m.issuingClient = none := by
  simp only [issueHubMandate, map_ok] at h
  obtain ⟨r, hr, rfl⟩ := h
  obtain ⟨devices, m, hasked, heq, hpk, -⟩ := issueMandate_ok hr
  obtain ⟨m₀, hparent, hissuer, -, -, hm⟩ := hasked.issuer
  refine ⟨m, by rw [heq], by rw [heq], ⟨by rw [hm]; rfl, hasked.keyHash, hasked.pin, hasked.membership, ?_⟩,
    hasked.hub, by rw [hm]; rfl,
    hasked.issued.unrevoked, ?_, ?_⟩
  · exact issueMandate_allowMesh hr (by rw [heq, hpk]; exact insert_row_next _ _)
  · rw [hm]
    exact hparent
  · rw [hm]
    exact hissuer

theorem issueHubMandate_turned (hd : Vacated hub request.identifier s d)
    (hunknown : s.keyIsKnown (env.hashKey request.mandateKey) = false)
    (h : d.issueHubMandate env hub grantor auth request = .ok t) : Turned env hub grantor auth request s t := by
  obtain ⟨m, hinsert, -, hanswers, hhub, horigin, hunrevoked, hparent, hissuer⟩ := issueHubMandate_ok h
  have hrow : ∀ j n, t.mandates.row j = some n ↔ j = d.mandates.next ∧ m = n ∨ d.mandates.row j = some n := by
    intro j n
    rw [hinsert]
    exact insert_row_eq_some
  have hlive : ∀ q j n, t.LiveFor hub q j n
    ↔ j = d.mandates.next ∧ m = n ∧ q = request.identifier ∨ d.LiveFor hub q j n := by
    intro q j n
    constructor
    · intro hn
      rcases (hrow j n).mp hn.row with ⟨hj, rfl⟩ | hold
      · exact .inl ⟨hj, rfl, Option.some.inj (hn.request.symm.trans hanswers.identifier)⟩
      · exact .inr ⟨hold, hn.hub, hn.origin, hn.unrevoked, hn.request⟩
    · intro hn
      rcases hn with ⟨hj, rfl, rfl⟩ | hn
      · exact ⟨(hrow j m).mpr (.inl ⟨hj, rfl⟩), hhub, horigin, hunrevoked, hanswers.identifier⟩
      · exact ⟨(hrow j n).mpr (.inr hn.row), hn.hub, hn.origin, hn.unrevoked, hn.request⟩
  have hissued : t.LiveFor hub request.identifier d.mandates.next m := (hlive _ _ _).mpr (.inl ⟨rfl, rfl, rfl⟩)
  have hnext : t.mandates.next = s.mandates.next + 1 := by rw [hinsert, insert_next, hd.next]
  refine ⟨?_, ?_, ?_, .inr ⟨fun hleft => by simp [hleft.known] at hunknown, _, m, hissued, hanswers⟩,
    by omega, fun h => by omega⟩
  · intro j n hn ho
    rcases (hrow j n).mp hn with ⟨-, rfl⟩ | hold
    · exact ⟨hparent, hissuer⟩
    · exact hd.own j n hold ho
  · intro q j n j' n' hn hn'
    rcases (hlive q j n).mp hn with ⟨hj, -, hq⟩ | hold
    · rcases (hlive q j' n').mp hn' with ⟨hj', -⟩ | hold'
      · exact hj.trans hj'.symm
      · exact absurd (hq ▸ hold') (hd.none j' n')
    · rcases (hlive q j' n').mp hn' with ⟨-, -, hq⟩ | hold'
      · exact absurd (hq ▸ hold) (hd.none j n)
      · exact hd.one q j n j' n' hold hold'
  · intro q hq j n
    rw [hlive, ← hd.others q hq]
    exact or_iff_right fun h => hq h.2.2

theorem Turned.leftOut (hown : s.OwnMandates) (hone : s.OneEach hub) (hleft : s.LeftOut env hub request) :
    Turned env hub grantor auth request s s :=
  ⟨hown, hone, fun _ _ _ _ => .rfl, .inl ⟨hleft, rfl⟩, Nat.le_refl _,
    fun _ => ⟨hleft.known, fun _ h => h⟩⟩

theorem ensureHubMandate_turned (hown : s.OwnMandates) (hone : s.OneEach hub)
    (h : ensureHubMandate env hub grantor auth s request = .ok t) : Turned env hub grantor auth request s t := by
  unfold ensureHubMandate at h
  cases hcurrent : s.currentHubMandate hub request.identifier with
  | none =>
    rw [hcurrent] at h
    have hnone := currentHubMandate_none hcurrent
    by_cases hknown : s.keyIsKnown (env.hashKey request.mandateKey) = true
    · rw [if_pos hknown] at h
      cases h
      exact .leftOut hown hone ⟨hknown, fun k m hlive => absurd hlive (hnone k m)⟩
    · rw [if_neg hknown] at h
      refine issueHubMandate_turned ?_ (by simpa using hknown) h
      exact ⟨hown, hone, hnone, fun _ _ _ _ => .rfl, rfl⟩
  | some r =>
    obtain ⟨k, m⟩ := r
    rw [hcurrent] at h
    dsimp only at h
    have hlive := currentHubMandate_some hcurrent
    by_cases hkey : (m.keyHash == some (env.hashKey request.mandateKey)) = true
    · rw [if_pos hkey] at h
      cases h
      exact keepHubMandate_turned hown hone hlive (beq_iff_eq.mp hkey)
    · rw [if_neg hkey] at h
      by_cases hknown : s.keyIsKnown (env.hashKey request.mandateKey) = true
      · rw [if_pos hknown] at h
        cases h
        refine .leftOut hown hone ⟨hknown, fun j n hn => ?_⟩
        obtain rfl := hone _ j n k m hn hlive
        have hrow := hn.row
        rw [hlive.row] at hrow
        cases hrow
        simpa using hkey
      · rw [if_neg hknown, bind_ok] at h
        obtain ⟨d, hd, h⟩ := h
        exact issueHubMandate_turned (revokeMandate_vacated hown hone hlive hd) (by simpa using hknown) h

/-! ## The loop -/

/-- What the turns of some requests do to the hub's other live mandates, and to the keys on file. -/
structure Looped (env : Env) (hub : Pk) (requests : List ClientRequest) (s t : DB) : Prop where
  own : t.OwnMandates
  one : t.OneEach hub
  others : ∀ q, (∀ r ∈ requests, q ≠ r.identifier) → ∀ k m, t.LiveFor hub q k m ↔ s.LiveFor hub q k m
  next : s.mandates.next ≤ t.mandates.next
  idle : t.mandates.next = s.mandates.next →
    (∀ r ∈ requests, s.keyIsKnown (env.hashKey r.mandateKey) = true)
      ∧ ∀ x, t.keyIsKnown x = true → s.keyIsKnown x = true

theorem ensureHubMandate_looped {requests : List ClientRequest} (hown : s.OwnMandates) (hone : s.OneEach hub)
    (h : requests.foldlM (ensureHubMandate env hub grantor auth) s = .ok t) : Looped env hub requests s t := by
  induction requests generalizing s with
  | nil =>
    cases h
    exact ⟨hown, hone, fun _ _ _ _ => .rfl, Nat.le_refl _, fun _ => ⟨by simp, fun _ hx => hx⟩⟩
  | cons r rest ih =>
    rw [List.foldlM_cons, bind_ok] at h
    obtain ⟨d, hd, h⟩ := h
    have hturn := ensureHubMandate_turned hown hone hd
    have hrest := ih hturn.own hturn.one h
    refine ⟨hrest.own, hrest.one, fun q hq k m => ?_, hturn.next.trans hrest.next, fun heq => ?_⟩
    · rw [hrest.others q fun r' hr' => hq r' (List.mem_cons_of_mem _ hr')]
      exact hturn.others q (hq r (by simp)) k m
    · have hle := hturn.next
      have hle' := hrest.next
      obtain ⟨hknown, hback⟩ := hturn.idle (by omega)
      obtain ⟨hall, hback'⟩ := hrest.idle (by omega)
      refine ⟨fun r' hr' => ?_, fun x hx => hback x (hback' x hx)⟩
      rcases List.mem_cons.mp hr' with rfl | hr'
      · exact hknown
      · exact hback _ (hall r' hr')

theorem foldlM_split {before after : List ClientRequest} {r : ClientRequest} {f : DB → ClientRequest → Answer DB}
    (h : (before ++ r :: after).foldlM f s = .ok t) :
    ∃ u v, before.foldlM f s = .ok u ∧ f u r = .ok v ∧ after.foldlM f v = .ok t := by
  rw [List.foldlM_append, bind_ok] at h
  obtain ⟨u, hu, h⟩ := h
  rw [List.foldlM_cons, bind_ok] at h
  obtain ⟨v, hv, h⟩ := h
  exact ⟨u, v, hu, hv, h⟩

theorem turn_of_split {before after : List ClientRequest} (hown : s.OwnMandates) (hone : s.OneEach hub)
    (hids : ((before ++ request :: after).map (·.identifier)).Nodup)
    (h : (before ++ request :: after).foldlM (ensureHubMandate env hub grantor auth) s = .ok t) :
    ∃ u v, before.foldlM (ensureHubMandate env hub grantor auth) s = .ok u
    ∧ Turned env hub grantor auth request u v ∧
      (∀ k m, u.LiveFor hub request.identifier k m ↔ s.LiveFor hub request.identifier k m) ∧
      ∀ k m, t.LiveFor hub request.identifier k m ↔ v.LiveFor hub request.identifier k m := by
  obtain ⟨u, v, hu, hv, hafter⟩ := foldlM_split h
  rw [List.map_append, List.map_cons, List.nodup_append] at hids
  obtain ⟨-, hids, hdisjoint⟩ := hids
  have hbefore := ensureHubMandate_looped hown hone hu
  have hturn := ensureHubMandate_turned hbefore.own hbefore.one hv
  have hrest := ensureHubMandate_looped hturn.own hturn.one hafter
  refine ⟨u, v, hu, hturn, hbefore.others _ fun r hr heq => ?_, hrest.others _ fun r hr heq => ?_⟩
  · exact hdisjoint _ (List.mem_map_of_mem hr) _ (by simp) heq.symm
  · exact (List.nodup_cons.mp hids).1 (heq ▸ List.mem_map_of_mem hr)

/-! ## The requests that were dropped -/

/-- Some mandates are withdrawn, and no other a hub asked for. -/
structure Withdraws (hub : Pk) (mandates : List Pk) (s t : DB) : Prop where
  own : t.OwnMandates
  live : ∀ q k m, t.LiveFor hub q k m ↔ s.LiveFor hub q k m ∧ k ∉ mandates
  asked : ∀ k m, t.mandates.row k = some m → m.origin = .hub → m.revokedAt = none →
    s.mandates.row k = some m ∧ k ∉ mandates
  next : t.mandates.next = s.mandates.next

theorem revokeMandate_withdraws {k : Pk} {reason : MandateRevocation} (hown : s.OwnMandates)
    (h : s.revokeMandate k reason = .ok t) : Withdraws hub [k] s t := by
  have hedits := revokeMandate_edits h
  have hasked : ∀ j n, t.mandates.row j = some n → n.origin = .hub → n.revokedAt = none →
    s.mandates.row j = some n ∧ j ∉ [k] := by
    intro j n hn ho hunrevoked
    obtain ⟨n₀, hn₀, -, heq⟩ := hedits.of_asked hown hn ho
    by_cases hj : j = k
    · obtain ⟨r, u, hrow, hr⟩ := revokeRow_same s.now reason n₀
      rw [if_pos hj, hrow] at heq
      rw [heq] at hunrevoked
      exact absurd hr (by simp [show r = none from hunrevoked])
    · rw [if_neg hj] at heq
      exact ⟨heq ▸ hn₀, by simpa using hj⟩
  refine ⟨hedits.own hown, fun q j n => ?_, hasked, hedits.next⟩
  constructor
  · intro hn
    obtain ⟨hrow, hj⟩ := hasked j n hn.row hn.origin hn.unrevoked
    exact ⟨⟨hrow, hn.hub, hn.origin, hn.unrevoked, hn.request⟩, hj⟩
  · intro hn
    obtain ⟨hn, hj⟩ := hn
    exact (hedits.liveFor_of_ne hown (by simpa using hj)).mpr hn

theorem revokeAll_withdraws {reason : MandateRevocation} {mandates : List Pk} (hown : s.OwnMandates)
    (h : s.revokeAll reason mandates = .ok t) : Withdraws hub mandates s t := by
  unfold revokeAll at h
  induction mandates generalizing s with
  | nil =>
    cases h
    exact ⟨hown, fun _ _ _ => by simp, fun _ _ hm _ _ => ⟨hm, by simp⟩, rfl⟩
  | cons k rest ih =>
    rw [List.foldlM_cons, bind_ok] at h
    obtain ⟨d, hd, h⟩ := h
    have hfirst : Withdraws hub [k] s d := revokeMandate_withdraws hown hd
    have hrest := ih hfirst.own h
    refine ⟨hrest.own, fun q j n => ?_, fun j n hn ho hunrevoked => ?_, hrest.next.trans hfirst.next⟩
    · rw [hrest.live, hfirst.live, List.mem_singleton, List.mem_cons, not_or, and_assoc]
    · obtain ⟨hd, hj⟩ := hrest.asked j n hn ho hunrevoked
      obtain ⟨hs, hk⟩ := hfirst.asked j n hd ho hunrevoked
      exact ⟨hs, by simpa using ⟨by simpa using hk, hj⟩⟩

/-! ## Which keys are on file -/

/-- A mandate, or one issued under it. -/
def OfFamily (db : DB) (k j : Pk) : Prop := j = k ∨ ∃ n, db.mandates.row j = some n ∧ n.parent = some k

/-- The turn of a request logs out the clients of these mandates: its live one goes to another grantor, or
gives way with those issued under it. -/
def LogsOut (db : DB) (env : Env) (hub grantor : Pk) (request : ClientRequest) (j : Pk) : Prop :=
  ∃ k m, db.LiveFor hub request.identifier k m ∧
    (m.keyHash = some (env.hashKey request.mandateKey) ∧ m.membership ≠ grantor ∧ j = k ∨
      m.keyHash ≠ some (env.hashKey request.mandateKey) ∧ db.OfFamily k j)

def LoggedOut (db : DB) (env : Env) (hub grantor : Pk) (requests : List ClientRequest) (j : Pk) : Prop :=
  ∃ r ∈ requests, db.LogsOut env hub grantor r j

/-- One of the requests takes the key: no mandate that is left when its turn comes has it. -/
def Taken (db : DB) (env : Env) (hub grantor : Pk) (requests : List ClientRequest) (x : String) : Prop :=
  ∃ b r a, requests = b ++ r :: a ∧ env.hashKey r.mandateKey = x ∧ ¬ db.OnFile (db.LoggedOut env hub grantor b) x

/-- The key is on file after the turns of these requests. -/
def KnownAfter (db : DB) (env : Env) (hub grantor : Pk) (requests : List ClientRequest) (x : String) : Prop :=
  db.OnFile (db.LoggedOut env hub grantor requests) x ∨ db.Taken env hub grantor requests x

/-- The live mandates of requests that are dropped, and those issued under them. -/
def Dropped (db : DB) (hub : Pk) (requests : List ClientRequest) (j : Pk) : Prop :=
  ∃ q k m, db.LiveFor hub q k m ∧ (∀ r ∈ requests, r.identifier ≠ q) ∧ db.OfFamily k j

section
variable {out : Pk → Prop} {issued : String → Prop}

theorem Tracks.grows_family (h : Tracks db out issued s) (k : Pk) :
    Grows db out (k :: s.childrenOf k) fun j => out j ∨ db.OfFamily k j := by
  refine ⟨fun _ => .inl, fun j hj => .inr ?_, fun j hj => ?_⟩
  · rcases List.mem_cons.mp hj with rfl | hj
    · exact .inl rfl
    · obtain ⟨n', hn', hparent⟩ := mem_childrenOf.mp hj
      rcases h.back j n' hn' with ⟨n, hn, -, hkept⟩ | hnew
      · exact .inr ⟨n, hn, hkept.parent ▸ hparent⟩
      · simp [hnew.root.1] at hparent
  · rcases hj with hout | rfl | ⟨n, hn, hparent⟩
    · exact .inl hout
    · exact .inr (.inl (List.mem_cons_self ..))
    · by_cases hfalls : db.Forgotten out j
      · exact .inr (.inr hfalls)
      · obtain ⟨n', hn', hkept⟩ := h.left j n hn hfalls
        exact .inr (.inl (List.mem_cons_of_mem _ (mem_childrenOf.mpr ⟨n', hn', hkept.parent.trans hparent⟩)))

theorem dropClientsOf_tracks (h : Tracks db out issued s) (k : Pk) :
    Tracks db (fun j => out j ∨ j = k) issued (s.dropClientsOf k) := by
  have hrefs : s.dropClientsOf k = s.delete .client (s.clientRefsOf [k]) none := by
    have hany : ∀ c : Client, c.mandate.any [k].contains = (c.mandate == some k) := by
      intro c
      cases c.mandate <;> simp [beq_eq_decide, eq_comm]
    simp only [dropClientsOf, clientRefsOf, hany]
  rw [hrefs]
  exact h.delete ⟨fun _ => .inl, by simp, fun j hj => hj.imp_right fun hjk => .inl (by simpa using hjk)⟩

theorem revokeAll_tracks {reason : MandateRevocation} {mandates : List Pk} (h : Tracks db out issued s)
    (hrevoked : s.revokeAll reason mandates = .ok t) :
    Tracks db (fun j => out j ∨ ∃ k ∈ mandates, db.OfFamily k j) issued t := by
  unfold revokeAll at hrevoked
  induction mandates generalizing s out with
  | nil =>
    cases hrevoked
    exact h.congr (by simp) fun _ => .rfl
  | cons k rest ih =>
    rw [List.foldlM_cons, bind_ok] at hrevoked
    obtain ⟨d, hd, hrevoked⟩ := hrevoked
    refine (ih (revokeMandate_tracks h (h.grows_family k) hd) hrevoked).congr (fun j => ?_) fun _ => .rfl
    simp [or_assoc]

/-- A turn, told from the state before the call, as long as no live mandate keeps a key its request gave up. -/
theorem ensureHubMandate_tracks (h : Tracks db out issued s)
    (hsame : ∀ k m, s.LiveFor hub request.identifier k m ↔ db.LiveFor hub request.identifier k m)
    (hone : s.OneEach hub)
    (hclear : s.keyIsKnown (env.hashKey request.mandateKey) = true →
      ∀ k m, db.LiveFor hub request.identifier k m → m.keyHash = some (env.hashKey request.mandateKey))
    (ht : ensureHubMandate env hub grantor auth s request = .ok t) :
    Tracks db (fun j => out j ∨ db.LogsOut env hub grantor request j)
      (fun x => issued x ∨ env.hashKey request.mandateKey = x ∧ s.keyIsKnown x = false) t := by
  have hissue : ∀ {out' d}, Tracks db out' issued d → s.keyIsKnown (env.hashKey request.mandateKey) = false →
      d.issueHubMandate env hub grantor auth request = .ok t →
      Tracks db out' (fun x => issued x ∨ env.hashKey request.mandateKey = x ∧ s.keyIsKnown x = false) t := by
    intro out' d hd hunknown hissued
    obtain ⟨m, hinsert, hclients, hanswers, -, -, -, hparent, hissuer⟩ := issueHubMandate_ok hissued
    refine (hd.insert ⟨hparent, hissuer⟩ (by simp [hanswers.identifier]) hanswers.key hinsert hclients).congr
      (fun _ => .rfl)
      fun x => or_congr_right ⟨fun hx => ⟨hx, hx ▸ hunknown⟩, And.left⟩
  have hnothing : s.keyIsKnown (env.hashKey request.mandateKey) = true →
      ∀ x, issued x ↔ issued x ∨ env.hashKey request.mandateKey = x ∧ s.keyIsKnown x = false := by
    intro hknown x
    refine ⟨.inl, fun hx => hx.elim id fun ⟨heq, hunknown⟩ => ?_⟩
    rw [← heq, hknown] at hunknown
    cases hunknown
  unfold ensureHubMandate at ht
  cases hcurrent : s.currentHubMandate hub request.identifier with
  | none =>
    rw [hcurrent] at ht
    have hnone : ∀ j, ¬ db.LogsOut env hub grantor request j := by
      rintro j ⟨k, m, hlive, -⟩
      exact currentHubMandate_none hcurrent k m ((hsame k m).mpr hlive)
    have hout := h.congr (fun j => (or_iff_left (hnone j)).symm) fun _ => .rfl
    by_cases hknown : s.keyIsKnown (env.hashKey request.mandateKey) = true
    · rw [if_pos hknown] at ht
      cases ht
      exact hout.congr (fun _ => .rfl) (hnothing hknown)
    · rw [if_neg hknown] at ht
      exact hissue hout (by simpa using hknown) ht
  | some r =>
    obtain ⟨k, m⟩ := r
    rw [hcurrent] at ht
    dsimp only at ht
    have hlive := currentHubMandate_some hcurrent
    have hlogsOut : ∀ j, db.LogsOut env hub grantor request j ↔
        m.keyHash = some (env.hashKey request.mandateKey) ∧ m.membership ≠ grantor ∧ j = k ∨
          m.keyHash ≠ some (env.hashKey request.mandateKey) ∧ db.OfFamily k j := by
      intro j
      refine ⟨?_, fun hj => ⟨k, m, (hsame k m).mp hlive, hj⟩⟩
      rintro ⟨k', m', hlive', hj⟩
      obtain rfl := hone _ k' m' k m ((hsame k' m').mpr hlive') hlive
      obtain rfl := Option.some.inj (hlive'.row.symm.trans ((hsame k' m).mp hlive).row)
      exact hj
    by_cases hkey : m.keyHash = some (env.hashKey request.mandateKey)
    · rw [if_pos (beq_iff_eq.mpr hkey)] at ht
      cases ht
      have hknown := hlive.known hkey
      have hedit : ∀ {d : DB} {out'}, Tracks db out' issued d → Tracks db out' issued
          { d with mandates := d.mandates.modify k (takeOver grantor auth request) } := by
        intro d out' hd
        refine hd.update fun j n => ?_
        split
        · exact ⟨rfl, rfl, rfl, rfl, rfl⟩
        · exact .refl n
      unfold keepHubMandate
      dsimp only
      split
      · rename_i hgrantor
        refine (hedit (dropClientsOf_tracks h k)).congr (fun j => or_congr_right ?_) (hnothing hknown)
        rw [hlogsOut]
        simp [hkey, show m.membership ≠ grantor by simpa using hgrantor]
      · rename_i hgrantor
        refine (hedit h).congr (fun j => (or_iff_left ?_).symm) (hnothing hknown)
        rw [hlogsOut]
        simp [hkey, show m.membership = grantor by simpa using hgrantor]
    · rw [if_neg (by simpa using hkey)] at ht
      by_cases hknown : s.keyIsKnown (env.hashKey request.mandateKey) = true
      · exact absurd (hclear hknown k m ((hsame k m).mp hlive)) hkey
      · rw [if_neg hknown, bind_ok] at ht
        obtain ⟨d, hd, ht⟩ := ht
        refine hissue ((revokeMandate_tracks h (h.grows_family k) hd).congr
          (fun j => or_congr_right ?_) fun _ => .rfl)
          (by simpa using hknown) ht
        rw [hlogsOut]
        simp [hkey]

end

theorem loggedOut_snoc {b : List ClientRequest} {r : ClientRequest} {j : Pk} :
    db.LoggedOut env hub grantor (b ++ [r]) j
    ↔ db.LoggedOut env hub grantor b j ∨ db.LogsOut env hub grantor r j := by
  simp [LoggedOut, or_and_right, exists_or]

theorem taken_snoc {b : List ClientRequest} {r : ClientRequest} {x : String} :
    db.Taken env hub grantor (b ++ [r]) x ↔ db.Taken env hub grantor b x ∨
      env.hashKey r.mandateKey = x ∧ ¬ db.OnFile (db.LoggedOut env hub grantor b) x := by
  constructor
  · rintro ⟨b', r', a, heq, hkey, hfree⟩
    rcases List.eq_nil_or_concat a with rfl | ⟨a, r'', rfl⟩
    · obtain ⟨rfl, hr⟩ := List.append_inj' heq rfl
      obtain rfl := List.singleton_inj.mp hr
      exact .inr ⟨hkey, hfree⟩
    · rw [List.concat_eq_append, ← List.cons_append, ← List.append_assoc] at heq
      obtain ⟨rfl, -⟩ := List.append_inj' heq rfl
      exact .inl ⟨b', r', a, rfl, hkey, hfree⟩
  · rintro (⟨b', r', a, rfl, hkey, hfree⟩ | ⟨hkey, hfree⟩)
    · exact ⟨b', r', a ++ [r], by simp, hkey, hfree⟩
    · exact ⟨b, r, [], rfl, hkey, hfree⟩

/-- The turns of some requests, none of which found its key on file beside a live mandate under another one. -/
theorem ensureHubMandate_loop_tracks {requests : List ClientRequest} (hown : db.OwnMandates)
    (hone : db.OneEach hub)
    (hids : (requests.map (·.identifier)).Nodup) (hclear : ∀ b r a, requests = b ++ r :: a →
      db.KnownAfter env hub grantor b (env.hashKey r.mandateKey) →
        ∀ k m, db.LiveFor hub r.identifier k m → m.keyHash = some (env.hashKey r.mandateKey))
    (h : requests.foldlM (ensureHubMandate env hub grantor auth) db = .ok t) :
    Tracks db (db.LoggedOut env hub grantor requests) (db.Taken env hub grantor requests) t := by
  induction requests using List.reverseRecOn generalizing t with
  | nil =>
    cases h
    exact (Tracks.refl db).congr (by simp [LoggedOut]) (by simp [Taken])
  | append_singleton b r ih =>
    rw [List.foldlM_append, bind_ok] at h
    obtain ⟨u, hu, h⟩ := h
    rw [List.foldlM_cons, bind_ok] at h
    obtain ⟨v, hv, h⟩ := h
    cases h
    rw [List.map_append, List.nodup_append] at hids
    obtain ⟨hids, -, hdisjoint⟩ := hids
    have htracks := ih hids (fun b' r' a heq => hclear b' r' (a ++ [r]) (by simp [heq])) hu
    have hlooped := ensureHubMandate_looped hown hone hu
    have hsame := hlooped.others r.identifier fun r' hr' heq =>
      hdisjoint _ (List.mem_map_of_mem hr') r.identifier (by simp) heq.symm
    have hturn := ensureHubMandate_tracks htracks hsame hlooped.one
      (fun hknown => hclear b r [] rfl (htracks.known.mp hknown)) hv
    refine hturn.congr (fun j => loggedOut_snoc.symm) fun x => ?_
    rw [taken_snoc]
    constructor
    · rintro (htaken | ⟨hkey, hunknown⟩)
      · exact .inl htaken
      · refine .inr ⟨hkey, fun hfile => ?_⟩
        rw [htracks.known.mpr (.inl hfile)] at hunknown
        cases hunknown
    · rintro (htaken | ⟨hkey, hfree⟩)
      · exact .inl htaken
      · by_cases hknown : u.keyIsKnown x = true
        · exact .inl ((htracks.known.mp hknown).resolve_left hfree)
        · exact .inr ⟨hkey, by simpa using hknown⟩

/-! ## What a hub is left with -/

/-- The constraints of the table, for the mandates a hub asked for. -/
structure Constrained (db : DB) : Prop where
  issuer : ∀ k m, db.mandates.row k = some m → m.origin = .hub →
    m.parent = none ∧ m.issuingClient = none ∧ m.hubRequest.isSome = true
  request : ∀ j m k n, db.mandates.row j = some m → db.mandates.row k = some n → m.hub = n.hub →
    m.hubRequest = n.hubRequest →
    m.hubRequest.isSome = true → m.revokedAt = none → n.revokedAt = none → j = k

theorem Constrained.own (h : db.Constrained) : db.OwnMandates := by
  intro k m hm ho
  obtain ⟨hparent, hissuer, -⟩ := h.issuer k m hm ho
  exact ⟨hparent, hissuer⟩

theorem Constrained.one (h : db.Constrained) : db.OneEach hub := by
  intro q j m k n hm hn
  exact h.request j m k n hm.row hn.row (hm.hub.trans hn.hub.symm) (hm.request.trans hn.request.symm)
    (by simp [hm.request])
    hm.unrevoked hn.unrevoked

/-- The hub's live mandates are what its manifest proposes, and stay so when it is approved again. -/
structure Proposed (env : Env) (hub : Pk) (manifest : HubManifest) (grantor : Pk) (db d : DB) : Prop where
  only : ∀ k m, d.mandates.row k = some m → m.hub = hub → m.origin = .hub → m.revokedAt = none →
    ∃ r ∈ manifest.clients, Answers env grantor manifest.requestAuthKey r m
  each : ∀ r ∈ manifest.clients, db.keyIsKnown (env.hashKey r.mandateKey) = false →
    ∃ k m, d.LiveFor hub r.identifier k m ∧ Answers env grantor manifest.requestAuthKey r m
  one : d.OneEach hub
  again : d.ensureHubMandates env hub manifest grantor = .ok d

/-- A key that is on file when the turn of its request comes was so before the call, and for the request's own live
mandate if it has one. -/
def KeysClear (env : Env) (hub : Pk) (manifest : HubManifest) (grantor : Pk) (db : DB) : Prop :=
  ∀ before r after, manifest.clients = before ++ r :: after →
    db.KnownAfter env hub grantor before (env.hashKey r.mandateKey) →
      db.keyIsKnown (env.hashKey r.mandateKey) = true ∧
        ∀ k m, db.LiveFor hub r.identifier k m → m.keyHash = some (env.hashKey r.mandateKey)

/-- No proposed key is forgotten with the clients that are logged out. -/
def KeysLeft (env : Env) (hub : Pk) (manifest : HubManifest) (grantor : Pk) (db : DB) : Prop :=
  ∀ r ∈ manifest.clients,
    db.OnFile (fun j => db.LoggedOut env hub grantor manifest.clients j ∨ db.Dropped hub manifest.clients j)
      (env.hashKey r.mandateKey) ∨
    db.Taken env hub grantor manifest.clients (env.hashKey r.mandateKey)

/-- `KeysClear`, told of the states the turns run through. -/
def TurnsClear (env : Env) (hub : Pk) (manifest : HubManifest) (grantor : Pk) (db : DB) : Prop :=
  ∀ before r after u, manifest.clients = before ++ r :: after →
    before.foldlM (ensureHubMandate env hub grantor manifest.requestAuthKey) db = .ok u →
    u.keyIsKnown (env.hashKey r.mandateKey) = true →
      db.keyIsKnown (env.hashKey r.mandateKey) = true ∧
        ∀ k m, db.LiveFor hub r.identifier k m → m.keyHash = some (env.hashKey r.mandateKey)

variable {manifest : HubManifest}

/-- The loop and the dropped requests, taken apart. -/
structure Ensured (env : Env) (hub : Pk) (manifest : HubManifest) (grantor : Pk) (db e d : DB) : Prop where
  loop : manifest.clients.foldlM (ensureHubMandate env hub grantor manifest.requestAuthKey) db = .ok e
  looped : Looped env hub manifest.clients db e
  own : d.OwnMandates
  next : d.mandates.next = e.mandates.next
  live : ∀ q k m, d.LiveFor hub q k m ↔ e.LiveFor hub q k m ∧ ∃ r ∈ manifest.clients, r.identifier = q
  asked : ∀ k m, d.mandates.row k = some m → m.hub = hub → m.origin = .hub → m.revokedAt = none →
    ∃ r ∈ manifest.clients, d.LiveFor hub r.identifier k m

theorem ensureHubMandates_ok (hown : db.OwnMandates) (hone : db.OneEach hub)
    (h : db.ensureHubMandates env hub manifest grantor = .ok d) :
    ∃ e, Ensured env hub manifest grantor db e d := by
  simp only [ensureHubMandates, bind_ok] at h
  obtain ⟨e, he, h⟩ := h
  have hlooped := ensureHubMandate_looped hown hone he
  have hdropped : Withdraws hub _ e d := revokeAll_withdraws hlooped.own h
  have hmem : ∀ q k m, e.LiveFor hub q k m →
    (k ∉ e.mandates.pks (fun _ m => m.hub == hub && m.origin == .hub && m.revokedAt.isNone
      && !manifest.clients.any fun r => m.hubRequest == some r.identifier)
        ↔ ∃ r ∈ manifest.clients, r.identifier = q) := by
    intro q k m hm
    rw [mem_pks]
    simp only [hm.row, hm.hub, hm.origin, hm.unrevoked, hm.request, Option.some.injEq,
      exists_eq_left', BEq.rfl, Bool.true_and,
      Option.isNone_none, Bool.not_eq_true', Bool.not_eq_false, List.any_eq_true, beq_iff_eq, eq_comm (a := q)]
  refine ⟨e, he, hlooped, hdropped.own, hdropped.next, fun q k m => ?_, fun k m hm hhub ho hunrevoked => ?_⟩
  · rw [hdropped.live]
    exact and_congr_right fun hlive => hmem q k m hlive
  · obtain ⟨hrow, hk⟩ := hdropped.asked k m hm ho hunrevoked
    have hany : ∃ r ∈ manifest.clients, m.hubRequest = some r.identifier := by
      simpa [mem_pks, hrow, hhub, ho, hunrevoked] using hk
    obtain ⟨r, hr, hrequest⟩ := hany
    exact ⟨r, hr, hm, hhub, ho, hunrevoked, hrequest⟩

theorem Ensured.one (h : Ensured env hub manifest grantor db e d) : d.OneEach hub := by
  intro q j m k n hm hn
  exact h.looped.one q j m k n ((h.live q j m).mp hm).1 ((h.live q k n).mp hn).1

theorem Ensured.turn (h : Ensured env hub manifest grantor db e d) (hown : db.OwnMandates) (hone : db.OneEach hub)
    (hids : (manifest.clients.map (·.identifier)).Nodup) {before after : List ClientRequest} {r : ClientRequest}
    (hsplit : manifest.clients = before ++ r :: after) :
    ∃ u v, before.foldlM (ensureHubMandate env hub grantor manifest.requestAuthKey) db = .ok u ∧
      Turned env hub grantor manifest.requestAuthKey r u v ∧
      (∀ k m, u.LiveFor hub r.identifier k m ↔ db.LiveFor hub r.identifier k m) ∧
      ∀ k m, d.LiveFor hub r.identifier k m ↔ v.LiveFor hub r.identifier k m := by
  have hloop := h.loop
  rw [hsplit] at hids hloop
  obtain ⟨u, v, hu, hturn, hbefore, hafter⟩ := turn_of_split hown hone hids hloop
  refine ⟨u, v, hu, hturn, hbefore, fun k m => ?_⟩
  rw [h.live, hafter]
  exact and_iff_left ⟨r, by simp [hsplit], rfl⟩

/-- A request that was not left out has its mandate, and one that was left out has what it had. -/
theorem Ensured.clear (h : Ensured env hub manifest grantor db e d) (hown : db.OwnMandates) (hone : db.OneEach hub)
    (hids : (manifest.clients.map (·.identifier)).Nodup) (hclear : TurnsClear env hub manifest grantor db)
    {r : ClientRequest}
    (hr : r ∈ manifest.clients) :
    (∃ k m, d.LiveFor hub r.identifier k m ∧ Answers env grantor manifest.requestAuthKey r m) ∨
      db.keyIsKnown (env.hashKey r.mandateKey) = true ∧ ∀ k m, ¬ d.LiveFor hub r.identifier k m := by
  obtain ⟨before, after, hsplit⟩ := List.append_of_mem hr
  obtain ⟨u, v, hu, hturn, hbefore, hafter⟩ := h.turn hown hone hids hsplit
  rcases hturn.outcome with ⟨hleft, rfl⟩ | ⟨-, k, m, hlive, hanswers⟩
  · obtain ⟨hknown, hsame⟩ := hclear before r after v hsplit hu hleft.known
    refine .inr ⟨hknown, fun k m hlive => ?_⟩
    rw [hafter] at hlive
    exact hleft.other k m hlive (hsame k m ((hbefore k m).mp hlive))
  · exact .inl ⟨k, m, (hafter k m).mpr hlive, hanswers⟩

theorem keepHubMandate_same {m : Mandate} (hm : db.mandates.row k = some m)
    (hanswers : Answers env grantor auth request m) :
    db.keepHubMandate k m grantor auth request = db := by
  have hrows : db.mandates.modify k (takeOver grantor auth request) = db.mandates := by
    refine Table.ext rfl fun j => ?_
    by_cases hj : j = k
    · subst hj
      rw [modify_row_self, hm, Option.map_some, takeOver, ← hanswers.grantor, ← hanswers.pin, ← hanswers.allowMesh]
    · exact modify_row_of_ne hj
  unfold keepHubMandate
  rw [hanswers.grantor, bne_self_eq_false]
  exact congrArg (fun t => { db with mandates := t }) hrows

theorem ensureHubMandate_same (hknown : db.keyIsKnown (env.hashKey request.mandateKey) = true)
    (hanswers : ∀ k m, db.LiveFor hub request.identifier k m → Answers env grantor auth request m) :
    ensureHubMandate env hub grantor auth db request = .ok db := by
  unfold ensureHubMandate
  cases hcurrent : db.currentHubMandate hub request.identifier with
  | none => exact if_pos hknown
  | some r =>
    obtain ⟨k, m⟩ := r
    have hlive := currentHubMandate_some hcurrent
    have hm := hanswers k m hlive
    dsimp only
    rw [if_pos (beq_iff_eq.mpr hm.key), keepHubMandate_same hlive.row hm]

theorem Ensured.again (h : Ensured env hub manifest grantor db e d)
    (hknown : ∀ r ∈ manifest.clients, d.keyIsKnown (env.hashKey r.mandateKey) = true)
    (hanswers : ∀ r ∈ manifest.clients,
      ∀ k m, d.LiveFor hub r.identifier k m → Answers env grantor manifest.requestAuthKey r m) :
    d.ensureHubMandates env hub manifest grantor = .ok d := by
  have hloop : ∀ requests ⊆ manifest.clients,
      requests.foldlM (ensureHubMandate env hub grantor manifest.requestAuthKey) d = .ok d := by
    intro requests hsub
    induction requests with
    | nil => rfl
    | cons r rest ih =>
      have hr := hsub (List.mem_cons_self ..)
      rw [List.foldlM_cons, ensureHubMandate_same (hknown r hr) (hanswers r hr)]
      exact ih fun _ hx => hsub (List.mem_cons_of_mem _ hx)
  have hdropped : d.mandates.pks (fun _ m => m.hub == hub && m.origin == .hub && m.revokedAt.isNone
      && !manifest.clients.any fun r => m.hubRequest == some r.identifier) = [] := by
    refine List.eq_nil_iff_forall_not_mem.mpr fun k hk => ?_
    obtain ⟨m, hm, hp⟩ := mem_pks.mp hk
    simp only [Bool.and_eq_true, beq_iff_eq, Option.isNone_iff_eq_none, Bool.not_eq_true', List.any_eq_false] at hp
    obtain ⟨⟨⟨hhub, ho⟩, hunrevoked⟩, hnone⟩ := hp
    obtain ⟨r, hr, hlive⟩ := h.asked k m hm hhub ho hunrevoked
    exact hnone r hr hlive.request
  rw [ensureHubMandates, hloop _ (List.Subset.refl _)]
  exact (congrArg (fun l => d.revokeAll .superseded l) hdropped).trans rfl

theorem proposed_iff_turnsClear (hdb : db.Constrained) (hids : (manifest.clients.map (·.identifier)).Nodup)
    (h : db.ensureHubMandates env hub manifest grantor = .ok d) :
    Proposed env hub manifest grantor db d ↔
      TurnsClear env hub manifest grantor db
      ∧ ∀ r ∈ manifest.clients, d.keyIsKnown (env.hashKey r.mandateKey) = true := by
  obtain ⟨e, he⟩ := ensureHubMandates_ok hdb.own hdb.one h
  have hsame : ∀ r ∈ manifest.clients, ∀ r' ∈ manifest.clients, r.identifier = r'.identifier → r = r' :=
    fun r hr r' hr' => List.inj_on_of_nodup_map hids hr hr'
  constructor
  · intro hproposed
    refine ⟨fun before r after u hsplit hu hknown => ?_, fun r hr => ?_⟩
    · have hr : r ∈ manifest.clients := by simp [hsplit]
      obtain ⟨u', v, hu', hturn, hbefore, hafter⟩ := he.turn hdb.own hdb.one hids hsplit
      obtain rfl : u = u' := by simpa [hu] using hu'
      have hkey : ∀ k m, db.LiveFor hub r.identifier k m → m.keyHash = some (env.hashKey r.mandateKey) := by
        intro k m hlive
        by_contra hkey
        have hleft : u.LeftOut env hub r := by
          refine ⟨hknown, fun j n hn => ?_⟩
          have hn := (hbefore j n).mp hn
          obtain rfl := hdb.one _ j n k m hn hlive
          have hrow := hn.row
          rw [hlive.row] at hrow
          cases hrow
          exact hkey
        rcases hturn.outcome with ⟨-, rfl⟩ | ⟨hnot, -⟩
        · have hd := (hafter k m).mpr ((hbefore k m).mpr hlive)
          obtain ⟨r', hr', hanswers⟩ := hproposed.only k m hd.row hd.hub hd.origin hd.unrevoked
          obtain rfl := hsame r hr r' hr' (Option.some.inj (hlive.request.symm.trans hanswers.identifier))
          exact hkey hanswers.key
        · exact hnot hleft
      refine ⟨?_, hkey⟩
      by_contra hnew
      obtain ⟨k, m, hlive, hanswers⟩ := hproposed.each r hr (by simpa using hnew)
      rcases hturn.outcome with ⟨hleft, rfl⟩ | ⟨hnot, -⟩
      · exact hleft.other k m ((hafter k m).mp hlive) hanswers.key
      · refine hnot ⟨hknown, fun j n hn hkey' => hnew ?_⟩
        exact ((hbefore j n).mp hn).known hkey'
    · obtain ⟨e', he'⟩ := ensureHubMandates_ok he.own he.one hproposed.again
      exact (he'.looped.idle he'.next.symm).1 r hr
  · intro hclear
    obtain ⟨hclear, hknown⟩ := hclear
    have hanswers : ∀ r ∈ manifest.clients, ∀ k m, d.LiveFor hub r.identifier k m →
        Answers env grantor manifest.requestAuthKey r m := by
      intro r hr k m hlive
      rcases he.clear hdb.own hdb.one hids hclear hr with ⟨j, n, hn, hanswers⟩ | ⟨-, hnone⟩
      · obtain rfl := he.one _ j n k m hn hlive
        have hrow := hn.row
        rw [hlive.row] at hrow
        cases hrow
        exact hanswers
      · exact absurd hlive (hnone k m)
    refine ⟨fun k m hm hhub ho hunrevoked => ?_, fun r hr hnew => ?_, he.one, he.again hknown hanswers⟩
    · obtain ⟨r, hr, hlive⟩ := he.asked k m hm hhub ho hunrevoked
      exact ⟨r, hr, hanswers r hr k m hlive⟩
    · rcases he.clear hdb.own hdb.one hids hclear hr with hlive | ⟨hknown, -⟩
      · exact hlive
      · rw [hnew] at hknown
        cases hknown

theorem ensured_prefix_tracks (hdb : db.Constrained) (hids : (manifest.clients.map (·.identifier)).Nodup)
    {before after : List ClientRequest} {u : DB} (hsplit : manifest.clients = before ++ after)
    (hclear : ∀ b r a, before = b ++ r :: a → db.KnownAfter env hub grantor b (env.hashKey r.mandateKey) →
      ∀ k m, db.LiveFor hub r.identifier k m → m.keyHash = some (env.hashKey r.mandateKey))
    (hu : before.foldlM (ensureHubMandate env hub grantor manifest.requestAuthKey) db = .ok u) :
    Tracks db (db.LoggedOut env hub grantor before) (db.Taken env hub grantor before) u := by
  rw [hsplit, List.map_append, List.nodup_append] at hids
  exact ensureHubMandate_loop_tracks hdb.own hdb.one hids.1 hclear hu

/-- The two readings agree: up to the first request that is not clear, the turns leave what the state before
tells. -/
theorem turnsClear_iff (hdb : db.Constrained) (hids : (manifest.clients.map (·.identifier)).Nodup)
    (h : manifest.clients.foldlM (ensureHubMandate env hub grantor manifest.requestAuthKey) db = .ok e) :
    TurnsClear env hub manifest grantor db ↔ KeysClear env hub manifest grantor db := by
  constructor
  · intro hturns before
    induction hlength : before.length using Nat.strong_induction_on generalizing before with
    | _ n ih =>
      intro r after hsplit hknown
      have hloop := h
      rw [hsplit] at hloop
      obtain ⟨u, -, hu, -⟩ := foldlM_split hloop
      have htracks := ensured_prefix_tracks hdb hids hsplit (fun b r' a heq hknown' => ?_) hu
      · exact hturns before r after u hsplit hu (htracks.known.mpr hknown)
      · have hshorter : b.length < n := by
          rw [← hlength, heq]
          simp
        exact (ih b.length hshorter b rfl r' (a ++ r :: after) (by simp [hsplit, heq]) hknown').2
  · intro hclear before r after u hsplit hu hknown
    have htracks := ensured_prefix_tracks hdb hids hsplit (fun b r' a heq hknown' =>
      (hclear b r' (a ++ r :: after) (by simp [hsplit, heq]) hknown').2) hu
    exact hclear before r after hsplit (htracks.known.mp hknown)

theorem ensureHubMandates_tracks (hdb : db.Constrained) (hids : (manifest.clients.map (·.identifier)).Nodup)
    (hclear : KeysClear env hub manifest grantor db) (h : db.ensureHubMandates env hub manifest grantor = .ok d) :
    Tracks db (fun j => db.LoggedOut env hub grantor manifest.clients j ∨ db.Dropped hub manifest.clients j)
      (db.Taken env hub grantor manifest.clients) d := by
  simp only [ensureHubMandates, bind_ok] at h
  obtain ⟨e, he, h⟩ := h
  have htracks := ensured_prefix_tracks hdb hids (List.append_nil _).symm
    (fun b r a heq hknown => (hclear b r a heq hknown).2) he
  have hlooped := ensureHubMandate_looped hdb.own hdb.one he
  -- A live mandate a hub asked for names its request, so the mandates that are withdrawn here were live before.
  have hnamed : ∀ k m, e.mandates.row k = some m → m.origin = .hub → m.hubRequest.isSome = true := by
    intro k m hm ho
    rcases htracks.back k m hm with ⟨n, hn, -, hkept⟩ | hnew
    · rw [hkept.request]
      exact (hdb.issuer k n hn (hkept.origin ▸ ho)).2.2
    · exact hnew.request
  refine (revokeAll_tracks htracks h).congr (fun j => or_congr_right ?_) fun _ => .rfl
  simp only [mem_pks, Bool.and_eq_true, beq_iff_eq, Option.isNone_iff_eq_none, Bool.not_eq_true',
    List.any_eq_false]
  constructor
  · rintro ⟨k, ⟨m, hm, ⟨⟨hhub, ho⟩, hunrevoked⟩, hnone⟩, hfamily⟩
    obtain ⟨q, hq⟩ := Option.isSome_iff_exists.mp (hnamed k m hm ho)
    have hother : ∀ r ∈ manifest.clients, r.identifier ≠ q := fun r hr heq => hnone r hr (by rw [hq, heq])
    have hlive := (hlooped.others q (fun r hr heq => hother r hr heq.symm) k m).mp ⟨hm, hhub, ho, hunrevoked, hq⟩
    exact ⟨q, k, m, hlive, hother, hfamily⟩
  · rintro ⟨q, k, m, hlive, hother, hfamily⟩
    have hlive := (hlooped.others q (fun r hr heq => hother r hr heq.symm) k m).mpr hlive
    refine ⟨k, ⟨m, hlive.row, ⟨⟨hlive.hub, hlive.origin⟩, hlive.unrevoked⟩, fun r hr heq => ?_⟩, hfamily⟩
    exact hother r hr (Option.some.inj (heq.symm.trans hlive.request))

/-- A hub's live mandates are exactly those its manifest proposes if and only if no key is on file at its
request's turn that was not before the call, or while the request's live mandate has another one, and no
proposed key is forgotten with the clients that are logged out. -/
theorem ensureHubMandates_proposed (hdb : db.Constrained) (hids : (manifest.clients.map (·.identifier)).Nodup)
    (h : db.ensureHubMandates env hub manifest grantor = .ok d) :
    Proposed env hub manifest grantor db d ↔
      KeysClear env hub manifest grantor db ∧ KeysLeft env hub manifest grantor db := by
  obtain ⟨e, he⟩ := ensureHubMandates_ok hdb.own hdb.one h
  rw [proposed_iff_turnsClear hdb hids h, turnsClear_iff hdb hids he.loop]
  refine and_congr_right fun hclear => forall₂_congr fun r _ => ?_
  exact (ensureHubMandates_tracks hdb hids hclear h).known

theorem constrained_of_rows
    (hissuer : ∀ r ∈ db.mandates.rows, r.2.origin = .hub →
      r.2.parent = none ∧ r.2.issuingClient = none ∧ r.2.hubRequest.isSome = true)
    (hrequest : ∀ r ∈ db.mandates.rows,
      ∀ x ∈ db.mandates.rows, r.2.hub = x.2.hub → r.2.hubRequest = x.2.hubRequest →
      r.2.hubRequest.isSome = true → r.2.revokedAt = none → x.2.revokedAt = none → r.1 = x.1) : db.Constrained :=
  ⟨fun _ _ hm => hissuer _ (mem_rows.mpr hm),
   fun _ _ _ _ hm hn => hrequest _ (mem_rows.mpr hm) _ (mem_rows.mpr hn)⟩

/-- The hub's worker, approved for the first time. -/
theorem ensureHubMandates_proposed_first :
    let db := run plainEnv .empty [.createUser "ann" [], .createOrganization "org" 0 false, .configureHub 0 keyedHub]
    ∃ d, db.ensureHubMandates plainEnv 0 keyedHub 0 = .ok d ∧ Proposed plainEnv 0 keyedHub 0 db d := by
  intro db
  have hnone : db.mandates.rows = [] := by decide +kernel
  have hfree : ∀ out x, ¬ db.OnFile out x := by
    rintro out x ⟨k, m, hm, -⟩
    simp [row_none_of_rows hnone] at hm
  have hensured : (db.ensureHubMandates plainEnv 0 keyedHub 0).toOption.any fun _ => true := by decide +kernel
  obtain ⟨d, hd, -⟩ := exists_ok_and hensured
  refine ⟨d, hd, (ensureHubMandates_proposed (constrained_of_rows (by simp [hnone]) (by simp [hnone]))
    (by simp [keyedHub])
    hd).mpr ⟨fun before r after hsplit hknown => ?_, fun r hr => ?_⟩⟩
  · cases before with
    | nil =>
      rcases hknown with hfile | ⟨b, r', a, heq, -⟩
      · exact absurd hfile (hfree _ _)
      · simp at heq
    | cons x xs => simp [keyedHub] at hsplit
  · obtain rfl : r = _ := by simpa [keyedHub] using hr
    exact .inr ⟨[], _, [], rfl, rfl, hfree _ _⟩

def otherKey : String := "another-example-of-a-mandate-key-of-lok"

def rekeyedHub : HubManifest := { plainHub with clients := [⟨"worker", none, plainWorker, otherKey⟩] }

/-- The hub goes back to its first key, which is revoked: the second one works on. -/
theorem key_given_up_still_live :
    let db := run plainEnv .empty [.createUser "ann" [], .createOrganization "org" 0 false, .configureHub 0 keyedHub,
      .configureHubMandates 0 keyedHub, .configureHubMandates 0 rekeyedHub]
    db.Constrained ∧ ∃ d,
      db.ensureHubMandates plainEnv 0 keyedHub 0 = .ok d ∧ ¬ Proposed plainEnv 0 keyedHub 0 db d := by
  intro db
  have hensured : (db.ensureHubMandates plainEnv 0 keyedHub 0).toOption.any (fun d => (d.mandates.row 1).any fun m =>
      m.hub == 0 && m.origin == .hub && m.revokedAt.isNone && m.keyHash != some (plainEnv.hashKey plainKey)) = true := by
    decide +kernel
  obtain ⟨d, hd, hrow⟩ := exists_ok_and hensured
  obtain ⟨m, hm, hlive⟩ := (Option.any_eq_true _ _).mp hrow
  simp only [Bool.and_eq_true, beq_iff_eq, Option.isNone_iff_eq_none, bne_iff_ne] at hlive
  obtain ⟨⟨⟨hhub, ho⟩, hunrevoked⟩, hkey⟩ := hlive
  refine ⟨constrained_of_rows (by decide +kernel) (by decide +kernel), d, hd, fun hproposed => ?_⟩
  obtain ⟨r, hr, hanswers⟩ := hproposed.only 1 m hm hhub ho hunrevoked
  obtain rfl : r = _ := by simpa [keyedHub] using hr
  exact hkey hanswers.key

end DB

end Lok
