import Lok.Calls
import Lok.Mesh
import Lok.Runs

/-!
# Calls that rotate one mesh key

An enrollment, or a hub, which is its own enrollment, has one key for its tag. A call that
rotates it loads the row, mints a new key at the control plane, stores it, and takes the
key it read back: separate steps on two systems, and nothing is locked in between. Keys
do not pile up as long as nobody stores a key between another call's reading and its storing.
-/

namespace Lok

open Table Runs

/-! ## The key of a tag, in the database and at the control plane -/

/-- What the tag is for: an app's enrollment, or a hub. -/
inductive Sidecar
  | app | hub
  deriving DecidableEq, Repr

/-- A key at the control plane: its tailnet, and its value. -/
abbrev PlaneKey := Pk × String

/-- The listing shows the part of the value before the underscore. -/
def publicPrefix (value : String) : List Char := value.toList.takeWhile (· != '_')

/-- Whether the listing cannot tell the keys apart. -/
def sameKey (a b : PlaneKey) : Bool := a.1 == b.1 && publicPrefix a.2 == publicPrefix b.2

def IonscaleAuthKey.onPlane (k : IonscaleAuthKey) : PlaneKey := (k.layer, k.key)

/-- What is stored of one enrollment, beside the keys the control plane holds for its tag. -/
structure MeshKeys where
  now : Time
  /-- The row, once it is there, with its `auth_key`. -/
  enrollment : Option (Option Pk)
  keys : Table IonscaleAuthKey
  plane : List PlaneKey

namespace MeshKeys

variable (s : MeshKeys)

def authKey : Option Pk := s.enrollment.join

/-- The key the row points at, as the control plane knows it. -/
def stored : List PlaneKey := (s.authKey.bind s.keys.row).toList.map (·.onPlane)

/-- `create_auth_key`, answered with this value. -/
def createAuthKey (layer : Pk) (value : String) : MeshKeys := { s with plane := s.plane ++ [(layer, value)] }

/-- `delete_auth_key`: the first key the listing shows under the prefix of this one. -/
def deleteAuthKey (k : IonscaleAuthKey) : MeshKeys := { s with plane := s.plane.eraseP (sameKey k.onPlane) }

/-- The row of a key is deleted; whatever points at it points at none. -/
def deleteRow (pk : Pk) : MeshKeys :=
  { s with
    keys := s.keys.keep fun k _ => k != pk,
    enrollment := s.enrollment.map fun key => if key = some pk then none else key }

end MeshKeys

/-! ## A call, statement by statement -/

/-- How far a call has come. A key that was read stays with the call, as an object, from then on. -/
inductive Call
  -- `renew_mesh_key` has loaded the row
  | renewing (current : Option Pk)
  | entered
  | loaded (previous : Option Pk) (object : Option IonscaleAuthKey)
  | minted (previous : Option Pk) (object : Option IonscaleAuthKey) (layer : Pk) (value : String)
  | recorded (previous : Option Pk) (object : Option IonscaleAuthKey) (key : Pk × IonscaleAuthKey)
  | fetched (previous : Option (Pk × IonscaleAuthKey)) (key : Pk × IonscaleAuthKey)
  | saved (previous : Pk × IonscaleAuthKey)
  | revoked (previous : Pk)
  deriving DecidableEq

inductive CallEvent
  | check (online : Bool)
  | load
  | noMesh
  | mint (layer : Pk) (value : String)
  | mintFails
  | proceed
  deriving DecidableEq

/-- The checks of `renew_mesh_key` on the current key. A hub is passed on as it was loaded, with its key. -/
def MeshKeys.checkRenewal (s : MeshKeys) (sidecar : Sidecar) (current : Option Pk) (online : Bool) : Option Call :=
  match current with
  | none => if online then none else some .entered
  | some pk =>
    -- a key that was deleted meanwhile does not exist
    match s.keys.row pk with
    | none => none
    | some k =>
      if s.now < k.createdAt + meshKeyRenewalIntervalSeconds || online then none
      else match sidecar with
        | .app => some .entered
        | .hub => some (.loaded current (some k))

/-- The next statement of `renew_mesh_key`, `enroll_app_on_mesh` or `enroll_hub_on_mesh`, and where the call
is after it, if it has not ended. The control plane never issues a key it could not tell from one it holds.
-/
def Call.advance (sidecar : Sidecar) (s : MeshKeys) : Call → CallEvent → Option (MeshKeys × Option Call)
  | .renewing current, .check online => some (s, s.checkRenewal sidecar current online)
  -- `get_or_create`
  | .entered, .load => some ({ s with enrollment := some s.authKey }, some (.loaded s.authKey none))
  | .entered, .noMesh => some (s, none)
  | .loaded _ _, .noMesh => some (s, none)
  | .loaded _ _, .mintFails => some (s, none)
  | .loaded previous object, .mint layer value =>
    if s.plane.any (sameKey (layer, value)) then none
    else some (s.createAuthKey layer value, some (.minted previous object layer value))
  | .minted previous object layer value, .proceed =>
    let key : IonscaleAuthKey := ⟨s.now, layer, value⟩
    some ({ s with keys := s.keys.insert key }, some (.recorded previous object (s.keys.next, key)))
  -- `enrollment.auth_key`, fetched unless it was before
  | .recorded none _ key, .proceed => some (s, some (.fetched none key))
  | .recorded (some pk) object key, .proceed =>
    some (s, (object.or (s.keys.row pk)).map fun k => .fetched (some (pk, k)) key)
  | .fetched previous key, .proceed => some ({ s with enrollment := some (some key.1) }, previous.map .saved)
  | .saved previous, .proceed => some (s.deleteAuthKey previous.2, some (.revoked previous.1))
  | .revoked previous, .proceed => some (s.deleteRow previous, none)
  | _, _ => none

/-! ## Calls, interleaved -/

structure KeyState where
  store : MeshKeys
  calls : List Call
  /-- How many keys were minted. -/
  minted : Nat

inductive KeyEvent
  | tick (seconds : Time)
  | enroll
  | renew
  | call (n : Nat) (e : CallEvent)

def CallEvent.mints : CallEvent → Nat
  | .mint _ _ => 1
  | _ => 0

/-- One step: time passes, a call begins, or one of those under way goes on. A renewal begins for a row that
is there, and for a hub that has a key. -/
def KeyState.step (sidecar : Sidecar) (s : KeyState) : KeyEvent → Option KeyState
  | .tick seconds => some { s with store := { s.store with now := s.store.now + seconds } }
  | .enroll => some { s with calls := s.calls ++ [.entered] }
  | .renew =>
    (s.store.enrollment.filter fun current => sidecar == .app || current.isSome).map fun current =>
      { s with calls := s.calls ++ [.renewing current] }
  | .call n e => do
    let c ← s.calls[n]?
    let (store, next) ← c.advance sidecar s.store e
    return ⟨store, match next with | some c => s.calls.set n c | none => s.calls.eraseIdx n, s.minted + e.mints⟩

/-- The row still points at the key the call read, when the call looks that key up and when it stores its own. -/
def Call.fresh (s : MeshKeys) : Call → Bool
  | .recorded previous _ _ => s.authKey == previous
  | .fetched previous _ => s.authKey == previous.map (·.1)
  | _ => true

def KeyEvent.fresh (s : KeyState) : KeyEvent → Bool
  | .call n _ => (s.calls[n]?).all (·.fresh s.store)
  | _ => true

def KeyStep (sidecar : Sidecar) (s : KeyState) (e : KeyEvent) (t : KeyState) : Prop := s.step sidecar e = some t

def FreshStep (sidecar : Sidecar) (s : KeyState) (e : KeyEvent) (t : KeyState) : Prop :=
  e.fresh s = true ∧ KeyStep sidecar s e t

/-- Nothing is under way, and the control plane holds the key the row points at, and no other. -/
structure KeyState.Settled (s : KeyState) : Prop where
  calls : s.calls = []
  plane : s.store.plane = s.store.stored
  known : ∀ pk, s.store.authKey = some pk → ∃ k, s.store.keys.row pk = some k

/-! ## Who holds which key -/

namespace Call

/-- The keys the call minted and has not stored, or read and has not taken back. -/
def held : Call → List PlaneKey
  | .minted _ _ layer value => [(layer, value)]
  | .recorded _ _ key => [key.2.onPlane]
  | .fetched _ key => [key.2.onPlane]
  | .saved previous => [previous.2.onPlane]
  | _ => []

/-- Their rows, as far as there are any. -/
def rows : Call → List Pk
  | .recorded _ _ key => [key.1]
  | .fetched _ key => [key.1]
  | .saved previous => [previous.1]
  | .revoked previous => [previous]
  | _ => []

def objects : Call → List (Pk × IonscaleAuthKey)
  | .loaded previous object => (previous.bind fun pk => object.map (pk, ·)).toList
  | .minted previous object _ _ => (previous.bind fun pk => object.map (pk, ·)).toList
  | .recorded previous object key => key :: (previous.bind fun pk => object.map (pk, ·)).toList
  | .fetched previous key => key :: previous.toList
  | .saved previous => [previous]
  | _ => []

/-- The call has minted a key, and not stored it. -/
def pending : Call → Bool
  | .minted _ _ _ _ | .recorded _ _ _ | .fetched _ _ => true
  | _ => false

end Call

/-- Every key at the control plane is held by the row or by one call, and every key row by one of them at most. -/
structure MeshKeys.Sound (s : MeshKeys) (calls : List Call) : Prop where
  held : s.plane.Perm (s.stored ++ calls.flatMap Call.held)
  distinct : s.plane.Pairwise fun a b => sameKey a b = false
  rows : (s.authKey.toList ++ calls.flatMap Call.rows).Nodup
  known : ∀ pk ∈ s.authKey.toList ++ calls.flatMap Call.rows, ∃ k, s.keys.row pk = some k
  objects : ∀ c ∈ calls, ∀ o ∈ c.objects, o.1 < s.keys.next ∧ ∀ k, s.keys.row o.1 = some k → k = o.2

namespace MeshKeys

variable {s t : MeshKeys} {calls rest : List Call} {c : Call} {e : CallEvent} {next : Option Call}
  {sidecar : Sidecar}

theorem Sound.perm (h : s.Sound calls) {calls' : List Call} (hp : calls.Perm calls') : s.Sound calls' where
  held := h.held.trans ((hp.flatMap_right Call.held).append_left _)
  distinct := h.distinct
  rows := ((hp.flatMap_right Call.rows).append_left _).nodup_iff.mp h.rows
  known pk hpk := h.known pk (((hp.flatMap_right Call.rows).append_left _).mem_iff.mpr hpk)
  objects c hc := h.objects c (hp.mem_iff.mpr hc)

theorem stored_of_row {pk : Pk} {k : IonscaleAuthKey} (ha : s.authKey = some pk) (hk : s.keys.row pk = some k) :
    s.stored = [k.onPlane] := by
  simp [stored, ha, hk]

theorem sameKey_symm {a b : PlaneKey} : sameKey a b = sameKey b a := by
  unfold sameKey
  rw [Bool.beq_comm, Bool.beq_comm (a := publicPrefix a.2)]

theorem sameKey_self (a : PlaneKey) : sameKey a a = true := by
  simp [sameKey]

theorem Sound.goOn {c' : Option Call} (h : s.Sound (c :: rest)) (hheld : c'.toList.flatMap Call.held = c.held)
    (hrows : c'.toList.flatMap Call.rows = c.rows)
    (hobjects : ∀ d ∈ c', ∀ o ∈ d.objects, o ∈ c.objects ∨ s.keys.row o.1 = some o.2) :
    s.Sound (c'.toList ++ rest) where
  held := by
    rw [List.flatMap_append, hheld]
    exact h.held
  distinct := h.distinct
  rows := by
    rw [List.flatMap_append, hrows]
    exact h.rows
  known := by
    rw [List.flatMap_append, hrows]
    exact h.known
  objects d hd o ho := by
    rcases List.mem_append.mp hd with hd | hd
    · rcases hobjects d (Option.mem_toList.mp hd) o ho with ho | ho
      · exact h.objects c (by simp) o ho
      · refine ⟨lt_next ho, fun k hk => ?_⟩
        rw [ho] at hk
        exact (Option.some.inj hk).symm
    · exact h.objects d (by simp [hd]) o ho

theorem Sound.mint {previous : Option Pk} {object : Option IonscaleAuthKey} {layer : Pk} {value : String}
    (h : s.Sound (.loaded previous object :: rest)) (hnew : s.plane.any (sameKey (layer, value)) = false) :
    (s.createAuthKey layer value).Sound (.minted previous object layer value :: rest) where
  held := by
    have hheld : (s.plane ++ [(layer, value)]).Perm (s.stored ++ rest.flatMap Call.held ++ [(layer, value)]) :=
      h.held.append_right _
    refine hheld.trans ?_
    rw [List.append_assoc]
    exact List.perm_append_comm.append_left _
  distinct := by
    refine List.pairwise_append.mpr ⟨h.distinct, List.pairwise_singleton _ _, fun a ha b hb => ?_⟩
    obtain rfl := List.mem_singleton.mp hb
    rw [sameKey_symm]
    simpa using List.any_eq_false.mp hnew a ha
  rows := h.rows
  known := h.known
  objects c hc o ho := by
    rcases List.mem_cons.mp hc with rfl | hc
    · exact h.objects (.loaded previous object) (by simp) o ho
    · exact h.objects c (by simp [hc]) o ho

theorem Sound.record {previous : Option Pk} {object : Option IonscaleAuthKey} {layer : Pk} {value : String}
    (h : s.Sound (.minted previous object layer value :: rest)) :
    ({ s with keys := s.keys.insert ⟨s.now, layer, value⟩ } : MeshKeys).Sound
      (.recorded previous object (s.keys.next, ⟨s.now, layer, value⟩) :: rest) where
  held := by
    have hstored : ({ s with keys := s.keys.insert ⟨s.now, layer, value⟩ } : MeshKeys).stored = s.stored := by
      cases ha : s.authKey with
      | none => simp [stored, authKey] at ha ⊢; simp [ha]
      | some pk =>
        obtain ⟨k, hk⟩ := h.known pk (by simp [ha])
        rw [stored_of_row ha hk]
        exact stored_of_row ha (insert_row_of_some hk)
    rw [hstored]
    exact h.held
  distinct := h.distinct
  rows := by
    have hfresh : s.keys.next ∉ s.authKey.toList ++ rest.flatMap Call.rows := by
      intro hmem
      obtain ⟨k, hk⟩ := h.known _ hmem
      exact absurd (lt_next hk) (Nat.lt_irrefl _)
    refine (List.perm_middle (a := s.keys.next)).nodup_iff.mpr ?_
    exact List.nodup_cons.mpr ⟨hfresh, h.rows⟩
  known pk hpk := by
    rcases List.mem_append.mp hpk with hpk | hpk
    · obtain ⟨k, hk⟩ := h.known pk (List.mem_append_left _ hpk)
      exact ⟨k, insert_row_of_some hk⟩
    · rcases List.mem_cons.mp hpk with rfl | hpk
      · exact ⟨_, insert_row_next _ _⟩
      · obtain ⟨k, hk⟩ := h.known pk (List.mem_append_right _ hpk)
        exact ⟨k, insert_row_of_some hk⟩
  objects c hc o ho := by
    have hold : ∀ o : Pk × IonscaleAuthKey, (o.1 < s.keys.next ∧ ∀ k, s.keys.row o.1 = some k → k = o.2) →
        o.1 < s.keys.next + 1 ∧ ∀ k, (s.keys.insert ⟨s.now, layer, value⟩).row o.1 = some k → k = o.2 := by
      intro o ho
      refine ⟨Nat.lt_succ_of_lt ho.1, fun k hk => ?_⟩
      rcases insert_row_eq_some.mp hk with ⟨heq, -⟩ | hk
      · exact absurd heq (Nat.ne_of_lt ho.1)
      · exact ho.2 k hk
    rcases List.mem_cons.mp hc with rfl | hc
    · rcases List.mem_cons.mp ho with rfl | ho
      · refine ⟨Nat.lt_succ_self _, fun k hk => ?_⟩
        rw [insert_row_next] at hk
        exact (Option.some.inj hk).symm
      · exact hold o (h.objects (.minted previous object layer value) (by simp) o ho)
    · exact hold o (h.objects c (by simp [hc]) o ho)

/-- The call stores its key over the one it read: from then on that one is the call's. -/
theorem Sound.save {previous : Option (Pk × IonscaleAuthKey)} {key : Pk × IonscaleAuthKey}
    (h : s.Sound (.fetched previous key :: rest)) (hfresh : s.authKey = previous.map (·.1)) :
    ({ s with enrollment := some (some key.1) } : MeshKeys).Sound ((previous.map Call.saved).toList ++ rest) where
  held := by
    have hkey : ({ s with enrollment := some (some key.1) } : MeshKeys).stored = [key.2.onPlane] := by
      obtain ⟨k, hk⟩ := h.known key.1 (List.mem_append_right _ (by simp [Call.rows]))
      obtain rfl := (h.objects (.fetched previous key) (by simp) key (by simp [Call.objects])).2 k hk
      exact stored_of_row rfl hk
    rw [hkey]
    refine h.held.trans ?_
    cases hp : previous with
    | none =>
      have hnone : s.stored = [] := by simp [stored, hfresh, hp]
      rw [hnone]
      exact .refl _
    | some p =>
      have ha : s.authKey = some p.1 := by rw [hfresh, hp]; rfl
      obtain ⟨k, hk⟩ := h.known p.1 (List.mem_append_left _ (by simp [ha]))
      obtain rfl := (h.objects (.fetched previous key) (by simp) p (by simp [Call.objects, hp])).2 k hk
      rw [stored_of_row ha hk]
      exact .swap _ _ _
  distinct := h.distinct
  rows := by
    have hrows := h.rows
    rw [hfresh] at hrows
    cases previous with
    | none => exact hrows
    | some p => exact (List.Perm.swap p.1 key.1 (rest.flatMap Call.rows)).nodup_iff.mpr hrows
  known pk hpk := by
    refine h.known pk ?_
    rw [hfresh]
    cases previous with
    | none => exact hpk
    | some p => exact (List.Perm.swap key.1 p.1 (rest.flatMap Call.rows)).mem_iff.mpr hpk
  objects c hc o ho := by
    rcases List.mem_append.mp hc with hc | hc
    · obtain ⟨p, rfl, rfl⟩ := Option.map_eq_some_iff.mp (Option.mem_toList.mp hc)
      obtain rfl := List.mem_singleton.mp ho
      exact h.objects (.fetched (some o) key) (by simp) o (by simp [Call.objects])
    · exact h.objects c (by simp [hc]) o ho

theorem Sound.revoke {previous : Pk × IonscaleAuthKey} (h : s.Sound (.saved previous :: rest)) :
    (s.deleteAuthKey previous.2).Sound (.revoked previous.1 :: rest) where
  held := by
    have hmiddle : s.plane.Perm (previous.2.onPlane :: (s.stored ++ rest.flatMap Call.held)) :=
      h.held.trans List.perm_middle
    have herased := hmiddle.eraseP (sameKey previous.2.onPlane) (h.distinct.imp fun {a b} hab ha hb => ?_)
    · rw [List.eraseP_cons_of_pos (sameKey_self _)] at herased
      exact herased
    · -- two keys of one prefix are one key
      simp only [sameKey, Bool.and_eq_true, beq_iff_eq] at ha hb
      simp [sameKey, ← ha.1, ← ha.2, ← hb.1, ← hb.2] at hab
  distinct := h.distinct.sublist List.eraseP_sublist
  rows := h.rows
  known := h.known
  objects c hc o ho := by
    rcases List.mem_cons.mp hc with rfl | hc
    · cases ho
    · exact h.objects c (by simp [hc]) o ho

theorem Sound.drop {previous : Pk} (h : s.Sound (.revoked previous :: rest)) :
    (s.deleteRow previous).Sound rest ∧ (s.deleteRow previous).authKey = s.authKey := by
  have hnodup := (List.perm_middle (a := previous)).nodup_iff.mp h.rows
  obtain ⟨hgone, hrest⟩ := List.nodup_cons.mp hnodup
  have hauth : (s.deleteRow previous).authKey = s.authKey := by
    have hne : s.authKey ≠ some previous := fun heq => hgone (List.mem_append_left _ (by simp [heq]))
    unfold authKey deleteRow at *
    cases he : s.enrollment with
    | none => rfl
    | some key =>
      have hkey : key ≠ some previous := by simpa [he] using hne
      simp [hkey]
  have hkept : ∀ pk k, pk ≠ previous → s.keys.row pk = some k → (s.deleteRow previous).keys.row pk = some k :=
    fun pk k hne hk => keep_row_eq_some.mpr ⟨hk, by simpa using hne⟩
  have hother : ∀ pk ∈ s.authKey.toList ++ rest.flatMap Call.rows, pk ≠ previous
    ∧ ∃ k, s.keys.row pk = some k := by
    intro pk hpk
    refine ⟨fun heq => hgone (heq ▸ hpk), h.known pk ?_⟩
    exact List.perm_middle.mem_iff.mpr (List.mem_cons_of_mem _ hpk)
  refine ⟨⟨?_, h.distinct, ?_, fun pk hpk => ?_, fun c hc o ho => ?_⟩, hauth⟩
  · have hstored : (s.deleteRow previous).stored = s.stored := by
      cases ha : s.authKey with
      | none => simp [stored, hauth, ha]
      | some pk =>
        obtain ⟨hne, k, hk⟩ := hother pk (by simp [ha])
        rw [stored_of_row ha hk, stored_of_row (hauth.trans ha) (hkept pk k hne hk)]
    rw [hstored]
    exact h.held
  · rw [hauth]
    exact hrest
  · rw [hauth] at hpk
    obtain ⟨hne, k, hk⟩ := hother pk hpk
    exact ⟨k, hkept pk k hne hk⟩
  · obtain ⟨hlt, hrow⟩ := h.objects c (by simp [hc]) o ho
    exact ⟨hlt, fun k hk => hrow k (keep_row_eq_some.mp hk).1⟩

/-- What a statement does to the row besides: it is stored by a call that minted, or stays. -/
structure Sound.Next (s : MeshKeys) (c : Call) (e : CallEvent) (t : MeshKeys) (next : Option Call) : Prop where
  -- a call that has minted ends by storing its key
  stores : t.authKey = s.authKey ∧ (c.pending = true ∨ e.mints = 1 → ∃ d, next = some d ∧ d.pending = true)
    ∨ t.authKey.isSome = true ∧ c.pending = true ∧ e.mints = 0
  -- what a call has to do with keys begins when it mints
  quiet : c.held = [] → c.rows = [] → e.mints = 0 → ∀ d ∈ next, d.held = [] ∧ d.rows = []

theorem checkRenewal_some {current : Option Pk} {online : Bool} {d : Call}
    (h : s.checkRenewal sidecar current online = some d) :
    d = .entered ∨ ∃ pk k, current = some pk ∧ s.keys.row pk = some k ∧ d = .loaded current (some k) := by
  unfold checkRenewal at h
  split at h
  · split at h
    · cases h
    · exact .inl (Option.some.inj h).symm
  · split at h
    · cases h
    · rename_i k hk
      split at h
      · cases h
      · split at h
        · exact .inl (Option.some.inj h).symm
        · exact .inr ⟨_, k, rfl, hk, (Option.some.inj h).symm⟩

theorem Sound.advance (h : s.Sound (c :: rest)) (hfresh : c.fresh s = true)
    (hstep : c.advance sidecar s e = some (t, next)) :
    t.Sound (next.toList ++ rest) ∧ Sound.Next s c e t next := by
  have hended : ∀ d : Call, d.held = [] → d.rows = [] → s.Sound (d :: rest) → s.Sound rest := by
    intro d hheld hrows hd
    exact @Sound.goOn _ _ _ none hd hheld.symm hrows.symm (fun _ hd => by cases hd)
  unfold Call.advance at hstep
  split at hstep
  · -- the checks of a renewal
    rename_i current online
    obtain ⟨rfl, rfl⟩ := Prod.mk.inj (Option.some.inj hstep)
    have hnext : ∀ d ∈ s.checkRenewal sidecar current online, d.held = [] ∧ d.rows = [] ∧
        ∀ o ∈ d.objects, s.keys.row o.1 = some o.2 := by
      intro d hd
      rcases checkRenewal_some hd with rfl | ⟨pk, k, rfl, hk, rfl⟩
      · exact ⟨rfl, rfl, fun _ ho => by cases ho⟩
      · refine ⟨rfl, rfl, fun o ho => ?_⟩
        obtain rfl := List.mem_singleton.mp ho
        exact hk
    refine ⟨h.goOn ?_ ?_ fun d hd o ho => .inr ((hnext d hd).2.2 o ho),
      .inl ⟨rfl, by simp [Call.pending, CallEvent.mints]⟩,
      fun _ _ _ d hd => ⟨(hnext d hd).1, (hnext d hd).2.1⟩⟩
    · cases hc : s.checkRenewal sidecar current online with
      | none => rfl
      | some d =>
        rw [Option.toList_some, List.flatMap_singleton]
        exact (hnext d hc).1
    · cases hc : s.checkRenewal sidecar current online with
      | none => rfl
      | some d =>
        rw [Option.toList_some, List.flatMap_singleton]
        exact (hnext d hc).2.1
  · -- the row is loaded
    obtain ⟨rfl, rfl⟩ := Prod.mk.inj (Option.some.inj hstep)
    refine ⟨?_, .inl ⟨rfl, by simp [Call.pending, CallEvent.mints]⟩, fun _ _ _ d hd => ?_⟩
    · have hs : s.Sound (.loaded s.authKey none :: rest) :=
        @Sound.goOn _ _ _ (some _) h rfl rfl fun d hd o ho => by
          obtain rfl := Option.some.inj hd
          simp [Call.objects] at ho
      exact ⟨hs.held, hs.distinct, hs.rows, hs.known, hs.objects⟩
    · obtain rfl := Option.some.inj hd
      exact ⟨rfl, rfl⟩
  · obtain ⟨rfl, rfl⟩ := Prod.mk.inj (Option.some.inj hstep)
    exact ⟨hended _ rfl rfl h, .inl ⟨rfl, by simp [Call.pending, CallEvent.mints]⟩, fun _ _ _ _ hd => by cases hd⟩
  · obtain ⟨rfl, rfl⟩ := Prod.mk.inj (Option.some.inj hstep)
    exact ⟨hended _ rfl rfl h, .inl ⟨rfl, by simp [Call.pending, CallEvent.mints]⟩, fun _ _ _ _ hd => by cases hd⟩
  · obtain ⟨rfl, rfl⟩ := Prod.mk.inj (Option.some.inj hstep)
    exact ⟨hended _ rfl rfl h, .inl ⟨rfl, by simp [Call.pending, CallEvent.mints]⟩, fun _ _ _ _ hd => by cases hd⟩
  · -- a key is minted
    split at hstep
    · cases hstep
    · rename_i hnew
      obtain ⟨rfl, rfl⟩ := Prod.mk.inj (Option.some.inj hstep)
      exact ⟨h.mint (by simpa using hnew), .inl ⟨rfl, fun _ => ⟨_, rfl, rfl⟩⟩, fun _ _ hmints => by cases hmints⟩
  · obtain ⟨rfl, rfl⟩ := Prod.mk.inj (Option.some.inj hstep)
    exact ⟨h.record, .inl ⟨rfl, fun _ => ⟨_, rfl, rfl⟩⟩, fun hheld => by cases hheld⟩
  · obtain ⟨rfl, rfl⟩ := Prod.mk.inj (Option.some.inj hstep)
    refine ⟨@Sound.goOn _ _ _ (some _) h rfl rfl fun d hd o ho => ?_, .inl ⟨rfl, fun _ => ⟨_, rfl, rfl⟩⟩,
      fun hheld => by cases hheld⟩
    obtain rfl := Option.some.inj hd
    exact .inl (by simpa [Call.objects] using ho)
  · -- the row of the key it read is there: it is the row's key still
    rename_i pk object key
    obtain ⟨rfl, rfl⟩ := Prod.mk.inj (Option.some.inj hstep)
    have ha : s.authKey = some pk := beq_iff_eq.mp hfresh
    obtain ⟨k, hk⟩ := h.known pk (by simp [ha])
    have hobject : object.or (s.keys.row pk) = some k := by
      cases object with
      | none => exact hk
      | some k' =>
        have := (h.objects _ List.mem_cons_self (pk, k') (by simp [Call.objects])).2 k hk
        simp [this]
    rw [hobject]
    refine ⟨@Sound.goOn _ _ _ (some _) h rfl rfl fun d hd o ho => ?_, .inl ⟨rfl, fun _ => ⟨_, rfl, rfl⟩⟩,
      fun hheld => by cases hheld⟩
    obtain rfl := Option.some.inj hd
    rcases List.mem_cons.mp ho with rfl | ho
    · exact .inl List.mem_cons_self
    · obtain rfl := List.mem_singleton.mp ho
      exact .inr hk
  · -- it stores its key
    rename_i previous key
    obtain ⟨rfl, rfl⟩ := Prod.mk.inj (Option.some.inj hstep)
    exact ⟨h.save (beq_iff_eq.mp hfresh), .inr ⟨rfl, rfl, rfl⟩, fun hheld => by cases hheld⟩
  · obtain ⟨rfl, rfl⟩ := Prod.mk.inj (Option.some.inj hstep)
    exact ⟨h.revoke, .inl ⟨rfl, by simp [Call.pending, CallEvent.mints]⟩, fun hheld => by cases hheld⟩
  · obtain ⟨rfl, rfl⟩ := Prod.mk.inj (Option.some.inj hstep)
    exact ⟨h.drop.1, .inl ⟨h.drop.2, by simp [Call.pending, CallEvent.mints]⟩, fun _ hrows => by cases hrows⟩
  · cases hstep

end MeshKeys

/-! ## Every run -/

section

variable {sidecar : Sidecar} {s t : KeyState} {e : KeyEvent}

/-- The call a step is about, and where it is left. -/
def KeyState.after (s : KeyState) (n : Nat) : Option Call → List Call
  | some c => s.calls.set n c
  | none => s.calls.eraseIdx n

theorem KeyState.perm_after {n : Nat} {c : Call} (hn : s.calls[n]? = some c) (next : Option Call) :
    s.calls.Perm (c :: s.calls.eraseIdx n) ∧ (s.after n next).Perm (next.toList ++ s.calls.eraseIdx n) := by
  obtain ⟨hbefore, hafter⟩ := Calls.Pool.perm_replaced hn next
  exact ⟨hbefore, by cases next <;> exact hafter⟩

theorem KeyStep.cases (h : KeyStep sidecar s e t) :
    (t.store.authKey = s.store.authKey ∧ t.minted = s.minted ∧ (∀ calls, s.store.Sound calls → t.store.Sound calls)
        ∧ (t.calls = s.calls ∨ ∃ c, t.calls = s.calls ++ [c] ∧ c.held = [] ∧ c.rows = [] ∧ c.objects = []))
      ∨ ∃ (n : Nat) (c : Call) (e' : CallEvent) (next : Option Call), e = .call n e' ∧ s.calls[n]? = some c
        ∧ c.advance sidecar s.store e' = some (t.store, next) ∧ t.calls = s.after n next
        ∧ t.minted = s.minted + e'.mints := by
  unfold KeyStep KeyState.step at h
  cases e with
  | tick seconds =>
    obtain rfl := Option.some.inj h
    exact .inl ⟨rfl, rfl, fun calls hs => ⟨hs.held, hs.distinct, hs.rows, hs.known, hs.objects⟩, .inl rfl⟩
  | enroll =>
    obtain rfl := Option.some.inj h
    exact .inl ⟨rfl, rfl, fun _ => id, .inr ⟨_, rfl, rfl, rfl, rfl⟩⟩
  | renew =>
    obtain ⟨current, -, rfl⟩ := Option.map_eq_some_iff.mp h
    exact .inl ⟨rfl, rfl, fun _ => id, .inr ⟨_, rfl, rfl, rfl, rfl⟩⟩
  | call n e' =>
    simp only [Option.bind_eq_bind, Option.bind_eq_some_iff, Prod.exists, Option.pure_def, Option.some.injEq] at h
    obtain ⟨c, hc, store, next, hadvance, rfl⟩ := h
    exact .inr ⟨n, c, e', next, rfl, hc, hadvance, by cases next <;> rfl, rfl⟩

/-- The keys are accounted for, and the row points at one once one was minted and stored. -/
structure KeyState.Accounted (start : Option Pk) (s : KeyState) : Prop where
  sound : s.store.Sound s.calls
  quiet : s.minted = 0 → s.store.authKey = start ∧ ∀ c ∈ s.calls, c.held = [] ∧ c.rows = []
  stored : 0 < s.minted → s.store.authKey.isSome = true ∨ ∃ c ∈ s.calls, c.pending = true

theorem MeshKeys.Sound.begin {m : MeshKeys} {calls : List Call} {c : Call} (h : m.Sound calls)
    (hheld : c.held = [])
    (hrows : c.rows = []) (hobjects : c.objects = []) : m.Sound (calls ++ [c]) where
  held := by simpa [hheld] using h.held
  distinct := h.distinct
  rows := by simpa [hrows] using h.rows
  known := by simpa [hrows] using h.known
  objects d hd o ho := by
    rcases List.mem_append.mp hd with hd | hd
    · exact h.objects d hd o ho
    · obtain rfl := List.mem_singleton.mp hd
      simp [hobjects] at ho

theorem FreshStep.accounted {start : Option Pk} (h : FreshStep sidecar s e t) (hs : s.Accounted start) :
    t.Accounted start := by
  obtain ⟨hfresh, hstep⟩ := h
  rcases hstep.cases with ⟨hauth, hminted, hsound, hcalls⟩ | ⟨n, c, e', next, rfl, hn, hadvance, hcalls, hminted⟩
  · rcases hcalls with hcalls | ⟨c, hcalls, hheld, hrows, hobjects⟩
    · refine ⟨hcalls ▸ hsound _ hs.sound, ?_, ?_⟩
      · rw [hminted, hauth, hcalls]
        exact hs.quiet
      · rw [hminted, hauth, hcalls]
        exact hs.stored
    · refine ⟨hcalls ▸ hsound _ (hs.sound.begin hheld hrows hobjects), fun hnone => ?_, fun hsome => ?_⟩
      · obtain ⟨hkey, hquiet⟩ := hs.quiet (hminted ▸ hnone)
        refine ⟨hauth.trans hkey, fun d hd => ?_⟩
        rcases List.mem_append.mp (hcalls ▸ hd) with hd | hd
        · exact hquiet d hd
        · obtain rfl := List.mem_singleton.mp hd
          exact ⟨hheld, hrows⟩
      · rcases hs.stored (hminted ▸ hsome) with hkey | ⟨d, hd, hpending⟩
        · exact .inl (hauth ▸ hkey)
        · exact .inr ⟨d, by simp [hcalls, hd], hpending⟩
  · obtain ⟨hbefore, hafter⟩ := s.perm_after hn next
    obtain ⟨hsound, hstores, hquiet⟩ :=
      (hs.sound.perm hbefore).advance (by simpa [KeyEvent.fresh, hn] using hfresh) hadvance
    have hmem : ∀ d, d ∈ t.calls ↔ d ∈ next ∨ d ∈ s.calls.eraseIdx n := by
      intro d
      rw [hcalls, hafter.mem_iff, List.mem_append, Option.mem_toList]
      rfl
    refine ⟨hcalls ▸ hsound.perm hafter.symm, fun hnone => ?_, fun hsome => ?_⟩
    · obtain ⟨hnone, hmints⟩ := Nat.add_eq_zero_iff.mp (hminted ▸ hnone)
      obtain ⟨hkey, hrest⟩ := hs.quiet hnone
      have hc := hrest c (List.mem_of_getElem? hn)
      refine ⟨?_, fun d hd => ?_⟩
      · rcases hstores with ⟨hsame, -⟩ | ⟨-, hpending, -⟩
        · exact hsame.trans hkey
        · cases c <;> simp [Call.held, Call.pending] at hc hpending
      · rcases (hmem d).mp hd with hd | hd
        · exact hquiet hc.1 hc.2 hmints d hd
        · exact hrest d (List.mem_of_mem_eraseIdx hd)
    · rcases hstores with ⟨hsame, hnext⟩ | ⟨hkey, -⟩
      · have hgoes : c.pending = true ∨ e'.mints = 1 → ∃ d ∈ t.calls, d.pending = true := by
          intro hc
          obtain ⟨d, hd, hpending⟩ := hnext hc
          exact ⟨d, (hmem d).mpr (.inl hd), hpending⟩
        rcases Nat.eq_zero_or_pos s.minted with hzero | hpos
        · refine .inr (hgoes (.inr ?_))
          cases e' <;> simp_all [CallEvent.mints]
        · rcases hs.stored hpos with hkey | ⟨d, hd, hpending⟩
          · exact .inl (hsame ▸ hkey)
          · rcases List.mem_cons.mp (hbefore.mem_iff.mp hd) with rfl | hd
            · exact .inr (hgoes (.inl hpending))
            · exact .inr ⟨d, (hmem d).mpr (.inr hd), hpending⟩
      · exact .inl hkey

theorem MeshKeys.stored_length (m : MeshKeys) : m.stored.length ≤ 1 := by
  unfold MeshKeys.stored
  cases m.authKey.bind m.keys.row <;> simp

theorem KeyState.Settled.accounted (h : s.Settled) (hminted : s.minted = 0) : s.Accounted s.store.authKey where
  sound := by
    rw [h.calls]
    refine ⟨by simp [h.plane], ?_, ?_, fun pk hpk => h.known pk (by simpa using hpk), fun _ hc => by cases hc⟩
    · rw [h.plane]
      unfold MeshKeys.stored
      cases s.store.authKey.bind s.store.keys.row <;> simp
    · cases s.store.authKey <;> simp
  quiet _ := ⟨rfl, fun c hc => by simp [h.calls] at hc⟩
  stored hpos := absurd hpos (by simp [hminted])

theorem KeyState.Accounted.settled {start : Option Pk} (h : s.Accounted start) (hcalls : s.calls = []) :
    s.Settled := by
  have hheld : s.store.plane.Perm s.store.stored := by simpa [hcalls] using h.sound.held
  refine ⟨hcalls, ?_, fun pk hpk => h.sound.known pk (by simp [hpk])⟩
  have hlength := s.store.stored_length
  match hstored : s.store.stored, hlength with
  | [], _ => exact List.perm_nil.mp (hstored ▸ hheld)
  | [k], _ => exact List.perm_singleton.mp (hstored ▸ hheld)

theorem Call.advance_mintFails {c : Call} {m m' : MeshKeys} {next : Option Call}
    (h : c.advance sidecar m .mintFails = some (m', next)) : m' = m ∧ next = none := by
  cases c <;> simp [Call.advance] at h
  exact ⟨h.1.symm, h.2.symm⟩

end

/-- However calls on one enrollment overlap, a mint that fails changes neither the stored key nor the
control plane. And when every call finds the row pointing at the key it read, as it looks that key up and as
it stores its own, then once no call is under way the control plane holds the key the row points at and no
other: the one from before, unless a key was minted. -/
theorem one_live_mesh_key (sidecar : Sidecar) :
    (∀ (s t : KeyState) (n : Nat), KeyStep sidecar s (.call n .mintFails) t → t.store = s.store)
      ∧ ∀ (s t : KeyState) (es : List KeyEvent), s.Settled → s.minted = 0 →
      Run (FreshStep sidecar) s es t → t.calls = [] →
        t.store.plane = t.store.stored ∧ (t.minted = 0 → t.store.authKey = s.store.authKey)
          ∧ (0 < t.minted → t.store.plane.length = 1) := by
  refine ⟨fun s t n h => ?_, fun s t es hs hminted hrun hcalls => ?_⟩
  · simp only [KeyStep, KeyState.step, Option.bind_eq_bind, Option.bind_eq_some_iff, Prod.exists, Option.pure_def,
      Option.some.injEq] at h
    obtain ⟨c, -, m, next, hadvance, rfl⟩ := h
    exact (Call.advance_mintFails hadvance).1
  · have ht := hrun.invariant (P := fun u => u.Accounted s.store.authKey) (fun hP h => h.accounted hP)
      (hs.accounted hminted)
    have hsettled := ht.settled hcalls
    refine ⟨hsettled.plane, fun hnone => (ht.quiet hnone).1, fun hsome => ?_⟩
    rcases ht.stored hsome with hkey | ⟨c, hc, -⟩
    · obtain ⟨pk, hpk⟩ := Option.isSome_iff_exists.mp hkey
      obtain ⟨k, hk⟩ := hsettled.known pk hpk
      rw [hsettled.plane, MeshKeys.stored_of_row hpk hk]
      rfl
    · simp [hcalls] at hc

/-! ## Two calls that overlap -/

def KeyState.unenrolled : KeyState := ⟨⟨0, none, .empty, []⟩, [], 0⟩

/-- What a call does from minting to storing. -/
def mintAndStore (n : Nat) (value : String) : List KeyEvent :=
  [.call n (.mint 0 value), .call n .proceed, .call n .proceed, .call n .proceed]

def mintedThenRenewed : List KeyEvent :=
  [.enroll, .call 0 .load] ++ mintAndStore 0 "a_1" ++ [.tick 60, .renew, .call 0 (.check false), .call 0 .load]
    ++ mintAndStore 0 "b_2" ++ [.call 0 .proceed, .call 0 .proceed]

def freshStep? (s : KeyState) (e : KeyEvent) : Option KeyState := if e.fresh s then s.step .app e else none

/-- A key is minted, and a renewal replaces it: the row's key is the one key. -/
theorem one_live_mesh_key_renewed :
    ∃ (t : KeyState) (es : List KeyEvent), Run (FreshStep .app) KeyState.unenrolled es t
    ∧ 1 < t.minted ∧ t.store.plane = t.store.stored ∧ t.store.plane.length = 1 := by
  have hrun : (mintedThenRenewed.foldlM freshStep? .unenrolled).any
    (fun t => t.calls == [] && t.minted == 2) = true := by
    decide +kernel
  simp only [Option.any_eq_true, Bool.and_eq_true, beq_iff_eq] at hrun
  obtain ⟨t, ht, hend⟩ := hrun
  have hfresh : Run (FreshStep .app) .unenrolled mintedThenRenewed t := Run.of_foldlM (fun {s e t} h => by
    unfold freshStep? at h
    split at h
    · exact ⟨‹_›, h⟩
    · cases h) ht
  obtain ⟨hplane, -, hone⟩ := (one_live_mesh_key .app).2 _ t _ ⟨rfl, rfl, fun _ h => by cases h⟩ rfl hfresh hend.1
  have hminted : 1 < t.minted := by rw [hend.2]; decide
  exact ⟨t, _, hfresh, hminted, hplane, hone (Nat.lt_of_succ_lt hminted)⟩

def overlappingCalls : List KeyEvent :=
  [.enroll, .enroll, .call 0 .load, .call 1 .load] ++ mintAndStore 0 "a_1" ++ mintAndStore 0 "b_2"

/-- Two calls have read the row before either stored its key: the key of the first stays at the control plane. -/
theorem overlapping_calls_leave_a_key : ∃ (t : KeyState) (es : List KeyEvent), KeyState.unenrolled.Settled
    ∧ Run (KeyStep .app) KeyState.unenrolled es t ∧ t.calls = [] ∧ t.store.plane = [(0, "a_1"), (0, "b_2")]
    ∧ t.store.stored = [(0, "b_2")] := by
  have hrun : (overlappingCalls.foldlM (KeyState.step .app) .unenrolled).any (fun t =>
      t.calls == [] && t.store.plane == [(0, "a_1"), (0, "b_2")] && t.store.stored == [(0, "b_2")]) = true := by
    decide +kernel
  simp only [Option.any_eq_true, Bool.and_eq_true, beq_iff_eq] at hrun
  obtain ⟨t, ht, hend⟩ := hrun
  exact ⟨t, _, ⟨rfl, rfl, fun _ h => by cases h⟩, Run.of_foldlM (fun h => h) ht, hend.1.1, hend.1.2, hend.2⟩

end Lok
