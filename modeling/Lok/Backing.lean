import Lok.SidecarReaps

/-!
# What backs a sidecar

While a transaction goes on, an enrollment either has a client with a session or is looked at when
the transaction commits, and so is the key of every hub that was touched. Each operation preserves
this, so after the hooks whatever remains is backed. An approval fails to where it ends with a
client without a session, and where it binds anew a client that backs another sidecar.
-/

namespace Lok

open Table Checks

variable {env : Env} {grace : Time}

/-! ## The hooks -/

theorem reapOf_covers {hubs : Table Hub} {k : Pk} {c : Client} {membership : Pk} {app : App} {device : Option Pk}
    (h : standsFor membership app device c = true) : (reapOf hubs k c).covers membership app device := by
  simp only [standsFor, AppMeshEnrollment.standsFor, Bool.and_eq_true, beq_iff_eq] at h
  exact ⟨h.1.1, h.1.2, h.2⟩

theorem identityOf_eq {hubs : Table Hub} {h k : Pk} {x : Hub}
    (hunique : ∀ i j x y, hubs.row i = some x → hubs.row j = some y → x.client = some k →
      y.client = some k → i = j)
    (hx : hubs.row h = some x) (hk : x.client = some k) : identityOf hubs k = some h := by
  have hfirst : hubs.first (fun _ y => y.client == some k) = some (h, x) :=
    first_of_unique hx (by simp [hk]) fun j y hy hclient => hunique j h y x hy hx (by simpa using hclient) hk
  simp [identityOf, hfirst]

theorem reapsOfDeleted_mem {db d : DB} {k : Pk} {c : Client} (hc : db.clients.row k = some c)
    (hgone : d.clients.row k = none) :
    reapOf db.hubs k c ∈ reapsOfDeleted db d := by
  refine List.mem_map.mpr ⟨(k, c), mem_filter.mpr ⟨hc, by simp [hgone]⟩, rfl⟩

theorem reapsFor_mem {db : DB} {clients : List Pk} {k : Pk} {c : Client} (hc : db.clients.row k = some c)
    (hk : k ∈ clients) :
    reapOf db.hubs k c ∈ reapsFor db clients :=
  List.mem_map.mpr ⟨(k, c), mem_filter.mpr ⟨hc, by simpa using hk⟩, rfl⟩

theorem Reap.run_eq (db : DB) (net : Net) (r : Reap) : ∃ n,
    ((∃ app membership, r.app = some app ∧ r.membership = some membership
      ∧ n = net.reapEnrollment db grace membership app r.device)
      ∨ n = net ∧ ∀ app membership, r.app = some app → r.membership ≠ some membership)
    ∧ ((∃ pk o, r.hub = some pk ∧ db.hubs.row pk = some o ∧ r.run db grace net = n.reapHubSidecar db grace pk o)
      ∨ r.run db grace net = n ∧ ∀ pk, r.hub = some pk → db.hubs.row pk = none) := by
  obtain ⟨membership, app, device, hub⟩ := r
  refine ⟨Reap.run db grace net ⟨membership, app, device, none⟩, ?_, ?_⟩
  · cases app with
    | none => exact .inr ⟨rfl, by simp⟩
    | some a =>
      cases membership with
      | none => exact .inr ⟨rfl, by simp⟩
      | some m => exact .inl ⟨a, m, rfl, rfl, rfl⟩
  · cases hub with
    | none => exact .inr ⟨rfl, by simp⟩
    | some pk =>
      unfold Reap.run
      dsimp only
      cases ho : db.hubs.row pk with
      | none => exact .inr ⟨rfl, by simp [ho]⟩
      | some o => exact .inl ⟨pk, o, rfl, ho, rfl⟩

theorem Reap.run_enrollments {db : DB} {net : Net} {r : Reap} {a : Pk} {x : AppMeshEnrollment}
    (h : (r.run db grace net).enrollments.row a = some x) : net.enrollments.row a = some x
      ∧ (r.covers x.membership x.app x.device →
        db.enrollmentIsRetained grace x.membership x.app x.device = true) := by
  obtain ⟨n, hn, hhub⟩ := r.run_eq db net
  have hx : n.enrollments.row a = some x := by
    rcases hhub with ⟨pk, o, -, -, heq⟩ | ⟨heq, -⟩
    · rw [heq, Net.reapHubSidecar_enrollments] at h
      exact h
    · rw [heq] at h
      exact h
  rcases hn with ⟨app, membership, happ, hmembership, rfl⟩ | ⟨rfl, hnot⟩
  · unfold Net.reapEnrollment at hx
    have hcovered : r.covers x.membership x.app x.device →
      membership = x.membership ∧ app = x.app ∧ r.device = x.device := by
      intro ⟨hm, ha, hd⟩
      rw [hmembership, Option.some.injEq] at hm
      rw [happ, Option.some.injEq] at ha
      exact ⟨hm, ha, hd⟩
    split at hx
    · rename_i hretained
      refine ⟨hx, fun hcovers => ?_⟩
      obtain ⟨hm, ha, hd⟩ := hcovered hcovers
      rw [← hm, ← ha, ← hd]
      exact hretained
    · obtain ⟨hx, hkept⟩ := keep_row_eq_some.mp hx
      refine ⟨hx, fun hcovers => ?_⟩
      obtain ⟨hm, ha, hd⟩ := hcovered hcovers
      simp [AppMeshEnrollment.isOf, hm, ha, hd] at hkept
  · exact ⟨hx, fun ⟨hm, ha, _⟩ => absurd hm (hnot _ _ ha)⟩

theorem Reap.run_hubKeys {db : DB} {net : Net} {r : Reap} {h : Pk}
    (hkey : ((r.run db grace net).hubKeys h).isSome = true) :
    (net.hubKeys h).isSome = true
      ∧ (r.hub = some h → ∀ x, db.hubs.row h = some x → db.hubIdentityIsRetained grace x = true) := by
  obtain ⟨n, hn, hhub⟩ := r.run_eq db net
  have hkeys : n.hubKeys = net.hubKeys := by
    rcases hn with ⟨app, membership, -, -, rfl⟩ | ⟨rfl, -⟩
    · unfold Net.reapEnrollment
      split <;> rfl
    · rfl
  rw [← hkeys]
  rcases hhub with ⟨pk, o, hpk, ho, heq⟩ | ⟨heq, hnone⟩
  · rw [heq] at hkey
    unfold Net.reapHubSidecar at hkey
    split at hkey
    · rename_i hnokey
      refine ⟨hkey, fun hhub => ?_⟩
      rw [hpk, Option.some.injEq] at hhub
      rw [← hhub, hnokey] at hkey
      cases hkey
    · split at hkey
      · rename_i hretained
        refine ⟨hkey, fun hhub x hx => ?_⟩
        rw [hpk, Option.some.injEq] at hhub
        rw [← hhub, ho] at hx
        cases hx
        exact hretained
      · dsimp only at hkey
        split at hkey
        · cases hkey
        · rename_i hne
          refine ⟨hkey, fun hhub => ?_⟩
          rw [hpk, Option.some.injEq] at hhub
          exact absurd hhub.symm hne
  · rw [heq] at hkey
    refine ⟨hkey, fun hhub x hx => ?_⟩
    rw [hnone h hhub] at hx
    cases hx

/-! ## A transaction -/

/-- A client backs it, or it is looked at when the transaction commits. -/
def Transaction.Standing (t : Transaction) (grace : Time) (membership : Pk) (app : App) (device : Option Pk) :
    Prop :=
  t.db.enrollmentIsRetained grace membership app device = true ∨ ∃ r ∈ t.hooks, r.covers membership app device

def Transaction.HubStanding (t : Transaction) (grace : Time) (h : Pk) : Prop :=
  ∀ x, t.db.hubs.row h = some x → t.db.hubIdentityIsRetained grace x = true ∨ ∃ r ∈ t.hooks, r.hub = some h

/-- What holds while a transaction goes on. -/
structure Sound (grace : Time) (t : Transaction) : Prop where
  tidy : t.db.Tidy
  identities : t.db.Identities
  enrollments : ∀ a x, t.net.enrollments.row a = some x → t.Standing grace x.membership x.app x.device
  hubs : ∀ h ∈ t.touched, (t.net.hubKeys h).isSome = true → t.HubStanding grace h
  next : ∀ h ∈ t.touched, h < t.db.hubs.next

theorem Transaction.commit_enrollments {t : Transaction} {a : Pk} {x : AppMeshEnrollment}
    (h : (t.commit grace).enrollments.row a = some x) : t.net.enrollments.row a = some x
      ∧ ∀ r ∈ t.hooks, r.covers x.membership x.app x.device →
      t.db.enrollmentIsRetained grace x.membership x.app x.device = true := by
  obtain ⟨db, net, hooks, touched, ended⟩ := t
  unfold commit at h
  dsimp only at h ⊢
  induction hooks generalizing net with
  | nil => exact ⟨h, by simp⟩
  | cons r hooks ih =>
    obtain ⟨hx, hlater⟩ := ih _ h
    obtain ⟨hx, hfirst⟩ := Reap.run_enrollments hx
    refine ⟨hx, fun s hs hcovers => ?_⟩
    rcases List.mem_cons.mp hs with rfl | hs
    · exact hfirst hcovers
    · exact hlater s hs hcovers

theorem Transaction.commit_hubKeys {t : Transaction} {h : Pk} (hkey : ((t.commit grace).hubKeys h).isSome = true) :
    (t.net.hubKeys h).isSome = true
      ∧ ∀ r ∈ t.hooks, r.hub = some h →
      ∀ x, t.db.hubs.row h = some x → t.db.hubIdentityIsRetained grace x = true := by
  obtain ⟨db, net, hooks, touched, ended⟩ := t
  unfold commit at hkey
  dsimp only at hkey ⊢
  induction hooks generalizing net with
  | nil => exact ⟨hkey, by simp⟩
  | cons r hooks ih =>
    obtain ⟨hkey, hlater⟩ := ih _ hkey
    obtain ⟨hkey, hfirst⟩ := Reap.run_hubKeys hkey
    refine ⟨hkey, fun s hs hhub => ?_⟩
    rcases List.mem_cons.mp hs with rfl | hs
    · exact hfirst hhub
    · exact hlater s hs hhub

theorem Sound.backed {t : Transaction} (h : Sound grace t) : Backed grace ⟨t.db, t.commit grace, t.touched⟩ := by
  refine ⟨fun a x hx => ?_, fun k hk hkey x hx => ?_⟩
  · obtain ⟨hx, hcovered⟩ := t.commit_enrollments hx
    rcases h.enrollments a x hx with hretained | ⟨r, hr, hcovers⟩
    · exact hretained
    · exact hcovered r hr hcovers
  · obtain ⟨hkey, hcovered⟩ := t.commit_hubKeys hkey
    rcases h.hubs k hk hkey x hx with hretained | ⟨r, hr, hhub⟩
    · exact hretained
    · exact hcovered r hr hhub x hx

/-! ## What an operation preserves -/

namespace Transaction

variable {t : Transaction} {d : DB} {named : List Pk} {ended : Pk → Prop}

theorem becomes_hooks {r : Reap} (hr : r ∈ t.hooks) : r ∈ (t.becomes d named).hooks :=
  List.mem_append_left _ (List.mem_append_left _ hr)

theorem becomes_client (hcarries : DB.Carries ended t.db d) {k : Pk} {c : Client}
    (hc : t.db.clients.row k = some c) :
    d.clients.row k = none ∧ reapOf t.db.hubs k c ∈ (t.becomes d named).hooks
      ∨ ∃ c', d.clients.row k = some c' ∧ c.Same c'
      ∧ (k ∈ named → reapOf d.hubs k c' ∈ (t.becomes d named).hooks) := by
  cases hrow : d.clients.row k with
  | none => exact .inl ⟨rfl, List.mem_append_left _ (List.mem_append_right _ (reapsOfDeleted_mem hc hrow))⟩
  | some c' =>
    obtain ⟨c₀, hc₀, hsame⟩ := hcarries.clients k c' hrow
    rw [hc] at hc₀
    cases hc₀
    exact .inr ⟨c', rfl, hsame, fun hk => List.mem_append_right _ (reapsFor_mem hrow hk)⟩

end Transaction

theorem Sound.becomes {t : Transaction} {d : DB} {named : List Pk} {ended : Pk → Prop} (h : Sound grace t)
    (hd : d.Identities)
    (hcarries : DB.Carries ended t.db d) (hnamed : ∀ k, ended k → k ∈ named) :
    Sound grace (t.becomes d named) where
  tidy := hcarries.tidy h.tidy
  identities := hd
  enrollments a x hx := by
    have hx : t.net.enrollments.row a = some x := (keep_row_eq_some.mp hx).1
    rcases h.enrollments a x hx with hretained | ⟨r, hr, hcovers⟩
    · obtain ⟨k, c, hc, hbacks⟩ := exists?_eq_true.mp hretained
      rw [Bool.and_eq_true] at hbacks
      obtain ⟨hstands, hsession⟩ := hbacks
      rcases t.becomes_client hcarries hc with ⟨-, hhook⟩ | ⟨c', hc', hsame, hhook⟩
      · exact .inr ⟨_, hhook, reapOf_covers hstands⟩
      · have hstands' : standsFor x.membership x.app x.device c' = true := by
          rw [hsame.standsFor]
          exact hstands
        by_cases hk : ended k
        · exact .inr ⟨_, hhook (hnamed k hk), reapOf_covers hstands'⟩
        · have hminted : c.clientId.minted = true := by
            simp only [standsFor, AppMeshEnrollment.standsFor, Bool.and_eq_true, beq_iff_eq] at hstands
            exact h.tidy.minted k c _ hc hstands.1.1
          have hsession' : d.withSession grace c' = true :=
            hcarries.sessions h.tidy grace k c c' hc hc' hminted hk hsession
          exact .inl (exists?_eq_true.mpr ⟨k, c', hc', Bool.and_eq_true_iff.mpr ⟨hstands', hsession'⟩⟩)
    · exact .inr ⟨r, Transaction.becomes_hooks hr, hcovers⟩
  hubs o ho hkey x' hx' := by
    have hx' : d.hubs.row o = some x' := hx'
    have hkey : (t.net.hubKeys o).isSome = true := by
      simpa [Transaction.becomes, Net.follow, hx'] using hkey
    have holder : o < t.db.hubs.next := by
      rcases List.mem_append.mp ho with ho | ho
      · exact h.next o ho
      · obtain ⟨x, hx, -⟩ := mem_pks.mp ho
        exact lt_next hx
    -- the hook of whoever was its identity
    have hreap : ∀ x k c, t.db.hubs.row o = some x → x.client = some k → (reapOf t.db.hubs k c).hub = some o :=
      fun x k _ hx hk =>
      identityOf_eq (fun i j x y hx hy hkx hky => h.tidy.hubs i j x y k hx hy hkx hky) hx hk
    have hreap' : ∀ k c, x'.client = some k → (reapOf d.hubs k c).hub = some o := fun k _ hk =>
      identityOf_eq (fun i j x y hx hy hkx hky => hd.unique i j x y k hx hy hkx hky) hx' hk
    rcases hcarries.hubs o x' hx' with ⟨x, hx, hclient | ⟨-, k, hk, hgone⟩⟩ | ⟨hle, -⟩
    · cases hk : x.client with
      | none =>
        -- without an identity it was looked at already
        rcases List.mem_append.mp ho with ho | ho
        · rcases h.hubs o ho hkey x hx with hretained | ⟨r, hr, hhub⟩
          · simp [DB.hubIdentityIsRetained, hk] at hretained
          · exact .inr ⟨r, Transaction.becomes_hooks hr, hhub⟩
        · obtain ⟨y, hy, htouched⟩ := mem_pks.mp ho
          rw [hx] at hy
          cases hy
          simp [hk] at htouched
      | some k =>
        obtain ⟨c, -, hc, -⟩ := h.identities.bound o x k hx hk
        rcases t.becomes_client hcarries hc with ⟨-, hhook⟩ | ⟨c', hc', hsame, hhook⟩
        · exact .inr ⟨_, hhook, hreap x k c hx hk⟩
        · by_cases hmem : k ∈ named
          · exact .inr ⟨_, hhook hmem, hreap' k c' (hclient.trans hk)⟩
          · have hended : ¬ ended k := fun hended => hmem (hnamed k hended)
            rcases List.mem_append.mp ho with ho | ho
            · rcases h.hubs o ho hkey x hx with hretained | ⟨r, hr, hhub⟩
              · simp only [DB.hubIdentityIsRetained, hk, Option.bind_some, hc, Option.any_some] at hretained
                refine .inl ?_
                show d.hubIdentityIsRetained grace x' = true
                simp only [DB.hubIdentityIsRetained, hclient, hk, Option.bind_some, hc', Option.any_some]
                exact hcarries.sessions h.tidy grace k c c' hc hc'
                  (h.tidy.identity o x k c hx hk hc) hended hretained
              · exact .inr ⟨r, Transaction.becomes_hooks hr, hhub⟩
            · obtain ⟨y, hy, htouched⟩ := mem_pks.mp ho
              rw [hx] at hy
              cases hy
              simp [hk, hmem, hc'] at htouched
    · obtain ⟨c, -, hc, -⟩ := h.identities.bound o x k hx hk
      exact .inr ⟨_, List.mem_append_left _ (List.mem_append_right _ (reapsOfDeleted_mem hc hgone)),
        hreap x k c hx hk⟩
    · exact absurd holder (Nat.not_lt.mpr hle)
  next o ho := by
    refine Nat.lt_of_lt_of_le ?_ hcarries.next
    rcases List.mem_append.mp ho with ho | ho
    · exact h.next o ho
    · obtain ⟨x, hx, -⟩ := mem_pks.mp ho
      exact lt_next hx

theorem Sound.net {t t' : Transaction} (h : Sound grace t) (hdb : t'.db = t.db) (hhooks : t'.hooks = t.hooks)
    (htouched : t'.touched = t.touched)
    (henrollments : ∀ a x, t'.net.enrollments.row a = some x → t.net.enrollments.row a = some x
      ∨ t.db.enrollmentIsRetained grace x.membership x.app x.device = true)
    (hkeys : ∀ o, (t'.net.hubKeys o).isSome = true → (t.net.hubKeys o).isSome = true) : Sound grace t' where
  tidy := hdb ▸ h.tidy
  identities := hdb ▸ h.identities
  enrollments a x hx := by
    unfold Transaction.Standing
    rw [hdb, hhooks]
    rcases henrollments a x hx with hx | hretained
    · exact h.enrollments a x hx
    · exact .inl hretained
  hubs o ho hkey := by
    unfold Transaction.HubStanding
    rw [hdb, hhooks]
    exact h.hubs o (htouched ▸ ho) (hkeys o hkey)
  next o ho := by
    rw [hdb]
    exact h.next o (htouched ▸ ho)

/-! ## Binding a client anew -/

/-- Bound anew, a client keeps its session and backs what it did. -/
structure Keeps (memberships : Table Membership) (c c' : Client) : Prop where
  clientId : c'.clientId = c.clientId
  createdAt : c'.createdAt = c.createdAt
  mandate : c'.mandate = c.mandate
  minted : c.clientId.minted = true
  member : ∀ m, c'.membership = some m → ∃ x, memberships.row m = some x
  place : c.membership = none
    ∨ c'.membership = c.membership ∧ c'.release.map (·.app) = c.release.map (·.app) ∧ c'.node = c.node

theorem Keeps.standsFor {memberships : Table Membership} {c c' : Client} (h : Keeps memberships c c')
    {membership : Pk} {app : App}
    {device : Option Pk} (hstands : standsFor membership app device c = true) :
    standsFor membership app device c' = true := by
  simp only [Lok.standsFor, AppMeshEnrollment.standsFor, Bool.and_eq_true, beq_iff_eq] at hstands ⊢
  rcases h.place with hnone | ⟨hmembership, happ, hnode⟩
  · rw [hnone] at hstands
    cases hstands.1.1
  · rw [hmembership, happ, hnode]
    exact hstands

section
variable {db d : DB} {k : Pk} {c c' : Client}

theorem DB.Rebound.before (h : DB.Rebound k db d) (hc : db.clients.row k = some c)
    (hc' : d.clients.row k = some c')
    (hkeeps : Keeps db.memberships c c') {j : Pk} {b' : Client} (hb' : d.clients.row j = some b') :
    ∃ b, db.clients.row j = some b ∧ b'.clientId = b.clientId ∧ (j = k ∧ b' = c' ∨ b.Same b') := by
  by_cases hj : j = k
  · subst hj
    rw [hc'] at hb'
    cases hb'
    exact ⟨c, hc, hkeeps.clientId, .inl ⟨rfl, rfl⟩⟩
  · obtain ⟨b, hb, hsame⟩ := h.clients j b' hb' hj
    exact ⟨b, hb, hsame.clientId, .inr hsame⟩

theorem DB.Rebound.after (h : DB.Rebound k db d) (hc : db.clients.row k = some c) (hc' : d.clients.row k = some c')
    (hkeeps : Keeps db.memberships c c') {j : Pk} {b : Client} (hb : db.clients.row j = some b) :
    ∃ b', d.clients.row j = some b' ∧ (db.withSession grace b = true → d.withSession grace b' = true)
      ∧ ∀ membership app device, standsFor membership app device b = true →
      standsFor membership app device b' = true := by
  cases hrow : d.clients.row j with
  | none =>
    rw [h.gone j hrow] at hb
    cases hb
  | some b' =>
    refine ⟨b', rfl, ?_⟩
    by_cases hj : j = k
    · subst hj
      rw [hc'] at hrow
      rw [hc] at hb
      cases hrow
      cases hb
      exact ⟨h.session hkeeps.clientId hkeeps.createdAt hkeeps.mandate, fun _ _ _ => hkeeps.standsFor⟩
    · obtain ⟨b₀, hb₀, hsame⟩ := h.clients j b' hrow hj
      rw [hb] at hb₀
      cases hb₀
      refine ⟨h.session hsame.clientId hsame.createdAt hsame.mandate, fun _ _ _ hstands => ?_⟩
      rw [hsame.standsFor]
      exact hstands

theorem DB.Tidy.rebinds (h : db.Tidy) (hd : d.Identities) (hrebound : DB.Rebound k db d)
    (hc : db.clients.row k = some c)
    (hc' : d.clients.row k = some c') (hkeeps : Keeps db.memberships c c')
    (hhubs : ∀ o x, d.hubs.row o = some x → db.hubs.row o = some x ∨ x.client = some k) : d.Tidy where
  minted j b' m hb' hm := by
    obtain ⟨b, hb, hid, ⟨rfl, rfl⟩ | hsame⟩ := hrebound.before hc hc' hkeeps hb'
    · rw [hkeeps.clientId]
      exact hkeeps.minted
    · rw [hid]
      exact h.minted j b m hb (hsame.membership ▸ hm)
  member j b' m hb' hm := by
    rw [hrebound.memberships]
    obtain ⟨b, hb, -, ⟨rfl, rfl⟩ | hsame⟩ := hrebound.before hc hc' hkeeps hb'
    · exact hkeeps.member m hm
    · exact h.member j b m hb (hsame.membership ▸ hm)
  unique i j a' b' ha' hb' hid hminted := by
    obtain ⟨a, ha, hida, -⟩ := hrebound.before hc hc' hkeeps ha'
    obtain ⟨b, hb, hidb, -⟩ := hrebound.before hc hc' hkeeps hb'
    exact h.unique i j a b ha hb (by rw [← hida, ← hidb, hid]) (hida ▸ hminted)
  owned j b' pk t hb' hminted ht hid := by
    rw [hrebound.tokens] at ht
    obtain ⟨b, hb, hidb, ⟨rfl, rfl⟩ | hsame⟩ := hrebound.before hc hc' hkeeps hb'
    · rw [hc] at hb
      cases hb
      have howned := h.owned j c pk t hc hkeeps.minted ht (hid.trans hidb)
      rcases hkeeps.place with hnone | ⟨hmembership, -, -⟩
      · rw [hnone] at howned
        cases howned
      · exact hmembership.trans howned
    · exact hsame.membership.trans (h.owned j b pk t hb (hidb ▸ hminted) ht (hid.trans hidb))
  identity o x j b' hx hj hb' := by
    obtain ⟨b, hb, hid, hor⟩ := hrebound.before hc hc' hkeeps hb'
    rw [hid]
    rcases hhubs o x hx with hx | hk
    · exact h.identity o x j b hx hj hb
    · rw [hk, Option.some.injEq] at hj
      subst hj
      rw [hc] at hb
      cases hb
      exact hkeeps.minted
  hubs i j x y p hx hy hpx hpy := hd.unique i j x y p hx hy hpx hpy

end

theorem Sound.rebinds {t t' : Transaction} {k : Pk} {c c' : Client} (h : Sound grace t) (hd : t'.db.Identities)
    (hrebound : DB.Rebound k t.db t'.db) (hc : t.db.clients.row k = some c) (hc' : t'.db.clients.row k = some c')
    (hkeeps : Keeps t.db.memberships c c') (hhooks : t'.hooks = t.hooks)
    (henrollments : ∀ a x, t'.net.enrollments.row a = some x → t.net.enrollments.row a = some x)
    (hidentities : ∀ o x, t'.db.hubs.row o = some x → t.db.hubs.row o = some x ∨ x.client = some k)
    (hkeys : ∀ o ∈ t'.touched, (t'.net.hubKeys o).isSome = true → ∀ x, t'.db.hubs.row o = some x →
      o ∈ t.touched ∧ (t.net.hubKeys o).isSome = true ∧ t.db.hubs.row o = some x
        ∨ t'.db.hubIdentityIsRetained grace x = true)
    (hnext : ∀ o ∈ t'.touched, o < t'.db.hubs.next) : Sound grace t' where
  tidy := h.tidy.rebinds hd hrebound hc hc' hkeeps hidentities
  identities := hd
  enrollments a x hx := by
    rcases h.enrollments a x (henrollments a x hx) with hretained | ⟨r, hr, hcovers⟩
    · obtain ⟨j, b, hb, hbacks⟩ := exists?_eq_true.mp hretained
      rw [Bool.and_eq_true] at hbacks
      obtain ⟨b', hb', hsession, hstands⟩ := hrebound.after hc hc' hkeeps hb
      exact .inl (exists?_eq_true.mpr
        ⟨j, b', hb', Bool.and_eq_true_iff.mpr ⟨hstands _ _ _ hbacks.1, hsession hbacks.2⟩⟩)
    · exact .inr ⟨r, hhooks ▸ hr, hcovers⟩
  hubs o ho hkey x hx := by
    rcases hkeys o ho hkey x hx with ⟨ho, hkey, hx⟩ | hretained
    · rcases h.hubs o ho hkey x hx with hretained | ⟨r, hr, hhub⟩
      · refine .inl ?_
        simp only [DB.hubIdentityIsRetained, Option.any_eq_true, Option.bind_eq_some_iff] at hretained ⊢
        obtain ⟨b, ⟨j, hj, hb⟩, hsession⟩ := hretained
        obtain ⟨b', hb', hkept, -⟩ := hrebound.after hc hc' hkeeps hb
        exact ⟨b', ⟨j, hj, hb'⟩, hkept hsession⟩
      · exact .inr ⟨r, hhooks ▸ hr, hhub⟩
    · exact .inl hretained
  next := hnext

end Lok
