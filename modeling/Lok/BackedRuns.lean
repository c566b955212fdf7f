import Lok.Backing

/-!
# Runs whose sidecars are backed

The operations of a transaction, one after the other: each preserves that what stands is backed or
looked at, the approvals on the condition that they grant a key for a client with a session only,
and take no client from another sidecar.
-/

namespace Lok

open Table Checks

variable {env : Env} {grace : Time}

/-! ## Approving an app -/

namespace DB

variable {db d e : DB}

theorem Rebound.codes {k : Pk} (h : Rebound k e d) (t : Table DeviceCode) :
    Rebound k e { d with deviceCodes := t } :=
  ⟨h.now, h.users, h.memberships, h.mandates, h.tokens, h.clients, h.gone⟩

theorem attachMeshKey_codes (pk : Pk) (key : Option String) :
    ∃ t, db.attachMeshKey pk key = { db with deviceCodes := t } := by
  unfold attachMeshKey
  split <;> exact ⟨_, rfl⟩

/-- What an approval makes of the database: the client it ends with is bound, as an installation of the app. -/
structure Approves (env : Env) (db d : DB) (pk : Pk) (p : Approval) (app : App) (node : Option Pk) : Prop where
  row : db.clients.row p.pk = some p.client
  mandate : p.client.mandate = none
  minted : p.client.clientId.minted = true
  member : ∃ x, db.memberships.row p.membership = some x
  binds : ∃ e c₁ c', Carries (fun _ => False) db e ∧ Rebound p.pk e d ∧ d.hubs = e.hubs
    ∧ e.clients.row p.pk = some c₁
    ∧ d.clients.row p.pk = some c' ∧ InstalledAs p.client c' p.membership app node

theorem Approves.codes {pk : Pk} {p : Approval} {app : App} {node : Option Pk}
    (h : Approves env db d pk p app node)
    (t : Table DeviceCode) : Approves env db { d with deviceCodes := t } pk p app node := by
  obtain ⟨e, c₁, c', hcarries, hrebound, hhubs, hc₁, hc', hinstalled⟩ := h.binds
  exact ⟨h.row, h.mandate, h.minted, h.member, e, c₁, c', hcarries, hrebound.codes t, hhubs, hc₁, hc', hinstalled⟩

theorem acceptDeviceCode_approves {user pk hub : Pk} {proof : Option Nat} {declined : List String} {allow : Bool}
    {minted : Option String} (hdb : db.ClientLaws)
    (h : db.acceptDeviceCode env user pk proof hub declined allow minted = .ok d) :
    ∃ code manifest p, db.deviceCodes.row pk = some code ∧ code.staging = .app manifest
      ∧ db.approvalOf env user pk hub = some p
      ∧ db.clientOfApproval env code manifest p.membership p.organization hub = some (p.pk, p.client)
      ∧ (∃ x, db.hubs.row hub = some x ∧ x.organization = p.organization)
      ∧ Approves env db d pk p ⟨p.organization, manifest.identifier⟩
      (db.deviceOf env manifest.deviceId p.organization).2 := by
  simp only [acceptDeviceCode, bind_ok, found_ok, require_ok, exists_unit] at h
  obtain ⟨code, hresolve, -, -, x, hx, m, hmember, hguest, h⟩ := h
  have hcode := resolveDeviceCode_ok hresolve
  split at h
  · simp at h
  · rename_i manifest hstaging
    simp only [bind_ok, pure_ok] at h
    obtain ⟨s, hs, rfl⟩ := h
    obtain ⟨staged, hstaged, hplain⟩ := hdb.staged pk code hcode
    have hmandate : ∀ c, db.clients.row code.client = some c → c.mandate = none := by
      intro c hc
      rw [hstaged] at hc
      cases hc
      exact hplain.mandate
    obtain ⟨m', row, k, c, e, c₁, c', hm, hclient, hcarries, hrebound, hhubs, hc₁, hc', hinstalled⟩ :=
      validateDeviceCode_rebinds hmandate hs
    have hplain' : c.binding.Plain := clientOfApproval_plain hdb hcode hclient
    have happroves : Approves env db s pk ⟨m', x.organization, k, c⟩ ⟨x.organization, manifest.identifier⟩
        (db.deviceOf env manifest.deviceId x.organization).2 :=
      ⟨clientOfApproval_row hclient, hplain'.mandate, hplain'.minted,
       ⟨row, (membershipOf_some hm).1⟩, e, c₁, c', hcarries,
        hrebound, hhubs, hc₁, hc', hinstalled⟩
    refine ⟨code, manifest, ⟨m', x.organization, k, c⟩, hcode, hstaging, ?_, hclient, ⟨x, hx, rfl⟩, ?_⟩
    · simp [approvalOf, hcode, hx, hm, hstaging, hclient]
    · split
      · obtain ⟨t, ht⟩ := attachMeshKey_codes pk minted
        rw [ht]
        exact happroves.codes t
      · exact happroves

/-- Whether the approval will grant a key: the mesh is allowed, there is one, and the control plane answers. -/
def willGrant (db : DB) (net : Net) (user pk hub organization : Pk) (allow : Bool) (minted : Option String) :
    Bool :=
  db.grantsMesh user pk hub allow && minted.isSome && (net.orgMesh organization).isSome

theorem acceptOnMesh_approves {net net' : Net} {user pk hub : Pk} {proof : Option Nat} {declined : List String}
    {allow : Bool} {minted : Option String} {revoked : Bool} {a? : Option Pk} (hdb : db.ClientLaws)
    (h : db.acceptOnMesh env net user pk proof hub declined allow minted revoked = .ok (d, net', a?)) :
    ∃ code manifest p, db.deviceCodes.row pk = some code ∧ code.staging = .app manifest
      ∧ db.approvalOf env user pk hub = some p
      ∧ Approves env db d pk p ⟨p.organization, manifest.identifier⟩
      (db.deviceOf env manifest.deviceId p.organization).2
      ∧ (net' = net ∨ db.willGrant net user pk hub p.organization allow minted = true
        ∧ ∃ a key, net.enrollApp d.now p.organization p.membership ⟨p.organization, manifest.identifier⟩
          (db.deviceOf env manifest.deviceId p.organization).2 minted revoked = some (net', a, key)) := by
  simp only [acceptOnMesh, bind_ok, pure_ok] at h
  obtain ⟨s, hs, h⟩ := h
  obtain ⟨code, manifest, p, hcode, hstaging, hp, hclient, ⟨x, hx, horganization⟩, happroves⟩ :=
    acceptDeviceCode_approves hdb hs
  refine ⟨code, manifest, p, hcode, hstaging, hp, ?_⟩
  split at h
  · rename_i o hgrants
    rw [Option.filter_eq_some_iff, hx] at hgrants
    obtain ⟨⟨⟩, hgrants⟩ := hgrants
    cases a? with
    | none =>
      unfold grantMeshKey at h
      dsimp only at h
      split at h
      · simp at h
      · cases h
        exact ⟨happroves, .inl rfl⟩
    | some a =>
      obtain ⟨y, c, m, r, key, hy, hc, hm, hr, henroll, rfl⟩ := grantMeshKey_some h
      obtain ⟨t, ht⟩ := attachMeshKey_codes pk (some key)
      rw [ht]
      refine ⟨happroves.codes t, .inr ⟨?_, a, key, ?_⟩⟩
      · simp only [Net.enrollApp, Option.bind_eq_bind, Option.bind_eq_some_iff, Prod.exists] at henroll
        obtain ⟨layer, row, hlayer, value, hvalue, -⟩ := henroll
        rw [horganization] at hlayer
        simp [willGrant, hgrants, hvalue, hlayer]
      · -- the enrollment is for the client the approval ends with
        obtain ⟨-, code', manifest', x', m', hcode', hstaging', hx', hm', -, hrow⟩ := acceptDeviceCode_bound hs
        rw [hcode] at hcode'
        cases hcode'
        rw [hstaging] at hstaging'
        cases hstaging'
        rw [hx] at hx'
        cases hx'
        obtain ⟨⟨c₀, c', hclient', hc', -⟩, -⟩ := hrow y hy
        obtain ⟨e, c₁, c₂, -, -, -, -, hc₂, hinstalled⟩ := happroves.binds
        have hyp : y.client = p.pk := by
          simp only [approvalOf, hcode, hx, hstaging, Option.bind_eq_bind, Option.bind_some,
            Option.bind_eq_some_iff,
            Option.pure_def, Option.some.injEq, Prod.exists] at hp
          obtain ⟨m₁, row₁, hm₁, k, c₃, hclient₃, rfl⟩ := hp
          simp only [memberOf, hm₁, Option.map_some, Option.some.injEq] at hm'
          subst hm'
          rw [hclient'] at hclient₃
          cases hclient₃
          rfl
        rw [hyp, hc₂] at hc
        cases hc
        rw [hinstalled.membership, Option.some.injEq] at hm
        have happ := hinstalled.app
        rw [hr, Option.map_some, Option.some.injEq] at happ
        rw [← hm, happ, hinstalled.node, horganization] at henroll
        exact henroll
  · cases h
    exact ⟨happroves, .inl rfl⟩

/-- Approving an app on the mesh is an action of the system, whether it granted a key or not. -/
theorem acceptOnMesh_step {net net' : Net} {user pk hub : Pk} {proof : Option Nat} {declined : List String}
    {allow : Bool} {minted : Option String} {revoked : Bool} {a? : Option Pk} (hdb : Reachable env db)
    (h : db.acceptOnMesh env net user pk proof hub declined allow minted revoked = .ok (d, net', a?)) :
    Reachable env d := by
  cases a? with
  | some a => exact acceptOnMesh_reachable hdb h
  | none =>
    simp only [acceptOnMesh, bind_ok, pure_ok] at h
    obtain ⟨s, hs, h⟩ := h
    have hsame : s = d := by
      split at h
      · unfold grantMeshKey at h
        dsimp only at h
        split at h
        · simp at h
        · cases h
          rfl
      · cases h
        rfl
    rw [← hsame]
    exact hdb.step (a := .acceptDeviceCode user pk proof hub declined allow none) (by simp only [step, settle, hs])

end DB

/-! ## One operation -/

section
variable {t t' : Transaction}

theorem Op.run_reachable (op : Op) (hdb : Reachable env t.db) (h : op.run env t = .ok t') :
    Reachable env t'.db := by
  cases op with
  | rejectAppInstallation client =>
    simp only [Op.run] at h
    split at h
    · cases h
    · rename_i d hd
      have hreached : Reachable env d := hdb.step (a := .rejectAppInstallation client) (by simp only [step, hd])
      split at h
      · cases h
        exact hreached
      · cases h
        exact hreached
  | revokeToken clientId secret token =>
    simp only [Op.run, bind_ok, pure_ok] at h
    obtain ⟨d, hd, rfl⟩ := h
    exact hdb.step (a := .revokeToken clientId secret token)
      (by simp only [step, DB.settle, hd, Transaction.becomes])
  | revokeMandate mandate =>
    simp only [Op.run, bind_ok, pure_ok] at h
    obtain ⟨d, hd, rfl⟩ := h
    exact hdb.step (a := .revokeMandate mandate) (by simp only [step, DB.settle, hd, Transaction.becomes])
  | deleteClients pks =>
    cases h
    exact hdb.delete DB.withHubs_within (by decide) (by decide) pks
  | deleteHubs pks =>
    cases h
    exact hdb.delete DB.withHubs_within (by decide) (by decide) pks
  | deleteMemberships pks =>
    cases h
    exact hdb.delete DB.withHubs_within (by decide) (by decide) pks
  | acceptDeviceCode user pk proof hub declined allow minted revoked =>
    simp only [Op.run, bind_ok, pure_ok, Prod.exists] at h
    obtain ⟨d, net, a?, hd, rfl⟩ := h
    exact DB.acceptOnMesh_step hdb hd
  | acceptHubDeviceCode user pk proof organization allow minted revoked =>
    simp only [Op.run, Transaction.acceptHub, bind_ok, pure_ok, Prod.exists] at h
    obtain ⟨d, hd, _, -, _, _, _, -, _, _, _, -, _, -, rfl⟩ := h
    refine hdb.step (a := .acceptHubDeviceCode user pk proof organization allow
      ((t.enrolledHub user pk organization allow minted revoked).map Prod.snd)) ?_
    simp only [step, DB.settle, hd, Transaction.becomes]

/-- The condition on an operation: an approval binds no client that backs another sidecar, and ends with a
client that has a session if its sidecar has a key or gets one. -/
def Op.Safe (env : Env) (grace : Time) (t : Transaction) : Op → Prop
  | .acceptDeviceCode user pk _ hub _ allow minted _ =>
    ∀ code manifest p, t.db.deviceCodes.row pk = some code → code.staging = .app manifest →
      t.db.approvalOf env user pk hub = some p →
      (p.client.membership = none ∨ p.client.membership = some p.membership
        ∧ p.client.release.map (·.app) = some ⟨p.organization, manifest.identifier⟩
        ∧ p.client.node = (t.db.deviceOf env manifest.deviceId p.organization).2)
      ∧ (t.db.willGrant t.net user pk hub p.organization allow minted = true →
        t.db.withSession grace p.client = true)
  | .acceptHubDeviceCode user pk _ organization allow minted revoked =>
    ∀ code c, t.db.deviceCodes.row pk = some code → t.db.clients.row code.client = some c →
      (∀ m x, t.db.memberships.row m = some x → x.user = user → x.organization = organization →
        c.membership = none ∨ c.membership = some m)
      ∧ (∀ hub manifest grants, t.db.hubOfApproval user pk organization allow = some (hub, manifest, grants) →
        (t.net.hubKeys hub).isSome = true
          ∨ (t.enrolledHub user pk organization allow minted revoked).isSome = true →
        t.db.withSession grace c = true)
  | _ => True

/-! ## What an operation preserves -/

theorem reapsFor_nil (db : DB) : reapsFor db [] = [] := by
  simp [reapsFor, Table.filter]

theorem Net.enrollApp_hubKeys {net n : Net} {now : Time} {organization membership a : Pk} {app : App}
    {device : Option Pk}
    {minted : Option String} {revoked : Bool} {key : String}
    (h : net.enrollApp now organization membership app device minted revoked = some (n, a, key)) :
    n.hubKeys = net.hubKeys := by
  simp only [enrollApp, Option.bind_eq_bind, Option.bind_eq_some_iff, Prod.exists, Option.pure_def,
    Option.some.injEq,
    Prod.mk.injEq] at h
  obtain ⟨_, _, -, _, -, rfl, -, -⟩ := h
  rfl

theorem Sound.delete {model : Model} (h : Sound grace t) (hdb : Reachable env t.db)
    (hmodel : model ∈ DB.withHubs ∧ model ≠ .token)
    (pks : List Pk) : Sound grace (t.becomes (t.db.delete model (pks.map fun pk => ⟨model, pk⟩) none) []) := by
  have hroots : ∀ r ∈ pks.map fun pk => (⟨model, pk⟩ : Ref), r.model ∈ DB.withHubs ∧ r.model ≠ .token := by
    intro r hr
    obtain ⟨k, -, rfl⟩ := List.mem_map.mp hr
    exact hmodel
  have hd : Reachable env (t.db.delete model (pks.map fun pk => ⟨model, pk⟩) none) :=
    hdb.delete DB.withHubs_within (by decide) hmodel.1 pks
  exact h.becomes hd.identities (DB.Carries.delete hroots model none) fun _ (hk : False) => hk.elim

theorem Sound.rejects {client : Pk} (h : Sound grace t) (hdb : Reachable env t.db)
    (hrun : (Op.rejectAppInstallation client).run env t = .ok t') : Sound grace t' := by
  have hdb' : Reachable env t'.db := Op.run_reachable _ hdb hrun
  simp only [Op.run] at hrun
  split at hrun
  · cases hrun
  · rename_i d hd
    have hreached : Reachable env d := hdb.step (a := .rejectAppInstallation client) (by simp only [step, hd])
    have hafter := h.becomes hreached.identities (DB.rejectAppInstallation_carries hd) fun _ hk => hk
    split at hrun
    · cases hrun
      exact hafter
    · cases hrun
      refine hafter.net rfl rfl rfl (fun a x hx => ?_) fun _ hkey => hkey
      exact .inl (keep_row_eq_some.mp hx).1

theorem Sound.accepts {user pk hub : Pk} {proof : Option Nat} {declined : List String} {allow : Bool}
    {minted : Option String}
    {revoked : Bool} (h : Sound grace t) (hdb : Reachable env t.db)
    (hsafe : (Op.acceptDeviceCode user pk proof hub declined allow minted revoked).Safe env grace t)
    (hrun : (Op.acceptDeviceCode user pk proof hub declined allow minted revoked).run env t = .ok t') :
    Sound grace t' := by
  have hdb' : Reachable env t'.db := Op.run_reachable _ hdb hrun
  simp only [Op.run, bind_ok, pure_ok, Prod.exists] at hrun
  obtain ⟨d, net, a?, hd, rfl⟩ := hrun
  obtain ⟨code, manifest, p, hcode, hstaging, hp, happroves, hnet⟩ := DB.acceptOnMesh_approves hdb.clientLaws hd
  obtain ⟨hplace, hgrants⟩ := hsafe code manifest p hcode hstaging hp
  obtain ⟨e, c₁, c', hcarries, hrebound, hhubs, hc₁, hc', hinstalled⟩ := happroves.binds
  have hdb' : Reachable env d := hdb'
  -- the state the approval binds the client in, and from it the one it leaves
  obtain ⟨c₀, hc₀, hsame⟩ := hcarries.clients p.pk c₁ hc₁
  rw [happroves.row] at hc₀
  cases hc₀
  have hmember : ∀ {x k c}, t.db.hubs.row x = some k → k.client = some c → c = p.pk →
    ∃ m, c₁.membership = some m := by
    intro x k c hx hk heq
    obtain ⟨b, m, hb, hm⟩ := h.identities.bound x k c hx hk
    rw [heq, happroves.row] at hb
    cases hb
    exact ⟨m, hsame.membership.trans hm⟩
  have hidentities : e.Identities := by
    refine ⟨fun o x k hx hk => ?_,
      fun i j x y k hx hy => hdb'.identities.unique i j x y k (hhubs ▸ hx) (hhubs ▸ hy)⟩
    by_cases hkp : k = p.pk
    · obtain ⟨x₀, hx₀, hk₀⟩ := hcarries.before hx hk
      obtain ⟨m, hm⟩ := hmember hx₀ hk₀ hkp
      exact ⟨c₁, m, hkp ▸ hc₁, hm⟩
    · obtain ⟨b', m, hb', hm⟩ := hdb'.identities.bound o x k (hhubs ▸ hx) hk
      obtain ⟨b, hb, hbound⟩ := hrebound.clients k b' hb' hkp
      exact ⟨b, m, hb, hbound.membership ▸ hm⟩
  have hbefore : Sound grace (t.becomes e []) := h.becomes hidentities hcarries fun _ hk => hk.elim
  have hkeeps : Keeps e.memberships c₁ c' := by
    refine ⟨hinstalled.clientId.trans hsame.clientId.symm, hinstalled.createdAt.trans hsame.createdAt.symm, ?_, ?_,
      fun m hm => ?_, ?_⟩
    · rw [hinstalled.mandate, hsame.mandate, happroves.mandate]
    · rw [hsame.clientId]
      exact happroves.minted
    · obtain ⟨-, g, hg, -⟩ := (hdb'.clientLaws.lawful p.pk c' hc').bound m hm
      exact ⟨g, hrebound.memberships ▸ hg⟩
    · rw [hsame.membership, hsame.release, hsame.node, hinstalled.membership, hinstalled.app, hinstalled.node]
      exact hplace.imp_right fun hsame => ⟨hsame.1.symm, hsame.2.1.symm, hsame.2.2.symm⟩
  have hbound : Sound grace { t.becomes e [] with db := d } := by
    refine hbefore.rebinds hdb'.identities hrebound hc₁ hc' hkeeps rfl (fun _ _ hx => hx)
      (fun o x hx => .inl (hhubs ▸ hx)) (fun o ho hkey x hx => .inl ⟨ho, hkey, hhubs ▸ hx⟩) fun o ho => ?_
    have hlt := hbefore.next o ho
    show o < d.hubs.next
    rw [hhubs]
    exact hlt
  have hgone : ∀ k, (d.clients.row k).isNone = (e.clients.row k).isNone := by
    intro k
    cases hk : d.clients.row k with
    | none => rw [hrebound.gone k hk]
    | some b' =>
      obtain ⟨b, hb, -⟩ := hrebound.before hc₁ hc' hkeeps hk
      rw [hb]
      rfl
  have hsession : t.db.withSession grace p.client = true → d.withSession grace c' = true := fun hsession =>
    hrebound.session hkeeps.clientId hkeeps.createdAt hkeeps.mandate
      (hcarries.sessions h.tidy grace p.pk p.client c₁ happroves.row hc₁ happroves.minted id hsession)
  refine hbound.net rfl ?_ ?_ (fun a x hx => ?_) fun o hkey => ?_
  · simp only [Transaction.becomes, reapsOfDeleted, hgone, reapsFor_nil]
  · simp only [Transaction.becomes, touchedHubs, hgone]
  · obtain ⟨hx, hthere⟩ := keep_row_eq_some.mp hx
    have hkept : t.net.enrollments.row a = some x → (t.net.follow e).enrollments.row a = some x := fun hx =>
      keep_row_eq_some.mpr ⟨hx, hrebound.memberships ▸ hthere⟩
    rcases hnet with rfl | ⟨hwill, b, key, henroll⟩
    · exact .inl (hkept hx)
    · obtain ⟨⟨y, hy, hof, -, -⟩, hrest⟩ := Net.enrollApp_ok henroll
      by_cases hab : a = b
      · -- the enrollment the key is for
        subst hab
        rw [hy] at hx
        cases hx
        simp only [AppMeshEnrollment.isOf, Bool.and_eq_true, beq_iff_eq] at hof
        obtain ⟨⟨hm, ha⟩, hn⟩ := hof
        refine .inr (exists?_eq_true.mpr ⟨p.pk, c', hc', Bool.and_eq_true_iff.mpr ⟨?_, hsession (hgrants hwill)⟩⟩)
        simp [standsFor, AppMeshEnrollment.standsFor, hm, ha, hn, hinstalled.membership,
          hinstalled.node, hinstalled.app]
      · exact .inl (hkept (hrest a x hx hab))
  · have hkeys : net.hubKeys = t.net.hubKeys := by
      rcases hnet with rfl | ⟨-, b, key, henroll⟩
      · rfl
      · exact Net.enrollApp_hubKeys henroll
    have hfollow : (net.follow d).hubKeys o = (t.net.follow e).hubKeys o := by
      simp only [Net.follow, hkeys, hhubs]
    show ((t.net.follow e).hubKeys o).isSome = true
    rw [← hfollow]
    exact hkey

theorem DB.acceptHubDeviceCode_binds {db d e : DB} {user pk organization hub membership o : Pk}
    {proof : Option Nat} {allow grants : Bool}
    {minted : Option String} {code : DeviceCode} {manifest : HubManifest} {c : Client}
    (h : db.acceptHubDeviceCode env user pk proof organization allow minted = .ok d)
    (hcode : db.deviceCodes.row pk = some code)
    (hof : db.hubOfApproval user pk organization allow = some (o, manifest, grants))
    (he : db.provisionServices env manifest user organization = .ok (e, hub, membership))
    (hc : e.clients.row code.client = some c) :
    ∃ x, e.hubs.row hub = some x ∧ (∀ k y, k ≠ hub → e.hubs.row k = some y → y.client ≠ some code.client)
      ∧ Carries (fun _ => False) (e.withIdentity hub code.client c membership organization) d ∧ hub = o := by
  simp only [acceptHubDeviceCode, bind_ok, found_ok, require_ok, exists_unit] at h
  obtain ⟨code', hresolve, -, -, -, -, h⟩ := h
  rw [resolveDeviceCode_ok hresolve] at hcode
  cases hcode
  simp only [hubOfApproval, resolveDeviceCode_ok hresolve, Option.bind_eq_bind, Option.bind_some] at hof
  split at h
  · simp at h
  · rename_i manifest' hstaging
    simp only [hstaging, Option.pure_def, Option.some.injEq, Prod.mk.injEq] at hof
    obtain ⟨hhub, rfl, -⟩ := hof
    obtain ⟨e', hub', membership', c', x, s, he', hc', hx, hs, codes, rfl, -⟩ := provisionHub_ok h
    rw [he] at he'
    cases he'
    rw [hc] at hc'
    cases hc'
    obtain ⟨hunique, hcarries⟩ := bindHubIdentity_carries hs
    refine ⟨x, hx, hunique, hcarries.trans (Beside.carries ?_), ?_⟩
    · exact ⟨rfl, rfl, rfl, rfl, rfl, fun _ m hm => ⟨m, hm, rfl⟩, Nat.le_refl _, fun _ y hy => .inl ⟨y, hy, rfl⟩⟩
    · rw [← hhub]
      simp only [provisionServices, bind_ok, found_ok, reraise_ok, pure_ok, Prod.exists, Prod.mk.injEq] at he
      obtain ⟨-, -, -, -, -, -, -, -, -, -, rfl, -⟩ := he
      rfl

theorem DB.Identities.withIdentity {db : DB} {hub client membership organization : Pk} {c : Client}
    (h : db.Identities)
    (hunique : ∀ k y, k ≠ hub → db.hubs.row k = some y → y.client ≠ some client) :
    (db.withIdentity hub client c membership organization).Identities := by
  refine ⟨fun i y k hy hk => ?_, h.identified_unique hunique⟩
  by_cases hkc : k = client
  · subst hkc
    refine ⟨{ c with membership := some membership, organization := some organization, scope := ["openid"] },
      membership, ?_, rfl⟩
    simp only [DB.withIdentity]
    rw [put_row, if_pos rfl]
  · rcases DB.identified_row hy hk with ⟨-, rfl⟩ | ⟨-, hy⟩
    · exact absurd rfl hkc
    · obtain ⟨b, m, hb, hm⟩ := h.bound i y k hy hk
      refine ⟨b, m, ?_, hm⟩
      simp only [DB.withIdentity]
      rw [put_row, if_neg hkc]
      exact hb

theorem Transaction.enrolledHub_some {t : Transaction} {user pk organization hub : Pk}
    {allow grants revoked : Bool}
    {minted : Option String} {manifest : HubManifest} {granted : Net × String}
    (hof : t.db.hubOfApproval user pk organization allow = some (hub, manifest, grants))
    (h : t.enrolledHub user pk organization allow minted revoked = some granted) :
    granted.1.enrollments = t.net.enrollments ∧ ∀ o, o ≠ hub → granted.1.hubKeys o = t.net.hubKeys o := by
  simp only [enrolledHub, hof, Option.bind_eq_bind, Option.bind_some] at h
  split at h
  · simp only [Net.enrollHub, Option.bind_eq_bind, Option.bind_eq_some_iff, Prod.exists, Option.pure_def,
      Option.some.injEq] at h
    obtain ⟨_, _, -, _, -, rfl⟩ := h
    exact ⟨rfl, fun o ho => if_neg ho⟩
  · cases h

theorem Transaction.enrolledHub_enrollments {t : Transaction} {user pk organization hub : Pk} {allow grants : Bool}
    {manifest : HubManifest} (hof : t.db.hubOfApproval user pk organization allow = some (hub, manifest, grants))
    (minted : Option String) (revoked : Bool) :
    (((t.enrolledHub user pk organization allow minted revoked).map Prod.fst).getD t.net).enrollments
    = t.net.enrollments := by
  cases henrolled : t.enrolledHub user pk organization allow minted revoked with
  | none => rfl
  | some granted => exact (t.enrolledHub_some hof henrolled).1

theorem Sound.acceptsHub {user pk organization : Pk} {proof : Option Nat} {allow : Bool} {minted : Option String}
    {revoked : Bool} (h : Sound grace t) (hdb : Reachable env t.db)
    (hsafe : (Op.acceptHubDeviceCode user pk proof organization allow minted revoked).Safe env grace t)
    (hrun : (Op.acceptHubDeviceCode user pk proof organization allow minted revoked).run env t = .ok t') :
    Sound grace t' := by
  have hdb' : Reachable env t'.db := Op.run_reachable _ hdb hrun
  simp only [Op.run, Transaction.acceptHub, bind_ok, found_ok, pure_ok, Prod.exists, Table.get_ok] at hrun
  obtain ⟨d, hd, code, hcode, o, manifest, grants, hof, e, hub, membership, he, c, hc, rfl⟩ := hrun
  have hdb' : Reachable env d := hdb'
  obtain ⟨x, hx, hunique, hbinds, hhub⟩ := DB.acceptHubDeviceCode_binds hd hcode hof he hc
  subst hhub
  have hcarries : DB.Carries (fun _ => False) t.db e := DB.carries_steps.provisionServices he
  obtain ⟨hwrites, ⟨-, g, hg, -⟩, m, hm, huser, horganization⟩ :=
    DB.provisionServices_writes (A := .free) (fun _ _ => trivial) he
  have hidentities : e.Identities :=
    hwrites.invariant (I := DB.Identities) (fun hI hw _ => hI.write hw) h.identities
  obtain ⟨c₀, hc₀, hsame⟩ := hcarries.clients code.client c hc
  obtain ⟨hplace, hgrants⟩ := hsafe code c₀ hcode hc₀
  have hminted : c₀.clientId.minted = true := by
    obtain ⟨b, hb, hplain⟩ := hdb.clientLaws.staged pk code hcode
    rw [hc₀] at hb
    cases hb
    exact hplain.minted
  have hkeeps : Keeps e.memberships c
      { c with membership := some membership, organization := some organization, scope := ["openid"] } := by
    refine ⟨rfl, rfl, rfl, by rw [hsame.clientId]; exact hminted, fun k hk => ⟨g, Option.some.inj hk ▸ hg⟩, ?_⟩
    rw [hsame.membership]
    exact (hplace membership m hm huser horganization).imp_right fun heq => ⟨heq.symm, rfl, rfl⟩
  have hc' : (e.withIdentity hub code.client c membership organization).clients.row code.client
      = some { c with membership := some membership, organization := some organization, scope := ["openid"] } := by
    simp only [DB.withIdentity]
    rw [put_row, if_pos rfl]
  have hsession : t.db.withSession grace c₀ = true →
      (e.withIdentity hub code.client c membership organization).withSession grace
        { c with membership := some membership, organization := some organization, scope := ["openid"] } = true :=
    fun hsession => (DB.withIdentity_rebinds hub code.client c membership organization).session rfl rfl rfl
      (hcarries.sessions h.tidy grace code.client c₀ c hc₀ hc hminted id hsession)
  refine Sound.becomes ?_ hdb'.identities hbinds fun _ hk => hk.elim
  have hbefore : Sound grace (t.becomes e []) := h.becomes hidentities hcarries fun _ hk => hk.elim
  have hkeys : ∀ o,
      ((((t.enrolledHub user pk organization allow minted revoked).map Prod.fst).getD t.net).hubKeys o).isSome = true →
      (t.net.hubKeys o).isSome = true
        ∨ o = hub ∧ (t.enrolledHub user pk organization allow minted revoked).isSome = true := by
    intro o hkey
    cases henrolled : t.enrolledHub user pk organization allow minted revoked with
    | none =>
      rw [henrolled] at hkey
      exact .inl hkey
    | some granted =>
      rw [henrolled] at hkey
      by_cases ho : o = hub
      · exact .inr ⟨ho, rfl⟩
      · refine .inl ?_
        rw [← (t.enrolledHub_some hof henrolled).2 o ho]
        exact hkey
  have hrows := t.enrolledHub_enrollments hof minted revoked
  generalize ((t.enrolledHub user pk organization allow minted revoked).map Prod.fst).getD t.net = n at hkeys hrows ⊢
  refine hbefore.rebinds ?_ (DB.withIdentity_rebinds hub code.client c membership organization) hc
    hc' hkeeps rfl ?_ ?_ ?_ ?_
  · exact hidentities.withIdentity hunique
  · intro a y hy
    have hy : (n.follow e).enrollments.row a = some y := hy
    simp only [Net.follow, hrows] at hy
    exact hy
  · intro o y hy
    rcases modify_row_eq_some.mp hy with ⟨-, hy⟩ | ⟨-, z, -, rfl⟩
    · exact .inl hy
    · exact .inr rfl
  · intro o ho hkey y hy
    have hrow : ∃ z, e.hubs.row o = some z := by
      rcases modify_row_eq_some.mp hy with ⟨-, hz⟩ | ⟨-, z, hz, -⟩
      · exact ⟨y, hz⟩
      · exact ⟨z, hz⟩
    obtain ⟨z, hz⟩ := hrow
    have hkey : (n.hubKeys o).isSome = true := by
      simpa [Net.follow, Transaction.becomes, hz] using hkey
    rcases modify_row_eq_some.mp hy with ⟨hne, hy⟩ | ⟨heq, z, -, rfl⟩
    · refine .inl ⟨?_, ?_, hy⟩
      · rcases List.mem_append.mp ho with ho | ho
        · exact ho
        · exact absurd (List.mem_singleton.mp ho) hne
      · have hkey := (hkeys o hkey).resolve_right fun hown => hne hown.1
        show ((t.net.follow e).hubKeys o).isSome = true
        simp only [Net.follow, hz, Option.bind_some]
        exact hkey
    · -- the hub itself, with its new identity
      refine .inr ?_
      simp only [DB.hubIdentityIsRetained, Option.bind_some, hc', Option.any_some]
      refine hsession (hgrants hub manifest grants hof ?_)
      rw [heq] at hkey
      exact (hkeys hub hkey).imp_right And.right
  · intro o ho
    rcases List.mem_append.mp ho with ho | ho
    · exact hbefore.next o ho
    · rw [List.mem_singleton.mp ho]
      exact lt_next (t := e.hubs) hx

theorem Sound.step (op : Op) (h : Sound grace t) (hdb : Reachable env t.db) (hsafe : op.Safe env grace t)
    (hrun : op.run env t = .ok t') : Sound grace t' := by
  cases op with
  | rejectAppInstallation client => exact h.rejects hdb hrun
  | revokeToken clientId secret token =>
    have hdb' : Reachable env t'.db := Op.run_reachable _ hdb hrun
    simp only [Op.run, bind_ok, pure_ok] at hrun
    obtain ⟨d, hd, rfl⟩ := hrun
    have hd' : Reachable env d := hdb'
    refine h.becomes hd'.identities (DB.revokeToken_carries hd) fun k hk => ?_
    exact mem_pks.mpr hk
  | revokeMandate mandate =>
    have hdb' : Reachable env t'.db := Op.run_reachable _ hdb hrun
    simp only [Op.run, bind_ok, pure_ok] at hrun
    obtain ⟨d, hd, rfl⟩ := hrun
    have hd' : Reachable env d := hdb'
    exact h.becomes hd'.identities (DB.revokeMandate_carries hd) fun _ (hk : False) => hk.elim
  | deleteClients pks =>
    cases hrun
    exact h.delete hdb (by decide) pks
  | deleteHubs pks =>
    cases hrun
    exact h.delete hdb (by decide) pks
  | deleteMemberships pks =>
    cases hrun
    exact h.delete hdb (by decide) pks
  | acceptDeviceCode => exact h.accepts hdb hsafe hrun
  | acceptHubDeviceCode => exact h.acceptsHub hdb hsafe hrun

/-! ## What an operation leaves of the enrollments -/

/-- An enrollment goes with its installation only. -/
def Keeping (s : Net) (t : Transaction) : Prop :=
  ∀ a x, s.enrollments.row a = some x →
    x.installation ∈ t.ended ∨ ∃ x', t.net.enrollments.row a = some x' ∧ x'.installation = x.installation

theorem Keeping.becomes {s : Net} (h : Keeping s t) (d : DB) (named : List Pk) :
    Keeping s (t.becomes d named) := by
  intro a x hx
  rcases h a x hx with hended | ⟨x', hx', hsame⟩
  · exact .inl (List.mem_append_left _ hended)
  · cases hm : d.memberships.row x'.membership with
    | none =>
      refine .inl (List.mem_append_right _ (List.mem_map.mpr ⟨(a, x'), mem_filter.mpr ⟨hx', ?_⟩, hsame⟩))
      simp [hm]
    | some m => exact .inr ⟨x', keep_row_eq_some.mpr ⟨hx', by simp [hm]⟩, hsame⟩

theorem Keeping.net {s n : Net} (h : Keeping s t)
    (hn : ∀ a x, t.net.enrollments.row a = some x →
      ∃ x', n.enrollments.row a = some x' ∧ x'.installation = x.installation) :
    Keeping s { t with net := n } := by
  intro a x hx
  rcases h a x hx with hended | ⟨x', hx', hsame⟩
  · exact .inl hended
  · obtain ⟨x'', hx'', hsame'⟩ := hn a x' hx'
    exact .inr ⟨x'', hx'', hsame'.trans hsame⟩

theorem Net.enrollApp_keeps {net n : Net} {now : Time} {organization membership b : Pk} {app : App}
    {device : Option Pk}
    {minted : Option String} {revoked : Bool} {key : String}
    (h : net.enrollApp now organization membership app device minted revoked = some (n, b, key)) {a : Pk}
    {x : AppMeshEnrollment}
    (hx : net.enrollments.row a = some x) :
    ∃ x', n.enrollments.row a = some x' ∧ x'.installation = x.installation := by
  simp only [enrollApp, Option.bind_eq_bind, Option.bind_eq_some_iff, Prod.exists, Option.pure_def,
    Option.some.injEq,
    Prod.mk.injEq] at h
  obtain ⟨_, _, -, _, -, rfl, -, -⟩ := h
  have hthere : (net.getOrCreateEnrollment organization membership app device).1.row a = some x := by
    unfold getOrCreateEnrollment
    split
    · exact hx
    · exact insert_row_of_some hx
  dsimp only
  rw [modify_row, hthere]
  split <;> exact ⟨_, rfl, rfl⟩

theorem DB.acceptOnMesh_keeps {db d : DB} {net net' : Net} {user pk hub : Pk} {proof : Option Nat}
    {declined : List String} {allow : Bool}
    {minted : Option String} {revoked : Bool} {a? : Option Pk} (hdb : db.ClientLaws)
    (h : db.acceptOnMesh env net user pk proof hub declined allow minted revoked = .ok (d, net', a?)) {a : Pk}
    {x : AppMeshEnrollment}
    (hx : net.enrollments.row a = some x) :
    ∃ x', net'.enrollments.row a = some x' ∧ x'.installation = x.installation := by
  obtain ⟨_, _, _, -, -, -, -, rfl | ⟨-, b, key, henroll⟩⟩ := acceptOnMesh_approves hdb h
  · exact ⟨x, hx, rfl⟩
  · exact Net.enrollApp_keeps henroll hx

theorem Keeping.step {s : Net} (op : Op) (h : Keeping s t) (hdb : Reachable env t.db)
    (hrun : op.run env t = .ok t') :
    Keeping s t' := by
  cases op with
  | rejectAppInstallation client =>
    simp only [Op.run] at hrun
    split at hrun
    · cases hrun
    · rename_i d hd
      split at hrun
      · cases hrun
        exact h.becomes _ _
      · rename_i i hi
        cases hrun
        intro a x hx
        rcases h.becomes d (t.db.rejectedClients client) a x hx with hended | ⟨x', hx', hsame⟩
        · exact .inl (List.mem_append_left _ hended)
        · cases hof : x'.isOf i.1 i.2.1 i.2.2 with
          | true =>
            -- the rejected installation's own
            simp only [AppMeshEnrollment.isOf, Bool.and_eq_true, beq_iff_eq] at hof
            refine .inl (List.mem_append_right _ (List.mem_singleton.mpr ?_))
            rw [← hsame]
            simp [AppMeshEnrollment.installation, hof]
          | false => exact .inr ⟨x', keep_row_eq_some.mpr ⟨hx', by rw [hof]; rfl⟩, hsame⟩
  | revokeToken clientId secret token =>
    simp only [Op.run, bind_ok, pure_ok] at hrun
    obtain ⟨d, -, rfl⟩ := hrun
    exact h.becomes _ _
  | revokeMandate mandate =>
    simp only [Op.run, bind_ok, pure_ok] at hrun
    obtain ⟨d, -, rfl⟩ := hrun
    exact h.becomes _ _
  | deleteClients pks =>
    cases hrun
    exact h.becomes _ _
  | deleteHubs pks =>
    cases hrun
    exact h.becomes _ _
  | deleteMemberships pks =>
    cases hrun
    exact h.becomes _ _
  | acceptDeviceCode user pk proof hub declined allow minted revoked =>
    simp only [Op.run, bind_ok, pure_ok, Prod.exists] at hrun
    obtain ⟨d, net, a?, hd, rfl⟩ := hrun
    exact (h.net fun a x hx => DB.acceptOnMesh_keeps hdb.clientLaws hd hx).becomes _ _
  | acceptHubDeviceCode user pk proof organization allow minted revoked =>
    simp only [Op.run, Transaction.acceptHub, bind_ok, found_ok, pure_ok, Prod.exists] at hrun
    obtain ⟨d, -, code, -, o, manifest, grants, hof, e, hub, membership, -, c, -, rfl⟩ := hrun
    have hrows := t.enrolledHub_enrollments hof minted revoked
    have hkept := (h.net (n := ((t.enrolledHub user pk organization allow minted revoked).map Prod.fst).getD t.net)
      fun a x hx => ⟨x, by rw [hrows]; exact hx, rfl⟩).becomes e []
    exact Keeping.becomes (t := { ({ t with net := _ } : Transaction).becomes e [] with db := _, touched := _ })
      hkept d []

end

/-! ## A transaction and its hooks -/

/-- Each operation of the transaction meets its condition, as far as it gets. -/
def SafeOps (env : Env) (grace : Time) : Transaction → List Op → Prop
  | _, [] => True
  | t, op :: ops => op.Safe env grace t ∧ ∀ t', op.run env t = .ok t' → SafeOps env grace t' ops

theorem Sound.run : ∀ {ops : List Op} {t t' : Transaction}, Sound grace t → Reachable env t.db →
    SafeOps env grace t ops →
    ops.foldlM (Op.run env) t = .ok t' → Sound grace t' ∧ Reachable env t'.db
  | [], t, t', h, hdb, _, hrun => by
    cases hrun
    exact ⟨h, hdb⟩
  | op :: ops, t, t', h, hdb, hsafe, hrun => by
    rw [List.foldlM_cons, bind_ok] at hrun
    obtain ⟨u, hu, hrun⟩ := hrun
    exact (h.step op hdb hsafe.1 hu).run (Op.run_reachable op hdb hu) (hsafe.2 u hu) hrun

theorem Keeping.run {s : Net} : ∀ {ops : List Op} {t t' : Transaction}, Keeping s t → Reachable env t.db →
    ops.foldlM (Op.run env) t = .ok t' → Keeping s t'
  | [], t, t', h, _, hrun => by
    cases hrun
    exact h
  | op :: ops, t, t', h, hdb, hrun => by
    rw [List.foldlM_cons, bind_ok] at hrun
    obtain ⟨u, hu, hrun⟩ := hrun
    exact (h.step op hdb hu).run (Op.run_reachable op hdb hu) hrun

theorem Transaction.commit_spares {t : Transaction} {a : Pk} {x : AppMeshEnrollment}
    (hx : t.net.enrollments.row a = some x)
    (hretained : t.db.enrollmentIsRetained grace x.membership x.app x.device = true) :
    (t.commit grace).enrollments.row a = some x := by
  refine foldl_invariant (P := fun n : Net => n.enrollments.row a = some x) (fun r _ n hn => ?_) hx
  obtain ⟨n', hn', hhub⟩ := r.run_eq t.db n
  have hx' : n'.enrollments.row a = some x := by
    rcases hn' with ⟨app, membership, -, -, rfl⟩ | ⟨rfl, -⟩
    · exact Net.reapEnrollment_spares hn hretained
    · exact hn
  rcases hhub with ⟨pk, o, -, -, heq⟩ | ⟨heq, -⟩
  · rw [heq, Net.reapHubSidecar_enrollments]
    exact hx'
  · rw [heq]
    exact hx'

/-! ## Runs of the deployment -/

/-- Every token under an id that was minted for a client is for the membership the client is bound to. -/
def DB.TokensOwned (db : DB) : Prop :=
  ∀ k c pk t, db.clients.row k = some c → c.clientId.minted = true → db.tokens.row pk = some t →
    t.clientId = c.clientId →
    c.membership = some t.user

theorem Reachable.tidy {db : DB} (h : Reachable env db) (howned : db.TokensOwned) : db.Tidy where
  minted k c m hc hm := ((h.clientLaws.lawful k c hc).bound m hm).1
  member k c m hc hm := by
    obtain ⟨-, g, hg, -⟩ := (h.clientLaws.lawful k c hc).bound m hm
    exact ⟨g, hg⟩
  unique j k b c hb hc hid hminted := by
    cases hnumber : b.clientId with
    | uuid n =>
      exact h.clientLaws.drawn.unique j k b c n hb hc (by rw [hnumber]; rfl) (by rw [← hid, hnumber]; rfl)
    | named s =>
      rw [hnumber] at hminted
      cases hminted
  owned := howned
  identity o x k c hx hk hc := by
    obtain ⟨c₀, m, hc₀, hm⟩ := h.identities.bound o x k hx hk
    rw [hc] at hc₀
    cases hc₀
    exact ((h.clientLaws.lawful k c hc).bound m hm).1
  hubs := h.identities.unique

/-- Where a run may start: no hub was touched yet, and the enrollments there are have a retained client. -/
structure Deployment.Starts (env : Env) (grace : Time) (s : Deployment) : Prop where
  reachable : Reachable env s.db
  owned : s.db.TokensOwned
  touched : s.touched = []
  enrollments : ∀ a x, s.net.enrollments.row a = some x →
    s.db.enrollmentIsRetained grace x.membership x.app x.device = true

/-- The client backs an enrollment, or is the identity of a hub that was touched and has a key. -/
def Deployment.Backer (s : Deployment) (k : Pk) (c : Client) : Prop :=
  (∃ a x, s.net.enrollments.row a = some x ∧ x.standsFor c = true)
    ∨ ∃ h ∈ s.touched, (s.net.hubKeys h).isSome = true ∧ ∃ x, s.db.hubs.row h = some x ∧ x.client = some k

/-- The condition on an event: no backer's session runs out as time passes, and every operation meets its own. -/
def DeploymentEvent.Safe (env : Env) (grace : Time) (s : Deployment) : DeploymentEvent → Prop
  | .tick seconds => ∀ k c, s.db.clients.row k = some c → s.Backer k c → s.db.withSession grace c = true →
      ({ s.db with now := s.db.now + seconds } : DB).withSession grace c = true
  | .transaction ops => SafeOps env grace s.begin ops

structure Deployment.Well (env : Env) (grace : Time) (s : Deployment) : Prop where
  reachable : Reachable env s.db
  owned : s.db.TokensOwned
  touched : ∀ h ∈ s.touched, h < s.db.hubs.next
  backed : Backed grace s

theorem Deployment.Starts.well {s : Deployment} (h : s.Starts env grace) : s.Well env grace :=
  ⟨h.reachable, h.owned, by simp [h.touched], h.enrollments, by simp [h.touched]⟩

theorem Deployment.Well.begin {s : Deployment} (h : s.Well env grace) : Sound grace s.begin where
  tidy := h.reachable.tidy h.owned
  identities := h.reachable.identities
  enrollments a x hx := .inl (h.backed.enrollments a x hx)
  hubs o ho hkey x hx := .inl (h.backed.hubs o ho hkey x hx)
  next := h.touched

theorem Deployment.Well.step {s s' : Deployment} {e : DeploymentEvent} (h : s.Well env grace)
    (hsafe : e.Safe env grace s)
    (hstep : Happens env grace s e s') : s'.Well env grace := by
  cases hstep with
  | tick seconds =>
    refine ⟨h.reachable.step (a := .tick seconds) rfl, h.owned, h.touched, fun a x hx => ?_,
      fun o ho hkey x hx => ?_⟩
    · obtain ⟨k, c, hc, hbacks⟩ := exists?_eq_true.mp (h.backed.enrollments a x hx)
      rw [Bool.and_eq_true] at hbacks
      refine exists?_eq_true.mpr ⟨k, c, hc, Bool.and_eq_true_iff.mpr ⟨hbacks.1, ?_⟩⟩
      exact hsafe k c hc (.inl ⟨a, x, hx, hbacks.1⟩) hbacks.2
    · have hretained := h.backed.hubs o ho hkey x hx
      simp only [DB.hubIdentityIsRetained, Option.any_eq_true, Option.bind_eq_some_iff] at hretained ⊢
      obtain ⟨c, ⟨k, hk, hc⟩, hsession⟩ := hretained
      exact ⟨c, ⟨k, hk, hc⟩, hsafe k c hc (.inr ⟨o, ho, hkey, x, hx, hk⟩) hsession⟩
  | @commit ops t hrun =>
    obtain ⟨hsound, hreachable⟩ := h.begin.run h.reachable hsafe hrun
    exact ⟨hreachable, hsound.tidy.owned, hsound.next, hsound.backed⟩
  | rollback => exact h

/-- Where every step meets its condition, every enrollment has a retained client and so has every touched
hub with a key. What a transaction ends with a retained client for, it keeps. -/
theorem sidecars_backed {s₀ s : Deployment} {es : List DeploymentEvent} (hstart : s₀.Starts env grace)
    (hrun : Runs.Run (fun s e s' => e.Safe env grace s ∧ Happens env grace s e s') s₀ es s) :
    Backed grace s ∧ ∀ (ops : List Op) (t : Transaction), ops.foldlM (Op.run env) s.begin = .ok t →
    ∀ a x, s.net.enrollments.row a = some x →
      x.installation ∉ t.ended → t.db.enrollmentIsRetained grace x.membership x.app x.device = true →
      ∃ x', (t.commit grace).enrollments.row a = some x' ∧ x'.installation = x.installation := by
  have hwell : s.Well env grace :=
    hrun.invariant (P := Deployment.Well env grace) (fun hs hst => hs.step hst.1 hst.2) hstart.well
  refine ⟨hwell.backed, fun ops t ht a x hx hended hretained => ?_⟩
  have hkeeping : Keeping s.net t := Keeping.run (fun _ y hy => .inr ⟨y, hy, rfl⟩) hwell.reachable ht
  obtain ⟨x', hx', hsame⟩ := (hkeeping a x hx).resolve_left hended
  refine ⟨x', t.commit_spares hx' ?_, hsame⟩
  obtain ⟨hm, hrest⟩ := Prod.mk.inj hsame
  obtain ⟨happ, hdevice⟩ := Prod.mk.inj hrest
  rw [hm, happ, hdevice]
  exact hretained

/-! ## Two runs -/

/-- What a transaction makes of the deployment. -/
def Deployment.transact (env : Env) (grace : Time) (s : Deployment) (ops : List Op) : Deployment :=
  match ops.foldlM (Op.run env) s.begin with
  | .ok t => ⟨t.db, t.commit grace, t.touched⟩
  | .error _ => s

theorem Happens.transact (s : Deployment) (ops : List Op) :
    Happens env grace s (.transaction ops) (s.transact env grace ops) := by
  unfold Deployment.transact
  split
  · rename_i t ht
    exact .commit ht
  · rename_i e he
    exact .rollback he

def meshSidecarGraceSeconds : Time := 14 * 24 * 60 * 60

/-- The app asks to be approved, on a mesh nobody is on. -/
def askingDeployment : Deployment := ⟨run plainEnv .empty askingApp, annsMesh, []⟩

def approves : List Op := [.acceptDeviceCode 0 0 (some 1) 0 [] true (some "mesh") false]

/-- An approval and a minute after it. -/
theorem sidecars_backed_approved : ∃ s,
    Runs.Run (Happens plainEnv meshSidecarGraceSeconds) askingDeployment [.transaction approves, .tick 60] s
      ∧ Backed meshSidecarGraceSeconds s ∧ ∃ a x, s.net.enrollments.row a = some x := by
  have hstart : askingDeployment.Starts plainEnv meshSidecarGraceSeconds := by
    have htokens : ∀ pk t, (run plainEnv .empty askingApp).tokens.row pk = some t → False := by
      simp only [forall_row_iff]
      decide +kernel
    exact ⟨reachable_run plainEnv askingApp, fun _ _ pk t _ _ ht => (htokens pk t ht).elim, rfl,
      fun _ _ hx => nomatch hx⟩
  have happroval : ((run plainEnv .empty askingApp).approvalOf plainEnv 0 0 0).all
    (fun p => p.client.membership.isNone
      && (run plainEnv .empty askingApp).withSession meshSidecarGraceSeconds p.client) = true := by decide +kernel
  have hlater : ∀ k c, (askingDeployment.transact plainEnv meshSidecarGraceSeconds
    approves).db.clients.row k = some c →
      ({ (askingDeployment.transact plainEnv meshSidecarGraceSeconds approves).db with
        now := (askingDeployment.transact plainEnv meshSidecarGraceSeconds approves).db.now + 60 } :
          DB).withSession
          meshSidecarGraceSeconds c = true := by
    simp only [forall_row_iff]
    decide +kernel
  have henrolled : ((askingDeployment.transact plainEnv meshSidecarGraceSeconds approves).net.enrollments.row
    0).isSome = true := by
    decide +kernel
  have hsafe : (DeploymentEvent.transaction approves).Safe plainEnv meshSidecarGraceSeconds askingDeployment := by
    refine ⟨fun code manifest p _ _ hp => ?_, fun _ _ => trivial⟩
    have hp : (run plainEnv .empty askingApp).approvalOf plainEnv 0 0 0 = some p := hp
    rw [hp] at happroval
    simp only [Option.all_some, Bool.and_eq_true, Option.isNone_iff_eq_none] at happroval
    exact ⟨.inl happroval.1, fun _ => happroval.2⟩
  have hhappens := @Happens.transact plainEnv meshSidecarGraceSeconds askingDeployment approves
  generalize askingDeployment.transact plainEnv meshSidecarGraceSeconds approves = s at hlater henrolled hhappens
  obtain ⟨x, hx⟩ := Option.isSome_iff_exists.mp henrolled
  have hwaits : (DeploymentEvent.tick 60).Safe plainEnv meshSidecarGraceSeconds s :=
    fun k c hc _ _ => hlater k c hc
  have hbacked := sidecars_backed hstart (.cons ⟨hsafe, hhappens⟩ (.cons ⟨hwaits, .tick 60⟩ (.nil _)))
  exact ⟨_, .cons hhappens (.cons (.tick 60) (.nil _)), hbacked.1, 0, x, hx⟩

/-- The app was approved without the mesh and polled, and asks again, unchanged, this time for a key. -/
def askedAgain : List Action :=
  askingApp ++ [.acceptDeviceCode 0 0 (some 1) 0 [] false none, .requestToken (.deviceCode (.uuid 0) 2),
    .startDeviceCode plainApp .desktop .interface ["app://"] false 600 true]

def rejects : List Op := [.rejectAppInstallation 0]

def approvesAgain : List Op := [.acceptDeviceCode 0 1 (some 6) 0 [] true (some "mesh") false]

/-- The app is rejected and then approved again: it keeps its client, whose sessions were revoked, and its
new sidecar has no other. -/
theorem reapproved_sidecar_unbacked : ∃ s₀ s es, s₀.Starts plainEnv meshSidecarGraceSeconds
    ∧ Runs.Run (Happens plainEnv meshSidecarGraceSeconds) s₀ es s ∧ ¬ Backed meshSidecarGraceSeconds s := by
  have howned : ∀ k c, (run plainEnv .empty askedAgain).clients.row k = some c → ∀ pk t,
      (run plainEnv .empty askedAgain).tokens.row pk = some t → t.clientId = c.clientId →
        c.membership = some t.user := by
    simp only [forall_row_iff]
    decide +kernel
  have hdb := reachable_run plainEnv askedAgain
  have hunbacked : (((Deployment.mk (run plainEnv .empty askedAgain) annsMesh []).transact plainEnv
    meshSidecarGraceSeconds rejects).transact
      plainEnv meshSidecarGraceSeconds approvesAgain |> fun s => (s.net.enrollments.row 0).any fun x =>
        !s.db.enrollmentIsRetained meshSidecarGraceSeconds x.membership x.app x.device) = true := by decide +kernel
  generalize run plainEnv .empty askedAgain = db at howned hdb hunbacked
  refine ⟨⟨db, annsMesh, []⟩, _, _,
    ⟨hdb, fun k c pk t hc _ ht hid => howned k c hc pk t ht hid, rfl, fun _ _ hx => nomatch hx⟩,
    .cons (Happens.transact _ rejects) (.cons (Happens.transact _ approvesAgain) (.nil _)), fun hbacked => ?_⟩
  obtain ⟨x, hx, hlost⟩ := (Option.any_eq_true _ _).mp hunbacked
  rw [hbacked.enrollments 0 x hx] at hlost
  cases hlost

end Lok
