import Lok.Frames
import Lok.HubWrites

/-!
# Writes of the device-code functions

Staging a code registers its client. Accepting one binds a client: the one that was staged,
or the earlier one the code is pointed to. Whom that client spoke for before is read from
the database the request found, since nothing a request does before it binds changes that.
-/

namespace Lok

open Table Runs Checks

namespace DB

variable {A : Licence} {db d : DB} {env : Env}

/-- What a request may do before it binds a client: the hashes of `issue` at most. -/
def preparing (issue : String → Prop) : Licence :=
  ⟨False, fun _ => False, issue, fun _ _ => False, False, fun _ _ => False, False⟩

theorem preparing_settled (issue : String → Prop) : (preparing issue).Settled := ⟨id, fun _ _ => id, id⟩

theorem Writes.of_preparing {issue : String → Prop} (hA : ∀ h, issue h → A.issue h)
    (h : Writes (preparing issue) db d) :
    Writes A db d :=
  h.mono (Licence.admits_mono False.elim (fun _ => False.elim) hA (fun _ _ => False.elim) False.elim
    (fun _ _ => False.elim) False.elim)

/-! ## Staging -/

theorem stageDeviceCode_writes {kind : DeviceCodeKind} {staging : Staging} {client : Pk}
    {seconds : Time} {auth : Bool}
    (hclient : ∃ c n, db.clients.row client = some c ∧ c.clientId = .uuid n ∧ db.draws = n + 1 ∧ c.mandate = none
      ∧ c.binding.keyed = false) :
    Writes A db (db.stageDeviceCode kind staging client seconds auth) :=
  Writes.quiet (.stage _ rfl hclient)

theorem createPublicClient_row (db : DB) (kind : ClientKind) (role : ClientRole) (uris : List String)
    (isPublic : Bool) :
    ∃ c n, (db.createPublicClient kind role uris isPublic faktsClientGrantTypes).1.clients.row
      (db.createPublicClient kind role uris isPublic faktsClientGrantTypes).2 = some c ∧ c.clientId = .uuid n
        ∧ (db.createPublicClient kind role uris isPublic faktsClientGrantTypes).1.draws = n + 1
        ∧ c.mandate = none ∧ c.binding.keyed = false :=
  ⟨_, _, insert_row_next _ _, rfl, rfl, rfl, rfl⟩

theorem startDeviceCode_writes (hE : A.enroll) (manifest : Manifest) (kind : ClientKind) (role : ClientRole)
    (uris : List String) (isPublic : Bool) (seconds : Time) (auth : Bool) :
    Writes A db (db.startDeviceCode manifest kind role uris isPublic seconds auth) :=
  (createPublicClient_writes hE _ _ _ _ (.inl rfl)).trans
    (stageDeviceCode_writes (createPublicClient_row _ _ _ _ _))

theorem startHubDeviceCode_writes (hE : A.enroll) (manifest : HubManifest) (seconds : Time) :
    Writes A db (db.startHubDeviceCode manifest seconds) :=
  (createPublicClient_writes hE _ _ _ _ (.inl rfl)).trans
    (stageDeviceCode_writes (createPublicClient_row _ _ _ _ _))

theorem purgeExpiredDeviceCodes_writes : Writes A db db.purgeExpiredDeviceCodes :=
  Via.foldl fun _ _ _ => Writes.delete

theorem resolveDeviceCode_ok {pk : Pk} {proof : Option Nat} {kind : DeviceCodeKind} {code : DeviceCode}
    (h : db.resolveDeviceCode pk proof kind = .ok code) : db.deviceCodes.row pk = some code := by
  simp only [resolveDeviceCode, bind_ok, found_ok, require_ok, exists_unit, pure_ok] at h
  obtain ⟨c, hc, -, rfl⟩ := h
  exact hc

/-- An edit of codes that keeps their client, secret and expiry, and whether they were denied. -/
theorem deviceCodes_writes {pk : Pk} {f : DeviceCode → DeviceCode}
    (hf : ∀ c, (f c).client = c.client ∧ (f c).secret = c.secret ∧ (f c).expiresAt = c.expiresAt
      ∧ (c.denied = true → (f c).denied = true)) :
    Writes A db { db with deviceCodes := db.deviceCodes.modify pk f } :=
  Writes.quiet (.deviceCodes (.modify (fun _ _ => ⟨rfl, rfl, rfl, id⟩) fun c _ => hf c))

theorem declineDeviceCode_writes {pk : Pk} {proof : Option Nat} {kind : DeviceCodeKind}
    (h : db.declineDeviceCode pk proof kind = .ok d) : Writes A db d := by
  simp only [declineDeviceCode, bind_ok, pure_ok] at h
  obtain ⟨_, -, rfl⟩ := h
  exact deviceCodes_writes fun _ => ⟨rfl, rfl, rfl, fun _ => rfl⟩

theorem attachMeshKey_writes (pk : Pk) (key : Option String) : Writes A db (db.attachMeshKey pk key) := by
  unfold attachMeshKey
  split
  · exact .refl db
  · exact deviceCodes_writes fun _ => ⟨rfl, rfl, rfl, id⟩

/-! ## Accepting an app -/

theorem findUnchangedClient_some {staged membership organization k : Pk} {c c' : Client} {manifest : Manifest}
    {hub : Option Pk} (h : db.findUnchangedClient env staged c manifest membership
      organization hub = some (k, c')) :
    db.clients.row k = some c' ∧ c'.membership = some membership ∧ c'.mandate = none := by
  unfold findUnchangedClient at h
  extract_lets onDevice at h
  obtain ⟨hrow, hp⟩ := first_eq_some h
  simp only [Bool.and_eq_true, beq_iff_eq, Option.isNone_iff_eq_none] at hp
  exact ⟨hrow, hp.1.1.1.1.1.1.1.2, hp.1.1.1.2⟩

theorem keepClient_writes {pk staged kept : Pk} {c k : Client} {m : Pk} (hk : db.clients.row kept = some k)
    (hm : k.membership = some m) (hmandate : k.mandate = none) : Writes A db (db.keepClient pk staged c kept) := by
  have hcodes : ∀ roots : List Pk,
    ∃ k', (db.delete .deviceCode (roots.map fun r => ⟨.deviceCode, r⟩) none).clients.row kept = some k'
      ∧ k'.membership = some m ∧ k'.mandate = none := by
    intro roots
    obtain ⟨k', hk'⟩ : (db.delete .deviceCode (roots.map fun r => ⟨.deviceCode, r⟩) none).has ⟨.client, kept⟩ :=
      delete_spares (S := [.deviceCode]) (by decide) (by simp) (by simp) (by simp) (by simp) ⟨k, hk⟩
    obtain ⟨k₀, hk₀, hcleared⟩ := (delete_shrinks db .deviceCode _ none).clients.2 kept k' hk'
    rw [hk] at hk₀
    cases hk₀
    exact ⟨k', hk', (congrArg Binding.membership (Cleared.binding hcleared)).trans hm,
      (congrArg Binding.mandate (Cleared.binding hcleared)).trans hmandate⟩
  obtain ⟨k', hk', hm', hmandate'⟩ := hcodes (db.deviceCodes.pks fun k code => code.client == kept && k != pk)
  have hcodes : Writes A db (db.delete .deviceCode
      ((db.deviceCodes.pks fun k code => code.client == kept && k != pk).map fun k => ⟨.deviceCode, k⟩) none) :=
        Writes.delete
  unfold keepClient
  dsimp only
  refine .trans hcodes ?_
  clear hcodes
  generalize db.delete .deviceCode _ none = d at hk' ⊢
  have hedit : Writes A d { d with clients := d.clients.modify kept fun k =>
      { k with redirectUris := c.redirectUris, public_ := c.public_ } } :=
    Writes.quiet (.clients (.modify (fun _ _ => rfl) fun _ _ => rfl) (.modify (fun _ _ => rfl) fun _ _ => rfl))
  have hm'' : ({ k' with redirectUris := c.redirectUris, public_ := c.public_ } : Client).membership = some m :=
    hm'
  refine hedit.trans (.trans (Writes.quiet (.repoint (some c.clientId) ?_ hm'' hmandate')) Writes.delete)
  exact modify_row_eq_some.mpr (.inr ⟨rfl, k', hk', rfl⟩)

theorem keepClient_hub {pk staged kept hub o : Pk} {c : Client} (h : HubIn db hub o) :
    HubIn (db.keepClient pk staged c kept) hub o := by
  have h₁ : ∀ roots : List Pk, HubIn (db.delete .deviceCode (roots.map fun r => ⟨.deviceCode, r⟩) none) hub o :=
    fun roots =>
    h.delete (S := [.deviceCode]) (by decide) (by simp) (by simp) (by simp)
  unfold keepClient
  dsimp only
  refine HubIn.delete (S := withClients) ?_ withClients_within (by simp [withClients]) (by simp [withClients])
    (by simp [withClients])
  exact h₁ _

theorem bindPrepared_writes {s e : DB} {k membership hub organization : Pk} {m : Membership} {c : Client}
    {manifest : Manifest}
    {declined : List String} (hm : db.memberships.row membership = some m) (ho : m.organization = organization)
    (hs : Writes (preparing fun _ => False) db s) (hhub : HubIn s hub organization) (hc : s.clients.row k = some c)
    (hA : A.bind c.binding membership)
    (h : s.bindClient env k c manifest membership (some hub) declined none = .ok e) : Writes A db e := by
  refine (Writes.of_preparing (fun _ => False.elim) hs).trans
    (bindClient_app_writes hc rfl rfl (fun x g hx hg => ?_) hA h)
  obtain ⟨x', hx', hxo⟩ := hhub
  obtain ⟨g', hg', -, hgo⟩ := (Writes.memberships_shrink (preparing_settled _) hs).2 membership g hg
  rw [hx] at hx'
  rw [hm] at hg'
  cases hx'
  cases hg'
  exact hxo.trans (ho.symm.trans hgo.symm)

/-- The client the code is left with was bound as it is in the database the request found. -/
theorem validateDeviceCode_writes {pk user organization hub : Pk} {code : DeviceCode} {manifest : Manifest}
    {declined : List String} (hhub : HubIn db hub organization)
    (hA : ∀ m, db.memberOf user organization = some m →
      (∀ b : Binding, b.membership = some m → b.mandate = none → A.bind b m)
        ∧ ∀ c, db.clients.row code.client = some c → A.bind c.binding m)
    (h : db.validateDeviceCode env pk code manifest user organization hub declined = .ok d) : Writes A db d := by
  simp only [validateDeviceCode, bind_ok, found_ok, Table.get_ok, pure_ok, Prod.exists] at h
  obtain ⟨membership, m, hm, staged, hstaged, c, hc, e, he, rfl⟩ := h
  obtain ⟨hkeep, hchange⟩ := hA membership (by simp [memberOf, hm])
  obtain ⟨hmrow, -, ho⟩ := membershipOf_some hm
  refine .trans ?_ (deviceCodes_writes fun _ => ⟨rfl, rfl, rfl, id⟩)
  split at hc
  · rename_i kept k hfind
    simp only [hfind] at he
    obtain ⟨hk, hkm, hkn⟩ := findUnchangedClient_some hfind
    have hw : Writes (preparing fun _ => False) db (db.keepClient pk code.client staged kept) :=
      keepClient_writes hk hkm hkn
    obtain ⟨k₀, hk₀, hbinding⟩ := (Writes.clients_shrink (preparing_settled _) hw).2 _ c hc
    rw [hk] at hk₀
    cases hk₀
    have hcm : c.binding.membership = some membership := (congrArg Binding.membership hbinding).trans hkm
    have hcn : c.binding.mandate = none := (congrArg Binding.mandate hbinding).trans hkn
    exact bindPrepared_writes hmrow ho hw (keepClient_hub hhub) hc (hkeep _ hcm hcn) he
  · rename_i hfind
    simp only [hfind] at he
    exact bindPrepared_writes hmrow ho (.refl db) hhub hc (hchange c hc) he

theorem assertMemberOrGuest_ok {user organization membership : Pk}
    (h : db.assertMemberOrGuest user organization = .ok membership) :
    db.memberOf user organization = some membership := by
  simp only [assertMemberOrGuest, bind_ok, found_ok, require_ok, exists_unit, pure_ok, Prod.exists] at h
  obtain ⟨k, m, hm, -, rfl⟩ := h
  simp [memberOf, hm]

/-- Whom a code's client speaks for when it is accepted. -/
def codeClient (db : DB) (pk : Pk) : Option Client := (db.deviceCodes.row pk).bind fun c => db.clients.row c.client

theorem acceptDeviceCode_writes {user pk hub : Pk} {proof : Option Nat} {declined : List String} {allow : Bool}
    {minted : Option String}
    (hA : ∀ h m, db.hubs.row hub = some h → db.memberOf user h.organization = some m →
      (∀ b : Binding, b.membership = some m → b.mandate = none → A.bind b m)
        ∧ ∀ c, db.codeClient pk = some c → A.bind c.binding m)
    (h : db.acceptDeviceCode env user pk proof hub declined allow minted = .ok d) : Writes A db d := by
  simp only [acceptDeviceCode, bind_ok, found_ok, require_ok, exists_unit] at h
  obtain ⟨code, hcode, -, -, x, hx, membership, hm, -, h⟩ := h
  have hrow := resolveDeviceCode_ok hcode
  split at h
  · simp at h
  · simp only [bind_ok, pure_ok] at h
    obtain ⟨e, he, rfl⟩ := h
    have hw : Writes A db e := validateDeviceCode_writes ⟨x, hx, rfl⟩ (fun m hm => by
      obtain ⟨hkeep, hchange⟩ := hA x m hx hm
      exact ⟨hkeep, fun c hc => hchange c (by simp [codeClient, hrow, hc])⟩) he
    split
    · exact hw.trans (attachMeshKey_writes _ _)
    · exact hw

/-! ## Accepting a hub -/

theorem bindHubIdentity_writes {hub client membership organization : Pk} {h : Hub} {c : Client}
    (hs : Settled db hub membership organization) (hh : db.hubs.row hub = some h)
    (hc : db.clients.row client = some c)
    (hA : A.bind c.binding membership) (hd : db.bindHubIdentity hub h client c membership organization = .ok d) :
    Writes A db d := by
  obtain ⟨⟨x, hx, ho⟩, g, hg, hgo⟩ := hs
  rw [hh] at hx
  cases hx
  unfold bindHubIdentity at hd
  have hbound : ∃ c', c' = { c with
      membership := some membership, organization := some organization, scope := ["openid"] } :=
    ⟨_, rfl⟩
  obtain ⟨c', hc'⟩ := hbound
  rw [← hc'] at hd
  simp only [saveClient, bind_ok, require_ok, exists_unit, pure_ok] at hd
  obtain ⟨_, ⟨-, rfl⟩, hunique, rfl⟩ := hd
  have hnew : ∀ k x, k ≠ hub → db.hubs.row k = some x → x.client ≠ some client := by
    intro k x hne hx hclient
    have hunique : (db.hubs.exists? fun k x => k != hub && x.client == some client)
      = false := by simpa using hunique
    have := exists?_eq_false.mp hunique k x hx
    simp [hne, hclient] at this
  have hput : Writes A db { db with clients := db.clients.put client c' } :=
    Via.single (.bindApp hc (hc' ▸ rfl) (hc' ▸ rfl) (.inr (hc' ▸ rfl)) (hc' ▸ rfl) (hc' ▸ rfl) ⟨g, hg, hgo⟩
      (.inl (hc' ▸ rfl)) (.inr (hc' ▸ rfl))) hA
  have hname : Writes A { db with clients := db.clients.put client c' }
      { db with
        clients := db.clients.put client c', hubs := db.hubs.modify hub fun x => { x with client := some client } } :=
    Writes.quiet (.identify hh (m := membership) (put_row _ _ _ _ ▸ if_pos rfl) (hc' ▸ rfl) (by rw [hc', ho]) hnew)
  refine hput.trans (hname.trans ?_)
  split
  · split
    · exact Writes.delete
    · exact .refl _
  · exact .refl _

/-- `_provision_hub` up to where it binds the identity: the hub, and the membership of who approves it. -/
def provisionServices (db : DB) (env : Env) (manifest : HubManifest) (user organization : Pk) :
    Answer (DB × Pk × Pk) := do
  let (d, hub) := db.getOrCreateHub organization manifest user
  whenSome (given manifest.tlsCertificate) (validateTlsCertificate env)
  let d ← manifest.instances.foldlM (provisionService env hub organization user) (d.dropInstances hub manifest)
  let (membership, _) ← found (d.membershipOf user organization) denied
  let d ← reraise Kind.isMandateError .graphQLError (d.ensureHubMandates env hub manifest membership)
  return (d, hub, membership)

theorem provisionHub_ok {user organization pk : Pk} {code : DeviceCode} {manifest : HubManifest} {allow : Bool}
    {minted : Option String} (h : db.provisionHub env pk code manifest user organization allow minted = .ok d) :
    ∃ e hub membership c x s, db.provisionServices env manifest user organization = .ok (e, hub, membership)
      ∧ e.clients.row code.client = some c ∧ e.hubs.row hub = some x
      ∧ e.bindHubIdentity hub x code.client c membership organization = .ok s
      ∧ ∃ codes, d = { s with deviceCodes := codes }
      ∧ Rewrites (fun _ y y' => y'.client = y.client ∧ y'.secret = y.secret
        ∧ y'.expiresAt = y.expiresAt ∧ (y.denied = true → y'.denied = true)) s.deviceCodes codes := by
  simp only [provisionHub, bind_ok, found_ok, Table.get_ok, reraise_ok, pure_ok, Prod.exists] at h
  obtain ⟨u, hu, t, ht, membership, row, hrow, e, he, c, hc, x, hx, s, hs, rfl⟩ := h
  refine ⟨e, _, membership, c, x, s, ?_, hc, hx, hs, ?_⟩
  · simp only [provisionServices, bind_ok, found_ok, reraise_ok, pure_ok, Prod.exists, Prod.mk.injEq]
    exact ⟨u, hu, t, ht, membership, row, hrow, e, he, by simp⟩
  · have hmodify : ∀ {t u : Table DeviceCode} {f : DeviceCode → DeviceCode},
        Rewrites (fun _ y y' => y'.client = y.client ∧ y'.secret = y.secret ∧ y'.expiresAt = y.expiresAt
          ∧ (y.denied = true → y'.denied = true)) t u →
        (∀ y, (f y).client = y.client ∧ (f y).secret = y.secret ∧ (f y).expiresAt = y.expiresAt
          ∧ (y.denied = true → (f y).denied = true)) →
        Rewrites (fun _ y y' => y'.client = y.client ∧ y'.secret = y.secret ∧ y'.expiresAt = y.expiresAt
          ∧ (y.denied = true → y'.denied = true)) t (u.modify pk f) := by
      intro t u f htu hf
      have hu : Rewrites (fun _ y y' => y'.client = y.client ∧ y'.secret = y.secret ∧ y'.expiresAt = y.expiresAt
          ∧ (y.denied = true → y'.denied = true)) u (u.modify pk f) :=
            .modify (fun _ _ => ⟨rfl, rfl, rfl, id⟩) fun y _ => hf y
      refine (Rewrites.comp htu hu).mono ?_
      rintro k y y'' ⟨y', h₁, h₂⟩
      exact ⟨h₂.1.trans h₁.1, h₂.2.1.trans h₁.2.1, h₂.2.2.1.trans h₁.2.2.1, fun hy => h₂.2.2.2 (h₁.2.2.2 hy)⟩
    have hrefl : Rewrites (fun _ y y' => y'.client = y.client ∧ y'.secret = y.secret ∧ y'.expiresAt = y.expiresAt
        ∧ (y.denied = true → y'.denied = true)) s.deviceCodes s.deviceCodes :=
          .refl (fun _ _ => ⟨rfl, rfl, rfl, id⟩) _
    split
    · unfold attachMeshKey
      split
      · exact ⟨_, rfl, hmodify hrefl fun _ => ⟨rfl, rfl, rfl, id⟩⟩
      · exact ⟨_, rfl, hmodify (hmodify hrefl fun _ => ⟨rfl, rfl, rfl, id⟩) fun _ => ⟨rfl, rfl, rfl, id⟩⟩
    · exact ⟨_, rfl, hmodify hrefl fun _ => ⟨rfl, rfl, rfl, id⟩⟩

theorem provisionServices_writes {user organization hub membership : Pk} {manifest : HubManifest}
    (hissue : ∀ r ∈ manifest.clients, A.issue (env.hashKey r.mandateKey))
    (h : db.provisionServices env manifest user organization = .ok (d, hub, membership)) :
    Writes (preparing A.issue) db d ∧ Settled d hub membership organization
      ∧ ∃ m, db.memberships.row membership = some m ∧ m.user = user ∧ m.organization = organization := by
  simp only [provisionServices, bind_ok, found_ok, reraise_ok, pure_ok, Prod.exists, Prod.mk.injEq] at h
  obtain ⟨-, -, t, ht, membership, m, hm, e, he, rfl, rfl, rfl⟩ := h
  obtain rfl := provisionService_foldl ht
  have hcreate := getOrCreateHub_writes (A := preparing A.issue) db organization manifest user
  generalize db.getOrCreateHub organization manifest user = s at hcreate hm he
  obtain ⟨s, hub⟩ := s
  obtain ⟨hw, hs⟩ := hcreate
  dsimp only at hm he hw hs ⊢
  have hdrop := dropInstances_writes (A := preparing A.issue) hs manifest
  have hinst := instances_writes (A := preparing A.issue) (f := provisionInstance env hub organization user)
    (fun d r hd => provisionInstance_writes hd user r) hdrop.2 manifest.instances
  generalize manifest.instances.foldl (provisionInstance env hub organization user)
    (s.dropInstances hub manifest) = t
    at hinst hm he
  obtain ⟨hrow, hu, ho⟩ := membershipOf_some hm
  have hensure := ensureHubMandates_writes (A := preparing A.issue) hissue ⟨hinst.2, m, hrow, ho⟩ he
  have hbefore : Writes (preparing A.issue) db t := hw.trans (hdrop.1.trans hinst.1)
  obtain ⟨m₀, hm₀, hu₀, ho₀⟩ := (Writes.memberships_shrink (preparing_settled _) hbefore).2 _ m hrow
  exact ⟨hbefore.trans hensure.1, hensure.2, m₀, hm₀, hu₀ ▸ hu, ho₀ ▸ ho⟩

theorem provisionHub_writes {user organization pk : Pk} {code : DeviceCode} {manifest : HubManifest} {allow : Bool}
    {minted : Option String} (hissue : ∀ r ∈ manifest.clients, A.issue (env.hashKey r.mandateKey))
    (hA : ∀ c m x, db.clients.row code.client = some c → db.memberships.row m = some x → x.user = user →
      x.organization = organization → A.bind c.binding m)
    (h : db.provisionHub env pk code manifest user organization allow minted = .ok d) : Writes A db d := by
  obtain ⟨e, hub, membership, c, x, s, he, hc, hx, hs, codes, rfl, hcodes⟩ := provisionHub_ok h
  obtain ⟨hw, hsettled, m, hm, hu, ho⟩ := provisionServices_writes hissue he
  obtain ⟨c₀, hc₀, hbinding⟩ := (Writes.clients_shrink (preparing_settled _) hw).2 _ c hc
  have hbind : A.bind c.binding membership := by
    rw [hbinding]
    exact hA c₀ membership m hc₀ hm hu ho
  exact (Writes.of_preparing (fun _ => id) hw).trans ((bindHubIdentity_writes hsettled hx hc hbind hs).trans
    (Writes.quiet (.deviceCodes hcodes)))

end DB

end Lok
