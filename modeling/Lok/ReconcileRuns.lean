import Lok.Reconciles

/-!
# Runs of the reconciliation

The command walks through all organizations, one after the other. What it does for one it does not undo for
another, and whatever fails halfway is repaired by the next run.
-/

namespace Lok

namespace Reconciles

open Programs Table

variable {A : Prop} {s t u s₀ : Meshes} {pk o : Pk} {l : MeshLayer}

/-! ## What is spared -/

/-- The tailnets that belong to nobody who is touched are as they were. -/
structure Spared (touched : String → Prop) (s t : Meshes) : Prop where
  db : t.db = s.db
  others : ∀ id x, (∀ org, x.organization = some org → ¬ touched org) →
    (t.tailnets.row id = some x ↔ s.tailnets.row id = some x)

namespace Spared

variable {touched : String → Prop}

theorem refl (touched : String → Prop) (s : Meshes) : Spared touched s s := ⟨rfl, fun _ _ _ => Iff.rfl⟩

theorem trans (h : Spared touched s t) (k : Spared touched t u) : Spared touched s u :=
  ⟨k.db.trans h.db, fun id x hx => (k.others id x hx).trans (h.others id x hx)⟩

theorem mono {touched' : String → Prop} (h : Spared touched s t) (hle : ∀ org, touched org → touched' org) :
    Spared touched' s t :=
  ⟨h.db, fun id x hx => h.others id x fun org ho hin => hx org ho (hle org hin)⟩

theorem of_kept {organization : String} (h : Kept A pk organization s t) : Spared (· = organization) s t :=
  ⟨h.db, fun id x hx => h.others id x fun ho => hx organization ho rfl⟩

theorem boundTo {organization : String} (h : Spared touched s t) (ht : Unique t) (hfree : ¬ touched organization) :
    t.boundTo organization = s.boundTo organization := by
  have hrow : ∀ id x, x.organization = some organization →
    (t.tailnets.row id = some x ↔ s.tailnets.row id = some x) := by
    intro id x hx
    refine h.others id x fun org ho => ?_
    rw [hx] at ho
    cases ho
    exact hfree
  cases hbound : s.boundTo organization with
  | none =>
    refine first_eq_none.mpr fun id x hx => ?_
    by_cases hxo : x.organization = some organization
    · exact absurd hxo (boundTo_eq_none hbound ((hrow id x hxo).mp hx))
    · simpa using hxo
  | some r =>
    obtain ⟨hx, hxo⟩ := boundTo_eq_some hbound
    exact ht.find_bound ((hrow r.1 r.2 hxo).mpr hx) hxo

theorem foreseen (h : Spared touched s t) (ht : Unique t) (hfree : ¬ touched (toString o)) :
    t.foreseen o = s.foreseen o := by
  unfold Meshes.foreseen
  rw [h.boundTo ht hfree]

end Spared

theorem toString_inj {j k : Pk} (h : toString j = toString k) : j = k := Nat.repr_inj.mp h

theorem InLine.spared {revoking : Bool} {touched : String → Prop} (h : InLine revoking s pk l)
    (hspared : Spared touched s t)
    (hfree : ¬ touched (toString l.organization)) (hlayer : t.layers.row pk = s.layers.row pk) :
    InLine revoking t pk l where
  layer := hlayer.trans h.layer
  tailnetName := h.tailnetName
  identifier := h.identifier
  tailnet := by
    obtain ⟨id, x, hx, hxo, hrest⟩ := h.tailnet
    have hmembers : t.members l.organization = s.members
      l.organization := by simp only [Meshes.members, hspared.db]
    refine ⟨id, x, (hspared.others id x fun org ho => ?_).mpr hx, hxo, by rw [hmembers]; exact hrest⟩
    rw [hxo] at ho
    cases ho
    exact hfree

theorem forall₂_mem {α β : Type} {R : α → β → Prop} {l : List α} {m : List β} (h : List.Forall₂ R l m)
    {a : α} (ha : a ∈ l) :
    ∃ b ∈ m, R a b := by
  induction h with
  | nil => cases ha
  | cons hab _ ih =>
    rcases List.mem_cons.mp ha with rfl | ha
    · exact ⟨_, by simp, hab⟩
    · obtain ⟨b, hb, hR⟩ := ih ha
      exact ⟨b, List.mem_cons_of_mem _ hb, hR⟩

/-! ## One layer after the other -/

/-- What the report of a layer says, and what is so if it warns of nothing. -/
structure Told (o : Options) (s₀ s : Meshes) (x : Pk × MeshLayer) (y : Pk × ReconcileReport) : Prop where
  pk : y.1 = x.1
  foreseen : (y.2.createdTailnet, y.2.renamedFrom) = s₀.foreseen x.2.organization
  inLine : o.dryRun = false → y.2.warnings = [] →
    ∃ l, l.organization = x.2.organization ∧ InLine o.revokeOrphans s x.1 l

/-- What the command has made of some layers, in the order of the layers. -/
structure Reconciled (A : Prop) (o : Options) (layers : List (Pk × MeshLayer)) (before : Summary) (s₀ : Meshes)
    (out : Summary) (s : Meshes) : Prop where
  sound : Sound s
  spared : Spared (fun org => ∃ x ∈ layers, org = toString x.2.organization) s₀ s
  others : ∀ k, k ∉ layers.map (·.1) → s.layers.row k = s₀.layers.row k
  named : ∀ x ∈ layers, ∃ name identifier,
    s.layers.row x.1 = some { x.2 with tailnetName := name, identifier := identifier }
  reports : A → out.failed = before.failed
    ∧ ∃ new, out.reports = before.reports ++ new ∧ List.Forall₂ (Told o s₀ s) layers new

theorem reconcileOne_meets {o : Options} {summary : Summary} {layer : MeshLayer} (hdry : o.dryRun = false)
    (hs₀ : Sound s₀) (hrow : s₀.layers.row pk = some layer) :
    Meets A (· = s₀) (reconcileOne o summary (pk, layer)) (Reconciled A o [(pk, layer)] summary s₀)
    (fun _ _ => False) := by
  unfold reconcileOne
  have hwhole : ∀ {out : Summary} {s : Meshes}, Kept A pk (toString layer.organization) s₀ s → Unique s →
      (A → out.failed = summary.failed ∧ ∃ r, out.reports = summary.reports ++ [(pk, r)]
        ∧ (r.createdTailnet, r.renamedFrom) = s₀.foreseen layer.organization
        ∧ (r.warnings = [] → ∃ l, l.organization = layer.organization ∧ InLine o.revokeOrphans s pk l)) →
      Reconciled A o [(pk, layer)] summary s₀ out s := by
    intro out s hkept hunique hreports
    refine ⟨hs₀.kept hkept hunique, (Spared.of_kept hkept).mono ?_, fun k hk => hkept.layers k (by simpa using hk),
      ?_, fun hA => ?_⟩
    · intro org horg
      exact ⟨(pk, layer), by simp, horg⟩
    · intro x hx
      obtain rfl := List.mem_singleton.mp hx
      exact hkept.layer layer hrow
    · obtain ⟨hfailed, r, hr, hforeseen, hinline⟩ := hreports hA
      exact ⟨hfailed, [(pk, r)], hr, .cons ⟨rfl, hforeseen, fun _ => hinline⟩ .nil⟩
  apply Meets.catching (F := fun _ s => ¬ A ∧ Kept A pk (toString layer.organization) s₀ s ∧ Unique s)
  · dsimp only
    rw [hdry]
    apply (reconcileLayer_meets hs₀.toUnique hrow).bind
    intro r
    apply Meets.pure
    intro s hs
    exact hwhole hs.1.1 hs.1.2 fun hA => ⟨rfl, r, rfl, hs.2.1 hA, hs.2.2 hA⟩
  · intro e
    apply Meets.pure
    intro s hs
    exact hwhole hs.2.1 hs.2.2 fun hA => absurd hA hs.1

theorem reconcileAll_meets {o : Options} {summary : Summary} {layers : List (Pk × MeshLayer)}
    (hdry : o.dryRun = false)
    (hs₀ : Sound s₀) (hrows : ∀ x ∈ layers, s₀.layers.row x.1 = some x.2) (hnodup : (layers.map (·.1)).Nodup) :
    Meets A (· = s₀) (layers.foldlM (reconcileOne o) summary) (Reconciled A o layers summary s₀)
    (fun _ _ => False) := by
  induction layers generalizing s₀ summary with
  | nil =>
    apply Meets.pure
    intro s hs
    subst hs
    exact ⟨hs₀, .refl _ _, fun _ _ => rfl, (fun _ h => by cases h), fun _ => ⟨rfl, [], by simp, .nil⟩⟩
  | cons x layers ih =>
    obtain ⟨pk, layer⟩ := x
    rw [List.map_cons, List.nodup_cons] at hnodup
    have hrow : s₀.layers.row pk = some layer := hrows (pk, layer) (by simp)
    rw [List.foldlM_cons]
    apply (reconcileOne_meets hdry hs₀ hrow).bind
    intro first
    apply Meets.each
    intro s₁ h₁
    -- the other layers are other organizations'
    have hother : ∀ x ∈ layers, x.2.organization ≠ layer.organization := by
      intro x hx hsame
      have heq := hs₀.layers x.1 pk x.2 layer (hrows x (by simp [hx])) hrow hsame
      exact hnodup.1 (List.mem_map.mpr ⟨x, hx, heq⟩)
    have hlater : ∀ x ∈ layers, s₁.layers.row x.1 = some x.2 := by
      intro x hx
      rw [h₁.others x.1 fun hin => hnodup.1 (by simp at hin; exact List.mem_map.mpr ⟨x, hx, hin⟩)]
      exact hrows x (by simp [hx])
    apply (ih h₁.sound hlater hnodup.2).weaken (fun _ h => h)
    · intro out s h
      have hspared : Spared (fun org => ∃ x ∈ (pk, layer) :: layers, org = toString x.2.organization) s₀ s :=
        (h₁.spared.mono fun org ⟨x, hx, ho⟩ => ⟨x, by simpa using .inl (by simpa using hx), ho⟩).trans
          (h.spared.mono fun org ⟨x, hx, ho⟩ => ⟨x, by simp [hx], ho⟩)
      refine ⟨h.sound, hspared, fun k hk => ?_, fun x hx => ?_, fun hA => ?_⟩
      · rw [List.map_cons, List.mem_cons, not_or] at hk
        exact (h.others k hk.2).trans (h₁.others k (by simpa using hk.1))
      · rcases List.mem_cons.mp hx with rfl | hx
        · obtain ⟨name, identifier, hl⟩ := h₁.named (pk, layer) (by simp)
          exact ⟨name, identifier, (h.others pk hnodup.1).trans hl⟩
        · exact h.named x hx
      · obtain ⟨hfailed₁, new₁, hnew₁, hall₁⟩ := h₁.reports hA
        obtain ⟨hfailed, new, hnew, hall⟩ := h.reports hA
        cases hall₁ with
        | cons hhead hnil =>
          rename_i y new₁
          cases hnil
          refine ⟨hfailed.trans hfailed₁, y :: new, by rw [hnew, hnew₁, List.append_assoc]; rfl,
            .cons ⟨hhead.pk, hhead.foreseen, ?_⟩ ?_⟩
          · intro hdry hwarn
            obtain ⟨l, hl, hinline⟩ := hhead.inLine hdry hwarn
            refine ⟨l, hl, hinline.spared h.spared ?_ (h.others pk hnodup.1)⟩
            intro ⟨x, hx, horg⟩
            rw [hl] at horg
            exact hother x hx (toString_inj horg).symm
          · refine List.Forall₂.imp (fun x y hxy => ⟨hxy.2.pk, ?_, hxy.2.inLine⟩)
              ((List.forall₂_and_left _ _).mpr ⟨hother, hall⟩)
            refine hxy.2.foreseen.trans (h₁.spared.foreseen h₁.sound.toUnique ?_)
            intro ⟨z, hz, horg⟩
            obtain rfl := List.mem_singleton.mp hz
            exact hxy.1 (toString_inj horg)
    · exact fun _ _ h => h

/-! ## Organizations without a mesh -/

/-- After an organization was given a mesh, or it was tried: there may be a new tailnet, and a new layer. -/
structure Provisioned (organizations : List Pk) (s t : Meshes) : Prop where
  sound : Sound t
  spared : Spared (fun org => ∃ o ∈ organizations, org = toString o) s t
  kept : ∀ k l, s.layers.row k = some l → t.layers.row k = some l
  fresh : ∀ k l, t.layers.row k = some l → s.layers.row k = some l ∨ l.organization ∈ organizations

theorem Provisioned.refl (hs : Sound s) (organizations : List Pk) : Provisioned organizations s s :=
  ⟨hs, .refl _ _, fun _ _ h => h, fun _ _ h => .inl h⟩

theorem Provisioned.trans {os ps : List Pk} (h : Provisioned os s t) (k : Provisioned ps t u) :
    Provisioned (os ++ ps) s u where
  sound := k.sound
  spared := (h.spared.mono fun _ ⟨o, ho, heq⟩ => ⟨o, by simp [ho], heq⟩).trans
    (k.spared.mono fun _ ⟨o, ho, heq⟩ => ⟨o, by simp [ho], heq⟩)
  kept j l hl := k.kept j l (h.kept j l hl)
  fresh j l hl := by
    rcases k.fresh j l hl with hl | hin
    · rcases h.fresh j l hl with hl | hin
      · exact .inl hl
      · exact .inr (by simp [hin])
    · exact .inr (by simp [hin])

theorem Provisioned.tailnet (hs : Sound s) {x : Tailnet}
    (hunique : Unique { s with tailnets := s.tailnets.insert x })
    (ho : x.organization = some (toString o)) : Provisioned [o] s { s with tailnets := s.tailnets.insert x } where
  sound := ⟨hunique, hs.layers⟩
  spared := (Spared.of_kept (.insert ho : Kept True 0 (toString o) s _)).mono fun _ heq => ⟨o, by simp, heq⟩
  kept _ _ h := h
  fresh _ _ h := .inl h

theorem Provisioned.layer (hs : Sound s) (hnone : ∀ k l, s.layers.row k = some l → l.organization ≠ o)
    (ho : l.organization = o) :
    Provisioned [o] s { s with layers := s.layers.insert l } where
  sound := by
    refine ⟨⟨hs.named, hs.bound⟩, fun j k m n hm hn hmn => ?_⟩
    rcases insert_row_eq_some.mp hm with ⟨rfl, rfl⟩ | hm <;> rcases insert_row_eq_some.mp hn with ⟨rfl, rfl⟩ | hn
    · rfl
    · exact absurd (hmn.symm.trans ho) (hnone k n hn)
    · exact absurd (hmn.trans ho) (hnone j m hm)
    · exact hs.layers j k m n hm hn hmn
  spared := ⟨rfl, fun _ _ _ => Iff.rfl⟩
  kept _ _ h := insert_row_of_some h
  fresh k m hm := by
    rcases insert_row_eq_some.mp hm with ⟨-, rfl⟩ | hm
    · exact .inr (by simp [ho])
    · exact .inl hm

theorem Provisioned.at {L : Table MeshLayer} {name : String} {Pre : Tailnet → Prop} (ht : Sound t)
    (hat : At A pk o t L name Pre u)
    (hL : L = t.layers) : Provisioned [o] t u where
  sound := ⟨hat.unique, by rw [hat.layers, hL]; exact ht.layers⟩
  spared := (Spared.of_kept hat.kept).mono fun _ heq => ⟨o, by simp, heq⟩
  kept k l hl := by rw [hat.layers, hL]; exact hl
  fresh k l hl := by
    rw [hat.layers, hL] at hl
    exact .inl hl

theorem ensureOrgMesh_meets (hs₀ : Sound s₀) :
    Meets A (· = s₀) (ensureOrgMesh o)
      (fun x s => Provisioned [o] s₀ s ∧ (x.isSome = true → ∃ k l, s.layers.row k = some l ∧ l.organization = o))
      (fun _ _ => False) := by
  unfold ensureOrgMesh
  apply Meets.bind (Q := fun x s => x = s₀.layers.first (fun _ l => l.organization == o) ∧ s = s₀)
  · apply Meets.act
    intro s hs
    subst hs
    exact ⟨rfl, rfl⟩
  refine fun existing => Meets.assume fun hexisting => ?_
  cases existing with
  | some r =>
    apply Meets.pure
    intro s hs
    subst hs
    obtain ⟨hl, ho⟩ := first_eq_some hexisting.symm
    exact ⟨.refl hs₀ _, fun _ => ⟨r.1, r.2, hl, by simpa using ho⟩⟩
  | none =>
    have hnone : ∀ k l, s₀.layers.row k = some l → l.organization ≠ o := fun k l hl => by
      simpa using first_eq_none.mp hexisting.symm k l hl
    dsimp only
    apply Meets.catching (F := fun _ s => Provisioned [o] s₀ s)
    · -- the tailnet is there, and then the layer
      apply Meets.bind (Q := fun x s => x.name = desiredTailnetName o ∧ Provisioned [o] s₀ s ∧ s.layers = s₀.layers
        ∧ At True 0 o s s.layers (desiredTailnetName o) (· = x) s)
      · have hdone : ∀ x s, s₀.createTailnet (desiredTailnetName o) (some (toString o)) = (.ok x, s) →
          x.name = desiredTailnetName o
            ∧ Provisioned [o] s₀ s ∧ s.layers = s₀.layers
            ∧ At True 0 o s s.layers (desiredTailnetName o) (· = x) s := by
          intro x s h
          obtain ⟨hname, hfree, hxname, hxo, rfl⟩ := createTailnet_ok h
          have hunique : Unique { s₀ with tailnets := s₀.tailnets.insert x } :=
            hs₀.toUnique.insert (hxname ▸ hname) fun p hp => hfree p (hxo ▸ hp)
          refine ⟨hxname, .tailnet hs₀ hunique hxo, rfl, ?_⟩
          rw [← hxname]
          exact .of_row (.refl _ _ _ _) hunique (insert_row_next _ _) hxo
        apply Meets.call
        · intro s hs
          subst hs
          rcases hr : s.createTailnet (desiredTailnetName o) (some (toString o)) with ⟨e | x, t⟩
          · obtain ⟨rfl, -⟩ := createTailnet_error hr
            exact .refl hs₀ _
          · exact hdone x t hr
        · intro _ s e hs
          subst hs
          refine ⟨?_, .refl hs₀ _⟩
          rcases hr : s.createTailnet (desiredTailnetName o) (some (toString o)) with ⟨e' | x, t⟩
          · obtain ⟨rfl, -⟩ := createTailnet_error hr
            exact .refl hs₀ _
          · exact (hdone x t hr).2.1
      intro x
      apply Meets.each
      intro s₁ h₁
      obtain ⟨-, hprovisioned, hlayers, hat⟩ := h₁
      have hnone₁ : ∀ k l, s₁.layers.row k = some l → l.organization ≠ o := by
        rw [hlayers]
        exact hnone
      let layer : MeshLayer := ⟨o, desiredTailnetName o, desiredTailnetName o, true, true⟩
      let s₂ : Meshes := { s₁ with layers := s₁.layers.insert layer }
      have hlayer : Provisioned [o] s₁ s₂ := .layer hprovisioned.sound hnone₁ rfl
      apply Meets.bind (Q := fun pk s => pk = none ∧ s = s₁ ∨ pk = some s₁.layers.next ∧ s = s₂)
      · apply Meets.act
        intro s hs
        subst hs
        split
        · exact .inl ⟨rfl, rfl⟩
        · exact .inr ⟨rfl, rfl⟩
      intro pk
      cases pk with
      | none =>
        apply Meets.throw
        intro s hs
        obtain ⟨-, rfl⟩ | ⟨h, -⟩ := hs
        · exact hprovisioned
        · cases h
      | some pk =>
        have hwhole : ∀ {L : Table MeshLayer} {Pre : Tailnet → Prop} {s : Meshes}, L = s₂.layers →
            At A 0 o s₂ L (desiredTailnetName o) Pre s → Provisioned [o] s₀ s := by
          intro L Pre s hL hs
          have hboth := (hprovisioned.trans hlayer).trans (.at hlayer.sound hs hL)
          exact ⟨hboth.sound, hboth.spared.mono fun _ ⟨p, hp, heq⟩ => ⟨p, by simpa using hp, heq⟩, hboth.kept,
            fun k l hl => (hboth.fresh k l hl).imp_right fun h => by simpa using h⟩
        apply Meets.bind (Q := fun _ => At A 0 o s₂ s₂.layers (desiredTailnetName o) (fun _ => True))
        · have hsync : Meets A (At A 0 o s₂ s₂.layers (desiredTailnetName o) fun _ => True) (sync layer) _ _ :=
            sync_meets rfl rfl
          apply hsync.weaken
          · intro s hs
            obtain ⟨h, -⟩ | ⟨-, rfl⟩ := hs
            · cases h
            · exact ⟨.refl _ _ _ _, hlayer.sound.toUnique, rfl, hat.ours, fun _ => by
                obtain ⟨id, y, hy, hyo, hyname, -⟩ := hat.borne trivial
                exact ⟨id, y, hy, hyo, hyname, trivial⟩⟩
          · intro _ s hs
            exact hs.mono fun _ _ => trivial
          · intro _ s hs
            exact hwhole rfl hs.2
        intro _
        apply Meets.bind (Q := fun _ => At A 0 o s₂ s₂.layers (desiredTailnetName o) (fun _ => True))
        · have hdns : Meets A (At A 0 o s₂ s₂.layers (desiredTailnetName o) fun _ => True)
            (applyDnsConfig layer) _ _ :=
            applyDnsConfig_meets rfl
          apply hdns.weaken (fun _ h => h)
          · intro _ s hs
            exact hs.mono fun _ _ => trivial
          · exact fun _ _ h => h.elim
        intro _
        apply Meets.pure
        intro s hs
        refine ⟨hwhole rfl hs, fun _ => ⟨s₁.layers.next, layer, ?_, rfl⟩⟩
        rw [hs.layers]
        exact insert_row_next _ _
    · intro e
      apply Meets.pure
      intro s hs
      exact ⟨hs, fun h => by cases h⟩

theorem provisionAll_meets {organizations : List Pk} {summary : Summary} (hs₀ : Sound s₀) :
    Meets A (· = s₀) (organizations.foldlM (provisionOne false) summary)
      (fun out s => Provisioned organizations s₀ s ∧ out.reports = summary.reports ∧ summary.failed ≤ out.failed
        ∧ (out.failed = summary.failed → ∀ o ∈ organizations, ∃ k l, s.layers.row k = some l ∧ l.organization = o))
      (fun _ _ => False) := by
  induction organizations generalizing s₀ summary with
  | nil =>
    apply Meets.pure
    intro s hs
    subst hs
    exact ⟨.refl hs₀ _, rfl, Nat.le_refl _, fun _ o ho => by cases ho⟩
  | cons organization organizations ih =>
    rw [List.foldlM_cons]
    apply Meets.bind (Q := fun first s => Provisioned [organization] s₀ s ∧ first.reports = summary.reports
      ∧ summary.failed ≤ first.failed
      ∧ (first.failed = summary.failed → ∃ k l, s.layers.row k = some l ∧ l.organization = organization))
    · unfold provisionOne
      rw [if_neg (by decide)]
      apply (ensureOrgMesh_meets hs₀).bind
      intro x
      cases x with
      | some pk =>
        apply Meets.pure
        intro s hs
        exact ⟨hs.1, rfl, Nat.le_refl _, fun _ => hs.2 rfl⟩
      | none =>
        apply Meets.pure
        intro s hs
        exact ⟨hs.1, rfl, Nat.le_succ _, fun h => absurd h (Nat.succ_ne_self _)⟩
    intro first
    apply Meets.each
    intro s₁ h₁
    obtain ⟨hfirst, hreports₁, hfailed₁, hall₁⟩ := h₁
    apply (ih hfirst.sound).weaken (fun _ h => h)
    · intro out s h
      obtain ⟨hrest, hreports, hfailed, hall⟩ := h
      refine ⟨hfirst.trans hrest, hreports.trans hreports₁, Nat.le_trans hfailed₁ hfailed, fun hsame o ho => ?_⟩
      have hsame₁ : first.failed = summary.failed := by omega
      rcases List.mem_cons.mp ho with rfl | ho
      · obtain ⟨k, l, hl, hlo⟩ := hall₁ hsame₁
        exact ⟨k, l, hrest.kept k l hl, hlo⟩
      · exact hall (by omega) o ho
    · exact fun _ _ h => h

/-! ## The command -/

theorem mem_layersOf {o : Options} {x : Pk × MeshLayer} :
    x ∈ s.layersOf o ↔ s.layers.row x.1 = some x.2 ∧ o.covers x.2.organization = true := by
  unfold Meshes.layersOf
  rw [List.mem_mergeSort]
  exact mem_filter

theorem layersOf_nodup (s : Meshes) (o : Options) : ((s.layersOf o).map (·.1)).Nodup := by
  have hperm : ((s.layersOf o).map (·.1)).Perm ((s.layers.filter fun _ l => o.covers l.organization).map (·.1)) :=
    (List.mergeSort_perm _ _).map _
  exact hperm.nodup_iff.mpr (pks_nodup s.layers _)

theorem orphanedTailnets_meets (layers : List (Pk × MeshLayer)) :
    Meets A (· = s₀) ((orphanedTailnets layers).catching fun _ => pure []) (fun _ s => s = s₀)
    (fun _ _ => False) := by
  apply Meets.catching (F := fun _ s => s = s₀)
  · unfold orphanedTailnets
    apply Meets.bind (Q := fun _ s => s = s₀)
    · apply Meets.call
      · exact fun _ hs => hs
      · exact fun _ _ _ hs => ⟨hs, hs⟩
    · exact fun _ => Meets.pure fun _ hs => hs
  · exact fun _ => Meets.pure fun _ hs => hs

/-- What the command leaves: others are spared, and what it is asked to bring in line is, if nothing failed
and no report warns. -/
structure Repaired (A : Prop) (o : Options) (s₀ : Meshes) (out : Summary) (s : Meshes) : Prop where
  sound : Sound s
  spared : Spared (fun org => ∃ k, o.covers k = true ∧ org = toString k) s₀ s
  others : ∀ k l, o.covers l.organization = false → (s.layers.row k = some l ↔ s₀.layers.row k = some l)
  inLine : A → out.failed = 0 → (∀ y ∈ out.reports, y.2.warnings = []) → ∀ k l, s.layers.row k = some l →
    o.covers l.organization = true → InLine o.revokeOrphans s k l
  provided : A → out.failed = 0 → o.autoCreateMesh = true → ∀ org, o.covers org = true →
    (∃ x, s₀.db.organizations.row org = some x) → ∃ k l, s.layers.row k = some l ∧ l.organization = org
  foreseen : A → ∀ k l, s₀.layers.row k = some l → o.covers l.organization = true →
    ∃ y ∈ out.reports, y.1 = k ∧ (y.2.createdTailnet, y.2.renamedFrom) = s₀.foreseen l.organization

theorem Provisioned.foreseen {organizations : List Pk} (h : Provisioned organizations s t) (ht : Sound t) {k : Pk}
    (hfree : k ∉ organizations) : t.foreseen k = s.foreseen k := by
  apply h.spared.foreseen ht.toUnique
  intro hin
  obtain ⟨p, hp, heq⟩ := hin
  exact hfree (toString_inj heq ▸ hp)

theorem reconcileMeshes_meets {o : Options} (hdry : o.dryRun = false) (hs₀ : Sound s₀) :
    Meets A (· = s₀) (reconcileMeshes o) (Repaired A o s₀) (fun _ _ => False) := by
  unfold reconcileMeshes
  apply Meets.bind (Q := fun bare s => bare = (if o.autoCreateMesh then s₀.bare o else []) ∧ s = s₀)
  · apply Meets.act
    intro s hs
    subst hs
    exact ⟨rfl, rfl⟩
  refine fun bare => Meets.assume fun hbare => ?_
  have hcovered : ∀ k ∈ bare, o.covers k = true ∧ ∀ j l, s₀.layers.row j = some l → l.organization ≠ k := by
    intro k hk
    rw [hbare] at hk
    split at hk
    · obtain ⟨_, -, hk⟩ := mem_pks.mp hk
      simp only [Bool.and_eq_true, Bool.not_eq_true', exists?_eq_false, beq_eq_false_iff_ne] at hk
      exact hk
    · cases hk
  rw [hdry]
  apply (provisionAll_meets hs₀).bind
  intro summary
  apply Meets.each
  intro s₁ h₁
  obtain ⟨hprovisioned, hreports, -, hall⟩ := h₁
  apply Meets.bind (Q := fun layers s => layers = s₁.layersOf o ∧ s = s₁)
  · apply Meets.act
    intro s hs
    subst hs
    exact ⟨rfl, rfl⟩
  refine fun layers => Meets.assume fun hlayers => ?_
  subst hlayers
  apply ((reconcileAll_meets (o := o) hdry hprovisioned.sound (fun x hx => (mem_layersOf.mp hx).1)
    (layersOf_nodup s₁ o))).bind
  intro out
  have hwhole : ∀ s, Reconciled A o (s₁.layersOf o) summary s₁ out s → Repaired A o s₀ out s := by
    intro s h
    have hkey : ∀ k, k ∈ (s₁.layersOf o).map (·.1) → ∃ l, (k, l) ∈ s₁.layersOf o := by
      intro k hk
      obtain ⟨x, hx, rfl⟩ := List.mem_map.mp hk
      exact ⟨x.2, hx⟩
    refine ⟨h.sound, ?_, fun k l hl => ?_, fun hA hfailed hwarn k l hl hcovers => ?_,
      fun hA hfailed hauto org hcovers horg => ?_,
      fun hA k l hl hcovers => ?_⟩
    · refine (hprovisioned.spared.mono fun org hin => ?_).trans (h.spared.mono fun org hin => ?_)
      · obtain ⟨k, hk, rfl⟩ := hin
        exact ⟨k, (hcovered k hk).1, rfl⟩
      · obtain ⟨x, hx, rfl⟩ := hin
        exact ⟨x.2.organization, (mem_layersOf.mp hx).2, rfl⟩
    · have hbetween : s₁.layers.row k = some l ↔ s₀.layers.row k = some l := by
        refine ⟨fun h => (hprovisioned.fresh k l h).resolve_right fun hin => ?_, hprovisioned.kept k l⟩
        rw [(hcovered _ hin).1] at hl
        cases hl
      rw [← hbetween]
      by_cases hk : k ∈ (s₁.layersOf o).map (·.1)
      · obtain ⟨m, hm⟩ := hkey k hk
        obtain ⟨hrow, hcovers⟩ := mem_layersOf.mp hm
        obtain ⟨name, identifier, hrow'⟩ := h.named (k, m) hm
        dsimp only at hrow hrow' hcovers
        rw [hrow, hrow']
        refine ⟨fun heq => ?_, fun heq => ?_⟩ <;>
        · cases heq
          rw [hcovers] at hl
          cases hl
      · rw [h.others k hk]
    · obtain ⟨-, new, hnew, htold⟩ := h.reports hA
      have hk : k ∈ (s₁.layersOf o).map (·.1) := by
        by_contra hk
        refine hk (List.mem_map.mpr ⟨(k, l), mem_layersOf.mpr ⟨?_, hcovers⟩, rfl⟩)
        rw [← h.others k hk]
        exact hl
      obtain ⟨m, hm⟩ := hkey k hk
      obtain ⟨y, hy, htold⟩ := forall₂_mem htold hm
      obtain ⟨l', -, hinline⟩ := htold.inLine hdry (hwarn y (by rw [hnew]; simp [hy]))
      have heq := hinline.layer
      dsimp only at heq
      rw [hl] at heq
      cases heq
      exact hinline
    · have hfailed₁ : summary.failed = 0 := (h.reports hA).1.symm.trans hfailed
      obtain ⟨x, hx⟩ := horg
      obtain ⟨k, l, hl, hlo⟩ : ∃ k l, s₁.layers.row k = some l ∧ l.organization = org := by
        by_cases hmesh : ∃ k l, s₀.layers.row k = some l ∧ l.organization = org
        · obtain ⟨k, l, hl, hlo⟩ := hmesh
          exact ⟨k, l, hprovisioned.kept k l hl, hlo⟩
        · apply hall hfailed₁
          rw [hbare, if_pos hauto]
          refine mem_pks.mpr ⟨x, hx, ?_⟩
          simp only [hcovers, Bool.true_and, Bool.not_eq_true', exists?_eq_false, beq_eq_false_iff_ne]
          exact fun k l hl hlo => hmesh ⟨k, l, hl, hlo⟩
      obtain ⟨name, identifier, hl'⟩ := h.named (k, l) (mem_layersOf.mpr ⟨hl, by rw [hlo]; exact hcovers⟩)
      exact ⟨k, _, hl', hlo⟩
    · obtain ⟨-, new, hnew, htold⟩ := h.reports hA
      obtain ⟨y, hy, htold⟩ := forall₂_mem htold
        (mem_layersOf.mpr ⟨hprovisioned.kept k l hl, hcovers⟩ : (k, l) ∈ s₁.layersOf o)
      have hfree : l.organization ∉ bare := fun hin => (hcovered _ hin).2 k l hl rfl
      exact ⟨y, by rw [hnew]; simp [hy], htold.pk,
        htold.foreseen.trans (hprovisioned.foreseen hprovisioned.sound hfree)⟩
  split
  · apply Meets.pure
    intro s h
    exact hwhole s h
  · apply Meets.each
    intro s h
    have hrepaired := hwhole s h
    apply (orphanedTailnets_meets (s₁.layersOf o)).bind
    intro orphans
    apply Meets.pure
    intro t ht
    subst ht
    exact ⟨hrepaired.sound, hrepaired.spared, hrepaired.others, hrepaired.inLine, hrepaired.provided,
      hrepaired.foreseen⟩

/-! ## A dry run -/

theorem reconcileLayer_dry {layer : MeshLayer} {revoking : Bool} :
    Meets A (· = s₀) (reconcileLayer pk layer true revoking)
      (fun r s => s = s₀ ∧ (r.createdTailnet, r.renamedFrom) = s₀.foreseen layer.organization)
      (fun _ s => ¬ A ∧ s = s₀) := by
  unfold reconcileLayer
  apply Meets.bind (Q := fun x s => s = s₀ ∧ x.1 = (s₀.boundTo (toString layer.organization)).map (·.2)
    ∧ x.2 = { createdTailnet := x.1.isNone })
  · unfold findTailnet
    apply Meets.bind (Q := fun x s => x = (s₀.boundTo (toString layer.organization)).map (·.2) ∧ s = s₀)
    · apply Meets.call
      · intro s hs
        subst hs
        exact ⟨rfl, rfl⟩
      · exact fun hA _ _ hs => ⟨⟨hA, hs⟩, hA, hs⟩
    intro x
    cases x with
    | some t =>
      apply Meets.pure
      intro s hs
      exact ⟨hs.2, hs.1, rfl⟩
    | none =>
      dsimp only
      rw [if_pos rfl]
      apply Meets.pure
      intro s hs
      exact ⟨hs.2, hs.1, rfl⟩
  intro x
  obtain ⟨found, report⟩ := x
  cases found with
  | none =>
    apply Meets.pure
    intro s hs
    obtain ⟨rfl, hnone, hreport⟩ := hs
    dsimp only at hnone hreport
    subst hreport
    refine ⟨rfl, ?_⟩
    unfold Meshes.foreseen
    rw [Option.map_eq_none_iff.mp hnone.symm]
    rfl
  | some t =>
    dsimp only
    apply Meets.bind (Q := fun x s => s = s₀
      ∧ (x.2.createdTailnet, x.2.renamedFrom) = s₀.foreseen layer.organization)
    · unfold renameTailnet
      have hforeseen : ∀ s, (s = s₀ ∧ some t = (s₀.boundTo (toString layer.organization)).map (·.2)
          ∧ report = { createdTailnet := (some t).isNone }) →
          s = s₀ ∧ report = {} ∧ s₀.foreseen layer.organization
            = (false, if t.name = desiredTailnetName layer.organization then none else some t.name) := by
        intro s hs
        obtain ⟨r, hr, hrt⟩ := Option.map_eq_some_iff.mp hs.2.1.symm
        refine ⟨hs.1, hs.2.2, ?_⟩
        unfold Meshes.foreseen
        rw [hr, ← hrt]
      split
      · rename_i hname
        apply Meets.pure
        intro s hs
        obtain ⟨rfl, rfl, htold⟩ := hforeseen s hs
        exact ⟨rfl, by rw [htold, if_pos hname]⟩
      · rename_i hname
        dsimp only
        rw [if_pos rfl]
        apply Meets.pure
        intro s hs
        obtain ⟨rfl, rfl, htold⟩ := hforeseen s hs
        exact ⟨rfl, by rw [htold, if_neg hname]⟩
    intro x
    apply Meets.bind (Q := fun y s => s = s₀
      ∧ (y.2.createdTailnet, y.2.renamedFrom) = s₀.foreseen layer.organization)
    · unfold adoptName
      split
      · exact Meets.pure fun _ hs => hs
      · rw [if_pos rfl]
        exact Meets.pure fun _ hs => hs
    intro y
    rw [if_pos rfl]
    exact Meets.pure fun _ hs => hs

theorem reconcileOne_dry {o : Options} {summary : Summary} {layer : MeshLayer} (hdry : o.dryRun = true) :
    Meets A (· = s₀) (reconcileOne o summary (pk, layer))
      (fun out s => s = s₀ ∧ (A → ∃ r : ReconcileReport, out.reports = summary.reports ++ [(pk, r)]
        ∧ (r.createdTailnet, r.renamedFrom) = s₀.foreseen layer.organization))
      (fun _ _ => False) := by
  unfold reconcileOne
  apply Meets.catching (F := fun _ s => ¬ A ∧ s = s₀)
  · dsimp only
    rw [hdry]
    apply reconcileLayer_dry.bind
    intro r
    apply Meets.pure
    intro s hs
    exact ⟨hs.1, fun _ => ⟨r, rfl, hs.2⟩⟩
  · intro e
    apply Meets.pure
    intro s hs
    exact ⟨hs.2, fun hA => absurd hA hs.1⟩

theorem dryAll_meets {o : Options} {summary : Summary} {layers : List (Pk × MeshLayer)} (hdry : o.dryRun = true) :
    Meets A (· = s₀) (layers.foldlM (reconcileOne o) summary)
      (fun out s => s = s₀ ∧ (A → ∃ new : List (Pk × ReconcileReport), out.reports = summary.reports ++ new
        ∧ List.Forall₂ (fun x y => y.1 = x.1
          ∧ (y.2.createdTailnet, y.2.renamedFrom) = s₀.foreseen x.2.organization) layers new))
      (fun _ _ => False) := by
  induction layers generalizing summary with
  | nil =>
    apply Meets.pure
    intro s hs
    exact ⟨hs, fun _ => ⟨[], by simp, .nil⟩⟩
  | cons x layers ih =>
    rw [List.foldlM_cons]
    apply (reconcileOne_dry hdry).bind
    intro first
    apply Meets.each
    intro s hs
    obtain ⟨rfl, hfirst⟩ := hs
    apply ih.weaken (fun _ h => h)
    · intro out t ht
      refine ⟨ht.1, fun hA => ?_⟩
      obtain ⟨r, hr, hforeseen⟩ := hfirst hA
      obtain ⟨new, hnew, hall⟩ := ht.2 hA
      exact ⟨(x.1, r) :: new, by rw [hnew, hr, List.append_assoc]; rfl, .cons ⟨rfl, hforeseen⟩ hall⟩
    · exact fun _ _ h => h

theorem reconcileMeshes_dry (s₀ : Meshes) {o : Options} (hdry : o.dryRun = true) :
    Meets A (· = s₀) (reconcileMeshes o)
      (fun out s => s = s₀ ∧ (A → ∀ k l, s₀.layers.row k = some l → o.covers l.organization = true →
        ∃ y ∈ out.reports, y.1 = k ∧ (y.2.createdTailnet, y.2.renamedFrom) = s₀.foreseen l.organization))
      (fun _ _ => False) := by
  unfold reconcileMeshes
  apply Meets.bind (Q := fun _ s => s = s₀)
  · exact Meets.act fun _ hs => hs
  intro bare
  rw [hdry]
  apply Meets.bind (Q := fun _ s => s = s₀)
  · apply Meets.foldlM (I := fun _ s => s = s₀)
    intro summary organization _
    unfold provisionOne
    rw [if_pos rfl]
    exact Meets.pure fun _ hs => hs
  intro summary
  apply Meets.bind (Q := fun layers s => layers = s₀.layersOf o ∧ s = s₀)
  · apply Meets.act
    intro s hs
    subst hs
    exact ⟨rfl, rfl⟩
  refine fun layers => Meets.assume fun hlayers => ?_
  subst hlayers
  apply (dryAll_meets hdry).bind
  intro out
  have hreports : ∀ s, (s = s₀ ∧ (A → ∃ new : List (Pk × ReconcileReport), out.reports = summary.reports ++ new
      ∧ List.Forall₂ (fun x y => y.1 = x.1 ∧ (y.2.createdTailnet, y.2.renamedFrom) = s₀.foreseen x.2.organization)
        (s₀.layersOf o) new)) →
      s = s₀ ∧ (A → ∀ k l, s₀.layers.row k = some l → o.covers l.organization = true →
        ∃ y ∈ out.reports, y.1 = k ∧ (y.2.createdTailnet, y.2.renamedFrom) = s₀.foreseen l.organization) := by
    intro s hs
    refine ⟨hs.1, fun hA k l hl hcovers => ?_⟩
    obtain ⟨new, hnew, hall⟩ := hs.2 hA
    obtain ⟨y, hy, htold⟩ := forall₂_mem hall (mem_layersOf.mpr ⟨hl, hcovers⟩ : (k, l) ∈ s₀.layersOf o)
    exact ⟨y, by rw [hnew]; simp [hy], htold⟩
  split
  · exact Meets.pure hreports
  · apply Meets.each
    intro s h
    obtain ⟨rfl, hall⟩ := hreports s h
    apply (orphanedTailnets_meets (s.layersOf o)).bind
    intro orphans
    apply Meets.pure
    intro t ht
    exact ⟨ht, hall⟩

/-! ## Once more -/

theorem onTailnet_noop {α : Type} {name : String} {id : Nat} {x : Tailnet} {f : Tailnet → α × Tailnet}
    (hfound : s.named name = some (id, x)) (hsame : (f x).2 = x) : s.onTailnet name f = (.ok (f x).1, s) := by
  obtain ⟨hx, -⟩ := named_eq_some hfound
  have htailnets : s.tailnets.modify id (fun t => (f t).2) = s.tailnets := by
    refine Table.ext rfl fun k => ?_
    by_cases hk : k = id
    · subst hk
      rw [modify_row_self, hx, Option.map_some, hsame]
    · exact modify_row_of_ne hk
  unfold Meshes.onTailnet
  rw [hfound]
  simp only [htailnets]

theorem call_noop {α : Type} {name : String} {id : Nat} {x : Tailnet} {f : Tailnet → α × Tailnet}
    (hfound : s₀.named name = some (id, x)) (hsame : (f x).2 = x) :
    Meets True (· = s₀) (.call fun s => s.onTailnet name f : M α) (fun a s => a = (f x).1 ∧ s = s₀)
    (fun _ _ => False) := by
  apply Meets.call
  · intro s hs
    subst hs
    rw [onTailnet_noop hfound hsame]
    exact ⟨rfl, rfl⟩
  · exact fun h => absurd trivial h

theorem revokeOrphans_noop {name : String} {members : List String} {users : List TailnetUser}
    {report : ReconcileReport}
    (hall : ∀ u ∈ users, Belongs members u) :
    Meets True (· = s₀) (revokeOrphans o name members users report) (fun r s => r = report ∧ s = s₀)
    (fun _ _ => False) := by
  induction users with
  | nil => exact Meets.pure fun _ hs => ⟨rfl, hs⟩
  | cons user users ih =>
    obtain ⟨externalId, hmember, hid⟩ := hall user (by simp)
    unfold revokeOrphans
    rw [hid]
    dsimp only
    rw [if_pos (by simpa using hmember)]
    exact ih fun u hu => hall u (List.mem_cons_of_mem user hu)

theorem reconcileLayer_noop {revoking : Bool} (hs₀ : Unique s₀) (h : InLine revoking s₀ pk l) :
    Meets True (· = s₀) (reconcileLayer pk l false revoking)
      (fun r s => (r.changed = false ∧ r.warnings = []) ∧ s = s₀) (fun _ _ => False) := by
  obtain ⟨id, x, hx, hxo, hxname, hsubs, hdns, husers⟩ := h.tailnet
  have hbound := hs₀.find_bound hx hxo
  have hnamed : s₀.named l.tailnetName = some (id, x) := by
    rw [h.tailnetName, ← hxname]
    exact hs₀.find_named hx
  unfold reconcileLayer
  apply Meets.bind (Q := fun y s => y = (some x, {}) ∧ s = s₀)
  · unfold findTailnet
    apply Meets.bind (Q := fun y s => y = some x ∧ s = s₀)
    · apply Meets.call
      · intro s hs
        subst hs
        exact ⟨by rw [hbound]; rfl, rfl⟩
      · exact fun h => absurd trivial h
    refine fun y => Meets.assume fun hy => ?_
    subst hy
    exact Meets.pure fun _ hs => ⟨rfl, hs⟩
  refine fun y => Meets.assume fun hy => ?_
  subst hy
  dsimp only
  apply Meets.bind (Q := fun y s => y = (x, {}) ∧ s = s₀)
  · unfold renameTailnet
    rw [if_pos hxname]
    exact Meets.pure fun _ hs => ⟨rfl, hs⟩
  refine fun y => Meets.assume fun hy => ?_
  subst hy
  dsimp only
  apply Meets.bind (Q := fun y s => y = (l, {}) ∧ s = s₀)
  · unfold adoptName
    rw [if_pos ⟨h.tailnetName.trans hxname.symm, h.identifier.trans hxname.symm⟩]
    exact Meets.pure fun _ hs => ⟨rfl, hs⟩
  refine fun y => Meets.assume fun hy => ?_
  subst hy
  dsimp only
  rw [if_neg (by decide)]
  apply Meets.bind (Q := fun _ s => s = s₀)
  · unfold sync
    apply Meets.bind (Q := fun members s => members = s₀.members l.organization ∧ s = s₀)
    · apply Meets.act
      intro s hs
      subst hs
      exact ⟨rfl, rfl⟩
    refine fun members => Meets.assume fun hmembers => ?_
    apply Meets.bind (Q := fun current s => current = x.policy ∧ s = s₀)
    · apply Meets.catching (F := fun _ _ => False) (call_noop hnamed rfl)
      exact fun _ => Meets.pure fun _ hs => hs.elim
    refine fun current => Meets.assume fun hcurrent => ?_
    have hsame : ({ x with policy := current.withSubs members } : Tailnet) = x := by
      rw [hcurrent, hmembers, ← hsubs]
      rfl
    exact (call_noop hnamed hsame).weaken (fun _ hs => hs) (fun _ _ hs => hs.2) fun _ _ hs => hs
  intro _
  apply Meets.bind (Q := fun _ s => s = s₀)
  · unfold applyDnsConfig
    have hsame : ({ x with dns := some ⟨l.magicDnsEnabled, l.httpsEnabled⟩ } : Tailnet) = x := by
      rw [← hdns]
    apply Meets.catching (F := fun _ _ => False)
      ((call_noop hnamed hsame).weaken (fun _ hs => hs) (fun _ _ hs => hs.2) fun _ _ hs => hs)
    exact fun _ => Meets.pure fun _ hs => hs.elim
  intro _
  cases revoking with
  | false => exact Meets.pure fun _ hs => ⟨⟨rfl, rfl⟩, hs⟩
  | true =>
    rw [if_pos rfl]
    apply Meets.bind (Q := fun members s => members = s₀.members l.organization ∧ s = s₀)
    · apply Meets.act
      intro s hs
      subst hs
      exact ⟨rfl, rfl⟩
    refine fun members => Meets.assume fun hmembers => ?_
    apply Meets.bind (Q := fun users s => users = x.users ∧ s = s₀)
    · exact call_noop hnamed rfl
    refine fun users => Meets.assume fun hlisted => ?_
    subst hmembers hlisted
    apply (revokeOrphans_noop (husers rfl)).weaken (fun _ hs => hs)
    · intro r s hs
      obtain ⟨rfl, hs⟩ := hs
      exact ⟨⟨rfl, rfl⟩, hs⟩
    · exact fun _ _ hs => hs

theorem reconcileMeshes_noop {options : Options} (hdry : options.dryRun = false) (hs₀ : Unique s₀)
    (hinline : ∀ k l, s₀.layers.row k = some l → options.covers l.organization = true →
      InLine options.revokeOrphans s₀ k l)
    (hprovided : options.autoCreateMesh = true → s₀.bare options = []) :
    Meets True (· = s₀) (reconcileMeshes options)
      (fun out s => (out.changed = 0 ∧ out.failed = 0 ∧ ∀ y ∈ out.reports, y.2.warnings = []) ∧ s = s₀)
      (fun _ _ => False) := by
  unfold reconcileMeshes
  apply Meets.bind (Q := fun bare s => bare = [] ∧ s = s₀)
  · apply Meets.act
    intro s hs
    subst hs
    refine ⟨?_, rfl⟩
    split
    · exact hprovided ‹_›
    · rfl
  refine fun bare => Meets.assume fun hbare => ?_
  subst hbare
  apply Meets.bind (Q := fun summary s => summary = {} ∧ s = s₀)
  · exact Meets.pure fun _ hs => ⟨rfl, hs⟩
  refine fun summary => Meets.assume fun hsummary => ?_
  subst hsummary
  apply Meets.bind (Q := fun layers s => layers = s₀.layersOf options ∧ s = s₀)
  · apply Meets.act
    intro s hs
    subst hs
    exact ⟨rfl, rfl⟩
  refine fun layers => Meets.assume fun hlayers => ?_
  apply Meets.bind (Q := fun out s => (out.changed = 0 ∧ out.failed = 0
    ∧ ∀ y ∈ out.reports, y.2.warnings = []) ∧ s = s₀)
  · apply (Meets.foldlM (I := fun out s => (out.changed = 0 ∧ out.failed = 0
      ∧ ∀ y ∈ out.reports, y.2.warnings = []) ∧ s = s₀) ?_).weaken
    · exact fun _ hs => ⟨⟨rfl, rfl, by simp⟩, hs⟩
    · exact fun _ _ hs => hs
    · exact fun _ _ hs => hs
    · intro summary layer hlayer
      obtain ⟨hrow, hcovers⟩ := mem_layersOf.mp (hlayers ▸ hlayer)
      unfold reconcileOne
      apply Meets.catching (F := fun _ _ => False)
      · rw [hdry]
        refine Meets.assume fun hsummary => ?_
        apply (reconcileLayer_noop hs₀ (hinline _ _ hrow hcovers)).bind
        refine fun report => Meets.assume fun hreport => ?_
        apply Meets.pure
        intro s hs
        refine ⟨⟨?_, hsummary.2.1, fun y hy => ?_⟩, hs⟩
        · simp [hsummary.1, hreport.1]
        · rcases List.mem_append.mp hy with hy | hy
          · exact hsummary.2.2 y hy
          · obtain rfl := List.mem_singleton.mp hy
            exact hreport.2
      · exact fun _ => Meets.pure fun _ hs => hs.elim
  refine fun out => Meets.assume fun hout => ?_
  split
  · exact Meets.pure fun _ hs => ⟨hout, hs⟩
  · apply (orphanedTailnets_meets layers).bind
    intro orphans
    exact Meets.pure fun _ hs => ⟨hout, hs⟩

/-! ## Whatever happened before -/

theorem Unique.onTailnet {α : Type} {name : String} {f : Tailnet → α × Tailnet} (h : Unique s)
    (horg : ∀ x, (f x).2.organization = x.organization) (hname : ∀ x, (f x).2.name = x.name) :
    Unique (s.onTailnet name f).2 := by
  unfold Meshes.onTailnet
  split
  · exact h
  · rename_i id x hfound
    obtain ⟨hx, -⟩ := named_eq_some hfound
    refine h.modify horg fun y hy k z hz hzname => ?_
    rw [hx] at hy
    cases hy
    exact h.named k id z x hz hx (hzname.trans (hname x))

theorem Unique.keep (h : Unique s) (p : Nat → Tailnet → Bool) : Unique { s with tailnets := s.tailnets.keep p } :=
  ⟨fun j k x y hx hy => h.named j k x y (keep_row_eq_some.mp hx).1 (keep_row_eq_some.mp hy).1,
    fun j k x y o hx hy => h.bound j k x y o (keep_row_eq_some.mp hx).1 (keep_row_eq_some.mp hy).1⟩

theorem onTailnet_layers {α : Type} {name : String} {f : Tailnet → α × Tailnet} :
    (s.onTailnet name f).2.layers = s.layers := by
  unfold Meshes.onTailnet
  split <;> rfl

theorem Sound.onTailnet {α : Type} {name : String} {f : Tailnet → α × Tailnet} (h : Sound s)
    (horg : ∀ x, (f x).2.organization = x.organization) (hname : ∀ x, (f x).2.name = x.name) :
    Sound (s.onTailnet name f).2 :=
  ⟨h.toUnique.onTailnet horg hname, by rw [onTailnet_layers]; exact h.layers⟩

theorem onTailnet_sound {α : Type} {name : String} {f : Tailnet → α × Tailnet}
    (horg : ∀ x, (f x).2.organization = x.organization)
    (hname : ∀ x, (f x).2.name = x.name) :
    Meets A Sound (.call fun s => s.onTailnet name f : M α) (fun _ => Sound) (fun _ => Sound) := by
  apply Meets.call
  · intro t ht
    have hs : Sound (t.onTailnet name f).2 := ht.onTailnet horg hname
    rcases hr : t.onTailnet name f with ⟨e | u, v⟩ <;>
    · rw [hr] at hs
      exact hs
  · exact fun _ t _ ht => ⟨ht.onTailnet horg hname, ht⟩

theorem deleteTailnet_sound (name : String) :
    Meets A Sound (deleteTailnet name) (fun _ => Sound) (fun _ => Sound) := by
  apply Meets.call
  · intro t ht
    cases hfound : t.named name with
    | none => exact ht
    | some r => exact ⟨ht.toUnique.keep _, ht.layers⟩
  · intro _ t e ht
    refine ⟨?_, ht⟩
    cases hfound : t.named name with
    | none => exact ht
    | some r => exact ⟨ht.toUnique.keep _, ht.layers⟩

theorem updateIonscaleLayer_sound (pk : Pk) (magicDns https : Bool) :
    Meets A Sound (updateIonscaleLayer pk magicDns https) (fun _ => Sound) (fun _ => Sound) := by
  unfold updateIonscaleLayer
  apply Meets.bind (Q := fun _ => Sound)
  · exact Meets.act fun _ ht => ht
  intro layer
  cases layer with
  | none => exact Meets.pure fun _ ht => ht
  | some l =>
    dsimp only
    split
    · exact Meets.pure fun _ ht => ht
    apply Meets.bind (Q := fun _ => Sound)
    · exact onTailnet_sound (fun _ => rfl) fun _ => rfl
    intro _
    apply Meets.act
    intro t ht
    have hback : ∀ j m, (t.layers.modify pk
      fun l => { l with magicDnsEnabled := magicDns, httpsEnabled := https }).row j = some m →
        ∃ m', t.layers.row j = some m' ∧ m'.organization = m.organization := by
      intro j m hm
      rcases modify_row_eq_some.mp hm with ⟨-, hm⟩ | ⟨-, m', hm', rfl⟩
      · exact ⟨m, hm, rfl⟩
      · exact ⟨m', hm', rfl⟩
    refine ⟨⟨ht.named, ht.bound⟩, fun j k m n hm hn hmn => ?_⟩
    obtain ⟨m', hm', hmo⟩ := hback j m hm
    obtain ⟨n', hn', hno⟩ := hback k n hn
    exact ht.layers j k m' n' hm' hn' (by rw [hmo, hno, hmn])

theorem deleteIonscaleLayer_sound (pk : Pk) :
    Meets A Sound (deleteIonscaleLayer pk) (fun _ => Sound) (fun _ => Sound) := by
  unfold deleteIonscaleLayer
  apply Meets.bind (Q := fun _ => Sound)
  · apply Meets.act
    intro t ht
    exact ⟨⟨ht.named, ht.bound⟩,
      fun j k m n hm hn => ht.layers j k m n (keep_row_eq_some.mp hm).1 (keep_row_eq_some.mp hn).1⟩
  intro layer
  cases layer with
  | none => exact Meets.pure fun _ ht => ht
  | some l =>
    apply Meets.catching (deleteTailnet_sound l.tailnetName)
    exact fun _ => Meets.pure fun _ ht => ht

theorem Sound.renamed (h : Sound s) (old new : String) : Sound (s.renameTailnet old new).2 := by
  by_cases hne : new = old
  · subst hne
    have hsame : s.renameTailnet new new = s.onTailnet new
      fun t => ({ t with name := new }, { t with name := new }) := by
      simp [Meshes.renameTailnet]
    rw [hsame, Meshes.onTailnet]
    split
    · exact h
    · rename_i id x hfound
      obtain ⟨hx, hxname⟩ := named_eq_some hfound
      exact ⟨h.toUnique.modify (fun _ => rfl) fun _ _ k y hy hyname => h.named k id y x hy hx
        (hyname.trans hxname.symm), h.layers⟩
  · obtain ⟨message, hr, -⟩ | ⟨message, hr⟩ | ⟨id, x, -, hnew, hr⟩ := renameTailnet_cases s hne
    · rw [hr]
      exact h
    · rw [hr]
      exact h
    · rw [hr]
      exact ⟨h.toUnique.modify (fun _ => rfl)
        fun _ _ k y hy hyname => absurd hyname (named_eq_none hnew hy), h.layers⟩

theorem Sound.created (h : Sound s) (name : String) (organization : Option String) :
    Sound (s.createTailnet name organization).2 := by
  rcases hr : s.createTailnet name organization with ⟨e | x, t⟩
  · obtain ⟨rfl, -⟩ := createTailnet_error hr
    exact h
  · obtain ⟨hname, hfree, hxname, hxo, rfl⟩ := createTailnet_ok hr
    exact ⟨h.toUnique.insert (hxname ▸ hname) fun p hp => hfree p (hxo ▸ hp), h.layers⟩

theorem MeshAction.sound (h : Sound s) (a : MeshAction) : Sound (a.step s) := by
  cases a with
  | elsewhere db => exact ⟨⟨h.named, h.bound⟩, h.layers⟩
  | provision organization wires =>
    exact ((ensureOrgMesh_meets (A := False) (o := organization) h).weaken (K := fun _ => Sound)
      (F := fun _ => Sound) (fun _ hs => hs)
      (fun _ _ hs => hs.1.sound) fun _ _ hs => hs.elim).after rfl wires
  | reconcile o wires =>
    cases hdry : o.dryRun with
    | true =>
      exact ((reconcileMeshes_dry (A := False) s hdry).weaken (K := fun _ => Sound) (F := fun _ => Sound)
        (fun _ hs => hs) (fun _ _ hs => hs.1 ▸ h) fun _ _ hs => hs.elim).after rfl wires
    | false =>
      exact ((reconcileMeshes_meets (A := False) hdry h).weaken (K := fun _ => Sound) (F := fun _ => Sound)
        (fun _ hs => hs) (fun _ _ hs => hs.sound) fun _ _ hs => hs.elim).after rfl wires
  | updateLayer pk magicDns https wires => exact (updateIonscaleLayer_sound pk magicDns https).after h wires
  | deleteLayer pk wires => exact (deleteIonscaleLayer_sound pk).after h wires
  | created name organization => exact h.created name organization
  | renamed old new => exact h.renamed old new
  | deleted name => exact (deleteTailnet_sound name).after h []
  | loggedIn name user => exact h.onTailnet (fun _ => rfl) fun _ => rfl
  | policyWritten name policy => exact h.onTailnet (fun _ => rfl) fun _ => rfl

theorem Sound.empty : Sound Meshes.empty := by
  refine ⟨⟨fun _ _ _ _ h => ?_, fun _ _ _ _ _ h => ?_⟩, fun _ _ _ _ h => ?_⟩ <;> cases h

theorem sound_run (as : List MeshAction) : Sound (Meshes.empty.run as) :=
  Checks.foldl_invariant (fun a _ _ hs => a.sound hs) Sound.empty

/-! ## What the command achieves -/

/-- An organization's tailnet was renamed on the control plane, and somebody in it is no member. -/
def renamedRun : List MeshAction :=
  [.elsewhere { DB.empty with organizations := DB.empty.organizations.insert ⟨"org", 0, false, none⟩ },
   .provision 0 [],
    .renamed "0" "other", .loggedIn "other" ⟨"ann", some "7"⟩]

theorem reconciled_renamedRun {out : Summary} {t : Meshes}
    (hrun : reconcileMeshes { revokeOrphans := true } (Meshes.empty.run renamedRun) [] = (.ok out, t, [])) :
    out.failed = 0 ∧ (∀ y ∈ out.reports, y.2.warnings = []) ∧ out.changed = 1 := by
  have hout : ((reconcileMeshes { revokeOrphans := true } (Meshes.empty.run renamedRun) []).1.toOption.any
    fun out =>
      out.failed == 0 && (out.reports.all fun y => y.2.warnings.isEmpty) && out.changed == 1)
        = true := by decide +kernel
  rw [hrun] at hout
  simpa [Except.toOption, and_assoc] using hout

/-- Whatever has gone wrong before: if all calls are answered, nothing fails and no report warns, then every
organization has a layer, and the layers and the tailnets of the organizations asked for are in line. -/
theorem reconcile_meshes_repairs (before : List MeshAction) {o : Options} (hdry : o.dryRun = false)
    (hauto : o.autoCreateMesh = true) :
    ∃ out t, reconcileMeshes o (Meshes.empty.run before) [] = (.ok out, t, [])
      ∧ (out.failed = 0 → (∀ y ∈ out.reports, y.2.warnings = []) →
        ∀ org, o.covers org = true → (∃ x, (Meshes.empty.run before).db.organizations.row org = some x) →
          ∃ pk l, l.organization = org ∧ InLine o.revokeOrphans t pk l) := by
  obtain ⟨out, t, hrun, h⟩ := (reconcileMeshes_meets (A := True) hdry (sound_run before)).answered rfl
  refine ⟨out, t, hrun, fun hfailed hwarn org hcovers horg => ?_⟩
  obtain ⟨k, l, hl, rfl⟩ := h.provided trivial hfailed hauto org hcovers horg
  exact ⟨k, l, rfl, h.inLine trivial hfailed hwarn k l hl hcovers⟩

theorem reconcile_meshes_repairs_renamed :
    ∃ out t pk l, reconcileMeshes { revokeOrphans := true } (Meshes.empty.run renamedRun) [] = (.ok out, t, [])
      ∧ l.organization = 0 ∧ InLine true t pk l := by
  obtain ⟨out, t, hrun, h⟩ := reconcile_meshes_repairs renamedRun (o := { revokeOrphans := true }) rfl rfl
  obtain ⟨hfailed, hwarn, -⟩ := reconciled_renamedRun hrun
  obtain ⟨pk, l, hl⟩ := h hfailed hwarn 0 rfl ⟨_, rfl⟩
  exact ⟨out, t, pk, l, hrun, hl⟩

/-- What the command has brought in line it leaves as it is: run again, it changes nothing and reports no
change. -/
theorem reconcile_meshes_settles (before : List MeshAction) {o : Options} (hdry : o.dryRun = false)
    {out : Summary} {t : Meshes}
    (hrun : reconcileMeshes o (Meshes.empty.run before) [] = (.ok out, t, [])) (hfailed : out.failed = 0)
    (hwarn : ∀ y ∈ out.reports, y.2.warnings = []) :
    ∃ again, reconcileMeshes o t [] = (.ok again, t, []) ∧ again.changed = 0 ∧ again.failed = 0
      ∧ ∀ y ∈ again.reports, y.2.warnings = [] := by
  obtain ⟨out', t', hrun', h⟩ := (reconcileMeshes_meets (A := True) hdry (sound_run before)).answered rfl
  rw [hrun] at hrun'
  cases hrun'
  have hinline := h.inLine trivial hfailed hwarn
  have hbare : o.autoCreateMesh = true → t.bare o = [] := by
    intro hauto
    rw [List.eq_nil_iff_forall_not_mem]
    intro org hin
    obtain ⟨x, hx, hbare⟩ := mem_pks.mp hin
    simp only [Bool.and_eq_true, Bool.not_eq_true', exists?_eq_false, beq_eq_false_iff_ne] at hbare
    obtain ⟨k, l, hl, hlo⟩ := h.provided trivial hfailed hauto org hbare.1 ⟨x, by rw [← h.spared.db]; exact hx⟩
    exact hbare.2 k l hl hlo
  obtain ⟨again, u, hagain, ⟨hchanged, hagainFailed, hagainWarn⟩, rfl⟩ :=
    (reconcileMeshes_noop hdry h.sound.toUnique hinline hbare).answered rfl
  exact ⟨again, hagain, hchanged, hagainFailed, hagainWarn⟩

theorem reconcile_meshes_settles_renamed :
    ∃ out t again, reconcileMeshes { revokeOrphans := true } (Meshes.empty.run renamedRun) [] = (.ok out, t, [])
      ∧ reconcileMeshes { revokeOrphans := true } t [] = (.ok again, t, []) ∧ out.changed = 1
      ∧ again.changed = 0 := by
  obtain ⟨out, t, hrun, -⟩ :=
    (reconcileMeshes_meets (A := True) (o := { revokeOrphans := true }) rfl (sound_run renamedRun)).answered rfl
  obtain ⟨hfailed, hwarn, hchanged⟩ := reconciled_renamedRun hrun
  obtain ⟨again, hagain, hsettled, -⟩ :=
    reconcile_meshes_settles renamedRun (o := { revokeOrphans := true }) rfl hrun hfailed hwarn
  exact ⟨out, t, again, hrun, hagain, hchanged, hsettled⟩

/-- Whichever calls get lost or are refused: the command touches no tailnet but those of the organizations
it is asked for, not even where a layer names another one's tailnet, and no layer of any other organization.
-/
theorem reconcile_meshes_spares (before : List MeshAction) (o : Options) (wires : List (Wire Fault)) :
    ∃ out t rest, reconcileMeshes o (Meshes.empty.run before) wires = (.ok out, t, rest)
      ∧ (∀ id x, (∀ k, o.covers k = true → x.organization ≠ some (toString k)) →
        (t.tailnets.row id = some x ↔ (Meshes.empty.run before).tailnets.row id = some x))
      ∧ ∀ k l, o.covers l.organization = false →
      (t.layers.row k = some l ↔ (Meshes.empty.run before).layers.row k = some l) := by
  cases hdry : o.dryRun with
  | true =>
    obtain ⟨out, t, rest, hrun, rfl, -⟩ :=
      (reconcileMeshes_dry (A := False) (Meshes.empty.run before) hdry).returns rfl wires
    exact ⟨out, _, rest, hrun, fun _ _ _ => Iff.rfl, fun _ _ _ => Iff.rfl⟩
  | false =>
    obtain ⟨out, t, rest, hrun, h⟩ :=
      (reconcileMeshes_meets (A := False) hdry (sound_run before)).returns rfl wires
    refine ⟨out, t, rest, hrun, fun id x hx => h.spared.others id x fun org horg hin => ?_, h.others⟩
    obtain ⟨k, hk, rfl⟩ := hin
    exact hx k hk horg

/-- A dry run changes nothing, whichever calls fail. Where all are answered it says of each layer what the
command then does: whether it makes a tailnet, and which one it renames. -/
theorem dry_run_foresees (before : List MeshAction) {o : Options} (hdry : o.dryRun = false) :
    (∀ wires, ∃ dry rest, reconcileMeshes { o with dryRun := true } (Meshes.empty.run before) wires
        = (.ok dry, Meshes.empty.run before, rest))
      ∧ ∃ dry out t, reconcileMeshes { o with dryRun := true } (Meshes.empty.run before) [] = (.ok dry,
        Meshes.empty.run before, [])
        ∧ reconcileMeshes o (Meshes.empty.run before) [] = (.ok out, t, [])
        ∧ ∀ k l, (Meshes.empty.run before).layers.row k = some l → o.covers l.organization = true →
          ∃ x ∈ dry.reports, ∃ y ∈ out.reports, x.1 = k ∧ y.1 = k ∧ x.2.createdTailnet = y.2.createdTailnet
            ∧ x.2.renamedFrom = y.2.renamedFrom := by
  refine ⟨fun wires => ?_, ?_⟩
  · obtain ⟨dry, _, rest, hrun, rfl, -⟩ :=
      (reconcileMeshes_dry (A := False) (Meshes.empty.run before) (o := { o with dryRun := true }) rfl).returns
        rfl wires
    exact ⟨dry, rest, hrun⟩
  · obtain ⟨dry, _, hdryRun, rfl, hdrySays⟩ :=
      (reconcileMeshes_dry (A := True) (Meshes.empty.run before) (o := { o with dryRun := true }) rfl).answered rfl
    obtain ⟨out, t, hrun, h⟩ := (reconcileMeshes_meets (A := True) hdry (sound_run before)).answered rfl
    refine ⟨dry, out, t, hdryRun, hrun, fun k l hl hcovers => ?_⟩
    obtain ⟨x, hx, hxk, hxsame⟩ := hdrySays trivial k l hl hcovers
    obtain ⟨y, hy, hyk, hysame⟩ := h.foreseen trivial k l hl hcovers
    have hsame := hxsame.trans hysame.symm
    exact ⟨x, hx, y, hy, hxk, hyk, congrArg Prod.fst hsame, congrArg Prod.snd hsame⟩

theorem dry_run_foresees_renamed :
    ∃ dry, reconcileMeshes { dryRun := true } (Meshes.empty.run renamedRun) [] = (.ok dry,
      Meshes.empty.run renamedRun, [])
      ∧ ∃ x ∈ dry.reports, x.2.renamedFrom = some "other" := by
  obtain ⟨-, dry, out, t, hdry, hrun, h⟩ := dry_run_foresees renamedRun (o := {}) rfl
  refine ⟨dry, hdry, ?_⟩
  have hout : ((reconcileMeshes {} (Meshes.empty.run renamedRun) []).1.toOption.any fun out =>
      out.reports.all fun y => y.2.renamedFrom == some "other") = true := by decide +kernel
  rw [hrun] at hout
  obtain ⟨x, hx, y, hy, -, -, -, hsame⟩ := h 0 ⟨0, "0", "0", true, true⟩ rfl rfl
  have hother : y.2.renamedFrom = some "other" := by simpa using List.all_eq_true.mp hout y hy
  exact ⟨x, hx, hsame.trans hother⟩

end Reconciles

end Lok
