import Lok.MandateLaws

/-!
# Mandates that nobody on file issued

A mandate goes with its parent and with the app that issued it. One that has neither, as a
member, a hub or the config issues it, outlives the clients of every mandate: deleting clients
leaves it as it is, and revoking a mandate rewrites that one and no other of its kind.
-/

namespace Lok

open Table Checks

/-- Issued under no other mandate and by no app. -/
def Mandate.IsRoot (m : Mandate) : Prop := m.parent = none ∧ m.issuingClient = none

namespace DB

variable {db d s t : DB} {k : Pk} {f : Mandate → Mandate}

/-! ## Deleting clients -/

/-- `t` is `s` without some clients and mandates, none of these a root. -/
structure SparesRoots (s t : DB) : Prop where
  next : t.mandates.next = s.mandates.next
  rows : ∀ k m, t.mandates.row k = some m → s.mandates.row k = some m
  roots : ∀ k m, s.mandates.row k = some m → m.IsRoot → t.mandates.row k = some m
  clients : ∀ k c, t.clients.row k = some c → ∃ c₀, s.clients.row k = some c₀ ∧ c₀.Cleared c

theorem SparesRoots.refl (s : DB) : SparesRoots s s :=
  ⟨rfl, fun _ _ h => h, fun _ _ h _ => h, fun _ c h => ⟨c, h, c.node, c.scopes, rfl⟩⟩

theorem root_not_collected {m : Mandate} (h : m.IsRoot) (clients : List Pk) (hm : db.mandates.row k = some m) :
    (⟨.mandate, k⟩ : Ref) ∉ db.collect (clients.map fun c => ⟨.client, c⟩) := by
  intro hmem
  cases Closure.mem_closure.mp hmem with
  | root hroot => simp at hroot
  | hangs _ hp hgone =>
    have hwithin := collect_within withClients_within (clientRefs_within clients) (Closure.mem_closure.mpr hgone)
    simp only [hangsOn, hm, Option.elim_some, Mandate.hangsOn, h.1, h.2, refOf, List.mem_append, List.mem_cons,
      Option.toList_none, List.map_nil, List.not_mem_nil, or_false, List.mem_map] at hp
    rcases hp with ((rfl | rfl | rfl) | ⟨_, -, rfl⟩) | ⟨_, -, rfl⟩ <;> simp [withClients] at hwithin

theorem delete_clients_roots (s : DB) (clients : List Pk) :
    SparesRoots s (s.delete .client (clients.map fun c => ⟨.client, c⟩) none) := by
  have hclients := (delete_shrinks s .client (clients.map fun c => (⟨.client, c⟩ : Ref)) none).clients.2
  rw [delete_withClients (clientRefs_within clients)] at hclients ⊢
  refine ⟨rfl, fun k m hm => (keep_row_eq_some.mp hm).1,
    fun k m hm hroot => keep_row_eq_some.mpr ⟨hm, ?_⟩, hclients⟩
  simpa [keeps] using root_not_collected hroot clients hm

theorem deleteClients_roots (s : DB) (mandates : List Pk) : SparesRoots s (s.deleteClients mandates) := by
  have hspares := fun clients => delete_clients_roots (s.revokeTokensOf clients) clients
  exact ⟨(hspares _).next, (hspares _).rows, (hspares _).roots, (hspares _).clients⟩

/-! ## Rewriting one mandate -/

/-- `t` is `s` with the mandate `k` rewritten, some that are no roots rewritten or gone, and some clients gone. -/
structure Edits (k : Pk) (f : Mandate → Mandate) (s t : DB) : Prop where
  next : t.mandates.next = s.mandates.next
  back : ∀ j n, t.mandates.row j = some n → ∃ n₀, s.mandates.row j = some n₀ ∧ n.origin = n₀.origin
    ∧ n.parent = n₀.parent
    ∧ n.issuingClient = n₀.issuingClient ∧ n.keyHash = n₀.keyHash
  roots : ∀ j n, s.mandates.row j = some n → n.IsRoot → t.mandates.row j = some (if j = k then f n else n)
  clients : ∀ j c, t.clients.row j = some c → ∃ c₀, s.clients.row j = some c₀ ∧ c₀.Cleared c

theorem Edits.isRoot_back (h : Edits k f s t) {j : Pk} {n : Mandate} (hn : t.mandates.row j = some n)
    (hroot : n.IsRoot) :
    ∃ n₀, s.mandates.row j = some n₀ ∧ n₀.IsRoot ∧ n₀.origin = n.origin ∧ n₀.keyHash = n.keyHash
      ∧ n = if j = k then f n₀ else n₀ := by
  obtain ⟨n₀, hn₀, horigin, hparent, hissuer, hkey⟩ := h.back j n hn
  have hroot₀ : n₀.IsRoot := ⟨hparent.symm.trans hroot.1, hissuer.symm.trans hroot.2⟩
  have heq := h.roots j n₀ hn₀ hroot₀
  rw [hn] at heq
  exact ⟨n₀, hn₀, hroot₀, horigin.symm, hkey.symm, Option.some.inj heq⟩

theorem modify_edits (h : SparesRoots s d) (hf : ∀ m : Mandate, (f m).origin = m.origin ∧ (f m).parent = m.parent
    ∧ (f m).issuingClient = m.issuingClient ∧ (f m).keyHash = m.keyHash) :
    Edits k f s { d with mandates := d.mandates.modify k f } := by
  refine ⟨h.next, fun j n hn => ?_, fun j n hn hroot => ?_, h.clients⟩
  · rcases modify_row_eq_some.mp hn with ⟨-, hn⟩ | ⟨-, n₀, hn₀, rfl⟩
    · exact ⟨n, h.rows j n hn, rfl, rfl, rfl, rfl⟩
    · exact ⟨n₀, h.rows j n₀ hn₀, hf n₀⟩
  · have hd := h.roots j n hn hroot
    split
    · rename_i heq
      exact modify_row_eq_some.mpr (.inr ⟨heq, n, hd, rfl⟩)
    · rename_i hne
      exact modify_row_eq_some.mpr (.inl ⟨hne, hd⟩)

theorem Edits.trans_spares (h : Edits k f s d) (hd : SparesRoots d t) : Edits k f s t := by
  refine ⟨hd.next.trans h.next, fun j n hn => h.back j n (hd.rows j n hn), fun j n hn hroot => ?_,
    fun j c hc => ?_⟩
  · have hrow := h.roots j n hn hroot
    obtain ⟨n₀, hn₀, -, hparent, hissuer, -⟩ := h.back j _ hrow
    rw [hn] at hn₀
    cases hn₀
    exact hd.roots j _ hrow ⟨hparent.trans hroot.1, hissuer.trans hroot.2⟩
  · obtain ⟨c₁, hc₁, hcleared₁⟩ := hd.clients j c hc
    obtain ⟨c₀, hc₀, hcleared₀⟩ := h.clients j c₁ hc₁
    exact ⟨c₀, hc₀, hcleared₀.trans hcleared₁⟩

theorem withdrawn_edits {reason : MandateRevocation} {mandates : Table Mandate}
    (h : Rewrites (Withdrawn s.now k reason) s.mandates mandates) :
    Edits k (revokeRow s.now reason) s { s with mandates := mandates } := by
  refine ⟨h.1, fun j n hn => ?_, fun j n hn hroot => ?_, (SparesRoots.refl s).clients⟩
  · obtain ⟨n₀, hn₀, hwithdrawn⟩ := h.before hn
    refine ⟨n₀, hn₀, ?_⟩
    obtain ⟨r, u, rfl, -⟩ := withdrawn_same hwithdrawn
    exact ⟨rfl, rfl, rfl, rfl⟩
  · obtain ⟨n', hn', hwithdrawn⟩ := h.after hn
    simp only [Withdrawn, hroot.1, reduceCtorEq, if_false] at hwithdrawn
    rw [hn']
    split at hwithdrawn
    · rw [hwithdrawn, if_pos ‹_›]
    · rw [hwithdrawn, if_neg ‹_›]

theorem revokeMandate_edits {reason : MandateRevocation} (h : s.revokeMandate k reason = .ok t) :
    Edits k (revokeRow s.now reason) s t := by
  simp only [revokeMandate, bind_ok, Table.get_ok, pure_ok] at h
  obtain ⟨-, -, rfl⟩ := h
  exact (withdrawn_edits (withdrawn_rewrites s k reason fun _ _ => id)).trans_spares (deleteClients_roots _ _)

theorem keyIsKnown_iff {hash : String} :
    db.keyIsKnown hash = true ↔ ∃ k m, db.mandates.row k = some m ∧ m.keyHash = some hash := by
  simp [keyIsKnown, exists?_eq_true]

end DB

end Lok
