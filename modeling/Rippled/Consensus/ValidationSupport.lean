import Rippled.Consensus.TrieRuns
import Rippled.Consensus.Validations

/-!
# Support in the trie and pending acquisitions

`Core` ties the trie to `lastLedger` (it holds exactly the ledgers in it) and the nodes waiting for a ledger to
their current validations. Every operation of the store that touches the trie gets one lemma: it returns, keeps
`Core`, and says which nodes may have support afterwards.
-/

namespace Rippled.Consensus.Validations

open Lib Option AList

variable {A NodeID L ID : Type} [DecidableEq NodeID]

/-! ## Nodes waiting for a ledger -/

variable {s : Validations A NodeID L ID}

section Acquiring
variable [DecidableEq ID]

/-- The nodes waiting for a ledger after an operation were waiting for it before. -/
def Shrinks (q q' : HashMap (Nat × ID) (List NodeID)) : Prop :=
  ∀ k nodes', q'.lookup k = some nodes' → nodes'.Nodup ∧ ∃ nodes, q.lookup k = some nodes ∧ ∀ n ∈ nodes', n ∈ nodes

theorem dropAcquiring_acquiring (hnodup : ∀ k nodes, s.acquiring.lookup k = some nodes → nodes.Nodup) (key : Nat × ID)
    (n : NodeID) :
    Shrinks s.acquiring (s.dropAcquiring key n).acquiring ∧
      ∀ nodes, (s.dropAcquiring key n).acquiring.lookup key = some nodes → n ∉ nodes := by
  rw [dropAcquiring]
  cases hkey : s.acquiring.lookup key with
  | none =>
    refine ⟨fun k nodes' hk => ⟨hnodup k _ hk, nodes', hk, fun _ hm => hm⟩, fun nodes hk => ?_⟩
    rw [hkey] at hk
    cases hk
  | some nodes =>
    have hnd := hnodup key nodes hkey
    simp only
    split_ifs with hempty
    · refine ⟨fun k nodes' hk => ?_, fun nodes' hk => ?_⟩
      · by_cases hkk : k = key
        · rw [hkk, lookup_erase] at hk
          cases hk
        · rw [lookup_erase_ne hkk] at hk
          exact ⟨hnodup k _ hk, nodes', hk, fun _ hm => hm⟩
      · rw [lookup_erase] at hk
        cases hk
    · refine ⟨fun k nodes' hk => ?_, fun nodes' hk => ?_⟩
      · by_cases hkk : k = key
        · rw [hkk, lookup_insert] at hk
          cases hk
          exact ⟨hnd.erase n, nodes, hkk ▸ hkey, fun _ hm => List.mem_of_mem_erase hm⟩
        · rw [lookup_insert_ne hkk] at hk
          exact ⟨hnodup k _ hk, nodes', hk, fun _ hm => hm⟩
      · rw [lookup_insert] at hk
        cases hk
        exact hnd.not_mem_erase

theorem dropAcquiring_current (s : Validations A NodeID L ID) (key : Nat × ID) (n : NodeID)
    (c : HashMap NodeID (Validation ID)) :
    dropAcquiring key n { s with current := c } = { s.dropAcquiring key n with current := c } := by
  rw [dropAcquiring, dropAcquiring]
  cases s.acquiring.lookup key with
  | none => rfl
  | some nodes =>
    simp only
    split_ifs <;> rfl

theorem dropAcquiring_eq (s : Validations A NodeID L ID) (key : Nat × ID) (n : NodeID) :
    s.dropAcquiring key n = { s with acquiring := (s.dropAcquiring key n).acquiring } := by
  rw [dropAcquiring]
  split
  · rfl
  · split_ifs <;> rfl

end Acquiring

variable [Ledger L ID]

/-! ## Ledgers last validated -/

def lastWords (m : HashMap NodeID L) : Multiset (List ID) := (m.entries.map fun e => word e.2 : List (List ID))

variable {n : NodeID}

theorem lastWords_erase {m : HashMap NodeID L} {old : L} (h : m.lookup n = some old) :
    lastWords m = lastWords (m.erase n) + Multiset.replicate 1 (word old) := by
  have hperm : (m.entries.map fun e => (word e.2 : List ID)).Perm _ := (HashMap.entries_perm h).map _
  rw [lastWords, Multiset.coe_eq_coe.2 hperm, List.map_cons, ← Multiset.cons_coe, add_comm]
  rfl

theorem lastWords_insert (m : HashMap NodeID L) (n : NodeID) (l : L) :
    lastWords (m.insert n l) = lastWords (m.erase n) + Multiset.replicate 1 (word l) := by
  rw [lastWords, entries_insert, List.map_cons, ← Multiset.cons_coe, add_comm]
  rfl

section Trie
variable [DecidableEq ID]

/-- The trie holds the ledgers last validated, and a node waits at most for the ledger of its current, trusted
validation. -/
structure Core (s : Validations A NodeID L ID) : Prop where
  trie : s.trie.Inv
  holds : contents s.trie.root = lastWords s.lastLedger
  nodup : ∀ k nodes, s.acquiring.lookup k = some nodes → nodes.Nodup
  pending : ∀ k nodes n, s.acquiring.lookup k = some nodes → n ∈ nodes →
    ∃ v, s.current.lookup n = some v ∧ v.trusted = true ∧ k = (v.seq, v.ledgerID)

/-- `s'` differs from `s` in the trie only through the support of nodes for ledgers as `P` has them, and in the
acquiring lists only by nodes that are gone; the current validations are the same. -/
structure Moves (P : NodeID → L → Prop) (s s' : Validations A NodeID L ID) : Prop where
  core : Core s'
  current : s'.current = s.current
  parms : s'.parms = s.parms
  shrinks : Shrinks s.acquiring s'.acquiring
  last : ∀ n l, s'.lastLedger.lookup n = some l → s.lastLedger.lookup n = some l ∨ P n l

variable {P : NodeID → L → Prop}

theorem Moves.refl (h : Core s) : Moves P s s where
  core := h
  current := rfl
  parms := rfl
  shrinks k nodes hk := ⟨h.nodup k nodes hk, nodes, hk, fun _ hm => hm⟩
  last _ _ hl := .inl hl

theorem Moves.trans {s' s'' : Validations A NodeID L ID} (h : Moves P s s') (h' : Moves P s' s'') :
    Moves P s s'' where
  core := h'.core
  current := h'.current.trans h.current
  parms := h'.parms.trans h.parms
  shrinks k nodes'' hk := by
    obtain ⟨hnd, nodes', hk', hsub⟩ := h'.shrinks k nodes'' hk
    obtain ⟨-, nodes, hk'', hsub'⟩ := h.shrinks k nodes' hk'
    exact ⟨hnd, nodes, hk'', fun n hn => hsub' n (hsub n hn)⟩
  last n l hl := by
    rcases h'.last n l hl with hl | hp
    · exact h.last n l hl
    · exact .inr hp

theorem Core.adaptor (h : Core s) (a : A) : Core { s with adaptor := a } :=
  ⟨h.trie, h.holds, h.nodup, h.pending⟩

theorem Core.shrink (h : Core s) {q : HashMap (Nat × ID) (List NodeID)} (hq : Shrinks s.acquiring q) :
    Core { s with acquiring := q } where
  __ := h
  nodup k nodes hk := (hq k nodes hk).1
  pending k nodes n hk hn := by
    obtain ⟨-, nodes', hk', hsub⟩ := hq k nodes hk
    exact h.pending k nodes' n hk' (hsub n hn)

variable [LawfulLedger L]

theorem updateLedger_spec (h : Core s) (n : NodeID) (l : L) :
    ∃ t, updateLedger n l s = some { s with trie := t, lastLedger := s.lastLedger.insert n l } ∧
      Core { s with trie := t, lastLedger := s.lastLedger.insert n l } := by
  obtain ⟨t, hret, hinv, hholds⟩ : ∃ t, s.withoutLast n = some t ∧ t.Inv ∧
      contents t.root = lastWords (s.lastLedger.erase n) := by
    rw [withoutLast]
    cases hlook : s.lastLedger.lookup n with
    | none => exact ⟨s.trie, rfl, h.trie, by rw [HashMap.erase_of_lookup_none hlook, h.holds]⟩
    | some old =>
      obtain ⟨t, hret, hinv, hholds⟩ := LedgerTrie.remove_spec h.trie old 1
      refine ⟨t, by simp only [hret]; rfl, hinv, ?_⟩
      rw [hholds, h.holds, lastWords_erase hlook, Multiset.add_sub_cancel_right]
  obtain ⟨t', hret', hinv', hholds'⟩ := LedgerTrie.insert_spec hinv l Nat.one_pos
  refine ⟨t', ?_, hinv', ?_, h.nodup, h.pending⟩
  · simp only [updateLedger, hret, hret', bind_eq_bind, bind_some, pure_def]
  · rw [hholds', hholds, lastWords_insert]

theorem updateLedgers_moves (h : Core s) (l : L) (nodes : List NodeID) :
    ∃ s', nodes.foldlM (fun s nodeID => updateLedger nodeID l s) s = some s' ∧
      Moves (fun m k => m ∈ nodes ∧ k = l) s s' ∧
      s'.acquiring = s.acquiring := by
  induction nodes generalizing s with
  | nil => exact ⟨s, rfl, .refl h, rfl⟩
  | cons n nodes ih =>
    obtain ⟨t, hret, hcore⟩ := updateLedger_spec h n l
    obtain ⟨s', hret', hmoves, hacq⟩ := ih hcore
    refine ⟨s', ?_, ⟨hmoves.core, hmoves.current, hmoves.parms, hmoves.shrinks, fun m k hk => ?_⟩, hacq⟩
    · rw [List.foldlM_cons, hret]
      exact hret'
    · rcases hmoves.last m k hk with hk | hm
      · by_cases hmn : m = n
        · rw [hmn, lookup_insert] at hk
          exact .inr ⟨hmn ▸ List.mem_cons_self, (some.inj hk).symm⟩
        · rw [lookup_insert_ne hmn] at hk
          exact .inl hk
      · exact .inr ⟨List.mem_cons_of_mem n hm.1, hm.2⟩

/-- `removeTrie` on a state in which the node waits for nothing else: its support goes if it is for the ledger of
the validation. -/
theorem removeTrie_moves {v : Validation ID} (h : Core (s.dropAcquiring (v.seq, v.ledgerID) n)) :
    ∃ s', removeTrie n v s = some s' ∧ Moves (fun _ _ => False) (s.dropAcquiring (v.seq, v.ledgerID) n) s' ∧
      s'.acquiring = (s.dropAcquiring (v.seq, v.ledgerID) n).acquiring ∧
      ((∀ l, s.lastLedger.lookup n = some l → Ledger.id l = v.ledgerID) → s'.lastLedger.lookup n = none) := by
  have hlast : (s.dropAcquiring (v.seq, v.ledgerID) n).lastLedger = s.lastLedger := by rw [dropAcquiring_eq]
  rw [removeTrie, ← hlast]
  generalize s.dropAcquiring (v.seq, v.ledgerID) n = u at h
  simp only
  cases hlook : u.lastLedger.lookup n with
  | none => exact ⟨u, rfl, .refl h, rfl, fun _ => hlook⟩
  | some l =>
    simp only
    split_ifs with hid
    · obtain ⟨t, hret, hinv, hholds⟩ := LedgerTrie.remove_spec h.trie l 1
      refine ⟨{ u with trie := t, lastLedger := u.lastLedger.erase n }, ?_, ⟨⟨hinv, ?_, h.nodup, h.pending⟩, rfl, rfl,
        (Moves.refl (P := fun _ _ => False) h).shrinks, fun m k hk => ?_⟩, rfl, fun _ => lookup_erase _ _⟩
      · simp only [hret, bind_eq_bind, bind_some, pure_def]
      · rw [hholds, h.holds, lastWords_erase hlook, Multiset.add_sub_cancel_right]
      · by_cases hm : m = n
        · rw [hm, lookup_erase] at hk
          cases hk
        · rw [lookup_erase_ne hm] at hk
          exact .inl hk
    · exact ⟨u, rfl, .refl h, rfl, fun hall => absurd (hall l rfl) hid⟩

variable [Adaptor A L]

/-- The adaptor may return `l` when the ledger with id `i` is asked for. -/
def Acquired (i : ID) (l : L) : Prop := ∃ a : A, (Adaptor.acquire i a).1 = some l

theorem checkOne_moves (h : Core s) (e : Σ _ : Nat × ID, List NodeID) :
    ∃ s', checkOne s e = some s' ∧ Moves (fun n l => n ∈ e.2 ∧ Acquired (A := A) e.1.2 l) s s' := by
  rw [checkOne]
  rcases hacq : Adaptor.acquire e.1.2 s.adaptor with ⟨_ | l, a⟩
  · exact ⟨_, rfl, h.adaptor a, rfl, rfl, (Moves.refl (P := fun _ _ => False) h).shrinks, fun _ _ hl => .inl hl⟩
  · obtain ⟨s', hret, hmoves, hsame⟩ := updateLedgers_moves (h.adaptor a) l e.2
    have hshrinks : Shrinks s'.acquiring (s'.acquiring.erase e.1) := by
      intro k nodes hk
      by_cases hke : k = e.1
      · rw [hke, lookup_erase] at hk
        cases hk
      · rw [lookup_erase_ne hke] at hk
        exact ⟨hmoves.core.nodup k nodes hk, nodes, hk, fun _ hm => hm⟩
    refine ⟨{ s' with acquiring := s'.acquiring.erase e.1 }, ?_, hmoves.core.shrink hshrinks,
      hmoves.current, hmoves.parms, ?_,
      fun n k hk => (hmoves.last n k hk).imp_right fun ⟨hn, hk⟩ => ⟨hn, s.adaptor, by rw [hacq, hk]⟩⟩
    · simp only [hret, bind_eq_bind, bind_some, pure_def]
    · rw [hsame] at hshrinks ⊢
      exact hshrinks

/-- The node waits for some ledger, and `l` may be acquired for it. -/
def Waits (s : Validations A NodeID L ID) (n : NodeID) (l : L) : Prop :=
  ∃ k nodes, s.acquiring.lookup k = some nodes ∧ n ∈ nodes ∧ Acquired (A := A) k.2 l

theorem checkAcquired_moves (h : Core s) : ∃ s', s.checkAcquired = some s' ∧ Moves (Waits s) s s' := by
  have hfold : ∀ (es : List (Σ _ : Nat × ID, List NodeID)) (u : Validations A NodeID L ID), Core u →
      (∀ e ∈ es, s.acquiring.lookup e.1 = some e.2) → ∃ u', es.foldlM checkOne u = some u' ∧ Moves (Waits s) u u' := by
    intro es
    induction es with
    | nil =>
      intro u hu _
      exact ⟨u, rfl, .refl hu⟩
    | cons e es ih =>
      intro u hu hes
      obtain ⟨u', hret, hmoves⟩ := checkOne_moves hu e
      obtain ⟨u'', hret', hmoves'⟩ := ih u' hmoves.core fun d hd => hes d (List.mem_cons_of_mem e hd)
      have hwait : Moves (Waits s) u u' := ⟨hmoves.core, hmoves.current, hmoves.parms, hmoves.shrinks, fun n l hl =>
        (hmoves.last n l hl).imp_right fun hn => ⟨e.1, e.2, hes e List.mem_cons_self, hn.1, hn.2⟩⟩
      refine ⟨u'', ?_, hwait.trans hmoves'⟩
      rw [List.foldlM_cons, hret]
      exact hret'
  refine hfold s.acquiring.entries s h fun e he => ?_
  exact mem_lookup_iff.2 he

/-- `updateTrie` for a node's current, trusted validation: afterwards the node has support, or waits. -/
theorem updateTrie_spec {v : Validation ID} {prior : Option (Nat × ID)} (h : Core (clearPrior prior n s))
    (hv : (clearPrior prior n s).current.lookup n = some v) (htrusted : v.trusted = true) :
    ∃ s', updateTrie n v prior s = some s' ∧ Core s' ∧ s'.current = (clearPrior prior n s).current ∧
      ∀ m l, s'.lastLedger.lookup m = some l →
        (clearPrior prior n s).lastLedger.lookup m = some l ∨ Waits (clearPrior prior n s) m l ∨ m = n := by
  rw [updateTrie]
  generalize clearPrior prior n s = u at h hv
  obtain ⟨u', hret, hmoves⟩ := checkAcquired_moves h
  have hlast : ∀ m l, u'.lastLedger.lookup m = some l → u.lastLedger.lookup m = some l ∨ Waits u m l ∨ m = n :=
    fun m l hl => (hmoves.last m l hl).imp_right .inl
  have hv' : u'.current.lookup n = some v := hmoves.current ▸ hv
  rw [hret, bind_eq_bind, bind_some, acquireOrWait]
  -- a list for the validation's ledger that holds `n` and nodes that waited for it already
  have hlisted : ∀ (a : A) (nodes : List NodeID), nodes.Nodup →
      (∀ m ∈ nodes, m = n ∨ ∃ nodes', u'.acquiring.lookup (v.seq, v.ledgerID) = some nodes' ∧ m ∈ nodes') →
      Core { u' with adaptor := a, acquiring := u'.acquiring.insert (v.seq, v.ledgerID) nodes } := by
    intro a nodes hnd hnodes
    refine ⟨hmoves.core.trie, hmoves.core.holds, fun k ms hk => ?_, fun k ms m hk hm => ?_⟩
    · by_cases hkv : k = (v.seq, v.ledgerID)
      · rw [hkv, lookup_insert] at hk
        cases hk
        exact hnd
      · rw [lookup_insert_ne hkv] at hk
        exact hmoves.core.nodup k ms hk
    · by_cases hkv : k = (v.seq, v.ledgerID)
      · rw [hkv, lookup_insert] at hk
        cases hk
        rcases hnodes m hm with rfl | ⟨nodes', hk', hm'⟩
        · exact ⟨v, hv', htrusted, hkv⟩
        · rw [hkv]
          exact hmoves.core.pending _ nodes' m hk' hm'
      · rw [lookup_insert_ne hkv] at hk
        exact hmoves.core.pending k ms m hk hm
  cases hkey : u'.acquiring.lookup (v.seq, v.ledgerID) with
  | some nodes =>
    refine ⟨_, rfl, hlisted u'.adaptor (nodes.insert n) ((hmoves.core.nodup _ _ hkey).insert) fun m hm => ?_,
      hmoves.current, hlast⟩
    exact (List.mem_insert_iff.1 hm).imp_right fun hm => ⟨nodes, hkey, hm⟩
  | none =>
    simp only
    rcases hacq : Adaptor.acquire v.ledgerID u'.adaptor with ⟨_ | l, a⟩
    · exact ⟨_, rfl, hlisted a [n] (List.nodup_singleton n) fun m hm => .inl (List.mem_singleton.1 hm),
        hmoves.current, hlast⟩
    · obtain ⟨t, hret', hcore⟩ := updateLedger_spec (hmoves.core.adaptor a) n l
      refine ⟨_, hret', hcore, hmoves.current, fun m k hk => ?_⟩
      by_cases hm : m = n
      · exact .inr (.inr hm)
      · rw [lookup_insert_ne hm] at hk
        exact hlast m k hk

end Trie

end Rippled.Consensus.Validations
