import Mathlib.Algebra.BigOperators.Group.Finset.Basic
import Rippled.Consensus.TrieUpdates

/-!
# Runs of the trie

A run is a sequence of `insert` and `remove` calls on an initially empty trie, with queries in between, which
may reorder children. Its support is the plain multiset of words that the calls describe.
-/

namespace Rippled.Consensus.LedgerTrie

open Lib

variable {L ID : Type} [Ledger L ID]

inductive Op (L : Type) where
  | insert (ledger : L) (count : Nat)
  | remove (ledger : L) (count : Nat)

def Op.count : Op L → Nat
  | insert _ count => count
  | remove _ count => count

theorem init_inv : (init : LedgerTrie L).Inv where
  locally := .node ⟨⟨Nat.le_add_left _ _, rfl, by simp, by simp, by simp⟩, fun h => absurd rfl h⟩ (by simp)
  atRoot := ⟨rfl, rfl, rfl⟩
  counts := CountMap.counts_nil
  next_ne := Nat.one_ne_zero

variable {t : LedgerTrie L}

theorem Inv.shuffle (h : t.Inv) {r : Node L} (hr : t.root.Shuffles r) :
    Inv { t with root := r } ∧ contents r = contents t.root := by
  have hholds : contents r = contents t.root := hr.gather
  refine ⟨⟨hr.locally (fun _ _ _ hp hl => hl.perm hp) h.locally, ?_, ?_, h.next_ne⟩, hholds⟩
  · simp only [hr.val_eq]
    exact h.atRoot
  · simp only [hholds]
    exact h.counts

section ById
variable [DecidableEq ID]

def Op.exec (t : LedgerTrie L) : Op L → Option (LedgerTrie L)
  | insert ledger count => t.insert ledger count
  | remove ledger count => (t.remove ledger count).map (·.2)

/-- What a call does to the support: removal takes at most what is there. -/
def Op.apply (S : Multiset (List ID)) : Op L → Multiset (List ID)
  | insert ledger count => S + Multiset.replicate count (word ledger)
  | remove ledger count => S - Multiset.replicate count (word ledger)

/-- The support that a sequence of calls leaves: for each ledger what was inserted less what was removed. -/
def support (ops : List (Op L)) : Multiset (List ID) := ops.foldl Op.apply 0

/-- The tries that a sequence of calls can lead to. -/
inductive Runs : List (Op L) → LedgerTrie L → Prop
  | init : Runs [] init
  | call {ops t t'} (op : Op L) (run : Runs ops t) (ret : op.exec t = some t') : Runs (ops ++ [op]) t'
  /-- A query may leave the children of nodes in another order. -/
  | query {ops t r} (run : Runs ops t) (order : t.root.Shuffles r) : Runs ops { t with root := r }

variable [LawfulLedger L]

theorem exec_spec (h : t.Inv) {op : Op L} (hop : 1 ≤ op.count) :
    ∃ t', op.exec t = some t' ∧ t'.Inv ∧ contents t'.root = op.apply (contents t.root) := by
  cases op with
  | insert ledger count => exact insert_spec h ledger hop
  | remove ledger count =>
    obtain ⟨t', hret, hinv, hholds⟩ := remove_spec h ledger count
    exact ⟨t', by rw [Op.exec, hret]; rfl, hinv, hholds⟩

/-- Every trie of a run satisfies the invariant and holds the support of the run. -/
theorem runs_inv {ops : List (Op L)} (h : Runs ops t) (hops : ∀ op ∈ ops, 1 ≤ op.count) :
    t.Inv ∧ contents t.root = support ops := by
  induction h with
  | init =>
    refine ⟨init_inv, ?_⟩
    rw [support, init, contents_node]
    simp
  | call op run ret ih =>
    obtain ⟨hinv, hholds⟩ := ih fun o ho => hops o (List.mem_append_left _ ho)
    obtain ⟨t'', hret, hinv', hholds'⟩ := exec_spec hinv (hops op (by simp))
    rw [ret] at hret
    cases hret
    refine ⟨hinv', ?_⟩
    rw [hholds', hholds, support, support, List.foldl_append]
    rfl
  | query run order ih =>
    obtain ⟨hinv, hholds⟩ := ih hops
    obtain ⟨hinv', hsame⟩ := hinv.shuffle order
    exact ⟨hinv', hsame.trans hholds⟩

theorem runs_exists (ops : List (Op L)) (hops : ∀ op ∈ ops, 1 ≤ op.count) : ∃ t, Runs ops t := by
  induction ops using List.reverseRecOn with
  | nil => exact ⟨_, .init⟩
  | append_singleton ops op ih =>
    have hprev : ∀ o ∈ ops, 1 ≤ o.count := fun o ho => hops o (List.mem_append_left _ ho)
    obtain ⟨t, hrun⟩ := ih hprev
    obtain ⟨t', hret, -⟩ := exec_spec (runs_inv hrun hprev).1 (hops op (by simp))
    exact ⟨t', .call op hrun hret⟩

theorem countP_eq_sum_count {α : Type} [DecidableEq α] (p : α → Prop) [DecidablePred p] (S : Multiset α) :
    S.countP p = ∑ w ∈ S.toFinset with p w, S.count w := by
  rw [Multiset.countP_eq_card_filter, ← Multiset.toFinset_sum_count_eq (S.filter p), Multiset.toFinset_filter]
  refine Finset.sum_congr rfl fun w hw => ?_
  rw [Multiset.count_filter_of_pos (Finset.mem_filter.1 hw).2]

/-- Every sequence of calls runs to its end; in every trie it leads to, `tipSupport` is what was inserted for the
ledger less what was removed, `branchSupport` is the sum of that over the ledger and its descendants, and
`checkInvariants` holds. -/
theorem support_of_run (ops : List (Op L)) (hops : ∀ op ∈ ops, 1 ≤ op.count) :
    (∃ t, Runs ops t) ∧ ∀ t, Runs ops t → t.checkInvariants = true ∧ ∀ ledger : L,
      t.tipSupport ledger = (support ops).count (word ledger) ∧
      t.branchSupport ledger = ∑ w ∈ (support ops).toFinset with word ledger <+: w, (support ops).count w := by
  refine ⟨runs_exists ops hops, fun t hrun => ?_⟩
  obtain ⟨hinv, hholds⟩ := runs_inv hrun hops
  refine ⟨hinv.checkInvariants, fun ledger => ⟨?_, ?_⟩⟩
  · rw [hinv.tipSupport_eq, hholds]
  · rw [hinv.branchSupport_eq, hholds, countP_eq_sum_count]

end ById

/-- Support for a ledger, for a descendant and for a ledger that splits their span; then one is withdrawn. -/
theorem support_of_run_split :
    ∃ t, Runs [.insert (⟨[1, 2, 3]⟩ : Path) 2, .insert ⟨[1, 4]⟩ 1, .remove ⟨[1, 2, 3]⟩ 1] t ∧
      t.tipSupport ⟨[1, 2, 3]⟩ = 1 ∧ t.branchSupport ⟨[1, 2]⟩ = 1 ∧ t.branchSupport ⟨[1]⟩ = 2 := by
  obtain ⟨⟨t, hrun⟩, hall⟩ := support_of_run [.insert (⟨[1, 2, 3]⟩ : Path) 2, .insert ⟨[1, 4]⟩ 1, .remove ⟨[1, 2, 3]⟩ 1]
    (by decide)
  obtain ⟨-, hsup⟩ := hall t hrun
  refine ⟨t, hrun, (hsup _).1.trans ?_, (hsup _).2.trans ?_, (hsup _).2.trans ?_⟩
  · decide
  · decide
  · decide

end Rippled.Consensus.LedgerTrie
