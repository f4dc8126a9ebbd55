import Rippled.Consensus.Preferred
import Rippled.Consensus.ValidationRuns

/-!
# What a store of validations answers

The preferred ledger, and how many nodes are ahead of a ledger, depend on the last ledgers of the trusted nodes, and on
nothing else of a run.
-/

namespace Rippled.Consensus

open Lib

variable {A NodeID L ID : Type} [Ledger L ID] [LawfulLedger L] [DecidableEq NodeID] [LinearOrder ID]

/-- Tries with the same contents prefer one ledger, known by its id and those of its ancestors. -/
theorem LedgerTrie.Inv.getPreferred_congr {t t' : LedgerTrie L} (h : t.Inv) (h' : t'.Inv)
    (hsame : contents t'.root = contents t.root) (hne : contents t.root ≠ 0) (largestIssued : Nat) :
    ∃ tip tip', t.getPreferred largestIssued = some tip ∧
      t'.getPreferred largestIssued = some tip' ∧ tip'.seq = tip.seq ∧
      tip'.id = tip.id ∧ ∀ p ≤ tip.seq, Ledger.ancestor tip'.ledger p = Ledger.ancestor tip.ledger p := by
  obtain ⟨tip, htip, hid, hpref⟩ := h.getPreferred_spec largestIssued hne
  obtain ⟨tip', htip', hid', hpref'⟩ := h'.getPreferred_spec largestIssued (hsame ▸ hne)
  rw [hsame] at hpref'
  have hword := hpref'.unique hpref
  have hseq : tip'.seq = tip.seq := by simpa [tipWord] using congrArg List.length hword
  rw [tipWord, tipWord, hseq, upTo_congr] at hword
  refine ⟨tip, tip', htip, htip', hseq, ?_, fun p hp => hword p (Nat.lt_succ_of_le hp)⟩
  rw [hid, hid', hseq, hword _ (Nat.lt_succ_self _)]

namespace Validations

variable [Adaptor A L] {p p' : ValidationParms} {ok ok' : Validations A NodeID L ID → Op NodeID L ID → Prop}
  {T T' : NodeID → Bool} {s s' t t' : Validations A NodeID L ID}

theorem Runs.withTrie_core (h : Runs p ok T s) (ht : s.withTrie = some t) : Core t := by
  obtain ⟨u, hu, hcore, -⟩ := withTrie_spec (runs_core h).1
  rw [ht] at hu
  cases hu
  exact hcore

/-- Three nodes, of which one is ahead of another. -/
def inOrder : List (Int × Nat × Path) := [(1000, 0, ⟨[1]⟩), (1001, 1, ⟨[1, 3]⟩), (1002, 2, ⟨[4]⟩)]

/-- The same in another order, and the node that is ahead has validated the parent before. -/
def otherOrder : List (Int × Nat × Path) := [(1000, 2, ⟨[4]⟩), (1003, 1, ⟨[1]⟩), (1004, 0, ⟨[1]⟩), (1006, 1, ⟨[1, 3]⟩)]

theorem validated_words (steps : List (Int × Nat × Path))
    (heval : ((validated steps (init {} (netAt 0))).bind fun s => s.withTrie.map fun t =>
      (lastWords t.lastLedger, t.localSeqEnforcer.largest)) =
        some ({[⟨[]⟩, ⟨[1]⟩], [⟨[]⟩, ⟨[1]⟩, ⟨[1, 3]⟩], [⟨[]⟩, ⟨[4]⟩]}, 0)) :
    ∃ s t, validated steps (init {} (netAt 0)) = some s ∧
      Runs {} (fun _ _ => True) (fun _ => true) s ∧ s.withTrie = some t ∧
      lastWords t.lastLedger = {[⟨[]⟩, ⟨[1]⟩], [⟨[]⟩, ⟨[1]⟩, ⟨[1, 3]⟩], [⟨[]⟩, ⟨[4]⟩]} ∧
        t.localSeqEnforcer.largest = 0 := by
  obtain ⟨s, hs, hrest⟩ := Option.bind_eq_some_iff.1 heval
  obtain ⟨t, ht, hlast⟩ := Option.map_eq_some_iff.1 hrest
  exact ⟨s, t, hs, validated_runs (fun _ _ _ => trivial) _ (.init _ _) hs, ht,
    congrArg Prod.fst hlast, congrArg Prod.snd hlast⟩

end Validations

end Rippled.Consensus
