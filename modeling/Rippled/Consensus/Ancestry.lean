import Mathlib.Data.List.Infix
import Mathlib.Data.List.Lex
import Rippled.Consensus.LedgerTrie

/-!
# Ledgers as words

A ledger with its ancestors is the word of their ids, genesis first. The unique-history property makes an id
determine its word, `mismatch` is the length of the longest common prefix of two words, and a node of the trie
stands for the word that ends at its tip.
-/

namespace Rippled.Consensus

open Lib

/-- The documented requirements on a ledger type: ledgers that agree on one ancestor agree on all before it, and
`mismatch` is the first sequence number at which two ledgers differ. -/
class LawfulLedger (L : Type) {ID : Type} [Ledger L ID] : Prop where
  id_eq : ∀ l : L, Ledger.id l = Ledger.ancestor l (Ledger.seq l)
  seq_genesis : Ledger.seq (Ledger.genesis : L) = 0
  ancestor_zero : ∀ l : L, Ledger.ancestor l 0 = Ledger.id (Ledger.genesis : L)
  unique_history : ∀ (a b : L) (s t : Nat), s ≤ Ledger.seq a → t ≤ Ledger.seq b →
    Ledger.ancestor a s = Ledger.ancestor b t → s = t ∧ ∀ p ≤ s, Ledger.ancestor a p = Ledger.ancestor b p
  lt_mismatch : ∀ (a b : L) (s : Nat), s < Ledger.mismatch a b ↔
    s ≤ Ledger.seq a ∧ s ≤ Ledger.seq b ∧ Ledger.ancestor a s = Ledger.ancestor b s

variable {L ID : Type} [Ledger L ID]

/-- The ids of the ancestors of a ledger with sequence numbers below `e`. -/
def upTo (l : L) (e : Nat) : List ID := (List.range e).map (Ledger.ancestor l)

/-- The ids of a ledger and all its ancestors. -/
def word (l : L) : List ID := upTo l (Ledger.seq l + 1)

@[simp] theorem length_upTo (l : L) (e : Nat) : (upTo l e).length = e := by simp [upTo]

@[simp] theorem length_word (l : L) : (word l).length = Ledger.seq l + 1 := by simp [word]

variable {k : Nat} {e : Nat}

theorem getElem?_upTo {l : L} (h : k < e) : (upTo l e)[k]? = some (Ledger.ancestor l k) := by
  simp [upTo, List.getElem?_range h]

theorem take_upTo (l : L) (h : k ≤ e) : (upTo l e).take k = upTo l k := by
  rw [upTo, ← List.map_take, List.take_range, Nat.min_eq_left h, upTo]

theorem upTo_le (l : L) (h : k ≤ e) : upTo l k <+: upTo l e := by
  rw [← take_upTo l h]
  exact List.take_prefix k _

variable {a b : L}

theorem upTo_congr : upTo a k = upTo b k ↔ ∀ p < k, Ledger.ancestor a p = Ledger.ancestor b p := by
  simp [upTo, List.map_inj_left]

theorem upTo_mono (h : upTo a e = upTo b e) (hk : k ≤ e) : upTo a k = upTo b k := by
  rw [← take_upTo a hk, h, take_upTo b hk]

section Lawful
variable [LawfulLedger L]

/-- Ledgers have the same ancestors up to their mismatch. -/
theorem upTo_of_le_mismatch (h : k ≤ Ledger.mismatch a b) : upTo a k = upTo b k := by
  rw [upTo_congr]
  intro p hp
  exact ((LawfulLedger.lt_mismatch a b p).1 (hp.trans_le h)).2.2

theorem mismatch_le (a b : L) : Ledger.mismatch a b ≤ Ledger.seq b + 1 := by
  cases hm : Ledger.mismatch a b with
  | zero => exact Nat.zero_le _
  | succ p =>
    have hp : p < Ledger.mismatch a b := hm ▸ Nat.lt_succ_self p
    exact Nat.succ_le_succ ((LawfulLedger.lt_mismatch a b p).1 hp).2.1

/-- All ledgers share genesis. -/
theorem mismatch_pos (a b : L) : 0 < Ledger.mismatch a b := by
  refine (LawfulLedger.lt_mismatch a b 0).2 ⟨Nat.zero_le _, Nat.zero_le _, ?_⟩
  rw [LawfulLedger.ancestor_zero a, LawfulLedger.ancestor_zero b]

/-- A common ancestor has the same ancestors for both. -/
theorem upTo_of_ancestor_eq {s t : Nat} (ha : s ≤ Ledger.seq a) (hb : t ≤ Ledger.seq b)
    (h : Ledger.ancestor a s = Ledger.ancestor b t) : upTo a (s + 1) = upTo b (t + 1) := by
  obtain ⟨rfl, hall⟩ := LawfulLedger.unique_history a b s t ha hb h
  exact upTo_congr.2 fun p hp => hall p (Nat.le_of_lt_succ hp)

theorem upTo_one (l : L) : upTo l 1 = [Ledger.id (Ledger.genesis : L)] := by
  simp [upTo, LawfulLedger.ancestor_zero]

/-- A ledger is known by its ancestors. -/
theorem word_inj : (word a : List ID) = word b ↔ Ledger.id a = Ledger.id b := by
  constructor
  · intro h
    have hseq : Ledger.seq a = Ledger.seq b := by
      have hlen := congrArg List.length h
      rwa [length_word, length_word, Nat.add_right_cancel_iff] at hlen
    rw [LawfulLedger.id_eq, LawfulLedger.id_eq b, ← hseq]
    rw [word, word, ← hseq] at h
    exact upTo_congr.1 h _ (Nat.lt_succ_self _)
  · intro h
    rw [LawfulLedger.id_eq, LawfulLedger.id_eq b] at h
    exact upTo_of_ancestor_eq le_rfl le_rfl h

/-- Genesis comes first. -/
theorem word_genesis_le (l : L) : (word (Ledger.genesis : L) : List ID) <+: word l := by
  rw [word, LawfulLedger.seq_genesis, upTo_one, ← upTo_one l]
  exact upTo_le l (Nat.le_add_left 1 _)

end Lawful

/-! ## A concrete ledger type -/

/-- A ledger given by the choices that led to it from genesis. -/
structure Path where
  steps : List Nat

/-- The id of such a ledger is the list of its choices. -/
structure PathId where
  steps : List Nat

theorem PathId.steps_injective : Function.Injective PathId.steps := by
  rintro ⟨a⟩ ⟨b⟩ rfl
  rfl

instance : LinearOrder PathId := LinearOrder.lift' PathId.steps PathId.steps_injective

/-- The number of leading choices two ledgers share. -/
def Path.common : List Nat → List Nat → Nat
  | x :: xs, y :: ys => if x = y then common xs ys + 1 else 0
  | _, _ => 0

instance : Ledger Path PathId where
  seq l := l.steps.length
  ancestor l s := ⟨l.steps.take s⟩
  id l := ⟨l.steps⟩
  genesis := ⟨[]⟩
  mismatch a b := Path.common a.steps b.steps + 1

theorem Path.le_common (s : Nat) (a b : List Nat) :
    s ≤ common a b ↔ s ≤ a.length ∧ s ≤ b.length ∧ a.take s = b.take s := by
  induction s generalizing a b with
  | zero => simp
  | succ s ih =>
    cases a with
    | nil => simp [common]
    | cons x xs =>
      cases b with
      | nil => simp [common]
      | cons y ys =>
        by_cases hxy : x = y
        · simp [common, hxy, ih]
        · simp [common, hxy]

instance : LawfulLedger Path where
  id_eq l := congrArg PathId.mk List.take_length.symm
  seq_genesis := rfl
  ancestor_zero _ := rfl
  unique_history a b s t ha hb h := by
    have hsteps : a.steps.take s = b.steps.take t := congrArg PathId.steps h
    have hs : s = t := by
      have hlen := congrArg List.length hsteps
      rwa [List.length_take_of_le ha, List.length_take_of_le hb] at hlen
    subst hs
    refine ⟨rfl, fun p hp => congrArg PathId.mk ?_⟩
    rw [← Nat.min_eq_left hp, ← List.take_take, hsteps, List.take_take]
  lt_mismatch a b s := by
    refine Nat.lt_succ_iff.trans ((Path.le_common s a.steps b.steps).trans ?_)
    exact and_congr_right' (and_congr_right' PathId.steps_injective.eq_iff)

/-! ## Spans -/

namespace Span

def word (s : Span L) : List ID := upTo s.ledger s.end_

@[simp] theorem length_word (s : Span L) : s.word.length = s.end_ := length_upTo _ _

variable {s : Span L}

theorem getElem?_word (h : k < s.end_) : s.word[k]? = some (Ledger.ancestor s.ledger k) :=
  getElem?_upTo h

theorem getElem?_start (s : Span L) : s.word[s.start]? = some s.startID := getElem?_upTo s.start_lt_end

/-- `diff` stops at the end of the span. -/
theorem diff_eq (s : Span L) (o : L) (h : s.start ≤ Ledger.mismatch s.ledger o) :
    s.diff o = min (Ledger.mismatch s.ledger o) s.end_ := by
  rw [diff, clamp, Nat.max_eq_right h]

theorem start_lt_diff {o : L} : s.start < s.diff o ↔ s.start < Ledger.mismatch s.ledger o := by
  have := s.start_lt_end
  rw [diff, clamp]
  omega

theorem fromSpot_of_le (hk : s.end_ ≤ k) : s.fromSpot k = none := by
  have hnot : ¬ s.clamp k < s.clamp s.end_ := by
    rw [clamp, clamp]
    omega
  rw [fromSpot, sub, dif_neg hnot]

/-- The part of a span from a spot on. -/
theorem fromSpot_of_lt (hk : s.start ≤ k) (hk' : k < s.end_) :
    ∃ r, s.fromSpot k = some r ∧ r.start = k ∧ r.end_ = s.end_ ∧ r.ledger = s.ledger := by
  have hlo : s.clamp k = k := by rw [clamp]; omega
  have hhi : s.clamp s.end_ = s.end_ := by rw [clamp]; omega
  refine ⟨⟨k, s.end_, s.ledger, hk'⟩, ?_, rfl, rfl, rfl⟩
  simp only [fromSpot, sub, hlo, hhi, hk', dif_pos]

/-- The part of a span before a spot. -/
theorem before_of_lt (hk : s.start < k) (hk' : k ≤ s.end_) :
    ∃ r, s.before k = some r ∧ r.start = s.start ∧ r.end_ = k ∧ r.ledger = s.ledger := by
  have := s.start_lt_end
  have hlo : s.clamp s.start = s.start := by rw [clamp]; omega
  have hhi : s.clamp k = k := by rw [clamp]; omega
  refine ⟨⟨s.start, k, s.ledger, hk⟩, ?_, rfl, rfl, rfl⟩
  simp only [before, sub, hlo, hhi, hk, dif_pos]

/-- Two spans, one behind the other. -/
theorem merge_of_le {a b : Span L} (h : a.end_ ≤ b.start) :
    (a.merge b).start = a.start ∧ (a.merge b).end_ = b.end_ ∧ (a.merge b).ledger = b.ledger := by
  have ha := a.start_lt_end
  have hb := b.start_lt_end
  rw [merge, if_pos (by omega)]
  exact ⟨Nat.min_eq_left (by omega), rfl, rfl⟩

end Span

end Rippled.Consensus
