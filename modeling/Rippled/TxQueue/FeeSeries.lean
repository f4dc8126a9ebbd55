import Mathlib.Algebra.BigOperators.Intervals
import Mathlib.Algebra.BigOperators.Ring.Finset
import Mathlib.Algebra.Order.BigOperators.Group.Finset
import Mathlib.Tactic.Ring
import Rippled.TxQueue.Apply

/-!
# The fee level of a series

A transaction that clears the queue of its account pays for the whole series in one sum, which
`escalatedSeriesFeeLevel` computes from a closed form in 64 bits. Below 2^21 transactions the closed form does not
wrap, and the sum is what the transactions would pay one by one, rounded down once and not at every step. Where the
sum does not fit, the code reads the empty result of `mulDiv` (`escalatedSeriesFeeLevel_reads_empty`).
-/

namespace Rippled.TxQueue

open Finset

theorem sum_div_bounds {d : Nat} (hd : 0 < d) (f : Nat → Nat) {s : Finset Nat} (hs : s.Nonempty) :
    ∑ n ∈ s, f n / d ≤ (∑ n ∈ s, f n) / d ∧ (∑ n ∈ s, f n) / d < ∑ n ∈ s, f n / d + #s := by
  constructor
  · rw [Nat.le_div_iff_mul_le hd, sum_mul]
    exact sum_le_sum fun n _ => Nat.div_mul_le_self (f n) d
  · rw [Nat.div_lt_iff_lt_mul hd, card_eq_sum_ones, ← sum_add_distrib, sum_mul]
    exact sum_lt_sum_of_nonempty hs fun n _ => Nat.lt_mul_of_div_lt (Nat.lt_succ_self _) hd

theorem mulDiv_eq (a b : UInt64) {c : UInt64} (hc : c ≠ 0) :
    mulDiv a b c = if a.toNat * b.toNat / c.toNat < 2 ^ 64 then some
    (.ofNat (a.toNat * b.toNat / c.toNat)) else none := by
  unfold mulDiv
  rw [if_neg hc]
  dsimp only
  rw [show muldivMax.toNat = 2 ^ 64 - 1 from rfl]
  split_ifs <;> first | rfl | omega

section Clearing
variable {AccountID Rules View : Type}

theorem toNat_foldl_feeLevel_le (l : List (MaybeTx AccountID Rules)) (paid : FeeLevel64) :
    (l.foldl (fun total m => total + m.feeLevel) paid).toNat ≤ paid.toNat + (l.map (·.feeLevel.toNat)).sum := by
  induction l generalizing paid with
  | nil => exact Nat.le_refl _
  | cons m l ih =>
    have hm := ih (paid + m.feeLevel)
    rw [UInt64.toNat_add] at hm
    have hmod := Nat.mod_le (paid.toNat + m.feeLevel.toNat) (2 ^ 64)
    rw [List.foldl_cons, List.map_cons, List.sum_cons]
    omega

variable [LinearOrder AccountID]

/-- The queued transactions that go before the new one. -/
def Attempt.series (a : Attempt AccountID Rules View) : List (MaybeTx AccountID Rules) :=
  a.prevTxs.takeWhile (·.seqProxy < a.txSeq)

/-- Nothing is applied unless the level of the series is known, and is paid. -/
theorem Attempt.paid_of_cleared [DecidableEq Rules] {a : Attempt AccountID Rules View} {q q' : TxQ AccountID Rules}
    {env : Env AccountID Rules View} {r : ApplyResult} {view : View}
    (h : a.clearAccountQueueUpThruTx q env = .ok (r, view, q')) (happlied : r.applied = true) :
    ∃ level, FeeMetrics.escalatedSeriesFeeLevel a.snapshot (env.txCount (env.sandbox a.view)) (env.txCount a.view)
        (.ofNat a.series.length + 1) = (true, level) ∧
      (level.getD 0).toNat ≤ a.feeLevelPaid.toNat + (a.series.map (·.feeLevel.toNat)).sum := by
  unfold clearAccountQueueUpThruTx at h
  dsimp only at h
  split at h
  · cases h
    cases happlied
  · rename_i hpaid
    rw [Bool.or_eq_true, not_or, Bool.not_eq_true', Bool.not_eq_false, decide_eq_true_eq, UInt64.not_lt] at hpaid
    refine ⟨_, Prod.ext hpaid.1 rfl, ?_⟩
    exact (UInt64.le_iff_toNat_le.1 hpaid.2).trans (toNat_foldl_feeLevel_le _ _)

end Clearing

namespace FeeMetrics

theorem sum_squares (x : Nat) : (∑ n ∈ range (x + 1), n ^ 2) * 6 = x * (x + 1) * (2 * x + 1) := by
  induction x with
  | zero => rfl
  | succ x ih =>
    rw [sum_range_succ, add_mul, ih]
    ring

section Small
variable {x : UInt64} (h : x.toNat < 2 ^ 21)
include h

theorem toNat_mul_self : (x * x).toNat = x.toNat ^ 2 := by
  have hlt : x.toNat * x.toNat < 2 ^ 21 * 2 ^ 21 := Nat.mul_lt_mul_of_lt_of_le h h.le (by decide)
  rw [UInt64.toNat_mul, Nat.mod_eq_of_lt (by omega), pow_two]

theorem sumOfFirstSquares_of_lt : ∃ y, sumOfFirstSquares x = (true, y) ∧
    y.toNat = ∑ n ∈ range (x.toNat + 1), n ^ 2 := by
  have hnot : ¬ x ≥ (1 : UInt64) <<< 21 := fun hge => Nat.not_lt.2 (UInt64.le_iff_toNat_le.1 hge) h
  have h₁ : x.toNat * (x.toNat + 1) < 2 ^ 21 * 2 ^ 21 := Nat.mul_lt_mul_of_lt_of_le h h (by decide)
  have h₂ : x.toNat * (x.toNat + 1) * (2 * x.toNat + 1) < 2 ^ 42 * 2 ^ 22 :=
    Nat.mul_lt_mul_of_lt_of_le h₁ (by omega) (by decide)
  refine ⟨_, if_neg hnot, ?_⟩
  simp only [UInt64.toNat_div, UInt64.toNat_mul, UInt64.toNat_add, UInt64.toNat_ofNat]
  norm_num1
  rw [Nat.mod_eq_of_lt (a := x.toNat + 1) (by omega), Nat.mod_eq_of_lt (a := _ * (x.toNat + 1)) (by omega),
    Nat.mod_eq_of_lt (a := 2 * x.toNat) (by omega), Nat.mod_eq_of_lt (a := 2 * x.toNat + 1) (by omega),
    Nat.mod_eq_of_lt (a := _ * (2 * x.toNat + 1)) (by omega), ← sum_squares, Nat.mul_div_cancel _ (by decide)]

end Small

/-- What the transactions numbered from `current` to before `stop` must pay, exactly. -/
def seriesLevel (s : Snapshot) (current stop : Nat) : Nat :=
  s.escalationMultiplier.toNat * (∑ n ∈ Ico current stop, n ^ 2) / s.txnsExpected.toNat ^ 2

/-- What they pay one by one. -/
def stepwiseLevel (s : Snapshot) (current stop : Nat) : Nat :=
  ∑ n ∈ Ico current stop, (scaleFeeLevel s (.ofNat n)).toNat

section Series
variable {s : Snapshot} {current stop : Nat} (hcurrent : s.txnsExpected.toNat < current) (hstop : current < stop)
theorem target_ne_zero (htarget : 1 ≤ s.txnsExpected) (hlt : s.txnsExpected.toNat < 2 ^ 21) :
    s.txnsExpected * s.txnsExpected ≠ 0 := by
  intro h
  have hsquare := toNat_mul_self (x := s.txnsExpected) (by omega)
  rw [h] at hsquare
  exact absurd hsquare (Nat.pow_pos (UInt64.le_iff_toNat_le.1 htarget)).ne

include hcurrent

theorem scaleFeeLevel_toNat (htarget : 1 ≤ s.txnsExpected) (hn : current < 2 ^ 21)
    (hfits : s.escalationMultiplier.toNat * current ^ 2 / s.txnsExpected.toNat ^ 2 < 2 ^ 64) :
    (scaleFeeLevel s (.ofNat current)).toNat = s.escalationMultiplier.toNat * current ^ 2 /
      s.txnsExpected.toNat ^ 2 := by
  have hnat := UInt64.toNat_ofNat_of_lt' (show current < 2 ^ 64 by omega)
  have hgt : UInt64.ofNat current > s.txnsExpected := by
    rw [gt_iff_lt, UInt64.lt_iff_toNat_lt, hnat]
    exact hcurrent
  unfold scaleFeeLevel
  dsimp only
  rw [if_pos hgt, mulDiv_eq _ _ (target_ne_zero htarget (by omega)), toNat_mul_self (by omega),
    toNat_mul_self (by omega), hnat, if_pos hfits, Option.getD_some]
  exact UInt64.toNat_ofNat_of_lt' hfits

include hstop

theorem stepwiseLevel_bounds (htarget : 1 ≤ s.txnsExpected) (hlast : stop ≤ 2 ^ 21)
    (hfits : seriesLevel s current stop < 2 ^ 64) : stepwiseLevel s current stop ≤ seriesLevel s current stop ∧
      seriesLevel s current stop < stepwiseLevel s current stop + (stop - current) := by
  have hterm : ∀ n ∈ Ico current stop,
      (scaleFeeLevel s (.ofNat n)).toNat = s.escalationMultiplier.toNat * n ^ 2 / s.txnsExpected.toNat ^ 2 := by
    intro n hn
    have hle : n ^ 2 ≤ ∑ n ∈ Ico current stop, n ^ 2 := single_le_sum (f := fun n => n ^ 2)
        (fun _ _ => Nat.zero_le _) hn
    rw [mem_Ico] at hn
    refine scaleFeeLevel_toNat (by omega) htarget (by omega) (lt_of_le_of_lt ?_ hfits)
    exact Nat.div_le_div_right (Nat.mul_le_mul_left _ hle)
  have hbounds := sum_div_bounds (Nat.pow_pos (UInt64.le_iff_toNat_le.1 htarget) : 0 < s.txnsExpected.toNat ^ 2)
    (fun n => s.escalationMultiplier.toNat * n ^ 2) (nonempty_Ico.2 hstop)
  rw [← mul_sum, Nat.card_Ico] at hbounds
  rw [stepwiseLevel, sum_congr rfl hterm]
  exact hbounds

variable {txCount extraCount k : UInt64} (hcount : txCount.toNat + extraCount.toNat = current)
  (hlast : current + k.toNat = stop) (hsize : stop ≤ 2 ^ 64)
include hcount hlast hsize

theorem escalatedSeriesFeeLevel_eq (htarget : 1 ≤ s.txnsExpected) : escalatedSeriesFeeLevel s txCount extraCount k =
    if 2 ^ 21 < stop then (false, some muldivMax)
    else if seriesLevel s current stop < 2 ^ 64 then (true, some (.ofNat (seriesLevel s current stop)))
      else (false, none) := by
  have hadd : (txCount + extraCount).toNat = current := by
    rw [UInt64.toNat_add]
    omega
  have hupto : (txCount + extraCount + k - 1).toNat + 1 = stop := by
    rw [UInt64.toNat_sub, UInt64.toNat_add, hadd]
    change (2 ^ 64 - 1 + _) % 2 ^ 64 + 1 = _
    omega
  have hbefore : (txCount + extraCount - 1).toNat + 1 = current := by
    rw [UInt64.toNat_sub, hadd]
    change (2 ^ 64 - 1 + _) % 2 ^ 64 + 1 = _
    omega
  unfold escalatedSeriesFeeLevel
  dsimp only
  by_cases hbig : 2 ^ 21 < stop
  · have hge : (1 : UInt64) <<< 21 ≤ txCount + extraCount + k - 1 :=
      UInt64.le_iff_toNat_le.2 (show 2 ^ 21 ≤ _ by omega)
    rw [if_pos hbig, sumOfFirstSquares, if_pos hge]
    rfl
  · obtain ⟨y, hy, hsum⟩ := sumOfFirstSquares_of_lt (x := txCount + extraCount + k - 1) (by omega)
    obtain ⟨y₀, hy₀, hsum₀⟩ := sumOfFirstSquares_of_lt (x := txCount + extraCount - 1) (by omega)
    rw [hupto] at hsum
    rw [hbefore] at hsum₀
    have hsplit := sum_range_add_sum_Ico (fun n => n ^ 2) hstop.le
    have hdiff : (y - y₀).toNat = ∑ n ∈ Ico current stop, n ^ 2 := by
      rw [UInt64.toNat_sub_of_le _ _ (UInt64.le_iff_toNat_le.2 (by omega))]
      omega
    rw [if_neg hbig, hy, hy₀]
    dsimp only
    rw [Bool.not_true, if_neg Bool.false_ne_true, mulDiv_eq _ _ (target_ne_zero htarget (by omega)),
      toNat_mul_self (by omega), hdiff]
    unfold seriesLevel
    split_ifs <;> rfl

/-- The level of a series is missing exactly from 2^21 transactions on, and where it does not fit. Otherwise it is
exact, and a transaction that clears the queue with it pays no less than the series would, one by one. The code reads
an empty result where the level does not fit, and only there. -/
theorem escalatedSeriesFeeLevel_exact (htarget : 1 ≤ s.txnsExpected) {answer : Bool × Option FeeLevel64}
    (hanswer : escalatedSeriesFeeLevel s txCount extraCount k = answer) :
    (answer.1 = false ↔ 2 ^ 21 < stop ∨ 2 ^ 64 ≤ seriesLevel s current stop) ∧
    (answer.2 = none ↔ stop ≤ 2 ^ 21 ∧ 2 ^ 64 ≤ seriesLevel s current stop) ∧
    (answer.1 = true → (∃ level, answer.2 = some level ∧ level.toNat = seriesLevel s current stop) ∧
      stepwiseLevel s current stop ≤ seriesLevel s current stop ∧
      seriesLevel s current stop < stepwiseLevel s current stop + k.toNat) ∧
    ∀ {AccountID Rules View : Type} [LinearOrder AccountID] [DecidableEq Rules] (a : Attempt AccountID Rules View)
      (q q' : TxQ AccountID Rules) (env : Env AccountID Rules View) (r : ApplyResult) (view : View),
      a.snapshot = s → env.txCount (env.sandbox a.view) = txCount → env.txCount a.view = extraCount →
      k = .ofNat a.series.length + 1 → a.clearAccountQueueUpThruTx q env = .ok (r, view, q') → r.applied = true →
      stepwiseLevel s current stop ≤ a.feeLevelPaid.toNat + (a.series.map (·.feeLevel.toNat)).sum := by
  have hbounds := stepwiseLevel_bounds hcurrent hstop htarget
  rw [show stop - current = k.toNat by omega] at hbounds
  have heq := escalatedSeriesFeeLevel_eq hcurrent hstop hcount hlast hsize htarget
  rw [hanswer] at heq
  refine ⟨?_, ?_, fun hfirst => ?_, ?_⟩
  · split_ifs at heq with hbig hfits <;> subst heq
    · exact iff_of_true rfl (.inl hbig)
    · exact iff_of_false Bool.noConfusion (by omega)
    · exact iff_of_true rfl (.inr (Nat.not_lt.1 hfits))
  · split_ifs at heq with hbig hfits <;> subst heq
    · exact iff_of_false (Option.some_ne_none _) (by omega)
    · exact iff_of_false (Option.some_ne_none _) (by omega)
    · exact iff_of_true rfl ⟨Nat.not_lt.1 hbig, Nat.not_lt.1 hfits⟩
  · split_ifs at heq with hbig hfits <;> subst heq
    · cases hfirst
    · exact ⟨⟨_, rfl, UInt64.toNat_ofNat_of_lt' hfits⟩, hbounds (Nat.not_lt.1 hbig) hfits⟩
    · cases hfirst
  · rintro AccountID Rules View _ _ a q q' env r view rfl rfl rfl rfl hrun happlied
    obtain ⟨level, hlevel, hpaid⟩ := a.paid_of_cleared hrun happlied
    rw [← hanswer, hlevel] at heq
    split_ifs at heq with hbig hfits <;> cases heq
    rw [Option.getD_some, UInt64.toNat_ofNat_of_lt' hfits] at hpaid
    exact (hbounds (Nat.not_lt.1 hbig) hfits).1.trans hpaid

end Series

/-- Three transactions in a ledger that expects two and has three. -/
theorem escalatedSeriesFeeLevel_exact_three : (escalatedSeriesFeeLevel ⟨2, 128000⟩ 0 3 3).1 = true ∧
    stepwiseLevel ⟨2, 128000⟩ 3 6 ≤ seriesLevel ⟨2, 128000⟩ 3 6 := by
  have h := escalatedSeriesFeeLevel_exact (s := ⟨2, 128000⟩) (by decide) (by decide : 3 < 6)
    (rfl : (0 : UInt64).toNat + (3 : UInt64).toNat = 3) (rfl : 3 + (3 : UInt64).toNat = 6) (by decide) (by decide) rfl
  exact ⟨by decide, (h.2.2.1 (by decide)).2.1⟩

/-- The sum does not fit, and the result of `mulDiv` is read though it is empty. -/
theorem escalatedSeriesFeeLevel_reads_empty : escalatedSeriesFeeLevel ⟨1, 0x8000000000000000⟩ 0 2 1 =
    (false, none) := by
  decide

end FeeMetrics

end Rippled.TxQueue
