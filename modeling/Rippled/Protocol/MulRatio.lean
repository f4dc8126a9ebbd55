import Mathlib.Data.Int.Log
import Rippled.Protocol.IOURounding
/-!
# `mulRatio`

An amount times a ratio of two 32-bit numbers, rounded up or down. XRP and MPT amounts are rounded at the unit. For an
issued amount the quotient is scaled to some eighteen digits (`scaleRatio`), and the constructor of `IOUAmount` rounds
that to sixteen in the mode of the thread, which need not be the direction asked for. Whether the result is right
depends on the first eighteen digits of the exact value, and on whether there are more (`RoundsRight`).
-/

namespace Rippled.Protocol

open Lib Basics Basics.Number Basics.Guard IOUAmount

/-! ## Whole amounts -/

/-- `mulRatio` of an amount that is an `int64`. The conversion to `int64` at the end stops at the least one. -/
def mulRatioInt64 (overflow : String) (amt : Int) (num den : Nat) (roundUp : Bool) : Run String Int :=
  if den = 0 then Run.throw "division by zero"
  else
    let neg := decide (amt < 0)
    let m := amt * num
    let r := m.tdiv den
    let r :=
      if m.tmod den ≠ 0 then
        let r := if !neg && roundUp then r + 1 else r
        if neg && !roundUp then r - 1 else r
      else r
    if r > kMaxRep then Run.throw overflow else .ok (max (-2 ^ 63) r)

def XRPAmount.mulRatio := mulRatioInt64 "XRP mulRatio overflow"

def MPTAmount.mulRatio := mulRatioInt64 "MPT mulRatio overflow"

variable {num den : Nat} {roundUp : Bool}

/-- The result is the exact ceiling or floor, or the least `int64` if that is greater. -/
theorem mulRatioInt64_eq {overflow : String} {amt r : Int} (hden : 0 < den)
    (h : mulRatioInt64 overflow amt num den roundUp = .ok r) :
    r = max (-2 ^ 63) (if roundUp then ⌈(amt * num / den : ℚ)⌉ else ⌊(amt * num / den : ℚ)⌋) := by
  have hd : (0 : Int) < den := by omega
  have hfloor : ⌊(amt * num / den : ℚ)⌋ = amt * num / den :=
      by exact_mod_cast Rat.floor_intCast_div_natCast (amt * num) den
  have hceil : ⌈(amt * num / den : ℚ)⌉ = -(-(amt * num) / den) := by
    exact_mod_cast Rat.ceil_intCast_div_natCast (amt * num) den
  -- the sign of the product is the sign of the amount, unless there is no remainder
  have hsign : ¬ (den : Int) ∣ amt * num → (0 ≤ amt * num ↔ ¬ amt < 0) := by
    intro hdvd
    have hn : (0 : Int) < num := by
      by_contra hn
      exact hdvd (by rw [show (num : Int) = 0 by omega, mul_zero]; exact dvd_zero _)
    rw [mul_nonneg_iff_of_pos_right hn, not_lt]
  unfold mulRatioInt64 at h
  rw [if_neg (by omega)] at h
  rw [hfloor, hceil, Int.neg_ediv]
  simp only [ne_eq, ← Int.dvd_iff_tmod_eq_zero, Int.tdiv_eq_ediv, Int.sign_eq_one_of_pos hd] at h ⊢
  generalize amt * (num : Int) = m at *
  by_cases hdvd : (den : Int) ∣ m
  · simp only [hdvd, not_true_eq_false, if_false, or_true, if_true] at h ⊢
    split_ifs at h ⊢ <;> cases h <;> omega
  · simp only [hdvd, not_false_eq_true, if_true, or_false, hsign hdvd] at h
    by_cases hs : amt < 0 <;> cases roundUp <;> simp [hs, hdvd] at h ⊢ <;> split_ifs at h <;> cases h <;> omega

/-- Exactly if the ceiling or floor is not below the `int64`s, the result is right. -/
theorem mulRatioInt64_iff {overflow : String} {amt r : Int} (hden : 0 < den)
    (h : mulRatioInt64 overflow amt num den roundUp = .ok r) :
    (r = if roundUp then ⌈(amt * num / den : ℚ)⌉ else ⌊(amt * num / den : ℚ)⌋) ↔
      if roundUp then (-2 ^ 63 - 1) * den < amt * num else -2 ^ 63 * den ≤ amt * num := by
  have hd : (0 : ℚ) < den := by exact_mod_cast hden
  rw [mulRatioInt64_eq hden h, max_eq_right_iff]
  cases roundUp with
  | false =>
    rw [if_neg Bool.false_ne_true, if_neg Bool.false_ne_true, Int.le_floor, le_div_iff₀ hd]
    exact_mod_cast Iff.rfl
  | true =>
    rw [if_pos rfl, if_pos rfl, ← Int.sub_one_lt_iff, Int.lt_ceil, lt_div_iff₀ hd]
    exact_mod_cast Iff.rfl

/-! ## Issued amounts -/

namespace IOUAmount

def val (a : IOUAmount) : ℚ := a.mantissa * 10 ^ a.exponent

/-- The index of the first of the powers `10 ^ 0` to `10 ^ 29` that is not below `v`. -/
def kLoG10Ceil (v : Nat) : Nat := (List.range 30).findIdx fun i => decide (v ≤ 10 ^ i)

def kLoG10Floor (v : Nat) : Nat := if 10 ^ kLoG10Ceil v = v then kLoG10Ceil v else kLoG10Ceil v - 1

def kFl64 : Nat := kLoG10Floor kMaxRep

/-- A quotient, what the division left, and the exponent of both. -/
structure Ratio where
  low : Nat
  rem : Nat
  exponent : Int

/-- Scales a quotient with a remainder up to the digits that an `int64` has room for, by one if there is none. -/
def Ratio.grow (den : Nat) (s : Ratio) : Ratio :=
  if s.rem ≠ 0 then
    let roomToGrow := kFl64 - kLoG10Ceil s.low
    let rem := s.rem * 10 ^ roomToGrow
    let addRem := rem / den
    ⟨s.low * 10 ^ roomToGrow + addRem, rem - addRem * den, s.exponent - roomToGrow⟩
  else s

/-- A quotient that fits an `int64`, and whether anything below it was lost. -/
structure Scaled where
  low : Nat
  hasRem : Bool
  exponent : Int
  deriving DecidableEq

/-- Scales a quotient down to an `int64`, by one if it fits. -/
def Ratio.shrink (s : Ratio) : Scaled :=
  let mustShrink := kLoG10Ceil s.low - kFl64
  let low := s.low / 10 ^ mustShrink
  ⟨low, decide (s.rem ≠ 0) || decide (s.low - low * 10 ^ mustShrink ≠ 0), s.exponent + mustShrink⟩

/-- The part of `mulRatio` before the rounding, on the magnitude. -/
def scaleRatio (amt : IOUAmount) (num den : Nat) : Scaled :=
  let mul := amt.mantissa.natAbs * num
  let low := mul / den
  (Ratio.grow den ⟨low, mul - low * den, amt.exponent⟩).shrink

def mulRatio (range : MantissaRange) (mode : RoundingMode) (amt : IOUAmount) (num den : Nat) (roundUp : Bool) :
    Run String IOUAmount :=
  if den = 0 then Run.throw "division by zero"
  else do
    let neg := decide (amt.mantissa < 0)
    let s := scaleRatio amt num den
    let result ← make range mode (if neg then -s.low else s.low) s.exponent
    if s.hasRem && roundUp && !neg then
      if result.mantissa = 0 then make range mode kMinMantissa kMinExponent
      else make range mode (result.mantissa + 1) result.exponent
    else if s.hasRem && !roundUp && neg then
      if result.mantissa = 0 then make range mode (-kMinMantissa) kMinExponent
      else make range mode (result.mantissa - 1) result.exponent
    else .ok result

theorem kLoG10Ceil_bounds {v : Nat} (h0 : 0 < v) (h : v ≤ 10 ^ 29) :
    v ≤ 10 ^ kLoG10Ceil v ∧ 10 ^ kLoG10Ceil v ≤ 10 * v ∧ kLoG10Ceil v < 30 := by
  unfold kLoG10Ceil
  have hlt : ((List.range 30).findIdx fun i => decide (v ≤ 10 ^ i)) < (List.range 30).length :=
    List.findIdx_lt_length_of_exists ⟨29, by decide, by simpa using h⟩
  refine ⟨?_, ?_, by simpa using hlt⟩
  · have hat := List.findIdx_getElem (w := hlt)
    rwa [List.getElem_range, decide_eq_true_eq] at hat
  · rcases hc : (List.range 30).findIdx fun i => decide (v ≤ 10 ^ i) with - | j
    · omega
    · have hj : j < (List.range 30).findIdx fun i => decide (v ≤ 10 ^ i) := by omega
      have hbelow := List.not_of_lt_findIdx hj
      rw [List.getElem_range, decide_eq_false_iff_not] at hbelow
      rw [pow_succ]
      omega

/-- `low` units of `10 ^ e` and the fraction `f` of one are `X`. With a fraction there are eighteen digits before it. -/
structure Quotient (low : Nat) (f : ℚ) (e : Int) (X : ℚ) : Prop where
  pos : 0 < low
  le : low ≤ 10 ^ 29
  nonneg : 0 ≤ f
  lt_one : f < 1
  value : (low + f) * 10 ^ e = X
  big : f ≠ 0 → 10 ^ 17 ≤ low

variable {s : Ratio} {f X : ℚ}

theorem kFl64_eq : kFl64 = 18 := by decide

theorem cast_div_add (n : Nat) {d : Nat} (hd : 0 < d) : ((n / d : Nat) : ℚ) + (n % d : Nat) / d = n / d := by
  have hd' : (d : ℚ) ≠ 0 := by positivity
  rw [eq_div_iff hd', add_mul, div_mul_cancel₀ _ hd']
  exact_mod_cast Nat.div_add_mod' n d

theorem Ratio.grow_quotient (hden : 0 < den) (h0 : 0 < s.low) (hlow : s.low ≤ 10 ^ 29) (hrem : s.rem < den) :
    Quotient (s.grow den).low ((s.grow den).rem / den) (s.grow den).exponent ((s.low + s.rem / den) * 10 ^ s.exponent) ∧
      s.exponent - 18 ≤ (s.grow den).exponent ∧ (s.grow den).exponent ≤ s.exponent := by
  have hd : (0 : ℚ) < den := by exact_mod_cast hden
  have hlt : ∀ n : Nat, n < den → (n : ℚ) / den < 1 := fun n h => (div_lt_one hd).2 (by exact_mod_cast h)
  by_cases hr : s.rem = 0
  · rw [show s.grow den = s from if_neg (not_not.2 hr)]
    exact ⟨⟨h0, hlow, by positivity, hlt _ hrem, rfl, fun h => absurd (by simp [hr]) h⟩, by omega, le_rfl⟩
  obtain ⟨hc1, hc2, -⟩ := kLoG10Ceil_bounds h0 hlow
  unfold grow
  rw [if_pos hr, kFl64_eq]
  dsimp only
  generalize hk : 18 - kLoG10Ceil s.low = k
  have hpow : 0 < 10 ^ k := Nat.pow_pos (by decide)
  have hadd : s.rem * 10 ^ k / den < 10 ^ k := (Nat.div_lt_iff_lt_mul hden).2 (by nlinarith)
  rw [← Nat.mod_eq_sub_div_mul]
  refine ⟨⟨by positivity, ?_, by positivity, hlt _ (Nat.mod_lt _ hden), ?_, fun _ => ?_⟩, by omega, by omega⟩
  · have hlow10 : s.low * 10 ^ k ≤ 10 ^ kLoG10Ceil s.low * 10 ^ k := Nat.mul_le_mul_right _ hc1
    rw [← pow_add] at hlow10
    rcases Nat.eq_zero_or_pos k with rfl | hpos
    · rw [pow_zero] at hadd ⊢
      omega
    · have hk' : 10 ^ k ≤ 10 ^ 18 := Nat.pow_le_pow_right (by decide) (by omega)
      rw [show kLoG10Ceil s.low + k = 18 by omega] at hlow10
      omega
  · push_cast
    rw [add_assoc, cast_div_add _ hden, zpow_sub₀ (by norm_num), zpow_natCast]
    push_cast
    field_simp
  · have h18 : 10 ^ 18 ≤ 10 ^ (kLoG10Ceil s.low + k) := Nat.pow_le_pow_right (by decide) (by omega)
    have hlow10 : 10 ^ kLoG10Ceil s.low * 10 ^ k ≤ 10 * s.low * 10 ^ k := Nat.mul_le_mul_right _ hc2
    rw [← pow_add, mul_assoc] at hlow10
    exact le_trans (by omega) (Nat.le_add_right _ _)

theorem Ratio.shrink_quotient (h : Quotient s.low f s.exponent X) (hrem : s.rem ≠ 0 ↔ f ≠ 0) :
    ∃ f', Quotient s.shrink.low f' s.shrink.exponent X ∧ (s.shrink.hasRem = true ↔ f' ≠ 0) ∧ s.shrink.low ≤ 10 ^ 18 ∧
      s.exponent ≤ s.shrink.exponent ∧ s.shrink.exponent ≤ s.exponent + 12 := by
  obtain ⟨hc1, hc2, hc3⟩ := kLoG10Ceil_bounds h.pos h.le
  unfold shrink
  rw [kFl64_eq]
  dsimp only
  generalize hj : kLoG10Ceil s.low - 18 = j
  have hpow : 0 < 10 ^ j := Nat.pow_pos (by decide)
  have hpow' : (0 : ℚ) < 10 ^ j := by positivity
  have hf0 := h.nonneg
  have hmod : ((s.low % 10 ^ j : Nat) : ℚ) + 1 ≤ 10 ^ j := by exact_mod_cast Nat.mod_lt s.low hpow
  have hz : ((s.low % 10 ^ j : Nat) + f) / 10 ^ j = 0 ↔ s.low % 10 ^ j = 0 ∧ f = 0 := by
    rw [div_eq_zero_iff, or_iff_left hpow'.ne', add_eq_zero_iff_of_nonneg (Nat.cast_nonneg _) hf0, Nat.cast_eq_zero]
  have hle : s.low / 10 ^ j ≤ 10 ^ 18 := by
    refine Nat.div_le_of_le_mul (hc1.trans ?_)
    rw [← pow_add]
    exact Nat.pow_le_pow_right (by decide) (by omega)
  have hbig : j ≠ 0 → 10 ^ 17 ≤ s.low / 10 ^ j := by
    intro h0
    rw [show kLoG10Ceil s.low = 17 + j + 1 by omega, pow_succ, pow_add] at hc2
    exact (Nat.le_div_iff_mul_le hpow).2 (by omega)
  rw [← Nat.mod_eq_sub_div_mul]
  refine ⟨((s.low % 10 ^ j : Nat) + f) / 10 ^ j, ⟨?_, by omega, by positivity,
    (div_lt_one hpow').2 (by linarith [h.lt_one]), ?_, fun hne => ?_⟩, ?_, hle, by omega, by omega⟩
  · rcases Nat.eq_zero_or_pos j with rfl | hpos
    · simpa using h.pos
    · have := hbig hpos.ne'
      omega
  · rw [← h.value, zpow_add₀ (by norm_num), zpow_natCast]
    have hdm : (s.low : ℚ) = (s.low / 10 ^ j : Nat) * 10 ^ j + (s.low % 10 ^ j : Nat) := by
      exact_mod_cast (Nat.div_add_mod' s.low (10 ^ j)).symm
    generalize ((s.low / 10 ^ j : Nat) : ℚ) = q at hdm ⊢
    generalize ((s.low % 10 ^ j : Nat) : ℚ) = r at hdm ⊢
    rw [hdm]
    field_simp
    ring
  · rcases Nat.eq_zero_or_pos j with rfl | hpos
    · rw [ne_eq, hz] at hne
      simpa using h.big fun h => hne ⟨by simp [Nat.mod_one], h⟩
    · exact hbig hpos.ne'
  · rw [Bool.or_eq_true, decide_eq_true_eq, decide_eq_true_eq, hrem, ne_eq, ne_eq, ne_eq, hz, not_and_or, or_comm]

variable {amt r : IOUAmount} {m : Nat} {e E : Int} {neg : Bool}

theorem scaleRatio_quotient (h15 : 10 ^ 15 ≤ amt.mantissa.natAbs) (h16 : amt.mantissa.natAbs < 10 ^ 16) (hnum : 0 < num)
    (hnum' : num < 2 ^ 32) (hden : 0 < den) (hden' : den < 2 ^ 32) {t : Scaled} (ht : scaleRatio amt num den = t) :
    ∃ f, Quotient t.low f t.exponent (amt.mantissa.natAbs * num / den * 10 ^ amt.exponent) ∧ (t.hasRem = true ↔ f ≠ 0) ∧
      t.low ≤ 10 ^ 18 ∧ amt.exponent - 18 ≤ t.exponent ∧ t.exponent ≤ amt.exponent + 12 := by
  have hmul : 10 ^ 15 ≤ amt.mantissa.natAbs * num ∧ amt.mantissa.natAbs * num ≤ 10 ^ 16 * 2 ^ 32 :=
    ⟨h15.trans (Nat.le_mul_of_pos_right _ hnum), Nat.mul_le_mul h16.le hnum'.le⟩
  have hcast : ((amt.mantissa.natAbs * num : Nat) : ℚ) = amt.mantissa.natAbs * num := by push_cast; rfl
  unfold scaleRatio at ht
  dsimp only at ht
  rw [← hcast]
  rw [← Nat.mod_eq_sub_div_mul] at ht
  generalize amt.mantissa.natAbs * num = mul at *
  obtain ⟨hq, he1, he2⟩ := Ratio.grow_quotient (s := ⟨mul / den, mul % den, amt.exponent⟩) hden
      (Nat.div_pos (by omega) hden)
    ((Nat.div_le_self _ _).trans (by omega)) (Nat.mod_lt _ hden)
  generalize Ratio.grow den ⟨mul / den, mul % den, amt.exponent⟩ = u at *
  rw [cast_div_add _ hden] at hq
  obtain ⟨f, hf, hrem, hlow, he1', he2'⟩ := Ratio.shrink_quotient hq (by simp [hden.ne'])
  rw [ht] at hf hrem hlow he1' he2'
  exact ⟨f, hf, hrem, hlow, by dsimp only at he1; omega, by dsimp only at he2; omega⟩

theorem ofDigits_eq_ok (h : ofDigits neg m e = .ok r) : e ≤ kMaxExponent ∧
    ((e < kMinExponent ∧ r = zero) ∨ (kMinExponent ≤ e ∧ r = ⟨if neg then -m else m, e⟩)) := by
  unfold ofDigits at h
  by_cases h1 : e > kMaxExponent
  · rw [if_pos h1] at h
    cases h
  · rw [if_neg h1, ← apply_ite Except.ok] at h
    cases h
    refine ⟨not_lt.1 h1, ?_⟩
    by_cases h2 : e < kMinExponent
    · exact .inl ⟨h2, if_pos h2⟩
    · exact .inr ⟨not_lt.1 h2, if_neg h2⟩

theorem val_signed : val ⟨if neg then -(m : Int) else m, e⟩ = (if neg then -1 else 1) * (m * 10 ^ e) := by
  unfold val
  cases neg <;> simp

/-- A mantissa that may be one too large is taken over, in the next decade if it is. -/
theorem make_carry (scale : MantissaScale) (mode : RoundingMode) (h15 : 10 ^ 15 ≤ m) (h16 : m ≤ 10 ^ 16)
    (hlow : kMinExponent ≤ e) (hhigh : e ≤ kMaxExponent)
    (h : make (mantissaRange scale) mode (if neg then -(m : Int) else m) e = .ok r) :
    r.val = (if neg then -1 else 1) * (m * 10 ^ e) ∧ r.exponent = if m = 10 ^ 16 then e + 1 else e := by
  have hrep := kMaxRep_eq
  have hlow' : -96 ≤ e := hlow
  have hhigh' : e ≤ 80 := hhigh
  obtain ⟨n, E, hr, hmake⟩ := make_rounds scale mode neg (m := m) (e := e) (by omega) (by omega) (by omega) (by omega)
  rw [h] at hmake
  obtain ⟨hval, hE⟩ : (n : ℚ) * 10 ^ E = m * 10 ^ e ∧ E = if m = 10 ^ 16 then e + 1 else e := by
    rcases h16.lt_or_eq with hlt | rfl
    · obtain ⟨rfl, rfl⟩ := hr.eq_of_digits h15 hlt
      exact ⟨rfl, (if_neg hlt.ne).symm⟩
    · have hten : ((10 ^ 16 : Nat) : ℚ) * 10 ^ e = (10 ^ 15 : Nat) * 10 ^ (e + 1) := by
        rw [zpow_add_one₀ (by norm_num)]; push_cast; ring
      rw [hten] at hr ⊢
      obtain ⟨rfl, rfl⟩ := hr.eq_of_digits le_rfl (by decide)
      exact ⟨rfl, (if_pos rfl).symm⟩
  obtain ⟨-, ⟨hlt, -⟩ | ⟨-, rfl⟩⟩ := ofDigits_eq_ok hmake.symm
  · split at hE <;> omega
  · exact ⟨by rw [val_signed, hval], hE⟩

/-! ### The digits of the exact value -/

/-- The first eighteen digits of a magnitude that has sixteen before the point. -/
def firstDigits (b : ℚ) : Nat := ⌊100 * b⌋₊

/-- The digits after the sixteenth are rounded away from zero. -/
def DigitsRoundUp (d : Toward) (b : ℚ) : Prop := RoundsAway d ((firstDigits b % 100 : Nat) / 100)
    (firstDigits b / 100 % 2 = 1)

/-- When `mulRatio` rounds a magnitude `b * 10 ^ E` as asked for. Toward zero, the digits are not to be rounded up.
Away from zero, without more than eighteen digits they are zero or rounded up. With more of them a unit is added
afterwards, so they are not to be rounded up, unless the unit becomes ten times as large. What is too small for an
amount becomes the least one, which has to be within a unit of it. -/
def RoundsRight (d : Toward) (away : Bool) (b : ℚ) (E : Int) : Prop :=
  match away, decide ((firstDigits b : ℚ) = 100 * b) with
  | false, _ => ¬ DigitsRoundUp d b
  | true, true => firstDigits b % 100 = 0 ∨ DigitsRoundUp d b
  | true, false => (kMinExponent ≤ E ∧ (¬ DigitsRoundUp d b ∨ firstDigits b / 100 = 10 ^ 16 - 2)) ∨
      (E = kMinExponent - 1 ∧ 10 ^ 16 - 10 ≤ firstDigits b / 100 ∧
        ¬ (DigitsRoundUp d b ∧ firstDigits b / 100 = 10 ^ 16 - 1))

variable {b : ℚ} {d : Toward}

theorem firstDigits_eq {K : Nat} {g : ℚ} (h : 100 * b = K + g) (h0 : 0 ≤ g) (h1 : g < 1) : firstDigits b = K :=
  (Nat.floor_eq_iff (by rw [h]; positivity)).2 ⟨by linarith, by linarith⟩

/-- The scaled quotient is the first eighteen digits, and there is a remainder if there are more. -/
theorem Quotient.leading {low : Nat} (h : Quotient low f e X) (hlow : low ≤ 10 ^ 18) (hdec : Decade X b E) :
    (low : ℚ) * 10 ^ e = firstDigits b / 100 * 10 ^ E ∧ (f = 0 ↔ (firstDigits b : ℚ) = 100 * b) := by
  have hf0 := h.nonneg
  have hf1 := h.lt_one
  have h17 : (10 : ℚ) ^ 17 ≤ 100 * b := by linarith [hdec.min]
  have h18 : 100 * b < (10 : ℚ) ^ 18 := by linarith [hdec.lt]
  have hlowq : (low : ℚ) ≤ 10 ^ 18 := by exact_mod_cast hlow
  have hv : (low + f) * 10 ^ e = 100 * b * 10 ^ (E - 2) := by
    rw [h.value, hdec.value, zpow_sub₀ (by norm_num)]
    norm_num
    ring
  have hE : ∀ K : ℚ, K / 100 * 10 ^ E = K * 10 ^ (E - 2) := by
    intro K
    rw [zpow_sub₀ (by norm_num)]
    norm_num
    ring
  rw [hE]
  have hp : (0 : ℚ) < 10 ^ (E - 2) := by positivity
  suffices hK : ∃ (K : Nat) (g : ℚ), 100 * b = K + g ∧ 0 ≤ g ∧ g < 1 ∧
      (low : ℚ) * 10 ^ e = K * 10 ^ (E - 2) ∧ (f = 0 ↔ g = 0) by
    obtain ⟨K, g, hb, hg0, hg1, hval, hiff⟩ := hK
    rw [firstDigits_eq hb hg0 hg1, hb, hiff]
    exact ⟨hval, ⟨fun h => by rw [h, add_zero], fun h => by linarith⟩⟩
  rcases le_or_gt (E - 2) e with hle | hgt
  · obtain ⟨j, rfl⟩ : ∃ j : Nat, e = E - 2 + j := ⟨(e - (E - 2)).toNat, by omega⟩
    rw [zpow_add₀ (by norm_num), zpow_natCast, mul_comm ((10 : ℚ) ^ (E - 2)), ← mul_assoc] at hv ⊢
    have hb := mul_right_cancel₀ hp.ne' hv
    by_cases hf : f = 0
    · refine ⟨low * 10 ^ j, 0, ?_, le_rfl, one_pos, by push_cast; ring, iff_of_true hf rfl⟩
      rw [← hb, hf]
      push_cast
      ring
    · -- there is no room for another digit
      have hbig : (10 : ℚ) ^ 17 ≤ low := by exact_mod_cast h.big hf
      obtain rfl : j = 0 := by
        by_contra hj
        have h10 : (10 : ℚ) ≤ 10 ^ j := le_self_pow₀ (by norm_num) hj
        nlinarith
      rw [pow_zero, mul_one] at hb ⊢
      exact ⟨low, f, hb.symm, hf0, hf1, rfl, Iff.rfl⟩
  · obtain ⟨j, hj⟩ : ∃ j : Nat, E - 2 = e + 1 + j := ⟨(E - 2 - e - 1).toNat, by omega⟩
    have hpe : (0 : ℚ) < 10 ^ e := by positivity
    have hsplit : (10 : ℚ) ^ (E - 2) = 10 * 10 ^ j * 10 ^ e := by
      rw [hj, zpow_add₀ (by norm_num), zpow_add₀ (by norm_num), zpow_natCast, zpow_one]
      ring
    rw [hsplit] at hv ⊢
    rw [← mul_assoc] at hv
    have hb := mul_right_cancel₀ hpe.ne' hv
    -- the quotient is the least with nineteen digits
    obtain rfl : j = 0 := by
      by_contra hj
      have h10 : (10 : ℚ) ≤ 10 ^ j := le_self_pow₀ (by norm_num) hj
      nlinarith
    obtain rfl : low = 10 ^ 18 := by
      refine le_antisymm hlow ?_
      have : (10 : ℚ) ^ 18 < low + 1 := by linarith
      exact Nat.lt_succ_iff.1 (by exact_mod_cast this)
    refine ⟨10 ^ 17, f / 10, ?_, by positivity, by linarith, ?_, by simp⟩
    · push_cast at hb ⊢
      linarith
    · push_cast
      ring

theorem exists_decade (hX : 0 < X) : ∃ b E, Decade X b E := by
  have hlow := Int.zpow_log_le_self (b := 10) (by decide) hX
  have hhigh := Int.lt_zpow_succ_log_self (b := 10) (by decide) X
  generalize Int.log 10 X = k at hlow hhigh
  push_cast at hlow hhigh
  have hp : (0 : ℚ) < 10 ^ (k - 15) := by positivity
  refine ⟨X / 10 ^ (k - 15), k - 15, (div_mul_cancel₀ X hp.ne').symm, (le_div_iff₀ hp).2 ?_, (div_lt_iff₀ hp).2 ?_⟩
  · rw [← zpow_natCast, ← zpow_add₀ (by norm_num)]
    simpa using hlow
  · rw [← zpow_natCast, ← zpow_add₀ (by norm_num)]
    simpa [show (16 : Int) + (k - 15) = k + 1 by ring] using hhigh

/-- What the digits say about where the magnitude lies. -/
theorem firstDigits_bounds (h15 : 10 ^ 15 ≤ b) (h16 : b < 10 ^ 16) :
    10 ^ 15 ≤ firstDigits b / 100 ∧ firstDigits b / 100 < 10 ^ 16 ∧
    ((firstDigits b / 100 : Nat) : ℚ) + (firstDigits b % 100 : Nat) / 100 ≤ b ∧
      b < (firstDigits b / 100 : Nat) + 1 := by
  have hle : (firstDigits b : ℚ) ≤ 100 * b := Nat.floor_le (by linarith)
  have hlt : 100 * b < firstDigits b + 1 := Nat.lt_floor_add_one _
  have h17 : 10 ^ 17 ≤ firstDigits b := Nat.le_floor (by push_cast; linarith)
  have h18 : firstDigits b < 10 ^ 18 := (Nat.floor_lt (by linarith)).2 (by push_cast; linarith)
  have hsum := cast_div_add (firstDigits b) (d := 100) (by decide)
  have hnext : (firstDigits b : ℚ) + 1 ≤ ((firstDigits b / 100 : Nat) + 1) * 100 := by
    exact_mod_cast (show firstDigits b + 1 ≤ (firstDigits b / 100 + 1) * 100 by omega)
  push_cast at hsum
  exact ⟨by omega, by omega, by linarith, by linarith⟩

theorem decade_firstDigits (h : Decade X b E) : Decade (firstDigits b / 100 * 10 ^ E) (firstDigits b / 100) E := by
  obtain ⟨h15, h16, -, -⟩ := firstDigits_bounds h.min h.lt
  have h17 : (10 ^ 17 : ℚ) ≤ firstDigits b := by exact_mod_cast (show 10 ^ 17 ≤ firstDigits b by omega)
  have h18 : (firstDigits b : ℚ) < 10 ^ 18 := by exact_mod_cast (show firstDigits b < 10 ^ 18 by omega)
  exact ⟨rfl, by linarith, by linarith⟩

/-- What eighteen digits are rounded to. -/
theorem roundsTo_digits {K n : Nat} (h : RoundsTo d (K / 100) n) :
    (RoundsAway d ((K % 100 : Nat) / 100) (K / 100 % 2 = 1) ∧ n = K / 100 + 1) ∨
      (¬ RoundsAway d ((K % 100 : Nat) / 100) (K / 100 % 2 = 1) ∧ n = K / 100) := by
  obtain ⟨m, f, h0, h1, heq, h⟩ := h
  have hsum := cast_div_add K (d := 100) (by decide)
  have hlt : ((K % 100 : Nat) : ℚ) / 100 < 1 := (div_lt_one (by norm_num)).2
      (by exact_mod_cast Nat.mod_lt K (by decide))
  have hpos : (0 : ℚ) ≤ ((K % 100 : Nat) : ℚ) / 100 := by positivity
  push_cast at hsum
  have hlow : (m : ℚ) < (K / 100 : Nat) + 1 := by linarith
  have hhigh : ((K / 100 : Nat) : ℚ) < m + 1 := by linarith
  obtain rfl : m = K / 100 := by
    have h1 : m < K / 100 + 1 := by exact_mod_cast hlow
    have h2 : K / 100 < m + 1 := by exact_mod_cast hhigh
    omega
  obtain rfl : f = ((K % 100 : Nat) : ℚ) / 100 := by linarith
  exact h

/-- In units of `10 ^ E`: a result `ρ` whose last place is worth `u` is on the side asked for, and within that of `b`.
-/
def Within (away : Bool) (b ρ u : ℚ) : Prop := (if away then b ≤ ρ else ρ ≤ b) ∧ |ρ - b| < u

section
variable (h15 : 10 ^ 15 ≤ b) (h16 : b < 10 ^ 16) {n : Nat}
  (hn : (DigitsRoundUp d b ∧ n = firstDigits b / 100 + 1) ∨ (¬ DigitsRoundUp d b ∧ n = firstDigits b / 100))
include h15 h16 hn

/-- The digits are rounded and nothing is added. -/
theorem rounded_right {away : Bool} (hexact : away = true → (firstDigits b : ℚ) = 100 * b)
    {u : ℚ} (hu : 1 ≤ u) (E : Int) : Within away b n u ↔ RoundsRight d away b E := by
  obtain ⟨-, -, hlow, hhigh⟩ := firstDigits_bounds h15 h16
  have hf : (0 : ℚ) ≤ (firstDigits b % 100 : Nat) / 100 := by positivity
  cases away with
  | false =>
    rcases hn with ⟨hup, rfl⟩ | ⟨hup, rfl⟩
    · refine iff_of_false (fun h => ?_) (not_not.2 hup)
      have hle := h.1
      rw [if_neg Bool.false_ne_true] at hle
      push_cast at hle
      linarith
    · exact iff_of_true ⟨by rw [if_neg Bool.false_ne_true]; linarith, abs_lt.2 ⟨by linarith, by linarith⟩⟩ hup
  | true =>
    have heq := hexact rfl
    have hsum := cast_div_add (firstDigits b) (d := 100) (by decide)
    rw [heq] at hsum
    push_cast at hsum
    simp only [RoundsRight, heq, decide_true]
    rcases hn with ⟨hup, rfl⟩ | ⟨hup, rfl⟩
    · have hne : ((firstDigits b % 100 : Nat) : ℚ) / 100 ≠ 0 := by
        intro h0
        rw [DigitsRoundUp, h0] at hup
        exact roundsAway_zero hup
      have hpos := lt_of_le_of_ne hf hne.symm
      refine iff_of_true ⟨?_, ?_⟩ (.inr hup)
      · rw [if_pos rfl]
        push_cast
        linarith
      · push_cast
        exact abs_lt.2 ⟨by linarith, by linarith⟩
    · rw [or_iff_left hup]
      constructor
      · intro h
        have hle := h.1
        rw [if_pos rfl] at hle
        have h0 : ((firstDigits b % 100 : Nat) : ℚ) / 100 = 0 := by linarith
        simpa using h0
      · intro h0
        rw [h0] at hsum
        simp only [Nat.cast_zero, zero_div, add_zero] at hsum
        refine ⟨by rw [if_pos rfl]; linarith, ?_⟩
        rw [abs_lt]
        constructor <;> linarith

variable (hrem : (firstDigits b : ℚ) ≠ 100 * b)
include hrem

omit hn in
theorem lt_of_remainder : ((firstDigits b / 100 : Nat) : ℚ) < b := by
  obtain ⟨-, -, hlow, -⟩ := firstDigits_bounds h15 h16
  have hsum := cast_div_add (firstDigits b) (d := 100) (by decide)
  push_cast at hsum
  rw [hsum] at hlow
  have hlt : (firstDigits b : ℚ) / 100 < b := lt_of_le_of_ne hlow fun h => hrem (by linarith)
  have hf : (0 : ℚ) ≤ (firstDigits b % 100 : Nat) / 100 := by positivity
  linarith

/-- The digits are rounded and a unit is added, of the next decade if the rounding got there. -/
theorem added_right {E : Int} (hE : kMinExponent ≤ if n = 10 ^ 16 then E + 1 else E) :
    Within true b (if n = 10 ^ 16 then 10 ^ 16 + 10 else n + 1) (if n = 10 ^ 16 ∨ n + 1 = 10 ^ 16 then 10 else 1) ↔
      RoundsRight d true b E := by
  obtain ⟨-, h16', -, hhigh⟩ := firstDigits_bounds h15 h16
  have hlt := lt_of_remainder h15 h16 hrem
  simp only [RoundsRight, decide_eq_false hrem, Within, if_true]
  generalize hN : firstDigits b / 100 = N at *
  rcases hn with ⟨hup, rfl⟩ | ⟨hup, rfl⟩
  · by_cases hcarry : N + 1 = 10 ^ 16
    · rw [if_pos hcarry, if_pos (.inl hcarry)]
      refine iff_of_false (fun h => ?_) ?_
      · have := (abs_lt.1 h.2).2
        linarith
      · rintro (⟨-, h | h⟩ | ⟨-, -, h⟩)
        · exact h hup
        · omega
        · exact h ⟨hup, by omega⟩
    · rw [if_neg hcarry] at hE
      simp only [hcarry, if_false, false_or]
      by_cases hnext : N + 1 + 1 = 10 ^ 16
      · rw [if_pos hnext]
        refine iff_of_true ⟨?_, ?_⟩ (.inl ⟨hE, .inr (by omega)⟩)
        · push_cast
          linarith
        · push_cast
          exact abs_lt.2 ⟨by linarith, by linarith⟩
      · rw [if_neg hnext]
        refine iff_of_false (fun h => ?_) ?_
        · have := (abs_lt.1 h.2).2
          push_cast at this
          linarith
        · rintro (⟨-, h | h⟩ | ⟨h, -⟩)
          · exact h hup
          · omega
          · omega
  · have hne : n ≠ 10 ^ 16 := by omega
    rw [if_neg hne] at hE
    simp only [hne, if_false, false_or]
    refine iff_of_true ⟨by linarith, abs_lt.2 ?_⟩ (.inl ⟨hE, .inl hup⟩)
    split <;> constructor <;> linarith

/-- What is too small becomes the least amount. -/
theorem lost_right {E : Int} (hE : (if n = 10 ^ 16 then E + 1 else E) < kMinExponent) :
    Within true b (10 ^ 15 * 10 ^ (kMinExponent - E)) (10 ^ (kMinExponent - E)) ↔ RoundsRight d true b E := by
  obtain ⟨-, h16', -, hhigh⟩ := firstDigits_bounds h15 h16
  have hlt := lt_of_remainder h15 h16 hrem
  obtain ⟨j, hj⟩ : ∃ j : Nat, kMinExponent - E = 1 + j :=
    ⟨(kMinExponent - E - 1).toNat, by split at hE <;> omega⟩
  simp only [RoundsRight, decide_eq_false hrem, Within, if_true]
  rw [hj, zpow_add₀ (by norm_num), zpow_one, zpow_natCast]
  generalize hN : firstDigits b / 100 = N at *
  rcases Nat.eq_zero_or_pos j with rfl | hpos
  · have hcarry : n ≠ 10 ^ 16 := by
      rintro rfl
      rw [if_pos rfl] at hE
      omega
    have hno : ¬ (DigitsRoundUp d b ∧ N = 10 ^ 16 - 1) := by
      rintro ⟨hup, hnine⟩
      rcases hn with ⟨-, h⟩ | ⟨h, -⟩
      · omega
      · exact h hup
    rw [pow_zero, mul_one]
    constructor
    · intro h
      have hb := (abs_lt.1 h.2).2
      have hN' : (10 : ℚ) ^ 16 - 10 < N + 1 := by linarith
      refine .inr ⟨by omega, ?_, hno⟩
      have : 10 ^ 16 < N + 11 := by
        have : (10 : ℚ) ^ 16 < N + 11 := by linarith
        exact_mod_cast this
      omega
    · rintro (⟨h, -⟩ | ⟨-, hge, -⟩)
      · omega
      · have hge' : (10 : ℚ) ^ 16 ≤ N + 10 := by exact_mod_cast (show 10 ^ 16 ≤ N + 10 by omega)
        exact ⟨by linarith, abs_lt.2 ⟨by linarith, by linarith⟩⟩
  · refine iff_of_false (fun h => ?_) ?_
    · have h10 : (10 : ℚ) ≤ 10 ^ j := le_self_pow₀ (by norm_num) hpos.ne'
      have hb := (abs_lt.1 h.2).2
      nlinarith
    · rintro (⟨h, -⟩ | ⟨h, -⟩) <;> omega

end

variable {scale : MantissaScale} {mode : RoundingMode}

section
variable (hden : 0 < den) (h : mulRatio (mantissaRange scale) mode amt num den roundUp = .ok r)
include hden h

/-- What `mulRatio` does to the magnitude, in units of the sixteenth digit of the exact one. -/
theorem mulRatio_magnitude (h15 : 10 ^ 15 ≤ amt.mantissa.natAbs) (h16 : amt.mantissa.natAbs < 10 ^ 16)
    (hlow : -96 ≤ amt.exponent) (hhigh : amt.exponent ≤ 80) (hnum : 0 < num)
    (hnum' : num < 2 ^ 32) (hden' : den < 2 ^ 32) (hr : r ≠ zero) (hneg : decide (amt.mantissa < 0) = neg)
    (hdec : Decade (amt.mantissa.natAbs * num / den * 10 ^ amt.exponent) b E) :
    ∃ ρ u : ℚ, r.val = (if neg then -1 else 1) * (ρ * 10 ^ E) ∧ (10 : ℚ) ^ r.exponent = u * 10 ^ E ∧
      (Within (roundUp != neg) b ρ u ↔ RoundsRight (toward mode neg) (roundUp != neg) b E) := by
  have hrep := kMaxRep_eq
  have hten : (10 : ℚ) ^ (E + 1) = 10 * 10 ^ E := by rw [zpow_add_one₀ (by norm_num), mul_comm]
  obtain ⟨f, hq, hrem, hlow18, he1, he2⟩ := scaleRatio_quotient h15 h16 hnum hnum' hden hden' rfl
  obtain ⟨hlead, hf⟩ := hq.leading hlow18 hdec
  obtain ⟨hN15, hN16, -, -⟩ := firstDigits_bounds hdec.min hdec.lt
  unfold mulRatio at h
  rw [if_neg hden.ne', hneg] at h
  obtain ⟨first, hfirst, h⟩ := Run.bind_eq_ok.1 h
  generalize scaleRatio amt num den = s at *
  obtain ⟨m, e, hround, hmake⟩ := make_rounds scale mode neg (e := s.exponent) hq.pos (by omega) (by omega) (by omega)
  rw [hlead] at hround
  obtain ⟨b', E', n, hdec', hn, hcarry⟩ := hround
  obtain ⟨rfl, rfl⟩ := (decade_firstDigits hdec).unique hdec'
  have hn := roundsTo_digits hn
  by_cases hadd : s.hasRem = true ∧ (roundUp != neg) = true
  · have hrem' : (firstDigits b : ℚ) ≠ 100 * b := fun h => hrem.1 hadd.1 (hf.2 h)
    rw [hadd.2]
    obtain ⟨he80, ⟨hlt, rfl⟩ | ⟨hge, rfl⟩⟩ := ofDigits_eq_ok (hmake.symm.trans hfirst)
    · -- nothing was left of it
      have hlost : make (mantissaRange scale) mode
          (if neg then -(kMinMantissa : Int) else kMinMantissa) kMinExponent = .ok r := by
        clear * - h hadd
        cases neg <;> cases roundUp <;> simp_all [zero]
      rw [make_of_normal scale mode le_rfl (by decide) le_rfl (by decide)] at hlost
      obtain rfl := Except.ok.inj hlost
      have hunit : (10 : ℚ) ^ kMinExponent = 10 ^ (kMinExponent - E) * 10 ^ E := by
        rw [← zpow_add₀ (by norm_num), sub_add_cancel]
      refine ⟨_, _, ?_, hunit, lost_right hdec.min hdec.lt hn hrem' ?_⟩
      · rw [val_signed, hunit]
        simp only [kMinMantissa]
        push_cast
        ring
      · rcases hcarry with ⟨hlt16, -, rfl⟩ | ⟨hten16, -, rfl⟩
        · rwa [if_neg hlt16.ne]
        · rwa [if_pos hten16]
    · have hm0 : m ≠ 0 := by omega
      have hadded : make (mantissaRange scale) mode
          (if neg then -((m + 1 : Nat) : Int) else (m + 1 : Nat)) e = .ok r := by
        clear * - h hadd hm0
        cases neg <;> cases roundUp <;> simp_all [sub_eq_add_neg, add_comm]
      obtain ⟨hval, hexp⟩ := make_carry scale mode (by omega) (by omega) hge he80 hadded
      refine ⟨_, _, ?_, ?_, added_right hdec.min hdec.lt hn hrem' ?_⟩
      · rw [hval]
        rcases hcarry with ⟨hlt16, rfl, rfl⟩ | ⟨hten16, rfl, rfl⟩
        · rw [if_neg hlt16.ne]
          push_cast
          rfl
        · rw [if_pos hten16, hten]
          push_cast
          ring
      · rw [hexp]
        rcases hcarry with ⟨hlt16, rfl, rfl⟩ | ⟨hten16, rfl, rfl⟩
        · simp only [hlt16.ne, false_or]
          split
          · exact hten
          · rw [one_mul]
        · rw [if_neg (by decide), if_pos (.inl hten16), hten]
      · rcases hcarry with ⟨hlt16, -, rfl⟩ | ⟨hten16, -, rfl⟩
        · rwa [if_neg hlt16.ne]
        · rwa [if_pos hten16]
  · have hfirst' : r = first := by
      clear * - h hadd
      cases neg <;> cases roundUp <;> cases hh : s.hasRem <;> simp_all
    subst hfirst'
    have hexact : (roundUp != neg) = true → (firstDigits b : ℚ) = 100 * b := fun haway =>
      hf.1 (not_not.1 fun hne => hadd ⟨hrem.2 hne, haway⟩)
    obtain ⟨-, ⟨-, hlost⟩ | ⟨-, rfl⟩⟩ := ofDigits_eq_ok (hmake.symm.trans hfirst)
    · exact absurd hlost hr
    rw [val_signed]
    rcases hcarry with ⟨-, rfl, rfl⟩ | ⟨rfl, rfl, rfl⟩
    · exact ⟨_, 1, rfl, (one_mul _).symm, rounded_right hdec.min hdec.lt hn hexact le_rfl _⟩
    · refine ⟨_, 10, ?_, hten, rounded_right hdec.min hdec.lt hn hexact (by norm_num) _⟩
      rw [hten]
      push_cast
      ring

theorem mulRatio_zero (hzero : amt.mantissa.natAbs * num = 0) : r = zero := by
  have hs : scaleRatio amt num den = ⟨0, false, amt.exponent⟩ := by
    have hlog : kLoG10Ceil 0 = 0 := by decide
    simp [scaleRatio, hzero, Ratio.grow, Ratio.shrink, hlog, kFl64_eq]
  unfold mulRatio at h
  rw [if_neg hden.ne', hs] at h
  simpa [make, eq_comm] using h

end

/-- In normal form: zero, or sixteen digits and an exponent in range. -/
def Normal (a : IOUAmount) : Prop :=
  a = zero ∨ (kMinMantissa ≤ a.mantissa.natAbs ∧ a.mantissa.natAbs ≤ kMaxMantissa ∧ kMinExponent ≤ a.exponent ∧
    a.exponent ≤ kMaxExponent)

end IOUAmount

/-- The result is on the side of the exact value that was asked for, by less than a unit of its last place. -/
def Directed (roundUp : Bool) (exact : ℚ) (r : IOUAmount) : Prop :=
  (roundUp = true → exact ≤ r.val) ∧ (roundUp = false → r.val ≤ exact) ∧ |r.val - exact| < 10 ^ r.exponent

/-- For an issued amount, a result that is not zero is right exactly if the digits of the exact value are such. For
whole amounts the result is the ceiling or the floor exactly if that is not below the `int64`s. -/
theorem mulRatio_directed (scale : MantissaScale) (mode : RoundingMode) {num den : Nat}
    (roundUp : Bool) (hnum : num < 2 ^ 32) (hden : 0 < den) (hden' : den < 2 ^ 32) :
    (∀ (amt r : IOUAmount) (neg : Bool), amt.Normal → amt.mulRatio (mantissaRange scale) mode num den roundUp = .ok r →
      r ≠ zero → decide (amt.mantissa < 0) = neg → ∃ b E, Decade (|amt.val * num / den|) b E ∧
        (Directed roundUp (amt.val * num / den) r ↔ RoundsRight (toward mode neg) (roundUp != neg) b E)) ∧
    (∀ amt r : Int, XRPAmount.mulRatio amt num den roundUp = .ok r →
      ((r = if roundUp then ⌈(amt * num / den : ℚ)⌉ else ⌊(amt * num / den : ℚ)⌋) ↔
        if roundUp then (-2 ^ 63 - 1) * den < amt * num else -2 ^ 63 * den ≤ amt * num)) ∧
    (∀ amt r : Int, MPTAmount.mulRatio amt num den roundUp = .ok r →
      ((r = if roundUp then ⌈(amt * num / den : ℚ)⌉ else ⌊(amt * num / den : ℚ)⌋) ↔
        if roundUp then (-2 ^ 63 - 1) * den < amt * num else -2 ^ 63 * den ≤ amt * num)) := by
  refine ⟨fun amt r neg hamt h hr hneg => ?_, fun amt r => mulRatioInt64_iff hden, fun amt r => mulRatioInt64_iff hden⟩
  obtain ⟨h0, hn0⟩ := not_or.1 fun h0 => hr (mulRatio_zero hden h (Nat.mul_eq_zero.2 h0))
  obtain ⟨h1, h2, h3, h4⟩ := hamt.resolve_left (by rintro rfl; exact h0 rfl)
  unfold kMinMantissa at h1
  unfold kMaxMantissa at h2
  have habs : (amt.mantissa : ℚ) = (if neg then -1 else 1) * amt.mantissa.natAbs := by
    subst hneg
    by_cases hs : amt.mantissa < 0
    · rw [decide_eq_true hs, if_pos rfl, Nat.cast_natAbs, abs_of_neg hs]; push_cast; ring
    · rw [decide_eq_false hs, if_neg Bool.false_ne_true, Nat.cast_natAbs, abs_of_nonneg (not_lt.1 hs), one_mul]
  have hX : (0 : ℚ) < amt.mantissa.natAbs * num / den * 10 ^ amt.exponent := by
    have : 0 < amt.mantissa.natAbs := by omega
    have : 0 < num := by omega
    positivity
  have hexact : amt.val * num / den = (if neg then -1 else 1) *
      (amt.mantissa.natAbs * num / den * 10 ^ amt.exponent) := by
    rw [IOUAmount.val, habs]
    ring
  obtain ⟨b, E, hdec⟩ := exists_decade hX
  obtain ⟨ρ, u, hval, hunit, hiff⟩ := mulRatio_magnitude hden h h1 (by omega) h3 h4 (by omega) hnum hden' hr hneg hdec
  refine ⟨b, E, ?_, Iff.trans ?_ hiff⟩
  · rw [hexact, abs_mul, abs_of_pos hX]
    cases neg <;> simpa using hdec
  have hp : (0 : ℚ) < 10 ^ E := by positivity
  have habs' : |ρ * 10 ^ E - b * 10 ^ E| < u * 10 ^ E ↔ |ρ - b| < u := by
    rw [← sub_mul, abs_mul, abs_of_pos hp, mul_lt_mul_iff_left₀ hp]
  unfold Directed Within
  rw [hexact, hdec.value, hval, hunit]
  cases neg with
  | false =>
    rw [if_neg Bool.false_ne_true, one_mul, one_mul, habs', mul_le_mul_iff_left₀ hp, mul_le_mul_iff_left₀ hp]
    cases roundUp <;> simp
  | true =>
    rw [if_pos rfl, neg_one_mul, neg_one_mul, neg_sub_neg, abs_sub_comm, habs', neg_le_neg_iff, neg_le_neg_iff,
      mul_le_mul_iff_left₀ hp, mul_le_mul_iff_left₀ hp]
    cases roundUp <;> simp

/-- A third of an amount has more than eighteen digits, and the two after the sixteenth are not rounded up, so that
one unit is added. Two thirds of a drop are rounded up to one. -/
theorem mulRatio_directed_third :
    Directed true (IOUAmount.val ⟨1000000000000000, 0⟩ * (1 : Nat) / (3 : Nat)) ⟨3333333333333334, -1⟩ ∧
      (1 : Int) = ⌈((1 : Int) * (2 : Nat) / (3 : Nat) : ℚ)⌉ := by
  refine ⟨?_, ((mulRatio_directed .large330 .toNearest true (by decide) (by decide) (by decide)).2.1 1
    1 (by decide)).2 (by decide)⟩
  obtain ⟨b, E, hdec, hiff⟩ := (mulRatio_directed .large330 .toNearest true (by decide : 1 < 2 ^ 32)
    (by decide : 0 < 3) (by decide)).1 ⟨1000000000000000, 0⟩ ⟨3333333333333334, -1⟩ false (.inr (by decide))
      (by decide +kernel) (by decide) rfl
  have hthird : Decade (|IOUAmount.val ⟨1000000000000000, 0⟩ * (1 : Nat) / (3 : Nat)|) (10 ^ 16 / 3) (-1) := by
    constructor <;> norm_num [IOUAmount.val]
  obtain ⟨rfl, rfl⟩ := hthird.unique hdec
  have hdigits : firstDigits (10 ^ 16 / 3) = 333333333333333333 := by norm_num [firstDigits, Nat.floor_eq_iff]
  refine hiff.2 ?_
  simp only [RoundsRight, DigitsRoundUp, hdigits]
  norm_num [toward, RoundsAway, IOUAmount.kMinExponent]

/-- Rounded down, three halves of `1000000000000001` become more than `1500000000000001.5`: the quotient has eighteen
digits, and the tie between two amounts goes to the even one. -/
theorem mulRatio_rounds_up :
    IOUAmount.mulRatio (mantissaRange .large330) .toNearest ⟨1000000000000001, 0⟩ 15 10
      false = .ok ⟨1500000000000002, 0⟩ ∧
      IOUAmount.val ⟨1000000000000001, 0⟩ * 15 / 10 < IOUAmount.val ⟨1500000000000002, 0⟩ := by
  refine ⟨by decide +kernel, ?_⟩
  norm_num [IOUAmount.val]

end Rippled.Protocol
