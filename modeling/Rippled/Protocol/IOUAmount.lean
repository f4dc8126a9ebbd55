import Rippled.Basics.RoundUp

/-!
# IOUAmount

An issued amount as a mantissa of sixteen digits and an exponent (`IOUAmount.cpp`). It is brought to this form through
`Number`, in the scale and the rounding mode of the thread.
-/

namespace Rippled.Protocol

open Lib Basics Basics.Guard Basics.Number

structure IOUAmount where
  mantissa : Int
  exponent : Int
  deriving DecidableEq

namespace IOUAmount

def kMinMantissa : Nat := 1000000000000000
def kMaxMantissa : Nat := 9999999999999999
def kMinExponent : Int := -96
def kMaxExponent : Int := 80

/-- `beast::kZero` as an amount. -/
def zero : IOUAmount := ⟨0, -100⟩

/-- `Number::normalizeToRange` to sixteen digits. -/
def fromNumber (mode : RoundingMode) (number : Number) : Run String IOUAmount := do
  let r ← doNormalize .u64 mode kMinMantissa kMaxMantissa .disabled false number
  .ok ⟨if r.negative then -r.mantissa else r.mantissa, r.exponent⟩

def ofNumber (mode : RoundingMode) (other : Number) : Run String IOUAmount := do
  let result ← fromNumber mode other
  if result.exponent > kMaxExponent then Run.throw "value overflow"
  else if result.exponent < kMinExponent then .ok zero
  else .ok result

/-- The constructor from a mantissa and an exponent, which normalizes them. -/
def make (range : MantissaRange) (mode : RoundingMode) (mantissa exponent : Int) : Run String IOUAmount :=
  if mantissa = 0 then .ok zero
  else do
    let v ← doNormalize .u64 mode range.min range.max range.cuspRoundingFix false
      ⟨decide (mantissa < 0), mantissa.natAbs, exponent⟩
    ofNumber mode v

end IOUAmount

/-! ## Normalizing what needs no rounding -/

namespace IOUAmount

variable {m : Nat}

theorem natAbs_signed (neg : Bool) (m : Nat) : (if neg then -(m : Int) else m).natAbs = m := by
  split_ifs <;> omega

theorem signed_lt_zero (neg : Bool) (h0 : 0 < m) : decide ((if neg then -(m : Int) else m) < 0) = neg := by
  cases neg <;> simp; omega

variable {g : Guard}

theorem round_of_empty (hd : g.digits = 0) (hx : g.xbit = false) (mode : RoundingMode) :
    g.round mode = .exact ∨ g.round mode = .down := by
  have he : g.empty = true := (Guard.empty_iff g).2 ⟨hd, hx⟩
  unfold Guard.round
  cases mode <;> simp [he, hd]

theorem pushOverflow_of_empty (hd : g.digits = 0) (hx : g.xbit = false) (mode : RoundingMode)
    (h : m ≤ kMaxRep ∨ kMaxRepUp ≤ m) : g.pushOverflow mode m = g := by
  by_cases hm : m = kMaxRep
  · subst hm
    have hr : ¬ (g.round mode = .up ∨ (g.round mode = .even ∧ kMaxRep = kMaxRep + (kMaxRepUp - kMaxRep) / 2)) := by
      rcases round_of_empty hd hx mode with h | h <;> simp [h]
    have hpush : (kMaxRep - kMaxRep) * 10 / (kMaxRepUp - kMaxRep) = 0 := by decide
    unfold pushOverflow
    dsimp only
    rw [if_pos (by decide : kMaxRep % 10 < 9), if_neg hr, hpush, doPush_zero hd hx, ite_self]
  · exact pushOverflow_of_lt g (by omega)

variable (w : Width) (mode : RoundingMode) (location : String) {x : Number}

/-- With an empty guard, rounding leaves a mantissa that is not in the gap above `kMaxRep`. -/
theorem doRoundUp_of_empty (hd : g.digits = 0) (hx : g.xbit = false) (h : x.mantissa ≤ kMaxRep ∨ kMaxRepUp ≤ x.mantissa)
    (n : Nat) : doRoundUp w mode location (n + 1) g x = g.finishRoundUp w location x := by
  have hr : ¬ (g.round mode = .up ∨ (g.round mode = .even ∧ x.mantissa &&& 1 = 1)) := by
    rcases round_of_empty hd hx mode with h | h <;> simp [h]
  simp only [doRoundUp, pushOverflow_of_empty hd hx mode h, if_neg hr]
  rw [if_neg (by omega)]

theorem finishRoundUp_of_ge (hm : g.minMantissa ≤ x.mantissa) (hpos : 0 < x.mantissa)
    (hlow : Basics.kMinExponent ≤ x.exponent) :
    g.finishRoundUp w location x = if x.exponent > Basics.kMaxExponent then Run.throw location else .ok x := by
  simp only [finishRoundUp, bringIntoRange_of_ge hm hpos hlow]

theorem finishRoundUp_of_lt (hm : x.mantissa < g.minMantissa) (hpos : 0 < x.mantissa) (hsize : x.mantissa * 10 < w.size)
    (hlow : Basics.kMinExponent < x.exponent) (hhigh : x.exponent ≤ Basics.kMaxExponent) :
    g.finishRoundUp w location x = .ok { x with mantissa := x.mantissa * 10, exponent := x.exponent - 1 } := by
  simp only [finishRoundUp, bringIntoRange_of_lt hm hpos hsize hlow]
  rw [if_neg (by omega)]

variable {negative : Bool} {e : Int} {minMantissa : Nat}

theorem growMantissa_exact (k : Nat) (hk : k ≤ loopFuel) (hneed : ∀ j < k, m * 10 ^ j < minMantissa)
    (hdone : minMantissa ≤ m * 10 ^ k) (hsize : m * 10 ^ k < Width.u64.size) (he : Basics.kMinExponent + k ≤ e) :
    growMantissa .u64 minMantissa ⟨negative, m, e⟩ = .ok ⟨negative, m * 10 ^ k, e - k⟩ := by
  unfold growMantissa
  generalize loopFuel = n at hk
  induction k generalizing m e n with
  | zero =>
    rw [Run.whileDo_done (by simp at hdone ⊢; omega)]
    simp
  | succ k ih =>
    obtain ⟨n, rfl⟩ : ∃ n', n = n' + 1 := ⟨n - 1, by omega⟩
    have hm : m < minMantissa := by simpa using hneed 0 (by omega)
    have hle : m * 10 ≤ m * 10 ^ (k + 1) := by
      rw [pow_succ, mul_comm (10 ^ k), ← mul_assoc]
      exact Nat.le_mul_of_pos_right _ (by positivity)
    have hwrap : Width.u64.wrap (m * 10) = m * 10 := wrap_of_lt (by omega)
    have hshift : ∀ j, m * 10 * 10 ^ j = m * 10 ^ (j + 1) := by intro j; rw [pow_succ]; ring
    have hexp : Basics.kMinExponent < e := by push_cast at he; omega
    rw [Run.whileDo_step (by exact decide_eq_true ⟨hm, hexp⟩) (by rw [hwrap])]
    rw [ih (fun j hj => by rw [hshift]; exact hneed (j + 1) (by omega)) (by rw [hshift]; exact hdone)
      (by rw [hshift]; exact hsize) (by push_cast at he; dsimp only; omega) n (by omega), hshift]
    congr 2
    push_cast
    ring

variable {maxMantissa : Nat}

theorem normalizeInRange_exact {w : Width} (hd : g.digits = 0) (hx : g.xbit = false) (hmin : g.minMantissa ≤ m)
    (hpos : 0 < m) (h10 : kMaxRep < m → m % 10 = 0 ∧ m < 10 * g.minMantissa) (hsize : m < Width.u64.size)
    (hlow : Basics.kMinExponent ≤ e) (hhigh : e ≤ Basics.kMaxExponent)
    (hroom : repLimit g.cuspRoundingFix < m → e < Basics.kMaxExponent) :
    normalizeInRange w mode negative ⟨g, m, e⟩ = .ok ⟨negative, m, e⟩ := by
  have hrep := kMaxRep_eq
  have hrepUp := kMaxRepUp_eq
  have hwidth : Width.u64.size = 2 ^ 64 := rfl
  have hfits : m < w.size := by cases w <;> simp only [Width.size] at * <;> omega
  have hlimit : kMaxRep ≤ repLimit g.cuspRoundingFix ∧ repLimit g.cuspRoundingFix ≤ kMaxRepUp := by
    unfold repLimit
    split_ifs <;> omega
  unfold normalizeInRange
  dsimp only
  rw [if_neg (by omega)]
  by_cases hbig : m > repLimit g.cuspRoundingFix
  · -- one digit, a zero, is dropped and comes back at the end
    obtain ⟨hmod, hlt⟩ := h10 (by omega)
    have hdrop : doDropDigit w ⟨g, m, e⟩ = ⟨g, m / 10, e + 1⟩ := by
      rw [doDropDigit_eq hfits]
      simp [hmod, doPush_zero hd hx]
    have hroom := hroom hbig
    rw [if_pos hbig, if_neg (not_le.2 hroom), hdrop]
    rw [show loopFuel = 63 + 1 from rfl, doRoundUp_of_empty _ _ _ hd hx (.inl (by dsimp only; omega)),
      finishRoundUp_of_lt _ _ (by dsimp only; omega) (by dsimp only; omega) (by dsimp only; omega)
        (by dsimp only; omega) (by dsimp only; omega)]
    congr 2
    · dsimp only; omega
    · dsimp only; omega
  · rw [if_neg hbig, show loopFuel = 63 + 1 from rfl, doRoundUp_of_empty _ _ _ hd hx (by dsimp only; omega),
      finishRoundUp_of_ge _ _ hmin hpos hlow, if_neg (not_lt.2 hhigh)]

variable {fix : CuspRoundingFix}

/-- A mantissa that has `k` digits too few is normalized without rounding. -/
theorem doNormalize_grow (k : Nat) (hpos : 0 < m) (hk : k ≤ loopFuel) (hneed : ∀ j < k, m * 10 ^ j < minMantissa)
    (hdone : minMantissa ≤ m * 10 ^ k) (hmax : m * 10 ^ k ≤ maxMantissa) (hrange : maxMantissa < 10 * minMantissa)
    (hsize : maxMantissa < Width.u64.size) (h10 : kMaxRep < m * 10 ^ k → m * 10 ^ k % 10 = 0)
    (hlow : Basics.kMinExponent + k ≤ e) (hhigh : e - k ≤ Basics.kMaxExponent)
    (hroom : repLimit fix < m * 10 ^ k → e - k < Basics.kMaxExponent) :
    doNormalize .u64 mode minMantissa maxMantissa fix false ⟨negative, m, e⟩ = .ok ⟨negative, m * 10 ^ k, e - k⟩ := by
  have hpos' : 0 < m * 10 ^ k := Nat.mul_pos hpos (by positivity)
  unfold doNormalize
  rw [if_neg (by dsimp only; omega), growMantissa_exact k hk hneed hdone (by omega) hlow]
  simp only [bind, Except.bind]
  rw [shrinkMantissa, Run.whileDo_done (by simpa using hmax)]
  exact normalizeInRange_exact mode rfl rfl hdone hpos' (fun h => ⟨h10 h, by dsimp only; omega⟩)
    (by omega) (by omega) hhigh hroom

end IOUAmount

end Rippled.Protocol
