import Rippled.Basics.Normalize
import Mathlib.Tactic.FieldSimp
/-!
# Multiplication and division round correctly

The product is exact in 128 bits, so its digits only have to pass through the
guard. The quotient is an integer and a remainder; the remainder is the part
cut off before `doNormalize`.
-/

namespace Rippled.Basics

open Lib Guard Width

namespace Number

/-! ## Normal Numbers are fixed points -/

theorem CorrectlyRounded.val_eq {mode : RoundingMode} {v : ℚ} {r : Number} (h : CorrectlyRounded mode v r)
    (hv : v ∈ normals) : r.val = v := by
  obtain ⟨-, h⟩ := h
  cases mode with
  | toNearest => exact h.1.eq_of_mem hv
  | towardsZero => exact Truncates.eq_of_mem h hv
  | downward => exact RoundsDown.eq_of_mem h hv
  | upward => exact RoundsUp.eq_of_mem h hv

theorem bounds_of_normal {x : Number} (hx : x.Normal) (h0 : x ≠ kZero) :
    10 ^ 18 ≤ x.mantissa ∧ x.mantissa < 10 ^ 19 ∧ kMinExponent ≤ x.exponent := by
  rcases normal_iff.1 hx with rfl | ⟨h1, h2, -, h3, -⟩
  · exact absurd rfl h0
  · exact ⟨h1, h2, h3⟩

theorem smallest_le_abs_val {x : Number} (hx : x.Normal) (h0 : x ≠ kZero) : smallest ≤ |x.val| := by
  obtain ⟨h1, -, h3⟩ := bounds_of_normal hx h0
  rw [abs_val, smallest]
  have : (10 : ℚ) ^ kMinExponent ≤ 10 ^ x.exponent := zpow_le_zpow_right₀ (by norm_num) h3
  gcongr
  exact_mod_cast h1

theorem eq_of_val_eq {x y : Number} (hx : x.Normal) (hy : y.Normal) (h0 : y ≠ kZero) (h : x.val = y.val) : x = y := by
  obtain ⟨h1, h2, -⟩ := bounds_of_normal hy h0
  obtain ⟨hm, he⟩ := eq_of_abs_val hx h1 h2 (by rw [h, abs_val])
  have hpos : 0 < |y.val| := by
    have : (0 : ℚ) < smallest := by unfold smallest; positivity
    exact this.trans_le (smallest_le_abs_val hy h0)
  have hn : x.negative = y.negative := by
    have hxv := val_eq_sign x
    have hyv := val_eq_sign y
    rw [h] at hxv
    cases hxn : x.negative <;> cases hyn : y.negative <;>
      simp only [hxn, hyn, Bool.false_eq_true, if_true, if_false] at hxv hyv
    all_goals first | rfl | linarith
  cases x; cases y; simp_all

variable (mode : RoundingMode) (x y : Number)

theorem doNormalize_normal {x : Number} (hx : x.Normal) :
    (doNormalize .u64 mode large330.min large330.max large330.cuspRoundingFix false x).Ensures (fun r => r = x) := by
  by_cases h0 : x = kZero
  · subst h0; exact Run.ensures_ok rfl
  obtain ⟨h1, h2, -⟩ := bounds_of_normal hx h0
  have hc : Cut x 0 |x.val| := ⟨le_refl _, by norm_num, fun _ => by simp, by rw [abs_val, add_zero]⟩
  refine (doNormalize_correct .u64 mode hc (by simp) (by omega) (by simp only [size]; omega)
    (smallest_le_abs_val hx h0)).mono fun r hr => ?_
  have hv : (if x.negative then -1 else 1) * |x.val| = x.val := by
    conv_rhs => rw [val_eq_sign x]
    split <;> ring
  rw [hv] at hr
  exact eq_of_val_eq hr.1 hx h0 (hr.val_eq ⟨x, hx, rfl⟩)

/-! ## Multiplication -/

theorem shrinkProduct_ensures {s : Dropping} {a : ℚ} (h : Stands s 0 a) (hr : s.guard.Reads 0)
    (hs : s.mantissa < 2 ^ 128) (hbig : kMaxRepUp < s.mantissa) :
    (shrinkProduct (10 ^ 19 - 1) kMaxRepUp s).Ensures (fun t => ∃ f, Stands t f a ∧ t.guard.Reads f ∧
      t.guard.sbit = s.guard.sbit ∧ Window t.mantissa) := by
  have hK' := kMaxRepUp_eq
  refine (Run.whileDo_ensures (fun t : Dropping => ∃ f, Stands t f a ∧ t.guard.Reads f ∧
      t.guard.sbit = s.guard.sbit ∧ t.mantissa < 2 ^ 128 ∧ kMaxRepUp ≤ 10 * t.mantissa)
      (fun t => Nat.log 10 t.mantissa) ?_ loopFuel s ⟨0, h, hr, rfl, hs, by omega⟩
      (log_lt_loopFuel (w := .u128) hs)).mono ?_
  · rintro t ⟨f, ht, htr, htn, htw, -⟩ hcond
    simp only [decide_eq_true_eq] at hcond
    obtain ⟨h1, h2⟩ := ht.doDropDigit (w := .u128) htw
    rw [doDropDigit_eq htw] at h1 h2 ⊢
    refine Run.ensures_ok ⟨⟨_, h1, h2, htn, ?_, ?_⟩, log_div_ten_lt (by omega)⟩
    · simp only; omega
    · simp only; omega
  · rintro t ⟨⟨f, ht, htr, htn, -, htm⟩, hcond⟩
    simp only [decide_eq_false_iff_not] at hcond
    refine ⟨f, ht, htr, htn, ?_⟩
    unfold Window
    omega

theorem abs_mul_val : |x.val * y.val| = ((x.mantissa * y.mantissa : Nat) : ℚ) * 10 ^ (x.exponent + y.exponent) := by
  rw [abs_mul, abs_val, abs_val, zpow_add₀ (by norm_num)]
  push_cast
  ring

theorem sign_mul : (if (x.negative != y.negative) = true then -1 else 1) * |x.val * y.val| = x.val * y.val := by
  rw [abs_mul]
  conv_rhs => rw [val_eq_sign x, val_eq_sign y]
  cases x.negative <;> cases y.negative <;> simp

theorem timesAssign_correct {x y : Number} (hx : x.Normal) (hy : y.Normal) (hx0 : x ≠ kZero) (hy0 : y ≠ kZero)
    (hmin : smallest ≤ |x.val * y.val|) :
    (timesAssign large330 mode x y).Ensures (CorrectlyRounded mode (x.val * y.val)) := by
  obtain ⟨hx1, hx2, -⟩ := bounds_of_normal hx hx0
  obtain ⟨hy1, hy2, -⟩ := bounds_of_normal hy hy0
  have hK' := kMaxRepUp_eq
  have hlo : 10 ^ 36 ≤ x.mantissa * y.mantissa := by
    calc 10 ^ 36 = 10 ^ 18 * 10 ^ 18 := by norm_num
      _ ≤ x.mantissa * y.mantissa := Nat.mul_le_mul hx1 hy1
  have hhi : x.mantissa * y.mantissa < 2 ^ 128 := by
    calc x.mantissa * y.mantissa < 10 ^ 19 * 10 ^ 19 := Nat.mul_lt_mul'' hx2 hy2
      _ < 2 ^ 128 := by norm_num
  unfold timesAssign
  rw [if_neg hx0, if_neg hy0]
  simp only [wrap_of_lt (show x.mantissa * y.mantissa < u128.size from hhi)]
  generalize hzn : (x.negative != y.negative) = zn
  set g := if zn = true then (Guard.ofRange large330).setNegative else Guard.ofRange large330 with hg
  have hgl : g.IsLarge := by rw [hg]; split <;> exact ⟨rfl, rfl, rfl⟩
  have hgs : g.sbit = zn := by rw [hg]; cases zn <;> rfl
  have hgr : g.Reads 0 := by rw [hg]; apply Reads.of_zero <;> split <;> rfl
  rw [hgl.max, show repLimit g.cuspRoundingFix = kMaxRepUp by rw [hgl.fix]; rfl]
  refine (shrinkProduct_ensures (a := |x.val * y.val|) ⟨hgl, hgr.toSees, ?_⟩ hgr hhi (by simp only; omega)).bind
    fun s hs => ?_
  · rw [add_zero, abs_mul_val]
  obtain ⟨f, hst, hrd, hsb, hw⟩ := hs
  simp only [wrap_of_lt (show s.mantissa < u64.size by simp only [size]; unfold Window at hw; omega)]
  refine (doRoundUp_correct .u64 mode _ hst.large (x := ⟨zn, s.mantissa, s.exponent⟩) (hsb.trans hgs) hrd hw
    (by rw [hst.value]; exact hmin) 62).bind fun z hz => ?_
  refine (doNormalize_normal mode hz.1).mono fun r hr => ?_
  rw [hst.value] at hz
  simp only at hz
  rw [hr, ← sign_mul, hzn]
  exact hz

/-! ## Division -/

/-- The assembled quotient and the fraction below it, as an exact division. -/
theorem quotient_spec {nm dm : Nat} (hn1 : 10 ^ 18 ≤ nm) (hn2 : nm < 10 ^ 19) (hd1 : 10 ^ 18 ≤ dm) (hd2 : dm < 10 ^ 19)
    (ne de : Int) :
    ∃ (k r : Nat), r < dm ∧ (quotient large330 nm ne dm de).2.1 = ne - de - k ∧
      nm * 10 ^ k = (quotient large330 nm ne dm de).1 * dm + r ∧
      ((quotient large330 nm ne dm de).2.2 = true ↔ r ≠ 0) ∧
      10 ^ 16 ≤ (quotient large330 nm ne dm de).1 ∧ (quotient large330 nm ne dm de).1 < 2 ^ 128 ∧
      ((quotient large330 nm ne dm de).1 < 10 ^ 19 → r * 10 ^ 5 < dm) := by
  have hwrap : u128.wrap (nm * 10 ^ 17) = nm * 10 ^ 17 := wrap_of_lt (by simp only [size]; omega)
  have hzm1 : 10 ^ 16 ≤ nm * 10 ^ 17 / dm := by
    rw [Nat.le_div_iff_mul_le (by omega)]
    omega
  have hzm2 : nm * 10 ^ 17 / dm ≤ 10 ^ 18 := by
    rw [Nat.div_le_iff_le_mul_add_pred (by omega)]
    omega
  have hdm : nm * 10 ^ 17 = nm * 10 ^ 17 / dm * dm + nm * 10 ^ 17 % dm := (Nat.div_add_mod' _ _).symm
  have hrem : nm * 10 ^ 17 % dm < dm := Nat.mod_lt _ (by omega)
  unfold quotient
  simp only [hwrap, show large330.scale ≠ .small by decide, ne_eq, not_false_eq_true, if_true]
  generalize nm * 10 ^ 17 / dm = zm at *
  generalize nm * 10 ^ 17 % dm = rem at *
  have hwrap2 : u128.wrap (rem * 10 ^ 5) = rem * 10 ^ 5 := wrap_of_lt (by simp only [size]; omega)
  by_cases hr0 : rem = 0
  · refine ⟨17, 0, by omega, ?_⟩
    simp only [hr0, not_true_eq_false, if_false]
    refine ⟨trivial, by rw [hdm, hr0], by simp, hzm1, hzm2.trans_lt (by norm_num), fun _ => ?_⟩
    rw [Nat.zero_mul]; omega
  simp only [hr0, not_false_eq_true, if_true, hwrap2]
  have hdm2 : rem * 10 ^ 5 = rem * 10 ^ 5 / dm * dm + rem * 10 ^ 5 % dm := (Nat.div_add_mod' _ _).symm
  have hr2 : rem * 10 ^ 5 % dm < dm := Nat.mod_lt _ (by omega)
  have hc : rem * 10 ^ 5 / dm < 10 ^ 5 := by
    rw [Nat.div_lt_iff_lt_mul (by omega)]
    omega
  generalize rem * 10 ^ 5 / dm = c at *
  generalize rem * 10 ^ 5 % dm = r2 at *
  by_cases hc0 : c = 0
  · refine ⟨17, rem, hrem, ?_⟩
    simp only [hc0, not_true_eq_false, if_false]
    refine ⟨trivial, hdm, ?_, hzm1, hzm2.trans_lt (by norm_num), fun _ => by rw [hc0] at hdm2; omega⟩
    simp only [show large330.cuspRoundingFix ≠ .disabled by decide, not_false_eq_true, true_and, decide_eq_true_eq]
    rw [hc0] at hdm2
    omega
  · refine ⟨22, r2, hr2, ?_⟩
    simp only [hc0, not_false_eq_true, if_true]
    rw [wrap_of_lt (w := .u128) (n := zm * 10 ^ 5) (by simp only [size]; omega),
      wrap_of_lt (by simp only [size]; omega)]
    have hbig : 10 ^ 21 ≤ zm * 10 ^ 5 + c := by omega
    refine ⟨by push_cast; ring, ?_, ?_, by omega, by omega, fun h => absurd (hbig.trans_lt h) (by norm_num)⟩
    · calc nm * 10 ^ 22 = nm * 10 ^ 17 * 10 ^ 5 := by ring
        _ = (zm * dm + rem) * 10 ^ 5 := by rw [hdm]
        _ = zm * 10 ^ 5 * dm + rem * 10 ^ 5 := by ring
        _ = (zm * 10 ^ 5 + c) * dm + r2 := by rw [hdm2]; ring
    · simp [show large330.cuspRoundingFix ≠ .disabled by decide]

theorem sign_div : (if (x.negative != y.negative) = true then -1 else 1) * |x.val / y.val| = x.val / y.val := by
  rw [abs_div]
  conv_rhs => rw [val_eq_sign x, val_eq_sign y]
  cases x.negative <;> cases y.negative <;> simp [neg_div, div_neg]

theorem divideAssign_correct {x y : Number} (hx : x.Normal) (hy : y.Normal) (hx0 : x ≠ kZero) (hy0 : y ≠ kZero)
    (hmin : smallest ≤ |x.val / y.val|) :
    (divideAssign large330 mode x y).Ensures (CorrectlyRounded mode (x.val / y.val)) := by
  obtain ⟨hx1, hx2, -⟩ := bounds_of_normal hx hx0
  obtain ⟨hy1, hy2, -⟩ := bounds_of_normal hy hy0
  obtain ⟨k, r, hr, hze, hdiv, hdrop, hq1, hq2, htiny⟩ := quotient_spec hx1 hx2 hy1 hy2 x.exponent y.exponent
  unfold divideAssign
  rw [if_neg hy0, if_neg hx0]
  generalize quotient large330 x.mantissa x.exponent y.mantissa y.exponent = q at *
  obtain ⟨zm, ze, dropped⟩ := q
  simp only at hze hdiv hdrop hq1 hq2 htiny ⊢
  have hdm : (0 : ℚ) < y.mantissa := by exact_mod_cast (show 0 < y.mantissa by omega)
  have hval : ((zm : ℚ) + r / y.mantissa) * 10 ^ ze = |x.val / y.val| := by
    have hdiv' : (x.mantissa : ℚ) * 10 ^ k = zm * y.mantissa + r := by exact_mod_cast hdiv
    rw [abs_div, abs_val, abs_val, hze, zpow_sub₀ (by norm_num), zpow_sub₀ (by norm_num), zpow_natCast]
    field_simp
    linarith
  have hc : Cut ⟨x.negative != y.negative, zm, ze⟩ (r / y.mantissa) |x.val / y.val| := by
    refine ⟨by positivity, ?_, fun h => ?_, hval⟩
    · rw [div_lt_one hdm]; exact_mod_cast hr
    · have h1 : (r : ℚ) * 10 ^ 5 < y.mantissa := by exact_mod_cast htiny h
      have h2 : (10 : ℚ) ^ 16 ≤ zm := by exact_mod_cast hq1
      have h3 : (r : ℚ) / y.mantissa * 10 ^ 5 < 1 := by
        rw [div_mul_eq_mul_div, div_lt_one hdm]; exact h1
      simp only
      linarith
  have hdrop' : dropped = true ↔ (r : ℚ) / y.mantissa ≠ 0 := by
    rw [hdrop, ne_eq, ne_eq, div_eq_zero_iff]
    simp [hdm.ne']
  have := doNormalize_correct .u128 mode hc hdrop' (by simp only; omega) hq2 hmin
  rwa [sign_div] at this

/-- Products and quotients of normal Numbers are the correctly rounded exact
ones, unless the operator throws. -/
theorem product_and_quotient_correctly_rounded (hx : x.Normal) (hy : y.Normal) (hx0 : x ≠ kZero) (hy0 : y ≠ kZero) :
    (smallest ≤ |x.val * y.val| →
      (∃ what, timesAssign large330 mode x y = .error (.thrown what)) ∨
        ∃ r, timesAssign large330 mode x y = .ok r ∧ CorrectlyRounded mode (x.val * y.val) r) ∧
    (smallest ≤ |x.val / y.val| →
      (∃ what, divideAssign large330 mode x y = .error (.thrown what)) ∨
        ∃ r, divideAssign large330 mode x y = .ok r ∧ CorrectlyRounded mode (x.val / y.val) r) :=
  ⟨timesAssign_correct mode hx hy hx0 hy0, divideAssign_correct mode hx hy hx0 hy0⟩

/-- A product that does not fit the mantissa, and a quotient with a trailing remainder. -/
theorem product_and_quotient_correctly_rounded_upward :
    CorrectlyRounded .upward (val ⟨false, 2000000000000000001, 0⟩ * val ⟨false, 3000000000000000007, -18⟩)
      ⟨false, 6000000000000000018, 0⟩ ∧
    CorrectlyRounded .upward (val ⟨false, 2000000000000000001, 0⟩ / val ⟨false, 3000000000000000007, -18⟩)
      ⟨false, 6666666666666666655, -1⟩ := by
  have hx : Normal ⟨false, 2000000000000000001, 0⟩ := by decide +kernel
  have hy : Normal ⟨false, 3000000000000000007, -18⟩ := by decide +kernel
  have hle : smallest ≤ 1 := by
    have : (10 : ℚ) ^ kMinExponent ≤ 10 ^ (-18 : Int) := zpow_le_zpow_right₀ (by norm_num) (by decide)
    unfold smallest
    norm_num at this ⊢
    linarith
  obtain ⟨hmul, hdiv⟩ := product_and_quotient_correctly_rounded .upward _ _ hx hy (by decide) (by decide)
  constructor
  · have hrun : timesAssign large330 .upward ⟨false, 2000000000000000001, 0⟩ ⟨false, 3000000000000000007, -18⟩ =
        .ok ⟨false, 6000000000000000018, 0⟩ := by decide +kernel
    rcases hmul (hle.trans (by norm_num [val])) with ⟨what, h⟩ | ⟨r, h, hr⟩
    · rw [hrun] at h; cases h
    · rw [hrun] at h; cases h; exact hr
  · have hrun : divideAssign large330 .upward ⟨false, 2000000000000000001, 0⟩ ⟨false, 3000000000000000007, -18⟩ =
        .ok ⟨false, 6666666666666666655, -1⟩ := by decide +kernel
    rcases hdiv (hle.trans (by norm_num [val])) with ⟨what, h⟩ | ⟨r, h, hr⟩
    · rw [hrun] at h; cases h
    · rw [hrun] at h; cases h; exact hr

end Number

end Rippled.Basics
