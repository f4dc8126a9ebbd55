import Rippled.Basics.RoundUp
import Mathlib.Data.Nat.Log
/-!
# `doNormalize` rounds correctly

`doNormalize` is given an integer mantissa and a flag for a part `f` that was
already cut off. Padding multiplies both by ten, which is why `f` has to be tiny
against a mantissa that is padded. Dropping digits moves them into the guard.
-/

namespace Rippled.Basics

open Lib Guard Number

variable {w : Width} {f a : ℚ} {s : Dropping}

namespace Guard

/-- The mantissa and the guard together stand for the magnitude `a`. -/
structure Stands (s : Dropping) (f a : ℚ) : Prop where
  large : s.guard.IsLarge
  sees : s.guard.Sees f
  value : (s.mantissa + f) * 10 ^ s.exponent = a

theorem value_div_ten (m : Nat) (e : Int) (f : ℚ) :
    (((m / 10 : Nat) : ℚ) + ((m % 10 : Nat) + f) / 10) * 10 ^ (e + 1) = (m + f) * 10 ^ e := by
  have h : ((m / 10 : Nat) : ℚ) * 10 + (m % 10 : Nat) = m := by exact_mod_cast Nat.div_add_mod' m 10
  rw [zpow_add_one₀ (by norm_num), ← h]
  ring

theorem value_mul_ten (m : Nat) (e : Int) (f : ℚ) :
    (((m * 10 : Nat) : ℚ) + f * 10) * 10 ^ (e - 1) = (m + f) * 10 ^ e := by
  rw [zpow_sub_one₀ (by norm_num)]
  push_cast
  ring

/-- Dropping a digit changes neither the magnitude nor what the guard sees, and
makes the guard read it. -/
theorem Stands.doDropDigit (h : Stands s f a) (hs : s.mantissa < w.size) :
    Stands (doDropDigit w s) (((s.mantissa % 10 : Nat) + f) / 10) a ∧
      (Guard.doDropDigit w s).guard.Reads (((s.mantissa % 10 : Nat) + f) / 10) := by
  have hr := h.sees.doPush (Nat.mod_lt s.mantissa (by omega : 10 > 0))
  rw [doDropDigit_eq hs]
  exact ⟨⟨h.large.doPush _, hr.toSees, by rw [← h.value]; exact value_div_ten _ _ _⟩, hr⟩

theorem log_div_ten_lt {m : Nat} (h : 10 ≤ m) : Nat.log 10 (m / 10) < Nat.log 10 m := by
  rw [Nat.log_div_base]
  have := Nat.log_pos (by omega) h
  omega

theorem log_lt_loopFuel {m : Nat} (h : m < w.size) : Nat.log 10 m < loopFuel := by
  have h1 : m < 10 ^ 39 := by
    have : w.size ≤ 10 ^ 39 := by cases w <;> decide
    omega
  exact (Nat.log_lt_of_lt_pow' (by omega) h1).trans (by decide)

end Guard

namespace Number

/-! ## Padding -/

/-- The mantissa and the part `f` cut off before stand for the magnitude `a`; the
part is tiny against a mantissa in range. -/
structure Cut (x : Number) (f a : ℚ) : Prop where
  nonneg : 0 ≤ f
  lt_one : f < 1
  tiny : x.mantissa < 10 ^ 19 → f * 10 ^ 21 ≤ x.mantissa
  value : (x.mantissa + f) * 10 ^ x.exponent = a

theorem growMantissa_ensures {x : Number} (h : Cut x f a) (h0 : x.mantissa ≠ 0) (hs : x.mantissa < w.size) :
    (growMantissa w (10 ^ 18) x).Ensures (fun y => ∃ f', Cut y f' a ∧ (f' = 0 ↔ f = 0) ∧ y.negative = x.negative ∧
      y.mantissa < w.size ∧ (10 ^ 18 ≤ y.mantissa ∨ (y.mantissa < 10 ^ 18 ∧ y.exponent ≤ kMinExponent))) := by
  have hsize := w.lt_size
  refine (Run.whileDo_ensures (fun y : Number => ∃ f', Cut y f' a ∧ (f' = 0 ↔ f = 0) ∧ y.negative = x.negative ∧
      y.mantissa < w.size ∧ y.mantissa ≠ 0) (fun y => 18 - Nat.log 10 y.mantissa) ?_ loopFuel x
      ⟨f, h, Iff.rfl, rfl, hs, h0⟩ (by simp only [loopFuel]; omega)).mono ?_
  · rintro y ⟨f', hc, hf, hn, hy, hy0⟩ hcond
    simp only [decide_eq_true_eq] at hcond
    rw [wrap_of_lt (by omega)]
    have htiny := hc.tiny (by omega)
    have hlt : (y.mantissa : ℚ) < 10 ^ 18 := by exact_mod_cast hcond.1
    refine Run.ensures_ok ⟨⟨f' * 10, ⟨by linarith [hc.nonneg], by linarith, fun _ => ?_, ?_⟩, ?_, hn, ?_, ?_⟩, ?_⟩
    · push_cast; linarith
    · rw [← hc.value]; exact value_mul_ten _ _ _
    · rw [← hf]; simp
    · simp only; omega
    · simp only; omega
    · simp only
      rw [Nat.log_mul_base (by omega) hy0]
      have : Nat.log 10 y.mantissa < 18 := Nat.log_lt_of_lt_pow hy0 hcond.1
      omega
  · rintro y ⟨⟨f', hc, hf, hn, hy, -⟩, hcond⟩
    simp only [decide_eq_false_iff_not, not_and, not_lt] at hcond
    refine ⟨f', hc, hf, hn, hy, ?_⟩
    rcases Nat.lt_or_ge y.mantissa (10 ^ 18) with h | h
    · exact .inr ⟨h, hcond h⟩
    · exact .inl h

/-! ## Dropping digits -/

/-- Dropping digits down to `n + 1` of them keeps the magnitude, and the guard reads what was dropped. -/
theorem shrinkMantissa_reads {n : Nat} (h : s.guard.Sees f) (hv : (s.mantissa + f) * 10 ^ s.exponent = a)
    (hs : s.mantissa < w.size) (hr : s.mantissa < 10 ^ (n + 1) → s.guard.Reads f) :
    (shrinkMantissa w (10 ^ (n + 1) - 1) s).Ensures
    (fun t => ∃ f', t.guard.Reads f' ∧ (t.mantissa + f') * 10 ^ t.exponent = a ∧
      (∃ d x, t.guard = { s.guard with digits := d, xbit := x }) ∧ t.mantissa < 10 ^ (n + 1) ∧
        (t = s ∨ 10 ^ n ≤ t.mantissa) ∧
      t.exponent + Nat.log 10 t.mantissa = s.exponent + Nat.log 10 s.mantissa) := by
  have hpos : 0 < 10 ^ n := Nat.pow_pos (by decide)
  refine (Run.whileDo_ensures (fun t : Dropping => ∃ f', t.guard.Sees f' ∧ (t.mantissa + f') * 10 ^ t.exponent = a ∧
      t.mantissa < w.size ∧ (t.mantissa < 10 ^ (n + 1) → t.guard.Reads f') ∧
      (∃ d x, t.guard = { s.guard with digits := d, xbit := x }) ∧ (t = s ∨ 10 ^ n ≤ t.mantissa) ∧
      t.exponent + Nat.log 10 t.mantissa = s.exponent + Nat.log 10 s.mantissa)
      (fun t => Nat.log 10 t.mantissa) ?_ loopFuel s ⟨f, h, hv, hs, hr, ⟨_, _, rfl⟩, .inl rfl, rfl⟩
        (log_lt_loopFuel hs)).mono ?_
  · rintro t ⟨f', ht, htv, htw, -, ⟨d, x, hg⟩, -, hlog⟩ hcond
    simp only [decide_eq_true_eq] at hcond
    have hten := log_div_ten_lt (m := t.mantissa) (by omega)
    split
    · exact Run.ensures_throw _ _
    · have hread := ht.doPush (Nat.mod_lt t.mantissa (by omega : 10 > 0))
      rw [doDropDigit_eq htw]
      refine Run.ensures_ok ⟨⟨_, hread.toSees, ?_, ?_, fun _ => hread, ⟨_, _, by rw [hg]; rfl⟩, .inr ?_, ?_⟩, hten⟩
      · rw [← htv]; exact value_div_ten _ _ _
      · simp only; omega
      · simp only; omega
      · simp only [Nat.log_div_base] at hten ⊢; omega
  · rintro t ⟨⟨f', ht, htv, -, hr', hg, htm, hlog⟩, hcond⟩
    simp only [decide_eq_false_iff_not] at hcond
    have hlt : t.mantissa < 10 ^ (n + 1) := by omega
    exact ⟨f', hr' hlt, htv, hg, hlt, htm, hlog⟩

/-- With room in the exponent for every digit, dropping digits throws nothing. -/
theorem shrinkMantissa_ok (hs : s.mantissa < w.size) (h : s.exponent + Nat.log 10 s.mantissa ≤ kMaxExponent) {m : Nat}
    (hm : 9 ≤ m) : ∃ t, shrinkMantissa w m s = .ok t := by
  have hloop : ∃ t, shrinkMantissa w m s = .ok t ∧ _ ∧ _ := Run.whileDo_total
    (fun t => t.mantissa < w.size ∧ t.exponent + Nat.log 10 t.mantissa ≤ kMaxExponent)
      (fun t => Nat.log 10 t.mantissa) ?_
    loopFuel s ⟨hs, h⟩ (log_lt_loopFuel hs).le
  · obtain ⟨t, ht, -⟩ := hloop
    exact ⟨t, ht⟩
  · rintro t ⟨htw, hle⟩ hcond
    simp only [decide_eq_true_eq] at hcond
    have hten := log_div_ten_lt (m := t.mantissa) (by omega)
    rw [if_neg (by omega), doDropDigit_eq htw]
    exact ⟨_, rfl, ⟨by simp only; omega, by simp only; omega⟩, hten⟩

theorem shrinkMantissa_ensures (h : Stands s f a) (hs : s.mantissa < w.size)
    (hr : s.mantissa < 10 ^ 19 → s.guard.Reads f) :
    (shrinkMantissa w (10 ^ 19 - 1) s).Ensures (fun t => ∃ f', Stands t f' a ∧ t.guard.Reads f' ∧
      t.guard.sbit = s.guard.sbit ∧ t.mantissa < 10 ^ 19 ∧ (t = s ∨ 10 ^ 18 ≤ t.mantissa)) := by
  refine (shrinkMantissa_reads h.sees h.value hs hr).mono ?_
  rintro t ⟨f', hread, hv, ⟨d, x, hg⟩, hlt, htm, -⟩
  have hlarge : t.guard.IsLarge := by rw [hg]; exact ⟨h.large.fix, h.large.min, h.large.max⟩
  exact ⟨f', ⟨hlarge, hread.toSees, hv⟩, hread, by rw [hg], hlt, htm⟩

/-! ## Rounding -/

theorem normalizeInRange_correct {mode : RoundingMode} {negative : Bool} (h : Stands s f a) (hr : s.guard.Reads f)
    (hn : s.guard.sbit = negative) (hm : s.mantissa < 10 ^ 19) (hlow : 10 ^ 18 ≤ s.mantissa ∨ s.exponent ≤ kMinExponent)
    (hmin : smallest ≤ a) :
    (normalizeInRange w mode negative s).Ensures
      (CorrectlyRounded mode ((if negative then -1 else 1) * a)) := by
  have hK' := kMaxRepUp_eq
  have hsize := w.lt_size
  have hf1 := h.sees.lt_one
  -- a magnitude of at least `smallest` is not flushed to zero
  have hexp : kMinExponent ≤ s.exponent ∧ 10 ^ 18 ≤ s.mantissa := by
    have hlt : a < ((s.mantissa + 1 : Nat) : ℚ) * 10 ^ s.exponent := by
      rw [← h.value]; push_cast; gcongr
    have hlt19 : a < 10 ^ 19 * 10 ^ s.exponent := by
      refine hlt.trans_le ?_
      gcongr
      exact_mod_cast (show s.mantissa + 1 ≤ 10 ^ 19 by omega)
    have he : kMinExponent ≤ s.exponent := by
      by_contra hne
      have h1 : (10 : ℚ) ^ s.exponent * 10 ≤ 10 ^ kMinExponent := pow_mul_ten_le (by omega)
      unfold smallest at hmin
      linarith
    refine ⟨he, ?_⟩
    by_contra hne
    have hee : s.exponent = kMinExponent := by omega
    have h2 : ((s.mantissa + 1 : Nat) : ℚ) * 10 ^ s.exponent ≤ 10 ^ 18 * 10 ^ kMinExponent := by
      rw [hee]
      gcongr
      exact_mod_cast (show s.mantissa + 1 ≤ 10 ^ 18 by omega)
    unfold smallest at hmin
    linarith
  unfold normalizeInRange
  rw [if_neg (by rw [h.large.min]; omega), show repLimit s.guard.cuspRoundingFix = kMaxRepUp by rw [h.large.fix]; rfl]
  split
  · split
    · exact Run.ensures_throw _ _
    · obtain ⟨h1, h2⟩ := h.doDropDigit (w := w) (by omega)
      rw [doDropDigit_eq (by omega)] at h1 h2 ⊢
      have := doRoundUp_correct w mode "Number::normalize 2" h1.large (x := ⟨negative, s.mantissa / 10, s.exponent + 1⟩)
        hn h2 (by right; simp only; omega) (by rw [h1.value]; exact hmin) 62
      rwa [h1.value] at this
  · have := doRoundUp_correct w mode "Number::normalize 2" h.large (x := ⟨negative, s.mantissa, s.exponent⟩)
      hn hr (by left; simp only; omega) (by rw [h.value]; exact hmin) 62
    rwa [h.value] at this

/-- `doNormalize` rounds the magnitude that the mantissa and the part already
cut off stand for. -/
theorem doNormalize_correct (w : Width) (mode : RoundingMode) {x : Number} {dropped : Bool} (h : Cut x f a)
    (hd : dropped = true ↔ f ≠ 0) (h0 : x.mantissa ≠ 0) (hs : x.mantissa < w.size) (hmin : smallest ≤ a) :
    (doNormalize w mode large330.min large330.max large330.cuspRoundingFix dropped x).Ensures
      (CorrectlyRounded mode ((if x.negative then -1 else 1) * a)) := by
  unfold doNormalize
  rw [if_neg h0]
  refine (growMantissa_ensures h h0 hs).bind fun y hy => ?_
  obtain ⟨f', hc, hf, hyn, hyw, hylow⟩ := hy
  rw [← hyn]
  have hd' : dropped = true ↔ f' ≠ 0 := by rw [hd, ne_eq, ne_eq, hf]
  have hlt : y.mantissa < 10 ^ 19 → f' < 1 / 2 := by
    intro hlt
    have h1 := hc.tiny hlt
    have h2 : (y.mantissa : ℚ) < 10 ^ 19 := by exact_mod_cast hlt
    linarith
  have hsees : ({ minMantissa := large330.min, maxMantissa := large330.max, cuspRoundingFix := large330.cuspRoundingFix
                  sbit := y.negative, xbit := dropped } : Guard).Sees f' :=
    ⟨hc.nonneg, hc.lt_one, by simp, by
      rw [empty_iff]
      cases dropped <;> simp_all⟩
  refine (shrinkMantissa_ensures (f := f') (a := a) ⟨⟨rfl, rfl, rfl⟩, hsees, hc.value⟩ hyw fun hlt' =>
    Reads.of_dropped rfl hc.nonneg (hlt hlt') hd').bind fun s hs' => ?_
  obtain ⟨f'', hst, hrd, hsb, hsm, hslow⟩ := hs'
  refine normalizeInRange_correct hst hrd hsb hsm ?_ hmin
  rcases hslow with rfl | h
  · rcases hylow with h | ⟨-, h⟩
    · exact .inl h
    · exact .inr h
  · exact .inl h

end Number

end Rippled.Basics
