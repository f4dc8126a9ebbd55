import Rippled.Basics.Products
/-!
# Addition rounds correctly

`adjust` brings the operands to one exponent. Digits reach the guard only once
the other operand has grown to `10 ^ 21`, so at most one of them is ever pulled
back, and the part left in the guard is a fraction of the last digit.
-/

namespace Rippled.Basics

open Lib Guard Width Run

variable {g : Guard} {f : ℚ} {s : Dropping}

namespace Guard

/-- The last pushed digit can be pulled back: the guard without it sees the rest `f₁`. -/
def Pops (g : Guard) (f : ℚ) : Prop := ∃ f₁, g.pop.2.Sees f₁ ∧ g.pop.1 < 10 ∧ f = (g.pop.1 + f₁) / 10

theorem Sees.pops_doPush (h : g.Sees f) {d : Nat} (hd : d < 10) : (g.doPush d).Pops ((d + f) / 10) := by
  have hl := h.digits_lt
  have hdig := doPush_digits hl hd
  have hlt : (g.doPush d).digits < 2 ^ 64 := by omega
  have htop : (g.doPush d).pop.1 = d := by rw [pop_fst hlt, hdig]; omega
  have hbelow := h.below_doPush d
  refine ⟨f, ⟨h.nonneg, h.lt_one, ?_, ?_⟩, by omega, by rw [htop]⟩
  · rw [pop_digits]; omega
  · rw [empty_iff, pop_digits, hdig, ← hbelow]
    exact and_congr_left fun _ => by omega

/-- An empty digit store may be shifted by any number of places. -/
theorem Sees.pops_of_digits_zero {f' : ℚ} (h : g.Sees f) (hd : g.digits = 0) (h0 : 0 ≤ f') (h1 : f' < 1 / 10)
    (hz : f' = 0 ↔ f = 0) : g.Sees f' ∧ g.Pops f' := by
  have he : g.empty = true ↔ f' = 0 := h.empty.trans hz.symm
  refine ⟨⟨h0, by linarith, h.digits_lt, he⟩, f' * 10, ⟨by linarith, by linarith, ?_, ?_⟩, ?_, ?_⟩
  · rw [pop_digits, hd]; omega
  · rw [empty_iff, pop_digits, hd]
    rw [empty_iff, hd] at he
    have hx : g.pop.2.xbit = g.xbit := rfl
    rw [hx]
    simpa using he
  · rw [pop_fst h.digits_lt, hd]; omega
  · rw [pop_fst h.digits_lt, hd]; simp

@[simp] theorem IsLarge.pop (h : g.IsLarge) : g.pop.2.IsLarge := ⟨h.fix, h.min, h.max⟩

/-! ## Dropping to a target exponent -/

/-- Iterations left in `doDropDigitWithTarget`: the digits of the mantissa, then
those in the guard, then the jump. -/
def dropsLeft (targetExponent : Int) (s : Dropping) : Nat :=
  if targetExponent ≤ s.exponent then 0
  else if s.mantissa = 0 then 1 + (if s.guard.digits = 0 then 0 else 1 + Nat.log 16 s.guard.digits)
  else 19 + Nat.log 10 s.mantissa

theorem dropsLeft_doPush_zero (hg : g.digits < 2 ^ 64) {d : Nat} (hd : d < 10) (t e : Int) :
    dropsLeft t ⟨g.doPush d, 0, e⟩ < 19 := by
  have hlt : (g.doPush d).digits < 16 ^ 16 := by rw [doPush_digits hg hd]; omega
  have := Nat.log_lt_of_lt_pow' (by omega) hlt
  simp only [dropsLeft, if_true]
  repeat' split
  all_goals omega

variable {t : Int}

theorem dropsLeft_step (hg : g.digits < 2 ^ 64) {m : Nat} {e : Int} (ht : e < t) (hne : ¬ (m = 0 ∧ g.digits = 0)) :
    dropsLeft t ⟨g.doPush (m % 10), m / 10, e + 1⟩ < dropsLeft t ⟨g, m, e⟩ := by
  have hd : m % 10 < 10 := Nat.mod_lt _ (by omega)
  by_cases hm : m = 0
  · have hg0 : g.digits ≠ 0 := fun h => hne ⟨hm, h⟩
    have hdig := doPush_digits hg hd
    subst hm
    simp only [Nat.zero_mod, Nat.zero_mul, Nat.add_zero] at hdig
    simp only [dropsLeft, Nat.zero_div, Nat.zero_mod, if_true, hdig, hg0, if_false, if_neg (not_le.2 ht)]
    have hlog : g.digits / 16 ≠ 0 → Nat.log 16 (g.digits / 16) < Nat.log 16 g.digits := by
      intro h
      rw [Nat.log_div_base]
      have := Nat.log_pos (b := 16) (by omega) (show 16 ≤ g.digits by omega)
      omega
    split
    · omega
    · split
      · omega
      · rename_i h; have := hlog h; omega
  · by_cases hm' : m / 10 = 0
    · have h1 := dropsLeft_doPush_zero hg hd t (e + 1)
      rw [hm']
      have h2 : dropsLeft t ⟨g, m, e⟩ = 19 + Nat.log 10 m := by
        simp only [dropsLeft, if_neg hm, if_neg (not_le.2 ht)]
      omega
    · have hlog := log_div_ten_lt (show 10 ≤ m by omega)
      simp only [dropsLeft, if_neg hm, if_neg hm', if_neg (not_le.2 ht)]
      split <;> omega

/-- What the loop keeps as it drops digits, and when it jumps at the end, holds of its result. -/
theorem doDropDigitWithTarget_induct {w : Width} (Inv : Dropping → Prop)
    (hbound : ∀ g m e, Inv ⟨g, m, e⟩ → g.digits < 2 ^ 64 ∧ m < w.size ∧ e ≤ t)
    (hjump : ∀ g e, Inv ⟨g, 0, e⟩ → e < t → g.digits = 0 → Inv ⟨g, 0, t⟩)
    (hdrop : ∀ g m e, Inv ⟨g, m, e⟩ → e < t → Inv ⟨g.doPush (m % 10), m / 10, e + 1⟩) (hs : Inv s)
    (hm : s.mantissa < 10 ^ 19) : ∃ g m, doDropDigitWithTarget w t s = .ok ⟨g, m, t⟩ ∧ Inv ⟨g, m, t⟩ := by
  have hfuel : dropsLeft t s ≤ loopFuel := by
    have h1 : Nat.log 10 s.mantissa < 19 := Nat.log_lt_of_lt_pow' (by omega) hm
    have h2 : Nat.log 16 s.guard.digits < 16 :=
      Nat.log_lt_of_lt_pow' (by omega) (by have := (hbound _ _ _ hs).1; omega)
    simp only [dropsLeft, loopFuel]
    repeat' split
    all_goals omega
  have hloop := @whileDo_total String Dropping (fun s => decide (s.exponent < t))
    (fun s => if s.mantissa = 0 ∧ s.guard.unrecoverable then .ok { s with exponent := t } else .ok (doDropDigit w s))
    Inv (dropsLeft t) ?_ loopFuel s hs hfuel
  · obtain ⟨⟨g, m, e⟩, hu, hinv, hcond⟩ := hloop
    simp only [decide_eq_false_iff_not] at hcond
    obtain rfl : e = t := by
      have := (hbound _ _ _ hinv).2.2
      omega
    exact ⟨g, m, hu, hinv⟩
  · rintro ⟨g, m, e⟩ hinv hcond
    simp only [decide_eq_true_eq] at hcond ⊢
    obtain ⟨hdigits, hsize, -⟩ := hbound _ _ _ hinv
    split
    · rename_i hz
      obtain ⟨rfl, hg0⟩ := hz
      have hg0' : g.digits = 0 := by simpa [unrecoverable] using hg0
      refine ⟨_, rfl, hjump g e hinv hcond hg0', ?_⟩
      simp only [dropsLeft, le_refl, if_true, hg0', if_neg (not_le.2 hcond)]
      omega
    · rename_i hz
      rw [doDropDigit_eq hsize]
      exact ⟨_, rfl, hdrop g m e hinv hcond, dropsLeft_step hdigits hcond (by simpa [unrecoverable] using hz)⟩

theorem Sees.jump (h : g.Sees f) {e : Int} (ht : e < t) :
    (0 ≤ f * 10 ^ (e - t) ∧ f * 10 ^ (e - t) < 1 / 10) ∧ (f * 10 ^ (e - t) = 0 ↔ f = 0) ∧
      f * 10 ^ (e - t) * 10 ^ t = f * 10 ^ e := by
  have hpow : (0 : ℚ) < 10 ^ (e - t) := by positivity
  have hpow' : (10 : ℚ) ^ (e - t) ≤ 1 / 10 := by
    calc (10 : ℚ) ^ (e - t) ≤ 10 ^ (-1 : Int) := zpow_le_zpow_right₀ (by norm_num) (by omega)
      _ = 1 / 10 := by norm_num
  have h0 := h.nonneg
  have h1 := h.lt_one
  refine ⟨⟨by positivity, by nlinarith⟩, by simp [hpow.ne'], ?_⟩
  rw [mul_assoc, ← zpow_add₀ (by norm_num), sub_add_cancel]

/-- Dropping digits to a target exponent keeps the magnitude. The guard reads what was dropped, and the last digit can
be pulled back. -/
theorem doDropDigitWithTarget_reads (w : Width) {a : ℚ} (hf : s.guard.Sees f)
    (hv : (s.mantissa + f) * 10 ^ s.exponent = a) (ht : s.exponent < t) (hm : s.mantissa < 10 ^ 19) :
    ∃ g m f', doDropDigitWithTarget w t s = .ok ⟨g, m, t⟩ ∧
      (∃ d b, g = { s.guard with digits := d, xbit := b }) ∧ g.Reads f' ∧
      (m + f') * 10 ^ t = a ∧ g.Pops f' ∧ m < 10 ^ 18 := by
  have hloop := doDropDigitWithTarget_induct (w := w) (t := t)
    (fun u : Dropping => u.exponent ≤ t ∧ u.mantissa < 10 ^ 19 ∧
      (∃ d b, u.guard = { s.guard with digits := d, xbit := b }) ∧
      ∃ f', u.guard.Sees f' ∧ (u.mantissa + f') * 10 ^ u.exponent = a ∧
        (u.exponent = s.exponent ∨ (u.guard.Reads f' ∧ u.guard.Pops f' ∧ u.mantissa < 10 ^ 18)))
    ?_ ?_ ?_ ⟨ht.le, hm, ⟨_, _, rfl⟩, f, hf, hv, .inl rfl⟩ hm
  · obtain ⟨g, m, hrun, -, -, hg, f', -, hval, hdropped⟩ := hloop
    obtain ⟨hreads, hpops, hlt⟩ := hdropped.resolve_left ht.ne'
    exact ⟨g, m, f', hrun, hg, hreads, hval, hpops, hlt⟩
  · rintro g m e ⟨hle, hm19, -, f', hu, -⟩
    exact ⟨hu.digits_lt, hm19.trans w.lt_size, hle⟩
  · rintro g e ⟨-, hm19, hg, f', hu, hval, -⟩ hlt hg0
    obtain ⟨⟨h0, h1⟩, hzero, hjump⟩ := hu.jump hlt
    obtain ⟨hu', hpops⟩ := hu.pops_of_digits_zero hg0 h0 h1 hzero
    have hx : g.xbit = true ↔ f' * 10 ^ (e - t) ≠ 0 := by
      have hempty := hu'.empty
      rw [empty_iff] at hempty
      simp only [ne_eq, ← hempty, hg0, true_and, Bool.not_eq_false]
    refine ⟨le_refl _, hm19, hg, _, hu', ?_, .inr ⟨Reads.of_dropped hg0 h0 (by linarith) hx, hpops, by simp⟩⟩
    rw [← hval]
    simpa using hjump
  · rintro g m e ⟨-, hm19, ⟨d, b, hg⟩, f', hu, hval, -⟩ hlt
    have hd : m % 10 < 10 := Nat.mod_lt m (by omega)
    have hreads := hu.doPush hd
    simp only at hm19 hg
    refine ⟨by simp only; omega, by simp only; omega, ⟨_, _, by rw [hg]; rfl⟩, _, hreads.toSees, ?_,
      .inr ⟨hreads, hu.pops_doPush hd, by simp only; omega⟩⟩
    rw [← hval]
    exact value_div_ten _ _ _

end Guard

namespace Number

/-! ## Bringing the exponents into agreement -/

/-- Both operands on one scale: they stand for the magnitudes `E` and `S`, with
the part `f` of the second in the guard. A part is only cut off once the first
operand has grown large. -/
structure Adjusted (a : Adjust) (f E S : ℚ) : Prop where
  large : a.guard.IsLarge
  sees : a.guard.Sees f
  exponents : a.shrinkE = a.expandE
  minExponent : kMinExponent ≤ a.expandE
  expand : a.expandM * 10 ^ a.expandE = E
  shrink : (a.shrinkM + f) * 10 ^ a.shrinkE = S
  expand_lt : a.expandM < 10 ^ 22
  shrink_lt : a.shrinkM < 10 ^ 19
  cut : f ≠ 0 → 10 ^ 21 ≤ a.expandM ∧ a.shrinkM < 10 ^ 18 ∧ kMinExponent < a.expandE ∧ a.guard.Pops f

/-- What `adjust` starts from, and keeps in its first two steps. -/
structure Adjusting (a : Adjust) (g : Guard) (E S : ℚ) : Prop where
  guard : a.guard = g
  exponents : a.shrinkE ≤ a.expandE
  minExponent : kMinExponent ≤ a.shrinkE
  expand : a.expandM * 10 ^ a.expandE = E
  shrink : a.shrinkM * 10 ^ a.shrinkE = S
  expand_pos : 0 < a.expandM
  expand_lt : a.expandM < 10 ^ 22
  shrink_pos : 0 < a.shrinkM
  shrink_lt : a.shrinkM < 10 ^ 19

variable {a : Adjust} {E S : ℚ}

theorem dropZeros_ensures (h : Adjusting a g E S) (hd : g.digits = 0) (hx : g.xbit = false) :
    (dropZeros a).Ensures (fun b => Adjusting b g E S) := by
  refine (whileDo_ensures (fun b => Adjusting b g E S) (fun b => Nat.log 10 b.shrinkM) ?_ loopFuel a h
    (log_lt_loopFuel (w := .u64) (by have := h.shrink_lt; simp only [size]; omega))).mono fun b hb => hb.1
  intro b hb hcond
  simp only [decide_eq_true_eq] at hcond
  have h1 := hb.shrink_lt
  have h2 := hb.shrink_pos
  have h3 := hb.minExponent
  rw [doDropDigit_eq (by simp only [size, Adjust.shrinking]; omega)]
  simp only [Adjust.shrinking, Adjust.shrunk, hcond.2, hb.guard, doPush_zero hd hx]
  refine ensures_ok ⟨⟨rfl, ?_, ?_, hb.expand, ?_, hb.expand_pos, hb.expand_lt, ?_, ?_⟩, log_div_ten_lt (by omega)⟩
  · simp only; omega
  · simp only; omega
  · have hv := value_div_ten b.shrinkM b.shrinkE 0
    rw [hcond.2] at hv
    rw [← hb.shrink]
    simpa using hv
  · simp only; omega
  · simp only; omega

theorem expand_ensures (h : Adjusting a g E S) :
    (expand (10 ^ 21) a).Ensures (fun b => Adjusting b g E S ∧ (b.shrinkE = b.expandE ∨ 10 ^ 21 ≤ b.expandM)) := by
  refine (whileDo_ensures (fun b => Adjusting b g E S) (fun b => 21 - Nat.log 10 b.expandM) ?_ loopFuel a h
    (by simp only [loopFuel]; omega)).mono ?_
  · intro b hb hcond
    simp only [decide_eq_true_eq] at hcond
    have h1 := hb.expand_pos
    rw [wrap_of_lt (by simp only [size]; omega)]
    refine ensures_ok ⟨⟨hb.guard, ?_, hb.minExponent, ?_, hb.shrink, ?_, ?_, hb.shrink_pos, hb.shrink_lt⟩, ?_⟩
    · simp only; omega
    · rw [← hb.expand]
      simpa using value_mul_ten b.expandM b.expandE 0
    · simp only; omega
    · simp only; omega
    · simp only
      rw [Nat.log_mul_base (by omega) (by omega)]
      have : Nat.log 10 b.expandM < 21 := Nat.log_lt_of_lt_pow (by omega) hcond.2.2
      omega
  · rintro b ⟨hb, hcond⟩
    simp only [decide_eq_false_iff_not] at hcond
    have h1 := hb.exponents
    have h2 := hb.minExponent
    exact ⟨hb, by omega⟩

theorem shrink_ensures (hg : g.IsLarge) (hr : g.Reads 0) (h : Adjusting a g E S)
    (hbig : a.shrinkE = a.expandE ∨ 10 ^ 21 ≤ a.expandM) :
    (shrink a).Ensures (fun b => b.guard.sbit = g.sbit ∧ ∃ f, Adjusted b f E S) := by
  have hguard := h.guard
  unfold shrink
  split
  · rename_i hlt
    obtain ⟨g', m, f, hrun, ⟨d, b, rfl⟩, hreads, hval, hpops, hm⟩ := doDropDigitWithTarget_reads .u128
        (s := a.shrinking) (f := 0) (a := S)
      (by rw [Adjust.shrinking, hguard]; exact hr.toSees) (by rw [add_zero]; exact h.shrink) hlt h.shrink_lt
    have hmin := h.minExponent
    rw [hrun]
    refine ensures_ok ⟨by rw [← hguard]; rfl, f, ?_, hreads.toSees, rfl, ?_, h.expand, hval, h.expand_lt, ?_,
      fun _ => ⟨?_, hm, ?_, hpops⟩⟩
    · rw [← hguard] at hg
      exact ⟨hg.fix, hg.min, hg.max⟩
    · simp only [Adjust.shrunk]; omega
    · simp only [Adjust.shrunk]; omega
    · simp only [Adjust.shrunk]; omega
    · simp only [Adjust.shrunk]; omega
  · have h1 := h.exponents
    have h2 := h.minExponent
    refine ensures_ok ⟨by rw [hguard], 0, by rw [hguard]; exact hg, by rw [hguard]; exact hr.toSees, by omega,
      by omega, h.expand, by rw [add_zero]; exact h.shrink, h.expand_lt, h.shrink_lt, fun h => absurd rfl h⟩

theorem adjust_ensures (hg : a.guard.IsLarge) (hd : a.guard.digits = 0) (hx : a.guard.xbit = false)
    (h : Adjusting a a.guard E S) :
    (adjust (10 ^ 21) a).Ensures (fun b => b.guard.sbit = a.guard.sbit ∧ ∃ f, Adjusted b f E S) := by
  unfold adjust
  rw [if_pos hg.fix]
  refine (dropZeros_ensures h hd hx).bind fun b hb => ?_
  refine (expand_ensures hb).bind fun c hc => ?_
  exact shrink_ensures hg (Reads.of_zero hd hx) hc.1 hc.2

/-- Both operands on one scale, standing for the magnitudes `X` and `Y` but for
the part `f` of the smaller one. -/
structure AlignedTo (a : Aligned) (f X Y : ℚ) : Prop where
  large : a.guard.IsLarge
  sees : a.guard.Sees f
  exponents : a.ye = a.xe
  minExponent : kMinExponent ≤ a.xe
  xm_lt : a.xm < 10 ^ 22
  ym_lt : a.ym < 10 ^ 22
  sum : (a.xm + a.ym + f) * 10 ^ a.xe = X + Y
  xDiff : a.ym < a.xm → (a.xm - a.ym - f) * 10 ^ a.xe = X - Y
  yDiff : a.xm ≤ a.ym → (a.ym - a.xm - f) * 10 ^ a.xe = Y - X
  cut : f ≠ 0 → kMinExponent < a.xe ∧ a.guard.Pops f ∧
    (10 ^ 21 ≤ a.xm ∧ a.ym < 10 ^ 18 ∨ 10 ^ 21 ≤ a.ym ∧ a.xm < 10 ^ 18)

theorem Adjusted.alignedTo (h : Adjusted a f E S) :
    AlignedTo ⟨a.guard, a.shrinkM, a.shrinkE, a.expandM, a.expandE⟩ f S E ∧
      AlignedTo ⟨a.guard, a.expandM, a.expandE, a.shrinkM, a.shrinkE⟩ f E S := by
  have he := h.exponents
  have h1 := h.minExponent
  have h2 := h.expand_lt
  have h3 := h.shrink_lt
  have hE := h.expand
  have hS := h.shrink
  rw [he] at hS
  -- with a part cut off, the operand that grew is the larger one
  have hle : a.expandM ≤ a.shrinkM → f = 0 := fun hle => by
    by_contra hne
    obtain ⟨h4, h5, -⟩ := h.cut hne
    omega
  constructor
  · refine ⟨h.large, h.sees, he.symm, by simp only; omega, by simp only; omega, h2, ?_, ?_, ?_, fun hne => ?_⟩
    · simp only [he]; rw [← hE, ← hS]; ring
    · intro hlt
      simp only at hlt
      simp only [he]; rw [← hE, ← hS, hle hlt.le]; ring
    · intro _
      simp only [he]; rw [← hE, ← hS]; ring
    · obtain ⟨h4, h5, h6, h7⟩ := h.cut hne
      exact ⟨by simp only; omega, h7, .inr ⟨h4, h5⟩⟩
  · refine ⟨h.large, h.sees, he, h1, h2, by simp only; omega, ?_, ?_, ?_, fun hne => ?_⟩
    · simp only; rw [← hE, ← hS]; ring
    · intro _
      simp only; rw [← hE, ← hS]; ring
    · intro hge
      simp only at hge
      simp only; rw [← hE, ← hS, hle hge]; ring
    · obtain ⟨h4, h5, h6, h7⟩ := h.cut hne
      exact ⟨h6, h7, .inl ⟨h4, h5⟩⟩

variable {x : Number}

theorem adjust_normal {y : Number} (hx : x.Normal) (hy : y.Normal) (hx0 : x ≠ kZero) (hy0 : y ≠ kZero)
    (hlt : x.exponent < y.exponent) :
    (adjust (10 ^ 21) ⟨if x.negative then (Guard.ofRange large330).setNegative else Guard.ofRange large330,
      y.mantissa, y.exponent, x.mantissa, x.exponent⟩).Ensures (fun b => ∃ f, Adjusted b f |y.val| |x.val|) := by
  obtain ⟨hx1, hx2, hx3⟩ := bounds_of_normal hx hx0
  obtain ⟨hy1, hy2, -⟩ := bounds_of_normal hy hy0
  refine (adjust_ensures ?_ ?_ ?_ ⟨rfl, hlt.le, hx3, (abs_val y).symm, (abs_val x).symm, ?_, ?_, ?_, hx2⟩).mono
    fun b hb => hb.2
  · split <;> exact ⟨rfl, rfl, rfl⟩
  · split <;> rfl
  · split <;> rfl
  all_goals
    simp only
    omega

theorem align_ensures {y : Number} (hx : x.Normal) (hy : y.Normal) (hx0 : x ≠ kZero) (hy0 : y ≠ kZero) :
    (align (Guard.ofRange large330) x y).Ensures (fun a => ∃ f, AlignedTo a f |x.val| |y.val|) := by
  obtain ⟨-, hx2, hx3⟩ := bounds_of_normal hx hx0
  obtain ⟨-, hy2, -⟩ := bounds_of_normal hy hy0
  have hlimit : (Guard.ofRange large330).minMantissa * 1000 = 10 ^ 21 := rfl
  unfold align
  simp only [hlimit]
  split
  · rename_i hlt
    exact (adjust_normal hx hy hx0 hy0 hlt).bind fun b ⟨f, hf⟩ => ensures_ok ⟨f, hf.alignedTo.1⟩
  · split
    · rename_i hgt
      exact (adjust_normal hy hx hy0 hx0 hgt).bind fun b ⟨f, hf⟩ => ensures_ok ⟨f, hf.alignedTo.2⟩
    · have he : y.exponent = x.exponent := by omega
      refine ensures_ok ⟨0, ?_, ?_, he, hx3, ?_, ?_, ?_, fun _ => ?_, fun _ => ?_, fun h => absurd rfl h⟩
      · split <;> exact ⟨rfl, rfl, rfl⟩
      · split <;> exact (Reads.of_zero rfl rfl).toSees
      · simp only; omega
      · simp only; omega
      all_goals
        rw [abs_val, abs_val, he]
        simp only
        ring

/-! ## Adding and subtracting -/

theorem popDigits_ensures {A : ℚ} (hg : s.guard.IsLarge) (hf : s.guard.Sees f)
    (hA : (s.mantissa - f) * 10 ^ s.exponent = A) (he : kMinExponent ≤ s.exponent) (hm : s.mantissa < 10 ^ 22)
    (hcut : f ≠ 0 → 10 ^ 21 ≤ s.mantissa + 10 ^ 18 ∧ kMinExponent < s.exponent ∧ s.guard.Pops f) :
    (popDigits (fun g xm => decide (xm < g.minMantissa * 1000) && !g.empty) s).Ensures
      (fun t => ∃ f', t.guard.IsLarge ∧ t.guard.Sees f' ∧ (t.mantissa - f') * 10 ^ t.exponent = A ∧
        kMinExponent ≤ t.exponent ∧ t.mantissa < 10 ^ 22 ∧ (f' ≠ 0 → 10 ^ 21 ≤ t.mantissa)) := by
  refine (whileDo_ensures (fun t : Dropping => ∃ f', t.guard.IsLarge ∧ t.guard.Sees f' ∧
      (t.mantissa - f') * 10 ^ t.exponent = A ∧ kMinExponent ≤ t.exponent ∧ t.mantissa < 10 ^ 22 ∧
      (f' ≠ 0 → 10 ^ 21 ≤ t.mantissa + 10 ^ 18) ∧
      (f' ≠ 0 → t.mantissa < 10 ^ 21 → kMinExponent < t.exponent ∧ t.guard.Pops f'))
      (fun t => if t.mantissa < 10 ^ 21 then 1 else 0) ?_ loopFuel s
      ⟨f, hg, hf, hA, he, hm, fun h => (hcut h).1, fun h _ => (hcut h).2⟩ ?_).mono ?_
  · rintro t ⟨f', hg, hf, hA, he, hm, hbig, hpop⟩ hcond
    simp only [hg.min, Bool.and_eq_true, decide_eq_true_eq, Bool.not_eq_true'] at hcond
    have hne : f' ≠ 0 := fun h => by simp [hf.empty.2 h] at hcond
    obtain ⟨hexp, f₁, hsees, hd, rfl⟩ := hpop hne hcond.1
    have hbig := hbig hne
    generalize t.guard.pop.1 = d at *
    have hval : u128.wrap (u128.wrap (t.mantissa * 10) + u128.size - d) = t.mantissa * 10 - d := by
      rw [wrap_of_lt (w := .u128) (n := t.mantissa * 10) (by simp only [size]; omega),
        show t.mantissa * 10 + u128.size - d = t.mantissa * 10 - d + u128.size by omega]
      simp only [wrap, Nat.add_mod_right]
      exact Nat.mod_eq_of_lt (by simp only [size]; omega)
    rw [hval]
    refine ensures_ok ⟨⟨f₁, hg.pop, hsees, ?_, ?_, ?_, fun _ => ?_, fun _ h => ?_⟩, ?_⟩
    · rw [← hA, zpow_sub_one₀ (by norm_num)]
      push_cast [show d ≤ t.mantissa * 10 by omega]
      ring
    · simp only; omega
    · simp only; omega
    · simp only; omega
    · simp only at h; omega
    · simp only
      rw [if_neg (by omega), if_pos (by omega)]
      omega
  · simp only [loopFuel]
    split <;> omega
  · rintro t ⟨⟨f', hg, hf, hA, he, hm, -, -⟩, hcond⟩
    refine ⟨f', hg, hf, hA, he, hm, fun hne => ?_⟩
    have hem : t.guard.empty = false := by
      cases h : t.guard.empty
      · rfl
      · exact absurd (hf.empty.1 h) hne
    simpa [hg.min, hem] using hcond

variable (mode : RoundingMode)

/-- Subtracting one and flagging the rest is exact: `(m - 1) + (1 - f) = m - f`. -/
theorem doRoundDown_cut {A : ℚ} (hg : g.IsLarge) (hf : g.Sees f) (hA : (x.mantissa - f) * 10 ^ x.exponent = A)
    (he : kMinExponent ≤ x.exponent) (hm : x.mantissa < 10 ^ 22) (hbig : f ≠ 0 → 10 ^ 21 ≤ x.mantissa)
    (hmin : smallest ≤ A) :
    ∃ f', Cut (g.doRoundDown .u128 mode x) f' A ∧ (f' = 0 ↔ f = 0) ∧
      (g.doRoundDown .u128 mode x).negative = x.negative ∧ (g.doRoundDown .u128 mode x).mantissa ≠ 0 ∧
      (g.doRoundDown .u128 mode x).mantissa < 10 ^ 22 := by
  have hpos : 0 < A := by
    have : (0 : ℚ) < smallest := by unfold smallest; positivity
    linarith
  have hexact := round_exact hg.fix hf mode
  unfold doRoundDown
  simp only [hg.fix, CuspRoundingFix.enabled330OrLater, if_true]
  by_cases h0 : f = 0
  · rw [if_neg (by simp [hexact.2 h0])]
    subst h0
    rw [sub_zero] at hA
    have hm0 : x.mantissa ≠ 0 := by
      intro h; rw [h] at hA; simp at hA; linarith
    rcases Nat.lt_or_ge x.mantissa (10 ^ 18) with hlt | hge
    · have hexp : kMinExponent < x.exponent := by
        by_contra hle
        have hee : x.exponent = kMinExponent := by omega
        have : (x.mantissa : ℚ) < 10 ^ 18 := by exact_mod_cast hlt
        have hp : (0 : ℚ) < 10 ^ kMinExponent := by positivity
        rw [← hA, hee, smallest] at hmin
        nlinarith
      rw [bringIntoRange_of_lt (hlt.trans_eq hg.min.symm) (by omega) (by simp only [size]; omega) hexp]
      refine ⟨0, ⟨le_refl _, by norm_num, fun _ => by simp, ?_⟩, Iff.rfl, rfl, by simp only; omega, by simp only; omega⟩
      rw [← hA]
      simpa using value_mul_ten x.mantissa x.exponent 0
    · rw [bringIntoRange_of_ge (hg.min.trans_le hge) (by omega) he]
      exact ⟨0, ⟨le_refl _, by norm_num, fun _ => by simp, by rw [add_zero]; exact hA⟩, Iff.rfl, rfl, hm0, hm⟩
  · rw [if_pos (fun h => h0 (hexact.1 h))]
    have hb := hbig h0
    have hdec : u128.wrap (x.mantissa + u128.size - 1) = x.mantissa - 1 := by
      rw [show x.mantissa + u128.size - 1 = x.mantissa - 1 + u128.size by omega]
      simp only [wrap, Nat.add_mod_right]
      exact Nat.mod_eq_of_lt (by simp only [size]; omega)
    rw [hdec, bringIntoRange_of_ge (x := ⟨x.negative, x.mantissa - 1, x.exponent⟩) (by rw [hg.min]; simp only; omega)
      (by simp only; omega) he]
    have hf0 : 0 < f := lt_of_le_of_ne hf.nonneg (Ne.symm h0)
    have hf1 := hf.lt_one
    refine ⟨1 - f, ⟨by linarith, by linarith, fun h => by simp only at h; omega, ?_⟩, ?_, rfl, by simp only; omega,
      by simp only; omega⟩
    · rw [← hA]
      push_cast [show 1 ≤ x.mantissa by omega]
      ring
    · constructor
      · intro h; linarith
      · intro h; exact absurd h h0

/-- What `combine` hands to `doNormalize`: a magnitude `A` and its sign. -/
theorem combine_ensures {mode : RoundingMode} {xn yn : Bool} {a : Aligned} {X Y : ℚ} (h : AlignedTo a f X Y)
    (hmin : smallest ≤ |(if xn then -1 else 1) * X + (if yn then -1 else 1) * Y|) (hX : 0 ≤ X) (hY : 0 ≤ Y) :
    (combine mode xn yn a).Ensures (fun p => ∃ f' A, Cut p.2 f' A ∧ ((!p.1.empty) = true ↔ f' ≠ 0) ∧
      p.2.mantissa ≠ 0 ∧ p.2.mantissa < Width.u128.size ∧ smallest ≤ A ∧
      (if p.2.negative then -1 else 1) * A = (if xn then -1 else 1) * X + (if yn then -1 else 1) * Y) := by
  have h0 : (0 : ℚ) < smallest := by unfold smallest; positivity
  have hx := h.xm_lt
  have hy := h.ym_lt
  have hseen {g : Guard} {q : ℚ} (hs : g.Sees q) : (!g.empty) = true ↔ q ≠ 0 := by
    rw [Bool.not_eq_true', ← Bool.not_eq_true, hs.empty]
  unfold combine
  simp only [h.large.fix, CuspRoundingFix.enabled330OrLater, if_true]
  by_cases hn : xn = yn
  · subst hn
    rw [if_pos rfl, wrap_of_lt (by simp only [size]; omega)]
    have hA : |(if xn = true then -1 else 1) * X + (if xn = true then -1 else 1) * Y| = X + Y := by
      rw [← mul_add, abs_mul, abs_of_nonneg (add_nonneg hX hY)]
      cases xn <;> simp
    rw [hA] at hmin
    have hsum := h.sum
    have hsmall : a.xm + a.ym < 10 ^ 19 → f = 0 := fun hlt => by
      by_contra hne
      obtain ⟨-, -, hb⟩ := h.cut hne
      omega
    refine ensures_ok ⟨f, X + Y, ⟨h.sees.nonneg, h.sees.lt_one, fun hlt => ?_, ?_⟩, hseen h.sees, ?_, ?_, hmin,
      mul_add _ _ _⟩
    · rw [hsmall hlt, zero_mul]; positivity
    · rw [← hsum]; push_cast; ring
    · intro hz
      simp only at hz
      have hz' : ((a.xm : ℚ) + a.ym) = 0 := by exact_mod_cast hz
      rw [hz', hsmall (by omega)] at hsum
      simp only [add_zero, zero_mul] at hsum
      linarith
    · simp only [size]; omega
  · rw [if_neg hn]
    -- the larger operand gives the sign
    obtain ⟨x, hxe, he, hm, hbig, hA⟩ : ∃ x : Number,
        (if a.xm > a.ym then ⟨xn, a.xm - a.ym, a.xe⟩ else ⟨yn, a.ym - a.xm, a.ye⟩ : Number) = x ∧
        x.exponent = a.xe ∧ (x.mantissa < 10 ^ 22 ∧ (f ≠ 0 → 10 ^ 21 ≤ x.mantissa + 10 ^ 18) ∧
          (if x.negative then -1 else 1) * ((x.mantissa - f) * 10 ^ a.xe) =
            (if xn then -1 else 1) * X + (if yn then -1 else 1) * Y) := by
      refine ⟨_, rfl, ?_⟩
      split
      · rename_i hlt
        refine ⟨rfl, by simp only; omega, fun hne => ?_, ?_⟩
        · obtain ⟨-, -, hb⟩ := h.cut hne
          simp only; omega
        · have := h.xDiff hlt
          push_cast [hlt.le]
          rw [this]
          cases xn <;> cases yn <;> simp_all
          all_goals ring
      · rename_i hge
        refine ⟨h.exponents, by simp only; omega, fun hne => ?_, ?_⟩
        · obtain ⟨-, -, hb⟩ := h.cut hne
          simp only; omega
        · have := h.yDiff (not_lt.1 hge)
          push_cast [not_lt.1 hge]
          rw [this]
          cases xn <;> cases yn <;> simp_all
          all_goals ring
    rw [hxe]
    -- so the value is the magnitude with that sign, and the magnitude is positive
    have hpos : 0 ≤ ((x.mantissa : ℚ) - f) * 10 ^ a.xe := by
      have hle : f ≤ x.mantissa := by
        by_cases hne : f = 0
        · rw [hne]; positivity
        · have h1 := hbig hne
          have h2 : (1 : ℚ) ≤ x.mantissa := by exact_mod_cast (show 1 ≤ x.mantissa by omega)
          linarith [h.sees.lt_one]
      have : (0 : ℚ) ≤ x.mantissa - f := by linarith
      positivity
    rw [← hA] at hmin
    have hmin' : smallest ≤ ((x.mantissa : ℚ) - f) * 10 ^ a.xe := by
      rw [abs_mul, abs_of_nonneg hpos] at hmin
      cases hxn : x.negative <;> simpa [hxn] using hmin
    rw [← he] at hmin' hA
    have hexp := h.minExponent
    refine (popDigits_ensures (s := ⟨a.guard, x.mantissa, x.exponent⟩) h.large h.sees rfl (by rw [he]; exact hexp) hm
      fun hne => ?_).bind fun t ht => ?_
    · obtain ⟨h1, h2, -⟩ := h.cut hne
      exact ⟨hbig hne, by rw [he]; exact h1, h2⟩
    · obtain ⟨f', hg', hs', hA', he', hm', hb'⟩ := ht
      obtain ⟨f'', hc, hz, hneg, hne0, hlt⟩ := doRoundDown_cut mode hg' hs' (x := ⟨x.negative, t.mantissa, t.exponent⟩)
        hA' he' hm' hb' hmin'
      refine ensures_ok ⟨f'', _, hc, ?_, hne0, ?_, hmin', ?_⟩
      · rw [hseen hs', ne_eq, ne_eq, hz]
      · simp only [size]; omega
      · rw [hneg]; exact hA

theorem correctlyRounded_self (hx : x.Normal) : CorrectlyRounded mode x.val x := by
  have hmem : x.val ∈ normals := ⟨x, hx, rfl⟩
  refine ⟨hx, ?_⟩
  cases mode with
  | toNearest =>
    refine ⟨⟨hmem, fun s _ => by simp⟩, fun n _ hne hd => ?_⟩
    rw [sub_self, abs_zero] at hd
    exact absurd (sub_eq_zero.1 (abs_eq_zero.1 hd)) hne
  | towardsZero => exact ⟨hmem, mul_self_nonneg _, le_refl _, fun s _ _ h => h⟩
  | downward => exact ⟨⟨hmem, le_refl _⟩, fun s hs => hs.2⟩
  | upward => exact ⟨⟨hmem, le_refl _⟩, fun s hs => hs.2⟩

theorem sign_mul_abs_val (x : Number) : (if x.negative then -1 else 1) * |x.val| = x.val := by
  conv_rhs => rw [val_eq_sign x]
  cases x.negative <;> simp

theorem plusAssign_correct {y : Number} (hx : x.Normal) (hy : y.Normal) (hmin : smallest ≤ |x.val + y.val|) :
    (plusAssign large330 mode x y).Ensures (CorrectlyRounded mode (x.val + y.val)) := by
  have h0 : (0 : ℚ) < smallest := by unfold smallest; positivity
  unfold plusAssign
  split
  · rename_i hy0
    rw [hy0, val_kZero, add_zero]
    exact ensures_ok (correctlyRounded_self mode hx)
  split
  · rename_i hx0
    rw [hx0, val_kZero, zero_add]
    exact ensures_ok (correctlyRounded_self mode hy)
  split
  · rename_i hxy
    rw [hxy, val_neg, neg_add_cancel, abs_zero] at hmin
    linarith
  rename_i hy0 hx0 _
  refine (align_ensures hx hy hx0 hy0).bind fun a ha => ?_
  obtain ⟨f, ha⟩ := ha
  have hmin' := hmin
  rw [← sign_mul_abs_val x, ← sign_mul_abs_val y] at hmin'
  refine (combine_ensures ha hmin' (abs_nonneg _) (abs_nonneg _)).bind fun p hp => ?_
  obtain ⟨f', A, hc, hd, hne, hlt, hA, hval⟩ := hp
  have := doNormalize_correct .u128 mode hc hd hne hlt hA
  rw [hval, sign_mul_abs_val, sign_mul_abs_val] at this
  exact this

/-- The sum of two normal Numbers is the correctly rounded exact sum, unless the
operator throws. -/
theorem sum_correctly_rounded (x y : Number) (hx : x.Normal) (hy : y.Normal) (hmin : smallest ≤ |x.val + y.val|) :
    (∃ what, plusAssign large330 mode x y = .error (.thrown what)) ∨
      ∃ r, plusAssign large330 mode x y = .ok r ∧ CorrectlyRounded mode (x.val + y.val) r :=
  plusAssign_correct mode hx hy hmin

/-- A tie in the gap: `kMaxRep` and one and a half. -/
theorem sum_correctly_rounded_tie :
    CorrectlyRounded .toNearest (val ⟨false, kMaxRep, 0⟩ + val ⟨false, 1500000000000000000, -18⟩)
      ⟨false, kMaxRepUp, 0⟩ := by
  have hrun : plusAssign large330 .toNearest ⟨false, kMaxRep, 0⟩ ⟨false, 1500000000000000000, -18⟩ =
      .ok ⟨false, kMaxRepUp, 0⟩ := by decide +kernel
  have hx : Normal ⟨false, kMaxRep, 0⟩ := by decide +kernel
  have hy : Normal ⟨false, 1500000000000000000, -18⟩ := by decide +kernel
  have hmin : smallest ≤ |val ⟨false, kMaxRep, 0⟩ + val ⟨false, 1500000000000000000, -18⟩| := by
    refine (smallest_le_abs_val hx (by decide)).trans ?_
    rw [abs_of_nonneg, abs_of_nonneg] <;> norm_num [val, kMaxRep]
  rcases sum_correctly_rounded .toNearest _ _ hx hy hmin with ⟨what, h⟩ | ⟨r, h, hr⟩
  · rw [hrun] at h; cases h
  · rw [hrun] at h; cases h; exact hr

end Number

end Rippled.Basics
