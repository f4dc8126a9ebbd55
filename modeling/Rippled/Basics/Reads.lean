import Rippled.Basics.Exact
/-!
# What the guard reads

A guard stands for the fraction `f` of a mantissa that was dropped. `Sees` is
what survives any number of pushes: whether `f` is zero. `Reads` adds on which
side of one half it lies, which is all that `round` asks. One push turns the
first into the second, so the digits below it never matter.
-/

namespace Rippled.Basics

open Lib Number Width

/-! ## Division by ten -/

theorem add_div_bounds (q k : Nat) (hk : 0 < k) :
    k * (q + q / k) ≤ (k + 1) * q ∧ (k + 1) * q ≤ k * (q + q / k) + (k - 1) := by
  have h := Nat.div_add_mod q k
  have hlt := Nat.mod_lt q hk
  constructor
  · calc k * (q + q / k) = k * q + k * (q / k) := by ring
      _ ≤ k * q + q := by omega
      _ = (k + 1) * q := by ring
  · calc (k + 1) * q = k * q + q := by ring
      _ ≤ k * q + (k * (q / k) + (k - 1)) := by omega
      _ = _ := by ring

/-- The shifted sum never exceeds `u`, and an eighth of it falls short of
`u / 10` by less than two. -/
theorem divu10_bounds {u q0 q1 q2 q3 q4 q5 q : Nat} (h : u < 2 ^ 128) (h0 : q0 = u / 2 + u / 4)
    (h1 : q1 = q0 + q0 / 2 ^ 4) (h2 : q2 = q1 + q1 / 2 ^ 8) (h3 : q3 = q2 + q2 / 2 ^ 16)
    (h4 : q4 = q3 + q3 / 2 ^ 32) (h5 : q5 = q4 + q4 / 2 ^ 64) (h6 : q = q5 / 8) :
    10 * q ≤ u ∧ u < 10 * q + 20 ∧ q5 ≤ u := by
  have b0 : 4 * q0 ≤ 3 * u ∧ 3 * u ≤ 4 * q0 + 5 := by omega
  have b1 := add_div_bounds q0 (2 ^ 4) (by norm_num)
  have b2 := add_div_bounds q1 (2 ^ 8) (by norm_num)
  have b3 := add_div_bounds q2 (2 ^ 16) (by norm_num)
  have b4 := add_div_bounds q3 (2 ^ 32) (by norm_num)
  have b5 := add_div_bounds q4 (2 ^ 64) (by norm_num)
  have b6 : 8 * q ≤ q5 ∧ q5 ≤ 8 * q + 7 := by clear h1 h2 h3 h4 h5; omega
  rw [← h1] at b1; rw [← h2] at b2; rw [← h3] at b3; rw [← h4] at b4; rw [← h5] at b5
  clear h0 h1 h2 h3 h4 h5 h6
  norm_num at b1 b2 b3 b4 b5 h
  refine ⟨?_, ?_, ?_⟩
  · linarith [b0.1, b1.1, b2.1, b3.1, b4.1, b5.1, b6.1]
  · linarith [b0.2, b1.2, b2.2, b3.2, b4.2, b5.2, b6.2]
  · linarith [b0.1, b1.1, b2.1, b3.1, b4.1, b5.1, b6.1]

theorem wrap_of_lt {w : Width} {n : Nat} (h : n < w.size) : w.wrap n = n := Nat.mod_eq_of_lt h

/-- The quotient of `divu10` before its correction. -/
def approxQuotient (u : Nat) : Nat :=
  let q := u128.wrap ((u >>> 1) + (u >>> 2))
  let q := u128.wrap (q + (q >>> 4))
  let q := u128.wrap (q + (q >>> 8))
  let q := u128.wrap (q + (q >>> 16))
  let q := u128.wrap (q + (q >>> 32))
  let q := u128.wrap (q + (q >>> 64))
  q >>> 3

section
variable {u q : Nat} (h : u < 2 ^ 128)
include h

theorem approxQuotient_bounds : 10 * approxQuotient u ≤ u ∧ u < 10 * approxQuotient u + 20 := by
  obtain ⟨hlo, hhi, h5⟩ := divu10_bounds h rfl rfl rfl rfl rfl rfl rfl
  have fits {n : Nat} (hn : n ≤ u) : u128.wrap n = n := wrap_of_lt (hn.trans_lt h)
  have h4 := (Nat.le_add_right _ _).trans h5
  have h3 := (Nat.le_add_right _ _).trans h4
  have h2 := (Nat.le_add_right _ _).trans h3
  have h1 := (Nat.le_add_right _ _).trans h2
  have h0 := (Nat.le_add_right _ _).trans h1
  simp only [approxQuotient, Nat.shiftRight_eq_div_pow, pow_one]
  rw [show (2 : Nat) ^ 2 = 4 from rfl, fits h0, fits h1, fits h2, fits h3, fits h4, fits h5]
  exact ⟨hlo, hhi⟩

variable (hlo : 10 * q ≤ u) (hhi : u < 10 * q + 20)
include hlo hhi

/-- The remainder of a quotient that is at most one too small fits in 32 bits. -/
theorem divu10_remainder : u128.wrap (u + 2 ^ 128 - u128.wrap ((q <<< 3) + (q <<< 1))) % 2 ^ 32 = u - 10 * q := by
  have h1 : u128.wrap ((q <<< 3) + (q <<< 1)) = 10 * q := by
    simp only [Nat.shiftLeft_eq]
    rw [wrap_of_lt (by simp only [size]; omega)]; omega
  have h2 : u + 2 ^ 128 - 10 * q = (u - 10 * q) + 2 ^ 128 := by omega
  rw [h1, h2, show u128.wrap ((u - 10 * q) + 2 ^ 128) = u - 10 * q by
    simp only [wrap, size, Nat.add_mod_right]; exact Nat.mod_eq_of_lt (by omega)]
  exact Nat.mod_eq_of_lt (by omega)

/-- The correction adds one to the quotient if the remainder is ten or more. -/
theorem divu10_correct : let r := u128.wrap (u + 2 ^ 128 - u128.wrap ((q <<< 3) + (q <<< 1))) % 2 ^ 32
    ((r + 2 ^ 32 - ((r + 6) % 2 ^ 32) >>> 4 * 10) % 2 ^ 32, u128.wrap (q + ((r + 6) % 2 ^ 32) >>> 4)) =
      (u - 10 * q - (u - 10 * q + 6) / 16 * 10, q + (u - 10 * q + 6) / 16) := by
  intro r
  have hr : r = u - 10 * q := divu10_remainder h hlo hhi
  rw [hr, Nat.shiftRight_eq_div_pow, wrap_of_lt (by simp only [size]; omega), Prod.mk.injEq]
  constructor
  · omega
  · omega

omit hlo hhi in
theorem divu10_eq : divu10 u = (u % 10, u / 10) := by
  obtain ⟨hlo, hhi⟩ := approxQuotient_bounds h
  refine (divu10_correct h hlo hhi).trans ?_
  rw [Prod.mk.injEq]
  constructor
  · omega
  · omega

end

/-- The approximation is at most one too small, the remainder that belongs to it is not wrapped, and one correction of
the two gives the digit and the quotient. -/
theorem divu10_exact (u : BitVec 128) : divu10 u.toNat = (u.toNat % 10, u.toNat / 10) ∧
    ∃ q r, q = approxQuotient u.toNat ∧ q ≤ u.toNat / 10 ∧ u.toNat / 10 ≤ q + 1 ∧ 10 * q + r = u.toNat ∧
      u128.wrap (u.toNat + 2 ^ 128 - u128.wrap ((q <<< 3) + (q <<< 1))) % 2 ^ 32 = r ∧
      divu10 u.toNat = (r - (r + 6) / 16 * 10, q + (r + 6) / 16) := by
  obtain ⟨hlo, hhi⟩ := approxQuotient_bounds u.isLt
  refine ⟨divu10_eq u.isLt, _, _, rfl, ?_, ?_, ?_, divu10_remainder u.isLt hlo hhi, divu10_correct u.isLt hlo hhi⟩
  · omega
  · omega
  · omega

theorem divMod10_eq {w : Width} {m : Nat} (h : m < w.size) : w.divMod10 m = (m % 10, m / 10) := by
  cases w with
  | u64 => rfl
  | u128 => exact divu10_eq h

/-! ## Digits -/

namespace Guard

variable {g : Guard}

theorem doPush_digits {d : Nat} (hg : g.digits < 2 ^ 64) (hd : d < 10) :
    (g.doPush d).digits = g.digits / 16 + d * 2 ^ 60 := by
  have hd' : d &&& 0xF = d := by
    rw [show (0xF : Nat) = 2 ^ 4 - 1 from rfl, Nat.and_two_pow_sub_one_eq_mod]; omega
  have hs : g.digits >>> 4 = g.digits / 16 := Nat.shiftRight_eq_div_pow _ _
  simp only [doPush, hd', hs]
  rw [Nat.or_comm, ← Nat.shiftLeft_add_eq_or_of_lt (by omega), Nat.shiftLeft_eq, Nat.add_comm]

theorem doPush_xbit (g : Guard) (d : Nat) : (g.doPush d).xbit = (g.xbit || decide (g.digits % 16 ≠ 0)) := by
  simp only [doPush]
  rw [show (0xF : Nat) = 2 ^ 4 - 1 from rfl, Nat.and_two_pow_sub_one_eq_mod]
  cases hx : g.xbit <;> by_cases h : g.digits % 16 = 0 <;> simp [h]

theorem pop_fst (hg : g.digits < 2 ^ 64) : g.pop.1 = g.digits / 2 ^ 60 := by
  simp only [pop, Nat.shiftRight_and_distrib]
  rw [show (0xF000000000000000 : Nat) >>> 60 = 2 ^ 4 - 1 from rfl, Nat.and_two_pow_sub_one_eq_mod,
    Nat.shiftRight_eq_div_pow]
  omega

theorem pop_digits (g : Guard) : g.pop.2.digits = g.digits * 16 % 2 ^ 64 := by
  simp [pop, Nat.shiftLeft_eq]

theorem empty_iff (g : Guard) : g.empty = true ↔ g.digits = 0 ∧ g.xbit = false := by
  simp [empty, unrecoverable]

/-- The guard knows whether the dropped fraction `f` is zero. -/
structure Sees (g : Guard) (f : ℚ) : Prop where
  nonneg : 0 ≤ f
  lt_one : f < 1
  digits_lt : g.digits < 2 ^ 64
  empty : g.empty = true ↔ f = 0

/-- The guard also knows how the dropped fraction compares with one half. -/
structure Reads (g : Guard) (f : ℚ) : Prop extends Sees g f where
  half : g.digits = 0x5000000000000000 ∧ g.xbit = false ↔ f = 1 / 2
  above : 0x5000000000000000 < g.digits ∨ (g.digits = 0x5000000000000000 ∧ g.xbit = true) ↔ 1 / 2 < f

variable {f : ℚ}

/-- Nothing lies below a pushed digit exactly if the fraction was zero. -/
theorem Sees.below_doPush (h : g.Sees f) (d : Nat) : g.digits / 16 = 0 ∧ (g.doPush d).xbit = false ↔ f = 0 := by
  rw [doPush_xbit, ← h.empty, empty_iff]
  simp only [Bool.or_eq_false_iff, decide_eq_false_iff_not, not_not]
  constructor
  · rintro ⟨h1, h2, h3⟩; exact ⟨by omega, h2⟩
  · rintro ⟨h1, h2⟩; exact ⟨by omega, h2, by omega⟩

theorem Sees.doPush (h : g.Sees f) {d : Nat} (hd : d < 10) : (g.doPush d).Reads ((d + f) / 10) := by
  have hd1 : (d : ℚ) ≤ 9 := by exact_mod_cast (show d ≤ 9 by omega)
  have h0 := h.nonneg
  have h1 := h.lt_one
  have hl := h.digits_lt
  have hdig := doPush_digits hl hd
  have hlow := h.below_doPush d
  refine ⟨⟨by positivity, by linarith, by rw [hdig]; omega, ?_⟩, ?_, ?_⟩
  · rw [empty_iff, hdig]
    constructor
    · rintro ⟨h2, h3⟩
      have hf := hlow.1 ⟨by omega, h3⟩
      have : d = 0 := by omega
      simp [hf, this]
    · intro hf
      have hd0 : (d : ℚ) = 0 := by linarith [show (0 : ℚ) ≤ d from by positivity]
      have hd0' : d = 0 := by exact_mod_cast hd0
      obtain ⟨h2, h3⟩ := hlow.2 (by linarith)
      exact ⟨by omega, h3⟩
  · rw [hdig]
    constructor
    · rintro ⟨h2, h3⟩
      have hd5 : d = 5 := by omega
      rw [hlow.1 ⟨by omega, h3⟩, hd5]; norm_num
    · intro hf
      have hlt : (d : ℚ) < 6 := by linarith
      have hgt : (4 : ℚ) < d := by linarith
      have hd5 : d = 5 := by
        have h2 : d < 6 := by exact_mod_cast hlt
        have h3 : 4 < d := by exact_mod_cast hgt
        omega
      rw [hd5] at hf
      obtain ⟨h2, h3⟩ := hlow.2 (by push_cast at hf; linarith)
      exact ⟨by omega, h3⟩
  · rw [hdig]
    constructor
    · intro h2
      rcases Nat.lt_or_ge d 6 with h6 | h6
      · have hd5 : d = 5 := by omega
        have hne : f ≠ 0 := by
          intro hf
          obtain ⟨h3, h4⟩ := hlow.2 hf
          rw [h4] at h2
          simp at h2
          omega
        have : 0 < f := lt_of_le_of_ne h0 hne.symm
        rw [hd5]; push_cast; linarith
      · have : (6 : ℚ) ≤ d := by exact_mod_cast h6
        linarith
    · intro hf
      rcases Nat.lt_or_ge d 6 with h6 | h6
      · have hgt : (4 : ℚ) < d := by linarith
        have h3 : 4 < d := by exact_mod_cast hgt
        have hd5 : d = 5 := by omega
        rw [hd5] at hf
        have hne : ¬ (g.digits / 16 = 0 ∧ (g.doPush d).xbit = false) := by
          rw [hlow]; intro hf0; rw [hf0] at hf; norm_num at hf
        by_cases h16 : g.digits / 16 = 0
        · right
          exact ⟨by omega, by simpa [h16] using hne⟩
        · left; omega
      · left; omega

theorem Reads.of_zero (hd : g.digits = 0) (hx : g.xbit = false) : g.Reads 0 :=
  ⟨⟨le_refl _, by norm_num, by omega, by simp [empty_iff, hd, hx]⟩, by simp [hd], by simp [hd]⟩

/-- A guard with nothing but the sticky bit reads a small fraction. -/
theorem Reads.of_dropped (hd : g.digits = 0) (hf : 0 ≤ f) (hf' : f < 1 / 2) (hx : g.xbit = true ↔ f ≠ 0) :
    g.Reads f := by
  refine ⟨⟨hf, by linarith, by omega, ?_⟩, ?_, ?_⟩
  · rw [empty_iff]
    cases h : g.xbit <;> simp_all
  · simp only [hd]
    constructor
    · rintro ⟨h, -⟩; simp at h
    · rintro rfl; norm_num at hf'
  · simp only [hd]
    constructor
    · rintro (h | ⟨h, -⟩) <;> simp at h
    · intro h; linarith

/-! ## Rounding decisions -/

/-- The fraction `f` of an integer mantissa is rounded away from zero. -/
def RoundsAway (d : Toward) (f : ℚ) (odd : Prop) : Prop :=
  match d with
  | .zero => False
  | .away => f ≠ 0
  | .nearest => 1 / 2 < f ∨ (f = 1 / 2 ∧ odd)

theorem round_exact (hg : g.cuspRoundingFix = .enabled330) (h : g.Sees f) (mode : RoundingMode) :
    g.round mode = .exact ↔ f = 0 := by
  rw [← h.empty]
  unfold round
  simp only [hg, CuspRoundingFix.enabled330OrLater, Bool.true_and]
  split
  · simp_all
  · rename_i he
    simp only [he]
    repeat' split
    all_goals simp

/-- The guard rounds up exactly as the fraction it reads asks, with or without the fixes: they only tell `exact` from
`down`. -/
theorem round_up_iff (h : g.Reads f) (mode : RoundingMode) (odd : Prop) :
    g.round mode = .up ∨ (g.round mode = .even ∧ odd) ↔ RoundsAway (toward mode g.sbit) f odd := by
  by_cases hf : f = 0
  · have he : g.empty = true := h.empty.2 hf
    have hd : g.digits = 0 := ((empty_iff g).1 he).1
    have hdown : g.round mode = .exact ∨ g.round mode = .down := by
      unfold round
      simp only [he, hd]
      cases g.cuspRoundingFix.enabled330OrLater <;> cases mode <;> cases g.sbit <;> simp
    rcases hdown with hr | hr <;> rw [hr] <;> cases mode <;> cases g.sbit <;> simp [RoundsAway, toward, hf]
  · have he : g.empty = false := by
      have := h.empty
      cases hh : g.empty <;> simp_all
    have ha := h.above
    have hh := h.half
    unfold round
    simp only [he, Bool.and_false, Bool.false_eq_true, if_false]
    cases mode with
    | towardsZero => simp [RoundsAway, toward]
    | downward => cases hs : g.sbit <;> simp [RoundsAway, toward, hf]
    | upward => cases hs : g.sbit <;> simp [RoundsAway, toward, hf]
    | toNearest =>
      simp only [RoundsAway, toward, ← ha, ← hh]
      rcases Nat.lt_trichotomy g.digits 0x5000000000000000 with hlt | heq | hgt
      · simp [Nat.not_lt_of_gt hlt, hlt, hlt.ne]
      · cases hx : g.xbit <;> simp [heq]
      · simp [hgt, hgt.ne']

end Guard

end Rippled.Basics
