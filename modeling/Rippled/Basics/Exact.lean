import Rippled.Basics.Number
import Rippled.Lib.Rounding
import Mathlib.Algebra.Order.Field.Power
/-!
# What a Number stands for

The exact value of a `Number` in scale `Large330`, and what it means to round a
rational correctly to one. `correct_of_takes` reduces that to a decision about
the two neighbouring mantissas of one decade.
-/

namespace Rippled.Basics.Number

open Lib

abbrev large330 : MantissaRange := mantissaRange .large330

def val (x : Number) : ℚ := (if x.negative then -1 else 1) * x.mantissa * 10 ^ x.exponent

def Normal (x : Number) : Prop := x.isnormal large330 = true

instance (x : Number) : Decidable x.Normal := inferInstanceAs (Decidable (_ = true))

def normals : Set ℚ := {q | ∃ x : Number, x.Normal ∧ x.val = q}

/-- The smallest magnitude of a normal Number other than zero. -/
def smallest : ℚ := 10 ^ 18 * 10 ^ kMinExponent

/-- Where a tie between `r` and `n` goes: to the even external mantissa, and at
the gap between `kMaxRep` and `kMaxRepUp` to the latter. -/
def TieTo (r n : Number) : Prop :=
  (n.mantissa = kMaxRep ∧ r.mantissa = kMaxRepUp ∧ n.exponent = r.exponent) ∨ r.mantissaExt % 2 = 0

/-- `r` is the normal Number `v` rounds to in the given mode. -/
def CorrectlyRounded (mode : RoundingMode) (v : ℚ) (r : Number) : Prop :=
  r.Normal ∧ match mode with
    | .toNearest => Nearest normals v r.val ∧
        ∀ n : Number, n.Normal → n.val ≠ r.val → |n.val - v| = |r.val - v| → TieTo r n
    | .towardsZero => Truncates normals v r.val
    | .downward => RoundsDown normals v r.val
    | .upward => RoundsUp normals v r.val

/-- What a mode does to the magnitude of a number of the given sign. -/
def toward (mode : RoundingMode) (negative : Bool) : Toward :=
  match mode with
  | .toNearest => .nearest
  | .towardsZero => .zero
  | .downward => if negative then .away else .zero
  | .upward => if negative then .zero else .away

/-! ## Normal Numbers -/

variable {x : Number}

theorem pow_mul_ten_le {i j : Int} (h : i < j) : (10 : ℚ) ^ i * 10 ≤ 10 ^ j := by
  rw [← zpow_add_one₀ (by norm_num)]
  exact zpow_le_zpow_right₀ (by norm_num) h

theorem normal_iff : x.Normal ↔ x = kZero ∨ (10 ^ 18 ≤ x.mantissa ∧ x.mantissa < 10 ^ 19 ∧
    (x.mantissa ≤ kMaxRep ∨ x.mantissa % 10 = 0) ∧ kMinExponent ≤ x.exponent ∧ x.exponent ≤ kMaxExponent) := by
  simp only [Normal, isnormal, mantissaRange, MantissaScale.getExponent, Bool.or_eq_true, decide_eq_true_eq]
  constructor
  · rintro (h | ⟨h1, h2, h3⟩)
    · exact .inl h
    · exact .inr ⟨h1, by omega, h3⟩
  · rintro (h | ⟨h1, h2, h3⟩)
    · exact .inl h
    · exact .inr ⟨h1, by omega, h3⟩

@[simp] theorem val_kZero : kZero.val = 0 := by simp [val, kZero]

theorem val_neg (x : Number) : x.neg.val = -x.val := by
  unfold neg
  split
  · rename_i h; simp [val, kZero, h]
  · cases hn : x.negative <;> simp [val, hn]

theorem normal_neg (h : x.Normal) : x.neg.Normal := by
  unfold neg
  rw [normal_iff] at h ⊢
  split
  · exact .inl rfl
  · rename_i hm
    rcases h with rfl | h
    · exact absurd rfl hm
    · exact .inr h

theorem normals_neg : ∀ s ∈ normals, -s ∈ normals := by
  rintro _ ⟨x, hx, rfl⟩
  exact ⟨x.neg, normal_neg hx, val_neg x⟩

theorem abs_val (x : Number) : |x.val| = x.mantissa * 10 ^ x.exponent := by
  have h : (0 : ℚ) ≤ x.mantissa * 10 ^ x.exponent := by positivity
  unfold val
  split
  · rw [mul_assoc, neg_one_mul, abs_neg, abs_of_nonneg h]
  · rw [one_mul, abs_of_nonneg h]

/-! ## Neighbouring mantissas -/

/-- `L` and `H` are neighbouring mantissas: both in the decade (`H` may be its
end), `L` valid, and no valid mantissa between them. -/
structure Neighbours (L H : Nat) : Prop where
  min : 10 ^ 18 ≤ L
  lt : L < H
  max : H ≤ 10 ^ 19
  gap : ∀ M : Nat, (M ≤ kMaxRep ∨ M % 10 = 0) → M ≤ L ∨ H ≤ M

theorem neighbours_low {m : Nat} (h : 10 ^ 18 ≤ m) (h' : m < kMaxRep) : Neighbours m (m + 1) :=
  ⟨h, by omega, by simp only [kMaxRep] at h'; omega, fun M _ => by omega⟩

theorem neighbours_gap : Neighbours kMaxRep kMaxRepUp :=
  ⟨by decide, by decide, by decide, fun M h => by simp only [kMaxRepUp_eq, kMaxRep] at h ⊢; omega⟩

theorem neighbours_high {m : Nat} (h : kMaxRepUp ≤ 10 * m) (h' : m < 10 ^ 18) : Neighbours (10 * m) (10 * (m + 1)) :=
  ⟨by simp only [kMaxRepUp_eq] at h; omega, by omega, by omega,
    fun M hM => by simp only [kMaxRepUp_eq, kMaxRep] at h hM; omega⟩

/-- Magnitudes of normal Numbers stay clear of the space between neighbours. -/
theorem Neighbours.apart {L H : Nat} (h : Neighbours L H) (e : Int) (hx : x.Normal) :
    |x.val| ≤ L * 10 ^ e ∨ H * 10 ^ e ≤ |x.val| := by
  rw [abs_val]
  rcases normal_iff.1 hx with rfl | ⟨h1, h2, h3, -⟩
  · left; simp only [kZero, Nat.cast_zero, zero_mul]; positivity
  rcases lt_trichotomy x.exponent e with hlt | heq | hgt
  · left
    have hq : (10 : ℚ) ^ x.exponent * 10 ≤ 10 ^ e := pow_mul_ten_le (by omega)
    have hm : (x.mantissa : ℚ) ≤ L * 10 := by
      have := h.min
      exact_mod_cast (show x.mantissa ≤ L * 10 by omega)
    calc (x.mantissa : ℚ) * 10 ^ x.exponent ≤ L * 10 * 10 ^ x.exponent := by gcongr
      _ = L * (10 ^ x.exponent * 10) := by ring
      _ ≤ L * 10 ^ e := by gcongr
  · rw [heq]
    rcases h.gap _ h3 with hg | hg
    · left; gcongr
    · right; gcongr
  · right
    have hq : (10 : ℚ) ^ e * 10 ≤ 10 ^ x.exponent := pow_mul_ten_le (by omega)
    have hm : (H : ℚ) ≤ x.mantissa * 10 := by
      have := h.max
      exact_mod_cast (show H ≤ x.mantissa * 10 by omega)
    calc (H : ℚ) * 10 ^ e ≤ x.mantissa * 10 * 10 ^ e := by gcongr
      _ = x.mantissa * (10 ^ e * 10) := by ring
      _ ≤ x.mantissa * 10 ^ x.exponent := by gcongr

theorem Neighbours.encloses {L H : Nat} (h : Neighbours L H) {e : Int} {a : ℚ} (hL : L * 10 ^ e ≤ a)
    (hH : a < H * 10 ^ e) : Encloses normals (L * 10 ^ e) (H * 10 ^ e) a := by
  have hpos : (0 : ℚ) < L * 10 ^ e := by
    have := h.min
    have : (0 : ℚ) < L := by exact_mod_cast (show 0 < L by omega)
    positivity
  refine ⟨hpos, hL, hH, ?_⟩
  rintro _ ⟨x, hx, rfl⟩
  rcases h.apart e hx with hle | hge
  · exact .inl ((le_abs_self _).trans hle)
  · rcases le_total 0 x.val with h0 | h0
    · exact .inr (by rwa [abs_of_nonneg h0] at hge)
    · exact .inl (h0.trans hpos.le)

theorem eq_of_abs_val (hx : x.Normal) {M : Nat} {e : Int} (hM : 10 ^ 18 ≤ M)
    (hM' : M < 10 ^ 19) (h : |x.val| = M * 10 ^ e) : x.mantissa = M ∧ x.exponent = e := by
  rw [abs_val] at h
  have hp : (0 : ℚ) < 10 ^ e := by positivity
  rcases normal_iff.1 hx with rfl | ⟨h1, h2, -⟩
  · simp only [kZero, Nat.cast_zero, zero_mul] at h
    have : (0 : ℚ) < M := by exact_mod_cast (show 0 < M by omega)
    have := mul_pos this hp
    linarith
  have lt_of {m n : Nat} {i j : Int} (hm : 10 ^ 18 ≤ n) (hn : m < 10 ^ 19) (hij : i < j) :
      (m : ℚ) * 10 ^ i < n * 10 ^ j := by
    have hq : (10 : ℚ) ^ i * 10 ≤ 10 ^ j := pow_mul_ten_le (by omega)
    have hmn : (m : ℚ) < n * 10 := by exact_mod_cast (show m < n * 10 by omega)
    calc (m : ℚ) * 10 ^ i < n * 10 * 10 ^ i := by gcongr
      _ = n * (10 ^ i * 10) := by ring
      _ ≤ n * 10 ^ j := by gcongr
  have he : x.exponent = e := by
    rcases lt_trichotomy x.exponent e with hlt | heq | hgt
    · exact absurd h (lt_of hM h2 hlt).ne
    · exact heq
    · exact absurd h (lt_of h1 hM' hgt).ne'
  rw [he] at h
  exact ⟨by exact_mod_cast mul_right_cancel₀ hp.ne' h, he⟩

theorem val_eq_sign (x : Number) : x.val = if x.negative then -|x.val| else |x.val| := by
  rw [abs_val, val]
  split
  · ring
  · ring

/-- Where a tie must go, for the neighbours `L` and `H`: `M` is the mantissa taken. -/
def TieRule (L H : Nat) (r : Number) : Prop := r.mantissaExt % 2 = 0 ∨ (L = kMaxRep ∧ H = kMaxRepUp ∧ r.mantissa = H)

/-- A Number that takes its magnitude to the right neighbour is correctly rounded. -/
theorem correct_of_takes {mode : RoundingMode} {negative : Bool} {a : ℚ} {L H : Nat} {e : Int} {r : Number}
    (hn : Neighbours L H) (hL : L * 10 ^ e ≤ a) (hH : a < H * 10 ^ e) (hr : r.Normal) (hs : r.negative = negative)
    (ht : Takes (toward mode negative) a (L * 10 ^ e) (H * 10 ^ e) |r.val|)
    (htie : mode = .toNearest → H * 10 ^ e - a = a - L * 10 ^ e → TieRule L H r) :
    CorrectlyRounded mode ((if negative then -1 else 1) * a) r := by
  have he := hn.encloses hL hH
  have hmem : |r.val| ∈ normals := by
    rcases abs_choice r.val with h | h <;> rw [h]
    · exact ⟨r, hr, rfl⟩
    · exact normals_neg _ ⟨r, hr, rfl⟩
  have hv := val_eq_sign r
  rw [hs] at hv
  have tie : mode = .toNearest → ∀ n : Number, n.Normal → n.val ≠ r.val →
      |n.val - (if negative then -1 else 1) * a| = |r.val - (if negative then -1 else 1) * a| → TieTo r n := by
    rintro rfl n hnn hne hd
    -- mirror a negative pair into the positive half line
    obtain ⟨s, hs, hsr, hsd, hsn⟩ : ∃ s ∈ normals, s ≠ |r.val| ∧ |s - a| = |(|r.val|) - a| ∧ (0 ≤ s → s = |n.val|) := by
      cases negative with
      | false =>
        simp only [Bool.false_eq_true, if_false] at hv hd
        rw [one_mul] at hd
        refine ⟨n.val, ⟨n, hnn, rfl⟩, by rwa [← hv], by rwa [← hv], fun h => (abs_of_nonneg h).symm⟩
      | true =>
        simp only [if_true] at hv hd
        refine ⟨-n.val, normals_neg _ ⟨n, hnn, rfl⟩, fun h => hne (by rw [hv]; linarith), ?_,
          fun h => (abs_of_nonpos (by linarith)).symm⟩
        rw [show -n.val - a = -(n.val - -1 * a) by ring, abs_neg, hd,
          show |r.val| - a = -(r.val - -1 * a) by rw [hv]; simp; ring, abs_neg]
    obtain ⟨hmid, hcase⟩ := tie_of_nearest he ht hs hsr hsd
    have hs0 : 0 ≤ s := by
      have := he.pos
      rcases hcase with ⟨-, rfl⟩ | ⟨-, rfl⟩ <;> linarith [he.le, he.lt]
    rcases htie rfl hmid with hev | ⟨rfl, rfl, hrm⟩
    · exact .inr hev
    · rcases hcase with ⟨hr1, -⟩ | ⟨hr1, hs1⟩
      · have := (eq_of_abs_val hr (by decide) (by decide) hr1).1
        rw [hrm] at this
        exact absurd this (by decide)
      · obtain ⟨h1, h2⟩ := eq_of_abs_val hr (by decide) (by decide) hr1
        obtain ⟨h3, h4⟩ := eq_of_abs_val hnn (by decide) (by decide) ((hsn hs0).symm.trans hs1)
        exact .inl ⟨h3, h1, h4.trans h2.symm⟩
  refine ⟨hr, ?_⟩
  cases negative with
  | false =>
    simp only [Bool.false_eq_true, if_false] at hv tie ⊢
    rw [one_mul] at tie ⊢
    rw [← hv] at ht hmem
    cases mode with
    | toNearest => exact ⟨nearest_of_nearest he hmem ht, tie rfl⟩
    | towardsZero => exact truncates_of_zero he hmem ht
    | downward => exact roundsDown_of_zero he hmem ht
    | upward => exact roundsUp_of_away he hmem ht
  | true =>
    simp only [if_true] at hv tie ⊢
    rw [neg_one_mul] at tie ⊢
    rw [show |r.val| = -r.val by linarith] at ht hmem
    have hneg : r.val = -(-r.val) := by ring
    cases mode with
    | toNearest =>
      refine ⟨?_, tie rfl⟩
      rw [hneg]; exact (nearest_of_nearest he hmem ht).neg normals_neg
    | towardsZero => simp only; rw [hneg]; exact (truncates_of_zero he hmem ht).neg normals_neg
    | downward => simp only; rw [hneg]; exact RoundsDown.of_neg normals_neg (roundsUp_of_away he hmem ht)
    | upward => simp only; rw [hneg]; exact RoundsUp.of_neg normals_neg (roundsDown_of_zero he hmem ht)

end Rippled.Basics.Number
