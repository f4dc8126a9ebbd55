import Rippled.Protocol.NumberRep
/-!
# Rounding to sixteen digits

The constructor of `IOUAmount` normalizes twice: to the digits of the scale, and from there to sixteen. Only one of the
two rounds (`make_rounds`). With nineteen digits it is the second, since an `int64` is padded and nothing more; with
sixteen it is the first, since the second finds sixteen digits.
-/

namespace Rippled.Basics.Number

open Lib Guard Protocol Protocol.STNumber Width Run

/-! ## Padding -/

variable {m k : Nat} {scale : MantissaScale}

/-- The scales with nineteen digits. -/
def Large (scale : MantissaScale) : Prop := scale ≠ .small

theorem Large.range (h : Large scale) : (mantissaRange scale).min = 10 ^ 18 ∧
    (mantissaRange scale).max = 10 ^ 19 - 1 := by
  cases scale with
  | small => exact absurd rfl h
  | largeLegacy | large320 | large330 => exact ⟨rfl, rfl⟩

/-- How many zeros bring a magnitude to `n + 1` digits. -/
theorem exists_padding {n : Nat} (h0 : 0 < m) (h : m < 10 ^ (n + 1)) :
    ∃ k ≤ n, 10 ^ n ≤ m * 10 ^ k ∧ m * 10 ^ k < 10 ^ (n + 1) ∧ ∀ j < k, m * 10 ^ j < 10 ^ n := by
  have hlog : Nat.log 10 m < n + 1 := Nat.log_lt_of_lt_pow' (by omega) h
  have hlow : 10 ^ Nat.log 10 m ≤ m := Nat.pow_log_le_self 10 (by omega)
  have hhigh : m < 10 ^ (Nat.log 10 m + 1) := Nat.lt_pow_succ_log_self (by omega) m
  refine ⟨n - Nat.log 10 m, by omega, ?_, ?_, fun j hj => ?_⟩
  · calc 10 ^ n = 10 ^ Nat.log 10 m * 10 ^ (n - Nat.log 10 m) := by rw [← pow_add]; congr 1; omega
      _ ≤ _ := Nat.mul_le_mul_right _ hlow
  · calc m * 10 ^ (n - Nat.log 10 m) < 10 ^ (Nat.log 10 m + 1) * 10 ^ (n - Nat.log 10 m) :=
          Nat.mul_lt_mul_of_pos_right hhigh (by positivity)
      _ = 10 ^ (n + 1) := by rw [← pow_add]; congr 1; omega
  · calc m * 10 ^ j < 10 ^ (Nat.log 10 m + 1) * 10 ^ j := Nat.mul_lt_mul_of_pos_right hhigh (by positivity)
      _ = 10 ^ (Nat.log 10 m + 1 + j) := by rw [← pow_add]
      _ ≤ 10 ^ n := Nat.pow_le_pow_right (by omega) (by omega)

theorem padded_mod_ten (hm : m ≤ kMaxRep) (h : kMaxRep < m * 10 ^ k) : m * 10 ^ k % 10 = 0 := by
  obtain ⟨k, rfl⟩ : ∃ j, k = j + 1 := by
    refine ⟨k - 1, ?_⟩
    rcases Nat.eq_zero_or_pos k with rfl | hk
    · simp at h; omega
    · omega
  rw [pow_succ, ← mul_assoc]
  omega

/-- In the scales with nineteen digits an `int64` is only padded. -/
theorem doNormalize_large (hs : Large scale) (mode : RoundingMode) (negative : Bool) {e : Int}
    (h0 : 0 < m) (h : m ≤ kMaxRep) (hlow : -32000 ≤ e) (hhigh : e ≤ 32000) :
    ∃ k : Nat, k ≤ 18 ∧ doNormalize .u64 mode (mantissaRange scale).min (mantissaRange scale).max
      (mantissaRange scale).cuspRoundingFix
      false ⟨negative, m, e⟩ = .ok ⟨negative, m * 10 ^ k, e - k⟩ ∧ 10 ^ 18 ≤ m * 10 ^ k ∧ m * 10 ^ k < 10 ^ 19 := by
  have hrep : kMaxRep < 10 ^ 19 := by decide
  obtain ⟨hmin, hmax⟩ := hs.range
  obtain ⟨k, hk, h1, h2, hneed⟩ := exists_padding (n := 18) h0 (by omega)
  have hmine := Basics.kMinExponent_eq
  have hmaxe := Basics.kMaxExponent_eq
  have hwidth : u64.size = 2 ^ 64 := rfl
  refine ⟨k, hk, ?_, h1, h2⟩
  exact IOUAmount.doNormalize_grow mode k h0 (by simp only [loopFuel]; omega)
    (by rw [hmin]; exact hneed) (by rw [hmin]; exact h1)
    (by rw [hmax]; omega) (by omega) (by omega) (padded_mod_ten h) (by omega) (by omega) (fun _ => by omega)

theorem RoundsTo.eq_of_integer {d : Toward} {n : Nat} (h : RoundsTo d m n) : n = m :=
  le_antisymm (h.mono (of_integer d m) le_rfl) ((of_integer d m).mono h le_rfl)

end Rippled.Basics.Number

namespace Rippled.Protocol

open Lib Basics Basics.Guard Basics.Number

/-! ## Sixteen digits -/

/-- The magnitude `a` has sixteen digits before the point at the exponent `e`, and `b` is what it is there. -/
structure Decade (a b : ℚ) (e : Int) : Prop where
  value : a = b * 10 ^ e
  min : 10 ^ 15 ≤ b
  lt : b < 10 ^ 16

/-- `m * 10 ^ e` is the magnitude `a` rounded to sixteen digits in the direction `d`. -/
def RoundsToSixteen (d : Toward) (a : ℚ) (m : Nat) (e : Int) : Prop :=
  ∃ (b : ℚ) (E : Int) (n : Nat), Decade a b E ∧ RoundsTo d b n ∧
    ((n < 10 ^ 16 ∧ m = n ∧ e = E) ∨ (n = 10 ^ 16 ∧ m = 10 ^ 15 ∧ e = E + 1))

variable {a a' b b' f : ℚ} {e e' : Int} {d : Toward} {m m' : Nat}

theorem Decade.exponent_le (h : Decade a b e) (h' : Decade a' b' e') (ha : a ≤ a') : e ≤ e' := by
  by_contra hlt
  have hpow : (10 : ℚ) ^ e' * 10 ≤ 10 ^ e := pow_mul_ten_le (by omega)
  have hp : (0 : ℚ) < 10 ^ e' := by positivity
  have h1 : a' < 10 ^ 16 * 10 ^ e' := by rw [h'.value]; exact mul_lt_mul_of_pos_right h'.lt hp
  have h2 : 10 ^ 15 * 10 ^ e ≤ a := by rw [h.value]; exact mul_le_mul_of_nonneg_right h.min (by positivity)
  linarith

theorem Decade.unique (h : Decade a b e) (h' : Decade a b' e') : b = b' ∧ e = e' := by
  obtain rfl : e = e' := le_antisymm (h.exponent_le h' le_rfl) (h'.exponent_le h le_rfl)
  exact ⟨mul_right_cancel₀ (by positivity) (h.value.symm.trans h'.value), rfl⟩

theorem decade_of_digits (h : 10 ^ 15 ≤ m) (h' : m < 10 ^ 16) (e : Int) : Decade (m * 10 ^ e) m e :=
  ⟨rfl, by exact_mod_cast h, by exact_mod_cast h'⟩

theorem roundsToSixteen_digits (d : Toward) (h : 10 ^ 15 ≤ m) (h' : m < 10 ^ 16) (e : Int) :
    RoundsToSixteen d (m * 10 ^ e) m e :=
  ⟨m, e, m, decade_of_digits h h' e, RoundsTo.of_integer d m, .inl ⟨h', rfl, rfl⟩⟩

theorem pad_value (m k : Nat) (e : Int) : ((m * 10 ^ k : Nat) : ℚ) * 10 ^ (e - k) = m * 10 ^ e := by
  rw [zpow_sub₀ (by norm_num), zpow_natCast]
  push_cast
  field_simp

theorem RoundsToSixteen.range (h : RoundsToSixteen d a m e) : 10 ^ 15 ≤ m ∧ m < 10 ^ 16 := by
  obtain ⟨b, E, n, hb, hn, ⟨h1, rfl, -⟩ | ⟨-, rfl, -⟩⟩ := h
  · exact ⟨(RoundsTo.of_integer d (10 ^ 15)).mono hn (by push_cast; exact hb.min), h1⟩
  · exact ⟨le_rfl, by decide⟩

theorem RoundsToSixteen.eq_of_digits (h : RoundsToSixteen d (m' * 10 ^ e') m e)
    (h1 : 10 ^ 15 ≤ m') (h2 : m' < 10 ^ 16) : m = m' ∧ e = e' := by
  obtain ⟨b, E, n, hb, hn, hc⟩ := h
  obtain ⟨rfl, rfl⟩ := hb.unique (decade_of_digits h1 h2 e')
  obtain rfl := hn.eq_of_integer
  omega

namespace IOUAmount

variable {g : Guard} {x : Number} {mode : RoundingMode}

/-- Sixteen digits and a guard are rounded, with a carry into the exponent at the end of the decade. -/
theorem doRoundUp_sixteen (w : Width) (mode : RoundingMode) (location : String) (hfix : g.cuspRoundingFix = .disabled)
    (hmin : g.minMantissa = 10 ^ 15) (hmax : g.maxMantissa = 10 ^ 16 - 1) (hr : g.Reads f) (h1 : 10 ^ 15 ≤ x.mantissa)
    (h2 : x.mantissa < 10 ^ 16) (hlow : Basics.kMinExponent ≤ x.exponent)
    (hhigh : x.exponent < Basics.kMaxExponent) (n : Nat) :
    ∃ m e, doRoundUp w mode location (n + 1) g x = .ok ⟨x.negative, m, e⟩ ∧ x.exponent ≤ e ∧ e ≤ x.exponent + 1 ∧
      RoundsToSixteen (toward mode g.sbit) ((x.mantissa + f) * 10 ^ x.exponent) m e := by
  have hrep := kMaxRep_eq
  have hsize := w.lt_size
  have hf0 := hr.nonneg
  have hf1 := hr.lt_one
  have hdec : Decade ((x.mantissa + f) * 10 ^ x.exponent) (x.mantissa + f) x.exponent := by
    have h1' : (10 ^ 15 : ℚ) ≤ x.mantissa := by exact_mod_cast h1
    have h2' : (x.mantissa : ℚ) + 1 ≤ 10 ^ 16 := by exact_mod_cast h2
    exact ⟨rfl, by linarith, by linarith⟩
  have hfin : ∀ m e, 10 ^ 15 ≤ m → Basics.kMinExponent ≤ e → e ≤ Basics.kMaxExponent →
      g.finishRoundUp w location ⟨x.negative, m, e⟩ = .ok ⟨x.negative, m, e⟩ := fun m e hm hl hh =>
    (finishRoundUp_of_ge w location (by rw [hmin]; exact hm) (by dsimp only; omega) hl).trans (if_neg (not_lt.2 hh))
  by_cases hlt : x.mantissa < 10 ^ 16 - 1
  · obtain ⟨M, hup, hdown, heq⟩ := hr.doRoundUp_of_lt w mode location (by rw [hmax]; exact hlt) (by omega) n
    have hM : RoundsTo (toward mode g.sbit) (x.mantissa + f) M ∧ x.mantissa ≤ M ∧ M < 10 ^ 16 := by
      by_cases hd : RoundsAway (toward mode g.sbit) f (x.mantissa % 2 = 1)
      · exact ⟨⟨_, f, hf0, hf1, rfl, .inl ⟨hd, hup hd⟩⟩, by have := hup hd; omega, by have := hup hd; omega⟩
      · exact ⟨⟨_, f, hf0, hf1, rfl, .inr ⟨hd, hdown hd⟩⟩, (hdown hd).ge, (hdown hd).trans_lt h2⟩
    rw [heq, hfin M x.exponent (by omega) hlow hhigh.le]
    exact ⟨M, x.exponent, rfl, le_rfl, by omega, _, _, M, hdec, hM.1, .inl ⟨hM.2.2, rfl, rfl⟩⟩
  · -- all nines: an increment leaves the decade
    have hup := round_up_iff hr mode (x.mantissa % 2 = 1)
    simp only [doRoundUp, pushOverflow_of_lt g (.inl (show x.mantissa < kMaxRep by omega)), and_one_eq]
    by_cases hd : RoundsAway (toward mode g.sbit) f (x.mantissa % 2 = 1)
    · rw [if_pos (hup.2 hd), if_neg (not_not.2 hfix), wrap_of_lt (by omega), if_pos (by rw [hmax]; omega),
        show (x.mantissa + 1) / 10 = 10 ^ 15 by omega, hfin (10 ^ 15) (x.exponent + 1) le_rfl (by omega) (by omega)]
      exact ⟨_, _, rfl, by omega, by omega, _, _, x.mantissa + 1, hdec, ⟨_, f, hf0, hf1, rfl, .inl ⟨hd, rfl⟩⟩,
        .inr ⟨by omega, rfl, rfl⟩⟩
    · rw [if_neg (fun h => hd (hup.1 h)), if_neg (by omega), hfin x.mantissa x.exponent h1 hlow hhigh.le]
      exact ⟨_, _, rfl, le_rfl,
        by omega, _, _, x.mantissa, hdec, ⟨_, f, hf0, hf1, rfl, .inr ⟨hd, rfl⟩⟩, .inl ⟨h2, rfl, rfl⟩⟩

/-- `normalizeToRange` rounds a mantissa of 64 bits to sixteen digits. -/
theorem doNormalize_sixteen (mode : RoundingMode) (h0 : 0 < x.mantissa) (hs : x.mantissa < Width.u64.size)
    (hlow : -32000 ≤ x.exponent) (hhigh : x.exponent ≤ 32000) :
    ∃ m e, doNormalize .u64 mode (10 ^ 15) (10 ^ 16 - 1) .disabled false x = .ok ⟨x.negative, m, e⟩ ∧
      x.exponent - 20 ≤ e ∧
      e ≤ x.exponent + 20 ∧ RoundsToSixteen (toward mode x.negative) (x.mantissa * 10 ^ x.exponent) m e := by
  have hrep := kMaxRep_eq
  have hwidth : Width.u64.size = 2 ^ 64 := rfl
  have hmine := Basics.kMinExponent_eq
  have hmaxe := Basics.kMaxExponent_eq
  by_cases hlt : x.mantissa < 10 ^ 16
  · obtain ⟨k, hk, h1, h2, hneed⟩ := exists_padding (n := 15) h0 hlt
    exact ⟨_, _, doNormalize_grow mode k h0 (by simp only [loopFuel]; omega) hneed h1
      (show _ ≤ 10 ^ 16 - 1 by omega) (by omega)
      (by omega) (fun _ => by omega) (by omega) (by omega) (fun _ => by omega),
      by omega, by omega, pad_value _ k _ ▸ roundsToSixteen_digits _ h1 h2 _⟩
  · obtain ⟨g, hg⟩ : ∃ g : Guard, g = ⟨0, false, x.negative, 10 ^ 15, 10 ^ 16 - 1, .disabled⟩ := ⟨_, rfl⟩
    have hread : g.Reads 0 := by rw [hg]; exact Reads.of_zero rfl rfl
    have hlog20 : Nat.log 10 x.mantissa < 20 := Nat.log_lt_of_lt_pow' (by omega) (by omega)
    obtain ⟨t, ht⟩ := shrinkMantissa_ok (w := .u64) (s := ⟨g, x.mantissa, x.exponent⟩) hs (by dsimp only; omega)
      (m := 10 ^ 16 - 1) (by omega)
    rcases shrinkMantissa_reads (n := 15) (w := .u64)
        (s := ⟨g, x.mantissa, x.exponent⟩) hread.toSees rfl hs fun _ => hread
      with ⟨what, hthrow⟩ | ⟨t', ht', f, hr, hv, ⟨dg, xb, hg'⟩, hm, hge, hlog⟩
    · rw [ht] at hthrow
      cases hthrow
    obtain rfl : t = t' := Except.ok.inj (ht.symm.trans ht')
    have hge : 10 ^ 15 ≤ t.mantissa := by
      rcases hge with rfl | h
      · exact absurd hm hlt
      · exact h
    have hexp : x.exponent ≤ t.exponent ∧ t.exponent ≤ x.exponent + 5 := by
      have h1 : 15 ≤ Nat.log 10 t.mantissa := Nat.le_log_of_pow_le (by omega) hge
      have h2 : Nat.log 10 t.mantissa < 16 := Nat.log_lt_of_lt_pow' (by omega) hm
      have h3 : 16 ≤ Nat.log 10 x.mantissa := Nat.le_log_of_pow_le (by omega) (not_lt.1 hlt)
      simp only at hlog
      omega
    rw [hg] at hg'
    obtain ⟨m, e, hrun, he1, he2, hround⟩ := doRoundUp_sixteen .u64 mode "Number::normalize 2"
      (x := ⟨x.negative, t.mantissa, t.exponent⟩) (by rw [hg']) (by rw [hg'])
        (by rw [hg']) hr hge hm (by dsimp only; omega)
      (by dsimp only; omega) 63
    refine ⟨m, e, ?_, by dsimp only at he1; omega, by dsimp only at he2; omega, ?_⟩
    · rw [← hrun]
      unfold doNormalize
      rw [if_neg (by omega), growMantissa, Run.whileDo_done (by simp; omega), Run.ok_bind]
      dsimp only
      rw [← hg, ht, Run.ok_bind]
      unfold normalizeInRange
      rw [if_neg (by rw [hg']; simp only; omega), if_neg (by rw [hg']; show ¬ t.mantissa > kMaxRep; omega)]
      rfl
    · rw [hg'] at hround
      simpa only [hv, add_zero] using hround

/-- The end of the constructor, for sixteen digits: the range checks. -/
def ofDigits (negative : Bool) (m : Nat) (e : Int) : Run String IOUAmount :=
  if e > kMaxExponent then Run.throw "value overflow"
  else if e < kMinExponent then .ok zero
  else .ok ⟨if negative then -m else m, e⟩

theorem ofNumber_rounds (mode : RoundingMode) (h0 : 0 < x.mantissa) (hs : x.mantissa < Width.u64.size)
    (hlow : -32000 ≤ x.exponent) (hhigh : x.exponent ≤ 32000) :
    ∃ m e, RoundsToSixteen (toward mode x.negative) (x.mantissa * 10 ^ x.exponent) m e ∧
      ofNumber mode x = ofDigits x.negative m e := by
  obtain ⟨m, e, hrun, -, -, hm⟩ := doNormalize_sixteen mode h0 hs hlow hhigh
  refine ⟨m, e, hm, ?_⟩
  unfold ofNumber fromNumber
  rw [show kMinMantissa = 10 ^ 15 from rfl, show kMaxMantissa = 10 ^ 16 - 1 from rfl, hrun]
  rfl

variable {e : Int}

/-- The constructor rounds the mantissa it is given to sixteen digits, in every scale. -/
theorem make_rounds (scale : MantissaScale) (mode : RoundingMode) (neg : Bool) (h0 : 0 < m)
    (hm : m ≤ kMaxRep) (hlow : -31000 ≤ e)
    (hhigh : e ≤ 31000) : ∃ n E, RoundsToSixteen (toward mode neg) (m * 10 ^ e) n E ∧
      make (mantissaRange scale) mode (if neg then -m else m) e = ofDigits neg n E := by
  have hrep := kMaxRep_eq
  have hwidth : Width.u64.size = 2 ^ 64 := rfl
  unfold make
  rw [if_neg (by split_ifs <;> omega), natAbs_signed, signed_lt_zero neg h0]
  by_cases hs : Large scale
  · obtain ⟨k, hk, hrun, h1, h2⟩ := doNormalize_large hs mode neg (e := e) h0 hm (by omega) (by omega)
    rw [hrun, Run.ok_bind, ← pad_value m k e]
    exact ofNumber_rounds mode (x := ⟨_, _, _⟩) (by dsimp only; omega) (by dsimp only; omega) (by dsimp only; omega)
      (by dsimp only; omega)
  · obtain rfl : scale = .small := not_not.1 hs
    obtain ⟨n, E, hrun, h1, h2, hround⟩ := doNormalize_sixteen mode (x := ⟨neg, m, e⟩) h0 (by dsimp only; omega)
      (by dsimp only; omega) (by dsimp only; omega)
    obtain ⟨h15, h16⟩ := hround.range
    -- the second normalization finds sixteen digits
    obtain ⟨n', E', hr, heq⟩ := ofNumber_rounds mode (x := ⟨neg, n, E⟩) (by dsimp only; omega)
      (by dsimp only; omega) (by dsimp only at h1 ⊢; omega) (by dsimp only at h2 ⊢; omega)
    obtain ⟨rfl, rfl⟩ := hr.eq_of_digits h15 h16
    refine ⟨_, _, hround, ?_⟩
    rw [← heq]
    exact congrArg (· >>= ofNumber mode) hrun

theorem make_of_normal {neg : Bool} (scale : MantissaScale) (mode : RoundingMode)
    (hmin : kMinMantissa ≤ m) (hmax : m ≤ kMaxMantissa) (hlow : kMinExponent ≤ e) (hhigh : e ≤ kMaxExponent) :
    make (mantissaRange scale) mode (if neg then -m else m) e = .ok ⟨if neg then -m else m, e⟩ := by
  have hrep := kMaxRep_eq
  unfold kMinMantissa at hmin
  unfold kMaxMantissa at hmax
  have hlow' : -96 ≤ e := hlow
  have hhigh' : e ≤ 80 := hhigh
  obtain ⟨n, E, hr, heq⟩ := make_rounds scale mode neg (m := m) (e := e) (by omega) (by omega) (by omega) (by omega)
  obtain ⟨rfl, rfl⟩ := hr.eq_of_digits hmin (by omega)
  rw [heq, ofDigits, if_neg (not_lt.2 hhigh), if_neg (not_lt.2 hlow)]

end IOUAmount

end Rippled.Protocol
