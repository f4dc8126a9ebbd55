import Rippled.Protocol.STNumber
import Rippled.Basics.Sums
import Mathlib.Data.Rat.Floor
/-!
# Numbers as integers

`Number::operator rep` drops the digits below the units into a guard and rounds by it, in the mode of the thread.
`RoundsTo` says which integer that is, in every scale: the fixes of the guard do not change when it rounds up. In scale
`Large330` this is the exact value rounded in that mode (`toRep_eq_roundInt`).
-/

namespace Rippled.Basics

open Lib Guard Protocol Run

namespace Guard

/-- `doRound`: the rounded magnitude with the sign of the guard. -/
def doRound (mode : RoundingMode) (g : Guard) (drops : Nat) (location : String) : Run String Int :=
  let r := g.round mode
  if r = .up ∨ (r = .even ∧ drops &&& 1 = 1) then
    if drops ≥ kMaxRep then Run.throw location
    else .ok (if g.sbit then -((drops + 1 : Nat) : Int) else (drops + 1 : Nat))
  else .ok (if g.sbit then -(drops : Int) else drops)

end Guard

variable {x : Number} {n : Nat} {a : ℚ}

namespace Number

/-- The loop of `operator rep` for a positive exponent. -/
def scaleUp (s : Dropping) : Run String Dropping :=
  Run.whileDo (fun s => decide (s.exponent > 0))
    (fun s =>
      if s.mantissa > kMaxRep / 10 then Run.throw "Number::operator rep() overflow"
      else .ok { s with mantissa := s.mantissa * 10, exponent := s.exponent - 1 })
    loopFuel s

/-- `operator rep`. -/
def toRep (range : MantissaRange) (mode : RoundingMode) (x : Number) : Run String Int :=
  if x.mantissaExt = 0 then .ok 0
  else do
    let g := if x.negative then (Guard.ofRange range).setNegative else Guard.ofRange range
    let s : Dropping := ⟨g, x.mantissaExt, STNumber.exponent x⟩
    let s ← if s.exponent < 0 then doDropDigitWithTarget .u64 0 s else .ok s
    let s ← scaleUp s
    s.guard.doRound mode s.mantissa "Number::operator rep() rounding overflow"

/-! ## Rounding to an integer -/

/-- The integer `n` is what the magnitude `a` is rounded to in the direction `d`. -/
def RoundsTo (d : Toward) (a : ℚ) (n : Nat) : Prop :=
  ∃ (m : Nat) (f : ℚ), 0 ≤ f ∧ f < 1 ∧ a = m + f ∧
    ((RoundsAway d f (m % 2 = 1) ∧ n = m + 1) ∨ (¬ RoundsAway d f (m % 2 = 1) ∧ n = m))

theorem RoundsTo.of_integer (d : Toward) (n : Nat) : RoundsTo d n n := by
  refine ⟨n, 0, le_refl _, by norm_num, by simp, .inr ⟨?_, rfl⟩⟩
  cases d <;> simp [RoundsAway]

theorem roundsAway_zero {d : Toward} {odd : Prop} : ¬ RoundsAway d 0 odd := by
  cases d <;> norm_num [RoundsAway]

theorem roundsAway_mono {d : Toward} {f f' : ℚ} {odd : Prop} (h : RoundsAway d f odd) (h0 : 0 ≤ f) (hf : f ≤ f') :
    RoundsAway d f' odd := by
  cases d with
  | zero => exact h
  | away => exact fun h' => h (le_antisymm (h' ▸ hf) h0)
  | nearest =>
    rcases h with h | ⟨h, ho⟩
    · exact .inl (h.trans_le hf)
    · rcases hf.lt_or_eq with hlt | heq
      · exact .inl (h ▸ hlt)
      · exact .inr ⟨heq ▸ h, ho⟩

theorem RoundsTo.mono {d : Toward} {b : ℚ} {k : Nat} (h : RoundsTo d a n)
    (h' : RoundsTo d b k) (hab : a ≤ b) : n ≤ k := by
  obtain ⟨m, f, h0, h1, rfl, hn⟩ := h
  obtain ⟨m', f', h0', h1', rfl, hk⟩ := h'
  have hle : m < m' + 1 := by
    have : (m : ℚ) < m' + 1 := by linarith
    exact_mod_cast this
  rcases Nat.lt_or_ge m m' with hlt | hge
  · omega
  obtain rfl : m = m' := by omega
  have hf : f ≤ f' := by linarith
  rcases hn with ⟨hr, rfl⟩ | ⟨-, rfl⟩
  · rcases hk with ⟨-, rfl⟩ | ⟨hr', -⟩
    · exact le_rfl
    · exact absurd (roundsAway_mono hr h0 hf) hr'
  · omega

/-! ## What `operator rep` returns -/

def magnitude (x : Number) : ℚ := x.mantissaExt * 10 ^ STNumber.exponent x

theorem magnitude_eq (h : kMaxRep < x.mantissa → x.mantissa % 10 = 0) : x.magnitude = |x.val| := by
  rw [abs_val]
  unfold magnitude mantissaExt STNumber.exponent
  by_cases hbig : x.mantissa > kMaxRep
  · have h10 : ((x.mantissa / 10 : Nat) : ℚ) * 10 = x.mantissa := by
      exact_mod_cast (show x.mantissa / 10 * 10 = x.mantissa by have := h hbig; omega)
    rw [if_pos hbig, if_pos hbig, zpow_add_one₀ (by norm_num), ← h10]
    ring
  · rw [if_neg hbig, if_neg hbig]

variable {f : ℚ} {s : Dropping}

/-- The loop multiplies up to an exponent of zero, or throws when the result has no room. -/
theorem scaleUp_eq (g : Guard) {m : Nat} (h0 : m ≠ 0) (hle : m ≤ kMaxRep) (k : Nat) :
    scaleUp ⟨g, m, k⟩ =
      if m * 10 ^ k ≤ kMaxRep then .ok ⟨g, m * 10 ^ k, 0⟩ else Run.throw "Number::operator rep() overflow" := by
  have hrep := kMaxRep_eq
  have hlt : ∀ m, m ≠ 0 → m ≤ kMaxRep → Nat.log 10 m < 19 := fun m h0 hm => Nat.log_lt_of_lt_pow h0 (by omega)
  unfold scaleUp
  -- each round takes a digit of room, of which there are at most 19
  have hfuel : 20 ≤ loopFuel + Nat.log 10 m := by simp only [loopFuel]; omega
  generalize loopFuel = n at hfuel
  induction k generalizing m n with
  | zero =>
    rw [whileDo_done (by simp), pow_zero, mul_one, if_pos hle]
    rfl
  | succ k ih =>
    have hlog := hlt m h0 hle
    obtain ⟨n, rfl⟩ : ∃ n', n = n' + 1 := ⟨n - 1, by omega⟩
    have hpos : ((k + 1 : Nat) : Int) > 0 := by omega
    have hcond : decide (((k + 1 : Nat) : Int) > 0) = true := decide_eq_true hpos
    by_cases hroom : m > kMaxRep / 10
    · have hbig : ¬ m * 10 ^ (k + 1) ≤ kMaxRep := by
        have hten : m * 10 ≤ m * 10 ^ (k + 1) := Nat.mul_le_mul_left m (Nat.le_self_pow (by omega) 10)
        omega
      rw [if_neg hbig]
      simp only [whileDo, hcond, if_true, if_pos hroom]
      rfl
    · have hten : m * 10 ≠ 0 := by omega
      have hlog' : Nat.log 10 (m * 10) = Nat.log 10 m + 1 := Nat.log_mul_base (by omega) h0
      have hexp : ((k + 1 : Nat) : Int) - 1 = k := by omega
      have hih := ih hten (by omega) n (by omega)
      rw [mul_assoc, ← pow_succ'] at hih
      rw [← hih]
      simp only [whileDo, hcond, if_true, if_neg hroom, hexp, ok_bind]

variable (mode : RoundingMode) (m : Nat) {g : Guard}

/-- The guard decides whether the magnitude goes up by one, if there is room for that. -/
theorem doRound_eq (hr : g.Reads f) {m : Nat} (hm : f = 0 ∨ m < kMaxRep) (location : String) :
    ∃ n : Nat, g.doRound mode m location = .ok (if g.sbit then -(n : Int) else n) ∧
      RoundsTo (toward mode g.sbit) (m + f) n ∧ (f = 0 → n = m) ∧ n ≤ m + 1 := by
  have hup := round_up_iff hr mode (m % 2 = 1)
  unfold doRound
  simp only [and_one_eq]
  by_cases h : RoundsAway (toward mode g.sbit) f (m % 2 = 1)
  · have hf : f ≠ 0 := by
      rintro rfl
      exact roundsAway_zero h
    rw [if_pos (hup.2 h), if_neg (not_le.2 (hm.resolve_left hf))]
    exact ⟨m + 1, rfl, ⟨m, f, hr.nonneg, hr.lt_one, rfl, .inl ⟨h, rfl⟩⟩, fun h0 => absurd h0 hf, le_refl _⟩
  · rw [if_neg (fun h' => h (hup.1 h'))]
    exact ⟨m, rfl, ⟨m, f, hr.nonneg, hr.lt_one, rfl, .inr ⟨h, rfl⟩⟩, fun _ => rfl, Nat.le_succ m⟩

/-- `operator rep` rounds the magnitude to an integer in the direction its mode asks for, and throws exactly if the
integer has no room. -/
theorem toRep_eq (range : MantissaRange) (mode : RoundingMode) (hx : x.mantissa ≤ 10 ^ 19) :
    ∃ n : Nat, RoundsTo (toward mode x.negative) x.magnitude n ∧ x.toRep range mode =
      if n ≤ kMaxRep then .ok (if x.negative then -(n : Int) else n)
        else Run.throw "Number::operator rep() overflow" := by
  have hrep := kMaxRep_eq
  have hext : x.mantissaExt ≤ kMaxRep := by
    unfold mantissaExt
    split <;> omega
  unfold toRep
  by_cases h0 : x.mantissaExt = 0
  · have hz : x.magnitude = ((0 : Nat) : ℚ) := by simp [magnitude, h0]
    refine ⟨0, hz ▸ RoundsTo.of_integer _ 0, ?_⟩
    rw [if_pos h0, if_pos (Nat.zero_le _)]
    simp
  rw [if_neg h0]
  obtain ⟨g, hg, hsign, hreads⟩ : ∃ g : Guard, g =
      (if x.negative then (Guard.ofRange range).setNegative else Guard.ofRange range) ∧
      g.sbit = x.negative ∧ g.Reads 0 := by
    refine ⟨_, rfl, ?_, ?_⟩ <;> cases x.negative <;> first | rfl | exact Reads.of_zero rfl rfl
  simp only [← hg]
  by_cases he : STNumber.exponent x < 0
  · obtain ⟨g', m, f, hdrop, ⟨d, b, hg'⟩, hf, hval, -⟩ := doDropDigitWithTarget_reads .u64
      (s := ⟨g, x.mantissaExt, STNumber.exponent x⟩)
      (a := x.magnitude) hreads.toSees (by simp [magnitude]) he (by dsimp only; omega)
    have hs' : g'.sbit = x.negative := by rw [hg']; exact hsign
    rw [zpow_zero, mul_one] at hval
    -- a digit at least was dropped, so that there is room to round up
    have hm : m < kMaxRep := by
      have hpow : (10 : ℚ) ^ STNumber.exponent x ≤ 10 ^ (-1 : Int) := zpow_le_zpow_right₀ (by norm_num) (by omega)
      have hext' : (x.mantissaExt : ℚ) ≤ kMaxRep := by exact_mod_cast hext
      have hle : x.magnitude ≤ kMaxRep * 10 ^ (-1 : Int) := mul_le_mul hext' hpow (by positivity) (by positivity)
      have hlt : (m : ℚ) < kMaxRep := by
        have hpos : (0 : ℚ) < kMaxRep := by rw [hrep]; norm_num
        have hf0 := hf.nonneg
        rw [← hval] at hle
        norm_num at hle
        linarith
      exact_mod_cast hlt
    obtain ⟨n, hround, hn, -, hle⟩ := doRound_eq mode hf (.inr hm) "Number::operator rep() rounding overflow"
    have hdone : scaleUp ⟨g', m, 0⟩ = .ok ⟨g', m, 0⟩ := whileDo_done (by simp) _
    rw [hs', hval] at hn
    refine ⟨n, hn, ?_⟩
    rw [if_pos he, hdrop, ok_bind, hdone, ok_bind, hround, hs', if_pos (show n ≤ kMaxRep by omega)]
  · obtain ⟨k, hk⟩ : ∃ k : Nat, STNumber.exponent x = k := ⟨(STNumber.exponent x).toNat, by omega⟩
    have hval : x.magnitude = (x.mantissaExt * 10 ^ k : Nat) := by
      unfold magnitude
      rw [hk, zpow_natCast]
      push_cast
      rfl
    rw [if_neg he, ok_bind, hk, scaleUp_eq g h0 hext k]
    refine ⟨x.mantissaExt * 10 ^ k, hval ▸ RoundsTo.of_integer _ _, ?_⟩
    split
    · obtain ⟨n, hround, -, hn, -⟩ := doRound_eq mode hreads (m := x.mantissaExt * 10 ^ k) (.inl rfl)
        "Number::operator rep() rounding overflow"
      rw [ok_bind, hround, hn rfl, hsign]
    · rfl

/-- The integer that a rational is rounded to; to nearest, a tie goes to the even one. -/
def roundInt (mode : RoundingMode) (v : ℚ) : Int :=
  match mode with
  | .toNearest => if v - ⌊v⌋ < 1 / 2 ∨ (v - ⌊v⌋ = 1 / 2 ∧ ⌊v⌋ % 2 = 0) then ⌊v⌋ else ⌊v⌋ + 1
  | .towardsZero => if v < 0 then ⌈v⌉ else ⌊v⌋
  | .downward => ⌊v⌋
  | .upward => ⌈v⌉

theorem floor_nat_add (h0 : 0 ≤ f) (h1 : f < 1) : ⌊(m : ℚ) + f⌋ = m := by
  rw [Int.floor_eq_iff]
  push_cast
  exact ⟨by linarith, by linarith⟩

theorem ceil_nat_add (h0 : 0 ≤ f) (h1 : f < 1) : ⌈(m : ℚ) + f⌉ = if f = 0 then (m : Int) else m + 1 := by
  rw [Int.ceil_eq_iff]
  split
  · rename_i hf
    push_cast
    exact ⟨by linarith, by linarith⟩
  · rename_i hf
    have hpos : 0 < f := lt_of_le_of_ne h0 (Ne.symm hf)
    push_cast
    exact ⟨by linarith, by linarith⟩

/-- A fraction is rounded down if it is below one half, or one half over an even integer. -/
theorem not_roundsAway_nearest {odd even : Prop} (h : even ↔ ¬ odd) :
    ¬ RoundsAway .nearest f odd ↔ f < 1 / 2 ∨ (f = 1 / 2 ∧ even) := by
  constructor
  · intro hn
    rcases lt_trichotomy f (1 / 2) with hlt | heq | hgt
    · exact .inl hlt
    · exact .inr ⟨heq, h.2 fun ho => hn (.inr ⟨heq, ho⟩)⟩
    · exact absurd (.inl hgt) hn
  · rintro (hlt | ⟨heq, he⟩) (hgt | ⟨heq', ho⟩)
    · linarith
    · linarith
    · linarith
    · exact h.1 he ho

theorem roundInt_nearest (h0 : 0 ≤ f) (h1 : f < 1) [Decidable (RoundsAway .nearest f (m % 2 = 1))] :
    roundInt .toNearest (m + f) = if RoundsAway .nearest f (m % 2 = 1) then (m : Int) + 1 else m := by
  have heven : ((m : Int) % 2 = 0) ↔ ¬ m % 2 = 1 := by omega
  simp only [roundInt, floor_nat_add m h0 h1, Int.cast_natCast, add_sub_cancel_left,
    ← not_roundsAway_nearest heven, ite_not]

/-- And a negative one as if it were positive: its fraction is what is missing to one, over an integer of the other
parity. -/
theorem roundInt_nearest_neg (h0 : 0 ≤ f) (h1 : f < 1) [Decidable (RoundsAway .nearest f (m % 2 = 1))] :
    roundInt .toNearest (-(m + f)) = -if RoundsAway .nearest f (m % 2 = 1) then (m : Int) + 1 else m := by
  simp only [roundInt, Int.floor_neg, ceil_nat_add m h0 h1]
  by_cases hf : f = 0
  · subst hf
    have hdown : ¬ RoundsAway .nearest (0 : ℚ) (m % 2 = 1) := by norm_num [RoundsAway]
    simp [hdown]
  · have hfrac : -((m : ℚ) + f) - (-((m : Int) + 1) : Int) = 1 - f := by
      push_cast
      ring
    have haway : (1 - f < 1 / 2 ∨ (1 - f = 1 / 2 ∧ -((m : Int) + 1) % 2 = 0)) ↔ RoundsAway .nearest f (m % 2 = 1) := by
      have hodd : (-((m : Int) + 1) % 2 = 0) ↔ m % 2 = 1 := by omega
      have hlt : 1 - f < 1 / 2 ↔ 1 / 2 < f := by constructor <;> intro h <;> linarith
      have heq : 1 - f = 1 / 2 ↔ f = 1 / 2 := by constructor <;> intro h <;> linarith
      rw [hodd, hlt, heq]
      rfl
    simp only [if_neg hf, hfrac, haway]
    split
    · rfl
    · ring

/-- Rounding a magnitude in the direction of its sign is rounding the signed value. -/
theorem roundInt_of_roundsTo {mode : RoundingMode} {negative : Bool} (h : RoundsTo (toward mode negative) a n) :
    roundInt mode (if negative then -a else a) = if negative then -(n : Int) else n := by
  classical
  obtain ⟨m, f, h0, h1, rfl, hn⟩ := h
  have hround : (n : Int) = if RoundsAway (toward mode negative) f (m % 2 = 1) then (m : Int) + 1 else m := by
    rcases hn with ⟨h, rfl⟩ | ⟨h, rfl⟩
    · rw [if_pos h]
      rfl
    · rw [if_neg h]
  have hfloor := floor_nat_add m h0 h1
  have hceil := ceil_nat_add m h0 h1
  have hnonneg : (0 : ℚ) ≤ m + f := add_nonneg (Nat.cast_nonneg m) h0
  rw [hround]
  cases negative with
  | false =>
    cases mode with
    | toNearest => exact roundInt_nearest m h0 h1
    | towardsZero =>
      simp only [roundInt, toward, RoundsAway, Bool.false_eq_true, ↓reduceIte, if_neg (not_lt.2 hnonneg), hfloor]
    | downward => simp only [roundInt, toward, RoundsAway, Bool.false_eq_true, ↓reduceIte, hfloor]
    | upward => simp only [roundInt, toward, RoundsAway, Bool.false_eq_true, ↓reduceIte, ne_eq, ite_not, hceil]
  | true =>
    cases mode with
    | toNearest => exact roundInt_nearest_neg m h0 h1
    | towardsZero =>
      simp only [roundInt, toward, RoundsAway, ↓reduceIte, Int.ceil_neg, Int.floor_neg, hfloor, hceil]
      split
      · rfl
      · rename_i hneg
        have hf : f = 0 := by linarith [(Nat.cast_nonneg m : (0 : ℚ) ≤ m)]
        rw [if_pos hf]
    | downward => simp only [roundInt, toward, RoundsAway, ↓reduceIte, ne_eq, ite_not, Int.floor_neg, hceil]
    | upward => simp only [roundInt, toward, RoundsAway, ↓reduceIte, Int.ceil_neg, hfloor]

/-- In scale `Large330`, `operator rep` returns the exact value rounded to an integer in the mode of the thread if that
fits in 63 bits and a sign, and throws otherwise. -/
theorem toRep_eq_roundInt (hx : x.Normal) :
    x.toRep large330 mode = if (roundInt mode x.val).natAbs ≤ kMaxRep then .ok (roundInt mode x.val)
      else Run.throw "Number::operator rep() overflow" := by
  have hmantissa : x.mantissa ≤ 10 ^ 19 ∧ (kMaxRep < x.mantissa → x.mantissa % 10 = 0) := by
    rcases normal_iff.1 hx with rfl | ⟨-, hlt, hten, -⟩
    · exact ⟨by decide, fun h => absurd h (by decide)⟩
    · exact ⟨hlt.le, fun h => hten.resolve_left (not_le.2 h)⟩
  obtain ⟨n, hn, h⟩ := toRep_eq large330 mode hmantissa.1
  have hval : x.val = if x.negative then -x.magnitude else x.magnitude := by
    rw [magnitude_eq hmantissa.2, abs_val, val]
    split <;> ring
  rw [hval, roundInt_of_roundsTo hn, h]
  cases x.negative with
  | false => rfl
  | true => simp only [if_true, Int.natAbs_neg, Int.natAbs_natCast]

/-- The greatest integer is returned, and one more is an overflow; minus two and a half goes to minus two. -/
theorem toRep_eq_roundInt_bounds :
    Number.toRep large330 .upward ⟨false, kMaxRep, 0⟩ = .ok 9223372036854775807 ∧
      Number.toRep large330 .toNearest ⟨false, 9223372036854775810, 0⟩ = Run.throw "Number::operator rep() overflow" ∧
      Number.toRep large330 .toNearest ⟨true, 2500000000000000000, -18⟩ = .ok (-2) := by
  refine ⟨?_, ?_, ?_⟩
  · rw [toRep_eq_roundInt .upward (by decide)]
    decide +kernel
  · rw [toRep_eq_roundInt .toNearest (by decide)]
    decide +kernel
  · rw [toRep_eq_roundInt .toNearest (by decide)]
    decide +kernel

end Number

end Rippled.Basics
