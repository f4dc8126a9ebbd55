import Rippled.Protocol.IOUAmount
import Rippled.Protocol.Serializer

/-!
# The wire form of numbers

`STNumber` writes the external view of a `Number`, a mantissa of 64 bits and an exponent, and reads it through the
constructor of `Number` that normalizes. What is read is in a form that is read again (`canonical_of_make`,
`make_of_canonical`), in every scale and rounding mode.
-/

namespace Rippled.Protocol

open Lib Lib.Reader Basics Basics.Guard Basics.Number IOUAmount Serializer

namespace SerialIter

/-- The number that `n` bits are as a signed integer. -/
def signed (n value : Nat) : Int := if value < 2 ^ (n - 1) then value else value - 2 ^ n

def geti64 : SerialIter Int := do
  let t ← takeBytes 8 (.runtimeError "invalid SerialIter geti64")
  return signed 64 (ofBE t)

def geti32 : SerialIter Int := do
  let t ← takeBytes 4 (.runtimeError "invalid SerialIter geti32")
  return signed 32 (ofBE t)

end SerialIter

namespace STNumber

def mantissa (x : Number) : Int := if x.negative then -x.mantissaExt else x.mantissaExt

def exponent (x : Number) : Int := if x.mantissa > kMaxRep then x.exponent + 1 else x.exponent

/-- The constructor `Number(rep mantissa, int exponent)`. -/
def make (scale : MantissaScale) (mode : RoundingMode) (mantissa exponent : Int) : Run String Number :=
  doNormalize .u64 mode (mantissaRange scale).min (mantissaRange scale).max (mantissaRange scale).cuspRoundingFix false
    ⟨decide (mantissa < 0), mantissa.natAbs, exponent⟩

/-- The constructor, with what it throws. -/
def construct (scale : MantissaScale) (mode : RoundingMode) (mantissa exponent : Int) : Except Exception Number :=
  match make scale mode mantissa exponent with
  | .ok n => .ok n
  | .error (.thrown what) => .error (.overflowError what)
  | .error .outOfFuel => .error .outOfFuel

def ofSerialIter (scale : MantissaScale) (mode : RoundingMode) : SerialIter Number := do
  let mantissa ← SerialIter.geti64
  let exponent ← SerialIter.geti32
  SerialIter.lift (construct scale mode mantissa exponent)

/-- `add`. The rounding of the source for a field with an asset comes after the two parts are taken, and is without
effect. -/
def add (x : Number) : Bytes := toBE 8 (mantissa x % 2 ^ 64).toNat ++ toBE 4 (exponent x % 2 ^ 32).toNat

/-- The numbers that normalizing gives. With the highest exponent a mantissa above the limit cannot be normalized. -/
def Canonical (scale : MantissaScale) (x : Number) : Prop :=
  x = kZero ∨
    ((mantissaRange scale).min ≤ x.mantissa ∧ x.mantissa ≤ (mantissaRange scale).max ∧
      (kMaxRep < x.mantissa → x.mantissa % 10 = 0) ∧
      Basics.kMinExponent ≤ x.exponent ∧ x.exponent ≤ Basics.kMaxExponent ∧
      (repLimit (mantissaRange scale).cuspRoundingFix < x.mantissa → x.exponent < Basics.kMaxExponent))

/-! ## What is written is read again -/

theorem rangeMin_cases (scale : MantissaScale) :
    (mantissaRange scale).min = 10 ^ 15 ∨ (mantissaRange scale).min = 10 ^ 18 := by
  cases scale <;> simp [mantissaRange, MantissaScale.getExponent]

theorem rangeMax_eq (scale : MantissaScale) : (mantissaRange scale).max = (mantissaRange scale).min * 10 - 1 := rfl

variable {x : Number}

/-- A canonical number is made of its own parts. -/
theorem make_of_canonical (scale : MantissaScale) (mode : RoundingMode) (h : Canonical scale x) :
    make scale mode (mantissa x) (exponent x) = .ok x := by
  rcases h with rfl | ⟨hmin, hmax, h10, hlow, hhigh, hroom⟩
  · rfl
  · have hmin' := rangeMin_cases scale
    have hmax' := rangeMax_eq scale
    have hwidth : Width.u64.size = 2 ^ 64 := rfl
    have hrep := kMaxRep_eq
    obtain ⟨negative, m, e⟩ := x
    dsimp only at hmin hmax h10 hlow hhigh hroom
    unfold make mantissa exponent mantissaExt
    dsimp only
    -- a digit that the external view leaves out is a zero, and comes back
    obtain ⟨k, n, hk, rfl, hn, he, hneed⟩ : ∃ k n : Nat, k ≤ 1 ∧ m = n * 10 ^ k ∧
        n = (if m > kMaxRep then m / 10 else m) ∧
        (if m > kMaxRep then e + 1 else e) = e + k ∧ ∀ j < k, n * 10 ^ j < (mantissaRange scale).min := by
      by_cases hbig : m > kMaxRep
      · have h10' := h10 hbig
        refine ⟨1, m / 10, le_rfl, by omega, by rw [if_pos hbig], by rw [if_pos hbig]; rfl, fun j hj => ?_⟩
        obtain rfl : j = 0 := by omega
        omega
      · exact ⟨0, m, by omega, by omega, by rw [if_neg hbig], by rw [if_neg hbig]; simp,
          fun j hj => absurd hj (Nat.not_lt_zero j)⟩
    have hpos : 0 < n := by
      rcases Nat.eq_zero_or_pos n with rfl | h
      · omega
      · exact h
    rw [← hn, he, natAbs_signed, signed_lt_zero _ hpos,
      doNormalize_grow mode k hpos (by simp only [loopFuel]; omega) hneed
      hmin hmax (by omega) (by omega) h10 (by omega) (by omega)
        (by intro hlt; have := hroom hlt; omega), add_sub_cancel_right]

/-! ## What is read is canonical -/

variable {y : Number} {g : Guard}

theorem finishRoundUp_eq_ok {w : Width} {location : String} (hm : g.minMantissa ≤ x.mantissa) (hpos : 0 < x.mantissa)
    (hlow : Basics.kMinExponent ≤ x.exponent) (h : g.finishRoundUp w location x = .ok y) :
    y = x ∧ x.exponent ≤ Basics.kMaxExponent := by
  rw [finishRoundUp_of_ge w location hm hpos hlow] at h
  split_ifs at h with hhigh
  · cases h
  · cases h
    exact ⟨rfl, not_lt.1 hhigh⟩

variable {e : Int} {negative : Bool}

/-- The first loop pads with zeros, until there are enough digits or the exponent is the lowest. -/
theorem growMantissa_eq_ok {minMantissa : Nat} {m : Nat} (hmin : minMantissa ≤ 10 ^ 18)
    (h : growMantissa .u64 minMantissa ⟨negative, m, e⟩ = .ok y) :
    ∃ k : Nat, y = ⟨negative, m * 10 ^ k, e - k⟩ ∧ (k ≠ 0 → m * 10 ^ k < 10 * minMantissa) := by
  unfold growMantissa at h
  refine (Run.whileDo_eq_ok (fun y : Number => ∃ k : Nat, y = ⟨negative, m * 10 ^ k, e - k⟩ ∧
    (k ≠ 0 → m * 10 ^ k < 10 * minMantissa))
    (fun s s' hs hc hb => ?_) ⟨0, by simp⟩ h).1
  obtain ⟨k, rfl, -⟩ := hs
  rw [decide_eq_true_iff] at hc
  dsimp only at hc
  cases hb
  have hwrap : Width.u64.wrap (m * 10 ^ k * 10) = m * 10 ^ k * 10 := by
    have hwidth : Width.u64.size = 2 ^ 64 := rfl
    exact wrap_of_lt (by omega)
  refine ⟨k + 1, ?_, fun _ => ?_⟩
  · simp only [hwrap, Number.mk.injEq, true_and]
    refine ⟨by ring, by push_cast; ring⟩
  · rw [pow_succ, ← mul_assoc]
    omega

variable {mode : RoundingMode}

theorem normalizeInRange_eq_ok (hd : g.digits = 0) (hx : g.xbit = false) {m : Nat} (hpos : 0 < g.minMantissa)
    (h10 : kMaxRep < m → m % 10 = 0 ∧ m < 10 * g.minMantissa) (hsize : m < Width.u64.size)
    (h : normalizeInRange .u64 mode negative ⟨g, m, e⟩ = .ok y) :
    y = kZero ∨ (y = ⟨negative, m, e⟩ ∧ g.minMantissa ≤ m ∧ Basics.kMinExponent ≤ e ∧ e ≤ Basics.kMaxExponent ∧
      (repLimit g.cuspRoundingFix < m → e < Basics.kMaxExponent)) := by
  by_cases hz : e < Basics.kMinExponent ∨ m < g.minMantissa
  · unfold normalizeInRange at h
    rw [if_pos hz] at h
    cases h
    exact .inl rfl
  · by_cases hroom : e ≤ Basics.kMaxExponent ∧ (repLimit g.cuspRoundingFix < m → e < Basics.kMaxExponent)
    · rw [normalizeInRange_exact mode hd hx (by omega) (by omega) h10 hsize (by omega) hroom.1 hroom.2] at h
      cases h
      exact .inr ⟨rfl, by omega, by omega, hroom.1, hroom.2⟩
    · exfalso
      have hrepUp := kMaxRepUp_eq
      have hrep := kMaxRep_eq
      unfold normalizeInRange at h
      rw [if_neg hz] at h
      by_cases hbig : m > repLimit g.cuspRoundingFix
      · have hhigh : e ≥ Basics.kMaxExponent := by
          by_contra hlt
          exact hroom ⟨by omega, fun _ => by omega⟩
        rw [if_pos hbig, if_pos hhigh] at h
        cases h
      · have hgap : m ≤ kMaxRep ∨ kMaxRepUp ≤ m := by
          by_contra hgap
          have := h10 (by omega)
          omega
        rw [if_neg hbig, show loopFuel = 63 + 1 from rfl, doRoundUp_of_empty _ _ _ hd hx hgap] at h
        have hfinish := (finishRoundUp_eq_ok (by dsimp only; omega) (by dsimp only; omega) (by dsimp only; omega) h).2
        exact hroom ⟨hfinish, fun hlt => absurd hlt hbig⟩

theorem shrinkMantissa_eq_ok {w : Width} {maxMantissa : Nat} {s s' : Dropping}
    (h : shrinkMantissa w maxMantissa s = .ok s') :
    s'.mantissa ≤ maxMantissa ∧ ∃ d b, s'.guard = { s.guard with digits := d, xbit := b } := by
  unfold shrinkMantissa at h
  obtain ⟨hinv, hdone⟩ := Run.whileDo_eq_ok (fun u : Dropping => ∃ d b,
      u.guard = { s.guard with digits := d, xbit := b }) (by
    rintro s₁ s₂ ⟨d, b, hs⟩ - hb
    split at hb
    · cases hb
    · cases hb
      exact ⟨_, _, by rw [doDropDigit, hs]; rfl⟩) ⟨_, _, rfl⟩ h
  rw [decide_eq_false_iff_not, not_lt] at hdone
  exact ⟨hdone, hinv⟩

/-- With the last fix a mantissa in the gap above the largest `int64` goes to one of the gap's ends. -/
theorem doRoundUp_of_gap (mode : RoundingMode) (location : String) (n : Nat) (hfix : g.cuspRoundingFix = .enabled330)
    (hrep : kMaxRep < x.mantissa) (hup : x.mantissa < kMaxRepUp) :
    ∃ m g', (m = kMaxRep ∨ m = kMaxRepUp) ∧ g'.minMantissa = g.minMantissa ∧
      doRoundUp .u64 mode location (n + 1) g x = Guard.finishRoundUp .u64 g' location { x with mantissa := m } := by
  have hkept : (g.pushOverflow mode x.mantissa).cuspRoundingFix = g.cuspRoundingFix ∧
      (g.pushOverflow mode x.mantissa).minMantissa = g.minMantissa := by
    unfold pushOverflow
    split_ifs <;> exact ⟨rfl, rfl⟩
  have hgap : (g.pushOverflow mode x.mantissa).cuspRoundingFix.enabled330OrLater = true ∧ kMaxRep < x.mantissa ∧
      x.mantissa < kMaxRepUp := ⟨by rw [hkept.1, hfix]; rfl, hrep, hup⟩
  unfold doRoundUp
  by_cases hr : (g.pushOverflow mode x.mantissa).round mode = .up ∨
      ((g.pushOverflow mode x.mantissa).round mode = .even ∧ x.mantissa &&& 1 = 1)
  · refine ⟨_, _, .inr rfl, hkept.2, ?_⟩
    rw [if_pos hr, if_pos (by rw [hkept.1, hfix]; decide), if_neg (by omega), if_pos hgap]
  · refine ⟨_, _, .inl rfl, hkept.2, ?_⟩
    rw [if_neg hr, if_pos hgap]

/-- Where all mantissas fit the external view, rounding up may carry into the next power of ten. -/
theorem doRoundUp_small {location : String} {n : Nat} (hfix : g.cuspRoundingFix = .disabled)
    (hmin : g.minMantissa ≤ x.mantissa) (hmax : x.mantissa ≤ g.maxMantissa)
    (hrange : g.maxMantissa + 1 = 10 * g.minMantissa) (hrep : g.maxMantissa < kMaxRep)
    (hlow : Basics.kMinExponent ≤ x.exponent) (h : doRoundUp .u64 mode location (n + 1) g x = .ok y) :
    g.minMantissa ≤ y.mantissa ∧ y.mantissa ≤ g.maxMantissa ∧ Basics.kMinExponent ≤ y.exponent ∧
      y.exponent ≤ Basics.kMaxExponent := by
  have hrep' := kMaxRep_eq
  have hwidth : Width.u64.size = 2 ^ 64 := rfl
  have hoff : g.cuspRoundingFix.enabled330OrLater = false := by rw [hfix]; rfl
  have hpush : g.pushOverflow mode x.mantissa = g := by simp [pushOverflow, hoff]
  have hwrap : Width.u64.wrap (x.mantissa + 1) = x.mantissa + 1 := wrap_of_lt (by omega)
  unfold doRoundUp at h
  dsimp only at h
  rw [hpush, hwrap, if_neg (not_not.2 hfix), hoff] at h
  simp only [Bool.false_eq_true, false_and, if_false] at h
  split_ifs at h with hup hcarry
  · obtain ⟨rfl, hhigh⟩ := finishRoundUp_eq_ok (by dsimp only; omega) (by dsimp only; omega) (by dsimp only; omega) h
    dsimp only at hhigh ⊢
    omega
  · obtain ⟨rfl, hhigh⟩ := finishRoundUp_eq_ok (by dsimp only; omega) (by dsimp only; omega) (by dsimp only; omega) h
    dsimp only at hhigh ⊢
    omega
  · obtain ⟨rfl, hhigh⟩ := finishRoundUp_eq_ok hmin (by omega) hlow h
    omega

theorem canonical_of_make_small {m : Int} (h : make .small mode m e = .ok y) : Canonical .small y := by
  have hmin : (mantissaRange .small).min = 10 ^ 15 := rfl
  have hmax : (mantissaRange .small).max = 10 ^ 16 - 1 := rfl
  have hfix : (mantissaRange .small).cuspRoundingFix = .disabled := rfl
  have hrep := kMaxRep_eq
  have hlimit : repLimit .disabled = kMaxRep := rfl
  unfold make doNormalize at h
  split_ifs at h with hzero
  · cases h
    exact .inl rfl
  · obtain ⟨x, -, h⟩ := Run.bind_eq_ok.1 h
    obtain ⟨s, hs, h⟩ := Run.bind_eq_ok.1 h
    obtain ⟨hle, d, b, hg⟩ := shrinkMantissa_eq_ok hs
    have hmin' : s.guard.minMantissa = (mantissaRange .small).min := by rw [hg]
    have hmax' : s.guard.maxMantissa = (mantissaRange .small).max := by rw [hg]
    have hfix' : s.guard.cuspRoundingFix = (mantissaRange .small).cuspRoundingFix := by rw [hg]
    have hlimit' : repLimit s.guard.cuspRoundingFix = kMaxRep := by rw [hfix', hfix, hlimit]
    unfold normalizeInRange at h
    by_cases hlow : s.exponent < Basics.kMinExponent ∨ s.mantissa < s.guard.minMantissa
    · rw [if_pos hlow] at h
      cases h
      exact .inl rfl
    · rw [if_neg hlow, if_neg (by omega), show loopFuel = 63 + 1 from rfl] at h
      obtain ⟨h1, h2, h3, h4⟩ := doRoundUp_small (hfix'.trans hfix) (by dsimp only; omega)
          (by dsimp only; omega) (by omega)
        (by omega) (by dsimp only; omega) h
      refine .inr ⟨by omega, by omega, fun h => by omega, h3, h4, fun h => ?_⟩
      rw [hfix] at h
      omega

variable {scale : MantissaScale}

/-- The lowest `int64`, whose absolute value is the only one above `kMaxRep`. It is rounded to one of its neighbours
that are. -/
theorem canonical_of_lowest (hmin : (mantissaRange scale).min = 10 ^ 18)
    (hg : g.minMantissa = (mantissaRange scale).min ∧ g.maxMantissa = (mantissaRange scale).max ∧
      g.cuspRoundingFix = (mantissaRange scale).cuspRoundingFix)
    (h : normalizeInRange .u64 mode negative ⟨g, 9223372036854775808, e⟩ = .ok y) : Canonical scale y := by
  have hmax := rangeMax_eq scale
  obtain ⟨hgmin, hgmax, hgfix⟩ := hg
  have hrep := kMaxRep_eq
  have hrepUp := kMaxRepUp_eq
  have hwidth : Width.u64.size = 2 ^ 64 := rfl
  by_cases hlow : e < Basics.kMinExponent
  · unfold normalizeInRange at h
    rw [if_pos (.inl hlow)] at h
    cases h
    exact .inl rfl
  generalize hm : 9223372036854775808 = m at h
  unfold normalizeInRange at h
  dsimp only at h
  rw [if_neg (by omega)] at h
  rw [show loopFuel = 63 + 1 from rfl] at h
  by_cases h330 : g.cuspRoundingFix = .enabled330
  · have hlimit : repLimit g.cuspRoundingFix = kMaxRepUp := by rw [h330]; rfl
    rw [if_neg (by omega)] at h
    obtain ⟨m', g', hm', hg', heq⟩ := doRoundUp_of_gap mode "Number::normalize 2" 63
        (x := ⟨negative, m, e⟩) h330 (by dsimp only; omega)
      (by dsimp only; omega)
    rw [heq] at h
    obtain ⟨rfl, hhigh⟩ := finishRoundUp_eq_ok (by dsimp only; omega) (by dsimp only; omega) (by dsimp only; omega) h
    refine .inr ⟨by dsimp only; omega,
      by dsimp only; omega, fun hlt => by dsimp only at hlt ⊢; omega, by dsimp only; omega,
      hhigh, fun hlt => ?_⟩
    rw [← hgfix] at hlt
    dsimp only at hlt
    omega
  · -- the last digit is dropped, the mantissa rounded, and a zero comes back
    have hlimit : repLimit g.cuspRoundingFix = kMaxRep := by
      cases hfix : g.cuspRoundingFix with
      | disabled => rfl
      | enabled320 => rfl
      | enabled330 => exact absurd hfix h330
    rw [if_pos (by omega)] at h
    have hhigh : ¬ e ≥ Basics.kMaxExponent := by
      intro hhigh
      rw [if_pos hhigh] at h
      cases h
    rw [if_neg hhigh, doDropDigit_eq (by dsimp only; omega)] at h
    rw [Guard.doRoundUp_of_lt .u64 mode _ (show m / 10 < g.maxMantissa by omega) (by dsimp only; omega)] at h
    obtain ⟨m', hm', heq⟩ : ∃ m', (m' = m / 10 ∨ m' = m / 10 + 1) ∧ (if (g.doPush (m % 10)).round mode = .up ∨
        ((g.doPush (m % 10)).round mode = .even ∧ m / 10 % 2 = 1) then m / 10 + 1 else m / 10) = m' := by
      refine ⟨_, ?_, rfl⟩
      split <;> simp
    rw [heq, finishRoundUp_of_lt .u64 _ (show m' < g.minMantissa by omega) (by dsimp only; omega) (by dsimp only; omega)
      (by dsimp only; omega) (by dsimp only; omega)] at h
    cases h
    exact .inr ⟨by dsimp only; omega, by dsimp only; omega, fun _ => by dsimp only; omega, by dsimp only; omega,
      by dsimp only; omega, fun _ => by dsimp only; omega⟩

/-- What `make` gives is canonical. -/
theorem canonical_of_make {m : Int} (hm : m.natAbs ≤ 9223372036854775808) (h : make scale mode m e = .ok y) :
    Canonical scale y := by
  rcases rangeMin_cases scale with hmin | hmin
  · obtain rfl : scale = .small := by
      cases scale <;> simp [mantissaRange, MantissaScale.getExponent] at hmin ⊢
    exact canonical_of_make_small h
  · have hmax := rangeMax_eq scale
    have hrep := kMaxRep_eq
    have hwidth : Width.u64.size = 2 ^ 64 := rfl
    unfold make doNormalize at h
    split_ifs at h with hzero
    · cases h
      exact .inl rfl
    · obtain ⟨x, hx, h⟩ := Run.bind_eq_ok.1 h
      obtain ⟨s, hs, h⟩ := Run.bind_eq_ok.1 h
      obtain ⟨k, rfl, hk⟩ := growMantissa_eq_ok (by omega) hx
      dsimp only at hs h
      have hsize : m.natAbs * 10 ^ k ≤ (mantissaRange scale).max := by
        rcases Nat.eq_zero_or_pos k with rfl | hpos
        · omega
        · have := hk (by omega)
          omega
      unfold shrinkMantissa at hs
      rw [Run.whileDo_done (by simpa using hsize)] at hs
      cases hs
      by_cases hlowest : m.natAbs * 10 ^ k = 9223372036854775808
      · rw [hlowest] at h
        exact canonical_of_lowest hmin ⟨rfl, rfl, rfl⟩ h
      · have h10 : kMaxRep < m.natAbs * 10 ^ k → m.natAbs * 10 ^ k % 10 = 0 ∧
          m.natAbs * 10 ^ k < 10 * (mantissaRange scale).min := by
          intro hlt
          obtain ⟨k, rfl⟩ : ∃ k', k = k' + 1 := ⟨k - 1, by
            rcases Nat.eq_zero_or_pos k with rfl | hpos
            · omega
            · omega⟩
          refine ⟨?_, hk (by omega)⟩
          rw [pow_succ, ← mul_assoc]
          omega
        rcases normalizeInRange_eq_ok rfl rfl (by dsimp only; omega) h10 (by omega) h with rfl | ⟨rfl, h1, h2, h3, h4⟩
        · exact .inl rfl
        · exact .inr ⟨h1, hsize, fun hlt => (h10 hlt).1, h2, h3, h4⟩

/-! ## On the wire -/

variable {s t : Bytes}

theorem run_signed_eq_ok {n : Nat} (hn : 0 < n) {e : Exception} {v : Int} :
    (do let t ← takeBytes n e; return SerialIter.signed (8 * n) (ofBE t) : SerialIter Int).run s = .ok (v, t) ↔
      s = toBE n (v % 2 ^ (8 * n)).toNat ++ t ∧ -2 ^ (8 * n - 1) ≤ v ∧ v < 2 ^ (8 * n - 1) := by
  obtain ⟨h, hh⟩ : ∃ h : Nat, 2 ^ (8 * n - 1) = h := ⟨_, rfl⟩
  have hpos : 0 < h := by rw [← hh]; positivity
  have htwo : 2 ^ (8 * n) = 2 * h := by
    rw [← hh, ← pow_succ']
    congr 1
    omega
  have hsize : 256 ^ n = 2 * h := by rw [← htwo, pow_mul]; norm_num
  have hhInt : (2 : Int) ^ (8 * n - 1) = h := by exact_mod_cast hh
  have htwoInt : (2 : Int) ^ (8 * n) = 2 * h := by exact_mod_cast htwo
  rw [run_bind_eq_ok, hhInt, htwoInt]
  unfold SerialIter.signed
  rw [hh, htwoInt]
  simp only [run_takeBytes_eq_ok, run_pure_eq_ok, Prod.mk.injEq]
  constructor
  · rintro ⟨bs, t', ⟨rfl, hlen⟩, rfl, rfl⟩
    have hlt : ofBE bs < 2 * h := by
      have := ofBE_lt bs
      rwa [hlen, hsize] at this
    have hmod : ((if ofBE bs < h then (ofBE bs : Int) else ofBE bs - 2 * h) % (2 * h)).toNat = ofBE bs := by
      split_ifs with hc
      · rw [Int.emod_eq_of_lt (by omega) (by omega)]
        omega
      · rw [Int.sub_emod_right, Int.emod_eq_of_lt (by omega) (by omega)]
        omega
    rw [hmod]
    refine ⟨?_, ?_⟩
    · rw [← hlen, toBE_ofBE]
    · split_ifs <;> omega
  · rintro ⟨rfl, hlow, hhigh⟩
    refine ⟨_, t, ⟨rfl, length_toBE _ _⟩, ?_, rfl⟩
    have hnat : ((v % (2 * h)).toNat : Int) = v % (2 * h) := Int.toNat_of_nonneg (Int.emod_nonneg _ (by omega))
    have hlt : v % (2 * h) < 2 * h := Int.emod_lt_of_pos _ (by omega)
    rw [ofBE_toBE (by rw [hsize]; omega), hnat]
    rcases lt_or_ge v 0 with hneg | hneg
    · have hmod : v % (2 * h) = v + 2 * h := by
        rw [← Int.add_emod_right, Int.emod_eq_of_lt (by omega) (by omega)]
      rw [if_neg (by omega), hmod]
      ring
    · have hmod : v % (2 * h) = v := Int.emod_eq_of_lt hneg (by omega)
      rw [if_pos (by omega), hmod]

theorem run_geti64_eq_ok {v : Int} : SerialIter.geti64.run s = .ok (v, t) ↔
    s = toBE 8 (v % 2 ^ 64).toNat ++ t ∧ -2 ^ 63 ≤ v ∧ v < 2 ^ 63 := run_signed_eq_ok (n := 8) (by decide)

theorem run_geti32_eq_ok {v : Int} : SerialIter.geti32.run s = .ok (v, t) ↔
    s = toBE 4 (v % 2 ^ 32).toNat ++ t ∧ -2 ^ 31 ≤ v ∧ v < 2 ^ 31 := run_signed_eq_ok (n := 4) (by decide)

theorem construct_eq_ok {m : Int} : construct scale mode m e = .ok x ↔ make scale mode m e = .ok x := by
  unfold construct
  split <;> simp [*]

@[simp] theorem length_add (x : Number) : (add x).length = 12 := by simp [add]

theorem run_ofSerialIter_eq_ok :
    (ofSerialIter scale mode).run s = .ok (x, t) ↔ ∃ m e : Int, make scale mode m e = .ok x ∧
      s = toBE 8 (m % 2 ^ 64).toNat ++ (toBE 4 (e % 2 ^ 32).toNat ++ t) ∧ -2 ^ 63 ≤ m ∧
        m < 2 ^ 63 ∧ -2 ^ 31 ≤ e ∧ e < 2 ^ 31 := by
  unfold ofSerialIter
  simp only [run_bind_eq_ok, run_geti64_eq_ok, run_geti32_eq_ok, SerialIter.run_lift_eq_ok, construct_eq_ok]
  constructor
  · rintro ⟨m, s₁, ⟨rfl, hm⟩, e, s₂, ⟨rfl, he⟩, hmake, rfl⟩
    exact ⟨m, e, hmake, rfl, hm.1, hm.2, he⟩
  · rintro ⟨m, e, hmake, rfl, hm, hm', he⟩
    exact ⟨m, _, ⟨rfl, hm, hm'⟩, e, t, ⟨rfl, he⟩, hmake, rfl⟩

theorem external_range (h : Canonical scale x) :
    -2 ^ 63 ≤ mantissa x ∧ mantissa x < 2 ^ 63 ∧ -2 ^ 31 ≤ exponent x ∧ exponent x < 2 ^ 31 := by
  rcases h with rfl | ⟨hmin, hmax, -, hlow, hhigh, -⟩
  · decide
  · have hmin' := rangeMin_cases scale
    have hmax' := rangeMax_eq scale
    have hrep := kMaxRep_eq
    have hlow' := Basics.kMinExponent_eq
    have hhigh' := Basics.kMaxExponent_eq
    unfold mantissa exponent mantissaExt
    split_ifs <;> omega

theorem run_ofSerialIter_add (scale : MantissaScale) (mode : RoundingMode) (h : Canonical scale x) (t : Bytes) :
    (ofSerialIter scale mode).run (add x ++ t) = .ok (x, t) := by
  obtain ⟨hm, hm', he, he'⟩ := external_range h
  rw [run_ofSerialIter_eq_ok]
  exact ⟨mantissa x, exponent x, make_of_canonical scale mode h, List.append_assoc _ _ _, hm, hm', he, he'⟩

theorem canonical_of_ofSerialIter (h : (ofSerialIter scale mode).run s = .ok (x, t)) :
    Canonical scale x ∧ s.length = (add x).length + t.length := by
  obtain ⟨m, e, hmake, rfl, hm, hm', -⟩ := run_ofSerialIter_eq_ok.1 h
  refine ⟨canonical_of_make (by omega) hmake, ?_⟩
  simp
  omega

end STNumber

end Rippled.Protocol
