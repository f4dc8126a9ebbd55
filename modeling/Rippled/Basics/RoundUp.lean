import Rippled.Basics.Reads
/-!
# `doRoundUp` rounds correctly

The mantissa and the guard stand for the magnitude `a`. Below `kMaxRep` the
neighbours are one unit apart and the guard decides. Between `kMaxRep` and
`kMaxRepUp` the decision is the one `pushOverflow` prepares. At `kMaxRepUp`
itself one more digit is dropped.
-/

namespace Rippled.Basics

open Lib Number

namespace Guard

structure IsLarge (g : Guard) : Prop where
  fix : g.cuspRoundingFix = .enabled330
  min : g.minMantissa = 10 ^ 18
  max : g.maxMantissa = 10 ^ 19 - 1

variable {g : Guard}

theorem IsLarge.doPush (h : g.IsLarge) (d : Nat) : (g.doPush d).IsLarge := ⟨h.fix, h.min, h.max⟩

@[simp] theorem doPush_sbit (g : Guard) (d : Nat) : (g.doPush d).sbit = g.sbit := rfl

/-! ## The range checks -/

variable {x : Number} {w : Width}

theorem bringIntoRange_of_ge (hm : g.minMantissa ≤ x.mantissa) (hpos : 0 < x.mantissa)
    (hlow : kMinExponent ≤ x.exponent) : g.bringIntoRange w x = x := by
  have hin : ¬ (x.mantissa < g.minMantissa ∧ (¬ g.cuspRoundingFix.enabled330OrLater ∨ x.mantissa ≠ 0)) := by omega
  simp only [bringIntoRange, if_neg hin]
  rw [if_neg (by omega)]

theorem bringIntoRange_of_lt (hm : x.mantissa < g.minMantissa) (hpos : 0 < x.mantissa)
    (hsize : x.mantissa * 10 < w.size) (hlow : kMinExponent < x.exponent) :
    g.bringIntoRange w x = { x with mantissa := x.mantissa * 10, exponent := x.exponent - 1 } := by
  have hout : x.mantissa < g.minMantissa ∧ (¬ g.cuspRoundingFix.enabled330OrLater ∨ x.mantissa ≠ 0) :=
    ⟨hm, .inr (by omega)⟩
  simp only [bringIntoRange, if_pos hout, wrap_of_lt hsize]
  rw [if_neg (by omega)]

/-- The rounded value `M * 10 ^ E` as it leaves the range checks. -/
theorem finishRoundUp_ensures (hg : g.IsLarge) (location : String)
    (h : (10 ^ 18 ≤ x.mantissa ∧ x.mantissa < 10 ^ 19 ∧ (x.mantissa ≤ kMaxRep ∨ x.mantissa % 10 = 0) ∧
      kMinExponent ≤ x.exponent) ∨ (10 ^ 17 ≤ x.mantissa ∧ x.mantissa < 10 ^ 18 ∧ kMinExponent < x.exponent)) :
    (g.finishRoundUp w location x).Ensures (fun r => r.Normal ∧ r.negative = x.negative ∧
      |r.val| = x.mantissa * 10 ^ x.exponent ∧
      r.mantissa = if x.mantissa < 10 ^ 18 then x.mantissa * 10 else x.mantissa) := by
  unfold finishRoundUp
  rcases h with ⟨h1, h2, h3, h4⟩ | ⟨h1, h2, h3⟩
  · simp only [bringIntoRange_of_ge (hg.min.trans_le h1) (by omega) h4]
    split
    · exact Run.ensures_throw _ _
    · refine Run.ensures_ok ⟨normal_iff.2 (.inr ⟨h1, h2, h3, h4, by omega⟩), rfl, abs_val x, ?_⟩
      rw [if_neg (by omega)]
  · have hsize := w.lt_size
    simp only [bringIntoRange_of_lt (w := w) (h2.trans_eq hg.min.symm) (by omega) (by omega) h3]
    split
    · exact Run.ensures_throw _ _
    · refine Run.ensures_ok ⟨normal_iff.2 (.inr ⟨?_, ?_, ?_, ?_, ?_⟩), rfl, ?_, rfl⟩
      all_goals try (simp only; omega)
      rw [abs_val]
      push_cast
      rw [mul_assoc, mul_comm (10 : ℚ), ← zpow_add_one₀ (by norm_num), sub_add_cancel]

/-! ## The neighbours one unit apart -/

theorem takes_of_roundsAway (d : Toward) (m : Nat) (f : ℚ) (h0 : 0 ≤ f) (p : ℚ) (hp : 0 < p) (M : Nat)
    (hup : RoundsAway d f (m % 2 = 1) → M = m + 1) (hdown : ¬ RoundsAway d f (m % 2 = 1) → M = m) :
    Takes d ((m + f) * p) (m * p) ((m + 1 : Nat) * p) (M * p) ∧
      (d = .nearest → ((m + 1 : Nat) : ℚ) * p - (m + f) * p = (m + f) * p - m * p → M % 2 = 0) := by
  have cancel {x y : ℚ} : x * p = y * p ↔ x = y := mul_left_inj' hp.ne'
  push_cast
  cases d with
  | zero => exact ⟨by rw [hdown (by simp [RoundsAway])]; rfl, by simp⟩
  | away =>
    refine ⟨?_, by simp⟩
    by_cases hf : f = 0
    · left; rw [hdown (by simp [RoundsAway, hf]), hf]; simp
    · right
      rw [hup (by simpa [RoundsAway] using hf)]
      refine ⟨fun h => hf ?_, by push_cast; ring⟩
      have := cancel.1 h
      linarith
  | nearest =>
    rcases lt_trichotomy f (1 / 2) with hlt | heq | hgt
    · rw [hdown (by simp only [RoundsAway]; rintro (h | ⟨h, -⟩) <;> linarith)]
      refine ⟨.inl ⟨rfl, ?_⟩, fun _ h => ?_⟩
      · nlinarith
      · have : (1 - f) * p = f * p := by linarith
        have := cancel.1 this
        linarith
    · by_cases hodd : m % 2 = 1
      · rw [hup (by simp only [RoundsAway]; exact .inr ⟨heq, hodd⟩)]
        exact ⟨.inr ⟨by push_cast; ring, by rw [heq]; nlinarith⟩, fun _ _ => by omega⟩
      · rw [hdown (by simp only [RoundsAway]; rintro (h | ⟨-, h⟩); linarith; exact hodd h)]
        exact ⟨.inl ⟨rfl, by rw [heq]; nlinarith⟩, fun _ _ => by omega⟩
    · rw [hup (by simp only [RoundsAway]; exact .inl hgt)]
      refine ⟨.inr ⟨by push_cast; ring, by nlinarith⟩, fun _ h => ?_⟩
      have : (1 - f) * p = f * p := by linarith
      have := cancel.1 this
      linarith

/-! ## `doRoundUp` -/

variable {mode : RoundingMode}

theorem pushOverflow_of_lt (g : Guard) {m : Nat} (h : m < kMaxRep ∨ kMaxRepUp ≤ m) : g.pushOverflow mode m = g := by
  unfold pushOverflow
  rw [if_neg (by omega)]

theorem doDropDigit_eq {s : Dropping} (h : s.mantissa < w.size) :
    doDropDigit w s = ⟨s.guard.doPush (s.mantissa % 10), s.mantissa / 10, s.exponent + 1⟩ := by
  simp only [doDropDigit, divMod10_eq h]

theorem doPush_zero (hd : g.digits = 0) (hx : g.xbit = false) : g.doPush 0 = g := by
  cases g
  simp_all [doPush]

theorem and_one_eq (m : Nat) : m &&& 1 = 1 ↔ m % 2 = 1 := by rw [Nat.and_one_is_mod]

variable {f : ℚ}

theorem doRoundUp_of_lt (w : Width) (mode : RoundingMode) (location : String) (hmax : x.mantissa < g.maxMantissa)
    (h : x.mantissa < kMaxRep) (n : Nat) :
    doRoundUp w mode location (n + 1) g x = g.finishRoundUp w location
      { x with mantissa := if g.round mode = .up ∨
        (g.round mode = .even ∧ x.mantissa % 2 = 1) then x.mantissa + 1 else x.mantissa } := by
  have hsize := w.lt_size
  have hk := kMaxRep_eq
  simp only [doRoundUp, pushOverflow_of_lt g (.inl h), and_one_eq]
  by_cases hup : g.round mode = .up ∨ (g.round mode = .even ∧ x.mantissa % 2 = 1)
  · rw [if_pos hup, if_pos hup, wrap_of_lt (by omega)]
    by_cases hfix : g.cuspRoundingFix = .disabled
    · rw [if_neg (not_not.2 hfix), if_neg (by omega)]
    · rw [if_pos hfix, if_pos ⟨hmax, h⟩]
  · rw [if_neg hup, if_neg hup, if_neg (by omega)]

theorem Reads.doRoundUp_of_lt (w : Width) (mode : RoundingMode) (location : String) (hr : g.Reads f)
    (hmax : x.mantissa < g.maxMantissa) (h : x.mantissa < kMaxRep) (n : Nat) :
    ∃ M, (RoundsAway (toward mode g.sbit) f (x.mantissa % 2 = 1) → M = x.mantissa + 1) ∧
      (¬ RoundsAway (toward mode g.sbit) f (x.mantissa % 2 = 1) → M = x.mantissa) ∧
      doRoundUp w mode location (n + 1) g x = g.finishRoundUp w location { x with mantissa := M } :=
  have hup := round_up_iff hr mode (x.mantissa % 2 = 1)
  ⟨_, fun hd => if_pos (hup.2 hd), fun hd => if_neg fun h => hd (hup.1 h),
    Guard.doRoundUp_of_lt w mode location hmax h n⟩

theorem smallest_le {L H : Nat} {e : Int} {a : ℚ} (hn : Neighbours L H) (hH : a < H * 10 ^ e) (hmin : smallest ≤ a) :
    kMinExponent ≤ e := by
  by_contra hlt
  have h1 : (10 : ℚ) ^ e * 10 ≤ 10 ^ kMinExponent := pow_mul_ten_le (by omega)
  have h2 : (H : ℚ) ≤ 10 ^ 19 := by exact_mod_cast hn.max
  have h3 : (H : ℚ) * 10 ^ e ≤ 10 ^ 19 * 10 ^ e := by gcongr
  unfold smallest at hmin
  linarith

theorem toward_nearest {b : Bool} (h : mode = .toNearest) : toward mode b = .nearest := by
  rw [h]; rfl

/-- The window `doRoundUp` is called in: the decade up to `kMaxRepUp`, or one
digit less above it. -/
def Window (m : Nat) : Prop := (10 ^ 18 ≤ m ∧ m ≤ kMaxRepUp) ∨ (kMaxRepUp ≤ 10 * m ∧ m < 10 ^ 18)

theorem mantissaExt_of_finish {r : Number} {M : Nat} (hM : M ≤ kMaxRep) (hM' : kMaxRepUp ≤ 10 * M)
    (h : r.mantissa = if M < 10 ^ 18 then M * 10 else M) : r.mantissaExt = M := by
  have hk := kMaxRep_eq
  have hk' := kMaxRepUp_eq
  unfold mantissaExt
  rw [h]
  split <;> split <;> omega

/-! ## The gap -/

/-- Between `kMaxRep` and `kMaxRepUp`, `t` above the former: round up. -/
def GapUp (d : Toward) (t : ℚ) : Prop :=
  match d with
  | .zero => False
  | .away => t ≠ 0
  | .nearest => 3 / 2 ≤ t

/-- The digit `pushOverflow` adds makes the guard decide for the whole gap. -/
theorem pushOverflow_gap (mode : RoundingMode) (hg : g.IsLarge) (hr : g.Reads f) {k : Nat} (hk : k < 3) :
    ∃ f', (g.pushOverflow mode (kMaxRep + k)).Reads f' ∧ (g.pushOverflow mode (kMaxRep + k)).IsLarge ∧
      (g.pushOverflow mode (kMaxRep + k)).sbit = g.sbit ∧
      ∀ odd, RoundsAway (toward mode g.sbit) f' odd ↔ GapUp (toward mode g.sbit) (k + f) := by
  have h0 := hr.nonneg
  have h1 := hr.lt_one
  -- the mantissa after the first step, and the digit of the second
  obtain ⟨j, hj, hjk, hpush⟩ : ∃ j, j < 3 ∧
      ((j = k ∧ (k < 2 → ¬ RoundsAway (toward mode g.sbit) f (k = 1))) ∨
        (j = k + 1 ∧ RoundsAway (toward mode g.sbit) f (k = 1))) ∧
      g.pushOverflow mode (kMaxRep + k) = g.doPush (j * 10 / 3) := by
    have hmid : kMaxRep + k = kMaxRep + (kMaxRepUp - kMaxRep) / 2 ↔ k = 1 := by
      rw [kMaxRepUp_eq, kMaxRep]; omega
    have hup := round_up_iff hr mode (kMaxRep + k = kMaxRep + (kMaxRepUp - kMaxRep) / 2)
    simp only [hmid] at hup
    have hspread : kMaxRepUp - kMaxRep = 3 := rfl
    have hin : g.cuspRoundingFix.enabled330OrLater = true ∧ kMaxRep ≤ kMaxRep + k ∧ kMaxRep + k < kMaxRepUp := by
      rw [hg.fix, kMaxRepUp_eq, kMaxRep]; exact ⟨rfl, by omega, by omega⟩
    simp only [pushOverflow, if_pos hin]
    rw [hspread]
    by_cases hk2 : k < 2
    · rw [if_pos (by rw [kMaxRep]; omega)]
      by_cases hd : RoundsAway (toward mode g.sbit) f (k = 1)
      · refine ⟨k + 1, by omega, .inr ⟨rfl, hd⟩, ?_⟩
        rw [if_pos (by rw [hspread] at hmid; rwa [hmid, hup]), show kMaxRep + k + 1 - kMaxRep = k + 1 by omega]
      · refine ⟨k, hk, .inl ⟨rfl, fun _ => hd⟩, ?_⟩
        rw [if_neg (by rw [hspread] at hmid; rwa [hmid, hup]), show kMaxRep + k - kMaxRep = k by omega]
    · refine ⟨k, hk, .inl ⟨rfl, fun h => absurd h hk2⟩, ?_⟩
      rw [if_neg (by rw [kMaxRep]; omega), show kMaxRep + k - kMaxRep = k by omega]
  refine ⟨((j * 10 / 3 : Nat) + f) / 10, ?_, ?_, ?_, fun odd => ?_⟩
  · rw [hpush]; exact hr.toSees.doPush (by omega)
  · rw [hpush]; exact hg.doPush _
  · rw [hpush]; rfl
  · cases hd : toward mode g.sbit with
    | zero => simp [RoundsAway, GapUp]
    | away =>
      simp only [RoundsAway, GapUp, hd] at hjk ⊢
      have hj0 : j = 0 ↔ k = 0 ∧ f = 0 := by
        constructor
        · rintro rfl
          rcases hjk with ⟨rfl, h⟩ | ⟨h, -⟩
          · exact ⟨rfl, not_not.1 (h (by omega))⟩
          · omega
        · rintro ⟨rfl, rfl⟩
          rcases hjk with ⟨h, -⟩ | ⟨-, h⟩
          · exact h
          · exact absurd rfl h
      rw [ne_eq, ne_eq, not_iff_not]
      constructor
      · intro h
        have hz : ((j * 10 / 3 : Nat) : ℚ) = 0 := by linarith [show (0 : ℚ) ≤ (j * 10 / 3 : Nat) by positivity]
        have : j * 10 / 3 = 0 := by exact_mod_cast hz
        obtain ⟨rfl, rfl⟩ := hj0.1 (by omega)
        simp
      · intro h
        have hk0 : (k : ℚ) = 0 := by linarith [show (0 : ℚ) ≤ k by positivity]
        have hk0' : k = 0 := by exact_mod_cast hk0
        have hf0 : f = 0 := by linarith
        rw [hj0.2 ⟨hk0', hf0⟩, hf0]
        simp
    | nearest =>
      simp only [RoundsAway, GapUp, hd] at hjk ⊢
      have hbig : j = 2 ↔ (3 / 2 : ℚ) ≤ k + f := by
        rcases (by omega : k = 0 ∨ k = 1 ∨ k = 2) with rfl | rfl | rfl
        · rcases hjk with ⟨rfl, -⟩ | ⟨rfl, -⟩ <;> norm_num <;> linarith
        · rcases hjk with ⟨rfl, h⟩ | ⟨rfl, h⟩
          · have := h (by omega)
            simp only [and_true, not_or] at this
            have h2 : f < 1 / 2 := lt_of_le_of_ne (not_lt.1 this.1) this.2
            norm_num; linarith
          · norm_num
            rcases h with h | ⟨h, -⟩ <;> linarith
        · rcases hjk with ⟨rfl, -⟩ | ⟨rfl, -⟩
          · norm_num; linarith
          · omega
      rw [← hbig]
      have hj' : j = 0 ∨ j = 1 ∨ j = 2 := by omega
      rcases hj' with rfl | rfl | rfl
      · norm_num
        exact ⟨by linarith, fun h => by linarith⟩
      · norm_num
        exact ⟨by linarith, fun h => by linarith⟩
      · norm_num
        left; linarith

theorem takes_of_gapUp (d : Toward) (t : ℚ) (h0 : 0 ≤ t) (p : ℚ) (hp : 0 < p) (M : Nat)
    (hup : GapUp d t → M = kMaxRepUp) (hdown : ¬ GapUp d t → M = kMaxRep) :
    Takes d ((kMaxRep + t) * p) (kMaxRep * p) (kMaxRepUp * p) (M * p) ∧
      (d = .nearest → kMaxRepUp * p - (kMaxRep + t) * p = (kMaxRep + t) * p - kMaxRep * p → M = kMaxRepUp) := by
  have hspread : (kMaxRepUp : ℚ) = kMaxRep + 3 := by rw [kMaxRepUp_eq, kMaxRep]; norm_num
  cases d with
  | zero => exact ⟨by rw [hdown (by simp [GapUp])]; rfl, by simp⟩
  | away =>
    refine ⟨?_, by simp⟩
    by_cases ht : t = 0
    · left; rw [hdown (by simp [GapUp, ht]), ht]; simp
    · right
      rw [hup (by simpa [GapUp] using ht)]
      refine ⟨fun h => ht ?_, rfl⟩
      have := mul_right_cancel₀ hp.ne' h
      linarith
  | nearest =>
    rcases lt_or_ge t (3 / 2) with hlt | hge
    · rw [hdown (by simp only [GapUp, not_le]; exact hlt)]
      refine ⟨.inl ⟨rfl, by rw [hspread]; nlinarith⟩, fun _ h => ?_⟩
      rw [hspread] at h
      nlinarith
    · rw [hup (by simpa only [GapUp] using hge)]
      exact ⟨.inr ⟨rfl, by rw [hspread]; nlinarith⟩, fun _ _ => rfl⟩

/-! ## Correct rounding -/

section Rounding

variable (w : Width) (mode : RoundingMode) (location : String) (hg : g.IsLarge)
    (hs : g.sbit = x.negative) (hr : g.Reads f)

include hg hs hr

theorem doRoundUp_correct_of_lt (hw : Window x.mantissa) (h : x.mantissa < kMaxRep)
    (hmin : smallest ≤ (x.mantissa + f) * 10 ^ x.exponent) (n : Nat) :
    (doRoundUp w mode location (n + 1) g x).Ensures
      (CorrectlyRounded mode ((if x.negative then -1 else 1) * ((x.mantissa + f) * 10 ^ x.exponent))) := by
  have hk := kMaxRep_eq
  have hk' := kMaxRepUp_eq
  obtain ⟨M, hup, hdown, heq⟩ := Reads.doRoundUp_of_lt w mode location hr (by rw [hg.max]; omega) h n
  have hp : (0 : ℚ) < 10 ^ x.exponent := by positivity
  obtain ⟨ht, htie⟩ := takes_of_roundsAway _ x.mantissa f hr.nonneg _ hp M hup hdown
  have hM : M = x.mantissa ∨ M = x.mantissa + 1 := by
    by_cases hd : RoundsAway (toward mode g.sbit) f (x.mantissa % 2 = 1)
    · exact .inr (hup hd)
    · exact .inl (hdown hd)
  have hf0 := hr.nonneg
  have hf1 := hr.lt_one
  have hL : (x.mantissa : ℚ) * 10 ^ x.exponent ≤ (x.mantissa + f) * 10 ^ x.exponent := by
    gcongr; linarith
  have hH : (x.mantissa + f) * 10 ^ x.exponent < ((x.mantissa + 1 : Nat) : ℚ) * 10 ^ x.exponent := by
    push_cast; gcongr
  rw [heq]
  -- the neighbours, as mantissas of one decade
  obtain ⟨L, H, e, hn, hLe, hHe, hexp⟩ : ∃ (L H : Nat) (e : Int), Neighbours L H ∧
      (L : ℚ) * 10 ^ e = x.mantissa * 10 ^ x.exponent ∧ (H : ℚ) * 10 ^ e = (x.mantissa + 1 : Nat) * 10 ^ x.exponent ∧
      (x.mantissa < 10 ^ 18 → e = x.exponent - 1) ∧ (10 ^ 18 ≤ x.mantissa → e = x.exponent) := by
    rcases hw with ⟨h1, -⟩ | ⟨h1, h2⟩
    · exact ⟨_, _, x.exponent, neighbours_low h1 h, rfl, rfl, fun h => by omega, fun _ => rfl⟩
    · refine ⟨_, _, x.exponent - 1, neighbours_high h1 h2, ?_, ?_, fun _ => rfl, fun h => by omega⟩
      all_goals
        push_cast
        rw [mul_comm (10 : ℚ), mul_assoc, mul_comm (10 : ℚ), ← zpow_add_one₀ (by norm_num), sub_add_cancel]
  have hemin := smallest_le hn (by rw [hHe]; exact hH) hmin
  refine (finishRoundUp_ensures hg location (x := { x with mantissa := M }) ?_).mono fun r hr' => ?_
  · simp only
    rcases hw with ⟨h1, h2⟩ | ⟨h1, h2⟩
    · have := hexp.2 h1; omega
    · have := hexp.1 h2; omega
  · obtain ⟨hrn, hrs, hrv, hrm⟩ := hr'
    have hext : r.mantissaExt = M := mantissaExt_of_finish (by omega) (by unfold Window at hw; omega) hrm
    refine correct_of_takes hn (by rw [hLe]; exact hL) (by rw [hHe]; exact hH) hrn hrs ?_ ?_
    · rw [hLe, hHe, hrv, ← hs]; exact ht
    · intro hmode hmid
      rw [hLe, hHe] at hmid
      exact .inl (by rw [hext]; exact htie (toward_nearest hmode) hmid)

theorem doRoundUp_of_gap {k : Nat} (hk : k < 3) (hx : x.mantissa = kMaxRep + k)
    (he : kMinExponent ≤ x.exponent) (n : Nat) :
    (doRoundUp w mode location (n + 2) g x).Ensures (fun r => r.Normal ∧ r.negative = x.negative ∧
      |r.val| = r.mantissa * 10 ^ x.exponent ∧ (GapUp (toward mode x.negative) (k + f) → r.mantissa = kMaxRepUp) ∧
      (¬ GapUp (toward mode x.negative) (k + f) → r.mantissa = kMaxRep)) := by
  have hK := kMaxRep_eq
  have hK' := kMaxRepUp_eq
  have hsize := w.lt_size
  obtain ⟨f', hr', hg', hs', hiff⟩ := pushOverflow_gap mode hg hr hk
  rw [← hx] at hr' hg' hs'
  rw [hs] at hiff hs'
  unfold doRoundUp
  generalize pushOverflow mode g x.mantissa = g' at hr' hg' hs' ⊢
  simp only [and_one_eq]
  have hup := round_up_iff hr' mode (x.mantissa % 2 = 1)
  rw [hs', hiff] at hup
  -- what the range checks make of an end of the gap
  have hend : ∀ M, M = kMaxRep ∨ M = kMaxRepUp →
      (g'.finishRoundUp w location { x with mantissa := M }).Ensures
        (fun r => r.Normal ∧ r.negative = x.negative ∧ |r.val| = r.mantissa * 10 ^ x.exponent ∧ r.mantissa = M) := by
    intro M hM
    refine (finishRoundUp_ensures hg' location ?_).mono fun r hr => ?_
    · left; simp only; omega
    · obtain ⟨h1, h2, h3, h4⟩ := hr
      rw [if_neg (by simp only; omega)] at h4
      exact ⟨h1, h2, by rw [h3, h4], h4⟩
  by_cases hd : GapUp (toward mode x.negative) (k + f)
  · simp only [hd, forall_const, not_true_eq_false, false_imp_iff, and_true]
    rw [if_pos (hup.2 hd), if_pos (by rw [hg'.fix]; decide), if_neg (by omega)]
    by_cases hk0 : k = 0
    · -- `kMaxRep` itself: one more digit is dropped, and the increment carries
      subst hk0
      rw [if_neg (by omega), doDropDigit_eq (by simp only; omega)]
      have hne : toward mode x.negative = .away := by
        cases ht : toward mode x.negative with
        | away => rfl
        | zero => simp [ht, GapUp] at hd
        | nearest =>
          simp only [ht, GapUp] at hd
          push_cast at hd
          linarith [hr.lt_one]
      have hr2 := hr'.toSees.doPush (show 7 < 10 by omega)
      have hm7 : x.mantissa % 10 = 7 := by omega
      have hm10 : x.mantissa / 10 = 922337203685477580 := by omega
      simp only [hm7, hm10]
      obtain ⟨M, hM, -, heq⟩ := Reads.doRoundUp_of_lt w mode location
          (x := ⟨x.negative, 922337203685477580, x.exponent + 1⟩)
        hr2 (by rw [(hg'.doPush 7).max]; simp only; omega) (show 922337203685477580 < kMaxRep by decide) n
      have hM' : M = 922337203685477581 := by
        apply hM
        rw [doPush_sbit, hs', hne]
        have := hr'.nonneg
        simp only [RoundsAway]
        positivity
      rw [heq, hM']
      refine (finishRoundUp_ensures (hg'.doPush 7) location ?_).mono fun r hr => ?_
      · right; simp only; omega
      · obtain ⟨h1, h2, h3, h4⟩ := hr
        have hM : r.mantissa = kMaxRepUp := by rw [h4]; rfl
        refine ⟨h1, h2, ?_, hM⟩
        rw [h3, hM, zpow_add_one₀ (by norm_num), kMaxRepUp_eq]
        push_cast
        ring
    · rw [if_pos ⟨by rw [hg'.fix]; rfl, by omega, by omega⟩]
      exact hend kMaxRepUp (.inr rfl)
  · simp only [hd, false_imp_iff, not_false_eq_true, forall_const, true_and]
    rw [if_neg (fun h => hd (hup.1 h))]
    by_cases hk0 : k = 0
    · rw [if_neg (by omega)]
      have := hend kMaxRep (.inl rfl)
      rwa [show ({ x with mantissa := kMaxRep } : Number) = x by rw [← show x.mantissa = kMaxRep by omega]] at this
    · rw [if_pos ⟨by rw [hg'.fix]; rfl, by omega, by omega⟩]
      exact hend kMaxRep (.inl rfl)

/-- `doRoundUp` rounds the magnitude that the mantissa and the guard stand for. -/
theorem doRoundUp_correct (hw : Window x.mantissa) (hmin : smallest ≤ (x.mantissa + f) * 10 ^ x.exponent) (n : Nat) :
    (doRoundUp w mode location (n + 2) g x).Ensures
      (CorrectlyRounded mode ((if x.negative then -1 else 1) * ((x.mantissa + f) * 10 ^ x.exponent))) := by
  have hK := kMaxRep_eq
  have hK' := kMaxRepUp_eq
  have hsize := w.lt_size
  have hf0 := hr.nonneg
  have hf1 := hr.lt_one
  have hp : (0 : ℚ) < 10 ^ x.exponent := by positivity
  rcases Nat.lt_or_ge x.mantissa kMaxRep with hlt | hge
  · exact doRoundUp_correct_of_lt w mode location hg hs hr hw hlt hmin (n + 1)
  rcases Nat.lt_or_ge x.mantissa kMaxRepUp with hlt | hge'
  · obtain ⟨k, hk⟩ := Nat.exists_eq_add_of_le hge
    have hk3 : k < 3 := by omega
    have hk3' : (k : ℚ) ≤ 2 := by exact_mod_cast (show k ≤ 2 by omega)
    have ha : ((x.mantissa : ℚ) + f) = kMaxRep + (k + f) := by rw [hk]; push_cast; ring
    have hup : (kMaxRepUp : ℚ) = kMaxRep + 3 := by rw [kMaxRepUp_eq, kMaxRep]; norm_num
    have hL : (kMaxRep : ℚ) * 10 ^ x.exponent ≤ (x.mantissa + f) * 10 ^ x.exponent := by
      rw [ha]; gcongr; linarith [show (0 : ℚ) ≤ k by positivity]
    have hH : (x.mantissa + f) * 10 ^ x.exponent < (kMaxRepUp : ℚ) * 10 ^ x.exponent := by
      rw [ha, hup]; gcongr; linarith
    have he := smallest_le neighbours_gap hH hmin
    refine (doRoundUp_of_gap w mode location hg hs hr hk3 hk he n).mono fun r hr' => ?_
    obtain ⟨h1, h2, h3, h4, h5⟩ := hr'
    obtain ⟨ht, htie⟩ := takes_of_gapUp (toward mode x.negative) (k + f) (by positivity) _ hp _ h4 h5
    rw [← ha] at ht htie
    refine correct_of_takes neighbours_gap hL hH h1 h2 (by rw [h3]; exact ht) fun hmode hmid => ?_
    exact .inr ⟨rfl, rfl, htie (toward_nearest hmode) hmid⟩
  · have h5 : f * 10 ^ x.exponent < 5 * 10 ^ x.exponent := by gcongr; linarith
    have hx : x.mantissa = kMaxRepUp := by unfold Window at hw; omega
    have he := smallest_le (neighbours_high (m := 922337203685477581) (by decide) (by decide))
      (a := (x.mantissa + f) * 10 ^ x.exponent) (by rw [hx, hK']; push_cast; gcongr; linarith) hmin
    have hd1 : x.mantissa % 10 = 0 := by omega
    have hd2 : x.mantissa / 10 = 922337203685477581 := by omega
    -- one digit less, the mantissa is in the window below `kMaxRep`
    have hval : ((922337203685477581 : Nat) + ((0 : Nat) + f) / 10) * (10 : ℚ) ^ (x.exponent + 1) =
        (x.mantissa + f) * 10 ^ x.exponent := by
      rw [zpow_add_one₀ (by norm_num), hx, hK']; push_cast; ring
    have hrec := doRoundUp_correct_of_lt w mode location (hg.doPush 0)
      (x := ⟨x.negative, 922337203685477581, x.exponent + 1⟩) hs (hr.toSees.doPush (by omega))
      (by right; simp only; omega) (by simp only; omega) (by rw [hval]; exact hmin) n
    simp only [hval] at hrec
    have hup := round_up_iff hr mode (x.mantissa % 2 = 1)
    unfold doRoundUp
    simp only [pushOverflow_of_lt g (.inr hge'), and_one_eq]
    by_cases hd : RoundsAway (toward mode g.sbit) f (x.mantissa % 2 = 1)
    · rw [if_pos (hup.2 hd), if_pos (by rw [hg.fix]; decide), if_neg (by omega), if_neg (by omega),
        doDropDigit_eq (by simp only; omega)]
      simp only [hd1, hd2]
      exact hrec
    · rw [if_neg (fun h => hd (hup.1 h)), if_neg (by omega)]
      refine (finishRoundUp_ensures hg location (by left; omega)).mono fun r hr' => ?_
      obtain ⟨h1, h2, h3, h4⟩ := hr'
      have hL : ((10 * 922337203685477581 : Nat) : ℚ) = x.mantissa := by rw [hx, hK']
      have hH : ((10 * (922337203685477581 + 1) : Nat) : ℚ) = x.mantissa + 10 := by rw [hx, hK']; norm_num
      refine correct_of_takes (e := x.exponent) (neighbours_high (m := 922337203685477581) (by decide) (by decide))
        (by rw [hL]; gcongr; linarith) (by rw [hH]; gcongr; linarith) h1 h2 ?_ ?_
      · rw [hL, hH, h3, ← hs]
        cases ht : toward mode g.sbit with
        | zero => rfl
        | away =>
          simp only [ht, RoundsAway, ne_eq, not_not] at hd
          left; simp [hd]
        | nearest => exact .inl ⟨rfl, by linarith only [h5]⟩
      · intro _ hmid
        rw [hL, hH] at hmid
        linarith only [h5, hmid]

end Rounding

end Guard

end Rippled.Basics
