import Mathlib.Tactic.Linarith
import Mathlib.Tactic.Positivity
import Mathlib.Tactic.Ring
/-!
# Rounding to a set of representable values

`S` is the set of representable values, closed under negation. The four
roundings of `v` are stated against every element of `S`. To prove one of them
it is enough to know the two neighbours of `|v|` and which of them was taken
(`Takes`).
-/

namespace Rippled.Lib

variable {K : Type} [Field K] [LinearOrder K]

/-- The greatest representable value not above `v`. -/
def RoundsDown (S : Set K) (v r : K) : Prop := IsGreatest {s ∈ S | s ≤ v} r

/-- The least representable value not below `v`. -/
def RoundsUp (S : Set K) (v r : K) : Prop := IsLeast {s ∈ S | v ≤ s} r

/-- `v` cut off: the value of greatest magnitude that lies between 0 and `v`. -/
def Truncates (S : Set K) (v r : K) : Prop :=
  r ∈ S ∧ 0 ≤ r * v ∧ |r| ≤ |v| ∧ ∀ s ∈ S, 0 ≤ s * v → |s| ≤ |v| → |s| ≤ |r|

/-- No representable value is closer to `v`. -/
def Nearest (S : Set K) (v r : K) : Prop := r ∈ S ∧ ∀ s ∈ S, |r - v| ≤ |s - v|

/-- What a rounding does to the magnitude. -/
inductive Toward where
  | zero
  | away
  | nearest
  deriving DecidableEq

/-- The magnitude `a`, between the neighbours `lo` and `hi`, is taken to `r`. -/
def Takes (d : Toward) (a lo hi r : K) : Prop :=
  match d with
  | .zero => r = lo
  | .away => (a = lo ∧ r = lo) ∨ (a ≠ lo ∧ r = hi)
  | .nearest => (r = lo ∧ a - lo ≤ hi - a) ∨ (r = hi ∧ hi - a ≤ a - lo)

/-- `lo` and `hi` enclose the magnitude `a`, and nothing representable lies between them. -/
structure Encloses (S : Set K) (lo hi a : K) : Prop where
  pos : 0 < lo
  le : lo ≤ a
  lt : a < hi
  gap : ∀ s ∈ S, s ≤ lo ∨ hi ≤ s

variable {S : Set K} {lo hi a r v : K}

theorem Takes.cases {d : Toward} (h : Takes d a lo hi r) : r = lo ∨ r = hi := by
  cases d with
  | zero => exact .inl h
  | away => rcases h with ⟨-, h⟩ | ⟨-, h⟩ <;> simp [h]
  | nearest => rcases h with ⟨h, -⟩ | ⟨h, -⟩ <;> simp [h]

/-! ## Representable values -/

omit [Field K] in
theorem RoundsDown.eq_of_mem (h : RoundsDown S v r) (hv : v ∈ S) : r = v :=
  le_antisymm h.1.2 (h.2 ⟨hv, le_refl v⟩)

omit [Field K] in
theorem RoundsUp.eq_of_mem (h : RoundsUp S v r) (hv : v ∈ S) : r = v :=
  le_antisymm (h.2 ⟨hv, le_refl v⟩) h.1.2

/-! ## The magnitude -/

theorem roundsUp_of_away (he : Encloses S lo hi a) (hr : r ∈ S) (h : Takes .away a lo hi r) :
    RoundsUp S a r := by
  rcases h with ⟨rfl, rfl⟩ | ⟨hne, rfl⟩
  · exact ⟨⟨hr, le_refl _⟩, fun s hs => hs.2⟩
  · refine ⟨⟨hr, he.lt.le⟩, fun s hs => ?_⟩
    rcases he.gap s hs.1 with h | h
    · exact absurd (le_antisymm (hs.2.trans h) he.le) hne
    · exact h

section Ordered
variable [IsStrictOrderedRing K]

section
variable (he : Encloses S lo hi a)
include he

theorem Encloses.pos_of_takes {d : Toward} (h : Takes d a lo hi r) : 0 < r := by
  have := he.pos
  rcases h.cases with rfl | rfl
  · exact this
  · linarith [he.le, he.lt]

theorem roundsDown_of_zero (hr : r ∈ S) (h : Takes .zero a lo hi r) : RoundsDown S a r:= by
  obtain rfl : r = lo := h
  refine ⟨⟨hr, he.le⟩, fun s hs => ?_⟩
  rcases he.gap s hs.1 with h | h
  · exact h
  · linarith [he.lt, hs.2]

theorem truncates_of_zero (hr : r ∈ S) (h : Takes .zero a lo hi r) : Truncates S a r:= by
  have hpos := he.pos_of_takes h
  obtain rfl : r = lo := h
  have ha : 0 < a := hpos.trans_le he.le
  refine ⟨hr, by positivity, by rw [abs_of_pos hpos, abs_of_pos ha]; exact he.le, fun s hs hsa hle => ?_⟩
  have hs0 : 0 ≤ s := nonneg_of_mul_nonneg_left hsa ha
  rw [abs_of_nonneg hs0, abs_of_pos ha] at hle
  rw [abs_of_nonneg hs0, abs_of_pos hpos]
  rcases he.gap s hs with h | h
  · exact h
  · linarith [he.lt]

theorem nearest_of_nearest (hr : r ∈ S) (h : Takes .nearest a lo hi r) : Nearest S a r:= by
  refine ⟨hr, fun s hs => ?_⟩
  have hle := he.le
  have hlt := he.lt
  have hd : |r - a| ≤ a - lo ∧ |r - a| ≤ hi - a := by
    rcases h with ⟨rfl, h⟩ | ⟨rfl, h⟩
    · rw [abs_of_nonpos (by linarith)]; constructor <;> linarith
    · rw [abs_of_nonneg (by linarith)]; constructor <;> linarith
  rcases he.gap s hs with h | h
  · rw [abs_of_nonpos (show s - a ≤ 0 by linarith)]; linarith [hd.1]
  · rw [abs_of_nonneg (show 0 ≤ s - a by linarith)]; linarith [hd.2]

end

theorem Nearest.eq_of_mem (h : Nearest S v r) (hv : v ∈ S) : r = v := by
  have := h.2 v hv
  rw [sub_self, abs_zero] at this
  exact sub_eq_zero.1 (abs_nonpos_iff.1 this)

theorem Truncates.eq_of_mem (h : Truncates S v r) (hv : v ∈ S) : r = v := by
  obtain ⟨-, h0, hle, hmax⟩ := h
  have heq := le_antisymm hle (hmax v hv (mul_self_nonneg v) (le_refl _))
  rcases abs_eq_abs.1 heq with h | rfl
  · exact h
  · rw [neg_mul] at h0
    have : v * v = 0 := le_antisymm (by linarith) (mul_self_nonneg v)
    rw [mul_self_eq_zero.1 this, neg_zero]

/-- Two representable values at the same distance are the two neighbours. -/
theorem tie_of_nearest (he : Encloses S lo hi a) (h : Takes .nearest a lo hi r) {s : K} (hs : s ∈ S)
    (hne : s ≠ r) (hd : |s - a| = |r - a|) :
    hi - a = a - lo ∧ ((r = lo ∧ s = hi) ∨ (r = hi ∧ s = lo)) := by
  have hle := he.le
  have hlt := he.lt
  rcases h with ⟨rfl, h⟩ | ⟨rfl, h⟩ <;> rcases he.gap s hs with hg | hg
  · rw [abs_of_nonpos (show s - a ≤ 0 by linarith), abs_of_nonpos (show r - a ≤ 0 by linarith)] at hd
    exact absurd (by linarith) hne
  · rw [abs_of_nonneg (show 0 ≤ s - a by linarith), abs_of_nonpos (show r - a ≤ 0 by linarith)] at hd
    exact ⟨by linarith, .inl ⟨rfl, by linarith⟩⟩
  · rw [abs_of_nonpos (show s - a ≤ 0 by linarith), abs_of_nonneg (show 0 ≤ r - a by linarith)] at hd
    exact ⟨by linarith, .inr ⟨rfl, by linarith⟩⟩
  · rw [abs_of_nonneg (show 0 ≤ s - a by linarith), abs_of_nonneg (show 0 ≤ r - a by linarith)] at hd
    exact absurd (by linarith) hne

end Ordered

/-! ## The sign -/

theorem Truncates.neg (hS : ∀ s ∈ S, -s ∈ S) (h : Truncates S v r) : Truncates S (-v) (-r) := by
  obtain ⟨hr, h0, hle, hmax⟩ := h
  refine ⟨hS r hr, by rwa [neg_mul_neg], by rwa [abs_neg, abs_neg], fun s hs hsv hl => ?_⟩
  rw [abs_neg] at hl ⊢
  rw [← abs_neg s] at hl ⊢
  exact hmax (-s) (hS s hs) (by rwa [neg_mul, ← mul_neg]) hl

theorem Nearest.neg (hS : ∀ s ∈ S, -s ∈ S) (h : Nearest S v r) : Nearest S (-v) (-r) := by
  refine ⟨hS r h.1, fun s hs => ?_⟩
  have := h.2 (-s) (hS s hs)
  rwa [neg_sub_neg, abs_sub_comm, ← abs_neg (s - -v), show -(s - -v) = -s - v by ring]

variable [IsStrictOrderedRing K]

theorem RoundsUp.of_neg (hS : ∀ s ∈ S, -s ∈ S) (h : RoundsDown S v r) : RoundsUp S (-v) (-r) :=
  ⟨⟨hS r h.1.1, neg_le_neg h.1.2⟩, fun s hs => by
    have := h.2 ⟨hS s hs.1, neg_le.1 hs.2⟩
    linarith⟩

theorem RoundsDown.of_neg (hS : ∀ s ∈ S, -s ∈ S) (h : RoundsUp S v r) : RoundsDown S (-v) (-r) :=
  ⟨⟨hS r h.1.1, neg_le_neg h.1.2⟩, fun s hs => by
    have := h.2 ⟨hS s hs.1, le_neg.1 hs.2⟩
    linarith⟩

end Rippled.Lib
