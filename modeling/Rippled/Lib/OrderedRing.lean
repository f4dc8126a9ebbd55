import Mathlib.Data.List.Sort

/-!
# Circular lists of increasing numbers

The members of a set of numbers with least member 0, in a circle by increasing number: what the neighbours of a member
are, and what becomes of the neighbours when a member is added at the end or taken away.
-/

namespace Rippled.Lib.OrderedRing

open List

variable {P P' : Nat → Prop} {p q r l n : Nat}

/-- `r` is the greatest member. -/
def IsLast (P : Nat → Prop) (r : Nat) : Prop := P r ∧ ∀ q, P q → q ≤ r

/-- `r` follows `p`: it is the next greater member, or 0 after the last one. -/
def IsNext (P : Nat → Prop) (p r : Nat) : Prop :=
  (r = 0 ∧ ∀ q, P q → q ≤ p) ∨ (P r ∧ p < r ∧ ∀ q, P q → p < q → r ≤ q)

/-- `r` precedes `p`: it is the next smaller member, and the last one for 0. -/
def IsPrev (P : Nat → Prop) (p r : Nat) : Prop :=
  (p = 0 ∧ IsLast P r) ∨ (P r ∧ r < p ∧ ∀ q, P q → q < p → q ≤ r)

theorem IsNext.of_lt (h : IsNext P p r) (hq : P q) (hlt : p < q) : P r ∧ p < r ∧ r ≤ q := by
  rcases h with ⟨-, hall⟩ | ⟨hr, hpr, hall⟩
  · have := hall q hq
    omega
  · exact ⟨hr, hpr, hall q hq hlt⟩

theorem IsPrev.mem (h : IsPrev P p r) : P r := by
  rcases h with ⟨-, hr, -⟩ | ⟨hr, -⟩ <;> exact hr

theorem IsNext.mem (h : IsNext P p r) (h0 : P 0) : P r := by
  rcases h with ⟨rfl, -⟩ | ⟨hr, -⟩
  · exact h0
  · exact hr

theorem IsNext.eq_zero_iff (h : IsNext P p r) (hl : IsLast P l) (hp : P p) : r = 0 ↔ p = l := by
  have hpl := hl.2 p hp
  rcases h with ⟨rfl, hall⟩ | ⟨hr, hpr, -⟩
  · have := hall l hl.1
    omega
  · have := hl.2 r hr
    omega

/-! ## A new last member -/

section Add
variable (hl : IsLast P l) (hn : l < n) (hP' : ∀ q, P' q ↔ P q ∨ q = n)
include hl hn hP'

theorem isLast_add : IsLast P' n := by
  refine ⟨(hP' n).2 (.inr rfl), fun q hq => ?_⟩
  rcases (hP' q).1 hq with hq | rfl
  · have := hl.2 q hq
    omega
  · exact le_rfl

theorem isNext_add_last : IsNext P' l n := by
  refine .inr ⟨(hP' n).2 (.inr rfl), hn, fun q hq hlt => ?_⟩
  rcases (hP' q).1 hq with hq | rfl
  · have := hl.2 q hq
    omega
  · exact le_rfl

theorem isNext_add_new : IsNext P' n 0 := .inl ⟨rfl, (isLast_add hl hn hP').2⟩

theorem IsNext.add (h : IsNext P p r) (hp : P p) (hpl : p ≠ l) : IsNext P' p r := by
  have hpl' := hl.2 p hp
  obtain ⟨hr, hpr, hrl⟩ := h.of_lt hl.1 (by omega)
  refine .inr ⟨(hP' r).2 (.inl hr), hpr, fun q hq hlt => ?_⟩
  rcases (hP' q).1 hq with hq | rfl
  · exact (h.of_lt hq hlt).2.2
  · omega

theorem isPrev_add_new : IsPrev P' n l := by
  refine .inr ⟨(hP' l).2 (.inl hl.1), hn, fun q hq hlt => ?_⟩
  rcases (hP' q).1 hq with hq | rfl
  · exact hl.2 q hq
  · omega

theorem IsPrev.add (h : IsPrev P p r) (hp : P p) (hp0 : p ≠ 0) : IsPrev P' p r := by
  have hpl := hl.2 p hp
  rcases h with ⟨rfl, -⟩ | ⟨hr, hrp, hall⟩
  · exact absurd rfl hp0
  · refine .inr ⟨(hP' r).2 (.inl hr), hrp, fun q hq hlt => ?_⟩
    rcases (hP' q).1 hq with hq | rfl
    · exact hall q hq hlt
    · omega

end Add

/-! ## A member taken away -/

section Remove
variable (hq0 : q ≠ 0) (hP' : ∀ x, P' x ↔ P x ∧ x ≠ q)
include hq0 hP'

theorem isNext_remove_prev (hp : IsPrev P q p) (hr : IsNext P q r) : IsNext P' p r := by
  obtain ⟨-, hpq, hpall⟩ := hp.resolve_left fun h => hq0 h.1
  rcases hr with ⟨rfl, hall⟩ | ⟨hr, hqr, hall⟩
  · refine .inl ⟨rfl, fun x hx => ?_⟩
    obtain ⟨hx, hne⟩ := (hP' x).1 hx
    have := hall x hx
    exact hpall x hx (by omega)
  · refine .inr ⟨(hP' r).2 ⟨hr, by omega⟩, by omega, fun x hx hlt => ?_⟩
    obtain ⟨hx, hne⟩ := (hP' x).1 hx
    refine hall x hx ?_
    rcases Nat.lt_or_ge x q with hxq | hxq
    · have := hpall x hx hxq
      omega
    · omega

theorem IsNext.remove {x y : Nat} (h : IsNext P x y) (hx : P x) (hp : IsPrev P q p) (hxp : x ≠ p) :
    IsNext P' x y := by
  obtain ⟨-, hpq, hpall⟩ := hp.resolve_left fun h => hq0 h.1
  rcases h with ⟨rfl, hall⟩ | ⟨hy, hxy, hall⟩
  · exact .inl ⟨rfl, fun z hz => hall z ((hP' z).1 hz).1⟩
  · have hyq : y ≠ q := by
      rintro rfl
      have := hpall x hx hxy
      have := hall p hp.mem (by omega)
      omega
    exact .inr ⟨(hP' y).2 ⟨hy, hyq⟩, hxy, fun z hz => hall z ((hP' z).1 hz).1⟩

theorem isPrev_remove_next (hp : IsPrev P q p) (hr : IsNext P q r) : IsPrev P' r p := by
  obtain ⟨hpm, hpq, hpall⟩ := hp.resolve_left fun h => hq0 h.1
  have hpm' : P' p := (hP' p).2 ⟨hpm, by omega⟩
  rcases hr with ⟨rfl, hall⟩ | ⟨hr, hqr, hall⟩
  · refine .inl ⟨rfl, hpm', fun x hx => ?_⟩
    obtain ⟨hx, hne⟩ := (hP' x).1 hx
    have := hall x hx
    exact hpall x hx (by omega)
  · refine .inr ⟨hpm', by omega, fun x hx hlt => ?_⟩
    obtain ⟨hx, hne⟩ := (hP' x).1 hx
    refine hpall x hx ?_
    rcases Nat.lt_or_ge q x with hxq | hxq
    · have := hall x hx hxq
      omega
    · omega

omit hq0 in
theorem IsPrev.remove {x y : Nat} (h : IsPrev P x y) (hx : P x) (hr : IsNext P q r) (hxr : x ≠ r) : IsPrev P' x y := by
  rcases h with ⟨rfl, hy, hall⟩ | ⟨hy, hyx, hall⟩
  · -- the last member is another one, or 0 would follow the member that is gone
    have hyq : y ≠ q := by
      rintro rfl
      rcases hr with ⟨rfl, -⟩ | ⟨hr, hlt, -⟩
      · exact hxr rfl
      · have := hall r hr
        omega
    exact .inl ⟨rfl, (hP' y).2 ⟨hy, hyq⟩, fun z hz => hall z ((hP' z).1 hz).1⟩
  · have hyq : y ≠ q := by
      rintro rfl
      obtain ⟨hrm, hlt, hle⟩ := hr.of_lt hx hyx
      have := hall r hrm (by omega)
      omega
    exact .inr ⟨(hP' y).2 ⟨hy, hyq⟩, hyx, fun z hz => hall z ((hP' z).1 hz).1⟩

end Remove

/-! ## The circle as a list -/

section List
variable {ps : List Nat} (hps : ps.Pairwise (· < ·))
include hps

variable {i : Nat}

theorem getElem_lt_iff {j : Nat} (hi : i < ps.length) (hj : j < ps.length) : ps[i] < ps[j] ↔ i < j := by
  have hlt := pairwise_iff_getElem.1 hps
  refine ⟨fun h => ?_, fun h => hlt i j hi hj h⟩
  rcases Nat.lt_trichotomy i j with h' | rfl | h'
  · exact h'
  · omega
  · have := hlt j i hj hi h'
    omega

theorem getElem_le_iff {j : Nat} (hi : i < ps.length) (hj : j < ps.length) : ps[i] ≤ ps[j] ↔ i ≤ j := by
  rw [← Nat.not_lt, getElem_lt_iff hps hj hi, Nat.not_lt]

variable (hmem : ∀ n, n ∈ ps ↔ P n) (h0 : ps[0]? = some 0)
include hmem h0

theorem IsNext.getElem? (hi : i < ps.length) (h : IsNext P ps[i] r) : ps[(i + 1) % ps.length]? = some r := by
  rcases h with ⟨rfl, hall⟩ | ⟨hr, hlt, hall⟩
  · -- no member is greater, so this is the last one
    have hlast : i + 1 = ps.length := by
      have := hall _ ((hmem _).1 (getElem_mem (n := ps.length - 1) (by omega)))
      rw [getElem_le_iff hps] at this
      omega
    rw [hlast, Nat.mod_self, h0]
  · obtain ⟨j, hj, rfl⟩ := getElem_of_mem ((hmem r).2 hr)
    rw [getElem_lt_iff hps hi hj] at hlt
    have hle := hall _ ((hmem _).1 (getElem_mem (n := i + 1) (by omega)))
      ((getElem_lt_iff hps hi (by omega)).2 (by omega))
    rw [getElem_le_iff hps hj (by omega)] at hle
    obtain rfl : j = i + 1 := by omega
    rw [Nat.mod_eq_of_lt hj, getElem?_eq_getElem hj]

theorem IsPrev.getElem? (hi : i < ps.length) (h : IsPrev P ps[i] r) :
    ps[(i + ps.length - 1) % ps.length]? = some r := by
  have hzero : ps[0] = 0 := by
    rw [getElem?_eq_getElem (by omega)] at h0
    exact Option.some.inj h0
  rcases h with ⟨hp0, hr, hall⟩ | ⟨hr, hlt, hall⟩
  · obtain rfl : i = 0 := by
      have := (getElem_le_iff hps hi (j := 0) (by omega)).1 (by omega)
      omega
    obtain ⟨j, hj, rfl⟩ := getElem_of_mem ((hmem r).2 hr)
    have hle := hall _ ((hmem _).1 (getElem_mem (n := ps.length - 1) (by omega)))
    rw [getElem_le_iff hps (by omega) hj] at hle
    obtain rfl : j = ps.length - 1 := by omega
    rw [Nat.zero_add, Nat.mod_eq_of_lt hj, getElem?_eq_getElem hj]
  · obtain ⟨j, hj, rfl⟩ := getElem_of_mem ((hmem r).2 hr)
    rw [getElem_lt_iff hps hj hi] at hlt
    have hle := hall _ ((hmem _).1 (getElem_mem (n := i - 1) (by omega)))
      ((getElem_lt_iff hps (by omega) hi).2 (by omega))
    rw [getElem_le_iff hps (by omega) hj] at hle
    obtain rfl : j = i - 1 := by omega
    have hmod : (i + ps.length - 1) % ps.length = i - 1 := by
      rw [show i + ps.length - 1 = i - 1 + ps.length by omega, Nat.add_mod_right, Nat.mod_eq_of_lt (by omega)]
    rw [hmod, getElem?_eq_getElem hj]

end List

end Rippled.Lib.OrderedRing
