import Mathlib.Data.List.Range
/-!
# Windows of a sequence

The values of a sequence from one index up to another, as a list that grows at its end, loses its first value and is
read from its end.
-/

namespace Rippled.Lib

variable {α : Type}

/-- The values of `f` at the indices from `lo` up to, but without, `hi`. -/
def window (f : Nat → α) (lo hi : Nat) : List α := (List.range' lo (hi - lo)).map f

variable (f : Nat → α)

@[simp] theorem length_window (lo hi : Nat) : (window f lo hi).length = hi - lo := by
  simp [window]

variable {lo hi : Nat}

theorem window_of_le (h : hi ≤ lo) : window f lo hi = [] := by
  have h0 : hi - lo = 0 := by omega
  rw [window, h0, List.range'_zero, List.map_nil]

theorem window_push (h : lo ≤ hi) : window f lo hi ++ [f hi] = window f lo (hi + 1) := by
  have hlen : hi + 1 - lo = (hi - lo) + 1 := by omega
  have hlast : lo + 1 * (hi - lo) = hi := by omega
  rw [window, window, hlen, List.range'_concat, List.map_append, hlast]
  rfl

theorem tail_window (lo hi : Nat) : (window f lo hi).tail = window f (lo + 1) hi := by
  have hlen : hi - (lo + 1) = hi - lo - 1 := by omega
  rw [window, window, hlen, ← List.map_tail, List.tail_range']

theorem getElem?_window {i : Nat} (h : i < hi - lo) : (window f lo hi)[i]? = some (f (lo + i)) := by
  rw [window, List.getElem?_map, List.getElem?_range' h, Nat.one_mul]
  rfl

end Rippled.Lib
