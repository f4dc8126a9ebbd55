import Mathlib.Data.List.Nodup
import Mathlib.Data.List.Perm.Basic
import Mathlib.Data.Option.Basic
import Mathlib.Order.Lattice

/-!
# Ordered maps whose values have their key in them

A finite map kept as the list of its values by increasing key, the order in which an iterator walks it. An iterator is
the list of the values that are still to come. Such a list is determined by its members, so two maps that look up alike
are equal (`ext_find`).
-/

namespace Rippled.Lib

class Keyed (V : Type) (K : outParam Type) where
  key : V → K

structure KeyedMap (V : Type) {K : Type} [LinearOrder K] [Keyed V K] where
  toList : List V
  sorted : toList.Pairwise (fun a b => Keyed.key a < Keyed.key b)

namespace KeyedMap

open Keyed List

variable {V K : Type} [LinearOrder K] [Keyed V K]

/-- Keys increase from each value of the list to the next ones. -/
abbrev Increasing (l : List V) : Prop := l.Pairwise (fun a b => key a < key b)

variable {l : List V}

/-- A sorted list is known by its members. -/
theorem eq_of_mem_iff {l' : List V} (h : Increasing l) (h' : Increasing l') (hmem : ∀ v, v ∈ l ↔ v ∈ l') : l = l' := by
  have hnodup : ∀ {l : List V}, Increasing l → l.Nodup := fun h => h.imp fun hlt heq => (heq ▸ hlt).ne rfl
  have hperm : l.Perm l' := (perm_ext_iff_of_nodup (hnodup h) (hnodup h')).2 hmem
  exact hperm.eq_of_pairwise (fun a b _ _ hab hba => absurd hab hba.not_gt) h h'

variable {v : V}

theorem Increasing.lt_of_mem (h : Increasing (v :: l)) {k : K} (hk : k < key v) : ∀ w ∈ v :: l, k < key w :=
  forall_mem_cons.2 ⟨hk, fun w hw => hk.trans ((pairwise_cons.1 h).1 w hw)⟩

variable {w : V}

/-- Keys tell the values of a sorted list apart. -/
theorem eq_of_key_eq (h : Increasing l) (hv : v ∈ l) (hw : w ∈ l) (hk : key v = key w) : v = w := by
  induction l with
  | nil => cases hv
  | cons u l ih =>
    have hu : ∀ x ∈ l, key u < key x := (pairwise_cons.1 h).1
    rcases mem_cons.1 hv with hvu | hv <;> rcases mem_cons.1 hw with hwu | hw
    · rw [hvu, hwu]
    · exact absurd (hvu ▸ hk) (hu w hw).ne
    · exact absurd (hwu ▸ hk) (hu v hv).ne'
    · exact ih h.of_cons hv hw

/-- A search from the front finds the least key. -/
theorem key_le_of_find? (h : Increasing l) {p : V → Bool} (hv : l.find? p = some v) (hw : w ∈ l) (hp : p w = true) :
    key v ≤ key w := by
  induction l with
  | nil => cases hw
  | cons u l ih =>
    by_cases hu : p u = true
    · rw [find?_cons_of_pos hu, Option.some.injEq] at hv
      subst hv
      rcases mem_cons.1 hw with rfl | hw
      · exact le_rfl
      · exact ((pairwise_cons.1 h).1 w hw).le
    · rw [find?_cons_of_neg hu] at hv
      rcases mem_cons.1 hw with rfl | hw
      · exact absurd hp hu
      · exact ih h.of_cons hv hw

theorem key_head?_le (h : Increasing l) (hv : l.head? = some v) (hw : w ∈ l) : key v ≤ key w := by
  cases l with
  | nil => cases hw
  | cons u l =>
    obtain rfl := Option.some.inj hv
    rcases mem_cons.1 hw with rfl | hw
    · exact le_rfl
    · exact ((pairwise_cons.1 h).1 w hw).le

/-- The last value has the greatest key. -/
theorem le_key_getLast? (h : Increasing l) (hv : l.getLast? = some v) (hw : w ∈ l) : key w ≤ key v := by
  obtain ⟨ys, rfl⟩ := getLast?_eq_some_iff.1 hv
  rcases mem_append.1 hw with hw | hw
  · exact ((pairwise_append.1 h).2.2 w hw v (mem_singleton_self v)).le
  · rw [mem_singleton.1 hw]

/-! ## Looking up -/

instance : EmptyCollection (KeyedMap V) := ⟨⟨[], .nil⟩⟩

def find (m : KeyedMap V) (k : K) : Option V := m.toList.find? (key · = k)

variable {m : KeyedMap V} {k : K}

/-- `find` gives the value with the key. -/
theorem find_eq_some : m.find k = some v ↔ v ∈ m.toList ∧ key v = k := by
  constructor
  · intro h
    exact ⟨mem_of_find?_eq_some h, by simpa using find?_some h⟩
  · rintro ⟨hv, rfl⟩
    cases h : m.find (key v) with
    | none => simpa using find?_eq_none.1 h v hv
    | some w =>
      have hk : key w = key v := by simpa using find?_some h
      rw [eq_of_key_eq m.sorted (mem_of_find?_eq_some h) hv hk]

theorem find_eq_none : m.find k = none ↔ ∀ v ∈ m.toList, key v ≠ k := by
  unfold find
  simp

theorem isSome_find : (m.find k).isSome ↔ ∃ v ∈ m.toList, key v = k := by
  simp only [Option.isSome_iff_exists, find_eq_some]

theorem key_of_find (h : m.find k = some v) : key v = k := (find_eq_some.1 h).2

theorem mem_toList : v ∈ m.toList ↔ m.find (key v) = some v := by
  rw [find_eq_some, and_iff_left rfl]

/-- A map is known by what `find` gives. -/
theorem ext_find {m' : KeyedMap V} (h : ∀ k, m.find k = m'.find k) : m = m' := by
  have hlist : m.toList = m'.toList := eq_of_mem_iff m.sorted m'.sorted fun v => by rw [mem_toList, mem_toList, h]
  cases m; cases m'; cases hlist; rfl

/-! ## Changing a map -/

/-- A value put in its place, over the one with its key. -/
def insertList (v : V) : List V → List V
  | [] => [v]
  | w :: l => if key v < key w then v :: w :: l else if key v = key w then v :: l else w :: insertList v l

theorem mem_insertList {x : V} (h : Increasing l) : x ∈ insertList v l ↔ x = v ∨ (x ∈ l ∧ key x ≠ key v) := by
  induction l with
  | nil => simp [insertList]
  | cons w l ih =>
    have hw : ∀ y ∈ l, key w < key y := (pairwise_cons.1 h).1
    rw [insertList]
    split_ifs with hlt heq
    · rw [mem_cons]
      exact or_congr_right (iff_self_and.2 fun hx => (h.lt_of_mem hlt x hx).ne')
    · have hne : ∀ y ∈ l, key y ≠ key v := fun y hy => heq ▸ (hw y hy).ne'
      rw [mem_cons, mem_cons, or_and_right]
      refine or_congr_right ⟨fun hx => .inr ⟨hx, hne x hx⟩, ?_⟩
      rintro (⟨rfl, hx⟩ | hx)
      · exact absurd heq.symm hx
      · exact hx.1
    · rw [mem_cons, ih h.of_cons, mem_cons, or_and_right, or_left_comm]
      refine or_congr_right (or_congr_left (iff_self_and.2 ?_))
      rintro rfl
      exact fun hk => heq hk.symm

theorem increasing_insertList (v : V) (h : Increasing l) : Increasing (insertList v l) := by
  induction l with
  | nil => exact pairwise_singleton ..
  | cons w l ih =>
    have hw : ∀ y ∈ l, key w < key y := (pairwise_cons.1 h).1
    rw [insertList]
    split_ifs with hlt heq
    · exact pairwise_cons.2 ⟨h.lt_of_mem hlt, h⟩
    · exact pairwise_cons.2 ⟨fun y hy => heq ▸ hw y hy, h.of_cons⟩
    · refine pairwise_cons.2 ⟨fun y hy => ?_, ih h.of_cons⟩
      rcases (mem_insertList h.of_cons).1 hy with rfl | hy
      · exact lt_of_le_of_ne (not_lt.1 hlt) (Ne.symm heq)
      · exact hw y hy.1

def insert (m : KeyedMap V) (v : V) : KeyedMap V := ⟨insertList v m.toList, increasing_insertList v m.sorted⟩

def erase (m : KeyedMap V) (k : K) : KeyedMap V := ⟨m.toList.filter (key · ≠ k), m.sorted.filter _⟩

/-- An insertion changes the value of its key only. -/
theorem find_insert (m : KeyedMap V) (v : V) (k : K) :
    (m.insert v).find k = if k = key v then some v else m.find k := by
  have hmem : ∀ x, x ∈ (m.insert v).toList ↔ x = v ∨ (x ∈ m.toList ∧ key x ≠ key v) := fun _ => mem_insertList m.sorted
  ext x
  rw [find_eq_some, hmem]
  by_cases hk : k = key v
  · subst hk
    rw [if_pos rfl, Option.some.injEq]
    constructor
    · rintro ⟨rfl | hx, hxk⟩
      · rfl
      · exact absurd hxk hx.2
    · rintro rfl
      exact ⟨.inl rfl, rfl⟩
  · rw [if_neg hk, find_eq_some]
    constructor
    · rintro ⟨rfl | hx, rfl⟩
      · exact absurd rfl hk
      · exact ⟨hx.1, rfl⟩
    · rintro ⟨hx, rfl⟩
      exact ⟨.inr ⟨hx, hk⟩, rfl⟩

/-- An erasure takes away its key only. -/
theorem find_erase (m : KeyedMap V) (k k' : K) : (m.erase k).find k' = if k' = k then none else m.find k' := by
  ext x
  rw [find_eq_some]
  unfold erase
  rw [mem_filter, decide_eq_true_iff]
  by_cases hk : k' = k
  · subst hk
    rw [if_pos rfl]
    exact iff_of_false (fun h => h.1.2 h.2) (by simp)
  · rw [if_neg hk, find_eq_some]
    constructor
    · rintro ⟨⟨hx, -⟩, rfl⟩
      exact ⟨hx, rfl⟩
    · rintro ⟨hx, rfl⟩
      exact ⟨⟨hx, hk⟩, rfl⟩

@[simp] theorem find_insert_self (m : KeyedMap V) (v : V) : (m.insert v).find (key v) = some v := by
  rw [find_insert, if_pos rfl]

theorem find_insert_of_ne (m : KeyedMap V) (h : k ≠ key v) : (m.insert v).find k = m.find k := by
  rw [find_insert, if_neg h]

@[simp] theorem find_erase_self (m : KeyedMap V) (k : K) : (m.erase k).find k = none := by
  rw [find_erase, if_pos rfl]

theorem find_erase_of_ne (m : KeyedMap V) {k' : K} (h : k' ≠ k) : (m.erase k).find k' = m.find k' := by
  rw [find_erase, if_neg h]

/-- The map with `o` at the key `k`, where `none` takes the entry away. -/
def set (m : KeyedMap V) (k : K) : Option V → KeyedMap V
  | none => m.erase k
  | some v => m.insert v

theorem find_set (m : KeyedMap V) {o : Option V} (ho : ∀ v, o = some v → key v = k) (k' : K) :
    (m.set k o).find k' = if k' = k then o else m.find k' := by
  cases o with
  | none => exact find_erase m k k'
  | some v =>
    obtain rfl := ho v rfl
    exact find_insert m v k'

/-- Setting a key to what it has changes nothing. -/
theorem set_find (m : KeyedMap V) (k : K) : m.set k (m.find k) = m := by
  refine ext_find fun k' => ?_
  rw [find_set m (fun _ => key_of_find)]
  split_ifs with h
  · rw [h]
  · rfl

/-! ## The values after a key -/

/-- The iterator to the first value whose key is greater (`upper_bound`). -/
def upperBound (m : KeyedMap V) (k : K) : List V := m.toList.dropWhile (key · ≤ k)

/-- Where the predicate holds up to some key, the rest is a filter. -/
theorem dropWhile_eq_filter (h : Increasing l) {p : V → Bool} (hp : ∀ v w, key v < key w → p w = true → p v = true) :
    l.dropWhile p = l.filter fun v => !p v := by
  induction l with
  | nil => rfl
  | cons v l ih =>
    by_cases hv : p v = true
    · rw [dropWhile_cons_of_pos hv, ih h.of_cons, filter_cons_of_neg (by simpa using hv)]
    · rw [dropWhile_cons_of_neg hv]
      refine (filter_eq_self.2 fun w hw => ?_).symm
      rw [Bool.not_eq_true', Bool.eq_false_iff]
      rcases mem_cons.1 hw with rfl | hw
      · exact hv
      · exact fun hpw => hv (hp v w ((pairwise_cons.1 h).1 w hw) hpw)

/-- The values with greater keys. -/
theorem upperBound_eq_filter (m : KeyedMap V) (k : K) : m.upperBound k = m.toList.filter (k < key ·) := by
  have hp : ∀ v w : V, key v < key w → decide (key w ≤ k) = true → decide (key v ≤ k) = true := by
    intro v w hlt hw
    exact decide_eq_true (hlt.le.trans (of_decide_eq_true hw))
  rw [upperBound, dropWhile_eq_filter m.sorted hp]
  simp only [← decide_not, not_le]

theorem increasing_upperBound (m : KeyedMap V) (k : K) : Increasing (m.upperBound k) :=
  m.upperBound_eq_filter k ▸ m.sorted.filter _

theorem mem_upperBound : v ∈ m.upperBound k ↔ v ∈ m.toList ∧ k < key v := by
  rw [upperBound_eq_filter, mem_filter, decide_eq_true_iff]

/-- The iterator to the first value whose key is not less (`lower_bound`). -/
def lowerBound (m : KeyedMap V) (k : K) : List V := m.toList.dropWhile (key · < k)

/-- The values with keys that are not less. -/
theorem lowerBound_eq_filter (m : KeyedMap V) (k : K) : m.lowerBound k = m.toList.filter (k ≤ key ·) := by
  have hp : ∀ v w : V, key v < key w → decide (key w < k) = true → decide (key v < k) = true := by
    intro v w hlt hw
    exact decide_eq_true (hlt.trans (of_decide_eq_true hw))
  rw [lowerBound, dropWhile_eq_filter m.sorted hp]
  simp only [← decide_not, not_lt]

theorem increasing_lowerBound (m : KeyedMap V) (k : K) : Increasing (m.lowerBound k) :=
  m.lowerBound_eq_filter k ▸ m.sorted.filter _

theorem mem_lowerBound : v ∈ m.lowerBound k ↔ v ∈ m.toList ∧ k ≤ key v := by
  rw [lowerBound_eq_filter, mem_filter, decide_eq_true_iff]

/-- A key that is there comes first. -/
theorem lowerBound_of_find (h : m.find k = some v) : m.lowerBound k = v :: m.upperBound k := by
  obtain ⟨hv, rfl⟩ := find_eq_some.1 h
  refine eq_of_mem_iff (m.increasing_lowerBound _) ?_ fun w => ?_
  · exact pairwise_cons.2 ⟨fun w hw => (mem_upperBound.1 hw).2, m.increasing_upperBound _⟩
  · rw [mem_cons, mem_lowerBound, mem_upperBound]
    constructor
    · rintro ⟨hw, hle⟩
      rcases hle.eq_or_lt with heq | hlt
      · exact .inl (eq_of_key_eq m.sorted hw hv heq.symm)
      · exact .inr ⟨hw, hlt⟩
    · rintro (rfl | ⟨hw, hlt⟩)
      · exact ⟨hv, le_rfl⟩
      · exact ⟨hw, hlt.le⟩

theorem lowerBound_of_find_none (h : m.find k = none) : m.lowerBound k = m.upperBound k := by
  refine eq_of_mem_iff (m.increasing_lowerBound _) (m.increasing_upperBound _) fun w => ?_
  rw [mem_lowerBound, mem_upperBound]
  refine and_congr_right fun hw => ?_
  exact ⟨fun hle => lt_of_le_of_ne hle (find_eq_none.1 h w hw).symm, le_of_lt⟩

theorem mem_erase : v ∈ (m.erase k).toList ↔ v ∈ m.toList ∧ key v ≠ k := by
  rw [erase, mem_filter, decide_eq_true_iff]

/-- The first key after `k`, if it is below `last`. -/
def succ (m : KeyedMap V) (k : K) (last : Option K) : Option K :=
  match m.upperBound k with
  | [] => none
  | v :: _ => if last.any (· ≤ key v) then none else some (key v)

/-- What a successor is, by the keys that are present. -/
def IsSucc (present : K → Prop) (k : K) (last : Option K) : Option K → Prop
  | none => ∀ n, k < n → present n → ∃ l, last = some l ∧ l ≤ n
  | some n => k < n ∧ present n ∧ (∀ l, last = some l → n < l) ∧ ∀ n', k < n' → present n' → n ≤ n'

omit [Keyed V K] in
/-- There is one next key at most. -/
theorem IsSucc.unique {present : K → Prop} {last r r' : Option K} (h : IsSucc present k last r)
    (h' : IsSucc present k last r') : r = r' := by
  have hnot : ∀ n, IsSucc present k last (some n) → ¬ IsSucc present k last none := by
    rintro n ⟨hlt, hn, hlast, -⟩ hnone
    obtain ⟨l, hl, hle⟩ := hnone n hlt hn
    exact absurd (hlast l hl) hle.not_gt
  cases r with
  | none =>
    cases r' with
    | none => rfl
    | some n => exact absurd h (hnot n h')
  | some n =>
    cases r' with
    | none => exact absurd h' (hnot n h)
    | some n' => rw [le_antisymm (h.2.2.2 n' h'.1 h'.2.1) (h'.2.2.2 n h.1 h.2.1)]

/-- `succ` gives the next key. -/
theorem isSucc_succ (m : KeyedMap V) (k : K) (last : Option K) :
    IsSucc (fun n => (m.find n).isSome) k last (m.succ k last) := by
  have hpresent : ∀ n, k < n → (m.find n).isSome → ∃ v ∈ m.upperBound k, key v = n := by
    intro n hlt hn
    obtain ⟨v, hv⟩ := Option.isSome_iff_exists.1 hn
    obtain ⟨hmem, rfl⟩ := find_eq_some.1 hv
    exact ⟨v, mem_upperBound.2 ⟨hmem, hlt⟩, rfl⟩
  have hinc := m.increasing_upperBound k
  unfold succ
  cases hub : m.upperBound k with
  | nil =>
    intro n hlt hn
    obtain ⟨v, hv, -⟩ := hpresent n hlt hn
    rw [hub] at hv
    cases hv
  | cons v l =>
    rw [hub] at hinc
    have hv : v ∈ m.upperBound k := hub ▸ mem_cons_self
    have hleast : ∀ n, k < n → (m.find n).isSome → key v ≤ n := by
      intro n hlt hn
      obtain ⟨w, hw, rfl⟩ := hpresent n hlt hn
      rw [hub] at hw
      rcases mem_cons.1 hw with rfl | hw
      · exact le_rfl
      · exact ((pairwise_cons.1 hinc).1 w hw).le
    obtain ⟨hmem, hlt⟩ := mem_upperBound.1 hv
    dsimp only
    split_ifs with hlast
    · intro n hltn hn
      obtain ⟨l, hl, hle⟩ := (Option.any_eq_true _ _).1 hlast
      exact ⟨l, hl, (of_decide_eq_true hle).trans (hleast n hltn hn)⟩
    · refine ⟨hlt, Option.isSome_iff_exists.2 ⟨v, mem_toList.1 hmem⟩, fun l hl => ?_, hleast⟩
      subst hl
      simpa using hlast

theorem succ_eq_iff {last r : Option K} : m.succ k last = r ↔ IsSucc (fun n => (m.find n).isSome) k last r :=
  ⟨fun h => h ▸ m.isSucc_succ k last, (m.isSucc_succ k last).unique⟩

/-! ## A map cut at a value -/

section Cut

variable {m : KeyedMap V} {A B : List V} {v w : V}

theorem lt_of_cut (h : m.toList = A ++ B) {a b : V} (ha : a ∈ A) (hb : b ∈ B) : key a < key b :=
  (pairwise_append.1 (h ▸ m.sorted)).2.2 a ha b hb

end Cut

end KeyedMap

end Rippled.Lib
