import Mathlib.Data.Multiset.Filter
import Mathlib.Data.Nat.SuccPred

/-!
# Ordered maps of counts

A map from keys to counts kept as the list of its entries by increasing key, the order in which an iterator
over it walks. `Counts m S` says what such a map stands for: the multiset `S` of keys, each key with an entry
only while its count is positive, so that two maps that stand for one multiset are equal.
-/

namespace Rippled.Lib.CountMap

open List

section Ordered
variable {κ : Type} [LinearOrder κ]

/-- The count of a key, zero without an entry. -/
def get : List (κ × Nat) → κ → Nat
  | [], _ => 0
  | (k, c) :: m, x => if x = k then c else get m x

/-- Add to the count of a key, with a new entry where there is none. -/
def add : List (κ × Nat) → κ → Nat → List (κ × Nat)
  | [], x, n => [(x, n)]
  | (k, c) :: m, x, n =>
    if x < k then (x, n) :: (k, c) :: m
    else if x = k then (k, c + n) :: m
    else (k, c) :: add m x n

/-- Take from the count of a key; the entry is erased when its count reaches zero. -/
def sub : List (κ × Nat) → κ → Nat → List (κ × Nat)
  | [], _, _ => []
  | (k, c) :: m, x, n =>
    if x = k then (if c - n = 0 then m else (k, c - n) :: m)
    else (k, c) :: sub m x n

/-- Keys increase and every count is positive. -/
def Ordered (m : List (κ × Nat)) : Prop := m.Pairwise (fun a b => a.1 < b.1) ∧ ∀ e ∈ m, 0 < e.2

/-- The map holds the multiset of keys `S`. -/
def Counts (m : List (κ × Nat)) (S : Multiset κ) : Prop := Ordered m ∧ ∀ k, get m k = S.count k

variable {m : List (κ × Nat)} {e : κ × Nat}

theorem Ordered.tail (h : Ordered (e :: m)) : Ordered m :=
  ⟨h.1.of_cons, fun d hd => h.2 d (mem_cons_of_mem e hd)⟩

variable {x : κ}

theorem get_eq_zero (h : ∀ e ∈ m, x < e.1) : get m x = 0 := by
  induction m with
  | nil => rfl
  | cons e m ih =>
    have hne : x ≠ e.1 := (h e mem_cons_self).ne
    simp only [get, hne, if_false]
    exact ih fun d hd => h d (mem_cons_of_mem e hd)

theorem Ordered.get_tail {k : κ} {c : Nat} (h : Ordered ((k, c) :: m)) : get m k = 0 :=
  get_eq_zero fun _ he => rel_of_pairwise_cons h.1 he

theorem Ordered.get_of_lt {k : κ} {c : Nat} (h : Ordered ((k, c) :: m)) (hx : x < k) : get ((k, c) :: m) x = 0 := by
  refine get_eq_zero fun e he => ?_
  rcases mem_cons.1 he with rfl | he
  · exact hx
  · exact hx.trans (rel_of_pairwise_cons h.1 he)

/-- An addition changes one count. -/
theorem get_add (m : List (κ × Nat)) (x y : κ) (n : Nat) (h : Ordered m) :
    get (add m x n) y = get m y + if y = x then n else 0 := by
  induction m with
  | nil => by_cases hy : y = x <;> simp [add, get, hy]
  | cons e m ih =>
    obtain ⟨k, c⟩ := e
    rcases lt_trichotomy x k with hlt | heq | hlt
    · rw [add, if_pos hlt]
      by_cases hy : y = x
      · rw [hy, h.get_of_lt hlt]
        simp [get]
      · simp [get, hy]
    · subst heq
      by_cases hy : y = x <;> simp [add, get, hy]
    · rw [add, if_neg hlt.not_gt, if_neg hlt.ne']
      by_cases hy : y = k
      · simp [get, hy, hlt.ne]
      · simp only [get, hy, if_false]
        exact ih h.tail

variable {n : Nat}

theorem mem_add (h : e ∈ add m x n) : (e.1 = x ∧ n ≤ e.2) ∨ e ∈ m := by
  induction m with
  | nil => simp_all [add]
  | cons d m ih =>
    unfold add at h
    split_ifs at h with hlt heq
    · rcases mem_cons.1 h with rfl | h
      · exact .inl ⟨rfl, le_rfl⟩
      · exact .inr h
    · rcases mem_cons.1 h with rfl | h
      · exact .inl ⟨heq.symm, Nat.le_add_left _ _⟩
      · exact .inr (mem_cons_of_mem _ h)
    · rcases mem_cons.1 h with rfl | h
      · exact .inr mem_cons_self
      · exact (ih h).imp_right (mem_cons_of_mem _)

/-- An addition keeps the order. -/
theorem Ordered.add (h : Ordered m) (x : κ) (hn : 0 < n) : Ordered (add m x n) := by
  refine ⟨?_, fun e he => ?_⟩
  · induction m with
    | nil => exact pairwise_singleton _ _
    | cons d m ih =>
      obtain ⟨k, c⟩ := d
      unfold CountMap.add
      split_ifs with hlt heq
      · refine List.Pairwise.cons (fun e he => ?_) h.1
        rcases mem_cons.1 he with rfl | he
        · exact hlt
        · exact hlt.trans (rel_of_pairwise_cons h.1 he)
      · exact List.Pairwise.cons (fun e he => rel_of_pairwise_cons h.1 he) h.1.of_cons
      · refine List.Pairwise.cons (fun e he => ?_) (ih h.tail)
        rcases mem_add he with ⟨hx, _⟩ | he
        · rw [hx]
          exact lt_of_le_of_ne (not_lt.1 hlt) (Ne.symm heq)
        · exact rel_of_pairwise_cons h.1 he
  · rcases mem_add he with ⟨_, hle⟩ | he
    · exact hn.trans_le hle
    · exact h.2 e he

/-- A subtraction changes one count, down to zero. -/
theorem get_sub (m : List (κ × Nat)) (x y : κ) (n : Nat) (h : Ordered m) :
    get (sub m x n) y = get m y - if y = x then n else 0 := by
  induction m with
  | nil => simp [sub, get]
  | cons e m ih =>
    obtain ⟨k, c⟩ := e
    by_cases hx : x = k
    · subst hx
      rw [sub, if_pos rfl]
      by_cases hzero : c - n = 0
      · rw [if_pos hzero]
        by_cases hy : y = x
        · rw [hy, h.get_tail]
          simp [get, hzero]
        · simp [get, hy]
      · rw [if_neg hzero]
        by_cases hy : y = x <;> simp [get, hy]
    · rw [sub, if_neg hx]
      by_cases hy : y = k
      · simp [get, hy, Ne.symm hx]
      · simp only [get, hy, if_false]
        exact ih h.tail

theorem mem_sub (h : e ∈ sub m x n) : 0 < e.2 ∧ (∃ c, (e.1, c) ∈ m) ∨ e ∈ m := by
  induction m with
  | nil => simp [sub] at h
  | cons d m ih =>
    unfold sub at h
    split_ifs at h with heq hzero
    · exact .inr (mem_cons_of_mem _ h)
    · rcases mem_cons.1 h with rfl | h
      · exact .inl ⟨Nat.pos_of_ne_zero hzero, d.2, mem_cons_self⟩
      · exact .inr (mem_cons_of_mem _ h)
    · rcases mem_cons.1 h with rfl | h
      · exact .inr mem_cons_self
      · rcases ih h with ⟨hpos, c, hc⟩ | h
        · exact .inl ⟨hpos, c, mem_cons_of_mem _ hc⟩
        · exact .inr (mem_cons_of_mem _ h)

/-- A subtraction keeps the order, and leaves no zero. -/
theorem Ordered.sub (h : Ordered m) (x : κ) (n : Nat) : Ordered (sub m x n) := by
  refine ⟨?_, fun e he => ?_⟩
  · induction m with
    | nil => exact List.Pairwise.nil
    | cons d m ih =>
      obtain ⟨k, c⟩ := d
      unfold CountMap.sub
      split_ifs with heq hzero
      · exact h.1.of_cons
      · exact List.Pairwise.cons (fun e he => rel_of_pairwise_cons h.1 he) h.1.of_cons
      · refine List.Pairwise.cons (fun e he => ?_) (ih h.tail)
        rcases mem_sub he with ⟨_, c', hc'⟩ | he
        · have hlt := rel_of_pairwise_cons h.1 hc'
          exact hlt
        · exact rel_of_pairwise_cons h.1 he
  · rcases mem_sub he with ⟨hpos, _⟩ | he
    · exact hpos
    · exact h.2 e he

/-! ## The multiset a map holds -/

theorem counts_nil : Counts ([] : List (κ × Nat)) 0 := ⟨⟨List.Pairwise.nil, by simp⟩, fun _ => by simp [get]⟩

variable {S : Multiset κ}

/-- Counts of a multiset with more of one element. -/
theorem Counts.add (h : Counts m S) (x : κ) (hn : 0 < n) : Counts (add m x n) (S + Multiset.replicate n x) := by
  refine ⟨h.1.add x hn, fun k => ?_⟩
  rw [get_add _ _ _ _ h.1, h.2, Multiset.count_add, Multiset.count_replicate]
  simp only [eq_comm]

/-- Counts of a multiset with less of one element. -/
theorem Counts.sub (h : Counts m S) (x : κ) (n : Nat) : Counts (sub m x n) (S - Multiset.replicate n x) := by
  refine ⟨h.1.sub x n, fun k => ?_⟩
  rw [get_sub _ _ _ _ h.1, h.2, Multiset.count_sub, Multiset.count_replicate]
  simp only [eq_comm]

variable {m' : List (κ × Nat)}

theorem Ordered.eq_of_get_eq (h : Ordered m) (h' : Ordered m') (hget : ∀ k, get m k = get m' k) : m = m' := by
  induction m generalizing m' with
  | nil =>
    cases m' with
    | nil => rfl
    | cons e m' =>
      have hpos := h'.2 e mem_cons_self
      have := hget e.1
      simp only [get, if_true] at this
      omega
  | cons e m ih =>
    obtain ⟨k, c⟩ := e
    cases m' with
    | nil =>
      have hpos := h.2 (k, c) mem_cons_self
      have := hget k
      simp only [get, if_true] at this hpos
      omega
    | cons e' m' =>
      obtain ⟨k', c'⟩ := e'
      have hpos : 0 < c := h.2 (k, c) mem_cons_self
      have hpos' : 0 < c' := h'.2 (k', c') mem_cons_self
      -- the smaller of the two first keys would be missing from the other map
      have hk : k = k' := by
        rcases lt_trichotomy k k' with hlt | heq | hlt
        · have := hget k
          rw [h'.get_of_lt hlt] at this
          simp only [get, if_true] at this
          omega
        · exact heq
        · have := hget k'
          rw [h.get_of_lt hlt] at this
          simp only [get, if_true] at this
          omega
      subst hk
      have hc : c = c' := by simpa [get] using hget k
      subst hc
      refine congrArg _ (ih h.tail h'.tail fun x => ?_)
      by_cases hx : x = k
      · rw [hx, h.get_tail, h'.get_tail]
      · simpa [get, hx] using hget x

/-- A multiset has one list of counts. -/
theorem Counts.unique (h : Counts m S) (h' : Counts m' S) : m = m' :=
  h.1.eq_of_get_eq h'.1 fun k => by rw [h.2, h'.2]

end Ordered

/-! ## Walking a map by increasing key

An iterator is the list of the entries ahead of it. -/

/-- The counts of all keys below a bound. -/
def below (m : List (Nat × Nat)) (b : Nat) : Nat := ((m.filter (·.1 < b)).map (·.2)).sum

/-- Move an iterator over the keys below a bound, adding their counts to `u`. -/
def skipTo (b : Nat) : Nat → List (Nat × Nat) → Nat × List (Nat × Nat)
  | u, [] => (u, [])
  | u, (k, c) :: r => if k < b then skipTo b (u + c) r else (u, (k, c) :: r)

/-- The iterator `r` over `m` has passed exactly the keys below `b`, and `u` is the sum of their counts. -/
def Passed (m : List (Nat × Nat)) (b u : Nat) (r : List (Nat × Nat)) : Prop :=
  u = below m b ∧ r = m.filter (b ≤ ·.1)

variable {m : List (Nat × Nat)}

/-- The sum up to a bound counts the elements below it. -/
theorem below_eq_countP {S : Multiset Nat} (h : Counts m S) (b : Nat) : below m b = S.countP (· < b) := by
  induction m generalizing S with
  | nil =>
    have hS : S = 0 := Multiset.ext.2 fun k => by rw [← h.2 k]; simp [get]
    simp [below, hS]
  | cons e m ih =>
    obtain ⟨k, c⟩ := e
    have htail : Counts m (S - Multiset.replicate c k) := by
      refine ⟨h.1.tail, fun x => ?_⟩
      have hx := h.2 x
      rw [Multiset.count_sub, Multiset.count_replicate]
      by_cases hxk : x = k
      · subst hxk
        simp only [get, if_true] at hx
        simp [h.1.get_tail, hx]
      · simp only [get, hxk, if_false] at hx
        simp [hx, Ne.symm hxk]
    have hle : Multiset.replicate c k ≤ S := by
      rw [← Multiset.le_count_iff_replicate_le, ← h.2 k]
      simp [get]
    have hsplit : S.countP (· < b) = (S - Multiset.replicate c k).countP (· < b) + if k < b then c else 0 := by
      conv_lhs => rw [← Multiset.sub_add_cancel hle]
      rw [Multiset.countP_add]
      congr 1
      by_cases hk : k < b
      · rw [Multiset.countP_eq_card.2 fun x hx => by rwa [Multiset.eq_of_mem_replicate hx]]
        simp [hk]
      · rw [Multiset.countP_eq_zero.2 fun x hx => by rwa [Multiset.eq_of_mem_replicate hx]]
        simp [hk]
    rw [hsplit, ← ih htail]
    by_cases hk : k < b
    · simp [below, hk, Nat.add_comm]
    · simp [below, hk]

theorem passed_zero (m : List (Nat × Nat)) : Passed m 0 0 m := by
  constructor
  · simp [below]
  · simp

theorem below_cons (k c : Nat) (m : List (Nat × Nat)) (b : Nat) :
    below ((k, c) :: m) b = (if k < b then c else 0) + below m b := by
  by_cases hk : k < b <;> simp [below, hk]

variable {b : Nat}

theorem below_of_le (h : ∀ e ∈ m, b ≤ e.1) : below m b = 0 := by
  have : m.filter (·.1 < b) = [] := by
    rw [filter_eq_nil_iff]
    intro e he
    simpa using h e he
  simp [below, this]

variable {r : List (Nat × Nat)} {u : Nat}

theorem Passed.cons {k c : Nat} (hm : Ordered m) (h : Passed m b u ((k, c) :: r)) :
    b ≤ k ∧ (∀ s, b ≤ s → s ≤ k → below m s = u) ∧ Passed m (k + 1) (u + c) r := by
  induction m generalizing u with
  | nil => simp [Passed] at h
  | cons e m ih =>
    obtain ⟨x, y⟩ := e
    obtain ⟨hu, hr⟩ := h
    by_cases hx : x < b
    · rw [filter_cons_of_neg (by simpa using hx)] at hr
      obtain ⟨hbk, hconst, hu', hr'⟩ := ih hm.tail ⟨rfl, hr⟩
      rw [below_cons, if_pos hx] at hu
      refine ⟨hbk, fun s hbs hsk => ?_, ?_, ?_⟩
      · rw [below_cons, if_pos (hx.trans_le hbs), hconst s hbs hsk, hu]
      · rw [below_cons, if_pos (by omega), ← hu', hu, Nat.add_assoc]
      · rw [filter_cons_of_neg (by simp; omega)]
        exact hr'
    · have hbx : b ≤ x := Nat.not_lt.1 hx
      rw [filter_cons_of_pos (by simpa using hbx)] at hr
      injection hr with hkx hr
      injection hkx with hkx hcy
      subst hkx hcy
      have habove : ∀ e ∈ m, k + 1 ≤ e.1 := fun e he => rel_of_pairwise_cons hm.1 he
      have hall : ∀ b', b' ≤ k + 1 → below m b' = 0 := fun b' hb' =>
        below_of_le fun e he => hb'.trans (habove e he)
      rw [below_cons, if_neg hx, hall b (by omega)] at hu
      refine ⟨hbx, fun s _ hsk => ?_, ?_, ?_⟩
      · rw [below_cons, if_neg (by omega), hall s (by omega), hu]
      · rw [below_cons, if_pos (Nat.lt_succ_self k), hall _ le_rfl, hu]
        omega
      · rw [filter_cons_of_neg (by simp), hr]
        refine filter_congr fun e he => ?_
        have := habove e he
        simp only [decide_eq_decide]
        omega

theorem Passed.nil (h : Passed m b u []) : ∀ s, b ≤ s → below m s = u ∧ Passed m s u [] := by
  obtain ⟨hu, hr⟩ := h
  have hlt : ∀ e ∈ m, e.1 < b := by
    intro e he
    have := filter_eq_nil_iff.1 hr.symm e he
    simpa using this
  intro s hs
  have hsame : below m s = below m b := by
    unfold below
    rw [filter_congr fun e he => ?_]
    have := hlt e he
    simp only [decide_eq_decide]
    omega
  refine ⟨hsame.trans hu.symm, hu.trans hsame.symm, ?_⟩
  refine (filter_eq_nil_iff.2 fun e he => ?_).symm
  have := hlt e he
  simp only [decide_eq_true_eq]
  omega

/-- While the next key is not below a bound, the iterator may be said to stand at that bound. -/
theorem Passed.advance (hm : Ordered m) (h : Passed m b u r) {s : Nat} (hs : b ≤ s)
    (hr : ∀ e, r.head? = some e → s ≤ e.1) : Passed m s u r := by
  cases r with
  | nil => exact (h.nil s hs).2
  | cons e r =>
    obtain ⟨k, c⟩ := e
    have hsk : s ≤ k := hr _ rfl
    obtain ⟨_, hconst, -⟩ := h.cons hm
    refine ⟨(hconst s hs hsk).symm, ?_⟩
    rw [h.2]
    refine filter_congr fun e he => ?_
    simp only [decide_eq_decide]
    constructor
    · intro hbe
      have hmem : e ∈ (k, c) :: r := by
        rw [h.2, mem_filter]
        exact ⟨he, by simpa using hbe⟩
      rcases mem_cons.1 hmem with rfl | hmem
      · exact hsk
      · have hord : ((k, c) :: r).Pairwise (fun a b => a.1 < b.1) := by
          rw [h.2]
          exact hm.1.filter _
        have hke := rel_of_pairwise_cons hord hmem
        exact hsk.trans (Nat.le_of_lt hke)
    · intro hse
      exact hs.trans hse

/-- Skipping adds up the counts below the bound. -/
theorem skipTo_passed (hm : Ordered m) (h : Passed m b u r) {s : Nat} (hs : b ≤ s) :
    Passed m s (skipTo s u r).1 (skipTo s u r).2 := by
  induction r generalizing b u with
  | nil => exact (h.nil s hs).2
  | cons e r ih =>
    obtain ⟨k, c⟩ := e
    unfold skipTo
    split_ifs with hk
    · obtain ⟨-, -, hnext⟩ := h.cons hm
      exact ih hnext hk
    · refine h.advance hm hs ?_
      rintro e ⟨⟩
      exact Nat.not_lt.1 hk

end Rippled.Lib.CountMap
