import Mathlib.Data.List.AList
import Mathlib.Data.Set.Card

/-!
# Unordered maps

A map is the list of its entries, with distinct keys, in the order in which an iterator walks over them. Lookups do
not depend on that order.
-/

namespace Rippled.Lib

open List AList

/-- An unordered map, with its entries in iteration order. -/
abbrev HashMap (κ β : Type) := AList fun _ : κ => β

namespace HashMap

variable {κ β γ : Type}

/-- Every value replaced, with the entries in the same order. -/
def mapVal (f : κ → β → γ) (m : HashMap κ β) : HashMap κ γ where
  entries := m.entries.map fun e => ⟨e.1, f e.1 e.2⟩
  nodupKeys := by
    rw [List.NodupKeys, List.keys, List.map_map]
    exact m.nodupKeys

variable [DecidableEq κ] {m m' : HashMap κ β} {k : κ} {b : β}

theorem lookup_mapVal (f : κ → β → γ) (m : HashMap κ β) (k : κ) : (m.mapVal f).lookup k = (m.lookup k).map (f k) := by
  refine Option.ext fun c => ?_
  constructor
  · intro h
    obtain ⟨e, he, heq⟩ := mem_map.1 (mem_lookup_iff.1 h)
    cases heq
    exact Option.map_eq_some_iff.2 ⟨e.2, mem_lookup_iff.2 he, rfl⟩
  · intro h
    obtain ⟨b, hb, rfl⟩ := Option.map_eq_some_iff.1 h
    exact mem_lookup_iff.2 (mem_map.2 ⟨⟨k, b⟩, mem_lookup_iff.1 hb, rfl⟩)

/-- The order of the entries does not matter. -/
theorem lookup_perm (h : m'.entries.Perm m.entries) (k : κ) : m'.lookup k = m.lookup k := perm_lookup h

/-- The entry of a key, and the others. -/
theorem entries_perm (h : m.lookup k = some b) : m.entries.Perm (⟨k, b⟩ :: (m.erase k).entries) := by
  have hmem : k ∈ m.entries.keys := lookup_isSome.1 (by rw [h]; rfl)
  obtain ⟨b', l₁, l₂, hnot, hsplit, herase⟩ := exists_of_kerase hmem
  have hb : b' = b := by
    have hlook : m.lookup k = some b' := by
      rw [AList.lookup, hsplit]
      exact mem_dlookup (hsplit ▸ m.nodupKeys) (by simp)
    rw [h] at hlook
    exact (Option.some.inj hlook).symm
  subst hb
  change m.entries.Perm (⟨k, b'⟩ :: m.entries.kerase k)
  rw [herase, hsplit]
  exact perm_middle

theorem erase_of_lookup_none (h : m.lookup k = none) : m.erase k = m := by
  refine ext ?_
  exact kerase_of_notMem_keys (lookup_eq_none.1 h)

/-- `emplace`: an entry that is there stays. -/
def emplace (m : HashMap κ β) (k : κ) (b : β) : HashMap κ β := if (m.lookup k).isSome then m else m.insert k b

/-- `emplace` keeps a value that is there. -/
theorem lookup_emplace (m : HashMap κ β) (k : κ) (b : β) (k' : κ) :
    (m.emplace k b).lookup k' = if k' = k then some ((m.lookup k).getD b) else m.lookup k' := by
  unfold emplace
  by_cases hk : k' = k
  · subst hk
    cases hm : m.lookup k' with
    | none => simp
    | some b' => simp [hm]
  · rw [if_neg hk]
    split
    · rfl
    · exact lookup_insert_ne hk

/-- An insertion changes the value of its key only. -/
theorem lookup_insert_eq (m : HashMap κ β) (k : κ) (b : β) (k' : κ) :
    (m.insert k b).lookup k' = if k' = k then some b else m.lookup k' := by
  by_cases hk : k' = k
  · rw [hk, if_pos rfl, lookup_insert]
  · rw [if_neg hk, lookup_insert_ne hk]

theorem lookup_erase_eq (m : HashMap κ β) (k k' : κ) :
    (m.erase k).lookup k' = if k' = k then none else m.lookup k' := by
  by_cases hk : k' = k
  · rw [hk, if_pos rfl, lookup_erase]
  · rw [if_neg hk, lookup_erase_ne hk]

/-- The value under a key replaced, where there is one. -/
def adjust (m : HashMap κ β) (k : κ) (f : β → β) : HashMap κ β :=
  match m.lookup k with
  | none => m
  | some b => m.insert k (f b)

/-- An adjustment changes the value of its key, if there is one. -/
theorem lookup_adjust (m : HashMap κ β) (k : κ) (f : β → β) (k' : κ) :
    (m.adjust k f).lookup k' = (m.lookup k').map fun b => if k' = k then f b else b := by
  unfold adjust
  by_cases hk : k' = k
  · subst hk
    cases h : m.lookup k' with
    | none => rw [h, Option.map_none]
    | some b => rw [Option.map_some, if_pos rfl, lookup_insert]
  · simp only [if_neg hk, Option.map_id']
    split
    · rfl
    · exact lookup_insert_ne hk

/-! ## Counting entries -/

theorem countP_insert (p : (Σ _ : κ, β) → Bool) (m : HashMap κ β) (k : κ) (b : β) :
    (m.insert k b).entries.countP p = (m.erase k).entries.countP p + if p ⟨k, b⟩ then 1 else 0 := by
  rw [entries_insert, countP_cons]
  rfl

theorem countP_erase (p : (Σ _ : κ, β) → Bool) (h : m.lookup k = some b) :
    m.entries.countP p = (m.erase k).entries.countP p + if p ⟨k, b⟩ then 1 else 0 := by
  rw [(entries_perm h).countP_eq, countP_cons]

/-- The keys with a property are as many as the entries with it. -/
theorem ncard_lookup (m : HashMap κ β) (p : κ → β → Prop) [∀ k b, Decidable (p k b)] :
    {k | ∃ b, m.lookup k = some b ∧ p k b}.ncard = m.entries.countP fun e => p e.1 e.2 := by
  have hset : {k | ∃ b, m.lookup k = some b ∧ p k b} =
      (((m.entries.filter fun e => p e.1 e.2).map (·.1)).toFinset : Set κ) := by
    ext k
    simp only [Set.mem_ofPred_eq, coe_toFinset, mem_map, mem_filter, decide_eq_true_iff]
    constructor
    · rintro ⟨b, hb, hp⟩
      exact ⟨⟨k, b⟩, ⟨mem_lookup_iff.1 hb, hp⟩, rfl⟩
    · rintro ⟨e, ⟨he, hp⟩, rfl⟩
      exact ⟨e.2, mem_lookup_iff.2 he, hp⟩
  have hnodup : ((m.entries.filter fun e => p e.1 e.2).map (·.1)).Nodup :=
    m.nodupKeys.sublist filter_sublist
  rw [hset, Set.ncard_coe_finset, toFinset_card_of_nodup hnodup, length_map, countP_eq_length_filter]

def sumOver (f : κ → β → Nat) (m : HashMap κ β) : Nat := (m.entries.map fun e => f e.1 e.2).sum

variable (f : κ → β → Nat)

/-- The share of one key, and the rest. -/
theorem sumOver_of_lookup (h : m.lookup k = some b) : sumOver f m = f k b + sumOver f (m.erase k) := by
  unfold sumOver
  rw [((entries_perm h).map _).sum_nat, map_cons, sum_cons]

/-- What an assignment does to a sum, where a key that is not there counts nothing. -/
theorem sumOver_insert (m : HashMap κ β) (k : κ) (b : β) :
    sumOver f (m.insert k b) + ((m.lookup k).map (f k)).getD 0 = sumOver f m + f k b := by
  have hins : sumOver f (m.insert k b) = f k b + sumOver f (m.erase k) := by
    unfold sumOver
    rw [entries_insert, map_cons, sum_cons]
    rfl
  cases h : m.lookup k with
  | none =>
    rw [hins, erase_of_lookup_none h, Option.map_none, Option.getD_none]
    omega
  | some b' =>
    rw [hins, sumOver_of_lookup f h, Option.map_some, Option.getD_some]
    omega

theorem sumOver_erase (m : HashMap κ β) (k : κ) :
    sumOver f (m.erase k) + ((m.lookup k).map (f k)).getD 0 = sumOver f m := by
  cases h : m.lookup k with
  | none => rw [erase_of_lookup_none h, Option.map_none, Option.getD_none, Nat.add_zero]
  | some b => rw [sumOver_of_lookup f h, Option.map_some, Option.getD_some, Nat.add_comm]

theorem sumOver_adjust (set : β → β) (h : m.lookup k = some b) :
    sumOver f (m.adjust k set) + f k b = sumOver f m + f k (set b) := by
  have hins := sumOver_insert f m k (set b)
  unfold adjust
  rw [h] at hins ⊢
  exact hins

theorem sumOver_eq_zero (h : ∀ k b, m.lookup k = some b → f k b = 0) : sumOver f m = 0 := by
  refine sum_eq_zero fun n hn => ?_
  obtain ⟨e, he, rfl⟩ := mem_map.1 hn
  exact h e.1 e.2 (mem_lookup_iff.2 he)

theorem le_sumOver (h : m.lookup k = some b) : f k b ≤ sumOver f m := by
  rw [sumOver_of_lookup f h]
  exact Nat.le_add_right _ _

omit [DecidableEq κ] in
theorem sumOver_add (g : κ → β → Nat) (m : HashMap κ β) :
    sumOver (fun k b => f k b + g k b) m = sumOver f m + sumOver g m :=
  sum_map_add

theorem exists_of_sumOver_pos {f : κ → β → Nat} (h : 0 < sumOver f m) : ∃ k b, m.lookup k = some b ∧ 0 < f k b := by
  by_contra hnone
  refine h.ne' (sumOver_eq_zero f fun k b hb => ?_)
  by_contra hk
  exact hnone ⟨k, b, hb, Nat.pos_of_ne_zero hk⟩

/-- A sum is the number of its positive terms exactly when no term is greater than one. -/
theorem sumOver_eq_ncard (m : HashMap κ β) :
    sumOver f m = {k | ∃ b, m.lookup k = some b ∧ 0 < f k b}.ncard ↔ ∀ k b, m.lookup k = some b → f k b ≤ 1 := by
  rw [ncard_lookup m fun k b => 0 < f k b]
  have hone : ∀ n : Nat, (if decide (0 < n) = true then 1 else 0) = min n 1 := by
    intro n
    simp only [decide_eq_true_iff]
    split <;> omega
  have hle : ∀ l : List (Σ _ : κ, β), l.countP (fun e => 0 < f e.1 e.2) ≤ (l.map fun e => f e.1 e.2).sum := by
    intro l
    induction l with
    | nil => simp
    | cons e l ih =>
      rw [countP_cons, map_cons, sum_cons, hone]
      omega
  have hlist : ∀ l : List (Σ _ : κ, β), (l.map fun e => f e.1 e.2).sum = l.countP (fun e => 0 < f e.1 e.2) ↔
      ∀ e ∈ l, f e.1 e.2 ≤ 1 := by
    intro l
    induction l with
    | nil => simp
    | cons e l ih =>
      have hl := hle l
      rw [countP_cons, map_cons, sum_cons, forall_mem_cons, hone]
      constructor
      · intro h
        exact ⟨by omega, ih.1 (by omega)⟩
      · rintro ⟨h, hrest⟩
        have := ih.2 hrest
        omega
  unfold sumOver
  rw [hlist]
  constructor
  · intro h k b hb
    exact h ⟨k, b⟩ (mem_lookup_iff.1 hb)
  · intro h e he
    exact h e.1 e.2 (mem_lookup_iff.2 he)

end HashMap

end Rippled.Lib
