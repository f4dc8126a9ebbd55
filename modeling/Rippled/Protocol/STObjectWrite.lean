import Rippled.Protocol.STObject

/-!
# What is written of an object

The bytes of an object depend on the fields that are written and not on their order (`STObject.add_norm`,
`STObject.norm_eq_of_perm`). The functions that go through the fields are maps over those that are written, and sorting
by the code gives one list for all orders of fields with distinct names.
-/

namespace Rippled.Protocol

open Lib Serializer

/-! ## Sorting -/

section Sorting
variable {α β : Type} (l : List (SField × α))

theorem perm_sortFields : (sortFields l).Perm l := List.perm_insertionSort _ l

@[simp] theorem mem_sortFields {l : List (SField × α)} {f : SField × α} : f ∈ sortFields l ↔ f ∈ l :=
  (perm_sortFields l).mem_iff

theorem pairwise_sortFields : (sortFields l).Pairwise fun a b => a.1.code ≤ b.1.code := by
  exact List.pairwise_insertionSort _ l

/-- Fields that are in order are left as they are. -/
theorem sortFields_of_pairwise {l : List (SField × α)} (h : l.Pairwise fun a b => a.1.code ≤ b.1.code) :
    sortFields l = l :=
  h.insertionSort_eq

theorem sortFields_map (g : SField × α → β) (l : List (SField × α)) :
    sortFields (l.map fun f => (f.1, g f)) = (sortFields l).map fun f => (f.1, g f) := by
  unfold sortFields
  rw [List.map_insertionSort (fun a b : SField × α => a.1.code ≤ b.1.code)
    (fun a b : SField × β => a.1.code ≤ b.1.code)]
  intro a _ b _
  exact Iff.rfl

theorem sortFields_sortFields : sortFields (sortFields l) = sortFields l :=
  sortFields_of_pairwise (pairwise_sortFields l)

/-- Without duplicates, the order before does not matter. -/
theorem sortFields_eq_of_perm {l l' : List (SField × α)} (h : l.Perm l') (hnodup : (l.map (·.1)).Nodup) :
    sortFields l = sortFields l' := by
  have hperm : (sortFields l).Perm (sortFields l') := (perm_sortFields l).trans (h.trans (perm_sortFields l').symm)
  refine hperm.eq_of_pairwise (fun a b ha hb hab hba => ?_) (pairwise_sortFields l) (pairwise_sortFields l')
  have hname : a.1 = b.1 := SField.code_injective (Nat.le_antisymm hab hba)
  have ha' : a ∈ l := mem_sortFields.1 ha
  have hb' : b ∈ l := h.mem_iff.2 (mem_sortFields.1 hb)
  exact List.inj_on_of_nodup_map hnodup ha' hb' hname

end Sorting

/-! ## Induction -/

/-- What an induction over fields has to show. -/
structure InductionStep (P : STBase → Prop) : Prop where
  notPresent : P .notPresent
  value : ∀ v, P (.value v)
  object : ∀ v : STObject, (∀ f ∈ v, P f.2) → P (.object v)
  array : ∀ v : STArray, (∀ e ∈ v, ∀ f ∈ e.2, P f.2) → P (.array v)

section Induct
variable {P : STBase → Prop}

mutual
theorem InductionStep.base (h : InductionStep P) : ∀ x, P x
  | .notPresent => h.notPresent
  | .value v => h.value v
  | .object v => h.object v (h.fields v)
  | .array v => h.array v (h.elements v)

theorem InductionStep.fields (h : InductionStep P) : ∀ v : List (SField × STBase), ∀ f ∈ v, P f.2
  | [], f, hf => absurd hf List.not_mem_nil
  | (name, x) :: v, f, hf => by
    rcases List.mem_cons.1 hf with rfl | hf
    · exact h.base x
    · exact h.fields v f hf

theorem InductionStep.elements (h : InductionStep P) :
    ∀ v : List (SField × List (SField × STBase)), ∀ e ∈ v, ∀ f ∈ e.2, P f.2
  | [], e, he => absurd he List.not_mem_nil
  | (name, fields) :: v, e, he => by
    rcases List.mem_cons.1 he with rfl | he
    · exact h.fields fields
    · exact h.elements v e he
end

/-- Induction over a field, with what is inside of it. -/
theorem STBase.induct (notPresent : P .notPresent) (value : ∀ v, P (.value v))
    (object : ∀ v : STObject, (∀ f ∈ v, P f.2) → P (.object v))
    (array : ∀ v : STArray, (∀ e ∈ v, ∀ f ∈ e.2, P f.2) → P (.array v)) (x : STBase) : P x :=
  InductionStep.base ⟨notPresent, value, object, array⟩ x

end Induct

/-! ## The functions on fields -/

variable (v : STObject) (x : STBase)

/-- The fields that are included, each with its frame. -/
theorem addFields_eq : addFields v = (v.filter included).map fun f => (f.1, frame f.1 f.2.add f.2.endMark) := by
  induction v with
  | nil => rfl
  | cons f v ih =>
    obtain ⟨name, x⟩ := f
    rw [addFields, List.filter_cons]
    split_ifs
    · rw [ih, List.map_cons]
    · exact ih

theorem addElements_eq (v : STArray) :
    addElements v = v.map fun e => (e.1, frame e.1 e.2.add (STBase.object e.2).endMark) := by
  induction v with
  | nil => rfl
  | cons e v ih =>
    obtain ⟨name, fields⟩ := e
    rw [addElements, ih]
    rfl

/-- The normal form of the fields that are included. -/
theorem normFields_eq : normFields v = (v.filter included).map fun f => (f.1, f.2.norm) := by
  induction v with
  | nil => rfl
  | cons f v ih =>
    obtain ⟨name, x⟩ := f
    rw [normFields, List.filter_cons]
    split_ifs
    · rw [ih, List.map_cons]
    · exact ih

theorem normElements_eq (v : STArray) : normElements v = v.map fun e => (e.1, e.2.norm) := by
  induction v with
  | nil => rfl
  | cons e v ih =>
    obtain ⟨name, fields⟩ := e
    rw [normElements, ih]
    rfl

theorem emptyInFields_eq : emptyInFields v = (v.filter included).map fun f => f.2.emptyElements := by
  induction v with
  | nil => rfl
  | cons f v ih =>
    obtain ⟨name, x⟩ := f
    rw [emptyInFields, List.filter_cons]
    split_ifs
    · rw [ih, List.map_cons]
    · exact ih

theorem emptyInElements_eq (v : STArray) : emptyInElements v = v.map fun e => e.2.emptyElements := by
  induction v with
  | nil => rfl
  | cons e v ih =>
    obtain ⟨name, fields⟩ := e
    rw [emptyInElements, ih]
    rfl

/-! ## Normal forms -/

@[simp] theorem isPresent_norm : x.norm.isPresent = x.isPresent := by
  cases x <;> rfl

@[simp] theorem endMark_norm : x.norm.endMark = x.endMark := by
  cases x <;> rfl

@[simp] theorem included_norm (name : SField) (x : STBase) : included (name, x.norm) = included (name, x) := by
  unfold included
  rw [isPresent_norm]

/-- A normal form has included fields only. -/
theorem filter_norm : v.norm.filter included = v.norm := by
  refine List.filter_eq_self.2 fun f hf => ?_
  rw [STObject.norm, mem_sortFields, normFields_eq, List.mem_map] at hf
  obtain ⟨f, hf, rfl⟩ := hf
  rw [included_norm]
  exact (List.mem_filter.1 hf).2

theorem norm_eq_map : v.norm = (sortFields (v.filter included)).map fun f => (f.1, f.2.norm) := by
  rw [STObject.norm, normFields_eq, sortFields_map]

/-- Without duplicates, the order of the fields does not matter. -/
theorem norm_eq_of_perm {v w : STObject} (h : (v.filter included).Perm (w.filter included))
    (hnodup : ((v.filter included).map (·.1)).Nodup) : v.norm = w.norm := by
  rw [norm_eq_map, norm_eq_map, sortFields_eq_of_perm h hnodup]

/-- A function of the fields that are written, that is the same for a field and its normal form, is the same for an
object and its normal form. -/
theorem map_norm {β : Type} (g : SField × STBase → β) {v : STObject} (h : ∀ f ∈ v, g (f.1, f.2.norm) = g f) :
    v.norm.map g = (sortFields (v.filter included)).map g := by
  rw [norm_eq_map, List.map_map]
  refine List.map_congr_left fun f hf => ?_
  exact h f (List.mem_of_mem_filter (mem_sortFields.1 hf))

theorem sortFields_addFields : sortFields (addFields v) =
    (sortFields (v.filter included)).map fun f => (f.1, frame f.1 f.2.add f.2.endMark) := by
  rw [addFields_eq, sortFields_map]

theorem STObject.add_norm_of {v : STObject} (h : ∀ f ∈ v, f.2.norm.add = f.2.add) : v.norm.add = v.add := by
  unfold STObject.add
  have hsorted : sortFields v.norm = v.norm := by rw [STObject.norm, sortFields_sortFields]
  rw [sortFields_addFields, sortFields_addFields, filter_norm, hsorted, map_norm]
  intro f hf
  rw [h f hf, endMark_norm]

/-- A field and its normal form are written alike. -/
theorem STBase.add_norm : x.norm.add = x.add := by
  induction x using STBase.induct with
  | notPresent => rfl
  | value v => rfl
  | object v ih =>
    change STObject.add (STObject.norm v) = STObject.add v
    exact STObject.add_norm_of ih
  | array v ih =>
    rw [STBase.norm, STBase.add, STBase.add, addElements_eq, addElements_eq, normElements_eq, List.map_map]
    congr 1
    refine List.map_congr_left fun e he => ?_
    change (e.1, frame e.1 (STObject.add (STObject.norm e.2)) _) = _
    rw [STObject.add_norm_of (ih e he)]
    rfl

theorem STObject.add_norm : v.norm.add = v.add := STObject.add_norm_of fun f _ => STBase.add_norm f.2

theorem STObject.emptyElements_norm_of {v : STObject} (h : ∀ f ∈ v, f.2.norm.emptyElements = f.2.emptyElements) :
    v.norm.emptyElements = v.emptyElements := by
  unfold STObject.emptyElements
  rw [emptyInFields_eq, emptyInFields_eq, filter_norm, map_norm _ h]
  exact ((perm_sortFields _).map _).sum_eq

/-- A normal form has the empty elements of its field. -/
theorem STBase.emptyElements_norm : x.norm.emptyElements = x.emptyElements := by
  induction x using STBase.induct with
  | notPresent => rfl
  | value v => rfl
  | object v ih =>
    change STObject.emptyElements (STObject.norm v) = STObject.emptyElements v
    exact STObject.emptyElements_norm_of ih
  | array v ih =>
    rw [STBase.norm, STBase.emptyElements, STBase.emptyElements, emptyInElements_eq,
      emptyInElements_eq, normElements_eq,
      List.map_map]
    congr 1
    exact List.map_congr_left fun e he => STObject.emptyElements_norm_of (ih e he)

theorem STObject.emptyElements_norm : v.norm.emptyElements = v.emptyElements :=
  STObject.emptyElements_norm_of fun f _ => STBase.emptyElements_norm f.2

end Rippled.Protocol
