import Rippled.Protocol.STObjectTemplate

/-!
# Objects are read as they were written

An object that fits the format is read from the bytes it is written with (`FitsFields.run_set`).
-/

namespace Rippled.Protocol

open Lib Lib.Reader Basics Serializer SerialIter List SerializedTypeID STObject

/-! ## Bytes of fields -/

theorem joinFields_map {α β : Type} {fields : List α} (g : α → β × Except Exception Bytes) {bytes : α → Bytes}
    (h : ∀ f ∈ fields, (g f).2 = .ok (bytes f)) : joinFields (fields.map g) = .ok (fields.flatMap bytes) := by
  induction fields with
  | nil => rfl
  | cons f fields ih =>
    rw [map_cons, joinFields, h f (by simp), ih fun f hf => h f (by simp [hf])]
    rfl

theorem one_le_length_addFieldID (type name : Nat) : 1 ≤ (addFieldID type name).length := by
  unfold addFieldID
  split_ifs <;> simp

/-! ## Objects that fit the format -/

section Fits
variable (formats : Formats) (scale : MantissaScale)

/-- Whether a field is the default once it was read again. -/
def readDefault (f : SField × STBase) : Bool :=
  match f.2 with
  | .notPresent => true
  | .value v => v.isDefault
  | .array v => v.isEmpty
  | .object v =>
    match formats.findSOTemplateBySField f.1 with
    | some type => type.elements.isEmpty
    | none => (v.filter included).isEmpty

/-- The object conforms to the template for its name, if there is one. -/
def ConformsTo (name : SField) (v : STObject) : Prop :=
  ∀ type, formats.findSOTemplateBySField name = some type → Conforms type (v.filter included) (readDefault formats)

/-- The fields that are written have distinct names that are known, and fit. -/
structure FitsFields (fits : SField → STBase → Prop) (v : STObject) : Prop where
  nodup : ((v.filter included).map (·.1)).Nodup
  known : ∀ f ∈ v.filter included, formats.Known f.1
  fits : ∀ f ∈ v.filter included, fits f.1 f.2

mutual
/-- The field can be read again at a level. -/
def Fits : Nat → SField → STBase → Prop
  | 0, _, _ => False
  | _ + 1, _, .notPresent => False
  | _ + 1, name, .value v => v.getSType = name.fieldType ∧ v.Canonical scale
  | level + 1, name, .object v => name.fieldType = .object ∧
      FitsFields formats (Fits level) v ∧ ConformsTo formats name v
  | level + 1, name, .array v =>
    name.fieldType = .array ∧
      ∀ e ∈ v, formats.Known e.1 ∧ e.1.fieldType = .object ∧ FitsObject level e.2 ∧ ConformsTo formats e.1 e.2

/-- The object can be read again at a level. -/
def FitsObject : Nat → STObject → Prop
  | 0, _ => False
  | level + 1, v => FitsFields formats (Fits level) v
end

end Fits

/-! ## The loop over fields -/

section Read
variable {formats : Formats}

theorem run_empty_addFieldID (type name : Nat) (s : Bytes) :
    SerialIter.empty.run (addFieldID type name ++ s) = .ok (false, addFieldID type name ++ s) := by
  have hlen := one_le_length_addFieldID type name
  cases h : addFieldID type name with
  | nil => simp [h] at hlen
  | cons b bs => rfl

theorem run_empty_field (f : SField) (s : Bytes) :
    SerialIter.empty.run (f.addFieldID ++ s) = .ok (false, f.addFieldID ++ s) :=
  run_empty_addFieldID _ _ s

variable {f : SField}

/-- The identifier of a known field is read back. -/
theorem run_getFieldID_known (h : formats.Known f) (s : Bytes) :
    getFieldID.run (f.addFieldID ++ s) = .ok ((f.fieldType.code, f.fieldValue.val), s) := by
  obtain ⟨-, hcode, hvalue, hbinary, -⟩ := h
  have hpos : 0 < f.fieldType.code := by cases f.fieldType <;> decide
  have hlt : f.fieldValue.val < 256 := by simpa [SField.isBinary] using hbinary
  exact run_getFieldID_eq_ok.2 ⟨rfl, hpos, hcode, hvalue, hlt⟩

/-- No known field is the end mark of an object. -/
theorem Formats.Known.ne_object (h : formats.Known f) :
    ¬ (f.fieldType.code = SerializedTypeID.object.code ∧ f.fieldValue.val = 1) := fun ⟨hcode, hvalue⟩ =>
  h.2.2.2.2.1 ⟨code_injective hcode, hvalue⟩

/-- No known field is the end mark of an array. -/
theorem Formats.Known.ne_array (h : formats.Known f) :
    ¬ (f.fieldType.code = SerializedTypeID.array.code ∧ f.fieldValue.val = 1) := fun ⟨hcode, hvalue⟩ =>
  h.2.2.2.2.2 ⟨code_injective hcode, hvalue⟩

section Fields
variable {readVar : SField → SerialIter STBase} (requireCanonicalOrder : Bool)

theorem run_readFields_nil (n : Nat) (prev : Option Nat) (v : STObject) :
    (readFields formats readVar requireCanonicalOrder n prev v).run [] = .ok ((false, v), []) := by
  cases n <;> rfl

/-- One pass of the loop, for a field that is known and comes after the one before. -/
theorem run_readFields_step {fn : SField} (hknown : formats.Known fn) {prev : Option Nat}
    (hprev : ∀ p ∈ prev, p < fn.code)
    {bs : Bytes} {y : STBase} (hread : Reads (readField formats readVar fn) bs y) (n : Nat) (v : STObject) (s : Bytes) :
    (readFields formats readVar requireCanonicalOrder (n + 1) prev v).run (fn.addFieldID ++ bs ++ s) =
      (readFields formats readVar requireCanonicalOrder n (some fn.code) (v ++ [(fn, y)])).run s := by
  have horder : ¬ (requireCanonicalOrder && prev.any (fn.code ≤ ·)) = true := by
    cases prev with
    | none => simp
    | some p =>
      have := hprev p rfl
      simp
      omega
  rw [readFields, append_assoc, run_bind_of_ok (run_empty_field fn _), if_neg (by decide),
    run_bind_of_ok (run_getFieldID_known hknown _)]
  dsimp only
  rw [if_neg hknown.ne_object, if_neg hknown.ne_array, hknown.1]
  dsimp only
  rw [if_neg horder, run_bind_of_ok (hread s)]

/-- The loop ends at the mark. -/
theorem run_readFields_mark (n : Nat) (prev : Option Nat) (v : STObject) (s : Bytes) :
    (readFields formats readVar requireCanonicalOrder (n + 1) prev v).run
    (addFieldID SerializedTypeID.object.code 1 ++ s) =
      .ok ((true, v), s) := by
  have hid : getFieldID.run (addFieldID object.code 1 ++ s) = .ok ((object.code, 1), s) :=
    run_getFieldID_eq_ok.2 ⟨rfl, by decide, by decide, by decide, by decide⟩
  rw [readFields, run_bind_of_ok (run_empty_addFieldID _ _ _), if_neg (by decide), run_bind_of_ok hid]
  dsimp only
  rw [if_pos ⟨rfl, rfl⟩]
  rfl

/-- The loop reads fields that are in order and can each be read back. -/
theorem run_readFields_fields {fields : STObject} {bytes : SField × STBase → Bytes} {result : SField × STBase → STBase}
    (hknown : ∀ f ∈ fields, formats.Known f.1) (hread : ∀ f ∈ fields,
      Reads (readField formats readVar f.1) (bytes f) (result f))
    (hsorted : fields.Pairwise fun a b => a.1.code < b.1.code) (prev : Option Nat)
    (hprev : ∀ p ∈ prev, ∀ f ∈ fields, p < f.1.code) (v : STObject) :
    ∃ prev', ∀ n s, (readFields formats readVar requireCanonicalOrder (n + fields.length) prev v).run
        (fields.flatMap (fun f => f.1.addFieldID ++ bytes f) ++ s) =
      (readFields formats readVar requireCanonicalOrder n prev' (v ++ fields.map fun f => (f.1, result f))).run s := by
  induction fields generalizing prev v with
  | nil => exact ⟨prev, fun n s => by simp⟩
  | cons f fields ih =>
    rw [pairwise_cons] at hsorted
    obtain ⟨prev', hrest⟩ := ih (fun g hg => hknown g (by simp [hg])) (fun g hg => hread g (by simp [hg])) hsorted.2
      (some f.1.code) (by rintro p ⟨⟩ g hg; exact hsorted.1 g hg) (v ++ [(f.1, result f)])
    refine ⟨prev', fun n s => ?_⟩
    rw [flatMap_cons, length_cons, ← Nat.add_assoc, append_assoc,
      run_readFields_step requireCanonicalOrder (hknown f (by simp))
        (fun p hp => hprev p hp f (by simp)) (hread f (by simp)), hrest]
    simp

end Fields

/-! ## Duplicates -/

variable {names : List SField}

theorem adjacent_of_nodup (h : names.Nodup) : ((names.zip names.tail).any fun p => p.1 = p.2) = false := by
  induction names with
  | nil => rfl
  | cons a names ih =>
    rw [nodup_cons] at h
    cases names with
    | nil => rfl
    | cons b names =>
      have hne : a ≠ b := fun hab => h.1 (by simp [hab])
      have := ih h.2
      simp only [tail_cons, zip_cons_cons, any_cons, decide_eq_false hne, Bool.false_or] at this ⊢
      exact this

theorem nodup_of_adjacent (hsorted : names.Pairwise fun a b => a.code ≤ b.code)
    (h : ((names.zip names.tail).any fun p => p.1 = p.2) = false) : names.Nodup := by
  induction names with
  | nil => exact nodup_nil
  | cons a names ih =>
    rw [pairwise_cons] at hsorted
    cases names with
    | nil => simp
    | cons b names =>
      simp only [tail_cons, zip_cons_cons, any_cons, Bool.or_eq_false_iff, decide_eq_false_iff_not] at h
      refine nodup_cons.2 ⟨fun hmem => ?_, ih hsorted.2 h.2⟩
      -- what is not next is behind a name of a larger code
      rcases mem_cons.1 hmem with hab | hmem
      · exact h.1 hab
      · have hab := hsorted.1 b (by simp)
        have hba := (pairwise_cons.1 hsorted.2).1 a hmem
        exact h.1 (SField.code_injective (Nat.le_antisymm hab hba))

variable {v : STObject}

/-- The scan of neighbours finds every duplicate. -/
theorem hasDuplicate_eq_false : hasDuplicate v = false ↔ ((v.filter included).map (·.1)).Nodup := by
  have hperm : ((sortFields (v.filter included)).map (·.1)).Perm ((v.filter included).map (·.1)) :=
    (perm_sortFields _).map _
  unfold hasDuplicate
  constructor
  · intro h
    refine hperm.nodup_iff.1 (nodup_of_adjacent ?_ h)
    exact pairwise_map.2 (pairwise_sortFields _)
  · intro h
    exact adjacent_of_nodup (hperm.nodup_iff.2 h)

/-- Without duplicates, sorting is strict. -/
theorem pairwise_lt_sortFields (h : (v.map (·.1)).Nodup) : (sortFields v).Pairwise fun a b => a.1.code < b.1.code := by
  have hnodup : ((sortFields v).map (·.1)).Nodup := ((perm_sortFields v).map _).nodup_iff.2 h
  refine ((pairwise_sortFields v).and (pairwise_map.1 hnodup)).imp ?_
  rintro a b ⟨hle, hne⟩
  exact Nat.lt_of_le_of_ne hle fun heq => hne (SField.code_injective heq)

/-! ## Reading what fits -/

variable {scale : MantissaScale} {mode : RoundingMode}

/-- `w` is what is read of `v`. -/
structure ReadAs (formats : Formats) (v w : STObject) : Prop where
  norm : w.norm = v.norm
  included : ∀ f ∈ w, included f = true
  nodup : (w.map (·.1)).Nodup
  conforms : ∀ type, Conforms type (v.filter Protocol.included) (readDefault formats) →
    Conforms type w fun f => f.2.isDefault
  isEmpty : w.isEmpty = (v.filter Protocol.included).isEmpty

variable {w : STObject}

theorem filter_eq_self_of_included (h : ∀ f ∈ w, included f = true) : w.filter included = w :=
  filter_eq_self.2 h

variable {name : SField}

/-- The template of an inner object accepts what is read of an object that conforms to it. -/
theorem ReadAs.applyTemplate (h : ReadAs formats v w) (hconforms : ConformsTo formats name v) :
    ∃ w', STObject.applyTemplateFromSField formats name w = .ok w' ∧ w'.norm = v.norm ∧
      w'.isEmpty = readDefault formats (name, .object v) := by
  unfold applyTemplateFromSField readDefault
  cases htype : formats.findSOTemplateBySField name with
  | none => exact ⟨w, rfl, h.norm, by simpa [htype] using h.isEmpty⟩
  | some type =>
    obtain ⟨w', happly⟩ := applyTemplate_of_conforms h.nodup h.included (h.conforms type (hconforms type htype))
    obtain ⟨hperm, hnames, -⟩ := applyTemplate_eq_ok h.nodup h.included happly
    refine ⟨w', happly, ?_, ?_⟩
    · rw [← h.norm]
      refine (norm_eq_of_perm ?_ ?_).symm
      · rw [filter_eq_self_of_included h.included]
        exact hperm.symm
      · rw [filter_eq_self_of_included h.included]
        exact h.nodup
    · simpa only [isEmpty_map] using congrArg List.isEmpty hnames

/-- `set` succeeds if the fields are read and none comes twice. -/
theorem run_setWith {readVar : SField → SerialIter STBase} {requireCanonicalOrder r : Bool} {s t : Bytes}
    (h : (readFields formats readVar requireCanonicalOrder s.length none []).run s = .ok ((r, w), t))
    (hdup : hasDuplicate w = false) : (setWith formats readVar requireCanonicalOrder).run s = .ok ((r, w), t) := by
  refine run_bind_eq_ok.2 ⟨(r, w), t, h, ?_⟩
  dsimp only
  rw [if_neg (by simp [hdup])]
  rfl

/-- The field is read again, up to its normal form. -/
def ReadsBack (formats : Formats) (scale : MantissaScale) (mode : RoundingMode) (level : Nat)
    (f : SField × STBase) : Prop :=
  ∃ bs y, f.2.add = .ok bs ∧ Reads (readField formats (readVar formats scale mode level) f.1) (bs ++ f.2.endMark) y ∧
    y.norm = f.2.norm ∧ y.isPresent = true ∧ y.isDefault = readDefault formats f

/-- The fields of an object are read again, with a mark after them or to the end of the input. -/
theorem readAs_of_fields {level : Nat} (hnodup : ((v.filter included).map (·.1)).Nodup)
    (hknown : ∀ f ∈ v.filter included, formats.Known f.1)
    (hfields : ∀ f ∈ v.filter included, ReadsBack formats scale mode level f) :
    ∃ bs w, v.add = .ok bs ∧ ReadAs formats v w ∧ ∀ requireCanonicalOrder,
      Reads (setWith formats (readVar formats scale mode level) requireCanonicalOrder)
        (bs ++ addFieldID SerializedTypeID.object.code 1) (true, w) ∧
      (setWith formats (readVar formats scale mode level) requireCanonicalOrder).run bs = .ok ((false, w), []) := by
  choose! bytes result hadd hread hnorm hpresent hdefault using hfields
  obtain ⟨fields, hfields⟩ : ∃ fields, fields = sortFields (v.filter included) := ⟨_, rfl⟩
  have hmem : ∀ f ∈ fields, f ∈ v.filter included := fun f hf => mem_sortFields.1 (hfields ▸ hf)
  have hsorted : fields.Pairwise fun a b => a.1.code < b.1.code := hfields ▸ pairwise_lt_sortFields hnodup
  obtain ⟨enc, henc⟩ : ∃ enc : Bytes, enc = fields.flatMap fun f => f.1.addFieldID ++
      (bytes f ++ f.2.endMark) := ⟨_, rfl⟩
  obtain ⟨w, hw⟩ : ∃ w : STObject, w = fields.map fun f => (f.1, result f) := ⟨_, rfl⟩
  have hbytes : v.add = .ok enc := by
    unfold add
    rw [sortFields_addFields, ← hfields]
    have hok : ∀ f ∈ fields, frame f.1 f.2.add f.2.endMark = .ok (f.1.addFieldID ++ (bytes f ++ f.2.endMark)) := by
      intro f hf
      rw [hadd f (hmem f hf), ← append_assoc]
      rfl
    rw [henc]
    exact joinFields_map _ hok
  have hincluded : ∀ f ∈ w, included f = true := by
    intro f hf
    rw [hw, mem_map] at hf
    obtain ⟨g, hg, rfl⟩ := hf
    unfold included
    rw [hpresent g (hmem g hg)]
    exact (hknown g (hmem g hg)).2.2.2.1
  have hnames : w.map (·.1) = fields.map (·.1) := by
    rw [hw, map_map]
    rfl
  have hnodup' : (w.map (·.1)).Nodup := by
    rw [hnames, hfields]
    exact ((perm_sortFields _).map _).nodup_iff.2 hnodup
  have hperm : fields.Perm (v.filter included) := hfields ▸ perm_sortFields _
  have hsorted' : w.Pairwise fun a b => a.1.code ≤ b.1.code := by
    rw [hw, pairwise_map]
    exact hsorted.imp Nat.le_of_lt
  refine ⟨enc, w, hbytes, ⟨?_, hincluded, hnodup', ?_, ?_⟩, ?_⟩
  · rw [norm_eq_map, norm_eq_map, filter_eq_self_of_included hincluded,
      sortFields_of_pairwise hsorted', ← hfields, hw, map_map]
    refine map_congr_left fun f hf => ?_
    rw [Function.comp_apply, hnorm f (hmem f hf)]
  · intro type hconforms
    rw [hw]
    exact (hconforms.perm hperm.symm).map result fun f hf => hdefault f (hmem f hf)
  · rw [hw, Bool.eq_iff_iff, List.isEmpty_iff, List.isEmpty_iff, map_eq_nil_iff]
    exact ⟨fun h => perm_nil.1 (h ▸ hperm.symm), fun h => perm_nil.1 (h ▸ hperm)⟩
  · intro requireCanonicalOrder
    have hdup : hasDuplicate w = false := by
      rw [hasDuplicate_eq_false, filter_eq_self_of_included hincluded]
      exact hnodup'
    obtain ⟨prev, hrun⟩ := run_readFields_fields requireCanonicalOrder (fun f hf => hknown f (hmem f hf))
      (fun f hf => hread f (hmem f hf)) hsorted none (by simp) []
    rw [← henc, ← hw, nil_append] at hrun
    have hlen : fields.length ≤ enc.length := by
      rw [henc]
      refine length_le_length_flatMap fun f _ => ?_
      rw [length_append]
      exact Nat.le_add_right_of_le (one_le_length_addFieldID _ _)
    constructor
    · intro s
      rw [append_assoc]
      obtain ⟨n, hn⟩ := Nat.exists_eq_add_of_le' (show fields.length + 1 ≤
          (enc ++ (addFieldID object.code 1 ++ s)).length by
        have := one_le_length_addFieldID object.code 1
        simp only [length_append]
        omega)
      refine run_setWith ?_ hdup
      rw [hn, show n + (fields.length + 1) = (n + 1) + fields.length by omega, hrun, run_readFields_mark]
    · obtain ⟨n, hn⟩ := Nat.exists_eq_add_of_le' hlen
      refine run_setWith ?_ hdup
      have := hrun n []
      rw [append_nil] at this
      rw [hn, this, run_readFields_nil]

/-! ## Arrays -/

section Elements
variable {readObject : SerialIter STObject}

/-- One element of an array is read. -/
theorem run_readElements_step {fn : SField} (hknown : formats.Known fn) (htype : fn.fieldType = .object) {bs : Bytes}
    {w' : STObject} (hread : Reads readObject bs w) (htemplate : STObject.applyTemplateFromSField formats fn w = .ok w')
    (n : Nat) (v : STArray) (s : Bytes) :
    (readElements formats readObject (n + 1) v).run (fn.addFieldID ++ bs ++ s) =
      (readElements formats readObject n (v ++ [(fn, w')])).run s := by
  rw [readElements, append_assoc, run_bind_of_ok (run_empty_field fn _), if_neg (by decide),
    run_bind_of_ok (run_getFieldID_known hknown _)]
  dsimp only
  rw [if_neg hknown.ne_array, if_neg hknown.ne_object, hknown.1]
  dsimp only
  rw [if_neg (not_not.2 htype), run_bind_of_ok (hread s), run_bind_of_ok (run_lift_eq_ok.2 ⟨htemplate, rfl⟩)]

theorem run_readElements_mark (n : Nat) (v : STArray) (s : Bytes) :
    (readElements formats readObject (n + 1) v).run (addFieldID SerializedTypeID.array.code 1 ++ s) = .ok (v, s) := by
  have hid : getFieldID.run (addFieldID array.code 1 ++ s) = .ok ((array.code, 1), s) :=
    run_getFieldID_eq_ok.2 ⟨rfl, by decide, by decide, by decide, by decide⟩
  rw [readElements, run_bind_of_ok (run_empty_addFieldID _ _ _), if_neg (by decide), run_bind_of_ok hid]
  dsimp only
  rw [if_pos ⟨rfl, rfl⟩]
  rfl

variable {result : SField × STObject → STObject} {bytes : SField × STObject → Bytes}

section
variable {elements : STArray} (hknown : ∀ e ∈ elements, formats.Known e.1 ∧ e.1.fieldType = .object)
  (hread : ∀ e ∈ elements, ∃ w, Reads readObject (bytes e) w ∧
    STObject.applyTemplateFromSField formats e.1 w = .ok (result e))
include hknown hread

/-- The loop reads elements that can each be read back. -/
theorem run_readElements_elements (v : STArray) (n : Nat) (s : Bytes) :
    (readElements formats readObject (n + elements.length) v).run
    (elements.flatMap (fun e => e.1.addFieldID ++ bytes e) ++ s) =
      (readElements formats readObject n (v ++ elements.map fun e => (e.1, result e))).run s := by
  induction elements generalizing v with
  | nil => simp
  | cons e elements ih =>
    obtain ⟨w, hw, htemplate⟩ := hread e (by simp)
    obtain ⟨hk, htype⟩ := hknown e (by simp)
    rw [flatMap_cons, length_cons, ← Nat.add_assoc, append_assoc, run_readElements_step hk htype hw htemplate,
      ih (fun e he => hknown e (by simp [he])) (fun e he => hread e (by simp [he]))]
    simp

/-- An array is read back from its elements and the end mark. -/
theorem reads_readArray :
    Reads (readArray formats readObject)
      (elements.flatMap (fun e => e.1.addFieldID ++ bytes e) ++ addFieldID SerializedTypeID.array.code 1)
      (elements.map fun e => (e.1, result e)) := by
  intro s
  have hlen : elements.length ≤ (elements.flatMap fun e => e.1.addFieldID ++ bytes e).length := by
    refine length_le_length_flatMap fun e _ => ?_
    rw [length_append]
    exact Nat.le_add_right_of_le (one_le_length_addFieldID _ _)
  rw [append_assoc]
  obtain ⟨n, hn⟩ := Nat.exists_eq_add_of_le' (show elements.length + 1 ≤
      ((elements.flatMap fun e => e.1.addFieldID ++ bytes e) ++ (addFieldID array.code 1 ++ s)).length by
    have := one_le_length_addFieldID array.code 1
    simp only [length_append]
    omega)
  have hrun : ∀ x, (readArray formats readObject).run x =
      (readElements formats readObject x.length []).run x := fun _ => rfl
  rw [hrun, hn, show n + (elements.length + 1) = (n + 1) +
    elements.length by omega, run_readElements_elements hknown hread,
    run_readElements_mark, nil_append]

end

end Elements

/-! ## All levels -/

variable (level : Nat)

theorem readVar_object (h : name.fieldType = .object) :
    readVar formats scale mode (level + 1) name =
      (fun r => .object r.2) <$> setWith formats (readVar formats scale mode level) false := by
  rw [readVar, h]

theorem readVar_array (h : name.fieldType = .array) :
    readVar formats scale mode (level + 1) name = .array <$> readArray formats
    (readObject formats scale mode level) := by
  rw [readVar, h]

theorem readVar_of_ne (hobject : name.fieldType ≠ .object) (harray : name.fieldType ≠ .array) :
    readVar formats scale mode (level + 1) name = .value <$> STValue.read scale mode name.fieldType := by
  rw [readVar]
  split
  · contradiction
  · contradiction
  · rfl

theorem readVar_value (v : STValue) (h : v.getSType = name.fieldType) :
    readVar formats scale mode (level + 1) name = .value <$> STValue.read scale mode name.fieldType := by
  apply readVar_of_ne <;> rw [← h] <;> cases v <;> exact (nomatch ·)

/-- A field that fits is read back, by induction on the level. -/
theorem Fits.readsBack {level : Nat} {f : SField × STBase} (h : Fits formats scale level f.1 f.2) :
    ReadsBack formats scale mode level f := by
  obtain ⟨name, x⟩ := f
  induction level using Nat.strong_induction_on generalizing name x with
  | _ level ih =>
    cases level with
    | zero => simp only [Fits] at h
    | succ level =>
      cases x with
      | notPresent => simp only [Fits] at h
      | value v =>
        simp only [Fits] at h
        obtain ⟨htype, hcanonical⟩ := h
        obtain ⟨bs, hadd, hread⟩ := hcanonical.run_read mode
        refine ⟨bs, .value v, hadd, fun s => ?_, rfl, rfl, rfl⟩
        rw [readField, readVar_value level v htype]
        refine run_bind_eq_ok.2 ⟨.value v, s, run_map_eq_ok.2 ⟨v, s, ?_, rfl⟩, rfl⟩
        rw [← htype]
        simpa [STBase.endMark] using hread s
      | object v =>
        simp only [Fits] at h
        obtain ⟨htype, hfields, hconforms⟩ := h
        obtain ⟨bs, w, hadd, hreadAs, hset⟩ := readAs_of_fields hfields.nodup hfields.known fun f hf =>
          ih level (by omega) f.1 f.2 (hfields.fits f hf)
        obtain ⟨w', htemplate, hnorm, hempty⟩ := hreadAs.applyTemplate hconforms
        refine ⟨bs, .object w', hadd, fun s => ?_, ?_, rfl, hempty⟩
        · rw [readField, readVar_object level htype]
          refine run_bind_eq_ok.2 ⟨.object w, s, run_map_eq_ok.2 ⟨(true, w), s, (hset false).1 s, rfl⟩, ?_⟩
          refine run_lift_eq_ok.2 ⟨?_, rfl⟩
          rw [STBase.applyTemplateFromSField, htemplate]
          rfl
        · change STBase.object (norm w') = STBase.object (norm v)
          rw [hnorm]
      | array v =>
        simp only [Fits] at h
        obtain ⟨htype, helements⟩ := h
        have hall : ∀ e ∈ v, ∃ bs w w', add e.2 = .ok bs ∧ Reads (readObject formats scale mode level)
            (bs ++ addFieldID object.code 1) w ∧
            applyTemplateFromSField formats e.1 w = .ok w' ∧ norm w' = norm e.2 := by
          intro e he
          obtain ⟨-, -, hfits, hconforms⟩ := helements e he
          cases level with
          | zero => simp only [FitsObject] at hfits
          | succ level =>
            simp only [FitsObject] at hfits
            obtain ⟨bs, w, hadd, hreadAs, hset⟩ := readAs_of_fields hfits.nodup hfits.known fun f hf =>
              ih level (by omega) f.1 f.2 (hfits.fits f hf)
            obtain ⟨w', htemplate, hnorm, -⟩ := hreadAs.applyTemplate hconforms
            refine ⟨bs, w, w', hadd, fun s => ?_, htemplate, hnorm⟩
            rw [readObject]
            exact run_map_eq_ok.2 ⟨(true, w), s, (hset false).1 s, rfl⟩
        choose! bytes raw result hadd hread htemplate hnorm using hall
        refine ⟨v.flatMap fun e => e.1.addFieldID ++ (bytes e ++ addFieldID object.code 1),
          .array (v.map fun e => (e.1, result e)), ?_, fun s => ?_, ?_, rfl, ?_⟩
        · rw [STBase.add, addElements_eq]
          refine joinFields_map _ fun e he => ?_
          rw [hadd e he, ← append_assoc]
          rfl
        · rw [readField, readVar_array level htype]
          refine run_bind_eq_ok.2 ⟨_, s, run_map_eq_ok.2 ⟨_, s, reads_readArray
            (fun e he => ⟨(helements e he).1, (helements e he).2.1⟩)
              (fun e he => ⟨raw e, hread e he, htemplate e he⟩) s, rfl⟩, rfl⟩
        · change STBase.array (normElements _) = STBase.array (normElements _)
          rw [normElements_eq, normElements_eq, map_map]
          congr 1
          refine map_congr_left fun e he => ?_
          rw [Function.comp_apply, hnorm e he]
        · change (v.map _).isEmpty = v.isEmpty
          simp

variable (mode) in
/-- An object that fits is read back up to its normal form. -/
theorem FitsFields.run_set (h : FitsFields formats (Fits formats scale 10) v) (requireCanonicalOrder : Bool) :
    ∃ bs w, v.add = .ok bs ∧ (STObject.set formats scale mode requireCanonicalOrder).run bs = .ok ((false, w), []) ∧
      w.norm = v.norm := by
  have hfields : ∀ f ∈ v.filter included, ReadsBack formats scale mode 10 f := fun f hf => (h.fits f hf).readsBack
  obtain ⟨bs, w, hadd, hreadAs, hset⟩ := readAs_of_fields h.nodup h.known hfields
  exact ⟨bs, w, hadd, (hset requireCanonicalOrder).2, hreadAs.norm⟩

variable (mode) in
/-- An object that fits is read from the bytes it is written with, as an equivalent object. So objects that fit are
written alike if and only if they are equivalent, and the order of the fields does not matter. -/
theorem FitsFields.add_eq_iff {o : STObject} (h : FitsFields formats (Fits formats scale 10) o)
    (requireCanonicalOrder : Bool) :
    (∃ bs o', o.add = .ok bs ∧ (STObject.set formats scale mode requireCanonicalOrder).run bs = .ok ((false, o'), []) ∧
        o'.norm = o.norm) ∧
      (∀ o₂ : STObject, FitsFields formats (Fits formats scale 10) o₂ → (o₂.add = o.add ↔ o₂.norm = o.norm)) ∧
      ∀ o₂ : STObject, o₂.Perm o → o₂.add = o.add := by
  refine ⟨h.run_set mode requireCanonicalOrder, fun o₂ h₂ => ⟨fun hadd => ?_, fun hnorm => ?_⟩, fun o₂ hperm => ?_⟩
  · obtain ⟨bs, w, hbs, hset, hnorm⟩ := h.run_set .toNearest false
    obtain ⟨bs₂, w₂, hbs₂, hset₂, hnorm₂⟩ := h₂.run_set .toNearest false
    rw [hadd, hbs] at hbs₂
    cases hbs₂
    cases hset.symm.trans hset₂
    exact hnorm₂.symm.trans hnorm
  · rw [← add_norm, hnorm, add_norm]
  · rw [← add_norm, ← norm_eq_of_perm (hperm.symm.filter _) h.nodup, add_norm]

end Read

open SField

/-- A time and a path through an account, added in the order opposite to that of their codes. -/
def pathsExample : STObject :=
  [(sfPaths, .value (.pathSet [[STPathElement.make ⟨List.replicate 20 7, rfl⟩ (.currency 0) 0 false]])),
    (sfCloseTime, .value (.uint32 5))]

theorem fits_pathsExample : FitsFields protocolFormats (Fits protocolFormats .large330 10) pathsExample := by
  have hfilter : pathsExample.filter included = pathsExample := rfl
  refine ⟨?_, ?_, ?_⟩ <;> rw [hfilter]
  · decide
  · simp only [pathsExample, forall_mem_cons]
    exact ⟨⟨rfl, by decide⟩, ⟨rfl, by decide⟩, by simp⟩
  · simp only [pathsExample, forall_mem_cons, Fits]
    refine ⟨⟨rfl, by simp, ?_⟩, ⟨rfl, trivial⟩, by simp⟩
    simp only [forall_mem_cons]
    exact ⟨⟨by simp, ⟨⟨false, rfl⟩, by decide⟩, by simp⟩, by simp⟩

theorem add_eq_iff_pathsExample :
    FitsFields protocolFormats (Fits protocolFormats .large330 10) pathsExample ∧
      STObject.add pathsExample.reverse = STObject.add pathsExample := by
  refine ⟨fits_pathsExample, ?_⟩
  exact (fits_pathsExample.add_eq_iff .toNearest false).2.2 _ (reverse_perm _)

/-- An object with an empty path set, that no reader accepts as it is written. -/
theorem run_set_add_emptyPathSet :
    STObject.add [(sfPaths, .value (.pathSet []))] = .ok [0x01, 0x12, 0x00] ∧
      (STObject.set protocolFormats .large330 .toNearest false).run [0x01, 0x12, 0x00] = .error
        (.runtimeError "empty path") :=
  ⟨rfl, rfl⟩

end Rippled.Protocol
