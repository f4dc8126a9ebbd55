import Rippled.Protocol.STObjectCodec

/-!
# Objects that were read

What is known of an object that was read: it fits the format unless a path element in it has the empty type, and it is
written in no more bytes than were read, but for the marks that were missing at the end of the input. With an element of
the empty type, twenty bytes or more are lost, so that the object cannot be read from what it is written with
(`set_add_iff`).
-/

namespace Rippled.Protocol

open Lib Lib.Reader Basics Serializer SerialIter List

/-! ## Lengths -/

/-- The length of what is written, for what can be written. -/
def okLength (x : Except Exception Bytes) : Nat := (x.toOption.getD []).length

variable {name : SField}

theorem okLength_frame {content : Except Exception Bytes} {bs : Bytes} (h : content = .ok bs) (mark : Bytes) :
    okLength (frame name content mark) = name.addFieldID.length + bs.length + mark.length := by
  rw [h]
  change (name.addFieldID ++ bs ++ mark).length = _
  simp only [length_append]

/-- The bytes of a field in an object, counting those lost for each element with the empty type. -/
def fieldCost (f : SField × STBase) : Nat := okLength (frame f.1 f.2.add f.2.endMark) + 20 * f.2.emptyElements

def elementCost (e : SField × STObject) : Nat :=
  okLength (frame e.1 (STObject.add e.2) (STBase.object e.2).endMark) + 20 * STObject.emptyElements e.2

theorem length_joinFields {α β : Type} {l : List α} (g : α → β × Except Exception Bytes)
    (h : ∀ a ∈ l, ∃ bs, (g a).2 = .ok bs) :
    ∃ bs, joinFields (l.map g) = .ok bs ∧ bs.length = (l.map fun a => okLength (g a).2).sum := by
  refine ⟨l.flatMap fun a => (g a).2.toOption.getD [], joinFields_map g fun a ha => ?_, ?_⟩
  · obtain ⟨bs, hbs⟩ := h a ha
    rw [hbs]
    rfl
  · rw [length_flatMap]
    rfl

theorem sum_map_add_mul {α : Type} (l : List α) (f g : α → Nat) :
    (l.map f).sum + 20 * (l.map g).sum = (l.map fun a => f a + 20 * g a).sum := by
  induction l with
  | nil => rfl
  | cons a l ih =>
    simp only [map_cons, sum_cons]
    omega

/-! ## Fields -/

section Read
variable (formats : Formats) (scale : MantissaScale)

/-- What is known of a field that was read at a level. -/
structure FieldRead (level : Nat) (fn : SField) (s : Bytes) (y : STBase) (t : Bytes) : Prop where
  present : y.isPresent = true
  add : ∃ bs, y.add = .ok bs ∧
    bs.length + y.endMark.length + 20 * y.emptyElements + t.length ≤ s.length + (if t = [] then level else 0)
  fits : y.emptyElements = 0 → Fits formats scale level fn y
  isDefault : y.isDefault = readDefault formats (fn, y)

/-- What is known of the fields that were read at a level, to a mark or to the end of the input. -/
structure FieldsRead (level : Nat) (w : STObject) (s : Bytes) (reachedEnd : Bool) (t : Bytes) : Prop where
  known : ∀ f ∈ w, formats.Known f.1
  present : ∀ f ∈ w, f.2.isPresent = true
  add : ∀ f ∈ w, ∃ bs, f.2.add = .ok bs
  fits : ∀ f ∈ w, f.2.emptyElements = 0 → Fits formats scale level f.1 f.2
  isDefault : ∀ f ∈ w, f.2.isDefault = readDefault formats f
  cost : (w.map fieldCost).sum + t.length + (if reachedEnd then 1 else 0) ≤ s.length + (if reachedEnd then 0 else level)
  rest : reachedEnd = false → t = []

variable {formats scale} {reachedEnd : Bool} {level : Nat} {t s : Bytes}

theorem FieldsRead.nil (hcost : t.length + (if reachedEnd then 1 else 0) ≤ s.length + (if reachedEnd then 0 else level))
    (hrest : reachedEnd = false → t = []) : FieldsRead formats scale level [] s reachedEnd t :=
  ⟨by simp, by simp, by simp, by simp, by simp, by simpa using hcost, hrest⟩

variable {w : STObject} {fn : SField}

/-- One more field in front. The fields after it were read from what it left. -/
theorem FieldsRead.cons (hknown : formats.Known fn) {s₁ s₂ : Bytes} {y : STBase}
    (hfield : FieldRead formats scale level fn s₁ y s₂) (hfields : FieldsRead formats scale level w s₂ reachedEnd t)
    (hend : s₂ = [] → w = [] ∧ reachedEnd = false) :
    FieldsRead formats scale level ((fn, y) :: w) (fn.addFieldID ++ s₁) reachedEnd t := by
  obtain ⟨bs, hadd, hlen⟩ := hfield.add
  have hcost : fieldCost (fn, y) = fn.addFieldID.length + bs.length + y.endMark.length + 20 * y.emptyElements := by
    unfold fieldCost
    rw [okLength_frame hadd]
  refine ⟨?_, ?_, ?_, ?_, ?_, ?_, hfields.rest⟩
  · exact forall_mem_cons.2 ⟨hknown, hfields.known⟩
  · exact forall_mem_cons.2 ⟨hfield.present, hfields.present⟩
  · exact forall_mem_cons.2 ⟨⟨bs, hadd⟩, hfields.add⟩
  · exact forall_mem_cons.2 ⟨hfield.fits, hfields.fits⟩
  · exact forall_mem_cons.2 ⟨hfield.isDefault, hfields.isDefault⟩
  · have hrest := hfields.cost
    rw [map_cons, sum_cons, hcost, length_append]
    by_cases hs : s₂ = []
    · -- a mark that is missing is missing at the end of the input, after which there are no fields
      obtain ⟨rfl, rfl⟩ := hend hs
      rw [if_pos hs] at hlen
      simp only [hfields.rest rfl, map_nil, sum_nil, length_nil, hs, Bool.false_eq_true, if_false] at hlen ⊢
      omega
    · rw [if_neg hs] at hlen
      omega

theorem getField_known {type field : Nat} (hid : getFieldID.run s = .ok ((type, field), t))
    (hobject : ¬ (type = SerializedTypeID.object.code ∧ field = 1))
    (harray : ¬ (type = SerializedTypeID.array.code ∧ field = 1)) (hfield : formats.getField type field = some fn) :
    formats.Known fn ∧ s = fn.addFieldID ++ t := by
  obtain ⟨rfl, rfl⟩ := formats.getField_eq_some hfield
  obtain ⟨hs, -, hcode, hvalue, hbinary⟩ := run_getFieldID_eq_ok.1 hid
  refine ⟨⟨hfield, hcode, hvalue, by simpa [SField.isBinary] using hbinary, ?_, ?_⟩, hs⟩
  · rintro ⟨htype, hone⟩
    exact hobject ⟨congrArg _ htype, hone⟩
  · rintro ⟨htype, hone⟩
    exact harray ⟨congrArg _ htype, hone⟩

theorem length_mark {type : Nat} (h : type < 16) : (addFieldID type 1).length = 1 := by
  unfold addFieldID
  rw [if_pos h, if_pos (by decide)]
  rfl

variable {requireCanonicalOrder : Bool}

/-- What the loop of `set` has read. -/
theorem fieldsRead_of_readFields {readVar : SField → SerialIter STBase}
    (hvar : ∀ fn s y t, (readField formats readVar fn).run s = .ok (y, t) → FieldRead formats scale level fn s y t)
    {n : Nat} {prev : Option Nat} {v : STObject}
    (h : (readFields formats readVar requireCanonicalOrder n prev v).run s = .ok ((reachedEnd, w), t)) :
    ∃ ws, w = v ++ ws ∧ FieldsRead formats scale level ws s reachedEnd t := by
  induction n generalizing prev v s with
  | zero =>
    cases s with
    | nil =>
      rw [run_readFields_nil] at h
      cases h
      exact ⟨[], by simp, .nil (by simp) fun _ => rfl⟩
    | cons b s => cases h
  | succ n ih =>
    cases s with
    | nil =>
      rw [run_readFields_nil] at h
      cases h
      exact ⟨[], by simp, .nil (by simp) fun _ => rfl⟩
    | cons b s =>
      have hempty : SerialIter.empty.run (b :: s) = .ok (false, b :: s) := rfl
      rw [readFields, run_bind_of_ok hempty, if_neg (by decide), run_bind_eq_ok] at h
      obtain ⟨⟨type, field⟩, s₁, hid, h⟩ := h
      dsimp only at h
      by_cases hobject : type = SerializedTypeID.object.code ∧ field = 1
      · rw [if_pos hobject] at h
        cases run_pure_eq_ok.1 h
        obtain ⟨hs, -⟩ := run_getFieldID_eq_ok.1 hid
        rw [hobject.1, hobject.2] at hs
        refine ⟨[], by simp, .nil ?_ (absurd · (by decide))⟩
        rw [hs, length_append, length_mark (by decide), if_pos rfl, if_pos rfl]
        omega
      · rw [if_neg hobject] at h
        by_cases harray : type = SerializedTypeID.array.code ∧ field = 1
        · rw [if_pos harray] at h
          exact absurd h run_throw_ne_ok
        · rw [if_neg harray] at h
          cases hfield : formats.getField type field with
          | none =>
            rw [hfield] at h
            exact absurd h run_throw_ne_ok
          | some fn =>
            rw [hfield] at h
            dsimp only at h
            split_ifs at h with horder
            · exact absurd h run_throw_ne_ok
            · rw [run_bind_eq_ok] at h
              obtain ⟨y, s₂, hy, h⟩ := h
              obtain ⟨hknown, hs⟩ := getField_known hid hobject harray hfield
              obtain ⟨ws, rfl, hws⟩ := ih h
              refine ⟨(fn, y) :: ws, by simp, ?_⟩
              rw [hs]
              refine hws.cons hknown (hvar fn s₁ y s₂ hy) fun hnil => ?_
              rw [hnil, run_readFields_nil] at h
              simp only [Except.ok.injEq, Prod.mk.injEq] at h
              exact ⟨self_eq_append_right.1 h.1.2, h.1.1.symm⟩

/-! ## Objects -/

theorem FieldsRead.included (h : FieldsRead formats scale level w s reachedEnd t) : ∀ f ∈ w, included f = true := by
  intro f hf
  unfold Protocol.included
  rw [h.present f hf]
  exact (h.known f hf).2.2.2.1

theorem fieldsRead_of_setWith {readVar : SField → SerialIter STBase}
    (hvar : ∀ fn s y t, (readField formats readVar fn).run s = .ok (y, t) → FieldRead formats scale level fn s y t)
    (h : (setWith formats readVar requireCanonicalOrder).run s = .ok ((reachedEnd, w), t)) :
    FieldsRead formats scale level w s reachedEnd t ∧ (w.map (·.1)).Nodup := by
  unfold setWith at h
  rw [run_bind_eq_ok] at h
  obtain ⟨⟨r, v⟩, t', hloop, h⟩ := h
  dsimp only at h
  split_ifs at h with hdup
  · exact absurd h run_throw_ne_ok
  · cases run_pure_eq_ok.1 h
    obtain ⟨ws, hws, hread⟩ := fieldsRead_of_readFields hvar hloop
    rw [nil_append] at hws
    subst hws
    refine ⟨hread, ?_⟩
    have hnodup := hasDuplicate_eq_false.1 (Bool.not_eq_true _ ▸ hdup)
    rwa [filter_eq_self_of_included hread.included] at hnodup

/-- What is known of an inner object once its template was applied. -/
structure ObjectRead (formats : Formats) (scale : MantissaScale) (level : Nat) (name : SField)
    (w : STObject) (cost : Nat) : Prop where
  add : ∃ bs, w.add = .ok bs ∧ bs.length + 20 * w.emptyElements = cost
  fits : w.emptyElements = 0 → FitsFields formats (Fits formats scale level) w
  conforms : ConformsTo formats name w
  isEmpty : w.isEmpty = readDefault formats (name, .object w)

variable {w' : STObject}

section
variable (h : FieldsRead formats scale level w s reachedEnd t) (hnodup : (w.map (·.1)).Nodup)
include h hnodup

theorem FieldsRead.perm (hperm : (w'.filter Protocol.included).Perm w) :
    (∃ bs, w'.add = .ok bs ∧ bs.length + 20 * w'.emptyElements = (w.map fieldCost).sum) ∧
      (w'.emptyElements = 0 → FitsFields formats (Fits formats scale level) w') := by
  have hsorted : (sortFields (w'.filter Protocol.included)).Perm w := (perm_sortFields _).trans hperm
  constructor
  · obtain ⟨bs, hbs, hlen⟩ := length_joinFields (l := sortFields (w'.filter Protocol.included))
      (fun f => (f.1, frame f.1 f.2.add f.2.endMark)) fun f hf => by
        obtain ⟨bs, hbs⟩ := h.add f (hsorted.mem_iff.1 hf)
        rw [hbs]
        exact ⟨_, rfl⟩
    refine ⟨bs, ?_, ?_⟩
    · unfold STObject.add
      rw [sortFields_addFields]
      exact hbs
    · unfold STObject.emptyElements
      rw [hlen, emptyInFields_eq, (hsorted.map _).sum_eq, (hperm.map _).sum_eq, sum_map_add_mul]
      rfl
  · intro hempty
    unfold STObject.emptyElements at hempty
    rw [emptyInFields_eq, (hperm.map _).sum_eq, List.sum_eq_zero_iff_forall_eq_nat] at hempty
    refine ⟨(hperm.map _).nodup_iff.2 hnodup, fun f hf => h.known f (hperm.mem_iff.1 hf), fun f hf => ?_⟩
    exact h.fits f (hperm.mem_iff.1 hf) (hempty _ (mem_map_of_mem (hperm.mem_iff.1 hf)))

theorem FieldsRead.object (htemplate : STObject.applyTemplateFromSField formats name w = .ok w') :
    ObjectRead formats scale level name w' (w.map fieldCost).sum := by
  unfold STObject.applyTemplateFromSField at htemplate
  cases htype : formats.findSOTemplateBySField name with
  | none =>
    rw [htype] at htemplate
    cases htemplate
    have hself := filter_eq_self_of_included h.included
    obtain ⟨hadd, hfits⟩ := h.perm hnodup (List.Perm.of_eq hself)
    refine ⟨hadd, hfits, fun type hsome => ?_, ?_⟩
    · rw [htype] at hsome
      cases hsome
    · unfold readDefault
      dsimp only
      rw [htype]
      rw [hself]
  | some type =>
    rw [htype] at htemplate
    obtain ⟨hperm, hnames, hconforms⟩ := STObject.applyTemplate_eq_ok hnodup h.included htemplate
    obtain ⟨hadd, hfits⟩ := h.perm hnodup hperm
    refine ⟨hadd, hfits, fun type' hsome => ?_, ?_⟩
    · rw [htype] at hsome
      cases hsome
      have hconforms' : Conforms type w (readDefault formats) :=
        ⟨hconforms.required, fun e he hstyle f hf hname => by
          rw [← h.isDefault f hf]
          exact hconforms.notDefault e he hstyle f hf hname, hconforms.allowed⟩
      exact hconforms'.perm hperm.symm
    · unfold readDefault
      rw [htype]
      simpa only [isEmpty_map] using congrArg List.isEmpty hnames

end

/-! ## Arrays -/

/-- What is known of the elements that were read with objects at a level. -/
structure ElementsRead (formats : Formats) (scale : MantissaScale) (level : Nat)
    (es : STArray) (s t : Bytes) : Prop where
  known : ∀ e ∈ es, formats.Known e.1 ∧ e.1.fieldType = .object
  add : ∀ e ∈ es, ∃ bs, STObject.add e.2 = .ok bs
  fits : ∀ e ∈ es, STObject.emptyElements e.2 = 0 → FitsObject formats scale level e.2
  conforms : ∀ e ∈ es, ConformsTo formats e.1 e.2
  cost : (es.map elementCost).sum + 1 + t.length ≤ s.length + (if t = [] then level + 1 else 0)

/-- What is known of an object that was read as an element. -/
structure ElementRead (formats : Formats) (scale : MantissaScale) (level : Nat) (fn : SField)
    (s : Bytes) (o : STObject) (t : Bytes) : Prop where
  add : ∃ bs, o.add = .ok bs ∧ bs.length + 1 + 20 * o.emptyElements + t.length ≤ s.length +
    (if t = [] then level else 0)
  fits : o.emptyElements = 0 → FitsObject formats scale level o
  conforms : ConformsTo formats fn o

theorem ElementsRead.cons (hknown : formats.Known fn) (htype : fn.fieldType = .object) {s₁ s₂ : Bytes} {o : STObject}
    (helement : ElementRead formats scale level fn s₁ o s₂) {es : STArray}
    (helements : ElementsRead formats scale level es s₂ t) (hend : s₂ = [] → es = [] ∧ t = []) :
    ElementsRead formats scale level ((fn, o) :: es) (fn.addFieldID ++ s₁) t := by
  obtain ⟨bs, hadd, hlen⟩ := helement.add
  have hmark : (STBase.object o).endMark.length = 1 := length_mark (by decide)
  have hcost : elementCost (fn, o) = fn.addFieldID.length + bs.length + 1 + 20 * o.emptyElements := by
    unfold elementCost
    rw [okLength_frame hadd, hmark]
  refine ⟨?_, ?_, ?_, ?_, ?_⟩
  · exact forall_mem_cons.2 ⟨⟨hknown, htype⟩, helements.known⟩
  · exact forall_mem_cons.2 ⟨⟨bs, hadd⟩, helements.add⟩
  · exact forall_mem_cons.2 ⟨helement.fits, helements.fits⟩
  · exact forall_mem_cons.2 ⟨helement.conforms, helements.conforms⟩
  · have hrest := helements.cost
    rw [map_cons, sum_cons, hcost, length_append]
    by_cases hs : s₂ = []
    · obtain ⟨rfl, rfl⟩ := hend hs
      rw [if_pos hs] at hlen
      rw [if_pos rfl]
      simp only [hs, map_nil, sum_nil, length_nil] at hlen ⊢
      omega
    · rw [if_neg hs] at hlen
      omega

theorem run_readElements_nil {readObject : SerialIter STObject} (n : Nat) (v : STArray) :
    (readElements formats readObject n v).run [] = .ok (v, []) := by
  cases n <;> rfl

/-- What the loop over an array has read. -/
theorem elementsRead_of_readElements {readObject : SerialIter STObject}
    (hobject : ∀ fn s o o' t, readObject.run s = .ok (o, t) → STObject.applyTemplateFromSField formats fn o = .ok o' →
      ElementRead formats scale level fn s o' t)
    {n : Nat} {v w : STArray} (h : (readElements formats readObject n v).run s = .ok (w, t)) :
    ∃ es, w = v ++ es ∧ ElementsRead formats scale level es s t := by
  have hnil : ElementsRead formats scale level [] [] [] := ⟨by simp, by simp, by simp, by simp, by simp⟩
  induction n generalizing v s with
  | zero =>
    cases s with
    | nil =>
      rw [run_readElements_nil] at h
      cases h
      exact ⟨[], by simp, hnil⟩
    | cons b s => cases h
  | succ n ih =>
    cases s with
    | nil =>
      rw [run_readElements_nil] at h
      cases h
      exact ⟨[], by simp, hnil⟩
    | cons b s =>
      have hempty : SerialIter.empty.run (b :: s) = .ok (false, b :: s) := rfl
      rw [readElements, run_bind_of_ok hempty, if_neg (by decide), run_bind_eq_ok] at h
      obtain ⟨⟨type, field⟩, s₁, hid, h⟩ := h
      dsimp only at h
      by_cases harray : type = SerializedTypeID.array.code ∧ field = 1
      · rw [if_pos harray] at h
        cases run_pure_eq_ok.1 h
        obtain ⟨hs, -⟩ := run_getFieldID_eq_ok.1 hid
        rw [harray.1, harray.2] at hs
        refine ⟨[], by simp, by simp, by simp, by simp, by simp, ?_⟩
        rw [hs, length_append, length_mark (by decide)]
        simp
      · rw [if_neg harray] at h
        by_cases hend : type = SerializedTypeID.object.code ∧ field = 1
        · rw [if_pos hend] at h
          exact absurd h run_throw_ne_ok
        · rw [if_neg hend] at h
          cases hfield : formats.getField type field with
          | none =>
            rw [hfield] at h
            exact absurd h run_throw_ne_ok
          | some fn =>
            rw [hfield] at h
            dsimp only at h
            split_ifs at h with htype
            · exact absurd h run_throw_ne_ok
            · rw [run_bind_eq_ok] at h
              obtain ⟨o, s₂, ho, h⟩ := h
              rw [run_bind_eq_ok] at h
              obtain ⟨o', s₃, hlift, h⟩ := h
              obtain ⟨htemplate, rfl⟩ := run_lift_eq_ok.1 hlift
              obtain ⟨hknown, hs⟩ := getField_known hid hend harray hfield
              obtain ⟨es, rfl, hes⟩ := ih h
              refine ⟨(fn, o') :: es, by simp, ?_⟩
              rw [hs]
              refine hes.cons hknown (not_not.1 htype) (hobject fn s₁ o o' s₃ ho htemplate) fun hnil => ?_
              rw [hnil, run_readElements_nil] at h
              simp only [Except.ok.injEq, Prod.mk.injEq] at h
              exact ⟨self_eq_append_right.1 h.1, h.2.symm⟩

/-! ## All levels -/

variable {mode : RoundingMode}

theorem FieldsRead.elementRead (h : FieldsRead formats scale level w s reachedEnd t) (hnodup : (w.map (·.1)).Nodup)
    (htemplate : STObject.applyTemplateFromSField formats name w = .ok w') :
    ElementRead formats scale (level + 1) name s w' t := by
  have hobject := h.object hnodup htemplate
  obtain ⟨bs, hadd, hlen⟩ := hobject.add
  refine ⟨⟨bs, hadd, ?_⟩, fun hempty => ?_, hobject.conforms⟩
  · have hcost := h.cost
    cases reachedEnd with
    | true =>
      simp only [if_true] at hcost
      omega
    | false =>
      rw [if_pos (h.rest rfl)]
      simp only [Bool.false_eq_true, if_false] at hcost
      omega
  · simp only [FitsObject]
    exact hobject.fits hempty

theorem FieldsRead.fieldRead (h : FieldsRead formats scale level w s reachedEnd t) (hnodup : (w.map (·.1)).Nodup)
    (htype : name.fieldType = .object) (htemplate : STObject.applyTemplateFromSField formats name w = .ok w') :
    FieldRead formats scale (level + 1) name s (.object w') t := by
  have helement := h.elementRead hnodup htemplate
  obtain ⟨bs, hadd, hlen⟩ := helement.add
  have hmark : (STBase.object w').endMark.length = 1 := length_mark (by decide)
  refine ⟨rfl, ⟨bs, hadd, hmark.symm ▸ hlen⟩, fun hempty => ?_, (h.object hnodup htemplate).isEmpty⟩
  simp only [Fits]
  exact ⟨htype, (h.object hnodup htemplate).fits hempty, helement.conforms⟩

theorem ElementsRead.fieldRead {es : STArray} (h : ElementsRead formats scale level es s t)
    (htype : name.fieldType = .array) : FieldRead formats scale (level + 1) name s (.array es) t := by
  obtain ⟨bs, hbs, hlen⟩ := length_joinFields (l := es)
    (fun e => (e.1, frame e.1 (STObject.add e.2) (STBase.object e.2).endMark)) fun e he => by
      obtain ⟨bs, hbs⟩ := h.add e he
      rw [hbs]
      exact ⟨_, rfl⟩
  have hadd : (STBase.array es).add = .ok bs := by
    rw [STBase.add, addElements_eq]
    exact hbs
  have hempty : (STBase.array es).emptyElements = (es.map fun e => STObject.emptyElements e.2).sum := by
    rw [STBase.emptyElements, emptyInElements_eq]
  have hmark : (STBase.array es).endMark.length = 1 := length_mark (by decide)
  refine ⟨rfl, ⟨bs, hadd, ?_⟩, fun hzero => ?_, rfl⟩
  · have hcost := h.cost
    have hsum := sum_map_add_mul es (fun e => okLength (frame e.1 (STObject.add e.2) (STBase.object e.2).endMark))
      (fun e => STObject.emptyElements e.2)
    change _ = (es.map elementCost).sum at hsum
    dsimp only at hlen
    rw [hmark, hempty]
    omega
  · rw [hempty, List.sum_eq_zero_iff_forall_eq_nat] at hzero
    simp only [Fits]
    refine ⟨htype, fun e he => ⟨(h.known e he).1, (h.known e he).2, ?_, h.conforms e he⟩⟩
    exact h.fits e he (hzero _ (mem_map_of_mem he))

/-- What is read for one field, by induction on the level. -/
theorem fieldRead_of_readField {y : STBase}
    (h : (readField formats (readVar formats scale mode level) fn).run s = .ok (y, t)) :
    FieldRead formats scale level fn s y t := by
  induction level using Nat.strong_induction_on generalizing fn s y t with
  | _ level ih =>
    rw [readField, run_bind_eq_ok] at h
    obtain ⟨x, s₁, hx, hlift⟩ := h
    obtain ⟨htemplate, rfl⟩ := run_lift_eq_ok.1 hlift
    cases level with
    | zero => exact absurd hx run_throw_ne_ok
    | succ level =>
      by_cases hobject : fn.fieldType = .object
      · rw [readVar_object level hobject] at hx
        obtain ⟨⟨r, w⟩, t', hset, heq⟩ := run_map_eq_ok.1 hx
        cases heq
        obtain ⟨hread, hnodup⟩ := fieldsRead_of_setWith (fun fn s y t => ih level (by omega)) hset
        rw [STBase.applyTemplateFromSField] at htemplate
        cases hw' : STObject.applyTemplateFromSField formats fn w with
        | error e =>
          rw [hw'] at htemplate
          cases htemplate
        | ok w' =>
          rw [hw'] at htemplate
          cases htemplate
          exact hread.fieldRead hnodup hobject hw'
      · by_cases harray : fn.fieldType = .array
        · rw [readVar_array level harray] at hx
          obtain ⟨es, t', hes, heq⟩ := run_map_eq_ok.1 hx
          cases heq
          cases htemplate
          have helement : ∀ fn s o o' t, (readObject formats scale mode level).run s = .ok (o, t) →
              STObject.applyTemplateFromSField formats fn o = .ok o' → ElementRead formats scale level fn s o' t := by
            intro fn s o o' t ho htemplate
            cases level with
            | zero => exact absurd ho run_throw_ne_ok
            | succ level =>
              rw [readObject] at ho
              obtain ⟨⟨r, w⟩, t', hset, heq⟩ := run_map_eq_ok.1 ho
              cases heq
              obtain ⟨hread, hnodup⟩ := fieldsRead_of_setWith (fun fn s y t => ih level (by omega)) hset
              exact hread.elementRead hnodup htemplate
          obtain ⟨es', hes', hread⟩ := elementsRead_of_readElements helement hes
          rw [nil_append] at hes'
          subst hes'
          exact hread.fieldRead harray
        · rw [readVar_of_ne level hobject harray] at hx
          obtain ⟨v, t', hv, heq⟩ := run_map_eq_ok.1 hx
          cases heq
          cases htemplate
          have hread := STValue.canonical_of_run_read hv
          obtain ⟨bs, hadd, hlen⟩ := hread.length
          refine ⟨rfl, ⟨bs, hadd, ?_⟩, fun hempty => ?_, rfl⟩
          · change bs.length + 0 + 20 * v.emptyElements + _ ≤ _
            omega
          · simp only [Fits]
            exact ⟨hread.type, hread.canonical hempty⟩

/-- What `set` accepts can be written, and fits if it has no element of no type. -/
theorem run_set_eq_ok {b : Bytes} {o : STObject}
    (h : (STObject.set formats scale mode requireCanonicalOrder).run b = .ok ((reachedEnd, o), t)) :
    (∃ bs, o.add = .ok bs ∧ bs.length + 20 * o.emptyElements + t.length ≤ b.length + 10) ∧
      (o.emptyElements = 0 → FitsFields formats (Fits formats scale 10) o) := by
  obtain ⟨hread, hnodup⟩ := fieldsRead_of_setWith (fun fn s y t => fieldRead_of_readField) h
  obtain ⟨⟨bs, hadd, hlen⟩, hfits⟩ := hread.perm hnodup (List.Perm.of_eq (filter_eq_self_of_included hread.included))
  refine ⟨⟨bs, hadd, ?_⟩, hfits⟩
  have hcost := hread.cost
  cases reachedEnd with
  | true =>
    simp only [if_true] at hcost
    omega
  | false =>
    simp only [Bool.false_eq_true, if_false] at hcost
    omega

/-- Every object that was read can be written, and it is read again from what it is written with, as an equivalent
object with the same bytes, if and only if none of its path elements has the empty type: such an element is written as
the mark that ends the path set. -/
theorem set_add_iff {requireCanonicalOrder : Bool} {b : Bytes} {reachedEnd : Bool} {o : STObject}
    (h : (STObject.set formats scale mode requireCanonicalOrder).run b = .ok ((reachedEnd, o), [])) :
    ∃ b', o.add = .ok b' ∧
      ((∃ r o', (STObject.set formats scale mode requireCanonicalOrder).run b' = .ok ((r, o'), []) ∧ o'.norm = o.norm ∧
          o'.add = .ok b') ↔ o.emptyElements = 0) := by
  obtain ⟨⟨b', hadd, -⟩, hfits⟩ := run_set_eq_ok h
  refine ⟨b', hadd, ?_, fun hempty => ?_⟩
  · rintro ⟨r, o', hset, hnorm, hadd'⟩
    obtain ⟨⟨b'', hadd'', hlen⟩, -⟩ := run_set_eq_ok hset
    cases hadd'.symm.trans hadd''
    have hempty : o'.emptyElements = o.emptyElements := by
      rw [← STObject.emptyElements_norm, hnorm, STObject.emptyElements_norm]
    -- an element of the empty type costs more than the marks of all levels
    omega
  · obtain ⟨bs, o', hbs, hset, hnorm⟩ := (hfits hempty).run_set mode requireCanonicalOrder
    cases hadd.symm.trans hbs
    refine ⟨false, o', hset, hnorm, ?_⟩
    rw [← STObject.add_norm, hnorm, STObject.add_norm, hadd]

/-- A path through an account. -/
theorem set_add_iff_account :
    ∃ o, (STObject.set protocolFormats .large330 .toNearest false).run
        ([0x01, 0x12, 0x01] ++ List.replicate 20 7 ++ [0x00]) = .ok ((false, o), []) ∧
      ∃ b', o.add = .ok b' ∧
        ∃ r o', (STObject.set protocolFormats .large330 .toNearest false).run b' = .ok ((r, o'), []) ∧
          o'.norm = o.norm ∧
          o'.add = .ok b' := by
  have hset : (STObject.set protocolFormats .large330 .toNearest false).run
      ([0x01, 0x12, 0x01] ++ replicate 20 7 ++ [0x00]) = .ok ((false, _), []) := rfl
  obtain ⟨b', hadd, hiff⟩ := set_add_iff hset
  exact ⟨_, hset, b', hadd, hiff.2 rfl⟩

/-- A path with an account of zero: the element is accepted with its type byte and written as the mark, and what is
written is refused as an empty path. -/
theorem set_add_fails :
    ∃ o b', (STObject.set protocolFormats .large330 .toNearest false).run
        ([0x01, 0x12, 0x01] ++ List.replicate 20 0 ++ [0x00]) = .ok ((false, o), []) ∧
      o.add = .ok b' ∧
      (STObject.set protocolFormats .large330 .toNearest false).run b' = .error (.runtimeError "empty path") :=
  ⟨_, _, rfl, rfl, rfl⟩

end Read

end Rippled.Protocol
