import Rippled.Protocol.STObjectWrite

/-!
# Templates of inner objects

`applyTemplate` accepts the fields that were read exactly when they conform to the template, and then keeps all of them
(`applyTemplate_eq_ok`, `applyTemplate_of_conforms`).
-/

namespace Rippled.Protocol

open Lib List

/-- What a template asks of the fields that are written: those required are there, those that may not be the default are
not, and there are no others. -/
structure Conforms (type : SOTemplate) (v : STObject) (isDefault : SField × STBase → Bool) : Prop where
  required : ∀ e ∈ type.elements, e.style = .soeRequired → ∃ f ∈ v, f.1 = e.sField
  notDefault : ∀ e ∈ type.elements, e.style = .soeDefault → ∀ f ∈ v, f.1 = e.sField → isDefault f = false
  allowed : ∀ f ∈ v, ∃ e ∈ type.elements, e.sField = f.1

variable {v : STObject} {type : SOTemplate} {isDefault : SField × STBase → Bool}

/-- The fields that an object has after it was read have the names and defaults of those before. -/
theorem Conforms.map {isDefault' : SField × STBase → Bool} (g : SField × STBase → STBase)
    (h : Conforms type v isDefault) (hdefault : ∀ f ∈ v, isDefault' (f.1, g f) = isDefault f) :
    Conforms type (v.map fun f => (f.1, g f)) isDefault' where
  required e he hstyle := by
    obtain ⟨f, hf, hname⟩ := h.required e he hstyle
    exact ⟨_, mem_map_of_mem hf, hname⟩
  notDefault e he hstyle f' hf' hname := by
    obtain ⟨f, hf, rfl⟩ := mem_map.1 hf'
    rw [hdefault f hf]
    exact h.notDefault e he hstyle f hf hname
  allowed f' hf' := by
    obtain ⟨f, hf, rfl⟩ := mem_map.1 hf'
    exact h.allowed f hf

theorem Conforms.perm {w : STObject} (h : Conforms type v isDefault) (hperm : v.Perm w) :
    Conforms type w isDefault where
  required e he hstyle := by
    obtain ⟨f, hf, hname⟩ := h.required e he hstyle
    exact ⟨f, hperm.mem_iff.1 hf, hname⟩
  notDefault e he hstyle f hf := h.notDefault e he hstyle f (hperm.mem_iff.2 hf)
  allowed f hf := h.allowed f (hperm.mem_iff.2 hf)

namespace STObject

variable {formats : Formats}

theorem perm_cons_eraseP {name : SField} {f : SField × STBase} (h : v.find? (·.1 = name) = some f) :
    v.Perm (f :: v.eraseP (·.1 = name)) := by
  induction v with
  | nil => cases h
  | cons g v ih =>
    by_cases hg : g.1 = name
    · rw [find?_cons_of_pos (by simpa using hg)] at h
      cases h
      rw [eraseP_cons_of_pos (by simpa using hg)]
    · rw [find?_cons_of_neg (by simpa using hg)] at h
      rw [eraseP_cons_of_neg (by simpa using hg)]
      exact ((ih h).cons g).trans (List.Perm.swap f g _)

/-- What the first loop of `applyTemplate` has done when it ends. -/
structure Applied (elements : List SOElement) (rest v left : STObject) : Prop where
  perm : (v.filter included ++ left).Perm rest
  names : v.map (·.1) = elements.map (·.sField)
  required : ∀ e ∈ elements, e.style = .soeRequired → ∃ f ∈ rest, f.1 = e.sField
  notDefault : ∀ e ∈ elements, e.style = .soeDefault → ∀ f ∈ rest, f.1 = e.sField → f.2.isDefault = false
  left : ∀ f ∈ left, ∀ e ∈ elements, f.1 ≠ e.sField

variable {elements : List SOElement}

theorem applied_of_applyElements {rest left : STObject} (hnodup : (elements.map (·.sField)).Nodup)
    (hnames : (rest.map (·.1)).Nodup) (hincluded : ∀ f ∈ rest, included f = true)
    (h : applyElements formats elements rest = .ok (v, left)) : Applied elements rest v left := by
  induction elements generalizing rest v left with
  | nil =>
    cases h
    exact ⟨List.Perm.refl _, rfl, by simp, by simp, by simp⟩
  | cons e elements ih =>
    rw [map_cons, nodup_cons] at hnodup
    rw [applyElements] at h
    cases hfind : rest.find? (·.1 = e.sField) with
    | some f =>
      rw [hfind] at h
      dsimp only at h
      split_ifs at h with hdefault
      obtain ⟨⟨v', left'⟩, happly, h⟩ := Except.bind_eq_ok.1 h
      cases h
      have hperm := perm_cons_eraseP hfind
      have hname : f.1 = e.sField := by simpa using find?_some hfind
      have hnames' : ((f :: rest.eraseP (·.1 = e.sField)).map (·.1)).Nodup := (hperm.map _).nodup_iff.1 hnames
      rw [map_cons, nodup_cons] at hnames'
      have hsub : ∀ g ∈ rest.eraseP (·.1 = e.sField), g ∈ rest := fun g hg => mem_of_mem_eraseP hg
      have ih := ih hnodup.2 hnames'.2 (fun g hg => hincluded g (hsub g hg)) happly
      have hf : included f = true := hincluded f (mem_of_find?_eq_some hfind)
      -- no other field of this name is left
      have hother : ∀ g ∈ rest, g.1 = e.sField → g = f := by
        intro g hg hgname
        rcases mem_cons.1 (hperm.mem_iff.1 hg) with rfl | hg
        · rfl
        · have hmem : g.1 ∈ (rest.eraseP (·.1 = e.sField)).map (·.1) := mem_map_of_mem hg
          exact absurd (hgname.trans hname.symm ▸ hmem) hnames'.1
      refine ⟨?_, by rw [map_cons, map_cons, ih.names, hname], ?_, ?_, ?_⟩
      · rw [filter_cons_of_pos hf, cons_append]
        exact (ih.perm.cons f).trans hperm.symm
      · intro e' he' hstyle
        rcases mem_cons.1 he' with rfl | he'
        · exact ⟨f, mem_of_find?_eq_some hfind, hname⟩
        · obtain ⟨g, hg, hgname⟩ := ih.required e' he' hstyle
          exact ⟨g, hsub g hg, hgname⟩
      · intro e' he' hstyle g hg hgname
        rcases mem_cons.1 he' with rfl | he'
        · obtain rfl := hother g hg hgname
          simpa [hstyle] using hdefault
        · rcases mem_cons.1 (hperm.mem_iff.1 hg) with rfl | hg
          · have hmem : e'.sField ∈ elements.map (·.sField) := mem_map_of_mem he'
            rw [← hgname, hname] at hmem
            exact absurd hmem hnodup.1
          · exact ih.notDefault e' he' hstyle g hg hgname
      · intro g hg e' he'
        rcases mem_cons.1 he' with rfl | he'
        · intro hgname
          have hg' : g ∈ rest.eraseP (·.1 = e'.sField) := ih.perm.mem_iff.1 (mem_append_right _ hg)
          have hmem : g.1 ∈ (rest.eraseP (·.1 = e'.sField)).map (·.1) := mem_map_of_mem hg'
          exact hnames'.1 (hgname.trans hname.symm ▸ hmem)
        · exact ih.left g hg e' he'
    | none =>
      rw [hfind] at h
      split_ifs at h with hrequired
      obtain ⟨⟨v', left'⟩, happly, h⟩ := Except.bind_eq_ok.1 h
      cases h
      have ih := ih hnodup.2 hnames hincluded happly
      have hnone : ∀ g ∈ rest, g.1 ≠ e.sField := by simpa using find?_eq_none.1 hfind
      refine ⟨?_, by rw [map_cons, map_cons, ih.names], ?_, ?_, ?_⟩
      · rw [filter_cons_of_neg (by simp [included, STBase.isPresent])]
        exact ih.perm
      · intro e' he' hstyle
        rcases mem_cons.1 he' with rfl | he'
        · exact absurd hstyle hrequired
        · exact ih.required e' he' hstyle
      · intro e' he' hstyle g hg hgname
        rcases mem_cons.1 he' with rfl | he'
        · exact absurd hgname (hnone g hg)
        · exact ih.notDefault e' he' hstyle g hg hgname
      · intro g hg e' he'
        rcases mem_cons.1 he' with rfl | he'
        · exact hnone g (ih.perm.mem_iff.1 (mem_append_right _ hg))
        · exact ih.left g hg e' he'

variable (formats) in
theorem applyElements_ok {rest : STObject} (hnodup : (elements.map (·.sField)).Nodup)
    (hrequired : ∀ e ∈ elements, e.style = .soeRequired → ∃ f ∈ rest, f.1 = e.sField)
    (hdefault : ∀ e ∈ elements, e.style = .soeDefault → ∀ f ∈ rest, f.1 = e.sField → f.2.isDefault = false) :
    ∃ v left, applyElements formats elements rest = .ok (v, left) := by
  induction elements generalizing rest with
  | nil => exact ⟨[], rest, rfl⟩
  | cons e elements ih =>
    rw [map_cons, nodup_cons] at hnodup
    rw [applyElements]
    cases hfind : rest.find? (·.1 = e.sField) with
    | some f =>
      have hname : f.1 = e.sField := by simpa using find?_some hfind
      have hkeep : ¬ (e.style = .soeDefault ∧ f.2.isDefault = true) := by
        rintro ⟨hstyle, htrue⟩
        rw [hdefault e (by simp) hstyle f (mem_of_find?_eq_some hfind) hname] at htrue
        cases htrue
      have hrequired' : ∀ e' ∈ elements, e'.style = .soeRequired →
          ∃ g ∈ rest.eraseP (·.1 = e.sField), g.1 = e'.sField := by
        intro e' he' hstyle
        obtain ⟨g, hg, hgname⟩ := hrequired e' (by simp [he']) hstyle
        rcases mem_cons.1 ((perm_cons_eraseP hfind).mem_iff.1 hg) with rfl | hg
        · have hmem : e'.sField ∈ elements.map (·.sField) := mem_map_of_mem he'
          rw [← hgname, hname] at hmem
          exact absurd hmem hnodup.1
        · exact ⟨g, hg, hgname⟩
      obtain ⟨v, left, happly⟩ := ih hnodup.2 hrequired' fun e' he' hstyle g hg =>
        hdefault e' (by simp [he']) hstyle g (mem_of_mem_eraseP hg)
      dsimp only
      rw [if_neg hkeep, happly]
      exact ⟨_, _, rfl⟩
    | none =>
      have hnone : ∀ g ∈ rest, g.1 ≠ e.sField := by simpa using find?_eq_none.1 hfind
      have hkeep : e.style ≠ .soeRequired := by
        intro hstyle
        obtain ⟨g, hg, hgname⟩ := hrequired e (by simp) hstyle
        exact hnone g hg hgname
      obtain ⟨v, left, happly⟩ := ih hnodup.2 (fun e' he' => hrequired e' (by simp [he']))
        (fun e' he' => hdefault e' (by simp [he']))
      rw [if_neg hkeep, happly]
      exact ⟨_, _, rfl⟩

/-- The fields with a number that can be read cannot be discarded. -/
theorem isDiscardable_of_isBinary {f : SField} (h : f.isBinary = true) : f.isDiscardable = false := by
  unfold SField.isBinary at h
  unfold SField.isDiscardable
  simp only [decide_eq_true_eq, decide_eq_false_iff_not] at h ⊢
  omega

theorem applyTemplate_eq_ok {w : STObject} (hnames : (v.map (·.1)).Nodup) (hincluded : ∀ f ∈ v, included f = true)
    (h : applyTemplate formats type v = .ok w) :
    (w.filter included).Perm v ∧ w.map (·.1) = type.elements.map (·.sField) ∧
      Conforms type v fun f => f.2.isDefault := by
  unfold applyTemplate at h
  obtain ⟨⟨w', left⟩, happly, h⟩ := Except.bind_eq_ok.1 h
  have happlied := applied_of_applyElements type.nodup hnames hincluded happly
  dsimp only at h
  cases hfind : left.find? (fun f => !f.1.isDiscardable) with
  | some f =>
    rw [hfind] at h
    cases h
  | none =>
    rw [hfind] at h
    cases h
    have hleft : left = [] := by
      refine eq_nil_iff_forall_not_mem.2 fun f hf => ?_
      have hf' : included f = true := hincluded f (happlied.perm.mem_iff.1 (mem_append_right _ hf))
      have hbinary : f.1.isBinary = true := (Bool.and_eq_true_iff.1 hf').2
      have := find?_eq_none.1 hfind f hf
      rw [isDiscardable_of_isBinary hbinary] at this
      exact this rfl
    subst hleft
    have hperm : (w.filter included).Perm v := by simpa using happlied.perm
    refine ⟨hperm, happlied.names, happlied.required, happlied.notDefault, fun f hf => ?_⟩
    have hmem : f.1 ∈ w.map (·.1) := mem_map_of_mem (mem_of_mem_filter (hperm.mem_iff.2 hf))
    rw [happlied.names, mem_map] at hmem
    exact hmem

theorem applyTemplate_of_conforms (hnames : (v.map (·.1)).Nodup) (hincluded : ∀ f ∈ v, included f = true)
    (h : Conforms type v fun f => f.2.isDefault) : ∃ w, applyTemplate formats type v = .ok w := by
  obtain ⟨w, left, happly⟩ := applyElements_ok formats type.nodup h.required h.notDefault
  have happlied := applied_of_applyElements type.nodup hnames hincluded happly
  have hleft : left = [] := by
    refine eq_nil_iff_forall_not_mem.2 fun f hf => ?_
    obtain ⟨e, he, hname⟩ := h.allowed f (happlied.perm.mem_iff.1 (mem_append_right _ hf))
    exact happlied.left f hf e he hname.symm
  subst hleft
  refine ⟨w, ?_⟩
  unfold applyTemplate
  rw [happly]
  rfl

end STObject

end Rippled.Protocol
