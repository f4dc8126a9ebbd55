import Mathlib.Algebra.BigOperators.Group.List.Basic

/-!
# Rose trees and cursors into them

A tree owns its children in a list. A pointer to a node is modelled as a cursor: the node together with
the frames on the way up to the root, so that moving to the parent and writing through the pointer are
structural. Invariants of a tree are local (`Locally P`: `P` relates the value of every node to the values of
its children), and `Fits P` is the same invariant for the frames around a hole.
-/

namespace Rippled.Lib

variable {α M : Type}

/-- A tree whose nodes own a list of children. -/
inductive Rose (α : Type) where
  | node (val : α) (children : List (Rose α))

namespace Rose

def val : Rose α → α
  | node v _ => v

def children : Rose α → List (Rose α)
  | node _ cs => cs

@[simp] theorem val_node (v : α) (cs : List (Rose α)) : (node v cs).val = v := rfl

@[simp] theorem children_node (v : α) (cs : List (Rose α)) : (node v cs).children = cs := rfl

theorem node_val_children (t : Rose α) : node t.val t.children = t := by cases t; rfl

@[elab_as_elim, induction_eliminator]
theorem ind {motive : Rose α → Prop}
    (node : ∀ v cs, (∀ c ∈ cs, motive c) → motive (node v cs)) (t : Rose α) : motive t := by
  refine @Rose.rec α motive (fun cs => ∀ c ∈ cs, motive c) node ?_ ?_ t
  · intro c hc
    cases hc
  · intro c cs hc hcs d hd
    rcases List.mem_cons.1 hd with rfl | hd
    · exact hc
    · exact hcs d hd

mutual

/-- The values of a tree, root first. -/
def vals : Rose α → List α
  | node v cs => v :: valsAll cs

def valsAll : List (Rose α) → List α
  | [] => []
  | c :: cs => c.vals ++ valsAll cs

end

theorem valsAll_eq (cs : List (Rose α)) : valsAll cs = cs.flatMap vals := by
  induction cs with
  | nil => rfl
  | cons c cs ih => rw [valsAll, ih, List.flatMap_cons]

def size (t : Rose α) : Nat := t.vals.length

/-- What the nodes of a tree contribute together. -/
def gather [AddCommMonoid M] (g : α → M) (t : Rose α) : M := (t.vals.map g).sum

theorem gather_node [AddCommMonoid M] (g : α → M) (v : α) (cs : List (Rose α)) :
    (node v cs).gather g = g v + (cs.map (gather g)).sum := by
  have hcs : ((valsAll cs).map g).sum = (cs.map (gather g)).sum := by
    induction cs with
    | nil => rfl
    | cons c cs ih => simp [valsAll, gather, ih]
  simp [gather, vals, hcs]

/-! ## Local invariants -/

/-- `P` holds between the value of every node and the values of its children. -/
inductive Locally (P : α → List α → Prop) : Rose α → Prop
  | node {v : α} {cs : List (Rose α)} (root : P v (cs.map val)) (sub : ∀ c ∈ cs, Locally P c) :
      Locally P (node v cs)

variable {t : Rose α} {P : α → List α → Prop}

theorem Locally.here (h : Locally P t) : P t.val (t.children.map val) := by
  cases h; assumption

theorem Locally.kids (h : Locally P t) : ∀ c ∈ t.children, Locally P c := by
  cases h; assumption

theorem locally_iff : Locally P t ↔ P t.val (t.children.map val) ∧ ∀ c ∈ t.children, Locally P c := by
  constructor
  · intro h
    exact ⟨h.here, h.kids⟩
  · rintro ⟨hhere, hbelow⟩
    rw [← node_val_children t]
    exact .node hhere hbelow

/-! ## Cursors -/

/-- A node with a hole among its children. -/
structure Frame (α : Type) where
  val : α
  left : List (Rose α)
  right : List (Rose α)

def Frame.plug (f : Frame α) (t : Rose α) : Rose α := node f.val (f.left ++ t :: f.right)

/-- The whole tree around a cursor; the nearest frame comes first. -/
def rebuild : List (Frame α) → Rose α → Rose α
  | [], t => t
  | f :: fs, t => rebuild fs (f.plug t)

/-- The frames are `P`-consistent around a node of value `v`. -/
def Fits (P : α → List α → Prop) : α → List (Frame α) → Prop
  | _, [] => True
  | v, f :: fs =>
    P f.val (f.left.map Rose.val ++ v :: f.right.map Rose.val) ∧ (∀ c ∈ f.left ++ f.right, Locally P c) ∧
      Fits P f.val fs

theorem locally_plug {f : Frame α} :
    Locally P (f.plug t) ↔
      P f.val (f.left.map Rose.val ++ t.val :: f.right.map Rose.val) ∧
        (∀ c ∈ f.left ++ f.right, Locally P c) ∧ Locally P t := by
  rw [locally_iff]
  simp only [Frame.plug, val_node, children_node, List.map_append, List.map_cons, List.mem_append, List.mem_cons]
  constructor
  · rintro ⟨hP, hcs⟩
    exact ⟨hP, fun c hc => hcs c (hc.elim .inl (.inr ∘ .inr)), hcs t (.inr (.inl rfl))⟩
  · rintro ⟨hP, hcs, ht⟩
    refine ⟨hP, fun c hc => ?_⟩
    rcases hc with hc | rfl | hc
    · exact hcs c (.inl hc)
    · exact ht
    · exact hcs c (.inr hc)

/-- A tree is locally fine iff the node at the cursor and the frames around it are. -/
theorem locally_rebuild {fs : List (Frame α)} : Locally P (rebuild fs t) ↔ Locally P t ∧ Fits P t.val fs := by
  induction fs generalizing t with
  | nil => simp [rebuild, Fits]
  | cons f fs ih =>
    rw [rebuild, ih, locally_plug, Fits]
    constructor
    · rintro ⟨⟨hP, hcs, ht⟩, hfs⟩
      exact ⟨ht, hP, hcs, hfs⟩
    · rintro ⟨ht, hP, hcs, hfs⟩
      exact ⟨⟨hP, hcs, ht⟩, hfs⟩

theorem gather_plug [AddCommMonoid M] (g : α → M) (f : Frame α) (t : Rose α) :
    (f.plug t).gather g = g f.val + ((f.left ++ f.right).map (gather g)).sum + t.gather g := by
  simp only [Frame.plug, gather_node, List.map_append, List.map_cons, List.sum_append, List.sum_cons]
  rw [add_comm (t.gather g), add_assoc, add_assoc]

variable {t' : Rose α}

/-- Two nodes at one place differ by the same amount in the whole tree as they do alone. -/
theorem gather_rebuild_add [AddCommMonoid M] (g : α → M) (fs : List (Frame α)) {m : M}
    (h : t'.gather g = t.gather g + m) : (rebuild fs t').gather g = (rebuild fs t).gather g + m := by
  induction fs generalizing t t' with
  | nil => exact h
  | cons f fs ih =>
    refine ih ?_
    rw [gather_plug, gather_plug, h, ← add_assoc]

theorem gather_rebuild_congr [AddCommMonoid M] (g : α → M) (fs : List (Frame α)) (h : t'.gather g = t.gather g) :
    (rebuild fs t').gather g = (rebuild fs t).gather g := by
  have hadd : t'.gather g = t.gather g + 0 := by rw [h, add_zero]
  rw [gather_rebuild_add g fs hadd, add_zero]

/-! ## Reordering -/

/-- The children of one node change places. -/
inductive Shuffles : Rose α → Rose α → Prop
  | at (fs : List (Frame α)) (v : α) {cs ds : List (Rose α)} (h : cs.Perm ds) :
      Shuffles (rebuild fs (node v cs)) (rebuild fs (node v ds))

theorem Shuffles.gather [AddCommMonoid M] {g : α → M} (h : Shuffles t t') : t'.gather g = t.gather g := by
  obtain ⟨fs, v, hperm⟩ := h
  refine gather_rebuild_congr g fs ?_
  rw [gather_node, gather_node, (hperm.map _).sum_eq]

theorem Shuffles.locally (hP : ∀ v cs ds, cs.Perm ds → P v cs → P v ds) (h : Shuffles t t') (ht : Locally P t) :
    Locally P t' := by
  obtain ⟨fs, v, hperm⟩ := h
  obtain ⟨hnode, hfits⟩ := locally_rebuild.1 ht
  refine locally_rebuild.2 ⟨.node (hP _ _ _ (hperm.map _) hnode.here) fun c hc => ?_, hfits⟩
  exact hnode.kids c (hperm.mem_iff.2 hc)

theorem val_rebuild_congr (fs : List (Frame α)) (h : t'.val = t.val) : (rebuild fs t').val = (rebuild fs t).val := by
  induction fs generalizing t t' with
  | nil => exact h
  | cons f fs ih => exact ih rfl

theorem Shuffles.val_eq (h : Shuffles t t') : t'.val = t.val := by
  obtain ⟨fs, v, _⟩ := h
  exact val_rebuild_congr fs rfl

end Rose

end Rippled.Lib
