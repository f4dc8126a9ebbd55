import Mathlib.Algebra.BigOperators.Group.Multiset.Basic
import Rippled.Consensus.Ancestry

/-!
# The shape of the trie and what it holds

The invariant of the trie is local (`Sound`, `Tight`): every node's span continues the word of its parent, its
children start with different ids, its branch support is the sum over its children, and a node without tip
support branches. From it: the words below a node all extend the node's word, and the number of words that
extend a given one is read off at a single node.
-/

namespace Rippled.Consensus

open Lib List Rose

variable {L ID : Type} [Ledger L ID]

/-- A node and its children fit together. -/
structure Sound (v : Cell L) (cs : List (Cell L)) : Prop where
  end_le : v.span.end_ ≤ Ledger.seq v.span.ledger + 1
  sum : v.branchSupport = v.tipSupport + (cs.map (·.branchSupport)).sum
  linked : ∀ c ∈ cs, c.parent = some v.self ∧ c.self ≠ 0
  joined : ∀ c ∈ cs, c.span.start = v.span.end_ ∧ upTo c.span.ledger v.span.end_ = v.span.word
  apart : (cs.map (·.span.startID)).Nodup

/-- A node without tip support has several children, unless it is the root, whose address is zero. -/
def Tight (v : Cell L) (cs : List (Cell L)) : Prop := v.self ≠ 0 → v.tipSupport = 0 → 2 ≤ cs.length

def LocalOk (v : Cell L) (cs : List (Cell L)) : Prop := Sound v cs ∧ Tight v cs

/-- The words a trie holds, each as often as it has tip support. -/
def contents (n : Node L) : Multiset (List ID) := n.gather fun v => Multiset.replicate v.tipSupport v.span.word

theorem contents_node (v : Cell L) (cs : List (Node L)) :
    contents (.node v cs) = Multiset.replicate v.tipSupport v.span.word + (cs.map contents).sum :=
  gather_node _ v cs

theorem contents_plug (fr : Rose.Frame (Cell L)) (n : Node L) :
    contents (fr.plug n) = contents (.node fr.val (fr.left ++ fr.right)) + contents n := by
  rw [contents_node]
  exact gather_plug _ fr n

variable {n : Node L} {m : Multiset (List ID)}

/-- What is added below is added to the whole. -/
theorem contents_rebuild_add (fs : Above L) {n' : Node L} (h : contents n' = contents n + m) :
    contents (Rose.rebuild fs n') = contents (Rose.rebuild fs n) + m :=
  gather_rebuild_add _ fs h

variable {α : Type}

theorem mem_list_sum {a : α} {ms : List (Multiset α)} : a ∈ ms.sum ↔ ∃ m ∈ ms, a ∈ m := by
  induction ms with
  | nil => simp
  | cons m ms ih => simp [ih]

variable {v : Cell L}

theorem mem_contents_node {cs : List (Node L)} {w : List ID} :
    w ∈ contents (.node v cs) ↔ (v.tipSupport ≠ 0 ∧ w = v.span.word) ∨ ∃ c ∈ cs, w ∈ contents c := by
  rw [contents_node, Multiset.mem_add, Multiset.mem_replicate, mem_list_sum]
  simp

/-! ## Reordering and replacing children -/

variable {cs : List (Cell L)}

theorem Sound.perm {ds : List (Cell L)} (h : Sound v cs) (hp : cs.Perm ds) : Sound v ds where
  end_le := h.end_le
  sum := by rw [h.sum, (hp.map _).sum_eq]
  linked c hc := h.linked c (hp.mem_iff.2 hc)
  joined c hc := h.joined c (hp.mem_iff.2 hc)
  apart := (hp.map _).nodup_iff.1 h.apart

theorem LocalOk.perm {ds : List (Cell L)} (hp : cs.Perm ds) (h : LocalOk v cs) : LocalOk v ds :=
  ⟨h.1.perm hp, fun hself htip => hp.length_eq ▸ h.2 hself htip⟩

/-- `c'` may stand in the place of `c` among the children of a node, branch support apart. -/
structure SameFace (c c' : Cell L) : Prop where
  self : c.self ≠ 0 → c'.self ≠ 0
  parent : c'.parent = c.parent
  start : c'.span.start = c.span.start
  words : upTo c'.span.ledger (c.span.start + 1) = upTo c.span.ledger (c.span.start + 1)

variable {c c' : Cell L}

theorem SameFace.startID (h : SameFace c c') : c'.span.startID = c.span.startID := by
  rw [Span.startID, h.start]
  exact upTo_congr.1 h.words _ (Nat.lt_succ_self _)

variable {l r : List (Cell L)}

theorem Sound.replace (h : Sound v (l ++ c :: r)) (hc : SameFace c c') {b : Nat}
    (hb : b + c.branchSupport = v.branchSupport + c'.branchSupport) :
    Sound { v with branchSupport := b } (l ++ c' :: r) where
  end_le := h.end_le
  sum := by
    have := h.sum
    simp only [map_append, map_cons, sum_append, sum_cons] at this ⊢
    omega
  linked d hd := by
    rcases mem_append.1 hd with hd | hd
    · exact h.linked d (mem_append_left _ hd)
    · rcases mem_cons.1 hd with rfl | hd
      · obtain ⟨hparent, hself⟩ := h.linked c (by simp)
        exact ⟨hc.parent.trans hparent, hc.self hself⟩
      · exact h.linked d (by simp [hd])
  joined d hd := by
    rcases mem_append.1 hd with hd | hd
    · exact h.joined d (mem_append_left _ hd)
    · rcases mem_cons.1 hd with rfl | hd
      · obtain ⟨hstart, hword⟩ := h.joined c (by simp)
        refine ⟨hc.start.trans hstart, ?_⟩
        rw [← hstart] at hword ⊢
        exact (upTo_mono hc.words (Nat.le_succ _)).trans hword
      · exact h.joined d (by simp [hd])
  apart := by
    have := h.apart
    simp only [map_append, map_cons, hc.startID] at this ⊢
    exact this

theorem Sound.drop (h : Sound v (l ++ c :: r)) (hc : c.branchSupport = 0) :
    Sound v (l ++ r) where
  end_le := h.end_le
  sum := by
    have := h.sum
    simp only [map_append, map_cons, sum_append, sum_cons] at this ⊢
    omega
  linked d hd := h.linked d (by rcases mem_append.1 hd with hd | hd <;> simp [hd])
  joined d hd := h.joined d (by rcases mem_append.1 hd with hd | hd <;> simp [hd])
  apart := by
    refine List.Nodup.sublist ?_ h.apart
    exact ((sublist_cons_self c r).append_left l).map _

/-! ## The frames above a node -/

/-- The frame with `f` applied to its cell. -/
def mapFrame (f : Cell L → Cell L) (fr : Rose.Frame (Cell L)) : Rose.Frame (Cell L) := { fr with val := f fr.val }

def onBranch (g : Nat → Nat) (v : Cell L) : Cell L := { v with branchSupport := g v.branchSupport }

theorem LocalOk.replace (h : LocalOk v (l ++ c :: r)) (hc : SameFace c c') {b : Nat}
    (hb : b + c.branchSupport = v.branchSupport + c'.branchSupport) :
    LocalOk { v with branchSupport := b } (l ++ c' :: r) := by
  refine ⟨h.1.replace hc hb, fun hself htip => ?_⟩
  have := h.2 hself htip
  simpa using this

variable {fs : Above L}

/-- When the branch support of a node and of all nodes above it changes by the same `g`, an addition or a subtraction
of at most `m`, the frames stay consistent. -/
theorem fits_shift {g : Nat → Nat} {m : Nat} (hg : ∀ x c, m ≤ c → c ≤ x → g x + c = x + g c) {v' : Cell L}
    (h : Rose.Fits LocalOk v fs) (hv : SameFace v v') (hb : v'.branchSupport = g v.branchSupport)
    (hm : m ≤ v.branchSupport) : Rose.Fits LocalOk v' (fs.map (mapFrame (onBranch g))) := by
  induction fs generalizing v v' with
  | nil => trivial
  | cons fr fs ih =>
    obtain ⟨hlocal, hsub, hfits⟩ := h
    have hle : v.branchSupport ≤ fr.val.branchSupport := by
      rw [hlocal.1.sum]
      simp only [map_append, map_cons, sum_append, sum_cons]
      omega
    refine ⟨hlocal.replace hv ?_, hsub, ih hfits ⟨id, rfl, rfl, rfl⟩ rfl (hm.trans hle)⟩
    rw [hb]
    exact hg _ _ hm hle

theorem fits_congr {v' : Cell L} (h : Rose.Fits LocalOk v fs) (hv : SameFace v v')
    (hb : v'.branchSupport = v.branchSupport) : Rose.Fits LocalOk v' fs := by
  cases fs with
  | nil => trivial
  | cons fr fs =>
    obtain ⟨hlocal, hsub, hfits⟩ := h
    exact ⟨hlocal.replace hv (by rw [hb]), hsub, hfits⟩

/-- In a consistent trie the parent pointers lead through all frames up to the root. -/
theorem walkUp_eq (f : Cell L → Cell L) (h : Rose.Fits LocalOk n.val fs)
    (hroot : (Rose.rebuild fs n).val.parent = none) :
    LedgerTrie.walkUp f n.val.parent fs = some (fs.map (mapFrame f)) := by
  induction fs generalizing n with
  | nil =>
    have hnone : n.val.parent = none := hroot
    rw [hnone]
    rfl
  | cons fr fs ih =>
    obtain ⟨hlocal, -, hfits⟩ := h
    have hparent := (hlocal.1.linked n.val (by simp)).1
    have hrest := ih (n := fr.plug n) hfits hroot
    rw [hparent, LedgerTrie.walkUp, if_pos rfl]
    change (LedgerTrie.walkUp f fr.val.parent fs).map _ = _
    rw [show fr.val.parent = (fr.plug n).val.parent from rfl, hrest]
    rfl

/-- The loop up to the root visits every node above. -/
theorem updateUp_eq (f : Cell L → Cell L) {c : Cursor L} (h : Rose.Fits LocalOk c.node.val c.above)
    (hroot : (Rose.rebuild c.above c.node).val.parent = none) :
    LedgerTrie.updateUp f c = some ⟨.node (f c.node.val) c.node.children, c.above.map (mapFrame f)⟩ := by
  rw [LedgerTrie.updateUp, walkUp_eq f h hroot]
  rfl

theorem contents_map_above {g : Nat → Nat} (fs : Above L) {n' : Node L} (h : contents n' = contents n + m) :
    contents (Rose.rebuild (fs.map (mapFrame (onBranch g))) n') = contents (Rose.rebuild fs n) + m := by
  induction fs generalizing n n' with
  | nil => exact h
  | cons fr fs ih =>
    refine ih ?_
    rw [contents_plug, contents_plug, h, ← add_assoc, contents_node, contents_node]
    rfl

/-! ## Words below a node -/

theorem Sound.word_le (h : Sound v cs) (hc : c ∈ cs) : v.span.word <+: c.span.word := by
  obtain ⟨hstart, hword⟩ := h.joined c hc
  rw [← hword, ← hstart]
  exact upTo_le _ c.span.start_lt_end.le

/-- What is in a subtree continues the word of its node. -/
theorem word_le_of_mem (h : n.Locally LocalOk) : ∀ w ∈ contents n, n.val.span.word <+: w := by
  induction n using ind with
  | node v cs ih =>
    intro w hw
    rcases mem_contents_node.1 hw with ⟨-, rfl⟩ | ⟨c, hc, hw⟩
    · exact prefix_refl _
    · exact (h.here.1.word_le (mem_map_of_mem hc)).trans (ih c hc (h.kids c hc) w hw)

/-- The branch support counts what is in the subtree. -/
theorem card_contents (h : n.Locally LocalOk) : Multiset.card (contents n) = n.val.branchSupport := by
  induction n using ind with
  | node v cs ih =>
    have hsum : Multiset.card (cs.map contents).sum = ((cs.map val).map (·.branchSupport)).sum := by
      rw [← Multiset.cardHom_apply, map_list_sum, map_map, map_map]
      congr 1
      refine map_congr_left fun c hc => ?_
      exact ih c hc (h.kids c hc)
    rw [contents_node, Multiset.card_add, Multiset.card_replicate, hsum]
    exact h.here.1.sum.symm

theorem getElem?_of_le {u w : List α} (h : u <+: w) {k : Nat} (hk : k < u.length) : w[k]? = u[k]? := by
  obtain ⟨r, rfl⟩ := h
  exact getElem?_append_left hk

variable {u : List ID}

/-- No word below a child extends a word that continues the parent's with another id. -/
theorem not_prefix_of_startID_ne {c : Node L} (h : Sound v cs) (hc : c.val ∈ cs) (hlocal : c.Locally LocalOk)
    (hlen : v.span.end_ < u.length) (hne : u[v.span.end_]? ≠ some c.val.span.startID) :
    ∀ w ∈ contents c, ¬ u <+: w := by
  intro w hw hu
  have hstart := (h.joined c.val hc).1
  have hcw := word_le_of_mem hlocal w hw
  refine hne ?_
  rw [← getElem?_of_le hu hlen, ← hstart, ← c.val.span.getElem?_start]
  exact getElem?_of_le hcw (by rw [Span.length_word]; exact c.val.span.start_lt_end)

theorem countP_list_sum (p : α → Prop) [DecidablePred p] (ms : List (Multiset α)) :
    ms.sum.countP p = (ms.map (Multiset.countP p)).sum := by
  induction ms with
  | nil => simp
  | cons m ms ih => rw [sum_cons, Multiset.countP_add, ih, map_cons, sum_cons]

/-- Words that all extend `u` lie at the cursor when the node there is the place of `u`. -/
theorem countP_rebuild (h : (Rose.rebuild fs n).Locally LocalOk)
    (hu : n.val.span.word.take (n.val.span.start + 1) <+: u)
    {q : List ID → Prop} [DecidablePred q] (hq : ∀ w, q w → u <+: w) :
    (contents (Rose.rebuild fs n)).countP q = (contents n).countP q := by
  induction fs generalizing n with
  | nil => rfl
  | cons fr fs ih =>
    obtain ⟨hplug, -⟩ := locally_rebuild.1 (show (rebuild fs (fr.plug n)).Locally LocalOk from h)
    obtain ⟨hlocal, hsib, hn⟩ := locally_plug.1 hplug
    obtain ⟨hstart, hword⟩ := hlocal.1.joined n.val (by simp)
    have hfr : fr.val.span.word <+: u := by
      refine List.IsPrefix.trans ?_ hu
      rw [← hword, Span.word, take_upTo _ (Nat.succ_le_of_lt n.val.span.start_lt_end), hstart]
      exact upTo_le _ (Nat.le_succ _)
    have hlen : fr.val.span.end_ < u.length := by
      have := hu.length_le
      rw [length_take, Span.length_word] at this
      have := n.val.span.start_lt_end
      omega
    have hid : u[fr.val.span.end_]? = some n.val.span.startID := by
      rw [getElem?_of_le hu, ← hstart, getElem?_take_of_lt (Nat.lt_succ_self _)]
      · exact n.val.span.getElem?_start
      · rw [length_take, Span.length_word]
        have := n.val.span.start_lt_end
        omega
    rw [rebuild, ih (n := fr.plug n) h (( take_prefix _ _).trans hfr)]
    -- neither the frame's own word nor those of the siblings extend `u`
    have hzero : ∀ c ∈ fr.left ++ fr.right, (contents c).countP q = 0 := by
      intro c hc
      rw [Multiset.countP_eq_zero]
      intro w hw hqw
      have hmem : c.val ∈ fr.left.map val ++ n.val :: fr.right.map val := by
        rcases mem_append.1 hc with hc | hc
        · exact mem_append_left _ (mem_map_of_mem hc)
        · exact mem_append_right _ (mem_cons_of_mem _ (mem_map_of_mem hc))
      refine not_prefix_of_startID_ne hlocal.1 hmem (hsib c hc) hlen ?_ w hw (hq w hqw)
      rw [hid]
      intro heq
      have hnodup := hlocal.1.apart
      simp only [map_append, map_cons, map_map] at hnodup
      have hnd := (perm_middle.nodup_iff.1 hnodup)
      refine (nodup_cons.1 hnd).1 ?_
      rw [Option.some.inj heq, ← map_append]
      exact mem_map_of_mem (f := (fun x : Cell L => x.span.startID) ∘ val) hc
    have hown : (Multiset.replicate fr.val.tipSupport fr.val.span.word).countP q = 0 := by
      rw [Multiset.countP_eq_zero]
      intro w hw hqw
      rw [Multiset.eq_of_mem_replicate hw] at hqw
      have := (hq _ hqw).length_le
      rw [Span.length_word] at this
      omega
    rw [contents_plug, contents_node, Multiset.countP_add, Multiset.countP_add, hown, countP_list_sum, map_map]
    rw [sum_eq_zero, zero_add, zero_add]
    · intro x hx
      obtain ⟨c, hc, rfl⟩ := mem_map.1 hx
      exact hzero c hc

section Count
variable [DecidableEq ID]

/-- How many of the words below a node extend `u`. -/
def weight (u : List ID) (n : Node L) : Nat := (contents n).countP (u <+: ·)

/-- A word that ends in a node's span is extended by exactly the words below the node. -/
theorem weight_eq_branch (h : n.Locally LocalOk) (hu : u <+: n.val.span.word) : weight u n = n.val.branchSupport := by
  rw [weight, ← card_contents h, Multiset.countP_eq_card]
  intro w hw
  exact hu.trans (word_le_of_mem h w hw)

end Count

end Rippled.Consensus
