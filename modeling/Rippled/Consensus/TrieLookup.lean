import Rippled.Consensus.TrieShape

/-!
# Lookups in the trie

Both searches give a cursor into the trie: `find` by the longest common ancestry, `findByLedgerID` by the id of
a tip. From them, `tipSupport` counts the words equal to a ledger's and `branchSupport` those that extend it,
whether or not a node of the compressed trie ends there.
-/

namespace Rippled.Consensus.LedgerTrie

open Lib List Rose

variable {L ID : Type} [Ledger L ID]

/-- The cell of the root: it has no parent and its span holds the genesis ledger only. -/
structure AtRoot (v : Cell L) : Prop where
  self : v.self = 0
  parent : v.parent = none
  ends : v.span.end_ = 1

structure Inv (t : LedgerTrie L) : Prop where
  locally : t.root.Locally LocalOk
  atRoot : AtRoot t.root.val
  counts : CountMap.Counts t.seqSupport ((contents t.root).map (·.length - 1))
  next_ne : t.next ≠ 0

variable {t : LedgerTrie L}

theorem Inv.start (h : t.Inv) : t.root.val.span.start = 0 := by
  have := t.root.val.span.start_lt_end
  rw [h.atRoot.ends] at this
  omega

/-! ## `find` -/

/-- A cursor and a position as `find` returns them, for a search in the node `n` under `above`. -/
structure Found (n : Node L) (above : Above L) (ledger : L) (r : Cursor L × Nat) : Prop where
  place : Rose.rebuild r.1.above r.1.node = Rose.rebuild above n
  pos_eq : r.2 = r.1.node.val.span.diff ledger
  start_lt : r.1.node.val.span.start < r.2
  longest : r.2 = r.1.node.val.span.end_ → ∀ c ∈ r.1.node.children, c.val.span.diff ledger ≤ r.2

theorem findChild_cases (ledger : L) (above : Above L) (v : Cell L) (pos : Nat) (left cs : List (Node L)) :
    (findChild ledger above v pos left cs = none ∧ ∀ c ∈ cs, c.val.span.diff ledger ≤ pos) ∨
      ∃ l c r, left ++ cs = l ++ c :: r ∧ c ∈ cs ∧ pos < c.val.span.diff ledger ∧
        findChild ledger above v pos left cs =
          some (findFrom ledger (⟨v, l, r⟩ :: above) (c.val.span.diff ledger) c) := by
  induction cs generalizing left with
  | nil => exact .inl ⟨rfl, by simp⟩
  | cons c cs ih =>
    rw [findChild]
    split_ifs with hc
    · exact .inr ⟨left, c, cs, rfl, mem_cons_self, hc, rfl⟩
    · rcases ih (left ++ [c]) with ⟨hnone, hall⟩ | ⟨l, d, r, hsplit, hd, hlt, hsome⟩
      · refine .inl ⟨hnone, fun d hd => ?_⟩
        rcases mem_cons.1 hd with rfl | hd
        · exact Nat.not_lt.1 hc
        · exact hall d hd
      · refine .inr ⟨l, d, r, ?_, mem_cons_of_mem _ hd, hlt, hsome⟩
        rw [← hsplit, append_assoc]
        rfl

variable {n : Node L}

/-- `find` goes down as far as the ledger agrees. -/
theorem findFrom_found (ledger : L) (h : n.Locally LocalOk) (above : Above L)
    (hn : n.val.span.start < n.val.span.diff ledger) :
    Found n above ledger (findFrom ledger above (n.val.span.diff ledger) n) := by
  induction n using ind generalizing above with
  | node v cs ih =>
    simp only [val_node] at hn ⊢
    rw [findFrom]
    split_ifs with hend
    · rcases findChild_cases ledger above v (v.span.diff ledger) [] cs
        with ⟨hnone, hall⟩ | ⟨l, c, r, hsplit, hc, hlt, hsome⟩
      · rw [hnone]
        exact ⟨rfl, rfl, hn, fun _ => hall⟩
      · have hstart := (h.here.1.joined c.val (mem_map_of_mem hc)).1
        have hcn : c.val.span.start < c.val.span.diff ledger := by
          rw [hstart, val_node, ← hend]
          exact hlt
        have hfound := ih c hc (h.kids c hc) (⟨v, l, r⟩ :: above) hcn
        rw [hsome]
        refine ⟨hfound.place.trans ?_, hfound.pos_eq, hfound.start_lt, hfound.longest⟩
        rw [nil_append] at hsplit
        rw [hsplit]
        rfl
    · exact ⟨rfl, rfl, hn, fun heq => absurd heq hend⟩

variable {ledger : L} {above : Above L} {r : Cursor L × Nat}

/-- A node found shares its word with the ledger up to the position, which is the end of the span or of the
common ancestry. -/
theorem Found.mismatch (h : Found n above ledger r) :
    r.2 = min (Ledger.mismatch r.1.node.val.span.ledger ledger) r.1.node.val.span.end_ := by
  have hlt := h.start_lt
  rw [h.pos_eq] at hlt
  exact h.pos_eq.trans (Span.diff_eq _ _ (Span.start_lt_diff.1 hlt).le)

section Lawful
variable [LawfulLedger L]

theorem Inv.find_found (h : t.Inv) (ledger : L) : Found t.root [] ledger (t.find ledger) := by
  refine findFrom_found ledger h.locally [] (Span.start_lt_diff.2 ?_)
  rw [h.start]
  exact mismatch_pos _ _

section
variable (h : Found n above ledger r)
include h

theorem Found.upTo_eq : upTo r.1.node.val.span.ledger r.2 = upTo ledger r.2 := by
  refine upTo_of_le_mismatch ?_
  rw [h.mismatch]
  exact Nat.min_le_left _ _

theorem Found.pos_le : r.2 ≤ Ledger.seq ledger + 1 ∧ r.2 ≤ r.1.node.val.span.end_ := by
  rw [h.mismatch]
  exact ⟨(Nat.min_le_left _ _).trans (mismatch_le _ _), Nat.min_le_right _ _⟩

/-- Where the search stops inside a span, the span continues with another id than the ledger. -/
theorem Found.ancestor_ne
    (hend : r.1.node.val.span.end_ ≤ Ledger.seq r.1.node.val.span.ledger + 1) (hlt : r.2 < r.1.node.val.span.end_)
    (hseq : r.2 ≤ Ledger.seq ledger) : Ledger.ancestor r.1.node.val.span.ledger r.2 ≠ Ledger.ancestor ledger r.2 := by
  intro heq
  have hlt' : r.2 < Ledger.mismatch r.1.node.val.span.ledger ledger :=
    (LawfulLedger.lt_mismatch _ _ _).2 ⟨by omega, hseq, heq⟩
  have := h.mismatch
  omega

/-- Where it stops at the end of a span, no child continues as the ledger does. -/
theorem Found.startID_ne (hlocal : r.1.node.Locally LocalOk)
    (hend : r.2 = r.1.node.val.span.end_) (hseq : r.2 ≤ Ledger.seq ledger) {c : Node L} (hc : c ∈ r.1.node.children) :
    c.val.span.startID ≠ Ledger.ancestor ledger r.2 := by
  intro heq
  have hstart := (hlocal.here.1.joined c.val (mem_map_of_mem hc)).1
  have hcend := (hlocal.kids c hc).here.1.end_le
  have hclt := c.val.span.start_lt_end
  have hle := h.longest hend c hc
  refine absurd hle (Nat.not_le.2 ?_)
  rw [hend, ← hstart]
  refine Span.start_lt_diff.2 ((LawfulLedger.lt_mismatch _ _ _).2 ⟨by omega, by omega, ?_⟩)
  rw [hstart, ← hend, ← heq, Span.startID, hstart, hend]

end

/-! ## `findByLedgerID` -/

theorem word_of_tip_id {s : Span L} (hs : s.end_ ≤ Ledger.seq s.ledger + 1) (h : Ledger.id ledger = s.tip.id) :
    s.word = word ledger := by
  have hlt := s.start_lt_end
  rw [LawfulLedger.id_eq] at h
  have heq := upTo_of_ancestor_eq (a := ledger) (b := s.ledger) (s := Ledger.seq ledger) (t := s.end_ - 1)
    le_rfl (by omega) h
  rw [Nat.sub_add_cancel (by omega)] at heq
  exact heq.symm

theorem tip_id_of_word {s : Span L} (h : s.word = word ledger) : Ledger.id ledger = s.tip.id := by
  have hlen : s.end_ = Ledger.seq ledger + 1 := by
    have := congrArg length h
    rwa [Span.length_word, length_word] at this
  have hlast : s.word[Ledger.seq ledger]? = (word ledger)[Ledger.seq ledger]? := by rw [h]
  rw [Span.getElem?_word (by omega), word, getElem?_upTo (Nat.lt_succ_self _)] at hlast
  rw [LawfulLedger.id_eq, ← Option.some.inj hlast, Span.tip, hlen, Nat.add_sub_cancel]

end Lawful

theorem exists_of_mem_contents {w : List ID} (h : w ∈ contents n) : ∃ v ∈ n.vals, w = v.span.word := by
  obtain ⟨m, hm, hw⟩ := mem_list_sum.1 h
  obtain ⟨v, hv, rfl⟩ := mem_map.1 hm
  exact ⟨v, hv, Multiset.eq_of_mem_replicate hw⟩

section ById
variable [DecidableEq ID]

theorem findTipChild_cases (i : ID) (above : Above L) (v : Cell L) (left cs : List (Node L)) :
    (findTipChild i above v left cs = none ∧ ∀ c ∈ cs, ∃ above', findTip i above' c = none) ∨
      ∃ l c r, left ++ cs = l ++ c :: r ∧ c ∈ cs ∧
        ∃ cur, findTip i (⟨v, l, r⟩ :: above) c = some cur ∧ findTipChild i above v left cs = some cur := by
  induction cs generalizing left with
  | nil => exact .inl ⟨rfl, by simp⟩
  | cons c cs ih =>
    rw [findTipChild]
    cases hfind : findTip i (⟨v, left, cs⟩ :: above) c with
    | some cur => exact .inr ⟨left, c, cs, rfl, mem_cons_self, cur, hfind, rfl⟩
    | none =>
      rcases ih (left ++ [c]) with ⟨hnone, hall⟩ | ⟨l, d, r, hsplit, hd, cur, hcur, hsome⟩
      · refine .inl ⟨hnone, fun d hd => ?_⟩
        rcases mem_cons.1 hd with rfl | hd
        · exact ⟨_, hfind⟩
        · exact hall d hd
      · refine .inr ⟨l, d, r, ?_, mem_cons_of_mem _ hd, cur, hcur, hsome⟩
        rw [← hsplit, append_assoc]
        rfl

variable {cur : Cursor L}

theorem findTip_some {i : ID} (h : findTip i above n = some cur) :
    Rose.rebuild cur.above cur.node = Rose.rebuild above n ∧ i = cur.node.val.span.tip.id := by
  induction n using ind generalizing above with
  | node v cs ih =>
    rw [findTip] at h
    split_ifs at h with hi
    · cases h
      exact ⟨rfl, hi⟩
    · rcases findTipChild_cases i above v [] cs with ⟨hnone, -⟩ | ⟨l, c, r, hsplit, hc, cur', hcur, hsome⟩
      · rw [hnone] at h
        cases h
      · rw [hsome] at h
        cases h
        obtain ⟨hplace, hid⟩ := ih c hc hcur
        refine ⟨hplace.trans ?_, hid⟩
        rw [nil_append] at hsplit
        rw [hsplit]
        rfl

theorem findTip_none {i : ID} (h : findTip i above n = none) : ∀ v ∈ n.vals, i ≠ v.span.tip.id := by
  induction n using ind generalizing above with
  | node v cs ih =>
    rw [findTip] at h
    split_ifs at h with hi
    rw [vals, valsAll_eq]
    intro u hu
    rcases mem_cons.1 hu with rfl | hu
    · exact hi
    · obtain ⟨c, hc, hu⟩ := mem_flatMap.1 hu
      rcases findTipChild_cases i above v [] cs with ⟨-, hall⟩ | ⟨l, c, r, -, -, cur, -, hsome⟩
      · obtain ⟨above', hnone⟩ := hall c hc
        exact ih c hc hnone u hu
      · rw [hsome] at h
        cases h

theorem count_own_word (h : n.Locally LocalOk) : (contents n).count n.val.span.word = n.val.tipSupport := by
  cases n with
  | node v cs =>
    have hbelow : ((cs.map contents).sum).count v.span.word = 0 := by
      rw [Multiset.count_eq_zero]
      intro hmem
      obtain ⟨m, hm, hw⟩ := mem_list_sum.1 hmem
      obtain ⟨c, hc, rfl⟩ := mem_map.1 hm
      have hlen := (word_le_of_mem (h.kids c hc) _ hw).length_le
      have hstart := (h.here.1.joined c.val (mem_map_of_mem hc)).1
      have hlt := c.val.span.start_lt_end
      rw [Span.length_word, Span.length_word] at hlen
      simp only [val_node] at hstart
      omega
    rw [val_node, contents_node, Multiset.count_add, hbelow, Multiset.count_replicate_self, add_zero]

omit [DecidableEq ID] in
theorem Inv.locally_at (h : t.Inv) (hplace : Rose.rebuild cur.above cur.node = t.root) :
    (Rose.rebuild cur.above cur.node).Locally LocalOk := hplace ▸ h.locally

variable [LawfulLedger L]

/-- A node found by id: its word is the ledger's, and it holds all the support of that word. -/
theorem Inv.findByLedgerID_some (h : t.Inv) (hcur : t.findByLedgerID ledger = some cur) :
    Rose.rebuild cur.above cur.node = t.root ∧ cur.node.Locally LocalOk ∧ cur.node.val.span.word = word ledger := by
  obtain ⟨hplace, hid⟩ := findTip_some hcur
  obtain ⟨hnode, -⟩ := locally_rebuild.1 (h.locally_at hplace)
  exact ⟨hplace, hnode, word_of_tip_id hnode.here.1.end_le hid⟩

theorem findByLedgerID_none (hcur : t.findByLedgerID ledger = none) : word ledger ∉ contents t.root := by
  intro hmem
  obtain ⟨v, hv, hw⟩ := exists_of_mem_contents hmem
  exact findTip_none hcur v hv (tip_id_of_word hw.symm)

/-- The tip support counts validations of the ledger. -/
theorem Inv.tipSupport_eq (h : t.Inv) (ledger : L) : t.tipSupport ledger = (contents t.root).count (word ledger) := by
  rw [tipSupport]
  cases hcur : t.findByLedgerID ledger with
  | none => exact (Multiset.count_eq_zero.2 (findByLedgerID_none hcur)).symm
  | some cur =>
    obtain ⟨hplace, hnode, hword⟩ := h.findByLedgerID_some hcur
    have hall := h.locally_at hplace
    have hcount := countP_rebuild hall (u := word ledger) (q := (word ledger = ·))
      (hword ▸ take_prefix _ _) (fun w hw => hw ▸ prefix_refl _)
    rw [hplace] at hcount
    rw [Multiset.count, hcount, ← Multiset.count, ← hword, count_own_word hnode]

/-- The words that extend a ledger's are those below the node found, if its span reaches the ledger. -/
theorem Inv.countP_found (h : t.Inv) {d : Nat} (hfound : Found t.root [] ledger (cur, d)) :
    (contents t.root).countP (word ledger <+: ·) =
      if Ledger.seq ledger < d ∧ Ledger.seq ledger < cur.node.val.span.end_ then cur.node.val.branchSupport else 0 := by
  have hplace : rebuild cur.above cur.node = t.root := hfound.place
  have hall := h.locally_at hplace
  obtain ⟨hnode, -⟩ := locally_rebuild.1 hall
  have hstart : cur.node.val.span.start < d := hfound.start_lt
  obtain ⟨hd, hdend⟩ : d ≤ Ledger.seq ledger + 1 ∧ d ≤ cur.node.val.span.end_ := hfound.pos_le
  have hwords : upTo cur.node.val.span.ledger d = upTo ledger d := hfound.upTo_eq
  -- the node found is the place of the ledger's word
  have hpath : cur.node.val.span.word.take (cur.node.val.span.start + 1) <+: word ledger := by
    rw [Span.word, take_upTo _ cur.node.val.span.start_lt_end, upTo_mono hwords hstart]
    exact upTo_le _ (by omega)
  have hcount := countP_rebuild hall hpath (q := (word ledger <+: ·)) (fun w hw => hw)
  rw [hplace] at hcount
  rw [hcount]
  split_ifs with hpos
  · refine weight_eq_branch hnode ?_
    have hd' : d = Ledger.seq ledger + 1 := by omega
    rw [word, ← hd', ← hwords]
    exact upTo_le _ hdend
  · rw [Multiset.countP_eq_zero]
    intro w hw hext
    have hdseq : d ≤ Ledger.seq ledger := by omega
    have hwl : w[d]? = some (Ledger.ancestor ledger d) := by
      rw [getElem?_of_le hext (by rw [length_word]; omega), word, getElem?_upTo (by omega)]
    by_cases hlt : d < cur.node.val.span.end_
    · -- the span goes on with another id
      have hwn := getElem?_of_le (word_le_of_mem hnode w hw) (k := d) (by rwa [Span.length_word])
      rw [hwl, Span.getElem?_word hlt] at hwn
      exact hfound.ancestor_ne hnode.here.1.end_le hlt hdseq (Option.some.inj hwn).symm
    · have hend : d = cur.node.val.span.end_ := by omega
      rw [← node_val_children cur.node] at hw
      rcases mem_contents_node.1 hw with ⟨-, rfl⟩ | ⟨c, hc, hw⟩
      · have := hext.length_le
        rw [length_word, Span.length_word] at this
        omega
      · refine not_prefix_of_startID_ne hnode.here.1 (mem_map_of_mem hc) (hnode.kids c hc) (u := word ledger)
          (by rw [length_word]; omega) ?_ w hw hext
        rw [← hend, word, getElem?_upTo (by omega)]
        intro heq
        exact hfound.startID_ne hnode hend hdseq hc (Option.some.inj heq).symm

/-- The branch support counts validations of the ledger and its descendants. -/
theorem Inv.branchSupport_eq (h : t.Inv) (ledger : L) :
    t.branchSupport ledger = (contents t.root).countP (word ledger <+: ·) := by
  rw [branchSupport]
  cases hcur : t.findByLedgerID ledger with
  | some cur =>
    obtain ⟨hplace, hnode, hword⟩ := h.findByLedgerID_some hcur
    have hall := h.locally_at hplace
    have hcount := countP_rebuild hall (u := word ledger) (q := (word ledger <+: ·))
      (hword ▸ take_prefix _ _) (fun w hw => hw)
    rw [hplace] at hcount
    rw [hcount]
    exact (weight_eq_branch hnode (hword ▸ prefix_refl _)).symm
  | none => exact (h.countP_found (h.find_found ledger)).symm

end ById

end Rippled.Consensus.LedgerTrie
