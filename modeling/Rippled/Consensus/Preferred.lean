import Mathlib.Data.Prod.Lex
import Rippled.Consensus.TrieRuns

/-!
# The preferred ledger

The ledger-by-ledger definition of the preferred branch (`Steps`, `Preferred`) speaks about the support only.
`getPreferred` walks compressed spans and jumps along the `seqSupport` map instead; it ends at the same ledger.
-/

namespace Rippled.Consensus

open Lib List Rose

variable {k : Nat}

section Definition
variable {ID : Type} [LinearOrder ID]

/-- The branch support of the ledger with word `u`. -/
def branchOf (S : Multiset (List ID)) (u : List ID) : Nat := S.countP (u <+: ·)

/-- The support that is uncommitted at sequence number `s`: all tip support below `max s largestIssued`. -/
def uncommitted (S : Multiset (List ID)) (largestIssued s : Nat) : Nat :=
  S.countP fun w => w.length - 1 < max s largestIssued

/-- `x` continues `u` to a child ledger with support. -/
def Child (S : Multiset (List ID)) (u : List ID) (x : ID) : Prop := 0 < branchOf S (u ++ [x])

/-- The child `x` of `u` is preferred to `y`: larger branch support, ties by larger id. -/
def Better (S : Multiset (List ID)) (u : List ID) (x y : ID) : Prop :=
  branchOf S (u ++ [y]) < branchOf S (u ++ [x]) ∨ (branchOf S (u ++ [y]) = branchOf S (u ++ [x]) ∧ y < x)

def Best (S : Multiset (List ID)) (u : List ID) (x : ID) : Prop :=
  Child S u x ∧ ∀ y, Child S u y → y ≠ x → Better S u x y

/-- `y` is the best child of `u` beside `x`. -/
def Second (S : Multiset (List ID)) (u : List ID) (x y : ID) : Prop :=
  (Child S u y ∧ y ≠ x) ∧ ∀ z, Child S u z → z ≠ x → z ≠ y → Better S u y z

/-- The margin of the child `x` over the second best: the difference in branch support, and one more when `x`
has the larger id; all its branch support if there is no other child. -/
inductive Margin (S : Multiset (List ID)) (u : List ID) (x : ID) : Nat → Prop
  | only (h : ∀ y, Child S u y → y = x) : Margin S u x (branchOf S (u ++ [x]))
  | against {y : ID} (h : Second S u x y) :
      Margin S u x (branchOf S (u ++ [x]) - branchOf S (u ++ [y]) + if y < x then 1 else 0)

/-- One step from a ledger to its preferred child, at the sequence number after the ledger's. -/
inductive Steps (S : Multiset (List ID)) (largestIssued : Nat) : List ID → List ID → Prop
  | next {u : List ID} {x : ID} {m : Nat} (best : Best S u x) (margin : Margin S u x m)
      (leads : uncommitted S largestIssued u.length < m ∨ uncommitted S largestIssued u.length = 0) :
      Steps S largestIssued u (u ++ [x])

/-- The last ledger reached from genesis by such steps. -/
def Preferred (S : Multiset (List ID)) (largestIssued : Nat) (genesis : ID) (w : List ID) : Prop :=
  Relation.ReflTransGen (Steps S largestIssued) [genesis] w ∧ ∀ w', ¬ Steps S largestIssued w w'

variable {S : Multiset (List ID)} {u : List ID} {x : ID}

theorem Better.asymm {y : ID} (h : Better S u x y) : ¬ Better S u y x := by
  rcases h with h | ⟨heq, h⟩
  · rintro (h' | ⟨heq', -⟩) <;> omega
  · rintro (h' | ⟨-, h'⟩)
    · omega
    · exact h.asymm h'

theorem Best.unique {y : ID} (hx : Best S u x) (hy : Best S u y) : x = y := by
  by_contra hne
  exact (hx.2 y hy.1 (Ne.symm hne)).asymm (hy.2 x hx.1 hne)

theorem Second.unique {y z : ID} (hy : Second S u x y) (hz : Second S u x z) : y = z := by
  by_contra hne
  exact (hy.2 z hz.1.1 hz.1.2 (Ne.symm hne)).asymm (hz.2 y hy.1.1 hy.1.2 hne)

theorem Margin.unique {m n : Nat} (hm : Margin S u x m) (hn : Margin S u x n) : m = n := by
  cases hm with
  | only h =>
    cases hn with
    | only _ => rfl
    | against hy => exact absurd (h _ hy.1.1) hy.1.2
  | against hy =>
    cases hn with
    | only h => exact absurd (h _ hy.1.1) hy.1.2
    | against hz => rw [hy.unique hz]

theorem Steps.unique {v w : List ID} (hv : Steps S k u v) (hw : Steps S k u w) : v = w := by
  obtain ⟨hbest, -, -⟩ := hv
  obtain ⟨hbest', -, -⟩ := hw
  rw [hbest.unique hbest']

/-- There is one preferred ledger at most. -/
theorem Preferred.unique {g : ID} {v w : List ID} (hv : Preferred S k g v) (hw : Preferred S k g w) : v = w := by
  have hright : Relator.RightUnique (Steps S k) := fun _ _ _ h h' => h.unique h'
  rcases Relation.ReflTransGen.total_of_right_unique hright hv.1 hw.1 with h | h
  · rcases h.cases_head with rfl | ⟨c, hstep, -⟩
    · rfl
    · exact absurd hstep (hv.2 c)
  · rcases h.cases_head with rfl | ⟨c, hstep, -⟩
    · rfl
    · exact absurd hstep (hw.2 c)

end Definition

namespace LedgerTrie

variable {L ID : Type} [Ledger L ID]

/-! ## Support read off the trie -/

theorem upTo_succ (l : L) (k : Nat) : upTo l (k + 1) = upTo l k ++ [Ledger.ancestor l k] := by
  simp [upTo, range_succ]

variable {n : Node L}

theorem branch_pos (h : n.Locally LocalOk) (hself : n.val.self ≠ 0) : 0 < n.val.branchSupport := by
  induction n using ind with
  | node v cs ih =>
    obtain ⟨⟨hsound, htight⟩, hkids⟩ := locally_iff.1 h
    simp only [val_node, children_node] at hsound htight hkids hself ⊢
    by_cases htip : v.tipSupport = 0
    · have hlen := htight hself htip
      cases cs with
      | nil => simp at hlen
      | cons c cs =>
        have hc := ih c (by simp) (hkids c (by simp)) (hsound.linked c.val (by simp)).2
        rw [hsound.sum]
        simp only [map_cons, sum_cons]
        omega
    · rw [hsound.sum]
      omega

variable {m : List (Nat × Nat)}

theorem below_eq_uncommitted {S : Multiset (List ID)} (h : CountMap.Counts m (S.map (·.length - 1)))
    (largestIssued s : Nat) : CountMap.below m (max s largestIssued) = uncommitted S largestIssued s := by
  rw [CountMap.below_eq_countP h, Multiset.countP_map, uncommitted, Multiset.countP_eq_card_filter]

section Ordered
variable [LinearOrder ID] {fs : Above L}

/-! ## Sorting the children -/

/-- The key by which children are sorted. -/
def rank (n : Node L) : Nat ×ₗ ID := toLex (n.val.branchSupport, n.val.span.startID)

theorem sortsBefore_iff {a b : Node L} : sortsBefore a b = true ↔ rank b < rank a := by
  simp [sortsBefore, rank, Prod.Lex.toLex_lt_toLex]

theorem selectFirst_spec (c : Node L) (cs : List (Node L)) :
    ((selectFirst c cs).1 :: (selectFirst c cs).2).Perm (c :: cs) ∧
      ∀ d ∈ (selectFirst c cs).2, rank d ≤ rank (selectFirst c cs).1 := by
  induction cs generalizing c with
  | nil => exact ⟨.refl _, by simp [selectFirst]⟩
  | cons d ds ih =>
    rw [selectFirst]
    split_ifs with hbefore
    · obtain ⟨hperm, hle⟩ := ih d
      refine ⟨(List.Perm.swap _ _ _).trans (hperm.cons c), fun e he => ?_⟩
      rcases mem_cons.1 he with rfl | he
      · have hd : d ∈ (selectFirst d ds).1 :: (selectFirst d ds).2 := hperm.mem_iff.2 (by simp)
        have hlt := sortsBefore_iff.1 hbefore
        rcases mem_cons.1 hd with heq | hd
        · rw [← heq]
          exact hlt.le
        · exact hlt.le.trans (hle d hd)
      · exact hle e he
    · obtain ⟨hperm, hle⟩ := ih c
      refine ⟨(List.Perm.swap _ _ _).trans ((hperm.cons d).trans (List.Perm.swap _ _ _)), fun e he => ?_⟩
      rcases mem_cons.1 he with rfl | he
      · have hc : c ∈ (selectFirst c ds).1 :: (selectFirst c ds).2 := hperm.mem_iff.2 (by simp)
        have hle' : rank e ≤ rank c := not_lt.1 fun hlt => hbefore (sortsBefore_iff.2 hlt)
        rcases mem_cons.1 hc with heq | hc
        · rw [← heq]
          exact hle'
        · exact hle'.trans (hle c hc)
      · exact hle e he

/-- The two best children come first. -/
theorem partialSortTwo_spec (c d : Node L) (cs : List (Node L)) :
    ∃ best second rest, partialSortTwo (c :: d :: cs) = best :: second :: rest ∧
      (best :: second :: rest).Perm (c :: d :: cs) ∧ (∀ e ∈ second :: rest, rank e ≤ rank best) ∧
      ∀ e ∈ rest, rank e ≤ rank second := by
  obtain ⟨hperm, hle⟩ := selectFirst_spec c (d :: cs)
  rw [partialSortTwo]
  rcases hsel : selectFirst c (d :: cs) with ⟨best, others⟩
  rw [hsel] at hperm hle
  cases others with
  | nil =>
    have := hperm.length_eq
    simp at this
  | cons e es =>
    obtain ⟨hperm', hle'⟩ := selectFirst_spec e es
    refine ⟨best, _, _, rfl, (hperm'.cons best).trans hperm, fun k hk => ?_, hle'⟩
    exact hle k (hperm'.mem_iff.1 hk)

/-! ## Along a span -/

variable {largestIssued : Nat} {it : List (Nat × Nat)}

/-- The jumps along the map pass what single steps would pass: up to the sequence number returned the branch support
exceeds what is uncommitted, and there, unless the span is consumed, it does not. -/
theorem alongSpan_spec (branch : Nat) (hm : CountMap.Ordered m) {end_ nextSeq u : Nat}
    (h : CountMap.Passed m (max nextSeq largestIssued) u it) (hle : nextSeq ≤ end_) :
    ∃ nextSeq' u' it', alongSpan end_ branch nextSeq u it = (nextSeq', u', it') ∧ nextSeq ≤ nextSeq' ∧ nextSeq' ≤ end_ ∧
      CountMap.Passed m (max nextSeq' largestIssued) u' it' ∧
      (∀ s, nextSeq ≤ s → s < nextSeq' → CountMap.below m (max s largestIssued) < branch) ∧
      (nextSeq' < end_ → branch ≤ u') := by
  induction it generalizing nextSeq u with
  | nil =>
    rw [alongSpan]
    split_ifs with hcond
    · obtain ⟨hlt, hu⟩ := hcond
      refine ⟨end_, u, [], rfl, hle, le_rfl, (h.nil _ (by omega)).2, fun s hs _ => ?_,
        fun hend => absurd hend (lt_irrefl _)⟩
      rw [(h.nil (max s largestIssued) (by omega)).1]
      exact hu
    · exact ⟨nextSeq, u, [], rfl, le_rfl, hle, h, fun s hs hs' => by omega, fun hlt => by omega⟩
  | cons e it ih =>
    obtain ⟨k, c⟩ := e
    obtain ⟨hk, hconst, hnext⟩ := h.cons hm
    rw [alongSpan]
    split_ifs with hcond hkend
    · obtain ⟨hlt, hu⟩ := hcond
      have hmax : max (k + 1) largestIssued = k + 1 := by omega
      obtain ⟨n', u', it', heq, hn, hn', hpassed, hall, hstop⟩ := ih
        (show CountMap.Passed m (max (k + 1) largestIssued) _ it from hmax ▸ hnext) hkend
      refine ⟨n', u', it', heq, by omega, hn', hpassed, fun s hs hs' => ?_, hstop⟩
      by_cases hsk : s ≤ k
      · rw [hconst _ (by omega) (by omega)]
        exact hu
      · exact hall s (by omega) hs'
    · obtain ⟨hlt, hu⟩ := hcond
      refine ⟨end_, u, (k, c) :: it, rfl, hle, le_rfl, h.advance hm (by omega) ?_, fun s hs hs' => ?_,
        fun hend => absurd hend (lt_irrefl _)⟩
      · rintro e ⟨⟩
        simp only
        omega
      · rw [hconst _ (by omega) (by omega)]
        exact hu
    · exact ⟨nextSeq, u, (k, c) :: it, rfl, le_rfl, hle, h, fun s hs hs' => by omega, fun hlt => by omega⟩

section Inside
variable (h : (Rose.rebuild fs n).Locally LocalOk)
include h

/-- All support that reaches into a span passes through the whole of it. -/
theorem branchOf_inside (hk : n.val.span.start < k) (hk' : k ≤ n.val.span.end_) :
    branchOf (contents (Rose.rebuild fs n)) (upTo n.val.span.ledger k) = n.val.branchSupport := by
  have hpath : n.val.span.word.take (n.val.span.start + 1) <+: upTo n.val.span.ledger k := by
    rw [Span.word, take_upTo _ n.val.span.start_lt_end]
    exact upTo_le _ hk
  rw [branchOf, countP_rebuild h hpath fun w hw => hw]
  exact weight_eq_branch (locally_rebuild.1 h).1 (upTo_le _ hk')

/-- Within a span there is one way on. -/
theorem child_inside (hk : n.val.span.start < k) (hk' : k < n.val.span.end_)
    {x : ID} (hx : Child (contents (Rose.rebuild fs n)) (upTo n.val.span.ledger k) x) :
    x = Ledger.ancestor n.val.span.ledger k := by
  have hpath : n.val.span.word.take (n.val.span.start + 1) <+: upTo n.val.span.ledger k ++ [x] := by
    rw [Span.word, take_upTo _ n.val.span.start_lt_end]
    exact (upTo_le _ hk).trans (prefix_append _ _)
  rw [Child, branchOf, countP_rebuild h hpath fun w hw => hw, Multiset.countP_pos] at hx
  obtain ⟨w, hw, hext⟩ := hx
  have hword := word_le_of_mem (locally_rebuild.1 h).1 w hw
  have hwk : w[k]? = some (Ledger.ancestor n.val.span.ledger k) := by
    rw [getElem?_of_le hword (by rwa [Span.length_word]), Span.getElem?_word hk']
  have hwx : w[k]? = some x := by
    rw [getElem?_of_le hext (by simp)]
    simp
  exact Option.some.inj (hwx.symm.trans hwk)

/-- Inside a span the walk goes on exactly while the branch support exceeds the uncommitted support. -/
theorem steps_inside (hpos : 0 < n.val.branchSupport) (hk : n.val.span.start < k)
    (hk' : k < n.val.span.end_) {w : List ID} :
    Steps (contents (Rose.rebuild fs n)) largestIssued (upTo n.val.span.ledger k) w ↔
      w = upTo n.val.span.ledger (k + 1) ∧
        uncommitted (contents (Rose.rebuild fs n)) largestIssued k < n.val.branchSupport := by
  have hbranch := branchOf_inside h (k := k + 1) (by omega) hk'
  rw [upTo_succ] at hbranch
  have hchild : Child (contents (rebuild fs n)) (upTo n.val.span.ledger k) (Ledger.ancestor n.val.span.ledger k) := by
    rw [Child, hbranch]
    exact hpos
  have honly : ∀ y, Child (contents (rebuild fs n)) (upTo n.val.span.ledger k) y →
      y = Ledger.ancestor n.val.span.ledger k := fun y hy => child_inside h hk hk' hy
  constructor
  · rintro ⟨hbest, hmargin, hleads⟩
    obtain rfl := honly _ hbest.1
    have hm := hmargin.unique (.only honly)
    rw [hm, hbranch, length_upTo] at hleads
    rw [upTo_succ]
    exact ⟨rfl, by omega⟩
  · rintro ⟨rfl, hlt⟩
    rw [upTo_succ]
    refine .next ⟨hchild, fun y hy hne => absurd (honly y hy) hne⟩ (.only honly) (.inl ?_)
    rwa [hbranch, length_upTo]

theorem walk_inside (hpos : 0 < n.val.branchSupport) {k' : Nat}
    (hk : n.val.span.start < k) (hkk' : k ≤ k') (hk' : k' ≤ n.val.span.end_)
    (hall : ∀ s, k ≤ s → s < k' → uncommitted (contents (Rose.rebuild fs n)) largestIssued s < n.val.branchSupport) :
    Relation.ReflTransGen (Steps (contents (Rose.rebuild fs n)) largestIssued) (upTo n.val.span.ledger k)
      (upTo n.val.span.ledger k') := by
  induction k', hkk' using Nat.le_induction with
  | base => exact .refl
  | succ j hkj ih =>
    refine (ih (by omega) fun s hs hs' => hall s hs (by omega)).tail ?_
    exact (steps_inside h hpos (by omega) (by omega)).2 ⟨rfl, hall j hkj (Nat.lt_succ_self j)⟩

/-- The support of a child ledger of a node's tip is that of the child that starts with it. -/
theorem branchOf_child {c : Node L} (hc : c ∈ n.children) :
    branchOf (contents (Rose.rebuild fs n)) (n.val.span.word ++ [c.val.span.startID]) = c.val.branchSupport ∧
      n.val.span.word ++ [c.val.span.startID] = upTo c.val.span.ledger (c.val.span.start + 1) := by
  obtain ⟨hstart, hword⟩ := (locally_rebuild.1 h).1.here.1.joined c.val (mem_map_of_mem hc)
  have heq : n.val.span.word ++ [c.val.span.startID] = upTo c.val.span.ledger (c.val.span.start + 1) := by
    rw [upTo_succ, hstart, hword, Span.startID, hstart]
  refine ⟨?_, heq⟩
  obtain ⟨l, r, hsplit⟩ := append_of_mem hc
  have hplace : rebuild (⟨n.val, l, r⟩ :: fs) c = rebuild fs n := by
    rw [rebuild, Rose.Frame.plug, ← hsplit, node_val_children]
  rw [heq, ← hplace]
  exact branchOf_inside (hplace ▸ h) (Nat.lt_succ_self _) c.val.span.start_lt_end

theorem exists_child {x : ID}
    (hx : Child (contents (Rose.rebuild fs n)) n.val.span.word x) : ∃ c ∈ n.children, c.val.span.startID = x := by
  obtain ⟨hnode, -⟩ := locally_rebuild.1 h
  have hpath : n.val.span.word.take (n.val.span.start + 1) <+: n.val.span.word ++ [x] :=
    ( take_prefix _ _).trans (prefix_append _ _)
  rw [Child, branchOf, countP_rebuild h hpath fun w hw => hw, Multiset.countP_pos] at hx
  obtain ⟨w, hw, hext⟩ := hx
  rw [contents_eq, Multiset.mem_add, mem_list_sum] at hw
  rcases hw with hw | ⟨m, hm, hw⟩
  · rw [Multiset.eq_of_mem_replicate hw] at hext
    have := hext.length_le
    simp at this
  · obtain ⟨c, hc, rfl⟩ := mem_map.1 hm
    refine ⟨c, hc, ?_⟩
    by_contra hne
    refine not_prefix_of_startID_ne hnode.here.1 (mem_map_of_mem hc) (hnode.kids c hc) (u := n.val.span.word ++ [x])
      (by simp) ?_ w hw hext
    intro heq
    rw [← n.val.span.length_word, getElem?_concat_length] at heq
    exact hne (Option.some.inj heq).symm

theorem better_of_rank {a b : Node L} (ha : a ∈ n.children) (hb : b ∈ n.children)
    (hle : rank b ≤ rank a) (hne : b.val.span.startID ≠ a.val.span.startID) :
    Better (contents (Rose.rebuild fs n)) n.val.span.word a.val.span.startID b.val.span.startID := by
  rw [Better, (branchOf_child h ha).1, (branchOf_child h hb).1]
  rcases Prod.Lex.toLex_le_toLex.1 hle with hlt | ⟨heq, hid⟩
  · exact .inl hlt
  · exact .inr ⟨heq, lt_of_le_of_ne hid hne⟩

/-- The best child, with its margin over the second. -/
theorem bestChild_spec :
    (bestChild n.children = none ∧ n.children = []) ∨
      ∃ best m, bestChild n.children = some (best, m) ∧ best ∈ n.children ∧
        Best (contents (Rose.rebuild fs n)) n.val.span.word best.val.span.startID ∧
        Margin (contents (Rose.rebuild fs n)) n.val.span.word best.val.span.startID m := by
  obtain ⟨hnode, -⟩ := locally_rebuild.1 h
  have hchild : ∀ c ∈ n.children, Child (contents (rebuild fs n)) n.val.span.word c.val.span.startID := by
    intro c hc
    rw [Child, (branchOf_child h hc).1]
    exact branch_pos (hnode.kids c hc) (hnode.here.1.linked c.val (mem_map_of_mem hc)).2
  match hcs : n.children with
  | [] => exact .inl ⟨rfl, rfl⟩
  | [c] =>
    have hc : c ∈ n.children := by simp [hcs]
    have honly : ∀ y, Child (contents (rebuild fs n)) n.val.span.word y → y = c.val.span.startID := by
      intro y hy
      obtain ⟨d, hd, rfl⟩ := exists_child h hy
      rw [hcs, mem_singleton] at hd
      rw [hd]
    refine .inr ⟨c, c.val.branchSupport, rfl, by simp, ⟨hchild c hc, fun y hy hne => absurd (honly y hy) hne⟩, ?_⟩
    rw [← (branchOf_child h hc).1]
    exact .only honly
  | c :: d :: cs =>
    obtain ⟨best, second, rest, hsort, hperm, hbest, hsecond⟩ := partialSortTwo_spec c d cs
    have hmem : ∀ e, e ∈ best :: second :: rest ↔ e ∈ n.children := fun e => by rw [hcs, hperm.mem_iff]
    have hnodup : ((best :: second :: rest).map fun e => e.val.span.startID).Nodup := by
      have hapart := hnode.here.1.apart
      rw [map_map, hcs] at hapart
      exact (hperm.map _).nodup_iff.2 hapart
    simp only [map_cons, nodup_cons, mem_cons, mem_map, not_or, not_exists, not_and] at hnodup
    obtain ⟨⟨hne, hrest⟩, hrest', -⟩ := hnodup
    have hbmem := (hmem best).1 (by simp)
    have hsmem := (hmem second).1 (by simp)
    refine .inr ⟨best, best.val.branchSupport - second.val.branchSupport +
      if second.val.span.startID < best.val.span.startID then 1 else 0, ?_, by rw [← hcs]; exact hbmem,
      ⟨hchild best hbmem, fun y hy hne' => ?_⟩, ?_⟩
    · simp only [bestChild, hsort]
    · obtain ⟨e, he, rfl⟩ := exists_child h hy
      refine better_of_rank h hbmem he (hbest e ?_) hne'
      rcases mem_cons.1 ((hmem e).2 he) with rfl | he'
      · exact absurd rfl hne'
      · exact he'
    · rw [← (branchOf_child h hbmem).1, ← (branchOf_child h hsmem).1]
      refine .against ⟨⟨hchild second hsmem, Ne.symm hne⟩, fun z hz hzb hzs => ?_⟩
      obtain ⟨e, he, rfl⟩ := exists_child h hz
      refine better_of_rank h hsmem he (hsecond e ?_) hzs
      rcases mem_cons.1 ((hmem e).2 he) with rfl | he'
      · exact absurd rfl hzb
      · rcases mem_cons.1 he' with rfl | he'
        · exact absurd rfl hzs
        · exact he'

end Inside

def tipWord (tip : SpanTip L ID) : List ID := upTo tip.ledger (tip.seq + 1)

/-- The outer loop ends at a ledger that the single steps reach and from which there is no further step. -/
theorem preferredFrom_spec (largestIssued : Nat) {fuel : Nat} (h : (Rose.rebuild fs n).Locally LocalOk)
    (hpos : 0 < n.val.branchSupport) (hfuel : n.size ≤ fuel)
    (hm : CountMap.Counts m ((contents (Rose.rebuild fs n)).map (·.length - 1))) {b u : Nat}
    (hpassed : CountMap.Passed m b u it) (hb : b ≤ max (n.val.span.start + 1) largestIssued) :
    ∃ tip, preferredFrom largestIssued fuel n u it = some tip ∧ tip.id = Ledger.ancestor tip.ledger tip.seq ∧
      Relation.ReflTransGen (Steps (contents (Rose.rebuild fs n)) largestIssued)
        (upTo n.val.span.ledger (n.val.span.start + 1)) (tipWord tip) ∧
      ∀ w, ¬ Steps (contents (Rose.rebuild fs n)) largestIssued (tipWord tip) w := by
  induction fuel generalizing n fs b u it with
  | zero =>
    rw [size_eq] at hfuel
    omega
  | succ fuel ih =>
    obtain ⟨hnode, -⟩ := locally_rebuild.1 h
    have hskip := CountMap.skipTo_passed hm.1 hpassed hb
    obtain ⟨k, u', it', halong, hk, hkend, hpassed', hall, hstop⟩ := alongSpan_spec n.val.branchSupport hm.1 hskip
      n.val.span.start_lt_end
    simp only [below_eq_uncommitted hm] at hall
    have hwalk := walk_inside h hpos (Nat.lt_succ_self _) hk hkend hall
    have hu : u' = uncommitted (contents (rebuild fs n)) largestIssued k := by
      rw [hpassed'.1, below_eq_uncommitted hm]
    rw [preferredFrom]
    simp only [halong]
    split_ifs with hlt
    · -- the span is not consumed: the walk ends inside it
      obtain ⟨r, hr, hrstart, hrend, hrledger⟩ := Span.before_of_lt (s := n.val.span) (k := k) (by omega) hkend
      have hword : tipWord r.tip = upTo n.val.span.ledger k := by
        rw [tipWord, Span.tip, hrend, hrledger, Nat.sub_add_cancel (by omega)]
      refine ⟨r.tip, by rw [hr]; rfl, rfl, hword ▸ hwalk, fun w hw => ?_⟩
      rw [hword, steps_inside h hpos (by omega) hlt, ← hu] at hw
      have := hstop hlt
      omega
    · obtain rfl : k = n.val.span.end_ := by omega
      have hword : tipWord n.val.span.tip = n.val.span.word := by
        have := n.val.span.start_lt_end
        rw [tipWord, Span.tip, Nat.sub_add_cancel (by omega), Span.word]
      rcases bestChild_spec h with ⟨hnone, hnil⟩ | ⟨best, margin, hsome, hmem, hbest, hmargin⟩
      · rw [hnone]
        refine ⟨n.val.span.tip, rfl, rfl, hword ▸ hwalk, fun w hw => ?_⟩
        rw [hword] at hw
        obtain ⟨hx, -, -⟩ := hw
        obtain ⟨c, hc, -⟩ := exists_child h hx.1
        rw [hnil] at hc
        cases hc
      · rw [hsome]
        simp only
        split_ifs with hleads
        · -- go on with the best child
          obtain ⟨l, r, hsplit⟩ := append_of_mem hmem
          have hplace : rebuild (⟨n.val, l, r⟩ :: fs) best = rebuild fs n := by
            rw [rebuild, Rose.Frame.plug, ← hsplit, node_val_children]
          have hstart := (hnode.here.1.joined best.val (mem_map_of_mem hmem)).1
          have hsize : best.size ≤ fuel := by
            rw [size_eq, hsplit, map_append, map_cons, sum_append, sum_cons] at hfuel
            omega
          have hchild := branchOf_child h hmem
          have hbpos : 0 < best.val.branchSupport := by
            rw [← hchild.1]
            exact hbest.1
          rw [← hplace] at h hm hwalk hbest hmargin hu ⊢
          obtain ⟨tip, htip, hid, hwalk', hend⟩ := ih h hbpos hsize hm hpassed' (by omega)
          refine ⟨tip, htip, hid, hwalk.trans (.head ?_ hwalk'), hend⟩
          rw [← hchild.2]
          refine .next hbest hmargin ?_
          rw [length_upTo, ← hu]
          exact hleads
        · refine ⟨n.val.span.tip, rfl, rfl, hword ▸ hwalk, fun w hw => ?_⟩
          rw [hword] at hw
          obtain ⟨hbest', hmargin', hleads'⟩ := hw
          obtain rfl := hbest'.unique hbest
          rw [hmargin'.unique hmargin, Span.length_word, ← hu] at hleads'
          exact hleads hleads'

section Lawful
variable [LawfulLedger L]

/-- On a trie with support, `getPreferred` returns the tip of the preferred ledger of its contents. -/
theorem Inv.getPreferred_spec {t : LedgerTrie L} (h : t.Inv) (largestIssued : Nat) (hne : contents t.root ≠ 0) :
    ∃ tip, t.getPreferred largestIssued = some tip ∧ tip.id = Ledger.ancestor tip.ledger tip.seq ∧
      Preferred (contents t.root) largestIssued (Ledger.id (Ledger.genesis : L)) (tipWord tip) := by
  have hpos : 0 < t.root.val.branchSupport := by
    rw [← card_contents h.locally]
    exact Multiset.card_pos.2 hne
  obtain ⟨tip, htip, hid, hwalk, hend⟩ := preferredFrom_spec largestIssued
    (show (rebuild [] t.root).Locally LocalOk from h.locally) hpos
    le_rfl h.counts (CountMap.passed_zero _) (Nat.zero_le _)
  refine ⟨tip, ?_, hid, ?_, hend⟩
  · rw [getPreferred, if_neg, htip]
    simp only [empty, decide_eq_true_eq]
    omega
  · rw [h.start, upTo_one] at hwalk
    exact hwalk

theorem Inv.getPreferred_none {t : LedgerTrie L} (h : t.Inv) (largestIssued : Nat) :
    t.getPreferred largestIssued = none ↔ contents t.root = 0 := by
  constructor
  · intro hnone
    by_contra hne
    obtain ⟨tip, htip, -⟩ := h.getPreferred_spec largestIssued hne
    rw [htip] at hnone
    cases hnone
  · intro hzero
    have hbranch : t.root.val.branchSupport = 0 := by
      rw [← card_contents h.locally, hzero, Multiset.card_zero]
    rw [getPreferred, if_pos]
    simpa [empty] using hbranch

/-- In every trie of a run, `getPreferred` returns what the ledger-by-ledger definition gives for the support of
the run, and none iff there is no support. So two tries with one support give one answer, however their children
are ordered and their spans compressed. -/
theorem getPreferred_eq_definition (ops : List (Op L)) (hops : ∀ op ∈ ops, 1 ≤ op.count) {t : LedgerTrie L}
    (hrun : Runs ops t) (largestIssued : Nat) :
    (t.getPreferred largestIssued = none ↔ support ops = 0) ∧
    (∀ tip, t.getPreferred largestIssued = some tip →
      tip.id = Ledger.ancestor tip.ledger tip.seq ∧
      ∀ w, Preferred (support ops) largestIssued (Ledger.id (Ledger.genesis : L)) w ↔ w = tipWord tip) ∧
    ∀ (ops' : List (Op L)) (t' : LedgerTrie L), (∀ op ∈ ops', 1 ≤ op.count) →
      Runs ops' t' → support ops' = support ops →
      (t'.getPreferred largestIssued).map (fun tip => (tip.seq, tip.id)) =
        (t.getPreferred largestIssued).map fun tip => (tip.seq, tip.id) := by
  obtain ⟨hinv, hholds⟩ := runs_inv hrun hops
  refine ⟨?_, fun tip htip => ?_, fun ops' t' hops' hrun' hsame => ?_⟩
  · rw [hinv.getPreferred_none, hholds]
  · have hne : contents t.root ≠ 0 := by
      intro hzero
      rw [(hinv.getPreferred_none largestIssued).2 hzero] at htip
      cases htip
    obtain ⟨tip', htip', hid, hpref⟩ := hinv.getPreferred_spec largestIssued hne
    rw [htip] at htip'
    cases htip'
    rw [hholds] at hpref
    exact ⟨hid, fun w => ⟨fun hw => hw.unique hpref, fun hw => hw ▸ hpref⟩⟩
  · obtain ⟨hinv', hholds'⟩ := runs_inv hrun' hops'
    have hcontents : contents t'.root = contents t.root := hholds'.trans (hsame.trans hholds.symm)
    by_cases hzero : contents t.root = 0
    · rw [(hinv.getPreferred_none _).2 hzero, (hinv'.getPreferred_none _).2 (hcontents.trans hzero)]
    · obtain ⟨tip, htip, hid, hpref⟩ := hinv.getPreferred_spec largestIssued hzero
      obtain ⟨tip', htip', hid', hpref'⟩ := hinv'.getPreferred_spec largestIssued (hcontents ▸ hzero)
      rw [hcontents] at hpref'
      have hword := hpref'.unique hpref
      have hseq : tip'.seq = tip.seq := by
        have := congrArg length hword
        simpa [tipWord] using this
      rw [htip, htip', Option.map_some, Option.map_some, hseq, hid, hid', hseq]
      rw [tipWord, tipWord, hseq] at hword
      rw [upTo_congr.1 hword tip.seq (Nat.lt_succ_self _)]

end Lawful

end Ordered

/-- Two branches with support behind a common ledger with support of its own. -/
theorem getPreferred_eq_definition_fork :
    ∃ t : LedgerTrie Path, Runs [.insert ⟨[1, 2]⟩ 1, .insert ⟨[1, 2, 3]⟩ 3, .insert ⟨[1, 2, 4, 5]⟩ 1] t ∧
      ∃ tip, t.getPreferred 0 = some tip ∧
        Preferred (support [.insert (⟨[1, 2]⟩ : Path) 1, .insert ⟨[1, 2, 3]⟩ 3, .insert ⟨[1, 2, 4, 5]⟩ 1]) 0 ⟨[]⟩
          (tipWord tip) := by
  have hops : ∀ op ∈ [Op.insert (⟨[1, 2]⟩ : Path) 1, .insert ⟨[1, 2, 3]⟩ 3, .insert ⟨[1, 2, 4, 5]⟩ 1],
      1 ≤ op.count := by
    decide
  obtain ⟨t, hrun⟩ := runs_exists _ hops
  obtain ⟨hnone, hsome, -⟩ := getPreferred_eq_definition _ hops hrun 0
  refine ⟨t, hrun, ?_⟩
  cases htip : t.getPreferred 0 with
  | none => exact absurd (hnone.1 htip) (by decide)
  | some tip => exact ⟨tip, rfl, ((hsome tip htip).2 _).2 rfl⟩

end LedgerTrie

end Rippled.Consensus
