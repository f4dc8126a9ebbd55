import Rippled.Consensus.TrieLookup

/-!
# Insertion and removal

`insert` adds a ledger's word to what the trie holds and `remove` takes it away, whatever spans are split and
merged on the way; both keep the invariant, so every run of calls counts support as the plain multiset of words
does (`support_of_run`).
-/

namespace Rippled.Consensus.LedgerTrie

open Lib List Rose

variable {L ID : Type} [Ledger L ID] {n : Node L}

/-- What holds of the root's cell still does after a change at the cursor that preserves it. -/
theorem rebuild_root {π : Cell L → Prop} {f : Cell L → Cell L} (hf : ∀ v, π v → π (f v)) (fs : Above L) {n' : Node L}
    (h : π n.val → π n'.val) (hroot : π (Rose.rebuild fs n).val) : π (Rose.rebuild (fs.map (mapFrame f)) n').val := by
  induction fs generalizing n n' with
  | nil => exact h hroot
  | cons fr fs ih => exact ih (n := fr.plug n) (hf fr.val) hroot

theorem rebuild_root_congr {π : Cell L → Prop} (fs : Above L) {n' : Node L} (h : π n.val → π n'.val)
    (hroot : π (Rose.rebuild fs n).val) : π (Rose.rebuild fs n').val := by
  cases fs with
  | nil => exact h hroot
  | cons fr fs =>
    have hval : (rebuild (fr :: fs) n').val = (rebuild (fr :: fs) n).val := val_rebuild_congr fs rfl
    rw [hval]
    exact hroot

/-! ## Making room -/

/-- The node `m` takes the place of `n`, ends at `d` and has room there: for its own tip, or for a further child. -/
structure Room (n m : Node L) (d : Nat) : Prop where
  self : m.val.self = n.val.self
  parent : m.val.parent = n.val.parent
  branch : m.val.branchSupport = n.val.branchSupport
  start : m.val.span.start = n.val.span.start
  ledger : m.val.span.ledger = n.val.span.ledger
  ends : m.val.span.end_ = d
  sound : Sound m.val (m.children.map Rose.val)
  kids : ∀ c ∈ m.children, c.Locally LocalOk
  holds : contents m = contents n
  nonempty : m.val.self ≠ 0 → m.val.tipSupport = 0 → m.children ≠ []

variable {d : Nat} {m : Node L}

theorem Room.sameFace (h : Room n m d) : SameFace n.val m.val :=
  ⟨fun hne => h.self ▸ hne, h.parent, h.start, by rw [h.ledger]⟩

theorem Room.atRoot (h : Room n m d) (hpos : 0 < d) (hle : d ≤ n.val.span.end_) (hn : AtRoot n.val) : AtRoot m.val := by
  refine ⟨h.self.trans hn.self, h.parent.trans hn.parent, h.ends.trans ?_⟩
  rw [hn.ends] at hle
  omega

theorem Room.refl (h : n.Locally LocalOk) : Room n n n.val.span.end_ where
  self := rfl
  parent := rfl
  branch := rfl
  start := rfl
  ledger := rfl
  ends := rfl
  sound := h.here.1
  kids := h.kids
  holds := rfl
  nonempty hself htip hnil := by
    have := h.here.2 hself htip
    rw [hnil] at this
    simp at this

theorem setParent_locally {p : Nat} {c : Node L} (h : c.Locally LocalOk) : (setParent p c).Locally LocalOk := by
  obtain ⟨⟨hsound, htight⟩, hkids⟩ := locally_iff.1 h
  cases c
  exact .node ⟨⟨hsound.end_le, hsound.sum, hsound.linked, hsound.joined, hsound.apart⟩, htight⟩ hkids

theorem contents_setParent (p : Nat) (c : Node L) : contents (setParent p c) = contents c := by
  cases c
  rw [setParent, contents_node, contents_node]

variable {next : Nat}

/-- Splitting a node keeps what it holds and leaves the rest of its span as its only child. -/
theorem split_room (h : n.Locally LocalOk) (hself : n.val.self ≠ 0) (hnext : next ≠ 0) {pre suf : Span L}
    (hd : d < n.val.span.end_) (hpre : pre.start = n.val.span.start ∧ pre.end_ = d ∧ pre.ledger = n.val.span.ledger)
    (hsuf : suf.start = d ∧ suf.end_ = n.val.span.end_ ∧ suf.ledger = n.val.span.ledger) :
    Room n (split next pre suf n) d ∧
      ∀ c ∈ (split next pre suf n).children, c.val.span.startID = Ledger.ancestor n.val.span.ledger d := by
  obtain ⟨⟨hsound, htight⟩, hkids⟩ := locally_iff.1 h
  cases n with
  | node v cs =>
    simp only [val_node, children_node] at hsound htight hkids hd hpre hsuf
    obtain ⟨hpstart, hpend, hpledger⟩ := hpre
    obtain ⟨hsstart, hsend, hsledger⟩ := hsuf
    have hsword : suf.word = v.span.word := by rw [Span.word, hsend, hsledger, Span.word]
    have hmap : (cs.map (setParent next)).map val = (cs.map val).map fun c => { c with parent := some next } := by
      rw [map_map, map_map]
      refine map_congr_left fun c _ => ?_
      cases c
      rfl
    -- the new node has the children of the old one, with their parent pointers set to it
    have hnew : (node ⟨next, suf, v.tipSupport, v.branchSupport, some v.self⟩ (cs.map (setParent next))).Locally
        LocalOk := by
      refine .node ⟨⟨?_, ?_, ?_, ?_, ?_⟩, ?_⟩ ?_
      · rw [hsend, hsledger]
        exact hsound.end_le
      · rw [hmap, map_map]
        exact hsound.sum
      · intro c hc
        rw [hmap] at hc
        obtain ⟨b, hb, rfl⟩ := mem_map.1 hc
        exact ⟨rfl, (hsound.linked b hb).2⟩
      · intro c hc
        rw [hmap] at hc
        obtain ⟨b, hb, rfl⟩ := mem_map.1 hc
        have := hsound.joined b hb
        rw [hsword, hsend]
        exact this
      · rw [hmap, map_map]
        exact hsound.apart
      · intro _ htip
        have := htight hself htip
        simpa using this
      · intro c hc
        obtain ⟨b, hb, rfl⟩ := mem_map.1 hc
        exact setParent_locally (hkids b hb)
    refine ⟨⟨rfl, rfl, rfl, hpstart, hpledger, hpend, ⟨?_, ?_, ?_, ?_, ?_⟩, ?_, ?_, ?_⟩, ?_⟩
    · have := hsound.end_le
      simp only [split, val_node, hpend, hpledger]
      omega
    · simp [split]
    · simp [split, hnext]
    · simp [split, Span.word, hsstart, hpend, hsledger, hpledger]
    · simp [split]
    · intro c hc
      rw [split, children_node, mem_singleton] at hc
      rw [hc]
      exact hnew
    · rw [split, contents_node, contents_node, Multiset.replicate_zero, zero_add, map_singleton, sum_singleton,
        contents_node, hsword, map_map]
      congr 2
      refine map_congr_left fun c _ => ?_
      exact contents_setParent next c
    · simp [split]
    · intro c hc
      rw [split, children_node, mem_singleton] at hc
      rw [hc, val_node, Span.startID, hsstart, hsledger]
      rfl

variable {cur : Cursor L}

theorem makeRoom_of_end (h : d = cur.node.val.span.end_) : makeRoom next d cur = some (cur, next) := by
  rw [makeRoom, Span.fromSpot_of_le h.ge]

/-! ## Insertion -/

variable {v : Cell L}

theorem sound_addTip {cs : List (Cell L)} (h : Sound v cs) (count : Nat) :
    Sound { v with tipSupport := v.tipSupport + count, branchSupport := v.branchSupport + count } cs where
  __ := h
  sum := by
    have := h.sum
    simp only
    omega

variable {c : Cell L}

/-- A new child fits behind the place that was made for it. -/
theorem Room.push (h : Room n m d) (hself : c.self ≠ 0) (hparent : c.parent = some m.val.self)
    (hbranch : c.branchSupport = 0) (hstart : c.span.start = d) (hwords : upTo c.span.ledger d = m.val.span.word)
    (hids : ∀ k ∈ m.children, k.val.span.startID ≠ c.span.startID) :
    LocalOk m.val (m.children.map Rose.val ++ [c]) := by
  refine ⟨⟨h.sound.end_le, ?_, fun k hk => ?_, fun k hk => ?_, ?_⟩, fun hne htip => ?_⟩
  · rw [h.sound.sum]
    simp [hbranch]
  · rcases mem_append.1 hk with hk | hk
    · exact h.sound.linked k hk
    · rw [mem_singleton.1 hk]
      exact ⟨hparent, hself⟩
  · rcases mem_append.1 hk with hk | hk
    · exact h.sound.joined k hk
    · rw [mem_singleton.1 hk, h.ends]
      exact ⟨hstart, hwords⟩
  · rw [map_append, nodup_append]
    refine ⟨h.sound.apart, by simp, fun i hi j hj => ?_⟩
    rw [map_map] at hi
    obtain ⟨k, hk, rfl⟩ := mem_map.1 hi
    rw [map_singleton, mem_singleton] at hj
    rw [hj]
    exact hids k hk
  · have := length_pos_of_ne_nil (h.nonempty hne htip)
    simp only [length_append, length_map, length_singleton]
    omega

theorem contents_addTip (count : Nat) (n : Node L) :
    contents (addTip count n) = contents n + Multiset.replicate count n.val.span.word := by
  cases n with
  | node v cs =>
    rw [addTip, contents_node, val_node, children_node, contents_node, Multiset.replicate_add]
    exact add_right_comm _ _ _

variable {count : Nat} {fs : Above L}

/-- Adding to the branch support from a cursor upwards keeps the rest and restores the invariant that the new
tip support at the cursor had broken. -/
theorem updateUp_addBranch {k : Node L} (hk : (Rose.node (addBranch count k.val) k.children).Locally LocalOk)
    (hfits : Rose.Fits LocalOk k.val fs) (hroot : AtRoot (Rose.rebuild fs k).val) :
    ∃ cur, updateUp (addBranch count) ⟨k, fs⟩ = some cur ∧ (Rose.rebuild cur.above cur.node).Locally LocalOk ∧
      AtRoot (Rose.rebuild cur.above cur.node).val ∧
      contents (Rose.rebuild cur.above cur.node) = contents (Rose.rebuild fs k) := by
  refine ⟨_, updateUp_eq (addBranch count) hfits hroot.parent, ?_, ?_, ?_⟩
  · refine locally_rebuild.2 ⟨hk, ?_⟩
    exact fits_shift (g := (· + count)) (m := 0) (fun x c _ _ => by omega) hfits ⟨id, rfl, rfl, rfl⟩ rfl
      (Nat.zero_le _)
  · exact rebuild_root (n := k) (f := addBranch count) (fun v hv => ⟨hv.self, hv.parent, hv.ends⟩) fs
      (fun hv => ⟨hv.self, hv.parent, hv.ends⟩) hroot
  · have hsame : contents (node (addBranch count k.val) k.children) = contents k + 0 := by
      rw [add_zero]
      conv_rhs => rw [← node_val_children k]
      rw [contents_node, contents_node]
      rfl
    have := contents_map_above (g := (· + count)) fs hsame
    rwa [add_zero] at this

variable {t : LedgerTrie L}

section Lawful
variable [LawfulLedger L]

/-- After `find`, the node at the cursor can be made to end where the ledger departs from it, and none of its
children then continues as the ledger does. -/
theorem makeRoom_spec (h : t.Inv) {ledger : L} (hfound : Found t.root [] ledger (cur, d)) :
    ∃ m next, makeRoom t.next d cur = some (⟨m, cur.above⟩, next) ∧ next ≠ 0 ∧ Room cur.node m d ∧
      (d ≤ Ledger.seq ledger → ∀ c ∈ m.children, c.val.span.startID ≠ Ledger.ancestor ledger d) := by
  have hplace : rebuild cur.above cur.node = t.root := hfound.place
  obtain ⟨hnode, hfits⟩ := locally_rebuild.1 (h.locally_at hplace)
  have hstart : cur.node.val.span.start < d := hfound.start_lt
  have hdend : d ≤ cur.node.val.span.end_ := hfound.pos_le.2
  rcases hdend.eq_or_lt with hend | hlt
  · exact ⟨cur.node, t.next, makeRoom_of_end hend, h.next_ne, hend ▸ Room.refl hnode,
      fun hseq c hc => hfound.startID_ne hnode hend hseq hc⟩
  · -- only a node below the root has a span long enough to be split
    have hself : cur.node.val.self ≠ 0 := by
      cases habove : cur.above with
      | nil =>
        rw [habove] at hplace
        have hroot : cur.node = t.root := hplace
        have hends := h.atRoot.ends
        rw [hroot] at hlt
        omega
      | cons fr fs =>
        rw [habove] at hfits
        exact (hfits.1.1.linked cur.node.val (by simp)).2
    obtain ⟨pre, hpre, hpspec⟩ := Span.before_of_lt hstart hdend
    obtain ⟨suf, hsuf, hsspec⟩ := Span.fromSpot_of_lt hstart.le hlt
    obtain ⟨hroom, hids⟩ := split_room hnode hself h.next_ne hlt hpspec hsspec
    refine ⟨split t.next pre suf cur.node, t.next + 1, ?_, Nat.succ_ne_zero _, hroom, fun hseq c hc => ?_⟩
    · rw [makeRoom, hsuf, hpre]
      rfl
    · rw [hids c hc]
      exact hfound.ancestor_ne hnode.here.1.end_le hlt hseq

/-- The node that gets the support, with the support already in its tip: the invariant fails only in the branch
supports, and the trie holds the ledger's word `count` times more. -/
theorem incNode_spec (h : t.Inv) {ledger : L} (hcount : 0 < count) (hnext : next ≠ 0)
    (hfound : Found t.root [] ledger (cur, d)) (hroom : Room cur.node m d)
    (hids : d ≤ Ledger.seq ledger → ∀ c ∈ m.children, c.val.span.startID ≠ Ledger.ancestor ledger d) :
    ∃ k fs next', incNode next ((Span.ofLedger ledger).fromSpot d) ⟨m, cur.above⟩ = (⟨k, fs⟩, next') ∧ next' ≠ 0 ∧
      (Rose.node (addBranch count (addTip count k).val) k.children).Locally LocalOk ∧
      Rose.Fits LocalOk (addTip count k).val fs ∧ AtRoot (Rose.rebuild fs (addTip count k)).val ∧
      contents (Rose.rebuild fs (addTip count k)) = contents t.root + Multiset.replicate count (word ledger) := by
  have hplace : rebuild cur.above cur.node = t.root := hfound.place
  obtain ⟨hnode, hfits⟩ := locally_rebuild.1 (h.locally_at hplace)
  have hroot : AtRoot (rebuild cur.above cur.node).val := hplace ▸ h.atRoot
  have hwords : upTo cur.node.val.span.ledger d = upTo ledger d := hfound.upTo_eq
  have hmword : m.val.span.word = upTo ledger d := by rw [Span.word, hroom.ends, hroom.ledger, hwords]
  have hd : d ≤ Ledger.seq ledger + 1 := hfound.pos_le.1
  have hpos : 0 < d := Nat.zero_lt_of_lt hfound.start_lt
  rcases hd.eq_or_lt with hend | hlt
  · -- the ledger ends here: the node found gets the support
    have hnone : (Span.ofLedger ledger).fromSpot d = none := Span.fromSpot_of_le hend.ge
    refine ⟨m, cur.above,
      next, by rw [hnone]; rfl, hnext, .node ⟨sound_addTip hroom.sound count, ?_⟩ hroom.kids, ?_, ?_, ?_⟩
    · intro _ htip
      have hpos : m.val.tipSupport + count = 0 := htip
      omega
    · have hface := hroom.sameFace
      exact fits_congr hfits ⟨hface.self, hface.parent, hface.start, hface.words⟩ hroom.branch
    · refine rebuild_root_congr cur.above (fun hv => ?_) hroot
      have hm := hroom.atRoot hpos hfound.pos_le.2 hv
      exact ⟨hm.self, hm.parent, hm.ends⟩
    · have hword : m.val.span.word = word ledger := by rw [hmword, hend, word]
      rw [← hplace, ← hword]
      refine contents_rebuild_add cur.above ?_
      rw [contents_addTip, hroom.holds]
  · -- the rest of the ledger becomes a new child
    obtain ⟨r, hr, hrstart, hrend, hrledger⟩ := Span.fromSpot_of_lt (s := Span.ofLedger ledger) (Nat.zero_le d) hlt
    refine ⟨.node ⟨next, r, 0, 0, some m.val.self⟩ [], ⟨m.val, m.children, []⟩ :: cur.above, next + 1, by rw [hr]; rfl,
      Nat.succ_ne_zero _, .node ⟨⟨?_, ?_, by simp, by simp, by simp⟩, ?_⟩ (by simp), ⟨?_, ?_, ?_⟩, ?_, ?_⟩
    · rw [addTip, addBranch, val_node, val_node, hrend, hrledger]
      exact le_rfl
    · simp [addTip, addBranch]
    · intro _ htip
      have hpos : 0 + count = 0 := htip
      omega
    · refine hroom.push hnext rfl rfl hrstart ?_ fun c hc => ?_
      · rw [hmword]
        exact congrArg (fun l => upTo l d) hrledger
      · have hstart : r.startID = Ledger.ancestor ledger d := by
          rw [Span.startID, hrstart, hrledger]
          rfl
        rw [addTip, val_node, val_node, hstart]
        exact hids (by omega) c hc
    · intro c hc
      rw [append_nil] at hc
      exact hroom.kids c hc
    · exact fits_congr hfits hroom.sameFace hroom.branch
    · exact rebuild_root_congr cur.above (hroom.atRoot hpos hfound.pos_le.2) hroot
    · have hword : r.word = word ledger := by
        rw [Span.word, hrend, hrledger]
        rfl
      rw [← hplace, ← hword]
      refine contents_rebuild_add cur.above ?_
      rw [contents_plug, append_nil, contents_addTip, node_val_children, hroom.holds, contents_node]
      simp

/-- `insert` adds to the support of its ledger and keeps the invariant. -/
theorem insert_spec (h : t.Inv) (ledger : L) (hcount : 0 < count) :
    ∃ t', t.insert ledger count = some t' ∧ t'.Inv ∧
      contents t'.root = contents t.root + Multiset.replicate count (word ledger) := by
  have hfound := h.find_found ledger
  rcases hfind : t.find ledger with ⟨cur, d⟩
  rw [hfind] at hfound
  obtain ⟨m, next, hroom_eq, hnext, hroom, hids⟩ := makeRoom_spec h hfound
  obtain ⟨k, fs, next', hinc, hnext', hk, hfits, hroot, hholds⟩ := incNode_spec h hcount hnext hfound hroom hids
  obtain ⟨c, hup, hlocal, hroot', hsame⟩ := updateUp_addBranch (k := addTip count k) hk hfits hroot
  refine ⟨⟨rebuild c.above c.node, CountMap.add t.seqSupport (Ledger.seq ledger) count, next'⟩, ?_,
    ⟨hlocal, hroot', ?_, hnext'⟩, hsame.trans hholds⟩
  · simp only [insert, hfind, hroom_eq, hinc, hup, Option.bind_eq_bind, Option.bind_some, Option.pure_def]
  · have hcounts := h.counts.add (Ledger.seq ledger) hcount
    rw [hsame, hholds, Multiset.map_add, Multiset.map_replicate, length_word, Nat.add_sub_cancel]
    exact hcounts

end Lawful

/-! ## Removal -/

theorem eraseSlot_perm (left right : List (Node L)) : (eraseSlot left right).Perm (left ++ right) := by
  rw [eraseSlot]
  cases hlast : right.getLast? with
  | none =>
    rw [getLast?_eq_none_iff] at hlast
    rw [hlast, append_nil]
  | some back =>
    have hright : right = right.dropLast ++ [back] := (dropLast_append_getLast? back hlast).symm
    refine List.Perm.append_left left ?_
    conv_rhs => rw [hright]
    exact (perm_append_singleton back right.dropLast).symm

/-- A node without support becomes one with its only child. -/
theorem absorb_spec {ds : List (Node L)} (hsound : Sound v [c]) (hc : (Rose.node c ds).Locally LocalOk)
    (htip : v.tipSupport = 0) {p : Nat} (hp : v.parent = some p) :
    (absorb v p (.node c ds)).Locally LocalOk ∧ contents (absorb v p (.node c ds)) = contents (.node c ds) ∧
      SameFace v (absorb v p (.node c ds)).val ∧ (absorb v p (.node c ds)).val.branchSupport = v.branchSupport := by
  obtain ⟨hstart, hword⟩ := hsound.joined c (by simp)
  have hself := (hsound.linked c (by simp)).2
  obtain ⟨hmstart, hmend, hmledger⟩ := Span.merge_of_le hstart.ge
  have hmword : (v.span.merge c.span).word = c.span.word := by rw [Span.word, hmend, hmledger, Span.word]
  have hvlt := v.span.start_lt_end
  refine ⟨?_, ?_, ⟨fun _ => hself, hp.symm, hmstart, ?_⟩, ?_⟩
  · obtain ⟨⟨hcsound, hctight⟩, hckids⟩ := locally_iff.1 hc
    refine .node ⟨⟨?_, hcsound.sum, hcsound.linked, fun d hd => ?_, hcsound.apart⟩, hctight⟩ hckids
    · simp only [hmend, hmledger]
      exact hcsound.end_le
    · simp only [hmend, hmword]
      exact hcsound.joined d hd
  · rw [absorb, contents_node, contents_node, hmword]
  · simp only [absorb, val_node, hmledger]
    exact upTo_mono hword hvlt
  · have hsum := hsound.sum
    simp only [map_singleton, sum_singleton, htip, zero_add] at hsum
    exact hsum.symm

/-- A node that stands in the place of `n` but for the children of its root, which may be too few. -/
structure Loose (n : Node L) (m : Node L) : Prop where
  val : n.val = m.val
  sound : Sound n.val (n.children.map Rose.val)
  kids : ∀ c ∈ n.children, c.Locally LocalOk
  holds : contents n = contents m

variable {fr : Rose.Frame (Cell L)}

section
variable (hlocal : LocalOk fr.val (fr.left.map Rose.val ++ v :: fr.right.map Rose.val))
  (hsib : ∀ c ∈ fr.left ++ fr.right, c.Locally LocalOk) (htip : v.tipSupport = 0)
include hlocal hsib htip

theorem loose_erase (hsound : Sound v []) : Loose
    (.node fr.val (eraseSlot fr.left fr.right)) (fr.plug (.node v [])) := by
  have hperm := eraseSlot_perm fr.left fr.right
  refine ⟨rfl, Sound.perm ?_ (hperm.map _).symm, fun c hc => hsib c (hperm.mem_iff.1 hc), ?_⟩
  · rw [map_append]
    refine hlocal.1.drop ?_
    rw [hsound.sum, htip]
    rfl
  · rw [contents_plug, contents_node, contents_node, contents_node, htip, (hperm.map _).sum_eq]
    simp

theorem loose_absorb {ds : List (Node L)} (hsound : Sound v [c]) (hc : (Rose.node c ds).Locally LocalOk) :
    Loose (.node fr.val (eraseSlot fr.left (fr.right ++ [absorb v fr.val.self (.node c ds)])))
      (fr.plug (.node v [.node c ds])) := by
  have hparent := (hlocal.1.linked v (by simp)).1
  obtain ⟨hclocal, hcholds, hface, hcbranch⟩ := absorb_spec hsound hc htip hparent
  generalize absorb v fr.val.self (.node c ds) = k at hclocal hcholds hface hcbranch
  have hperm : (eraseSlot fr.left (fr.right ++ [k])).Perm (fr.left ++ k :: fr.right) :=
    (eraseSlot_perm _ _).trans ((perm_append_singleton _ _).append_left _)
  refine ⟨rfl, Sound.perm ?_ (hperm.map _).symm, fun d hd => ?_, ?_⟩
  · rw [map_append, map_cons]
    exact hlocal.1.replace hface (b := fr.val.branchSupport) (by rw [hcbranch])
  · rcases mem_append.1 (hperm.mem_iff.1 hd) with hd | hd
    · exact hsib d (mem_append_left _ hd)
    · rcases mem_cons.1 hd with rfl | hd
      · exact hclocal
      · exact hsib d (mem_append_right _ hd)
  · have hplug := contents_plug ⟨fr.val, fr.left, fr.right⟩ k
    have hv : contents (.node v [.node c ds]) = contents k := by
      rw [contents_node, htip, hcholds]
      simp
    rw [contents_node, (hperm.map _).sum_eq, ← contents_node, contents_plug, hv, ← hplug]
    rfl

end

/-- The last loop of `remove` restores the invariant of a trie that may fail it at one node only, by having too
few children. -/
theorem collapse_spec (hsound : Sound n.val (n.children.map Rose.val)) (hkids : ∀ c ∈ n.children, c.Locally LocalOk)
    (hfits : Rose.Fits LocalOk n.val fs) (hroot : AtRoot (Rose.rebuild fs n).val) :
    ∃ r, collapse 0 fs n = some r ∧ r.Locally LocalOk ∧ AtRoot r.val ∧ contents r = contents (Rose.rebuild fs n) := by
  induction fs generalizing n with
  | nil =>
    have hself : n.val.self = 0 := hroot.self
    refine ⟨n, ?_, locally_iff.2 ⟨⟨hsound, fun hne => absurd hself hne⟩, hkids⟩, hroot, rfl⟩
    rw [collapse, if_neg (fun hc => hc.2 hself)]
  | cons fr fs ih =>
    obtain ⟨hlocal, hsib, habove⟩ := hfits
    obtain ⟨hparent, hself⟩ := hlocal.1.linked n.val (by simp)
    have hdone : Tight n.val (n.children.map val) → (rebuild (fr :: fs) n).Locally LocalOk := fun htight =>
      locally_rebuild.2 ⟨locally_iff.2 ⟨⟨hsound, htight⟩, hkids⟩, hlocal, hsib, habove⟩
    have hup : ∀ p, Loose p (fr.plug n) →
        ∃ r, collapse 0 fs p = some r ∧ r.Locally LocalOk ∧ AtRoot r.val ∧
          contents r = contents (rebuild fs (fr.plug n)) := by
      intro p hp
      have hfits' : Rose.Fits LocalOk p.val fs := hp.val ▸ habove
      obtain ⟨r, hr, hrlocal, hrroot, hrholds⟩ := ih hp.sound hp.kids hfits'
        (rebuild_root_congr (n := fr.plug n) fs (fun h => hp.val ▸ h) hroot)
      exact ⟨r, hr, hrlocal, hrroot, hrholds.trans (gather_rebuild_congr _ fs hp.holds)⟩
    rw [collapse]
    by_cases htip : n.val.tipSupport = 0
    · rw [if_pos ⟨htip, hself⟩, if_pos hparent]
      match n, hsound, hkids, hdone, hup with
      | .node v [], hsound, _, _, hup => exact hup _ (loose_erase hlocal hsib htip hsound)
      | .node v [.node c ds], hsound, hkids, _, hup =>
        exact hup _ (loose_absorb hlocal hsib htip hsound (hkids _ (by simp)))
      | .node v (_ :: _ :: _), _, _, hdone, _ => exact ⟨_, rfl, hdone (fun _ _ => by simp), hroot, rfl⟩
    · rw [if_neg (fun hc => htip hc.1)]
      exact ⟨_, rfl, hdone (fun _ hzero => absurd hzero htip), hroot, rfl⟩

theorem sound_subTip {cs : List (Cell L)} (h : Sound v cs) (hcount : count ≤ v.tipSupport) :
    Sound { v with tipSupport := v.tipSupport - count, branchSupport := v.branchSupport - count } cs where
  __ := h
  sum := by
    have := h.sum
    simp only
    omega

theorem contents_subTip (h : count ≤ n.val.tipSupport) :
    contents n = contents (subTip count n) + Multiset.replicate count n.val.span.word := by
  cases n with
  | node v cs =>
    rw [val_node] at h
    rw [subTip, contents_node, val_node, children_node, contents_node, add_right_comm, ← Multiset.replicate_add,
      Nat.sub_add_cancel h]

/-- Support is taken off up to the root, and empty nodes go. -/
theorem subtract_spec (hlocal : (Rose.rebuild fs n).Locally LocalOk) (hroot : AtRoot (Rose.rebuild fs n).val)
    (hcount : count ≤ n.val.tipSupport) :
    ∃ cur r, updateUp (subBranch count) ⟨subTip count n, fs⟩ = some cur ∧ collapse 0 cur.above cur.node = some r ∧
      r.Locally LocalOk ∧ AtRoot r.val ∧
      contents (Rose.rebuild fs n) = contents r + Multiset.replicate count n.val.span.word := by
  obtain ⟨hn, hfits⟩ := locally_rebuild.1 hlocal
  have hbranch : count ≤ n.val.branchSupport := by
    have := hn.here.1.sum
    omega
  have hfits' : Rose.Fits LocalOk (subTip count n).val fs := fits_congr hfits ⟨id, rfl, rfl, rfl⟩ rfl
  have hroot' : AtRoot (rebuild fs (subTip count n)).val :=
    rebuild_root_congr (n := n) fs (fun hv => ⟨hv.self, hv.parent, hv.ends⟩) hroot
  have hup := updateUp_eq (subBranch count) (c := ⟨subTip count n, fs⟩) hfits' hroot'.parent
  have hshift : Rose.Fits LocalOk (subBranch count (subTip count n).val) (fs.map (mapFrame (subBranch count))) :=
    fits_shift (g := (· - count)) (m := count) (fun x c hm hx => by omega) hfits' ⟨id, rfl, rfl, rfl⟩ rfl hbranch
  obtain ⟨r, hr, hrlocal, hrroot, hrholds⟩ := collapse_spec
    (n := .node (subBranch count (subTip count n).val) (subTip count n).children)
      (sound_subTip hn.here.1 hcount) hn.kids
    hshift (rebuild_root (n := subTip count n) (f := subBranch count) (fun v hv => ⟨hv.self, hv.parent, hv.ends⟩) fs
      (fun hv => ⟨hv.self, hv.parent, hv.ends⟩) hroot')
  refine ⟨_, r, hup, hr, hrlocal, hrroot, ?_⟩
  have hsame : contents (node (subBranch count (subTip count n).val) (subTip count n).children) =
      contents (subTip count n) + 0 := by
    rw [add_zero, subTip, contents_node, contents_node]
    rfl
  rw [hrholds, contents_rebuild_add fs (contents_subTip hcount)]
  have hmap := contents_map_above (g := (· - count)) fs hsame
  rw [add_zero] at hmap
  exact congrArg (· + _) hmap.symm

section Lawful
variable [LawfulLedger L] [DecidableEq ID]

/-- `remove` takes the ledger's word away up to `count` times, and says whether there was any. -/
theorem remove_spec (h : t.Inv) (ledger : L) (count : Nat) :
    ∃ t', t.remove ledger count = some (decide (word ledger ∈ contents t.root), t') ∧ t'.Inv ∧
      contents t'.root = contents t.root - Multiset.replicate count (word ledger) := by
  have hkeep : word ledger ∉ contents t.root →
      contents t.root = contents t.root - Multiset.replicate count (word ledger) := by
    intro hmem
    refine Multiset.ext.2 fun w => ?_
    rw [Multiset.count_sub, Multiset.count_replicate]
    split_ifs with hw
    · rw [← hw, Multiset.count_eq_zero.2 hmem, Nat.zero_sub]
    · rw [Nat.sub_zero]
  rw [remove]
  cases hcur : t.findByLedgerID ledger with
  | none =>
    have hmem := findByLedgerID_none hcur
    exact ⟨t, by simp [hmem], h, hkeep hmem⟩
  | some cur =>
    obtain ⟨hplace, hnode, hword⟩ := h.findByLedgerID_some hcur
    have htipcount : (contents t.root).count (word ledger) = cur.node.val.tipSupport := by
      rw [← h.tipSupport_eq, tipSupport, hcur]
    simp only
    split_ifs with htip
    · have hmem : word ledger ∉ contents t.root := Multiset.count_eq_zero.1 (htipcount.trans htip)
      exact ⟨t, by simp [hmem], h, hkeep hmem⟩
    · have hmem : word ledger ∈ contents t.root := by
        rw [← Multiset.count_pos, htipcount]
        exact Nat.pos_of_ne_zero htip
      obtain ⟨c, r, hup, hr, hrlocal, hrroot, hrholds⟩ := subtract_spec (hplace ▸ h.locally) (hplace ▸ h.atRoot)
        (Nat.min_le_right count cur.node.val.tipSupport)
      rw [hplace, hword] at hrholds
      have hholds : contents r = contents t.root - Multiset.replicate count (word ledger) := by
        refine Multiset.ext.2 fun w => ?_
        have hcount := congrArg (Multiset.count w) hrholds
        rw [Multiset.count_add, Multiset.count_replicate] at hcount
        rw [Multiset.count_sub, Multiset.count_replicate]
        split_ifs at hcount ⊢ with hw
        · subst hw
          omega
        · omega
      refine ⟨⟨r, CountMap.sub t.seqSupport (Ledger.seq ledger) (min count cur.node.val.tipSupport), t.next⟩, ?_,
        ⟨hrlocal, hrroot, ?_, h.next_ne⟩, hholds⟩
      · simp only [hup, hr, h.atRoot.self, Option.bind_eq_bind, Option.bind_some, Option.pure_def, hmem, decide_true]
      · have hcounts := h.counts.sub (Ledger.seq ledger) (min count cur.node.val.tipSupport)
        rw [hrholds, Multiset.map_add, Multiset.map_replicate, length_word, Nat.add_sub_cancel,
          Multiset.add_sub_cancel_right] at hcounts
        exact hcounts

end Lawful

/-! ## `checkInvariants` -/

theorem size_eq (n : Node L) : n.size = 1 + (n.children.map Rose.size).sum := by
  cases n
  rw [size, vals, valsAll_eq, length_cons, length_flatMap, Nat.add_comm]
  rfl

theorem contents_eq (n : Node L) :
    contents n = Multiset.replicate n.val.tipSupport n.val.span.word + (n.children.map contents).sum := by
  cases n
  exact contents_node _ _

/-- The stack loop accepts every node of a consistent trie and adds up the tip supports by sequence number. -/
theorem checkNodes_spec {fuel : Nat} {stack : List (Node L)} {expected : List (Nat × Nat)} {E : Multiset Nat}
    (hstack : ∀ n ∈ stack, n.Locally LocalOk) (hfuel : (stack.map Rose.size).sum ≤ fuel)
    (hexpected : CountMap.Counts expected E) :
    ∃ e, checkNodes 0 fuel stack expected = some e ∧
      CountMap.Counts e (E + (stack.map contents).sum.map (·.length - 1)) := by
  induction fuel generalizing stack expected E with
  | zero =>
    cases stack with
    | nil => exact ⟨expected, rfl, by simpa using hexpected⟩
    | cons n stack =>
      rw [map_cons, sum_cons, size_eq] at hfuel
      omega
  | succ fuel ih =>
    cases stack with
    | nil => exact ⟨expected, rfl, by simpa using hexpected⟩
    | cons n stack =>
      obtain ⟨⟨hsound, htight⟩, hkids⟩ := locally_iff.1 (hstack n mem_cons_self)
      have hthin : ¬ (n.val.self ≠ 0 ∧ n.val.tipSupport = 0 ∧ n.children.length < 2) := by
        rintro ⟨hself, htip, hlt⟩
        have := htight hself htip
        rw [length_map] at this
        omega
      have hlinked : ¬ ∃ child ∈ n.children, child.val.parent ≠ some n.val.self := by
        rintro ⟨c, hc, hne⟩
        exact hne (hsound.linked c.val (mem_map_of_mem hc)).1
      have hsum : n.val.tipSupport + (n.children.map (·.val.branchSupport)).sum = n.val.branchSupport := by
        rw [hsound.sum, map_map]
        rfl
      rw [checkNodes, if_neg hthin, if_neg hlinked, if_neg (not_not.2 hsum)]
      have hstack' : ∀ c ∈ n.children.reverse ++ stack, c.Locally LocalOk := by
        intro c hc
        rcases mem_append.1 hc with hc | hc
        · exact hkids c (mem_reverse.1 hc)
        · exact hstack c (mem_cons_of_mem _ hc)
      have hfuel' : ((n.children.reverse ++ stack).map size).sum ≤ fuel := by
        rw [map_append, sum_append, map_reverse, sum_reverse]
        rw [map_cons, sum_cons, size_eq] at hfuel
        omega
      have hadd : CountMap.Counts
          (if n.val.tipSupport = 0 then expected else CountMap.add expected (n.val.span.end_ - 1) n.val.tipSupport)
          (E + Multiset.replicate n.val.tipSupport (n.val.span.end_ - 1)) := by
        split_ifs with htip
        · rw [htip, Multiset.replicate_zero, add_zero]
          exact hexpected
        · exact hexpected.add _ (Nat.pos_of_ne_zero htip)
      obtain ⟨e, he, hcounts⟩ := ih hstack' hfuel' hadd
      refine ⟨e, he, ?_⟩
      have hall : E + Multiset.replicate n.val.tipSupport (n.val.span.end_ - 1) +
          ((n.children.reverse ++ stack).map contents).sum.map (·.length - 1) =
          E + ((n :: stack).map contents).sum.map (·.length - 1) := by
        rw [map_append, sum_append, map_reverse, sum_reverse, map_cons, sum_cons,
          contents_eq n]
        simp only [Multiset.map_add, Multiset.map_replicate, Span.length_word]
        rw [add_assoc, add_assoc]
      rw [← hall]
      exact hcounts

/-- The invariant is enough for `checkInvariants`. -/
theorem Inv.checkInvariants (h : t.Inv) : t.checkInvariants = true := by
  obtain ⟨e, he, hcounts⟩ := checkNodes_spec
    (show ∀ n ∈ [t.root], n.Locally LocalOk by simpa using h.locally)
    (show _ ≤ t.root.size by simp) CountMap.counts_nil
  have hsame : e = t.seqSupport := by
    refine hcounts.unique ?_
    simpa using h.counts
  rw [LedgerTrie.checkInvariants, h.atRoot.self, he, hsame]
  exact decide_eq_true rfl

end Rippled.Consensus.LedgerTrie
