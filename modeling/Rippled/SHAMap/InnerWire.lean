import Rippled.SHAMap.TreeNode

/-!
# Inner nodes that peers send

The bits of an inner node say which branches are in use, and its hash covers the hashes of the children. The rest of the
code takes it that a branch is in use exactly when its hash is not zero. Both decoders set a bit when they store a hash
that is not zero, and neither ever clears one. In the compressed form a position may come twice, and the second hash may
be zero: the bit then stays, with no hash under it.
-/

namespace Rippled.SHAMap

open Lib Lib.Reader Protocol List Serializer

variable {P : Type}

/-- What the decoders store: a hash for a branch, in this order. -/
abbrev Writes := List (UInt256 × Branch)

/-- The compressed form of an inner node that stores these hashes. -/
def Writes.wire (ws : Writes) : Bytes :=
  ws.flatMap fun w => Serializer.addBitString w.1 ++ Serializer.add8 (UInt8.ofNat w.2)

/-- The hash that is stored last for a branch. -/
def Writes.last (ws : Writes) (i : Branch) : Option UInt256 := (ws.filter (·.2 = i)).getLast?.map Prod.fst

/-- A hash that is not zero is stored for the branch, and a zero is stored last. -/
def Writes.Blanks (ws : Writes) (i : Branch) : Prop := (∃ h, h ≠ 0 ∧ (h, i) ∈ ws) ∧ ws.last i = some 0

/-- The string is a compressed inner node in which a zero comes last for a branch that had a hash before. -/
def Blanked (rawNode : Bytes) : Prop :=
  ∃ (ws : Writes) (i : Branch), rawNode = ws.wire ++ [kWireTypeCompressedInner] ∧ ws.Blanks i

variable {node : SHAMapInnerNode P} {sha512Half : Bytes → UInt256} {data : Bytes}

namespace SHAMapInnerNode

/-- The branches in use are those with a hash (`invariants`). -/
def BranchesMatch (node : SHAMapInnerNode P) : Prop :=
  ∀ i, node.isEmptyBranch i = false ↔ node.getChildHash i ≠ 0

/-- The hash of a branch that is not in use is zero. -/
def UnusedZero (node : SHAMapInnerNode P) : Prop := ∀ i, node.isEmptyBranch i = true → node.getChildHash i = 0

/-! ## Storing hashes -/

theorem isEmptyBranch_readHash (node : SHAMapInnerNode P) (b i : Branch) (h : SHAMapHash) :
    (node.readHash b h).isEmptyBranch i = false ↔ node.isEmptyBranch i = false ∨ (h ≠ 0 ∧ b = i) := by
  unfold readHash isEmptyBranch BaseUInt.isZero
  by_cases hz : h = 0
  · simp [hz]
  · have hbit : (BitVec.twoPow 16 b).getLsbD i = decide (b = i) := by
      rw [BitVec.getLsbD_twoPow]
      simp [Fin.ext_iff]
    simp only [hz, decide_false, Bool.false_eq_true, if_false, BitVec.getLsbD_or, hbit]
    cases node.isBranch.getLsbD i <;> simp [hz]

theorem getChildHash_readHash (node : SHAMapInnerNode P) (b i : Branch) (h : SHAMapHash) :
    (node.readHash b h).getChildHash i = if i = b then h else node.getChildHash i := Function.update_apply ..

def write (node : SHAMapInnerNode P) (ws : Writes) : SHAMapInnerNode P := ws.foldl (fun n w => n.readHash w.2 w.1) node

/-- A branch is in use once a hash that is not zero was stored for it. -/
theorem isEmptyBranch_write (node : SHAMapInnerNode P) (ws : Writes) (i : Branch) :
    (node.write ws).isEmptyBranch i = false ↔ node.isEmptyBranch i = false ∨ ∃ h, h ≠ 0 ∧ (h, i) ∈ ws := by
  induction ws generalizing node with
  | nil => simp [write]
  | cons w ws ih =>
    obtain ⟨h, b⟩ := w
    have hstep : node.write ((h, b) :: ws) = (node.readHash b h).write ws := rfl
    rw [hstep, ih, isEmptyBranch_readHash]
    constructor
    · rintro ((hn | ⟨hz, rfl⟩) | ⟨h', hz, hm⟩)
      · exact .inl hn
      · exact .inr ⟨h, hz, mem_cons_self⟩
      · exact .inr ⟨h', hz, mem_cons_of_mem _ hm⟩
    · rintro (hn | ⟨h', hz, hm⟩)
      · exact .inl (.inl hn)
      · rcases mem_cons.1 hm with heq | hm
        · cases heq
          exact .inl (.inr ⟨hz, rfl⟩)
        · exact .inr ⟨h', hz, hm⟩

/-- The hash that was stored last counts. -/
theorem getChildHash_write (node : SHAMapInnerNode P) (ws : Writes) (i : Branch) :
    (node.write ws).getChildHash i = (ws.last i).getD (node.getChildHash i) := by
  induction ws using reverseRecOn with
  | nil => rfl
  | append_singleton ws w ih =>
    have hstep : node.write (ws ++ [w]) = (node.write ws).readHash w.2 w.1 := by simp [write]
    rw [hstep, getChildHash_readHash, ih]
    unfold Writes.last
    by_cases hb : w.2 = i
    · simp [hb]
    · simp [hb, Ne.symm hb]

variable {ws : Writes}

theorem Writes.mem_of_last {i : Branch} {h : UInt256} (hl : ws.last i = some h) : (h, i) ∈ ws := by
  obtain ⟨w, hw, rfl⟩ := Option.map_eq_some_iff.1 hl
  have hm := mem_filter.1 (mem_of_getLast? hw)
  obtain ⟨h', b⟩ := w
  obtain rfl : b = i := by simpa using hm.2
  exact hm.1

theorem Writes.last_ne_none {i : Branch} {h : UInt256} (hm : (h, i) ∈ ws) : ws.last i ≠ none := by
  intro hn
  have hf : (h, i) ∈ ws.filter (·.2 = i) := mem_filter.2 ⟨hm, by simp⟩
  rw [Writes.last, Option.map_eq_none_iff, getLast?_eq_none_iff] at hn
  rw [hn] at hf
  cases hf

theorem unusedZero_write (ws : Writes) : (write ({ cowid := 0 } : SHAMapInnerNode P) ws).UnusedZero := by
  intro i hi
  rw [getChildHash_write]
  cases hl : ws.last i with
  | none => rfl
  | some h =>
    by_contra hz
    have hbit := (isEmptyBranch_write ({ cowid := 0 } : SHAMapInnerNode P) ws i).2 (.inr ⟨h, hz, Writes.mem_of_last hl⟩)
    rw [hi] at hbit
    cases hbit

/-! ## The decoders store hashes -/

theorem Writes.wire_cons (h : UInt256) (b : Branch) (ws : Writes) :
    Writes.wire ((h, b) :: ws) = Serializer.addBitString h ++ (Serializer.add8 (UInt8.ofNat b) ++ Writes.wire ws) := by
  simp [Writes.wire]

/-- The compressed form says which hashes are stored. -/
theorem Writes.wire_inj {vs : Writes} (h : ws.wire = vs.wire) : ws = vs := by
  induction ws generalizing vs with
  | nil =>
    cases vs with
    | nil => rfl
    | cons v vs => simp [Writes.wire, add8] at h
  | cons w ws ih =>
    cases vs with
    | nil => simp [Writes.wire, add8] at h
    | cons v vs =>
      obtain ⟨h₁, b₁⟩ := w
      obtain ⟨h₂, b₂⟩ := v
      rw [Writes.wire_cons, Writes.wire_cons] at h
      obtain ⟨hhash, htail⟩ := append_inj h (h₁.length_bytes.trans h₂.length_bytes.symm)
      obtain ⟨hpos, hrest⟩ := append_inj htail rfl
      obtain rfl : h₁ = h₂ := BaseUInt.ext hhash
      obtain rfl : b₁ = b₂ := by
        have hnat := congrArg UInt8.toNat (singleton_inj.1 hpos)
        rw [UInt8.toNat_ofNat', UInt8.toNat_ofNat'] at hnat
        exact Fin.ext (by omega)
      rw [ih hrest]

variable {node' : SHAMapInnerNode P}

/-- The loop over the chunks takes the whole string, and stores the hashes that are in it. -/
theorem run_readChunks {n : Nat} {s t : Bytes} (h : (readChunks n node).run s = .ok (node', t))
    (hlen : s.length ≤ 33 * n) : ∃ ws : Writes, s = ws.wire ∧ node' = node.write ws := by
  induction n generalizing node s with
  | zero =>
    cases run_pure_eq_ok.1 h
    obtain rfl := length_eq_zero_iff.1 (Nat.le_zero.1 hlen)
    exact ⟨[], rfl, rfl⟩
  | succ n ih =>
    unfold readChunks at h
    obtain ⟨s', s'', hget, hbody⟩ := run_bind_eq_ok.1 h
    cases hget
    split_ifs at hbody with hempty
    · cases run_pure_eq_ok.1 hbody
      obtain rfl := isEmpty_iff.1 hempty
      exact ⟨[], rfl, rfl⟩
    · obtain ⟨hash, s₁, hhash, hchunk⟩ := run_bind_eq_ok.1 hbody
      obtain ⟨pos, s₂, hpos, hstore⟩ := run_bind_eq_ok.1 hchunk
      rw [SerialIter.run_getBitString_eq_ok] at hhash
      rw [SerialIter.run_get8_eq_ok] at hpos
      subst hhash hpos
      split_ifs at hstore with hlt
      · have hsize : s₂.length ≤ 33 * n := by
          have := hash.length_bytes
          simp [addBitString, add8, this] at hlen
          omega
        obtain ⟨ws, rfl, rfl⟩ := ih hstore hsize
        refine ⟨(hash, ⟨pos.toNat, hlt⟩) :: ws, ?_, rfl⟩
        rw [Writes.wire_cons, UInt8.ofNat_toNat]
      · exact absurd hstore run_throw_ne_ok

/-- The loop over the chunks reads the compressed form. -/
theorem readChunks_wire {n : Nat} (node : SHAMapInnerNode P) (hlen : ws.length ≤ n) :
    (readChunks n node).run ws.wire = .ok (node.write ws, []) := by
  induction n generalizing node ws with
  | zero =>
    obtain rfl := length_eq_zero_iff.1 (Nat.le_zero.1 hlen)
    rfl
  | succ n ih =>
    cases ws with
    | nil => rfl
    | cons w ws =>
      obtain ⟨h, b⟩ := w
      rw [Writes.wire_cons]
      unfold readChunks
      refine run_bind_eq_ok.2 ⟨_, _, rfl, ?_⟩
      rw [if_neg (by simp [add8])]
      refine run_bind_eq_ok.2 ⟨h, _, SerialIter.run_getBitString_eq_ok.2 rfl, ?_⟩
      refine run_bind_eq_ok.2 ⟨UInt8.ofNat b, _, SerialIter.run_get8_eq_ok.2 rfl, ?_⟩
      have hb : (UInt8.ofNat b).toNat = b := UInt8.toNat_ofNat_of_lt' (show b.val < 256 by omega)
      have hfin : (⟨(UInt8.ofNat b).toNat, hb.symm ▸ b.isLt⟩ : Branch) = b := Fin.ext hb
      rw [dif_pos (hb.symm ▸ b.isLt), hfin]
      exact ih _ (Nat.le_of_succ_le_succ hlen)

theorem Writes.length_wire (ws : Writes) : ws.wire.length = 33 * ws.length := by
  induction ws with
  | nil => rfl
  | cons w ws ih =>
    have := w.1.length_bytes
    rw [Writes.wire_cons]
    simp [addBitString, add8, this, ih]
    omega

variable {is : List Branch}

/-- The loop over the branches stores one hash for each. -/
theorem run_foldlM_readHash {s t : Bytes}
    (h : (is.foldlM (fun node i => do return node.readHash i (← SerialIter.getBitString 32)) node :
      SerialIter (SHAMapInnerNode P)).run s = .ok (node', t)) :
    ∃ hs : List UInt256, node' = node.write (hs.zip is) := by
  induction is generalizing node s with
  | nil =>
    cases run_pure_eq_ok.1 h
    exact ⟨[], rfl⟩
  | cons i is ih =>
    rw [foldlM_cons] at h
    obtain ⟨node₁, s₁, hnode, h⟩ := run_bind_eq_ok.1 h
    obtain ⟨hash, s₂, -, hnode⟩ := run_bind_eq_ok.1 hnode
    cases run_pure_eq_ok.1 hnode
    obtain ⟨hs, rfl⟩ := ih h
    exact ⟨hash :: hs, rfl⟩

/-- One hash for each branch leaves nothing to blank. -/
theorem Writes.not_blanks_zip {hs : List UInt256} (hnd : is.Nodup) (i : Branch) : ¬ Writes.Blanks (hs.zip is) i := by
  rintro ⟨⟨h, hz, hm⟩, hlast⟩
  have hm' := Writes.mem_of_last hlast
  obtain ⟨j, hj, hjeq⟩ := getElem_of_mem hm
  obtain ⟨k, hk, hkeq⟩ := getElem_of_mem hm'
  simp only [getElem_zip, Prod.mk.injEq] at hjeq hkeq
  obtain rfl : j = k := (hnd.getElem_inj_iff).1 (hjeq.2.trans hkeq.2.symm)
  exact hz (hjeq.1.symm.trans hkeq.1)

/-! ## Decoded nodes -/

theorem isEmptyBranch_resizeChildArrays (node : SHAMapInnerNode P) (n : Nat) (i : Branch) :
    (node.resizeChildArrays n).isEmptyBranch i = node.isEmptyBranch i := by
  unfold resizeChildArrays
  split_ifs <;> rfl

/-- Giving up unused space loses no hash. -/
theorem getChildHash_resizeChildArrays (hu : node.UnusedZero) (n : Nat) (i : Branch) :
    (node.resizeChildArrays n).getChildHash i = node.getChildHash i := by
  unfold resizeChildArrays
  split_ifs with hn
  · rfl
  · cases hb : node.isBranch.getLsbD i with
    | true => simp only [getChildHash, hb, if_true]
    | false =>
      have hz : node.hashes i = 0 := hu i (by rw [isEmptyBranch, hb]; rfl)
      simp only [getChildHash, hb, hz, Bool.false_eq_true, if_false]

/-- The node that the decoders make of the hashes that they stored. -/
def decoded (sha512Half : Bytes → UInt256) (ws : Writes) : SHAMapInnerNode P :=
  let ret : SHAMapInnerNode P := write { cowid := 0 } ws
  (ret.resizeChildArrays ret.getBranchCount).updateHash sha512Half

section
variable (sha512Half : Bytes → UInt256) (ws : Writes)

theorem isEmptyBranch_decoded (i : Branch) :
    (decoded sha512Half ws : SHAMapInnerNode P).isEmptyBranch i = false ↔ ∃ h, h ≠ 0 ∧ (h, i) ∈ ws := by
  unfold decoded
  rw [show ∀ node : SHAMapInnerNode P, (node.updateHash sha512Half).isEmptyBranch i =
    node.isEmptyBranch i from fun _ => rfl,
    isEmptyBranch_resizeChildArrays, isEmptyBranch_write]
  simp [isEmptyBranch]

theorem getChildHash_decoded (i : Branch) :
    (decoded sha512Half ws : SHAMapInnerNode P).getChildHash i = (ws.last i).getD 0 := by
  unfold decoded
  rw [show ∀ node : SHAMapInnerNode P, (node.updateHash sha512Half).getChildHash i =
    node.getChildHash i from fun _ => rfl,
    getChildHash_resizeChildArrays (unusedZero_write ws), getChildHash_write]
  rfl

/-- The node has the right bits, unless a zero was stored over one of the hashes. -/
theorem branchesMatch_decoded : (decoded sha512Half ws : SHAMapInnerNode P).BranchesMatch ↔ ∀ i, ¬ ws.Blanks i := by
  unfold BranchesMatch Writes.Blanks
  refine forall_congr' fun i => ?_
  rw [isEmptyBranch_decoded, getChildHash_decoded]
  constructor
  · rintro hiff ⟨hex, hlast⟩
    exact hiff.1 hex (by rw [hlast]; rfl)
  · intro hno
    constructor
    · rintro ⟨h, hz, hm⟩
      cases hl : ws.last i with
      | none => exact absurd hl (Writes.last_ne_none hm)
      | some h' =>
        rintro rfl
        exact hno ⟨⟨h, hz, hm⟩, hl⟩
    · intro hz
      cases hl : ws.last i with
      | none => rw [hl] at hz; exact absurd rfl hz
      | some h => rw [hl] at hz; exact ⟨h, hz, Writes.mem_of_last hl⟩

/-- What is hashed depends on the last hashes only. -/
theorem serializeWithPrefix_decoded_congr (vs : Writes)
    (h : ∀ i, (ws.last i).getD 0 = (vs.last i).getD 0) :
    (decoded sha512Half ws : SHAMapInnerNode P).serializeWithPrefix =
      (decoded sha512Half vs : SHAMapInnerNode P).serializeWithPrefix := by
  unfold serializeWithPrefix childHashes
  simp only [getChildHash_decoded, h]

theorem hash_decoded :
    (decoded sha512Half ws : SHAMapInnerNode P).hash =
      if (decoded sha512Half ws : SHAMapInnerNode P).isBranch = 0 then 0
      else sha512Half (decoded sha512Half ws : SHAMapInnerNode P).serializeWithPrefix := rfl

end

/-- What the full form decodes to. -/
theorem makeFullInner_eq_ok (h : makeFullInner sha512Half data 0 false = .ok node) :
    ∃ ws : Writes, (∀ i, ¬ ws.Blanks i) ∧ node = decoded sha512Half ws := by
  unfold makeFullInner at h
  by_cases hlen : data.length = 16 * 32
  swap
  · rw [if_pos hlen] at h; cases h
  rw [if_neg (not_not.2 hlen)] at h
  cases hrun : (readHashes ({ cowid := 0 } : SHAMapInnerNode P)).run data with
  | error e => rw [hrun] at h; cases h
  | ok r =>
    obtain ⟨ret, t⟩ := r
    rw [hrun] at h
    cases h
    obtain ⟨hs, rfl⟩ := run_foldlM_readHash hrun
    exact ⟨_, Writes.not_blanks_zip (nodup_finRange 16), rfl⟩

/-- What the compressed form decodes to. -/
theorem makeCompressedInner_eq_ok (h : makeCompressedInner sha512Half data = .ok node) :
    ∃ ws : Writes, data = ws.wire ∧ node = decoded sha512Half ws := by
  unfold makeCompressedInner at h
  split_ifs at h with hlen
  cases hrun : (readChunks 16 ({ cowid := 0 } : SHAMapInnerNode P)).run data with
  | error e => rw [hrun] at h; cases h
  | ok r =>
    obtain ⟨ret, t⟩ := r
    rw [hrun] at h
    cases h
    obtain ⟨ws, rfl, rfl⟩ := run_readChunks hrun (by omega)
    exact ⟨ws, rfl, rfl⟩

theorem flatMap_addBitString_inj {f g : Branch → UInt256}
    (h : is.flatMap (fun i => Serializer.addBitString (f i)) = is.flatMap fun i => Serializer.addBitString (g i)) :
    ∀ i ∈ is, f i = g i := by
  induction is with
  | nil => simp
  | cons j is ih =>
    rw [flatMap_cons, flatMap_cons] at h
    obtain ⟨hj, hrest⟩ := append_inj h ((f j).length_bytes.trans (g j).length_bytes.symm)
    intro i hi
    rcases mem_cons.1 hi with rfl | hi
    · exact BaseUInt.ext hj
    · exact ih hrest i hi

/-- What is hashed for an inner node determines the hashes of its children. -/
theorem getChildHash_of_serializeWithPrefix_eq (h : node.serializeWithPrefix = node'.serializeWithPrefix) (i : Branch) :
    node.getChildHash i = node'.getChildHash i :=
  flatMap_addBitString_inj (append_cancel_left h) i (mem_finRange i)

/-- No bit is set exactly if every branch is empty. -/
theorem isBranch_eq_zero_iff (node : SHAMapInnerNode P) : node.isBranch = 0 ↔ ∀ i, node.isEmptyBranch i = true := by
  unfold isEmptyBranch
  constructor
  · intro h i; simp [h]
  · intro h
    refine BitVec.eq_of_getLsbD_eq fun i hi => ?_
    have := h ⟨i, hi⟩
    simpa using this

/-- The hash function does not give the same hash to the two nodes unless it is given the same bytes, and gives neither
of them the zero hash, which stands for an empty node. -/
structure Distinguishes (sha512Half : Bytes → UInt256) (node node' : SHAMapInnerNode P) : Prop where
  inj : sha512Half node.serializeWithPrefix = sha512Half node'.serializeWithPrefix →
    node.serializeWithPrefix = node'.serializeWithPrefix
  ne_zero : sha512Half node.serializeWithPrefix ≠ 0
  ne_zero' : sha512Half node'.serializeWithPrefix ≠ 0

/-- Nodes with the same hash have the same branches in use, if their bits are right. -/
theorem isEmptyBranch_of_hash_eq {ws' : Writes} (hm : (decoded sha512Half ws : SHAMapInnerNode P).BranchesMatch)
    (hm' : (decoded sha512Half ws' : SHAMapInnerNode P).BranchesMatch)
    (hd : Distinguishes sha512Half (decoded sha512Half ws : SHAMapInnerNode P) (decoded sha512Half ws'))
    (heq : (decoded sha512Half ws : SHAMapInnerNode P).hash = (decoded sha512Half ws' : SHAMapInnerNode P).hash)
    (i : Branch) : (decoded sha512Half ws : SHAMapInnerNode P).isEmptyBranch i =
      (decoded sha512Half ws' : SHAMapInnerNode P).isEmptyBranch i := by
  rw [hash_decoded, hash_decoded] at heq
  split_ifs at heq with hz hz' hz'
  · rw [(isBranch_eq_zero_iff _).1 hz i, (isBranch_eq_zero_iff _).1 hz' i]
  · exact absurd heq.symm hd.ne_zero'
  · exact absurd heq hd.ne_zero
  · have hhash := getChildHash_of_serializeWithPrefix_eq (hd.inj heq) i
    rw [Bool.eq_iff_iff, ← not_iff_not, Bool.not_eq_true, Bool.not_eq_true, hm i, hm' i, hhash]

end SHAMapInnerNode

namespace SHAMapTreeNode

open SHAMapInnerNode

variable {hash : SHAMapHash} {hashValid : Bool}

theorem readLeaf_ne_inner {type : SHAMapLeafType} {item : SHAMapItem} :
    readLeaf sha512Half type item hash hashValid ≠ .inner node := by
  unfold readLeaf
  split_ifs <;> simp

theorem makeTransaction_ne_inner : makeTransaction sha512Half data hash hashValid ≠ .ok (.inner node) := by
  unfold makeTransaction
  split_ifs
  · simp
  · exact fun h => readLeaf_ne_inner (Except.ok.inj h)

theorem makeTransactionWithMeta_ne_inner :
    makeTransactionWithMeta sha512Half data hash hashValid ≠ .ok (.inner node) := by
  unfold makeTransactionWithMeta
  cases readTag "TXN+MD" data with
  | error e => simp [bind, Except.bind]
  | ok tag =>
    simp only [bind, Except.bind]
    split_ifs
    · intro h; cases h
    · exact fun h => readLeaf_ne_inner (Except.ok.inj h)

theorem makeAccountState_ne_inner : makeAccountState sha512Half data hash hashValid ≠ .ok (.inner node) := by
  unfold makeAccountState
  cases readTag "AS" data with
  | error e => simp [bind, Except.bind]
  | ok tag =>
    simp only [bind, Except.bind]
    split_ifs
    · intro h; cases h
    · intro h; cases h
    · exact fun h => readLeaf_ne_inner (Except.ok.inj h)

theorem map_eq_ok {ε α β : Type} {f : α → β} {x : Except ε α} {b : β} (h : f <$> x = .ok b) :
    ∃ a, x = .ok a ∧ f a = b := by
  cases x with
  | error e => cases h
  | ok a => exact ⟨a, rfl, Except.ok.inj h⟩

section
variable {rawNode : Bytes} (h : makeFromWire sha512Half rawNode = .ok (some (.inner node)))
include h

/-- An inner node comes from one of its two forms. -/
theorem makeFromWire_eq_inner :
    (∃ data, rawNode = data ++ [kWireTypeInner] ∧ makeFullInner sha512Half data 0 false = .ok node) ∨
      ∃ data, rawNode = data ++ [kWireTypeCompressedInner] ∧ makeCompressedInner sha512Half data = .ok node := by
  unfold makeFromWire at h
  cases hlast : rawNode.getLast? with
  | none => rw [hlast] at h; cases h
  | some type =>
    have hraw : rawNode = rawNode.dropLast ++ [type] := (dropLast_append_getLast? type hlast).symm
    rw [hlast] at h
    dsimp only at h
    split_ifs at h with h₀ h₁ h₂ h₃ h₄
    · obtain ⟨n, hn, heq⟩ := map_eq_ok h
      cases heq
      exact absurd hn makeTransaction_ne_inner
    · obtain ⟨n, hn, heq⟩ := map_eq_ok h
      cases heq
      exact absurd hn makeAccountState_ne_inner
    · obtain ⟨n, hn, heq⟩ := map_eq_ok h
      cases heq
      exact .inl ⟨_, h₂ ▸ hraw, hn⟩
    · obtain ⟨n, hn, heq⟩ := map_eq_ok h
      cases heq
      exact .inr ⟨_, h₃ ▸ hraw, hn⟩
    · obtain ⟨n, hn, heq⟩ := map_eq_ok h
      cases heq
      exact absurd hn makeTransactionWithMeta_ne_inner

/-- An inner node that is accepted is made of the hashes that its encoding stores. -/
theorem makeFromWire_eq_decoded : ∃ ws : Writes, node = decoded sha512Half ws ∧
    (Blanked rawNode ↔ ∃ i, ws.Blanks i) := by
  rcases makeFromWire_eq_inner h with ⟨data, rfl, hnode⟩ | ⟨data, rfl, hnode⟩
  · obtain ⟨ws, hno, rfl⟩ := makeFullInner_eq_ok hnode
    refine ⟨ws, rfl, ?_, fun ⟨i, hi⟩ => absurd hi (hno i)⟩
    rintro ⟨vs, i, heq, -⟩
    have htype := append_inj_right' heq rfl
    exact absurd htype (by decide)
  · obtain ⟨ws, rfl, rfl⟩ := makeCompressedInner_eq_ok hnode
    refine ⟨ws, rfl, ?_, fun ⟨i, hi⟩ => ⟨ws, i, rfl, hi⟩⟩
    rintro ⟨vs, i, heq, hi⟩
    have hws : ws = vs := Writes.wire_inj (append_inj_left' heq rfl)
    exact ⟨i, hws ▸ hi⟩

end

/-- At most sixteen chunks are accepted, whatever they store. -/
theorem makeFromWire_wire (sha512Half : Bytes → UInt256) (ws : Writes) (hlen : ws.length ≤ 16) :
    makeFromWire sha512Half (ws.wire ++ [kWireTypeCompressedInner]) =
      .ok (some (.inner (decoded sha512Half ws : SHAMapInnerNode P))) := by
  have hinner : makeCompressedInner sha512Half ws.wire = .ok (decoded sha512Half ws : SHAMapInnerNode P) := by
    unfold makeCompressedInner
    rw [if_neg (by rw [Writes.length_wire]; omega), readChunks_wire _ hlen]
    rfl
  unfold makeFromWire
  rw [getLast?_concat, dropLast_concat]
  dsimp only
  rw [if_neg (by decide), if_neg (by decide), if_neg (by decide), if_pos rfl, hinner]
  rfl

def oneHash : UInt256 := ⟨List.replicate 31 0 ++ [1], rfl⟩

/-- The bits of an inner node that is accepted from a peer agree with its hashes exactly when no zero hash was stored
over another hash. Two such nodes with the same hash have the same branches in use. -/
theorem wire_branches_match (sha512Half : Bytes → UInt256) :
    (∀ (rawNode : Bytes) (node : SHAMapInnerNode P), makeFromWire sha512Half rawNode = .ok (some (.inner node)) →
      (node.BranchesMatch ↔ ¬ Blanked rawNode)) ∧
    ∀ (rawNode rawNode' : Bytes) (node node' : SHAMapInnerNode P),
      makeFromWire sha512Half rawNode = .ok (some (.inner node)) →
      makeFromWire sha512Half rawNode' = .ok (some (.inner node')) →
      ¬ Blanked rawNode → ¬ Blanked rawNode' → Distinguishes sha512Half node node' → node.hash = node'.hash →
      ∀ i, node.isEmptyBranch i = node'.isEmptyBranch i := by
  have hmatch : ∀ (rawNode : Bytes) (node : SHAMapInnerNode P),
      makeFromWire sha512Half rawNode = .ok (some (.inner node)) → (node.BranchesMatch ↔ ¬ Blanked rawNode) := by
    intro rawNode node h
    obtain ⟨ws, rfl, hblank⟩ := makeFromWire_eq_decoded h
    rw [branchesMatch_decoded, hblank, not_exists]
  refine ⟨hmatch, fun rawNode rawNode' node node' h h' hb hb' hd heq i => ?_⟩
  have hm := (hmatch rawNode node h).2 hb
  have hm' := (hmatch rawNode' node' h').2 hb'
  obtain ⟨ws, rfl, -⟩ := makeFromWire_eq_decoded h
  obtain ⟨ws', rfl, -⟩ := makeFromWire_eq_decoded h'
  exact isEmptyBranch_of_hash_eq hm hm' hd heq i

/-- A zero before the hash of a branch does no harm: the node has the branch in use, like a node from the one chunk. -/
theorem wire_branches_match_zero_first :
    (decoded (fun _ => oneHash) [(0, 0), (oneHash, 0)] : SHAMapInnerNode Unit).BranchesMatch ∧
    ∀ i, (decoded (fun _ => oneHash) [(0, 0), (oneHash, 0)] : SHAMapInnerNode Unit).isEmptyBranch i =
      (decoded (fun _ => oneHash) [(oneHash, 0)] : SHAMapInnerNode Unit).isEmptyBranch i := by
  have hone : ∀ {ws : Writes}, (∀ i, ws.last i ≠ some 0) → ¬ Blanked (ws.wire ++ [kWireTypeCompressedInner]) := by
    rintro ws hws ⟨vs, i, heq, hi⟩
    rw [Writes.wire_inj (append_inj_left' heq rfl)] at hws
    exact hws i hi.2
  have hb : ¬ Blanked (Writes.wire [(0, 0), (oneHash, 0)] ++ [kWireTypeCompressedInner]) := hone (by decide)
  have hb' : ¬ Blanked (Writes.wire [(oneHash, 0)] ++ [kWireTypeCompressedInner]) := hone (by decide)
  have hacc := makeFromWire_wire (P := Unit) (fun _ => oneHash) [(0, 0), (oneHash, 0)] (by decide)
  have hacc' := makeFromWire_wire (P := Unit) (fun _ => oneHash) [(oneHash, 0)] (by decide)
  have hbytes := serializeWithPrefix_decoded_congr (P := Unit) (fun _ => oneHash) [(0, 0), (oneHash, 0)] [(oneHash, 0)]
    (by decide)
  exact ⟨((wire_branches_match _).1 _ _ hacc).2 hb,
    (wire_branches_match _).2 _ _ _ _ hacc hacc' hb hb' ⟨fun _ => hbytes, by decide, by decide⟩ (by decide)⟩

/-- Three chunks, the last of which stores a zero over the hash of branch 1, are accepted: the branch is then in use
with no hash, and the node has the same hash as one in which the branch is not in use, whatever the hash function is.
-/
theorem blanked_node_accepted : oneHash ≠ 0 ∧ ∀ sha512Half : Bytes → UInt256, ∃ node node' : SHAMapInnerNode Unit,
    makeFromWire sha512Half (Writes.wire [(oneHash, 0), (oneHash, 1), (0, 1)] ++ [kWireTypeCompressedInner]) =
      .ok (some (.inner node)) ∧
    makeFromWire sha512Half (Writes.wire [(oneHash, 0)] ++ [kWireTypeCompressedInner]) = .ok (some (.inner node')) ∧
    node.isEmptyBranch 1 = false ∧ node.getChildHash 1 = 0 ∧ node.hash = node'.hash ∧ node'.isEmptyBranch 1 = true := by
  refine ⟨by decide, fun sha512Half => ?_⟩
  have hused :
      (decoded sha512Half [(oneHash, 0), (oneHash, 1), (0, 1)] : SHAMapInnerNode Unit).isEmptyBranch 1 = false :=
    (isEmptyBranch_decoded ..).2 ⟨oneHash, by decide, by decide⟩
  have hused' : (decoded sha512Half [(oneHash, 0)] : SHAMapInnerNode Unit).isEmptyBranch 0 = false :=
    (isEmptyBranch_decoded ..).2 ⟨oneHash, by decide, by decide⟩
  have hunused : (decoded sha512Half [(oneHash, 0)] : SHAMapInnerNode Unit).isEmptyBranch 1 = true := by
    rw [← Bool.not_eq_false, isEmptyBranch_decoded]
    rintro ⟨h, -, hm⟩
    cases congrArg Prod.snd (mem_singleton.1 hm)
  refine ⟨_, _, makeFromWire_wire _ _ (by decide), makeFromWire_wire _ _ (by decide), hused, ?_, ?_, hunused⟩
  · rw [getChildHash_decoded]; decide
  · have hbytes := serializeWithPrefix_decoded_congr (P := Unit) sha512Half [(oneHash, 0), (oneHash, 1), (0, 1)]
      [(oneHash, 0)] (by decide)
    rw [hash_decoded, hash_decoded, if_neg, if_neg, hbytes]
    · intro hz
      rw [(isBranch_eq_zero_iff _).1 hz] at hused'
      cases hused'
    · intro hz
      rw [(isBranch_eq_zero_iff _).1 hz] at hused
      cases hused

end SHAMapTreeNode

end Rippled.SHAMap
