import Mathlib.Data.Fin.VecNotation
import Mathlib.Data.Fintype.Basic
import Rippled.Protocol.Serializer

/-!
# The nodes of a SHAMap

A node is an inner node with sixteen branches or a leaf with one item (`SHAMapInnerNode`, `SHAMapLeafNode` and its three
kinds). This module has their hashes, the encodings that are hashed and stored, and the constructors that read what a
peer sent. An inner node keeps for each branch a bit that says whether the branch is in use, the hash of the child, and
the child itself when it is in memory. The source packs these in an array of 2, 4, 6 or 16 entries (`TaggedPointer`);
here they are the sixteen entries that the array stands for. `P` is the type of pointers to nodes, and `sha512Half` the
hash function.
-/

namespace Rippled.SHAMap

open Lib Protocol

abbrev SHAMapHash := UInt256

/-- A branch of an inner node, below `kBranchFactor`. -/
abbrev Branch := Fin 16

def kMinShaMapItemBytes : Nat := 12

def kWireTypeTransaction : UInt8 := 0
def kWireTypeAccountState : UInt8 := 1
def kWireTypeInner : UInt8 := 2
def kWireTypeCompressedInner : UInt8 := 3
def kWireTypeTransactionWithMeta : UInt8 := 4

/-- What is put in front of the bytes that are hashed. -/
inductive HashPrefix where
  | transactionId
  | txNode
  | leafNode
  | innerNode
  deriving DecidableEq

def HashPrefix.value : HashPrefix → UInt32
  | .transactionId => 0x54584E00
  | .txNode => 0x534E4400
  | .leafNode => 0x4D4C4E00
  | .innerNode => 0x4D494E00

structure SHAMapItem where
  key : UInt256
  data : Bytes
  deriving DecidableEq

inductive SHAMapLeafType where
  | transactionNm
  | transactionMd
  | accountState
  deriving DecidableEq

structure SHAMapLeafNode where
  type : SHAMapLeafType
  item : SHAMapItem
  cowid : UInt32
  hash : SHAMapHash
  deriving DecidableEq

structure SHAMapInnerNode (P : Type) where
  cowid : UInt32
  hash : SHAMapHash := 0
  fullBelowGen : UInt32 := 0
  isBranch : BitVec 16 := 0
  hashes : Branch → SHAMapHash := fun _ => 0
  children : Branch → Option P := fun _ => none
  deriving DecidableEq

inductive SHAMapTreeNode (P : Type) where
  | inner (node : SHAMapInnerNode P)
  | leaf (node : SHAMapLeafNode)
  deriving DecidableEq

variable {P : Type}

/-! ## Leaves -/

namespace SHAMapLeafNode

/-- The bytes that are hashed and stored. -/
def serializeWithPrefix (type : SHAMapLeafType) (item : SHAMapItem) : Bytes :=
  match type with
  | .transactionNm => Serializer.add32 HashPrefix.transactionId.value ++ item.data
  | .transactionMd => Serializer.add32 HashPrefix.txNode.value ++ item.data ++ Serializer.addBitString item.key
  | .accountState => Serializer.add32 HashPrefix.leafNode.value ++ item.data ++ Serializer.addBitString item.key

variable (sha512Half : Bytes → UInt256)

def updateHash (node : SHAMapLeafNode) : SHAMapLeafNode :=
  { node with hash := sha512Half (serializeWithPrefix node.type node.item) }

/-- A new leaf, with its hash (`makeTypedLeaf`). -/
def make (type : SHAMapLeafType) (item : SHAMapItem) (cowid : UInt32) : SHAMapLeafNode :=
  updateHash sha512Half ⟨type, item, cowid, 0⟩

end SHAMapLeafNode

/-! ## Inner nodes -/

namespace SHAMapInnerNode

variable (node : SHAMapInnerNode P)

def isEmptyBranch (branch : Branch) : Bool := !node.isBranch.getLsbD branch

def getBranchCount : Nat := (List.finRange 16).countP fun i : Branch => node.isBranch.getLsbD i

def getChildHash (branch : Branch) : SHAMapHash := node.hashes branch

/-- The size of the array that is allocated for a number of children. -/
def numAllocatedChildren (n : Nat) : Nat := if n ≤ 2 then 2 else if n ≤ 4 then 4 else if n ≤ 6 then 6 else 16

/-- An array of sixteen entries made as small as its children allow: only an array of sixteen has entries for the
branches that are not in use. -/
def resizeChildArrays (toAllocate : Nat) : SHAMapInnerNode P :=
  if numAllocatedChildren toAllocate = 16 then node
  else
    { node with
      hashes := fun i => if node.isBranch.getLsbD i then node.hashes i else 0
      children := fun i => if node.isBranch.getLsbD i then node.children i else none }

/-- The hashes of all sixteen branches, with zero for a branch that is not in use. -/
def childHashes : Bytes :=
  (List.finRange 16).flatMap fun i => Serializer.addBitString (node.getChildHash i)

/-- The bytes that are hashed and stored. -/
def serializeWithPrefix : Bytes :=
  Serializer.add32 HashPrefix.innerNode.value ++ node.childHashes

/-- A hash is stored for a branch, and the branch is in use if it is not zero. -/
def readHash (branch : Branch) (hash : SHAMapHash) : SHAMapInnerNode P :=
  { node with
    hashes := Function.update node.hashes branch hash
    isBranch := if hash.isZero then node.isBranch else node.isBranch ||| BitVec.twoPow 16 branch }

def readHashes : SerialIter (SHAMapInnerNode P) :=
  (List.finRange 16).foldlM (fun node i => do return node.readHash i (← SerialIter.getBitString 32)) node

/-- The loop of `makeCompressedInner`, with the number of chunks that are left at most. -/
def readChunks : Nat → SHAMapInnerNode P → SerialIter (SHAMapInnerNode P)
  | 0, node => return node
  | n + 1, node => do
    if (← get).isEmpty then return node
    else
      let hash ← SerialIter.getBitString 32
      let pos ← SerialIter.get8
      if h : pos.toNat < 16 then readChunks n (node.readHash ⟨pos.toNat, h⟩ hash)
      else throw (.runtimeError "invalid CI node")

variable (sha512Half : Bytes → UInt256)

def updateHash (node : SHAMapInnerNode P) : SHAMapInnerNode P :=
  { node with hash := if node.isBranch = 0 then 0 else sha512Half node.serializeWithPrefix }

def makeFullInner (data : Bytes) (hash : SHAMapHash) (hashValid : Bool) : Except Exception (SHAMapInnerNode P) :=
  if data.length ≠ 16 * 32 then .error (.runtimeError "Invalid FI node")
  else do
    let (ret, _) ← (readHashes { cowid := 0 }).run data
    let ret := ret.resizeChildArrays ret.getBranchCount
    return if hashValid then { ret with hash := hash } else ret.updateHash sha512Half

def makeCompressedInner (data : Bytes) : Except Exception (SHAMapInnerNode P) :=
  if data.length % 33 ≠ 0 ∨ 33 * 16 < data.length then .error (.runtimeError "Invalid CI node")
  else do
    let (ret, _) ← (readChunks 16 { cowid := 0 }).run data
    let ret := ret.resizeChildArrays ret.getBranchCount
    return ret.updateHash sha512Half

end SHAMapInnerNode

/-! ## Nodes from their encodings -/

namespace SHAMapTreeNode

variable (sha512Half : Bytes → UInt256)

/-- A leaf that was read, with the hash it is known to have or else its own. -/
def readLeaf (type : SHAMapLeafType) (item : SHAMapItem) (hash : SHAMapHash) (hashValid : Bool) : SHAMapTreeNode P :=
  if hashValid then .leaf ⟨type, item, 0, hash⟩ else .leaf (SHAMapLeafNode.make sha512Half type item 0)

def makeTransaction (data : Bytes) (hash : SHAMapHash) (hashValid : Bool) : Except Exception (SHAMapTreeNode P) :=
  if data.length < kMinShaMapItemBytes then
    .error (.runtimeError s!"Short TXN node: {data.length} bytes (minimum {kMinShaMapItemBytes} required)")
  else
    let key := sha512Half (Serializer.add32 HashPrefix.transactionId.value ++ data)
    .ok (readLeaf sha512Half .transactionNm ⟨key, data⟩ hash hashValid)

/-- The key at the end of the data of a leaf, which must be there. -/
def readTag (name : String) (data : Bytes) : Except Exception UInt256 :=
  if h : data.length < 32 then
    .error (.runtimeError s!"Short {name} node: {data.length} bytes (minimum 32 required for tag)")
  else .ok ⟨data.drop (data.length - 32), by simp; omega⟩

def shortAfterTag (name : String) (data : Bytes) : Exception :=
  .runtimeError
    s!"Short {name} node: {data.length} bytes after tag removal (minimum {kMinShaMapItemBytes} required)"

def makeTransactionWithMeta (data : Bytes) (hash : SHAMapHash) (hashValid : Bool) :
    Except Exception (SHAMapTreeNode P) := do
  let tag ← readTag "TXN+MD" data
  let s := data.take (data.length - 32)
  if s.length < kMinShaMapItemBytes then throw (shortAfterTag "TXN+MD" s)
  else return readLeaf sha512Half .transactionMd ⟨tag, s⟩ hash hashValid

def makeAccountState (data : Bytes) (hash : SHAMapHash) (hashValid : Bool) :
    Except Exception (SHAMapTreeNode P) := do
  let tag ← readTag "AS" data
  let s := data.take (data.length - 32)
  if tag.isZero then throw (.runtimeError "Invalid AS node")
  else if s.length < kMinShaMapItemBytes then throw (shortAfterTag "AS" s)
  else return readLeaf sha512Half .accountState ⟨tag, s⟩ hash hashValid

/-- The node that a peer sent; no node for an empty string. -/
def makeFromWire (rawNode : Bytes) : Except Exception (Option (SHAMapTreeNode P)) :=
  match rawNode.getLast? with
  | none => .ok none
  | some type =>
    let rawNode := rawNode.dropLast
    if type = kWireTypeTransaction then some <$> makeTransaction sha512Half rawNode 0 false
    else if type = kWireTypeAccountState then some <$> makeAccountState sha512Half rawNode 0 false
    else if type = kWireTypeInner then
      (some ∘ .inner) <$> SHAMapInnerNode.makeFullInner sha512Half rawNode 0 false
    else if type = kWireTypeCompressedInner then
      (some ∘ .inner) <$> SHAMapInnerNode.makeCompressedInner sha512Half rawNode
    else if type = kWireTypeTransactionWithMeta then some <$> makeTransactionWithMeta sha512Half rawNode 0 false
    else .error (.runtimeError s!"wire: Unknown type ({type.toNat})")

end SHAMapTreeNode

end Rippled.SHAMap
