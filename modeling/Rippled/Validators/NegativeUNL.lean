import Rippled.Validators.Manifest
import Mathlib.Data.Finmap

/-!
# The negative UNL

Validators that are offline for long are put on a list of the ledger, one at a time. `NegativeUNLVote` votes for the
next one before each flag ledger; `Change::applyUNLModify` stores who was voted for in the flag ledger;
`Ledger::updateNegativeUNL` makes it effective in the next flag ledger.

Hash tables are finite sets and maps. A loop over one takes the order from a `Walk`.
-/

namespace Rippled.NegativeUNL

open Lib Validators

abbrev NodeID := BitVec 160
abbrev UInt256 := BitVec 256

/-! ## Ledgers -/

def kFlagLedgerInterval : Nat := 256

def isFlagLedger (seq : UInt32) : Bool := seq.toNat % kFlagLedgerInterval == 0

structure DisabledValidator where
  publicKey : Option Bytes
  firstLedgerSequence : UInt32
  deriving DecidableEq

structure NegativeUNLEntry where
  disabledValidators : Option (List DisabledValidator) := none
  validatorToDisable : Option Bytes := none
  validatorToReEnable : Option Bytes := none
  deriving DecidableEq

/-- What is read of a ledger: `hashes` are those of the last ledgers in its skip list. -/
structure Ledger where
  seq : UInt32
  hash : UInt256
  hashes : Option (List UInt256)
  entry : Option NegativeUNLEntry

def disabled (e : Option NegativeUNLEntry) : List DisabledValidator := (e.bind (·.disabledValidators)).getD []

def toDisable (e : Option NegativeUNLEntry) : Option Bytes := e.bind (·.validatorToDisable)

def toReEnable (e : Option NegativeUNLEntry) : Option Bytes := e.bind (·.validatorToReEnable)

namespace Ledger

def negativeUNL (l : Ledger) : Finset PublicKey :=
  ((disabled l.entry).filterMap fun n => n.publicKey.bind PublicKey.ofSlice).toFinset

def validatorToDisable (l : Ledger) : Option PublicKey := (toDisable l.entry).bind PublicKey.ofSlice

def validatorToReEnable (l : Ledger) : Option PublicKey := (toReEnable l.entry).bind PublicKey.ofSlice

end Ledger

/-- The entry with a new list and nothing pending. Without validators it goes. -/
def withList (newNUnl : List DisabledValidator) : Option NegativeUNLEntry :=
  if newNUnl.isEmpty then none else some ⟨some newNUnl, none, none⟩

/-- `updateNegativeUNL` in the ledger with this sequence. -/
def updateNegativeUNL (seq : UInt32) : Option NegativeUNLEntry → Option NegativeUNLEntry
  | none => none
  | some sle =>
    if sle.validatorToDisable.isNone && sle.validatorToReEnable.isNone then some sle
    else
      let kept := (sle.disabledValidators.getD []).filter fun v =>
        !(sle.validatorToReEnable.isSome && v.publicKey.isSome && v.publicKey == sle.validatorToReEnable)
      withList <| match sle.validatorToDisable with
        | some validator => kept ++ [⟨some validator, seq⟩]
        | none => kept

/-! ## The transaction -/

/-- `ttUNL_MODIFY`. -/
structure UNLModifyTx where
  disabling : Option UInt8
  ledgerSequence : Option UInt32
  validator : Option Bytes
  deriving DecidableEq

def found (e : NegativeUNLEntry) (validator : Bytes) : Bool :=
  (e.disabledValidators.getD []).any fun v => v.publicKey.isSome && v.publicKey == some validator

/-- `applyUNLModify` in the ledger with this sequence. Every failure is `tefFAILURE`. -/
def applyUNLModify (seq : UInt32) (tx : UNLModifyTx) (entry : Option NegativeUNLEntry) : Option NegativeUNLEntry :=
  if !isFlagLedger seq then none
  else
    match tx.disabling, tx.ledgerSequence, tx.validator with
    | some disabling, some txSeq, some validator =>
      if disabling > 1 then none
      else if txSeq ≠ seq then none
      else if !isPublicKey validator then none
      else
        let e := entry.getD {}
        if disabling ≠ 0 then
          if e.validatorToDisable.isSome then none
          else if e.validatorToReEnable = some validator then none
          else if found e validator then none
          else some { e with validatorToDisable := some validator }
        else
          if e.validatorToReEnable.isSome then none
          else if e.validatorToDisable = some validator then none
          else if !found e validator then none
          else some { e with validatorToReEnable := some validator }
    | _, _, _ => none

/-! ## The vote -/

/-- The order in which a hash table with these elements is walked. -/
structure Walk (α : Type) where
  order : Finset α → List α
  nodup : ∀ s, (order s).Nodup
  mem : ∀ s a, a ∈ order s ↔ a ∈ s

/-- The orders of the hash tables of one server. -/
structure Walks where
  keys : Walk PublicKey
  nodes : Walk NodeID

abbrev ScoreTable := Finmap fun _ : NodeID => UInt32

structure NegativeUNLVote where
  myId : NodeID
  newValidators : Finmap fun _ : NodeID => UInt32

def kNegativeUnlLowWaterMark : Nat := kFlagLedgerInterval * 50 / 100
def kNegativeUnlHighWaterMark : Nat := kFlagLedgerInterval * 80 / 100
def kNegativeUnlMinLocalValsToVote : Nat := kFlagLedgerInterval * 90 / 100
def kNewValidatorDisableSkip : Nat := kFlagLedgerInterval * 2

/-- The value of a `size_t` as a `float`, which has 24 binary digits: to nearest, ties to even. -/
def toFloat (n : Nat) : Nat :=
  if n < 16777216 then n
  else
    let dropped := n.log2 - 23
    let kept := n >>> dropped
    let rest := n - kept <<< dropped
    let half := 1 <<< (dropped - 1)
    if rest > half ∨ (rest = half ∧ kept % 2 = 1) then (kept + 1) <<< dropped else kept <<< dropped

/-- `std::ceil(unl.size() * kNegativeUnlMaxListed)`, where the factor is the `float` 0.25. -/
def maxNegativeListed (size : Nat) : Nat := (toFloat size + 3) / 4

structure Candidates where
  toDisableCandidates : List NodeID
  toReEnableCandidates : List NodeID

inductive NegativeUNLModify where
  | toDisable
  | toReEnable
  deriving DecidableEq

namespace NegativeUNLVote

/-- A validator that is no longer new goes. -/
def purge (seq : UInt32) (m : Finmap fun _ : NodeID => UInt32) (n : NodeID) : Finmap fun _ : NodeID => UInt32 :=
  match m.lookup n with
  | some first => if (seq - first).toNat > kNewValidatorDisableSkip then m.erase n else m
  | none => m

def purgeNewValidators (w : Walks) (vote : NegativeUNLVote) (seq : UInt32) : NegativeUNLVote :=
  { vote with newValidators := (w.nodes.order vote.newValidators.keys).foldl (purge seq) vote.newValidators }

/-- One more validation of a validator that has a score. -/
def countValidation (table : ScoreTable) (n : NodeID) : ScoreTable :=
  match table.lookup n with
  | some score => table.insert n (score + 1)
  | none => table

/-- `buildScoreTable`: `getTrustedForLedger` gives the validators with a trusted validation of a ledger. -/
def buildScoreTable (w : Walks) (vote : NegativeUNLVote) (prevLedger : Ledger) (unl : Finset NodeID)
    (getTrustedForLedger : UInt256 → UInt32 → List NodeID) : Option ScoreTable :=
  let seq := prevLedger.seq + 1
  match prevLedger.hashes with
  | none => none
  | some ledgerAncestors =>
    if ledgerAncestors.length < kFlagLedgerInterval then none
    else
      let start : ScoreTable := (w.nodes.order unl).foldl (fun table n => table.insert n 0) ∅
      let table := (List.range kFlagLedgerInterval).foldl (fun table i =>
        let validated := ledgerAncestors.getD (ledgerAncestors.length - 1 - i) 0
        (getTrustedForLedger validated (seq - 2 - UInt32.ofNat i)).foldl countValidation table) start
      let myValidationCount := ((table.lookup vote.myId).getD 0).toNat
      if myValidationCount < kNegativeUnlMinLocalValsToVote then none
      else if myValidationCount > kNegativeUnlMinLocalValsToVote ∧
        myValidationCount ≤ kFlagLedgerInterval then some table
      else none

def findAllCandidates (w : Walks) (vote : NegativeUNLVote) (unl negUnl : Finset NodeID) (scoreTable : ScoreTable) :
    Candidates :=
  let negativeListed := (w.nodes.order unl).countP (· ∈ negUnl)
  let canAdd := decide (negativeListed < maxNegativeListed unl.card)
  let table := w.nodes.order scoreTable.keys
  let score (n : NodeID) := ((scoreTable.lookup n).getD 0).toNat
  let toDisableCandidates := table.filter fun n =>
    canAdd && score n < kNegativeUnlLowWaterMark && n ∉ negUnl && (vote.newValidators.lookup n).isNone
  let toReEnableCandidates := table.filter fun n => score n > kNegativeUnlHighWaterMark && n ∈ negUnl
  { toDisableCandidates
    toReEnableCandidates :=
      if toReEnableCandidates.isEmpty then (w.nodes.order negUnl).filter (· ∉ unl) else toReEnableCandidates }

/-- `choose`, nothing if there are no candidates. The pad is the first 160 bits of the hash. -/
def choose (randomPadData : UInt256) : List NodeID → Option NodeID
  | [] => none
  | c :: candidates =>
    let randomPad : NodeID := randomPadData.extractLsb' 96 160
    some (candidates.foldl (fun txNodeID c => if c ^^^ randomPad < txNodeID ^^^ randomPad then c else txNodeID) c)

def tx (seq : UInt32) (vp : PublicKey) (modify : NegativeUNLModify) : UNLModifyTx :=
  ⟨some (if modify = .toDisable then 1 else 0), some seq, some vp.bytes⟩

/-- The transaction for the candidate that is chosen, if there is one. -/
def addTx (seq : UInt32) (hash : UInt256) (nidToKeyMap : Finmap fun _ : NodeID => PublicKey) (candidates : List NodeID)
    (modify : NegativeUNLModify) : Except String (List UNLModifyTx) :=
  match choose hash candidates with
  | none => .ok []
  | some n =>
    match nidToKeyMap.lookup n with
    | none => .error "map::at"
    | some vp => .ok [tx seq vp modify]

section DoVoting

variable (calcNodeID : PublicKey → NodeID)

/-- `nidToKeyMap.emplace` for each key. -/
def mapKeys (keys : List PublicKey) (m : Finmap fun _ : NodeID => PublicKey) : Finmap fun _ : NodeID => PublicKey :=
  keys.foldl (fun m k => if (m.lookup (calcNodeID k)).isSome then m else m.insert (calcNodeID k) k) m

/-- The list that the ledger after `prevLedger` starts with. -/
def nextNegUnl (prevLedger : Ledger) : Finset PublicKey :=
  let negUnlKeys := match prevLedger.validatorToDisable with
    | some k => insert k prevLedger.negativeUNL
    | none => prevLedger.negativeUNL
  match prevLedger.validatorToReEnable with
  | some k => negUnlKeys.erase k
  | none => negUnlKeys

/-- `doVoting`: the transactions that are added. -/
def doVoting (w : Walks) (vote : NegativeUNLVote) (prevLedger : Ledger) (unlKeys : Finset PublicKey)
    (getTrustedForLedger : UInt256 → UInt32 → List NodeID) : Except String (List UNLModifyTx × NegativeUNLVote) :=
  let unlNodeIDs := unlKeys.image calcNodeID
  match vote.buildScoreTable w prevLedger unlNodeIDs getTrustedForLedger with
  | none => .ok ([], vote)
  | some scoreTable => do
    let negUnlKeys := nextNegUnl prevLedger
    let negUnlNodeIDs := negUnlKeys.image calcNodeID
    let nidToKeyMap := mapKeys calcNodeID (w.keys.order negUnlKeys) (mapKeys calcNodeID (w.keys.order unlKeys) ∅)
    let seq := prevLedger.seq + 1
    let vote := vote.purgeNewValidators w seq
    let candidates := vote.findAllCandidates w unlNodeIDs negUnlNodeIDs scoreTable
    let disable ← addTx seq prevLedger.hash nidToKeyMap candidates.toDisableCandidates .toDisable
    let reEnable ← addTx seq prevLedger.hash nidToKeyMap candidates.toReEnableCandidates .toReEnable
    .ok (disable ++ reEnable, vote)

end DoVoting

end NegativeUNLVote

end Rippled.NegativeUNL
