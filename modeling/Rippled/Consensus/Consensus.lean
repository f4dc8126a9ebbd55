import Rippled.Consensus.DisputedTx
import Rippled.Lib.CountMap

/-!
# Consensus

The generic consensus algorithm (`Consensus.h`, `Consensus.cpp`): peers propose transaction sets on top of a ledger,
transactions on which sets differ are disputed, and our own set follows the votes until enough of the peers agree.

The types of the adaptor are the fields of `Traits`. What the adaptor does is a function of its state, which every
call may change; what it is told (proposals, transactions and sets to share, changes of mode, accepted ledgers) is an
`Event`. Calls of the adaptor are not reentrant. A peer's position is modelled by the proposal in it. Network times
are in seconds, all others in milliseconds.
-/

namespace Rippled.Consensus

open Lib

/-- The types that the adaptor brings. -/
structure Traits where
  NodeID : Type
  LedgerID : Type
  Ledger : Type
  TxSetID : Type
  TxSet : Type
  Tx : Type
  TxID : Type

/-- Sets of transactions. `compare` lists the transactions in one set only, with whether that is the first. -/
class TxSets (X : Traits) where
  txId : X.Tx → X.TxID
  id : X.TxSet → X.TxSetID
  find : X.TxSet → X.TxID → Option X.Tx
  compare : X.TxSet → X.TxSet → List (X.TxID × Bool)
  insert : X.Tx → X.TxSet → X.TxSet
  erase : X.TxID → X.TxSet → X.TxSet

def TxSets.exists_ {X : Traits} [TxSets X] (set : X.TxSet) (txID : X.TxID) : Bool := (TxSets.find set txID).isSome

class Ledgers (X : Traits) where
  id : X.Ledger → X.LedgerID
  seq : X.Ledger → Nat
  closeTime : X.Ledger → Int
  closeTimeResolution : X.Ledger → Int
  closeAgree : X.Ledger → Bool
  parentCloseTime : X.Ledger → Int

/-! ## Proposals and results -/

/-- `ConsensusProposal` -/
structure Proposal (X : Traits) where
  prevLedger : X.LedgerID
  position : X.TxSetID
  closeTime : Int
  time : Int
  proposeSeq : Nat
  nodeID : X.NodeID

namespace Proposal

def seqJoin : Nat := 0

def seqLeave : Nat := 0xffffffff

variable {X : Traits}

def isInitial (p : Proposal X) : Bool := p.proposeSeq = seqJoin

def isBowOut (p : Proposal X) : Bool := p.proposeSeq = seqLeave

def isStale (p : Proposal X) (cutoff : Int) : Bool := p.time ≤ cutoff

def changePosition (p : Proposal X) (newPosition : X.TxSetID) (newCloseTime now : Int) : Proposal X :=
  { p with
    position := newPosition
    closeTime := newCloseTime
    time := now
    proposeSeq := if p.proposeSeq = seqLeave then p.proposeSeq else p.proposeSeq + 1 }

def bowOut (p : Proposal X) (now : Int) : Proposal X := { p with time := now, proposeSeq := seqLeave }

end Proposal

inductive ConsensusMode where
  | proposing
  | observing
  | wrongLedger
  | switchedLedger
  deriving DecidableEq

inductive ConsensusPhase where
  | open
  | establish
  | accepted
  deriving DecidableEq

inductive ConsensusState where
  | no
  | movedOn
  | expired
  | yes
  deriving DecidableEq

/-- Measures the duration of phases of consensus. -/
structure ConsensusTimer where
  start : Int := 0
  dur : Int := 0

namespace ConsensusTimer

def read (t : ConsensusTimer) : Int := t.dur

def tickFixed (t : ConsensusTimer) (fixed : Int) : ConsensusTimer := { t with dur := t.dur + fixed }

def reset (tp : Int) : ConsensusTimer := { start := tp, dur := 0 }

def tick (t : ConsensusTimer) (tp : Int) : ConsensusTimer := { t with dur := tp - t.start }

end ConsensusTimer

/-- The close times of the initial proposals of the peers, counted, and our own. -/
structure ConsensusCloseTimes where
  peers : List (Int × Nat) := []
  self : Int := 0

/-- Our position in a round, with the disputes about it and the sets it has been compared with. -/
structure ConsensusResult (X : Traits) where
  txns : X.TxSet
  position : Proposal X
  disputes : HashMap X.TxID (DisputedTx X.Tx X.NodeID) := ∅
  compares : List X.TxSetID := []
  roundTime : ConsensusTimer := {}
  state : ConsensusState := .no
  proposers : Nat := 0

/-- What the adaptor is told. -/
inductive Event (X : Traits) where
  | propose (position : Proposal X)
  | shareTx (tx : X.Tx)
  | shareTxSet (set : X.TxSet)
  | sharePosition (position : Proposal X)
  | onModeChange (before after : ConsensusMode)
  | updateOperatingMode (positions : Nat)
  | onAccept (result : ConsensusResult X) (prevLedger : X.Ledger) (closeResolution : Int) (times : ConsensusCloseTimes)
      (mode : ConsensusMode)
  | onForceAccept (result : ConsensusResult X) (prevLedger : X.Ledger) (closeResolution : Int)
      (times : ConsensusCloseTimes) (mode : ConsensusMode)

/-- The adaptor, and the clock. -/
class ConsensusAdaptor (X : Traits) (A : Type) where
  parms : A → ConsensusParms
  clock : A → Int × A
  acquireLedger : X.LedgerID → A → Option X.Ledger × A
  acquireTxSet : X.TxSetID → A → Option X.TxSet × A
  hasOpenTransactions : A → Bool × A
  proposersValidated : X.LedgerID → A → Nat × A
  proposersFinished : X.Ledger → X.LedgerID → A → Nat × A
  getPrevLedger : X.LedgerID → X.Ledger → ConsensusMode → A → X.LedgerID × A
  /-- The set and the proposal of the result. -/
  onClose : X.Ledger → Int → ConsensusMode → A → (X.TxSet × Proposal X) × A
  getValidLedgerIndex : A → Nat × A
  /-- The quorum, and the number of trusted keys. -/
  getQuorumKeys : A → (Nat × Nat) × A
  /-- The number of laggards, and of trusted keys that are offline. -/
  laggards : Nat → A → (Nat × Nat) × A
  validator : A → Bool × A
  haveValidated : A → Bool × A
  /-- The comparison of single-precision ratios in `shouldPause`, for a number of validators that do not lag, of all
  validators, the quorum and the phase. -/
  tooFew : Nat → Nat → Nat → Nat → Bool
  tell : Event X → A → A

/-- `Consensus` -/
structure GenericConsensus (X : Traits) (A : Type) where
  adaptor : A
  phase : ConsensusPhase := .accepted
  mode : ConsensusMode := .observing
  firstRound : Bool := true
  haveCloseTimeConsensus : Bool := false
  convergePercent : Int := 0
  openTime : ConsensusTimer := {}
  closeResolution : Int := 30
  closeTimeAvalancheState : AvalancheState := .init
  prevRoundTime : Int := 0
  now : Int := 0
  prevCloseTime : Int := 0
  prevLedgerID : X.LedgerID
  previousLedger : X.Ledger
  acquired : HashMap X.TxSetID X.TxSet := ∅
  result : Option (ConsensusResult X) := none
  rawCloseTimes : ConsensusCloseTimes := {}
  peerUnchangedCounter : Nat := 0
  establishCounter : Nat := 0
  currPeerPositions : HashMap X.NodeID (Proposal X) := ∅
  recentPeerPositions : HashMap X.NodeID (List (Proposal X)) := ∅
  prevProposers : Nat := 0
  deadNodes : List X.NodeID := []

/-! ## Decisions -/

def possibleTimeResolutions : List Int := [10, 20, 30, 60, 90, 120]

def getNextLedgerTimeResolution (previousResolution : Int) (previousAgree : Bool) (ledgerSeq : Nat) : Int :=
  match possibleTimeResolutions.idxOf? previousResolution with
  | none => previousResolution
  | some i =>
    if !previousAgree && ledgerSeq % 1 = 0 then possibleTimeResolutions.getD (i + 1) previousResolution
    else if previousAgree && ledgerSeq % 8 = 0 && i ≠ 0 then possibleTimeResolutions.getD (i - 1) previousResolution
    else previousResolution

def roundCloseTime (closeTime closeResolution : Int) : Int :=
  if closeTime = 0 then closeTime
  else closeTime + closeResolution.tdiv 2 - (closeTime + closeResolution.tdiv 2).tmod closeResolution

def shouldCloseLedger (anyTransactions : Bool) (prevProposers proposersClosed proposersValidated : Nat)
    (prevRoundTime timeSincePrevClose openTime idleInterval : Int) (parms : ConsensusParms) : Bool :=
  if prevRoundTime < -1000 || prevRoundTime > 600000 || timeSincePrevClose > 600000 then true
  else if proposersClosed + proposersValidated > prevProposers / 2 then true
  else if !anyTransactions then timeSincePrevClose ≥ idleInterval
  else if openTime < parms.ledgerMinClose then false
  else if openTime < prevRoundTime.tdiv 2 then false
  else true

def checkConsensusReached (agreeing total : Nat) (countSelf : Bool) (minConsensusPct : Nat)
    (reachedMax stalled : Bool) : Bool :=
  if total = 0 then reachedMax
  else if stalled then true
  else
    let agreeing := if countSelf then agreeing + 1 else agreeing
    let total := if countSelf then total + 1 else total
    agreeing * 100 / total ≥ minConsensusPct

def checkConsensus (prevProposers currentProposers currentAgree currentFinished : Nat)
    (previousAgreeTime currentAgreeTime : Int) (stalled : Bool) (parms : ConsensusParms) (proposing : Bool) :
    ConsensusState :=
  if currentAgreeTime ≤ parms.ledgerMinConsensus then .no
  else if currentProposers < prevProposers * 3 / 4 && currentAgreeTime < previousAgreeTime +
    parms.ledgerMinConsensus then .no
  else if checkConsensusReached currentAgree currentProposers proposing parms.minConsensusPct
      (currentAgreeTime > parms.ledgerMaxConsensus) stalled then .yes
  else if checkConsensusReached currentFinished currentProposers false parms.minConsensusPct
      (currentAgreeTime > parms.ledgerMaxConsensus) false then .movedOn
  else if currentAgreeTime >
      min (max (previousAgreeTime * parms.ledgerAbandonConsensusFactor) parms.ledgerMaxConsensus)
        parms.ledgerAbandonConsensus then .expired
  else .no

/-- How many of the participants must agree to reach a given threshold? -/
def participantsNeeded (participants percent : Nat) : Nat :=
  let result := (participants * percent + percent / 2) / 100
  if result = 0 then 1 else result

namespace GenericConsensus

variable {X : Traits} {A : Type}

/-- The rounded or effective close time estimate from a proposer. -/
def asCloseTime (raw : Int) (s : GenericConsensus X A) : Int := roundCloseTime raw s.closeResolution

variable [ConsensusAdaptor X A]

def ask {β : Type} (f : A → β × A) (s : GenericConsensus X A) : β × GenericConsensus X A :=
  ((f s.adaptor).1, { s with adaptor := (f s.adaptor).2 })

def tell (e : Event X) (s : GenericConsensus X A) : GenericConsensus X A :=
  { s with adaptor := ConsensusAdaptor.tell e s.adaptor }

def parms (s : GenericConsensus X A) : ConsensusParms := ConsensusAdaptor.parms X s.adaptor

def setMode (mode : ConsensusMode) (s : GenericConsensus X A) : GenericConsensus X A :=
  { s.tell (.onModeChange s.mode mode) with mode := mode }

/-- Revoke our outstanding proposal, if any, and cease proposing until this round ends. -/
def leaveConsensus (s : GenericConsensus X A) : GenericConsensus X A :=
  if s.mode = .proposing then
    match s.result with
    | none => s.setMode .observing
    | some r =>
      if r.position.isBowOut then s.setMode .observing
      else
        let r := { r with position := r.position.bowOut s.now }
        setMode .observing (tell (.propose r.position) { s with result := some r })
  else s

/-! ## Disputes -/

section Disputes
variable [TxSets X] [DecidableEq X.NodeID] [DecidableEq X.TxSetID] [DecidableEq X.TxID]

/-- One round of the loop of `createDisputes` over the peers: the vote of one whose set we have. -/
def collectVote (acquired : HashMap X.TxSetID X.TxSet) (txID : X.TxID) (acc : Bool × DisputedTx X.Tx X.NodeID)
    (e : Σ _ : X.NodeID, Proposal X) : Bool × DisputedTx X.Tx X.NodeID :=
  match acquired.lookup e.2.position with
  | none => acc
  | some set =>
    let (changed, d) := acc.2.setVote e.1 (TxSets.exists_ set txID)
    (acc.1 || changed, d)

/-- One round of the loop of `createDisputes` over the differences. A difference is in the set it comes from. -/
def createDispute (o : X.TxSet) (s : GenericConsensus X A) (e : X.TxID × Bool) : GenericConsensus X A :=
  match s.result with
  | none => s
  | some r =>
    match TxSets.find (if e.2 then r.txns else o) e.1 with
    | none => s
    | some tx =>
      if (r.disputes.lookup (TxSets.txId tx)).isSome then s
      else
        let (changed, dtx) := s.currPeerPositions.entries.foldl (collectVote s.acquired (TxSets.txId tx))
          (false, { ourVote := TxSets.exists_ r.txns (TxSets.txId tx), tx })
        tell (.shareTx tx) { s with
          peerUnchangedCounter := if changed then 0 else s.peerUnchangedCounter
          result := some { r with disputes := r.disputes.insert (TxSets.txId tx) dtx } }

/-- Create disputes between our position and the provided one. -/
def createDisputes (o : X.TxSet) (s : GenericConsensus X A) : GenericConsensus X A :=
  match s.result with
  | none => s
  | some r =>
    if TxSets.id o ∈ r.compares then s
    else
      let s := { s with result := some { r with compares := TxSets.id o :: r.compares } }
      if TxSets.id r.txns = TxSets.id o then s
      else (TxSets.compare r.txns o).foldl (createDispute o) s

/-- The loop of `updateDisputes`: the node votes on every dispute by the set it has adopted. -/
def voteAll (node : X.NodeID) (other : X.TxSet) (s : GenericConsensus X A) : GenericConsensus X A :=
  match s.result with
  | none => s
  | some r =>
    let vote := fun d : DisputedTx X.Tx X.NodeID => d.setVote node (TxSets.exists_ other (TxSets.txId d.tx))
    { s with
      peerUnchangedCounter := if r.disputes.entries.any fun e => (vote e.2).1 then 0 else s.peerUnchangedCounter
      result := some { r with disputes := r.disputes.mapVal fun _ d => (vote d).2 } }

/-- Update our disputes given that this node has adopted a new position. -/
def updateDisputes (node : X.NodeID) (other : X.TxSet) (s : GenericConsensus X A) : GenericConsensus X A :=
  match s.result with
  | none => s
  | some r =>
    if TxSets.id other ∈ r.compares then s.voteAll node other
    else (s.createDisputes other).voteAll node other

/-- Update the disputes for every peer that proposes a set. -/
def updateAll (set : X.TxSet) (s : GenericConsensus X A) : GenericConsensus X A :=
  s.currPeerPositions.entries.foldl
    (fun s e => if e.2.position = TxSets.id set then s.updateDisputes e.1 set else s) s

/-- Process a transaction set acquired from the network. -/
def gotTxSet (now : Int) (txSet : X.TxSet) (s : GenericConsensus X A) : GenericConsensus X A :=
  if s.phase = .accepted then s
  else
    let s := { s with now := now }
    if (s.acquired.lookup (TxSets.id txSet)).isSome then s
    else
      let s := { s with acquired := s.acquired.insert (TxSets.id txSet) txSet }
      if s.result.isNone then s else s.updateAll txSet

/-- The votes of a peer go. -/
def unVoteAll (peerID : X.NodeID) (r : ConsensusResult X) : ConsensusResult X :=
  { r with disputes := r.disputes.mapVal fun _ d => d.unVote peerID }

/-- `peerProposalInternal`, for a peer that bows out. -/
def peerBowsOut (peerID : X.NodeID) (s : GenericConsensus X A) : GenericConsensus X A :=
  { s with
    result := s.result.map (unVoteAll peerID)
    currPeerPositions := s.currPeerPositions.erase peerID
    deadNodes := s.deadNodes.insert peerID }

/-- `peerProposalInternal`: update the current position of a peer, and record the close time of an initial one. -/
def recordPosition (newPeerProp : Proposal X) (s : GenericConsensus X A) : GenericConsensus X A :=
  { s with
    currPeerPositions := s.currPeerPositions.insert newPeerProp.nodeID newPeerProp
    rawCloseTimes :=
      if newPeerProp.isInitial then
        { s.rawCloseTimes with peers := CountMap.add s.rawCloseTimes.peers newPeerProp.closeTime 1 }
      else s.rawCloseTimes }

/-- `peerProposalInternal`: look for the set that a peer proposes. -/
def lookForSet (newPeerProp : Proposal X) (s : GenericConsensus X A) : GenericConsensus X A :=
  match s.acquired.lookup newPeerProp.position with
  | none =>
    match s.ask (ConsensusAdaptor.acquireTxSet newPeerProp.position) with
    | (some set, s) => s.gotTxSet s.now set
    | (none, s) => s
  | some set => if s.result.isSome then s.updateDisputes newPeerProp.nodeID set else s

variable [DecidableEq X.LedgerID]

/-- Handle a replayed or a new peer proposal; says whether to relay it. -/
def peerProposalInternal (now : Int) (newPeerProp : Proposal X) (s : GenericConsensus X A) :
    Bool × GenericConsensus X A :=
  if s.phase = .accepted then (false, s)
  else
    let s := { s with now := now }
    if newPeerProp.prevLedger ≠ s.prevLedgerID then (false, s)
    else if newPeerProp.nodeID ∈ s.deadNodes then (false, s)
    else if (s.currPeerPositions.lookup newPeerProp.nodeID).any fun old => newPeerProp.proposeSeq ≤ old.proposeSeq then
      (false, s)
    else if newPeerProp.isBowOut then (true, s.peerBowsOut newPeerProp.nodeID)
    else (true, (s.recordPosition newPeerProp).lookForSet newPeerProp)

/-- A peer has proposed a new position; the last ten of a peer are stored. -/
def peerProposal (now : Int) (newPeerProp : Proposal X) (s : GenericConsensus X A) : Bool × GenericConsensus X A :=
  let props := (s.recentPeerPositions.lookup newPeerProp.nodeID).getD []
  let props := (if props.length ≥ 10 then props.tail else props) ++ [newPeerProp]
  peerProposalInternal now newPeerProp
    { s with recentPeerPositions := s.recentPeerPositions.insert newPeerProp.nodeID props }

/-- One round of `playbackProposals`. -/
def playbackOne (s : GenericConsensus X A) (pos : Proposal X) : GenericConsensus X A :=
  if pos.prevLedger = s.prevLedgerID then
    match s.peerProposalInternal s.now pos with
    | (true, s) => s.tell (.sharePosition pos)
    | (false, s) => s
  else s

/-- Replay recent proposals so that they're not lost. -/
def playbackProposals (s : GenericConsensus X A) : GenericConsensus X A :=
  s.recentPeerPositions.entries.foldl (fun s e => e.2.foldl playbackOne s) s

/-! ## Our position -/

/-- Close the open ledger and establish initial position. -/
def closeLedger (s : GenericConsensus X A) : GenericConsensus X A :=
  let s := { s with
    phase := .establish
    rawCloseTimes := { s.rawCloseTimes with self := s.now }
    peerUnchangedCounter := 0
    establishCounter := 0 }
  let ((txns, position), s) := s.ask (ConsensusAdaptor.onClose s.previousLedger s.now s.mode)
  let (start, s) := s.ask (ConsensusAdaptor.clock X)
  let s := { s with result := some { txns, position, roundTime := .reset start } }
  let s :=
    if (s.acquired.lookup (TxSets.id txns)).isSome then s
    else tell (.shareTxSet txns) { s with acquired := s.acquired.insert (TxSets.id txns) txns }
  let s := if s.mode = .proposing then s.tell (.propose position) else s
  s.currPeerPositions.entries.foldl (fun s e =>
    match s.acquired.lookup e.2.position with
    | none => s
    | some set => s.createDisputes set) s

/-- One round of the first loop of `updateOurPositions`: a stale position goes, a fresh one counts for its close time.
-/
def checkFresh (peerCutoff : Int) (acc : List (Int × Nat) × GenericConsensus X A) (e : Σ _ : X.NodeID, Proposal X) :
    List (Int × Nat) × GenericConsensus X A :=
  if e.2.isStale peerCutoff then
    (acc.1, { acc.2 with
      result := acc.2.result.map (unVoteAll e.2.nodeID)
      currPeerPositions := acc.2.currPeerPositions.erase e.1 })
  else (CountMap.add acc.1 (acc.2.asCloseTime e.2.closeTime) 1, acc.2)

/-- One round of the loop of `updateOurPositions` over the disputes: our set follows a vote that changes. -/
def followVote (percentTime : Int) (proposing : Bool) (parms : ConsensusParms) (txns : X.TxSet)
    (mutableSet : Option X.TxSet) (e : Σ _ : X.TxID, DisputedTx X.Tx X.NodeID) : Option X.TxSet :=
  let (changed, d) := e.2.updateVote percentTime proposing parms
  if changed then
    let set := mutableSet.getD txns
    some (if d.ourVote then TxSets.insert d.tx set else TxSets.erase e.1 set)
  else mutableSet

/-- `updateOurPositions`: update votes on disputed transactions. The new set is there if any vote changed. -/
def updateVotes (r : ConsensusResult X) (s : GenericConsensus X A) : Option X.TxSet × GenericConsensus X A :=
  (r.disputes.entries.foldl (followVote s.convergePercent (s.mode = .proposing) s.parms r.txns) none,
    { s with result := some { r with
      disputes := r.disputes.mapVal fun _ d => (d.updateVote s.convergePercent (s.mode = .proposing) s.parms).2 } })

/-- One round of the walk over the close times, highest first: the threshold, the close time and whether there is
consensus on it. -/
def tallyTime (threshConsensus : Nat) (acc : Nat × Int × Bool) (e : Int × Nat) : Nat × Int × Bool :=
  if e.2 ≥ acc.1 then (e.2, e.1, acc.2.2 || e.2 ≥ threshConsensus) else acc

/-- `updateOurPositions`: the close time we agree on. -/
def updateCloseTime (closeTimeVotes : List (Int × Nat)) (ourCloseTime : Int) (s : GenericConsensus X A) :
    Int × GenericConsensus X A :=
  if s.currPeerPositions.entries = [] then (ourCloseTime, { s with haveCloseTimeConsensus := true })
  else
    let (neededWeight, newState) := getNeededWeight s.parms s.closeTimeAvalancheState s.convergePercent 0 0
    let proposing := s.mode = .proposing
    let closeTimeVotes := if proposing then CountMap.add closeTimeVotes ourCloseTime 1 else closeTimeVotes
    let participants := s.currPeerPositions.entries.length + if proposing then 1 else 0
    let (_, consensusCloseTime, agreed) := closeTimeVotes.reverse.foldl
      (tallyTime (participantsNeeded participants s.parms.avCtConsensusPct))
      (participantsNeeded participants neededWeight, 0, false)
    (consensusCloseTime, { s with
      closeTimeAvalancheState := newState.getD s.closeTimeAvalancheState
      haveCloseTimeConsensus := agreed })

/-- `updateOurPositions`: share our new transaction set and update disputes if we haven't already received it. -/
def shareOurSet (ourNewSet : X.TxSet) (bowedOut : Bool) (s : GenericConsensus X A) : GenericConsensus X A :=
  if (s.acquired.lookup (TxSets.id ourNewSet)).isSome then s
  else
    let s := { s with acquired := s.acquired.insert (TxSets.id ourNewSet) ourNewSet }
    updateAll ourNewSet (if bowedOut then s else s.tell (.shareTxSet ourNewSet))

/-- `updateOurPositions`: take a new set or close time as our position. -/
def changeOurPosition (ourNewSet : X.TxSet) (consensusCloseTime : Int)
    (r : ConsensusResult X) (s : GenericConsensus X A) : GenericConsensus X A :=
  let position := r.position.changePosition (TxSets.id ourNewSet) consensusCloseTime s.now
  let s := shareOurSet ourNewSet position.isBowOut { s with result := some { r with txns := ourNewSet, position } }
  if !position.isBowOut && s.mode = .proposing then s.tell (.propose position) else s

/-- `updateOurPositions`: our position changes with our set, or if the close time changed or it is stale. -/
def settlePosition (ourNewSet : Option X.TxSet) (consensusCloseTime ourCutoff : Int) (s : GenericConsensus X A) :
    GenericConsensus X A :=
  match s.result with
  | none => s
  | some r =>
    match ourNewSet with
    | some set => s.changeOurPosition set consensusCloseTime r
    | none =>
      if consensusCloseTime ≠ s.asCloseTime r.position.closeTime ∨ r.position.isStale ourCutoff then
        s.changeOurPosition r.txns consensusCloseTime r
      else s

/-- Adjust our positions to try to agree with other validators. -/
def updateOurPositions (s : GenericConsensus X A) : GenericConsensus X A :=
  let peerCutoff := s.now - s.parms.proposeFRESHNESS
  let ourCutoff := s.now - s.parms.proposeINTERVAL
  let (closeTimeVotes, s) := s.currPeerPositions.entries.foldl (checkFresh peerCutoff) ([], s)
  match s.result with
  | none => s
  | some r =>
    let (ourNewSet, s) := s.updateVotes r
    let (consensusCloseTime, s) := s.updateCloseTime closeTimeVotes (s.asCloseTime r.position.closeTime)
    s.settlePosition ourNewSet consensusCloseTime ourCutoff

/-! ## The phases of a round -/

variable [Ledgers X]

/-- Whether there is consensus; the result says of what kind. -/
def haveConsensus (s : GenericConsensus X A) : Bool × GenericConsensus X A :=
  match s.result with
  | none => (false, s)
  | some r =>
    let agree := s.currPeerPositions.entries.countP fun e => e.2.position = r.position.position
    let disagree := s.currPeerPositions.entries.countP fun e => e.2.position ≠ r.position.position
    let (currentFinished, s) := s.ask (ConsensusAdaptor.proposersFinished s.previousLedger s.prevLedgerID)
    let proposing : Bool := s.mode = .proposing
    let stalled := s.haveCloseTimeConsensus && !r.disputes.entries.isEmpty &&
      r.disputes.entries.all fun e => e.2.stalled s.parms proposing s.peerUnchangedCounter
    let state := checkConsensus s.prevProposers (agree + disagree) agree currentFinished
        s.prevRoundTime r.roundTime.read
      stalled s.parms proposing
    let s := { s with result := some { r with state } }
    match state with
    | .no => (false, s)
    | .expired => if s.establishCounter < 4 * s.parms.avMinRounds then (false, s) else (true, s.leaveConsensus)
    | _ => (true, s)

/-- Evaluate whether pausing increases likelihood of validation. -/
def shouldPause (r : ConsensusResult X) (s : GenericConsensus X A) : Bool × GenericConsensus X A :=
  let seq := Ledgers.seq s.previousLedger
  let (validIndex, s) := s.ask (ConsensusAdaptor.getValidLedgerIndex X)
  let ahead := seq - min validIndex seq
  let ((quorum, totalValidators), s) := s.ask (ConsensusAdaptor.getQuorumKeys X)
  let ((laggards, offline), s) := s.ask (ConsensusAdaptor.laggards X seq)
  let (validator, s) := s.ask (ConsensusAdaptor.validator X)
  let (haveValidated, s) := s.ask (ConsensusAdaptor.haveValidated X)
  if ahead = 0 || laggards = 0 || totalValidators = 0 || !validator || !haveValidated ||
      r.roundTime.read > s.parms.ledgerMaxConsensus then (false, s)
  else
    let phase := (ahead - 1) % 5
    -- the differences are unsigned
    if phase = 0 then (laggards + offline > (totalValidators + 2 ^ 64 - quorum) % 2 ^ 64, s)
    else if phase = 4 then (true, s)
    else (ConsensusAdaptor.tooFew X A ((totalValidators + 2 ^ 64 - (laggards + offline)) % 2 ^ 64)
      totalValidators quorum phase, s)

/-- `phaseEstablish`: accept what there is consensus on. -/
def accept (s : GenericConsensus X A) : GenericConsensus X A :=
  match s.result with
  | none => s
  | some r =>
    let s := s.tell (.updateOperatingMode s.currPeerPositions.entries.length)
    let s := { s with
      prevProposers := s.currPeerPositions.entries.length
      prevRoundTime := r.roundTime.read
      phase := .accepted }
    s.tell (.onAccept r s.previousLedger s.closeResolution s.rawCloseTimes s.mode)

/-- `phaseEstablish`: count the round and measure how far along it is. -/
def tickRound (r : ConsensusResult X) (s : GenericConsensus X A) : ConsensusResult X × GenericConsensus X A :=
  let (tp, s) := s.ask (ConsensusAdaptor.clock X)
  let r := { r with roundTime := r.roundTime.tick tp, proposers := s.currPeerPositions.entries.length }
  (r, { s with
    peerUnchangedCounter := s.peerUnchangedCounter + 1
    establishCounter := s.establishCounter + 1
    convergePercent := (r.roundTime.read * 100).tdiv (max s.prevRoundTime s.parms.avMinConsensusTime)
    result := some r })

/-- `phaseEstablish`, after our position is updated: nothing to do if too many laggards or we don't have consensus. -/
def tryAccept (r : ConsensusResult X) (s : GenericConsensus X A) : GenericConsensus X A :=
  match s.shouldPause r with
  | (true, s) => s
  | (false, s) =>
    match s.haveConsensus with
    | (false, s) => s
    | (true, s) => if s.haveCloseTimeConsensus then s.accept else s

def phaseEstablish (s : GenericConsensus X A) : GenericConsensus X A :=
  match s.result with
  | none => s
  | some r =>
    let (r, s) := s.tickRound r
    if r.roundTime.read < s.parms.ledgerMinConsensus then s else s.updateOurPositions.tryAccept r

/-- How long since the last ledger's close time. -/
def sinceClose (s : GenericConsensus X A) : Int :=
  let g := s.previousLedger
  let previousCloseCorrect := s.mode ≠ .wrongLedger ∧ Ledgers.closeAgree g = true ∧
    Ledgers.closeTime g ≠ Ledgers.parentCloseTime g + 1
  (s.now - if previousCloseCorrect then Ledgers.closeTime g else s.prevCloseTime) * 1000

def phaseOpen (s : GenericConsensus X A) : GenericConsensus X A :=
  let (anyTransactions, s) := s.ask (ConsensusAdaptor.hasOpenTransactions X)
  let (proposersValidated, s) := s.ask (ConsensusAdaptor.proposersValidated s.prevLedgerID)
  let (tp, s) := s.ask (ConsensusAdaptor.clock X)
  let s := { s with openTime := s.openTime.tick tp }
  let idleInterval := max s.parms.ledgerIdleInterval (2 * Ledgers.closeTimeResolution s.previousLedger * 1000)
  if shouldCloseLedger anyTransactions s.prevProposers s.currPeerPositions.entries.length proposersValidated
      s.prevRoundTime s.sinceClose s.openTime.read idleInterval s.parms then s.closeLedger
  else s

/-! ## Rounds

A round starts with the proposals replayed, and if there are enough of them, with a timer event at once. That may find
another ledger and start a round on it in turn, so the timer is an argument here, and its depth is bounded below. -/

/-- `startRoundInternal`: the state in which a round starts. -/
def resetRound (now : Int) (prevLedgerID : X.LedgerID) (prevLedger : X.Ledger) (mode : ConsensusMode)
    (s : GenericConsensus X A) : GenericConsensus X A :=
  let s := setMode mode { s with phase := .open }
  let (tp, s) := s.ask (ConsensusAdaptor.clock X)
  { s with
    now
    prevLedgerID
    previousLedger := prevLedger
    result := none
    convergePercent := 0
    closeTimeAvalancheState := .init
    haveCloseTimeConsensus := false
    openTime := .reset tp
    currPeerPositions := ∅
    acquired := ∅
    rawCloseTimes := {}
    deadNodes := []
    closeResolution := getNextLedgerTimeResolution (Ledgers.closeTimeResolution prevLedger)
      (Ledgers.closeAgree prevLedger)
      (Ledgers.seq prevLedger + 1) }

section Timer
variable (timer : Int → GenericConsensus X A → Option (GenericConsensus X A))

def startRoundInternal (now : Int) (prevLedgerID : X.LedgerID) (prevLedger : X.Ledger) (mode : ConsensusMode)
    (s : GenericConsensus X A) : Option (GenericConsensus X A) :=
  let s := (s.resetRound now prevLedgerID prevLedger mode).playbackProposals
  if s.currPeerPositions.entries.length > s.prevProposers / 2 then timer s.now s else some s

/-- `handleWrongLedger`: on the first switch to a ledger, clear out state and get back in sync. -/
def switchLedger (lgrId : X.LedgerID) (s : GenericConsensus X A) : GenericConsensus X A :=
  if s.prevLedgerID = lgrId then s
  else playbackProposals { s with
    prevLedgerID := lgrId
    result := s.result.map fun r => { r with disputes := ∅, compares := [] }
    currPeerPositions := ∅
    rawCloseTimes := { s.rawCloseTimes with peers := [] }
    deadNodes := [] }

/-- Handle a change in the prior ledger during a consensus round. -/
def handleWrongLedger (lgrId : X.LedgerID) (s : GenericConsensus X A) : Option (GenericConsensus X A) :=
  let s := s.leaveConsensus.switchLedger lgrId
  if Ledgers.id s.previousLedger = s.prevLedgerID then some s
  else
    match s.ask (ConsensusAdaptor.acquireLedger s.prevLedgerID) with
    | (some newLedger, s) => s.startRoundInternal timer s.now lgrId newLedger .switchedLedger
    | (none, s) => some (s.setMode .wrongLedger)

/-- Check if our previous ledger matches the network's. -/
def checkLedger (s : GenericConsensus X A) : Option (GenericConsensus X A) :=
  let (netLgr, s) := s.ask (ConsensusAdaptor.getPrevLedger s.prevLedgerID s.previousLedger s.mode)
  if netLgr ≠ s.prevLedgerID ∨ Ledgers.id s.previousLedger ≠ s.prevLedgerID then s.handleWrongLedger timer netLgr
  else some s

end Timer

/-- Call periodically to drive consensus forward; `none` when more than `fuel` timer events nest. -/
def timerEntry : Nat → Int → GenericConsensus X A → Option (GenericConsensus X A)
  | 0, _, _ => none
  | fuel + 1, now, s =>
    if s.phase = .accepted then some s
    else
      (checkLedger (timerEntry fuel) { s with now }).map fun s =>
        match s.phase with
        | .open => s.phaseOpen
        | .establish => s.phaseEstablish
        | .accepted => s

/-- Kick-off the next round of consensus. -/
def startRound (fuel : Nat) (now : Int) (prevLedgerID : X.LedgerID) (prevLedger : X.Ledger)
    (nowUntrusted : List X.NodeID)
    (proposing : Bool) (s : GenericConsensus X A) : Option (GenericConsensus X A) :=
  let s :=
    if s.firstRound then
      { s with
        prevRoundTime := s.parms.ledgerIdleInterval
        prevCloseTime := Ledgers.closeTime prevLedger
        firstRound := false }
    else { s with prevCloseTime := s.rawCloseTimes.self }
  let s := { s with recentPeerPositions := nowUntrusted.foldl (fun m n => m.erase n) s.recentPeerPositions }
  let startMode := if proposing then ConsensusMode.proposing else .observing
  if Ledgers.id prevLedger = prevLedgerID then s.startRoundInternal
    (timerEntry fuel) now prevLedgerID prevLedger startMode
  else
    match s.ask (ConsensusAdaptor.acquireLedger prevLedgerID) with
    | (some newLedger, s) => s.startRoundInternal (timerEntry fuel) now prevLedgerID newLedger startMode
    | (none, s) => s.startRoundInternal (timerEntry fuel) now prevLedgerID prevLedger .wrongLedger

/-- Simulate the consensus process without any network traffic. -/
def simulate (now consensusDelay : Int) (s : GenericConsensus X A) : GenericConsensus X A :=
  let s := closeLedger { s with now }
  match s.result with
  | none => s
  | some r =>
    let r :=
      { r with roundTime := r.roundTime.tickFixed consensusDelay, proposers := s.currPeerPositions.entries.length }
    let s := { s with
      result := some r
      prevProposers := s.currPeerPositions.entries.length
      prevRoundTime := r.roundTime.read
      phase := .accepted }
    s.tell (.onForceAccept r s.previousLedger s.closeResolution s.rawCloseTimes s.mode)

end Disputes

end GenericConsensus

end Rippled.Consensus
