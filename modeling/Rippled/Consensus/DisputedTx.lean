import Mathlib.Algebra.Order.Ring.Int
import Rippled.Lib.HashMap

/-!
# Disputed transactions

A transaction in dispute during consensus (`DisputedTx.h`), with the votes of the peers on it and our own, and the
parameters that decide when our vote changes (`ConsensusParms.h`). Durations are in milliseconds, except those of
proposals, which are in seconds.
-/

namespace Rippled.Consensus

open Lib HashMap

inductive AvalancheState where
  | init
  | mid
  | late
  | stuck
  deriving DecidableEq

structure AvalancheCutoff where
  consensusTime : Int
  consensusPct : Nat
  next : AvalancheState

/-- The thresholds for yes votes as a round takes longer. -/
def defaultCutoffs : AvalancheState → AvalancheCutoff
  | .init => ⟨0, 50, .mid⟩
  | .mid => ⟨50, 65, .late⟩
  | .late => ⟨85, 70, .stuck⟩
  | .stuck => ⟨200, 95, .stuck⟩

structure ConsensusParms where
  proposeFRESHNESS : Int := 20
  proposeINTERVAL : Int := 12
  minConsensusPct : Nat := 80
  ledgerIdleInterval : Int := 15000
  ledgerMinConsensus : Int := 1950
  ledgerMaxConsensus : Int := 15000
  ledgerMinClose : Int := 2000
  ledgerAbandonConsensusFactor : Int := 10
  ledgerAbandonConsensus : Int := 120000
  avMinConsensusTime : Int := 5000
  avalancheCutoffs : AvalancheState → AvalancheCutoff := defaultCutoffs
  avCtConsensusPct : Nat := 75
  avMinRounds : Nat := 2
  avStalledRounds : Nat := 4

/-- The percentage needed in a state, and the next state if it is time for it. -/
def getNeededWeight (p : ConsensusParms) (currentState : AvalancheState) (percentTime : Int)
    (currentRounds minimumRounds : Nat) : Nat × Option AvalancheState :=
  let currentCutoff := p.avalancheCutoffs currentState
  if currentCutoff.next ≠ currentState ∧ minimumRounds ≤ currentRounds ∧
      (p.avalancheCutoffs currentCutoff.next).consensusTime ≤ percentTime then
    ((p.avalancheCutoffs currentCutoff.next).consensusPct, some currentCutoff.next)
  else (currentCutoff.consensusPct, none)

structure DisputedTx (Tx NodeID : Type) where
  yays : Int := 0
  nays : Int := 0
  ourVote : Bool
  tx : Tx
  votes : HashMap NodeID Bool := ∅
  /-- The number of rounds we've gone without changing our vote. -/
  currentVoteCounter : Nat := 0
  avalancheState : AvalancheState := .init
  /-- How long we have been in the current acceptance phase. -/
  avalancheCounter : Nat := 0

namespace DisputedTx

variable {Tx NodeID : Type}

section Votes
variable [DecidableEq NodeID]

/-- Change a peer's vote; a new vote counts as a change. -/
def setVote (peer : NodeID) (votesYes : Bool) (d : DisputedTx Tx NodeID) : Bool × DisputedTx Tx NodeID :=
  match d.votes.lookup peer with
  | none =>
    if votesYes then (true, { d with votes := d.votes.insert peer true, yays := d.yays + 1 })
    else (true, { d with votes := d.votes.insert peer false, nays := d.nays + 1 })
  | some vote =>
    if votesYes && !vote then
      (true, { d with votes := d.votes.insert peer true, nays := d.nays - 1, yays := d.yays + 1 })
    else if !votesYes && vote then
      (true, { d with votes := d.votes.insert peer false, nays := d.nays + 1, yays := d.yays - 1 })
    else (false, d)

def unVote (peer : NodeID) (d : DisputedTx Tx NodeID) : DisputedTx Tx NodeID :=
  match d.votes.lookup peer with
  | none => d
  | some true => { d with votes := d.votes.erase peer, yays := d.yays - 1 }
  | some false => { d with votes := d.votes.erase peer, nays := d.nays - 1 }

end Votes

/-- Our vote when it is reconsidered. When proposing, this is whether the percentage of nodes voting yes, us included,
is more than what is required. -/
def newPosition (proposing : Bool) (requiredPct : Nat) (d : DisputedTx Tx NodeID) : Bool :=
  if proposing then (requiredPct : Int) < (d.yays * 100 + if d.ourVote then 100 else 0).tdiv (d.nays + d.yays + 1)
  else d.nays < d.yays

/-- Count a round in the current acceptance phase, or move to the next one. -/
def advance (newState : Option AvalancheState) (d : DisputedTx Tx NodeID) : DisputedTx Tx NodeID :=
  match newState with
  | none => { d with avalancheCounter := d.avalancheCounter + 1 }
  | some state => { d with avalancheState := state, avalancheCounter := 0 }

/-- Update our vote given progression of consensus; says whether it changed. -/
def updateVote (percentTime : Int) (proposing : Bool) (p : ConsensusParms) (d : DisputedTx Tx NodeID) :
    Bool × DisputedTx Tx NodeID :=
  if d.ourVote && d.nays = 0 then (false, d)
  else if !d.ourVote && d.yays = 0 then (false, d)
  else
    let (requiredPct, newState) :=
      getNeededWeight p d.avalancheState percentTime (d.avalancheCounter + 1) p.avMinRounds
    let d := d.advance newState
    if d.newPosition proposing requiredPct = d.ourVote then
      (false, { d with currentVoteCounter := d.currentVoteCounter + 1 })
    else (true, { d with currentVoteCounter := 0, ourVote := d.newPosition proposing requiredPct })

/-- Are we and our peers stalled where we probably won't change our vote? -/
def stalled (p : ConsensusParms) (proposing : Bool) (peersUnchanged : Nat) (d : DisputedTx Tx NodeID) : Bool :=
  let currentCutoff := p.avalancheCutoffs d.avalancheState
  let nextCutoff := p.avalancheCutoffs currentCutoff.next
  if currentCutoff.consensusTime < nextCutoff.consensusTime || d.avalancheCounter < p.avMinRounds then false
  else if proposing && d.currentVoteCounter < p.avMinRounds then false
  else if peersUnchanged < p.avStalledRounds && (proposing && d.currentVoteCounter < p.avStalledRounds) then false
  else
    let support := (d.yays + if proposing && d.ourVote then 1 else 0) * 100
    let total := d.nays + d.yays + if proposing then 1 else 0
    if total = 0 then false
    else (p.minConsensusPct : Int) < support.tdiv total || support.tdiv total < 100 - (p.minConsensusPct : Int)

/-! ## The votes and their tallies -/

/-- The tallies are the numbers of recorded votes. -/
structure Tallied (d : DisputedTx Tx NodeID) : Prop where
  yays : d.yays = d.votes.entries.countP fun e => e.2
  nays : d.nays = d.votes.entries.countP fun e => !e.2

theorem tallied_new (tx : Tx) (ourVote : Bool) : Tallied ({ ourVote, tx } : DisputedTx Tx NodeID) := ⟨rfl, rfl⟩

variable [DecidableEq NodeID] (peer : NodeID)

theorem setVote_lookup (votesYes : Bool) (d : DisputedTx Tx NodeID) (n : NodeID) :
    (d.setVote peer votesYes).2.votes.lookup n = if n = peer then some votesYes else d.votes.lookup n := by
  have hinsert := (lookup_insert_eq d.votes peer · n)
  rw [setVote]
  cases hlook : d.votes.lookup peer with
  | none => cases votesYes <;> exact hinsert _
  | some vote =>
    cases votesYes <;> cases vote
    case false.true => exact hinsert _
    case true.false => exact hinsert _
    all_goals
      simp only [Bool.and_true, Bool.and_false, Bool.not_true, Bool.not_false, Bool.false_eq_true, if_false]
      split_ifs with hn
      · rw [hn, hlook]
      · rfl

theorem unVote_lookup (d : DisputedTx Tx NodeID) (n : NodeID) :
    (d.unVote peer).votes.lookup n = if n = peer then none else d.votes.lookup n := by
  have herase := lookup_erase_eq d.votes peer n
  rw [unVote]
  split
  · rename_i hlook
    split_ifs with hn
    · rw [hn, hlook]
    · rfl
  · exact herase
  · exact herase

variable {d : DisputedTx Tx NodeID}

theorem Tallied.setVote (h : Tallied d) (peer : NodeID) (votesYes : Bool) : Tallied (d.setVote peer votesYes).2 := by
  rw [DisputedTx.setVote]
  cases hlook : d.votes.lookup peer with
  | none =>
    have hold := erase_of_lookup_none hlook
    cases votesYes
    all_goals
      constructor
      · simp [-AList.entries_insert, countP_insert, hold, h.yays]
      · simp [-AList.entries_insert, countP_insert, hold, h.nays]
  | some vote =>
    have hyays := h.yays.trans (congrArg Nat.cast (countP_erase (fun e => e.2) hlook))
    have hnays := h.nays.trans (congrArg Nat.cast (countP_erase (fun e => !e.2) hlook))
    cases votesYes <;> cases vote
    case false.true | true.false =>
      constructor
      · simp [-AList.entries_insert, countP_insert, hyays]
      · simp [-AList.entries_insert, countP_insert, hnays]
    all_goals exact h

theorem Tallied.unVote (h : Tallied d) (peer : NodeID) : Tallied (d.unVote peer) := by
  rw [DisputedTx.unVote]
  split
  · exact h
  all_goals
    rename_i hlook
    have hyays := h.yays.trans (congrArg Nat.cast (countP_erase (fun e => e.2) hlook))
    have hnays := h.nays.trans (congrArg Nat.cast (countP_erase (fun e => !e.2) hlook))
    constructor
    · simp [hyays]
    · simp [hnays]

@[simp] theorem setVote_tx (votesYes : Bool) (d : DisputedTx Tx NodeID) :
    (d.setVote peer votesYes).2.tx = d.tx ∧ (d.setVote peer votesYes).2.ourVote = d.ourVote := by
  rw [setVote]
  split
  · split_ifs <;> exact ⟨rfl, rfl⟩
  · split_ifs <;> exact ⟨rfl, rfl⟩

@[simp] theorem unVote_tx (d : DisputedTx Tx NodeID) :
    (d.unVote peer).tx = d.tx ∧ (d.unVote peer).ourVote = d.ourVote := by
  rw [unVote]
  split <;> exact ⟨rfl, rfl⟩

omit [DecidableEq NodeID] in
theorem advance_same (newState : Option AvalancheState) (d : DisputedTx Tx NodeID) :
    (d.advance newState).votes = d.votes ∧ (d.advance newState).yays = d.yays ∧ (d.advance newState).nays = d.nays ∧
      (d.advance newState).tx = d.tx ∧ (d.advance newState).ourVote = d.ourVote := by
  cases newState <;> exact ⟨rfl, rfl, rfl, rfl, rfl⟩

omit [DecidableEq NodeID] in
/-- `updateVote` leaves the votes of the peers alone, and says whether ours changed. -/
theorem updateVote_spec (percentTime : Int) (proposing : Bool) (p : ConsensusParms) (d : DisputedTx Tx NodeID) :
    (d.updateVote percentTime proposing p).2.votes = d.votes ∧ (d.updateVote percentTime proposing p).2.yays = d.yays ∧
      (d.updateVote percentTime proposing p).2.nays = d.nays ∧ (d.updateVote percentTime proposing p).2.tx = d.tx ∧
      ((d.updateVote percentTime proposing p).1 = false →
        (d.updateVote percentTime proposing p).2.ourVote = d.ourVote) := by
  rw [updateVote]
  split_ifs
  · exact ⟨rfl, rfl, rfl, rfl, fun _ => rfl⟩
  · exact ⟨rfl, rfl, rfl, rfl, fun _ => rfl⟩
  · dsimp only
    obtain ⟨hvotes, hyays, hnays, htx, hours⟩ := advance_same
      (getNeededWeight p d.avalancheState percentTime (d.avalancheCounter + 1) p.avMinRounds).2 d
    split_ifs
    · exact ⟨hvotes, hyays, hnays, htx, fun _ => hours⟩
    · exact ⟨hvotes, hyays, hnays, htx, fun h => nomatch h⟩

end DisputedTx

end Rippled.Consensus
