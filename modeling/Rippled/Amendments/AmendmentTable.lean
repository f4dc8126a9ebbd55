import Rippled.Lib.HashMap

/-!
# The amendment table

The votes of the trusted validators as `TrustedVotes` records them, their count in `AmendmentSet`, and the rounds of
`AmendmentTableImpl::doVoting`, with the other functions that change the table.
-/

namespace Rippled.Amendments

open Lib

variable {PublicKey Amendment : Type} [DecidableEq PublicKey] [DecidableEq Amendment]

/-- `NetClock::time_point`, in seconds. -/
abbrev TimePoint := UInt32

/-- The validation of a validator, with the amendments it votes for if the field is present. -/
structure STValidation (PublicKey Amendment : Type) where
  signerPublic : PublicKey
  amendments : Option (List Amendment)

/-! ## Recorded votes -/

/-- The last votes of a validator. Without a timeout none were received, or they expired. -/
structure UpvotesAndTimeout (Amendment : Type) where
  upVotes : List Amendment := []
  timeout : Option TimePoint := none
  deriving DecidableEq

/-- `recordedVotes_`. -/
abbrev TrustedVotes (PublicKey Amendment : Type) := HashMap PublicKey (UpvotesAndTimeout Amendment)

namespace TrustedVotes

/-- The entry of a key in the new map: the one it had, which leaves the old map, or an empty one. -/
def moveTrusted (maps : TrustedVotes PublicKey Amendment × TrustedVotes PublicKey Amendment) (trusted : PublicKey) :
    TrustedVotes PublicKey Amendment × TrustedVotes PublicKey Amendment :=
  match maps.1.lookup trusted with
  | some votes => (maps.1.erase trusted, if trusted ∈ maps.2 then maps.2 else maps.2.insert trusted votes)
  | none => (maps.1, if trusted ∈ maps.2 then maps.2 else maps.2.insert trusted {})

variable (recordedVotes : TrustedVotes PublicKey Amendment)

def trustChanged (allTrusted : List PublicKey) : TrustedVotes PublicKey Amendment :=
  (allTrusted.foldl moveTrusted (recordedVotes, ∅)).2

/-- `kExpiresAfter`, a day. -/
def expiresAfter : UInt32 := 86400

/-- The votes of one validation. -/
def recordVote (newTimeout : TimePoint) (recordedVotes : TrustedVotes PublicKey Amendment)
    (val : STValidation PublicKey Amendment) : TrustedVotes PublicKey Amendment :=
  match recordedVotes.lookup val.signerPublic with
  | some _ => recordedVotes.insert val.signerPublic ⟨val.amendments.getD [], some newTimeout⟩
  | none => recordedVotes

/-- A record after the check for its expiry. -/
def expire (closeTime : TimePoint) (votes : UpvotesAndTimeout Amendment) : UpvotesAndTimeout Amendment :=
  match votes.timeout with
  | none => votes
  | some timeout => if closeTime > timeout then {} else votes

def recordVotes (valSet : List (STValidation PublicKey Amendment)) (closeTime : TimePoint) :
    TrustedVotes PublicKey Amendment :=
  (valSet.foldl (recordVote (closeTime + expiresAfter)) recordedVotes).mapVal fun _ votes => expire closeTime votes

def countVote (ret : HashMap Amendment Nat) (amendment : Amendment) : HashMap Amendment Nat :=
  ret.insert amendment ((ret.lookup amendment).getD 0 + 1)

/-- The number of validators with votes, and the votes for each amendment. -/
def getVotes : Nat × HashMap Amendment Nat :=
  recordedVotes.entries.foldl
    (fun (available, ret) validatorVotes =>
      (if validatorVotes.2.timeout.isSome then available + 1
        else available, validatorVotes.2.upVotes.foldl countVote ret))
    (0, ∅)

end TrustedVotes

/-! ## The count -/

structure AmendmentSet (Amendment : Type) where
  counts : HashMap Amendment Nat
  trustedValidations : Nat
  threshold : Nat

namespace AmendmentSet

/-- The constructor. The ratio `kAmendmentMajorityCalcThreshold` of 80 to 100 is kept in lowest terms. -/
def make (trustedVotes : TrustedVotes PublicKey Amendment) : AmendmentSet Amendment :=
  let (trustedCount, newVotes) := trustedVotes.getVotes
  { counts := newVotes, trustedValidations := trustedCount, threshold := max 1 (trustedCount * 4 / 5) }

def passes (set : AmendmentSet Amendment) (amendment : Amendment) : Bool :=
  match set.counts.lookup amendment with
  | none => false
  | some votes => if set.trustedValidations = 1 then votes ≥ set.threshold else votes > set.threshold

def votes (set : AmendmentSet Amendment) (amendment : Amendment) : Nat := (set.counts.lookup amendment).getD 0

end AmendmentSet

/-! ## The table -/

inductive AmendmentVote
  | obsolete
  | up
  | down
  deriving DecidableEq

structure AmendmentState where
  vote : AmendmentVote := .down
  enabled : Bool := false
  supported : Bool := false

structure AmendmentTable (PublicKey Amendment : Type) where
  amendmentMap : HashMap Amendment AmendmentState
  lastUpdateSeq : UInt32
  previousTrustedVotes : TrustedVotes PublicKey Amendment
  majorityTime : Int
  lastVote : Option (AmendmentSet Amendment)
  unsupportedEnabled : Bool
  firstUnsupportedExpected : Option TimePoint

def tfGotMajority : UInt32 := 0x00010000
def tfLostMajority : UInt32 := 0x00020000

namespace AmendmentTable

/-- The table of a server that starts, with the amendments of its configuration and its database. -/
def make (amendmentMap : HashMap Amendment AmendmentState) (majorityTime : Int) :
    AmendmentTable PublicKey Amendment where
  amendmentMap := amendmentMap
  lastUpdateSeq := 0
  previousTrustedVotes := ∅
  majorityTime := majorityTime
  lastVote := none
  unsupportedEnabled := false
  firstUnsupportedExpected := none

variable (table : AmendmentTable PublicKey Amendment)

/-- `add`: the state of an amendment, and the table where it has an entry. -/
def add (amendment : Amendment) : AmendmentState × AmendmentTable PublicKey Amendment :=
  match table.amendmentMap.lookup amendment with
  | some s => (s, table)
  | none => ({}, { table with amendmentMap := table.amendmentMap.insert amendment {} })

def setState (amendment : Amendment) (s : AmendmentState) : AmendmentTable PublicKey Amendment :=
  { table with amendmentMap := table.amendmentMap.insert amendment s }

def veto (amendment : Amendment) : Bool × AmendmentTable PublicKey Amendment :=
  let (s, table) := table.add amendment
  if s.vote ≠ .up then (false, table) else (true, table.setState amendment { s with vote := .down })

def unVeto (amendment : Amendment) : Bool × AmendmentTable PublicKey Amendment :=
  match table.amendmentMap.lookup amendment with
  | none => (false, table)
  | some s => if s.vote ≠ .down then (false, table) else (true, table.setState amendment { s with vote := .up })

def enable (amendment : Amendment) : Bool × AmendmentTable PublicKey Amendment :=
  let (s, table) := table.add amendment
  if s.enabled then (false, table)
  else
    let table := table.setState amendment { s with enabled := true }
    (true, if s.supported then table else { table with unsupportedEnabled := true })

/-- The amendments of the ledger that have a majority, one by one. -/
def expectUnsupported (majority : Amendment × TimePoint) : AmendmentTable PublicKey Amendment :=
  let (s, table) := table.add majority.1
  if s.enabled || s.supported then table
  else
    match table.firstUnsupportedExpected with
    | some first => if first > majority.2 then { table with firstUnsupportedExpected := some majority.2 } else table
    | none => { table with firstUnsupportedExpected := some majority.2 }

def doValidatedLedger (ledgerSeq : UInt32) (enabled : List Amendment) (majority : List (Amendment × TimePoint)) :
    AmendmentTable PublicKey Amendment :=
  let table := enabled.foldl (fun table e => (table.enable e).2) table
  let table := majority.foldl expectUnsupported
    { table with lastUpdateSeq := ledgerSeq, firstUnsupportedExpected := none }
  { table with
    firstUnsupportedExpected :=
      table.firstUnsupportedExpected.map fun time => UInt32.ofInt (time.toNat + table.majorityTime) }

def trustChanged (allTrusted : List PublicKey) : AmendmentTable PublicKey Amendment :=
  { table with previousTrustedVotes := table.previousTrustedVotes.trustChanged allTrusted }

/-- The flags of the pseudo-transaction for an amendment that is not enabled, if there is one. -/
def action (majorityPeriod : Int) (closeTime : TimePoint) (hasValMajority : Bool) (majorityTime : Option TimePoint)
    (vote : AmendmentVote) : Option UInt32 :=
  if hasValMajority ∧ majorityTime = none ∧ vote = .up then some tfGotMajority
  else if ¬ hasValMajority ∧ majorityTime.isSome then some tfLostMajority
  else
    match majorityTime with
    | some time => if (time.toNat + majorityPeriod ≤ closeTime.toNat) ∧ vote = .up then some 0 else none
    | none => none

def doVoting (closeTime : TimePoint) (enabledAmendments : List Amendment)
    (majorityAmendments : HashMap Amendment TimePoint) (valSet : List (STValidation PublicKey Amendment)) :
    HashMap Amendment UInt32 × AmendmentTable PublicKey Amendment :=
  let table := { table with previousTrustedVotes := table.previousTrustedVotes.recordVotes valSet closeTime }
  let vote := AmendmentSet.make table.previousTrustedVotes
  let actions := table.amendmentMap.entries.foldl
    (fun actions entry =>
      if entry.1 ∈ enabledAmendments then actions
      else
        match action table.majorityTime closeTime (vote.passes entry.1)
          (majorityAmendments.lookup entry.1) entry.2.vote with
        | some flags => actions.insert entry.1 flags
        | none => actions)
    ∅
  (actions, { table with lastVote := some vote })

end AmendmentTable

end Rippled.Amendments
