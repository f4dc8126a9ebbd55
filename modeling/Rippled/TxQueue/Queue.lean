import Rippled.Lib.KeyedMap
import Rippled.Lib.Loop
import Rippled.TxQueue.Transaction

/-!
# The transaction queue

The candidates, ordered by fee in `byFee` and held by account in `byAccount`, with the functions that erase them and the
sequence that the queue hands out. The ledger views and the transactors stand behind `Env`.
-/

namespace Rippled.TxQueue

open Lib

variable {AccountID Rules View : Type} [LinearOrder AccountID] [DecidableEq Rules]

abbrev FeeLevel64 := UInt64
abbrev ApplyFlags := UInt32

def tapFailHard : ApplyFlags := 0x10
def tapRetry : ApplyFlags := 0x20
def tapDryRun : ApplyFlags := 0x1000

/-! ## What the queue calls -/

/-- What a transactor returns. Only the queue itself returns `terQUEUED`. -/
abbrev TxResult := { ter : TER // ter ≠ TER.terQUEUED }

structure ApplyResult where
  ter : TER
  applied : Bool
  deriving DecidableEq

structure AccountRoot where
  sequence : UInt32
  balance : Int

structure Fees where
  base : Int
  reserve : Int

structure PreclaimResult where
  ter : TxResult
  likelyToClaimFee : Bool

/-- The views and the transactors. All of it is arbitrary, but that a transaction which passes `preflight` once later
passes it or fails with a result for which the queue drops it: the local results that `preflight` gives do not depend on
the rules. -/
structure Env (AccountID Rules View : Type) where
  rules : View → Rules
  seq : View → UInt32
  parentHash : View → BitVec 256
  txCount : View → UInt64
  txs : View → List (STTx AccountID)
  account : View → AccountID → Option AccountRoot
  ticketExists : View → AccountID → SeqProxy → Bool
  fees : View → Fees
  calculateBaseFee : View → STTx AccountID → Except TxResult Int
  calculateDefaultBaseFee : View → STTx AccountID → Int
  preflight : Rules → STTx AccountID → ApplyFlags → TxResult
  /-- `preclaim` of a transaction that passes `preflight`. -/
  preclaim : STTx AccountID → ApplyFlags → View → PreclaimResult
  /-- `preclaim` and `doApply` of a transaction that passes `preflight`, with the view after it. -/
  doApply : STTx AccountID → ApplyFlags → View → (TxResult × Bool) × View
  /-- `xrpl::apply`, with the view after it. -/
  apply : View → STTx AccountID → ApplyFlags → (TxResult × Bool) × View
  /-- The view of `MultiTxn`, where the account has another balance and sequence. -/
  multiTxn : View → ApplyFlags → AccountID → Int → UInt32 → Option View
  /-- An open view over another, and what is left when it is applied. -/
  sandbox : View → View
  commit : View → View → View
  preflight_stable : ∀ tx r f r' f', TER.isTesSuccess (preflight r tx f).1 = true →
    TER.isTesSuccess (preflight r' tx f').1 = true ∨ TER.isTemMalformed (preflight r' tx f').1 = true ∨
      TER.isTefFailure (preflight r' tx f').1 = true

structure PreflightResult (Rules : Type) where
  rules : Rules
  flags : ApplyFlags
  ter : TxResult
  consequences : TxConsequences

variable (env : Env AccountID Rules View)

def Env.preflightResult (rules : Rules) (tx : STTx AccountID) (flags : ApplyFlags) : PreflightResult Rules :=
  let ter := env.preflight rules tx flags
  { rules, flags, ter, consequences := if TER.isTesSuccess ter.1 then .make tx else .failed }

/-! ## Arithmetic of fee levels -/

def muldivMax : UInt64 := 0xFFFFFFFFFFFFFFFF

/-- There is no result where it does not fit, and none for `div = 0`, where the code's division throws. -/
def mulDiv (value mul div : UInt64) : Option UInt64 :=
  if div = 0 then none
  else
    let result := value.toNat * mul.toNat / div.toNat
    if result > muldivMax.toNat then none else some (UInt64.ofNat result)

def baseLevel : FeeLevel64 := 256

def getFeeLevelPaid (view : View) (tx : STTx AccountID) : Except TxResult FeeLevel64 := do
  let fee ← env.calculateBaseFee view tx
  let mod :=
    if fee > 0 then 0
    else if env.calculateDefaultBaseFee view tx = 0 then 1 else env.calculateDefaultBaseFee view tx
  let baseFee := fee + mod
  let effectiveFeePaid := tx.fee + mod
  if effectiveFeePaid ≤ 0 ∨ baseFee ≤ 0 then return 0
  else return (mulDiv (UInt64.ofInt effectiveFeePaid) baseLevel (UInt64.ofInt baseFee)).getD muldivMax

def increase (level : FeeLevel64) (increasePercent : UInt32) : FeeLevel64 :=
  (mulDiv level (100 + increasePercent).toUInt64 100).getD muldivMax

/-! ## Fee metrics -/

structure Setup where
  ledgersInQueue : UInt64
  queueSizeMin : UInt64
  retrySequencePercent : UInt32
  minimumEscalationMultiplier : FeeLevel64
  normalConsensusIncreasePercent : UInt32
  slowConsensusDecreasePercent : UInt32
  maximumTxnPerAccount : UInt32
  minimumLastLedgerBuffer : UInt32

structure FeeMetrics where
  minimumTxnCount : UInt64
  targetTxnCount : UInt64
  maximumTxnCount : Option UInt64
  txnsExpected : UInt64
  recentTxnCounts : List UInt64
  escalationMultiplier : FeeLevel64

structure Snapshot where
  txnsExpected : UInt64
  escalationMultiplier : FeeLevel64

namespace FeeMetrics

variable (metrics : FeeMetrics)

def getSnapshot : Snapshot := ⟨metrics.txnsExpected, metrics.escalationMultiplier⟩

/-- The expected number of transactions after a ledger with `size` of them. -/
def updateExpected (setup : Setup) (timeLeap : Bool) (size : UInt64) : UInt64 × List UInt64 :=
  if timeLeap then
    let cutPct := (100 - setup.slowConsensusDecreasePercent).toUInt64
    let upperLimit := max ((mulDiv metrics.txnsExpected cutPct 100).getD muldivMax) metrics.minimumTxnCount
    (min (max ((mulDiv size cutPct 100).getD muldivMax) metrics.minimumTxnCount) upperLimit, [])
  else if size > metrics.txnsExpected ∨ size > metrics.targetTxnCount then
    let count := (mulDiv size (100 + setup.normalConsensusIncreasePercent).toUInt64 100).getD muldivMax
    -- the buffer holds the last counts only
    let recent := (metrics.recentTxnCounts ++ [count]).drop
        (metrics.recentTxnCounts.length + 1 - setup.ledgersInQueue.toNat)
    let most := recent.foldl max 0
    let next := if most ≥ metrics.txnsExpected then most else (metrics.txnsExpected * 9 + most) / 10
    (min next (metrics.maximumTxnCount.getD next), recent)
  else (metrics.txnsExpected, metrics.recentTxnCounts)

/-- The fee levels of the transactions of a closed ledger, by increasing level. -/
def sortedFeeLevels (view : View) : List FeeLevel64 :=
  ((env.txs view).filterMap fun tx => (getFeeLevelPaid env view tx).toOption).mergeSort

def update (env : Env AccountID Rules View) (view : View) (timeLeap : Bool) (setup : Setup) : FeeMetrics :=
  let feeLevels := sortedFeeLevels env view
  let (txnsExpected, recentTxnCounts) := metrics.updateExpected setup timeLeap (UInt64.ofNat (env.txs view).length)
  let count := feeLevels.length
  let median := (feeLevels.getD (count / 2) 0 + feeLevels.getD ((count - 1) / 2) 0 + 1) / 2
  { metrics with
    txnsExpected, recentTxnCounts
    escalationMultiplier :=
      if feeLevels.isEmpty then setup.minimumEscalationMultiplier else max median setup.minimumEscalationMultiplier }

/-- The fee level that a transaction must pay to get into an open ledger. -/
def scaleFeeLevel (snapshot : Snapshot) (current : UInt64) : FeeLevel64 :=
  let target := snapshot.txnsExpected
  if current > target then (mulDiv snapshot.escalationMultiplier (current * current) (target * target)).getD muldivMax
  else baseLevel

def sumOfFirstSquares (x : UInt64) : Bool × UInt64 :=
  if x ≥ (1 : UInt64) <<< 21 then (false, muldivMax) else (true, x * (x + 1) * (2 * x + 1) / 6)

/-- The level that a series of transactions must pay together. The level is missing when the code reads the empty result
of `mulDiv`. -/
def escalatedSeriesFeeLevel (snapshot : Snapshot) (txCount extraCount seriesSize : UInt64) : Bool × Option FeeLevel64 :=
  let current := txCount + extraCount
  let last := current + seriesSize - 1
  let target := snapshot.txnsExpected
  let sumNlast := sumOfFirstSquares last
  let sumNcurrent := sumOfFirstSquares (current - 1)
  if !sumNlast.1 then (false, some sumNlast.2)
  else
    let totalFeeLevel := mulDiv snapshot.escalationMultiplier (sumNlast.2 - sumNcurrent.2) (target * target)
    (totalFeeLevel.isSome, totalFeeLevel)

end FeeMetrics

/-! ## Candidates -/

/-- The members of a `MaybeTx` that never change. -/
structure Candidate (AccountID : Type) where
  txn : STTx AccountID
  feeLevel : FeeLevel64
  flags : ApplyFlags
  deriving DecidableEq

namespace Candidate

variable (c : Candidate AccountID)

def txID : BitVec 256 := c.txn.transactionID
def account : AccountID := c.txn.account
def lastValid : Option UInt32 := c.txn.lastLedgerSequence
def seqProxy : SeqProxy := c.txn.getSeqProxy

/-- `OrderCandidates`. -/
def before (parentHashComp : BitVec 256) (lhs rhs : Candidate AccountID) : Bool :=
  if lhs.feeLevel = rhs.feeLevel then (lhs.txID ^^^ parentHashComp) < (rhs.txID ^^^ parentHashComp)
  else lhs.feeLevel > rhs.feeLevel

/-- The two stand for one entry of the queue. -/
def same (d : Candidate AccountID) : Bool := c.account = d.account ∧ c.seqProxy = d.seqProxy

end Candidate

structure MaybeTx (AccountID Rules : Type) extends Candidate AccountID where
  retriesRemaining : Int
  lastResult : Option TER
  pfResult : PreflightResult Rules

def retriesAllowed : Int := 10

namespace MaybeTx

def make (txn : STTx AccountID) (feeLevel : FeeLevel64) (flags : ApplyFlags) (pfResult : PreflightResult Rules) :
    MaybeTx AccountID Rules where
  txn := txn
  feeLevel := feeLevel
  flags := flags
  retriesRemaining := retriesAllowed
  lastResult := none
  pfResult := pfResult

variable (m : MaybeTx AccountID Rules)

def consequences : TxConsequences := m.pfResult.consequences

/-- `preflight` again, where the rules or the flags changed. -/
def refresh (env : Env AccountID Rules View) (view : View) : MaybeTx AccountID Rules :=
  if m.pfResult.rules ≠ env.rules view ∨ m.pfResult.flags ≠ m.flags then
    { m with pfResult := env.preflightResult (env.rules view) m.txn m.flags }
  else m

/-- `apply`, with the candidate and the view after it. -/
def apply (env : Env AccountID Rules View) (view : View) : ApplyResult × MaybeTx AccountID Rules × View :=
  let m := m.refresh env view
  if TER.isTesSuccess m.pfResult.ter.1 then
    let ((ter, applied), view) := env.doApply m.txn m.flags view
    (⟨ter.1, applied⟩, m, view)
  else (⟨m.pfResult.ter.1, false⟩, m, view)

end MaybeTx

instance : Keyed (MaybeTx AccountID Rules) SeqProxy := ⟨fun m => m.seqProxy⟩

abbrev TxMap (AccountID Rules : Type) := KeyedMap (MaybeTx AccountID Rules)

structure TxQAccount (AccountID Rules : Type) where
  account : AccountID
  transactions : TxMap AccountID Rules
  retryPenalty : Bool
  dropPenalty : Bool

instance : Keyed (TxQAccount AccountID Rules) AccountID := ⟨fun a => a.account⟩

namespace TxQAccount

def make (account : AccountID) : TxQAccount AccountID Rules where
  account := account
  transactions := ∅
  retryPenalty := false
  dropPenalty := false

variable (a : TxQAccount AccountID Rules)

def getTxnCount : Nat := a.transactions.toList.length

/-- The entry that precedes `seqProx`, or the first one, if there is any. -/
def getPrevTx (seqProx : SeqProxy) : Option (MaybeTx AccountID Rules) :=
  match (a.transactions.toList.takeWhile (·.seqProxy < seqProx)).getLast? with
  | some m => some m
  | none => (a.transactions.lowerBound seqProx).head?

/-- `emplace`, that keeps an entry which is there. -/
def add (m : MaybeTx AccountID Rules) : TxQAccount AccountID Rules :=
  match a.transactions.find m.seqProxy with
  | some _ => a
  | none => { a with transactions := a.transactions.insert m }

def remove (seqProx : SeqProxy) : TxQAccount AccountID Rules :=
  { a with transactions := a.transactions.erase seqProx }

end TxQAccount

/-! ## The queue -/

structure TxQ (AccountID Rules : Type) [LinearOrder AccountID] where
  setup : Setup
  feeMetrics : FeeMetrics
  byFee : List (Candidate AccountID)
  byAccount : KeyedMap (TxQAccount AccountID Rules)
  maxSize : Option UInt64
  parentHashComp : BitVec 256

/-- What `std::map::at` throws. -/
inductive Exception
  | outOfRange
  deriving DecidableEq

/-- The insertion into the multiset, behind the entries that are not after the new one. -/
def insertByFee (parentHashComp : BitVec 256) (c : Candidate AccountID) :
    List (Candidate AccountID) → List (Candidate AccountID)
  | [] => [c]
  | d :: l => if c.before parentHashComp d then c :: d :: l else d :: insertByFee parentHashComp c l

def eraseByFee (c : Candidate AccountID) (l : List (Candidate AccountID)) : List (Candidate AccountID) :=
  l.eraseP (c.same ·)

def nextByFee (c : Candidate AccountID) (l : List (Candidate AccountID)) : Option (Candidate AccountID) :=
  (l.dropWhile fun d => !c.same d).tail.head?

namespace TxQ

def make (setup : Setup) (feeMetrics : FeeMetrics) : TxQ AccountID Rules where
  setup := setup
  feeMetrics := feeMetrics
  byFee := []
  byAccount := ∅
  maxSize := none
  parentHashComp := 0

variable (q : TxQ AccountID Rules)

def isFull (fillPercentage : UInt64) : Bool :=
  match q.maxSize with
  | none => false
  | some maxSize => (maxSize * fillPercentage / 100).toNat ≤ q.byFee.length

def accountAt (account : AccountID) : Run Exception (TxQAccount AccountID Rules) :=
  match q.byAccount.find account with
  | some a => .ok a
  | none => Run.throw .outOfRange

def setAccount (a : TxQAccount AccountID Rules) : TxQ AccountID Rules :=
  { q with byAccount := q.byAccount.insert a }

/-- The entry of a candidate changed in place. -/
def setTx (m : MaybeTx AccountID Rules) : Run Exception (TxQ AccountID Rules) := do
  let a ← q.accountAt m.account
  return q.setAccount { a with transactions := a.transactions.insert m }

def erase (c : Candidate AccountID) : Run Exception (TxQ AccountID Rules) := do
  let txQAccount ← q.accountAt c.account
  return { q.setAccount (txQAccount.remove c.seqProxy) with byFee := eraseByFee c q.byFee }

/-- `eraseAndAdvance`, with the candidate to go on with. -/
def eraseAndAdvance (c : Candidate AccountID) : Run Exception (TxQ AccountID Rules × Option (Candidate AccountID)) := do
  let txQAccount ← q.accountAt c.account
  let accountNext := (txQAccount.transactions.upperBound c.seqProxy).head?
  let feeNext := nextByFee c q.byFee
  let useAccountNext :=
    match accountNext with
    | none => false
    | some m =>
      match feeNext with
      | none => true
      | some d => m.before q.parentHashComp d
  let q ← q.erase c
  return (q, if useAccountNext then accountNext.map (·.toCandidate) else feeNext)

/-- `erase` of a range of the entries of an account. -/
def eraseRange (q : TxQ AccountID Rules) : List (MaybeTx AccountID Rules) → Run Exception (TxQ AccountID Rules)
  | [] => return q
  | m :: range => do
    let q ← q.erase m.toCandidate
    q.eraseRange range

/-- The loop of `nextQueuableSeqImpl`. -/
def followGaps (attempt : SeqProxy) : List (MaybeTx AccountID Rules) → SeqProxy
  | [] => attempt
  | m :: rest => if attempt < m.seqProxy then attempt else followGaps m.consequences.followingSeq rest

/-- The first sequence that a transaction can be queued with. -/
def nextQueuableSeqImpl (account : AccountID) (sleAccount : Option AccountRoot) : SeqProxy :=
  match sleAccount with
  | none => .rawSequence 0
  | some root =>
    let acctSeqProx := SeqProxy.rawSequence root.sequence
    match q.byAccount.find account with
    | none => acctSeqProx
    | some txQAcct =>
      match txQAcct.transactions.lowerBound acctSeqProx with
      | [] => acctSeqProx
      | m :: rest =>
        if !m.seqProxy.isSeq || m.seqProxy ≠ acctSeqProx then acctSeqProx
          else followGaps m.consequences.followingSeq rest

end TxQ

end Rippled.TxQueue
