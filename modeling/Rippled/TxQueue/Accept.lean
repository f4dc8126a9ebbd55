import Rippled.TxQueue.Apply

/-!
# Closed ledgers and the open ledger

`processClosedLedger` drops the candidates that expired, and `accept` moves candidates from the queue into a new open
ledger, by fee, with a log of its attempts.
-/

namespace Rippled.TxQueue

open Lib

variable {AccountID Rules View : Type} [LinearOrder AccountID] [DecidableEq Rules]

/-- A candidate with a sequence is skipped while there is an earlier one of its account. -/
def TxQAccount.skips (account : TxQAccount AccountID Rules) (c : Candidate AccountID) : Bool :=
  c.seqProxy.isSeq && account.transactions.toList.head?.any (·.seqProxy < c.seqProxy)

namespace TxQ

/-! ## Closed ledgers -/

/-- One pass of the loop that removes the candidates whose `LastLedgerSequence` has gone by. -/
def expireCandidate (ledgerSeq : UInt32) (q : TxQ AccountID Rules) (c : Candidate AccountID) :
    Run Exception (TxQ AccountID Rules) :=
  if c.lastValid.any (· ≤ ledgerSeq) then do
    let a ← q.accountAt c.account
    (q.setAccount { a with dropPenalty := true }).erase c
  else .ok q

variable (q : TxQ AccountID Rules) (env : Env AccountID Rules View)

def dropEmptyAccounts : TxQ AccountID Rules :=
  { q with byAccount := ⟨q.byAccount.toList.filter fun a => !a.transactions.toList.isEmpty,
    q.byAccount.sorted.filter _⟩ }

def processClosedLedger (view : View) (timeLeap : Bool) : Run Exception (TxQ AccountID Rules) := do
  let feeMetrics := q.feeMetrics.update env view timeLeap q.setup
  let maxSize := if timeLeap then q.maxSize else some
      (max (feeMetrics.txnsExpected * q.setup.ledgersInQueue) q.setup.queueSizeMin)
  let q ← q.byFee.foldlM (expireCandidate (env.seq view)) { q with feeMetrics, maxSize }
  return q.dropEmptyAccounts

/-! ## The open ledger -/

/-- The candidates in the order of another parent ledger. -/
def rebuildQueue (parentHash : BitVec 256) : TxQ AccountID Rules :=
  { q with
    parentHashComp := parentHash
    byFee := (q.byAccount.toList.flatMap (·.transactions.toList)).foldl
      (fun l m => insertByFee parentHash m.toCandidate l) [] }

/-- An attempt to apply a candidate, with the view before it and the result. -/
structure AcceptLog (AccountID View : Type) where
  candidate : Candidate AccountID
  view : View
  result : ApplyResult

/-- The state of the loop of `accept`, with its iterator. -/
structure AcceptState (AccountID Rules View : Type) [LinearOrder AccountID] where
  q : TxQ AccountID Rules
  view : View
  iter : Option (Candidate AccountID)
  ledgerChanged : Bool
  log : List (AcceptLog AccountID View)

variable (s : AcceptState AccountID Rules View)

def AcceptState.advance (c : Candidate AccountID) : Run Exception (AcceptState AccountID Rules View) := do
  let (q, iter) ← s.q.eraseAndAdvance c
  return { s with q, iter }

/-- The candidate stays in the queue, with one retry less. -/
def AcceptState.retry (c : Candidate AccountID) (m : MaybeTx AccountID Rules) (account : TxQAccount AccountID Rules)
    (txnResult : TER) : Run Exception (AcceptState AccountID Rules View) := do
  let retriesRemaining := if account.retryPenalty ∧ m.retriesRemaining > 2 then 1 else m.retriesRemaining - 1
  let q ← s.q.setTx { m with retriesRemaining, lastResult := some txnResult }
  if account.dropPenalty ∧ account.transactions.toList.length > 1 ∧ q.isFull 95 then
    if c.seqProxy.isTicket then AcceptState.advance { s with q } c
    else
      match account.transactions.toList.getLast? with
      | none => return { s with q, iter := nextByFee c q.byFee }
      | some drop => do
        -- the last entry of the account makes room, unless it is the candidate itself
        let q ← (if drop.same c then pure q else q.erase drop.toCandidate)
        return { s with q, iter := nextByFee c q.byFee }
  else return { s with q, iter := nextByFee c q.byFee }

def AcceptState.attempt (c : Candidate AccountID) (m : MaybeTx AccountID Rules) (account : TxQAccount AccountID Rules) :
    Run Exception (AcceptState AccountID Rules View) := do
  let (result, m, view) := m.apply env s.view
  let q ← s.q.setTx m
  let s := { s with q, view, log := s.log ++ [⟨c, s.view, result⟩] }
  if result.applied then AcceptState.advance { s with ledgerChanged := true } c
  else if TER.isTefFailure result.ter || TER.isTemMalformed result.ter || m.retriesRemaining ≤ 0 then do
    let account ← s.q.accountAt c.account
    let account :=
      if m.retriesRemaining ≤ 0 then { account with retryPenalty := true } else { account with dropPenalty := true }
    AcceptState.advance { s with q := s.q.setAccount account } c
  else AcceptState.retry s c m account result.ter

def acceptPass : Run Exception (AcceptState AccountID Rules View) :=
  match s.iter with
  | none => .ok s
  | some c => do
    let account ← s.q.accountAt c.account
    if account.skips c then return { s with iter := nextByFee c s.q.byFee }
    else
      match account.transactions.find c.seqProxy with
      | none => Run.throw .outOfRange
      | some m => AcceptState.attempt env s c m account

/-- The loop goes on while there is a candidate, unless that one is not skipped and pays less than what is required. -/
def acceptCondition (snapshot : Snapshot) (s : AcceptState AccountID Rules View) : Bool :=
  match s.iter with
  | none => false
  | some c =>
    match s.q.byAccount.find c.account with
    | none => true
    | some account => account.skips c || c.feeLevel ≥ getRequiredFeeLevel env snapshot s.view

/-- `TxQ::accept`, with fuel for the loop: whether the ledger changed, the log, and the view and the queue after it. -/
def accept (view : View) (fuel : Nat) :
    Run Exception ((Bool × List (AcceptLog AccountID View)) × View × TxQ AccountID Rules) := do
  let snapshot := q.feeMetrics.getSnapshot
  let s ← Run.whileDo (acceptCondition env snapshot) (acceptPass env) fuel ⟨q, view, q.byFee.head?, false, []⟩
  return ((s.ledgerChanged, s.log), s.view, s.q.rebuildQueue (env.parentHash s.view))

end TxQ

end Rippled.TxQueue
