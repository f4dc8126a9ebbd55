import Rippled.TxQueue.Queue

/-!
# Applying a transaction

`TxQ::apply`: a transaction goes straight into the open ledger, clears the queue of its account up to itself, is queued,
or is refused. The checks are those of `TxQApplyImpl`, under their names, with the fields of that class in `Attempt`.
-/

namespace Rippled.TxQueue

open Lib

variable {AccountID Rules View : Type} [LinearOrder AccountID] [DecidableEq Rules]

/-- The fields of `TxQApplyImpl` that the checks read. `prevTxs` holds the entries of the account that are not below its
sequence, and is empty where the code has none. -/
structure Attempt (AccountID Rules View : Type) where
  view : View
  flags : ApplyFlags
  tx : STTx AccountID
  root : AccountRoot
  preflightRes : PreflightResult Rules
  snapshot : Snapshot
  feeLevelPaid : FeeLevel64
  requiredFeeLevel : FeeLevel64
  txQAcct : Option (TxQAccount AccountID Rules)
  prevTxs : List (MaybeTx AccountID Rules)
  txToReplace : Option (MaybeTx AccountID Rules)

namespace Attempt

variable (q : TxQ AccountID Rules) (env : Env AccountID Rules View) (a : Attempt AccountID Rules View)

def txSeq : SeqProxy := a.tx.getSeqProxy
def accSeq : SeqProxy := .rawSequence a.root.sequence
def accTxCount : Nat := a.prevTxs.length

def refuse (ter : TER) : ApplyResult := ⟨ter, false⟩

/-- A blocker is alone in the queue of its account, or takes the place of the only entry. -/
def checkIsTxBlocker : Option ApplyResult :=
  if a.preflightRes.consequences.isBlocker then
    if a.accTxCount > 1 then some (refuse TER.telCAN_NOT_QUEUE_BLOCKS)
    else
      match a.prevTxs with
      | [m] => if a.txSeq ≠ m.seqProxy then some (refuse TER.telCAN_NOT_QUEUE_BLOCKS) else none
      | _ => none
  else none

def checkFeeLevel : Option ApplyResult :=
  match a.txToReplace with
  | none => none
  | some replacedTx =>
    if a.feeLevelPaid > increase replacedTx.feeLevel q.setup.retrySequencePercent then none
    else some (refuse TER.telCAN_NOT_QUEUE_FEE)

/-- Nothing is queued behind a blocker. -/
def checkBlockerInAccQue : Option ApplyResult :=
  match a.prevTxs with
  | [] => none
  | [m] =>
    if m.consequences.isBlocker ∧ m.seqProxy ≠ a.txSeq then some
      (refuse TER.telCAN_NOT_QUEUE_BLOCKED) else a.checkFeeLevel q
  | _ => a.checkFeeLevel q

/-- `TxQ::canBeHeld`. -/
def canBeHeldTer : TER :=
  if a.tx.kind = .batch then TER.telCAN_NOT_QUEUE
  else if a.tx.hasPreviousTxnID || a.tx.hasAccountTxnID || a.flags &&& tapFailHard ≠ 0 then TER.telCAN_NOT_QUEUE
  else if a.tx.hasDelegate then TER.telCAN_NOT_QUEUE
  else if a.tx.isFeeSponsored then TER.telCAN_NOT_QUEUE
  else if a.tx.lastLedgerSequence.any (· < env.seq a.view + q.setup.minimumLastLedgerBuffer) then TER.telCAN_NOT_QUEUE
  else
    match a.txQAcct with
    | none => TER.tesSUCCESS
    | some txQAcct =>
      if a.txToReplace.isSome then TER.tesSUCCESS
      else if txQAcct.getTxnCount < q.setup.maximumTxnPerAccount.toNat then TER.tesSUCCESS
      else if a.txSeq.isTicket then TER.telCAN_NOT_QUEUE_FULL
      else
        let nextQueuable := q.nextQueuableSeqImpl a.tx.account (some a.root)
        if a.txSeq ≠ nextQueuable then TER.telCAN_NOT_QUEUE_FULL
        else
          match txQAcct.transactions.upperBound nextQueuable with
          | [] => TER.telCAN_NOT_QUEUE_FULL
          | m :: _ => if m.seqProxy.isSeq then TER.tesSUCCESS else TER.telCAN_NOT_QUEUE_FULL

/-- Whether the test view of `MultiTxn` is needed. -/
def checkMultiTxn : Except ApplyResult Bool :=
  if a.accTxCount > 1 ∨ a.txToReplace = none then
    let ter := a.canBeHeldTer q env
    if TER.isTesSuccess ter then .ok true else .error (refuse ter)
  else .ok false

/-- The place of the transaction among the sequences of the account. -/
def checkFrontTx (prev : Option (MaybeTx AccountID Rules)) : Option ApplyResult :=
  if prev.all (a.txSeq < ·.seqProxy) then
    if a.txSeq.isSeq then
      if a.txSeq < a.accSeq then some (refuse TER.tefPAST_SEQ)
      else if a.txSeq > a.accSeq then some (refuse TER.terPRE_SEQ)
      else none
    else none
  else if a.txToReplace = none then
    if a.txSeq.isSeq ∧ q.nextQueuableSeqImpl a.tx.account (some a.root) ≠ a.txSeq then some
      (refuse TER.telCAN_NOT_QUEUE)
    else none
  else none

/-- The spending and the fees of the queued transactions. The one that is replaced counts with the new transaction's,
unless it is the last. -/
def calcSpendAndFee (a : Attempt AccountID Rules View) : List (MaybeTx AccountID Rules) → Int × Int
  | [] => (0, 0)
  | m :: rest =>
    let (potentialSpend, totalFee) := a.calcSpendAndFee rest
    if m.seqProxy ≠ a.txSeq then (m.consequences.potentialSpend + potentialSpend, m.consequences.fee + totalFee)
    else if rest ≠ [] then
      (a.preflightRes.consequences.potentialSpend + potentialSpend, a.preflightRes.consequences.fee + totalFee)
    else (potentialSpend, totalFee)

/-- The checks against the other transactions of the account, with the test view where one is needed. -/
def processAccountTxs : Except ApplyResult (Option View) :=
  if a.accSeq > a.txSeq then .error (refuse TER.tefPAST_SEQ)
  else
    match a.checkMultiTxn q env with
    | .error err => .error err
    | .ok false => .ok none
    | .ok true =>
      match a.checkFrontTx q (a.txQAcct.bind (·.getPrevTx a.txSeq)) with
      | some err => .error err
      | none =>
        let (potentialSpend, totalFee) := a.calcSpendAndFee a.prevTxs
        let balance := a.root.balance
        let reserve := (env.fees a.view).reserve
        let base := (env.fees a.view).base
        if totalFee ≥ balance ∨ (reserve > 10 * base ∧ totalFee ≥ reserve) then .error
          (refuse TER.telCAN_NOT_QUEUE_BALANCE)
        else
          let potentialTotalSpend := totalFee + min (balance - min balance reserve) potentialSpend
          let sequence :=
            if a.txSeq.isSeq then a.txSeq.value else (q.nextQueuableSeqImpl a.tx.account (some a.root)).value
          match env.multiTxn a.view a.flags a.tx.account (balance - potentialTotalSpend) sequence with
          | none => .error (refuse TER.tefINTERNAL)
          | some multiTxn => .ok (some multiTxn)

/-- The queued transactions of a range applied one after another, up to the first that fails. -/
def applyRange (env : Env AccountID Rules View) (view : View) :
    List (MaybeTx AccountID Rules) → List (MaybeTx AccountID Rules) × Except TER View
  | [] => ([], .ok view)
  | m :: range =>
    let (txResult, m, view) := m.apply env view
    let m := { m with retriesRemaining := m.retriesRemaining - 1, lastResult := some txResult.ter }
    if txResult.ter ≠ TER.tefNO_TICKET ∧ !txResult.applied then (m :: range, .error txResult.ter)
    else
      let (range, result) := applyRange env view range
      (m :: range, result)

/-- `TxQ::tryClearAccountQueueUpThruTx`, in a sandbox. -/
def clearAccountQueueUpThruTx : Run Exception (ApplyResult × View × TxQ AccountID Rules) := do
  let sandbox := env.sandbox a.view
  let range := a.prevTxs.takeWhile (·.seqProxy < a.txSeq)
  let required := FeeMetrics.escalatedSeriesFeeLevel a.snapshot (env.txCount sandbox) (env.txCount a.view)
    (UInt64.ofNat range.length + 1)
  let totalFeeLevelPaid := range.foldl (fun total m => total + m.feeLevel) a.feeLevelPaid
  if !required.1 || totalFeeLevelPaid < required.2.getD 0 then return (refuse TER.telINSUF_FEE_P, sandbox, q)
  else do
    let (updated, result) := applyRange env sandbox range
    let q ← updated.foldlM TxQ.setTx q
    match result with
    | .error ter => return (refuse ter, sandbox, q)
    | .ok sandbox =>
      let ((ter, applied), sandbox) := env.doApply a.tx a.flags sandbox
      if !applied then return (⟨ter.1, false⟩, sandbox, q)
      else do
        let q ← q.eraseRange updated
        let q ← (match a.txToReplace with
          | some replacedTx => q.erase replacedTx.toCandidate
          | none => pure q)
        return (⟨ter.1, true⟩, sandbox, q)

/-- `TxQApplyImpl::tryClearAccountQueueUpThruTx`, with the result where the queue was cleared. -/
def tryClearAccountQueueUpThruTx (multiTxn : Option View) :
    Run Exception (Option ApplyResult × View × TxQ AccountID Rules) :=
  match a.prevTxs with
  | [] => .ok (none, a.view, q)
  | first :: _ =>
    if a.txSeq.isSeq ∧ multiTxn.isSome ∧ first.retriesRemaining = retriesAllowed ∧ a.feeLevelPaid > a.requiredFeeLevel ∧
        a.requiredFeeLevel > baseLevel then do
      let (result, sandbox, q) ← a.clearAccountQueueUpThruTx q env
      if result.applied then return (some result, env.commit sandbox a.view, q) else return (none, a.view, q)
    else .ok (none, a.view, q)

def canBeHeld (multiTxn : Option View) : Option ApplyResult :=
  if multiTxn.isSome then none
  else
    let ter := a.canBeHeldTer q env
    if TER.isTesSuccess ter then none else some (refuse ter)

/-- The average fee level of an account, without overflow. -/
def averageFeeLevel (transactions : List (MaybeTx AccountID Rules)) : FeeLevel64 :=
  let size := UInt64.ofNat transactions.length
  let total := transactions.foldl
    (fun (total : FeeLevel64 × FeeLevel64) m =>
      let next := m.feeLevel / size
      let mod := m.feeLevel % size
      if total.1 ≥ muldivMax - next ∨ total.2 ≥ muldivMax - mod then (muldivMax, 0)
        else (total.1 + next, total.2 + mod))
    (0, 0)
  total.1 + total.2 / size

/-- The effective fee level of the account that has the last entry of the queue. -/
def endEffectiveFeeLevel (last : Candidate AccountID) (endAccount : TxQAccount AccountID Rules) : FeeLevel64 :=
  if last.feeLevel > a.feeLevelPaid ∨ endAccount.transactions.toList.length = 1 then last.feeLevel
  else averageFeeLevel endAccount.transactions.toList

/-- In a full queue the last transaction of another account makes room, if that account pays less. -/
def processQueueIsFull : Run Exception (Except ApplyResult (TxQ AccountID Rules)) :=
  if a.txToReplace = none ∧ q.isFull 100 then
    match q.byFee.reverse.find? (·.account ≠ a.tx.account) with
    | none => .ok (.error (refuse TER.telCAN_NOT_QUEUE_FULL))
    | some last => do
      let endAccount ← q.accountAt last.account
      if a.feeLevelPaid > a.endEffectiveFeeLevel last endAccount then
        match endAccount.transactions.toList.getLast? with
        | none => return .ok q
        | some drop => .ok <$> q.erase drop.toCandidate
      else return .error (refuse TER.telCAN_NOT_QUEUE_FULL)
  else .ok (.ok q)

/-- The candidate that is queued. Soft failures are not allowed when it comes out of the queue. -/
def candidate : Candidate AccountID := ⟨a.tx, a.feeLevelPaid, a.flags &&& ~~~tapRetry⟩

def addTxToQueue : TxQ AccountID Rules :=
  let c := a.candidate
  let txQAcct := (q.byAccount.find a.tx.account).getD (.make a.tx.account)
  let q := q.setAccount (txQAcct.add (.make c.txn c.feeLevel c.flags a.preflightRes))
  { q with byFee := insertByFee q.parentHashComp c q.byFee }

/-- The rest of `applyImpl`, from where the transaction fits with the others of its account. -/
def queueTx (multiTxn : Option View) : Run Exception (ApplyResult × View × TxQ AccountID Rules) := do
  let pcresult := env.preclaim a.tx a.flags (multiTxn.getD a.view)
  if !pcresult.likelyToClaimFee then return (refuse pcresult.ter.1, a.view, q)
  else do
    let (cleared, view, q) ← a.tryClearAccountQueueUpThruTx q env multiTxn
    match cleared with
    | some result => return (result, view, q)
    | none =>
      match a.canBeHeld q env multiTxn with
      | some err => return (err, view, q)
      | none => do
        match ← a.processQueueIsFull q with
        | .error err => return (err, view, q)
        | .ok q => do
          let q ← (match a.txToReplace with
            | some replacedTx => q.erase replacedTx.toCandidate
            | none => pure q)
          return (⟨TER.terQUEUED, false⟩, view, a.addTxToQueue q)

end Attempt

open Attempt

namespace TxQ

variable (q : TxQ AccountID Rules) (env : Env AccountID Rules View) (view : View)
    (tx : STTx AccountID) (flags : ApplyFlags)

def getRequiredFeeLevel (snapshot : Snapshot) (view : View) : FeeLevel64 :=
  FeeMetrics.scaleFeeLevel snapshot (env.txCount view)

/-- `tryDirectApply`, with nothing where the transaction is left to the queue. -/
def tryDirectApply : Run Exception (Option (ApplyResult × View × TxQ AccountID Rules)) :=
  match env.account view tx.account with
  | none => .ok none
  | some root =>
    if tx.getSeqProxy.isSeq ∧ tx.getSeqProxy ≠ .rawSequence root.sequence then .ok none
    else
      match getFeeLevelPaid env view tx with
      | .error ter => .ok (some (refuse ter.1, view, q))
      | .ok feeLevelPaid =>
        if feeLevelPaid ≥ getRequiredFeeLevel env q.feeMetrics.getSnapshot view then
          let ((ter, didApply), view) := env.apply view tx flags
          if didApply then
            match (q.byAccount.find tx.account).bind (·.transactions.find tx.getSeqProxy) with
            | none => .ok (some (⟨ter.1, true⟩, view, q))
            | some replacedTx => do
              let q ← q.erase replacedTx.toCandidate
              return some (⟨ter.1, true⟩, view, q)
          else .ok (some (⟨ter.1, false⟩, view, q))
        else .ok none

def checkTicketInLedger (root : AccountRoot) : Option ApplyResult :=
  if tx.getSeqProxy.isTicket ∧ !env.ticketExists view tx.account tx.getSeqProxy then
    if tx.getSeqProxy.value < root.sequence then some (refuse TER.tefNO_TICKET) else some (refuse TER.terPRE_TICKET)
  else none

/-- The fields of `TxQApplyImpl` for a transaction that is not applied directly. -/
def attempt (preflightRes : PreflightResult Rules) (root : AccountRoot) (feeLevelPaid : FeeLevel64) :
    Attempt AccountID Rules View :=
  let txQAcct := q.byAccount.find tx.account
  { view, flags, tx, root, preflightRes, feeLevelPaid, txQAcct
    snapshot := q.feeMetrics.getSnapshot
    requiredFeeLevel := getRequiredFeeLevel env q.feeMetrics.getSnapshot view
    prevTxs := (txQAcct.map fun t => t.transactions.lowerBound (.rawSequence root.sequence)).getD []
    txToReplace := txQAcct.bind fun t => t.transactions.find tx.getSeqProxy }

/-- `applyImpl`, under the lock. -/
def applyImpl (preflightRes : PreflightResult Rules) (root : AccountRoot) :
    Run Exception (ApplyResult × View × TxQ AccountID Rules) :=
  -- the check for a blocker comes before the fee level is computed
  match (q.attempt env view tx flags preflightRes root 0).checkIsTxBlocker with
  | some err => .ok (err, view, q)
  | none =>
    match getFeeLevelPaid env view tx with
    | .error ter => .ok (refuse ter.1, view, q)
    | .ok feeLevelPaid =>
      let a := q.attempt env view tx flags preflightRes root feeLevelPaid
      match a.checkBlockerInAccQue q with
      | some err => .ok (err, view, q)
      | none =>
        if a.accTxCount = 0 then
          if a.txSeq.isSeq ∧ a.accSeq > a.txSeq then .ok (refuse TER.tefPAST_SEQ, view, q)
          else if a.txSeq.isSeq ∧ a.accSeq < a.txSeq then .ok (refuse TER.terPRE_SEQ, view, q)
          else a.queueTx q env none
        else
          match a.processAccountTxs q env with
          | .error err => .ok (err, view, q)
          | .ok multiTxn => a.queueTx q env multiTxn

/-- `TxQ::apply`, with the view and the queue after it. -/
def apply : Run Exception (ApplyResult × View × TxQ AccountID Rules) := do
  let preflightRes := env.preflightResult (env.rules view) tx flags
  if !TER.isTesSuccess preflightRes.ter.1 then return (refuse preflightRes.ter.1, view, q)
  else
    match ← q.tryDirectApply env view tx flags with
    | some result => return result
    | none =>
      if flags &&& tapDryRun ≠ 0 then return (refuse TER.telCAN_NOT_QUEUE, view, q)
      else
        match env.account view tx.account with
        | none => return (refuse TER.terNO_ACCOUNT, view, q)
        | some root =>
          match checkTicketInLedger env view tx root with
          | some err => return (err, view, q)
          | none => q.applyImpl env view tx flags preflightRes root

end TxQ

end Rippled.TxQueue
