import Rippled.Transactor.Ledger

/-!
# Applying a transaction

`operator()` of a transactor applies one transaction to a ledger. The sequence number or the ticket of its account is
used up, its fee is charged, and `doApply` does what is special to its type. When the result claims a fee the changes
are discarded, and `reset` charges the fee and uses up the sequence number or the ticket again; the same happens when
an invariant fails. What is special to the type of a transaction is data of `Context`: `doApply`, the checks of the
invariants, the objects that it deleted and their removal after a reset.
-/

namespace Rippled.Transactor

open Lib Directory View

variable {Id Amount Rest : Type}

/-! ## Who pays -/

inductive FeePayerType where
  | account | delegate | sponsorCoSigned | sponsorPreFunded
  deriving DecidableEq

/-- The entry that pays. An account pays out of `Balance`, a sponsorship out of `FeeAmount`. -/
inductive PayerKeylet (Id : Type) where
  | account (id : Id)
  | sponsorship (sponsor sponsee : Id)
  deriving DecidableEq

structure FeePayer (Id : Type) where
  id : Id
  keylet : PayerKeylet Id
  type : FeePayerType
  deriving DecidableEq

section Model

variable [DecidableEq Id]

def getFeePayer (r : Roots Id) (tx : STTx Id) : FeePayer Id :=
  match tx.sponsor, tx.spfSponsorFee with
  | some sponsorID, true =>
    let sponseeID := tx.getInitiator
    -- a pre-funded sponsorship is preferred
    if (r.sponsorships.lookup (sponsorID, sponseeID)).isSome then
      ⟨sponsorID, .sponsorship sponsorID sponseeID, .sponsorPreFunded⟩
    else ⟨sponsorID, .account sponsorID, .sponsorCoSigned⟩
  | _, _ => ⟨tx.getInitiator, .account tx.getInitiator, if tx.delegate.isSome then .delegate else .account⟩

/-- The balance field of the entry that pays; a sponsorship without `FeeAmount` has nothing left. -/
def payerBalance (r : Roots Id) : PayerKeylet Id → Option Int
  | .account id => (r.accounts.lookup id).map (·.balance)
  | .sponsorship sponsor sponsee => (r.sponsorships.lookup (sponsor, sponsee)).map (·.feeAmount.getD 0)

def payerMaxFee (r : Roots Id) : PayerKeylet Id → Option Int
  | .account _ => none
  | .sponsorship sponsor sponsee => (r.sponsorships.lookup (sponsor, sponsee)).bind (·.maxFee)

def payerReserve (rules : Rules) (fees : Fees) (r : Roots Id) : PayerKeylet Id → Int
  | .account id => ((r.accounts.lookup id).map (accountReserve rules fees · {})).getD 0
  | .sponsorship _ _ => 0

/-- An empty `FeeAmount` is made absent. -/
def Sponsorship.setFeeAmount (sle : Sponsorship) (amount : Int) : Sponsorship :=
  { sle with feeAmount := if amount = 0 then none else some amount }

def setPayerBalance (r : Roots Id) (amount : Int) : PayerKeylet Id → Roots Id
  | .account id => r.modify id fun sle => { sle with balance := amount }
  | .sponsorship sponsor sponsee =>
    match r.sponsorships.lookup (sponsor, sponsee) with
    | none => r
    | some sle => { r with sponsorships := r.sponsorships.insert (sponsor, sponsee) (sle.setFeeAmount amount) }

def Ledger.setPayerBalance (l : Ledger Id Amount Rest) (amount : Int) (keylet : PayerKeylet Id) :
    Ledger Id Amount Rest :=
  { l with toRoots := Transactor.setPayerBalance l.toRoots amount keylet }

/-- A co-signing sponsor keeps its reserve. -/
def spendable (rules : Rules) (fees : Fees) (r : Roots Id) (feePayer : FeePayer Id) (balance : Int) : Int :=
  if feePayer.type = .sponsorCoSigned then
    let sponsorReserve := payerReserve rules fees r feePayer.keylet
    if sponsorReserve < balance then balance - sponsorReserve else 0
  else balance

/-- `MaxFee` caps what a pre-funded sponsorship pays. -/
def capped (r : Roots Id) (feePayer : FeePayer Id) (amount : Int) : Int :=
  if feePayer.type = .sponsorPreFunded then
    match payerMaxFee r feePayer.keylet with
    | none => amount
    | some cap => min amount cap
  else amount

/-! ## The transactor -/

inductive InvariantScope where
  | full | protocolOnly
  deriving DecidableEq

/-- A transaction, the ledger's settings and the flags under which it is applied, and what its type adds. -/
structure Context (Id Amount Rest : Type) where
  tx : STTx Id
  rules : Rules
  fees : Fees
  isOpen : Bool
  tapFailHard : Bool
  tapRetry : Bool
  tapDryRun : Bool
  preclaimResult : TER
  /-- What the type of the transaction does, given the balance before the fee. -/
  doApply : Int → Ledger Id Amount Rest → Run Exception (TER × Ledger Id Amount Rest)
  /-- The number of entries that a view has changed. -/
  size : Ledger Id Amount Rest → Nat
  /-- Whether all the invariants hold of a view. -/
  invariants : InvariantScope → TER → Int → Ledger Id Amount Rest → Bool
  /-- The objects of a type that a view has deleted. -/
  deletedObjects : LedgerEntryType → Ledger Id Amount Rest → List Nat
  /-- The removal of such objects from the view after a reset. -/
  removeDeleted : LedgerEntryType → List Nat → Ledger Id Amount Rest → Ledger Id Amount Rest

def kOversizeMetaDataCap : Nat := 5200

variable [LinearOrder (ObjectKey Id)] (ctx : Context Id Amount Rest)

def payFee (l : Ledger Id Amount Rest) : TER × Ledger Id Amount Rest :=
  let feePaid := ctx.tx.fee
  let feePayer := getFeePayer l.toRoots ctx.tx
  match payerBalance l.toRoots feePayer.keylet with
  | none => (.rejected .tefINTERNAL, l)
  | some balance =>
    if feePaid = 0 then (.tesSUCCESS, l)
    else
      let spendable := capped l.toRoots feePayer (spendable ctx.rules ctx.fees l.toRoots feePayer balance)
      -- only a sponsor is refused here: `reset` caps the fee of an account to its balance
      if spendable < feePaid ∧ (feePayer.type = .sponsorPreFunded ∨ feePayer.type = .sponsorCoSigned) then
        if 0 < spendable ∧ !ctx.isOpen then (.tec .tecINSUFF_FEE, l) else (.rejected .terINSUF_FEE_B, l)
      else (.tesSUCCESS, l.setPayerBalance (balance - feePaid) feePayer.keylet)

/-- `AccountTxnID`, where the account keeps one. -/
def setAccountTxnID (txnID : Nat) (sle : AccountRoot Id) : AccountRoot Id :=
  { sle with accountTxnID := sle.accountTxnID.map fun _ => txnID }

def apply (l : Ledger Id Amount Rest) : Run Exception (TER × Ledger Id Amount Rest) :=
  match l.accounts.lookup ctx.tx.account with
  | none => ctx.doApply 0 l
  | some sle => do
    let (result, l) ← consumeSeqProxy ctx.rules ctx.tx l
    if !isTesSuccess result then return (result, l)
    else
      let (result, l) := payFee ctx l
      if !isTesSuccess result then return (result, l)
      else
        let l := { l with toRoots := l.toRoots.modify ctx.tx.account (setAccountTxnID ctx.tx.transactionID) }
        ctx.doApply sle.balance l

/-- Every change is discarded, and the fee is charged to what the ledger had before. -/
def reset (base : Ledger Id Amount Rest) (fee : Int) : Run Exception (TER × Int × Ledger Id Amount Rest) :=
  if (base.accounts.lookup ctx.tx.account).isNone then .ok (.rejected .tefINTERNAL, 0, base)
  else
    let feePayer := getFeePayer base.toRoots ctx.tx
    match payerBalance base.toRoots feePayer.keylet with
    | none => .ok (.rejected .tefINTERNAL, 0, base)
    | some balance => do
      let fee := min (capped base.toRoots feePayer fee) (spendable ctx.rules ctx.fees base.toRoots feePayer balance)
      let (ter, l) ← consumeSeqProxy ctx.rules ctx.tx (base.setPayerBalance (balance - fee) feePayer.keylet)
      return (ter, fee, l)

/-- The types of deleted objects that a result lets stay deleted. -/
def typesForResult : TER → List LedgerEntryType
  | .tec .tecOVERSIZE | .tec .tecKILLED => [.offer]
  | .tec .tecINCOMPLETE => [.rippleState]
  | .tec .tecEXPIRED => [.nftokenOffer, .credential]
  | _ => []

def processPersistentChanges (base view : Ledger Id Amount Rest) (result : TER) (fee : Int) :
    Run Exception (TER × Int × Bool × Ledger Id Amount Rest) := do
  let deletedObjects := (typesForResult result).map fun type => (type, ctx.deletedObjects type view)
  let (ter, fee, l) ← reset ctx base fee
  let result := if isTesSuccess ter then result else ter
  let typesToApply := typesForResult result
  let l := if isTecClaim result ∧ typesToApply ≠ [] then
      deletedObjects.foldl (fun l (type, ids) =>
        if ids = [] ∨ type ∉ typesToApply then l else ctx.removeDeleted type ids l) l
    else l
  return (result, fee, isTecClaim result, l)

def failInvariantCheck (result : TER) : TER :=
  if result = .tec .tecINVARIANT_FAILED ∨ result = .rejected .tefINVARIANT_FAILED then .rejected .tefINVARIANT_FAILED
  else .tec .tecINVARIANT_FAILED

def checkInvariants (result : TER) (fee : Int) (scope : InvariantScope) (view : Ledger Id Amount Rest) : TER :=
  if ctx.invariants scope result fee view then result else failInvariantCheck result

/-- What a transactor reports, with the ledger that it leaves and the XRP that it destroys. -/
structure ApplyResult (Id Amount Rest : Type) where
  ter : TER
  applied : Bool
  ledger : Ledger Id Amount Rest
  destroyed : Int

def notApplied (base : Ledger Id Amount Rest) (ter : TER) : ApplyResult Id Amount Rest := ⟨ter, false, base, 0⟩

/-- Whether a transaction can be applied, with the result, the fee and the view that it then has. -/
def canApply (base view : Ledger Id Amount Rest) (result : TER) :
    Run Exception (TER × Int × Bool × Ledger Id Amount Rest) :=
  let canApplyTmp := isTesSuccess result
  let result := if kOversizeMetaDataCap < ctx.size view then .tec .tecOVERSIZE else result
  if isTecClaim result && ctx.tapFailHard then .ok (result, ctx.tx.fee, false, base)
  else if result = .tec .tecOVERSIZE ∨ result = .tec .tecKILLED ∨ result = .tec .tecINCOMPLETE ∨
      result = .tec .tecEXPIRED ∨ (isTecClaim result && !ctx.tapRetry) then
    processPersistentChanges ctx base view result ctx.tx.fee
  else .ok (result, ctx.tx.fee, canApplyTmp, view)

/-- The invariants are checked, and once more after a reset when one of them fails. -/
def checkTwice (base view : Ledger Id Amount Rest) (result : TER) (fee : Int) :
    Run Exception (TER × Int × Ledger Id Amount Rest) :=
  let result := checkInvariants ctx result fee .full view
  if result = .tec .tecINVARIANT_FAILED then do
    let (ter, fee, view) ← reset ctx base fee
    let result := if isTesSuccess ter then result else ter
    if isTesSuccess result || isTecClaim result then
      return (checkInvariants ctx result fee .protocolOnly view, fee, view)
    else return (result, fee, view)
  else .ok (result, fee, view)

/-- The result of `preclaim`, or of `apply` after a success, with the view so far. -/
def tentative (base : Ledger Id Amount Rest) : Run Exception (TER × Ledger Id Amount Rest) :=
  if isTesSuccess ctx.preclaimResult then apply ctx base else .ok (ctx.preclaimResult, base)

/-- `operator()`. -/
def operator (base : Ledger Id Amount Rest) : Run Exception (ApplyResult Id Amount Rest) := do
  let (result, view) ← tentative ctx base
  let (result, fee, canApply, view) ← canApply ctx base view result
  if !canApply then return notApplied base result
  else
    let (result, fee, view) ← checkTwice ctx base view result fee
    if !isTecClaim result && !isTesSuccess result then return notApplied base result
    else if fee < 0 then logicError "fee charged is negative!"
    else if ctx.tapDryRun then return notApplied base result
    else return ⟨result, true, view, if !ctx.isOpen then fee else 0⟩

end Model

end Rippled.Transactor
