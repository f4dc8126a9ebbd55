import Mathlib.Order.Lattice
import Mathlib.Tactic.Basic

/-!
# Transactions as the queue sees them

The result codes, the sequence or ticket of a transaction, and the consequences that a transaction has for the ones
behind it.
-/

namespace Rippled.TxQueue

/-! ## Result codes -/

abbrev TER := Int

namespace TER

def telLOCAL_ERROR : TER := -399
def telINSUF_FEE_P : TER := -394
def telCAN_NOT_QUEUE : TER := -392
def telCAN_NOT_QUEUE_BALANCE : TER := -391
def telCAN_NOT_QUEUE_BLOCKS : TER := -390
def telCAN_NOT_QUEUE_BLOCKED : TER := -389
def telCAN_NOT_QUEUE_FEE : TER := -388
def telCAN_NOT_QUEUE_FULL : TER := -387
def temMALFORMED : TER := -299
def temINVALID_COUNT : TER := -266
def temSEQ_AND_TICKET : TER := -263
def tefFAILURE : TER := -199
def tefBAD_LEDGER : TER := -195
def tefINTERNAL : TER := -192
def tefPAST_SEQ : TER := -190
def tefNO_TICKET : TER := -180
def terRETRY : TER := -99
def terNO_ACCOUNT : TER := -96
def terPRE_SEQ : TER := -92
def terQUEUED : TER := -89
def terPRE_TICKET : TER := -88
def tesSUCCESS : TER := 0
def tecDIR_FULL : TER := 121
def tecINSUFFICIENT_RESERVE : TER := 141

def isTelLocal (ter : TER) : Bool := telLOCAL_ERROR ≤ ter ∧ ter < temMALFORMED
def isTemMalformed (ter : TER) : Bool := temMALFORMED ≤ ter ∧ ter < tefFAILURE
def isTefFailure (ter : TER) : Bool := tefFAILURE ≤ ter ∧ ter < terRETRY
def isTerRetry (ter : TER) : Bool := terRETRY ≤ ter ∧ ter < tesSUCCESS
def isTesSuccess (ter : TER) : Bool := ter = tesSUCCESS

end TER

/-! ## Sequences and tickets -/

inductive SeqType
  | seq
  | ticket
  deriving DecidableEq

/-- A sequence number, or a ticket that takes its place. -/
@[ext] structure SeqProxy where
  type : SeqType
  value : UInt32
  deriving DecidableEq

namespace SeqProxy

def rawSequence (value : UInt32) : SeqProxy := ⟨.seq, value⟩
def rawTicket (value : UInt32) : SeqProxy := ⟨.ticket, value⟩

def isSeq (p : SeqProxy) : Bool := p.type = .seq
def isTicket (p : SeqProxy) : Bool := p.type = .ticket

def advanceBy (p : SeqProxy) (amount : UInt32) : SeqProxy := { p with value := p.value + amount }

/-- The place in the order, where all sequences are before all tickets. -/
def rank (p : SeqProxy) : Nat :=
  match p.type with
  | .seq => p.value.toNat
  | .ticket => UInt32.size + p.value.toNat

theorem rank_injective : Function.Injective rank := by
  rintro ⟨tp, p⟩ ⟨tq, q⟩ h
  have hp := p.toNat_lt_size
  have hq := q.toNat_lt_size
  cases tp <;> cases tq <;> simp only [rank] at h
  · rw [UInt32.toNat_inj.1 h]
  · omega
  · omega
  · rw [UInt32.toNat_inj.1 (Nat.add_left_cancel h)]

instance : LinearOrder SeqProxy := LinearOrder.lift' rank rank_injective

variable {p : SeqProxy}

theorem lt_iff {q : SeqProxy} : p < q ↔ p.rank < q.rank := Iff.rfl

theorem le_iff {q : SeqProxy} : p ≤ q ↔ p.rank ≤ q.rank := Iff.rfl

@[simp] theorem rank_rawSequence (v : UInt32) : (rawSequence v).rank = v.toNat := rfl

theorem eq_rawSequence (h : p.isSeq = true) : p = rawSequence p.value := by
  obtain ⟨type, value⟩ := p
  cases type with
  | seq => rfl
  | ticket => cases h

theorem rank_lt_iff_isSeq : p.rank < UInt32.size ↔ p.isSeq = true := by
  obtain ⟨type, value⟩ := p
  have hv := value.toNat_lt_size
  cases type with
  | seq => exact iff_of_true hv rfl
  | ticket =>
    simp only [rank, isSeq]
    simp

end SeqProxy

/-! ## Transactions -/

/-- What is notable about the transactions of a type: they may block the ones behind them, spend more than the fee,
create tickets, or be a batch. -/
inductive TxKind
  | normal
  | blocker
  | spends (potentialSpend : Int)
  | ticketCreate (ticketCount : UInt32)
  | batch
  deriving DecidableEq

structure STTx (AccountID : Type) where
  account : AccountID
  sequence : UInt32
  ticketSequence : Option UInt32
  transactionID : BitVec 256
  fee : Int
  lastLedgerSequence : Option UInt32
  kind : TxKind
  hasPreviousTxnID : Bool
  hasAccountTxnID : Bool
  hasDelegate : Bool
  isFeeSponsored : Bool
  deriving DecidableEq

variable {AccountID : Type}

def STTx.getSeqProxy (tx : STTx AccountID) : SeqProxy :=
  if tx.sequence ≠ 0 then .rawSequence tx.sequence
  else
    match tx.ticketSequence with
    | none => .rawSequence tx.sequence
    | some ticketSeq => .rawTicket ticketSeq

/-! ## Consequences -/

structure TxConsequences where
  isBlocker : Bool
  fee : Int
  potentialSpend : Int
  seqProx : SeqProxy
  sequencesConsumed : UInt32
  deriving DecidableEq

namespace TxConsequences

/-- The consequences of a transaction that fails `preflight`. -/
def failed : TxConsequences where
  isBlocker := false
  fee := 0
  potentialSpend := 0
  seqProx := .rawSequence 0
  sequencesConsumed := 0

/-- The constructor from a transaction without notable consequences. -/
def normal (tx : STTx AccountID) : TxConsequences where
  isBlocker := false
  fee := if tx.fee < 0 then 0 else tx.fee
  potentialSpend := 0
  seqProx := tx.getSeqProxy
  sequencesConsumed := if tx.getSeqProxy.isSeq then 1 else 0

/-- The consequences that the transactor of each type makes. -/
def make (tx : STTx AccountID) : TxConsequences :=
  match tx.kind with
  | .normal => normal tx
  | .blocker => { normal tx with isBlocker := true }
  | .spends potentialSpend => { normal tx with potentialSpend := potentialSpend }
  | .ticketCreate ticketCount => { normal tx with sequencesConsumed := ticketCount }
  | .batch => normal tx

def followingSeq (c : TxConsequences) : SeqProxy := c.seqProx.advanceBy c.sequencesConsumed

end TxConsequences

end Rippled.TxQueue
