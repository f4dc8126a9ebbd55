import Rippled.Ledger.Directory
import Rippled.Transactor.AccountRoot

/-!
# The ledger that transactions act on

The entries that the transactions below read and write, one map for each type, under what their keys are the hashes
of. `Rest` stands for the entries of all other types. An owner directory holds the keys of what an account owns; the
order of the keys in a page is the order of the hashes, any linear order here. The fields `PreviousTxnID` and
`PreviousTxnLgrSeq`, which the table of changes fills in when it is applied, are left out.
-/

namespace Rippled.Transactor

open Lib Directory View

/-- The codes of results that claim a fee. -/
inductive Tec where
  | tecOVERSIZE | tecKILLED | tecINCOMPLETE | tecEXPIRED | tecINVARIANT_FAILED | tecINSUFF_FEE | tecINTERNAL
  | tecNO_ENTRY | tecNO_PERMISSION | tecNO_TARGET | tecDUPLICATE | tecDIR_FULL | tecHAS_OBLIGATIONS | tecTOO_SOON
  | tecNO_DST | tecDST_TAG_NEEDED | tecNO_SPONSOR_PERMISSION | tecINSUFFICIENT_RESERVE | tecNO_LINE_REDUNDANT
  | tecINSUF_RESERVE_LINE | tecNO_LINE_INSUF_RESERVE | tecOBJECT_NOT_FOUND
  | other (code : Nat)
  deriving DecidableEq

/-- The codes of results that leave the ledger alone. -/
inductive Rejection where
  | telINSUF_FEE_P
  | temBAD_FEE | temBAD_EXPIRATION | temMALFORMED | temINVALID | temINVALID_FLAG | temBAD_SIGNER | temSEQ_AND_TICKET
  | temBAD_CURRENCY | temBAD_AMOUNT | temBAD_LIMIT | temDST_NEEDED
  | tefINTERNAL | tefBAD_LEDGER | tefINVARIANT_FAILED | tefNO_TICKET | tefPAST_SEQ | tefTOO_BIG
  | terNO_ACCOUNT | terINSUF_FEE_B | terPRE_SEQ | terPRE_TICKET | terTICKET_RESERVED | terNO_PERMISSION
  | other (code : Nat)
  deriving DecidableEq

inductive TER where
  | tesSUCCESS
  | tec (code : Tec)
  | rejected (code : Rejection)
  deriving DecidableEq

def isTesSuccess (x : TER) : Bool := x = .tesSUCCESS

def isTecClaim : TER → Bool
  | .tec _ => true
  | _ => false

/-! ## Entries -/

variable {Id Amount Rest : Type}

/-- A trust line's key: the lower and the higher account, and the currency. -/
structure LineKey (Id : Type) where
  low : Id
  high : Id
  currency : Nat
  deriving DecidableEq

/-- The key of an owner directory, and of what one can hold. -/
inductive ObjectKey (Id : Type) where
  | ownerDir (account : Id)
  | ticket (account : Id) (sequence : UInt32)
  | txProposal (account : Id) (sequence : UInt32)
  | trustLine (key : LineKey Id)
  | other (index : Nat)
  deriving DecidableEq

structure Ticket (Id : Type) where
  ownerNode : Nat
  ticketSequence : UInt32
  sponsor : Option Id
  deriving DecidableEq

inductive TxType where
  | transactionProposalCreate | transactionProposalCancel | batch
  | pseudo (code : Nat)
  | other (code : Nat)
  deriving DecidableEq

/-- A proposed transaction, with the types of the inner transactions that a batch has. `payload` is its serialization
without the signing fields and with an empty signing key. -/
structure ProposedTx (Id : Type) where
  transactionType : Option TxType
  tfInnerBatchTxn : Bool
  rawTransactions : List (Option TxType)
  signatureField : Bool
  signingPubKey : Option (List UInt8)
  account : Id
  sequence : UInt32
  ticketSequence : Option UInt32
  delegate : Option Id
  lastLedgerSequence : Option UInt32
  payload : List UInt8
  deriving DecidableEq

structure Proposal (Id : Type) where
  owner : Id
  ownerNode : Nat
  proposedTransaction : ProposedTx Id
  expiration : Option UInt32
  sponsor : Option Id
  deriving DecidableEq

/-- One side of a trust line. A quality of zero is an absent one. -/
structure LineSide (Id Amount : Type) where
  limit : Amount
  limitIssuer : Id
  qualityIn : UInt32 := 0
  qualityOut : UInt32 := 0
  node : Nat := 0
  sponsor : Option Id := none
  reserve : Bool := false
  auth : Bool := false
  noRipple : Bool := false
  freeze : Bool := false
  deepFreeze : Bool := false
  deriving DecidableEq

/-- A trust line. The balance is that of the low account. -/
structure RippleState (Id Amount : Type) where
  balance : Amount
  low : LineSide Id Amount
  high : LineSide Id Amount
  deriving DecidableEq

/-- Another object that an account owns. `account` is the field `Account`, for an issuance and a credential `Issuer`,
for a vault and an oracle `Owner`, and for a signer list the account in its key; `acceptedBy` is the subject of a
credential that it has accepted. `entries` are the signers of a list, or the prices of an oracle, and `bytecode` is
the size of one. -/
structure Object (Id : Type) where
  type : LedgerEntryType
  account : Id
  acceptedBy : Option Id := none
  lsfOneOwnerCount : Bool := false
  entries : Nat := 0
  bytecode : Option Nat := none
  sponsor : Option Id := none
  deriving DecidableEq

structure Ledger (Id Amount Rest : Type) extends Roots Id where
  tickets : HashMap (Id × UInt32) (Ticket Id)
  proposals : HashMap (Id × UInt32) (Proposal Id)
  lines : HashMap (LineKey Id) (RippleState Id Amount)
  objects : HashMap Nat (Object Id)
  ownerDirs : Id → Dir (ObjectKey Id)
  rest : Rest

/-! ## Transactions -/

inductive SeqProxy where
  | seq (value : UInt32)
  | ticket (value : UInt32)
  deriving DecidableEq

/-- The common fields of a transaction. -/
structure STTx (Id : Type) where
  account : Id
  sequence : UInt32
  ticketSequence : Option UInt32
  fee : Int
  delegate : Option Id
  sponsor : Option Id
  spfSponsorFee : Bool
  spfSponsorReserve : Bool
  sponsorSignature : Bool
  transactionID : Nat
  payload : List UInt8
  deriving DecidableEq

def STTx.getSeqProxy (tx : STTx Id) : SeqProxy :=
  if tx.sequence ≠ 0 then .seq tx.sequence
  else match tx.ticketSequence with
    | none => .seq tx.sequence
    | some ticketSeq => .ticket ticketSeq

def STTx.getInitiator (tx : STTx Id) : Id := tx.delegate.getD tx.account

def isReserveSponsored (tx : STTx Id) : Bool := tx.sponsor.isSome && tx.spfSponsorReserve

/-! ## Tickets and proposals -/

def kProposalOwnerCount : Nat := 5
def kBatchProposalOwnerCount : Nat := 10

def proposalOwnerCount (proposedTx : ProposedTx Id) : Nat :=
  if proposedTx.transactionType = some .batch then kBatchProposalOwnerCount else kProposalOwnerCount

theorem proposalOwnerCount_le (proposedTx : ProposedTx Id) : proposalOwnerCount proposedTx ≤ 10 := by
  unfold proposalOwnerCount kBatchProposalOwnerCount kProposalOwnerCount
  split <;> omega

theorem proposalOwnerCount_pos (proposedTx : ProposedTx Id) : 0 < proposalOwnerCount proposedTx := by
  unfold proposalOwnerCount kBatchProposalOwnerCount kProposalOwnerCount
  split <;> omega

section Model

variable [DecidableEq Id] [LinearOrder (ObjectKey Id)] (rules : Rules)

namespace Ledger

/-- The counts given back for an object of `owner`. -/
def release (l : Ledger Id Amount Rest) (owner : Id) (sponsor : Option Id) (count : Nat) : Ledger Id Amount Rest :=
  { l with toRoots := decreaseOwnerCountForObject rules l.toRoots owner sponsor count }

def setDir (l : Ledger Id Amount Rest) (account : Id) (dir : Dir (ObjectKey Id)) : Ledger Id Amount Rest :=
  { l with ownerDirs := Function.update l.ownerDirs account dir }

/-- The ledger without a proposal that its owner's directory has given up. -/
def eraseProposal (l : Ledger Id Amount Rest) (key : Id × UInt32) (sleProposal : Proposal Id) : Ledger Id Amount Rest :=
  let l := l.release rules sleProposal.owner sleProposal.sponsor (proposalOwnerCount sleProposal.proposedTransaction)
  { l with proposals := l.proposals.erase key }

def takeTicket (ticketCount : UInt32) (sle : AccountRoot Id) : AccountRoot Id :=
  { sle with ticketCount := if ticketCount = 1 then none else some (ticketCount - 1) }

/-- The ledger without a ticket that its owner's directory has given up. -/
def eraseTicket (l : Ledger Id Amount Rest) (account : Id) (ticketIndex : Id × UInt32) (sleTicket : Ticket Id)
    (ticketCount : UInt32) : Ledger Id Amount Rest :=
  let l := { l with toRoots := l.toRoots.modify account (takeTicket ticketCount) }
  let l := l.release rules account sleTicket.sponsor 1
  { l with tickets := l.tickets.erase ticketIndex }

end Ledger

def deleteProposal (l : Ledger Id Amount Rest) (key : Id × UInt32) : Run Exception (TER × Ledger Id Amount Rest) :=
  match l.proposals.lookup key with
  | none => .ok (.tec .tecINTERNAL, l)
  | some sleProposal => do
    let owner := sleProposal.owner
    let (removed, dir) ← dirRemove (l.ownerDirs owner) sleProposal.ownerNode (.txProposal key.1 key.2) true
    if !removed then return (.rejected .tefBAD_LEDGER, l)
    else if (l.accounts.lookup owner).isNone then return (.rejected .tefBAD_LEDGER, l.setDir owner dir)
    else return (.tesSUCCESS, (l.setDir owner dir).eraseProposal rules key sleProposal)

def ticketDelete (l : Ledger Id Amount Rest) (account : Id) (ticketIndex : Id × UInt32) :
    Run Exception (TER × Ledger Id Amount Rest) :=
  match l.tickets.lookup ticketIndex with
  | none => .ok (.rejected .tefBAD_LEDGER, l)
  | some sleTicket => do
    let (removed, dir) ←
      dirRemove (l.ownerDirs account) sleTicket.ownerNode (.ticket ticketIndex.1 ticketIndex.2) true
    if !removed then return (.rejected .tefBAD_LEDGER, l)
    else match (l.accounts.lookup account).bind (·.ticketCount) with
      | none => return (.rejected .tefBAD_LEDGER, l.setDir account dir)
      | some ticketCount =>
        let l := (l.setDir account dir).eraseTicket rules account ticketIndex sleTicket ticketCount
        let key := (account, sleTicket.ticketSequence)
        if rules.featureCosign ∧ (l.proposals.lookup key).isSome then deleteProposal rules l key
        else return (.tesSUCCESS, l)

/-- The sequence number of the account moves on, or its ticket is used up. -/
def consumeSeqProxy (tx : STTx Id) (l : Ledger Id Amount Rest) : Run Exception (TER × Ledger Id Amount Rest) :=
  match tx.getSeqProxy with
  | .seq value =>
    .ok (.tesSUCCESS, { l with toRoots := l.toRoots.modify tx.account fun sle => { sle with sequence := value + 1 } })
  | .ticket value => ticketDelete rules l tx.account (tx.account, value)

end Model

/-! ## What a deletion does -/

section Specs

variable [DecidableEq Id] {rules : Rules} {l l' : Ledger Id Amount Rest}

theorem lookup_release (l : Ledger Id Amount Rest) (owner : Id) (sponsor : Option Id) {count : Nat} (hpos : 0 < count)
    (hle : count ≤ 2147483647) (id : Id) :
    (l.release rules owner sponsor count).accounts.lookup id = (l.accounts.lookup id).map
      (adjusted rules owner (getLedgerEntryReserveSponsor l.toRoots sponsor) (-count) id) := by
  unfold Ledger.release decreaseOwnerCountForObject decreaseOwnerCount
  rw [if_neg (by omega)]
  exact lookup_adjustOwnerCountSigned _ _ _ _ _ _

theorem sponsorships_release (l : Ledger Id Amount Rest) (owner : Id) (sponsor : Option Id) (count : Nat) :
    (l.release rules owner sponsor count).sponsorships = l.sponsorships := by
  unfold Ledger.release decreaseOwnerCountForObject decreaseOwnerCount
  split
  · rfl
  · exact sponsorships_adjust_neg _ _ _ _ _

/-- Which sponsor pays depends on no more than which accounts there are. -/
theorem getLedgerEntryReserveSponsor_congr {r r' : Roots Id}
    (h : ∀ id, (r'.accounts.lookup id).isSome = (r.accounts.lookup id).isSome) (sponsor : Option Id) :
    getLedgerEntryReserveSponsor r' sponsor = getLedgerEntryReserveSponsor r sponsor := by
  unfold getLedgerEntryReserveSponsor
  exact congrArg sponsor.filter (funext h)

theorem isSome_lookup_modify (r : Roots Id) (account : Id) (set : AccountRoot Id → AccountRoot Id) (id : Id) :
    ((r.modify account set).accounts.lookup id).isSome = (r.accounts.lookup id).isSome := by
  rw [Roots.lookup_modify, Option.isSome_map]

theorem lookup_eraseProposal (l : Ledger Id Amount Rest) (key : Id × UInt32) (p : Proposal Id) (id : Id) :
    (l.eraseProposal rules key p).accounts.lookup id = (l.accounts.lookup id).map
      (adjusted rules p.owner (getLedgerEntryReserveSponsor l.toRoots p.sponsor)
        (-(proposalOwnerCount p.proposedTransaction : Nat)) id) := by
  have := proposalOwnerCount_le p.proposedTransaction
  exact lookup_release l p.owner p.sponsor (proposalOwnerCount_pos _) (by omega) id

theorem lookup_eraseTicket (l : Ledger Id Amount Rest) (account : Id) (ticketIndex : Id × UInt32) (t : Ticket Id)
    (ticketCount : UInt32) (id : Id) :
    (l.eraseTicket rules account ticketIndex t ticketCount).accounts.lookup id = (l.accounts.lookup id).map fun sle =>
      adjusted rules account (getLedgerEntryReserveSponsor l.toRoots t.sponsor) (-(1 : Nat)) id
        (if id = account then Ledger.takeTicket ticketCount sle else sle) := by
  let l₁ : Ledger Id Amount Rest := { l with toRoots := l.toRoots.modify account (Ledger.takeTicket ticketCount) }
  change (l₁.release rules account t.sponsor 1).accounts.lookup id = _
  rw [lookup_release l₁ account t.sponsor (by decide) (by decide),
    getLedgerEntryReserveSponsor_congr (isSome_lookup_modify l.toRoots account _)]
  change ((l.toRoots.modify account _).accounts.lookup id).map _ = _
  rw [Roots.lookup_modify, Option.map_map]
  rfl

variable [LinearOrder (ObjectKey Id)]

theorem deleteProposal_eq_ok {key : Id × UInt32} (h : deleteProposal rules l key = .ok (.tesSUCCESS, l')) :
    ∃ p dir, l.proposals.lookup key = some p ∧
      dirRemove (l.ownerDirs p.owner) p.ownerNode (.txProposal key.1 key.2) true = .ok (true, dir) ∧
      l' = (l.setDir p.owner dir).eraseProposal rules key p := by
  unfold deleteProposal at h
  cases hp : l.proposals.lookup key with
  | none => simp [hp] at h
  | some p =>
    rw [hp] at h
    obtain ⟨⟨removed, dir⟩, hdir, h⟩ := Run.bind_eq_ok.1 h
    dsimp only at h
    cases removed with
    | false => simp [pure, Except.pure] at h
    | true =>
      cases hacc : l.accounts.lookup p.owner with
      | none => simp [hacc, pure, Except.pure] at h
      | some sle =>
        rw [hacc] at h
        cases h
        exact ⟨p, dir, rfl, hdir, rfl⟩

theorem deleteProposal_ne_tec {key : Id × UInt32} {p : Proposal Id} (hp : l.proposals.lookup key = some p) {c : Tec} :
    deleteProposal rules l key ≠ .ok (.tec c, l') := by
  intro h
  unfold deleteProposal at h
  rw [hp] at h
  obtain ⟨⟨removed, dir⟩, -, h⟩ := Run.bind_eq_ok.1 h
  dsimp only at h
  split at h
  · cases h
  · split at h <;> cases h

/-- The ledger just after a ticket went, and before the proposal that it was reserved for. -/
structure TicketGone (rules : Rules) (l : Ledger Id Amount Rest) (account : Id) (ticketIndex : Id × UInt32)
    (sleTicket : Ticket Id) (l₁ : Ledger Id Amount Rest) : Prop where
  ticket : l.tickets.lookup ticketIndex = some sleTicket
  erased : ∃ dir sle ticketCount,
    dirRemove (l.ownerDirs account) sleTicket.ownerNode (.ticket ticketIndex.1 ticketIndex.2) true = .ok (true, dir) ∧
    l.accounts.lookup account = some sle ∧ sle.ticketCount = some ticketCount ∧
    l₁ = (l.setDir account dir).eraseTicket rules account ticketIndex sleTicket ticketCount

variable {ticketIndex : Id × UInt32}

theorem ticketDelete_cases {account : Id} {ter : TER} (h : ticketDelete rules l account ticketIndex = .ok (ter, l')) :
    ter = .rejected .tefBAD_LEDGER ∨
    ∃ sleTicket l₁, TicketGone rules l account ticketIndex sleTicket l₁ ∧
      ((rules.featureCosign ∧ (l.proposals.lookup (account, sleTicket.ticketSequence)).isSome) ∧
          deleteProposal rules l₁ (account, sleTicket.ticketSequence) = .ok (ter, l') ∨
        ¬ (rules.featureCosign ∧ (l.proposals.lookup (account, sleTicket.ticketSequence)).isSome) ∧
          ter = .tesSUCCESS ∧ l' = l₁) := by
  unfold ticketDelete at h
  cases ht : l.tickets.lookup ticketIndex with
  | none =>
    rw [ht] at h
    cases h
    exact .inl rfl
  | some sleTicket =>
    rw [ht] at h
    obtain ⟨⟨removed, dir⟩, hdir, h⟩ := Run.bind_eq_ok.1 h
    dsimp only at h
    cases removed with
    | false =>
      cases h
      exact .inl rfl
    | true =>
      cases hacc : l.accounts.lookup account with
      | none =>
        rw [hacc] at h
        cases h
        exact .inl rfl
      | some sle =>
        rw [hacc] at h
        cases hcount : sle.ticketCount with
        | none =>
          rw [Option.bind_some, hcount] at h
          cases h
          exact .inl rfl
        | some ticketCount =>
          rw [Option.bind_some, hcount] at h
          dsimp only at h
          refine .inr ⟨sleTicket, _, ⟨ht, dir, sle, ticketCount, hdir, hacc, hcount, rfl⟩, ?_⟩
          by_cases hp : rules.featureCosign ∧ (l.proposals.lookup (account, sleTicket.ticketSequence)).isSome
          · exact .inl ⟨hp, (if_pos hp).symm.trans h⟩
          · have h := (if_neg hp).symm.trans h
            cases h
            exact .inr ⟨hp, rfl, rfl⟩

/-- Using up a ticket succeeds or finds the ledger in a bad state; it never claims a fee of its own. -/
theorem ticketDelete_ne_tec {account : Id} {c : Tec} : ticketDelete rules l account ticketIndex ≠ .ok (.tec c, l') := by
  intro h
  rcases ticketDelete_cases h with hbad | ⟨sleTicket, l₁, hgone, ⟨⟨-, hp⟩, hdel⟩ | ⟨-, hter, -⟩⟩
  · cases hbad
  · obtain ⟨dir, sle, ticketCount, -, -, -, hl₁⟩ := hgone.erased
    obtain ⟨p, hp⟩ := Option.isSome_iff_exists.1 hp
    have hp₁ : l₁.proposals.lookup (account, sleTicket.ticketSequence) = some p := by rw [hl₁]; exact hp
    exact deleteProposal_ne_tec hp₁ hdel
  · cases hter

end Specs

/-! ## Accounts that are numbers -/

/-- A key of accounts that are numbers, as a list of numbers. -/
def ObjectKey.code : ObjectKey Nat → List Nat
  | .ticket account sequence => [0, account, sequence.toNat]
  | .txProposal account sequence => [1, account, sequence.toNat]
  | .trustLine key => [2, key.low, key.high, key.currency]
  | .other index => [3, index]
  | .ownerDir account => [4, account]

theorem ObjectKey.code_injective : Function.Injective ObjectKey.code := by
  rintro (a | ⟨a, s⟩ | ⟨a, s⟩ | ⟨⟨a, b, c⟩⟩ | i) (a' | ⟨a', s'⟩ | ⟨a', s'⟩ | ⟨⟨a', b', c'⟩⟩ | i') h <;>
    simp_all [ObjectKey.code, UInt32.toNat_inj]

instance : LinearOrder (ObjectKey Nat) := LinearOrder.lift' ObjectKey.code ObjectKey.code_injective

def plainRoot (sequence : UInt32) (balance : Int) : AccountRoot Nat :=
  { sequence, balance, ownerCount := 0, sponsoredOwnerCount := 0,
    sponsoringOwnerCount := 0, sponsoringAccountCount := 0,
    sponsor := none, ticketCount := none, accountTxnID := none, pseudoAccount := false, defaultRipple := false,
    noFreeze := false, requireDestTag := false, depositAuth := false, mintedNFTokens := none, burnedNFTokens := none,
    firstNFTokenSequence := none }

end Rippled.Transactor
