import Rippled.TxQueue.Queue

/-!
# The sequence that the queue hands out

The queue predicts the sequence of an account from the sequences that its queued transactions are said to consume, and
the ledger moves it in `consumeSeqProxy` and in `TicketCreate::doApply`. The two agree if and only if no `TicketCreate`
is applied (`nextQueuableSeq_eq_iff`): its tickets are counted, and the sequence that it uses itself is not.
-/

namespace Rippled.TxQueue

open Lib KeyedMap SeqProxy List

/-! ## The ledger -/

/-- An account root with the tickets of the account. -/
structure AccountState where
  sequence : UInt32
  balance : Int
  ownerCount : UInt32
  ticketCount : Option UInt32
  tickets : List UInt32

/-- The parts of the ledger that do not touch the sequence: the reserve for more objects, the pages of the owner
directory, the fee, and the transactors other than `TicketCreate`. -/
structure Ledger (AccountID : Type) where
  accountReserve : AccountState → UInt32 → Int
  dirInsert : AccountState → UInt32 → Bool
  dirRemove : AccountState → UInt32 → Bool
  payFee : AccountState → STTx AccountID → TER × Int
  doApply : AccountState → STTx AccountID → TER × AccountState

variable {AccountID Rules : Type}

def checkSeqProxy (st : AccountState) (tx : STTx AccountID) : TER :=
  let tSeqProx := tx.getSeqProxy
  let aSeq := SeqProxy.rawSequence st.sequence
  if tSeqProx.isSeq then
    if tx.ticketSequence.isSome then TER.temSEQ_AND_TICKET
    else if tSeqProx ≠ aSeq then (if aSeq < tSeqProx then TER.terPRE_SEQ else TER.tefPAST_SEQ)
    else TER.tesSUCCESS
  else if aSeq.value ≤ tSeqProx.value then TER.terPRE_TICKET
  else if tSeqProx.value ∉ st.tickets then TER.tefNO_TICKET
  else TER.tesSUCCESS

def ticketDelete (ledger : Ledger AccountID) (st : AccountState) (ticket : UInt32) : TER × AccountState :=
  if ticket ∉ st.tickets ∨ ledger.dirRemove st ticket = false then (TER.tefBAD_LEDGER, st)
  else
    match st.ticketCount with
    | none => (TER.tefBAD_LEDGER, st)
    | some count =>
      (TER.tesSUCCESS, { st with
        ticketCount := if count = 1 then none else some (count - 1)
        ownerCount := st.ownerCount - 1
        tickets := st.tickets.erase ticket })

def consumeSeqProxy (ledger : Ledger AccountID) (st : AccountState) (tx : STTx AccountID) : TER × AccountState :=
  if tx.getSeqProxy.isSeq then (TER.tesSUCCESS, { st with sequence := tx.getSeqProxy.value + 1 })
  else ticketDelete ledger st tx.getSeqProxy.value

namespace TicketCreate

def minValidCount : UInt32 := 1
def maxValidCount : UInt32 := 250
def maxTicketThreshold : UInt32 := 250

def preflight (ticketCount : UInt32) : TER :=
  if ticketCount < minValidCount ∨ ticketCount > maxValidCount then TER.temINVALID_COUNT else TER.tesSUCCESS

def preclaim (st : AccountState) (tx : STTx AccountID) (ticketCount : UInt32) : TER :=
  let consumedTickets := if tx.getSeqProxy.isTicket then 1 else 0
  if st.ticketCount.getD 0 + ticketCount - consumedTickets > maxTicketThreshold then TER.tecDIR_FULL else TER.tesSUCCESS

/-- The loop that creates the tickets, or nothing when the directory is full. -/
def createTickets (ledger : Ledger AccountID) (st : AccountState) : List UInt32 → Option AccountState
  | [] => some st
  | curTicketSeq :: seqs =>
    if ledger.dirInsert st curTicketSeq then createTickets ledger
    { st with tickets := st.tickets ++ [curTicketSeq] } seqs
    else none

def doApply (ledger : Ledger AccountID) (preFeeBalance : Int) (st : AccountState)
    (tx : STTx AccountID) (ticketCount : UInt32) : TER × AccountState :=
  if preFeeBalance < ledger.accountReserve st ticketCount then (TER.tecINSUFFICIENT_RESERVE, st)
  else
    let firstTicketSeq := st.sequence
    if tx.sequence ≠ 0 ∧ tx.sequence ≠ firstTicketSeq - 1 then (TER.tefINTERNAL, st)
    else
      match createTickets ledger st ((List.range ticketCount.toNat).map fun i => firstTicketSeq + UInt32.ofNat i) with
      | none => (TER.tecDIR_FULL, st)
      | some st =>
        (TER.tesSUCCESS, { st with
          ticketCount := some (st.ticketCount.getD 0 + ticketCount)
          ownerCount := st.ownerCount + ticketCount
          sequence := firstTicketSeq + ticketCount })

end TicketCreate

/-- `doApply` of the transactor. No other transactor writes the sequence of its account. -/
def doApply (ledger : Ledger AccountID) (preFeeBalance : Int) (st : AccountState) (tx : STTx AccountID) :
    TER × AccountState :=
  match tx.kind with
  | .ticketCreate ticketCount => TicketCreate.doApply ledger preFeeBalance st tx ticketCount
  | _ =>
    let (ter, st') := ledger.doApply st tx
    (ter, { st' with sequence := st.sequence })

/-- `Transactor::apply`. -/
def transactorApply (ledger : Ledger AccountID) (st : AccountState) (tx : STTx AccountID) : TER × AccountState :=
  let preFeeBalance := st.balance
  let (ter, st) := consumeSeqProxy ledger st tx
  if ter ≠ TER.tesSUCCESS then (ter, st)
  else
    let (ter, balance) := ledger.payFee st tx
    if ter ≠ TER.tesSUCCESS then (ter, st) else doApply ledger preFeeBalance { st with balance } tx

/-- A transaction applied to the account, through the checks of its count and its sequence. -/
def applyTransaction (ledger : Ledger AccountID) (st : AccountState) (tx : STTx AccountID) : TER × AccountState :=
  let ter :=
    match tx.kind with
    | .ticketCreate ticketCount => TicketCreate.preflight ticketCount
    | _ => TER.tesSUCCESS
  if ter ≠ TER.tesSUCCESS then (ter, st)
  else if checkSeqProxy st tx ≠ TER.tesSUCCESS then (checkSeqProxy st tx, st)
  else
    let ter :=
      match tx.kind with
      | .ticketCreate ticketCount => TicketCreate.preclaim st tx ticketCount
      | _ => TER.tesSUCCESS
    if ter ≠ TER.tesSUCCESS then (ter, st) else transactorApply ledger st tx

/-! ## What applying does to the sequence -/

/-- The sequences that are used beyond the one of the transaction. -/
def extraSequences (tx : STTx AccountID) : UInt32 :=
  match tx.kind with
  | .ticketCreate ticketCount => ticketCount
  | _ => 0

variable {st' st : AccountState}

theorem ne_success {ter : TER} (h : ter ≠ TER.tesSUCCESS) : (ter, st) ≠ (TER.tesSUCCESS, st') :=
  fun heq => h (congrArg Prod.fst heq)

variable {ledger : Ledger AccountID} {tx : STTx AccountID} {preFeeBalance : Int}

theorem sequence_ticketCreate {ticketCount : UInt32}
    (h : TicketCreate.doApply ledger preFeeBalance st tx ticketCount = (TER.tesSUCCESS, st')) :
    st'.sequence = st.sequence + ticketCount := by
  unfold TicketCreate.doApply at h
  dsimp only at h
  split_ifs at h
  · exact absurd h (ne_success (by decide))
  · exact absurd h (ne_success (by decide))
  · split at h
    · exact absurd h (ne_success (by decide))
    · cases h
      rfl

theorem sequence_doApply (h : doApply ledger preFeeBalance st tx = (TER.tesSUCCESS, st')) :
    st'.sequence = st.sequence + extraSequences tx := by
  unfold doApply at h
  unfold extraSequences
  split at h
  · exact sequence_ticketCreate h
  · rw [← (Prod.mk.inj h).2]
    simp

/-- A transaction with a sequence that is applied has the sequence of the account, and the account moves past it and
past the tickets that are created. -/
theorem sequence_applyTransaction (h : applyTransaction ledger st tx = (TER.tesSUCCESS, st'))
    (hseq : tx.getSeqProxy.isSeq = true) : st'.sequence = tx.getSeqProxy.value + 1 + extraSequences tx := by
  unfold applyTransaction at h
  dsimp only at h
  split_ifs at h with h₁ h₂ h₃
  · exact absurd h (ne_success h₁)
  · exact absurd h (ne_success h₂)
  · exact absurd h (ne_success h₃)
  · unfold transactorApply consumeSeqProxy at h
    rw [if_pos hseq] at h
    dsimp only at h
    rw [if_neg (by simp)] at h
    split_ifs at h with h₄
    · exact absurd h (ne_success h₄)
    · exact sequence_doApply h

/-! ## The prediction for one transaction -/

theorem followingSeq_make (hseq : tx.getSeqProxy.isSeq = true) :
    (TxConsequences.make tx).followingSeq =
      .rawSequence (tx.getSeqProxy.value + match tx.kind with | .ticketCreate ticketCount => ticketCount | _ => 1) := by
  have hone : (TxConsequences.normal tx).sequencesConsumed = 1 := if_pos hseq
  have hprox : tx.getSeqProxy = .rawSequence tx.getSeqProxy.value := eq_rawSequence hseq
  unfold TxConsequences.make
  cases tx.kind with
  | ticketCreate ticketCount =>
    change tx.getSeqProxy.advanceBy ticketCount = _
    rw [hprox]
    rfl
  | _ =>
    change tx.getSeqProxy.advanceBy (TxConsequences.normal tx).sequencesConsumed = _
    rw [hone, hprox]
    rfl

def STTx.isTicketCreate (tx : STTx AccountID) : Bool :=
  match tx.kind with
  | .ticketCreate _ => true
  | _ => false

/-- The queue predicts the sequence that a transaction leaves if and only if it creates no tickets. -/
theorem followingSeq_eq_iff (h : applyTransaction ledger st tx = (TER.tesSUCCESS, st'))
    (hseq : tx.getSeqProxy.isSeq = true) :
    (TxConsequences.make tx).followingSeq = .rawSequence st'.sequence ↔ tx.isTicketCreate = false := by
  rw [followingSeq_make hseq, sequence_applyTransaction h hseq]
  unfold STTx.isTicketCreate extraSequences
  cases tx.kind with
  | ticketCreate ticketCount =>
    refine iff_of_false (fun heq => ?_) (by simp)
    have hvalue := congrArg value heq
    change tx.getSeqProxy.value + ticketCount = tx.getSeqProxy.value + 1 + ticketCount at hvalue
    grind
  | _ => exact iff_of_true (by simp) rfl

/-! ## The transactions of an account one after another -/

/-- The queued transactions from the sequence of the account on, applied one after another while there is a next one.
Each is noted with the sequence that it leaves, and is out of the queue then. -/
inductive Chain (ledger : Ledger AccountID) :
    TxMap AccountID Rules → AccountState → List (MaybeTx AccountID Rules × UInt32) → AccountState → Prop
  | done {queue : TxMap AccountID Rules} {st : AccountState} (hfind : queue.find (.rawSequence st.sequence) = none) :
    Chain ledger queue st [] st
  | apply {queue : TxMap AccountID Rules} {st st' st'' : AccountState} {m : MaybeTx AccountID Rules}
    {applied : List (MaybeTx AccountID Rules × UInt32)} (hfind : queue.find (.rawSequence st.sequence) = some m)
    (happly : applyTransaction ledger st m.txn = (TER.tesSUCCESS, st'))
    (hrest : Chain ledger (queue.erase (.rawSequence st.sequence)) st' applied st'') :
    Chain ledger queue st ((m, st'.sequence) :: applied) st''

/-- The sequence that the queue predicts, from the entries of an account. -/
def predicted (queue : TxMap AccountID Rules) (sequence : UInt32) : SeqProxy :=
  match queue.find (.rawSequence sequence) with
  | some m => TxQ.followGaps m.consequences.followingSeq (queue.upperBound (.rawSequence sequence))
  | none => .rawSequence sequence

theorem followGaps_of_lt {attempt : SeqProxy} {rest : List (MaybeTx AccountID Rules)}
    (h : ∀ m ∈ rest, attempt < m.seqProxy) : TxQ.followGaps attempt rest = attempt := by
  cases rest with
  | nil => rfl
  | cons m rest => exact if_pos (h m (by simp))

theorem followGaps_lowerBound (queue : TxMap AccountID Rules) (sequence : UInt32) :
    TxQ.followGaps (.rawSequence sequence) (queue.lowerBound (.rawSequence sequence)) = predicted queue sequence := by
  unfold predicted
  cases hfind : queue.find (.rawSequence sequence) with
  | none =>
    rw [lowerBound_of_find_none hfind]
    exact followGaps_of_lt fun m hm => (mem_upperBound.1 hm).2
  | some m =>
    have hkey : m.seqProxy = .rawSequence sequence := key_of_find hfind
    rw [lowerBound_of_find hfind, TxQ.followGaps, if_neg (by rw [hkey]; exact lt_irrefl _)]

/-- The entries after a sequence are those from the next sequence on, as long as there is a next one. -/
theorem upperBound_eq_lowerBound (queue : TxMap AccountID Rules) {sequence : UInt32} (h : sequence + 1 ≠ 0) :
    queue.upperBound (.rawSequence sequence) =
      (queue.erase (.rawSequence sequence)).lowerBound (.rawSequence (sequence + 1)) := by
  have hnext : (sequence + 1).toNat = sequence.toNat + 1 := by
    have hlt := sequence.toNat_lt
    have hmax : sequence.toNat ≠ 2 ^ 32 - 1 := fun heq => h (by rw [← UInt32.toNat_inj, UInt32.toNat_add, heq]; rfl)
    rw [UInt32.toNat_add]
    exact Nat.mod_eq_of_lt (by simp; omega)
  refine eq_of_mem_iff (queue.increasing_upperBound _) (increasing_lowerBound _ _) fun m => ?_
  have hiff : rawSequence sequence < m.seqProxy ↔ rawSequence (sequence + 1) ≤ m.seqProxy := by
    rw [lt_iff, le_iff, rank_rawSequence, rank_rawSequence, hnext]
    rfl
  rw [mem_upperBound, mem_lowerBound, mem_erase]
  constructor
  · rintro ⟨hm, hlt⟩
    exact ⟨⟨hm, hlt.ne'⟩, hiff.1 hlt⟩
  · rintro ⟨⟨hm, -⟩, hle⟩
    exact ⟨hm, hiff.2 hle⟩

theorem followGaps_wrap (queue : TxMap AccountID Rules) {sequence : UInt32} (h : sequence + 1 = 0) :
    TxQ.followGaps (.rawSequence (sequence + 1)) (queue.upperBound (.rawSequence sequence)) = .rawSequence 0 := by
  rw [h]
  refine followGaps_of_lt fun m hm => lt_of_le_of_lt ?_ (mem_upperBound.1 hm).2
  rw [le_iff, rank_rawSequence]
  exact Nat.zero_le _

/-- The consequences that are kept are those of the transactions. -/
def Passed (queue : TxMap AccountID Rules) : Prop := ∀ m ∈ queue.toList, m.consequences = .make m.txn

variable {queue : TxMap AccountID Rules}

theorem Passed.erase (h : Passed queue) (k : SeqProxy) : Passed (queue.erase k) :=
  fun m hm => h m (mem_erase.1 hm).1

/-- What is known of the first transaction of a chain. -/
structure FirstApplied (queue : TxMap AccountID Rules) (st st' : AccountState)
    (m : MaybeTx AccountID Rules) : Prop where
  seqProxy : m.seqProxy = .rawSequence st.sequence
  isSeq : m.txn.getSeqProxy.isSeq = true
  following : m.consequences.followingSeq = .rawSequence st'.sequence ↔ m.txn.isTicketCreate = false
  sequence : m.txn.isTicketCreate = false → st'.sequence = st.sequence + 1

variable {m : MaybeTx AccountID Rules}

theorem firstApplied (hpassed : Passed queue) (hfind : queue.find (.rawSequence st.sequence) = some m)
    (happly : applyTransaction ledger st m.txn = (TER.tesSUCCESS, st')) : FirstApplied queue st st' m := by
  have hkey : m.txn.getSeqProxy = .rawSequence st.sequence := key_of_find hfind
  have hseq : m.txn.getSeqProxy.isSeq = true := by rw [hkey]; rfl
  refine ⟨hkey, hseq, ?_, fun hnot => ?_⟩
  · rw [hpassed m (find_eq_some.1 hfind).1]
    exact followingSeq_eq_iff happly hseq
  · rw [sequence_applyTransaction happly hseq, hkey]
    unfold STTx.isTicketCreate at hnot
    unfold extraSequences
    cases hkind : m.txn.kind <;> rw [hkind] at hnot
    case ticketCreate => cases hnot
    all_goals exact UInt32.add_zero _

theorem predicted_of_find (hfirst : FirstApplied queue st st' m)
    (hfind : queue.find (.rawSequence st.sequence) = some m) (hnot : m.txn.isTicketCreate = false) :
    predicted queue st.sequence =
      if st'.sequence = 0 then .rawSequence 0 else predicted (queue.erase (.rawSequence st.sequence)) st'.sequence := by
  have hstep : predicted queue st.sequence =
      TxQ.followGaps (.rawSequence (st.sequence + 1)) (queue.upperBound (.rawSequence st.sequence)) := by
    unfold predicted
    rw [hfind, ← hfirst.sequence hnot, ← hfirst.following.2 hnot]
  rw [hstep, hfirst.sequence hnot]
  split_ifs with hzero
  · exact followGaps_wrap queue hzero
  · rw [upperBound_eq_lowerBound queue hzero, followGaps_lowerBound]

namespace Chain

variable {ledger : Ledger AccountID} {queue : TxMap AccountID Rules} {st st' : AccountState}
  {applied : List (MaybeTx AccountID Rules × UInt32)}

section
variable (h : Chain ledger queue st applied st')
include h

theorem followingSeq_iff (hpassed : Passed queue) :
    (∀ p ∈ applied, p.1.consequences.followingSeq = .rawSequence p.2) ↔
      ∀ p ∈ applied, p.1.txn.isTicketCreate = false := by
  induction h with
  | done hfind => simp
  | apply hfind happly hrest ih =>
    rw [forall_mem_cons, forall_mem_cons, ih (hpassed.erase _), (firstApplied hpassed hfind happly).following]

theorem head_eq {p : MaybeTx AccountID Rules × UInt32}
    {rest : List (MaybeTx AccountID Rules × UInt32)} (happlied : applied = p :: rest) :
    p.1.seqProxy = .rawSequence st.sequence := by
  cases h with
  | done => cases happlied
  | apply hfind =>
    cases happlied
    exact key_of_find hfind

section
variable (hpassed : Passed queue) (hnot : ∀ p ∈ applied, p.1.txn.isTicketCreate = false)
include hpassed hnot

theorem predicted_eq (hzero : ∀ p ∈ applied.tail, p.1.seqProxy ≠ .rawSequence 0) :
    predicted queue st.sequence = .rawSequence st'.sequence := by
  induction h with
  | done hfind =>
    unfold predicted
    rw [hfind]
  | @apply queue st st₁ st' m applied hfind happly hrest ih =>
    rw [forall_mem_cons] at hnot
    rw [predicted_of_find (firstApplied hpassed hfind happly) hfind hnot.1]
    split_ifs with hwrap
    · -- a further transaction would have the sequence 0
      cases hrest with
      | done => rw [hwrap]
      | apply hfind' =>
        have hkey := key_of_find hfind'
        rw [hwrap] at hkey
        exact absurd hkey (hzero (_, _) mem_cons_self)
    · exact ih (hpassed.erase _) hnot.2 fun p hp => hzero p (mem_of_mem_tail hp)

/-- The account does not get to the sequence 0 without a transaction that has the greatest one. -/
theorem sequence_ne_zero (hmax : queue.find (.rawSequence (0 - 1)) = none) (hne : applied ≠ []) : st'.sequence ≠ 0 := by
  induction h with
  | done => exact absurd rfl hne
  | @apply queue st st₁ st' m applied hfind happly hrest ih =>
    rw [forall_mem_cons] at hnot
    have hseq := (firstApplied hpassed hfind happly).sequence hnot.1
    have hnext : st₁.sequence ≠ 0 := by
      rw [hseq]
      intro hzero
      have hst : st.sequence = 0 - 1 := by grind
      rw [hst, hmax] at hfind
      cases hfind
    cases hrest with
    | done => exact hnext
    | apply =>
      refine ih (hpassed.erase _) hnot.2 ?_ (by simp)
      rw [find_erase]
      split_ifs
      · rfl
      · exact hmax

/-- When the account runs past the greatest sequence into a queued transaction, the prediction is wrong. -/
theorem predicted_wrap (hzero : ∃ p ∈ applied.tail, p.1.seqProxy = .rawSequence 0) :
    predicted queue st.sequence = .rawSequence 0 ∧ st'.sequence ≠ 0 := by
  induction h with
  | done =>
    obtain ⟨p, hp, -⟩ := hzero
    cases hp
  | @apply queue st st₁ st' m applied hfind happly hrest ih =>
    obtain ⟨p, hp, hkey⟩ := hzero
    rw [tail_cons] at hp
    rw [forall_mem_cons] at hnot
    have hfirst := firstApplied hpassed hfind happly
    rw [predicted_of_find hfirst hfind hnot.1]
    split_ifs with hwrap
    · refine ⟨rfl, hrest.sequence_ne_zero (hpassed.erase _) hnot.2 ?_ (ne_nil_of_mem hp)⟩
      have hst : st.sequence = 0 - 1 := by
        have := hfirst.sequence hnot.1
        grind
      rw [hst]
      exact find_erase_self _ _
    · refine ih (hpassed.erase _) hnot.2 ⟨p, ?_, hkey⟩
      cases happlied : applied with
      | nil =>
        rw [happlied] at hp
        cases hp
      | cons p' rest =>
        rw [happlied] at hp
        rcases mem_cons.1 hp with rfl | hp
        · have hhead := hrest.head_eq happlied
          rw [hkey] at hhead
          exact absurd (congrArg value hhead).symm hwrap
        · exact hp

end

end

end Chain

/-! ## The sequence of the queue -/

section Queue
variable [LinearOrder AccountID]

def TxQ.queued (q : TxQ AccountID Rules) (account : AccountID) : TxMap AccountID Rules :=
  match q.byAccount.find account with
  | none => ∅
  | some txQAcct => txQAcct.transactions

theorem nextQueuableSeqImpl_eq (q : TxQ AccountID Rules) (account : AccountID) (root : AccountRoot) :
    q.nextQueuableSeqImpl account (some root) = predicted (q.queued account) root.sequence := by
  unfold TxQ.nextQueuableSeqImpl TxQ.queued
  dsimp only
  cases q.byAccount.find account with
  | none => rfl
  | some txQAcct =>
    dsimp only
    rw [← followGaps_lowerBound]
    cases hlower : txQAcct.transactions.lowerBound (.rawSequence root.sequence) with
    | nil => rfl
    | cons m rest =>
      have hle : rawSequence root.sequence ≤ m.seqProxy :=
        (mem_lowerBound.1 (hlower ▸ mem_cons_self : m ∈ _)).2
      rw [TxQ.followGaps]
      by_cases heq : m.seqProxy = .rawSequence root.sequence
      · rw [if_neg (by rw [heq]; exact lt_irrefl _)]
        simp [heq, isSeq, rawSequence]
      · rw [if_pos (lt_of_le_of_ne hle (Ne.symm heq))]
        simp [heq]

/-- For every account and every set of its queued transactions, applied one after another from the sequence of the
account on: the queue hands out the sequence that the account has after them, and predicts the sequence that each of
them leaves, if and only if none of them is a `TicketCreate` and the sequences do not run past the greatest one into a
transaction with the sequence 0. -/
theorem nextQueuableSeq_eq_iff {q : TxQ AccountID Rules} {account : AccountID} (hpassed : Passed (q.queued account))
    {ledger : Ledger AccountID} {st st' : AccountState} {applied : List (MaybeTx AccountID Rules × UInt32)}
    (hchain : Chain ledger (q.queued account) st applied st') :
    (q.nextQueuableSeqImpl account (some ⟨st.sequence, st.balance⟩) = .rawSequence st'.sequence ∧
        ∀ p ∈ applied, p.1.consequences.followingSeq = .rawSequence p.2) ↔
      (∀ p ∈ applied, p.1.txn.isTicketCreate = false) ∧ ∀ p ∈ applied.tail, p.1.seqProxy ≠ .rawSequence 0 := by
  rw [nextQueuableSeqImpl_eq, hchain.followingSeq_iff hpassed]
  constructor
  · rintro ⟨hpredicted, hnot⟩
    refine ⟨hnot, ?_⟩
    by_contra hzero
    push Not at hzero
    obtain ⟨hwrap, hne⟩ := hchain.predicted_wrap hpassed hnot hzero
    rw [hwrap] at hpredicted
    exact hne (congrArg value hpredicted).symm
  · rintro ⟨hnot, hzero⟩
    exact ⟨hchain.predicted_eq hpassed hnot hzero, hnot⟩

def exampleTx (account : Nat) (sequence : UInt32) (kind : TxKind) (fee : Int) : STTx Nat where
  account := account
  sequence := sequence
  ticketSequence := none
  transactionID := .ofNat 256 (16 * account + sequence.toNat)
  fee := fee
  lastLedgerSequence := none
  kind := kind
  hasPreviousTxnID := false
  hasAccountTxnID := false
  hasDelegate := false
  isFeeSponsored := false

def exampleSuccess : TxResult := ⟨TER.tesSUCCESS, by decide⟩

def exampleEntry (tx : STTx Nat) (feeLevel : FeeLevel64) : MaybeTx Nat Unit :=
  .make tx feeLevel 0 ⟨(), 0, exampleSuccess, .make tx⟩

/-- A queue in front of ledgers that are expected to have one transaction. -/
def exampleQueue (entries : List (MaybeTx Nat Unit)) : TxQ Nat Unit :=
  entries.foldl
    (fun q m =>
      { q.setAccount (((q.byAccount.find m.account).getD (.make m.account)).add m) with
        byFee := insertByFee q.parentHashComp m.toCandidate q.byFee })
    (TxQ.make ⟨3, 3, 25, 128000, 20, 50, 10, 2⟩ ⟨1, 1, none, 1, [], 128000⟩)

def exampleLedger : Ledger Nat where
  accountReserve _ _ := 0
  dirInsert _ _ := true
  dirRemove _ _ := true
  payFee st tx := (TER.tesSUCCESS, st.balance - tx.fee)
  doApply st _ := (TER.tesSUCCESS, st)

def exampleState (sequence : UInt32) (balance : Int) : AccountState := ⟨sequence, balance, 0, none, []⟩

/-- An entry of the account 0 at the lowest fee level. -/
def exampleOwn (kind : TxKind) (sequence : UInt32) : MaybeTx Nat Unit :=
  exampleEntry (exampleTx 0 sequence kind 10) baseLevel

/-- Sequences 5 and 6 of the account, and 8 behind a hole. -/
theorem nextQueuableSeq_eq_iff_hole :
    (exampleQueue ([5, 8, 6].map (exampleOwn .normal))).nextQueuableSeqImpl 0 (some ⟨5, 100⟩) = .rawSequence 7 := by
  have happly : applyTransaction exampleLedger (exampleState 5 100) (exampleOwn .normal 5).txn =
      (TER.tesSUCCESS, exampleState 6 90) := rfl
  have happly' : applyTransaction exampleLedger (exampleState 6 90) (exampleOwn .normal 6).txn =
      (TER.tesSUCCESS, exampleState 7 80) := rfl
  have hchain : Chain exampleLedger ((exampleQueue ([5, 8, 6].map (exampleOwn .normal))).queued 0) (exampleState 5 100)
      [(exampleOwn .normal 5, 6), (exampleOwn .normal 6, 7)] (exampleState 7 80) := by
    refine .apply ?_ happly (.apply ?_ happly' (.done ?_))
    · rfl
    · rfl
    · rfl
  have hpassed : Passed ((exampleQueue ([5, 8, 6].map (exampleOwn .normal))).queued 0) := by
    rw [Passed]
    decide +kernel
  exact ((nextQueuableSeq_eq_iff hpassed hchain).2 ⟨by decide, by decide⟩).1

/-- A `TicketCreate` for two tickets in the queue of an account with the sequence 5: the queue hands out 7, which is the
last ticket, and the account has the sequence 8. -/
theorem nextQueuableSeq_ticketCreate :
    (exampleQueue [exampleOwn (.ticketCreate 2) 5]).nextQueuableSeqImpl 0 (some ⟨5, 100⟩) = .rawSequence 7 ∧
      (exampleOwn (.ticketCreate 2) 5).consequences.followingSeq = .rawSequence 7 ∧
      Chain exampleLedger ((exampleQueue [exampleOwn (.ticketCreate 2) 5]).queued 0) (exampleState 5 100)
        [(exampleOwn (.ticketCreate 2) 5, 8)] ⟨8, 90, 2, some 2, [6, 7]⟩ := by
  have happly : applyTransaction exampleLedger (exampleState 5 100) (exampleOwn (.ticketCreate 2) 5).txn =
      (TER.tesSUCCESS, ⟨8, 90, 2, some 2, [6, 7]⟩) := rfl
  exact ⟨rfl, rfl, .apply rfl happly (.done rfl)⟩

end Queue

end Rippled.TxQueue
