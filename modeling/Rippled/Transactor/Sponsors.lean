import Rippled.Transactor.Ledger

/-!
# Reserve sponsors

A transaction can name a sponsor that pays the reserve for what it creates, and every sponsored object names the sponsor
that pays for it; a trust line names one for each side. The counts of the account roots follow what objects say:
`Ledger.counted` is what the objects of the ledger account for in a count, and `LockStep` says that a count and what it
counts moved together.
-/

namespace Rippled.Transactor

open Lib Directory View Roots

variable {Id Amount Rest : Type}

/-! ## Entries that sponsors pay for -/

/-- An entry that a key of an owner directory, or the object identifier of a transaction, can name. -/
inductive Entry (Id Amount : Type) where
  | dirNode
  | ticket (sle : Ticket Id)
  | proposal (sle : Proposal Id)
  | line (sle : RippleState Id Amount)
  | object (sle : Object Id)

/-- A credential belongs to its issuer until the subject accepts it. -/
def Object.owner (sle : Object Id) : Id := if sle.type = .credential then sle.acceptedBy.getD sle.account
    else sle.account

def isLedgerEntrySupportedBySponsorship : Entry Id Amount → Bool
  | .dirNode | .ticket _ => false
  | .proposal _ | .line _ => true
  | .object sle =>
    match sle.type with
    | .check | .escrow | .paychan | .mptoken | .delegate | .depositPreauth |
        .mptokenIssuance | .signerList | .credential =>
      true
    | _ => false

def kOracleReserveCountThreshold : Nat := 5
def kMinOracleReserveCount : Nat := 1
def kMaxOracleReserveCount : Nat := 2
def kBytecodeReserveIncrement : Nat := 500

def calculateOracleReserve (priceDataSeries : Nat) : Nat :=
  if kOracleReserveCountThreshold < priceDataSeries then kMaxOracleReserveCount else kMinOracleReserveCount

def calculateAdditionalReserve (finishFunction : Option Nat) : Nat :=
  match finishFunction with
  | none => 1
  | some size => if size = 0 then 1 else (size + kBytecodeReserveIncrement - 1) / kBytecodeReserveIncrement

def Object.ownerCount (sle : Object Id) : Nat :=
  match sle.type with
  | .oracle => calculateOracleReserve sle.entries
  -- the vault and its pseudo-account
  | .vault => 2
  | .signerList => if sle.lsfOneOwnerCount then 1 else 2 + sle.entries
  | .escrow => calculateAdditionalReserve sle.bytecode
  | _ => 1

def getLedgerEntryOwnerCount : Entry Id Amount → Nat
  | .proposal sle => proposalOwnerCount sle.proposedTransaction
  | .object sle => sle.ownerCount
  | _ => 1

/-- The side of the high account, or of the low one. -/
def RippleState.side (line : RippleState Id Amount) (high : Bool) : LineSide Id Amount :=
  if high then line.high else line.low

def RippleState.setSide (line : RippleState Id Amount) (high : Bool) (side : LineSide Id Amount) :
    RippleState Id Amount :=
  if high then { line with high := side } else { line with low := side }

def LineKey.account (key : LineKey Id) (high : Bool) : Id := if high then key.high else key.low

/-- A sponsor is written into the side of a line, where there is one. -/
def addSponsorToLedgerEntry (side : LineSide Id Amount) (sponsor : Option Id) : LineSide Id Amount :=
  match sponsor with
  | none => side
  | some sponsorID => { side with sponsor := some sponsorID }

def removeSponsorFromLedgerEntry (side : LineSide Id Amount) : LineSide Id Amount := { side with sponsor := none }

variable [DecidableEq Id]

/-! ## The sponsor of a transaction -/

def getTxReserveSponsorID (tx : STTx Id) : Option Id := if isReserveSponsored tx then tx.sponsor else none

/-- The sponsor that pays the reserve, with an error when it has no account. -/
def getTxReserveSponsor (tx : STTx Id) (r : Roots Id) : Except TER (Option Id) :=
  match getTxReserveSponsorID tx with
  | none => .ok none
  | some sponsorID => if (r.accounts.lookup sponsorID).isSome then .ok (some sponsorID) else .error (.tec .tecINTERNAL)

/-- Who pays can: the sponsor out of what it has set aside and its balance, or the account out of `accBalance`. -/
def checkReserve (rules : Rules) (fees : Fees) (tx : STTx Id) (r : Roots Id) (account : Id) (accBalance : Int)
    (sponsor : Option Id) (adj : Adjustment) (insufReserveCode : TER) : TER :=
  match r.accounts.lookup account with
  | none => .rejected .tefINTERNAL
  | some accSle =>
    if rules.featureSponsor then
      match sponsor with
      | some sponsorID =>
        match r.accounts.lookup sponsorID with
        | none => .rejected .tefINTERNAL
        | some sponsorSle =>
          let sle := r.sponsorships.lookup (sponsorID, account)
          if isReserveSponsored tx ∧ sle.isNone ∧ !tx.sponsorSignature then .tec .tecINTERNAL
          else if sle.any fun sle => 0 < adj.ownerCountDelta ∧ sle.remainingOwnerCount.toNat < adj.ownerCountDelta then
            insufReserveCode
          else if sponsorSle.balance < accountReserve rules fees sponsorSle adj then insufReserveCode
          else .tesSUCCESS
      | none => if accBalance < accountReserve rules fees accSle adj then insufReserveCode else .tesSUCCESS
    else if accBalance < fees.accountReserve (accSle.ownerCount + UInt32.ofInt adj.ownerCountDelta) 1 then
      insufReserveCode
    else .tesSUCCESS

variable {r : Roots Id}

theorem getTxReserveSponsor_eq_ok {tx : STTx Id} {sponsor : Option Id} (h : getTxReserveSponsor tx r = .ok sponsor) :
    ∀ s ∈ sponsor, (r.accounts.lookup s).isSome := by
  unfold getTxReserveSponsor at h
  cases hid : getTxReserveSponsorID tx with
  | none =>
    rw [hid] at h
    cases h
    exact fun s hs => absurd hs (by simp)
  | some sponsorID =>
    rw [hid] at h
    dsimp only at h
    split at h
    · rename_i hsome
      cases h
      exact fun s hs => Option.some.inj hs ▸ hsome
    · cases h

theorem getTxReserveSponsor_eq_error {tx : STTx Id} {ter : TER} (h : getTxReserveSponsor tx r = .error ter) :
    ter = .tec .tecINTERNAL := by
  unfold getTxReserveSponsor at h
  split at h
  · cases h
  · split at h
    · cases h
    · cases h
      rfl

/-! ## The sponsor of an entry -/

def Ledger.read (l : Ledger Id Amount Rest) : ObjectKey Id → Option (Entry Id Amount)
  | .ownerDir account => if (l.ownerDirs account 0).isSome then some .dirNode else none
  | .ticket account sequence => (l.tickets.lookup (account, sequence)).map .ticket
  | .txProposal account sequence => (l.proposals.lookup (account, sequence)).map .proposal
  | .trustLine key => (l.lines.lookup key).map .line
  | .other index => (l.objects.lookup index).map .object

/-- The side of a line that an account pays the reserve for. -/
def reservedSide (line : RippleState Id Amount) (account : Id) : Option Bool :=
  if line.high.reserve ∧ line.high.limitIssuer = account then some true
  else if line.low.reserve ∧ line.low.limitIssuer = account then some false
  else none

def isLedgerEntryOwner (entry : Entry Id Amount) (account : Id) : Bool :=
  match entry with
  | .dirNode | .ticket _ => false
  | .proposal sle => sle.owner = account
  | .line sle => (reservedSide sle account).isSome
  | .object sle =>
    match sle.type with
    | .check | .escrow | .paychan | .mptoken | .delegate | .depositPreauth |
        .mptokenIssuance | .signerList | .credential =>
      sle.owner = account
    | _ => false

/-- The sponsor field of an entry; of a line, that on the side of `owner`. -/
def getLedgerEntrySponsor (entry : Entry Id Amount) (owner : Id) : Option Id :=
  match entry with
  | .dirNode => none
  | .ticket sle => sle.sponsor
  | .proposal sle => sle.sponsor
  | .line sle => (reservedSide sle owner).bind fun high => (sle.side high).sponsor
  | .object sle => sle.sponsor

def setSideSponsor (owner : Id) (sponsor : Option Id) (line : RippleState Id Amount) : RippleState Id Amount :=
  match reservedSide line owner with
  | none => line
  | some high => line.setSide high { line.side high with sponsor }

/-- The sponsor field of the entry under a key is set, or made absent. -/
def Ledger.setLedgerEntrySponsor (l : Ledger Id Amount Rest) (key : ObjectKey Id) (owner : Id) (sponsor : Option Id) :
    Ledger Id Amount Rest :=
  match key with
  | .ownerDir _ => l
  | .ticket account sequence =>
      { l with tickets := l.tickets.adjust (account, sequence) fun sle => { sle with sponsor } }
  | .txProposal account sequence =>
    { l with proposals := l.proposals.adjust (account, sequence) fun sle => { sle with sponsor } }
  | .trustLine key =>
    { l with lines := l.lines.adjust key (setSideSponsor owner sponsor) }
  | .other index => { l with objects := l.objects.adjust index fun sle => { sle with sponsor } }

/-! ## Counts and what they count -/

/-- The counts of an account root that follow the objects of the ledger. -/
inductive CountField where
  | ownerCount | sponsoredOwnerCount | sponsoringOwnerCount | sponsoringAccountCount
  deriving DecidableEq

namespace CountField

def get (field : CountField) (sle : AccountRoot Id) : UInt32 :=
  match field with
  | ownerCount => sle.ownerCount
  | sponsoredOwnerCount => sle.sponsoredOwnerCount
  | sponsoringOwnerCount => sle.sponsoringOwnerCount
  | sponsoringAccountCount => sle.sponsoringAccountCount

def set (field : CountField) (value : UInt32) (sle : AccountRoot Id) : AccountRoot Id :=
  match field with
  | ownerCount => { sle with ownerCount := value }
  | sponsoredOwnerCount => { sle with sponsoredOwnerCount := value }
  | sponsoringOwnerCount => { sle with sponsoringOwnerCount := value }
  | sponsoringAccountCount => { sle with sponsoringAccountCount := value }

end CountField

/-- A count of an account, zero where there is no account. -/
def Roots.count (r : Roots Id) (field : CountField) (id : Id) : Nat :=
  (r.accounts.lookup id).elim 0 fun sle => (field.get sle).toNat

/-- The number of accounts that name `id` as their sponsor. -/
def Roots.sponsoredAccounts (r : Roots Id) (id : Id) : Nat :=
  HashMap.sumOver (fun _ (sle : AccountRoot Id) => if sle.sponsor = some id then 1 else 0) r.accounts

/-- Whether an object is part of a count. -/
def Holding.Counts (held : Holding Id) (field : CountField) (id : Id) : Prop :=
  match field with
  | .ownerCount => id = held.owner
  | .sponsoredOwnerCount => id = held.owner ∧ held.sponsor.isSome
  | .sponsoringOwnerCount => held.sponsor = some id
  | .sponsoringAccountCount => False

instance (held : Holding Id) (field : CountField) (id : Id) : Decidable (held.Counts field id) := by
  cases field <;> unfold Holding.Counts <;> infer_instance

/-- What an object accounts for in a count. -/
def Holding.weight (held : Holding Id) (field : CountField) (id : Id) : Nat :=
  if held.Counts field id then held.count else 0

/-- What the side of a line accounts for: its account owns it when the reserve flag is set. -/
def LineSide.weight (account : Id) (side : LineSide Id Amount) (field : CountField) (id : Id) : Nat :=
  if field = .ownerCount ∧ !side.reserve then 0 else Holding.weight ⟨account, side.sponsor, 1⟩ field id

def RippleState.weight (key : LineKey Id) (line : RippleState Id Amount) (field : CountField) (id : Id) : Nat :=
  line.low.weight key.low field id + line.high.weight key.high field id

namespace Ledger

variable (l : Ledger Id Amount Rest)

def lineTotal (field : CountField) (id : Id) : Nat := HashMap.sumOver (fun key line => line.weight key field id) l.lines

/-- What tickets, proposals and other objects account for. -/
def objectTotal (field : CountField) (id : Id) : Nat :=
  HashMap.sumOver (fun key sle => Holding.weight ⟨key.1, sle.sponsor, 1⟩ field id) l.tickets +
  HashMap.sumOver (fun _ sle => Holding.weight ⟨sle.owner, sle.sponsor,
    proposalOwnerCount sle.proposedTransaction⟩ field id)
    l.proposals +
  HashMap.sumOver (fun _ sle => Holding.weight ⟨sle.owner, sle.sponsor, sle.ownerCount⟩ field id) l.objects

/-- What a count is held against: of `OwnerCount` the sides of trust lines whose reserve flag is set, of
`SponsoredOwnerCount` the account's sponsored sides and sponsored objects, of `SponsoringOwnerCount` everything that
names the account as its sponsor, and of `SponsoringAccountCount` the accounts that do. -/
def counted (field : CountField) (id : Id) : Nat :=
  match field with
  | .ownerCount => l.lineTotal .ownerCount id
  | .sponsoredOwnerCount => l.lineTotal .sponsoredOwnerCount id + l.objectTotal .sponsoredOwnerCount id
  | .sponsoringOwnerCount => l.lineTotal .sponsoringOwnerCount id + l.objectTotal .sponsoringOwnerCount id
  | .sponsoringAccountCount => l.toRoots.sponsoredAccounts id

/-- Every count is at least what it is held against. -/
def Covered : Prop := ∀ field id, l.counted field id ≤ l.toRoots.count field id

/-- No count comes near the end of its range. -/
def Small : Prop := ∀ field id, l.toRoots.count field id < 2147483648

end Ledger

/-- Every count moved with what it is held against. -/
def LockStep (l l' : Ledger Id Amount Rest) : Prop :=
  ∀ field id, (l'.toRoots.count field id : Int) - l'.counted field id = l.toRoots.count field id - l.counted field id

/-- The counts of the account roots changed from `minus` to `plus`, and no account came, went or changed its sponsor. -/
structure Shifted (r r' : Roots Id) (minus plus : CountField → Id → Nat) : Prop where
  counts : ∀ field id, r'.count field id + minus field id = r.count field id + plus field id
  sponsor : ∀ id, (r'.accounts.lookup id).map (·.sponsor) = (r.accounts.lookup id).map (·.sponsor)
  sponsors : ∀ id, r'.sponsoredAccounts id = r.sponsoredAccounts id

variable {minus plus : CountField → Id → Nat}

theorem Shifted.present {r' : Roots Id} (h : Shifted r r' minus plus) (id : Id) :
    (r'.accounts.lookup id).isSome = (r.accounts.lookup id).isSome := by
  have := congrArg Option.isSome (h.sponsor id)
  rwa [Option.isSome_map, Option.isSome_map] at this

theorem Shifted.trans {r₁ r' : Roots Id} {middle : CountField → Id → Nat} (h₁ : Shifted r r₁ minus middle)
    (h₂ : Shifted r₁ r' middle plus) : Shifted r r' minus plus := by
  refine ⟨fun field id => ?_, fun id => (h₂.sponsor id).trans (h₁.sponsor id),
    fun id => (h₂.sponsors id).trans (h₁.sponsors id)⟩
  have := h₁.counts field id
  have := h₂.counts field id
  omega

section Counts

variable {rules : Rules} {r : Roots Id} {account id : Id} {sponsor : Option Id} {field : CountField} {n : Nat}

theorem Roots.isSome_of_count (h : 0 < r.count field id) : (r.accounts.lookup id).isSome := by
  unfold count at h
  cases hl : r.accounts.lookup id with
  | none =>
    rw [hl] at h
    exact absurd h (Nat.lt_irrefl 0)
  | some sle => rfl

theorem Holding.weight_le (held : Holding Id) (field : CountField) (id : Id) : held.weight field id ≤ held.count := by
  unfold Holding.weight
  split
  · exact Nat.le_refl _
  · exact Nat.zero_le _

omit [DecidableEq Id] in
/-- An account that a count of an object is kept in is its owner or its sponsor. -/
theorem Holding.Counts.cases {held : Holding Id} (h : held.Counts field id) :
    id = held.owner ∨ held.sponsor = some id := by
  cases field with
  | ownerCount => exact .inl h
  | sponsoredOwnerCount => exact .inl h.1
  | sponsoringOwnerCount => exact .inr h
  | sponsoringAccountCount => exact h.elim

section
variable (hrule : rules.featureSponsor = true)
include hrule

theorem CountField.get_adjusted (n : Nat) (adj : Int) (sle : AccountRoot Id) :
    field.get (adjusted rules account sponsor adj id sle) =
      if Holding.Counts ⟨account, sponsor, n⟩ field id then confineOwnerCount
        (field.get sle) adj else field.get sle := by
  have hpay : paying rules sponsor = sponsor := if_pos hrule
  cases field with
  | ownerCount => rfl
  | sponsoredOwnerCount =>
    change (if id = account ∧ (paying rules sponsor).isSome then _ else _) = _
    rw [hpay]
    rfl
  | sponsoringOwnerCount =>
    change (if paying rules sponsor = some id then _ else _) = _
    rw [hpay]
    rfl
  | sponsoringAccountCount => rfl

theorem Roots.count_adjustOwnerCountSigned (n : Nat) (adj : Int) :
    (adjustOwnerCountSigned rules r account sponsor adj).count field id = (r.accounts.lookup id).elim 0 fun sle =>
      (if Holding.Counts ⟨account, sponsor, n⟩ field id then confineOwnerCount (field.get sle) adj
        else field.get sle).toNat := by
  unfold count
  rw [lookup_adjustOwnerCountSigned]
  cases r.accounts.lookup id with
  | none => rfl
  | some sle => exact congrArg UInt32.toNat (CountField.get_adjusted hrule n adj sle)

/-- New objects are added to the counts of their owner and its sponsor. -/
theorem Roots.count_increaseOwnerCount (hpos : 0 < n) (hle : n ≤ 2147483647)
    (haccount : (r.accounts.lookup account).isSome) (hsponsor : ∀ s ∈ sponsor, (r.accounts.lookup s).isSome)
    (hfit : r.count field id + n < 4294967296) :
    (increaseOwnerCount rules r account sponsor n).count field id =
      r.count field id + Holding.weight ⟨account, sponsor, n⟩ field id := by
  unfold increaseOwnerCount
  rw [if_neg (by omega), count_adjustOwnerCountSigned hrule n]
  unfold Holding.weight count
  unfold count at hfit
  by_cases hc : Holding.Counts ⟨account, sponsor, n⟩ field id
  · simp only [if_pos hc]
    have hsome : (r.accounts.lookup id).isSome := by
      rcases hc.cases with rfl | hs
      · exact haccount
      · exact hsponsor id hs
    obtain ⟨sle, hsle⟩ := Option.isSome_iff_exists.1 hsome
    rw [hsle] at hfit ⊢
    have := toNat_confineOwnerCount (field.get sle) n (by omega) (by omega)
    simp only [Option.elim_some] at hfit ⊢
    omega
  · simp only [if_neg hc, Nat.add_zero]

/-- Objects that are given up are taken off the counts of their owner and its sponsor. -/
theorem Roots.count_decreaseOwnerCount (hpos : 0 < n) (hle : n ≤ 2147483647)
    (hcov : Holding.weight ⟨account, sponsor, n⟩ field id ≤ r.count field id) :
    (decreaseOwnerCount rules r account sponsor n).count field id + Holding.weight ⟨account, sponsor, n⟩ field id =
      r.count field id := by
  unfold decreaseOwnerCount
  rw [if_neg (by omega), count_adjustOwnerCountSigned hrule n]
  unfold Holding.weight count at *
  by_cases hc : Holding.Counts ⟨account, sponsor, n⟩ field id
  · rw [if_pos hc] at hcov
    simp only [if_pos hc]
    cases hsle : r.accounts.lookup id with
    | none =>
      rw [hsle] at hcov
      simp only [Option.elim_none] at hcov
      omega
    | some sle =>
      rw [hsle] at hcov
      simp only [Option.elim_some] at hcov ⊢
      rw [toNat_confineOwnerCount_neg _ hle]
      omega
  · simp only [if_neg hc, Nat.add_zero]

end

theorem Roots.sponsor_adjustOwnerCountSigned (adj : Int) :
    ((adjustOwnerCountSigned rules r account sponsor adj).accounts.lookup id).map (·.sponsor) =
      (r.accounts.lookup id).map (·.sponsor) := by
  rw [lookup_adjustOwnerCountSigned, Option.map_map]
  rfl

/-- A change to an account root that keeps its sponsor keeps the number of accounts that each account sponsors. -/
theorem Roots.sponsoredAccounts_modify {set : AccountRoot Id → AccountRoot Id}
    (hset : ∀ sle, (set sle).sponsor = sle.sponsor) :
    (r.modify account set).sponsoredAccounts id = r.sponsoredAccounts id := by
  unfold modify
  cases hsle : r.accounts.lookup account with
  | none => rfl
  | some sle =>
    have hins := HashMap.sumOver_insert (fun _ (sle : AccountRoot Id) => if sle.sponsor = some id then 1 else 0)
      r.accounts account (set sle)
    rw [hsle, Option.map_some, Option.getD_some, hset] at hins
    exact Nat.add_right_cancel hins

theorem Roots.sponsoredAccounts_adjustOwnerCountSigned (adj : Int) :
    (adjustOwnerCountSigned rules r account sponsor adj).sponsoredAccounts id = r.sponsoredAccounts id := by
  have htake : ∀ (r : Roots Id) (s : Id),
      (if 0 < adj then r.takeReserve s account adj else r).sponsoredAccounts id = r.sponsoredAccounts id := by
    intro r s
    split
    · unfold sponsoredAccounts
      rw [accounts_takeReserve]
    · rfl
  have howner : ∀ r : Roots Id, (r.modify account (addOwner adj)).sponsoredAccounts id = r.sponsoredAccounts id :=
    fun r => sponsoredAccounts_modify fun _ => rfl
  unfold adjustOwnerCountSigned
  split
  · cases sponsor with
    | none => exact howner r
    | some s =>
      dsimp only
      have hsponsoring : ∀ r : Roots Id, (r.modify s (addSponsoring adj)).sponsoredAccounts
          id = r.sponsoredAccounts id :=
        fun r => sponsoredAccounts_modify fun _ => rfl
      rw [howner, htake, hsponsoring]
      exact sponsoredAccounts_modify fun _ => rfl
  · exact howner r

end Counts

end Rippled.Transactor
