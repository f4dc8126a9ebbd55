import Rippled.Transactor.Sponsors

/-!
# Trust lines

A trust line joins two accounts, and each side of it can be charged to the reserve of its account, with a flag that says
so and with a sponsor of its own. The code that sets or clears the flag changes up to three account roots with it.
`Balanced` says that the counts of the roots and a line moved together; it composes, so each function below is balanced
step by step.

The lines under a key are shared pointers in the code: what is written to one is seen at once by whoever reads it. Where
the result is not a success, the ledger that comes with it is one that is thrown away.
-/

namespace Rippled.Transactor

open Lib Directory View RippleState Option LineKey HashMap

variable {Id Amount Rest : Type}

def LineSide.charge (side : LineSide Id Amount) (sponsor : Option Id) : LineSide Id Amount :=
  { addSponsorToLedgerEntry side sponsor with reserve := true }

def LineSide.discharge (side : LineSide Id Amount) : LineSide Id Amount :=
  { removeSponsorFromLedgerEntry side with reserve := false }

section Model

variable [DecidableEq Id] [LinearOrder (ObjectKey Id)] (rules : Rules)

/-- A side begins to count for the reserve of its account. -/
def setReserve (r : Roots Id) (line : RippleState Id Amount) (high : Bool) (account : Id) (sponsor : Option Id) :
    Roots Id × RippleState Id Amount :=
  (increaseOwnerCount rules r account sponsor 1, line.setSide high ((line.side high).charge sponsor))

/-- A side no longer counts for the reserve of its account. -/
def clearReserve (r : Roots Id) (line : RippleState Id Amount) (high : Bool) (account : Id)
    (currentSponsor : Option Id) : Roots Id × RippleState Id Amount :=
  (decreaseOwnerCount rules r account currentSponsor 1, line.setSide high (line.side high).discharge)

def Ledger.setLine (l : Ledger Id Amount Rest) (key : LineKey Id) (state : Roots Id × RippleState Id Amount) :
    Ledger Id Amount Rest :=
  { l with toRoots := state.1, lines := l.lines.insert key state.2 }

def Ledger.dirInsert (l : Ledger Id Amount Rest) (account : Id) (key : ObjectKey Id) :
    Run Exception (Option Nat × Ledger Id Amount Rest) := do
  let (page, dir) ← Directory.dirInsert (.ownerDir account) rules.fixDirectoryLimit (l.ownerDirs account) key
  return (page, l.setDir account dir)

/-- What a line is created with, for the account that is being set. -/
structure LineTerms (Id Amount : Type) where
  bAuth : Bool := false
  bNoRipple : Bool := false
  bFreeze : Bool := false
  bDeepFreeze : Bool := false
  saBalance : Amount
  saLimit : Amount
  limitIssuer : Id
  uQualityIn : UInt32 := 0
  uQualityOut : UInt32 := 0

variable [Zero Amount] [Neg Amount]

/-- The line as it is before its reserve is charged to an account. -/
def newLine (terms : LineTerms Id Amount) (bSetHigh : Bool) (peer : Id)
    (peerDefaultRipple : Bool) (lowNode highNode : Nat) : RippleState Id Amount :=
  let set : LineSide Id Amount :=
    { limit := terms.saLimit, limitIssuer := terms.limitIssuer, qualityIn := terms.uQualityIn,
      qualityOut := terms.uQualityOut, node := if bSetHigh then highNode else lowNode, auth := terms.bAuth,
      noRipple := terms.bNoRipple, freeze := terms.bFreeze, deepFreeze := terms.bDeepFreeze }
  let other : LineSide Id Amount :=
    { limit := 0, limitIssuer := peer, node := if bSetHigh then lowNode else highNode, noRipple := !peerDefaultRipple }
  if bSetHigh then ⟨-terms.saBalance, other, set⟩ else ⟨terms.saBalance, set, other⟩

def trustCreate (l : Ledger Id Amount Rest) (bSrcHigh : Bool) (uSrcAccountID uDstAccountID : Id) (uIndex : LineKey Id)
    (sleAccount : Id) (terms : LineTerms Id Amount) (sponsorSle : Option Id) :
    Run Exception (TER × Ledger Id Amount Rest) := do
  let uLowAccountID := if bSrcHigh then uDstAccountID else uSrcAccountID
  let uHighAccountID := if bSrcHigh then uSrcAccountID else uDstAccountID
  if uLowAccountID = uHighAccountID ∧ rules.featureLendingProtocol then return (.tec .tecINTERNAL, l)
  else if (l.lines.lookup uIndex).isSome then logicError "ApplyStateTable::insert: already inserted"
  else
    match ← l.dirInsert rules uLowAccountID (.trustLine uIndex) with
    | (none, l) => return (.tec .tecDIR_FULL, l)
    | (some lowNode, l) =>
      match ← l.dirInsert rules uHighAccountID (.trustLine uIndex) with
      | (none, l) => return (.tec .tecDIR_FULL, l)
      | (some highNode, l) =>
        let bSetDst := decide (terms.limitIssuer = uDstAccountID)
        let bSetHigh := xor bSrcHigh bSetDst
        if (l.accounts.lookup sleAccount).isNone then return (.rejected .tefINTERNAL, l)
        else
          match l.accounts.lookup (if bSetHigh then uLowAccountID else uHighAccountID) with
          | none => return (.tec .tecNO_TARGET, l)
          | some slePeer =>
            let peer := if bSetDst then uSrcAccountID else uDstAccountID
            let line := newLine terms bSetHigh peer slePeer.defaultRipple lowNode highNode
            return (.tesSUCCESS, l.setLine uIndex (setReserve rules l.toRoots line bSetHigh sleAccount sponsorSle))

def trustDelete (l : Ledger Id Amount Rest) (index : LineKey Id) (uLowAccountID uHighAccountID : Id) :
    Run Exception (TER × Ledger Id Amount Rest) :=
  match l.lines.lookup index with
  | none => Run.throw .nullPointer
  | some sleRippleState => do
    let (removed, dir) ← dirRemove (l.ownerDirs uLowAccountID) sleRippleState.low.node (.trustLine index) false
    if !removed then return (.rejected .tefBAD_LEDGER, l)
    else
      let l := l.setDir uLowAccountID dir
      let (removed, dir) ← dirRemove (l.ownerDirs uHighAccountID) sleRippleState.high.node (.trustLine index) false
      if !removed then return (.rejected .tefBAD_LEDGER, l)
      else return (.tesSUCCESS, { l.setDir uHighAccountID dir with lines := l.lines.erase index })

/-- A side that counts for the reserve is cleared before its line goes; `none` when its account is not there. -/
def clearBeforeDelete (r : Roots Id) (line : RippleState Id Amount) (high : Bool) :
    Option (Roots Id × RippleState Id Amount) :=
  let side := line.side high
  if side.reserve then
    if (r.accounts.lookup side.limitIssuer).isNone then none
    else some (clearReserve rules r line high side.limitIssuer (getLedgerEntryReserveSponsor r side.sponsor))
  else some (r, line)

end Model

section Holdings

variable [LinearOrder Id] [LinearOrder (ObjectKey Id)] (rules : Rules) [Zero Amount]

/-- The key of the line between two accounts, the lower one first. -/
def LineKey.of (id0 id1 : Id) (currency : Nat) : LineKey Id := ⟨min id0 id1, max id0 id1, currency⟩

section Send

variable [Neg Amount] [Sub Amount] [LinearOrder Amount]

/-- Whether a payment takes the sender's balance out of the range in which its side counts for the reserve. -/
def senderReserveEnds (l : Ledger Id Amount Rest) (sender : LineSide Id Amount) (uSenderID : Id)
    (saBefore saBalance : Amount) : Run Exception Bool :=
  if 0 < saBefore ∧ saBalance ≤ 0 ∧ sender.reserve then
    match l.accounts.lookup uSenderID with
    | none => Run.throw .nullPointer
    | some sle => .ok (decide (sender.noRipple ≠ sle.defaultRipple ∧ !sender.freeze ∧ sender.limit = 0 ∧
        sender.qualityIn = 0 ∧ sender.qualityOut = 0))
  else .ok false

def directSendNoFeeIOU (l : Ledger Id Amount Rest) (uSenderID uReceiverID : Id) (currency : Nat) (saAmount : Amount)
    (sponsorSle : Option Id) : Run Exception (TER × Ledger Id Amount Rest) := do
  let bSenderHigh := decide (uReceiverID < uSenderID)
  let index := LineKey.of uSenderID uReceiverID currency
  match l.lines.lookup index with
  | some sleRippleState =>
    let saBefore := if bSenderHigh then -sleRippleState.balance else sleRippleState.balance
    let saBalance := saBefore - saAmount
    let sender := sleRippleState.side bSenderHigh
    let ends ← senderReserveEnds l sender uSenderID saBefore saBalance
    let state :=
      if ends then
        clearReserve rules l.toRoots sleRippleState bSenderHigh uSenderID
          (getLedgerEntryReserveSponsor l.toRoots sender.sponsor)
      else (l.toRoots, sleRippleState)
    let bDelete := ends && decide (saBalance = 0) && !(sleRippleState.side (!bSenderHigh)).reserve
    let l := l.setLine index (state.1, { state.2 with balance := if bSenderHigh then -saBalance else saBalance })
    if bDelete then
      trustDelete l index (if bSenderHigh then uReceiverID else uSenderID)
        (if bSenderHigh then uSenderID else uReceiverID)
    else return (.tesSUCCESS, l)
  | none =>
    match l.accounts.lookup uReceiverID with
    | none => return (.rejected .tefINTERNAL, l)
    | some sleAccount =>
      let terms : LineTerms Id Amount :=
        { bNoRipple := !sleAccount.defaultRipple, saBalance := saAmount, saLimit := 0, limitIssuer := uReceiverID }
      trustCreate rules l bSenderHigh uSenderID uReceiverID index uReceiverID terms sponsorSle

end Send

/-- An empty trust line, or an empty balance of XRP, whose currency is zero, is removed. -/
def removeEmptyHolding [DecidableEq Amount] (l : Ledger Id Amount Rest) (accountID issuer : Id) (currency : Nat) :
    Run Exception (TER × Ledger Id Amount Rest) :=
  if currency = 0 then
    match l.accounts.lookup accountID with
    | none => .ok (.tec .tecINTERNAL, l)
    | some sle => .ok (if sle.balance ≠ 0 then .tec .tecHAS_OBLIGATIONS else .tesSUCCESS, l)
  else
    let accountIsIssuer := decide (accountID = issuer)
    let index := LineKey.of accountID issuer currency
    match l.lines.lookup index with
    | none => .ok (if accountIsIssuer then .tesSUCCESS else .tec .tecOBJECT_NOT_FOUND, l)
    | some line =>
      if !accountIsIssuer ∧ line.balance ≠ 0 then .ok (.tec .tecHAS_OBLIGATIONS, l)
      else
        match clearBeforeDelete rules l.toRoots line false with
        | none => .ok (.tec .tecINTERNAL, l)
        | some (r, line) =>
          match clearBeforeDelete rules r line true with
          | none => .ok (.tec .tecINTERNAL, l.setLine index (r, line))
          | some state => trustDelete (l.setLine index state) index state.2.low.limitIssuer state.2.high.limitIssuer

end Holdings

/-! ## Sides -/

variable {line line' : RippleState Id Amount} {key : LineKey Id} {r r' : Roots Id} {high : Bool} {sponsor : Option Id}
  {rules : Rules} {l l' : Ledger Id Amount Rest}

section Sides

variable (line : RippleState Id Amount) (high : Bool) (side : LineSide Id Amount)

@[simp] theorem RippleState.side_setSide_self : (line.setSide high side).side high = side := by
  cases high <;> rfl

@[simp] theorem RippleState.side_setSide_not : (line.setSide high side).side (!high) = line.side (!high) := by
  cases high <;> rfl

/-- Writing one side leaves the other alone. -/
theorem RippleState.side_setSide (high' : Bool) :
    (line.setSide high side).side high' = if high' = high then side else line.side high' := by
  cases high <;> cases high' <;> rfl

/-- A side that is charged to nobody. -/
def LineSide.Clear (side : LineSide Id Amount) : Prop := side.reserve = false ∧ side.sponsor = none

theorem LineSide.clear_discharge : side.discharge.Clear := ⟨rfl, rfl⟩

variable {side}

theorem LineSide.Clear.sponsor_charge (h : side.Clear) (sponsor : Option Id) :
    (side.charge sponsor).sponsor = sponsor := by
  cases sponsor
  · exact h.2
  · rfl

variable [DecidableEq Id] {field : CountField} {account id : Id}

theorem LineSide.Clear.weight_eq_zero (h : side.Clear) : side.weight account field id = 0 := by
  unfold LineSide.weight
  cases field with
  | ownerCount => rw [h.1]; rfl
  | sponsoredOwnerCount => rw [h.2]; simp [Holding.weight, Holding.Counts]
  | sponsoringOwnerCount => rw [h.2]; simp [Holding.weight, Holding.Counts]
  | sponsoringAccountCount => rfl

/-- A charged side counts as one object of its account. -/
theorem LineSide.weight_of_reserve (h : side.reserve = true) :
    side.weight account field id = Holding.weight ⟨account, side.sponsor, 1⟩ field id := by
  unfold LineSide.weight
  rw [h]
  exact if_neg fun h => absurd h.2 (by decide)

theorem LineSide.weight_le_one : side.weight account field id ≤ 1 := by
  unfold LineSide.weight
  split
  · exact Nat.zero_le 1
  · exact Holding.weight_le _ _ _

section
variable (key) (field) (id)

/-- A line weighs more by what its new side weighs more. -/
theorem RippleState.weight_setSide (high : Bool) (side : LineSide Id Amount) :
    (line.setSide high side).weight key field id + (line.side high).weight (key.account high) field id =
      line.weight key field id + side.weight (key.account high) field id := by
  cases high with
  | false =>
    change side.weight key.low field id + line.high.weight key.high field id + line.low.weight key.low field id =
      line.low.weight key.low field id + line.high.weight key.high field id + side.weight key.low field id
    omega
  | true =>
    change line.low.weight key.low field id + side.weight key.high field id + line.high.weight key.high field id =
      line.low.weight key.low field id + line.high.weight key.high field id + side.weight key.high field id
    omega

/-- A side weighs no more than its line. -/
theorem RippleState.side_weight_le (high : Bool) :
    (line.side high).weight (key.account high) field id ≤ line.weight key field id := by
  cases high
  · exact Nat.le_add_right _ _
  · exact Nat.le_add_left _ _

theorem RippleState.weight_le_two : line.weight key field id ≤ 2 :=
  Nat.add_le_add LineSide.weight_le_one LineSide.weight_le_one

end

variable {line}

/-- What a line accounts for depends on no more than its reserve flags and its sponsors. -/
theorem RippleState.weight_congr (key : LineKey Id)
    (h : ∀ high, (line'.side high).reserve = (line.side high).reserve ∧
      (line'.side high).sponsor = (line.side high).sponsor) :
    line'.weight key field id = line.weight key field id := by
  have hside : ∀ high, (line'.side high).weight (key.account high) field id =
      (line.side high).weight (key.account high) field id := by
    intro high
    unfold LineSide.weight
    rw [(h high).1, (h high).2]
  exact congrArg₂ (· + ·) (hside false) (hside true)

theorem RippleState.weight_of_clear (key : LineKey Id) (h : ∀ high, (line.side high).Clear) :
    line.weight key field id = 0 := by
  have hside : ∀ high, (line.side high).weight (key.account high) field id = 0 := fun high => (h high).weight_eq_zero
  exact congrArg₂ (· + ·) (hside false) (hside true)

end Sides

/-! ## Balanced changes -/

section Balanced

variable [DecidableEq Id]

def lineWeight (key : LineKey Id) (line : Option (RippleState Id Amount)) (field : CountField) (id : Id) : Nat :=
  (line.map fun line => line.weight key field id).getD 0

/-- The counts of the account roots changed by what the line under `key` changed by. -/
abbrev Balanced (key : LineKey Id) (r : Roots Id) (line : Option (RippleState Id Amount)) (r' : Roots Id)
    (line' : Option (RippleState Id Amount)) : Prop :=
  Shifted r r' (lineWeight key line) (lineWeight key line')

/-- Nothing is charged or discharged. -/
theorem Balanced.of_same (h : ∀ high, (line'.side high).reserve = (line.side high).reserve ∧
    (line'.side high).sponsor = (line.side high).sponsor) : Balanced key r (some line) r (some line') := by
  refine ⟨fun field id => ?_, fun _ => rfl, fun _ => rfl⟩
  exact congrArg (r.count field id + ·) (weight_congr key h).symm

/-- The counts of the accounts cover what the line accounts for. -/
def Covers (key : LineKey Id) (r : Roots Id) (line : RippleState Id Amount) : Prop :=
  ∀ field id, line.weight key field id ≤ r.count field id

/-- Counts that move with the line still cover it. -/
theorem Balanced.covers (h : Balanced key r (some line) r' (some line')) (hcov : Covers key r line) :
    Covers key r' line' := by
  intro field id
  have := h.counts field id
  have := hcov field id
  simp only [lineWeight, map_some, getD_some] at *
  omega

/-- The sponsor that a side names is an account. -/
theorem Covers.getLedgerEntryReserveSponsor (hcov : Covers key r line) (high : Bool) :
    getLedgerEntryReserveSponsor r (line.side high).sponsor = (line.side high).sponsor := by
  unfold Transactor.getLedgerEntryReserveSponsor
  cases hs : (line.side high).sponsor with
  | none => rfl
  | some s =>
    have hside : (line.side high).weight (key.account high) .sponsoringOwnerCount s = 1 := if_pos hs
    have hle := side_weight_le key line .sponsoringOwnerCount s high
    have hpos : 0 < r.count .sponsoringOwnerCount s := by
      have := hcov .sponsoringOwnerCount s
      omega
    exact filter_some_pos (Roots.isSome_of_count hpos)

/-- Charging a side adds it to the counts. -/
theorem setReserve_balanced (hrule : rules.featureSponsor = true) (hclear : (line.side high).Clear)
    (haccount : (r.accounts.lookup (key.account high)).isSome) (hsponsor : ∀ s ∈ sponsor, (r.accounts.lookup s).isSome)
    (hfit : ∀ field id, r.count field id + 1 < 4294967296) :
    Balanced key r (some line) (setReserve rules r line high (key.account high) sponsor).1
      (some (setReserve rules r line high (key.account high) sponsor).2) := by
  refine ⟨fun field id => ?_, fun id => ?_, fun id => ?_⟩
  · have hcount := Roots.count_increaseOwnerCount hrule Nat.one_pos (by decide) haccount hsponsor (hfit field id)
    have hset := weight_setSide key line field id high ((line.side high).charge sponsor)
    rw [hclear.weight_eq_zero, LineSide.weight_of_reserve rfl, hclear.sponsor_charge] at hset
    change (increaseOwnerCount rules r (key.account high) sponsor 1).count field id + line.weight key field id =
      r.count field id + weight key (line.setSide high _) field id
    omega
  · exact Roots.sponsor_adjustOwnerCountSigned 1
  · exact Roots.sponsoredAccounts_adjustOwnerCountSigned 1

/-- Discharging a side takes it out of the counts. -/
theorem clearReserve_balanced (hrule : rules.featureSponsor = true) (hreserve : (line.side high).reserve = true)
    (hcov : Covers key r line) :
    Balanced key r (some line) (clearReserve rules r line high (key.account high) (line.side high).sponsor).1
      (some (clearReserve rules r line high (key.account high) (line.side high).sponsor).2) := by
  refine ⟨fun field id => ?_, fun id => ?_, fun id => ?_⟩
  · have hle := (side_weight_le key line field id high).trans (hcov field id)
    rw [LineSide.weight_of_reserve hreserve] at hle
    have hcount := Roots.count_decreaseOwnerCount hrule (by decide) (by decide) hle
    have hset := weight_setSide key line field id high (line.side high).discharge
    rw [LineSide.weight_of_reserve hreserve, (LineSide.clear_discharge _).weight_eq_zero] at hset
    change (decreaseOwnerCount rules r (key.account high) (line.side high).sponsor 1).count field id +
      line.weight key field id = r.count field id + weight key (line.setSide high _) field id
    omega
  · exact Roots.sponsor_adjustOwnerCountSigned (-1)
  · exact Roots.sponsoredAccounts_adjustOwnerCountSigned (-1)

/-- A side that is charged to nobody can come and go. -/
theorem Balanced.of_clear (h : ∀ high, (line.side high).Clear) : Balanced key r none r (some line) := by
  refine ⟨fun field id => ?_, fun _ => rfl, fun _ => rfl⟩
  exact congrArg (r.count field id + ·) (weight_of_clear key h).symm

end Balanced

/-! ## What the functions do -/

section Specs

/-- A line as the code keeps it: each side is that of its account, and names a sponsor only while it is charged. -/
structure LineSound (key : LineKey Id) (line : RippleState Id Amount) : Prop where
  issuer : ∀ high, (line.side high).limitIssuer = key.account high
  sponsor : ∀ high, (line.side high).sponsor.isSome → (line.side high).reserve = true

/-- A side without a reserve names no sponsor. -/
theorem LineSound.clear (h : LineSound key line) (hreserve : (line.side high).reserve = false) :
    (line.side high).Clear := by
  refine ⟨hreserve, not_isSome_iff_eq_none.1 fun hs => ?_⟩
  rw [h.sponsor high hs] at hreserve
  cases hreserve

theorem LineSound.setSide (h : LineSound key line) {side : LineSide Id Amount}
    (hissuer : side.limitIssuer = (line.side high).limitIssuer) (hsponsor : side.sponsor.isSome → side.reserve = true) :
    LineSound key (line.setSide high side) := by
  refine ⟨fun high' => ?_, fun high' => ?_⟩
  · rw [side_setSide]
    split
    · rename_i heq
      rw [hissuer, h.issuer, heq]
    · exact h.issuer high'
  · rw [side_setSide]
    split
    · exact hsponsor
    · exact h.sponsor high'

variable [DecidableEq Id]

def Ledger.LinesSound (l : Ledger Id Amount Rest) : Prop :=
  ∀ key line, l.lines.lookup key = some line → LineSound key line

theorem LineSound.setReserve (h : LineSound key line) (account : Id) :
    LineSound key (setReserve rules r line high account sponsor).2 := by
  refine h.setSide ?_ fun _ => rfl
  cases sponsor <;> rfl

theorem LineSound.clearReserve (h : LineSound key line) (account : Id) :
    LineSound key (clearReserve rules r line high account sponsor).2 :=
  h.setSide rfl fun h => absurd h Bool.false_ne_true

/-- In a covered ledger every line is covered. -/
theorem Ledger.Covered.covers (h : l.Covered) (hline : l.lines.lookup key = some line) : Covers key l.toRoots line := by
  intro field id
  have hle : line.weight key field id ≤ l.lineTotal field id := by
    unfold Ledger.lineTotal
    rw [sumOver_of_lookup _ hline]
    exact Nat.le_add_right _ _
  have hcov := h field id
  cases field with
  | ownerCount => exact hle.trans hcov
  | sponsoredOwnerCount => exact hle.trans ((Nat.le_add_right _ _).trans hcov)
  | sponsoringOwnerCount => exact hle.trans ((Nat.le_add_right _ _).trans hcov)
  | sponsoringAccountCount => exact Nat.zero_le _

/-- The change of one line, balanced by the counts, keeps every count in step. -/
theorem LockStep.of_balanced (hbal : Balanced key l.toRoots (l.lines.lookup key) l'.toRoots (some line'))
    (hlines : ∀ field id, l'.lineTotal field id + lineWeight key (l.lines.lookup key) field id =
      l.lineTotal field id + line'.weight key field id)
    (hobjects : ∀ field id, l'.objectTotal field id = l.objectTotal field id) : LockStep l l' := by
  intro field id
  have hcount : _ = _ + line'.weight key field id := hbal.counts field id
  have hline := hlines field id
  have hobject := hobjects field id
  cases field with
  | ownerCount =>
    simp only [Ledger.counted]
    omega
  | sponsoredOwnerCount =>
    simp only [Ledger.counted]
    omega
  | sponsoringOwnerCount =>
    simp only [Ledger.counted]
    omega
  | sponsoringAccountCount =>
    have hzero : lineWeight key (l.lines.lookup key) .sponsoringAccountCount id = 0 := by
      cases l.lines.lookup key <;> rfl
    have hzero' : line'.weight key .sponsoringAccountCount id = 0 := rfl
    simp only [Ledger.counted, hbal.sponsors]
    omega

/-- A line is written with the counts it calls for. -/
theorem lockStep_setLine (hbal : Balanced key l.toRoots (l.lines.lookup key) r (some line'))
    (dirs : Id → Dir (ObjectKey Id)) :
    LockStep l (({ l with ownerDirs := dirs } : Ledger Id Amount Rest).setLine key (r, line')) :=
  .of_balanced hbal (fun _ _ => sumOver_insert _ l.lines key line') fun _ _ => rfl

variable [LinearOrder (ObjectKey Id)]

/-- What the operations below do to the ledger: counts stay in step with what they count, sponsors stay on charged
sides, and a line goes only after both of its sides have been discharged. -/
structure Accounted (l l' : Ledger Id Amount Rest) : Prop where
  lockStep : LockStep l l'
  sound : l'.LinesSound
  deleted : ∀ key, (l.lines.lookup key).isSome → l'.lines.lookup key = none → ∃ l₁ line,
    l₁.lines.lookup key = some line ∧ line.low.reserve = false ∧ line.high.reserve = false ∧
    trustDelete l₁ key key.low key.high = .ok (.tesSUCCESS, l')

theorem Accounted.of_unchanged (hsound : l.LinesSound) : Accounted l l := by
  refine ⟨fun _ _ => rfl, hsound, fun key hsome hnone => ?_⟩
  rw [hnone] at hsome
  cases hsome

theorem Accounted.of_ok {ter ter' : TER} (hsound : l.LinesSound)
    (h : (.ok (ter, l) : Run Exception (TER × Ledger Id Amount Rest)) = .ok (ter', l')) : Accounted l l' := by
  cases h
  exact .of_unchanged hsound

/-- A sound line is written with the counts it calls for. -/
theorem accounted_setLine (hsound : l.LinesSound) (hbal : Balanced key l.toRoots (l.lines.lookup key) r (some line'))
    (hline : LineSound key line') (dirs : Id → Dir (ObjectKey Id)) :
    Accounted l (({ l with ownerDirs := dirs } : Ledger Id Amount Rest).setLine key (r, line')) := by
  have hlookup : ∀ key', (l.lines.insert key line').lookup key' = if key' =
      key then some line' else l.lines.lookup key' :=
    lookup_insert_eq l.lines key line'
  refine ⟨lockStep_setLine hbal dirs, fun key' line hl => ?_, fun key' hsome hnone => ?_⟩
  · have hl := (hlookup key').symm.trans hl
    split at hl
    · rename_i heq
      rw [heq, ← some.inj hl]
      exact hline
    · exact hsound key' line hl
  · have hnone := (hlookup key').symm.trans hnone
    split at hnone
    · cases hnone
    · rw [hnone] at hsome
      cases hsome

/-- A deletion takes out the line and its directory entries. -/
theorem trustDelete_eq_ok {low high : Id} (h : trustDelete l key low high = .ok (.tesSUCCESS, l')) :
    ∃ dirs, l' = { l with ownerDirs := dirs, lines := l.lines.erase key } := by
  unfold trustDelete at h
  cases hline : l.lines.lookup key with
  | none =>
    rw [hline] at h
    cases h
  | some line =>
    rw [hline] at h
    obtain ⟨⟨removed, dir⟩, -, h⟩ := Run.bind_eq_ok.1 h
    dsimp only at h
    cases removed with
    | false => cases h
    | true =>
      obtain ⟨⟨removed, dir'⟩, -, h⟩ := Run.bind_eq_ok.1 h
      dsimp only at h
      cases removed with
      | false => cases h
      | true =>
        cases h
        exact ⟨_, rfl⟩

/-- A line whose sides are clear is deleted. -/
theorem accounted_trustDelete (hsound : l.LinesSound)
    (hbal : Balanced key l.toRoots (l.lines.lookup key) r (some line')) (hclear : ∀ high, (line'.side high).Clear)
    (h : trustDelete (l.setLine key (r, line')) key key.low key.high = .ok (.tesSUCCESS, l')) : Accounted l l' := by
  have hlookup : (l.lines.insert key line').lookup key = some line' := AList.lookup_insert _
  have herase : ∀ key', ((l.lines.insert key line').erase key).lookup key' = if key' = key then none
      else l.lines.lookup key' := by
    intro key'
    rw [lookup_erase_eq, lookup_insert_eq]
    split <;> rfl
  obtain ⟨dirs, rfl⟩ := trustDelete_eq_ok h
  refine ⟨.of_balanced hbal (fun field id => ?_) fun _ _ => rfl, fun key' line hl => ?_, fun key' hsome hnone => ?_⟩
  · -- the line weighs nothing, so it goes as it is
    have hins := sumOver_insert (fun key line => weight key line field id) l.lines key line'
    have hdel := sumOver_erase (fun key line => weight key line field id) (l.lines.insert key line') key
    rw [hlookup] at hdel
    have hzero : line'.weight key field id = 0 := weight_of_clear key hclear
    rw [map_some, getD_some, hzero, Nat.add_zero] at hdel
    change sumOver _ ((l.lines.insert key line').erase key) + _ = _
    rw [hdel]
    exact hins
  · have hl := (herase key').symm.trans hl
    split at hl
    · cases hl
    · exact hsound key' line hl
  · have hnone := (herase key').symm.trans hnone
    split at hnone
    · rename_i heq
      rw [heq]
      exact ⟨_, line', hlookup, (hclear false).1, (hclear true).1, h⟩
    · rw [hnone] at hsome
      cases hsome

/-! ### Lines that are created -/

section Create

theorem Ledger.dirInsert_eq_ok {account : Id} {key : ObjectKey Id} {page : Option Nat}
    (h : l.dirInsert rules account key = .ok (page, l')) : ∃ dirs, l' = { l with ownerDirs := dirs } := by
  obtain ⟨⟨page, dir⟩, -, h⟩ := Run.bind_eq_ok.1 h
  cases h
  exact ⟨_, rfl⟩

variable [Zero Amount] [Neg Amount] {terms : LineTerms Id Amount} {bSrcHigh : Bool}
    {src dst sleAccount : Id} {uIndex : LineKey Id}

omit [DecidableEq Id] [LinearOrder (ObjectKey Id)] in
/-- A new line is not charged yet. -/
theorem newLine_clear {bSetHigh peerDefaultRipple : Bool} {peer : Id} {lowNode highNode : Nat} (high : Bool) :
    ((newLine terms bSetHigh peer peerDefaultRipple lowNode highNode).side high).Clear := by
  cases bSetHigh <;> cases high <;> exact ⟨rfl, rfl⟩

section
variable (h : trustCreate rules l bSrcHigh src dst uIndex sleAccount terms sponsor = .ok (.tesSUCCESS, l'))
include h

/-- A line that is created was not there, and is charged to the account that is being set. -/
theorem trustCreate_eq_ok :
    l.lines.lookup uIndex = none ∧ (l.accounts.lookup sleAccount).isSome ∧
    ∃ dirs line bSetHigh, bSetHigh = xor bSrcHigh (decide (terms.limitIssuer = dst)) ∧
      (∀ high, (line.side high).Clear) ∧ (line.side bSetHigh).limitIssuer = terms.limitIssuer ∧
      (line.side !bSetHigh).limitIssuer = (if terms.limitIssuer = dst then src else dst) ∧
      l' = ({ l with ownerDirs := dirs } : Ledger Id Amount Rest).setLine uIndex
        (setReserve rules l.toRoots line bSetHigh sleAccount sponsor) := by
  unfold trustCreate at h
  dsimp only at h
  generalize (if bSrcHigh then dst else src) = uLow at h
  generalize (if bSrcHigh then src else dst) = uHigh at h
  split at h
  · cases h
  · split at h
    · cases h
    · rename_i hnone
      obtain ⟨⟨lowNode, l₁⟩, hlow, h⟩ := Run.bind_eq_ok.1 h
      obtain ⟨dirs₁, rfl⟩ := Ledger.dirInsert_eq_ok hlow
      cases lowNode with
      | none => cases h
      | some lowNode =>
        obtain ⟨⟨highNode, l₂⟩, hhigh, h⟩ := Run.bind_eq_ok.1 h
        obtain ⟨dirs₂, rfl⟩ := Ledger.dirInsert_eq_ok hhigh
        cases highNode with
        | none => cases h
        | some highNode =>
          dsimp only at h
          generalize xor bSrcHigh (decide (terms.limitIssuer = dst)) = bSetHigh at h ⊢
          split at h
          · cases h
          · rename_i haccount
            split at h
            · cases h
            · have hl := (congrArg Prod.snd (Except.ok.inj h)).symm
              have hsome : (l.accounts.lookup sleAccount).isSome := isSome_iff_ne_none.2 (by simpa using haccount)
              refine ⟨not_isSome_iff_eq_none.1 hnone, hsome, dirs₂, _, bSetHigh, rfl, newLine_clear, ?_, ?_, hl⟩
              · cases bSetHigh <;> rfl
              · cases bSetHigh <;> simp [newLine, side]

/-- A new line is charged to `sleAccount`. -/
theorem trustCreate_accounted (hrule : rules.featureSponsor = true) (hsound : l.LinesSound) (hsmall : l.Small)
    (hlow : uIndex.low = if bSrcHigh then dst else src) (hhigh : uIndex.high = if bSrcHigh then src else dst)
    (hissuer : terms.limitIssuer = sleAccount) (haccount : sleAccount = src ∨ sleAccount = dst)
    (hsponsor : ∀ s ∈ sponsor, (l.accounts.lookup s).isSome) :
    Accounted l l' := by
  obtain ⟨hnone, hsome, dirs, line, bSetHigh, hset, hclear, hside, hpeer, rfl⟩ := trustCreate_eq_ok h
  rw [hissuer] at hset hside hpeer
  have hkey : uIndex.account bSetHigh = sleAccount ∧
      uIndex.account (!bSetHigh) = if sleAccount = dst then src else dst := by
    rw [hset]
    by_cases hdst : sleAccount = dst
    · rw [if_pos hdst, decide_eq_true hdst]
      cases bSrcHigh
      · exact ⟨hhigh.trans hdst.symm, hlow⟩
      · exact ⟨hlow.trans hdst.symm, hhigh⟩
    · have hsrc := haccount.resolve_right hdst
      rw [if_neg hdst, decide_eq_false hdst]
      cases bSrcHigh
      · exact ⟨hlow.trans hsrc.symm, hhigh⟩
      · exact ⟨hhigh.trans hsrc.symm, hlow⟩
  obtain ⟨rfl, hother⟩ := hkey
  have hline : LineSound uIndex line := by
    refine ⟨fun high => ?_, fun high hs => ?_⟩
    · rcases Bool.eq_or_eq_not high bSetHigh with rfl | rfl
      · exact hside
      · exact hpeer.trans hother.symm
    · rw [(hclear high).2] at hs
      cases hs
  have hfit : ∀ field id, l.toRoots.count field id + 1 < 4294967296 := by
    intro field id
    have := hsmall field id
    omega
  have hbal := (Balanced.of_clear hclear).trans (setReserve_balanced hrule (hclear bSetHigh) hsome hsponsor hfit)
  rw [← hnone] at hbal
  exact accounted_setLine hsound hbal (hline.setReserve _) dirs

end

end Create

end Specs

section Holdings

variable [LinearOrder Id] (a b : Id) (currency : Nat)

theorem LineKey.low_of : (LineKey.of a b currency).low = if decide (b < a) then b else a := by
  by_cases h : b < a
  · rw [if_pos (decide_eq_true h)]
    exact min_eq_right h.le
  · rw [if_neg (by simpa using h)]
    exact min_eq_left (not_lt.1 h)

theorem LineKey.high_of : (LineKey.of a b currency).high = if decide (b < a) then a else b := by
  by_cases h : b < a
  · rw [if_pos (decide_eq_true h)]
    exact max_eq_left h.le
  · rw [if_neg (by simpa using h)]
    exact max_eq_right (not_lt.1 h)

/-- The side of the first account is the high one exactly when the account is the higher one. -/
theorem LineKey.account_of : (LineKey.of a b currency).account (decide (b < a)) = a := by
  by_cases h : b < a
  · rw [decide_eq_true h]
    exact (high_of a b currency).trans (if_pos (decide_eq_true h))
  · rw [decide_eq_false h]
    exact (low_of a b currency).trans (if_neg (by simpa using h))

theorem LineKey.account_of_not : (LineKey.of a b currency).account (!decide (b < a)) = b := by
  by_cases h : b < a
  · rw [decide_eq_true h]
    exact (low_of a b currency).trans (if_pos (decide_eq_true h))
  · rw [decide_eq_false h]
    exact (high_of a b currency).trans (if_neg (by simpa using h))

variable [LinearOrder (ObjectKey Id)] {a b : Id} {currency : Nat} [Zero Amount]

section Send

variable [Neg Amount] [Sub Amount] [LinearOrder Amount]

omit [LinearOrder (ObjectKey Id)] [Neg Amount] [Sub Amount] in
/-- A reserve ends only where there is one. -/
theorem senderReserveEnds_eq_true {sender : LineSide Id Amount} {saBefore saBalance : Amount}
    (h : senderReserveEnds l sender a saBefore saBalance = .ok true) : sender.reserve = true := by
  unfold senderReserveEnds at h
  split at h
  · rename_i hcond
    exact hcond.2.2
  · cases h

/-- A payment over a line, which it may create or delete. -/
theorem directSendNoFeeIOU_accounted (hrule : rules.featureSponsor = true) (hsound : l.LinesSound) (hcov : l.Covered)
    (hsmall : l.Small) (hsponsor : ∀ s ∈ sponsor, (l.accounts.lookup s).isSome) {saAmount : Amount}
    (h : directSendNoFeeIOU rules l a b currency saAmount sponsor = .ok (.tesSUCCESS, l')) : Accounted l l' := by
  unfold directSendNoFeeIOU at h
  dsimp only at h
  cases hline : l.lines.lookup (of a b currency) with
  | none =>
    rw [hline] at h
    dsimp only at h
    split at h
    · cases h
    · refine trustCreate_accounted h hrule hsound hsmall (low_of a b currency) (high_of a b currency) ?_ ?_ hsponsor
      · rfl
      · exact .inr rfl
  | some line =>
    rw [hline] at h
    obtain ⟨ends, hends, h⟩ := Run.bind_eq_ok.1 h
    have hkey := account_of a b currency
    have hlow := low_of a b currency
    have hhigh := high_of a b currency
    generalize of a b currency = key at *
    generalize decide (b < a) = bSenderHigh at *
    rw [← hlow, ← hhigh] at h
    have hls := hsound key line hline
    have hcovers := hcov.covers hline
    generalize hstate : (if ends then _ else _ : Roots Id × RippleState Id Amount) = state at h
    generalize (if bSenderHigh then -line.balance else line.balance) = saBefore at h hends
    generalize (if bSenderHigh then -(saBefore - saAmount) else saBefore - saAmount) = balance at h
    -- either way the counts and the line have moved together
    have hmoved : Balanced key l.toRoots (some line) state.1 (some state.2) ∧ LineSound key state.2 ∧
        (state.2.side !bSenderHigh) = (line.side !bSenderHigh) ∧ (ends = true → (state.2.side bSenderHigh).Clear) := by
      cases ends with
      | false =>
        subst hstate
        exact ⟨.of_same fun _ => ⟨rfl, rfl⟩, hls, rfl, fun h => absurd h Bool.false_ne_true⟩
      | true =>
        subst hstate
        rw [hcovers.getLedgerEntryReserveSponsor, ← hkey]
        refine ⟨clearReserve_balanced hrule (senderReserveEnds_eq_true hends) hcovers, hls.clearReserve _,
          side_setSide_not _ _ _, fun _ => ?_⟩
        exact (side_setSide_self line bSenderHigh _).symm ▸ LineSide.clear_discharge _
    obtain ⟨hbal, hls', hother, hclear⟩ := hmoved
    have hbal' : Balanced key l.toRoots (l.lines.lookup key) state.1 (some { state.2 with balance := balance }) := by
      rw [hline]
      exact hbal.trans (Balanced.of_same fun _ => ⟨rfl, rfl⟩)
    split at h
    · rename_i hdelete
      simp only [Bool.and_eq_true, Bool.not_eq_true'] at hdelete
      refine accounted_trustDelete hsound hbal' (fun high => ?_) h
      rcases Bool.eq_or_eq_not high bSenderHigh with rfl | rfl
      · exact hclear hdelete.1.1
      · exact hother.symm ▸ hls.clear hdelete.2
    · have hl : _ = l' := congrArg Prod.snd (Except.ok.inj h)
      rw [← hl]
      exact accounted_setLine hsound hbal' ⟨hls'.issuer, hls'.sponsor⟩ l.ownerDirs

end Send

omit [LinearOrder (ObjectKey Id)] [Zero Amount] in
/-- The side is clear afterwards, and the counts have moved with it. -/
theorem clearBeforeDelete_balanced {state : Roots Id × RippleState Id Amount} (hrule : rules.featureSponsor = true)
    (hls : LineSound key line) (hcov : Covers key r line) (h : clearBeforeDelete rules r line high = some state) :
    Balanced key r (some line) state.1 (some state.2) ∧ LineSound key state.2 ∧ (state.2.side high).Clear ∧
      state.2.side (!high) = line.side (!high) := by
  unfold clearBeforeDelete at h
  dsimp only at h
  rw [hcov.getLedgerEntryReserveSponsor, hls.issuer] at h
  split at h
  · rename_i hreserve
    split at h
    · cases h
    · cases h
      refine ⟨clearReserve_balanced hrule hreserve hcov, hls.clearReserve _, ?_, side_setSide_not _ _ _⟩
      exact (side_setSide_self line high _).symm ▸ LineSide.clear_discharge _
  · rename_i hreserve
    cases h
    exact ⟨.of_same fun _ => ⟨rfl, rfl⟩, hls, hls.clear (Bool.eq_false_iff.2 hreserve), rfl⟩

/-- An empty line is discharged on both sides and deleted. -/
theorem removeEmptyHolding_accounted [DecidableEq Amount] (hrule : rules.featureSponsor = true) (hsound : l.LinesSound)
    (hcov : l.Covered) (h : removeEmptyHolding rules l a b currency = .ok (.tesSUCCESS, l')) : Accounted l l' := by
  unfold removeEmptyHolding at h
  split at h
  · -- XRP: the balance is looked at, and nothing changes
    split at h
    · cases h
    · exact .of_ok hsound h
  · dsimp only at h
    cases hline : l.lines.lookup (of a b currency) with
    | none =>
      rw [hline] at h
      exact .of_ok hsound h
    | some line =>
      rw [hline] at h
      dsimp only at h
      have hls := hsound _ line hline
      have hcovers := hcov.covers hline
      split at h
      · cases h
      · split at h
        · cases h
        · rename_i r line₁ hlow
          obtain ⟨hbal₁, hls₁, hclear₁, -⟩ := clearBeforeDelete_balanced hrule hls hcovers hlow
          split at h
          · cases h
          · rename_i state hhigh
            obtain ⟨hbal₂, hls₂, hclear₂, hother⟩ := clearBeforeDelete_balanced hrule hls₁ (hbal₁.covers hcovers) hhigh
            have hclear : ∀ high, (state.2.side high).Clear := by
              intro high
              cases high
              · exact (hother : state.2.side false = _).symm ▸ hclear₁
              · exact hclear₂
            rw [show state.2.low.limitIssuer = _ from hls₂.issuer false,
              show state.2.high.limitIssuer = _ from hls₂.issuer true] at h
            refine accounted_trustDelete hsound ?_ hclear h
            rw [hline]
            exact hbal₁.trans hbal₂

end Holdings

end Rippled.Transactor
