import Rippled.Transactor.TrustLines

/-!
# The transaction `SponsorshipTransfer`

The reserve of an object, or of an account itself, passes from its owner to a sponsor, from one sponsor to another, or
back. What `preclaim` finds out about the present sponsor is what `doApply` relies on: the ledgers of the two differ
only by the fee and by the sequence number or ticket of the transaction (`Charged`). The checks of `preflight`, which
look at the transaction alone, are left out.
-/

namespace Rippled.Transactor

open Lib Directory View Option Except Holding Transactor.Ledger

variable {Id Amount Rest : Type} [DecidableEq Id]

structure SponsorshipTransfer (Id : Type) where
  tfSponsorshipCreate : Bool := false
  tfSponsorshipReassign : Bool := false
  tfSponsorshipEnd : Bool := false
  objectID : Option (ObjectKey Id) := none
  sponsee : Option Id := none
  deriving DecidableEq

/-! ## Counts that are checked -/

def incrementSponsorCount (r : Roots Id) (id : Id) (field : CountField) (delta : Nat) : Except TER (Roots Id) :=
  if 4294967295 - r.count field id < delta then .error (.tec .tecINTERNAL)
  else .ok (r.modify id fun sle => field.set (field.get sle + UInt32.ofNat delta) sle)

def decrementSponsorCount (r : Roots Id) (id : Id) (field : CountField) (delta : Nat) : Except TER (Roots Id) :=
  if r.count field id < delta then .error (.tec .tecINTERNAL)
  else .ok (r.modify id fun sle => field.set (field.get sle - UInt32.ofNat delta) sle)

/-- What a sponsor has set aside for the sponsee is used up, where it has. -/
def decrementPrefundedReserveCount (r : Roots Id) (sponsor sponsee : Id) (delta : Nat) : Except TER (Roots Id) :=
  match r.sponsorships.lookup (sponsor, sponsee) with
  | none => .ok r
  | some sle =>
    if delta = 0 then .ok r
    else if sle.remainingOwnerCount.toNat < delta then .error (.rejected .tefINTERNAL)
    else
      let sle := { sle with remainingOwnerCount := sle.remainingOwnerCount - UInt32.ofNat delta }
      .ok { r with sponsorships := r.sponsorships.insert (sponsor, sponsee) sle }

def peekAccount (r : Roots Id) (id : Id) : Except TER (AccountRoot Id) :=
  match r.accounts.lookup id with
  | none => .error (.rejected .tefINTERNAL)
  | some sle => .ok sle

def present {α : Type} (value : Option α) : Except TER α :=
  match value with
  | none => .error (.rejected .tefINTERNAL)
  | some a => .ok a

/-- Any result but success ends the transaction. -/
def ensure (ter : TER) : Except TER Unit := if isTesSuccess ter then .ok () else .error ter

namespace SponsorshipTransfer

variable (st : SponsorshipTransfer Id) (rules : Rules) (fees : Fees) (tx : STTx Id) (preFeeBalance : Int)

/-! ## Preclaim -/

/-- What is asked of the present sponsor of the target. -/
def checkTarget (newSponsor current : Option Id) (sponseeID : Id) : TER :=
  if st.tfSponsorshipCreate then if newSponsor.isNone ∨ current.isSome then .tec .tecNO_PERMISSION else .tesSUCCESS
  else if st.tfSponsorshipReassign then
    if newSponsor.isNone ∨ current.isNone then .tec .tecNO_PERMISSION
    else if current = tx.sponsor then .tec .tecNO_PERMISSION
    else .tesSUCCESS
  else if st.tfSponsorshipEnd then
    if newSponsor.isSome ∨ current.isNone then .tec .tecNO_PERMISSION
    else if current ≠ some tx.account ∧ tx.account ≠ sponseeID then .tec .tecNO_PERMISSION
    else .tesSUCCESS
  else .tesSUCCESS

variable (l : Ledger Id Amount Rest) (r : Roots Id) (sponseeID : Id) (sponseeSle : AccountRoot Id)

def preclaim : TER :=
  match getTxReserveSponsor tx l.toRoots with
  | .error ter => ter
  | .ok newSponsor =>
    let sponseeID := st.sponsee.getD tx.account
    match l.accounts.lookup sponseeID with
    | none => if st.sponsee.isSome then .rejected .terNO_ACCOUNT else .tec .tecINTERNAL
    | some sponseeSle =>
      match st.objectID with
      | none => st.checkTarget tx newSponsor sponseeSle.sponsor sponseeID
      | some objectID =>
        match l.read objectID with
        | none => .tec .tecNO_ENTRY
        | some objectSle =>
          if !isLedgerEntrySupportedBySponsorship objectSle then .tec .tecNO_PERMISSION
          else if !isLedgerEntryOwner objectSle sponseeID then .tec .tecNO_PERMISSION
          else st.checkTarget tx newSponsor (getLedgerEntrySponsor objectSle sponseeID) sponseeID

/-! ## Application -/

/-- The balance of the sponsee, with the fee where it paid it. -/
def balanceBeforeFee : Int :=
  if sponseeID = tx.account then preFeeBalance else sponseeSle.balance

/-- The reserve leaves whoever pays it now: the owner, or the old sponsor. -/
def leaveOld (owner : Id) (old : Option Id) (delta : Nat) : Except TER (Roots Id) :=
  if st.tfSponsorshipCreate then incrementSponsorCount r owner .sponsoredOwnerCount delta
  else do
    let oldSponsorID ← present old
    let _ ← peekAccount r oldSponsorID
    decrementSponsorCount r oldSponsorID .sponsoringOwnerCount delta

/-- A new sponsor takes over the reserve of an object. -/
def sponsorObject (objectID : ObjectKey Id) (objectSle : Entry Id Amount) : Except TER (Ledger Id Amount Rest) := do
  let delta := getLedgerEntryOwnerCount objectSle
  let newSponsorID ← present tx.sponsor
  let _ ← peekAccount l.toRoots newSponsorID
  ensure (checkReserve rules fees tx l.toRoots sponseeID sponseeSle.balance
    (some newSponsorID) { ownerCountDelta := delta } (.tec .tecINSUFFICIENT_RESERVE))
  let r ← st.leaveOld l.toRoots sponseeID (getLedgerEntrySponsor objectSle sponseeID) delta
  let r ← incrementSponsorCount r newSponsorID .sponsoringOwnerCount delta
  let r ← decrementPrefundedReserveCount r newSponsorID sponseeID delta
  return { l.setLedgerEntrySponsor objectID sponseeID (some newSponsorID) with toRoots := r }

/-- The owner takes the reserve of an object back. -/
def endObject (objectID : ObjectKey Id) (objectSle : Entry Id Amount) : Except TER (Ledger Id Amount Rest) := do
  let delta := getLedgerEntryOwnerCount objectSle
  let oldSponsorID ← present (getLedgerEntrySponsor objectSle sponseeID)
  let _ ← peekAccount l.toRoots oldSponsorID
  ensure (if rules.fixCleanup3_4_0 then
      checkReserve rules fees tx l.toRoots sponseeID (balanceBeforeFee tx preFeeBalance sponseeID sponseeSle) none
        { ownerCountDelta := delta } (.tec .tecINSUFFICIENT_RESERVE)
    else .tesSUCCESS)
  let r ← decrementSponsorCount l.toRoots sponseeID .sponsoredOwnerCount delta
  let r ← decrementSponsorCount r oldSponsorID .sponsoringOwnerCount delta
  return { l.setLedgerEntrySponsor objectID sponseeID none with toRoots := r }

def transferObject (objectID : ObjectKey Id) : Except TER (Ledger Id Amount Rest) := do
  let objectSle ← present (l.read objectID)
  if !isLedgerEntryOwner objectSle sponseeID then .error (.rejected .tefINTERNAL)
  else if st.tfSponsorshipCreate || st.tfSponsorshipReassign then
    st.sponsorObject rules fees tx l sponseeID sponseeSle objectID objectSle
  else if st.tfSponsorshipEnd then endObject rules fees tx preFeeBalance l sponseeID sponseeSle objectID objectSle
  else .ok l

def setSponsor (sponsor : Option Id) (sle : AccountRoot Id) : AccountRoot Id := { sle with sponsor }

/-- The old sponsor of an account no longer counts it. -/
def leaveOldSponsor : Except TER (Roots Id) :=
  if st.tfSponsorshipReassign then do
    let oldSponsorID ← present sponseeSle.sponsor
    let _ ← peekAccount r oldSponsorID
    decrementSponsorCount r oldSponsorID .sponsoringAccountCount 1
  else .ok r

/-- A new sponsor takes over the reserve of the account. -/
def sponsorAccount : Except TER (Roots Id) := do
  let newSponsorID ← present tx.sponsor
  let _ ← peekAccount r newSponsorID
  ensure (checkReserve rules fees tx r sponseeID sponseeSle.balance (some newSponsorID) { accountCountDelta := 1 }
    (.tec .tecINSUFFICIENT_RESERVE))
  let r ← st.leaveOldSponsor r sponseeSle
  let r ← incrementSponsorCount r newSponsorID .sponsoringAccountCount 1
  return r.modify sponseeID (setSponsor (some newSponsorID))

/-- The account takes its own reserve back. -/
def endAccount : Except TER (Roots Id) := do
  let oldSponsorID ← present sponseeSle.sponsor
  let _ ← peekAccount r oldSponsorID
  ensure (checkReserve rules fees tx r sponseeID (balanceBeforeFee tx preFeeBalance sponseeID sponseeSle) none
    { accountCountDelta := 1 } (.tec .tecINSUFFICIENT_RESERVE))
  decrementSponsorCount (r.modify sponseeID (setSponsor none)) oldSponsorID .sponsoringAccountCount 1

def transferAccount : Except TER (Roots Id) :=
  if st.tfSponsorshipCreate || st.tfSponsorshipReassign then st.sponsorAccount rules fees tx r sponseeID sponseeSle
  else if st.tfSponsorshipEnd then endAccount rules fees tx preFeeBalance r sponseeID sponseeSle
  else .ok r

def transfer : Except TER (Ledger Id Amount Rest) := do
  let sponseeID := st.sponsee.getD tx.account
  let sponseeSle ← peekAccount l.toRoots sponseeID
  match st.objectID with
  | some objectID => st.transferObject rules fees tx preFeeBalance l sponseeID sponseeSle objectID
  | none =>
    let r ← st.transferAccount rules fees tx preFeeBalance l.toRoots sponseeID sponseeSle
    return { l with toRoots := r }

def doApply : Run Exception (TER × Ledger Id Amount Rest) :=
  match st.transfer rules fees tx preFeeBalance l with
  | .error ter => .ok (ter, l)
  | .ok l' => .ok (.tesSUCCESS, l')

end SponsorshipTransfer

/-! ## Accounting -/

section Specs

variable {r r' : Roots Id} {id sponsor sponsee : Id} {field : CountField} {delta : Nat} {rules : Rules} {fees : Fees}
  {tx : STTx Id} {preFeeBalance : Int} {st : SponsorshipTransfer Id} {l l₀ l' : Ledger Id Amount Rest}

omit [DecidableEq Id] in
theorem CountField.get_set (field field' : CountField) (value : UInt32) (sle : AccountRoot Id) :
    field'.get (field.set value sle) = if field' = field then value else field'.get sle := by
  cases field <;> cases field' <;> rfl

def bump (field : CountField) (id : Id) (delta : Nat) (field' : CountField) (id' : Id) : Nat :=
  if field' = field ∧ id' = id then delta else 0

/-- The counts of an account after it is changed. -/
theorem Roots.count_modify (set : AccountRoot Id → AccountRoot Id) (field' : CountField) (id' : Id) :
    (r.modify id set).count field' id' =
      (r.accounts.lookup id').elim 0 fun sle => (field'.get (if id' = id then set sle else sle)).toNat := by
  unfold Roots.count
  rw [Roots.lookup_modify]
  cases r.accounts.lookup id' <;> rfl

/-- A field of an account is set, and its count shifts. -/
theorem shifted_set (value : UInt32 → UInt32) {minus plus : Nat} (hexists : (r.accounts.lookup id).isSome)
    (hvalue : ∀ sle, r.accounts.lookup id = some sle →
      (value (field.get sle)).toNat + minus = (field.get sle).toNat + plus) :
    Shifted r (r.modify id fun sle => field.set (value (field.get sle)) sle)
    (bump field id minus) (bump field id plus) := by
  have hsponsor : ∀ sle : AccountRoot Id, (field.set (value (field.get sle)) sle).sponsor = sle.sponsor := by
    intro sle
    cases field <;> rfl
  refine ⟨fun field' id' => ?_, fun id' => ?_, fun id' => Roots.sponsoredAccounts_modify hsponsor⟩
  · rw [Roots.count_modify]
    unfold Roots.count bump
    by_cases hid : id' = id
    · subst hid
      obtain ⟨sle, hsle⟩ := isSome_iff_exists.1 hexists
      rw [hsle]
      simp only [elim_some, if_true, and_true, CountField.get_set]
      by_cases hf : field' = field
      · subst hf
        simp only [if_true]
        exact hvalue sle hsle
      · simp only [if_neg hf]
    · simp only [hid, and_false, if_false]
  · rw [Roots.lookup_modify, map_map]
    refine congrArg (Option.map · _) (funext fun sle => ?_)
    change (if id' = id then _ else sle).sponsor = sle.sponsor
    split
    · exact hsponsor sle
    · rfl

variable {sle : AccountRoot Id}

theorem Roots.count_of_lookup (h : r.accounts.lookup id = some sle) : r.count field id = (field.get sle).toNat := by
  unfold Roots.count
  rw [h]
  rfl

/-- A count goes up by `delta`. -/
theorem incrementSponsorCount_shifted (hexists : (r.accounts.lookup id).isSome)
    (h : incrementSponsorCount r id field delta = .ok r') : Shifted r r' (bump field id 0) (bump field id delta) := by
  unfold incrementSponsorCount at h
  split at h
  · cases h
  · rename_i hfit
    cases h
    refine shifted_set (· + UInt32.ofNat delta) hexists fun sle hsle => ?_
    have := (field.get sle).toNat_lt
    rw [Roots.count_of_lookup hsle] at hfit
    rw [UInt32.toNat_add, UInt32.toNat_ofNat']
    omega

/-- A count goes down by `delta`. -/
theorem decrementSponsorCount_shifted (hexists : (r.accounts.lookup id).isSome)
    (h : decrementSponsorCount r id field delta = .ok r') : Shifted r r' (bump field id delta) (bump field id 0) := by
  unfold decrementSponsorCount at h
  split at h
  · cases h
  · rename_i hfit
    cases h
    refine shifted_set (· - UInt32.ofNat delta) hexists fun sle hsle => ?_
    have hlt := (field.get sle).toNat_lt
    rw [Roots.count_of_lookup hsle] at hfit
    have hle : UInt32.ofNat delta ≤ field.get sle := by
      rw [UInt32.le_iff_toNat_le, UInt32.toNat_ofNat']
      omega
    rw [UInt32.toNat_sub_of_le _ _ hle, UInt32.toNat_ofNat']
    omega

theorem decrementPrefundedReserveCount_accounts (h : decrementPrefundedReserveCount r sponsor sponsee delta = .ok r') :
    r'.accounts = r.accounts := by
  unfold decrementPrefundedReserveCount at h
  split at h
  · cases h
    rfl
  · dsimp only at h
    split_ifs at h
    all_goals
      cases h
      rfl

/-! ### Objects -/

theorem Holding.weight_none (owner : Id) (field' : CountField) (id' : Id) :
    Holding.weight ⟨owner, none, delta⟩ field' id' = bump .ownerCount owner delta field' id' := by
  cases field' <;> simp [weight, Holding.Counts, bump]

/-- What a sponsored object counts for: owner and sponsor. -/
theorem Holding.weight_some (owner s : Id) (field' : CountField) (id' : Id) :
    Holding.weight ⟨owner, some s, delta⟩ field' id' = bump .ownerCount owner delta field' id' +
      bump .sponsoredOwnerCount owner delta field' id' + bump .sponsoringOwnerCount s delta field' id' := by
  cases field' <;> simp [weight, Holding.Counts, bump, eq_comm]

variable {owner : Id}

/-- One object, or one side of a line, changes its sponsor. -/
theorem counted_of_total {old new : Option Id} {n : Nat} {field' : CountField} {id' : Id}
    (haccounts : l'.toRoots = l.toRoots)
    (h : l'.lineTotal field' id' + l'.objectTotal field' id' + Holding.weight ⟨owner, old, n⟩ field' id' =
      l.lineTotal field' id' + l.objectTotal field' id' + Holding.weight ⟨owner, new, n⟩ field' id')
    (hline : field' = .ownerCount → l'.lineTotal field' id' = l.lineTotal field' id') :
    l'.counted field' id' + Holding.weight ⟨owner, old, n⟩ field' id' =
      l.counted field' id' + Holding.weight ⟨owner, new, n⟩ field' id' := by
  cases field' with
  | ownerCount => exact congrArg (· + weight ⟨owner, old, n⟩ .ownerCount id') (hline rfl)
  | sponsoredOwnerCount => exact h
  | sponsoringOwnerCount => exact h
  | sponsoringAccountCount =>
    change l'.toRoots.sponsoredAccounts id' + 0 = l.toRoots.sponsoredAccounts id' + 0
    rw [haccounts]

variable {line : RippleState Id Amount}

theorem reservedSide_eq_some {high : Bool} (h : reservedSide line owner = some high) :
    (line.side high).reserve = true ∧ (line.side high).limitIssuer = owner := by
  unfold reservedSide at h
  split at h
  · rename_i hhigh
    cases h
    exact hhigh
  · split at h
    · rename_i hlow
      cases h
      exact hlow
    · cases h

@[simp] theorem toRoots_setLedgerEntrySponsor (l : Ledger Id Amount Rest) (key : ObjectKey Id)
    (owner : Id) (s : Option Id) : (l.setLedgerEntrySponsor key owner s).toRoots = l.toRoots := by
  cases key <;> rfl

/-- Only the weight of the charged side changes. -/
theorem weight_setSideSponsor {key : LineKey Id} {high : Bool} (hls : LineSound key line)
    (h : reservedSide line owner = some high) (s : Option Id) (field' : CountField) (id' : Id) :
    (setSideSponsor owner s line).weight key field' id' +
      Holding.weight ⟨owner, (line.side high).sponsor, 1⟩ field' id' =
      line.weight key field' id' + Holding.weight ⟨owner, s, 1⟩ field' id' := by
  obtain ⟨hreserve, rfl⟩ := reservedSide_eq_some h
  have hset := RippleState.weight_setSide key line field' id' high { line.side high with sponsor := s }
  have hnew : LineSide.weight (key.account high) { line.side high with sponsor := s } field' id' = _ :=
    LineSide.weight_of_reserve hreserve
  rw [LineSide.weight_of_reserve hreserve, hnew, ← hls.issuer high] at hset
  unfold setSideSponsor
  rw [h]
  exact hset

variable {entry : Entry Id Amount}

/-- A new sponsor takes over what the entry counts for. -/
theorem counted_setLedgerEntrySponsor {key : ObjectKey Id} (hsound : l.LinesSound) (hentry : l.read key = some entry)
    (howner : isLedgerEntryOwner entry owner = true) (s : Option Id) (field' : CountField) (id' : Id) :
    (l.setLedgerEntrySponsor key owner s).counted field' id' +
        Holding.weight ⟨owner, getLedgerEntrySponsor entry owner, getLedgerEntryOwnerCount entry⟩ field' id' =
      l.counted field' id' + Holding.weight ⟨owner, s, getLedgerEntryOwnerCount entry⟩ field' id' := by
  cases key with
  | ownerDir account =>
    simp only [Ledger.read] at hentry
    split at hentry
    · cases hentry
      cases howner
    · cases hentry
  | ticket account sequence =>
    obtain ⟨sle, -, rfl⟩ := map_eq_some_iff.1 hentry
    cases howner
  | txProposal account sequence =>
    obtain ⟨sle, hsle, rfl⟩ := map_eq_some_iff.1 hentry
    have howner : sle.owner = owner := of_decide_eq_true howner
    subst howner
    refine counted_of_total rfl ?_ fun _ => rfl
    have hsum := HashMap.sumOver_adjust (fun _ (sle : Proposal Id) =>
      weight ⟨sle.owner, sle.sponsor, proposalOwnerCount sle.proposedTransaction⟩ field' id')
      (fun sle => { sle with sponsor := s }) hsle
    dsimp only at hsum
    simp only [setLedgerEntrySponsor, lineTotal, objectTotal, getLedgerEntrySponsor,
      getLedgerEntryOwnerCount]
    omega
  | trustLine key =>
    obtain ⟨line, hline, rfl⟩ := map_eq_some_iff.1 hentry
    obtain ⟨high, hhigh⟩ := isSome_iff_exists.1 howner
    have hset := weight_setSideSponsor (hsound key line hline) hhigh s field' id'
    have hsum := HashMap.sumOver_adjust (fun key line => RippleState.weight key line field' id')
        (setSideSponsor owner s) hline
    refine counted_of_total rfl ?_ fun hf => ?_
    · simp only [setLedgerEntrySponsor, lineTotal, objectTotal, getLedgerEntrySponsor,
        getLedgerEntryOwnerCount, hhigh, bind_some]
      omega
    · have hsame : weight ⟨owner, s, 1⟩ field' id' =
          weight ⟨owner, (line.side high).sponsor, 1⟩ field' id' := by
        rw [hf]
        rfl
      simp only [setLedgerEntrySponsor, lineTotal]
      omega
  | other index =>
    obtain ⟨sle, hsle, rfl⟩ := map_eq_some_iff.1 hentry
    have howner : sle.owner = owner := by
      unfold isLedgerEntryOwner at howner
      dsimp only at howner
      split at howner
      all_goals first
        | exact of_decide_eq_true howner
        | cases howner
    subst howner
    refine counted_of_total rfl ?_ fun _ => rfl
    have hsum := HashMap.sumOver_adjust (fun _ (sle : Object Id) =>
      weight ⟨sle.owner, sle.sponsor, sle.ownerCount⟩ field' id') (fun sle => { sle with sponsor := s }) hsle
    dsimp only at hsum
    have hnew : weight ⟨Object.owner { sle with sponsor := s }, s,
        Object.ownerCount { sle with sponsor := s }⟩ field' id' =
        weight ⟨sle.owner, s, sle.ownerCount⟩ field' id' := rfl
    simp only [setLedgerEntrySponsor, lineTotal, objectTotal, getLedgerEntrySponsor,
      getLedgerEntryOwnerCount]
    omega

theorem LineSound.setSideSponsor {key : LineKey Id} (h : LineSound key line) (owner : Id) (s : Option Id) :
    LineSound key (setSideSponsor owner s line) := by
  unfold Transactor.setSideSponsor
  split
  · exact h
  · rename_i high hhigh
    exact h.setSide rfl fun _ => (reservedSide_eq_some hhigh).1

theorem lookup_lines_setLedgerEntrySponsor (l : Ledger Id Amount Rest) (key : ObjectKey Id) (owner : Id) (s : Option Id)
    (key' : LineKey Id) : (l.setLedgerEntrySponsor key owner s).lines.lookup key' =
      (l.lines.lookup key').map fun line => if .trustLine key' = key then setSideSponsor owner s line else line := by
  cases key with
  | trustLine key =>
    simp only [ObjectKey.trustLine.injEq]
    exact HashMap.lookup_adjust ..
  | _ => exact map_id'.symm

/-- A sponsor is set on a charged side only. -/
theorem linesSound_setLedgerEntrySponsor (hsound : l.LinesSound) (key : ObjectKey Id) (owner : Id) (s : Option Id) :
    (l.setLedgerEntrySponsor key owner s).LinesSound := by
  intro key' line hline
  rw [lookup_lines_setLedgerEntrySponsor] at hline
  obtain ⟨line₀, hline₀, rfl⟩ := map_eq_some_iff.1 hline
  split
  · exact (hsound key' line₀ hline₀).setSideSponsor owner s
  · exact hsound key' line₀ hline₀

omit [DecidableEq Id] in
theorem present_eq_ok {α : Type} {value : Option α} {a : α} (h : present value = .ok a) : value = some a := by
  cases value with
  | none => cases h
  | some b =>
    cases h
    rfl

theorem peekAccount_eq_ok (h : peekAccount r id = .ok sle) : r.accounts.lookup id = some sle := by
  unfold peekAccount at h
  split at h
  · cases h
  · cases h
    assumption

theorem isSome_of_peekAccount (h : peekAccount r id = .ok sle) : (r.accounts.lookup id).isSome := by
  rw [peekAccount_eq_ok h]
  rfl

@[simp] theorem bump_zero (field field' : CountField) (id id' : Id) : bump field id 0 field' id' = 0 := ite_self 0

/-- The reserve leaves the owner, or the old sponsor: what is missing is that the new one counts it. -/
theorem SponsorshipTransfer.leaveOld_eq_ok {old : Option Id} (howner : (r.accounts.lookup owner).isSome)
    (hcreate : st.tfSponsorshipCreate = true → old = none) (h : st.leaveOld r owner old delta = .ok r') :
    ∃ minus plus, Shifted r r' minus plus ∧ ∀ s field' id',
      plus field' id' + bump .sponsoringOwnerCount s delta field' id' + Holding.weight ⟨owner, old, delta⟩ field' id' =
        minus field' id' + Holding.weight ⟨owner, some s, delta⟩ field' id' := by
  unfold leaveOld at h
  split at h
  · rename_i hflag
    refine ⟨_, _, incrementSponsorCount_shifted howner h, fun s field' id' => ?_⟩
    rw [hcreate hflag, weight_none, weight_some, bump_zero]
    omega
  · obtain ⟨oldSponsorID, hold, h⟩ := bind_eq_ok.1 h
    obtain ⟨sle, hsle, h⟩ := bind_eq_ok.1 h
    refine ⟨_, _, decrementSponsorCount_shifted (isSome_of_peekAccount hsle) h, fun s field' id' => ?_⟩
    rw [present_eq_ok hold, weight_some, weight_some, bump_zero]
    omega

/-- The counts follow an object from one sponsor, or none, to another, or none. -/
structure Moves (r r' : Roots Id) (owner : Id) (old new : Option Id) (n : Nat) : Prop where
  counts : ∀ field id, r'.count field id + Holding.weight ⟨owner, old, n⟩ field id =
    r.count field id + Holding.weight ⟨owner, new, n⟩ field id
  sponsors : ∀ id, r'.sponsoredAccounts id = r.sponsoredAccounts id

namespace SponsorshipTransfer

variable {sponseeID : Id} {sponseeSle : AccountRoot Id} {objectID : ObjectKey Id} {objectSle : Entry Id Amount}

/-- An object gets a sponsor, and the counts move with it. -/
theorem sponsorObject_eq_ok (hsponsee : (l.accounts.lookup sponseeID).isSome)
    (hcreate : st.tfSponsorshipCreate = true → getLedgerEntrySponsor objectSle sponseeID = none)
    (h : st.sponsorObject rules fees tx l sponseeID sponseeSle objectID objectSle = .ok l') :
    ∃ s r', l' = { l.setLedgerEntrySponsor objectID sponseeID s with toRoots := r' } ∧
      Moves l.toRoots r' sponseeID (getLedgerEntrySponsor objectSle sponseeID) s
        (getLedgerEntryOwnerCount objectSle) := by
  obtain ⟨newSponsorID, -, h⟩ := bind_eq_ok.1 h
  obtain ⟨newSponsorSle, hnew, h⟩ := bind_eq_ok.1 h
  obtain ⟨-, -, h⟩ := bind_eq_ok.1 h
  obtain ⟨r₁, hleave, h⟩ := bind_eq_ok.1 h
  obtain ⟨r₂, hincr, h⟩ := bind_eq_ok.1 h
  obtain ⟨r₃, hpre, h⟩ := bind_eq_ok.1 h
  cases h
  have haccounts := decrementPrefundedReserveCount_accounts hpre
  obtain ⟨minus, plus, hshift, hweight⟩ := leaveOld_eq_ok hsponsee hcreate hleave
  have hadd := incrementSponsorCount_shifted (by rw [hshift.present]; exact isSome_of_peekAccount hnew) hincr
  refine ⟨some newSponsorID, r₃, rfl, fun field id => ?_, fun id => ?_⟩
  · have hcount : r₃.count field id = r₂.count field id := by
      unfold Roots.count
      rw [haccounts]
    have h₁ := hshift.counts field id
    have h₂ := hadd.counts field id
    have h₃ := hweight newSponsorID field id
    rw [bump_zero] at h₂
    omega
  · have hsame : r₃.sponsoredAccounts id = r₂.sponsoredAccounts id := by
      unfold Roots.sponsoredAccounts
      rw [haccounts]
    rw [hsame, hadd.sponsors, hshift.sponsors]

/-- An object loses its sponsor, and the counts move with it. -/
theorem endObject_eq_ok (hsponsee : (l.accounts.lookup sponseeID).isSome)
    (h : endObject rules fees tx preFeeBalance l sponseeID sponseeSle objectID objectSle = .ok l') :
    ∃ s r', l' = { l.setLedgerEntrySponsor objectID sponseeID s with toRoots := r' } ∧
      Moves l.toRoots r' sponseeID (getLedgerEntrySponsor objectSle sponseeID) s
        (getLedgerEntryOwnerCount objectSle) := by
  obtain ⟨oldSponsorID, hold, h⟩ := bind_eq_ok.1 h
  obtain ⟨oldSponsorSle, hsle, h⟩ := bind_eq_ok.1 h
  obtain ⟨-, -, h⟩ := bind_eq_ok.1 h
  obtain ⟨r₁, hfirst, h⟩ := bind_eq_ok.1 h
  obtain ⟨r₂, hsecond, h⟩ := bind_eq_ok.1 h
  cases h
  have hshift := decrementSponsorCount_shifted hsponsee hfirst
  have hadd := decrementSponsorCount_shifted (by rw [hshift.present]; exact isSome_of_peekAccount hsle) hsecond
  refine ⟨none, r₂, rfl, fun field id => ?_, fun id => (hadd.sponsors id).trans (hshift.sponsors id)⟩
  have h₁ := hshift.counts field id
  have h₂ := hadd.counts field id
  rw [present_eq_ok hold, weight_none, weight_some]
  simp only [bump_zero] at h₁ h₂
  omega

/-! ### Accounts -/

/-- How many accounts name a sponsor, after one changes its own. -/
theorem sponsoredAccounts_setSponsor (hsle : r.accounts.lookup id = some sle) (s : Option Id) (x : Id) :
    (r.modify id (setSponsor s)).sponsoredAccounts x + (if sle.sponsor = some x then 1 else 0) =
      r.sponsoredAccounts x + if s = some x then 1 else 0 := by
  have hins := HashMap.sumOver_insert (fun _ (sle : AccountRoot Id) => if sle.sponsor = some x then 1 else 0)
      r.accounts id
    (setSponsor s sle)
  unfold Roots.modify
  rw [hsle] at hins ⊢
  exact hins

theorem count_setSponsor (s : Option Id) (field : CountField) (x : Id) :
    (r.modify id (setSponsor s)).count field x = r.count field x := by
  rw [Roots.count_modify]
  unfold Roots.count
  refine congrArg (Option.elim _ 0) (funext fun sle => ?_)
  split
  · cases field <;> rfl
  · rfl

/-- Counts and the accounts that name a sponsor move together. -/
def Follows (r r' : Roots Id) : Prop :=
  ∀ field x, r'.count field x + (if field = .sponsoringAccountCount then r.sponsoredAccounts x else 0) =
    r.count field x + if field = .sponsoringAccountCount then r'.sponsoredAccounts x else 0

/-- What an account with the given sponsor accounts for. -/
def named (s : Option Id) (field : CountField) (x : Id) : Nat :=
  if field = .sponsoringAccountCount ∧ s = some x then 1 else 0

theorem bump_one_eq_named (s : Id) : bump .sponsoringAccountCount s 1 = named (some s) := by
  funext field x
  have hiff : some s = some x ↔ x = s := by rw [some.injEq, eq_comm]
  simp only [bump, named, hiff]

theorem bump_zero_eq_named (field : CountField) (s : Id) : bump field s 0 = named none := by
  funext field' x
  simp [named]

theorem follows_of_named {old new : Option Id}
    (hcount : ∀ field x, r'.count field x + named old field x = r.count field x + named new field x)
    (hset : ∀ x, r'.sponsoredAccounts x + (if old = some x then 1 else 0) = r.sponsoredAccounts x +
      if new = some x then 1 else 0) :
    Follows r r' := by
  intro field x
  have hcount := hcount field x
  by_cases hfield : field = .sponsoringAccountCount
  · subst hfield
    have hset := hset x
    simp only [named, true_and] at hcount
    simp only [if_true]
    omega
  · simp only [named, hfield, false_and, if_false] at hcount ⊢
    exact hcount

/-- The counts shift first, and then the account names its new sponsor. -/
theorem follows_of_shifted {s : Option Id} (hsponsee : r.accounts.lookup sponseeID = some sponseeSle)
    (h : Shifted r r' (named sponseeSle.sponsor) (named s)) : Follows r (r'.modify sponseeID (setSponsor s)) := by
  have hsponsor := h.sponsor sponseeID
  rw [hsponsee] at hsponsor
  obtain ⟨sle', hsle', hsame⟩ := map_eq_some_iff.1 hsponsor
  have hsame : sle'.sponsor = sponseeSle.sponsor := hsame
  refine follows_of_named (fun field x => (count_setSponsor s field x).symm ▸ h.counts field x) fun x => ?_
  rw [← hsame, ← h.sponsors]
  exact sponsoredAccounts_setSponsor hsle' s x

/-- The old sponsor is relieved of the account. -/
theorem leaveOldSponsor_eq_ok (hcreate : st.tfSponsorshipReassign = false → sponseeSle.sponsor = none)
    (h : st.leaveOldSponsor r sponseeSle = .ok r') : Shifted r r' (named sponseeSle.sponsor) (named none) := by
  unfold leaveOldSponsor at h
  split at h
  · obtain ⟨oldSponsorID, hold, h⟩ := bind_eq_ok.1 h
    obtain ⟨sle, hsle, h⟩ := bind_eq_ok.1 h
    have hshift := decrementSponsorCount_shifted (isSome_of_peekAccount hsle) h
    rwa [bump_one_eq_named, bump_zero_eq_named, ← present_eq_ok hold] at hshift
  · rename_i hflag
    cases h
    rw [hcreate (Bool.eq_false_iff.2 hflag)]
    exact ⟨fun _ _ => rfl, fun _ => rfl, fun _ => rfl⟩

/-- An account gets a sponsor. -/
theorem sponsorAccount_follows (hsponsee : r.accounts.lookup sponseeID = some sponseeSle)
    (hcreate : st.tfSponsorshipReassign = false → sponseeSle.sponsor = none)
    (h : st.sponsorAccount rules fees tx r sponseeID sponseeSle = .ok r') : Follows r r' := by
  obtain ⟨newSponsorID, -, h⟩ := bind_eq_ok.1 h
  obtain ⟨newSponsorSle, hnew, h⟩ := bind_eq_ok.1 h
  obtain ⟨-, -, h⟩ := bind_eq_ok.1 h
  obtain ⟨r₁, hleave, h⟩ := bind_eq_ok.1 h
  obtain ⟨r₂, hincr, h⟩ := bind_eq_ok.1 h
  cases h
  have hleft := leaveOldSponsor_eq_ok hcreate hleave
  have hexists : (r₁.accounts.lookup newSponsorID).isSome := by
    rw [hleft.present]
    exact isSome_of_peekAccount hnew
  have hjoined := incrementSponsorCount_shifted hexists hincr
  rw [bump_one_eq_named, bump_zero_eq_named] at hjoined
  exact follows_of_shifted hsponsee (hleft.trans hjoined)

/-- An account loses its sponsor. -/
theorem endAccount_follows (hsponsee : r.accounts.lookup sponseeID = some sponseeSle)
    (h : endAccount rules fees tx preFeeBalance r sponseeID sponseeSle = .ok r') : Follows r r' := by
  obtain ⟨oldSponsorID, hold, h⟩ := bind_eq_ok.1 h
  obtain ⟨oldSponsorSle, hsle, h⟩ := bind_eq_ok.1 h
  obtain ⟨-, -, h⟩ := bind_eq_ok.1 h
  have hexists : ((r.modify sponseeID (setSponsor none)).accounts.lookup oldSponsorID).isSome := by
    rw [isSome_lookup_modify]
    exact isSome_of_peekAccount hsle
  have hleft := decrementSponsorCount_shifted hexists h
  rw [bump_one_eq_named, bump_zero_eq_named, ← present_eq_ok hold] at hleft
  refine follows_of_named (fun field x => count_setSponsor none field x ▸ hleft.counts field x) fun x => ?_
  rw [hleft.sponsors]
  exact sponsoredAccounts_setSponsor hsponsee none x

/-! ### The transaction -/

/-- What the fee and the sequence number or the ticket change between the checks and the application of a transaction:
counts, balances and sequence numbers of accounts, and entries that go. -/
structure Charged (l₀ l : Ledger Id Amount Rest) : Prop where
  sponsor : ∀ id sle, l.accounts.lookup id = some sle → ∃ sle₀, l₀.accounts.lookup id = some sle₀ ∧
    sle₀.sponsor = sle.sponsor
  entry : ∀ key entry, l.read key = some entry → l₀.read key = some entry

/-- What is to get a first sponsor has none. -/
theorem preclaim_create (hcreate : st.tfSponsorshipCreate = true) (h : st.preclaim tx l₀ = .tesSUCCESS) :
    match st.objectID with
    | none => ∀ sle, l₀.accounts.lookup (st.sponsee.getD tx.account) = some sle → sle.sponsor = none
    | some objectID => ∀ entry, l₀.read objectID = some entry →
        getLedgerEntrySponsor entry (st.sponsee.getD tx.account) = none := by
  have htarget : ∀ newSponsor current, st.checkTarget tx newSponsor current (st.sponsee.getD tx.account) = .tesSUCCESS →
      current = none := by
    intro newSponsor current h
    unfold checkTarget at h
    rw [if_pos hcreate] at h
    split at h
    · cases h
    · rename_i hnot
      exact not_isSome_iff_eq_none.1 fun hs => hnot (.inr hs)
  unfold preclaim at h
  split at h
  · rename_i ter hter
    rw [getTxReserveSponsor_eq_error hter] at h
    cases h
  · rename_i newSponsor hnew
    dsimp only at h
    split at h
    · split at h <;> cases h
    · rename_i sponseeSle hsponsee
      cases hobject : st.objectID with
      | none =>
        rw [hobject] at h
        intro sle hsle
        rw [hsponsee] at hsle
        cases hsle
        exact htarget _ _ h
      | some objectID =>
        rw [hobject] at h
        intro entry hentry
        dsimp only at h
        rw [hentry] at h
        dsimp only at h
        split_ifs at h
        exact htarget _ _ h

theorem counted_with_roots (r' : Roots Id) {field : CountField} (hfield : field ≠ .sponsoringAccountCount) (x : Id) :
    ({ l with toRoots := r' } : Ledger Id Amount Rest).counted field x = l.counted field x := by
  cases field with
  | sponsoringAccountCount => exact absurd rfl hfield
  | ownerCount => rfl
  | sponsoredOwnerCount => rfl
  | sponsoringOwnerCount => rfl

variable [LinearOrder (ObjectKey Id)]

/-- An object with a new sponsor, where the counts moved. -/
theorem accounted_of_moves {key : ObjectKey Id} {s : Option Id} (hsound : l.LinesSound)
    (hentry : l.read key = some entry) (howner : isLedgerEntryOwner entry owner = true)
    (h : Moves l.toRoots r' owner (getLedgerEntrySponsor entry owner) s (getLedgerEntryOwnerCount entry)) :
    Accounted l { l.setLedgerEntrySponsor key owner s with toRoots := r' } := by
  refine ⟨fun field id => ?_, linesSound_setLedgerEntrySponsor hsound key owner s, fun key' hsome hnone => ?_⟩
  · have htotal := counted_setLedgerEntrySponsor hsound hentry howner s field id
    have hcount := h.counts field id
    have hsame : ({ l.setLedgerEntrySponsor key owner s with toRoots := r' } : Ledger Id Amount Rest).counted field id =
        (l.setLedgerEntrySponsor key owner s).counted field id := by
      by_cases hfield : field = .sponsoringAccountCount
      · subst hfield
        refine (h.sponsors id).trans ?_
        change _ = (l.setLedgerEntrySponsor key owner s).toRoots.sponsoredAccounts id
        rw [toRoots_setLedgerEntrySponsor]
      · exact counted_with_roots r' hfield id
    rw [hsame]
    dsimp only
    omega
  · have hlines := lookup_lines_setLedgerEntrySponsor l key owner s key'
    rw [show (l.setLedgerEntrySponsor key owner s).lines.lookup key' = none from hnone,
      eq_comm, map_eq_none_iff] at hlines
    rw [hlines] at hsome
    cases hsome

/-- An account with a new sponsor, where the counts moved. -/
theorem accounted_of_follows (hsound : l.LinesSound) (h : Follows l.toRoots r') :
    Accounted l { l with toRoots := r' } := by
  refine ⟨fun field id => ?_, hsound, fun key hsome hnone => ?_⟩
  · have hcount := h field id
    by_cases hfield : field = .sponsoringAccountCount
    · subst hfield
      simp only [if_true] at hcount
      simp only [counted]
      omega
    · simp only [if_neg hfield] at hcount
      rw [counted_with_roots r' hfield]
      exact congrArg (fun n : Nat => (n : Int) - l.counted field id) hcount
  · rw [show l.lines.lookup key = none from hnone] at hsome
    cases hsome

section
variable (hsound : l.LinesSound) (hcharged : Charged l₀ l) (hpreclaim : st.preclaim tx l₀ = .tesSUCCESS)
include hsound hcharged hpreclaim

/-- A transfer keeps counts and sponsors in step. -/
theorem transfer_accounted (h : st.transfer rules fees tx preFeeBalance l = .ok l') : Accounted l l' := by
  unfold transfer at h
  dsimp only at h
  have hcreate := fun hflag => preclaim_create hflag hpreclaim
  generalize st.sponsee.getD tx.account = sponseeID at h hcreate
  obtain ⟨sponseeSle, hsponsee, h⟩ := bind_eq_ok.1 h
  have hsponsee := peekAccount_eq_ok hsponsee
  cases hobject : st.objectID with
  | none =>
    rw [hobject] at h hcreate
    obtain ⟨r', htransfer, h⟩ := bind_eq_ok.1 h
    cases h
    refine accounted_of_follows hsound ?_
    unfold transferAccount at htransfer
    split at htransfer
    · rename_i hflags
      refine sponsorAccount_follows hsponsee (fun hflag => ?_) htransfer
      rw [hflag, Bool.or_false] at hflags
      obtain ⟨sle₀, hsle₀, hsame⟩ := hcharged.sponsor _ _ hsponsee
      rw [← hsame]
      exact hcreate hflags sle₀ hsle₀
    · split at htransfer
      · exact endAccount_follows hsponsee htransfer
      · cases htransfer
        exact fun _ _ => rfl
  | some objectID =>
    rw [hobject] at h hcreate
    obtain ⟨objectSle, hentry, h⟩ := bind_eq_ok.1 h
    have hentry := present_eq_ok hentry
    have hexists : (l.accounts.lookup sponseeID).isSome := by
      rw [hsponsee]
      rfl
    split at h
    · cases h
    · rename_i howner
      have howner : isLedgerEntryOwner objectSle sponseeID = true := by simpa using howner
      split at h
      · obtain ⟨s, r', rfl, hmoves⟩ := sponsorObject_eq_ok hexists
          (fun hflag => hcreate hflag objectSle (hcharged.entry _ _ hentry)) h
        exact accounted_of_moves hsound hentry howner hmoves
      · split at h
        · obtain ⟨s, r', rfl, hmoves⟩ := endObject_eq_ok hexists h
          exact accounted_of_moves hsound hentry howner hmoves
        · cases h
          exact .of_unchanged hsound

theorem doApply_accounted (h : st.doApply rules fees tx preFeeBalance l = .ok (.tesSUCCESS, l')) : Accounted l l' := by
  unfold doApply at h
  split at h
  · have hl : l = l' := congrArg Prod.snd (ok.inj h)
    exact hl ▸ .of_unchanged hsound
  · rename_i l'' htransfer
    cases h
    exact transfer_accounted hsound hcharged hpreclaim htransfer

end

end SponsorshipTransfer

end Specs

end Rippled.Transactor
