import Rippled.Amendments.VoteCount
/-!
# The amendment transaction

`Change::applyAmendment` on the ledger entry with the amendments, and how `doVoting` reads that entry. What a
transaction does is said once, in `applyAmendment_cases`; what a round asks for, in `doVoting_cases`.
-/

namespace Rippled.Amendments

open Lib List

variable {PublicKey Amendment : Type} [DecidableEq Amendment]

/-! ## Ledger entries -/

/-- An element of `sfMajorities`. -/
structure Majority (Amendment : Type) where
  amendment : Amendment
  closeTime : TimePoint
  deriving DecidableEq

structure AmendmentsEntry (Amendment : Type) where
  amendments : List Amendment := []
  majorities : Option (List (Majority Amendment)) := none
  deriving DecidableEq

/-- The fields of the fee settings that the activation of smart escrows sets. -/
structure FeeSettingsEntry where
  gasLimit : Option UInt32 := none
  bytecodeSizeLimit : Option UInt32 := none
  gasPrice : Option UInt32 := none

structure View (Amendment : Type) where
  amendments : Option (AmendmentsEntry Amendment)
  feeSettings : Option FeeSettingsEntry

namespace View

def enabled (v : View Amendment) : List Amendment := (v.amendments.map (·.amendments)).getD []

def majorities (v : View Amendment) : List (Majority Amendment) := (v.amendments.bind (·.majorities)).getD []

def getMajorityAmendments (v : View Amendment) : HashMap Amendment TimePoint :=
  v.majorities.foldl (fun ret m => ret.insert m.amendment m.closeTime) ∅

end View

/-! ## The transaction -/

structure AmendmentTx (Amendment : Type) where
  amendment : Amendment
  flags : UInt32

def AmendmentTx.isFlag (tx : AmendmentTx Amendment) (f : UInt32) : Bool := tx.flags &&& f == f

inductive TER where
  | tefALREADY
  | temINVALID_FLAG
  deriving DecidableEq

/-- What a transaction can change: the ledger, and the state of the server that applies it. -/
structure ApplyContext (PublicKey Amendment : Type) where
  view : View Amendment
  table : AmendmentTable PublicKey Amendment
  amendmentBlocked : Bool

def AmendmentTable.isSupported (table : AmendmentTable PublicKey Amendment) (amendment : Amendment) : Bool :=
  (table.amendmentMap.lookup amendment).any (·.supported)

def kDefaultGasLimit : UInt32 := 1000000
def kDefaultBytecodeSizeLimit : UInt32 := 100000
def kDefaultGasPrice : UInt32 := 1000000

def initializeVMFees (v : View Amendment) : View Amendment :=
  { v with feeSettings := some ⟨some kDefaultGasLimit, some kDefaultBytecodeSizeLimit, some kDefaultGasPrice⟩ }

/-- The loop over `oldMajorities`: the others, and whether the amendment was found. -/
def passMajorities (gotMajority : Bool) (amendment : Amendment) :
    List (Majority Amendment) → List (Majority Amendment) × Bool → Except TER (List (Majority Amendment) × Bool)
  | [], acc => .ok acc
  | majority :: rest, (newMajorities, found) =>
    if majority.amendment = amendment then
      if gotMajority then .error .tefALREADY else passMajorities gotMajority amendment rest (newMajorities, true)
    else passMajorities gotMajority amendment rest (newMajorities ++ [majority], found)

/-- What the activation of an amendment does beside the ledger entry. -/
def activate (featureSmartEscrow amendment : Amendment) (ctx : ApplyContext PublicKey Amendment) :
    ApplyContext PublicKey Amendment :=
  let table := (ctx.table.enable amendment).2
  { view := if amendment = featureSmartEscrow then initializeVMFees ctx.view else ctx.view
    table
    amendmentBlocked := ctx.amendmentBlocked || !table.isSupported amendment }

/-- `applyAmendment` in a ledger with this `parentCloseTime`. -/
def applyAmendment (featureSmartEscrow : Amendment) (parentCloseTime : TimePoint) (tx : AmendmentTx Amendment)
    (ctx : ApplyContext PublicKey Amendment) : Except TER (ApplyContext PublicKey Amendment) :=
  let entry := ctx.view.amendments.getD {}
  let gotMajority := tx.isFlag tfGotMajority
  let lostMajority := tx.isFlag tfLostMajority
  if tx.amendment ∈ entry.amendments then .error .tefALREADY
  else if gotMajority && lostMajority then .error .temINVALID_FLAG
  else
    match passMajorities gotMajority tx.amendment (entry.majorities.getD []) ([], false) with
    | .error e => .error e
    | .ok (newMajorities, found) =>
      if !found && lostMajority then .error .tefALREADY
      else
        let newMajorities := if gotMajority then newMajorities ++ [⟨tx.amendment, parentCloseTime⟩] else newMajorities
        let enables := !gotMajority && !lostMajority
        let amendments := if enables then entry.amendments ++ [tx.amendment] else entry.amendments
        let majorities := if newMajorities.isEmpty then none else some newMajorities
        let ctx := { ctx with view := { ctx.view with amendments := some ⟨amendments, majorities⟩ } }
        .ok (if enables then activate featureSmartEscrow tx.amendment ctx else ctx)

/-! ## What a transaction does -/

theorem passMajorities_ok {gotMajority : Bool} {amendment : Amendment}
    {old new new' : List (Majority Amendment)} {found found' : Bool}
    (h : passMajorities gotMajority amendment old (new, found) = .ok (new', found')) :
    new' = new ++ old.filter (·.amendment ≠ amendment) ∧ (gotMajority = true → ∀ m ∈ old, m.amendment ≠ amendment) := by
  induction old generalizing new found with
  | nil =>
    cases h
    exact ⟨(append_nil _).symm, fun _ m hm => absurd hm not_mem_nil⟩
  | cons majority rest ih =>
    rw [passMajorities] at h
    by_cases heq : majority.amendment = amendment
    · rw [if_pos heq] at h
      cases gotMajority with
      | true => cases h
      | false =>
        obtain ⟨hnew, -⟩ := ih h
        refine ⟨?_, fun hgot => absurd hgot Bool.false_ne_true⟩
        rw [hnew, filter_cons_of_neg (by simpa using heq)]
    · rw [if_neg heq] at h
      obtain ⟨hnew, hgot⟩ := ih h
      refine ⟨?_, fun hg m hm => ?_⟩
      · rw [hnew, filter_cons_of_pos (by simpa using heq), append_assoc, singleton_append]
      · rcases mem_cons.1 hm with rfl | hm
        · exact heq
        · exact hgot hg m hm

def others (v : View Amendment) (amendment : Amendment) : List (Majority Amendment) :=
  v.majorities.filter (·.amendment ≠ amendment)

/-- What a transaction that is applied does to the ledger `v`: the amendment has a majority from now on, lost it, or is
enabled. -/
inductive Applied (parentCloseTime : TimePoint) (tx : AmendmentTx Amendment) (v v' : View Amendment) : Prop where
  | got (hflag : tx.isFlag tfGotMajority = true) (hnone : ∀ m ∈ v.majorities, m.amendment ≠ tx.amendment)
      (henabled : v'.enabled = v.enabled) (hmajorities : v'.majorities = v.majorities ++
        [⟨tx.amendment, parentCloseTime⟩])
  | lost (hflag : tx.isFlag tfLostMajority = true) (henabled : v'.enabled = v.enabled)
      (hmajorities : v'.majorities = others v tx.amendment)
  | enabled (hgot : tx.isFlag tfGotMajority = false) (hlost : tx.isFlag tfLostMajority = false)
      (henabled : v'.enabled = v.enabled ++ [tx.amendment]) (hmajorities : v'.majorities = others v tx.amendment)

omit [DecidableEq Amendment] in
theorem getD_present (l : List (Majority Amendment)) : (if l.isEmpty then none else some l).getD [] = l := by
  cases l <;> rfl

theorem activate_amendments (featureSmartEscrow amendment : Amendment) (ctx : ApplyContext PublicKey Amendment) :
    (activate featureSmartEscrow amendment ctx).view.amendments = ctx.view.amendments := by
  unfold activate
  dsimp only
  split <;> rfl

variable {parentCloseTime : TimePoint} {tx : AmendmentTx Amendment}

theorem applyAmendment_cases {featureSmartEscrow : Amendment} {ctx ctx' : ApplyContext PublicKey Amendment}
    (h : applyAmendment featureSmartEscrow parentCloseTime tx ctx = .ok ctx') :
    tx.amendment ∉ ctx.view.enabled ∧ Applied parentCloseTime tx ctx.view ctx'.view := by
  have henabled : (ctx.view.amendments.getD {}).amendments = ctx.view.enabled := by
    unfold View.enabled
    cases ctx.view.amendments <;> rfl
  have hmajorities : ((ctx.view.amendments.getD {}).majorities.getD []) = ctx.view.majorities := by
    unfold View.majorities
    cases ctx.view.amendments <;> rfl
  unfold applyAmendment at h
  dsimp only at h
  rw [henabled, hmajorities] at h
  by_cases hmem : tx.amendment ∈ ctx.view.enabled
  · rw [if_pos hmem] at h
    cases h
  rw [if_neg hmem] at h
  refine ⟨hmem, ?_⟩
  by_cases hboth : (tx.isFlag tfGotMajority && tx.isFlag tfLostMajority) = true
  · rw [if_pos hboth] at h
    cases h
  rw [if_neg hboth] at h
  cases hpass : passMajorities (tx.isFlag tfGotMajority) tx.amendment ctx.view.majorities ([], false) with
  | error e =>
    rw [hpass] at h
    cases h
  | ok r =>
    obtain ⟨new, found⟩ := r
    obtain ⟨hnew, hgot⟩ := passMajorities_ok hpass
    rw [nil_append] at hnew
    rw [hpass] at h
    dsimp only at h
    by_cases hnot : (!found && tx.isFlag tfLostMajority) = true
    · rw [if_pos hnot] at h
      cases h
    rw [if_neg hnot] at h
    cases h
    cases hg : tx.isFlag tfGotMajority with
    | true =>
      have hnone := hgot hg
      refine .got hg hnone ?_ ?_
      · simp [View.enabled]
      · have hall : new = ctx.view.majorities := by
          rw [hnew, filter_eq_self]
          simpa using hnone
        simp [View.majorities, hall]
    | false =>
      cases hl : tx.isFlag tfLostMajority with
      | true =>
        refine .lost hl ?_ ?_
        · simp [View.enabled]
        · simp only [View.majorities, Bool.not_false, Bool.not_true, Bool.and_false,
            Bool.false_eq_true, if_false, Option.bind_some]
          rw [getD_present, hnew]
          rfl
      | false =>
        refine .enabled hg hl ?_ ?_
        · simp [View.enabled, activate_amendments]
        · simp only [View.majorities, Bool.not_false, Bool.and_true, Bool.false_eq_true, if_true, if_false,
          activate_amendments, Option.bind_some]
          rw [getD_present, hnew]
          rfl

/-! ## What a round asks for -/

namespace View

theorem lookup_foldl_insert (l : List (Majority Amendment))
    (ret : HashMap Amendment TimePoint) (amendment : Amendment) : ((∀ m ∈ l, m.amendment ≠ amendment) ∧
      (l.foldl (fun ret m => ret.insert m.amendment m.closeTime) ret).lookup amendment = ret.lookup amendment) ∨
    ∃ m ∈ l, m.amendment = amendment ∧
      (l.foldl (fun ret m => ret.insert m.amendment m.closeTime) ret).lookup amendment = some m.closeTime := by
  induction l generalizing ret with
  | nil => exact .inl ⟨fun m hm => absurd hm not_mem_nil, rfl⟩
  | cons majority rest ih =>
    rcases ih (ret.insert majority.amendment majority.closeTime) with ⟨hnone, hsame⟩ | ⟨m, hm, heq, hsome⟩
    · by_cases heq : majority.amendment = amendment
      · refine .inr ⟨majority, mem_cons_self, heq, ?_⟩
        rw [foldl_cons, hsame, ← heq, AList.lookup_insert]
      · refine .inl ⟨fun m hm => ?_, ?_⟩
        · rcases mem_cons.1 hm with rfl | hm
          · exact heq
          · exact hnone m hm
        · rw [foldl_cons, hsame, AList.lookup_insert_ne (Ne.symm heq)]
    · exact .inr ⟨m, mem_cons_of_mem _ hm, heq, hsome⟩

theorem getMajorityAmendments_cases (v : View Amendment) (amendment : Amendment) :
    ((∀ m ∈ v.majorities, m.amendment ≠ amendment) ∧ v.getMajorityAmendments.lookup amendment = none) ∨
    ∃ closeTime, ⟨amendment, closeTime⟩ ∈ v.majorities ∧ v.getMajorityAmendments.lookup amendment = some closeTime := by
  rcases lookup_foldl_insert v.majorities ∅ amendment with hnone | ⟨m, hm, rfl, hsome⟩
  · exact .inl hnone
  · exact .inr ⟨m.closeTime, hm, hsome⟩

end View

/-- Some server's round over the ledger `v`, whose parent closed at `parentCloseTime`, returns the transaction. -/
def Proposed (PublicKey : Type) [DecidableEq PublicKey] (majorityTime : Int)
    (parentCloseTime : TimePoint) (v : View Amendment) (tx : AmendmentTx Amendment) : Prop :=
  ∃ (table : AmendmentTable PublicKey Amendment) (valSet : List (STValidation PublicKey Amendment)),
    table.majorityTime = majorityTime ∧
    (table.doVoting parentCloseTime v.enabled v.getMajorityAmendments valSet).1.lookup tx.amendment = some tx.flags

inductive Asks (majorityTime : Int) (parentCloseTime : TimePoint) (v : View Amendment)
    (tx : AmendmentTx Amendment) : Prop where
  | got (hflags : tx.flags = tfGotMajority) (hnone : ∀ m ∈ v.majorities, m.amendment ≠ tx.amendment)
  | lost (hflags : tx.flags = tfLostMajority) {closeTime : TimePoint} (hmem : ⟨tx.amendment, closeTime⟩ ∈ v.majorities)
  | enable (hflags : tx.flags = 0) {closeTime : TimePoint} (hmem : ⟨tx.amendment, closeTime⟩ ∈ v.majorities)
      (hheld : closeTime.toNat + majorityTime ≤ parentCloseTime.toNat)

theorem Proposed.cases [DecidableEq PublicKey] {majorityTime : Int} {v : View Amendment}
    (h : Proposed PublicKey majorityTime parentCloseTime v tx) :
    Asks majorityTime parentCloseTime v tx := by
  obtain ⟨table, valSet, rfl, hlookup⟩ := h
  obtain hempty | ⟨state, -, haction⟩ := AmendmentTable.action_of_lookup hlookup
  · rw [AList.lookup_empty] at hempty
    cases hempty
  dsimp only at haction
  unfold AmendmentTable.action at haction
  rcases v.getMajorityAmendments_cases tx.amendment with ⟨hnone, hlook⟩ | ⟨closeTime, hmem, hlook⟩
  · rw [hlook] at haction
    split_ifs at haction with hgot hlost
    · exact .got (Option.some.inj haction).symm hnone
    · exact absurd hlost.2 (by simp)
  · rw [hlook, if_neg fun hgot => Option.some_ne_none _ hgot.2.1] at haction
    split_ifs at haction with hlost
    · exact .lost (Option.some.inj haction).symm hmem
    · dsimp only at haction
      split_ifs at haction with hheld
      exact .enable (Option.some.inj haction).symm hmem hheld.1

end Rippled.Amendments
