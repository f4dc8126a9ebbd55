import Rippled.Transactor.SponsorshipTransfer
import Rippled.Transactor.TrustSet

/-!
# Sponsored reserves are accounted for

The operations that charge the sides of trust lines, or move reserves between accounts and sponsors, keep every count
in step with the objects that it counts, for every account by itself. The counts stop at zero, so the ledger they
start from has to cover what it counts; they leave it that way.
-/

namespace Rippled.Transactor

open Lib Directory View

variable {Id Amount Rest : Type} [LinearOrder Id] [LinearOrder (ObjectKey Id)]

inductive Operation (Id Amount : Type) where
  | trustCreate (bSrcHigh : Bool) (src dst : Id) (uIndex : LineKey Id) (sleAccount : Id) (terms : LineTerms Id Amount)
      (sponsor : Option Id)
  | trustSet (fees : Fees) (tx : STTx Id) (preFeeBalance : Int) (ts : TrustSet Id Amount)
  | directSendNoFeeIOU (sender receiver : Id) (currency : Nat) (amount : Amount) (sponsor : Option Id)
  | removeEmptyHolding (account issuer : Id) (currency : Nat)
  | sponsorshipTransfer (fees : Fees) (tx : STTx Id) (preFeeBalance : Int) (st : SponsorshipTransfer Id)

namespace Operation

variable [Zero Amount] [Neg Amount] [Sub Amount] [LinearOrder Amount] (rules : Rules)

def run (op : Operation Id Amount) (l : Ledger Id Amount Rest) : Run Exception (TER × Ledger Id Amount Rest) :=
  match op with
  | .trustCreate bSrcHigh src dst uIndex sleAccount terms sponsor =>
    Transactor.trustCreate rules l bSrcHigh src dst uIndex sleAccount terms sponsor
  | .trustSet fees tx preFeeBalance ts => ts.doApply rules fees tx preFeeBalance l
  | .directSendNoFeeIOU sender receiver currency amount sponsor =>
    Transactor.directSendNoFeeIOU rules l sender receiver currency amount sponsor
  | .removeEmptyHolding account issuer currency => Transactor.removeEmptyHolding rules l account issuer currency
  | .sponsorshipTransfer fees tx preFeeBalance st => st.doApply rules fees tx preFeeBalance l

/-- What the callers have made sure of: a line is created under the key of its accounts, for the one whose limit it
sets; a sponsor has an account; and a transaction has passed its checks. -/
def Admissible [Zero Id] [One Id] (op : Operation Id Amount) (l : Ledger Id Amount Rest) : Prop :=
  match op with
  | .trustCreate bSrcHigh src dst uIndex sleAccount terms sponsor =>
    (uIndex.low = if bSrcHigh then dst else src) ∧ (uIndex.high = if bSrcHigh then src else dst) ∧
    terms.limitIssuer = sleAccount ∧ (sleAccount = src ∨ sleAccount = dst) ∧ ∀ s ∈ sponsor, (l.accounts.lookup s).isSome
  | .trustSet _ _ _ ts => ts.preflight rules = .tesSUCCESS
  | .directSendNoFeeIOU _ _ _ _ sponsor => ∀ s ∈ sponsor, (l.accounts.lookup s).isSome
  | .removeEmptyHolding _ _ _ => True
  | .sponsorshipTransfer _ tx _ st =>
    ∃ l₀ : Ledger Id Amount Rest, SponsorshipTransfer.Charged l₀ l ∧ st.preclaim tx l₀ = .tesSUCCESS

variable {rules} [Zero Id] [One Id] {op : Operation Id Amount} {l l' : Ledger Id Amount Rest}

theorem run_accounted (hrule : rules.featureSponsor = true) (hop : op.Admissible rules l) (hsound : l.LinesSound)
    (hcov : l.Covered) (hsmall : l.Small) (h : op.run rules l = .ok (.tesSUCCESS, l')) : Accounted l l' := by
  cases op with
  | trustCreate bSrcHigh src dst uIndex sleAccount terms sponsor =>
    obtain ⟨hlow, hhigh, hissuer, haccount, hsponsor⟩ := hop
    exact trustCreate_accounted h hrule hsound hsmall hlow hhigh hissuer haccount hsponsor
  | trustSet fees tx preFeeBalance ts => exact TrustSet.doApply_accounted hrule hsound hcov hsmall hop h
  | directSendNoFeeIOU sender receiver currency amount sponsor =>
    exact directSendNoFeeIOU_accounted hrule hsound hcov hsmall hop h
  | removeEmptyHolding account issuer currency => exact removeEmptyHolding_accounted hrule hsound hcov h
  | sponsorshipTransfer fees tx preFeeBalance st =>
    obtain ⟨l₀, hcharged, hpreclaim⟩ := hop
    exact SponsorshipTransfer.doApply_accounted hsound hcharged hpreclaim h

end Operation

omit [LinearOrder (ObjectKey Id)] in
theorem LockStep.covered {l l' : Ledger Id Amount Rest} (h : LockStep l l') (hcov : l.Covered) : l'.Covered := by
  intro field id
  have := h field id
  have := hcov field id
  omega

section Results

variable [Zero Amount] [Neg Amount] [Sub Amount] [LinearOrder Amount] [Zero Id] [One Id] {rules : Rules}
  {l l' : Ledger Id Amount Rest}

/-- Successful operations, one after the other. -/
inductive Operations (rules : Rules) (l : Ledger Id Amount Rest) : Ledger Id Amount Rest → Prop where
  | nil : Operations rules l l
  | snoc {l₁ l₂ : Ledger Id Amount Rest} (op : Operation Id Amount) : Operations rules l l₁ → op.Admissible rules l₁ →
      l₁.Small → op.run rules l₁ = .ok (.tesSUCCESS, l₂) → Operations rules l l₂

/-- After every sequence of successful operations the counts are in step with what they are held against. -/
theorem Operations.in_step (hrule : rules.featureSponsor = true) (hsound : l.LinesSound) (hcov : l.Covered)
    (h : Operations rules l l') : LockStep l l' ∧ l'.LinesSound ∧ l'.Covered := by
  induction h with
  | nil => exact ⟨fun _ _ => rfl, hsound, hcov⟩
  | snoc op _ hop hsmall hrun ih =>
    obtain ⟨hstep, hsound₁, hcov₁⟩ := ih
    have hacc := Operation.run_accounted hrule hop hsound₁ hcov₁ hsmall hrun
    exact ⟨fun field id => (hacc.lockStep field id).trans (hstep field id), hacc.sound, hacc.lockStep.covered hcov₁⟩

end Results

/-! ## A line that a sponsor pays for -/

/-- Account 2 will trust account 3; account 4 has the drops for it. -/
def threeAccounts : Ledger Nat Int Unit where
  accounts := (∅ : HashMap Nat (AccountRoot Nat)).insert 2 (plainRoot 5 100) |>.insert 3 (plainRoot 6 100)
    |>.insert 4 (plainRoot 7 100)
  sponsorships := ∅
  tickets := ∅
  proposals := ∅
  lines := ∅
  objects := ∅
  ownerDirs := fun _ _ => none
  rest := ()

def sponsoredLine : Operation Nat Int :=
  .trustSet ⟨20, 5⟩
    { account := 2, sequence := 5, ticketSequence := none, fee := 12, delegate := none, sponsor := some 4,
      spfSponsorFee := false, spfSponsorReserve := true, sponsorSignature := true, transactionID := 0, payload := [] }
    100 { limitAmount := 50, currency := 7, issuer := 3 }

theorem threeAccounts_covered : threeAccounts.Covered := by
  intro field id
  have hnone : threeAccounts.counted field id = 0 := by
    cases field <;> rfl
  rw [hnone]
  exact Nat.zero_le _

theorem threeAccounts_small : threeAccounts.Small := by
  intro field id
  unfold Roots.count threeAccounts
  rw [HashMap.lookup_insert_eq, HashMap.lookup_insert_eq, HashMap.lookup_insert_eq, AList.lookup_empty]
  split_ifs <;> cases field <;> decide

/-- Account 2 gives the line up again. -/
def lineGivenUp : Operation Nat Int :=
  .trustSet ⟨20, 5⟩
    { account := 2, sequence := 6, ticketSequence := none, fee := 12, delegate := none, sponsor := none,
      spfSponsorFee := false, spfSponsorReserve := false, sponsorSignature := false, transactionID := 1, payload := [] }
    88 { limitAmount := 0, currency := 7, issuer := 3, tfSetNoRipple := true }

theorem small_of_entries {l : Ledger Nat Int Unit}
    (h : ∀ e ∈ l.accounts.entries, ∀ field ∈ [CountField.ownerCount, .sponsoredOwnerCount, .sponsoringOwnerCount,
      .sponsoringAccountCount], (field.get e.2).toNat < 2147483648) : l.Small := by
  intro field id
  unfold Roots.count
  cases hroot : l.accounts.lookup id with
  | none => exact Nat.zero_lt_succ _
  | some sle => exact h ⟨id, sle⟩ (AList.mem_lookup_iff.1 hroot) field (by cases field <;> simp)

/-- The line is created and goes again. -/
theorem in_step_lineGivenUp : ∃ l₁ l₂ : Ledger Nat Int Unit,
    sponsoredLine.run ⟨true, true, true, true, true, true⟩ threeAccounts = .ok (.tesSUCCESS, l₁) ∧
      lineGivenUp.run ⟨true, true, true, true, true, true⟩ l₁ = .ok (.tesSUCCESS, l₂) ∧
      l₁.counted .sponsoringOwnerCount 4 = 1 ∧ l₂.counted .sponsoringOwnerCount 4 = 0 ∧ LockStep threeAccounts l₂ := by
  obtain ⟨⟨ter₁, l₁⟩, hrun₁, hl₁⟩ := Except.exists_ok_of_any
    (x := sponsoredLine.run ⟨true, true, true, true, true, true⟩ threeAccounts)
    (p := fun r => decide (r.1 = .tesSUCCESS ∧ r.2.counted .sponsoringOwnerCount 4 = 1 ∧
      (∀ e ∈ r.2.accounts.entries, ∀ field ∈ [CountField.ownerCount, .sponsoredOwnerCount, .sponsoringOwnerCount,
        .sponsoringAccountCount], (field.get e.2).toNat < 2147483648) ∧
      (lineGivenUp.run ⟨true, true, true, true, true, true⟩ r.2).toOption.any
        (fun r => decide (r.1 = .tesSUCCESS ∧ r.2.counted .sponsoringOwnerCount 4 = 0)) = true)) (by decide +kernel)
  obtain ⟨rfl, hone, hsmall, hnext⟩ := of_decide_eq_true hl₁
  obtain ⟨⟨ter₂, l₂⟩, hrun₂, hl₂⟩ := Except.exists_ok_of_any hnext
  obtain ⟨rfl, hzero⟩ := of_decide_eq_true hl₂
  have hfirst : Operations ⟨true, true, true, true, true, true⟩ threeAccounts l₁ :=
    .snoc sponsoredLine .nil (rfl : TrustSet.preflight _ _ = _) threeAccounts_small hrun₁
  have hboth : Operations ⟨true, true, true, true, true, true⟩ threeAccounts l₂ :=
    .snoc lineGivenUp hfirst (rfl : TrustSet.preflight _ _ = _) (small_of_entries hsmall) hrun₂
  exact ⟨l₁, l₂, hrun₁, hrun₂, hone, hzero, (Operations.in_step rfl (fun _ _ h => by cases h)
    threeAccounts_covered hboth).1⟩

end Rippled.Transactor
