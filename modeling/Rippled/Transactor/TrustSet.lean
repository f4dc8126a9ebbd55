import Rippled.Transactor.TrustLines

/-!
# The transaction `TrustSet`

An account sets its side of a trust line: the limit, the qualities and the flags. Both sides are then looked at again:
a side that differs from the default is charged to its account, one that does not is discharged, and a line with both
sides at the default is deleted. The checks of `preclaim`, which change nothing, are left out.
-/

namespace Rippled.Transactor

open Lib Directory View RippleState

/-- The fields of the transaction. The limit is XRP when the currency is zero. -/
structure TrustSet (Id Amount : Type) where
  limitAmount : Amount
  currency : Nat
  issuer : Id
  isLegalNet : Bool := true
  qualityIn : Option UInt32 := none
  qualityOut : Option UInt32 := none
  tfSetfAuth : Bool := false
  tfSetNoRipple : Bool := false
  tfClearNoRipple : Bool := false
  tfSetFreeze : Bool := false
  tfClearFreeze : Bool := false
  tfSetDeepFreeze : Bool := false
  tfClearDeepFreeze : Bool := false
  deriving DecidableEq

/-- The currency code `XRP`. -/
def badCurrency : Nat := 0x5852500000000000

def QUALITY_ONE : UInt32 := 1000000000

/-- A quality of one counts as none. -/
def atPar (quality : UInt32) : UInt32 := if quality = QUALITY_ONE then 0 else quality

namespace TrustSet

variable {Id Amount Rest : Type} [LinearOrder Id] [Zero Amount] [LinearOrder Amount] (ts : TrustSet Id Amount)

/-- The accounts zero and one stand for XRP and for no account. -/
def preflight [Zero Id] [One Id] (rules : Rules) : TER :=
  if !rules.featureDeepFreeze ∧ (ts.tfSetDeepFreeze ∨ ts.tfClearDeepFreeze) then .rejected .temINVALID_FLAG
  else if !ts.isLegalNet then .rejected .temBAD_AMOUNT
  else if ts.currency = 0 then .rejected .temBAD_LIMIT
  else if ts.currency = badCurrency then .rejected .temBAD_CURRENCY
  else if ts.limitAmount < 0 then .rejected .temBAD_LIMIT
  else if ts.issuer = 0 ∨ ts.issuer = 1 then .rejected .temDST_NEEDED
  else .tesSUCCESS

/-! ## The side of the account -/

def computeFreezeFlags (bNoFreeze : Bool) (side : LineSide Id Amount) : LineSide Id Amount :=
  { side with
    freeze :=
      if ts.tfSetFreeze ∧ !ts.tfClearFreeze ∧ !bNoFreeze then true
      else if ts.tfClearFreeze ∧ !ts.tfSetFreeze then false
      else side.freeze
    deepFreeze :=
      if ts.tfSetDeepFreeze ∧ !ts.tfClearDeepFreeze ∧ !bNoFreeze then true
      else if ts.tfClearDeepFreeze ∧ !ts.tfSetDeepFreeze then false
      else side.deepFreeze }

/-- The side with the terms of the transaction; `none` where it would forbid rippling on a debt. -/
def setTerms (account : Id) (bNoFreeze : Bool) (balance : Amount) (side : LineSide Id Amount) :
    Option (LineSide Id Amount) :=
  let terms : LineSide Id Amount :=
    { side with
      limit := ts.limitAmount, limitIssuer := account, qualityIn := ts.qualityIn.getD side.qualityIn,
      qualityOut := (ts.qualityOut.map atPar).getD side.qualityOut, auth := ts.tfSetfAuth || side.auth }
  if ts.tfSetNoRipple ∧ !ts.tfClearNoRipple then
    if 0 ≤ balance then some (ts.computeFreezeFlags bNoFreeze { terms with noRipple := true }) else none
  else if ts.tfClearNoRipple ∧ !ts.tfSetNoRipple then some
    (ts.computeFreezeFlags bNoFreeze { terms with noRipple := false })
  else some (ts.computeFreezeFlags bNoFreeze terms)

/-- Whether a side differs from the default. -/
def reserveSet (side : LineSide Id Amount) (defRipple : Bool) (balance : Amount) : Bool :=
  decide (atPar side.qualityIn ≠ 0) || decide (atPar side.qualityOut ≠ 0) ||
    ((!side.noRipple) != defRipple) || side.freeze ||
    decide (side.limit ≠ 0) || decide (0 < balance)

/-! ## Application -/

section Apply

variable [Neg Amount] (rules : Rules) (fees : Fees) (tx : STTx Id) (preFeeBalance : Int)

/-- One side is charged to its account, or discharged. A sponsor that cannot pay stops the transaction. -/
def adjustReserve (high reserveSet : Bool) (account : Id) (sponsor currentSponsor : Option Id)
    (state : Roots Id × RippleState Id Amount) : Except TER (Roots Id × RippleState Id Amount) :=
  let reserved := (state.2.side high).reserve
  if reserveSet && !reserved then
    let ret := checkReserve rules fees tx state.1 account preFeeBalance sponsor { ownerCountDelta := 1 }
      (.tec .tecINSUF_RESERVE_LINE)
    if rules.featureSponsor ∧ sponsor.isSome ∧ !isTesSuccess ret then .error ret
    else .ok (setReserve rules state.1 state.2 high account sponsor)
  else if !reserveSet && reserved then .ok (clearReserve rules state.1 state.2 high account currentSponsor)
  else .ok state

/-- Both sides, the low one first. The sponsors that the line names are looked up before anything changes. -/
def settleReserves (r : Roots Id) (line : RippleState Id Amount) (reserveSet : Bool → Bool) (account : Bool → Id)
    (getSponsor : Bool → Option Id) : Except TER (Roots Id × RippleState Id Amount) := do
  let adjust := fun high => adjustReserve rules fees tx preFeeBalance high (reserveSet high)
      (account high) (getSponsor high)
    (getLedgerEntryReserveSponsor r (line.side high).sponsor)
  let state ← adjust false (r, line)
  adjust true state

/-- An account without a sponsor is not asked for a reserve for its first two lines. -/
def freeTrustLine (sle : AccountRoot Id) (sponsorSle : Option Id) : Bool :=
  sponsorSle.isNone && decide (ownerCount sle 0 < 2)

def reserveCreate (sle : AccountRoot Id) : Nat :=
  if ownerCount sle 0 < 2 then 0 else accountReserve rules fees sle { ownerCountDelta := 1 }

variable [LinearOrder (ObjectKey Id)] (l : Ledger Id Amount Rest) (sle sleDst : AccountRoot Id) (sponsorSle : Option Id)

def changeLine (line : RippleState Id Amount) : Run Exception (TER × Ledger Id Amount Rest) :=
  let index := LineKey.of tx.account ts.issuer ts.currency
  let bHigh := decide (ts.issuer < tx.account)
  let balance := fun high => if high then -line.balance else line.balance
  let account := fun high => if high = bHigh then tx.account else ts.issuer
  let defRipple := fun high => if high = bHigh then sle.defaultRipple else sleDst.defaultRipple
  let getSponsor := fun high => if account high = tx.account then sponsorSle else none
  match ts.setTerms tx.account sle.noFreeze (balance bHigh) (line.side bHigh) with
  | none => .ok (.tec .tecNO_PERMISSION, l)
  | some side =>
    let line := line.setSide bHigh side
    let reserveSet := fun high => reserveSet (line.side high) (defRipple high) (balance high)
    match settleReserves rules fees tx preFeeBalance l.toRoots line reserveSet account getSponsor with
    | .error ret => .ok (ret, l)
    | .ok state =>
      let l := l.setLine index state
      let bReserveIncrease := reserveSet bHigh && !(line.side bHigh).reserve
      let bDefault := !reserveSet false && !reserveSet true
      if bDefault ∨ ts.currency = badCurrency then trustDelete l index (account false) (account true)
      else if rules.featureSponsor then
        let ret := checkReserve rules fees tx l.toRoots tx.account preFeeBalance sponsorSle {}
            (.tec .tecINSUF_RESERVE_LINE)
        .ok (if !freeTrustLine sle sponsorSle && bReserveIncrease && !isTesSuccess ret then ret else .tesSUCCESS, l)
      else
        .ok (if bReserveIncrease ∧ preFeeBalance < reserveCreate rules fees sle then .tec .tecINSUF_RESERVE_LINE
          else .tesSUCCESS, l)

def createLine : Run Exception (TER × Ledger Id Amount Rest) :=
  let uQualityIn := ts.qualityIn.getD 0
  let uQualityOut := (ts.qualityOut.map atPar).getD 0
  if ts.limitAmount = 0 ∧ uQualityIn = 0 ∧ uQualityOut = 0 ∧ !ts.tfSetfAuth then .ok (.tec .tecNO_LINE_REDUNDANT, l)
  else if !rules.featureSponsor ∧ preFeeBalance < reserveCreate rules fees sle then .ok
    (.tec .tecNO_LINE_INSUF_RESERVE, l)
  else
    let ret := checkReserve rules fees tx l.toRoots tx.account preFeeBalance sponsorSle { ownerCountDelta := 1 }
      (.tec .tecNO_LINE_INSUF_RESERVE)
    if rules.featureSponsor ∧ !freeTrustLine sle sponsorSle ∧ !isTesSuccess ret then .ok (ret, l)
    else
      let terms : LineTerms Id Amount :=
        { bAuth := ts.tfSetfAuth, bNoRipple := ts.tfSetNoRipple && !ts.tfClearNoRipple,
          bFreeze := ts.tfSetFreeze && !ts.tfClearFreeze, bDeepFreeze := ts.tfSetDeepFreeze, saBalance := 0,
          saLimit := ts.limitAmount, limitIssuer := tx.account, uQualityIn, uQualityOut }
      trustCreate rules l (decide (ts.issuer < tx.account)) tx.account ts.issuer
        (LineKey.of tx.account ts.issuer ts.currency)
        tx.account terms sponsorSle

def doApply : Run Exception (TER × Ledger Id Amount Rest) :=
  match l.accounts.lookup tx.account with
  | none => .ok (.rejected .tefINTERNAL, l)
  | some sle =>
    match getTxReserveSponsor tx l.toRoots with
    | .error ter => .ok (ter, l)
    | .ok sponsorSle =>
      match l.accounts.lookup ts.issuer with
      | none => .ok (.tec .tecNO_DST, l)
      | some sleDst =>
        match l.lines.lookup (LineKey.of tx.account ts.issuer ts.currency) with
        | some line => ts.changeLine rules fees tx preFeeBalance l sle sleDst sponsorSle line
        | none => ts.createLine rules fees tx preFeeBalance l sle sponsorSle

end Apply

/-! ## Accounting -/

section Specs

variable {ts} {rules : Rules} {fees : Fees} {tx : STTx Id} {preFeeBalance : Int}

theorem currency_ne_badCurrency [Zero Id] [One Id] (h : ts.preflight rules = .tesSUCCESS) :
    ts.currency ≠ badCurrency := by
  intro heq
  unfold preflight at h
  rw [if_pos heq] at h
  split_ifs at h

omit [LinearOrder Id] in
theorem setTerms_eq_some {account : Id} {bNoFreeze : Bool} {balance : Amount} {side side' : LineSide Id Amount}
    (h : ts.setTerms account bNoFreeze balance side = some side') :
    side'.reserve = side.reserve ∧ side'.sponsor = side.sponsor ∧ side'.limitIssuer = account := by
  unfold setTerms at h
  dsimp only at h
  split_ifs at h
  all_goals
    cases h
    exact ⟨rfl, rfl, rfl⟩

variable {state : Roots Id × RippleState Id Amount}

section
variable (hrule : rules.featureSponsor = true)
include hrule

omit [Zero Amount] [LinearOrder Amount] in
/-- The counts follow the side, which is charged in the end exactly when it is to be. -/
theorem adjustReserve_balanced {key : LineKey Id} {high reserveSet : Bool} {sponsor : Option Id}
    {state' : Roots Id × RippleState Id Amount} (hls : LineSound key state.2)
    (hcov : Covers key state.1 state.2) (haccount : (state.1.accounts.lookup (key.account high)).isSome)
    (hsponsor : ∀ s ∈ sponsor, (state.1.accounts.lookup s).isSome)
    (hfit : ∀ field id, state.1.count field id + 1 < 4294967296)
    (h : adjustReserve rules fees tx preFeeBalance high reserveSet (key.account high) sponsor
      (state.2.side high).sponsor state = .ok state') :
    Balanced key state.1 (some state.2) state'.1 (some state'.2) ∧ LineSound key state'.2 ∧
      (state'.2.side high).reserve = reserveSet ∧ state'.2.side (!high) = state.2.side (!high) := by
  unfold adjustReserve at h
  dsimp only at h
  cases hreserve : (state.2.side high).reserve with
  | false =>
    cases reserveSet with
    | false =>
      rw [hreserve] at h
      cases h
      exact ⟨.of_same fun _ => ⟨rfl, rfl⟩, hls, hreserve, rfl⟩
    | true =>
      rw [hreserve, if_pos (by rfl)] at h
      split at h
      · cases h
      · cases h
        refine ⟨setReserve_balanced hrule (hls.clear hreserve) haccount hsponsor hfit, hls.setReserve _, ?_,
          side_setSide_not _ _ _⟩
        exact congrArg LineSide.reserve (side_setSide_self state.2 high _)
  | true =>
    cases reserveSet with
    | false =>
      rw [hreserve] at h
      cases h
      refine ⟨clearReserve_balanced hrule hreserve hcov, hls.clearReserve _, ?_, side_setSide_not _ _ _⟩
      exact congrArg LineSide.reserve (side_setSide_self state.2 high _)
    | true =>
      rw [hreserve] at h
      cases h
      exact ⟨.of_same fun _ => ⟨rfl, rfl⟩, hls, hreserve, rfl⟩

omit [Zero Amount] [LinearOrder Amount] in
theorem settleReserves_balanced {key : LineKey Id} {r : Roots Id}
    {line : RippleState Id Amount} {reserveSet : Bool → Bool}
    {account : Bool → Id} {getSponsor : Bool → Option Id} (hls : LineSound key line)
    (hcov : Covers key r line) (haccount : ∀ high, account high = key.account high)
    (hexists : ∀ high, (r.accounts.lookup (account high)).isSome)
    (hsponsor : ∀ high, ∀ s ∈ getSponsor high, (r.accounts.lookup s).isSome)
    (hfit : ∀ field id, r.count field id + 3 < 4294967296)
    (h : settleReserves rules fees tx preFeeBalance r line reserveSet account getSponsor = .ok state) :
    Balanced key r (some line) state.1 (some state.2) ∧ LineSound key state.2 ∧
      ∀ high, (state.2.side high).reserve = reserveSet high := by
  unfold settleReserves at h
  have hexists' : ∀ high, (r.accounts.lookup (key.account high)).isSome := fun high => haccount high ▸ hexists high
  simp only [haccount, hcov.getLedgerEntryReserveSponsor] at h
  cases hlow : adjustReserve rules fees tx preFeeBalance false (reserveSet false) (key.account false) (getSponsor false)
      (line.side false).sponsor (r, line) with
  | error ret =>
    rw [hlow] at h
    cases h
  | ok state₁ =>
    rw [hlow] at h
    have hfit₀ : ∀ field id, r.count field id + 1 < 4294967296 := by
      intro field id
      have := hfit field id
      omega
    obtain ⟨hbal₁, hls₁, hlow₁, hother₁⟩ := adjustReserve_balanced hrule hls hcov
        (hexists' false) (hsponsor false) hfit₀ hlow
    have hother₁ : state₁.2.side true = line.side true := hother₁
    have hfit₁ : ∀ field id, state₁.1.count field id + 1 < 4294967296 := by
      intro field id
      have hcounts : _ = r.count field id + state₁.2.weight key field id := hbal₁.counts field id
      have := weight_le_two key state₁.2 field id
      have := hfit field id
      omega
    have h : adjustReserve rules fees tx preFeeBalance true (reserveSet true) (key.account true) (getSponsor true)
        (state₁.2.side true).sponsor state₁ = .ok state := by
      rw [hother₁]
      exact h
    obtain ⟨hbal₂, hls₂, hhigh₂, hother₂⟩ := adjustReserve_balanced hrule hls₁ (hbal₁.covers hcov)
      (by rw [hbal₁.present]; exact hexists' true) (fun s hs => by rw [hbal₁.present]; exact hsponsor true s hs) hfit₁ h
    refine ⟨hbal₁.trans hbal₂, hls₂, fun high => ?_⟩
    cases high
    · rw [← hlow₁]
      exact congrArg LineSide.reserve hother₂
    · exact hhigh₂

variable [Neg Amount] [LinearOrder (ObjectKey Id)] {l l' : Ledger Id Amount Rest} {sle sleDst : AccountRoot Id}
  {sponsorSle : Option Id} {line : RippleState Id Amount}

theorem changeLine_accounted (hsound : l.LinesSound) (hcov : l.Covered)
    (hsmall : l.Small) (hcurrency : ts.currency ≠ badCurrency)
    (hline : l.lines.lookup (LineKey.of tx.account ts.issuer ts.currency) = some line)
    (hsle : l.accounts.lookup tx.account = some sle) (hdst : l.accounts.lookup ts.issuer = some sleDst)
    (hsponsor : ∀ s ∈ sponsorSle, (l.accounts.lookup s).isSome)
    (h : ts.changeLine rules fees tx preFeeBalance l sle sleDst sponsorSle line = .ok (.tesSUCCESS, l')) :
    Accounted l l' := by
  unfold changeLine at h
  extract_lets key bHigh balance account defRipple getSponsor at h
  have hkey : key.account bHigh = tx.account := LineKey.account_of _ _ _
  have hkey' : key.account (!bHigh) = ts.issuer := LineKey.account_of_not _ _ _
  have hline : l.lines.lookup key = some line := hline
  have haccount : ∀ high, account high = key.account high := by
    intro high
    rcases Bool.eq_or_eq_not high bHigh with rfl | rfl
    · exact (if_pos rfl).trans hkey.symm
    · exact (if_neg (by simp)).trans hkey'.symm
  split at h
  · cases h
  · rename_i side hside
    extract_lets line₁ sets bReserveIncrease bDefault at h
    obtain ⟨hreserve, hsame, hissuer⟩ := setTerms_eq_some hside
    have hls := hsound key line hline
    -- the terms change neither the charge nor the sponsor of the side
    have hls₁ : LineSound key line₁ := by
      refine hls.setSide ?_ ?_
      · rw [hissuer, hls.issuer, hkey]
      · rw [hsame, hreserve]
        exact hls.sponsor bHigh
    have hbal₁ : Balanced key l.toRoots (some line) l.toRoots (some line₁) := by
      refine .of_same fun high => ?_
      rw [side_setSide]
      split
      · rename_i heq
        rw [heq]
        exact ⟨hreserve, hsame⟩
      · exact ⟨rfl, rfl⟩
    have hexists : ∀ high, (l.accounts.lookup (account high)).isSome := by
      intro high
      by_cases hh : high = bHigh
      · rw [show account high = tx.account from if_pos hh, hsle]
        rfl
      · rw [show account high = ts.issuer from if_neg hh, hdst]
        rfl
    have hsponsors : ∀ high, ∀ s ∈ getSponsor high, (l.accounts.lookup s).isSome := by
      intro high s hs
      by_cases hh : account high = tx.account
      · exact hsponsor s ((if_pos hh : getSponsor high = _) ▸ hs)
      · rw [show getSponsor high = none from if_neg hh] at hs
        cases hs
    have hfit : ∀ field id, l.toRoots.count field id + 3 < 4294967296 := by
      intro field id
      have := hsmall field id
      omega
    split at h
    · exact .of_ok hsound h
    · rename_i state hstate
      obtain ⟨hbal, hls', hreserved⟩ := settleReserves_balanced hrule hls₁
          (hbal₁.covers (hcov.covers hline)) haccount hexists
        hsponsors hfit hstate
      have hbal' : Balanced key l.toRoots (l.lines.lookup key) state.1 (some state.2) := by
        rw [hline]
        exact hbal₁.trans hbal
      extract_lets l₁ at h
      split at h
      · rename_i hdelete
        have hdefault := hdelete.resolve_right hcurrency
        rw [Bool.and_eq_true, Bool.not_eq_true', Bool.not_eq_true'] at hdefault
        rw [haccount, haccount] at h
        refine accounted_trustDelete hsound hbal' (fun high => hls'.clear ?_) h
        rw [hreserved]
        cases high
        · exact hdefault.1
        · exact hdefault.2
      · have hl : l₁ = l' := by
          split at h
          · exact congrArg Prod.snd (Except.ok.inj h)
          · exact congrArg Prod.snd (Except.ok.inj h)
        rw [← hl]
        exact accounted_setLine hsound hbal' hls' l.ownerDirs

theorem doApply_accounted [Zero Id] [One Id] (hsound : l.LinesSound) (hcov : l.Covered)
    (hsmall : l.Small) (hpreflight : ts.preflight rules = .tesSUCCESS)
    (h : ts.doApply rules fees tx preFeeBalance l = .ok (.tesSUCCESS, l')) : Accounted l l' := by
  unfold doApply at h
  split at h
  · cases h
  · rename_i sle hsle
    split at h
    · exact .of_ok hsound h
    · rename_i sponsorSle hsponsor
      have hsponsor := getTxReserveSponsor_eq_ok hsponsor
      split at h
      · cases h
      · rename_i sleDst hdst
        split at h
        · rename_i line hline
          exact changeLine_accounted hrule hsound hcov hsmall
            (currency_ne_badCurrency hpreflight) hline hsle hdst hsponsor h
        · unfold createLine at h
          dsimp only at h
          split at h
          · cases h
          · split at h
            · cases h
            · split at h
              · exact .of_ok hsound h
              · refine trustCreate_accounted h hrule hsound hsmall (LineKey.low_of _ _ _)
                  (LineKey.high_of _ _ _) ?_ ?_ hsponsor
                · rfl
                · exact .inl rfl

end

end Specs

end TrustSet

end Rippled.Transactor
