import Mathlib.Algebra.Order.BigOperators.Group.List
import Rippled.Transactor.Transactor

/-!
# What a failed transaction costs

A transaction that is applied with a result that claims a fee has its changes discarded. `operator_tec` shows that, with
the exception of the four results that keep some deletions, the ledger that it leaves is then the one that `reset` makes
of the ledger before, whatever path was taken. `Cost` says entry by entry what such a ledger may differ in.
-/

namespace Rippled.Transactor

open Lib Directory View List Function Option

section Rel
variable {α : Type} {R S : α → α → Prop} {f : α → α} {o o' : Option α}

theorem rel_map (o : Option α) (h : ∀ a, o = some a → R a (f a)) : Option.Rel R o (o.map f) := by
  cases o with
  | none => exact .none
  | some a => exact .some (h a rfl)

theorem rel_map_right (h : Option.Rel R o o') (hS : ∀ a b, R a b → S a (f b)) : Option.Rel S o (o'.map f) := by
  cases h with
  | none => exact .none
  | some hR => exact .some (hS _ _ hR)

theorem rel_of_map_left (h : Option.Rel R (o.map f) o') : Option.Rel (fun a b => R (f a) b) o o' := by
  cases o with
  | none =>
    cases h
    exact .none
  | some a =>
    cases h with
    | some hR => exact .some hR

end Rel

variable {Id Amount Rest : Type} [DecidableEq Id] [LinearOrder (ObjectKey Id)]
variable {ctx : Context Id Amount Rest} {base view l l' : Ledger Id Amount Rest}

/-! ## Every path ends in a reset -/

variable {c : Tec} {rules : Rules} {tx : STTx Id}

/-- The sequence number is never consumed with a claimed fee. -/
theorem consumeSeqProxy_ne_tec : consumeSeqProxy rules tx l ≠ .ok (.tec c, l') := by
  intro h
  unfold consumeSeqProxy at h
  cases hseq : tx.getSeqProxy with
  | seq value =>
    rw [hseq] at h
    cases h
  | ticket value =>
    rw [hseq] at h
    exact ticketDelete_ne_tec h

variable {f : Int} {fee : Int}

/-- A reset fails, or it takes the capped fee and consumes the sequence number. -/
theorem reset_cases {ter : TER} (h : reset ctx base fee = .ok (ter, f, l')) :
    ter = .rejected .tefINTERNAL ∨
    ∃ balance, payerBalance base.toRoots (getFeePayer base.toRoots ctx.tx).keylet = some balance ∧
      f = min (capped base.toRoots (getFeePayer base.toRoots ctx.tx) fee)
        (spendable ctx.rules ctx.fees base.toRoots (getFeePayer base.toRoots ctx.tx) balance) ∧
      consumeSeqProxy ctx.rules ctx.tx (base.setPayerBalance (balance - f) (getFeePayer base.toRoots ctx.tx).keylet) =
        .ok (ter, l') := by
  unfold reset at h
  split at h
  · cases h
    exact .inl rfl
  · dsimp only at h
    cases hbal : payerBalance base.toRoots (getFeePayer base.toRoots ctx.tx).keylet with
    | none =>
      rw [hbal] at h
      cases h
      exact .inl rfl
    | some balance =>
      rw [hbal] at h
      obtain ⟨⟨ter', l₁⟩, hseq, h⟩ := Run.bind_eq_ok.1 h
      cases h
      exact .inr ⟨balance, rfl, rfl, hseq⟩

/-- A reset does not itself claim a fee. -/
theorem reset_ne_tec : reset ctx base fee ≠ .ok (.tec c, f, l') := by
  intro h
  rcases reset_cases h with hter | ⟨balance, -, -, hseq⟩
  · cases hter
  · exact consumeSeqProxy_ne_tec hseq

omit [LinearOrder (ObjectKey Id)] in
theorem capped_le (r : Roots Id) (feePayer : FeePayer Id) (amount : Int) : capped r feePayer amount ≤ amount := by
  unfold capped
  split
  · split
    · exact Int.le_refl _
    · exact min_le_left _ _
  · exact Int.le_refl _

/-- A reset takes no more than it is told to. -/
theorem reset_fee_le (h : reset ctx base fee = .ok (.tesSUCCESS, f, l')) : f ≤ fee := by
  rcases reset_cases h with hter | ⟨balance, -, hf, -⟩
  · cases hter
  · rw [hf]
    exact Int.le_trans (min_le_left _ _) (capped_le _ _ _)

/-- A result that claims a fee and lets no deletion stay. -/
def PlainTec (c : Tec) : Prop := c ∉ [Tec.tecOVERSIZE, .tecKILLED, .tecINCOMPLETE, .tecEXPIRED]

theorem typesForResult_plain (h : PlainTec c) : typesForResult (.tec c) = [] := by
  cases c <;> first | rfl | exact absurd (by decide) h

/-- The ledger that is left is what a reset makes of the ledger before. -/
def ResetBy (ctx : Context Id Amount Rest) (base : Ledger Id Amount Rest) (f : Int)
    (l' : Ledger Id Amount Rest) : Prop :=
  ∃ fee ≤ ctx.tx.fee, reset ctx base fee = .ok (.tesSUCCESS, f, l')

variable {result : TER}

/-- Where no deletion stays, the ledger is reset. -/
theorem processPersistentChanges_tec {can : Bool} (hc : PlainTec c)
    (h : processPersistentChanges ctx base view result ctx.tx.fee = .ok (.tec c, f, can, l')) :
    ResetBy ctx base f l' := by
  obtain ⟨⟨ter, f', l₁⟩, hreset, h⟩ := Run.bind_eq_ok.1 h
  dsimp only at h
  cases hter : ter with
  | tesSUCCESS =>
    subst hter
    obtain ⟨rfl, rfl, -, rfl⟩ : result = .tec c ∧ f' = f ∧ _ ∧ _ := by simpa [pure, Except.pure, isTesSuccess] using h
    rw [if_neg fun hn => hn.2 (typesForResult_plain hc)]
    exact ⟨ctx.tx.fee, Int.le_refl _, hreset⟩
  | tec c' => exact absurd (hter ▸ hreset) reset_ne_tec
  | rejected code =>
    subst hter
    cases (Except.ok.inj h)

/-- The result is that of `processPersistentChanges`, or a success with the full fee. -/
theorem canApply_cases {result' : TER} (h : canApply ctx base view result = .ok (result', f, true, l')) :
    (∃ res, processPersistentChanges ctx base view res ctx.tx.fee = .ok (result', f, true, l')) ∨
      (result' = .tesSUCCESS ∧ f = ctx.tx.fee) := by
  unfold canApply at h
  dsimp only at h
  by_cases hsize : kOversizeMetaDataCap < ctx.size view
  · rw [if_pos hsize] at h
    split at h
    · cases h
    · rw [if_pos (.inl rfl)] at h
      exact .inl ⟨_, h⟩
  · rw [if_neg hsize] at h
    split at h
    · cases h
    · split at h
      · exact .inl ⟨_, h⟩
      · obtain ⟨rfl, rfl, hcan, -⟩ : result = result' ∧ ctx.tx.fee = f ∧ isTesSuccess result = true ∧ view = l' := by
          simpa only [Except.ok.injEq, Prod.mk.injEq] using h
        exact .inr ⟨of_decide_eq_true hcan, rfl⟩

/-- A claimed fee means a reset ledger. -/
theorem canApply_tec (hc : PlainTec c) (h : canApply ctx base view result = .ok (.tec c, f, true, l')) :
    ResetBy ctx base f l' := by
  rcases canApply_cases h with ⟨res, hres⟩ | ⟨hter, -⟩
  · exact processPersistentChanges_tec hc hres
  · cases hter

theorem canApply_fee_le {result' : TER} (h : canApply ctx base view result = .ok (result', f, true, l')) :
    f ≤ ctx.tx.fee := by
  rcases canApply_cases h with ⟨res, hres⟩ | ⟨-, rfl⟩
  · obtain ⟨⟨ter, f', l₁⟩, hreset, h⟩ := Run.bind_eq_ok.1 hres
    dsimp only at h
    cases ter with
    | tesSUCCESS =>
      have hf : f' = f := congrArg (·.2.1) (Except.ok.inj h)
      exact hf ▸ reset_fee_le hreset
    | tec c' => exact absurd hreset reset_ne_tec
    | rejected code =>
      have h := Except.ok.inj h
      simp [isTesSuccess, isTecClaim] at h
  · exact Int.le_refl _

omit [DecidableEq Id] [LinearOrder (ObjectKey Id)] in
/-- The checks pass a result on, or fail with `tecINVARIANT_FAILED`. -/
theorem checkInvariants_eq_tec {scope : InvariantScope} (h : checkInvariants ctx result fee scope view = .tec c) :
    result = .tec c ∨ c = .tecINVARIANT_FAILED := by
  unfold checkInvariants failInvariantCheck at h
  split at h
  · exact .inl h
  · split at h
    · cases h
    · cases h
      exact .inr rfl

/-- The checks reset the ledger, or leave it as it is. -/
theorem checkTwice_tec (hfee : fee ≤ ctx.tx.fee) (h : checkTwice ctx base view result fee = .ok (.tec c, f, l')) :
    ResetBy ctx base f l' ∨ (result = .tec c ∧ f = fee ∧ l' = view) := by
  unfold checkTwice at h
  dsimp only at h
  split at h
  · rename_i hfail
    obtain ⟨⟨ter, f', l₁⟩, hreset, h⟩ := Run.bind_eq_ok.1 h
    dsimp only at h
    cases ter with
    | tesSUCCESS =>
      rw [if_pos (by simp [isTesSuccess, isTecClaim, hfail])] at h
      obtain ⟨-, rfl, rfl⟩ : _ ∧ f' = f ∧ l₁ = l' := by simpa [pure, Except.pure] using h
      exact .inl ⟨fee, hfee, hreset⟩
    | tec c' => exact absurd hreset reset_ne_tec
    | rejected code =>
      have h := Except.ok.inj h
      simp [isTesSuccess] at h
  · rename_i hne
    obtain ⟨hres, rfl, rfl⟩ : checkInvariants ctx result fee .full view = .tec c ∧ fee = f ∧ view = l' := by
      simpa only [Except.ok.injEq, Prod.mk.injEq] using h
    rcases checkInvariants_eq_tec hres with hres' | rfl
    · exact .inr ⟨hres', rfl, rfl⟩
    · exact absurd hres hne

/-- A failed transaction that is applied leaves a reset ledger. -/
theorem operator_tec {r : ApplyResult Id Amount Rest} (h : operator ctx base = .ok r) (happlied : r.applied = true)
    (hter : r.ter = .tec c) (hc : PlainTec c) :
    ∃ f, 0 ≤ f ∧ ResetBy ctx base f r.ledger ∧ r.destroyed = if ctx.isOpen then 0 else f := by
  unfold operator at h
  obtain ⟨⟨result, view⟩, -, h⟩ := Run.bind_eq_ok.1 h
  obtain ⟨⟨result₁, fee, can, view₁⟩, hcan, h⟩ := Run.bind_eq_ok.1 h
  dsimp only at h
  cases can with
  | false =>
    cases h
    cases happlied
  | true =>
    obtain ⟨⟨result₂, f, view₂⟩, htwice, h⟩ := Run.bind_eq_ok.1 h
    dsimp only at h
    split at h
    · cases h
      cases happlied
    · split at h
      · cases h
      · rename_i hneg
        split at h
        · cases h
          cases happlied
        · cases h
          have hter : result₂ = .tec c := hter
          subst hter
          refine ⟨f, by omega, ?_, ?_⟩
          · rcases checkTwice_tec (canApply_fee_le hcan) htwice with hreset | ⟨rfl, rfl, rfl⟩
            · exact hreset
            · exact canApply_tec hc hcan
          · cases ctx.isOpen <;> rfl

/-! ## What a reset changes -/

section Consume

variable (rules : Rules) (l : Ledger Id Amount Rest) (tx : STTx Id)

omit [LinearOrder (ObjectKey Id)]

def STTx.nextSequence (sequence : UInt32) : UInt32 :=
  match tx.getSeqProxy with
  | .seq value => value + 1
  | .ticket _ => sequence

/-- One ticket less, and no field when that was the last. -/
def STTx.nextTicketCount (ticketCount : Option UInt32) : Option UInt32 :=
  match tx.getSeqProxy with
  | .seq _ => ticketCount
  | .ticket _ => ticketCount.bind fun n => if n = 1 then none else some (n - 1)

def usedTicket : Option ((Id × UInt32) × Ticket Id) :=
  match tx.getSeqProxy with
  | .seq _ => none
  | .ticket value => (l.tickets.lookup (tx.account, value)).map ((tx.account, value), ·)

/-- The proposal that the used ticket was reserved for. -/
def reservedProposal : Option ((Id × UInt32) × Proposal Id) :=
  (usedTicket l tx).bind fun t =>
    if rules.featureCosign then
      (l.proposals.lookup (tx.account, t.2.ticketSequence)).map ((tx.account, t.2.ticketSequence), ·)
    else none

/-- The account that pays the reserve of an object that names the given sponsor, when it is not the owner. -/
def payingSponsor (sponsor : Option Id) : Option Id := paying rules (getLedgerEntryReserveSponsor l.toRoots sponsor)

def releases : List (Holding Id) :=
  (usedTicket l tx).toList.map (fun t => ⟨tx.account, payingSponsor rules l t.2.sponsor, 1⟩) ++
    (reservedProposal rules l tx).toList.map fun p =>
      ⟨p.2.owner, payingSponsor rules l p.2.sponsor, proposalOwnerCount p.2.proposedTransaction⟩

/-- What leaves the directory of an account: pages and keys. -/
def givenUp (id : Id) : List (Nat × ObjectKey Id) :=
  ((usedTicket l tx).toList.filter fun _ => id = tx.account).map (fun t => (t.2.ownerNode, .ticket t.1.1 t.1.2)) ++
    ((reservedProposal rules l tx).toList.filter fun p => id = p.2.owner).map
      fun p => (p.2.ownerNode, .txProposal p.1.1 p.1.2)

end Consume

/-- Keys are removed from a directory, one after the other. -/
def Removes (dir : Dir (ObjectKey Id)) : List (Nat × ObjectKey Id) → Dir (ObjectKey Id) → Prop
  | [], dir' => dir' = dir
  | (page, key) :: keys, dir' => ∃ mid, dirRemove dir page key true = .ok (true, mid) ∧ Removes mid keys dir'

/-- The sequence number of the account moved on, or its ticket went, with the proposal that it was reserved for. -/
structure Consumed (rules : Rules) (tx : STTx Id) (l l' : Ledger Id Amount Rest) : Prop where
  accounts : ∀ id, Option.Rel (fun sle sle' =>
      LoweredBy ((releases rules l tx).map (·.owned id)).sum ((releases rules l tx).map (·.sponsored id)).sum
        ((releases rules l tx).map (·.sponsoring id)).sum
        { sle with
          sequence := if id = tx.account then tx.nextSequence sle.sequence else sle.sequence
          ticketCount := if id = tx.account then tx.nextTicketCount sle.ticketCount else sle.ticketCount } sle')
    (l.accounts.lookup id) (l'.accounts.lookup id)
  sponsorships : l'.sponsorships = l.sponsorships
  tickets : ∀ key, l'.tickets.lookup key = if some key = (usedTicket l tx).map (·.1) then none else l.tickets.lookup key
  proposals : ∀ key, l'.proposals.lookup key =
    if some key = (reservedProposal rules l tx).map (·.1) then none else l.proposals.lookup key
  ownerDirs : ∀ id, Removes (l.ownerDirs id) (givenUp rules l tx id) (l'.ownerDirs id)
  lines : l'.lines = l.lines
  objects : l'.objects = l.objects
  rest : l'.rest = l.rest

theorem consumed_seq {value : UInt32} (hseq : tx.getSeqProxy = .seq value) (l : Ledger Id Amount Rest) :
    Consumed rules tx l
      { l with toRoots := l.toRoots.modify tx.account fun sle => { sle with sequence := value + 1 } } := by
  have hticket : usedTicket l tx = none := by rw [usedTicket, hseq]
  have hproposal : reservedProposal rules l tx = none := by rw [reservedProposal, hticket]; rfl
  have hrel : releases rules l tx = [] := by rw [releases, hticket, hproposal]; rfl
  have hup : ∀ id, givenUp rules l tx id = [] := by intro id; rw [givenUp, hticket, hproposal]; rfl
  refine ⟨fun id => ?_, Roots.sponsorships_modify _ _ _, fun key => ?_, fun key => ?_, fun id => ?_, rfl, rfl, rfl⟩
  · change Option.Rel _ _ ((l.toRoots.modify tx.account _).accounts.lookup id)
    rw [Roots.lookup_modify, hrel]
    refine rel_map _ fun sle _ => ?_
    by_cases hid : id = tx.account
    · simp only [if_pos hid, STTx.nextSequence, STTx.nextTicketCount, hseq]
      exact .refl _
    · simp only [if_neg hid]
      exact .refl _
  · rw [hticket, if_neg (by simp)]
  · rw [hproposal, if_neg (by simp)]
  · rw [hup]
    rfl

section Ticket

variable {rules : Rules} {tx : STTx Id} {value : UInt32} {t : Ticket Id} {l₁ : Ledger Id Amount Rest}

omit [LinearOrder (ObjectKey Id)] in
theorem usedTicket_eq (hseq : tx.getSeqProxy = .ticket value) (ht : l.tickets.lookup (tx.account, value) = some t) :
    usedTicket l tx = some ((tx.account, value), t) := by
  rw [usedTicket, hseq]
  dsimp only
  rw [ht]
  rfl

variable (h : TicketGone rules l tx.account (tx.account, value) t l₁)
include h

theorem TicketGone.tickets (key : Id × UInt32) :
    l₁.tickets.lookup key = if some key = some (tx.account, value) then none else l.tickets.lookup key := by
  obtain ⟨dir, sle₀, ticketCount, -, -, -, rfl⟩ := h.erased
  simp only [some.injEq]
  exact HashMap.lookup_erase_eq l.tickets (tx.account, value) key

theorem TicketGone.sponsorships : l₁.sponsorships = l.sponsorships := by
  obtain ⟨dir, sle₀, ticketCount, -, -, -, rfl⟩ := h.erased
  refine (sponsorships_release _ _ _ _).trans ?_
  exact Roots.sponsorships_modify _ _ _

/-- No account comes or goes with a ticket. -/
theorem TicketGone.isSome_lookup (id : Id) : (l₁.accounts.lookup id).isSome = (l.accounts.lookup id).isSome := by
  obtain ⟨dir, sle₀, ticketCount, -, -, -, rfl⟩ := h.erased
  rw [lookup_eraseTicket, isSome_map]
  rfl

variable (hseq : tx.getSeqProxy = .ticket value)
include hseq

theorem TicketGone.accounts (id : Id) :
    let rel : Holding Id := ⟨tx.account, payingSponsor rules l t.sponsor, 1⟩
    Option.Rel (fun sle sle' => LoweredBy (rel.owned id) (rel.sponsored id) (rel.sponsoring id)
        { sle with
          sequence := if id = tx.account then tx.nextSequence sle.sequence else sle.sequence
          ticketCount := if id = tx.account then tx.nextTicketCount sle.ticketCount else sle.ticketCount } sle')
      (l.accounts.lookup id) (l₁.accounts.lookup id) := by
  intro rel
  obtain ⟨dir, sle₀, ticketCount, -, hacc, hcount, rfl⟩ := h.erased
  rw [lookup_eraseTicket]
  refine rel_map _ fun sle hsle => ?_
  have hroot : (if id = tx.account then Ledger.takeTicket ticketCount sle else sle) =
      { sle with
        sequence := if id = tx.account then tx.nextSequence sle.sequence else sle.sequence
        ticketCount := if id = tx.account then tx.nextTicketCount sle.ticketCount else sle.ticketCount } := by
    by_cases hid : id = tx.account
    · have hsle₀ : sle₀ = sle := some.inj (hacc.symm.trans (hid ▸ hsle))
      simp only [if_pos hid, STTx.nextSequence, STTx.nextTicketCount, hseq, Ledger.takeTicket, ← hsle₀, hcount,
        bind_some]
    · simp only [if_neg hid]
  rw [hroot]
  exact loweredBy_adjusted tx.account _ rules (show 1 ≤ 2147483647 by decide) id _

/-- A ticket went that no proposal was reserved for. -/
theorem consumed_ticket (hp : reservedProposal rules l tx = none) : Consumed rules tx l l₁ := by
  have hticket := usedTicket_eq hseq h.ticket
  have hrel : releases rules l tx = [⟨tx.account, payingSponsor rules l t.sponsor, 1⟩] := by
    rw [releases, hticket, hp]
    rfl
  obtain ⟨dir, sle₀, ticketCount, hdir, -, -, hl₁⟩ := h.erased
  refine ⟨fun id => ?_, h.sponsorships, fun key => ?_, fun key => ?_, fun id => ?_, ?_, ?_, ?_⟩
  · rw [hrel]
    exact h.accounts hseq id
  · rw [hticket]
    exact h.tickets key
  · rw [hp, if_neg (by simp), hl₁]
    rfl
  · rw [givenUp, hticket, hp, hl₁]
    change Removes _ _ (update l.ownerDirs tx.account dir id)
    by_cases hid : id = tx.account
    · subst hid
      simp only [toList_some, decide_true, filter_cons_of_pos, filter_nil, update_self]
      exact ⟨dir, hdir, rfl⟩
    · rw [update_of_ne hid]
      simp [hid, Removes]
  all_goals rw [hl₁]; rfl

/-- A ticket went, and the proposal that it was reserved for. -/
theorem consumed_proposal (hcosign : rules.featureCosign = true)
    (hdel : deleteProposal rules l₁ (tx.account, t.ticketSequence) = .ok (.tesSUCCESS, l')) :
    Consumed rules tx l l' := by
  have hticket := usedTicket_eq hseq h.ticket
  obtain ⟨p, dir', hlook, hdir', rfl⟩ := deleteProposal_eq_ok hdel
  obtain ⟨dir, sle₀, ticketCount, hdir, -, -, hl₁⟩ := h.erased
  have hlook₀ : l.proposals.lookup (tx.account, t.ticketSequence) = some p := by rw [hl₁] at hlook; exact hlook
  have hp : reservedProposal rules l tx = some ((tx.account, t.ticketSequence), p) := by
    rw [reservedProposal, hticket, bind_some, if_pos hcosign]
    dsimp only
    rw [hlook₀]
    rfl
  have hpaying : payingSponsor rules l p.sponsor = paying rules
      (getLedgerEntryReserveSponsor l₁.toRoots p.sponsor) := by
    rw [payingSponsor, getLedgerEntryReserveSponsor_congr h.isSome_lookup]
  have hrel : releases rules l tx = [⟨tx.account, payingSponsor rules l t.sponsor, 1⟩,
      ⟨p.owner, payingSponsor rules l p.sponsor, proposalOwnerCount p.proposedTransaction⟩] := by
    rw [releases, hticket, hp]
    rfl
  have hdirs : l₁.ownerDirs = update l.ownerDirs tx.account dir := by rw [hl₁]; rfl
  refine ⟨fun id => ?_, ?_, fun key => ?_, fun key => ?_, fun id => ?_, ?_, ?_, ?_⟩
  · rw [hrel, lookup_eraseProposal]
    change Option.Rel _ _ ((l₁.accounts.lookup id).map _)
    refine rel_map_right (h.accounts hseq id) fun sle sle' hlow => hlow.trans ?_
    have := proposalOwnerCount_le p.proposedTransaction
    simp only [Holding.owned, Holding.sponsored, Holding.sponsoring, hpaying, map_cons, map_nil]
    exact loweredBy_adjusted p.owner _ rules (by omega) id _
  · exact (sponsorships_release _ _ _ _).trans h.sponsorships
  · rw [hticket]
    exact h.tickets key
  · rw [hp]
    refine (HashMap.lookup_erase_eq l₁.proposals (tx.account, t.ticketSequence) key).trans ?_
    rw [hl₁]
    simp only [map_some, some.injEq]
    rfl
  · rw [givenUp, hticket, hp]
    rw [hdirs] at hdir'
    change Removes _ _ (update l₁.ownerDirs p.owner dir' id)
    rw [hdirs]
    by_cases hid : id = tx.account
    · subst hid
      simp only [toList_some, decide_true, filter_cons_of_pos, filter_nil, map_cons, map_nil,
        cons_append, nil_append, Removes]
      refine ⟨dir, hdir, ?_⟩
      by_cases hown : tx.account = p.owner
      · rw [← hown, update_self] at hdir'
        simp only [← hown, decide_true, filter_cons_of_pos, filter_nil, map_cons, map_nil, Removes,
          update_self]
        exact ⟨dir', hdir', rfl⟩
      · simp [hown, Removes]
    · by_cases hown : id = p.owner
      · rw [← hown, update_of_ne hid] at hdir'
        simp only [toList_some, hid, ← hown, decide_true, decide_false, filter_cons_of_pos, filter_nil,
          map_cons, map_nil, update_self]
        exact ⟨dir', hdir', rfl⟩
      · simp [hid, hown, Removes]
  all_goals rw [hl₁]; rfl

end Ticket

/-- What `consumeSeqProxy` changes. -/
theorem consumeSeqProxy_consumed (h : consumeSeqProxy rules tx l = .ok (.tesSUCCESS, l')) : Consumed rules tx l l' := by
  unfold consumeSeqProxy at h
  cases hseq : tx.getSeqProxy with
  | seq value =>
    rw [hseq] at h
    cases h
    exact consumed_seq hseq l
  | ticket value =>
    rw [hseq] at h
    rcases ticketDelete_cases h with hbad | ⟨t, l₁, hgone, ⟨⟨hcosign, -⟩, hdel⟩ | ⟨hnone, -, rfl⟩⟩
    · cases hbad
    · exact consumed_proposal hgone hseq hcosign hdel
    · refine consumed_ticket hgone hseq ?_
      rw [reservedProposal, usedTicket_eq hseq hgone.ticket, bind_some]
      split
      · rename_i hcosign
        rw [map_eq_none_iff]
        exact not_isSome_iff_eq_none.1 fun hsome => hnone ⟨hcosign, hsome⟩
      · rfl

/-! ## The charge -/

section Charge

omit [LinearOrder (ObjectKey Id)]

variable {rules : Rules} {fees : Fees} {r : Roots Id} {tx : STTx Id}

/-- A sponsorship pays for its sponsor, and otherwise an account pays. -/
theorem getFeePayer_cases (r : Roots Id) (tx : STTx Id) :
    ((getFeePayer r tx).type = .sponsorPreFunded ∧
      (getFeePayer r tx).keylet = .sponsorship (getFeePayer r tx).id tx.getInitiator) ∨
    ((getFeePayer r tx).type ≠ .sponsorPreFunded ∧ (getFeePayer r tx).keylet = .account (getFeePayer r tx).id) := by
  unfold getFeePayer
  split
  · dsimp only
    split
    · exact .inl ⟨rfl, rfl⟩
    · exact .inr ⟨FeePayerType.noConfusion, rfl⟩
  · refine .inr ⟨?_, rfl⟩
    dsimp only
    split <;> decide

variable {balance : Int} {keylet : PayerKeylet Id}

/-- Only the balance of the payer changes. -/
theorem lookup_setPayerBalance (h : payerBalance r keylet = some balance) (f : Int) (id : Id) :
    (setPayerBalance r (balance - f) keylet).accounts.lookup id = (r.accounts.lookup id).map fun sle =>
      { sle with balance := if keylet = .account id then sle.balance - f else sle.balance } := by
  cases keylet with
  | account payer =>
    have hiff : PayerKeylet.account payer = .account id ↔ id = payer := by rw [PayerKeylet.account.injEq, eq_comm]
    change (r.modify payer _).accounts.lookup id = _
    rw [Roots.lookup_modify]
    simp only [hiff]
    cases hid : r.accounts.lookup id with
    | none => rfl
    | some sle =>
      rw [map_some, map_some]
      by_cases hp : id = payer
      · subst hp
        have hbal : sle.balance = balance := by simpa [payerBalance, hid] using h
        rw [if_pos rfl, if_pos rfl, hbal]
      · rw [if_neg hp, if_neg hp]
  | sponsorship sponsor sponsee =>
    have hacc : (setPayerBalance r (balance - f) (.sponsorship sponsor sponsee)).accounts = r.accounts := by
      unfold setPayerBalance
      dsimp only
      split <;> rfl
    rw [hacc]
    simp

theorem lookup_setPayerBalance_sponsorships (h : payerBalance r keylet = some balance) (f : Int) (key : Id × Id) :
    (setPayerBalance r (balance - f) keylet).sponsorships.lookup key = (r.sponsorships.lookup key).map fun sle =>
      if keylet = .sponsorship key.1 key.2 then sle.setFeeAmount (sle.feeAmount.getD 0 - f) else sle := by
  cases keylet with
  | account payer =>
    change (r.modify payer _).sponsorships.lookup key = _
    simp
  | sponsorship sponsor sponsee =>
    have hiff : PayerKeylet.sponsorship sponsor sponsee = .sponsorship key.1 key.2 ↔ key = (sponsor, sponsee) := by
      rw [PayerKeylet.sponsorship.injEq, Prod.ext_iff]
      exact and_congr eq_comm eq_comm
    simp only [hiff]
    unfold setPayerBalance
    cases hs : r.sponsorships.lookup (sponsor, sponsee) with
    | none => simp [payerBalance, hs] at h
    | some sle =>
      have hbal : sle.feeAmount.getD 0 = balance := by simpa [payerBalance, hs] using h
      dsimp only
      rw [hs]
      dsimp only
      rw [HashMap.lookup_insert_eq]
      by_cases hk : key = (sponsor, sponsee)
      · subst hk
        rw [if_pos rfl, hs, map_some, if_pos rfl, hbal]
      · simp only [if_neg hk, Option.map_id']

theorem payerReserve_nonneg (rules : Rules) (fees : Fees) (r : Roots Id) (keylet : PayerKeylet Id) :
    0 ≤ payerReserve rules fees r keylet := by
  cases keylet with
  | account id =>
    unfold payerReserve
    dsimp only
    cases r.accounts.lookup id <;> simp
  | sponsorship sponsor sponsee => exact Int.le_refl _

/-- No more than the balance can be spent. -/
theorem spendable_le (rules : Rules) (fees : Fees) (r : Roots Id) (feePayer : FeePayer Id) (h : 0 ≤ balance) :
    spendable rules fees r feePayer balance ≤ balance := by
  have := payerReserve_nonneg rules fees r feePayer.keylet
  unfold spendable
  dsimp only
  split_ifs <;> omega

end Charge

/-- The ledger differs in the balance of the payer, lower by `f`, and in the sequence number of the account or in its
ticket, with its directory entry, the counts and the proposal that it was reserved for. -/
structure Cost (ctx : Context Id Amount Rest) (l l' : Ledger Id Amount Rest) (f : Int) : Prop where
  accounts : ∀ id, Option.Rel (fun sle sle' =>
      LoweredBy ((releases ctx.rules l ctx.tx).map (·.owned id)).sum
        ((releases ctx.rules l ctx.tx).map (·.sponsored id)).sum
        ((releases ctx.rules l ctx.tx).map (·.sponsoring id)).sum
        { sle with
          balance := if (getFeePayer l.toRoots ctx.tx).keylet = .account id then sle.balance - f else sle.balance
          sequence := if id = ctx.tx.account then ctx.tx.nextSequence sle.sequence else sle.sequence
          ticketCount := if id = ctx.tx.account then ctx.tx.nextTicketCount sle.ticketCount else sle.ticketCount } sle')
    (l.accounts.lookup id) (l'.accounts.lookup id)
  sponsorships : ∀ key, l'.sponsorships.lookup key = (l.sponsorships.lookup key).map fun sle =>
    if (getFeePayer l.toRoots ctx.tx).keylet = .sponsorship key.1 key.2 then sle.setFeeAmount (sle.feeAmount.getD 0 - f)
    else sle
  tickets : ∀ key, l'.tickets.lookup key = if some key =
    (usedTicket l ctx.tx).map (·.1) then none else l.tickets.lookup key
  proposals : ∀ key, l'.proposals.lookup key =
    if some key = (reservedProposal ctx.rules l ctx.tx).map (·.1) then none else l.proposals.lookup key
  ownerDirs : ∀ id, Removes (l.ownerDirs id) (givenUp ctx.rules l ctx.tx id) (l'.ownerDirs id)
  lines : l'.lines = l.lines
  objects : l'.objects = l.objects
  rest : l'.rest = l.rest

/-- What the payer can be asked for. -/
structure Affordable (ctx : Context Id Amount Rest) (l l' : Ledger Id Amount Rest) (f : Int) : Prop where
  nonneg : 0 ≤ f
  le_fee : f ≤ ctx.tx.fee
  balances : ∀ id sle sle', l.accounts.lookup id = some sle → l'.accounts.lookup id = some sle' →
    0 ≤ sle.balance → 0 ≤ sle'.balance
  feeAmounts : ∀ key sle sle', l.sponsorships.lookup key = some sle → l'.sponsorships.lookup key = some sle' →
    0 ≤ sle.feeAmount.getD 0 → 0 ≤ sle'.feeAmount.getD 0
  coSigned : (getFeePayer l.toRoots ctx.tx).type = .sponsorCoSigned → f ≠ 0 → ∀ sle sle',
    l.accounts.lookup (getFeePayer l.toRoots ctx.tx).id = some sle →
    l'.accounts.lookup (getFeePayer l.toRoots ctx.tx).id = some sle' →
    (accountReserve ctx.rules ctx.fees sle {} : Int) ≤ sle'.balance ∧
      (sle.sponsoredOwnerCount ≤ sle.ownerCount → (accountReserve ctx.rules ctx.fees sle' {} : Int) ≤ sle'.balance)
  preFunded : (getFeePayer l.toRoots ctx.tx).type = .sponsorPreFunded → ∀ sle,
    l.sponsorships.lookup ((getFeePayer l.toRoots ctx.tx).id, ctx.tx.getInitiator) = some sle →
    f ≤ sle.feeAmount.getD 0 ∧ ∀ cap, sle.maxFee = some cap → f ≤ cap

section Reset

variable {balance f : Int}

/-- The charge and the use of the sequence number or the ticket, one after the other. -/
theorem Consumed.cost (hbal : payerBalance base.toRoots (getFeePayer base.toRoots ctx.tx).keylet = some balance)
    (h : Consumed ctx.rules ctx.tx (base.setPayerBalance (balance - f) (getFeePayer base.toRoots ctx.tx).keylet) l') :
    Cost ctx base l' f := by
  have hlook := lookup_setPayerBalance hbal f
  have hpaying : payingSponsor ctx.rules (base.setPayerBalance (balance - f) (getFeePayer base.toRoots ctx.tx).keylet) =
      payingSponsor ctx.rules base := by
    funext sponsor
    refine congrArg (paying ctx.rules) (getLedgerEntryReserveSponsor_congr (fun id => ?_) sponsor)
    exact (congrArg isSome (hlook id)).trans isSome_map
  have hrel : releases ctx.rules (base.setPayerBalance (balance - f) (getFeePayer base.toRoots ctx.tx).keylet) ctx.tx =
      releases ctx.rules base ctx.tx := by
    unfold releases
    rw [hpaying]
    rfl
  refine ⟨fun id => ?_, fun key => ?_, h.tickets, h.proposals, h.ownerDirs, h.lines, h.objects, h.rest⟩
  · have hacc := h.accounts id
    have hlook' : (base.setPayerBalance (balance - f)
        (getFeePayer base.toRoots ctx.tx).keylet).accounts.lookup id = _ :=
      hlook id
    rw [hrel, hlook'] at hacc
    have hleft := rel_of_map_left hacc
    exact hleft
  · rw [h.sponsorships]
    exact lookup_setPayerBalance_sponsorships hbal f key

omit [LinearOrder (ObjectKey Id)] in
/-- Only owned objects are sponsored. -/
theorem Holding.sum_sponsored_le (rels : List (Holding Id)) (id : Id) :
    (rels.map (·.sponsored id)).sum ≤ (rels.map (·.owned id)).sum := by
  refine sum_le_sum fun rel _ => ?_
  unfold Holding.sponsored Holding.owned
  by_cases hid : id = rel.owner
  · rw [if_pos hid]
    split <;> omega
  · rw [if_neg fun h => hid h.1]
    exact Nat.zero_le _

theorem Cost.balance_eq (h : Cost ctx l l' f) {id : Id} {sle sle' : AccountRoot Id}
    (hsle : l.accounts.lookup id = some sle) (hsle' : l'.accounts.lookup id = some sle') :
    Lowered { sle with
        balance := if (getFeePayer l.toRoots ctx.tx).keylet = .account id then sle.balance - f else sle.balance
        sequence := if id = ctx.tx.account then ctx.tx.nextSequence sle.sequence else sle.sequence
        ticketCount := if id = ctx.tx.account then ctx.tx.nextTicketCount sle.ticketCount
          else sle.ticketCount } sle' := by
  have hrel := h.accounts id
  rw [hsle, hsle'] at hrel
  cases hrel with
  | some hlow => exact ⟨_, _, _, Holding.sum_sponsored_le _ id, hlow⟩

theorem Cost.affordable (h : Cost ctx base l' f) (hnonneg : 0 ≤ f) (hfee : fee ≤ ctx.tx.fee)
    (hbal : payerBalance base.toRoots (getFeePayer base.toRoots ctx.tx).keylet = some balance)
    (hf : f = min (capped base.toRoots (getFeePayer base.toRoots ctx.tx) fee)
      (spendable ctx.rules ctx.fees base.toRoots (getFeePayer base.toRoots ctx.tx) balance)) :
    Affordable ctx base l' f := by
  have hcap : f ≤ capped base.toRoots (getFeePayer base.toRoots ctx.tx) fee := hf ▸ min_le_left _ _
  have hspend : f ≤ spendable ctx.rules ctx.fees base.toRoots (getFeePayer base.toRoots ctx.tx) balance :=
    hf ▸ min_le_right _ _
  refine ⟨hnonneg, ?_, ?_, ?_, ?_, ?_⟩
  · exact Int.le_trans hcap (Int.le_trans (capped_le _ _ _) hfee)
  · intro id sle sle' hsle hsle' hpos
    rw [(h.balance_eq hsle hsle').same]
    change 0 ≤ if (getFeePayer base.toRoots ctx.tx).keylet = .account id then sle.balance - f else sle.balance
    split
    · rename_i hkey
      have hbalance : sle.balance = balance := by simpa [hkey, payerBalance, hsle] using hbal
      have := spendable_le ctx.rules ctx.fees base.toRoots (getFeePayer base.toRoots ctx.tx) (hbalance ▸ hpos)
      omega
    · exact hpos
  · intro key sle sle' hsle hsle' hpos
    rw [h.sponsorships, hsle, map_some] at hsle'
    obtain rfl := some.inj hsle'
    split
    · rename_i hkey
      have hbalance : sle.feeAmount.getD 0 = balance := by simpa [hkey, payerBalance, hsle] using hbal
      have := spendable_le ctx.rules ctx.fees base.toRoots (getFeePayer base.toRoots ctx.tx) (hbalance ▸ hpos)
      unfold Sponsorship.setFeeAmount
      dsimp only
      split
      · exact Int.le_refl _
      · rw [getD_some]
        omega
    · exact hpos
  · intro htype hne sle sle' hsle hsle'
    have hkey : (getFeePayer base.toRoots ctx.tx).keylet = .account (getFeePayer base.toRoots ctx.tx).id := by
      rcases getFeePayer_cases base.toRoots ctx.tx with ⟨hpre, -⟩ | ⟨-, hkey⟩
      · rw [htype] at hpre
        cases hpre
      · exact hkey
    have hbalance : sle.balance = balance := by simpa [hkey, payerBalance, hsle] using hbal
    have hreserve : payerReserve ctx.rules ctx.fees base.toRoots (getFeePayer base.toRoots ctx.tx).keylet =
        accountReserve ctx.rules ctx.fees sle {} := by
      rw [hkey]
      unfold payerReserve
      dsimp only
      rw [hsle]
      rfl
    have hlow := h.balance_eq hsle hsle'
    have hafter : sle'.balance = sle.balance - f := by
      rw [hlow.same]
      exact if_pos hkey
    have hkept : (accountReserve ctx.rules ctx.fees sle {} : Int) ≤ sle'.balance := by
      unfold spendable at hspend
      rw [if_pos htype, hreserve] at hspend
      dsimp only at hspend
      split at hspend <;> omega
    refine ⟨hkept, fun hle => Int.le_trans (Int.ofNat_le.2 ?_) hkept⟩
    exact hlow.accountReserve_le hle ctx.rules ctx.fees
  · intro htype sle hsle
    have hkey : (getFeePayer base.toRoots ctx.tx).keylet =
        .sponsorship (getFeePayer base.toRoots ctx.tx).id ctx.tx.getInitiator := by
      rcases getFeePayer_cases base.toRoots ctx.tx with ⟨-, hkey⟩ | ⟨hne, -⟩
      · exact hkey
      · exact absurd htype hne
    have hbalance : sle.feeAmount.getD 0 = balance := by simpa [hkey, payerBalance, hsle] using hbal
    constructor
    · unfold spendable at hspend
      rw [if_neg (by rw [htype]; decide)] at hspend
      omega
    · intro cap hmax
      unfold capped payerMaxFee at hcap
      rw [if_pos htype, hkey] at hcap
      dsimp only at hcap
      rw [hsle, bind_some, hmax] at hcap
      exact Int.le_trans hcap (min_le_right _ _)

end Reset

/-- A failed transaction only costs its fee: when a transaction is applied with a result that claims a fee, other than
the four that keep deletions, then the entries differ in what the payer was charged and in the sequence number or the
ticket that was used up, and in nothing else, whatever `preclaim` and `doApply` did. -/
theorem failed_transaction_costs_its_fee {r : ApplyResult Id Amount Rest} {c : Tec} (h : operator ctx base = .ok r)
    (happlied : r.applied = true) (hter : r.ter = .tec c) (hc : PlainTec c) :
    ∃ f, Cost ctx base r.ledger f ∧ Affordable ctx base r.ledger f ∧ r.destroyed = if ctx.isOpen then 0 else f := by
  obtain ⟨f, hnonneg, ⟨fee, hfee, hreset⟩, hdestroyed⟩ := operator_tec h happlied hter hc
  rcases reset_cases hreset with hbad | ⟨balance, hbal, hf, hseq⟩
  · cases hbad
  · have hcost := (consumeSeqProxy_consumed hseq).cost hbal
    exact ⟨f, hcost, hcost.affordable hnonneg hfee hbal hf, hdestroyed⟩

/-- Account 1 with sequence number 5, and account 2 with 25 drops. -/
def twoAccounts : Ledger Nat Unit Unit where
  accounts := (∅ : HashMap Nat (AccountRoot Nat)).insert 1 (plainRoot 5 100) |>.insert 2 (plainRoot 9 25)
  sponsorships := ∅
  tickets := ∅
  proposals := ∅
  lines := ∅
  objects := ∅
  ownerDirs := fun _ _ => none
  rest := ()

/-- A transaction of account 1 with a fee of 12 drops that account 2 has signed to pay; the reserve is 20 drops. -/
def sponsoredFailure : Context Nat Unit Unit where
  tx := { account := 1, sequence := 5, ticketSequence := none, fee := 12, delegate := none, sponsor := some 2,
          spfSponsorFee := true, spfSponsorReserve := false, sponsorSignature := true,
            transactionID := 0, payload := [] }
  rules := ⟨true, true, true, true, true, true⟩
  fees := ⟨20, 5⟩
  isOpen := false
  tapFailHard := false
  tapRetry := false
  tapDryRun := false
  preclaimResult := .tec (.other 104)
  doApply := fun _ l => .ok (.tesSUCCESS, l)
  size := fun _ => 0
  invariants := fun _ _ _ _ => true
  deletedObjects := fun _ _ => []
  removeDeleted := fun _ _ l => l

/-- The sponsor pays the five drops that it has above its reserve. -/
theorem failed_transaction_costs_its_fee_sponsor :
    ∃ r : ApplyResult Nat Unit Unit, operator sponsoredFailure twoAccounts = .ok r ∧ r.destroyed = 5 ∧
      ∃ f, Cost sponsoredFailure twoAccounts r.ledger f ∧ Affordable sponsoredFailure twoAccounts r.ledger f ∧
        r.destroyed = if sponsoredFailure.isOpen then 0 else f := by
  refine ⟨_, rfl, rfl, ?_⟩
  exact failed_transaction_costs_its_fee rfl rfl rfl (show Tec.other 104 ∉ _ by decide)

end Rippled.Transactor
