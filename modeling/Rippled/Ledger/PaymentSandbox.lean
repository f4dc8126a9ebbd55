import Mathlib.Data.List.Basic
import Mathlib.Tactic.Linarith

/-!
# Deferred MPT credits

A `PaymentSandbox` records the MPT credits and debits of a payment (`DeferredCredits`), so that what an account receives
within a payment cannot be spent in it. Sandboxes are nested: one is created over another, and is then discarded or
applied to its parent. `balanceHookMPT` walks from a sandbox to the outermost one. Only the part of the table that is
about MPTs is here, and of a sandbox's view only the balances. A `std::map` is a partial function: the loops that merge
two tables treat each key by itself.
-/

namespace Rippled.Ledger

variable {AccountID MPTID : Type} [DecidableEq AccountID] [DecidableEq MPTID]

structure HolderValueMPT where
  debit : UInt64 := 0
  origBalance : UInt64 := 0
  deriving DecidableEq

structure IssuerValueMPT (AccountID : Type) where
  holders : AccountID → Option HolderValueMPT := fun _ => none
  credit : UInt64 := 0
  origBalance : Int := 0
  selfDebit : UInt64 := 0

/-- The table of a sandbox (`creditsMPT_`). -/
abbrev DeferredCredits (AccountID MPTID : Type) := MPTID → Option (IssuerValueMPT AccountID)

def toInt64 (i : Int) : Int := i.bmod (2 ^ 64)

namespace DeferredCredits

/-- `creditMPT`, where `issuer` is the issuer of `mptID`. -/
def creditMPT (tab : DeferredCredits AccountID MPTID) (issuer sender receiver : AccountID) (mptID : MPTID)
    (amount preCreditBalanceHolder : UInt64) (preCreditBalanceIssuer : Int) : DeferredCredits AccountID MPTID :=
  match tab mptID with
  | none =>
    let v : IssuerValueMPT AccountID :=
      if sender = issuer then
        { credit := amount
          holders := Function.update (fun _ => none) receiver (some { origBalance := preCreditBalanceHolder })
          origBalance := preCreditBalanceIssuer }
      else
        { holders := Function.update (fun _ => none) sender (some ⟨amount, preCreditBalanceHolder⟩)
          origBalance := preCreditBalanceIssuer }
    Function.update tab mptID (some v)
  | some v =>
    let v :=
      if sender = issuer then
        { v with
          credit := v.credit + amount
          holders :=
            if (v.holders receiver).isSome then v.holders
            else Function.update v.holders receiver (some { origBalance := preCreditBalanceHolder }) }
      else
        match v.holders sender with
        | none => { v with holders := Function.update v.holders sender (some ⟨amount, preCreditBalanceHolder⟩) }
        | some h => { v with holders := Function.update v.holders sender (some { h with debit := h.debit + amount }) }
    Function.update tab mptID (some v)

def issuerSelfDebitMPT (tab : DeferredCredits AccountID MPTID) (mptID : MPTID) (amount : UInt64) (origBalance : Int) :
    DeferredCredits AccountID MPTID :=
  match tab mptID with
  | none => Function.update tab mptID (some { origBalance := origBalance, selfDebit := amount })
  | some v => Function.update tab mptID (some { v with selfDebit := v.selfDebit + amount })

/-- The loop of `apply` over the holders of an issue. -/
def applyHolder (toVal fromVal : Option HolderValueMPT) : Option HolderValueMPT :=
  match fromVal, toVal with
  | none, t => t
  | some f, none => some f
  | some f, some t => some { t with debit := t.debit + f.debit }

/-- `apply`, which adds a table to that of the parent. -/
def apply (tab parent : DeferredCredits AccountID MPTID) : DeferredCredits AccountID MPTID := fun mptID =>
  match tab mptID, parent mptID with
  | none, t => t
  | some f, none => some f
  | some f, some t =>
    some
      { t with
        credit := t.credit + f.credit
        selfDebit := t.selfDebit + f.selfDebit
        holders := fun k => applyHolder (t.holders k) (f.holders k) }

end DeferredCredits

/-- The variables of `balanceHookMPT`. -/
structure HookState where
  delta : Int
  lastBal : Int
  minBal : Int

/-- One round of the loop of `balanceHookMPT`. -/
def HookState.visit (accountIsHolder : Bool) (account : AccountID) (s : HookState)
    (adj : Option (IssuerValueMPT AccountID)) : HookState :=
  match adj with
  | none => s
  | some adj =>
    let s :=
      if accountIsHolder then
        match adj.holders account with
        | some h => { s with delta := toInt64 (s.delta + h.debit.toNat), lastBal := toInt64 h.origBalance.toNat }
        | none => s
      else { s with delta := toInt64 (s.delta + adj.credit.toNat), lastBal := adj.origBalance }
    { s with minBal := min s.lastBal s.minBal }

/-- `balanceHookMPT`, over the tables from the sandbox to the outermost one. -/
def balanceHookMPT (tabs : List (DeferredCredits AccountID MPTID)) (issuer account : AccountID)
    (mptID : MPTID) (amount : Int) : Int :=
  let accountIsHolder := decide (account ≠ issuer)
  let s := (tabs.map (· mptID)).foldl (HookState.visit accountIsHolder account) ⟨0, amount, amount⟩
  let adjustedAmt := min amount (min (toInt64 (s.lastBal - s.delta)) s.minBal)
  if adjustedAmt > 0 then adjustedAmt else 0

/-! ## Runs -/

/-- What a sandbox records: MPTs that the issuer gives to a holder, that a holder gives back, and the issuer's own
debits. The balances are those before the event. -/
inductive Event (AccountID MPTID : Type) where
  | credit (mptID : MPTID) (holder : AccountID) (amount preHolder : UInt64) (preIssuer : Int)
  | debit (mptID : MPTID) (holder : AccountID) (amount preHolder : UInt64) (preIssuer : Int)
  | selfDebit (mptID : MPTID) (amount : UInt64) (origBalance : Int)

/-- The balances of holders, as a view has them. -/
abbrev Balances (AccountID MPTID : Type) := MPTID → AccountID → Nat

def Balances.set (b : Balances AccountID MPTID) (mptID : MPTID) (holder : AccountID) (n : Nat) :
    Balances AccountID MPTID :=
  Function.update b mptID (Function.update (b mptID) holder n)

structure Sandbox (AccountID MPTID : Type) where
  tab : DeferredCredits AccountID MPTID
  balance : Balances AccountID MPTID

def record (issuer : MPTID → AccountID) (tab : DeferredCredits AccountID MPTID) :
    Event AccountID MPTID → DeferredCredits AccountID MPTID
  | .credit mptID holder amount preHolder preIssuer =>
    tab.creditMPT (issuer mptID) (issuer mptID) holder mptID amount preHolder preIssuer
  | .debit mptID holder amount preHolder preIssuer =>
    tab.creditMPT (issuer mptID) holder (issuer mptID) mptID amount preHolder preIssuer
  | .selfDebit mptID amount origBalance => tab.issuerSelfDebitMPT mptID amount origBalance

/-- What an event does to the balances it finds: it takes place only with the balance that it records. -/
inductive Moves (issuer : MPTID → AccountID) : Balances AccountID MPTID → Event AccountID MPTID →
    Balances AccountID MPTID → Prop
  | credit {b : Balances AccountID MPTID} {mptID : MPTID} {holder : AccountID}
      {amount preHolder : UInt64} {preIssuer : Int}
      (hne : holder ≠ issuer mptID) (hpre : preHolder.toNat = b mptID holder) :
      Moves issuer b (.credit mptID holder amount preHolder preIssuer)
        (b.set mptID holder (b mptID holder + amount.toNat))
  | debit {b : Balances AccountID MPTID} {mptID : MPTID} {holder : AccountID}
      {amount preHolder : UInt64} {preIssuer : Int}
      (hne : holder ≠ issuer mptID) (hpre : preHolder.toNat = b mptID holder) (hle : amount.toNat ≤ b mptID holder) :
      Moves issuer b (.debit mptID holder amount preHolder preIssuer)
        (b.set mptID holder (b mptID holder - amount.toNat))
  | selfDebit {b : Balances AccountID MPTID} {mptID : MPTID} {amount : UInt64} {origBalance : Int} :
      Moves issuer b (.selfDebit mptID amount origBalance) b

/-- The chains of sandboxes over a ledger with balances `base`, the innermost first, each with the events that were
recorded in it or in sandboxes applied to it, in order. -/
inductive Runs (issuer : MPTID → AccountID) :
    Balances AccountID MPTID → List (Sandbox AccountID MPTID) → List (List (Event AccountID MPTID)) → Prop
  | init (base : Balances AccountID MPTID) : Runs issuer base [] []
  | createFirst {base : Balances AccountID MPTID} (h : Runs issuer base [] []) :
      Runs issuer base [⟨fun _ => none, base⟩] [[]]
  | create {base : Balances AccountID MPTID} {s : Sandbox AccountID MPTID} {chain : List (Sandbox AccountID MPTID)}
      {log : List (List (Event AccountID MPTID))} (h : Runs issuer base (s :: chain) log) :
      Runs issuer base (⟨fun _ => none, s.balance⟩ :: s :: chain) ([] :: log)
  | discard {base : Balances AccountID MPTID} {s : Sandbox AccountID MPTID} {chain : List (Sandbox AccountID MPTID)}
      {es : List (Event AccountID MPTID)} {log : List (List (Event AccountID MPTID))}
      (h : Runs issuer base (s :: chain) (es :: log)) : Runs issuer base chain log
  | apply {base : Balances AccountID MPTID} {s p : Sandbox AccountID MPTID} {chain : List (Sandbox AccountID MPTID)}
      {es fs : List (Event AccountID MPTID)} {log : List (List (Event AccountID MPTID))}
      (h : Runs issuer base (s :: p :: chain) (es :: fs :: log)) :
      Runs issuer base (⟨s.tab.apply p.tab, s.balance⟩ :: chain) ((fs ++ es) :: log)
  | applyLast {base : Balances AccountID MPTID} {s : Sandbox AccountID MPTID} {es : List (Event AccountID MPTID)}
      (h : Runs issuer base [s] [es]) : Runs issuer s.balance [] []
  | event {base b : Balances AccountID MPTID} {s : Sandbox AccountID MPTID} {chain : List (Sandbox AccountID MPTID)}
      {es : List (Event AccountID MPTID)} {log : List (List (Event AccountID MPTID))} {e : Event AccountID MPTID}
      (h : Runs issuer base (s :: chain) (es :: log)) (hm : Moves issuer s.balance e b) :
      Runs issuer base (⟨record issuer s.tab e, b⟩ :: chain) ((es ++ [e]) :: log)

/-! ## What the tables say about a holder -/

namespace DeferredCredits

def holder (tab : DeferredCredits AccountID MPTID) (mptID : MPTID) (account : AccountID) : Option HolderValueMPT :=
  (tab mptID).bind (·.holders account)

variable (tab : DeferredCredits AccountID MPTID)

omit [DecidableEq AccountID] [DecidableEq MPTID] in
/-- A table is added to its parent holder by holder. -/
theorem holder_apply (parent : DeferredCredits AccountID MPTID) (mptID : MPTID) (account : AccountID) :
    (tab.apply parent).holder mptID account = applyHolder (parent.holder mptID account) (tab.holder mptID account) := by
  unfold holder apply
  cases tab mptID with
  | none => rfl
  | some f =>
    cases parent mptID with
    | none => cases h : f.holders account <;> simp [applyHolder, h]
    | some t => rfl

omit [DecidableEq AccountID] in
theorem holder_issuerSelfDebitMPT (id mptID : MPTID) (amount : UInt64) (orig : Int) (account : AccountID) :
    (tab.issuerSelfDebitMPT id amount orig).holder mptID account = tab.holder mptID account := by
  unfold holder issuerSelfDebitMPT
  by_cases h : mptID = id
  · subst h
    cases htab : tab mptID <;> simp
  · cases htab : tab id <;> simp [Function.update_of_ne h]

/-- A credit is recorded for the receiver, with the balance that it found, unless there is an entry. -/
theorem holder_credit (issuer receiver : AccountID) (id mptID : MPTID) (amount pre : UInt64) (preIssuer : Int)
    (account : AccountID) :
    (tab.creditMPT issuer issuer receiver id amount pre preIssuer).holder mptID account =
      applyHolder (tab.holder mptID account) (if mptID = id ∧ account = receiver then some ⟨0, pre⟩ else none) := by
  unfold holder creditMPT
  by_cases h : mptID = id
  · subst h
    by_cases ha : account = receiver
    · subst ha
      cases htab : tab mptID with
      | none => simp [applyHolder]
      | some v => cases hv : v.holders account <;> simp [applyHolder, hv]
    · cases htab : tab mptID with
      | none => simp [applyHolder, ha]
      | some v =>
        have hkeep : (if (v.holders receiver).isSome then v.holders
            else Function.update v.holders receiver (some { origBalance := pre })) account = v.holders account := by
          split_ifs
          · rfl
          · exact Function.update_of_ne ha _ _
        simp [applyHolder, ha, hkeep]
  · cases htab : tab id <;> simp [h, applyHolder]

/-- A debit is recorded for the sender, with the balance that it found unless there is an entry. -/
theorem holder_debit {issuer sender : AccountID} (hne : sender ≠ issuer) (receiver : AccountID) (id mptID : MPTID)
    (amount pre : UInt64) (preIssuer : Int) (account : AccountID) :
    (tab.creditMPT issuer sender receiver id amount pre preIssuer).holder mptID account =
      applyHolder (tab.holder mptID account) (if mptID = id ∧ account = sender then some ⟨amount, pre⟩ else none) := by
  unfold holder creditMPT
  by_cases h : mptID = id
  · subst h
    by_cases ha : account = sender
    · subst ha
      cases htab : tab mptID with
      | none => simp [applyHolder, hne]
      | some v => cases hv : v.holders account <;> simp [applyHolder, hv, hne]
    · cases htab : tab mptID with
      | none => simp [applyHolder, ha, hne]
      | some v => cases hv : v.holders sender <;> simp [applyHolder, ha, hne, hv]
  · cases htab : tab id <;> simp [h, applyHolder]

theorem applyHolder_none (a : Option HolderValueMPT) : applyHolder none a = a := by cases a <;> rfl

/-- Tables may be added in any grouping. -/
theorem applyHolder_assoc (a b c : Option HolderValueMPT) :
    applyHolder (applyHolder a b) c = applyHolder a (applyHolder b c) := by
  cases a <;> cases b <;> cases c <;> simp [applyHolder, UInt64.add_assoc]

end DeferredCredits

open DeferredCredits List Option

/-- What an event alone says about a holder. -/
def Event.holder (mptID : MPTID) (account : AccountID) : Event AccountID MPTID → Option HolderValueMPT
  | .credit id receiver _ pre _ => if mptID = id ∧ account = receiver then some ⟨0, pre⟩ else none
  | .debit id sender amount pre _ => if mptID = id ∧ account = sender then some ⟨amount, pre⟩ else none
  | .selfDebit _ _ _ => none

/-- What events say about a holder: the balance before the first of them, and the sum of the debits. -/
def summary (mptID : MPTID) (account : AccountID) (es : List (Event AccountID MPTID)) : Option HolderValueMPT :=
  es.foldl (fun h e => applyHolder h (e.holder mptID account)) none

theorem foldl_applyHolder (mptID : MPTID) (account : AccountID) (es : List (Event AccountID MPTID))
    (h : Option HolderValueMPT) :
    es.foldl (fun h e => applyHolder h (e.holder mptID account)) h = applyHolder h (summary mptID account es) := by
  induction es generalizing h with
  | nil => rfl
  | cons e es ih =>
    have hcons : summary mptID account (e :: es) = applyHolder (e.holder mptID account) (summary mptID account es) := by
      unfold summary
      rw [foldl_cons, applyHolder_none, ih]
      rfl
    rw [foldl_cons, ih, hcons, applyHolder_assoc]

/-- What two sequences of events say is what both say together. -/
theorem summary_append (mptID : MPTID) (account : AccountID) (es fs : List (Event AccountID MPTID)) :
    summary mptID account (es ++ fs) = applyHolder (summary mptID account es) (summary mptID account fs) := by
  unfold summary
  rw [foldl_append]
  exact foldl_applyHolder mptID account fs _

def Holds (tab : DeferredCredits AccountID MPTID) (es : List (Event AccountID MPTID)) : Prop :=
  ∀ mptID account, tab.holder mptID account = summary mptID account es

variable {es : List (Event AccountID MPTID)} {issuer : MPTID → AccountID} {tab : DeferredCredits AccountID MPTID}
  {b b' : Balances AccountID MPTID} {e : Event AccountID MPTID}

/-- An event is recorded in the table. -/
theorem Holds.record (h : Holds tab es) (hm : Moves issuer b e b') : Holds (record issuer tab e) (es ++ [e]) := by
  intro mptID account
  have hone : summary mptID account [e] = e.holder mptID account := applyHolder_none _
  rw [summary_append, hone, ← h mptID account]
  cases hm with
  | credit hne hpre => exact holder_credit ..
  | debit hne hpre hle => exact holder_debit tab hne ..
  | selfDebit => exact holder_issuerSelfDebitMPT ..

/-- The parent then holds the events of both. -/
theorem Holds.apply {parent : DeferredCredits AccountID MPTID} {fs : List (Event AccountID MPTID)} (h : Holds tab es)
    (hp : Holds parent fs) : Holds (tab.apply parent) (fs ++ es) := by
  intro mptID account
  rw [holder_apply, summary_append, h, hp]

def debits (mptID : MPTID) (account : AccountID) (es : List (Event AccountID MPTID)) : Nat :=
  (es.map fun e => ((e.holder mptID account).map (·.debit.toNat)).getD 0).sum

/-- A holder's balance before the first event that concerns it. -/
def firstBalance (mptID : MPTID) (account : AccountID) (es : List (Event AccountID MPTID)) : Option Nat :=
  (es.findSome? (Event.holder mptID account)).map (·.origBalance.toNat)

variable (mptID : MPTID) (account : AccountID)

theorem debits_append (es fs : List (Event AccountID MPTID)) :
    debits mptID account (es ++ fs) = debits mptID account es + debits mptID account fs := by
  simp [debits]

theorem firstBalance_append (es fs : List (Event AccountID MPTID)) :
    firstBalance mptID account (es ++ fs) = (firstBalance mptID account es).or (firstBalance mptID account fs) := by
  unfold firstBalance
  rw [findSome?_append]
  cases es.findSome? (Event.holder mptID account) <;> simp

theorem debits_eq_zero {mptID : MPTID} {account : AccountID} (h : ∀ e ∈ es, e.holder mptID account = none) :
    debits mptID account es = 0 := by
  induction es with
  | nil => rfl
  | cons e es ih =>
    rw [← singleton_append, debits_append, ih fun e he => h e (mem_cons_of_mem _ he)]
    simp [debits, h e mem_cons_self]

theorem summary_cons (e : Event AccountID MPTID) (es : List (Event AccountID MPTID)) :
    summary mptID account (e :: es) = applyHolder (e.holder mptID account) (summary mptID account es) := by
  have hone : summary mptID account [e] = e.holder mptID account := applyHolder_none _
  rw [← singleton_append, summary_append, hone]

/-- The balance in the table is the one before the first event. -/
theorem summary_origBalance (es : List (Event AccountID MPTID)) :
    (summary mptID account es).map (·.origBalance.toNat) = firstBalance mptID account es := by
  unfold firstBalance
  induction es with
  | nil => rfl
  | cons e es ih =>
    rw [summary_cons, findSome?_cons]
    cases e.holder mptID account with
    | none => rw [applyHolder_none, ih]
    | some v => cases summary mptID account es <;> rfl

/-- The debit in the table is the sum, in 64 bits. -/
theorem summary_debit (es : List (Event AccountID MPTID)) :
    ((summary mptID account es).map (·.debit.toNat)).getD 0 = debits mptID account es % 2 ^ 64 := by
  induction es with
  | nil => rfl
  | cons e es ih =>
    have hcons : debits mptID account (e :: es) =
        ((e.holder mptID account).map (·.debit.toNat)).getD 0 + debits mptID account es := by simp [debits]
    rw [summary_cons, hcons, Nat.add_mod, ← ih]
    cases e.holder mptID account with
    | none =>
      rw [applyHolder_none]
      cases hs : summary mptID account es with
      | none => rfl
      | some w => simp
    | some v =>
      cases hs : summary mptID account es with
      | none => simp [applyHolder]
      | some w => simp [applyHolder, UInt64.toNat_add]

/-! ## Histories -/

/-- The events lead from the balances `base` to the balances `b`. -/
inductive Follows (issuer : MPTID → AccountID) (base : Balances AccountID MPTID) :
    List (Event AccountID MPTID) → Balances AccountID MPTID → Prop
  | nil : Follows issuer base [] base
  | snoc {es : List (Event AccountID MPTID)} {e : Event AccountID MPTID} {b b' : Balances AccountID MPTID}
      (h : Follows issuer base es b) (hm : Moves issuer b e b') : Follows issuer base (es ++ [e]) b'

theorem Balances.set_apply (b : Balances AccountID MPTID) (id mptID : MPTID) (holder account : AccountID) (n : Nat) :
    b.set id holder n mptID account = if mptID = id ∧ account = holder then n else b mptID account := by
  unfold Balances.set
  by_cases h : mptID = id
  · subst h
    by_cases ha : account = holder <;> simp [ha]
  · simp [h]

/-- An event finds the balance that it records, and lowers it by its debit at most. -/
theorem Moves.balance (hm : Moves issuer b e b') (mptID : MPTID) (account : AccountID) :
    (∀ v, e.holder mptID account = some v → v.origBalance.toNat = b mptID account) ∧
      b mptID account ≤ b' mptID account + ((e.holder mptID account).map (·.debit.toNat)).getD 0 ∧
      (e.holder mptID account = none → b' mptID account = b mptID account) := by
  cases hm with
  | selfDebit => simp [Event.holder]
  | @credit id holder amount pre preIssuer hne hpre =>
    rw [Balances.set_apply]
    by_cases h : mptID = id ∧ account = holder
    · obtain ⟨rfl, rfl⟩ := h
      simp [Event.holder, hpre]
    · simp [Event.holder, h]
  | @debit id holder amount pre preIssuer hne hpre hle =>
    rw [Balances.set_apply]
    by_cases h : mptID = id ∧ account = holder
    · obtain ⟨rfl, rfl⟩ := h
      simp [Event.holder, hpre]
      omega
    · simp [Event.holder, h]

/-- What is known of a holder's balance after a history: the first balance that was found is that of the ledger, and no
balance falls below it by more than the debits. -/
structure Bounded (base b : Balances AccountID MPTID) (es : List (Event AccountID MPTID)) (mptID : MPTID)
    (account : AccountID) : Prop where
  found : ∀ e ∈ es, ∀ v, e.holder mptID account = some v →
    base mptID account ≤ v.origBalance.toNat + debits mptID account es
  now : base mptID account ≤ b mptID account + debits mptID account es
  first : ∀ n, firstBalance mptID account es = some n → n = base mptID account
  untouched : firstBalance mptID account es = none → b mptID account = base mptID account

variable {base : Balances AccountID MPTID}

/-- Along a history no balance drops by more than the debits. -/
theorem Follows.bounded (h : Follows issuer base es b) (mptID : MPTID) (account : AccountID) :
    Bounded base b es mptID account := by
  induction h with
  | nil => exact ⟨by simp, by simp, by simp [firstBalance], fun _ => rfl⟩
  | @snoc es e b b' hes hm ih =>
    obtain ⟨hpre, hstep, hnone⟩ := hm.balance mptID account
    have hdebits : debits mptID account (es ++ [e]) =
        debits mptID account es + ((e.holder mptID account).map (·.debit.toNat)).getD 0 := by
      rw [debits_append]; simp [debits]
    have hfirst : firstBalance mptID account (es ++ [e]) =
        (firstBalance mptID account es).or ((e.holder mptID account).map (·.origBalance.toNat)) := by
      rw [firstBalance_append]; simp [firstBalance]
    refine ⟨fun e' he' v hv => ?_, ?_, fun n hn => ?_, fun hn => ?_⟩
    · rcases mem_append.1 he' with he' | he'
      · have := ih.found e' he' v hv
        omega
      · obtain rfl := mem_singleton.1 he'
        have := hpre v hv
        have := ih.now
        omega
    · have := ih.now
      omega
    · rw [hfirst] at hn
      cases hes' : firstBalance mptID account es with
      | some m =>
        rw [hes'] at hn
        cases hn
        exact ih.first _ hes'
      | none =>
        rw [hes', none_or] at hn
        obtain ⟨v, hv, rfl⟩ := map_eq_some_iff.1 hn
        rw [hpre v hv, ih.untouched hes']
    · rw [hfirst, or_eq_none_iff] at hn
      rw [hnone (map_eq_none_iff.1 hn.2), ih.untouched hn.1]

/-- The events of a chain of sandboxes in the order in which they took place. -/
def timeline (log : List (List (Event AccountID MPTID))) : List (Event AccountID MPTID) := log.reverse.flatten

omit [DecidableEq AccountID] [DecidableEq MPTID] in
theorem timeline_cons (es : List (Event AccountID MPTID)) (log : List (List (Event AccountID MPTID))) :
    timeline (es :: log) = timeline log ++ es := by
  simp [timeline]

/-- Every table of the chain holds the events of its sandbox, and the events lead to the balances. -/
inductive Live (issuer : MPTID → AccountID) (base : Balances AccountID MPTID) :
    List (Sandbox AccountID MPTID) → List (List (Event AccountID MPTID)) → Prop
  | nil : Live issuer base [] []
  | cons {s : Sandbox AccountID MPTID} {chain : List (Sandbox AccountID MPTID)} {es : List (Event AccountID MPTID)}
      {log : List (List (Event AccountID MPTID))} (hs : Holds s.tab es)
      (hf : Follows issuer base (timeline (es :: log)) s.balance) (h : Live issuer base chain log) :
      Live issuer base (s :: chain) (es :: log)

variable {log : List (List (Event AccountID MPTID))} {chain : List (Sandbox AccountID MPTID)}

/-- Every chain of sandboxes holds its events. -/
theorem Runs.live (h : Runs issuer base chain log) : Live issuer base chain log := by
  have hempty : Holds (fun _ => none : DeferredCredits AccountID MPTID) [] := fun _ _ => rfl
  induction h with
  | init => exact .nil
  | createFirst h ih => exact .cons hempty .nil ih
  | create h ih =>
    refine .cons hempty ?_ ih
    cases ih with
    | cons hs hf h => simpa [timeline_cons] using hf
  | discard h ih =>
    cases ih with
    | cons hs hf h => exact h
  | apply h ih =>
    cases ih with
    | cons hs hf h =>
      cases h with
      | cons hp hfp h =>
        refine .cons (hs.apply hp) ?_ h
        simpa [timeline_cons] using hf
  | applyLast h ih => exact .nil
  | event h hm ih =>
    cases ih with
    | cons hs hf h =>
      refine .cons (hs.record hm) ?_ h
      rw [timeline_cons, ← append_assoc, ← timeline_cons]
      exact hf.snoc hm

/-! ## The hook -/

theorem toInt64_of_mem {i : Int} (hlo : -2 ^ 63 ≤ i) (hhi : i < 2 ^ 63) : toInt64 i = i := by
  unfold toInt64
  rw [Int.bmod_eq_of_le] <;> omega

variable {adj : IssuerValueMPT AccountID}

omit [DecidableEq AccountID] in
theorem visit_some (account : AccountID) (s : HookState) {v : HolderValueMPT} (h : adj.holders account = some v) :
    s.visit true account (some adj) =
      ⟨toInt64 (s.delta + v.debit.toNat), toInt64 v.origBalance.toNat, min (toInt64 v.origBalance.toNat) s.minBal⟩ := by
  simp only [HookState.visit, h, if_true]

omit [DecidableEq AccountID] in
theorem visit_none (account : AccountID) (s : HookState) (h : adj.holders account = none) :
    s.visit true account (some adj) = ⟨s.delta, s.lastBal, min s.lastBal s.minBal⟩ := by
  simp only [HookState.visit, h, if_true]

theorem exists_of_firstBalance {mptID : MPTID} {account : AccountID} {n : Nat}
    (h : firstBalance mptID account es = some n) :
    ∃ e ∈ es, ∃ v, e.holder mptID account = some v ∧ v.origBalance.toNat = n := by
  obtain ⟨v, hv, rfl⟩ := map_eq_some_iff.1 h
  obtain ⟨e, he, hev⟩ := exists_of_findSome?_eq_some hv
  exact ⟨e, he, v, hev, rfl⟩

/-- The balances that events find for a holder and the sum of its debits fit into a `std::int64_t`. -/
def InRange (mptID : MPTID) (account : AccountID) (es : List (Event AccountID MPTID)) : Prop :=
  (∀ e ∈ es, ∀ v, e.holder mptID account = some v → v.origBalance.toNat < 2 ^ 63) ∧ debits mptID account es < 2 ^ 63

/-- What a round of the loop does to the variables, at a table that holds `es`. -/
def Visited (mptID : MPTID) (account : AccountID) (es : List (Event AccountID MPTID)) (s s' : HookState) : Prop :=
  s'.delta = s.delta + debits mptID account es ∧
    s'.lastBal = ((firstBalance mptID account es).map Int.ofNat).getD s.lastBal ∧
    (s'.minBal = s.minBal ∨ s'.minBal = min s'.lastBal s.minBal)

/-- What a round of the hook reads from a table. -/
theorem visit_of_holds (h : Holds tab es) (mptID : MPTID) (account : AccountID) (hrange : InRange mptID account es)
    (s : HookState) (hdelta : 0 ≤ s.delta) (hsum : s.delta + debits mptID account es < 2 ^ 63) :
    Visited mptID account es s (s.visit true account (tab mptID)) := by
  have hdebit := summary_debit mptID account es
  rw [Nat.mod_eq_of_lt (by have := hrange.2; omega), ← h mptID account] at hdebit
  have horig := summary_origBalance mptID account es
  rw [← h mptID account] at horig
  unfold DeferredCredits.holder at hdebit horig
  cases htab : tab mptID with
  | none =>
    rw [htab] at hdebit horig
    refine ⟨?_, ?_, .inl rfl⟩
    · simp [HookState.visit, ← hdebit]
    · simp [HookState.visit, ← horig]
  | some adj =>
    rw [htab, bind_some] at hdebit horig
    cases hv : adj.holders account with
    | none =>
      rw [hv] at hdebit horig
      rw [visit_none account s hv]
      refine ⟨?_, ?_, .inr rfl⟩
      · simp [← hdebit]
      · simp [← horig]
    | some v =>
      rw [hv, map_some] at hdebit horig
      rw [getD_some] at hdebit
      obtain ⟨e, he, w, hw, hwv⟩ := exists_of_firstBalance horig.symm
      have hlt := hrange.1 e he w hw
      rw [visit_some account s hv]
      have hlast : toInt64 v.origBalance.toNat = v.origBalance.toNat := toInt64_of_mem (by omega) (by omega)
      rw [hdebit, hlast, toInt64_of_mem (by omega) hsum]
      exact ⟨rfl, by rw [← horig]; rfl, .inr rfl⟩

/-- The loop over a chain: the debits add up, the last balance seen is the first that was found, and the least balance
is bounded by whatever bounds the balances that were found. -/
theorem Live.foldl_visit (h : Live issuer base chain log) (mptID : MPTID) (account : AccountID)
    (hrange : InRange mptID account (timeline log)) (s : HookState) (hdelta : 0 ≤ s.delta)
    (hsum : s.delta + debits mptID account (timeline log) < 2 ^ 63) :
    let s' := ((chain.map Sandbox.tab).map (· mptID)).foldl (HookState.visit true account) s
    s'.delta = s.delta + debits mptID account (timeline log) ∧
      s'.lastBal = ((firstBalance mptID account (timeline log)).map Int.ofNat).getD s.lastBal ∧
      ∀ lo, lo ≤ s.lastBal → lo ≤ s.minBal →
        (∀ e ∈ timeline log, ∀ v, e.holder mptID account = some v → lo ≤ v.origBalance.toNat) → lo ≤ s'.minBal := by
  induction h generalizing s with
  | nil => exact ⟨by simp [timeline, debits], by simp [timeline, firstBalance], fun lo _ hlo _ => hlo⟩
  | @cons sb chain es log hs hf h ih =>
    rw [timeline_cons] at hrange hsum ⊢
    rw [debits_append] at hsum ⊢
    rw [firstBalance_append]
    obtain ⟨hr, hrd⟩ := hrange
    rw [debits_append] at hrd
    -- the table of the innermost sandbox comes first
    obtain ⟨hd, hl, hm⟩ := visit_of_holds hs mptID account
      ⟨fun e he => hr e (mem_append_right _ he), by omega⟩ s hdelta (by omega)
    obtain ⟨ihd, ihl, ihlo⟩ := ih ⟨fun e he => hr e (mem_append_left _ he), by omega⟩
      (s.visit true account (sb.tab mptID)) (by omega) (by omega)
    refine ⟨?_, ?_, ?_⟩
    · simp only [map_cons, foldl_cons, ihd, hd]
      omega
    · simp only [map_cons, foldl_cons, ihl, hl]
      cases firstBalance mptID account (timeline log) <;> simp
    · intro lo hlast hmin hes
      have hlast' : lo ≤ (s.visit true account (sb.tab mptID)).lastBal := by
        rw [hl]
        cases hfirst : firstBalance mptID account es with
        | none => exact hlast
        | some n =>
          obtain ⟨e, he, v, hv, rfl⟩ := exists_of_firstBalance hfirst
          exact hes e (mem_append_right _ he) v hv
      refine ihlo lo hlast' ?_ fun e he => hes e (mem_append_left _ he)
      rcases hm with hm | hm <;> rw [hm]
      · exact hmin
      · exact le_min hlast' hmin

/-- The events of a chain bound the balance it reached. -/
theorem Live.exists_bounded (h : Live issuer base chain log) (mptID : MPTID) (account : AccountID) :
    ∃ b, Bounded base b (timeline log) mptID account := by
  cases h with
  | nil => exact ⟨base, (Follows.nil : Follows issuer base [] base).bounded mptID account⟩
  | cons hs hf h => exact ⟨_, hf.bounded mptID account⟩

/-- What the hook answers: the current balance, without what was received since the first event. -/
theorem Live.hook_eq (h : Live issuer base chain log) {mptID : MPTID} {account : AccountID}
    (hne : account ≠ issuer mptID)
    (hrange : InRange mptID account (timeline log)) {amount : Int} (hlo : -2 ^ 63 ≤ amount) (hhi : amount < 2 ^ 63) :
    balanceHookMPT (chain.map Sandbox.tab) (issuer mptID) account mptID amount =
      max 0 (min amount (((firstBalance mptID account (timeline log)).map Int.ofNat).getD amount -
        debits mptID account (timeline log))) := by
  obtain ⟨hd, hl, hbound⟩ := h.foldl_visit mptID account hrange ⟨0, amount, amount⟩ le_rfl
    (by have := hrange.2; simp; omega)
  unfold balanceHookMPT
  simp only [hne, ne_eq, not_false_eq_true, decide_true]
  generalize ((chain.map Sandbox.tab).map (· mptID)).foldl (HookState.visit true account) ⟨0, amount, amount⟩ = s'
    at hd hl hbound
  generalize hb0 : ((firstBalance mptID account (timeline log)).map Int.ofNat).getD amount = b0 at hl ⊢
  have hdr := hrange.2
  obtain ⟨b, hb⟩ := h.exists_bounded mptID account
  -- no balance that was found lies below the first one without the debits
  have hfound : ∀ e ∈ timeline log, ∀ v, e.holder mptID account = some v →
      b0 - debits mptID account (timeline log) ≤ v.origBalance.toNat := by
    intro e he v hv
    have hbase := hb.found e he v hv
    obtain ⟨n, hn⟩ : ∃ n, firstBalance mptID account (timeline log) = some n := by
      cases hfirst : firstBalance mptID account (timeline log) with
      | some n => exact ⟨n, rfl⟩
      | none =>
        have := findSome?_eq_none_iff.1 (map_eq_none_iff.1 hfirst) e he
        rw [this] at hv
        cases hv
    have hbn := hb.first n hn
    rw [hn] at hb0
    simp only [map_some, getD_some, Int.ofNat_eq_natCast] at hb0
    omega
  have hmin : min amount (b0 - debits mptID account (timeline log)) ≤ s'.minBal :=
    hbound _ (min_le_left _ _) (min_le_left _ _) fun e he v hv => le_trans (min_le_right _ _) (hfound e he v hv)
  have hb0r : -2 ^ 63 ≤ b0 - debits mptID account (timeline log) ∧
      b0 - debits mptID account (timeline log) < 2 ^ 63 := by
    cases hfirst : firstBalance mptID account (timeline log) with
    | none =>
      have : debits mptID account (timeline log) = 0 := by
        refine debits_eq_zero fun e he => ?_
        exact findSome?_eq_none_iff.1 (map_eq_none_iff.1 hfirst) e he
      rw [hfirst] at hb0
      simp only [map_none, getD_none] at hb0
      omega
    | some n =>
      obtain ⟨e, he, v, hv, hvn⟩ := exists_of_firstBalance hfirst
      have := hrange.1 e he v hv
      rw [hfirst] at hb0
      simp only [map_some, getD_some, Int.ofNat_eq_natCast] at hb0
      omega
  rw [hl, hd, zero_add, toInt64_of_mem hb0r.1 hb0r.2, ← min_assoc, min_eq_left hmin]
  split_ifs with hpos
  · exact (max_eq_right (le_of_lt hpos)).symm
  · exact (max_eq_left (not_lt.1 hpos)).symm

/-- In every chain of sandboxes that comes about, the hook answers for a holder with what it had before its first event,
without its debits, if that is less than it has now. It answers the same before and after a sandbox is applied. -/
theorem Runs.balanceHookMPT_eq {issuer : MPTID → AccountID} {base : Balances AccountID MPTID}
    {chain : List (Sandbox AccountID MPTID)} {log : List (List (Event AccountID MPTID))}
    (h : Runs issuer base chain log)
    (mptID : MPTID) (account : AccountID) (hne : account ≠ issuer mptID) (hrange : InRange mptID account (timeline log))
    (amount : Int) (hlo : -2 ^ 63 ≤ amount) (hhi : amount < 2 ^ 63) :
    balanceHookMPT (chain.map Sandbox.tab) (issuer mptID) account mptID amount =
        max 0 (min amount (((firstBalance mptID account (timeline log)).map Int.ofNat).getD amount -
          debits mptID account (timeline log))) ∧
      ∀ s p rest, chain = s :: p :: rest →
        balanceHookMPT ((⟨s.tab.apply p.tab, s.balance⟩ :: rest).map Sandbox.tab) (issuer mptID) account mptID amount =
          balanceHookMPT (chain.map Sandbox.tab) (issuer mptID) account mptID amount := by
  refine ⟨h.live.hook_eq hne hrange hlo hhi, ?_⟩
  rintro s p rest rfl
  obtain ⟨es, fs, log, rfl⟩ : ∃ es fs rest, log = es :: fs :: rest := by
    cases h.live with
    | cons hs hf h' =>
      cases h' with
      | cons hp hfp h'' => exact ⟨_, _, _, rfl⟩
  have htime : timeline ((fs ++ es) :: log) = timeline (es :: fs :: log) := by simp [timeline]
  rw [h.live.hook_eq hne hrange hlo hhi, h.apply.live.hook_eq hne (htime ▸ hrange) hlo hhi, htime]

/-- A holder of 10 gets 5 in one sandbox and spends 3 in another one over it: of the 12 it has, 7 can be spent. -/
theorem balanceHookMPT_credit_then_debit :
    let issuer : Nat → Nat := fun _ => 0
    let b0 : Balances Nat Nat := fun _ _ => 10
    let credit : Event Nat Nat := .credit 7 1 5 10 0
    let debit : Event Nat Nat := .debit 7 1 3 15 0
    let outer : DeferredCredits Nat Nat := record issuer (fun _ => none) credit
    let inner : DeferredCredits Nat Nat := record issuer (fun _ => none) debit
    Runs issuer b0 [⟨inner, (b0.set 7 1 15).set 7 1 12⟩, ⟨outer, b0.set 7 1 15⟩] [[debit], [credit]] ∧
      balanceHookMPT [inner, outer] 0 1 7 12 = 7 ∧ balanceHookMPT [inner.apply outer] 0 1 7 12 = 7 := by
  intro issuer b0 credit debit outer inner
  have hcredit : Moves issuer b0 credit (b0.set 7 1 15) := Moves.credit (by decide) rfl
  have hdebit : Moves issuer (b0.set 7 1 15) debit ((b0.set 7 1 15).set 7 1 12) :=
    Moves.debit (by decide) rfl (by decide)
  have hrun := (Runs.init b0 : Runs issuer b0 [] []).createFirst.event hcredit |>.create.event hdebit
  have hrange : InRange 7 1 (timeline [[debit], [credit]]) := ⟨by decide, by decide⟩
  obtain ⟨hhook, happly⟩ := hrun.balanceHookMPT_eq 7 1 (by decide) hrange 12 (by decide) (by decide)
  have hvalue : max 0 (min 12 (((firstBalance 7 1 (timeline [[debit], [credit]])).map Int.ofNat).getD 12 -
      debits 7 1 (timeline [[debit], [credit]]))) = (7 : Int) := by decide
  exact ⟨hrun, hhook.trans hvalue, (happly _ _ _ rfl).trans (hhook.trans hvalue)⟩

end Rippled.Ledger
