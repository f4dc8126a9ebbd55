import Mathlib.Data.List.TakeWhile
import Rippled.TxQueue.AcceptRuns

/-!
# What a call of `apply` does to the queue

`Valid.apply`: a call returns, keeps `Valid`, and refuses the transaction, applies it or queues it (`Outcome`). What it
does to each entry is `Origin`, with what the checks say about blockers.
-/

namespace Rippled.TxQueue

open Lib List

variable {AccountID Rules View : Type} [LinearOrder AccountID]

/-! ## Clearing the queue of an account -/

/-- The entry after `preflight` ran again. -/
def MaybeTx.Refreshed (env : Env AccountID Rules View) (m m' : MaybeTx AccountID Rules) : Prop :=
  m'.toCandidate = m.toCandidate ∧
    (m'.pfResult = m.pfResult ∨ ∃ rules flags, m'.pfResult = env.preflightResult rules m.txn flags)

variable {q : TxQ AccountID Rules}

namespace TxQ

/-- A queue with the same candidates, where the entries of `updated` took the place of what was there. -/
structure Updated (q : TxQ AccountID Rules) (updated : List (MaybeTx AccountID Rules))
    (q' : TxQ AccountID Rules) : Prop where
  valid : q'.Valid
  settings : SameSettings q q'
  byFee : q'.byFee = q.byFee
  entry : ∀ account seqProxy m, q'.entry account seqProxy = some m →
    q.entry account seqProxy = some m ∨ (m ∈ updated ∧ account = m.account ∧ seqProxy = m.seqProxy)

/-- The loop replaces entries in place. -/
theorem Valid.foldlM_setTx (hq : q.Valid) {updated : List (MaybeTx AccountID Rules)}
    (hmem : ∀ m ∈ updated, m.toCandidate ∈ q.byFee) :
    ∃ q', updated.foldlM TxQ.setTx q = .ok q' ∧ Updated q updated q' := by
  induction updated generalizing q with
  | nil => exact ⟨q, rfl, hq, .refl q, rfl, fun _ _ _ => .inl⟩
  | cons m ms ih =>
    obtain ⟨q₁, hrun, hr⟩ := hq.setTx (hmem m mem_cons_self)
    obtain ⟨q', hrun', hu⟩ := ih hr.valid fun n hn => hr.byFee ▸ hmem n (mem_cons_of_mem _ hn)
    refine ⟨q', ?_, hu.valid, hr.settings.trans hu.settings, hu.byFee.trans hr.byFee, fun account seqProxy n hn => ?_⟩
    · rw [foldlM_cons, hrun]
      exact hrun'
    · rcases hu.entry account seqProxy n hn with hn | ⟨hn, hk⟩
      · rw [hr.entry] at hn
        split_ifs at hn with hk
        · cases hn
          exact .inr ⟨mem_cons_self, hk⟩
        · exact .inl hn
      · exact .inr ⟨mem_cons_of_mem _ hn, hk⟩

/-- A range of queued transactions is erased. -/
theorem Valid.eraseRange (hq : q.Valid) {range : List (MaybeTx AccountID Rules)}
    (hrange : (range.map (·.toCandidate)).Nodup) (hmem : ∀ m ∈ range, m.toCandidate ∈ q.byFee) :
    ∃ q', q.eraseRange range = .ok q' ∧ Shrunk q q' ∧
      ∀ d ∈ q.byFee, (∀ m ∈ range, m.toCandidate ≠ d) → d ∈ q'.byFee := by
  induction range generalizing q with
  | nil => exact ⟨q, rfl, .refl hq, fun _ hd _ => hd⟩
  | cons m range ih =>
    rw [map_cons, nodup_cons] at hrange
    obtain ⟨q₁, herase, he⟩ := hq.erase (hmem m mem_cons_self)
    obtain ⟨q', hrun, hshrunk, hkeep⟩ := ih he.valid hrange.2 fun n hn => he.mem_byFee.2
      ⟨hmem n (mem_cons_of_mem _ hn), fun heq => hrange.1 (mem_map.2 ⟨n, hn, heq⟩)⟩
    refine ⟨q', ?_, he.shrunk.trans hshrunk, fun d hd hne => ?_⟩
    · rw [TxQ.eraseRange, herase]
      exact hrun
    · refine hkeep d (he.mem_byFee.2 ⟨hd, (hne m mem_cons_self).symm⟩) fun n hn => hne n (mem_cons_of_mem _ hn)

end TxQ

namespace Attempt

omit [LinearOrder AccountID] in
theorem applyRange_refreshed [DecidableEq Rules] (env : Env AccountID Rules View) (view : View)
    (range : List (MaybeTx AccountID Rules)) :
    (applyRange env view range).1.map (·.toCandidate) = range.map (·.toCandidate) ∧
      ∀ m' ∈ (applyRange env view range).1, ∃ m ∈ range, m.Refreshed env m' := by
  induction range generalizing view with
  | nil => exact ⟨rfl, fun m' hm' => by cases hm'⟩
  | cons m range ih =>
    have hm : ∀ ter : TER, MaybeTx.Refreshed env m
        { (m.apply env view).2.1 with
          retriesRemaining := (m.apply env view).2.1.retriesRemaining - 1, lastResult := some ter } := by
      intro ter
      rw [m.apply_tx env view]
      exact ⟨m.toCandidate_refresh env view, m.pfResult_refresh env view⟩
    rw [applyRange]
    dsimp only
    split_ifs with hfail
    · refine ⟨?_, fun m' hm' => ?_⟩
      · rw [map_cons, map_cons, (hm _).1]
      · rcases mem_cons.1 hm' with rfl | hm'
        · exact ⟨m, mem_cons_self, hm _⟩
        · exact ⟨m', mem_cons_of_mem _ hm', rfl, .inl rfl⟩
    · obtain ⟨hmap, hfrom⟩ := ih (m.apply env view).2.2
      refine ⟨?_, fun m' hm' => ?_⟩
      · rw [map_cons, map_cons, (hm _).1, hmap]
      · rcases mem_cons.1 hm' with rfl | hm'
        · exact ⟨m, mem_cons_self, hm _⟩
        · obtain ⟨n, hn, hr⟩ := hfrom m' hm'
          exact ⟨n, mem_cons_of_mem _ hn, hr⟩

/-- What is said of the transactions that were touched: they come from the entries of the account that are not below its
sequence, and are before the new one. -/
def Touched (q : TxQ AccountID Rules) (env : Env AccountID Rules View)
    (x : Attempt AccountID Rules View) (account : AccountID)
    (seqProxy : SeqProxy) (m' : MaybeTx AccountID Rules) : Prop :=
  account = x.tx.account ∧ x.accSeq ≤ seqProxy ∧ seqProxy < x.txSeq ∧
    ∃ m, q.entry account seqProxy = some m ∧ m.Refreshed env m'

/-- The fields of the attempt are those of the queue. -/
structure Fits (x : Attempt AccountID Rules View) (q : TxQ AccountID Rules) : Prop where
  prevTxs : ∀ m, m ∈ x.prevTxs ↔ q.entry x.tx.account m.seqProxy = some m ∧ x.accSeq ≤ m.seqProxy
  sorted : x.prevTxs.Pairwise fun m n => m.seqProxy < n.seqProxy
  txToReplace : x.txToReplace = q.entry x.tx.account x.txSeq

structure Cleared (q : TxQ AccountID Rules) (env : Env AccountID Rules View)
    (x : Attempt AccountID Rules View) (applied : Bool) (q' : TxQ AccountID Rules) : Prop where
  valid : q'.Valid
  settings : TxQ.SameSettings q q'
  byFee : applied = false → q'.byFee = q.byFee
  sub : ∀ d ∈ q'.byFee, d ∈ q.byFee
  entry : ∀ account seqProxy m, q'.entry account seqProxy = some m →
    q.entry account seqProxy = some m ∨ Touched q env x account seqProxy m

theorem Cleared.unchanged (hq : q.Valid) (env : Env AccountID Rules View) (x : Attempt AccountID Rules View)
    (applied : Bool) : Cleared q env x applied q :=
  ⟨hq, .refl q, fun _ => rfl, fun _ => id, fun _ _ _ => .inl⟩

/-- The transactions of the range after they were applied. -/
structure AppliedRange (q : TxQ AccountID Rules) (env : Env AccountID Rules View) (x : Attempt AccountID Rules View)
    (updated : List (MaybeTx AccountID Rules)) : Prop where
  nodup : (updated.map (·.toCandidate)).Nodup
  mem_byFee : ∀ m ∈ updated, m.toCandidate ∈ q.byFee
  touched : ∀ m ∈ updated, Touched q env x m.account m.seqProxy m

variable {x : Attempt AccountID Rules View}

section
variable (hq : q.Valid) (env : Env AccountID Rules View) (hx : x.Fits q)
include hq hx

theorem Fits.appliedRange [DecidableEq Rules] (view : View) :
    AppliedRange q env x (applyRange env view (x.prevTxs.takeWhile (·.seqProxy < x.txSeq))).1 := by
  set range := x.prevTxs.takeWhile (·.seqProxy < x.txSeq)
  obtain ⟨hmap, hfrom⟩ := applyRange_refreshed env view range
  have hmem : ∀ m ∈ range, q.entry x.tx.account m.seqProxy = some m ∧ x.accSeq ≤ m.seqProxy ∧ m.seqProxy < x.txSeq := by
    intro m hm
    obtain ⟨hentry, hle⟩ := (hx.prevTxs m).1 ((takeWhile_sublist _).subset hm)
    have hlt := mem_takeWhile_imp hm
    exact ⟨hentry, hle, by simpa using hlt⟩
  refine ⟨?_, fun m' hm' => ?_, fun m' hm' => ?_⟩
  · rw [hmap]
    refine pairwise_map.2 ((hx.sorted.sublist (takeWhile_sublist _)).imp fun hlt heq => ?_)
    exact hlt.ne (congrArg Candidate.seqProxy heq)
  · obtain ⟨m, hm, hr⟩ := hfrom m' hm'
    rw [hr.1]
    exact hq.mem_byFee_of_entry (hmem m hm).1
  · obtain ⟨m, hm, hr⟩ := hfrom m' hm'
    obtain ⟨hentry, hle, hlt⟩ := hmem m hm
    have hacc : m'.account = x.tx.account :=
      (congrArg Candidate.account hr.1).trans (hq.account_of_entry hentry)
    have hseq : m'.seqProxy = m.seqProxy := congrArg Candidate.seqProxy hr.1
    rw [Touched, hacc, hseq]
    exact ⟨rfl, hle, hlt, m, hentry, hr⟩

/-- Nothing leaves the queue unless the transaction is applied. -/
theorem clearAccountQueueUpThruTx_spec [DecidableEq Rules] :
    ∃ r sandbox q', x.clearAccountQueueUpThruTx q env = .ok (r, sandbox, q') ∧ Cleared q env x r.applied q' ∧
      (r.applied = true → r.ter ≠ TER.terQUEUED) := by
  rw [clearAccountQueueUpThruTx]
  dsimp only
  split_ifs with hrequired
  · exact ⟨_, _, q, rfl, .unchanged hq env x _, fun h => Bool.noConfusion h⟩
  have happlied := hx.appliedRange hq env (env.sandbox x.view)
  obtain ⟨⟨updated, result⟩, hrange⟩ :
      ∃ p, applyRange env (env.sandbox x.view) (x.prevTxs.takeWhile (·.seqProxy < x.txSeq)) = p := ⟨_, rfl⟩
  rw [hrange] at happlied ⊢
  obtain ⟨hnodup, hmem, htouched⟩ := happlied
  obtain ⟨q₁, hset, hu⟩ := hq.foldlM_setTx hmem
  have hentry₁ : ∀ account seqProxy m, q₁.entry account seqProxy = some m →
      q.entry account seqProxy = some m ∨ Touched q env x account seqProxy m := by
    intro account seqProxy m hm
    rcases hu.entry account seqProxy m hm with h | ⟨h, rfl, rfl⟩
    · exact .inl h
    · exact .inr (htouched m h)
  have hcleared₁ : Cleared q env x false q₁ :=
    ⟨hu.valid, hu.settings, fun _ => hu.byFee, fun d hd => hu.byFee ▸ hd, hentry₁⟩
  rw [hset, Run.ok_bind]
  cases result with
  | error ter => exact ⟨_, _, q₁, rfl, hcleared₁, fun h => Bool.noConfusion h⟩
  | ok sandbox =>
    obtain ⟨⟨⟨ter, applied⟩, sandbox'⟩, hdoApply⟩ : ∃ p, env.doApply x.tx x.flags sandbox = p := ⟨_, rfl⟩
    simp only [hdoApply]
    cases applied with
    | false => exact ⟨_, _, q₁, rfl, hcleared₁, fun h => Bool.noConfusion h⟩
    | true =>
      obtain ⟨q₂, hrun₂, hshrunk₂, hkeep₂⟩ := hu.valid.eraseRange hnodup fun m hm => hu.byFee ▸ hmem m hm
      have hcleared₂ : ∀ q', TxQ.Shrunk q₁ q' → Cleared q env x true q' := by
        intro q' hs
        refine ⟨hs.valid, hu.settings.trans hs.settings, fun h => Bool.noConfusion h, fun d hd => ?_, ?_⟩
        · obtain ⟨m, hm, rfl⟩ := hs.valid.mem_byFee.1 hd
          rw [← hu.byFee]
          exact hu.valid.mem_byFee_of_entry (hs.entry _ _ _ hm)
        · exact fun account seqProxy m hm => hentry₁ _ _ _ (hs.entry _ _ _ hm)
      rw [if_neg (by simp), hrun₂, Run.ok_bind]
      cases hreplace : x.txToReplace with
      | none => exact ⟨_, _, q₂, rfl, hcleared₂ q₂ hshrunk₂, fun _ => ter.2⟩
      | some replacedTx =>
        rw [hx.txToReplace] at hreplace
        have hmem₂ : replacedTx.toCandidate ∈ q₂.byFee := by
          refine hkeep₂ _ (hu.byFee ▸ hq.mem_byFee_of_entry hreplace) fun m hm heq => ?_
          have hlt := (htouched m hm).2.2.1
          rw [show m.seqProxy = replacedTx.seqProxy from congrArg Candidate.seqProxy heq,
            TxQ.seqProxy_of_entry hreplace] at hlt
          exact hlt.ne rfl
        obtain ⟨q₃, hrun₃, he⟩ := hshrunk₂.valid.erase hmem₂
        dsimp only
        rw [hrun₃, Run.ok_bind]
        exact ⟨_, _, q₃, rfl, hcleared₂ q₃ (hshrunk₂.trans he.shrunk), fun _ => ter.2⟩

theorem tryClearAccountQueueUpThruTx_spec [DecidableEq Rules] (multiTxn : Option View) :
    ∃ cleared view q', x.tryClearAccountQueueUpThruTx q env multiTxn = .ok (cleared, view, q') ∧
      Cleared q env x cleared.isSome q' ∧ ∀ r, cleared = some r → r.applied = true ∧ r.ter ≠ TER.terQUEUED := by
  have hnone : ∀ {q'}, Cleared q env x false q' → ∃ cleared view q'',
      (Except.ok (none, x.view, q') : Run Exception (Option ApplyResult × View × TxQ AccountID Rules)) = .ok
        (cleared, view, q'') ∧
      Cleared q env x cleared.isSome q'' ∧ ∀ r, cleared = some r → r.applied = true ∧ r.ter ≠ TER.terQUEUED :=
    fun h => ⟨none, _, _, rfl, h, fun r hr => by cases hr⟩
  rw [tryClearAccountQueueUpThruTx]
  split
  · exact hnone (.unchanged hq env x false)
  · split_ifs with hworth
    · obtain ⟨r, sandbox, q', hrun, hcleared, hter⟩ := clearAccountQueueUpThruTx_spec hq env hx
      rw [hrun, Run.ok_bind]
      dsimp only
      split_ifs with happlied
      · rw [happlied] at hcleared
        refine ⟨some r, _, q', rfl, hcleared, fun r' hr' => ?_⟩
        cases hr'
        exact ⟨happlied, hter happlied⟩
      · rw [Bool.eq_false_iff.2 happlied] at hcleared
        exact hnone hcleared
    · exact hnone (.unchanged hq env x false)

end

/-! ## A full queue -/

/-- What a full queue does: it refuses, or the last entry of another account makes room. -/
inductive MadeRoom (q : TxQ AccountID Rules) (x : Attempt AccountID Rules View) :
    Except ApplyResult (TxQ AccountID Rules) → Prop
  | refused : MadeRoom q x (.error (refuse TER.telCAN_NOT_QUEUE_FULL))
  | unchanged (h : x.txToReplace = none → q.isFull 100 = false) : MadeRoom q x (.ok q)
  | dropped {q' : TxQ AccountID Rules} {drop : Candidate AccountID} (hreplace : x.txToReplace = none)
      (hfull : q.isFull 100 = true)
      (hmem : drop ∈ q.byFee) (hacc : drop.account ≠ x.tx.account)
      (hlast : ∀ d ∈ q.byFee, d.account = drop.account → d.seqProxy ≤ drop.seqProxy) (he : q.Erased drop q') :
      MadeRoom q x (.ok q')

/-- A full queue makes room, or refuses the transaction. -/
theorem processQueueIsFull_spec (hq : q.Valid) (x : Attempt AccountID Rules View) :
    ∃ r, x.processQueueIsFull q = .ok r ∧ MadeRoom q x r := by
  rw [processQueueIsFull]
  split_ifs with hfull
  · cases hfind : q.byFee.reverse.find? (·.account ≠ x.tx.account) with
    | none => exact ⟨_, rfl, .refused⟩
    | some last =>
      have hmem : last ∈ q.byFee := mem_reverse.1 (mem_of_find?_eq_some hfind)
      have hacc : last.account ≠ x.tx.account := by simpa using find?_some hfind
      obtain ⟨a, m, hat, ha, hm, -⟩ := hq.accountAt hmem
      dsimp only
      rw [hat, Run.ok_bind]
      split_ifs with hfee
      · cases hdrop : a.transactions.toList.getLast? with
        | none =>
          rw [getLast?_eq_none_iff] at hdrop
          rw [KeyedMap.find_eq_some, hdrop] at hm
          cases hm.1
        | some drop =>
          obtain ⟨hdropmem, hdropacc, hlast⟩ := hq.last ha hdrop
          obtain ⟨q', herase, he⟩ := hq.erase hdropmem
          refine ⟨.ok q', ?_, .dropped hfull.1 hfull.2 hdropmem (hdropacc.trans_ne hacc) hlast he⟩
          dsimp only
          rw [herase]
          rfl
      · exact ⟨_, rfl, .refused⟩
  · exact ⟨_, rfl, .unchanged fun hnone => Bool.eq_false_iff.2 fun h => hfull ⟨hnone, h⟩⟩

/-! ## Queueing a transaction -/

/-- The queue after a transaction was added, with what makes room for it. -/
inductive Queued (q : TxQ AccountID Rules) (tx : STTx AccountID) (q' : TxQ AccountID Rules) : Prop
  | added (c : Candidate AccountID) (htx : c.txn = tx) (hfull : q.isFull 100 = false)
      (hbyFee : q'.byFee.Perm (c :: q.byFee))
  | replaced (c r : Candidate AccountID) (htx : c.txn = tx) (hmem : r ∈ q.byFee)
      (hsame : r.account = tx.account ∧ r.seqProxy = tx.getSeqProxy)
      (hfee : increase r.feeLevel q.setup.retrySequencePercent < c.feeLevel)
      (hbyFee : q'.byFee.Perm (c :: q.byFee.filter (· ≠ r)))
  | dropped (c r : Candidate AccountID) (htx : c.txn = tx) (hfull : q.isFull 100 = true) (hmem : r ∈ q.byFee)
      (hacc : r.account ≠ tx.account) (hlast : ∀ d ∈ q.byFee, d.account = r.account → d.seqProxy ≤ r.seqProxy)
      (hbyFee : q'.byFee.Perm (c :: q.byFee.filter (· ≠ r)))

/-- What `apply` makes of the queued transactions. -/
inductive Outcome (q : TxQ AccountID Rules) (tx : STTx AccountID) (q' : TxQ AccountID Rules) : ApplyResult → Prop
  | refused {ter : TER} (hter : ter ≠ TER.terQUEUED) (hbyFee : q'.byFee = q.byFee) : Outcome q tx q' ⟨ter, false⟩
  | applied {ter : TER} (hter : ter ≠ TER.terQUEUED) (hsub : ∀ d ∈ q'.byFee, d ∈ q.byFee) : Outcome q tx q' ⟨ter, true⟩
  | queued (h : Queued q tx q') : Outcome q tx q' ⟨TER.terQUEUED, false⟩

/-- The transaction passed the checks about blockers: a blocker takes the place of whatever else is not below the
sequence of the account, and a blocker that is alone there is the one that is replaced. -/
structure Admitted (q : TxQ AccountID Rules) (tx : STTx AccountID) (root : AccountRoot) : Prop where
  blocker : tx.kind = .blocker → ∀ seqProxy m, q.entry tx.account seqProxy = some m →
    .rawSequence root.sequence ≤ seqProxy →
    seqProxy = tx.getSeqProxy
  behind : ∀ seqProxy m, q.entry tx.account seqProxy = some m → .rawSequence root.sequence ≤ seqProxy →
    m.consequences.isBlocker = true →
    (∀ seqProxy' m', q.entry tx.account seqProxy' = some m' →
      .rawSequence root.sequence ≤ seqProxy' → seqProxy' = seqProxy) →
    seqProxy = tx.getSeqProxy

/-- Where an entry of the queue after `apply` comes from. -/
inductive Origin (env : Env AccountID Rules View) (q : TxQ AccountID Rules) (view : View) (tx : STTx AccountID)
    (account : AccountID) (seqProxy : SeqProxy) (m' : MaybeTx AccountID Rules) : Prop
  | same (h : q.entry account seqProxy = some m')
  | refreshed {root : AccountRoot} {m : MaybeTx AccountID Rules} (hroot : env.account view tx.account = some root)
      (hadmitted : Admitted q tx root) (hacc : account = tx.account) (hlive : .rawSequence root.sequence ≤ seqProxy)
      (hlt : seqProxy < tx.getSeqProxy) (hm : q.entry account seqProxy = some m) (hr : m.Refreshed env m')
  | queued {root : AccountRoot} (hroot : env.account view tx.account = some root) (hadmitted : Admitted q tx root)
      (hacc : account = tx.account) (hseq : seqProxy = tx.getSeqProxy) (htx : m'.txn = tx) (hkept : m'.Kept env)

structure ApplyPost (env : Env AccountID Rules View) (q : TxQ AccountID Rules) (view : View) (tx : STTx AccountID)
    (r : ApplyResult) (q' : TxQ AccountID Rules) : Prop where
  valid : q'.Valid
  maxSize : q'.maxSize = q.maxSize
  outcome : Outcome q tx q' r
  origin : ∀ account seqProxy m, q'.entry account seqProxy = some m → Origin env q view tx account seqProxy m

theorem ApplyPost.refused {env : Env AccountID Rules View} (hq : q.Valid) (view : View)
    (tx : STTx AccountID) {ter : TER} (hter : ter ≠ TER.terQUEUED) : ApplyPost env q view tx (refuse ter) q :=
  ⟨hq, rfl, .refused hter rfl, fun _ _ _ => .same⟩

/-- The transaction is refused, and not queued. -/
def Refusal (r : ApplyResult) : Prop := ∃ ter, ter ≠ TER.terQUEUED ∧ r = refuse ter

variable {env : Env AccountID Rules View}

/-- The transaction may be queued by `queueTx`. -/
structure Ready (env : Env AccountID Rules View) (q : TxQ AccountID Rules)
    (x : Attempt AccountID Rules View) : Prop where
  fits : x.Fits q
  root : env.account x.view x.tx.account = some x.root
  admitted : Admitted q x.tx x.root
  kept : (MaybeTx.make x.tx x.feeLevelPaid (x.flags &&& ~~~tapRetry) x.preflightRes).Kept env
  fee : ∀ r, x.txToReplace = some r → increase r.feeLevel q.setup.retrySequencePercent < x.feeLevelPaid

theorem Ready.origin_cleared (hx : x.Ready env q) {applied : Bool} {q' : TxQ AccountID Rules}
    (h : Cleared q env x applied q')
    {account : AccountID} {seqProxy : SeqProxy} {m : MaybeTx AccountID Rules}
    (hm : q'.entry account seqProxy = some m) : Origin env q x.view x.tx account seqProxy m := by
  rcases h.entry account seqProxy m hm with hm | ⟨hacc, hlive, hlt, m₀, hm₀, hr⟩
  · exact .same hm
  · exact .refreshed hx.root hx.admitted hacc hlive hlt hm₀ hr

/-- The transaction is added to a queue from which others may have gone. -/
theorem Ready.add (hx : x.Ready env q) {q₁ q₂ : TxQ AccountID Rules} (hcleared : Cleared q env x false q₁)
    (hs : TxQ.Shrunk q₁ q₂) (hnone : q₂.entry x.tx.account x.txSeq = none)
    (hqueued : ∀ q', q'.byFee.Perm (x.candidate :: q₂.byFee) → Queued q x.tx q') :
    ApplyPost env q x.view x.tx ⟨TER.terQUEUED, false⟩ (x.addTxToQueue q₂) := by
  have hadded := hs.valid.addTxToQueue x hnone
  have hmax := (hcleared.settings.trans hs.settings).trans hadded.settings
  refine ⟨hadded.valid, hmax.maxSize, .queued (hqueued _ hadded.byFee), fun account seqProxy m hm => ?_⟩
  rw [hadded.entry] at hm
  split_ifs at hm with hk
  · cases hm
    exact .queued hx.root hx.admitted hk.1 hk.2 rfl hx.kept
  · exact hx.origin_cleared hcleared (hs.entry account seqProxy m hm)

theorem canBeHeldTer_ne (q : TxQ AccountID Rules) (env : Env AccountID Rules View) (x : Attempt AccountID Rules View) :
    x.canBeHeldTer q env ≠ TER.terQUEUED := by
  have hite : ∀ {c : Prop} [Decidable c] {ter ter' : TER}, ter ≠ TER.terQUEUED → ter' ≠ TER.terQUEUED →
      (if c then ter else ter') ≠ TER.terQUEUED := by
    intro c _ ter ter' h h'
    split
    · exact h
    · exact h'
  unfold canBeHeldTer
  iterate 5 refine hite (by decide) ?_
  split
  · decide
  · iterate 4 refine hite (by decide) ?_
    split
    · decide
    · exact hite (by decide) (by decide)

theorem canBeHeld_eq_some {multiTxn : Option View} {err : ApplyResult} (h : x.canBeHeld q env multiTxn = some err) :
    Refusal err := by
  rw [canBeHeld] at h
  dsimp only at h
  split_ifs at h
  exact ⟨_, canBeHeldTer_ne q env x, (Option.some.inj h).symm⟩

/-- A transaction that cannot be applied is queued or refused. -/
theorem queueTx_spec [DecidableEq Rules] (hq : q.Valid) (hx : x.Ready env q) (multiTxn : Option View) :
    ∃ r view' q', x.queueTx q env multiTxn = .ok (r, view', q') ∧ ApplyPost env q x.view x.tx r q' := by
  rw [queueTx]
  dsimp only
  split_ifs with hclaim
  · exact ⟨_, _, q, rfl, .refused hq _ _ (env.preclaim x.tx x.flags (multiTxn.getD x.view)).ter.2⟩
  obtain ⟨cleared, view, q₁, hrun, hcleared, hresult⟩ := tryClearAccountQueueUpThruTx_spec hq env hx.fits multiTxn
  rw [hrun, Run.ok_bind]
  cases cleared with
  | some r =>
    obtain ⟨happlied, hter⟩ := hresult r rfl
    obtain ⟨ter, applied⟩ := r
    cases happlied
    exact ⟨_, _, q₁, rfl, hcleared.valid, hcleared.settings.maxSize, .applied hter hcleared.sub,
      fun _ _ _ hm => hx.origin_cleared hcleared hm⟩
  | none =>
    have hbyFee : q₁.byFee = q.byFee := hcleared.byFee rfl
    have hrefused : ∀ {ter : TER}, ter ≠ TER.terQUEUED → ApplyPost env q x.view x.tx (refuse ter) q₁ := fun hter =>
      ⟨hcleared.valid, hcleared.settings.maxSize, .refused hter hbyFee, fun _ _ _ hm => hx.origin_cleared hcleared hm⟩
    have hisFull : q₁.isFull 100 = q.isFull 100 := by rw [TxQ.isFull, TxQ.isFull, hcleared.settings.maxSize, hbyFee]
    have hnone₁ : x.txToReplace = none → q₁.entry x.tx.account x.txSeq = none := by
      intro hnone
      rw [hx.fits.txToReplace] at hnone
      rw [Option.eq_none_iff_forall_ne_some]
      intro m hm
      rcases hcleared.entry _ _ _ hm with hm | ⟨-, -, hlt, -⟩
      · rw [hnone] at hm
        cases hm
      · exact hlt.ne rfl
    cases hheld : x.canBeHeld q₁ env multiTxn with
    | some err =>
      obtain ⟨ter, hter, rfl⟩ := canBeHeld_eq_some hheld
      exact ⟨_, _, q₁, rfl, hrefused hter⟩
    | none =>
      obtain ⟨room, hroom, hmade⟩ := processQueueIsFull_spec hcleared.valid x
      rw [hroom, Run.ok_bind]
      cases hmade with
      | refused => exact ⟨_, _, q₁, rfl, hrefused (by decide)⟩
      | unchanged hfull =>
        cases hreplace : x.txToReplace with
        | none =>
          refine ⟨_, _, _, rfl, hx.add hcleared (.refl hcleared.valid) (hnone₁ hreplace) ?_⟩
          intro q' hperm
          exact .added x.candidate rfl (hisFull ▸ hfull hreplace) (hbyFee ▸ hperm)
        | some replacedTx =>
          have hentry : q.entry x.tx.account x.txSeq = some replacedTx := hx.fits.txToReplace ▸ hreplace
          have hmem : replacedTx.toCandidate ∈ q.byFee := hq.mem_byFee_of_entry hentry
          obtain ⟨q₂, herase, he⟩ := hcleared.valid.erase (hbyFee ▸ hmem : replacedTx.toCandidate ∈ q₁.byFee)
          have hsame : replacedTx.account = x.tx.account ∧ replacedTx.seqProxy = x.txSeq :=
            ⟨hq.account_of_entry hentry, TxQ.seqProxy_of_entry hentry⟩
          dsimp only
          rw [herase, Run.ok_bind]
          refine ⟨_, _, _, rfl, hx.add hcleared he.shrunk ?_ ?_⟩
          · rw [he.entry, if_pos ⟨hsame.1.symm, hsame.2.symm⟩]
          · intro q' hperm
            rw [he.byFee, hbyFee] at hperm
            exact .replaced x.candidate replacedTx.toCandidate rfl hmem hsame (hx.fee _ hreplace) hperm
      | dropped hreplace hfull hmem hacc hlast he =>
        rw [hreplace]
        refine ⟨_, _, _, rfl, hx.add hcleared he.shrunk ?_ ?_⟩
        · rw [he.entry, hnone₁ hreplace]
          exact ite_self _
        · intro q' hperm
          rw [he.byFee, hbyFee] at hperm
          rw [hbyFee] at hmem hlast
          exact .dropped x.candidate _ rfl (hisFull ▸ hfull) hmem hacc hlast hperm

/-! ## The checks -/

variable {err : ApplyResult}

omit [LinearOrder AccountID] in
theorem checkIsTxBlocker_eq_some (h : x.checkIsTxBlocker = some err) : err = refuse TER.telCAN_NOT_QUEUE_BLOCKS := by
  unfold checkIsTxBlocker at h
  repeat' split at h
  all_goals cases h
  all_goals rfl

theorem checkFeeLevel_eq_some (h : x.checkFeeLevel q = some err) : err = refuse TER.telCAN_NOT_QUEUE_FEE := by
  unfold checkFeeLevel at h
  repeat' split at h
  all_goals cases h
  rfl

theorem checkBlockerInAccQue_eq_some (h : x.checkBlockerInAccQue q = some err) : Refusal err := by
  unfold checkBlockerInAccQue at h
  split at h
  · cases h
  · split_ifs at h
    · cases h
      exact ⟨_, by decide, rfl⟩
    · exact ⟨_, by decide, checkFeeLevel_eq_some h⟩
  · exact ⟨_, by decide, checkFeeLevel_eq_some h⟩

theorem checkFrontTx_eq_some {prev : Option (MaybeTx AccountID Rules)} (h : x.checkFrontTx q prev = some err) :
    Refusal err := by
  unfold checkFrontTx at h
  split_ifs at h <;> cases h <;> exact ⟨_, by decide, rfl⟩

theorem checkMultiTxn_eq_error (h : x.checkMultiTxn q env = .error err) : Refusal err := by
  rw [checkMultiTxn] at h
  dsimp only at h
  split_ifs at h
  cases h
  exact ⟨_, canBeHeldTer_ne q env x, rfl⟩

theorem processAccountTxs_eq_error (h : x.processAccountTxs q env = .error err) : Refusal err := by
  rw [processAccountTxs] at h
  by_cases hpast : x.accSeq > x.txSeq
  · rw [if_pos hpast] at h
    cases h
    exact ⟨_, by decide, rfl⟩
  · rw [if_neg hpast] at h
    split at h
    · rename_i hmulti
      cases h
      exact checkMultiTxn_eq_error hmulti
    · cases h
    · split at h
      · rename_i hfront
        cases h
        exact checkFrontTx_eq_some hfront
      · dsimp only at h
        split at h
        · cases h
          exact ⟨_, by decide, rfl⟩
        · split at h
          · cases h
            exact ⟨_, by decide, rfl⟩
          · cases h

/-- What the checks on blockers establish. -/
theorem Fits.admitted (hx : x.Fits q) (hconsequences : x.preflightRes.consequences = .make x.tx)
    (hblocker : x.checkIsTxBlocker = none) (hbehind : x.checkBlockerInAccQue q = none) : Admitted q x.tx x.root := by
  have hmem : ∀ {seqProxy m}, q.entry x.tx.account seqProxy = some m →
      .rawSequence x.root.sequence ≤ seqProxy → m ∈ x.prevTxs := by
    intro seqProxy m hm hlive
    obtain rfl := TxQ.seqProxy_of_entry hm
    exact (hx.prevTxs m).2 ⟨hm, hlive⟩
  constructor
  · intro hkind seqProxy m hm hlive
    have hm' := hmem hm hlive
    have his : x.preflightRes.consequences.isBlocker = true := by rw [hconsequences, TxConsequences.make, hkind]
    rw [checkIsTxBlocker, if_pos his] at hblocker
    match hprev : x.prevTxs with
    | [] =>
      rw [hprev] at hm'
      cases hm'
    | [n] =>
      rw [accTxCount, hprev] at hblocker
      rw [hprev, mem_singleton] at hm'
      obtain rfl := TxQ.seqProxy_of_entry hm
      subst hm'
      by_contra hne
      rw [if_neg (by simp)] at hblocker
      dsimp only at hblocker
      rw [if_pos (show x.txSeq ≠ m.seqProxy from Ne.symm hne)] at hblocker
      cases hblocker
    | n :: n' :: rest =>
      rw [accTxCount, hprev, if_pos (by simp)] at hblocker
      cases hblocker
  · intro seqProxy m hm hlive his halone
    have hm' := hmem hm hlive
    match hprev : x.prevTxs with
    | [] =>
      rw [hprev] at hm'
      cases hm'
    | [n] =>
      rw [hprev, mem_singleton] at hm'
      subst hm'
      obtain rfl := TxQ.seqProxy_of_entry hm
      by_contra hne
      rw [checkBlockerInAccQue, hprev] at hbehind
      dsimp only at hbehind
      rw [if_pos ⟨his, hne⟩] at hbehind
      cases hbehind
    | n :: n' :: rest =>
      -- two of them would have one key
      have hsorted := hx.sorted
      rw [hprev] at hsorted
      have hlt : n.seqProxy < n'.seqProxy := (pairwise_cons.1 hsorted).1 n' mem_cons_self
      have hkey : ∀ k ∈ x.prevTxs, k.seqProxy = seqProxy := fun k hk =>
        halone k.seqProxy k ((hx.prevTxs k).1 hk).1 ((hx.prevTxs k).1 hk).2
      rw [hkey n (by simp [hprev]), hkey n' (by simp [hprev])] at hlt
      exact absurd rfl hlt.ne

/-- Where other entries of the account count, the entry that is replaced pays too little. -/
theorem increase_lt_of_checkBlockerInAccQue (h : x.checkBlockerInAccQue q = none) (hprev : x.prevTxs ≠ [])
    {r : MaybeTx AccountID Rules} (hr : x.txToReplace = some r) :
    increase r.feeLevel q.setup.retrySequencePercent < x.feeLevelPaid := by
  have hfee : x.checkFeeLevel q = none := by
    unfold checkBlockerInAccQue at h
    split at h
    · exact absurd ‹_› hprev
    · split_ifs at h
      exact h
    · exact h
  rw [checkFeeLevel, hr] at hfee
  dsimp only at hfee
  split_ifs at hfee with hlt
  exact hlt

end Attempt

/-! ## The call of `apply` -/

namespace TxQ

open Attempt

section Apply

variable (env : Env AccountID Rules View) {q : TxQ AccountID Rules} (view : View) (tx : STTx AccountID)
  (flags : ApplyFlags)

theorem attempt_fits (q : TxQ AccountID Rules) (preflightRes : PreflightResult Rules) (root : AccountRoot)
    (feeLevelPaid : FeeLevel64) : (q.attempt env view tx flags preflightRes root feeLevelPaid).Fits q := by
  refine ⟨fun m => ?_, ?_, rfl⟩
  · change m ∈ ((q.byAccount.find tx.account).map fun t =>
        t.transactions.lowerBound (.rawSequence root.sequence)).getD [] ↔
      q.entry tx.account m.seqProxy = some m ∧ .rawSequence root.sequence ≤ m.seqProxy
    cases hfind : q.byAccount.find tx.account with
    | none => simp [entry, hfind]
    | some t =>
      rw [entry_of_find hfind, Option.map_some, Option.getD_some, KeyedMap.mem_lowerBound, KeyedMap.mem_toList]
      rfl
  · change (((q.byAccount.find tx.account).map fun t =>
      t.transactions.lowerBound (.rawSequence root.sequence)).getD []).Pairwise _
    cases hfind : q.byAccount.find tx.account with
    | none => exact .nil
    | some t => exact t.transactions.increasing_lowerBound _

/-- `applyImpl` ends, and keeps both indexes in step. -/
theorem applyImpl_spec [DecidableEq Rules] (hq : q.Valid) {root : AccountRoot}
    (hroot : env.account view tx.account = some root)
    (hsuccess : TER.isTesSuccess (env.preflight (env.rules view) tx flags).1 = true) :
    ∃ r view' q',
      q.applyImpl env view tx flags (env.preflightResult (env.rules view) tx flags) root = .ok (r, view', q') ∧
      ApplyPost env q view tx r q' := by
  rw [applyImpl]
  cases hblocker :
      (q.attempt env view tx flags (env.preflightResult (env.rules view) tx flags) root 0).checkIsTxBlocker with
  | some err =>
    rw [checkIsTxBlocker_eq_some hblocker]
    exact ⟨_, _, q, rfl, .refused hq view tx (by decide)⟩
  | none =>
    cases hfee : getFeeLevelPaid env view tx with
    | error ter => exact ⟨_, _, q, rfl, .refused hq view tx ter.2⟩
    | ok feeLevelPaid =>
      obtain ⟨x, hx⟩ : ∃ x, q.attempt env view tx flags
          (env.preflightResult (env.rules view) tx flags) root feeLevelPaid = x :=
        ⟨_, rfl⟩
      have hfits : x.Fits q := hx ▸ attempt_fits ..
      have hconsequences : x.preflightRes.consequences = .make x.tx := by
        rw [← hx]
        exact if_pos hsuccess
      dsimp only
      rw [hx]
      cases hbehind : x.checkBlockerInAccQue q with
      | some err =>
        obtain ⟨ter, hter, rfl⟩ := checkBlockerInAccQue_eq_some hbehind
        exact ⟨_, _, q, rfl, .refused hq view tx hter⟩
      | none =>
        have hready : (∀ r, x.txToReplace = some r → x.prevTxs ≠ []) → x.Ready env q := by
          intro hprev
          refine ⟨hfits, by rw [← hx]; exact hroot,
            hfits.admitted hconsequences (by rw [← hx]; exact hblocker) hbehind, ?_, ?_⟩
          · have hter : TER.isTesSuccess x.preflightRes.ter.1 = true := by
              rw [← hx]
              exact hsuccess
            refine ⟨?_, ⟨env.rules view, flags, ?_⟩, fun _ => hter⟩
            · change x.preflightRes.consequences = if TER.isTesSuccess x.preflightRes.ter.1 then .make x.tx else .failed
              rw [hconsequences, if_pos hter]
            · change TER.isTesSuccess (env.preflight (env.rules view) x.tx flags).1 = true
              rw [← hx]
              exact hsuccess
          · exact fun r hr => increase_lt_of_checkBlockerInAccQue hbehind (hprev r hr) hr
        have hview : x.view = view ∧ x.tx = tx := by
          rw [← hx]
          exact ⟨rfl, rfl⟩
        have hqueueTx : (∀ r, x.txToReplace = some r → x.prevTxs ≠ []) → ∀ multiTxn, ∃ r view' q',
            x.queueTx q env multiTxn = .ok (r, view', q') ∧ ApplyPost env q view tx r q' := by
          intro hprev multiTxn
          have h := queueTx_spec hq (hready hprev) multiTxn
          rwa [hview.1, hview.2] at h
        by_cases hcount : x.accTxCount = 0
        · rw [if_pos hcount]
          split_ifs with hpast hpre
          · exact ⟨_, _, q, rfl, .refused hq view tx (by decide)⟩
          · exact ⟨_, _, q, rfl, .refused hq view tx (by decide)⟩
          · -- an entry that the transaction could replace is not below the sequence of the account
            refine hqueueTx (fun r hr hprev => ?_) none
            rw [hfits.txToReplace] at hr
            have hseq := seqProxy_of_entry hr
            have hlt : x.txSeq < x.accSeq := by
              by_contra hle
              have hmem := (hfits.prevTxs r).2 ⟨hseq ▸ hr, hseq ▸ not_lt.1 hle⟩
              rw [hprev] at hmem
              cases hmem
            refine hpast ⟨SeqProxy.rank_lt_iff_isSeq.1 ?_, hlt⟩
            exact (SeqProxy.lt_iff.1 hlt).trans x.root.sequence.toNat_lt_size
        · rw [if_neg hcount]
          have hprev : x.prevTxs ≠ [] := fun hnil => hcount (by rw [accTxCount, hnil, length_nil])
          cases hprocess : x.processAccountTxs q env with
          | error err =>
            obtain ⟨ter, hter, rfl⟩ := processAccountTxs_eq_error hprocess
            exact ⟨_, _, q, rfl, .refused hq view tx hter⟩
          | ok multiTxn => exact hqueueTx (fun _ _ => hprev) multiTxn

/-- A transaction is applied directly, or left to the queue. -/
theorem tryDirectApply_spec (hq : q.Valid) :
    q.tryDirectApply env view tx flags = .ok none ∨
      ∃ r view' q', q.tryDirectApply env view tx flags = .ok (some (r, view', q')) ∧ ApplyPost env q view tx r q' := by
  obtain ⟨⟨⟨ter, applied⟩, view'⟩, happly⟩ : ∃ p, env.apply view tx flags = p := ⟨_, rfl⟩
  rw [tryDirectApply]
  simp only [happly]
  cases env.account view tx.account with
  | none => exact .inl rfl
  | some root =>
    by_cases hseq : tx.getSeqProxy.isSeq ∧ tx.getSeqProxy ≠ .rawSequence root.sequence
    · exact .inl (if_pos hseq)
    · dsimp only
      rw [if_neg hseq]
      cases getFeeLevelPaid env view tx with
      | error ter => exact .inr ⟨_, _, q, rfl, .refused hq view tx ter.2⟩
      | ok feeLevelPaid =>
        by_cases hfee : feeLevelPaid ≥ getRequiredFeeLevel env q.feeMetrics.getSnapshot view
        · dsimp only
          rw [if_pos hfee]
          cases applied with
          | false => exact .inr ⟨_, _, q, rfl, .refused hq view tx ter.2⟩
          | true =>
            rw [if_pos rfl]
            cases hfind : (q.byAccount.find tx.account).bind (·.transactions.find tx.getSeqProxy) with
            | none => exact .inr ⟨_, _, q, rfl, hq, rfl, .applied ter.2 fun _ => id, fun _ _ _ => .same⟩
            | some replacedTx =>
              obtain ⟨q', herase, he⟩ := hq.erase (hq.mem_byFee_of_entry hfind)
              refine .inr ⟨⟨ter.1, true⟩, view', q', ?_, he.valid, he.settings.maxSize,
                .applied ter.2 fun d hd => (he.mem_byFee.1 hd).1, fun _ _ _ hm => .same (he.entry_of_some hm).1⟩
              dsimp only
              rw [herase]
              rfl
        · exact .inl (if_neg hfee)

theorem Valid.apply [DecidableEq Rules] (hq : q.Valid) :
    ∃ r view' q', q.apply env view tx flags = .ok (r, view', q') ∧ ApplyPost env q view tx r q' := by
  rw [TxQ.apply]
  by_cases hsuccess : TER.isTesSuccess (env.preflight (env.rules view) tx flags).1 = true
  · rw [if_neg (by simpa [Env.preflightResult] using hsuccess)]
    rcases tryDirectApply_spec env view tx flags hq with hdirect | ⟨r, view', q', hdirect, hpost⟩
    · rw [hdirect, Run.ok_bind]
      split_ifs with hdry
      · exact ⟨_, _, q, rfl, .refused hq view tx (by decide)⟩
      · cases hroot : env.account view tx.account with
        | none => exact ⟨_, _, q, rfl, .refused hq view tx (by decide)⟩
        | some root =>
          dsimp only
          cases hticket : checkTicketInLedger env view tx root with
          | some err =>
            unfold checkTicketInLedger at hticket
            split_ifs at hticket <;> cases hticket <;> exact ⟨_, _, q, rfl, .refused hq view tx (by decide)⟩
          | none => exact applyImpl_spec env view tx flags hq hroot hsuccess
    · rw [hdirect, Run.ok_bind]
      exact ⟨r, view', q', rfl, hpost⟩
  · rw [if_pos (by simpa [Env.preflightResult] using hsuccess)]
    exact ⟨_, _, q, rfl, .refused hq view tx (env.preflight (env.rules view) tx flags).2⟩

end Apply

end TxQ

end Rippled.TxQueue
