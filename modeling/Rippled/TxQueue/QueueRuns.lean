import Rippled.TxQueue.ApplySteps

/-!
# What holds of the queue in every run

Each call of `apply`, `accept` and `processClosedLedger` returns and keeps `Valid`. A call of `apply` that queues a
transaction takes at most one other out, and one that neither queues nor applies leaves the queued transactions as they
are. A queued blocker stays alone in the queue of its account (`queue_run`).
-/

namespace Rippled.TxQueue

open Lib List

variable {AccountID Rules View : Type} [LinearOrder AccountID]

namespace TxQ

/-! ## Closed ledgers -/

section ClosedLedger

variable {q : TxQ AccountID Rules}

theorem Valid.expireCandidate (hq : q.Valid) (ledgerSeq : UInt32) {c : Candidate AccountID} (hc : c ∈ q.byFee) :
    ∃ q', q.expireCandidate ledgerSeq c = .ok q' ∧ Shrunk q q' ∧ ∀ d ∈ q.byFee, d ≠ c → d ∈ q'.byFee := by
  rw [TxQ.expireCandidate]
  split_ifs with hexpired
  · obtain ⟨a, -, hat, ha, -, -⟩ := hq.accountAt hc
    have ha' : q.byAccount.find a.account = some a := by
      rw [show a.account = c.account from KeyedMap.key_of_find ha]
      exact ha
    obtain ⟨hvalid, hentry⟩ := hq.setAccount (b := { a with dropPenalty := true }) ha' rfl
    obtain ⟨q', herase, he⟩ := hvalid.erase (c := c) hc
    rw [hat]
    obtain ⟨hsetup, hmetrics, hmax, hparent⟩ := he.settings
    refine ⟨q', herase, ⟨he.valid, ⟨hsetup, hmetrics, hmax, hparent⟩, ?_⟩, fun d hd hne => he.mem_byFee.2 ⟨hd, hne⟩⟩
    intro account seqProxy m hm
    rw [← hentry]
    exact (he.entry_of_some hm).1
  · exact ⟨q, rfl, .refl hq, fun d hd _ => hd⟩

theorem Valid.foldlM_expireCandidate (hq : q.Valid) (ledgerSeq : UInt32) {l : List (Candidate AccountID)} (hl : l.Nodup)
    (hmem : ∀ c ∈ l, c ∈ q.byFee) :
    ∃ q', l.foldlM (TxQ.expireCandidate ledgerSeq) q = .ok q' ∧ Shrunk q q' := by
  induction l generalizing q with
  | nil => exact ⟨q, rfl, .refl hq⟩
  | cons c l ih =>
    obtain ⟨hc, hl⟩ := nodup_cons.1 hl
    obtain ⟨q₁, hrun, hshrunk, hkeep⟩ := hq.expireCandidate ledgerSeq (hmem c mem_cons_self)
    obtain ⟨q', hrun', hshrunk'⟩ := ih hshrunk.valid hl fun d hd =>
      hkeep d (hmem d (mem_cons_of_mem _ hd)) (by rintro rfl; exact hc hd)
    refine ⟨q', ?_, hshrunk.trans hshrunk'⟩
    rw [foldlM_cons, hrun]
    exact hrun'

theorem Valid.processClosedLedger (hq : q.Valid) (env : Env AccountID Rules View) (view : View) (timeLeap : Bool) :
    ∃ q', q.processClosedLedger env view timeLeap = .ok q' ∧ q'.Valid ∧
      ∀ account seqProxy m, q'.entry account seqProxy = some m → q.entry account seqProxy = some m := by
  set q₀ : TxQ AccountID Rules :=
    { q with
      feeMetrics := q.feeMetrics.update env view timeLeap q.setup
      maxSize := if timeLeap then q.maxSize else
        some (max ((q.feeMetrics.update env view timeLeap q.setup).txnsExpected * q.setup.ledgersInQueue)
          q.setup.queueSizeMin) }
    with hq₀
  have hvalid₀ : q₀.Valid := ⟨hq.owned, hq.stored, hq.unique, hq.ordered⟩
  obtain ⟨q', hrun, hshrunk⟩ := hvalid₀.foldlM_expireCandidate (env.seq view) hq.unique.nodup fun _ => id
  refine ⟨q'.dropEmptyAccounts, ?_, hshrunk.valid.dropEmptyAccounts, fun account seqProxy m hm => ?_⟩
  · rw [TxQ.processClosedLedger, ← hq₀, hrun]
    rfl
  · rw [entry_dropEmptyAccounts] at hm
    exact hshrunk.entry account seqProxy m hm

end ClosedLedger

end TxQ

/-! ## Blockers -/

variable {tx : STTx AccountID}

section Blockers

variable {env : Env AccountID Rules View} {m : MaybeTx AccountID Rules}

omit [LinearOrder AccountID] in
theorem MaybeTx.Kept.isBlocker (h : m.Kept env) (hkind : m.txn.kind = .blocker) : m.consequences.isBlocker = true := by
  rw [h.consequences, if_pos (h.blocker hkind), TxConsequences.make, hkind]

omit [LinearOrder AccountID] in
theorem MaybeTx.Kept.refreshed {m' : MaybeTx AccountID Rules} (h : m.Kept env) (hr : m.Refreshed env m')
    (hkind : m.txn.kind ≠ .blocker) : m'.Kept env := by
  obtain ⟨hcand, hpf⟩ := hr
  have htxn : m'.txn = m.txn := congrArg Candidate.txn hcand
  refine ⟨?_, by rw [htxn]; exact h.passed, fun hk => absurd (htxn ▸ hk) hkind⟩
  rcases hpf with hpf | ⟨rules, flags, hpf⟩
  · rw [MaybeTx.consequences, hpf, htxn]
    exact h.consequences
  · rw [MaybeTx.consequences, hpf, htxn]
    rfl

namespace TxQ

open Attempt

variable {q q' : TxQ AccountID Rules} {account : AccountID} {seq : UInt32}

/-- A queued blocker is alone among the entries of the account that are not below a sequence. -/
def BlockerAlone (q : TxQ AccountID Rules) (account : AccountID) (seq : UInt32) : Prop :=
  ∀ seqProxy b, q.entry account seqProxy = some b → b.txn.kind = .blocker → .rawSequence seq ≤ seqProxy →
    ∀ seqProxy' m, q.entry account seqProxy' = some m → .rawSequence seq ≤ seqProxy' → seqProxy' = seqProxy

structure Guarded (env : Env AccountID Rules View) (q : TxQ AccountID Rules)
    (account : AccountID) (seq : UInt32) : Prop where
  kept : ∀ seqProxy m, q.entry account seqProxy = some m → m.Kept env
  alone : q.BlockerAlone account seq

theorem Guarded.mono (h : q.Guarded env account seq) {seq' : UInt32} (hle : seq ≤ seq') :
    q.Guarded env account seq' := by
  have hraw : SeqProxy.rawSequence seq ≤ .rawSequence seq' := hle
  exact ⟨h.kept, fun p b hb hkind hp p' m hm hp' => h.alone p b hb hkind (hraw.trans hp) p' m hm (hraw.trans hp')⟩

theorem Guarded.of_entries (h : q.Guarded env account seq)
    (hentry : ∀ seqProxy m', q'.entry account seqProxy = some m' →
    ∃ m, q.entry account seqProxy = some m ∧ m'.txn = m.txn ∧
      (m.Kept env → m'.Kept env)) : q'.Guarded env account seq := by
  constructor
  · intro p m' hm'
    obtain ⟨m, hm, -, hkept⟩ := hentry p m' hm'
    exact hkept (h.kept p m hm)
  · intro p b hb hkind hp p' m hm hp'
    obtain ⟨b₀, hb₀, htxn, -⟩ := hentry p b hb
    obtain ⟨m₀, hm₀, -, -⟩ := hentry p' m hm
    exact h.alone p b₀ hb₀ (htxn ▸ hkind) hp p' m₀ hm₀ hp'

theorem Guarded.eq_of_admitted {root : AccountRoot} (h : q.Guarded env tx.account root.sequence)
    (hadmitted : Admitted q tx root) {seqProxy : SeqProxy} {b : MaybeTx AccountID Rules}
    (hb : q.entry tx.account seqProxy = some b) (hkind : b.txn.kind = .blocker)
    (hlive : .rawSequence root.sequence ≤ seqProxy) : seqProxy = tx.getSeqProxy :=
  hadmitted.behind seqProxy b hb hlive ((h.kept seqProxy b hb).isBlocker hkind) (h.alone seqProxy b hb hkind hlive)

theorem Guarded.apply {view : View} {r : ApplyResult} (h : q.Guarded env account seq)
    (hpost : ApplyPost env q view tx r q')
    (hseq : tx.account = account → ∀ root, env.account view account = some root → root.sequence = seq) :
    q'.Guarded env account seq := by
  -- an entry that was there keeps its transaction, and is sound
  have hold : ∀ seqProxy m', q'.entry account seqProxy = some m' →
      (∃ m, q.entry account seqProxy = some m ∧ m.txn = m'.txn ∧ m'.Kept env) ∨
      (account = tx.account ∧ seqProxy = tx.getSeqProxy ∧ m'.txn = tx ∧ m'.Kept env ∧
        ∃ root, root.sequence = seq ∧ Admitted q tx root) := by
    intro seqProxy m' hm'
    cases hpost.origin account seqProxy m' hm' with
    | same hm => exact .inl ⟨m', hm, rfl, h.kept _ _ hm⟩
    | @refreshed root m hroot hadmitted hacc hlive hlt hm hr =>
      subst hacc
      obtain rfl := hseq rfl root hroot
      have hnot : m.txn.kind ≠ .blocker := fun hkind => hlt.ne (h.eq_of_admitted hadmitted hm hkind hlive)
      exact .inl ⟨m, hm, (congrArg Candidate.txn hr.1).symm, (h.kept _ _ hm).refreshed hr hnot⟩
    | @queued root hroot hadmitted hacc hkey htx hkept =>
      subst hacc
      exact .inr ⟨rfl, hkey, htx, hkept, root, hseq rfl root hroot, hadmitted⟩
  constructor
  · intro p m hm
    rcases hold p m hm with ⟨-, -, -, hkept⟩ | ⟨-, -, -, hkept, -⟩
    · exact hkept
    · exact hkept
  · intro p b hb hkind hp p' m hm hp'
    rcases hold p b hb with ⟨b₀, hb₀, htxn, -⟩ | ⟨rfl, rfl, htx, -, root, rfl, hadmitted⟩
    · rcases hold p' m hm with ⟨m₀, hm₀, -, -⟩ | ⟨rfl, rfl, -, -, root, rfl, hadmitted⟩
      · exact h.alone p b₀ hb₀ (htxn ▸ hkind) hp p' m₀ hm₀ hp'
      · exact (h.eq_of_admitted hadmitted hb₀ (htxn ▸ hkind) hp).symm
    · rcases hold p' m hm with ⟨m₀, hm₀, -, -⟩ | ⟨-, hkey, -⟩
      · exact hadmitted.blocker (htx ▸ hkind) p' m₀ hm₀ hp'
      · exact hkey

end TxQ

end Blockers

/-! ## Runs -/

/-- A call of the queue, with the view that it gets. -/
inductive Call (AccountID View : Type)
  | apply (view : View) (tx : STTx AccountID) (flags : ApplyFlags)
  | accept (view : View)
  | processClosedLedger (view : View) (timeLeap : Bool)

/-- The sequences of an account in the views that `apply` gets with its transactions. -/
def ledgerSequences (env : Env AccountID Rules View) (account : AccountID) (calls : List (Call AccountID View)) :
    List UInt32 :=
  calls.filterMap fun
    | .apply view tx _ => if tx.account = account then (env.account view account).map (·.sequence) else none
    | _ => none

variable [DecidableEq Rules]

namespace TxQ

/-- A queue after calls in any order, with any transactions, views and results. -/
inductive Runs (env : Env AccountID Rules View) (q₀ : TxQ AccountID Rules) :
    List (Call AccountID View) → TxQ AccountID Rules → Prop
  | start : Runs env q₀ [] q₀
  | apply {calls : List (Call AccountID View)} {q q' : TxQ AccountID Rules} {view view' : View} {tx : STTx AccountID}
      {flags : ApplyFlags} {r : ApplyResult} (h : Runs env q₀ calls q)
      (hcall : q.apply env view tx flags = .ok (r, view', q')) :
      Runs env q₀ (calls ++ [.apply view tx flags]) q'
  | accept {calls : List (Call AccountID View)} {q q' : TxQ AccountID Rules} {view view' : View} {fuel : Nat}
      {r : Bool × List (AcceptLog AccountID View)} (h : Runs env q₀ calls q)
      (hcall : q.accept env view fuel = .ok (r, view', q')) : Runs env q₀ (calls ++ [.accept view]) q'
  | processClosedLedger {calls : List (Call AccountID View)} {q q' : TxQ AccountID Rules}
      {view : View} {timeLeap : Bool}
      (h : Runs env q₀ calls q) (hcall : q.processClosedLedger env view timeLeap = .ok q') :
      Runs env q₀ (calls ++ [.processClosedLedger view timeLeap]) q'

variable {env : Env AccountID Rules View} {q₀ q q' : TxQ AccountID Rules} {calls : List (Call AccountID View)}

/-- A call that is evaluated, with fuel for the loop of `accept`. -/
def call (env : Env AccountID Rules View) (fuel : Nat) (q : TxQ AccountID Rules) :
    Call AccountID View → Run Exception (TxQ AccountID Rules)
  | .apply view tx flags => do
    let result ← q.apply env view tx flags
    return result.2.2
  | .accept view => do
    let result ← q.accept env view fuel
    return result.2.2
  | .processClosedLedger view timeLeap => q.processClosedLedger env view timeLeap

theorem Runs.of_calls {fuel : Nat} {more : List (Call AccountID View)} (h : Runs env q₀ calls q)
    (hcalls : more.foldlM (call env fuel) q = .ok q') : Runs env q₀ (calls ++ more) q' := by
  induction more generalizing calls q with
  | nil =>
    cases hcalls
    rw [append_nil]
    exact h
  | cons next more ih =>
    rw [foldlM_cons, Run.bind_eq_ok] at hcalls
    obtain ⟨q₁, hnext, hmore⟩ := hcalls
    rw [append_cons]
    refine ih ?_ hmore
    cases next with
    | apply view tx flags =>
      obtain ⟨r, happly, hq₁⟩ := Run.bind_eq_ok.1 hnext
      cases hq₁
      exact h.apply happly
    | accept view =>
      obtain ⟨r, haccept, hq₁⟩ := Run.bind_eq_ok.1 hnext
      cases hq₁
      exact h.accept haccept
    | processClosedLedger view timeLeap => exact h.processClosedLedger hnext

theorem Runs.valid (h : Runs env q₀ calls q) (hq₀ : q₀.Valid) : q.Valid := by
  induction h with
  | start => exact hq₀
  | @apply calls q q' view view' tx flags r _ hcall ih =>
    obtain ⟨r₁, view₁, q₁, hrun, hpost⟩ := ih.apply env view tx flags
    rw [hrun] at hcall
    cases hcall
    exact hpost.valid
  | accept _ hcall ih => exact (ih.of_accept hcall).1
  | @processClosedLedger calls q q' view timeLeap _ hcall ih =>
    obtain ⟨q₁, hrun, hvalid, -⟩ := ih.processClosedLedger env view timeLeap
    rw [hrun] at hcall
    cases hcall
    exact hvalid

/-- As long as the sequence of the account does not decrease, the rule about blockers is kept. -/
theorem Runs.guarded (h : Runs env q₀ calls q) (hq₀ : q₀.Valid) {account : AccountID}
    (hstart : q₀.Guarded env account 0) (hmono : (ledgerSequences env account calls).Pairwise (· ≤ ·)) {seq : UInt32}
    (hseq : ∀ s ∈ ledgerSequences env account calls, s ≤ seq) : q.Guarded env account seq := by
  induction h generalizing seq with
  | start => exact hstart.mono (UInt32.zero_le)
  | @apply calls q q' view view' tx flags r hrun hcall ih =>
    have hvalid := hrun.valid hq₀
    obtain ⟨r₁, view₁, q₁, hrun₁, hpost⟩ := hvalid.apply env view tx flags
    rw [hrun₁] at hcall
    cases hcall
    rw [ledgerSequences, filterMap_append] at hmono hseq
    obtain ⟨hmono₀, -, hcross⟩ := pairwise_append.1 hmono
    have hseq₀ : ∀ s ∈ ledgerSequences env account calls, s ≤ seq := fun s hs => hseq s (mem_append_left _ hs)
    by_cases hacc : tx.account = account
    · cases hroot : env.account view account with
      | none =>
        refine (ih hmono₀ hseq₀).apply hpost fun _ root hroot' => ?_
        rw [hroot] at hroot'
        cases hroot'
      | some root =>
        have hlast : root.sequence ∈ [Call.apply view tx flags].filterMap fun
            | .apply view tx _ => if tx.account = account then (env.account view account).map (·.sequence) else none
            | _ => none := by simp [hacc, hroot]
        have hbefore := ih hmono₀ fun s hs => hcross s hs _ hlast
        refine Guarded.mono (hbefore.apply hpost fun _ root' hroot' => ?_) (hseq _ (mem_append_right _ hlast))
        rw [hroot] at hroot'
        cases hroot'
        rfl
    · exact (ih hmono₀ hseq₀).apply hpost fun h => absurd h hacc
  | @accept calls q q' view view' fuel r hrun hcall ih =>
    have hsame : ledgerSequences env account (calls ++ [.accept view]) = ledgerSequences env account calls := by
      rw [ledgerSequences, filterMap_append]
      exact append_nil _
    rw [hsame] at hmono hseq
    refine (ih hmono hseq).of_entries fun seqProxy m' hm' => ?_
    obtain ⟨m, hm, hcand, hkept, -⟩ := ((hrun.valid hq₀).of_accept hcall).2 account seqProxy m' hm' id
    exact ⟨m, hm, congrArg Candidate.txn hcand, hkept⟩
  | @processClosedLedger calls q q' view timeLeap hrun hcall ih =>
    have hsame : ledgerSequences env account (calls ++ [.processClosedLedger view timeLeap]) =
        ledgerSequences env account calls := by
      rw [ledgerSequences, filterMap_append]
      exact append_nil _
    rw [hsame] at hmono hseq
    obtain ⟨q₁, hrun₁, -, hentry⟩ := (hrun.valid hq₀).processClosedLedger env view timeLeap
    rw [hrun₁] at hcall
    cases hcall
    exact (ih hmono hseq).of_entries fun seqProxy m hm => ⟨m, hentry _ _ _ hm, rfl, id⟩

omit [DecidableEq Rules] in
theorem valid_make (setup : Setup) (feeMetrics : FeeMetrics) : (make setup feeMetrics : TxQ AccountID Rules).Valid where
  owned a ha := by cases ha
  stored c := by
    refine iff_of_false not_mem_nil ?_
    rintro ⟨a, ha, -⟩
    cases ha
  unique := .nil
  ordered := .nil

omit [DecidableEq Rules] in
theorem length_lt_of_not_isFull {maxSize : UInt64} (hmax : q.maxSize = some maxSize) (hfull : q.isFull 100 = false) :
    q.byFee.length < maxSize.toNat := by
  rw [isFull, hmax] at hfull
  dsimp only at hfull
  rw [decide_eq_false_iff_not, not_le, UInt64.toNat_div, UInt64.toNat_mul] at hfull
  change q.byFee.length < maxSize.toNat * 100 % 2 ^ 64 / 100 at hfull
  omega

omit [DecidableEq Rules] in
/-- A transaction that is queued does not make the queue grow beyond its maximum. -/
theorem length_le_of_queued {q' : TxQ AccountID Rules} (h : Attempt.Queued q tx q') {maxSize : UInt64}
    (hmax : q.maxSize = some maxSize) : q'.byFee.length ≤ max q.byFee.length maxSize.toNat := by
  have hremoved : ∀ {c r : Candidate AccountID}, r ∈ q.byFee → q'.byFee.Perm (c :: q.byFee.filter (· ≠ r)) →
      q'.byFee.length ≤ q.byFee.length := by
    intro c r hr hperm
    have hlt : (q.byFee.filter (· ≠ r)).length < q.byFee.length :=
      length_filter_lt_length_iff_exists.2 ⟨r, hr, by simp⟩
    rw [hperm.length_eq, length_cons]
    exact hlt
  cases h with
  | added c _ hfull hperm =>
    rw [hperm.length_eq, length_cons]
    exact (Nat.succ_le_of_lt (length_lt_of_not_isFull hmax hfull)).trans (le_max_right ..)
  | replaced c r _ hmem _ _ hperm => exact (hremoved hmem hperm).trans (le_max_left ..)
  | dropped c r _ _ hmem _ _ hperm => exact (hremoved hmem hperm).trans (le_max_left ..)

/-- For every run: `byFee` and `byAccount` have the same candidates, each once, in order and with one for each
sequence or ticket of an account, and every further call returns. If `apply` returns `terQUEUED` the transaction was
added, and at most one other was removed, for its place or for room in a full queue. With another result and nothing
applied the queued transactions stay. The queue does not grow beyond its maximum. A queued blocker is alone among the
entries of its account that are not below the sequence of the account, as long as that sequence does not decrease. -/
theorem queue_run {setup : Setup} {feeMetrics : FeeMetrics} (hrun : Runs env (make setup feeMetrics) calls q) :
    q.Valid ∧
    (∀ view tx flags, ∃ r view' q', q.apply env view tx flags = .ok (r, view', q') ∧
      (r.ter = TER.terQUEUED → Attempt.Queued q tx q') ∧
      (r.ter ≠ TER.terQUEUED → r.applied = false → ∀ c, c ∈ q'.byFee ↔ c ∈ q.byFee) ∧
      ∀ maxSize, q.maxSize = some maxSize → q'.byFee.length ≤ max q.byFee.length maxSize.toNat) ∧
    (∀ view, ∃ n, ∀ fuel, n ≤ fuel → ∃ result, q.accept env view fuel = .ok result) ∧
    (∀ view timeLeap, ∃ q', q.processClosedLedger env view timeLeap = .ok q') ∧
    ∀ account seq, (ledgerSequences env account calls).Pairwise (· ≤ ·) →
      (∀ s ∈ ledgerSequences env account calls, s ≤ seq) → q.BlockerAlone account seq := by
  have hq : q.Valid := hrun.valid (valid_make setup feeMetrics)
  refine ⟨hq, fun view tx flags => ?_, fun view => ?_, fun view timeLeap => ?_, fun account seq hmono hseq => ?_⟩
  · obtain ⟨r, view', q', happly, hpost⟩ := hq.apply env view tx flags
    refine ⟨r, view', q', happly, ?_⟩
    cases hpost.outcome with
    | refused hter hbyFee =>
      refine ⟨fun h => absurd h hter, fun _ _ c => by rw [hbyFee], fun maxSize _ => ?_⟩
      rw [hbyFee]
      exact le_max_left ..
    | applied hter hsub =>
      refine ⟨fun h => absurd h hter, fun _ h => Bool.noConfusion h, fun maxSize _ => ?_⟩
      exact (subperm_of_subset hpost.valid.unique.nodup hsub).length_le.trans (le_max_left ..)
    | queued hqueued => exact ⟨fun _ => hqueued, fun h => absurd rfl h,
        fun maxSize hmax => length_le_of_queued hqueued hmax⟩
  · refine ⟨q.byFee.length * (q.byFee.length + 2), fun fuel hfuel => ?_⟩
    obtain ⟨s, haccept, -⟩ := hq.accept env view hfuel
    exact ⟨_, haccept⟩
  · obtain ⟨q', hclosed, -⟩ := hq.processClosedLedger env view timeLeap
    exact ⟨q', hclosed⟩
  · refine (hrun.guarded (valid_make setup feeMetrics) ⟨?_, ?_⟩ hmono hseq).alone
    · intro seqProxy m hm
      cases hm
    · intro seqProxy b hb
      cases hb

/-- There is room for three. One is queued and replaced by another that pays more, a blocker behind it is refused, two
more are queued, and the last one of the account 0 makes room for another account. Of these three one is applied, one
is to be retried and one pays too little. -/
def exampleCalls : List (Call Nat Nat) :=
  [.processClosedLedger 0 false, .apply 5 (exampleTx 0 5 .normal 100) 0, .apply 5 (exampleTx 0 5 .normal 180) 0,
    .apply 5 (exampleTx 0 6 .blocker 20) 0, .apply 5 (exampleTx 0 6 .normal 20) 0,
      .apply 5 (exampleTx 1 5 .blocker 30) 0,
    .apply 5 (exampleTx 2 5 .normal 150) 0, .accept 1]

theorem queue_run_exampleCalls : ∃ q, Runs retryFirst (exampleQueue []) exampleCalls q ∧
    q.byFee.map (fun c => (c.account, c.txn.fee)) = [(0, 180), (1, 30)] ∧ q.Valid ∧ q.BlockerAlone 1 5 := by
  obtain ⟨q, hcalls, hqueue⟩ := Except.exists_ok_of_any
      (x := exampleCalls.foldlM (call retryFirst 24) (exampleQueue []))
    (p := fun q => decide (q.byFee.map (fun c => (c.account, c.txn.fee)) = [(0, 180), (1, 30)])) (by decide +kernel)
  have hrun : Runs retryFirst (exampleQueue []) exampleCalls q := Runs.start.of_calls hcalls
  obtain ⟨hvalid, -, -, -, hblocker⟩ := queue_run hrun
  -- A `decide` over all sequences below a bound would run through every `UInt32`.
  have hle : (ledgerSequences retryFirst 1 exampleCalls).all (· ≤ 5) = true := by decide
  exact ⟨q, hrun, of_decide_eq_true hqueue, hvalid,
    hblocker 1 5 (by decide) fun s hs => of_decide_eq_true (List.all_eq_true.1 hle s hs)⟩

end TxQ

end Rippled.TxQueue
