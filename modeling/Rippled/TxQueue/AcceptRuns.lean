import Rippled.TxQueue.NextSequence
import Rippled.TxQueue.Valid

/-!
# What `accept` leaves in the queue

The loop of `accept` walks `byFee` and jumps back to a candidate that it skipped when the one before it leaves the
queue. Behind the iterator every candidate was attempted, or still waits for an earlier one of its account
(`Settled`), and this with the position of the iterator gives what is left when the loop ends (`accept_spec`).
-/

namespace Rippled.TxQueue

open Lib List Candidate KeyedMap

variable {AccountID Rules View : Type}

/-! ## Applying a candidate -/

/-- What holds of a queued transaction: it passed `preflight` when it was queued, its consequences are those of the last
`preflight`, and that of a blocker passed. -/
structure MaybeTx.Kept (env : Env AccountID Rules View) (m : MaybeTx AccountID Rules) : Prop where
  consequences : m.consequences = if TER.isTesSuccess m.pfResult.ter.1 then .make m.txn else .failed
  passed : ∃ rules flags, TER.isTesSuccess (env.preflight rules m.txn flags).1 = true
  blocker : m.txn.kind = .blocker → TER.isTesSuccess m.pfResult.ter.1 = true

/-- The test of `accept` for leaving a transaction in the queue, its retries apart. -/
def ApplyResult.Stays (r : ApplyResult) : Prop :=
  r.applied = false ∧ TER.isTefFailure r.ter = false ∧ TER.isTemMalformed r.ter = false

/-- The transactor asks for a retry. -/
def ApplyResult.Retryable (r : ApplyResult) : Prop := r.applied = false ∧ TER.isTerRetry r.ter = true

instance : DecidablePred ApplyResult.Retryable := fun _ => inferInstanceAs (Decidable (_ ∧ _))

/-- The transaction failed for good, or is to be retried: neither a local error nor a claimed fee. -/
def TER.FailsOrRetries (ter : TER) : Prop := isTemMalformed ter = true ∨ isTefFailure ter = true ∨ isTerRetry ter = true

/-- Whatever the view, an attempt on the transaction applies it, fails for good or asks for a retry. -/
structure MaybeTx.Answered (env : Env AccountID Rules View) (m : MaybeTx AccountID Rules) : Prop where
  checked : TER.isTesSuccess m.pfResult.ter.1 = true ∨ TER.FailsOrRetries m.pfResult.ter.1
  preflight : ∀ rules, TER.isTesSuccess (env.preflight rules m.txn m.flags).1 = true ∨
    TER.FailsOrRetries (env.preflight rules m.txn m.flags).1
  doApply : ∀ view, (env.doApply m.txn m.flags view).1.2 = true ∨
    TER.FailsOrRetries (env.doApply m.txn m.flags view).1.1.1

variable {m : MaybeTx AccountID Rules}

namespace MaybeTx

variable [DecidableEq Rules]

section
variable (m : MaybeTx AccountID Rules) (env : Env AccountID Rules View) (view : View)

/-- A new `preflight` does not move the candidate. -/
theorem toCandidate_refresh : (m.refresh env view).toCandidate = m.toCandidate := by
  rw [refresh]
  split_ifs with h
  · rfl
  · rfl

theorem apply_tx : (m.apply env view).2.1 = m.refresh env view := by
  rw [apply]
  dsimp only
  split_ifs with h
  · rfl
  · rfl

/-- The result of `preflight` is the old one or one of this view. -/
theorem pfResult_refresh :
    (m.refresh env view).pfResult = m.pfResult ∨
      ∃ rules flags, (m.refresh env view).pfResult = env.preflightResult rules m.txn flags := by
  rw [refresh]
  split_ifs with h
  · exact .inr ⟨env.rules view, m.flags, rfl⟩
  · exact .inl rfl

end

variable {env : Env AccountID Rules View}

/-- A failed `preflight` is the result of the attempt. -/
theorem apply_of_not_success {view : View} (h : TER.isTesSuccess (m.refresh env view).pfResult.ter.1 = false) :
    (m.apply env view).1.ter = (m.refresh env view).pfResult.ter.1 := by
  rw [apply]
  dsimp only
  rw [if_neg (Bool.eq_false_iff.1 h)]

/-- An attempt that leaves the transaction queued keeps what holds of it. -/
theorem Kept.refresh (hm : m.Kept env) (view : View) (hres : (m.apply env view).1.Stays) :
    (m.refresh env view).Kept env := by
  have htxn : (m.refresh env view).txn = m.txn := congrArg txn (m.toCandidate_refresh env view)
  obtain ⟨-, htef, htem⟩ := hres
  rcases m.pfResult_refresh env view with hpf | ⟨rules, flags, hpf⟩
  · refine ⟨?_, ?_, ?_⟩
    · rw [MaybeTx.consequences, hpf, htxn]
      exact hm.consequences
    · rw [htxn]
      exact hm.passed
    · rw [hpf, htxn]
      exact hm.blocker
  · obtain ⟨r, f, hpassed⟩ := hm.passed
    have hter : (m.refresh env view).pfResult.ter = env.preflight rules m.txn flags := by rw [hpf]; rfl
    have hsuccess : TER.isTesSuccess (env.preflight rules m.txn flags).1 = true := by
      by_contra hnot
      have hfail : TER.isTesSuccess (m.refresh env view).pfResult.ter.1 = false := by
        rw [hter]
        exact Bool.eq_false_iff.2 hnot
      rw [apply_of_not_success hfail, hter] at htef htem
      rcases env.preflight_stable m.txn r f rules flags hpassed with h | h | h
      · exact hnot h
      · rw [htem] at h
        cases h
      · rw [htef] at h
        cases h
    refine ⟨?_, ⟨r, f, ?_⟩, fun _ => ?_⟩
    · rw [MaybeTx.consequences, hpf, htxn]
      rfl
    · rw [htxn]
      exact hpassed
    · rw [hter]
      exact hsuccess

theorem Answered.refresh (hm : m.Answered env) (view : View) : (m.refresh env view).Answered env := by
  rw [MaybeTx.refresh]
  split_ifs with h
  · exact ⟨hm.preflight _, hm.preflight, hm.doApply⟩
  · exact hm

/-- What stays after such an attempt is to be retried. -/
theorem Answered.retryable (hm : m.Answered env) (view : View) (hstays : (m.apply env view).1.Stays) :
    (m.apply env view).1.Retryable := by
  obtain ⟨happlied, htef, htem⟩ := hstays
  have hanswer : TER.FailsOrRetries (m.apply env view).1.ter := by
    rw [MaybeTx.apply] at happlied ⊢
    dsimp only at happlied ⊢
    split_ifs at happlied ⊢ with hsuccess
    · exact ((hm.refresh view).doApply view).resolve_left (Bool.eq_false_iff.1 happlied)
    · exact (hm.refresh view).checked.resolve_left hsuccess
  refine ⟨happlied, ?_⟩
  rcases hanswer with h | h | h
  · exact absurd h (Bool.eq_false_iff.1 htem)
  · exact absurd h (Bool.eq_false_iff.1 htef)
  · exact h

end MaybeTx

variable [LinearOrder AccountID]

namespace TxQ

/-! ## The candidates of an account -/

variable {q q' : TxQ AccountID Rules} {a : TxQAccount AccountID Rules} {c d : Candidate AccountID}

theorem Valid.mem_transactions (hq : q.Valid) (ha : q.byAccount.find c.account = some a) :
    (∃ m ∈ a.transactions.toList, m.toCandidate = d) ↔ d ∈ q.byFee ∧ d.account = c.account := by
  constructor
  · rintro ⟨m, hm, rfl⟩
    have hentry : q.entry c.account m.seqProxy = some m := entry_eq_some.2 ⟨a, ha, hm, rfl⟩
    exact ⟨hq.mem_byFee_of_entry hentry, hq.account_of_entry hentry⟩
  · rintro ⟨hd, hacc⟩
    obtain ⟨m, hm, hmd⟩ := hq.mem_byFee.1 hd
    rw [hacc, entry_of_find ha] at hm
    exact ⟨m, (find_eq_some.1 hm).1, hmd⟩

/-- `accept` skips a sequence if the account has an earlier one. -/
theorem Valid.skips_iff (hq : q.Valid) (ha : q.byAccount.find c.account = some a) :
    a.skips c = true ↔ c.seqProxy.isSeq = true ∧ ∃ d ∈ q.byFee, d.account = c.account ∧ d.seqProxy < c.seqProxy := by
  rw [TxQAccount.skips, Bool.and_eq_true]
  refine and_congr_right fun _ => ?_
  constructor
  · intro h
    obtain ⟨m, hm, hlt⟩ := (Option.any_eq_true _ _).1 h
    obtain ⟨hmem, hacc⟩ := (hq.mem_transactions ha).1 ⟨m, mem_of_head? hm, rfl⟩
    exact ⟨m.toCandidate, hmem, hacc, of_decide_eq_true hlt⟩
  · rintro ⟨d, hd, hacc, hlt⟩
    obtain ⟨n, hn, rfl⟩ := (hq.mem_transactions ha).2 ⟨hd, hacc⟩
    cases hhead : a.transactions.toList.head? with
    | none =>
      rw [head?_eq_none_iff] at hhead
      rw [hhead] at hn
      cases hn
    | some m =>
      have hle : m.seqProxy ≤ n.seqProxy := key_head?_le a.transactions.sorted hhead hn
      exact (Option.any_eq_true _ _).2 ⟨m, rfl, decide_eq_true (hle.trans_lt hlt)⟩

/-- No two queued transactions have one identifier. -/
def DistinctIDs (q : TxQ AccountID Rules) : Prop := ∀ c ∈ q.byFee, ∀ d ∈ q.byFee, c.txID = d.txID → c = d

/-- `eraseAndAdvance` goes back to the next candidate of the account if that is before the next one by fee. -/
theorem eraseAndAdvance_eq (hat : q.accountAt c.account = .ok a) (herase : q.erase c = .ok q') :
    q.eraseAndAdvance c = .ok (q', match (a.transactions.upperBound c.seqProxy).head? with
      | none => nextByFee c q.byFee
      | some n =>
        if (nextByFee c q.byFee).all (n.before q.parentHashComp ·) then some n.toCandidate
          else nextByFee c q.byFee) := by
  rw [TxQ.eraseAndAdvance, hat, Run.ok_bind]
  simp only [herase]
  cases (a.transactions.upperBound c.seqProxy).head? with
  | none => rfl
  | some n =>
    cases nextByFee c q.byFee with
    | none => rfl
    | some d => rfl

variable {pre : List (Candidate AccountID)}

/-- `eraseAndAdvance` takes the candidate out and goes on with the next one by fee, or back to the next one of the
account. A later candidate of the account that stays behind the iterator has another one of the account before it. -/
theorem Valid.eraseAndAdvance {post : List (Candidate AccountID)} (hq : q.Valid) (hsplit : q.byFee = pre ++ c :: post) :
    ∃ q' pre' rest', q.eraseAndAdvance c = .ok (q', rest'.head?) ∧ Erased q c q' ∧ q'.byFee = pre' ++ rest' ∧
      (∀ d ∈ pre', d ∈ pre) ∧
      (q.DistinctIDs → ∀ d ∈ pre', d.account = c.account → c.seqProxy < d.seqProxy →
        ∃ e ∈ q'.byFee, e.account = d.account ∧ e.seqProxy < d.seqProxy) := by
  have hc : c ∈ q.byFee := by rw [hsplit]; exact mem_append_right _ mem_cons_self
  have hunique : Unique (pre ++ c :: post) := hsplit ▸ hq.unique
  have hordered : Ordered q.parentHashComp (pre ++ c :: post) := hsplit ▸ hq.ordered
  obtain ⟨hpre, hcpost, hcross⟩ := pairwise_append.1 hunique.nodup
  obtain ⟨hnotpost, -⟩ := pairwise_cons.1 hcpost
  obtain ⟨a, m, hat, ha, -, -⟩ := hq.accountAt hc
  obtain ⟨q', herase, he⟩ := hq.erase hc
  have hbyFee : q'.byFee = pre ++ post := by
    rw [he.byFee, hsplit, filter_append, filter_cons_of_neg (by simp)]
    congr 1
    · exact filter_eq_self.2 fun d hd => by simpa using hcross d hd c mem_cons_self
    · exact filter_eq_self.2 fun d hd => by simpa using (hnotpost d hd).symm
  -- the candidates of the account that come after `c`
  have hupper : ∀ d, (∃ n ∈ a.transactions.upperBound c.seqProxy, n.toCandidate = d) ↔
      d ∈ q'.byFee ∧ d.account = c.account ∧ c.seqProxy < d.seqProxy := by
    intro d
    rw [he.mem_byFee]
    constructor
    · rintro ⟨n, hn, rfl⟩
      obtain ⟨hn, hlt⟩ := mem_upperBound.1 hn
      obtain ⟨hmem, hacc⟩ := (hq.mem_transactions ha).1 ⟨n, hn, rfl⟩
      exact ⟨⟨hmem, fun heq => hlt.ne (congrArg seqProxy heq.symm)⟩, hacc, hlt⟩
    · rintro ⟨⟨hd, -⟩, hacc, hlt⟩
      obtain ⟨n, hn, rfl⟩ := (hq.mem_transactions ha).2 ⟨hd, hacc⟩
      exact ⟨n, mem_upperBound.2 ⟨hn, hlt⟩, rfl⟩
  have hnext : nextByFee c q.byFee = post.head? := by rw [hsplit]; exact hunique.nextByFee_eq
  cases hhead : (a.transactions.upperBound c.seqProxy).head? with
  | none =>
    refine ⟨q', pre, post, ?_, he, hbyFee, fun _ => id, fun _ d hd hacc hlt => ?_⟩
    · rw [eraseAndAdvance_eq hat herase, hhead, hnext]
    · obtain ⟨n, hn, -⟩ := (hupper d).2 ⟨by rw [hbyFee]; exact mem_append_left _ hd, hacc, hlt⟩
      rw [head?_eq_none_iff] at hhead
      rw [hhead] at hn
      cases hn
  | some n =>
    obtain ⟨hnmem, hnacc, hnlt⟩ := (hupper n.toCandidate).1 ⟨n, mem_of_head? hhead, rfl⟩
    have hbefore : ∀ d ∈ q'.byFee, d.account = c.account → c.seqProxy < d.seqProxy → n.toCandidate ≠ d →
        ∃ e ∈ q'.byFee, e.account = d.account ∧ e.seqProxy < d.seqProxy := by
      intro d hd hacc hlt hne
      obtain ⟨k, hk, rfl⟩ := (hupper d).2 ⟨hd, hacc, hlt⟩
      have hle := key_head?_le (a.transactions.increasing_upperBound _) hhead hk
      refine ⟨n.toCandidate, hnmem, hnacc.trans hacc.symm, lt_of_le_of_ne hle fun heq => hne ?_⟩
      exact he.valid.unique.eq_of_same hnmem hd ⟨hnacc.trans hacc.symm, heq⟩
    by_cases huse : post.head?.all (n.before q.parentHashComp ·) = true
    · -- back to the next one of the account, which was skipped
      have hnpre : n.toCandidate ∈ pre := by
        rw [hbyFee] at hnmem
        refine (mem_append.1 hnmem).resolve_right fun hnpost => ?_
        cases post with
        | nil => cases hnpost
        | cons d post =>
          have hpost : Ordered q.parentHashComp (d :: post) := (pairwise_append.1 hordered).2.1.of_cons
          rw [head?_cons, Option.all_some] at huse
          rcases mem_cons.1 hnpost with hnd | hnpost
          · rw [hnd, not_before_of_before (hnd ▸ huse)] at huse
            cases huse
          · rw [(pairwise_cons.1 hpost).1 _ hnpost] at huse
            cases huse
      obtain ⟨p₁, p₂, rfl⟩ := append_of_mem hnpre
      refine ⟨q', p₁, n.toCandidate :: p₂ ++ post, ?_, he, ?_,
        fun d hd => mem_append_left _ hd, fun _ d hd hacc hlt => ?_⟩
      · rw [eraseAndAdvance_eq hat herase, hhead, hnext]
        dsimp only
        rw [if_pos huse]
        rfl
      · rw [hbyFee, append_assoc]
      · refine hbefore d (by rw [hbyFee]; exact mem_append_left _ (mem_append_left _ hd)) hacc hlt fun hnd => ?_
        exact (pairwise_append.1 hpre).2.2 d hd d (hnd ▸ mem_cons_self) rfl
    · refine ⟨q', pre, post, ?_, he, hbyFee, fun _ => id, fun hid d hd hacc hlt => ?_⟩
      · rw [eraseAndAdvance_eq hat herase, hhead, hnext]
        dsimp only
        rw [if_neg huse]
      · -- the next one of the account is before all that is left, so the loop would have gone back to it
        refine hbefore d (by rw [hbyFee]; exact mem_append_left _ hd) hacc hlt fun hnd => huse ?_
        cases post with
        | nil => rfl
        | cons f post =>
          have hf : f ∈ q.byFee := by rw [hsplit]; simp
          have hdf : f.before q.parentHashComp d = false :=
            (pairwise_append.1 hordered).2.2 d hd f (mem_cons_of_mem _ mem_cons_self)
          refine before_of_not_before (hnd ▸ hdf) (fun hids => ?_)
          have hnf : n.toCandidate = f := hid _ (he.mem_byFee.1 hnmem).1 f hf hids
          exact hcross d hd f (mem_cons_of_mem _ mem_cons_self) (hnd ▸ hnf)

/-! ## The loop -/

/-- A candidate behind the iterator: it was attempted and stays, or there is an earlier one of its account. -/
def Settled (q : TxQ AccountID Rules) (log : List (AcceptLog AccountID View)) (d : Candidate AccountID) : Prop :=
  (∃ e ∈ log, e.candidate = d ∧ e.result.Stays) ∨
    (d.seqProxy.isSeq = true ∧ ∃ e ∈ q.byFee, e.account = d.account ∧ e.seqProxy < d.seqProxy)

/-- No attempt on a queued transaction ends in a local error or a claimed fee without being applied. -/
def Answered (env : Env AccountID Rules View) (q : TxQ AccountID Rules) : Prop :=
  ∀ account seqProxy m, q.entry account seqProxy = some m → m.Answered env

/-- Two attempts on transactions of one account with sequences are in the order of the sequences, or are attempts on one
transaction. -/
def InSequence (e f : AcceptLog AccountID View) : Prop :=
  e.candidate.account = f.candidate.account → e.candidate.seqProxy.isSeq = true → f.candidate.seqProxy.isSeq = true →
    e.candidate.seqProxy < f.candidate.seqProxy ∨ e.candidate = f.candidate

/-- What holds of the queue and of the log all along, for the queue `q₀` at the start. -/
structure AcceptCore (env : Env AccountID Rules View) (snapshot : Snapshot) (q₀ q : TxQ AccountID Rules)
    (log : List (AcceptLog AccountID View)) : Prop where
  start : q₀.Valid
  valid : q.Valid
  settings : SameSettings q₀ q
  sub : ∀ c ∈ q.byFee, c ∈ q₀.byFee
  logged : ∀ e ∈ log, e.candidate ∈ q₀.byFee
  paid : ∀ e ∈ log, getRequiredFeeLevel env snapshot e.view ≤ e.candidate.feeLevel
  order : log.Pairwise InSequence
  front : ∀ e ∈ log, e.candidate.seqProxy.isSeq = true → ∀ d ∈ q.byFee, d.account = e.candidate.account →
    e.candidate.seqProxy ≤ d.seqProxy
  retryable : q₀.Answered env → ∀ e ∈ log, e.result.Stays → e.result.Retryable

/-- Every entry comes from one of `q₀`, but that of `except`. -/
def Derived (env : Env AccountID Rules View) (q₀ q : TxQ AccountID Rules)
    (except : Candidate AccountID → Prop) : Prop :=
  ∀ account seqProxy m', q.entry account seqProxy = some m' → ¬ except m'.toCandidate →
    ∃ m, q₀.entry account seqProxy = some m ∧ m'.toCandidate = m.toCandidate ∧ (m.Kept env → m'.Kept env) ∧
      (m.Answered env → m'.Answered env)

/-- The iterator is at the first candidate of `rest`, and those of `pre` are settled. -/
structure Position (q₀ q : TxQ AccountID Rules) (log : List (AcceptLog AccountID View))
    (pre rest : List (Candidate AccountID)) : Prop where
  split : q.byFee = pre ++ rest
  settled : q₀.DistinctIDs → ∀ d ∈ pre, Settled q log d

structure AcceptInv (env : Env AccountID Rules View) (snapshot : Snapshot) (q₀ : TxQ AccountID Rules)
    (s : AcceptState AccountID Rules View) : Prop where
  core : AcceptCore env snapshot q₀ s.q s.log
  derived : Derived env q₀ s.q (fun _ => False)
  position : ∃ pre rest, s.iter = rest.head? ∧ Position q₀ s.q s.log pre rest

def AcceptState.remaining (s : AcceptState AccountID Rules View) : Nat :=
  match s.iter with
  | none => 0
  | some c => (s.q.byFee.dropWhile fun d => !c.same d).length

/-- What gets smaller in every pass: the queue, or the candidates that are left. -/
def AcceptState.measure (s : AcceptState AccountID Rules View) : Nat :=
  s.q.byFee.length * (s.q.byFee.length + 1) + s.remaining

theorem AcceptState.remaining_le (s : AcceptState AccountID Rules View) : s.remaining ≤ s.q.byFee.length := by
  rw [remaining]
  split
  · exact Nat.zero_le _
  · exact (dropWhile_suffix _).length_le

variable {s : AcceptState AccountID Rules View} {rest : List (Candidate AccountID)}

/-- What is left is what the iterator has not passed. -/
theorem AcceptState.remaining_eq (hunique : Unique s.q.byFee) (hsplit : s.q.byFee = pre ++ rest)
    (hiter : s.iter = rest.head?) : s.remaining = rest.length := by
  cases rest with
  | nil => rw [remaining, hiter, head?_nil, length_nil]
  | cons c rest =>
    rw [hsplit] at hunique
    rw [remaining, hiter, head?_cons, hsplit]
    dsimp only
    rw [hunique.dropWhile_eq]

variable {s' : AcceptState AccountID Rules View}

theorem AcceptState.measure_lt_of_length (h : s'.q.byFee.length < s.q.byFee.length) : s'.measure < s.measure := by
  have hle := s'.remaining_le
  have hmul : (s'.q.byFee.length + 1) * (s'.q.byFee.length + 1) ≤ s.q.byFee.length * (s.q.byFee.length + 1) :=
    Nat.mul_le_mul h (by omega)
  rw [Nat.succ_mul] at hmul
  rw [measure, measure]
  omega

theorem AcceptState.measure_lt_of_remaining (h : s'.q.byFee.length = s.q.byFee.length)
    (hlt : s'.remaining < s.remaining) : s'.measure < s.measure := by
  rw [measure, measure, h]
  omega

variable {env : Env AccountID Rules View} {snapshot : Snapshot} {q₀ : TxQ AccountID Rules}
  {log log' : List (AcceptLog AccountID View)}

/-- Transactions may leave the queue. -/
theorem AcceptCore.shrink (h : AcceptCore env snapshot q₀ q log) (hvalid : q'.Valid) (hsettings : SameSettings q q')
    (hsub : ∀ d ∈ q'.byFee, d ∈ q.byFee) : AcceptCore env snapshot q₀ q' log where
  __ := h
  valid := hvalid
  settings := h.settings.trans hsettings
  sub d hd := h.sub d (hsub d hd)
  front e he hseq d hd := h.front e he hseq d (hsub d hd)

/-- An attempt on the first sequence of its account is added to the log. -/
theorem AcceptCore.attempt (h : AcceptCore env snapshot q₀ q log) (hc : c ∈ q.byFee)
    (hfirst : c.seqProxy.isSeq = true → ∀ d ∈ q.byFee, d.account = c.account → c.seqProxy ≤ d.seqProxy) {view : View}
    (hpaid : getRequiredFeeLevel env snapshot view ≤ c.feeLevel) {result : ApplyResult}
    (hresult : q₀.Answered env → result.Stays → result.Retryable) :
    AcceptCore env snapshot q₀ q (log ++ [⟨c, view, result⟩]) where
  __ := h
  logged e he := by
    rcases mem_append.1 he with he | he
    · exact h.logged e he
    · rw [mem_singleton.1 he]
      exact h.sub c hc
  paid e he := by
    rcases mem_append.1 he with he | he
    · exact h.paid e he
    · rw [mem_singleton.1 he]
      exact hpaid
  order := by
    refine pairwise_append.2 ⟨h.order, pairwise_singleton .., fun e he f hf hacc hseq _ => ?_⟩
    rw [mem_singleton.1 hf] at hacc ⊢
    have hle : e.candidate.seqProxy ≤ c.seqProxy := h.front e he hseq c hc hacc.symm
    refine hle.lt_or_eq.imp_right fun heq => ?_
    exact h.start.unique.eq_of_same (h.logged e he) (h.sub c hc) ⟨hacc, heq⟩
  front e he hseq d hd hacc := by
    rcases mem_append.1 he with he | he
    · exact h.front e he hseq d hd hacc
    · rw [mem_singleton.1 he] at hseq hacc ⊢
      exact hfirst hseq d hd hacc
  retryable hanswered e he := by
    rcases mem_append.1 he with he | he
    · exact h.retryable hanswered e he
    · rw [mem_singleton.1 he]
      exact hresult hanswered

/-- What is settled stays so as the log grows. -/
theorem Settled.mono (h : Settled q log d)
    (hbyFee : q'.byFee = q.byFee) (hlog : ∀ e ∈ log, e ∈ log') : Settled q' log' d := by
  rcases h with ⟨e, he, hres⟩ | h
  · exact .inl ⟨e, hlog e he, hres⟩
  · rw [Settled, hbyFee]
    exact .inr h

/-- The state before the candidate at the iterator leaves the queue or is left behind: its entry need not come from the
start. -/
structure AtCandidate (env : Env AccountID Rules View) (snapshot : Snapshot) (q₀ q : TxQ AccountID Rules)
    (log : List (AcceptLog AccountID View)) (c : Candidate AccountID)
    (pre post : List (Candidate AccountID)) : Prop where
  core : AcceptCore env snapshot q₀ q log
  derived : Derived env q₀ q (· = c)
  position : Position q₀ q log pre (c :: post)

variable {post : List (Candidate AccountID)}

section
variable (h : AtCandidate env snapshot q₀ q log c pre post)
include h

theorem AtCandidate.mem : c ∈ q.byFee := by
  rw [h.position.split]
  exact mem_append_right _ mem_cons_self

theorem AtCandidate.replace (hm : m.toCandidate = c)
    (hr : Replaced q m q') (hcore : AcceptCore env snapshot q₀ q log') (hlog : ∀ e ∈ log, e ∈ log') :
    AtCandidate env snapshot q₀ q' log' c pre post where
  core := hcore.shrink hr.valid hr.settings fun d hd => hr.byFee ▸ hd
  derived account seqProxy m' hm' hne := by
    rw [hr.entry] at hm'
    split_ifs at hm' with hk
    · cases hm'
      exact absurd hm hne
    · exact h.derived account seqProxy m' hm' hne
  position := ⟨hr.byFee.trans h.position.split, fun hid d hd => (h.position.settled hid d hd).mono hr.byFee hlog⟩

theorem AtCandidate.setAccount {a' : TxQAccount AccountID Rules}
    (ha : q.byAccount.find a'.account = some a) (htx : a'.transactions = a.transactions) :
    AtCandidate env snapshot q₀ (q.setAccount a') log c pre post := by
  obtain ⟨hvalid, hentry⟩ := h.core.valid.setAccount ha htx
  refine ⟨h.core.shrink hvalid ⟨rfl, rfl, rfl, rfl⟩ fun _ => id, fun account seqProxy m hm => ?_, h.position.split, ?_⟩
  · rw [hentry] at hm
    exact h.derived account seqProxy m hm
  · exact fun hid d hd => (h.position.settled hid d hd).mono rfl fun _ => id

end

/-- The candidate leaves the queue, and the iterator goes on. -/
theorem AtCandidate.advance (h : AtCandidate env snapshot q₀ s.q s.log c pre post) :
    ∃ s', s.advance c = .ok s' ∧ AcceptInv env snapshot q₀ s' ∧ s'.q.byFee.length < s.q.byFee.length := by
  obtain ⟨q', pre', rest', hrun, he, hsplit, hsub, hjump⟩ := h.core.valid.eraseAndAdvance h.position.split
  refine ⟨{ s with q := q', iter := rest'.head? }, ?_, ⟨?_, ?_, pre', rest', rfl, hsplit, ?_⟩, ?_⟩
  · rw [AcceptState.advance, hrun]
    rfl
  · exact h.core.shrink he.valid he.settings fun d hd => (he.mem_byFee.1 hd).1
  · intro account seqProxy m' hm' _
    obtain ⟨hold, hk⟩ := he.entry_of_some hm'
    refine h.derived account seqProxy m' hold fun hc => hk ?_
    rw [← hc, ← h.core.valid.account_of_entry hold, ← seqProxy_of_entry hold]
    exact ⟨rfl, rfl⟩
  · intro hid d hd
    have hids : s.q.DistinctIDs := fun c hc d hd => hid c (h.core.sub c hc) d (h.core.sub d hd)
    rcases h.position.settled hid d (hsub d hd) with hlog | ⟨hseq, e, hemem, hacc, hlt⟩
    · exact .inl hlog
    · refine .inr ⟨hseq, ?_⟩
      by_cases hec : e = c
      · subst hec
        exact hjump hids d hd hacc.symm hlt
      · exact ⟨e, he.mem_byFee.2 ⟨hemem, hec⟩, hacc, hlt⟩
  · dsimp only
    rw [he.byFee]
    exact length_filter_lt_length_iff_exists.2 ⟨c, h.mem, by simp⟩

/-- The candidate stays, and the iterator goes past it. -/
theorem AtCandidate.pass (h : AtCandidate env snapshot q₀ q log c pre post)
    (hderived : Derived env q₀ q' (fun _ => False))
    (hvalid : q'.Valid) (hsettings : SameSettings q q') {p : Candidate AccountID → Bool}
    (hbyFee : q'.byFee = q.byFee.filter p) (hp : p c = true) (hsettled : q₀.DistinctIDs → Settled q' log c)
    (hlast : ∀ d ∈ q.byFee, p d = false → ∀ e ∈ q.byFee, e.account = d.account → e.seqProxy ≤ d.seqProxy)
    (hs : s = ⟨q', s.view, nextByFee c q'.byFee, s.ledgerChanged, log⟩) :
    AcceptInv env snapshot q₀ s ∧ s.remaining ≤ post.length := by
  have hsplit : q'.byFee = pre.filter p ++ c :: post.filter p := by
    rw [hbyFee, h.position.split, filter_append, filter_cons_of_pos hp]
  have hunique : Unique (pre.filter p ++ c :: post.filter p) := hsplit ▸ hvalid.unique
  have hiter : nextByFee c q'.byFee = (post.filter p).head? := by rw [hsplit]; exact hunique.nextByFee_eq
  have hsplit' : q'.byFee = (pre.filter p ++ [c]) ++ post.filter p := by
    rw [hsplit, append_assoc, singleton_append]
  rw [hs]
  refine ⟨⟨h.core.shrink hvalid hsettings ?_, hderived, pre.filter p ++ [c], post.filter p, hiter, hsplit', ?_⟩, ?_⟩
  · intro d hd
    rw [hbyFee] at hd
    exact mem_of_mem_filter hd
  · intro hid d hd
    rcases mem_append.1 hd with hd | hd
    · rcases h.position.settled hid d (mem_of_mem_filter hd) with hlog | ⟨hseq, e, hemem, hacc, hlt⟩
      · exact .inl hlog
      · have hdmem : d ∈ q.byFee := by
          rw [h.position.split]
          exact mem_append_left _ (mem_of_mem_filter hd)
        have hek : p e = true := by
          by_contra hnot
          exact absurd (hlast e hemem (Bool.eq_false_iff.2 hnot) d hdmem hacc.symm) hlt.not_ge
        refine .inr ⟨hseq, e, ?_, hacc, hlt⟩
        rw [hbyFee]
        exact mem_filter.2 ⟨hemem, hek⟩
    · rw [mem_singleton.1 hd]
      exact hsettled hid
  · rw [AcceptState.remaining_eq hvalid.unique hsplit' hiter]
    exact length_filter_le ..

/-- The last entry of an account has its greatest sequence. -/
theorem Valid.last (hq : q.Valid) (ha : q.byAccount.find c.account = some a)
    (hm : a.transactions.toList.getLast? = some m) :
    m.toCandidate ∈ q.byFee ∧ m.account = c.account ∧
      ∀ d ∈ q.byFee, d.account = m.account → d.seqProxy ≤ m.seqProxy := by
  obtain ⟨hmem, hacc⟩ := (hq.mem_transactions ha).1 ⟨m, mem_of_getLast? hm, rfl⟩
  refine ⟨hmem, hacc, fun d hd hdacc => ?_⟩
  obtain ⟨n, hn, rfl⟩ := (hq.mem_transactions ha).2 ⟨hd, hdacc.trans hacc⟩
  exact le_key_getLast? a.transactions.sorted hm hn

/-- The candidate stays in the queue, or is dropped for a penalty, or the last one of its account is. -/
theorem AtCandidate.retry (h : AtCandidate env snapshot q₀ s.q s.log c pre post) (hiter : s.iter = some c)
    (hderived : Derived env q₀ s.q (fun _ => False)) (hm : s.q.entry c.account c.seqProxy = some m)
    (hlog : ∃ e ∈ s.log, e.candidate = c ∧ e.result.Stays)
    (hlast : ∀ n, a.transactions.toList.getLast? = some n → n.toCandidate ∈ s.q.byFee ∧ n.account = c.account ∧
      ∀ d ∈ s.q.byFee, d.account = n.account → d.seqProxy ≤ n.seqProxy)
    (ter : TER) : ∃ s', s.retry c m a ter = .ok s' ∧ AcceptInv env snapshot q₀ s' ∧ s'.measure < s.measure := by
  set m' : MaybeTx AccountID Rules :=
    { m with
      retriesRemaining := if a.retryPenalty ∧ m.retriesRemaining > 2 then 1 else m.retriesRemaining - 1
      lastResult := some ter } with hm'
  have hmc : m.toCandidate = c := h.core.valid.unique.eq_of_same (h.core.valid.mem_byFee_of_entry hm) h.mem
    ⟨h.core.valid.account_of_entry hm, seqProxy_of_entry hm⟩
  obtain ⟨q₂, hset, hr⟩ := h.core.valid.setTx (m := m') (hmc ▸ h.mem : m'.toCandidate ∈ s.q.byFee)
  have hat : AtCandidate env snapshot q₀ q₂ s.log c pre post :=
    h.replace (m := m') hmc hr h.core fun _ => id
  -- the entry has the transaction and the last `preflight` that it had
  have hderived₂ : Derived env q₀ q₂ (fun _ => False) := by
    intro account seqProxy n hn _
    rw [hr.entry] at hn
    split_ifs at hn with hk
    · obtain rfl := Option.some.inj hn
      have hmentry : s.q.entry account seqProxy = some m := by
        rw [hk.1, hk.2, ← hm]
        exact congrArg (fun d : Candidate AccountID => s.q.entry d.account d.seqProxy) hmc
      obtain ⟨m₀, hm₀, hcand, hkept, hanswered⟩ := hderived account seqProxy m hmentry id
      refine ⟨m₀, hm₀, hcand, fun hk₀ => ?_, fun ha₀ => ?_⟩
      · exact ⟨(hkept hk₀).consequences, (hkept hk₀).passed, (hkept hk₀).blocker⟩
      · exact ⟨(hanswered ha₀).checked, (hanswered ha₀).preflight, (hanswered ha₀).doApply⟩
    · exact hderived account seqProxy n hn id
  have hremaining : s.remaining = post.length + 1 :=
    AcceptState.remaining_eq h.core.valid.unique h.position.split hiter
  have hstay : ∃ s', (Except.ok { s with q := q₂, iter := nextByFee c q₂.byFee } : Run Exception _) = .ok s' ∧
      AcceptInv env snapshot q₀ s' ∧ s'.measure < s.measure := by
    obtain ⟨hinv, hrem⟩ := hat.pass (s := { s with q := q₂, iter := nextByFee c q₂.byFee }) hderived₂ hr.valid (.refl _)
      (p := fun _ => true) (filter_eq_self.2 fun _ _ => rfl).symm rfl (fun _ => .inl hlog) (by simp) rfl
    refine ⟨_, rfl, hinv, AcceptState.measure_lt_of_remaining (congrArg length hr.byFee) ?_⟩
    omega
  rw [AcceptState.retry, ← hm', hset, Run.ok_bind]
  split_ifs with hpenalty hticket
  · obtain ⟨s', hrun, hinv, hlt⟩ := AtCandidate.advance (s := { s with q := q₂ }) hat
    exact ⟨s', hrun, hinv, AcceptState.measure_lt_of_length (hlt.trans_eq (congrArg length hr.byFee))⟩
  · cases hdrop : a.transactions.toList.getLast? with
    | none => exact hstay
    | some drop =>
      dsimp only
      split_ifs with hsame
      · exact hstay
      · obtain ⟨hdropmem, -, hgreatest⟩ := hlast drop hdrop
        have hdropmem₂ : drop.toCandidate ∈ q₂.byFee := hr.byFee ▸ hdropmem
        have hne : c ≠ drop.toCandidate := fun heq => hsame (same_iff.2 (by rw [heq]; exact ⟨rfl, rfl⟩))
        obtain ⟨q₃, herase, he⟩ := hr.valid.erase hdropmem₂
        rw [herase, Run.ok_bind]
        obtain ⟨hinv, -⟩ := hat.pass (s := { s with q := q₃, iter := nextByFee c q₃.byFee })
          (fun account seqProxy n hn _ => hderived₂ account seqProxy n (he.entry_of_some hn).1 id) he.valid he.settings
          (p := fun d => decide (d ≠ drop.toCandidate)) he.byFee (decide_eq_true hne) (fun _ => .inl hlog)
          (fun d hd hp e hemem hacc => by
            obtain rfl : d = drop.toCandidate := by simpa using hp
            exact hgreatest e (hr.byFee ▸ hemem) hacc) rfl
        refine ⟨_, rfl, hinv, AcceptState.measure_lt_of_length ?_⟩
        dsimp only
        rw [he.byFee, ← hr.byFee]
        exact length_filter_lt_length_iff_exists.2 ⟨_, hdropmem₂, by simp⟩
  · exact hstay

variable [DecidableEq Rules]

/-- A pass that attempts the candidate keeps the invariant. -/
theorem AcceptInv.attempt (h : AcceptInv env snapshot q₀ s) (hposition : Position q₀ s.q s.log pre (c :: post))
    (hiter : s.iter = some c) (ha : s.q.byAccount.find c.account = some a)
    (hm : a.transactions.find c.seqProxy = some m)
    (hfirst : c.seqProxy.isSeq = true → ∀ d ∈ s.q.byFee, d.account = c.account → c.seqProxy ≤ d.seqProxy)
    (hpaid : getRequiredFeeLevel env snapshot s.view ≤ c.feeLevel) :
    ∃ s', s.attempt env c m a = .ok s' ∧ AcceptInv env snapshot q₀ s' ∧ s'.measure < s.measure := by
  have hmentry : s.q.entry c.account c.seqProxy = some m := (entry_of_find ha).trans hm
  have hat : AtCandidate env snapshot q₀ s.q s.log c pre post :=
    ⟨h.core, fun account seqProxy n hn _ => h.derived account seqProxy n hn id, hposition⟩
  have hmc : m.toCandidate = c := h.core.valid.unique.eq_of_same (h.core.valid.mem_byFee_of_entry hmentry) hat.mem
    ⟨h.core.valid.account_of_entry hmentry, seqProxy_of_entry hmentry⟩
  have hm'c : (m.refresh env s.view).toCandidate = c := (m.toCandidate_refresh env s.view).trans hmc
  obtain ⟨q₁, hset, hr⟩ := h.core.valid.setTx (m := m.refresh env s.view) (hm'c ▸ hat.mem)
  have hlen : q₁.byFee.length = s.q.byFee.length := congrArg length hr.byFee
  obtain ⟨⟨result, m', view⟩, happly⟩ : ∃ r, m.apply env s.view = r := ⟨_, rfl⟩
  obtain rfl : m.refresh env s.view = m' := by rw [← m.apply_tx env s.view, happly]
  obtain ⟨m₀, hm₀, hcand, hkept, hanswered⟩ := h.derived c.account c.seqProxy m hmentry id
  have hresult : q₀.Answered env → result.Stays → result.Retryable := by
    intro hq₀ hstays
    have hm : m.Answered env := hanswered (hq₀ _ _ m₀ hm₀)
    simpa only [happly] using hm.retryable s.view (by rw [happly]; exact hstays)
  have hat₁ : AtCandidate env snapshot q₀ q₁ (s.log ++ [⟨c, s.view, result⟩]) c pre post :=
    hat.replace hm'c hr (h.core.attempt hat.mem hfirst hpaid hresult) fun _ => mem_append_left _
  rw [AcceptState.attempt, happly]
  dsimp only
  rw [hset, Run.ok_bind]
  by_cases happlied : result.applied = true
  · rw [if_pos happlied]
    obtain ⟨s', hrun, hinv, hlt⟩ := AtCandidate.advance
      (s := ⟨q₁, view, s.iter, true, s.log ++ [⟨c, s.view, result⟩]⟩) hat₁
    exact ⟨s', hrun, hinv, AcceptState.measure_lt_of_length (hlt.trans_eq hlen)⟩
  rw [if_neg happlied]
  by_cases hfail : (TER.isTefFailure result.ter || TER.isTemMalformed result.ter ||
      decide ((m.refresh env s.view).retriesRemaining ≤ 0)) = true
  · rw [if_pos hfail]
    obtain ⟨a₁, -, hacc₁, ha₁, -, -⟩ := hat₁.core.valid.accountAt hat₁.mem
    rw [hacc₁, Run.ok_bind]
    obtain ⟨a₂, hpenalty⟩ : ∃ a₂, (if (m.refresh env s.view).retriesRemaining ≤ 0 then { a₁ with retryPenalty := true }
      else { a₁ with dropPenalty := true }) = a₂ := ⟨_, rfl⟩
    have hsame : a₂.account = a₁.account ∧ a₂.transactions = a₁.transactions := by
      rw [← hpenalty]
      split_ifs with hretries
      · exact ⟨rfl, rfl⟩
      · exact ⟨rfl, rfl⟩
    have hacc₂ : a₂.account = c.account := hsame.1.trans (key_of_find ha₁)
    rw [hpenalty]
    obtain ⟨s', hrun, hinv, hlt⟩ := AtCandidate.advance
      (s := ⟨q₁.setAccount a₂, view, s.iter, s.ledgerChanged, s.log ++ [⟨c, s.view, result⟩]⟩)
      (hat₁.setAccount (hacc₂ ▸ ha₁) hsame.2)
    exact ⟨s', hrun, hinv, AcceptState.measure_lt_of_length (hlt.trans_eq hlen)⟩
  rw [if_neg hfail]
  rw [Bool.or_eq_true, Bool.or_eq_true, not_or, not_or, Bool.not_eq_true, Bool.not_eq_true] at hfail
  have hstays : result.Stays := ⟨Bool.eq_false_iff.2 happlied, hfail.1.1, hfail.1.2⟩
  have hentry₁ : q₁.entry c.account c.seqProxy = some (m.refresh env s.view) := by
    rw [hr.entry, if_pos]
    exact ⟨congrArg account hm'c.symm, congrArg seqProxy hm'c.symm⟩
  have hderived₁ : Derived env q₀ q₁ (fun _ => False) := by
    intro account seqProxy n hn _
    by_cases hnc : n.toCandidate = c
    · obtain rfl := hr.valid.account_of_entry hn
      obtain rfl := seqProxy_of_entry hn
      have heq : q₁.entry n.account n.seqProxy = q₁.entry c.account c.seqProxy :=
        congrArg (fun d : Candidate AccountID => q₁.entry d.account d.seqProxy) hnc
      rw [heq, hentry₁] at hn
      refine ⟨m₀, ?_, ?_, fun hk => ?_, fun ha₀ => ?_⟩
      · rw [← hm₀]
        exact congrArg (fun d : Candidate AccountID => q₀.entry d.account d.seqProxy) hnc
      · rw [hnc, ← hmc, hcand]
      · rw [← Option.some.inj hn]
        exact (hkept hk).refresh s.view (by rw [happly]; exact hstays)
      · rw [← Option.some.inj hn]
        exact (hanswered ha₀).refresh s.view
    · exact hat₁.derived account seqProxy n hn hnc
  obtain ⟨s', hrun, hinv, hlt⟩ := AtCandidate.retry
    (s := ⟨q₁, view, s.iter, s.ledgerChanged, s.log ++ [⟨c, s.view, result⟩]⟩) hat₁ hiter hderived₁ hentry₁
    ⟨_, mem_append_right _ mem_cons_self, rfl, hstays⟩
    (fun n hn => by
      obtain ⟨hmem, hacc, hle⟩ := h.core.valid.last ha hn
      exact ⟨hr.byFee ▸ hmem, hacc, fun d hd => hle d (hr.byFee ▸ hd)⟩) result.ter
  refine ⟨s', hrun, hinv, hlt.trans_eq ?_⟩
  rw [AcceptState.measure, AcceptState.measure, AcceptState.remaining, AcceptState.remaining]
  dsimp only
  rw [hr.byFee]

/-- Every pass keeps the invariant and gets closer to the end. -/
theorem AcceptInv.pass (h : AcceptInv env snapshot q₀ s) (hcond : acceptCondition env snapshot s = true) :
    ∃ s', acceptPass env s = .ok s' ∧ AcceptInv env snapshot q₀ s' ∧ s'.measure < s.measure := by
  obtain ⟨pre, rest, hiter, hposition⟩ := h.position
  cases rest with
  | nil =>
    rw [acceptCondition, hiter] at hcond
    cases hcond
  | cons c post =>
    rw [head?_cons] at hiter
    have hat : AtCandidate env snapshot q₀ s.q s.log c pre post :=
      ⟨h.core, fun account seqProxy n hn _ => h.derived account seqProxy n hn id, hposition⟩
    obtain ⟨a, m, hacc, ha, hm, -⟩ := h.core.valid.accountAt hat.mem
    rw [acceptPass, hiter]
    dsimp only
    rw [hacc, Run.ok_bind]
    by_cases hskip : a.skips c = true
    · rw [if_pos hskip]
      have hbehind := (h.core.valid.skips_iff ha).1 hskip
      obtain ⟨hinv, hrem⟩ := hat.pass (s := { s with iter := nextByFee c s.q.byFee }) h.derived h.core.valid (.refl _)
        (p := fun _ => true) (filter_eq_self.2 fun _ _ => rfl).symm rfl (fun _ => .inr hbehind) (by simp) rfl
      refine ⟨_, rfl, hinv, AcceptState.measure_lt_of_remaining rfl ?_⟩
      have hremaining : s.remaining = post.length + 1 :=
        AcceptState.remaining_eq h.core.valid.unique hposition.split hiter
      omega
    · rw [if_neg hskip, hm]
      have hfirst : c.seqProxy.isSeq = true → ∀ d ∈ s.q.byFee, d.account = c.account → c.seqProxy ≤ d.seqProxy := by
        intro hseq d hd hdacc
        by_contra hlt
        exact hskip ((h.core.valid.skips_iff ha).2 ⟨hseq, d, hd, hdacc, not_le.1 hlt⟩)
      rw [acceptCondition, hiter] at hcond
      dsimp only at hcond
      rw [ha] at hcond
      dsimp only at hcond
      rw [Bool.eq_false_iff.2 hskip, Bool.false_or, decide_eq_true_iff] at hcond
      exact h.attempt hposition hiter ha hm hfirst hcond

omit [DecidableEq Rules] in
/-- Where the loop stops, the candidates that are left pay too little. -/
theorem AcceptInv.feeLevel_lt (h : AcceptInv env snapshot q₀ s) (hend : acceptCondition env snapshot s = false)
    (hiter : s.iter = rest.head?) (hposition : Position q₀ s.q s.log pre rest) (hc : c ∈ rest) :
    c.feeLevel < getRequiredFeeLevel env snapshot s.view := by
  cases rest with
  | nil => cases hc
  | cons d rest =>
    have hd : d ∈ s.q.byFee := by
      rw [hposition.split]
      exact mem_append_right _ mem_cons_self
    obtain ⟨a, -, -, ha, -, -⟩ := h.core.valid.accountAt hd
    rw [acceptCondition, hiter, head?_cons] at hend
    dsimp only at hend
    rw [ha] at hend
    dsimp only at hend
    rw [Bool.or_eq_false_iff, decide_eq_false_iff_not, UInt64.not_le] at hend
    have hordered : Ordered s.q.parentHashComp (d :: rest) :=
      (pairwise_append.1 (hposition.split ▸ h.core.valid.ordered)).2.1
    rcases mem_cons.1 hc with rfl | hc
    · exact hend.2
    · exact UInt64.lt_of_le_of_lt (feeLevel_le_of_not_before ((pairwise_cons.1 hordered).1 c hc)) hend.2

/-! ## The call -/

variable (env : Env AccountID Rules View) {q : TxQ AccountID Rules} (view : View)

omit [DecidableEq Rules] in
theorem Valid.acceptInv (hq : q.Valid) (snapshot : Snapshot) :
    AcceptInv env snapshot q ⟨q, view, q.byFee.head?, false, []⟩ := by
  refine ⟨⟨hq, hq, .refl q, fun _ => id, by simp, by simp, .nil, by simp, by simp⟩, ?_, [], q.byFee, rfl, rfl, by simp⟩
  exact fun account seqProxy m hm _ => ⟨m, hm, rfl, id, id⟩

/-- What `accept` does, with as many passes as the loop needs. -/
theorem Valid.accept (hq : q.Valid) {fuel : Nat} (hfuel : q.byFee.length * (q.byFee.length + 2) ≤ fuel) :
    ∃ s, q.accept env view fuel = .ok ((s.ledgerChanged, s.log), s.view, s.q.rebuildQueue (env.parentHash s.view)) ∧
      AcceptInv env q.feeMetrics.getSnapshot q s ∧ acceptCondition env q.feeMetrics.getSnapshot s = false := by
  set s₀ : AcceptState AccountID Rules View := ⟨q, view, q.byFee.head?, false, []⟩ with hs₀
  have hmeasure : s₀.measure ≤ fuel := by
    have hle := s₀.remaining_le
    have hmul : q.byFee.length * (q.byFee.length + 2) = q.byFee.length * (q.byFee.length + 1) + q.byFee.length :=
      Nat.mul_succ ..
    rw [AcceptState.measure]
    change q.byFee.length * (q.byFee.length + 1) + s₀.remaining ≤ fuel
    change s₀.remaining ≤ q.byFee.length at hle
    omega
  obtain ⟨s, hloop, hs, hend⟩ := Run.whileDo_total (AcceptInv env q.feeMetrics.getSnapshot q) AcceptState.measure
    (fun s hs hc => hs.pass hc) fuel s₀ (hq.acceptInv env view _) hmeasure
  refine ⟨s, ?_, hs, hend⟩
  rw [TxQ.accept, ← hs₀, hloop]
  rfl

variable {env view} in
/-- Whatever fuel it has, a call of `accept` that returns keeps `Valid`, and its entries come from those before. -/
theorem Valid.of_accept (hq : q.Valid) {fuel : Nat} {r : Bool × List (AcceptLog AccountID View)} {view' : View}
    (h : q.accept env view fuel = .ok (r, view', q')) : q'.Valid ∧ Derived env q q' (fun _ => False) := by
  rw [TxQ.accept, Run.bind_eq_ok] at h
  obtain ⟨s, hloop, hs⟩ := h
  cases hs
  obtain ⟨hinv, -⟩ := Run.whileDo_eq_ok (AcceptInv env q.feeMetrics.getSnapshot q)
    (fun s s' hs hc hb => by
      obtain ⟨t, ht, hinv, -⟩ := hs.pass hc
      rw [ht] at hb
      cases hb
      exact hinv) (hq.acceptInv env view _) hloop
  exact ⟨(hinv.core.valid.rebuildQueue _).1, hinv.derived⟩

/-- Why `c` is queued after `accept`: it was attempted with one of the results `retry`, or pays less than what is
required in the end, or waits for an earlier transaction of its account. -/
def LeftQueued (retry : ApplyResult → Prop) (required : FeeLevel64) (log : List (AcceptLog AccountID View))
    (q : TxQ AccountID Rules) (c : Candidate AccountID) : Prop :=
  (∃ e ∈ log, e.candidate = c ∧ retry e.result) ∨ c.feeLevel < required ∨
    (c.seqProxy.isSeq = true ∧ ∃ d ∈ q.byFee, d.account = c.account ∧ d.seqProxy < c.seqProxy)

instance (retry : ApplyResult → Prop) [DecidablePred retry] (required : FeeLevel64)
    (log : List (AcceptLog AccountID View))
    (q : TxQ AccountID Rules) : DecidablePred (q.LeftQueued retry required log) := fun _ =>
      inferInstanceAs (Decidable (_ ∨ _))

/-- Views that count their transactions, and transactors that answer as `answer` says. -/
def exampleEnv (answer : STTx Nat → TxResult × Bool) : Env Nat Unit Nat where
  rules _ := ()
  seq _ := 1
  parentHash _ := 0
  txCount view := .ofNat view
  txs _ := []
  account _ _ := some ⟨5, 1000⟩
  ticketExists _ _ _ := false
  fees _ := ⟨10, 200⟩
  calculateBaseFee _ _ := .ok 10
  calculateDefaultBaseFee _ _ := 10
  preflight _ _ _ := exampleSuccess
  preclaim _ _ _ := ⟨exampleSuccess, true⟩
  doApply tx _ view := (answer tx, if (answer tx).2 then view + 1 else view)
  apply view tx _ := (answer tx, if (answer tx).2 then view + 1 else view)
  multiTxn view _ _ _ _ := some view
  sandbox view := view
  commit _ view := view
  preflight_stable _ _ _ _ _ h := .inl h

/-- The transactions of the account 0 get `ter` and are not applied, those of others are. -/
def refuseFirst (ter : TxResult) : Env Nat Unit Nat :=
  exampleEnv fun tx => if tx.account = 0 then (ter, false) else (exampleSuccess, true)

def retryFirst : Env Nat Unit Nat := refuseFirst ⟨TER.terRETRY, by decide⟩

/-- By fee: one of the account 0, one behind it, one that is applied, and one for which the fee is too low then. -/
def exampleWaiting : TxQ Nat Unit :=
  exampleQueue [exampleEntry (exampleTx 0 5 .normal 24000) 614400, exampleEntry (exampleTx 0 6 .normal 22000) 563200,
    exampleEntry (exampleTx 1 5 .normal 100) 2560, exampleEntry (exampleTx 2 5 .normal 20) 512]

theorem valid_exampleWaiting : exampleWaiting.Valid ∧ exampleWaiting.DistinctIDs := by
  rw [DistinctIDs]
  decide +kernel

theorem answered_exampleWaiting : exampleWaiting.Answered retryFirst := by
  have hchecked : ∀ a ∈ exampleWaiting.byAccount.toList, ∀ m ∈ a.transactions.toList,
      TER.isTesSuccess m.pfResult.ter.1 = true := by decide +kernel
  intro account seqProxy m hm
  obtain ⟨a, ha, hm, -⟩ := entry_eq_some.1 hm
  refine ⟨.inl (hchecked a (find_eq_some.1 ha).1 m hm), fun _ => .inl rfl, fun view => ?_⟩
  by_cases hfirst : m.txn.account = 0
  · refine .inr (.inr (.inr ?_))
    simp only [retryFirst, refuseFirst, exampleEnv, hfirst, if_pos]
    rfl
  · refine .inl ?_
    simp only [retryFirst, refuseFirst, exampleEnv, hfirst, if_false]

end TxQ

end Rippled.TxQueue
