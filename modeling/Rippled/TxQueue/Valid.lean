import Rippled.TxQueue.Accept

/-!
# What holds of the two sides of the queue

`Valid` says that `byFee` has exactly the candidates that `byAccount` stores, each once and in order. Every edit of the
queue is described by what it does to the entries (`entry`), and keeps `Valid`.
-/

namespace Rippled.TxQueue

open Lib List KeyedMap Candidate

/-! ## The order of the candidates -/

section Order

variable {AccountID : Type} {parentHash : BitVec 256} {c d e : Candidate AccountID}

/-- Higher fee levels come first, and then the hashes decide. -/
theorem Candidate.before_iff : c.before parentHash d = true ↔
    d.feeLevel < c.feeLevel ∨ c.feeLevel = d.feeLevel ∧ (c.txID ^^^ parentHash) < (d.txID ^^^ parentHash) := by
  unfold before
  split_ifs with h
  · simp [h, UInt64.lt_irrefl]
  · simp [h]

theorem Candidate.not_before_of_before (h : c.before parentHash d = true) : d.before parentHash c = false := by
  rw [Bool.eq_false_iff]
  intro h'
  rw [before_iff] at h h'
  rw [UInt64.lt_iff_toNat_lt, ← UInt64.toNat_inj, BitVec.lt_def] at h h'
  omega

section
variable (h : d.before parentHash c = false)
include h

/-- Not being before another is transitive. -/
theorem Candidate.not_before_trans (h' : e.before parentHash d = false) : e.before parentHash c = false := by
  rw [Bool.eq_false_iff, ne_eq, before_iff, UInt64.lt_iff_toNat_lt, ← UInt64.toNat_inj, BitVec.lt_def] at h h' ⊢
  omega

/-- Of two with different ids one is before the other. -/
theorem Candidate.before_of_not_before (hid : c.txID ≠ d.txID) : c.before parentHash d = true := by
  have hne : c.txID ^^^ parentHash ≠ d.txID ^^^ parentHash := fun heq => hid ((BitVec.xor_left_inj _).1 heq)
  rw [Bool.eq_false_iff, ne_eq, before_iff, UInt64.lt_iff_toNat_lt, ← UInt64.toNat_inj, BitVec.lt_def] at h
  rw [before_iff, UInt64.lt_iff_toNat_lt, ← UInt64.toNat_inj, BitVec.lt_def]
  rw [ne_eq, ← BitVec.toNat_inj] at hne
  omega

theorem Candidate.feeLevel_le_of_not_before : d.feeLevel ≤ c.feeLevel := by
  rw [Bool.eq_false_iff, ne_eq, before_iff] at h
  exact UInt64.not_lt.1 fun hlt => h (.inl hlt)

end

/-- The list goes by decreasing fee. -/
def Ordered (parentHash : BitVec 256) (l : List (Candidate AccountID)) : Prop :=
  l.Pairwise fun c d => d.before parentHash c = false

/-- The insertion adds the candidate and nothing else. -/
theorem perm_insertByFee (parentHash : BitVec 256) (c : Candidate AccountID) (l : List (Candidate AccountID)) :
    (insertByFee parentHash c l).Perm (c :: l) := by
  induction l with
  | nil => exact .refl _
  | cons d l ih =>
    rw [insertByFee]
    split_ifs with h
    · exact .refl _
    · exact (ih.cons d).trans (.swap c d l)

variable {l : List (Candidate AccountID)}

/-- The insertion keeps the order. -/
theorem Ordered.insertByFee (h : Ordered parentHash l) (c : Candidate AccountID) :
    Ordered parentHash (insertByFee parentHash c l) := by
  induction l with
  | nil => exact pairwise_singleton ..
  | cons d l ih =>
    obtain ⟨hd, hl⟩ := pairwise_cons.1 h
    rw [TxQueue.insertByFee]
    split_ifs with hcd
    · have hdc : d.before parentHash c = false := not_before_of_before hcd
      refine pairwise_cons.2 ⟨fun e he => ?_, h⟩
      rcases mem_cons.1 he with rfl | he
      · exact hdc
      · exact not_before_trans hdc (hd e he)
    · refine pairwise_cons.2 ⟨fun e he => ?_, ih hl⟩
      rcases mem_cons.1 ((perm_insertByFee parentHash c l).subset he) with rfl | he
      · exact Bool.eq_false_iff.2 hcd
      · exact hd e he

theorem ordered_foldl_insertByFee (parentHash : BitVec 256) {Rules : Type} (ms : List (MaybeTx AccountID Rules))
    (h : Ordered parentHash l) : Ordered parentHash
    (ms.foldl (fun l m => insertByFee parentHash m.toCandidate l) l) := by
  induction ms generalizing l with
  | nil => exact h
  | cons m ms ih => exact ih (h.insertByFee _)

theorem perm_foldl_insertByFee (parentHash : BitVec 256) {Rules : Type} (ms : List (MaybeTx AccountID Rules))
    (l : List (Candidate AccountID)) :
    (ms.foldl (fun l m => insertByFee parentHash m.toCandidate l) l).Perm (ms.map (·.toCandidate) ++ l) := by
  induction ms generalizing l with
  | nil => exact .refl _
  | cons m ms ih =>
    rw [foldl_cons, map_cons, cons_append]
    exact (ih _).trans (((perm_insertByFee ..).append_left _).trans perm_middle)

variable [LinearOrder AccountID]

theorem Candidate.same_iff : c.same d = true ↔ c.account = d.account ∧ c.seqProxy = d.seqProxy := by
  rw [same, decide_eq_true_iff]

theorem Candidate.same_comm : c.same d = d.same c := by
  rw [Bool.eq_iff_iff, same_iff, same_iff]
  exact and_congr eq_comm eq_comm

/-- No two candidates of the list stand for one entry. -/
def Unique (l : List (Candidate AccountID)) : Prop := l.Pairwise fun c d => c.same d = false

theorem Unique.perm {l' : List (Candidate AccountID)} (h : Unique l) (hperm : l.Perm l') : Unique l' :=
  (hperm.pairwise_iff fun hcd => same_comm.trans hcd).1 h

theorem Unique.nodup (h : Unique l) : l.Nodup := by
  refine List.Pairwise.imp ?_ h
  rintro c d hcd rfl
  exact Bool.eq_false_iff.1 hcd (same_iff.2 ⟨rfl, rfl⟩)

/-- An account has one candidate for a sequence or ticket. -/
theorem Unique.eq_of_same (h : Unique l) (hc : c ∈ l) (hd : d ∈ l)
    (hs : c.account = d.account ∧ c.seqProxy = d.seqProxy) : c = d := by
  induction l with
  | nil => cases hc
  | cons e l ih =>
    obtain ⟨he, hl⟩ := pairwise_cons.1 h
    have hsame : c.same d = true := same_iff.2 hs
    rcases mem_cons.1 hc with hce | hc <;> rcases mem_cons.1 hd with hde | hd
    · rw [hce, hde]
    · exact absurd hsame (Bool.eq_false_iff.1 (hce ▸ he d hd))
    · exact absurd (same_comm.trans hsame) (Bool.eq_false_iff.1 (hde ▸ he c hc))
    · exact ih hl hc hd

/-- The first match is the only one. -/
theorem Unique.eraseByFee_eq (h : Unique l) (hc : c ∈ l) : eraseByFee c l = l.filter (· ≠ c) := by
  induction l with
  | nil => cases hc
  | cons e l ih =>
    obtain ⟨he, hl⟩ := pairwise_cons.1 h
    rw [eraseByFee]
    by_cases hce : e = c
    · subst hce
      rw [eraseP_cons_of_pos (same_iff.2 ⟨rfl, rfl⟩), filter_cons_of_neg (by simp)]
      refine (filter_eq_self.2 fun d hd => ?_).symm
      rw [decide_eq_true_iff]
      rintro rfl
      exact Bool.eq_false_iff.1 (he d hd) (same_iff.2 ⟨rfl, rfl⟩)
    · have hcl : c ∈ l := (mem_cons.1 hc).resolve_left (Ne.symm hce)
      have hns : ¬ c.same e = true := by
        rw [same_comm, he c hcl]
        exact Bool.false_ne_true
      rw [eraseP_cons_of_neg hns, filter_cons_of_pos (by simpa using hce), ← ih hl hcl]
      rfl

variable {post pre : List (Candidate AccountID)}

theorem Unique.dropWhile_eq (h : Unique (pre ++ c :: post)) :
    (pre ++ c :: post).dropWhile (fun d => !c.same d) = c :: post := by
  have hcross : ∀ d ∈ pre, c.same d = false := fun d hd =>
    same_comm.trans ((pairwise_append.1 h).2.2 d hd c mem_cons_self)
  rw [dropWhile_append_of_pos fun d hd => by simp [hcross d hd], dropWhile_cons_of_neg]
  simp [same_iff]

/-- The candidate behind another. -/
theorem Unique.nextByFee_eq (h : Unique (pre ++ c :: post)) : nextByFee c (pre ++ c :: post) = post.head? := by
  rw [nextByFee, h.dropWhile_eq, tail_cons]

end Order

variable {AccountID Rules View : Type} [LinearOrder AccountID]

/-! ## The entries -/

namespace TxQ

/-- The entry of an account with a sequence or ticket. -/
def entry (q : TxQ AccountID Rules) (account : AccountID) (seqProxy : SeqProxy) : Option (MaybeTx AccountID Rules) :=
  (q.byAccount.find account).bind (·.transactions.find seqProxy)

/-- `byFee` and `byAccount` have the same candidates. -/
structure Valid (q : TxQ AccountID Rules) : Prop where
  owned : ∀ a ∈ q.byAccount.toList, ∀ m ∈ a.transactions.toList, m.account = a.account
  stored : ∀ c, c ∈ q.byFee ↔ ∃ a ∈ q.byAccount.toList, ∃ m ∈ a.transactions.toList, m.toCandidate = c
  unique : Unique q.byFee
  ordered : Ordered q.parentHashComp q.byFee

/-- The invariant as a test over the entries. -/
theorem valid_iff (q : TxQ AccountID Rules) : q.Valid ↔
    (∀ a ∈ q.byAccount.toList, ∀ m ∈ a.transactions.toList, m.account = a.account ∧ m.toCandidate ∈ q.byFee) ∧
    (∀ c ∈ q.byFee, ∃ a ∈ q.byAccount.toList, ∃ m ∈ a.transactions.toList, m.toCandidate = c) ∧
    Unique q.byFee ∧ Ordered q.parentHashComp q.byFee := by
  constructor
  · intro h
    refine ⟨fun a ha m hm => ⟨h.owned a ha m hm, (h.stored _).2 ⟨a, ha, m, hm, rfl⟩⟩,
      fun c => (h.stored c).1, h.unique, h.ordered⟩
  · rintro ⟨hentries, hstored, hunique, hordered⟩
    refine ⟨fun a ha m hm => (hentries a ha m hm).1, fun c => ⟨hstored c, ?_⟩, hunique, hordered⟩
    rintro ⟨a, ha, m, hm, rfl⟩
    exact (hentries a ha m hm).2

instance (l : List (Candidate AccountID)) : Decidable (Unique l) := inferInstanceAs (Decidable (l.Pairwise _))

instance (parentHash : BitVec 256) (l : List (Candidate AccountID)) : Decidable (Ordered parentHash l) :=
  inferInstanceAs (Decidable (l.Pairwise _))

instance (q : TxQ AccountID Rules) : Decidable q.Valid := decidable_of_iff' _ q.valid_iff

/-- What an edit of the entries leaves alone. -/
structure SameSettings (q q' : TxQ AccountID Rules) : Prop where
  setup : q'.setup = q.setup
  feeMetrics : q'.feeMetrics = q.feeMetrics
  maxSize : q'.maxSize = q.maxSize
  parentHashComp : q'.parentHashComp = q.parentHashComp

theorem SameSettings.refl (q : TxQ AccountID Rules) : SameSettings q q := ⟨rfl, rfl, rfl, rfl⟩

variable {q'' : TxQ AccountID Rules}

theorem SameSettings.trans {q q' : TxQ AccountID Rules} (h : SameSettings q q') (h' : SameSettings q' q'') :
    SameSettings q q'' :=
  ⟨h'.setup.trans h.setup, h'.feeMetrics.trans h.feeMetrics, h'.maxSize.trans h.maxSize,
    h'.parentHashComp.trans h.parentHashComp⟩

variable {q q' : TxQ AccountID Rules} {a : TxQAccount AccountID Rules} {m : MaybeTx AccountID Rules}
  {c d : Candidate AccountID} {account : AccountID} {seqProxy : SeqProxy}

theorem entry_eq_some : q.entry account seqProxy = some m ↔
    ∃ a, q.byAccount.find account = some a ∧ m ∈ a.transactions.toList ∧ m.seqProxy = seqProxy := by
  rw [entry, Option.bind_eq_some_iff]
  exact exists_congr fun a => and_congr_right fun _ => find_eq_some

theorem entry_of_find (h : q.byAccount.find account = some a) :
    q.entry account seqProxy = a.transactions.find seqProxy := by
  rw [entry, h, Option.bind_some]

theorem seqProxy_of_entry (h : q.entry account seqProxy = some m) : m.seqProxy = seqProxy := by
  obtain ⟨a, -, -, hm⟩ := entry_eq_some.1 h
  exact hm

section
variable (q : TxQ AccountID Rules) (a : TxQAccount AccountID Rules) (account : AccountID)

theorem find_setAccount :
    (q.setAccount a).byAccount.find account = if account = a.account then some a else q.byAccount.find account :=
  find_insert ..

/-- Only the entries of the account change. -/
theorem entry_setAccount (seqProxy : SeqProxy) :
    (q.setAccount a).entry account seqProxy =
      if account = a.account then a.transactions.find seqProxy else q.entry account seqProxy := by
  rw [entry, find_setAccount]
  split_ifs with h
  · rfl
  · rfl

end

theorem entry_setAccount_of_find {s : SeqProxy} {o : Option (MaybeTx AccountID Rules)} (ha : a.account = account)
    (hself : a.transactions.find s = o) (hother : ∀ seqProxy ≠ s,
      a.transactions.find seqProxy = q.entry account seqProxy)
    (account' : AccountID) (seqProxy : SeqProxy) : (q.setAccount a).entry account' seqProxy =
      if account' = account ∧ seqProxy = s then o else q.entry account' seqProxy := by
  rw [entry_setAccount, ha]
  by_cases hk : account' = account
  · rw [if_pos hk, hk]
    by_cases hs : seqProxy = s
    · rw [if_pos ⟨rfl, hs⟩, hs, hself]
    · rw [if_neg fun h => hs h.2, hother seqProxy hs]
  · rw [if_neg hk, if_neg fun h => hk h.1]

/-- Entries are under their own account. -/
theorem owned_iff : (∀ a ∈ q.byAccount.toList, ∀ m ∈ a.transactions.toList, m.account = a.account) ↔
    ∀ account seqProxy m, q.entry account seqProxy = some m → m.account = account := by
  constructor
  · intro h account seqProxy m hm
    obtain ⟨a, ha, hmem, -⟩ := entry_eq_some.1 hm
    obtain ⟨hamem, rfl⟩ := find_eq_some.1 ha
    exact h a hamem m hmem
  · intro h a ha m hm
    exact h a.account m.seqProxy m (entry_eq_some.2 ⟨a, mem_toList.1 ha, hm, rfl⟩)

theorem Valid.account_of_entry (hq : q.Valid) (h : q.entry account seqProxy = some m) : m.account = account :=
  owned_iff.1 hq.owned account seqProxy m h

theorem stored_iff (howned : ∀ account seqProxy m, q.entry account seqProxy = some m → m.account = account) :
    (∃ a ∈ q.byAccount.toList, ∃ m ∈ a.transactions.toList, m.toCandidate = c) ↔
      ∃ m, q.entry c.account c.seqProxy = some m ∧ m.toCandidate = c := by
  constructor
  · rintro ⟨a, ha, m, hm, rfl⟩
    have hentry : q.entry a.account m.seqProxy = some m := entry_eq_some.2 ⟨a, mem_toList.1 ha, hm, rfl⟩
    exact ⟨m, howned _ _ _ hentry ▸ hentry, rfl⟩
  · rintro ⟨m, hm, rfl⟩
    obtain ⟨a, ha, hmem, -⟩ := entry_eq_some.1 hm
    exact ⟨a, (find_eq_some.1 ha).1, m, hmem, rfl⟩

/-- A candidate is in `byFee` exactly if it is the entry of its account and sequence. -/
theorem Valid.mem_byFee (hq : q.Valid) : c ∈ q.byFee ↔ ∃ m, q.entry c.account c.seqProxy = some m ∧ m.toCandidate = c :=
  (hq.stored c).trans (stored_iff (owned_iff.1 hq.owned))

theorem Valid.mem_byFee_of_entry (hq : q.Valid) (h : q.entry account seqProxy = some m) : m.toCandidate ∈ q.byFee := by
  obtain rfl := hq.account_of_entry h
  obtain rfl := seqProxy_of_entry h
  exact hq.mem_byFee.2 ⟨m, h, rfl⟩

theorem Valid.of_entry (howned : ∀ account seqProxy m, q.entry account seqProxy = some m → m.account = account)
    (hmem : ∀ c, c ∈ q.byFee ↔ ∃ m, q.entry c.account c.seqProxy = some m ∧
      m.toCandidate = c) (hunique : Unique q.byFee)
    (hordered : Ordered q.parentHashComp q.byFee) : q.Valid where
  owned := owned_iff.2 howned
  stored c := (hmem c).trans (stored_iff howned).symm
  unique := hunique
  ordered := hordered

/-- `at` does not throw for the account of a queued candidate. -/
theorem Valid.accountAt (hq : q.Valid) (hc : c ∈ q.byFee) :
    ∃ a m, q.accountAt c.account = .ok a ∧ q.byAccount.find c.account = some a ∧
      a.transactions.find c.seqProxy = some m ∧ m.toCandidate = c := by
  obtain ⟨m, hm, hmc⟩ := hq.mem_byFee.1 hc
  obtain ⟨a, ha, hfind⟩ := Option.bind_eq_some_iff.1 hm
  refine ⟨a, m, ?_, ha, hfind, hmc⟩
  rw [TxQ.accountAt, ha]

/-! ## Edits -/

structure Erased (q : TxQ AccountID Rules) (c : Candidate AccountID) (q' : TxQ AccountID Rules) : Prop where
  valid : q'.Valid
  settings : SameSettings q q'
  byFee : q'.byFee = q.byFee.filter (· ≠ c)
  entry : ∀ account seqProxy, q'.entry account seqProxy =
    if account = c.account ∧ seqProxy = c.seqProxy then none else q.entry account seqProxy

theorem Erased.mem_byFee (h : Erased q c q') : d ∈ q'.byFee ↔ d ∈ q.byFee ∧ d ≠ c := by
  rw [h.byFee, mem_filter, decide_eq_true_iff]

/-- What is left was there, under another key. -/
theorem Erased.entry_of_some (h : Erased q c q') (hm : q'.entry account seqProxy = some m) :
    q.entry account seqProxy = some m ∧ ¬ (account = c.account ∧ seqProxy = c.seqProxy) := by
  rw [h.entry] at hm
  split_ifs at hm with hk
  exact ⟨hm, hk⟩

/-- Nothing happened but that entries have gone. -/
structure Shrunk (q q' : TxQ AccountID Rules) : Prop where
  valid : q'.Valid
  settings : SameSettings q q'
  entry : ∀ account seqProxy m, q'.entry account seqProxy = some m → q.entry account seqProxy = some m

theorem Shrunk.refl (hq : q.Valid) : Shrunk q q := ⟨hq, .refl q, fun _ _ _ => id⟩

theorem Shrunk.trans (h : Shrunk q q') (h' : Shrunk q' q'') : Shrunk q q'' :=
  ⟨h'.valid, h.settings.trans h'.settings, fun _ _ _ hm => h.entry _ _ _ (h'.entry _ _ _ hm)⟩

theorem Erased.shrunk (h : Erased q c q') : Shrunk q q' := ⟨h.valid, h.settings, fun _ _ _ hm => (h.entry_of_some hm).1⟩

/-- A queued candidate is erased from both indexes. -/
theorem Valid.erase (hq : q.Valid) (hc : c ∈ q.byFee) : ∃ q', q.erase c = .ok q' ∧ Erased q c q' := by
  obtain ⟨a, m, hat, ha, -, -⟩ := hq.accountAt hc
  have hacc : a.account = c.account := key_of_find ha
  have hentry := entry_setAccount_of_find (a := a.remove c.seqProxy) hacc (a.transactions.find_erase_self c.seqProxy)
    fun seqProxy hs => (a.transactions.find_erase_of_ne hs).trans (entry_of_find ha).symm
  refine ⟨{ q.setAccount (a.remove c.seqProxy) with byFee := eraseByFee c q.byFee }, by rw [TxQ.erase, hat]; rfl, ?_,
    ⟨rfl, rfl, rfl, rfl⟩, hq.unique.eraseByFee_eq hc, hentry⟩
  refine .of_entry (fun account seqProxy m hm => ?_) (fun d => ?_) ?_ ?_
  · change (q.setAccount _).entry _ _ = _ at hm
    rw [hentry] at hm
    split_ifs at hm
    exact hq.account_of_entry hm
  · change d ∈ eraseByFee c q.byFee ↔ ∃ m, (q.setAccount _).entry _ _ = some m ∧ _
    rw [hq.unique.eraseByFee_eq hc, mem_filter, decide_eq_true_iff, hentry, hq.mem_byFee]
    constructor
    · rintro ⟨⟨m, hm, hmd⟩, hne⟩
      refine ⟨m, ?_, hmd⟩
      rw [if_neg fun hk => hne (hq.unique.eq_of_same (hq.mem_byFee.2 ⟨m, hm, hmd⟩) hc hk)]
      exact hm
    · rintro ⟨m, hm, hmd⟩
      split_ifs at hm with hk
      exact ⟨⟨m, hm, hmd⟩, fun hdc => hk (by rw [hdc]; exact ⟨rfl, rfl⟩)⟩
  · change Unique (eraseByFee c q.byFee)
    rw [hq.unique.eraseByFee_eq hc]
    exact hq.unique.filter _
  · change Ordered q.parentHashComp (eraseByFee c q.byFee)
    rw [hq.unique.eraseByFee_eq hc]
    exact hq.ordered.filter _

structure Replaced (q : TxQ AccountID Rules) (m : MaybeTx AccountID Rules) (q' : TxQ AccountID Rules) : Prop where
  valid : q'.Valid
  settings : SameSettings q q'
  byFee : q'.byFee = q.byFee
  entry : ∀ account seqProxy, q'.entry account seqProxy =
    if account = m.account ∧ seqProxy = m.seqProxy then some m else q.entry account seqProxy

/-- An entry is replaced in place. -/
theorem Valid.setTx (hq : q.Valid) (hm : m.toCandidate ∈ q.byFee) : ∃ q', q.setTx m = .ok q' ∧ Replaced q m q' := by
  obtain ⟨a, m₀, hat, ha, hfind, hm₀⟩ := hq.accountAt hm
  have hacc : a.account = m.account := key_of_find ha
  have hentry := entry_setAccount_of_find (a := { a with transactions := a.transactions.insert m })
      (s := m.seqProxy) hacc
    (a.transactions.find_insert_self m) fun seqProxy hs =>
      (a.transactions.find_insert_of_ne hs).trans (entry_of_find ha).symm
  refine ⟨q.setAccount { a with transactions := a.transactions.insert m }, by rw [TxQ.setTx, hat]; rfl, ?_,
    ⟨rfl, rfl, rfl, rfl⟩, rfl, hentry⟩
  refine .of_entry (fun account seqProxy n hn => ?_) (fun d => ?_) hq.unique hq.ordered
  · rw [hentry] at hn
    split_ifs at hn with hk
    · rw [← Option.some.inj hn, hk.1]
    · exact hq.account_of_entry hn
  · change d ∈ q.byFee ↔ _
    rw [hentry, hq.mem_byFee]
    split_ifs with hk
    · rw [hk.1, hk.2, entry_of_find ha, hfind]
      simp [hm₀]
    · rfl

theorem Valid.setAccount (hq : q.Valid) {b : TxQAccount AccountID Rules} (ha : q.byAccount.find b.account = some a)
    (htx : b.transactions = a.transactions) :
    (q.setAccount b).Valid ∧ ∀ account seqProxy,
    (q.setAccount b).entry account seqProxy = q.entry account seqProxy := by
  have hentry : ∀ account seqProxy, (q.setAccount b).entry account seqProxy = q.entry account seqProxy := by
    intro account seqProxy
    rw [entry_setAccount]
    split_ifs with hk
    · rw [hk, entry_of_find ha, htx]
    · rfl
  refine ⟨.of_entry (fun account seqProxy m hm => ?_) (fun c => ?_) hq.unique hq.ordered, hentry⟩
  · rw [hentry] at hm
    exact hq.account_of_entry hm
  · rw [hentry]
    exact hq.mem_byFee

structure Added (q : TxQ AccountID Rules) (m : MaybeTx AccountID Rules) (q' : TxQ AccountID Rules) : Prop where
  valid : q'.Valid
  settings : SameSettings q q'
  byFee : q'.byFee.Perm (m.toCandidate :: q.byFee)
  entry : ∀ account seqProxy, q'.entry account seqProxy =
    if account = m.account ∧ seqProxy = m.seqProxy then some m else q.entry account seqProxy

/-- A transaction with a free sequence is added to both indexes. -/
theorem Valid.addTxToQueue (hq : q.Valid) (x : Attempt AccountID Rules View)
    (hnone : q.entry x.tx.account x.txSeq = none) :
    Added q (.make x.tx x.feeLevelPaid (x.flags &&& ~~~tapRetry) x.preflightRes) (x.addTxToQueue q) := by
  set m : MaybeTx AccountID Rules := .make x.tx x.feeLevelPaid (x.flags &&& ~~~tapRetry) x.preflightRes
  have hmacc : m.account = x.tx.account := rfl
  have hmseq : m.seqProxy = x.txSeq := rfl
  set t : TxQAccount AccountID Rules := (q.byAccount.find x.tx.account).getD (.make x.tx.account) with htdef
  have ht : t.account = x.tx.account ∧ ∀ seqProxy, t.transactions.find seqProxy = q.entry x.tx.account seqProxy := by
    cases hfind : q.byAccount.find x.tx.account with
    | none =>
      rw [hfind] at htdef
      rw [htdef]
      refine ⟨rfl, fun seqProxy => ?_⟩
      rw [entry, hfind]
      rfl
    | some a =>
      rw [hfind] at htdef
      rw [htdef]
      exact ⟨key_of_find hfind, fun seqProxy => (entry_of_find hfind).symm⟩
  have hadd : t.add m = { t with transactions := t.transactions.insert m } := by
    rw [TxQAccount.add, ht.2, hmseq, hnone]
  have heq : x.addTxToQueue q =
      { q.setAccount (t.add m) with byFee := insertByFee q.parentHashComp m.toCandidate q.byFee } := rfl
  have hentry := entry_setAccount_of_find (a := { t with transactions := t.transactions.insert m })
      (s := m.seqProxy) ht.1
    (t.transactions.find_insert_self m) fun seqProxy hs => (t.transactions.find_insert_of_ne hs).trans (ht.2 seqProxy)
  rw [← hadd, ← hmacc] at hentry
  have hperm : (insertByFee q.parentHashComp m.toCandidate q.byFee).Perm
      (m.toCandidate :: q.byFee) := perm_insertByFee ..
  rw [heq]
  refine ⟨.of_entry (fun account seqProxy n hn => ?_) (fun d => ?_) ?_ (hq.ordered.insertByFee _),
    ⟨rfl, rfl, rfl, rfl⟩, hperm,
    hentry⟩
  · change (q.setAccount _).entry _ _ = _ at hn
    rw [hentry] at hn
    split_ifs at hn with hk
    · rw [← Option.some.inj hn, hk.1]
    · exact hq.account_of_entry hn
  · change d ∈ insertByFee _ _ _ ↔ ∃ n, (q.setAccount _).entry _ _ = some n ∧ _
    rw [hperm.mem_iff, mem_cons, hq.mem_byFee, hentry]
    split_ifs with hk
    · rw [hk.1, hk.2, hmacc, hmseq, hnone]
      simp [eq_comm]
    · refine ⟨fun h => h.resolve_left fun hd => hk (hd ▸ ⟨rfl, rfl⟩), .inr⟩
  · refine Unique.perm ?_ hperm.symm
    refine pairwise_cons.2 ⟨fun d hd => ?_, hq.unique⟩
    rw [Bool.eq_false_iff]
    intro hs
    obtain ⟨hacc, hseq⟩ := same_iff.1 hs
    obtain ⟨n, hn, -⟩ := hq.mem_byFee.1 hd
    rw [← hacc, ← hseq] at hn
    rw [show q.entry m.account m.seqProxy = none from hnone] at hn
    cases hn

/-- Only accounts without entries go. -/
theorem entry_dropEmptyAccounts (q : TxQ AccountID Rules) (account : AccountID) (seqProxy : SeqProxy) :
    q.dropEmptyAccounts.entry account seqProxy = q.entry account seqProxy := by
  ext m
  rw [entry_eq_some, entry_eq_some]
  refine exists_congr fun a => ?_
  rw [find_eq_some, find_eq_some, dropEmptyAccounts, mem_filter]
  constructor
  · rintro ⟨⟨⟨ha, -⟩, hk⟩, hm⟩
    exact ⟨⟨ha, hk⟩, hm⟩
  · rintro ⟨⟨ha, hk⟩, hm⟩
    have hne : a.transactions.toList ≠ [] := ne_nil_of_mem hm.1
    exact ⟨⟨⟨ha, by simpa using hne⟩, hk⟩, hm⟩

theorem Valid.dropEmptyAccounts (hq : q.Valid) : q.dropEmptyAccounts.Valid := by
  refine .of_entry (fun account seqProxy m hm => ?_) (fun c => ?_) hq.unique hq.ordered
  · rw [entry_dropEmptyAccounts] at hm
    exact hq.account_of_entry hm
  · rw [entry_dropEmptyAccounts]
    exact hq.mem_byFee

/-! ## The candidates put in another order -/

/-- The entries of all accounts, one account after another, are different. -/
theorem Valid.unique_stored (hq : q.Valid) :
    Unique ((q.byAccount.toList.flatMap (·.transactions.toList)).map (·.toCandidate)) := by
  rw [Unique, pairwise_map, pairwise_flatMap]
  constructor
  · intro a ha
    refine a.transactions.sorted.imp fun {m n} hlt => ?_
    rw [Bool.eq_false_iff]
    exact fun hs => hlt.ne (same_iff.1 hs).2
  · refine q.byAccount.sorted.imp_of_mem fun {a b} ha hb hlt m hm n hn => ?_
    rw [Bool.eq_false_iff]
    intro hs
    have hacc : m.account = n.account := (same_iff.1 hs).1
    rw [hq.owned a ha m hm, hq.owned b hb n hn] at hacc
    exact hlt.ne hacc

/-- Another order, with the same candidates. -/
theorem Valid.rebuildQueue (hq : q.Valid) (parentHash : BitVec 256) :
    (q.rebuildQueue parentHash).Valid ∧ (q.rebuildQueue parentHash).byFee.Perm q.byFee := by
  have hperm : (q.rebuildQueue parentHash).byFee.Perm
      ((q.byAccount.toList.flatMap (·.transactions.toList)).map (·.toCandidate)) := by
    have hfold := perm_foldl_insertByFee parentHash (q.byAccount.toList.flatMap (·.transactions.toList)) []
    rwa [append_nil] at hfold
  have hmem : ∀ c, c ∈ (q.rebuildQueue parentHash).byFee ↔ c ∈ q.byFee := by
    intro c
    rw [hperm.mem_iff, hq.stored]
    simp only [mem_map, mem_flatMap]
    constructor
    · rintro ⟨m, ⟨a, ha, hm⟩, hmc⟩
      exact ⟨a, ha, m, hm, hmc⟩
    · rintro ⟨a, ha, m, hm, hmc⟩
      exact ⟨m, ⟨a, ha, hm⟩, hmc⟩
  have hunique : Unique (q.rebuildQueue parentHash).byFee := hq.unique_stored.perm hperm.symm
  refine ⟨⟨hq.owned, fun c => (hmem c).trans (hq.stored c), hunique, ?_⟩, ?_⟩
  · exact ordered_foldl_insertByFee parentHash _ .nil
  · exact (perm_ext_iff_of_nodup hunique.nodup hq.unique.nodup).2 hmem

end TxQ

end Rippled.TxQueue
