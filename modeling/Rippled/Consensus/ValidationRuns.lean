import Rippled.Consensus.ValidationSteps

/-!
# Runs of the validation store

A run calls the operations of the store in any order. Between calls the adaptor's state may change in any way (time
passes, ledgers arrive) and the unordered containers may be iterated in another order. The flag of every new
validation is that of the trusted set of the moment.
-/

namespace Rippled.Consensus.Validations

open Lib

variable {A NodeID L ID : Type}

inductive Op (NodeID L ID : Type) where
  | add (nodeID : NodeID) (val : Validation ID)
  | trustChanged (added removed : List NodeID)
  | getPreferred (curr : L)
  | getNodesAfter (ledger : L) (ledgerID : ID)
  | currentTrusted
  | numTrustedForLedger (ledgerID : ID)
  | canValidateSeq (seq : Nat)
  | setSeqToKeep (low high : Nat)
  | expire

/-- The same store, with the containers iterated in another order. -/
structure Reorders (s s' : Validations A NodeID L ID) [DecidableEq NodeID] [DecidableEq ID] : Prop where
  trie : s'.trie = s.trie
  current : s'.current.entries.Perm s.current.entries
  lastLedger : s'.lastLedger.entries.Perm s.lastLedger.entries
  acquiring : ∀ k nodes', s'.acquiring.lookup k = some nodes' → ∃ nodes, s.acquiring.lookup k = some nodes ∧
    nodes'.Perm nodes

theorem expire_frame [Ledger L ID] [Adaptor A L]
    (s : Validations A NodeID L ID) : s.expire.trie = s.trie ∧ s.expire.lastLedger = s.lastLedger ∧
    s.expire.acquiring = s.acquiring ∧ s.expire.current = s.current := by
  rw [expire]
  dsimp only
  rw [refreshKept]
  split
  · exact ⟨rfl, rfl, rfl, rfl⟩
  · split_ifs <;> exact ⟨rfl, rfl, rfl, rfl⟩

section Operations
variable [DecidableEq NodeID]

/-- The flag of a new validation is that of the trusted set. -/
def Op.Matches (T : NodeID → Bool) : Op NodeID L ID → Prop
  | .add nodeID val => val.trusted = T nodeID
  | _ => True

def Op.trusted (T : NodeID → Bool) : Op NodeID L ID → NodeID → Bool
  | .trustChanged added removed => retrustSet added removed T
  | _ => T

variable [Ledger L ID] [LinearOrder ID]

theorem init_core (p : ValidationParms) (a : A) : Core (init p a : Validations A NodeID L ID) where
  trie := LedgerTrie.init_inv
  holds := by
    rw [init, LedgerTrie.init, contents_node]
    simp [lastWords, AList.empty_entries]
  nodup k nodes hk := by cases hk
  pending k nodes n hk := by cases hk

variable {s : Validations A NodeID L ID} {s' : Validations A NodeID L ID}

theorem Reorders.core (h : Core s) (hr : Reorders s s') : Core s' where
  trie := hr.trie ▸ h.trie
  holds := by
    rw [hr.trie, h.holds]
    exact (Multiset.coe_eq_coe.2 (hr.lastLedger.map _)).symm
  nodup k nodes hk := by
    obtain ⟨nodes', hk', hperm⟩ := hr.acquiring k nodes hk
    exact hperm.nodup_iff.2 (h.nodup k nodes' hk')
  pending k nodes n hk hn := by
    obtain ⟨nodes', hk', hperm⟩ := hr.acquiring k nodes hk
    rw [HashMap.lookup_perm hr.current]
    exact h.pending k nodes' n hk' (hperm.mem_iff.1 hn)

variable [Adaptor A L]

def Op.exec (s : Validations A NodeID L ID) : Op NodeID L ID → Option (Validations A NodeID L ID)
  | .add nodeID val => (s.add nodeID val).map (·.2)
  | .trustChanged added removed => s.trustChanged added removed
  | .getPreferred curr => (s.getPreferred curr).map (·.2)
  | .getNodesAfter ledger ledgerID => (s.getNodesAfter ledger ledgerID).map (·.2)
  | .currentTrusted => s.currentTrusted.map (·.2)
  | .numTrustedForLedger ledgerID => some (s.numTrustedForLedger ledgerID).2
  | .canValidateSeq seq => some (s.canValidateSeq seq).2
  | .setSeqToKeep low high => some (s.setSeqToKeep low high)
  | .expire => some s.expire

/-- Every validation that the operation withdraws, because it is stale or its node is no longer trusted, is clean. -/
def Op.Clean (s : Validations A NodeID L ID) : Op NodeID L ID → Prop
  | .trustChanged added removed => TrustClean added removed s
  | .getPreferred _ => FlushClean s
  | .getNodesAfter ledger ledgerID => Ledger.id ledger = ledgerID → FlushClean s
  | .currentTrusted => FlushClean s
  | _ => True

/-- The stores, each with its trusted set, that runs can lead to whose operations all satisfy `ok`. -/
inductive Runs (p : ValidationParms) (ok : Validations A NodeID L ID → Op NodeID L ID → Prop) :
    (NodeID → Bool) → Validations A NodeID L ID → Prop
  | init (T : NodeID → Bool) (a : A) : Runs p ok T (init p a)
  | adaptor {T s} (a : A) (run : Runs p ok T s) : Runs p ok T { s with adaptor := a }
  | reorder {T s s'} (run : Runs p ok T s) (order : Reorders s s') : Runs p ok T s'
  | call {T s s'} (op : Op NodeID L ID) (run : Runs p ok T s) (flag : op.Matches T) (cond : ok s op)
      (ret : op.exec s = some s') : Runs p ok (op.trusted T) s'

omit [DecidableEq NodeID] in
theorem numTrustedForLedger_frame (i : ID) (s : Validations A NodeID L ID) :
    (s.numTrustedForLedger i).2.trie = s.trie ∧ (s.numTrustedForLedger i).2.lastLedger = s.lastLedger ∧
      (s.numTrustedForLedger i).2.acquiring = s.acquiring ∧ (s.numTrustedForLedger i).2.current = s.current := by
  rw [numTrustedForLedger, queryByLedger]
  cases s.byLedger.find i <;> exact ⟨rfl, rfl, rfl, rfl⟩

/-- What an operation does to a store with `Core` and the flags of the trusted set. -/
structure Keeps (T : NodeID → Bool) (ok : Prop) (s s' : Validations A NodeID L ID) : Prop where
  core : Core s'
  flags : Flags T s'
  backed : LawfulAdaptor A → ok → Backed s → Backed s'

variable {T : NodeID → Bool}

theorem Keeps.of_frame {ok : Prop} (h : Core s) (hflags : Flags T s)
    (hf : s'.trie = s.trie ∧ s'.lastLedger = s.lastLedger ∧ s'.acquiring = s.acquiring ∧ s'.current = s.current) :
    Keeps T ok s s' where
  core := h.congr hf.1 hf.2.1 hf.2.2.1 hf.2.2.2
  flags := by
    rw [Flags, hf.2.2.2]
    exact hflags
  backed _ _ hs := hs.congr hf.2.1 hf.2.2.2

variable [LawfulLedger L]

theorem withTrie_keeps (h : Core s) (hflags : Flags T s) :
    ∃ s', s.withTrie = some s' ∧ Keeps T (FlushClean s) s s' := by
  obtain ⟨s', hret, hcore, -, hcur, hback⟩ := withTrie_spec h
  exact ⟨s', hret, hcore, fun n v hv => hflags n v (hcur n v hv).1, fun _ => hback⟩

theorem exec_spec (h : Core s) (hflags : Flags T s) (op : Op NodeID L ID) (hop : op.Matches T) :
    ∃ s', op.exec s = some s' ∧ Keeps (op.trusted T) (op.Clean s) s s' := by
  cases op with
  | add n v =>
    obtain ⟨r, hret, hcore, hfl, hback⟩ := add_spec h hflags hop
    exact ⟨r.2, by rw [Op.exec, hret]; rfl, hcore, hfl, fun _ _ => hback⟩
  | trustChanged added removed =>
    obtain ⟨s', hret, hcore, hfl, hback⟩ := trustChanged_spec added removed h hflags
    exact ⟨s', hret, hcore, hfl, hback⟩
  | getPreferred curr =>
    obtain ⟨s', hret, hkeeps⟩ := withTrie_keeps h hflags
    refine ⟨s', ?_, hkeeps⟩
    rw [Op.exec, getPreferred, hret, Option.map_some]
    split
    · rfl
    · split_ifs <;> rfl
  | getNodesAfter ledger i =>
    by_cases hid : Ledger.id ledger = i
    · obtain ⟨s', hret, hkeeps⟩ := withTrie_keeps h hflags
      refine ⟨s', ?_, hkeeps.core, hkeeps.flags, fun hlaw hclean => hkeeps.backed hlaw (hclean hid)⟩
      rw [Op.exec, getNodesAfter, if_pos hid, hret]
      rfl
    · refine ⟨s, ?_, h, hflags, fun _ _ hs => hs⟩
      rw [Op.exec, getNodesAfter, if_neg hid]
      rfl
  | currentTrusted =>
    obtain ⟨s', hret, hcore, -, hcur, hback⟩ := flushStale_spec h
    exact ⟨s', by rw [Op.exec, currentTrusted, hret]; rfl, hcore,
      fun n v hv => hflags n v (hcur n v hv).1, fun _ => hback⟩
  | numTrustedForLedger i => exact ⟨_, rfl, .of_frame h hflags (numTrustedForLedger_frame i s)⟩
  | canValidateSeq seq => exact ⟨_, rfl, .of_frame h hflags ⟨rfl, rfl, rfl, rfl⟩⟩
  | setSeqToKeep low high => exact ⟨_, rfl, .of_frame h hflags ⟨rfl, rfl, rfl, rfl⟩⟩
  | expire => exact ⟨_, rfl, .of_frame h hflags (expire_frame s)⟩

variable {p : ValidationParms}

theorem runs_core {ok : Validations A NodeID L ID → Op NodeID L ID → Prop} (h : Runs p ok T s) :
    Core s ∧ Flags T s := by
  induction h with
  | init T a => exact ⟨init_core p a, fun n v hv => by cases hv⟩
  | adaptor a run ih => exact ⟨ih.1.adaptor a, ih.2⟩
  | reorder run order ih => exact ⟨order.core ih.1, fun n v hv => ih.2 n v (HashMap.lookup_perm order.current n ▸ hv)⟩
  | call op run flag cond ret ih =>
    obtain ⟨s'', hret, hkeeps⟩ := exec_spec ih.1 ih.2 op flag
    rw [ret] at hret
    cases hret
    exact ⟨hkeeps.core, hkeeps.flags⟩

/-- In every store of a run whose operations withdraw only clean validations, support is backed. -/
theorem runs_backed [LawfulAdaptor A] (h : Runs p Op.Clean T s) : Backed s := by
  induction h with
  | init T a =>
    intro n l hl
    cases hl
  | adaptor a run ih => exact ih
  | reorder run order ih =>
    intro n l hl
    rw [HashMap.lookup_perm order.current]
    exact ih n l (HashMap.lookup_perm order.lastLedger n ▸ hl)
  | call op run flag cond ret ih =>
    obtain ⟨hcore, hflags⟩ := runs_core run
    obtain ⟨s'', hret, hkeeps⟩ := exec_spec hcore hflags op flag
    rw [ret] at hret
    cases hret
    exact hkeeps.backed inferInstance cond ih

/-! ## The trie and `lastLedger` -/

omit [DecidableEq NodeID] in
theorem count_lastWords (m : HashMap NodeID L) (l : L) :
    (lastWords m).count (word l) = m.entries.countP fun e => Ledger.id e.2 = Ledger.id l := by
  rw [Multiset.count, lastWords, Multiset.coe_countP, List.countP_map]
  refine List.countP_congr fun e _ => ?_
  simp only [Function.comp, decide_eq_true_eq, word_inj]
  exact eq_comm

/-- In every run the trie and `lastLedger` stay in step: the tip support of a ledger is the number of nodes that
validated it last, the support of all ledgers together is the number of nodes in `lastLedger`, and no node waits
for two ledgers. And every operation returns. -/
theorem trie_in_step {p : ValidationParms} {ok : Validations A NodeID L ID → Op NodeID L ID → Prop} {T : NodeID → Bool}
    {s : Validations A NodeID L ID} (h : Runs p ok T s) :
    (∀ l : L, s.trie.tipSupport l = s.lastLedger.entries.countP fun e => Ledger.id e.2 = Ledger.id l) ∧
    s.trie.branchSupport (Ledger.genesis : L) = s.lastLedger.keys.length ∧
    (∀ n k k' nodes nodes', s.acquiring.lookup k = some nodes → n ∈ nodes → s.acquiring.lookup k' = some nodes' →
      n ∈ nodes' → k = k') ∧
    ∀ op : Op NodeID L ID, op.Matches T → ∃ s', op.exec s = some s' := by
  obtain ⟨hcore, hflags⟩ := runs_core h
  refine ⟨fun l => ?_, ?_, fun n k k' nodes nodes' hk hn hk' hn' => ?_, fun op hop => ?_⟩
  · rw [hcore.trie.tipSupport_eq, hcore.holds, count_lastWords]
  · rw [hcore.trie.branchSupport_eq, hcore.holds, lastWords, Multiset.coe_countP, List.countP_map]
    exact (List.countP_eq_length.2 fun e _ => decide_eq_true (word_genesis_le e.2)).trans (List.length_map _).symm
  · obtain ⟨v, hv, -, rfl⟩ := hcore.pending k nodes n hk hn
    obtain ⟨v', hv', -, rfl⟩ := hcore.pending k' nodes' n hk' hn'
    rw [hv] at hv'
    cases hv'
    rfl
  · obtain ⟨s', hret, -⟩ := exec_spec hcore hflags op hop
    exact ⟨s', hret⟩

/-! ## Support is backed by current validations -/

/-- In every run that withdraws only clean validations, `withTrie` leaves support only of nodes with a current, trusted
validation that is not stale. -/
theorem support_backed [LawfulAdaptor A] {p : ValidationParms} {T : NodeID → Bool} {s : Validations A NodeID L ID}
    (h : Runs p Op.Clean T s) (hclean : FlushClean s) :
    ∃ s', s.withTrie = some s' ∧ ∀ n l, s'.lastLedger.lookup n = some l → ∃ v, s'.current.lookup n = some v ∧
      isCurrent s'.parms (Adaptor.now s.adaptor).1 v.signTime v.seenTime = true ∧ v.trusted = true ∧ T n = true := by
  obtain ⟨hcore, hflags⟩ := runs_core h
  obtain ⟨s', hret, -, hparms, hcur, hback⟩ := withTrie_spec hcore
  refine ⟨s', hret, fun n l hl => ?_⟩
  obtain ⟨v, hv, htrusted⟩ := hback hclean (runs_backed h) n l hl
  obtain ⟨hv', hfresh⟩ := hcur n v hv
  exact ⟨v, hv, hparms ▸ hfresh, htrusted, hflags n v hv' ▸ htrusted⟩

end Operations

/-! ## A concrete network -/

/-- The time and the ledgers that are there. -/
structure Net where
  time : Int
  ledgers : List Path

instance : Adaptor Net Path where
  now a := (a.time, a)
  clock a := (a.time, a)
  acquire i a := (a.ledgers.find? fun l => Ledger.id l = i, a)

instance : LawfulAdaptor Net where
  id_acquire i _ _ h := of_decide_eq_true (List.find?_some (p := fun l : Path => Ledger.id l = i) h)

/-- A trusted validation of a ledger, signed and seen at the same time. -/
def trustedVal (l : Path) (time : Int) : Validation PathId where
  ledgerID := Ledger.id l
  seq := Ledger.seq l
  signTime := time
  seenTime := time
  trusted := true
  full := true
  cookie := 0

/-- A ledger, a child of it and another are there. -/
def netAt (time : Int) : Net := ⟨time, [⟨[1]⟩, ⟨[1, 3]⟩, ⟨[4]⟩]⟩

/-- Nodes validate ledgers, each at its time. -/
def validated (steps : List (Int × Nat × Path)) (s : Validations Net Nat Path PathId) :
    Option (Validations Net Nat Path PathId) :=
  steps.foldlM (fun s e => Op.exec { s with adaptor := netAt e.1 } (.add e.2.1 (trustedVal e.2.2 e.1))) s

variable {s : Validations Net Nat Path PathId}

theorem validated_runs {ok : Validations Net Nat Path PathId → Op Nat Path PathId → Prop}
    (hok : ∀ s n v, ok s (.add n v))
    (steps : List (Int × Nat × Path)) {s' : Validations Net Nat Path PathId} (hs : Runs {} ok (fun _ => true) s)
    (h : validated steps s = some s') : Runs {} ok (fun _ => true) s' := by
  induction steps generalizing s with
  | nil =>
    cases h
    exact hs
  | cons e steps ih =>
    rw [validated, List.foldlM_cons] at h
    obtain ⟨u, hu, hrest⟩ := Option.bind_eq_some_iff.1 h
    exact ih (.call (.add e.2.1 (trustedVal e.2.2 e.1)) (.adaptor (netAt e.1) hs) rfl (hok _ _ _) hu) hrest

/-- Two nodes validate the ledger that is there, and one of them then a ledger that is not. -/
theorem trie_in_step_waiting :
    ∃ s : Validations Net Nat Path PathId, Runs {} (fun _ _ => True) (fun _ => true) s ∧
      (s.acquiring.lookup (2, ⟨[1, 2]⟩)).isSome ∧
      s.trie.tipSupport ⟨[1]⟩ = 2 ∧ s.trie.branchSupport (Ledger.genesis : Path) = s.lastLedger.keys.length := by
  have heval : (validated [(1000, 0, ⟨[1]⟩), (1005, 1, ⟨[1]⟩), (1010, 0, ⟨[1, 2]⟩)] (init {} (netAt 0))).map (fun s =>
        ((s.acquiring.lookup (2, ⟨[1, 2]⟩)).isSome,
          s.lastLedger.entries.countP fun e => Ledger.id e.2 = Ledger.id (⟨[1]⟩ : Path))) = some (true, 2) := by
    decide +kernel
  obtain ⟨s, hs, hfacts⟩ := Option.map_eq_some_iff.1 heval
  rw [Prod.mk.injEq] at hfacts
  have hrun : Runs {} (fun _ _ => True) (fun _ => true) s := validated_runs (fun _ _ _ => trivial) _ (.init _ _) hs
  obtain ⟨htip, htotal, -⟩ := trie_in_step hrun
  exact ⟨s, hrun, hfacts.1, (htip _).trans hfacts.2, htotal⟩

/-- A node validates a ledger that is there and then one that is not. When its validation has gone stale, the support
for the first ledger is still in the trie. -/
theorem stale_support_left :
    ∃ s s' : Validations Net Nat Path PathId, Runs {} (fun _ _ => True) (fun _ => true) s ∧ s.withTrie = some s' ∧
      (s'.lastLedger.lookup 0).isSome = true ∧ s'.trie.tipSupport ⟨[1]⟩ = 1 ∧ s'.current.lookup 0 = none := by
  have heval : ((validated [(1000, 0, ⟨[1]⟩), (1010, 0, ⟨[1, 2]⟩)] (init {} (netAt 0))).bind fun s =>
      withTrie { s with adaptor := netAt 10000 }).map (fun s =>
        ((s.lastLedger.lookup 0).isSome, s.trie.tipSupport ⟨[1]⟩, (s.current.lookup 0).isNone)) =
      some (true, 1, true) := by
    decide +kernel
  obtain ⟨s', hs', hfacts⟩ := Option.map_eq_some_iff.1 heval
  obtain ⟨s, hs, hwith⟩ := Option.bind_eq_some_iff.1 hs'
  simp only [Prod.mk.injEq, Option.isNone_iff_eq_none] at hfacts
  have hrun : Runs {} (fun _ _ => True) (fun _ => true) s := validated_runs (fun _ _ _ => trivial) _ (.init _ _) hs
  exact ⟨_, s', .adaptor (netAt 10000) hrun, hwith, hfacts⟩

theorem flushClean_of_entries
    (h : (s.current.entries.all fun e => isCurrent s.parms s.adaptor.time e.2.signTime e.2.seenTime ||
      (s.lastLedger.lookup e.1).all fun l => Ledger.id l = e.2.ledgerID) = true) :
    FlushClean s := by
  intro n v hv hstale l hl
  have he := List.all_eq_true.1 h ⟨n, v⟩ (AList.mem_lookup_iff.1 hv)
  have hstale' : isCurrent s.parms s.adaptor.time v.signTime v.seenTime = false := hstale
  rw [hstale', hl, Bool.false_or] at he
  exact of_decide_eq_true he

/-- The validation of one of two nodes has gone stale: its support goes, and that of the other one stays. -/
theorem support_backed_one_stale :
    ∃ s : Validations Net Nat Path PathId, Runs {} Op.Clean (fun _ => true) s ∧
      FlushClean s ∧ ∃ s', s.withTrie = some s' ∧
      (s'.lastLedger.lookup 1).isSome = true ∧ ∀ n l, s'.lastLedger.lookup n = some l →
        (s'.current.lookup n).isSome = true := by
  have heval : ((validated [(1000, 0, ⟨[1]⟩), (1200, 1, ⟨[1]⟩)] (init {} (netAt 0))).bind fun s =>
      (withTrie { s with adaptor := netAt 1250 }).map fun s' =>
        ((s.current.entries.all fun e => isCurrent s.parms 1250 e.2.signTime e.2.seenTime ||
          (s.lastLedger.lookup e.1).all fun l => Ledger.id l = e.2.ledgerID), (s'.lastLedger.lookup 1).isSome)) =
      some (true, true) := by
    decide +kernel
  obtain ⟨s, hs, hrest⟩ := Option.bind_eq_some_iff.1 heval
  obtain ⟨s', hs', hfacts⟩ := Option.map_eq_some_iff.1 hrest
  rw [Prod.mk.injEq] at hfacts
  have hrun : Runs {} Op.Clean (fun _ => true) { s with adaptor := netAt 1250 } :=
    .adaptor (netAt 1250) (validated_runs (fun _ _ _ => trivial) _ (.init _ _) hs)
  have hclean : FlushClean { s with adaptor := netAt 1250 } := flushClean_of_entries hfacts.1
  obtain ⟨s'', hs'', hall⟩ := support_backed hrun hclean
  rw [hs'] at hs''
  cases hs''
  refine ⟨_, hrun, hclean, s', hs', hfacts.2, fun n l hl => ?_⟩
  obtain ⟨v, hv, -⟩ := hall n l hl
  rw [hv]
  rfl

end Rippled.Consensus.Validations
