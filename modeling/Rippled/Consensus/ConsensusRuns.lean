import Rippled.Consensus.ConsensusSteps

/-!
# Runs of consensus

A run calls the operations of consensus in any order. Between calls the adaptor's state may change in any way (time
passes, ledgers and sets arrive) and the unordered containers may be iterated in another order.
-/

namespace Rippled.Consensus

open Lib Option

namespace GenericConsensus

variable {X : Traits} {A : Type} [TxSets X] [DecidableEq X.NodeID] [DecidableEq X.TxSetID] [DecidableEq X.TxID]
  [DecidableEq X.LedgerID] [ConsensusAdaptor X A] {s s' : GenericConsensus X A} {fuel : Nat}

/-! ## Phases -/

section Phases
omit [DecidableEq X.LedgerID]

theorem Inv.haveConsensus (h : Inv s) : Inv s.haveConsensus.2 := by
  rw [GenericConsensus.haveConsensus]
  cases hr : s.result with
  | none => exact h
  | some r =>
    dsimp only
    generalize checkConsensus _ _ _ _ _ _ _ _ _ = state
    have hstate : Inv { (s.ask (ConsensusAdaptor.proposersFinished s.previousLedger s.prevLedgerID)).2 with
        result := some { r with state } } := by
      refine h.same ⟨rfl, rfl, fun r' hr' => ⟨r, hr, ?_⟩⟩
      cases hr'
      exact ⟨rfl, rfl, rfl⟩
    cases state with
    | no => exact hstate
    | movedOn => exact hstate
    | yes => exact hstate
    | expired =>
      split_ifs
      · exact hstate
      · exact hstate.leaveConsensus

theorem Inv.accept (h : Inv s) : Inv s.accept := by
  rw [GenericConsensus.accept]
  cases hr : s.result with
  | none => exact h
  | some r =>
    refine h.congr rfl rfl ?_
    exact hr.symm ▸ rfl

theorem Inv.tickRound {r : ConsensusResult X} (h : Inv s) (hr : s.result = some r) : Inv (s.tickRound r).2 := by
  refine h.same ⟨rfl, rfl, fun r' hr' => ⟨r, hr, ?_⟩⟩
  cases hr'
  exact ⟨rfl, rfl, rfl⟩

variable [Ledgers X]

theorem Inv.shouldPause (h : Inv s) (r : ConsensusResult X) : Inv (s.shouldPause r).2 := by
  rw [GenericConsensus.shouldPause]
  dsimp only
  split_ifs <;> exact h.congr rfl rfl rfl

theorem Inv.tryAccept (h : Inv s) (r : ConsensusResult X) : Inv (s.tryAccept r) := by
  rw [GenericConsensus.tryAccept]
  have hpause := h.shouldPause r
  generalize s.shouldPause r = paused at hpause
  obtain ⟨_ | _, u⟩ := paused
  · have hhave := hpause.haveConsensus
    dsimp only at hhave ⊢
    generalize u.haveConsensus = agreed at hhave
    obtain ⟨_ | _, v⟩ := agreed
    · exact hhave
    · dsimp only
      split_ifs
      · exact hhave.accept
      · exact hhave
  · exact hpause

variable [LawfulTxSets X]

/-- The establish phase keeps the invariant. -/
theorem Inv.phaseEstablish (h : Inv s) : Inv s.phaseEstablish := by
  rw [GenericConsensus.phaseEstablish]
  cases hr : s.result with
  | none => exact h
  | some r =>
    have htick := h.tickRound hr
    dsimp only
    split_ifs
    · exact htick
    · exact htick.updateOurPositions.tryAccept _

theorem Inv.phaseOpen (h : Inv s) : Inv s.phaseOpen := by
  rw [GenericConsensus.phaseOpen]
  dsimp only
  split_ifs
  · refine Inv.closeLedger ?_
    exact h.congr rfl rfl rfl
  · exact h.congr rfl rfl rfl

end Phases

section Keeps
variable [LawfulTxSets X]

/-! ## Proposals -/

/-- A peer's proposal, current or not. -/
theorem Inv.peerProposalInternal (h : Inv s) (now : Int) (p : Proposal X) : Inv (s.peerProposalInternal now p).2 := by
  have hnow : Inv { s with now } := h.congr rfl rfl rfl
  rw [GenericConsensus.peerProposalInternal]
  dsimp only
  split_ifs
  · exact h
  · exact hnow
  · exact hnow
  · exact hnow
  · exact hnow.peerBowsOut _
  · exact hnow.peerMoves p

theorem Inv.peerProposal (h : Inv s) (now : Int) (p : Proposal X) : Inv (s.peerProposal now p).2 := by
  rw [GenericConsensus.peerProposal]
  refine Inv.peerProposalInternal ?_ now p
  exact h.congr rfl rfl rfl

theorem Inv.playbackOne (h : Inv s) (p : Proposal X) : Inv (s.playbackOne p) := by
  have hint := h.peerProposalInternal s.now p
  rw [GenericConsensus.playbackOne]
  split_ifs
  · generalize s.peerProposalInternal s.now p = answer at hint
    obtain ⟨_ | _, u⟩ := answer
    · exact hint
    · exact hint.tell _
  · exact h

theorem Inv.playbackProposals (h : Inv s) : Inv s.playbackProposals :=
  List.foldlRecOn _ _ h fun _ hu e _ => List.foldlRecOn e.2 _ hu fun _ hv p _ => hv.playbackOne p

/-! ## Rounds -/

theorem Inv.switchLedger (h : Inv s) (i : X.LedgerID) : Inv (s.switchLedger i) := by
  rw [GenericConsensus.switchLedger]
  split_ifs
  · exact h
  · refine Inv.playbackProposals ⟨fun n p hp => ?_, fun r hr => ?_⟩
    · cases hp
    · obtain ⟨r₀, -, rfl⟩ := map_eq_some_iff.1 hr
      exact settled_empty

omit [DecidableEq X.LedgerID] in
theorem Inv.simulate (h : Inv s) (now delay : Int) : Inv (s.simulate now delay) := by
  have hnow : Inv { s with now } := h.congr rfl rfl rfl
  have hclosed := hnow.closeLedger
  rw [GenericConsensus.simulate]
  generalize ({ s with now } : GenericConsensus X A).closeLedger = u at hclosed
  cases hr : u.result with
  | none => exact hclosed
  | some r =>
    refine hclosed.same ⟨rfl, rfl, fun r' hr' => ⟨r, hr, ?_⟩⟩
    cases hr'
    exact ⟨rfl, rfl, rfl⟩

variable [Ledgers X] {i : X.LedgerID} {now : Int}

section Timer
variable {timer : Int → GenericConsensus X A → Option (GenericConsensus X A)}
  (htimer : ∀ now u u', Inv u → timer now u = some u' → Inv u')
include htimer

/-- A new round starts from nothing. -/
theorem startRoundInternal_inv {g : X.Ledger} {mode : ConsensusMode}
    (hret : s.startRoundInternal timer now i g mode = some s') : Inv s' := by
  have hreset : Inv (s.resetRound now i g mode) := by
    refine ⟨fun n p hp => ?_, fun r hr => ?_⟩
    · cases hp
    · cases hr
  have hinv := hreset.playbackProposals
  rw [startRoundInternal] at hret
  split_ifs at hret
  · exact htimer _ _ _ hinv hret
  · cases hret
    exact hinv

theorem handleWrongLedger_inv (h : Inv s) (hret : s.handleWrongLedger timer i = some s') : Inv s' := by
  have hswitch := h.leaveConsensus.switchLedger i
  rw [handleWrongLedger] at hret
  generalize s.leaveConsensus.switchLedger i = u at hret hswitch
  split_ifs at hret
  · cases hret
    exact hswitch
  · have hask := hswitch.ask (ConsensusAdaptor.acquireLedger u.prevLedgerID)
    generalize u.ask (ConsensusAdaptor.acquireLedger u.prevLedgerID) = answer at hret hask
    obtain ⟨_ | g, v⟩ := answer
    · cases hret
      exact hask.setMode _
    · exact startRoundInternal_inv htimer hret

/-- A round on the wrong ledger is started again. -/
theorem checkLedger_inv (h : Inv s) (hret : s.checkLedger timer = some s') : Inv s' := by
  have hask := h.ask (ConsensusAdaptor.getPrevLedger s.prevLedgerID s.previousLedger s.mode)
  rw [checkLedger] at hret
  dsimp only at hret
  split_ifs at hret
  · exact handleWrongLedger_inv htimer hask hret
  · cases hret
    exact hask

end Timer

theorem timerEntry_inv (h : Inv s) (hret : s.timerEntry fuel now = some s') : Inv s' := by
  induction fuel generalizing now s s' with
  | zero => cases hret
  | succ fuel ih =>
    rw [timerEntry] at hret
    split_ifs at hret
    · cases hret
      exact h
    · obtain ⟨u, hu, rfl⟩ := map_eq_some_iff.1 hret
      have hnow : Inv { s with now } := h.congr rfl rfl rfl
      have hchecked := checkLedger_inv (fun _ _ _ hv hv' => ih hv hv') hnow hu
      split
      · exact hchecked.phaseOpen
      · exact hchecked.phaseEstablish
      · exact hchecked

theorem startRound_inv {g : X.Ledger} {untrusted : List X.NodeID} {proposing : Bool}
    (hret : s.startRound fuel now i g untrusted proposing = some s') : Inv s' := by
  rw [startRound] at hret
  split_ifs at hret
  all_goals first
    | exact startRoundInternal_inv (fun _ _ _ hu hu' => timerEntry_inv hu hu') hret
    | split at hret <;> exact startRoundInternal_inv (fun _ _ _ hu hu' => timerEntry_inv hu hu') hret

end Keeps

/-! ## Runs -/

variable [Ledgers X]

inductive Op (X : Traits) where
  | startRound (now : Int) (prevLedgerID : X.LedgerID) (prevLedger : X.Ledger)
      (nowUntrusted : List X.NodeID) (proposing : Bool)
  | peerProposal (now : Int) (newPeerProp : Proposal X)
  | timerEntry (now : Int)
  | gotTxSet (now : Int) (txSet : X.TxSet)
  | simulate (now consensusDelay : Int)

/-- The state after an operation, in which at most `fuel` timer events nest. -/
def Op.exec (fuel : Nat) (s : GenericConsensus X A) : Op X → Option (GenericConsensus X A)
  | .startRound now prevLedgerID prevLedger nowUntrusted proposing =>
    s.startRound fuel now prevLedgerID prevLedger nowUntrusted proposing
  | .peerProposal now newPeerProp => some (s.peerProposal now newPeerProp).2
  | .timerEntry now => s.timerEntry fuel now
  | .gotTxSet now txSet => some (s.gotTxSet now txSet)
  | .simulate now consensusDelay => some (s.simulate now consensusDelay)

inductive Runs : GenericConsensus X A → Prop
  | init (adaptor : A) (prevLedgerID : X.LedgerID) (previousLedger : X.Ledger) :
      Runs { adaptor, prevLedgerID, previousLedger }
  | adaptor {s : _} (adaptor : A) (run : Runs s) : Runs { s with adaptor }
  /-- The containers are iterated in another order. -/
  | reorder {s peers acquired recent dead disputes compares : _} (run : Runs s)
      (peers_perm : peers.entries.Perm s.currPeerPositions.entries)
        (acquired_perm : acquired.entries.Perm s.acquired.entries)
      (recent_perm : recent.entries.Perm s.recentPeerPositions.entries) (dead_perm : dead.Perm s.deadNodes)
      (result_perm : ∀ r, s.result = some r → disputes.entries.Perm r.disputes.entries ∧ compares.Perm r.compares) :
      Runs { s with
        currPeerPositions := peers
        acquired := acquired
        recentPeerPositions := recent
        deadNodes := dead
        result := s.result.map fun r => { r with disputes, compares } }
  | call {s s' : _} (fuel : Nat) (op : Op X) (run : Runs s) (ret : op.exec fuel s = some s') : Runs s'

variable [LawfulTxSets X]

/-- Every call keeps the invariant. -/
theorem exec_inv {op : Op X} (h : Inv s) (hret : op.exec fuel s = some s') : Inv s' := by
  cases op with
  | startRound now i g untrusted proposing => exact startRound_inv hret
  | peerProposal now p =>
    cases hret
    exact h.peerProposal now p
  | timerEntry now => exact timerEntry_inv h hret
  | gotTxSet now set =>
    cases hret
    exact h.gotTxSet now set
  | simulate now delay =>
    cases hret
    exact h.simulate now delay

/-- The invariant holds in every run. -/
theorem runs_inv (h : Runs s) : Inv s := by
  induction h with
  | init a i g =>
    refine ⟨fun n p hp => ?_, fun r hr => ?_⟩
    · cases hp
    · cases hr
  | adaptor a run ih => exact ih.congr rfl rfl rfl
  | @reorder s peers acquired recent dead disputes compares run hpeers hacquired _ _ hresult ih =>
    refine ⟨fun n p hp => ih.named n p (HashMap.lookup_perm hpeers n ▸ hp), fun r hr => ?_⟩
    obtain ⟨r₀, hr₀, rfl⟩ := map_eq_some_iff.1 hr
    obtain ⟨hdisputes, hcompares⟩ := hresult r₀ hr₀
    have hset := ih.settled r₀ hr₀
    refine ⟨fun t d hd => ?_, fun o ho t ht => ?_⟩
    · have hok := hset.disputes t d (HashMap.lookup_perm hdisputes t ▸ hd)
      refine ⟨hok.keyed, hok.ours, fun n p set _ hp hs => ?_, hok.tallied, fun n hn => ?_⟩
      · exact hok.voted n p set trivial (HashMap.lookup_perm hpeers n ▸ hp) (HashMap.lookup_perm hacquired _ ▸ hs)
      · rw [HashMap.lookup_perm hpeers]
        exact hok.present n hn
    · rw [HashMap.lookup_perm hdisputes]
      exact hset.compared o (hcompares.mem_iff.1 ho) t ht
  | call fuel op run ret ih => exact exec_inv ih ret

/-- In every run, whenever there is a result: our vote on every dispute is whether our set has the transaction; every
transaction on which our set and a set it was compared with differ is disputed; every dispute records, for every peer
whose proposed set is there, whether that set has the transaction; its tallies are the numbers of recorded votes; and
only peers with a current position have recorded votes. -/
theorem votes_follow_positions {s : GenericConsensus X A} (h : Runs s)
    {r : ConsensusResult X} (hr : s.result = some r) : (∀ t d, r.disputes.lookup t = some d →
      TxSets.txId d.tx = t ∧ (d.ourVote = true ↔ TxSets.exists_ r.txns t = true)) ∧
    (∀ o : X.TxSet, TxSets.id o ∈ r.compares → ∀ t, TxSets.exists_ r.txns t ≠ TxSets.exists_ o t →
      (r.disputes.lookup t).isSome = true) ∧
    (∀ n p set, s.currPeerPositions.lookup n = some p → s.acquired.lookup p.position = some set →
      ∀ t d, r.disputes.lookup t = some d → d.votes.lookup n = some (TxSets.exists_ set t)) ∧
    (∀ t d, r.disputes.lookup t = some d →
      d.yays = d.votes.entries.countP (fun e => e.2) ∧ d.nays = d.votes.entries.countP fun e => !e.2) ∧
    ∀ t d n b, r.disputes.lookup t = some d → d.votes.lookup n = some b →
      ∃ p, s.currPeerPositions.lookup n = some p := by
  obtain ⟨hdisputes, hcompared⟩ := (runs_inv h).settled r hr
  refine ⟨fun t d hd => ?_, hcompared, fun n p set hp hset t d hd => ?_, fun t d hd => ?_, fun t d n b hd hb => ?_⟩
  · have hok := hdisputes t d hd
    exact ⟨hok.keyed, by rw [hok.ours]⟩
  · exact (hdisputes t d hd).voted n p set trivial hp hset
  · have htally := (hdisputes t d hd).tallied
    exact ⟨htally.yays, htally.nays⟩
  · refine isSome_iff_exists.1 ((hdisputes t d hd).present n ?_)
    rw [hb]
    rfl

/-! ## A concrete network -/

/-- Transactions are numbers, sets are lists of them and their own ids, and so are ledgers. -/
abbrev numbers : Traits where
  NodeID := Nat
  LedgerID := Nat
  Ledger := Nat
  TxSetID := List Nat
  TxSet := List Nat
  Tx := Nat
  TxID := Nat

instance : TxSets numbers where
  txId tx := tx
  id set := set
  find set tx := if tx ∈ set then some tx else none
  compare a b := (a.filter (· ∉ b)).map (·, true) ++ (b.filter (· ∉ a)).map (·, false)
  insert tx set := tx :: set
  erase tx set := set.filter (· ≠ tx)

theorem exists_numbers (set : List Nat) (tx : Nat) : TxSets.exists_ (X := numbers) set tx = decide (tx ∈ set) := by
  by_cases h : tx ∈ set <;> simp [TxSets.exists_, TxSets.find, h]

instance : LawfulTxSets numbers where
  txId_find set txID tx h := by
    have h' : (if txID ∈ set then some txID else none) = some tx := h
    split_ifs at h'
    exact (Option.some.inj h').symm
  mem_compare a b tx inThis := by
    rw [exists_numbers, exists_numbers]
    cases inThis <;> simp [TxSets.compare, and_comm]
  exists_insert tx set txID := by
    rw [exists_numbers, exists_numbers]
    simp [TxSets.insert, TxSets.txId]
  exists_erase gone set txID := by
    rw [exists_numbers, exists_numbers]
    simp [TxSets.erase, and_comm]
  exists_of_id a b h _ := by
    have hab : a = b := h
    rw [hab]

instance : Ledgers numbers where
  id g := g
  seq g := g
  closeTime _ := 0
  closeTimeResolution _ := 30
  closeAgree _ := true
  parentCloseTime _ := 0

/-- All sets are there, no other ledger is, and our own set is the state. -/
instance : ConsensusAdaptor numbers (List Nat) where
  parms _ := {}
  clock a := (0, a)
  acquireLedger _ a := (none, a)
  acquireTxSet i a := (some i, a)
  hasOpenTransactions a := (true, a)
  proposersValidated _ a := (0, a)
  proposersFinished _ _ a := (0, a)
  getPrevLedger i _ _ a := (i, a)
  onClose g now _ a := ((a, ⟨g, a, now, now, 0, 0⟩), a)
  getValidLedgerIndex a := (0, a)
  getQuorumKeys a := ((0, 0), a)
  laggards _ a := ((0, 0), a)
  validator a := (false, a)
  haveValidated a := (false, a)
  tooFew _ _ _ _ := false
  tell _ a := a

/-- Operations in order, without nested timer events. -/
def execAll (ops : List (Op numbers)) (s : GenericConsensus numbers (List Nat)) :
    Option (GenericConsensus numbers (List Nat)) :=
  ops.foldlM (fun s op => op.exec 1 s) s

theorem execAll_runs (ops : List (Op numbers)) {s s' : GenericConsensus numbers (List Nat)} (hs : Runs s)
    (h : execAll ops s = some s') : Runs s' := by
  induction ops generalizing s with
  | nil =>
    cases h
    exact hs
  | cons op ops ih =>
    rw [execAll, List.foldlM_cons] at h
    obtain ⟨u, hu, hrest⟩ := bind_eq_some_iff.1 h
    exact ih (.call 1 op hs hu) hrest

/-- A peer proposes the transactions 2 and 3. -/
def peerProp : Proposal numbers where
  prevLedger := (7 : Nat)
  position := ([2, 3] : List Nat)
  closeTime := 100
  time := 100
  proposeSeq := 0
  nodeID := (5 : Nat)

/-- A round starts, the peer proposes, and we close with the transactions 1 and 2. -/
def oneRound : Option (GenericConsensus numbers (List Nat)) :=
  execAll [.startRound 100 (7 : Nat) (7 : Nat) [] true, .peerProposal 101 peerProp, .timerEntry 102]
    { adaptor := [1, 2], prevLedgerID := (7 : Nat), previousLedger := (7 : Nat) }

/-- Transactions 1 and 3 are disputed; we vote for the one, and the peer for the other. -/
theorem votes_follow_positions_disputed :
    ∃ s : GenericConsensus numbers (List Nat), Runs s ∧ ∃ r, s.result = some r ∧
      ∃ d e, r.disputes.lookup (1 : Nat) = some d ∧
      r.disputes.lookup (3 : Nat) = some e ∧ d.ourVote = true ∧ d.votes.lookup (5 : Nat) = some false ∧
      e.votes.lookup (5 : Nat) = some true := by
  have heval : (oneRound.bind fun s => s.result.bind fun r => (r.disputes.lookup (1 : Nat)).bind fun d =>
      (r.disputes.lookup (3 : Nat)).bind fun e => (s.currPeerPositions.lookup (5 : Nat)).map fun p =>
        ((r.txns, p.position, s.acquired.lookup p.position) : List Nat × List Nat × Option (List Nat))) =
      some ([1, 2], [2, 3], some [2, 3]) := by
    decide +kernel
  obtain ⟨s, hs, heval⟩ := bind_eq_some_iff.1 heval
  obtain ⟨r, hr, heval⟩ := bind_eq_some_iff.1 heval
  obtain ⟨d, hd, heval⟩ := bind_eq_some_iff.1 heval
  obtain ⟨e, he, heval⟩ := bind_eq_some_iff.1 heval
  obtain ⟨p, hp, hfacts⟩ := map_eq_some_iff.1 heval
  simp only [Prod.mk.injEq] at hfacts
  rw [oneRound] at hs
  have hrun : Runs s := execAll_runs _ (.init _ _ _) hs
  obtain ⟨hours, -, hvoted, -⟩ := votes_follow_positions hrun hr
  refine ⟨s, hrun, r, hr, d, e, hd, he, (hours _ d hd).2.2 ?_, hvoted _ p _ hp hfacts.2.2 _ d hd,
    hvoted _ p _ hp hfacts.2.2 _ e he⟩
  rw [hfacts.1]
  rfl

end GenericConsensus

end Rippled.Consensus
