import Rippled.Consensus.Disputes

/-!
# Every operation of consensus keeps its disputes right

`Inv` is what holds of the disputes between operations: our vote on each is whether our set has the transaction, every
difference to a set we have compared with is disputed, and the votes recorded are those of the peers' current
positions.
-/

namespace Rippled.Consensus

open Lib List AList Option

variable {X : Traits} {A : Type} [TxSets X] [DecidableEq X.NodeID] [DecidableEq X.TxSetID] [DecidableEq X.TxID]

section Positions
variable {acquired : HashMap X.TxSetID X.TxSet} {peers : HashMap X.NodeID (Proposal X)} {C : List X.TxSetID}
  {txns : X.TxSet} {D : HashMap X.TxID (DisputedTx X.Tx X.NodeID)}

/-- A set that arrives leaves only the peers that propose it with votes to be brought up to date. -/
theorem Settled.acquire (h : Settled acquired peers C (fun _ => True) txns D) (i : X.TxSetID) (set : X.TxSet) :
    Settled (acquired.insert i set) peers C (fun n => ∀ p, peers.lookup n = some p → p.position ≠ i) txns D := by
  refine ⟨fun t d hd => ?_, h.compared⟩
  have hok := h.disputes t d hd
  refine { hok with voted := fun n p set' hn hp hset => ?_ }
  rw [lookup_insert_ne (hn p hp)] at hset
  exact hok.voted n p set' trivial hp hset

/-- A peer that moves leaves only its own votes to be brought up to date. -/
theorem Settled.move (h : Settled acquired peers C (fun _ => True) txns D) (n : X.NodeID) (p : Proposal X) :
    Settled acquired (peers.insert n p) C (fun m => m ≠ n) txns D := by
  refine ⟨fun t d hd => ?_, h.compared⟩
  have hok := h.disputes t d hd
  refine { hok with voted := fun m q set hm hq hset => ?_, present := fun m hm => ?_ }
  · rw [lookup_insert_ne hm] at hq
    exact hok.voted m q set trivial hq hset
  · by_cases hmn : m = n
    · rw [hmn, lookup_insert]
      rfl
    · rw [lookup_insert_ne hmn]
      exact hok.present m hm

end Positions

namespace GenericConsensus

structure Inv (s : GenericConsensus X A) : Prop where
  named : ∀ n p, s.currPeerPositions.lookup n = some p → p.nodeID = n
  settled : ∀ r, s.result = some r → SettledIn s r.compares (fun _ => True) r

/-- The state as far as the disputes depend on it. -/
structure Same (s s' : GenericConsensus X A) : Prop where
  acquired : s'.acquired = s.acquired
  peers : s'.currPeerPositions = s.currPeerPositions
  result : ∀ r', s'.result = some r' →
    ∃ r, s.result = some r ∧ r'.txns = r.txns ∧ r'.disputes = r.disputes ∧ r'.compares = r.compares

variable {s : GenericConsensus X A} {s' : GenericConsensus X A}

theorem Inv.same (h : Inv s) (hs : Same s s') : Inv s' where
  named := by
    rw [hs.peers]
    exact h.named
  settled r' hr' := by
    obtain ⟨r, hr, htxns, hdisputes, hcompares⟩ := hs.result r' hr'
    rw [SettledIn, hs.acquired, hs.peers, htxns, hdisputes, hcompares]
    exact h.settled r hr

theorem Inv.congr (h : Inv s) (hacq : s'.acquired = s.acquired) (hpeers : s'.currPeerPositions = s.currPeerPositions)
    (hres : s'.result = s.result) : Inv s' :=
  h.same ⟨hacq, hpeers, fun r' hr' => ⟨r', hres ▸ hr', rfl, rfl, rfl⟩⟩

variable {r : ConsensusResult X}

theorem Inv.of_moved {r' : ConsensusResult X} (hm : Moved s s' r r')
    (hnamed : ∀ n p, s.currPeerPositions.lookup n = some p → p.nodeID = n)
    (hset : SettledIn s r'.compares (fun _ => True) r') : Inv s' where
  named := by
    rw [hm.peers]
    exact hnamed
  settled u hu := by
    rw [hm.result] at hu
    cases hu
    exact hm.settledIn.2 hset

theorem Inv.ask (h : Inv s) {β : Type} (f : A → β × A) : Inv (s.ask f).2 := h.congr rfl rfl rfl

theorem Inv.peerBowsOut (h : Inv s) (n : X.NodeID) : Inv (s.peerBowsOut n) where
  named m p hp := by
    by_cases hmn : m = n
    · rw [hmn] at hp
      change (s.currPeerPositions.erase n).lookup n = some p at hp
      rw [lookup_erase] at hp
      cases hp
    · exact h.named m p ((lookup_erase_ne hmn).symm.trans hp)
  settled r hr := by
    obtain ⟨r₀, hr₀, rfl⟩ := map_eq_some_iff.1 hr
    exact (h.settled r₀ hr₀).mapVal fun t d hd => hd.unVote n

theorem Inv.checkFresh (peerCutoff : Int) (es : List (Σ _ : X.NodeID, Proposal X)) (hes : ∀ e ∈ es, e.2.nodeID = e.1)
    {acc : List (Int × Nat) × GenericConsensus X A} (h : Inv acc.2) :
    Inv (es.foldl (GenericConsensus.checkFresh peerCutoff) acc).2 := by
  induction es generalizing acc with
  | nil => exact h
  | cons e es ih =>
    refine ih (fun d hd => hes d (mem_cons_of_mem e hd)) ?_
    rw [GenericConsensus.checkFresh]
    split_ifs
    · rw [hes e mem_cons_self]
      exact (h.peerBowsOut e.1).congr rfl rfl rfl
    · exact h

variable [ConsensusAdaptor X A]

theorem Inv.tell (h : Inv s) (e : Event X) : Inv (s.tell e) := h.congr rfl rfl rfl

theorem Inv.setMode (h : Inv s) (m : ConsensusMode) : Inv (s.setMode m) := h.congr rfl rfl rfl

theorem Inv.leaveConsensus (h : Inv s) : Inv s.leaveConsensus := by
  rw [GenericConsensus.leaveConsensus]
  split_ifs
  · split
    · exact h.setMode _
    · rename_i r hr
      split_ifs
      · exact h.setMode _
      · refine h.same ⟨rfl, rfl, fun r' hr' => ⟨r, hr, ?_⟩⟩
        cases hr'
        exact ⟨rfl, rfl, rfl⟩
  · exact h

variable [LawfulTxSets X]

/-- A set that is compared gets its disputes. -/
theorem Inv.createDisputes (h : Inv s) (o : X.TxSet) : Inv (s.createDisputes o) := by
  cases hr : s.result with
  | none =>
    rw [GenericConsensus.createDisputes, hr]
    exact h
  | some r =>
    obtain ⟨r', hm, hset⟩ := createDisputes_ok hr (h.settled r hr) o
    exact .of_moved hm h.named hset

/-! ## Sets and positions that arrive -/

/-- A set arrives, and the disputes are updated for the peers that propose it. -/
theorem Inv.arrive {u : GenericConsensus X A} (h : Inv s) {set : X.TxSet} (hres : u.result = s.result)
    (hacq : u.acquired = s.acquired.insert (TxSets.id set) set) (hpeers : u.currPeerPositions = s.currPeerPositions) :
    Inv (u.updateAll set) := by
  have hnamed : ∀ n p, u.currPeerPositions.lookup n = some p → p.nodeID = n := hpeers ▸ h.named
  cases hr : s.result with
  | none =>
    have hsame : u.updateAll set = u := by
      refine foldlRecOn (motive := fun v => v = u) _ _ rfl fun v hv e _ => ?_
      rw [hv, updateDisputes, hres, hr, ite_self]
    rw [hsame]
    refine ⟨hnamed, fun r hr' => ?_⟩
    rw [hres, hr] at hr'
    cases hr'
  | some r =>
    have hold : u.acquired.lookup (TxSets.id set) = some set := by rw [hacq, lookup_insert]
    obtain ⟨r', hm, hset⟩ := updateAll_ok (hres.trans hr) hold (by
      rw [SettledIn, hacq, hpeers]
      exact (h.settled r hr).acquire _ set)
    exact .of_moved hm hnamed hset

/-- A set comes in, and the peers that proposed it vote. -/
theorem Inv.gotTxSet (h : Inv s) (now : Int) (txSet : X.TxSet) : Inv (s.gotTxSet now txSet) := by
  rw [GenericConsensus.gotTxSet]
  dsimp only
  split_ifs with hphase hold hnone
  · exact h
  · exact h.congr rfl rfl rfl
  · refine ⟨h.named, fun r hr => ?_⟩
    have hres : s.result = none := isNone_iff_eq_none.1 hnone
    rw [show s.result = some r from hr] at hres
    cases hres
  · exact h.arrive rfl rfl rfl

/-- A peer's new position, with the disputes brought up to date if its set is there. -/
theorem Inv.peerMoves (h : Inv s) (p : Proposal X) : Inv ((s.recordPosition p).lookForSet p) := by
  have hself : (s.recordPosition p).currPeerPositions.lookup p.nodeID = some p := lookup_insert _
  have hnamed : ∀ n q, (s.recordPosition p).currPeerPositions.lookup n = some q → q.nodeID = n := by
    intro n q hq
    by_cases hn : n = p.nodeID
    · rw [hn, hself] at hq
      cases hq
      exact hn.symm
    · exact h.named n q ((lookup_insert_ne hn).symm.trans hq)
  have hmove : ∀ r, (s.recordPosition p).result = some r →
      SettledIn (s.recordPosition p) r.compares (fun m => m ≠ p.nodeID) r := fun r hr =>
        (h.settled r hr).move p.nodeID p
  generalize s.recordPosition p = u at hself hnamed hmove
  rw [lookForSet]
  cases hset : u.acquired.lookup p.position with
  | none =>
    -- without its set the peer's votes do not count
    have hinv : Inv u := by
      refine ⟨hnamed, fun r hr => ⟨fun t d hd => ?_, (hmove r hr).compared⟩⟩
      have hok := (hmove r hr).disputes t d hd
      refine { hok with voted := fun m q set _ hq hset' => hok.voted m q set ?_ hq hset' }
      rintro rfl
      rw [hself] at hq
      cases hq
      rw [hset] at hset'
      cases hset'
    have hask := hinv.ask (ConsensusAdaptor.acquireTxSet p.position)
    generalize u.ask (ConsensusAdaptor.acquireTxSet p.position) = answer at hask
    obtain ⟨_ | set, u'⟩ := answer
    · exact hask
    · exact hask.gotTxSet _ _
  | some set =>
    simp only
    split_ifs with hsome
    · obtain ⟨r, hr⟩ := isSome_iff_exists.1 hsome
      obtain ⟨r', hm, hset'⟩ := updateDisputes_ok hr (hmove r hr) hself hset
      refine .of_moved hm hnamed (hset'.mono fun n q _ _ => ?_)
      exact (em (n = p.nodeID)).symm
    · refine ⟨hnamed, fun r hr => ?_⟩
      rw [hr] at hsome
      exact absurd rfl hsome

/-! ## Our own position -/

omit [ConsensusAdaptor X A] [LawfulTxSets X] in
/-- A fresh result has no disputes, whatever sets are there. -/
theorem Inv.fresh (h : Inv s) (hpeers : s'.currPeerPositions = s.currPeerPositions) (hr : s'.result = some r)
    (hdisputes : r.disputes = ∅) (hcompares : r.compares = []) : Inv s' := by
  refine ⟨by rw [hpeers]; exact h.named, fun r' hr' => ?_⟩
  rw [hr] at hr'
  cases hr'
  rw [SettledIn, hdisputes, hcompares]
  exact settled_empty

theorem Inv.createAll (h : Inv s) (es : List (Σ _ : X.NodeID, Proposal X)) :
    Inv (es.foldl (fun s e => match s.acquired.lookup e.2.position with
      | none => s
      | some o => s.createDisputes o) s) := by
  refine foldlRecOn _ _ h fun u hu e _ => ?_
  split
  · exact hu
  · exact hu.createDisputes _

theorem Inv.closeLedger (h : Inv s) : Inv s.closeLedger := by
  rw [GenericConsensus.closeLedger]
  refine Inv.createAll ?_ _
  split_ifs <;> exact h.fresh rfl rfl rfl rfl

omit [DecidableEq X.NodeID] [DecidableEq X.TxSetID] [DecidableEq X.TxID] in
/-- The votes on the disputes decide what is in the new set. -/
theorem followVotes_exists (percentTime : Int) (proposing : Bool) (parms : ConsensusParms) (txns : X.TxSet)
    (es : List (Σ _ : X.TxID, DisputedTx X.Tx X.NodeID)) (hnd : es.NodupKeys)
    (hkeyed : ∀ e ∈ es, TxSets.txId e.2.tx = e.1) (set : Option X.TxSet)
    (hours : ∀ e ∈ es, e.2.ourVote = TxSets.exists_ (set.getD txns) e.1) :
    (∀ e ∈ es, TxSets.exists_ ((es.foldl (followVote percentTime proposing parms txns) set).getD txns) e.1 =
      (e.2.updateVote percentTime proposing parms).2.ourVote) ∧
    ∀ t, t ∉ es.keys → TxSets.exists_ ((es.foldl (followVote percentTime proposing parms txns) set).getD txns) t =
      TxSets.exists_ (set.getD txns) t := by
  induction es generalizing set with
  | nil => exact ⟨fun _ he => (nomatch he), fun _ _ => rfl⟩
  | cons e es ih =>
    rw [nodupKeys_cons] at hnd
    obtain ⟨-, -, -, htx, hsame⟩ := DisputedTx.updateVote_spec percentTime proposing parms e.2
    -- one vote moves one transaction
    have hone : TxSets.exists_ ((followVote percentTime proposing parms txns set e).getD txns) e.1 =
          (e.2.updateVote percentTime proposing parms).2.ourVote ∧
        ∀ t, t ≠ e.1 → TxSets.exists_ ((followVote percentTime proposing parms txns set e).getD txns) t =
          TxSets.exists_ (set.getD txns) t := by
      rw [followVote]
      dsimp only
      split_ifs with hchanged hvote
      · rw [hvote]
        refine ⟨(LawfulTxSets.exists_insert _ _ _).2 (.inl ?_), fun t ht => Bool.eq_iff_iff.2 ?_⟩
        · rw [htx, hkeyed e mem_cons_self]
        · rw [getD_some, LawfulTxSets.exists_insert, htx, hkeyed e mem_cons_self]
          exact or_iff_right ht
      · rw [Bool.not_eq_true] at hvote
        rw [hvote, getD_some]
        refine ⟨Bool.eq_false_iff.2 fun hex => ?_, fun t ht => Bool.eq_iff_iff.2 ?_⟩
        · exact ((LawfulTxSets.exists_erase _ _ _).1 hex).1 rfl
        · rw [LawfulTxSets.exists_erase]
          exact and_iff_right ht
      · rw [Bool.not_eq_true] at hchanged
        exact ⟨by rw [hsame hchanged, hours e mem_cons_self], fun _ _ => rfl⟩
    have hne : ∀ d ∈ es, d.1 ≠ e.1 := fun d hd heq => hnd.1 (heq ▸ mem_keys_of_mem hd)
    obtain ⟨hin, hout⟩ := ih hnd.2 (fun d hd => hkeyed d (mem_cons_of_mem e hd))
      (followVote percentTime proposing parms txns set e) fun d hd => by
        rw [hone.2 d.1 (hne d hd)]
        exact hours d (mem_cons_of_mem e hd)
    rw [foldl_cons]
    refine ⟨fun d hd => ?_, fun t ht => ?_⟩
    · rcases mem_cons.1 hd with rfl | hd
      · rw [hout d.1 hnd.1, hone.1]
      · exact hin d hd
    · rw [keys_cons, mem_cons, not_or] at ht
      rw [hout t ht.2, hone.2 t ht.1]

omit [ConsensusAdaptor X A] in
/-- With the disputes and our set updated for the votes that change, they agree again. -/
theorem updateVotes_settled {C : List X.TxSetID} {V : X.NodeID → Prop} (h : SettledIn s C V r) (percentTime : Int)
    (proposing : Bool) (parms : ConsensusParms) :
    Settled s.acquired s.currPeerPositions C V
      ((r.disputes.entries.foldl (followVote percentTime proposing parms r.txns) none).getD r.txns)
      (r.disputes.mapVal fun _ d => (d.updateVote percentTime proposing parms).2) := by
  have hmem : ∀ e, e ∈ r.disputes.entries ↔ r.disputes.lookup e.1 = some e.2 := fun e => mem_lookup_iff.symm
  obtain ⟨hin, hout⟩ := followVotes_exists percentTime proposing parms r.txns r.disputes.entries r.disputes.nodupKeys
    (fun e he => (h.disputes e.1 e.2 ((hmem e).1 he)).keyed) none fun e he => (h.disputes e.1 e.2 ((hmem e).1 he)).ours
  constructor
  · intro t d hd
    rw [HashMap.lookup_mapVal] at hd
    obtain ⟨d₀, hd₀, rfl⟩ := map_eq_some_iff.1 hd
    have hok := h.disputes t d₀ hd₀
    obtain ⟨hvotes, hyays, hnays, htx, -⟩ := DisputedTx.updateVote_spec percentTime proposing parms d₀
    refine ⟨by rw [htx, hok.keyed], (hin ⟨t, d₀⟩ ((hmem ⟨t, d₀⟩).2 hd₀)).symm, ?_, ⟨?_, ?_⟩, ?_⟩
    · rw [hvotes]
      exact hok.voted
    · rw [hyays, hvotes]
      exact hok.tallied.yays
    · rw [hnays, hvotes]
      exact hok.tallied.nays
    · rw [hvotes]
      exact hok.present
  · intro o ho t ht
    rw [HashMap.lookup_mapVal, isSome_map]
    by_contra hnone
    rw [Bool.not_eq_true, isSome_eq_false_iff, isNone_iff_eq_none] at hnone
    rw [hout t (lookup_eq_none.1 hnone)] at ht
    have hsome := h.compared o ho t ht
    rw [hnone] at hsome
    cases hsome

theorem Inv.shareOurSet (h : Inv s) (set : X.TxSet) (bowedOut : Bool) : Inv (s.shareOurSet set bowedOut) := by
  rw [GenericConsensus.shareOurSet]
  split_ifs
  · exact h
  · exact h.arrive (s := s) rfl rfl rfl
  · exact h.arrive (s := s) rfl rfl rfl

theorem Inv.changeOurPosition {set : X.TxSet} (closeTime : Int)
    (hnamed : ∀ n p, s.currPeerPositions.lookup n = some p → p.nodeID = n)
    (h : SettledIn s r.compares (fun _ => True) { r with txns := set }) :
    Inv (s.changeOurPosition set closeTime r) := by
  rw [GenericConsensus.changeOurPosition]
  generalize r.position.changePosition (TxSets.id set) closeTime s.now = position
  have hinv : Inv { s with result := some { r with txns := set, position } } := by
    refine ⟨hnamed, fun r' hr' => ?_⟩
    cases hr'
    exact h
  have hshared := hinv.shareOurSet set position.isBowOut
  split_ifs
  · exact hshared.tell _
  · exact hshared

omit [TxSets X] [DecidableEq X.NodeID] [DecidableEq X.TxSetID] [DecidableEq X.TxID] [LawfulTxSets X] in
theorem updateCloseTime_frame (votes : List (Int × Nat)) (ours : Int) (s : GenericConsensus X A) :
    (s.updateCloseTime votes ours).2.acquired = s.acquired ∧
      (s.updateCloseTime votes ours).2.currPeerPositions = s.currPeerPositions ∧
      (s.updateCloseTime votes ours).2.result = s.result := by
  rw [updateCloseTime]
  split_ifs <;> exact ⟨rfl, rfl, rfl⟩

theorem Inv.settlePosition (hr : s.result = some r)
    (hnamed : ∀ n p, s.currPeerPositions.lookup n = some p → p.nodeID = n) {new : Option X.TxSet}
    (h : Settled s.acquired s.currPeerPositions r.compares (fun _ => True) (new.getD r.txns) r.disputes)
    (closeTime cutoff : Int) : Inv (s.settlePosition new closeTime cutoff) := by
  rw [GenericConsensus.settlePosition, hr]
  cases new with
  | some set => exact .changeOurPosition closeTime hnamed h
  | none =>
    dsimp only
    split_ifs
    · exact .changeOurPosition closeTime hnamed h
    · refine ⟨hnamed, fun r' hr' => ?_⟩
      rw [hr] at hr'
      cases hr'
      exact h

/-- Our position follows the votes. -/
theorem Inv.updateOurPositions (h : Inv s) : Inv s.updateOurPositions := by
  rw [GenericConsensus.updateOurPositions]
  have hfresh := Inv.checkFresh (s.now - s.parms.proposeFRESHNESS) s.currPeerPositions.entries
    (fun e he => h.named e.1 e.2 (mem_lookup_iff.2 he)) (show Inv ([], s).2 from h)
  dsimp only
  generalize s.currPeerPositions.entries.foldl (GenericConsensus.checkFresh (s.now - s.parms.proposeFRESHNESS))
    ([], s) = acc
    at hfresh
  obtain ⟨votes, u⟩ := acc
  cases hr : u.result with
  | none => exact hfresh
  | some r =>
    have hsettled := updateVotes_settled (hfresh.settled r hr) u.convergePercent (u.mode = .proposing) u.parms
    obtain ⟨hacq, hpeers, hres⟩ := updateCloseTime_frame votes ((u.updateVotes r).2.asCloseTime r.position.closeTime)
      (u.updateVotes r).2
    refine Inv.settlePosition hres ?_ ?_ _ _
    · rw [hpeers]
      exact hfresh.named
    · rw [hacq, hpeers]
      exact hsettled

end GenericConsensus

end Rippled.Consensus
