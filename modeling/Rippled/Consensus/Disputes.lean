import Rippled.Consensus.Consensus

/-!
# Disputes follow our position and those of the peers

`Settled` says what is right about the disputes of a result. Two of its parts are relaxed while an operation runs: the
sets that disputes have been created for, and the peers whose votes are up to date. Each operation on disputes gets one
lemma that says how it moves them.
-/

namespace Rippled.Consensus

open Lib List AList TxSets

/-- What is assumed of transaction sets: `compare` is the symmetric difference, `insert` and `erase` do what they say,
and the id of a set stands for its transactions. -/
class LawfulTxSets (X : Traits) [TxSets X] : Prop where
  txId_find : ∀ (set : X.TxSet) (txID : X.TxID) (tx : X.Tx), TxSets.find set txID = some tx → TxSets.txId tx = txID
  mem_compare : ∀ (a b : X.TxSet) (txID : X.TxID) (inThis : Bool), (txID, inThis) ∈ TxSets.compare a b ↔
    TxSets.exists_ a txID = inThis ∧ TxSets.exists_ b txID = !inThis
  exists_insert : ∀ (tx : X.Tx) (set : X.TxSet) (txID : X.TxID),
    TxSets.exists_ (TxSets.insert tx set) txID = true ↔ txID = TxSets.txId tx ∨ TxSets.exists_ set txID = true
  exists_erase : ∀ (gone : X.TxID) (set : X.TxSet) (txID : X.TxID),
    TxSets.exists_ (TxSets.erase gone set) txID = true ↔ txID ≠ gone ∧ TxSets.exists_ set txID = true
  exists_of_id : ∀ (a b : X.TxSet), TxSets.id a = TxSets.id b → ∀ txID, TxSets.exists_ a txID = TxSets.exists_ b txID

variable {X : Traits} {A : Type}

/-- The state after an operation on the disputes of the result `r`, which has become `r'`. -/
structure GenericConsensus.Moved (s s' : GenericConsensus X A) (r r' : ConsensusResult X) : Prop where
  result : s'.result = some r'
  acquired : s'.acquired = s.acquired
  peers : s'.currPeerPositions = s.currPeerPositions
  txns : r'.txns = r.txns

variable {s : GenericConsensus X A} {r : ConsensusResult X} {s' : GenericConsensus X A} {r' : ConsensusResult X}

theorem GenericConsensus.Moved.trans {s'' : GenericConsensus X A} {r'' : ConsensusResult X} (h : Moved s s' r r')
    (h' : Moved s' s'' r' r'') : Moved s s'' r r'' :=
  ⟨h'.result, h'.acquired.trans h.acquired, h'.peers.trans h.peers, h'.txns.trans h.txns⟩

variable [TxSets X] [DecidableEq X.NodeID] [DecidableEq X.TxSetID]

/-- What is right about a dispute, with the votes of the peers in `V` up to date. -/
structure DisputeOk (acquired : HashMap X.TxSetID X.TxSet) (peers : HashMap X.NodeID (Proposal X)) (V : X.NodeID → Prop)
    (txns : X.TxSet) (t : X.TxID) (d : DisputedTx X.Tx X.NodeID) : Prop where
  keyed : TxSets.txId d.tx = t
  ours : d.ourVote = TxSets.exists_ txns t
  voted : ∀ n p set, V n → peers.lookup n = some p → acquired.lookup p.position = some set →
    d.votes.lookup n = some (TxSets.exists_ set t)
  tallied : d.Tallied
  present : ∀ n, (d.votes.lookup n).isSome = true → (peers.lookup n).isSome = true

/-- What is right about the disputes of a result, for the sets in `C` that it has been compared with. -/
structure Settled [DecidableEq X.TxID] (acquired : HashMap X.TxSetID X.TxSet)
    (peers : HashMap X.NodeID (Proposal X)) (C : List X.TxSetID)
    (V : X.NodeID → Prop) (txns : X.TxSet) (D : HashMap X.TxID (DisputedTx X.Tx X.NodeID)) : Prop where
  disputes : ∀ t d, D.lookup t = some d → DisputeOk acquired peers V txns t d
  compared : ∀ o, TxSets.id o ∈ C → ∀ t, TxSets.exists_ txns t ≠ TxSets.exists_ o t → (D.lookup t).isSome = true

variable {p : Proposal X} {n : X.NodeID}

section Votes
variable {acquired : HashMap X.TxSetID X.TxSet} {peers : HashMap X.NodeID (Proposal X)} {C : List X.TxSetID}
  {V : X.NodeID → Prop} {txns : X.TxSet} {t : X.TxID} {d : DisputedTx X.Tx X.NodeID}

section
variable (h : DisputeOk acquired peers V txns t d)
include h

theorem DisputeOk.setVote (hp : peers.lookup n = some p) {b : Bool}
    (hb : ∀ set, acquired.lookup p.position = some set → TxSets.exists_ set t = b) :
    DisputeOk acquired peers (fun m => V m ∨ m = n) txns t (d.setVote n b).2 where
  keyed := by rw [(d.setVote_tx n b).1, h.keyed]
  ours := by rw [(d.setVote_tx n b).2, h.ours]
  voted m q set hm hq hset := by
    rw [DisputedTx.setVote_lookup]
    by_cases hmn : m = n
    · subst hmn
      rw [hp] at hq
      cases hq
      rw [if_pos rfl, hb set hset]
    · rw [if_neg hmn]
      exact h.voted m q set (hm.resolve_right hmn) hq hset
  tallied := h.tallied.setVote n b
  present m hm := by
    rw [DisputedTx.setVote_lookup] at hm
    by_cases hmn : m = n
    · rw [hmn, hp]
      rfl
    · rw [if_neg hmn] at hm
      exact h.present m hm

theorem DisputeOk.unVote (n : X.NodeID) : DisputeOk acquired (peers.erase n) V txns t (d.unVote n) where
  keyed := by rw [(d.unVote_tx n).1, h.keyed]
  ours := by rw [(d.unVote_tx n).2, h.ours]
  voted m q set hm hq hset := by
    by_cases hmn : m = n
    · rw [hmn, lookup_erase] at hq
      cases hq
    · rw [lookup_erase_ne hmn] at hq
      rw [DisputedTx.unVote_lookup, if_neg hmn]
      exact h.voted m q set hm hq hset
  tallied := h.tallied.unVote n
  present m hm := by
    rw [DisputedTx.unVote_lookup] at hm
    by_cases hmn : m = n
    · rw [if_pos hmn] at hm
      cases hm
    · rw [if_neg hmn] at hm
      rw [lookup_erase_ne hmn]
      exact h.present m hm

variable {V' : X.NodeID → Prop}

theorem DisputeOk.mono (hV : ∀ n p, peers.lookup n = some p → V' n → V n) : DisputeOk acquired peers V' txns t d:=
  { h with voted := fun n p set hn hp hset => h.voted n p set (hV n p hp hn) hp hset }

end

variable [DecidableEq X.TxID] {D : HashMap X.TxID (DisputedTx X.Tx X.NodeID)}

theorem Settled.mono (h : Settled acquired peers C V txns D) (hV : ∀ n p, peers.lookup n = some p → V' n → V n) :
    Settled acquired peers C V' txns D :=
  ⟨fun t d hd => (h.disputes t d hd).mono hV, h.compared⟩

theorem Settled.mapVal {acquired' : HashMap X.TxSetID X.TxSet} {peers' : HashMap X.NodeID (Proposal X)}
    {f : X.TxID → DisputedTx X.Tx X.NodeID → DisputedTx X.Tx X.NodeID} (h : Settled acquired peers C V txns D)
    (hf : ∀ t d, DisputeOk acquired peers V txns t d → DisputeOk acquired' peers' V' txns t (f t d)) :
    Settled acquired' peers' C V' txns (D.mapVal f) := by
  constructor
  · intro t d hd
    rw [HashMap.lookup_mapVal] at hd
    obtain ⟨d', hd', rfl⟩ := Option.map_eq_some_iff.1 hd
    exact hf t d' (h.disputes t d' hd')
  · intro o ho t ht
    rw [HashMap.lookup_mapVal, Option.isSome_map]
    exact h.compared o ho t ht

theorem settled_empty : Settled acquired peers [] V txns (∅ : HashMap X.TxID (DisputedTx X.Tx X.NodeID)) where
  disputes t d hd := by cases hd
  compared o ho := by cases ho

end Votes

/-! ## New disputes -/

namespace GenericConsensus

variable {V : X.NodeID → Prop}

theorem collectVotes_ok {acquired : HashMap X.TxSetID X.TxSet} {peers : HashMap X.NodeID (Proposal X)} {txns : X.TxSet}
    {t : X.TxID} (es : List (Σ _ : X.NodeID, Proposal X)) (hes : ∀ e ∈ es, peers.lookup e.1 = some e.2)
    {acc : Bool × DisputedTx X.Tx X.NodeID} (h : DisputeOk acquired peers V txns t acc.2) :
    DisputeOk acquired peers (fun n => V n ∨ n ∈ es.keys) txns t (es.foldl (collectVote acquired t) acc).2 := by
  induction es generalizing V acc with
  | nil => exact h.mono fun n p _ hn => hn.resolve_right (by simp)
  | cons e es ih =>
    have hone : DisputeOk acquired peers (fun n => V n ∨ n = e.1) txns t (collectVote acquired t acc e).2 := by
      rw [collectVote]
      cases hset : acquired.lookup e.2.position with
      | none =>
        refine { h with voted := fun n p set hn hp hset' => ?_ }
        rcases hn with hn | rfl
        · exact h.voted n p set hn hp hset'
        · rw [hes e mem_cons_self] at hp
          cases hp
          rw [hset] at hset'
          cases hset'
      | some set =>
        refine h.setVote (hes e mem_cons_self) fun set' hset' => ?_
        rw [hset] at hset'
        cases hset'
        rfl
    rw [foldl_cons]
    refine (ih (fun e' he' => hes e' (mem_cons_of_mem e he')) hone).mono fun n p _ hn => ?_
    rw [keys_cons, mem_cons] at hn
    tauto

variable [DecidableEq X.TxID]

/-- What is right about the disputes in a state. -/
def SettledIn (s : GenericConsensus X A) (C : List X.TxSetID) (V : X.NodeID → Prop) (r : ConsensusResult X) : Prop :=
  Settled s.acquired s.currPeerPositions C V r.txns r.disputes

variable {C : List X.TxSetID}

theorem Moved.settledIn {u : ConsensusResult X} (hm : Moved s s' r r') : SettledIn s' C V u ↔ SettledIn s C V u := by
  rw [SettledIn, SettledIn, hm.acquired, hm.peers]

variable [ConsensusAdaptor X A] [LawfulTxSets X]

theorem createDispute_ok (hr : s.result = some r) (h : SettledIn s C V r) (o : X.TxSet) (e : X.TxID × Bool) :
    ∃ r', Moved s (createDispute o s e) r r' ∧ SettledIn s C V r' ∧ r'.compares = r.compares ∧
      (∀ t, (r.disputes.lookup t).isSome = true → (r'.disputes.lookup t).isSome = true) ∧
      (e ∈ TxSets.compare r.txns o → (r'.disputes.lookup e.1).isSome = true) := by
  obtain ⟨t, inThis⟩ := e
  have hfound : (t, inThis) ∈ compare r.txns o → (find (if inThis then r.txns else o) t).isSome = true := by
    intro he
    obtain ⟨hr, ho⟩ := (LawfulTxSets.mem_compare r.txns o t inThis).1 he
    cases inThis
    · exact ho
    · exact hr
  rw [createDispute, hr]
  cases hfind : find (if inThis then r.txns else o) t with
  | none =>
    rw [hfind] at hfound
    simp only [hfind]
    exact ⟨r, ⟨hr, rfl, rfl, rfl⟩, h, rfl, fun _ ht => ht, fun he => nomatch hfound he⟩
  | some tx =>
    have htx := LawfulTxSets.txId_find _ _ _ hfind
    subst htx
    simp only [hfind]
    by_cases hold : (r.disputes.lookup (txId tx)).isSome = true
    · rw [if_pos hold]
      exact ⟨r, ⟨hr, rfl, rfl, rfl⟩, h, rfl, fun _ ht => ht, fun _ => hold⟩
    · rw [if_neg hold]
      -- the new dispute has the votes of all peers whose sets are there
      have hnew : DisputeOk s.acquired s.currPeerPositions (fun _ => False) r.txns (txId tx)
          { ourVote := exists_ r.txns (txId tx), tx } :=
        ⟨rfl, rfl, fun _ _ _ hn => hn.elim, DisputedTx.tallied_new _ _, fun n hn => by cases hn⟩
      have hvotes : DisputeOk s.acquired s.currPeerPositions V r.txns (txId tx)
          (s.currPeerPositions.entries.foldl (collectVote s.acquired (txId tx))
            (false, { ourVote := exists_ r.txns (txId tx), tx })).2 := by
        refine (collectVotes_ok _ (fun e he => mem_lookup_iff.2 he) hnew).mono fun n p hp _ => .inr ?_
        exact lookup_isSome.1 (by rw [hp]; rfl)
      have hgrows : ∀ (d : DisputedTx X.Tx X.NodeID) (u : X.TxID), (r.disputes.lookup u).isSome = true →
          ((r.disputes.insert (txId tx) d).lookup u).isSome = true := by
        intro d u hu
        by_cases hut : u = txId tx
        · rw [hut, lookup_insert]
          rfl
        · rwa [lookup_insert_ne hut]
      refine ⟨_, ⟨rfl, rfl, rfl, rfl⟩, ⟨fun u d hd => ?_, fun o' ho' u hu => hgrows _ u (h.compared o' ho' u hu)⟩, rfl,
        hgrows _, fun _ => ?_⟩
      · by_cases hut : u = txId tx
        · rw [hut] at hd ⊢
          rw [lookup_insert] at hd
          cases hd
          exact hvotes
        · rw [lookup_insert_ne hut] at hd
          exact h.disputes u d hd
      · rw [lookup_insert]
        rfl

theorem createDisputeList_ok (o : X.TxSet) (es : List (X.TxID × Bool))
    (hr : s.result = some r) (h : SettledIn s C V r) :
    ∃ r', Moved s (es.foldl (createDispute o) s) r r' ∧ SettledIn s C V r' ∧ r'.compares = r.compares ∧
      (∀ t, (r.disputes.lookup t).isSome = true → (r'.disputes.lookup t).isSome = true) ∧
      ∀ e ∈ es, e ∈ TxSets.compare r.txns o → (r'.disputes.lookup e.1).isSome = true := by
  induction es generalizing s r with
  | nil => exact ⟨r, ⟨hr, rfl, rfl, rfl⟩, h, rfl, fun _ ht => ht, fun _ he => nomatch he⟩
  | cons e es ih =>
    obtain ⟨r₁, hm, hset, hcomp, hgrows, hfound⟩ := createDispute_ok hr h o e
    obtain ⟨r₂, hm', hset', hcomp', hgrows', hfound'⟩ := ih hm.result (hm.settledIn.2 hset)
    refine ⟨r₂, hm.trans hm', hm.settledIn.1 hset', hcomp'.trans hcomp, fun t ht => hgrows' t (hgrows t ht),
      fun d hd hin => ?_⟩
    rcases mem_cons.1 hd with rfl | hd
    · exact hgrows' d.1 (hfound hin)
    · exact hfound' d hd (hm.txns ▸ hin)

/-- Once disputes have been created for a set, the result counts as compared with it. -/
theorem createDisputes_ok (hr : s.result = some r) (h : SettledIn s r.compares V r) (o : X.TxSet) :
    ∃ r', Moved s (createDisputes o s) r r' ∧ SettledIn s r'.compares V r' := by
  rw [createDisputes, hr]
  simp only
  by_cases hold : TxSets.id o ∈ r.compares
  · rw [if_pos hold]
    exact ⟨r, ⟨hr, rfl, rfl, rfl⟩, h⟩
  rw [if_neg hold]
  -- with every difference disputed, the set may be added
  have hadd : ∀ D : HashMap X.TxID (DisputedTx X.Tx X.NodeID),
      Settled s.acquired s.currPeerPositions r.compares V r.txns D →
      (∀ t, exists_ r.txns t ≠ exists_ o t → (D.lookup t).isSome = true) →
      Settled s.acquired s.currPeerPositions (TxSets.id o :: r.compares) V r.txns D := by
    intro D hD hdiff
    refine ⟨hD.disputes, fun o' ho' t ht => ?_⟩
    rcases mem_cons.1 ho' with heq | hin
    · rw [LawfulTxSets.exists_of_id o' o heq t] at ht
      exact hdiff t ht
    · exact hD.compared o' hin t ht
  by_cases hsame : TxSets.id r.txns = TxSets.id o
  · rw [if_pos hsame]
    refine ⟨_, ⟨rfl, rfl, rfl, rfl⟩, hadd _ h fun t ht => ?_⟩
    exact absurd (LawfulTxSets.exists_of_id r.txns o hsame t) ht
  · rw [if_neg hsame]
    obtain ⟨r', hm, hset, hcomp, -, hfound⟩ := createDisputeList_ok o (compare r.txns o)
      (s := { s with result := some { r with compares := TxSets.id o :: r.compares } }) rfl h
    refine ⟨r', ⟨hm.result, hm.acquired, hm.peers, hm.txns⟩, ?_⟩
    rw [SettledIn, hcomp, hm.txns]
    refine hadd _ (hm.txns ▸ hset) fun t ht => ?_
    have hmem : (t, exists_ r.txns t) ∈ compare r.txns o := by
      rw [LawfulTxSets.mem_compare]
      exact ⟨rfl, Bool.eq_not.2 (Ne.symm ht)⟩
    exact hfound _ hmem hmem

/-! ## Votes -/

omit [LawfulTxSets X] [ConsensusAdaptor X A] in
theorem voteAll_ok (hr : s.result = some r) (h : SettledIn s C V r) (hp : s.currPeerPositions.lookup n = some p)
    {other : X.TxSet} (hother : s.acquired.lookup p.position = some other) :
    ∃ r', Moved s (voteAll n other s) r r' ∧ SettledIn s C (fun m => V m ∨ m = n) r' ∧ r'.compares = r.compares := by
  rw [voteAll, hr]
  refine ⟨_, ⟨rfl, rfl, rfl, rfl⟩, ?_, rfl⟩
  refine Settled.mapVal (f := fun _ d => (d.setVote n (exists_ other (txId d.tx))).2) h fun t d hd => ?_
  rw [hd.keyed]
  refine hd.setVote hp fun set hset => ?_
  rw [hother] at hset
  cases hset
  rfl

theorem updateDisputes_ok (hr : s.result = some r) (h : SettledIn s r.compares V r)
    (hp : s.currPeerPositions.lookup n = some p) {other : X.TxSet}
    (hother : s.acquired.lookup p.position = some other) :
    ∃ r', Moved s (updateDisputes n other s) r r' ∧ SettledIn s r'.compares (fun m => V m ∨ m = n) r' := by
  rw [updateDisputes, hr]
  simp only
  split_ifs
  · obtain ⟨r', hm, hset, hcomp⟩ := voteAll_ok hr h hp hother
    exact ⟨r', hm, hcomp ▸ hset⟩
  · obtain ⟨r₁, hm, hset⟩ := createDisputes_ok hr h other
    obtain ⟨r', hm', hset', hcomp⟩ := voteAll_ok hm.result (hm.settledIn.2 hset) (hm.peers ▸ hp) (hm.acquired ▸ hother)
    exact ⟨r', hm.trans hm', hcomp ▸ hm.settledIn.1 hset'⟩

theorem updateAll_ok (hr : s.result = some r) {set : X.TxSet} (hset : s.acquired.lookup (TxSets.id set) = some set)
    (h : SettledIn s r.compares (fun n => ∀ p, s.currPeerPositions.lookup n = some p → p.position ≠ TxSets.id set) r) :
    ∃ r', Moved s (updateAll set s) r r' ∧ SettledIn s r'.compares (fun _ => True) r' := by
  -- along the peers, those behind us are up to date
  have hloop : ∀ (es : List (Σ _ : X.NodeID, Proposal X)) (u : GenericConsensus X A) (q : ConsensusResult X)
      (V : X.NodeID → Prop), u.result = some q → u.acquired.lookup (TxSets.id set) = some set →
      (∀ e ∈ es, u.currPeerPositions.lookup e.1 = some e.2) → SettledIn u q.compares V q →
      ∃ q', Moved u (es.foldl (fun s e => if e.2.position =
        TxSets.id set then s.updateDisputes e.1 set else s) u) q q' ∧
        SettledIn u q'.compares (fun n => V n ∨ ∃ e ∈ es, e.1 = n ∧ e.2.position = TxSets.id set) q' := by
    intro es
    induction es with
    | nil =>
      intro u q V hq _ _ hV
      refine ⟨q, ⟨hq, rfl, rfl, rfl⟩, hV.mono fun n p _ hn => hn.resolve_right ?_⟩
      rintro ⟨e, he, -⟩
      cases he
    | cons e es ih =>
      intro u q V hq hacq hes hV
      have hrest : ∀ d ∈ es, u.currPeerPositions.lookup d.1 = some d.2 := fun d hd => hes d (mem_cons_of_mem e hd)
      rw [foldl_cons]
      by_cases hpos : e.2.position = TxSets.id set
      · have he := hes e mem_cons_self
        rw [if_pos hpos]
        obtain ⟨q₁, hm, hV₁⟩ := updateDisputes_ok hq hV he (hpos ▸ hacq)
        obtain ⟨q₂, hm', hV₂⟩ := ih _ q₁ _ hm.result (hm.acquired ▸ hacq) (hm.peers ▸ hrest) (hm.settledIn.2 hV₁)
        refine ⟨q₂, hm.trans hm', (hm.settledIn.1 hV₂).mono fun n p _ hn => ?_⟩
        rcases hn with hn | ⟨d, hd, rfl, hdpos⟩
        · exact .inl (.inl hn)
        · rcases mem_cons.1 hd with rfl | hd
          · exact .inl (.inr rfl)
          · exact .inr ⟨d, hd, rfl, hdpos⟩
      · rw [if_neg hpos]
        obtain ⟨q₂, hm', hV₂⟩ := ih u q V hq hacq hrest hV
        refine ⟨q₂, hm', hV₂.mono fun n p _ hn => hn.imp_right ?_⟩
        rintro ⟨d, hd, hdn, hdpos⟩
        rcases mem_cons.1 hd with rfl | hd
        · exact absurd hdpos hpos
        · exact ⟨d, hd, hdn, hdpos⟩
  obtain ⟨r', hm, hV⟩ := hloop s.currPeerPositions.entries s r _ hr hset (fun e he => mem_lookup_iff.2 he) h
  refine ⟨r', hm, hV.mono fun n p hp _ => ?_⟩
  by_cases hpos : p.position = TxSets.id set
  · exact .inr ⟨⟨n, p⟩, mem_lookup_iff.1 hp, rfl, hpos⟩
  · refine .inl fun q hq => ?_
    rw [hp] at hq
    cases hq
    exact hpos

end GenericConsensus

end Rippled.Consensus
