import Rippled.Validators.NegativeUNL
/-!
# What a vote on the negative UNL depends on

The picks of `doVoting` do not depend on the order in which its hash tables are walked, as long as different keys have
different node ids. A vote to disable a validator is only cast below the limit (`Asks`).
-/

namespace Rippled.NegativeUNL

open Lib Validators List Finmap

/-! ## Walks -/

namespace Walk

variable {α : Type} [DecidableEq α]

theorem toFinset_order (w : Walk α) (s : Finset α) : (w.order s).toFinset = s := by
  ext a
  rw [mem_toFinset, w.mem]

theorem countP_order (w : Walk α) (s : Finset α) (p : α → Prop) [DecidablePred p] :
    (w.order s).countP (fun a => decide (p a)) = (s.filter p).card := by
  have hfilter : ((w.order s).filter fun a => decide (p a)).toFinset = s.filter p := by
    rw [toFinset_filter, w.toFinset_order]
    simp
  rw [countP_eq_length_filter, ← toFinset_card_of_nodup ((w.nodup s).filter _), hfilter]

end Walk

namespace NegativeUNLVote

/-! ## The choice -/

section Choose

variable {pad : NodeID}

theorem foldl_choice (pad : NodeID) (candidates : List NodeID) (c : NodeID) :
    let n := candidates.foldl (fun t c => if c ^^^ pad < t ^^^ pad then c else t) c
    (n = c ∨ n ∈ candidates) ∧ n ^^^ pad ≤ c ^^^ pad ∧ ∀ x ∈ candidates, n ^^^ pad ≤ x ^^^ pad := by
  induction candidates generalizing c with
  | nil => exact ⟨.inl rfl, BitVec.le_refl _, fun x hx => absurd hx not_mem_nil⟩
  | cons d candidates ih =>
    rw [foldl_cons]
    by_cases hlt : d ^^^ pad < c ^^^ pad
    · rw [if_pos hlt]
      obtain ⟨hmem, hle, hall⟩ := ih d
      refine ⟨.inr ?_, BitVec.le_trans hle (BitVec.le_of_lt hlt), fun x hx => ?_⟩
      · rcases hmem with heq | hmem
        · rw [heq]
          exact mem_cons_self
        · exact mem_cons_of_mem d hmem
      · rcases mem_cons.1 hx with rfl | hx
        · exact hle
        · exact hall x hx
    · rw [if_neg hlt]
      obtain ⟨hmem, hle, hall⟩ := ih c
      refine ⟨hmem.imp_right (mem_cons_of_mem d), hle, fun x hx => ?_⟩
      rcases mem_cons.1 hx with rfl | hx
      · exact BitVec.le_trans hle (BitVec.not_lt.1 hlt)
      · exact hall x hx

end Choose

variable {candidates : List NodeID} {hash : UInt256} {n : NodeID}

/-- The pick is the candidate that is least after the padding. -/
theorem choose_eq_some :
    choose hash candidates = some n ↔
      n ∈ candidates ∧ ∀ x ∈ candidates, n ^^^ hash.extractLsb' 96 160 ≤ x ^^^ hash.extractLsb' 96 160 := by
  cases candidates with
  | nil => exact ⟨fun h => (Option.some_ne_none _ h.symm).elim, fun h => absurd h.1 not_mem_nil⟩
  | cons c candidates =>
    obtain ⟨hmem, hle, hall⟩ := foldl_choice (hash.extractLsb' 96 160) candidates c
    constructor
    · intro h
      obtain rfl := Option.some.inj h
      refine ⟨mem_cons.2 hmem, fun x hx => ?_⟩
      rcases mem_cons.1 hx with rfl | hx
      · exact hle
      · exact hall x hx
    · rintro ⟨hn, hleast⟩
      have hge := hleast _ (mem_cons.2 hmem)
      have hle' : candidates.foldl (fun t c => if c ^^^ hash.extractLsb' 96 160 <
          t ^^^ hash.extractLsb' 96 160 then c else t) c ^^^
          hash.extractLsb' 96 160 ≤ n ^^^ hash.extractLsb' 96 160 := by
        rcases mem_cons.1 hn with rfl | hn
        · exact hle
        · exact hall n hn
      -- xor with the pad is injective
      rw [choose]
      exact congrArg some ((BitVec.xor_left_inj _).1 (BitVec.le_antisymm hle' hge))

/-- The choice depends on who the candidates are, not on their order. -/
theorem choose_congr {candidates' : List NodeID} (h : ∀ n, n ∈ candidates ↔ n ∈ candidates') :
    choose hash candidates = choose hash candidates' := by
  refine Option.ext fun n => ?_
  rw [choose_eq_some, choose_eq_some]
  simp only [h]

/-! ## The keys of node ids -/

section Keys

variable {calcNodeID : PublicKey → NodeID}

/-- The first key that is found for a node counts. -/
theorem lookup_mapKeys (keys : List PublicKey) (m : Finmap fun _ : NodeID => PublicKey) (n : NodeID) :
    (mapKeys calcNodeID keys m).lookup n = (m.lookup n).or (keys.find? (calcNodeID · = n)) := by
  unfold mapKeys
  induction keys generalizing m with
  | nil => rw [foldl_nil, find?_nil, Option.or_none]
  | cons k keys ih =>
    rw [foldl_cons, ih]
    by_cases hk : calcNodeID k = n
    · subst hk
      rw [find?_cons_of_pos (by simp)]
      cases hold : m.lookup (calcNodeID k) with
      | none =>
        rw [if_neg (by simp), lookup_insert]
        rfl
      | some k' =>
        rw [if_pos (by simp), hold]
        rfl
    · rw [find?_cons_of_neg (by simpa using hk)]
      split
      · rfl
      · rw [lookup_insert_of_ne _ (Ne.symm hk)]

variable {s : Finset PublicKey}

theorem find?_of_injOn (hinj : Set.InjOn calcNodeID s) {keys : List PublicKey}
    (hkeys : ∀ k ∈ keys, k ∈ s) {k : PublicKey} :
    keys.find? (calcNodeID · = n) = some k ↔ k ∈ keys ∧ calcNodeID k = n := by
  constructor
  · intro h
    exact ⟨mem_of_find?_eq_some h, by simpa using find?_some h⟩
  · rintro ⟨hk, rfl⟩
    cases hfind : keys.find? (calcNodeID · = calcNodeID k) with
    | none => exact absurd (find?_eq_none.1 hfind k hk) (by simp)
    | some k' =>
      have heq : calcNodeID k' = calcNodeID k := by simpa using find?_some hfind
      rw [hinj (hkeys k' (mem_of_find?_eq_some hfind)) (hkeys k hk) heq]

theorem find?_order (w w' : Walk PublicKey) (hinj : Set.InjOn calcNodeID s) (n : NodeID) :
    (w.order s).find? (calcNodeID · = n) = (w'.order s).find? (calcNodeID · = n) := by
  refine Option.ext fun k => ?_
  rw [find?_of_injOn hinj fun k hk => (w.mem s k).1 hk,
    find?_of_injOn hinj fun k hk => (w'.mem s k).1 hk, w.mem, w'.mem]

end Keys

/-! ## Scores -/

theorem lookup_foldl_zero (l : List NodeID) (table : ScoreTable) (n : NodeID) :
    (l.foldl (fun table n => table.insert n 0) table).lookup n = if n ∈ l then some 0 else table.lookup n := by
  induction l generalizing table with
  | nil => rw [foldl_nil, if_neg not_mem_nil]
  | cons m l ih =>
    rw [foldl_cons, ih]
    by_cases hl : n ∈ l
    · rw [if_pos hl, if_pos (mem_cons_of_mem m hl)]
    · rw [if_neg hl]
      by_cases hm : n = m
      · subst hm
        rw [if_pos mem_cons_self, lookup_insert]
      · rw [if_neg (by simp [hm, hl]), lookup_insert_of_ne _ hm]

theorem start_congr (w w' : Walk NodeID) (unl : Finset NodeID) :
    (w.order unl).foldl (fun (table : ScoreTable) n => table.insert n 0) ∅ =
      (w'.order unl).foldl (fun (table : ScoreTable) n => table.insert n 0) ∅ := by
  refine ext_lookup fun n => ?_
  rw [lookup_foldl_zero, lookup_foldl_zero]
  simp only [w.mem, w'.mem]

/-- The score table does not depend on the order of hash tables. -/
theorem buildScoreTable_congr (w w' : Walks) (vote : NegativeUNLVote) (prevLedger : Ledger) (unl : Finset NodeID)
    (trusted : UInt256 → UInt32 → List NodeID) :
    vote.buildScoreTable w prevLedger unl trusted = vote.buildScoreTable w' prevLedger unl trusted := by
  unfold buildScoreTable
  rw [start_congr w.nodes w'.nodes]

theorem mem_countValidation (table : ScoreTable) (m n : NodeID) : n ∈ countValidation table m ↔ n ∈ table := by
  unfold countValidation
  cases hm : table.lookup m with
  | none => exact Iff.rfl
  | some score =>
    dsimp only
    rw [mem_insert]
    refine ⟨fun h => h.elim (fun heq => ?_) id, .inr⟩
    rw [heq]
    exact mem_of_lookup_eq_some hm

theorem mem_foldl_countValidation (l : List NodeID) (table : ScoreTable) (n : NodeID) :
    n ∈ l.foldl countValidation table ↔ n ∈ table := by
  induction l generalizing table with
  | nil => exact Iff.rfl
  | cons m l ih => rw [foldl_cons, ih, mem_countValidation]

/-- Only validators of the UNL get a score. -/
theorem mem_of_buildScoreTable {w : Walks} {vote : NegativeUNLVote} {prevLedger : Ledger} {unl : Finset NodeID}
    {trusted : UInt256 → UInt32 → List NodeID} {table : ScoreTable}
    (h : vote.buildScoreTable w prevLedger unl trusted = some table) (hn : n ∈ table) : n ∈ unl := by
  have hfold : ∀ (is : List Nat) (f : Nat → List NodeID) (t : ScoreTable),
      n ∈ is.foldl (fun t i => (f i).foldl countValidation t) t → n ∈ t := by
    intro is f
    induction is with
    | nil => exact fun t hn => hn
    | cons i is ih => exact fun t hn => (mem_foldl_countValidation _ _ _).1 (ih _ hn)
  unfold buildScoreTable at h
  cases hhashes : prevLedger.hashes with
  | none =>
    rw [hhashes] at h
    cases h
  | some ancestors =>
    rw [hhashes] at h
    dsimp only at h
    split_ifs at h
    cases h
    have hstart := hfold _ _ _ hn
    rw [mem_iff] at hstart
    obtain ⟨score, hscore⟩ := hstart
    rw [lookup_foldl_zero] at hscore
    split_ifs at hscore with hmem
    · exact (w.nodes.mem unl n).1 hmem
    · cases hscore

/-! ## New validators -/

theorem lookup_purge (seq : UInt32) (m : Finmap fun _ : NodeID => UInt32) (k n : NodeID) :
    (purge seq m k).lookup n =
      if n = k then (m.lookup n).filter fun first =>
        (seq - first).toNat ≤ kNewValidatorDisableSkip else m.lookup n := by
  unfold purge
  by_cases hk : n = k
  · subst hk
    rw [if_pos rfl]
    cases hn : m.lookup n with
    | none => exact hn
    | some first =>
      by_cases hold : (seq - first).toNat > kNewValidatorDisableSkip
      · simp [hold, Option.filter]
      · simp [hold, Option.filter, hn]
  · rw [if_neg hk]
    cases m.lookup k with
    | none => rfl
    | some first =>
      dsimp only
      split_ifs
      · exact lookup_erase_ne hk
      · rfl

/-- New validators are dropped once they are no longer new. -/
theorem lookup_foldl_purge (seq : UInt32) (l : List NodeID) (m : Finmap fun _ : NodeID => UInt32) (n : NodeID) :
    (l.foldl (purge seq) m).lookup n =
      if n ∈ l then (m.lookup n).filter fun first =>
        (seq - first).toNat ≤ kNewValidatorDisableSkip else m.lookup n := by
  induction l generalizing m with
  | nil => rw [foldl_nil, if_neg not_mem_nil]
  | cons k l ih =>
    rw [foldl_cons, ih, lookup_purge]
    by_cases hk : n = k
    · rw [if_pos hk, if_pos (mem_cons.2 (.inl hk))]
      split_ifs
      · cases m.lookup n <;> simp [Option.filter_filter]
      · rfl
    · simp [hk]

theorem purge_congr (w w' : Walks) (vote : NegativeUNLVote) (seq : UInt32) :
    vote.purgeNewValidators w seq = vote.purgeNewValidators w' seq := by
  have hmap : (w.nodes.order vote.newValidators.keys).foldl (purge seq) vote.newValidators =
      (w'.nodes.order vote.newValidators.keys).foldl (purge seq) vote.newValidators := by
    refine ext_lookup fun n => ?_
    rw [lookup_foldl_purge, lookup_foldl_purge]
    simp only [w.nodes.mem, w'.nodes.mem]
  unfold purgeNewValidators
  rw [hmap]

/-! ## Candidates -/

section Candidates

variable (w w' : Walks) (vote : NegativeUNLVote) (unl negUnl : Finset NodeID) (table : ScoreTable) (n : NodeID)

/-- Who can be disabled. -/
theorem mem_toDisableCandidates : n ∈ (vote.findAllCandidates w unl negUnl table).toDisableCandidates ↔
    n ∈ table.keys ∧ (unl.filter (· ∈ negUnl)).card < maxNegativeListed unl.card ∧
      ((table.lookup n).getD 0).toNat < kNegativeUnlLowWaterMark ∧ n ∉ negUnl ∧ vote.newValidators.lookup n = none := by
  unfold findAllCandidates
  dsimp only
  rw [mem_filter, w.nodes.mem, w.nodes.countP_order]
  simp [and_assoc]

/-- What makes a validator a candidate to be re-enabled at first. -/
def Recovered : Prop := n ∈ table.keys ∧ ((table.lookup n).getD 0).toNat > kNegativeUnlHighWaterMark ∧ n ∈ negUnl

/-- Who can be re-enabled. -/
theorem mem_toReEnableCandidates : n ∈ (vote.findAllCandidates w unl negUnl table).toReEnableCandidates ↔
    Recovered negUnl table n ∨ (∀ m, ¬ Recovered negUnl table m) ∧ n ∈ negUnl ∧ n ∉ unl := by
  have hmem : ∀ m, m ∈ (w.nodes.order table.keys).filter (fun n =>
      ((table.lookup n).getD 0).toNat > kNegativeUnlHighWaterMark && n ∈ negUnl) ↔ Recovered negUnl table m := by
    intro m
    rw [mem_filter, w.nodes.mem]
    simp [Recovered]
  unfold findAllCandidates
  dsimp only
  by_cases hempty : ((w.nodes.order table.keys).filter (fun n =>
      ((table.lookup n).getD 0).toNat > kNegativeUnlHighWaterMark && n ∈ negUnl)).isEmpty = true
  · have hnone : ∀ m, ¬ Recovered negUnl table m := fun m hm => by
      have := (hmem m).2 hm
      rw [List.isEmpty_iff.1 hempty] at this
      cases this
    rw [if_pos hempty, mem_filter, w.nodes.mem]
    simp [hnone]
  · rw [if_neg hempty, hmem]
    refine ⟨.inl, fun h => h.elim id fun ⟨hnone, _⟩ => absurd (List.isEmpty_iff.2 ?_) hempty⟩
    exact eq_nil_iff_forall_not_mem.2 fun m hm => hnone m ((hmem m).1 hm)

theorem toDisableCandidates_congr : n ∈ (vote.findAllCandidates w unl negUnl table).toDisableCandidates ↔
    n ∈ (vote.findAllCandidates w' unl negUnl table).toDisableCandidates :=
  (mem_toDisableCandidates w vote unl negUnl table n).trans (mem_toDisableCandidates w' vote unl negUnl table n).symm

theorem toReEnableCandidates_congr : n ∈ (vote.findAllCandidates w unl negUnl table).toReEnableCandidates ↔
    n ∈ (vote.findAllCandidates w' unl negUnl table).toReEnableCandidates :=
  (mem_toReEnableCandidates w vote unl negUnl table n).trans (mem_toReEnableCandidates w' vote unl negUnl table n).symm

end Candidates

variable {modify : NegativeUNLModify}

theorem addTx_congr {seq : UInt32} {m : Finmap fun _ : NodeID => PublicKey}
    {l l' : List NodeID} (h : ∀ n, n ∈ l ↔ n ∈ l') :
    addTx seq hash m l modify = addTx seq hash m l' modify := by
  unfold addTx
  rw [choose_congr h]

/-! ## The vote -/

section DoVoting

variable {calcNodeID : PublicKey → NodeID} {w w' : Walks} {vote : NegativeUNLVote}
    {prevLedger : Ledger} {unlKeys : Finset PublicKey}
  {trusted : UInt256 → UInt32 → List NodeID}

/-- The vote does not depend on the order of hash tables. -/
theorem doVoting_congr (hinj : Set.InjOn calcNodeID (unlKeys ∪ nextNegUnl prevLedger : Finset PublicKey)) :
    doVoting calcNodeID w vote prevLedger unlKeys trusted = doVoting calcNodeID w' vote prevLedger unlKeys trusted := by
  have hmap : mapKeys calcNodeID (w.keys.order (nextNegUnl prevLedger)) (mapKeys calcNodeID (w.keys.order unlKeys) ∅) =
      mapKeys calcNodeID (w'.keys.order (nextNegUnl prevLedger)) (mapKeys calcNodeID (w'.keys.order unlKeys) ∅) := by
    refine ext_lookup fun n => ?_
    rw [lookup_mapKeys, lookup_mapKeys, lookup_mapKeys, lookup_mapKeys,
      find?_order w.keys w'.keys (hinj.mono (by simp)), find?_order w.keys w'.keys (hinj.mono (by simp))]
  unfold doVoting
  dsimp only
  rw [buildScoreTable_congr w w', purge_congr w w', hmap]
  cases vote.buildScoreTable w' prevLedger (unlKeys.image calcNodeID) trusted with
  | none => rfl
  | some table =>
    dsimp only
    rw [addTx_congr (toDisableCandidates_congr w w' _ _ _ table),
      addTx_congr (toReEnableCandidates_congr w w' _ _ _ table)]

/-- A transaction that a vote adds. One that disables is for a validator of the list, and the limit is not reached. -/
structure Asks (calcNodeID : PublicKey → NodeID) (prevLedger : Ledger) (unlKeys : Finset PublicKey)
    (t : UNLModifyTx) (k : PublicKey) (modify : NegativeUNLModify) : Prop where
  eq : t = tx (prevLedger.seq + 1) k modify
  member : modify = .toDisable → k ∈ unlKeys
  below : modify = .toDisable →
    ((unlKeys.image calcNodeID).filter (· ∈ (nextNegUnl prevLedger).image calcNodeID)).card <
      maxNegativeListed (unlKeys.image calcNodeID).card

variable {txs : List UNLModifyTx}

/-- A transaction names one of the candidates. -/
theorem addTx_cases {seq : UInt32} {m : Finmap fun _ : NodeID => PublicKey}
    (h : addTx seq hash m candidates modify = .ok txs) {t : UNLModifyTx} (ht : t ∈ txs) :
    ∃ n ∈ candidates, ∃ k, m.lookup n = some k ∧ t = tx seq k modify := by
  unfold addTx at h
  cases hn : choose hash candidates with
  | none =>
    rw [hn] at h
    cases h
    cases ht
  | some n =>
    rw [hn] at h
    dsimp only at h
    cases hk : m.lookup n with
    | none =>
      rw [hk] at h
      cases h
    | some k =>
      rw [hk] at h
      cases h
      exact ⟨n, (choose_eq_some.1 hn).1, k, hk, mem_singleton.1 ht⟩

/-- What a transaction of a vote asks for. -/
theorem doVoting_cases {vote' : NegativeUNLVote}
    (h : doVoting calcNodeID w vote prevLedger unlKeys trusted = .ok (txs, vote')) {t : UNLModifyTx} (ht : t ∈ txs) :
    ∃ k modify, Asks calcNodeID prevLedger unlKeys t k modify := by
  unfold doVoting at h
  dsimp only at h
  cases htable : vote.buildScoreTable w prevLedger (unlKeys.image calcNodeID) trusted with
  | none =>
    rw [htable] at h
    cases h
    cases ht
  | some table =>
    rw [htable] at h
    obtain ⟨disable, hdisable, h⟩ := Except.bind_eq_ok.1 h
    obtain ⟨reEnable, hreEnable, h⟩ := Except.bind_eq_ok.1 h
    cases h
    rcases mem_append.1 ht with ht | ht
    · obtain ⟨n, hn, k, hk, rfl⟩ := addTx_cases hdisable ht
      rw [mem_toDisableCandidates] at hn
      refine ⟨k, .toDisable, rfl, fun _ => ?_, fun _ => hn.2.1⟩
      obtain ⟨k₀, hk₀, rfl⟩ := Finset.mem_image.1 (mem_of_buildScoreTable htable (mem_keys.1 hn.1))
      -- the key comes from the list, since that is entered first
      rw [lookup_mapKeys, lookup_mapKeys, lookup_empty, Option.none_or] at hk
      cases hfind : (w.keys.order unlKeys).find? (calcNodeID · = calcNodeID k₀) with
      | none => exact absurd (find?_eq_none.1 hfind k₀ ((w.keys.mem _ _).2 hk₀)) (by simp)
      | some k₁ =>
        rw [hfind, Option.some_or] at hk
        rw [← Option.some.inj hk]
        exact (w.keys.mem _ _).1 (mem_of_find?_eq_some hfind)
    · obtain ⟨n, -, k, -, rfl⟩ := addTx_cases hreEnable ht
      exact ⟨k, .toReEnable, rfl, fun he => NegativeUNLModify.noConfusion he,
        fun he => NegativeUNLModify.noConfusion he⟩

end DoVoting

end NegativeUNLVote

end Rippled.NegativeUNL
