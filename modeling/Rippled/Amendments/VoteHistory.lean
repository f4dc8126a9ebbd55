import Rippled.Amendments.AmendmentTable

/-!
# Votes over a history

What the recorded votes are after any history of calls: there is an entry for each trusted validator, and it holds the
last vote that was received while the validator was trusted and did not expire since (`records_of_history`).
-/

namespace Rippled.Amendments

open Lib List AList Option TrustedVotes

variable {PublicKey Amendment : Type}

/-! ## Calls that leave the records alone -/

namespace AmendmentTable

theorem previousTrustedVotes_foldl {α : Type} (f : AmendmentTable PublicKey Amendment → α →
    AmendmentTable PublicKey Amendment)
    (hf : ∀ table a, (f table a).previousTrustedVotes = table.previousTrustedVotes) (l : List α)
    (table : AmendmentTable PublicKey Amendment) :
    (l.foldl f table).previousTrustedVotes = table.previousTrustedVotes := by
  induction l generalizing table with
  | nil => rfl
  | cons a l ih => rw [foldl_cons, ih, hf]

variable [DecidableEq Amendment] (table : AmendmentTable PublicKey Amendment) (amendment : Amendment)

theorem previousTrustedVotes_add : (table.add amendment).2.previousTrustedVotes = table.previousTrustedVotes := by
  unfold add
  cases table.amendmentMap.lookup amendment <;> rfl

theorem previousTrustedVotes_veto : (table.veto amendment).2.previousTrustedVotes = table.previousTrustedVotes := by
  unfold veto
  dsimp only
  split_ifs <;> exact previousTrustedVotes_add table amendment

theorem previousTrustedVotes_unVeto : (table.unVeto amendment).2.previousTrustedVotes = table.previousTrustedVotes := by
  unfold unVeto
  cases table.amendmentMap.lookup amendment with
  | none => rfl
  | some s =>
    dsimp only
    split_ifs <;> rfl

theorem previousTrustedVotes_enable : (table.enable amendment).2.previousTrustedVotes = table.previousTrustedVotes := by
  unfold enable
  dsimp only
  split_ifs <;> exact previousTrustedVotes_add table amendment

theorem previousTrustedVotes_expectUnsupported (majority : Amendment × TimePoint) :
    (table.expectUnsupported majority).previousTrustedVotes = table.previousTrustedVotes := by
  unfold expectUnsupported
  dsimp only
  split_ifs
  · exact previousTrustedVotes_add table majority.1
  · cases (table.add majority.1).2.firstUnsupportedExpected with
    | none => exact previousTrustedVotes_add table majority.1
    | some first =>
      dsimp only
      split_ifs <;> exact previousTrustedVotes_add table majority.1

theorem previousTrustedVotes_doValidatedLedger (ledgerSeq : UInt32) (enabled : List Amendment)
    (majority : List (Amendment × TimePoint)) :
    (table.doValidatedLedger ledgerSeq enabled majority).previousTrustedVotes = table.previousTrustedVotes := by
  unfold doValidatedLedger
  dsimp only
  rw [previousTrustedVotes_foldl _ previousTrustedVotes_expectUnsupported]
  exact previousTrustedVotes_foldl _ (fun table e => previousTrustedVotes_enable table e) enabled table

end AmendmentTable

/-! ## Histories -/

inductive Call (PublicKey Amendment : Type)
  | trustChanged (allTrusted : List PublicKey)
  | doVoting (closeTime : TimePoint) (enabledAmendments : List Amendment)
      (majorityAmendments : HashMap Amendment TimePoint)
      (valSet : List (STValidation PublicKey Amendment))
  | veto (amendment : Amendment)
  | unVeto (amendment : Amendment)
  | enable (amendment : Amendment)
  | doValidatedLedger (ledgerSeq : UInt32) (enabled : List Amendment) (majority : List (Amendment × TimePoint))

def AmendmentTable.call [DecidableEq PublicKey] [DecidableEq Amendment]
    (table : AmendmentTable PublicKey Amendment) : Call PublicKey Amendment → AmendmentTable PublicKey Amendment
  | .trustChanged allTrusted => table.trustChanged allTrusted
  | .doVoting closeTime enabledAmendments majorityAmendments valSet =>
    (table.doVoting closeTime enabledAmendments majorityAmendments valSet).2
  | .veto amendment => (table.veto amendment).2
  | .unVeto amendment => (table.unVeto amendment).2
  | .enable amendment => (table.enable amendment).2
  | .doValidatedLedger ledgerSeq enabled majority => table.doValidatedLedger ledgerSeq enabled majority

def trusted (history : List (Call PublicKey Amendment)) : List PublicKey :=
  history.foldl (fun current call => match call with | .trustChanged allTrusted => allTrusted | _ => current) []

theorem trusted_append (history : List (Call PublicKey Amendment)) (call : Call PublicKey Amendment) :
    trusted (history ++ [call]) = match call with | .trustChanged allTrusted => allTrusted | _ => trusted history := by
  rw [trusted, foldl_append]
  rfl

variable [DecidableEq PublicKey]

/-- The amendments that a validator votes for in the last of its validations. -/
def lastVote (valSet : List (STValidation PublicKey Amendment)) (validator : PublicKey) : Option (List Amendment) :=
  (valSet.filter (·.signerPublic = validator)).getLast?.map fun val => val.amendments.getD []

/-- The call neither replaces the vote of the validator nor lets it expire. -/
def Call.Keeps (validator : PublicKey) (timeout : TimePoint) : Call PublicKey Amendment → Prop
  | .trustChanged allTrusted => validator ∈ allTrusted
  | .doVoting closeTime _ _ valSet => lastVote valSet validator = none ∧ closeTime ≤ timeout
  | _ => True

/-- The latest vote of a trusted validator that did not expire: it was received in a round while the validator was
trusted, and the calls after it keep it. -/
def LatestVote (history : List (Call PublicKey Amendment)) (validator : PublicKey) (upVotes : List Amendment)
    (timeout : TimePoint) : Prop :=
  ∃ before closeTime enabledAmendments majorityAmendments valSet after,
    history = before ++ .doVoting closeTime enabledAmendments majorityAmendments valSet :: after ∧
      validator ∈ trusted before ∧ lastVote valSet validator = some upVotes ∧
        timeout = closeTime + TrustedVotes.expiresAfter ∧
      closeTime ≤ timeout ∧ ∀ call ∈ after, call.Keeps validator timeout

variable {history : List (Call PublicKey Amendment)} {upVotes : List Amendment}
    {validator : PublicKey} {timeout : TimePoint}

/-- A vote is the latest after one more call if it comes with that call, or was the latest before and is kept. -/
theorem latestVote_append {call : Call PublicKey Amendment} :
    LatestVote (history ++ [call]) validator upVotes timeout ↔
      (∃ closeTime enabledAmendments majorityAmendments valSet,
        call = .doVoting closeTime enabledAmendments majorityAmendments valSet ∧ validator ∈ trusted history ∧
          lastVote valSet validator = some upVotes ∧
            timeout = closeTime + TrustedVotes.expiresAfter ∧ closeTime ≤ timeout) ∨
        (LatestVote history validator upVotes timeout ∧ call.Keeps validator timeout) := by
  constructor
  · rintro ⟨before, closeTime, enabledAmendments, majorityAmendments, valSet, after, heq,
      htrusted, hlast, htime, hle, hkeeps⟩
    cases after using reverseRecOn with
    | nil =>
      obtain ⟨rfl, hcall⟩ := append_inj' heq rfl
      exact .inl ⟨closeTime, enabledAmendments, majorityAmendments, valSet,
        cons.inj hcall |>.1, htrusted, hlast, htime, hle⟩
    | append_singleton after call' =>
      rw [← cons_append, ← append_assoc] at heq
      obtain ⟨rfl, hcall⟩ := append_inj' heq rfl
      cases hcall
      refine .inr ⟨⟨before, closeTime, enabledAmendments, majorityAmendments, valSet, after,
        rfl, htrusted, hlast, htime, hle,
        fun call hc => hkeeps call (by simp [hc])⟩, hkeeps call (by simp)⟩
  · rintro (⟨closeTime, enabledAmendments, majorityAmendments, valSet, rfl, htrusted, hlast,
      htime, hle⟩ | ⟨hlatest, hkeep⟩)
    · exact ⟨history, closeTime, enabledAmendments, majorityAmendments, valSet, [], rfl,
        htrusted, hlast, htime, hle, by simp⟩
    · obtain ⟨before, closeTime, enabledAmendments, majorityAmendments, valSet, after, rfl, htrusted,
        hlast, htime, hle, hkeeps⟩ :=
        hlatest
      refine ⟨before, closeTime, enabledAmendments, majorityAmendments, valSet,
        after ++ [call], by simp, htrusted, hlast, htime,
        hle, fun call' hc => ?_⟩
      rcases mem_append.1 hc with hc | hc
      · exact hkeeps call' hc
      · cases mem_singleton.1 hc
        exact hkeep

/-! ## What each function does to the entry of a validator -/

namespace TrustedVotes

theorem snd_moveTrusted (maps : TrustedVotes PublicKey Amendment × TrustedVotes PublicKey Amendment)
    (trusted : PublicKey) : (moveTrusted maps trusted).2 =
      if trusted ∈ maps.2 then maps.2 else maps.2.insert trusted ((maps.1.lookup trusted).getD {}) := by
  unfold moveTrusted
  cases maps.1.lookup trusted <;> rfl

theorem lookup_fst_moveTrusted {maps : TrustedVotes PublicKey Amendment × TrustedVotes PublicKey Amendment}
    {trusted : PublicKey} (h : validator ≠ trusted) :
    (moveTrusted maps trusted).1.lookup validator = maps.1.lookup validator := by
  unfold moveTrusted
  cases maps.1.lookup trusted with
  | none => rfl
  | some votes => exact lookup_erase_ne h

theorem lookup_foldl_moveTrusted (allTrusted : List PublicKey)
    (maps : TrustedVotes PublicKey Amendment × TrustedVotes PublicKey Amendment) (validator : PublicKey) :
    (allTrusted.foldl moveTrusted maps).2.lookup validator =
      if validator ∈ maps.2 then maps.2.lookup validator
      else if validator ∈ allTrusted then some ((maps.1.lookup validator).getD {}) else none := by
  induction allTrusted generalizing maps with
  | nil =>
    by_cases h : validator ∈ maps.2
    · rw [if_pos h]
      rfl
    · rw [if_neg h, if_neg (by simp)]
      exact lookup_eq_none.2 h
  | cons trusted allTrusted ih =>
    rw [foldl_cons, ih, snd_moveTrusted]
    by_cases heq : validator = trusted
    · subst heq
      by_cases h : validator ∈ maps.2
      · simp only [if_pos h]
      · simp [h]
    · have hmem : validator ∈ (if trusted ∈ maps.2 then maps.2 else maps.2.insert trusted
          ((maps.1.lookup trusted).getD {})) ↔ validator ∈ maps.2 := by
        split_ifs
        · rfl
        · simp [heq]
      have hlookup : (if trusted ∈ maps.2 then maps.2 else maps.2.insert trusted
          ((maps.1.lookup trusted).getD {})).lookup validator = maps.2.lookup validator := by
        split_ifs
        · rfl
        · exact lookup_insert_ne heq
      rw [hlookup, lookup_fst_moveTrusted heq]
      simp only [hmem, mem_cons, heq, false_or]

variable (recordedVotes : TrustedVotes PublicKey Amendment)

/-- Trusted validators keep their votes, and the others lose them. -/
theorem lookup_trustChanged (allTrusted : List PublicKey) (validator : PublicKey) :
    (trustChanged recordedVotes allTrusted).lookup validator =
      if validator ∈ allTrusted then some ((recordedVotes.lookup validator).getD {}) else none := by
  rw [trustChanged, lookup_foldl_moveTrusted, if_neg (notMem_empty validator)]

theorem lastVote_cons (val : STValidation PublicKey Amendment) (valSet : List (STValidation PublicKey Amendment))
    (validator : PublicKey) :
    lastVote (val :: valSet) validator =
      (lastVote valSet validator).or (if val.signerPublic =
        validator then some (val.amendments.getD []) else none) := by
  unfold lastVote
  by_cases h : val.signerPublic = validator
  · rw [filter_cons_of_pos (by simpa using h), if_pos h, getLast?_cons]
    cases (valSet.filter (·.signerPublic = validator)).getLast? <;> rfl
  · rw [filter_cons_of_neg (by simpa using h), if_neg h, or_none]

theorem lookup_foldl_recordVote (newTimeout : TimePoint) (valSet : List (STValidation PublicKey Amendment))
    (recordedVotes : TrustedVotes PublicKey Amendment) (validator : PublicKey) :
    (valSet.foldl (recordVote newTimeout) recordedVotes).lookup validator =
      (recordedVotes.lookup validator).map fun votes =>
        match lastVote valSet validator with
        | some upVotes => ⟨upVotes, some newTimeout⟩
        | none => votes := by
  induction valSet generalizing recordedVotes with
  | nil => exact Option.map_id'.symm
  | cons val valSet ih =>
    rw [foldl_cons, ih, lastVote_cons]
    have hstep : (recordVote newTimeout recordedVotes val).lookup validator =
        (recordedVotes.lookup validator).map fun votes =>
          if val.signerPublic = validator then ⟨val.amendments.getD [], some newTimeout⟩ else votes := by
      unfold recordVote
      by_cases h : val.signerPublic = validator
      · subst h
        cases hlook : recordedVotes.lookup val.signerPublic with
        | none => simp [hlook]
        | some votes => simp
      · simp only [h, if_false, Option.map_id']
        cases recordedVotes.lookup val.signerPublic with
        | none => rfl
        | some votes => exact lookup_insert_ne (Ne.symm h)
    rw [hstep, Option.map_map]
    congr 1
    funext votes
    by_cases h : val.signerPublic = validator
    · simp only [Function.comp_apply, if_pos h]
      cases lastVote valSet validator <;> rfl
    · simp only [Function.comp_apply, if_neg h, or_none]

/-- Validators with an entry get their last vote, and votes that are over expire. -/
theorem lookup_recordVotes (valSet : List (STValidation PublicKey Amendment)) (closeTime : TimePoint)
    (validator : PublicKey) :
    (recordVotes recordedVotes valSet closeTime).lookup validator =
      (recordedVotes.lookup validator).map fun votes => expire closeTime
        (match lastVote valSet validator with
        | some upVotes => ⟨upVotes, some (closeTime + expiresAfter)⟩
        | none => votes) := by
  rw [recordVotes, HashMap.lookup_mapVal, lookup_foldl_recordVote, Option.map_map]
  rfl

variable {votes : UpvotesAndTimeout Amendment} {closeTime : TimePoint}

/-- What is left of votes with a timeout. -/
theorem expire_eq_some :
    expire closeTime votes = ⟨upVotes, some timeout⟩ ↔ votes = ⟨upVotes, some timeout⟩ ∧ closeTime ≤ timeout := by
  obtain ⟨upVotes', timeout'⟩ := votes
  cases timeout' with
  | none => simp [expire]
  | some timeout' =>
    change (if closeTime > timeout' then _ else _) = _ ↔ _
    split_ifs with hlt
    · simp only [UpvotesAndTimeout.mk.injEq, some.injEq, reduceCtorEq, and_false, false_iff, not_and, and_imp]
      rintro rfl rfl
      exact UInt32.not_le.2 hlt
    · simp only [UpvotesAndTimeout.mk.injEq, some.injEq, iff_self_and, and_imp]
      rintro rfl rfl
      exact UInt32.not_lt.1 hlt

theorem expire_eq_none (h : expire closeTime votes = ⟨upVotes, none⟩) : upVotes = [] ∨ votes = ⟨upVotes, none⟩ := by
  obtain ⟨upVotes', timeout'⟩ := votes
  cases timeout' with
  | none => exact .inr h
  | some timeout' =>
    change (if closeTime > timeout' then _ else _) = _ at h
    split_ifs at h with hlt
    · cases h
      exact .inl rfl
    · cases h

end TrustedVotes

/-! ## The records after a history -/

/-- The entries are those of the trusted validators, with their latest votes. -/
structure Records (recordedVotes : TrustedVotes PublicKey Amendment)
    (history : List (Call PublicKey Amendment)) : Prop where
  trusted : ∀ validator, validator ∈ recordedVotes ↔ validator ∈ trusted history
  latest : ∀ validator upVotes timeout,
    recordedVotes.lookup validator = some ⟨upVotes, some timeout⟩ ↔ LatestVote history validator upVotes timeout
  expired : ∀ validator upVotes, recordedVotes.lookup validator = some ⟨upVotes, none⟩ → upVotes = []

theorem records_empty : Records (∅ : TrustedVotes PublicKey Amendment) [] := by
  refine ⟨fun validator => by simp [trusted], fun validator upVotes timeout => ?_, fun validator upVotes h => ?_⟩
  · rw [lookup_empty]
    refine ⟨(nomatch ·), ?_⟩
    rintro ⟨before, _, _, _, _, after, heq, -⟩
    exact absurd heq (by simp)
  · rw [lookup_empty] at h
    cases h

namespace Records

variable {recordedVotes : TrustedVotes PublicKey Amendment} {history : List (Call PublicKey Amendment)}

/-- A change of trust keeps the record. -/
theorem trustChanged (h : Records recordedVotes history) (allTrusted : List PublicKey) :
    Records (recordedVotes.trustChanged allTrusted) (history ++ [.trustChanged allTrusted]) := by
  have hlookup := lookup_trustChanged recordedVotes allTrusted
  refine ⟨fun validator => ?_, fun validator upVotes timeout => ?_, fun validator upVotes hnone => ?_⟩
  · rw [trusted_append, ← lookup_isSome, hlookup]
    split_ifs with hmem <;> simp [hmem]
  · have hkeeps : (Call.trustChanged allTrusted : Call PublicKey Amendment).Keeps validator timeout ↔
      validator ∈ allTrusted := Iff.rfl
    rw [latestVote_append, hkeeps, hlookup, ← h.latest]
    by_cases hmem : validator ∈ allTrusted
    · rw [if_pos hmem]
      cases recordedVotes.lookup validator with
      | none => simp
      | some votes => simp [hmem]
    · simp [hmem]
  · rw [hlookup] at hnone
    split_ifs at hnone with hmem
    cases hvotes : recordedVotes.lookup validator with
    | none =>
      rw [hvotes] at hnone
      cases hnone
      rfl
    | some votes =>
      rw [hvotes] at hnone
      cases hnone
      exact h.expired validator upVotes hvotes

/-- New validations keep the record. -/
theorem recordVotes (h : Records recordedVotes history) (closeTime : TimePoint) (enabledAmendments : List Amendment)
    (majorityAmendments : HashMap Amendment TimePoint) (valSet : List (STValidation PublicKey Amendment)) :
    Records (recordedVotes.recordVotes valSet closeTime)
      (history ++ [.doVoting closeTime enabledAmendments majorityAmendments valSet]) := by
  have hlookup := lookup_recordVotes recordedVotes valSet closeTime
  refine ⟨fun validator => ?_, fun validator upVotes timeout => ?_, fun validator upVotes hnone => ?_⟩
  · rw [trusted_append, ← lookup_isSome, hlookup, isSome_map, lookup_isSome]
    exact h.trusted validator
  · rw [latestVote_append, hlookup, map_eq_some_iff]
    cases hlast : lastVote valSet validator with
    | some upVotes' =>
      have hkeeps : ¬ (Call.doVoting closeTime enabledAmendments majorityAmendments valSet).Keeps validator timeout :=
        fun hkeeps => absurd (hlast.symm.trans hkeeps.1) (by simp)
      simp only [expire_eq_some, UpvotesAndTimeout.mk.injEq, some.injEq]
      constructor
      · rintro ⟨votes, hvotes, ⟨rfl, rfl⟩, hle⟩
        have hmem : validator ∈ recordedVotes := lookup_isSome.1 (by rw [hvotes]; rfl)
        exact .inl ⟨closeTime, enabledAmendments, majorityAmendments, valSet, rfl,
          (h.trusted validator).1 hmem, hlast, rfl, hle⟩
      · rintro (⟨_, _, _, _, hcall, htrusted, hlast', rfl, hle⟩ | ⟨-, hkeep⟩)
        · cases hcall
          cases hlast.symm.trans hlast'
          obtain ⟨votes, hvotes⟩ := isSome_iff_exists.1 (lookup_isSome.2 ((h.trusted validator).2 htrusted))
          exact ⟨votes, hvotes, ⟨rfl, rfl⟩, hle⟩
        · exact absurd hkeep hkeeps
    | none =>
      have hkeeps : (Call.doVoting closeTime enabledAmendments majorityAmendments valSet).Keeps validator timeout ↔
          closeTime ≤ timeout := ⟨fun hkeeps => hkeeps.2, fun hle => ⟨hlast, hle⟩⟩
      simp only [expire_eq_some]
      rw [hkeeps, ← h.latest]
      constructor
      · rintro ⟨votes, hvotes, rfl, hle⟩
        exact .inr ⟨hvotes, hle⟩
      · rintro (⟨_, _, _, _, hcall, -, hlast', -⟩ | ⟨hvotes, hle⟩)
        · cases hcall
          cases hlast.symm.trans hlast'
        · exact ⟨_, hvotes, rfl, hle⟩
  · rw [hlookup, map_eq_some_iff] at hnone
    obtain ⟨votes, hvotes, hexpire⟩ := hnone
    obtain rfl | heq := expire_eq_none hexpire
    · rfl
    · cases hlast : lastVote valSet validator with
      | some upVotes' =>
        rw [hlast] at heq
        cases heq
      | none =>
        rw [hlast] at heq
        exact h.expired validator upVotes (heq ▸ hvotes)

end Records

/-! ## Calls and histories -/

theorem Records.other {recordedVotes : TrustedVotes PublicKey Amendment} (h : Records recordedVotes history)
    {call : Call PublicKey Amendment} (htrusted : Amendments.trusted (history ++ [call]) = Amendments.trusted history)
    (hkeeps : ∀ validator timeout, call.Keeps validator timeout) (hcall : ∀ c e m v, call ≠ .doVoting c e m v) :
    Records recordedVotes (history ++ [call]) := by
  refine ⟨fun validator => htrusted ▸ h.trusted validator, fun validator upVotes timeout => ?_, h.expired⟩
  rw [latestVote_append, h.latest]
  constructor
  · exact fun hlatest => .inr ⟨hlatest, hkeeps validator timeout⟩
  · rintro (⟨c, e, m, v, heq, -⟩ | ⟨hlatest, -⟩)
    · exact absurd heq (hcall c e m v)
    · exact hlatest

section Table
variable [DecidableEq Amendment]

/-- Every call keeps the record. -/
theorem Records.call {table : AmendmentTable PublicKey Amendment} (h : Records table.previousTrustedVotes history)
    (call : Call PublicKey Amendment) : Records (table.call call).previousTrustedVotes (history ++ [call]) := by
  cases call with
  | trustChanged allTrusted => exact h.trustChanged allTrusted
  | doVoting closeTime enabledAmendments majorityAmendments valSet =>
    exact h.recordVotes closeTime enabledAmendments majorityAmendments valSet
  | veto amendment =>
    rw [AmendmentTable.call, AmendmentTable.previousTrustedVotes_veto]
    exact h.other (trusted_append _ _) (fun _ _ => trivial) (fun _ _ _ _ => (nomatch ·))
  | unVeto amendment =>
    rw [AmendmentTable.call, AmendmentTable.previousTrustedVotes_unVeto]
    exact h.other (trusted_append _ _) (fun _ _ => trivial) (fun _ _ _ _ => (nomatch ·))
  | enable amendment =>
    rw [AmendmentTable.call, AmendmentTable.previousTrustedVotes_enable]
    exact h.other (trusted_append _ _) (fun _ _ => trivial) (fun _ _ _ _ => (nomatch ·))
  | doValidatedLedger ledgerSeq enabled majority =>
    rw [AmendmentTable.call, AmendmentTable.previousTrustedVotes_doValidatedLedger]
    exact h.other (trusted_append _ _) (fun _ _ => trivial) (fun _ _ _ _ => (nomatch ·))

/-- The votes are those of the history. -/
theorem records_of_history (amendmentMap : HashMap Amendment AmendmentState) (majorityTime : Int)
    (history : List (Call PublicKey Amendment)) :
    Records (history.foldl AmendmentTable.call (.make amendmentMap majorityTime)).previousTrustedVotes history := by
  induction history using reverseRecOn with
  | nil => exact records_empty
  | append_singleton history call ih =>
    rw [foldl_append]
    exact ih.call call

end Table

end Rippled.Amendments
