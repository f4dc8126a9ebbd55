import Rippled.Amendments.VoteHistory

/-!
# The count of votes

The count of an amendment is the number of the validators that vote for it if and only if no latest vote lists it twice
(`doVoting_votes`): the vectors of the validations are counted as they come.
-/

namespace Rippled.Amendments

open Lib List AList

/-! ## Sums and counts -/

variable {α : Type}

theorem foldl_pair {β γ : Type} (f : β → α → β) (g : γ → α → γ) (l : List α) (b : β) (c : γ) :
    l.foldl (fun (b, c) a => (f b a, g c a)) (b, c) = (l.foldl f b, l.foldl g c) := by
  induction l generalizing b c with
  | nil => rfl
  | cons a l ih => exact ih (f b a) (g c a)

theorem foldl_countP (p : α → Bool) (l : List α) (n : Nat) :
    l.foldl (fun n a => if p a then n + 1 else n) n = n + l.countP p := by
  induction l generalizing n with
  | nil => rfl
  | cons a l ih =>
    rw [foldl_cons, ih, countP_cons]
    split_ifs <;> omega

theorem countP_le_sum (l : List α) (f : α → Nat) : l.countP (fun a => 0 < f a) ≤ (l.map f).sum := by
  induction l with
  | nil => simp
  | cons a l ih =>
    rw [countP_cons, map_cons, sum_cons]
    by_cases h : 0 < f a
    · simp only [h, decide_true, if_true]
      omega
    · simp only [h, decide_false, Bool.false_eq_true, if_false]
      omega

/-- A sum of counts is the number of those that are positive if and only if none is greater than one. -/
theorem sum_eq_countP_iff (l : List α) (f : α → Nat) :
    (l.map f).sum = l.countP (fun a => 0 < f a) ↔ ∀ a ∈ l, f a ≤ 1 := by
  induction l with
  | nil => simp
  | cons a l ih =>
    have hle := countP_le_sum l f
    simp only [forall_mem_cons, ← ih, countP_cons, map_cons, sum_cons]
    by_cases h : 0 < f a
    · simp only [h, decide_true, if_true]
      omega
    · simp only [h, decide_false, Bool.false_eq_true, if_false]
      omega

section Count
variable {PublicKey Amendment : Type} [DecidableEq Amendment]

/-! ## The count of the records -/

variable (recordedVotes : TrustedVotes PublicKey Amendment)

namespace TrustedVotes

theorem getD_lookup_countVote (ret : HashMap Amendment Nat) (a amendment : Amendment) :
    ((countVote ret a).lookup amendment).getD 0 = (ret.lookup amendment).getD 0 + if a = amendment then 1 else 0 := by
  unfold countVote
  by_cases h : a = amendment
  · subst h
    rw [lookup_insert, if_pos rfl]
    rfl
  · rw [lookup_insert_ne (Ne.symm h), if_neg h]
    rfl

theorem getD_lookup_foldl_countVote (upVotes : List Amendment) (ret : HashMap Amendment Nat) (amendment : Amendment) :
    ((upVotes.foldl countVote ret).lookup amendment).getD 0 =
      (ret.lookup amendment).getD 0 + upVotes.count amendment := by
  induction upVotes generalizing ret with
  | nil => rfl
  | cons a upVotes ih =>
    rw [foldl_cons, ih, getD_lookup_countVote, count_cons]
    simp only [beq_iff_eq]
    omega

theorem getD_lookup_foldl_foldl (entries : List (Σ _ : PublicKey, UpvotesAndTimeout Amendment))
    (ret : HashMap Amendment Nat) (amendment : Amendment) :
    ((entries.foldl (fun ret e => e.2.upVotes.foldl countVote ret) ret).lookup amendment).getD 0 =
      (ret.lookup amendment).getD 0 + (entries.map fun e => e.2.upVotes.count amendment).sum := by
  induction entries generalizing ret with
  | nil => rfl
  | cons e entries ih =>
    rw [foldl_cons, ih, getD_lookup_foldl_countVote, map_cons, sum_cons]
    omega

theorem getVotes_eq :
    recordedVotes.getVotes = (recordedVotes.entries.countP fun e => e.2.timeout.isSome,
      recordedVotes.entries.foldl (fun ret e => e.2.upVotes.foldl countVote ret) ∅) := by
  have hpair := foldl_pair (fun available (e : Σ _ : PublicKey, UpvotesAndTimeout Amendment) =>
      if e.2.timeout.isSome then available + 1 else available)
    (fun ret e => e.2.upVotes.foldl countVote ret) recordedVotes.entries 0 ∅
  rw [foldl_countP, Nat.zero_add] at hpair
  exact hpair

end TrustedVotes

namespace AmendmentSet

theorem votes_make (amendment : Amendment) :
    (make recordedVotes).votes amendment = (recordedVotes.entries.map fun e => e.2.upVotes.count amendment).sum := by
  unfold votes make
  rw [TrustedVotes.getVotes_eq]
  dsimp only
  rw [TrustedVotes.getD_lookup_foldl_foldl, lookup_empty, Option.getD_none, Nat.zero_add]

theorem trustedValidations_make :
    (make recordedVotes).trustedValidations = recordedVotes.entries.countP fun e => e.2.timeout.isSome := by
  unfold make
  rw [TrustedVotes.getVotes_eq]

/-- An amendment passes with more votes than the threshold, or with the only one. -/
theorem votes_of_passes {recordedVotes : TrustedVotes PublicKey Amendment} {amendment : Amendment}
    (h : (make recordedVotes).passes amendment = true) :
    ((make recordedVotes).trustedValidations = 1 ∧ 1 ≤ (make recordedVotes).votes amendment) ∨
      (make recordedVotes).trustedValidations * 4 / 5 < (make recordedVotes).votes amendment := by
  unfold passes at h
  unfold votes
  cases hlookup : (make recordedVotes).counts.lookup amendment with
  | none =>
    rw [hlookup] at h
    cases h
  | some votes =>
    rw [hlookup] at h
    have hthreshold : (make recordedVotes).threshold = max 1 ((make recordedVotes).trustedValidations * 4 / 5) := rfl
    rw [hthreshold] at h
    rw [Option.getD_some]
    dsimp only at h
    split_ifs at h with hone
    · exact .inl ⟨hone, le_trans (le_max_left _ _) (of_decide_eq_true h)⟩
    · exact .inr (lt_of_le_of_lt (le_max_right _ _) (of_decide_eq_true h))

end AmendmentSet

theorem passes_of_action {majorityPeriod : Int} {closeTime : TimePoint} {hasValMajority : Bool}
    {majorityTime : Option TimePoint} {vote : AmendmentVote}
    (h : AmendmentTable.action majorityPeriod closeTime hasValMajority majorityTime vote = some tfGotMajority) :
    hasValMajority = true := by
  unfold AmendmentTable.action at h
  split_ifs at h with hgot hlost
  · exact hgot.1
  · cases h
  · cases majorityTime with
    | none => cases h
    | some time =>
      dsimp only at h
      split_ifs at h
      cases h

end Count

/-! ## Rounds -/

section Rounds
variable {PublicKey Amendment : Type} [DecidableEq PublicKey]

/-- The trusted validators with a vote that did not expire. -/
def available (history : List (Call PublicKey Amendment)) : Set PublicKey :=
  {validator | ∃ upVotes timeout, LatestVote history validator upVotes timeout}

/-- The trusted validators whose latest vote lists the amendment and did not expire. -/
def voters (history : List (Call PublicKey Amendment)) (amendment : Amendment) : Set PublicKey :=
  {validator | ∃ upVotes timeout, LatestVote history validator upVotes timeout ∧ amendment ∈ upVotes}

variable [DecidableEq Amendment]

namespace Records

variable {recordedVotes : TrustedVotes PublicKey Amendment} {history : List (Call PublicKey Amendment)}

section
variable (h : Records recordedVotes history)
include h

theorem ncard_available : (available history).ncard = (AmendmentSet.make recordedVotes).trustedValidations:= by
  rw [AmendmentSet.trustedValidations_make]
  have hset : available history = {validator | ∃ votes, recordedVotes.lookup validator = some votes ∧
      votes.timeout.isSome} := by
    ext validator
    constructor
    · rintro ⟨upVotes, timeout, hlatest⟩
      exact ⟨_, (h.latest _ _ _).2 hlatest, rfl⟩
    · rintro ⟨⟨upVotes, timeout⟩, hlookup, hsome⟩
      obtain ⟨timeout, rfl⟩ := Option.isSome_iff_exists.1 hsome
      exact ⟨upVotes, timeout, (h.latest _ _ _).1 hlookup⟩
  rw [hset, HashMap.ncard_lookup recordedVotes fun _ votes => votes.timeout.isSome = true]
  simp

theorem ncard_voters (amendment : Amendment) :
    (voters history amendment).ncard = recordedVotes.entries.countP fun e => 0 < e.2.upVotes.count amendment := by
  have hset : voters history amendment =
      {validator | ∃ votes, recordedVotes.lookup validator = some votes ∧ 0 < votes.upVotes.count amendment} := by
    ext validator
    constructor
    · rintro ⟨upVotes, timeout, hlatest, hmem⟩
      exact ⟨_, (h.latest _ _ _).2 hlatest, count_pos_iff.2 hmem⟩
    · rintro ⟨⟨upVotes, timeout⟩, hlookup, hpos⟩
      have hmem := count_pos_iff.1 hpos
      cases timeout with
      | none =>
        cases h.expired _ _ hlookup
        exact absurd hmem not_mem_nil
      | some timeout => exact ⟨upVotes, timeout, (h.latest _ _ _).1 hlookup, hmem⟩
  rw [hset, HashMap.ncard_lookup recordedVotes fun _ votes => 0 < votes.upVotes.count amendment]

theorem ncard_voters_le (amendment : Amendment) : (voters history amendment).ncard ≤ (available history).ncard:= by
  rw [h.ncard_voters, h.ncard_available, AmendmentSet.trustedValidations_make]
  refine countP_mono_left fun e he hpos => ?_
  obtain ⟨validator, upVotes, timeout⟩ := e
  cases timeout with
  | none =>
    cases h.expired _ _ (mem_lookup_iff.2 he)
    simp at hpos
  | some timeout => rfl

theorem votes_eq_iff (amendment : Amendment) :
    (AmendmentSet.make recordedVotes).votes amendment = (voters history amendment).ncard ↔
      ∀ validator upVotes timeout, LatestVote history validator upVotes timeout → upVotes.count amendment ≤ 1 := by
  rw [h.ncard_voters, AmendmentSet.votes_make, sum_eq_countP_iff]
  constructor
  · intro hcount validator upVotes timeout hlatest
    exact hcount _ (mem_lookup_iff.1 ((h.latest _ _ _).2 hlatest))
  · rintro hcount ⟨validator, upVotes, timeout⟩ hmem
    have hlookup := mem_lookup_iff.2 hmem
    cases timeout with
    | none =>
      cases h.expired _ _ hlookup
      simp
    | some timeout => exact hcount _ _ _ ((h.latest _ _ _).1 hlookup)

end

end Records

namespace AmendmentTable

section
variable {amendment : Amendment} {enabledAmendments : List Amendment}

theorem action_of_lookup {entries : List (Σ _ : Amendment, AmendmentState)} {actions : HashMap Amendment UInt32}
    {flagsOf : (Σ _ : Amendment, AmendmentState) → Option UInt32}
    {flags : UInt32} (h : (entries.foldl (fun actions entry =>
      if entry.1 ∈ enabledAmendments then actions
      else
        match flagsOf entry with
        | some flags => actions.insert entry.1 flags
        | none => actions) actions).lookup amendment = some flags) :
    actions.lookup amendment = some flags ∨ ∃ state, amendment ∉ enabledAmendments ∧
      flagsOf ⟨amendment, state⟩ = some flags := by
  induction entries generalizing actions with
  | nil => exact .inl h
  | cons entry entries ih =>
    rw [foldl_cons] at h
    obtain hold | hnew := ih h
    · split_ifs at hold with henabled
      · exact .inl hold
      · cases hflags : flagsOf entry with
        | none =>
          rw [hflags] at hold
          exact .inl hold
        | some flags' =>
          rw [hflags] at hold
          by_cases heq : amendment = entry.1
          · subst heq
            rw [lookup_insert] at hold
            exact .inr ⟨entry.2, henabled, hflags.trans hold⟩
          · rw [lookup_insert_ne heq] at hold
            exact .inl hold
    · exact .inr hnew

theorem passes_of_doVoting {table : AmendmentTable PublicKey Amendment} {closeTime : TimePoint}
    {majorityAmendments : HashMap Amendment TimePoint} {valSet : List (STValidation PublicKey Amendment)}
    (h : (table.doVoting closeTime enabledAmendments majorityAmendments valSet).1.lookup amendment =
      some tfGotMajority) :
    (AmendmentSet.make (table.previousTrustedVotes.recordVotes valSet closeTime)).passes amendment = true := by
  obtain hempty | ⟨state, -, haction⟩ := action_of_lookup h
  · rw [lookup_empty] at hempty
    cases hempty
  · exact passes_of_action haction

end

end AmendmentTable

/-- After every history, a round counts for an amendment as many votes as there are trusted validators whose latest
unexpired vote lists it, if and only if none of these votes lists it twice. Then the count is not above the number of
the validators that are available, and the amendment gets a majority only if more than four fifths of these, rounded
down, or the only one, vote for it. -/
theorem doVoting_votes (amendmentMap : HashMap Amendment AmendmentState) (majorityTime : Int)
    (history : List (Call PublicKey Amendment)) (closeTime : TimePoint) (enabledAmendments : List Amendment)
    (majorityAmendments : HashMap Amendment TimePoint)
    (valSet : List (STValidation PublicKey Amendment)) (amendment : Amendment) :
    let table := history.foldl AmendmentTable.call (.make amendmentMap majorityTime)
    let (actions, table') := table.doVoting closeTime enabledAmendments majorityAmendments valSet
    let history' := history ++ [.doVoting closeTime enabledAmendments majorityAmendments valSet]
    ∃ vote, table'.lastVote = some vote ∧ vote.trustedValidations = (available history').ncard ∧
      (vote.votes amendment = (voters history' amendment).ncard ↔
        ∀ validator upVotes timeout, LatestVote history' validator upVotes timeout → upVotes.count amendment ≤ 1) ∧
      (vote.votes amendment = (voters history' amendment).ncard →
        vote.votes amendment ≤ (available history').ncard ∧
          (actions.lookup amendment = some tfGotMajority →
            (available history').ncard * 4 / 5 < (voters history' amendment).ncard ∨
              (available history').ncard = 1 ∧ (voters history' amendment).ncard = 1)) := by
  intro table
  have hrecords := (records_of_history amendmentMap majorityTime history).recordVotes closeTime
      enabledAmendments majorityAmendments
    valSet
  have hle := hrecords.ncard_voters_le amendment
  refine ⟨_, rfl, hrecords.ncard_available.symm, hrecords.votes_eq_iff amendment,
    fun hvotes => ⟨hvotes ▸ hle, fun hgot => ?_⟩⟩
  obtain ⟨hone, hpos⟩ | hlt := AmendmentSet.votes_of_passes (AmendmentTable.passes_of_doVoting hgot)
  · rw [← hrecords.ncard_available] at hone
    refine .inr ⟨hone, ?_⟩
    rw [hone] at hle
    exact le_antisymm hle (hvotes ▸ hpos)
  · rw [← hrecords.ncard_available, hvotes] at hlt
    exact .inl hlt

end Rounds

/-- Five validators are trusted and send a validation. One of them lists the amendment 9 five times and the others do
not list it, and it gets the majority. -/
theorem doVoting_counts_repeated_votes :
    let history : List (Call Nat Nat) := [.trustChanged [0, 1, 2, 3, 4]]
    let valSet : List (STValidation Nat Nat) := [⟨0, some [9, 9, 9, 9, 9]⟩, ⟨1, none⟩, ⟨2, none⟩, ⟨3, none⟩, ⟨4, none⟩]
    let table := history.foldl AmendmentTable.call (.make (singleton 9 { vote := .up }) 0)
    let (actions, table') := table.doVoting 1000 [] ∅ valSet
    let history' := history ++ [.doVoting 1000 [] ∅ valSet]
    (available history').ncard = 5 ∧ (voters history' 9).ncard = 1 ∧ (table'.lastVote.map (·.votes 9)) = some 5 ∧
      actions.lookup 9 = some tfGotMajority := by
  intro history valSet
  have hrecords := (records_of_history (singleton 9 { vote := .up }) 0 history).recordVotes 1000 [] ∅ valSet
  refine ⟨hrecords.ncard_available.trans ?_, (hrecords.ncard_voters 9).trans ?_, ?_, ?_⟩
  all_goals decide +kernel

end Rippled.Amendments
