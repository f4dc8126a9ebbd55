import Rippled.Validators.NegativeUNLVotes
/-!
# The negative UNL along a chain of ledgers

The list that a vote predicts is the one the flag ledger starts with, so the limit is checked against the right list
although the vote takes effect only one interval later.
-/

namespace Rippled.NegativeUNL

open Lib Validators NegativeUNLVote List

/-! ## The limit -/

/-- The nearest `float` does not make the limit larger, for lists of less than 2^26 validators. -/
theorem maxNegativeListed_le {n : Nat} (h : n < 67108864) : maxNegativeListed n ≤ (n + 3) / 4 := by
  unfold maxNegativeListed toFloat
  by_cases hsmall : n < 16777216
  · rw [if_pos hsmall]
  · rw [if_neg hsmall]
    have hlog : n.log2 = 24 ∨ n.log2 = 25 := by
      have hlow : 24 ≤ n.log2 := (Nat.le_log2 (by omega)).2 (by omega)
      have hhigh : n.log2 < 26 := (Nat.log2_lt (by omega)).2 (by omega)
      omega
    rcases hlog with hlog | hlog <;>
    · rw [hlog]
      simp only [Nat.shiftRight_eq_div_pow, Nat.shiftLeft_eq]
      norm_num
      split_ifs <;> omega

/-! ## Entries -/

/-- The keys of the list, as they are in the ledger. -/
def keys (e : Option NegativeUNLEntry) : List (Option Bytes) := (disabled e).map (·.publicKey)

variable {k : PublicKey}

theorem ofSlice_eq_some {b : Bytes} : PublicKey.ofSlice b = some k ↔ b = k.bytes := by
  unfold PublicKey.ofSlice
  split
  · rename_i hb
    rw [Option.some.injEq, PublicKey.mk.injEq]
  · rename_i hb
    constructor
    · intro h
      cases h
    · rintro rfl
      exact absurd k.valid hb

/-- The list of a ledger by its keys. -/
theorem mem_negativeUNL {l : Ledger} : k ∈ l.negativeUNL ↔ some k.bytes ∈ keys l.entry := by
  unfold Ledger.negativeUNL keys
  rw [mem_toFinset, mem_filterMap, mem_map]
  refine exists_congr fun v => and_congr_right fun _ => ?_
  cases v.publicKey with
  | none => simp
  | some b => rw [Option.bind_some, ofSlice_eq_some, Option.some.injEq]

theorem keys_withList (l : List DisabledValidator) : keys (withList l) = l.map (·.publicKey) := by
  cases l <;> rfl

theorem pending_withList (l : List DisabledValidator) :
    toDisable (withList l) = none ∧ toReEnable (withList l) = none := by
  cases l <;> exact ⟨rfl, rfl⟩

/-- The update takes out who is re-enabled and adds who is disabled. -/
theorem keys_update (seq : UInt32) (e : Option NegativeUNLEntry) :
    keys (updateNegativeUNL seq e) =
      (keys e).filter (fun x => !(x.isSome && x == toReEnable e)) ++ ((toDisable e).map some).toList := by
  cases e with
  | none => rfl
  | some sle =>
    obtain ⟨list, d, r⟩ := sle
    have hkept :
        ((list.getD []).filter fun v => !(r.isSome && v.publicKey.isSome && v.publicKey == r)).map (·.publicKey) =
        (keys (some ⟨list, d, r⟩)).filter (fun x => !(x.isSome && x == r)) := by
      unfold keys disabled
      rw [filter_map]
      congr 1
      refine filter_congr fun v _ => ?_
      obtain ⟨k, first⟩ := v
      cases r <;> cases k <;> rfl
    unfold updateNegativeUNL
    dsimp only
    by_cases hnone : (d.isNone && r.isNone) = true
    · rw [if_pos hnone]
      obtain ⟨rfl, rfl⟩ : d = none ∧ r = none := by simpa using hnone
      have hall : (keys (some ⟨list, none, none⟩)).filter (fun x => !(x.isSome && x == (none : Option Bytes))) =
          keys (some ⟨list, none, none⟩) := by
        rw [filter_eq_self]
        intro x _
        cases x <;> rfl
      change _ = filter _ _ ++ []
      rw [append_nil]
      exact hall.symm
    · rw [if_neg hnone]
      rw [keys_withList]
      change _ = filter (fun x => !(x.isSome && x == r)) _ ++ (d.map some).toList
      rw [← hkept]
      cases d with
      | none => simp
      | some d => simp

/-- After the update nothing is pending. -/
theorem pending_update (seq : UInt32) (e : Option NegativeUNLEntry) :
    toDisable (updateNegativeUNL seq e) = none ∧ toReEnable (updateNegativeUNL seq e) = none := by
  cases e with
  | none => exact ⟨rfl, rfl⟩
  | some sle =>
    unfold updateNegativeUNL
    dsimp only
    split
    · rename_i hnone
      simpa [toDisable, toReEnable] using hnone
    · exact pending_withList _

/-! ## What holds in every ledger -/

/-- The entry of a ledger makes sense: no validator is on the list twice, who is to be disabled is not on it, who is
to be re-enabled is, and at most a quarter of the validators, rounded up, are. -/
structure Sound (unlKeys : Finset PublicKey) (e : Option NegativeUNLEntry) : Prop where
  nodup : (keys e).Nodup
  toDisable : ∀ d, toDisable e = some d → some d ∉ keys e
  toReEnable : ∀ r, toReEnable e = some r → some r ∈ keys e
  differ : ∀ d r, NegativeUNL.toDisable e = some d → NegativeUNL.toReEnable e = some r → d ≠ r
  listed : (unlKeys.filter fun k => some k.bytes ∈ keys e).card ≤ (unlKeys.card + 3) / 4

/-- What the ledgers of a chain keep. Each interval adds one validator at most. -/
structure Inv (unlKeys : Finset PublicKey) (seq : UInt32) (e : Option NegativeUNLEntry) : Prop where
  nodup : (keys e).Nodup
  toDisable : ∀ d, toDisable e = some d → some d ∉ keys e
  toReEnable : ∀ r, toReEnable e = some r → some r ∈ keys e
  differ : ∀ d r, NegativeUNL.toDisable e = some d → NegativeUNL.toReEnable e = some r → d ≠ r
  members : ∀ x ∈ keys e, ∃ k ∈ unlKeys, x = some k.bytes
  pendingMember : ∀ d, NegativeUNL.toDisable e = some d → ∃ k ∈ unlKeys, d = k.bytes
  length_le : (keys e).length ≤ seq.toNat / 256
  listed : (keys e).length ≤ (unlKeys.card + 3) / 4
  pendingListed : ∀ d, NegativeUNL.toDisable e = some d → (keys e).length + 1 ≤ (unlKeys.card + 3) / 4

section Inv

variable {unlKeys : Finset PublicKey} {seq seq' : UInt32} {e : Option NegativeUNLEntry}

theorem bytes_injective : Function.Injective (fun k : PublicKey => some k.bytes) := by
  rintro ⟨b, hb⟩ ⟨b', hb'⟩ h
  have heq : b = b' := Option.some.inj h
  subst heq
  rfl

/-- Listed validators are all of the UNL, each once. -/
theorem Inv.card_listed (h : Inv unlKeys seq e) :
    (unlKeys.filter fun k => some k.bytes ∈ keys e).card = (keys e).length := by
  have himage : (unlKeys.filter fun k => some k.bytes ∈ keys e).image (fun k => some k.bytes) = (keys e).toFinset := by
    ext x
    simp only [Finset.mem_image, Finset.mem_filter, mem_toFinset]
    constructor
    · rintro ⟨k, ⟨-, hk⟩, rfl⟩
      exact hk
    · intro hx
      obtain ⟨k, hk, rfl⟩ := h.members x hx
      exact ⟨k, ⟨hk, hx⟩, rfl⟩
  rw [← toFinset_card_of_nodup h.nodup, ← himage, Finset.card_image_of_injective _ bytes_injective]

theorem Inv.sound (h : Inv unlKeys seq e) : Sound unlKeys e :=
  ⟨h.nodup, h.toDisable, h.toReEnable, h.differ, h.card_listed.trans_le h.listed⟩

theorem inv_none (unlKeys : Finset PublicKey) (seq : UInt32) : Inv unlKeys seq none := by
  refine ⟨nodup_nil, ?_, ?_, ?_, ?_, ?_, Nat.zero_le _, Nat.zero_le _, ?_⟩ <;> simp [NegativeUNL.toDisable,
    NegativeUNL.toReEnable, keys, disabled]

theorem Inv.later (h : Inv unlKeys seq e) (hle : seq.toNat ≤ seq'.toNat) : Inv unlKeys seq' e :=
  { h with length_le := h.length_le.trans (Nat.div_le_div_right hle) }

/-- Who is on the list after the update. -/
theorem mem_keys_update (e : Option NegativeUNLEntry) (seq : UInt32) (b : Bytes) :
    some b ∈ keys (updateNegativeUNL seq e) ↔
      (some b ∈ keys e ∧ NegativeUNL.toReEnable e ≠ some b) ∨ NegativeUNL.toDisable e = some b := by
  rw [keys_update, mem_append, mem_filter, Option.mem_toList, Option.map_eq_some_iff]
  simp only [Option.isSome_some, Bool.true_and, Bool.not_eq_true', beq_eq_false_iff_ne,
    Option.some.injEq, exists_eq_right]
  rw [ne_comm]

/-- The vote predicts the list that the next ledger starts with. -/
theorem mem_nextNegUnl {l : Ledger} (h : Inv unlKeys seq l.entry) (k : PublicKey) :
    k ∈ nextNegUnl l ↔ some k.bytes ∈ keys (updateNegativeUNL seq' l.entry) := by
  have hdis : l.validatorToDisable = some k ↔ NegativeUNL.toDisable l.entry = some k.bytes := by
    unfold Ledger.validatorToDisable
    cases NegativeUNL.toDisable l.entry with
    | none => simp
    | some d => rw [Option.bind_some, ofSlice_eq_some, Option.some.injEq]
  have hre : l.validatorToReEnable = some k ↔ NegativeUNL.toReEnable l.entry = some k.bytes := by
    unfold Ledger.validatorToReEnable
    cases NegativeUNL.toReEnable l.entry with
    | none => simp
    | some d => rw [Option.bind_some, ofSlice_eq_some, Option.some.injEq]
  have hmem : k ∈ nextNegUnl l ↔ (k ∈ l.negativeUNL ∨ l.validatorToDisable = some k) ∧
      l.validatorToReEnable ≠ some k := by
    unfold nextNegUnl
    dsimp only
    cases l.validatorToDisable with
    | none =>
      cases l.validatorToReEnable with
      | none => simp
      | some r => simp [and_comm, eq_comm]
    | some d =>
      cases l.validatorToReEnable with
      | none => simp [or_comm, eq_comm]
      | some r => simp [and_comm, or_comm, eq_comm]
  rw [hmem, mem_negativeUNL, hdis, Ne, hre, mem_keys_update]
  constructor
  · rintro ⟨hk | hk, hne⟩
    · exact .inl ⟨hk, hne⟩
    · exact .inr hk
  · rintro (⟨hk, hne⟩ | hk)
    · exact ⟨.inl hk, hne⟩
    · exact ⟨.inr hk, fun hr => h.differ _ _ hk hr rfl⟩

/-- The update of a flag ledger keeps the invariant. -/
theorem Inv.update (h : Inv unlKeys seq e) (hseq : seq'.toNat = seq.toNat + 1) (hflag : isFlagLedger seq' = true) :
    Inv unlKeys seq' (updateNegativeUNL seq' e) := by
  obtain ⟨hdis, hre⟩ := pending_update seq' e
  have hlength : (keys (updateNegativeUNL seq' e)).length ≤ (keys e).length +
      (NegativeUNL.toDisable e).toList.length := by
    rw [keys_update, length_append, Option.toList_map, length_map]
    exact Nat.add_le_add_right (length_filter_le _ _) _
  have hmod : seq'.toNat % 256 = 0 := by simpa [isFlagLedger, kFlagLedgerInterval] using hflag
  have hone : (NegativeUNL.toDisable e).toList.length ≤ 1 := by cases NegativeUNL.toDisable e <;> simp
  refine ⟨?_, by simp [hdis], by simp [hre], by simp [hdis], fun x hx => ?_, by simp [hdis], ?_, ?_, by simp [hdis]⟩
  · rw [keys_update, nodup_append]
    refine ⟨h.nodup.filter _, ?_, fun x hx y hy => ?_⟩
    · cases NegativeUNL.toDisable e <;> simp
    · rintro rfl
      cases hd : NegativeUNL.toDisable e with
      | none => simp [hd] at hy
      | some d =>
        simp only [hd, Option.map_some, Option.toList_some, mem_singleton] at hy
        exact h.toDisable d hd (hy ▸ mem_of_mem_filter hx)
  · rw [keys_update] at hx
    rcases mem_append.1 hx with hx | hx
    · exact h.members x (mem_of_mem_filter hx)
    · cases hd : NegativeUNL.toDisable e with
      | none => simp [hd] at hx
      | some d =>
        obtain ⟨k, hk, rfl⟩ := h.pendingMember d hd
        exact ⟨k, hk, by simpa [hd] using hx⟩
  · have := h.length_le
    omega
  · cases hd : NegativeUNL.toDisable e with
    | none =>
      rw [hd] at hlength
      exact hlength.trans h.listed
    | some d =>
      rw [hd] at hlength
      exact hlength.trans (h.pendingListed d hd)

end Inv

/-! ## Transactions -/

inductive Modified (t : UNLModifyTx) (e e' : Option NegativeUNLEntry) : Prop where
  | disable {v : Bytes} (hdisabling : t.disabling ≠ some 0)
      (hvalidator : t.validator = some v) (hnone : toDisable e = none)
      (hdiffer : toReEnable e ≠ some v) (hnot : some v ∉ keys e) (hkeys : keys e' = keys e)
      (hdis : toDisable e' = some v)
      (hre : toReEnable e' = toReEnable e)
  | reEnable {v : Bytes} (hdisabling : t.disabling = some 0) (hvalidator : t.validator = some v)
      (hnone : toReEnable e = none)
      (hdiffer : toDisable e ≠ some v) (hmem : some v ∈ keys e) (hkeys : keys e' = keys e)
      (hre : toReEnable e' = some v)
      (hdis : toDisable e' = toDisable e)

theorem found_iff (e : Option NegativeUNLEntry) (v : Bytes) : found (e.getD {}) v = true ↔ some v ∈ keys e := by
  have hlist : (e.getD {}).disabledValidators.getD [] = disabled e := by cases e <;> rfl
  unfold found keys
  rw [hlist, any_eq_true, mem_map]
  refine exists_congr fun d => and_congr_right fun _ => ?_
  cases d.publicKey <;> simp

variable {e : Option NegativeUNLEntry} {seq : UInt32}

/-- A transaction is applied in flag ledgers, and adds a pending validator. -/
theorem applyUNLModify_cases {t : UNLModifyTx} {e' : NegativeUNLEntry} (h : applyUNLModify seq t e = some e') :
    isFlagLedger seq = true ∧ Modified t e (some e') := by
  have hdis : (e.getD {}).validatorToDisable = toDisable e := by cases e <;> rfl
  have hre : (e.getD {}).validatorToReEnable = toReEnable e := by cases e <;> rfl
  unfold applyUNLModify at h
  cases hflag : isFlagLedger seq with
  | false =>
    rw [hflag] at h
    cases h
  | true =>
    refine ⟨rfl, ?_⟩
    rw [hflag] at h
    obtain ⟨disabling, txSeq, validator⟩ := t
    cases disabling with
    | none => cases h
    | some disabling =>
      cases txSeq with
      | none => cases h
      | some txSeq =>
        cases validator with
        | none => cases h
        | some v =>
          simp only [hdis, hre, Bool.not_true, Bool.false_eq_true, if_false, Option.ite_none_left_eq_some] at h
          obtain ⟨-, -, -, h⟩ := h
          split_ifs at h with hzero hpending hdiffer hfound hpending hdiffer hfound
          · cases h
            refine .disable (by simpa using hzero) rfl (by simpa using hpending) hdiffer ?_ ?_ rfl ?_
            · rw [← found_iff]
              exact hfound
            · cases e <;> rfl
            · cases e <;> rfl
          · cases h
            refine .reEnable (by simpa using hzero) rfl (by simpa using hpending) hdiffer ?_ ?_ rfl ?_
            · rw [← found_iff]
              simpa using hfound
            · cases e <;> rfl
            · cases e <;> rfl

/-! ## Chains of ledgers -/

section Chain

variable (calcNodeID : PublicKey → NodeID) (unlKeys : Finset PublicKey)

/-- Some server's vote before the ledger after `p` adds the transaction. -/
def Proposed (p : Ledger) (t : UNLModifyTx) : Prop :=
  ∃ (w : Walks) (vote : NegativeUNLVote) (trusted : UInt256 → UInt32 → List NodeID)
    (txs : List UNLModifyTx) (vote' : NegativeUNLVote),
    doVoting calcNodeID w vote p unlKeys trusted = .ok (txs, vote') ∧ t ∈ txs

/-- How the entry of the ledger after `p` comes about: a flag ledger updates it first, then transactions are applied
in any order. -/
inductive Builds (p : Ledger) (seq : UInt32) : Option NegativeUNLEntry → Prop where
  | start : Builds p seq (if isFlagLedger seq then updateNegativeUNL seq p.entry else p.entry)
  | unlModify {e : Option NegativeUNLEntry} {e' : NegativeUNLEntry} (h : Builds p seq e) (t : UNLModifyTx)
      (hproposed : isFlagLedger seq = true → Proposed calcNodeID unlKeys p t)
        (happly : applyUNLModify seq t e = some e') :
      Builds p seq (some e')

/-- The first `n` ledgers after `L 0`, which has no negative UNL, are each built on the one before. -/
structure Chain (n : Nat) (L : Nat → Ledger) : Prop where
  start : (L 0).entry = none
  seq : ∀ k < n, (L (k + 1)).seq.toNat = (L k).seq.toNat + 1
  built : ∀ k < n, Builds calcNodeID unlKeys (L k) (L (k + 1)).seq (L (k + 1)).entry

end Chain

section Run

variable {calcNodeID : PublicKey → NodeID} {unlKeys : Finset PublicKey}

/-- The entry while a flag ledger is built: the list is the one it started with, and a pending validator fits. -/
structure Voted (unlKeys : Finset PublicKey) (p : Ledger) (seq : UInt32) (e : Option NegativeUNLEntry) : Prop where
  inv : Inv unlKeys seq e
  keys_eq : isFlagLedger seq = true → keys e = keys (updateNegativeUNL seq p.entry)

variable {p : Ledger}

section
variable (hinj : Set.InjOn calcNodeID unlKeys)
include hinj

/-- Below the limit that a vote uses there is room for one more. -/
theorem room_of_asks (hp : Inv unlKeys p.seq p.entry) (hu : Inv unlKeys seq (updateNegativeUNL seq p.entry))
    (h : ((unlKeys.image calcNodeID).filter (· ∈ (nextNegUnl p).image calcNodeID)).card <
      maxNegativeListed (unlKeys.image calcNodeID).card) :
    (keys (updateNegativeUNL seq p.entry)).length + 1 ≤ (unlKeys.card + 3) / 4 := by
  have hcard : (unlKeys.image calcNodeID).card = unlKeys.card := Finset.card_image_of_injOn hinj
  have hlisted : (keys (updateNegativeUNL seq p.entry)).length ≤
      ((unlKeys.image calcNodeID).filter (· ∈ (nextNegUnl p).image calcNodeID)).card := by
    rw [← hu.card_listed, ← Finset.card_image_of_injOn (hinj.mono (Finset.coe_subset.2 (Finset.filter_subset _ _)))]
    refine Finset.card_le_card fun n hn => ?_
    obtain ⟨k, hk, rfl⟩ := Finset.mem_image.1 hn
    obtain ⟨hunl, hmem⟩ := Finset.mem_filter.1 hk
    refine Finset.mem_filter.2 ⟨Finset.mem_image_of_mem _ hunl, Finset.mem_image_of_mem _ ?_⟩
    exact (mem_nextNegUnl hp k).2 hmem
  rw [hcard] at h
  by_cases hsmall : unlKeys.card < 67108864
  · have := maxNegativeListed_le hsmall
    omega
  · -- there are not enough intervals to list a quarter of so many validators
    have := hu.length_le
    have := seq.toNat_lt
    omega

/-- One more transaction fits the list. -/
theorem Voted.step (hp : Inv unlKeys p.seq p.entry)
    (hu : isFlagLedger seq = true → Inv unlKeys seq (updateNegativeUNL seq p.entry)) {e' : Option NegativeUNLEntry}
    {t : UNLModifyTx} (h : Voted unlKeys p seq e) (hflag : isFlagLedger seq = true) {modify : NegativeUNLModify}
    (hask : Asks calcNodeID p unlKeys t k modify) (hmod : Modified t e e') : Voted unlKeys p seq e' := by
  cases hmod with
  | @disable v hdisabling hvalidator hnone hdiffer hnot hkeys hdis hre =>
    have hdisable : modify = .toDisable := by
      cases modify with
      | toDisable => rfl
      | toReEnable =>
        rw [hask.eq] at hdisabling
        exact absurd rfl hdisabling
    have hv : v = k.bytes := by
      rw [hask.eq] at hvalidator
      exact (Option.some.inj hvalidator).symm
    have hroom := room_of_asks hinj hp (hu hflag) (hask.below hdisable)
    refine ⟨⟨?_, fun d hd => ?_, ?_, fun d r hd hr => ?_, ?_, fun d hd => ?_, ?_, ?_, fun d hd => ?_⟩, ?_⟩
    · rw [hkeys]; exact h.inv.nodup
    · obtain rfl := Option.some.inj (hdis.symm.trans hd)
      rw [hkeys]
      exact hnot
    · rw [hkeys, hre]; exact h.inv.toReEnable
    · rintro rfl
      obtain rfl := Option.some.inj (hdis.symm.trans hd)
      exact hdiffer (hre.symm.trans hr)
    · rw [hkeys]; exact h.inv.members
    · obtain rfl := Option.some.inj (hdis.symm.trans hd)
      exact ⟨k, hask.member hdisable, hv⟩
    · rw [hkeys]; exact h.inv.length_le
    · rw [hkeys]; exact h.inv.listed
    · rw [hkeys, h.keys_eq hflag]; exact hroom
    · rw [hkeys]; exact h.keys_eq
  | @reEnable v hdisabling hvalidator hnone hdiffer hmem hkeys hre hdis =>
    refine ⟨⟨?_, ?_, fun r hr => ?_, fun d r hd hr => ?_, ?_, ?_, ?_, ?_, ?_⟩, ?_⟩
    · rw [hkeys]; exact h.inv.nodup
    · rw [hkeys, hdis]; exact h.inv.toDisable
    · obtain rfl := Option.some.inj (hre.symm.trans hr)
      rw [hkeys]
      exact hmem
    · rintro rfl
      obtain rfl := Option.some.inj (hre.symm.trans hr)
      exact hdiffer (hdis.symm.trans hd)
    · rw [hkeys]; exact h.inv.members
    · rw [hdis]; exact h.inv.pendingMember
    · rw [hkeys]; exact h.inv.length_le
    · rw [hkeys]; exact h.inv.listed
    · rw [hkeys, hdis]; exact h.inv.pendingListed
    · rw [hkeys]; exact h.keys_eq

/-- However a ledger is built, its entry fits the list. -/
theorem Builds.voted (hp : Inv unlKeys p.seq p.entry)
    (hseq : seq.toNat = p.seq.toNat + 1) (h : Builds calcNodeID unlKeys p seq e) : Voted unlKeys p seq e := by
  have hu : isFlagLedger seq = true → Inv unlKeys seq (updateNegativeUNL seq p.entry) := hp.update hseq
  induction h with
  | start =>
    by_cases hflag : isFlagLedger seq = true
    · rw [if_pos hflag]
      exact ⟨hu hflag, fun _ => rfl⟩
    · rw [if_neg hflag]
      exact ⟨hp.later (by omega), fun h => absurd h hflag⟩
  | unlModify _ t hproposed happly ih =>
    obtain ⟨hflag, hmod⟩ := applyUNLModify_cases happly
    obtain ⟨w, vote, trusted, txs, vote', hvote, ht⟩ := hproposed hflag
    obtain ⟨k, modify, hask⟩ := doVoting_cases hvote ht
    exact ih.step hinj hp hu hflag hask hmod

/-- Every ledger of a chain keeps the invariant. -/
theorem Chain.inv {n : Nat} {L : Nat → Ledger} (h : Chain calcNodeID unlKeys n L) {k : Nat}
    (hk : k ≤ n) : Inv unlKeys (L k).seq (L k).entry := by
  induction k with
  | zero =>
    rw [h.start]
    exact inv_none unlKeys _
  | succ k ih => exact ((h.built k hk).voted hinj (ih (by omega)) (h.seq k hk)).inv

end

/-- The list changes in flag ledgers only, by what the ledger before asked for, one validator for each interval at
most; and no other than the validators that vote are listed. -/
theorem negativeUNL_changes {n : Nat} {L : Nat → Ledger} (hinj : Set.InjOn calcNodeID unlKeys)
    (h : Chain calcNodeID unlKeys n L) {k : Nat} (hk : k < n) :
    keys (L (k + 1)).entry = (if isFlagLedger (L (k + 1)).seq then
      (keys (L k).entry).filter (fun x => !(x.isSome && x == toReEnable (L k).entry)) ++
        ((toDisable (L k).entry).map some).toList
      else keys (L k).entry) ∧
    (∀ x ∈ keys (L (k + 1)).entry, ∃ key ∈ unlKeys, x = some key.bytes) ∧
    (keys (L (k + 1)).entry).length ≤ (L (k + 1)).seq.toNat / 256 := by
  have hvoted := (h.built k hk).voted hinj (h.inv hinj hk.le) (h.seq k hk)
  refine ⟨?_, hvoted.inv.members, hvoted.inv.length_le⟩
  split_ifs with hflag
  · rw [hvoted.keys_eq hflag, keys_update]
  · have hkept : ∀ e, Builds calcNodeID unlKeys (L k) (L (k + 1)).seq e → keys e = keys (L k).entry := by
      rintro _ (_ | ⟨_, _, _, happly⟩)
      · rw [if_neg hflag]
      · exact absurd (applyUNLModify_cases happly).1 hflag
    exact hkept _ (h.built k hk)

end Run

/-- In every chain of ledgers where all votes are over the same validators, whose node ids differ, every entry is
sound. The transactions of a vote do not depend on the order of hash tables, and the pick only on the hash and the set
of candidates. -/
theorem negativeUNL_sound (calcNodeID : PublicKey → NodeID) (unlKeys : Finset PublicKey) :
    (Set.InjOn calcNodeID unlKeys → ∀ n L, Chain calcNodeID unlKeys n L → ∀ k ≤ n, Sound unlKeys (L k).entry) ∧
    (∀ (w w' : Walks) (vote : NegativeUNLVote) (prevLedger : Ledger) (trusted : UInt256 → UInt32 → List NodeID),
      Set.InjOn calcNodeID (unlKeys ∪ nextNegUnl prevLedger : Finset PublicKey) →
      doVoting calcNodeID w vote prevLedger unlKeys trusted = doVoting calcNodeID w' vote prevLedger unlKeys trusted) ∧
    ∀ (hash : UInt256) (candidates candidates' : List NodeID), (∀ n, n ∈ candidates ↔ n ∈ candidates') →
      choose hash candidates = choose hash candidates' :=
  ⟨fun hinj _ _ h _ hk => (h.inv hinj hk).sound, fun _ _ _ _ _ hinj => doVoting_congr hinj,
    fun _ _ _ h => choose_congr h⟩

/-! ## A validator that is offline -/

/-- Hash tables that are walked by increasing keys. -/
def Walk.sorted {α : Type} (key : α → List Nat) (hkey : Function.Injective key) : Walk α :=
  letI : LinearOrder α := LinearOrder.lift' key hkey
  { order := fun s => Quot.liftOn s.val (insertionSort (· ≤ ·)) fun l l' h =>
      ((perm_insertionSort _ l).trans (h.trans (perm_insertionSort _ l').symm)).eq_of_pairwise'
        (pairwise_insertionSort _ l) (pairwise_insertionSort _ l')
    nodup := by
      rintro ⟨⟨l⟩, hl⟩
      exact (perm_insertionSort _ l).nodup_iff.2 hl
    mem := by
      rintro ⟨⟨l⟩, hl⟩ a
      exact (perm_insertionSort _ l).mem_iff }

theorem toNat_bytes_injective : Function.Injective fun k : PublicKey => k.bytes.map (·.toNat) := by
  rintro ⟨l, hl⟩ ⟨l', hl'⟩ h
  obtain rfl : l = l' := map_injective_iff.2 (fun _ _ => UInt8.toNat_inj.1) h
  rfl

def sortedWalks : Walks where
  keys := .sorted _ toNat_bytes_injective
  nodes := .sorted (fun n => [n.toNat]) fun _ _ h => BitVec.toNat_inj.1 (singleton_inj.1 h)

/-- A key that repeats one byte after its type. -/
def exampleKey (b : UInt8) : PublicKey := ⟨0xED :: replicate 32 b, rfl⟩

def exampleKeys : Finset PublicKey := {exampleKey 0, exampleKey 1}

def exampleNodeID (k : PublicKey) : NodeID := if k = exampleKey 1 then 1 else 0

/-- From the ledger before a flag ledger to the next flag ledger: the first one has the transaction that disables a
validator, which takes effect in the other one. -/
def exampleLedgers (k : Nat) : Ledger where
  seq := .ofNat (255 + k)
  hash := 0
  hashes := some (replicate 256 0)
  entry :=
    if k = 0 then none
    else if k ≤ 256 then some { validatorToDisable := some (exampleKey 1).bytes }
    else some { disabledValidators := some [⟨some (exampleKey 1).bytes, 512⟩] }

theorem proposed_exampleLedgers : Proposed exampleNodeID exampleKeys (exampleLedgers 0)
    (tx 256 (exampleKey 1) .toDisable) := by
  obtain ⟨⟨txs, vote⟩, hvote, ht⟩ := Except.exists_ok_of_any
    (x := doVoting exampleNodeID sortedWalks ⟨0, ∅⟩ (exampleLedgers 0) exampleKeys fun _ _ => [0])
    (p := fun r => decide (tx 256 (exampleKey 1) .toDisable ∈ r.1)) (by decide +kernel)
  exact ⟨_, _, _, txs, vote, hvote, of_decide_eq_true ht⟩

theorem chain_exampleLedgers : Chain exampleNodeID exampleKeys 257 exampleLedgers where
  start := rfl
  seq := by decide +kernel
  built k hk := by
    cases k with
    | zero => exact .unlModify .start _ (fun _ => proposed_exampleLedgers) (by decide +kernel)
    | succ k =>
      have hstart : ∀ k < 256, (if isFlagLedger (exampleLedgers (k + 2)).seq then
          updateNegativeUNL (exampleLedgers (k + 2)).seq (exampleLedgers (k + 1)).entry
            else (exampleLedgers (k + 1)).entry) =
          (exampleLedgers (k + 2)).entry := by decide +kernel
      rw [← hstart k (by omega)]
      exact .start

theorem injOn_exampleNodeID : Set.InjOn exampleNodeID exampleKeys := by
  have hinj : ∀ k ∈ exampleKeys, ∀ k' ∈ exampleKeys, exampleNodeID k = exampleNodeID k' → k = k' := by decide +kernel
  exact fun k hk k' hk' => hinj k hk k' hk'

theorem negativeUNL_sound_exampleLedgers : Sound exampleKeys (exampleLedgers 1).entry ∧
    Sound exampleKeys (exampleLedgers 257).entry :=
  have h := (negativeUNL_sound exampleNodeID exampleKeys).1 injOn_exampleNodeID 257 exampleLedgers chain_exampleLedgers
  ⟨h 1 (by decide), h 257 le_rfl⟩

theorem negativeUNL_changes_exampleLedgers : keys (exampleLedgers 257).entry = [some (exampleKey 1).bytes] ∧
    ∀ x ∈ keys (exampleLedgers 257).entry, ∃ key ∈ exampleKeys, x = some key.bytes := by
  obtain ⟨hkeys, hmembers, -⟩ := negativeUNL_changes injOn_exampleNodeID chain_exampleLedgers (k := 256) (by decide)
  exact ⟨hkeys, hmembers⟩

end Rippled.NegativeUNL
