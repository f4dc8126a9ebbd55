import Rippled.Amendments.Change
/-!
# The life cycle of an amendment

A chain of ledgers, where each amendment transaction in a ledger is one that some server's round over the parent
returned. Such transactions may contradict each other and may come in any order; still, an amendment is enabled only
after it held its majority for the whole period.
-/

namespace Rippled.Amendments

open Lib List

variable {PublicKey Amendment : Type} [DecidableEq PublicKey] [DecidableEq Amendment]

/-- What holds in every ledger: no amendment is listed twice, and an enabled one has no majority. -/
structure View.Valid (v : View Amendment) : Prop where
  enabled_nodup : v.enabled.Nodup
  majorities_nodup : (v.majorities.map (·.amendment)).Nodup
  disjoint : ∀ m ∈ v.majorities, m.amendment ∉ v.enabled

/-- How a view in the making stands to the parent ledger `p`: what is enabled was so or has held its majority, and a
majority was there or is new and has the time of this ledger. -/
structure Follows (majorityTime : Int) (pCloseTime closeTime : TimePoint) (p v : View Amendment) : Prop where
  valid : v.Valid
  enabled : ∀ a ∈ v.enabled, a ∈ p.enabled ∨
    ∃ t, ⟨a, t⟩ ∈ p.majorities ∧ (t.toNat : Int) + majorityTime ≤ pCloseTime.toNat
  stays : ∀ a ∈ p.enabled, a ∈ v.enabled
  majorities : ∀ m ∈ v.majorities, m ∈ p.majorities ∨
    ((∀ m' ∈ p.majorities, m'.amendment ≠ m.amendment) ∧ m.closeTime = closeTime)

section Step

variable {majorityTime : Int} {pCloseTime closeTime : TimePoint} {p v v' : View Amendment} {tx : AmendmentTx Amendment}

section
omit [DecidableEq Amendment]

theorem Follows.start (h : p.Valid) : Follows majorityTime pCloseTime closeTime p p :=
  ⟨h, fun _ ha => .inl ha, fun _ ha => ha, fun _ hm => .inl hm⟩

theorem isFlag_of_flags {f g : UInt32} (h : tx.flags = f) : tx.isFlag g = (f &&& g == g) := by
  rw [AmendmentTx.isFlag, h]

theorem Follows.of_same (h : Follows majorityTime pCloseTime closeTime p v) (henabled : v'.enabled = v.enabled)
    (hmajorities : v'.majorities = v.majorities) : Follows majorityTime pCloseTime closeTime p v' where
  valid := by
    refine ⟨?_, ?_, ?_⟩
    · rw [henabled]
      exact h.valid.enabled_nodup
    · rw [hmajorities]
      exact h.valid.majorities_nodup
    · rw [henabled, hmajorities]
      exact h.valid.disjoint
  enabled := henabled ▸ h.enabled
  stays := henabled ▸ h.stays
  majorities := hmajorities ▸ h.majorities

end

theorem Follows.drop (h : Follows majorityTime pCloseTime closeTime p v) (henabled : v'.enabled = v.enabled)
    (hmajorities : v'.majorities = others v tx.amendment) : Follows majorityTime pCloseTime closeTime p v' := by
  have hsub : ∀ m ∈ v'.majorities, m ∈ v.majorities := by
    rw [hmajorities]
    exact fun m hm => mem_of_mem_filter hm
  refine ⟨⟨?_, ?_, ?_⟩, ?_, ?_, fun m hm => h.majorities m (hsub m hm)⟩
  · rw [henabled]
    exact h.valid.enabled_nodup
  · rw [hmajorities]
    exact h.valid.majorities_nodup.sublist (filter_sublist.map _)
  · rw [henabled]
    exact fun m hm => h.valid.disjoint m (hsub m hm)
  · rw [henabled]
    exact h.enabled
  · rw [henabled]
    exact h.stays

theorem Follows.step (h : Follows majorityTime pCloseTime closeTime p v) (hask : Asks majorityTime pCloseTime p tx)
    (hnot : tx.amendment ∉ v.enabled) (happly : Applied closeTime tx v v') :
    Follows majorityTime pCloseTime closeTime p v' := by
  cases happly with
  | got hflag hnone henabled hmajorities =>
    -- a round only asks for this if the parent has no majority
    have hpnone : ∀ m ∈ p.majorities, m.amendment ≠ tx.amendment := by
      cases hask with
      | got _ hnone => exact hnone
      | lost hflags _ =>
        rw [isFlag_of_flags hflags] at hflag
        exact absurd hflag (by decide)
      | enable hflags _ _ =>
        rw [isFlag_of_flags hflags] at hflag
        exact absurd hflag (by decide)
    have hmem : ∀ m ∈ v'.majorities, m ∈ v.majorities ∨ m = ⟨tx.amendment, closeTime⟩ := by
      rw [hmajorities]
      exact fun m hm => (mem_append.1 hm).imp_right mem_singleton.1
    refine ⟨⟨henabled ▸ h.valid.enabled_nodup, ?_, fun m hm => ?_⟩, henabled ▸ h.enabled,
      henabled ▸ h.stays, fun m hm => ?_⟩
    · rw [hmajorities, map_append, nodup_append]
      refine ⟨h.valid.majorities_nodup, nodup_singleton _, fun a ha b hb => ?_⟩
      obtain ⟨m, hm, rfl⟩ := mem_map.1 ha
      rw [mem_singleton.1 hb]
      exact hnone m hm
    · rw [henabled]
      rcases hmem m hm with hm | rfl
      · exact h.valid.disjoint m hm
      · exact hnot
    · rcases hmem m hm with hm | rfl
      · exact h.majorities m hm
      · exact .inr ⟨hpnone, rfl⟩
  | lost _ henabled hmajorities => exact h.drop henabled hmajorities
  | enabled hgot hlost henabled hmajorities =>
    obtain ⟨t, ht, hheld⟩ : ∃ t, ⟨tx.amendment, t⟩ ∈ p.majorities ∧
        (t.toNat : Int) + majorityTime ≤ pCloseTime.toNat := by
      cases hask with
      | got hflags _ =>
        rw [isFlag_of_flags hflags] at hgot
        exact absurd hgot (by decide)
      | lost hflags _ =>
        rw [isFlag_of_flags hflags] at hlost
        exact absurd hlost (by decide)
      | enable _ hmem hheld => exact ⟨_, hmem, hheld⟩
    have hmem : ∀ m ∈ v'.majorities, m ∈ v.majorities ∧ m.amendment ≠ tx.amendment := by
      rw [hmajorities]
      intro m hm
      have := mem_filter.1 hm
      simpa using this
    refine ⟨⟨?_, ?_, fun m hm => ?_⟩, fun a ha => ?_, fun a ha => ?_, fun m hm => h.majorities m (hmem m hm).1⟩
    · rw [henabled, nodup_append]
      refine ⟨h.valid.enabled_nodup, nodup_singleton _, fun a ha b hb => ?_⟩
      rw [mem_singleton.1 hb]
      exact fun heq => hnot (heq ▸ ha)
    · rw [hmajorities]
      exact h.valid.majorities_nodup.sublist (filter_sublist.map _)
    · rw [henabled, mem_append, mem_singleton, not_or]
      exact ⟨h.valid.disjoint m (hmem m hm).1, (hmem m hm).2⟩
    · rw [henabled] at ha
      rcases mem_append.1 ha with ha | ha
      · exact h.enabled a ha
      · rw [mem_singleton.1 ha]
        exact .inr ⟨t, ht, hheld⟩
    · rw [henabled]
      exact mem_append_left _ (h.stays a ha)

end Step

/-! ## Chains of ledgers -/

/-- A closed ledger, as far as amendments go. -/
structure Ledger (Amendment : Type) where
  parentCloseTime : TimePoint
  view : View Amendment

section Chain

variable (PublicKey) (featureSmartEscrow : Amendment) (majorityTime : Int)

/-- How the ledger after `p` is built: amendment transactions that rounds over `p` asked for, applied by any server
and in any order, and anything that leaves the entry alone. -/
inductive Builds (p : Ledger Amendment) (closeTime : TimePoint) : View Amendment → Prop where
  | start : Builds p closeTime p.view
  | amendment {ctx ctx' : ApplyContext PublicKey Amendment}
      (h : Builds p closeTime ctx.view) (tx : AmendmentTx Amendment)
      (hproposed : Proposed PublicKey majorityTime p.parentCloseTime p.view tx)
      (happly : applyAmendment featureSmartEscrow closeTime tx ctx = .ok ctx') : Builds p closeTime ctx'.view
  | other {v v' : View Amendment} (h : Builds p closeTime v) (hsame : v'.amendments = v.amendments) :
      Builds p closeTime v'

/-- The first `n` ledgers after `L 0` are each built on the one before. -/
def Chain (n : Nat) (L : Nat → Ledger Amendment) : Prop :=
  ∀ k < n, Builds PublicKey featureSmartEscrow majorityTime (L k) (L (k + 1)).parentCloseTime (L (k + 1)).view

/-- Ledger `r` recorded that the amendment got a majority: the one before has none, and the time is that of the
ledger. -/
def Recorded (L : Nat → Ledger Amendment) (r : Nat) (m : Majority Amendment) : Prop :=
  ∃ q, r = q + 1 ∧ (∀ m' ∈ (L q).view.majorities, m'.amendment ≠ m.amendment) ∧ m ∈ (L r).view.majorities ∧
    m.closeTime = (L r).parentCloseTime

end Chain

section Run

variable {featureSmartEscrow : Amendment} {majorityTime : Int} {closeTime : TimePoint}

theorem Builds.follows {p : Ledger Amendment} {v : View Amendment} (hp : p.view.Valid)
    (h : Builds PublicKey featureSmartEscrow majorityTime p closeTime v) :
    Follows majorityTime p.parentCloseTime closeTime p.view v := by
  induction h with
  | start => exact Follows.start hp
  | amendment _ tx hproposed happly ih =>
    obtain ⟨hnot, happlied⟩ := applyAmendment_cases happly
    exact ih.step hproposed.cases hnot happlied
  | @other v v' _ hsame ih =>
    have henabled : v'.enabled = v.enabled := by rw [View.enabled, hsame]; rfl
    have hmajorities : v'.majorities = v.majorities := by rw [View.majorities, hsame]; rfl
    exact ih.of_same henabled hmajorities

variable {n : Nat} {L : Nat → Ledger Amendment} {k : Nat}

section
variable (h : Chain PublicKey featureSmartEscrow majorityTime n L) (h₀ : (L 0).view.Valid)
include h h₀

theorem Chain.valid (hk : k ≤ n) : (L k).view.Valid := by
  induction k with
  | zero => exact h₀
  | succ k ih => exact ((h k hk).follows (ih (by omega))).valid

theorem Chain.follows (hk : k < n) :
    Follows majorityTime (L k).parentCloseTime (L (k + 1)).parentCloseTime (L k).view (L (k + 1)).view :=
  (h k hk).follows (h.valid h₀ hk.le)

/-- A majority is there since the ledger that recorded it, or since the first one of the chain. -/
theorem Chain.since (hk : k ≤ n) {m : Majority Amendment} (hm : m ∈ (L k).view.majorities) :
    ∃ r ≤ k, (r = 0 ∨ Recorded L r m) ∧ ∀ j, r ≤ j → j ≤ k → m ∈ (L j).view.majorities := by
  induction k with
  | zero => exact ⟨0, le_rfl, .inl rfl, fun j _ hj => by rw [Nat.le_zero.1 hj]; exact hm⟩
  | succ k ih =>
    rcases (h.follows h₀ hk).majorities m hm with hold | ⟨hnone, htime⟩
    · obtain ⟨r, hr, hrec, hall⟩ := ih (by omega) hold
      refine ⟨r, by omega, hrec, fun j hrj hj => ?_⟩
      rcases Nat.le_succ_iff.1 hj with hj | rfl
      · exact hall j hrj hj
      · exact hm
    · refine ⟨k + 1, le_rfl, .inr ⟨k, rfl, hnone, hm, htime⟩, fun j hrj hj => ?_⟩
      obtain rfl : j = k + 1 := by omega
      exact hm

theorem Chain.stays {j : Nat}
    (hkj : k ≤ j) (hj : j ≤ n) {a : Amendment} (ha : a ∈ (L k).view.enabled) : a ∈ (L j).view.enabled := by
  induction j, hkj using Nat.le_induction with
  | base => exact ha
  | succ j _ ih => exact (h.follows h₀ hj).stays a (ih (by omega))

end

/-- In every chain: an amendment is enabled only if it had a majority from the ledger that recorded it (or the first
of the chain) up to the parent of the ledger that enables it, and the period was over then. From then on it is
enabled, once, and has no majority. No ledger lists a majority twice. -/
theorem amendment_life_cycle (h : Chain PublicKey featureSmartEscrow majorityTime n L) (h₀ : (L 0).view.Valid) :
    (∀ k < n, ∀ a ∈ (L (k + 1)).view.enabled, a ∉ (L k).view.enabled →
      ∃ t r, r ≤ k ∧ (r = 0 ∨ Recorded L r ⟨a, t⟩) ∧ (∀ j, r ≤ j → j ≤ k → ⟨a, t⟩ ∈ (L j).view.majorities) ∧
        (t.toNat : Int) + majorityTime ≤ (L k).parentCloseTime.toNat) ∧
    (∀ k j, k ≤ j → j ≤ n → ∀ a ∈ (L k).view.enabled,
      (L j).view.enabled.count a = 1 ∧ ∀ m ∈ (L j).view.majorities, m.amendment ≠ a) ∧
    ∀ k ≤ n, ((L k).view.majorities.map (·.amendment)).Nodup := by
  refine ⟨fun k hk a ha hnot => ?_, fun k j hkj hj a ha => ?_, fun k hk => (h.valid h₀ hk).majorities_nodup⟩
  · obtain ⟨t, ht, hheld⟩ := ((h.follows h₀ hk).enabled a ha).resolve_left hnot
    obtain ⟨r, hr, hrec, hall⟩ := h.since h₀ hk.le ht
    exact ⟨t, r, hr, hrec, hall, hheld⟩
  · have hvalid := h.valid h₀ hj
    have hmem := h.stays h₀ hkj hj ha
    refine ⟨count_eq_one_of_mem hvalid.enabled_nodup hmem, fun m hm heq => ?_⟩
    exact hvalid.disjoint m hm (heq ▸ hmem)

/-- In every chain, the time from which an amendment's majority counts stays as it is while the amendment has one. -/
theorem majority_time_kept (h : Chain PublicKey featureSmartEscrow majorityTime n L) (h₀ : (L 0).view.Valid) {j : Nat}
    (hkj : k ≤ j) (hj : j ≤ n) {m : Majority Amendment} (hm : m ∈ (L k).view.majorities)
    (hheld : ∀ i, k ≤ i → i ≤ j → m.amendment ∈ (L i).view.majorities.map (·.amendment)) :
    m ∈ (L j).view.majorities := by
  induction j, hkj using Nat.le_induction with
  | base => exact hm
  | succ j hkj ih =>
    have hold := ih (by omega) fun i hi hij => hheld i hi (by omega)
    obtain ⟨m', hm', hsame⟩ := mem_map.1 (hheld (j + 1) (by omega) le_rfl)
    rcases (h.follows h₀ hj).majorities m' hm' with hmem | ⟨hnone, -⟩
    · obtain rfl := inj_on_of_nodup_map (h.valid h₀ (by omega)).majorities_nodup hmem hold hsame
      exact hm'
    · exact absurd hsame.symm (hnone m hold)

end Run

/-- A server that votes for amendment 7, as its only trusted validator does. -/
def supporter : AmendmentTable Nat Nat where
  amendmentMap := (∅ : HashMap Nat AmendmentState).insert 7 ⟨.up, false, true⟩
  lastUpdateSeq := 0
  previousTrustedVotes := (∅ : TrustedVotes Nat Nat).insert 1 {}
  majorityTime := 10
  lastVote := none
  unsupportedEnabled := false
  firstUnsupportedExpected := none

/-- Amendment 7 gets its majority in ledger 1 and is enabled in ledger 3. -/
def sevenEnabled : Nat → Ledger Nat
  | 0 => ⟨0, none, none⟩
  | 1 => ⟨5, some ⟨[], some [⟨7, 5⟩]⟩, none⟩
  | 2 => ⟨20, some ⟨[], some [⟨7, 5⟩]⟩, none⟩
  | _ => ⟨25, some ⟨[7], none⟩, none⟩

theorem chain_sevenEnabled : Chain Nat 0 10 3 sevenEnabled := by
  intro k hk
  match k, hk with
  | 0, _ =>
    have happly : applyAmendment 0 5 ⟨7, tfGotMajority⟩ ⟨(sevenEnabled 0).view, supporter, false⟩ =
      .ok ⟨(sevenEnabled 1).view, supporter, false⟩ := rfl
    exact .amendment .start _ ⟨supporter, [⟨1, some [7]⟩], rfl, by decide +kernel⟩ happly
  | 1, _ => exact .start
  | 2, _ =>
    have happly : applyAmendment 0 25 ⟨7, 0⟩ ⟨(sevenEnabled 2).view, supporter, false⟩ =
      .ok ⟨(sevenEnabled 3).view, (supporter.enable 7).2, false⟩ := rfl
    exact .amendment .start _ ⟨supporter, [⟨1, some [7]⟩], rfl, by decide +kernel⟩ happly

theorem amendment_life_cycle_seven :
    ∃ t r, r ≤ 2 ∧ (r = 0 ∨ Recorded sevenEnabled r ⟨7, t⟩) ∧
      (∀ j, r ≤ j → j ≤ 2 → ⟨7, t⟩ ∈ (sevenEnabled j).view.majorities) ∧ (t.toNat : Int) + 10 ≤ 20 :=
  (amendment_life_cycle chain_sevenEnabled ⟨nodup_nil, nodup_nil, by decide⟩).1 2 (by decide) 7 (by decide) (by decide)

theorem majority_time_kept_seven : ⟨7, 5⟩ ∈ (sevenEnabled 2).view.majorities := by
  refine majority_time_kept chain_sevenEnabled ⟨nodup_nil, nodup_nil, by decide⟩ (k := 1)
    (by decide) (by decide) (by decide) ?_
  intro i h1 h2
  obtain rfl | rfl : i = 1 ∨ i = 2 := by omega
  all_goals decide

end Rippled.Amendments
