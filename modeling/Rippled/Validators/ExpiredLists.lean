import Rippled.Validators.PendingLists
/-!
# Lists that are over

`updateTrusted` drops a current list that is over if its publisher is available, and drops the keys of a pending list
that is over before it starts. A list that is over when it arrives takes another way: `verify` says `expired`, and
`applyList` stores and counts it like a list that is accepted, but marks the publisher as expired, so that
`updateTrusted` passes it over. Its keys stay (`Lingers`) until a newer list comes. Without such lists, only lists
that are in force are counted.
-/

namespace Rippled.Validators

open Lib Protocol List

variable {Key : Type} [LinearOrder Key] {result : ListDisposition}

namespace PublisherListCollection

variable {c : PublisherListCollection Key} {t now : Nat} {l : ParsedList Key}

section

omit [LinearOrder Key]

/-- A current list that is over and still names validators, where `updateTrusted` does not look. -/
structure Lingers (c : PublisherListCollection Key) (t : Nat) : Prop where
  unavailable : c.status ≠ .available
  listed : c.current.list ≠ []
  ended : c.current.validUntil ≤ t
  nothingDue : c.due t = []

theorem afterExpiry_validUntil (c : PublisherListCollection Key) (t : Nat) :
    (c.afterExpiry t).current.validUntil = c.current.validUntil := by
  unfold afterExpiry
  split <;> rfl

/-- The expiry clears lists that are available, and no others. -/
theorem afterExpiry_list_eq_nil (hover : c.current.validUntil ≤ t) :
    (c.afterExpiry t).current.list = [] ↔ c.status = .available ∨ c.current.list = [] := by
  unfold afterExpiry
  by_cases hstatus : c.status = .available
  · rw [if_pos ⟨hstatus, hover⟩]
    exact iff_of_true rfl (.inl hstatus)
  · rw [if_neg fun h => hstatus h.1]
    exact (or_iff_right hstatus).symm

/-- An expired list is cleared by the walk, unless it lingers. -/
theorem refreshed_iff (c : PublisherListCollection Key) (t : Nat) :
    ((c.refreshed t).current.validUntil ≤ t → (c.refreshed t).current.list = []) ↔ ¬ c.Lingers t := by
  unfold refreshed
  rw [afterExpiry_validUntil]
  cases hdue : (c.due t).getLast? with
  | none =>
    have hc : c.rotated t = c := by
      unfold rotated
      rw [hdue]
    have hnil : c.due t = [] := getLast?_eq_none_iff.1 hdue
    rw [hc]
    constructor
    · intro h hl
      rcases (afterExpiry_list_eq_nil hl.ended).1 (h hl.ended) with hav | hempty
      · exact hl.unavailable hav
      · exact hl.listed hempty
    · intro h hover
      rw [afterExpiry_list_eq_nil hover]
      by_contra hno
      obtain ⟨hstatus, hlist⟩ := not_or.1 hno
      exact h ⟨hstatus, hlist, hover, hnil⟩
  | some candidate =>
    -- a list that was rotated in makes the publisher available
    refine iff_of_true (fun hover => ?_) fun hl => ?_
    · rw [afterExpiry_list_eq_nil hover, rotated_eq hdue]
      exact .inl rfl
    · rw [hl.nothingDue] at hdue
      cases hdue

/-! ## Publishers that are not available -/

/-- A publisher that is not available names nobody. -/
def Cleared (c : PublisherListCollection Key) : Prop := c.status ≠ .available → c.current.list = []

theorem Cleared.not_lingers (h : Cleared c) (t : Nat) : ¬ c.Lingers t := fun hl => hl.listed (h hl.unavailable)

/-- A list that is not over is not classified as expired. -/
theorem classify_ne_expired (h : now < l.validUntil) : c.classify now l ≠ .ok .expired := by
  unfold classify
  rw [if_neg h.not_ge]
  repeat' split
  all_goals simp

theorem Cleared.refreshed (h : Cleared c) (t : Nat) : Cleared (c.refreshed t) := by
  have hrot : Cleared (c.rotated t) := by
    unfold rotated
    split
    · exact h
    · exact fun hstatus => absurd rfl hstatus
  unfold PublisherListCollection.refreshed afterExpiry
  split
  · exact fun _ => rfl
  · exact hrot

end

/-- Only a list that comes in expired can linger. -/
theorem Cleared.store (h : Cleared c) (hresult : result ≠ .expired) : Cleared (c.store l result) := by
  unfold PublisherListCollection.store
  dsimp only
  by_cases hacc : result = .accepted
  · subst hacc
    rw [if_pos (.inl rfl), if_pos rfl]
    split <;> exact fun hstatus => absurd rfl hstatus
  · rw [if_neg fun hor => hor.elim hacc hresult]
    exact h

end PublisherListCollection

namespace ValidatorList

open PublisherListCollection

variable {env : Env Key} {s₀ s s' : ValidatorList Key} {t now : Nat}

/-- Every publisher's collection satisfies `Q`. -/
def Each (Q : PublisherListCollection Key → Prop) (s : ValidatorList Key) : Prop :=
  ∀ P c, s.publisherLists.lookup P = some c → Q c

section
variable {Q : PublisherListCollection Key → Prop} (h : Each Q s)
include h

theorem Each.setCollection {P : Key} {c : PublisherListCollection Key} (hc : Q c) : Each Q (s.setCollection P c) := by
  intro P' c' hc'
  unfold ValidatorList.setCollection at hc'
  rw [HashMap.lookup_insert_eq] at hc'
  split at hc'
  · exact Option.some.inj hc' ▸ hc
  · exact h P' c' hc'

theorem Each.of_lists (hlists : s'.publisherLists = s.publisherLists) : Each Q s' := by
  intro P c hc
  rw [hlists] at hc
  exact h P c hc

theorem Each.getD (hQ : Q {}) (P : Key) : Q ((s.publisherLists.lookup P).getD {}) := by
  cases hc : s.publisherLists.lookup P with
  | none => exact hQ
  | some c => exact h P c hc

variable (hempty : ∀ c reason, Q c → Q { c with status := reason, current := { c.current with list := [] } })
include hempty

theorem Each.removePublisherList (P : Key) (reason : PublisherStatus) : Each Q (s.removePublisherList P reason) := by
  unfold ValidatorList.removePublisherList
  split
  · exact h
  · rename_i c hc
    exact Each.of_lists (h.setCollection (hempty c reason (h P c hc))) rfl

theorem Each.verifyManifest (hdrop : ∀ c, Q c → Q { c with remaining := ∅ }) (env : Env Key) (m : Manifest Key) :
    Each Q (s.verifyManifest env m).1 := by
  unfold ValidatorList.verifyManifest
  dsimp only
  have h' : Each Q { s with publisherManifests := (s.publisherManifests.applyManifest env.signed m .uncapped).2 } :=
    h.of_lists rfl
  split
  · have hr := h'.removePublisherList hempty m.masterKey .revoked
    split
    · exact hr
    · rename_i c hc
      exact hr.setCollection (hdrop c (hr _ c hc))
  · exact h'

end

/-- No publisher that is not available names anybody. -/
def Cleared (s : ValidatorList Key) : Prop := Each PublisherListCollection.Cleared s

section
variable (h : Cleared s)
include h

theorem Cleared.verifyManifest (env : Env Key) (m : Manifest Key) : Cleared (s.verifyManifest env m).1 :=
  Each.verifyManifest h (fun _ _ _ _ => rfl) (fun _ hc => hc) env m

theorem Cleared.storeList (env : Env Key) (P : Key) (l : ParsedList Key) (hresult : result ≠ .expired) :
    Cleared (s.storeList env P l result).1 := by
  have hset : Cleared (s.setCollection P (((s.publisherLists.lookup P).getD {}).store l result)) :=
    Each.setCollection h ((Each.getD h (fun _ => rfl) P).store hresult)
  unfold ValidatorList.storeList
  dsimp only
  split
  · exact Each.of_lists hset (updatePublisherList_sameLists env _ _ _).lists
  · exact hset

end

/-! ## Lists that are not over when they come -/

/-- Whatever list a blob holds, it is not over. -/
def InTime (env : Env Key) (now : Nat) (info : ValidatorBlobInfo) : Prop :=
  ∀ j l, env.parse info.blob = some j → readList j = .ok (some l) → now < l.validUntil

variable {info : ValidatorBlobInfo}

omit [LinearOrder Key] in
theorem parse_of_openBlob {k : Key} {l : ParsedList Key} (hopen : openBlob env k info = .ok (some l)) :
    ∃ j, env.parse info.blob = some j ∧ readList j = .ok (some l) := by
  unfold openBlob at hopen
  split at hopen
  · cases hopen
  · split at hopen
    · cases hopen
    · rename_i j hj
      exact ⟨j, hj, hopen⟩

/-- What `verify` found out about a list that it returns. -/
theorem openBlob_of_verify {m : Manifest Key} {l : ParsedList Key}
    (hv : (s.verify env now m info).2 = .ok (result, some l)) : ∃ k, openBlob env k info = .ok (some l) ∧
      (((s.verifyManifest env m).1.publisherLists.lookup m.masterKey).getD {}).classify now l = .ok result := by
  unfold verify at hv
  dsimp only at hv
  split at hv
  · cases hv
  · rename_i k _
    split at hv
    · cases hv
    · cases hv
    · rename_i l' hopen
      cases hcl : (((s.verifyManifest env m).1.publisherLists.lookup m.masterKey).getD {}).classify now l' with
      | error e =>
        rw [hcl] at hv
        cases hv
      | ok d =>
        rw [hcl] at hv
        cases hv
        exact ⟨k, hopen, hcl⟩

theorem Cleared.applyLists (h : Cleared s) (manifest : String) (version : Nat) {blobs : List ValidatorBlobInfo}
    (hin : ∀ info ∈ blobs, InTime env now info) : Cleared (s.applyLists env now manifest version blobs).1 := by
  refine applyLists_keeps h (fun s info hinfo hs => ?_) fun s P c hs hc => Each.setCollection hs (hs P c hc)
  refine applyList_keeps hs fun m => applyVerified_keeps hs (hs.verifyManifest env m) fun result l hv => ?_
  obtain ⟨k, hopen, hcl⟩ := openBlob_of_verify hv
  refine (hs.verifyManifest env m).storeList env m.masterKey l ?_
  rintro rfl
  obtain ⟨j, hj, hl⟩ := parse_of_openBlob hopen
  exact classify_ne_expired (hin info hinfo j l hj hl) hcl

/-! ## The walk over the publishers -/

variable {order : List Key}

/-- The walk leaves no list to linger. -/
theorem Cleared.updateTrusted (h : Cleared s) (horder : order.Perm s.publisherLists.keys) :
    Cleared (s.updateTrusted env t t order) := by
  intro P c hc
  rw [lookup_updateTrusted horder, Option.map_eq_some_iff] at hc
  obtain ⟨c', hc', rfl⟩ := hc
  exact (h P c' hc').refreshed t

/-! ## Whole runs -/

/-- What happens after loading under one clock, which does not go back. `seen` are the blobs that came, with their
times. -/
inductive ClockedHistory (env : Env Key) (s₀ : ValidatorList Key) :
    List (Nat × ValidatorBlobInfo) → Nat → ValidatorList Key → Prop where
  | start (t : Nat) : ClockedHistory env s₀ [] t s₀
  | applyLists {seen : List (Nat × ValidatorBlobInfo)} {t now : Nat} {s : ValidatorList Key}
      (h : ClockedHistory env s₀ seen t s)
      (ht : t ≤ now) (manifest : String) (version : Nat) (blobs : List ValidatorBlobInfo) :
      ClockedHistory env s₀ (blobs.map (now, ·) ++ seen) now (s.applyLists env now manifest version blobs).1
  | updateTrusted {seen : List (Nat × ValidatorBlobInfo)} {t now : Nat} {s : ValidatorList Key}
      (h : ClockedHistory env s₀ seen t s) (ht : t ≤ now) (order : List Key)
      (horder : order.Perm s.publisherLists.keys) :
      ClockedHistory env s₀ seen now (s.updateTrusted env now now order)
  | manifests {seen : List (Nat × ValidatorBlobInfo)} {t : Nat} {s : ValidatorList Key}
      (h : ClockedHistory env s₀ seen t s)
      (vm : ManifestCache Key) : ClockedHistory env s₀ seen t { s with validatorManifests := vm }

variable {seen : List (Nat × ValidatorBlobInfo)}

theorem ClockedHistory.history (h : ClockedHistory env s₀ seen t s) : History env s₀ s := by
  induction h with
  | start t => exact .start
  | applyLists _ _ manifest version blobs ih => exact ih.applyLists _ manifest version blobs
  | updateTrusted _ _ order horder ih => exact ih.updateTrusted _ _ order horder
  | manifests _ vm ih => exact ih.manifests vm

/-- No list lingers if all came in time. -/
theorem ClockedHistory.cleared (h : ClockedHistory env s₀ seen t s) (h₀ : Cleared s₀)
    (hin : ∀ e ∈ seen, InTime env e.1 e.2) : Cleared s := by
  induction h with
  | start t => exact h₀
  | applyLists _ _ manifest version blobs ih =>
    have hold := ih fun e he => hin e (mem_append_right _ he)
    exact hold.applyLists manifest version fun info hinfo =>
      hin (_, info) (mem_append_left _ (mem_map_of_mem hinfo))
  | updateTrusted _ _ order horder ih => exact (ih hin).updateTrusted horder
  | manifests _ vm ih => exact Each.of_lists (ih hin) rfl

/-- How often the current lists that are in force at time `t` name a key. -/
def namingsInForce (s : ValidatorList Key) (t : Nat) (k : Key) : Nat :=
  HashMap.sumOver (fun _ c => if t < c.current.validUntil then c.current.list.count k else 0) s.publisherLists

/-- Only lists in force count exactly if the others are empty. -/
theorem namings_eq_namingsInForce (s : ValidatorList Key) (t : Nat) :
    (∀ k, s.namings k = s.namingsInForce t k) ↔
      ∀ P c, s.publisherLists.lookup P = some c → c.current.validUntil ≤ t → c.current.list = [] := by
  have hsum : ∀ k, s.namings k = s.namingsInForce t k +
      HashMap.sumOver (fun _ c => if t < c.current.validUntil then 0 else c.current.list.count k) s.publisherLists := by
    intro k
    unfold namings namingsInForce
    rw [← HashMap.sumOver_add]
    congr 1
    funext _ c
    split <;> omega
  constructor
  · intro h P c hc hover
    refine eq_nil_iff_forall_not_mem.2 fun k hk => ?_
    have hle := HashMap.le_sumOver (fun _ c => if t < c.current.validUntil then 0 else c.current.list.count k) hc
    rw [if_neg hover.not_gt] at hle
    have hpos := count_pos_iff.2 hk
    have hk' := h k
    rw [hsum k] at hk'
    omega
  · intro h k
    rw [hsum k, HashMap.sumOver_eq_zero, Nat.add_zero]
    intro P c hc
    split
    · rfl
    · rename_i hover
      rw [h P c hc (not_lt.1 hover)]
      rfl

variable {vm pm : ManifestCache Key} {localSigningKey : Option Key} {configKeys publisherKeys : List (Option Key)}
  {listThreshold : Option Nat}

theorem cleared_load (h : load localSigningKey configKeys publisherKeys listThreshold (init vm pm) = some s) :
    Cleared s := by
  unfold load at h
  obtain ⟨s₁, h₁, h⟩ := Option.bind_eq_some_iff.1 h
  obtain ⟨n, -, h⟩ := Option.bind_eq_some_iff.1 h
  obtain ⟨hempty, hkl, hpub, hloc, -⟩ := unlisted_loadPublishers h₁
  obtain ⟨-, hlisted⟩ := @loadLocal_spec Key _ { s₁ with listThreshold := n } hkl hpub hloc localSigningKey
  obtain ⟨hlists, hT⟩ := loadLocal_same { s₁ with listThreshold := n } localSigningKey
  obtain ⟨-, -, hsame⟩ := loadKeys_spec h (by rw [hT]; exact hlisted)
  intro P c hc _
  rw [hsame, hlists] at hc
  exact hempty P c hc

/-- After `updateTrusted` at time `t`, only lists in force count, exactly if no list lingered before it. Then a key
that is trusted without being configured is on the list of a publisher that is in force. If no list was over when it
came, none lingers. -/
theorem only_lists_in_force_count {t₀ : Nat}
    (hload : load localSigningKey configKeys publisherKeys listThreshold (init vm pm) = some s₀)
    (h : ClockedHistory env s₀ seen t₀ s) {order : List Key} (horder : order.Perm s.publisherLists.keys) (t : Nat) :
    let s' := s.updateTrusted env t t order
    ((∀ k, countOf s'.keyListings k =
        s'.namingsInForce t k + if Configured vm localSigningKey configKeys k then s₀.listThreshold else 0) ↔
      ∀ P c, s.publisherLists.lookup P = some c → ¬ c.Lingers t) ∧
    ((∀ P c, s.publisherLists.lookup P = some c → ¬ c.Lingers t) →
      ∀ k ∈ s'.trustedMasterKeys, ¬ Configured vm localSigningKey configKeys k →
        ∃ P c, s'.publisherLists.lookup P = some c ∧ k ∈ c.current.list ∧ t < c.current.validUntil) ∧
    ((∀ e ∈ seen, InTime env e.1 e.2) → ∀ P c, s.publisherLists.lookup P = some c → ¬ c.Lingers t) := by
  intro s'
  obtain ⟨hc₀, hlocal⟩ := counted_load hload
  have hc : Counted s₀ s' := (h.history.counted hc₀).updateTrusted env t t order
  have hiff : (∀ k, countOf s'.keyListings k =
        s'.namingsInForce t k + if Configured vm localSigningKey configKeys k then s₀.listThreshold else 0) ↔
      ∀ P c, s.publisherLists.lookup P = some c → ¬ c.Lingers t := by
    have hcount : ∀ k, countOf s'.keyListings k =
        s'.namings k + if Configured vm localSigningKey configKeys k then s₀.listThreshold else 0 := by
      intro k
      rw [hc.count k, if_congr (hlocal k) rfl rfl]
    simp only [hcount, Nat.add_right_cancel_iff]
    rw [namings_eq_namingsInForce]
    constructor
    · intro hforce P c hP
      rw [← refreshed_iff]
      exact hforce P _ (by rw [lookup_updateTrusted horder, hP, Option.map_some])
    · intro hno P c hP
      rw [lookup_updateTrusted horder, Option.map_eq_some_iff] at hP
      obtain ⟨c', hc', rfl⟩ := hP
      exact (refreshed_iff c' t).2 (hno P c' hc')
  refine ⟨hiff, fun hno k hk hconf => ?_, fun hin P c hP => ?_⟩
  · have hle : s'.listThreshold ≤ countOf s'.keyListings k := (trustable_of_mem_trustedMasterKeys hk).1
    rw [hiff.2 hno k, if_neg hconf, Nat.add_zero, hc.threshold] at hle
    obtain ⟨P, c, hP, hpos⟩ := HashMap.exists_of_sumOver_pos (lt_of_lt_of_le (listThreshold_load hload) hle)
    split at hpos
    · rename_i hforce
      exact ⟨P, c, hP, count_pos_iff.1 hpos, hforce⟩
    · exact absurd hpos (lt_irrefl 0)
  · exact (h.cleared (cleared_load hload) hin P c hP).not_lingers t

def onePublisher : ValidatorList Nat := ⟨.init 0, .init 0, (∅ : HashMap Nat _).insert 1 {}, ∅, ∅, 1, none, []⟩

theorem load_onePublisher : load none [] [some 1] none (init (.init 0) (.init 0)) = some onePublisher := rfl

/-- The lists of publisher 1 name validator 7 and are over at time 100. -/
def oneList : Env Nat where
  signed _ _ _ := true
  deserializeManifest _ := some firstManifest
  verifyBlob _ _ _ := true
  parse _ := some ⟨some 1, some 100, none, some [⟨some 7, none⟩]⟩

/-- The state after the list came at time `now`. -/
def afterOneList (now : Nat) : ValidatorList Nat := (onePublisher.applyLists oneList now "" 1 [⟨"", "", none⟩]).1

theorem history_afterOneList (now : Nat) :
    ClockedHistory oneList onePublisher [(now, ⟨"", "", none⟩)] now (afterOneList now) :=
  .applyLists (.start now) le_rfl "" 1 [⟨"", "", none⟩]

/-- A list that comes in time is in force at time 99. -/
theorem only_lists_in_force_count_one :
    ∃ P c, ((afterOneList 10).updateTrusted oneList 99 99 [1]).publisherLists.lookup P = some c ∧ 7 ∈ c.current.list ∧
      99 < c.current.validUntil := by
  have horder : [1].Perm (afterOneList 10).publisherLists.keys := by decide +kernel
  obtain ⟨-, htrusted, hnone⟩ := only_lists_in_force_count load_onePublisher (history_afterOneList 10) horder 99
  refine htrusted (hnone ?_) 7 (by decide +kernel) (by simp [Configured])
  intro e he j l hj hl
  obtain rfl := mem_singleton.1 he
  obtain rfl := Option.some.inj hj
  obtain rfl : _ = l := Option.some.inj (Except.ok.inj hl)
  decide

/-- The list is over when it comes, at time 200, and its validator is trusted from then on. -/
theorem expired_list_is_trusted :
    load none [] [some 1] none (init (.init 0) (.init 0)) = some onePublisher ∧
    ClockedHistory oneList onePublisher [(200, ⟨"", "", none⟩)] 200 (afterOneList 200) ∧
    (onePublisher.applyLists oneList 200 "" 1 [⟨"", "", none⟩]).2.toOption.map (·.dispositions) = some [.expired] ∧
    [1].Perm (afterOneList 200).publisherLists.keys ∧ ¬ Configured (.init 0) none [] 7 ∧
    7 ∈ ((afterOneList 200).updateTrusted oneList 200 200 [1]).trustedMasterKeys ∧
    7 ∈ ((afterOneList 200).updateTrusted oneList 300 300 [1]).trustedMasterKeys ∧
    (((afterOneList 200).updateTrusted oneList 200 200 [1]).publisherLists.lookup 1).map
      (fun c => (c.status, c.current.list, c.current.validUntil)) = some (.expired, [7], 100) := by
  refine ⟨load_onePublisher, history_afterOneList 200, by decide +kernel, by decide +kernel, by simp [Configured],
    by decide +kernel, by decide +kernel, by decide +kernel⟩

end ValidatorList

end Rippled.Validators
