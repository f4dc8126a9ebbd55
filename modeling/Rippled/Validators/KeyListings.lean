import Rippled.Validators.ValidatorList
/-!
# How many publishers list a key

`keyListings_` is kept step by step, as lists come and go. In every state it is the number of times that the current
lists name a key, with the threshold on top for a key of the configuration (`Counted`). So it is the number of
publishers exactly when none of them names the key twice.
-/

namespace Rippled.Validators

open Lib Protocol List HashMap

variable {Key : Type} [LinearOrder Key]

/-! ## Counts -/

/-- The count of a key, where no entry is zero. -/
def countOf (kl : HashMap Key Nat) (k : Key) : Nat := (kl.lookup k).getD 0

theorem countOf_increment (kl : HashMap Key Nat) (k j : Key) :
    countOf (increment kl k) j = countOf kl j + if j = k then 1 else 0 := by
  unfold countOf increment
  rw [lookup_insert_eq]
  by_cases hj : j = k
  · rw [if_pos hj, if_pos hj, hj, Option.getD_some]
  · rw [if_neg hj, if_neg hj, Nat.add_zero]

theorem countOf_decrement (kl : HashMap Key Nat) (k j : Key) :
    countOf (decrement kl k) j = countOf kl j - if j = k then 1 else 0 := by
  unfold countOf decrement
  cases hk : kl.lookup k with
  | none =>
    by_cases hj : j = k
    · rw [if_pos hj, hj]
      simp [hk]
    · rw [if_neg hj, Nat.sub_zero]
  | some n =>
    dsimp only
    by_cases hj : j = k
    · subst hj
      rw [if_pos rfl, hk]
      split
      · rw [AList.lookup_erase, Option.getD_none, Option.getD_some]
        omega
      · rw [AList.lookup_insert, Option.getD_some, Option.getD_some]
    · rw [if_neg hj, Nat.sub_zero]
      split
      · rw [AList.lookup_erase_ne hj]
      · rw [AList.lookup_insert_ne hj]

/-- No key has an entry that is zero. -/
def NoZero (kl : HashMap Key Nat) : Prop := ∀ k, kl.lookup k ≠ some 0

variable {kl : HashMap Key Nat}

theorem NoZero.increment (h : NoZero kl) (k : Key) : NoZero (increment kl k) := by
  intro j
  unfold Validators.increment
  rw [lookup_insert_eq]
  split
  · simp
  · exact h j

/-- A count that would become zero is erased. -/
theorem NoZero.decrement (h : NoZero kl) (k : Key) : NoZero (decrement kl k) := by
  intro j
  unfold Validators.decrement
  cases hk : kl.lookup k with
  | none => exact h j
  | some n =>
    dsimp only
    split
    · rw [lookup_erase_eq]
      split
      · simp
      · exact h j
    · rename_i hn
      rw [lookup_insert_eq]
      split
      · simp only [ne_eq, Option.some.injEq]
        omega
      · exact h j

theorem count_cons_eq (k j : Key) (l : List Key) : (k :: l).count j = l.count j + if j = k then 1 else 0 := by
  rw [count_cons]
  simp only [beq_iff_eq]
  rw [if_congr eq_comm rfl rfl]

theorem countOf_foldl_decrement (l : List Key) (kl : HashMap Key Nat) (j : Key) :
    countOf (l.foldl decrement kl) j = countOf kl j - l.count j := by
  induction l generalizing kl with
  | nil => rfl
  | cons k l ih =>
    rw [foldl_cons, ih, countOf_decrement, count_cons_eq]
    omega

/-- The entry for a count: none for zero. -/
def entryOf (n : Nat) : Option Nat := if n = 0 then none else some n

/-- Without zeros, the counts say what the entries are. -/
theorem NoZero.lookup_eq (h : NoZero kl) (k : Key) (n : Nat) : kl.lookup k = entryOf n ↔ countOf kl k = n := by
  unfold countOf entryOf
  cases hk : kl.lookup k with
  | none =>
    rw [Option.getD_none]
    split <;> simp <;> omega
  | some m =>
    have hm : m ≠ 0 := fun h0 => h k (h0 ▸ hk)
    rw [Option.getD_some]
    split
    · simp
      omega
    · rw [Option.some.injEq]

namespace ValidatorList

variable {env : Env Key} {s₀ s s' : ValidatorList Key}

/-- What the loops over lists and manifests leave alone. -/
structure SameLists (s s' : ValidatorList Key) : Prop where
  lists : s'.publisherLists = s.publisherLists
  publishers : s'.publisherManifests = s.publisherManifests
  threshold : s'.listThreshold = s.listThreshold
  pubKey : s'.localPubKey = s.localPubKey
  locals : s'.localPublisherList = s.localPublisherList

variable {motive : ValidatorList Key → Prop}

section
variable (h : motive s) (hadded : ∀ s k, motive s → motive (walkLists.added s k))
  (hdropped : ∀ s k, motive s → motive { s with keyListings := decrement s.keyListings k })
include h hadded hdropped

/-- What incrementing and decrementing keep, the walk over two sorted lists keeps. -/
theorem walkLists_keeps (fuel : Nat) (iNew iOld : List Key) : motive (walkLists fuel iNew iOld s) := by
  induction fuel generalizing iNew iOld s with
  | zero => exact h
  | succ fuel ih =>
    unfold walkLists
    split
    · exact h
    · exact ih (hadded _ _ h) _ _
    · exact ih (hdropped _ _ h) _ _
    · split
      · exact ih (hadded _ _ h) _ _
      · split
        · exact ih (hdropped _ _ h) _ _
        · exact ih h _ _

/-- What the walk and the manifests keep, the update of a publisher keeps. -/
theorem updatePublisherList_keeps {current : PublisherList Key}
    (hmanifests : ∀ s, ∀ text ∈ current.manifests, ∀ m, env.deserializeManifest text = some m → motive s →
      motive { s with validatorManifests := (s.validatorManifests.applyManifest env.signed m .uncapped).2 })
    (oldList : List Key) : motive (s.updatePublisherList env current oldList) := by
  refine foldlRecOn _ _ (walkLists_keeps h hadded hdropped _ _ _) fun s hs text htext => ?_
  unfold applyListed
  split
  · exact hs
  · rename_i m hm
    split
    · exact hmanifests s text htext m hm hs
    · exact hs

end

theorem updatePublisherList_sameLists (env : Env Key) (s : ValidatorList Key)
    (current : PublisherList Key) (oldList : List Key) :
    SameLists s (s.updatePublisherList env current oldList) := by
  refine updatePublisherList_keeps ⟨rfl, rfl, rfl, rfl, rfl⟩ (fun _ _ h => ?_) (fun _ _ h => ?_)
    (fun _ _ _ _ _ h => ?_) oldList <;>
    exact ⟨h.lists, h.publishers, h.threshold, h.pubKey, h.locals⟩

theorem foldl_applyListed_keyListings (env : Env Key) (texts : List String) (s : ValidatorList Key) :
    (texts.foldl (applyListed env) s).keyListings = s.keyListings := by
  induction texts generalizing s with
  | nil => rfl
  | cons text texts ih =>
    rw [foldl_cons, ih]
    unfold applyListed
    split
    · rfl
    · split <;> rfl

/-! ## A walk over two lists -/

/-- The walk counts the new list in and the old one out. -/
theorem walkLists_countOf {fuel : Nat} {iNew iOld : List Key} (hfuel : iNew.length + iOld.length ≤ fuel)
    (hold : ∀ j, iOld.count j ≤ countOf s.keyListings j) (j : Key) :
    countOf (walkLists fuel iNew iOld s).keyListings j + iOld.count j = countOf s.keyListings j + iNew.count j := by
  induction fuel generalizing iNew iOld s with
  | zero =>
    obtain ⟨hnew, hold'⟩ : iNew.length = 0 ∧ iOld.length = 0 := by omega
    rw [length_eq_zero_iff.1 hnew, length_eq_zero_iff.1 hold']
    rfl
  | succ fuel ih =>
    have hin : ∀ k, countOf (walkLists.added s k).keyListings j = countOf s.keyListings j + if j = k then 1 else 0 :=
      fun k => countOf_increment s.keyListings k j
    have hout : ∀ k iNew iOld, iNew.length + iOld.length ≤ fuel → (∀ j, (k :: iOld).count j ≤ countOf s.keyListings j) →
        countOf (walkLists fuel iNew iOld { s with keyListings := decrement s.keyListings k }).keyListings j +
          (k :: iOld).count j = countOf s.keyListings j + iNew.count j := by
      intro k iNew iOld hfuel hold
      have hdec := countOf_decrement s.keyListings k
      have h := @ih { s with keyListings := decrement s.keyListings k } iNew iOld hfuel (fun i => by
        have hi := hold i
        rw [count_cons_eq] at hi
        dsimp only
        rw [hdec]
        omega)
      have hj := hold j
      dsimp only at h
      rw [hdec] at h
      rw [count_cons_eq] at hj ⊢
      omega
    unfold walkLists
    match iNew, iOld with
    | [], [] => rfl
    | k :: iNew, [] =>
      have h := @ih (walkLists.added s k) iNew [] (by simpa using hfuel) (fun i => Nat.zero_le _)
      dsimp only
      rw [count_cons_eq, h, hin]
      omega
    | [], k :: iOld => exact hout k [] iOld (by simpa using hfuel) hold
    | k :: iNew, k' :: iOld =>
      dsimp only
      have hlen : iNew.length + iOld.length + 1 ≤ fuel := by
        simp only [length_cons] at hfuel
        omega
      split
      · have h := @ih (walkLists.added s k) iNew (k' :: iOld) (by simp only [length_cons]; omega) (fun i => by
          have hk : countOf s.keyListings i ≤ countOf (walkLists.added s k).keyListings i := by
            change _ ≤ countOf (increment s.keyListings k) i
            rw [countOf_increment]
            omega
          exact (hold i).trans hk)
        rw [h, hin, count_cons_eq k]
        omega
      · split
        · exact hout k' (k :: iNew) iOld (by simp only [length_cons]; omega) hold
        · -- neither key is less: both lists have it
          have heq : k = k' := le_antisymm (not_lt.1 ‹_›) (not_lt.1 ‹_›)
          have h := @ih s iNew iOld (by omega) (fun i => le_trans (count_le_count_cons) (hold i))
          rw [heq, count_cons_eq, count_cons_eq]
          omega

/-! ## The invariant -/

def isLocal (s : ValidatorList Key) (k : Key) : Prop := s.localPubKey = some k ∨ k ∈ s.localPublisherList

instance (s : ValidatorList Key) (k : Key) : Decidable (s.isLocal k) := inferInstanceAs (Decidable (_ ∨ _))

/-- How often the current lists name a key. -/
def namings (s : ValidatorList Key) (k : Key) : Nat := HashMap.sumOver
    (fun _ c => c.current.list.count k) s.publisherLists

/-- The counts in a state `s`, for the configuration that was loaded in `s₀`. -/
structure Counted (s₀ s : ValidatorList Key) : Prop where
  threshold : s.listThreshold = s₀.listThreshold
  pubKey : s.localPubKey = s₀.localPubKey
  locals : s.localPublisherList = s₀.localPublisherList
  count : ∀ k, countOf s.keyListings k = s.namings k + if s₀.isLocal k then s₀.listThreshold else 0
  noZero : NoZero s.keyListings

/-- A new current list changes the namings by what it names. -/
theorem namings_setCollection (s : ValidatorList Key) (pubKey : Key) (c : PublisherListCollection Key) (k : Key) :
    (s.setCollection pubKey c).namings k + ((s.publisherLists.lookup pubKey).getD {}).current.list.count k =
      s.namings k + c.current.list.count k := by
  have h := sumOver_insert (fun _ c => c.current.list.count k) s.publisherLists pubKey c
  unfold namings setCollection
  rw [← h]
  cases s.publisherLists.lookup pubKey <;> rfl

variable {c : PublisherListCollection Key} {pubKey : Key}

theorem count_le_namings (h : s.publisherLists.lookup pubKey = some c) (k : Key) :
    c.current.list.count k ≤ s.namings k := by
  unfold namings
  rw [sumOver_of_lookup _ h]
  exact Nat.le_add_right _ _

section
variable (h : Counted s₀ s)
include h

/-- A new current list, with the counts moved by the difference. -/
theorem Counted.replace (hs : SameLists (s.setCollection pubKey c) s')
    (hcount : ∀ k, countOf s'.keyListings k + ((s.publisherLists.lookup pubKey).getD {}).current.list.count k =
      countOf s.keyListings k + c.current.list.count k)
    (hzero : NoZero s'.keyListings) : Counted s₀ s' := by
  refine ⟨hs.threshold.trans h.threshold, hs.pubKey.trans h.pubKey, hs.locals.trans h.locals, fun k => ?_, hzero⟩
  have hnam := s.namings_setCollection pubKey c k
  have hnam' : s'.namings k = (s.setCollection pubKey c).namings k := by
    unfold namings
    rw [hs.lists]
  have hk := hcount k
  have hold := h.count k
  omega

/-- The pending lists do not count. -/
theorem Counted.setCollection (hlist : c.current.list = ((s.publisherLists.lookup pubKey).getD {}).current.list) :
    Counted s₀ (s.setCollection pubKey c) :=
  h.replace ⟨rfl, rfl, rfl, rfl, rfl⟩ (fun k => by rw [hlist]; rfl) h.noZero

/-- A list that is removed takes its counts with it. -/
theorem Counted.removePublisherList (pubKey : Key) (reason : PublisherStatus) :
    Counted s₀ (s.removePublisherList pubKey reason) := by
  unfold ValidatorList.removePublisherList
  cases hc : s.publisherLists.lookup pubKey with
  | none => exact h
  | some c =>
    refine h.replace (c := { c with status := reason, current := { c.current with list := [] } })
      ⟨rfl, rfl, rfl, rfl, rfl⟩
      (fun k => ?_) (foldlRecOn _ _ h.noZero fun _ hz k _ => hz.decrement k)
    have hle := count_le_namings hc k
    have hcount := h.count k
    dsimp only
    rw [countOf_foldl_decrement, hc, Option.getD_some, count_nil]
    omega

/-- The two lists are walked over, and the counts follow. -/
theorem Counted.updatePublisherList (env : Env Key) {oldList : List Key}
    (hold : oldList = ((s.publisherLists.lookup pubKey).getD {}).current.list) :
    Counted s₀ ((s.setCollection pubKey c).updatePublisherList env c.current oldList) := by
  subst hold
  refine h.replace (updatePublisherList_sameLists _ _ _ _) (fun k => ?_) ?_
  · unfold ValidatorList.updatePublisherList
    rw [foldl_applyListed_keyListings]
    refine walkLists_countOf le_rfl (fun j => ?_) k
    have hcount := h.count j
    change _ ≤ countOf s.keyListings j
    cases hc : s.publisherLists.lookup pubKey with
    | none => exact Nat.zero_le _
    | some old =>
      have hle := count_le_namings hc j
      rw [Option.getD_some]
      omega
  · unfold ValidatorList.updatePublisherList
    rw [foldl_applyListed_keyListings]
    refine walkLists_keeps (motive := fun s => NoZero s.keyListings) ?_ (fun _ _ hz => hz.increment _)
      (fun _ _ hz => hz.decrement _) _ _ _
    exact h.noZero

theorem Counted.of_eq (hlists : s'.publisherLists = s.publisherLists) (hkl : s'.keyListings = s.keyListings)
    (hT : s'.listThreshold = s.listThreshold) (hpub : s'.localPubKey = s.localPubKey)
    (hloc : s'.localPublisherList = s.localPublisherList) : Counted s₀ s' := by
  refine ⟨hT.trans h.threshold, hpub.trans h.pubKey, hloc.trans h.locals, fun k => ?_, hkl ▸ h.noZero⟩
  rw [hkl, h.count k]
  unfold namings
  rw [hlists]

end

/-! ## What the calls keep

One rule for each call, for any property of the lists: it is enough to look at what a call stores. -/

section Keeps

variable {env : Env Key} {now : Nat} {Inv : ValidatorList Key → Prop}

/-- `verify` changes the state by the manifest only. -/
theorem verify_fst (env : Env Key) (now : Nat) (s : ValidatorList Key) (m : Manifest Key) (info : ValidatorBlobInfo) :
    (s.verify env now m info).1 = (s.verifyManifest env m).1 := by
  unfold verify
  cases s.verifyManifest env m with
  | mk s₁ key =>
    dsimp only
    split
    · rfl
    · split <;> rfl

variable {info : ValidatorBlobInfo}

/-- An invariant of `applyVerified`, from its two writes. -/
theorem applyVerified_keeps {m : Manifest Key} (h : Inv s) (hmanifest : Inv (s.verifyManifest env m).1)
    (hstore : ∀ result l, (s.verify env now m info).2 = .ok (result, some l) →
      Inv ((s.verifyManifest env m).1.storeList env m.masterKey l result).1) :
    Inv (s.applyVerified env now m info).1 := by
  rw [← verify_fst env now s m info] at hmanifest hstore
  unfold applyVerified
  split
  · exact h
  · cases hres : s.verify env now m info with
    | mk s₁ r =>
      rw [hres] at hmanifest hstore
      cases r with
      | error e => exact hmanifest
      | ok r =>
        obtain ⟨result, l⟩ := r
        dsimp only
        split
        · exact hmanifest
        · cases l with
          | none => exact hmanifest
          | some l => exact hstore result l rfl

theorem applyList_keeps {manifest : String} (h : Inv s) (hverified : ∀ m, Inv (s.applyVerified env now m info).1) :
    Inv (s.applyList env now manifest info).1 := by
  unfold applyList
  dsimp only
  split
  · exact h
  · split
    · exact h
    · exact hverified _

theorem finishLists_keeps (h : Inv s) (hclean : ∀ P c, s.publisherLists.lookup P = some c →
    Inv (s.setCollection P c.cleanUp)) (result : PublisherListStats Key) : Inv (s.finishLists result).1 := by
  unfold finishLists
  split
  · exact h
  · split
    · exact h
    · rename_i c hc
      exact hclean _ c hc

/-- An invariant of `applyLists`, from one list and from the clean-up. -/
theorem applyLists_keeps {manifest : String} {version : Nat} {blobs : List ValidatorBlobInfo} (h : Inv s)
    (hlist : ∀ s, ∀ info ∈ blobs, Inv s → Inv (s.applyList env now manifest info).1)
    (hclean : ∀ s P c, Inv s → s.publisherLists.lookup P = some c → Inv (s.setCollection P c.cleanUp)) :
    Inv (s.applyLists env now manifest version blobs).1 := by
  have hblobs : ∀ result, Inv (s.applyBlobs env now manifest blobs result).1 := by
    induction blobs generalizing s with
    | nil => exact fun _ => h
    | cons info blobs ih =>
      intro result
      have hl := hlist s info mem_cons_self h
      unfold applyBlobs
      cases hres : s.applyList env now manifest info with
      | mk s₁ r =>
        rw [hres] at hl
        cases r with
        | error e => exact hl
        | ok stats => exact ih hl (fun s info' hinfo => hlist s info' (mem_cons_of_mem info hinfo)) _
  unfold applyLists
  split
  · exact h
  · have hb := hblobs {}
    cases hres : s.applyBlobs env now manifest blobs {} with
    | mk s₁ r =>
      rw [hres] at hb
      cases r with
      | error e => exact hb
      | ok result => exact finishLists_keeps hb (fun P c hc => hclean s₁ P c hb hc) result

/-- An invariant of the loop of `updateTrusted`. -/
theorem walk_keeps {t : Nat} (hrotate : ∀ s P, Inv s → Inv (s.rotate env t P))
    (hexpire : ∀ s P, Inv s → Inv (s.expire t P))
    (h : Inv s) (order : List Key) : Inv (order.foldl (fun s P => (s.rotate env t P).expire t P) s) :=
  foldlRecOn _ _ h fun s hs P _ => hexpire _ P (hrotate s P hs)

end Keeps

/-! ## Every call keeps the counts -/

section
variable (h : Counted s₀ s)
include h

theorem Counted.verifyManifest (env : Env Key) (m : Manifest Key) : Counted s₀ (s.verifyManifest env m).1 := by
  unfold ValidatorList.verifyManifest
  dsimp only
  have h' : Counted s₀ { s with publisherManifests := (s.publisherManifests.applyManifest env.signed m .uncapped).2 } :=
    h.of_eq rfl rfl rfl rfl rfl
  split
  · have hr := h'.removePublisherList m.masterKey .revoked
    cases hc : (ValidatorList.removePublisherList _ m.masterKey .revoked).publisherLists.lookup m.masterKey with
    | none => exact hr
    | some c => exact hr.setCollection (by rw [hc, Option.getD_some])
  · exact h'

theorem Counted.storeList (env : Env Key) (pubKey : Key) (l : ParsedList Key) (result : ListDisposition) :
    Counted s₀ (s.storeList env pubKey l result).1 := by
  unfold ValidatorList.storeList
  dsimp only
  split
  · exact h.updatePublisherList env rfl
  · rename_i hpend
    refine h.setCollection ?_
    unfold PublisherListCollection.store
    rw [if_neg hpend]

/-- One list keeps the counts. -/
theorem Counted.applyList (env : Env Key) (now : Nat) (manifest : String) (info : ValidatorBlobInfo) :
    Counted s₀ (s.applyList env now manifest info).1 :=
  applyList_keeps h fun m => applyVerified_keeps h (h.verifyManifest env m) fun result l _ =>
    (h.verifyManifest env m).storeList env m.masterKey l result

theorem Counted.applyLists (env : Env Key) (now : Nat) (manifest : String) (version : Nat)
    (blobs : List ValidatorBlobInfo) : Counted s₀ (s.applyLists env now manifest version blobs).1 :=
  applyLists_keeps h (fun _ info _ hs => hs.applyList env now manifest info)
    fun _ _ _ hs hc => hs.setCollection (by rw [hc]; rfl)

theorem Counted.rotate (env : Env Key) (closeTime : Nat) (pubKey : Key) :
    Counted s₀ (s.rotate env closeTime pubKey) := by
  unfold ValidatorList.rotate
  cases hc : s.publisherLists.lookup pubKey with
  | none => exact h
  | some c =>
    dsimp only
    split
    · exact h
    · exact h.updatePublisherList env (by rw [hc, Option.getD_some])

theorem Counted.expire (closeTime : Nat) (pubKey : Key) : Counted s₀ (s.expire closeTime pubKey) := by
  unfold ValidatorList.expire
  split
  · exact h
  · split
    · exact h.removePublisherList pubKey .expired
    · exact h

/-- A round of `updateTrusted` keeps the counts. -/
theorem Counted.updateTrusted (env : Env Key) (now closeTime : Nat) (order : List Key) :
    Counted s₀ (s.updateTrusted env now closeTime order) :=
  (walk_keeps (fun _ P hs => hs.rotate env _ P) (fun _ P hs => hs.expire _ P) h order).of_eq rfl rfl rfl rfl rfl

end

/-! ## The configuration -/

/-- The keys that `load` counts by themselves: the local master key, and the configured ones without the local signing
key. -/
def Configured (vm : ManifestCache Key) (localSigningKey : Option Key)
    (configKeys : List (Option Key)) (k : Key) : Prop :=
  localSigningKey.map vm.getMasterKey = some k ∨ (some k ∈ configKeys ∧ localSigningKey ≠ some k)

instance (vm : ManifestCache Key) (localSigningKey : Option Key) (configKeys : List (Option Key)) (k : Key) :
    Decidable (Configured vm localSigningKey configKeys k) := inferInstanceAs (Decidable (_ ∨ _))

variable {keys : List (Option Key)}

theorem loadPublishers_keeps (h : motive s)
    (hset : ∀ s id status, motive s → motive (s.setCollection id { status := status }))
    (hrun : loadPublishers keys s = some s') : motive s' := by
  induction keys generalizing s with
  | nil => exact Option.some.inj hrun ▸ h
  | cons key keys ih =>
    cases key with
    | none => cases hrun
    | some id =>
      rw [loadPublishers] at hrun
      split at hrun
      · exact ih h hrun
      · exact ih (hset s id _ h) hrun

theorem loadKeys_keeps (h : motive s)
    (hadd : ∀ s kl locals, motive s → motive { s with keyListings := kl, localPublisherList := locals })
    {localSigningKey : Option Key} (hrun : loadKeys localSigningKey keys s = some s') : motive s' := by
  induction keys generalizing s with
  | nil => exact Option.some.inj hrun ▸ h
  | cons key keys ih =>
    cases key with
    | none => cases hrun
    | some id =>
      rw [loadKeys] at hrun
      split at hrun
      · exact ih h hrun
      · split at hrun
        · exact ih h hrun
        · exact ih (hadd s _ _ h) hrun

/-- The publishers start without lists, and nothing else is there yet. -/
structure Unlisted (vm : ManifestCache Key) (s : ValidatorList Key) : Prop where
  empty : ∀ P c, s.publisherLists.lookup P = some c → c.current.list = []
  keyListings : s.keyListings = ∅
  pubKey : s.localPubKey = none
  locals : s.localPublisherList = []
  manifests : s.validatorManifests = vm

variable {vm pm : ManifestCache Key}

/-- Loading the publishers gives them no lists. -/
theorem unlisted_loadPublishers (h : loadPublishers keys (init vm pm) = some s) : Unlisted vm s := by
  have hinit : Unlisted vm (init vm pm) := ⟨fun P c hc => by simp [init] at hc, rfl, rfl, rfl, rfl⟩
  refine loadPublishers_keeps hinit (fun s id status hs => ⟨fun P c hc => ?_, hs.2, hs.3, hs.4, hs.5⟩) h
  unfold setCollection at hc
  rw [lookup_insert_eq] at hc
  split at hc
  · rw [← Option.some.inj hc]
  · exact hs.empty P c hc

variable {localSigningKey : Option Key}

/-- The loop over the configured keys gives the threshold to those that it adds. -/
theorem loadKeys_spec (h : loadKeys localSigningKey keys s = some s')
    (hkl : ∀ k, s.keyListings.lookup k = if s.isLocal k then some s.listThreshold else none) :
    (∀ k, s'.keyListings.lookup k = if s'.isLocal k then some s'.listThreshold else none) ∧
      (∀ k, s'.isLocal k ↔ s.isLocal k ∨ (some k ∈ keys ∧ localSigningKey ≠ some k)) ∧
      s'.publisherLists = s.publisherLists := by
  induction keys generalizing s with
  | nil =>
    obtain rfl := Option.some.inj h
    exact ⟨hkl, fun k => by simp, rfl⟩
  | cons key keys ih =>
    cases key with
    | none => cases h
    | some id =>
      rw [loadKeys] at h
      -- a key that is skipped is there already, or is the local signing key
      have hsame : (localSigningKey ≠ some id → s.isLocal id) → ∀ k, s.isLocal k ∨
          (some k ∈ keys ∧ localSigningKey ≠ some k) ↔
          s.isLocal k ∨ (some k ∈ some id :: keys ∧ localSigningKey ≠ some k) := by
        intro hid k
        rw [mem_cons, or_and_right]
        constructor
        · rintro (hl | hk)
          · exact .inl hl
          · exact .inr (.inr hk)
        · rintro (hl | ⟨hk, hne⟩ | hk)
          · exact .inl hl
          · cases hk
            exact .inl (hid hne)
          · exact .inr hk
      by_cases hskip : some id = s.localPubKey ∨ some id = localSigningKey
      · rw [if_pos hskip] at h
        obtain ⟨h1, h2, h3⟩ := ih h hkl
        refine ⟨h1, fun k => (h2 k).trans (hsame (fun hne => .inl ?_) k), h3⟩
        exact (hskip.resolve_right fun hsign => hne hsign.symm).symm
      · rw [if_neg hskip] at h
        have hnot : localSigningKey ≠ some id := fun he => hskip (.inr he.symm)
        by_cases hdup : (s.keyListings.lookup id).isSome = true
        · rw [if_pos hdup] at h
          obtain ⟨h1, h2, h3⟩ := ih h hkl
          have hid : s.isLocal id := by
            rw [hkl] at hdup
            by_contra hn
            rw [if_neg hn] at hdup
            cases hdup
          exact ⟨h1, fun k => (h2 k).trans (hsame (fun _ => hid) k), h3⟩
        · rw [if_neg hdup] at h
          have hlocal : ∀ k, ValidatorList.isLocal { s with
              keyListings := s.keyListings.insert id s.listThreshold
              localPublisherList := s.localPublisherList ++ [id] } k ↔ s.isLocal k ∨ k = id := by
            intro k
            unfold isLocal
            simp [or_assoc]
          obtain ⟨h1, h2, h3⟩ := ih h (fun k => by
            rw [lookup_insert_eq, if_congr (hlocal k) rfl rfl]
            by_cases hk : k = id
            · rw [if_pos hk, if_pos (.inr hk)]
            · rw [if_neg hk, hkl]
              exact if_congr (by simp [hk]) rfl rfl)
          refine ⟨h1, fun k => (h2 k).trans ?_, h3⟩
          rw [hlocal, mem_cons, or_and_right, or_assoc]
          refine or_congr_right (or_congr_left ?_)
          rw [Option.some.injEq]
          exact (and_iff_left_of_imp fun hk => hk ▸ hnot).symm

theorem loadKeys_listThreshold (h : loadKeys localSigningKey keys s = some s') : s'.listThreshold = s.listThreshold :=
  loadKeys_keeps (motive := fun s' => s'.listThreshold = s.listThreshold) rfl (fun _ _ _ h => h) h

/-- The own key counts as often as the threshold asks for. -/
theorem loadLocal_spec (hkl : s.keyListings = ∅) (hpub : s.localPubKey = none) (hloc : s.localPublisherList = [])
    (localSigningKey : Option Key) :
    (∀ k, (loadLocal s localSigningKey).isLocal k ↔ localSigningKey.map s.validatorManifests.getMasterKey = some k) ∧
      ∀ k, (loadLocal s localSigningKey).keyListings.lookup k =
        if (loadLocal s localSigningKey).isLocal k then some s.listThreshold else none := by
  cases localSigningKey with
  | none =>
    have hnot : ∀ k, ¬ (loadLocal s none).isLocal k := fun k => by simp [loadLocal, isLocal, hpub, hloc]
    refine ⟨fun k => by simp [hnot], fun k => ?_⟩
    rw [if_neg (hnot k), loadLocal, hkl]
    rfl
  | some key =>
    have hiff : ∀ k, (loadLocal s (some key)).isLocal k ↔ s.validatorManifests.getMasterKey key = k := fun k => by
      simp [loadLocal, isLocal, hloc]
    refine ⟨fun k => by rw [hiff, Option.map_some, Option.some.injEq], fun k => ?_⟩
    rw [if_congr (hiff k) rfl rfl, loadLocal, lookup_emplace, hkl, if_congr (eq_comm : k = _ ↔ _) rfl rfl]
    rfl

theorem loadLocal_same (s : ValidatorList Key) (localSigningKey : Option Key) :
    (loadLocal s localSigningKey).publisherLists = s.publisherLists ∧
      (loadLocal s localSigningKey).listThreshold = s.listThreshold := by
  cases localSigningKey <;> exact ⟨rfl, rfl⟩

variable {listThreshold : Option Nat}

/-- The threshold is never zero. -/
theorem threshold_pos {publishers n : Nat} (h : threshold listThreshold publishers = some n) : 0 < n := by
  unfold threshold at h
  cases listThreshold with
  | none =>
    obtain rfl := Option.some.inj h
    split <;> omega
  | some m =>
    dsimp only at h
    split at h
    · rename_i hm
      obtain rfl := Option.some.inj h
      exact hm.1
    · cases h

variable {publisherKeys configKeys : List (Option Key)}

section
variable (h : load localSigningKey configKeys publisherKeys listThreshold (init vm pm) = some s)
include h

/-- The counts are right after `load`, and the local keys are the configured ones. -/
theorem counted_load : Counted s s ∧ ∀ k, s.isLocal k ↔ Configured vm localSigningKey configKeys k := by
  unfold load at h
  obtain ⟨s₁, h₁, h⟩ := Option.bind_eq_some_iff.1 h
  obtain ⟨n, hn, h⟩ := Option.bind_eq_some_iff.1 h
  obtain ⟨hempty, hkl, hpub, hloc, hvm⟩ := unlisted_loadPublishers h₁
  obtain ⟨hlocal, hlisted⟩ := @loadLocal_spec Key _ { s₁ with listThreshold := n } hkl hpub hloc localSigningKey
  obtain ⟨hlists, hT⟩ := loadLocal_same { s₁ with listThreshold := n } localSigningKey
  obtain ⟨h1, h2, h3⟩ := loadKeys_spec h (by rw [hT]; exact hlisted)
  have hTs : s.listThreshold = n := (loadKeys_listThreshold h).trans hT
  refine ⟨⟨rfl, rfl, rfl, fun k => ?_, fun k hk => ?_⟩, fun k => (h2 k).trans (or_congr_left ?_)⟩
  · have hzero : s.namings k = 0 := by
      refine sumOver_eq_zero _ fun P c hc => ?_
      rw [h3, hlists] at hc
      rw [hempty P c hc]
      rfl
    unfold countOf
    rw [h1, hzero, Nat.zero_add]
    split <;> rfl
  · rw [h1] at hk
    split at hk
    · rw [hTs] at hk
      exact absurd (Option.some.inj hk) (threshold_pos hn).ne'
    · cases hk
  · rw [hlocal k]
    dsimp only
    rw [hvm]

theorem listThreshold_load : 0 < s.listThreshold := by
  unfold load at h
  obtain ⟨s₁, -, h⟩ := Option.bind_eq_some_iff.1 h
  obtain ⟨n, hn, h⟩ := Option.bind_eq_some_iff.1 h
  have hT : s.listThreshold = n := (loadKeys_listThreshold h).trans (loadLocal_same _ localSigningKey).2
  rw [hT]
  exact threshold_pos hn

end

/-! ## Histories -/

/-- What happens after loading. Other parts of the server apply manifests of validators in between. -/
inductive History (env : Env Key) (s₀ : ValidatorList Key) : ValidatorList Key → Prop where
  | start : History env s₀ s₀
  | applyLists {s : ValidatorList Key} (h : History env s₀ s) (now : Nat) (manifest : String) (version : Nat)
      (blobs : List ValidatorBlobInfo) : History env s₀ (s.applyLists env now manifest version blobs).1
  | updateTrusted {s : ValidatorList Key} (h : History env s₀ s) (now closeTime : Nat) (order : List Key)
      (horder : order.Perm s.publisherLists.keys) : History env s₀ (s.updateTrusted env now closeTime order)
  | manifests {s : ValidatorList Key} (h : History env s₀ s) (vm : ManifestCache Key) :
      History env s₀ { s with validatorManifests := vm }

/-- The counts are right along every history. -/
theorem History.counted (h : History env s₀ s) (h₀ : Counted s₀ s₀) : Counted s₀ s := by
  induction h with
  | start => exact h₀
  | applyLists _ now manifest version blobs ih => exact ih.applyLists env now manifest version blobs
  | updateTrusted _ now closeTime order _ ih => exact ih.updateTrusted env now closeTime order
  | manifests _ vm ih => exact ih.of_eq rfl rfl rfl rfl rfl

/-- The publishers whose current list has a key. -/
def publishersOf (s : ValidatorList Key) (k : Key) : Set Key :=
  {P | ∃ c, s.publisherLists.lookup P = some c ∧ k ∈ c.current.list}

/-- Whether no current list names a key twice. -/
def NamedOnce (s : ValidatorList Key) (k : Key) : Prop :=
  ∀ P c, s.publisherLists.lookup P = some c → c.current.list.count k ≤ 1

/-- Namings count publishers exactly if no list names the key twice. -/
theorem namings_eq_ncard (s : ValidatorList Key) (k : Key) :
    s.namings k = (s.publishersOf k).ncard ↔ s.NamedOnce k := by
  have hset : s.publishersOf k = {P | ∃ c, s.publisherLists.lookup P = some c ∧ 0 < c.current.list.count k} := by
    unfold publishersOf
    simp only [count_pos_iff]
  rw [hset]
  exact sumOver_eq_ncard (fun _ c => c.current.list.count k) s.publisherLists

/-- A trusted key is listed often enough and not revoked. -/
theorem trustable_of_mem_trustedMasterKeys {k : Key} (h : k ∈ s.updateTrustedKeys.trustedMasterKeys) :
    s.listThreshold ≤ countOf s.keyListings k ∧ s.validatorManifests.revoked k = false := by
  have ht : s.trustable k = true := by
    rcases Finset.mem_union.1 h with h | h <;> exact (Finset.mem_filter.1 h).2
  unfold trustable at ht
  rw [Bool.and_eq_true, Option.any_eq_true] at ht
  obtain ⟨⟨n, hn, hle⟩, hrev⟩ := ht
  refine ⟨?_, by simpa using hrev⟩
  unfold countOf
  rw [hn, Option.getD_some]
  exact of_decide_eq_true hle

/-- After loading, whatever lists come and go: the entry of a key is the number of publishers that list it, with the
threshold for a key of the configuration, exactly if no current list names the key twice. Then a key that is trusted
without being configured is on the lists of as many publishers as the threshold asks for, and is not revoked. -/
theorem keyListings_of_history {vm pm : ManifestCache Key} {localSigningKey : Option Key}
    {configKeys publisherKeys : List (Option Key)} {listThreshold : Option Nat}
    (hload : load localSigningKey configKeys publisherKeys listThreshold (init vm pm) = some s₀)
    (h : History env s₀ s) (k : Key) : (s.keyListings.lookup k =
      entryOf ((s.publishersOf k).ncard + if Configured vm localSigningKey configKeys k then s₀.listThreshold else 0) ↔
        s.NamedOnce k) ∧
    ∀ now closeTime order, order.Perm s.publisherLists.keys →
      let s' := s.updateTrusted env now closeTime order
      k ∈ s'.trustedMasterKeys → ¬ Configured vm localSigningKey configKeys k → s'.NamedOnce k →
        s₀.listThreshold ≤ (s'.publishersOf k).ncard ∧ s'.validatorManifests.revoked k = false := by
  obtain ⟨h₀, hlocal⟩ := counted_load hload
  have hc := h.counted h₀
  refine ⟨?_, fun now closeTime order horder => ?_⟩
  · rw [hc.noZero.lookup_eq, hc.count, ← namings_eq_ncard, if_congr (hlocal k) rfl rfl]
    omega
  · intro s' hmem hconf honce
    have hc' := (History.updateTrusted h now closeTime order horder).counted h₀
    obtain ⟨hle, hrev⟩ := trustable_of_mem_trustedMasterKeys hmem
    refine ⟨?_, hrev⟩
    have hcount := hc'.count k
    rw [if_neg ((hlocal k).not.2 hconf), Nat.add_zero, (namings_eq_ncard s' k).2 honce] at hcount
    have hT := hc'.threshold
    exact hT ▸ hcount ▸ hle

/-- A configuration with two publishers, that both have to list a validator. -/
def twoPublishers : ValidatorList Nat := ⟨.init 0, .init 0,
    (∅ : HashMap Nat _).insert 1 {} |>.insert 2 {}, ∅, ∅, 2, none, []⟩

theorem load_twoPublishers : load none [] [some 1, some 2] (some 2)
    (init (.init 0) (.init 0)) = some twoPublishers := rfl

def firstManifest : Manifest Nat := ⟨[], 1, some 11, 1, [], by decide, by decide⟩

/-- Publishers 1 and 2 (whose manifest is "2") with lists that name validator 7. -/
def namedByBoth : Env Nat where
  signed _ _ _ := true
  deserializeManifest text := if text = "2" then some ⟨[], 2, some 12, 1, [], by decide, by decide⟩
    else some firstManifest
  verifyBlob _ _ _ := true
  parse _ := some ⟨some 1, some 100, none, some [⟨some 7, none⟩, ⟨some 8, none⟩]⟩

/-- The state after both lists came in. -/
def afterBoth : ValidatorList Nat :=
  ((twoPublishers.applyLists namedByBoth 10 "" 1 [⟨"", "", none⟩]).1.applyLists namedByBoth 11 "2" 1 [⟨"", "", none⟩]).1

theorem keyListings_of_history_both : History namedByBoth twoPublishers afterBoth ∧
    afterBoth.keyListings.lookup 7 = entryOf (afterBoth.publishersOf 7).ncard ∧
    7 ∈ (afterBoth.updateTrusted namedByBoth 12 12 [1, 2]).trustedMasterKeys ∧
    2 ≤ ((afterBoth.updateTrusted namedByBoth 12 12 [1, 2]).publishersOf 7).ncard := by
  have hhistory : History namedByBoth twoPublishers afterBoth := .applyLists (.applyLists .start 10 "" 1 _) 11 "2" 1 _
  have honce : ∀ {s : ValidatorList Nat}, (∀ e ∈ s.publisherLists.entries, e.2.current.list.count 7 ≤ 1) →
      s.NamedOnce 7 :=
    fun hs P c hc => hs ⟨P, c⟩ (AList.mem_lookup_iff.1 hc)
  have hconf : ¬ Configured (.init 0) none [] 7 := by simp [Configured]
  have htrusted : 7 ∈ (afterBoth.updateTrusted namedByBoth 12 12 [1, 2]).trustedMasterKeys := by decide +kernel
  obtain ⟨hcount, hthreshold⟩ := keyListings_of_history load_twoPublishers hhistory 7
  rw [if_neg hconf, Nat.add_zero] at hcount
  exact ⟨hhistory, hcount.2 (honce (by decide +kernel)), htrusted,
    (hthreshold 12 12 [1, 2] (by decide +kernel) htrusted hconf (honce (by decide +kernel))).1⟩

/-- A list of publisher 1 that names validator 7 twice. -/
def namedTwice : Env Nat where
  signed _ _ _ := true
  deserializeManifest _ := some firstManifest
  verifyBlob _ _ _ := true
  parse _ := some ⟨some 1, some 100, none, some [⟨some 7, none⟩, ⟨some 7, none⟩]⟩

/-- The state after that list came in and went into effect. -/
def afterNamedTwice : ValidatorList Nat :=
  (twoPublishers.applyLists namedTwice 10 "" 1 [⟨"", "", none⟩]).1.updateTrusted namedTwice 10 10 [1, 2]

/-- One publisher alone makes a validator trusted where two have to list it. -/
theorem trusted_by_one_publisher :
    load none [] [some 1, some 2] (some 2) (init (.init 0) (.init 0)) = some twoPublishers ∧
    History namedTwice twoPublishers afterNamedTwice ∧
    ¬ Configured (.init 0) none [] 7 ∧ twoPublishers.listThreshold = 2 ∧
    afterNamedTwice.keyListings.lookup 7 = some 2 ∧ 7 ∈ afterNamedTwice.trustedMasterKeys ∧
    (afterNamedTwice.publishersOf 7).ncard = 1 := by
  refine ⟨load_twoPublishers, ?_, by simp [Configured], rfl, by decide +kernel, by decide +kernel, ?_⟩
  · refine .updateTrusted (.applyLists .start 10 "" 1 _) 10 10 [1, 2] ?_
    decide +kernel
  · unfold publishersOf
    rw [ncard_lookup afterNamedTwice.publisherLists fun _ c => 7 ∈ c.current.list]
    decide +kernel

end ValidatorList

end Rippled.Validators
