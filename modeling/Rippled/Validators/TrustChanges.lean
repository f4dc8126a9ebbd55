import Rippled.Validators.ExpiredLists
/-!
# Trusted keys

The last part of `updateTrusted`: the trusted master keys follow the counts and the cache of manifests, the changes are
returned, and the signing keys of the trusted validators are collected anew if there were any changes. Nothing else
collects them. So a validator that gets another signing key while the set of trusted master keys stays the same goes on
with its old one there, until some validator is added or removed. Where no manifest brings a trusted validator another
signing key in the meantime (`SteadyRun`), the collected keys are the current ones.
-/

namespace Rippled.Validators

open Lib Protocol Finset

structure TrustChanges (NodeID : Type) where
  added : Finset NodeID
  removed : Finset NodeID

variable {Key : Type} [LinearOrder Key] {NodeID : Type} [DecidableEq NodeID]

/-- The signing keys that a cache has for master keys. -/
def ManifestCache.signingKeys (c : ManifestCache Key) (masterKeys : Finset Key) : Finset Key :=
  masterKeys.biUnion fun k => (c.getSigningKey k).toFinset

/-- The assertion in `updateTrusted`: a key that is not revoked has a signing key. -/
theorem ManifestCache.exists_getSigningKey (c : ManifestCache Key) {k : Key} (h : c.revoked k = false) :
    ∃ signingKey, c.getSigningKey k = some signingKey := by
  unfold ManifestCache.revoked at h
  unfold ManifestCache.getSigningKey
  cases hm : c.map.lookup k with
  | none => exact ⟨k, rfl⟩
  | some m =>
    rw [hm] at h
    dsimp only at h ⊢
    rw [if_neg (by rw [h]; decide)]
    exact Manifest.exists_signingKey h

namespace ValidatorList

/-- What the loops over the trusted and the listed keys note down. -/
def trustChanges (calcNodeID : Key → NodeID) (s : ValidatorList Key) : TrustChanges NodeID where
  removed := (s.trustedMasterKeys.filter (¬ s.trustable · = true)).image calcNodeID
  added := (s.keyListings.keys.toFinset.filter (s.trustable · = true) \
    s.trustedMasterKeys.filter (s.trustable · = true)).image calcNodeID

end ValidatorList

/-- The validator lists with `trustedSigningKeys_`. -/
structure Trust (Key : Type) [LinearOrder Key] where
  lists : ValidatorList Key
  trustedSigningKeys : Finset Key

namespace Trust

/-- The whole of `updateTrusted`, apart from the quorum. -/
def updateTrusted (env : Env Key) (calcNodeID : Key → NodeID) (now closeTime : Nat) (order : List Key) (s : Trust Key) :
    Trust Key × TrustChanges NodeID :=
  let lists := s.lists.updateLists env now closeTime order
  let trustChanges := lists.trustChanges calcNodeID
  let lists := lists.updateTrustedKeys
  let trustedSigningKeys :=
    if trustChanges.added.Nonempty ∨ trustChanges.removed.Nonempty then
      lists.validatorManifests.signingKeys lists.trustedMasterKeys
    else s.trustedSigningKeys
  (⟨lists, trustedSigningKeys⟩, trustChanges)

end Trust

/-! ## The loops over the keys -/

namespace ValidatorList

variable {s : ValidatorList Key} {k : Key}

/-- A key can be trusted if it is listed often enough and not revoked. -/
theorem trustable_iff (hT : 0 < s.listThreshold) :
    s.trustable k = true ↔ s.listThreshold ≤ countOf s.keyListings k ∧ s.validatorManifests.revoked k = false := by
  unfold trustable countOf
  rw [Bool.and_eq_true, Bool.not_eq_true']
  refine and_congr_left fun _ => ?_
  cases s.keyListings.lookup k with
  | none =>
    simp
    omega
  | some n => simp

theorem mem_keys_of_trustable (h : s.trustable k = true) : k ∈ s.keyListings.keys.toFinset := by
  unfold trustable at h
  rw [Bool.and_eq_true, Option.any_eq_true] at h
  obtain ⟨⟨n, hn, -⟩, -⟩ := h
  exact List.mem_toFinset.2 (AList.lookup_isSome.1 (by rw [hn]; rfl))

/-- The two loops leave the keys that can be trusted, whatever was trusted before. -/
theorem mem_updateTrustedKeys : k ∈ s.updateTrustedKeys.trustedMasterKeys ↔ s.trustable k = true := by
  unfold updateTrustedKeys
  rw [mem_union, mem_filter, mem_filter]
  constructor
  · rintro (h | h) <;> exact h.2
  · intro h
    exact .inr ⟨mem_keys_of_trustable h, h⟩

/-- The changes are the differences of the trusted keys. -/
theorem trustChanges_eq (calcNodeID : Key → NodeID) (s : ValidatorList Key) :
    (s.trustChanges calcNodeID).added =
      (s.updateTrustedKeys.trustedMasterKeys \ s.trustedMasterKeys).image calcNodeID ∧
    (s.trustChanges calcNodeID).removed =
      (s.trustedMasterKeys \ s.updateTrustedKeys.trustedMasterKeys).image calcNodeID := by
  constructor
  · refine congrArg (image calcNodeID) (ext fun k => ?_)
    rw [mem_sdiff, mem_sdiff, mem_filter, mem_filter, mem_updateTrustedKeys]
    constructor
    · rintro ⟨⟨-, ht⟩, hn⟩
      exact ⟨ht, fun hk => hn ⟨hk, ht⟩⟩
    · rintro ⟨ht, hn⟩
      exact ⟨⟨mem_keys_of_trustable ht, ht⟩, fun hk => hn hk.1⟩
  · refine congrArg (image calcNodeID) (ext fun k => ?_)
    rw [mem_sdiff, mem_filter, mem_updateTrustedKeys]

/-- There are changes exactly if the trusted keys change. -/
theorem trustChanges_nonempty_iff (calcNodeID : Key → NodeID) (s : ValidatorList Key) :
    ((s.trustChanges calcNodeID).added.Nonempty ∨ (s.trustChanges calcNodeID).removed.Nonempty) ↔
      s.updateTrustedKeys.trustedMasterKeys ≠ s.trustedMasterKeys := by
  obtain ⟨hadded, hremoved⟩ := s.trustChanges_eq calcNodeID
  rw [hadded, hremoved, image_nonempty, image_nonempty, sdiff_nonempty, sdiff_nonempty,
    ← not_and_or, Ne, Finset.Subset.antisymm_iff]

/-! ## Lists come and go, the trusted keys stay -/

theorem removePublisherList_same (s : ValidatorList Key) (P : Key) (reason : PublisherStatus) :
    (s.removePublisherList P reason).trustedMasterKeys = s.trustedMasterKeys ∧
      (s.removePublisherList P reason).validatorManifests = s.validatorManifests := by
  unfold ValidatorList.removePublisherList
  split <;> exact ⟨rfl, rfl⟩

theorem verifyManifest_same (env : Env Key) (s : ValidatorList Key) (m : Manifest Key) :
    (s.verifyManifest env m).1.trustedMasterKeys = s.trustedMasterKeys ∧
      (s.verifyManifest env m).1.validatorManifests = s.validatorManifests := by
  unfold ValidatorList.verifyManifest
  dsimp only
  split
  · have hr := fun pm => removePublisherList_same { s with publisherManifests := pm } m.masterKey .revoked
    split <;> exact hr _
  · exact ⟨rfl, rfl⟩

def Trusts (trusted : Finset Key) (s : ValidatorList Key) : Prop := s.trustedMasterKeys = trusted

section Trusts

variable {trusted : Finset Key} {s : ValidatorList Key}

section
variable (h : Trusts trusted s)
include h

theorem Trusts.updatePublisherList (env : Env Key) (current : PublisherList Key) (oldList : List Key) :
    Trusts trusted (s.updatePublisherList env current oldList) :=
  updatePublisherList_keeps h (fun _ _ h => h) (fun _ _ h => h) (fun _ _ _ _ _ h => h) oldList

theorem Trusts.removePublisherList (P : Key) (reason : PublisherStatus) :
    Trusts trusted (s.removePublisherList P reason) :=
  (removePublisherList_same s P reason).1.trans h

theorem Trusts.verifyManifest (env : Env Key) (m : Manifest Key) : Trusts trusted (s.verifyManifest env m).1 :=
  (verifyManifest_same env s m).1.trans h

/-- Lists alone do not change the trusted keys. -/
theorem Trusts.applyLists (env : Env Key) (now : Nat) (manifest : String) (version : Nat)
    (blobs : List ValidatorBlobInfo) : Trusts trusted (s.applyLists env now manifest version blobs).1 := by
  refine applyLists_keeps h (fun s info _ hs => applyList_keeps hs fun m => ?_) fun _ _ _ hs _ => hs
  refine applyVerified_keeps hs (hs.verifyManifest env m) fun result l _ => ?_
  unfold storeList
  dsimp only
  split
  · exact Trusts.updatePublisherList (by exact hs.verifyManifest env m) env _ _
  · exact hs.verifyManifest env m

theorem Trusts.updateLists (env : Env Key) (now closeTime : Nat) (order : List Key) :
    Trusts trusted (s.updateLists env now closeTime order) := by
  unfold ValidatorList.updateLists
  generalize (if now > closeTime + 30 then now else closeTime) = t
  refine walk_keeps (fun s P hs => ?_) (fun s P hs => ?_) h order
  · unfold rotate
    split
    · exact hs
    · split
      · exact hs
      · exact Trusts.updatePublisherList (by exact hs) env _ _
  · unfold expire
    split
    · exact hs
    · split
      · exact hs.removePublisherList P .expired
      · exact hs

end

end Trusts

end ValidatorList

/-! ## Manifests that bring no other signing key -/

namespace ManifestCache

variable {signed : Bytes → Key → SField → Bool} {T : Finset Key} {c₀ c : ManifestCache Key} {m : Manifest Key}
  {cap : ManifestRateLimitCapPolicy}

/-- A manifest has no other signing key for a key in `T`, compared with a cache: it is a revocation, it is not signed,
or it is not newer than the one in the cache. -/
def NoNews (signed : Bytes → Key → SField → Bool) (T : Finset Key) (c : ManifestCache Key) (m : Manifest Key) : Prop :=
  m.masterKey ∈ T → m.revoked = true ∨ m.verify signed = false ∨
    ∃ old, c.map.lookup m.masterKey = some old ∧ m.sequence ≤ old.sequence

/-- From one cache to another, keys in `T` were at most revoked. -/
def OnlyRevokes (T : Finset Key) (c₀ c : ManifestCache Key) : Prop :=
  ∀ k ∈ T, c.map.lookup k = c₀.map.lookup k ∨ c.Revoked k

/-- A manifest that is accepted for a key in `T` revokes it. -/
theorem OnlyRevokes.applyManifest (h : OnlyRevokes T c₀ c)
    (hm : (c.applyManifest signed m cap).1 = .accepted → m.masterKey ∈ T → m.revoked = true) :
    OnlyRevokes T c₀ (c.applyManifest signed m cap).2 := by
  intro k hk
  rcases h k hk with hsame | hrev
  · by_cases hkey : m.masterKey = k
    · subst hkey
      by_cases hacc : (c.applyManifest signed m cap).1 = .accepted
      · exact .inr ⟨m, lookup_of_accepted hacc, hm hacc hk⟩
      · rw [(written_applyManifest signed c m cap).eq_of_ne_accepted hacc]
        exact .inl hsame
    · exact .inl ((applyManifest_other hkey cap).trans hsame)
  · exact .inr (hrev.applyManifest signed m cap)

theorem NoNews.revoked_of_accepted (hm : NoNews signed T c₀ m) (h : OnlyRevokes T c₀ c)
    (hacc : (c.applyManifest signed m cap).1 = .accepted) (hT : m.masterKey ∈ T) : m.revoked = true := by
  rcases hm hT with hrev | hunsigned | ⟨old, hold, hle⟩
  · exact hrev
  · unfold ManifestCache.applyManifest at hacc
    split at hacc
    · rename_i d hread
      exact absurd hacc (applyManifestRead_ne_accepted hread)
    · rename_i hread
      rw [verify_of_read hread] at hunsigned
      cases hunsigned
  · rcases h _ hT with hsame | hrev
    · -- the cache would have to be older than the manifest
      have hfresh := (hacc ▸ written_applyManifest signed c m cap).fresh
      exact absurd (hfresh.newer old (hsame.trans hold)) (UInt32.not_lt.2 hle)
    · rw [hrev.applyManifest_self rfl] at hacc
      cases hacc

/-- Keys that are not revoked kept their signing keys. -/
theorem OnlyRevokes.signingKeys_eq (h : OnlyRevokes T c₀ c) (hT : ∀ k ∈ T, c.revoked k = false) :
    c₀.signingKeys T = c.signingKeys T := by
  refine biUnion_congr rfl fun k hk => ?_
  rcases h k hk with hsame | ⟨m, hm, hrev⟩
  · rw [getSigningKey, getSigningKey, hsame]
  · exact absurd (hT k hk) (by simp [revoked, hm, hrev])

end ManifestCache

/-- Whatever manifest a text holds, it is no news. -/
def NoNewsText (env : Env Key) (T : Finset Key) (c : ManifestCache Key) (text : String) : Prop :=
  ∀ m, env.deserializeManifest text = some m → c.NoNews env.signed T m

/-- Whatever list a blob holds, the manifests in it are no news. -/
def NoNewsBlob (env : Env Key) (T : Finset Key) (c : ManifestCache Key) (info : ValidatorBlobInfo) : Prop :=
  ∀ j l, env.parse info.blob = some j → readList j = .ok (some l) →
    ∀ text ∈ l.validators.filterMap (·.manifest), NoNewsText env T c text

/-- All manifests that are kept with the lists of a publisher. -/
def PublisherListCollection.Texts (Q : String → Prop) (c : PublisherListCollection Key) : Prop :=
  (∀ text ∈ c.current.manifests, Q text) ∧ ∀ p ∈ c.remaining.toList, ∀ text ∈ p.manifests, Q text

theorem PublisherListCollection.Texts.store {Q : String → Prop} {c : PublisherListCollection Key} (h : c.Texts Q)
    {l : ParsedList Key} (hl : ∀ text ∈ l.validators.filterMap (·.manifest), Q text) (d : ListDisposition) :
    (c.store l d).Texts Q := by
  have hfill : ∀ p : PublisherList Key, (∀ text ∈ p.manifests, Q text) →
      ∀ text ∈ (PublisherListCollection.fill p l).manifests, Q text := fun p hp text htext =>
    (List.mem_append.1 htext).elim (hp text) (hl text)
  unfold PublisherListCollection.store
  dsimp only
  split
  · cases hfind : c.remaining.find l.sequence with
    | some p => exact ⟨h.2 p (KeyedMap.find_eq_some.1 hfind).1, fun r hr => h.2 r (KeyedMap.mem_erase.1 hr).1⟩
    | none => exact ⟨hfill _ h.1, h.2⟩
  · refine ⟨h.1, fun r hr => ?_⟩
    rcases (KeyedMap.mem_insertList c.remaining.sorted).1 hr with rfl | ⟨hr, -⟩
    · refine hfill _ ?_
      cases hfind : c.remaining.find l.sequence with
      | some p => exact h.2 p (KeyedMap.find_eq_some.1 hfind).1
      | none => exact fun _ htext => absurd htext List.not_mem_nil
    · exact h.2 r hr

namespace ValidatorList

/-- The lists keep no news for the keys in `T` compared with the cache `c₀`, and since then these were at most
revoked. -/
structure Quiet (env : Env Key) (T : Finset Key) (c₀ : ManifestCache Key) (s : ValidatorList Key) : Prop where
  lists : Each (PublisherListCollection.Texts (NoNewsText env T c₀)) s
  cache : c₀.OnlyRevokes T s.validatorManifests

variable {env : Env Key} {T : Finset Key} {c₀ : ManifestCache Key} {s : ValidatorList Key} (h : Quiet env T c₀ s)

include h

/-- Manifests without news revoke keys in `T` at most. -/
theorem Quiet.updatePublisherList {current : PublisherList Key}
    (hcurrent : ∀ text ∈ current.manifests, NoNewsText env T c₀ text)
    (oldList : List Key) : Quiet env T c₀ (s.updatePublisherList env current oldList) where
  lists := h.lists.of_lists (updatePublisherList_sameLists env s current oldList).lists
  cache := updatePublisherList_keeps (motive := fun s => c₀.OnlyRevokes T s.validatorManifests) h.cache (fun _ _ h => h)
    (fun _ _ h => h)
    (fun _ text htext m hm hs => hs.applyManifest ((hcurrent text htext m hm).revoked_of_accepted hs)) oldList

theorem Quiet.setCollection {P : Key} {c : PublisherListCollection Key} (hc : c.Texts (NoNewsText env T c₀)) :
    Quiet env T c₀ (s.setCollection P c) := ⟨h.lists.setCollection hc, h.cache⟩

theorem Quiet.removePublisherList (P : Key) (reason : PublisherStatus) :
    Quiet env T c₀ (s.removePublisherList P reason) where
  lists := h.lists.removePublisherList (fun _ _ hc => hc) P reason
  cache := (removePublisherList_same s P reason).2 ▸ h.cache

theorem Quiet.verifyManifest (m : Manifest Key) : Quiet env T c₀ (s.verifyManifest env m).1 where
  lists := h.lists.verifyManifest (fun _ _ hc => hc) (fun _ hc => ⟨hc.1, fun _ hp => absurd hp List.not_mem_nil⟩) env m
  cache := (verifyManifest_same env s m).2 ▸ h.cache

theorem Quiet.storeList {l : ParsedList Key}
    (hl : ∀ text ∈ l.validators.filterMap (·.manifest), NoNewsText env T c₀ text) (P : Key) (d : ListDisposition) :
    Quiet env T c₀ (s.storeList env P l d).1 := by
  have hempty : PublisherListCollection.Texts (NoNewsText env T c₀) ({} : PublisherListCollection Key) :=
    ⟨fun _ htext => absurd htext List.not_mem_nil, fun _ hp => absurd hp List.not_mem_nil⟩
  have hc := (h.lists.getD hempty P).store hl d
  unfold ValidatorList.storeList
  dsimp only
  split
  · exact (h.setCollection hc).updatePublisherList hc.1 _
  · exact h.setCollection hc

/-- Lists without news are taken in. -/
theorem Quiet.applyLists {now : Nat} (manifest : String) (version : Nat) {blobs : List ValidatorBlobInfo}
    (hnew : ∀ info ∈ blobs, NoNewsBlob env T c₀ info) :
    Quiet env T c₀ (s.applyLists env now manifest version blobs).1 := by
  refine applyLists_keeps h (fun s info hinfo hs => applyList_keeps hs fun m => ?_) fun s P c hs hc => ?_
  · refine applyVerified_keeps hs (hs.verifyManifest m) fun result l hv => ?_
    obtain ⟨k, hopen, -⟩ := openBlob_of_verify hv
    obtain ⟨j, hj, hl⟩ := parse_of_openBlob hopen
    exact (hs.verifyManifest m).storeList (hnew info hinfo j l hj hl) m.masterKey result
  · obtain ⟨hcurrent, hremaining⟩ := hs.lists P c hc
    exact hs.setCollection ⟨hcurrent, fun p hp => hremaining p ((prune_sublist _ _).subset hp)⟩

/-- Rotation brings up kept lists only, which have no news. -/
theorem Quiet.updateLists (now closeTime : Nat) (order : List Key) :
    Quiet env T c₀ (s.updateLists env now closeTime order) := by
  unfold ValidatorList.updateLists
  generalize (if now > closeTime + 30 then now else closeTime) = t
  refine walk_keeps (fun s P hs => ?_) (fun s P hs => ?_) h order
  · unfold rotate
    split
    · exact hs
    · rename_i c hc
      obtain ⟨hcurrent, hremaining⟩ := hs.lists P c hc
      split
      · exact hs
      · rename_i candidate hlast
        have hcandidate : ∀ text ∈ (if candidate.validUntil ≤
            t then { candidate with list := [] } else candidate).manifests,
            NoNewsText env T c₀ text := by
          split <;> exact hremaining candidate (PublisherListCollection.candidate_pending hlast)
        refine (hs.setCollection ⟨hcandidate, fun p hp => ?_⟩).updatePublisherList hcandidate _
        exact hremaining p ((List.dropWhile_sublist _).subset hp)
  · unfold expire
    split
    · exact hs
    · split
      · exact hs.removePublisherList P .expired
      · exact hs

end ValidatorList

/-! ## Whole runs -/

namespace Trust

open ValidatorList

/-- The state with what comes of a manifest. -/
def applyManifest (env : Env Key) (m : Manifest Key) (cap : ManifestRateLimitCapPolicy) (s : Trust Key) : Trust Key :=
  { s with lists.validatorManifests := (s.lists.validatorManifests.applyManifest env.signed m cap).2 }

/-- The state with what comes of publishers' lists. -/
def applyLists (env : Env Key) (now : Nat) (manifest : String) (version : Nat)
    (blobs : List ValidatorBlobInfo) (s : Trust Key) : Trust Key :=
  { s with lists := (s.lists.applyLists env now manifest version blobs).1 }

/-- The trusted signing keys are those that the cache has for the trusted master keys. -/
def Current (s : Trust Key) : Prop :=
  s.trustedSigningKeys = s.lists.validatorManifests.signingKeys s.lists.trustedMasterKeys

/-- What happens after loading. -/
inductive TrustRun (env : Env Key) (calcNodeID : Key → NodeID) (s₀ : ValidatorList Key) : Trust Key → Prop where
  | start : TrustRun env calcNodeID s₀ ⟨s₀, ∅⟩
  | applyLists {s : Trust Key} (h : TrustRun env calcNodeID s₀ s) (now : Nat) (manifest : String) (version : Nat)
      (blobs : List ValidatorBlobInfo) : TrustRun env calcNodeID s₀ (s.applyLists env now manifest version blobs)
  | applyManifest {s : Trust Key} (h : TrustRun env calcNodeID s₀ s) (m : Manifest Key)
      (cap : ManifestRateLimitCapPolicy) :
      TrustRun env calcNodeID s₀ (s.applyManifest env m cap)
  | updateTrusted {s : Trust Key} (h : TrustRun env calcNodeID s₀ s) (now closeTime : Nat) (order : List Key)
      (horder : order.Perm s.lists.publisherLists.keys) :
      TrustRun env calcNodeID s₀ (s.updateTrusted env calcNodeID now closeTime order).1

/-- A run from a state `s₁`, just loaded or after an update that changed the trusted keys, in which these stay and no
manifest brings one of them another signing key: none that is accepted on its own, none in the lists that come, and
none in the lists that were there. -/
inductive SteadyRun (env : Env Key) (calcNodeID : Key → NodeID) (s₀ : ValidatorList Key) (s₁ : Trust Key) :
    Trust Key → Prop where
  | start (hs₁ : s₁ = ⟨s₀, ∅⟩) (h₀ : s₀.trustedMasterKeys = ∅) : SteadyRun env calcNodeID s₀ s₁ s₁
  | collect {s : Trust Key} (h : TrustRun env calcNodeID s₀ s) (now closeTime : Nat) (order : List Key)
      (hs₁ : (s.updateTrusted env calcNodeID now closeTime order).1 = s₁)
      (hchanged : s₁.lists.trustedMasterKeys ≠ s.lists.trustedMasterKeys)
      (hlists : Each (PublisherListCollection.Texts
        (NoNewsText env s₁.lists.trustedMasterKeys s₁.lists.validatorManifests)) s₁.lists) : SteadyRun env
          calcNodeID s₀ s₁ s₁
  | applyLists {s : Trust Key} (h : SteadyRun env calcNodeID s₀ s₁ s) (now : Nat) (manifest : String) (version : Nat)
      {blobs : List ValidatorBlobInfo}
      (hnew : ∀ info ∈ blobs, NoNewsBlob env s₁.lists.trustedMasterKeys s₁.lists.validatorManifests info) :
      SteadyRun env calcNodeID s₀ s₁ (s.applyLists env now manifest version blobs)
  | applyManifest {s : Trust Key} (h : SteadyRun env calcNodeID s₀ s₁ s) {m : Manifest Key}
      {cap : ManifestRateLimitCapPolicy}
      (hm : (s.lists.validatorManifests.applyManifest env.signed m cap).1 = .accepted →
        m.masterKey ∈ s₁.lists.trustedMasterKeys → m.revoked = true) :
      SteadyRun env calcNodeID s₀ s₁ (s.applyManifest env m cap)
  | updateTrusted {s : Trust Key} (h : SteadyRun env calcNodeID s₀ s₁ s) (now closeTime : Nat) (order : List Key)
      (hsame : (s.updateTrusted env calcNodeID now closeTime order).1.lists.trustedMasterKeys =
        s₁.lists.trustedMasterKeys) :
      SteadyRun env calcNodeID s₀ s₁ (s.updateTrusted env calcNodeID now closeTime order).1

variable {env : Env Key} {calcNodeID : Key → NodeID} {s₀ : ValidatorList Key} {s s₁ : Trust Key}

/-- A run is a history of the lists. -/
theorem TrustRun.history (h : TrustRun env calcNodeID s₀ s) : History env s₀ s.lists := by
  induction h with
  | start => exact .start
  | applyLists _ now manifest version blobs ih => exact ih.applyLists now manifest version blobs
  | applyManifest _ m cap ih => exact ih.manifests _
  | updateTrusted _ now closeTime order horder ih => exact ih.updateTrusted now closeTime order horder

/-- An update collects the signing keys anew exactly if it changes the trusted keys. -/
theorem updateTrusted_cases (env : Env Key) (calcNodeID : Key → NodeID) (now closeTime : Nat)
    (order : List Key) (s : Trust Key) : let s' := (s.updateTrusted env calcNodeID now closeTime order).1
    (s'.lists.trustedMasterKeys ≠ s.lists.trustedMasterKeys → s'.Current) ∧
      (s'.lists.trustedMasterKeys = s.lists.trustedMasterKeys → s'.trustedSigningKeys = s.trustedSigningKeys) := by
  have hbefore : Trusts s.lists.trustedMasterKeys _ := Trusts.updateLists rfl env now closeTime order
  have hchanged := trustChanges_nonempty_iff calcNodeID (s.lists.updateLists env now closeTime order)
  rw [hbefore] at hchanged
  refine ⟨fun hne => if_pos (hchanged.2 hne), fun heq => if_neg fun hc => hchanged.1 hc heq⟩

/-- What a steady run keeps. -/
structure Steady (env : Env Key) (s₁ s : Trust Key) : Prop where
  quiet : Quiet env s₁.lists.trustedMasterKeys s₁.lists.validatorManifests s.lists
  trusted : Trusts s₁.lists.trustedMasterKeys s.lists
  signing : s.trustedSigningKeys = s₁.lists.validatorManifests.signingKeys s₁.lists.trustedMasterKeys

theorem SteadyRun.steady (h : SteadyRun env calcNodeID s₀ s₁ s) : Steady env s₁ s := by
  induction h with
  | start hs₁ h₀ =>
    subst hs₁
    have hnone : ∀ text, NoNewsText env s₀.trustedMasterKeys s₀.validatorManifests text := fun _ _ _ hT =>
      absurd (h₀ ▸ hT) (notMem_empty _)
    refine ⟨⟨fun P c hc => ⟨fun text _ => hnone text, fun p _ text _ => hnone text⟩, fun _ _ => .inl rfl⟩, rfl, ?_⟩
    dsimp only
    rw [h₀]
    rfl
  | collect _ now closeTime order hs₁ hchanged hlists =>
    subst hs₁
    exact ⟨⟨hlists, fun _ _ => .inl rfl⟩, rfl, (updateTrusted_cases env calcNodeID now closeTime order _).1 hchanged⟩
  | applyLists _ now manifest version hnew ih =>
    exact ⟨ih.quiet.applyLists manifest version hnew, ih.trusted.applyLists env now manifest version _, ih.signing⟩
  | applyManifest _ hm ih => exact ⟨⟨ih.quiet.lists, ih.quiet.cache.applyManifest hm⟩, ih.trusted, ih.signing⟩
  | updateTrusted _ now closeTime order hsame ih =>
    have hsame' := (updateTrusted_cases env calcNodeID now closeTime order _).2 (hsame.trans ih.trusted.symm)
    have hq := ih.quiet.updateLists now closeTime order
    exact ⟨⟨hq.lists, hq.cache⟩, hsame, hsame'.trans ih.signing⟩

/-- After a steady run and an update the signing keys are current. -/
theorem SteadyRun.current (h : SteadyRun env calcNodeID s₀ s₁ s) {now closeTime : Nat}
    {order : List Key} {s' : Trust Key} (hs' : (s.updateTrusted env calcNodeID now closeTime order).1 = s')
    (hT : ∀ k ∈ s'.lists.trustedMasterKeys, s'.lists.validatorManifests.revoked k = false) : s'.Current := by
  subst hs'
  by_cases hsame : (s.updateTrusted env calcNodeID now closeTime order).1.lists.trustedMasterKeys =
    s.lists.trustedMasterKeys
  · -- none was removed, so none was revoked
    have hst := (h.updateTrusted now closeTime order (hsame.trans h.steady.trusted)).steady
    rw [Current, hst.signing, hst.trusted]
    exact hst.quiet.cache.signingKeys_eq fun k hk => hT k (hst.trusted ▸ hk)
  · exact (updateTrusted_cases env calcNodeID now closeTime order s).1 hsame

variable {vm pm : ManifestCache Key} {localSigningKey : Option Key} {configKeys publisherKeys : List (Option Key)}
  {listThreshold : Option Nat}

/-- After every `updateTrusted`, the trusted master keys are those that meet the threshold and are not revoked, each
has a signing key, and the changes are the differences to the keys before. The trusted signing keys are the current
ones of the trusted master keys if that set changed, and if since its last change no manifest brought one of these
another signing key. An update that changes nothing leaves them, whatever the signing keys are by then. -/
theorem trusted_keys_after_update
    (hload : load localSigningKey configKeys publisherKeys listThreshold (init vm pm) = some s₀)
    (h : TrustRun env calcNodeID s₀ s) (now closeTime : Nat) {order : List Key}
    (horder : order.Perm s.lists.publisherLists.keys) {s' : Trust Key} {trustChanges : TrustChanges NodeID}
    (hs : s.updateTrusted env calcNodeID now closeTime order = (s', trustChanges)) :
    (∀ k, k ∈ s'.lists.trustedMasterKeys ↔
      s'.lists.listThreshold ≤ countOf s'.lists.keyListings k ∧ s'.lists.validatorManifests.revoked k = false) ∧
    (∀ k ∈ s'.lists.trustedMasterKeys, ∃ signingKey, s'.lists.validatorManifests.getSigningKey k = some signingKey) ∧
    trustChanges.added = (s'.lists.trustedMasterKeys \ s.lists.trustedMasterKeys).image calcNodeID ∧
    trustChanges.removed = (s.lists.trustedMasterKeys \ s'.lists.trustedMasterKeys).image calcNodeID ∧
    (s'.lists.trustedMasterKeys ≠ s.lists.trustedMasterKeys → s'.Current) ∧
    (s'.lists.trustedMasterKeys = s.lists.trustedMasterKeys → s'.trustedSigningKeys = s.trustedSigningKeys) ∧
    (∀ s₁, SteadyRun env calcNodeID s₀ s₁ s → s'.Current) := by
  have hT : 0 < s'.lists.listThreshold := by
    have hrun := (h.updateTrusted now closeTime order horder).history.counted (counted_load hload).1
    rw [hs] at hrun
    rw [hrun.threshold]
    exact listThreshold_load hload
  obtain ⟨hcollected, hleft⟩ := updateTrusted_cases env calcNodeID now closeTime order s
  obtain ⟨rfl, rfl⟩ := Prod.mk.inj hs
  have hbefore : Trusts s.lists.trustedMasterKeys _ := Trusts.updateLists rfl env now closeTime order
  obtain ⟨hadded, hremoved⟩ := (s.lists.updateLists env now closeTime order).trustChanges_eq calcNodeID
  rw [hbefore] at hadded hremoved
  have hmem : ∀ k, k ∈ (s.lists.updateLists env now closeTime order).updateTrustedKeys.trustedMasterKeys ↔ _ :=
    fun k => mem_updateTrustedKeys.trans (trustable_iff hT)
  refine ⟨hmem, fun k hk => ManifestCache.exists_getSigningKey _ ((hmem k).1 hk).2, hadded, hremoved, hcollected, hleft,
    fun s₁ hsteady => hsteady.current rfl fun k hk => ((hmem k).1 hk).2⟩

def seventhManifest : Manifest Nat := ⟨[], 7, some 17, 1, [], by decide, by decide⟩

def eighthManifest : Manifest Nat := ⟨[], 8, some 18, 1, [], by decide, by decide⟩

/-- Publisher 1 listed validator 7. -/
def afterList : Trust Nat := ⟨afterOneList 10, ∅⟩

theorem run_afterList : TrustRun oneList id onePublisher afterList := .applyLists .start 10 "" 1 [⟨"", "", none⟩]

/-- The manifest of the validator came before the first update. -/
def afterFirstUpdate : Trust Nat :=
  ((afterList.applyManifest oneList seventhManifest .uncapped).updateTrusted oneList id 10 10 [1]).1

/-- Then that of a validator that is not trusted. -/
def afterOtherManifest : Trust Nat := afterFirstUpdate.applyManifest oneList eighthManifest .uncapped

theorem trusted_keys_after_update_other :
    (afterOtherManifest.updateTrusted oneList id 11 11 [1]).1.trustedSigningKeys = {17} ∧
      (afterOtherManifest.updateTrusted oneList id 11 11 [1]).1.Current := by
  have hrun := run_afterList.applyManifest seventhManifest .uncapped
  have hlists : Each (PublisherListCollection.Texts (NoNewsText oneList {7} afterFirstUpdate.lists.validatorManifests))
      afterFirstUpdate.lists := by
    intro P c hc
    have hmem : P ∈ afterFirstUpdate.lists.publisherLists.keys := AList.lookup_isSome.1 (by rw [hc]; rfl)
    obtain rfl : P = 1 := by simpa [show afterFirstUpdate.lists.publisherLists.keys = [1] by decide +kernel] using hmem
    have hnone : (afterFirstUpdate.lists.publisherLists.lookup 1).all
        (fun c => c.current.manifests.isEmpty && c.remaining.toList.isEmpty) = true := by decide +kernel
    rw [hc] at hnone
    simp_all [PublisherListCollection.Texts]
  have hsteady : SteadyRun oneList id onePublisher afterFirstUpdate afterOtherManifest :=
    .applyManifest (.collect hrun 10 10 [1] rfl (by decide +kernel) hlists) fun _ h => absurd h (by decide +kernel)
  obtain ⟨-, -, -, -, -, -, hsign⟩ := trusted_keys_after_update load_onePublisher
    ((hrun.updateTrusted 10 10 [1] (by decide +kernel)).applyManifest eighthManifest .uncapped) 11 11
    (by decide +kernel : [1].Perm _) rfl
  exact ⟨by decide +kernel, hsign afterFirstUpdate hsteady⟩

/-- Validator 7 is trusted with its master key as signing key when its manifest is accepted. The next update finds no
changes: the old signing key stays trusted and the new one is not. -/
theorem rotated_signing_key_is_not_trusted :
    let s := (afterList.updateTrusted oneList id 10 10 [1]).1
    let s' := ((s.applyManifest oneList seventhManifest .uncapped).updateTrusted oneList id 11 11 [1]).1
    load none [] [some 1] none (init (.init 0) (.init 0)) = some onePublisher ∧ TrustRun oneList id onePublisher s' ∧
    (s.lists.validatorManifests.applyManifest oneList.signed seventhManifest .uncapped).1 = .accepted ∧
    s'.lists.trustedMasterKeys = {7} ∧ s'.lists.validatorManifests.getSigningKey 7 = some 17 ∧
    s'.trustedSigningKeys = {7} := by
  have hrun := run_afterList.updateTrusted 10 10 [1] (by decide +kernel)
  exact ⟨load_onePublisher, (hrun.applyManifest seventhManifest .uncapped).updateTrusted 11 11 [1] (by decide +kernel),
    by decide +kernel, by decide +kernel, by decide +kernel, by decide +kernel⟩

end Trust

end Rippled.Validators
