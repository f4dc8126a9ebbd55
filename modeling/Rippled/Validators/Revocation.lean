import Rippled.Validators.KeyListings
import Rippled.Validators.ManifestRuns
/-!
# Publishers that are revoked

Once the manifest of a publisher is revoked, its signing key in the cache of manifests is its master key
(`getSigningKey`), and the flag that `verify` looks at is that of the manifest that came with the list. So what keeps
the lists of a revoked publisher out is only that nobody signs one with the master key.
-/

namespace Rippled.Validators

open Lib Protocol

variable {Key : Type} [LinearOrder Key]

/-! ## The cache of manifests -/

variable {m : Manifest Key}

namespace ManifestCache

variable {signed : Bytes → Key → SField → Bool} {c : ManifestCache Key} {P : Key}

def Revoked (c : ManifestCache Key) (P : Key) : Prop := ∃ m, c.map.lookup P = some m ∧ m.revoked = true

/-- Every later manifest of a revoked key is stale. -/
theorem Revoked.applyManifest_self (h : c.Revoked P) (hm : m.masterKey = P) (cap : ManifestRateLimitCapPolicy) :
    c.applyManifest signed m cap = (.stale, c) := by
  obtain ⟨old, hold, hrev⟩ := h
  rw [← hm] at hold
  have hstale : ((c.map.lookup m.masterKey).any fun old => m.sequence ≤ old.sequence) = true := by
    rw [hold]
    simpa using Manifest.sequence_le_of_revoked hrev m.sequence
  have hcap : c.atUntrustedCap m cap = false := by simp [atUntrustedCap, hold]
  rw [applyManifest, applyManifestRead, hcap, if_neg Bool.false_ne_true, prewriteCheck, if_pos hstale]

theorem applyManifest_other (hm : m.masterKey ≠ P) (cap : ManifestRateLimitCapPolicy) :
    (c.applyManifest signed m cap).2.map.lookup P = c.map.lookup P :=
  (written_applyManifest signed c m cap).lookup_other hm.symm

/-- Revoked keys stay revoked. -/
theorem Revoked.applyManifest (h : c.Revoked P) (signed : Bytes → Key → SField → Bool) (m : Manifest Key)
    (cap : ManifestRateLimitCapPolicy) :
    (c.applyManifest signed m cap).2.Revoked P := by
  by_cases hm : m.masterKey = P
  · rw [h.applyManifest_self hm]
    exact h
  · obtain ⟨old, hold, hrev⟩ := h
    exact ⟨old, (applyManifest_other hm cap).trans hold, hrev⟩

/-- A revoked key has no other signing key. -/
theorem Revoked.getSigningKey (h : c.Revoked P) : c.getSigningKey P = some P := by
  obtain ⟨m, hm, hrev⟩ := h
  simp [ManifestCache.getSigningKey, hm, hrev]

theorem lookup_of_accepted {cap : ManifestRateLimitCapPolicy} (h : (c.applyManifest signed m cap).1 = .accepted) :
    (c.applyManifest signed m cap).2.map.lookup m.masterKey = some m :=
  lookup_of_written (h ▸ written_applyManifest signed c m cap)

end ManifestCache

namespace ValidatorList

variable {env : Env Key} {now closeTime : Nat} {s : ValidatorList Key} {P : Key}

/-- The manifest of `P` is revoked, and nothing is kept of its lists. -/
structure Gone (P : Key) (s : ValidatorList Key) : Prop where
  manifest : s.publisherManifests.Revoked P
  collection : ∃ c, s.publisherLists.lookup P = some c ∧ c.status = .revoked ∧
    c.current.list = [] ∧ c.remaining.toList = []

/-! ## Collections of others -/

theorem lookup_setCollection_ne {Q : Key} (h : P ≠ Q) (c : PublisherListCollection Key) :
    (s.setCollection Q c).publisherLists.lookup P = s.publisherLists.lookup P :=
  AList.lookup_insert_ne h

theorem lookup_removePublisherList_ne {Q : Key} (h : P ≠ Q) (reason : PublisherStatus) :
    (s.removePublisherList Q reason).publisherLists.lookup P = s.publisherLists.lookup P := by
  unfold removePublisherList
  split
  · rfl
  · exact lookup_setCollection_ne h _

theorem removePublisherList_publisherManifests (Q : Key) (reason : PublisherStatus) :
    (s.removePublisherList Q reason).publisherManifests = s.publisherManifests := by
  unfold removePublisherList
  split <;> rfl

theorem Gone.of_same {s' : ValidatorList Key} (h : Gone P s) (hm : s'.publisherManifests = s.publisherManifests)
    (hc : s'.publisherLists.lookup P = s.publisherLists.lookup P) : Gone P s' :=
  ⟨hm ▸ h.manifest, hc ▸ h.collection⟩

/-! ## What `verify` does with the manifest -/

/-- Another publisher's manifest changes nothing for `P`. -/
theorem Gone.verifyManifest_other (h : Gone P s) (hm : m.masterKey ≠ P) : Gone P (s.verifyManifest env m).1 := by
  have hman := h.manifest.applyManifest env.signed m .uncapped
  have hne : P ≠ m.masterKey := fun he => hm he.symm
  unfold verifyManifest
  dsimp only
  split
  · split
    · refine ⟨?_, ?_⟩
      · rw [removePublisherList_publisherManifests]
        exact hman
      · rw [lookup_removePublisherList_ne hne]
        exact h.collection
    · refine ⟨?_, ?_⟩
      · change ManifestCache.Revoked (removePublisherList _ _ _).publisherManifests P
        rw [removePublisherList_publisherManifests]
        exact hman
      · rw [lookup_setCollection_ne hne, lookup_removePublisherList_ne hne]
        exact h.collection
  · exact ⟨hman, h.collection⟩

/-- A manifest of the revoked publisher is stale, and the key to check a list with is the master key. -/
theorem Gone.verifyManifest_self (h : Gone P s) (hm : m.masterKey = P) :
    s.verifyManifest env m = (s, if m.revoked then none else some P) := by
  unfold verifyManifest
  rw [h.manifest.applyManifest_self hm]
  dsimp only
  rw [if_neg (fun hc => ManifestDisposition.noConfusion hc.2), hm, h.manifest.getSigningKey]
  congr 1
  by_cases hrev : m.revoked = true
  · rw [if_pos (.inl hrev), if_pos hrev]
  · rw [if_neg (fun hc => hc.elim hrev ManifestDisposition.noConfusion), if_neg hrev]

/-- A list for the revoked publisher that `verify` lets through: its manifest is not the revoked one, and the master key
signed it. -/
def LetThrough (env : Env Key) (now : Nat) (s : ValidatorList Key) (m : Manifest Key)
    (info : ValidatorBlobInfo) : Prop :=
  m.revoked = false ∧ ∃ l d, openBlob env m.masterKey info = .ok (some l) ∧
    ((s.publisherLists.lookup m.masterKey).getD {}).classify now l = .ok d ∧ d.rank ≤ ListDisposition.pending.rank

/-- A list is reported as neither accepted nor expired nor pending. -/
def Refused (r : Except String (PublisherListStats Key)) : Prop :=
  ∀ stats, r = .ok stats → ∀ d ∈ stats.dispositions, ListDisposition.pending.rank < d.rank

omit [LinearOrder Key] in
theorem refused_error (e : String) : Refused (.error e : Except String (PublisherListStats Key)) := by
  intro stats h
  cases h

omit [LinearOrder Key] in
/-- A list is refused if its disposition ranks behind pending. -/
theorem refused_ok {stats : PublisherListStats Key} {d : ListDisposition} (hd : stats.dispositions = [d]) :
    Refused (.ok stats) ↔ ListDisposition.pending.rank < d.rank := by
  constructor
  · intro h
    exact h stats rfl d (by rw [hd]; exact List.mem_singleton_self d)
  · intro h stats' hs d' hd'
    obtain rfl := Except.ok.inj hs
    rw [hd, List.mem_singleton] at hd'
    rwa [hd']

theorem refused_dispositions (s : ValidatorList Key) (Q : Key) (d : ListDisposition) :
    (s.refused Q d).dispositions = [d] := by
  unfold refused
  split
  · rfl
  · split
    · split <;> rfl
    · rfl

/-- For the revoked publisher, only its master key is left to check a signature with. -/
theorem Gone.verify_self (h : Gone P s) (hm : m.masterKey = P) (info : ValidatorBlobInfo) :
    s.verify env now m info = (s,
      if m.revoked then .ok (.untrusted, none)
      else
        match openBlob env P info with
        | .error e => .error e
        | .ok none => .ok (.invalid, none)
        | .ok (some l) => (((s.publisherLists.lookup P).getD {}).classify now l).map fun d => (d, some l)) := by
  unfold verify
  rw [h.verifyManifest_self hm]
  dsimp only
  by_cases hrev : m.revoked = true
  · rw [if_pos hrev, if_pos hrev]
  · rw [if_neg hrev, if_neg hrev, hm]
    dsimp only
    cases openBlob env P info with
    | error e => rfl
    | ok o => cases o <;> rfl

variable {info : ValidatorBlobInfo}

/-- A list for the revoked publisher that is not let through changes nothing. -/
theorem Gone.applyVerified_self (h : Gone P s) (hm : m.masterKey = P) (hnot : ¬ LetThrough env now s m info) :
    (s.applyVerified env now m info).1 = s ∧ Refused (s.applyVerified env now m info).2 := by
  obtain ⟨c, hc, -⟩ := h.collection
  have hconf : ¬ (s.publisherLists.lookup m.masterKey).isNone = true := by rw [hm, hc]; exact Bool.false_ne_true
  have hrefuse : ∀ d : ListDisposition, ListDisposition.pending.rank < d.rank →
      Refused (.ok (s.refused m.masterKey d) : Except String (PublisherListStats Key)) :=
    fun d hd => (refused_ok (refused_dispositions s _ d)).2 hd
  unfold applyVerified
  rw [if_neg hconf, h.verify_self hm]
  by_cases hrev : m.revoked = true
  · rw [if_pos hrev]
    exact ⟨rfl, hrefuse .untrusted (by decide)⟩
  · rw [if_neg hrev]
    cases hopen : openBlob env P info with
    | error e => exact ⟨rfl, refused_error e⟩
    | ok o =>
      cases o with
      | none => exact ⟨rfl, hrefuse .invalid (by decide)⟩
      | some l =>
        dsimp only
        cases hclass : ((s.publisherLists.lookup P).getD {}).classify now l with
        | error e => exact ⟨rfl, refused_error e⟩
        | ok d =>
          have hd : ListDisposition.pending.rank < d.rank := by
            by_contra hle
            exact hnot ⟨by simpa using hrev, l, d, by rw [hm]; exact hopen, by rw [hm]; exact hclass, not_lt.1 hle⟩
          simp only [Except.map]
          rw [if_pos hd]
          exact ⟨rfl, hrefuse d hd⟩

/-- A list that is let through is stored, although the publisher is revoked. -/
theorem Gone.applyVerified_letThrough (h : Gone P s) (hm : m.masterKey = P) (hlet : LetThrough env now s m info) :
    ¬ Refused (s.applyVerified env now m info).2 := by
  obtain ⟨c, hc, -⟩ := h.collection
  obtain ⟨hrev, l, d, hopen, hclass, hd⟩ := hlet
  have hconf : ¬ (s.publisherLists.lookup m.masterKey).isNone = true := by rw [hm, hc]; exact Bool.false_ne_true
  unfold applyVerified
  rw [if_neg hconf, h.verify_self hm, if_neg (by simp [hrev]), ← hm, hopen]
  simp only [hclass, Except.map]
  rw [if_neg (not_lt.2 hd), refused_ok rfl]
  exact not_lt.2 hd

theorem Gone.applyVerified_other (h : Gone P s) (hm : m.masterKey ≠ P) (info : ValidatorBlobInfo) :
    Gone P (s.applyVerified env now m info).1 := by
  have hne : P ≠ m.masterKey := fun he => hm he.symm
  have hv : Gone P (s.verifyManifest env m).1 := h.verifyManifest_other hm
  refine applyVerified_keeps h hv fun result l _ => ?_
  unfold storeList
  dsimp only
  split
  · have hsame := updatePublisherList_sameLists env ((s.verifyManifest env m).1.setCollection m.masterKey
      ((((s.verifyManifest env m).1.publisherLists.lookup m.masterKey).getD {}).store l result))
      ((((s.verifyManifest env m).1.publisherLists.lookup m.masterKey).getD {}).store l result).current
      (((s.verifyManifest env m).1.publisherLists.lookup m.masterKey).getD {}).current.list
    exact hv.of_same hsame.publishers (by rw [hsame.lists]; exact lookup_setCollection_ne hne _)
  · exact hv.of_same rfl (lookup_setCollection_ne hne _)

/-! ## Lists for the revoked publisher -/

/-- The manifest that counts for a list, if it can be read and is for `P`. -/
def ForPublisher (env : Env Key) (globalManifest : String) (P : Key)
    (info : ValidatorBlobInfo) (m : Manifest Key) : Prop :=
  (info.manifest.getD globalManifest).length ≤ kMaxManifestBase64 ∧
    env.deserializeManifest (info.manifest.getD globalManifest) = some m ∧ m.masterKey = P

/-- If a list is for `P`, its master key did not sign it. -/
def NotByMaster (env : Env Key) (globalManifest : String) (P : Key) (info : ValidatorBlobInfo) : Prop :=
  ∀ m, ForPublisher env globalManifest P info m → env.verifyBlob P info.blob info.signature = false

theorem not_letThrough (h : env.verifyBlob m.masterKey info.blob info.signature = false) :
    ¬ LetThrough env now s m info := by
  rintro ⟨-, l, d, hopen, -⟩
  rw [openBlob, h] at hopen
  cases hopen

variable {globalManifest : String}

theorem applyList_forPublisher (h : ForPublisher env globalManifest P info m) :
    s.applyList env now globalManifest info = s.applyVerified env now m info := by
  unfold ValidatorList.applyList
  dsimp only
  rw [if_neg (not_lt.2 h.1), h.2.1]

section
variable (h : Gone P s)
include h

/-- Lists of the revoked publisher are refused, but for those let through. -/
theorem Gone.refused_iff (hfor : ForPublisher env globalManifest P info m) :
    Refused (s.applyList env now globalManifest info).2 ↔ ¬ LetThrough env now s m info := by
  rw [applyList_forPublisher hfor]
  exact ⟨fun hr hlet => h.applyVerified_letThrough hfor.2.2 hlet hr, fun hnot => (h.applyVerified_self hfor.2.2 hnot).2⟩

/-- A list that the master key did not sign brings nothing back. -/
theorem Gone.applyList (now : Nat) (hsig : NotByMaster env globalManifest P info) :
    Gone P (s.applyList env now globalManifest info).1 := by
  by_cases hlen : (info.manifest.getD globalManifest).length ≤ kMaxManifestBase64
  · cases hman : env.deserializeManifest (info.manifest.getD globalManifest) with
    | none =>
      unfold ValidatorList.applyList
      dsimp only
      rw [if_neg (not_lt.2 hlen), hman]
      exact h
    | some m =>
      have hfor : ForPublisher env globalManifest m.masterKey info m := ⟨hlen, hman, rfl⟩
      rw [applyList_forPublisher hfor]
      by_cases hm : m.masterKey = P
      · have hnot : ¬ LetThrough env now s m info := not_letThrough (by rw [hm]; exact hsig m (hm ▸ hfor))
        rw [(h.applyVerified_self hm hnot).1]
        exact h
      · exact h.applyVerified_other hm info
  · unfold ValidatorList.applyList
    dsimp only
    rw [if_pos (not_le.1 hlen)]
    exact h

theorem Gone.cleanUp {Q : Key} {c : PublisherListCollection Key} (hc : s.publisherLists.lookup Q = some c) :
    Gone P (s.setCollection Q c.cleanUp) := by
  by_cases hQ : P = Q
  · subst hQ
    obtain ⟨c', hc', hstatus, hlist, hrem⟩ := h.collection
    obtain rfl := Option.some.inj (hc.symm.trans hc')
    refine ⟨h.manifest, c.cleanUp, AList.lookup_insert _, hstatus, hlist, ?_⟩
    unfold PublisherListCollection.cleanUp
    dsimp only
    rw [hrem]
    rfl
  · exact h.of_same rfl (lookup_setCollection_ne hQ _)

/-! ## Nothing of it comes into effect -/

theorem Gone.rotate (Q : Key) : Gone P (s.rotate env closeTime Q) := by
  unfold ValidatorList.rotate
  cases hc : s.publisherLists.lookup Q with
  | none => exact h
  | some c =>
    dsimp only
    by_cases hQ : P = Q
    · subst hQ
      obtain ⟨c', hc', -, -, hrem⟩ := h.collection
      obtain rfl := Option.some.inj (hc.symm.trans hc')
      have hdue : (c.due closeTime).getLast? = none := by
        unfold PublisherListCollection.due
        rw [hrem]
        rfl
      rw [hdue]
      exact h
    · split
      · exact h
      · refine h.of_same ?_ ?_
        · rw [(updatePublisherList_sameLists env _ _ _).publishers]
          rfl
        · rw [(updatePublisherList_sameLists env _ _ _).lists]
          exact lookup_setCollection_ne hQ _

theorem Gone.expire (Q : Key) : Gone P (s.expire closeTime Q) := by
  unfold ValidatorList.expire
  cases hc : s.publisherLists.lookup Q with
  | none => exact h
  | some c =>
    dsimp only
    by_cases hQ : P = Q
    · subst hQ
      obtain ⟨c', hc', hstatus, -, -⟩ := h.collection
      obtain rfl := Option.some.inj (hc.symm.trans hc')
      rw [if_neg (fun hav => PublisherStatus.noConfusion (hstatus.symm.trans hav.1))]
      exact h
    · split
      · exact h.of_same (removePublisherList_publisherManifests Q .expired) (lookup_removePublisherList_ne hQ .expired)
      · exact h

/-- Neither rotation nor expiry brings anything back. -/
theorem Gone.updateTrusted (order : List Key) : Gone P (s.updateTrusted env now closeTime order) :=
  (walk_keeps (fun _ Q hs => hs.rotate Q) (fun _ Q hs => hs.expire Q) h order).of_same rfl rfl

end

/-- Accepting a revoked manifest for a configured publisher inside `verify` takes everything of it away. -/
theorem gone_of_accepted (hrev : m.revoked = true) (hconf : (s.publisherLists.lookup m.masterKey).isSome)
    (hacc : (s.publisherManifests.applyManifest env.signed m .uncapped).1 = .accepted) :
    Gone m.masterKey (s.verifyManifest env m).1 := by
  obtain ⟨c, hc⟩ := Option.isSome_iff_exists.1 hconf
  have hstored : (s.publisherManifests.applyManifest env.signed m .uncapped).2.map.lookup m.masterKey = some m :=
    ManifestCache.lookup_of_accepted hacc
  unfold verifyManifest
  dsimp only
  rw [if_pos ⟨hrev, hacc⟩]
  have hrem : (removePublisherList { s with publisherManifests :=
      (s.publisherManifests.applyManifest env.signed m .uncapped).2 } m.masterKey .revoked).publisherLists.lookup
        m.masterKey =
      some { c with status := .revoked, current := { c.current with list := [] } } := by
    unfold removePublisherList
    simp only [hc]
    exact AList.lookup_insert _
  rw [hrem]
  refine ⟨⟨m, ?_, hrev⟩, _, AList.lookup_insert _, rfl, rfl, rfl⟩
  change (removePublisherList _ _ _).publisherManifests.map.lookup m.masterKey = some m
  rw [removePublisherList_publisherManifests]
  exact hstored

/-- What can follow on a revocation: the rest of the call of `applyLists` that brought it, and later calls. No list
for the publisher is signed with its master key. -/
inductive Afterwards (env : Env Key) (P : Key) (s₀ : ValidatorList Key) : ValidatorList Key → Prop where
  | start : Afterwards env P s₀ s₀
  | applyList {s : ValidatorList Key} (h : Afterwards env P s₀ s) (now : Nat)
      (manifest : String) (info : ValidatorBlobInfo)
      (hsig : NotByMaster env manifest P info) : Afterwards env P s₀ (s.applyList env now manifest info).1
  | finishLists {s : ValidatorList Key} (h : Afterwards env P s₀ s) (result : PublisherListStats Key) :
      Afterwards env P s₀ (s.finishLists result).1
  | applyLists {s : ValidatorList Key} (h : Afterwards env P s₀ s) (now : Nat) (manifest : String) (version : Nat)
      (blobs : List ValidatorBlobInfo) (hsig : ∀ info ∈ blobs, NotByMaster env manifest P info) :
      Afterwards env P s₀ (s.applyLists env now manifest version blobs).1
  | updateTrusted {s : ValidatorList Key} (h : Afterwards env P s₀ s) (now closeTime : Nat) (order : List Key) :
      Afterwards env P s₀ (s.updateTrusted env now closeTime order)

/-- Nothing comes back in any run after the revocation. -/
theorem Afterwards.gone {s₀ : ValidatorList Key} (h : Afterwards env P s₀ s) (h₀ : Gone P s₀) : Gone P s := by
  induction h with
  | start => exact h₀
  | applyList _ now manifest info hsig ih => exact ih.applyList now hsig
  | finishLists _ result ih => exact finishLists_keeps ih (fun _ _ hc => ih.cleanUp hc) result
  | applyLists _ now manifest version blobs hsig ih =>
    exact applyLists_keeps ih (fun _ info hinfo hs => hs.applyList now (hsig info hinfo)) fun _ _ _ hs hc =>
      hs.cleanUp hc
  | updateTrusted _ now closeTime order ih => exact ih.updateTrusted order

/-- After a revoked manifest for a configured publisher is accepted, and as long as nobody signs a list for it with
its master key: the publisher stays revoked, without lists, so it adds nothing to any key's count. A list for it is
refused, unless its manifest is an older one that is not revoked and the master key signed it. -/
theorem revocation_is_final {m : Manifest Key} (hrev : m.revoked = true)
    (hconf : (s.publisherLists.lookup m.masterKey).isSome)
    (hacc : (s.publisherManifests.applyManifest env.signed m .uncapped).1 = .accepted) {s' : ValidatorList Key}
    (h : Afterwards env m.masterKey (s.verifyManifest env m).1 s') :
    (∃ c, s'.publisherLists.lookup m.masterKey = some c ∧ c.status = .revoked ∧
      c.current.list = [] ∧ c.remaining.toList = []) ∧
    (∀ k, m.masterKey ∉ s'.publishersOf k) ∧
    ∀ now manifest info m', ForPublisher env manifest m.masterKey info m' →
      (Refused (s'.applyList env now manifest info).2 ↔ ¬ LetThrough env now s' m' info) ∧
      (env.verifyBlob m.masterKey info.blob info.signature = false →
        Refused (s'.applyList env now manifest info).2) := by
  have hgone := h.gone (gone_of_accepted hrev hconf hacc)
  refine ⟨hgone.collection, fun k => ?_, fun now manifest info m' hfor => ?_⟩
  · rintro ⟨c, hc, hk⟩
    obtain ⟨c', hc', -, hlist, -⟩ := hgone.collection
    rw [Option.some.inj (hc.symm.trans hc'), hlist] at hk
    cases hk
  · have hiff : Refused (s'.applyList env now manifest info).2 ↔
      ¬ LetThrough env now s' m' info := hgone.refused_iff hfor
    exact ⟨hiff, fun hsig => hiff.2 (not_letThrough (by rw [hfor.2.2]; exact hsig))⟩

def revocation : Manifest Nat := ⟨[], 1, none, kRevokedSequence, [], by decide, by decide⟩

/-- Publisher 1 with an older manifest and the revoked one ("r"), and a list that its master key signed. -/
def stolenMaster : Env Nat where
  signed _ _ _ := true
  deserializeManifest text := if text = "r" then some revocation else some firstManifest
  verifyBlob k _ _ := k == 1
  parse _ := some ⟨some 1, some 100, none, some [⟨some 7, none⟩]⟩

/-- The same with lists that the signing key of the older manifest signed. -/
def oldSigningKey : Env Nat := { stolenMaster with verifyBlob := fun k _ _ => k == 11 }

/-- Publisher 1 with a list in effect. -/
def beforeRevocation : ValidatorList Nat := (twoPublishers.applyLists oldSigningKey 10 "" 1 [⟨"", "", none⟩]).1

/-- The revoked manifest comes in, then the older one again with a list, and an update. -/
def afterOldSigningKey : ValidatorList Nat :=
  (((beforeRevocation.verifyManifest oldSigningKey revocation).1.applyLists oldSigningKey 20 "" 1
    [⟨"", "", none⟩]).1.updateTrusted oldSigningKey 20 20 [1, 2])

theorem revocation_is_final_oldSigningKey :
    (beforeRevocation.publisherLists.lookup 1).map (fun c => (c.status, c.current.list)) = some (.available, [7]) ∧
      (∃ c, afterOldSigningKey.publisherLists.lookup 1 = some c ∧ c.status = .revoked ∧ c.current.list = []) ∧
      Refused (afterOldSigningKey.applyList oldSigningKey 21 "" ⟨"", "", none⟩).2 := by
  have hafter : Afterwards oldSigningKey 1 (beforeRevocation.verifyManifest oldSigningKey revocation).1
      afterOldSigningKey := by
    refine .updateTrusted (.applyLists .start 20 "" 1 _ ?_) 20 20 [1, 2]
    intro info _ m _
    rfl
  obtain ⟨⟨c, hc, hstatus, hlist, -⟩, -, hlater⟩ :=
    revocation_is_final (m := revocation) (by decide) (by decide +kernel) (by decide +kernel) hafter
  refine ⟨by decide +kernel, ⟨c, hc, hstatus, hlist⟩, ?_⟩
  exact (hlater 21 "" ⟨"", "", none⟩ firstManifest ⟨by decide, rfl, rfl⟩).2 rfl

/-- Publishers 1 and 2 after the revocation of 1. -/
def afterRevocation : ValidatorList Nat := (twoPublishers.applyLists stolenMaster 10 "r" 1 [⟨"", "", none⟩]).1

/-- The next call, with the older manifest and the list that the master key signed. -/
def afterStolenMaster : ValidatorList Nat × Except String (PublisherListStats Nat) :=
  afterRevocation.applyLists stolenMaster 20 "" 1 [⟨"", "", none⟩]

/-- Whoever has the master key of a revoked publisher brings it back with a list that this key signed. -/
theorem revoked_publisher_comes_back :
    afterRevocation.publisherManifests.revoked 1 = true ∧
    (afterRevocation.publisherLists.lookup 1).map (·.status) = some .revoked ∧
    afterStolenMaster.2.toOption.map (·.dispositions) = some [.accepted] ∧
    (afterStolenMaster.1.publisherLists.lookup 1).map (fun c => (c.status, c.current.list)) = some (.available, [7]) ∧
    afterStolenMaster.1.keyListings.lookup 7 = some 1 := by
  refine ⟨?_, ?_, ?_, ?_, ?_⟩ <;> decide +kernel

end ValidatorList

end Rippled.Validators
