import Rippled.Lib.KeyedMap
import Rippled.Validators.Manifest
/-!
# Lists of trusted validators

`ValidatorList.cpp`: lists of validators that publishers sign, as they are verified, stored, brought into effect and
counted. Of a list only what decides about validators is here, not its raw form or where it came from.

Base64, hex and JSON texts are read, and signatures checked, by an `Env`. A call that throws leaves the state as it is
at that point. The order in which a hash table is walked is an argument.
-/

namespace Rippled.Validators

open Lib Protocol

/-- From the best to the worst. -/
inductive ListDisposition where
  | accepted
  | expired
  | pending
  | sameSequence
  | knownSequence
  | stale
  | untrusted
  | unsupportedVersion
  | invalid
  deriving DecidableEq

def ListDisposition.rank : ListDisposition → Nat
  | accepted => 0
  | expired => 1
  | pending => 2
  | sameSequence => 3
  | knownSequence => 4
  | stale => 5
  | untrusted => 6
  | unsupportedVersion => 7
  | invalid => 8

inductive PublisherStatus where
  | available
  | expired
  | unavailable
  | revoked
  deriving DecidableEq

/-! ## What is read -/

/-- An element of `validators` that is an object with a text `validation_public_key`: the key, if it is one, and the
text of the manifest, if there is one. -/
structure ValidatorEntry (Key : Type) where
  key : Option Key
  manifest : Option String

/-- What the JSON of a list has: members that are integers, where `effective` may be absent (`none`) or not an integer
(`some none`), and the array of validators. -/
structure ListJson (Key : Type) where
  sequence : Option Int
  expiration : Option Int
  effective : Option (Option Int)
  validators : Option (List (ValidatorEntry Key))

/-- A list that is well formed. Times are seconds. -/
structure ParsedList (Key : Type) where
  sequence : Nat
  validFrom : Nat
  validUntil : Nat
  validators : List (ValidatorEntry Key)

/-- `json::Value::asUInt` of an integer. -/
def asUInt (n : Int) : Except String Nat :=
  if n < 0 then .error "Negative integer can not be converted to unsigned integer" else .ok n.toNat

/-- The members that `verify` asks for, or nothing if one is missing or of the wrong type. -/
def readList {Key : Type} (j : ListJson Key) : Except String (Option (ParsedList Key)) :=
  match j.sequence, j.expiration, j.effective, j.validators with
  | some seq, some exp, none, some vals => do
    let seq ← asUInt seq
    let exp ← asUInt exp
    .ok (some ⟨seq, 0, exp, vals⟩)
  | some seq, some exp, some (some eff), some vals => do
    let seq ← asUInt seq
    let eff ← asUInt eff
    let exp ← asUInt exp
    .ok (some ⟨seq, eff, exp, vals⟩)
  | _, _, _, _ => .ok none

/-- Reading texts and checking signatures. -/
structure Env (Key : Type) where
  /-- `xrpl::verify` of the object in a manifest's bytes. -/
  signed : Bytes → Key → SField → Bool
  /-- `deserializeManifest(base64Decode(s))`. -/
  deserializeManifest : String → Option (Manifest Key)
  /-- `xrpl::verify` of the decoded blob, with a signature in hex. -/
  verifyBlob : Key → String → String → Bool
  /-- `json::Reader::parse` of the decoded blob. -/
  parse : String → Option (ListJson Key)

structure ValidatorBlobInfo where
  blob : String
  signature : String
  manifest : Option String

def kMaxManifestBase64 : Nat := 480

/-! ## What is kept -/

structure PublisherList (Key : Type) where
  list : List Key := []
  manifests : List String := []
  sequence : Nat := 0
  validFrom : Nat := 0
  validUntil : Nat := 0

instance {Key : Type} : Keyed (PublisherList Key) Nat := ⟨PublisherList.sequence⟩

structure PublisherListCollection (Key : Type) where
  status : PublisherStatus := .unavailable
  current : PublisherList Key := {}
  remaining : KeyedMap (PublisherList Key) := ∅
  maxSequence : Option Nat := none

structure ValidatorList (Key : Type) [DecidableEq Key] where
  validatorManifests : ManifestCache Key
  publisherManifests : ManifestCache Key
  publisherLists : HashMap Key (PublisherListCollection Key)
  keyListings : HashMap Key Nat
  trustedMasterKeys : Finset Key
  listThreshold : Nat
  localPubKey : Option Key
  localPublisherList : List Key

/-- `PublisherListStats`, with the dispositions one by one. -/
structure PublisherListStats (Key : Type) where
  dispositions : List ListDisposition := []
  publisherKey : Option Key := none
  status : PublisherStatus := .unavailable
  sequence : Nat := 0

namespace PublisherListStats

variable {Key : Type}

def better (a b : ListDisposition) : ListDisposition := if a.rank ≤ b.rank then a else b

def bestDisposition (r : PublisherListStats Key) : ListDisposition := r.dispositions.foldr better .invalid

def mergeDispositions (r src : PublisherListStats Key) : PublisherListStats Key :=
  { r with dispositions := r.dispositions ++ src.dispositions }

end PublisherListStats

/-! ## Counting lists -/

section Count

variable {Key : Type} [DecidableEq Key]

/-- `++keyListings_[k]`. -/
def increment (kl : HashMap Key Nat) (k : Key) : HashMap Key Nat := kl.insert k ((kl.lookup k).getD 0 + 1)

/-- `--keyListings_[k]`, where an entry that is at most one goes. -/
def decrement (kl : HashMap Key Nat) (k : Key) : HashMap Key Nat :=
  match kl.lookup k with
  | none => kl
  | some n => if n ≤ 1 then kl.erase k else kl.insert k (n - 1)

end Count

/-- The list after the pass of `applyLists` over what is pending: a list goes if its sequence is not above the current
one, or if the next one starts no later. -/
def prune {Key : Type} (current : Nat) : List (PublisherList Key) → List (PublisherList Key)
  | [] => []
  | p :: rest =>
    if p.sequence ≤ current ∨ (rest.head?.any fun next => next.validFrom ≤ p.validFrom) then prune current rest
    else p :: prune current rest

theorem prune_sublist {Key : Type} (current : Nat) (l : List (PublisherList Key)) : (prune current l).Sublist l := by
  induction l with
  | nil => exact List.Sublist.refl _
  | cons p rest ih =>
    rw [prune]
    split
    · exact ih.cons p
    · exact ih.cons_cons p

namespace PublisherListCollection

variable {Key : Type} (c : PublisherListCollection Key)

def cleanUp : PublisherListCollection Key :=
  { c with remaining := ⟨prune c.current.sequence c.remaining.toList, c.remaining.sorted.sublist (prune_sublist _ _)⟩ }

/-- The pending lists that are due, up to the first one that is not. -/
def due (closeTime : Nat) : List (PublisherList Key) := c.remaining.toList.takeWhile fun p => p.validFrom ≤ closeTime

/-- The pending lists after those that are due. -/
def notDue (closeTime : Nat) : KeyedMap (PublisherList Key) :=
  ⟨c.remaining.toList.dropWhile fun p => p.validFrom ≤ closeTime, c.remaining.sorted.sublist (List.dropWhile_sublist _)⟩

/-- What `verify` says about a list that is signed and well formed. -/
def classify (now : Nat) (l : ParsedList Key) : Except String ListDisposition :=
  if l.validUntil ≤ l.validFrom then .ok .invalid
  else if l.sequence < c.current.sequence then .ok .stale
  else if l.sequence = c.current.sequence then .ok .sameSequence
  else if l.validUntil ≤ now then .ok .expired
  else if l.validFrom > now then
    match c.maxSequence with
    | none => .ok .pending
    | some max =>
      if l.sequence > max then .ok .pending
      else if (c.remaining.find l.sequence).isSome then .ok .knownSequence
      else
        match c.remaining.find max with
        | none => .error "map::at"
        | some last => .ok (if l.validFrom < last.validFrom then .pending else .knownSequence)
  else .ok .accepted

variable [LinearOrder Key]

/-- A list written over what was there. Manifests are only added. -/
def fill (p : PublisherList Key) (l : ParsedList Key) : PublisherList Key where
  list := (l.validators.filterMap (·.key)).insertionSort (· ≤ ·)
  manifests := p.manifests ++ l.validators.filterMap (·.manifest)
  sequence := l.sequence
  validFrom := l.validFrom
  validUntil := l.validUntil

/-- The collection with a list that is accepted, expired or pending. -/
def store (l : ParsedList Key) (result : ListDisposition) : PublisherListCollection Key :=
  let max := match c.maxSequence with
    | none => l.sequence
    | some max => if l.sequence > max then l.sequence else max
  if result = .accepted ∨ result = .expired then
    let status := if result = .accepted then PublisherStatus.available else .expired
    match c.remaining.find l.sequence with
    | some publisher => ⟨status, publisher, c.remaining.erase l.sequence, some max⟩
    | none => ⟨status, fill c.current l, c.remaining, some max⟩
  else
    { c with remaining := c.remaining.insert (fill ((c.remaining.find l.sequence).getD {}) l), maxSequence := some max }

end PublisherListCollection

namespace ValidatorList

variable {Key : Type} [LinearOrder Key] (s : ValidatorList Key)

def setCollection (pubKey : Key) (c : PublisherListCollection Key) : ValidatorList Key :=
  { s with publisherLists := s.publisherLists.insert pubKey c }

def removePublisherList (publisherKey : Key) (reason : PublisherStatus) : ValidatorList Key :=
  match s.publisherLists.lookup publisherKey with
  | none => s
  | some c =>
    { s.setCollection publisherKey { c with status := reason, current := { c.current with list := [] } } with
      keyListings := c.current.list.foldl decrement s.keyListings }

/-- The loop of `updatePublisherList` over the sorted new and old lists, for as many rounds as they have keys. -/
def walkLists : Nat → List Key → List Key → ValidatorList Key → ValidatorList Key
  | 0, _, _, s => s
  | fuel + 1, iNew, iOld, s =>
    match iNew, iOld with
    | [], [] => s
    | k :: iNew, [] => walkLists fuel iNew [] (added s k)
    | [], k :: iOld => walkLists fuel [] iOld { s with keyListings := decrement s.keyListings k }
    | k :: iNew, k' :: iOld =>
      if k < k' then walkLists fuel iNew (k' :: iOld) (added s k)
      else if k' < k then walkLists fuel (k :: iNew) iOld { s with keyListings := decrement s.keyListings k' }
      else walkLists fuel iNew iOld s
where
  added (s : ValidatorList Key) (k : Key) : ValidatorList Key :=
    { s with
      keyListings := increment s.keyListings k
      validatorManifests := s.validatorManifests.promoteToTrusted k }

/-- A manifest that came with a list, applied if its master key is listed. -/
def applyListed (env : Env Key) (s : ValidatorList Key) (text : String) : ValidatorList Key :=
  match env.deserializeManifest text with
  | none => s
  | some m =>
    if (s.keyListings.lookup m.masterKey).isSome then
      { s with validatorManifests := (s.validatorManifests.applyManifest env.signed m .uncapped).2 }
    else s

def updatePublisherList (env : Env Key) (s : ValidatorList Key) (current : PublisherList Key) (oldList : List Key) :
    ValidatorList Key :=
  current.manifests.foldl (applyListed env)
    (walkLists (current.list.length + oldList.length) current.list oldList s)

/-! ## Taking in lists -/

section Apply

variable (env : Env Key) (now : Nat) (s : ValidatorList Key)

/-- The part of `verify` that applies the manifest: the key that has to have signed the list, if it can be trusted. -/
def verifyManifest (m : Manifest Key) : ValidatorList Key × Option Key :=
  let (result, publisherManifests) := s.publisherManifests.applyManifest env.signed m .uncapped
  let s := { s with publisherManifests }
  let s :=
    if m.revoked ∧ result = .accepted then
      let s := s.removePublisherList m.masterKey .revoked
      match s.publisherLists.lookup m.masterKey with
      | none => s
      | some c => s.setCollection m.masterKey { c with remaining := ∅ }
    else s
  (s, if m.revoked ∨ result = .invalid then none else publisherManifests.getSigningKey m.masterKey)

/-- The list in a blob, if it is signed and well formed. -/
def openBlob (signingKey : Key) (info : ValidatorBlobInfo) : Except String (Option (ParsedList Key)) :=
  if !env.verifyBlob signingKey info.blob info.signature then .ok none
  else
    match env.parse info.blob with
    | none => .ok none
    | some j => readList j

/-- `verify`, for a publisher that is configured. -/
def verify (m : Manifest Key) (info : ValidatorBlobInfo) :
    ValidatorList Key × Except String (ListDisposition × Option (ParsedList Key)) :=
  let (s, signingKey) := s.verifyManifest env m
  match signingKey with
  | none => (s, .ok (.untrusted, none))
  | some k =>
    match openBlob env k info with
    | .error e => (s, .error e)
    | .ok none => (s, .ok (.invalid, none))
    | .ok (some l) => (s, (((s.publisherLists.lookup m.masterKey).getD {}).classify now l).map fun d => (d, some l))

/-- The result for a list that is not stored. -/
def refused (pubKey : Key) (result : ListDisposition) : PublisherListStats Key :=
  match s.publisherLists.lookup pubKey with
  | none => { dispositions := [result] }
  | some c =>
    match c.maxSequence with
    | some max =>
      if result = .sameSequence ∨ result = .knownSequence then ⟨[result], some pubKey, c.status, max⟩
      else { dispositions := [result] }
    | none => { dispositions := [result] }

/-- The rest of `applyList` for a list that is accepted, expired or pending. -/
def storeList (pubKey : Key) (l : ParsedList Key) (result : ListDisposition) :
    ValidatorList Key × PublisherListStats Key :=
  let old := (s.publisherLists.lookup pubKey).getD {}
  let c := old.store l result
  let s := s.setCollection pubKey c
  let s := if result = .accepted ∨ result = .expired then s.updatePublisherList env c.current old.current.list else s
  (s, ⟨[result], some pubKey, c.status, c.maxSequence.getD 0⟩)

/-- The part of `applyList` after the manifest is read. -/
def applyVerified (m : Manifest Key) (info : ValidatorBlobInfo) :
    ValidatorList Key × Except String (PublisherListStats Key) :=
  if (s.publisherLists.lookup m.masterKey).isNone then (s, .ok { dispositions := [.untrusted] })
  else
    match s.verify env now m info with
    | (s, .error e) => (s, .error e)
    | (s, .ok (result, l)) =>
      if result.rank > ListDisposition.pending.rank then (s, .ok (s.refused m.masterKey result))
      else
        match l with
        | none => (s, .ok { dispositions := [result] })
        | some l =>
          let (s, stats) := s.storeList env m.masterKey l result
          (s, .ok stats)

def applyList (globalManifest : String) (s : ValidatorList Key) (info : ValidatorBlobInfo) :
    ValidatorList Key × Except String (PublisherListStats Key) :=
  let text := info.manifest.getD globalManifest
  if text.length > kMaxManifestBase64 then (s, .ok { dispositions := [.invalid] })
  else
    match env.deserializeManifest text with
    | none => (s, .ok { dispositions := [.invalid] })
    | some m => s.applyVerified env now m info

/-- The results of two blobs as one. -/
def combine (result stats : PublisherListStats Key) : PublisherListStats Key :=
  if stats.bestDisposition.rank < result.bestDisposition.rank ∨
      (stats.bestDisposition = result.bestDisposition ∧ stats.sequence > result.sequence) then
    stats.mergeDispositions result
  else result.mergeDispositions stats

/-- The loop of `applyLists` over the blobs. -/
def applyBlobs (globalManifest : String) :
    List ValidatorBlobInfo → PublisherListStats Key → ValidatorList Key →
      ValidatorList Key × Except String (PublisherListStats Key)
  | [], result, s => (s, .ok result)
  | info :: blobs, result, s =>
    match s.applyList env now globalManifest info with
    | (s, .error e) => (s, .error e)
    | (s, .ok stats) => applyBlobs globalManifest blobs (combine result stats) s

/-- The end of `applyLists`: the pending lists of the publisher are cleaned up. -/
def finishLists (result : PublisherListStats Key) : ValidatorList Key × PublisherListStats Key :=
  match result.publisherKey with
  | none => (s, result)
  | some pubKey =>
    match s.publisherLists.lookup pubKey with
    | none => (s, result)
    | some c => (s.setCollection pubKey c.cleanUp, { result with sequence := c.maxSequence.getD 0 })

def applyLists (manifest : String) (version : Nat) (blobs : List ValidatorBlobInfo) (s : ValidatorList Key) :
    ValidatorList Key × Except String (PublisherListStats Key) :=
  if version ≠ 1 ∧ version ≠ 2 then (s, .ok { dispositions := [.unsupportedVersion] })
  else
    match s.applyBlobs env now manifest blobs {} with
    | (s, .error e) => (s, .error e)
    | (s, .ok result) =>
      let (s, result) := s.finishLists result
      (s, .ok result)

/-! ## Bringing lists into effect -/

/-- A pending list that is due becomes the current one. -/
def rotate (closeTime : Nat) (s : ValidatorList Key) (pubKey : Key) : ValidatorList Key :=
  match s.publisherLists.lookup pubKey with
  | none => s
  | some c =>
    match (c.due closeTime).getLast? with
    | none => s
    | some candidate =>
      let current := if candidate.validUntil ≤ closeTime then { candidate with list := [] } else candidate
      let s := s.setCollection pubKey { c with status := .available, current, remaining := c.notDue closeTime }
      s.updatePublisherList env current c.current.list

/-- A current list that is over goes. -/
def expire (closeTime : Nat) (s : ValidatorList Key) (pubKey : Key) : ValidatorList Key :=
  match s.publisherLists.lookup pubKey with
  | none => s
  | some c =>
    if c.status = .available ∧ c.current.validUntil ≤ closeTime then s.removePublisherList pubKey .expired else s

def trustable (k : Key) : Bool :=
  (s.keyListings.lookup k).any (fun n => n ≥ s.listThreshold) && !s.validatorManifests.revoked k

/-- The loops of `updateTrusted` over the trusted and the listed keys. -/
def updateTrustedKeys : ValidatorList Key :=
  { s with trustedMasterKeys :=
      s.trustedMasterKeys.filter (s.trustable · = true) ∪ (s.keyListings.keys.toFinset.filter (s.trustable · = true)) }

/-- The first part of `updateTrusted`: the publishers' lists are brought up to date. `order` is how `publisherLists_` is
walked. -/
def updateLists (closeTime : Nat) (order : List Key) (s : ValidatorList Key) : ValidatorList Key :=
  let closeTime := if now > closeTime + 30 then now else closeTime
  order.foldl (fun s pubKey => (s.rotate env closeTime pubKey).expire closeTime pubKey) s

def updateTrusted (closeTime : Nat) (order : List Key) (s : ValidatorList Key) : ValidatorList Key :=
  (s.updateLists env now closeTime order).updateTrustedKeys

end Apply

/-! ## Loading the configuration -/

def init (validatorManifests publisherManifests : ManifestCache Key) : ValidatorList Key :=
  ⟨validatorManifests, publisherManifests, ∅, ∅, ∅, 1, none, []⟩

/-- The loop of `load` over the publishers' keys. -/
def loadPublishers : List (Option Key) → ValidatorList Key → Option (ValidatorList Key)
  | [], s => some s
  | none :: _, _ => none
  | some id :: keys, s =>
    if (s.publisherLists.lookup id).isSome then loadPublishers keys s
    else
      let status := if s.publisherManifests.revoked id then PublisherStatus.revoked else .unavailable
      loadPublishers keys (s.setCollection id { status := status })

/-- The loop of `load` over the configured validators. -/
def loadKeys (localSigningKey : Option Key) : List (Option Key) → ValidatorList Key → Option (ValidatorList Key)
  | [], s => some s
  | none :: _, _ => none
  | some id :: keys, s =>
    if some id = s.localPubKey ∨ some id = localSigningKey then loadKeys localSigningKey keys s
    else if (s.keyListings.lookup id).isSome then loadKeys localSigningKey keys s
    else
      loadKeys localSigningKey keys
        { s with
          keyListings := s.keyListings.insert id s.listThreshold
          localPublisherList := s.localPublisherList ++ [id] }

/-- The threshold, from the configuration or by the number of publishers. -/
def threshold (listThreshold : Option Nat) (publishers : Nat) : Option Nat :=
  match listThreshold with
  | some n => if 0 < n ∧ n ≤ publishers then some n else none
  | none => some (if publishers < 3 then 1 else publishers / 2 + 1)

/-- The local validator as though it was configured. -/
def loadLocal (localSigningKey : Option Key) : ValidatorList Key :=
  match localSigningKey with
  | none => s
  | some k =>
    let master := s.validatorManifests.getMasterKey k
    { s with localPubKey := some master, keyListings := s.keyListings.emplace master s.listThreshold }

/-- `load`, for keys that are read already (`none` for a text that is no key): nothing if it returns false or its
assertion fails. -/
def load (localSigningKey : Option Key) (configKeys publisherKeys : List (Option Key)) (listThreshold : Option Nat)
    (s : ValidatorList Key) : Option (ValidatorList Key) := do
  let s ← loadPublishers publisherKeys s
  let n ← threshold listThreshold s.publisherLists.keys.length
  loadKeys localSigningKey configKeys (loadLocal { s with listThreshold := n } localSigningKey)

end ValidatorList

end Rippled.Validators
