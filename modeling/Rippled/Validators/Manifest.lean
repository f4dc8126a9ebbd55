import Rippled.Lib.HashMap
import Rippled.Protocol.STObject
/-!
# Manifests

A manifest binds a signing key to a master key (`Manifest.cpp`). The cache keeps one manifest for each master key, and
the master key of each signing key. `applyManifest` looks at the cache twice, first under a lock for reading, where it
also verifies the manifest, and then under a lock for writing; other calls can come between the two.

Signatures are checked by `signed`, which stands for `xrpl::verify` of the object in a manifest's bytes.
-/

namespace Rippled.Validators

open Lib Basics Protocol

/-! ## Keys -/

/-- Whether `publicKeyType` knows the key's type. -/
def isPublicKey (slice : Bytes) : Bool :=
  decide (slice.length = 33) && (slice.head? == some 0xED || slice.head? == some 0x02 || slice.head? == some 0x03)

structure PublicKey where
  bytes : Bytes
  valid : isPublicKey bytes = true
  deriving DecidableEq

def PublicKey.ofSlice (slice : Bytes) : Option PublicKey :=
  if h : isPublicKey slice = true then some ⟨slice, h⟩ else none

/-! ## One manifest -/

/-- The sequence number that revokes a master key. -/
def kRevokedSequence : UInt32 := 0xffffffff

/-- A manifest has a signing key unless it is revoked, and that is not the master key: `deserializeManifest` makes no
others. -/
structure Manifest (Key : Type) where
  serialized : Bytes
  masterKey : Key
  signingKey : Option Key
  sequence : UInt32
  domain : Bytes
  unseated_iff : signingKey = none ↔ sequence = kRevokedSequence
  distinct : signingKey ≠ some masterKey
  deriving DecidableEq

namespace Manifest

variable {Key : Type}

def revoked (m : Manifest Key) : Bool := m.sequence == kRevokedSequence

variable {m : Manifest Key}

theorem revoked_iff : m.revoked = true ↔ m.signingKey = none := by
  rw [revoked, beq_iff_eq, m.unseated_iff]

theorem exists_signingKey (h : m.revoked = false) : ∃ s, m.signingKey = some s := by
  rw [← Option.ne_none_iff_exists', Ne, ← revoked_iff, h]
  decide

theorem sequence_le_of_revoked (h : m.revoked = true) (n : UInt32) : n ≤ m.sequence := by
  rw [revoked, beq_iff_eq] at h
  rw [h, UInt32.le_iff_toNat_le]
  have := n.toNat_lt
  change n.toNat ≤ 4294967295
  omega

def verify (signed : Bytes → Key → SField → Bool) (m : Manifest Key) : Bool :=
  if !m.revoked && m.signingKey.isNone then false
  else if !m.revoked && !(m.signingKey.any fun k => signed m.serialized k SField.sfSignature) then false
  else signed m.serialized m.masterKey SField.sfMasterSignature

end Manifest

/-! ## The cache -/

inductive ManifestDisposition where
  | accepted
  | stale
  | badMasterKey
  | badEphemeralKey
  | invalid
  | untrustedCapacity
  deriving DecidableEq

inductive ManifestRateLimitCapPolicy where
  | capped
  | uncapped
  deriving DecidableEq

structure ManifestCache (Key : Type) [DecidableEq Key] where
  map : HashMap Key (Manifest Key)
  signingToMasterKeys : HashMap Key Key
  untrustedKeys : Finset Key
  maxUntrustedCount : Nat

namespace ManifestCache

variable {Key : Type} [DecidableEq Key]

def init (maxUntrustedCount : Nat) : ManifestCache Key := ⟨∅, ∅, ∅, maxUntrustedCount⟩

variable (c : ManifestCache Key)

def getSigningKey (pk : Key) : Option Key :=
  match c.map.lookup pk with
  | some m => if m.revoked then some pk else m.signingKey
  | none => some pk

def getMasterKey (pk : Key) : Key :=
  match c.signingToMasterKeys.lookup pk with
  | some k => k
  | none => pk

def revoked (pk : Key) : Bool :=
  match c.map.lookup pk with
  | some m => m.revoked
  | none => false

/-- The checks on the signing key of a manifest that is not revoked. -/
def checkSigningKey (m : Manifest Key) : Option ManifestDisposition :=
  match m.signingKey with
  | none => some .invalid
  | some s =>
    if (c.signingToMasterKeys.lookup s).isSome then some .badEphemeralKey
    else if (c.map.lookup s).isSome then some .badEphemeralKey
    else none

variable (signed : Bytes → Key → SField → Bool) (c : ManifestCache Key) (m : Manifest Key)

def prewriteCheck (checkSignature : Bool) : Option ManifestDisposition :=
  if (c.map.lookup m.masterKey).any fun old => m.sequence ≤ old.sequence then some .stale
  else if checkSignature && !m.verify signed then some .invalid
  else if (c.signingToMasterKeys.lookup m.masterKey).isSome then some .badMasterKey
  else if m.revoked then none
  else c.checkSigningKey m

def atUntrustedCap (cap : ManifestRateLimitCapPolicy) : Bool :=
  (c.map.lookup m.masterKey).isNone && cap != .uncapped && decide (c.untrustedKeys.card ≥ c.maxUntrustedCount)

/-- The part of `applyManifest` under the lock for reading: the disposition, if that is settled here. -/
def applyManifestRead (cap : ManifestRateLimitCapPolicy) : Option ManifestDisposition :=
  if c.atUntrustedCap m cap then some .untrustedCapacity else c.prewriteCheck signed m true

/-- `signingToMasterKeys_` with the signing key of a manifest that is not revoked. -/
def emplaceSigningKey (signing : HashMap Key Key) (m : Manifest Key) : HashMap Key Key :=
  match m.signingKey with
  | none => signing
  | some s => signing.emplace s m.masterKey

def acceptNew (cap : ManifestRateLimitCapPolicy) : ManifestCache Key :=
  { c with
    signingToMasterKeys := emplaceSigningKey c.signingToMasterKeys m
    untrustedKeys := if cap = .uncapped then c.untrustedKeys else insert m.masterKey c.untrustedKeys
    map := c.map.emplace m.masterKey m }

/-- A manifest in the place of `old`, whose signing key is taken without a check: `old` is not revoked. -/
def acceptUpdate (old m : Manifest Key) (cap : ManifestRateLimitCapPolicy) : ManifestCache Key :=
  let signing := match old.signingKey with
    | none => c.signingToMasterKeys
    | some s => c.signingToMasterKeys.erase s
  { c with
    untrustedKeys := if cap = .uncapped then c.untrustedKeys.erase m.masterKey else c.untrustedKeys
    signingToMasterKeys := emplaceSigningKey signing m
    map := c.map.insert m.masterKey m }

/-- The part of `applyManifest` under the lock for writing. -/
def applyManifestWrite (cap : ManifestRateLimitCapPolicy) : ManifestDisposition × ManifestCache Key :=
  if c.atUntrustedCap m cap then (.untrustedCapacity, c)
  else
    match c.prewriteCheck signed m false with
    | some d => (d, c)
    | none =>
      match c.map.lookup m.masterKey with
      | none => (.accepted, c.acceptNew m cap)
      | some old => (.accepted, c.acceptUpdate old m cap)

/-- `applyManifest` when no other call comes between its two parts. -/
def applyManifest (cap : ManifestRateLimitCapPolicy) : ManifestDisposition × ManifestCache Key :=
  match c.applyManifestRead signed m cap with
  | some d => (d, c)
  | none => c.applyManifestWrite signed m cap

def promoteToTrusted (pk : Key) : ManifestCache Key :=
  { c with untrustedKeys := c.untrustedKeys.erase pk }

end ManifestCache

end Rippled.Validators
