import Rippled.Consensus.LedgerTrie
import Rippled.Lib.HashMap

/-!
# Validations

The store of recent validations (`Validations.h`): the current validation of every node, the ledgers being
acquired for them, and the trie of the ledgers last validated. The network clock, the steady clock and the
acquisition of ledgers are the adaptor's, whose state may change with every call.

Times are integers: the source promotes them to a signed type before it computes with them.
-/

namespace Rippled.Consensus

open Lib

structure ValidationParms where
  validationCurrentWall : Int := 300
  validationCurrentLocal : Int := 180
  validationCurrentEarly : Int := 180
  validationSetExpires : Int := 600
  validationFRESHNESS : Int := 20

/-- Enforces that the sequence numbers of unexpired validations increase. -/
structure SeqEnforcer where
  seq : Nat := 0
  when_ : Int := 0

/-- Try to advance the largest sequence number. -/
def SeqEnforcer.call (e : SeqEnforcer) (now : Int) (s : Nat) (p : ValidationParms) : Bool × SeqEnforcer :=
  let e := if now > e.when_ + p.validationSetExpires then { e with seq := 0 } else e
  if s ≤ e.seq then (false, e) else (true, { seq := s, when_ := now })

def SeqEnforcer.largest (e : SeqEnforcer) : Nat := e.seq

/-- Whether a validation can still be the current one of its node; a `seenTime` of zero is not set. -/
def isCurrent (p : ValidationParms) (now signTime seenTime : Int) : Bool :=
  now - p.validationCurrentEarly < signTime && signTime < now + p.validationCurrentWall &&
    (seenTime = 0 || seenTime < now + p.validationCurrentLocal)

inductive ValStatus where
  | current
  | stale
  | badSeq
  | multiple
  | conflicting
  deriving DecidableEq

structure Validation (ID : Type) where
  ledgerID : ID
  seq : Nat
  signTime : Int
  seenTime : Int
  trusted : Bool
  full : Bool
  cookie : Nat

/-- The adaptor: the network time, the steady clock, and attempts to acquire a ledger. -/
class Adaptor (A : Type) (L : outParam Type) {ID : outParam Type} [Ledger L ID] where
  now : A → Int × A
  clock : A → Int × A
  acquire : ID → A → Option L × A

/-- An aged map: its entries in chronological order, each with the time it was made or last touched. -/
abbrev AgedMap (κ β : Type) := List (κ × Int × β)

namespace AgedMap

variable {κ β : Type} [DecidableEq κ]

def find (m : AgedMap κ β) (k : κ) : Option β := (List.find? (fun e => e.1 = k) m).map (·.2.2)

/-- Write to the entry of a key; a new entry is stamped with `now`. -/
def set (m : AgedMap κ β) (k : κ) (now : Int) (b : β) : AgedMap κ β :=
  if (m.find k).isSome then m.map fun e => if e.1 = k then (k, e.2.1, b) else e else m ++ [(k, now, b)]

/-- Restamp the entries that satisfy `p`. -/
def touch (m : AgedMap κ β) (now : Int) (p : κ → β → Bool) : AgedMap κ β :=
  m.filter (fun e => !p e.1 e.2.2) ++ (m.filter fun e => p e.1 e.2.2).map fun e => (e.1, now, e.2.2)

/-- `beast::expire`: drop the entries older than `age`, oldest first. -/
def expire (m : AgedMap κ β) (now age : Int) : AgedMap κ β := m.dropWhile fun e => e.2.1 ≤ now - age

end AgedMap

structure Validations (A NodeID L ID : Type) where
  current : HashMap NodeID (Validation ID)
  localSeqEnforcer : SeqEnforcer
  seqEnforcers : HashMap NodeID SeqEnforcer
  byLedger : AgedMap ID (HashMap NodeID (Validation ID))
  bySequence : AgedMap Nat (HashMap NodeID (Validation ID))
  toKeep : Option (Nat × Nat)
  /-- The static `kRefreshTime` of `expire`. -/
  refreshTime : Int
  trie : LedgerTrie L
  lastLedger : HashMap NodeID L
  acquiring : HashMap (Nat × ID) (List NodeID)
  parms : ValidationParms
  adaptor : A

namespace Validations

variable {A NodeID L ID : Type} [Ledger L ID] [Adaptor A L] [DecidableEq NodeID]

def init (p : ValidationParms) (a : A) : Validations A NodeID L ID where
  current := ∅
  localSeqEnforcer := {}
  seqEnforcers := ∅
  byLedger := []
  bySequence := []
  toKeep := none
  refreshTime := 0
  trie := .init
  lastLedger := ∅
  acquiring := ∅
  parms := p
  adaptor := a

section Trie
variable [DecidableEq ID]

/-- Take a node off the list for a ledger being acquired; an empty list goes. -/
def dropAcquiring (key : Nat × ID) (nodeID : NodeID) (s : Validations A NodeID L ID) : Validations A NodeID L ID :=
  match s.acquiring.lookup key with
  | none => s
  | some nodes =>
    if nodes.erase nodeID = [] then { s with acquiring := s.acquiring.erase key }
    else { s with acquiring := s.acquiring.insert key (nodes.erase nodeID) }

/-- Remove support of a validated ledger. -/
def removeTrie (nodeID : NodeID) (val : Validation ID) (s : Validations A NodeID L ID) :
    Option (Validations A NodeID L ID) :=
  let s := s.dropAcquiring (val.seq, val.ledgerID) nodeID
  match s.lastLedger.lookup nodeID with
  | none => some s
  | some ledger =>
    if Ledger.id ledger = val.ledgerID then do
      let (_, trie) ← s.trie.remove ledger 1
      return { s with trie := trie, lastLedger := s.lastLedger.erase nodeID }
    else some s

/-- The trie without the support of a node's last ledger. -/
def withoutLast (nodeID : NodeID) (s : Validations A NodeID L ID) : Option (LedgerTrie L) :=
  match s.lastLedger.lookup nodeID with
  | none => some s.trie
  | some old => (s.trie.remove old 1).map (·.2)

/-- Update the trie to reflect a new validated ledger. -/
def updateLedger (nodeID : NodeID) (ledger : L) (s : Validations A NodeID L ID) : Option (Validations A NodeID L ID) :=
  do
  let trie ← s.withoutLast nodeID
  let trie ← trie.insert ledger 1
  return { s with trie := trie, lastLedger := s.lastLedger.insert nodeID ledger }

/-- One round of `checkAcquired`, for the nodes waiting for one ledger. -/
def checkOne (s : Validations A NodeID L ID) (e : Σ _ : Nat × ID, List NodeID) : Option (Validations A NodeID L ID) :=
  match Adaptor.acquire e.1.2 s.adaptor with
  | (none, a) => some { s with adaptor := a }
  | (some ledger, a) => do
    let s ← e.2.foldlM (fun s nodeID => updateLedger nodeID ledger s) { s with adaptor := a }
    return { s with acquiring := s.acquiring.erase e.1 }

/-- Check if any pending acquire ledger requests are complete. -/
def checkAcquired (s : Validations A NodeID L ID) : Option (Validations A NodeID L ID) :=
  s.acquiring.entries.foldlM checkOne s

/-- `updateTrie`: clear any prior acquiring ledger for this node. -/
def clearPrior (prior : Option (Nat × ID)) (nodeID : NodeID) (s : Validations A NodeID L ID) :
    Validations A NodeID L ID :=
  match prior with
  | none => s
  | some key => s.dropAcquiring key nodeID

/-- `updateTrie`, after the check for acquired ledgers: the node joins those waiting for the ledger, or the ledger is
acquired, or the node is the first to wait for it. -/
def acquireOrWait (nodeID : NodeID) (val : Validation ID) (s : Validations A NodeID L ID) :
    Option (Validations A NodeID L ID) :=
  match s.acquiring.lookup (val.seq, val.ledgerID) with
  | some nodes => some { s with acquiring := s.acquiring.insert (val.seq, val.ledgerID) (nodes.insert nodeID) }
  | none =>
    match Adaptor.acquire val.ledgerID s.adaptor with
    | (some ledger, a) => updateLedger nodeID ledger { s with adaptor := a }
    | (none, a) =>
      some { s with adaptor := a, acquiring := s.acquiring.insert (val.seq, val.ledgerID) [nodeID] }

/-- Process a new validation; `prior` is the ledger of the node's last current one. -/
def updateTrie (nodeID : NodeID) (val : Validation ID) (prior : Option (Nat × ID)) (s : Validations A NodeID L ID) :
    Option (Validations A NodeID L ID) := do
  let s ← (s.clearPrior prior nodeID).checkAcquired
  s.acquireOrWait nodeID val

/-- One round of the loop of `current`: a stale validation is flushed. -/
def flushOne (t : Int) (s : Validations A NodeID L ID) (e : Σ _ : NodeID, Validation ID) :
    Option (Validations A NodeID L ID) :=
  if isCurrent s.parms t e.2.signTime e.2.seenTime then some s
  else do
    let s ← s.removeTrie e.1 e.2
    return { s with current := s.current.erase e.1 }

/-- `current`: flush the stale validations. Those that remain are the ones its callback sees. -/
def flushStale (s : Validations A NodeID L ID) : Option (Validations A NodeID L ID) :=
  let (t, a) := Adaptor.now s.adaptor
  s.current.entries.foldlM (flushOne t) { s with adaptor := a }

/-- What `withTrie` does before it uses the trie. -/
def withTrie (s : Validations A NodeID L ID) : Option (Validations A NodeID L ID) := do
  let s ← s.flushStale
  s.checkAcquired

/-! ## Adding validations -/

/-- Byzantine detection for a validation that does not increase the sequence number, against the one tracked for
its sequence number. -/
def badStatus (tracked val : Validation ID) : ValStatus :=
  if tracked.seq = val.seq then
    if tracked.ledgerID ≠ val.ledgerID then .conflicting
    else if tracked.signTime ≠ val.signTime then .conflicting
    else if tracked.cookie ≠ val.cookie then .multiple
    else .badSeq
  else .badSeq

/-- The validation tracked for a node and sequence number when `val` arrives: the old one, unless `val` was signed
so much later that the old one can be disregarded. -/
def trackedFor (p : ValidationParms) (old : Option (Validation ID)) (val : Validation ID) : Validation ID :=
  match old with
  | none => val
  | some old =>
    let diff := max old.signTime val.signTime - min old.signTime val.signTime
    if diff > p.validationCurrentWall ∧ val.signTime > old.signTime then val else old

/-- `operator[]` of an aged map of maps: the entry of a key, or a new one stamped with the current time. -/
def agedEntry {κ β : Type} [DecidableEq κ] (m : AgedMap κ (HashMap NodeID β)) (k : κ) (a : A) :
    HashMap NodeID β × Int × A :=
  match m.find k with
  | some b => (b, 0, a)
  | none =>
    let (now, a) := Adaptor.clock a
    (∅, now, a)

/-- `add`, after the check that the validation is current: the bookkeeping, and how the validation breaks the rule of
increasing sequence numbers, if it does. -/
def record (nodeID : NodeID) (val : Validation ID) (s : Validations A NodeID L ID) :
    Option ValStatus × Validations A NodeID L ID :=
  let (now, a) := Adaptor.clock s.adaptor
  let (bySeq, made, a) := agedEntry s.bySequence val.seq a
  let tracked := trackedFor s.parms (bySeq.lookup nodeID) val
  let (ok, enf) := ((s.seqEnforcers.lookup nodeID).getD {}).call now val.seq s.parms
  let s := { s with
    adaptor := a
    bySequence := s.bySequence.set val.seq made (bySeq.insert nodeID tracked)
    seqEnforcers := s.seqEnforcers.insert nodeID enf }
  if ok then
    let (byLedger, made, a) := agedEntry s.byLedger val.ledgerID s.adaptor
    (none, { s with
      adaptor := a
      byLedger := s.byLedger.set val.ledgerID made (byLedger.insert nodeID val) })
  else (some (badStatus tracked val), s)

/-- `add`, for a recorded validation: it becomes the node's current one if it was signed later. -/
def addCurrent (nodeID : NodeID) (val : Validation ID) (s : Validations A NodeID L ID) :
    Option (ValStatus × Validations A NodeID L ID) :=
  match s.current.lookup nodeID with
  | none =>
    let s := { s with current := s.current.insert nodeID val }
    if val.trusted then (s.updateTrie nodeID val none).map (.current, ·) else some (.current, s)
  | some oldVal =>
    if val.signTime > oldVal.signTime then
      let s := { s with current := s.current.insert nodeID val }
      if val.trusted then (s.updateTrie nodeID val (some (oldVal.seq, oldVal.ledgerID))).map (.current, ·)
      else some (.current, s)
    else some (.stale, s)

def add (nodeID : NodeID) (val : Validation ID) (s : Validations A NodeID L ID) :
    Option (ValStatus × Validations A NodeID L ID) :=
  let (now, a) := Adaptor.now s.adaptor
  let s := { s with adaptor := a }
  if !isCurrent s.parms now val.signTime val.seenTime then some (.stale, s)
  else
    match s.record nodeID val with
    | (some status, s) => some (status, s)
    | (none, s) => s.addCurrent nodeID val

/-! ## Changes of trust -/

/-- One round of the loop of `trustChanged` over the current validations. -/
def trustOne (added removed : List NodeID) (s : Validations A NodeID L ID) (e : Σ _ : NodeID, Validation ID) :
    Option (Validations A NodeID L ID) :=
  if e.1 ∈ added then
    let val := { e.2 with trusted := true }
    updateTrie e.1 val none { s with current := s.current.insert e.1 val }
  else if e.1 ∈ removed then
    let val := { e.2 with trusted := false }
    removeTrie e.1 val { s with current := s.current.insert e.1 val }
  else some s

/-- The trusted flag of a node's validation after a change. -/
def retrust (added removed : List NodeID) (nodeID : NodeID) (val : Validation ID) : Validation ID :=
  if nodeID ∈ added then { val with trusted := true }
  else if nodeID ∈ removed then { val with trusted := false }
  else val

def trustChanged (added removed : List NodeID) (s : Validations A NodeID L ID) : Option (Validations A NodeID L ID) :=
  do
  let s ← s.current.entries.foldlM (trustOne added removed) s
  return { s with byLedger := s.byLedger.map fun e =>
    (e.1, e.2.1, e.2.2.foldl (fun m nodeID val => m.insert nodeID (retrust added removed nodeID val)) ∅) }

end Trie

/-! ## Queries and housekeeping -/

/-- `canValidateSeq`: whether the local node may validate a sequence number. -/
def canValidateSeq (seq : Nat) (s : Validations A NodeID L ID) : Bool × Validations A NodeID L ID :=
  let (now, a) := Adaptor.clock s.adaptor
  let (ok, enf) := s.localSeqEnforcer.call now seq s.parms
  (ok, { s with adaptor := a, localSeqEnforcer := enf })

def setSeqToKeep (low high : Nat) (s : Validations A NodeID L ID) : Validations A NodeID L ID :=
  { s with toKeep := some (low, high) }

section Maps
variable [DecidableEq ID]

/-- Refresh the entries in the range to keep, when they are about to expire. -/
def refreshKept (now : Int) (s : Validations A NodeID L ID) : Validations A NodeID L ID :=
  match s.toKeep with
  | none => s
  | some (low, high) =>
    if s.refreshTime ≤ now then
      { s with
        refreshTime := now + s.parms.validationSetExpires - s.parms.validationFRESHNESS
        byLedger := s.byLedger.touch now fun _ m => m.entries.head?.any fun e => low ≤ e.2.seq && e.2.seq < high
        bySequence := s.bySequence.touch now fun seq _ => low ≤ seq && seq < high }
    else s

/-- `expire`: remove the validation sets that were not used for long and were not asked to keep. -/
def expire (s : Validations A NodeID L ID) : Validations A NodeID L ID :=
  let (now, a) := Adaptor.clock s.adaptor
  let s := refreshKept now { s with adaptor := a }
  { s with
    byLedger := s.byLedger.expire now s.parms.validationSetExpires
    bySequence := s.bySequence.expire now s.parms.validationSetExpires }

/-- `byLedger`: the validations of a ledger, whose set is touched. -/
def queryByLedger (ledgerID : ID) (s : Validations A NodeID L ID) :
    List (Validation ID) × Validations A NodeID L ID :=
  match s.byLedger.find ledgerID with
  | none => ([], s)
  | some m =>
    let (now, a) := Adaptor.clock s.adaptor
    (m.entries.map (·.2), { s with adaptor := a, byLedger := s.byLedger.touch now fun i _ => i = ledgerID })

def numTrustedForLedger (ledgerID : ID) (s : Validations A NodeID L ID) : Nat × Validations A NodeID L ID :=
  let (vals, s) := s.queryByLedger ledgerID
  (vals.countP fun v => v.trusted && v.full, s)

/-- `currentTrusted`: the trusted full validations that are current. -/
def currentTrusted (s : Validations A NodeID L ID) : Option (List (Validation ID) × Validations A NodeID L ID) :=
  s.flushStale.map fun s => ((s.current.entries.map (·.2)).filter fun v => v.trusted && v.full, s)

/-- `getNodesAfter`: the number of trusted validators working on a ledger after the specified one. The code subtracts
unsigned numbers, and the support of a tip is no greater than that of its branch. -/
def getNodesAfter (ledger : L) (ledgerID : ID) (s : Validations A NodeID L ID) :
    Option (Nat × Validations A NodeID L ID) :=
  if Ledger.id ledger = ledgerID then
    s.withTrie.map fun s => (s.trie.branchSupport ledger - s.trie.tipSupport ledger, s)
  else
    some (s.lastLedger.entries.countP fun e =>
      0 < Ledger.seq e.2 && Ledger.ancestor e.2 (Ledger.seq e.2 - 1) = ledgerID, s)

end Maps

section Preferred
variable [LinearOrder ID]

/-- The ledger that most nodes wait for, ties by larger id. -/
def mostAcquired (m : HashMap (Nat × ID) (List NodeID)) : Option (Nat × ID) :=
  (m.entries.foldl (fun best e =>
    match best with
    | none => some e
    | some b => if b.2.length < e.2.length ∨ (b.2.length = e.2.length ∧ b.1.2 < e.1.2) then some e else some b)
    none).map (·.1)

/-- `getPreferred(curr)`: the sequence number and id of the preferred working ledger. -/
def getPreferred (curr : L) (s : Validations A NodeID L ID) : Option (Option (Nat × ID) × Validations A NodeID L ID) :=
  s.withTrie.map fun s =>
    match s.trie.getPreferred s.localSeqEnforcer.largest with
    | none => (mostAcquired s.acquiring, s)
    | some preferred =>
      if preferred.seq = Ledger.seq curr + 1 ∧ Ledger.ancestor preferred.ledger (Ledger.seq curr) = Ledger.id curr then
        (some (Ledger.seq curr, Ledger.id curr), s)
      else if Ledger.seq curr < preferred.seq then (some (preferred.seq, preferred.id), s)
      else if Ledger.ancestor curr preferred.seq ≠ preferred.id then (some (preferred.seq, preferred.id), s)
      else (some (Ledger.seq curr, Ledger.id curr), s)

/-- `getPreferred(curr, minValidSeq)`: the preferred ledger, or `curr` if that is too old. -/
def getPreferredID (curr : L) (minValidSeq : Nat) (s : Validations A NodeID L ID) :
    Option (ID × Validations A NodeID L ID) :=
  (s.getPreferred curr).map fun (preferred, s) =>
    match preferred with
    | some (seq, i) => (if minValidSeq ≤ seq then i else Ledger.id curr, s)
    | none => (Ledger.id curr, s)

/-- `getPreferredLCL`: as `getPreferredID`, but without trusted validations the ledger most peers are on. -/
def getPreferredLCL (lcl : L) (minSeq : Nat) (peerCounts : HashMap ID Nat) (s : Validations A NodeID L ID) :
    Option (ID × Validations A NodeID L ID) :=
  (s.getPreferred lcl).map fun (preferred, s) =>
    match preferred with
    | some (seq, i) => (if minSeq ≤ seq then i else Ledger.id lcl, s)
    | none =>
      ((peerCounts.entries.foldl (fun best e =>
        match best with
        | none => some e
        | some b => if b.2 < e.2 ∨ (b.2 = e.2 ∧ b.1 < e.1) then some e else some b) none).elim (Ledger.id lcl) (·.1), s)

end Preferred

end Validations

end Rippled.Consensus
