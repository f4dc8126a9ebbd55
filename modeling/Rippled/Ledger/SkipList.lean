import Rippled.Lib.Window
/-!
# The skip lists of a ledger

`Ledger::updateSkipList` and the look-up `hashOfSeq`. A ledger has the hashes of the ledgers just before it in one
entry and those of every 256th ledger in pages. Keys of entries are hashes of what `SkipKey` lists, taken to be
distinct. A failed assertion is an error with its text.
-/

namespace Rippled.SkipList

open Lib

variable {Hash : Type}

/-- What the keys of `LedgerHashes` entries are made of. -/
inductive SkipKey where
  | recent
  | page (n : Nat)
  deriving DecidableEq

def SkipKey.ofLedger (ledger : Nat) : SkipKey := .page (ledger / 65536)

structure LedgerHashes (Hash : Type) where
  hashes : List Hash
  lastLedgerSequence : Nat

/-- The `LedgerHashes` entries of a ledger. -/
abbrev Entries (Hash : Type) := SkipKey → Option (LedgerHashes Hash)

structure Ledger (Hash : Type) where
  seq : Nat
  hash : Hash
  parentHash : Hash
  entries : Entries Hash

def Entries.hashes (e : Entries Hash) (k : SkipKey) : List Hash :=
  match e k with
  | none => []
  | some sle => sle.hashes

/-- `rawInsert` and `rawReplace`. -/
def Entries.set (e : Entries Hash) (k : SkipKey) (sle : LedgerHashes Hash) : Entries Hash :=
  fun k' => if k' = k then some sle else e k'

/-- The record of every 256th ledger. -/
def updateDistant (e : Entries Hash) (prevIndex : Nat) (parentHash : Hash) : Except String (Entries Hash) :=
  if prevIndex % 256 ≠ 0 then .ok e
  else
    let k := SkipKey.ofLedger prevIndex
    if (e.hashes k).length ≤ 256 then .ok (e.set k ⟨e.hashes k ++ [parentHash], prevIndex⟩)
    else .error "xrpl::Ledger::updateSkipList : first maximum hashes size"

/-- The record of the past 256 ledgers. -/
def updateRecent (e : Entries Hash) (prevIndex : Nat) (parentHash : Hash) : Except String (Entries Hash) :=
  let hashes := e.hashes .recent
  if hashes.length ≤ 256 then
    let hashes := if hashes.length = 256 then hashes.tail else hashes
    .ok (e.set .recent ⟨hashes ++ [parentHash], prevIndex⟩)
  else .error "xrpl::Ledger::updateSkipList : second maximum hashes size"

/-- `updateSkipList` in the ledger with this header, whose entries are still those of its parent. -/
def updateSkipList (seq : Nat) (parentHash : Hash) (e : Entries Hash) : Except String (Entries Hash) :=
  if seq = 0 then .ok e
  else do
    let e ← updateDistant e (seq - 1) parentHash
    updateRecent e (seq - 1) parentHash

/-- `LedgerHashesEntry::hashAt`. -/
def LedgerHashes.hashAt (sle : LedgerHashes Hash) (diff : Nat) : Option Hash :=
  if diff < sle.hashes.length then sle.hashes[sle.hashes.length - diff - 1]? else none

/-- The difference of two sequences as an `int`. -/
def intDiff (a b : Nat) : Int :=
  let d := (a + 0x100000000 - b) % 0x100000000
  if d < 0x80000000 then d else d - 0x100000000

/-- The part of `hashOfSeq` that looks in the record of the past 256 ledgers. -/
def hashWithin (ledger : Ledger Hash) (seq : Nat) : Except String (Option Hash) :=
  let diff := intDiff ledger.seq seq
  if diff ≤ 256 then
    match ledger.entries .recent with
    | none => .ok none
    | some sle =>
      if sle.lastLedgerSequence = ledger.seq - 1 then .ok (sle.hashAt ((diff - 1) % 0x10000000000000000).toNat)
      else .error "xrpl::hashOfSeq : matching ledger sequence"
  else .ok none

/-- The part of `hashOfSeq` that looks in the record of every 256th ledger. -/
def hashDistant (ledger : Ledger Hash) (seq : Nat) : Except String (Option Hash) :=
  if seq % 256 ≠ 0 then .ok none
  else
    match ledger.entries (.ofLedger seq) with
    | none => .ok none
    | some sle =>
      let lastSeq := sle.lastLedgerSequence
      if lastSeq < seq then .error "xrpl::hashOfSeq : minimum last ledger"
      else if lastSeq % 256 ≠ 0 then .error "xrpl::hashOfSeq : valid last ledger"
      else .ok (sle.hashAt ((lastSeq - seq) / 256))

def hashOfSeq (ledger : Ledger Hash) (seq : Nat) : Except String (Option Hash) :=
  if seq > ledger.seq then .ok none
  else if seq = ledger.seq then .ok (some ledger.hash)
  else if seq = ledger.seq - 1 then .ok (some ledger.parentHash)
  else do
    match ← hashWithin ledger seq with
    | some hash => .ok (some hash)
    | none => hashDistant ledger seq

/-- `(requested + 255) & ~255`. -/
def getCandidateLedger (requested : Nat) : Nat := (requested + 255) % 0x100000000 / 256 * 256

/-! ## What the entries are -/

/-- The first and the last but one of the 256th ledgers on a page, as multiples, for a chain from `k` to `m`. -/
def pageStart (k p : Nat) : Nat := max ((k + 255) / 256) (256 * p)

def pageEnd (m p : Nat) : Nat := min ((m + 255) / 256) (256 * (p + 1))

/-- The entries of ledger `m` in a chain that starts without entries at `k`. -/
def entriesAt (hash : Nat → Hash) (k m : Nat) : Entries Hash
  | .recent => if k < m then some ⟨window hash (max k (m - 256)) m, m - 1⟩ else none
  | .page p =>
    if pageStart k p < pageEnd m p then
      some ⟨window (fun j => hash (256 * j)) (pageStart k p) (pageEnd m p), 256 * (pageEnd m p - 1)⟩
    else none

section Update

variable (hash : Nat → Hash) {k m : Nat}

theorem entriesAt_start : entriesAt hash k k = fun _ => none := by
  funext key
  cases key with
  | recent => exact if_neg (lt_irrefl k)
  | page p =>
    refine if_neg ?_
    unfold pageStart pageEnd
    omega

theorem hashes_recent : (entriesAt hash k m).hashes .recent = window hash (max k (m - 256)) m := by
  unfold Entries.hashes entriesAt
  by_cases h : k < m
  · rw [if_pos h]
  · rw [if_neg h, window_of_le]
    omega

theorem hashes_page (p : Nat) :
    (entriesAt hash k m).hashes (.page p) = window (fun j => hash (256 * j)) (pageStart k p) (pageEnd m p) := by
  unfold Entries.hashes entriesAt
  by_cases h : pageStart k p < pageEnd m p
  · simp only [if_pos h]
  · simp only [if_neg h]
    rw [window_of_le]
    omega

/-- The entries between the two parts of an update: the pages are those of the next ledger. -/
def halfUpdated (k m : Nat) : Entries Hash
  | .recent => entriesAt hash k m .recent
  | .page p => entriesAt hash k (m + 1) (.page p)

theorem entriesAt_page_of_pageEnd {m m' p : Nat} (h : pageEnd m' p = pageEnd m p) :
    entriesAt hash k m' (.page p) = entriesAt hash k m (.page p) := by
  unfold entriesAt
  simp only [h]

theorem updateDistant_entriesAt (h : k ≤ m) :
    updateDistant (entriesAt hash k m) m (hash m) = .ok (halfUpdated hash k m) := by
  unfold updateDistant
  by_cases hm : m % 256 = 0
  · obtain ⟨j, rfl⟩ : ∃ j, m = 256 * j := ⟨m / 256, by omega⟩
    have hpage : 256 * j / 65536 = j / 256 := by omega
    have hend : pageEnd (256 * j) (j / 256) = j := by unfold pageEnd; omega
    have hend' : pageEnd (256 * j + 1) (j / 256) = j + 1 := by unfold pageEnd; omega
    have hstart : pageStart k (j / 256) ≤ j := by unfold pageStart; omega
    have hlow : 256 * (j / 256) ≤ pageStart k (j / 256) := by unfold pageStart; omega
    have hsize : ¬ 256 < j - pageStart k (j / 256) := by omega
    simp only [hm, ne_eq, not_true_eq_false, if_false, SkipKey.ofLedger, hpage, hashes_page, hend, length_window]
    rw [if_pos (by omega), window_push (fun j => hash (256 * j)) hstart]
    congr 1
    funext key
    unfold Entries.set
    cases key with
    | recent => rfl
    | page p =>
      by_cases hp : p = j / 256
      · subst hp
        simp only [if_true, halfUpdated, entriesAt, hend']
        rw [if_pos (by omega)]
        rfl
      · have hne : SkipKey.page p ≠ .page (j / 256) := fun h => hp (SkipKey.page.inj h)
        rw [if_neg hne]
        -- another page is either full or still ahead of the ledger
        by_cases hlt : p < j / 256
        · refine (entriesAt_page_of_pageEnd hash ?_).symm
          unfold pageEnd
          omega
        · simp only [halfUpdated, entriesAt]
          rw [if_neg, if_neg] <;> unfold pageStart pageEnd <;> omega
  · rw [if_pos hm]
    congr 1
    funext key
    cases key with
    | recent => rfl
    | page p =>
      refine (entriesAt_page_of_pageEnd hash ?_).symm
      unfold pageEnd
      omega

theorem updateRecent_halfUpdated (h : k ≤ m) :
    updateRecent (halfUpdated hash k m) m (hash m) = .ok (entriesAt hash k (m + 1)) := by
  have hlist : (halfUpdated hash k m).hashes .recent = window hash (max k (m - 256)) m := hashes_recent hash
  -- the oldest hash goes exactly when the window is full
  have hwindow : (if (window hash (max k (m - 256)) m).length = 256 then (window hash (max k (m - 256)) m).tail
      else window hash (max k (m - 256)) m) ++ [hash m] = window hash (max k (m + 1 - 256)) (m + 1) := by
    rw [length_window]
    by_cases hfull : m - max k (m - 256) = 256
    · have hlo : max k (m - 256) + 1 = max k (m + 1 - 256) := by omega
      rw [if_pos hfull, tail_window, hlo, window_push hash (by omega)]
    · have hlo : max k (m - 256) = max k (m + 1 - 256) := by omega
      rw [if_neg hfull, hlo, window_push hash (by omega)]
  unfold updateRecent
  simp only [hlist, hwindow]
  rw [if_pos (by rw [length_window]; omega)]
  congr 1
  funext key
  cases key with
  | recent =>
    simp only [Entries.set, if_true, entriesAt]
    rw [if_pos (by omega)]
    rfl
  | page p => rfl

/-- A ledger adds the hash of its parent. -/
theorem updateSkipList_entriesAt (h : k ≤ m) :
    updateSkipList (m + 1) (hash m) (entriesAt hash k m) = .ok (entriesAt hash k (m + 1)) := by
  rw [updateSkipList, if_neg (Nat.succ_ne_zero m), Nat.add_sub_cancel, updateDistant_entriesAt hash h]
  exact updateRecent_halfUpdated hash h

end Update

/-! ## Looking up -/

theorem hashAt_window (f : Nat → Hash) {lo hi last d : Nat} :
    LedgerHashes.hashAt ⟨window f lo hi, last⟩ d = if d < hi - lo then some (f (hi - d - 1)) else none := by
  unfold LedgerHashes.hashAt
  simp only [length_window]
  by_cases h : d < hi - lo
  · have hidx : lo + (hi - lo - d - 1) = hi - d - 1 := by omega
    rw [if_pos h, if_pos h, getElem?_window f (by omega), hidx]
  · rw [if_neg h, if_neg h]

theorem intDiff_of_lt {a b : Nat} (hb : b < a) (ha : a < 0x80000000) : intDiff a b = (a - b : Nat) := by
  have hd : (a + 0x100000000 - b) % 0x100000000 = a - b := by omega
  unfold intDiff
  simp only [hd]
  rw [if_pos (by omega)]

section LookUp

variable {ledger : Ledger Hash} {hash : Nat → Hash} {k s : Nat} (he : ledger.entries = entriesAt hash k ledger.seq)

include he

/-- The record of the past 256 ledgers has the hashes from the start of the chain on. -/
theorem hashWithin_entriesAt (hlt : s < ledger.seq) (hsmall : ledger.seq < 0x80000000) :
    hashWithin ledger s = .ok (if k ≤ s ∧ ledger.seq ≤ s + 256 then some (hash s) else none) := by
  unfold hashWithin
  simp only [intDiff_of_lt hlt hsmall, he]
  by_cases hnear : ledger.seq ≤ s + 256
  · rw [if_pos (by omega)]
    have hdiff : (((ledger.seq - s : Nat) - 1 : Int) % 0x10000000000000000).toNat = ledger.seq - s - 1 := by omega
    by_cases hk : k < ledger.seq
    · simp only [entriesAt, if_pos hk, if_true, hdiff, hashAt_window]
      have hindex : ledger.seq - (ledger.seq - s - 1) - 1 = s := by omega
      rw [hindex]
      by_cases hks : k ≤ s
      · rw [if_pos (by omega), if_pos ⟨hks, hnear⟩]
      · rw [if_neg (by omega), if_neg (fun h => hks h.1)]
    · simp only [entriesAt, if_neg hk]
      rw [if_neg (by omega)]
  · rw [if_neg (by omega), if_neg (fun h => hnear h.2)]

/-- The pages have the hashes of all 256th ledgers from the start of the chain on. -/
theorem hashDistant_entriesAt (hlt : s < ledger.seq) :
    hashDistant ledger s = .ok (if s % 256 = 0 ∧ k ≤ s then some (hash s) else none) := by
  unfold hashDistant
  by_cases hs : s % 256 = 0
  · obtain ⟨j, rfl⟩ : ∃ j, s = 256 * j := ⟨s / 256, by omega⟩
    have hpage : 256 * j / 65536 = j / 256 := by omega
    rw [if_neg (not_not.2 hs), he]
    simp only [SkipKey.ofLedger, hpage, entriesAt]
    have hstart : pageStart k (j / 256) ≤ j ↔ k ≤ 256 * j := by unfold pageStart; omega
    have hend : j < pageEnd ledger.seq (j / 256) := by unfold pageEnd; omega
    generalize pageStart k (j / 256) = lo at hstart ⊢
    generalize pageEnd ledger.seq (j / 256) = hi at hend ⊢
    by_cases hk : lo < hi
    · simp only [if_pos hk]
      have hdiff : (256 * (hi - 1) - 256 * j) / 256 = hi - 1 - j := by omega
      have hindex : hi - (hi - 1 - j) - 1 = j := by omega
      rw [if_neg (by omega), if_neg (by omega), hdiff, hashAt_window, hindex]
      by_cases hks : k ≤ 256 * j
      · rw [if_pos (by omega), if_pos ⟨hs, hks⟩]
      · rw [if_neg (by omega), if_neg (fun h => hks h.2)]
    · simp only [if_neg hk]
      rw [if_neg (by omega)]
  · rw [if_pos hs, if_neg (fun h => hs h.1)]

theorem hashOfSeq_entriesAt (hlt : s + 1 < ledger.seq) (hsmall : ledger.seq < 0x80000000) :
    hashOfSeq ledger s =
      .ok (if k ≤ s ∧ (ledger.seq ≤ s + 256 ∨ s % 256 = 0) then some (hash s) else none) := by
  unfold hashOfSeq
  rw [if_neg (by omega), if_neg (by omega), if_neg (by omega), hashWithin_entriesAt he (by omega) hsmall]
  by_cases hnear : k ≤ s ∧ ledger.seq ≤ s + 256
  · rw [if_pos hnear, if_pos ⟨hnear.1, .inl hnear.2⟩]
    rfl
  · rw [if_neg hnear]
    have hiff : s % 256 = 0 ∧ k ≤ s ↔ k ≤ s ∧ (ledger.seq ≤ s + 256 ∨ s % 256 = 0) := by omega
    change hashDistant ledger s = _
    rw [hashDistant_entriesAt he (by omega), if_congr hiff rfl rfl]

end LookUp

/-! ## Chains of ledgers -/

/-- The ledgers from `k` to `n` with their hashes, and `hash (k - 1)` that ledger `k` has for its parent. Nothing but
`updateSkipList` touches the entries. -/
structure Chain (L : Nat → Ledger Hash) (hash : Nat → Hash) (k n : Nat) : Prop where
  pos : 1 ≤ k
  le : k ≤ n
  small : n < 0x80000000
  seq : ∀ m, k ≤ m → m ≤ n → (L m).seq = m
  own : ∀ m, k ≤ m → m ≤ n → (L m).hash = hash m
  parent : ∀ m, k ≤ m → m ≤ n → (L m).parentHash = hash (m - 1)
  first : (L k).entries = fun _ => none
  update : ∀ m, k ≤ m → m < n → updateSkipList (L (m + 1)).seq (L (m + 1)).parentHash
    (L m).entries = .ok (L (m + 1)).entries

namespace Chain

variable {L : Nat → Ledger Hash} {hash : Nat → Hash} {k n : Nat}

section
variable (h : Chain L hash k n)
include h

theorem upTo {m : Nat} (hk : k ≤ m) (hm : m ≤ n) : Chain L hash k m where
  __ := h
  le := hk
  small := lt_of_le_of_lt hm h.small
  seq i hi hi' := h.seq i hi (hi'.trans hm)
  own i hi hi' := h.own i hi (hi'.trans hm)
  parent i hi hi' := h.parent i hi (hi'.trans hm)
  update i hi hi' := h.update i hi (hi'.trans_le hm)

theorem entries_eq : (L n).entries = entriesAt hash k n := by
  -- along the chain, one update after the other
  obtain ⟨d, rfl⟩ : ∃ d, n = k + d := ⟨n - k, by have := h.le; omega⟩
  induction d with
  | zero => rw [Nat.add_zero, h.first, entriesAt_start]
  | succ d ih =>
    have hprev := ih (h.upTo (by omega) (by omega))
    have hup := h.update (k + d) (by omega) (by omega)
    rw [h.seq _ (by omega) (by omega), h.parent _ (by omega) (by omega), Nat.add_sub_cancel, hprev,
      updateSkipList_entriesAt hash (by omega)] at hup
    exact (Except.ok.inj hup).symm

theorem entries_seq : (L n).entries = entriesAt hash k (L n).seq := by
  rw [h.seq n h.le le_rfl, h.entries_eq]

variable {s : Nat}

theorem hashOfSeq_near (hs : s ≤ n) (hnear : n ≤ s + 1) : hashOfSeq (L n) s = .ok (some (hash s)):= by
  have hpos := h.pos
  have hle := h.le
  unfold hashOfSeq
  rw [h.seq n h.le le_rfl, if_neg (by omega)]
  by_cases heq : s = n
  · rw [if_pos heq, h.own n h.le le_rfl, heq]
  · have hpar : s = n - 1 := by omega
    rw [if_neg heq, if_pos hpar, h.parent n h.le le_rfl, hpar]

theorem hashOfSeq_far (hs : s + 1 < n) :
    hashOfSeq (L n) s = .ok (if k ≤ s ∧ (n ≤ s + 256 ∨ s % 256 = 0) then some (hash s) else none) := by
  have hseq := h.seq n h.le le_rfl
  have hfar := hashOfSeq_entriesAt (s := s) h.entries_seq (by omega) (by have := h.small; omega)
  rwa [hseq] at hfar

/-- No wrong hash is given. -/
theorem hashOfSeq_sound (s : Nat) : hashOfSeq (L n) s = .ok none ∨ hashOfSeq (L n) s = .ok (some (hash s)):= by
  by_cases hfuture : n < s
  · left
    unfold hashOfSeq
    rw [h.seq n h.le le_rfl, if_pos hfuture]
  · by_cases hnear : n ≤ s + 1
    · exact .inr (h.hashOfSeq_near (by omega) hnear)
    · rw [h.hashOfSeq_far (by omega)]
      split
      · exact .inr rfl
      · exact .inl rfl

/-- The hashes that are listed are given. -/
theorem hashOfSeq_complete (hk : k ≤ s) (hs : s ≤ n) (hlisted : n ≤ s + 256 ∨ s % 256 = 0) :
    hashOfSeq (L n) s = .ok (some (hash s)) := by
  by_cases hnear : n ≤ s + 1
  · exact h.hashOfSeq_near hs hnear
  · rw [h.hashOfSeq_far (by omega), if_pos ⟨hk, hlisted⟩]

end

/-- The candidate ledger is at most 255 ledgers later, and a multiple of 256. -/
theorem getCandidateLedger_spec (hs : s < 0x80000000) :
    s ≤ getCandidateLedger s ∧ getCandidateLedger s ≤ s + 255 ∧ getCandidateLedger s % 256 = 0 := by
  unfold getCandidateLedger
  omega

end Chain

/-- A ledger finds its history, directly or by way of a candidate ledger, and the next update meets its assertions. -/
theorem hashOfSeq_of_chain {L : Nat → Ledger Hash} {hash : Nat → Hash} {k n : Nat} (h : Chain L hash k n) :
    (∀ s, hashOfSeq (L n) s = .ok none ∨ hashOfSeq (L n) s = .ok (some (hash s))) ∧
    (∀ s, k ≤ s → s ≤ n → (n ≤ s + 256 ∨ s % 256 = 0) → hashOfSeq (L n) s = .ok (some (hash s))) ∧
    (∀ s, k ≤ s → s < 0x80000000 → getCandidateLedger s ≤ n →
      hashOfSeq (L n) (getCandidateLedger s) = .ok (some (hash (getCandidateLedger s))) ∧
      hashOfSeq (L (getCandidateLedger s)) s = .ok (some (hash s))) ∧
    ∃ e, updateSkipList (n + 1) (hash n) (L n).entries = .ok e := by
  refine ⟨h.hashOfSeq_sound, fun s => h.hashOfSeq_complete, ?_, ?_⟩
  · intro s hk hs hc
    obtain ⟨hle, hnear, hmod⟩ := Chain.getCandidateLedger_spec hs
    have hchain := h.upTo (hk.trans hle) hc
    exact ⟨h.hashOfSeq_complete (hk.trans hle) hc (.inr hmod), hchain.hashOfSeq_complete hk hle (.inl (by omega))⟩
  · rw [h.entries_eq]
    exact ⟨_, updateSkipList_entriesAt hash h.le⟩

/-- The ledgers from 5 on, with their sequences as hashes. -/
def exampleLedger (seq : Nat) : Ledger Nat := ⟨seq, seq, seq - 1, entriesAt id 5 seq⟩

/-- Ledger 70000 finds a recent ledger and a flag ledger, and ledger 600 by way of ledger 768. -/
theorem hashOfSeq_of_chain_long :
    hashOfSeq (exampleLedger 70000) 69900 = .ok (some 69900) ∧ hashOfSeq (exampleLedger 70000) 512 = .ok (some 512) ∧
      hashOfSeq (exampleLedger 70000) 768 = .ok (some 768) ∧ hashOfSeq (exampleLedger 768) 600 = .ok (some 600) := by
  have h : Chain exampleLedger id 5 70000 :=
    { pos := by decide, le := by decide, small := by decide, seq := fun _ _ _ => rfl, own := fun _ _ _ => rfl,
      parent := fun _ _ _ => rfl, first := entriesAt_start id, update := fun m hm _ => updateSkipList_entriesAt id hm }
  obtain ⟨-, hfind, hcandidate, -⟩ := hashOfSeq_of_chain h
  refine ⟨hfind 69900 (by decide) (by decide) (.inl (by decide)),
    hfind 512 (by decide) (by decide) (.inr (by decide)), ?_⟩
  exact hcandidate 600 (by decide) (by decide) (by decide)

end Rippled.SkipList
