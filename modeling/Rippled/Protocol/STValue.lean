import Rippled.Protocol.SField
import Rippled.Protocol.STAmount
import Rippled.Protocol.STPathSet

/-!
# Values of fields

The serialized types that hold no other fields, with how each is written and read. A value that is canonical is read
again as it was written (`STValue.Canonical.run_read`), and a value that is read is canonical but for path elements with
the empty type (`STValue.canonical_of_run_read`).
-/

namespace Rippled.Protocol

open Lib Lib.Reader Basics Serializer SerialIter List BaseUInt

/-! ## Issues -/

variable {t s : Bytes}

namespace STIssue

def noAccount : UInt160 := ⟨List.replicate 19 0 ++ [1], rfl⟩

/-- The account in an MPT id, that follows the sequence. -/
def getIssuer (mptID : UInt192) : UInt160 := ⟨mptID.bytes.drop 4, by simp [mptID.length_bytes]⟩

/-- The first four bytes of an MPT id, read with the least significant byte first. -/
def sequence (mptID : UInt192) : UInt32 := UInt32.ofNat (ofBE (mptID.bytes.take 4).reverse)

/-- The MPT id of a sequence, in the byte order of `sequence`, and an account. -/
def makeMptID (sequence : UInt32) (account : UInt160) : UInt192 :=
  ⟨(toBE 4 sequence.toNat).reverse ++ account.bytes, by simp [account.length_bytes]⟩

def ofSerialIter : SerialIter Asset := do
  let currencyOrAccount ← getBitString 20
  if currencyOrAccount.isZero then return xrpIssue
  else do
    let account ← getBitString 20
    if account = noAccount then do
      let sequence ← get32
      return .mptIssue (makeMptID sequence currencyOrAccount)
    else if account.isZero then throw (.runtimeError "invalid issue: currency and account native mismatch")
    else return .issue currencyOrAccount account

def add : Asset → Bytes
  | .issue currency account => addBitString currency ++ (if !currency.isZero then addBitString account else [])
  | .mptIssue mptID => addBitString (getIssuer mptID) ++ addBitString noAccount ++ add32 (sequence mptID)

/-- The assets that their wire form tells apart. -/
def Canonical : Asset → Prop
  | .issue currency account => if currency = 0 then account = 0 else account ≠ 0 ∧ account ≠ noAccount
  | .mptIssue mptID => getIssuer mptID ≠ 0

theorem makeMptID_sequence (mptID : UInt192) : makeMptID (sequence mptID) (getIssuer mptID) = mptID := by
  apply ext
  have hlen : (mptID.bytes.take 4).reverse.length = 4 := by simp [mptID.length_bytes]
  have hlt := ofBE_lt (mptID.bytes.take 4).reverse
  rw [hlen] at hlt
  have hnat : (sequence mptID).toNat = ofBE (mptID.bytes.take 4).reverse := UInt32.toNat_ofNat_of_lt' hlt
  have hbytes : toBE 4 (ofBE (mptID.bytes.take 4).reverse) = (mptID.bytes.take 4).reverse := by
    have := toBE_ofBE (mptID.bytes.take 4).reverse
    rwa [hlen] at this
  unfold makeMptID getIssuer
  dsimp only
  rw [hnat, hbytes, reverse_reverse, take_append_drop]

theorem sequence_makeMptID (seq : UInt32) (account : UInt160) :
    sequence (makeMptID seq account) = seq ∧ getIssuer (makeMptID seq account) = account := by
  have hlen : (toBE 4 seq.toNat).reverse.length = 4 := by simp
  constructor
  · unfold sequence makeMptID
    rw [take_left' hlen, reverse_reverse, ofBE_toBE seq.toNat_lt, UInt32.ofNat_toNat]
  · apply ext
    exact drop_left' hlen

theorem run_ofSerialIter_add {asset : Asset} (h : Canonical asset) (t : Bytes) :
    ofSerialIter.run (add asset ++ t) = .ok (asset, t) := by
  unfold ofSerialIter add
  cases asset with
  | issue currency account =>
    rw [Canonical] at h
    by_cases hnative : currency = 0
    · subst hnative
      rw [if_pos rfl] at h
      subst h
      refine run_bind_eq_ok.2 ⟨0, t, run_getBitString_eq_ok.2 (by simp [isZero]), ?_⟩
      rw [if_pos (isZero_iff.2 rfl)]
      rfl
    · rw [if_neg hnative] at h
      have hzero : ¬ currency.isZero = true := fun h => hnative (isZero_iff.1 h)
      dsimp only
      rw [if_pos (by simpa using hzero), append_assoc]
      refine run_bind_eq_ok.2 ⟨currency, _, run_getBitString_eq_ok.2 rfl, ?_⟩
      rw [if_neg hzero]
      refine run_bind_eq_ok.2 ⟨account, t, run_getBitString_eq_ok.2 rfl, ?_⟩
      rw [if_neg h.2, if_neg fun hz => h.1 (isZero_iff.1 hz)]
      rfl
  | mptIssue mptID =>
    have hzero : ¬ (getIssuer mptID).isZero = true := fun hz => h (isZero_iff.1 hz)
    rw [append_assoc, append_assoc]
    refine run_bind_eq_ok.2 ⟨getIssuer mptID, _, run_getBitString_eq_ok.2 rfl, ?_⟩
    rw [if_neg hzero]
    refine run_bind_eq_ok.2 ⟨noAccount, _, run_getBitString_eq_ok.2 rfl, ?_⟩
    rw [if_pos rfl]
    refine run_bind_eq_ok.2 ⟨sequence mptID, t, run_get32_eq_ok.2 rfl, ?_⟩
    rw [makeMptID_sequence]
    rfl

theorem canonical_of_ofSerialIter {asset : Asset} (h : ofSerialIter.run s = .ok (asset, t)) :
    Canonical asset ∧ s = add asset ++ t := by
  unfold ofSerialIter at h
  rw [run_bind_eq_ok] at h
  obtain ⟨first, s₁, hfirst, h⟩ := h
  obtain rfl := run_getBitString_eq_ok.1 hfirst
  by_cases hzero : first.isZero = true
  · rw [if_pos hzero] at h
    cases run_pure_eq_ok.1 h
    obtain rfl := isZero_iff.1 hzero
    exact ⟨rfl, rfl⟩
  · rw [if_neg hzero, run_bind_eq_ok] at h
    obtain ⟨account, s₂, haccount, h⟩ := h
    obtain rfl := run_getBitString_eq_ok.1 haccount
    have hne : first ≠ 0 := fun h => hzero (isZero_iff.2 h)
    by_cases hno : account = noAccount
    · rw [if_pos hno, run_bind_eq_ok] at h
      obtain ⟨seq, s₃, hseq, h⟩ := h
      obtain rfl := run_get32_eq_ok.1 hseq
      cases run_pure_eq_ok.1 h
      obtain ⟨hsequence, hissuer⟩ := sequence_makeMptID seq first
      subst hno
      unfold Canonical add
      dsimp only
      rw [hsequence, hissuer]
      exact ⟨hne, by simp⟩
    · rw [if_neg hno] at h
      by_cases hnative : account.isZero = true
      · rw [if_pos hnative] at h
        exact absurd h run_throw_ne_ok
      · rw [if_neg hnative] at h
        cases run_pure_eq_ok.1 h
        unfold Canonical add
        dsimp only
        rw [if_neg hne, if_pos (by simpa using hzero)]
        exact ⟨⟨fun h => hnative (isZero_iff.2 h), hno⟩, by simp⟩

end STIssue

/-! ## Accounts and vectors -/

/-- The account that a string of bytes is, with `none` for the default. -/
def STAccount.ofBuffer (v : Bytes) : Except Exception (Option UInt160) :=
  if v.isEmpty then .ok none
  else if h : v.length = 20 then .ok (some ⟨v, h⟩)
  else .error (.runtimeError "Invalid STAccount size")

def STAccount.toBuffer : Option UInt160 → Bytes
  | none => []
  | some account => account.bytes

theorem STAccount.ofBuffer_eq_ok {v : Bytes} {account : Option UInt160} :
    ofBuffer v = .ok account ↔ v = toBuffer account := by
  unfold ofBuffer
  constructor
  · intro h
    split_ifs at h with hempty hlen
    · cases h
      exact isEmpty_iff.1 hempty
    · cases h
      rfl
  · rintro rfl
    cases account with
    | none => rfl
    | some account =>
      have hlen := account.length_bytes
      have hne : ¬ account.bytes.isEmpty = true := by
        intro h
        rw [isEmpty_iff.1 h] at hlen
        cases hlen
      change (if account.bytes.isEmpty then _ else _) = _
      rw [if_neg hne]
      exact dif_pos hlen

namespace STVector256

def ofSlice : Nat → Bytes → List UInt256
  | 0, _ => []
  | cnt + 1, slice => (if h : (slice.take 32).length = 32 then ⟨slice.take 32, h⟩ else 0) :: ofSlice cnt (slice.drop 32)

def ofSerialIter : SerialIter (List UInt256) := do
  let slice ← (do getSlice (← getVLDataLength))
  if slice.length % 32 ≠ 0 then throw (.runtimeError s!"Bad serialization for STVector256: {slice.length}")
  else return ofSlice (slice.length / 32) slice

def toSlice (value : List UInt256) : Bytes := value.flatMap (·.bytes)

theorem length_toSlice (value : List UInt256) : (toSlice value).length = value.length * 32 := by
  unfold toSlice
  induction value with
  | nil => rfl
  | cons v value ih =>
    rw [flatMap_cons, length_append, ih, v.length_bytes, length_cons]
    omega

theorem ofSlice_toSlice (value : List UInt256) : ofSlice value.length (toSlice value) = value := by
  induction value with
  | nil => rfl
  | cons v value ih =>
    have htake : (v.bytes ++ toSlice value).take 32 = v.bytes := take_left' v.length_bytes
    have hdrop : (v.bytes ++ toSlice value).drop 32 = toSlice value := drop_left' v.length_bytes
    have hcons : toSlice (v :: value) = v.bytes ++ toSlice value := rfl
    rw [length_cons, hcons, ofSlice]
    simp only [htake, hdrop, ih, v.length_bytes, dif_pos]

theorem toSlice_ofSlice {cnt : Nat} {slice : Bytes} (h : slice.length = cnt * 32) :
    toSlice (ofSlice cnt slice) = slice := by
  induction cnt generalizing slice with
  | zero =>
    have hnil : slice = [] := length_eq_zero_iff.1 (by omega)
    rw [hnil]
    rfl
  | succ cnt ih =>
    have hlen : (slice.take 32).length = 32 := by simp; omega
    have hrest : toSlice (ofSlice cnt (slice.drop 32)) = slice.drop 32 := ih (by simp; omega)
    rw [ofSlice, dif_pos hlen]
    change slice.take 32 ++ toSlice (ofSlice cnt (slice.drop 32)) = slice
    rw [hrest, take_append_drop]

variable {value : List UInt256}

theorem run_ofSerialIter_of_add {bs : Bytes} (h : FitsVL (toSlice value)) (hadd : addVL (toSlice value) = .ok bs) :
    ofSerialIter.run (bs ++ t) = .ok (value, t) := by
  refine run_bind_eq_ok.2 ⟨toSlice value, t, run_lengthThenBytes_of_add h hadd, ?_⟩
  have hlen := length_toSlice value
  rw [if_neg (by omega), hlen, Nat.mul_div_cancel _ (by decide), ofSlice_toSlice]
  rfl

theorem add_of_ofSerialIter (h : ofSerialIter.run s = .ok (value, t)) :
    FitsVL (toSlice value) ∧ ∃ bs, addVL (toSlice value) = .ok bs ∧ s = bs ++ t := by
  unfold ofSerialIter at h
  rw [run_bind_eq_ok] at h
  obtain ⟨slice, s₁, hslice, h⟩ := h
  split_ifs at h with hmod
  · exact absurd h run_throw_ne_ok
  · cases run_pure_eq_ok.1 h
    rw [toSlice_ofSlice (by omega)]
    exact add_of_run_lengthThenBytes hslice

end STVector256

/-! ## Values -/

/-- The serialized types without fields of their own. -/
inductive STValue where
  | uint8 (value : UInt8)
  | uint16 (value : UInt16)
  | uint32 (value : UInt32)
  | uint64 (value : UInt64)
  | int32 (value : Int32)
  | uint128 (value : BaseUInt 16)
  | uint160 (value : UInt160)
  | uint192 (value : UInt192)
  | uint256 (value : UInt256)
  | amount (value : STAmount)
  | number (value : Number)
  | vector256 (value : List UInt256)
  | vl (value : Bytes)
  | account (value : Option UInt160)
  | pathSet (value : STPathSet)
  | issue (value : Asset)
  | currency (value : UInt160)
  deriving DecidableEq

namespace STValue

def getSType : STValue → SerializedTypeID
  | uint8 _ => .uint8
  | uint16 _ => .uint16
  | uint32 _ => .uint32
  | uint64 _ => .uint64
  | int32 _ => .int32
  | uint128 _ => .uint128
  | uint160 _ => .uint160
  | uint192 _ => .uint192
  | uint256 _ => .uint256
  | amount _ => .amount
  | number _ => .number
  | vector256 _ => .vector256
  | vl _ => .vl
  | account _ => .account
  | pathSet _ => .pathSet
  | issue _ => .issue
  | currency _ => .currency

def add : STValue → Except Exception Bytes
  | uint8 v => .ok (add8 v)
  | uint16 v => .ok (add16 v)
  | uint32 v => .ok (add32 v)
  | uint64 v => .ok (add64 v)
  | int32 v => .ok (add32 v.toUInt32)
  | uint128 v => .ok (addBitString v)
  | uint160 v => .ok (addBitString v)
  | uint192 v => .ok (addBitString v)
  | uint256 v => .ok (addBitString v)
  | amount v => .ok v.add
  | number v => .ok (STNumber.add v)
  | vector256 v => addVL (STVector256.toSlice v)
  | vl v => addVL v
  | account v => addVL (STAccount.toBuffer v)
  | pathSet v => STPathSet.add v
  | issue v => .ok (STIssue.add v)
  | currency v => .ok (addBitString v)

def isDefault : STValue → Bool
  | uint8 v => v == 0
  | uint16 v => v == 0
  | uint32 v => v == 0
  | uint64 v => v == 0
  | int32 v => v == 0
  | uint128 v => v.isZero
  | uint160 v => v.isZero
  | uint192 v => v.isZero
  | uint256 v => v.isZero
  | amount v => v.value == 0 && v.asset.native
  | number v => v = kZero
  | vector256 v => v.isEmpty
  | vl v => v.isEmpty
  | account v => v.isNone
  | pathSet v => v.isEmpty
  | issue v => v = xrpIssue
  | currency v => v.isZero

/-- The part of `constructST` for the types without fields of their own. -/
def read (scale : MantissaScale) (mode : RoundingMode) : SerializedTypeID → SerialIter STValue
  | .uint8 => uint8 <$> get8
  | .uint16 => uint16 <$> get16
  | .uint32 => uint32 <$> get32
  | .uint64 => uint64 <$> get64
  | .int32 => (fun v => int32 v.toInt32) <$> get32
  | .uint128 => uint128 <$> getBitString 16
  | .uint160 => uint160 <$> getBitString 20
  | .uint192 => uint192 <$> getBitString 24
  | .uint256 => uint256 <$> getBitString 32
  | .amount => amount <$> STAmount.ofSerialIter scale mode
  | .number => number <$> STNumber.ofSerialIter scale mode
  | .vector256 => vector256 <$> STVector256.ofSerialIter
  | .vl => vl <$> getVL
  | .account => do
    let v ← getVL
    account <$> SerialIter.lift (STAccount.ofBuffer v)
  | .pathSet => pathSet <$> STPathSet.ofSerialIter
  | .issue => issue <$> STIssue.ofSerialIter
  | .currency => currency <$> getBitString 20
  | _ => throw (.runtimeError "Unknown object type")

/-- The path elements with the empty type in a value. -/
def emptyElements : STValue → Nat
  | pathSet v => v.emptyElements
  | _ => 0

/-- The values that are read again as they were written. -/
def Canonical (scale : MantissaScale) : STValue → Prop
  | amount v => v.Canonical
  | number v => STNumber.Canonical scale v
  | vector256 v => FitsVL (STVector256.toSlice v)
  | vl v => FitsVL v
  | pathSet v => v.Canonical
  | issue v => STIssue.Canonical v
  | _ => True

theorem fitsVL_toBuffer (account : Option UInt160) : FitsVL (STAccount.toBuffer account) := by
  unfold FitsVL kMaxValueOfLengthFor3ByteHeader
  cases account with
  | none => decide
  | some account =>
    have := account.length_bytes
    simp only [STAccount.toBuffer]
    omega

variable {scale : MantissaScale} {mode : RoundingMode} {v : STValue}

theorem run_make {α : Type} {r : SerialIter α} {a : α} {make : α → STValue} (h : r.run s = .ok (a, t)) :
    (make <$> r).run s = .ok (make a, t) :=
  run_map_eq_ok.2 ⟨a, t, h, rfl⟩

variable (mode) in
theorem Canonical.run_read (h : v.Canonical scale) :
    ∃ bs, v.add = .ok bs ∧ ∀ t, (read scale mode v.getSType).run (bs ++ t) = .ok (v, t) := by
  cases v with
  | uint8 v => exact ⟨_, rfl, fun t => run_make (run_get8_eq_ok.2 rfl)⟩
  | uint16 v => exact ⟨_, rfl, fun t => run_make (run_get16_eq_ok.2 rfl)⟩
  | uint32 v => exact ⟨_, rfl, fun t => run_make (run_get32_eq_ok.2 rfl)⟩
  | uint64 v => exact ⟨_, rfl, fun t => run_make (run_get64_eq_ok.2 rfl)⟩
  | int32 v => exact ⟨_, rfl, fun t => run_make (run_get32_eq_ok.2 rfl)⟩
  | uint128 v => exact ⟨_, rfl, fun t => run_make (run_getBitString_eq_ok.2 rfl)⟩
  | uint160 v => exact ⟨_, rfl, fun t => run_make (run_getBitString_eq_ok.2 rfl)⟩
  | uint192 v => exact ⟨_, rfl, fun t => run_make (run_getBitString_eq_ok.2 rfl)⟩
  | uint256 v => exact ⟨_, rfl, fun t => run_make (run_getBitString_eq_ok.2 rfl)⟩
  | amount v => exact ⟨_, rfl, fun t => run_make (STAmount.run_ofSerialIter_add scale mode h t)⟩
  | number v => exact ⟨_, rfl, fun t => run_make (STNumber.run_ofSerialIter_add scale mode h t)⟩
  | vector256 v =>
    obtain ⟨header, -, hadd⟩ := addVL_of_fits h
    exact ⟨_, hadd, fun t => run_make (STVector256.run_ofSerialIter_of_add h hadd)⟩
  | vl v =>
    obtain ⟨header, -, hadd⟩ := addVL_of_fits h
    exact ⟨_, hadd, fun t => run_make (run_getVL_of_add h hadd)⟩
  | account v =>
    obtain ⟨header, -, hadd⟩ := addVL_of_fits (fitsVL_toBuffer v)
    refine ⟨_, hadd, fun t => run_bind_eq_ok.2 ⟨_, t, run_getVL_of_add (fitsVL_toBuffer v) hadd, ?_⟩⟩
    exact run_map_eq_ok.2 ⟨v, t, run_lift_eq_ok.2 ⟨STAccount.ofBuffer_eq_ok.2 rfl, rfl⟩, rfl⟩
  | pathSet v =>
    obtain ⟨bs, hadd⟩ := STPathSet.add_ok fun path hp e he => ((h.2 path hp).2 e he).1
    exact ⟨bs, hadd, fun t => run_make (STPathSet.run_ofSerialIter_add h hadd t)⟩
  | issue v => exact ⟨_, rfl, fun t => run_make (STIssue.run_ofSerialIter_add h t)⟩
  | currency v => exact ⟨_, rfl, fun t => run_make (run_getBitString_eq_ok.2 rfl)⟩

/-- What is known of a value that was read: its type, that it can be written, in no more bytes than were read, and that
it is canonical but for path elements with the empty type. -/
structure Read (scale : MantissaScale) (type : SerializedTypeID) (s : Bytes) (v : STValue) (t : Bytes) : Prop where
  type : v.getSType = type
  length : ∃ bs, v.add = .ok bs ∧ bs.length + 20 * v.emptyElements + t.length ≤ s.length
  canonical : v.emptyElements = 0 → v.Canonical scale

variable {type : SerializedTypeID}

/-- The types that are read from the bytes they are written with and from no others. -/
theorem read_of_fixed {α : Type} {r : SerialIter α} {enc : α → Bytes} (make : α → STValue)
    (hr : ∀ {s t : Bytes} {a : α}, r.run s = .ok (a, t) ↔ s = enc a ++ t) (h : (make <$> r).run s = .ok (v, t))
    (htype : ∀ a, (make a).getSType = type := by intro; rfl) (hadd : ∀ a, (make a).add = .ok (enc a) := by intro; rfl)
    (hempty : ∀ a, (make a).emptyElements = 0 := by intro; rfl)
    (hcanonical : ∀ a, (make a).Canonical scale := by intro; trivial) : Read scale type s v t := by
  obtain ⟨a, t', ha, heq⟩ := run_map_eq_ok.1 h
  cases heq
  obtain rfl := hr.1 ha
  exact ⟨htype a, ⟨_, hadd a, by simp [hempty]⟩, fun _ => hcanonical a⟩

theorem canonical_of_run_read (h : (read scale mode type).run s = .ok (v, t)) : Read scale type s v t := by
  cases type with
  | uint8 => exact read_of_fixed uint8 run_get8_eq_ok h
  | uint16 => exact read_of_fixed uint16 run_get16_eq_ok h
  | uint32 => exact read_of_fixed uint32 run_get32_eq_ok h
  | uint64 => exact read_of_fixed uint64 run_get64_eq_ok h
  | int32 => exact read_of_fixed (fun v : UInt32 => int32 v.toInt32) run_get32_eq_ok h
  | uint128 => exact read_of_fixed uint128 run_getBitString_eq_ok h
  | uint160 => exact read_of_fixed uint160 run_getBitString_eq_ok h
  | uint192 => exact read_of_fixed uint192 run_getBitString_eq_ok h
  | uint256 => exact read_of_fixed uint256 run_getBitString_eq_ok h
  | currency => exact read_of_fixed currency run_getBitString_eq_ok h
  | amount =>
    obtain ⟨a, t', ha, heq⟩ := run_map_eq_ok.1 h
    cases heq
    obtain ⟨hcanonical, hlen⟩ := STAmount.canonical_of_ofSerialIter scale mode ha
    exact ⟨rfl, ⟨_, rfl, by simp only [emptyElements]; omega⟩, fun _ => hcanonical⟩
  | number =>
    obtain ⟨a, t', ha, heq⟩ := run_map_eq_ok.1 h
    cases heq
    obtain ⟨hcanonical, hlen⟩ := STNumber.canonical_of_ofSerialIter ha
    exact ⟨rfl, ⟨_, rfl, by simp only [emptyElements]; omega⟩, fun _ => hcanonical⟩
  | vector256 =>
    obtain ⟨a, t', ha, heq⟩ := run_map_eq_ok.1 h
    cases heq
    obtain ⟨hfits, bs, hbs, rfl⟩ := STVector256.add_of_ofSerialIter ha
    exact ⟨rfl, ⟨bs, hbs, by simp [emptyElements]⟩, fun _ => hfits⟩
  | vl =>
    obtain ⟨a, t', ha, heq⟩ := run_map_eq_ok.1 h
    cases heq
    obtain ⟨hfits, bs, hbs, rfl⟩ := add_of_run_getVL ha
    exact ⟨rfl, ⟨bs, hbs, by simp [emptyElements]⟩, fun _ => hfits⟩
  | account =>
    obtain ⟨a, s₁, ha, hlift⟩ := run_bind_eq_ok.1 h
    obtain ⟨hfits, bs, hbs, rfl⟩ := add_of_run_getVL ha
    obtain ⟨account, t', haccount, heq⟩ := run_map_eq_ok.1 hlift
    cases heq
    obtain ⟨hbuffer, rfl⟩ := run_lift_eq_ok.1 haccount
    rw [STAccount.ofBuffer_eq_ok] at hbuffer
    subst hbuffer
    exact ⟨rfl, ⟨bs, hbs, by simp [emptyElements]⟩, fun _ => trivial⟩
  | pathSet =>
    obtain ⟨a, t', ha, heq⟩ := run_map_eq_ok.1 h
    cases heq
    obtain ⟨bs, hbs, hlen, hcanonical⟩ := STPathSet.read_of_ofSerialIter ha
    exact ⟨rfl, ⟨bs, hbs, hlen⟩, hcanonical⟩
  | issue =>
    obtain ⟨a, t', ha, heq⟩ := run_map_eq_ok.1 h
    cases heq
    obtain ⟨hcanonical, rfl⟩ := STIssue.canonical_of_ofSerialIter ha
    exact ⟨rfl, ⟨_, rfl, by simp [emptyElements]⟩, fun _ => hcanonical⟩
  | _ => exact absurd h run_throw_ne_ok

end STValue

end Rippled.Protocol
