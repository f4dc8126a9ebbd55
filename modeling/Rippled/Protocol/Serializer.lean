import Rippled.Lib.Codec

/-!
# Serializer and SerialIter

The byte buffer that objects are written to (`Serializer`) and the cursor that they are read from (`SerialIter`). An
`add` function is the bytes that it appends. What `SerialIter` throws carries the text of the exception.
-/

namespace Rippled.Protocol

open Lib Lib.Reader UInt8

/-- The exceptions of the codecs. `outOfFuel` is none of the code's: it marks a loop that ran longer than the model
allows. -/
inductive Exception where
  | runtimeError (what : String)
  | overflowError (what : String)
  | logicError (what : String)
  | outOfFuel
  deriving DecidableEq

/-- A fixed-width unsigned integer of `n` bytes (`BaseUInt`), kept as its bytes with the most significant first. -/
structure BaseUInt (n : Nat) where
  bytes : Bytes
  length_bytes : bytes.length = n
  deriving DecidableEq

abbrev UInt160 := BaseUInt 20
abbrev UInt192 := BaseUInt 24
abbrev UInt256 := BaseUInt 32

namespace BaseUInt

variable {n : Nat}

@[ext] theorem ext {a b : BaseUInt n} (h : a.bytes = b.bytes) : a = b := by
  cases a; cases b; cases h; rfl

instance : Zero (BaseUInt n) := ⟨⟨List.replicate n 0, List.length_replicate⟩⟩

def isZero (a : BaseUInt n) : Bool := a = 0

theorem isZero_iff {a : BaseUInt n} : a.isZero = true ↔ a = 0 := decide_eq_true_iff

end BaseUInt

abbrev SerialIter := Reader Exception

namespace SerialIter

def get8 : SerialIter UInt8 := do
  let t ← takeBytes 1 (.runtimeError "invalid SerialIter get8")
  return t.headD 0

def get16 : SerialIter UInt16 := do
  let t ← takeBytes 2 (.runtimeError "invalid SerialIter get16")
  return UInt16.ofNat (ofBE t)

def get32 : SerialIter UInt32 := do
  let t ← takeBytes 4 (.runtimeError "invalid SerialIter get32")
  return UInt32.ofNat (ofBE t)

def get64 : SerialIter UInt64 := do
  let t ← takeBytes 8 (.runtimeError "invalid SerialIter get64")
  return UInt64.ofNat (ofBE t)

def getBitString (n : Nat) : SerialIter (BaseUInt n) := fun s =>
  if h : s.length < n then .error (.runtimeError "invalid SerialIter getBitString")
  else .ok (⟨s.take n, by simpa using h⟩, s.drop n)

def getRaw (size : Nat) : SerialIter Bytes := takeBytes size (.runtimeError "invalid SerialIter getRaw")

def getSlice (bytes : Nat) : SerialIter Bytes := takeBytes bytes (.runtimeError "invalid SerialIter getSlice")

/-- A type or a name that has a byte of its own. -/
def getUncommon (what : String) : SerialIter Nat := do
  let byte ← get8
  if byte.toNat < 16 then throw (.runtimeError s!"gFID: uncommon {what} out of range {byte.toNat}")
  else return byte.toNat

/-- The type and the name of a field, in one to three bytes. -/
def getFieldID : SerialIter (Nat × Nat) := do
  let first ← get8
  let type ← (if first.toNat / 16 = 0 then getUncommon "type" else pure (first.toNat / 16))
  let name ← (if first.toNat % 16 = 0 then getUncommon "name" else pure (first.toNat % 16))
  return (type, name)

end SerialIter

/-! ## Length headers -/

namespace Serializer

def kMaxValueOfLengthFor1ByteHeader : Nat := 192
def kMaxValueOfLengthFor2ByteHeader : Nat := 12480
def kMaxValueOfLengthFor3ByteHeader : Nat := 918744

/-- The number of bytes in a length header, from its first byte. -/
def decodeLengthLength (firstByte : UInt8) : Except Exception Nat :=
  if firstByte.toNat ≤ 192 then .ok 1
  else if firstByte.toNat ≤ 240 then .ok 2
  else if firstByte.toNat ≤ 254 then .ok 3
  else .error (.overflowError "decodeLengthLength: first byte does not start any header")

def decodeVLLength1 (firstByte : UInt8) : Except Exception Nat :=
  if kMaxValueOfLengthFor1ByteHeader < firstByte.toNat then
    .error (.overflowError "decodeVLLength 1 byte: first byte is not a length")
  else .ok firstByte.toNat

def decodeVLLength2 (firstByte secondByte : UInt8) : Except Exception Nat :=
  if firstByte.toNat < 193 then .error (.overflowError "decodeVLLength 2 byte: first byte is below the range")
  else if 240 < firstByte.toNat then .error (.overflowError "decodeVLLength 2 byte: first byte is above the range")
  else .ok (193 + (firstByte.toNat - 193) * 256 + secondByte.toNat)

def decodeVLLength3 (firstByte secondByte thirdByte : UInt8) : Except Exception Nat :=
  if firstByte.toNat < 241 then .error (.overflowError "decodeVLLength 3 byte: first byte is below the range")
  else if 254 < firstByte.toNat then .error (.overflowError "decodeVLLength 3 byte: first byte is above the range")
  else
    let length := 12481 + (firstByte.toNat - 241) * 65536 + secondByte.toNat * 256 + thirdByte.toNat
    if kMaxValueOfLengthFor3ByteHeader < length then
      .error (.overflowError "decodeVLLength 3 byte: length is too large to re-encode")
    else .ok length

/-- The header that states a length. -/
def addEncoded (length : Int) : Except Exception Bytes :=
  if length < 0 then .error (.overflowError "addEncoded: length is negative or did not fit in an int")
  else
    let length := length.toNat
    if length ≤ kMaxValueOfLengthFor1ByteHeader then .ok [UInt8.ofNat length]
    else if length ≤ kMaxValueOfLengthFor2ByteHeader then
      let offset := length - 193
      .ok [UInt8.ofNat (193 + offset / 256), UInt8.ofNat (offset % 256)]
    else if length ≤ kMaxValueOfLengthFor3ByteHeader then
      let offset := length - 12481
      .ok [UInt8.ofNat (241 + offset / 65536), UInt8.ofNat (offset / 256 % 256), UInt8.ofNat (offset % 256)]
    else .error (.overflowError "addEncoded: length is too large to encode")

end Serializer

namespace SerialIter

open Serializer

/-- Code that reads no bytes. -/
def lift {α : Type} (x : Except Exception α) : SerialIter α := fun s => x.map (·, s)

def getVLDataLength : SerialIter Nat := do
  let firstByte ← get8
  let lenLen ← lift (decodeLengthLength firstByte)
  if lenLen = 1 then lift (decodeVLLength1 firstByte)
  else if lenLen = 2 then do
    let secondByte ← get8
    lift (decodeVLLength2 firstByte secondByte)
  else do
    let secondByte ← get8
    let thirdByte ← get8
    lift (decodeVLLength3 firstByte secondByte thirdByte)

def getVL : SerialIter Bytes := do getRaw (← getVLDataLength)

end SerialIter

/-! ## Writing -/

namespace Serializer

def add8 (byteValue : UInt8) : Bytes := [byteValue]
def add16 (i : UInt16) : Bytes := toBE 2 i.toNat
def add32 (i : UInt32) : Bytes := toBE 4 i.toNat
def add64 (i : UInt64) : Bytes := toBE 8 i.toNat
def addBitString {n : Nat} (v : BaseUInt n) : Bytes := v.bytes

/-- The size of a buffer as the `int` that `addEncoded` takes. -/
def toInt (size : Nat) : Int := (size : Int).bmod (2 ^ 32)

def addVL (vector : Bytes) : Except Exception Bytes := do return (← addEncoded (toInt vector.length)) ++ vector

def addFieldID (type name : Nat) : Bytes :=
  if type < 16 then
    if name < 16 then [UInt8.ofNat (type * 16 + name)]
    else [UInt8.ofNat (type * 16), UInt8.ofNat name]
  else if name < 16 then [UInt8.ofNat name, UInt8.ofNat type]
  else [0, UInt8.ofNat type, UInt8.ofNat name]

end Serializer

/-! ## Reading gives back what was written -/

namespace SerialIter

open Serializer

variable {t s : Bytes}

theorem run_get8_eq_ok {b : UInt8} : get8.run s = .ok (b, t) ↔ s = add8 b ++ t := by
  unfold get8 add8
  rw [run_bind_eq_ok]
  simp only [run_takeBytes_eq_ok, run_pure_eq_ok]
  constructor
  · rintro ⟨bs, t', ⟨rfl, hlen⟩, h⟩
    obtain ⟨c, rfl⟩ := List.length_eq_one_iff.1 hlen
    cases h
    rfl
  · rintro rfl
    exact ⟨[b], t, ⟨rfl, rfl⟩, rfl⟩

theorem run_get8_cons (b : UInt8) (s : Bytes) : get8.run (b :: s) = .ok (b, s) := run_get8_eq_ok.2 rfl

variable {e : Exception} {n : Nat}

theorem run_ofBE_eq_ok {α : Type} {v : α} (ofNat : Nat → α) (toNat : α → Nat) (hlt : ∀ v, toNat v < 256 ^ n)
    (hleft : ∀ v, ofNat (toNat v) = v) (hright : ∀ k < 256 ^ n, toNat (ofNat k) = k) :
    (do let t ← takeBytes n e; return ofNat (ofBE t) : SerialIter α).run s = .ok (v, t) ↔
      s = toBE n (toNat v) ++ t := by
  rw [run_bind_eq_ok]
  simp only [run_takeBytes_eq_ok, run_pure_eq_ok]
  constructor
  · rintro ⟨bs, t', ⟨rfl, rfl⟩, h⟩
    cases h
    rw [hright _ (ofBE_lt bs), toBE_ofBE]
  · rintro rfl
    exact ⟨_, t, ⟨rfl, length_toBE _ _⟩, by rw [ofBE_toBE (hlt v), hleft]⟩

theorem run_get16_eq_ok {v : UInt16} : get16.run s = .ok (v, t) ↔ s = add16 v ++ t :=
  run_ofBE_eq_ok UInt16.ofNat UInt16.toNat (fun v => v.toNat_lt) (fun _ => UInt16.ofNat_toNat)
    fun _ => UInt16.toNat_ofNat_of_lt'

theorem run_get32_eq_ok {v : UInt32} : get32.run s = .ok (v, t) ↔ s = add32 v ++ t :=
  run_ofBE_eq_ok UInt32.ofNat UInt32.toNat (fun v => v.toNat_lt) (fun _ => UInt32.ofNat_toNat)
    fun _ => UInt32.toNat_ofNat_of_lt'

theorem run_get64_eq_ok {v : UInt64} : get64.run s = .ok (v, t) ↔ s = add64 v ++ t :=
  run_ofBE_eq_ok UInt64.ofNat UInt64.toNat (fun v => v.toNat_lt) (fun _ => UInt64.ofNat_toNat)
    fun _ => UInt64.toNat_ofNat_of_lt'

theorem run_getBitString_eq_ok {v : BaseUInt n} : (getBitString n).run s = .ok (v, t) ↔ s = addBitString v ++ t := by
  have hrun : (getBitString n).run s = if h : s.length < n then .error (.runtimeError "invalid SerialIter getBitString")
      else .ok (⟨s.take n, by simpa using h⟩, s.drop n) := rfl
  rw [hrun]
  constructor
  · intro h
    split_ifs at h with hlt
    cases h
    exact (List.take_append_drop n s).symm
  · rintro rfl
    have hv := v.length_bytes
    rw [dif_neg (by simp [addBitString, hv])]
    have htake : (addBitString v ++ t).take n = v.bytes := List.take_left' hv
    have hdrop : (addBitString v ++ t).drop n = t := List.drop_left' hv
    simp only [htake, hdrop]

theorem run_getUncommon_eq_ok {what : String} {v : Nat} :
    (getUncommon what).run s = .ok (v, t) ↔ s = UInt8.ofNat v :: t ∧ 16 ≤ v ∧ v < 256 := by
  unfold getUncommon
  simp only [run_bind_eq_ok, run_get8_eq_ok]
  constructor
  · rintro ⟨b, t', rfl, h⟩
    split_ifs at h with hb
    · exact absurd h run_throw_ne_ok
    · cases run_pure_eq_ok.1 h
      exact ⟨by simp [add8], by omega, b.toNat_lt⟩
  · rintro ⟨rfl, hlow, hhigh⟩
    have hv := toNat_ofNat_of_lt' hhigh
    refine ⟨ofNat v, t, rfl, ?_⟩
    rw [hv, if_neg (by omega)]
    rfl

/-- A field id is read from the bytes that `addFieldID` writes for it, and from no others. -/
theorem run_getFieldID_eq_ok {type name : Nat} :
    getFieldID.run s = .ok ((type, name), t) ↔
      s = addFieldID type name ++ t ∧ 0 < type ∧ type < 256 ∧ 0 < name ∧ name < 256 := by
  unfold getFieldID
  simp only [run_bind_eq_ok, run_get8_eq_ok, run_pure_eq_ok]
  constructor
  · rintro ⟨first, t₁, rfl, ty, t₂, hty, na, t₃, hna, h⟩
    cases h
    have hf := first.toNat_lt
    split_ifs at hty hna with h₀ h₁ h₁
    · obtain ⟨rfl, ht₁, ht₂⟩ := run_getUncommon_eq_ok.1 hty
      obtain ⟨rfl, hn₁, hn₂⟩ := run_getUncommon_eq_ok.1 hna
      have hz : first = 0 := UInt8.toNat_inj.1 (by simp; omega)
      refine ⟨?_, by omega, ht₂, by omega, hn₂⟩
      rw [addFieldID, if_neg (by omega), if_neg (by omega), hz]
      rfl
    · obtain ⟨rfl, ht₁, ht₂⟩ := run_getUncommon_eq_ok.1 hty
      cases run_pure_eq_ok.1 hna
      refine ⟨?_, by omega, ht₂, by omega, by omega⟩
      have hn : first.toNat % 16 = first.toNat := by omega
      rw [addFieldID, if_neg (by omega), if_pos (by omega), hn, UInt8.ofNat_toNat]
      rfl
    · cases run_pure_eq_ok.1 hty
      obtain ⟨rfl, hn₁, hn₂⟩ := run_getUncommon_eq_ok.1 hna
      refine ⟨?_, by omega, by omega, by omega, hn₂⟩
      have hd : first.toNat / 16 * 16 = first.toNat := by omega
      rw [addFieldID, if_pos (by omega), if_neg (by omega), hd, UInt8.ofNat_toNat]
      rfl
    · cases run_pure_eq_ok.1 hty
      cases run_pure_eq_ok.1 hna
      refine ⟨?_, by omega, by omega, by omega, by omega⟩
      have hd : first.toNat / 16 * 16 + first.toNat % 16 = first.toNat := by omega
      rw [addFieldID, if_pos (by omega), if_pos (by omega), hd, UInt8.ofNat_toNat]
      rfl
  · rintro ⟨rfl, ht₀, ht, hn₀, hn⟩
    unfold addFieldID
    split_ifs with h₀ h₁ h₁
    · have hv := toNat_ofNat_of_lt' (show type * 16 + name < 256 by omega)
      refine ⟨_, t, rfl, type, t, ?_, name, t, ?_, rfl⟩
      · rw [hv, if_neg (by omega), show (type * 16 + name) / 16 = type by omega]; rfl
      · rw [hv, if_neg (by omega), show (type * 16 + name) % 16 = name by omega]; rfl
    · have hv := toNat_ofNat_of_lt' (show type * 16 < 256 by omega)
      refine ⟨_, ofNat name :: t, rfl, type, ofNat name :: t, ?_, name, t, ?_, rfl⟩
      · rw [hv, if_neg (by omega), show type * 16 / 16 = type by omega]; rfl
      · rw [hv, if_pos (by omega)]; exact run_getUncommon_eq_ok.2 ⟨rfl, by omega, hn⟩
    · have hv := toNat_ofNat_of_lt' (show name < 256 by omega)
      refine ⟨_, ofNat type :: t, rfl, type, t, ?_, name, t, ?_, rfl⟩
      · rw [hv, if_pos (by omega)]; exact run_getUncommon_eq_ok.2 ⟨rfl, by omega, ht⟩
      · rw [hv, if_neg (by omega), Nat.mod_eq_of_lt h₁]; rfl
    · refine ⟨0, ofNat type :: ofNat name :: t, rfl, type, ofNat name :: t, ?_, name, t, ?_, rfl⟩
      · rw [if_pos (by decide)]; exact run_getUncommon_eq_ok.2 ⟨rfl, by omega, ht⟩
      · rw [if_pos (by decide)]; exact run_getUncommon_eq_ok.2 ⟨rfl, by omega, hn⟩

theorem run_lift_eq_ok {α : Type} {x : Except Exception α} {a : α} :
    (lift x).run s = .ok (a, t) ↔ x = .ok a ∧ t = s := by
  have hrun : (lift x).run s = x.map (·, s) := rfl
  rw [hrun]
  cases x with
  | error e => simp [Except.map]
  | ok b => simp [Except.map, eq_comm]

theorem addEncoded_eq_ok {header : Bytes} : addEncoded n = .ok header ↔
    (n ≤ 192 ∧ header = [UInt8.ofNat n]) ∨
      (192 < n ∧ n ≤ 12480 ∧ header = [UInt8.ofNat (193 + (n - 193) / 256), UInt8.ofNat ((n - 193) % 256)]) ∨
      (12480 < n ∧ n ≤ 918744 ∧ header =
        [UInt8.ofNat (241 + (n - 12481) / 65536), UInt8.ofNat ((n - 12481) / 256 % 256),
          UInt8.ofNat ((n - 12481) % 256)]) := by
  unfold addEncoded kMaxValueOfLengthFor1ByteHeader kMaxValueOfLengthFor2ByteHeader kMaxValueOfLengthFor3ByteHeader
  rw [if_neg (by omega)]
  simp only [Int.toNat_natCast]
  split_ifs with h₁ h₂ h₃
  · simp only [Except.ok.injEq, eq_comm, h₁, true_and]
    constructor
    · exact .inl
    · rintro (h | ⟨h, -⟩ | ⟨h, -⟩)
      · exact h
      · omega
      · omega
  · simp only [Except.ok.injEq, eq_comm (b := header)]
    constructor
    · exact fun h => .inr (.inl ⟨by omega, h₂, h⟩)
    · rintro (⟨h, -⟩ | ⟨-, -, h⟩ | ⟨h, -⟩)
      · omega
      · exact h
      · omega
  · simp only [Except.ok.injEq, eq_comm (b := header)]
    constructor
    · exact fun h => .inr (.inr ⟨by omega, h₃, h⟩)
    · rintro (⟨h, -⟩ | ⟨-, h, -⟩ | ⟨-, -, h⟩)
      · omega
      · omega
      · exact h
  · refine ⟨(nomatch ·), ?_⟩
    rintro (⟨h, -⟩ | ⟨-, h, -⟩ | ⟨-, h, -⟩) <;> omega

/-- The first byte says how long the header is. -/
theorem decodeLengthLength_eq {b : UInt8} {k : Nat} : decodeLengthLength b = .ok k ↔
    (b.toNat ≤ 192 ∧ k = 1) ∨ (192 < b.toNat ∧ b.toNat ≤ 240 ∧ k = 2) ∨ (240 < b.toNat ∧ b.toNat ≤ 254 ∧ k = 3) := by
  unfold decodeLengthLength
  split_ifs <;> simp <;> omega

/-- The length is read from the header that is written for it. -/
theorem run_getVLDataLength_eq_ok :
    getVLDataLength.run s = .ok (n, t) ↔ ∃ header, addEncoded n = .ok header ∧ s = header ++ t := by
  unfold getVLDataLength
  simp only [run_bind_eq_ok, run_get8_eq_ok, run_lift_eq_ok, decodeLengthLength_eq, addEncoded_eq_ok]
  constructor
  · rintro ⟨b, s₁, rfl, k, s₂, ⟨hk, rfl⟩, hrest⟩
    rcases hk with ⟨hb, rfl⟩ | ⟨hb, hb', rfl⟩ | ⟨hb, hb', rfl⟩
    · rw [if_pos rfl, run_lift_eq_ok] at hrest
      obtain ⟨hn, rfl⟩ := hrest
      unfold decodeVLLength1 kMaxValueOfLengthFor1ByteHeader at hn
      rw [if_neg (by omega)] at hn
      cases hn
      exact ⟨_, .inl ⟨hb, rfl⟩, by simp [add8]⟩
    · rw [if_neg (by decide), if_pos rfl] at hrest
      simp only [run_bind_eq_ok, run_get8_eq_ok, run_lift_eq_ok] at hrest
      obtain ⟨c, s₃, rfl, hn, rfl⟩ := hrest
      have hc := c.toNat_lt
      unfold decodeVLLength2 at hn
      rw [if_neg (by omega), if_neg (by omega)] at hn
      cases hn
      refine ⟨_, .inr (.inl ⟨by omega, by omega, rfl⟩), ?_⟩
      have h₁ : 193 + (193 + (b.toNat - 193) * 256 + c.toNat - 193) / 256 = b.toNat := by omega
      have h₂ : (193 + (b.toNat - 193) * 256 + c.toNat - 193) % 256 = c.toNat := by omega
      rw [h₁, h₂]
      simp [add8]
    · rw [if_neg (by decide), if_neg (by decide)] at hrest
      simp only [run_bind_eq_ok, run_get8_eq_ok, run_lift_eq_ok] at hrest
      obtain ⟨c, s₃, rfl, d, s₄, rfl, hn, rfl⟩ := hrest
      have hc := c.toNat_lt
      have hd := d.toNat_lt
      unfold decodeVLLength3 kMaxValueOfLengthFor3ByteHeader at hn
      rw [if_neg (by omega), if_neg (by omega)] at hn
      dsimp only at hn
      split_ifs at hn with hmax
      cases hn
      refine ⟨_, .inr (.inr ⟨by omega, by omega, rfl⟩), ?_⟩
      have h₁ : 241 + (12481 + (b.toNat - 241) * 65536 + c.toNat * 256 + d.toNat - 12481) / 65536 = b.toNat := by omega
      have h₂ : (12481 + (b.toNat - 241) * 65536 + c.toNat * 256 + d.toNat - 12481) / 256 % 256 = c.toNat := by omega
      have h₃ : (12481 + (b.toNat - 241) * 65536 + c.toNat * 256 + d.toNat - 12481) % 256 = d.toNat := by omega
      rw [h₁, h₂, h₃]
      simp [add8]
  · rintro ⟨header, hheader, rfl⟩
    rcases hheader with ⟨hn, rfl⟩ | ⟨hn, hn', rfl⟩ | ⟨hn, hn', rfl⟩
    · have hb := toNat_ofNat_of_lt' (show n < 256 by omega)
      refine ⟨_, t, rfl, 1, t, ⟨.inl ⟨by omega, rfl⟩, rfl⟩, ?_⟩
      rw [if_pos rfl, run_lift_eq_ok]
      unfold decodeVLLength1 kMaxValueOfLengthFor1ByteHeader
      rw [hb, if_neg (by omega)]
      exact ⟨rfl, rfl⟩
    · have hb := toNat_ofNat_of_lt' (show 193 + (n - 193) / 256 < 256 by omega)
      have hc := toNat_ofNat_of_lt' (show (n - 193) % 256 < 256 by omega)
      refine ⟨_, _, rfl, 2, _, ⟨.inr (.inl ⟨by omega, by omega, rfl⟩), rfl⟩, ?_⟩
      rw [if_neg (by decide), if_pos rfl]
      simp only [run_bind_eq_ok, run_get8_eq_ok, run_lift_eq_ok]
      refine ⟨_, t, rfl, ?_, rfl⟩
      have hn'' : 193 + (193 + (n - 193) / 256 - 193) * 256 + (n - 193) % 256 = n := by omega
      unfold decodeVLLength2
      rw [hb, hc, if_neg (by omega), if_neg (by omega), hn'']
    · have hb := toNat_ofNat_of_lt' (show 241 + (n - 12481) / 65536 < 256 by omega)
      have hc := toNat_ofNat_of_lt' (show (n - 12481) / 256 % 256 < 256 by omega)
      have hd := toNat_ofNat_of_lt' (show (n - 12481) % 256 < 256 by omega)
      refine ⟨_, _, rfl, 3, _, ⟨.inr (.inr ⟨by omega, by omega, rfl⟩), rfl⟩, ?_⟩
      rw [if_neg (by decide), if_neg (by decide)]
      simp only [run_bind_eq_ok, run_get8_eq_ok, run_lift_eq_ok]
      refine ⟨_, _, rfl, _, t, rfl, ?_, rfl⟩
      have hn'' : 12481 + (241 + (n - 12481) / 65536 - 241) * 65536 + (n - 12481) / 256 % 256 * 256 +
          (n - 12481) % 256 = n := by omega
      unfold decodeVLLength3 kMaxValueOfLengthFor3ByteHeader
      rw [hb, hc, hd, if_neg (by omega), if_neg (by omega)]
      rw [hn'', if_neg (by omega)]

/-- The longest string that has a length header. -/
def FitsVL (v : Bytes) : Prop := v.length ≤ kMaxValueOfLengthFor3ByteHeader

variable {v : Bytes}

theorem addVL_of_fits (h : FitsVL v) : ∃ header, addEncoded v.length = .ok header ∧ addVL v = .ok (header ++ v) := by
  unfold FitsVL kMaxValueOfLengthFor3ByteHeader at h
  have hint : toInt v.length = v.length := by
    unfold toInt
    rw [Int.bmod_def]
    omega
  have hheader : ∃ header, addEncoded v.length = .ok header := by
    simp only [addEncoded_eq_ok]
    rcases Nat.lt_or_ge 192 v.length with h₁ | h₁
    · rcases Nat.lt_or_ge 12480 v.length with h₂ | h₂
      · exact ⟨_, .inr (.inr ⟨h₂, h, rfl⟩)⟩
      · exact ⟨_, .inr (.inl ⟨h₁, h₂, rfl⟩)⟩
    · exact ⟨_, .inl ⟨h₁, rfl⟩⟩
  obtain ⟨header, hheader⟩ := hheader
  refine ⟨header, hheader, ?_⟩
  unfold addVL
  rw [hint, hheader]
  rfl

/-- The bytes after their length, for the functions that take them. -/
theorem run_lengthThenBytes_of_add {bs : Bytes} (h : FitsVL v) (hadd : addVL v = .ok bs) :
    (do takeBytes (← getVLDataLength) e : SerialIter Bytes).run (bs ++ t) = .ok (v, t) := by
  obtain ⟨header, hheader, hbs⟩ := addVL_of_fits h
  rw [hbs] at hadd
  cases hadd
  simp only [run_bind_eq_ok, run_getVLDataLength_eq_ok, run_takeBytes_eq_ok]
  exact ⟨v.length, v ++ t, ⟨header, hheader, by simp⟩, rfl, rfl⟩

theorem add_of_run_lengthThenBytes (h : (do takeBytes (← getVLDataLength) e : SerialIter Bytes).run s = .ok (v, t)) :
    FitsVL v ∧ ∃ bs, addVL v = .ok bs ∧ s = bs ++ t := by
  simp only [run_bind_eq_ok, run_getVLDataLength_eq_ok, run_takeBytes_eq_ok] at h
  obtain ⟨n, s₁, ⟨header, hheader, rfl⟩, rfl, rfl⟩ := h
  have hfits : FitsVL v := by
    unfold FitsVL kMaxValueOfLengthFor3ByteHeader
    rcases addEncoded_eq_ok.1 hheader with ⟨h, -⟩ | ⟨-, h, -⟩ | ⟨-, h, -⟩ <;> omega
  obtain ⟨header', hheader', hbs⟩ := addVL_of_fits hfits
  rw [hheader] at hheader'
  cases hheader'
  exact ⟨hfits, _, hbs, by simp⟩

theorem run_getVL_of_add {bs : Bytes} (h : FitsVL v) (hadd : addVL v = .ok bs) : getVL.run (bs ++ t) = .ok (v, t) :=
  run_lengthThenBytes_of_add h hadd

/-- What is read is what was written. -/
theorem add_of_run_getVL (h : getVL.run s = .ok (v, t)) : FitsVL v ∧ ∃ bs, addVL v = .ok bs ∧ s = bs ++ t :=
  add_of_run_lengthThenBytes h

end SerialIter

end Rippled.Protocol
