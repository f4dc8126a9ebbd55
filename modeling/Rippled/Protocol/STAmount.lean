import Rippled.Lib.Words
import Rippled.Protocol.IOURounding

/-!
# The wire form of amounts

`STAmount` as it is read from a `SerialIter` and written to a `Serializer`. The first bit tells issued currencies from
the other two, the second is the sign, and the third tells MPT amounts from XRP. The code takes 8 bytes for XRP, 33 for
an MPT and 48 for an issued currency. Amounts of issued currencies are brought to normal form through `IOUAmount`, so
reading depends on the scale and the rounding mode of the thread.
-/

namespace Rippled.Protocol

open Lib Lib.Reader Basics Serializer SerialIter Words

inductive Asset where
  | issue (currency account : UInt160)
  | mptIssue (mptID : UInt192)
  deriving DecidableEq

def xrpIssue : Asset := .issue 0 0

/-- An issue with the currency of XRP is native, whatever its account. -/
def Asset.native : Asset → Bool
  | .issue currency _ => currency.isZero
  | .mptIssue _ => false

structure STAmount where
  asset : Asset
  value : UInt64
  offset : Int
  isNegative : Bool
  deriving DecidableEq

namespace STAmount

def kMinOffset : Int := -96
def kMaxOffset : Int := 80
def kMinValue : UInt64 := 1000000000000000
def kMaxValue : UInt64 := 9999999999999999
def kIssuedCurrency : UInt64 := 0x8000000000000000
def kPositive : UInt64 := 0x4000000000000000
def kMpToken : UInt64 := 0x2000000000000000
def kValueMask : UInt64 := ~~~(kPositive ||| kMpToken)

def toUInt64 (i : Int) : UInt64 := UInt64.ofNat (i % 2 ^ 64).toNat

/-- The amount as an `IOUAmount`, in normal form. The value is cast to an `int64`. -/
def iou (scale : MantissaScale) (mode : RoundingMode) (a : STAmount) : Run String IOUAmount :=
  let mantissa := a.value.toBitVec.toInt
  IOUAmount.make (mantissaRange scale) mode (if a.isNegative then -mantissa else mantissa) a.offset

def assignIou (a : STAmount) (iou : IOUAmount) : STAmount :=
  { a with offset := iou.exponent, isNegative := decide (iou.mantissa < 0), value := UInt64.ofNat iou.mantissa.natAbs }

/-- `canonicalize` for an issued currency. -/
def canonicalize (scale : MantissaScale) (mode : RoundingMode) (a : STAmount) : Except Exception STAmount :=
  match a.iou scale mode with
  | .ok iou => .ok (a.assignIou iou)
  | .error (.thrown what) => .error (.overflowError what)
  | .error .outOfFuel => .error .outOfFuel

/-- The amount of an issued currency in the first eight bytes. -/
def readIssued (scale : MantissaScale) (mode : RoundingMode) (issue : Asset) (value : UInt64) :
    Except Exception STAmount :=
  let offset := (value >>> 54).toNat
  let value := value &&& ~~~((1023 : UInt64) <<< 54)
  if value ≠ 0 then
    let isNegative := decide (offset &&& 256 = 0)
    let offset : Int := (offset &&& 255 : Nat) - 97
    if value < kMinValue ∨ value > kMaxValue ∨ offset < kMinOffset ∨ offset > kMaxOffset then
      .error (.runtimeError "invalid currency value")
    else canonicalize scale mode ⟨issue, value, offset, isNegative⟩
  else if offset ≠ 512 then .error (.runtimeError "invalid currency value")
  else canonicalize scale mode ⟨issue, 0, 0, false⟩

/-- The part of the constructor after the first eight bytes, for XRP. -/
def readXrp (value : UInt64) : Except Exception STAmount :=
  if value &&& kPositive ≠ 0 then .ok ⟨xrpIssue, value &&& kValueMask, 0, false⟩
  else if value = 0 then .error (.runtimeError "negative zero is not canonical")
  else .ok ⟨xrpIssue, value &&& kValueMask, 0, true⟩

/-- The constructor from a `SerialIter`. -/
def ofSerialIter (scale : MantissaScale) (mode : RoundingMode) : SerialIter STAmount := do
  let value ← get64
  if value &&& kIssuedCurrency = 0 then
    if value &&& kMpToken ≠ 0 then
      let low ← get8
      let mptID ← getBitString 24
      return ⟨.mptIssue mptID, (value <<< 8) ||| low.toUInt64, 0, decide (value &&& kPositive = 0)⟩
    else SerialIter.lift (readXrp value)
  else
    let currency ← getBitString 20
    if currency.isZero then throw (.runtimeError "invalid native currency")
    else
      let account ← getBitString 20
      if account.isZero then throw (.runtimeError "invalid native account")
      else SerialIter.lift (readIssued scale mode (.issue currency account) value)

/-- The first eight bytes of an amount of an issued currency. -/
def issuedWord (a : STAmount) : UInt64 :=
  if a.value = 0 then kIssuedCurrency
  else if a.isNegative then a.value ||| (toUInt64 (a.offset + 512 + 97) <<< 54)
  else a.value ||| (toUInt64 (a.offset + 512 + 256 + 97) <<< 54)

def add (a : STAmount) : Bytes :=
  match a.asset with
  | .mptIssue mptID =>
    let u8 := (kMpToken >>> 56).toUInt8
    let u8 := if !a.isNegative then u8 ||| (kPositive >>> 56).toUInt8 else u8
    add8 u8 ++ add64 a.value ++ addBitString mptID
  | .issue currency account =>
    if a.asset.native then
      if !a.isNegative then add64 (a.value ||| kPositive) else add64 a.value
    else add64 a.issuedWord ++ addBitString currency ++ addBitString account

/-! ## What was read is written again -/

theorem and_kIssuedCurrency (v : UInt64) : v &&& kIssuedCurrency = 0 ↔ v.toNat / 2 ^ 63 % 2 = 0 :=
  and_bit_eq_zero v (k := 63) (by decide)

theorem and_kPositive (v : UInt64) : v &&& kPositive = 0 ↔ v.toNat / 2 ^ 62 % 2 = 0 :=
  and_bit_eq_zero v (k := 62) (by decide)

theorem and_kMpToken (v : UInt64) : v &&& kMpToken = 0 ↔ v.toNat / 2 ^ 61 % 2 = 0 :=
  and_bit_eq_zero v (k := 61) (by decide)

variable {a : STAmount} {value : UInt64}

theorem add_of_readXrp (hmpt : value &&& kMpToken = 0) (h : readXrp value = .ok a) : a.add = add64 value := by
  unfold readXrp at h
  split_ifs at h with hpos hzero
  · cases h
    have hset : value &&& kPositive = kPositive :=
      ((and_bit_cases value (k := 62) (by decide)).resolve_left fun h => hpos h.1).1
    exact congrArg add64 (mask_set hmpt hset)
  · cases h
    exact congrArg add64 (mask_clear hmpt (not_not.1 hpos))

theorem toInt_of_lt (h : value.toNat < 2 ^ 63) : value.toBitVec.toInt = value.toNat :=
  BitVec.toInt_eq_toNat_of_lt (by rw [UInt64.toNat_toBitVec]; omega)

/-- A value in range is canonical already. -/
theorem canonicalize_of_normal (scale : MantissaScale) (mode : RoundingMode) (hmin : kMinValue ≤ a.value)
    (hmax : a.value ≤ kMaxValue) (hlow : kMinOffset ≤ a.offset) (hhigh : a.offset ≤ kMaxOffset) :
    canonicalize scale mode a = .ok a := by
  have hmin' : 1000000000000000 ≤ a.value.toNat := hmin
  have hmax' : a.value.toNat ≤ 9999999999999999 := hmax
  unfold canonicalize iou
  rw [toInt_of_lt (by omega), IOUAmount.make_of_normal scale mode hmin' hmax' hlow hhigh]
  unfold assignIou
  simp only [IOUAmount.natAbs_signed, IOUAmount.signed_lt_zero _ (show 0 < a.value.toNat by omega), UInt64.ofNat_toNat]

theorem canonicalize_zero (scale : MantissaScale) (mode : RoundingMode) (issue : Asset) :
    canonicalize scale mode ⟨issue, 0, 0, false⟩ = .ok ⟨issue, 0, -100, false⟩ := rfl

theorem toNat_low54 (v : UInt64) : (v &&& ~~~((1023 : UInt64) <<< 54)).toNat = v.toNat % 2 ^ 54 := by
  rw [UInt64.toNat_and, ← Nat.and_two_pow_sub_one_eq_mod]
  rfl

theorem toNat_high10 (v : UInt64) : (v >>> 54).toNat = v.toNat / 2 ^ 54 := by
  rw [UInt64.toNat_shiftRight, Nat.shiftRight_eq_div_pow]
  rfl

theorem toNat_toUInt64 {i : Int} (h : 0 ≤ i) (h' : i < 1024) : (toUInt64 i).toNat = i.toNat := by
  unfold toUInt64
  rw [Int.emod_eq_of_lt h (by omega)]
  exact UInt64.toNat_ofNat_of_lt' (show i.toNat < 2 ^ 64 by omega)

theorem join54 {v hi : UInt64} (h : hi.toNat = v.toNat / 2 ^ 54) :
    v &&& ~~~((1023 : UInt64) <<< 54) ||| (hi <<< 54) = v := by
  have hv := v.toNat_lt
  have h54 : (54 : UInt64).toNat = 54 := rfl
  apply UInt64.toNat_inj.1
  rw [or_shiftLeft_toNat (by decide) (by rw [toNat_low54, h54]; exact Nat.mod_lt _ (by decide)) (by rw [h, h54]; omega),
    h, h54, toNat_low54]
  omega

variable {scale : MantissaScale} {mode : RoundingMode}

/-- The amounts that the code brings its results to: of XRP, with fewer than 61 bits and no negative zero; of an issued
currency, with sixteen digits and an exponent in range, or zero in its one form. -/
def Canonical (a : STAmount) : Prop :=
  match a.asset with
  | .mptIssue _ => a.offset = 0
  | .issue currency account =>
    if currency = 0 then account = 0 ∧ a.value.toNat < 2 ^ 61 ∧ a.offset = 0 ∧ (a.value = 0 → a.isNegative = false)
    else account ≠ 0 ∧
      ((kMinValue ≤ a.value ∧ a.value ≤ kMaxValue ∧ kMinOffset ≤ a.offset ∧ a.offset ≤ kMaxOffset) ∨
        (a.value = 0 ∧ a.offset = -100 ∧ a.isNegative = false))

theorem canonical_of_readXrp (hissued : value &&& kIssuedCurrency = 0) (hmpt : value &&& kMpToken = 0)
    (h : readXrp value = .ok a) : a.Canonical := by
  -- the three bits above the value are clear after masking
  have hmask : (value &&& kValueMask).toNat < 2 ^ 61 := by
    have h₁ := (and_kMpToken (value &&& kValueMask)).1
        (by rw [UInt64.and_assoc, show kValueMask &&& kMpToken = 0 by decide]; simp)
    have h₂ := (and_kPositive (value &&& kValueMask)).1
        (by rw [UInt64.and_assoc, show kValueMask &&& kPositive = 0 by decide]; simp)
    have h₃ := (and_kIssuedCurrency (value &&& kValueMask)).1 (by
      rw [UInt64.and_assoc, UInt64.and_comm kValueMask, ← UInt64.and_assoc, hissued]
      simp)
    have := (value &&& kValueMask).toNat_lt
    omega
  unfold readXrp at h
  split_ifs at h with hpos hzero
  · cases h
    exact ⟨rfl, hmask, rfl, fun _ => rfl⟩
  · cases h
    refine ⟨rfl, hmask, rfl, fun h0 => absurd ?_ hzero⟩
    exact (mask_clear hmpt (not_not.1 hpos)).symm.trans h0

/-- An issued amount is read in its one form. Its first eight bytes are those it was read from. -/
theorem readIssued_eq_ok {issue : Asset} (h : readIssued scale mode issue value = .ok a) :
    a.asset = issue ∧
      ((kMinValue ≤ a.value ∧ a.value ≤ kMaxValue ∧ kMinOffset ≤ a.offset ∧ a.offset ≤ kMaxOffset) ∨
        (a.value = 0 ∧ a.offset = -100 ∧ a.isNegative = false)) ∧
      (2 ^ 63 ≤ value.toNat → a.issuedWord = value) := by
  have hv := value.toNat_lt
  have hhigh := toNat_high10 value
  have hlow := toNat_low54 value
  unfold readIssued at h
  dsimp only at h
  split_ifs at h with hval hrange hoff
  · -- an amount that is not zero, in normal form
    simp only [not_or] at hrange
    obtain ⟨hmin, hmax, hmin', hmax'⟩ := hrange
    rw [canonicalize_of_normal scale mode (UInt64.not_lt.1 hmin) (UInt64.not_lt.1 hmax) (Int.not_lt.1 hmin')
      (Int.not_lt.1 hmax')] at h
    cases h
    have h255 : value.toNat / 2 ^ 54 &&& 255 = value.toNat / 2 ^ 54 % 256 := Nat.and_two_pow_sub_one_eq_mod _ 8
    have h256 : value.toNat / 2 ^ 54 &&& 256 = (Nat.testBit (value.toNat / 2 ^ 54) 8).toNat * 256 := Nat.and_two_pow _ 8
    rw [Nat.testBit_eq_decide_div_mod_eq] at h256
    refine ⟨rfl, .inl ⟨UInt64.not_lt.1 hmin, UInt64.not_lt.1 hmax, Int.not_lt.1 hmin', Int.not_lt.1 hmax'⟩,
      fun hissued => ?_⟩
    unfold issuedWord
    dsimp only
    rw [if_neg hval, hhigh, h255, h256]
    by_cases hsign : value.toNat / 2 ^ 54 / 2 ^ 8 % 2 = 1
    · rw [decide_eq_true hsign, if_neg (by decide)]
      exact join54 (by rw [toNat_toUInt64 (by omega) (by omega)]; omega)
    · rw [decide_eq_false hsign, if_pos (by decide)]
      exact join54 (by rw [toNat_toUInt64 (by omega) (by omega)]; omega)
  · -- zero, which has one form
    rw [canonicalize_zero] at h
    cases h
    refine ⟨rfl, .inr ⟨rfl, rfl, rfl⟩, fun _ => UInt64.toNat_inj.1 ?_⟩
    have hz : value.toNat % 2 ^ 54 = 0 := by rw [← hlow, not_not.1 hval]; rfl
    have hk : kIssuedCurrency.toNat = 512 * 2 ^ 54 := rfl
    unfold issuedWord
    rw [if_pos rfl, hk]
    omega

/-- The string is an MPT amount in whose first byte bits are set that have no meaning. -/
def ReservedBits (s : Bytes) : Prop :=
  ∃ first rest, s = first :: rest ∧ first.toNat < 128 ∧ first.toNat / 32 % 2 = 1 ∧ first.toNat % 32 ≠ 0

theorem add64_cons (v : UInt64) : add64 v = UInt8.ofNat (v.toNat / 2 ^ 56) :: toBE 7 v.toNat := rfl

theorem toBE_concat (n x : Nat) (b : UInt8) : toBE (n + 1) (x * 256 + b.toNat) = toBE n x ++ [b] := by
  have hb := b.toNat_lt
  induction n with
  | zero => simp [toBE]
  | succ n ih =>
    have hdiv : (x * 256 + b.toNat) / 256 ^ (n + 1) = x / 256 ^ n := by
      rw [pow_succ, mul_comm (256 ^ n) 256, ← Nat.div_div_eq_div_mul]
      congr 1
      omega
    rw [toBE, hdiv, ih]
    rfl

/-- The 33 bytes of an MPT amount are those of the amount that is read from them, with the bits that have no meaning
cleared. -/
theorem add_of_readMpt {low : UInt8} {mptID : UInt192} (hissued : value.toNat < 2 ^ 63)
    (hmpt : value.toNat / 2 ^ 61 % 2 = 1) :
    add ⟨.mptIssue mptID, (value <<< 8) ||| low.toUInt64, 0, decide (value &&& kPositive = 0)⟩ =
      UInt8.ofNat (value.toNat / 2 ^ 61 * 32) :: (toBE 7 value.toNat ++ add8 low ++ addBitString mptID) := by
  have hlow : add64 ((value <<< 8) ||| low.toUInt64) = toBE 7 value.toNat ++ add8 low := by
    unfold add64 add8
    rw [toNat_shiftIn, toBE_concat]
    congr 1
    conv_rhs => rw [← Nat.div_add_mod' value.toNat (2 ^ 56)]
    exact (toBE_add_mul 7 _ _).symm
  unfold add
  rw [hlow]
  by_cases hpos : value.toNat / 2 ^ 62 % 2 = 0
  · rw [decide_eq_true ((and_kPositive value).2 hpos), show value.toNat / 2 ^ 61 = 1 by omega]
    rfl
  · rw [decide_eq_false fun h => hpos ((and_kPositive value).1 h), show value.toNat / 2 ^ 61 = 3 by omega]
    rfl

variable {t : Bytes}

/-- Which words have the reserved bits set. -/
theorem reservedBits_iff : ReservedBits (add64 value ++ t) ↔
    value.toNat < 2 ^ 63 ∧ value.toNat / 2 ^ 61 % 2 = 1 ∧ value.toNat / 2 ^ 56 % 32 ≠ 0 := by
  have hv := value.toNat_lt
  have hfirst := UInt8.toNat_ofNat_of_lt' (show value.toNat / 2 ^ 56 < 256 by omega)
  rw [add64_cons]
  constructor
  · rintro ⟨first, rest, heq, h₁, h₂, h₃⟩
    obtain ⟨rfl, -⟩ := List.cons.inj heq
    rw [hfirst] at h₁ h₂ h₃
    omega
  · rintro ⟨h₁, h₂, h₃⟩
    exact ⟨_, _, rfl, by rw [hfirst]; omega, by rw [hfirst]; omega, by rw [hfirst]; omega⟩

/-- An amount that is read is canonical, and is written again as the bytes that were taken, unless they have reserved
bits set. -/
theorem add_of_ofSerialIter {s : Bytes} (h : (ofSerialIter scale mode).run s = .ok (a, t)) :
    a.Canonical ∧ ∃ used, s = used ++ t ∧ used.length = a.add.length ∧ (a.add = used ↔ ¬ ReservedBits s) := by
  unfold ofSerialIter at h
  obtain ⟨value, s₁, hvalue, hbody⟩ := run_bind_eq_ok.1 h
  rw [run_get64_eq_ok] at hvalue
  subst hvalue
  have hv := value.toNat_lt
  have hissued := and_kIssuedCurrency value
  have hmpt := and_kMpToken value
  rw [reservedBits_iff]
  split_ifs at hbody with h₁ h₂
  · -- an MPT
    obtain ⟨low, s₂, hlow, hrest⟩ := run_bind_eq_ok.1 hbody
    obtain ⟨mptID, s₃, hid, hret⟩ := run_bind_eq_ok.1 hrest
    rw [run_get8_eq_ok] at hlow
    rw [run_getBitString_eq_ok] at hid
    subst hlow hid
    cases run_pure_eq_ok.1 hret
    rw [hissued] at h₁
    rw [ne_eq, hmpt] at h₂
    refine ⟨rfl, add64 value ++ (add8 low ++ addBitString mptID), by simp, ?_⟩
    rw [add_of_readMpt (by omega) (by omega), add64_cons, List.cons_append, List.append_assoc]
    refine ⟨by simp, ?_, ?_⟩
    · rintro heq ⟨-, -, hres⟩
      have hbyte := congrArg UInt8.toNat (List.cons.inj heq).1
      rw [UInt8.toNat_ofNat', UInt8.toNat_ofNat'] at hbyte
      omega
    · intro hno
      have hdiv : value.toNat / 2 ^ 61 * 32 = value.toNat / 2 ^ 56 := by omega
      rw [hdiv]
  · -- XRP
    have hzero := not_not.1 h₂
    obtain ⟨hread, rfl⟩ := run_lift_eq_ok.1 hbody
    have hadd := add_of_readXrp hzero hread
    rw [hmpt] at hzero
    exact ⟨canonical_of_readXrp h₁ (not_not.1 h₂) hread, add64 value, rfl, by rw [hadd], iff_of_true hadd (by omega)⟩
  · -- an issued currency
    rw [hissued] at h₁
    obtain ⟨currency, s₂, hcurrency, hrest⟩ := run_bind_eq_ok.1 hbody
    rw [run_getBitString_eq_ok] at hcurrency
    subst hcurrency
    split_ifs at hrest with hnative
    · exact absurd hrest run_throw_ne_ok
    · obtain ⟨account, s₃, haccount, hrest'⟩ := run_bind_eq_ok.1 hrest
      rw [run_getBitString_eq_ok] at haccount
      subst haccount
      split_ifs at hrest' with hzero
      · exact absurd hrest' run_throw_ne_ok
      · obtain ⟨hread, rfl⟩ := run_lift_eq_ok.1 hrest'
        obtain ⟨hasset, hrange, hword⟩ := readIssued_eq_ok hread
        have hissue : ¬ (Asset.issue currency account).native = true := hnative
        have hadd : a.add = add64 value ++ addBitString currency ++ addBitString account := by
          unfold add
          rw [hasset]
          dsimp only
          rw [if_neg hissue, hword (by omega)]
        refine ⟨?_, _, by simp, by rw [hadd], iff_of_true hadd (by omega)⟩
        unfold Canonical
        rw [hasset]
        dsimp only
        rw [if_neg fun h => hnative (BaseUInt.isZero_iff.2 h)]
        exact ⟨fun h => hzero (BaseUInt.isZero_iff.2 h), hrange⟩

/-- An amount that is accepted is written again as exactly the bytes that were taken, unless those are an MPT amount
with reserved bits set; apart from these, the bytes taken for an amount are determined by it. -/
theorem one_wire_form (scale : MantissaScale) (mode : RoundingMode) :
    (∀ s a t, (ofSerialIter scale mode).run s = .ok (a, t) → ∃ used, s = used ++ t ∧
      (a.add = used ↔ ¬ ReservedBits s)) ∧
    ∀ s s' a t t', (ofSerialIter scale mode).run s = .ok (a, t) → (ofSerialIter scale mode).run s' = .ok (a, t') →
      ¬ ReservedBits s → ¬ ReservedBits s' → ∃ used, s = used ++ t ∧ s' = used ++ t' := by
  have hwire : ∀ s a t, (ofSerialIter scale mode).run s = .ok (a, t) → ∃ used, s = used ++ t ∧
      (a.add = used ↔ ¬ ReservedBits s) :=
    fun s a t h => (add_of_ofSerialIter h).2.imp fun _ h => ⟨h.1, h.2.2⟩
  refine ⟨hwire, fun s s' a t t' h h' hr hr' => ?_⟩
  obtain ⟨used, heq, hiff⟩ := hwire _ _ _ h
  obtain ⟨used', heq', hiff'⟩ := hwire _ _ _ h'
  exact ⟨a.add, by rw [hiff.2 hr]; exact heq, by rw [hiff'.2 hr']; exact heq'⟩

/-- 33 zero bytes, but for the first. -/
def mptBytes (first : UInt8) : Bytes := first :: List.replicate 32 0

/-- The two strings differ only in a reserved bit of the first byte. Both are accepted as the same amount, which is
written as the first of them. -/
theorem reserved_bit_dropped : ∃ a : STAmount,
    (ofSerialIter .large330 .toNearest).run (mptBytes 0x60) = .ok (a, []) ∧
    (ofSerialIter .large330 .toNearest).run (mptBytes 0x61) = .ok (a, []) ∧
    a.add = mptBytes 0x60 ∧ mptBytes 0x60 ≠ mptBytes 0x61 := by
  refine ⟨⟨.mptIssue 0, 0, 0, false⟩, ?_, ?_, ?_, ?_⟩ <;> decide +kernel

/-- The bytes of one unit of an issued currency. -/
def oneIssued : Bytes := add64 0xD4838D7EA4C68000 ++ List.replicate 40 1

/-- One unit of an issued currency, with another byte behind it each time: the bytes that are taken are those that are
written, and they are the same. -/
theorem one_wire_form_issued : ∃ a, (ofSerialIter .large330 .toNearest).run (oneIssued ++ [7]) = .ok (a, [7]) ∧
    (∃ used, oneIssued ++ [7] = used ++ [7] ∧ a.add = used) ∧
    ∃ used, oneIssued ++ [7] = used ++ [7] ∧ oneIssued ++ [8] = used ++ [8] := by
  have hread : ∀ b : UInt8, b = 7 ∨ b = 8 → (ofSerialIter .large330 .toNearest).run (oneIssued ++ [b]) =
      .ok (⟨.issue ⟨List.replicate 20 1, rfl⟩ ⟨List.replicate 20 1, rfl⟩, 1000000000000000, -15, false⟩, [b]) := by
    rintro b (rfl | rfl) <;> decide +kernel
  have hres : ∀ b : UInt8, ¬ ReservedBits (oneIssued ++ [b]) := by
    intro b
    rw [oneIssued, List.append_assoc, reservedBits_iff]
    decide
  obtain ⟨used, heq, hiff⟩ := (one_wire_form .large330 .toNearest).1 _ _ _ (hread 7 (.inl rfl))
  exact ⟨_, hread 7 (.inl rfl), ⟨used, heq, hiff.2 (hres 7)⟩,
    (one_wire_form .large330 .toNearest).2 _ _ _ _ _ (hread 7 (.inl rfl)) (hread 8 (.inr rfl)) (hres 7) (hres 8)⟩

/-! ## What was written is read again -/

section Read
variable (scale : MantissaScale) (mode : RoundingMode)

/-- The first eight bytes of an amount of XRP. -/
def xrpWord (value : UInt64) (isNegative : Bool) : UInt64 := if !isNegative then value ||| kPositive else value

theorem readXrp_xrpWord {isNegative : Bool} (hvalue : value.toNat < 2 ^ 61) (hzero : value = 0 → isNegative = false) :
    readXrp (xrpWord value isNegative) = .ok ⟨xrpIssue, value, 0, isNegative⟩ := by
  have hpos : value &&& kPositive = 0 := (and_kPositive value).2 (by omega)
  have hmpt : value &&& kMpToken = 0 := (and_kMpToken value).2 (by omega)
  unfold readXrp
  cases isNegative with
  | true =>
    have hword : xrpWord value true = value := rfl
    have hne : value ≠ 0 := fun h => Bool.noConfusion (hzero h)
    rw [hword, if_neg (not_not.2 hpos), if_neg hne]
    unfold kValueMask
    rw [mask_clear hmpt hpos]
  | false =>
    have hword : xrpWord value false = value ||| kPositive := rfl
    have hset : (value ||| kPositive) &&& kPositive ≠ 0 := by
      rw [or_and, hpos]
      decide
    rw [hword, if_pos hset]
    unfold kValueMask
    rw [mask_or hmpt hpos]

theorem xrpWord_bits (isNegative : Bool) (hvalue : value.toNat < 2 ^ 61) :
    xrpWord value isNegative &&& kIssuedCurrency = 0 ∧ xrpWord value isNegative &&& kMpToken = 0 := by
  have hissued : value &&& kIssuedCurrency = 0 := (and_kIssuedCurrency value).2 (by omega)
  have hmpt : value &&& kMpToken = 0 := (and_kMpToken value).2 (by omega)
  cases isNegative with
  | true => exact ⟨hissued, hmpt⟩
  | false =>
    have hword : xrpWord value false = value ||| kPositive := rfl
    rw [hword, or_and, or_and, hissued, hmpt]
    exact ⟨by decide, by decide⟩

theorem toNat_issuedWord (hmin : kMinValue ≤ a.value) (hmax : a.value ≤ kMaxValue) (hlow : kMinOffset ≤ a.offset)
    (hhigh : a.offset ≤ kMaxOffset) :
    a.issuedWord.toNat = (a.offset + 97 + 512 + (if a.isNegative then 0 else 256)).toNat * 2 ^ 54 + a.value.toNat := by
  have hmin' : 1000000000000000 ≤ a.value.toNat := hmin
  have hmax' : a.value.toNat ≤ 9999999999999999 := hmax
  unfold kMinOffset at hlow
  unfold kMaxOffset at hhigh
  have hne : a.value ≠ 0 := by
    intro h
    rw [h] at hmin'
    exact absurd hmin' (by decide)
  have h54 : (54 : UInt64).toNat = 54 := rfl
  have hjoin : ∀ i : Int, 0 ≤ i → i < 1024 → (a.value ||| (toUInt64 i <<< 54)).toNat =
      i.toNat * 2 ^ 54 + a.value.toNat := by
    intro i h₀ h₁
    have hi := toNat_toUInt64 h₀ h₁
    rw [or_shiftLeft_toNat (by decide) (by rw [h54]; omega) (by rw [hi, h54]; omega), hi, h54]
  unfold issuedWord
  rw [if_neg hne]
  cases a.isNegative with
  | true =>
    rw [if_pos rfl, hjoin _ (by omega) (by omega)]
    congr 2
    simp
    omega
  | false =>
    rw [if_neg Bool.false_ne_true, hjoin _ (by omega) (by omega)]
    congr 2
    simp
    omega

/-- An issued amount is read back from its word. -/
theorem readIssued_issuedWord
    (h : (kMinValue ≤ a.value ∧ a.value ≤ kMaxValue ∧ kMinOffset ≤ a.offset ∧ a.offset ≤ kMaxOffset) ∨
      (a.value = 0 ∧ a.offset = -100 ∧ a.isNegative = false)) :
    readIssued scale mode a.asset a.issuedWord = .ok a ∧ 2 ^ 63 ≤ a.issuedWord.toNat := by
  rcases h with ⟨hmin, hmax, hlow, hhigh⟩ | ⟨hvalue, hoffset, hneg⟩
  · have hword := toNat_issuedWord hmin hmax hlow hhigh
    have hmin' : 1000000000000000 ≤ a.value.toNat := hmin
    have hmax' : a.value.toNat ≤ 9999999999999999 := hmax
    have hlow' : -96 ≤ a.offset := hlow
    have hhigh' : a.offset ≤ 80 := hhigh
    have hsmall : (if a.isNegative then (0 : Int) else 256) = 0 ∨ (if a.isNegative then (0 : Int) else 256) = 256 := by
      cases a.isNegative <;> simp
    have hlo : a.issuedWord &&& ~~~((1023 : UInt64) <<< 54) = a.value := by
      apply UInt64.toNat_inj.1
      rw [toNat_low54, hword]
      omega
    have hhi : (a.issuedWord >>> 54).toNat = (a.offset + 97 + 512 + (if a.isNegative then 0 else 256)).toNat := by
      rw [toNat_high10, hword]
      omega
    have hne : a.value ≠ 0 := by
      intro h
      rw [h] at hmin'
      exact absurd hmin' (by decide)
    have h255 : (a.offset + 97 + 512 + (if a.isNegative then 0 else 256)).toNat &&& 255 = (a.offset + 97).toNat := by
      rw [show (255 : Nat) = 2 ^ 8 - 1 from rfl, Nat.and_two_pow_sub_one_eq_mod]
      omega
    have h256 : decide ((a.offset + 97 + 512 + (if a.isNegative then 0 else 256)).toNat &&& 256 = 0) =
        a.isNegative := by
      rw [show (256 : Nat) = 2 ^ 8 from rfl, Nat.and_two_pow, Nat.testBit_eq_decide_div_mod_eq]
      cases a.isNegative with
      | true =>
        have hbit : ¬ (a.offset + 97 + 512 + 0).toNat / 2 ^ 8 % 2 = 1 := by omega
        simpa using hbit
      | false =>
        have hbit : (a.offset + 97 + 512 + 256).toNat / 2 ^ 8 % 2 = 1 := by omega
        simpa using hbit
    refine ⟨?_, by omega⟩
    unfold readIssued
    rw [hlo, hhi]
    rw [if_pos hne, h255, h256]
    have hoff : (((a.offset + 97).toNat : Nat) : Int) - 97 = a.offset := by omega
    rw [hoff, if_neg (by
      rintro (h | h | h | h)
      · exact absurd h (UInt64.not_lt.2 hmin)
      · exact absurd h (UInt64.not_lt.2 hmax)
      · exact absurd h (Int.not_lt.2 hlow)
      · exact absurd h (Int.not_lt.2 hhigh))]
    exact canonicalize_of_normal scale mode hmin hmax hlow hhigh
  · obtain ⟨asset, value, offset, isNegative⟩ := a
    subst hvalue hoffset hneg
    have hword : issuedWord ⟨asset, 0, -100, false⟩ = kIssuedCurrency := if_pos rfl
    have hlo : kIssuedCurrency &&& ~~~((1023 : UInt64) <<< 54) = 0 := by decide
    have hhi : (kIssuedCurrency >>> 54).toNat = 512 := by decide
    rw [hword]
    refine ⟨?_, by decide⟩
    unfold readIssued
    rw [hlo, hhi]
    rw [if_neg (not_not.2 rfl), if_neg (not_not.2 rfl), canonicalize_zero]

/-- A canonical amount is read back. -/
theorem run_ofSerialIter_add (h : a.Canonical) (t : Bytes) :
    (ofSerialIter scale mode).run (a.add ++ t) = .ok (a, t) := by
  obtain ⟨asset, value, offset, isNegative⟩ := a
  unfold ofSerialIter
  simp only [run_bind_eq_ok, run_get64_eq_ok]
  cases asset with
  | mptIssue mptID =>
    have hoffset : offset = 0 := h
    subst hoffset
    have hv := value.toNat_lt
    -- the eight bytes that are read first, and the last byte of the value
    obtain ⟨word, hword⟩ : ∃ word : UInt64, word.toNat =
        (if isNegative then 1 else 3) * 2 ^ 61 + value.toNat / 256 := by
      refine ⟨UInt64.ofNat ((if isNegative then 1 else 3) * 2 ^ 61 + value.toNat / 256), ?_⟩
      exact UInt64.toNat_ofNat_of_lt' (show _ < 2 ^ 64 by cases isNegative <;> simp <;> omega)
    have hlow := UInt8.toNat_ofNat_of_lt' (show value.toNat % 256 < 256 by omega)
    have hbits : word.toNat < 2 ^ 63 ∧ word.toNat / 2 ^ 61 % 2 = 1 ∧ word.toNat / 2 ^ 56 % 32 = 0 := by
      rw [hword]
      cases isNegative <;> simp <;> omega
    have hjoin : (word <<< 8) ||| (UInt8.ofNat (value.toNat % 256)).toUInt64 = value := by
      apply UInt64.toNat_inj.1
      rw [toNat_shiftIn, hlow, hword]
      cases isNegative <;> simp <;> omega
    have hissued : word &&& kIssuedCurrency = 0 := (and_kIssuedCurrency word).2 (by omega)
    have hmpt : word &&& kMpToken ≠ 0 := by
      rw [ne_eq, and_kMpToken]
      omega
    have hsign : decide (word &&& kPositive = 0) = isNegative := by
      simp only [and_kPositive]
      cases isNegative with
      | true => simp at hword ⊢; omega
      | false => simp at hword ⊢; omega
    have hadd : add ⟨.mptIssue mptID, (word <<< 8) ||| (UInt8.ofNat (value.toNat % 256)).toUInt64, 0, _⟩ = _ :=
      add_of_readMpt hbits.1 hbits.2.1
    rw [hjoin, hsign] at hadd
    have hfirst : word.toNat / 2 ^ 61 * 32 = word.toNat / 2 ^ 56 := by omega
    refine ⟨word, add8 (UInt8.ofNat (value.toNat % 256)) ++ (addBitString mptID ++ t), ?_, ?_⟩
    · rw [hadd, hfirst, add64_cons]
      simp
    · rw [if_pos hissued, if_pos hmpt]
      simp only [run_bind_eq_ok, run_get8_eq_ok, run_getBitString_eq_ok, run_pure_eq_ok]
      exact ⟨_, _, rfl, mptID, t, rfl, by rw [hjoin, hsign]⟩
  | issue currency account =>
    unfold Canonical at h
    dsimp only at h
    by_cases hnative : currency = 0
    · rw [if_pos hnative] at h
      obtain ⟨rfl, hvalue, rfl, hzero⟩ := h
      subst hnative
      have hbits := xrpWord_bits isNegative hvalue
      refine ⟨xrpWord value isNegative, t, ?_, ?_⟩
      · unfold add xrpWord
        cases isNegative <;> rfl
      · rw [if_pos hbits.1, if_neg (not_not.2 hbits.2), run_lift_eq_ok]
        exact ⟨readXrp_xrpWord hvalue hzero, rfl⟩
    · rw [if_neg hnative] at h
      obtain ⟨haccount, h⟩ := h
      obtain ⟨hread, hbig⟩ := readIssued_issuedWord scale mode
          (a := ⟨.issue currency account, value, offset, isNegative⟩) h
      have hissued : ¬ (issuedWord ⟨.issue currency account, value, offset, isNegative⟩ &&& kIssuedCurrency = 0) := by
        have := (issuedWord ⟨.issue currency account, value, offset, isNegative⟩).toNat_lt
        rw [and_kIssuedCurrency]
        omega
      have hnonative : ¬ (Asset.issue currency account).native = true := fun h => hnative (BaseUInt.isZero_iff.1 h)
      refine ⟨issuedWord ⟨.issue currency account, value, offset, isNegative⟩,
        addBitString currency ++ (addBitString account ++ t), ?_, ?_⟩
      · unfold add
        dsimp only
        rw [if_neg hnonative]
        simp
      · rw [if_neg hissued]
        simp only [run_bind_eq_ok, run_getBitString_eq_ok]
        refine ⟨currency, _, rfl, ?_⟩
        rw [if_neg (fun h => hnative (BaseUInt.isZero_iff.1 h))]
        simp only [run_bind_eq_ok, run_getBitString_eq_ok]
        refine ⟨account, t, rfl, ?_⟩
        rw [if_neg (fun h => haccount (BaseUInt.isZero_iff.1 h)), run_lift_eq_ok]
        exact ⟨hread, rfl⟩

/-- What is read is canonical. -/
theorem canonical_of_ofSerialIter {s : Bytes} (h : (ofSerialIter scale mode).run s = .ok (a, t)) :
    a.Canonical ∧ s.length = a.add.length + t.length := by
  obtain ⟨hcanon, used, rfl, hlen, -⟩ := add_of_ofSerialIter h
  exact ⟨hcanon, by rw [List.length_append, hlen]⟩

end Read

end STAmount

end Rippled.Protocol
