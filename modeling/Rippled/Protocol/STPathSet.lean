import Rippled.Lib.Words
import Rippled.Protocol.Serializer

/-!
# The wire form of path sets

A path set is written path by path, with a byte between two paths and another at the end, and each path element as its
type and the components that the type names. Reading does not keep the type: it makes the element anew from the
components. An element that is read with a type that names only components that are zero has the empty type then, and
is written as the byte that ends the set (`Made`, `emptyElements`).
-/

namespace Rippled.Protocol

open Lib Lib.Reader Serializer SerialIter List

inductive PathAsset where
  | currency (currency : UInt160)
  | mpt (mptID : UInt192)
  deriving DecidableEq

/-- `PathAsset{}` holds the currency of XRP. -/
instance : Zero PathAsset := ⟨.currency 0⟩

namespace PathAsset

def isXRP : PathAsset → Bool
  | .currency c => c.isZero
  | .mpt _ => false

def getCurrency : PathAsset → Except Exception UInt160
  | .currency c => .ok c
  | .mpt _ => .error (.runtimeError "PathAsset doesn't hold requested asset.")

def getMPTID : PathAsset → Except Exception UInt192
  | .mpt mptID => .ok mptID
  | .currency _ => .error (.runtimeError "PathAsset doesn't hold requested asset.")

def bytes : PathAsset → Bytes
  | .currency c => addBitString c
  | .mpt mptID => addBitString mptID

end PathAsset

/-- `STPathElement`, without what it derives from these members. -/
structure STPathElement where
  type : UInt32
  accountID : UInt160
  assetID : PathAsset
  issuerID : UInt160
  deriving DecidableEq

namespace STPathElement

def typeNone : UInt32 := 0x00
def typeAccount : UInt32 := 0x01
def typeCurrency : UInt32 := 0x10
def typeIssuer : UInt32 := 0x20
def typeMpt : UInt32 := 0x40
def typeBoundary : UInt32 := 0xFF
def typeAll : UInt32 := typeAccount ||| typeCurrency ||| typeIssuer ||| typeMpt

def assetType : PathAsset → UInt32
  | .currency _ => typeCurrency
  | .mpt _ => typeMpt

/-- The constructor from the components, that finds the type. -/
def make (account : UInt160) (asset : PathAsset) (issuer : UInt160) (forceAsset : Bool) : STPathElement where
  type :=
    (if !account.isZero then typeAccount else 0) |||
      (if forceAsset || !asset.isXRP then assetType asset else 0) ||| (if !issuer.isZero then typeIssuer else 0)
  accountID := account
  assetID := asset
  issuerID := issuer

def isType (type flag : UInt32) : Bool := type &&& flag != 0

/-- The bytes of an element in a path set. -/
def add (e : STPathElement) : Except Exception Bytes := do
  let account := if isType e.type typeAccount then addBitString e.accountID else []
  let mptID ← (if isType e.type typeMpt then addBitString <$> e.assetID.getMPTID else pure [])
  let currency ← (if isType e.type typeCurrency then addBitString <$> e.assetID.getCurrency else pure [])
  let issuer := if isType e.type typeIssuer then addBitString e.issuerID else []
  return add8 e.type.toUInt8 ++ account ++ mptID ++ currency ++ issuer

/-- The element after its type. -/
def read (iType : UInt32) : SerialIter STPathElement := do
  let account ← (if isType iType typeAccount then getBitString 20 else pure 0)
  if isType iType typeCurrency && isType iType typeMpt then throw (.runtimeError "bad path element: MPT and Currency")
  else do
    let asset ← (if isType iType typeCurrency then PathAsset.currency <$> getBitString 20 else pure 0)
    let asset ← (if isType iType typeMpt then PathAsset.mpt <$> getBitString 24 else pure asset)
    let issuer ← (if isType iType typeIssuer then getBitString 20 else pure 0)
    return make account asset issuer (isType iType typeCurrency || isType iType typeMpt)

end STPathElement

abbrev STPath := List STPathElement
abbrev STPathSet := List STPath

namespace STPathSet

open STPathElement

def addPath (path : STPath) : Except Exception Bytes := do return (← path.mapM STPathElement.add).flatten

def addPaths : Bool → STPathSet → Except Exception Bytes
  | _, [] => return []
  | first, path :: paths => do
    let boundary := if !first then add8 typeBoundary.toUInt8 else []
    return boundary ++ (← addPath path) ++ (← addPaths false paths)

def add (value : STPathSet) : Except Exception Bytes := do return (← addPaths true value) ++ add8 typeNone.toUInt8

/-- The loop of the constructor from a `SerialIter`, with the paths that are complete and the one that is not. -/
def readPaths : Nat → STPathSet → STPath → SerialIter STPathSet
  | 0, _, _ => throw .outOfFuel
  | fuel + 1, value, path => do
    let iType := (← get8).toUInt32
    if iType = typeNone ∨ iType = typeBoundary then
      if path.isEmpty then throw (.runtimeError "empty path")
      else if iType = typeNone then return value ++ [path]
      else readPaths fuel (value ++ [path]) []
    else if iType &&& ~~~typeAll ≠ 0 then throw (.runtimeError "bad path element")
    else do
      let element ← STPathElement.read iType
      readPaths fuel value (path ++ [element])

/-- The constructor from a `SerialIter`. Each pass of its loop takes a byte at least. -/
def ofSerialIter : SerialIter STPathSet := fun s => (readPaths (s.length + 1) [] []).run s

end STPathSet

/-! ## Elements -/

variable {e : STPathElement} {s t : Bytes} {n : Nat}

namespace STPathElement

/-- An element as the constructor from its components makes it. -/
def Made (e : STPathElement) : Prop := ∃ forceAsset, e = make e.accountID e.assetID e.issuerID forceAsset

/-- What a type tells, for the types that `make` gives. -/
theorem flags (account asset issuer : Bool) {assetFlag : UInt32} (h : assetFlag = typeCurrency ∨ assetFlag = typeMpt) :
    let type := (if account then typeAccount else 0) ||| (if asset then assetFlag else 0) |||
    (if issuer then typeIssuer else 0)
    isType type typeAccount = account ∧ isType type typeCurrency = (asset && assetFlag == typeCurrency) ∧
      isType type typeMpt = (asset && assetFlag == typeMpt) ∧ isType type typeIssuer = issuer ∧
      type.toUInt8.toUInt32 = type ∧ type &&& ~~~typeAll = 0 ∧ type ≠ typeBoundary ∧
      (type = 0 ↔ (account || asset || issuer) = false) := by
  rcases h with rfl | rfl <;> revert account asset issuer <;> decide

theorem isType_of_ne {iType : UInt32} (hne : iType ≠ typeNone) (hall : iType &&& ~~~typeAll = 0) :
    (isType iType typeAccount || isType iType typeCurrency || isType iType typeIssuer ||
      isType iType typeMpt) = true := by
  by_contra h
  simp only [isType, Bool.or_eq_true, not_or, bne_iff_ne, not_not] at h
  obtain ⟨⟨⟨h₁, h₂⟩, h₃⟩, h₄⟩ := h
  apply hne
  calc iType = iType &&& (typeAll ||| ~~~typeAll) := by simp [typeAll]
    _ = (iType &&& typeAll) ||| 0 := by rw [Words.and_or32, hall]
    _ = 0 := by rw [typeAll, Words.and_or32, Words.and_or32, Words.and_or32, h₁, h₂, h₃, h₄]; rfl

/-- The flag of an asset in the types that `make` gives. -/
def assetFlagged (asset : PathAsset) (forceAsset : Bool) : Bool := forceAsset || !asset.isXRP

/-- The components that the type of a made element names. -/
def components (account : UInt160) (asset : PathAsset) (issuer : UInt160) (forceAsset : Bool) : Bytes :=
  (if !account.isZero then account.bytes else []) ++ (if assetFlagged asset forceAsset then asset.bytes else []) ++
    (if !issuer.isZero then issuer.bytes else [])

def PathAsset.isCurrency : PathAsset → Bool
  | .currency _ => true
  | .mpt _ => false

variable (account : UInt160) (asset : PathAsset) (issuer : UInt160) (forceAsset : Bool)

theorem isType_make : let type := (make account asset issuer forceAsset).type
    isType type typeAccount = !account.isZero ∧
      isType type typeCurrency = (assetFlagged asset forceAsset && PathAsset.isCurrency asset) ∧
      isType type typeMpt = (assetFlagged asset forceAsset && !PathAsset.isCurrency asset) ∧
      isType type typeIssuer = !issuer.isZero ∧ type.toUInt8.toUInt32 = type ∧ type &&& ~~~typeAll = 0 ∧
      type ≠ typeBoundary ∧
        (type = 0 ↔ (!account.isZero || assetFlagged asset forceAsset || !issuer.isZero) = false) := by
  cases asset with
  | currency c => exact flags (!account.isZero) (assetFlagged (.currency c) forceAsset) (!issuer.isZero) (.inl rfl)
  | mpt mptID => exact flags (!account.isZero) (assetFlagged (.mpt mptID) forceAsset) (!issuer.isZero) (.inr rfl)

theorem add_make :
    (make account asset issuer forceAsset).add =
      .ok ((make account asset issuer forceAsset).type.toUInt8 :: components account asset issuer forceAsset) := by
  obtain ⟨hA, hC, hM, hI, -⟩ := isType_make account asset issuer forceAsset
  unfold add components
  rw [hA, hC, hM, hI]
  cases assetFlagged asset forceAsset with
  | false => simp [make, add8, addBitString, pure, Except.pure, bind, Except.bind]
  | true =>
    cases asset with
    | currency c =>
      simp [make, PathAsset.isCurrency, PathAsset.getCurrency, PathAsset.bytes, add8, addBitString, pure,
        Except.pure, bind, Except.bind]
    | mpt mptID =>
      simp [make, PathAsset.isCurrency, PathAsset.getMPTID, PathAsset.bytes, add8, addBitString, pure,
        Except.pure, bind, Except.bind]

theorem run_component (v : BaseUInt n) (t : Bytes) :
    (if !v.isZero then getBitString n else pure 0 : SerialIter (BaseUInt n)).run
    ((if !v.isZero then v.bytes else []) ++ t) =
      .ok (v, t) := by
  cases hv : v.isZero with
  | false => exact run_getBitString_eq_ok.2 rfl
  | true =>
    rw [BaseUInt.isZero_iff.1 hv]
    rfl

theorem make_assetFlagged :
    make account asset issuer (assetFlagged asset forceAsset) = make account asset issuer forceAsset := by
  simp only [make, assetFlagged, Bool.or_assoc, Bool.or_self]

/-- The components of an element are read back. -/
theorem run_read_make (t : Bytes) :
    (read (make account asset issuer forceAsset).type).run (components account asset issuer forceAsset ++ t) =
      .ok (make account asset issuer forceAsset, t) := by
  obtain ⟨hA, hC, hM, hI, -⟩ := isType_make account asset issuer forceAsset
  have hsame := make_assetFlagged account asset issuer forceAsset
  unfold read components
  rw [hA, hC, hM, hI, append_assoc, append_assoc]
  refine run_bind_eq_ok.2 ⟨account, _, run_component account _, ?_⟩
  cases hflag : assetFlagged asset forceAsset with
  | false =>
    -- an asset without a flag is the currency of XRP
    obtain rfl : asset = 0 := by
      cases asset with
      | currency c =>
        have hc : (!c.isZero) = false := (Bool.or_eq_false_iff.1 hflag).2
        have hzero : c = 0 := BaseUInt.isZero_iff.1 (by simpa using hc)
        rw [hzero]
        rfl
      | mpt mptID =>
        have hc : (!false) = false := (Bool.or_eq_false_iff.1 hflag).2
        cases hc
    rw [← hsame, hflag]
    refine run_bind_eq_ok.2 ⟨0, _, rfl, run_bind_eq_ok.2 ⟨0, _, rfl, ?_⟩⟩
    exact run_bind_eq_ok.2 ⟨issuer, t, run_component issuer t, rfl⟩
  | true =>
    rw [← hsame, hflag]
    cases asset with
    | currency c =>
      refine run_bind_eq_ok.2 ⟨.currency c, _, run_map_eq_ok.2 ⟨c, _, run_getBitString_eq_ok.2 rfl, rfl⟩,
        run_bind_eq_ok.2 ⟨.currency c, _, rfl, ?_⟩⟩
      exact run_bind_eq_ok.2 ⟨issuer, t, run_component issuer t, rfl⟩
    | mpt mptID =>
      refine run_bind_eq_ok.2 ⟨0, _, rfl,
        run_bind_eq_ok.2 ⟨.mpt mptID, _, run_map_eq_ok.2 ⟨mptID, _, run_getBitString_eq_ok.2 rfl, rfl⟩, ?_⟩⟩
      exact run_bind_eq_ok.2 ⟨issuer, t, run_component issuer t, rfl⟩

/-- Whether an element has the empty type, as a number. -/
def emptyType (e : STPathElement) : Nat := if e.type = typeNone then 1 else 0

/-- The bytes of an element, for one that can be written. -/
def bytes (e : STPathElement) : Bytes := e.add.toOption.getD []

theorem Made.add_eq (h : e.Made) : e.add = .ok e.bytes := by
  obtain ⟨forceAsset, h⟩ := h
  unfold bytes
  rw [h, add_make]
  rfl

theorem length_bytes_make :
    (make account asset issuer forceAsset).bytes.length =
      1 + (if !account.isZero then 20 else 0) + (if assetFlagged asset forceAsset then asset.bytes.length else 0) +
        (if !issuer.isZero then 20 else 0) := by
  unfold bytes
  rw [add_make]
  have ha := account.length_bytes
  have hi := issuer.length_bytes
  simp only [Except.toOption, Option.getD_some, length_cons, components, length_append]
  split_ifs <;> simp_all <;> omega

theorem run_component_eq_ok {flag : Bool} {v : BaseUInt n}
    (h : (if flag then getBitString n else pure 0 : SerialIter (BaseUInt n)).run s = .ok (v, t)) :
    s.length = (if flag then n else 0) + t.length ∧ (flag = false → v.isZero = true) := by
  cases flag with
  | false =>
    cases run_pure_eq_ok.1 h
    exact ⟨by simp, fun _ => BaseUInt.isZero_iff.2 rfl⟩
  | true =>
    obtain rfl := run_getBitString_eq_ok.1 h
    exact ⟨by simp [addBitString, v.length_bytes], (nomatch ·)⟩

theorem run_asset_eq_ok {currency mpt : Bool} (hboth : (currency && mpt) = false) {asset : PathAsset}
    (h : (do
      let asset ← (if currency then PathAsset.currency <$> getBitString 20 else pure 0)
      if mpt then PathAsset.mpt <$> getBitString 24 else pure asset : SerialIter PathAsset).run s = .ok (asset, t)) :
    s.length = (if assetFlagged asset (currency || mpt) then asset.bytes.length else 0) + t.length ∧
      assetFlagged asset (currency || mpt) = (currency || mpt) := by
  obtain ⟨a₁, s₁, h₁, h₂⟩ := run_bind_eq_ok.1 h
  cases currency with
  | true =>
    obtain rfl : mpt = false := hboth
    obtain ⟨c, s₂, hc, heq⟩ := run_map_eq_ok.1 h₁
    cases heq
    cases run_pure_eq_ok.1 h₂
    obtain rfl := run_getBitString_eq_ok.1 hc
    exact ⟨by simp [assetFlagged, PathAsset.bytes], rfl⟩
  | false =>
    cases run_pure_eq_ok.1 h₁
    cases mpt with
    | true =>
      obtain ⟨c, s₂, hc, heq⟩ := run_map_eq_ok.1 h₂
      cases heq
      obtain rfl := run_getBitString_eq_ok.1 hc
      exact ⟨by simp [assetFlagged, PathAsset.bytes], rfl⟩
    | false =>
      cases run_pure_eq_ok.1 h₂
      have hflag : assetFlagged 0 false = false := by decide
      exact ⟨by rw [show (false || false) = false from rfl, hflag]; simp, hflag⟩

/-- An element that is read takes as many bytes as it is written with, and at least one component more when it has the
empty type. -/
theorem made_of_run_read {iType : UInt32} (hne : iType ≠ typeNone) (hall : iType &&& ~~~typeAll = 0)
    (h : (read iType).run s = .ok (e, t)) : e.Made ∧ e.bytes.length + 20 * e.emptyType + t.length ≤ 1 + s.length := by
  have hsome := isType_of_ne hne hall
  obtain ⟨account, s₁, haccount, h⟩ := run_bind_eq_ok.1 h
  by_cases hboth : (isType iType typeCurrency && isType iType typeMpt) = true
  · rw [if_pos hboth] at h
    exact absurd h run_throw_ne_ok
  · rw [if_neg hboth] at h
    obtain ⟨a₁, s₂, ha₁, h⟩ := run_bind_eq_ok.1 h
    obtain ⟨asset, s₃, hasset, h⟩ := run_bind_eq_ok.1 h
    obtain ⟨issuer, s₄, hissuer, h⟩ := run_bind_eq_ok.1 h
    cases run_pure_eq_ok.1 h
    refine ⟨⟨_, rfl⟩, ?_⟩
    obtain ⟨hlen₁, hzero₁⟩ := run_component_eq_ok haccount
    obtain ⟨hlen₂, hflag⟩ := run_asset_eq_ok (by simpa using hboth) (run_bind_eq_ok.2 ⟨a₁, s₂, ha₁, hasset⟩)
    obtain ⟨hlen₃, hzero₃⟩ := run_component_eq_ok hissuer
    have htype := (isType_make account asset issuer (isType iType typeCurrency || isType iType typeMpt)).2.2.2.2.2.2.2
    rw [length_bytes_make]
    unfold emptyType
    rw [show typeNone = 0 from rfl]
    have haccount' : (if !account.isZero then 20 else 0) ≤ if isType iType typeAccount then 20 else 0 := by
      cases hA : isType iType typeAccount with
      | false => simp [hzero₁ hA]
      | true =>
        rw [if_pos rfl]
        split_ifs <;> omega
    have hissuer' : (if !issuer.isZero then 20 else 0) ≤ if isType iType typeIssuer then 20 else 0 := by
      cases hI : isType iType typeIssuer with
      | false => simp [hzero₃ hI]
      | true =>
        rw [if_pos rfl]
        split_ifs <;> omega
    by_cases hempty : (make account asset issuer (isType iType typeCurrency || isType iType typeMpt)).type = 0
    · -- no component is left, but one was read
      rw [if_pos hempty]
      have hnone := htype.1 hempty
      simp only [Bool.or_eq_false_iff] at hnone
      rw [hflag] at hnone
      rw [hnone.1.1, hnone.2]
      have hcomponent : isType iType typeAccount = true ∨ isType iType typeIssuer = true := by
        have := Bool.or_eq_false_iff.1 hnone.1.2
        simpa [this.1, this.2] using hsome
      rcases hcomponent with hc | hc
      · rw [if_pos hc] at hlen₁
        simp only [Bool.false_eq_true, if_false]
        omega
      · rw [if_pos hc] at hlen₃
        simp only [Bool.false_eq_true, if_false]
        omega
    · rw [if_neg hempty]
      omega

end STPathElement

/-! ## Sets -/

namespace STPathSet

open STPathElement

/-- The path sets that are read again as they were written. -/
def Canonical (value : STPathSet) : Prop :=
  value ≠ [] ∧ ∀ path ∈ value, path ≠ [] ∧ ∀ e ∈ path, e.Made ∧ e.type ≠ typeNone

def emptyElements (value : STPathSet) : Nat := (value.map fun path => (path.map emptyType).sum).sum

variable {path : STPath}

theorem addPath_of_made (h : ∀ e ∈ path, e.Made) : addPath path = .ok (path.flatMap STPathElement.bytes) := by
  have hmap : path.mapM STPathElement.add = .ok (path.map STPathElement.bytes) := by
    induction path with
    | nil => rfl
    | cons e path ih =>
      rw [mapM_cons, (h e (by simp)).add_eq, ih fun e he => h e (by simp [he])]
      rfl
  unfold addPath
  rw [hmap, flatMap_def]
  rfl

variable {bs : Bytes}

theorem addPaths_cons {paths : STPathSet} (first : Bool) (hpath : ∀ e ∈ path, e.Made)
    (h : addPaths false paths = .ok bs) :
    addPaths first (path :: paths) = .ok ((if !first then [0xFF] else []) ++
      path.flatMap STPathElement.bytes ++ bs) := by
  rw [addPaths, addPath_of_made hpath, h]
  rfl

variable {value : STPathSet}

/-- Elements that were made can be written. -/
theorem addPaths_ok (h : ∀ path ∈ value, ∀ e ∈ path, e.Made) (first : Bool) : ∃ bs, addPaths first value = .ok bs := by
  induction value generalizing first with
  | nil => exact ⟨[], rfl⟩
  | cons path paths ih =>
    obtain ⟨bs, hbs⟩ := ih (fun path hp => h path (by simp [hp])) false
    exact ⟨_, addPaths_cons first (h path (by simp)) hbs⟩

theorem run_readPaths_element (hmade : e.Made) (htype : e.type ≠ typeNone) (n : Nat) (value : STPathSet) (path : STPath)
    (s : Bytes) : (readPaths (n + 1) value path).run (e.bytes ++ s) = (readPaths n value (path ++ [e])).run s := by
  obtain ⟨forceAsset, he⟩ := hmade
  obtain ⟨-, -, -, -, hbyte, hall, hboundary, -⟩ := isType_make e.accountID e.assetID e.issuerID forceAsset
  have hbytes : e.bytes = e.type.toUInt8 :: components e.accountID e.assetID e.issuerID forceAsset := by
    unfold STPathElement.bytes
    rw [he, add_make]
    rfl
  rw [← he] at hbyte hall hboundary
  rw [hbytes, readPaths, cons_append, run_bind_of_ok (run_get8_cons _ _)]
  rw [hbyte, if_neg (by simp [htype, hboundary]), if_neg (by simp [hall])]
  have hread : (STPathElement.read e.type).run (components e.accountID e.assetID e.issuerID forceAsset ++ s) =
      .ok (e, s) := by
    have := run_read_make e.accountID e.assetID e.issuerID forceAsset s
    rwa [← he] at this
  rw [run_bind_of_ok hread]

/-- The loop reads the elements of a path. -/
theorem run_readPaths_elements {es : STPath} (h : ∀ e ∈ es, e.Made ∧ e.type ≠ typeNone) (n : Nat) (value : STPathSet)
    (path : STPath) (s : Bytes) :
    (readPaths (n + es.length) value path).run (es.flatMap STPathElement.bytes ++ s) =
      (readPaths n value (path ++ es)).run s := by
  induction es generalizing path with
  | nil => simp
  | cons e es ih =>
    obtain ⟨hmade, htype⟩ := h e (by simp)
    rw [flatMap_cons, append_assoc, length_cons, ← Nat.add_assoc, run_readPaths_element hmade htype,
      ih fun e he => h e (by simp [he])]
    simp

theorem one_le_length_bytes (h : e.Made) : 1 ≤ e.bytes.length := by
  obtain ⟨forceAsset, he⟩ := h
  rw [he, length_bytes_make]
  omega

theorem length_le_length_bytes (h : ∀ e ∈ path, e.Made) : path.length ≤ (path.flatMap STPathElement.bytes).length :=
  length_le_length_flatMap fun e he => one_le_length_bytes (h e he)

/-- The paths after the first, with a path that is complete but for its end. -/
theorem run_readPaths_paths {paths : STPathSet} (h : ∀ path ∈ paths, path ≠ [] ∧ ∀ e ∈ path, e.Made ∧ e.type ≠ typeNone)
    (hbs : addPaths false paths = .ok bs) (hn : bs.length < n) (value : STPathSet) (hpath : path ≠ []) (t : Bytes) :
    (readPaths n value path).run (bs ++ 0 :: t) = .ok (value ++ path :: paths, t) := by
  induction paths generalizing bs n value path with
  | nil =>
    cases hbs
    obtain ⟨n, rfl⟩ : ∃ n', n = n' + 1 := ⟨n - 1, by omega⟩
    rw [readPaths, nil_append, run_bind_of_ok (run_get8_cons _ _)]
    rw [if_pos (by decide), if_neg (by simpa using hpath), if_pos (by decide)]
    rfl
  | cons next paths ih =>
    obtain ⟨hnext, helements⟩ := h next (by simp)
    have hmade : ∀ e ∈ next, e.Made := fun e he => (helements e he).1
    have hpaths : ∀ path ∈ paths, ∀ e ∈ path, e.Made := fun path hp e he => ((h path (by simp [hp])).2 e he).1
    obtain ⟨bs', hbs'⟩ := addPaths_ok hpaths false
    rw [addPaths_cons false hmade hbs'] at hbs
    cases hbs
    obtain ⟨k, hk⟩ : ∃ k, n = k + next.length + 1 := ⟨n - next.length - 1, by
      have := length_le_length_bytes hmade
      simp only [Bool.not_false, if_true, length_append, length_cons, length_nil] at hn
      omega⟩
    have hroom : bs'.length < k := by
      have := length_le_length_bytes hmade
      simp only [Bool.not_false, if_true, length_append, length_cons, length_nil] at hn
      omega
    subst hk
    simp only [Bool.not_false, if_true, append_assoc, cons_append, nil_append]
    rw [readPaths, run_bind_of_ok (run_get8_cons _ _)]
    rw [if_pos (by decide), if_neg (by simpa using hpath), if_neg (by decide), run_readPaths_elements helements,
      nil_append, ih (fun path hp => h path (by simp [hp])) hbs' hroom _ hnext]
    simp

theorem add_ok (h : ∀ path ∈ value, ∀ e ∈ path, e.Made) : ∃ bs, add value = .ok bs := by
  obtain ⟨bs, hbs⟩ := addPaths_ok h true
  unfold add
  rw [hbs]
  exact ⟨_, rfl⟩

/-- A canonical path set is read back. -/
theorem run_ofSerialIter_add (h : value.Canonical) (hbs : add value = .ok bs) (t : Bytes) :
    ofSerialIter.run (bs ++ t) = .ok (value, t) := by
  obtain ⟨hne, hpaths⟩ := h
  obtain ⟨path, paths, rfl⟩ := exists_cons_of_ne_nil hne
  obtain ⟨hpath, helements⟩ := hpaths path (by simp)
  have hmade : ∀ e ∈ path, e.Made := fun e he => (helements e he).1
  have hrest : ∀ path ∈ paths, ∀ e ∈ path, e.Made := fun path hp e he => ((hpaths path (by simp [hp])).2 e he).1
  obtain ⟨bs', hbs'⟩ := addPaths_ok hrest false
  unfold add at hbs
  rw [addPaths_cons true hmade hbs'] at hbs
  cases hbs
  have hlen := length_le_length_bytes hmade
  have hrun : ∀ x, ofSerialIter.run x = (readPaths (x.length + 1) [] []).run x := fun _ => rfl
  rw [hrun]
  simp only [Bool.not_true, Bool.false_eq_true, if_false, nil_append, append_assoc, length_append]
  obtain ⟨k, hk⟩ := Nat.exists_eq_add_of_le' (show path.length ≤ (path.flatMap STPathElement.bytes).length +
      (bs'.length + ((add8 typeNone.toUInt8).length + t.length)) + 1 by omega)
  have hroom : bs'.length < k := by
    have : (add8 typeNone.toUInt8).length = 1 := rfl
    omega
  rw [hk, run_readPaths_elements helements, nil_append]
  exact run_readPaths_paths (fun path hp => hpaths path (by simp [hp])) hbs' hroom [] hpath t

/-! ## What is read -/

def pathCost (path : STPath) : Nat := (path.map fun e => e.bytes.length + 20 * e.emptyType).sum

/-- The bytes of a set, counting a lost component for each element with the empty type. -/
def cost (value : STPathSet) : Nat := (value.map fun path => 1 + pathCost path).sum

theorem length_flatMap_bytes (path : STPath) :
    (path.flatMap STPathElement.bytes).length + 20 * (path.map emptyType).sum = pathCost path := by
  unfold pathCost
  induction path with
  | nil => rfl
  | cons e path ih =>
    simp only [flatMap_cons, length_append, map_cons, sum_cons] at ih ⊢
    omega

theorem length_addPaths (h : ∀ path ∈ value, ∀ e ∈ path, e.Made) (hbs : addPaths false value = .ok bs) :
    bs.length + 20 * emptyElements value = cost value := by
  unfold emptyElements cost
  induction value generalizing bs with
  | nil =>
    cases hbs
    rfl
  | cons path paths ih =>
    have hpaths : ∀ path ∈ paths, ∀ e ∈ path, e.Made := fun path hp => h path (by simp [hp])
    obtain ⟨bs', hbs'⟩ := addPaths_ok hpaths false
    rw [addPaths_cons false (h path (by simp)) hbs'] at hbs
    cases hbs
    have := ih hpaths hbs'
    have := length_flatMap_bytes path
    simp only [Bool.not_false, if_true, length_append, length_cons, length_nil, map_cons, sum_cons]
    omega

/-- A path set costs its bytes, and 20 more for each element of no type. -/
theorem length_add (hne : value ≠ []) (h : ∀ path ∈ value, ∀ e ∈ path, e.Made) (hbs : add value = .ok bs) :
    bs.length + 20 * emptyElements value = cost value := by
  obtain ⟨path, paths, rfl⟩ := exists_cons_of_ne_nil hne
  have hpaths : ∀ path ∈ paths, ∀ e ∈ path, e.Made := fun path hp => h path (by simp [hp])
  obtain ⟨bs', hbs'⟩ := addPaths_ok hpaths false
  unfold add at hbs
  rw [addPaths_cons true (h path (by simp)) hbs'] at hbs
  cases hbs
  have hrest := length_addPaths hpaths hbs'
  have hfirst := length_flatMap_bytes path
  have hend : (add8 typeNone.toUInt8).length = 1 := rfl
  unfold emptyElements cost at hrest ⊢
  simp only [Bool.not_true, Bool.false_eq_true, if_false, nil_append, length_append, map_cons, sum_cons, hend]
  omega

/-- What reading leaves of the bytes it took: a set whose elements are made, and fewer bytes by a component at least for
each element with the empty type. -/
theorem made_of_readPaths {v : STPathSet} (hvalue : ∀ path ∈ value, path ≠ [] ∧ ∀ e ∈ path, e.Made)
    (hpath : ∀ e ∈ path, e.Made) (h : (readPaths n value path).run s = .ok (v, t)) :
    v ≠ [] ∧ (∀ path ∈ v, path ≠ [] ∧ ∀ e ∈ path, e.Made) ∧
      cost v + t.length ≤ s.length + cost value + pathCost path := by
  induction n generalizing value path s with
  | zero => exact absurd h run_throw_ne_ok
  | succ n ih =>
    rw [readPaths, run_bind_eq_ok] at h
    obtain ⟨b, s₁, hb, h⟩ := h
    obtain rfl := run_get8_eq_ok.1 hb
    have hlen : (add8 b ++ s₁).length = 1 + s₁.length := by simp [add8]; omega
    have hvalue' : path ≠ [] → ∀ p ∈ value ++ [path], p ≠ [] ∧ ∀ e ∈ p, e.Made := by
      intro hne p hp
      rcases mem_append.1 hp with hp | hp
      · exact hvalue p hp
      · obtain rfl := mem_singleton.1 hp
        exact ⟨hne, hpath⟩
    have hcost : cost (value ++ [path]) = cost value + (1 + pathCost path) := by simp [cost]
    by_cases hend : b.toUInt32 = typeNone ∨ b.toUInt32 = typeBoundary
    · rw [if_pos hend] at h
      by_cases hempty : path.isEmpty = true
      · rw [if_pos hempty] at h
        exact absurd h run_throw_ne_ok
      · have hne : path ≠ [] := by simpa using hempty
        rw [if_neg hempty] at h
        by_cases hnone : b.toUInt32 = typeNone
        · rw [if_pos hnone] at h
          cases run_pure_eq_ok.1 h
          exact ⟨by simp, hvalue' hne, by omega⟩
        · rw [if_neg hnone] at h
          obtain ⟨hv, hmade, hle⟩ := ih (hvalue' hne) (by simp) h
          exact ⟨hv, hmade, by rw [show pathCost [] = 0 from rfl] at hle; omega⟩
    · rw [if_neg hend] at h
      by_cases hbad : b.toUInt32 &&& ~~~typeAll ≠ 0
      · rw [if_pos hbad] at h
        exact absurd h run_throw_ne_ok
      · rw [if_neg hbad] at h
        obtain ⟨e, s₂, he, h⟩ := run_bind_eq_ok.1 h
        obtain ⟨hmade, hle⟩ := made_of_run_read (fun h => hend (.inl h)) (not_not.1 hbad) he
        have hpath' : ∀ e' ∈ path ++ [e], e'.Made := by
          intro e' he'
          rcases mem_append.1 he' with he' | he'
          · exact hpath e' he'
          · obtain rfl := mem_singleton.1 he'
            exact hmade
        obtain ⟨hv, hmade', hle'⟩ := ih hvalue hpath' h
        have hcost' : pathCost (path ++ [e]) = pathCost path + (e.bytes.length + 20 * e.emptyType) := by simp [pathCost]
        exact ⟨hv, hmade', by omega⟩

theorem emptyElements_eq_zero : emptyElements value = 0 ↔ ∀ path ∈ value, ∀ e ∈ path, e.type ≠ typeNone := by
  unfold emptyElements
  simp only [List.sum_eq_zero_iff_forall_eq_nat, mem_map, forall_exists_index, and_imp,
    forall_apply_eq_imp_iff₂, emptyType,
    ite_eq_right_iff, one_ne_zero, imp_false]

/-- A set that is read is canonical unless an element of it has the empty type. -/
theorem read_of_ofSerialIter {v : STPathSet} (h : ofSerialIter.run s = .ok (v, t)) :
    ∃ bs, add v = .ok bs ∧ bs.length + 20 * emptyElements v + t.length ≤ s.length ∧
      (emptyElements v = 0 → v.Canonical) := by
  have hrun : (readPaths (s.length + 1) [] []).run s = .ok (v, t) := h
  obtain ⟨hne, hmade, hle⟩ := made_of_readPaths (by simp) (by simp) hrun
  obtain ⟨bs, hbs⟩ := add_ok fun path hp => (hmade path hp).2
  have hlen := length_add hne (fun path hp => (hmade path hp).2) hbs
  rw [show cost [] = 0 from rfl, show pathCost [] = 0 from rfl] at hle
  refine ⟨bs, hbs, by omega, fun hzero => ⟨hne, fun path hp => ?_⟩⟩
  refine ⟨(hmade path hp).1, fun e he => ⟨(hmade path hp).2 e he, ?_⟩⟩
  exact emptyElements_eq_zero.1 hzero path hp e he

end STPathSet

end Rippled.Protocol
