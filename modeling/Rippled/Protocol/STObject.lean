import Rippled.Protocol.STValue

/-!
# Objects and arrays of fields

`STObject` as it is read from a `SerialIter` (`set`) and written to a `Serializer` (`add`), with the arrays and inner
objects in it. Fields are written in the order of their codes, whatever their order in the object, and the fields that
are not present or not binary are left out. Each inner object and array ends with a mark of its own, that may be missing
where the input ends. An inner object that has a template is checked against it and brought to the template's order.

The depth that the code counts up to ten is a level here that goes down: a field at depth `d` is read at level `11 - d`.
-/

namespace Rippled.Protocol

open Lib Lib.Reader Basics Serializer SerialIter

/-- What a field holds (`STVar`). The elements of an array are objects with a name. -/
inductive STBase where
  | notPresent
  | value (v : STValue)
  | object (fields : List (SField × STBase))
  | array (elements : List (SField × List (SField × STBase)))
  deriving Inhabited

/-- The fields of an object, in the order they were added. -/
abbrev STObject := List (SField × STBase)

abbrev STArray := List (SField × STObject)

namespace STBase

/-- `getSType() != STI_NOTPRESENT`. -/
def isPresent : STBase → Bool
  | notPresent => false
  | _ => true

def isDefault : STBase → Bool
  | notPresent => true
  | value v => v.isDefault
  | object v => v.isEmpty
  | array v => v.isEmpty

/-- The mark after an inner object or an array. -/
def endMark : STBase → Bytes
  | object _ => addFieldID SerializedTypeID.object.code 1
  | array _ => addFieldID SerializedTypeID.array.code 1
  | _ => []

end STBase

/-! ## Writing -/

/-- The fields that `getSortedFields` chooses, of all fields. -/
def included (f : SField × STBase) : Bool := f.2.isPresent && f.1.isBinary

/-- The order of `getSortedFields`. -/
def sortFields {α : Type} (fields : List (SField × α)) : List (SField × α) :=
  fields.insertionSort fun a b => a.1.code ≤ b.1.code

/-- `STBase::addFieldID`. -/
def SField.addFieldID (f : SField) : Bytes := Serializer.addFieldID f.fieldType.code f.fieldValue.val

def joinFields {α : Type} : List (α × Except Exception Bytes) → Except Exception Bytes
  | [] => .ok []
  | field :: fields => do return (← field.2) ++ (← joinFields fields)

/-- A field in an object, with its id and its mark. -/
def frame (name : SField) (content : Except Exception Bytes) (mark : Bytes) : Except Exception Bytes := do
  return name.addFieldID ++ (← content) ++ mark

mutual
/-- `add`. No field that is not present is written. -/
def STBase.add : STBase → Except Exception Bytes
  | .notPresent => .ok []
  | .value v => v.add
  | .object v => joinFields (sortFields (addFields v))
  | .array v => joinFields (addElements v)

/-- The fields of an object that are written, in the order they were added. -/
def addFields : List (SField × STBase) → List (SField × Except Exception Bytes)
  | [] => []
  | (name, x) :: v =>
    if included (name, x) then (name, frame name x.add x.endMark) :: addFields v else addFields v

def addElements : List (SField × List (SField × STBase)) → List (SField × Except Exception Bytes)
  | [] => []
  | (name, fields) :: v =>
    (name, frame name (joinFields (sortFields (addFields fields))) (STBase.object fields).endMark) :: addElements v
end

def STObject.add (v : STObject) : Except Exception Bytes := joinFields (sortFields (addFields v))

/-! ## Templates -/

namespace STObject

variable (formats : Formats)

/-- `throwFieldErr`. -/
def fieldErr (field description : String) : Exception := .runtimeError ("Field '" ++ field ++ "' " ++ description)

/-- The first loop of `applyTemplate`: the fields in the order of the template, and those that are left over. -/
def applyElements : List SOElement → STObject → Except Exception (STObject × STObject)
  | [], rest => .ok ([], rest)
  | e :: elements, rest =>
    match rest.find? (·.1 = e.sField) with
    | some f =>
      if e.style = .soeDefault ∧ f.2.isDefault then
        .error (fieldErr (formats.getName e.sField) "may not be explicitly set to default.")
      else do
        let (v, left) ← applyElements elements (rest.eraseP (·.1 = e.sField))
        return (f :: v, left)
    | none =>
      if e.style = .soeRequired then .error (fieldErr (formats.getName e.sField) "is required but missing.")
      else do
        let (v, left) ← applyElements elements rest
        return ((e.sField, .notPresent) :: v, left)

def applyTemplate (type : SOTemplate) (v : STObject) : Except Exception STObject := do
  let (v, left) ← applyElements formats type.elements v
  match left.find? fun f => !f.1.isDiscardable with
  | some f => .error (fieldErr (formats.getName f.1) "found in disallowed location.")
  | none => .ok v

def applyTemplateFromSField (sField : SField) (v : STObject) : Except Exception STObject :=
  match formats.findSOTemplateBySField sField with
  | some elements => applyTemplate formats elements v
  | none => .ok v

end STObject

/-- The template for a field that was just read, when it is an object. -/
def STBase.applyTemplateFromSField (formats : Formats) (fn : SField) : STBase → Except Exception STBase
  | .object v => STBase.object <$> STObject.applyTemplateFromSField formats fn v
  | x => .ok x

/-! ## Reading -/

section Read
variable (formats : Formats) (scale : MantissaScale) (mode : RoundingMode)

def SerialIter.empty : SerialIter Bool := fun s => .ok (s.isEmpty, s)

/-- The body of the loop of `set` from where the field is known. -/
def readField (readVar : SField → SerialIter STBase) (fn : SField) : SerialIter STBase := do
  let x ← readVar fn
  SerialIter.lift (x.applyTemplateFromSField formats fn)

/-- The loop of `set`, with whether it ended at a mark. Each pass takes a byte at least. -/
def readFields (readVar : SField → SerialIter STBase) (requireCanonicalOrder : Bool) :
    Nat → Option Nat → STObject → SerialIter (Bool × STObject)
  | 0, _, v => do
    if ← SerialIter.empty then return (false, v) else throw .outOfFuel
  | fuel + 1, prevFieldCode, v => do
    if ← SerialIter.empty then return (false, v)
    else do
      let (type, field) ← getFieldID
      if type = SerializedTypeID.object.code ∧ field = 1 then return (true, v)
      else if type = SerializedTypeID.array.code ∧ field = 1 then
        throw (.runtimeError "Illegal end-of-array marker in object")
      else
        match formats.getField type field with
        | none => throw (.runtimeError "Unknown field")
        | some fn =>
          if requireCanonicalOrder && prevFieldCode.any (fn.code ≤ ·) then
            throw (.runtimeError "Fields in object are not in canonical order")
          else do
            let x ← readField formats readVar fn
            readFields readVar requireCanonicalOrder fuel (some fn.code) (v ++ [(fn, x)])

/-- `adjacent_find` on the names of the sorted fields. -/
def hasDuplicate (v : STObject) : Bool :=
  let names := (sortFields (v.filter included)).map (·.1)
  (names.zip names.tail).any fun p => p.1 = p.2

/-- `STObject::set`, where `readVar` reads the fields. -/
def setWith (readVar : SField → SerialIter STBase) (requireCanonicalOrder : Bool) : SerialIter (Bool × STObject) := do
  let (reachedEndOfObject, v) ← (fun s => (readFields formats readVar requireCanonicalOrder s.length none []).run s)
  if hasDuplicate v then throw (.runtimeError "Duplicate field detected")
  else return (reachedEndOfObject, v)

/-- The loop of the constructor of `STArray`, where `readObject` reads the elements. -/
def readElements (readObject : SerialIter STObject) : Nat → STArray → SerialIter STArray
  | 0, v => do
    if ← SerialIter.empty then return v else throw .outOfFuel
  | fuel + 1, v => do
    if ← SerialIter.empty then return v
    else do
      let (type, field) ← getFieldID
      if type = SerializedTypeID.array.code ∧ field = 1 then return v
      else if type = SerializedTypeID.object.code ∧ field = 1 then throw (.runtimeError "Illegal terminator in array")
      else
        match formats.getField type field with
        | none => throw (.runtimeError "Unknown field")
        | some fn =>
          if fn.fieldType ≠ .object then throw (.runtimeError "Non-object in array")
          else do
            let object ← readObject
            let object ← SerialIter.lift (STObject.applyTemplateFromSField formats fn object)
            readElements readObject fuel (v ++ [(fn, object)])

def readArray (readObject : SerialIter STObject) : SerialIter STArray := fun s =>
  (readElements formats readObject s.length []).run s

mutual
/-- The constructor of `STVar` from a `SerialIter`. -/
def readVar : Nat → SField → SerialIter STBase
  | 0, _ => throw (.runtimeError "Maximum nesting depth of STVar exceeded")
  | level + 1, name =>
    match name.fieldType with
    | .object => (fun r => .object r.2) <$> setWith formats (readVar level) false
    | .array => .array <$> readArray formats (readObject level)
    | type => .value <$> STValue.read scale mode type

/-- The constructor of `STObject` from a `SerialIter`. -/
def readObject : Nat → SerialIter STObject
  | 0 => throw (.runtimeError "Maximum nesting depth of STObject exceeded")
  | level + 1 => (·.2) <$> setWith formats (readVar level) false
end

/-- `STObject::set`, with whether the end of the object was reached before the end of the input. -/
def STObject.set (requireCanonicalOrder : Bool) : SerialIter (Bool × STObject) :=
  setWith formats (readVar formats scale mode 10) requireCanonicalOrder

end Read

/-! ## Equivalence -/

mutual
/-- The object with only the fields that are written, in the order they are written. -/
def STBase.norm : STBase → STBase
  | .notPresent => .notPresent
  | .value v => .value v
  | .object v => .object (sortFields (normFields v))
  | .array v => .array (normElements v)

def normFields : List (SField × STBase) → List (SField × STBase)
  | [] => []
  | (name, x) :: v => if included (name, x) then (name, x.norm) :: normFields v else normFields v

def normElements : List (SField × List (SField × STBase)) → List (SField × List (SField × STBase))
  | [] => []
  | (name, fields) :: v => (name, sortFields (normFields fields)) :: normElements v
end

/-- The fields of an object that are written, in the order they are written. Two objects with one normal form are
equivalent in the sense of the code, that compares them field by field and leaves out the same fields. -/
def STObject.norm (v : STObject) : STObject := sortFields (normFields v)

mutual
/-- The path elements with the empty type in the fields that are written. -/
def STBase.emptyElements : STBase → Nat
  | .notPresent => 0
  | .value v => v.emptyElements
  | .object v => (emptyInFields v).sum
  | .array v => (emptyInElements v).sum

def emptyInFields : List (SField × STBase) → List Nat
  | [] => []
  | (name, x) :: v => if included (name, x) then x.emptyElements :: emptyInFields v else emptyInFields v

def emptyInElements : List (SField × List (SField × STBase)) → List Nat
  | [] => []
  | (_, fields) :: v => (emptyInFields fields).sum :: emptyInElements v
end

def STObject.emptyElements (v : STObject) : Nat := (emptyInFields v).sum

end Rippled.Protocol
