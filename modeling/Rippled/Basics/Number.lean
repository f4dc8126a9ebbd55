import Rippled.Basics.Guard
/-!
# Number arithmetic

`doNormalize` and the compound assignment operators of `Number`, for every
mantissa scale. Each operator returns the new value of its left operand.
-/

namespace Rippled.Basics

open Lib Guard

namespace Number

/-- `operator-`. -/
def neg (x : Number) : Number := if x.mantissa = 0 then kZero else { x with negative := !x.negative }

def isnormal (range : MantissaRange) (x : Number) : Bool :=
  x = kZero ||
    decide (range.min ≤ x.mantissa ∧ x.mantissa ≤ range.max ∧ (x.mantissa ≤ kMaxRep ∨ x.mantissa % 10 = 0) ∧
      kMinExponent ≤ x.exponent ∧ x.exponent ≤ kMaxExponent)

/-- The mantissa of the external view, without its sign. -/
def mantissaExt (x : Number) : Nat := if x.mantissa > kMaxRep then x.mantissa / 10 else x.mantissa

/-! ## Normalization -/

/-- The loop of `doNormalize` that pads a small mantissa. -/
def growMantissa (w : Width) (minMantissa : Nat) (x : Number) : Run String Number :=
  Run.whileDo (fun x => decide (x.mantissa < minMantissa ∧ x.exponent > kMinExponent))
    (fun x => .ok { x with mantissa := w.wrap (x.mantissa * 10), exponent := x.exponent - 1 }) loopFuel x

/-- The loop of `doNormalize` that drops digits of a large mantissa. -/
def shrinkMantissa (w : Width) (maxMantissa : Nat) (s : Dropping) : Run String Dropping :=
  Run.whileDo (fun s => decide (s.mantissa > maxMantissa))
    (fun s =>
      if s.exponent ≥ kMaxExponent then Run.throw "Number::normalize 1"
      else .ok (doDropDigit w s))
    loopFuel s

def repLimit (fix : CuspRoundingFix) : Nat := if fix.enabled330OrLater then kMaxRepUp else kMaxRep

/-- `doNormalize` once the mantissa is at most `maxMantissa`. -/
def normalizeInRange (w : Width) (mode : RoundingMode) (negative : Bool) (s : Dropping) : Run String Number :=
  if s.exponent < kMinExponent ∨ s.mantissa < s.guard.minMantissa then .ok kZero
  else if s.mantissa > repLimit s.guard.cuspRoundingFix then
    if s.exponent ≥ kMaxExponent then Run.throw "Number::normalize 1.5"
    else
      let s := doDropDigit w s
      doRoundUp w mode "Number::normalize 2" loopFuel s.guard ⟨negative, s.mantissa, s.exponent⟩
  else doRoundUp w mode "Number::normalize 2" loopFuel s.guard ⟨negative, s.mantissa, s.exponent⟩

def doNormalize (w : Width) (mode : RoundingMode) (minMantissa maxMantissa : Nat) (fix : CuspRoundingFix)
    (dropped : Bool) (x : Number) : Run String Number :=
  if x.mantissa = 0 then .ok kZero
  else do
    let x ← growMantissa w minMantissa x
    let g : Guard :=
      { minMantissa := minMantissa, maxMantissa := maxMantissa, cuspRoundingFix := fix
        sbit := x.negative, xbit := dropped }
    let s ← shrinkMantissa w maxMantissa ⟨g, x.mantissa, x.exponent⟩
    normalizeInRange w mode x.negative s

/-! ## Addition -/

/-- The operand whose mantissa grows and the one whose mantissa shrinks. -/
structure Adjust where
  guard : Guard
  expandM : Nat
  expandE : Int
  shrinkM : Nat
  shrinkE : Int

def Adjust.shrinking (a : Adjust) : Dropping := ⟨a.guard, a.shrinkM, a.shrinkE⟩

def Adjust.shrunk (a : Adjust) (s : Dropping) : Adjust :=
  { a with guard := s.guard, shrinkM := s.mantissa, shrinkE := s.exponent }

/-- The first step of `adjust`: drop the trailing zeros of the operand that shrinks. -/
def dropZeros (a : Adjust) : Run String Adjust :=
  Run.whileDo (fun a : Adjust => decide (a.shrinkE < a.expandE ∧ a.shrinkM % 10 = 0))
    (fun a => .ok (a.shrunk (doDropDigit .u128 a.shrinking))) loopFuel a

/-- The second step of `adjust`: grow the other operand up to `upperLimit`. -/
def expand (upperLimit : Nat) (a : Adjust) : Run String Adjust :=
  Run.whileDo (fun a : Adjust => decide (a.shrinkE < a.expandE ∧ a.expandE > kMinExponent ∧ a.expandM < upperLimit))
    (fun a => .ok { a with expandM := Width.u128.wrap (a.expandM * 10), expandE := a.expandE - 1 }) loopFuel a

/-- The third step of `adjust`: drop digits until the exponents match. -/
def shrink (a : Adjust) : Run String Adjust :=
  if a.shrinkE < a.expandE then do
    let s ← doDropDigitWithTarget .u128 a.expandE a.shrinking
    .ok (a.shrunk s)
  else .ok a

/-- The lambda `adjust` of `operator+=`. -/
def adjust (upperLimit : Nat) (a : Adjust) : Run String Adjust :=
  if a.guard.cuspRoundingFix = .enabled330 then do
    let a ← dropZeros a
    let a ← expand upperLimit a
    shrink a
  else shrink a

/-- The loops of `operator+=` that pull digits back out of the guard after a
subtraction. `more` is the loop condition. -/
def popDigits (more : Guard → Nat → Bool) (s : Dropping) : Run String Dropping :=
  Run.whileDo (fun s => more s.guard s.mantissa)
    (fun s => .ok ⟨s.guard.pop.2,
      Width.u128.wrap (Width.u128.wrap (s.mantissa * 10) + Width.u128.size - s.guard.pop.1), s.exponent - 1⟩)
    loopFuel s

/-- The two operands of `operator+=` on one scale, with the digits dropped to
bring them there. -/
structure Aligned where
  guard : Guard
  xm : Nat
  xe : Int
  ym : Nat
  ye : Int

/-- The part of `operator+=` that brings the exponents into agreement. -/
def align (g : Guard) (x y : Number) : Run String Aligned :=
  let upperLimit := g.minMantissa * 1000
  if x.exponent < y.exponent then do
    let g := if x.negative then g.setNegative else g
    let a ← adjust upperLimit ⟨g, y.mantissa, y.exponent, x.mantissa, x.exponent⟩
    .ok ⟨a.guard, a.shrinkM, a.shrinkE, a.expandM, a.expandE⟩
  else if x.exponent > y.exponent then do
    let g := if y.negative then g.setNegative else g
    let a ← adjust upperLimit ⟨g, x.mantissa, x.exponent, y.mantissa, y.exponent⟩
    .ok ⟨a.guard, a.expandM, a.expandE, a.shrinkM, a.shrinkE⟩
  else
    let g :=
      if g.cuspRoundingFix = .enabled330 ∧
          ((x.mantissa < y.mantissa ∧ x.negative) ∨ (y.mantissa < x.mantissa ∧ y.negative)) then g.setNegative
      else g
    .ok ⟨g, x.mantissa, x.exponent, y.mantissa, y.exponent⟩

/-- The part of `operator+=` that combines the aligned operands: the guard and
the value to normalize. -/
def combine (mode : RoundingMode) (xn yn : Bool) (a : Aligned) : Run String (Guard × Number) :=
  let g := a.guard
  let fix := g.cuspRoundingFix
  if xn = yn then
    let xm := Width.u128.wrap (a.xm + a.ym)
    if fix.enabled330OrLater then .ok (g, ⟨xn, xm, a.xe⟩)
    else do
      let s := if xm > g.maxMantissa ∨ xm > repLimit fix then doDropDigit .u128 ⟨g, xm, a.xe⟩ else ⟨g, xm, a.xe⟩
      let x ← doRoundUp .u128 mode "Number::addition overflow" loopFuel s.guard ⟨xn, s.mantissa, s.exponent⟩
      .ok (s.guard, x)
  else
    let x : Number := if a.xm > a.ym then ⟨xn, a.xm - a.ym, a.xe⟩ else ⟨yn, a.ym - a.xm, a.ye⟩
    let more : Guard → Nat → Bool :=
      if fix.enabled330OrLater then fun g xm => decide (xm < g.minMantissa * 1000) && !g.empty
      else fun g xm => decide (xm < g.minMantissa ∧ Width.u128.wrap (xm * 10) ≤ repLimit fix)
    do
      let s ← popDigits more ⟨g, x.mantissa, x.exponent⟩
      .ok (s.guard, s.guard.doRoundDown .u128 mode ⟨x.negative, s.mantissa, s.exponent⟩)

/-- `operator+=`. -/
def plusAssign (range : MantissaRange) (mode : RoundingMode) (x y : Number) : Run String Number :=
  if y = kZero then .ok x
  else if x = kZero then .ok y
  else if x = y.neg then .ok kZero
  else do
    let a ← align (Guard.ofRange range) x y
    let (g, z) ← combine mode x.negative y.negative a
    doNormalize .u128 mode range.min range.max range.cuspRoundingFix
      (range.cuspRoundingFix = .enabled330 && !g.empty) z

/-! ## Multiplication -/

/-- The loop of `operator*=` that drops digits of the product. -/
def shrinkProduct (maxMantissa limit : Nat) (s : Dropping) : Run String Dropping :=
  Run.whileDo (fun s => decide (s.mantissa > maxMantissa ∨ s.mantissa > limit))
    (fun s => .ok (doDropDigit .u128 s)) loopFuel s

/-- `operator*=`. -/
def timesAssign (range : MantissaRange) (mode : RoundingMode) (x y : Number) : Run String Number :=
  if x = kZero then .ok x
  else if y = kZero then .ok y
  else do
    let zm := Width.u128.wrap (x.mantissa * y.mantissa)
    let ze := x.exponent + y.exponent
    let zn := x.negative != y.negative
    let g := if zn then (Guard.ofRange range).setNegative else Guard.ofRange range
    let s ← shrinkProduct g.maxMantissa (repLimit g.cuspRoundingFix) ⟨g, zm, ze⟩
    let z ← doRoundUp .u64 mode ("Number::multiplication overflow : exponent is " ++ toString s.exponent) loopFuel
      s.guard ⟨zn, Width.u64.wrap s.mantissa, s.exponent⟩
    doNormalize .u64 mode range.min range.max range.cuspRoundingFix false z

/-! ## Division -/

/-- The three stages of `operator/=`: the quotient, its exponent and the flag
for a trailing remainder. -/
def quotient (range : MantissaRange) (nm : Nat) (ne : Int) (dm : Nat) (de : Int) : Nat × Int × Bool :=
  let factorExponent : Nat := 17
  let numerator := Width.u128.wrap (nm * 10 ^ factorExponent)
  let zm := numerator / dm
  let ze := ne - de - factorExponent
  if range.scale ≠ .small then
    let correctionExponent : Nat := 5
    let remainder := numerator % dm
    if remainder ≠ 0 then
      let partialNumerator := Width.u128.wrap (remainder * 10 ^ correctionExponent)
      let correction := partialNumerator / dm
      let dropped := decide (range.cuspRoundingFix ≠ .disabled ∧ partialNumerator % dm ≠ 0)
      if correction ≠ 0 then
        (Width.u128.wrap (Width.u128.wrap (zm * 10 ^ correctionExponent) + correction),
          ze - correctionExponent, dropped)
      else (zm, ze, dropped)
    else (zm, ze, false)
  else (zm, ze, false)

/-- `operator/=`. -/
def divideAssign (range : MantissaRange) (mode : RoundingMode) (x y : Number) : Run String Number :=
  if y = kZero then Run.throw "Number: divide by 0"
  else if x = kZero then .ok x
  else
    let (zm, ze, dropped) := quotient range x.mantissa x.exponent y.mantissa y.exponent
    doNormalize .u128 mode range.min range.max range.cuspRoundingFix dropped ⟨x.negative != y.negative, zm, ze⟩

end Number

end Rippled.Basics
