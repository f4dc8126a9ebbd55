import Rippled.Lib.Loop
import Mathlib.Algebra.Order.Ring.Nat
/-!
# Guard digits

`MantissaRange`, `Number` and `Number::Guard`. The thread-local rounding mode
and mantissa range are parameters. Mantissas are naturals, wrapped at the width
of the C++ type they stand in for.
-/

namespace Rippled.Basics

open Lib

/-! ## Ranges -/

inductive MantissaScale where
  | small
  | largeLegacy
  | large320
  | large330
  deriving DecidableEq, Repr

inductive CuspRoundingFix where
  | disabled
  | enabled320
  | enabled330
  deriving DecidableEq, Repr

/-- `cuspRoundingFix >= Enabled330`. -/
def CuspRoundingFix.enabled330OrLater : CuspRoundingFix → Bool
  | .enabled330 => true
  | _ => false

namespace MantissaScale

def getExponent : MantissaScale → Nat
  | .small => 15
  | .largeLegacy | .large320 | .large330 => 18

def isCuspFixEnabled : MantissaScale → CuspRoundingFix
  | .small | .largeLegacy => .disabled
  | .large320 => .enabled320
  | .large330 => .enabled330

end MantissaScale

structure MantissaRange where
  scale : MantissaScale
  log : Nat
  min : Nat
  max : Nat
  cuspRoundingFix : CuspRoundingFix

def mantissaRange (scale : MantissaScale) : MantissaRange where
  scale := scale
  log := scale.getExponent
  min := 10 ^ scale.getExponent
  max := 10 ^ scale.getExponent * 10 - 1
  cuspRoundingFix := scale.isCuspFixEnabled

inductive RoundingMode where
  | toNearest
  | towardsZero
  | downward
  | upward
  deriving DecidableEq, Repr

def kMinExponent : Int := -32768
def kMaxExponent : Int := 32768

/-- The largest `int64`. -/
def kMaxRep : Nat := 9223372036854775807

/-- The next multiple of ten above `kMaxRep`. -/
def kMaxRepUp : Nat := (kMaxRep / 10 + 1) * 10

theorem kMinExponent_eq : kMinExponent = -32768 := rfl
theorem kMaxExponent_eq : kMaxExponent = 32768 := rfl
theorem kMaxRep_eq : kMaxRep = 9223372036854775807 := rfl
theorem kMaxRepUp_eq : kMaxRepUp = 9223372036854775810 := rfl

/-- A decimal floating point number, in its internal form. -/
structure Number where
  negative : Bool
  mantissa : Nat
  exponent : Int
  deriving DecidableEq, Repr

/-- `Number{}`, with the lowest `int` as its exponent. -/
def kZero : Number := ⟨false, 0, -2147483648⟩

/-! ## Machine integers -/

/-- The unsigned types mantissas are held in. -/
inductive Width where
  | u64
  | u128
  deriving DecidableEq

def Width.size : Width → Nat
  | .u64 => 2 ^ 64
  | .u128 => 2 ^ 128

theorem Width.lt_size (w : Width) : 10 ^ 19 < w.size := by
  cases w <;> decide

def Width.wrap (w : Width) (n : Nat) : Nat := n % w.size

/-- `divu10`: the remainder and the quotient of `u` by ten, with shifts and
additions only. -/
def divu10 (u : Nat) : Nat × Nat :=
  let q := Width.u128.wrap ((u >>> 1) + (u >>> 2))
  let q := Width.u128.wrap (q + (q >>> 4))
  let q := Width.u128.wrap (q + (q >>> 8))
  let q := Width.u128.wrap (q + (q >>> 16))
  let q := Width.u128.wrap (q + (q >>> 32))
  let q := Width.u128.wrap (q + (q >>> 64))
  let q := q >>> 3
  -- `r` and `c` are 32 bits wide
  let r := Width.u128.wrap (u + 2 ^ 128 - Width.u128.wrap ((q <<< 3) + (q <<< 1))) % 2 ^ 32
  let c := ((r + 6) % 2 ^ 32) >>> 4
  ((r + 2 ^ 32 - c * 10) % 2 ^ 32, Width.u128.wrap (q + c))

/-- `mantissa % 10` and `mantissa / 10`, by `divu10` for 128 bits. -/
def Width.divMod10 (w : Width) (m : Nat) : Nat × Nat :=
  match w with
  | .u64 => (m % 10, m / 10)
  | .u128 => divu10 m

/-! ## The guard -/

structure Guard where
  /-- 16 decimal digits, the last dropped one on top. -/
  digits : Nat := 0
  /-- A non-zero digit was shifted off the end. -/
  xbit : Bool := false
  sbit : Bool := false
  minMantissa : Nat
  maxMantissa : Nat
  cuspRoundingFix : CuspRoundingFix

inductive Round where
  | exact
  | down
  | even
  | up
  deriving DecidableEq, Repr

namespace Guard

def ofRange (r : MantissaRange) : Guard where
  minMantissa := r.min
  maxMantissa := r.max
  cuspRoundingFix := r.cuspRoundingFix

def setNegative (g : Guard) : Guard := { g with sbit := true }

def doPush (g : Guard) (d : Nat) : Guard :=
  { g with
    xbit := g.xbit || (g.digits &&& 0xF) != 0
    digits := (g.digits >>> 4) ||| ((d &&& 0xF) <<< 60) }

/-- The recovered digit and the guard without it. -/
def pop (g : Guard) : Nat × Guard :=
  ((g.digits &&& 0xF000000000000000) >>> 60, { g with digits := (g.digits <<< 4) % 2 ^ 64 })

def unrecoverable (g : Guard) : Bool := g.digits == 0

def empty (g : Guard) : Bool := g.unrecoverable && !g.xbit

/-- A guard with the mantissa and exponent it works on. -/
structure Dropping where
  guard : Guard
  mantissa : Nat
  exponent : Int

def doDropDigit (w : Width) (s : Dropping) : Dropping where
  guard := s.guard.doPush (w.divMod10 s.mantissa).1
  mantissa := (w.divMod10 s.mantissa).2
  exponent := s.exponent + 1

/-- Fuel for the loops on mantissas: each runs at most once for every digit of
a 128-bit number and of the guard. -/
def loopFuel : Nat := 64

def doDropDigitWithTarget (w : Width) (targetExponent : Int) (s : Dropping) : Run String Dropping :=
  Run.whileDo (fun s => decide (s.exponent < targetExponent))
    (fun s =>
      if s.mantissa = 0 ∧ s.guard.unrecoverable then .ok { s with exponent := targetExponent }
      else .ok (doDropDigit w s))
    loopFuel s

def round (mode : RoundingMode) (g : Guard) : Round :=
  if g.cuspRoundingFix.enabled330OrLater && g.empty then .exact
  else if mode = .towardsZero then .down
  else if (mode = .downward ∧ ¬ g.sbit) ∨ (mode = .upward ∧ g.sbit) then .down
  else if mode = .downward ∨ mode = .upward then
    if g.empty then .down else .up
  else if g.digits > 0x5000000000000000 then .up
  else if g.digits < 0x5000000000000000 then .down
  else if g.xbit then .up
  else .even

def pushOverflow (mode : RoundingMode) (g : Guard) (mantissa : Nat) : Guard :=
  if g.cuspRoundingFix.enabled330OrLater ∧ kMaxRep ≤ mantissa ∧ mantissa < kMaxRepUp then
    let spread := kMaxRepUp - kMaxRep
    -- the digits already in the guard may carry the mantissa past the midpoint
    let mantissa :=
      if mantissa % 10 < 9 then
        let kMidpoint := kMaxRep + spread / 2
        if g.round mode = .up ∨ (g.round mode = .even ∧ mantissa = kMidpoint) then mantissa + 1 else mantissa
      else mantissa
    g.doPush ((mantissa - kMaxRep) * 10 / spread)
  else g

def bringIntoRange (w : Width) (g : Guard) (x : Number) : Number :=
  let x : Number :=
    if x.mantissa < g.minMantissa ∧ (¬ g.cuspRoundingFix.enabled330OrLater ∨ x.mantissa ≠ 0) then
      { x with mantissa := w.wrap (x.mantissa * 10), exponent := x.exponent - 1 }
    else x
  if x.exponent < kMinExponent ∨ (g.cuspRoundingFix.enabled330OrLater ∧ x.mantissa = 0) then kZero else x

/-- The end of `doRoundUp`: the range checks after rounding. -/
def finishRoundUp (w : Width) (g : Guard) (location : String) (x : Number) : Run String Number :=
  let x := g.bringIntoRange w x
  if x.exponent > kMaxExponent then Run.throw location else .ok x

/-- `doRoundUp`. Each recursive call takes one unit of fuel. -/
def doRoundUp (w : Width) (mode : RoundingMode) (location : String) : Nat → Guard → Number → Run String Number
  | 0, _, _ => .error .outOfFuel
  | fuel + 1, g, x =>
    let g := g.pushOverflow mode x.mantissa
    let r := g.round mode
    if r = .up ∨ (r = .even ∧ x.mantissa &&& 1 = 1) then
      if g.cuspRoundingFix ≠ .disabled then
        if x.mantissa < g.maxMantissa ∧ x.mantissa < kMaxRep then
          g.finishRoundUp w location { x with mantissa := w.wrap (x.mantissa + 1) }
        else if g.cuspRoundingFix.enabled330OrLater ∧ kMaxRep < x.mantissa ∧ x.mantissa < kMaxRepUp then
          g.finishRoundUp w location { x with mantissa := kMaxRepUp }
        else
          let s := doDropDigit w ⟨g, x.mantissa, x.exponent⟩
          doRoundUp w mode location fuel s.guard { x with mantissa := s.mantissa, exponent := s.exponent }
      else
        let m := w.wrap (x.mantissa + 1)
        if m > g.maxMantissa ∨ m > kMaxRep then
          g.finishRoundUp w location { x with mantissa := m / 10, exponent := x.exponent + 1 }
        else g.finishRoundUp w location { x with mantissa := m }
    else if g.cuspRoundingFix.enabled330OrLater ∧ kMaxRep < x.mantissa ∧ x.mantissa < kMaxRepUp then
      g.finishRoundUp w location { x with mantissa := kMaxRep }
    else g.finishRoundUp w location x

def doRoundDown (w : Width) (mode : RoundingMode) (g : Guard) (x : Number) : Number :=
  let r := g.round mode
  let dec := w.wrap (x.mantissa + w.size - 1)
  if g.cuspRoundingFix.enabled330OrLater then
    g.bringIntoRange w (if r ≠ .exact then { x with mantissa := dec } else x)
  else if r = .up ∨ (r = .even ∧ x.mantissa &&& 1 = 1) then
    if dec < g.minMantissa then
      g.bringIntoRange w { x with mantissa := w.wrap (dec * 10), exponent := x.exponent - 1 }
    else g.bringIntoRange w { x with mantissa := dec }
  else g.bringIntoRange w x

end Guard

end Rippled.Basics
