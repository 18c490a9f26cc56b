import RawHelper.Lib.ByteField

/-!
# Floating-point numbers by their bit pattern

A `Single` and a `Double` are the 32 and the 64 bits of an IEEE 754 number.
Code that only moves such a number, compares it with zero or asks whether it is
finite needs no arithmetic: `isFinite` looks at the exponent, `geZero` is
`0.0 ≤ x`, which negative zero passes and NaN does not, and `gtZero` is
`0.0 < x`.  Two numbers are equal here when their patterns are, so NaNs keep
their payload and the two zeros differ.

`Double.toRat` is the rational a finite pattern stands for.
-/

namespace Ieee

open ByteField (Codec u32be u64be)

/-- A binary32 number. -/
structure Single where
  bits : UInt32
deriving DecidableEq, Repr

/-- A binary64 number. -/
structure Double where
  bits : UInt64
deriving DecidableEq, Repr

/-! ### Single precision -/

namespace Single

def exponent (x : Single) : Nat := x.bits.toNat / 2 ^ 23 % 2 ^ 8

def fraction (x : Single) : Nat := x.bits.toNat % 2 ^ 23

def negative (x : Single) : Bool := 2 ^ 31 ≤ x.bits.toNat

/-- The exponent is not the one of the infinities and NaNs. -/
def isFinite (x : Single) : Bool := x.exponent ≠ 2 ^ 8 - 1

def isNan (x : Single) : Bool := x.exponent = 2 ^ 8 - 1 ∧ x.fraction ≠ 0

/-- `x >= 0.0`. -/
def geZero (x : Single) : Bool :=
  !x.isNan && (!x.negative || (x.exponent = 0 && x.fraction = 0))

/-- `x > 0.0`. -/
def gtZero (x : Single) : Bool :=
  !x.isNan && !x.negative && (x.exponent ≠ 0 || x.fraction ≠ 0)

def equivBits : UInt32 ≃ Single where
  toFun := Single.mk
  invFun := Single.bits
  left_inv _ := rfl
  right_inv _ := rfl

end Single

/-! ### Double precision -/

namespace Double

def exponent (x : Double) : Nat := x.bits.toNat / 2 ^ 52 % 2 ^ 11

def fraction (x : Double) : Nat := x.bits.toNat % 2 ^ 52

def negative (x : Double) : Bool := 2 ^ 63 ≤ x.bits.toNat

/-- The exponent is not the one of the infinities and NaNs. -/
def isFinite (x : Double) : Bool := x.exponent ≠ 2 ^ 11 - 1

def isNan (x : Double) : Bool := x.exponent = 2 ^ 11 - 1 ∧ x.fraction ≠ 0

/-- `x >= 0.0`. -/
def geZero (x : Double) : Bool :=
  !x.isNan && (!x.negative || (x.exponent = 0 && x.fraction = 0))

/-- The value of a finite pattern; what it says of the others means nothing. -/
def toRat (x : Double) : Rat :=
  let magnitude : Rat :=
    if x.exponent = 0 then x.fraction / 2 ^ 1074
    else (2 ^ 52 + x.fraction) * 2 ^ x.exponent / 2 ^ 1075
  if x.negative then -magnitude else magnitude

def equivBits : UInt64 ≃ Double where
  toFun := Double.mk
  invFun := Double.bits
  left_inv _ := rfl
  right_inv _ := rfl

end Double

/-! ### As fields of bytes -/

/-- A binary32 number, big-endian. -/
def f32be : Codec Single := u32be.map Single.equivBits

/-- A binary32 number, little-endian. -/
def f32le : Codec Single := f32be.reverse

/-- A binary64 number, big-endian. -/
def f64be : Codec Double := u64be.map Double.equivBits

/-- A binary64 number, little-endian. -/
def f64le : Codec Double := f64be.reverse

@[simp] theorem f32be_width : f32be.width = 4 := rfl
@[simp] theorem f32le_width : f32le.width = 4 := rfl
@[simp] theorem f64be_width : f64be.width = 8 := rfl
@[simp] theorem f64le_width : f64le.width = 8 := rfl

/-- The pattern of `1.0`, and of a NaN. -/
example : (Double.mk 0x3FF0000000000000).toRat = 1 ∧ (Double.mk 0x7FF8000000000000).isNan := by
  decide +kernel

end Ieee
