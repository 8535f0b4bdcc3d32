import FieldGraph.Arithmetic

/-! # Quantised distances

Distances are stored multiplied by a scale that depends on the depth of their channel. At 8 and 16
bits they are stored as signed integers that stand for fractions of the largest one; at 32 and 64
bits as numbers.
-/

namespace FieldGraph.Voxel

open Arithmetic

inductive Depth where
  | bits8 | bits16 | bits32 | bits64
  deriving DecidableEq, Repr

namespace Depth

def bits : Depth → Nat
  | .bits8 => 8
  | .bits16 => 16
  | .bits32 => 32
  | .bits64 => 64

def all : List Depth := [.bits8, .bits16, .bits32, .bits64]

def ofBits? (bits : Int) : Option Depth := all.find? fun depth => bits == depth.bits

/-- The largest stored integer, for depths that store distances as integers. -/
def levels? : Depth → Option Nat
  | .bits8 => some 127
  | .bits16 => some 32767
  | .bits32 | .bits64 => none

variable {R : Type} [Arithmetic R]

/-- The factor between distances and scaled distances. -/
def scale : Depth → R
  | .bits8 => one / Arithmetic.ofNat 10
  | .bits16 => one / Arithmetic.ofNat 500
  | .bits32 | .bits64 => one

/-- How much stored distances may differ to count as equal: in steps, or relative to the larger
magnitude. -/
def tolerance : Depth → R
  | .bits8 | .bits16 => one
  | .bits32 | .bits64 => one / Arithmetic.ofNat 10000

end Depth

variable {R : Type} [Arithmetic R]

/-- The stored integer of a scaled distance. An undefined distance is zero. -/
def quantize (levels : Nat) (scaled : R) : Int :=
  let defined := if isNaN scaled then zero else scaled
  roundEven (clip defined (-one) one * ofNat levels)

def ofInteger (n : Int) : R :=
  match n with
  | .ofNat n => ofNat n
  | .negSucc n => -ofNat (n + 1)

def dequantize (levels : Nat) (stored : Int) : R :=
  maximum (ofInteger stored / ofNat levels) (-one)

/-- Whether two stored numbers are equal, or as near as the tolerance relative to the larger
magnitude allows, which is absolute below one. -/
def isClose (tolerance a b : R) : Bool :=
  let limit := tolerance * maximum one (maximum (Arithmetic.abs a) (Arithmetic.abs b))
  le (Arithmetic.abs (a - b)) limit || eq a b

/-- Whether two stored integers are within some steps of each other. -/
def isNear (steps a b : R) : Bool := le (Arithmetic.abs (a - b)) steps

end FieldGraph.Voxel
