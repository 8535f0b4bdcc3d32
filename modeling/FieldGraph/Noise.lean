import FieldGraph.Arithmetic

/-! # Value noise

A deterministic noise on the plane and in space, divided into cells of the noise's period. Each
lattice point has a value between minus one and one that is hashed from its coordinates and the
seed, and inside a cell the values of the corners are blended smoothly.

The hash works on 32-bit words held in 64-bit words: after every step the high half is cleared.
-/

namespace FieldGraph

open Arithmetic

/-- A noise with lattice cells of size `period`. -/
structure ValueNoise (R : Type) where
  /-- The seed; only its lowest 32 bits matter. -/
  seed : Int := 0
  period : R
  deriving Repr

namespace ValueNoise

def low32 (word : UInt64) : UInt64 := word &&& 0xFFFFFFFF

def axisFactors : List UInt64 := [0x27D4EB2D, 0x165667B1, 0x9E3779B1]

/-- The hash before any coordinate is taken in. -/
def seedWord (seed : Int) : UInt64 :=
  low32 (low32 (UInt64.ofInt (seed % Int.pow 2 32)) * 0x85EBCA77)

def absorb (hash : UInt64) (coordinate factor : UInt64) : UInt64 :=
  let mixed := low32 (hash ^^^ (coordinate * factor))
  low32 ((mixed ^^^ (mixed >>> 15)) * 0x2C1B3C6D)

def finish (hash : UInt64) : UInt64 :=
  let mixed := low32 ((hash ^^^ (hash >>> 13)) * 0x297A2D39)
  mixed ^^^ (mixed >>> 16)

def latticeHash (seed : Int) (point : List UInt64) : UInt64 :=
  finish ((point.zip axisFactors).foldl (fun hash (c, factor) => absorb hash c factor)
    (seedWord seed))

variable {R : Type} [Arithmetic R]

/-- The lowest 16 bits of the hash of a lattice point, mapped from `0 … 65535` to `-1 … 1`. -/
def latticeValue (seed : Int) (point : List R) : R :=
  let hash := latticeHash seed (point.map toWord)
  ofNat (hash &&& 0xFFFF).toNat / (ofNat 65535 / two) - one

def fade (t : R) : R := t * t * (three - two * t)

/-- The number a fraction `t` of the way from `a` to `b`. -/
def blend (t a b : R) : R := a + t * (b - a)

/-- The place of a coordinate: the lattice point below it and the blending weight. -/
def locate (noise : ValueNoise R) (x : R) : R × R :=
  let scaled := x / noise.period
  let below := floor scaled
  (below, fade (scaled - below))

/-- The blend of the four lattice values around a point of a plane of the lattice;
`rest` fixes the remaining coordinates. -/
def plane (noise : ValueNoise R) (x y : R × R) (rest : List R) : R :=
  let value (i j : R) := latticeValue noise.seed (i :: j :: rest)
  let (x0, tx) := x
  let (y0, ty) := y
  blend ty (blend tx (value x0 y0) (value (x0 + one) y0))
    (blend tx (value x0 (y0 + one)) (value (x0 + one) (y0 + one)))

def sample2 (noise : ValueNoise R) (x y : R) : R :=
  noise.plane (noise.locate x) (noise.locate y) []

def sample3 (noise : ValueNoise R) (x y z : R) : R :=
  let (z0, tz) := noise.locate z
  blend tz (noise.plane (noise.locate x) (noise.locate y) [z0])
    (noise.plane (noise.locate x) (noise.locate y) [z0 + one])

def lowest : R := -one

def highest : R := one

end ValueNoise

end FieldGraph
