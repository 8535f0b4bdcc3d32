/-! # Digests

The BLAKE2b hash function with a digest of eight bytes, read as a number with the low byte first.
Each block of 128 bytes is mixed into a state of eight words in twelve rounds.
-/

namespace FieldGraph.Digest

def startWords : Array UInt64 :=
  #[0x6a09e667f3bcc908, 0xbb67ae8584caa73b, 0x3c6ef372fe94f82b, 0xa54ff53a5f1d36f1,
    0x510e527fade682d1, 0x9b05688c2b3e6c1f, 0x1f83d9abfb41bd6b, 0x5be0cd19137e2179]

/-- The order in which each round takes the words of a block. -/
def schedule : List (List Nat) :=
  [ [0, 1, 2, 3, 4, 5, 6, 7, 8, 9, 10, 11, 12, 13, 14, 15],
    [14, 10, 4, 8, 9, 15, 13, 6, 1, 12, 0, 2, 11, 7, 5, 3],
    [11, 8, 12, 0, 5, 2, 15, 13, 10, 14, 3, 6, 7, 1, 9, 4],
    [7, 9, 3, 1, 13, 12, 11, 14, 2, 6, 5, 10, 4, 0, 15, 8],
    [9, 0, 5, 7, 2, 4, 10, 15, 14, 1, 11, 12, 6, 8, 3, 13],
    [2, 12, 6, 10, 0, 11, 8, 3, 4, 13, 7, 5, 15, 14, 1, 9],
    [12, 5, 1, 15, 14, 13, 4, 10, 0, 7, 6, 3, 9, 2, 8, 11],
    [13, 11, 7, 14, 12, 1, 3, 9, 5, 0, 15, 4, 8, 6, 2, 10],
    [6, 15, 14, 9, 11, 3, 0, 8, 12, 2, 13, 7, 1, 4, 10, 5],
    [10, 2, 8, 4, 7, 6, 1, 5, 15, 11, 9, 14, 3, 12, 13, 0],
    [0, 1, 2, 3, 4, 5, 6, 7, 8, 9, 10, 11, 12, 13, 14, 15],
    [14, 10, 4, 8, 9, 15, 13, 6, 1, 12, 0, 2, 11, 7, 5, 3] ]

/-- The places of the four words that each of a round's eight mixings works on. -/
def quarters : List (Nat × Nat × Nat × Nat) :=
  [(0, 4, 8, 12), (1, 5, 9, 13), (2, 6, 10, 14), (3, 7, 11, 15),
    (0, 5, 10, 15), (1, 6, 11, 12), (2, 7, 8, 13), (3, 4, 9, 14)]

def rotateRight (word count : UInt64) : UInt64 := (word >>> count) ||| (word <<< (64 - count))

/-- Mixes two words of a block into four words of the state. -/
def mix (state : Array UInt64) (places : Nat × Nat × Nat × Nat) (first second : UInt64) :
    Array UInt64 :=
  let (ia, ib, ic, id) := places
  let a := state.getD ia 0 + state.getD ib 0 + first
  let d := rotateRight (state.getD id 0 ^^^ a) 32
  let c := state.getD ic 0 + d
  let b := rotateRight (state.getD ib 0 ^^^ c) 24
  let a := a + b + second
  let d := rotateRight (d ^^^ a) 16
  let c := c + d
  let b := rotateRight (b ^^^ c) 63
  (((state.setIfInBounds ia a).setIfInBounds ib b).setIfInBounds ic c).setIfInBounds id d

def round (block : Array UInt64) (state : Array UInt64) (order : List Nat) : Array UInt64 :=
  let word (place : Nat) : UInt64 := block.getD (order.getD place 0) 0
  (quarters.zipIdx).foldl
    (fun state (places, index) => mix state places (word (2 * index)) (word (2 * index + 1))) state

/-- Takes a block into the chain; `count` is the number of message bytes up to and with it. -/
def compress (chain : Array UInt64) (block : Array UInt64) (count : Nat) (last : Bool) :
    Array UInt64 :=
  let wide := chain ++ startWords
  let wide := wide.modify 12 (· ^^^ UInt64.ofNat count)
  let wide := wide.modify 13 (· ^^^ UInt64.ofNat (count / Nat.pow 2 64))
  let wide := if last then wide.modify 14 (· ^^^ 0xFFFFFFFFFFFFFFFF) else wide
  let mixed := schedule.foldl (round block) wide
  (Array.range 8).map fun i => chain.getD i 0 ^^^ mixed.getD i 0 ^^^ mixed.getD (i + 8) 0

def wordOfBytes (bytes : List UInt8) : UInt64 :=
  bytes.foldr (fun byte word => (word <<< 8) ||| byte.toUInt64) 0

def blockOfBytes (bytes : List UInt8) : Array UInt64 :=
  (Array.range 16).map fun i => wordOfBytes ((bytes.drop (8 * i)).take 8)

def blockSize : Nat := 128

def absorb (chain : Array UInt64) (count : Nat) (bytes : List UInt8) : Array UInt64 :=
  if blockSize < bytes.length then
    absorb (compress chain (blockOfBytes (bytes.take blockSize)) (count + blockSize) false)
      (count + blockSize) (bytes.drop blockSize)
  else compress chain (blockOfBytes bytes) (count + bytes.length) true
termination_by bytes.length
decreasing_by
  have size : blockSize = 128 := rfl
  simp only [List.length_drop]
  omega

/-- The digest of a message as a number below `2 ^ 64`. -/
def ofBytes (bytes : List UInt8) : Nat :=
  let chain := startWords.modify 0 (· ^^^ 0x01010008)
  ((absorb chain 0 bytes).getD 0 0).toNat

def ofText (text : String) : Nat := ofBytes text.toUTF8.toList

end FieldGraph.Digest
