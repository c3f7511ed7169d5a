import StackContract.Digest.Padding
import StackContract.Number.LittleEndian
/-!
# RIPEMD-160

The 160-bit digest that runs two lines of 80 steps over each block and adds their results crosswise.
-/

namespace StackContract.Digest.Ripemd160

/-- The five chaining words. -/
structure State where
  a : UInt32
  b : UInt32
  c : UInt32
  d : UInt32
  e : UInt32

/-- The chaining words before the first block. -/
def initial : State :=
  ⟨0x67452301, 0xefcdab89, 0x98badcfe, 0x10325476, 0xc3d2e1f0⟩

/-- The word of the block that each step of the left line reads. -/
def leftWords : Array Nat := #[
  0, 1, 2, 3, 4, 5, 6, 7, 8, 9, 10, 11, 12, 13, 14, 15,
  7, 4, 13, 1, 10, 6, 15, 3, 12, 0, 9, 5, 2, 14, 11, 8,
  3, 10, 14, 4, 9, 15, 8, 1, 2, 7, 0, 6, 13, 11, 5, 12,
  1, 9, 11, 10, 0, 8, 12, 4, 13, 3, 7, 15, 14, 5, 6, 2,
  4, 0, 5, 9, 7, 12, 2, 10, 14, 1, 3, 8, 11, 6, 15, 13]

/-- The word of the block that each step of the right line reads. -/
def rightWords : Array Nat := #[
  5, 14, 7, 0, 9, 2, 11, 4, 13, 6, 15, 8, 1, 10, 3, 12,
  6, 11, 3, 7, 0, 13, 5, 10, 14, 15, 8, 12, 4, 9, 1, 2,
  15, 5, 1, 3, 7, 14, 6, 9, 11, 8, 12, 2, 10, 0, 4, 13,
  8, 6, 4, 1, 3, 11, 15, 0, 5, 12, 2, 13, 9, 7, 10, 14,
  12, 15, 10, 4, 1, 5, 8, 7, 6, 2, 13, 14, 0, 3, 9, 11]

/-- The rotation of each step of the left line. -/
def leftTurns : Array UInt32 := #[
  11, 14, 15, 12, 5, 8, 7, 9, 11, 13, 14, 15, 6, 7, 9, 8,
  7, 6, 8, 13, 11, 9, 7, 15, 7, 12, 15, 9, 11, 7, 13, 12,
  11, 13, 6, 7, 14, 9, 13, 15, 14, 8, 13, 6, 5, 12, 7, 5,
  11, 12, 14, 15, 14, 15, 9, 8, 9, 14, 5, 6, 8, 6, 5, 12,
  9, 15, 5, 11, 6, 8, 13, 12, 5, 12, 13, 14, 11, 8, 5, 6]

/-- The rotation of each step of the right line. -/
def rightTurns : Array UInt32 := #[
  8, 9, 9, 11, 13, 15, 15, 5, 7, 7, 8, 11, 14, 14, 12, 6,
  9, 13, 15, 7, 12, 8, 9, 11, 7, 7, 12, 7, 6, 15, 13, 11,
  9, 7, 15, 11, 8, 6, 6, 14, 12, 13, 5, 14, 13, 13, 7, 5,
  15, 5, 8, 11, 14, 14, 6, 14, 6, 9, 12, 9, 12, 5, 15, 8,
  8, 5, 12, 9, 12, 5, 14, 6, 8, 13, 6, 5, 15, 13, 11, 11]

/-- The added constant of each group of sixteen steps, left line. -/
def leftConstants : Array UInt32 :=
  #[0x00000000, 0x5a827999, 0x6ed9eba1, 0x8f1bbcdc, 0xa953fd4e]

/-- The added constant of each group of sixteen steps, right line. -/
def rightConstants : Array UInt32 :=
  #[0x50a28be6, 0x5c4dd124, 0x6d703ef3, 0x7a6d76e9, 0x00000000]

/-- The five Boolean functions, by group. -/
def mix (group : Nat) (x y z : UInt32) : UInt32 :=
  match group with
  | 0 => x ^^^ y ^^^ z
  | 1 => (x &&& y) ||| (~~~x &&& z)
  | 2 => (x ||| ~~~y) ^^^ z
  | 3 => (x &&& z) ||| (y &&& ~~~z)
  | _ => x ^^^ (y ||| ~~~z)

/-- One step of a line. -/
def step (s : State) (group : Nat) (word turn : UInt32) : State :=
  let t := rotateLeft (s.a + mix group s.b s.c s.d + word) turn + s.e
  ⟨s.e, t, s.b, rotateLeft s.c 10, s.d⟩

/-- The 80 steps of the left line. -/
def leftLine (s : State) (block : Array UInt32) : State :=
  (List.range 80).foldl (fun t i =>
    step t (i / 16) (block.getD (leftWords.getD i 0) 0 + leftConstants.getD (i / 16) 0)
      (leftTurns.getD i 0)) s

/-- The 80 steps of the right line, which takes the functions in the opposite order. -/
def rightLine (s : State) (block : Array UInt32) : State :=
  (List.range 80).foldl (fun t i =>
    step t (4 - i / 16) (block.getD (rightWords.getD i 0) 0 + rightConstants.getD (i / 16) 0)
      (rightTurns.getD i 0)) s

/-- The state after a block of sixteen words. -/
def compress (s : State) (block : Array UInt32) : State :=
  let l := leftLine s block
  let r := rightLine s block
  ⟨s.b + l.c + r.d, s.c + l.d + r.e, s.d + l.e + r.a, s.e + l.a + r.b, s.a + l.b + r.c⟩

end Ripemd160

/-- The RIPEMD-160 digest, 20 bytes. -/
def ripemd160 (message : List UInt8) : List UInt8 :=
  let length := Number.bytesOfNat 8 (8 * message.length)
  let words := wordsOf littleEndianWord #[] (padded message length)
  let s := (List.range (words.size / 16)).foldl
    (fun s i => Ripemd160.compress s (words.extract (16 * i) (16 * i + 16))) Ripemd160.initial
  [s.a, s.b, s.c, s.d, s.e].flatMap littleEndianBytes

theorem length_ripemd160 (message : List UInt8) : (ripemd160 message).length = 20 := by
  simp [ripemd160, littleEndianBytes, bigEndianBytes]

end StackContract.Digest
