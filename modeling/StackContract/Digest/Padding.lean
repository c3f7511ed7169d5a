/-!
# Message padding

Both digests of this library read a message in blocks of 64 bytes: the message, one byte 0x80, zeros
up to eight bytes before a block's end, and the length of the message in bits in those eight bytes.
They differ in the order of the bytes within a word.
-/

namespace StackContract.Digest

/-- The number of zeros between the byte 0x80 and the length. -/
def zeroCount (length : Nat) : Nat :=
  (119 - length % 64) % 64

/-- The message with its padding, the bytes of its length in bits being `lengthBytes`. -/
def padded (message lengthBytes : List UInt8) : List UInt8 :=
  message ++ [0x80] ++ List.replicate (zeroCount message.length) 0 ++ lengthBytes

/-- A message with its padding fills whole blocks. -/
theorem length_padded_mod (message lengthBytes : List UInt8) (h : lengthBytes.length = 8) :
    (padded message lengthBytes).length % 64 = 0 := by
  unfold padded zeroCount
  simp only [List.length_append, List.length_replicate, List.length_singleton, h]
  omega

/-- Groups bytes by four, each group read as a word by `word`. -/
def wordsOf (word : UInt8 → UInt8 → UInt8 → UInt8 → UInt32) (done : Array UInt32) :
    List UInt8 → Array UInt32
  | a :: b :: c :: d :: rest => wordsOf word (done.push (word a b c d)) rest
  | _ => done

/-- The word of four bytes, most significant first. -/
def bigEndianWord (a b c d : UInt8) : UInt32 :=
  a.toUInt32 <<< 24 ||| b.toUInt32 <<< 16 ||| c.toUInt32 <<< 8 ||| d.toUInt32

/-- The word of four bytes, least significant first. -/
def littleEndianWord (a b c d : UInt8) : UInt32 :=
  bigEndianWord d c b a

/-- The bytes of a word, most significant first. -/
def bigEndianBytes (w : UInt32) : List UInt8 :=
  [(w >>> 24).toUInt8, (w >>> 16).toUInt8, (w >>> 8).toUInt8, w.toUInt8]

/-- The bytes of a word, least significant first. -/
def littleEndianBytes (w : UInt32) : List UInt8 :=
  (bigEndianBytes w).reverse

/-- The word turned left by `n` bits, for `0 < n < 32`. -/
def rotateLeft (w n : UInt32) : UInt32 :=
  w <<< n ||| w >>> (32 - n)

/-- The word turned right by `n` bits, for `0 < n < 32`. -/
def rotateRight (w n : UInt32) : UInt32 :=
  w >>> n ||| w <<< (32 - n)

end StackContract.Digest
