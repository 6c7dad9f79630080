import Mathlib.Data.BitVec
import Samaritan.Lib.Decimal

/-!
# Cyclic Redundancy Checks

The remainder of a message modulo a polynomial over the field of two elements, with the most
significant bit first: `crcBit` takes one bit of the message in, and `crc` is the remainder of a
whole message, from the initial value zero. A remainder of `w` bits stands for a polynomial of
degree below `w`, and `poly` for the polynomial with the term of degree `w` left out.

The table driven form takes a whole byte in at once. It rests on two facts: the remainder is linear
in exclusive or, and bits of the message that are equal to the upper bits of the remainder cancel
them, so that the remainder only moves.
-/

namespace Samaritan.Lib

variable {w : Nat}

/-! ## Bit by bit -/

/-- One bit of the message: the remainder moves up, and the polynomial is taken away if the bit that
    falls out and the bit that comes in differ. -/
def crcBit (poly c : BitVec w) (b : Bool) : BitVec w :=
  if c.msb ^^ b then (c <<< 1) ^^^ poly else c <<< 1

/-- The remainder behind some bits of the message. -/
def crcBits (poly c : BitVec w) (bits : List Bool) : BitVec w := bits.foldl (crcBit poly) c

/-- The upper `n` bits of a word, the most significant one first. -/
def topBits (n : Nat) (c : BitVec w) : List Bool := (List.range n).map c.getMsbD

/-- The bits of a byte, the most significant one first. -/
def byteBits (b : UInt8) : List Bool := topBits 8 b.toBitVec

/-- The remainder of a message. -/
def crc (poly : BitVec w) (message : Bytes) : BitVec w :=
  crcBits poly 0 (message.flatMap byteBits)

@[simp] theorem crcBits_nil (poly c : BitVec w) : crcBits poly c [] = c := rfl

@[simp] theorem length_topBits (n : Nat) (c : BitVec w) : (topBits n c).length = n := by
  simp [topBits]

end Samaritan.Lib
