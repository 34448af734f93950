/-!
# Checksums

The checksum of an entry is the remainder of its bytes, taken as a polynomial over the two-element
field, by the polynomial of degree 32 that the archive format names, with the bits of each byte in
reverse order and all bits inverted before and after.
-/

namespace Carta.Archive

/-- Divides one bit off a remainder. -/
def checksumBit (remainder : UInt32) : UInt32 :=
  if remainder &&& 1 = 1 then (remainder >>> 1) ^^^ 0xEDB88320 else remainder >>> 1

/-- Divides `count` bits off a remainder. -/
def checksumBits : Nat → UInt32 → UInt32
  | 0, remainder => remainder
  | count + 1, remainder => checksumBits count (checksumBit remainder)

/-- The checksum of bytes. -/
def checksum (bytes : List UInt8) : UInt32 :=
  (bytes.foldl (fun remainder b => checksumBits 8 (remainder ^^^ b.toUInt32)) 0xFFFFFFFF) ^^^
    0xFFFFFFFF

end Carta.Archive
