/-!
# Bits and fields of an archive

Compressed data are a sequence of bits, the lowest bit of each byte first, and numbers in them have
their lowest bit first too. The fields of an archive are numbers of several bytes, the lowest byte
first.
-/

namespace Carta.Archive

/-- The low `count` bits of a number, the lowest first. -/
def lowBits : Nat → Nat → List Bool
  | 0, _ => []
  | count + 1, n => (n % 2 == 1) :: lowBits count (n / 2)

/-- The bits of bytes. -/
def bitsOf (bytes : List UInt8) : List Bool :=
  bytes.flatMap fun b => lowBits 8 b.toNat

/-- The number that bits stand for, the lowest first. -/
def numberOf : List Bool → Nat
  | [] => 0
  | b :: bits => b.toNat + 2 * numberOf bits

/-- The number in the first `count` bits, and the bits after them. -/
def takeNumber? : Nat → List Bool → Option (Nat × List Bool)
  | 0, bits => some (0, bits)
  | _ + 1, [] => none
  | count + 1, b :: bits =>
    (takeNumber? count bits).map fun (n, rest) => (b.toNat + 2 * n, rest)

/-- Taking a number leaves `count` bits less. -/
theorem length_of_takeNumber? {count n : Nat} {bits rest : List Bool}
    (h : takeNumber? count bits = some (n, rest)) : rest.length + count = bits.length := by
  induction count generalizing n bits with
  | zero =>
    obtain ⟨-, rfl⟩ := Prod.mk.inj (Option.some.inj h)
    rfl
  | succ count ih =>
    cases bits with
    | nil => simp [takeNumber?] at h
    | cons b bits =>
      obtain ⟨⟨n', rest'⟩, ht, he⟩ := Option.map_eq_some_iff.1 h
      obtain ⟨-, rfl⟩ := Prod.mk.inj he
      have := ih ht
      simp only [List.length_cons]
      omega

/-- The number that bytes stand for, the lowest first. -/
def littleEndian : List UInt8 → Nat
  | [] => 0
  | b :: bytes => b.toNat + 256 * littleEndian bytes

/-- The `size` bytes at an offset, as far as there are any. -/
def slice (bytes : List UInt8) (offset size : Nat) : List UInt8 :=
  (bytes.drop offset).take size

/-- The number in the `size` bytes at an offset. -/
def field (bytes : List UInt8) (offset size : Nat) : Nat :=
  littleEndian (slice bytes offset size)

end Carta.Archive
