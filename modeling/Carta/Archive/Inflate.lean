import Carta.Archive.Code

/-!
# Expanding compressed data

Compressed data are a sequence of blocks. A stored block holds bytes as they are. A coded block is a
sequence of symbols: bytes, repetitions of bytes that were produced before, and the end of the
block. Its codes are fixed ones, or they are described at its beginning, by lengths that are
themselves coded. Where the data are damaged, what was produced before the damage is kept.
-/

namespace Carta.Archive

/-- What data expand to, and how they end if it is not by their last block. -/
structure Expansion where
  output : Array UInt8
  damage : Option Damage

/-- A base value and the number of bits that are added to it. -/
abbrev Range := Nat × Nat

/-- The lengths of repetitions, for the symbols from 257 on. -/
def lengthRanges : List Range :=
  [(3, 0), (4, 0), (5, 0), (6, 0), (7, 0), (8, 0), (9, 0), (10, 0), (11, 1), (13, 1), (15, 1),
    (17, 1), (19, 2), (23, 2), (27, 2), (31, 2), (35, 3), (43, 3), (51, 3), (59, 3), (67, 4),
    (83, 4), (99, 4), (115, 4), (131, 5), (163, 5), (195, 5), (227, 5), (258, 0)]

/-- The distances of repetitions, for their symbols. -/
def distanceRanges : List Range :=
  [(1, 0), (2, 0), (3, 0), (4, 0), (5, 1), (7, 1), (9, 2), (13, 2), (17, 3), (25, 3), (33, 4),
    (49, 4), (65, 5), (97, 5), (129, 6), (193, 6), (257, 7), (385, 7), (513, 8), (769, 8),
    (1025, 9), (1537, 9), (2049, 10), (3073, 10), (4097, 11), (6145, 11), (8193, 12),
    (12289, 12), (16385, 13), (24577, 13)]

/-- The value in the range of a symbol, and the bits after it. -/
def takeInRange (ranges : List Range) (symbol : Nat) (bits : List Bool) :
    Except Damage (Nat × List Bool) :=
  match ranges[symbol]? with
  | none => .error (.corrupt bits.length)
  | some (base, extra) =>
    match takeNumber? extra bits with
    | none => .error .truncated
    | some (more, rest) => .ok (base + more, rest)

/-- The byte at a distance before the end of the output. Before its beginning there are zeros. -/
def byteBefore (distance : Nat) (output : Array UInt8) : UInt8 :=
  if output.size < distance then 0 else output.getD (output.size - distance) 0

/-- The output with `count` bytes more, each a copy of the one at a distance before it. -/
def repeatAt (distance : Nat) : Nat → Array UInt8 → Array UInt8
  | 0, output => output
  | count + 1, output => repeatAt distance count (output.push (byteBefore distance output))

/-- What a symbol of a block says, with what belongs to it. -/
inductive Instruction
  | literal (byte : UInt8)
  | repetition (count distance : Nat)
  | stop
  deriving Repr, DecidableEq

/-- The repetition that a symbol begins, and the bits after it. -/
def takeRepetition (distances : Code) (symbol : Nat) (bits : List Bool) :
    Except Damage (Instruction × List Bool) := do
  let (count, bits) ← takeInRange lengthRanges (symbol - 257) bits
  let (symbol, bits) ← distances.decode bits
  let (distance, bits) ← takeInRange distanceRanges symbol bits
  return (.repetition count distance, bits)

/-- The next instruction of a block, and the bits after it. -/
def takeInstruction (literals distances : Code) (bits : List Bool) :
    Except Damage (Instruction × List Bool) :=
  match literals.decode bits with
  | .error damage => .error damage
  | .ok (symbol, rest) =>
    if symbol < 256 then .ok (.literal (UInt8.ofNat symbol), rest)
    else if symbol = 256 then .ok (.stop, rest)
    else takeRepetition distances symbol rest

/-- Taking a number in a range uses up no more bits than there are. -/
private theorem length_of_takeInRange {ranges : List Range} {symbol n : Nat}
    {bits rest : List Bool} (h : takeInRange ranges symbol bits = .ok (n, rest)) :
    rest.length ≤ bits.length := by
  rw [takeInRange] at h
  split at h
  next => simp at h
  next =>
    split at h
    next => simp at h
    next ht =>
      obtain ⟨-, rfl⟩ := Prod.mk.inj (Except.ok.inj h)
      have := length_of_takeNumber? ht
      omega

/-- Taking a repetition leaves no more bits than there were. -/
private theorem length_of_takeRepetition {distances : Code} {symbol : Nat}
    {instruction : Instruction} {bits rest : List Bool}
    (h : takeRepetition distances symbol bits = .ok (instruction, rest)) :
    rest.length ≤ bits.length := by
  rw [takeRepetition] at h
  cases h₁ : takeInRange lengthRanges (symbol - 257) bits with
  | error e => simp [h₁, bind, Except.bind] at h
  | ok r₁ =>
    cases h₂ : distances.decode r₁.2 with
    | error e => simp [h₁, h₂, bind, Except.bind] at h
    | ok r₂ =>
      cases h₃ : takeInRange distanceRanges r₂.1 r₂.2 with
      | error e => simp [h₁, h₂, h₃, bind, Except.bind] at h
      | ok r₃ =>
        have l₁ : r₁.2.length ≤ bits.length := length_of_takeInRange h₁
        have l₂ : r₂.2.length < r₁.2.length := length_of_decodeFrom h₂
        have l₃ : r₃.2.length ≤ r₂.2.length := length_of_takeInRange h₃
        obtain ⟨-, rfl⟩ : _ ∧ r₃.2 = rest := by
          simpa [h₁, h₂, h₃, bind, Except.bind, pure, Except.pure] using h
        omega

/-- Taking an instruction uses up bits. -/
theorem length_of_takeInstruction {literals distances : Code} {instruction : Instruction}
    {bits rest : List Bool}
    (h : takeInstruction literals distances bits = .ok (instruction, rest)) :
    rest.length < bits.length := by
  rw [takeInstruction] at h
  split at h
  next => simp at h
  next symbol more hd =>
    have hl : more.length < bits.length := length_of_decodeFrom hd
    split at h
    next =>
      obtain ⟨-, rfl⟩ := Prod.mk.inj (Except.ok.inj h)
      exact hl
    next =>
      split at h
      next =>
        obtain ⟨-, rfl⟩ := Prod.mk.inj (Except.ok.inj h)
        exact hl
      next =>
        have := length_of_takeRepetition h
        omega

/-- What the instructions of a block produce after the output, and the bits after the block. -/
def expandInstructions (literals distances : Code) (output : Array UInt8) (bits : List Bool) :
    Array UInt8 × Except Damage (List Bool) :=
  match _h : takeInstruction literals distances bits with
  | .error damage => (output, .error damage)
  | .ok (.literal b, rest) => expandInstructions literals distances (output.push b) rest
  | .ok (.repetition count distance, rest) =>
    expandInstructions literals distances (repeatAt distance count output) rest
  | .ok (.stop, rest) => (output, .ok rest)
termination_by bits.length
decreasing_by
  · exact length_of_takeInstruction _h
  · exact length_of_takeInstruction _h

/-- The order in which the lengths for the code of lengths are given. -/
def lengthOrder : List Nat :=
  [16, 17, 18, 0, 8, 7, 9, 6, 10, 5, 11, 4, 12, 3, 13, 2, 14, 1, 15]

/-- The numbers of three bits each, and the bits after them. -/
def takeTriples? : Nat → List Bool → Option (List Nat × List Bool)
  | 0, bits => some ([], bits)
  | count + 1, bits => do
    let (n, bits) ← takeNumber? 3 bits
    let (more, bits) ← takeTriples? count bits
    return (n :: more, bits)

/-- The code of lengths, from its lengths in the order in which they are given. -/
def lengthCode? (given : List Nat) : Option Code :=
  Code.complete? ((List.range 19).map fun symbol =>
    ((lengthOrder.zip given).lookup symbol).getD 0)

/-- The lengths that a symbol stands for: itself, or so many times the one before or zero. -/
def takeLengths (symbol : Nat) (previous : Option Nat) (bits : List Bool) :
    Except Damage (List Nat × List Bool) :=
  let times (length extra base : Nat) : Except Damage (List Nat × List Bool) :=
    match takeNumber? extra bits with
    | none => .error .truncated
    | some (n, rest) => .ok (List.replicate (base + n) length, rest)
  if symbol < 16 then .ok ([symbol], bits)
  else if symbol = 16 then
    match previous with
    | none => .error (.corrupt bits.length)
    | some length => times length 2 3
  else if symbol = 17 then times 0 3 3
  else times 0 7 11

/-- The `count` lengths that follow the given ones, which are in reverse order, with these, and the
bits after them. There are at most `fuel` symbols for them. -/
def takeAllLengths (code : Code) (count : Nat) :
    Nat → List Nat → List Bool → Except Damage (List Nat × List Bool)
  | 0, _, bits => .error (.corrupt bits.length)
  | fuel + 1, reversed, bits =>
    if count = reversed.length then .ok (reversed.reverse, bits)
    else if count < reversed.length then .error (.corrupt bits.length)
    else do
      let (symbol, bits) ← code.decode bits
      let (lengths, bits) ← takeLengths symbol reversed.head? bits
      takeAllLengths code count fuel (lengths ++ reversed) bits

/-- The codes of a block, and the bits after them. -/
structure BlockCodes where
  literals : Code
  distances : Code
  rest : List Bool

/-- The codes of a block, described at its beginning. -/
def takeCodes (bits : List Bool) : Except Damage BlockCodes := do
  let take (count : Nat) (bits : List Bool) : Except Damage (Nat × List Bool) :=
    match takeNumber? count bits with
    | none => .error .truncated
    | some result => .ok result
  let (literalCount, bits) ← take 5 bits
  let (distanceCount, bits) ← take 5 bits
  let (lengthCount, bits) ← take 4 bits
  if 286 < literalCount + 257 ∨ 30 < distanceCount + 1 then throw (.corrupt bits.length)
  let some (given, bits) := takeTriples? (lengthCount + 4) bits | throw .truncated
  let some code := lengthCode? given | throw (.corrupt bits.length)
  let count := literalCount + 257 + (distanceCount + 1)
  let (lengths, bits) ← takeAllLengths code count (count + 1) [] bits
  let some literals := Code.ofLengths? (lengths.take (literalCount + 257))
    | throw (.corrupt bits.length)
  let some distances := Code.ofLengths? (lengths.drop (literalCount + 257))
    | throw (.corrupt bits.length)
  return ⟨literals, distances, bits⟩

/-- The lengths of the fixed code of bytes and repetitions. -/
def fixedLengths : List Nat :=
  List.replicate 144 8 ++ List.replicate 112 9 ++ List.replicate 24 7 ++ List.replicate 8 8

/-- The fixed codes. -/
def fixedCodes (bits : List Bool) : Except Damage BlockCodes :=
  match Code.ofLengths? fixedLengths, Code.ofLengths? (List.replicate 32 5) with
  | some literals, some distances => .ok ⟨literals, distances, bits⟩
  | _, _ => .error (.corrupt bits.length)

/-- The bytes that bits make up, eight bits each. -/
def bytesOf : Nat → List Bool → List UInt8
  | 0, _ => []
  | count + 1, bits => UInt8.ofNat (numberOf (bits.take 8)) :: bytesOf count (bits.drop 8)

/-- What a stored block produces after the output, and the bits after the block. It begins at a
byte. -/
def expandStored (output : Array UInt8) (bits : List Bool) :
    Array UInt8 × Except Damage (List Bool) :=
  let bits := bits.drop (bits.length % 8)
  match takeNumber? 16 bits with
  | none => (output, .error .truncated)
  | some (size, bits) =>
    match takeNumber? 16 bits with
    | none => (output, .error .truncated)
    | some (inverted, bits) =>
      if size + inverted ≠ 0xFFFF then (output, .error (.corrupt bits.length))
      else if bits.length < 8 * size then
        (output ++ (bytesOf (bits.length / 8) bits).toArray, .error .truncated)
      else (output ++ (bytesOf size bits).toArray, .ok (bits.drop (8 * size)))

/-- What a block of a kind produces after the output, and the bits after the block. -/
def expandBlock (kind : Nat) (output : Array UInt8) (bits : List Bool) :
    Array UInt8 × Except Damage (List Bool) :=
  let coded (codes : Except Damage BlockCodes) : Array UInt8 × Except Damage (List Bool) :=
    match codes with
    | .error damage => (output, .error damage)
    | .ok codes => expandInstructions codes.literals codes.distances output codes.rest
  if kind = 0 then expandStored output bits
  else if kind = 1 then coded (fixedCodes bits)
  else if kind = 2 then coded (takeCodes bits)
  else (output, .error (.corrupt bits.length))

/-- What at most `fuel` blocks produce after the output. -/
def expandBlocks : Nat → Array UInt8 → List Bool → Expansion
  | 0, output, _ => ⟨output, some .truncated⟩
  | fuel + 1, output, bits =>
    match takeNumber? 3 bits with
    | none => ⟨output, some .truncated⟩
    | some (header, bits) =>
      match expandBlock (header / 2) output bits with
      | (output, .error damage) => ⟨output, some damage⟩
      | (output, .ok rest) =>
        if header % 2 = 1 then ⟨output, none⟩ else expandBlocks fuel output rest

/-- What compressed data expand to. Each block takes up at least one bit, so there are no more
blocks than bits. -/
def expand (bytes : List UInt8) : Expansion :=
  let bits := bitsOf bytes
  expandBlocks (bits.length + 1) #[] bits

end Carta.Archive
