import Carta.Xml.Byte
import Carta.Xml.Delimited
import Carta.Xml.Error

/-!
# Attributes of a tag

After its name a tag holds attributes: a key, an equals sign and a quoted value, with spaces
allowed around each. A key occurs once in a tag. Attributes are read one by one, and the value of
each is decoded and its references are resolved before the next one is looked at, so the first
fault from the left is the one reported.
-/

namespace Carta.Xml

/-- The inside of an opening or empty-element tag: its name, and what follows the name. -/
structure Tag where
  name : List UInt8
  remainder : List UInt8
  deriving Repr, DecidableEq

/-- The name goes up to the first space. -/
def Tag.ofContent (content : List UInt8) : Tag where
  name := content.takeWhile (!Byte.isSpace ·)
  remainder := content.dropWhile (!Byte.isSpace ·)

/-- The number of bytes between the angle brackets. -/
def Tag.size (tag : Tag) : Nat :=
  tag.name.length + tag.remainder.length

/-- An attribute before decoding, with the position of its key. -/
structure RawAttribute where
  key : List UInt8
  position : Nat
  value : List UInt8
  deriving Repr, DecidableEq

/-- Whether a byte continues a key. -/
def isKeyByte (b : UInt8) : Bool :=
  b != Byte.equals && !Byte.isSpace b

/-- The value between the quotes that the bytes begin with, and what follows it. The bytes end a
tag of `size` bytes. -/
def quotedValue (size : Nat) : List UInt8 → Except AttributeFault (List UInt8 × List UInt8)
  | [] => .error (.expectedValue size)
  | q :: bytes =>
    if Byte.isQuote q then
      match (Extent.upTo q).split? () bytes with
      | none => .error (.unclosedQuote size (Char.ofNat q.toNat))
      | some result => .ok result
    else .error (.unquotedValue (size - (bytes.length + 1)))

/-- The equals sign that the bytes begin with is taken off them. -/
def afterEquals (size : Nat) : List UInt8 → Except AttributeFault (List UInt8)
  | [] => .error (.expectedEquals size)
  | b :: bytes =>
    if b = Byte.equals then .ok bytes else .error (.expectedEquals (size - (bytes.length + 1)))

/-- The next attribute in a tag of `size` bytes that ends with the given ones, and the bytes after
it. The first byte of a key may be any byte. -/
def RawAttribute.next? (size : Nat) (earlier : List RawAttribute) (bytes : List UInt8) :
    Except AttributeFault (Option (RawAttribute × List UInt8)) :=
  match bytes.dropWhile Byte.isSpace with
  | [] => .ok none
  | first :: more => do
    let key := first :: more.takeWhile isKeyByte
    let position := size - (more.length + 1)
    let afterKey ← afterEquals size ((more.dropWhile isKeyByte).dropWhile Byte.isSpace)
    if let some previous := earlier.find? (·.key = key) then
      throw (.duplicated position previous.position)
    let (value, rest) ← quotedValue size (afterKey.dropWhile Byte.isSpace)
    return some (⟨key, position, value⟩, rest)

/-- Reading a quoted value uses up bytes. -/
private theorem length_of_quotedValue {size : Nat} {bytes value rest : List UInt8}
    (h : quotedValue size bytes = .ok (value, rest)) : rest.length < bytes.length := by
  cases bytes with
  | nil => simp [quotedValue] at h
  | cons q bytes =>
    rw [quotedValue] at h
    split at h
    next =>
      split at h
      next => simp at h
      next result hs =>
        obtain rfl : result = (value, rest) := by simpa using h
        have := Extent.length_of_split? hs
        simp only [List.length_cons]
        omega
    next => simp at h

/-- Reading an equals sign uses up a byte. -/
private theorem length_of_afterEquals {size : Nat} {bytes rest : List UInt8}
    (h : afterEquals size bytes = .ok rest) : rest.length < bytes.length := by
  cases bytes with
  | nil => simp [afterEquals] at h
  | cons b bytes =>
    rw [afterEquals] at h
    split at h
    next =>
      obtain rfl : bytes = rest := by simpa using h
      simp
    next => simp at h

/-- Reading an attribute uses up bytes. -/
theorem RawAttribute.length_of_next? {size : Nat} {earlier : List RawAttribute}
    {bytes rest : List UInt8} {raw : RawAttribute}
    (h : RawAttribute.next? size earlier bytes = .ok (some (raw, rest))) :
    rest.length < bytes.length := by
  have hb : (bytes.dropWhile Byte.isSpace).length ≤ _ := (List.dropWhile_suffix _).length_le
  rw [RawAttribute.next?] at h
  split at h
  next => simp at h
  next first more hf =>
    rw [hf] at hb
    simp only [List.length_cons] at hb
    cases he : afterEquals size ((more.dropWhile isKeyByte).dropWhile Byte.isSpace) with
    | error e => simp [he, bind, Except.bind] at h
    | ok afterKey =>
      have h₁ := length_of_afterEquals he
      have h₂ : ((more.dropWhile isKeyByte).dropWhile Byte.isSpace).length ≤ _ :=
        (List.dropWhile_suffix _).length_le
      have h₃ : (more.dropWhile isKeyByte).length ≤ _ := (List.dropWhile_suffix _).length_le
      have h₄ : (afterKey.dropWhile Byte.isSpace).length ≤ _ := (List.dropWhile_suffix _).length_le
      cases hq : quotedValue size (afterKey.dropWhile Byte.isSpace) with
      | error e =>
        simp only [he, hq, bind, Except.bind, throw, throwThe, MonadExceptOf.throw] at h
        split at h <;> simp at h
      | ok result =>
        have h₅ : result.2.length < (afterKey.dropWhile Byte.isSpace).length :=
          length_of_quotedValue hq
        simp only [he, hq, bind, Except.bind, throw, throwThe, MonadExceptOf.throw] at h
        split at h
        next => simp at h
        next =>
          obtain ⟨-, rfl⟩ : _ ∧ result.2 = rest := by simpa [pure, Except.pure] using h
          omega

/-- The key as text, and the value as text with its references resolved. -/
def RawAttribute.decode (raw : RawAttribute) : Except Fault (String × String) := do
  let text ← (Text.Utf8.decode raw.value).mapError .encoding
  let value ← (resolve text).mapError .entity
  return (Text.Utf8.decodeLenient raw.key, value)

/-- The attributes in the bytes that end a tag of `size` bytes, after the `earlier` ones. -/
def attributesFrom (size : Nat) (earlier : List RawAttribute) (bytes : List UInt8) :
    Except Error (List (String × String)) :=
  match _h : RawAttribute.next? size earlier bytes with
  | .error fault => .error (.attributes fault)
  | .ok none => .ok []
  | .ok (some (raw, rest)) => do
    let decoded ← raw.decode.mapError .document
    let more ← attributesFrom size (earlier ++ [raw]) rest
    return decoded :: more
termination_by bytes.length
decreasing_by exact RawAttribute.length_of_next? _h

/-- The attributes of a tag, in order. -/
def Tag.attributes (tag : Tag) : Except Error (List (String × String)) :=
  attributesFrom tag.size [] tag.remainder

end Carta.Xml
