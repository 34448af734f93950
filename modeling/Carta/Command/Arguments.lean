import Carta.Mapfile.Options
import Carta.Path

/-!
# The command line

The words of a command line are bytes, as the paths are that are given there; a word that is asked for
a text or a number has to spell a text. Words that begin with a dash are options, a lone dash excepted, up to a word of two dashes; of the
other words there is one, the input. An option takes its value from the same word or from the next
one. A value from the next word, and the input, are checked only when the next option begins or at
the end, so a word that is no option at all is reported before a faulty value in front of it.
-/

namespace Carta.Command

open Carta.Mapfile (Units)

/-- The dash, which options begin with. -/
@[match_pattern] abbrev dash : UInt8 := 0x2D

/-- The equals sign, which divides an option from its value. -/
@[match_pattern] abbrev equals : UInt8 := 0x3D

/-- Why a command line asks for no run. -/
inductive Refusal
  | unknownArgument
  | missingRequiredArgument
  | valueValidation
  | invalidValue
  | invalidText
  | argumentConflict
  | tooManyValues
  | displayHelp
  | displayVersion
  deriving Repr, DecidableEq

/-- Whether the command line is at fault, and not a question that is answered. -/
def Refusal.isFault : Refusal → Bool
  | .displayHelp => false
  | .displayVersion => false
  | _ => true

/-- What takes a value. -/
inductive ValueKey
  | input
  | output
  | threads
  | units
  | imageType
  | name
  | width
  | height
  | minScale
  | maxScale
  | template
  | header
  | footer
  | wmsOnlineResource
  deriving Repr, DecidableEq

/-- An option without a value. -/
inductive FlagKey
  | outputFormatBlock
  | help
  | version
  deriving Repr, DecidableEq

/-- The options with a long name. -/
def longOption? : String → Option (ValueKey ⊕ FlagKey)
  | "output" => some (.inl .output)
  | "threads" => some (.inl .threads)
  | "units" => some (.inl .units)
  | "image-type" => some (.inl .imageType)
  | "name" => some (.inl .name)
  | "width" => some (.inl .width)
  | "height" => some (.inl .height)
  | "min-scale" => some (.inl .minScale)
  | "max-scale" => some (.inl .maxScale)
  | "template" => some (.inl .template)
  | "header" => some (.inl .header)
  | "footer" => some (.inl .footer)
  | "wms-online-resource" => some (.inl .wmsOnlineResource)
  | "output-format-block" => some (.inr .outputFormatBlock)
  | "help" => some (.inr .help)
  | "version" => some (.inr .version)
  | _ => none

/-- The options with a short name, which is a letter of ASCII. -/
def shortOption? : Char → Option (ValueKey ⊕ FlagKey)
  | 'o' => some (.inl .output)
  | 't' => some (.inl .threads)
  | 'h' => some (.inr .help)
  | 'V' => some (.inr .version)
  | _ => none

/-- The values that are given. -/
structure Draft where
  input : Option Path := none
  output : Option Path := none
  threads : Option Nat := none
  units : Option Units := none
  imageType : Option String := none
  name : Option String := none
  width : Option Nat := none
  height : Option Nat := none
  minScale : Option String := none
  maxScale : Option String := none
  template : Option String := none
  header : Option String := none
  footer : Option String := none
  wmsOnlineResource : Option String := none
  outputFormatBlock : Option Unit := none

/-- A value in a place that is free. -/
def once {A : Type} (place : Option A) (value : Except Refusal A) : Except Refusal (Option A) :=
  if place.isSome then .error .argumentConflict else value.map some

/-- A path, which is not empty. -/
def pathValue (word : Name) : Except Refusal Path :=
  if word.isEmpty then .error .invalidValue else .ok ⟨word⟩

/-- A text. -/
def textValue (word : Name) : Except Refusal String :=
  match word.text? with
  | some text => .ok text
  | none => .error .invalidText

/-- The number up to a limit that a text spells. -/
def numberOf (limit : Nat) (text : String) : Except Refusal Nat :=
  match Text.decimal? limit text with
  | some n => .ok n
  | none => .error .valueValidation

/-- The number of pixels, of 32 bits, that a text spells. Zero may have a minus sign. -/
def pixelsOf (text : String) : Except Refusal Nat :=
  match text.toList with
  | '-' :: digits =>
    if digits.isEmpty || digits.any (· ≠ '0') then .error .valueValidation else .ok 0
  | _ => numberOf 0xFFFFFFFF text

/-- The units that a text names. -/
def unitsOf (text : String) : Except Refusal Units :=
  match Units.ofText text with
  | .ok units => .ok units
  | .error _ => .error .valueValidation

/-- A number up to a limit. -/
def numberValue (limit : Nat) (word : Name) : Except Refusal Nat :=
  (textValue word).bind (numberOf limit)

/-- A number of pixels. -/
def pixelsValue (word : Name) : Except Refusal Nat :=
  (textValue word).bind pixelsOf

/-- Units by their name. -/
def unitsValue (word : Name) : Except Refusal Units :=
  (textValue word).bind unitsOf

namespace Draft

/-- The values with one more, which its word has to spell. -/
def put (draft : Draft) (key : ValueKey) (word : Name) : Except Refusal Draft :=
  match key with
  | .input => do return { draft with input := ← once draft.input (pathValue word) }
  | .output => do return { draft with output := ← once draft.output (pathValue word) }
  | .threads => do
    return { draft with threads := ← once draft.threads (numberValue 0xFFFFFFFFFFFFFFFF word) }
  | .units => do return { draft with units := ← once draft.units (unitsValue word) }
  | .imageType => do return { draft with imageType := ← once draft.imageType (textValue word) }
  | .name => do return { draft with name := ← once draft.name (textValue word) }
  | .width => do return { draft with width := ← once draft.width (pixelsValue word) }
  | .height => do return { draft with height := ← once draft.height (pixelsValue word) }
  | .minScale => do return { draft with minScale := ← once draft.minScale (textValue word) }
  | .maxScale => do return { draft with maxScale := ← once draft.maxScale (textValue word) }
  | .template => do return { draft with template := ← once draft.template (textValue word) }
  | .header => do return { draft with header := ← once draft.header (textValue word) }
  | .footer => do return { draft with footer := ← once draft.footer (textValue word) }
  | .wmsOnlineResource => do
    return { draft with wmsOnlineResource := ← once draft.wmsOnlineResource (textValue word) }

/-- The values with a flag, or what the flag asks for. -/
def putFlag (draft : Draft) : FlagKey → Except Refusal Draft
  | .outputFormatBlock => do
    return { draft with outputFormatBlock := ← once draft.outputFormatBlock (.ok ()) }
  | .help => .error .displayHelp
  | .version => .error .displayVersion

end Draft

/-- A key whose value is not checked yet. An option may still wait for its value. -/
structure PendingValue where
  key : ValueKey
  word : Option Name

/-- The state of reading a command line. -/
structure Reading where
  draft : Draft := {}
  pending : Option PendingValue := none
  /-- Whether the input is read. -/
  inputSeen : Bool := false
  /-- Whether two dashes are read, after which no word is an option. -/
  optionsOver : Bool := false

namespace Reading

/-- Checks the value that is not checked yet. -/
def settle (reading : Reading) : Except Refusal Reading :=
  match reading.pending with
  | none => .ok reading
  | some ⟨_, none⟩ => .error .invalidValue
  | some ⟨key, some word⟩ => do
    let draft ← reading.draft.put key word
    return { reading with draft, pending := none }

/-- Begins an option that waits for its value. -/
def await (reading : Reading) (key : ValueKey) : Except Refusal Reading := do
  let reading ← reading.settle
  return { reading with pending := some ⟨key, none⟩ }

/-- Takes an option with its value from the same word. -/
def attach (reading : Reading) (key : ValueKey) (word : Name) : Except Refusal Reading := do
  let reading ← reading.settle
  let draft ← reading.draft.put key word
  return { reading with draft }

/-- Takes an option without a value. -/
def flag (reading : Reading) (key : FlagKey) : Except Refusal Reading := do
  let reading ← reading.settle
  let draft ← reading.draft.putFlag key
  return { reading with draft }

/-- Takes a word that is no option. -/
def positional (reading : Reading) (word : Name) : Except Refusal Reading :=
  if reading.inputSeen then .error .unknownArgument
  else do
    let reading ← reading.settle
    return { reading with pending := some ⟨.input, some word⟩, inputSeen := true }

/-- Takes a word without a dash: the value that an option waits for, or the input. -/
def value (reading : Reading) (word : Name) : Except Refusal Reading :=
  match reading.pending with
  | some ⟨key, none⟩ => .ok { reading with pending := some ⟨key, some word⟩ }
  | _ => reading.positional word

/-- Takes a long option: its name, and its value after an equals sign. -/
def long (reading : Reading) (body : Name) : Except Refusal Reading :=
  let name := body.takeWhile (· ≠ equals)
  let attached : Option Name :=
    match body.dropWhile (· ≠ equals) with
    | _ :: word => some word
    | [] => none
  match (Name.text? name).bind longOption?, attached with
  | none, _ => .error .unknownArgument
  | some (.inl key), some word => reading.attach key word
  | some (.inl key), none => reading.await key
  | some (.inr _), some _ => .error .tooManyValues
  | some (.inr key), none => reading.flag key

/-- Takes a short option: its letter, and its value, which an equals sign may precede. -/
def short (reading : Reading) (letter : UInt8) (rest : Name) : Except Refusal Reading :=
  match shortOption? (Char.ofNat letter.toNat), rest with
  | none, _ => .error .unknownArgument
  | some (.inr key), _ => reading.flag key
  | some (.inl key), [] => reading.await key
  | some (.inl key), equals :: word => reading.attach key word
  | some (.inl key), word => reading.attach key word

/-- Takes one word. -/
def take (reading : Reading) (word : Name) : Except Refusal Reading :=
  if reading.optionsOver then reading.positional word
  else
    match word with
    | [dash, dash] => .ok { reading with optionsOver := true }
    | dash :: dash :: body => reading.long body
    | dash :: letter :: rest => reading.short letter rest
    | _ => reading.value word

/-- Takes all words. -/
def takeAll (reading : Reading) : List Name → Except Refusal Reading
  | [] => reading.settle
  | word :: rest => do (← reading.take word).takeAll rest

end Reading

/-- What a run is asked for. -/
structure Arguments where
  input : Path
  output : Path
  threads : Option Nat
  units : Units
  imageType : String
  name : Option String
  width : Nat
  height : Nat
  minScale : Option String
  maxScale : Option String
  template : Option String
  header : Option String
  footer : Option String
  wmsOnlineResource : Option String
  outputFormatBlock : Bool

namespace Arguments

/-- The arguments in a draft. Input and output are required, all else has a default. -/
def ofDraft (draft : Draft) : Except Refusal Arguments :=
  let defaults : Mapfile.Options := {}
  match draft.input, draft.output with
  | some input, some output =>
    .ok {
      input, output
      threads := draft.threads
      units := draft.units.getD defaults.units
      imageType := draft.imageType.getD defaults.imageType
      name := draft.name
      width := draft.width.getD defaults.width
      height := draft.height.getD defaults.height
      minScale := draft.minScale
      maxScale := draft.maxScale
      template := draft.template
      header := draft.header
      footer := draft.footer
      wmsOnlineResource := draft.wmsOnlineResource
      outputFormatBlock := draft.outputFormatBlock.isSome }
  | _, _ => .error .missingRequiredArgument

/-- The arguments that words spell. -/
def ofWords (words : List Name) : Except Refusal Arguments := do
  let reading ← ({} : Reading).takeAll words
  ofDraft reading.draft

/-- The options for a project: its map is named after its file, unless a name is given or the file
is not called by a text. -/
def optionsFor (arguments : Arguments) (project : Path) : Mapfile.Options :=
  let defaults : Mapfile.Options := {}
  { defaults with
    mapName := (arguments.name.or (project.fileStem?.bind Name.text?)).getD defaults.mapName
    units := arguments.units
    imageType := arguments.imageType
    width := arguments.width
    height := arguments.height
    minScale := arguments.minScale
    maxScale := arguments.maxScale
    template := arguments.template
    header := arguments.header
    footer := arguments.footer
    wmsOnlineResource := arguments.wmsOnlineResource.getD defaults.wmsOnlineResource
    outputFormatBlock := arguments.outputFormatBlock }

end Arguments

end Carta.Command
