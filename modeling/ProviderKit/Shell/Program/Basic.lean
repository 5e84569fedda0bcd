import ProviderKit.Text.Lossless
import ProviderKit.Shell.Redirect

/-!
# Programs of the machine

A program does something with its arguments and its streams and ends with a status. Its arguments
are options, which start with a dash, and operands; two dashes alone end the options.

A program shows the name of a file so that a shell reads it again as the same name. Plain names may
stand as they are; any other name stands in single quotes, in double ones where it holds a single
quote and nothing that they do not protect, and its bytes outside printable ASCII are escaped.
-/

namespace ProviderKit.Shell

/-! ## Names as programs show them -/

namespace Shown

/-- A byte stands for itself. -/
def isPlain (b : UInt8) : Bool := 0x20 ≤ b && b < 0x7F

/-- A character that a shell takes for something else outside quotes, wherever it stands. -/
def isSpecial (c : Char) : Bool := " !\"$&'()*;<=>?[\\^|".toList.contains c || c.toNat = 0x60

/-- A name that a shell reads as it stands. -/
def isSafe (bytes : Bytes) : Bool :=
  match bytes.map fun b => Char.ofNat b.toNat with
  | [] => false
  | ['\x7b'] | ['\x7d'] => false
  | c :: rest => c != '#' && c != '~' && bytes.all isPlain && (c :: rest).all (!isSpecial ·)

/-- Double quotes protect every byte of a name. -/
def isMild (bytes : Bytes) : Bool :=
  bytes.length > 1 && bytes.all fun b =>
    let c := Char.ofNat b.toNat
    c.isAlphanum || "%+,-./:]_ '\x7b\x7d".toList.contains c

/-- The escape of a byte that does not stand for itself. -/
def escape (b : UInt8) : Text :=
  match b.toNat with
  | 7 => "\\a"
  | 8 => "\\b"
  | 9 => "\\t"
  | 10 => "\\n"
  | 11 => "\\v"
  | 12 => "\\f"
  | 13 => "\\r"
  | n => .char '\\' :: Text.ofNat (n / 64) ++ Text.ofNat (n / 8 % 8) ++ Text.ofNat (n % 8)

/-- Bytes between single quotes; `escaping` says that the quotes are those of escapes. -/
def inQuotes (escaping : Bool) : Bytes → Text
  | [] => []
  | b :: rest =>
    if !isPlain b then
      let opening : Text := if escaping then [] else "'$'"
      opening ++ escape b ++ inQuotes true rest
    else
      let closing : Text := if escaping then "''" else []
      if b = 0x27 then closing ++ "'\\''" ++ inQuotes false rest
      else closing ++ .char (Char.ofNat b.toNat) :: inQuotes false rest

/-- A name in quotes. -/
def quoted (t : Text) : Text :=
  let bytes := Utf8.encodeLossless t
  if bytes.contains 0x27 && isMild bytes then "\"" ++ t ++ "\""
  else "'" ++ inQuotes false bytes ++ "'"

/-- A name, in quotes if it needs them. -/
def plain (t : Text) : Text := if isSafe (Utf8.encodeLossless t) then t else quoted t

end Shown

/-! ## Arguments and streams -/

/-- The options and the operands that a program is given. -/
structure Given where
  /-- The letters of the options, each with its value, which may be empty. -/
  options : List (Char × Text) := []
  operands : List Text := []

namespace Given

/-- An option is given. -/
def has (g : Given) (letter : Char) : Bool := g.options.any (·.1 = letter)

/-- The value that an option was given last. -/
def value? (g : Given) (letter : Char) : Option Text :=
  (g.options.reverse.find? (·.1 = letter)).map (·.2)

/-- The values that an option was given. -/
def values (g : Given) (letter : Char) : List Text :=
  g.options.filterMap fun (c, value) => if c = letter then some value else none

/-- With an operand in front. -/
def withOperand (g : Given) (operand : Text) : Given :=
  { g with operands := operand :: g.operands }

end Given

/-- The options that a program knows. -/
structure Known where
  /-- The letters of options without a value. -/
  letters : String := ""
  /-- The letters of options with a value. -/
  valued : String := ""
  /-- Long names of options. -/
  names : List (String × Char) := []
  /-- The first operand ends the options. -/
  strict : Bool := false
  /-- The status of a program that is given something else. -/
  status : Nat := 1

namespace Program

/-- Ends a program with a complaint. -/
def stop {α : Type} (status : Nat) (complaint : Text) : Action α := do
  complain complaint
  throw (.exit status)

/-- Ends a program that is given an option it does not know. -/
def misuse {α : Type} (name : String) (known : Known) (complaint : Text) : Action α :=
  stop known.status (Text.ofString name ++ ": " ++ complaint ++ "\nTry '" ++
    Text.ofString name ++ " --help' for more information.")

/-- What the letters of an argument give: their options, and the letter that still needs a value. -/
def readLetters (name : String) (known : Known) :
    Text → Action (List (Char × Text) × Option Char)
  | [] => pure ([], none)
  | .surrogate _ :: _ => misuse name known "invalid option -- '?'"
  | .char c :: rest => do
    if known.valued.toList.contains c then
      pure (if rest.isEmpty then ([], some c) else ([(c, rest)], none))
    else if known.letters.toList.contains c then
      let (options, pending) ← readLetters name known rest
      pure ((c, []) :: options, pending)
    else misuse name known ("invalid option -- '" ++ Text.ofChars [c] ++ "'")

/-- The letter and the value of a long option, or the letter that still needs a value. -/
def readName (name : String) (known : Known) (argument : Text) :
    Action (List (Char × Text) × Option Char) := do
  let (long, value?) := Text.cut (.char '=') (argument.drop 2)
  match known.names.find? fun (known, _) => Text.ofString known = long with
  | none => misuse name known ("unrecognized option '" ++ argument ++ "'")
  | some (_, c) =>
    match known.valued.toList.contains c, value? with
    | true, none => pure ([], some c)
    | _, value? => pure ([(c, value?.getD [])], none)

/-- The options and operands among arguments. -/
def read (name : String) (known : Known) : List Text → Action Given
  | [] => pure {}
  | argument :: rest => do
    if argument = Text.ofString "--" then return { operands := rest }
    if !argument.hasPrefix "-" || argument.length < 2 then
      if known.strict then return { operands := argument :: rest }
      return (← read name known rest).withOperand argument
    let (options, pending) ←
      if argument.hasPrefix "--" then readName name known argument
      else readLetters name known (argument.drop 1)
    match pending, rest with
    | none, rest =>
      let g ← read name known rest
      pure { g with options := options ++ g.options }
    | some c, value :: rest =>
      let g ← read name known rest
      pure { g with options := options ++ (c, value) :: g.options }
    | some c, [] => 
      misuse name known ("option requires an argument -- '" ++ Text.ofChars [c] ++ "'")

/-- Why a request to the disk was refused, in words. -/
def reasonText : Disk.Fault → Text
  | .refused reason _ => Text.ofString reason.message
  | fault => fault.message

/-- The bytes of a file, or why they cannot be read. A dash stands for the input. -/
def contentOf (operand : Text) : Action (Except Disk.Fault Bytes) := do
  let s ← get
  let path := pathOf s operand
  if operand = Text.ofString "-" then return .ok (← takeInput)
  match Device.at? path with
  | some .null => pure (.ok [])
  | some .zero => throw .outOfTime
  | some (.stream n) => pure (.ok (s.unread n))
  | none =>
    if operand.isEmpty then return .error (.refused .missing path)
    match s.disk.read path with
    | .ok content =>
      if operand.getLast? = some (.char '/') then pure (.error (.refused .notDirectory path))
      else pure (.ok content.data)
    | .error fault => pure (.error fault)

/-- Lines with their ends; the last one may have none. -/
def cutLines : Bytes → List Bytes
  | [] => []
  | byte :: rest =>
    if byte = 10 then [10] :: cutLines rest
    else match cutLines rest with
      | [] => [[byte]]
      | line :: lines => (byte :: line) :: lines

/-- A line without its end. -/
def withoutEnd (line : Bytes) : Bytes :=
  if line.getLast? = some 10 then line.dropLast else line

/-- Writes a line. -/
def writeLine (t : Text) : Action Unit := write (t ++ "\n")

/-- The contents of the operands, or of the input if there are none, for what is to be done with
each of them; those that cannot be read are told by what is said about them. Gives the status. -/
def forInputs (operands : List Text) (complaint : Text → Disk.Fault → Text)
    (action : Text → Bytes → Action Unit) : Action Nat := do
  let mut status := 0
  for operand in (if operands.isEmpty then [Text.ofString "-"] else operands) do
    match ← contentOf operand with
    | .ok bytes => action operand bytes
    | .error fault =>
      complain (complaint operand fault)
      status := 1
  pure status

/-- The usual complaint about a file. -/
def plainComplaint (name : String) (operand : Text) (fault : Disk.Fault) : Text :=
  Text.ofString name ++ ": " ++ Shown.plain operand ++ ": " ++ reasonText fault

/-- A number that is not negative. -/
def natural? (t : Text) : Option Nat :=
  if Control.isNumeral t then some (Text.digitsValue t) else none

end Program

end ProviderKit.Shell
