import ProviderKit.Shell.Arithmetic
import ProviderKit.Text.Lossless
import ProviderKit.Number.Rounded

/-!
# Formats

A format is a text in which directions that start with a percent sign take arguments in turn. It is
used again as long as arguments are left, and missing arguments are empty. An argument that is not
the number it should be is complained about, and the number at its beginning is taken.

A backslash and the characters after it can stand for one byte. An escape without a meaning stands
for itself, and one of them ends all output.
-/

namespace ProviderKit.Shell

/-! ## Escapes -/

/-- The byte that a letter behind a backslash stands for. -/
def escapedByte? (c : CodePoint) : Option UInt8 :=
  match c with
  | .char 'a' => some 7
  | .char 'b' => some 8
  | .char 'e' => some 27
  | .char 'f' => some 12
  | .char 'n' => some 10
  | .char 'r' => some 13
  | .char 't' => some 9
  | .char 'v' => some 11
  | .char '\\' => some 92
  | _ => none

/-- An octal digit. -/
def isOctal (c : CodePoint) : Bool := c.satisfies fun c => '0' ≤ c && c ≤ '7'

/-- The byte of at most three octal digits, and what follows them. -/
def octalByte (t : Text) : UInt8 × Text :=
  let digits := (t.take 3).takeWhile isOctal
  (UInt8.ofNat (Arithmetic.digitsValue 8 digits), t.drop digits.length)

/-- The bytes of one escape, after its backslash, and what follows it. -/
def readEscape (t : Text) : Bytes × Text :=
  match t with
  | [] => ([92], [])
  | c :: rest =>
    match escapedByte? c with
    | some byte => ([byte], rest)
    | none =>
      if isOctal c then
        let (byte, rest) := octalByte t
        ([byte], rest)
      else ([92], t)

/-- The bytes of a text with escapes, and whether an escape ends all output. An octal number may
have a further zero in front. -/
def unescape : Nat → Text → Bytes × Bool
  | 0, _ | _, [] => ([], false)
  | fuel + 1, .char '\\' :: t =>
    match t with
    | .char 'c' :: _ => ([], true)
    | .char '0' :: c :: rest =>
      let (byte, t) := if isOctal c then octalByte (c :: rest) else (0, c :: rest)
      let (bytes, ended) := unescape fuel t
      (byte :: bytes, ended)
    | t =>
      let (first, t) := readEscape t
      let (bytes, ended) := unescape fuel t
      (first ++ bytes, ended)
  | fuel + 1, c :: t =>
    let (bytes, ended) := unescape fuel t
    (Utf8.codePointBytes c ++ bytes, ended)

/-! ## Directions -/

/-- How a direction of a format wants its argument shown. -/
structure Layout where
  left : Bool := false
  plus : Bool := false
  space : Bool := false
  alternate : Bool := false
  zeros : Bool := false
  width : Nat := 0
  precision : Option Nat := none

namespace Layout

/-- The layout with a field of a width; a negative one asks for the left side. -/
def withWidth (layout : Layout) (width : Int) : Layout :=
  { layout with width := width.natAbs, left := layout.left || width < 0 }

/-- The sign of a number. -/
def sign (layout : Layout) (negative : Bool) : List Char :=
  if negative then ['-'] else if layout.plus then ['+'] else if layout.space then [' '] else []

/-- Bytes in the field. -/
def pad (layout : Layout) (bytes : Bytes) : Bytes :=
  let fill : Bytes := List.replicate (layout.width - bytes.length) 32
  if layout.left then bytes ++ fill else fill ++ bytes

/-- A number in the field, whose sign or mark stands before zeros that fill it. -/
def padNumber (layout : Layout) (zeros : Bool) (front digits : List Char) : Bytes :=
  let missing := layout.width - front.length - digits.length
  let fill := if zeros && !layout.left then List.replicate missing '0' else []
  layout.pad (Utf8.encodeLossless (.ofChars (front ++ fill ++ digits)))

/-- An integer in the field. -/
def integer (layout : Layout) (negative : Bool) (front digits : List Char) : Bytes :=
  let digits := if layout.precision = some 0 && digits = ['0'] then [] else digits
  let digits := Binary64.padZeros (layout.precision.getD 0) digits
  layout.padNumber (layout.zeros && layout.precision.isNone) (layout.sign negative ++ front) digits

/-- A signed integer in the field. -/
def signed (layout : Layout) (n : Int) : Bytes :=
  layout.integer (n < 0) [] (Nat.toDigits 10 n.natAbs)

/-- A natural number of a base in the field. -/
def unsigned (layout : Layout) (direction : Char) (n : Nat) : Bytes :=
  let layout := { layout with plus := false, space := false }
  match direction with
  | 'o' =>
    let digits := Nat.toDigits 8 n
    layout.integer false []
      (if layout.alternate && n != 0 && (layout.precision.getD 0) ≤ digits.length then
        '0' :: digits else digits)
  | 'x' =>
    layout.integer false (if layout.alternate && n != 0 then ['0', 'x'] else [])
      (Nat.toDigits 16 n)
  | 'X' =>
    layout.integer false (if layout.alternate && n != 0 then ['0', 'X'] else [])
      ((Nat.toDigits 16 n).map Char.toUpper)
  | _ => layout.integer false [] (Nat.toDigits 10 n)

/-- A number in the field, as one of the letters `e`, `f` and `g` says. -/
def real (layout : Layout) (direction : Char) (x : Binary64) : Bytes :=
  let cased (cs : List Char) : List Char := if direction.isUpper then cs.map Char.toUpper else cs
  match x with
  | .finite negative mantissa exponent =>
    let (num, den) := Binary64.toFraction mantissa exponent
    let size := layout.precision.getD 6
    let cs := match direction.toLower with
      | 'f' => Binary64.fixedText layout.alternate size num den
      | 'e' => Binary64.scientificText layout.alternate size num den
      | _ => Binary64.generalText layout.alternate size num den
    layout.padNumber layout.zeros (layout.sign negative) (cased cs)
  | .infinity negative => layout.padNumber false (layout.sign negative) (cased "inf".toList)
  | .nan => layout.padNumber false (layout.sign false) (cased "nan".toList)

end Layout

/-- What writing by a format has come to. -/
structure Printing where
  /-- The arguments that are left. -/
  arguments : List Text
  /-- Some argument was taken. -/
  taken : Bool := false
  /-- The bytes written, the last ones first. -/
  pieces : List Bytes := []
  /-- The complaints about arguments, the last one first. -/
  complaints : List Text := []

/-- What ends the writing before the end of a format. -/
inductive PrintStop where
  | quiet
  | wrong (complaint : Text)

/-- Writing by a format. -/
abbrev Printer := ExceptT PrintStop (StateM Printing)

namespace Printer

/-- Writes bytes. -/
def emit (bytes : Bytes) : Printer Unit := modify fun p => { p with pieces := bytes :: p.pieces }

/-- The next argument. -/
def argument? : Printer (Option Text) := do
  match (← get).arguments with
  | [] => pure none
  | t :: rest =>
    modify fun p => { p with arguments := rest, taken := true }
    pure (some t)

/-- Complains about what follows the number in an argument. -/
def check (t : Text) (found : Bool) (rest : Text) (outside : Bool) : Printer Unit := do
  let complain (complaint : Text) : Printer Unit :=
    modify fun p => { p with complaints := (t ++ ": " ++ complaint) :: p.complaints }
  if !found && !t.isEmpty then complain "expected numeric value"
  else if !rest.isEmpty then complain "not completely converted"
  else if outside then complain "Numerical result out of range"

/-- The number of the character that a quote in front of an argument asks for. -/
def quotedCharacter? (t : Text) : Option Nat :=
  match t with
  | .char '\x27' :: rest | .char '"' :: rest =>
    some ((rest.head?.map fun c => ((Utf8.codePointBytes c).headD 0).toNat).getD 0)
  | _ => none

/-- The next argument as an integer between two bounds. -/
def integer (least greatest : Int) : Printer Int := do
  match ← argument? with
  | none => pure 0
  | some t =>
    match quotedCharacter? t with
    | some n => pure n
    | none =>
      let found? := Arithmetic.takeInteger true t
      let (n, rest) := found?.getD (0, t)
      check t found?.isSome rest (n < least || greatest < n)
      pure (max least (min n greatest))

/-- The next argument as an integer with a sign. -/
def signed : Printer Int := integer (-Arithmetic.largest - 1) Arithmetic.largest

/-- The next argument as an integer without a sign; a negative one counts down from the end. -/
def unsigned : Printer Nat := do
  let n ← integer (-(Nat.pow 2 64 - 1)) (Nat.pow 2 64 - 1)
  pure (n % Nat.pow 2 64).toNat

/-- The next argument as a number. -/
def real : Printer Binary64 := do
  match ← argument? with
  | none => pure (.zero false)
  | some t =>
    match quotedCharacter? t with
    | some n => pure (.ofInt n)
    | none =>
      let found? := Binary64.takeNumber t
      let (x, rest) := found?.getD (.zero false, t)
      let digits := t.any fun c => c.satisfies fun c => '1' ≤ c && c ≤ '9'
      let outside := match x with
        | .infinity _ => digits
        | x => x.isSubnormal && digits
      check t found?.isSome rest outside
      pure x

/-- The width or the precision at the beginning of a text, which may be an argument, and what
follows it. -/
def takeSize (t : Text) : Printer (Option Int × Text) := do
  match t with
  | .char '*' :: rest => pure (some (← signed), rest)
  | t =>
    let (digits, rest) := t.span (·.satisfies Char.isDigit)
    pure (if digits.isEmpty then none else some (Text.digitsValue digits), rest)

/-- Writes the next argument by a direction whose text is given. -/
def direct (layout : Layout) (direction : Char) (whole : Text) : Printer Unit := do
  match direction with
  | 's' =>
    let bytes := Utf8.encodeLossless ((← argument?).getD [])
    emit (layout.pad ((layout.precision.map bytes.take).getD bytes))
  | 'b' =>
    let t := (← argument?).getD []
    let (bytes, ended) := unescape t.length t
    emit (layout.pad ((layout.precision.map bytes.take).getD bytes))
    if ended then throw .quiet
  | 'c' =>
    let bytes := Utf8.encodeLossless ((← argument?).getD [])
    emit (layout.pad [bytes.headD 0])
  | 'd' | 'i' => emit (layout.signed (← signed))
  | 'o' | 'u' | 'x' | 'X' => emit (layout.unsigned direction (← unsigned))
  | 'e' | 'E' | 'f' | 'F' | 'g' | 'G' => emit (layout.real direction (← real))
  | _ => throw (.wrong (whole ++ ": invalid directive"))

/-- Writes by a direction at the beginning of a text, after its percent sign, and gives what follows
it. -/
def takeDirection (t : Text) : Printer Text := do
  let (flags, rest) := t.span fun c => c.satisfies fun c => "-+ #0\x27".toList.contains c
  let has (c : Char) : Bool := flags.contains (.char c)
  let (width?, rest) ← takeSize rest
  let (precision?, rest) ← match rest with
    | .char '.' :: rest => do
      let (precision?, rest) ← takeSize rest
      pure (some (precision?.getD 0), rest)
    | _ => pure (none, rest)
  let layout : Layout :=
    { left := has '-', plus := has '+', space := has ' ', alternate := has '#', zeros := has '0'
      precision := precision?.bind fun n => if n < 0 then none else some n.toNat }
  match rest with
  | [] => throw (.wrong "missing format character")
  | c :: rest =>
    let whole : Text := .char '%' :: t.take (t.length - rest.length)
    let direction : Char := match c with
      | .char c => c
      | .surrogate _ => '?'
    direct (layout.withWidth (width?.getD 0)) direction whole
    pure rest

/-- Writes by a format once. -/
def once : Nat → Text → Printer Unit
  | 0, _ | _, [] => pure ()
  | fuel + 1, .char '\\' :: t => do
    let (bytes, t) := readEscape t
    emit bytes
    once fuel t
  | fuel + 1, .char '%' :: .char '%' :: t => do
    emit [37]
    once fuel t
  | fuel + 1, .char '%' :: t => do once fuel (← takeDirection t)
  | fuel + 1, c :: t => do
    emit (Utf8.codePointBytes c)
    once fuel t

/-- Writes by a format as often as arguments are left. A format that takes none is used once. -/
def again (pattern : Text) : Nat → Printer Unit
  | 0 => pure ()
  | fuel + 1 => do
    once pattern.length pattern
    let p ← get
    if p.taken && !p.arguments.isEmpty then again pattern fuel

end Printer

/-- What writing arguments by a format comes to. -/
structure Printed where
  bytes : Bytes
  /-- The complaints about arguments, in order. -/
  complaints : List Text
  /-- The complaint that ended the writing. -/
  fault : Option Text

/-- Writes arguments by a format. -/
def Printed.ofFormat (pattern : Text) (arguments : List Text) : Printed :=
  let (outcome, p) := (Printer.again pattern (arguments.length + 1)).run.run { arguments }
  { bytes := p.pieces.reverse.flatten
    complaints := p.complaints.reverse
    fault := match outcome with
      | .error (.wrong complaint) => some complaint
      | .error .quiet | .ok () => none }

end ProviderKit.Shell
