import ProviderKit.Yaml.Cursor

/-!
# Tags of plain scalars

A plain scalar has a type by its form: a truth value, a number, a point in time, the null value, a
merge mark, a default mark, or else text. Each form is a small grammar; `Tag.ofPlain` tries them.
A line end at the very end of a scalar does not count.
-/

namespace ProviderKit.Yaml

/-- The leader that the short handle `!!` stands for. -/
def coreLeader : Text := "tag:yaml.org,2002:"

/-- The full name of a core tag. -/
def coreTag (name : String) : Text := coreLeader ++ Text.ofString name

namespace Form

/-- The scalar without a plus or minus sign at its beginning. -/
def dropSign : List Char → List Char
  | '+' :: cs | '-' :: cs => cs
  | cs => cs

/-- A digit or an underscore. -/
def isGrouped (c : Char) : Bool := c.isDigit || c = '_'

/-- The scalar is one of the words for a truth value, in lower or upper case or capitalised. -/
def isBool (cs : List Char) : Bool :=
  ["yes", "Yes", "YES", "no", "No", "NO", "true", "True", "TRUE", "false", "False", "FALSE",
    "on", "On", "ON", "off", "Off", "OFF"].any fun w => w.toList == cs

/-- The scalar is empty or one of the words for null. -/
def isNull (cs : List Char) : Bool :=
  ["", "~", "null", "Null", "NULL"].any fun w => w.toList == cs

/-- What follows one or more groups of a colon and a number below sixty; nothing if there is no
such group. -/
def afterSixties : Nat → List Char → Option (List Char)
  | 0, _ => none
  | fuel + 1, cs =>
    let again (rest : List Char) := (afterSixties fuel rest).or (some rest)
    match cs with
    | ':' :: a :: b :: rest =>
      if a.isDigit && a ≤ '5' && b.isDigit then again rest
      else if a.isDigit then again (b :: rest)
      else none
    | [':', a] => if a.isDigit then some [] else none
    | _ => none

/-- Whole numbers: binary, octal, decimal, hexadecimal, and in base sixty with colons. -/
def isInt (cs : List Char) : Bool :=
  match dropSign cs with
  | ['0'] => true
  | '0' :: 'b' :: ds => !ds.isEmpty && ds.all fun c => c = '0' || c = '1' || c = '_'
  | '0' :: 'x' :: ds => !ds.isEmpty && ds.all fun c => isHex c || c = '_'
  | '0' :: ds => ds.all fun c => ('0' ≤ c && c ≤ '7') || c = '_'
  | c :: ds =>
    c.isDigit &&
      (let rest := ds.dropWhile isGrouped
       rest.isEmpty || afterSixties cs.length rest == some [])
  | [] => false

/-- Nothing, or an exponent with a sign. -/
def isExponent : List Char → Bool
  | [] => true
  | e :: s :: ds =>
    (e = 'e' || e = 'E') && (s = '+' || s = '-') && !ds.isEmpty && ds.all Char.isDigit
  | _ => false

/-- Numbers with a point, infinities, and not a number. An exponent needs a sign. -/
def isFloat (cs : List Char) : Bool :=
  let unsigned := dropSign cs
  match unsigned with
  | '.' :: rest =>
    ["inf", "Inf", "INF"].any (fun w => w.toList == rest) ||
      (cs.head? = some '.' &&
        (["nan", "NaN", "NAN"].any (fun w => w.toList == rest) ||
          (match rest with
            | d :: ds => d.isDigit && isExponent (ds.dropWhile isGrouped)
            | [] => false)))
  | d :: ds =>
    d.isDigit &&
      (let rest := ds.dropWhile isGrouped
       match rest with
       | '.' :: tail => isExponent (tail.dropWhile isGrouped)
       | _ =>
         match afterSixties cs.length rest with
         | some ('.' :: tail) => tail.all isGrouped
         | _ => false)
  | [] => false

/-- The parts of a point in time as they are written. -/
structure Moment where
  year : List Char
  month : List Char
  day : List Char
  /-- Hour, minute, second and fraction of a second. -/
  time : Option (List Char × List Char × List Char × List Char)
  /-- The sign, hours and minutes of an offset; a `Z` has none of them. -/
  zone : Option (Option (Char × List Char × List Char))

/-- One or two digits at the beginning, and what follows them. -/
def shortNumber : List Char → Option (List Char × List Char)
  | a :: b :: rest =>
    if a.isDigit && b.isDigit then some ([a, b], rest)
    else if a.isDigit then some ([a], b :: rest) else none
  | [a] => if a.isDigit then some ([a], []) else none
  | [] => none

/-- Two digits at the beginning, and what follows them. -/
def pairOfDigits : List Char → Option (List Char × List Char)
  | a :: b :: rest => if a.isDigit && b.isDigit then some ([a, b], rest) else none
  | _ => none

/-- What follows a given character at the beginning. -/
def after (c : Char) : List Char → Option (List Char)
  | d :: rest => if d = c then some rest else none
  | [] => none

/-- A zone at the end: nothing, a `Z`, or an offset in hours and perhaps minutes. -/
def zoneOf (cs : List Char) : Option (Option (Option (Char × List Char × List Char))) :=
  match cs with
  | [] => some none
  | _ =>
    match cs.dropWhile fun c => c = ' ' || c = '\t' with
    | ['Z'] => some (some none)
    | sign :: rest =>
      if sign = '+' || sign = '-' then
        match shortNumber rest with
        | some (hours, []) => some (some (some (sign, hours, [])))
        | some (hours, ':' :: tail) =>
          match pairOfDigits tail with
          | some (minutes, []) => some (some (some (sign, hours, minutes)))
          | _ => none
        | _ => none
      else none
    | [] => none

/-- The parts of a date, or of a date and a time with perhaps a zone. -/
def moment? (cs : List Char) : Option Moment := do
  let year := cs.take 4
  guard (year.length = 4 && year.all Char.isDigit)
  let rest ← after '-' (cs.drop 4)
  let (month, rest) ← shortNumber rest
  let rest ← after '-' rest
  let (day, rest) ← shortNumber rest
  match rest with
  | [] => some ⟨year, month, day, none, none⟩
  | c :: tail =>
    let rest ←
      if c = 'T' || c = 't' then some tail
      else if c = ' ' || c = '\t' then some (tail.dropWhile fun c => c = ' ' || c = '\t')
      else none
    let (hour, rest) ← shortNumber rest
    let rest ← after ':' rest
    let (minute, rest) ← pairOfDigits rest
    let rest ← after ':' rest
    let (second, rest) ← pairOfDigits rest
    let (fraction, rest) := match rest with
      | '.' :: tail => (tail.takeWhile Char.isDigit, tail.dropWhile Char.isDigit)
      | _ => ([], rest)
    let zone ← zoneOf rest
    some ⟨year, month, day, some (hour, minute, second, fraction), zone⟩

/-- A point in time in the form that needs no tag: a date alone has two digits for month and day. -/
def isTimestamp (cs : List Char) : Bool :=
  match moment? cs with
  | none => false
  | some m => m.time.isSome || (m.month.length = 2 && m.day.length = 2)

/-- The scalar without a line end at its very end. -/
def dropFinalBreak (cs : List Char) : List Char :=
  if cs.getLast? = some '\n' then cs.dropLast else cs

end Form

/-- The tag of a plain scalar. -/
def Tag.ofPlain (content : Text) : Text :=
  match content.toChars? with
  | none => coreTag "str"
  | some cs =>
    let cs := Form.dropFinalBreak cs
    if content.isEmpty then coreTag "null"
    else if Form.isBool cs then coreTag "bool"
    else if Form.isFloat cs then coreTag "float"
    else if Form.isInt cs then coreTag "int"
    else if cs = "<<".toList then coreTag "merge"
    else if !cs.isEmpty && Form.isNull cs then coreTag "null"
    else if Form.isTimestamp cs then coreTag "timestamp"
    else if cs = ['='] then coreTag "value"
    else if cs = ['!'] || cs = ['&'] || cs = ['*'] then coreTag "yaml"
    else coreTag "str"

end ProviderKit.Yaml
