import ProviderKit.Shell.Program.Files
import ProviderKit.Shell.Regular

/-!
# Programs that count and compute

Programs that write sequences of numbers, and the values of expressions that are given as arguments.
-/

namespace ProviderKit.Shell.Program

/-- A number with a fixed count of decimal places. -/
structure Decimal where
  places : Nat
  /-- The number in units of its last place. -/
  units : Int

namespace Decimal

/-- The number that a text denotes. -/
def ofText? (t : Text) : Option Decimal :=
  let (isNegative, t) : Bool × Text := match t with
    | .char '-' :: rest => (true, rest)
    | .char '+' :: rest => (false, rest)
    | t => (false, t)
  let (whole, rest) := t.span (·.satisfies Char.isDigit)
  let (fraction, rest) : Text × Text := match rest with
    | .char '.' :: rest => rest.span (·.satisfies Char.isDigit)
    | _ => ([], rest)
  if !rest.isEmpty || (whole.isEmpty && fraction.isEmpty) then none
  else
    let n : Int := Text.digitsValue (whole ++ fraction)
    some { places := fraction.length, units := if isNegative then -n else n }

/-- The number in units of a place that is no earlier than its own last one. -/
def unitsAt (d : Decimal) (places : Nat) : Int := d.units * Nat.pow 10 (places - d.places)

/-- A number in units of a place, as digits of which there are as many as fill a width. -/
def text (places width : Nat) (units : Int) : Text :=
  let digits := Text.ofNat units.natAbs
  let digits := List.replicate (places + 1 - digits.length) (.char '0') ++ digits
  let whole := digits.take (digits.length - places)
  let fraction : Text := if places = 0 then [] else .char '.' :: digits.drop (digits.length - places)
  let sign : Text := if units < 0 then "-" else []
  let body := whole ++ fraction
  sign ++ List.replicate (width - sign.length - body.length) (.char '0') ++ body

end Decimal

/-- Writes a sequence of numbers. -/
def seq : Utility := fun arguments => do
  let isNumber (a : Text) : Bool := (Decimal.ofText? a).isSome
  let front := arguments.takeWhile fun a => !isNumber a || !a.hasPrefix "-"
  let operands := arguments.drop front.length
  let g ← read "seq"
    { letters := "w", valued := "fst"
      names := [("separator", 's'), ("equal-width", 'w'), ("format", 'f')] } front
  let operands := g.operands ++ operands
  match operands with
  | [] => misuse "seq" {} "missing operand"
  | _ :: _ :: _ :: extra :: _ => misuse "seq" {} ("extra operand " ++ named extra)
  | operands =>
    match operands.find? fun a => !isNumber a with
    | some a => misuse "seq" {} ("invalid floating point argument: " ++ named a)
    | none =>
      let one : Decimal := { places := 0, units := 1 }
      let (first, step, last) : Decimal × Decimal × Decimal :=
        match operands.filterMap Decimal.ofText? with
        | [last] => (one, one, last)
        | [first, last] => (first, one, last)
        | first :: step :: last :: _ => (first, step, last)
        | [] => (one, one, one)
      if step.units = 0 then
        return ← misuse "seq" {} ("invalid Zero increment value: " ++ named ((operands[1]?).getD []))
      let places := max first.places step.places
      let fine := max places last.places
      let start := first.unitsAt fine
      let stride := step.unitsAt fine
      let distance := last.unitsAt fine - start
      let count : Nat := if (stride < 0) = (distance < 0) || distance = 0
        then (distance.tdiv stride).toNat + 1 else 0
      let shown (width : Nat) (n : Nat) : Text :=
        Decimal.text places width ((start + stride * n) / Nat.pow 10 (fine - places))
      let width := if g.has 'w' then max (shown 0 0).length (shown 0 (count - 1)).length else 0
      let separator := (g.value? 's').getD "\n"
      if count > 0 then
        write (Text.join separator ((List.range count).map (shown width)) ++ "\n")
      pure 0

/-- What is left of the arguments of an expression, and the last one that was read. -/
abbrev ExpressionReader := StateT (List Text × Text) Action

namespace ExpressionReader

/-- The expression is wrong. -/
def wrong {α : Type} (complaint : Text) : ExpressionReader α := stop 2 ("expr: " ++ complaint)

/-- The next argument, if it is one of several operators. -/
def operator? (operators : List String) : ExpressionReader (Option String) := do
  match ← get with
  | (t :: rest, _) =>
    if operators.contains t.toString then
      set (rest, t)
      pure (some t.toString)
    else pure none
  | ([], _) => pure none

/-- The next argument. -/
def next : ExpressionReader Text := do
  match ← get with
  | (t :: rest, _) =>
    set (rest, t)
    pure t
  | ([], last) => wrong ("syntax error: missing argument after " ++ named last)

/-- The integer that a text denotes. -/
def integer? (t : Text) : Option Int :=
  match t with
  | .char '-' :: digits => (natural? digits).map fun (n : Nat) => -(n : Int)
  | digits => (natural? digits).map Int.ofNat

/-- A text that counts as no. -/
def isNull (t : Text) : Bool := t.isEmpty || integer? t = some 0

/-- The part of a text that a regular expression asks for, or the length of what it matches. -/
def matchOf (t pattern : Text) : ExpressionReader Text := do
  match Regular.ofText {} (textChars pattern) with
  | .error fault => wrong (Text.ofString fault)
  | .ok r =>
    let subject := (textChars t).toArray
    let hasGroup := (pattern.zip (pattern.drop 1)).any fun (a, b) => a = .char '\\' && b = .char '('
    match Regular.matchAt subject (Regular.stepsFor subject) r 0 [] fun i groups => some (i, groups) with
    | none => pure (if hasGroup then [] else "0")
    | some (length, groups) =>
      if !hasGroup then return Text.ofNat length
      match groups.lookup 1 with
      | some (a, b) =>
        pure (Utf8.decodeLossless (charBytes ((subject.toList.drop a).take (b - a))))
      | none => pure []

/-- The value of an operation on integers. -/
def compute (operator : String) (a b : Text) : ExpressionReader Text := do
  match integer? a, integer? b with
  | some m, some n =>
    match operator with
    | "+" => pure (Text.ofInt (m + n))
    | "-" => pure (Text.ofInt (m - n))
    | "*" => pure (Text.ofInt (m * n))
    | _ =>
      if n = 0 then wrong "division by zero"
      else pure (Text.ofInt (if operator = "/" then m.tdiv n else m.tmod n))
  | _, _ => wrong "non-integer argument"

/-- The outcome of a comparison. -/
def compare (operator : String) (a b : Text) : Text :=
  let order : Ordering := match integer? a, integer? b with
    | some m, some n => if m < n then .lt else if m = n then .eq else .gt
    | _, _ => if a = b then .eq else if Text.le a b then .lt else .gt
  let holds : Bool := match operator, order with
    | "<", o => o = .lt
    | "<=", o => o != .gt
    | "!=", o => o != .eq
    | ">=", o => o != .lt
    | ">", o => o = .gt
    | _, o => o = .eq
  if holds then "1" else "0"

/-- The operators, from those that bind least. -/
def levels : List (List String) :=
  [["|"], ["&"], ["<", "<=", "=", "==", "!=", ">=", ">"], ["+", "-"], ["*", "/", "%"], [":"]]

/-- The value of an operation. -/
def operate (operator : String) (a b : Text) : ExpressionReader Text := do
  match operator with
  | "|" => pure (if !isNull a then a else if isNull b then "0" else b)
  | "&" => pure (if isNull a || isNull b then "0" else a)
  | ":" => matchOf a b
  | _ =>
    if ["+", "-", "*", "/", "%"].contains operator then compute operator a b
    else pure (compare operator a b)

mutual

/-- The value of an expression of a level of binding. -/
def value : Nat → Nat → ExpressionReader Text
  | 0, _ => pure []
  | fuel + 1, level => do
    match levels[level]? with
    | none => single fuel
    | some operators => further fuel level operators (← value fuel (level + 1))

/-- The value of an expression of which the first operand is known. -/
def further : Nat → Nat → List String → Text → ExpressionReader Text
  | 0, _, _, first => pure first
  | fuel + 1, level, operators, first => do
    match ← operator? operators with
    | none => pure first
    | some operator =>
      let second ← value fuel (level + 1)
      further fuel level operators (← operate operator first second)

/-- The value of a single operand. -/
def single : Nat → ExpressionReader Text
  | 0 => pure []
  | fuel + 1 => do
    match ← operator? ["(", "+", "match", "substr", "index", "length"] with
    | some "(" =>
      let t ← value fuel 0
      match ← get with
      | ([.char ')'] :: _, _) =>
        let _ ← next
        pure t
      | (other :: _, _) =>
        wrong ("syntax error: expecting ')' instead of " ++ named other)
      | ([], last) => wrong ("syntax error: expecting ')' after " ++ named last)
    | some "+" => next
    | some "match" =>
      let t ← single fuel
      matchOf t (← single fuel)
    | some "substr" =>
      let t ← single fuel
      let position ← single fuel
      let length ← single fuel
      match integer? position, integer? length with
      | some (.ofNat (p + 1)), some (.ofNat n) => pure ((t.drop p).take n)
      | _, _ => pure []
    | some "index" =>
      let t ← single fuel
      let set ← single fuel
      let before := t.takeWhile fun c => !set.contains c
      pure (if before.length = t.length then "0" else Text.ofNat (before.length + 1))
    | some "length" => pure (Text.ofNat (← single fuel).length)
    | _ => next

end

end ExpressionReader

/-- Writes the value of an expression. -/
def expr : Utility := fun arguments => do
  let arguments := if arguments.head? = some (Text.ofString "--") then arguments.drop 1 else arguments
  if arguments.isEmpty then misuse "expr" { status := 2 } "missing operand"
  let (t, rest, _) ← (ExpressionReader.value (16 * arguments.length + 32) 0).run (arguments, [])
  match rest with
  | [] =>
    writeLine t
    pure (if ExpressionReader.isNull t then 1 else 0)
  | extra :: _ => stop 2 ("expr: syntax error: unexpected argument " ++ named extra)

end ProviderKit.Shell.Program
