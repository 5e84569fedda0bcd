import ProviderKit.Number.Numeral

/-!
# Integer expressions

An expression is made of integers, variables, parentheses and the operators of the tables below. Its
value has 64 bits, and a sum that has more wraps around. An assignment gives a variable a value, and
what does not count for the result is read but not done.
-/

namespace ProviderKit.Shell.Arithmetic

/-- The value with 64 bits. -/
def wrap (n : Int) : Int := n.bmod (Nat.pow 2 64)

/-- The largest value, and the smallest. -/
def largest : Int := Nat.pow 2 63 - 1

/-- A value between the smallest one and the largest. -/
def clamp (n : Int) : Int := max (-largest - 1) (min n largest)

/-- The value of a digit in a base up to sixteen. -/
def digit? (base : Nat) (c : CodePoint) : Option Nat :=
  match c with
  | .surrogate _ => none
  | .char c =>
    let value := if c.isDigit then c.toNat - '0'.toNat
      else if 'a' ≤ c && c ≤ 'f' then c.toNat - 'a'.toNat + 10
      else if 'A' ≤ c && c ≤ 'F' then c.toNat - 'A'.toNat + 10
      else 16
    if value < base then some value else none

/-- The digits of a base at the beginning of a text, and what follows them. -/
def takeDigits (base : Nat) (t : Text) : Text × Text := t.span fun c => (digit? base c).isSome

/-- The number that digits of a base denote. -/
def digitsValue (base : Nat) (digits : Text) : Nat :=
  digits.foldl (fun n c => base * n + (digit? base c).getD 0) 0

/-- The number at the beginning of a text, and what follows it. The first digits may say that its
base is eight or sixteen. -/
def takeNumber (t : Text) : Option (Nat × Text) :=
  let plain (base : Nat) (t : Text) : Option (Nat × Text) :=
    let (digits, rest) := takeDigits base t
    if digits.isEmpty then none else some (digitsValue base digits, rest)
  match t with
  | .char '0' :: .char 'x' :: more | .char '0' :: .char 'X' :: more =>
    match plain 16 more with
    | some found => some found
    | none => some (0, t.drop 1)
  | .char '0' :: _ => plain 8 t
  | _ => plain 10 t

/-- A blank. -/
def isSpace (c : CodePoint) : Bool := c.satisfies Numeral.isSpace

/-- The integer at the beginning of a text, behind blanks and a sign, and what follows it. -/
def takeInteger (bases : Bool) (t : Text) : Option (Int × Text) :=
  let number (t : Text) : Option (Nat × Text) :=
    if bases then takeNumber t
    else
      let (digits, rest) := takeDigits 10 t
      if digits.isEmpty then none else some (digitsValue 10 digits, rest)
  match t.dropWhile isSpace with
  | .char '-' :: t => (number t).map fun (n, rest) => (-(n : Int), rest)
  | .char '+' :: t => (number t).map fun (n, rest) => ((n : Int), rest)
  | t => (number t).map fun (n, rest) => ((n : Int), rest)

/-- The integer that a text denotes, with blanks around it. -/
def integer? (t : Text) : Option Int :=
  match takeInteger false t with
  | some (n, rest) => if rest.all isSpace && clamp n = n then some n else none
  | none => none

/-- The integer that the value of a variable denotes; a value without any is zero. -/
def variableValue? (t : Text) : Option Int :=
  match takeInteger true t with
  | some (n, rest) => if rest.all isSpace && clamp n = n then some n else none
  | none => if t.all isSpace then some 0 else none

/-- A piece of an expression. -/
inductive Symbol where
  | number (n : Int)
  | name (t : Text)
  | mark (t : Text)
deriving DecidableEq

/-- The truth value of a comparison. -/
def truth (b : Bool) : Int := if b then 1 else 0

/-- An operator of two values. There is no value of a division by zero. -/
abbrev Operator := Int → Int → Option Int

/-- Bits that are combined one by one. -/
def bitwise (f : Nat → Nat → Nat) : Operator := fun a b =>
  some (wrap (f (a % Nat.pow 2 64).toNat (b % Nat.pow 2 64).toNat))

/-- The operators of two values by their strength, the weakest first. -/
def levels : List (List (String × Operator)) :=
  [[("|", bitwise Nat.lor)],
   [("^", bitwise Nat.xor)],
   [("&", bitwise Nat.land)],
   [("==", fun a b => some (truth (a == b))), ("!=", fun a b => some (truth (a != b)))],
   [("<", fun a b => some (truth (a < b))), (">", fun a b => some (truth (b < a))),
    ("<=", fun a b => some (truth (a ≤ b))), (">=", fun a b => some (truth (b ≤ a)))],
   [("<<", fun a b => some (wrap (a * Nat.pow 2 (b % 64).toNat))),
    (">>", fun a b => some (a >>> (b % 64).toNat))],
   [("+", fun a b => some (wrap (a + b))), ("-", fun a b => some (wrap (a - b)))],
   [("*", fun a b => some (wrap (a * b))),
    ("/", fun a b => if b = 0 then none else some (wrap (a.tdiv b))),
    ("%", fun a b => if b = 0 then none else some (a.tmod b))]]

/-- The operators that an assignment may be combined with. -/
def combinable : List String := ["*", "/", "%", "+", "-", "<<", ">>", "&", "^", "|"]

/-- The operator of an assignment: none for a plain one. -/
def assignmentOperator? : Symbol → Option (Option Operator)
  | .mark t =>
    if t = Text.ofString "=" then some none
    else (combinable.find? fun name => t = Text.ofString (name ++ "=")).bind fun name =>
      (levels.flatten.lookup name).map some
  | _ => none

/-- The marks of an expression. Of two marks of which one is the beginning of the other, the longer
one comes first. -/
def marks : List Text :=
  ["<<=", ">>=", "<<", ">>", "<=", ">=", "==", "!=", "&&", "||", "*=", "/=", "%=", "+=", "-=", "&=",
   "^=", "|=", "<", ">", "=", "!", "&", "|", "*", "/", "%", "+", "-", "^", "~", "?", ":", "(",
   ")"].map Text.ofString

/-- The symbols of a text. A character that starts none is a mark without a meaning. -/
def symbols : Nat → Text → List Symbol
  | 0, _ | _, [] => []
  | fuel + 1, c :: t =>
    if c = .char ' ' || c = .char '\t' || c = .char '\n' then symbols fuel t
    else match takeNumber (c :: t) with
      | some (n, rest) => .number (clamp n) :: symbols fuel rest
      | none =>
        let (name, rest) :=
          (c :: t).span fun c => c.satisfies fun c => c.isAlphanum || c = '_'
        if !name.isEmpty then .name name :: symbols fuel rest
        else match marks.find? fun mark => Text.hasPrefix (c :: t) mark with
          | some mark => .mark mark :: symbols fuel ((c :: t).drop mark.length)
          | none => .mark [c] :: symbols fuel t

/-- Why an expression has no value. -/
inductive Fault where
  /-- What comes next is not what has to come. -/
  | expecting (what : Text)
  | divisionByZero
  /-- The value of a variable is no integer. -/
  | illegalNumber (value : Text)
deriving DecidableEq

/-- What is left of an expression, and what its assignments have done so far, the last one first. -/
structure Progress where
  left : List Symbol
  assigned : List (Text × Int) := []

/-- Evaluating an expression. -/
abbrev Evaluation := StateT Progress (Except Fault)

/-- The next symbol is the given mark. -/
def comes (mark : String) : Evaluation Bool := do
  return (← get).left.head? = some (.mark mark)

/-- Takes the next symbol. -/
def drop : Evaluation Unit := modify fun p => { p with left := p.left.drop 1 }

/-- The value of an operator. -/
def apply (operator : Operator) (a b : Int) : Evaluation Int :=
  match operator a b with
  | some n => pure n
  | none => throw .divisionByZero

/-- The value of a variable, after the assignments so far. -/
def lookUp (valueOf : Text → Text) (name : Text) : Evaluation Int := do
  match (← get).assigned.lookup name with
  | some n => pure n
  | none =>
    match variableValue? (valueOf name) with
    | some n => pure n
    | none => throw (.illegalNumber (valueOf name))

mutual

/-- The value of an assignment or of any other expression. A `silent` one does not count. -/
def assignment (valueOf : Text → Text) : Nat → Bool → Evaluation Int
  | 0, _ => throw (.expecting "primary")
  | fuel + 1, silent => do
    match (← get).left with
    | .name name :: second :: rest =>
      match assignmentOperator? second with
      | some operator? =>
        modify fun p => { p with left := rest }
        let value ← assignment valueOf fuel silent
        if silent then return value
        let value ← match operator? with
          | some operator => apply operator (← lookUp valueOf name) value
          | none => pure value
        modify fun p => { p with assigned := (name, value) :: p.assigned }
        pure value
      | none => choice valueOf fuel silent
    | _ => choice valueOf fuel silent

/-- The value of a choice between two expressions. -/
def choice (valueOf : Text → Text) : Nat → Bool → Evaluation Int
  | 0, _ => throw (.expecting "primary")
  | fuel + 1, silent => do
    let test ← disjunction valueOf fuel silent
    if !(← comes "?") then return test
    drop
    let yes ← assignment valueOf fuel (silent || test == 0)
    if !(← comes ":") then throw (.expecting "':'")
    drop
    let no ← choice valueOf fuel (silent || test != 0)
    pure (if test != 0 then yes else no)

/-- The value of alternatives. -/
def disjunction (valueOf : Text → Text) : Nat → Bool → Evaluation Int
  | 0, _ => throw (.expecting "primary")
  | fuel + 1, silent => do
    let first ← conjunction valueOf fuel silent
    if !(← comes "||") then return first
    drop
    let second ← disjunction valueOf fuel (silent || first != 0)
    pure (truth (first != 0 || second != 0))

/-- The value of conditions that have to hold together. -/
def conjunction (valueOf : Text → Text) : Nat → Bool → Evaluation Int
  | 0, _ => throw (.expecting "primary")
  | fuel + 1, silent => do
    let first ← operation valueOf fuel silent levels
    if !(← comes "&&") then return first
    drop
    let second ← conjunction valueOf fuel (silent || first == 0)
    pure (truth (first != 0 && second != 0))

/-- The value of operations of the given levels. -/
def operation (valueOf : Text → Text) :
    Nat → Bool → List (List (String × Operator)) → Evaluation Int
  | 0, _, _ => throw (.expecting "primary")
  | fuel + 1, silent, [] => operand valueOf fuel silent
  | fuel + 1, silent, level :: stronger => do
    let first ← operation valueOf fuel silent stronger
    furtherOperations valueOf fuel silent level stronger first

/-- The value of the further operations of a level, after a first value. -/
def furtherOperations (valueOf : Text → Text) :
    Nat → Bool → List (String × Operator) → List (List (String × Operator)) → Int → Evaluation Int
  | 0, _, _, _, _ => throw (.expecting "primary")
  | fuel + 1, silent, level, stronger, first => do
    match (← get).left with
    | .mark mark :: rest =>
      match level.lookup mark.toString with
      | some operator =>
        modify fun p => { p with left := rest }
        let second ← operation valueOf fuel silent stronger
        let value ← if silent then pure second else apply operator first second
        furtherOperations valueOf fuel silent level stronger value
      | none => pure first
    | _ => pure first

/-- The value of an integer, a variable, an operator before an operand, or an expression in
parentheses. -/
def operand (valueOf : Text → Text) : Nat → Bool → Evaluation Int
  | 0, _ => throw (.expecting "primary")
  | fuel + 1, silent => do
    let symbol? := (← get).left.head?
    match symbol? with
    | some (.number n) =>
      drop
      pure n
    | some (.name name) =>
      drop
      if silent then pure 0 else lookUp valueOf name
    | some (.mark mark) =>
      match mark.toString with
      | "(" =>
        drop
        let value ← assignment valueOf fuel silent
        if !(← comes ")") then throw (.expecting "')'")
        drop
        pure value
      | "+" =>
        drop
        operand valueOf fuel silent
      | "-" =>
        drop
        return wrap (-(← operand valueOf fuel silent))
      | "!" =>
        drop
        return truth ((← operand valueOf fuel silent) == 0)
      | "~" =>
        drop
        return -(← operand valueOf fuel silent) - 1
      | _ => throw (.expecting "primary")
    | none => throw (.expecting "primary")

end

/-- The value of an expression and the assignments in it, in their order. -/
def evaluate (valueOf : Text → Text) (t : Text) : Except Fault (Int × List (Text × Int)) := do
  let left := symbols t.length t
  let (value, progress) ← (assignment valueOf (16 * left.length + 64) false).run { left }
  if progress.left.isEmpty then pure (value, progress.assigned.reverse)
  else throw (.expecting "EOF")

end ProviderKit.Shell.Arithmetic
