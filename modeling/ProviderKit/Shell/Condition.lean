import ProviderKit.Disk.Walk
import ProviderKit.Shell.Arithmetic

/-!
# Conditions

What the test command asks about texts, integers and files. A condition is read from left to right;
the last argument that was read stays in front, so that what follows it can be looked at.
-/

namespace ProviderKit.Shell

/-- What a condition is asked of. -/
structure Asked where
  disk : Disk
  directory : Path

namespace Asked

/-- The entry that a text leads to. -/
def entry? (asked : Asked) (through : Bool) (t : Text) : Option (Place × Entry) :=
  if t.isEmpty then none
  else match asked.disk.find through (asked.directory.join (.ofText t)) with
    | .ok found => some found
    | .error _ => none

/-- A property of the entry that a text leads to. -/
def holds (asked : Asked) (t : Text) (property : Entry → Bool) : Bool :=
  ((asked.entry? true t).map fun (_, entry) => property entry).getD false

/-- The two texts lead to the same entry. -/
def isSame (asked : Asked) (a b : Text) : Bool :=
  match asked.entry? true a, asked.entry? true b with
  | some (p, _), some (q, _) => p = q || (asked.disk.sharers p).contains q
  | _, _ => false

end Asked

/-- What an argument of a condition is. -/
inductive ConditionWord where
  | finish
  | operand
  | one (question : String)
  | two (question : String)
  | negation
  | conjunction
  | disjunction
  | opening
  | closing
deriving DecidableEq

/-- The questions about one text. -/
def questionsOfOne : List String :=
  ["-b", "-c", "-d", "-e", "-f", "-g", "-h", "-k", "-n", "-p", "-r", "-s", "-t", "-u", "-w", "-x",
   "-z", "-G", "-L", "-O", "-S"]

/-- The questions about two texts. -/
def questionsOfTwo : List String :=
  ["=", "!=", "<", ">", "-eq", "-ne", "-lt", "-le", "-gt", "-ge", "-nt", "-ot", "-ef"]

/-- What a text is as a word of a condition, whatever stands around it. -/
def conditionWord (t : Text) : ConditionWord :=
  let s := t.toString
  if questionsOfOne.contains s then .one s
  else if questionsOfTwo.contains s then .two s
  else match s with
    | "!" => .negation
    | "-a" => .conjunction
    | "-o" => .disjunction
    | "(" => .opening
    | ")" => .closing
    | _ => .operand

/-- Reading a condition: what is left of it, or what is wrong with it. -/
abbrev ConditionReader := StateT (List Text) (Except Text)

namespace ConditionReader

/-- What the first argument is. A question about one text is an operand where no text is left for
it, or where it stands before a question about two; a parenthesis with nothing after it is one
too. -/
def word : List Text → ConditionWord
  | [] => .finish
  | t :: rest =>
    match conditionWord t, rest with
    | .one _, [] => .operand
    | .one question, [_] => .one question
    | .one question, second :: third :: _ =>
      match conditionWord second with
      | .two _ => if third = Text.ofString ")" then .one question else .operand
      | _ => .one question
    | .opening, [] => .operand
    | word, _ => word

/-- Goes on by a number of arguments. -/
def skip (n : Nat) : ConditionReader Unit := modify (·.drop n)

/-- The condition is wrong. -/
def wrong {α : Type} (complaint : Text) : ConditionReader α := throw complaint

/-- A question misses a text. -/
def missing {α : Type} (question : String) : ConditionReader α :=
  wrong (Text.ofString question ++ ": argument expected")

/-- The integer that a text denotes. -/
def integer (t : Text) : ConditionReader Int :=
  match Arithmetic.integer? t with
  | some n => pure n
  | none => wrong ("Illegal number: " ++ t)

/-- The answer to a question about one text. -/
def answerOne (asked : Asked) (question : String) (t : Text) : ConditionReader Bool := do
  match question with
  | "-n" => pure !t.isEmpty
  | "-z" => pure t.isEmpty
  | "-t" =>
    let _ ← integer t
    pure false
  | "-e" | "-r" | "-w" | "-O" | "-G" => pure (asked.holds t fun _ => true)
  | "-f" => pure (asked.holds t Entry.isFile)
  | "-d" => pure (asked.holds t Entry.isDirectory)
  | "-x" => pure (asked.holds t fun
      | .file mode _ => mode.isRunnable
      | .directory => true
      | .link _ => false)
  | "-s" => pure (asked.holds t fun
      | .file _ content => !content.data.isEmpty
      | .directory => true
      | .link _ => false)
  | "-L" | "-h" =>
    pure (((asked.entry? false t).map fun (_, entry) => entry.isLink).getD false)
  | _ => pure false

/-- The answer to a question about two texts. -/
def answerTwo (asked : Asked) (a : Text) (question : String) (b : Text) : ConditionReader Bool := do
  let integers (compare : Int → Int → Bool) : ConditionReader Bool := do
    let m ← integer a
    pure (compare m (← integer b))
  match question with
  | "=" => pure (a = b)
  | "!=" => pure (a != b)
  | "<" => pure (a != b && Text.le a b)
  | ">" => pure (a != b && Text.le b a)
  | "-eq" => integers (· == ·)
  | "-ne" => integers (· != ·)
  | "-lt" => integers (· < ·)
  | "-le" => integers (· ≤ ·)
  | "-gt" => integers (· > ·)
  | "-ge" => integers (· ≥ ·)
  | "-ef" => pure (asked.isSame a b)
  | "-nt" => pure ((asked.entry? true a).isSome && (asked.entry? true b).isNone)
  | _ => pure ((asked.entry? true a).isNone && (asked.entry? true b).isSome)

mutual

/-- The answer of alternatives, of which the first word is known. -/
def alternatives (asked : Asked) : Nat → ConditionWord → ConditionReader Bool
  | 0, _ => pure false
  | fuel + 1, first => do
    let answer ← conjunctions asked fuel first
    if word ((← get).drop 1) != .disjunction then return answer
    skip 2
    let other ← alternatives asked fuel (word (← get))
    pure (answer || other)

/-- The answer of conditions that have to hold together. -/
def conjunctions (asked : Asked) : Nat → ConditionWord → ConditionReader Bool
  | 0, _ => pure false
  | fuel + 1, first => do
    let answer ← negations asked fuel first
    if word ((← get).drop 1) != .conjunction then return answer
    skip 2
    let other ← conjunctions asked fuel (word (← get))
    pure (answer && other)

/-- The answer of a condition that may be negated. -/
def negations (asked : Asked) : Nat → ConditionWord → ConditionReader Bool
  | 0, _ => pure false
  | fuel + 1, first => do
    if first != .negation then return ← single asked fuel first
    let next := word ((← get).drop 1)
    if next != .finish then skip 1
    return !(← negations asked fuel next)

/-- The answer of a single condition. -/
def single (asked : Asked) : Nat → ConditionWord → ConditionReader Bool
  | 0, _ => pure false
  | fuel + 1, first => do
    match first with
    | .finish => pure false
    | .opening =>
      skip 1
      let next := word (← get)
      if next = .closing then return false
      let answer ← alternatives asked fuel next
      skip 1
      if word (← get) != .closing then wrong "closing paren expected"
      pure answer
    | .one question =>
      skip 1
      match (← get).head? with
      | some t => answerOne asked question t
      | none => missing question
    | _ =>
      let left ← get
      match word (left.drop 1) with
      | .two question =>
        skip 1
        match left with
        | a :: _ :: b :: _ =>
          skip 1
          answerTwo asked a question b
        | _ => missing question
      | _ => pure !(left.headD []).isEmpty

end

/-- The answer of a whole condition. With few arguments their number decides how they are read. -/
def whole (asked : Asked) : Nat → ConditionReader Bool
  | 0 => pure false
  | fuel + 1 => do
    let ts ← get
    let complete (first : ConditionWord) : ConditionReader Bool := do
      let answer ← alternatives asked (8 * ts.length + 16) first
      match ← get with
      | [] | [_] => pure answer
      | [] :: _ => wrong "unexpected operator"
      | t :: _ => wrong (t ++ ": unexpected operator")
    let few : ConditionReader Bool := do
      match ts with
      | [] => pure false
      | first :: rest =>
        if first = Text.ofString "(" && rest.getLast? = some (Text.ofString ")") then
          set rest.dropLast
          complete (word rest.dropLast)
        else if first = Text.ofString "!" then
          set rest
          return !(← whole asked fuel)
        else complete (word ts)
    match ts with
    | [] => pure false
    | [_, second, _] =>
      match conditionWord second with
      | .two _ => complete .operand
      | _ => few
    | [_, _, _, _] => few
    | ts => complete (word ts)

end ConditionReader

/-- The answer of a condition, or what is wrong with it. -/
def ask (asked : Asked) (condition : List Text) : Except Text Bool :=
  (ConditionReader.whole asked (condition.length + 1)).run' condition

end ProviderKit.Shell
