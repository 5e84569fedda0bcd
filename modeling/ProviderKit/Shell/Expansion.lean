import ProviderKit.Shell.Arithmetic
import ProviderKit.Shell.Field

/-!
# What words stand for

Parameters, statements and expressions in a word are replaced by what they stand for. A word then is
one text, or it is cut into fields and each field stands for the names that match it. How a
statement is run is given from outside.
-/

namespace ProviderKit.Shell

namespace State

/-- The letters of the options that are set, in their order. -/
def optionLetters (s : State) : Text :=
  .ofChars ("uabCEVvxnsmiIfe".toList.filter s.has)

/-- The characters at which values are cut. -/
def separators (s : State) : Text := (s.value? "IFS").getD " \t\n"

/-- The arguments with the first separator between them. -/
def joinedArguments (s : State) : Text := Text.join (s.separators.take 1) s.arguments

/-- The value of a parameter. -/
def parameter? (s : State) (name : Text) : Option Text :=
  match name with
  | [.char '#'] => some (Text.ofNat s.arguments.length)
  | [.char '?'] => some (Text.ofNat s.status)
  | [.char '$'] => some (Text.ofNat s.process)
  | [.char '-'] => some s.optionLetters
  | [.char '!'] => s.jobs.head?.map fun job => Text.ofNat job.process
  | [.char '0'] => some s.name
  | [.char '@'] | [.char '*'] => if s.arguments.isEmpty then none else some s.joinedArguments
  | c :: _ =>
    if c.satisfies Char.isDigit then s.arguments[Text.digitsValue name - 1]? else s.value? name
  | [] => none

/-- The pieces of a value. -/
def pieces (s : State) (inQuotes split : Bool) (t : Text) : List Piece :=
  if inQuotes then Piece.quoted t
  else if split then Piece.cutAt s.separators t
  else Piece.plain t

/-- The pieces of the arguments of the script, each of which stays one where the word is split. -/
def argumentPieces (s : State) (inQuotes split : Bool) : List Piece :=
  if split then Piece.separated (s.arguments.map (s.pieces inQuotes split))
  else s.pieces inQuotes split s.joinedArguments

/-- The home of a user; that of the user who runs the script has no name. -/
def homeOf? (s : State) (user : Text) : Option Text :=
  if user.isEmpty then (s.value? "HOME").bind fun home => if home.isEmpty then none else some home
  else if user = Text.ofString "root" then some "/root"
  else none

/-- The parts of plain characters behind a place where a tilde stands for a home. `isLast` says that
nothing of the word follows them. -/
def tildeParts (s : State) (isLast : Bool) (t : Text) : Word :=
  match t with
  | .char '~' :: rest =>
    let user := rest.takeWhile (· != .char '/')
    let after := rest.drop user.length
    match if isLast || !after.isEmpty then s.homeOf? user else none with
    | some home => .quoted home :: (if after.isEmpty then [] else [.plain after])
    | none => [.plain t]
  | t => if t.isEmpty then [] else [.plain t]

/-- The parts of plain characters in a value that is assigned, where each colon starts a new place
for a tilde. -/
def tildeList (s : State) (isLast : Bool) : List Text → Word
  | [] => []
  | [t] => s.tildeParts isLast t
  | t :: rest => s.tildeParts true t ++ .plain ":" :: s.tildeList isLast rest

/-- The parts of a value that is assigned, after its beginning, with tildes replaced. -/
def withLaterHomes (s : State) : Word → Word
  | [] => []
  | .plain t :: rest =>
    match Text.split (.char ':') t with
    | [] | [_] => .plain t :: s.withLaterHomes rest
    | first :: more =>
      .plain first :: .plain ":" :: s.tildeList rest.isEmpty more ++ s.withLaterHomes rest
  | part :: rest => part :: s.withLaterHomes rest

/-- A word with its tildes replaced. -/
def withHomes (s : State) (assigned : Bool) : Word → Word
  | .plain t :: rest =>
    if assigned then
      s.tildeList rest.isEmpty (Text.split (.char ':') t) ++ s.withLaterHomes rest
    else s.tildeParts rest.isEmpty t ++ rest
  | word => if assigned then s.withLaterHomes word else word

end State

/-- The text without the ends of lines at its end. -/
def withoutEndLines (t : Text) : Text := (t.reverse.dropWhile (· = .char '\n')).reverse

/-- The value of an expression, whose assignments are done. -/
def evaluate (expression : Text) : Action Int := do
  let s ← get
  match Arithmetic.evaluate (fun name => (s.value? name).getD []) expression with
  | .ok (n, assigned) =>
    for (name, value) in assigned do assign name (Text.ofInt value)
    pure n
  | .error (.expecting what) =>
    fail ("arithmetic expression: expecting " ++ what ++ ": \"" ++ expression ++ "\"")
  | .error .divisionByZero =>
    fail ("arithmetic expression: division by zero: \"" ++ expression ++ "\"")
  | .error (.illegalNumber value) => fail ("Illegal number: " ++ value)

namespace Expansion

/-- What the output of an action stands for. The status of the script stays, but the action's is
kept in mind. -/
def output (action : Action Unit) : Action Text := do
  let before := (← get).status
  let bytes ← capture action
  modify fun s => { s with status := before, substituted := some s.status }
  pure (withoutEndLines (Utf8.decodeLossless (bytes.filter (· != 0))))

mutual

/-- The pieces of a part of a word; `run` runs a statement. The values in it are cut if `split` says
so, and so are its plain characters if `inner` says that the word stands in braces. -/
def part (run : Statement → Action Unit) : Nat → Bool → Bool → Part → Action (List Piece)
  | 0, _, _, _ => throw .outOfTime
  | fuel + 1, split, inner, part =>
    match part with
    | .plain t => do pure ((← get).pieces false (split && inner) t)
    | .quoted t => pure (Piece.quoted t)
    | .command inQuotes body => do
      let t ← output (run body)
      pure ((← get).pieces inQuotes split t)
    | .arithmetic inQuotes inside => do
      let n ← evaluate (← text run fuel inside).text
      pure ((← get).pieces inQuotes split (Text.ofInt n))
    | .parameter inQuotes name modifier => parameter run fuel split inQuotes name modifier

/-- The pieces of a parameter. -/
def parameter (run : Statement → Action Unit) :
    Nat → Bool → Bool → Text → Modifier → Action (List Piece)
  | 0, _, _, _, _ => throw .outOfTime
  | fuel + 1, split, inQuotes, name, modifier => do
    let s ← get
    let value? := s.parameter? name
    let isAll := name = Text.ofString "@" || name = Text.ofString "*"
    let present (empty : Bool) : Bool :=
      match value? with
      | some t => !(empty && t.isEmpty)
      | none => false
    let own : List Piece :=
      if name = Text.ofString "@" || (isAll && !inQuotes) then s.argumentPieces inQuotes split
      else s.pieces inQuotes split (value?.getD [])
    let known : Action Text :=
      match value? with
      | some t => pure t
      | none =>
        if s.has 'u' && !isAll then fail (name ++ ": parameter not set") else pure []
    let instead (word : Word) : Action (List Piece) := do
      let word := if inQuotes then word else s.withHomes false word
      let pieces ← wordPieces run fuel split true word
      pure (if inQuotes then .anchor :: pieces else pieces)
    let complaint (empty : Bool) (word : Word) : Action Text := do
      let t := (← text run fuel word).text
      let usual : Text := if empty then "parameter not set or null" else "parameter not set"
      pure (if word.isEmpty then usual else t)
    match modifier with
    | .value => do
      let _ ← known
      pure own
    | .length => do
      let t ← known
      let n := if isAll then s.arguments.length else (Utf8.encodeLossless t).length
      pure (s.pieces inQuotes split (Text.ofNat n))
    | .otherwise empty word => if present empty then pure own else instead word
    | .instead empty word =>
      if present empty then instead word else pure (s.pieces inQuotes split [])
    | .assign empty word =>
      if present empty then pure own
      else do
        let t := (← text run fuel (s.withHomes false word)).text
        if !isName name then fail "Bad substitution"
        assign name t
        pure ((← get).pieces inQuotes split t)
    | .require empty word =>
      if present empty then pure own else fail (name ++ ": " ++ (← complaint empty word))
    | .dropFront longest pattern => do
      let t ← known
      let pattern ← text run fuel (s.withHomes false pattern)
      pure (s.pieces inQuotes split (dropMatchingFront longest pattern t))
    | .dropBack longest pattern => do
      let t ← known
      let pattern ← text run fuel (s.withHomes false pattern)
      pure (s.pieces inQuotes split (dropMatchingBack longest pattern t))
    | .bad => fail "Bad substitution"

/-- The pieces of a word. -/
def wordPieces (run : Statement → Action Unit) : Nat → Bool → Bool → Word → Action (List Piece)
  | 0, _, _, _ => throw .outOfTime
  | fuel + 1, split, inner, parts => do
    let pieces ← parts.mapM fun p => part run fuel split inner p
    pure pieces.flatten

/-- A word as one text, in which protected characters are known. -/
def text (run : Statement → Action Unit) : Nat → Word → Action Marked
  | 0, _ => throw .outOfTime
  | fuel + 1, parts => do
    pure (Piece.marked (← wordPieces run fuel false false parts))

end

/-- The texts that a word stands for. -/
def texts (run : Statement → Action Unit) (fuel : Nat) (parts : Word) : Action (List Text) := do
  let fields := Piece.fields (← wordPieces run fuel true false ((← get).withHomes false parts))
  let s ← get
  if s.has 'f' then pure (fields.map Marked.text)
  else pure (fields.flatMap (fieldTexts s.disk s.path))

/-- The text of a word that is not cut. -/
def single (run : Statement → Action Unit) (fuel : Nat) (parts : Word) : Action Text := do
  pure (← text run fuel ((← get).withHomes false parts)).text

/-- The value that an assignment gives. -/
def assigned (run : Statement → Action Unit) (fuel : Nat) (parts : Word) : Action Text := do
  pure (← text run fuel ((← get).withHomes true parts)).text

end Expansion

end ProviderKit.Shell
