import ProviderKit.Shell.Source

/-!
# Reading a script

A script is read one line of statements at a time: what a line does is done before the next one is
read. Words and statements are read by each other, within a depth that the length of the text
bounds.
-/

namespace ProviderKit.Shell

/-- What the parts of a word stand in. -/
inductive Frame where
  /-- Nothing: the word ends where a word of a command ends. -/
  | bare
  /-- Braces outside quotes. -/
  | braces
  | quotes
  /-- Braces inside quotes. -/
  | quotedBraces
  /-- The text of a document. -/
  | document
  /-- Two parentheses around an expression. -/
  | arithmetic
deriving DecidableEq

/-- A character that ends a word of a command. -/
def isWordEnd (c : CodePoint) : Bool :=
  c.satisfies fun c => " \t\n;&|<>()".toList.contains c

namespace Frame

/-- Characters in the frame are in quotes. -/
def isQuoted : Frame → Bool
  | bare | braces => false
  | quotes | quotedBraces | document | arithmetic => true

/-- The frame ends with a closing brace. -/
def isBraced : Frame → Bool
  | braces | quotedBraces => true
  | bare | quotes | document | arithmetic => false

/-- The characters with a meaning of their own in the frame, besides those that end a word. -/
def marks : Frame → String
  | bare => "\\'\"$`"
  | braces => "\\'\"$`\x7d"
  | quotes => "\\\"$`"
  | quotedBraces => "\\\"$`\x7d"
  | document => "\\$`"
  | arithmetic => "\\$`()"

/-- A character does not simply stand for itself in the frame. -/
def stops (frame : Frame) (c : CodePoint) : Bool :=
  (c.satisfies fun c => frame.marks.toList.contains c) || (frame = bare && isWordEnd c)

/-- Characters that stand for themselves in the frame. -/
def part (frame : Frame) (t : Text) : Part := if frame.isQuoted then .quoted t else .plain t

/-- A backslash before the character is taken away; elsewhere in quotes it stays. -/
def escapes (frame : Frame) (c : CodePoint) : Bool :=
  !frame.isQuoted || c.satisfies fun c =>
    "$`\\".toList.contains c || (c = '"' && frame != document) || (c = '\x7d' && frame.isBraced)

/-- Why a text may not end in the frame. -/
def openReason? : Frame → Option SyntaxReason
  | bare | document => none
  | quotes => some .openQuote
  | braces | quotedBraces => some .openBrace
  | arithmetic => some .openArithmetic

/-- The frame of what stands between braces in this one. -/
def inner (frame : Frame) : Frame := if frame.isQuoted then quotedBraces else braces

end Frame

namespace Reader

/-- The characters up to a closing single quote, which is taken too. -/
def takeSingleQuoted : Reader Text := do
  let t ← takeUntil (· = .char '\x27')
  if (← take 1).isEmpty then refuse .openQuote
  pure t

/-- The inside of backquotes, in which some characters need a backslash, and the number of
characters up to the end. -/
def backquoted (inQuotes : Bool) : Text → Option (Text × Nat)
  | [] => none
  | .char '`' :: _ => some ([], 1)
  | .char '\\' :: .char '\n' :: t => (backquoted inQuotes t).map fun (a, n) => (a, n + 2)
  | .char '\\' :: c :: t =>
    (backquoted inQuotes t).map fun (a, n) =>
      (if c = .char '`' || c = .char '\\' || c = .char '$' || (c = .char '"' && inQuotes)
       then c :: a else .char '\\' :: c :: a, n + 2)
  | c :: t => (backquoted inQuotes t).map fun (a, n) => (c :: a, n + 1)

/-- The mark of a redirection that starts with the next character. -/
def takeRedirection (descriptor : Option Nat) : Reader Token := do
  let mark (t : Text) : Reader Token := pure (.redirection descriptor t)
  if ← accept '>' then
    if ← accept '>' then mark ">>"
    else if ← accept '&' then mark ">&"
    else if ← accept '|' then mark ">|"
    else mark ">"
  else
    let _ ← take 1
    if ← accept '<' then
      if ← accept '-' then mark "<<-" else mark "<<"
    else if ← accept '&' then mark "<&"
    else if ← accept '>' then mark "<>"
    else mark "<"

/-- The operator that starts with a character, which may come twice. -/
def takeOperator (c : Char) : Reader Token := do
  let _ ← take 1
  if c != '(' && c != ')' then
    if ← accept c then return .operator (.ofChars [c, c])
  pure (.operator (.ofChars [c]))

/-- A word is the number of a stream before a redirection. -/
def streamNumber? : Word → Option Nat
  | [.plain [c]] => if c.satisfies Char.isDigit then some (Text.digitsValue [c]) else none
  | _ => none

/-- Takes the token that was looked at. -/
def drop : Reader Unit := modify fun c => { c with token := none }

/-- Does something with a part of the script that is a script of its own; documents that are awaited
outside of it are not read in it. -/
def nested (reader : Reader Statement) : Reader Statement := do
  let before ← get
  set { before with token := none, awaited := [] }
  let body ← reader
  modify fun c => { c with token := before.token, awaited := before.awaited }
  pure body

/-- The name of a parameter in braces and whether its length is asked for, or nothing if there is no
such parameter. -/
def takeParameter : Reader (Option (Text × Bool)) := do
  let special (c : CodePoint) : Option (Text × Bool) :=
    if isSpecialName c then some ([c], false) else none
  match ← lookJoined with
  | none => pure none
  | some (.char '#') =>
    let _ ← take 1
    match ← lookJoined with
    | none => pure (some ("#", false))
    | some c =>
      if isNamePart c then
        let name ← takeUntil fun c => !isNamePart c
        if (← look) = some (.char '\x7d') then pure (some (name, true)) else pure none
      else if c != .char '\x7d' && ((← get).rest.drop 1).head? = some (.char '\x7d') then
        let _ ← take 1
        pure ((special c).map fun (name, _) => (name, true))
      else pure (some ("#", false))
  | some c =>
    if isNameStart c then pure (some (← takeUntil fun c => !isNamePart c, false))
    else if c.satisfies Char.isDigit then
      pure (some (← takeUntil fun c => !c.satisfies Char.isDigit, false))
    else if c = .char '\x7d' then pure none
    else
      let _ ← take 1
      pure (special c)

mutual

/-- The parts of a word up to the end of the frame that they stand in. In an expression `depth`
parentheses are open. -/
def takeParts : Nat → Frame → Nat → Reader Word
  | 0, _, _ => refuse .openQuote
  | fuel + 1, frame, depth => do
    match ← look with
    | none =>
      match frame.openReason? with
      | some reason => refuse reason
      | none => pure []
    | some c =>
      if !frame.stops c then
        let t ← takeUntil frame.stops
        return Word.cons (frame.part t) (← takeParts fuel frame depth)
      if frame = .bare && isWordEnd c then return []
      let _ ← take 1
      let further (part : Part) : Reader Word := do
        pure (Word.cons part (← takeParts fuel frame depth))
      match c with
      | .char '\\' =>
        match ← take 1 with
        | [] => further (frame.part "\\")
        | [.char '\n'] => takeParts fuel frame depth
        | t => further (.quoted (if t.all frame.escapes then t else .char '\\' :: t))
      | .char '\x27' => further (.quoted (← takeSingleQuoted))
      | .char '"' =>
        if frame = .quotes then pure []
        else
          let inner ← takeParts fuel .quotes 0
          let inner : Word := if inner.isEmpty then [.quoted []] else inner
          pure (inner ++ (← takeParts fuel frame depth))
      | .char '$' => further (← takeDollar fuel frame)
      | .char '`' => further (← takeBackquoted fuel frame)
      | .char '(' => pure (.quoted "(" :: (← takeParts fuel frame (depth + 1)))
      | .char ')' =>
        if depth > 0 then pure (.quoted ")" :: (← takeParts fuel frame (depth - 1)))
        else if ← accept ')' then pure []
        else further (.quoted ")")
      | _ => pure []

/-- The part that a dollar sign starts; one that starts nothing stands for itself. -/
def takeDollar : Nat → Frame → Reader Part
  | 0, _ => refuse .openBrace
  | fuel + 1, frame => do
    let inQuotes := frame.isQuoted
    if ← accept '(' then
      if ← accept '(' then return .arithmetic inQuotes (← takeParts fuel .arithmetic 0)
      let body ← nested do
        let body ← takeList fuel false true
        let token ← peek fuel
        if token.isOperator ")" then pure body else refuseToken token (some (.operator ")"))
      return .command inQuotes body
    if ← accept '\x7b' then return ← takeBraces fuel frame
    match ← look with
    | some c =>
      if isNameStart c then
        pure (.parameter inQuotes (← takeUntil fun c => !isNamePart c) .value)
      else if isSpecialName c then pure (.parameter inQuotes (← take 1) .value)
      else pure (frame.part "$")
    | none => pure (frame.part "$")

/-- The part between braces, after the opening one. -/
def takeBraces : Nat → Frame → Reader Part
  | 0, _ => refuse .openBrace
  | fuel + 1, frame => do
    let parameter? ← takeParameter
    let name := (parameter?.map (·.1)).getD []
    let part (modifier : Modifier) : Part := .parameter frame.isQuoted name modifier
    let word : Reader Word := takeParts fuel frame.inner 0
    let bad : Reader Part := do
      let _ ← word
      pure (part .bad)
    match parameter? with
    | none => bad
    | some (_, true) =>
      if ← accept '\x7d' then pure (part .length) else bad
    | some (_, false) =>
      if ← accept '\x7d' then pure (part .value)
      else if ← accept '%' then
        let longest ← accept '%'
        pure (part (.dropBack longest (← takeParts fuel .braces 0)))
      else if ← accept '#' then
        let longest ← accept '#'
        pure (part (.dropFront longest (← takeParts fuel .braces 0)))
      else
        let empty ← accept ':'
        if ← accept '-' then pure (part (.otherwise empty (← word)))
        else if ← accept '+' then pure (part (.instead empty (← word)))
        else if ← accept '?' then pure (part (.require empty (← word)))
        else if ← accept '=' then pure (part (.assign empty (← word)))
        else if ← accept '\x7d' then
          let _ ← word
          pure (part .value)
        else bad

/-- The part between backquotes, after the opening one. -/
def takeBackquoted : Nat → Frame → Reader Part
  | 0, _ => refuse .openBackquote
  | fuel + 1, frame => do
    let line := (← get).line
    match backquoted (frame.isQuoted && frame != .document) (← get).rest with
    | none =>
      let _ ← takeUntil fun _ => false
      refuse .openBackquote
    | some (inside, n) =>
      let _ ← take n
      let after ← get
      set { after with rest := inside, line }
      let body ← nested (takeList fuel false true)
      modify fun c => { c with rest := after.rest, line := after.line }
      pure (.command frame.isQuoted body)

/-- The next token. At the end of a line the documents that it has announced are read. -/
def takeToken : Nat → Reader Token
  | 0 => refuse .openQuote
  | fuel + 1 => do
    skipBlanks
    match ← look with
    | none => pure .finish
    | some (.char '\n') =>
      let _ ← take 1
      takeDocuments fuel
      pure .newline
    | some (.char '&') => takeOperator '&'
    | some (.char '|') => takeOperator '|'
    | some (.char ';') => takeOperator ';'
    | some (.char '(') => takeOperator '('
    | some (.char ')') => takeOperator ')'
    | some (.char '<') | some (.char '>') => takeRedirection none
    | some _ =>
      let word ← takeParts fuel .bare 0
      match streamNumber? word, ← look with
      | some n, some (.char '<') | some n, some (.char '>') => takeRedirection (some n)
      | _, _ => pure (.word word)

/-- Reads the documents that are awaited. -/
def takeDocuments : Nat → Reader Unit
  | 0 => pure ()
  | fuel + 1 => do
    match (← get).awaited with
    | [] => pure ()
    | awaited :: others =>
      let c ← get
      let (body, rest) := awaited.cut (c.rest.length + 1) false c.rest
      let line := c.line + countLines c.rest - countLines rest
      set { c with rest := body, awaited := [] }
      let word ← if awaited.expanded then takeParts fuel .document 0 else pure [.quoted body]
      modify fun c => { c with
        rest, line, awaited := others, documents := (awaited.id, word) :: c.documents }
      takeDocuments fuel

/-- The next token, which is not taken yet. -/
def peek : Nat → Reader Token
  | 0 => refuse .openQuote
  | fuel + 1 => do
    match (← get).token with
    | some token => pure token
    | none =>
      let token ← takeToken fuel
      modify fun c => { c with token := some token }
      pure token

/-- The next token that is no end of a line. -/
def peekPastLines : Nat → Reader Token
  | 0 => refuse .openQuote
  | fuel + 1 => do
    match ← peek fuel with
    | .newline =>
      drop
      peekPastLines fuel
    | token => pure token

/-- Takes a word that has to be there. -/
def expect : Nat → Text → Reader Unit
  | 0, _ => refuse .openQuote
  | fuel + 1, keyword => do
    let token ← peek fuel
    if token.keyword? = some keyword then drop
    else refuseToken token (some (.word [.plain keyword]))

/-- Statements up to the end of a list or, if `oneLine` says so, of a line. -/
def takeList : Nat → Bool → Bool → Reader Statement
  | 0, _, _ => refuse .openQuote
  | fuel + 1, oneLine, mayBeEmpty => do
    match ← if oneLine then peek fuel else peekPastLines fuel with
    | .newline =>
      drop
      pure .nothing
    | .finish => pure .nothing
    | token =>
      if !oneLine && mayBeEmpty && token.endsList then return .nothing
      let first ← takeChain fuel
      match ← peek fuel with
      | .finish => pure first
      | .newline => return first.andThen (← takeList fuel oneLine true)
      | token =>
        if token.isOperator ";" then
          drop
          return first.andThen (← takeList fuel oneLine true)
        else if token.isOperator "&" then
          drop
          return (Statement.background first).andThen (← takeList fuel oneLine true)
        else if oneLine then refuseToken token none
        else pure first

/-- Commands joined by `&&` and `||`. -/
def takeChain : Nat → Reader Statement
  | 0 => refuse .openQuote
  | fuel + 1 => do takeLinks fuel (← takePipeline fuel)

/-- The further links of a chain. -/
def takeLinks : Nat → Statement → Reader Statement
  | 0, _ => refuse .openQuote
  | fuel + 1, first => do
    let token ← peek fuel
    let second : Reader Statement := do
      drop
      let _ ← peekPastLines fuel
      takePipeline fuel
    if token.isOperator "&&" then takeLinks fuel (.both first (← second))
    else if token.isOperator "||" then takeLinks fuel (.either first (← second))
    else pure first

/-- Commands joined by `|`, perhaps behind a negation. -/
def takePipeline : Nat → Reader Statement
  | 0 => refuse .openQuote
  | fuel + 1 => do
    if (← peek fuel).keyword? = some (Text.ofString "!") then
      drop
      pure (.negated (← takePipes fuel))
    else takePipes fuel

/-- Commands joined by `|`. -/
def takePipes : Nat → Reader Statement
  | 0 => refuse .openQuote
  | fuel + 1 => do
    let first ← takeCommand fuel
    if (← peek fuel).isOperator "|" then
      drop
      let _ ← peekPastLines fuel
      pure (.piped first (← takePipes fuel))
    else pure first

/-- The next token, which starts a command; a word that a text stands for is replaced. A word in
its own replacement stays. -/
def peekCommand : Nat → Reader Token
  | 0 => refuse .openQuote
  | fuel + 1 => do
    let token ← peek fuel
    let c ← get
    match token with
    | .word w =>
      let name := (w.plain?).getD []
      let replaced := c.replaced.filter fun (_, n) => n < c.rest.length
      match c.aliases.lookup name with
      | some t =>
        if (replaced.lookup name).isSome then pure token
        else
          set { c with
            token := none, rest := t ++ (CodePoint.char ' ' :: c.rest)
            replaced := (name, c.rest.length) :: replaced }
          peekCommand fuel
      | none => pure token
    | token => pure token

/-- A command. -/
def takeCommand : Nat → Reader Statement
  | 0 => refuse .openQuote
  | fuel + 1 => do
    let token ← peekCommand fuel
    let line := (← get).line
    let compound (reader : Reader Statement) : Reader Statement := do
      drop
      let body ← reader
      pure (Statement.redirect line body (← takeRedirections fuel))
    match token.keyword?.map Text.toString with
    | some "if" => compound (takeChoice fuel)
    | some "while" => compound (takeLoop fuel false)
    | some "until" => compound (takeLoop fuel true)
    | some "for" => compound (takeEach fuel line)
    | some "case" => compound (takeSelect fuel line)
    | some "\x7b" => compound do
      let body ← takeList fuel false false
      expect fuel "\x7d"
      pure body
    | some _ => refuseToken token none
    | none =>
      match token with
      | .word _ | .redirection .. => takeSimple fuel line [] [] []
      | token =>
        if token.isOperator "(" then compound do
          let body ← takeList fuel false false
          let token ← peek fuel
          if token.isOperator ")" then
            drop
            pure (.subshell line body [])
          else refuseToken token (some (.operator ")"))
        else refuseToken token none

/-- The redirections that come next. -/
def takeRedirections : Nat → Reader (List Redirection)
  | 0 => refuse .openQuote
  | fuel + 1 => do
    match ← peek fuel with
    | .redirection descriptor mark =>
      drop
      let redirection ← takeTarget fuel descriptor mark
      pure (redirection :: (← takeRedirections fuel))
    | _ => pure []

/-- The redirection that a mark and the word after it make. -/
def takeTarget : Nat → Option Nat → Text → Reader Redirection
  | 0, _, _ => refuse .openQuote
  | fuel + 1, descriptor, mark => do
    match ← peek fuel with
    | .word word =>
      drop
      match mark.toString with
      | ">" => pure (.file (descriptor.getD 1) .write word)
      | ">|" => pure (.file (descriptor.getD 1) .overwrite word)
      | ">>" => pure (.file (descriptor.getD 1) .append word)
      | ">&" => pure (.duplicate (descriptor.getD 1) word)
      | "<&" => pure (.duplicate (descriptor.getD 0) word)
      | "<>" => pure (.file (descriptor.getD 0) .update word)
      | "<" => pure (.file (descriptor.getD 0) .read word)
      | _ =>
        let id := (← get).nextId
        let awaited : Awaited :=
          { id, ending := word.literal, indented := mark = Text.ofString "<<-",
            expanded := !word.hasQuotes }
        modify fun c => { c with awaited := c.awaited ++ [awaited], nextId := id + 1 }
        pure (.document (descriptor.getD 0) id)
    | token => refuseToken token none

/-- The rest of a simple command, of which parts were already read, in reverse. -/
def takeSimple : Nat → Nat → List (Text × Word) → List Word → List Redirection → Reader Statement
  | 0, _, _, _, _ => refuse .openQuote
  | fuel + 1, line, assignments, words, redirections => do
    match ← peek fuel with
    | .redirection descriptor mark =>
      drop
      let redirection ← takeTarget fuel descriptor mark
      takeSimple fuel line assignments words (redirection :: redirections)
    | .word word =>
      drop
      match if words.isEmpty then assignment? word else none with
      | some assignment => takeSimple fuel line (assignment :: assignments) words redirections
      | none => takeSimple fuel line assignments (word :: words) redirections
    | token =>
      match words, assignments, redirections with
      | [name], [], [] =>
        if token.isOperator "(" then
          drop
          return ← takeFunction fuel name
      | _, _, _ => pure ()
      pure (.simple line assignments.reverse words.reverse redirections.reverse)

/-- A function, after its name and a parenthesis. -/
def takeFunction : Nat → Word → Reader Statement
  | 0, _ => refuse .openQuote
  | fuel + 1, name => do
    let token ← peek fuel
    if !token.isOperator ")" then refuseToken token (some (.operator ")"))
    match name.plain? with
    | some name =>
      if !isName name || specialCommands.contains name then refuse .badFunctionName
      drop
      let _ ← peekPastLines fuel
      pure (.define name (← takeCommand fuel))
    | none => refuse .badFunctionName

/-- A choice, after its first word. -/
def takeChoice : Nat → Reader Statement
  | 0 => refuse .openQuote
  | fuel + 1 => do
    let test ← takeList fuel false false
    expect fuel "then"
    let yes ← takeList fuel false false
    match (← peek fuel).keyword?.map Text.toString with
    | some "elif" =>
      drop
      pure (.choice test yes (← takeChoice fuel))
    | some "else" =>
      drop
      let no ← takeList fuel false false
      expect fuel "fi"
      pure (.choice test yes no)
    | _ =>
      expect fuel "fi"
      pure (.choice test yes .nothing)

/-- A loop, after its first word. -/
def takeLoop : Nat → Bool → Reader Statement
  | 0, _ => refuse .openQuote
  | fuel + 1, negate => do
    let test ← takeList fuel false false
    expect fuel "do"
    let body ← takeList fuel false false
    expect fuel "done"
    pure (.loop negate test body)

/-- A loop over items, after its first word. -/
def takeEach : Nat → Nat → Reader Statement
  | 0, _ => refuse .openQuote
  | fuel + 1, line => do
    let name ← match ← peek fuel with
      | .word word =>
        match word.plain? with
        | some name => if isName name then pure name else refuse .badLoopVariable
        | none => refuse .badLoopVariable
      | _ => refuse .badLoopVariable
    drop
    let token ← peekPastLines fuel
    let items ←
      if token.keyword? = some (Text.ofString "in") then
        drop
        let words ← takeWords fuel
        let token ← peek fuel
        match token with
        | .newline => drop
        | token => if token.isOperator ";" then drop else refuseToken token none
        pure (some words)
      else
        if token.isOperator ";" then drop
        pure none
    let _ ← peekPastLines fuel
    expect fuel "do"
    let body ← takeList fuel false false
    expect fuel "done"
    pure (.each line name items body)

/-- The words that come next. -/
def takeWords : Nat → Reader (List Word)
  | 0 => refuse .openQuote
  | fuel + 1 => do
    match ← peek fuel with
    | .word word =>
      drop
      pure (word :: (← takeWords fuel))
    | _ => pure []

/-- A selection, after its first word. -/
def takeSelect : Nat → Nat → Reader Statement
  | 0, _ => refuse .openQuote
  | fuel + 1, line => do
    match ← peek fuel with
    | .word subject =>
      drop
      let _ ← peekPastLines fuel
      expect fuel "in"
      pure (.select line subject (← takeArms fuel))
    | token => refuseToken token (some (.word []))

/-- The arms of a selection, up to its last word. -/
def takeArms : Nat → Reader (List (List Word × Statement))
  | 0 => refuse .openQuote
  | fuel + 1 => do
    let token ← peekPastLines fuel
    if token.keyword? = some (Text.ofString "esac") then
      drop
      return []
    if token.isOperator "(" then drop
    let patterns ← takePatterns fuel
    let body ← takeList fuel false true
    let token ← peekPastLines fuel
    if token.isOperator ";;" then
      drop
      pure ((patterns, body) :: (← takeArms fuel))
    else if token.keyword? = some (Text.ofString "esac") then
      drop
      pure [(patterns, body)]
    else refuseToken token (some (.operator ";;"))

/-- The patterns of an arm, up to the closing parenthesis. -/
def takePatterns : Nat → Reader (List Word)
  | 0 => refuse .openQuote
  | fuel + 1 => do
    let word ← match ← peek fuel with
      | .finish => pure []
      | .word word =>
        drop
        pure word
      | _ =>
        drop
        pure []
    let token ← peek fuel
    drop
    if token.isOperator "|" then pure (word :: (← takePatterns fuel))
    else if token.isOperator ")" then pure [word]
    else refuseToken token (some (.operator ")"))

end

end Reader

/-- The statements of the next line of a script and the cursor behind it, or nothing at the end of
the script. -/
def Cursor.next? (c : Cursor) : Except SyntaxFault (Option (Statement × Cursor)) := do
  let fuel := 16 * c.rest.length + 64
  let (token, c) ← (Reader.peek fuel).run c
  match token with
  | .finish => pure none
  | _ => some <$> (Reader.takeList fuel true false).run c

end ProviderKit.Shell
