import ProviderKit.Shell.Program.Lines
import ProviderKit.Shell.Regular

/-!
# Editing lines

A program that changes its input line by line, as the commands of a script say. A command is done to
the lines that its address selects.
-/

namespace ProviderKit.Shell.Program

/-- What selects a line. -/
inductive Address where
  | line (n : Nat)
  | last
  | matching (r : Regular)

/-- A part of the text that replaces a match. -/
inductive Substitute where
  | text (cs : List Char)
  /-- The text of a group; the group zero is the whole match. -/
  | group (n : Nat)

/-- What a command does to a line. -/
inductive Edit where
  | delete
  | print
  | quit
  | number
  | next
  | append
  | before (t : List Char)
  | after (t : List Char)
  | instead (t : List Char)
  | transliterate (pairs : List (Char × Char))
  /-- Replaces the match of a number and, if `all` says so, those after it. -/
  | replace (r : Regular) (parts : List Substitute) (nth : Nat) (all prints : Bool)

/-- A command of a script. -/
structure EditCommand where
  first : Option Address := none
  second : Option Address := none
  isNegated : Bool := false
  edit : Edit

/-- What is wrong with a script, and where. -/
structure ScriptFault where
  position : Nat
  complaint : String

/-- Reading a script: the characters that are left and the number of those that were read. -/
abbrev ScriptReader := StateT (List Char × Nat) (Except ScriptFault)

namespace ScriptReader

/-- The script is wrong here. -/
def wrong {α : Type} (complaint : String) : ScriptReader α := do
  throw { position := (← get).2, complaint }

/-- The next character, which stays. -/
def peek? : ScriptReader (Option Char) := return (← get).1.head?

/-- Goes on by a number of characters. -/
def skip (n : Nat) : ScriptReader Unit := modify fun (cs, position) => (cs.drop n, position + n)

/-- Takes characters as long as they have a property. -/
def takeWhile (property : Char → Bool) : ScriptReader (List Char) := do
  let taken := (← get).1.takeWhile property
  skip taken.length
  pure taken

/-- Takes the characters before a delimiter, and the delimiter. One that stands behind a backslash
ends nothing. -/
def takeUntil (delimiter : Char) (unended : String) : Nat → ScriptReader (List Char)
  | 0 => wrong unended
  | fuel + 1 => do
    match (← get).1 with
    | [] => wrong unended
    | '\\' :: c :: _ =>
      skip 2
      let rest ← takeUntil delimiter unended fuel
      pure (if c = delimiter then c :: rest else '\\' :: c :: rest)
    | c :: _ =>
      skip 1
      if c = delimiter then pure [] else return c :: (← takeUntil delimiter unended fuel)

/-- The expression that a text describes. -/
def expression (form : Regular.Form) (t : List Char) : ScriptReader Regular :=
  match Regular.ofText form t with
  | .ok r => pure r
  | .error fault => wrong fault

/-- The number of characters that are left. -/
def size : ScriptReader Nat := return (← get).1.length

/-- An address, if there is one. -/
def address? (form : Regular.Form) : ScriptReader (Option Address) := do
  match ← peek? with
  | some '$' =>
    skip 1
    pure (some .last)
  | some '/' =>
    skip 1
    let t ← takeUntil '/' "unterminated address regex" ((← size) + 1)
    pure (some (.matching (← expression form t)))
  | some c =>
    if c.isDigit then
      let digits ← takeWhile Char.isDigit
      pure (some (.line (Text.digitsValue (Text.ofChars digits))))
    else pure none
  | none => pure none

/-- A blank, but no end of a line. -/
def isBlank (c : Char) : Bool := c = ' ' || c = '\t'

/-- The parts of a text that replaces a match. -/
def substitutes : List Char → List Substitute
  | [] => []
  | '\\' :: c :: rest =>
    if c.isDigit then .group (c.toNat - '0'.toNat) :: substitutes rest
    else
      let c := if c = 'n' then '\n' else if c = 't' then '\t' else c
      .text [c] :: substitutes rest
  | '&' :: rest => .group 0 :: substitutes rest
  | c :: rest => .text [c] :: substitutes rest

/-- The command that replaces matches. -/
def replacement (form : Regular.Form) : ScriptReader Edit := do
  let unended := "unterminated `s' command"
  match ← peek? with
  | none => wrong unended
  | some delimiter =>
    skip 1
    let pattern ← takeUntil delimiter unended ((← size) + 1)
    let parts ← takeUntil delimiter unended ((← size) + 1)
    let flags ← takeWhile fun c => c.isDigit || "gpiIm".toList.contains c
    let digits := flags.filter Char.isDigit
    let nth := if digits.isEmpty then 1 else Text.digitsValue (Text.ofChars digits)
    let ignoresCase := flags.contains 'i' || flags.contains 'I'
    let r ← expression { form with ignoresCase } pattern
    pure (.replace r (substitutes parts) nth (flags.contains 'g') (flags.contains 'p'))

/-- The text that a command adds. -/
def addedText : ScriptReader (List Char) := do
  let _ ← takeWhile isBlank
  match (← get).1 with
  | '\\' :: '\n' :: _ => skip 2
  | '\\' :: _ => skip 1
  | _ => pure ()
  let t ← takeWhile (· != '\n')
  if t.isEmpty then wrong "expected \\ after `a', `c' or `i'"
  pure (t ++ ['\n'])

/-- A command without its address. -/
def edit (form : Regular.Form) : ScriptReader Edit := do
  match ← peek? with
  | none => wrong "missing command"
  | some c =>
    skip 1
    match c with
    | 'd' => pure .delete
    | 'p' => pure .print
    | 'q' => pure .quit
    | '=' => pure .number
    | 'n' => pure .next
    | 'N' => pure .append
    | 'i' => return .before (← addedText)
    | 'a' => return .after (← addedText)
    | 'c' => return .instead (← addedText)
    | 's' => replacement form
    | 'y' =>
      let unended := "unterminated `y' command"
      match ← peek? with
      | none => wrong unended
      | some delimiter =>
        skip 1
        let domain ← takeUntil delimiter unended ((← size) + 1)
        let images ← takeUntil delimiter unended ((← size) + 1)
        if domain.length != images.length then
          wrong "strings for `y' command are different lengths"
        pure (.transliterate (domain.zip images))
    | c => wrong ("unknown command: `" ++ String.singleton c ++ "'")

/-- The commands of a script. -/
def commands (form : Regular.Form) : Nat → ScriptReader (List EditCommand)
  | 0 => pure []
  | fuel + 1 => do
    let _ ← takeWhile fun c => isBlank c || c = '\n' || c = ';'
    match ← peek? with
    | none => pure []
    | some '#' =>
      let _ ← takeWhile (· != '\n')
      commands form fuel
    | some _ =>
      let first ← address? form
      let second ← match first, (← get).1 with
        | some _, ',' :: _ =>
          skip 1
          address? form
        | _, _ => pure none
      let _ ← takeWhile isBlank
      let isNegated := (← peek?) = some '!'
      if isNegated then skip 1
      let _ ← takeWhile isBlank
      let edit ← edit form
      let _ ← takeWhile isBlank
      match edit, ← peek? with
      | .before _, _ | .after _, _ | .instead _, _ => pure ()
      | _, none | _, some '\n' | _, some ';' | _, some '#' => pure ()
      | .replace .., _ =>
        skip 1
        wrong "unknown option to `s'"
      | _, some _ =>
        skip 1
        wrong "extra characters after command"
      return { first, second, isNegated, edit } :: (← commands form fuel)

end ScriptReader

/-- The state of an editor: the line that is edited, and what comes of it. -/
structure Editor where
  line : List Char := []
  number : Nat := 0
  /-- The lines that were not read yet. -/
  rest : List (List Char) := []
  /-- The texts that were written, the last one first. -/
  written : List (List Char) := []
  /-- The texts that go behind the line. -/
  added : List (List Char) := []
  /-- The commands, by their numbers, whose ranges are open. -/
  isOpen : List Nat := []
  isQuiet : Bool := false
  hasEnded : Bool := false

/-- What is done after a command. -/
inductive Onward where
  | go
  /-- The line is done and is not written. -/
  | dropped
  /-- The line is done. -/
  | done

namespace Editor

/-- With one more text written. -/
def say (e : Editor) (t : List Char) : Editor := { e with written := t :: e.written }

/-- The line is the last one. -/
def isLast (e : Editor) : Bool := e.rest.isEmpty

/-- An address selects the line. -/
def isAt (e : Editor) : Address → Bool
  | .line n => e.number = n
  | .last => e.isLast
  | .matching r => (r.search e.line.toArray 0).isSome

/-- A command, with its number, is to be done to the line. -/
def selects (e : Editor) (n : Nat) (c : EditCommand) : Bool × Editor :=
  match c.first, c.second with
  | none, _ => (true, e)
  | some first, none => (e.isAt first, e)
  | some first, some second =>
    if e.isOpen.contains n then
      let ends : Bool := match second with
        | .line m => m ≤ e.number
        | second => e.isAt second
      let isPast : Bool := match second with
        | .line m => m < e.number
        | _ => false
      let isOpen := if ends then e.isOpen.filter (· != n) else e.isOpen
      (!isPast, { e with isOpen })
    else if e.isAt first then
      let isOne : Bool := match second with
        | .line m => m ≤ e.number
        | .last => e.isLast
        | .matching _ => false
      (true, if isOne then e else { e with isOpen := n :: e.isOpen })
    else (false, e)

/-- The text that replaces a match. -/
def fill (subject : Array Char) (found : Nat × Regular.Found) (parts : List Substitute) :
    List Char :=
  let (start, finish, groups) := found
  let piece (a b : Nat) : List Char := (subject.toList.drop a).take (b - a)
  parts.flatMap fun
    | .text cs => cs
    | .group 0 => piece start finish
    | .group n => match groups.lookup n with
      | some (a, b) => piece a b
      | none => []

/-- The line with matches replaced, and whether there were any: `nth` more matches have to come
before the first that is replaced. -/
def replaceFrom (r : Regular) (parts : List Substitute) (all : Bool) (subject : Array Char) :
    Nat → Nat → Option Nat → Nat → List Char × Bool
  | 0, position, _, _ => (subject.toList.drop position, false)
  | fuel + 1, position, last, nth =>
    match r.search subject position with
    | none => (subject.toList.drop position, false)
    | some (start, finish, groups) =>
      let kept := (subject.toList.drop position).take (start - position)
      if finish = start && last = some start then
        match subject[start]? with
        | some c =>
          let (rest, changed) := replaceFrom r parts all subject fuel (start + 1) none nth
          (kept ++ c :: rest, changed)
        | none => (kept, false)
      else
        let isDone := nth ≤ 1
        let text := if isDone then fill subject (start, finish, groups) parts
          else (subject.toList.drop start).take (finish - start)
        if isDone && !all then (kept ++ text ++ subject.toList.drop finish, true)
        else if finish = start then
          match subject[start]? with
          | some c =>
            let (rest, changed) :=
              replaceFrom r parts all subject fuel (start + 1) none (nth - 1)
            (kept ++ text ++ c :: rest, changed || isDone)
          | none => (kept ++ text, isDone)
        else
          let (rest, changed) :=
            replaceFrom r parts all subject fuel finish (some finish) (nth - 1)
          (kept ++ text ++ rest, changed || isDone)

/-- The line as it is written when it is done. -/
def finishLine (e : Editor) : Editor :=
  let e := if e.isQuiet then e else e.say (e.line ++ ['\n'])
  { e with written := e.added.reverse ++ e.written, added := [] }

/-- The editor after a command. -/
def perform (e : Editor) (c : EditCommand) : Editor × Onward :=
  match c.edit with
  | .delete => (e, .dropped)
  | .print => (e.say (e.line ++ ['\n']), .go)
  | .quit => ({ e with hasEnded := true }, .done)
  | .number => (e.say ((toString e.number).toList ++ ['\n']), .go)
  | .next =>
    match e.rest with
    | [] => ({ e with hasEnded := true }, .done)
    | line :: rest => ({ e.finishLine with line, rest, number := e.number + 1 }, .go)
  | .append =>
    match e.rest with
    | [] => ({ e with hasEnded := true }, .done)
    | line :: rest =>
      ({ e with line := e.line ++ '\n' :: line, rest, number := e.number + 1 }, .go)
  | .before t => (e.say t, .go)
  | .after t => ({ e with added := e.added ++ [t] }, .go)
  | .instead t => (if c.second.isNone || e.isOpen.isEmpty then e.say t else e, .dropped)
  | .transliterate pairs => ({ e with line := e.line.map fun c => (pairs.lookup c).getD c }, .go)
  | .replace r parts nth all prints =>
    let (line, changed) := replaceFrom r parts all e.line.toArray (e.line.length + 2) 0 none nth
    let e := if changed then { e with line } else e
    (if changed && prints then e.say (line ++ ['\n']) else e, .go)

/-- The editor after commands, with their numbers, were done to the line. -/
def performAll (e : Editor) : List (EditCommand × Nat) → Editor
  | [] => e.finishLine
  | (c, n) :: rest =>
    let (isSelected, e) := e.selects n c
    if isSelected = c.isNegated then performAll e rest
    else match e.perform c with
      | (e, .go) => performAll e rest
      | (e, .done) => e.finishLine
      | (e, .dropped) => { e with written := e.added.reverse ++ e.written, added := [] }

/-- The editor after a number of lines. -/
def edit (commands : List (EditCommand × Nat)) : Nat → Editor → Editor
  | 0, e => e
  | fuel + 1, e =>
    match e.rest, e.hasEnded with
    | line :: rest, false =>
      edit commands fuel (performAll { e with line, rest, number := e.number + 1 } commands)
    | _, _ => e

/-- The bytes that come of editing. -/
def output (commands : List EditCommand) (isQuiet : Bool) (bytes : Bytes) : Bytes :=
  let lines := (cutLines bytes).map fun line => byteChars (withoutEnd line)
  let e := edit commands.zipIdx (lines.length + 1) { rest := lines, isQuiet }
  let written := charBytes e.written.reverse.flatten
  let isWhole := bytes.getLast? = some 10 || bytes.isEmpty || e.hasEnded
  if isWhole || !e.rest.isEmpty then written else withoutEnd written

end Editor

/-- Edits files or the input. -/
def sed : Utility := fun arguments => do
  let g ← read "sed"
    { letters := "nErsuz", valued := "ef"
      names := [("quiet", 'n'), ("silent", 'n'), ("expression", 'e'), ("regexp-extended", 'E')] }
    (arguments.filter fun a => !a.hasPrefix "-i")
  let isInPlace := arguments.any (·.hasPrefix "-i")
  let (scripts, operands) := match g.values 'e', g.operands with
    | [], script :: rest => ([script], rest)
    | scripts, operands => (scripts, operands)
  if scripts.isEmpty then throw (.exit 1)
  let form : Regular.Form := { isExtended := g.has 'E' || g.has 'r' }
  let cs := textChars (Text.join "\n" scripts)
  match (ScriptReader.commands form (cs.length + 1)).run' (cs, 0) with
  | .error fault =>
    stop 1 ("sed: -e expression #1, char " ++ Text.ofNat fault.position ++ ": " ++
      Text.ofString fault.complaint)
  | .ok commands =>
    let complaint (operand : Text) (fault : Disk.Fault) : Text :=
      "sed: can't read " ++ operand ++ ": " ++ reasonText fault
    if isInPlace then
      forInputs operands complaint fun operand bytes => do
        let s ← get
        let bytes := Editor.output commands (g.has 'n') bytes
        match s.disk.write (pathOf s operand) (.bytes bytes) with
        | .ok disk => set { s with disk }
        | .error _ => pure ()
    else
      let (status, contents) ← allContents operands complaint
      writeBytes (Editor.output commands (g.has 'n') contents.flatten)
      pure (if status = 0 then 0 else 2)

end ProviderKit.Shell.Program
