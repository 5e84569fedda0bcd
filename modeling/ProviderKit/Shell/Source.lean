import ProviderKit.Shell.Statement

/-!
# The text of a script

A script is read from its beginning to its end by a cursor that counts lines. A line may announce
documents, whose texts are the lines after it, each up to a line that says where it ends.
-/

namespace ProviderKit.Shell

/-- The smallest piece of a script with a meaning. -/
inductive Token where
  /-- The script ends here. -/
  | finish
  | newline
  | operator (mark : Text)
  /-- The beginning of a redirection, which may name a stream. -/
  | redirection (descriptor : Option Nat) (mark : Text)
  | word (word : Word)

/-- The words with a meaning of their own where a command may start. -/
def keywords : List Text :=
  ["!", "\x7b", "\x7d", "case", "do", "done", "elif", "else", "esac", "fi", "for", "if", "in",
   "then", "until", "while"].map Text.ofString

namespace Token

/-- The word with a meaning of its own that a token is. -/
def keyword? : Token → Option Text
  | word w =>
    match w.plain? with
    | some t => if keywords.contains t then some t else none
    | none => none
  | _ => none

/-- The token is the given operator. -/
def isOperator (mark : Text) : Token → Bool
  | operator m => m = mark
  | _ => false

/-- How a token is called. -/
def name : Token → Text
  | finish => "end of file"
  | newline => "newline"
  | operator mark => "\"" ++ mark ++ "\""
  | redirection .. => "redirection"
  | word w =>
    match (word w).keyword? with
    | some keyword => "\"" ++ keyword ++ "\""
    | none => "word"

/-- The token ends a list of statements that stands inside another statement. -/
def endsList : Token → Bool
  | finish => true
  | newline | redirection .. => false
  | operator mark => mark = Text.ofString ")" || mark = Text.ofString ";;"
  | word w =>
    match (word w).keyword? with
    | some keyword =>
      (["do", "done", "elif", "else", "esac", "fi", "then", "\x7d"].map Text.ofString).contains
        keyword
    | none => false

end Token

/-- Why a text is no script. -/
inductive SyntaxReason where
  /-- A token stands where it cannot stand, perhaps in place of another one. -/
  | unexpected (found : Token) (expected : Option Token)
  | openQuote
  | openBrace
  | openArithmetic
  | openBackquote
  | badFunctionName
  | badLoopVariable

/-- Where and why a text is no script. -/
structure SyntaxFault where
  line : Nat
  reason : SyntaxReason

/-- The fault in words. -/
def SyntaxFault.message (fault : SyntaxFault) : Text :=
  "Syntax error: " ++
    match fault.reason with
    | .unexpected found none => found.name ++ " unexpected"
    | .unexpected found (some token) =>
      found.name ++ " unexpected (expecting " ++ token.name ++ ")"
    | .openQuote => "Unterminated quoted string"
    | .openBrace => "Missing '\x7d'"
    | .openArithmetic => "Missing '))'"
    | .openBackquote => "EOF in backquote substitution"
    | .badFunctionName => "Bad function name"
    | .badLoopVariable => "Bad for loop variable"

/-- A document whose text has not come yet. -/
structure Awaited where
  id : Nat
  /-- The line that ends the document. -/
  ending : Text
  /-- Tabs at the beginning of lines do not count. -/
  indented : Bool
  /-- The text is like one in double quotes; otherwise all of it stands for itself. -/
  expanded : Bool

/-- How far a script has been read. -/
structure Cursor where
  rest : Text
  line : Nat := 1
  /-- A token that was looked at but not taken yet. -/
  token : Option Token := none
  awaited : List Awaited := []
  /-- The documents that were read. -/
  documents : List (Nat × Word) := []
  /-- The number for the next document. -/
  nextId : Nat := 0
  /-- The texts that stand for words where a command may start. -/
  aliases : List (Text × Text) := []
  /-- The words that were replaced, each with the length of the text behind its replacement. -/
  replaced : List (Text × Nat) := []

/-- Reading a script. -/
abbrev Reader := StateT Cursor (Except SyntaxFault)

namespace Reader

/-- The text is no script. -/
def refuse {α : Type} (reason : SyntaxReason) : Reader α := do
  throw ⟨(← get).line, reason⟩

/-- A token stands where it cannot stand. -/
def refuseToken {α : Type} (token : Token) (expected : Option Token) : Reader α :=
  refuse (.unexpected token expected)

/-- The next character. -/
def look : Reader (Option CodePoint) := do return (← get).rest.head?

/-- The lines that end in a text. -/
def countLines (t : Text) : Nat := t.count (.char '\n')

/-- Takes a number of characters. -/
def take (n : Nat) : Reader Text := do
  let c ← get
  let taken := c.rest.take n
  set { c with rest := c.rest.drop n, line := c.line + countLines taken }
  pure taken

/-- Takes the characters up to the first one that has a property. -/
def takeUntil (stops : CodePoint → Bool) : Reader Text := do
  take ((← get).rest.takeWhile fun c => !stops c).length

/-- The number of characters that make the ends of lines behind backslashes at the beginning of a
text. -/
def joinLength : Text → Nat
  | .char '\\' :: .char '\n' :: t => joinLength t + 2
  | _ => 0

/-- The next character behind joined lines. -/
def lookJoined : Reader (Option CodePoint) := do
  let _ ← take (joinLength (← get).rest)
  look

/-- Takes the given character if it comes next. -/
def accept (c : Char) : Reader Bool := do
  if (← lookJoined) = some (.char c) then
    let _ ← take 1
    pure true
  else pure false

/-- The number of characters that have no meaning at the beginning of a text: blanks, joined lines
and a comment. -/
def blankLength : Text → Nat
  | .char ' ' :: t | .char '\t' :: t => blankLength t + 1
  | .char '\\' :: .char '\n' :: t => blankLength t + 2
  | .char '#' :: t => (t.takeWhile (· != .char '\n')).length + 1
  | _ => 0

/-- Takes blanks, joined lines and a comment. -/
def skipBlanks : Reader Unit := do
  let _ ← take (blankLength (← get).rest)

end Reader

/-- The line ends in a backslash that is not itself behind one. -/
def endsJoined (line : Text) : Bool :=
  (line.reverse.takeWhile (· = .char '\\')).length % 2 = 1

/-- The text of a document at the beginning of a text, and what follows the line that ends it. A
line that is `joined` to the one before it ends no document. -/
def Awaited.cut (a : Awaited) : Nat → Bool → Text → Text × Text
  | 0, _, t => ([], t)
  | _, _, [] => ([], [])
  | fuel + 1, joined, t =>
    let whole := t.takeWhile (· != .char '\n')
    let after := t.drop whole.length
    let line := if a.indented && !joined then whole.dropWhile (· = .char '\t') else whole
    if !joined && line = a.ending then ([], after.drop 1)
    else
      let (more, rest) := a.cut fuel (a.expanded && endsJoined line) (after.drop 1)
      (line ++ after.take 1 ++ more, rest)

end ProviderKit.Shell
