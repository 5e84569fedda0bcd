import ProviderKit.Text.Basic

/-!
# Statements of a script

A script is a sequence of statements, and statements are made of words. A word is a sequence of
parts: plain characters, quoted ones, and the places where a parameter, the output of a statement,
or a number is put in. Words hold statements, so both kinds are declared together.
-/

namespace ProviderKit.Shell

/-- How a file is opened for a stream. -/
inductive Opening where
  /-- The file is read. -/
  | read
  /-- The file is written from its beginning; what it held is gone. -/
  | write
  /-- The same, even where the shell is asked to spare files. -/
  | overwrite
  /-- The file is written at its end. -/
  | append
  /-- The file is read and written. -/
  | update
deriving DecidableEq

mutual

/-- What is made of the value of a parameter. -/
inductive Modifier where
  /-- The value itself. -/
  | value
  /-- The number of its bytes. -/
  | length
  /-- A word in place of a value that is missing or, if `empty` says so, empty. -/
  | otherwise (empty : Bool) (word : List Part)
  /-- The same, and the parameter is set to that word. -/
  | assign (empty : Bool) (word : List Part)
  /-- A value that is missing ends the script, with the word as the complaint. -/
  | require (empty : Bool) (word : List Part)
  /-- A word in place of a value that is not missing. -/
  | instead (empty : Bool) (word : List Part)
  /-- The value without a beginning, the shortest or the longest, that matches a pattern. -/
  | dropFront (longest : Bool) (pattern : List Part)
  /-- The value without an ending that matches a pattern. -/
  | dropBack (longest : Bool) (pattern : List Part)
  /-- What stands between the braces has no meaning. -/
  | bad

/-- A part of a word. -/
inductive Part where
  | plain (t : Text)
  | quoted (t : Text)
  | parameter (inQuotes : Bool) (name : Text) (modifier : Modifier)
  | command (inQuotes : Bool) (body : Statement)
  | arithmetic (inQuotes : Bool) (inside : List Part)

/-- Where one of a command's streams goes to or comes from. -/
inductive Redirection where
  /-- A stream is that of a file. -/
  | file (descriptor : Nat) (opening : Opening) (target : List Part)
  /-- A stream is the same as another one. -/
  | duplicate (descriptor : Nat) (other : List Part)
  /-- A stream is read from a document of the script. -/
  | document (descriptor : Nat) (id : Nat)

/-- A statement. -/
inductive Statement where
  | nothing
  /-- A command, or a number of assignments, on a line. -/
  | simple (line : Nat) (assignments : List (Text × List Part)) (words : List (List Part))
      (redirections : List Redirection)
  /-- A statement with redirections. -/
  | redirected (line : Nat) (body : Statement) (redirections : List Redirection)
  | seq (first second : Statement)
  | both (first second : Statement)
  | either (first second : Statement)
  | negated (body : Statement)
  | piped (first second : Statement)
  | background (body : Statement)
  | subshell (line : Nat) (body : Statement) (redirections : List Redirection)
  | choice (test yes no : Statement)
  /-- The body is run as long as the test succeeds, or fails if `negate` says so. -/
  | loop (negate : Bool) (test body : Statement)
  /-- The body is run for each item, by default for each argument of the script. -/
  | each (line : Nat) (name : Text) (items : Option (List (List Part))) (body : Statement)
  | select (line : Nat) (subject : List Part) (arms : List (List (List Part) × Statement))
  /-- The body gets a name, under which it is called with arguments of its own. -/
  | define (name : Text) (body : Statement)

end

/-- A word as it is written. -/
abbrev Word := List Part

namespace Word

/-- A part before a word; characters of one kind that meet become one part. -/
def cons : Part → Word → Word
  | .plain s, .plain t :: word => .plain (s ++ t) :: word
  | .quoted s, .quoted t :: word => .quoted (s ++ t) :: word
  | part, word => part :: word

/-- The text of a word of plain characters only. -/
def plain? : Word → Option Text
  | [.plain t] => some t
  | _ => none

/-- Some part of the word is in quotes. -/
def hasQuotes (word : Word) : Bool :=
  word.any fun
    | .quoted _ => true
    | _ => false

/-- The characters that stand in a word as they are. -/
def literal (word : Word) : Text :=
  word.flatMap fun
    | .plain t | .quoted t => t
    | _ => []

end Word

instance : Inhabited Statement := ⟨.nothing⟩

/-- A statement with another one after it, if there is one. -/
def Statement.andThen (first : Statement) : Statement → Statement
  | .nothing => first
  | second => .seq first second

/-- The statement with redirections, if there are any. -/
def Statement.redirect (line : Nat) (body : Statement) : List Redirection → Statement
  | [] => body
  | redirections =>
    match body with
    | .subshell line body [] => .subshell line body redirections
    | body => .redirected line body redirections

/-- A character that may start a name. -/
def isNameStart (c : CodePoint) : Bool := c.satisfies fun c => c.isAlpha || c = '_'

/-- A character of a name. -/
def isNamePart (c : CodePoint) : Bool := c.satisfies fun c => c.isAlphanum || c = '_'

/-- A text is a name of variables and functions. -/
def isName (t : Text) : Bool := (t.head?.map isNameStart).getD false && t.all isNamePart

/-- A character that names a parameter on its own. -/
def isSpecialName (c : CodePoint) : Bool :=
  c.satisfies fun c => c.isDigit || "@*#?$!-".toList.contains c

/-- The name that a word assigns to, and the word that it assigns. -/
def assignment? : Word → Option (Text × Word)
  | .plain t :: word =>
    match Text.cut (.char '=') t with
    | (name, some value) =>
      if isName name then some (name, if value.isEmpty then word else .plain value :: word)
      else none
    | (_, none) => none
  | _ => none

/-- The commands that are known before any program is, and whose errors end a script. -/
def specialCommands : List Text :=
  [".", ":", "break", "continue", "eval", "exec", "exit", "export", "local", "readonly",
   "return", "set", "shift", "times", "trap", "unset"].map Text.ofString

end ProviderKit.Shell
