import ProviderKit.Console.Wrap
import ProviderKit.Failure
import ProviderKit.Message
import ProviderKit.Number.Numeral
import ProviderKit.Surroundings

/-!
# Consoles

A console shows messages: results on the standard output, everything else on the standard error
output. A quiet console keeps progress, achievements, hints and tool output to itself, and only a
verbose one shows details and the log. The time that a record of the log begins with is left out. A
plain console writes the text of a message; any other one puts emoji in place of their codes, breaks
the text to the width of the terminal and may colour it.
-/

namespace ProviderKit

/-- How messages are shown. -/
structure Console where
  plain : Bool := true
  quiet : Bool := false
  verbose : Bool := false
  width : Nat := 80
  coloured : Bool := false
  /-- The emoji that a code stands for. -/
  emoji : Text → Option Text := fun _ => none

/-- What was written to the two streams. -/
structure Output where
  standard : Text := []
  error : Text := []
deriving DecidableEq

namespace Message

/-- A message whose text is kept as it is. -/
def isRaw : Message → Bool
  | toolOutput _ | data _ | notice _ | page _ | log _ => true
  | info _ | success _ | warning _ | error _ | suggest _ | debug _ => false

/-- What a hint begins with. -/
def arrow : Text := "→ "

/-- What a detail begins with. -/
def debugMark : Text := "[debug] "

/-- What a record begins with, behind the time. -/
def logMark : Text := "[DEBUG] provider_scripts.runner: "

/-- The line of a message on a plain console. -/
def line : Message → Text
  | info t | success t | data t | toolOutput t | notice t | page t => t
  | warning t => "Warning: " ++ t
  | error t => "Error: " ++ t
  | suggest t => arrow ++ t
  | debug t => debugMark ++ t
  | log t => logMark ++ t

/-- The markup of a message on any other console. -/
def markup : Message → Text
  | info t | data t | toolOutput t | notice t | page t | log t => Markup.escape t
  | success t => Markup.wrapped .green (Markup.escape t)
  | warning t => Markup.wrapped .yellow "Warning:" ++ " " ++ Markup.escape t
  | error t => Markup.wrapped .boldRed "Error:" ++ " " ++ Markup.escape t
  | suggest t => Markup.wrapped .dim (Markup.escape (arrow ++ t))
  | debug t => Markup.wrapped .dim ("\\[debug] " ++ Markup.escape t)

end Message

namespace Console

/-- The console shows messages of this kind. -/
def shows (c : Console) : Message → Bool
  | .info _ | .success _ | .suggest _ => !c.quiet
  | .toolOutput t => !c.quiet && !t.isBlank
  | .debug _ | .log _ => c.verbose
  | .warning _ | .error _ | .data _ | .notice _ | .page _ => true

/-- A character that moves the cursor of a terminal and is not written. -/
def isControl (c : CodePoint) : Bool :=
  c.satisfies fun c => c = '\x07' || c = '\x08' || c = '\x0b' || c = '\x0c' || c = '\r'

/-- The runs of one style that a line is made of. -/
def runs : StyledText → List (Option Style × Text)
  | [] => []
  | c :: t =>
    match runs t with
    | [] => [(c.style, [c.code])]
    | (style, run) :: rest =>
      if c.style = style && !c.endsRun then (style, c.code :: run) :: rest
      else (c.style, [c.code]) :: (style, run) :: rest

/-- A run of one style as it is written, with control sequences around it where there is colour. -/
def paint (coloured : Bool) : Option Style × Text → Text
  | (some style, run) =>
    if coloured then "\x1b[" ++ style.parameters ++ "m" ++ run ++ "\x1b[0m" else run
  | (none, run) => run

/-- A styled line as it is written. -/
def paintLine (coloured : Bool) (line : StyledText) : Text := (runs line).flatMap (paint coloured)

/-- Styled text as it is written on a console of a width above zero. -/
def render (c : Console) (t : StyledText) : Text :=
  if c.width = 0 then []
  else Text.join "\n" ((Wrap.wrap c.width (t.filter fun c => !isControl c.code)).map
    (paintLine c.coloured)) ++ "\n"

/-- A text with an end of line at its end. -/
def endLine (t : Text) : Text := if t.hasSuffix "\n" then t else t ++ "\n"

/-- What markup says on the console. -/
def read (c : Console) (markup : Text) : StyledText :=
  Markup.textOf [] ((Markup.items markup).map (Markup.Item.withEmoji c.emoji))

/-- What a message writes. -/
def write (c : Console) (message : Message) : Output :=
  if !c.shows message then {}
  else match message with
    | .data t => { standard := t ++ "\n" }
    | .toolOutput t => { error := endLine t }
    | .notice t => { error := t }
    | .page t => { standard := t }
    | .log t => { error := (Message.log t).line ++ "\n" }
    | message =>
      { error := if c.plain then message.line ++ "\n" else c.render (c.read message.markup) }

/-- What messages write, in order. -/
def writeAll (c : Console) (messages : List Message) : Output :=
  { standard := messages.flatMap fun message => (c.write message).standard
    error := messages.flatMap fun message => (c.write message).error }

/-- The environment asks for plain output. -/
def asksPlain (environment : Environment) : Bool :=
  (environment.get? "NO_COLOR").isSome || environment.get? "TERM" = some (Text.ofString "dumb")

/-- The environment says that the output goes to a terminal. -/
def asksTerminal (environment : Environment) : Bool :=
  let compatible := environment.get "TTY_COMPATIBLE"
  if compatible = Text.ofString "0" then false
  else if compatible = Text.ofString "1" then true
  else match environment.get? "FORCE_COLOR" with
    | some force => !force.isEmpty
    | none => false

/-- The terminal can do nothing but write. -/
def isDumb (environment : Environment) : Bool :=
  let term := (environment.get "TERM").lowerAscii
  asksTerminal environment && (term = Text.ofString "dumb" || term = Text.ofString "unknown")

/-- The width of a console whose environment does not say. -/
def usualWidth : Nat := 80

/-- The size that a variable asks for in digits, if it does. Digits that stand in no number are no
answer. -/
def sizeOf (environment : Environment) (name : Text) : Except Failure (Option Nat) :=
  let asked := environment.get name
  if asked.isEmpty || !asked.all (·.satisfies Char.isAnyDigit) then .ok none
  else match asked.toChars?.bind (Numeral.int? 10) with
    | some n => if asked.length ≤ Numeral.lengthLimit then .ok n.toNat else .error .badSize
    | none => .error .badSize

/-- The width that the environment asks for. A terminal that can do nothing but write is only
believed to have a size if both its sides are given. -/
def widthOf (environment : Environment) : Except Failure Nat := do
  let columns ← sizeOf environment "COLUMNS"
  let lines ← sizeOf environment "LINES"
  if isDumb environment && lines.isNone then pure usualWidth
  else pure (columns.getD usualWidth)

/-- The variable that sets the width of pages of help. -/
def pageVariable : Text := "TERMINAL_WIDTH"

/-- The width of a page of help, where it is not that of the console. The height is asked for
too. -/
def pageWidthOf (environment : Environment) : Except Failure Unit := do
  if (environment.get pageVariable).isEmpty then
    let _ ← sizeOf environment "COLUMNS"
  let _ ← sizeOf environment "LINES"

/-- The console for the options of a run in an environment. -/
def make (noColor quiet verbose : Bool) (environment : Environment) : Except Failure Console := do
  let width ← widthOf environment
  pure
    { plain := noColor || asksPlain environment
      quiet, verbose, width
      coloured := asksTerminal environment && !isDumb environment }

end Console

end ProviderKit
