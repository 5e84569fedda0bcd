import ProviderKit.Shell.Program.Characters
import ProviderKit.Shell.Program.Counting
import ProviderKit.Shell.Program.Editing
import ProviderKit.Shell.Program.Lines
import ProviderKit.Shell.Program.Names
import ProviderKit.Shell.Program.Search

/-!
# The programs of the machine

Every program by its name.
-/

namespace ProviderKit.Shell.Program

/-- Writes the arguments with blanks between them; escapes are replaced only if that is asked
for. -/
def echo : Utility := fun arguments => do
  let isOption (a : Text) : Bool := a.hasPrefix "-" && a.length > 1 &&
    (a.drop 1).all fun c => c.satisfies fun c => c = 'n' || c = 'e' || c = 'E'
  let options := (arguments.takeWhile isOption).flatten
  let t := Text.join " " (arguments.dropWhile isOption)
  let escapes : Bool := options.reverse.find? (fun c => c = .char 'e' || c = .char 'E') =
    some (.char 'e')
  let (bytes, ended) := if escapes then unescape t.length t else (Utf8.encodeLossless t, false)
  writeBytes (if ended || options.contains (.char 'n') then bytes else bytes ++ [10])
  pure 0

/-- Writes files, or the input, one after the other. -/
def cat : Utility := fun arguments => do
  let g ← read "cat" { letters := "nbEsuvAeTt" } arguments
  forInputs g.operands (plainComplaint "cat") fun _ bytes => writeBytes bytes

/-- The nanoseconds that a number of seconds, minutes, hours or days makes. -/
def duration? (t : Text) : Option Nat :=
  let (whole, rest) := t.span (·.satisfies Char.isDigit)
  let (fraction, rest) : Text × Text := match rest with
    | .char '.' :: rest => rest.span (·.satisfies Char.isDigit)
    | _ => ([], rest)
  let unit? : Option Nat := match rest with
    | [] => some 1
    | [.char 's'] => some 1
    | [.char 'm'] => some 60
    | [.char 'h'] => some 3600
    | [.char 'd'] => some 86400
    | _ => none
  if whole.isEmpty && fraction.isEmpty then none
  else unit?.map fun unit =>
    (Text.digitsValue whole * Nat.pow 10 fraction.length + Text.digitsValue fraction) * unit *
      TimeLimit.nanosecondsPerSecond / Nat.pow 10 fraction.length

/-- Lets time pass. -/
def pause : Utility := fun arguments => do
  let g ← read "sleep" {} arguments
  if g.operands.isEmpty then misuse "sleep" {} "missing operand"
  match g.operands.find? fun t => (duration? t).isNone with
  | some t => misuse "sleep" {} ("invalid time interval " ++ named t)
  | none =>
    sleep ((g.operands.filterMap duration?).foldl (· + ·) 0)
    pure 0

/-- The programs of the machine that run no other program. -/
def table : List (Text × Utility) :=
  let onNames : List (String × Utility) :=
    [("basename", basename), ("chmod", chmod), ("cp", cp), ("dirname", dirname), ("ln", ln),
     ("ls", ls), ("mkdir", mkdir), ("mv", mv), ("pwd", pwd), ("readlink", readlink),
     ("realpath", realpath), ("rm", rm), ("rmdir", rmdir), ("touch", touch)]
  let onLines : List (String × Utility) :=
    [("cat", cat), ("cut", cut), ("echo", echo), ("grep", grep), ("head", head),
     ("printf", Control.printf), ("sed", sed), ("seq", seq), ("sort", sort), ("tac", tac),
     ("tail", tail), ("tee", tee), ("tr", tr), ("uniq", uniq), ("wc", wc)]
  let onNothing : List (String × Utility) :=
    [("[", Control.bracket), ("expr", expr), ("false", Control.refuse),
     ("kill", Control.kill), ("sleep", pause), ("test", Control.test), ("true", Control.succeed)]
  (onNames ++ onLines ++ onNothing).map fun (name, utility) => (Text.ofString name, utility)

end ProviderKit.Shell.Program
