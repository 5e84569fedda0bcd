import ProviderKit.Shell.Program.Lines
import ProviderKit.Shell.Regular

/-!
# Searching lines

A program that writes the lines in which a regular expression matches.
-/

namespace ProviderKit.Shell.Program

/-- What is searched for, and how what is found is shown. -/
structure Quest where
  expression : Regular
  given : Given
  /-- A name stands before each line. -/
  isNamed : Bool

namespace Quest

/-- The expression that patterns stand for together. -/
def expressionOf (g : Given) (patterns : List Text) : Except Regular.Fault Regular := do
  let form : Regular.Form := { isExtended := g.has 'E', ignoresCase := g.has 'i' || g.has 'y' }
  let parts ← patterns.mapM fun t =>
    if g.has 'F' then
      pure ((textChars t).foldr (fun c r => .seq (Regular.letter form c) r) Regular.empty)
    else Regular.ofText form (textChars t)
  let bounded (r : Regular) : Regular :=
    if g.has 'x' then r.asWhole else if g.has 'w' then r.asWord else r
  match parts with
  | [] => pure (.one fun _ => false)
  | first :: rest => pure (rest.foldl (fun r part => .either r (bounded part)) (bounded first))

/-- The parts of a line that match. -/
def matchesIn (r : Regular) (line : Array Char) : Nat → Nat → List Bytes
  | 0, _ => []
  | fuel + 1, position =>
    match r.search line position with
    | none => []
    | some (start, finish, _) =>
      let part := charBytes ((line.toList.drop start).take (finish - start))
      if finish = start then
        if start < line.size then matchesIn r line fuel (start + 1) else []
      else part :: matchesIn r line fuel finish

/-- Searches the content of an operand, and says whether anything was found. -/
def search (quest : Quest) (title : Text) (bytes : Bytes) : Action Bool := do
  let g := quest.given
  let lines := ((cutLines bytes).map withoutEnd).zipIdx 1
  let hits := lines.filter fun (line, _) =>
    ((quest.expression.search (byteChars line).toArray 0).isSome) != g.has 'v'
  let hits := match (g.value? 'm').bind natural? with
    | some most => hits.take most
    | none => hits
  let isFound := !hits.isEmpty
  let front (n : Nat) : Text :=
    (if quest.isNamed then title ++ ":" else []) ++
      if g.has 'n' then Text.ofNat n ++ ":" else []
  if g.has 'q' then pure ()
  else if g.has 'l' || g.has 'L' then
    if isFound != g.has 'L' then writeLine title
  else if g.has 'c' then
    writeLine ((if quest.isNamed then title ++ ":" else []) ++ Text.ofNat hits.length)
  else
    for (line, n) in hits do
      let parts : List Bytes :=
        if g.has 'o' then matchesIn quest.expression (byteChars line).toArray (line.length + 1) 0
        else [line]
      for part in parts do writeBytes (Utf8.encodeLossless (front n) ++ part ++ [10])
  pure isFound

end Quest

/-- Writes the lines in which patterns match. -/
def grep : Utility := fun arguments => do
  let g ← read "grep"
    { letters := "aEFGHLRbchilnoqrsvwxyz", valued := "ABCefm", status := 2
      names := [("regexp", 'e'), ("ignore-case", 'i'), ("invert-match", 'v'), ("count", 'c'),
        ("quiet", 'q'), ("silent", 'q'), ("line-number", 'n'), ("extended-regexp", 'E'),
        ("fixed-strings", 'F'), ("word-regexp", 'w'), ("line-regexp", 'x'),
        ("only-matching", 'o'), ("no-messages", 's'), ("max-count", 'm')] } arguments
  let (patterns, operands) ← match g.values 'e', g.operands with
    | [], [] =>
      stop 2 "Usage: grep [OPTION]... PATTERNS [FILE]...\nTry 'grep --help' for more information."
    | [], pattern :: rest => pure ([pattern], rest)
    | patterns, operands => pure (patterns, operands)
  match Quest.expressionOf g (patterns.flatMap (Text.split (.char '\n'))) with
  | .error fault => stop 2 ("grep: " ++ Text.ofString fault)
  | .ok expression =>
    let isNamed := g.has 'H' || (operands.length > 1 && !g.has 'h')
    let quest : Quest := { expression, given := g, isNamed }
    let mut isFound := false
    let mut hasFailed := false
    for operand in (if operands.isEmpty then [Text.ofString "-"] else operands) do
      if !(isFound && g.has 'q') then
        match ← contentOf operand with
        | .ok bytes =>
          let title : Text :=
            if operand = Text.ofString "-" then "(standard input)" else operand
          let found ← quest.search title bytes
          isFound := isFound || found
        | .error fault =>
          if !g.has 's' then
            complain (Text.ofString "grep: " ++ operand ++ ": " ++ reasonText fault)
          hasFailed := true
    pure (if isFound && (g.has 'q' || !hasFailed) then 0 else if hasFailed then 2 else 1)

end ProviderKit.Shell.Program
