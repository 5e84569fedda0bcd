import ProviderKit.Yaml.Cursor

/-!
# Scalars of a YAML text

The content of the three kinds of scalars: plain ones, quoted ones, and blocks. Each reader
returns the content and the place after it. Inside a scalar one line end folds into a space, and
of several all but the first remain. Loops are bounded by `fuel`, which is at least the number of
characters left.
-/

namespace ProviderKit.Yaml

/-- The line ends at this place, with spaces and tabs between them, up to the first character of
the next line that has content. -/
def quotedBreaks : Nat → Cursor → Except Fault (List Char × Cursor)
  | 0, _ => .error .malformed
  | fuel + 1, c =>
    if c.isSeparator then .error .malformed
    else
      let c := c.skipWhile fun ch => ch = ' ' || ch = '\t'
      match c.lineBreak with
      | none => .ok ([], c)
      | some (b, c) => do
        let (breaks, c) ← quotedBreaks fuel c
        pure (b :: breaks, c)

/-- White space inside a quoted scalar. -/
def quotedSpaces (fuel : Nat) (c : Cursor) : Except Fault (List Char × Cursor) :=
  let (spaces, c) := c.takeWhile fun ch => ch = ' ' || ch = '\t'
  match c.peek with
  | none => .error .malformed
  | some _ =>
    match c.lineBreak with
    | none => .ok (spaces, c)
    | some (b, c) => do
      let (breaks, c) ← quotedBreaks fuel c
      if b != '\n' then pure (b :: breaks, c)
      else if breaks.isEmpty then pure ([' '], c)
      else pure (breaks, c)

/-- The character that a one-letter escape names. -/
def simpleEscape? : Char → Option Char
  | '0' => some '\x00'
  | 'a' => some '\x07'
  | 'b' => some '\x08'
  | 't' | '\t' => some '\t'
  | 'n' => some '\n'
  | 'v' => some '\x0b'
  | 'f' => some '\x0c'
  | 'r' => some '\r'
  | 'e' => some '\x1b'
  | ' ' => some ' '
  | '"' => some '"'
  | '\\' => some '\\'
  | '/' => some '/'
  | 'N' => some '\x85'
  | '_' => some '\xa0'
  | 'L' => some '\u2028'
  | 'P' => some '\u2029'
  | _ => none

/-- The number of hexadecimal digits after the letter of a numeric escape. -/
def escapeWidth? : Char → Option Nat
  | 'x' => some 2
  | 'u' => some 4
  | 'U' => some 8
  | _ => none

/-- An escape, after its backslash. -/
def readEscape (fuel : Nat) (c : Cursor) : Except Fault (Text × Cursor) :=
  match c.peek with
  | none => .error .malformed
  | some ch =>
    match simpleEscape? ch, escapeWidth? ch with
    | some e, _ => .ok ([.char e], c.next)
    | none, some width =>
      let c := c.next
      let digits := (c.rest.take width).takeWhile isHex
      if digits.length < width then .error .malformed
      else
        let n := hexValue digits
        match CodePoint.ofNat? n with
        | some p => .ok ([p], c.advance width)
        | none => .error (if n < Nat.pow 2 31 then .badNumber else .overflow)
    | none, none =>
      match c.lineBreak with
      | none => .error .malformed
      | some (_, c) => do
        let (breaks, c) ← quotedBreaks fuel c
        pure (Text.ofChars breaks, c)

/-- The content of a quoted scalar up to the closing quote, which is left standing. -/
def quotedContent (quote : Char) : Nat → Cursor → Except Fault (Text × Cursor)
  | 0, _ => .error .malformed
  | fuel + 1, c => do
    let more (part : Text) (c : Cursor) : Except Fault (Text × Cursor) := do
      let (tail, c) ← quotedContent quote fuel c
      pure (part ++ tail, c)
    match c.peek with
    | none => .error .malformed
    | some ch =>
      if isBlank ch then
        let (spaces, c) ← quotedSpaces (fuel + 1) c
        more (Text.ofChars spaces) c
      else if quote = '\x27' && ch = quote && c.peekAt 1 = some quote then
        more [.char quote] (c.advance 2)
      else if ch = quote then pure ([], c)
      else if quote = '"' && ch = '\\' then
        let (part, c) ← readEscape (fuel + 1) c.next
        more part c
      else more [.char ch] c.next

/-- A quoted scalar, from its opening quote on. -/
def readQuoted (quote : Char) (fuel : Nat) (c : Cursor) : Except Fault (Text × Cursor) := do
  let (content, c) ← quotedContent quote fuel c.next
  pure (content, c.next)

/-- What the header of a block says about its final line ends. -/
inductive Chomping where
  | clip
  | strip
  | keep
deriving DecidableEq

/-- The chomping mark and the indentation mark of a block, in either order. -/
def blockHeader (c : Cursor) : Except Fault (Chomping × Option Nat × Cursor) :=
  let chomping (c : Cursor) : Option Chomping :=
    match c.peek with
    | some '+' => some .keep
    | some '-' => some .strip
    | _ => none
  let increment (c : Cursor) : Except Fault (Option Nat × Cursor) :=
    match c.peek with
    | some ch =>
      if ch = '0' then .error .malformed
      else if ch.isDigit then .ok (some (ch.toNat - '0'.toNat), c.next)
      else .ok (none, c)
    | none => .ok (none, c)
  do
    let (mark, depth, c) ← match chomping c with
      | some mark => do
        let (depth, c) ← increment c.next
        pure (mark, depth, c)
      | none => do
        let (depth, c) ← increment c
        match depth, chomping c with
        | some _, some mark => pure (mark, depth, c.next)
        | _, _ => pure (Chomping.clip, depth, c)
    if endOr (fun ch => ch = ' ' || isBreak ch) c.peek then pure (mark, depth, c)
    else .error .malformed

/-- The rest of a line that holds at most a comment, with its end. -/
def blankLine (c : Cursor) : Except Fault Cursor :=
  let c := (c.skipWhile (· = ' ')).skipComment
  match c.peek, c.lineBreak with
  | none, _ => .ok c
  | some _, some (_, c) => .ok c
  | some _, none => .error .malformed

/-- The empty lines before the first line of a block, and the largest column that spaces reach. -/
def blockIndentation : Nat → Nat → Cursor → List Char × Nat × Cursor
  | 0, widest, c => ([], widest, c)
  | fuel + 1, widest, c =>
    match c.lineBreak with
    | some (b, c) =>
      let (breaks, widest, c) := blockIndentation fuel widest c
      (b :: breaks, widest, c)
    | none =>
      if c.peek = some ' ' then
        let c := c.next
        blockIndentation fuel (max widest c.column) c
      else ([], widest, c)

/-- Spaces up to a column. -/
def skipIndent (indent : Nat) (c : Cursor) : Cursor :=
  c.advance ((c.rest.take (indent - c.column)).takeWhile (· = ' ')).length

/-- The line ends at this place, each with the indentation of the line after it. -/
def blockBreaks (indent : Nat) : Nat → Cursor → List Char × Cursor
  | 0, c => ([], skipIndent indent c)
  | fuel + 1, c =>
    let c := skipIndent indent c
    match c.lineBreak with
    | none => ([], c)
    | some (b, c) =>
      let (breaks, c) := blockBreaks indent fuel c
      (b :: breaks, c)

/-- The lines of a block, after the empty lines `breaks`, with the last line's end and the empty
lines after it. -/
def blockLines (folded : Bool) (indent : Nat) :
    Nat → List Char → Cursor → List Char × List Char × List Char × Cursor
  | 0, breaks, c => ([], [], breaks, c)
  | fuel + 1, breaks, c =>
    if c.column != indent || c.peek.isNone then ([], [], breaks, c)
    else
      let startsBlank (c : Cursor) := c.peek = some ' ' || c.peek = some '\t'
      let indented := startsBlank c
      let (line, c) := c.takeWhile fun ch => !isBreak ch
      let (lineEnd, c) := match c.lineBreak with
        | some (b, c) => ([b], c)
        | none => ([], c)
      let (after, c) := blockBreaks indent fuel c
      if c.column = indent && c.peek.isSome then
        let joint :=
          if folded && lineEnd = ['\n'] && !indented && !startsBlank c then
            (if after.isEmpty then [' '] else [])
          else lineEnd
        let (tail, lastEnd, final, c) := blockLines folded indent fuel after c
        (breaks ++ line ++ joint ++ tail, lastEnd, final, c)
      else (breaks ++ line, lineEnd, after, c)

/-- A block scalar, from its mark on, inside a collection that starts at column `parent`. -/
def readBlock (folded : Bool) (parent : Int) (fuel : Nat) (c : Cursor) :
    Except Fault (Text × Cursor) := do
  let (chomping, increment, c) ← blockHeader c.next
  let c ← blankLine c
  let least := max (parent + 1) 1
  let (indent, breaks, c) := match increment with
    | some n =>
      let indent := (least + n - 1).toNat
      let (breaks, c) := blockBreaks indent fuel c
      (indent, breaks, c)
    | none =>
      let (breaks, widest, c) := blockIndentation fuel 0 c
      ((max least widest).toNat, breaks, c)
  let (body, lastEnd, final, c) := blockLines folded indent fuel breaks c
  let content := match chomping with
    | .strip => body
    | .clip => body ++ lastEnd
    | .keep => body ++ lastEnd ++ final
  pure (Text.ofChars content, c)

/-- White space inside a plain scalar. -/
structure PlainGap where
  /-- What the white space stands for; empty if the scalar ends before it. -/
  content : List Char
  /-- A line ended in it. -/
  brokeLine : Bool
  place : Cursor

/-- Spaces and line ends after the first line end of a gap; nothing if a document mark follows one
of them. -/
def plainBreaks : Nat → Cursor → Option (List Char) × Cursor
  | 0, c => (some [], c)
  | fuel + 1, c =>
    let c := c.skipWhile (· = ' ')
    match c.lineBreak with
    | none => (some [], c)
    | some (b, c) =>
      if c.isSeparator then (none, c)
      else
        let (breaks, c) := plainBreaks fuel c
        (breaks.map (b :: ·), c)

/-- The white space at this place. -/
def plainGap (fuel : Nat) (c : Cursor) : PlainGap :=
  let (spaces, c) := c.takeWhile (· = ' ')
  match c.lineBreak with
  | none => ⟨spaces, false, c⟩
  | some (b, c) =>
    if c.isSeparator then ⟨[], true, c⟩
    else match plainBreaks fuel c with
      | (none, c) => ⟨[], true, c⟩
      | (some breaks, c) =>
        if b != '\n' then ⟨b :: breaks, true, c⟩
        else if breaks.isEmpty then ⟨[' '], true, c⟩
        else ⟨breaks, true, c⟩

/-- The next word of a plain scalar: it ends at white space, at a colon that ends a word, and in a
flow collection at its marks. -/
def plainWord (inFlow : Bool) : List Char → List Char
  | [] => []
  | ch :: rest =>
    let isFlowMark (p : Char) := p = ',' || p = '[' || p = ']' || p = '\x7b' || p = '\x7d'
    if isBlank ch || (inFlow && (isFlowMark ch || ch = '?')) ||
        (ch = ':' && endOr (fun p => isBlank p || (inFlow && isFlowMark p)) rest.head?) then []
    else ch :: plainWord inFlow rest

/-- The words of a plain scalar with the white space between them, and whether a key may start
after it: `true` after a line end. -/
def plainContent (inFlow : Bool) (indent : Int) :
    Nat → List Char → Bool → Cursor → List Char × Bool × Cursor
  | 0, _, keyAllowed, c => ([], keyAllowed, c)
  | fuel + 1, gap, keyAllowed, c =>
    let word := if c.peek = some '#' then [] else plainWord inFlow c.rest
    if word.isEmpty then ([], keyAllowed, c)
    else
      let next := plainGap fuel (c.advance word.length)
      if next.content.isEmpty || next.place.peek = some '#' ||
          (!inFlow && (next.place.column : Int) < indent) then
        (gap ++ word, next.brokeLine, next.place)
      else
        let (tail, keyAllowed, c) :=
          plainContent inFlow indent fuel next.content next.brokeLine next.place
        (gap ++ word ++ tail, keyAllowed, c)

/-- A plain scalar inside a collection that starts at column `parent`. -/
def readPlain (inFlow : Bool) (parent : Int) (fuel : Nat) (c : Cursor) : Text × Bool × Cursor :=
  let (content, keyAllowed, c) := plainContent inFlow (parent + 1) fuel [] false c
  (Text.ofChars content, keyAllowed, c)

end ProviderKit.Yaml
