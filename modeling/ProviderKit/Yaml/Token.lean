import ProviderKit.Text.Utf8
import ProviderKit.Yaml.Scalar

/-!
# Tokens of a YAML text

A YAML text as a list of tokens, in which the layout of block collections is spelled out by tokens
of its own. A key without a mark is recognised only at the colon after it: until then the place
where its token belongs is kept as a candidate, one for each level of flow collections, and the
colon inserts the token there. The list ends in `streamEnd`, or in `failure` where the text has no
further token.
-/

namespace ProviderKit.Yaml

/-- What a directive says. -/
inductive Directive where
  | version (major : Nat)
  | tag (handle leader : Text)
  | other

/-- The tag written in front of a node: a handle, if there is one, and the rest. -/
structure WrittenTag where
  handle : Option Text
  suffix : Text

/-- A token. -/
inductive Token where
  | directive (d : Directive)
  | documentStart
  | documentEnd
  | streamEnd
  | blockSequenceStart
  | blockMappingStart
  | blockEnd
  | flowSequenceStart
  | flowSequenceEnd
  | flowMappingStart
  | flowMappingEnd
  | blockEntry
  | flowEntry
  | key
  | value
  | alias (name : Text)
  | anchor (name : Text)
  | tag (t : WrittenTag)
  | scalar (content : Text) (plain : Bool)
  | failure (f : Fault)

/-- A place that turns out to be the start of a key if a colon follows in time: on the same line
and within 1024 characters. A required candidate has to be a key. -/
structure Candidate where
  /-- The number of tokens before the key. -/
  position : Nat
  required : Bool
  index : Nat
  line : Nat
  column : Nat

/-- The state of reading tokens. -/
structure Lexer where
  cursor : Cursor
  /-- The tokens so far, the last one first. -/
  tokens : List Token
  count : Nat
  flowLevel : Nat
  /-- The column of the innermost open block collection; `-1` outside all of them. -/
  indent : Int
  outerIndents : List Int
  keyAllowed : Bool
  /-- The candidates by flow level, the innermost first. -/
  candidates : List (Nat × Candidate)
  /-- A bound on the number of characters left. -/
  fuel : Nat

namespace Lexer

/-- One more token at the end. -/
def emit (s : Lexer) (t : Token) : Lexer :=
  { s with tokens := t :: s.tokens, count := s.count + 1 }

/-- One more token, with a given number of tokens before it. -/
def insertAt (s : Lexer) (position : Nat) (t : Token) : Lexer :=
  let after := s.count - position
  { s with tokens := s.tokens.take after ++ t :: s.tokens.drop after, count := s.count + 1 }

/-- Moves the cursor. -/
def moveTo (s : Lexer) (c : Cursor) : Lexer := { s with cursor := c }

/-- A colon comes too late for a candidate. -/
def isStale (s : Lexer) (c : Candidate) : Bool :=
  c.line != s.cursor.line || s.cursor.index - c.index > 1024

/-- Drops the candidates that a colon comes too late for. -/
def dropStale (s : Lexer) : Except Fault Lexer :=
  if s.candidates.any fun (_, c) => s.isStale c && c.required then .error .malformed
  else .ok { s with candidates := s.candidates.filter fun (_, c) => !s.isStale c }

/-- Drops the candidate of the present flow level. -/
def dropCandidate (s : Lexer) : Except Fault Lexer :=
  match s.candidates.find? fun (level, _) => level == s.flowLevel with
  | none => .ok s
  | some (_, c) =>
    if c.required then .error .malformed
    else .ok { s with candidates := s.candidates.filter fun (level, _) => level != s.flowLevel }

/-- Makes the next token a candidate, where a key may start. -/
def saveCandidate (s : Lexer) : Except Fault Lexer :=
  if s.keyAllowed then do
    let s ← s.dropCandidate
    let candidate : Candidate :=
      { position := s.count, required := s.flowLevel == 0 && s.indent == (s.cursor.column : Int)
        index := s.cursor.index, line := s.cursor.line, column := s.cursor.column }
    pure { s with candidates := (s.flowLevel, candidate) :: s.candidates }
  else pure s

/-- Closes the block collections that start to the right of a column. -/
def closeBlocks (column : Int) : List Int → Lexer → Lexer
  | [], s => s
  | outer :: rest, s =>
    if s.flowLevel = 0 ∧ column < s.indent then
      closeBlocks column rest { s.emit .blockEnd with indent := outer, outerIndents := rest }
    else s

/-- Closes the block collections that start to the right of a column. -/
def unwind (s : Lexer) (column : Int) : Lexer := closeBlocks column s.outerIndents s

/-- Opens a block collection at a column, if it lies to the right of the innermost one. -/
def openBlock (s : Lexer) (column : Nat) (position : Nat) (t : Token) : Lexer :=
  if s.indent < (column : Int) then
    { s.insertAt position t with indent := column, outerIndents := s.indent :: s.outerIndents }
  else s

/-- Moves over space, comments and line ends to the next token. A key may start after a line end
in a block. -/
def skipToToken : Nat → Lexer → Lexer
  | 0, s => s
  | fuel + 1, s =>
    let c := (s.cursor.skipWhile (· = ' ')).skipComment
    match c.lineBreak with
    | some (_, c) =>
      skipToToken fuel { s with cursor := c, keyAllowed := s.keyAllowed || s.flowLevel == 0 }
    | none => s.moveTo c

/-- Emits a token that takes up a number of characters. -/
def emitOver (s : Lexer) (t : Token) (length : Nat) : Lexer :=
  (s.emit t).moveTo (s.cursor.advance length)

/-- Ends all block collections, and starts no key. -/
def leaveBlocks (s : Lexer) : Except Fault Lexer := do
  let s ← (s.unwind (-1)).dropCandidate
  pure { s with keyAllowed := false }

end Lexer

/-- The characters of a name. -/
def readWord (c : Cursor) : Except Fault (List Char × Cursor) :=
  let (name, c) := c.takeWhile isWord
  if name.isEmpty then .error .malformed else .ok (name, c)

/-- Decimal digits. -/
def readNumber (c : Cursor) : Except Fault (Nat × Cursor) :=
  let (digits, c) := c.takeWhile Char.isDigit
  if digits.isEmpty then .error .malformed
  else if 4300 < digits.length then .error .badNumber
  else .ok (Text.digitsValue (Text.ofChars digits), c)

/-- A tag handle: `!`, `!!`, or a name between exclamation marks. -/
def readHandle (c : Cursor) : Except Fault (Text × Cursor) :=
  if c.peek != some '!' then .error .malformed
  else if c.peekAt 1 = some ' ' then .ok ("!", c.next)
  else
    let (name, after) := c.next.takeWhile isWord
    if after.peek = some '!' then .ok (Text.ofChars ('!' :: name ++ ['!']), after.next)
    else .error .malformed

/-- A character that stands for itself in a tag. -/
def isTagCharacter (c : Char) : Bool := c.isAlphanum || "-;/?:@&=+$,_.!~*'()[]".toList.contains c

/-- A run of bytes written as a percent sign and two digits each. -/
def readPercentBytes : List Char → Except Fault Bytes
  | '%' :: a :: b :: rest =>
    if isHex a && isHex b then (UInt8.ofNat (hexValue [a, b]) :: ·) <$> readPercentBytes rest
    else .error .malformed
  | '%' :: _ => .error .malformed
  | _ => .ok []

/-- The rest of a tag, in which bytes may be written by their numbers. -/
def readTagSuffix : Nat → Cursor → Except Fault (Text × Cursor)
  | 0, c => .ok ([], c)
  | fuel + 1, c =>
    match c.peek with
    | some ch =>
      if ch = '%' then do
        let bytes ← readPercentBytes c.rest
        match Utf8.decode bytes with
        | .error _ => .error .malformed
        | .ok part =>
          let (tail, c) ← readTagSuffix fuel (c.advance (3 * bytes.length))
          pure (part ++ tail, c)
      else if isTagCharacter ch then do
        let (tail, c) ← readTagSuffix fuel c.next
        pure (.char ch :: tail, c)
      else .ok ([], c)
    | none => .ok ([], c)

/-- The rest of a tag, which must not be missing. -/
def readSuffix (fuel : Nat) (c : Cursor) : Except Fault (Text × Cursor) :=
  match c.peek with
  | some ch =>
    if ch = '%' || isTagCharacter ch then readTagSuffix fuel c else .error .malformed
  | none => .error .malformed

/-- The end of the text, a space, or a line end stands here. -/
def atGap (c : Cursor) : Bool := endOr (fun ch => ch = ' ' || isBreak ch) c.peek

/-- A directive, from its percent sign on. -/
def readDirective (fuel : Nat) (c : Cursor) : Except Fault (Directive × Cursor) := do
  let (name, c) ← readWord c.next
  if !atGap c then .error .malformed
  else
    let (d, c) ←
      if name = "YAML".toList then do
        let (major, c) ← readNumber (c.skipWhile (· = ' '))
        if c.peek != some '.' then .error .malformed
        else
          let (_, c) ← readNumber c.next
          if atGap c then pure (Directive.version major, c) else .error .malformed
      else if name = "TAG".toList then do
        let (handle, c) ← readHandle (c.skipWhile (· = ' '))
        if c.peek != some ' ' then .error .malformed
        else
          let (leader, c) ← readSuffix fuel (c.skipWhile (· = ' '))
          if atGap c then pure (Directive.tag handle leader, c) else .error .malformed
      else pure (Directive.other, c.skipWhile fun ch => !isBreak ch)
    let c ← blankLine c
    pure (d, c)

/-- The name after the mark of an anchor or an alias. -/
def readAnchor (c : Cursor) : Except Fault (Text × Cursor) := do
  let (name, c) ← readWord c.next
  if endOr (fun ch => isBlank ch || "?:,]\x7d%@\x60".toList.contains ch) c.peek then
    pure (Text.ofChars name, c)
  else .error .malformed

/-- A tag, from its exclamation mark on. -/
def readTag (fuel : Nat) (c : Cursor) : Except Fault (WrittenTag × Cursor) := do
  let (t, c) ←
    if c.peekAt 1 = some '<' then do
      let (suffix, c) ← readSuffix fuel (c.advance 2)
      if c.peek = some '>' then pure (WrittenTag.mk none suffix, c.next) else .error .malformed
    else if endOr isBlank (c.peekAt 1) then pure (WrittenTag.mk none "!", c.next)
    else
      let word := c.next.rest.takeWhile fun ch => !(ch = ' ' || isBreak ch)
      if word.contains '!' then do
        let (handle, c) ← readHandle c
        let (suffix, c) ← readSuffix fuel c
        pure (WrittenTag.mk (some handle) suffix, c)
      else do
        let (suffix, c) ← readSuffix fuel c.next
        pure (WrittenTag.mk (some "!") suffix, c)
  if atGap c then pure (t, c) else .error .malformed

/-- A plain scalar may start here. -/
def startsPlain (inFlow : Bool) (c : Cursor) : Bool :=
  match c.peek with
  | none => false
  | some ch =>
    let followed := !endOr isBlank (c.peekAt 1)
    (!isBlank ch && !("-?:,[]\x7b\x7d#&*!|>'\"%@\x60".toList.contains ch)) ||
      (followed && (ch = '-' || (!inFlow && (ch = '?' || ch = ':'))))

namespace Lexer

/-- Reads the start of a flow collection. -/
def readFlowStart (s : Lexer) (t : Token) : Except Fault Lexer := do
  let s ← s.saveCandidate
  pure { s.emitOver t 1 with flowLevel := s.flowLevel + 1, keyAllowed := true }

/-- Reads the end of a flow collection. -/
def readFlowEnd (s : Lexer) (t : Token) : Except Fault Lexer := do
  let s ← s.dropCandidate
  -- An end without a start leaves the flow level below all levels; the parser refuses it anyway.
  pure { s.emitOver t 1 with flowLevel := s.flowLevel - 1, keyAllowed := false }

/-- Reads the comma between entries of a flow collection. -/
def readFlowEntry (s : Lexer) : Except Fault Lexer := do
  let s ← { s with keyAllowed := true }.dropCandidate
  pure (s.emitOver .flowEntry 1)

/-- Reads the dash of an entry of a block sequence. -/
def readBlockEntry (s : Lexer) : Except Fault Lexer :=
  if s.flowLevel = 0 && !s.keyAllowed then .error .malformed
  else do
    let s := if s.flowLevel = 0 then
      s.openBlock s.cursor.column s.count .blockSequenceStart else s
    let s ← { s with keyAllowed := true }.dropCandidate
    pure (s.emitOver .blockEntry 1)

/-- Reads the mark of a key. -/
def readKey (s : Lexer) : Except Fault Lexer :=
  if s.flowLevel = 0 && !s.keyAllowed then .error .malformed
  else do
    let s := if s.flowLevel = 0 then
      s.openBlock s.cursor.column s.count .blockMappingStart else s
    let s ← { s with keyAllowed := s.flowLevel == 0 }.dropCandidate
    pure (s.emitOver .key 1)

/-- Reads the colon before a value: the end of a key without a mark, if there is a candidate. -/
def readValue (s : Lexer) : Except Fault Lexer :=
  match s.candidates.find? fun (level, _) => level == s.flowLevel with
  | some (_, candidate) =>
    let others := s.candidates.filter fun (level, _) => level != s.flowLevel
    let s := { s with candidates := others }.insertAt candidate.position .key
    let s := if s.flowLevel = 0 then
      s.openBlock candidate.column candidate.position .blockMappingStart else s
    .ok ({ s with keyAllowed := false }.emitOver .value 1)
  | none =>
    if s.flowLevel = 0 && !s.keyAllowed then .error .malformed
    else do
      let s := if s.flowLevel = 0 then
        s.openBlock s.cursor.column s.count .blockMappingStart else s
      let s ← { s with keyAllowed := s.flowLevel == 0 }.dropCandidate
      pure (s.emitOver .value 1)

/-- Reads a token that may start a key and that no key may follow directly. -/
def readKeyStart (s : Lexer) (read : Cursor → Except Fault (Token × Cursor)) :
    Except Fault Lexer := do
  let s ← s.saveCandidate
  let (t, c) ← read s.cursor
  pure ({ s with keyAllowed := false }.emit t |>.moveTo c)

/-- Reads a block scalar. -/
def readBlockScalar (s : Lexer) (folded : Bool) : Except Fault Lexer := do
  let s ← { s with keyAllowed := true }.dropCandidate
  let (content, c) ← readBlock folded s.indent s.fuel s.cursor
  pure (s.emit (.scalar content false) |>.moveTo c)

/-- Reads a plain scalar. -/
def readPlainScalar (s : Lexer) : Except Fault Lexer := do
  let s ← s.saveCandidate
  let (content, keyAllowed, c) := readPlain (0 < s.flowLevel) s.indent s.fuel s.cursor
  pure ({ s with keyAllowed := keyAllowed }.emit (.scalar content true) |>.moveTo c)

/-- Reads a directive or a mark between documents. -/
def readOutside (s : Lexer) (read : Cursor → Except Fault (Token × Cursor)) :
    Except Fault Lexer := do
  let s ← s.leaveBlocks
  let (t, c) ← read s.cursor
  pure (s.emit t |>.moveTo c)

/-- Reads the token that starts with a given character. -/
def readToken (s : Lexer) (ch : Char) : Except Fault Lexer :=
  let c := s.cursor
  let inFlow := 0 < s.flowLevel
  let wordEnds := endOr isBlank (c.peekAt 1)
  if ch = '%' && c.column = 0 then
    s.readOutside fun c => do
      let (d, c) ← readDirective s.fuel c
      pure (.directive d, c)
  else if c.column = 0 && c.isDocumentMark '-' then
    s.readOutside fun c => pure (.documentStart, c.advance 3)
  else if c.column = 0 && c.isDocumentMark '.' then
    s.readOutside fun c => pure (.documentEnd, c.advance 3)
  else if ch = '[' then s.readFlowStart .flowSequenceStart
  else if ch = '\x7b' then s.readFlowStart .flowMappingStart
  else if ch = ']' then s.readFlowEnd .flowSequenceEnd
  else if ch = '\x7d' then s.readFlowEnd .flowMappingEnd
  else if ch = ',' then s.readFlowEntry
  else if ch = '-' && wordEnds then s.readBlockEntry
  else if ch = '?' && (inFlow || wordEnds) then s.readKey
  else if ch = ':' && (inFlow || wordEnds) then s.readValue
  else if ch = '*' then
    s.readKeyStart fun c => do
      let (name, c) ← readAnchor c
      pure (.alias name, c)
  else if ch = '&' then
    s.readKeyStart fun c => do
      let (name, c) ← readAnchor c
      pure (.anchor name, c)
  else if ch = '!' then
    s.readKeyStart fun c => do
      let (t, c) ← readTag s.fuel c
      pure (.tag t, c)
  else if ch = '|' && !inFlow then s.readBlockScalar false
  else if ch = '>' && !inFlow then s.readBlockScalar true
  else if ch = '\x27' || ch = '"' then
    s.readKeyStart fun c => do
      let (content, c) ← readQuoted ch s.fuel c
      pure (.scalar content false, c)
  else if startsPlain inFlow c then s.readPlainScalar
  else .error .malformed

/-- Reads the next token, and any block ends before it; `none` is the end of the text. -/
def step (s : Lexer) : Except Fault (Lexer × Bool) := do
  let s ← (skipToToken s.fuel s).dropStale
  let s := s.unwind s.cursor.column
  match s.cursor.peek with
  | none => do
    let s ← s.leaveBlocks
    pure (s.emit .streamEnd, true)
  | some ch => do
    let s ← s.readToken ch
    pure (s, false)

/-- The number of tokens that are certain before the next one is read: a candidate that is still
alive holds up its own token and those after it. One that had to be a key holds them up even if it
has become stale. -/
def certain (s : Lexer) : Nat :=
  let required := s.candidates.any fun (_, c) => s.isStale c && c.required
  let alive := s.candidates.filter fun (_, c) => required || !s.isStale c
  alive.foldl (fun n (_, c) => min n c.position) s.count

/-- Reads all tokens, the last one first. A failure takes the place of the first token that was not
certain before it. -/
def run : Nat → Lexer → List Token
  | 0, s => .failure .malformed :: s.tokens
  | fuel + 1, s =>
    match s.step with
    | .error f => .failure f :: s.tokens.drop (s.count - s.certain)
    | .ok (s, true) => s.tokens
    | .ok (s, false) => run fuel s

end Lexer

/-- The tokens of a text. A byte order mark at the very beginning does not count. -/
def Token.ofText (text : List Char) : List Token :=
  let c := Cursor.start text
  let c := if c.peek = some '\uFEFF' then c.next else c
  let s : Lexer :=
    { cursor := c, tokens := [], count := 0, flowLevel := 0, indent := -1, outerIndents := []
      keyAllowed := true, candidates := [], fuel := text.length + 2 }
  (Lexer.run (text.length + 2) s).reverse

end ProviderKit.Yaml
