import ProviderKit.Number.Numeral
import ProviderKit.Value.Basic
import ProviderKit.Yaml.Node

/-!
# Values of YAML documents

The data value of a document. Scalars are read by their tags. A collection is complete only after
all scalars of the level above it, so of several faults in a document the one on the shallowest
level counts, and on one level the first. What a node with an anchor means is found once and shared
by all its places.
-/

namespace ProviderKit.Yaml

open Numeral (splitSign)

/-- A fault and the level of nesting at which it is met. -/
structure Late where
  level : Nat
  fault : Fault

/-- A value, or the fault that counts. -/
abbrev Outcome (α : Type) := Except Late α

/-- Both outcomes; of two faults the one on the shallower level, and on one level the first. -/
def Outcome.zip {α β : Type} (a : Outcome α) (b : Outcome β) : Outcome (α × β) :=
  match a, b with
  | .ok x, .ok y => .ok (x, y)
  | .error e, .error f => .error (if f.level < e.level then f else e)
  | .error e, .ok _ => .error e
  | .ok _, .error f => .error f

/-- All outcomes, with the fault that counts among theirs. -/
def Outcome.all {α : Type} : List (Outcome α) → Outcome (List α)
  | [] => .ok []
  | a :: rest => (fun (x, xs) => x :: xs) <$> Outcome.zip a (Outcome.all rest)

/-- An outcome as seen from one level further out. -/
def Outcome.deeper {α : Type} : Outcome α → Outcome α
  | .ok a => .ok a
  | .error e => .error ⟨e.level + 1, e.fault⟩

/-- The digit value of a character in bases up to sixteen. -/
def digitValue? (base : Nat) (c : Char) : Option Nat :=
  if isHex c && hexValue [c] < base then some (hexValue [c]) else none

/-- A whole number in a base that is a power of two, or in base ten with at most 4300 digits. -/
def wholeNumber (base : Nat) (cs : List Char) : Except Fault Int := do
  let (negative, ds) := splitSign (Numeral.plain cs)
  let ds := match base, ds with
    | 2, '0' :: 'b' :: r | 2, '0' :: 'B' :: r => r
    | 8, '0' :: 'o' :: r | 8, '0' :: 'O' :: r => r
    | 16, '0' :: 'x' :: r | 16, '0' :: 'X' :: r => r
    | _, r => r
  if ds.isEmpty || (base = 10 && 4300 < ds.length) then .error .badNumber
  else
    match ds.mapM (digitValue? base) with
    | none => .error .badNumber
    | some values =>
      let n : Int := (values.foldl (fun n d => n * base + d) 0 : Nat)
      pure (if negative then -n else n)

/-- The parts between colons. -/
def colonParts (cs : List Char) : List (List Char) :=
  cs.foldr (fun c parts =>
    match parts with
    | part :: rest => if c = ':' then [] :: part :: rest else (c :: part) :: rest
    | [] => [[c]]) [[]]

/-- The integer that a scalar with the tag of integers stands for. -/
def intOf (cs : List Char) : Except Fault Int :=
  let cs := cs.filter (· != '_')
  if cs.isEmpty then .error .emptyNumber
  else
    let (negative, ds) := splitSign cs
    let signed (n : Int) : Int := if negative then -n else n
    match ds with
    | ['0'] => .ok 0
    | '0' :: 'b' :: r => signed <$> wholeNumber 2 r
    | '0' :: 'x' :: r => signed <$> wholeNumber 16 r
    | '0' :: _ => signed <$> wholeNumber 8 ds
    | [] => .error .emptyNumber
    | _ =>
      if ds.contains ':' then do
        let parts ← (colonParts ds).mapM (wholeNumber 10)
        pure (signed (parts.foldl (fun n d => n * 60 + d) 0))
      else signed <$> wholeNumber 10 ds

/-- A decimal number, an infinity, or not a number. -/
def decimalNumber (cs : List Char) : Except Fault Binary64 :=
  let (negative, ds) := splitSign (Numeral.plain cs)
  if ds = "inf".toList || ds = "infinity".toList then .ok (.infinity negative)
  else if ds = "nan".toList then .ok .nan
  else
    let whole := ds.takeWhile Char.isDigit
    let rest := ds.dropWhile Char.isDigit
    let (fraction, rest) := match rest with
      | '.' :: r => (r.takeWhile Char.isDigit, r.dropWhile Char.isDigit)
      | r => ([], r)
    let value (digits : List Char) : Nat := Text.digitsValue (Text.ofChars digits)
    let exponent : Option Int := match rest with
      | [] => some 0
      | 'e' :: r =>
        let (minus, es) := splitSign r
        if es.isEmpty || !es.all Char.isDigit then none
        else some (if minus then -(value es : Int) else (value es : Int))
      | _ => none
    match exponent with
    | none => .error .badNumber
    | some e =>
      if whole.isEmpty && fraction.isEmpty then .error .badNumber
      else .ok (Binary64.ofDecimal negative (value (whole ++ fraction)) (e - fraction.length))

/-- The number that a scalar with the tag of floating-point numbers stands for. In base sixty each
part is rounded on its own, and so is what its place counts, which must be finite. -/
def floatOf (cs : List Char) : Except Fault Binary64 :=
  let cs := (cs.filter (· != '_')).map Char.toLower
  if cs.isEmpty then .error .emptyNumber
  else
    let (negative, ds) := splitSign cs
    let signed (x : Binary64) : Binary64 := if negative then x.neg else x
    if ds = ".inf".toList then .ok (.infinity negative)
    else if ds = ".nan".toList then .ok .nan
    else if ds.contains ':' then do
      let parts ← (colonParts ds).mapM decimalNumber
      let largest := Binary64.ofInt (Nat.pow 60 (parts.length - 1))
      if largest = .infinity false then throw .overflow
      let (sum, _) := parts.reverse.foldl (fun (sum, base) d =>
        (sum.add (d.mul (Binary64.ofInt base)), base * 60)) (Binary64.zero false, (1 : Int))
      pure (signed sum)
    else signed <$> decimalNumber ds

/-- The truth value that a word stands for. -/
def boolOf (cs : List Char) : Except Fault Bool :=
  let word := cs.map Char.toLower
  if ["yes", "true", "on"].any fun w => w.toList == word then .ok true
  else if ["no", "false", "off"].any fun w => w.toList == word then .ok false
  else .error .badTruthValue

/-- The date or the point in time that a scalar stands for. -/
def momentOf (cs : List Char) : Except Fault Value :=
  match Form.moment? (Form.dropFinalBreak cs) with
  | none => .error .badTimestamp
  | some m =>
    let value (digits : List Char) : Nat := Text.digitsValue (Text.ofChars digits)
    let date : Date := ⟨value m.year, value m.month, value m.day⟩
    match m.time with
    | none => if date.isValid then .ok (.date date) else .error .badNumber
    | some (hour, minute, second, fraction) =>
      let digits := fraction.take 6
      let microsecond := value (digits ++ List.replicate (6 - digits.length) '0')
      let offset : Option Int := m.zone.map fun
        | none => 0
        | some (sign, hours, minutes) =>
          let n : Int := value hours * 60 + value minutes
          if sign = '-' then -n else n
      let t : Timestamp :=
        ⟨date, value hour, value minute, value second, microsecond, offset⟩
      if t.isValid then .ok (.timestamp t) else .error .badNumber

/-- The six bits that a character of a byte block stands for. -/
def sixBits? (c : Char) : Option Nat :=
  if 'A' ≤ c && c ≤ 'Z' then some (c.toNat - 'A'.toNat)
  else if 'a' ≤ c && c ≤ 'z' then some (c.toNat - 'a'.toNat + 26)
  else if c.isDigit then some (c.toNat - '0'.toNat + 52)
  else if c = '+' then some 62
  else if c = '/' then some 63
  else none

/-- The bytes written four characters for three of them. `place` is the number of characters of
the present group so far, `held` what they have not yet given to a byte, and `pads` the number of
padding marks after them. Padding that completes a group ends the block; other characters do not
count. -/
def bytesFrom (place held pads : Nat) : List Char → Except Fault Bytes
  | [] => if place = 0 then .ok [] else .error .malformed
  | c :: cs =>
    if c = '=' then
      if 2 ≤ place ∧ 4 ≤ place + (pads + 1) then .ok []
      else bytesFrom place held (if 2 ≤ place then pads + 1 else pads) cs
    else match sixBits? c with
      | none => bytesFrom place held pads cs
      | some v =>
        match place with
        | 0 => bytesFrom 1 v 0 cs
        | 1 => (UInt8.ofNat (held * 4 + v / 16) :: ·) <$> bytesFrom 2 (v % 16) 0 cs
        | 2 => (UInt8.ofNat (held * 16 + v / 4) :: ·) <$> bytesFrom 3 (v % 4) 0 cs
        | _ => (UInt8.ofNat (held * 64 + v) :: ·) <$> bytesFrom 0 0 0 cs

/-- The bytes that a scalar with the tag of binary data stands for. -/
def bytesOf (cs : List Char) : Except Fault Bytes :=
  if cs.all fun c => c.toNat < 0x80 then bytesFrom 0 0 0 cs else .error .malformed

/-- The value of a scalar by its tag. -/
def scalarValue (tag content : Text) : Except Fault Value :=
  let withChars (read : List Char → Except Fault Value) (otherwise : Fault) :=
    match content.toChars? with
    | some cs => read cs
    | none => .error otherwise
  if tag = coreTag "str" then .ok (.text content)
  else if tag = coreTag "null" then .ok .null
  else if tag = coreTag "bool" then withChars (fun cs => .bool <$> boolOf cs) .badTruthValue
  else if tag = coreTag "int" then withChars (fun cs => .int <$> intOf cs) .badNumber
  else if tag = coreTag "float" then withChars (fun cs => .float <$> floatOf cs) .badNumber
  else if tag = coreTag "timestamp" then withChars momentOf .badTimestamp
  else if tag = coreTag "binary" then withChars (fun cs => .bytes <$> bytesOf cs) .malformed
  else .error .malformed

/-- The kinds of values that a tag can ask for. -/
inductive Shape where
  | scalar
  | sequence
  | mapping
  | set
  /-- A list of pairs. -/
  | pairs

/-- The kind of value that a tag asks for; other tags are unknown. -/
def Shape.ofTag? (tag : Text) : Option Shape :=
  if tag = coreTag "seq" then some .sequence
  else if tag = coreTag "map" then some .mapping
  else if tag = coreTag "set" then some .set
  else if tag = coreTag "omap" || tag = coreTag "pairs" then some .pairs
  else if ["str", "null", "bool", "int", "float", "timestamp", "binary"].any
      fun name => tag = coreTag name then some .scalar
  else none

/-- The outcomes of the key and of the value of an entry. -/
abbrev Pair := Outcome Value × Outcome Value

/-- What a node means wherever it stands. Levels count from the node itself. -/
structure Meaning where
  tag : Text
  /-- What stands for the node where a scalar is asked for. -/
  content : Option Text
  value : Outcome Value
  /-- The entries of a mapping, as they are written. -/
  written : Option (List Pair)
  /-- The entries of a mapping, after its merges. -/
  entries : Except Fault (List Pair)
  /-- The entries that a merge with the node brings in. -/
  merged : Except Fault (List Pair)

namespace Meaning

/-- A fault at a level. -/
def fault {α : Type} (level : Nat) (f : Fault) : Outcome α := .error ⟨level, f⟩

/-- The outcome of a single step. -/
def ofStep {α : Type} : Except Fault α → Outcome α
  | .ok a => .ok a
  | .error f => fault 0 f

/-- The value of a scalar, or of what stands for one. -/
def scalarOutcome (tag : Text) : Option Text → Outcome Value
  | some content => ofStep (scalarValue tag content)
  | none => fault 0 .malformed

/-- The meaning of a scalar. -/
def scalar (tag content : Text) : Meaning :=
  { tag
    content := some content
    value := match Shape.ofTag? tag with
      | none => fault 0 .malformed
      | some .scalar => scalarOutcome tag (some content)
      | some _ => fault 1 .malformed
    written := none
    entries := .error .malformed
    merged := .error .malformed }

/-- The only entry of a mapping that is written with one. -/
def onlyPair (m : Meaning) : Outcome Value :=
  match m.written with
  | some [(key, value)] => (fun (k, v) => Value.pair k v) <$> Outcome.zip key value
  | _ => fault 0 .malformed

/-- The entries that a merge with a list brings in: those of later mappings come first. -/
def mergedItems : List Meaning → Except Fault (List Pair)
  | [] => .ok []
  | item :: rest => do
    if item.written.isNone then throw .malformed
    let here ← item.entries
    let later ← mergedItems rest
    pure (later ++ here)

/-- The meaning of a sequence. -/
def sequence (tag : Text) (items : List Meaning) : Meaning :=
  { tag
    content := none
    value := match Shape.ofTag? tag with
      | none | some .scalar => fault 0 .malformed
      | some .sequence => .list <$> (Outcome.all (items.map (·.value))).deeper
      | some .pairs => .list <$> (Outcome.all (items.map onlyPair)).deeper
      | some .mapping | some .set => fault 1 .malformed
    written := none
    entries := .error .malformed
    merged := mergedItems items }

/-- The key of an entry: it must be a scalar, and the default mark is an ordinary text there. -/
def keyOutcome (key : Meaning) : Outcome Value :=
  if key.tag = coreTag "value" then scalarOutcome (coreTag "str") key.content
  else match Shape.ofTag? key.tag with
    | some .scalar => key.value
    | _ => fault 0 .malformed

/-- The entries of a mapping after its merges: first those that are merged in, then its own. -/
def mergedEntries : List (Meaning × Meaning) → Except Fault (List Pair × List Pair)
  | [] => .ok ([], [])
  | (key, value) :: rest => do
    if key.tag = coreTag "merge" then
      let here ← value.merged
      let (merged, own) ← mergedEntries rest
      pure (here ++ merged, own)
    else
      let (merged, own) ← mergedEntries rest
      pure (merged, (keyOutcome key, value.value) :: own)

/-- The entries that outcomes give, in order, each key once. -/
def entriesOf (pairs : List Pair) : Outcome (List (Value × Value)) :=
  (List.foldl (fun done (key, value) => Value.insertEntry key value done) []) <$>
    Outcome.all (pairs.map fun (key, value) => Outcome.zip key value)

/-- The meaning of a mapping. The value at its default mark stands for it where a scalar is asked
for. -/
def mapping (tag : Text) (entries : List (Meaning × Meaning)) : Meaning :=
  let merged : Except Fault (List Pair) := do
    let (merged, own) ← mergedEntries entries
    pure (merged ++ own)
  let read : Outcome (List (Value × Value)) := do entriesOf (← ofStep merged)
  let content := (entries.find? fun (key, _) => key.tag = coreTag "value").bind (·.2.content)
  { tag
    content
    value := match Shape.ofTag? tag with
      | none => fault 0 .malformed
      | some .scalar => scalarOutcome tag content
      | some .mapping => .mapping <$> read.deeper
      | some .set => (fun entries => .set (entries.map (·.1))) <$> read.deeper
      | some .sequence | some .pairs => fault 1 .malformed
    written := some (entries.map fun (key, value) => (key.value, value.value))
    entries := merged
    merged }

end Meaning

/-- The meanings of numbered nodes. -/
abbrev Meanings := List (Nat × Meaning)

mutual

/-- The meaning of a node, given those of the numbered ones. -/
def Node.meaning (known : Meanings) : Node → Meaning
  | .scalar tag content => .scalar tag content
  | .sequence tag items => .sequence tag (Node.meanings known items)
  | .mapping tag entries => .mapping tag (Node.entryMeanings known entries)
  | .shared number => (known.lookup number).getD (.scalar (coreTag "null") [])

/-- The meanings of nodes. -/
def Node.meanings (known : Meanings) : List Node → List Meaning
  | [] => []
  | item :: items => item.meaning known :: Node.meanings known items

/-- The meanings of the keys and values of entries. -/
def Node.entryMeanings (known : Meanings) : List (Node × Node) → List (Meaning × Meaning)
  | [] => []
  | (key, value) :: entries =>
    (key.meaning known, value.meaning known) :: Node.entryMeanings known entries

end

/-- A collection without what it holds. -/
def Node.hollow : Node → Node
  | .sequence tag _ => .sequence tag []
  | .mapping tag _ => .mapping tag []
  | node => node

namespace Document

/-- How many times over a collection that holds itself is seen inside itself. -/
def unrolling : Nat := 8

/-- The meanings of all definitions in their order, in front of those already known. -/
def define (definitions : List (Nat × Node)) (known : Meanings) : Meanings :=
  definitions.foldl (fun known (number, node) => (number, node.meaning known) :: known) known

/-- The meanings of all definitions. They start out hollow, and each round sees in a collection
that holds itself what the round before it made of it. -/
def meanings (document : Document) : Meanings :=
  let hollow : Meanings := document.definitions.map fun (number, node) =>
    (number, node.hollow.meaning [])
  (List.range unrolling).foldl (fun known _ =>
    (define document.definitions known).take document.definitions.length) hollow

/-- The value of a document. -/
def value (document : Document) : Except Fault Value :=
  match (document.root.meaning document.meanings).value with
  | .ok v => .ok v
  | .error e => .error e.fault

end Document

/-- The value of the only document of a text; an empty text has none. -/
def read [Interpreter] (t : Text) : Except Fault (Option Value) :=
  match t.toChars? with
  | none => .error .malformed
  | some cs =>
    if !cs.all isAllowed then .error .malformed
    else do
      match ← Document.ofTokens (Token.ofText cs) with
      | none => pure none
      | some document => some <$> document.value

end ProviderKit.Yaml
