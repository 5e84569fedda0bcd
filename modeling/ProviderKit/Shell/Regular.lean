import ProviderKit.Shell.Pattern

/-!
# Regular expressions

A regular expression describes texts, and its groups mark parts of the text that it matches. It is
written in one of two forms, which differ in the characters that need a backslash. Texts have a
character for each of their bytes.
-/

namespace ProviderKit.Shell

/-- A regular expression. -/
inductive Regular where
  | empty
  /-- One character with a property. -/
  | one (property : Char → Bool)
  /-- No character, between two characters of which either may be missing. -/
  | between (property : Option Char → Option Char → Bool)
  | seq (first second : Regular)
  | either (first second : Regular)
  | group (n : Nat) (body : Regular)
  /-- The text of a group once more. -/
  | same (n : Nat)
  /-- A number of texts after one another. -/
  | many (least : Nat) (most : Option Nat) (body : Regular)

namespace Regular

/-- Where the groups of a match start and end. -/
abbrev Groups := List (Nat × Nat × Nat)

/-- The end of a match, and its groups. -/
abbrev Found := Nat × Groups

/-- The match with the later end. -/
def longer (a b : Option Found) : Option Found :=
  match a, b with
  | some x, some y => if x.1 < y.1 then b else a
  | some _, none => a
  | none, b => b

/-- The text at a position is the same as that between two others. -/
def hasCopy (subject : Array Char) (start length position : Nat) : Bool :=
  (List.range length).all fun n =>
    (subject[start + n]?).isSome && subject[start + n]? = subject[position + n]?

/-- The match of an expression at a position, if what follows can be matched, too. Of several
alternatives the one with the longest match counts. -/
def matchAt (subject : Array Char) :
    Nat → Regular → Nat → Groups → (Nat → Groups → Option Found) → Option Found
  | 0, _, _, _, _ => none
  | fuel + 1, r, i, groups, next =>
    match r with
    | empty => next i groups
    | one property =>
      match subject[i]? with
      | some c => if property c then next (i + 1) groups else none
      | none => none
    | between property =>
      let before := if i = 0 then none else subject[i - 1]?
      if property before subject[i]? then next i groups else none
    | seq first second =>
      matchAt subject fuel first i groups fun i groups =>
        matchAt subject fuel second i groups next
    | either first second =>
      longer (matchAt subject fuel first i groups next) (matchAt subject fuel second i groups next)
    | group n body =>
      matchAt subject fuel body i groups fun j groups => next j ((n, i, j) :: groups)
    | same n =>
      match groups.lookup n with
      | none => none
      | some (a, b) => if hasCopy subject a (b - a) i then next (i + (b - a)) groups else none
    | many least most body =>
      let further : Option Found :=
        if most = some 0 then none
        else matchAt subject fuel body i groups fun j groups =>
          if j = i && least = 0 then none
          else matchAt subject fuel (many (least - 1) (most.map (· - 1)) body) j groups next
      match further with
      | some found => some found
      | none => if least = 0 then next i groups else none

/-- The steps that the match of a text may take. -/
def stepsFor (subject : Array Char) : Nat := 64 * subject.size + 4096

/-- The first match from a position on: its start, its end and its groups. -/
def search (r : Regular) (subject : Array Char) (start : Nat) : Option (Nat × Found) :=
  (List.range (subject.size + 1 - start)).findSome? fun n =>
    (matchAt subject (stepsFor subject) r (start + n) [] fun i groups => some (i, groups)).map
      fun found => (start + n, found)

/-- A character of a word. -/
def isWordChar (c : Char) : Bool := c.isAlphanum || c = '_'

/-- A character of a word is there. -/
def inWord (c : Option Char) : Bool := c.any isWordChar

/-- The beginning of a text. -/
def start : Regular := between fun before _ => before.isNone

/-- The end of a text. -/
def finish : Regular := between fun _ after => after.isNone

/-- An expression whose matches are whole words. -/
def asWord (r : Regular) : Regular :=
  seq (between fun before _ => !inWord before) (seq r (between fun _ after => !inWord after))

/-- An expression that matches whole texts only. -/
def asWhole (r : Regular) : Regular := seq start (seq r finish)

/-- How a regular expression is written. -/
structure Form where
  /-- Groups, counts and alternatives are written without a backslash. -/
  isExtended : Bool := false
  ignoresCase : Bool := false

/-- What is wrong with the text of an expression. -/
abbrev Fault := String

/-- The text that is left, and the number of groups that were read. -/
abbrev Rest := List Char × Nat

/-- The expression for a character. -/
def letter (form : Form) (c : Char) : Regular :=
  one fun d => if form.ignoresCase then d.toLower = c.toLower else d = c

/-- The members of a bracketed set, and what follows it. -/
def takeMembers (form : Form) : Nat → Bool → List Char → Except Fault ((Char → Bool) × List Char)
  | 0, _, _ | _, _, [] => .error "Unmatched [, [^, [:, [., or [="
  | fuel + 1, isFirst, c :: rest => do
    if c = ']' && !isFirst then return (fun _ => false, rest)
    let holds (property : Char → Bool) (d : Char) : Bool :=
      property d || (form.ignoresCase && (property d.toLower || property d.toUpper))
    let class? := if c = '[' then takeClass (Text.ofChars rest) else none
    let (property, rest) : (Char → Bool) × List Char := match class?, rest with
      | some (property, n), _ => (property, rest.drop n)
      | none, '-' :: last :: more =>
        if last = ']' then ((· = c), rest)
        else (fun d => c.toNat ≤ d.toNat && d.toNat ≤ last.toNat, more)
      | none, _ => ((· = c), rest)
    let (others, rest) ← takeMembers form fuel false rest
    pure (fun d => holds property d || others d, rest)

/-- A bracketed set behind its opening bracket. -/
def takeSet (form : Form) (rest : List Char) : Except Fault (Regular × List Char) :=
  match rest with
  | '^' :: more => do
    let (property, rest) ← takeMembers form (more.length + 1) true more
    pure (one fun c => !property c, rest)
  | _ => do
    let (property, rest) ← takeMembers form (rest.length + 1) true rest
    pure (one property, rest)

/-- The numbers between braces, and what follows them. -/
def takeBounds (form : Form) (rest : List Char) :
    Except Fault ((Nat × Option Nat) × List Char) :=
  let number? (digits : List Char) : Option Nat :=
    if digits.isEmpty then none else some (Text.digitsValue (Text.ofChars digits))
  let (low, rest) := rest.span Char.isDigit
  let (high?, rest) : Option (List Char) × List Char := match rest with
    | ',' :: more => (some (more.takeWhile Char.isDigit), more.dropWhile Char.isDigit)
    | _ => (none, rest)
  let closing : List Char := if form.isExtended then ['\x7d'] else ['\\', '\x7d']
  if rest.take closing.length != closing then .error "Unmatched \x7b or \\\x7b"
  else
    let rest := rest.drop closing.length
    match number? low, high? with
    | none, none => .error "Invalid content of \\\x7b\\\x7d"
    | low?, none => .ok ((low?.getD 0, low?), rest)
    | low?, some high => .ok ((low?.getD 0, number? high), rest)

/-- What a character means where it stands, in the form that the expression is written in. -/
inductive Meaning where
  | opening | closing | bar | star | plus | question | braces
  | plain (c : Char)
  | special (c : Char)
  | nothing

/-- The meaning of the character in front, and what follows it. -/
def meaning (form : Form) : List Char → Meaning × List Char
  | [] => (.nothing, [])
  | '\\' :: c :: rest =>
    let operator? : Option Meaning := match c with
      | '(' => some .opening
      | ')' => some .closing
      | '|' => some .bar
      | '+' => some .plus
      | '?' => some .question
      | '\x7b' => some .braces
      | _ => none
    if form.isExtended then ((if operator?.isSome then .plain c else .special c), rest)
    else (operator?.getD (.special c), rest)
  | c :: rest =>
    let operator? : Option Meaning := match c with
      | '(' => some .opening
      | ')' => some .closing
      | '|' => some .bar
      | '+' => some .plus
      | '?' => some .question
      | '\x7b' => some .braces
      | _ => none
    if c = '*' then (.star, rest)
    else ((if form.isExtended then operator?.getD (.plain c) else .plain c), rest)

/-- An expression repeated as the operators behind it say. -/
def takeRepeats (form : Form) : Nat → Regular → List Char → Except Fault (Regular × List Char)
  | 0, r, rest => pure (r, rest)
  | fuel + 1, r, rest =>
    match meaning form rest with
    | (.star, rest) => takeRepeats form fuel (many 0 none r) rest
    | (.plus, rest) => takeRepeats form fuel (many 1 none r) rest
    | (.question, rest) => takeRepeats form fuel (many 0 (some 1) r) rest
    | (.braces, rest) => do
      let ((least, most), rest) ← takeBounds form rest
      takeRepeats form fuel (many least most r) rest
    | _ => pure (r, rest)

/-- What a letter behind a backslash stands for. -/
def special (form : Form) (c : Char) : Regular :=
  let isSpace (c : Char) : Bool := c = ' ' || (9 ≤ c.toNat && c.toNat ≤ 13)
  match c with
  | 'w' => one isWordChar
  | 'W' => one fun c => !isWordChar c
  | 's' => one isSpace
  | 'S' => one fun c => !isSpace c
  | 'b' => between fun before after => inWord before != inWord after
  | 'B' => between fun before after => inWord before = inWord after
  | '<' => between fun before after => !inWord before && inWord after
  | '>' => between fun before after => inWord before && !inWord after
  | 'n' => one (· = '\n')
  | 't' => one (· = '\t')
  | c =>
    if '1' ≤ c && c ≤ '9' then same (c.toNat - '0'.toNat) else letter form c

mutual

/-- The alternatives of an expression, and what follows them. -/
def takeChoice (form : Form) : Nat → Rest → Except Fault (Regular × Rest)
  | 0, rest => pure (empty, rest)
  | fuel + 1, rest => do
    let (first, left, groups) ← takeSequence form fuel true rest
    match meaning form left with
    | (.bar, left) =>
      let (second, rest) ← takeChoice form fuel (left, groups)
      pure (either first second, rest)
    | _ => pure (first, left, groups)

/-- Expressions after one another, and what follows them. -/
def takeSequence (form : Form) : Nat → Bool → Rest → Except Fault (Regular × Rest)
  | 0, _, rest => pure (empty, rest)
  | fuel + 1, isFirst, (text, groups) => do
    let isEnd (rest : List Char) : Bool :=
      match meaning form rest with
      | (.nothing, _) | (.bar, _) | (.closing, _) => true
      | _ => false
    let followed (r : Regular) (left : List Char) (groups : Nat) : Except Fault (Regular × Rest) := do
      let (r, left) ← takeRepeats form (left.length + 1) r left
      let (others, rest) ← takeSequence form fuel false (left, groups)
      pure (seq r others, rest)
    let anchored (r : Regular) (left : List Char) : Except Fault (Regular × Rest) := do
      let (others, rest) ← takeSequence form fuel true (left, groups)
      pure (seq r others, rest)
    match meaning form text with
    | (.nothing, _) | (.bar, _) | (.closing, _) => pure (empty, text, groups)
    | (.opening, left) =>
      let n := groups + 1
      let (body, left, groups) ← takeChoice form fuel (left, n)
      match meaning form left with
      | (.closing, left) => followed (group n body) left groups
      | _ => .error "Unmatched ( or \\("
    | (.plain '^', left) =>
      if form.isExtended || isFirst then anchored start left
      else followed (letter form '^') left groups
    | (.plain '$', left) =>
      if form.isExtended || isEnd left then anchored finish left
      else followed (letter form '$') left groups
    | (.plain '.', left) => followed (one fun _ => true) left groups
    | (.plain '[', left) =>
      let (r, left) ← takeSet form left
      followed r left groups
    | (.plain '\\', []) => .error "Trailing backslash"
    | (.plain c, left) => followed (letter form c) left groups
    | (.special c, left) => followed (special form c) left groups
    | (.star, left) =>
      if isFirst then followed (if form.isExtended then empty else letter form '*') left groups
      else takeSequence form fuel false (left, groups)
    | (_, left) => takeSequence form fuel false (left, groups)

end

/-- The expression that a text describes. -/
def ofText (form : Form) (t : List Char) : Except Fault Regular := do
  let (r, left, _) ← takeChoice form (4 * t.length + 4) (t, 0)
  match left with
  | [] => pure r
  | _ => .error "Unmatched ) or \\)"

end Regular

/-- The characters of bytes, one for each. -/
def byteChars (bytes : Bytes) : List Char := bytes.map fun b => Char.ofNat b.toNat

/-- The bytes of characters that stand for one each. -/
def charBytes (cs : List Char) : Bytes := cs.map fun c => UInt8.ofNat c.toNat

/-- The characters of a text, one for each of its bytes. -/
def textChars (t : Text) : List Char := byteChars (Utf8.encodeLossless t)

end ProviderKit.Shell
