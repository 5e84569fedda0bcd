import ProviderKit.Console.Markup
import ProviderKit.Text.Blank
import ProviderKit.Text.Columns

/-!
# Wrapping

A line of styled text is broken into lines of a given width, which is counted in columns. A word is
a run of other characters with the white space after it, and the first word of a line also has the
white space before it. A word that fits stays on its line, whatever becomes of the white space at
its end; a word longer than the width is cut; any other word starts a new line.
-/

namespace ProviderKit.Wrap

/-- The character of a place is white space. -/
def isBlank (c : Cell) : Bool := c.code.isBlank

/-- The columns that a text takes. -/
def columns (t : StyledText) : Nat := Text.columns (t.map (·.code))

/-- The graphemes of a text. -/
def graphemes (t : StyledText) : List (Grapheme Cell) := Grapheme.split (·.code) t

/-- The words of a line; white space on its own is no word. -/
def wordsWith : Nat → StyledText → List StyledText
  | 0, _ => []
  | fuel + 1, line =>
    let before := line.takeWhile isBlank
    let rest := line.dropWhile isBlank
    let word := rest.takeWhile (!isBlank ·)
    let rest := rest.dropWhile (!isBlank ·)
    if word.isEmpty then []
    else (before ++ word ++ rest.takeWhile isBlank) :: wordsWith fuel (rest.dropWhile isBlank)

/-- The words of a line. -/
def words (line : StyledText) : List StyledText := wordsWith line.length line

/-- A text without the white space at its end. -/
def trimEnd (t : StyledText) : StyledText := (t.reverse.dropWhile isBlank).reverse

/-- The part of a text that fits a width, and the rest. -/
def splitFitting (width : Nat) : List (Grapheme Cell) → StyledText × StyledText
  | [] => ([], [])
  | g :: rest =>
    if g.columns ≤ width then
      let (fitting, after) := splitFitting (width - g.columns) rest
      (g.items ++ fitting, after)
    else ([], g.items ++ rest.flatMap (·.items))

/-- A text cut into pieces, each of which takes what fits the width and at least one grapheme;
`piece` is the piece being filled, and `used` its columns. A last piece that takes no columns is
left out. -/
def chunksFrom (width used : Nat) (piece : StyledText) : List (Grapheme Cell) → List StyledText
  | [] => if used = 0 then [] else [piece]
  | g :: rest =>
    if used + g.columns > width then piece :: chunksFrom width g.columns g.items rest
    else chunksFrom width (used + g.columns) (piece ++ g.items) rest

/-- A text cut into pieces that fit the width. -/
def chunks (width : Nat) (t : StyledText) : List StyledText := chunksFrom width 0 [] (graphemes t)

/-- The lines done so far, in reverse, the line being filled, and the space taken on it. -/
structure Layout where
  done : List StyledText := []
  line : StyledText := []
  used : Nat := 0

namespace Layout

/-- Starts a new line, unless nothing was laid out yet. -/
def newLine (l : Layout) : Layout :=
  if l.done.isEmpty && l.line.isEmpty then l
  else { l with done := l.line :: l.done, line := [] }

/-- Adds a word on the line. -/
def addHere (l : Layout) (word : StyledText) : Layout :=
  { l with line := l.line ++ word, used := l.used + columns word }

/-- Adds a word at the start of a new line. -/
def addBelow (l : Layout) (word : StyledText) : Layout :=
  let l := l.newLine
  { l with line := l.line ++ word, used := columns word }

/-- Adds a word to the layout. -/
def add (width : Nat) (l : Layout) (word : StyledText) : Layout :=
  let needed := columns (trimEnd word)
  if l.used + needed ≤ width then l.addHere word
  else if needed > width then (chunks width word).foldl addBelow l
  else l.addBelow word

/-- The lines of a layout. -/
def lines (l : Layout) : List StyledText := (l.line :: l.done).reverse

end Layout

/-- A line cut down to the width, if it takes more; half of a wide character is shown as a space. -/
def truncate (width : Nat) (line : StyledText) : StyledText :=
  if columns line ≤ width then line
  else
    let (fitting, rest) := splitFitting width (graphemes line)
    match rest with
    | [] => fitting
    | c :: _ =>
      if columns fitting < width then fitting ++ [{ code := .char ' ', style := c.style }]
      else fitting

/-- A line cut down to the width, at first by white space at its end only. -/
def crop (width : Nat) (line : StyledText) : StyledText :=
  let excess := line.length - width
  let blanks := (line.reverse.takeWhile isBlank).length
  truncate width (line.take (line.length - min blanks excess))

/-- The spaces that fill up a tab, at the last of which the run of one style ends. -/
def tabStop (style : Option Style) : Nat → StyledText
  | 0 => []
  | n + 1 => List.replicate n { code := .char ' ', style } ++ [⟨.char ' ', style, true⟩]

/-- The text with each tab filled up with spaces to the next multiple of eight. `column` is where
the part since the last tab starts, and `part` that part, in reverse. -/
def expandTabsFrom (column : Nat) (part : StyledText) : StyledText → StyledText
  | [] => part.reverse
  | c :: t =>
    if c.code = .char '\t' then
      let here := column + columns (⟨.char ' ', c.style, false⟩ :: part).reverse
      let spaces := 1 + (8 - here % 8) % 8
      part.reverse ++ tabStop c.style spaces ++ expandTabsFrom (here + spaces - 1) [] t
    else expandTabsFrom column (c :: part) t

/-- The text with each tab filled up with spaces to the next multiple of eight. -/
def expandTabs (t : StyledText) : StyledText := expandTabsFrom 0 [] t

/-- The white space of a line that no word holds: a line of white space only. -/
def wordsOrBlank (line : StyledText) : List StyledText :=
  if (words line).isEmpty then [line] else words line

/-- The lines of a line that is broken to a given width. -/
def wrapLine (width : Nat) (line : StyledText) : List StyledText :=
  (((wordsOrBlank (expandTabs line)).foldl (Layout.add width) {}).lines).map (crop width)

/-- The lines of a text, which end at each `\n`. -/
def splitLines : StyledText → List StyledText
  | [] => [[]]
  | c :: t =>
    if c.code = .char '\n' then [] :: splitLines t
    else match splitLines t with
      | [] => [[c]]
      | line :: lines => (c :: line) :: lines

/-- The lines of a text, each broken to a given width. -/
def wrap (width : Nat) (t : StyledText) : List StyledText := (splitLines t).flatMap (wrapLine width)

end ProviderKit.Wrap
