import ProviderKit.Text.Blank

/-!
# Markup

Styled text is written with tags in brackets: `[green]…[/green]`. A tag starts with a small letter
or one of `#`, `/`, `@`, and a backslash in front makes it plain text. `Markup.escape` protects the
tags of a text that is to be shown as it is, and `Markup.read` turns markup into styled text. A code
between two colons stands for an emoji.
-/

namespace ProviderKit

/-- The styles that messages use. -/
inductive Style where
  | green
  | yellow
  | boldRed
  | dim
deriving DecidableEq, Inhabited

namespace Style

/-- The tag of a style. -/
def tag : Style → Text
  | green => "green"
  | yellow => "yellow"
  | boldRed => "bold red"
  | dim => "dim"

/-- All styles. -/
def all : List Style := [green, yellow, boldRed, dim]

/-- The parameters of the control sequence that switches a style on. -/
def parameters : Style → Text
  | green => "32"
  | yellow => "33"
  | boldRed => "1;31"
  | dim => "2"

end Style

/-- A code point on the screen, with the style that it may have. -/
structure Cell where
  code : CodePoint
  style : Option Style := none
  /-- The run of one style ends here, although the next one may have the same style. -/
  endsRun : Bool := false
deriving DecidableEq

/-- A text whose code points may each have a style. -/
abbrev StyledText := List Cell

namespace Markup

/-- A character that may follow the bracket of a tag. -/
def startsTag (c : CodePoint) : Bool :=
  c.satisfies fun c => ('a' ≤ c && c ≤ 'z') || c = '#' || c = '/' || c = '@'

/-- The text up to the closing bracket of a tag, which holds no opening one, and what follows. -/
def tagBody : Text → Option (Text × Text)
  | [] => none
  | .char ']' :: rest => some ([], rest)
  | .char '[' :: _ => none
  | c :: rest => (tagBody rest).map fun (body, rest) => (c :: body, rest)

/-- The body of the tag that a text begins with, and what follows it. -/
def tagAt? : Text → Option (Text × Text)
  | .char '[' :: c :: rest =>
    if startsTag c then (tagBody rest).map fun (body, rest) => (c :: body, rest) else none
  | _ => none

/-- A piece of markup: a code point, or a tag with backslashes in front. -/
inductive Piece where
  | plain (c : CodePoint)
  | tag (backslashes : Nat) (body : Text)
deriving DecidableEq

/-- A backslash. -/
def isBackslash (c : CodePoint) : Bool := c = .char '\\'

/-- The pieces of a text, of which there are at most as many as the fuel says. -/
def piecesWith : Nat → Text → List Piece
  | 0, _ => []
  | _ + 1, [] => []
  | fuel + 1, c :: t =>
    match tagAt? ((c :: t).dropWhile isBackslash) with
    | some (body, rest) =>
      .tag ((c :: t).takeWhile isBackslash).length body :: piecesWith fuel rest
    | none => .plain c :: piecesWith fuel t

/-- The pieces of a text. -/
def pieces (t : Text) : List Piece := piecesWith t.length t

/-- Some backslashes. -/
def backslashes (n : Nat) : Text := List.replicate n (.char '\\')

/-- A tag with its brackets. -/
def bracketed (body : Text) : Text := .char '[' :: body ++ [.char ']']

/-- A piece with its tag made plain. -/
def Piece.escaped : Piece → Text
  | plain c => [c]
  | tag n body => backslashes (2 * n + 1) ++ bracketed body

/-- A text with a single backslash at its end doubled. -/
def closeEnd (t : Text) : Text :=
  if t.hasSuffix "\\" && !t.hasSuffix "\\\\" then t ++ "\\" else t

/-- The markup for a text that is to be shown as it is. -/
def escape (t : Text) : Text := closeEnd ((pieces t).flatMap Piece.escaped)

/-- A text between two tags of a style. -/
def wrapped (style : Style) (t : Text) : Text :=
  bracketed style.tag ++ t ++ bracketed (.char '/' :: style.tag)

/-- What markup says, in order. -/
inductive Item where
  | text (t : Text)
  | openTag (style : Option Style)
  | closeTag (style : Option Style)
deriving DecidableEq

/-- The style with a given tag. -/
def styleOf (tag : Text) : Option Style := Style.all.find? fun style => style.tag = tag

/-- The tag that a body stands for. -/
def itemOf : Text → Item
  | .char '/' :: tag => .closeTag (styleOf tag)
  | tag => .openTag (styleOf tag)

/-- A backslash in front of a bracket that is no tag's is dropped. -/
def dropBackslash : Text → Text
  | .char '\\' :: .char '[' :: t => .char '[' :: dropBackslash t
  | c :: t => c :: dropBackslash t
  | [] => []

/-- The items of some pieces; `plain` is the plain text before them, in reverse. -/
def itemsFrom (plain : Text) : List Piece → List Item
  | [] => [.text (dropBackslash plain.reverse)]
  | .plain c :: pieces => itemsFrom (c :: plain) pieces
  | .tag n body :: pieces =>
    .text (dropBackslash plain.reverse) :: .text (backslashes (n / 2)) ::
      (if n % 2 = 1 then .text (bracketed body) else itemOf body) :: itemsFrom [] pieces

/-- The items of markup; without a bracket it is plain text as it stands. -/
def items (markup : Text) : List Item :=
  if markup.contains (.char '[') then itemsFrom [] (pieces markup) else [.text markup]

/-! ### Emoji -/

/-- The text up to the next colon, without white space, and what follows the colon. -/
def codeBody : Text → Option (Text × Text)
  | [] => none
  | .char ':' :: rest => some ([], rest)
  | c :: rest =>
    if c.isBlank then none else (codeBody rest).map fun (body, rest) => (c :: body, rest)

/-- The text with the emoji in place of their codes, which stand between colons and of which there
are at most as many as the fuel says. -/
def replaceCodes (emoji : Text → Option Text) : Nat → Text → Text
  | 0, t => t
  | _ + 1, [] => []
  | fuel + 1, c :: t =>
    match if c = .char ':' then codeBody t else none with
    | some (body, rest) =>
      (emoji body).getD (.char ':' :: body ++ [.char ':']) ++ replaceCodes emoji fuel rest
    | none => c :: replaceCodes emoji fuel t

/-- An item with the emoji in place of their codes. -/
def Item.withEmoji (emoji : Text → Option Text) : Item → Item
  | text t => text (replaceCodes emoji t.length t)
  | item => item

/-- The text of items; `styles` are the styles that are open, the innermost first. -/
def textOf (styles : List (Option Style)) : List Item → StyledText
  | [] => []
  | .text t :: items =>
    t.map (fun code => { code, style := (styles.find? Option.isSome).join }) ++ textOf styles items
  | .openTag style :: items => textOf (style :: styles) items
  | .closeTag style :: items => textOf (styles.erase style) items

/-- The styled text of markup. -/
def read (markup : Text) : StyledText := textOf [] (items markup)

end Markup

end ProviderKit
