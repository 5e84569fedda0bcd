import ProviderKit.Text.Lossless

/-!
# Patterns

A pattern is a text in which `*` stands for any characters, `?` for one, and a bracketed set for one
of its members. A protected character stands for itself.
-/

namespace ProviderKit.Shell

/-- A character of a pattern, and whether it is protected. -/
abbrev Mark := CodePoint × Bool

/-- A text whose characters are protected or not. -/
abbrev Marked := List Mark

namespace Marked

/-- The characters without their protection. -/
def text (marked : Marked) : Text := marked.map (·.1)

/-- A text with all its characters protected, or none. -/
def ofText (isProtected : Bool) (t : Text) : Marked := t.map fun c => (c, isProtected)

/-- A character that is not protected and stands for others. -/
def isWild (mark : Mark) : Bool :=
  !mark.2 && mark.1.satisfies fun c => "*?[".toList.contains c

end Marked

/-- The classes of characters that have a name. -/
def classes : List (Text × (Char → Bool)) :=
  [("alpha", Char.isAlpha), ("digit", Char.isDigit), ("alnum", Char.isAlphanum),
   ("upper", Char.isUpper), ("lower", Char.isLower),
   ("space", fun c => c = ' ' || (9 ≤ c.toNat && c.toNat ≤ 13)),
   ("blank", fun c => c = ' ' || c = '\t'),
   ("punct", fun c => 33 ≤ c.toNat && c.toNat < 127 && !c.isAlphanum),
   ("print", fun c => 32 ≤ c.toNat && c.toNat < 127),
   ("graph", fun c => 33 ≤ c.toNat && c.toNat < 127),
   ("cntrl", fun c => c.toNat < 32 || c.toNat = 127),
   ("xdigit", fun c => c.isDigit || "abcdefABCDEF".toList.contains c)]

/-- The class that is named at the beginning of a text, after a bracket, and the number of
characters that name it. -/
def takeClass (t : Text) : Option ((Char → Bool) × Nat) :=
  match t with
  | .char ':' :: rest =>
    let name := rest.takeWhile (·.satisfies Char.isAlpha)
    if (rest.drop name.length).take 2 = Text.ofString ":]" then
      (classes.lookup name).map fun property => (property, name.length + 3)
    else none
  | _ => none

/-- A character belongs to the set whose members begin a pattern, and what follows the bracket that
closes the set; nothing if none does. A bracket closes no set that has no member yet. -/
def inSet (c : CodePoint) : Nat → Bool → Bool → Marked → Option (Bool × Marked)
  | 0, _, _, _ | _, _, _, [] => none
  | fuel + 1, _, found, (.char '[', false) :: pattern =>
    match takeClass (Marked.text pattern) with
    | some (property, n) => inSet c fuel false (found || c.satisfies property) (pattern.drop n)
    | none => inSet c fuel false (found || c = .char '[') pattern
  | fuel + 1, fresh, found, (a, isProtected) :: pattern =>
    if a = .char ']' && !isProtected && !fresh then some (found, pattern)
    else match pattern with
      | (.char '-', false) :: (b, last) :: rest =>
        if b = .char ']' && !last then inSet c fuel false (found || a = c) pattern
        else
          inSet c fuel false (found || (a.toNat ≤ c.toNat && c.toNat ≤ b.toNat)) rest
      | _ => inSet c fuel false (found || a = c) pattern

/-- A character belongs to the set at the beginning of a pattern, after the opening bracket, which
may be negated, and what follows the set. -/
def takeSet (c : CodePoint) (pattern : Marked) : Option (Bool × Marked) :=
  match pattern with
  | (.char '!', false) :: rest =>
    (inSet c (rest.length + 1) true false rest).map fun (found, after) => (!found, after)
  | _ => inSet c (pattern.length + 1) true false pattern

/-- The text matches the pattern, within a number of steps. -/
def matchesWith : Nat → Marked → Text → Bool
  | 0, _, _ => false
  | _ + 1, [], t => t.isEmpty
  | fuel + 1, (.char '*', false) :: p, t =>
    matchesWith fuel p t ||
      match t with
      | [] => false
      | _ :: rest => matchesWith fuel ((.char '*', false) :: p) rest
  | fuel + 1, (.char '?', false) :: p, t =>
    match t with
    | [] => false
    | _ :: rest => matchesWith fuel p rest
  | fuel + 1, (.char '[', false) :: p, t =>
    match t with
    | [] => false
    | c :: rest =>
      match takeSet c p with
      | some (found, after) => found && matchesWith fuel after rest
      | none => c = .char '[' && matchesWith fuel p rest
  | fuel + 1, (a, _) :: p, t =>
    match t with
    | [] => false
    | c :: rest => a = c && matchesWith fuel p rest

/-- A text with a character for each of its bytes. -/
def bytewise (t : Text) : Text :=
  (Utf8.encodeLossless t).map fun byte => .char (Char.ofNat byte.toNat)

/-- The text that a text with a character for each byte stands for. -/
def ofBytewise (t : Text) : Text :=
  Utf8.decodeLossless (t.map fun c => UInt8.ofNat c.toNat)

namespace Marked

/-- A pattern with a character for each of its bytes. -/
def bytewise (pattern : Marked) : Marked :=
  pattern.flatMap fun (c, isProtected) => (Shell.bytewise [c]).map fun c => (c, isProtected)

/-- The text, which has a character for each byte, matches the pattern. -/
def matchesBytes (pattern : Marked) (t : Text) : Bool :=
  matchesWith (pattern.length + t.length + 1) pattern t

/-- The text matches the pattern, byte by byte. -/
def «matches» (pattern : Marked) (t : Text) : Bool :=
  pattern.bytewise.matchesBytes (Shell.bytewise t)

end Marked

/-- The text without the beginning, the shortest or the longest, that matches the pattern. -/
def dropMatchingFront (longest : Bool) (pattern : Marked) (t : Text) : Text :=
  let pattern := pattern.bytewise
  let t := bytewise t
  let sizes := List.range (t.length + 1)
  match (if longest then sizes.reverse else sizes).find? fun n =>
      pattern.matchesBytes (t.take n) with
  | some n => ofBytewise (t.drop n)
  | none => ofBytewise t

/-- The text without the ending, the shortest or the longest, that matches the pattern. -/
def dropMatchingBack (longest : Bool) (pattern : Marked) (t : Text) : Text :=
  let pattern := pattern.bytewise
  let t := bytewise t
  let sizes := List.range (t.length + 1)
  match (if longest then sizes else sizes.reverse).find? fun n =>
      pattern.matchesBytes (t.drop n) with
  | some n => ofBytewise (t.take n)
  | none => ofBytewise t

end ProviderKit.Shell
