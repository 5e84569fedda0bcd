import ProviderKit.Shell.Control

/-!
# Redirections

A redirection puts a stream of the shell on a file, on another stream or on a document. What cannot
be opened is complained about, and the redirections after it are not looked at.
-/

namespace ProviderKit.Shell

/-- What a path that is no entry of the disk stands for. -/
inductive Device where
  /-- It takes everything and gives nothing. -/
  | null
  /-- It takes everything and gives zeros without an end. -/
  | zero
  /-- It is a stream of the process. -/
  | stream (n : Nat)

/-- The device at a path. -/
def Device.at? (path : Path) : Option Device :=
  match path.names.map Text.toString with
  | ["dev", "null"] => some .null
  | ["dev", "zero"] => some .zero
  | ["dev", "stdin"] => some (.stream 0)
  | ["dev", "stdout"] => some (.stream 1)
  | ["dev", "stderr"] => some (.stream 2)
  | ["dev", "fd", n] => n.toNat?.map .stream
  | _ => none

/-- What is said of a file that cannot be opened. -/
def openFault (writing : Bool) : Disk.Fault → Text
  | .refused reason _ =>
    match reason with
    | .missing | .notDirectory => if writing then "Directory nonexistent" else "No such file"
    | reason => Text.ofString reason.message
  | fault => fault.message

namespace Redirect

/-- What is said of a file that cannot be opened, and why. -/
def refusal (writing : Bool) (target reason : Text) : Text :=
  let attempt : Text := if writing then "cannot create " else "cannot open "
  attempt ++ target ++ ": " ++ reason

/-- Opens a file that is written for a stream, with a content, or says why it cannot be opened. -/
def openNew (stream : Nat) (atEnd : Bool) (target : Text) (content : Content) :
    Action (Option Text) := do
  let s ← get
  let path := pathOf s target
  let opened : Except Disk.Fault (Disk × Place) := do
    let disk ← s.disk.write path content
    let (place, _) ← disk.find true path
    pure (disk, place)
  match opened with
  | .ok (disk, place) =>
    set ({ s with disk }.openStream stream (.file place 0 atEnd))
    pure none
  | .error fault => pure (some (refusal true target (openFault true fault)))

/-- Opens a file for a stream, or says why it cannot be opened. -/
def openFile (stream : Nat) (opening : Opening) (target : Text) : Action (Option Text) := do
  let s ← get
  let path := pathOf s target
  let writing := opening != .read && opening != .update
  let missing : Option Text := some (refusal writing target (openFault writing
    (.refused .missing path)))
  if target.isEmpty then return missing
  match Device.at? path with
  | some .null | some .zero =>
    set (s.openStream stream .nowhere)
    pure none
  | some (.stream n) =>
    match s.streams.lookup n with
    | some i =>
      set (s.withStream stream i)
      pure none
    | none => pure missing
  | none =>
    match opening, s.disk.find true path with
    | .read, .ok (place, _) | .update, .ok (place, _) =>
      set (s.openStream stream (.file place 0 false))
      pure none
    | .read, .error fault | .update, .error fault =>
      pure (some (refusal writing target (openFault writing fault)))
    | .append, .ok (_, .file _ content) => openNew stream true target content
    | .append, _ => openNew stream true target (.bytes [])
    | .write, .ok (_, .file ..) =>
      if s.has 'C' then pure (some (refusal true target "File exists"))
      else openNew stream false target (.bytes [])
    | .write, _ | .overwrite, _ => openNew stream false target (.bytes [])

/-- Puts a stream on another one, or says why there is none. -/
def duplicate (stream : Nat) (other : Text) : Action (Option Text) := do
  let s ← get
  match other with
  | [.char '-'] =>
    set (s.closeStream stream)
    pure none
  | [c] =>
    if !c.satisfies Char.isDigit then fail "Syntax error: Bad fd number"
    match s.streams.lookup (Text.digitsValue other) with
    | some i =>
      set (s.withStream stream i)
      pure none
    | none => pure (some (other ++ ": Bad file descriptor"))
  | _ => fail "Syntax error: Bad fd number"

/-- Redirects streams, or says what is wrong; `run` runs a statement. -/
def all (run : Statement → Action Unit) (fuel : Nat) : List Redirection → Action (Option Text)
  | [] => pure none
  | redirection :: rest => do
    let complaint? ← match redirection with
      | .file stream opening target => do
        openFile stream opening (← Expansion.single run fuel target)
      | .duplicate stream other => do duplicate stream (← Expansion.single run fuel other)
      | .document stream id => do
        let t ← Expansion.text run fuel (((← get).documents.lookup id).getD [])
        modify fun s => s.openStream stream (.source (Utf8.encodeLossless t.text))
        pure none
    match complaint? with
    | some complaint => pure (some complaint)
    | none => all run fuel rest

end Redirect

end ProviderKit.Shell
