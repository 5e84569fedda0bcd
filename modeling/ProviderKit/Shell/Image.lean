import ProviderKit.Process.Lookup
import ProviderKit.Text.Lossless

/-!
# What an executable file starts

A file that starts with `#!` is a script: the rest of its first line names the interpreter and at
most one argument for it. Any other file that can be started is one of the machine's own programs;
its content is a mark and the name of the program.
-/

namespace ProviderKit.Shell

/-- The mark at the beginning of the machine's own programs. -/
def programMark : Bytes := [0x7F, 0x45, 0x4C, 0x46]

/-- The content of one of the machine's own programs. -/
def programContent (name : Text) : Content := .bytes (programMark ++ Utf8.encodeLossless name)

/-- A program of the machine with its arguments; the first one is the name it is called by. -/
structure Image where
  program : Text
  arguments : List Text

/-- A blank in the first line of a script. -/
def isLineBlank (c : CodePoint) : Bool := c = .char ' ' || c = .char '\t'

/-- The text without blanks at both ends. -/
def trimBlanks (t : Text) : Text :=
  ((t.dropWhile isLineBlank).reverse.dropWhile isLineBlank).reverse

/-- The interpreter that a script names, and the argument for it. -/
def interpreter? (bytes : Bytes) : Option (Text × List Text) :=
  match bytes with
  | 0x23 :: 0x21 :: rest =>
    let line := trimBlanks (Utf8.decodeLossless (rest.takeWhile (· != 10)))
    let (path, argument) := line.span fun c => !isLineBlank c
    if path.isEmpty then none
    else some (path, if argument.isEmpty then [] else [trimBlanks argument])
  | _ => none

/-- The reason of a refusal; a path that is no path leads to nothing. -/
def reasonOf : Disk.Fault → Disk.Reason
  | .refused reason _ | .refusedOpen reason => reason
  | .unencodable | .nullCharacter | .linkInsteadOfTree | .sameFile | .tooDeep => .missing

/-- What starting a file with arguments comes to, through at most the given number of
interpreters. -/
def imageOf (disk : Disk) (directory : Path) : Nat → Text → List Text → Except Disk.Reason Image
  | fuel, executable, arguments =>
    match disk.fileAt directory executable with
    | .error fault => .error (reasonOf fault)
    | .ok (false, _) => .error .permissionDenied
    | .ok (true, content) =>
      let bytes := content.data
      if programMark.isPrefixOf bytes then
        .ok ⟨Utf8.decodeLossless (bytes.drop programMark.length), arguments⟩
      else match interpreter? bytes, fuel with
        | none, _ => .error .notExecutable
        | some _, 0 => .error .tooManyLinks
        | some (interpreter, argument), fuel + 1 =>
          imageOf disk directory fuel interpreter
            (interpreter :: argument ++ executable :: arguments.drop 1)

/-- The most interpreters between a file and a program. -/
def interpreterLimit : Nat := 5

/-- The first of several files that can be started. If there is none, the reason is that of the
first file that is there at all. -/
def firstImage (disk : Disk) (directory : Path) (arguments : List Text) :
    Option Disk.Reason → List Text → Except Disk.Reason Image
  | reason, [] => .error (reason.getD .missing)
  | reason, candidate :: candidates =>
    match imageOf disk directory interpreterLimit candidate arguments with
    | .ok image => .ok image
    | .error other =>
      if candidates.isEmpty then .error (reason.getD other)
      else
        let telling := if other = .missing || other = .notDirectory then none else some other
        firstImage disk directory arguments (reason.or telling) candidates

end ProviderKit.Shell
