import ProviderKit.Text.Quoted
import ProviderKit.Text.Utf8
import ProviderKit.Path.Basic

/-!
# Why a disk refuses a request

A request names a path. The path itself may be impossible, when its text cannot be written as the
bytes of a file name; or the disk refuses, for one of the numbered reasons below; or the routine
that carries the request out would have to call itself too often.
-/

namespace ProviderKit.Disk

/-- A reason to refuse a request. -/
inductive Reason where
  | notPermitted
  | missing
  | inputOutput
  | notExecutable
  | permissionDenied
  | busy
  | exists
  | notDirectory
  | isDirectory
  | invalid
  | fileTooLarge
  | noSpace
  | nameTooLong
  | notEmpty
  | tooManyLinks
deriving DecidableEq, Inhabited

namespace Reason

/-- The number of a reason. -/
def code : Reason → Nat
  | notPermitted => 1
  | missing => 2
  | inputOutput => 5
  | notExecutable => 8
  | permissionDenied => 13
  | busy => 16
  | «exists» => 17
  | notDirectory => 20
  | isDirectory => 21
  | invalid => 22
  | fileTooLarge => 27
  | noSpace => 28
  | nameTooLong => 36
  | notEmpty => 39
  | tooManyLinks => 40

/-- The wording of a reason. -/
def message : Reason → String
  | notPermitted => "Operation not permitted"
  | missing => "No such file or directory"
  | inputOutput => "Input/output error"
  | notExecutable => "Exec format error"
  | permissionDenied => "Permission denied"
  | busy => "Device or resource busy"
  | «exists» => "File exists"
  | notDirectory => "Not a directory"
  | isDirectory => "Is a directory"
  | invalid => "Invalid argument"
  | fileTooLarge => "File too large"
  | noSpace => "No space left on device"
  | nameTooLong => "File name too long"
  | notEmpty => "Directory not empty"
  | tooManyLinks => "Too many levels of symbolic links"

end Reason

/-- A request that a disk does not carry out. -/
inductive Fault where
  /-- The path holds a surrogate that stands for no byte. -/
  | unencodable
  /-- The path holds a null character. -/
  | nullCharacter
  /-- The disk refuses, and the reason names a path. -/
  | refused (reason : Reason) (path : Path)
  /-- The disk refuses something about a file that is open, and the reason names no path. -/
  | refusedOpen (reason : Reason)
  /-- A symbolic link stands where a directory is to be removed. -/
  | linkInsteadOfTree
  /-- A file would be copied onto itself. -/
  | sameFile
  /-- The routine that carries the request out would have to call itself too often. -/
  | tooDeep
deriving DecidableEq, Inhabited

namespace Fault

/-- The numbered form of a refusal. -/
def refusal (reason : Reason) (path : Text) : Text :=
  "[Errno " ++ Text.ofNat reason.code ++ "] " ++ Text.ofString reason.message ++ ": " ++
    path.quoted

/-- The numbered form of a refusal that names no path. -/
def openRefusal (reason : Reason) : Text :=
  "[Errno " ++ Text.ofNat reason.code ++ "] " ++ Text.ofString reason.message

/-- The wording of a fault. -/
def message : Fault → Text
  | unencodable => "surrogates not allowed"
  | nullCharacter => "embedded null byte"
  | refused reason path => refusal reason path.text
  | refusedOpen reason => openRefusal reason
  | linkInsteadOfTree => "Cannot call rmtree on a symbolic link"
  | sameFile => "the two paths are the same file"
  | tooDeep => "maximum recursion depth exceeded"

/-- The fault says that nothing can be there: the path leads nowhere or is no path at all. -/
def isAbsence : Fault → Bool
  | unencodable | nullCharacter => true
  | refused reason _ =>
    reason == .missing || reason == .notDirectory || reason == .tooManyLinks
  | refusedOpen _ | linkInsteadOfTree | sameFile | tooDeep => false

/-- The fault lies with the path's text and not with the disk. -/
def isPathText : Fault → Bool
  | unencodable | nullCharacter => true
  | refused .. | refusedOpen _ | linkInsteadOfTree | sameFile | tooDeep => false

/-- The fault is one that the system reports, as against one of the path's text or of the
interpreter. -/
def isReported : Fault → Bool
  | refused .. | refusedOpen _ | linkInsteadOfTree | sameFile => true
  | unencodable | nullCharacter | tooDeep => false

end Fault

/-- A surrogate that stands for a byte of a file name that is not UTF-8. -/
def standsForByte : CodePoint → Bool
  | .char _ => true
  | .surrogate s => 0x480 ≤ s.val && s.val < 0x500

/-- The text can be written as the bytes of a file name. -/
def isEncodable (t : Text) : Bool := t.all standsForByte

/-- The text holds a null character. -/
def hasNull (t : Text) : Bool := t.contains (.char '\x00')

end ProviderKit.Disk
