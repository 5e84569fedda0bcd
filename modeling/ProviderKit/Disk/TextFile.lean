import ProviderKit.Text.Lines
import ProviderKit.Disk.Change

/-!
# Files as text

A file is read as UTF-8 with every line end turned into `\n`, and written as UTF-8 without any
such change.
-/

namespace ProviderKit.Disk

/-- Why a file has no text. -/
inductive ReadFault where
  | disk (fault : Fault)
  | encoding (fault : Utf8.Fault)
deriving DecidableEq

/-- The wording of a read fault. -/
def ReadFault.message : ReadFault → Text
  | disk fault => fault.message
  | encoding fault => fault.message

/-- The text of the file that a path leads to. -/
def readText (disk : Disk) (path : Path) : Except ReadFault Text :=
  match disk.read path with
  | .error fault => .error (.disk fault)
  | .ok content =>
    match Utf8.decode content.data with
    | .error fault => .error (.encoding fault)
    | .ok text => .ok text.normalizeNewlines

end ProviderKit.Disk
