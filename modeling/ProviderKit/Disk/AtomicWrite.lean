import ProviderKit.Disk.Change
import ProviderKit.Failure

/-!
# Writing a file as a whole

The text is first written to a temporary file beside the target and then moved over it, so that
the target is never half written. When anything fails, the temporary file is closed and removed
again.

The device that holds the file may fail at each of these steps. A text that it does not take is
offered to it once more when the temporary file is closed, and if it does not take it then either,
the temporary file stays.
-/

namespace ProviderKit.Disk

/-- The first of the drawn names that is free in a directory, with a given beginning and end. -/
def freePath (disk : Disk) (directory : Path) (start finish : Text) :
    List Text → Except Fault (Option Path)
  | [] => .ok none
  | draw :: draws => do
    let path := directory.child (start ++ draw ++ finish)
    match disk.get? (← disk.locate false path) with
    | none => pure (some path)
    | some _ => freePath disk directory start finish draws

/-- A free path for a temporary entry. The directory is taken lexically. -/
def temporaryPath (disk : Disk) (directory : Path) (start finish : Text) (draws : List Text) :
    Except Fault Path := do
  let directory : Path := ⟨directory.root, Path.collapse directory.names⟩
  match ← disk.freePath directory start finish draws with
  | some path => pure path
  | none => .error (.refused .exists directory)

/-- A temporary entry can be made in a directory. -/
def takesTemporary (disk : Disk) (draws : List Text) (directory : Path) : Bool :=
  match disk.temporaryPath directory [] [] draws with
  | .ok _ => true
  | .error _ => false

/-- The steps of writing a file as a whole at which a device can fail. -/
inductive WriteStep where
  /-- The temporary file is made. -/
  | create
  /-- It is filled with the bytes of the text. -/
  | fill
  /-- The bytes that the device did not take are offered to it again. -/
  | refill
  /-- What the device took is kept for good. -/
  | sync
  | close
  /-- The temporary file gets the permissions of the target. -/
  | permit
  /-- It is moved over the target. -/
  | move
  /-- It is removed. -/
  | remove
deriving DecidableEq

/-- What holds a file: at each step it may fail for a reason, and of a text that it does not take it
has taken some bytes. -/
structure Device where
  failure? : WriteStep → Option Reason
  taken : Nat := 0

namespace Device

/-- A device that never fails. -/
def ample : Device := { failure? := fun _ => none }

/-- The disk with the temporary file removed, where that can be done. -/
def discard (device : Device) (disk : Disk) (temporary : Path) : Disk :=
  match device.failure? .remove, disk.unlink temporary with
  | none, .ok disk => disk
  | _, _ => disk

/-- Gives up with the temporary file open. It is closed before it is removed; where that fails, it
stays, and the run ends with the reason for that. -/
def abandon (device : Device) (disk : Disk) (temporary : Path) (failure : Failure) :
    Except Failure Unit × Disk :=
  match device.failure? .close with
  | some reason => (.error (.disk (.refusedOpen reason)), disk)
  | none => (.error failure, device.discard disk temporary)

/-- Moves the temporary file over the target. -/
def moveIntoPlace (device : Device) (disk : Disk) (temporary target : Path) :
    Except Failure Unit × Disk :=
  match device.failure? .move, disk.moveFile temporary target with
  | some reason, _ =>
    (.error (.disk (.refused reason temporary)), device.discard disk temporary)
  | none, .error fault => (.error (.disk fault), device.discard disk temporary)
  | none, .ok disk => (.ok (), disk)

/-- Closes the temporary file, which is filled, gives it the permissions of the target and moves it
there. `holding` is the disk that holds the file with given permissions. -/
def finish (device : Device) (holding : Mode → Disk) (temporary target : Path) :
    Except Failure Unit × Disk :=
  match device.failure? .sync, device.failure? .close, device.failure? .permit with
  | some reason, _, _ =>
    device.abandon (holding .secret) temporary (.disk (.refusedOpen reason))
  | none, some reason, _ =>
    (.error (.disk (.refusedOpen reason)), device.discard (holding .secret) temporary)
  | none, none, some reason =>
    (.error (.disk (.refused reason temporary)), device.discard (holding .secret) temporary)
  | none, none, none => device.moveIntoPlace (holding .usual) temporary target

/-- Fills the temporary file and goes on from there. `holding` is the disk that holds the file with
given permissions and bytes. -/
def fill (device : Device) (holding : Mode → Bytes → Disk) (temporary target : Path)
    (bytes : Bytes) : Except Failure Unit × Disk :=
  match device.failure? .fill, device.failure? .refill with
  | some _, some again =>
    (.error (.disk (.refusedOpen again)), holding .secret (bytes.take device.taken))
  | some reason, none =>
    device.abandon (holding .secret (bytes.take device.taken)) temporary
      (.disk (.refusedOpen reason))
  | none, _ => device.finish (holding · bytes) temporary target

end Device

/-- Writes a text to a file as a whole on a device, with the missing directories above it. A link at
the target is replaced, and the permissions of an earlier file are not kept. -/
def writeOn [Interpreter] (disk : Disk) (device : Device) (draws : List Text) (target : Path)
    (text : Text) : Except Failure Unit × Disk :=
  match disk.makeDirectories true target.parent with
  | (.error fault, disk) => (.error (.disk fault), disk)
  | (.ok (), disk) =>
    match disk.temporaryPath target.parent ("." ++ target.name ++ ".") ".tmp" draws with
    | .error fault => (.error (.disk fault), disk)
    | .ok temporary =>
      match device.failure? .create, disk.locate false temporary with
      | some reason, _ => (.error (.disk (.refused reason temporary)), disk)
      | none, .error fault => (.error (.disk fault), disk)
      | none, .ok place =>
        let holding (mode : Mode) (bytes : Bytes) := disk.put place (.file mode (.bytes bytes))
        match Utf8.encode? text with
        | none => device.abandon (holding .secret []) temporary .unencodable
        | some bytes => device.fill holding temporary target bytes

/-- Writes a text to a file as a whole, on a device that does not fail. -/
def writeWhole [Interpreter] (disk : Disk) (draws : List Text) (target : Path) (text : Text) :
    Except Failure Unit × Disk :=
  disk.writeOn .ample draws target text

/-- A target as seen from a directory; the directory itself keeps the dot that names it. -/
def targetFrom (here target : Path) : Path :=
  if target = ⟨.relative, []⟩ then here.child "." else here.join target

/-- Writes a text to a file as a whole on a device. A relative target is taken from the given
directory. -/
def writeAtomically [Interpreter] (disk : Disk) (device : Device) (draws : List Text)
    (here target : Path) (text : Text) : Except Failure Unit × Disk :=
  disk.writeOn device draws (targetFrom here target) text

end ProviderKit.Disk
