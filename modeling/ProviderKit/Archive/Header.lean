import ProviderKit.Compressed.Gzip
import ProviderKit.Disk.Basic
import ProviderKit.Interpreter
import ProviderKit.Number.Numeral
import ProviderKit.Text.Lossless

/-!
# Headers of archive members

Before each member stands a block of 512 bytes with fields of fixed places: a name, a kind, a size,
and so on. Blocks before that one can hold names that are too long for their fields, or records,
each a keyword and a value, that replace fields of the member, or of all members from there on.
-/

namespace ProviderKit.Archive

/-- The bytes of a block. -/
def blockSize : Nat := 512

/-- The bytes of whole blocks that hold a count of bytes. -/
def wholeBlocks (count : Int) : Nat := (count.toNat + (blockSize - 1)) / blockSize * blockSize

/-- What a header says of its member. -/
structure Header where
  name : Text
  linkName : Text
  kind : UInt8
  mode : Int
  size : Int
  /-- Where the data of the member begins. -/
  dataAt : Nat
  /-- Where the next header begins. -/
  next : Nat

namespace Header

/-- The kinds of members, by the byte that marks them. -/
inductive Kind where
  | file
  | sameFile
  | link
  | device
  | directory
  | pipe
  | unknown
deriving DecidableEq

/-- The kind that a byte marks. -/
def kindOf (mark : UInt8) : Kind :=
  if mark = 0x31 then .sameFile
  else if mark = 0x32 then .link
  else if mark = 0x33 || mark = 0x34 then .device
  else if mark = 0x35 then .directory
  else if mark = 0x36 then .pipe
  else if mark = 0 || mark = 0x30 || mark = 0x37 || mark = 0x53 then .file
  else .unknown

/-- Data follows the headers of files and of members of an unknown kind. -/
def hasData (h : Header) : Bool := kindOf h.kind == .file || kindOf h.kind == .unknown

/-- The permissions of the file; the bits above them do not count. -/
def permissions (h : Header) : Mode := ⟨(h.mode % 0o10000).toNat⟩

/-- A text without the slashes at its end. -/
def withoutEndSlashes (t : Text) : Text := (t.reverse.dropWhile (· = .char '/')).reverse

/-- A directory's name has no slashes at its end. -/
def withPlainName (h : Header) : Header :=
  if kindOf h.kind == .directory then { h with name := withoutEndSlashes h.name } else h

/-- The text of a field, which ends at its first zero byte. -/
def textOf (field : Bytes) : Text := Utf8.decodeLossless (field.takeWhile (· != 0))

/-- The number in a field: binary after one of two marks, else in octal digits. -/
def numberOf? (field : Bytes) : Option Int :=
  let binary : Int := (field.drop 1).foldl (fun n b => 256 * n + b.toNat) 0
  match field.head? with
  | some 0x80 => some binary
  | some 0xFF => some (binary - Nat.pow 256 (field.length - 1))
  | _ =>
    let isAscii := (field.takeWhile (· != 0)).all (· < 0x80)
    let written := ((textOf field).trim.toChars?).getD []
    let unmarked := match Numeral.splitSign written with
      | (negative, '0' :: 'o' :: ds) | (negative, '0' :: 'O' :: ds) =>
        (if negative then ['-'] else []) ++ (if ds.head? = some '_' then ds.drop 1 else ds)
      | _ => written
    if !isAscii then none
    else if written.isEmpty then some 0
    else Numeral.int? 8 unmarked

/-- The bytes of a field. -/
def field (block : Bytes) (start finish : Nat) : Bytes := (block.drop start).take (finish - start)

/-- The sums that a block's own sum may be: the field of the sum counts as spaces, and the bytes
count as numbers without or with a sign. -/
def sums (block : Bytes) : List Int :=
  let counted := block.take 148 ++ block.drop 156
  let high := (counted.filter (0x80 ≤ ·)).length
  let plain : Int := counted.foldl (fun n b => n + b.toNat) 256
  [plain, plain - 256 * high]

/-- The header in a block at a position. -/
def ofBlock? (position : Nat) (block : Bytes) : Option Header := do
  let sum ← numberOf? (field block 148 156)
  if !(sums block).contains sum then none
  let mode ← numberOf? (field block 100 108)
  let size ← numberOf? (field block 124 136)
  let _ ← [(108, 116), (116, 124), (136, 148), (329, 337), (337, 345)].mapM fun (start, finish) =>
    numberOf? (field block start finish)
  let name := textOf (field block 0 100)
  let mark := (block[156]?).getD 0
  let kind := if mark = 0 && name.getLast? = some (.char '/') then 0x35 else mark
  let h : Header :=
    { name, linkName := textOf (field block 157 257), kind, mode, size
      dataAt := position + blockSize, next := position + blockSize }
  let h := h.withPlainName
  let upper := textOf (field block 345 500)
  let special : Bool := kind = 0x4C || kind = 0x4B || kind = 0x53
  pure (if upper.isEmpty || special then h else { h with name := upper ++ "/" ++ h.name })

/-- Records by their keywords, the last one first. -/
abbrev Records := List (Text × Text)

/-- The records in bytes, in front of those already known. A record begins with its own length and
ends with a line end; a zero byte ends them all. -/
def records? : Nat → Records → Bytes → Option Records
  | 0, done, _ => some done
  | fuel + 1, done, bytes =>
    if bytes.isEmpty || bytes.head? = some 0 then some done
    else
      let digits := bytes.takeWhile fun b => 0x30 ≤ b && b ≤ 0x39
      let length := digits.foldl (fun n b => 10 * n + (b.toNat - 0x30)) 0
      let record := (bytes.take length).drop (digits.length + 1)
      let (keyword, rest) := record.span (· != 0x3D)
      if digits.isEmpty || digits.length > 20 || bytes[digits.length]? != some 0x20 || length < 5 ||
          length > bytes.length || keyword.isEmpty || rest.length < 2 ||
          rest.getLast? != some 0x0A then none
      else
        let value := (rest.drop 1).dropLast
        records? fuel ((Utf8.decodeLossless keyword, Utf8.decodeLossless value) :: done)
          (bytes.drop length)

/-- The header with fields replaced by records. -/
def replaced (records : Records) (h : Header) : Header :=
  let h := match records.lookup (Text.ofString "path") with
    | some path => { h with name := withoutEndSlashes path }
    | none => h
  let h := match records.lookup (Text.ofString "linkpath") with
    | some target => { h with linkName := target }
    | none => h
  match records.lookup (Text.ofString "size") with
  | some size => { h with size := (size.toChars?.bind (Numeral.int? 10)).getD 0 }
  | none => h

/-- Why there is no header at a position. -/
inductive Absence where
  /-- A block of zeros ends the archive. -/
  | finished
  /-- The block is no header, or there is none. -/
  | invalid
  /-- No header follows a block that announces one. -/
  | unannounced
  /-- The block cannot be read. -/
  | stream (fault : Compressed.Fault)
  /-- Too many blocks lead to the header. -/
  | tooDeep

/-- The absence of a header that was announced. -/
def Absence.announced : Absence → Absence
  | stream fault => stream fault
  | tooDeep => tooDeep
  | finished | invalid | unannounced => unannounced

/-- The header where the data of a member begins after it, with the place of the next one. -/
def located (h : Header) : Header :=
  { h with next := h.dataAt + (if h.hasData then wholeBlocks h.size else 0) }

/-- Reads the header at a position, with at most the given number of blocks that lead to it, and
gives the records that hold from there on. -/
def readWith (e : Compressed.Expanded) :
    Nat → Records → Nat → Except Absence (Header × Records)
  | 0, _, _ => .error .tooDeep
  | levels + 1, common, position => do
    let block ← (e.read position blockSize).mapError .stream
    if block.length < blockSize then throw .invalid
    if block.all (· = 0) then throw .finished
    let some h := ofBlock? position block | throw .invalid
    let behind := h.dataAt + wholeBlocks h.size
    let data : Except Absence Bytes :=
      (e.read h.dataAt (wholeBlocks h.size)).mapError .stream
    let announced (common : Records) : Except Absence (Header × Records) :=
      (readWith e levels common behind).mapError Absence.announced
    if h.kind = 0x4C then
      let name := textOf (← data)
      let (h, common) ← announced common
      let name := if kindOf h.kind == .directory && name.getLast? = some (.char '/') then
        name.dropLast else name
      pure ({ h with name }, common)
    else if h.kind = 0x4B then
      let linkName := textOf (← data)
      let (h, common) ← announced common
      let name := if kindOf h.kind == .directory && h.name.getLast? = some (.char '/') then
        h.name.dropLast else h.name
      pure ({ h with name, linkName }, common)
    else if h.kind = 0x78 || h.kind = 0x58 || h.kind = 0x67 then
      let bytes ← data
      let some records := records? bytes.length common bytes | throw .invalid
      let isCommon : Bool := h.kind = 0x67
      let (h, common) ← announced (if isCommon then records else common)
      if isCommon then pure (h, common)
      else
        let h := h.replaced records
        let sized := (records.lookup (Text.ofString "size")).isSome
        pure (if sized then h.located else h, common)
    else pure ((h.located.replaced common).withPlainName, common)

/-- Reads the header at a position, with the blocks that lead to it, and gives the records that
hold from there on. -/
def read [Interpreter] (e : Compressed.Expanded) (common : Records) (position : Nat) :
    Except Absence (Header × Records) :=
  readWith e Interpreter.announcing common position

end Header

end ProviderKit.Archive
