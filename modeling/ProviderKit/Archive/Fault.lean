import ProviderKit.Compressed.Gzip

/-!
# Why an archive cannot be unpacked
-/

namespace ProviderKit.Archive

/-- Why an archive, or one of its members, is refused. -/
inductive Fault where
  /-- The file is no archive, or what it holds breaks off. -/
  | unreadable
  /-- The file ends inside its compressed data. -/
  | truncated
  /-- The compressed data cannot be expanded. -/
  | corrupt
  /-- The compressed data is not what was compressed, or something else follows it. -/
  | damaged
  /-- A member would be written outside the directory that the archive is unpacked into. -/
  | outside
  /-- A link points to an absolute path. -/
  | absoluteLink
  /-- A link points outside the directory. -/
  | linkOutside
  /-- A member is neither a file, a directory nor a link. -/
  | special
  /-- A second name is given to a file that the archive does not hold before it. -/
  | missingFile
  /-- Too many blocks lead to one header. -/
  | tooDeep
deriving DecidableEq, Inhabited

/-- The fault that one of the compressed data is, where the data of a member is wanted. -/
def Fault.ofData : Compressed.Fault → Fault
  | .cut => truncated
  | .corrupt => corrupt
  | .foreign | .damaged => damaged

/-- The fault that one of the compressed data is, where a header is wanted. Before the first member
it means that the file is no archive. -/
def Fault.ofHeader (first : Bool) : Compressed.Fault → Fault
  | .cut => truncated
  | .corrupt => unreadable
  | .foreign | .damaged => if first then unreadable else damaged

end ProviderKit.Archive
