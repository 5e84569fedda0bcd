import Mathlib.Data.List.TakeDrop
import Mathlib.Tactic.SplitIfs
import ProviderKit.Declaration.Printer
import ProviderKit.Proofs.Json.Quoted
import ProviderKit.Proofs.Text.Lines

/-!
# A printed declaration file can be read back

The text of a declaration file is read line by line: a comment, and after it lines of which each one
says what it is (`SourceLine`). Members are put under the interface in front of them from the last
line on, so that the reader is a fold over the lines. `DeclarationFile.source_reads` says that
nothing is lost in print but the white space at the end of the header's lines.

The header cannot fake the end of its comment: each line of it is ` *` or starts with ` * `, and the
comment ends with ` */`. A property name cannot fake the end of its member: bare names are
identifiers, and in quoted ones each quote is escaped. A declaration name can hold anything but a
line feed, since it has a line of its own.
-/

namespace ProviderKit

/-! ## The reader -/

/-- The type that stands at the end of a member, with the semicolon after it. -/
def FieldType.read (t : Text) : Option FieldType :=
  [text, numeric, boolean, unknownArray, unknownMap, unknown].find? fun type =>
    type.source ++ ";" = t

/-- The property name at the beginning of a text, and what follows it. -/
def Text.readPropertyName : Text → Option (Text × Text)
  | .char '"' :: t => (Json.readString 0 t).toOption
  | t => some (t.span (·.satisfies Char.continuesIdentifier))

/-- Whether the text starts with the mark of an optional member, and what follows the mark. -/
def Text.readMark : Text → Bool × Text
  | .char '?' :: t => (true, t)
  | t => (false, t)

/-- The member in a text. -/
def Field.read (t : Text) : Option Field := do
  let (name, rest) ← (← t.dropPrefix? "readonly ").readPropertyName
  let (optional, rest) := rest.readMark
  let type ← FieldType.read (← rest.dropPrefix? ": ")
  pure ⟨name, type, optional⟩

/-- What a line after the comment is. -/
inductive SourceLine where
  /-- The first line of an interface. -/
  | opening (name : Text)
  /-- A member of the interface that was opened last. -/
  | member (field : Field)
  /-- The last line of an interface. -/
  | closing

/-- The line in a text. -/
def SourceLine.read (t : Text) : Option SourceLine :=
  if t = Text.ofString "\x7d" then some closing
  else match t.dropPrefix? Field.indent with
    | some rest => (Field.read rest).map member
    | none =>
      (t.dropPrefix? "export interface ").map fun rest => opening (rest.take (rest.length - 2))

/-- The members in front of the first interface that is opened, and the interfaces from there on. -/
def SourceLine.collect : List SourceLine → List Field × List Declaration
  | [] => ([], [])
  | opening name :: rest => ([], ⟨name, (collect rest).1⟩ :: (collect rest).2)
  | member field :: rest => (field :: (collect rest).1, (collect rest).2)
  | closing :: rest => ([], (collect rest).2)

/-- The lines of the header and the declarations that a text shows. The first line opens the comment
and the line ` */` ends it; each line in between starts with ` * ` or is ` *`. -/
def DeclarationFile.read (t : Text) : Option (List Text × List Declaration) := do
  let lines := (Text.split (.char '\n') t).dropLast.tail
  let (comment, rest) := lines.span (· != Text.ofString " */")
  let sourceLines ← rest.tail.mapM SourceLine.read
  pure (comment.map (·.drop 3), (SourceLine.collect sourceLines).2)

/-! ## Members -/

/-- The word for a type is read back. -/
theorem FieldType.read_source (type : FieldType) : read (type.source ++ ";") = some type := by
  cases type <;> rfl

/-- The white space and the colon that end a name are no part of an identifier. -/
theorem not_continuesIdentifier_of_mark {c : CodePoint} (h : c = .char '?' ∨ c = .char ':') :
    c.satisfies Char.continuesIdentifier = false := by
  obtain rfl | rfl := h
  · rfl
  · rfl

/-- All code points of an identifier can be inside one. -/
theorem continues_of_isIdentifier {name : Text} (h : name.isIdentifier = true) :
    ∀ c ∈ name, c.satisfies Char.continuesIdentifier = true := by
  cases name with
  | nil => cases h
  | cons first rest =>
    rw [Text.isIdentifier, Bool.and_eq_true, List.all_eq_true] at h
    intro c hc
    rcases List.mem_cons.1 hc with rfl | hlater
    · -- What starts an identifier can be inside one as well.
      cases c with
      | char c =>
        have hstart := h.1
        simp only [CodePoint.satisfies, Char.startsIdentifier, Char.continuesIdentifier,
          Char.isAlphanum, Bool.or_eq_true] at hstart ⊢
        rcases hstart with (halpha | hbar) | hdollar
        · exact .inl (.inl (.inl halpha))
        · exact .inl (.inr hbar)
        · exact .inr hdollar
      | surrogate s => cases h.1
    · exact h.2 c hlater

/-- A property name is read back, when it is followed by a mark or a colon. -/
theorem readPropertyName_asPropertyName (name : Text) {c : CodePoint}
    (hc : c = .char '?' ∨ c = .char ':') (rest : Text) :
    (name.asPropertyName ++ c :: rest).readPropertyName = some (name, c :: rest) := by
  unfold Text.asPropertyName
  split_ifs with hident
  · -- A bare name starts with no quote and ends at the first code point that is not its own.
    have hall := continues_of_isIdentifier hident
    cases name with
    | nil => cases hident
    | cons first tail =>
      have hquote : first ≠ .char '"' := by
        rintro rfl
        exact absurd (hall _ List.mem_cons_self) (by decide)
      rw [List.cons_append, Text.readPropertyName]
      · rw [← List.cons_append, List.span_eq_takeWhile_dropWhile,
          List.takeWhile_append_of_pos hall, List.dropWhile_append_of_pos hall,
          List.takeWhile_cons_of_neg, List.dropWhile_cons_of_neg, List.append_nil]
        · rw [not_continuesIdentifier_of_mark hc]
          exact Bool.false_ne_true
        · rw [not_continuesIdentifier_of_mark hc]
          exact Bool.false_ne_true
      · intro t ht
        exact hquote (List.cons.inj ht).1
  · -- A quoted name ends at its closing quote.
    have hstring := Json.readString_flatMap name 0 (c :: rest)
    rw [Json.quote, List.cons_append, List.cons_append, List.append_assoc, List.cons_append,
      List.nil_append, Text.readPropertyName, hstring]
    rfl

/-- The text of a member, after the name of its property. -/
def Field.afterName (f : Field) : Text :=
  (if f.optional then "?" else "" : Text) ++ (": " ++ (f.type.source ++ ";"))

/-- What follows the name starts with a mark or a colon. -/
theorem Field.afterName_cons (f : Field) :
    ∃ c rest, f.afterName = c :: rest ∧ (c = .char '?' ∨ c = .char ':') := by
  unfold afterName
  cases f.optional with
  | false => exact ⟨_, _, rfl, .inr rfl⟩
  | true => exact ⟨_, _, rfl, .inl rfl⟩

/-- A member is read back. -/
theorem Field.read_source (f : Field) : read f.source = some f := by
  have hsource : f.source = "readonly " ++ (f.name.asPropertyName ++ f.afterName) := by
    unfold Field.source afterName
    simp only [List.append_assoc]
  obtain ⟨c, rest, hafter, hc⟩ := f.afterName_cons
  have hname := readPropertyName_asPropertyName f.name hc rest
  rw [← hafter] at hname
  have hmark : f.afterName.readMark = (f.optional, ": " ++ (f.type.source ++ ";")) := by
    unfold afterName
    cases f.optional <;> rfl
  unfold read
  rw [hsource, Text.dropPrefix?_append, Option.bind_eq_bind, Option.bind_some, hname]
  simp only [Option.bind_eq_bind, Option.bind_some, hmark, Text.dropPrefix?_append,
    FieldType.read_source]
  rfl

/-! ## Lines -/

/-- The members of an interface and the line that ends it are read back. -/
theorem SourceLine.read_member (f : Field) :
    SourceLine.read (Field.indent ++ f.source) = some (.member f) := by
  have hnot : Field.indent ++ f.source ≠ Text.ofString "\x7d" := by
    intro h
    exact absurd (List.cons.inj h).1 (by decide)
  rw [SourceLine.read, if_neg hnot, Text.dropPrefix?_append]
  show (Field.read f.source).map SourceLine.member = some (.member f)
  rw [f.read_source]
  rfl

/-- The first line of an interface is read back. -/
theorem SourceLine.read_opening (name : Text) :
    SourceLine.read ("export interface " ++ name ++ " \x7b") = some (.opening name) := by
  rw [List.append_assoc]
  have hnot : "export interface " ++ (name ++ " \x7b") ≠ Text.ofString "\x7d" := by
    intro h
    exact absurd (List.cons.inj h).1 (by decide)
  have hindent :
      Text.dropPrefix? ("export interface " ++ (name ++ " \x7b")) Field.indent = none := rfl
  have hname : (name ++ Text.ofString " \x7b").take ((name ++ Text.ofString " \x7b").length - 2) =
      name := by
    rw [List.length_append]
    exact List.take_left' rfl
  rw [SourceLine.read, if_neg hnot, hindent, Text.dropPrefix?_append, Option.map_some, hname]

/-- What the lines of an interface are. -/
def Declaration.lines (d : Declaration) : List SourceLine :=
  .opening d.name :: d.fields.map .member ++ [.closing]

/-- The lines of an interface are read back. -/
theorem Declaration.mapM_read (d : Declaration) :
    d.sourceLines.mapM SourceLine.read = some d.lines := by
  have hmembers : (d.fields.map (Field.indent ++ ·.source)).mapM SourceLine.read =
      some (d.fields.map .member) := by
    induction d.fields with
    | nil => rfl
    | cons f fields ih =>
      rw [List.map_cons, List.mapM_cons, SourceLine.read_member, ih]
      rfl
  have hclosing : [Text.ofString "\x7d"].mapM SourceLine.read = some [.closing] := rfl
  unfold Declaration.sourceLines Declaration.lines
  rw [List.cons_append, List.mapM_cons, SourceLine.read_opening, List.mapM_append, hmembers,
    hclosing]
  rfl

/-- The lines of an interface are put together again, in front of the interfaces after it. -/
theorem Declaration.collect_lines (d : Declaration) (rest : List SourceLine) :
    (SourceLine.collect (d.lines ++ rest)).2 = d :: (SourceLine.collect rest).2 := by
  have hmembers : ∀ fields : List Field,
      SourceLine.collect (fields.map .member ++ [.closing] ++ rest) =
        (fields, (SourceLine.collect rest).2) := by
    intro fields
    induction fields with
    | nil => rfl
    | cons f fields ih =>
      rw [List.map_cons, List.cons_append, List.cons_append, SourceLine.collect, ih]
  unfold Declaration.lines
  rw [List.cons_append, List.cons_append, SourceLine.collect, hmembers]

/-- The lines of interfaces are read back and put together again. -/
theorem Declaration.collect_sourceLines (declarations : List Declaration) :
    ∃ lines, (declarations.flatMap Declaration.sourceLines).mapM SourceLine.read = some lines ∧
      (SourceLine.collect lines).2 = declarations := by
  induction declarations with
  | nil => exact ⟨[], rfl, rfl⟩
  | cons d rest ih =>
    obtain ⟨lines, hread, hcollect⟩ := ih
    refine ⟨d.lines ++ lines, ?_, ?_⟩
    · rw [List.flatMap_cons, List.mapM_append, d.mapM_read, hread]
      rfl
    · rw [d.collect_lines, hcollect]

/-! ## The comment -/

namespace DeclarationFile

/-- A line of the comment is the start of one, and then the line of the header unless that is
blank. -/
theorem headerLine_eq (line : Text) :
    headerLine line = if line.trimEnd = [] then Text.ofString " *" else " * " ++ line.trimEnd := by
  unfold headerLine
  rw [Text.trimEnd_append]
  rfl

/-- The line of the header is what follows the start of the line. -/
theorem drop_headerLine (line : Text) : (headerLine line).drop 3 = line.trimEnd := by
  rw [headerLine_eq]
  split_ifs with hblank
  · rw [hblank]
    rfl
  · exact List.drop_left' rfl

/-- No line of the header ends the comment. -/
theorem headerLine_ne_end (line : Text) : headerLine line ≠ Text.ofString " */" := by
  rw [headerLine_eq]
  split_ifs with hblank
  · decide
  · intro h
    -- The third code point would be a blank and a slash.
    have hthird := congrArg (·[2]?) h
    exact absurd (Option.some.inj hthird) (by decide)

/-! ## No line feed inside a line -/

/-- The escape of a code point holds no line feed. -/
theorem not_lineFeed_escape (c : CodePoint) : CodePoint.char '\n' ∉ Json.escapeCodePoint c := by
  unfold Json.escapeCodePoint
  split
  · decide
  · decide
  · decide
  · decide
  · decide
  · decide
  · decide
  next hfeed _ _ _ _ =>
    split_ifs with hcontrol
    · -- Hexadecimal digits are no line feeds.
      rcases c with c | s
      · have hsmall : c.toNat < 0x20 := hcontrol
        have hall : ∀ n < 0x20, CodePoint.char '\n' ∉
            Text.ofChars ('\\' :: 'u' :: hexDigits 4 n) := by decide
        exact hall c.toNat hsmall
      · exact absurd hcontrol (by show ¬ 0xD800 + s.val < 0x20; omega)
    · intro hmem
      obtain rfl := List.mem_singleton.1 hmem
      exact hfeed rfl

/-- A property name holds no line feed where it stands in a member. -/
theorem not_lineFeed_asPropertyName (name : Text) : CodePoint.char '\n' ∉ name.asPropertyName := by
  unfold Text.asPropertyName
  split_ifs with hident
  · intro hmem
    exact absurd (continues_of_isIdentifier hident _ hmem) (by decide)
  · intro hmem
    simp only [Json.quote, List.cons_append, List.mem_cons, List.mem_append, List.mem_flatMap,
      List.not_mem_nil, or_false] at hmem
    rcases hmem with hquote | ⟨c, -, hc⟩ | hquote
    · exact absurd hquote (by decide)
    · exact not_lineFeed_escape c hc
    · exact absurd hquote (by decide)

/-- A member is on one line. -/
theorem not_lineFeed_field (f : Field) : CodePoint.char '\n' ∉ Field.indent ++ f.source := by
  have hname := not_lineFeed_asPropertyName f.name
  have hmark : CodePoint.char '\n' ∉ (if f.optional then "?" else "" : Text) := by
    cases f.optional <;> decide
  have htype : CodePoint.char '\n' ∉ f.type.source := by
    cases f.type <;> decide
  unfold Field.source
  simp only [List.mem_append, not_or]
  exact ⟨by decide, ⟨⟨⟨⟨by decide, hname⟩, hmark⟩, by decide⟩, htype⟩, by decide⟩

/-- No line of an interface holds a line feed, if its name holds none. -/
theorem not_lineFeed_declaration {d : Declaration} (hname : CodePoint.char '\n' ∉ d.name) :
    ∀ line ∈ d.sourceLines, CodePoint.char '\n' ∉ line := by
  intro line hline
  simp only [Declaration.sourceLines, List.cons_append, List.mem_cons, List.mem_append,
    List.mem_map, List.not_mem_nil, or_false] at hline
  rcases hline with rfl | ⟨f, -, rfl⟩ | rfl
  · simp only [List.mem_append, not_or]
    exact ⟨⟨by decide, hname⟩, by decide⟩
  · exact not_lineFeed_field f
  · decide

/-- No line of the comment holds a line feed. -/
theorem not_lineFeed_headerLines (header : Text) :
    ∀ line ∈ headerLines header, CodePoint.char '\n' ∉ line := by
  intro line hline
  simp only [headerLines, List.cons_append, List.mem_cons, List.mem_append, List.mem_map,
    List.not_mem_nil, or_false] at hline
  rcases hline with rfl | ⟨original, horiginal, rfl⟩ | rfl
  · decide
  · have hfeed := Text.not_lineFeed_of_mem_lines horiginal
    intro hmem
    rcases List.mem_append.1 (Text.trimEnd_subset _ hmem) with hstart | hrest
    · exact absurd hstart (by decide)
    · exact hfeed hrest
  · decide

/-- No line of a file holds a line feed. -/
theorem not_lineFeed_sourceLines {file : DeclarationFile}
    (h : ∀ d ∈ file.declarations, CodePoint.char '\n' ∉ d.name) :
    ∀ line ∈ file.sourceLines, CodePoint.char '\n' ∉ line := by
  intro line hline
  rcases List.mem_append.1 hline with hheader | hbody
  · exact not_lineFeed_headerLines file.header line hheader
  · obtain ⟨d, hd, hmem⟩ := List.mem_flatMap.1 hbody
    exact not_lineFeed_declaration (h d hd) line hmem

/-! ## Files -/

variable {file : DeclarationFile}

/-- The lines of a text are the lines that were printed, each with a line feed behind it. -/
theorem split_source (h : ∀ d ∈ file.declarations, CodePoint.char '\n' ∉ d.name) :
    Text.split (.char '\n') file.source = file.sourceLines ++ [[]] :=
  Text.split_flatMap (not_lineFeed_sourceLines h)

/-- The last line of a file is not empty. -/
theorem sourceLines_ends (file : DeclarationFile) :
    ∃ before t c, file.sourceLines = before ++ [t ++ [c]] ∧ c ≠ CodePoint.char '\n' := by
  unfold sourceLines
  rcases List.eq_nil_or_concat file.declarations with hnone | ⟨before, last, hlast⟩
  · refine ⟨Text.ofString "/**" :: file.header.lines.map headerLine, " *", .char '/', ?_, by decide⟩
    rw [hnone]
    exact List.append_nil _
  · refine ⟨headerLines file.header ++ (before.flatMap Declaration.sourceLines ++
      (("export interface " ++ last.name ++ " \x7b") ::
        last.fields.map (Field.indent ++ ·.source))), [], .char '}', ?_, by decide⟩
    rw [hlast, List.concat_eq_append, List.flatMap_append]
    simp only [Declaration.sourceLines, List.flatMap_cons, List.flatMap_nil, List.append_nil,
      List.append_assoc]
    rfl

/-- A file is read back from its text. -/
theorem read_source (h : ∀ d ∈ file.declarations, CodePoint.char '\n' ∉ d.name) :
    read file.source = some (file.header.lines.map Text.trimEnd, file.declarations) := by
  obtain ⟨lines, hread, hcollect⟩ := Declaration.collect_sourceLines file.declarations
  have hcomment : ∀ line ∈ file.header.lines.map headerLine,
      (line != Text.ofString " */") = true := by
    intro line hline
    obtain ⟨original, -, rfl⟩ := List.mem_map.1 hline
    exact bne_iff_ne.2 (headerLine_ne_end original)
  have hlines : (Text.split (.char '\n') file.source).dropLast.tail =
      file.header.lines.map headerLine ++ (Text.ofString " */" ::
        file.declarations.flatMap Declaration.sourceLines) := by
    rw [split_source h, List.dropLast_concat]
    unfold sourceLines headerLines
    simp only [List.cons_append, List.append_assoc, List.tail_cons, List.nil_append]
  -- The comment goes up to its last line, and after that line come the interfaces.
  have hspan : (file.header.lines.map headerLine ++ (Text.ofString " */" ::
        file.declarations.flatMap Declaration.sourceLines)).span (· != Text.ofString " */") =
      (file.header.lines.map headerLine, Text.ofString " */" ::
        file.declarations.flatMap Declaration.sourceLines) := by
    rw [List.span_eq_takeWhile_dropWhile, List.takeWhile_append_of_pos hcomment,
      List.dropWhile_append_of_pos hcomment, List.takeWhile_cons_of_neg,
      List.dropWhile_cons_of_neg, List.append_nil]
    · decide
    · decide
  have hheader : (file.header.lines.map headerLine).map (·.drop 3) =
      file.header.lines.map Text.trimEnd := by
    rw [List.map_map]
    exact List.map_congr_left fun line _ => drop_headerLine line
  unfold read
  simp only [hlines, hspan, List.tail_cons, hread, Option.bind_eq_bind, Option.bind_some, hheader,
    hcollect]
  rfl

/-- A file is read back from its text, which is made of its lines with a line feed behind each and
ends with one line feed. Files with the same header and different declarations have different
texts. -/
theorem source_reads (file : DeclarationFile)
    (h : ∀ d ∈ file.declarations, CodePoint.char '\n' ∉ d.name) :
    read file.source = some (file.header.lines.map Text.trimEnd, file.declarations) ∧
    Text.split (.char '\n') file.source =
      headerLines file.header ++ file.declarations.flatMap (fun d =>
        (Text.ofString "export interface " ++ d.name ++ " \x7b") ::
          d.fields.map (Field.indent ++ ·.source) ++ [Text.ofString "\x7d"]) ++ [[]] ∧
    (∃ t c, file.source = t ++ [c, .char '\n'] ∧ c ≠ .char '\n') ∧
    ∀ other : DeclarationFile, (∀ d ∈ other.declarations, CodePoint.char '\n' ∉ d.name) →
      other.header = file.header → other.declarations ≠ file.declarations →
      other.source ≠ file.source := by
  refine ⟨read_source h, split_source h, ?_, ?_⟩
  · obtain ⟨before, t, c, hlines, hc⟩ := sourceLines_ends file
    refine ⟨before.flatMap (· ++ Text.ofString "\n") ++ t, c, ?_, hc⟩
    unfold source
    rw [hlines, List.flatMap_append, List.append_assoc]
    simp only [List.flatMap_cons, List.flatMap_nil, List.append_nil, List.append_assoc]
    rfl
  · intro other hother hheader hdifferent hsame
    have hread := read_source hother
    rw [hsame, read_source h] at hread
    exact hdifferent (Prod.mk.inj (Option.some.inj hread)).2.symm

/-- A file whose header ends a comment, whose declaration ends an interface, and whose members have
names with quotes, line feeds and no characters at all. -/
def awkward : DeclarationFile where
  header := "one \t\n/\r\n\n*/"
  declarations :=
    [⟨"T \x7b\r\x7d", [⟨"\"?: string;\n\x7d", .numeric, true⟩, ⟨[], .unknownMap, false⟩]⟩,
      ⟨[], []⟩]

theorem source_reads_awkward :
    (∀ d ∈ awkward.declarations, CodePoint.char '\n' ∉ d.name) ∧
      read awkward.source =
        some ([Text.ofString "one", Text.ofString "/", [], Text.ofString "*/"],
          awkward.declarations) :=
  have hnames : ∀ d ∈ awkward.declarations, CodePoint.char '\n' ∉ d.name := by decide
  ⟨hnames, (source_reads awkward hnames).1⟩

end DeclarationFile

end ProviderKit
