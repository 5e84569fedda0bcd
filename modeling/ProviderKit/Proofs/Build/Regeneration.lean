import ProviderKit.Proofs.Build.Generation
import ProviderKit.Proofs.Disk.Skirting

/-!
# Generating once and again

Generating changes all or nothing: the declarations of the schema that was found, or not a single
entry (`generate_all_or_nothing`). Generating again then finds the same schema and writes the same
text, unless one of the paths that it starts from is reached through the file that has been replaced
(`Disk.Skirts`). A schema that is a link to that file is lost (`generate_again_fails`).

The second run is followed on the disk that the first one has left, which differs from the one
before at the place of the declarations only. Each look of the run at the disk is through one of the
paths in `Detached`, so it shows what it showed before: the paths where a schema can be, in order
(`Schema.find_congr`), the text of the schema (`Schema.load_congr`), and the places in the directory
that are free for a temporary file (`DrawsName.congr`).
-/

namespace ProviderKit

open Disk (Enters)

/-! ## The same schema -/

namespace Schema

/-- The paths where the schema of the project in a directory can be, in order. -/
def candidates (directory : Path) : List Path :=
  (usualFilename :: otherFilenames).map directory.child

/-- The paths that are tried until the schema is found at the given one. -/
def tried (directory path : Path) : List Path :=
  (candidates directory).takeWhile (· != path) ++ [path]

variable {disk other : Disk} {directory path : Path} {paths : List Path}

/-- The first file among paths is one. -/
theorem isFile?_of_firstFile (h : firstFile disk paths = .ok (some path)) :
    disk.isFile? path = .ok true := by
  induction paths with
  | nil => cases h
  | cons first paths ih =>
    unfold firstFile at h
    obtain ⟨isFile, hfile, h⟩ := except_bind_eq_ok.1 h
    cases isFile with
    | true =>
      cases h
      exact orFail_eq_ok.1 hfile
    | false => exact ih h

/-- The first file among paths is the same on a disk where the paths up to it lead to the same. -/
theorem firstFile_congr (h : firstFile disk paths = .ok (some path))
    (hsame : ∀ p ∈ paths.takeWhile (· != path) ++ [path],
      other.find true p = disk.find true p) : firstFile other paths = .ok (some path) := by
  induction paths with
  | nil => cases h
  | cons first paths ih =>
    unfold firstFile at h ⊢
    obtain ⟨isFile, hfile, h⟩ := except_bind_eq_ok.1 h
    rw [orFail_eq_ok] at hfile
    cases isFile with
    | true =>
      cases h
      rw [Disk.isFile?_congr (hsame path (by simp)), hfile]
      rfl
    | false =>
      -- The path that is found comes later, so this one is in front of it.
      have hne : (first != path) = true := by
        rw [bne_iff_ne]
        rintro rfl
        rw [isFile?_of_firstFile h] at hfile
        cases hfile
      rw [List.takeWhile_cons_of_pos (p := (· != path)) hne] at hsame
      rw [Disk.isFile?_congr (hsame first List.mem_cons_self), hfile]
      exact ih h fun p hp => hsame p (List.mem_cons_of_mem _ hp)

/-- A schema is loaded from a file. -/
theorem isFile?_of_load [Interpreter] {schema : Schema} (h : load disk path = .ok schema) :
    disk.isFile? path = .ok true := by
  unfold load at h
  obtain ⟨isFile, hfile, h⟩ := except_bind_eq_ok.1 h
  cases isFile with
  | true => exact orFail_eq_ok.1 hfile
  | false => cases h

/-- A schema that was found and loaded is the first file among the candidates. -/
theorem firstFile_of_load [Interpreter] {schema : Schema} (hfind : find disk directory = .ok path)
    (hload : load disk path = .ok schema) :
    firstFile disk (candidates directory) = .ok (some path) := by
  unfold find at hfind
  obtain ⟨found, hfound, hpath⟩ := except_bind_eq_ok.1 hfind
  cases hpath
  cases found with
  | some found => exact hfound
  | none =>
    -- The usual path, which is given then, was tried first and leads to no file.
    rw [List.map_cons] at hfound
    unfold firstFile at hfound
    obtain ⟨isFile, hfile, hrest⟩ := except_bind_eq_ok.1 hfound
    have husual : disk.isFile? (directory.child usualFilename) = .ok true := isFile?_of_load hload
    rw [orFail_eq_ok, husual] at hfile
    cases hfile
    cases hrest

/-- The same schema is found on a disk where the paths that were tried lead to the same. -/
theorem find_congr [Interpreter] {schema : Schema} (hfind : find disk directory = .ok path)
    (hload : load disk path = .ok schema)
    (hsame : ∀ p ∈ tried directory path, other.find true p = disk.find true p) :
    find other directory = .ok path := by
  have hfirst := firstFile_congr (firstFile_of_load hfind hload) hsame
  unfold find
  rw [candidates] at hfirst
  dsimp only
  rw [hfirst]
  rfl

/-- The same schema is loaded from a path that leads to the same. -/
theorem load_congr [Interpreter] (h : other.find true path = disk.find true path) :
    load other path = load disk path := by
  unfold load
  rw [Disk.isFile?_congr h, Disk.readText_congr h]

end Schema

/-! ## Generating -/

/-- A free name for the temporary file is among the draws. -/
def DrawsName (disk : Disk) (directory : Path) (draws : List Text) : Prop :=
  ∃ temporary, disk.temporaryPath directory ("." ++ declarationFilename ++ ".") ".tmp" draws =
    .ok temporary

/-- A name that is found is drawn. -/
theorem drawsName_of_check {disk : Disk} {directory : Path} {draws : List Text}
    (h : (disk.temporaryPath directory ("." ++ declarationFilename ++ ".") ".tmp"
      draws).toOption.isSome = true) : DrawsName disk directory draws := by
  rcases hdrawn : disk.temporaryPath directory ("." ++ declarationFilename ++ ".") ".tmp" draws with
    fault | temporary
  · rw [hdrawn] at h
    cases h
  · exact ⟨temporary, hdrawn⟩

/-- Declarations are generated by what the steps of it give. -/
theorem generate_done [Interpreter] {draws : List Text} {directory path : Path} {schema : Schema}
    {text : Text} {count : Nat} {w : World} {left : Disk}
    (hfind : Schema.find w.disk directory = .ok path) (hload : Schema.load w.disk path = .ok schema)
    (hsource : schema.source = .ok (text, count))
    (hwrite : w.disk.writeWhole draws (directory.child declarationFilename) text = (.ok (), left)) :
    ∃ w', (generate draws directory).perform w =
      (.ok (directory.child declarationFilename), w') ∧ w'.disk = left := by
  unfold generate
  rw [Run.perform_bind_ok _ (by rw [Run.perform_look, hfind]),
    Run.perform_bind_ok _ (Run.perform_say _ _),
    Run.perform_bind_ok _ (by rw [Run.perform_look, hload]),
    Run.perform_bind_ok _ (by rw [Run.perform_ofExcept, hsource]),
    Run.perform_bind_ok _ (by rw [Run.perform_step, hwrite]),
    Run.perform_bind_ok _ (Run.perform_say _ _), Run.perform_pure]
  exact ⟨_, rfl, rfl⟩

/-- Declarations that were generated are those of the schema that was found. -/
theorem generate_eq_ok [Interpreter] {draws : List Text} {directory target : Path} {w w' : World}
    (h : (generate draws directory).perform w = (.ok target, w')) :
    target = directory.child declarationFilename ∧ ∃ path schema text count,
      Schema.find w.disk directory = .ok path ∧ Schema.load w.disk path = .ok schema ∧
      schema.source = .ok (text, count) ∧
      w.disk.writeWhole draws (directory.child declarationFilename) text = (.ok (), w'.disk) := by
  unfold generate at h
  obtain ⟨path, w₁, hfind, h⟩ := Run.perform_bind_eq_ok h
  obtain ⟨⟨⟩, w₂, hsay, h⟩ := Run.perform_bind_eq_ok h
  obtain ⟨schema, w₃, hload, h⟩ := Run.perform_bind_eq_ok h
  obtain ⟨⟨text, count⟩, w₄, hsource, h⟩ := Run.perform_bind_eq_ok h
  obtain ⟨⟨⟩, w₅, hwrite, h⟩ := Run.perform_bind_eq_ok h
  obtain ⟨⟨⟩, w₆, hwrote, h⟩ := Run.perform_bind_eq_ok h
  rw [Run.perform_look, Prod.mk.injEq] at hfind hload
  rw [Run.perform_say] at hsay hwrote
  rw [Run.perform_ofExcept, Prod.mk.injEq] at hsource
  rw [Run.perform_step, Prod.mk.injEq] at hwrite
  cases hsay
  cases hwrote
  cases h
  obtain ⟨hfound, rfl⟩ := hfind
  obtain ⟨hloaded, rfl⟩ := hload
  obtain ⟨hprinted, rfl⟩ := hsource
  obtain ⟨hwritten, rfl⟩ := hwrite
  exact ⟨rfl, path, schema, text, count, hfound, hloaded, hprinted, Prod.ext hwritten rfl⟩

/-- The text of the declarations of a schema is printed from them. -/
theorem Schema.source_eq_ok {schema : Schema} {text : Text} {count : Nat}
    (h : schema.source = .ok (text, count)) :
    ∃ file, schema.declarations Declaration.warningHeader = .ok file ∧ file.source = text := by
  unfold Schema.source at h
  obtain ⟨file, hfile, h⟩ := except_bind_eq_ok.1 h
  cases h
  exact ⟨file, orProblem_eq_ok.1 hfile, rfl⟩

/-- No path that generating starts from is reached through the place of the declarations: not the
directory, as it is given or taken lexically, and not the schema or a path that is tried before
it. -/
structure Detached (disk : Disk) (directory path : Path) (types : Place) : Prop where
  given : disk.Skirts types directory
  lexical : disk.Skirts types ⟨directory.root, Path.collapse directory.names⟩
  tried : ∀ p ∈ Schema.tried directory path, disk.Skirts types p

/-- The same name is drawn where the directory, taken lexically, is the same and only the
declarations have changed in it. -/
theorem DrawsName.congr {disk other : Disk} {directory : Path} {place : Place}
    (hskirts : disk.Skirts (place ++ [Utf8.canonical declarationFilename])
      ⟨directory.root, Path.collapse directory.names⟩)
    (hview : ∀ q, q ≠ place ++ [Utf8.canonical declarationFilename] →
      other.get? q = disk.get? q)
    {draws : List Text} (h : DrawsName disk directory draws) : DrawsName other directory draws := by
  obtain ⟨temporary, htemporary⟩ := h
  obtain ⟨draw, -, rfl, p, hlocate, -⟩ := Disk.temporaryPath_ok htemporary
  obtain ⟨parent, henters⟩ := Disk.enters_of_child hlocate
  have hgivable := Disk.isGivable_of_child (Disk.walk_of_locate hlocate).1
  refine ⟨_, (Disk.temporaryPath_congr henters (hskirts.enters hview hgivable henters) ?_ ?_
    draws).trans htemporary⟩
  · intro draw
    refine Disk.isPlain_canonical ?_
    have hsize : 2 < Utf8.losslessSize declarationFilename := by decide
    simp only [Disk.losslessSize_append]
    omega
  · -- No draw gives the temporary file the name of the declarations.
    intro draw
    refine hview _ fun heq => Disk.temporaryName_ne declarationFilename draw ?_
    exact (List.cons.inj (List.append_inj' heq rfl).2).1

/-- Generating again gives the same path and the same disk, if no path that it starts from is
reached through the file that it has written. -/
theorem generate_again [Interpreter] {directory path : Path} {place : Place} {schema : Schema}
    {text : Text} {count : Nat} {bytes : Bytes} {disk : Disk} {w : World}
    (henters : Enters disk directory place)
    (hgivable : Disk.IsGivable (directory.child declarationFilename))
    (hfind : Schema.find disk directory = .ok path) (hload : Schema.load disk path = .ok schema)
    (hsource : schema.source = .ok (text, count)) (hbytes : Utf8.encode? text = some bytes)
    (hwf : w.disk.WellFormed)
    (hview : ∀ q, w.disk.get? q = if q = place ++ [Utf8.canonical declarationFilename]
      then some (.file .usual (.bytes bytes)) else disk.get? q)
    (hdetached : Detached disk directory path (place ++ [Utf8.canonical declarationFilename]))
    {draws : List Text} (hdraws : DrawsName disk directory draws) :
    ∃ w', (generate draws directory).perform w = (.ok (directory.child declarationFilename), w') ∧
      ∀ q, w'.disk.get? q = w.disk.get? q := by
  have helsewhere : ∀ q, q ≠ place ++ [Utf8.canonical declarationFilename] →
      w.disk.get? q = disk.get? q := fun q hq => by rw [hview, if_neg hq]
  have hself : w.disk.get? (place ++ [Utf8.canonical declarationFilename]) =
      some (.file .usual (.bytes bytes)) := by rw [hview, if_pos rfl]
  have htried : ∀ p ∈ Schema.tried directory path, w.disk.find true p = disk.find true p :=
    fun p hp => hdetached.tried p hp w.disk helsewhere
  have hfind' := Schema.find_congr hfind hload htried
  have hload' := (Schema.load_congr (htried path (by simp [Schema.tried]))).trans hload
  have henters' := hdetached.given.enters helsewhere
    (Disk.isGivable_of_child hgivable) henters
  obtain ⟨temporary, htemporary⟩ := hdraws.congr hdetached.lexical helsewhere
  -- What is written is what is there.
  obtain ⟨left, hwrite, -, hleft⟩ := Disk.writeWhole_done hwf henters' (by decide) (by decide)
    hgivable (by simp [hself]) htemporary hbytes
  obtain ⟨w', hrun, rfl⟩ := generate_done hfind' hload' hsource hwrite
  refine ⟨w', hrun, fun q => ?_⟩
  rw [hleft]
  split
  next hq => rw [hq, hself]
  next => rfl

/-- Generating changes nothing if it fails. Else the declarations of the schema that was found are
all that has changed: a file of its own with their text and nothing else. Generating again gives the
same path and changes nothing, if no path that it starts from is reached through that file. -/
theorem generate_all_or_nothing [Interpreter] (draws : List Text) (directory : Path) {w : World}
    (hwf : w.disk.WellFormed) :
    (∀ e w', (generate draws directory).perform w = (.error e, w') →
      ∀ q, w'.disk.get? q = w.disk.get? q) ∧
    ∀ target w', (generate draws directory).perform w = (.ok target, w') →
      target = directory.child declarationFilename ∧
      ∃ types path schema file bytes,
        w.disk.locate false target = .ok types ∧
        Schema.find w.disk directory = .ok path ∧ Schema.load w.disk path = .ok schema ∧
        schema.declarations Declaration.warningHeader = .ok file ∧
        Utf8.encode? file.source = some bytes ∧
        w'.disk.get? types = some (.file .usual (.bytes bytes)) ∧
        (∀ q, q ≠ types → w'.disk.get? q = w.disk.get? q) ∧
        DrawsName w.disk directory draws ∧
        (Detached w.disk directory path types →
          ∀ draws', DrawsName w.disk directory draws' →
            ∃ w'', (generate draws' directory).perform w' = (.ok target, w'') ∧
              ∀ q, w''.disk.get? q = w'.disk.get? q) := by
  refine ⟨fun e w' hrun => ?_, fun target w' hrun => ?_⟩
  · have hfailed := generate_view draws directory hwf
    rw [hrun] at hfailed
    exact hfailed
  obtain ⟨rfl, path, schema, text, count, hfind, hload, hsource, hwrite⟩ := generate_eq_ok hrun
  obtain ⟨file, hfile, rfl⟩ := Schema.source_eq_ok hsource
  -- A schema was read in the directory, so the directory is there.
  obtain ⟨name, rfl⟩ := Schema.find_child hfind
  obtain ⟨place, henters⟩ := Schema.enters_of_load hload
  have hsize : 2 < Utf8.losslessSize declarationFilename := by decide
  have hshort : Utf8.losslessSize (Utf8.canonical declarationFilename) ≤ Disk.nameLimit := by
    decide
  obtain ⟨hgivable, hdraws, bytes, hbytes, hwf', hview⟩ :=
    Disk.writeWhole_eq_ok hwf henters hsize hwrite
  refine ⟨rfl, _, _, schema, file, bytes,
    henters.locate_name (Disk.isPlain_canonical hsize) hshort hgivable, hfind, hload, hfile, hbytes,
    ?_, fun q hq => ?_, hdraws, fun hdetached draws' hdraws' =>
      generate_again henters hgivable hfind hload hsource hbytes hwf' hview hdetached hdraws'⟩
  · rw [hview, if_pos rfl]
  · rw [hview, if_neg hq]

/-! ## A project whose declarations are a link -/

/-- A project with a schema, and with a link in the place of its declarations. -/
def linkedDisk : Disk where
  entries :=
    [([Text.ofString "p"], .directory),
     ([Text.ofString "p", Schema.usualFilename], .file .usual (.ofChars "\x7b\x7d".toList)),
     ([Text.ofString "p", declarationFilename], .link "old"),
     ([Text.ofString "p", "old"], .file .usual (.ofChars "old".toList))]

/-- The paths of the project are not reached through its declarations. -/
theorem linkedDisk_detached : Detached linkedDisk ⟨.single, ["p"]⟩
    ⟨.single, ["p", Schema.usualFilename]⟩ [Text.ofString "p", declarationFilename] := by
  have hproject : linkedDisk.Skirts [Text.ofString "p", declarationFilename] ⟨.single, ["p"]⟩ :=
    (Disk.straight_of_check (by decide)).skirts (by decide)
  refine ⟨hproject, hproject, fun p hp => ?_⟩
  have hschema : p = ⟨.single, ["p", Schema.usualFilename]⟩ := by
    simpa [Schema.tried, Schema.candidates, Path.child] using hp
  subst hschema
  exact (Disk.straight_of_check (by decide)).skirts (by decide)

/-- In place of the link a file is put, what the link led to stays, and generating again with
another draw changes nothing. -/
theorem generate_all_or_nothing_linked : ∃ w' w'' bytes,
    (generate ["a"] ⟨.single, ["p"]⟩).perform { disk := linkedDisk } =
      (.ok ⟨.single, ["p", declarationFilename]⟩, w') ∧
    w'.disk.get? [Text.ofString "p", declarationFilename] = some (.file .usual (.bytes bytes)) ∧
    w'.disk.get? [Text.ofString "p", "old"] = linkedDisk.get? [Text.ofString "p", "old"] ∧
    (generate ["b"] ⟨.single, ["p"]⟩).perform w' =
      (.ok ⟨.single, ["p", declarationFilename]⟩, w'') ∧
    ∀ q, w''.disk.get? q = w'.disk.get? q := by
  have hchecks : (linkedDisk.isWellFormed &&
      ((generate ["a"] ⟨.single, ["p"]⟩).perform { disk := linkedDisk }).1.toOption.isSome &&
      (Schema.find linkedDisk ⟨.single, ["p"]⟩).toOption ==
        some ⟨.single, ["p", Schema.usualFilename]⟩ &&
      (linkedDisk.locate false ⟨.single, ["p", declarationFilename]⟩).toOption ==
        some [Text.ofString "p", declarationFilename] &&
      (linkedDisk.temporaryPath ⟨.single, ["p"]⟩ ("." ++ declarationFilename ++ ".") ".tmp"
        ["b"]).toOption.isSome) = true := by
    decide +kernel
  simp only [Bool.and_eq_true, beq_iff_eq] at hchecks
  obtain ⟨⟨⟨⟨hwf, hok⟩, hfound⟩, hlocated⟩, hdraws⟩ := hchecks
  have hwf' : ({ disk := linkedDisk } : World).disk.WellFormed := Disk.wellFormed_of_check hwf
  rcases hrun : (generate ["a"] ⟨.single, ["p"]⟩).perform { disk := linkedDisk } with
    ⟨e | target, w'⟩
  · rw [hrun] at hok
    cases hok
  obtain ⟨rfl, types, path, schema, file, bytes, hlocate, hfind, -, -, -, hfile, hview, -,
    hagain⟩ := (generate_all_or_nothing ["a"] ⟨.single, ["p"]⟩ hwf').2 _ _ hrun
  have htypes : some types = some [Text.ofString "p", declarationFilename] :=
    (congrArg Except.toOption hlocate).symm.trans hlocated
  have hpath : some path = some ⟨.single, ["p", Schema.usualFilename]⟩ :=
    (congrArg Except.toOption hfind).symm.trans hfound
  cases htypes
  cases hpath
  obtain ⟨w'', hsecond, hsame⟩ := hagain linkedDisk_detached ["b"] (drawsName_of_check hdraws)
  exact ⟨w', w'', bytes, rfl, hfile, hview _ (by decide), hsecond, hsame⟩

/-- A project whose schema is a link to what will be its declarations. -/
def selfReadingDisk : Disk where
  entries :=
    [([Text.ofString "p"], .directory),
     ([Text.ofString "p", Schema.usualFilename], .link declarationFilename),
     ([Text.ofString "p", declarationFilename], .file .usual (.ofChars "\x7b\x7d".toList))]

/-- Generating puts the declarations in place of the schema that it has read through the link, and
generating again finds a schema that is not JSON. -/
theorem generate_again_fails : selfReadingDisk.WellFormed ∧ ∃ target w' w'' e,
    (generate ["a"] ⟨.single, ["p"]⟩).perform { disk := selfReadingDisk } = (.ok target, w') ∧
    DrawsName w'.disk ⟨.single, ["p"]⟩ ["b"] ∧
    (generate ["b"] ⟨.single, ["p"]⟩).perform w' = (.error e, w'') := by
  have hchecks : (selfReadingDisk.isWellFormed &&
      ((generate ["a"] ⟨.single, ["p"]⟩).perform { disk := selfReadingDisk }).1.toOption.isSome &&
      (((generate ["a"] ⟨.single, ["p"]⟩).perform { disk := selfReadingDisk }).2.disk.temporaryPath
        ⟨.single, ["p"]⟩ ("." ++ declarationFilename ++ ".") ".tmp" ["b"]).toOption.isSome &&
      ((generate ["b"] ⟨.single, ["p"]⟩).perform ((generate ["a"] ⟨.single, ["p"]⟩).perform
        { disk := selfReadingDisk }).2).1.toOption.isNone) = true := by
    decide +kernel
  simp only [Bool.and_eq_true] at hchecks
  obtain ⟨⟨⟨hwf, hok⟩, hdraws⟩, hfails⟩ := hchecks
  refine ⟨Disk.wellFormed_of_check hwf, ?_⟩
  rcases hrun : (generate ["a"] ⟨.single, ["p"]⟩).perform { disk := selfReadingDisk } with
    ⟨e | target, w'⟩
  · rw [hrun] at hok
    cases hok
  rw [hrun] at hdraws hfails
  rcases hagain : (generate ["b"] ⟨.single, ["p"]⟩).perform w' with ⟨e | target', w''⟩
  · exact ⟨target, w', w'', e, rfl, drawsName_of_check hdraws, hagain⟩
  · rw [hagain] at hfails
    cases hfails

end ProviderKit
