import ProviderKit.Generate
import ProviderKit.Proofs.Disk.Replacing
import ProviderKit.Proofs.Package.Discovery
import ProviderKit.Proofs.Run.Perform

/-!
# What generating changes

The declarations of a project are put beside its schema. That is all that has changed on the disk
when they have been generated, and nothing has changed when that fails (`generate_view`).
-/

namespace ProviderKit

open Disk (Enters)

/-- A file that is found among paths is at one of them. -/
theorem Schema.mem_of_firstFile {disk : Disk} {paths : List Path} {path : Path}
    (h : Schema.firstFile disk paths = .ok (some path)) : path ∈ paths := by
  induction paths with
  | nil => cases h
  | cons first paths ih =>
    unfold Schema.firstFile at h
    obtain ⟨isFile, -, h⟩ := except_bind_eq_ok.1 h
    cases isFile with
    | true =>
      cases h
      exact List.mem_cons_self
    | false => exact List.mem_cons_of_mem _ (ih h)

/-- The schema of a project is looked for in the project's directory. -/
theorem Schema.find_child {disk : Disk} {directory path : Path}
    (h : Schema.find disk directory = .ok path) : ∃ name, path = directory.child name := by
  unfold Schema.find at h
  obtain ⟨found, hfound, h⟩ := except_bind_eq_ok.1 h
  cases h
  rcases found with _ | path
  · exact ⟨_, rfl⟩
  · obtain ⟨name, -, rfl⟩ := List.mem_map.1 (Schema.mem_of_firstFile hfound)
    exact ⟨name, rfl⟩

/-- A schema that was loaded from a directory was in a directory. -/
theorem Schema.enters_of_load [Interpreter] {disk : Disk} {directory : Path} {name : Text}
    {schema : Schema} (h : Schema.load disk (directory.child name) = .ok schema) :
    ∃ place, Enters disk directory place := by
  unfold Schema.load at h
  obtain ⟨isFile, hfile, h⟩ := except_bind_eq_ok.1 h
  rw [orFail_eq_ok] at hfile
  cases isFile with
  | true =>
    obtain ⟨place, mode, content, hfind⟩ := Disk.isFile?_eq_true.1 hfile
    exact Disk.enters_of_child (Disk.find_eq_ok.1 hfind).1
  | false => cases h

/-- The second disk is the first one with the declarations of the project in a directory, at the
place that their path leads to. -/
structure Generated (directory : Path) (types : Place) (disk left : Disk) : Prop where
  located : disk.locate false (directory.child declarationFilename) = .ok types
  noDirectory : disk.get? types ≠ some .directory
  file : ∃ mode content, left.get? types = some (.file mode content)
  view : ∀ q, q ≠ types → left.get? q = disk.get? q
  wellFormed : left.WellFormed

/-- Declarations that were written as a whole have been generated. -/
theorem generated_of_writeWhole [Interpreter] {disk left : Disk} {directory : Path} {place : Place}
    {draws : List Text} {text : Text} (hwf : disk.WellFormed)
    (hdirectory : Enters disk directory place)
    (h : disk.writeWhole draws (directory.child declarationFilename) text = (.ok (), left)) :
    ∃ types, Generated directory types disk left := by
  have hsize : 2 < Utf8.losslessSize declarationFilename := by decide
  have hshort : Utf8.losslessSize (Utf8.canonical declarationFilename) ≤ Disk.nameLimit := by
    decide
  obtain ⟨hgivable, hwf', hnot, mode, content, hview⟩ :=
    (Disk.writeWhole_view hwf hdirectory hsize draws text).1 left h
  refine ⟨_, hdirectory.locate_name (Disk.isPlain_canonical hsize) hshort hgivable, hnot,
    ⟨mode, content, by rw [hview, if_pos rfl]⟩, fun q hq => ?_, hwf'⟩
  rw [hview, if_neg hq]

/-- Generating puts the declarations where they belong; if it fails, nothing changes. -/
theorem generate_view [Interpreter] (draws : List Text) (directory : Path) {w : World}
    (hwf : w.disk.WellFormed) :
    match (generate draws directory).perform w with
    | (.ok _, w') => ∃ types, Generated directory types w.disk w'.disk
    | (.error _, w') => ∀ q, w'.disk.get? q = w.disk.get? q := by
  unfold generate
  rcases hfind : Schema.find w.disk directory with e | path
  · rw [Run.perform_bind_error _ (by rw [Run.perform_look, hfind])]
    exact fun _ => rfl
  rw [Run.perform_bind_ok _ (by rw [Run.perform_look, hfind]),
    Run.perform_bind_ok _ (Run.perform_say _ _)]
  obtain ⟨name, rfl⟩ := Schema.find_child hfind
  rcases hload : Schema.load w.disk (directory.child name) with e | schema
  · rw [Run.perform_bind_error _ (by rw [Run.perform_look, hload])]
    exact fun _ => rfl
  rw [Run.perform_bind_ok _ (by rw [Run.perform_look, hload])]
  obtain ⟨place, henters⟩ := Schema.enters_of_load hload
  rcases hsource : schema.source with e | ⟨source, count⟩
  · rw [Run.perform_bind_error _ (by rw [Run.perform_ofExcept])]
    exact fun _ => rfl
  rw [Run.perform_bind_ok _ (by rw [Run.perform_ofExcept])]
  dsimp only
  rcases hwrite : w.disk.writeWhole draws (directory.child declarationFilename) source with
    ⟨e | ⟨⟩, left⟩
  · rw [Run.perform_bind_error _ (by rw [Run.perform_step, hwrite])]
    exact (Disk.writeWhole_view hwf henters (by decide) draws source).2 e left hwrite
  · rw [Run.perform_bind_ok _ (by rw [Run.perform_step, hwrite]),
      Run.perform_bind_ok _ (Run.perform_say _ _), Run.perform_pure]
    exact generated_of_writeWhole hwf henters hwrite

end ProviderKit
