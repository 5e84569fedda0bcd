import ProviderKit.Build.Pipeline
import ProviderKit.Proofs.Disk.Directory

/-!
# The path of an archive

A package may be called anything, so the path of its archive can lead anywhere; but its last name
always ends in `.tar.gz`, and so no archive is written under the name of another file of a project.
-/

namespace ProviderKit

/-- Behind the last separator of a longer text there is the end of the text. -/
theorem Text.split_append (sep : CodePoint) (finish : Text) (h : sep ∉ finish) (t : Text) :
    ∃ front last, Text.split sep (t ++ finish) = front ++ [last ++ finish] := by
  induction t with
  | nil =>
    refine ⟨[], [], ?_⟩
    induction finish with
    | nil => rfl
    | cons c finish ih =>
      rw [List.mem_cons, not_or] at h
      have hrest := ih h.2
      simp only [List.nil_append] at hrest ⊢
      rw [Text.split, if_neg (Ne.symm h.1), hrest]
  | cons c t ih =>
    obtain ⟨front, last, hsplit⟩ := ih
    rw [List.cons_append, Text.split, hsplit]
    by_cases hc : c = sep
    · exact ⟨[] :: front, last, by rw [if_pos hc, List.cons_append]⟩
    · rw [if_neg hc]
      rcases front with _ | ⟨piece, front⟩
      · exact ⟨[], c :: last, rfl⟩
      · exact ⟨(c :: piece) :: front, last, rfl⟩

namespace Build

/-- The end of the name of an archive. -/
def archiveEnd : Text := ".tar.gz"

/-- The last name in the path of an archive ends as archives do. -/
theorem archivePath_names (b : Build) (name : Text) :
    ∃ names last, (b.archivePath name).names = names ++ [last ++ archiveEnd] := by
  obtain ⟨front, last, hsplit⟩ :=
    Text.split_append (.char '/') archiveEnd (by decide) name
  have hkeep : (!(last ++ archiveEnd).isEmpty && (last ++ archiveEnd) != Text.ofString ".") =
      true := by
    rw [Bool.and_eq_true, bne_iff_ne]
    refine ⟨by simp [archiveEnd, Text.ofString, Text.ofChars], fun heq => ?_⟩
    have hlength := congrArg List.length heq
    rw [List.length_append, show archiveEnd.length = 7 from by decide,
      show (Text.ofString ".").length = 1 from by decide] at hlength
    omega
  have hnames : ∃ names, Path.namesOf (name ++ archiveEnd) = names ++ [last ++ archiveEnd] := by
    have hlast : [last ++ archiveEnd].filter (fun name =>
        !name.isEmpty && name != Text.ofString ".") = [last ++ archiveEnd] := by
      simp only [List.filter_cons, hkeep, if_true, List.filter_nil]
    rw [Path.namesOf, hsplit, List.filter_append, hlast]
    exact ⟨_, rfl⟩
  obtain ⟨names, hnames⟩ := hnames
  unfold archivePath Path.join
  split
  · exact ⟨names, last, hnames⟩
  · refine ⟨(b.directory.child distName).names ++ names, last, ?_⟩
    show (b.directory.child distName).names ++ Path.namesOf (name ++ archiveEnd) = _
    rw [hnames, List.append_assoc]

/-- The names that a disk reads in the path of an archive end in a plain name. -/
theorem archivePath_readNames (b : Build) (name : Text) :
    ∃ names last, Disk.readNames (b.archivePath name) =
        names ++ [Utf8.canonical (last ++ archiveEnd)] ∧
      Disk.IsPlain (Utf8.canonical (last ++ archiveEnd)) := by
  obtain ⟨names, last, hnames⟩ := b.archivePath_names name
  refine ⟨names.map Utf8.canonical, last, ?_, Disk.isPlain_canonical ?_⟩
  · rw [Disk.readNames, hnames, List.map_append]
    rfl
  · have hsize : Utf8.losslessSize archiveEnd = 7 := by decide
    rw [Disk.losslessSize_append]
    omega

/-- An archive is at no place whose last name ends differently. -/
theorem archivePath_ne {b : Build} {name file : Text} {disk : Disk} {place parent : Place}
    (hfile : ¬ Utf8.encodeLossless archiveEnd <:+ Utf8.encodeLossless file)
    (h : disk.locate false (b.archivePath name) = .ok place) :
    place ≠ parent ++ [Utf8.canonical file] := by
  obtain ⟨names, last, hnames, hplain⟩ := b.archivePath_readNames name
  obtain ⟨hgivable, hwalk⟩ := Disk.walk_of_locate h
  rw [hnames] at hwalk
  obtain ⟨directory, rfl, -⟩ := Disk.walk_append_plain hplain hwalk
  intro heq
  have hlast := (List.cons.inj (List.append_inj' heq rfl).2).1
  have hbytes := congrArg Utf8.encodeLossless hlast
  rw [Utf8.encodeLossless_canonical, Utf8.encodeLossless_canonical,
    Utf8.encodeLossless_append] at hbytes
  exact hfile (hbytes ▸ List.suffix_append _ _)

end Build

end ProviderKit
