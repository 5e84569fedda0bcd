import ProviderKit.Install
import ProviderKit.Proofs.Release.Grammar

/-!
# Names of releases

The directory of a release is named by the name and the version of the release, and in general it
does not tell where the one ends and the other begins. The version that a release tag names is made
of digits and dots, though, so the last `v` in the name of the directory is the one in front of it.
Releases that are tagged have the same directory only if they are the same
(`pluginDirectoryName_eq_iff`), whatever their names are.
-/

namespace ProviderKit

/-- A text is parted in one way only at a code point that is not behind it again. -/
theorem Text.parted_at_last {c : CodePoint} {front front' back back' : Text} (hback : c ∉ back)
    (hback' : c ∉ back') (h : front ++ c :: back = front' ++ c :: back') :
    front = front' ∧ back = back' := by
  rcases List.append_eq_append_iff.1 h with ⟨between, hfront, hrest⟩ | ⟨between, hfront, hrest⟩
  -- What lies between the two places would hold the code point behind the first one.
  all_goals
    cases between with
    | nil =>
      rw [List.append_nil] at hfront
      obtain ⟨-, rfl⟩ := List.cons.inj hrest
      exact ⟨by rw [hfront], rfl⟩
    | cons first between =>
      obtain ⟨-, rfl⟩ := List.cons.inj hrest
      simp at hback hback'

/-- A version that a release tag names has no letter in it, so no `v`. -/
theorem Release.not_mem_version {reference version : Text}
    (h : Release.version reference = .ok version) : CodePoint.char 'v' ∉ version := by
  intro hmem
  rcases mem_version h hmem with hdot | hdigit
  · cases hdot
  · exact absurd hdigit (by decide)

/-- The name of a directory is parted by the letter in front of the version. -/
theorem pluginDirectoryName_eq (name version : Text) :
    pluginDirectoryName name version =
      ("provider-" ++ name ++ "-") ++ CodePoint.char 'v' :: version := by
  simp [pluginDirectoryName, Text.ofString, Text.ofChars]

/-- Releases whose versions are named by release tags have directories of the same name only if
their names are the same, and their versions. -/
theorem pluginDirectoryName_eq_iff {reference reference' version version' : Text}
    (hversion : Release.version reference = .ok version)
    (hversion' : Release.version reference' = .ok version') (name name' : Text) :
    pluginDirectoryName name version = pluginDirectoryName name' version' ↔
      name = name' ∧ version = version' := by
  constructor
  · intro h
    rw [pluginDirectoryName_eq, pluginDirectoryName_eq] at h
    obtain ⟨hfront, hback⟩ := Text.parted_at_last (Release.not_mem_version hversion)
      (Release.not_mem_version hversion') h
    exact ⟨List.append_cancel_left (List.append_cancel_right hfront), hback⟩
  · rintro ⟨rfl, rfl⟩
    rfl

/-- A release whose name ends like a version is told from the one that its directory looks like. -/
theorem pluginDirectoryName_eq_iff_numbered :
    Release.version "refs/tags/v2.0.0" = .ok "2.0.0" ∧ Release.version "v1.0.0" = .ok "1.0.0" ∧
    pluginDirectoryName "a-v1.0.0" "2.0.0" = "provider-a-v1.0.0-v2.0.0" ∧
    pluginDirectoryName "a-v1.0.0" "2.0.0" ≠ pluginDirectoryName "a" "1.0.0" := by
  have hfirst : Release.version "refs/tags/v2.0.0" = .ok "2.0.0" := rfl
  have hsecond : Release.version "v1.0.0" = .ok "1.0.0" := rfl
  refine ⟨hfirst, hsecond, rfl, fun h => ?_⟩
  have hsame := (pluginDirectoryName_eq_iff hfirst hsecond "a-v1.0.0" "a").1 h
  exact absurd hsame.1 (by decide)

/-- Versions that are free to hold anything do not tell releases apart. -/
example : pluginDirectoryName "a-v1" "2" = pluginDirectoryName "a" "1-v2" := rfl

end ProviderKit
