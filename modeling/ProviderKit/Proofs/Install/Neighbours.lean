import ProviderKit.Proofs.Disk.Compared
import ProviderKit.Proofs.Install.Steps
import ProviderKit.Proofs.Text.Pieces

/-!
# Releases beside each other

Releases whose directories have different names, none of them with a slash, stand beside each other:
installing one leaves the others alone (`installArtifact_keeps_others`). Names and versions are
free, though. Two releases can have the same directory, since the name of a directory does not tell
where the name of the release ends, and a version with a slash names a directory inside that of
another release; then installing one removes the files of the other (`installArtifact_collides`).
-/

namespace ProviderKit

/-! ## Names without a slash -/

/-- A text without a slash that says something is one name more. -/
theorem Path.join_ofText {base : Path} {t : Text} (hslash : .char '/' ∉ t) (hsome : t ≠ [])
    (hdot : t ≠ Text.ofString ".") : base.join (.ofText t) = base.child t := by
  have hnames : Path.namesOf t = [t] := by
    rw [Path.namesOf, Text.split_of_not_mem hslash,
      List.filter_cons_of_pos (by simpa using ⟨hsome, hdot⟩), List.filter_nil]
  have hroot : Path.rootOf t = .relative := by
    cases t with
    | nil => exact absurd rfl hsome
    | cons c t =>
      have hc : c ≠ .char '/' := fun heq => hslash (heq ▸ List.mem_cons_self)
      unfold Path.rootOf
      split <;> simp_all
  rw [Path.join, Path.ofText, Path.isAbsolute, hroot, hnames]
  rfl

namespace Install

/-- The name of the directory of a release has a slash only if the name of the release has one. -/
theorem slashless_pluginDirectoryName {name version : Text} (hname : .char '/' ∉ name)
    (hversion : .char '/' ∉ version) : .char '/' ∉ pluginDirectoryName name version := by
  unfold pluginDirectoryName
  simp only [List.mem_append, not_or]
  exact ⟨⟨⟨by decide, hname⟩, by decide⟩, hversion⟩

/-- The directory of a release without a slash in its name is one directory among the releases. -/
theorem pluginDirectory_child {host : Path} {name version : Text} (hname : .char '/' ∉ name)
    (hversion : .char '/' ∉ version) : pluginDirectory host name version =
      (host.child pluginsName).child (pluginDirectoryName name version) :=
  Path.join_ofText (slashless_pluginDirectoryName hname hversion) (List.cons_ne_nil _ _)
    (by rintro ⟨⟩)

/-- The name of the directory of a release is a plain one. -/
theorem isPlain_pluginDirectoryName (name version : Text) :
    Disk.IsPlain (Utf8.canonical (pluginDirectoryName name version)) := by
  refine Disk.isPlain_canonical ?_
  have hstart : Utf8.losslessSize (Text.ofString "provider-") = 9 := by decide
  unfold pluginDirectoryName
  rw [List.append_assoc, List.append_assoc, Disk.losslessSize_append]
  omega

/-- A plain name behind a path that leads somewhere is short. -/
theorem short_of_locate_child {disk : Disk} {path : Path} {name : Text} {q : Place}
    (hplain : Disk.IsPlain (Utf8.canonical name))
    (h : disk.locate false (path.child name) = .ok q) :
    Utf8.losslessSize (Utf8.canonical name) ≤ Disk.nameLimit := by
  obtain ⟨place, henters⟩ := Disk.enters_of_child h
  obtain ⟨left, hgoes⟩ := henters.goes
  obtain ⟨-, hwalk⟩ := Disk.walk_of_locate h
  rw [Disk.readNames_child, hgoes _ _ (List.cons_ne_nil _ _), Disk.walk_eq] at hwalk
  obtain ⟨-, hdot | hup | hnext⟩ := Disk.followNames_step hwalk
  · exact absurd hdot.1 hplain.1
  · exact absurd hup.1 hplain.2
  · exact hnext.2.1

/-! ## The main statement -/

/-- The archive of an artifact changes nothing outside the directory that it is unpacked into. -/
def UnpacksInside [Interpreter] (host : Path) (artifact : Artifact) (w left : World) : Prop :=
  ∀ place, ((freshen (pluginDirectory host artifact.name artifact.version)).perform w).2.disk.find
      false (pluginDirectory host artifact.name artifact.version) = .ok (place, .directory) →
    Disk.SameOutside place
      ((freshen (pluginDirectory host artifact.name artifact.version)).perform w).2.disk left.disk

/-- The directory that an artifact has been installed in is found under its path afterwards. -/
theorem find_of_installed [Interpreter] {host path : Path} {artifact : Artifact} {w left : World}
    (hsound : w.disk.Sound)
    (h : (installArtifact host artifact).perform w = (.ok path, left))
    (hinside : UnpacksInside host artifact w left) :
    left.disk.Sound ∧ ∃ place base, Disk.Cleared path place w.disk base ∧
      Disk.SameOutside place (base.put place .directory) left.disk ∧
      left.disk.find false path = .ok (place, .directory) := by
  obtain ⟨hpath, -, place, base, hcleared, hfresh, hunpacked⟩ := installArtifact_ok hsound h
  have hsame : Disk.SameOutside place (base.put place .directory) left.disk := by
    have hplace := hinside place
    rw [← hpath, hfresh] at hplace
    exact hplace hcleared.find_put
  have hheld := holds_of_unpacked hcleared artifact.archive
  rw [hunpacked] at hheld
  exact ⟨hheld.sound, place, base, hcleared, hsame, hcleared.find_final hheld.directory hsame⟩

/-- Releases whose directories have different names, without a slash, do not disturb one another:
when one has been installed and then the other, by archives that are unpacked inside their
directories, the directory of the first is still found under its path and is what it was. -/
theorem installArtifact_keeps_others [Interpreter] {host path path' : Path}
    {first second : Artifact} {w middle left : World} (hsound : w.disk.Sound)
    (hsimple : ∀ t ∈ [first.name, first.version, second.name, second.version], .char '/' ∉ t)
    (hdiffer : Utf8.canonical (pluginDirectoryName first.name first.version) ≠
      Utf8.canonical (pluginDirectoryName second.name second.version))
    (hfirst : (installArtifact host first).perform w = (.ok path, middle))
    (hsecond : (installArtifact host second).perform middle = (.ok path', left))
    (hinside : UnpacksInside host first w middle)
    (hinside' : UnpacksInside host second middle left) :
    ∃ place, middle.disk.find false path = .ok (place, .directory) ∧
      left.disk.find false path = .ok (place, .directory) ∧
      ∀ p, place <+: p → left.disk.get? p = middle.disk.get? p := by
  obtain ⟨hpath, -⟩ := installArtifact_ok hsound hfirst
  obtain ⟨hmiddle, place, -, -, -, hfind⟩ := find_of_installed hsound hfirst hinside
  obtain ⟨hpath', -⟩ := installArtifact_ok hmiddle hsecond
  obtain ⟨-, place', base, hcleared, hsame, hfind'⟩ := find_of_installed hmiddle hsecond hinside'
  rw [pluginDirectory_child (hsimple _ (by simp)) (hsimple _ (by simp))] at hpath hpath'
  subst hpath hpath'
  have hplain := isPlain_pluginDirectoryName first.name first.version
  have hplain' := isPlain_pluginDirectoryName second.name second.version
  generalize hname : pluginDirectoryName first.name first.version = name at *
  generalize hname' : pluginDirectoryName second.name second.version = name' at *
  -- Both directories are in the one that the path of the releases leads into.
  obtain ⟨hlocate, hdirectory⟩ := Disk.find_eq_ok.1 hfind
  obtain ⟨parent, henters, hplace⟩ := Disk.locate_child_eq hplain hlocate
  have hlocate' : middle.disk.locate false ((host.child pluginsName).child name') =
      .ok (parent ++ [Utf8.canonical name']) :=
    henters.locate_name hplain' (short_of_locate_child hplain' hcleared.located)
      (Disk.walk_of_locate hcleared.located).1
  obtain rfl := hcleared.same _ hlocate'
  have hbase := hcleared.direct (.inr hlocate')
  have hapart : ∀ p, place <+: p → ¬ (parent ++ [Utf8.canonical name']) <+: p := by
    rintro p hp hp'
    rw [hplace] at hp
    obtain ⟨rest, rfl⟩ := hp
    obtain ⟨rest', hrest⟩ := hp'
    rw [List.append_assoc, List.append_assoc] at hrest
    exact hdiffer (List.cons.inj (List.append_cancel_left hrest)).1.symm
  have hview : ∀ p, place <+: p → left.disk.get? p = middle.disk.get? p := by
    intro p hp
    have hne : p ≠ parent ++ [Utf8.canonical name'] := fun heq =>
      hapart p hp (heq ▸ List.prefix_refl _)
    calc left.disk.get? p
        = (base.put (parent ++ [Utf8.canonical name']) .directory).get? p :=
          hsame.view p (hapart p hp)
      _ = base.get? p := Disk.get?_put_of_ne hne _ _
      _ = middle.disk.get? p := by
          rw [hbase, Disk.get?_eraseTree_of_not_below (hapart p hp)]
  refine ⟨place, hfind, Disk.find_eq_ok.2 ⟨?_, ?_⟩, hview⟩
  · obtain ⟨parent', henters', hparent⟩ := Disk.locate_child_eq hplain' hcleared.located
    obtain rfl : parent = parent' := (List.append_inj' hparent rfl).1
    rw [hplace]
    exact (henters'.extended (hcleared.extended_final hsame)).locate_name hplain
      (short_of_locate_child hplain hlocate) (Disk.walk_of_locate hlocate).1
  · rw [hview place (List.prefix_refl _), hdirectory]

/-! ## On a small host -/

/-- The small host with a second archive beside the first. -/
def pairDisk : Disk where
  entries := bareDisk.entries ++
    [([Text.ofString "b"], Entry.file .usual (.archive [.file "g" .usual (.bytes [67])]))]

/-- A release of a name and a version with the first archive. -/
def firstOf (name version : Text) : Artifact := { smallArtifact with name, version }

/-- A release of a name and a version with the second archive. -/
def secondOf (name version : Text) : Artifact :=
  { smallArtifact with archive := ⟨.single, ["b"]⟩, name, version }

/-- Whether the archive of an artifact, when it is installed, changes nothing outside its
directory. -/
def staysInside [Interpreter] (host : Path) (artifact : Artifact) (w : World) : Bool :=
  let directory := pluginDirectory host artifact.name artifact.version
  let fresh := ((freshen directory).perform w).2.disk
  match fresh.find false directory with
  | .ok (place, _) => decide (((installArtifact host artifact).perform w).2.disk.eraseTree place =
      fresh.eraseTree place)
  | .error _ => true

/-- An archive that is found to stay inside its directory does. -/
theorem unpacksInside_of_check [Interpreter] {host path : Path} {artifact : Artifact}
    {w left : World} (h : staysInside host artifact w = true)
    (hinstalled : (installArtifact host artifact).perform w = (.ok path, left)) :
    UnpacksInside host artifact w left := by
  intro place hfind
  unfold staysInside at h
  dsimp only at h
  rw [hfind, hinstalled] at h
  exact sameOutside_of_eraseTree (of_decide_eq_true h)

/-- The directories of two versions of one release keep apart on the small host. -/
theorem installArtifact_keeps_others_small : ∃ middle left place,
    (installArtifact smallHost (firstOf "n" "1")).perform ⟨pairDisk, [], [], []⟩ =
      (.ok (pluginDirectory smallHost "n" "1"), middle) ∧
    (installArtifact smallHost (secondOf "n" "2")).perform middle =
      (.ok (pluginDirectory smallHost "n" "2"), left) ∧
    left.disk.find false (pluginDirectory smallHost "n" "1") = .ok (place, .directory) ∧
    ∀ p, place <+: p → left.disk.get? p = middle.disk.get? p := by
  have hchecks : (pairDisk.isSound &&
      isInstalled smallHost (firstOf "n" "1") ⟨pairDisk, [], [], []⟩ &&
      staysInside smallHost (firstOf "n" "1") ⟨pairDisk, [], [], []⟩ &&
      isInstalled smallHost (secondOf "n" "2")
        ((installArtifact smallHost (firstOf "n" "1")).perform ⟨pairDisk, [], [], []⟩).2 &&
      staysInside smallHost (secondOf "n" "2")
        ((installArtifact smallHost (firstOf "n" "1")).perform ⟨pairDisk, [], [], []⟩).2) =
      true := by
    decide +kernel
  simp only [Bool.and_eq_true] at hchecks
  obtain ⟨⟨⟨⟨hsound, hfirst⟩, hinside⟩, hsecond⟩, hinside'⟩ := hchecks
  obtain ⟨middle, hmiddle⟩ := installed_of_check hfirst
  rw [hmiddle] at hsecond hinside'
  obtain ⟨left, hleft⟩ := installed_of_check hsecond
  obtain ⟨place, -, hfind, hview⟩ := installArtifact_keeps_others (Disk.sound_of_check hsound)
    (by decide) (by decide) hmiddle hleft (unpacksInside_of_check hinside hmiddle)
    (unpacksInside_of_check hinside' hleft)
  exact ⟨middle, left, place, hmiddle, hleft, hfind, hview⟩

/-! ## One directory for two releases -/

/-- Two releases of different names and versions can have the same directory, and a release can have
its directory inside that of another one; a file of the one that is installed first is then gone
when the other has been installed. -/
theorem installArtifact_collides :
    (∃ middle left,
      (installArtifact smallHost (firstOf "a-v1" "2")).perform ⟨pairDisk, [], [], []⟩ =
        (.ok (pluginDirectory smallHost "a-v1" "2"), middle) ∧
      (installArtifact smallHost (secondOf "a" "1-v2")).perform middle =
        (.ok (pluginDirectory smallHost "a" "1-v2"), left) ∧
      middle.disk.get? ["h", "plugins", "provider-a-v1-v2", "d", "f"] =
        some (.file .usual (.bytes [65])) ∧
      left.disk.get? ["h", "plugins", "provider-a-v1-v2", "d", "f"] = none) ∧
    ∃ middle left,
      (installArtifact smallHost (firstOf "a" "1")).perform ⟨pairDisk, [], [], []⟩ =
        (.ok (pluginDirectory smallHost "a" "1"), middle) ∧
      (installArtifact smallHost (secondOf "a" "1/d")).perform middle =
        (.ok (pluginDirectory smallHost "a" "1/d"), left) ∧
      middle.disk.get? ["h", "plugins", "provider-a-v1", "d", "f"] =
        some (.file .usual (.bytes [65])) ∧
      left.disk.get? ["h", "plugins", "provider-a-v1", "d", "f"] = none := by
  have hcollides : ∀ (first second : Artifact) (place : Place),
      (isInstalled smallHost first ⟨pairDisk, [], [], []⟩ &&
        isInstalled smallHost second
          ((installArtifact smallHost first).perform ⟨pairDisk, [], [], []⟩).2 &&
        decide (((installArtifact smallHost first).perform ⟨pairDisk, [], [], []⟩).2.disk.get?
          place = some (.file .usual (.bytes [65]))) &&
        decide (((installArtifact smallHost second).perform
          ((installArtifact smallHost first).perform ⟨pairDisk, [], [], []⟩).2).2.disk.get? place =
          none)) = true →
      ∃ middle left,
        (installArtifact smallHost first).perform ⟨pairDisk, [], [], []⟩ =
          (.ok (pluginDirectory smallHost first.name first.version), middle) ∧
        (installArtifact smallHost second).perform middle =
          (.ok (pluginDirectory smallHost second.name second.version), left) ∧
        middle.disk.get? place = some (.file .usual (.bytes [65])) ∧
        left.disk.get? place = none := by
    intro first second place hchecks
    simp only [Bool.and_eq_true, decide_eq_true_eq] at hchecks
    obtain ⟨⟨⟨hfirst, hsecond⟩, hthere⟩, hgone⟩ := hchecks
    obtain ⟨middle, hmiddle⟩ := installed_of_check hfirst
    rw [hmiddle] at hsecond hthere hgone
    obtain ⟨left, hleft⟩ := installed_of_check hsecond
    rw [hleft] at hgone
    exact ⟨middle, left, hmiddle, hleft, hthere, hgone⟩
  exact ⟨hcollides (firstOf "a-v1" "2") (secondOf "a" "1-v2") _ (by decide +kernel),
    hcollides (firstOf "a" "1") (secondOf "a" "1/d") _ (by decide +kernel)⟩

end Install

end ProviderKit
