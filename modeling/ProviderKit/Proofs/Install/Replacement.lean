import ProviderKit.Proofs.Disk.Compared
import ProviderKit.Proofs.Install.Steps

/-!
# Installing replaces

The archive is always unpacked into an empty directory, so what was in the directory before leaves
no trace, and neither does an installation of the same artifact that went before, as long as
unpacking changed nothing outside, and left nothing more levels down than the interpreter removes
(`installArtifact_replaces`). That unpacking cannot tell disks apart that look alike carries the
proof: the two disks on which it begins list their entries in different orders. Without the first
condition the statement fails: a link beside the directory can make room for a member outside
(`installArtifact_again_fails`).
-/

namespace ProviderKit

namespace Install

/-- On the second disk the directory is there under its path, and empty. Elsewhere the second disk
is the first one, but for directories that have come on the way to it. -/
structure Emptied (directory : Path) (place : Place) (disk fresh : Disk) : Prop where
  found : fresh.find false directory = .ok (place, .directory)
  empty : ∀ p, place <+: p → p ≠ place → fresh.get? p = none
  elsewhere : ∀ p, ¬ place <+: p → fresh.get? p = disk.get? p ∨
    disk.get? p = none ∧ fresh.get? p = some .directory ∧
      ∃ n, fresh.locate false (Disk.ancestor directory n) = .ok p
  sharers : ∀ p q, ¬ place <+: p → ¬ place <+: q →
    (q ∈ fresh.sharers p ↔ q ∈ disk.sharers p)

/-- A directory that has been cleared and made is empty. -/
theorem emptied_of_cleared {directory : Path} {place : Place} {disk base : Disk}
    (h : Disk.Cleared directory place disk base) :
    Emptied directory place disk (base.put place .directory) := by
  have hmade := Disk.extended_put h.free .directory
  refine ⟨h.find_put, fun p hbelow hp => h.empty hbelow hp, fun p hbelow => ?_,
    fun p q hbelow hq => ?_⟩
  · have hne : p ≠ place := fun heq => hbelow (heq ▸ List.prefix_refl _)
    rw [Disk.get?_put_of_ne hne]
    rcases h.grown.view p with hsame | ⟨hnone, hdirectory, path, ⟨n, rfl⟩, hlocate⟩
    · exact .inl (hsame.trans (Disk.get?_eraseTree_of_not_below hbelow _))
    · rw [Disk.get?_eraseTree_of_not_below hbelow] at hnone
      exact .inr ⟨hnone, hdirectory, n, Disk.locate_kept hmade hlocate⟩
  · rw [h.sound.sharers_put (by simp [h.free]), h.grown.sharers,
      Disk.sharers_eraseTree hbelow, List.mem_filter, Disk.not_isPrefixOf_iff]
    exact and_iff_left hq

section Again

variable [Interpreter] {host path : Path} {artifact : Artifact} {w left : World} {place : Place}
  {base : Disk} (hpath : path = pluginDirectory host artifact.name artifact.version)
  (hhost : w.disk.isDirectory? host = .ok true) (hcleared : Disk.Cleared path place w.disk base)
  (hunpacked : Archive.unpack (base.put place .directory) artifact.archive path =
    (.ok (), left.disk))
  (hsame : Disk.SameOutside place (base.put place .directory) left.disk)
include hpath hhost hcleared hunpacked hsame

omit hunpacked [Interpreter] in
/-- The root of the host is still found where the directory of a release has been filled: the path
of the directory goes by there. -/
theorem isDirectory?_host : left.disk.isDirectory? host = .ok true := by
  obtain ⟨p, hfind⟩ := Disk.isDirectory?_eq_true.1 hhost
  have hgivable := (Disk.walk_of_locate (Disk.find_eq_ok.1 hfind).1).1
  have hlocated := hcleared.located
  rw [hpath, pluginDirectory_eq] at hlocated
  obtain ⟨q, hbase⟩ := find_of_longer hgivable (List.cons_ne_nil _ _) hlocated
  obtain ⟨entry, hentry, hseen⟩ := Disk.find_of_extended (hcleared.extended_final hsame) hbase
  cases entry with
  | file => cases hseen
  | link => cases hseen
  | directory => exact Disk.isDirectory?_eq_true.2 ⟨q, hentry⟩

/-- Where a directory was cleared and filled, nothing else changed, and what is in it can be
removed, it can be installed again, and then all is as before. -/
theorem installArtifact_again (hshallow : left.disk.Shallow Interpreter.removing place) :
    ∃ again, (installArtifact host artifact).perform left = (.ok path, again) ∧
      Disk.Alike left.disk again.disk := by
  have hheld := holds_of_unpacked hcleared artifact.archive
  rw [hunpacked] at hheld
  have hmatching := hcleared.matching_final hheld.sound hsame
  obtain ⟨w₁, hfresh, hdisk₁⟩ := perform_freshen (hcleared.find_final hheld.directory hsame)
    (hcleared.removeTree_final hheld.directory hsame hshallow)
    (hcleared.makeDirectories_final hsame)
  obtain ⟨houtcome, hend⟩ :=
    Archive.unpack_carried Disk.matching_carried hmatching artifact.archive path
  rw [hunpacked] at houtcome hend
  rw [← hdisk₁] at houtcome hend
  have hagain : Archive.unpack w₁.disk artifact.archive path =
      (.ok (), (Archive.unpack w₁.disk artifact.archive path).2) := Prod.ext houtcome rfl
  obtain ⟨w₂, hfill, hdisk₂⟩ := perform_fill hagain
  refine ⟨w₂, ?_, hdisk₂ ▸ hend.toAlike⟩
  rw [perform_installArtifact, isDirectory?_host hpath hhost hcleared hsame, ← hpath]
  dsimp only
  rw [Run.perform_bind_ok _ hfresh, hfill]

/-- Where something in the directory is too many levels down to be removed, installing again fails.
-/
theorem installArtifact_again_deep (hdeep : ¬ left.disk.Shallow Interpreter.removing place) :
    ∃ again, (installArtifact host artifact).perform left =
      (.error (.disk .tooDeep), again) := by
  have hheld := holds_of_unpacked hcleared artifact.archive
  rw [hunpacked] at hheld
  obtain ⟨entry, hdeeper⟩ : ∃ entry,
      left.disk.deeper? Interpreter.removing place = some entry := by
    rw [← Option.isSome_iff_exists, Option.isSome_iff_ne_none]
    exact fun hnone => hdeep (Disk.deeper?_eq_none.1 hnone)
  have hfind := hcleared.find_final hheld.directory hsame
  obtain ⟨w₁, hfresh⟩ :=
    perform_freshen_stuck hfind (Disk.removeTree_of_deeper hfind hdeeper)
  refine ⟨w₁, ?_⟩
  rw [perform_installArtifact, isDirectory?_host hpath hhost hcleared hsame, ← hpath]
  dsimp only
  rw [Run.perform_bind, hfresh]

end Again

/-- Installing replaces. Under a root that is no directory it changes nothing and fails, for want of
the host or because the path is too long. Whenever it succeeds, the archive has been unpacked into
an empty directory; what the directory held before, if it was there, makes no difference; and where
unpacking changed nothing outside the directory, installing again succeeds and changes nothing, if
nothing in the directory is more levels down than the interpreter removes; otherwise it fails. -/
theorem installArtifact_replaces [Interpreter] (host : Path) (artifact : Artifact) (w : World)
    (hsound : w.disk.Sound) :
    ((∀ place, w.disk.find true host ≠ .ok (place, .directory)) →
      ∃ failure, (installArtifact host artifact).perform w = (.error failure, w) ∧
        (failure = .problem (.hostMissing host) ∨
          failure = .disk (.refused .nameTooLong host) ∧
            w.disk.find true host = .error (.refused .nameTooLong host))) ∧
    ∀ directory left, (installArtifact host artifact).perform w = (.ok directory, left) →
      directory = pluginDirectory host artifact.name artifact.version ∧
      ∃ place fresh, ((freshen directory).perform w).2.disk = fresh ∧
        Emptied directory place w.disk fresh ∧
        Archive.unpack fresh artifact.archive directory = (.ok (), left.disk) ∧
        (∀ other left', other.disk.Sound → w.disk.get? place ≠ none →
          Disk.SameOutside place w.disk other.disk →
          (installArtifact host artifact).perform other = (.ok directory, left') →
          Disk.Alike left.disk left'.disk) ∧
        (Disk.SameOutside place fresh left.disk →
          (left.disk.Shallow Interpreter.removing place →
            ∃ again, (installArtifact host artifact).perform left = (.ok directory, again) ∧
              Disk.Alike left.disk again.disk) ∧
          (¬ left.disk.Shallow Interpreter.removing place →
            ∃ again, (installArtifact host artifact).perform left =
              (.error (.disk .tooDeep), again))) := by
  refine ⟨installArtifact_no_host, fun directory left h => ?_⟩
  obtain ⟨hpath, hhost, place, base, hcleared, hfresh, hunpacked⟩ := installArtifact_ok hsound h
  refine ⟨hpath, place, base.put place .directory, hfresh, emptied_of_cleared hcleared, hunpacked,
    ?_, fun hsame => ⟨installArtifact_again hpath hhost hcleared hunpacked hsame,
      installArtifact_again_deep hpath hhost hcleared hunpacked hsame⟩⟩
  intro other left' hother hprevious hsame h'
  obtain ⟨-, -, place', base', hcleared', -, hunpacked'⟩ := installArtifact_ok hother h'
  obtain ⟨rfl, hmatching⟩ := hcleared.matching hcleared' hsound hother hprevious hsame
  obtain ⟨parent, name, rfl, hparent⟩ := hcleared.sound.locate_parent hcleared.located
    hcleared.free
  have hfresh := Disk.matching_carried.put hmatching hparent hcleared.free .directory
  have hend :=
    (Archive.unpack_carried Disk.matching_carried hfresh artifact.archive directory).2
  rw [hunpacked, hunpacked'] at hend
  exact hend.toAlike

/-! ## On a small host -/

/-- The host with a release that holds a file of its own and a link. -/
def usedDisk : Disk where
  entries := bareDisk.entries ++
    [(smallPlace, .directory),
     (smallPlace ++ [Text.ofString "d"], .file .usual (.bytes [66])),
     (smallPlace ++ [Text.ofString "x"], .link "../..")]

/-- On the small host the release that was there makes no difference, and a second installation
changes nothing; under the archive, which is no directory, nothing is installed. -/
theorem installArtifact_replaces_small :
    (∃ left left' again,
      (installArtifact smallHost smallArtifact).perform ⟨usedDisk, [], [], []⟩ =
        (.ok (pluginDirectory smallHost "n" "1"), left) ∧
      (installArtifact smallHost smallArtifact).perform ⟨bareDisk, [], [], []⟩ =
        (.ok (pluginDirectory smallHost "n" "1"), left') ∧
      Disk.Alike left.disk left'.disk ∧
      (installArtifact smallHost smallArtifact).perform left =
        (.ok (pluginDirectory smallHost "n" "1"), again) ∧
      Disk.Alike left.disk again.disk) ∧
    ((installArtifact smallArtifact.archive smallArtifact).perform ⟨bareDisk, [], [], []⟩).2 =
      ⟨bareDisk, [], [], []⟩ := by
  have hchecks : (usedDisk.isSound && bareDisk.isSound &&
      isInstalled smallHost smallArtifact ⟨usedDisk, [], [], []⟩ &&
      isInstalled smallHost smallArtifact ⟨bareDisk, [], [], []⟩) = true := by
    decide +kernel
  simp only [Bool.and_eq_true] at hchecks
  obtain ⟨⟨⟨hused, hbare⟩, hinstalled⟩, hinstalled'⟩ := hchecks
  have hsound := Disk.sound_of_check hused
  have hsound' := Disk.sound_of_check hbare
  obtain ⟨left, hleft⟩ := installed_of_check hinstalled
  obtain ⟨left', hleft'⟩ := installed_of_check hinstalled'
  obtain ⟨-, hreplaces⟩ :=
    installArtifact_replaces smallHost smallArtifact ⟨usedDisk, [], [], []⟩ hsound
  obtain ⟨-, place, fresh, hfresh, hemptied, -, hother, hagain⟩ := hreplaces _ left hleft
  have hfound : (((freshen (pluginDirectory smallHost "n" "1")).perform
      ⟨usedDisk, [], [], []⟩).2.disk.find false (pluginDirectory smallHost "n" "1")).toOption =
      some (smallPlace, .directory) := by
    decide +kernel
  have hplace : place = smallPlace := by
    have hsome := hemptied.found
    rw [← hfresh] at hsome
    have hsame := congrArg Except.toOption hsome
    exact (congrArg Prod.fst (Option.some.inj (hfound.symm.trans hsame))).symm
  subst hplace
  refine ⟨?_, ?_⟩
  · have hbefore : usedDisk.eraseTree smallPlace = bareDisk.eraseTree smallPlace := by
      decide +kernel
    have hafter : ((installArtifact smallHost smallArtifact).perform
          ⟨usedDisk, [], [], []⟩).2.disk.eraseTree smallPlace =
        ((freshen (pluginDirectory smallHost "n" "1")).perform
          ⟨usedDisk, [], [], []⟩).2.disk.eraseTree smallPlace := by
      decide +kernel
    have halike := hother _ left' hsound' (by decide +kernel)
      (sameOutside_of_eraseTree hbefore.symm) hleft'
    rw [hleft] at hafter
    have hshallow : left.disk.Shallow Interpreter.removing smallPlace := by
      have hdepth : ((installArtifact smallHost smallArtifact).perform
          ⟨usedDisk, [], [], []⟩).2.disk.deeper? Interpreter.removing smallPlace = none := by
        decide +kernel
      rw [hleft] at hdepth
      exact Disk.deeper?_eq_none.1 hdepth
    obtain ⟨hrepeats, -⟩ := hagain (sameOutside_of_eraseTree (hfresh ▸ hafter))
    obtain ⟨again, hperform, hsame⟩ := hrepeats hshallow
    exact ⟨left, left', again, hleft, hleft', halike, hperform, hsame⟩
  · obtain ⟨hmissing, -⟩ :=
      installArtifact_replaces smallArtifact.archive smallArtifact ⟨bareDisk, [], [], []⟩ hsound'
    have hfile : (bareDisk.find true smallArtifact.archive).toOption.all
        (!·.2.isDirectory) = true := by
      decide +kernel
    obtain ⟨failure, hfails, -⟩ := hmissing (fun place hfind => by
      rw [hfind] at hfile
      cases hfile)
    rw [hfails]

/-! ## Where unpacking reaches outside -/

/-- A host beside whose releases there is a link to one. -/
def linkedDisk : Disk where
  entries :=
    [(["h"], .directory),
     (["h", "plugins"], .directory),
     (["h", "plugins", "c"], .link "provider-n-v1"),
     (["a"], .file .usual (.archive
       [.link "x" "d/s/../..", .directory "s", .link "d" ".", .link "x/c" "c"]))]

/-- The root of a host under a name that is too long. -/
def longHost : Path := ⟨.single, [Text.ofChars (List.replicate 256 'n')]⟩

/-- An archive with links can be unpacked so that one of them replaces a link beside the directory,
and then it cannot be unpacked again; and the root of a host can be missing without being said to
be, if its name is too long. -/
theorem installArtifact_again_fails :
    linkedDisk.Sound ∧
    (∃ left, (installArtifact smallHost smallArtifact).perform ⟨linkedDisk, [], [], []⟩ =
        (.ok (pluginDirectory smallHost "n" "1"), left) ∧
      endsWith (fun failure => failure matches .archive .outside)
        ((installArtifact smallHost smallArtifact).perform left).1 = true) ∧
    (∀ place, linkedDisk.find true longHost ≠ .ok (place, .directory)) ∧
    endsWith (fun failure => failure matches .disk (.refused .nameTooLong _))
      ((installArtifact longHost smallArtifact).perform ⟨linkedDisk, [], [], []⟩).1 = true := by
  have hchecks : (linkedDisk.isSound &&
      isInstalled smallHost smallArtifact ⟨linkedDisk, [], [], []⟩) = true := by
    decide +kernel
  rw [Bool.and_eq_true] at hchecks
  obtain ⟨left, hleft⟩ := installed_of_check hchecks.2
  refine ⟨Disk.sound_of_check hchecks.1, ⟨left, hleft, ?_⟩, ?_, by decide +kernel⟩
  · have hagain : endsWith (fun failure => failure matches .archive .outside)
        ((installArtifact smallHost smallArtifact).perform
          ((installArtifact smallHost smallArtifact).perform ⟨linkedDisk, [], [], []⟩).2).1 =
        true := by
      decide +kernel
    rw [hleft] at hagain
    exact hagain
  · have hlong : (linkedDisk.find true longHost).toOption = none := by
      decide +kernel
    intro place hfind
    rw [hfind] at hlong
    cases hlong

end Install

end ProviderKit
