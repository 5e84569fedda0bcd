import ProviderKit.Install
import ProviderKit.Proofs.Archive.Unpacking
import ProviderKit.Proofs.Disk.Renewal
import ProviderKit.Proofs.Package.Discovery
import ProviderKit.Proofs.Run.Perform

/-!
# The steps of an installation

An artifact is installed in two steps: the directory of its release is made anew (`freshen`), and
the archive is unpacked into it (`fill`). Each step is described once by the disk that it leaves,
and `installArtifact_ok` says what a whole installation has done when it succeeds. Under a root that
is no directory none of it begins (`installArtifact_no_host`).
-/

namespace ProviderKit

namespace Install

/-- Removes the directory of a release, if there is one, and makes it anew. -/
def freshen [Interpreter] (directory : Path) : Run Unit := do
  if ← Run.look fun disk => orFail (disk.exists? directory) then
    Run.say (.debug ("Removing previous install at " ++ directory.text))
    Run.requests fun disk => disk.removeTree directory
  Run.requests fun disk => disk.makeDirectories false directory

/-- Unpacks an archive into the directory of a release. -/
def fill [Interpreter] (archive directory : Path) : Run Path := do
  Run.step fun disk => Archive.unpack disk archive directory
  Run.say (.success ("Installed to " ++ directory.text))
  pure directory

/-- An artifact is installed under a root that is a directory, into a directory made anew. -/
theorem perform_installArtifact [Interpreter] (host : Path) (artifact : Artifact) (w : World) :
    (installArtifact host artifact).perform w = match w.disk.isDirectory? host with
      | .error fault => (.error (.disk fault), w)
      | .ok false => (.error (.problem (.hostMissing host)), w)
      | .ok true => (do
          freshen (pluginDirectory host artifact.name artifact.version)
          fill artifact.archive
            (pluginDirectory host artifact.name artifact.version)).perform w := by
  unfold installArtifact
  rw [Run.perform_bind, Run.perform_look]
  rcases hhost : w.disk.isDirectory? host with fault | there
  · rfl
  cases there with
  | false => rfl
  | true =>
    simp only [orFail, freshen, fill, bind_assoc, Bool.not_true, Bool.false_eq_true, if_false]
    refine congrArg (fun run : Run Path => run.perform w) ?_
    refine congrArg (Run.look _ >>= ·) (funext fun there => ?_)
    cases there <;> simp only [bind_assoc, Bool.false_eq_true, if_false, if_true]

/-! ## What returns -/

/-- A directory that has been made anew was made, or removed and then made. -/
theorem freshen_done [Interpreter] {directory : Path} {w w' : World}
    (h : (freshen directory).perform w = (.ok (), w')) :
    w.disk.makeDirectories false directory = (.ok (), w'.disk) ∨
      ∃ emptied, w.disk.removeTree directory = (.ok (), emptied) ∧
        emptied.makeDirectories false directory = (.ok (), w'.disk) := by
  unfold freshen at h
  obtain ⟨there, w₁, hlook, h⟩ := Run.perform_bind_eq_ok h
  rw [Run.perform_look] at hlook
  obtain ⟨hthere, rfl⟩ := Prod.mk.inj hlook
  cases there with
  | false =>
    rw [if_neg Bool.false_ne_true, Run.perform_requests] at h
    obtain ⟨hmade, rfl⟩ := Prod.mk.inj h
    exact .inl (Prod.ext (orFail_eq_ok.1 hmade) rfl)
  | true =>
    rw [if_pos rfl, Run.perform_bind_ok _ (Run.perform_say _ _)] at h
    obtain ⟨_, w₂, hremove, h⟩ := Run.perform_bind_eq_ok h
    rw [Run.perform_requests] at hremove h
    obtain ⟨hremoved, rfl⟩ := Prod.mk.inj hremove
    obtain ⟨hmade, rfl⟩ := Prod.mk.inj h
    exact .inr ⟨_, Prod.ext (orFail_eq_ok.1 hremoved) rfl, Prod.ext (orFail_eq_ok.1 hmade) rfl⟩

/-- A directory that has been made anew was cleared. -/
theorem freshen_ok [Interpreter] {directory : Path} {w w' : World} (hsound : w.disk.Sound)
    (h : (freshen directory).perform w = (.ok (), w')) :
    ∃ place base, Disk.Cleared directory place w.disk base ∧
      w'.disk = base.put place .directory := by
  rcases freshen_done h with hmade | ⟨emptied, hremoved, hmade⟩
  · exact Disk.cleared_of_missing hsound hmade
  · exact Disk.cleared_of_removed hsound hremoved hmade

/-- A directory that has been filled is given back, with the archive unpacked into it. -/
theorem fill_ok [Interpreter] {archive directory path : Path} {w w' : World}
    (h : (fill archive directory).perform w = (.ok path, w')) :
    path = directory ∧ Archive.unpack w.disk archive directory = (.ok (), w'.disk) := by
  unfold fill at h
  obtain ⟨_, w₁, hstep, hrest⟩ := Run.perform_bind_eq_ok h
  rw [Run.perform_step] at hstep
  obtain ⟨hunpacked, rfl⟩ := Prod.mk.inj hstep
  rw [Run.perform_bind_ok _ (Run.perform_say _ _), Run.perform_pure] at hrest
  obtain ⟨hpath, rfl⟩ := Prod.mk.inj hrest
  exact ⟨(Except.ok.inj hpath).symm, Prod.ext hunpacked rfl⟩

/-- What is installed was unpacked into a cleared directory under a root that is one. -/
theorem installArtifact_ok [Interpreter] {host path : Path} {artifact : Artifact} {w left : World}
    (hsound : w.disk.Sound) (h : (installArtifact host artifact).perform w = (.ok path, left)) :
    path = pluginDirectory host artifact.name artifact.version ∧
      w.disk.isDirectory? host = .ok true ∧
      ∃ place base, Disk.Cleared path place w.disk base ∧
        ((freshen path).perform w).2.disk = base.put place .directory ∧
        Archive.unpack (base.put place .directory) artifact.archive path =
          (.ok (), left.disk) := by
  rw [perform_installArtifact] at h
  rcases hhost : w.disk.isDirectory? host with fault | there
  · rw [hhost] at h
    cases h
  rw [hhost] at h
  cases there with
  | false => cases h
  | true =>
    obtain ⟨_, w₁, hfresh, hfill⟩ := Run.perform_bind_eq_ok h
    obtain ⟨place, base, hcleared, hdisk⟩ := freshen_ok hsound hfresh
    obtain ⟨rfl, hunpacked⟩ := fill_ok hfill
    refine ⟨rfl, rfl, place, base, hcleared, ?_, hdisk ▸ hunpacked⟩
    rw [hfresh]
    exact hdisk

/-- However unpacking into a cleared directory ends, the disk is sound and the directory there. -/
theorem holds_of_unpacked [Interpreter] {path : Path} {place : Place} {disk base : Disk}
    (hcleared : Disk.Cleared path place disk base) (archive : Path) :
    Disk.Holds place (Archive.unpack (base.put place .directory) archive path).2
      (Archive.unpack (base.put place .directory) archive path).2 := by
  have hstart : Disk.Holds place (base.put place .directory) (base.put place .directory) :=
    ⟨rfl, hcleared.sound_put, Disk.get?_put_self hcleared.ne_root _ _⟩
  exact (Archive.unpack_carried (Disk.holds_carried place) hstart archive path).2

section Freshen

variable [Interpreter] {directory : Path} {place : Place} {w : World} {emptied : Disk}
  (hfind : w.disk.find false directory = .ok (place, .directory))
include hfind

/-- A directory that is there is removed before it is made. -/
theorem perform_freshen_there : (freshen directory).perform w =
    (do
      Run.requests fun disk => disk.removeTree directory
      Run.requests fun disk => disk.makeDirectories false directory).perform { w with
        messages := w.messages ++
          [Message.debug ("Removing previous install at " ++ directory.text)] } := by
  have hthere : w.disk.exists? directory = .ok true := by
    unfold Disk.exists? Disk.test
    rw [Disk.find_through hfind]
  unfold freshen
  rw [Run.perform_bind, Run.perform_look, hthere]
  dsimp only [orFail]
  rw [if_pos rfl, Run.perform_bind_ok _ (Run.perform_say _ _)]

/-- A directory that can be removed and made is made anew. -/
theorem perform_freshen {fresh : Disk}
    (hremoved : w.disk.removeTree directory = (.ok (), emptied))
    (hmade : emptied.makeDirectories false directory = (.ok (), fresh)) :
    ∃ w', (freshen directory).perform w = (.ok (), w') ∧ w'.disk = fresh := by
  refine ⟨{ w with
    disk := fresh
    messages := w.messages ++ [.debug ("Removing previous install at " ++ directory.text)] },
    ?_, rfl⟩
  rw [perform_freshen_there hfind, Run.perform_bind, Run.perform_requests]
  dsimp only
  rw [hremoved]
  dsimp only [orFail]
  rw [Run.perform_requests]
  dsimp only
  rw [hmade]
  rfl

/-- A directory that cannot be removed is not made anew. -/
theorem perform_freshen_stuck {fault : Disk.Fault}
    (hstuck : w.disk.removeTree directory = (.error fault, emptied)) :
    ∃ w', (freshen directory).perform w = (.error (.disk fault), w') := by
  rw [perform_freshen_there hfind, Run.perform_bind, Run.perform_requests]
  dsimp only
  rw [hstuck]
  exact ⟨_, rfl⟩

end Freshen

/-- A directory into which an archive can be unpacked is filled. -/
theorem perform_fill [Interpreter] {archive directory : Path} {w : World} {left : Disk}
    (h : Archive.unpack w.disk archive directory = (.ok (), left)) :
    ∃ w', (fill archive directory).perform w = (.ok directory, w') ∧ w'.disk = left := by
  refine ⟨{ w with
    disk := left
    messages := w.messages ++ [.success ("Installed to " ++ directory.text)] }, ?_, rfl⟩
  unfold fill
  rw [Run.perform_bind, Run.perform_step, h]
  rfl

/-! ## The root of a host -/

/-- Under a root that is no directory nothing is installed and nothing changes. -/
theorem installArtifact_no_host [Interpreter] {host : Path} {artifact : Artifact} {w : World}
    (h : ∀ place, w.disk.find true host ≠ .ok (place, .directory)) :
    ∃ failure, (installArtifact host artifact).perform w = (.error failure, w) ∧
      (failure = .problem (.hostMissing host) ∨
        failure = .disk (.refused .nameTooLong host) ∧
          w.disk.find true host = .error (.refused .nameTooLong host)) := by
  rw [perform_installArtifact]
  rcases hhost : w.disk.isDirectory? host with fault | there
  · refine ⟨_, rfl, .inr ?_⟩
    unfold Disk.isDirectory? Disk.test at hhost
    rcases hfind : w.disk.find true host with other | found
    · rw [hfind] at hhost
      dsimp only at hhost
      split at hhost
      · cases hhost
      next hpresence =>
        cases hhost
        rcases Disk.find_fault hfind with habsence | rfl
        · exact absurd habsence hpresence
        · exact ⟨rfl, rfl⟩
    · rw [hfind] at hhost
      cases hhost
  · cases there with
    | false => exact ⟨_, rfl, .inl rfl⟩
    | true =>
      obtain ⟨place, hfind⟩ := Disk.isDirectory?_eq_true.1 hhost
      exact absurd hfind (h place)

/-- A path that is the beginning of one that leads somewhere leads to a directory. -/
theorem find_of_longer {disk : Disk} {through : Bool} {path : Path} {rest : List Text} {q : Place}
    (hgivable : Disk.IsGivable path) (hrest : rest ≠ [])
    (h : disk.locate through ⟨path.root, path.names ++ rest⟩ = .ok q) :
    ∃ place, disk.find true path = .ok (place, .directory) := by
  have hread : Disk.readNames ⟨path.root, path.names ++ rest⟩ =
      Disk.readNames path ++ rest.map Utf8.canonical := List.map_append
  have hrest' : rest.map Utf8.canonical ≠ [] := by simpa using hrest
  obtain ⟨-, hwalk⟩ := Disk.walk_of_locate h
  rw [hread] at hwalk
  obtain ⟨-, -, place, harrives, hdirectory, -⟩ := Disk.walk_append hrest' hwalk
  exact ⟨place, Disk.find_eq_ok.2 ⟨Disk.locate_of_walk hgivable harrives, hdirectory⟩⟩

/-- The directory of a release is below the root of its host. -/
theorem pluginDirectory_eq (host : Path) (name version : Text) :
    pluginDirectory host name version =
      ⟨host.root,
        host.names ++ pluginsName :: Path.namesOf (pluginDirectoryName name version)⟩ := by
  have hrelative : (Path.ofText (pluginDirectoryName name version)).isAbsolute = false := rfl
  unfold pluginDirectory Path.join
  rw [hrelative]
  simp [Path.child, Path.ofText]

/-! ## A small host -/

/-- The root of a small host. -/
def smallHost : Path := ⟨.single, ["h"]⟩

/-- An artifact whose archive is at the root of the disk. -/
def smallArtifact : Artifact := ⟨⟨.single, ["t"]⟩, ⟨.single, ["a"]⟩, "n", "1"⟩

/-- The directory of the artifact's release. -/
def smallPlace : Place := ["h", "plugins", "provider-n-v1"]

/-- A host without a release, beside an archive of a directory, a file in it and a link to that. -/
def bareDisk : Disk where
  entries :=
    [(["h"], .directory),
     (["h", "plugins"], .directory),
     (["a"], .file .usual (.archive
       [.directory "d", .file "d/f" .usual (.bytes [65]), .link "l" "d/f"]))]

/-- Whether an artifact is installed in a world. -/
def isInstalled [Interpreter] (host : Path) (artifact : Artifact) (w : World) : Bool :=
  match ((installArtifact host artifact).perform w).1 with
  | .ok path => path == pluginDirectory host artifact.name artifact.version
  | .error _ => false

/-- An artifact that is found to be installed is installed. -/
theorem installed_of_check [Interpreter] {host : Path} {artifact : Artifact} {w : World}
    (h : isInstalled host artifact w = true) :
    ∃ left, (installArtifact host artifact).perform w =
      (.ok (pluginDirectory host artifact.name artifact.version), left) := by
  unfold isInstalled at h
  rcases hperform : (installArtifact host artifact).perform w with ⟨failure | path, left⟩
  · rw [hperform] at h
    cases h
  · rw [hperform] at h
    exact ⟨left, by rw [beq_iff_eq.1 h]⟩

/-- Whether a run ends with a failure of a kind. -/
def endsWith {α : Type} (kind : Failure → Bool) : Except Failure α → Bool
  | .ok _ => false
  | .error failure => kind failure

/-- Disks that are equal without a tree are the same outside it. -/
theorem sameOutside_of_eraseTree {place : Place} {disk other : Disk}
    (h : other.eraseTree place = disk.eraseTree place) : Disk.SameOutside place disk other := by
  refine ⟨fun p hp => ?_, fun p q hp hq => ?_⟩
  · rw [← Disk.get?_eraseTree_of_not_below hp other, h, Disk.get?_eraseTree_of_not_below hp]
  · have hmem := congrArg (fun disk : Disk => q ∈ disk.sharers p) h
    simp only [Disk.sharers_eraseTree hp, List.mem_filter,
      Disk.not_isPrefixOf_iff.2 hq, and_true, eq_iff_iff] at hmem
    exact hmem

end Install

end ProviderKit
