import ProviderKit.Proofs.Archive.Canonical
import ProviderKit.Proofs.Archive.Filling
import ProviderKit.Proofs.Disk.Compared
import ProviderKit.Proofs.Install.Steps
import ProviderKit.Proofs.Path.Shown

/-!
# An installed tree is the tree that was packed

What is packed is installed again: the directory of a release holds, in the end, the entries of the
tree that was packed, each under the same names, with the same bytes and the same targets, and
nothing else (`installArtifact_restores`). Both parts of the way are said to succeed: the tree is
packed, and whatever happens in between, the archive is unpacked.
-/

namespace ProviderKit

namespace Install

open Archive (Portable Settled Nests unpackedEntry)

/-- When a tree has been packed for an artifact, there is the root of a host, under which the
directory of the release can be made anew, and the archive is still found then. The links on the way
to the directory have paths that are short enough to ask for them. -/
structure Receives [Interpreter] (host : Path) (artifact : Artifact) (packed v fresh : World) :
    Prop where
  regular : v.disk.Regular
  /-- The path of the root has names that can be read from a text. -/
  parts : ∀ name ∈ host.names, name ≠ [] ∧ .char '/' ∉ name
  hosted : v.disk.isDirectory? host = .ok true
  freshens : (freshen (pluginDirectory host artifact.name artifact.version)).perform v =
    (.ok (), fresh)
  kept : fresh.disk.read artifact.archive = packed.disk.read artifact.archive
  near : ∃ target, fresh.disk.nameable.find true
    (pluginDirectory host artifact.name artifact.version) = .ok (target, .directory)

/-- The entries of a tree can be named by paths below a directory. -/
def Fits (disk : Disk) (place : Place) (directory : Path) : Prop :=
  ∀ x entry, disk.get? (place ++ x) = some entry →
    Disk.IsGivable ⟨directory.root, directory.names ++ x⟩

/-- A disk is still as a machine keeps it when the directory of a release has been made anew. -/
theorem Receives.regular_fresh [Interpreter] {host : Path} {artifact : Artifact}
    {packed v fresh : World} (h : Receives host artifact packed v fresh) : fresh.disk.Regular := by
  have hparts : ∀ name ∈ (pluginDirectory host artifact.name artifact.version).names,
      name ≠ [] ∧ .char '/' ∉ name := by
    intro name hname
    rw [pluginDirectory_eq] at hname
    rcases List.mem_append.1 hname with hhost | hbelow
    · exact h.parts name hhost
    rcases List.mem_cons.1 hbelow with rfl | hrelease
    · exact ⟨by decide, by decide⟩
    · have hpiece := Path.isPiece_of_mem_namesOf hrelease
      exact ⟨hpiece.nonempty, hpiece.slashless⟩
  rcases freshen_done h.freshens with hmade | ⟨emptied, hremoved, hmade⟩
  · have hregular := h.regular.makeDirectories hparts false
    rwa [hmade] at hregular
  · obtain ⟨place, -, -, rfl⟩ := Disk.removeTree_eq hremoved
    have hregular := (h.regular.eraseTree place).makeDirectories hparts false
    rwa [hmade] at hregular

/-- A portable tree, in which no two slashes follow a link into a loop and links do not nest too
deep, is packed if every entry can be. Later it is installed under the root of a host, if no path
gets too long there, and then the directory of the release holds it: the same entries at the same
places, each file under one name, while outside the directory all is as it was. -/
theorem installArtifact_restores [Interpreter] {source host : Path} {artifact : Artifact}
    {w : World} {opened : Disk} {place : Place}
    (hpackable : Archive.Packable w.disk opened source artifact.archive place)
    (hreached : Archive.Reached opened source place) (hportable : Portable opened place)
    (hsettled : Settled opened place) (hnested : Nests opened place Interpreter.resolving) :
    ∃ packed, (Archive.pack source artifact.archive).perform w = (.ok (), packed) ∧
      ∀ v fresh, Receives host artifact packed v fresh →
        Fits opened place (pluginDirectory host artifact.name artifact.version) →
        ∃ target left, (installArtifact host artifact).perform v =
            (.ok (pluginDirectory host artifact.name artifact.version), left) ∧
          left.disk.find false (pluginDirectory host artifact.name artifact.version) =
            .ok (target, .directory) ∧
          (∀ x, left.disk.get? (target ++ x) =
            (opened.get? (place ++ x)).map unpackedEntry) ∧
          (∀ x, left.disk.sharers (target ++ x) = [target ++ x]) ∧
          Disk.SameOutside target fresh.disk left.disk := by
  -- What is in the archive.
  have hopened := hpackable.regular_opened
  obtain ⟨archived, -, hpack, -, hlisted⟩ := hpackable.packs
  obtain ⟨hobstacle, hall⟩ := hpackable.packs_all hreached
  rw [hobstacle] at hpack
  rw [hall] at hlisted
  refine ⟨_, hpack w rfl, fun v fresh hreceives hfits => ?_⟩
  -- What it is unpacked into.
  obtain ⟨target, base, hcleared, hdisk⟩ :=
    freshen_ok hreceives.regular.toSound hreceives.freshens
  have hfound := hdisk ▸ hcleared.find_put
  have hempty : ∀ x, x ≠ [] → fresh.disk.get? (target ++ x) = none := fun x hx =>
    hdisk ▸ hcleared.empty (List.prefix_append _ _) (by simpa using hx)
  have hnear : fresh.disk.nameable.find true
      (pluginDirectory host artifact.name artifact.version) = .ok (target, .directory) := by
    obtain ⟨near, hnear⟩ := hreceives.near
    have hsame := Disk.find_directory_of_extended fresh.disk.nameable_extended hnear
    rw [Disk.find_through hfound] at hsame
    rw [hnear, hsame]
  have hready : Archive.Ready opened place fresh.disk target
      (pluginDirectory host artifact.name artifact.version) :=
    ⟨hopened.toWellFormed, hportable, hsettled, hnested, hreceives.regular_fresh, hnear, hempty,
      hfits⟩
  obtain ⟨final, hunpacked, hfilling⟩ := Archive.unpack_fills hready
    (hopened.toOrderly.lists_below place) (hreceives.kept.trans hlisted)
  obtain ⟨left, hfill, hleft⟩ := perform_fill hunpacked
  subst hleft
  refine ⟨target, left, ?_, ?_, fun x => ?_, fun x => ?_, hfilling.outside, fun p q _ _ => ?_⟩
  · rw [perform_installArtifact, hreceives.hosted]
    dsimp only
    rw [Run.perform_bind_ok _ hreceives.freshens, hfill]
  · exact Disk.find_eq_ok.2
      ⟨Disk.locate_kept (hfilling.extended hready) (Disk.find_eq_ok.1 hfound).1, hfilling.directory⟩
  · by_cases hx : x = []
    · rw [hx, List.append_nil, List.append_nil, hfilling.directory,
        (Disk.find_eq_ok.1 hpackable.found).2]
      rfl
    · refine Option.ext fun entry => ?_
      rw [hfilling.inside x entry hx, Option.map_eq_some_iff]
      refine exists_congr fun packed => ?_
      rw [hopened.toOrderly.mem_below, and_iff_right hx, eq_comm (a := entry)]
  · rw [hfilling.sharers]
    refine hready.base.toWellFormed.sharers_of_no_file fun mode content hfile => ?_
    by_cases hx : x = []
    · rw [hx, List.append_nil, (Disk.find_eq_ok.1 hfound).2] at hfile
      cases hfile
    · rw [hempty x hx] at hfile
      cases hfile
  · rw [hfilling.sharers]

/-! ## On a small host -/

/-- The directory that is packed on a small disk. -/
def smallSource : Path := ⟨.single, ["s"]⟩

/-- The root of a host beside a tree with a file in a directory and links: to the file, by that link
upwards and with slashes behind it, round a loop, by itself, and to nothing. -/
def treeDisk : Disk where
  entries :=
    [(["h"], .directory),
     (["s"], .directory),
     (["s", "d"], .directory),
     (["s", "d", "f"], .file .runnable (.bytes [65, 255])),
     (["s", "d", "u"], .link "../e"),
     (["s", "e"], .link "d/f"),
     (["s", "g"], .link "e//"),
     (["s", "o"], .link "o"),
     (["s", "p"], .link "./o/"),
     (["s", "q"], .link "q/x/../../n")]

/-- The world in which the tree on a disk has been packed for the small artifact. -/
def packedFrom [Interpreter] (disk : Disk) : World :=
  ((Archive.pack smallSource smallArtifact.archive).perform ⟨disk, [], [], []⟩).2

/-- The world in which the directory of the release has been made anew after that. -/
def freshFrom [Interpreter] (disk : Disk) (host : Path) : World :=
  ((freshen (pluginDirectory host "n" "1")).perform (packedFrom disk)).2

/-- Whether something was done. -/
def isDone {α : Type} : Except Failure α → Bool
  | .ok _ => true
  | .error _ => false

/-- Something that is found to be done is done. -/
theorem done_of_check {run : Run Unit} {w : World} (h : isDone (run.perform w).1 = true) :
    run.perform w = (.ok (), (run.perform w).2) := by
  rcases hperform : run.perform w with ⟨_ | _, left⟩
  · rw [hperform] at h
    cases h
  · rfl

/-- Whether the tree on a disk can be packed for the small artifact. -/
def isSendable [Interpreter] (disk : Disk) : Bool :=
  Archive.isPackable disk smallSource smallArtifact.archive ["s"] &&
    Archive.isReached (disk.makeDirectories true smallArtifact.archive.parent).2 smallSource
      ["s"] &&
    Archive.isPortable (disk.makeDirectories true smallArtifact.archive.parent).2 ["s"]

/-- A tree can be packed, links and all. -/
structure Sendable [Interpreter] (disk opened : Disk) : Prop where
  packable : Archive.Packable disk opened smallSource smallArtifact.archive ["s"]
  reached : Archive.Reached opened smallSource ["s"]
  portable : Portable opened ["s"]

/-- A tree can be checked to be sendable. -/
theorem sendable_of_check [Interpreter] {disk : Disk} (h : isSendable disk = true) :
    Sendable disk (disk.makeDirectories true smallArtifact.archive.parent).2 := by
  simp only [isSendable, Bool.and_eq_true] at h
  obtain ⟨⟨hpackable, hreached⟩, hportable⟩ := h
  have hpackable := Archive.packable_of_check hpackable
  exact ⟨hpackable, Archive.reached_of_check hpackable.regular_opened hreached,
    Archive.portable_of_check hportable⟩

/-- Whether a host receives the small artifact when the tree on a disk has been packed. -/
def isReceived [Interpreter] (disk : Disk) (host : Path) : Bool :=
  (packedFrom disk).disk.isRegular &&
    host.names.all (fun name => !name.isEmpty && !name.contains (.char '/')) &&
    (match (packedFrom disk).disk.isDirectory? host with
      | .ok there => there
      | .error _ => false) &&
    isDone ((freshen (pluginDirectory host "n" "1")).perform (packedFrom disk)).1 &&
    (match (freshFrom disk host).disk.read smallArtifact.archive,
        (packedFrom disk).disk.read smallArtifact.archive with
      | .ok content, .ok content' => content.same content'
      | _, _ => false) &&
    match (freshFrom disk host).disk.nameable.find true (pluginDirectory host "n" "1") with
      | .ok (_, entry) => entry.isDirectory
      | .error _ => false

/-- A host can be checked to receive the artifact. -/
theorem receives_of_check [Interpreter] {disk : Disk} {host : Path}
    (h : isReceived disk host = true) :
    Receives host smallArtifact (packedFrom disk) (packedFrom disk) (freshFrom disk host) := by
  simp only [isReceived, Bool.and_eq_true] at h
  obtain ⟨⟨⟨⟨⟨hregular, hparts⟩, hhost⟩, hfreshens⟩, harchive⟩, hnear⟩ := h
  refine ⟨Disk.regular_of_check hregular, fun name hname => ?_, ?_, done_of_check hfreshens, ?_, ?_⟩
  · simpa using List.all_eq_true.1 hparts name hname
  · split at hhost
    next there hthere => rw [hthere, hhost]
    next => cases hhost
  · split at harchive
    next content content' hread hread' => rw [hread, hread', (Content.same_iff _ _).1 harchive]
    next => cases harchive
  · split at hnear
    next target entry hfind =>
      cases entry with
      | directory => exact ⟨target, hfind⟩
      | file => cases hnear
      | link => cases hnear
    next => cases hnear

/-- Whether all entries of a tree can be named by paths below a directory. -/
def fits (disk : Disk) (place : Place) (directory : Path) : Bool :=
  disk.allBelow place fun x _ =>
    decide (Disk.IsGivable ⟨directory.root, directory.names ++ x⟩)

/-- A tree can be checked to fit into a directory. -/
theorem fits_of_check {disk : Disk} {place : Place} {directory : Path}
    (h : fits disk place directory = true) : Fits disk place directory :=
  fun _ _ hget => of_decide_eq_true (Disk.of_allBelow h hget)

/-- The tree beside the small host is packed, and installed as it was. -/
theorem installArtifact_restores_small :
    ∃ packed target left,
      (Archive.pack smallSource smallArtifact.archive).perform ⟨treeDisk, [], [], []⟩ =
        (.ok (), packed) ∧
      (installArtifact smallHost smallArtifact).perform packed =
        (.ok (pluginDirectory smallHost "n" "1"), left) ∧
      ∀ x, left.disk.get? (target ++ x) =
        (treeDisk.get? ((["s"] : Place) ++ x)).map unpackedEntry := by
  have hchecks : (isSendable treeDisk && isReceived treeDisk smallHost &&
      Archive.isSettled treeDisk ["s"] &&
      fits treeDisk ["s"] (pluginDirectory smallHost "n" "1")) = true := by
    decide +kernel
  simp only [Bool.and_eq_true] at hchecks
  obtain ⟨⟨⟨hsendable, hreceived⟩, hsettled⟩, hfits⟩ := hchecks
  have hsendable := sendable_of_check hsendable
  have hnested : Nests treeDisk ["s"] Interpreter.resolving :=
    Archive.nests_of_few ["s"] (by decide)
  obtain ⟨packed, hpacked, hinstalls⟩ :=
    @installArtifact_restores _ smallSource smallHost smallArtifact ⟨treeDisk, [], [], []⟩ _ _
      hsendable.packable hsendable.reached hsendable.portable
      (Archive.settled_of_check hsettled) hnested
  obtain rfl : packedFrom treeDisk = packed := congrArg Prod.snd hpacked
  obtain ⟨target, left, hinstalled, -, hview, -⟩ :=
    hinstalls _ _ (receives_of_check hreceived) (fits_of_check hfits)
  exact ⟨_, target, left, hpacked, hinstalled, hview⟩

/-! ## What stands in the way -/

/-- A tree in which two slashes follow a link round a loop, beside the root of a host. -/
def loopDisk : Disk where
  entries :=
    [(["h"], .directory),
     (["s"], .directory),
     (["s", "a"], .link "a"),
     (["s", "b"], .link "a//")]

/-- A name nearly as long as a name can be, of characters with four bytes each. -/
def longName : Text := Text.ofChars (List.replicate 63 (Char.ofNat 0x10000))

/-- The root of the host, behind a long way that leads into a directory and back. -/
def farHost : Path :=
  ⟨.single, (List.replicate 15 [longName, Text.ofString ".."]).flatten ++ [Text.ofString "h"]⟩

/-- A tree with one file, beside the root of a host and another directory; their names are long. -/
def farDisk : Disk where
  entries :=
    [(["h"], .directory),
     ([longName], .directory),
     (["s"], .directory),
     (["s", longName], .file .usual (.bytes [65]))]

/-- A portable tree is not installed if two slashes follow a link into a loop: the link is then said
to lead outside. Nor is it if a path is too long, although the directory of the release could be
made anew. -/
theorem installArtifact_restores_fails :
    (Sendable loopDisk loopDisk ∧ Nests loopDisk ["s"] Interpreter.resolving ∧
      Receives smallHost smallArtifact (packedFrom loopDisk) (packedFrom loopDisk)
        (freshFrom loopDisk smallHost) ∧
      Fits loopDisk ["s"] (pluginDirectory smallHost "n" "1") ∧
      endsWith (fun failure => failure matches .archive .linkOutside)
        ((installArtifact smallHost smallArtifact).perform (packedFrom loopDisk)).1 = true) ∧
    Sendable farDisk farDisk ∧ Settled farDisk ["s"] ∧
      Nests farDisk ["s"] Interpreter.resolving ∧
      Receives farHost smallArtifact (packedFrom farDisk) (packedFrom farDisk)
        (freshFrom farDisk farHost) ∧
      endsWith (fun failure => failure matches .disk (.refused .nameTooLong _))
        ((installArtifact farHost smallArtifact).perform (packedFrom farDisk)).1 = true := by
  have hloop : (isSendable loopDisk && isReceived loopDisk smallHost &&
      fits loopDisk ["s"] (pluginDirectory smallHost "n" "1")) = true := by
    decide +kernel
  have hfar : (isSendable farDisk && isReceived farDisk farHost &&
      Archive.isSettled farDisk ["s"]) = true := by
    decide +kernel
  simp only [Bool.and_eq_true] at hloop hfar
  obtain ⟨⟨hsendable, hreceived⟩, hfits⟩ := hloop
  obtain ⟨⟨hsendable', hreceived'⟩, hsettled⟩ := hfar
  exact ⟨⟨sendable_of_check hsendable, Archive.nests_of_few ["s"] (by decide),
      receives_of_check hreceived, fits_of_check hfits, by decide +kernel⟩,
    sendable_of_check hsendable', Archive.settled_of_check hsettled,
    Archive.nests_of_few ["s"] (by decide), receives_of_check hreceived', by decide +kernel⟩

end Install

end ProviderKit
