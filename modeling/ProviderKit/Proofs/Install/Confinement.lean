import ProviderKit.Proofs.Archive.Accepted
import ProviderKit.Proofs.Disk.Regular
import ProviderKit.Proofs.Install.Freshening
import ProviderKit.Proofs.Install.Replacement

/-!
# An archive stays in the directory of its release

Installing a release changes what is at or below its directory, and nothing else but that the
directory of all releases comes if it was missing, whatever the archive holds and however the
installation ends (`installArtifact_confined`): what a release installed before holds is removed and
not followed, and the directory is empty when the archive is unpacked. It takes for granted that no
name in the archive goes up, and that no link outside leads into the directory. A name that goes up
and comes back passes the check of what it leads to, but the directories that it goes through are
made on the way (`installArtifact_escapes`).
-/

namespace ProviderKit

namespace Disk

/-- A disk on which a directory has been made anew under names is still one as a machine keeps it.
-/
theorem Enters.cleared_regular {disk base : Disk} {host : Path} {root place : Place}
    {top name : Text} (hhost : Enters disk host root) (htop : IsName (Utf8.canonical top))
    (hname : IsPlain (Utf8.canonical name)) (hsome : name ≠ []) (hslashless : .char '/' ∉ name)
    (hregular : disk.Regular)
    (hcleared : Cleared ((host.child top).child name) place disk base) :
    (base.put place .directory).Regular := by
  obtain ⟨-, hchanges⟩ := hhost.cleared_nested htop.plain hname hregular.toSound hcleared
  have hbase : base.Regular := by
    refine hregular.of_new hcleared.sound fun p entry hp => ?_
    have hout := hcleared.sound.not_below_of_free hcleared.free hp
    rcases hchanges p hout with hsame | ⟨rfl, -, hcame, -⟩
    · exact .inl (hsame ▸ hp)
    · rw [hcame] at hp
      obtain rfl := Option.some.inj hp
      exact .inr ⟨rfl, fun _ => ⟨root, _, rfl, by simp [hhost.directory], htop⟩⟩
  refine hbase.of_new hcleared.sound_put fun p entry hp => ?_
  by_cases hat : p = place
  · rw [hat, get?_put_self hcleared.ne_root] at hp
    obtain rfl := Option.some.inj hp
    exact .inr ⟨rfl, fun hfree =>
      hbase.new_child hsome hslashless (hat ▸ hcleared.located) hfree⟩
  · rw [get?_put_of_ne hat] at hp
    exact .inl hp

namespace Cleared

variable {path : Path} {place : Place} {disk base : Disk}

/-- At and below a directory that has been cleared there is nothing else. -/
theorem bare (h : Cleared path place disk base) {q : Place} {entry : Entry} (hbelow : place <+: q)
    (hget : (base.put place .directory).get? q = some entry) : entry = .directory := by
  by_cases hat : q = place
  · rw [hat, get?_put_self h.ne_root] at hget
    exact (Option.some.inj hget).symm
  · rw [h.empty hbelow hat] at hget
    cases hget

/-- Nothing in a directory that has been cleared shares with what is outside. -/
theorem apart (h : Cleared path place disk base) {p q : Place} (hbelow : place <+: p)
    (hq : q ∈ (base.put place .directory).sharers p) : place <+: q := by
  rw [h.sound_put.toWellFormed.sharers_of_no_file fun mode content hfile => by
    cases h.bare hbelow hfile] at hq
  exact List.mem_singleton.1 hq ▸ hbelow

end Cleared

end Disk

namespace Install

/-- However filling a directory ends, the disk is what unpacking leaves. -/
theorem fill_disk [Interpreter] (archive directory : Path) (w : World) :
    ((fill archive directory).perform w).2.disk = (Archive.unpack w.disk archive directory).2 := by
  unfold fill
  rw [Run.perform_bind, Run.perform_step]
  rcases (Archive.unpack w.disk archive directory).1 with failure | ⟨⟩ <;> rfl

/-- The second disk is the first one with a directory made anew, by its name among the releases: it
is empty, and outside it nothing has changed but that the directory of the releases has come. -/
structure Renewed (directory : Path) (releases : Place) (name : Text)
    (disk fresh : Disk) : Prop where
  regular : fresh.Regular
  found : fresh.find false directory = .ok (releases ++ [name], .directory)
  empty : ∀ q, releases ++ [name] <+: q → q ≠ releases ++ [name] → fresh.get? q = none
  apart : ∀ p q, releases ++ [name] <+: p → q ∈ fresh.sharers p → releases ++ [name] <+: q
  previous : disk.get? (releases ++ [name]) = none ∨
    disk.get? (releases ++ [name]) = some .directory
  outside : ∀ q, ¬ releases ++ [name] <+: q → fresh.get? q = disk.get? q ∨
    q = releases ∧ disk.get? q = none ∧ fresh.get? q = some .directory ∧
      ∃ root, releases = root ++ [Utf8.canonical pluginsName] ∧ disk.get? root = some .directory

namespace Renewed

variable {directory : Path} {releases : Place} {name : Text} {disk fresh : Disk}

/-- The new directory is there. -/
theorem directory_new (h : Renewed directory releases name disk fresh) :
    fresh.get? (releases ++ [name]) = some .directory := (Disk.find_eq_ok.1 h.found).2

/-- At and below it there is nothing else. -/
theorem bare (h : Renewed directory releases name disk fresh) {q : Place} {entry : Entry}
    (hbelow : releases ++ [name] <+: q) (hget : fresh.get? q = some entry) :
    entry = .directory := by
  by_cases hat : q = releases ++ [name]
  · rw [hat, h.directory_new] at hget
    exact (Option.some.inj hget).symm
  · rw [h.empty q hbelow hat] at hget
    cases hget

/-- Outside it there are the links that were there before. -/
theorem links (h : Renewed directory releases name disk fresh) {q : Place} {target : Text}
    (hout : ¬ releases ++ [name] <+: q) :
    fresh.get? q = some (.link target) ↔ disk.get? q = some (.link target) := by
  rcases h.outside q hout with hsame | ⟨-, hfree, hcame, -⟩
  · rw [hsame]
  · simp [hfree, hcame]

end Renewed

/-- Making the directory of a release anew renews it among the releases. -/
theorem renewed_of_freshen [Interpreter] {host : Path} {root : Place} {name version : Text}
    {w w₁ : World} (hregular : w.disk.Regular)
    (hhost : w.disk.find true host = .ok (root, .directory)) (hname : .char '/' ∉ name)
    (hversion : .char '/' ∉ version)
    (h : (freshen (pluginDirectory host name version)).perform w = (.ok (), w₁)) :
    ∃ releases, w.disk.locate true (host.child pluginsName) = .ok releases ∧
      Renewed (pluginDirectory host name version) releases
        (Utf8.canonical (pluginDirectoryName name version)) w.disk w₁.disk := by
  obtain ⟨place, base, hcleared, hdisk⟩ := freshen_ok hregular.toSound h
  have henters : Disk.Enters w.disk host root := by
    obtain ⟨hlocate, hdirectory⟩ := Disk.find_eq_ok.1 hhost
    exact ⟨(Disk.walk_of_locate hlocate).2, hdirectory⟩
  have htop : Disk.IsName (Utf8.canonical pluginsName) := Disk.isName_of_check (by decide +kernel)
  have hplain := isPlain_pluginDirectoryName name version
  have hfound := hcleared.find_put
  rw [pluginDirectory_child hname hversion] at hcleared
  obtain ⟨⟨releases, hled, rfl⟩, hchanges⟩ :=
    henters.cleared_nested htop.plain hplain hregular.toSound hcleared
  have hmade := henters.cleared_regular htop hplain (List.cons_ne_nil _ _)
    (slashless_pluginDirectoryName hname hversion) hregular hcleared
  refine ⟨releases, hled, ?_⟩
  rw [hdisk]
  refine ⟨hmade, hfound, fun q => hcleared.empty, fun p q => hcleared.apart, hcleared.previous,
    fun q hout => ?_⟩
  rw [Disk.get?_put_of_ne (by rintro rfl; exact hout (List.prefix_refl _))]
  rcases hchanges q hout with hsame | ⟨hq, hfree, hcame, hlocate⟩
  · exact .inl hsame
  · rw [hled] at hlocate
    obtain rfl := Except.ok.inj hlocate
    exact .inr ⟨rfl, hfree, hcame, root, hq, henters.directory⟩

/-- An installation changes what is under the directory of its release, if unpacking the archive
into the renewed directory does. -/
theorem installArtifact_changes [Interpreter] {host : Path} {artifact : Artifact} {w : World}
    (hregular : w.disk.Regular) (hname : .char '/' ∉ artifact.name)
    (hversion : .char '/' ∉ artifact.version)
    (hunpack : ∀ releases fresh, w.disk.locate true (host.child pluginsName) = .ok releases →
      ((freshen (pluginDirectory host artifact.name artifact.version)).perform w).2.disk = fresh →
      let directory := pluginDirectory host artifact.name artifact.version
      let name := Utf8.canonical (pluginDirectoryName artifact.name artifact.version)
      Renewed directory releases name w.disk fresh → ∀ q, ¬ releases ++ [name] <+: q →
        (Archive.unpack fresh artifact.archive directory).2.get? q = fresh.get? q) :
    Disk.ChangedUnder (host.child pluginsName)
      (pluginDirectoryName artifact.name artifact.version) w.disk
      ((installArtifact host artifact).perform w).2.disk := by
  have hunchanged : ∀ path name, Disk.ChangedUnder path name w.disk w.disk :=
    fun _ _ q hq => absurd rfl hq
  rw [perform_installArtifact]
  rcases hhost : w.disk.isDirectory? host with fault | _ | _
  · exact hunchanged _ _
  · exact hunchanged _ _
  obtain ⟨root, hfind⟩ := Disk.isDirectory?_eq_true.1 hhost
  have hfresh := freshen_changes hregular.toSound hfind hname hversion
  dsimp only
  rcases hperform : (freshen (pluginDirectory host artifact.name artifact.version)).perform w with
    ⟨failure | ⟨⟩, w₁⟩
  · rw [Run.perform_bind_error _ hperform]
    rwa [hperform] at hfresh
  rw [Run.perform_bind_ok _ hperform]
  rw [hperform] at hfresh hunpack
  obtain ⟨releases, hled, hrenewed⟩ := renewed_of_freshen hregular hfind hname hversion hperform
  intro q hchanged
  rw [fill_disk] at hchanged ⊢
  by_cases hbelow : releases ++ [Utf8.canonical
      (pluginDirectoryName artifact.name artifact.version)] <+: q
  · exact ⟨releases, hled, .inl hbelow⟩
  · rw [hunpack releases _ hled rfl hrenewed q hbelow] at hchanged ⊢
    exact hfresh q hchanged

/-- Whether no name in the archive of an artifact goes up, and the paths to links stay short while
it is unpacked into the directory of its release. -/
def fillsDown [Interpreter] (host : Path) (artifact : Artifact) (w : World) : Bool :=
  let directory := pluginDirectory host artifact.name artifact.version
  let fresh := ((freshen directory).perform w).2.disk
  match fresh.read artifact.archive with
  | .error _ => true
  | .ok content =>
    let contents := Archive.contentsOf content
    (contents.members ++ contents.broken.toList).all
        (fun member => decide (Archive.GoesDown member)) &&
      contents.members.inits.all fun done =>
        ((Archive.unpackMembers directory contents [] done).perform fresh).2.hasShortLinks

/-- The directory of all releases on the small host. -/
def smallReleases : Place := ["h", "plugins"]

/-- A host without a release, beside an archive of a file whose name goes up and comes back. -/
def hostileDisk : Disk where
  entries :=
    [(["h"], .directory),
     (smallReleases, .directory),
     (["a"], .file .usual (.archive
       [.file "../new/../provider-n-v1/f" .usual (.bytes [65])]))]

/-- What is seen to have changed elsewhere has not changed under the directory of a release. -/
theorem not_changedUnder {disk left : Disk} {path : Path} {name : Text} (releases q : Place)
    (hled : (disk.locate true path).toOption = some releases)
    (hout : releases ++ [Utf8.canonical name] <+: q → False) (hne : q ≠ releases)
    (hchanged : left.get? q ≠ disk.get? q) : ¬ Disk.ChangedUnder path name disk left := by
  intro h
  obtain ⟨place, hlocate, hbelow | ⟨hsame, -⟩⟩ := h q hchanged
  all_goals
    rw [hlocate] at hled
    obtain rfl := Option.some.inj hled
  · exact hout hbelow
  · exact hne hsame

end Install

end ProviderKit
