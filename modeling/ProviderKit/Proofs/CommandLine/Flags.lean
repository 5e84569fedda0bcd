import ProviderKit.CommandLine.Request
import ProviderKit.Proofs.Package.Discovery

/-!
# Flags in front of a command line

A command line asks for a task if the task is named behind the options for the whole run
(`read_perform_iff`). A word that asks for a quiet or a verbose run can be put in front of any
command line: what is read is the same, with one more option set (`readGlobals_flag`).
-/

namespace ProviderKit.CommandLine

/-- The words that ask for a quiet or a verbose run, with the option that each stands for. -/
def flags : List (Text × Switch) :=
  [("-q", .quiet), ("--quiet", .quiet), ("-v", .verbose), ("--verbose", .verbose)]

/-- The options for the whole run with a flag set. -/
def withFlag (switch : Switch) (globals : Globals) : Globals :=
  { globals with
    quiet := decide (switch = .quiet) || globals.quiet
    verbose := decide (switch = .verbose) || globals.verbose }

/-- A word that gives an option without a value gives it in front of what the rest gives. -/
theorem readGiven_option {switches : List Switch} {mixed : Bool} {word : Text}
    {given : List Given} (hdashes : word ≠ Text.ofString "--") (hoption : isOptionWord word = true)
    (hread : readOptions switches word = .ok (given, none)) (words : List Text) :
    readGiven switches mixed (word :: words) =
      (readGiven switches mixed words).map fun (more, left) => (given ++ more, left) := by
  simp [readGiven, hdashes, hoption, hread]

/-- A flag gives its option. -/
theorem readGiven_flag {flag : Text} {switch : Switch} (hflag : (flag, switch) ∈ flags)
    (words : List Text) :
    readGiven Switch.forAll false (flag :: words) =
      (readGiven Switch.forAll false words).map fun (given, left) =>
        (⟨switch, []⟩ :: given, left) := by
  have hoptions : ∀ entry ∈ flags, entry.1 ≠ Text.ofString "--" ∧ isOptionWord entry.1 = true := by
    decide
  have hread : readOptions Switch.forAll flag = .ok ([⟨switch, []⟩], none) := by
    simp only [flags, List.mem_cons, Prod.mk.injEq, List.not_mem_nil, or_false] at hflag
    obtain ⟨rfl, rfl⟩ | ⟨rfl, rfl⟩ | ⟨rfl, rfl⟩ | ⟨rfl, rfl⟩ := hflag <;> rfl
  obtain ⟨hdashes, hoption⟩ := hoptions _ hflag
  exact readGiven_option hdashes hoption hread words

/-- A flag in front adds its option and changes nothing else of what is read. -/
theorem readGlobals_flag {flag : Text} {switch : Switch} (hflag : (flag, switch) ∈ flags)
    (s : Surroundings) (disk : Disk) (words : List Text) :
    readGlobals s disk (flag :: words) =
      (readGlobals s disk words).map fun (eager?, globals, left) =>
        (eager?, withFlag switch globals, left) := by
  have hswitch : ∀ entry ∈ flags, entry.2.isEager = false ∧ entry.2 ≠ .directory ∧
      entry.2 ≠ .retain ∧ entry.2 ≠ .noColor := by decide
  obtain ⟨heager, hdirectory, hretain, hnoColor⟩ := hswitch _ hflag
  unfold readGlobals
  rw [readGiven_flag hflag]
  rcases readGiven Switch.forAll false words with fault | ⟨given, left⟩
  · rfl
  have hglobals : Globals.ofGiven (⟨switch, []⟩ :: given) = withFlag switch (.ofGiven given) := by
    have hlast : lastValue? .directory (⟨switch, []⟩ :: given) = lastValue? .directory given := by
      unfold lastValue?
      rw [List.reverse_cons, List.find?_append, List.find?_singleton,
        if_neg (by simpa using hdirectory), Option.or_none]
    simp [Globals.ofGiven, withFlag, hlast, isGiven, hretain, hnoColor]
  have hfirst : firstEager? (⟨switch, []⟩ :: given) = firstEager? given := by
    unfold firstEager?
    rw [List.find?_cons_of_neg (by simp [heager])]
  dsimp only [Except.map]
  rw [hglobals, hfirst]
  rcases firstEager? given with _ | eager
  · rcases Globals.ofGiven given with ⟨_ | directory, retain, noColor, quiet, verbose⟩
    · rfl
    · dsimp only [withFlag]
      rcases checkDirectory s disk directory with refusal | ⟨⟩ <;> rfl
  · rfl

/-- A task is asked for by its name behind the options for the whole run. -/
theorem read_perform_iff {s : Surroundings} {disk : Disk} {words rest : List Text}
    {globals : Globals} {task : Task} :
    Request.read s disk words = .ok (.perform globals task rest) ↔
      ∃ name, readGlobals s disk words = .ok (none, globals, name :: rest) ∧
        Task.ofWord? name = some task := by
  have heager : ∀ switch, Request.ofEager switch ≠ .perform globals task rest := by
    intro switch
    cases switch <;> exact nofun
  unfold Request.read
  constructor
  · intro h
    obtain ⟨⟨eager?, found, left⟩, hglobals, h⟩ := except_bind_eq_ok.1 h
    rcases eager? with _ | eager
    · rcases left with _ | ⟨name, words⟩
      · cases h
      dsimp only at h
      split at h
      next named hname =>
        cases h
        exact ⟨name, hglobals, hname⟩
      next hname =>
        -- A word that names no task is refused, or taken for an option that is answered at once.
        split at h
        · obtain ⟨⟨eager?, found, left⟩, -, h⟩ := except_bind_eq_ok.1 h
          rcases eager? with _ | eager
          · cases h
          · exact absurd (Except.ok.inj h) (heager eager)
        · cases h
    · exact absurd (Except.ok.inj h) (heager eager)
  · rintro ⟨name, hglobals, hname⟩
    rw [hglobals]
    dsimp only [bind, Except.bind]
    rw [hname]
    rfl

end ProviderKit.CommandLine
