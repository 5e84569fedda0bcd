import ProviderKit.Package.Basic

/-!
# What discovery has found out

A package that was discovered tells what was on the disk at that moment: the members of its package
file, whether there was something to compile, and which lock file was there.
-/

namespace ProviderKit

/-- A disk request that gave a result as an outcome of a run gave it as a request. -/
@[simp]
theorem orFail_eq_ok {α : Type} {outcome : Except Disk.Fault α} {a : α} :
    orFail outcome = .ok a ↔ outcome = .ok a := by
  cases outcome <;> simp [orFail]

/-- A step that gave a result as an outcome of a run gave it as a step. -/
@[simp]
theorem orProblem_eq_ok {α : Type} {outcome : Except Problem α} {a : α} :
    orProblem outcome = .ok a ↔ outcome = .ok a := by
  cases outcome <;> simp [orProblem]

/-- A disk request that failed as an outcome of a run failed as a request. -/
theorem orFail_eq_error {α : Type} {outcome : Except Disk.Fault α} {e : Failure} :
    orFail outcome = .error e ↔ ∃ fault, outcome = .error fault ∧ e = .disk fault := by
  cases outcome <;> simp [orFail, eq_comm]

/-- A step that failed as an outcome of a run failed with its problem. -/
theorem orProblem_eq_error {α : Type} {outcome : Except Problem α} {e : Failure} :
    orProblem outcome = .error e ↔ ∃ p, outcome = .error p ∧ e = .problem p := by
  cases outcome <;> simp [orProblem, eq_comm]

/-- A sequence of two outcomes is a result when both of them are. -/
theorem except_bind_eq_ok {ε α β : Type} {x : Except ε α} {f : α → Except ε β} {b : β} :
    (x >>= f) = .ok b ↔ ∃ a, x = .ok a ∧ f a = .ok b := by
  cases x <;> simp [bind, Except.bind]

/-- A sequence of two outcomes fails when the first one does, or the second one behind the first. -/
theorem except_bind_eq_error {ε α β : Type} {x : Except ε α} {f : α → Except ε β} {e : ε} :
    (x >>= f) = .error e ↔ x = .error e ∨ ∃ a, x = .ok a ∧ f a = .error e := by
  cases x <;> simp [bind, Except.bind]

/-- An outcome that is something, taken as an option, is that. -/
theorem ok_of_toOption {ε α : Type} {outcome : Except ε α} {a : α}
    (h : outcome.toOption = some a) : outcome = .ok a := by
  cases outcome with
  | error e => cases h
  | ok b => exact congrArg Except.ok (Option.some.inj h)

/-- A strategy that is selected is in the table, for the convention. -/
theorem InstallStrategy.mem_of_select {table : List (LockConvention × InstallStrategy)}
    {convention : LockConvention} {strategy : InstallStrategy}
    (h : select table convention = .ok strategy) : (convention, strategy) ∈ table := by
  unfold select at h
  split at h
  next found hlookup =>
    cases h
    obtain ⟨before, after, htable, -⟩ := List.lookup_eq_some_iff.1 hlookup
    simp [htable]
  next => cases h

namespace Package

/-- What was found out about a package holds of the disk it was discovered on. -/
theorem discover_ok [Interpreter] {disk : Disk} {directory : Path} {package : Package}
    (h : discover disk directory = .ok package) :
    ∃ members, load disk directory = .ok members ∧
      identity members = .ok (package.name, package.version) ∧
      disk.isFile? (directory.child compilerFilename) = .ok package.hasCompiledSource ∧
      lockConvention? disk directory = .ok package.lockConvention := by
  unfold discover at h
  obtain ⟨members, hload, h⟩ := except_bind_eq_ok.1 h
  obtain ⟨⟨name, version⟩, hidentity, h⟩ := except_bind_eq_ok.1 h
  obtain ⟨compiled, hcompiled, h⟩ := except_bind_eq_ok.1 h
  obtain ⟨convention, hconvention, h⟩ := except_bind_eq_ok.1 h
  cases h
  exact ⟨members, hload, orProblem_eq_ok.1 hidentity, orFail_eq_ok.1 hcompiled, hconvention⟩

/-- The convention says which lock file is there: the consolidated one if there is one, else the
distributed one. -/
theorem lockConvention?_ok {disk : Disk} {directory : Path} {convention : LockConvention}
    (h : lockConvention? disk directory = .ok convention) :
    (convention = .consolidated ∧
      disk.isFile? (directory.child "package-lock.json") = .ok true) ∨
    (convention = .distributed ∧
      disk.isFile? (directory.child "package-lock.json") = .ok false ∧
      disk.isFile? (directory.child "yarn.lock") = .ok true) ∨
    (convention = .none ∧
      disk.isFile? (directory.child "package-lock.json") = .ok false ∧
      disk.isFile? (directory.child "yarn.lock") = .ok false) := by
  unfold lockConvention? at h
  obtain ⟨consolidated, hconsolidated, h⟩ := except_bind_eq_ok.1 h
  rw [orFail_eq_ok] at hconsolidated
  cases consolidated with
  | true =>
    cases h
    exact .inl ⟨rfl, hconsolidated⟩
  | false =>
    rw [if_neg (by simp)] at h
    obtain ⟨distributed, hdistributed, h⟩ := except_bind_eq_ok.1 h
    rw [orFail_eq_ok] at hdistributed
    cases distributed with
    | true =>
      cases h
      exact .inr (.inl ⟨rfl, hconsolidated, hdistributed⟩)
    | false =>
      cases h
      exact .inr (.inr ⟨rfl, hconsolidated, hdistributed⟩)

end Package

end ProviderKit
