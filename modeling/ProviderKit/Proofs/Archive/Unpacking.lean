import ProviderKit.Archive.Unpack
import ProviderKit.Proofs.Disk.Carried

/-!
# Unpacking on two disks side by side

What a member does depends on the disk as it then is, on what a real path is there, and on what was
unpacked before. For a relation between disks that the steps of requests carry on, unpacking ends
alike on two related disks and leaves related ones (`unpack_carried`): it cannot tell two disks
apart that look alike, and it never takes a directory away. The proof goes by the forms of the work
on a disk, one lemma for each, and by the recursions of the unpacking.
-/

namespace ProviderKit.Archive

namespace Unpack

variable {α β : Type}

/-- The outcome of work on a disk, and the disk that it leaves. -/
def perform (work : Unpack α) (disk : Disk) : Except Stop α × Disk :=
  StateT.run (ExceptT.run work) disk

/-- A sequence goes on from the disk that the first part leaves, unless that stops. -/
theorem perform_bind (x : Unpack α) (f : α → Unpack β) (disk : Disk) :
    (x >>= f).perform disk = match x.perform disk with
      | (.ok v, left) => (f v).perform left
      | (.error stop, left) => (.error stop, left) := by
  show ((ExceptT.bindCont f (x.run disk).1) (x.run disk).2) = _
  simp only [perform, StateT.run, ExceptT.run]
  rcases x disk with ⟨_ | _, left⟩ <;> rfl

/-- Work that is caught goes on with what is done about its stop. -/
theorem perform_tryCatch (x : Unpack α) (handle : Stop → Unpack α) (disk : Disk) :
    (tryCatch x handle).perform disk = match x.perform disk with
      | (.ok v, left) => (.ok v, left)
      | (.error stop, left) => (handle stop).perform left := by
  show (ExceptT.tryCatch x handle).run disk = _
  simp only [ExceptT.tryCatch, ExceptT.run, ExceptT.mk, perform, StateT.run, bind, StateT.bind]
  rcases x disk with ⟨_ | _, left⟩ <;> rfl

/-- Work that looks at the disk sees it as it is. -/
theorem perform_get (f : Disk → Unpack α) (disk : Disk) :
    ((get : Unpack Disk) >>= f).perform disk = (f disk).perform disk := rfl

/-- A sequence goes on after what is done. -/
theorem perform_bind_ok {work : Unpack α} {v : α} {disk left : Disk} (f : α → Unpack β)
    (h : work.perform disk = (.ok v, left)) : (work >>= f).perform disk = (f v).perform left := by
  rw [perform_bind, h]

/-- A sequence stops where its first part does. -/
theorem perform_bind_error {work : Unpack α} {stop : Stop} {disk left : Disk} (f : α → Unpack β)
    (h : work.perform disk = (.error stop, left)) :
    (work >>= f).perform disk = (.error stop, left) := by
  rw [perform_bind, h]

/-- A request that is carried out is done. -/
theorem perform_request {f : Disk → Except Disk.Fault Disk} {disk left : Disk}
    (h : f disk = .ok left) : (request f).perform disk = (.ok (), left) := by
  rw [request, perform_get, h]
  rfl

/-- A request that is refused stops the work, and the disk stays as it is. -/
theorem perform_request_error {f : Disk → Except Disk.Fault Disk} {disk : Disk}
    {fault : Disk.Fault} (h : f disk = .error fault) :
    (request f).perform disk = (.error (.failure (.disk fault)), disk) := by
  rw [request, perform_get, h]
  rfl

/-- Work that is caught without need is done. -/
theorem perform_tryCatch_ok {work : Unpack α} {v : α} {disk left : Disk}
    (handle : Stop → Unpack α) (h : work.perform disk = (.ok v, left)) :
    (tryCatch work handle).perform disk = (.ok v, left) := by
  rw [perform_tryCatch, h]

/-! ## Agreement -/

/-- The two works end alike on the two disks, and leave related ones. -/
def Agree (R : Disk → Disk → Prop) (x y : Unpack α) (disk other : Disk) : Prop :=
  (y.perform other).1 = (x.perform disk).1 ∧ R (x.perform disk).2 (y.perform other).2

/-- The work ends alike on related disks, and leaves related ones. -/
def Steady (R : Disk → Disk → Prop) (x : Unpack α) : Prop :=
  ∀ ⦃disk other⦄, R disk other → Agree R x x disk other

section Forms

variable {R : Disk → Disk → Prop} {disk other : Disk}

/-- Work that is done agrees. -/
theorem agree_pure (h : R disk other) (v : α) : Agree R (pure v) (pure v) disk other := ⟨rfl, h⟩

/-- Work that stops agrees. -/
theorem agree_throw (h : R disk other) (stop : Stop) :
    Agree R (throw stop : Unpack α) (throw stop) disk other := ⟨rfl, h⟩

/-- Work on what is seen agrees if it does for what is seen on the one disk and on the other. -/
theorem agree_get {f g : Disk → Unpack α} (h : Agree R (f disk) (g other) disk other) :
    Agree R ((get : Unpack Disk) >>= f) ((get : Unpack Disk) >>= g) disk other := h

/-- Disks that are related may take the place of related ones. -/
theorem agree_set {left left' : Disk} (h : R left left') :
    Agree R (set left : Unpack PUnit) (set left') disk other := ⟨rfl, h⟩

/-- A sequence agrees if its parts do. -/
theorem agree_bind {x y : Unpack α} {f g : α → Unpack β} (h : Agree R x y disk other)
    (hnext : ∀ v ⦃a b⦄, R a b → Agree R (f v) (g v) a b) :
    Agree R (x >>= f) (y >>= g) disk other := by
  obtain ⟨hsame, hleft⟩ := h
  unfold Agree
  rw [perform_bind, perform_bind]
  rcases hx : x.perform disk with ⟨outcome, left⟩
  rcases hy : y.perform other with ⟨outcome', left'⟩
  rw [hx, hy] at hsame hleft
  obtain rfl : outcome' = outcome := hsame
  cases outcome' with
  | error stop => exact ⟨rfl, hleft⟩
  | ok v => exact hnext v hleft

/-- Work that is caught agrees if it does and what is done about its stop does. -/
theorem agree_tryCatch {x y : Unpack α} {handle handle' : Stop → Unpack α}
    (h : Agree R x y disk other)
    (hcaught : ∀ stop ⦃a b⦄, R a b → Agree R (handle stop) (handle' stop) a b) :
    Agree R (tryCatch x handle) (tryCatch y handle') disk other := by
  obtain ⟨hsame, hleft⟩ := h
  unfold Agree
  rw [perform_tryCatch, perform_tryCatch]
  rcases hx : x.perform disk with ⟨outcome, left⟩
  rcases hy : y.perform other with ⟨outcome', left'⟩
  rw [hx, hy] at hsame hleft
  obtain rfl : outcome' = outcome := hsame
  cases outcome' with
  | ok v => exact ⟨rfl, hleft⟩
  | error stop => exact hcaught stop hleft

/-- What is known of an outcome agrees. -/
theorem agree_ofExcept (h : R disk other) (outcome : Except Failure α) :
    Agree R (ofExcept outcome) (ofExcept outcome) disk other := by
  cases outcome with
  | ok v => exact agree_pure h v
  | error f => exact agree_throw h _

/-- A request agrees if it is carried out on both disks or on neither. -/
theorem agree_request {f : Disk → Except Disk.Fault Disk} (h : R disk other)
    (hrelated : Disk.Related R (f disk) (f other)) :
    Agree R (request f) (request f) disk other := by
  refine agree_get ?_
  rcases hleft : f disk with fault | left
  all_goals rcases hleft' : f other with fault' | left'
  all_goals rw [hleft, hleft'] at hrelated
  · obtain rfl : fault' = fault := hrelated
    exact agree_throw h _
  · cases hrelated
  · cases hrelated
  · exact agree_set hrelated

/-- What comes after a request agrees if it does on the disks that the request leaves. -/
theorem agree_request_bind {f : Disk → Except Disk.Fault Disk} {g : Unit → Unpack α}
    (h : R disk other) (hrelated : Disk.Related R (f disk) (f other))
    (hnext : ∀ left left', f disk = .ok left → R left left' →
      Agree R (g ()) (g ()) left left') :
    Agree R (request f >>= g) (request f >>= g) disk other := by
  unfold Agree
  rcases hleft : f disk with fault | left
  all_goals rcases hleft' : f other with fault' | left'
  all_goals rw [hleft, hleft'] at hrelated
  · obtain rfl : fault' = fault := hrelated
    rw [perform_bind_error g (perform_request_error hleft),
      perform_bind_error g (perform_request_error hleft')]
    exact ⟨rfl, h⟩
  · cases hrelated
  · cases hrelated
  · rw [perform_bind_ok g (perform_request hleft), perform_bind_ok g (perform_request hleft')]
    exact hnext left left' hleft hrelated

end Forms

end Unpack

open Unpack

/-- A file that has been written stands where its path leads. -/
theorem file_of_write {disk left : Disk} (hwf : disk.WellFormed) {path : Path} {content : Content}
    (h : disk.write path content = .ok left) :
    ∃ place mode, left.locate true path = .ok place ∧
      left.get? place = some (.file mode content) := by
  obtain ⟨place, hlocate, hwritten⟩ := Disk.write_ok hwf h
  obtain ⟨mode, hfile⟩ := hwritten.shown place (Disk.mem_sharers_self _ _)
  refine ⟨place, mode, ?_, hfile⟩
  refine Disk.locate_of_extended (hwritten.extended hwf) ?_ hlocate
  rw [hfile]
  rintro - _ ⟨⟩

variable {R : Disk → Disk → Prop}

/-- What a link names does not depend on the disk. -/
theorem named_steady (contents : Contents) (before : List Member) (member : Member) :
    Steady R (named contents before member) := by
  intro disk other h
  unfold named
  cases contents.fault with
  | some fault => exact agree_throw h _
  | none =>
    cases member with
    | link => exact agree_pure h _
    | sameFile => exact agree_pure h _
    | directory => exact agree_pure h _
    | file => exact agree_pure h _
    | pipe => exact agree_pure h _
    | device => exact agree_pure h _
    | unknown => exact agree_pure h _

/-- What a member names is unpacked instead of it alike on both disks. -/
theorem unpackNamed_steady (contents : Contents) {unpack : List Member → Member → Unpack Unit}
    (hunpack : ∀ before member, Steady R (unpack before member)) (before : List Member)
    (member : Member) : Steady R (unpackNamed contents unpack before member) := by
  intro disk other h
  refine agree_bind (named_steady contents before member h) fun found a b h => ?_
  cases found with
  | none => exact agree_throw h _
  | some found => exact hunpack found.2 found.1 h

/-- A link is unpacked, or replaced, alike on both disks. -/
theorem unpackOr_steady {instead body : Unpack Unit} (hinstead : Steady R instead)
    (hbody : Steady R body) : Steady R (unpackOr instead body) := by
  intro disk other h
  refine agree_tryCatch (hbody h) fun stop a b h => ?_
  split
  · exact hinstead h
  · exact agree_throw h _

section Carried

variable (hR : Disk.Carried R)
include hR

/-! ## Looking -/

/-- A path leads to something on both disks or on neither. -/
theorem isThere_congr {disk other : Disk} (h : R disk other) (through : Bool) (path : Path) :
    isThere other through path = isThere disk through path := by
  unfold isThere
  rw [hR.find h]

/-- A path leads to a directory on both disks or on neither. -/
theorem isDirectory_congr {disk other : Disk} (h : R disk other) (path : Path) :
    isDirectory other path = isDirectory disk path := by
  unfold isDirectory
  rw [hR.find h]

/-- A member may be unpacked on both disks or on neither. -/
theorem accept_congr [Interpreter] {disk other : Disk} (h : R disk other) (directory : Path)
    (member : Member) :
    accept other directory member = accept disk directory member := by
  unfold accept checkTarget liesIn
  simp only [hR.realPath h]

/-! ## One member -/

/-- A directory is ensured on both disks or on neither. -/
theorem ensureDirectory_steady (path : Path) : Steady R (ensureDirectory path) := by
  intro disk other h
  refine agree_get ?_
  have hrelated := hR.makeDirectory h path
  rcases hmade : disk.makeDirectory path with fault | made
  all_goals rcases hmade' : other.makeDirectory path with fault' | made'
  all_goals rw [hmade, hmade'] at hrelated
  · obtain rfl : fault' = fault := hrelated
    refine agree_get ?_
    rw [isDirectory_congr hR h]
    split
    · exact agree_throw h _
    · exact agree_pure h _
  · cases hrelated
  · cases hrelated
  · exact agree_set hrelated

/-- Missing directories are made on both disks or on neither. -/
theorem makeUpper_steady (levels : Nat) (path : Path) : Steady R (makeUpper levels path) := by
  induction levels generalizing path with
  | zero =>
    intro disk other h
    rw [makeUpper.eq_def]
    refine agree_get ?_
    rw [isThere_congr hR h]
    dsimp only
    split
    · refine agree_bind (agree_throw h _) fun _ a b h => ?_
      split
      · exact agree_pure h _
      · exact ensureDirectory_steady hR path h
    · exact ensureDirectory_steady hR path h
  | succ levels ih =>
    intro disk other h
    rw [makeUpper.eq_def]
    refine agree_get ?_
    rw [isThere_congr hR h]
    dsimp only
    split
    · refine agree_bind (agree_tryCatch (ih path.parent h) fun stop a b h => ?_) fun _ a b h => ?_
      · split
        · exact agree_pure h _
        · exact agree_throw h _
      · split
        · exact agree_pure h _
        · exact ensureDirectory_steady hR path h
    · exact ensureDirectory_steady hR path h

/-- The directory above a path is made on both disks or on neither. -/
theorem makeParent_steady [Interpreter] (path : Path) : Steady R (makeParent path) := by
  intro disk other h
  refine agree_get ?_
  rw [isThere_congr hR h]
  split
  · exact makeUpper_steady hR _ path.parent h
  · exact agree_pure h _

/-- A directory is unpacked on both disks or on neither. -/
theorem unpackDirectory_steady (path : Path) : Steady R (unpackDirectory path) := by
  intro disk other h
  refine agree_get ?_
  have hrelated := hR.makeDirectory h path
  rcases hmade : disk.makeDirectory path with fault | made
  all_goals rcases hmade' : other.makeDirectory path with fault' | made'
  all_goals rw [hmade, hmade'] at hrelated
  · obtain rfl : fault' = fault := hrelated
    refine agree_get ?_
    rw [isDirectory_congr hR h]
    split
    · exact agree_throw h _
    · exact agree_pure h _
  · cases hrelated
  · cases hrelated
  · exact agree_set hrelated

/-- A file is unpacked on both disks or on neither. -/
theorem unpackFile_steady (path : Path) (mode : Mode) (content : Content) :
    Steady R (unpackFile path mode content) := by
  intro disk other h
  refine agree_request_bind h (hR.write h path content) fun left left' hwrite hleft => ?_
  obtain ⟨place, old, hlocate, hfile⟩ := file_of_write (hR.wellFormed h) hwrite
  refine agree_get ?_
  rw [hR.locate hleft, hlocate]
  exact ⟨rfl, hR.rewrite hleft hfile mode content⟩

/-- A link is unpacked on both disks or on neither. -/
theorem unpackLink_steady (path : Path) (target : Text) : Steady R (unpackLink path target) := by
  have hmake : Steady R (Unpack.request (·.makeLink target path)) := fun _ _ h =>
    agree_request h (hR.makeLink h target path)
  intro disk other h
  refine agree_get ?_
  rw [isThere_congr hR h]
  dsimp only
  split
  · exact agree_bind (agree_request h (hR.unlink h path)) fun _ _ _ h => hmake h
  · exact hmake h

/-- A member of any kind is unpacked alike on both disks, if what may stand in for it is. -/
theorem unpackWith_steady [Interpreter] (contents : Contents) {instead : Unpack Unit}
    (hinstead : Steady R instead) (path : Path) (source : Option Path) (before : List Member)
    (member : Member) : Steady R (unpackWith contents instead path source before member) := by
  -- A pipe or a device is never unpacked; all that matters is whether its place is taken.
  have htaken : Steady R (do
      if isThere (← get) false path then Unpack.fail (.disk (.refused .exists path))) := by
    intro disk other h
    refine agree_get ?_
    rw [isThere_congr hR h]
    split
    · exact agree_throw h _
    · exact agree_pure h _
  intro disk other h
  refine agree_bind (makeParent_steady hR path h) fun _ a b h => ?_
  cases member with
  | directory => exact unpackDirectory_steady hR path h
  | file _ mode content => exact unpackFile_steady hR path mode content h
  | unknown _ content => exact unpackFile_steady hR path .usual content h
  | pipe => exact htaken h
  | device => exact htaken h
  | link _ target => exact unpackOr_steady hinstead (unpackLink_steady hR path target) h
  | sameFile name target =>
    cases source with
    | none => exact hinstead h
    | some source =>
      refine agree_get ?_
      rw [isThere_congr hR h]
      split
      · refine unpackOr_steady hinstead (fun _ _ h => ?_) h
        exact agree_request h (hR.makeSecondName h source path)
      · refine agree_bind (named_steady contents before _ h) fun found a b h => ?_
        split
        · exact agree_throw h _
        · exact hinstead h

/-- A member is unpacked at a path alike on both disks, through any number of links that are
replaced by what they name. -/
theorem unpackAt_steady [Interpreter] (contents : Contents) (levels : Nat) (path : Path)
    (source : Option Path) (before : List Member) (member : Member) :
    Steady R (unpackAt contents levels path source before member) := by
  induction levels generalizing path source before member with
  | zero =>
    refine unpackWith_steady hR contents ?_ path source before member
    exact unpackNamed_steady contents (fun _ _ _ _ h => agree_throw h _) before member
  | succ levels ih =>
    refine unpackWith_steady hR contents ?_ path source before member
    exact unpackNamed_steady contents (fun before member => ih path none before member) before
      member

/-! ## All members -/

/-- What is done at the end of an archive: a fault that it has is reported. -/
def reportFault (fault : Option Fault) : Unpack Unit := do
  if let some fault := fault then Unpack.fail (.archive fault)

/-- A member is checked and unpacked alike on both disks. -/
theorem unpackMember_steady [Interpreter] (directory : Path) (contents : Contents)
    (before : List Member) (member : Member) :
    Steady R (unpackMember directory contents before member) := by
  intro disk other h
  refine agree_get ?_
  rw [accept_congr hR h]
  refine agree_bind (agree_ofExcept h _) fun accepted a b h => ?_
  refine agree_tryCatch (unpackAt_steady hR contents _ _ _ before accepted h) ?_
  intro stop a b h
  cases stop with
  | leftOut => exact agree_pure h _
  | failure f => exact agree_throw h _

/-- Members are unpacked alike on both disks, one after the other. -/
theorem unpackMembers_steady [Interpreter] (directory : Path) (contents : Contents)
    (before rest : List Member) :
    Steady R (unpackMembers directory contents before rest) := by
  induction rest generalizing before with
  | nil => exact fun _ _ h => agree_pure h _
  | cons member rest ih =>
    intro disk other h
    refine agree_bind (unpackMember_steady hR directory contents before member h) ?_
    exact fun _ a b h => ih (member :: before) h

/-- All that an archive holds is unpacked alike on both disks. -/
theorem unpackContents_steady [Interpreter] (directory : Path) (contents : Contents) :
    Steady R (unpackContents directory contents) := by
  have hfault : Steady R (reportFault contents.fault) := by
    intro disk other h
    cases contents.fault with
    | none => exact agree_pure h _
    | some fault => exact agree_throw h _
  intro disk other h
  refine agree_bind (unpackMembers_steady hR directory contents [] contents.members h) ?_
  intro _ a b h
  cases contents.broken with
  | none => exact hfault h
  | some member =>
    refine agree_bind (unpackMember_steady hR directory contents _ member h) ?_
    exact fun _ _ _ h => hfault h

/-- An archive is unpacked alike on both disks, if it is the same file on both. -/
theorem unpack_carried [Interpreter] {disk other : Disk} (h : R disk other)
    (archive directory : Path) :
    (unpack other archive directory).1 = (unpack disk archive directory).1 ∧
      R (unpack disk archive directory).2 (unpack other archive directory).2 := by
  unfold unpack Disk.read
  rw [hR.find h]
  rcases disk.find true archive with fault | ⟨place, entry⟩
  · exact ⟨rfl, h⟩
  cases entry with
  | directory => exact ⟨rfl, h⟩
  | link => exact ⟨rfl, h⟩
  | file mode content =>
    obtain ⟨hsame, hleft⟩ := unpackContents_steady hR directory (contentsOf content) h
    unfold perform at hsame hleft
    dsimp only [bind, Except.bind, pure, Except.pure]
    rcases hx : StateT.run (ExceptT.run (unpackContents directory (contentsOf content))) disk
      with ⟨outcome, left⟩
    rcases hy : StateT.run (ExceptT.run (unpackContents directory (contentsOf content))) other
      with ⟨outcome', left'⟩
    rw [hx, hy] at hsame hleft
    obtain rfl : outcome' = outcome := hsame
    rcases outcome' with stop | _
    · cases stop <;> exact ⟨rfl, hleft⟩
    · exact ⟨rfl, hleft⟩

end Carried

end ProviderKit.Archive
