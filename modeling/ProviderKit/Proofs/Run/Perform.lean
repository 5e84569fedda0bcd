import ProviderKit.Run.Basic

/-!
# What a run does to a world

Each building block of a run is described once by the outcome and the world that it gives, so that
the proofs about longer runs never open the monad. `Run.Relates` states that a run relates the world
that it starts with to the one that it leaves, however it ends; for a relation that is reflexive and
transitive it holds of a sequence of runs as soon as it holds of each of them.
-/

namespace ProviderKit

/-- The warnings among what a run has said, in order. -/
def World.warnings (world : World) : List Text :=
  world.messages.filterMap fun
    | .warning t => some t
    | _ => none

namespace Run

variable {α β : Type}

/-- A run without any step gives its result and leaves the world alone. -/
@[simp]
theorem perform_pure (a : α) (w : World) : (pure a : Run α).perform w = (.ok a, w) := rfl

/-- A sequence of two runs goes on from the world that the first one leaves, unless that fails. -/
theorem perform_bind (x : Run α) (f : α → Run β) (w : World) :
    (x >>= f).perform w = match x.perform w with
      | (.ok a, w') => (f a).perform w'
      | (.error e, w') => (.error e, w') := by
  show ((ExceptT.bindCont f (x.run w).1) (x.run w).2) = _
  simp only [perform, StateT.run, ExceptT.run]
  rcases h : x w with ⟨_ | _, w'⟩ <;> rfl

/-- A sequence whose first run gives a result goes on with that result. -/
theorem perform_bind_ok {x : Run α} {a : α} {w w' : World} (f : α → Run β)
    (h : x.perform w = (.ok a, w')) : (x >>= f).perform w = (f a).perform w' := by
  rw [perform_bind, h]

/-- A sequence whose first run fails ends there. -/
theorem perform_bind_error {x : Run α} {e : Failure} {w w' : World} (f : α → Run β)
    (h : x.perform w = (.error e, w')) : (x >>= f).perform w = (.error e, w') := by
  rw [perform_bind, h]

/-- A sequence that gives a result is made of runs that do. -/
theorem perform_bind_eq_ok {x : Run α} {f : α → Run β} {b : β} {w w'' : World}
    (h : (x >>= f).perform w = (.ok b, w'')) :
    ∃ a w', x.perform w = (.ok a, w') ∧ (f a).perform w' = (.ok b, w'') := by
  rw [perform_bind] at h
  rcases hx : x.perform w with ⟨e | a, w'⟩
  · rw [hx] at h
    cases h
  · rw [hx] at h
    exact ⟨a, w', rfl, h⟩

/-- What the outcome of a run is known to be is the outcome, and the world stays. -/
@[simp]
theorem perform_ofExcept (outcome : Except Failure α) (w : World) :
    (ofExcept outcome).perform w = (outcome, w) := rfl

/-- A failed run leaves the world alone. -/
@[simp]
theorem perform_fail (e : Failure) (w : World) : (fail e : Run α).perform w = (.error e, w) := rfl

/-- A change is made and never fails. -/
@[simp]
theorem perform_change (f : World → World) (w : World) :
    (change f).perform w = (.ok (), f w) := rfl

/-- What is said is added to the messages. -/
@[simp]
theorem perform_say (m : Message) (w : World) :
    (say m).perform w = (.ok (), { w with messages := w.messages ++ [m] }) := rfl

/-- A completed stage is added to the record. -/
@[simp]
theorem perform_complete (s : Stage) (w : World) :
    (complete s).perform w = (.ok (), { w with completed := w.completed ++ [s] }) := rfl

/-- The disk is read as it is. -/
@[simp]
theorem perform_disk (w : World) : disk.perform w = (.ok w.disk, w) := rfl

/-- Looking at the disk changes nothing. -/
@[simp]
theorem perform_look (f : Disk → Except Failure α) (w : World) :
    (look f).perform w = (f w.disk, w) := rfl

/-- A step changes the disk only, also when it fails. -/
@[simp]
theorem perform_step (f : Disk → Except Failure α × Disk) (w : World) :
    (step f).perform w = ((f w.disk).1, { w with disk := (f w.disk).2 }) := by
  simp only [step]
  rw [perform_bind_ok _ (perform_disk w), perform_bind_ok _ (perform_change _ w),
    perform_ofExcept]

/-- A request that the disk carries out changes it. -/
theorem perform_request_ok {f : Disk → Except Disk.Fault Disk} {w : World} {disk : Disk}
    (h : f w.disk = .ok disk) : (request f).perform w = (.ok (), { w with disk }) := by
  rw [request, perform_step, h]

/-- A request that the disk refuses leaves the world alone. -/
theorem perform_request_error {f : Disk → Except Disk.Fault Disk} {w : World}
    {fault : Disk.Fault} (h : f w.disk = .error fault) :
    (request f).perform w = (.error (.disk fault), w) := by
  rw [request, perform_step, h]

/-- A request that was carried out has changed the disk only. -/
theorem request_eq_ok {f : Disk → Except Disk.Fault Disk} {w w' : World} {a : Unit}
    (h : (request f).perform w = (.ok a, w')) :
    ∃ disk, f w.disk = .ok disk ∧ w' = { w with disk } := by
  rcases hrequest : f w.disk with fault | disk
  · rw [perform_request_error hrequest] at h
    cases h
  · rw [perform_request_ok hrequest] at h
    exact ⟨disk, rfl, (Prod.mk.inj h).2.symm⟩

/-- A request of several steps changes the disk as far as it came. -/
@[simp]
theorem perform_requests (f : Disk → Except Disk.Fault Unit × Disk) (w : World) :
    (requests f).perform w = (orFail (f w.disk).1, { w with disk := (f w.disk).2 }) := by
  rw [requests, perform_step]

/-- A command is recorded with the disk that it finds, and what it leaves is the disk from then
on. -/
theorem perform_call (runner : Runner) (records : Records) (command : Command) (w : World) :
    (call runner records command).perform w = ((runner command w.disk).1,
      { w with
        calls := w.calls ++ [⟨command, w.disk⟩]
        disk := (runner command w.disk).2
        messages := w.messages ++ (records command w.disk).map .log ++
          (match (runner command w.disk).1 with
            | .error .interrupted => [cancelled]
            | _ => []) }) := by
  simp only [call]
  rw [perform_bind_ok _ (perform_disk w), perform_bind_ok _ (perform_change _ w)]
  rcases runner command w.disk with ⟨outcome, disk⟩
  rw [perform_bind_ok _ (perform_change _ _)]
  rcases outcome with e | result
  · cases e <;> simp [perform_bind]
  · simp

/-- The run that comes last always takes place and leaves the world. The outcome is that of the
first one unless the last one fails. -/
theorem perform_thenAlways (body : Run α) (after : Run Unit) (w : World) :
    (thenAlways body after).perform w =
      (match (after.perform (body.perform w).2).1 with
        | .ok () => (body.perform w).1
        | .error e => .error e,
      (after.perform (body.perform w).2).2) := by
  simp only [perform, StateT.run, ExceptT.run]
  simp only [thenAlways, ExceptT.mk, ExceptT.run, bind, StateT.bind, Id]
  rcases body w with ⟨outcome, w'⟩
  dsimp only
  rcases after w' with ⟨e | ⟨⟩, final⟩ <;> rfl

/-! ## Relations between the worlds of a run -/

/-- The run relates the world that it starts with to the one that it leaves, however it ends. -/
def Relates (R : World → World → Prop) (run : Run α) : Prop := ∀ w, R w (run.perform w).2

/-- A relation that says nothing about a run that does nothing, and that holds across a sequence of
runs when it holds across each. -/
structure Lasting (R : World → World → Prop) : Prop where
  refl : ∀ w, R w w
  trans : ∀ {a b c}, R a b → R b c → R a c

/-- The two worlds show the same in some view. -/
def Same (view : World → β) (before after : World) : Prop := view after = view before

/-- What a view shows stays across a sequence of runs if it stays across each. -/
theorem same_lasting (view : World → β) : Lasting (Same view) where
  refl _ := rfl
  trans hab hbc := hbc.trans hab

/-- A property of worlds that holds before a run and after it. -/
def Kept (I : World → Prop) (before after : World) : Prop := I before → I after

/-- A property stays across a sequence of runs if it stays across each. -/
theorem kept_lasting (I : World → Prop) : Lasting (Kept I) where
  refl _ h := h
  trans hab hbc h := hbc (hab h)

variable {R : World → World → Prop}

/-- A run that leaves the world alone relates it to itself. -/
theorem Relates.of_same (hR : Lasting R) {x : Run α} (h : ∀ w, (x.perform w).2 = w) :
    Relates R x := fun w => by rw [h w]; exact hR.refl w

/-- A sequence of runs relates its worlds when each of the runs does. -/
theorem Relates.bind (hR : Lasting R) {x : Run α} {f : α → Run β} (hx : Relates R x)
    (hf : ∀ a, Relates R (f a)) : Relates R (x >>= f) := by
  intro w
  have hfirst := hx w
  rw [perform_bind]
  rcases h : x.perform w with ⟨e | a, w'⟩
  · rw [h] at hfirst
    exact hfirst
  · rw [h] at hfirst
    exact hR.trans hfirst (hf a w')

/-- What holds after the first run of a sequence holds after the sequence if the other run keeps
it. -/
theorem kept_bind {I : World → Prop} {x : Run α} {f : α → Run β} {w : World}
    (hx : I (x.perform w).2) (hf : ∀ a, Relates (Kept I) (f a)) :
    I ((x >>= f).perform w).2 := by
  rw [perform_bind]
  rcases h : x.perform w with ⟨e | a, w'⟩
  all_goals rw [h] at hx
  · exact hx
  · exact hf a w' hx

/-- A run of two alternatives relates its worlds when both of them do. -/
theorem Relates.ite {c : Prop} [Decidable c] {x y : Run α} (hx : Relates R x)
    (hy : Relates R y) : Relates R (if c then x else y) := by
  split
  · exact hx
  · exact hy

end Run

end ProviderKit
