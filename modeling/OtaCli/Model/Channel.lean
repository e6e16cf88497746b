import OtaCli.Model.Process

/-! # The life of a channel

How the driver is to be used for one channel: it is opened and its handle is kept, it is configured and put on
the bus before a loop reads from it and before anything is written, a frame that was handed over is waited for
before the next one, and the channel is taken off the bus before it is closed. All of this on the one handle.
What the calls return is no part of it, and reading is what a loop may go on with once it has been started.
-/

namespace OtaCli.Model

namespace Channel

inductive Phase where
  | closed
  | opened (handle : Int32)
  | kept (handle : Int32)
  | configured (handle : Int32)
  | onBus (handle : Int32)
  | serving (handle : Int32)
  | sending (handle : Int32)
  | offBus (handle : Int32)
  | released (handle : Int32)

/-- A use of the driver, or the start of a loop that uses it. -/
inductive Use where
  /-- `canOpenChannel` returns the handle. -/
  | openChannel (handle : Int32)
  /-- The handle is kept in the field. -/
  | keep (handle : Int32)
  | setBusParams (handle : Int32)
  | busOn (handle : Int32)
  | startReader
  | write (handle : Int32)
  | writeSync (handle : Int32)
  | read (handle : Int32)
  | busOff (handle : Int32)
  | close (handle : Int32)

namespace Phase

/-- The handle in the field, once it is there. -/
@[simp] def handle? : Phase → Option Int32
  | .closed | .opened _ => none
  | .kept handle | .configured handle | .onBus handle | .serving handle | .sending handle | .offBus handle
  | .released handle => some handle

/-- A loop may be reading. -/
@[simp] def isRead : Phase → Bool
  | .serving _ | .sending _ | .offBus _ | .released _ => true
  | _ => false

end Phase

def step : Phase → Use → Option Phase
  | .closed, .openChannel handle => some (.opened handle)
  | .opened handle, .keep used => if handle = used then some (.kept handle) else none
  | .kept handle, .setBusParams used => if handle = used then some (.configured handle) else none
  | .configured handle, .busOn used => if handle = used then some (.onBus handle) else none
  | .onBus handle, .startReader => some (.serving handle)
  | .serving handle, .write used => if handle = used then some (.sending handle) else none
  | .sending handle, .writeSync used => if handle = used then some (.serving handle) else none
  | .serving handle, .busOff used => if handle = used then some (.offBus handle) else none
  | .offBus handle, .close used => if handle = used then some (.released handle) else none
  | phase, .read used => if phase.isRead ∧ phase.handle? = some used then some phase else none
  | _, _ => none

def machine : LabeledMachine Phase Use := ⟨step⟩

/-- The same steps as rules. -/
inductive Step : Phase → Use → Phase → Prop
  | openChannel {handle} : Step .closed (.openChannel handle) (.opened handle)
  | keep {handle} : Step (.opened handle) (.keep handle) (.kept handle)
  | setBusParams {handle} : Step (.kept handle) (.setBusParams handle) (.configured handle)
  | busOn {handle} : Step (.configured handle) (.busOn handle) (.onBus handle)
  | startReader {handle} : Step (.onBus handle) .startReader (.serving handle)
  | write {handle} : Step (.serving handle) (.write handle) (.sending handle)
  | writeSync {handle} : Step (.sending handle) (.writeSync handle) (.serving handle)
  | busOff {handle} : Step (.serving handle) (.busOff handle) (.offBus handle)
  | close {handle} : Step (.offBus handle) (.close handle) (.released handle)
  | read {phase handle} (reads : phase.isRead = true) (kept : phase.handle? = some handle) :
      Step phase (.read handle) phase

variable {phase next : Phase} {use : Use}

theorem step_eq_some_iff : machine.step phase use = some next ↔ Step phase use next := by
  constructor
  · intro moved
    match phase, use, moved with
    | .closed, .openChannel handle, rfl => exact .openChannel
    | .onBus handle, .startReader, rfl => exact .startReader
    | .opened handle, .keep used, moved =>
      obtain ⟨rfl, same⟩ := Option.ite_none_right_eq_some.mp moved
      cases same
      exact .keep
    | .kept handle, .setBusParams used, moved =>
      obtain ⟨rfl, same⟩ := Option.ite_none_right_eq_some.mp moved
      cases same
      exact .setBusParams
    | .configured handle, .busOn used, moved =>
      obtain ⟨rfl, same⟩ := Option.ite_none_right_eq_some.mp moved
      cases same
      exact .busOn
    | .serving handle, .write used, moved =>
      obtain ⟨rfl, same⟩ := Option.ite_none_right_eq_some.mp moved
      cases same
      exact .write
    | .sending handle, .writeSync used, moved =>
      obtain ⟨rfl, same⟩ := Option.ite_none_right_eq_some.mp moved
      cases same
      exact .writeSync
    | .serving handle, .busOff used, moved =>
      obtain ⟨rfl, same⟩ := Option.ite_none_right_eq_some.mp moved
      cases same
      exact .busOff
    | .offBus handle, .close used, moved =>
      obtain ⟨rfl, same⟩ := Option.ite_none_right_eq_some.mp moved
      cases same
      exact .close
    | phase, .read used, moved =>
      have reading : step phase (.read used) =
          if phase.isRead ∧ phase.handle? = some used then some phase else none := by cases phase <;> rfl
      obtain ⟨⟨reads, kept⟩, same⟩ := Option.ite_none_right_eq_some.mp (reading.symm.trans moved)
      cases same
      exact .read reads kept
  · intro stepped
    cases stepped with
    | read reads kept => cases phase <;> simp_all [machine, step]
    | _ => simp [machine, step]

/-- A handle that is kept stays, and none comes but by keeping it. -/
theorem Step.handle (stepped : Step phase use next) :
    next.handle? = phase.handle? ∨ ∃ handle, use = .keep handle ∧ next.handle? = some handle := by
  cases stepped
  case keep handle => exact .inr ⟨handle, rfl, rfl⟩
  all_goals exact .inl rfl

theorem Phase.exists_handle (reads : phase.isRead = true) : ∃ handle, phase.handle? = some handle := by
  cases phase <;> first | exact ⟨_, rfl⟩ | cases reads

/-- Once a loop may read, it may. -/
theorem Step.reading (stepped : Step phase use next) (reads : phase.isRead = true) : next.isRead = true := by
  cases stepped <;> first | exact reads | rfl

end Channel

namespace Process

/-- The use of the channel in which an event of the process consists, if any. -/
def Event.use? : Event → Option Channel.Use
  | .main ⟨.canOpenChannel _ _, handle⟩ => some (.openChannel handle)
  | .main ⟨.setHandle handle, _⟩ => some (.keep handle)
  | .main ⟨.canSetBusParams handle _ _ _ _ _, _⟩ => some (.setBusParams handle)
  | .main ⟨.canBusOn handle, _⟩ => some (.busOn handle)
  | .main ⟨.startReader, _⟩ => some .startReader
  | .main ⟨.canBusOff handle, _⟩ => some (.busOff handle)
  | .main ⟨.canClose handle, _⟩ => some (.close handle)
  | .canWrite handle _ _ => some (.write handle)
  | .canWriteSync handle _ _ => some (.writeSync handle)
  | .reader _ (.canRead handle _) => some (.read handle)
  | _ => none

/-- How a tape of the process uses the channel. -/
def uses (tape : List Event) : List Channel.Use := tape.filterMap Event.use?

end Process

end OtaCli.Model
