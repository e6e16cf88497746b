import OtaCli.Model.LifecycleTape

/-! # What `Init` says of the driver

`Init` drops the results of `CheckForError`, so it returns true once the channel is in the list,
whatever becomes of the calls that open it. And it hands the handle to `CheckForError` as if it were a
status, so that every handle but the first is reported as an error.
-/

namespace OtaCli.Proofs.InitReport

open Model Model.KvaserInterface Interaction

/-- The channels left open by a tape. An answer below zero is an error and opens none. -/
def openHandles (tape : List Performed) : List Int32 :=
  tape.foldl (fun handles event => match event with
    | ⟨.canOpenChannel _ _, handle⟩ => if handle < 0 then handles else handle :: handles
    | ⟨.canClose handle, _⟩ => handles.filter (· ≠ handle)
    | _ => handles) []

/-- The channel could not be opened, configured or put on the bus. -/
def Failure (tape : List Performed) : Prop :=
  (∃ handle ∈ opened tape, handle < 0) ∨ ∃ s ∈ statuses tape, s.2 ≠ canOK

/-- An error of the driver call was written to the console. -/
def Reported (cmd : String) (tape : List Performed) : Prop :=
  ∃ buf stat, .writeLine (failed cmd buf stat) ∈ operations tape

/-- A channel was opened, configured and put on the bus. -/
def OnBus (tape : List Performed) : Prop :=
  ∃ handle ∈ opened tape, 0 ≤ handle ∧
    (∃ baudRate, (.canSetBusParams handle baudRate 0 0 0 0, canOK) ∈ statuses tape) ∧
    (.canBusOn handle, canOK) ∈ statuses tape

structure Truthful (tape : List Performed) (outcome : Except Exception Bool) : Prop where
  ready : outcome = .ok true → OnBus tape
  clean : Failure tape → outcome ≠ .ok true ∧ openHandles tape = [] ∧ .startReader ∉ operations tape
  reported : Reported "canOpenChannel" tape ↔ ∃ handle ∈ opened tape, handle < 0

/-- The handle that was answered is the first one, and the other two calls succeeded, as far as they
were made. -/
def Smooth (tape : List Performed) : Prop :=
  (∀ handle ∈ opened tape, handle = 0) ∧ ∀ s ∈ statuses tape, s.2 = canOK

theorem not_reported_nil (cmd : String) : ¬ Reported cmd [] := by simp [Reported]

theorem reported_cons {cmd : String} {event : Performed} {tape : List Performed}
    (silent : ∀ line, event.1 ≠ .writeLine line) : Reported cmd (event :: tape) ↔ Reported cmd tape := by
  simp only [Reported, operations_cons, List.mem_cons, (silent _).symm, false_or]

theorem reported_append {cmd : String} {first second : List Performed} :
    Reported cmd (first ++ second) ↔ Reported cmd first ∨ Reported cmd second := by
  simp only [Reported, operations_append, List.mem_append, exists_or]

private theorem reported_report {cmd other : String} {stat : CanStatus} {buf : String} :
    Reported cmd (report other stat buf) ↔ cmd = other ∧ stat ≠ canOK := by
  by_cases fine : stat = canOK
  · simp [Reported, report, fine]
  · simp [Reported, report, fine, failed]

theorem not_reported_of_isListing {listing : List Performed}
    (isListing : ∀ event ∈ listing, IsListing event.1) : ¬ Reported "canOpenChannel" listing := by
  rintro ⟨buf, stat, member⟩
  obtain ⟨event, inside, same⟩ := List.mem_map.mp member
  have line := isListing event inside
  rw [same] at line
  obtain ⟨cmd, _, _, lines, cmd_eq⟩ := line
  simp only [failed, Line.format.injEq, List.cons.injEq, Argument.string.injEq, true_and] at lines
  rcases cmd_eq with rfl | rfl
  · exact absurd lines.1 (by decide)
  · exact absurd lines.1 (by decide)

section Opening

variable (answers : Opening) (chanelId baudRate : Int32)

private theorem reported_performed :
    Reported "canOpenChannel" (answers.performed chanelId baudRate) ↔ answers.handle ≠ 0 := by
  simp [Opening.performed, reported_cons, reported_append, reported_report, not_reported_nil, canOK]

end Opening

variable {chanelId baudRate : Int32} {tape : List Performed} {outcome : Except Exception Bool}
  {o o' : Fields}

/-- Where the channel is not in the list, nothing is done that could fail. -/
private theorem truthful_of_missing {listing : List Performed} (found : List (Int32 × String))
    (isListing : ∀ event ∈ listing, IsListing event.1) :
    Truthful (listing ++ [⟨.getInterfaces, found⟩]) (.ok false) ∧
      Smooth (listing ++ [⟨.getInterfaces, found⟩]) := by
  have none_opened : opened (listing ++ [⟨.getInterfaces, found⟩]) = [] := by
    simp [opened_of_isListing isListing, opened_cons]
  have no_statuses : statuses (listing ++ [⟨.getInterfaces, found⟩]) = [] := by
    simp [statuses_of_isListing isListing, statuses_cons]
  have unreported : ¬ Reported "canOpenChannel" (listing ++ [⟨.getInterfaces, found⟩]) := by
    rw [reported_append, reported_cons (by simp)]
    exact not_or.mpr ⟨not_reported_of_isListing isListing, not_reported_nil _⟩
  refine ⟨⟨nofun, ?_, ?_⟩, ?_⟩
  · simp [Failure, none_opened, no_statuses]
  · simp [unreported, none_opened]
  · simp [Smooth, none_opened, no_statuses]

/-- Where it is, `Init` returns true, and this is the whole truth only if all went smoothly. -/
private theorem truthful_iff_of_listed {listing : List Performed} {found : List (Int32 × String)}
    (answers : Opening) (isListing : ∀ event ∈ listing, IsListing event.1)
    (shape : tape = listing ++ ⟨.getInterfaces, found⟩ :: answers.performed chanelId baudRate) :
    Truthful tape (.ok true) ↔ Smooth tape := by
  have handles : opened tape = [answers.handle] := by
    simp [shape, opened_of_isListing isListing, opened_cons]
  have calls : statuses tape = [(.canSetBusParams answers.handle baudRate 0 0 0 0, answers.setBusParams),
      (.canBusOn answers.handle, answers.busOn)] := by
    simp [shape, statuses_of_isListing isListing, statuses_cons]
  have reports : Reported "canOpenChannel" tape ↔ answers.handle ≠ 0 := by
    rw [shape, reported_append, reported_cons (by simp), reported_performed]
    exact or_iff_right (not_reported_of_isListing isListing)
  have smooth_iff : Smooth tape ↔
      answers.handle = 0 ∧ answers.setBusParams = canOK ∧ answers.busOn = canOK := by
    simp [Smooth, handles, calls]
  have failure_iff : Failure tape ↔
      answers.handle < 0 ∨ answers.setBusParams ≠ canOK ∨ answers.busOn ≠ canOK := by
    simp [Failure, handles, calls]
  rw [smooth_iff]
  constructor
  · intro truthful
    have fine : ¬ Failure tape := fun failure => (truthful.clean failure).1 rfl
    rw [failure_iff, not_or, not_or, not_not, not_not] at fine
    obtain ⟨opens, configures, starts⟩ := fine
    refine ⟨?_, configures, starts⟩
    by_contra later
    obtain ⟨handle, member, negative⟩ := truthful.reported.mp (reports.mpr later)
    rw [handles, List.mem_singleton] at member
    exact opens (member ▸ negative)
  · rintro ⟨first, configures, starts⟩
    have onBus : OnBus tape := by
      refine ⟨0, ?_, by decide, ⟨baudRate, ?_⟩, ?_⟩
      · simp [handles, first]
      · simp [calls, first, configures]
      · simp [calls, first, starts]
    refine ⟨fun _ => onBus, fun failure => ?_, ?_⟩
    · rw [failure_iff, first, configures, starts] at failure
      simp at failure
    · rw [reports, handles, first]
      simp

/-- `Init` reports every failure and leaves nothing behind exactly when there is none to report, and the
handle is the first one: zero is the only handle that looks like success. -/
theorem truthful_iff (ends : Ends (init chanelId baudRate) tape outcome)
    (run : Fields.machine.Run o tape o') : Truthful tape outcome ↔ Smooth tape := by
  obtain ⟨listing, found, isListing, ⟨-, rfl, rfl⟩ | ⟨-, rfl, answers, shape, -⟩⟩ := init_cases ends run
  · obtain ⟨truthful, smooth⟩ := truthful_of_missing found isListing
    exact iff_of_true truthful smooth
  · exact truthful_iff_of_listed answers isListing shape

/-- The first channel is opened, and all is well. -/
theorem truthful_of_first_handle :
    Truthful (oneChannel ++ (⟨0, canOK, canOK, ("", "", "")⟩ : Opening).performed 0 (-2)) (.ok true) := by
  have smooth : Smooth (oneChannel ++ (⟨0, canOK, canOK, ("", "", "")⟩ : Opening).performed 0 (-2)) := by
    simp [Smooth, oneChannel, opened_cons, statuses_cons]
  exact (truthful_iff (oneChannel_ends _ _) (oneChannel_run _ _ false)).mpr smooth

/-- The channel cannot be opened, and `Init` returns true. -/
theorem not_truthful_of_failed_open :
    ∃ (tape : List Performed) (o : Fields), Ends (init 0 (-2)) tape (.ok true) ∧
      Fields.machine.Run {} tape o ∧ (∃ handle ∈ opened tape, handle < 0) ∧
        ¬ Truthful tape (.ok true) := by
  refine ⟨_, _, oneChannel_ends ⟨-1, canOK, canOK, ("", "", "")⟩ (-2), oneChannel_run _ _ false, ?_, ?_⟩
  · simp [oneChannel, opened_cons]
  · rw [truthful_iff (oneChannel_ends _ _) (oneChannel_run _ _ false)]
    simp [Smooth, oneChannel, opened_cons]

end OtaCli.Proofs.InitReport
