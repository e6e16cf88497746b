import OtaCli.Machine.Refinement
import OtaCli.Model.Channel
import OtaCli.Soundness.ProcessRefinement

/-! # `Main` uses the channel in order

The code of `Main` follows the life of a channel whatever it is answered, and so does the process, in which a
call is two uses and the loops read in between. No status is looked at on the way: a channel that could not be
opened is used as well.
-/

namespace OtaCli.Soundness.ChannelUse

open Model Model.Process Interaction LabeledMachine Proofs.Release Proofs.MainCode ProcessRefinement
open KvaserInterface (Fields)

variable {options : CommandLineOptions} {files : String → File} {α : Type} {o o' : Fields} {handle : Int32}
  {post : α → Fields → Channel.Phase → Prop} {phase : Channel.Phase}

/-- The uses of the channel in an operation of the code. A call writes and waits for the frame. -/
def codeUses (o : Fields) : Performed → List Channel.Use
  | ⟨.writeCmdMsgRsp _, _⟩ => [.write o.handle, .writeSync o.handle]
  | event => (Process.Event.main event).use?.toList

/-- The contract of code which uses the channel in order. -/
abbrev UsesInOrder (p : Code α) (post : α → Fields → Channel.Phase → Prop) (o : Fields)
    (phase : Channel.Phase) : Prop := p.Follows Fields.machine Channel.machine codeUses post o phase

section Operations

/-- Operations which neither use the channel nor write the field of the handle. -/
def IsUseless : Op → Prop
  | .writeLine _ | .readKey | .canInitializeLibrary | .canGetNumberOfChannels | .canGetChannelData _ _
  | .canGetErrorText _ | .getInterfaces | .addInterface _ _ | .getHandle | .cancel => True
  | _ => False

theorem useless_step {event : Performed} (useless : IsUseless event.1) (acts : o.step event = some o') :
    o'.handle = o.handle ∧ codeUses o event = [] := by
  rcases event with ⟨op, answer⟩
  cases op
  case getInterfaces =>
    obtain ⟨-, same⟩ := Option.ite_none_right_eq_some.mp acts
    cases same
    exact ⟨rfl, rfl⟩
  case getHandle =>
    obtain ⟨-, same⟩ := Option.ite_none_right_eq_some.mp acts
    cases same
    exact ⟨rfl, rfl⟩
  all_goals first | exact useless.elim | (cases acts; exact ⟨rfl, rfl⟩)

theorem useless_order {p : Code α} (only : p.Only IsUseless)
    (holds : ∀ value o', o'.handle = o.handle → post value o' phase) : UsesInOrder p post o phase := by
  refine only.follows (I := fun o' => o'.handle = o.handle) ?_ rfl holds
  intro event t t' useless same acts
  obtain ⟨still, silent⟩ := useless_step useless acts
  exact ⟨still.trans same, silent⟩

private theorem skip_order {op : Op} {next : op.Answer → Code α} (useless : IsUseless op)
    (rest : ∀ answer o', o'.handle = o.handle → UsesInOrder (next answer) post o' phase) :
    UsesInOrder (.perform op next) post o phase := by
  apply Follows.skip
  intro answer o' acts
  obtain ⟨kept, unused⟩ := useless_step useless acts
  exact ⟨unused, rest answer o' kept⟩

theorem checked_order {stat : CanStatus} {cmd : String} {f : Bool → Code α}
    (rest : ∀ value o', o'.handle = o.handle → UsesInOrder (f value) post o' phase) :
    UsesInOrder (KvaserInterface.checkForError stat cmd >>= f) post o phase :=
  Follows.bind (useless_order (KvaserInterface.checkForError_only trivial fun _ => trivial) rest)

/-- An operation that leaves the fields alone, and is a use of the channel. -/
theorem use_order {op : Op} {next : op.Answer → Code α} (silent : ∀ answer, o.step ⟨op, answer⟩ = some o)
    (uses : ∀ answer, ∃ use phase', codeUses o ⟨op, answer⟩ = [use] ∧ Channel.Step phase use phase' ∧
      UsesInOrder (next answer) post o phase') : UsesInOrder (.perform op next) post o phase := by
  apply Follows.emit silent
  intro answer
  obtain ⟨use, phase', same, step, rest⟩ := uses answer
  exact ⟨use, phase', same, Channel.step_eq_some_iff.mpr step, rest⟩

/-- The handle is loaded from the field. -/
theorem load_order {next : Int32 → Code α} (rest : UsesInOrder (next o.handle) post o phase) :
    UsesInOrder (.perform .getHandle next) post o phase := by
  intro seen o' acts
  obtain ⟨rfl, same⟩ := Option.ite_none_right_eq_some.mp acts
  cases same
  exact ⟨phase, .refl _, rest⟩

end Operations

section Parts

/-- Where `Init` leaves the channel. -/
def Initial (value : Bool) (o : Fields) (phase : Channel.Phase) : Prop :=
  if value then phase = .serving o.handle else phase = .closed

private theorem init_order (chanelId baudRate : Int32) (o : Fields) :
    UsesInOrder (KvaserInterface.init chanelId baudRate) Initial o .closed := by
  have listing : KvaserInterface.listChannels.Only IsUseless := by
    apply KvaserInterface.listChannels_only.mono
    intro op listing
    cases op <;> trivial
  simp only [KvaserInterface.init, call_bind, pure_eq]
  intro _ o₁ _
  refine ⟨.closed, .refl _, Follows.bind (useless_order listing fun _ o₂ _ found o₃ seen => ?_)⟩
  refine ⟨.closed, .refl _, ?_⟩
  beta_reduce
  split
  · exact rfl
  refine use_order (fun _ => rfl) fun handle => ⟨_, _, rfl, .openChannel, ?_⟩
  intro _ o₄ sets
  obtain rfl := Option.some.inj sets
  refine ⟨.kept handle, Run.singleton_iff.mpr (Channel.step_eq_some_iff.mpr .keep), load_order ?_⟩
  refine checked_order fun _ o₅ kept => load_order ?_
  rw [kept]
  refine use_order (fun _ => rfl) fun status => ⟨_, _, rfl, .setBusParams, ?_⟩
  refine checked_order fun _ o₆ kept' => load_order ?_
  rw [kept', kept]
  refine use_order (fun _ => rfl) fun status => ⟨_, _, rfl, .busOn, ?_⟩
  refine checked_order fun _ o₇ kept'' => ?_
  refine use_order (fun _ => rfl) fun _ => ⟨_, _, rfl, .startReader, ?_⟩
  simp [UsesInOrder, Follows, Initial, kept'', kept', kept]

/-- An updater leaves the channel in service, however its calls come out. -/
private theorem updater_order (client : Client Bool) (o : Fields) :
    UsesInOrder client.toCode (fun _ o' phase => o' = o ∧ phase = .serving o.handle) o (.serving o.handle) := by
  induction client with
  | ret value => exact ⟨rfl, rfl⟩
  | raise e => trivial
  | writeLine value next ih =>
    intro _ o' acts
    obtain rfl := Option.some.inj acts
    exact ⟨_, .refl _, ih⟩
  | writeCmdMsgRsp cmd next ih =>
    intro response o' acts
    obtain rfl := Option.some.inj acts
    refine ⟨.serving o.handle, ?_, ih response⟩
    refine Run.cons_iff.mpr ⟨_, Channel.step_eq_some_iff.mpr .write, ?_⟩
    exact Run.singleton_iff.mpr (Channel.step_eq_some_iff.mpr .writeSync)

private theorem stop_order {f : Unit → Code α}
    (rest : ∀ o', o'.handle = o.handle → UsesInOrder (f ()) post o' (.released o.handle)) :
    UsesInOrder (KvaserInterface.stop >>= f) post o (.serving o.handle) := by
  apply Follows.bind
  simp only [KvaserInterface.stop, call_bind]
  refine load_order (use_order (fun _ => rfl) fun status => ⟨_, _, rfl, .busOff, ?_⟩)
  refine checked_order fun _ o₁ kept => load_order ?_
  rw [kept]
  refine use_order (fun _ => rfl) fun status => ⟨_, _, rfl, .close, ?_⟩
  refine checked_order fun _ o₂ kept' => ?_
  intro _ o₃ cancels
  obtain rfl := Option.some.inj cancels
  exact ⟨_, .refl _, rest _ (kept'.trans kept)⟩

private theorem finish_order (o : Fields) : UsesInOrder (finish (chosen options files))
    (fun _ o' phase => phase = .released o'.handle) o (.serving o.handle) := by
  simp only [finish, verify_toCode, call_bind, ret_bind]
  refine skip_order (by trivial) fun _ o₁ kept₁ => skip_order (by trivial) fun _ o₂ kept₂ =>
    skip_order (by trivial) fun key o₃ kept₃ => ?_
  rw [← kept₁, ← kept₂, ← kept₃]
  cases key with
  | error e => trivial
  | ok _ =>
    refine stop_order fun o₄ kept₄ => skip_order (by trivial) fun _ o₅ kept₅ => ?_
    rw [← kept₄, ← kept₅]
    exact rfl

/-- Where `Main` leaves the channel when it returns: it never opened it, a scan has left it in service, or it
was released. -/
def Final (options : Option CommandLineOptions) (o : Fields) (phase : Channel.Phase) : Prop :=
  phase = .closed ∨ ((∃ given, options = some given ∧ given.scan = true) ∧ phase = .serving o.handle) ∨
    phase = .released o.handle

private theorem main_order (options : Option CommandLineOptions) (files : String → File) :
    UsesInOrder (Program.main options files) (fun _ => Final options) {} .closed := by
  cases options with
  | none => exact useless_order ⟨trivial, fun _ => trivial⟩ fun _ _ _ => .inl rfl
  | some options =>
    rw [main_eq]
    apply Follows.bind
    apply (init_order _ _ _).mono
    intro value o phase initial
    cases value with
    | false =>
      obtain rfl : phase = .closed := initial
      exact useless_order (unavailable_only trivial trivial trivial fun _ => trivial) fun _ _ _ => .inl rfl
    | true =>
      obtain rfl : phase = .serving o.handle := initial
      cases scan : options.scan with
      | true =>
        have code : afterInit options files true = scanning := by simp [afterInit, scan]
        rw [code]
        refine useless_order ⟨trivial, fun _ => trivial⟩ fun _ o' kept => ?_
        exact .inr (.inl ⟨⟨options, rfl, scan⟩, by rw [kept]⟩)
      | false =>
        have code : afterInit options files true =
            (updating options files).toCode >>= fun _ => finish (chosen options files) := by
          simp [afterInit, scan]
        rw [code]
        apply Follows.bind
        apply (updater_order _ o).mono
        rintro _ o' phase ⟨rfl, rfl⟩
        exact (finish_order o').mono fun _ _ _ released => .inr (.inr released)

end Parts

section Threads

variable {options : Option CommandLineOptions} {s t : State} {event : Process.Event} {tape : List Process.Event}

/-- What the main thread will still do, by where it stands: within a call, the frame is to be waited for first,
and then the channel is in service again. -/
def MainInOrder (options : Option CommandLineOptions) (main : MainPc) (o : Fields) (phase : Channel.Phase) : Prop :=
  match main with
  | .code p => UsesInOrder p (fun _ => Final options) o phase
  | .checkWrite call _ | .writeSync call => phase = .sending o.handle ∧
    ∀ response, UsesInOrder (call.next response) (fun _ => Final options) o (.serving o.handle)
  | .checkWriteSync call _ | .loopTest call _ | .loopBody call | .clear call _ => phase = .serving o.handle ∧
    ∀ response, UsesInOrder (call.next response) (fun _ => Final options) o (.serving o.handle)

/-- The phase of the channel in a state of the process. -/
structure InOrder (options : Option CommandLineOptions) (s : State) (phase : Channel.Phase) : Prop where
  main : MainInOrder options s.main s.fields phase
  kept : ∀ handle, phase.handle? = some handle → s.fields.handle = handle
  reading : s.readers ≠ [] → phase.isRead = true

/-- The field of the handle is written in one way. -/
private theorem handle_of_step {event : Performed} (acts : o.step event = some o') :
    (∃ handle, event.1 = .setHandle handle ∧ o'.handle = handle) ∨
      (∀ handle, event.1 ≠ .setHandle handle) ∧ o'.handle = o.handle := by
  rcases event with ⟨op, answer⟩
  cases op
  case setHandle handle =>
    cases acts
    exact .inl ⟨handle, rfl, rfl⟩
  case getInterfaces =>
    obtain ⟨-, same⟩ := Option.ite_none_right_eq_some.mp acts
    cases same
    exact .inr ⟨nofun, rfl⟩
  case getHandle =>
    obtain ⟨-, same⟩ := Option.ite_none_right_eq_some.mp acts
    cases same
    exact .inr ⟨nofun, rfl⟩
  all_goals
    cases acts
    exact .inr ⟨nofun, rfl⟩

private theorem codeUses_of_own {event : Performed} (own : isCall event.1 = false) :
    codeUses o event = (Process.Event.main event).use?.toList := by
  rcases event with ⟨op, answer⟩
  cases op <;> first | rfl | cases own

/-- What an operation of the main thread means for the channel. -/
private theorem use_of_main {event : Performed} {use : Channel.Use}
    (used : (Process.Event.main event).use? = some use) :
    (∀ handle, use = .keep handle ↔ event.1 = .setHandle handle) ∧
      (use = .startReader ↔ event.1 = .startReader) := by
  rcases event with ⟨op, answer⟩
  cases op <;> cases used <;> simp

variable {slot : Option ResponsePacket} {readers : List ReaderPc} {p next : Code Unit}

theorem InOrder.main_step {event : Performed} (inOrder : InOrder options ⟨.code p, o, slot, readers⟩ phase)
    (own : isCall event.1 = false) (moves : (Interaction.machine _ _ _).step p event = some next)
    (acts : o.step event = some o') :
    ∃ phase', Channel.machine.Run phase (Process.Event.main event).use?.toList phase' ∧
      InOrder options ⟨.code next, o', slot, Lifetime.startReader readers event.1⟩ phase' := by
  obtain ⟨main, kept, reading⟩ := inOrder
  obtain ⟨phase', run, rest⟩ := Follows.step main moves acts
  rw [codeUses_of_own own] at run
  refine ⟨phase', run, rest, ?_, ?_⟩
  · intro handle there
    cases used : (Process.Event.main event).use? with
    | none =>
      obtain rfl := Run.nil_iff.mp (used ▸ run)
      obtain ⟨stored, sets, -⟩ | ⟨-, same⟩ := handle_of_step acts
      · rcases event with ⟨op, answer⟩
        cases sets
        cases used
      · exact same.trans (kept handle there)
    | some use =>
      have step := Channel.step_eq_some_iff.mp (Run.singleton_iff.mp (used ▸ run))
      obtain ⟨keeps, -⟩ := use_of_main used
      obtain ⟨stored, sets, same⟩ | ⟨other, same⟩ := handle_of_step acts
      · obtain rfl := (keeps stored).mpr sets
        cases step
        exact same.trans (Option.some.inj there)
      · obtain before | ⟨stored, rfl, -⟩ := step.handle
        · exact same.trans (kept handle (before ▸ there))
        · exact absurd ((keeps stored).mp rfl) (other stored)
  · intro begun
    cases used : (Process.Event.main event).use? with
    | none =>
      obtain rfl := Run.nil_iff.mp (used ▸ run)
      have unstarted : event.1 ≠ .startReader := by
        rcases event with ⟨op, answer⟩
        rintro rfl
        cases used
      simp only [startReader_of_ne unstarted] at begun
      exact reading begun
    | some use =>
      have step := Channel.step_eq_some_iff.mp (Run.singleton_iff.mp (used ▸ run))
      by_cases starts : event.1 = .startReader
      · obtain rfl := (use_of_main used).2.mpr starts
        cases step
        rfl
      · simp only [startReader_of_ne starts] at begun
        exact step.reading (reading begun)

/-- A read is of the handle that is kept. -/
theorem InOrder.reader_step {i : ℕ} {event : Lifetime.ReaderEvent} {main : MainPc} {r moved : ReaderPc}
    (inOrder : InOrder options ⟨main, o, slot, readers⟩ phase) (stands : readers[i]? = some r)
    (moves : Lifetime.readerStep o r event = some moved) :
    Channel.machine.Run phase (Process.Event.reader i event).use?.toList phase ∧
      InOrder options ⟨main, o, Lifetime.storeResponse slot event, readers.set i moved⟩ phase := by
  have begun : readers ≠ [] := List.ne_nil_of_mem (List.mem_of_getElem? stands)
  refine ⟨?_, inOrder.main, inOrder.kept, fun _ => inOrder.reading begun⟩
  obtain ⟨rfl, rfl, rfl⟩ | ⟨rfl, result, rfl, rfl⟩ | ⟨packet, rfl, rfl, rfl⟩ :=
    Lifetime.readerStep_cases moves
  · exact .refl _
  · have reads := inOrder.reading begun
    obtain ⟨handle, there⟩ := Channel.Phase.exists_handle reads
    obtain rfl : o.handle = handle := inOrder.kept handle there
    exact Run.singleton_iff.mpr (Channel.step_eq_some_iff.mpr (.read reads there))
  · exact .refl _

private theorem mainInOrder_wrote {call : Activation} (rest : Code Bool) (sending : phase = .sending o.handle)
    (later : ∀ response, UsesInOrder (call.next response) (fun _ => Final options) o (.serving o.handle)) :
    MainInOrder options (.wrote call rest) o phase := by
  cases rest <;> exact ⟨sending, later⟩

private theorem mainInOrder_synced {call : Activation} (rest : Code Bool) (serving : phase = .serving o.handle)
    (later : ∀ response, UsesInOrder (call.next response) (fun _ => Final options) o (.serving o.handle)) :
    MainInOrder options (.synced call rest) o phase := by
  cases rest <;> exact ⟨serving, later⟩

/-- A call can only be made while the channel is in service, and leaves it so. -/
private theorem serving_of_call {cmd : CommandPacket} {next : Option ResponsePacket → Code Unit} {post}
    (order : UsesInOrder (.perform (.writeCmdMsgRsp cmd) next) post o phase) :
    phase = .serving o.handle ∧ ∀ response, UsesInOrder (next response) post o (.serving o.handle) := by
  have after (response : Option ResponsePacket) : phase = .serving o.handle ∧
      UsesInOrder (next response) post o (.serving o.handle) := by
    obtain ⟨phase', run, rest⟩ := order response o rfl
    obtain ⟨middle, writes, run⟩ := Run.cons_iff.mp run
    cases Channel.step_eq_some_iff.mp writes
    cases Channel.step_eq_some_iff.mp (Run.singleton_iff.mp run)
    exact ⟨rfl, rest⟩
  exact ⟨(after none).1, fun response => (after response).2⟩

theorem InOrder.step (inOrder : InOrder options s phase) (stepped : Process.Step s event t) :
    ∃ phase', Channel.machine.Run phase event.use?.toList phase' ∧ InOrder options t phase' := by
  cases stepped
  case main own moves acts => exact inOrder.main_step own moves acts
  case reader stands moves => exact ⟨phase, inOrder.reader_step stands moves⟩
  case canWrite status =>
    obtain ⟨main, kept, reading⟩ := inOrder
    obtain ⟨rfl, later⟩ := serving_of_call main
    exact ⟨_, Run.singleton_iff.mpr (Channel.step_eq_some_iff.mpr .write), mainInOrder_wrote _ rfl later,
      kept, reading⟩
  case canWriteSync status =>
    obtain ⟨⟨rfl, later⟩, kept, reading⟩ := inOrder
    exact ⟨_, Run.singleton_iff.mpr (Channel.step_eq_some_iff.mpr .writeSync), mainInOrder_synced _ rfl later,
      kept, reading⟩
  case reportWrite =>
    obtain ⟨⟨rfl, later⟩, kept, reading⟩ := inOrder
    exact ⟨_, .refl _, mainInOrder_wrote _ rfl later, kept, reading⟩
  case reportSync =>
    obtain ⟨⟨rfl, later⟩, kept, reading⟩ := inOrder
    exact ⟨_, .refl _, mainInOrder_synced _ rfl later, kept, reading⟩
  case clear =>
    obtain ⟨⟨rfl, later⟩, kept, reading⟩ := inOrder
    exact ⟨_, .refl _, later _, kept, reading⟩
  all_goals exact ⟨_, .refl _, inOrder.main, inOrder.kept, inOrder.reading⟩

private theorem channel_simulates (options : Option CommandLineOptions) (files : String → File) :
    Simulates Process.machine Channel.machine Process.Event.use? (fun _ => InOrder options)
      (new (Program.main options files)) := by
  constructor
  rintro tape s phase event t - inOrder stepped
  exact inOrder.step (step_eq_some_iff.mp stepped).2

/-- The process uses its channel in the order of its life, in every interleaving and whatever the driver
answers: it is opened at most once, its handle is kept before anything else is done with it, no loop reads and
no frame is written before the channel was configured and put on the bus, each frame is waited for before the
next one, and after the channel was taken off the bus and closed nothing is done to it any more but what loops
go on to read; all of this with the one handle. When `Main` has returned, it never had a channel, or a scan has
left it in service, or it was released. -/
theorem channel_used_in_order (options : Option CommandLineOptions) (files : String → File)
    (run : Process.machine.Run (new (Program.main options files)) tape s) :
    ∃ phase, Channel.machine.Run .closed (uses tape) phase ∧
      (s.main = .code (.ret ()) → Final options s.fields phase) := by
  have initial : InOrder options (new (Program.main options files)) .closed :=
    ⟨main_order options files, nofun, fun begun => absurd rfl begun⟩
  obtain ⟨phase, used, inOrder⟩ := (channel_simulates options files).run initial run
  refine ⟨phase, used, fun returned => ?_⟩
  have main := inOrder.main
  rw [returned] at main
  exact main

theorem channel_used_in_order_of_opened :
    ∃ phase, Channel.machine.Run .closed (uses (firstOpened.map .main)) phase := by
  obtain ⟨phase, used, -⟩ :=
    channel_used_in_order (some { interface := 0 }) (fun _ => .ok []) (opened_run _ _ rfl)
  exact ⟨phase, used⟩

end Threads

end OtaCli.Soundness.ChannelUse
