import OtaCli.Machine.Run

/-! # Stop and wait

A sender with one outstanding message: it sends the next one only after the last was acknowledged.
The channel may drop a message and may drop an acknowledgement, and then nothing happens any more;
the receiver may acknowledge what it has received once, or never. No numbering is needed for the
receiver to get the messages in order and without gap or duplicate.
-/

namespace StopAndWait

variable {α : Type*}

inductive Op (α : Type*) where
  | send (message : α) (dropped : Bool)
  | deliver (message : α)
  | drop
  | acknowledge

namespace Op

@[simp] def sent? : Op α → Option α
  | .send message _ => some message
  | _ => none

@[simp] def received? : Op α → Option α
  | .deliver message => some message
  | _ => none

@[simp] def isAcknowledge : Op α → Bool
  | .acknowledge => true
  | _ => false

end Op

/-- Where the last message is. `stuck` keeps the message when it was dropped before delivery. -/
inductive Phase (α : Type*) where
  | ready
  | flying (message : α)
  | delivered
  | stuck (message : Option α)

namespace Phase

/-- What was sent and has not been delivered. -/
@[simp] def undelivered : Phase α → List α
  | .flying message => [message]
  | .stuck message => message.toList
  | _ => []

/-- The number of messages that are not acknowledged. -/
@[simp] def outstanding : Phase α → ℕ
  | .ready => 0
  | _ => 1

end Phase

def step [DecidableEq α] : Phase α → Op α → Option (Phase α)
  | .ready, .send message dropped => some (if dropped then .stuck (some message) else .flying message)
  | .flying message, .deliver delivered => if message = delivered then some .delivered else none
  | .flying message, .drop => some (.stuck (some message))
  | .delivered, .drop => some (.stuck none)
  | .delivered, .acknowledge => some .ready
  | _, _ => none

def machine (α : Type*) [DecidableEq α] : LabeledMachine (Phase α) (Op α) := ⟨step⟩

def sent (ops : List (Op α)) : List α := ops.filterMap Op.sent?

def received (ops : List (Op α)) : List α := ops.filterMap Op.received?

def acknowledged (ops : List (Op α)) : ℕ := ops.countP Op.isAcknowledge

section Runs

variable [DecidableEq α] {ops : List (Op α)} {phase : Phase α}

/-- The messages sent are those received and, last, one that may still be missing; all but an
outstanding one are acknowledged. -/
theorem sent_eq (run : (machine α).Run .ready ops phase) :
    sent ops = received ops ++ phase.undelivered ∧
      (sent ops).length = acknowledged ops + phase.outstanding := by
  refine run.invariant (I := fun tape phase => sent tape = received tape ++ phase.undelivered ∧
    (sent tape).length = acknowledged tape + phase.outstanding) ⟨rfl, rfl⟩ ?_
  rintro prior phase op next - ⟨messages, counts⟩ stepped
  simp only [sent, received, acknowledged, LabeledMachine.filterMap_concat, List.countP_append,
    List.length_append] at messages counts ⊢
  match phase, op, stepped with
  | .ready, .send message dropped, stepped =>
    obtain rfl := Option.some.inj stepped
    cases dropped <;> simp_all
  | .flying message, .deliver delivered, stepped =>
    obtain ⟨rfl, moved⟩ := Option.ite_none_right_eq_some.mp stepped
    obtain rfl := Option.some.inj moved
    simpa using And.intro messages counts
  | .flying message, .drop, stepped =>
    obtain rfl := Option.some.inj stepped
    simpa using And.intro messages counts
  | .delivered, .drop, stepped =>
    obtain rfl := Option.some.inj stepped
    simpa using And.intro messages counts
  | .delivered, .acknowledge, stepped =>
    obtain rfl := Option.some.inj stepped
    simpa using And.intro messages counts

/-- Safety: what was received is an initial part of what was sent, and at most one message sent is
not acknowledged. -/
theorem received_prefix_sent (run : (machine α).Run .ready ops phase) :
    received ops <+: sent ops ∧ (sent ops).length ≤ acknowledged ops + 1 := by
  obtain ⟨messages, counts⟩ := sent_eq run
  refine ⟨⟨_, messages.symm⟩, ?_⟩
  have one : phase.outstanding ≤ 1 := by cases phase <;> simp
  omega

end Runs

end StopAndWait
