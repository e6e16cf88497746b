import Mathlib.Data.List.Basic

/-! # Transmission that loses and repeats

What arrives when messages are lost or arrive more than once, but in the order in which they were sent. A
receiver finds its way back to what was sent from the front: what arrives first was sent, and when it is not
the message that was sent first, that one is gone for good.
-/

/-- What may arrive of a list of messages. -/
inductive Lossy {α : Type*} : (received sent : List α) → Prop
  | nil : Lossy [] []
  | lose {message received sent} (rest : Lossy received sent) : Lossy received (message :: sent)
  | again {message received sent} (rest : Lossy received (message :: sent)) :
      Lossy (message :: received) (message :: sent)

namespace Lossy

variable {α : Type*} {received sent : List α} {first message : α}

/-- Nothing arrives that was not sent. -/
theorem mem (lossy : Lossy received sent) (member : message ∈ received) : message ∈ sent := by
  induction lossy with
  | nil => exact member
  | lose rest ih => exact List.mem_cons_of_mem _ (ih member)
  | again rest ih =>
    obtain rfl | later := List.mem_cons.mp member
    · exact List.mem_cons_self
    · exact ih later

theorem eq_nil (lossy : Lossy received []) : received = [] := by
  cases lossy
  rfl

/-- What arrives first is the first message, which may come again, or that one was lost. -/
theorem cons_cases (lossy : Lossy (first :: received) (message :: sent)) :
    first = message ∧ Lossy received (message :: sent) ∨ Lossy (first :: received) sent := by
  cases lossy with
  | lose rest => exact .inr rest
  | again rest => exact .inl ⟨rfl, rest⟩

/-- Where something else arrives next, the first message does not come any more. -/
theorem tail (lossy : Lossy received (message :: sent)) (other : ∀ rest, received ≠ message :: rest) :
    Lossy received sent := by
  cases lossy with
  | lose rest => exact rest
  | again rest => exact absurd rfl (other _)

end Lossy
