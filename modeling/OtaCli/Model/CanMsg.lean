import Mathlib.Data.Vector.Basic

/-! # Managed objects: exceptions, byte arrays, and the raw CAN message

A method of an object either returns or throws, and a throw keeps every write made before it:
`Method` is the state monad whose failures carry the state. Byte arrays are lists; an access
outside the bounds throws. A reference to an array that may be null is an `Option`.
-/

namespace OtaCli.Model

/-- The runtime exceptions which the program can raise. -/
inductive Exception where
  | nullReference
  | argumentNull (paramName : String)
  | indexOutOfRange
  | divideByZero
  | overflow
  | invalidOperation
  | io (message : String)
deriving DecidableEq, Repr

/-- A method body on an object of type `σ`. Writes made before an exception stay. -/
abbrev Method (σ α : Type) := EStateM Exception σ α

/-- `array[index]` as a value. -/
def element (array : List UInt8) (index : ℕ) : Except Exception UInt8 :=
  match array[index]? with
  | some byte => .ok byte
  | none => .error .indexOutOfRange

/-- `array[index] = value`. -/
def assignElement (array : List UInt8) (index : ℕ) (value : UInt8) : Except Exception (List UInt8) :=
  if index < array.length then .ok (array.set index value) else .error .indexOutOfRange

/-- Inside a method, an expression that throws leaves the object as it stands. -/
instance {σ : Type} : MonadLift (Except Exception) (Method σ) where
  monadLift value := match value with
    | .ok a => pure a
    | .error e => throw e

namespace Method

variable {σ α β : Type}

@[simp] theorem bind_apply (body : Method σ α) (next : α → Method σ β) (object : σ) :
    (body >>= next) object = match body object with
      | .ok a after => next a after
      | .error e after => (.error e after : EStateM.Result Exception σ β) := by
  cases run : body object <;> simp [bind, EStateM.bind, run]

@[simp] theorem pure_apply (a : α) (object : σ) : (pure a : Method σ α) object = .ok a object := rfl

@[simp] theorem get_apply (object : σ) : (get : Method σ σ) object = .ok object object := rfl

@[simp] theorem modify_apply (change : σ → σ) (object : σ) :
    (modify change : Method σ Unit) object = .ok () (change object) := rfl

@[simp] theorem throw_apply (e : Exception) (object : σ) :
    (throw e : Method σ α) object = .error e object := rfl

@[simp] theorem lift_ok (a : α) (object : σ) :
    (liftM (Except.ok a : Except Exception α) : Method σ α) object = .ok a object := rfl

@[simp] theorem lift_error (e : Exception) (object : σ) :
    (liftM (Except.error e : Except Exception α) : Method σ α) object = .error e object := rfl

end Method

/-- `CanMsg`, with the defaults of its parameterless constructor. -/
structure CanMsg where
  id : Int32 := 0
  dlc : Int32 := 8
  flags : Int32 := 0
  data : List UInt8 := List.replicate 8 0
  timestamp : Int64 := 0
deriving DecidableEq, Repr

@[simp] theorem assignElement_of_lt {array : List UInt8} {index : ℕ} (value : UInt8)
    (bound : index < array.length) : assignElement array index value = .ok (array.set index value) :=
  if_pos bound

theorem element_of_lt {array : List UInt8} {index : ℕ} (bound : index < array.length) :
    element array index = .ok array[index] := by
  simp [element, bound]

/-- A buffer of a known length as a vector. -/
theorem exists_vector {n : ℕ} {bytes : List UInt8} (size : bytes.length = n) :
    ∃ v : Vector UInt8 n, v.toList = bytes :=
  ⟨⟨bytes.toArray, by simpa using size⟩, by simp⟩

/-- An eight-byte buffer is given by its bytes. -/
theorem exists_bytes_of_length_eq_eight {data : List UInt8} (size : data.length = 8) :
    ∃ b0 b1 b2 b3 b4 b5 b6 b7, data = [b0, b1, b2, b3, b4, b5, b6, b7] := by
  match data, size with
  | [b0, b1, b2, b3, b4, b5, b6, b7], _ => exact ⟨b0, b1, b2, b3, b4, b5, b6, b7, rfl⟩

end OtaCli.Model
