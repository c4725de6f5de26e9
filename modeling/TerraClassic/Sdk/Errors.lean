import TerraClassic.Lib.Run

/-! # Errors of message handlers

    A handler returns a value or an error: one that a callee returned, one
    that the module registered, or a panic, which baseapp recovers from.
    The writes of a handler that fails are dropped.
-/

namespace TerraClassic

/-- What the bank refuses. -/
inductive BankError where
  | insufficientFunds (denom : String)
  | unauthorized (addr : String)
  deriving DecidableEq, Repr

/-- An error of a handler of a module with the registered errors `κ`. -/
inductive SdkError (κ : Type) where
  | plain (text : String)
  | registered (kind : κ)
  | wrap (kind : κ) (text : String)
  | bank (err : BankError)
  | wrapBank (kind : κ) (err : BankError)
  | panicked
  deriving DecidableEq, Repr

namespace SdkError

variable {κ α : Type}

/-- The error of a callee, wrapped with `text` around its own. -/
def wrapErr (kind : κ) (text : String → String) : Except String α → Except (SdkError κ) α :=
  Except.mapError (fun err => .wrap kind (text err))

/-- A panic in the middle of a handler. -/
def orPanic : Option α → Except (SdkError κ) α
  | some a => .ok a
  | none => .error .panicked

theorem orPanic_eq_ok {x : Option α} {a : α} :
    (orPanic x : Except (SdkError κ) α) = .ok a ↔ x = some a := by
  cases x with
  | none => simp [orPanic]
  | some b => simp [orPanic]

theorem orPanic_eq_error {x : Option α} {err : SdkError κ} :
    (orPanic x : Except (SdkError κ) α) = .error err ↔ x = none ∧ err = .panicked := by
  cases x with
  | none => simp [orPanic, eq_comm]
  | some b => simp [orPanic]

theorem mapError_eq_ok {ε ε' : Type} {f : ε → ε'} {x : Except ε α} {a : α} :
    Except.mapError f x = .ok a ↔ x = .ok a := by
  cases x with
  | error e => exact ⟨nofun, nofun⟩
  | ok b =>
    constructor
    · intro h
      cases h
      rfl
    · intro h
      cases h
      rfl

end SdkError

end TerraClassic
