import Mathlib.Logic.Function.Basic
import Mathlib.Tactic.SplitIfs

/-!
# Settings of a database session

Custom settings of a PostgreSQL session, and the role it has assumed. A setting has a value for
the session and, inside a transaction, one of the transaction's own, which goes when the
transaction ends. A name that has been set once is known from then on, and empty when nothing is
set.
-/

set_option autoImplicit false

namespace Yorishiro.Lib.Settings

variable {ν : Type}

/-- The role and the settings of a session: for the session, for the transaction, and, inside a
transaction, what the session's were when it began. -/
structure Session (ν : Type) where
  role : Option String
  base : ν → Option String
  overlay : ν → Option String
  saved : Option (ν → Option String)

namespace Session

/-- A session that has just been opened. -/
def fresh : Session ν where
  role := none
  base := fun _ => none
  overlay := fun _ => none
  saved := none

/-- `current_setting`: the value a statement sees, `none` for a name that is not known. -/
def current (s : Session ν) (name : ν) : Option String := (s.overlay name).or (s.base name)

/-- A name that is known keeps a value, if only the empty one. -/
def known (before after : Option String) : Option String :=
  after.or (before.map fun _ => "")

/-- `SET ROLE`. -/
def setRole (s : Session ν) (role : String) : Session ν := { s with role := some role }

variable [DecidableEq ν]

/-- `set_config`; a value that is local to a transaction is gone at once where there is none. -/
def setConfig (s : Session ν) (name : ν) (value : String) (isLocal : Bool) : Session ν :=
  if isLocal then
    if s.saved.isSome then { s with overlay := Function.update s.overlay name (some value) }
    else { s with base := Function.update s.base name (known (some value) (s.base name)) }
  else
    { s with
      base := Function.update s.base name (some value)
      overlay := Function.update s.overlay name none }

/-- `RESET`. -/
def reset (s : Session ν) (name : ν) : Session ν :=
  { s with
    base := Function.update s.base name (some "")
    overlay := Function.update s.overlay name none }

omit [DecidableEq ν]

/-- `BEGIN`. -/
def start (s : Session ν) : Session ν :=
  if s.saved.isSome then s else { s with saved := some s.base }

/-- `COMMIT`. -/
def commit (s : Session ν) : Session ν :=
  { s with
    base := fun name => known (s.overlay name) (s.base name)
    overlay := fun _ => none
    saved := none }

/-- `ROLLBACK`. -/
def rollback (s : Session ν) : Session ν :=
  match s.saved with
  | none => s
  | some saved =>
      { s with
        base := fun name => known ((s.overlay name).or (s.base name)) (saved name)
        overlay := fun _ => none
        saved := none }

/-- The setting is not known, or empty. -/
def Blank (s : Session ν) (name : ν) : Prop := s.current name = none ∨ s.current name = some ""

/-! ## What statements do to a setting -/

theorem known_blank {before after : Option String} (h : after = none ∨ after = some "") :
    known before after = none ∨ known before after = some "" := by
  rcases h with rfl | rfl
  · cases before with
    | none => exact .inl rfl
    | some value => exact .inr rfl
  · exact .inr rfl

end Session

end Yorishiro.Lib.Settings
