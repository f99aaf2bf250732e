import Yorishiro.Lib.Table

/-!
# Application errors

The variants of `YorishiroError` that the modelled operations return, with the
texts their callers see, and the classification that comes with a validation
failure.
-/

set_option autoImplicit false

namespace Yorishiro

open Yorishiro.Lib

/-- Machine-readable classification of a validation error. -/
inductive ValidationErrorCode where
  | typeMismatch
  | emptyRequired
  | depthExceeded
  | numericOnNonNumeric
  | stringConstraintOnNonString
  | arrayConstraintOnNonArray
  | invalidArrayItemType
  | emptyObjectProperties
  | minExceedsMax
  | invalidPattern
  | unsupportedFormat
  | undefinedEntityType
  | other
deriving DecidableEq, Repr

/-- One problem found by a validation: the field it is about, what is wrong with it,
and what was expected and found where that applies. -/
structure ValidationDetail where
  field : String
  problem : String
  code : ValidationErrorCode
  expected : Option String
  actual : Option String
deriving DecidableEq, Repr

/-- Every application-level error of the modelled operations. -/
inductive YorishiroError where
  | validationFailed (message : String) (details : List ValidationDetail) (hint : String)
  | notFound (message : String)
  | scopeInsufficient (message : String) (hint : String)
  | conflict (message : String)
  | relationTypeMismatch (message : String)
  | unauthenticated
  | backendUnavailable (message : String)
  | providerBusy (message : String) (retryAfterSeconds : Nat)
  | backendUnsupported (message : String)
  | internal (error : DbErr)
deriving DecidableEq, Repr

/-- The database. A unique violation does different things to the transaction around it:
PostgreSQL aborts it, SQLite undoes the statement only. -/
inductive Backend where
  | postgres
  | sqlite
deriving DecidableEq, Repr

end Yorishiro
