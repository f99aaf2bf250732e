import Mathlib.Order.Defs.LinearOrder
import Mathlib.Data.Int.Order.Basic

/-!
# Quotas

The limits on a tenant's workspaces and on a workspace's entities are those that an operator has
stored and those of the tenant's plan, which are looked up at the time of the operation.
-/

set_option autoImplicit false

namespace Yorishiro

/-- Additional operation-time quotas, independent of persisted operator limits. -/
structure Quotas where
  workspaces : Option Int
  entities : Option Int
deriving DecidableEq, Repr

/-- A manual limit and one of the plan: the lower of the two. -/
def effectiveLimit : Option Int → Option Int → Option Int
  | some manual, some policy => some (min manual policy)
  | some manual, none => some manual
  | none, policy => policy

end Yorishiro
