import Yorishiro.Lib.JsonSchema

/-!
# Keywords that fit

A schema is well formed when it names a type, carries only keywords that say something about values
of that type, and gives each of them a value of the kind that the keyword takes, the schemas inside
it included. Nothing of it is then without effect, and nothing of it is a reason to refuse it.

`wellFormed_insertSome` reads this off keyword by keyword for a schema that is built from those that
have a value.
-/

set_option autoImplicit false

namespace Yorishiro.Lib.JsonSchema

open Yorishiro.Lib

/-- The types a schema can name. -/
def typeNames : List String :=
  ["null", "boolean", "number", "integer", "string", "array", "object"]

/-- The keyword says something about values of the type. -/
def applies (type k : String) : Bool :=
  ["type", "description", "enum", "default"].contains k ||
    (type == "string" && ["format", "minLength", "maxLength", "pattern"].contains k) ||
    ((type == "number" || type == "integer") && ["minimum", "maximum"].contains k) ||
    (type == "array" && ["minItems", "maxItems", "uniqueItems", "items"].contains k) ||
    (type == "object" && ["properties", "required"].contains k)

/-- The value is a number without a sign or a fractional part. -/
def isCount : Json → Bool
  | .number n => decide (0 ≤ n.toRat) && n.toRat.den == 1
  | _ => false

/-- The value is a text. -/
def isText : Json → Bool
  | .string _ => true
  | _ => false

/-- The value is of the kind that the keyword takes, for the keywords that hold no schema. -/
def takes (env : Dialect) (k : String) (x : Json) : Bool :=
  if k = "type" then x.asStr.any typeNames.contains
  else if k = "description" ∨ k = "format" then isText x
  else if k = "pattern" then x.asStr.any fun p => (env.regex p).isSome
  else if k = "enum" then match x with
    | .array _ => true
    | _ => false
  else if k = "minimum" ∨ k = "maximum" then match x with
    | .number _ => true
    | _ => false
  else if k = "minLength" ∨ k = "maxLength" ∨ k = "minItems" ∨ k = "maxItems" then isCount x
  else if k = "uniqueItems" then match x with
    | .bool _ => true
    | _ => false
  else if k = "required" then match x with
    | .array xs => xs.all isText && allDistinct xs
    | _ => false
  else k == "default"

mutual

/-- The schema names a type, its keywords are about that type, and their values fit. -/
def wellFormed (env : Dialect) : Json → Bool
  | .object keywords =>
      ((Entries.get? "type" keywords).bind Json.asStr).any
          (fun type => keywords.all fun e => applies type e.1) &&
        valuesFit env keywords
  | _ => false

/-- Every keyword has a value that fits. -/
def valuesFit (env : Dialect) : List (String × Json) → Bool
  | [] => true
  | (k, x) :: rest =>
      (if k = "items" then wellFormed env x
      else if k = "properties" then
        match x with
        | .object props => allWellFormed env props
        | _ => false
      else takes env k x) && valuesFit env rest

/-- Every property has a well-formed schema. -/
def allWellFormed (env : Dialect) : List (String × Json) → Bool
  | [] => true
  | (_, x) :: props => wellFormed env x && allWellFormed env props

end

section WellFormed

variable {env : Dialect}

theorem allWellFormed_iff (props : List (String × Json)) :
    allWellFormed env props = true ↔ ∀ e ∈ props, wellFormed env e.2 = true := by
  induction props with
  | nil => simp [allWellFormed]
  | cons e props ih =>
      obtain ⟨k, x⟩ := e
      rw [allWellFormed, Bool.and_eq_true, ih, List.forall_mem_cons]

/-- The value fits the keyword, those that hold schemas included. -/
def fits (env : Dialect) (k : String) (x : Json) : Bool :=
  if k = "items" then wellFormed env x
  else if k = "properties" then
    match x with
    | .object props => allWellFormed env props
    | _ => false
  else takes env k x

theorem valuesFit_iff (keywords : List (String × Json)) :
    valuesFit env keywords = true ↔ ∀ e ∈ keywords, fits env e.1 e.2 = true := by
  induction keywords with
  | nil => simp [valuesFit]
  | cons e keywords ih =>
      obtain ⟨k, x⟩ := e
      rw [valuesFit.eq_def, Bool.and_eq_true, ih, List.forall_mem_cons]
      rfl

/-- A schema built from the keywords that have a value is well formed when one of them names the
type, and each is about that type and has a value that fits. -/
theorem wellFormed_insertSome {named : List (String × Option Json)}
    (hnodup : (named.map Prod.fst).Nodup) {type : String}
    (htype : ("type", some (.string type)) ∈ named)
    (h : ∀ e ∈ named, ∀ x, e.2 = some x → applies type e.1 = true ∧ fits env e.1 x = true) :
    wellFormed env (.object (Entries.insertSome named [])) = true := by
  have hget : Entries.get? "type" (Entries.insertSome named []) = some (.string type) :=
    Entries.get?_insertSome_of_mem hnodup htype rfl
  have hmem : ∀ e ∈ Entries.insertSome named [],
      applies type e.1 = true ∧ fits env e.1 e.2 = true := by
    intro e he
    rcases Entries.mem_of_mem_insertSome he with he | he
    · exact h (e.1, some e.2) he e.2 rfl
    · cases he
  rw [wellFormed, Bool.and_eq_true, hget, valuesFit_iff]
  refine ⟨?_, fun e he => (hmem e he).2⟩
  rw [Option.bind_some, Json.asStr, Option.any_some, List.all_eq_true]
  exact fun e he => (hmem e he).1

end WellFormed

end Yorishiro.Lib.JsonSchema
