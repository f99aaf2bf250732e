import Mathlib.Algebra.Order.Ring.Rat
import Mathlib.Data.List.Nodup
import Mathlib.Data.Nat.Cast.Order.Ring
import Yorishiro.Lib.Json

/-!
# JSON Schema

The meaning of the assertion keywords of JSON Schema. A schema is itself a JSON
value: `true` and `false` accept everything and nothing, and an object accepts a
value when every keyword it carries accepts it. Keywords that assert nothing
(`description`, `default`, unknown names) accept everything, and a keyword about
one type accepts every value of another type.

What a format or a regular expression matches is left to a `Dialect`. The length of
a string is its number of characters, `integer` means that the value has no
fractional part, and numbers are compared by the rational they denote.

`validates_iff` says that a schema accepts exactly what all its keywords accept,
and `validates_insertSome` reads that off for a schema built keyword by keyword;
`compiles_insertSome` does the same for whether a validator can be built at all.
-/

set_option autoImplicit false

namespace Yorishiro.Lib.JsonSchema

open Yorishiro.Lib

/-- What schemas refer to by name: regular expressions, which may fail to compile, and
string formats. -/
structure Dialect where
  regex : String → Option (String → Bool)
  format : String → String → Bool

/-! ## Equality of values -/

mutual

/-- Equality of JSON values, with numbers compared by what they denote. -/
def sameValue : Json → Json → Bool
  | .null, .null => true
  | .bool a, .bool b => a == b
  | .number a, .number b => decide (a.toRat = b.toRat)
  | .string a, .string b => decide (a = b)
  | .array as, .array bs => sameValues as bs
  -- members are kept in key order, so objects are compared place by place
  | .object as, .object bs => sameMembers as bs
  | _, _ => false

/-- `sameValue` along two lists. -/
def sameValues : List Json → List Json → Bool
  | [], [] => true
  | a :: as, b :: bs => sameValue a b && sameValues as bs
  | _, _ => false

/-- `sameValue` along two member lists. -/
def sameMembers : List (String × Json) → List (String × Json) → Bool
  | [], [] => true
  | (k, a) :: as, (l, b) :: bs => decide (k = l) && sameValue a b && sameMembers as bs
  | _, _ => false

end

theorem sameValue_string (d : Json) (s : String) :
    sameValue d (.string s) = true ↔ d = .string s := by
  cases d <;> simp [sameValue]

/-- No two of the values are the same. -/
def allDistinct : List Json → Bool
  | [] => true
  | a :: as => as.all (fun b => !sameValue a b) && allDistinct as

/-! ## Assertion keywords -/

/-- `d` is of the type a schema calls `name`. -/
def hasType (name : String) : Json → Bool
  | .null => name == "null"
  | .bool _ => name == "boolean"
  -- a float without a fractional part is an integer
  | .number n => name == "number" || (name == "integer" && n.toRat.den == 1)
  | .string _ => name == "string"
  | .array _ => name == "array"
  | .object _ => name == "object"

/-- The name stands for a member the object has; other values need none. -/
def hasMember (members : List (String × Json)) : Json → Bool
  | .string name => (Entries.get? name members).isSome
  | _ => true

/-- What the keyword `k` with value `x` asserts of `d`, for the keywords that hold no
schema. -/
def asserts (env : Dialect) (k : String) (x d : Json) : Bool :=
  match x, d with
  | .string t, d =>
      -- the remaining keywords of a text only constrain texts
      if k = "type" then hasType t d
      else match d with
        | .string s =>
            if k = "format" then env.format t s
            else if k = "pattern" then ((env.regex t).map fun m => m s).getD false
            else true
        | _ => true
  | .number b, .number n =>
      if k = "minimum" then decide (b.toRat ≤ n.toRat)
      else if k = "maximum" then decide (n.toRat ≤ b.toRat)
      else true
  | .number b, .string s =>
      if k = "minLength" then decide (b.toRat ≤ s.length)
      else if k = "maxLength" then decide ((s.length : ℚ) ≤ b.toRat)
      else true
  | .number b, .array ds =>
      if k = "minItems" then decide (b.toRat ≤ ds.length)
      else if k = "maxItems" then decide ((ds.length : ℚ) ≤ b.toRat)
      else true
  | .bool b, .array ds => if k = "uniqueItems" then !b || allDistinct ds else true
  | .array xs, d =>
      if k = "enum" then xs.any (sameValue d)
      else if k = "type" then xs.any fun x => match x with
        | .string t => hasType t d
        | _ => false
      else if k = "required" then match d with
        | .object members => xs.all (hasMember members)
        | _ => true
      else true
  | _, _ => true

/-! ## Schemas -/

mutual

/-- The schema accepts the value. -/
def validates (env : Dialect) : Json → Json → Bool
  | .bool b, _ => b
  | .object keywords, d => validatesAll env keywords d
  | _, _ => false

/-- Every keyword accepts the value. -/
def validatesAll (env : Dialect) : List (String × Json) → Json → Bool
  | [], _ => true
  | (k, x) :: rest, d =>
      (if k = "items" then d.elements.all fun v => validates env x v
      else if k = "properties" then
        match x with
        | .object props => validatesProperties env props d.members
        | _ => true
      else asserts env k x d) && validatesAll env rest d

/-- Every member that a property describes is accepted by that property. -/
def validatesProperties (env : Dialect) :
    List (String × Json) → List (String × Json) → Bool
  | [], _ => true
  | (name, x) :: props, members =>
      (match Entries.get? name members with
        | some v => validates env x v
        | none => true) && validatesProperties env props members

end

/-- What one keyword asserts, those that hold schemas included. -/
def keywordHolds (env : Dialect) (k : String) (x d : Json) : Bool :=
  if k = "items" then d.elements.all fun v => validates env x v
  else if k = "properties" then
    match x with
    | .object props => validatesProperties env props d.members
    | _ => true
  else asserts env k x d

mutual

/-- Every regular expression of the schema compiles, so that a validator can be built. -/
def compiles (env : Dialect) : Json → Bool
  | .bool _ => true
  | .object keywords => compilesAll env keywords
  | _ => false

/-- `compiles` along the keywords. -/
def compilesAll (env : Dialect) : List (String × Json) → Bool
  | [] => true
  | (k, x) :: rest =>
      (if k = "pattern" then
        match x with
        | .string p => (env.regex p).isSome
        | _ => false
      else if k = "items" then compiles env x
      else if k = "properties" then
        match x with
        | .object props => compilesProperties env props
        | _ => false
      else true) && compilesAll env rest

/-- `compiles` along the properties. -/
def compilesProperties (env : Dialect) : List (String × Json) → Bool
  | [] => true
  | (_, x) :: props => compiles env x && compilesProperties env props

end

/-! ## Keywords of text -/

section Text

variable (env : Dialect) (d : Json)

theorem keywordHolds_description (text : String) :
    keywordHolds env "description" (.string text) d = true := by
  cases d <;> simp [keywordHolds, asserts]

theorem keywordHolds_default (x : Json) : keywordHolds env "default" x d = true := by
  cases x <;> cases d <;> simp [keywordHolds, asserts]

theorem keywordHolds_format (f : String) :
    keywordHolds env "format" (.string f) d = true ↔
      ∀ s, d = .string s → env.format f s = true := by
  cases d <;> simp [keywordHolds, asserts]

theorem keywordHolds_pattern (p : String) :
    keywordHolds env "pattern" (.string p) d = true ↔
      ∀ s, d = .string s → ((env.regex p).map fun m => m s).getD false = true := by
  cases d <;> simp [keywordHolds, asserts]

end Text

/-! ## What a schema accepts -/

section Meaning

variable (env : Dialect)

theorem validatesAll_cons (k : String) (x : Json) (kws : List (String × Json)) (d : Json) :
    validatesAll env ((k, x) :: kws) d = (keywordHolds env k x d && validatesAll env kws d) := by
  cases x <;> simp [validatesAll, keywordHolds]

theorem validatesAll_iff (kws : List (String × Json)) (d : Json) :
    validatesAll env kws d = true ↔ ∀ e ∈ kws, keywordHolds env e.1 e.2 d = true := by
  induction kws with
  | nil => simp [validatesAll]
  | cons e kws ih =>
      obtain ⟨k, x⟩ := e
      rw [validatesAll_cons, Bool.and_eq_true, ih, List.forall_mem_cons]

theorem validates_iff (kws : List (String × Json)) (d : Json) :
    validates env (.object kws) d = true ↔ ∀ e ∈ kws, keywordHolds env e.1 e.2 d = true := by
  rw [validates]
  exact validatesAll_iff env kws d

theorem validatesProperties_iff (props members : List (String × Json)) :
    validatesProperties env props members = true ↔
      ∀ e ∈ props, ∀ v, Entries.get? e.1 members = some v → validates env e.2 v = true := by
  induction props with
  | nil => simp [validatesProperties]
  | cons e props ih =>
      obtain ⟨name, x⟩ := e
      rw [validatesProperties, Bool.and_eq_true, ih, List.forall_mem_cons]
      cases Entries.get? name members with
      | none => simp
      | some v => simp

/-- A schema built by inserting the keywords that have a value accepts what each of
those keywords accepts. -/
theorem validates_insertSome {named : List (String × Option Json)}
    (hnodup : (named.map Prod.fst).Nodup) (d : Json) :
    validates env (.object (Entries.insertSome named [])) d = true ↔
      ∀ e ∈ named, ∀ x, e.2 = some x → keywordHolds env e.1 x d = true := by
  rw [validates_iff]
  constructor
  · intro h e he x hx
    have hget : Entries.get? e.1 (Entries.insertSome named []) = some x := by
      rw [Entries.get?_insertSome_of_mem hnodup he rfl, hx]
    exact h (e.1, x) (Entries.mem_of_get? hget)
  · intro h e he
    -- an entry of the built schema was named, with its value
    rcases Entries.mem_of_mem_insertSome he with he | he
    · exact h (e.1, some e.2) he e.2 rfl
    · cases he

/-- The keyword, with this value, can be compiled. -/
def keywordCompiles (k : String) (x : Json) : Bool :=
  if k = "pattern" then
    match x with
    | .string p => (env.regex p).isSome
    | _ => false
  else if k = "items" then compiles env x
  else if k = "properties" then
    match x with
    | .object props => compilesProperties env props
    | _ => false
  else true

theorem compilesProperties_iff (props : List (String × Json)) :
    compilesProperties env props = true ↔ ∀ e ∈ props, compiles env e.2 = true := by
  induction props with
  | nil => simp [compilesProperties]
  | cons e props ih =>
      obtain ⟨name, x⟩ := e
      rw [compilesProperties, Bool.and_eq_true, ih, List.forall_mem_cons]

theorem compiles_iff (kws : List (String × Json)) :
    compiles env (.object kws) = true ↔ ∀ e ∈ kws, keywordCompiles env e.1 e.2 = true := by
  rw [compiles]
  induction kws with
  | nil => simp [compilesAll]
  | cons e kws ih =>
      obtain ⟨k, x⟩ := e
      rw [compilesAll.eq_def, Bool.and_eq_true, ih, List.forall_mem_cons]
      rfl

/-- A schema built by inserting the keywords that have a value compiles when they do. -/
theorem compiles_insertSome {named : List (String × Option Json)}
    (h : ∀ e ∈ named, ∀ x, e.2 = some x → keywordCompiles env e.1 x = true) :
    compiles env (.object (Entries.insertSome named [])) = true := by
  rw [compiles_iff]
  intro e he
  rcases Entries.mem_of_mem_insertSome he with he | he
  · exact h (e.1, some e.2) he e.2 rfl
  · cases he

end Meaning

end Yorishiro.Lib.JsonSchema
