import Mathlib.Data.String.Basic
import Mathlib.Data.Rat.Defs
import Yorishiro.Lib.OrderedMap

/-!
# JSON values

A value is null, a boolean, a number, a string, an array or an object. An
object is the key-sorted entry list of its members; `Json.insert` is the map
insertion that keeps the order. A number is an integer or a decimal with its
exact rational value, and the two are different values even when they denote
the same rational: equality on `Json` is equality of the parsed
representations. Equality is decidable by structural recursion, so that concrete
values can be compared by evaluation.
-/

set_option autoImplicit false

namespace Yorishiro.Lib

/-- A JSON number: an integer literal, or a decimal literal with its exact value. -/
inductive Number where
  | int (n : Int)
  | float (q : ℚ)
deriving DecidableEq

/-- The rational a number denotes. -/
def Number.toRat : Number → ℚ
  | .int n => n
  | .float q => q

@[simp] theorem Number.toRat_int (n : Int) : (Number.int n).toRat = n := rfl

@[simp] theorem Number.toRat_float (q : ℚ) : (Number.float q).toRat = q := rfl

/-- A JSON value. -/
inductive Json where
  | null
  | bool (b : Bool)
  | number (n : Number)
  | string (s : String)
  | array (items : List Json)
  | object (members : List (String × Json))

namespace Json

instance : Inhabited Json := ⟨null⟩

/-! ## Decidable equality -/

mutual

/-- Structural comparison of two values. -/
def beq : Json → Json → Bool
  | .null, .null => true
  | .bool a, .bool b => a == b
  | .number a, .number b => decide (a = b)
  | .string a, .string b => decide (a = b)
  | .array as, .array bs => beqList as bs
  | .object as, .object bs => beqMembers as bs
  | _, _ => false

/-- `beq` along two lists. -/
def beqList : List Json → List Json → Bool
  | [], [] => true
  | a :: as, b :: bs => beq a b && beqList as bs
  | _, _ => false

/-- `beq` along two member lists. -/
def beqMembers : List (String × Json) → List (String × Json) → Bool
  | [], [] => true
  | (k, a) :: as, (l, b) :: bs => decide (k = l) && beq a b && beqMembers as bs
  | _, _ => false

end

mutual

theorem eq_of_beq : ∀ a b : Json, beq a b = true → a = b
  | .null, b, h => by cases b <;> simp_all [beq]
  | .bool a, b, h => by cases b <;> simp_all [beq]
  | .number a, b, h => by cases b <;> simp_all [beq]
  | .string a, b, h => by cases b <;> simp_all [beq]
  | .array as, b, h => by
      cases b with
      | array bs => rw [eq_of_beqList as bs (by simpa [beq] using h)]
      | _ => simp [beq] at h
  | .object as, b, h => by
      cases b with
      | object bs => rw [eq_of_beqMembers as bs (by simpa [beq] using h)]
      | _ => simp [beq] at h

theorem eq_of_beqList : ∀ as bs : List Json, beqList as bs = true → as = bs
  | [], [], _ => rfl
  | [], _ :: _, h => by simp [beqList] at h
  | _ :: _, [], h => by simp [beqList] at h
  | a :: as, b :: bs, h => by
      obtain ⟨ha, has⟩ := (Bool.and_eq_true _ _).mp h
      rw [eq_of_beq a b ha, eq_of_beqList as bs has]

theorem eq_of_beqMembers : ∀ as bs : List (String × Json), beqMembers as bs = true → as = bs
  | [], [], _ => rfl
  | [], _ :: _, h => by simp [beqMembers] at h
  | _ :: _, [], h => by simp [beqMembers] at h
  | (k, a) :: as, (l, b) :: bs, h => by
      simp only [beqMembers, Bool.and_eq_true, decide_eq_true_eq] at h
      rw [h.1.1, eq_of_beq a b h.1.2, eq_of_beqMembers as bs h.2]

end

mutual

theorem beq_refl : ∀ a : Json, beq a a = true
  | .null => rfl
  | .bool a => by simp [beq]
  | .number a => by simp [beq]
  | .string a => by simp [beq]
  | .array as => by simpa [beq] using beqList_refl as
  | .object as => by simpa [beq] using beqMembers_refl as

theorem beqList_refl : ∀ as : List Json, beqList as as = true
  | [] => rfl
  | a :: as => by simp [beqList, beq_refl a, beqList_refl as]

theorem beqMembers_refl : ∀ as : List (String × Json), beqMembers as as = true
  | [] => rfl
  | (k, a) :: as => by simp [beqMembers, beq_refl a, beqMembers_refl as]

end

instance : DecidableEq Json := fun a b =>
  decidable_of_iff (beq a b = true) ⟨eq_of_beq a b, fun h => h ▸ beq_refl a⟩

/-! ## Access -/

/-- Member `k` of an object. -/
def get? (k : String) : Json → Option Json
  | .object members => Entries.get? k members
  | _ => none

/-- The members of an object; no members for any other value. -/
def members : Json → List (String × Json)
  | .object ms => ms
  | _ => []

/-- The elements of an array; no elements for any other value. -/
def elements : Json → List Json
  | .array ds => ds
  | _ => []

/-- The text of a string value. -/
def asStr : Json → Option String
  | .string s => some s
  | _ => none

/-- An object with member `k` set; any other value as it is. -/
def insert (k : String) (x : Json) : Json → Json
  | .object members => .object (Entries.insert k x members)
  | v => v

end Json

end Yorishiro.Lib
