import Yorishiro.Base.Error
import Yorishiro.Lib.Json

/-!
# Embedding vectors

A vector is a list of `f32` components. Nothing here computes with components, so a
finite one is the rational it denotes; what matters is which components are not
finite. `serde_json` writes those as null, and null does not read back as a number
(`vectorOfJson_toJson`, `vectorOfJson_eq_none`).
-/

set_option autoImplicit false

namespace Yorishiro.Embedding

open Yorishiro.Lib

/-- An `f32` value. -/
inductive F32 where
  | finite (value : ℚ)
  | infinite (negative : Bool)
  | nan
deriving DecidableEq

/-- `is_finite`. -/
def F32.isFinite : F32 → Bool
  | .finite _ => true
  | _ => false

/-- An embedding vector. -/
abbrev Vector32 := List F32

/-- Every component is finite. -/
def finiteVector (v : Vector32) : Bool := v.all F32.isFinite

/-- A vector as a provider returns it. An answer with a number that `f32` cannot hold is refused
when it is read, and the local model's vectors are normalised: every component is finite. -/
structure ProviderVector where
  components : Vector32
  finite : finiteVector components = true
deriving DecidableEq

/-! ## Stored form -/

/-- A component as `serde_json` writes it. -/
def F32.toJson : F32 → Json
  | .finite q => .number (.float q)
  | _ => .null

/-- A component as `serde_json` reads it. Rounding plays no part: the numbers read here
were written from components. -/
def F32.ofJson : Json → Option F32
  | .number n => some (.finite n.toRat)
  | _ => none

/-- `json!(vector)`. -/
def vectorToJson (v : Vector32) : Json := .array (v.map F32.toJson)

/-- `from_value::<Vec<f32>>`. -/
def vectorOfJson : Json → Option Vector32
  | .array items => items.mapM F32.ofJson
  | _ => none

/-- A finite vector is stored exactly. -/
theorem vectorOfJson_toJson {v : Vector32} (h : finiteVector v = true) :
    vectorOfJson (vectorToJson v) = some v := by
  simp only [vectorOfJson, vectorToJson]
  induction v with
  | nil => rfl
  | cons x v ih =>
      simp only [finiteVector, List.all_cons, Bool.and_eq_true] at h
      have hx : F32.ofJson x.toJson = some x := by
        cases x with
        | finite q => rfl
        | infinite b => cases h.1
        | nan => cases h.1
      simp only [List.map_cons, List.mapM_cons, hx, Option.bind_eq_bind, Option.bind_some, ih h.2]
      rfl

/-- Any other vector does not read back. -/
theorem vectorOfJson_eq_none {v : Vector32} (h : finiteVector v = false) :
    vectorOfJson (vectorToJson v) = none := by
  simp only [vectorOfJson, vectorToJson]
  induction v with
  | nil => cases h
  | cons x v ih =>
      simp only [finiteVector, List.all_cons, Bool.and_eq_false_iff] at h
      simp only [List.map_cons, List.mapM_cons, Option.bind_eq_bind]
      rcases h with hx | hv
      · cases x with
        | finite q => cases hx
        | infinite b => rfl
        | nan => rfl
      · rw [ih hv]
        cases F32.ofJson x.toJson <;> rfl

/-! ## Checks -/

/-- `validate_vector`. -/
def validateVector (vector : Vector32) (expectedDimensions : Nat) : Except YorishiroError Unit :=
  if vector.isEmpty || decide (vector.length ≠ expectedDimensions) || !finiteVector vector then
    .error (.validationFailed
      s!"embedding vector must contain {expectedDimensions} finite values, got {vector.length} values"
      [] "configure the provider to return its declared embedding dimensions")
  else .ok ()

theorem validateVector_eq_ok {v : Vector32} {n : Nat} (h : validateVector v n = .ok ()) :
    v ≠ [] ∧ v.length = n ∧ finiteVector v = true := by
  unfold validateVector at h
  split_ifs at h with hbad
  simpa [and_assoc] using hbad

end Yorishiro.Embedding
