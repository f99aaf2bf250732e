import Mathlib.Data.List.Basic
import Yorishiro.Base.Uuid

/-!
# Signed texts

What `hmac_sign` makes of a keyed hash that is a parameter, and the 64-bit integers that stand in
signed texts. Texts are lists of characters.

A signature verifies when it is the signature, in either case of its digits (`verify_iff`). So a hash
that is injective on payloads leaves one payload to a signature (`sign_injective`).
-/

set_option autoImplicit false

namespace Yorishiro.Http

/-! ## The functions -/

/-- The bytes of a text. -/
def utf8 (text : List Char) : List UInt8 := text.flatMap String.utf8EncodeChar

/-- `hex`. -/
def hex (bytes : List UInt8) : List Char :=
  bytes.flatMap fun b => [Nat.digitChar (b.toNat / 16), Nat.digitChar (b.toNat % 16)]

/-- `is_ascii_hexdigit`. -/
def isHexDigit (c : Char) : Bool := (Uuid.hexValue c).isSome

/-- `from_str_radix(.., 16)` of each two characters. -/
def decodePairs : List Char → Option (List UInt8)
  | a :: b :: rest => do
      let high ← Uuid.hexValue a
      let low ← Uuid.hexValue b
      let bytes ← decodePairs rest
      return UInt8.ofNat (16 * high + low) :: bytes
  | _ => some []

/-- `decode_hex`. -/
def decodeHex (text : List Char) : Option (List UInt8) :=
  if text.length % 2 ≠ 0 ∨ ¬text.all isHexDigit then none else decodePairs text

section Mac

variable (mac : List UInt8 → List UInt8 → List UInt8)

/-- `sign`. -/
def sign (key payload : List UInt8) : List Char := hex (mac key payload)

/-- `verify`. -/
def verify (key payload : List UInt8) (candidateHex : List Char) : Bool :=
  match decodeHex candidateHex with
  | none => false
  | some candidateBytes => decide (mac key payload = candidateBytes)

end Mac

/-- A text in lower case, outside ASCII as it is. -/
def lower (text : List Char) : List Char := text.map Char.toLower

/-- An `i64`. -/
abbrev I64 := { x : Int // -2 ^ 63 ≤ x ∧ x < 2 ^ 63 }

theorem zero_inRange : -2 ^ 63 ≤ (0 : Int) ∧ (0 : Int) < 2 ^ 63 := by decide

/-- The beginning of the epoch, as a time. -/
instance : Inhabited I64 := ⟨0, zero_inRange⟩

/-- The integer, when it is in range. -/
def toI64 (x : Int) : Option I64 := if h : -2 ^ 63 ≤ x ∧ x < 2 ^ 63 then some ⟨x, h⟩ else none

/-- The value of decimal digits. -/
def parseDigits (digits : List Char) : Option Nat :=
  if digits.isEmpty ∨ ¬digits.all Char.isDigit then none else some (Nat.ofDigitChars 10 digits 0)

/-- `parse::<i64>`. -/
def parseI64 : List Char → Option I64
  | '+' :: digits => (parseDigits digits).bind fun n => toI64 n
  | '-' :: digits => (parseDigits digits).bind fun n => toI64 (-n)
  | digits => (parseDigits digits).bind fun n => toI64 n

/-- An `i64` in decimal. -/
def printI64 (x : I64) : List Char := (toString x.val).toList

/-- `saturating_sub`. -/
def saturatingSub (a b : I64) : Int := max (-2 ^ 63) (min (2 ^ 63 - 1) (a.val - b.val))

/-- `abs_diff`: a difference of unsigned integers that wraps around. -/
def absDiff (a b : I64) : Nat :=
  (((if a.val < b.val then b.val - a.val else a.val - b.val) : Int) % 2 ^ 64).toNat

/-! ## Texts and bytes -/

theorem utf8_injective : Function.Injective utf8 := by
  intro a b h
  have hencode : a.utf8Encode = b.utf8Encode := congrArg List.toByteArray h
  rw [← String.toByteArray_ofList, ← String.toByteArray_ofList, String.toByteArray_inj] at hencode
  rw [← String.toList_ofList (l := a), hencode, String.toList_ofList]

theorem toNat_toLower (c : Char) :
    c.toLower.toNat = if 65 ≤ c.toNat ∧ c.toNat ≤ 90 then c.toNat + 32 else c.toNat := by
  have hupper : ('A'.val ≤ c.val ∧ c.val ≤ 'Z'.val) ↔ 65 ≤ c.toNat ∧ c.toNat ≤ 90 := by
    rw [UInt32.le_iff_toNat_le, UInt32.le_iff_toNat_le]
    rfl
  by_cases hval : 'A'.val ≤ c.val ∧ c.val ≤ 'Z'.val
  · have hlower : c.toLower.val = c.val + ('a'.val - 'A'.val) := congrArg Char.val (dif_pos hval)
    have hshift : ('a'.val - 'A'.val).toNat = 32 := by decide
    have hnat := hupper.mp hval
    have hc : c.val.toNat = c.toNat := rfl
    rw [if_pos hnat, Char.toNat, hlower, UInt32.toNat_add, hshift, hc]
    omega
  · have hlower : c.toLower = c := dif_neg hval
    rw [if_neg fun hnat => hval (hupper.mpr hnat), hlower]

theorem toNat_digitChar {d : Nat} (h : d < 16) :
    (Nat.digitChar d).toNat = if d < 10 then 48 + d else 87 + d := by
  interval_cases d <;> rfl

theorem le_iff_toNat {a b : Char} : a ≤ b ↔ a.toNat ≤ b.toNat := by
  rw [Char.le_def, UInt32.le_iff_toNat_le]
  rfl

/-- A digit has its value in either case. -/
theorem hexValue_eq_some_iff {c : Char} {d : Nat} :
    Uuid.hexValue c = some d ↔ d < 16 ∧ c.toLower = Nat.digitChar d := by
  have hbounds : '0'.toNat = 48 ∧ '9'.toNat = 57 ∧ 'a'.toNat = 97 ∧ 'f'.toNat = 102 ∧
      'A'.toNat = 65 ∧ 'F'.toNat = 70 := by decide
  obtain ⟨h0, h9, ha, hf, hA, hF⟩ := hbounds
  simp only [Uuid.hexValue, le_iff_toNat, h0, h9, ha, hf, hA, hF, ← Char.toNat_inj,
    toNat_toLower]
  constructor
  · intro h
    split_ifs at h with hdigit hlower hupper
    all_goals
      cases h
      refine ⟨by omega, ?_⟩
      rw [toNat_digitChar (by omega)]
      split_ifs <;> omega
  · rintro ⟨hd, hc⟩
    rw [toNat_digitChar hd] at hc
    split_ifs at hc ⊢ <;> first | omega | exact congrArg some (by omega)

/-! ## Signatures -/

theorem hex_cons (byte : UInt8) (bytes : List UInt8) :
    hex (byte :: bytes) =
      Nat.digitChar (byte.toNat / 16) :: Nat.digitChar (byte.toNat % 16) :: hex bytes :=
  rfl

theorem lower_cons (c : Char) (text : List Char) : lower (c :: text) = c.toLower :: lower text :=
  rfl

theorem length_hex (bytes : List UInt8) : (hex bytes).length = 2 * bytes.length := by
  induction bytes with
  | nil => rfl
  | cons b bytes ih =>
      rw [hex_cons, List.length_cons, List.length_cons, ih, List.length_cons]
      omega

theorem half_lt (b : UInt8) : b.toNat / 16 < 16 ∧ b.toNat % 16 < 16 := by
  have hb := b.toNat_lt
  omega

/-- Two digits are a byte. -/
theorem pair_eq_iff {a b : Char} {byte : UInt8} :
    (∃ high low, Uuid.hexValue a = some high ∧ Uuid.hexValue b = some low ∧
      UInt8.ofNat (16 * high + low) = byte) ↔
      a.toLower = Nat.digitChar (byte.toNat / 16) ∧ b.toLower = Nat.digitChar (byte.toNat % 16) := by
  obtain ⟨hhigh, hlow⟩ := half_lt byte
  constructor
  · rintro ⟨high, low, ha, hb, rfl⟩
    rw [hexValue_eq_some_iff] at ha hb
    have hbyte : (UInt8.ofNat (16 * high + low)).toNat = 16 * high + low := by
      rw [UInt8.toNat_ofNat']
      omega
    rw [hbyte, ha.2, hb.2]
    constructor
    · congr 1
      omega
    · congr 1
      omega
  · rintro ⟨ha, hb⟩
    refine ⟨_, _, hexValue_eq_some_iff.mpr ⟨hhigh, ha⟩, hexValue_eq_some_iff.mpr ⟨hlow, hb⟩, ?_⟩
    rw [Nat.div_add_mod, UInt8.ofNat_toNat]

theorem decodePairs_cons {a b : Char} {rest : List Char} {byte : UInt8} {bytes : List UInt8} :
    decodePairs (a :: b :: rest) = some (byte :: bytes) ↔
      (∃ high low, Uuid.hexValue a = some high ∧ Uuid.hexValue b = some low ∧
        UInt8.ofNat (16 * high + low) = byte) ∧ decodePairs rest = some bytes := by
  rw [decodePairs]
  cases Uuid.hexValue a with
  | none => simp
  | some high =>
      cases Uuid.hexValue b with
      | none => simp
      | some low =>
          cases decodePairs rest with
          | none => simp
          | some tail => simp [and_comm]

/-- An even number of digits, in either case, is decoded to what they are the digits of. -/
theorem decodePairs_eq_some_iff {text : List Char} (heven : text.length % 2 = 0)
    {bytes : List UInt8} : decodePairs text = some bytes ↔ lower text = hex bytes := by
  induction text using decodePairs.induct generalizing bytes with
  | case1 a b rest ih =>
      have hrest : rest.length % 2 = 0 := by
        simp only [List.length_cons] at heven
        omega
      cases bytes with
      | nil =>
          refine iff_of_false (fun h => ?_) (fun h => by cases h)
          rw [decodePairs] at h
          obtain ⟨_, _, h⟩ := Option.bind_eq_some_iff.mp h
          obtain ⟨_, _, h⟩ := Option.bind_eq_some_iff.mp h
          obtain ⟨_, _, h⟩ := Option.bind_eq_some_iff.mp h
          cases h
      | cons byte bytes =>
          rw [decodePairs_cons, pair_eq_iff, ih hrest, hex_cons, lower_cons, lower_cons,
            List.cons.injEq, List.cons.injEq, and_assoc]
  | case2 text hpair =>
      have hnil : text = [] := by
        match text, heven, hpair with
        | [], _, _ => rfl
        | [a], heven, _ => cases heven
        | a :: b :: rest, _, hpair => exact absurd rfl (hpair a b rest)
      rw [hnil]
      cases bytes with
      | nil => exact iff_of_true rfl rfl
      | cons byte bytes => exact iff_of_false (fun h => by cases h) (fun h => by cases h)

theorem isHexDigit_of_mem_hex {bytes : List UInt8} {text : List Char}
    (h : lower text = hex bytes) : text.all isHexDigit = true := by
  rw [List.all_eq_true]
  intro c hc
  have hlower : c.toLower ∈ hex bytes := h ▸ List.mem_map_of_mem hc
  obtain ⟨byte, -, hdigit⟩ := List.mem_flatMap.mp hlower
  obtain ⟨hhigh, hlow⟩ := half_lt byte
  rw [isHexDigit, Option.isSome_iff_exists]
  rcases List.mem_cons.mp hdigit with hdigit | hdigit
  · exact ⟨_, hexValue_eq_some_iff.mpr ⟨hhigh, hdigit⟩⟩
  · exact ⟨_, hexValue_eq_some_iff.mpr ⟨hlow, List.mem_singleton.mp hdigit⟩⟩

theorem decodeHex_eq_some_iff {text : List Char} {bytes : List UInt8} :
    decodeHex text = some bytes ↔ lower text = hex bytes := by
  rw [decodeHex]
  split_ifs with hguard
  · refine iff_of_false (fun h => by cases h) (fun h => ?_)
    have hlength : text.length = 2 * bytes.length := by
      rw [← length_hex, ← h, lower, List.length_map]
    rcases hguard with hodd | hdigits
    · omega
    · exact hdigits (isHexDigit_of_mem_hex h)
  · exact decodePairs_eq_some_iff (by omega)

theorem lower_hex (bytes : List UInt8) : lower (hex bytes) = hex bytes := by
  refine (List.map_congr_left fun c hc => ?_).trans (List.map_id _)
  obtain ⟨byte, -, hdigit⟩ := List.mem_flatMap.mp hc
  obtain ⟨hhigh, hlow⟩ := half_lt byte
  rcases List.mem_cons.mp hdigit with rfl | hdigit
  · exact Uuid.toLower_digitChar _ hhigh
  · rw [List.mem_singleton.mp hdigit]
    exact Uuid.toLower_digitChar _ hlow

theorem hex_injective : Function.Injective hex := by
  intro a b h
  have ha := decodeHex_eq_some_iff.mpr (lower_hex a)
  rw [h, decodeHex_eq_some_iff.mpr (lower_hex b)] at ha
  exact (Option.some.inj ha).symm

section Mac

variable {mac : List UInt8 → List UInt8 → List UInt8} {key : List UInt8}

/-- **A signature is recognised in either case.** -/
theorem verify_iff {payload : List UInt8} {candidateHex : List Char} :
    verify mac key payload candidateHex = true ↔ lower candidateHex = sign mac key payload := by
  rw [verify, sign, ← decodeHex_eq_some_iff]
  cases decodeHex candidateHex with
  | none => simp
  | some bytes => simp [eq_comm]

/-- A signature belongs to one payload. -/
theorem sign_injective (hmac : Function.Injective (mac key)) :
    Function.Injective (sign mac key) :=
  hex_injective.comp hmac

end Mac

/-! ## Integers in texts -/

theorem toI64_val (x : I64) : toI64 x.val = some x := dif_pos x.property

theorem parseDigits_toDigits (n : Nat) : parseDigits (Nat.toDigits 10 n) = some n := by
  have hdigits : ∀ c ∈ Nat.toDigits 10 n, c.isDigit = true := fun c hc =>
    Nat.isDigit_of_mem_toDigits (by decide) (by decide) hc
  have hne : (Nat.toDigits 10 n).isEmpty = false := by
    rw [List.isEmpty_eq_false_iff]
    exact Nat.toDigits_ne_nil
  rw [parseDigits, if_neg (by simp [hne, List.all_eq_true.mpr hdigits]),
    Nat.ofDigitChars_toDigits (by decide) (by decide)]

/-- Digits without a sign. -/
theorem parseI64_of_digits {digits : List Char} (h : ∀ c ∈ digits, c.isDigit = true) :
    parseI64 digits = (parseDigits digits).bind fun n => toI64 n := by
  cases digits with
  | nil => rfl
  | cons c digits =>
      have hc := h c List.mem_cons_self
      rw [parseI64.eq_3]
      · rintro rest heq
        rw [(List.cons.inj heq).1] at hc
        exact absurd hc (by decide)
      · rintro rest heq
        rw [(List.cons.inj heq).1] at hc
        exact absurd hc (by decide)

theorem printI64_eq (x : I64) :
    printI64 x = if x.val < 0 then '-' :: Nat.toDigits 10 x.val.natAbs
      else Nat.toDigits 10 x.val.natAbs := by
  obtain ⟨x, hx⟩ := x
  rw [printI64]
  cases x with
  | ofNat n =>
      rw [if_neg (by simp)]
      change (Nat.repr n).toList = _
      rw [Nat.repr_eq_ofList_toDigits, String.toList_ofList]
      rfl
  | negSucc n =>
      rw [if_pos (Int.negSucc_lt_zero n)]
      change ("-" ++ Nat.repr (n + 1)).toList = _
      rw [String.toList_append, Nat.repr_eq_ofList_toDigits, String.toList_ofList,
        String.toList_ofList]
      rfl

/-- **Printed integers are read back.** -/
theorem parseI64_printI64 (x : I64) : parseI64 (printI64 x) = some x := by
  rw [printI64_eq]
  split_ifs with hneg
  · rw [parseI64, parseDigits_toDigits, Option.bind_some]
    have hval : -(x.val.natAbs : Int) = x.val := by omega
    rw [hval, toI64_val]
  · rw [parseI64_of_digits fun c hc => Nat.isDigit_of_mem_toDigits (by decide) (by decide) hc,
      parseDigits_toDigits, Option.bind_some]
    have hval : (x.val.natAbs : Int) = x.val := by omega
    rw [hval, toI64_val]

/-- A printed integer has digits, after a sign. -/
theorem digit_of_mem_printI64 {x : I64} {c : Char} (h : c ∈ printI64 x) :
    c = '-' ∨ c.isDigit = true := by
  have hdigit : ∀ c ∈ Nat.toDigits 10 x.val.natAbs, c.isDigit = true := fun c hc =>
    Nat.isDigit_of_mem_toDigits (by decide) (by decide) hc
  rw [printI64_eq] at h
  split_ifs at h
  · rcases List.mem_cons.mp h with rfl | h
    · exact Or.inl rfl
    · exact Or.inr (hdigit c h)
  · exact Or.inr (hdigit c h)

/-- A printed integer has at most nineteen digits and a sign. -/
theorem length_printI64_le (x : I64) : (printI64 x).length ≤ 20 := by
  have hx := x.property
  have hdigits : (Nat.toDigits 10 x.val.natAbs).length ≤ 19 := by
    rw [Nat.length_toDigits_le_iff (by decide) (by decide)]
    omega
  rw [printI64_eq]
  split_ifs
  · rw [List.length_cons]
    omega
  · omega

/-- **No difference overflows.** -/
theorem absDiff_eq (a b : I64) : absDiff a b = (a.val - b.val).natAbs := by
  have ha := a.property
  have hb := b.property
  rw [absDiff]
  split_ifs <;> omega

end Yorishiro.Http
