import Mathlib.Data.String.Basic
import Mathlib.Order.Fin.Basic
import Mathlib.Tactic.IntervalCases
import Mathlib.Tactic.Ring

/-!
# Identifiers

A `Uuid` is a 128-bit number. `Uuid.toString` prints it as the source's
`to_string` does, in the hyphenated lower-case form, and `Uuid.parseStr` accepts
the simple, hyphenated, braced and URN forms in either case. Printing and then
parsing gives the identifier back (`Uuid.parseStr_toString`), so printed
identifiers can be compared as strings (`Uuid.toString_injective`): the dispatch
outbox stores claim tokens that way.
-/

set_option autoImplicit false

namespace Yorishiro

/-- A 128-bit identifier. -/
abbrev Uuid := Fin (2 ^ 128)

namespace Uuid

/-- What is left of a number in 128 bits. -/
theorem mod_lt (n : Nat) : n % 2 ^ 128 < 2 ^ 128 := Nat.mod_lt n (by decide)

/-- Numerals stand for identifiers. -/
instance (n : Nat) : OfNat Uuid n := ⟨⟨n % 2 ^ 128, mod_lt n⟩⟩

instance : LawfulBEq Uuid := inferInstance

/-! ## Fixed-width hexadecimal -/

/-- The `w` low hexadecimal digits of `n`, most significant first. -/
def hexDigits : Nat → Nat → List Char
  | 0, _ => []
  | w + 1, n => hexDigits w (n / 16) ++ [Nat.digitChar (n % 16)]

/-- Value of a hexadecimal digit in either case. -/
def hexValue (c : Char) : Option Nat :=
  if '0' ≤ c ∧ c ≤ '9' then some (c.toNat - '0'.toNat)
  else if 'a' ≤ c ∧ c ≤ 'f' then some (c.toNat - 'a'.toNat + 10)
  else if 'A' ≤ c ∧ c ≤ 'F' then some (c.toNat - 'A'.toNat + 10)
  else none

/-- Value of a digit string whose digits before it denote `acc`. -/
def parseHex : Nat → List Char → Option Nat
  | acc, [] => some acc
  | acc, c :: cs => (hexValue c).bind fun d => parseHex (acc * 16 + d) cs

theorem hexValue_digitChar (d : Nat) (h : d < 16) : hexValue (Nat.digitChar d) = some d := by
  interval_cases d <;> decide

theorem toLower_digitChar (d : Nat) (h : d < 16) :
    (Nat.digitChar d).toLower = Nat.digitChar d := by
  interval_cases d <;> rfl

theorem length_hexDigits (w n : Nat) : (hexDigits w n).length = w := by
  induction w generalizing n with
  | zero => rfl
  | succ w ih => simp [hexDigits, ih]

theorem parseHex_append (acc : Nat) (as bs : List Char) :
    parseHex acc (as ++ bs) = (parseHex acc as).bind fun m => parseHex m bs := by
  -- the accumulator carries the digits already read
  induction as generalizing acc with
  | nil => rfl
  | cons a as ih =>
      rw [List.cons_append, parseHex, parseHex, Option.bind_assoc]
      congr 1
      funext d
      exact ih _

theorem parseHex_hexDigits (w n acc : Nat) (h : n < 16 ^ w) :
    parseHex acc (hexDigits w n) = some (acc * 16 ^ w + n) := by
  induction w generalizing n with
  | zero =>
      have hn : n = 0 := by simpa using h
      simp [hexDigits, parseHex, hn]
  | succ w ih =>
      have hdiv : n / 16 < 16 ^ w := by
        rw [Nat.div_lt_iff_lt_mul (by decide)]
        exact h
      have hmod : n % 16 < 16 := Nat.mod_lt _ (by decide)
      rw [hexDigits, parseHex_append, ih _ hdiv]
      simp only [Option.bind_some, parseHex, hexValue_digitChar _ hmod, Option.some.injEq]
      -- the last digit is the remainder; the digits before it are the quotient's
      have hsplit := Nat.div_add_mod n 16
      rw [pow_succ]
      calc (acc * 16 ^ w + n / 16) * 16 + n % 16
          = acc * (16 ^ w * 16) + (16 * (n / 16) + n % 16) := by ring
        _ = acc * (16 ^ w * 16) + n := by rw [hsplit]

/-! ## Printed forms -/

/-- Inserts the hyphens of the 8-4-4-4-12 grouping. -/
def hyphenate (ds : List Char) : List Char :=
  ds.take 8 ++ '-' :: ((ds.drop 8).take 4 ++ '-' :: ((ds.drop 12).take 4 ++ '-' ::
    ((ds.drop 16).take 4 ++ '-' :: ds.drop 20)))

/-- Removes the hyphens of the 8-4-4-4-12 grouping from 36 characters. -/
def unhyphenate (cs : List Char) : Option (List Char) :=
  if cs[8]? = some '-' ∧ cs[13]? = some '-' ∧ cs[18]? = some '-' ∧ cs[23]? = some '-' then
    some (cs.take 8 ++ (cs.drop 9).take 4 ++ (cs.drop 14).take 4 ++ (cs.drop 19).take 4 ++
      cs.drop 24)
  else none

/-- The identifier written as 32 hexadecimal digits. -/
def parseSimple (cs : List Char) : Option Uuid :=
  (parseHex 0 cs).bind fun n => if h : n < 2 ^ 128 then some ⟨n, h⟩ else none

/-- `Uuid::parse_str`: the length decides the form, and a wrapped form must carry
its wrapping exactly. -/
def parseStr (s : String) : Option Uuid :=
  let cs := s.toList
  if cs.length = 32 then parseSimple cs
  else if cs.length = 36 then (unhyphenate cs).bind parseSimple
  else if cs.length = 38 then
    if cs[0]? = some (Char.ofNat 123) ∧ cs[37]? = some (Char.ofNat 125) then
      (unhyphenate ((cs.drop 1).take 36)).bind parseSimple
    else none
  else if cs.length = 45 then
    if (cs.take 9).map Char.toLower = "urn:uuid:".toList then
      (unhyphenate (cs.drop 9)).bind parseSimple
    else none
  else none

/-- `Uuid::to_string`: hyphenated, lower case. -/
protected def toString (u : Uuid) : String :=
  String.ofList (hyphenate (hexDigits 32 u.val))

theorem length_hyphenate (ds : List Char) (h : ds.length = 32) :
    (hyphenate ds).length = 36 := by
  simp [hyphenate, h]

theorem mem_hexDigits {w n : Nat} {c : Char} (h : c ∈ hexDigits w n) :
    ∃ d < 16, c = Nat.digitChar d := by
  induction w generalizing n with
  | zero => cases h
  | succ w ih =>
      rw [hexDigits, List.mem_append, List.mem_singleton] at h
      rcases h with h | rfl
      · exact ih h
      · exact ⟨n % 16, Nat.mod_lt _ (by decide), rfl⟩

theorem mem_hyphenate {ds : List Char} {c : Char} (h : c ∈ hyphenate ds) : c = '-' ∨ c ∈ ds := by
  simp only [hyphenate, List.mem_append, List.mem_cons] at h
  rcases h with h | rfl | h | rfl | h | rfl | h | rfl | h
  · exact Or.inr (List.mem_of_mem_take h)
  · exact Or.inl rfl
  · exact Or.inr (List.mem_of_mem_drop (List.mem_of_mem_take h))
  · exact Or.inl rfl
  · exact Or.inr (List.mem_of_mem_drop (List.mem_of_mem_take h))
  · exact Or.inl rfl
  · exact Or.inr (List.mem_of_mem_drop (List.mem_of_mem_take h))
  · exact Or.inl rfl
  · exact Or.inr (List.mem_of_mem_drop h)

/-- A printed identifier has hyphens and lower-case digits. -/
theorem mem_toString {u : Uuid} {c : Char} (h : c ∈ u.toString.toList) :
    c = '-' ∨ ∃ d < 16, c = Nat.digitChar d := by
  rw [Uuid.toString, String.toList_ofList] at h
  exact (mem_hyphenate h).imp_right mem_hexDigits

theorem length_toString (u : Uuid) : u.toString.toList.length = 36 := by
  rw [Uuid.toString, String.toList_ofList, length_hyphenate _ (length_hexDigits 32 u.val)]

theorem unhyphenate_hyphenate (ds : List Char) (h : ds.length = 32) :
    unhyphenate (hyphenate ds) = some ds := by
  -- cut the digits at the group boundaries; the group lengths decide every index below
  obtain ⟨a, r, rfl, ha⟩ : ∃ a r, ds = a ++ r ∧ a.length = 8 :=
    ⟨ds.take 8, ds.drop 8, (List.take_append_drop 8 ds).symm, by simp [h]⟩
  obtain ⟨b, r, rfl, hb⟩ : ∃ b r', r = b ++ r' ∧ b.length = 4 :=
    ⟨r.take 4, r.drop 4, (List.take_append_drop 4 r).symm, by simp at h; simp; omega⟩
  obtain ⟨c, r, rfl, hc⟩ : ∃ c r', r = c ++ r' ∧ c.length = 4 :=
    ⟨r.take 4, r.drop 4, (List.take_append_drop 4 r).symm, by simp at h; simp; omega⟩
  obtain ⟨d, e, rfl, hd⟩ : ∃ d r', r = d ++ r' ∧ d.length = 4 :=
    ⟨r.take 4, r.drop 4, (List.take_append_drop 4 r).symm, by simp at h; simp; omega⟩
  simp [unhyphenate, hyphenate, List.take_append, List.drop_append, List.getElem?_append,
    ha, hb, hc, hd]
  simp (disch := omega) [List.drop_eq_nil_of_le]

/-- Parsing a printed identifier gives it back. -/
theorem parseStr_toString (u : Uuid) : parseStr u.toString = some u := by
  have hlen : (hexDigits 32 u.val).length = 32 := length_hexDigits 32 u.val
  -- 32 digits of four bits each are exactly the 128 bits
  have hlt : u.val < 16 ^ 32 := lt_of_lt_of_eq u.isLt (by norm_num)
  have hparse : parseSimple (hexDigits 32 u.val) = some u := by
    simp [parseSimple, parseHex_hexDigits 32 u.val 0 hlt]
  unfold parseStr Uuid.toString
  simp only [String.toList_ofList, length_hyphenate _ hlen]
  simp [unhyphenate_hyphenate _ hlen, hparse]

theorem toString_injective : Function.Injective Uuid.toString := by
  intro u v h
  have := parseStr_toString u
  rw [h, parseStr_toString v] at this
  exact (Option.some.inj this).symm

@[simp] theorem toString_inj {u v : Uuid} : u.toString = v.toString ↔ u = v :=
  toString_injective.eq_iff

end Uuid

end Yorishiro
