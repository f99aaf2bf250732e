import Mathlib.Data.List.Nodup
import Yorishiro.Lib.Lines
import Yorishiro.Lib.Quantities
import Yorishiro.Lib.Separated
import Yorishiro.Metaschema.Validate

/-!
# Intervals of reindex schedules

`parse_interval` reads a duration of weeks, days, hours, minutes and seconds. It scans the date part
and the time part character by character, with arithmetic that fails on overflow.

An `Interval` is such a duration as it is written. What the scan accepts are the intervals in which
no unit occurs twice (`parseInterval_eq_some_iff`), whatever the order of their units and with or
without something after the `T`. So what is returned is the duration that the grammar gives exactly
for the texts that are not one of these in disorder (`parseInterval_denotes_iff`).
-/

set_option autoImplicit false

namespace Yorishiro.Schedule

open Yorishiro.Lib Yorishiro.Lib.Quantities Yorishiro.Metaschema

/-! ## The functions -/

/-- `i64::MAX`. -/
def i64Max : Nat := 2 ^ 63 - 1

/-- The result of checked arithmetic on numbers that are not negative. -/
def checked (n : Nat) : Option Nat := if n ≤ i64Max then some n else none

/-- `DATE_UNITS`. -/
def dateUnits : List (Char × Nat) := [('W', 604800), ('D', 86400)]

/-- `TIME_UNITS`. -/
def timeUnits : List (Char × Nat) := [('H', 3600), ('M', 60), ('S', 1)]

/-- The factor of a unit, when the table has it. -/
def factorOf (units : List (Char × Nat)) (ch : Char) : Option Nat :=
  (units.find? fun u => decide (u.1 = ch)).map Prod.snd

/-- `parse::<i64>` of digits. -/
def parseNumber (digits : List Char) : Option Nat :=
  if digits.isEmpty then none else checked (Nat.ofDigitChars 10 digits 0)

/-- The variables of `seconds_in`. -/
structure Scan where
  total : Nat
  components : Nat
  number : List Char
  seen : List Char
deriving DecidableEq, Repr

/-- The body of the loop of `seconds_in`. -/
def scanChar (units : List (Char × Nat)) (s : Scan) (ch : Char) : Option Scan :=
  if ch.isDigit then some { s with number := s.number ++ [ch] }
  else do
    let factor ← factorOf units ch
    if ch ∈ s.seen then none
    else do
      let number ← parseNumber s.number
      let seconds ← checked (number * factor)
      let total ← checked (s.total + seconds)
      some
        { total := total
          components := s.components + 1
          number := []
          seen := s.seen ++ [ch] }

/-- `seconds_in`: the seconds and the number of components of a part. -/
def secondsIn (part : List Char) (units : List (Char × Nat)) : Option (Nat × Nat) := do
  let s ← part.foldlM (scanChar units) { total := 0, components := 0, number := [], seen := [] }
  -- a number without a unit is left over
  if s.number.isEmpty then some (s.total, s.components) else none

/-- `chrono::Duration::try_seconds`, for the most seconds that a duration holds. -/
def trySeconds (maxSeconds seconds : Nat) : Option Nat :=
  if seconds ≤ maxSeconds then some seconds else none

/-- `parse_interval`: the seconds of the duration. -/
def parseInterval (maxSeconds : Nat) (value : String) : Option Nat :=
  match Lines.trim isWhitespace value.toList with
  | 'P' :: rest => do
      let parts := (Separated.splitOnce 'T' rest).getD (rest, [])
      let date ← secondsIn parts.1 dateUnits
      let time ← secondsIn parts.2 timeUnits
      let seconds ← checked (date.1 + time.1)
      if 0 < date.2 + time.2 ∧ 0 < seconds then trySeconds maxSeconds seconds else none
  | _ => none

/-! ## Arithmetic -/

theorem checked_eq_some {n m : Nat} : checked n = some m ↔ n ≤ i64Max ∧ n = m := by
  unfold checked
  split_ifs with h
  · simp [h]
  · simp [h]

theorem trySeconds_eq_some {maxSeconds n m : Nat} :
    trySeconds maxSeconds n = some m ↔ n ≤ maxSeconds ∧ n = m := by
  unfold trySeconds
  split_ifs with h
  · simp [h]
  · simp [h]

theorem parseNumber_eq_some {digits : List Char} {n : Nat} :
    parseNumber digits = some n ↔
      digits ≠ [] ∧ Nat.ofDigitChars 10 digits 0 ≤ i64Max ∧ Nat.ofDigitChars 10 digits 0 = n := by
  unfold parseNumber
  cases digits with
  | nil => simp
  | cons c cs => simp [checked_eq_some]

/-- The seconds of a unit. -/
def secondsOf (units : List (Char × Nat)) (ch : Char) : Nat := (factorOf units ch).getD 0

/-- No unit occurs twice, and all are of the table. -/
structure Distinct (units : List (Char × Nat)) (qs : List Quantity) : Prop where
  nodup : (qs.map Quantity.unit).Nodup
  known : ∀ q ∈ qs, (factorOf units q.unit).isSome = true

/-! ## The scan -/

section Scan

variable {units : List (Char × Nat)} {s s' : Scan} {done : List Char}

/-- What the scan knows after the characters `done`: the quantities among them, and the digits of
the next one. -/
def Scanned (units : List (Char × Nat)) (done : List Char) (s : Scan) : Prop :=
  ∃ qs, done = text qs ++ s.number ∧ (∀ c ∈ s.number, c.isDigit = true) ∧ Distinct units qs ∧
    s.seen = qs.map Quantity.unit ∧ s.total = total (secondsOf units) qs ∧ s.total ≤ i64Max ∧
    s.components = qs.length

theorem scanChar_unit {ch : Char} (hdigit : ch.isDigit = false) :
    scanChar units s ch = some s' ↔ ∃ factor, factorOf units ch = some factor ∧ ch ∉ s.seen ∧
      s.number ≠ [] ∧ Nat.ofDigitChars 10 s.number 0 ≤ i64Max ∧
      Nat.ofDigitChars 10 s.number 0 * factor ≤ i64Max ∧
      s.total + Nat.ofDigitChars 10 s.number 0 * factor ≤ i64Max ∧
      s' =
        { total := s.total + Nat.ofDigitChars 10 s.number 0 * factor
          components := s.components + 1
          number := []
          seen := s.seen ++ [ch] } := by
  rw [scanChar, hdigit, if_neg (by decide)]
  cases factorOf units ch with
  | none => simp
  | some factor =>
      by_cases hseen : ch ∈ s.seen
      · simp [hseen]
      · simp only [Option.bind_eq_bind, Option.bind_some, if_neg hseen, Option.bind_eq_some_iff,
          parseNumber_eq_some, checked_eq_some, Option.some.injEq]
        constructor
        · rintro ⟨_, ⟨hne, hnumber, rfl⟩, _, ⟨hseconds, rfl⟩, _, ⟨htotal, rfl⟩, rfl⟩
          exact ⟨factor, rfl, hseen, hne, hnumber, hseconds, htotal, rfl⟩
        · rintro ⟨_, rfl, -, hne, hnumber, hseconds, htotal, rfl⟩
          exact ⟨_, ⟨hne, hnumber, rfl⟩, _, ⟨hseconds, rfl⟩, _, ⟨htotal, rfl⟩, rfl⟩

/-- Step: one character. -/
theorem Scanned.step (h : Scanned units done s) {ch : Char}
    (hstep : scanChar units s ch = some s') : Scanned units (done ++ [ch]) s' := by
  obtain ⟨qs, hdone, hdecimal, hdistinct, hseen, htotal, hmax, hcomponents⟩ := h
  cases hdigit : ch.isDigit with
  | true =>
      rw [scanChar, hdigit, if_pos rfl] at hstep
      cases hstep
      refine ⟨qs, ?_, ?_, hdistinct, hseen, htotal, hmax, hcomponents⟩
      · rw [hdone, List.append_assoc]
      · intro c hc
        rcases List.mem_append.mp hc with hc | hc
        · exact hdecimal c hc
        · rw [List.mem_singleton.mp hc, hdigit]
  | false =>
      obtain ⟨factor, hfactor, hnew, hne, -, -, hfits, rfl⟩ := (scanChar_unit hdigit).mp hstep
      let q : Quantity := ⟨s.number, ch, hne, hdecimal, hdigit⟩
      refine ⟨qs ++ [q], ?_, fun c hc => (by cases hc), ⟨?_, ?_⟩, ?_, ?_, hfits, ?_⟩
      · rw [text_concat, hdone, List.append_nil]
      · rw [List.map_append, List.map_singleton, List.nodup_append]
        refine ⟨hdistinct.nodup, List.nodup_singleton _, ?_⟩
        rintro c hc _ hq rfl
        have hunit : c = ch := List.mem_singleton.mp hq
        rw [hseen, ← hunit] at hnew
        exact hnew hc
      · intro p hp
        rcases List.mem_append.mp hp with hp | hp
        · exact hdistinct.known p hp
        · rw [List.mem_singleton.mp hp, hfactor, Option.isSome_some]
      · rw [hseen, List.map_append, List.map_singleton]
      · rw [total_concat, ← htotal, secondsOf, hfactor, Option.getD_some]
        rfl
      · rw [hcomponents, List.length_append, List.length_singleton]

theorem Scanned.foldlM (h : Scanned units done s) {part : List Char}
    (hrun : part.foldlM (scanChar units) s = some s') : Scanned units (done ++ part) s' := by
  induction part generalizing s done with
  | nil =>
      cases hrun
      rwa [List.append_nil]
  | cons ch part ih =>
      rw [List.foldlM_cons] at hrun
      obtain ⟨s₁, hstep, hrest⟩ := Option.bind_eq_some_iff.mp hrun
      rw [List.append_cons]
      exact ih (h.step hstep) hrest

theorem foldlM_digits {digits : List Char} (hdecimal : ∀ c ∈ digits, c.isDigit = true)
    (s : Scan) :
    digits.foldlM (scanChar units) s = some { s with number := s.number ++ digits } := by
  induction digits generalizing s with
  | nil =>
      rw [List.append_nil]
      rfl
  | cons c digits ih =>
      obtain ⟨hc, hrest⟩ := List.forall_mem_cons.mp hdecimal
      rw [List.foldlM_cons, scanChar, if_pos hc, Option.bind_eq_bind, Option.bind_some, ih hrest,
        ← List.append_cons]

/-- The units of the table are some seconds long. -/
theorem secondsOf_pos (hpositive : ∀ u ∈ units, 0 < u.2) {ch : Char}
    (hknown : (factorOf units ch).isSome = true) : 0 < secondsOf units ch := by
  obtain ⟨factor, hfactor⟩ := Option.isSome_iff_exists.mp hknown
  rw [secondsOf, hfactor, Option.getD_some]
  obtain ⟨u, hu, rfl⟩ := Option.map_eq_some_iff.mp hfactor
  exact hpositive u (List.mem_of_find?_eq_some hu)

/-- A quantity of a new unit is scanned, if the sum stays in the range. -/
theorem foldlM_quantity (hpositive : ∀ u ∈ units, 0 < u.2) {q : Quantity}
    (hknown : (factorOf units q.unit).isSome = true) (hnumber : s.number = [])
    (hnew : q.unit ∉ s.seen) (hfits : s.total + q.number * secondsOf units q.unit ≤ i64Max)
    (rest : List Char) :
    (q.digits ++ q.unit :: rest).foldlM (scanChar units) s = rest.foldlM (scanChar units)
      { total := s.total + q.number * secondsOf units q.unit
        components := s.components + 1
        number := []
        seen := s.seen ++ [q.unit] } := by
  have hle : q.number ≤ q.number * secondsOf units q.unit :=
    Nat.le_mul_of_pos_right _ (secondsOf_pos hpositive hknown)
  have hfactor : factorOf units q.unit = some (secondsOf units q.unit) :=
    (Option.some_get hknown).symm.trans (by rw [secondsOf, Option.get_eq_getD])
  have hstep : scanChar units { s with number := s.number ++ q.digits } q.unit = some
      { total := s.total + q.number * secondsOf units q.unit
        components := s.components + 1
        number := []
        seen := s.seen ++ [q.unit] } := by
    refine (scanChar_unit q.unit_not_digit).mpr ⟨secondsOf units q.unit, hfactor, hnew, ?_⟩
    simp only [hnumber, List.nil_append]
    change q.digits ≠ [] ∧ q.number ≤ i64Max ∧ q.number * secondsOf units q.unit ≤ i64Max ∧
      s.total + q.number * secondsOf units q.unit ≤ i64Max ∧ _
    exact ⟨q.nonempty, by omega, by omega, by omega, rfl⟩
  rw [List.foldlM_append, foldlM_digits q.decimal, Option.bind_eq_bind, Option.bind_some,
    List.foldlM_cons, hstep, Option.bind_eq_bind, Option.bind_some]

/-- Quantities of new units are scanned, if the sum stays in the range. -/
theorem foldlM_text (hpositive : ∀ u ∈ units, 0 < u.2) {qs : List Quantity}
    (hdistinct : Distinct units qs) (hnumber : s.number = [])
    (hnew : ∀ q ∈ qs, q.unit ∉ s.seen)
    (hfits : s.total + total (secondsOf units) qs ≤ i64Max) :
    (text qs).foldlM (scanChar units) s = some
      { total := s.total + total (secondsOf units) qs
        components := s.components + qs.length
        number := []
        seen := s.seen ++ qs.map Quantity.unit } := by
  induction qs generalizing s with
  | nil =>
      rw [List.map_nil, List.append_nil, ← hnumber]
      rfl
  | cons q qs ih =>
      obtain ⟨hfresh, hnodup⟩ := List.nodup_cons.mp hdistinct.nodup
      rw [total_cons] at hfits ⊢
      rw [text_cons, foldlM_quantity hpositive (hdistinct.known q List.mem_cons_self) hnumber
        (hnew q List.mem_cons_self) (by omega)]
      rw [ih ⟨hnodup, fun p hp => hdistinct.known p (List.mem_cons_of_mem _ hp)⟩ rfl]
      · simp only [List.length_cons, List.map_cons, Option.some.injEq, Scan.mk.injEq, true_and]
        refine ⟨by omega, by omega, by rw [← List.append_cons]⟩
      · intro p hp
        rw [List.mem_append, List.mem_singleton, not_or]
        refine ⟨hnew p (List.mem_cons_of_mem _ hp), fun heq => hfresh ?_⟩
        exact heq ▸ List.mem_map_of_mem hp
      · simp only
        omega

/-- **What `seconds_in` accepts**: quantities of distinct units whose sum is in the range. -/
theorem secondsIn_eq_some_iff (hpositive : ∀ u ∈ units, 0 < u.2) {part : List Char} {t n : Nat} :
    secondsIn part units = some (t, n) ↔ ∃ qs, part = text qs ∧ Distinct units qs ∧
      total (secondsOf units) qs = t ∧ t ≤ i64Max ∧ qs.length = n := by
  constructor
  · intro h
    obtain ⟨s, hrun, hs⟩ := Option.bind_eq_some_iff.mp h
    have hstart : Scanned units []
        { total := 0, components := 0, number := [], seen := [] } :=
      ⟨[], rfl, fun c hc => (by cases hc), ⟨List.nodup_nil, fun q hq => by cases hq⟩, rfl, rfl,
        Nat.zero_le _, rfl⟩
    obtain ⟨qs, hpart, -, hdistinct, -, htotal, hmax, hcomponents⟩ := hstart.foldlM hrun
    split_ifs at hs with hempty
    cases hs
    rw [List.isEmpty_iff.mp hempty, List.append_nil, List.nil_append] at hpart
    exact ⟨qs, hpart, hdistinct, htotal.symm, hmax, hcomponents.symm⟩
  · rintro ⟨qs, rfl, hdistinct, rfl, hmax, rfl⟩
    have hrun := foldlM_text (s := { total := 0, components := 0, number := [], seen := [] })
      hpositive hdistinct rfl (fun q _ => List.not_mem_nil) (by simpa using hmax)
    rw [secondsIn, hrun]
    simp

end Scan

/-! ## Intervals -/

/-- A duration as it is written: its date part, and its time part if there is a `T`. -/
structure Interval where
  date : List Quantity
  time : Option (List Quantity)

namespace Interval

/-- The quantities of the time part. -/
def timePart (i : Interval) : List Quantity := i.time.getD []

/-- What is written after the date part. -/
def timeText (i : Interval) : List Char :=
  match i.time with
  | none => []
  | some qs => 'T' :: Quantities.text qs

/-- The duration as it is written. -/
def text (i : Interval) : List Char := 'P' :: (Quantities.text i.date ++ i.timeText)

/-- The sum of number times unit seconds. -/
def seconds (i : Interval) : Nat :=
  total (secondsOf dateUnits) i.date + total (secondsOf timeUnits) i.timePart

/-- No unit occurs twice, and each is in its part. -/
structure Distinct (i : Interval) : Prop where
  date : Schedule.Distinct dateUnits i.date
  time : Schedule.Distinct timeUnits i.timePart

/-- The units are in the order of the grammar, and the `T` is followed by a time component. -/
structure Ordered (i : Interval) : Prop where
  date : (i.date.map Quantity.unit).Sublist (dateUnits.map Prod.fst)
  time : (i.timePart.map Quantity.unit).Sublist (timeUnits.map Prod.fst)
  followed : i.time ≠ some []

end Interval

/-- The sum is positive, and an `i64` and a duration can hold it. -/
structure Fits (maxSeconds seconds : Nat) : Prop where
  positive : 0 < seconds
  range : seconds ≤ i64Max
  duration : seconds ≤ maxSeconds

/-- The trimmed value is the interval. -/
def Spells (value : String) (i : Interval) : Prop :=
  Lines.trim isWhitespace value.toList = i.text

instance (value : String) (i : Interval) : Decidable (Spells value i) :=
  inferInstanceAs (Decidable (_ = _))

/-- The value is a duration of the grammar, of so many seconds. -/
def Denotes (maxSeconds : Nat) (value : String) (seconds : Nat) : Prop :=
  ∃ i : Interval, Spells value i ∧ i.Ordered ∧ i.seconds = seconds ∧ Fits maxSeconds seconds

section Interval

variable {maxSeconds seconds : Nat} {value : String} {i j : Interval}

theorem Distinct.of_sublist {units : List (Char × Nat)} {qs : List Quantity}
    (hnodup : (units.map Prod.fst).Nodup)
    (h : (qs.map Quantity.unit).Sublist (units.map Prod.fst)) : Distinct units qs where
  nodup := hnodup.sublist h
  known := by
    intro q hq
    obtain ⟨u, hu, hunit⟩ := List.mem_map.mp (h.subset (List.mem_map_of_mem hq))
    rw [factorOf, Option.isSome_map, List.find?_isSome]
    exact ⟨u, hu, decide_eq_true hunit⟩

theorem Interval.Ordered.distinct (h : i.Ordered) : i.Distinct where
  date := .of_sublist (by decide) h.date
  time := .of_sublist (by decide) h.time

/-- The date part has no `T`. -/
theorem notMem_text (h : Distinct dateUnits i.date) : 'T' ∉ text i.date := by
  intro hmem
  rcases digit_or_unit_of_mem hmem with hdigit | ⟨q, hq, hunit⟩
  · exact absurd hdigit (by decide)
  · have hknown := h.known q hq
    rw [hunit] at hknown
    exact absurd hknown (by decide)

theorem splitOnce_text (h : i.Distinct) :
    Separated.splitOnce 'T' (text i.date ++ i.timeText) =
      i.time.map fun qs => (text i.date, text qs) := by
  have hnone := notMem_text h.date
  unfold Interval.timeText
  cases i.time with
  | none =>
      rw [List.append_nil]
      exact Separated.splitOnce_of_notMem hnone
  | some qs => exact Separated.splitOnce_append hnone (text qs)

/-- An interval of distinct units can be read back from its text. -/
theorem Interval.text_injective (hi : i.Distinct) (hj : j.Distinct) (h : i.text = j.text) :
    i = j := by
  have hrest : Quantities.text i.date ++ i.timeText = Quantities.text j.date ++ j.timeText :=
    List.tail_eq_of_cons_eq h
  have hsplit := splitOnce_text hi
  rw [hrest, splitOnce_text hj] at hsplit
  obtain ⟨date, time⟩ := i
  obtain ⟨date', time'⟩ := j
  cases time with
  | none =>
      cases time' with
      | none =>
          simp only [Interval.timeText, List.append_nil] at hrest
          rw [Quantities.text_injective hrest]
      | some qs' => cases hsplit
  | some qs =>
      cases time' with
      | none => cases hsplit
      | some qs' =>
          simp only [Option.map_some, Option.some.injEq, Prod.mk.injEq] at hsplit
          rw [Quantities.text_injective hsplit.1, Quantities.text_injective hsplit.2]

/-! ## What is accepted -/

theorem secondsIn_date {part : List Char} {t n : Nat} :
    secondsIn part dateUnits = some (t, n) ↔ ∃ qs, part = text qs ∧ Distinct dateUnits qs ∧
      total (secondsOf dateUnits) qs = t ∧ t ≤ i64Max ∧ qs.length = n :=
  secondsIn_eq_some_iff (by decide)

theorem secondsIn_time {part : List Char} {t n : Nat} :
    secondsIn part timeUnits = some (t, n) ↔ ∃ qs, part = text qs ∧ Distinct timeUnits qs ∧
      total (secondsOf timeUnits) qs = t ∧ t ≤ i64Max ∧ qs.length = n :=
  secondsIn_eq_some_iff (by decide)

/-- The two parts of the text after the `P`. -/
theorem parts_text (h : i.Distinct) :
    (Separated.splitOnce 'T' (text i.date ++ i.timeText)).getD (text i.date ++ i.timeText, []) =
      (text i.date, text i.timePart) := by
  rw [splitOnce_text h, Interval.timeText, Interval.timePart]
  cases i.time with
  | none => simp
  | some qs => simp

/-- What has parts of quantities is the text of an interval. -/
theorem exists_interval {rest : List Char} {date time : List Quantity}
    (hdate : ((Separated.splitOnce 'T' rest).getD (rest, [])).1 = text date)
    (htime : ((Separated.splitOnce 'T' rest).getD (rest, [])).2 = text time) :
    ∃ i : Interval, rest = text i.date ++ i.timeText ∧ i.date = date ∧ i.timePart = time := by
  cases hsplit : Separated.splitOnce 'T' rest with
  | none =>
      simp only [hsplit, Option.getD_none] at hdate htime
      obtain rfl : [] = time := Quantities.text_injective htime
      exact ⟨⟨date, none⟩, by simp [Interval.timeText, hdate], rfl, rfl⟩
  | some parts =>
      obtain ⟨before, after⟩ := parts
      simp only [hsplit, Option.getD_some] at hdate htime
      refine ⟨⟨date, some time⟩, ?_, rfl, rfl⟩
      rw [(Separated.splitOnce_eq_some_iff.mp hsplit).2, hdate, htime]
      rfl

/-- A sum is only positive if there is something to add. -/
theorem length_pos_of_seconds_pos (h : 0 < i.seconds) : 0 < i.date.length + i.timePart.length := by
  by_contra hzero
  have hdate : i.date = [] := List.length_eq_zero_iff.mp (by omega)
  have htime : i.timePart = [] := List.length_eq_zero_iff.mp (by omega)
  rw [Interval.seconds, hdate, htime] at h
  exact absurd h (by decide)

/-- **What `parse_interval` accepts**: intervals of distinct units, whatever their order. -/
theorem parseInterval_eq_some_iff :
    parseInterval maxSeconds value = some seconds ↔
      ∃ i : Interval, Spells value i ∧ i.Distinct ∧ i.seconds = seconds ∧
        Fits maxSeconds seconds := by
  constructor
  · intro h
    unfold parseInterval at h
    split at h
    · next rest htrim =>
        simp only [Option.bind_eq_bind, Option.bind_eq_some_iff, checked_eq_some] at h
        obtain ⟨⟨t, n⟩, hdate, ⟨t', n'⟩, htime, sum, ⟨hrange, rfl⟩, h⟩ := h
        split_ifs at h with hpositive
        obtain ⟨hduration, rfl⟩ := trySeconds_eq_some.mp h
        obtain ⟨date, hdateText, hdateDistinct, rfl, -, -⟩ := secondsIn_date.mp hdate
        obtain ⟨time, htimeText, htimeDistinct, rfl, -, -⟩ := secondsIn_time.mp htime
        obtain ⟨i, rfl, rfl, rfl⟩ := exists_interval hdateText htimeText
        exact ⟨i, htrim, ⟨hdateDistinct, htimeDistinct⟩, rfl, ⟨hpositive.2, hrange, hduration⟩⟩
    · cases h
  · rintro ⟨i, hspells, hdistinct, rfl, hfits⟩
    have hrange := hfits.range
    rw [Interval.seconds] at hrange
    have hdate := secondsIn_date.mpr
      ⟨i.date, rfl, hdistinct.date, rfl, by omega, rfl⟩
    have htime := secondsIn_time.mpr
      ⟨i.timePart, rfl, hdistinct.time, rfl, by omega, rfl⟩
    have hpositive := length_pos_of_seconds_pos hfits.positive
    rw [parseInterval, hspells, Interval.text]
    simp only [parts_text hdistinct, hdate, htime, Option.bind_eq_bind, Option.bind_some]
    rw [Option.bind_eq_some_iff]
    refine ⟨i.seconds, checked_eq_some.mpr ⟨hrange, rfl⟩, ?_⟩
    rw [if_pos ⟨hpositive, hfits.positive⟩]
    exact trySeconds_eq_some.mpr ⟨hfits.duration, rfl⟩

/-- What a value denotes, when it is an interval of distinct units. -/
theorem denotes_iff (hspells : Spells value i) (hdistinct : i.Distinct) :
    Denotes maxSeconds value seconds ↔
      i.Ordered ∧ i.seconds = seconds ∧ Fits maxSeconds seconds := by
  constructor
  · rintro ⟨j, hspells', hordered, hseconds, hfits⟩
    obtain rfl := Interval.text_injective hdistinct hordered.distinct (hspells.symm.trans hspells')
    exact ⟨hordered, hseconds, hfits⟩
  · rintro ⟨hordered, hseconds, hfits⟩
    exact ⟨i, hspells, hordered, hseconds, hfits⟩

/-- The value is read as the grammar says: what is returned is what it denotes. -/
def ReadExactly (maxSeconds : Nat) (value : String) : Prop :=
  ∀ seconds, parseInterval maxSeconds value = some seconds ↔ Denotes maxSeconds value seconds

/-- **What `parse_interval` reads as the grammar says**: every value but the intervals of distinct
units that fit and are out of order, or end in a `T`. -/
theorem parseInterval_denotes_iff (maxSeconds : Nat) (value : String) :
    ReadExactly maxSeconds value ↔
      ∀ i : Interval, Spells value i → i.Distinct → Fits maxSeconds i.seconds → i.Ordered := by
  constructor
  · intro h i hspells hdistinct hfits
    have hparse := parseInterval_eq_some_iff.mpr ⟨i, hspells, hdistinct, rfl, hfits⟩
    exact ((denotes_iff hspells hdistinct).mp ((h i.seconds).mp hparse)).1
  · intro h seconds
    rw [parseInterval_eq_some_iff]
    constructor
    · rintro ⟨i, hspells, hdistinct, rfl, hfits⟩
      exact ⟨i, hspells, h i hspells hdistinct hfits, rfl, hfits⟩
    · rintro ⟨i, hspells, hordered, hseconds, hfits⟩
      exact ⟨i, hspells, hordered.distinct, hseconds, hfits⟩

end Interval

/-- The most seconds of a `chrono::Duration`: `i64::MAX` milliseconds. -/
def chronoMaxSeconds : Nat := i64Max / 1000

/-- One of a unit. -/
def one (unit : Char) (hunit : unit.isDigit = false) : Quantity :=
  ⟨['1'], unit, by decide, List.forall_mem_singleton.mpr rfl, hunit⟩

/-- A day before a week, and a `T` with nothing after it. -/
theorem not_readExactly_disordered :
    ¬ReadExactly chronoMaxSeconds "P1D1W" ∧ ¬ReadExactly chronoMaxSeconds "P1DT" := by
  constructor
  · intro h
    have hdenotes := (h 691200).mp (by decide)
    have hspells : Spells "P1D1W" ⟨[one 'D' rfl, one 'W' rfl], none⟩ := by decide
    have hordered := ((denotes_iff hspells
      ⟨⟨by decide, by decide⟩, ⟨List.nodup_nil, by simp [Interval.timePart]⟩⟩).mp hdenotes).1
    exact absurd hordered.date (by decide)
  · intro h
    have hdenotes := (h 86400).mp (by decide)
    have hspells : Spells "P1DT" ⟨[one 'D' rfl], some []⟩ := by decide
    have hordered := ((denotes_iff hspells
      ⟨⟨by decide, by decide⟩, ⟨List.nodup_nil, by simp [Interval.timePart]⟩⟩).mp hdenotes).1
    exact hordered.followed rfl

end Yorishiro.Schedule
