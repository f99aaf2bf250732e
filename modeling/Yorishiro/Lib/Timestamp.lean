import Mathlib.Data.Int.Order.Basic
import Mathlib.Data.Prod.Lex

/-!
# Timestamps compared as texts

A database without a type for instants keeps the RFC 3339 text of a timestamp, with the offset of
the zone it was written in, and compares texts. Such a text begins with what a clock of the zone
shows (`Timestamp.reading`), from the year to the fraction of the second; only texts of one reading
are told apart by their offsets. So the order of the texts (`Timestamp.textKey`) is that of the
instants within one zone, and between two zones it is off by the difference of their offsets:
`lt_utc_iff` and `utc_lt_iff` compare with a text that is written in UTC.
-/

set_option autoImplicit false

namespace Yorishiro.Lib

/-- An instant, in microseconds, and the offset it is written with, in minutes ahead of UTC. -/
structure Timestamp where
  instant : Int
  offset : Int
deriving DecidableEq, Repr

namespace Timestamp

/-- What a clock of the zone shows. -/
def reading (t : Timestamp) : Int := t.instant + t.offset * 60000000

/-- An instant written in UTC. -/
def utc (instant : Int) : Timestamp := ⟨instant, 0⟩

/-- The order of the texts, for the years 0 to 9999. A fraction is written with as many digits as
it needs, and what follows it, the sign of the offset, is before the point and the digits; `+` is
before `-`. -/
def textKey (t : Timestamp) : Int ×ₗ Bool ×ₗ Nat :=
  toLex (t.reading, toLex (decide (t.offset < 0), t.offset.natAbs))

@[simp] theorem reading_utc (instant : Int) : (utc instant).reading = instant := by
  simp [reading, utc]

/-- The clock of a zone that is not behind UTC shows no less than the time. -/
theorem instant_le_reading {t : Timestamp} : t.instant ≤ t.reading ↔ 0 ≤ t.offset := by
  unfold reading
  omega

theorem reading_le_instant {t : Timestamp} : t.reading ≤ t.instant ↔ t.offset ≤ 0 := by
  unfold reading
  omega

/-- A text is before one in UTC if its reading is; among texts of one reading, that in UTC is the
first. -/
theorem lt_utc_iff {t : Timestamp} {u : Int} : t.textKey < (utc u).textKey ↔ t.reading < u := by
  rw [textKey, textKey, Prod.Lex.toLex_lt_toLex, reading_utc]
  refine ⟨fun h => h.elim id fun hequal => absurd hequal.2 ?_, Or.inl⟩
  rw [Prod.Lex.toLex_lt_toLex]
  simp [utc]

/-- A text is after one in UTC if its reading is, or on the same reading in another zone. -/
theorem utc_lt_iff {t : Timestamp} {u : Int} :
    (utc u).textKey < t.textKey ↔ u < t.reading ∨ u = t.reading ∧ t.offset ≠ 0 := by
  rw [textKey, textKey, Prod.Lex.toLex_lt_toLex, reading_utc]
  refine or_congr_right (and_congr_right fun _ => ?_)
  rw [Prod.Lex.toLex_lt_toLex]
  rcases lt_trichotomy t.offset 0 with hneg | hzero | hpos
  · simp [utc, hneg, hneg.ne]
  · simp [utc, hzero]
  · simp [utc, hpos.ne', hpos.le]

end Timestamp

end Yorishiro.Lib
