import Yorishiro.Http.Signatures
import Yorishiro.Lib.Separated

/-!
# The signature of a Stripe event

`verify_signature` reads the signature header in one pass: parts of the form `key=value`, of which
the last timestamp is kept and every `v1` is a candidate. The keyed hash is a parameter.

A second timestamp is meant to be refused. The pass tells that there was one by its value, and a
timestamp that is no number leaves none. So a header with such timestamps before the one that counts
is accepted (`verifySignature_eq_ok_iff`); for all others the header is accepted exactly when it is
one of the grammar, with one timestamp (`verify_iff_signed`).
-/

set_option autoImplicit false

namespace Yorishiro.Billing

open Yorishiro.Lib Yorishiro.Http

/-! ## The functions -/

/-- `is_ascii_control`. -/
def isAsciiControl (c : Char) : Bool := decide (c.toNat < 32) || c.toNat == 127

/-- `is_ascii_whitespace`. -/
def isAsciiWhitespace (c : Char) : Bool :=
  c == ' ' || c == '\t' || c == '\n' || c == '\r' || c.toNat == 12

/-- `valid_key`. -/
def validKey (key : List Char) : Bool :=
  !key.isEmpty && key.all fun c => c.isAlphanum || c == '_' || c == '-'

/-- `SIGNATURE_TOLERANCE_SECS`. -/
def signatureToleranceSecs : Nat := 300

/-- The text of the errors about the form of the header. -/
def invalidHeader : String := "invalid Stripe-Signature header"

/-- The variables of the loop of `verify_signature`. -/
structure HeaderScan where
  timestamp : Option I64
  candidates : List (List Char)
deriving DecidableEq

/-- The body of the loop. -/
def readPart (s : HeaderScan) (part : List Char) : Except String HeaderScan :=
  match part.splitOn '=' with
  | [key, value] =>
      if !validKey key || value.isEmpty ||
          value.any fun c => isAsciiControl c || isAsciiWhitespace c then
        .error invalidHeader
      else if key = ['t'] then
        if s.timestamp.isSome then .error invalidHeader
        -- a value that is no number leaves the timestamp empty
        else .ok { s with timestamp := parseI64 value }
      else if key = ['v', '1'] then .ok { s with candidates := s.candidates ++ [value] }
      else .ok s
  | _ => .error invalidHeader

/-- What is signed. -/
def signedPayload (timestamp : I64) (payload : List UInt8) : List UInt8 :=
  utf8 (printI64 timestamp ++ ['.']) ++ payload

section Mac

variable (mac : List UInt8 → List UInt8 → List UInt8)

/-- `verify_signature`. -/
def verifySignature (payload : List UInt8) (signatureHeader : List Char) (secret : List UInt8)
    (now : I64) : Except String Unit := do
  let s ← (signatureHeader.splitOn ',').foldlM readPart { timestamp := none, candidates := [] }
  match s.timestamp with
  | none => .error "missing timestamp in Stripe-Signature header"
  | some timestamp =>
      if signatureToleranceSecs < absDiff now timestamp then
        .error "Stripe-Signature timestamp is outside the allowed tolerance"
      else if s.candidates.isEmpty then
        .error "missing v1 signature in Stripe-Signature header"
      else if s.candidates.any (verify mac secret (signedPayload timestamp payload)) then .ok ()
      else .error "no v1 signature matched the computed HMAC"

/-- `inbound::Error`. -/
inductive InboundError where
  | missingSignatureHeader
  | signature (problem : String)
  | invalidJson (problem : String)
deriving DecidableEq

/-- `verify_at`, by the values of the `stripe-signature` headers, where they are text, and the
reader of events. -/
def verifyAt {ε : Type} (readEvent : List UInt8 → Except String ε)
    (headers : List (Option (List Char))) (payload secret : List UInt8) (now : I64) :
    Except InboundError ε :=
  match headers with
  | [] => .error .missingSignatureHeader
  | _ :: _ :: _ => .error (.signature invalidHeader)
  | [none] => .error .missingSignatureHeader
  | [some signatureHeader] => do
      (verifySignature mac payload signatureHeader secret now).mapError .signature
      (readEvent payload).mapError .invalidJson

/-! ## The grammar -/

/-- A part of the header: a key and a value. -/
structure IsPart (part key value : List Char) : Prop where
  text : part = key ++ '=' :: value
  key_single : '=' ∉ key
  value_single : '=' ∉ value
  key_nonempty : key ≠ []
  key_chars : ∀ c ∈ key, c.isAlphanum = true ∨ c = '_' ∨ c = '-'
  value_nonempty : value ≠ []
  value_chars : ∀ c ∈ value, isAsciiControl c = false ∧ isAsciiWhitespace c = false

/-- Every part is a key and a value. -/
def InGrammar (header : List Char) : Prop :=
  ∀ part ∈ header.splitOn ',', ∃ key value, IsPart part key value

/-- The values of a key among parts. -/
def valuesIn (key : List Char) (parts : List (List Char)) : List (List Char) :=
  parts.filterMap fun part => part.dropPrefix? (key ++ ['='])

/-- The values of a key in the header. -/
def valuesOf (key header : List Char) : List (List Char) := valuesIn key (header.splitOn ',')

/-- The value is a time within the tolerance for which some candidate is the signature. -/
def Authentic (payload : List UInt8) (header : List Char) (secret : List UInt8) (now : I64)
    (value : List Char) : Prop :=
  ∃ timestamp, parseI64 value = some timestamp ∧ (now.val - timestamp.val).natAbs ≤ 300 ∧
    ∃ candidate ∈ valuesOf ['v', '1'] header,
      lower candidate = sign mac secret (signedPayload timestamp payload)

/-- The header signs the payload. -/
structure Signed (payload : List UInt8) (header : List Char) (secret : List UInt8) (now : I64) :
    Prop where
  grammar : InGrammar header
  timestamp : ∃ value, valuesOf ['t'] header = [value] ∧
    Authentic mac payload header secret now value

/-- Before the timestamp that is authentic the header has others, none of them a number. -/
structure Overwritten (payload : List UInt8) (header : List Char) (secret : List UInt8)
    (now : I64) : Prop where
  grammar : InGrammar header
  timestamps : ∃ earlier value, earlier ≠ [] ∧ valuesOf ['t'] header = earlier ++ [value] ∧
    (∀ v ∈ earlier, parseI64 v = none) ∧ Authentic mac payload header secret now value

end Mac

/-! ## One part -/

theorem validKey_iff {key : List Char} :
    validKey key = true ↔ key ≠ [] ∧ ∀ c ∈ key, c.isAlphanum = true ∨ c = '_' ∨ c = '-' := by
  simp [validKey, or_assoc]

theorem isPart_iff {part key value : List Char} :
    IsPart part key value ↔ part.splitOn '=' = [key, value] ∧ validKey key = true ∧
      value ≠ [] ∧ ∀ c ∈ value, isAsciiControl c = false ∧ isAsciiWhitespace c = false := by
  rw [Separated.splitOn_eq_pair_iff, validKey_iff]
  constructor
  · intro h
    exact ⟨⟨h.text, h.key_single, h.value_single⟩, ⟨h.key_nonempty, h.key_chars⟩,
      h.value_nonempty, h.value_chars⟩
  · rintro ⟨⟨htext, hkey, hvalue⟩, ⟨hne, hchars⟩, hvalues⟩
    exact ⟨htext, hkey, hvalue, hne, hchars, hvalues.1, hvalues.2⟩

/-- A part has one key. -/
theorem IsPart.dropPrefix {part key value : List Char} (h : IsPart part key value)
    {k : List Char} (hk : '=' ∉ k) :
    part.dropPrefix? (k ++ ['=']) = if key = k then some value else none := by
  have hsplit := Separated.splitOnce_append h.key_single value
  rw [← h.text] at hsplit
  split_ifs with heq
  · rw [Separated.dropPrefix_eq_some_iff, ← heq, h.text, List.append_assoc]
    rfl
  · rw [Option.eq_none_iff_forall_ne_some]
    intro rest hrest
    rw [Separated.dropPrefix_eq_some_iff, List.append_assoc] at hrest
    have hother := Separated.splitOnce_append hk rest
    rw [← List.singleton_append, ← hrest, hsplit] at hother
    exact heq (Prod.mk.inj (Option.some.inj hother)).1

theorem badPart_eq_false_iff {key value : List Char} :
    (!validKey key || value.isEmpty ||
        value.any fun c => isAsciiControl c || isAsciiWhitespace c) = false ↔
      validKey key = true ∧ value ≠ [] ∧
        ∀ c ∈ value, isAsciiControl c = false ∧ isAsciiWhitespace c = false := by
  simp [and_assoc]

/-- A part of the grammar is refused only for a second timestamp. -/
theorem readPart_of_isPart {part key value : List Char} (h : IsPart part key value)
    (s : HeaderScan) :
    readPart s part =
      if key = ['t'] ∧ s.timestamp ≠ none then .error invalidHeader
      else .ok
        { timestamp := if key = ['t'] then parseI64 value else s.timestamp
          candidates := s.candidates ++ if key = ['v', '1'] then [value] else [] } := by
  obtain ⟨hsplit, hgood⟩ := isPart_iff.mp h
  rw [readPart, hsplit]
  simp only [badPart_eq_false_iff.mpr hgood, Bool.false_eq_true, if_false]
  by_cases htime : key = ['t']
  · have hcandidate : key ≠ ['v', '1'] := by
      rw [htime]
      decide
    cases hs : s.timestamp with
    | none => simp [htime]
    | some t => simp [htime]
  · by_cases hcandidate : key = ['v', '1']
    · simp [hcandidate]
    · simp [htime, hcandidate]

theorem readPart_of_not_isPart {part : List Char} (h : ¬∃ key value, IsPart part key value)
    (s : HeaderScan) : readPart s part = .error invalidHeader := by
  rw [readPart]
  split
  · rename_i key value hsplit
    rw [if_pos]
    rw [← Bool.not_eq_false]
    intro hgood
    exact h ⟨key, value, isPart_iff.mpr ⟨hsplit, badPart_eq_false_iff.mp hgood⟩⟩
  · rfl

/-! ## The pass -/

theorem ok_bind {α β : Type} (x : α) (f : α → Except String β) : (Except.ok x >>= f) = f x := rfl

/-- What is left of timestamps, one after the other: none may follow one that is a number. -/
def keptTimestamp : Option I64 → List (List Char) → Option (Option I64)
  | timestamp, [] => some timestamp
  | none, value :: values => keptTimestamp (parseI64 value) values
  | some _, _ :: _ => none

theorem valuesIn_cons {part key value : List Char} (h : IsPart part key value)
    {k : List Char} (hk : '=' ∉ k) (parts : List (List Char)) :
    valuesIn k (part :: parts) =
      (if key = k then [value] else []) ++ valuesIn k parts := by
  rw [valuesIn, List.filterMap_cons, h.dropPrefix hk]
  split_ifs
  · rfl
  · rfl

/-- By induction on the parts: what the pass has seen of the two keys. -/
theorem foldlM_readPart {parts : List (List Char)} {s s' : HeaderScan} :
    parts.foldlM readPart s = .ok s' ↔
      (∀ part ∈ parts, ∃ key value, IsPart part key value) ∧
        keptTimestamp s.timestamp (valuesIn ['t'] parts) = some s'.timestamp ∧
        s'.candidates = s.candidates ++ valuesIn ['v', '1'] parts := by
  induction parts generalizing s with
  | nil =>
      obtain ⟨t, cs⟩ := s
      obtain ⟨t', cs'⟩ := s'
      simp [valuesIn, keptTimestamp, pure, Except.pure, eq_comm]
  | cons part parts ih =>
      rw [List.foldlM_cons, List.forall_mem_cons]
      by_cases hpart : ∃ key value, IsPart part key value
      · obtain ⟨key, value, hkey⟩ := hpart
        rw [readPart_of_isPart hkey, valuesIn_cons hkey (by decide),
          valuesIn_cons hkey (by decide)]
        have hgrammar : ∃ key value, IsPart part key value := ⟨key, value, hkey⟩
        by_cases htime : key = ['t']
        · have hcandidate : key ≠ ['v', '1'] := by
            rw [htime]
            decide
          rw [if_pos htime, if_pos htime, if_neg hcandidate]
          cases hs : s.timestamp with
          | some t =>
              rw [if_pos ⟨htime, by simp⟩]
              exact iff_of_false (fun h => by cases h) (fun h => by cases h.2.1)
          | none =>
              rw [if_neg (by simp), ok_bind, ih, and_iff_right hgrammar, List.append_nil]
              rfl
        · simp only [htime, false_and, if_false, ok_bind, ih, and_iff_right hgrammar,
            List.nil_append, List.append_assoc]
      · rw [readPart_of_not_isPart hpart]
        refine iff_of_false (fun h => by cases h) (fun h => hpart h.1.1)

/-- The last timestamp is kept when none before it is a number. -/
theorem keptTimestamp_eq_iff {values : List (List Char)} {timestamp : I64} :
    keptTimestamp none values = some (some timestamp) ↔
      ∃ earlier value, values = earlier ++ [value] ∧ (∀ v ∈ earlier, parseI64 v = none) ∧
        parseI64 value = some timestamp := by
  induction values with
  | nil =>
      refine iff_of_false (fun h => by cases h) ?_
      rintro ⟨earlier, value, hvalues, -⟩
      cases earlier <;> cases hvalues
  | cons v values ih =>
      rw [keptTimestamp]
      cases hv : parseI64 v with
      | none =>
          rw [ih]
          constructor
          · rintro ⟨earlier, value, rfl, hearlier, hvalue⟩
            exact ⟨v :: earlier, value, rfl, List.forall_mem_cons.mpr ⟨hv, hearlier⟩, hvalue⟩
          · rintro ⟨earlier, value, hvalues, hearlier, hvalue⟩
            cases earlier with
            | nil =>
                cases hvalues
                rw [hv] at hvalue
                cases hvalue
            | cons e earlier =>
                obtain ⟨rfl, rfl⟩ := List.cons.inj hvalues
                exact ⟨earlier, value, rfl, (List.forall_mem_cons.mp hearlier).2, hvalue⟩
      | some t =>
          cases values with
          | nil =>
              rw [keptTimestamp, Option.some.injEq, Option.some.injEq]
              constructor
              · rintro rfl
                exact ⟨[], v, rfl, fun _ h => absurd h List.not_mem_nil, hv⟩
              · rintro ⟨earlier, value, hvalues, -, hvalue⟩
                cases earlier with
                | nil =>
                    cases hvalues
                    exact Option.some.inj (hv.symm.trans hvalue)
                | cons e earlier => cases earlier <;> cases (List.cons.inj hvalues).2
          | cons w values =>
              refine iff_of_false (fun h => by cases h) ?_
              rintro ⟨earlier, value, hvalues, hearlier, -⟩
              cases earlier with
              | nil => cases (List.cons.inj hvalues).2
              | cons e earlier =>
                  have he := hearlier e List.mem_cons_self
                  rw [← (List.cons.inj hvalues).1, hv] at he
                  cases he

section Verified

variable {mac : List UInt8 → List UInt8 → List UInt8} {payload secret : List UInt8}
  {header : List Char} {now : I64}

/-- The checks after the pass. -/
theorem verdict_iff {timestamp : I64} {candidates : List (List Char)} :
    (if signatureToleranceSecs < absDiff now timestamp then
        .error "Stripe-Signature timestamp is outside the allowed tolerance"
      else if candidates.isEmpty then
        .error "missing v1 signature in Stripe-Signature header"
      else if candidates.any (verify mac secret (signedPayload timestamp payload)) then .ok ()
      else .error "no v1 signature matched the computed HMAC" : Except String Unit) = .ok () ↔
      (now.val - timestamp.val).natAbs ≤ 300 ∧
        ∃ candidate ∈ candidates,
          lower candidate = sign mac secret (signedPayload timestamp payload) := by
  rw [absDiff_eq, signatureToleranceSecs]
  split_ifs with hlate hempty hany
  · refine iff_of_false (fun h => by cases h) (fun h => ?_)
    have hle := h.1
    omega
  · refine iff_of_false (fun h => by cases h) ?_
    rintro ⟨-, candidate, hcandidate, -⟩
    rw [List.isEmpty_iff.mp hempty] at hcandidate
    cases hcandidate
  · obtain ⟨candidate, hcandidate, hverify⟩ := List.any_eq_true.mp hany
    exact iff_of_true rfl ⟨by omega, candidate, hcandidate, verify_iff.mp hverify⟩
  · refine iff_of_false (fun h => by cases h) ?_
    rintro ⟨-, candidate, hcandidate, hsign⟩
    exact hany (List.any_eq_true.mpr ⟨candidate, hcandidate, verify_iff.mpr hsign⟩)

/-- **When a header is accepted**: all is in the grammar, and the last timestamp is authentic and
the only one that is a number. -/
theorem verifySignature_eq_ok_iff :
    verifySignature mac payload header secret now = .ok () ↔
      InGrammar header ∧ ∃ earlier value, valuesOf ['t'] header = earlier ++ [value] ∧
        (∀ v ∈ earlier, parseI64 v = none) ∧ Authentic mac payload header secret now value := by
  rw [verifySignature]
  cases hscan : (header.splitOn ',').foldlM readPart { timestamp := none, candidates := [] } with
  | error e =>
      refine iff_of_false (fun h => by cases h) ?_
      rintro ⟨hgrammar, earlier, value, hvalues, hearlier, timestamp, hparse, -⟩
      have hkept := keptTimestamp_eq_iff.mpr ⟨earlier, value, hvalues, hearlier, hparse⟩
      have hok : (header.splitOn ',').foldlM readPart { timestamp := none, candidates := [] } =
          .ok { timestamp := some timestamp, candidates := valuesOf ['v', '1'] header } :=
        foldlM_readPart.mpr ⟨hgrammar, hkept, rfl⟩
      rw [hscan] at hok
      cases hok
  | ok s =>
      obtain ⟨hgrammar, hkept, hcandidates⟩ := foldlM_readPart.mp hscan
      have hgrammar : InGrammar header := hgrammar
      have hkept : keptTimestamp none (valuesOf ['t'] header) = some s.timestamp := hkept
      have hcandidates : s.candidates = valuesOf ['v', '1'] header := hcandidates
      rw [ok_bind, and_iff_right hgrammar, hcandidates]
      cases htimestamp : s.timestamp with
      | none =>
          refine iff_of_false (fun h => by cases h) ?_
          rintro ⟨earlier, value, hvalues, hearlier, timestamp, hparse, -⟩
          have hsome := keptTimestamp_eq_iff.mpr ⟨earlier, value, hvalues, hearlier, hparse⟩
          rw [hkept, htimestamp] at hsome
          cases hsome
      | some timestamp =>
          rw [htimestamp] at hkept
          refine verdict_iff.trans ?_
          constructor
          · rintro ⟨hle, hcandidate⟩
            obtain ⟨earlier, value, hvalues, hearlier, hparse⟩ := keptTimestamp_eq_iff.mp hkept
            exact ⟨earlier, value, hvalues, hearlier, timestamp, hparse, hle, hcandidate⟩
          · rintro ⟨earlier, value, hvalues, hearlier, t, hparse, hauthentic⟩
            have hsome := keptTimestamp_eq_iff.mpr ⟨earlier, value, hvalues, hearlier, hparse⟩
            rw [hkept] at hsome
            cases hsome
            exact hauthentic

/-- For a header that is accepted by mistake there are more timestamps than one. -/
theorem Overwritten.not_signed (h : Overwritten mac payload header secret now) :
    ¬Signed mac payload header secret now := by
  intro hsigned
  obtain ⟨earlier, value, hne, hvalues, -⟩ := h.timestamps
  obtain ⟨v, hv, -⟩ := hsigned.timestamp
  rw [hv] at hvalues
  have hlength := congrArg List.length hvalues
  rw [List.length_append, List.length_singleton, List.length_singleton] at hlength
  exact hne (List.length_eq_zero_iff.mp (by omega))

theorem verifySignature_eq_ok_iff_or :
    verifySignature mac payload header secret now = .ok () ↔
      Signed mac payload header secret now ∨ Overwritten mac payload header secret now := by
  rw [verifySignature_eq_ok_iff]
  constructor
  · rintro ⟨hgrammar, earlier, value, hvalues, hearlier, hauthentic⟩
    by_cases hne : earlier = []
    · rw [hne, List.nil_append] at hvalues
      exact Or.inl ⟨hgrammar, value, hvalues, hauthentic⟩
    · exact Or.inr ⟨hgrammar, earlier, value, hne, hvalues, hearlier, hauthentic⟩
  · rintro (⟨hgrammar, value, hvalues, hauthentic⟩ |
      ⟨hgrammar, earlier, value, -, hvalues, hearlier, hauthentic⟩)
    · exact ⟨hgrammar, [], value, hvalues, fun _ h => absurd h List.not_mem_nil, hauthentic⟩
    · exact ⟨hgrammar, earlier, value, hvalues, hearlier, hauthentic⟩

end Verified

/-- **A header is accepted exactly when it signs the payload**, unless timestamps that are no
numbers stand before the authentic one; and no difference of times overflows. -/
theorem verify_iff_signed (mac : List UInt8 → List UInt8 → List UInt8) (payload : List UInt8)
    (header : List Char) (secret : List UInt8) (now : I64) :
    ((verifySignature mac payload header secret now = .ok () ↔
        Signed mac payload header secret now) ↔
      ¬Overwritten mac payload header secret now) ∧
    ∀ timestamp, absDiff now timestamp = (now.val - timestamp.val).natAbs := by
  refine ⟨?_, absDiff_eq now⟩
  rw [verifySignature_eq_ok_iff_or]
  constructor
  · intro h hover
    exact hover.not_signed (h.mp (Or.inr hover))
  · intro hover
    exact or_iff_left hover

/-- A timestamp that is no number, and the one that counts. -/
theorem not_verify_iff_signed :
    ¬∀ (mac : List UInt8 → List UInt8 → List UInt8) (payload : List UInt8) (header : List Char)
      (secret : List UInt8) (now : I64),
      verifySignature mac payload header secret now = .ok () ↔
        Signed mac payload header secret now := by
  intro h
  have hheader := h (fun _ _ => [0]) [] "t=x,t=7,v1=00".toList [] ⟨9, by decide⟩
  have hsigned := hheader.mp (by decide)
  obtain ⟨value, hvalues, -⟩ := hsigned.timestamp
  have htwo : valuesOf ['t'] "t=x,t=7,v1=00".toList = [['x'], ['7']] := by decide
  rw [htwo] at hvalues
  cases hvalues

/-! ## The events that are let in -/

/-- An event comes from the one header that is text, which has been verified, and from the payload
it is about. -/
theorem verifyAt_eq_ok_iff {ε : Type} {mac : List UInt8 → List UInt8 → List UInt8}
    {readEvent : List UInt8 → Except String ε} {headers : List (Option (List Char))}
    {payload secret : List UInt8} {now : I64} {event : ε} :
    verifyAt mac readEvent headers payload secret now = .ok event ↔
      ∃ header, headers = [some header] ∧
        verifySignature mac payload header secret now = .ok () ∧ readEvent payload = .ok event := by
  match headers with
  | [] => simp [verifyAt]
  | [none] => simp [verifyAt]
  | _ :: _ :: _ => simp [verifyAt]
  | [some header] =>
      rw [verifyAt]
      cases hverify : verifySignature mac payload header secret now with
      | error problem =>
          refine iff_of_false (fun h => by cases h) ?_
          rintro ⟨other, hother, hok, -⟩
          cases hother
          rw [hverify] at hok
          cases hok
      | ok u =>
          cases hread : readEvent payload with
          | error problem =>
              refine iff_of_false (fun h => by cases h) ?_
              rintro ⟨other, -, -, hok⟩
              cases hok
          | ok e =>
              constructor
              · intro h
                cases h
                exact ⟨header, rfl, hverify, rfl⟩
              · rintro ⟨other, -, -, hok⟩
                cases hok
                rfl

end Yorishiro.Billing
