import Yorishiro.Http.Signatures
import Yorishiro.Lib.Separated

/-!
# The state of a sign-in

`state_token` packs the time of issue, the hash of the browser's CSRF cookie and the PKCE verifier
into a signed text. The keyed hash and the plain one are parameters, and so are the random strings.

What verifies is a payload of three parts with its signature, in either case of the digits, and of an
age that the window allows (`verifyAt_eq_some_iff`). The subtractions saturate, which the window
does not see.
-/

set_option autoImplicit false

namespace Yorishiro.Http

open Yorishiro.Lib

/-- What `random_string` returns: letters and digits. -/
@[ext]
structure RandomString (n : Nat) where
  chars : List Char
  length_eq : chars.length = n
  alphanumeric : ∀ c ∈ chars, c.isAlphanum = true

theorem isAlphanum_of_mem_replicate {n : Nat} {c : Char} (h : c ∈ List.replicate n 'a') :
    c.isAlphanum = true := by
  rw [List.eq_of_mem_replicate h]
  rfl

/-- The letter `a` so many times. -/
instance (n : Nat) : Inhabited (RandomString n) :=
  ⟨List.replicate n 'a', List.length_replicate, fun _ => isAlphanum_of_mem_replicate⟩

/-- `STATE_TTL_SECS`. -/
def stateTtlSecs : Int := 600

/-- Parts with dots between them. -/
def dotted (first : List Char) (rest : List Char) : List Char := first ++ '.' :: rest

namespace StateToken

/-! ## The functions -/

/-- What `IssuedState` has for the two redirects. -/
structure IssuedState where
  state : List Char
  csrfCookieValue : List Char

/-- `VerifiedState`. -/
structure VerifiedState where
  pkceVerifier : List Char
  csrfHash : List Char
deriving DecidableEq

section Functions

variable (mac : List UInt8 → List UInt8 → List UInt8) (sha256 : List UInt8 → List UInt8)

/-- `hash_csrf_cookie`. -/
def hashCsrfCookie (cookieValue : List Char) : List Char := hex (sha256 (utf8 cookieValue))

/-- The payload of a state. -/
def payload (issuedAt csrfHash pkceVerifier : List Char) : List Char :=
  dotted issuedAt (dotted csrfHash pkceVerifier)

/-- `issue_at`, with what it draws. -/
def issueAt (signingKey : List UInt8) (issuedAt : I64) (csrfCookieValue : RandomString 22)
    (pkceVerifier : RandomString 43) : IssuedState :=
  let csrfHash := hashCsrfCookie sha256 csrfCookieValue.chars
  let payload := payload (printI64 issuedAt) csrfHash pkceVerifier.chars
  let signature := sign mac signingKey (utf8 payload)
  { state := dotted payload signature, csrfCookieValue := csrfCookieValue.chars }

/-- `verify_at`. -/
def verifyAt (signingKey : List UInt8) (state : List Char) (now : I64) : Option VerifiedState :=
  match Separated.splitn '.' 4 state with
  | [issuedAtStr, csrfHash, pkceVerifier, signature] =>
      let payload := payload issuedAtStr csrfHash pkceVerifier
      if !verify mac signingKey (utf8 payload) signature then none
      else do
        let issuedAt ← parseI64 issuedAtStr
        let outsidePastWindow :=
          decide (issuedAt.val ≤ now.val) && decide (stateTtlSecs < saturatingSub now issuedAt)
        let outsideFutureWindow :=
          decide (now.val < issuedAt.val) && decide (5 < saturatingSub issuedAt now)
        if outsidePastWindow || outsideFutureWindow then none
        else some { pkceVerifier := pkceVerifier, csrfHash := csrfHash }
  | _ => none

end Functions

end StateToken

/-! ## Dots -/

theorem dot_notMem_of_isAlphanum {text : List Char} (h : ∀ c ∈ text, c.isAlphanum = true) :
    '.' ∉ text := by
  intro hmem
  exact absurd (h '.' hmem) (by decide)

theorem RandomString.dot_notMem {n : Nat} (r : RandomString n) : '.' ∉ r.chars :=
  dot_notMem_of_isAlphanum r.alphanumeric

theorem dot_notMem_hex (bytes : List UInt8) : '.' ∉ hex bytes := by
  intro hmem
  obtain ⟨byte, -, hdigit⟩ := List.mem_flatMap.mp hmem
  obtain ⟨hhigh, hlow⟩ := half_lt byte
  rcases List.mem_cons.mp hdigit with heq | hdigit
  · have hvalue := Uuid.hexValue_digitChar _ hhigh
    rw [← heq] at hvalue
    cases hvalue
  · have hvalue := Uuid.hexValue_digitChar _ hlow
    rw [← List.mem_singleton.mp hdigit] at hvalue
    cases hvalue

theorem dot_notMem_of_lower {text : List Char} {bytes : List UInt8}
    (h : lower text = hex bytes) : '.' ∉ text := by
  intro hmem
  have hlower : '.'.toLower ∈ lower text := List.mem_map_of_mem hmem
  rw [h] at hlower
  exact dot_notMem_hex bytes hlower

theorem dot_notMem_printI64 (x : I64) : '.' ∉ printI64 x := by
  intro hmem
  rcases digit_of_mem_printI64 hmem with h | h
  · cases h
  · cases h

/-- Parts at the first dot. -/
theorem dotted_inj {a b x y : List Char} (ha : '.' ∉ a) (hb : '.' ∉ b) :
    dotted a x = dotted b y ↔ a = b ∧ x = y := by
  constructor
  · intro h
    have hsplit := Separated.splitOnce_append ha x
    rw [← dotted, h, dotted, Separated.splitOnce_append hb y] at hsplit
    cases hsplit
    exact ⟨rfl, rfl⟩
  · rintro ⟨rfl, rfl⟩
    rfl

theorem dotted_assoc (a b c : List Char) : dotted (dotted a b) c = dotted a (dotted b c) := by
  rw [dotted, dotted, dotted, dotted, List.append_assoc]
  rfl

theorem count_dotted (a b : List Char) :
    (dotted a b).count '.' = a.count '.' + b.count '.' + 1 := by
  rw [dotted, List.count_append, List.count_cons_self, Nat.add_assoc]

/-- Four parts, the last with what is left. -/
theorem splitn_four_iff {text a b c d : List Char} :
    Separated.splitn '.' 4 text = [a, b, c, d] ↔
      text = dotted a (dotted b (dotted c d)) ∧ '.' ∉ a ∧ '.' ∉ b ∧ '.' ∉ c := by
  rw [Separated.splitn_eq_cons_iff (by simp)]
  constructor
  · rintro ⟨_, ha, rfl, hafter⟩
    obtain ⟨_, hb, rfl, hafter'⟩ := (Separated.splitn_eq_cons_iff (by simp)).mp hafter
    obtain ⟨_, hc, rfl, hlast⟩ := (Separated.splitn_eq_cons_iff (by simp)).mp hafter'
    cases hlast
    exact ⟨rfl, ha, hb, hc⟩
  · rintro ⟨rfl, ha, hb, hc⟩
    refine ⟨_, ha, rfl, (Separated.splitn_eq_cons_iff (by simp)).mpr ⟨_, hb, rfl, ?_⟩⟩
    exact (Separated.splitn_eq_cons_iff (by simp)).mpr ⟨_, hc, rfl, rfl⟩

namespace StateToken

variable {mac : List UInt8 → List UInt8 → List UInt8} {sha256 : List UInt8 → List UInt8}
  {signingKey : List UInt8}

/-! ## What verifies -/

/-- The age is one that the window allows: subtractions that saturate are outside it anyway. -/
theorem window_iff (issuedAt now : I64) :
    (decide (issuedAt.val ≤ now.val) && decide (stateTtlSecs < saturatingSub now issuedAt) ||
        decide (now.val < issuedAt.val) && decide (5 < saturatingSub issuedAt now)) = false ↔
      -5 ≤ now.val - issuedAt.val ∧ now.val - issuedAt.val ≤ 600 := by
  rw [Bool.or_eq_false_iff, Bool.and_eq_false_iff, Bool.and_eq_false_iff]
  simp only [decide_eq_false_iff_not]
  rw [saturatingSub, saturatingSub, stateTtlSecs]
  omega

theorem verifyAt_eq_some_iff {state : List Char} {now : I64} {v : VerifiedState} :
    verifyAt mac signingKey state now = some v ↔
      ∃ issuedAtStr signature issuedAt,
        '.' ∉ issuedAtStr ∧ '.' ∉ v.csrfHash ∧ '.' ∉ v.pkceVerifier ∧
        state = dotted (payload issuedAtStr v.csrfHash v.pkceVerifier) signature ∧
        lower signature =
          sign mac signingKey (utf8 (payload issuedAtStr v.csrfHash v.pkceVerifier)) ∧
        parseI64 issuedAtStr = some issuedAt ∧
        -5 ≤ now.val - issuedAt.val ∧ now.val - issuedAt.val ≤ 600 := by
  rw [verifyAt]
  constructor
  · intro h
    split at h
    · rename_i issuedAtStr csrfHash pkceVerifier signature hparts
      obtain ⟨hstate, ha, hb, hc⟩ := splitn_four_iff.mp hparts
      dsimp only at h
      split_ifs at h with hinvalid
      obtain ⟨issuedAt, hissued, h⟩ := Option.bind_eq_some_iff.mp h
      split_ifs at h with hwindow
      cases h
      have hverify : verify mac signingKey (utf8 (payload issuedAtStr csrfHash pkceVerifier))
          signature = true := by simpa using hinvalid
      refine ⟨issuedAtStr, signature, issuedAt, ha, hb, hc, ?_, verify_iff.mp hverify, hissued,
        (window_iff issuedAt now).mp (by simpa using hwindow)⟩
      rw [hstate, payload, dotted_assoc, dotted_assoc]
    · cases h
  · rintro ⟨issuedAtStr, signature, issuedAt, ha, hb, hc, rfl, hsign, hissued, hwindow⟩
    have hparts : Separated.splitn '.' 4
        (dotted (payload issuedAtStr v.csrfHash v.pkceVerifier) signature) =
          [issuedAtStr, v.csrfHash, v.pkceVerifier, signature] := by
      rw [splitn_four_iff, payload, dotted_assoc, dotted_assoc]
      exact ⟨rfl, ha, hb, hc⟩
    rw [hparts]
    simp only [verify_iff.mpr hsign, Bool.not_true, Bool.false_eq_true, if_false, hissued,
      Option.bind_eq_bind, Option.bind_some, (window_iff issuedAt now).mpr hwindow]

/-- **An issued state verifies within its window**, and gives back what was put into it. -/
theorem verifyAt_issueAt (issuedAt now : I64) (csrfCookieValue : RandomString 22)
    (pkceVerifier : RandomString 43) :
    verifyAt mac signingKey
        (issueAt mac sha256 signingKey issuedAt csrfCookieValue pkceVerifier).state now =
      if -5 ≤ now.val - issuedAt.val ∧ now.val - issuedAt.val ≤ 600 then
        some
          { pkceVerifier := pkceVerifier.chars
            csrfHash := hashCsrfCookie sha256 csrfCookieValue.chars }
      else none := by
  have ha := dot_notMem_printI64 issuedAt
  have hb : '.' ∉ hashCsrfCookie sha256 csrfCookieValue.chars := dot_notMem_hex _
  split_ifs with hwindow
  · exact verifyAt_eq_some_iff.mpr ⟨printI64 issuedAt, _, issuedAt, ha, hb,
      pkceVerifier.dot_notMem, rfl, lower_hex _, parseI64_printI64 issuedAt, hwindow⟩
  · rw [Option.eq_none_iff_forall_ne_some]
    intro v hv
    obtain ⟨issuedAtStr, signature, t, ha', -, -, hstate, -, hissued, hallowed⟩ :=
      verifyAt_eq_some_iff.mp hv
    simp only [issueAt, payload, dotted_assoc] at hstate
    rw [dotted_inj ha ha'] at hstate
    rw [← hstate.1, parseI64_printI64] at hissued
    cases hissued
    exact hwindow hallowed

end StateToken

end Yorishiro.Http
