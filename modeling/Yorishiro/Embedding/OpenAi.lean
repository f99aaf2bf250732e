import Mathlib.Data.List.Perm.Basic
import Mathlib.Data.List.Sort
import Yorishiro.Embedding.Vector
import Yorishiro.Http.Signatures
import Yorishiro.Lib.Lines

/-!
# The OpenAI-compatible provider

A batch of texts is one request, and the vectors of its answer say themselves which text they are
for. `embed_batch` puts them in order, and takes no answer that leaves a text without its vector,
gives it two, or names a text that is not there (`embedBatch_eq_ok_iff`).
-/

set_option autoImplicit false

namespace Yorishiro.Embedding.OpenAi

open Yorishiro.Lib

/-- `OpenAiCompatibleConfig`. -/
structure OpenAiCompatibleConfig where
  baseUrl : String
  apiKey : String
  model : String
  dimensions : Nat
  sendDimensionsParam : Bool
deriving DecidableEq, Repr

/-- `with_client`: the provider keeps the URL without its trailing slashes. -/
def OpenAiCompatibleConfig.provider (config : OpenAiCompatibleConfig) : OpenAiCompatibleConfig :=
  { config with
    baseUrl := String.ofList (config.baseUrl.toList.rdropWhile fun c => decide (c = '/')) }

/-- The request of a batch: its URL and bearer token, and `EmbeddingsRequest`. -/
structure EmbeddingsRequest where
  url : String
  bearer : String
  model : String
  input : List String
  dimensions : Option Nat
deriving DecidableEq, Repr

/-- `EmbeddingDatum`. -/
structure EmbeddingDatum where
  index : Nat
  embedding : Vector32
deriving DecidableEq

/-- What reading the body of an answer gives. -/
inductive Body where
  | broken (error : String)
  | malformed (error : String)
  | parsed (data : List EmbeddingDatum)

/-- What a request gives: an error of the client, or the status of an answer, the text of its
`Retry-After` header, and its body. -/
inductive Response where
  | failed (error : String)
  | answered (status : Nat) (retryAfter : Option String) (body : Body)

/-- The errors of a provider, as far as it tells them apart. -/
inductive ProviderError where
  | unreachable (url message : String)
  | busy (message : String) (retryAfter : Nat)
  | internal (message : String)
deriving DecidableEq, Repr

/-! ## Errors of the provider -/

/-- `redact`. -/
def redact (message secret : String) : String :=
  if secret.isEmpty then message else message.replace secret "[redacted]"

/-- `DEFAULT_RETRY_AFTER`, in seconds. -/
def defaultRetryAfter : Nat := 5

/-- `MAX_RETRY_AFTER_SECONDS`. -/
def maxRetryAfterSeconds : Nat := 60

/-- `trim().parse::<u64>()` of a header. -/
def parseU64 (text : String) : Option Nat :=
  let digits := Lines.trim (fun c => decide (c = ' ') || decide (c = '\t')) text.toList
  let digits := match digits with
    | '+' :: digits => digits
    | digits => digits
  (Http.parseDigits digits).filter fun n => decide (n < 2 ^ 64)

/-- `retry_after`: how long to wait, when the status is a reason to retry. -/
def retryAfter (status : Nat) (header : Option String) : Option Nat :=
  if status ≠ 429 ∧ status ≠ 503 then none
  else some (((header.bind parseU64).map fun seconds => min seconds maxRetryAfterSeconds).getD
    defaultRetryAfter)

/-- `is_success`. -/
def isSuccess (status : Nat) : Bool := decide (200 ≤ status) && decide (status < 300)

/-! ## A batch -/

/-- The vectors of an answer in the order of their indices, when these are `0`, `1` and so on.
The sort need not be stable: equal indices fail the check. -/
def orderedVectors (data : List EmbeddingDatum) : Except ProviderError (List Vector32) :=
  let sorted := data.mergeSort fun a b => decide (a.index ≤ b.index)
  if sorted.zipIdx.any fun e => decide (e.1.index ≠ e.2) then
    .error (.internal "embedding provider returned invalid vector indices")
  else .ok (sorted.map EmbeddingDatum.embedding)

/-- The checks of `embed_batch` on the body of a successful answer. -/
def checkVectors (config : OpenAiCompatibleConfig) (texts : List String) (vectors : List Vector32) :
    Except ProviderError (List Vector32) :=
  if vectors.length ≠ texts.length then
    .error (.internal
      s!"embedding provider returned {vectors.length} vectors for {texts.length} inputs")
  else
    match vectors.find? fun vector => decide (vector.length ≠ config.dimensions) with
    | some vector =>
        .error (.internal ("embedding provider returned a vector of length " ++
          s!"{vector.length} but expected {config.dimensions}"))
    | none => .ok vectors

/-- The request that `embed_batch` sends. -/
def request (config : OpenAiCompatibleConfig) (texts : List String) : EmbeddingsRequest where
  url := config.baseUrl ++ "/embeddings"
  bearer := config.apiKey
  model := config.model
  input := texts
  dimensions := if config.sendDimensionsParam then some config.dimensions else none

/-- `embed_batch`; `answer` is what comes of a request, and `status` how one is printed. -/
def embedBatch (status : Nat → String) (answer : EmbeddingsRequest → Response)
    (config : OpenAiCompatibleConfig) (texts : List String) :
    Except ProviderError (List Vector32) :=
  if texts.isEmpty then .ok []
  else
    match answer (request config.provider texts) with
    | .failed error =>
        .error (.unreachable config.provider.baseUrl (redact error config.apiKey))
    | .answered code header body =>
        if isSuccess code then
          match body with
          | .broken error => .error (.internal (redact error config.apiKey))
          | .malformed error => .error (.internal error)
          | .parsed data => orderedVectors data >>= checkVectors config texts
        else
          match retryAfter code header with
          | some seconds =>
              .error (.busy ("embedding provider returned HTTP " ++ status code) seconds)
          | none => .error (.internal ("embedding provider returned HTTP " ++ status code))

/-- `embed`. -/
def embed (status : Nat → String) (answer : EmbeddingsRequest → Response)
    (config : OpenAiCompatibleConfig) (text : String) : Except ProviderError Vector32 := do
  match ← embedBatch status answer config [text] with
  | [] => .error (.internal "embedding provider returned no vectors for a single input")
  | vector :: _ => .ok vector

/-! ## Waiting -/

/-- A wait is never longer than a minute, whatever the provider asks for. -/
theorem retryAfter_le {status seconds : Nat} {header : Option String}
    (h : retryAfter status header = some seconds) :
    (status = 429 ∨ status = 503) ∧ seconds ≤ maxRetryAfterSeconds := by
  unfold retryAfter at h
  split_ifs at h with hstatus
  refine ⟨by omega, ?_⟩
  obtain rfl := Option.some.inj h
  cases header.bind parseU64 with
  | none => decide
  | some seconds => exact Nat.min_le_right _ _

/-! ## Order -/

/-- The data that an answer in order has for the vectors, from the index `n` on. -/
def numbered (vectors : List Vector32) (n : Nat) : List EmbeddingDatum :=
  (vectors.zipIdx n).map fun e => ⟨e.2, e.1⟩

theorem numbered_cons (vector : Vector32) (vectors : List Vector32) (n : Nat) :
    numbered (vector :: vectors) n = ⟨n, vector⟩ :: numbered vectors (n + 1) := rfl

theorem embedding_numbered (vectors : List Vector32) (n : Nat) :
    (numbered vectors n).map EmbeddingDatum.embedding = vectors := by
  induction vectors generalizing n with
  | nil => rfl
  | cons vector vectors ih => rw [numbered_cons, List.map_cons, ih]

theorem le_index_of_mem_numbered {vectors : List Vector32} {n : Nat} {datum : EmbeddingDatum}
    (h : datum ∈ numbered vectors n) : n ≤ datum.index := by
  induction vectors generalizing n with
  | nil => cases h
  | cons vector vectors ih =>
      rw [numbered_cons] at h
      rcases List.mem_cons.mp h with rfl | h
      · exact Nat.le_refl n
      · exact Nat.le_of_succ_le (ih h)

theorem pairwise_numbered (vectors : List Vector32) (n : Nat) :
    (numbered vectors n).Pairwise fun a b => a.index < b.index := by
  induction vectors generalizing n with
  | nil => exact List.Pairwise.nil
  | cons vector vectors ih =>
      rw [numbered_cons]
      exact List.Pairwise.cons (fun datum h => le_index_of_mem_numbered h) (ih (n + 1))

theorem nodup_numbered (vectors : List Vector32) (n : Nat) :
    ((numbered vectors n).map EmbeddingDatum.index).Nodup :=
  List.pairwise_map.mpr ((pairwise_numbered vectors n).imp fun hlt => Nat.ne_of_lt hlt)

/-- Data whose indices are their positions. -/
theorem eq_numbered {data : List EmbeddingDatum} {n : Nat}
    (h : (data.zipIdx n).any (fun e => decide (e.1.index ≠ e.2)) = false) :
    data = numbered (data.map EmbeddingDatum.embedding) n := by
  induction data generalizing n with
  | nil => rfl
  | cons datum data ih =>
      simp only [List.zipIdx_cons, List.any_cons, Bool.or_eq_false_iff, decide_eq_false_iff_not,
        not_not] at h
      obtain ⟨hindex, hrest⟩ := h
      rw [List.map_cons, numbered_cons, ← ih hrest, ← hindex]

theorem zipIdx_numbered (vectors : List Vector32) (n : Nat) :
    ((numbered vectors n).zipIdx n).any (fun e => decide (e.1.index ≠ e.2)) = false := by
  induction vectors generalizing n with
  | nil => rfl
  | cons vector vectors ih =>
      rw [numbered_cons, List.zipIdx_cons, List.any_cons, ih]
      simp

/-- Sorting finds the order of numbered data. -/
theorem mergeSort_eq_numbered {data : List EmbeddingDatum} {vectors : List Vector32}
    (h : data.Perm (numbered vectors 0)) :
    data.mergeSort (fun a b => decide (a.index ≤ b.index)) = numbered vectors 0 := by
  have hsorted : (data.mergeSort fun a b => decide (a.index ≤ b.index)).Pairwise
      fun a b => decide (a.index ≤ b.index) = true := by
    apply List.pairwise_mergeSort
    · intro a b c hab hbc
      exact decide_eq_true (Nat.le_trans (of_decide_eq_true hab) (of_decide_eq_true hbc))
    · intro a b
      simpa using Nat.le_total a.index b.index
  have hperm : (data.mergeSort fun a b => decide (a.index ≤ b.index)).Perm (numbered vectors 0) :=
    (List.mergeSort_perm data _).trans h
  have hnumbered : (numbered vectors 0).Pairwise
      fun a b => decide (a.index ≤ b.index) = true :=
    (pairwise_numbered vectors 0).imp fun hlt => decide_eq_true (Nat.le_of_lt hlt)
  refine List.Perm.eq_of_pairwise ?_ hsorted hnumbered hperm
  -- two data with one index are the same, for the numbered ones increase strictly
  intro a b ha hb hab hba
  have ha' := hperm.mem_iff.mp ha
  have heq : a.index = b.index :=
    Nat.le_antisymm (of_decide_eq_true hab) (of_decide_eq_true hba)
  exact List.inj_on_of_nodup_map (nodup_numbered vectors 0) ha' hb heq

/-- **Order.** An answer is taken exactly when each text has one vector in it. -/
theorem orderedVectors_eq_ok_iff {data : List EmbeddingDatum} {vectors : List Vector32} :
    orderedVectors data = .ok vectors ↔ data.Perm (numbered vectors 0) := by
  constructor
  · intro h
    unfold orderedVectors at h
    dsimp only at h
    split_ifs at h with hindices
    cases h
    rw [← eq_numbered (Bool.eq_false_iff.mpr hindices)]
    exact (List.mergeSort_perm data _).symm
  · intro h
    have hsort := mergeSort_eq_numbered h
    unfold orderedVectors
    dsimp only
    rw [hsort, if_neg, embedding_numbered]
    rw [zipIdx_numbered]
    decide

theorem checkVectors_eq_ok_iff {config : OpenAiCompatibleConfig} {texts : List String}
    {vectors vectors' : List Vector32} :
    checkVectors config texts vectors = .ok vectors' ↔
      vectors' = vectors ∧ vectors.length = texts.length ∧
        ∀ vector ∈ vectors, vector.length = config.dimensions := by
  unfold checkVectors
  constructor
  · intro h
    split_ifs at h with hlength
    split at h
    · cases h
    · rename_i hnone
      cases h
      refine ⟨rfl, not_not.mp hlength, fun vector hvector => ?_⟩
      simpa using List.find?_eq_none.mp hnone vector hvector
  · rintro ⟨rfl, hlength, hwidth⟩
    rw [if_neg (not_not.mpr hlength)]
    have hnone : vectors'.find? (fun vector => decide (vector.length ≠ config.dimensions)) = none :=
      List.find?_eq_none.mpr fun vector hvector => by simpa using hwidth vector hvector
    rw [hnone]

/-- A batch gives vectors exactly when the answer has one for each text, of the width that is
configured, in whatever order: the `i`-th is the one that says it is for the text `i`. -/
theorem embedBatch_eq_ok_iff (status : Nat → String) (answer : EmbeddingsRequest → Response)
    (config : OpenAiCompatibleConfig) (texts : List String) (vectors : List Vector32) :
    embedBatch status answer config texts = .ok vectors ↔
      vectors.length = texts.length ∧ (∀ vector ∈ vectors, vector.length = config.dimensions) ∧
        (texts ≠ [] → ∃ code header data, isSuccess code = true ∧
          answer (request config.provider texts) = .answered code header (.parsed data) ∧
          data.Perm (numbered vectors 0)) := by
  unfold embedBatch
  constructor
  · intro h
    split_ifs at h with hempty
    · cases h
      obtain rfl := List.isEmpty_iff.mp hempty
      exact ⟨rfl, fun vector hvector => (by cases hvector), fun hne => absurd rfl hne⟩
    · split at h
      · cases h
      · rename_i code header body hanswer
        split_ifs at h with hsuccess
        · split at h
          · cases h
          · cases h
          · rename_i data
            obtain ⟨ordered, hordered, hcheck⟩ := Except.bind_eq_ok.mp h
            obtain ⟨rfl, hlength, hwidth⟩ := checkVectors_eq_ok_iff.mp hcheck
            exact ⟨hlength, hwidth, fun _ =>
              ⟨code, header, data, hsuccess, hanswer, orderedVectors_eq_ok_iff.mp hordered⟩⟩
        · split at h
          · cases h
          · cases h
  · rintro ⟨hlength, hwidth, hdata⟩
    by_cases hempty : texts = []
    · subst hempty
      rw [List.eq_nil_of_length_eq_zero hlength]
      rfl
    · obtain ⟨code, header, data, hsuccess, hanswer, hperm⟩ := hdata hempty
      rw [if_neg (fun h => hempty (List.isEmpty_iff.mp h)), hanswer]
      dsimp only
      rw [if_pos hsuccess, orderedVectors_eq_ok_iff.mpr hperm]
      exact checkVectors_eq_ok_iff.mpr ⟨rfl, hlength, hwidth⟩

end Yorishiro.Embedding.OpenAi
