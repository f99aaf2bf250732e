import Yorishiro.Embedding.OpenAi
import Yorishiro.Lib.Json

/-!
# Asking a model for values

`propose_fields` asks a chat model for the fields that an entity is missing, and keeps of its answer
what was asked for. What the model is, and what it says, is a parameter: nothing is assumed of it.
-/

set_option autoImplicit false

namespace Yorishiro.Inference

open Yorishiro.Lib Yorishiro.Embedding.OpenAi

/-- `InferenceConfig`. -/
structure InferenceConfig where
  baseUrl : String
  model : String
  apiKey : String
deriving DecidableEq, Repr

/-- `InferenceClient::with_client`: the client keeps the URL without its trailing slashes. -/
def InferenceConfig.client (config : InferenceConfig) : InferenceConfig :=
  { config with
    baseUrl := String.ofList (config.baseUrl.toList.rdropWhile fun c => decide (c = '/')) }

/-- The request: its URL and bearer token, and the model and the single user message of
`ChatRequest`. -/
structure ChatRequest where
  url : String
  bearer : String
  model : String
  content : String
deriving DecidableEq, Repr

/-- What reading the body of an answer gives; of `ChatResponse`, the contents of its choices. -/
inductive ChatBody where
  | broken (error : String)
  | malformed
  | parsed (choices : List String)
deriving DecidableEq, Repr

/-- What a request gives: an error of the HTTP client, or the status of an answer, the text of its
`Retry-After` header, and its body. -/
inductive ChatResponse where
  | failed (error : String)
  | answered (status : Nat) (retryAfter : Option String) (body : ChatBody)
deriving DecidableEq, Repr

/-- The errors of `propose_fields`. -/
inductive InferenceError where
  | unreachable (url message : String)
  | busy (message : String) (retryAfter : Nat)
  | validationFailed (message hint : String)
  | internal (message : String)
deriving DecidableEq, Repr

/-- What `YorishiroError` prints for them. -/
def InferenceError.text : InferenceError → String
  | .unreachable url message => "embedding provider unreachable at " ++ url ++ ": " ++ message
  | .busy message _ => "provider busy: " ++ message
  | .validationFailed message _ => "validation failed: " ++ message
  | .internal message => "internal error: " ++ message

/-- What the client is built on: how a status is printed, and how JSON is printed and read. -/
structure ChatCodec where
  status : Nat → String
  toStringPretty : Json → String
  fromStr : String → Option Json

section Asking

variable (codec : ChatCodec)

/-- The prompt of `propose_fields`. -/
def prompt (entityData : Json) (missingFields : List String) : String :=
  "Given this record, propose values for the listed missing fields.\n" ++
    "Answer with a JSON object containing only those field names. Omit any field you " ++
    "cannot infer from the record: do not guess blindly, and do not invent field " ++
    "names that are not listed.\n\nRecord:\n" ++ codec.toStringPretty entityData ++
    "\n\nMissing fields: " ++ ", ".intercalate missingFields

/-- The request of `propose_fields`. -/
def chatRequest (config : InferenceConfig) (entityData : Json) (missingFields : List String) :
    ChatRequest where
  url := config.baseUrl ++ "/chat/completions"
  bearer := config.apiKey
  model := config.model
  content := prompt codec entityData missingFields

/-- What `propose_fields` keeps of the message of a model: the fields that were asked for. -/
def askedFor (missingFields : List String) (content : String) :
    Except InferenceError (OrderedMap String Json) :=
  match (codec.fromStr content).getD .null with
  | .object members =>
      .ok (OrderedMap.ofList (members.filter fun e => decide (e.1 ∈ missingFields)))
  | _ => .error (.validationFailed "the inference provider did not answer with a JSON object"
      "the model may not support the json_object response format")

/-- `propose_fields`; `answer` is what comes of a request. -/
def proposeFields (answer : ChatRequest → ChatResponse) (config : InferenceConfig)
    (entityData : Json) (missingFields : List String) :
    Except InferenceError (OrderedMap String Json) :=
  if missingFields.isEmpty then .ok OrderedMap.empty
  else
    match answer (chatRequest codec config.client entityData missingFields) with
    | .failed error =>
        .error (.unreachable config.client.baseUrl (redact error config.apiKey))
    | .answered code header body =>
        if isSuccess code then
          match body with
          | .broken error => .error (.internal (redact error config.apiKey))
          | .malformed => .error (.internal "error decoding response body")
          | .parsed choices => askedFor codec missingFields (choices.head?.getD "{}")
        else
          let message := "the configured inference provider returned " ++ codec.status code
          match retryAfter code header with
          | some seconds => .error (.busy message seconds)
          | none => .error (.validationFailed message
              "check the workspace's LLM base_url, model and api_key")

end Asking

/-! ## What comes back -/

section Answers

variable {codec : ChatCodec} {missingFields : List String} {answers : OrderedMap String Json}

/-- Of an object, exactly the fields that were asked for are kept. -/
theorem isSome_askedFor {content : String} (h : askedFor codec missingFields content = .ok answers)
    (field : String) : (answers.get? field).isSome ↔ field ∈ missingFields ∧
      ∃ members, codec.fromStr content = some (.object members) ∧
        field ∈ members.map Prod.fst := by
  unfold askedFor at h
  cases hparse : codec.fromStr content with
  | none =>
      rw [hparse] at h
      cases h
  | some value =>
      rw [hparse, Option.getD_some] at h
      cases value with
      | object members =>
          cases h
          rw [OrderedMap.get?_ofList_isSome]
          simp only [List.mem_map, List.mem_filter, decide_eq_true_eq, Option.some.injEq,
            Json.object.injEq]
          constructor
          · rintro ⟨e, ⟨hmem, hasked⟩, rfl⟩
            exact ⟨hasked, members, rfl, e, hmem, rfl⟩
          · rintro ⟨hasked, _, rfl, e, hmem, rfl⟩
            exact ⟨e, ⟨hmem, hasked⟩, rfl⟩
      | null => cases h
      | bool b => cases h
      | number n => cases h
      | string s => cases h
      | array items => cases h

/-- **Whatever a model answers, only fields that were asked for come back.** -/
theorem mem_of_proposeFields {answer : ChatRequest → ChatResponse} {config : InferenceConfig}
    {entityData : Json}
    (h : proposeFields codec answer config entityData missingFields = .ok answers) {field : String}
    (hfield : (answers.get? field).isSome) : field ∈ missingFields := by
  unfold proposeFields at h
  split_ifs at h with hempty
  · cases h
    cases hfield
  · split at h
    · cases h
    · split_ifs at h with hsuccess
      · split at h
        · cases h
        · cases h
        · exact ((isSome_askedFor h field).mp hfield).1
      · dsimp only at h
        split at h
        · cases h
        · cases h

end Answers

end Yorishiro.Inference
