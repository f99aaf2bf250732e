import Yorishiro.Lib.Separated
import Yorishiro.Queue.Dispatch

/-!
# Worker targets

A job is for one target, and its tag says which. A worker reads the tags it serves back with
`parse_tag`.

A tag is a faithful encoding: what `parse_tag` accepts are the printed tags of targets and nothing
else (`parseTag_eq_ok_iff`). Printed tags are lower case, so that a database that ignores case finds
the same jobs for them as one that does not (`asciiLower_tag`).
-/

set_option autoImplicit false

namespace Yorishiro.Queue

open Yorishiro.Lib

/-! ## The functions -/

/-- `TAG_PREFIX`. -/
def tagPrefix : String := "worker-target:"

/-- What `job_tag` puts in its place. -/
def jobTagPrefix : String := "job-target:"

/-- `WorkerTarget`. -/
inductive WorkerTarget where
  | shared
  | official
  | tenant (id : Uuid)
deriving DecidableEq

/-- `InvalidWorkerTarget`. -/
structure InvalidWorkerTarget where
  tag : String
  reason : String
deriving DecidableEq

/-- `strip_prefix`. -/
def stripPrefix (start s : String) : Option String :=
  (s.toList.dropPrefix? start.toList).map String.ofList

/-- `replacen(.., 1)`: the first occurrence is replaced. -/
def replaceFirst (old new : List Char) : List Char → List Char
  | [] => if old.isEmpty then new else []
  | c :: cs =>
      match (c :: cs).dropPrefix? old with
      | some rest => new ++ rest
      | none => c :: replaceFirst old new cs

namespace WorkerTarget

/-- `class`. -/
def workerClass : WorkerTarget → WorkerClass
  | .shared => .shared
  | .official => .official
  | .tenant _ => .tenantPrivate

/-- `name`. -/
def name : WorkerTarget → String
  | .shared => "shared"
  | .official => "official"
  | .tenant id => "tenant:" ++ id.toString

/-- `tag`. -/
def tag (t : WorkerTarget) : String := tagPrefix ++ t.name

/-- `queue`. -/
def queue (t : WorkerTarget) : String := t.tag

/-- `job_tag`. -/
def jobTag (t : WorkerTarget) : String :=
  String.ofList (replaceFirst tagPrefix.toList jobTagPrefix.toList t.tag.toList)

/-- `concurrency_key`. -/
def concurrencyKey (t : WorkerTarget) : String := t.workerClass.asDbStr ++ ":" ++ t.name

end WorkerTarget

/-- `parse_tag`. -/
def parseTag (tag : String) : Except InvalidWorkerTarget WorkerTarget :=
  match stripPrefix tagPrefix tag with
  | none => .error ⟨tag, "a worker tag must start with `worker-target:`"⟩
  | some name =>
      if name = "shared" then .ok .shared
      else if name = "official" then .ok .official
      else
        match stripPrefix "tenant:" name with
        | none => .error ⟨tag, "the target is not one of shared, official, or tenant"⟩
        | some id =>
            match Uuid.parseStr id with
            | none => .error ⟨tag, "the tenant id is not a UUID"⟩
            | some tenantId =>
                -- other spellings of the identifier are refused
                if tenantId.toString ≠ id then
                  .error ⟨tag, "the tenant id is not in lowercase hyphenated form"⟩
                else .ok (.tenant tenantId)

/-- `parse_job_tag`. -/
def parseJobTag (tag : String) : Except InvalidWorkerTarget WorkerTarget :=
  match stripPrefix jobTagPrefix tag with
  | some name => parseTag (tagPrefix ++ name)
  | none => .error ⟨tag, "a job tag must start with `job-target:`"⟩

/-- The targets, with one more unless it is there. -/
def pushNew {α : Type} [DecidableEq α] (targets : List α) (target : α) : List α :=
  if target ∈ targets then targets else targets ++ [target]

/-- `targets_for_start`. -/
def targetsForStart (tags : List String) : Except InvalidWorkerTarget (List WorkerTarget) :=
  if tags.isEmpty then .error ⟨"", "a worker start names no target"⟩
  else
    tags.foldlM (fun targets tag => do
      let target ← parseTag tag
      return pushNew targets target) []

/-! ## Prefixes -/

theorem stripPrefix_eq_some_iff {start s rest : String} :
    stripPrefix start s = some rest ↔ s = start ++ rest := by
  rw [stripPrefix, Option.map_eq_some_iff]
  constructor
  · rintro ⟨cs, hcs, rfl⟩
    rw [← String.toList_inj, String.toList_append, String.toList_ofList]
    exact Separated.dropPrefix_eq_some_iff.mp hcs
  · rintro rfl
    refine ⟨rest.toList, Separated.dropPrefix_eq_some_iff.mpr ?_, String.ofList_toList⟩
    exact String.toList_append

theorem stripPrefix_append (start rest : String) :
    stripPrefix start (start ++ rest) = some rest :=
  stripPrefix_eq_some_iff.mpr rfl

/-- The first occurrence of what a text starts with is its start. -/
theorem replaceFirst_append {old : List Char} (hold : old ≠ []) (new rest : List Char) :
    replaceFirst old new (old ++ rest) = new ++ rest := by
  cases old with
  | nil => exact absurd rfl hold
  | cons c old =>
      have hdrop : (c :: (old ++ rest)).dropPrefix? (c :: old) = some rest :=
        Separated.dropPrefix_eq_some_iff.mpr rfl
      rw [List.cons_append, replaceFirst, hdrop]

theorem WorkerTarget.jobTag_eq (t : WorkerTarget) : t.jobTag = jobTagPrefix ++ t.name := by
  have hprefix : tagPrefix.toList ≠ [] := by decide
  rw [WorkerTarget.jobTag, WorkerTarget.tag, String.toList_append, replaceFirst_append hprefix,
    ← String.toList_append, String.ofList_toList]

/-! ## Tags are read back -/

theorem tenant_name_ne (id name : String) (h : name.toList.head? ≠ some 't') :
    "tenant:" ++ id ≠ name := by
  rintro rfl
  exact h (by rw [String.toList_append]; rfl)

/-- **What is accepted are the tags of targets.** -/
theorem parseTag_eq_ok_iff {s : String} {t : WorkerTarget} : parseTag s = .ok t ↔ s = t.tag := by
  constructor
  · intro h
    rw [parseTag] at h
    cases hname : stripPrefix tagPrefix s with
    | none => simp [hname] at h
    | some name =>
        rw [stripPrefix_eq_some_iff.mp hname, WorkerTarget.tag]
        simp only [hname] at h
        split_ifs at h with hshared hofficial
        · cases h
          rw [hshared, WorkerTarget.name]
        · cases h
          rw [hofficial, WorkerTarget.name]
        · cases hid : stripPrefix "tenant:" name with
          | none => simp [hid] at h
          | some id =>
              simp only [hid] at h
              cases hparse : Uuid.parseStr id with
              | none => simp [hparse] at h
              | some tenantId =>
                  simp only [hparse] at h
                  split_ifs at h with hprinted
                  cases h
                  rw [stripPrefix_eq_some_iff.mp hid, WorkerTarget.name, not_not.mp hprinted]
  · rintro rfl
    rw [parseTag, WorkerTarget.tag, stripPrefix_append]
    cases t with
    | shared => rfl
    | official => rfl
    | tenant id =>
        have hshared := tenant_name_ne id.toString "shared" (by decide)
        have hofficial := tenant_name_ne id.toString "official" (by decide)
        simp only [WorkerTarget.name, hshared, hofficial, if_false, stripPrefix_append,
          Uuid.parseStr_toString, ne_eq, not_true_eq_false]

theorem parseJobTag_eq_ok_iff {s : String} {t : WorkerTarget} :
    parseJobTag s = .ok t ↔ s = t.jobTag := by
  rw [parseJobTag, WorkerTarget.jobTag_eq]
  cases hname : stripPrefix jobTagPrefix s with
  | none =>
      refine iff_of_false (by simp) ?_
      rintro rfl
      rw [stripPrefix_append] at hname
      cases hname
  | some name =>
      simp only [parseTag_eq_ok_iff, stripPrefix_eq_some_iff.mp hname, WorkerTarget.tag,
        String.append_right_inj]

theorem WorkerTarget.name_injective {t u : WorkerTarget} (h : t.name = u.name) : t = u := by
  have htag : parseTag t.tag = .ok u := parseTag_eq_ok_iff.mpr (by rw [tag, tag, h])
  rw [parseTag_eq_ok_iff.mpr rfl] at htag
  exact Except.ok.inj htag

/-- A tag starts with another letter than a job tag. -/
theorem WorkerTarget.tag_ne_jobTag (t u : WorkerTarget) : t.tag ≠ u.jobTag := by
  intro h
  rw [WorkerTarget.jobTag_eq, WorkerTarget.tag, ← String.toList_inj, String.toList_append,
    String.toList_append] at h
  exact absurd (congrArg List.head? h) (by simp [tagPrefix, jobTagPrefix])

/-- The first letter of a concurrency key tells its class. -/
theorem WorkerTarget.head_concurrencyKey (t : WorkerTarget) :
    t.concurrencyKey.toList.head? = t.workerClass.asDbStr.toList.head? := by
  have hne : t.workerClass.asDbStr.toList ≠ [] := by
    cases t.workerClass <;> decide
  rw [concurrencyKey, String.toList_append, String.toList_append, List.append_assoc,
    List.head?_append_of_ne_nil _ hne]

theorem WorkerClass.head_asDbStr_injective {a b : WorkerClass}
    (h : a.asDbStr.toList.head? = b.asDbStr.toList.head?) : a = b := by
  cases a <;> cases b <;> first | rfl | exact absurd h (by decide)

theorem WorkerTarget.concurrencyKey_injective {t u : WorkerTarget}
    (h : t.concurrencyKey = u.concurrencyKey) : t = u := by
  have hclass : t.workerClass = u.workerClass := by
    apply WorkerClass.head_asDbStr_injective
    rw [← t.head_concurrencyKey, ← u.head_concurrencyKey, h]
  rw [concurrencyKey, concurrencyKey, hclass, String.append_right_inj] at h
  exact name_injective h

/-! ## Tags are lower case -/

/-- A string in lower case, outside ASCII as it is. -/
def asciiLower (s : String) : String := String.ofList (s.toList.map Char.toLower)

theorem asciiLower_append (s u : String) : asciiLower (s ++ u) = asciiLower s ++ asciiLower u := by
  rw [asciiLower, String.toList_append, List.map_append, String.ofList_append]
  rfl

theorem asciiLower_toString (id : Uuid) : asciiLower id.toString = id.toString := by
  have hlower : id.toString.toList.map Char.toLower = id.toString.toList := by
    refine (List.map_congr_left fun c hc => ?_).trans (List.map_id _)
    rcases Uuid.mem_toString hc with rfl | ⟨d, hd, rfl⟩
    · rfl
    · exact Uuid.toLower_digitChar d hd
  rw [asciiLower, hlower, String.ofList_toList]

theorem WorkerTarget.asciiLower_name (t : WorkerTarget) : asciiLower t.name = t.name := by
  cases t with
  | shared => rfl
  | official => rfl
  | tenant id => rw [name, asciiLower_append, asciiLower_toString]; rfl

theorem WorkerTarget.asciiLower_tag (t : WorkerTarget) : asciiLower t.tag = t.tag := by
  rw [tag, asciiLower_append, t.asciiLower_name]
  rfl

theorem WorkerTarget.asciiLower_jobTag (t : WorkerTarget) : asciiLower t.jobTag = t.jobTag := by
  rw [jobTag_eq, asciiLower_append, t.asciiLower_name]
  rfl

/-! ## The targets of a start -/

section FirstOccurrences

variable {α : Type} [DecidableEq α]

/-- The values, each once, in the order of their first occurrences. -/
structure FirstOccurrences (values distinct : List α) : Prop where
  mem : ∀ v, v ∈ distinct ↔ v ∈ values
  order : distinct.Pairwise fun a b => values.idxOf a < values.idxOf b

theorem FirstOccurrences.nil : FirstOccurrences ([] : List α) [] where
  mem := fun _ => Iff.rfl
  order := List.Pairwise.nil

theorem FirstOccurrences.pushNew {values distinct : List α}
    (h : FirstOccurrences values distinct) (v : α) :
    FirstOccurrences (values ++ [v]) (Queue.pushNew distinct v) := by
  have horder : distinct.Pairwise fun a b =>
      (values ++ [v]).idxOf a < (values ++ [v]).idxOf b := by
    refine h.order.imp_of_mem fun ha hb hlt => ?_
    rw [List.idxOf_append_of_mem ((h.mem _).mp ha), List.idxOf_append_of_mem ((h.mem _).mp hb)]
    exact hlt
  rw [Queue.pushNew]
  split_ifs with hv
  · refine ⟨fun w => ?_, horder⟩
    rw [h.mem, List.mem_append, List.mem_singleton]
    refine ⟨Or.inl, ?_⟩
    rintro (hw | rfl)
    · exact hw
    · exact (h.mem _).mp hv
  · refine ⟨fun w => by rw [List.mem_append, List.mem_append, h.mem], ?_⟩
    rw [List.pairwise_append]
    refine ⟨horder, List.pairwise_singleton _ _, fun a ha b hb => ?_⟩
    rw [List.mem_singleton.mp hb]
    have hlast : v ∉ values := fun hmem => hv ((h.mem v).mpr hmem)
    rw [List.idxOf_append_of_mem ((h.mem a).mp ha), List.idxOf_append_of_notMem hlast]
    exact Nat.lt_add_right _ (List.idxOf_lt_length_of_mem ((h.mem a).mp ha))

/-- By induction on the values: what has been seen is a prefix of them. -/
theorem FirstOccurrences.foldl {seen distinct : List α} (h : FirstOccurrences seen distinct)
    (values : List α) :
    FirstOccurrences (seen ++ values) (values.foldl Queue.pushNew distinct) := by
  induction values generalizing seen distinct with
  | nil =>
      rw [List.append_nil, List.foldl_nil]
      exact h
  | cons v values ih =>
      rw [List.foldl_cons, List.append_cons]
      exact ih (h.pushNew v)

end FirstOccurrences

/-- The loop over tags that are read. -/
theorem foldlM_targets {tags : List String} {named : List WorkerTarget}
    (h : tags.map parseTag = named.map .ok) (targets : List WorkerTarget) :
    tags.foldlM (fun targets tag => do
      let target ← parseTag tag
      return pushNew targets target) targets =
        (.ok (named.foldl pushNew targets) : Except InvalidWorkerTarget (List WorkerTarget)) := by
  induction tags generalizing named targets with
  | nil =>
      obtain rfl : named = [] := List.map_eq_nil_iff.mp h.symm
      rfl
  | cons tag tags ih =>
      cases named with
      | nil => cases h
      | cons target named =>
          rw [List.map_cons, List.map_cons, List.cons.injEq] at h
          rw [List.foldlM_cons, h.1, List.foldl_cons]
          exact ih h.2 (pushNew targets target)

theorem targetsForStart_eq_ok {tags : List String} {named : List WorkerTarget} (hne : tags ≠ [])
    (h : tags.map parseTag = named.map .ok) :
    ∃ targets, targetsForStart tags = .ok targets ∧ FirstOccurrences named targets := by
  refine ⟨named.foldl pushNew [], ?_, FirstOccurrences.nil.foldl named⟩
  rw [targetsForStart, if_neg (by simpa using hne)]
  exact foldlM_targets h []

/-- **Tags are a faithful encoding of targets.** -/
theorem worker_tags :
    (∀ t : WorkerTarget, parseTag t.tag = .ok t ∧ parseJobTag t.jobTag = .ok t) ∧
    (∀ s t, (parseTag s = .ok t → t.tag = s) ∧ (parseJobTag s = .ok t → t.jobTag = s)) ∧
    (∀ s s' t t', asciiLower s = asciiLower s' ∨ t = t' →
      (parseTag s = .ok t ∧ parseTag s' = .ok t' ∨
        parseJobTag s = .ok t ∧ parseJobTag s' = .ok t') → s = s') ∧
    (∀ s t t', ¬(parseTag s = .ok t ∧ parseJobTag s = .ok t')) ∧
    (∀ t u : WorkerTarget, t.concurrencyKey = u.concurrencyKey → t = u) ∧
    (∀ (tags : List String) (named : List WorkerTarget), tags ≠ [] →
      tags.map parseTag = named.map .ok →
      ∃ targets, targetsForStart tags = .ok targets ∧ (∀ t, t ∈ targets ↔ t ∈ named) ∧
        targets.Pairwise fun t u => named.idxOf t < named.idxOf u) := by
  refine ⟨fun t => ⟨parseTag_eq_ok_iff.mpr rfl, parseJobTag_eq_ok_iff.mpr rfl⟩,
    fun s t => ⟨fun h => (parseTag_eq_ok_iff.mp h).symm,
      fun h => (parseJobTag_eq_ok_iff.mp h).symm⟩, ?_, ?_,
    fun t u => WorkerTarget.concurrencyKey_injective, ?_⟩
  · intro s s' t t' hsame hread
    rcases hread with ⟨hs, hs'⟩ | ⟨hs, hs'⟩
    · rw [parseTag_eq_ok_iff] at hs hs'
      subst hs hs'
      rcases hsame with hlower | rfl
      · rw [t.asciiLower_tag, t'.asciiLower_tag] at hlower
        exact hlower
      · rfl
    · rw [parseJobTag_eq_ok_iff] at hs hs'
      subst hs hs'
      rcases hsame with hlower | rfl
      · rw [t.asciiLower_jobTag, t'.asciiLower_jobTag] at hlower
        exact hlower
      · rfl
  · rintro s t t' ⟨hworker, hjob⟩
    rw [parseTag_eq_ok_iff] at hworker
    rw [parseJobTag_eq_ok_iff] at hjob
    exact t.tag_ne_jobTag t' (hworker.symm.trans hjob)
  · intro tags named hne hnamed
    obtain ⟨targets, htargets, hfirst⟩ := targetsForStart_eq_ok hne hnamed
    exact ⟨targets, htargets, hfirst.mem, hfirst.order⟩

end Yorishiro.Queue
