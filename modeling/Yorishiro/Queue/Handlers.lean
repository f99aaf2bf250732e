import Yorishiro.Queue.Target

/-!
# Which process runs a job

A worker process is started with tags, which decide two things: the jobs that the queue gives it,
and the handlers that it registers. Embedding work needs a model in memory and is kept apart from
the rest by its tags alone; the queue itself knows nothing of handlers.

How the queue matches tags is not the program's: `MatchesTags` has what the program relies on.
`delivered_is_handled`: with every provider and whatever start, the jobs a process is given are
those of the targets it names, of its own kind, and it has their handlers.
-/

set_option autoImplicit false

namespace Yorishiro.Queue

open Yorishiro.Lib

/-! ## Starts -/

/-- `StartMode`. -/
inductive StartMode where
  | serverOnly
  | serverAndWorker
  | serverAndScheduler
  | workerOnly (tags : List String)
  | workerAndScheduler (tags : List String)
  | all
deriving DecidableEq, Repr

/-- The tags that the workers of a process are given. -/
def StartMode.tags : StartMode → List String
  | .workerOnly tags => tags
  | .workerAndScheduler tags => tags
  | _ => []

/-- `WorkerStart`. -/
inductive WorkerStart where
  | noWorkers
  | targets (targets : List WorkerTarget)
  | jobs (targets : List WorkerTarget)
deriving DecidableEq

/-- The error of a tag, as it is printed. -/
def InvalidWorkerTarget.display (e : InvalidWorkerTarget) : String :=
  let use := "use `worker-target:shared`, `worker-target:official`, or " ++
    "`worker-target:tenant:<tenant-id>` with the tenant id in lowercase hyphenated form"
  if e.tag.isEmpty then e.reason ++ "; " ++ use
  else "invalid worker target " ++ e.tag.quote ++ ": " ++ e.reason ++ "; " ++ use

/-- The tags of a worker that runs other jobs. -/
def jobTargetsForStart (tags : List String) : Except InvalidWorkerTarget (List WorkerTarget) :=
  tags.mapM parseJobTag

/-- `worker_start_from_mode`. -/
def workerStartFromMode (mode : StartMode) : Except String WorkerStart :=
  match mode with
  | .workerOnly tags | .workerAndScheduler tags =>
      if tags.head?.any fun tag => (stripPrefix jobTagPrefix tag).isSome then
        ((jobTargetsForStart tags).map .jobs).mapError InvalidWorkerTarget.display
      else ((targetsForStart tags).map .targets).mapError InvalidWorkerTarget.display
  | .serverAndWorker | .all =>
      .error ("`--all` and `--server-and-worker` start workers that cannot be given a worker " ++
        "target, so they would take none of Yorishiro's jobs; run the workers as a separate " ++
        "process with `start --worker=worker-target:shared`")
  | .serverOnly | .serverAndScheduler => .ok .noWorkers

/-- The loop of `worker_start_from_args`, after the command. -/
def scanArgs : Option (List String) → Bool → List String → Except String WorkerStart
  | tags, _, [] =>
      match tags with
      | none => .ok .noWorkers
      | some tags => workerStartFromMode (.workerOnly tags)
  | tags, values, arg :: args =>
      if arg ∈ ["--all", "-a", "--server-and-worker", "-s"] then workerStartFromMode .all
      else if arg ∈ ["--worker", "-w"] then scanArgs (some (tags.getD [])) true args
      else
        match (stripPrefix "--worker=" arg).or (stripPrefix "-w=" arg) with
        | some value => scanArgs (some (tags.getD [] ++ value.splitOn ",")) true args
        | none =>
            if (stripPrefix "-" arg).isSome then scanArgs tags false args
            else if values then scanArgs (some (tags.getD [] ++ arg.splitOn ",")) values args
            else scanArgs tags values args

/-- `worker_start_from_args`. -/
def workerStartFromArgs (args : List String) : Except String WorkerStart :=
  match args.dropWhile fun arg => decide (arg ≠ "start") && decide (arg ≠ "s") with
  | [] => .ok .noWorkers
  | _ :: args => scanArgs none false args

/-! ## Roles and handlers -/

/-- `ConsumerRole`. -/
inductive ConsumerRole where
  | embedding
  | jobs
deriving DecidableEq, Repr

/-- `is_embedding_worker`. -/
def isEmbeddingWorker (name : String) : Bool :=
  decide (name ∈ ["EmbeddingSyncWorker", "ReindexWorker", "QueryEmbeddingWorker"])

/-- The role that runs the jobs of a worker. -/
def roleOf (name : String) : ConsumerRole := if isEmbeddingWorker name then .embedding else .jobs

/-- `WorkerRegistry::community`. -/
def communityWorkers : List String :=
  ["EmbeddingSyncWorker", "ReindexWorker", "QueryEmbeddingWorker", "FillDefaultsWorker",
    "UndoWorker", "ImportWorker"]

/-- The two editions of the program. -/
inductive Edition where
  | community
  | enterprise
deriving DecidableEq, Repr

/-- The workers that an edition registers. -/
def Edition.workers : Edition → List String
  | .community => communityWorkers
  | .enterprise => communityWorkers ++ ["InferFillWorker", "ConfirmProposalsWorker"]

/-- The workers that an edition gives to `dispatch_job`. -/
def Edition.dispatched : Edition → List String
  | .community =>
      ["EmbeddingSyncWorker", "ReindexWorker", "FillDefaultsWorker", "UndoWorker", "ImportWorker"]
  | .enterprise =>
      ["EmbeddingSyncWorker", "ReindexWorker", "FillDefaultsWorker", "UndoWorker", "ImportWorker",
        "InferFillWorker", "ConfirmProposalsWorker"]

/-- `connect`: the handlers that a process of a role registers. -/
def connect (registry : List String) (role : ConsumerRole) : List String :=
  registry.filter fun name => decide (roleOf name = role)

/-! ## Configuration -/

/-- The queue providers; a Redis queue polls the named queues of its configuration. -/
inductive QueueProvider where
  | postgres
  | sqlite
  | redis (queues : Option (List String))
deriving DecidableEq, Repr

/-- What a start changes of the configuration. -/
structure QueueConfig where
  provider : QueueProvider
  consumerRole : ConsumerRole
deriving DecidableEq, Repr

/-- `serve_worker_queues`. -/
def serveWorkerQueues (provider : QueueProvider) (queues : List String) : QueueProvider :=
  match provider with
  | .redis served => .redis (some (queues.foldl pushNew (served.getD [])))
  | provider => provider

/-- `configure_start`. -/
def configureStart (config : QueueConfig) : WorkerStart → QueueConfig
  | .noWorkers => config
  | .jobs targets =>
      ⟨serveWorkerQueues config.provider (targets.map WorkerTarget.jobTag), .jobs⟩
  | .targets targets =>
      ⟨serveWorkerQueues config.provider (targets.map WorkerTarget.queue), .embedding⟩

/-! ## Delivery -/

/-- The tag that jobs of a worker carry for a target. -/
def routingTag (workerName : String) (target : WorkerTarget) : String :=
  if isEmbeddingWorker workerName then target.tag else target.jobTag

/-- What the dispatcher uses of a target, for a worker. -/
def jobTarget (workerName : String) (target : WorkerTarget) : JobTarget :=
  ⟨routingTag workerName target, target.concurrencyKey⟩

/-- The job that `requeue` records in the place of one that is retried. -/
def requeuedJob (payload : Json) (workerName : String) (target : WorkerTarget) : Job where
  payload := payload
  workerName := workerName
  queueName := some (routingTag workerName target)
  tags := some [routingTag workerName target]

/-- The jobs that the program records for a target. -/
inductive RecordedFor (edition : Edition) (target : WorkerTarget) : Job → Prop where
  | dispatch (spec : JobSpec) (id : Uuid) (policy : Except String ConcurrencyPolicy) (e : Enqueue)
      (job : Job) (worker : spec.workerName ∈ edition.dispatched)
      (h : dispatchJob spec id (.ok (jobTarget spec.workerName target)) policy = .job e job) :
      RecordedFor edition target job
  | requeue (payload : Json) (workerName : String) (worker : workerName ∈ edition.dispatched) :
      RecordedFor edition target (requeuedJob payload workerName target)
  | query (workspaceId dispatchId requestId : Uuid) (deadlineAt : Instant) (id : Uuid)
      (at' : Instant) (job : Job)
      (h : openQuery workspaceId dispatchId requestId deadlineAt target.tag = .query id at' job) :
      RecordedFor edition target job

/-- No character of the tag is a wildcard of `LIKE`. -/
def Literal (tag : String) : Prop := ∀ c ∈ tag.toList, c ≠ '%' ∧ c ≠ '_'

/-- What the program relies on of its queue: whether a worker with the given tags may be given a job
that carries some. A worker without tags takes only jobs without any. Otherwise one tag in common
is enough; SQLite compares them with `LIKE`, which ignores case, and a Redis worker looks only into
the queues that it polls. -/
structure MatchesTags (delivers : QueueProvider → List String → Job → Bool) : Prop where
  untagged : ∀ provider job carried, job.tags = some carried → carried ≠ [] →
    delivers provider [] job = false
  postgres : ∀ tags job carried, job.tags = some carried → tags ≠ [] →
    (delivers .postgres tags job = true ↔ ∃ tag ∈ carried, tag ∈ tags)
  sqlite : ∀ tags job carried, job.tags = some carried → tags ≠ [] → (∀ tag ∈ tags, Literal tag) →
    (delivers .sqlite tags job = true ↔ ∃ tag ∈ carried, asciiLower tag ∈ tags.map asciiLower)
  redis : ∀ queues tags job queue carried, job.queueName = some queue → job.tags = some carried →
    tags ≠ [] → (delivers (.redis (some queues)) tags job = true ↔
      queue ∈ queues ∧ ∃ tag ∈ carried, tag ∈ tags)

/-- The start names the target, with the kind of the worker's jobs. -/
def WorkerStart.serves (workerName : String) (target : WorkerTarget) : WorkerStart → Prop
  | .noWorkers => False
  | .targets named => isEmbeddingWorker workerName = true ∧ target ∈ named
  | .jobs named => isEmbeddingWorker workerName = false ∧ target ∈ named

/-! ## Every job has the tag of its target -/

theorem RecordedFor.routed {edition : Edition} {target : WorkerTarget} {job : Job}
    (h : RecordedFor edition target job) :
    job.queueName = some (routingTag job.workerName target) ∧
      job.tags = some [routingTag job.workerName target] := by
  cases h with
  | dispatch spec id policy e job worker h =>
      dsimp only [dispatchJob] at h
      split_ifs at h
      · cases policy with
        | error error => cases h
        | ok policy =>
            cases h
            exact ⟨rfl, rfl⟩
      · cases h
        exact ⟨rfl, rfl⟩
  | requeue payload workerName worker => exact ⟨rfl, rfl⟩
  | query workspaceId dispatchId requestId deadlineAt id at' job h =>
      cases h
      exact ⟨rfl, rfl⟩

theorem Edition.dispatched_subset (edition : Edition) :
    edition.dispatched ⊆ edition.workers := by
  cases edition <;> decide

/-- The worker of a job that the program records is registered. -/
theorem RecordedFor.registered {edition : Edition} {target : WorkerTarget} {job : Job}
    (h : RecordedFor edition target job) : job.workerName ∈ edition.workers := by
  cases h with
  | dispatch spec id policy e job worker h =>
      rcases dispatchJob_cases spec id (.ok (jobTarget spec.workerName target)) policy with
        ⟨diagnostic, hrefused⟩ | ⟨e', job', hjob, -, -, -, -, hname⟩
      · rw [hrefused] at h
        cases h
      · rw [hjob] at h
        cases h
        rw [hname]
        exact edition.dispatched_subset worker
  | requeue payload workerName worker => exact edition.dispatched_subset worker
  | query workspaceId dispatchId requestId deadlineAt id at' job h =>
      cases h
      have hquery : "QueryEmbeddingWorker" ∈ edition.workers := by cases edition <;> decide
      exact hquery

theorem asciiLower_routingTag (workerName : String) (target : WorkerTarget) :
    asciiLower (routingTag workerName target) = routingTag workerName target := by
  unfold routingTag
  split_ifs
  · exact target.asciiLower_tag
  · exact target.asciiLower_jobTag

theorem literal_of_all {tag : String}
    (h : (tag.toList.all fun c => c != '%' && c != '_') = true) : Literal tag := by
  intro c hc
  have hchar := List.all_eq_true.mp h c hc
  simpa only [Bool.and_eq_true, bne_iff_ne] using hchar

theorem Literal.append {s u : String} (hs : Literal s) (hu : Literal u) : Literal (s ++ u) := by
  intro c hc
  rw [String.toList_append] at hc
  exact (List.mem_append.mp hc).elim (hs c) (hu c)

theorem literal_toString (id : Uuid) : Literal id.toString := by
  intro c hc
  rcases Uuid.mem_toString hc with rfl | ⟨d, hd, rfl⟩
  · decide
  · interval_cases d <;> decide

theorem WorkerTarget.literal_name (t : WorkerTarget) : Literal t.name := by
  cases t with
  | shared => exact literal_of_all rfl
  | official => exact literal_of_all rfl
  | tenant id => exact Literal.append (literal_of_all rfl) (literal_toString id)

theorem WorkerTarget.literal_tag (t : WorkerTarget) : Literal t.tag :=
  Literal.append (literal_of_all rfl) t.literal_name

theorem WorkerTarget.literal_jobTag (t : WorkerTarget) : Literal t.jobTag := by
  rw [jobTag_eq]
  exact Literal.append (literal_of_all rfl) t.literal_name

/-! ## What a start reads -/

theorem mapM_parseJobTag {tags : List String} {targets : List WorkerTarget}
    (h : jobTargetsForStart tags = .ok targets) : tags = targets.map WorkerTarget.jobTag := by
  unfold jobTargetsForStart at h
  induction tags generalizing targets with
  | nil =>
      cases h
      rfl
  | cons tag tags ih =>
      rw [List.mapM_cons] at h
      obtain ⟨target, htarget, h⟩ := Except.bind_eq_ok.mp h
      obtain ⟨rest, hrest, h⟩ := Except.bind_eq_ok.mp h
      cases h
      rw [List.map_cons, ← ih hrest, parseJobTag_eq_ok_iff.mp htarget]

/-- The loop of `targets_for_start` reads every tag, and keeps each target once. -/
theorem foldlM_parseTag {tags : List String} {seen targets : List WorkerTarget}
    (h : tags.foldlM (fun targets tag => do
      let target ← parseTag tag
      return pushNew targets target) seen = (.ok targets : Except InvalidWorkerTarget _)) :
    (∀ tag ∈ tags, ∃ t : WorkerTarget, tag = t.tag) ∧
      ∀ t : WorkerTarget, t ∈ targets ↔ t ∈ seen ∨ t.tag ∈ tags := by
  induction tags generalizing seen with
  | nil =>
      cases h
      exact ⟨fun _ htag => (by cases htag), fun t => by simp⟩
  | cons tag tags ih =>
      rw [List.foldlM_cons] at h
      obtain ⟨pushed, hpushed, hrest⟩ := Except.bind_eq_ok.mp h
      obtain ⟨target, htarget, hnew⟩ := Except.bind_eq_ok.mp hpushed
      obtain rfl := Except.ok.inj hnew
      obtain rfl := parseTag_eq_ok_iff.mp htarget
      obtain ⟨hall, hmem⟩ := ih hrest
      refine ⟨fun tag' htag' => ?_, fun t => ?_⟩
      · rcases List.mem_cons.mp htag' with rfl | htag'
        · exact ⟨target, rfl⟩
        · exact hall tag' htag'
      · have hpush : t ∈ pushNew seen target ↔ t ∈ seen ∨ t = target := by
          unfold pushNew
          split_ifs with hseen
          · refine ⟨Or.inl, ?_⟩
            rintro (ht | rfl)
            · exact ht
            · exact hseen
          · rw [List.mem_append, List.mem_singleton]
        have htag : t.tag = target.tag ↔ t = target := by
          refine ⟨fun heq => ?_, fun heq => by rw [heq]⟩
          apply WorkerTarget.name_injective
          rwa [WorkerTarget.tag, WorkerTarget.tag, String.append_right_inj] at heq
        rw [hmem, hpush, List.mem_cons, htag, or_assoc]

/-- A start gives workers the tags of the targets it names, all of one kind. -/
theorem workerStartFromMode_eq_ok {mode : StartMode} {start : WorkerStart}
    (h : workerStartFromMode mode = .ok start) :
    match start with
    | .noWorkers => mode.tags = []
    | .targets named => (∀ tag ∈ mode.tags, ∃ t : WorkerTarget, tag = t.tag) ∧
        ∀ t : WorkerTarget, t ∈ named ↔ t.tag ∈ mode.tags
    | .jobs named => mode.tags = named.map WorkerTarget.jobTag := by
  have worker : ∀ tags : List String,
      (if tags.head?.any fun tag => (stripPrefix jobTagPrefix tag).isSome then
        ((jobTargetsForStart tags).map WorkerStart.jobs).mapError InvalidWorkerTarget.display
      else ((targetsForStart tags).map WorkerStart.targets).mapError InvalidWorkerTarget.display) =
        .ok start →
      match start with
      | .noWorkers => tags = []
      | .targets named => (∀ tag ∈ tags, ∃ t : WorkerTarget, tag = t.tag) ∧
          ∀ t : WorkerTarget, t ∈ named ↔ t.tag ∈ tags
      | .jobs named => tags = named.map WorkerTarget.jobTag := by
    intro tags h
    split_ifs at h
    · obtain ⟨named, hnamed, rfl⟩ := Except.map_eq_ok (Except.mapError_eq_ok h)
      exact mapM_parseJobTag hnamed
    · obtain ⟨named, hnamed, rfl⟩ := Except.map_eq_ok (Except.mapError_eq_ok h)
      unfold targetsForStart at hnamed
      split_ifs at hnamed
      obtain ⟨hall, hmem⟩ := foldlM_parseTag hnamed
      exact ⟨hall, fun t => by simpa using hmem t⟩
  cases mode with
  | workerOnly tags => exact worker tags h
  | workerAndScheduler tags => exact worker tags h
  | serverOnly =>
      cases h
      rfl
  | serverAndScheduler =>
      cases h
      rfl
  | serverAndWorker => cases h
  | all => cases h

/-- Whatever the command line names, it is a start. -/
theorem scanArgs_eq_ok {tags : Option (List String)} {values : Bool} {args : List String}
    {start : WorkerStart} (h : scanArgs tags values args = .ok start) :
    start = .noWorkers ∨ ∃ tags, workerStartFromMode (.workerOnly tags) = .ok start := by
  induction args generalizing tags values with
  | nil =>
      cases tags with
      | none =>
          cases h
          exact .inl rfl
      | some tags => exact .inr ⟨tags, h⟩
  | cons arg args ih =>
      unfold scanArgs at h
      split at h
      · cases h
      · split at h
        · exact ih h
        · split at h
          · exact ih h
          · split at h
            · exact ih h
            · split at h
              · exact ih h
              · exact ih h

theorem workerStartFromArgs_eq_ok {args : List String} {start : WorkerStart}
    (h : workerStartFromArgs args = .ok start) :
    start = .noWorkers ∨ ∃ tags, workerStartFromMode (.workerOnly tags) = .ok start := by
  unfold workerStartFromArgs at h
  split at h
  · cases h
    exact .inl rfl
  · exact scanArgs_eq_ok h

/-! ## Delivery and handlers -/

theorem mem_routingTag {mode : StartMode} {start : WorkerStart}
    (h : workerStartFromMode mode = .ok start) (workerName : String) (target : WorkerTarget) :
    routingTag workerName target ∈ mode.tags ↔ start.serves workerName target := by
  have hread := workerStartFromMode_eq_ok h
  cases start with
  | noWorkers =>
      rw [show mode.tags = [] from hread]
      simp [WorkerStart.serves]
  | targets named =>
      obtain ⟨hall, hmem⟩ := hread
      unfold routingTag
      split_ifs with hkind
      · rw [← hmem]
        simp [WorkerStart.serves, hkind]
      · -- no tag of the start is one of the other kind
        refine iff_of_false (fun hjob => ?_) (fun hserves => hkind hserves.1)
        obtain ⟨t, ht⟩ := hall _ hjob
        exact t.tag_ne_jobTag target ht.symm
  | jobs named =>
      rw [show mode.tags = named.map WorkerTarget.jobTag from hread, List.mem_map]
      unfold routingTag
      split_ifs with hkind
      · refine iff_of_false ?_ (fun hserves => by simp [hserves.1] at hkind)
        rintro ⟨t, -, ht⟩
        exact target.tag_ne_jobTag t ht.symm
      · constructor
        · rintro ⟨t, ht, heq⟩
          rw [WorkerTarget.jobTag_eq, WorkerTarget.jobTag_eq, String.append_right_inj] at heq
          obtain rfl := WorkerTarget.name_injective heq
          exact ⟨by simpa using hkind, ht⟩
        · rintro ⟨-, hnamed⟩
          exact ⟨target, hnamed, rfl⟩

theorem mem_foldl_pushNew {α : Type} [DecidableEq α] {v : α} {values seen : List α} :
    v ∈ values.foldl pushNew seen ↔ v ∈ seen ∨ v ∈ values := by
  induction values generalizing seen with
  | nil => simp
  | cons value values ih =>
      rw [List.foldl_cons, ih, List.mem_cons, pushNew]
      split_ifs with hseen
      · constructor
        · rintro (h | h)
          · exact .inl h
          · exact .inr (.inr h)
        · rintro (h | rfl | h)
          · exact .inl h
          · exact .inl hseen
          · exact .inr h
      · rw [List.mem_append, List.mem_singleton, or_assoc]

/-- The tags of a start are printed targets. -/
theorem printed_of_mem_tags {mode : StartMode} {start : WorkerStart}
    (h : workerStartFromMode mode = .ok start) {tag : String} (htag : tag ∈ mode.tags) :
    ∃ t : WorkerTarget, tag = t.tag ∨ tag = t.jobTag := by
  have hread := workerStartFromMode_eq_ok h
  cases start with
  | noWorkers =>
      rw [show mode.tags = [] from hread] at htag
      cases htag
  | targets named =>
      obtain ⟨t, rfl⟩ := hread.1 tag htag
      exact ⟨t, .inl rfl⟩
  | jobs named =>
      rw [show mode.tags = named.map WorkerTarget.jobTag from hread] at htag
      obtain ⟨t, -, rfl⟩ := List.mem_map.mp htag
      exact ⟨t, .inr rfl⟩

/-- Comparing without case finds the same tags, for all of them are lower case. -/
theorem mem_map_asciiLower {mode : StartMode} {start : WorkerStart}
    (h : workerStartFromMode mode = .ok start) (workerName : String) (target : WorkerTarget) :
    asciiLower (routingTag workerName target) ∈ mode.tags.map asciiLower ↔
      routingTag workerName target ∈ mode.tags := by
  have hlower : mode.tags.map asciiLower = mode.tags := by
    refine (List.map_congr_left fun tag htag => ?_).trans (List.map_id _)
    rcases printed_of_mem_tags h htag with ⟨t, rfl | rfl⟩
    · exact t.asciiLower_tag
    · exact t.asciiLower_jobTag
  rw [hlower, asciiLower_routingTag]

theorem literal_of_mem_tags {mode : StartMode} {start : WorkerStart}
    (h : workerStartFromMode mode = .ok start) {tag : String} (htag : tag ∈ mode.tags) :
    Literal tag := by
  rcases printed_of_mem_tags h htag with ⟨t, rfl | rfl⟩
  · exact t.literal_tag
  · exact t.literal_jobTag

/-- A process is started on its provider; Redis also polls the queues of its targets. -/
theorem configureStart_provider (config : QueueConfig) (start : WorkerStart) :
    (config.provider = .postgres → (configureStart config start).provider = .postgres) ∧
      (config.provider = .sqlite → (configureStart config start).provider = .sqlite) := by
  constructor <;> intro hkind <;> cases start <;>
    simp only [configureStart, hkind, serveWorkerQueues]

section Delivered

variable {delivers : QueueProvider → List String → Job → Bool} {edition : Edition}
  {mode : StartMode} {start : WorkerStart} {target : WorkerTarget} {job : Job}

/-- A process that polls Redis is given the jobs of the targets that it names. -/
theorem delivers_redis_iff (hdelivers : MatchesTags delivers)
    (h : workerStartFromMode mode = .ok start) (hjob : RecordedFor edition target job)
    {queues : List String} (hnone : mode.tags ≠ [])
    (hpolled : start.serves job.workerName target →
      routingTag job.workerName target ∈ queues) :
    delivers (.redis (some queues)) mode.tags job = true ↔ start.serves job.workerName target := by
  obtain ⟨hqueue, htags⟩ := hjob.routed
  rw [hdelivers.redis queues mode.tags job _ _ hqueue htags hnone,
    ← mem_routingTag h job.workerName target]
  simp only [List.mem_singleton, exists_eq_left]
  exact and_iff_right_of_imp fun htag => hpolled ((mem_routingTag h _ _).mp htag)

/-- A process is given the jobs that carry a tag it was started with. -/
theorem delivers_iff (hdelivers : MatchesTags delivers) (config : QueueConfig)
    (h : workerStartFromMode mode = .ok start) (hjob : RecordedFor edition target job) :
    delivers (configureStart config start).provider mode.tags job = true ↔
      start.serves job.workerName target := by
  obtain ⟨hqueue, htags⟩ := hjob.routed
  have htag := mem_routingTag h job.workerName target
  by_cases hnone : mode.tags = []
  · rw [← htag, hnone, hdelivers.untagged _ job _ htags (List.cons_ne_nil _ _)]
    simp
  cases hkind : config.provider with
  | postgres =>
      rw [(configureStart_provider config start).1 hkind,
        hdelivers.postgres mode.tags job _ htags hnone, ← htag]
      simp
  | sqlite =>
      rw [(configureStart_provider config start).2 hkind,
        hdelivers.sqlite mode.tags job _ htags hnone fun tag htag => literal_of_mem_tags h htag,
        ← htag, ← mem_map_asciiLower h]
      simp
  | redis served =>
      cases start with
      | noWorkers => exact absurd (workerStartFromMode_eq_ok h) hnone
      -- the process polls the queue of each target that it names
      | targets named =>
          simp only [configureStart, hkind, serveWorkerQueues]
          refine delivers_redis_iff hdelivers h hjob hnone fun hserves => ?_
          rw [routingTag, if_pos hserves.1, show target.tag = target.queue from rfl]
          exact mem_foldl_pushNew.mpr (.inr (List.mem_map_of_mem hserves.2))
      | jobs named =>
          simp only [configureStart, hkind, serveWorkerQueues]
          refine delivers_redis_iff hdelivers h hjob hnone fun hserves => ?_
          rw [routingTag, if_neg (by simp [hserves.1])]
          exact mem_foldl_pushNew.mpr (.inr (List.mem_map_of_mem hserves.2))

/-- With every provider, whatever start and whatever queues the configuration had: a process is
given a job exactly when its start names the job's target among those of the job's kind, and then
it has registered the handler of the job's worker. -/
theorem delivered_is_handled (hdelivers : MatchesTags delivers) (config : QueueConfig)
    (h : workerStartFromMode mode = .ok start) (hjob : RecordedFor edition target job) :
    (delivers (configureStart config start).provider mode.tags job = true ↔
        start.serves job.workerName target) ∧
      (start.serves job.workerName target →
        job.workerName ∈ connect edition.workers (configureStart config start).consumerRole) := by
  refine ⟨delivers_iff hdelivers config h hjob, fun hserves => ?_⟩
  refine List.mem_filter.mpr ⟨hjob.registered, decide_eq_true ?_⟩
  cases start with
  | noWorkers => exact hserves.elim
  | targets named => exact if_pos hserves.1
  | jobs named => exact if_neg (by simp [hserves.1])

end Delivered

/-- A queue that compares tags. -/
def deliversByTag (provider : QueueProvider) (tags : List String) (job : Job) : Bool :=
  match provider with
  | .postgres => (job.tags.getD []).any fun tag => tags.contains tag
  | .sqlite => (job.tags.getD []).any fun tag => (tags.map asciiLower).contains (asciiLower tag)
  | .redis queues =>
      (job.queueName.any fun queue => (queues.getD []).contains queue) &&
        (job.tags.getD []).any fun tag => tags.contains tag

theorem matchesTags_deliversByTag : MatchesTags deliversByTag where
  untagged := fun provider job carried hcarried _ => by
    cases provider <;> simp [deliversByTag, hcarried]
  postgres := fun tags job carried hcarried _ => by simp [deliversByTag, hcarried]
  sqlite := fun tags job carried hcarried _ _ => by simp [deliversByTag, hcarried]
  redis := fun queues tags job queue carried hqueue hcarried _ => by
    simp [deliversByTag, hqueue, hcarried]

/-- The undo of a job is retried, and a worker started for other jobs of shared compute runs it. -/
theorem retried_undo_is_handled :
    (deliversByTag (configureStart ⟨.redis none, .embedding⟩ (.jobs [.shared])).provider
          ["job-target:shared"] (requeuedJob .null "UndoWorker" .shared) = true ↔
        (WorkerStart.jobs [.shared]).serves "UndoWorker" .shared) ∧
      ((WorkerStart.jobs [.shared]).serves "UndoWorker" .shared →
        "UndoWorker" ∈ connect (Edition.workers .community) .jobs) :=
  delivered_is_handled matchesTags_deliversByTag ⟨.redis none, .embedding⟩
    (show workerStartFromMode (.workerOnly ["job-target:shared"]) = .ok (.jobs [.shared])
      from by decide) (.requeue .null "UndoWorker" (by decide))

end Yorishiro.Queue
