import Yorishiro.Base.Error
import Yorishiro.Schedule.Tick

/-!
# The cadence of a schedule

Operators store schedules with `set`, which refuses an interval that does not parse, is shorter
than five minutes or reaches beyond the last instant. A tick reads the stored text again and gives
up, for every tenant, when it cannot schedule the next run. `scheduler_keeps_up` says that this
never happens: what `set` has stored stops no tick, and after a tick that succeeds nobody is
overdue. `reindexes_spaced` says how often a tenant is reindexed: the first time one interval after
the schedule was stored, and from then on at least one interval after the time before.
-/

set_option autoImplicit false

namespace Yorishiro.Schedule

open Yorishiro.Lib Yorishiro.Lib.Transition Yorishiro.Queue
open Yorishiro.Metaschema (isWhitespace)

/-! ## Storing a schedule -/

/-- The two readings of the clock by `set`, and what its insert returns. -/
structure SetGiven where
  now : Instant
  updatedAt : Instant
  insert : Except DbErr Unit

namespace SchedulerDb

/-- `set`: what it returns, and what it leaves. -/
def set (limits : ChronoLimits) (texts : Texts) (knownTimezone : String → Bool) (given : SetGiven)
    (db : SchedulerDb) (tenantId : Uuid) (interval : String) (timezone : Option String) :
    Except YorishiroError Unit × SchedulerDb :=
  let trimmed := timezone.map fun tz => String.ofList (Lines.trim isWhitespace tz.toList)
  if (Lines.trim isWhitespace interval.toList).isEmpty then
    (.error (.validationFailed "interval must not be empty" []
      "ISO 8601 duration, e.g. P1D for daily or P1W for weekly"), db)
  else if trimmed.any fun tz => !knownTimezone tz then
    (.error (.validationFailed
      ("timezone " ++ texts.debug (timezone.getD "") ++ " is not a recognized IANA time zone") []
      "Use an IANA time zone name recognized by the application."), db)
  else
    match parseInterval limits.maxSeconds interval with
    | none =>
        (.error (.validationFailed
          ("interval " ++ texts.debug interval ++ " is not a supported ISO 8601 duration") []
          ("Use weeks, days, hours, minutes or seconds, e.g. P1D for daily, P1W for weekly or " ++
            "PT6H. Years and months are not supported.")), db)
    | some every =>
        if every < minIntervalSeconds then
          (.error (.validationFailed
            ("interval " ++ texts.debug interval ++ " is shorter than 5 minutes") []
            "The shortest supported interval is PT5M."), db)
        else
          match checkedAddSigned limits given.now every with
          | none =>
              (.error (.validationFailed
                ("interval " ++ texts.debug interval ++ " is too long") []
                "Use an interval of at most a few years."), db)
          | some expected =>
              match given.insert with
              | .error err => (.error (.internal err), db)
              | .ok () =>
                  (.ok (), { db with
                    schedules := db.schedules.insert tenantId
                      ⟨interval, trimmed, some expected, given.updatedAt⟩ })

end SchedulerDb

/-- What happens: an operator stores or removes a schedule, a tick, or tenants, workspaces and the
queue change. The schedule of a tenant that is deleted is removed with it. -/
inductive ScheduleLabel where
  | set (given : SetGiven) (tenantId : Uuid) (interval : String) (timezone : Option String)
  | clear (tenantId : Uuid)
  | tick (given : TickGiven)
  | change (tenants : OrderedMap Uuid (Option Instant)) (workspaces : OrderedMap Uuid Uuid)
      (queue : QueueDb)

/-- The label stores a schedule of the tenant. -/
def ScheduleLabel.sets (tenantId : Uuid) : ScheduleLabel → Prop
  | set _ l _ _ => l = tenantId
  | _ => False

/-- The clocks have not been read before 1970. -/
def ScheduleLabel.sinceEpoch : ScheduleLabel → Prop
  | set given _ _ _ => 0 ≤ given.now
  | tick given => 0 ≤ given.tick
  | _ => True

/-- The state after a label. -/
def SchedulerDb.next (limits : ChronoLimits) (texts : Texts) (knownTimezone : String → Bool)
    (db : SchedulerDb) : ScheduleLabel → SchedulerDb
  | .set given tenantId interval timezone =>
      (db.set limits texts knownTimezone given tenantId interval timezone).2
  | .clear tenantId => db.step limits texts (.clear tenantId)
  | .tick given => db.step limits texts (.tick given)
  | .change tenants workspaces queue => db.step limits texts (.change tenants workspaces queue)

/-- A workspace of the tenant has a new dispatch. -/
def reindexes (db db' : SchedulerDb) (tenantId : Uuid) : Bool :=
  db'.queue.outbox.rows.entries.any fun e =>
    (db.queue.outbox.get? e.1).isNone && e.2.workspaceId.any fun workspaceId =>
      decide (db.workspaces.get? workspaceId = some tenantId)

/-- The times of the ticks of a run that reindex the tenant. -/
def reindexTimes (limits : ChronoLimits) (texts : Texts) (knownTimezone : String → Bool)
    (tenantId : Uuid) : SchedulerDb → List ScheduleLabel → List Instant
  | _, [] => []
  | db, l :: ls =>
      let db' := db.next limits texts knownTimezone l
      let times := reindexTimes limits texts knownTimezone tenantId db' ls
      match l with
      | .tick given => if reindexes db db' tenantId then given.tick :: times else times
      | _ => times

/-! ## What `set` stores -/

/-- A schedule that `set` can have stored, or a tick put off: the next run is at least one interval
after 1970. -/
structure Schedulable (limits : ChronoLimits) (schedule : ReindexSchedule) (every : Nat)
    (due : Instant) : Prop where
  parsed : parseInterval limits.maxSeconds schedule.interval = some every
  least : minIntervalSeconds ≤ every
  scheduled : schedule.scheduledFor = some due
  after : (every : Int) * 1000000 ≤ due

/-- All schedules are schedulable. -/
def AllSchedulable (limits : ChronoLimits) (db : SchedulerDb) : Prop :=
  ∀ tenantId schedule, db.schedules.get? tenantId = some schedule →
    ∃ every due, Schedulable limits schedule every due

section Set

variable {limits : ChronoLimits} {texts : Texts} {knownTimezone : String → Bool}

theorem checkedAddSigned_eq_some {t next : Instant} {seconds : Nat} :
    checkedAddSigned limits t seconds = some next ↔
      t + seconds * 1000000 ≤ limits.maxInstant ∧ t + seconds * 1000000 = next := by
  unfold checkedAddSigned
  split_ifs with h
  · simp [h]
  · simp [h]

/-- What a call of `set` has done. -/
theorem set_cases (limits : ChronoLimits) (texts : Texts) (knownTimezone : String → Bool)
    (given : SetGiven) (db : SchedulerDb) (tenantId : Uuid) (interval : String)
    (timezone : Option String) :
    let result := db.set limits texts knownTimezone given tenantId interval timezone
    ((∃ e, result.1 = .error e) ∧ result.2 = db) ∨
      (result.1 = .ok () ∧ ∃ every, parseInterval limits.maxSeconds interval = some every ∧
        minIntervalSeconds ≤ every ∧ ∃ schedule : ReindexSchedule, schedule.interval = interval ∧
          schedule.scheduledFor = some (given.now + every * 1000000) ∧
          result.2 = { db with schedules := db.schedules.insert tenantId schedule }) := by
  unfold SchedulerDb.set
  dsimp only
  split_ifs with hempty htimezone
  · exact Or.inl ⟨⟨_, rfl⟩, rfl⟩
  · exact Or.inl ⟨⟨_, rfl⟩, rfl⟩
  · cases hparse : parseInterval limits.maxSeconds interval with
    | none => exact Or.inl ⟨⟨_, rfl⟩, rfl⟩
    | some every =>
        dsimp only
        split_ifs with hshort
        · exact Or.inl ⟨⟨_, rfl⟩, rfl⟩
        · cases hadd : checkedAddSigned limits given.now every with
          | none => exact Or.inl ⟨⟨_, rfl⟩, rfl⟩
          | some expected =>
              obtain ⟨-, rfl⟩ := checkedAddSigned_eq_some.mp hadd
              cases hinsert : given.insert with
              | error err => exact Or.inl ⟨⟨_, rfl⟩, rfl⟩
              | ok =>
                  exact Or.inr ⟨rfl, every, rfl, Nat.le_of_not_lt hshort, _, rfl, rfl, rfl⟩

/-- **Step lemma.** Schedules stay schedulable. -/
theorem allSchedulable_next {db : SchedulerDb} {l : ScheduleLabel} (hl : l.sinceEpoch)
    (h : AllSchedulable limits db) :
    AllSchedulable limits (db.next limits texts knownTimezone l) := by
  intro tenantId schedule hget
  cases l with
  | set given l interval timezone =>
      change 0 ≤ given.now at hl
      rcases set_cases limits texts knownTimezone given db l interval timezone with
        ⟨-, hsame⟩ | ⟨-, every, hparse, hleast, stored, hof, hfor, hset⟩
      · rw [SchedulerDb.next, hsame] at hget
        exact h tenantId schedule hget
      · rw [SchedulerDb.next, hset] at hget
        rcases OrderedMap.get?_insert_eq_some hget with ⟨-, rfl⟩ | ⟨-, hold⟩
        · exact ⟨every, _, by rw [hof]; exact hparse, hleast, hfor, le_add_of_nonneg_left hl⟩
        · exact h tenantId schedule hold
  | clear l => exact h tenantId schedule (OrderedMap.get?_erase_eq_some hget).2
  | tick given =>
      change 0 ≤ given.tick at hl
      change (tick limits texts given db).2.schedules.get? tenantId = some schedule at hget
      rcases tick_cases limits texts given db with ⟨hsame, -⟩ | hticked
      · rw [hsame] at hget
        exact h tenantId schedule hget
      · by_cases hany : ∃ schedule, Due db given.tick tenantId schedule
        · obtain ⟨old, hdue⟩ := hany
          obtain ⟨every, hparse, -, hput⟩ := hticked.advanced tenantId old hdue
          obtain ⟨every', due, hold⟩ := h tenantId old hdue.stored
          obtain rfl : every = every' := Option.some.inj (hparse.symm.trans hold.parsed)
          rw [hput] at hget
          cases hget
          exact ⟨every, _, hparse, hold.least, rfl, le_add_of_nonneg_left hl⟩
        · rw [hticked.untouched tenantId fun schedule hdue => hany ⟨schedule, hdue⟩] at hget
          exact h tenantId schedule hget
  | change tenants workspaces queue => exact h tenantId schedule hget

/-- **Run lemma.** -/
theorem allSchedulable_run {db : SchedulerDb} {ls : List ScheduleLabel}
    (hls : ∀ l ∈ ls, l.sinceEpoch) (h : AllSchedulable limits db) :
    AllSchedulable limits (run (SchedulerDb.next limits texts knownTimezone) db ls) :=
  run_invariant (AllSchedulable limits) (fun _ _ hdb hl => allSchedulable_next hl hdb) h
    (StepsMeet.of_mem hls db)

/-- A schedulable schedule that has come to its time can be put off: its interval is no longer than
the time since 1970. -/
theorem nextRun_isSome {schedule : ReindexSchedule} {every : Nat} {due t : Instant}
    (h : Schedulable limits schedule every due) (hdue : due ≤ t)
    (ht : t + t ≤ limits.maxInstant) : (nextRun limits schedule.interval t).isSome := by
  have hfits : t + every * 1000000 ≤ limits.maxInstant :=
    (Int.add_le_add_left (h.after.trans hdue) t).trans ht
  have hnext : nextRun limits schedule.interval t = some (t + every * 1000000) := by
    unfold nextRun
    rw [h.parsed, Option.filter_some, if_pos (decide_eq_true h.least), Option.bind_some]
    exact checkedAddSigned_eq_some.mpr ⟨hfits, rfl⟩
  rw [hnext]
  rfl

end Set

/-! ## How often a tenant is reindexed -/

section Spacing

variable {limits : ChronoLimits} {texts : Texts} {knownTimezone : String → Bool} {tenantId : Uuid}
  {every : Nat}

/-- The schedule of the tenant, if there is one, has the interval and is not for a time before
`start`. -/
def Waits (limits : ChronoLimits) (tenantId : Uuid) (every : Nat) (start : Instant)
    (db : SchedulerDb) : Prop :=
  ∀ schedule, db.schedules.get? tenantId = some schedule →
    parseInterval limits.maxSeconds schedule.interval = some every ∧
      ∀ due, schedule.scheduledFor = some due → start ≤ due

/-- A tick that reindexes the tenant found its schedule due. -/
theorem due_of_reindexes {given : TickGiven} {db : SchedulerDb}
    (h : reindexes db (tick limits texts given db).2 tenantId = true) :
    Ticked limits given.tick db (tick limits texts given db).2 ∧
      ∃ schedule, Due db given.tick tenantId schedule := by
  obtain ⟨⟨id, d⟩, hmem, hnew⟩ := List.any_eq_true.mp h
  rw [Bool.and_eq_true] at hnew
  obtain ⟨hnone, hworkspace⟩ := hnew
  obtain ⟨workspaceId, hof, howner⟩ := (Option.any_eq_true _ _).mp hworkspace
  have hdispatches : Dispatches db.queue (tick limits texts given db).2.queue workspaceId id :=
    ⟨Option.isNone_iff_eq_none.mp hnone, d, (OrderedMap.mem_entries_iff _ _ _).mp hmem, hof⟩
  rcases tick_cases limits texts given db with ⟨hsame, -⟩ | hticked
  · obtain ⟨hnone, d, hd, -⟩ := hdispatches
    rw [hsame, hnone] at hd
    cases hd
  · obtain ⟨⟨tenantId', schedule, howner', hdue⟩, -⟩ := hticked.queued workspaceId id hdispatches
    rw [of_decide_eq_true howner] at howner'
    cases howner'
    exact ⟨hticked, schedule, hdue⟩

/-- After a tick that found the schedule due, the tenant waits for one interval. -/
theorem waits_of_ticked {t start : Instant} {db db' : SchedulerDb} {schedule : ReindexSchedule}
    (hticked : Ticked limits t db db') (hdue : Due db t tenantId schedule)
    (h : Waits limits tenantId every start db) :
    Waits limits tenantId every (t + every * 1000000) db' := by
  intro schedule' hget
  obtain ⟨every', hparse, -, hput⟩ := hticked.advanced tenantId schedule hdue
  obtain ⟨hevery, -⟩ := h schedule hdue.stored
  obtain rfl : every' = every := Option.some.inj (hparse.symm.trans hevery)
  rw [hput] at hget
  cases hget
  exact ⟨hparse, fun due hfor => by cases hfor; exact le_rfl⟩

theorem Waits.mono {start start' : Instant} {db : SchedulerDb} (hle : start' ≤ start)
    (h : Waits limits tenantId every start db) : Waits limits tenantId every start' db :=
  fun schedule hget =>
    ⟨(h schedule hget).1, fun due hfor => hle.trans ((h schedule hget).2 due hfor)⟩

/-- A schedule that waits is not due before its time. -/
theorem Waits.start_le {t start : Instant} {db : SchedulerDb} {schedule : ReindexSchedule}
    (h : Waits limits tenantId every start db) (hdue : Due db t tenantId schedule) : start ≤ t := by
  obtain ⟨due, hfor, harrived⟩ := hdue.arrived
  exact ((h schedule hdue.stored).2 due hfor).trans harrived

/-- **Step lemma.** A tenant goes on waiting while no schedule is stored for it. -/
theorem Waits.next (texts : Texts) (knownTimezone : String → Bool) {start : Instant}
    {db : SchedulerDb} {l : ScheduleLabel} (hl : ¬ l.sets tenantId)
    (h : Waits limits tenantId every start db) :
    Waits limits tenantId every start (db.next limits texts knownTimezone l) := by
  cases l with
  | set given l interval timezone =>
      intro schedule hget
      rcases set_cases limits texts knownTimezone given db l interval timezone with
        ⟨-, hsame⟩ | ⟨-, -, -, -, stored, -, -, hset⟩
      · rw [SchedulerDb.next, hsame] at hget
        exact h schedule hget
      · rw [SchedulerDb.next, hset] at hget
        rcases OrderedMap.get?_insert_eq_some hget with ⟨heq, -⟩ | ⟨-, hold⟩
        · exact absurd heq.symm hl
        · exact h schedule hold
  | clear l => exact fun schedule hget => h schedule (OrderedMap.get?_erase_eq_some hget).2
  | tick given =>
      change Waits limits tenantId every start (tick limits texts given db).2
      rcases tick_cases limits texts given db with ⟨hsame, -⟩ | hticked
      · rw [hsame]
        exact h
      · by_cases hany : ∃ schedule, Due db given.tick tenantId schedule
        · obtain ⟨schedule, hdue⟩ := hany
          have hlater : given.tick ≤ given.tick + every * 1000000 :=
            le_add_of_nonneg_right (by positivity)
          exact (waits_of_ticked hticked hdue h).mono ((h.start_le hdue).trans hlater)
        · intro schedule hget
          rw [hticked.untouched tenantId fun schedule hdue => hany ⟨schedule, hdue⟩] at hget
          exact h schedule hget
  | change tenants workspaces queue => exact h

/-- **Run lemma.** From a state in which the tenant waits, it is not reindexed before its time, and
from then on with an interval between. -/
theorem spaced_of_waits {start : Instant} {db : SchedulerDb} {ls : List ScheduleLabel}
    (hls : ∀ l ∈ ls, ¬ l.sets tenantId) (h : Waits limits tenantId every start db) :
    (∀ t ∈ reindexTimes limits texts knownTimezone tenantId db ls, start ≤ t) ∧
      (reindexTimes limits texts knownTimezone tenantId db ls).Pairwise
        fun t t' => t + (every : Int) * 1000000 ≤ t' := by
  induction ls generalizing db start with
  | nil => exact ⟨nofun, List.Pairwise.nil⟩
  | cons l ls ih =>
      have hrest := fun l' hl' => hls l' (List.mem_cons_of_mem l hl')
      have hgoes := ih hrest (h.next texts knownTimezone (hls l List.mem_cons_self))
      cases l with
      | set given l interval timezone => exact hgoes
      | clear l => exact hgoes
      | change tenants workspaces queue => exact hgoes
      | tick given =>
          simp only [reindexTimes]
          split_ifs with hreindexes
          · obtain ⟨hticked, schedule, hdue⟩ := due_of_reindexes hreindexes
            have hstart := h.start_le hdue
            obtain ⟨hlater, hspaced⟩ := ih hrest (waits_of_ticked hticked hdue h)
            refine ⟨fun t ht => ?_, List.pairwise_cons.mpr ⟨hlater, hspaced⟩⟩
            rcases List.mem_cons.mp ht with rfl | ht
            · exact hstart
            · exact hgoes.1 t ht
          · exact hgoes

end Spacing

/-! ## Main results -/

section Main

variable (limits : ChronoLimits) (texts : Texts) (knownTimezone : String → Bool)

/-- **The scheduler keeps up.** After any calls from an empty table, a tick whose own calls succeed
commits, whatever intervals have been stored: each workspace of an active tenant whose schedule is
due gets one reindex, and after the tick every schedule of an active tenant is for a later time. -/
theorem scheduler_keeps_up {start : SchedulerDb} (hstart : start.schedules = .empty)
    (ls : List ScheduleLabel) (hls : ∀ l ∈ ls, l.sinceEpoch) {given : TickGiven}
    (hsucceeds : Succeeds given) (hrange : given.tick + given.tick ≤ limits.maxInstant) :
    let db := run (SchedulerDb.next limits texts knownTimezone) start ls
    (∀ workspaceId,
      db.queue.lifecycles.get? (given.dispatch workspaceId).lifecycleId = none ∧
        db.queue.outbox.get? (given.dispatch workspaceId).lifecycleId = none) →
    (tick limits texts given db).1 = .ok () ∧
      (∀ workspaceId, DueWorkspace db given.tick workspaceId →
        ∃! id, Dispatches db.queue (tick limits texts given db).2.queue workspaceId id) ∧
      ∀ tenantId schedule, db.tenants.get? tenantId = some none →
        (tick limits texts given db).2.schedules.get? tenantId = some schedule →
          ∃ due, schedule.scheduledFor = some due ∧ given.tick < due := by
  intro db hfree
  have hall : AllSchedulable limits db :=
    allSchedulable_run hls fun tenantId schedule hget => by rw [hstart] at hget; cases hget
  have hnext : ∀ tenantId schedule, Due db given.tick tenantId schedule →
      (nextRun limits schedule.interval given.tick).isSome := by
    intro tenantId schedule hdue
    obtain ⟨every, due, hschedulable⟩ := hall tenantId schedule hdue.stored
    obtain ⟨due', hfor, harrived⟩ := hdue.arrived
    obtain rfl : due' = due := Option.some.inj (hfor.symm.trans hschedulable.scheduled)
    exact nextRun_isSome hschedulable harrived hrange
  obtain ⟨hok, hticked⟩ := tick_commits hsucceeds hnext hfree
  refine ⟨hok, hticked.dispatched, fun tenantId schedule hactive hget => ?_⟩
  by_cases hany : ∃ schedule, Due db given.tick tenantId schedule
  · obtain ⟨old, hdue⟩ := hany
    obtain ⟨every, -, hlater, hput⟩ := hticked.advanced tenantId old hdue
    rw [hput] at hget
    cases hget
    exact ⟨_, rfl, hlater⟩
  · rw [hticked.untouched tenantId fun schedule hdue => hany ⟨schedule, hdue⟩] at hget
    obtain ⟨every, due, hschedulable⟩ := hall tenantId schedule hget
    refine ⟨due, hschedulable.scheduled, lt_of_not_ge fun harrived => hany ⟨schedule, ?_⟩⟩
    exact ⟨hget, ⟨due, hschedulable.scheduled, harrived⟩, hactive⟩

/-- **Reindexes are spaced.** A schedule that is stored has an interval of five minutes or more.
Until it is stored anew, whatever else is called, the tenant is reindexed no earlier than one
interval after it was stored, and then never twice within one interval. -/
theorem reindexes_spaced {given : SetGiven} {db : SchedulerDb} {tenantId : Uuid}
    {interval : String} {timezone : Option String}
    (hset : (db.set limits texts knownTimezone given tenantId interval timezone).1 = .ok ()) :
    ∃ every : Nat, parseInterval limits.maxSeconds interval = some every ∧
      minIntervalSeconds ≤ every ∧ ∀ ls : List ScheduleLabel, (∀ l ∈ ls, ¬ l.sets tenantId) →
        (given.now :: reindexTimes limits texts knownTimezone tenantId
          (db.set limits texts knownTimezone given tenantId interval timezone).2 ls).Pairwise
            fun t t' => t + (every : Int) * 1000000 ≤ t' := by
  rcases set_cases limits texts knownTimezone given db tenantId interval timezone with
    ⟨⟨e, herror⟩, -⟩ | ⟨-, every, hparse, hleast, hstored⟩
  · rw [hset] at herror
    cases herror
  · obtain ⟨schedule, hof, hfor, hdb⟩ := hstored
    refine ⟨every, hparse, hleast, fun ls hls => ?_⟩
    have hwaits : Waits limits tenantId every (given.now + every * 1000000)
        (db.set limits texts knownTimezone given tenantId interval timezone).2 := by
      intro schedule' hget
      rw [hdb, OrderedMap.get?_insert_self] at hget
      cases hget
      rw [hof]
      exact ⟨hparse, fun due hdue => by rw [hfor] at hdue; cases hdue; exact le_rfl⟩
    obtain ⟨hlater, hspaced⟩ := spaced_of_waits hls hwaits
    exact List.pairwise_cons.mpr ⟨hlater, hspaced⟩

end Main

/-! ### A schedule of five minutes -/

/-- Any durations and instants of some two hundred years, and plain texts. -/
def centuries : ChronoLimits := ⟨2 ^ 53, 2 ^ 62⟩

def plainTexts : Texts := ⟨id, fun _ => ""⟩

/-- Two workspaces of a tenant that has no schedule. -/
def unscheduled : SchedulerDb := { twoWorkspaces with schedules := .empty }

theorem succeeds_smoothTick (t : Instant) : Succeeds (smoothTick t) where
  ownership := rfl
  begin := rfl
  readSchedules := rfl
  readTenant := fun _ => rfl
  readWorkspaces := fun _ => rfl
  workerClass := fun _ => ⟨_, rfl⟩
  updateSchedule := fun _ => rfl
  target := fun _ => ⟨_, rfl⟩
  policy := fun _ => ⟨_, rfl⟩
  record := fun _ => rfl
  lifecycleId := fun _ _ h => h
  commit := rfl
  release := rfl

/-- The schedule is stored at 0, and the tick at five minutes reindexes its workspaces. -/
theorem scheduler_keeps_up_fiveMinutes :
    let db := run (SchedulerDb.next centuries plainTexts fun _ => true) unscheduled
      [.set ⟨0, 0, .ok ()⟩ 1 "PT5M" none]
    (tick centuries plainTexts (smoothTick 300000000) db).1 = .ok () ∧
      ∃! id, Dispatches db.queue
        (tick centuries plainTexts (smoothTick 300000000) db).2.queue 2 id := by
  intro db
  have hqueue : db.queue = QueueDb.empty := by
    change (SchedulerDb.set centuries plainTexts (fun _ => true) ⟨0, 0, .ok ()⟩ unscheduled 1 "PT5M"
      none).2.queue = _
    rcases set_cases centuries plainTexts (fun _ => true) ⟨0, 0, .ok ()⟩ unscheduled 1 "PT5M" none
      with ⟨-, hdb⟩ | ⟨-, _, -, -, _, -, -, hdb⟩
    · rw [hdb]
      rfl
    · rw [hdb]
      rfl
  have hrows : db.schedules.get? 1 = some ⟨"PT5M", none, some 300000000, 0⟩ ∧
      db.workspaces.get? 2 = some 1 ∧ db.tenants.get? 1 = some none := by
    decide
  obtain ⟨hstored, hworkspace, htenant⟩ := hrows
  obtain ⟨hok, hdispatched, -⟩ := scheduler_keeps_up centuries plainTexts (fun _ => true) rfl
    [.set ⟨0, 0, .ok ()⟩ 1 "PT5M" none] (by simp [ScheduleLabel.sinceEpoch])
    (succeeds_smoothTick 300000000) (by decide) fun workspaceId => by
      change db.queue.lifecycles.get? workspaceId = none ∧ db.queue.outbox.get? workspaceId = none
      rw [hqueue]
      exact ⟨rfl, rfl⟩
  refine ⟨hok, hdispatched 2 ⟨1, _, hworkspace, hstored, ⟨_, rfl, ?_⟩, htenant⟩⟩
  exact le_refl (300000000 : Int)

/-- Between the store at 0 and the tick at five minutes lies the interval. -/
theorem reindexes_spaced_fiveMinutes :
    ∃ every : Nat, parseInterval centuries.maxSeconds "PT5M" = some every ∧
      ((0 : Instant) :: reindexTimes centuries plainTexts (fun _ => true) 1
        (unscheduled.set centuries plainTexts (fun _ => true) ⟨0, 0, .ok ()⟩ 1 "PT5M" none).2
          [.tick (smoothTick 200000000), .tick (smoothTick 300000000)]).Pairwise
            fun t t' => t + (every : Int) * 1000000 ≤ t' := by
  have hset : (unscheduled.set centuries plainTexts (fun _ => true) ⟨0, 0, .ok ()⟩ 1 "PT5M" none).1 =
      .ok () := by rfl
  obtain ⟨every, hparse, -, hspaced⟩ := reindexes_spaced centuries plainTexts (fun _ => true) hset
  exact ⟨every, hparse, hspaced _ (by simp [ScheduleLabel.sets])⟩

-- of the two ticks, the second one reindexes
example : reindexTimes centuries plainTexts (fun _ => true) 1
    (unscheduled.set centuries plainTexts (fun _ => true) ⟨0, 0, .ok ()⟩ 1 "PT5M" none).2
      [.tick (smoothTick 200000000), .tick (smoothTick 300000000)] = [300000000] := by
  decide

end Yorishiro.Schedule
