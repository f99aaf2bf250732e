import Yorishiro.Lib.Transition
import Yorishiro.Maintenance.Switch

/-!
# The load guard

Every process that serves HTTP may run a guard that samples the number of active connections
and moves the deployment between `off` and an automatic read-only mode. A guard takes three
separate steps a round: it counts the connections, it reads the row and decides, and it
writes its decision with `set_if_current`. Between them operators and other guards write the
same row.

A guard's history is what is left of its rounds (`after_busySince`, `after_quietSince`), so a
round decides on a switch exactly when the newest rounds were alike for the sustain window
(`runStep_transition_iff`). Over any interleaving, what an operator has switched on stays
until an operator changes it (`operator_setting_survives`), and whatever else changes the row
is a guard with such a window behind it (`switched_under_sustained_load`).
-/

set_option autoImplicit false

namespace Yorishiro.Maintenance.LoadGuard

open Yorishiro.Lib
open Yorishiro.Lib.Transition
open Yorishiro.Maintenance

/-! ## Settings -/

/-- `DbLoadGuard`, with what `validate_settings` asks of it. -/
structure DbLoadGuard where
  threshold : Int
  sustainSeconds : Nat
  pollSeconds : Nat
  sustainCheck : 0 < sustainSeconds
  pollCheck : 0 < pollSeconds

/-- `LoadGuardConfig`; durations are in seconds. -/
structure LoadGuardConfig where
  threshold : Int
  sustain : Nat
  poll : Nat
  enabled : 0 < threshold
  sustainCheck : 0 < sustain

/-- `from_settings`. -/
def LoadGuardConfig.fromSettings (settings : DbLoadGuard) : Option LoadGuardConfig :=
  if h : settings.threshold ≤ 0 then none
  else
    some
      { threshold := settings.threshold
        sustain := settings.sustainSeconds
        poll := settings.pollSeconds
        enabled := Int.lt_of_not_ge h
        sustainCheck := settings.sustainCheck }

/-! ## One round -/

/-- `decide`. -/
def decideMode (current : MaintenanceState) (busyFor quietFor sustain : Nat) :
    Option MaintenanceMode :=
  match current.mode with
  | .off => if sustain ≤ busyFor then some .readOnly else none
  | .readOnly =>
      if current.reason = some autoReason ∧ sustain ≤ quietFor then some .off else none
  | .fullLock => none

/-- `LoadHistory`. -/
structure LoadHistory where
  busySince : Option Nat := none
  quietSince : Option Nat := none
deriving DecidableEq, Repr

/-- The time since `since`, which is zero where there is none. -/
def elapsed (since : Option Nat) (now : Nat) : Nat := (since.map (now - ·)).getD 0

/-- `reset`. -/
def LoadHistory.reset (_ : LoadHistory) : LoadHistory := {}

/-- The history `observe` leaves. -/
def LoadHistory.observed (history : LoadHistory) (busy : Bool) (now : Nat) : LoadHistory :=
  if busy then { busySince := some (history.busySince.getD now), quietSince := none }
  else { busySince := none, quietSince := some (history.quietSince.getD now) }

/-- `observe`: how long the database has been busy and quiet, and the history after it. -/
def LoadHistory.observe (history : LoadHistory) (busy : Bool) (now : Nat) :
    (Nat × Nat) × LoadHistory :=
  let after := history.observed busy now
  ((elapsed after.busySince now, elapsed after.quietSince now), after)

/-- `StepOutcome`. -/
inductive StepOutcome where
  | proceed
  | transition (current : MaintenanceState) (mode : MaintenanceMode)
deriving DecidableEq

/-- `run_step`. -/
def runStep (history : LoadHistory) (active : Except Unit Int)
    (current : Except Unit MaintenanceState) (threshold : Int) (sustain now : Nat) :
    StepOutcome × LoadHistory :=
  match active with
  | .error _ => (.proceed, history.reset)
  | .ok active =>
      let ((busyFor, quietFor), history) := history.observe (decide (threshold ≤ active)) now
      match current with
      | .error _ => (.proceed, history.reset)
      | .ok current =>
          match decideMode current busyFor quietFor sustain with
          | none => (.proceed, history)
          | some mode => (.transition current mode, history)

/-! ## What a history remembers

A round samples the load, or cannot read what it needs, or switches the mode; a history is a
function of the rounds, newest first. -/

/-- What a round of the guard comes to: a count of connections and its time, nothing that can
be used, or a switch. -/
inductive Round where
  | sampled (active : Int) (now : Nat)
  | blind
  | switched
deriving DecidableEq

/-- The history that the rounds leave. -/
def historyOf (threshold : Int) : List Round → LoadHistory
  | .sampled active now :: rounds =>
      (historyOf threshold rounds).observed (decide (threshold ≤ active)) now
  | _ => {}

/-- Since when the database has been busy, or quiet. -/
def LoadHistory.since (history : LoadHistory) (busy : Bool) : Option Nat :=
  if busy then history.busySince else history.quietSince

/-- The times of the newest rounds that were all busy, or all quiet. -/
def streak (threshold : Int) (busy : Bool) : List Round → List Nat
  | .sampled active now :: rounds =>
      if decide (threshold ≤ active) = busy then now :: streak threshold busy rounds else []
  | _ => []

/-- No round is later than the clock, or than a newer round. -/
def Timed : Nat → List Round → Prop
  | _, [] => True
  | clock, .sampled _ now :: rounds => now ≤ clock ∧ Timed now rounds
  | clock, _ :: rounds => Timed clock rounds

/-- The newest rounds all counted a busy database, or all a quiet one, over the window. -/
def Sustained (threshold : Int) (busy : Bool) (sustain : Nat) (rounds : List Round) : Prop :=
  ∃ samples : List (Int × Nat), ∃ newest oldest : Int × Nat, ∃ before : List Round,
    rounds = samples.map (fun sample => .sampled sample.1 sample.2) ++ before ∧
      (∀ sample ∈ samples, decide (threshold ≤ sample.1) = busy) ∧
      samples.head? = some newest ∧ samples.getLast? = some oldest ∧
      sustain ≤ newest.2 - oldest.2

section History

variable {threshold : Int} {busy : Bool}

theorem since_observed_same (history : LoadHistory) (now : Nat) :
    (history.observed busy now).since busy = some ((history.since busy).getD now) := by
  cases busy <;> rfl

theorem since_observed_other {other : Bool} (hne : other ≠ busy) (history : LoadHistory)
    (now : Nat) : (history.observed other now).since busy = none := by
  cases busy <;> cases other <;> first | rfl | exact absurd rfl hne

/-- A history is the start of the newest rounds that were alike. -/
theorem historyOf_since (rounds : List Round) :
    (historyOf threshold rounds).since busy = (streak threshold busy rounds).getLast? := by
  induction rounds with
  | nil => cases busy <;> rfl
  | cons round rounds ih =>
      cases round with
      | blind => cases busy <;> rfl
      | switched => cases busy <;> rfl
      | sampled active now =>
          by_cases h : decide (threshold ≤ active) = busy
          · subst h
            rw [historyOf, since_observed_same, streak, if_pos rfl, ih, List.getLast?_cons]
          · rw [historyOf, since_observed_other h, streak, if_neg h]
            rfl

theorem Timed.mono {clock clock' : Nat} (hle : clock ≤ clock') {rounds : List Round}
    (h : Timed clock rounds) : Timed clock' rounds := by
  induction rounds with
  | nil => trivial
  | cons round rounds ih =>
      cases round with
      | blind => exact ih h
      | switched => exact ih h
      | sampled active now => exact ⟨le_trans h.1 hle, h.2⟩

/-- The times of a streak go back from the clock. -/
theorem streak_sorted (threshold : Int) (busy : Bool) {clock : Nat} {rounds : List Round}
    (h : Timed clock rounds) :
    (clock :: streak threshold busy rounds).Pairwise (fun a b => b ≤ a) := by
  induction rounds generalizing clock with
  | nil => exact List.pairwise_singleton _ _
  | cons round rounds ih =>
      cases round with
      | blind => exact List.pairwise_singleton _ _
      | switched => exact List.pairwise_singleton _ _
      | sampled active now =>
          rw [streak]
          split_ifs
          · have htail := ih h.2
            refine List.pairwise_cons.mpr ⟨fun t ht => ?_, htail⟩
            rcases List.mem_cons.mp ht with rfl | ht
            · exact h.1
            · exact le_trans ((List.pairwise_cons.mp htail).1 t ht) h.1
          · exact List.pairwise_singleton _ _

theorem exists_samples (threshold : Int) (busy : Bool) (rounds : List Round) :
    ∃ samples : List (Int × Nat), ∃ before : List Round,
      rounds = samples.map (fun sample => .sampled sample.1 sample.2) ++ before ∧
        (∀ sample ∈ samples, decide (threshold ≤ sample.1) = busy) ∧
        streak threshold busy rounds = samples.map Prod.snd := by
  induction rounds with
  | nil => exact ⟨[], [], rfl, fun _ h => absurd h List.not_mem_nil, rfl⟩
  | cons round rounds ih =>
      cases round with
      | blind => exact ⟨[], _, rfl, fun _ h => absurd h List.not_mem_nil, rfl⟩
      | switched => exact ⟨[], _, rfl, fun _ h => absurd h List.not_mem_nil, rfl⟩
      | sampled active now =>
          by_cases h : decide (threshold ≤ active) = busy
          · obtain ⟨samples, before, hrounds, hall, hstreak⟩ := ih
            refine ⟨(active, now) :: samples, before, ?_, ?_, ?_⟩
            · rw [hrounds]
              rfl
            · intro sample hmem
              rcases List.mem_cons.mp hmem with rfl | hmem
              · exact h
              · exact hall sample hmem
            · rw [streak, if_pos h, hstreak]
              rfl
          · exact ⟨[], _, rfl, fun _ h => absurd h List.not_mem_nil, by rw [streak, if_neg h]; rfl⟩

theorem streak_samples {samples : List (Int × Nat)}
    (hall : ∀ sample ∈ samples, decide (threshold ≤ sample.1) = busy) (before : List Round) :
    streak threshold busy (samples.map (fun sample => .sampled sample.1 sample.2) ++ before) =
      samples.map Prod.snd ++ streak threshold busy before := by
  induction samples with
  | nil => rfl
  | cons sample samples ih =>
      have htail := ih fun other hmem => hall other (List.mem_cons_of_mem _ hmem)
      simp only [List.map_cons, List.cons_append, streak,
        if_pos (hall sample List.mem_cons_self), htail]

/-- A window is sustained when the whole streak covers it. -/
theorem sustained_iff {sustain clock : Nat} {rounds : List Round} (h : Timed clock rounds) :
    Sustained threshold busy sustain rounds ↔
      ∃ newest oldest, (streak threshold busy rounds).head? = some newest ∧
        (streak threshold busy rounds).getLast? = some oldest ∧ sustain ≤ newest - oldest := by
  constructor
  · rintro ⟨samples, newest, oldest, before, rfl, hall, hhead, hlast, hlong⟩
    have hsplit := streak_samples hall before
    have hsorted := (streak_sorted threshold busy h).of_cons
    have hhead' : (samples.map Prod.snd).head? = some newest.2 := by
      rw [List.head?_map, hhead]
      rfl
    have hlast' : (samples.map Prod.snd).getLast? = some oldest.2 := by
      rw [List.getLast?_map, hlast]
      rfl
    rw [hsplit] at hsorted ⊢
    rw [List.head?_append, hhead', List.getLast?_append, hlast']
    -- A streak that goes further back than the samples is at least as long.
    cases hrest : (streak threshold busy before).getLast? with
    | none => exact ⟨newest.2, oldest.2, rfl, rfl, hlong⟩
    | some start =>
        have hle : start ≤ oldest.2 := (List.pairwise_append.mp hsorted).2.2 oldest.2
          (List.mem_of_getLast? hlast') start (List.mem_of_getLast? hrest)
        exact ⟨newest.2, start, rfl, rfl, by omega⟩
  · rintro ⟨newest, oldest, hhead, hlast, hlong⟩
    obtain ⟨samples, before, hrounds, hall, hstreak⟩ :=
      exists_samples threshold busy rounds
    rw [hstreak, List.head?_map, Option.map_eq_some_iff] at hhead
    rw [hstreak, List.getLast?_map, Option.map_eq_some_iff] at hlast
    obtain ⟨first, hfirst, rfl⟩ := hhead
    obtain ⟨last, hlast, rfl⟩ := hlast
    exact ⟨samples, first, last, before, hrounds, hall, hfirst, hlast, hlong⟩

/-- What `observe` returns says whether the window is sustained. -/
theorem sustained_elapsed (threshold : Int) (busy : Bool) {sustain now : Nat} (active : Int)
    {rounds : List Round} (hsustain : 0 < sustain) (h : Timed now rounds) :
    sustain ≤ elapsed ((historyOf threshold (.sampled active now :: rounds)).since busy) now ↔
      Sustained threshold busy sustain (.sampled active now :: rounds) := by
  have htimed : Timed now (.sampled active now :: rounds) := ⟨le_refl now, h⟩
  rw [sustained_iff htimed, historyOf_since, streak]
  split_ifs with hload
  · rw [List.getLast?_cons]
    exact ⟨fun hle => ⟨now, _, rfl, rfl, hle⟩, fun ⟨_, _, rfl, rfl, hle⟩ => hle⟩
  · constructor
    · intro hle
      exact absurd hsustain (Nat.not_lt.mpr hle)
    · rintro ⟨_, _, hhead, -⟩
      cases hhead

end History

/-- The switch that a state and the rounds of a guard warrant. -/
def Warranted (config : LoadGuardConfig) (rounds : List Round) (current : MaintenanceState)
    (mode : MaintenanceMode) : Prop :=
  (current.mode = .off ∧ mode = .readOnly ∧
      Sustained config.threshold true config.sustain rounds) ∨
    (current.mode = .readOnly ∧ current.reason = some autoReason ∧ mode = .off ∧
      Sustained config.threshold false config.sustain rounds)

theorem decideMode_eq_some {current : MaintenanceState} {busyFor quietFor sustain : Nat}
    {mode : MaintenanceMode} :
    decideMode current busyFor quietFor sustain = some mode ↔
      (current.mode = .off ∧ mode = .readOnly ∧ sustain ≤ busyFor) ∨
        (current.mode = .readOnly ∧ current.reason = some autoReason ∧ mode = .off ∧
          sustain ≤ quietFor) := by
  obtain ⟨m, retryAfter, reason⟩ := current
  cases m with
  | off => simp [decideMode, eq_comm, and_comm]
  | readOnly => simp [decideMode, eq_comm, and_assoc, and_comm]
  | fullLock => simp [decideMode]

/-- What is decided at a time with the history that the rounds leave. -/
def decided (config : LoadGuardConfig) (rounds : List Round) (now : Nat)
    (current : MaintenanceState) : Option MaintenanceMode :=
  let history := historyOf config.threshold rounds
  decideMode current (elapsed (history.since true) now) (elapsed (history.since false) now)
    config.sustain

theorem decided_eq_some {config : LoadGuardConfig} {rounds : List Round} {now : Nat}
    (h : Timed now rounds) {count : Int} {current : MaintenanceState} {mode : MaintenanceMode} :
    decided config (.sampled count now :: rounds) now current = some mode ↔
      Warranted config (.sampled count now :: rounds) current mode := by
  have hbusy := sustained_elapsed config.threshold true count config.sustainCheck h
  have hquiet := sustained_elapsed config.threshold false count config.sustainCheck h
  rw [decided, decideMode_eq_some, hbusy, hquiet, Warranted]

/-- A round that reads both counts, and decides with the history of the rounds up to it. -/
theorem runStep_ok (config : LoadGuardConfig) (rounds : List Round) (count : Int)
    (current : MaintenanceState) (now : Nat) :
    runStep (historyOf config.threshold rounds) (.ok count) (.ok current) config.threshold
        config.sustain now =
      (match decided config (.sampled count now :: rounds) now current with
        | none => .proceed
        | some mode => .transition current mode,
      historyOf config.threshold (.sampled count now :: rounds)) := by
  have hstep : runStep (historyOf config.threshold rounds) (.ok count) (.ok current)
      config.threshold config.sustain now =
      match decided config (.sampled count now :: rounds) now current with
      | none => (.proceed, historyOf config.threshold (.sampled count now :: rounds))
      | some mode =>
          (.transition current mode, historyOf config.threshold (.sampled count now :: rounds)) :=
    rfl
  rw [hstep]
  cases decided config (.sampled count now :: rounds) now current with
  | none => rfl
  | some mode => rfl

/-- A round decides on a switch exactly when both reads succeeded and the rounds up to it
warrant one. -/
theorem runStep_transition_iff (config : LoadGuardConfig) (rounds : List Round) {now : Nat}
    (h : Timed now rounds) (active : Except Unit Int) (current : Except Unit MaintenanceState)
    (seen : MaintenanceState) (mode : MaintenanceMode) :
    (runStep (historyOf config.threshold rounds) active current config.threshold config.sustain
        now).1 = .transition seen mode ↔
      ∃ count, active = .ok count ∧ current = .ok seen ∧
        Warranted config (.sampled count now :: rounds) seen mode := by
  cases active with
  | error e => exact ⟨fun h => (nomatch h), fun ⟨_, h, _⟩ => (nomatch h)⟩
  | ok count =>
      cases current with
      | error e => exact ⟨fun h => (nomatch h), fun ⟨_, _, h, _⟩ => (nomatch h)⟩
      | ok state =>
          rw [runStep_ok]
          constructor
          · intro htransition
            cases hdecided : decided config (.sampled count now :: rounds) now state with
            | none => simp only [hdecided, reduceCtorEq] at htransition
            | some decision =>
                simp only [hdecided, StepOutcome.transition.injEq] at htransition
                obtain ⟨rfl, rfl⟩ := htransition
                exact ⟨count, rfl, rfl, (decided_eq_some h).mp hdecided⟩
          · rintro ⟨_, hcount, hseen, hwarranted⟩
            cases hcount
            cases hseen
            rw [(decided_eq_some h).mpr hwarranted]

theorem ten_positive : (0 : Int) < 10 := by decide

/-- A guard that switches after thirty seconds at ten connections. -/
def thirtySeconds : LoadGuardConfig :=
  { threshold := 10, sustain := 30, poll := 5, enabled := ten_positive,
    sustainCheck := Nat.zero_lt_succ 29 }

/-- A second busy sample thirty seconds after the first decides on the switch. -/
theorem second_busy_sample_decides :
    (runStep (historyOf 10 [.sampled 12 1]) (.ok 10)
      (.ok { mode := .off, retryAfter := 300, reason := none }) 10 30 31).1 =
      .transition { mode := .off, retryAfter := 300, reason := none } .readOnly :=
  (runStep_transition_iff thirtySeconds [.sampled 12 1] ⟨by decide, trivial⟩ _ _ _ _).mpr
    ⟨10, rfl, rfl, .inl ⟨rfl, rfl, [(10, 31), (12, 1)], (10, 31), (12, 1), [], rfl, by decide, rfl,
      rfl, by decide⟩⟩

/-! ## Guards, operators and the row -/

/-- Where a guard stands in its loop. -/
inductive Phase where
  | waiting
  | counted (active : Int)
  | deciding (current : MaintenanceState) (mode : MaintenanceMode)
deriving DecidableEq

/-- A running `run`: its settings, its history and its monotonic clock, with the rounds it has
been through. -/
structure Guard where
  config : LoadGuardConfig
  history : LoadHistory
  clock : Nat
  phase : Phase
  rounds : List Round

/-- A guard whose process has just started. -/
def Guard.fresh (config : LoadGuardConfig) : Guard :=
  { config := config, history := {}, clock := 0, phase := .waiting, rounds := [] }

/-- `active_connections` has answered. -/
def Guard.count (g : Guard) (active : Except Unit Int) : Guard :=
  match g.phase, active with
  | .waiting, .ok active => { g with phase := .counted active }
  | .waiting, .error e =>
      -- The row is not read in a round that could not count.
      let (_, history) := runStep g.history (.error e) (.error e) g.config.threshold
        g.config.sustain g.clock
      { g with history := history, rounds := .blind :: g.rounds }
  | _, _ => g

/-- The row has been read, `passed` after the round before. -/
def Guard.read (g : Guard) (passed : Nat) (current : Except Unit MaintenanceState) : Guard :=
  match g.phase with
  | .counted active =>
      let now := g.clock + passed
      let (outcome, history) := runStep g.history (.ok active) current g.config.threshold
        g.config.sustain now
      { g with
        history := history
        clock := now
        phase := match outcome with
          | .proceed => .waiting
          | .transition current mode => .deciding current mode
        rounds := match current with
          | .ok _ => .sampled active now :: g.rounds
          | .error _ => .blind :: g.rounds }
  | _ => g

/-- `set_if_current` has returned: whether it found its row, or an error. -/
def Guard.written (g : Guard) (result : Except Unit Bool) : Guard :=
  match g.phase, result with
  | .deciding _ _, .ok true =>
      { g with history := g.history.reset, phase := .waiting, rounds := .switched :: g.rounds }
  | .deciding _ _, _ => { g with phase := .waiting }
  | _, _ => g

/-- What the write of a guard does to the row, and what it returns. -/
def switchRow (row : Option MaintenanceRow) (current : MaintenanceState)
    (mode : MaintenanceMode) : Bool × Option MaintenanceRow :=
  let reason := if mode = .readOnly then some autoReason else none
  setIfCurrent row current mode current.retryAfter reason

/-- The row and the guards that are running, one for each process. -/
structure System (ι : Type) where
  row : Option MaintenanceRow
  guards : ι → Option Guard

/-- What happens next. -/
inductive Label (ι : Type) where
  /-- An operator sets the state, over HTTP or with the `maintenance` task. -/
  | operator (mode : MaintenanceMode) (retryAfter : Nat) (reason : Option String)
  | start (i : ι) (config : LoadGuardConfig)
  | stop (i : ι)
  | count (i : ι) (active : Except Unit Int)
  | read (i : ι) (passed : Nat) (readable : Bool)
  | write (i : ι)
  /-- The connection breaks during a write, which was applied or not. -/
  | lostWrite (i : ι) (applied : Bool)

section Systems

variable {ι : Type} [DecidableEq ι]

/-- The system with another guard under `i`. -/
def System.put (s : System ι) (i : ι) (g : Option Guard) : System ι :=
  { s with guards := Function.update s.guards i g }

@[simp] theorem put_row (s : System ι) (i : ι) (g : Option Guard) : (s.put i g).row = s.row := rfl

@[simp] theorem put_guards_self (s : System ι) (i : ι) (g : Option Guard) :
    (s.put i g).guards i = g := by
  simp only [System.put, Function.update_self]

theorem put_guards_of_ne (s : System ι) {i j : ι} (hne : j ≠ i) (g : Option Guard) :
    (s.put i g).guards j = s.guards j := by
  simp only [System.put, Function.update_of_ne hne]

/-- What a guard reads of the row. -/
def readRow (row : Option MaintenanceRow) (readable : Bool) : Except Unit MaintenanceState :=
  match readable, get row with
  | true, .ok current => .ok current
  | _, _ => .error ()

/-- A step of the system. -/
def step (s : System ι) : Label ι → System ι
  | .operator mode retryAfter reason =>
      match set s.row mode retryAfter reason with
      | .ok (_, row) => { s with row := some row }
      | .error _ => s
  | .start i config => s.put i (some (.fresh config))
  | .stop i => s.put i none
  | .count i active => s.put i ((s.guards i).map (·.count active))
  | .read i passed readable =>
      s.put i ((s.guards i).map (·.read passed (readRow s.row readable)))
  | .write i =>
      match s.guards i with
      | some g =>
          match g.phase with
          | .deciding current mode =>
              let (found, row) := switchRow s.row current mode
              { s.put i (some (g.written (.ok found))) with row := row }
          | _ => s
      | none => s
  | .lostWrite i applied =>
      match s.guards i with
      | some g =>
          match g.phase with
          | .deciding current mode =>
              let (_, row) := switchRow s.row current mode
              { s.put i (some (g.written (.error ()))) with
                row := if applied then row else s.row }
          | _ => s
      | none => s

/-- No guard runs yet. -/
def System.initial (row : Option MaintenanceRow) : System ι :=
  { row := row, guards := fun _ => none }

/-- The label is an operator's. -/
def Label.ByOperator : Label ι → Prop
  | .operator _ _ _ => True
  | _ => False

/-! ## What every guard knows -/

/-- A guard's history is that of its rounds, and a decision it is about to write is one that
its rounds warrant. -/
structure Guard.Sound (g : Guard) : Prop where
  history : g.history = historyOf g.config.threshold g.rounds
  timed : Timed g.clock g.rounds
  warranted : ∀ current mode, g.phase = .deciding current mode →
    Warranted g.config g.rounds current mode

theorem fresh_sound (config : LoadGuardConfig) : (Guard.fresh config).Sound :=
  { history := rfl, timed := trivial, warranted := fun _ _ h => (nomatch h) }

theorem count_sound {g : Guard} (h : g.Sound) (active : Except Unit Int) :
    (g.count active).Sound := by
  unfold Guard.count
  split
  · exact { history := h.history, timed := h.timed, warranted := fun _ _ h => (nomatch h) }
  · rename_i hphase
    refine { history := rfl, timed := h.timed, warranted := fun current mode hdeciding => ?_ }
    rw [show g.phase = .waiting from hphase] at hdeciding
    cases hdeciding
  · exact h

theorem read_sound {g : Guard} (h : g.Sound) (passed : Nat)
    (current : Except Unit MaintenanceState) : (g.read passed current).Sound := by
  have htimed : Timed (g.clock + passed) g.rounds := h.timed.mono (Nat.le_add_right _ _)
  unfold Guard.read
  split
  · rename_i active hphase
    rw [h.history]
    cases current with
    | error e =>
        exact { history := rfl, timed := htimed, warranted := fun _ _ h => (nomatch h) }
    | ok state =>
        dsimp only
        rw [runStep_ok]
        refine { history := rfl, timed := ⟨le_refl _, htimed⟩, warranted := ?_ }
        intro current mode hdeciding
        cases hdecided : decided g.config (.sampled active (g.clock + passed) :: g.rounds)
            (g.clock + passed) state with
        | none => simp only [hdecided, reduceCtorEq] at hdeciding
        | some decision =>
            simp only [hdecided, Phase.deciding.injEq] at hdeciding
            obtain ⟨rfl, rfl⟩ := hdeciding
            exact (decided_eq_some htimed).mp hdecided
  · exact h

theorem written_sound {g : Guard} (h : g.Sound) (result : Except Unit Bool) :
    (g.written result).Sound := by
  unfold Guard.written
  split
  · exact { history := rfl, timed := h.timed, warranted := fun _ _ h => (nomatch h) }
  · exact { history := h.history, timed := h.timed, warranted := fun _ _ h => (nomatch h) }
  · exact h

/-- Every guard that runs is sound. -/
def System.Sound (s : System ι) : Prop := ∀ i g, s.guards i = some g → g.Sound

theorem put_sound {s : System ι} (h : s.Sound) (i : ι) {g : Option Guard}
    (hg : ∀ g', g = some g' → g'.Sound) : (s.put i g).Sound := by
  intro j g' hj
  by_cases hij : j = i
  · subst hij
    rw [put_guards_self] at hj
    exact hg g' hj
  · rw [put_guards_of_ne s hij] at hj
    exact h j g' hj

theorem map_sound {s : System ι} (h : s.Sound) (i : ι) {f : Guard → Guard}
    (hf : ∀ g, g.Sound → (f g).Sound) : (s.put i ((s.guards i).map f)).Sound := by
  refine put_sound h i fun g' hg' => ?_
  obtain ⟨g, hg, rfl⟩ := Option.map_eq_some_iff.mp hg'
  exact hf g (h i g hg)

theorem step_sound {s : System ι} (h : s.Sound) (l : Label ι) : (step s l).Sound := by
  cases l with
  | operator mode retryAfter reason =>
      dsimp only [step]
      split <;> exact h
  | start i config =>
      refine put_sound h i fun g' hg' => ?_
      cases hg'
      exact fresh_sound config
  | stop i => exact put_sound h i fun _ hg' => (nomatch hg')
  | count i active => exact map_sound h i fun g hg => count_sound hg active
  | read i passed readable => exact map_sound h i fun g hg => read_sound hg passed _
  | write i =>
      dsimp only [step]
      split
      · rename_i g hg
        split
        · refine put_sound h i fun g' hg' => ?_
          cases hg'
          exact written_sound (h i g hg) _
        · exact h
      · exact h
  | lostWrite i applied =>
      dsimp only [step]
      split
      · rename_i g hg
        split
        · refine put_sound h i fun g' hg' => ?_
          cases hg'
          exact written_sound (h i g hg) _
        · exact h
      · exact h

theorem run_sound (row : Option MaintenanceRow) (labels : List (Label ι)) :
    (run step (.initial row) labels).Sound :=
  run_invariant System.Sound (fun _ l h _ => step_sound h l) (fun _ _ h => (nomatch h))
    (StepsMeet.of_forall (fun _ _ => trivial) _ labels)

/-! ## What the guards do to the row -/

/-- The label is a write of the guard `i` that is applied. -/
def Label.WrittenBy (l : Label ι) (i : ι) : Prop := l = .write i ∨ l = .lostWrite i true

/-- What a guard may turn a state into. -/
def Switchable (g : Guard) (seen : MaintenanceState) (mode : MaintenanceMode) : Prop :=
  Warranted g.config g.rounds seen mode

/-- The reason that a guard leaves. -/
def reasonOf (mode : MaintenanceMode) : Option String :=
  if mode = .readOnly then some autoReason else none

omit [DecidableEq ι] in
/-- A write of a guard leaves the row, or makes a warranted switch of what it reads and keeps
the interval. -/
theorem switchRow_cases {s : System ι} (hs : s.Sound) {i : ι} {g : Guard}
    (hg : s.guards i = some g) {current : MaintenanceState} {mode : MaintenanceMode}
    (hphase : g.phase = .deciding current mode) :
    (switchRow s.row current mode).2 = s.row ∨
      ∃ seen, get s.row = .ok seen ∧ Switchable g seen mode ∧
        get (switchRow s.row current mode).2 =
          .ok { mode := mode, retryAfter := seen.retryAfter, reason := reasonOf mode } := by
  cases hrow : s.row with
  | none => exact .inl rfl
  | some row =>
      rcases setIfCurrent_cases row current mode current.retryAfter (reasonOf mode) with
        hkept | ⟨hset, hmode, hretry, hreason⟩
      · exact .inl (congrArg Prod.snd hkept)
      · refine .inr ⟨⟨current.mode, row.retryAfter.toNat, row.reason⟩, ?_, ?_, ?_⟩
        · obtain ⟨m, hm, hget⟩ := get_some row
          rw [hget, asDbStr_injective (hm.symm.trans hmode)]
        · have hwarranted := (hs i g hg).warranted current mode hphase
          simp only [Switchable, Warranted, hreason] at hwarranted ⊢
          exact hwarranted
        · have hpos : 0 < toI32 current.retryAfter := hretry ▸ row.retryAfterCheck.1
          have hone : max current.retryAfter 1 = current.retryAfter := by
            refine max_eq_left (Nat.one_le_iff_ne_zero.mpr fun hzero => ?_)
            rw [hzero] at hpos
            exact absurd hpos (by decide)
          have hsnd : (switchRow (some row) current mode).2 =
              some (.of mode current.retryAfter (reasonOf mode)) := congrArg Prod.snd hset
          rw [hsnd, get_of, hone, hretry]

/-- A step that is not an operator's leaves the row, or is a warranted switch of the guard that
writes. -/
theorem step_row {s : System ι} (hs : s.Sound) {l : Label ι} (hl : ¬ l.ByOperator) :
    (step s l).row = s.row ∨
      ∃ i g seen mode, l.WrittenBy i ∧ s.guards i = some g ∧ get s.row = .ok seen ∧
        Switchable g seen mode ∧ get (step s l).row =
          .ok { mode := mode, retryAfter := seen.retryAfter, reason := reasonOf mode } := by
  cases l with
  | operator mode retryAfter reason => exact absurd trivial hl
  | start i config => exact .inl rfl
  | stop i => exact .inl rfl
  | count i active => exact .inl rfl
  | read i passed readable => exact .inl rfl
  | write i =>
      dsimp only [step]
      split
      · rename_i g hg
        split
        · rename_i current mode hphase
          rcases switchRow_cases hs hg hphase with hkept | ⟨seen, hseen, hswitch, hget⟩
          · exact .inl hkept
          · exact .inr ⟨i, g, seen, mode, .inl rfl, hg, hseen, hswitch, hget⟩
        · exact .inl rfl
      · exact .inl rfl
  | lostWrite i applied =>
      dsimp only [step]
      split
      · rename_i g hg
        split
        · rename_i current mode hphase
          cases applied with
          | false => exact .inl rfl
          | true =>
              rcases switchRow_cases hs hg hphase with hkept | ⟨seen, hseen, hswitch, hget⟩
              · exact .inl hkept
              · exact .inr ⟨i, g, seen, mode, .inr rfl, hg, hseen, hswitch, hget⟩
        · exact .inl rfl
      · exact .inl rfl

/-- The state is on, and not by a guard. -/
def HeldByOperator (state : MaintenanceState) : Prop :=
  state.mode = .fullLock ∨ (state.mode = .readOnly ∧ state.reason ≠ some autoReason)

theorem not_switchable {g : Guard} {state : MaintenanceState} (h : HeldByOperator state)
    (mode : MaintenanceMode) : ¬ Switchable g state mode := by
  rintro (⟨hoff, -⟩ | ⟨hread, hauto, -⟩)
  · rcases h with h | ⟨h, -⟩
    · rw [h] at hoff
      cases hoff
    · rw [h] at hoff
      cases hoff
  · rcases h with h | ⟨-, h⟩
    · rw [h] at hread
      cases hread
    · exact h hauto

/-- **What an operator has switched on stays on.** Whatever the guards had decided before and
decide after, until an operator acts again every request is answered from that state. -/
theorem operator_setting_survives (row : Option MaintenanceRow) (before after : List (Label ι))
    (state : MaintenanceState) (hget : get (run step (.initial row) before).row = .ok state)
    (hheld : HeldByOperator state) (hafter : ∀ l ∈ after, ¬ l.ByOperator) (path method : String) :
    maintenanceGuard (run step (.initial row) (before ++ after)).row path method =
      if alwaysServed path then .served
      else
        match state.refusal (isWrite method) with
        | some error => .refused error state.retryAfter
        | none => .served := by
  have hkept : ∀ s : System ι, s.Sound ∧ get s.row = .ok state → ∀ l, ¬ l.ByOperator →
      (step s l).Sound ∧ get (step s l).row = .ok state := by
    rintro s ⟨hs, hrow⟩ l hl
    refine ⟨step_sound hs l, ?_⟩
    rcases step_row hs hl with hsame | ⟨i, g, seen, mode, -, -, hseen, hswitch, -⟩
    · rw [hsame]
      exact hrow
    · obtain rfl : seen = state := Except.ok.inj (hseen.symm.trans hrow)
      exact absurd hswitch (not_switchable hheld mode)
  have hrun := run_invariant (fun s => s.Sound ∧ get s.row = .ok state)
    (fun s l h hl => hkept s h l hl) ⟨run_sound row before, hget⟩ (StepsMeet.of_mem hafter _)
  have hrow := hrun.2
  rw [← run_append] at hrow
  unfold maintenanceGuard
  generalize get (run step (.initial row) (before ++ after)).row = result at hrow ⊢
  subst hrow
  rfl

/-- A guard that has decided to turn on the automatic read-only mode. -/
def busyRounds : List (Label Unit) :=
  [.start () thirtySeconds, .count () (.ok 12), .read () 1 true, .count () (.ok 10),
    .read () 30 true]

/-- A full lock that an operator sets between the guard's decision and its write is kept. -/
theorem full_lock_survives_decided_switch :
    maintenanceGuard (run step (.initial (some .seed))
      ((busyRounds ++ [.operator .fullLock 60 none]) ++ [.write ()])).row "/api/entities" "GET" =
      .refused
        { message := "the deployment is unavailable for maintenance", readOnly := false,
          retryAfter := 60 } 60 :=
  operator_setting_survives (some .seed) (busyRounds ++ [.operator .fullLock 60 none])
    [.write ()] { mode := .fullLock, retryAfter := 60, reason := none } rfl (.inl rfl)
    (fun l hl => by rw [List.mem_singleton.mp hl]; exact id) "/api/entities" "GET"

/-- **Whatever else changes the state is a guard under sustained load.** A step that is not an
operator's, and after which the row reads differently, is a write of a guard. It turns `off` into
the automatic read-only mode where every sample this guard has taken over its window was busy, or
the automatic read-only mode into `off` where every one was quiet; the interval stays as it was. -/
theorem switched_under_sustained_load (row : Option MaintenanceRow) (labels : List (Label ι))
    (l : Label ι) (hl : ¬ l.ByOperator)
    (hchange : get (run step (.initial row) (labels ++ [l])).row ≠
      get (run step (.initial row) labels).row) :
    ∃ seen i g, l.WrittenBy i ∧ get (run step (.initial row) labels).row = .ok seen ∧
      (run step (.initial row) labels).guards i = some g ∧
      ((seen.mode = .off ∧ Sustained g.config.threshold true g.config.sustain g.rounds ∧
          get (run step (.initial row) (labels ++ [l])).row =
            .ok { mode := .readOnly, retryAfter := seen.retryAfter,
                  reason := some autoReason }) ∨
        (seen.mode = .readOnly ∧ seen.reason = some autoReason ∧
          Sustained g.config.threshold false g.config.sustain g.rounds ∧
          get (run step (.initial row) (labels ++ [l])).row =
            .ok { mode := .off, retryAfter := seen.retryAfter, reason := none })) := by
  have hlast : run step (.initial row) (labels ++ [l]) =
      step (run step (.initial row) labels) l := run_append _ labels [l]
  rw [hlast] at hchange ⊢
  rcases step_row (run_sound row labels) hl with
    hsame | ⟨i, g, seen, mode, hby, hg, hseen, hswitch, hget⟩
  · exact absurd (congrArg get hsame) hchange
  · obtain ⟨hoff, rfl, hlong⟩ | ⟨hread, hauto, rfl, hlong⟩ := hswitch
    · exact ⟨seen, i, g, hby, hseen, hg, .inl ⟨hoff, hlong, hget⟩⟩
    · exact ⟨seen, i, g, hby, hseen, hg, .inr ⟨hread, hauto, hlong, hget⟩⟩

/-- The guard of the busy rounds turns on the automatic read-only mode. -/
theorem busy_rounds_switch :
    ∃ seen i g, Label.WrittenBy (.write ()) i ∧
      get (run step (.initial (some .seed)) busyRounds).row = .ok seen ∧
      (run step (.initial (some .seed)) busyRounds).guards i = some g ∧
      ((seen.mode = .off ∧ Sustained g.config.threshold true g.config.sustain g.rounds ∧
          get (run step (.initial (some .seed)) (busyRounds ++ [.write ()])).row =
            .ok { mode := .readOnly, retryAfter := seen.retryAfter,
                  reason := some autoReason }) ∨
        (seen.mode = .readOnly ∧ seen.reason = some autoReason ∧
          Sustained g.config.threshold false g.config.sustain g.rounds ∧
          get (run step (.initial (some .seed)) (busyRounds ++ [.write ()])).row =
            .ok { mode := .off, retryAfter := seen.retryAfter, reason := none })) :=
  switched_under_sustained_load (some .seed) busyRounds (.write ()) id (by decide)

end Systems

end Yorishiro.Maintenance.LoadGuard
