import Yorishiro.Lib.Transition
import Yorishiro.Query.Requests

/-!
# The query embedding protocol

Servers, workers and readers on one table of requests, one statement at a time. A
server that opens a request then runs `wait`: it polls, and at its deadline it
expires the request and reads it once more. A worker runs `answer`; its job may be
delivered late or more than once. Anyone else may call any statement at any time.
Whoever completes a request does so with the vector of a provider.

The state logs which transitions returned true and which outcomes were taken.
`Story` is the life of one request in terms of the log, and `answered_once` follows
from it: one transition wins, one reader takes its outcome, a late transition is
refused, and a completed request reaches the server that waits for it.
-/

set_option autoImplicit false

namespace Yorishiro.Query

open Yorishiro.Lib Yorishiro.Lib.Transition Yorishiro.Embedding Yorishiro.Queue

/-! ## The server -/

/-- `RETRY_AFTER`, in seconds. -/
def retryAfter : Nat := 1

/-- `finished_result`. -/
def finishedResult : Option QueryOutcome → Except YorishiroError Vector32
  | some (.ready vector _) => .ok vector
  | some (.failed message) =>
      .error (.backendUnavailable ("the query could not be embedded: " ++ message))
  | some .expired | some .pending =>
      .error (.providerBusy "the query embedding request expired before a worker answered" retryAfter)
  | none =>
      .error (.backendUnavailable
        "the query embedding request was purged before its result was read")

/-- Which of the reads of `wait`: a poll, the read after an expiry of its own, or the read
after an expiry that came too late. -/
inductive ReadStage where
  | poll
  | fenced
  | last
deriving DecidableEq

/-- Where a server stands in `wait`. A read is the two statements of `take`. -/
inductive WaitPhase where
  | reading (stage : ReadStage)
  | looking (stage : ReadStage)
  | polled
  | expiring
  | returned (result : Except YorishiroError Vector32)
deriving DecidableEq

/-- What `wait` does with the result of a read. -/
def afterRead (timeoutMs : Nat) : ReadStage → Option QueryOutcome → WaitPhase
  | .poll, some .pending => .polled
  | .poll, found => .returned (finishedResult found)
  | .fenced, _ =>
      .returned (.error (.providerBusy
        s!"no embedding worker answered the query within {timeoutMs} ms" retryAfter))
  | .last, found => .returned (finishedResult found)

/-- A server waiting for a request. -/
structure Waiter where
  workspaceId : Uuid
  requestId : Uuid
  timeoutMs : Nat
  phase : WaitPhase
deriving DecidableEq

/-! ## The worker -/

/-- Where a delivery of the job stands in `answer`. -/
inductive AnswerPhase where
  | delivered
  | purged
  | embedding (queryText : String) (deadlineAt : Option Instant)
  | embedded (result : Except String (ProviderVector × String))
  | ended
deriving DecidableEq

/-- A delivery of a query job. -/
structure Worker where
  workspaceId : Uuid
  requestId : Uuid
  phase : AnswerPhase
deriving DecidableEq

/-- The transition `answer` makes of the result of `embed`. -/
def answerOf : Except String (ProviderVector × String) → Answer
  | .ok (vector, model) => .complete vector model
  | .error error => .fail error

/-- What a step of a worker depends on besides the table: the time, the active workspaces,
and the result of `embed`. -/
structure AnswerInput where
  now : Instant
  active : Uuid → Bool
  result : Except String (ProviderVector × String)

/-! ## All parties -/

/-- One statement of anyone. -/
inductive RequestCall where
  | record (workspaceId id : Uuid) (active : Uuid → Bool) (now : Instant) (answer : Answer)
  | take (workspaceId id : Uuid)
  | purge (now : Instant)

/-- The table, the requests opened so far, the transitions that returned true, the finished
outcomes taken and by which server, and the parties. -/
structure QueryState where
  requests : Requests
  opened : List Uuid
  answers : List (Uuid × Answer)
  takes : List (Uuid × Option Nat × QueryOutcome)
  waiters : List Waiter
  workers : List Worker

/-- No request yet. -/
def QueryState.empty : QueryState := ⟨Table.empty, [], [], [], [], []⟩

/-- The entries of a log for one request. -/
def logOf {α : Type} (id : Uuid) (log : List (Uuid × α)) : List α :=
  (log.filter fun e => e.1 == id).map Prod.snd

/-- The transitions of `id` that returned true. -/
def QueryState.answersOf (s : QueryState) (id : Uuid) : List Answer := logOf id s.answers

/-- The finished outcomes taken of `id`, each with the server that took it. -/
def QueryState.takesOf (s : QueryState) (id : Uuid) : List (Option Nat × QueryOutcome) :=
  logOf id s.takes

/-- A statement and its entry in the log; `reader` is the server that makes it, if one does. -/
def QueryState.call (s : QueryState) (reader : Option Nat) : RequestCall → QueryState
  | .record workspaceId id active now answer =>
      match record s.requests workspaceId id active now answer with
      | .ok (t, true) => { s with requests := t, answers := (id, answer) :: s.answers }
      | .ok (t, false) => { s with requests := t }
      | .error _ => s
  | .take workspaceId id =>
      match takeFinished s.requests workspaceId id with
      | .ok (t, some found) => { s with requests := t, takes := (id, reader, found) :: s.takes }
      | .ok (t, none) => { s with requests := t }
      | .error _ => s
  | .purge now => { s with requests := purgeExpired s.requests now }

/-- Moves the server `w`. -/
def QueryState.setWaiter (s : QueryState) (w : Nat) (x : Waiter) (phase : WaitPhase) : QueryState :=
  { s with waiters := s.waiters.set w { x with phase } }

/-- Moves the delivery `k`. -/
def QueryState.setWorker (s : QueryState) (k : Nat) (x : Worker) (phase : AnswerPhase) : QueryState :=
  { s with workers := s.workers.set k { x with phase } }

/-- One step of one party. -/
inductive QueryLabel where
  | open (id workspaceId : Uuid) (queryText : String) (retentionSeconds : Nat)
      (deadlineAt : Instant) (timeoutMs : Nat) (now : Instant)
  | call (c : RequestCall)
  | deliver (workspaceId requestId : Uuid)
  | answer (k : Nat) (i : AnswerInput)
  | wait (w : Nat) (elapsed : Bool)

/-- `Scope::open`: expired requests are purged and the new one inserted in one transaction. -/
def QueryState.openStep (s : QueryState) (id workspaceId : Uuid) (queryText : String)
    (retentionSeconds : Nat) (deadlineAt : Instant) (timeoutMs : Nat) (now : Instant) : QueryState :=
  match openRequest (purgeExpired s.requests now) id workspaceId queryText retentionSeconds
      deadlineAt now with
  | .ok t =>
      { s with
        requests := t
        opened := id :: s.opened
        waiters := s.waiters ++ [⟨workspaceId, id, timeoutMs, .reading .poll⟩] }
  | .error _ => s

/-- The statement a delivery makes next, if it writes. -/
def Worker.nextCall (x : Worker) (i : AnswerInput) : Option RequestCall :=
  match x.phase with
  | .delivered => some (.purge i.now)
  | .embedded result =>
      some (.record x.workspaceId x.requestId i.active i.now (answerOf result))
  | _ => none

/-- Where a delivery stands after its next step. -/
def Worker.next (t : Requests) (x : Worker) (i : AnswerInput) : AnswerPhase :=
  match x.phase with
  | .delivered => .purged
  | .purged =>
      match findPending t x.workspaceId x.requestId i.now with
      | some row => .embedding row.queryText row.deadlineAt
      | none => .ended
  | .embedding _ _ => .embedded i.result
  | .embedded _ => .ended
  | .ended => .ended

/-- The statement a server makes next, if it writes; an expiry has no time and no activity
to check. -/
def Waiter.nextCall (x : Waiter) : Option RequestCall :=
  match x.phase with
  | .reading _ => some (.take x.workspaceId x.requestId)
  | .expiring => some (.record x.workspaceId x.requestId (fun _ => true) 0 .expire)
  | _ => none

/-- Where a server stands after its next step; `elapsed` tells whether its deadline has
passed. -/
def Waiter.next (t : Requests) (x : Waiter) (elapsed : Bool) : WaitPhase :=
  match x.phase with
  | .reading stage =>
      match takeFinished t x.workspaceId x.requestId with
      | .ok (_, some found) => afterRead x.timeoutMs stage (some found)
      | .ok (_, none) => .looking stage
      | .error e => .returned (.error e)
  | .looking stage => afterRead x.timeoutMs stage (takeWaiting t x.workspaceId x.requestId)
  | .polled => if elapsed then .expiring else .reading .poll
  | .expiring =>
      match expire t x.workspaceId x.requestId with
      | .ok (_, true) => .reading .fenced
      | .ok (_, false) => .reading .last
      | .error e => .returned (.error (.internal e))
  | .returned result => .returned result

/-- A statement that may be none. -/
def QueryState.callSome (s : QueryState) (reader : Option Nat) : Option RequestCall → QueryState
  | some c => s.call reader c
  | none => s

/-- The state after a label; one that is not enabled changes nothing. -/
def queryStep (s : QueryState) : QueryLabel → QueryState
  | .open id workspaceId queryText retentionSeconds deadlineAt timeoutMs now =>
      if s.opened.contains id then s
      else s.openStep id workspaceId queryText retentionSeconds deadlineAt timeoutMs now
  | .call c => s.call none c
  | .deliver workspaceId requestId =>
      { s with workers := s.workers ++ [⟨workspaceId, requestId, .delivered⟩] }
  | .answer k i =>
      match s.workers[k]? with
      | some x => (s.callSome none (x.nextCall i)).setWorker k x (x.next s.requests i)
      | none => s
  | .wait w elapsed =>
      match s.waiters[w]? with
      | some x => (s.callSome (some w) x.nextCall).setWaiter w x (x.next s.requests elapsed)
      | none => s

/-! ## Answered once -/

/-- The row of the request is there, or the server `w` itself consumed it: nobody purged it
and no other reader took it. -/
def QueryState.Kept (s : QueryState) (w : Nat) (id : Uuid) : Prop :=
  s.requests.get? id ≠ none ∨ ∃ found, (some w, found) ∈ s.takesOf id

/-- The label is a step of the server `w`. -/
def QueryLabel.ofWaiter (w : Nat) : QueryLabel → Bool
  | .wait v _ => v == w
  | _ => false

/-- What the log of a state says about its requests. -/
structure AnsweredOnce (s : QueryState) : Prop where
  /-- At most one transition of a request returned true. -/
  one_answer : ∀ id, (s.answersOf id).length ≤ 1
  /-- At most one reader got a finished outcome. -/
  one_take : ∀ id, (s.takesOf id).length ≤ 1
  /-- It is the outcome of the transition that won. -/
  take_answers : ∀ id reader found, (reader, found) ∈ s.takesOf id →
    ∃ a ∈ s.answersOf id, found = a.outcome
  /-- A transition on a consumed or purged request is refused, and the row stays away. -/
  late_refused : ∀ id ∈ s.opened, s.requests.get? id = none →
    (∀ workspaceId active now a,
      record s.requests workspaceId id active now a = .ok (s.requests, false) ∨
        (a.tooWide = true ∧ ∃ e, record s.requests workspaceId id active now a = .error e)) ∧
    ∀ more, (run queryStep s more).requests.get? id = none
  /-- A server whose request was completed, and neither purged nor consumed by another
  reader, returns the vector and nothing else; four more steps of its own are enough. -/
  vector_returned : ∀ w x vector model, s.waiters[w]? = some x →
    .complete vector model ∈ s.answersOf x.requestId →
    ∀ more, (run queryStep s more).Kept w x.requestId →
      ∃ y, (run queryStep s more).waiters[w]? = some y ∧
        (∀ result, y.phase = .returned result → result = .ok vector.components) ∧
        (4 ≤ more.countP (QueryLabel.ofWaiter w) → y.phase = .returned (.ok vector.components))

/-! ## Logs -/

section Logs

variable {α : Type} {id l : Uuid} {x : α} {log : List (Uuid × α)}

@[simp] theorem logOf_cons_self : logOf id ((id, x) :: log) = x :: logOf id log := by
  simp [logOf]

theorem logOf_cons_ne (h : l ≠ id) : logOf id ((l, x) :: log) = logOf id log := by
  simp [logOf, h]

theorem mem_logOf : x ∈ logOf id log ↔ (id, x) ∈ log := by
  simp [logOf]

end Logs

/-! ## The life of a request -/

/-- The life of the request `id`, as the table and the log tell it. -/
inductive Story (s : QueryState) (id : Uuid) : Prop
  | unopened (ho : id ∉ s.opened) (hrow : s.requests.get? id = none) (ha : s.answersOf id = [])
      (ht : s.takesOf id = [])
  | pending (ho : id ∈ s.opened) (row : Request) (hrow : s.requests.get? id = some row)
      (hs : row.status = .pending) (ha : s.answersOf id = []) (ht : s.takesOf id = [])
  | answered (ho : id ∈ s.opened) (row : Request) (a : Answer)
      (hrow : s.requests.get? id = some row) (hh : row.Holds a) (ha : s.answersOf id = [a])
      (ht : s.takesOf id = [])
  | consumed (ho : id ∈ s.opened) (a : Answer) (reader : Option Nat)
      (hrow : s.requests.get? id = none) (ha : s.answersOf id = [a])
      (ht : s.takesOf id = [(reader, a.outcome)])
  | purged (ho : id ∈ s.opened) (hrow : s.requests.get? id = none)
      (ha : (s.answersOf id).length ≤ 1) (ht : s.takesOf id = [])

namespace Story

variable {s s' : QueryState} {id : Uuid}

/-- A step that leaves the request and its log alone. -/
theorem frame (h : Story s id) (ho : id ∈ s'.opened ↔ id ∈ s.opened)
    (hrow : s'.requests.get? id = s.requests.get? id) (ha : s'.answersOf id = s.answersOf id)
    (ht : s'.takesOf id = s.takesOf id) : Story s' id := by
  cases h with
  | unopened ho' hrow' ha' ht' =>
      exact .unopened (fun h => ho' (ho.mp h)) (hrow.trans hrow') (ha.trans ha') (ht.trans ht')
  | pending ho' row hrow' hs ha' ht' =>
      exact .pending (ho.mpr ho') row (hrow.trans hrow') hs (ha.trans ha') (ht.trans ht')
  | answered ho' row a hrow' hh ha' ht' =>
      exact .answered (ho.mpr ho') row a (hrow.trans hrow') hh (ha.trans ha') (ht.trans ht')
  | consumed ho' a reader hrow' ha' ht' =>
      exact .consumed (ho.mpr ho') a reader (hrow.trans hrow') (ha.trans ha') (ht.trans ht')
  | purged ho' hrow' ha' ht' =>
      exact .purged (ho.mpr ho') (hrow.trans hrow') (ha ▸ ha') (ht.trans ht')

theorem length_answers (h : Story s id) : (s.answersOf id).length ≤ 1 := by
  cases h with
  | unopened _ _ ha _ => simp [ha]
  | pending _ _ _ _ ha _ => simp [ha]
  | answered _ _ _ _ _ ha _ => simp [ha]
  | consumed _ _ _ _ ha _ => simp [ha]
  | purged _ _ ha _ => exact ha

theorem answer_unique (h : Story s id) {a b : Answer} (ha : a ∈ s.answersOf id)
    (hb : b ∈ s.answersOf id) : a = b := by
  have hlen := h.length_answers
  match hlist : s.answersOf id with
  | [] =>
      rw [hlist] at ha
      cases ha
  | [c] =>
      rw [hlist] at ha hb
      exact (List.mem_singleton.mp ha).trans (List.mem_singleton.mp hb).symm
  | _ :: _ :: _ =>
      rw [hlist] at hlen
      simp at hlen

theorem takes_eq (h : Story s id) :
    s.takesOf id = [] ∨
      ∃ a reader, s.answersOf id = [a] ∧ s.takesOf id = [(reader, a.outcome)] := by
  cases h with
  | unopened _ _ _ ht => exact Or.inl ht
  | pending _ _ _ _ _ ht => exact Or.inl ht
  | answered _ _ _ _ _ _ ht => exact Or.inl ht
  | consumed _ a reader _ ha ht => exact Or.inr ⟨a, reader, ha, ht⟩
  | purged _ _ _ ht => exact Or.inl ht

/-- A row that is there was opened, and nobody took it. -/
theorem of_some (h : Story s id) {row : Request} (hrow : s.requests.get? id = some row) :
    id ∈ s.opened ∧ s.takesOf id = [] ∧
      ((row.status = .pending ∧ s.answersOf id = []) ∨ ∃ a, row.Holds a ∧ s.answersOf id = [a]) := by
  cases h with
  | unopened _ hrow' => rw [hrow] at hrow'; cases hrow'
  | pending ho row' hrow' hs ha ht =>
      obtain rfl : row = row' := Option.some.inj (hrow.symm.trans hrow')
      exact ⟨ho, ht, Or.inl ⟨hs, ha⟩⟩
  | answered ho row' a hrow' hh ha ht =>
      obtain rfl : row = row' := Option.some.inj (hrow.symm.trans hrow')
      exact ⟨ho, ht, Or.inr ⟨a, hh, ha⟩⟩
  | consumed _ _ _ hrow' => rw [hrow] at hrow'; cases hrow'
  | purged _ hrow' => rw [hrow] at hrow'; cases hrow'

/-- A request whose row disappears without a reader was purged. -/
theorem purge (h : Story s id) (ho : id ∈ s'.opened ↔ id ∈ s.opened)
    (hrow : s'.requests.get? id = s.requests.get? id ∨ s'.requests.get? id = none)
    (ha : s'.answersOf id = s.answersOf id) (ht : s'.takesOf id = s.takesOf id) :
    Story s' id := by
  rcases hrow with hrow | hrow
  · exact h.frame ho hrow ha ht
  · cases hget : s.requests.get? id with
    | none => exact h.frame ho (hrow.trans hget.symm) ha ht
    | some row =>
        obtain ⟨hopen, htakes, -⟩ := h.of_some hget
        exact .purged (ho.mpr hopen) hrow (ha ▸ h.length_answers) (ht.trans htakes)

end Story

theorem get?_purgeExpired (t : Requests) (now : Instant) (id : Uuid) :
    (purgeExpired t now).get? id = t.get? id ∨ (purgeExpired t now).get? id = none := by
  simp only [purgeExpired, Table.get?_deleteWhere]
  cases t.get? id with
  | none => exact Or.inl rfl
  | some row =>
      by_cases he : row.expiresAt < now
      · exact Or.inr (by simp [Option.filter, he])
      · exact Or.inl (by simp [Option.filter, he])

/-- **Statements.** The life of every request goes on as it should. -/
theorem story_call {s : QueryState} (h : ∀ id, Story s id) (reader : Option Nat) (c : RequestCall)
    (id : Uuid) : Story (s.call reader c) id := by
  cases c with
  | record workspaceId l active now a =>
      simp only [QueryState.call]
      split
      · next t hr =>
        rcases record_eq_ok hr with ⟨-, row, row', hrow, -, hs, -, hh, hrep⟩ | ⟨hwon, -⟩
        · by_cases hl : l = id
          · subst hl
            obtain ⟨ho, ht, ⟨-, ha⟩ | ⟨b, hb, -⟩⟩ := (h l).of_some hrow
            · refine .answered ho row' a hrep.get?_self hh ?_ ht
              simp only [QueryState.answersOf, logOf_cons_self] at ha ⊢
              rw [ha]
            · exact absurd hs hb.status_ne
          · exact (h id).frame Iff.rfl (hrep.get?_ne (Ne.symm hl)) (logOf_cons_ne hl) rfl
        · cases hwon
      · next t hr =>
        rcases record_eq_ok hr with ⟨hwon, -⟩ | ⟨-, rfl⟩
        · cases hwon
        · exact h id
      · exact h id
  | take workspaceId l =>
      simp only [QueryState.call]
      split
      · next t found hr =>
        obtain ⟨row, hrow, -, hs, hout, rfl⟩ := takeFinished_some hr
        by_cases hl : l = id
        · subst hl
          obtain ⟨ho, ht, ⟨hp, -⟩ | ⟨a, hh, ha⟩⟩ := (h l).of_some hrow
          · exact absurd hp hs
          -- the reader gets the answer the row holds
          · refine .consumed ho a reader (by simp) ha ?_
            simp only [QueryState.takesOf, logOf_cons_self] at ht ⊢
            rw [ht, outcome_eq_of_holds hh hout]
        · refine (h id).frame Iff.rfl ?_ rfl (logOf_cons_ne hl)
          simp [Ne.symm hl]
      · next t hr =>
        obtain ⟨rfl, -⟩ := takeFinished_none hr
        exact h id
      · exact h id
  | purge now =>
      exact (h id).purge Iff.rfl (get?_purgeExpired s.requests now id) rfl rfl

/-- The life of a request begins. -/
theorem story_open {s : QueryState} (h : ∀ id, Story s id) {id : Uuid} (hid : id ∉ s.opened)
    (workspaceId : Uuid) (queryText : String) (retentionSeconds : Nat) (deadlineAt : Instant)
    (timeoutMs : Nat) (now : Instant) (l : Uuid) :
    Story (s.openStep id workspaceId queryText retentionSeconds deadlineAt timeoutMs now) l := by
  unfold QueryState.openStep
  split
  · next t hr =>
    have hget := Table.get?_insert hr
    by_cases hl : l = id
    · subst hl
      have hrow := hget l
      rw [if_pos rfl] at hrow
      cases h l with
      | unopened _ _ ha ht => exact .pending (List.mem_cons_self ..) _ hrow rfl ha ht
      | pending ho => exact absurd ho hid
      | answered ho => exact absurd ho hid
      | consumed ho => exact absurd ho hid
      | purged ho => exact absurd ho hid
    · refine (h l).purge ?_ ?_ rfl rfl
      · simp [hl]
      · have hrow := hget l
        rw [if_neg hl] at hrow
        rw [show ({ s with requests := t, opened := id :: s.opened, waiters := _ } :
          QueryState).requests = t from rfl, hrow]
        exact get?_purgeExpired s.requests now l
  · exact h l

/-! ## What others do to a request -/

/-- What a step of another party may do to the request `id` of the server `w`: its row
disappears or stays in the workspace, an answered row stays answered, and the server
takes nothing. -/
structure Meddles (w : Nat) (id : Uuid) (s s' : QueryState) : Prop where
  opened : id ∈ s.opened → id ∈ s'.opened
  row : ∀ row', s'.requests.get? id = some row' → ∃ row, s.requests.get? id = some row ∧
    row.workspaceId = row'.workspaceId ∧ (row'.status = .pending → row.status = .pending)
  answers : ∀ a ∈ s.answersOf id, a ∈ s'.answersOf id
  takes : ∀ found, (some w, found) ∈ s'.takesOf id → (some w, found) ∈ s.takesOf id

namespace Meddles

variable {w : Nat} {id : Uuid} {s s' s'' : QueryState}

theorem refl (w : Nat) (id : Uuid) (s : QueryState) : Meddles w id s s :=
  ⟨fun h => h, fun row h => ⟨row, h, rfl, fun hs => hs⟩, fun _ h => h, fun _ h => h⟩

theorem gone (h : Meddles w id s s') (hrow : s.requests.get? id = none) :
    s'.requests.get? id = none := by
  by_contra hne
  obtain ⟨row', hrow'⟩ := Option.ne_none_iff_exists'.mp hne
  obtain ⟨row, hsome, -⟩ := h.row row' hrow'
  rw [hrow] at hsome
  cases hsome

end Meddles

/-- A statement of anyone but the server `w`. -/
theorem meddles_call (s : QueryState) {w : Nat} {reader : Option Nat} (hreader : reader ≠ some w)
    (c : RequestCall) (id : Uuid) : Meddles w id s (s.call reader c) := by
  cases c with
  | record workspaceId l active now a =>
      simp only [QueryState.call]
      split
      · next t hr =>
        rcases record_eq_ok hr with ⟨-, row, row', hrow, hws, hs, hws', hh, hrep⟩ | ⟨hwon, -⟩
        · refine ⟨fun h => h, ?_, ?_, fun _ h => h⟩
          · intro r hget
            by_cases hl : id = l
            · subst hl
              obtain rfl : row' = r := Option.some.inj (hrep.get?_self.symm.trans hget)
              exact ⟨row, hrow, hws.trans hws'.symm, fun hp => absurd hp hh.status_ne⟩
            · rw [show ({ s with requests := t, answers := (l, a) :: s.answers } :
                QueryState).requests = t from rfl, hrep.get?_ne hl] at hget
              exact ⟨r, hget, rfl, fun hp => hp⟩
          · intro b hb
            rw [QueryState.answersOf, mem_logOf] at hb ⊢
            exact List.mem_cons_of_mem _ hb
        · cases hwon
      · next t hr =>
        rcases record_eq_ok hr with ⟨hwon, -⟩ | ⟨-, rfl⟩
        · cases hwon
        · exact .refl w id s
      · exact .refl w id s
  | take workspaceId l =>
      simp only [QueryState.call]
      split
      · next t found hr =>
        obtain ⟨row, hrow, -, -, -, rfl⟩ := takeFinished_some hr
        refine ⟨fun h => h, ?_, fun _ h => h, ?_⟩
        · intro r hget
          simp only [Table.get?_delete] at hget
          split_ifs at hget
          exact ⟨r, hget, rfl, fun hp => hp⟩
        · intro o ho
          simp only [QueryState.takesOf, mem_logOf, List.mem_cons, Prod.mk.injEq] at ho ⊢
          rcases ho with ⟨-, hw, -⟩ | ho
          · exact absurd hw.symm hreader
          · exact ho
      · next t hr =>
        obtain ⟨rfl, -⟩ := takeFinished_none hr
        exact .refl w id s
      · exact .refl w id s
  | purge now =>
      refine ⟨fun h => h, ?_, fun _ h => h, fun _ h => h⟩
      intro r hget
      simp only [QueryState.call, purgeExpired, Table.get?_deleteWhere] at hget
      exact ⟨r, (Option.filter_eq_some_iff.mp hget).1, rfl, fun hp => hp⟩

/-- Another request is opened. -/
theorem meddles_open (s : QueryState) (w : Nat) {id l : Uuid} (hl : l ≠ id) (workspaceId : Uuid)
    (queryText : String) (retentionSeconds : Nat) (deadlineAt : Instant) (timeoutMs : Nat)
    (now : Instant) :
    Meddles w l s
      (s.openStep id workspaceId queryText retentionSeconds deadlineAt timeoutMs now) := by
  unfold QueryState.openStep
  split
  · next t hr =>
    refine ⟨List.mem_cons_of_mem _, ?_, fun _ h => h, fun _ h => h⟩
    intro row hrow
    have hget := Table.get?_insert hr l
    rw [if_neg hl] at hget
    rw [show ({ s with requests := t, opened := id :: s.opened, waiters := _ } :
      QueryState).requests = t from rfl, hget] at hrow
    rcases get?_purgeExpired s.requests now l with heq | hnone
    · exact ⟨row, heq ▸ hrow, rfl, fun hp => hp⟩
    · rw [hnone] at hrow
      cases hrow
  · exact .refl w l s

/-! ## The invariant of a server -/

/-- What a server knows of its request. -/
structure WaiterInv (s : QueryState) (w : Nat) (x : Waiter) : Prop where
  owned : ∀ row, s.requests.get? x.requestId = some row → row.workspaceId = x.workspaceId
  /-- A server that has returned left no row behind. -/
  returned : ∀ result, x.phase = .returned result → s.requests.get? x.requestId = none
  /-- What it took is what it returns, unless it had expired the request itself. -/
  took : ∀ found, (some w, found) ∈ s.takesOf x.requestId →
    x.phase = .returned (finishedResult (some found)) ∨ found = .expired
  /-- After an expiry the request is no longer pending. -/
  reading : ∀ stage, stage ≠ .poll → x.phase = .reading stage →
    ∀ row, s.requests.get? x.requestId = some row → row.status ≠ .pending
  looking : ∀ stage, stage ≠ .poll → x.phase = .looking stage → s.requests.get? x.requestId = none
  fenced : x.phase = .reading .fenced ∨ x.phase = .looking .fenced →
    .expire ∈ s.answersOf x.requestId

/-- The invariant of the protocol. -/
structure QueryInv (s : QueryState) : Prop where
  story : ∀ id, Story s id
  opened : ∀ (w : Nat) (x : Waiter), s.waiters[w]? = some x → x.requestId ∈ s.opened
  waiters : ∀ (w : Nat) (x : Waiter), s.waiters[w]? = some x → WaiterInv s w x

/-- Steps of others keep the invariant of a server. -/
theorem WaiterInv.meddles {s s' : QueryState} {w : Nat} {x : Waiter} (h : WaiterInv s w x)
    (hm : Meddles w x.requestId s s') : WaiterInv s' w x := by
  refine ⟨?_, ?_, ?_, ?_, ?_, ?_⟩
  · intro row' hrow'
    obtain ⟨row, hrow, hws, -⟩ := hm.row row' hrow'
    exact hws.symm.trans (h.owned row hrow)
  · exact fun result hr => hm.gone (h.returned result hr)
  · exact fun found hf => h.took found (hm.takes found hf)
  · intro stage hstage hphase row' hrow' hpending
    obtain ⟨row, hrow, -, hp⟩ := hm.row row' hrow'
    exact h.reading stage hstage hphase row hrow (hp hpending)
  · exact fun stage hstage hphase => hm.gone (h.looking stage hstage hphase)
  · exact fun hphase => hm.answers _ (h.fenced hphase)

section OwnStep

variable {s : QueryState} {w : Nat} {x : Waiter}

/-- The invariant reads the table and the log only. -/
theorem WaiterInv.setWaiter {y : Waiter} (h : WaiterInv s w y) (v : Nat) (z : Waiter)
    (phase : WaitPhase) : WaiterInv (s.setWaiter v z phase) w y :=
  ⟨h.owned, h.returned, h.took, h.reading, h.looking, h.fenced⟩

/-- A server returns when its row is gone. -/
theorem WaiterInv.of_gone {result : Except YorishiroError Vector32}
    (hgone : s.requests.get? x.requestId = none)
    (htook : ∀ found, (some w, found) ∈ s.takesOf x.requestId →
      result = finishedResult (some found) ∨ found = .expired) :
    WaiterInv s w { x with phase := .returned result } where
  owned := fun row hrow => absurd (hrow.symm.trans hgone) (by simp)
  returned := fun _ _ => hgone
  took := fun found hf => (htook found hf).imp_left (congrArg WaitPhase.returned)
  reading := nofun
  looking := nofun
  fenced := nofun

/-- A server that has not returned has taken nothing but its own expiry. -/
theorem WaiterInv.took_expired (h : WaiterInv s w x) (hphase : ∀ result, x.phase ≠ .returned result)
    {found : QueryOutcome} (hf : (some w, found) ∈ s.takesOf x.requestId) : found = .expired :=
  (h.took found hf).resolve_left (hphase _)

/-- A server reads after an expiry when its request is no longer pending. -/
theorem WaiterInv.of_expiry {stage : ReadStage}
    (howned : ∀ row, s.requests.get? x.requestId = some row → row.workspaceId = x.workspaceId)
    (htook : ∀ found, (some w, found) ∈ s.takesOf x.requestId → found = .expired)
    (hdone : ∀ row, s.requests.get? x.requestId = some row → row.status ≠ .pending)
    (hfenced : stage = .fenced → .expire ∈ s.answersOf x.requestId) :
    WaiterInv s w { x with phase := .reading stage } where
  owned := howned
  returned := by
    intro result hp
    cases hp
  took := fun found hf => Or.inr (htook found hf)
  reading := fun _ _ _ => hdone
  looking := by
    intro stage' _ hp
    cases hp
  fenced := by
    intro hp
    rcases hp with hp | hp
    · cases hp
      exact hfenced rfl
    · cases hp

/-- A server that has not expired its request knows nothing more about it. -/
theorem WaiterInv.of_polling (h : WaiterInv s w x) (hphase : ∀ result, x.phase ≠ .returned result)
    {phase : WaitPhase} (hp : phase = .polled ∨ phase = .expiring ∨ phase = .reading .poll) :
    WaiterInv s w { x with phase } where
  owned := h.owned
  returned := by rcases hp with rfl | rfl | rfl <;> nofun
  took := fun _ hf => Or.inr (h.took_expired hphase hf)
  reading := by
    intro stage hstage heq
    rcases hp with rfl | rfl | rfl
    · cases heq
    · cases heq
    · cases heq
      exact absurd rfl hstage
  looking := by rcases hp with rfl | rfl | rfl <;> nofun
  fenced := by rcases hp with rfl | rfl | rfl <;> nofun

theorem Story.expired_of_fenced {id : Uuid} (h : Story s id) {row : Request} {a : Answer}
    (hrow : s.requests.get? id = some row) (hh : row.Holds a) (he : .expire ∈ s.answersOf id) :
    a = .expire := by
  obtain ⟨-, -, ⟨-, ha⟩ | ⟨b, hb, ha⟩⟩ := h.of_some hrow
  · rw [ha] at he
    cases he
  · rw [ha] at he
    obtain rfl : Answer.expire = b := List.mem_singleton.mp he
    cases a with
    | complete v m => exact absurd (hh.1.symm.trans hb) (by decide)
    | fail e => exact absurd (hh.1.symm.trans hb) (by decide)
    | expire => rfl

/-- A finished outcome makes the server return it, unless it reads its own expiry. -/
theorem afterRead_outcome (timeoutMs : Nat) (stage : ReadStage) (a : Answer) :
    ∃ result, afterRead timeoutMs stage (some a.outcome) = .returned result ∧
      (stage ≠ .fenced → result = finishedResult (some a.outcome)) := by
  cases stage with
  | poll => cases a <;> exact ⟨_, rfl, fun _ => rfl⟩
  | fenced => exact ⟨_, rfl, fun hne => absurd rfl hne⟩
  | last => exact ⟨_, rfl, fun _ => rfl⟩

/-- The first statement of a read. -/
theorem waiterInv_reading (hstory : Story s x.requestId) (h : WaiterInv s w x) {stage : ReadStage}
    (hphase : x.phase = .reading stage) (elapsed : Bool) :
    WaiterInv (s.callSome (some w) x.nextCall) w
      { x with phase := x.next s.requests elapsed } := by
  have hnot : ∀ result, x.phase ≠ .returned result := by simp [hphase]
  simp only [Waiter.nextCall, Waiter.next, hphase, QueryState.callSome, QueryState.call]
  split
  · next t found hr =>
    obtain ⟨row, hrow, -, hs, hout, rfl⟩ := takeFinished_some hr
    obtain ⟨-, htakes, ⟨hp, -⟩ | ⟨a, hh, ha⟩⟩ := hstory.of_some hrow
    · exact absurd hp hs
    obtain rfl : found = a.outcome := outcome_eq_of_holds hh hout
    have hgone : (s.requests.delete x.requestId).get? x.requestId = none := by simp
    obtain ⟨result, hafter, hresult⟩ := afterRead_outcome x.timeoutMs stage a
    rw [hafter]
    refine .of_gone hgone ?_
    intro found hf
    simp only [QueryState.takesOf, logOf_cons_self, List.mem_cons] at hf
    rcases hf with hf | hf
    · obtain rfl : found = a.outcome := (Prod.mk.inj hf).2
      by_cases hstage : stage = .fenced
      · subst hstage
        rw [hstory.expired_of_fenced hrow hh (h.fenced (Or.inl hphase))]
        exact Or.inr rfl
      · exact Or.inl (hresult hstage)
    · exact Or.inr (h.took_expired hnot hf)
  · next t hr =>
    obtain ⟨rfl, hpending⟩ := takeFinished_none hr
    refine ⟨h.owned, nofun, ?_, nofun, ?_, ?_⟩
    · exact fun found hf => Or.inr (h.took_expired hnot hf)
    · intro stage' hstage hp
      obtain rfl : stage = stage' := by
        cases hp
        rfl
      -- after an expiry the row is not pending, so it is not there
      by_contra hne
      obtain ⟨row, hrow⟩ := Option.ne_none_iff_exists'.mp hne
      exact h.reading stage hstage hphase row hrow (hpending row hrow (h.owned row hrow))
    · intro hp
      rcases hp with hp | hp
      · cases hp
      · apply h.fenced
        cases hp
        exact Or.inl hphase
  · next e hr =>
    -- an answer does decode
    exfalso
    obtain ⟨row, hrow, hs, hout⟩ := takeFinished_error hr
    obtain ⟨-, -, ⟨hp, -⟩ | ⟨a, hh, ha⟩⟩ := hstory.of_some hrow
    · exact hs hp
    · rw [outcome_of_holds hh] at hout
      cases hout

/-- The second statement of a read. -/
theorem waiterInv_looking (h : WaiterInv s w x) {stage : ReadStage}
    (hphase : x.phase = .looking stage) (elapsed : Bool) :
    WaiterInv s w { x with phase := x.next s.requests elapsed } := by
  have hnot : ∀ result, x.phase ≠ .returned result := by simp [hphase]
  have htook : ∀ (result : Except YorishiroError Vector32) found,
      (some w, found) ∈ s.takesOf x.requestId →
      result = finishedResult (some found) ∨ found = .expired :=
    fun _ found hf => Or.inr (h.took_expired hnot hf)
  simp only [Waiter.next, hphase]
  cases hrow : s.requests.get? x.requestId with
  | none =>
      cases stage with
      | poll => simpa [takeWaiting, hrow] using .of_gone hrow (htook _)
      | fenced => exact .of_gone hrow (htook _)
      | last => exact .of_gone hrow (htook _)
  | some row =>
      -- only a poll can find the row
      obtain rfl : stage = .poll := by
        by_contra hstage
        rw [h.looking stage hstage hphase] at hrow
        cases hrow
      have hfound : takeWaiting s.requests x.workspaceId x.requestId = some .pending := by
        simp [takeWaiting, hrow, Option.filter, h.owned row hrow]
      rw [hfound]
      exact h.of_polling hnot (Or.inl rfl)

/-- The expiry. -/
theorem waiterInv_expiring (h : WaiterInv s w x) (hphase : x.phase = .expiring) (elapsed : Bool) :
    WaiterInv (s.callSome (some w) x.nextCall) w
      { x with phase := x.next s.requests elapsed } := by
  have hnot : ∀ result, x.phase ≠ .returned result := by simp [hphase]
  obtain ⟨⟨t, won⟩, hr⟩ : ∃ r, expire s.requests x.workspaceId x.requestId = .ok r :=
    transition_total ..
  simp only [Waiter.nextCall, Waiter.next, hphase, QueryState.callSome, QueryState.call, record, hr]
  cases won with
  | true =>
      rcases transition_eq_ok hr with ⟨-, row, hrow, hws, -, hrep⟩ | ⟨hwon, -⟩
      · refine .of_expiry ?_ (fun found hf => h.took_expired hnot hf) ?_ ?_
        · intro row' hrow'
          obtain rfl := Option.some.inj (hrep.get?_self.symm.trans hrow')
          exact hws
        · intro row' hrow'
          obtain rfl := Option.some.inj (hrep.get?_self.symm.trans hrow')
          exact (by decide : QueryEmbeddingStatus.expired ≠ .pending)
        · intro _
          simp [QueryState.answersOf]
      · cases hwon
  | false =>
      rcases transition_eq_ok hr with ⟨hwon, -⟩ | ⟨-, rfl⟩
      · cases hwon
      · refine .of_expiry h.owned (fun found hf => h.took_expired hnot hf) ?_ ?_
        · exact fun row hrow => transition_lost hr row hrow (h.owned row hrow)
        · intro hfenced
          cases hfenced

/-- **The server's own step.** -/
theorem waiterInv_next (hstory : Story s x.requestId) (h : WaiterInv s w x) (elapsed : Bool) :
    WaiterInv (s.callSome (some w) x.nextCall) w
      { x with phase := x.next s.requests elapsed } := by
  cases hphase : x.phase with
  | reading stage => exact waiterInv_reading hstory h hphase elapsed
  | looking stage =>
      simpa only [Waiter.nextCall, hphase, QueryState.callSome] using
        waiterInv_looking h hphase elapsed
  | polled =>
      have hnot : ∀ result, x.phase ≠ .returned result := by simp [hphase]
      simp only [Waiter.nextCall, Waiter.next, hphase, QueryState.callSome]
      split
      · exact h.of_polling hnot (Or.inr (Or.inl rfl))
      · exact h.of_polling hnot (Or.inr (Or.inr rfl))
  | expiring => exact waiterInv_expiring h hphase elapsed
  | returned result =>
      simp only [Waiter.nextCall, Waiter.next, hphase, QueryState.callSome]
      rw [← hphase]
      exact h

end OwnStep

/-! ## Steps -/

theorem story_callSome {s : QueryState} (h : ∀ id, Story s id) (reader : Option Nat)
    (c : Option RequestCall) (id : Uuid) : Story (s.callSome reader c) id := by
  cases c with
  | none => exact h id
  | some c => exact story_call h reader c id

theorem meddles_callSome (s : QueryState) {w : Nat} (reader : Option Nat)
    (hreader : reader ≠ some w) (c : Option RequestCall) (id : Uuid) :
    Meddles w id s (s.callSome reader c) := by
  cases c with
  | none => exact .refl w id s
  | some c => exact meddles_call s hreader c id

/-- A call leaves the waiters and what has been opened. -/
theorem callSome_frame (s : QueryState) (reader : Option Nat) (c : Option RequestCall) :
    (s.callSome reader c).waiters = s.waiters ∧ (s.callSome reader c).opened = s.opened := by
  cases c with
  | none => exact ⟨rfl, rfl⟩
  | some c =>
      cases c with
      | record workspaceId id active now a =>
          simp only [QueryState.callSome, QueryState.call]
          split <;> exact ⟨rfl, rfl⟩
      | take workspaceId id =>
          simp only [QueryState.callSome, QueryState.call]
          split <;> exact ⟨rfl, rfl⟩
      | purge now => exact ⟨rfl, rfl⟩

@[simp] theorem callSome_waiters (s : QueryState) (reader : Option Nat) (c : Option RequestCall) :
    (s.callSome reader c).waiters = s.waiters :=
  (callSome_frame s reader c).1

@[simp] theorem callSome_opened (s : QueryState) (reader : Option Nat) (c : Option RequestCall) :
    (s.callSome reader c).opened = s.opened :=
  (callSome_frame s reader c).2

/-- A step that moves no server. -/
theorem QueryInv.meddles {s s' : QueryState} (h : QueryInv s) (hwaiters : s'.waiters = s.waiters)
    (hstory : ∀ id, Story s' id) (hm : ∀ w id, id ∈ s.opened → Meddles w id s s') :
    QueryInv s' := by
  refine ⟨hstory, ?_, ?_⟩
  · intro w x hx
    rw [hwaiters] at hx
    have hopen := h.opened w x hx
    exact (hm w x.requestId hopen).opened hopen
  · intro w x hx
    rw [hwaiters] at hx
    exact (h.waiters w x hx).meddles (hm w x.requestId (h.opened w x hx))

theorem queryInv_open {s : QueryState} (h : QueryInv s) {id : Uuid} (hid : id ∉ s.opened)
    (workspaceId : Uuid) (queryText : String) (retentionSeconds : Nat) (deadlineAt : Instant)
    (timeoutMs : Nat) (now : Instant) :
    QueryInv (s.openStep id workspaceId queryText retentionSeconds deadlineAt timeoutMs now) := by
  have hstory := story_open h.story hid workspaceId queryText retentionSeconds deadlineAt timeoutMs
    now
  have hm := fun w l (hl : l ≠ id) =>
    meddles_open s w hl workspaceId queryText retentionSeconds deadlineAt timeoutMs now
  unfold QueryState.openStep at hstory hm ⊢
  split at hstory
  · next t hr =>
    simp only [hr] at hm ⊢
    have hne : ∀ l ∈ s.opened, l ≠ id := fun l hl heq => hid (heq ▸ hl)
    -- a server of before, or the one this request gets
    have hwaiter : ∀ (w : Nat) (x : Waiter),
        (s.waiters ++ [(⟨workspaceId, id, timeoutMs, .reading .poll⟩ : Waiter)])[w]? = some x →
        s.waiters[w]? = some x ∨ x = ⟨workspaceId, id, timeoutMs, .reading .poll⟩ := by
      intro w x hx
      rcases Nat.lt_or_ge w s.waiters.length with hlt | hge
      · rw [List.getElem?_append_left hlt] at hx
        exact Or.inl hx
      · rw [List.getElem?_append_right hge] at hx
        exact Or.inr (List.mem_singleton.mp (List.mem_of_getElem? hx))
    refine ⟨hstory, ?_, ?_⟩
    · intro w x hx
      rcases hwaiter w x hx with hold | rfl
      · exact List.mem_cons_of_mem _ (h.opened w x hold)
      · exact List.mem_cons_self ..
    · intro w x hx
      rcases hwaiter w x hx with hold | rfl
      · exact (h.waiters w x hold).meddles (hm w x.requestId (hne _ (h.opened w x hold)))
      · have hrow := Table.get?_insert hr id
        rw [if_pos rfl] at hrow
        obtain ⟨-, htakes, -⟩ := (hstory id).of_some hrow
        refine ⟨?_, nofun, ?_, ?_, nofun, nofun⟩
        · intro row hget
          obtain rfl := Option.some.inj (hrow.symm.trans hget)
          rfl
        · intro found hf
          rw [htakes] at hf
          cases hf
        · intro stage hstage heq
          cases heq
          exact absurd rfl hstage
  · exact h

theorem queryInv_wait {s : QueryState} (h : QueryInv s) {w : Nat} {x : Waiter}
    (hx : s.waiters[w]? = some x) (elapsed : Bool) :
    QueryInv ((s.callSome (some w) x.nextCall).setWaiter w x (x.next s.requests elapsed)) := by
  have hopen := h.opened w x hx
  have hstory := story_callSome h.story (some w) x.nextCall
  have hlen : w < s.waiters.length := (List.getElem?_eq_some_iff.mp hx).1
  -- the server itself, or another one that has not moved
  have hwaiter : ∀ v y, ((s.callSome (some w) x.nextCall).setWaiter w x
      (x.next s.requests elapsed)).waiters[v]? = some y →
      (v = w ∧ y = { x with phase := x.next s.requests elapsed }) ∨
        (v ≠ w ∧ s.waiters[v]? = some y) := by
    intro v y hy
    simp only [QueryState.setWaiter, callSome_waiters, List.getElem?_set] at hy
    split_ifs at hy with hv
    · exact Or.inl ⟨hv.symm, (Option.some.inj hy).symm⟩
    · exact Or.inr ⟨Ne.symm hv, hy⟩
  refine ⟨fun id => (hstory id).frame Iff.rfl rfl rfl rfl, ?_, ?_⟩
  · intro v y hy
    simp only [QueryState.setWaiter, callSome_opened]
    rcases hwaiter v y hy with ⟨-, rfl⟩ | ⟨-, hold⟩
    · exact hopen
    · exact h.opened v y hold
  · intro v y hy
    rcases hwaiter v y hy with ⟨rfl, rfl⟩ | ⟨hv, hold⟩
    · exact (waiterInv_next (h.story _) (h.waiters v x hx) elapsed).setWaiter ..
    · have hmeddles := meddles_callSome s (some w) (w := v)
        (fun heq => hv (Option.some.inj heq).symm) x.nextCall y.requestId
      exact ((h.waiters v y hold).meddles hmeddles).setWaiter ..

/-- **One step.** -/
theorem queryInv_step {s : QueryState} (h : QueryInv s) (l : QueryLabel) :
    QueryInv (queryStep s l) := by
  cases l with
  | «open» id workspaceId queryText retentionSeconds deadlineAt timeoutMs now =>
      simp only [queryStep]
      split
      · exact h
      · next hid => exact queryInv_open h (by simpa using hid) ..
  | call c =>
      refine h.meddles (callSome_waiters s none (some c)) (story_call h.story none c) ?_
      exact fun w id _ => meddles_call s (by simp) c id
  | deliver workspaceId requestId =>
      refine h.meddles rfl (fun id => (h.story id).frame Iff.rfl rfl rfl rfl) ?_
      exact fun w id _ => ⟨fun hh => hh, (Meddles.refl w id s).row, fun _ hh => hh, fun _ hh => hh⟩
  | answer k i =>
      simp only [queryStep]
      split
      · next x hk =>
        refine h.meddles (callSome_waiters s none (x.nextCall i)) ?_ ?_
        · exact fun id => (story_callSome h.story none (x.nextCall i) id).frame Iff.rfl rfl rfl rfl
        · intro w id _
          have hm := meddles_callSome s none (w := w) (by simp) (x.nextCall i) id
          exact ⟨hm.opened, hm.row, hm.answers, hm.takes⟩
      · exact h
  | wait w elapsed =>
      simp only [queryStep]
      split
      · next x hx => exact queryInv_wait h hx elapsed
      · exact h

theorem queryInv_run {s : QueryState} (h : QueryInv s) (labels : List QueryLabel) :
    QueryInv (run queryStep s labels) := by
  induction labels generalizing s with
  | nil => exact h
  | cons l labels ih => exact ih (queryInv_step h l)

theorem queryInv_empty : QueryInv QueryState.empty := by
  refine ⟨fun id => .unopened (by simp [QueryState.empty]) rfl rfl rfl, ?_, ?_⟩
  · intro w x hx
    cases hx
  · intro w x hx
    cases hx

/-! ## A completed request reaches its server -/

/-- How many more steps of its own a server needs once its request is answered. -/
def WaitPhase.rank : WaitPhase → Nat
  | .returned _ => 0
  | .reading _ => 1
  | .expiring => 2
  | .polled => 3
  | .looking _ => 4

theorem WaitPhase.rank_le (phase : WaitPhase) : phase.rank ≤ 4 := by
  cases phase <;> simp [WaitPhase.rank]

theorem WaitPhase.rank_pos {phase : WaitPhase} (h : ∀ result, phase ≠ .returned result) :
    0 < phase.rank := by
  cases phase with
  | returned result => exact absurd rfl (h result)
  | _ => simp [WaitPhase.rank]

/-- While an answered row is there, a step of its server brings it closer to its result. -/
theorem rank_next_lt {s : QueryState} {w : Nat} {x : Waiter} (hstory : Story s x.requestId)
    (h : WaiterInv s w x) {row : Request} (hrow : s.requests.get? x.requestId = some row)
    (hs : row.status ≠ .pending) (elapsed : Bool) :
    (x.next s.requests elapsed).rank < x.phase.rank := by
  cases hphase : x.phase with
  | reading stage =>
      simp only [Waiter.next, hphase]
      split
      · next t found hr =>
        obtain ⟨row', hrow', -, -, hout, -⟩ := takeFinished_some hr
        obtain rfl : row = row' := Option.some.inj (hrow.symm.trans hrow')
        obtain ⟨-, -, ⟨hp, -⟩ | ⟨a, hh, -⟩⟩ := hstory.of_some hrow
        · exact absurd hp hs
        · obtain ⟨result, hafter, -⟩ := afterRead_outcome x.timeoutMs stage a
          rw [outcome_eq_of_holds hh hout, hafter]
          exact Nat.zero_lt_one
      · next t hr => exact absurd ((takeFinished_none hr).2 row hrow (h.owned row hrow)) hs
      · exact Nat.zero_lt_one
  | looking stage =>
      obtain rfl : stage = .poll := by
        by_contra hstage
        rw [h.looking stage hstage hphase] at hrow
        cases hrow
      simp [Waiter.next, hphase, takeWaiting, hrow, Option.filter, h.owned row hrow, afterRead,
        WaitPhase.rank]
  | polled => cases elapsed <;> simp [Waiter.next, hphase, WaitPhase.rank]
  | expiring =>
      simp only [Waiter.next, hphase]
      split
      · next t hr =>
        rcases transition_eq_ok hr with ⟨-, row', hrow', -, hp, -⟩ | ⟨hwon, -⟩
        · obtain rfl : row = row' := Option.some.inj (hrow.symm.trans hrow')
          exact absurd hp hs
        · cases hwon
      · exact Nat.one_lt_two
      · exact Nat.zero_lt_two
  | returned result =>
      rw [h.returned result hphase] at hrow
      cases hrow

/-- A step keeps every server, and moves only its own. -/
theorem waiter_step {s : QueryState} {w : Nat} {x : Waiter} (hx : s.waiters[w]? = some x)
    (l : QueryLabel) :
    ∃ y, (queryStep s l).waiters[w]? = some y ∧ y.requestId = x.requestId ∧
      (l.ofWaiter w = false → y = x) ∧
      ∀ elapsed, l = .wait w elapsed → y = { x with phase := x.next s.requests elapsed } := by
  have hlen : w < s.waiters.length := (List.getElem?_eq_some_iff.mp hx).1
  cases l with
  | «open» id workspaceId queryText retentionSeconds deadlineAt timeoutMs now =>
      refine ⟨x, ?_, rfl, fun _ => rfl, nofun⟩
      simp only [queryStep]
      split
      · exact hx
      · unfold QueryState.openStep
        split
        · rw [List.getElem?_append_left hlen]
          exact hx
        · exact hx
  | call c => exact ⟨x, (callSome_waiters s none (some c)).symm ▸ hx, rfl, fun _ => rfl, nofun⟩
  | deliver workspaceId requestId => exact ⟨x, hx, rfl, fun _ => rfl, nofun⟩
  | answer k i =>
      refine ⟨x, ?_, rfl, fun _ => rfl, nofun⟩
      simp only [queryStep]
      split
      · simpa only [QueryState.setWorker, callSome_waiters] using hx
      · exact hx
  | wait v elapsed =>
      by_cases hv : v = w
      · subst hv
        refine ⟨{ x with phase := x.next s.requests elapsed }, ?_, rfl, ?_, ?_⟩
        · simp only [queryStep, hx, QueryState.setWaiter, callSome_waiters]
          rw [List.getElem?_set_self hlen]
        · intro hne
          simp [QueryLabel.ofWaiter] at hne
        · intro e he
          cases he
          rfl
      · refine ⟨x, ?_, rfl, fun _ => rfl, ?_⟩
        · simp only [queryStep]
          split
          · simpa only [QueryState.setWaiter, callSome_waiters, List.getElem?_set_ne hv] using hx
          · exact hx
        · intro e he
          cases he
          exact absurd rfl hv

/-- A step leaves a purged or consumed request alone, and never takes an answer back. -/
theorem request_step (s : QueryState) (l : QueryLabel) {id : Uuid} (hid : id ∈ s.opened) :
    ∃ v, Meddles v id s (queryStep s l) := by
  cases l with
  | «open» l workspaceId queryText retentionSeconds deadlineAt timeoutMs now =>
      simp only [queryStep]
      split
      · exact ⟨0, .refl 0 id s⟩
      · next hl =>
        refine ⟨0, meddles_open s 0 ?_ ..⟩
        rintro rfl
        simp [hid] at hl
  | call c => exact ⟨0, meddles_call s (by simp) c id⟩
  | deliver workspaceId requestId =>
      exact ⟨0, fun h => h, (Meddles.refl 0 id s).row, fun _ h => h, fun _ h => h⟩
  | answer k i =>
      simp only [queryStep]
      split
      · next x hk =>
        have hm := meddles_callSome s none (w := 0) (by simp) (x.nextCall i) id
        exact ⟨0, hm.opened, hm.row, hm.answers, hm.takes⟩
      · exact ⟨0, .refl 0 id s⟩
  | wait w elapsed =>
      simp only [queryStep]
      split
      · next x hx =>
        have hm := meddles_callSome s (some w) (w := w + 1) (by simp) x.nextCall id
        exact ⟨w + 1, hm.opened, hm.row, hm.answers, hm.takes⟩
      · exact ⟨0, .refl 0 id s⟩

/-- A request that is gone stays gone. -/
theorem gone_run {s : QueryState} {id : Uuid} (hid : id ∈ s.opened)
    (hgone : s.requests.get? id = none) (more : List QueryLabel) :
    (run queryStep s more).requests.get? id = none := by
  induction more generalizing s with
  | nil => exact hgone
  | cons l more ih =>
      obtain ⟨v, hm⟩ := request_step s l hid
      exact ih (hm.opened hid) (hm.gone hgone)

/-- A run keeps every server, and the answers to its request. -/
theorem waiter_run {s : QueryState} (h : QueryInv s) {w : Nat} {x : Waiter}
    (hx : s.waiters[w]? = some x) (more : List QueryLabel) :
    ∃ y, (run queryStep s more).waiters[w]? = some y ∧ y.requestId = x.requestId ∧
      ∀ a ∈ s.answersOf x.requestId, a ∈ (run queryStep s more).answersOf x.requestId := by
  induction more generalizing s x with
  | nil => exact ⟨x, hx, rfl, fun _ ha => ha⟩
  | cons l more ih =>
      obtain ⟨v, hm⟩ := request_step s l (h.opened w x hx)
      obtain ⟨y, hy, hid, -⟩ := waiter_step hx l
      obtain ⟨z, hz, hzid, hanswers⟩ := ih (queryInv_step h l) hy
      rw [hid] at hzid hanswers
      exact ⟨z, hz, hzid, fun a ha => hanswers a (hm.answers a ha)⟩

/-- While the answered row stays in place, every step of its server counts. -/
theorem rank_run {s : QueryState} (h : QueryInv s) {w : Nat} {x y : Waiter}
    (hx : s.waiters[w]? = some x) {a : Answer} (ha : a ∈ s.answersOf x.requestId)
    (more : List QueryLabel)
    (hkept : (run queryStep s more).requests.get? x.requestId ≠ none)
    (hy : (run queryStep s more).waiters[w]? = some y) :
    y.phase.rank + more.countP (QueryLabel.ofWaiter w) ≤ x.phase.rank := by
  induction more generalizing s x with
  | nil =>
      obtain rfl : x = y := Option.some.inj (hx.symm.trans hy)
      exact le_refl _
  | cons l more ih =>
      have hopen := h.opened w x hx
      obtain ⟨v, hm⟩ := request_step s l hopen
      obtain ⟨z, hz, hid, hother, hown⟩ := waiter_step hx l
      -- the row is there at the end, so it is there now
      obtain ⟨row, hrow⟩ : ∃ row, s.requests.get? x.requestId = some row := by
        apply Option.ne_none_iff_exists'.mp
        intro hnone
        exact hkept (gone_run (hm.opened hopen) (hm.gone hnone) more)
      have hrank := ih (queryInv_step h l) hz (hid ▸ hm.answers a ha) (hid ▸ hkept) hy
      rw [List.countP_cons]
      cases hl : l.ofWaiter w with
      | false =>
          rw [hother hl] at hrank
          simpa using hrank
      | true =>
          obtain ⟨elapsed, rfl⟩ : ∃ elapsed, l = .wait w elapsed := by
            cases l with
            | wait v elapsed => exact ⟨elapsed, by simpa [QueryLabel.ofWaiter] using hl⟩
            | _ => cases hl
          obtain ⟨-, -, ⟨-, hnil⟩ | ⟨b, hb, -⟩⟩ := (h.story x.requestId).of_some hrow
          · rw [hnil] at ha
            cases ha
          have hlt := rank_next_lt (h.story _) (h.waiters w x hx) hrow hb.status_ne elapsed
          rw [hown elapsed rfl] at hrank
          simp only [if_true]
          simp only at hrank
          omega

/-- **The vector arrives.** A server whose request was completed, and neither purged nor consumed
by another reader, returns the vector. -/
theorem vector_arrives {s : QueryState} (h : QueryInv s) {w : Nat} {x : Waiter}
    {vector : ProviderVector} {model : String} (hx : s.waiters[w]? = some x)
    (ha : .complete vector model ∈ s.answersOf x.requestId) (more : List QueryLabel) (hkept : (run queryStep s more).Kept w x.requestId) :
    ∃ y, (run queryStep s more).waiters[w]? = some y ∧
      (∀ result, y.phase = .returned result → result = .ok vector.components) ∧
      (4 ≤ more.countP (QueryLabel.ofWaiter w) → y.phase = .returned (.ok vector.components)) := by
  obtain ⟨y, hy, hid, hanswers⟩ := waiter_run h hx more
  have hinv := queryInv_run h more
  have hstory := hinv.story x.requestId
  have hfinal := hanswers _ ha
  have honly : ∀ b ∈ (run queryStep s more).answersOf x.requestId, b = .complete vector model :=
    fun b hb => hstory.answer_unique hb hfinal
  have hwaiter := hinv.waiters w y hy
  refine ⟨y, hy, ?_⟩
  rcases hkept with hrow | ⟨found, hfound⟩
  -- still there: the server has not returned, and has not had its four steps
  · have hopen : ∀ result, y.phase ≠ .returned result := by
      intro result hr
      exact hrow (hid ▸ hwaiter.returned result hr)
    refine ⟨fun result hr => absurd hr (hopen result), ?_⟩
    intro hsteps
    have hrank := rank_run h hx ha more hrow hy
    have hle := x.phase.rank_le
    have hpos : 0 < y.phase.rank := WaitPhase.rank_pos hopen
    omega
  -- consumed by this server: it returned what it took
  · have hphase : y.phase = .returned (.ok vector.components) := by
      rcases hstory.takes_eq with hnil | ⟨b, reader, hb, htakes⟩
      · rw [hnil] at hfound
        cases hfound
      · rw [htakes] at hfound
        obtain rfl : found = b.outcome := (Prod.mk.inj (List.mem_singleton.mp hfound)).2
        obtain rfl := honly b (by simp [hb])
        have hmem : (some w, (Answer.complete vector model).outcome) ∈
            (run queryStep s more).takesOf y.requestId := by
          rw [hid, htakes]
          exact hfound
        rcases hwaiter.took _ hmem with hr | hr
        · exact hr
        · cases hr
    refine ⟨?_, fun _ => hphase⟩
    intro result hr
    exact WaitPhase.returned.inj (hr.symm.trans hphase)

/-! ## Runs -/

/-- **Answered once.** In every run every request is answered, taken and returned at most once and
with one outcome, in every state reached. -/
theorem answered_once (labels : List QueryLabel) :
    AnsweredOnce (run queryStep .empty labels) := by
  have hinv := queryInv_run queryInv_empty labels
  refine ⟨fun id => (hinv.story id).length_answers, ?_, ?_, ?_, ?_⟩
  · intro id
    rcases (hinv.story id).takes_eq with ht | ⟨a, reader, -, ht⟩
    · simp [ht]
    · simp [ht]
  · intro id reader found hmem
    rcases (hinv.story id).takes_eq with ht | ⟨a, reader', ha, ht⟩
    · rw [ht] at hmem
      cases hmem
    · rw [ht] at hmem
      exact ⟨a, by simp [ha], (Prod.mk.inj (List.mem_singleton.mp hmem)).2⟩
  · intro id hid hgone
    exact ⟨fun workspaceId active now a => record_of_gone active now a hgone,
      fun more => gone_run hid hgone more⟩
  · intro w x vector model hx ha more hkept
    exact vector_arrives hinv hx ha more hkept

-- completed between the last poll and the expiry: the server returns the vector
example :
    ((run queryStep .empty
      [.open 1 7 "query" 60 1000 1000 0, .wait 0 false, .wait 0 false, .wait 0 true,
        .call (.record 7 1 (fun _ => true) 1 (.complete ⟨[.finite 1], rfl⟩ "model")),
        .wait 0 false, .wait 0 false]).waiters[0]?.map Waiter.phase) =
      some (.returned (.ok [.finite 1])) := by
  decide

end Yorishiro.Query
