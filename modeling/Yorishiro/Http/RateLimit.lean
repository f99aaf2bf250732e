import Yorishiro.Base.Error
import Yorishiro.Base.Uuid
import Yorishiro.Lib.OrderedMap

/-!
# The rate limiter

A `RateLimiter` keeps a bucket for each key: when its window opened, and what has been charged
since. A window is over when a call finds it so. Buckets whose windows are over are evicted from
time to time, inside calls for any key.

Eviction is not seen: a call finds an expired bucket as it finds none (`SameAt`), so that the
answers are those of a limiter that never evicts (`answers_allowCost`). A call reads and writes the bucket of
its key only (`answers_filter`). Within one window what is admitted fits the limit, or it is one
call that was too large by itself and the first to cost anything (`bounded_of_mem_windows`).
-/

set_option autoImplicit false

namespace Yorishiro.Http

open Yorishiro.Lib

/-! ## The functions -/

/-- `u32::MAX`. -/
def u32Max : Nat := 2 ^ 32 - 1

/-- `GC_BUCKET_THRESHOLD`. -/
def gcBucketThreshold : Nat := 128

/-- What `RateLimiter` is configured with. -/
structure RateLimiter where
  maxRequests : Nat
  window : Nat
deriving DecidableEq, Repr

/-- An entry of `buckets`. -/
structure Bucket where
  start : Nat
  count : Nat
deriving DecidableEq, Repr

/-- `buckets`. -/
abbrev Buckets := OrderedMap String Bucket

/-- A call of `allow_cost`, with the time it reads. -/
structure Call where
  key : String
  cost : Nat
  now : Nat
deriving DecidableEq, Repr

namespace RateLimiter

variable (l : RateLimiter)

/-- The eviction. -/
def evict (now : Nat) (buckets : Buckets) : Buckets :=
  if gcBucketThreshold < buckets.entries.length then
    buckets.filter fun _ bucket => now - bucket.start < l.window
  else buckets

/-- The bucket as a call finds it: another one when it is not there or its window is over. -/
def entryAt (now : Nat) (entry : Option Bucket) : Bucket :=
  let entry := entry.getD { start := now, count := 0 }
  if l.window ≤ now - entry.start then { start := now, count := 0 } else entry

/-- `allow_cost` after the eviction. -/
def charge (buckets : Buckets) (call : Call) : Bool × Buckets :=
  let entry := l.entryAt call.now (buckets.get? call.key)
  let wasEmpty := entry.count == 0
  let count := min (entry.count + call.cost) u32Max
  (decide (count ≤ l.maxRequests) || wasEmpty,
    buckets.insert call.key { entry with count := count })

/-- `allow_cost`. -/
def allowCost (buckets : Buckets) (call : Call) : Bool × Buckets :=
  l.charge (l.evict call.now buckets) call

/-- `allow`. -/
def allow (buckets : Buckets) (key : String) (now : Nat) : Bool × Buckets :=
  l.allowCost buckets { key := key, cost := 1, now := now }

end RateLimiter

/-- The tokens a search is charged for: one for four bytes, rounded up. -/
def searchTokens (queryText : String) : Nat :=
  let tokens := (queryText.utf8ByteSize + 3) / 4
  if tokens ≤ u32Max then tokens else u32Max

/-- The call that a search makes. -/
def searchCall (workspaceId : Uuid) (queryText : String) (now : Nat) : Call where
  key := workspaceId.toString
  cost := searchTokens queryText
  now := now

/-- `charge_search_tokens`. -/
def chargeSearchTokens (limiter : RateLimiter) (buckets : Buckets) (workspaceId : Uuid)
    (queryText : String) (now : Nat) : Except YorishiroError Unit × Buckets :=
  let answer := limiter.allowCost buckets (searchCall workspaceId queryText now)
  if answer.1 then (.ok (), answer.2)
  else
    (.error (.validationFailed "this workspace has spent its search token budget for the minute" []
      "retry shortly, or raise YORISHIRO_SEARCH_TOKENS_PER_MINUTE"), answer.2)

/-! ## Runs -/

/-- Calls, one after another, with their answers. -/
def answers (step : Buckets → Call → Bool × Buckets) : Buckets → List Call → List (Call × Bool)
  | _, [] => []
  | buckets, call :: calls =>
      (call, (step buckets call).1) :: answers step (step buckets call).2 calls

/-- The answers cut into windows: the window that was opened at `opened`, with what it has so far,
and the ones after it. -/
def windowsFrom (window opened : Nat) (sofar : List (Call × Bool)) :
    List (Call × Bool) → List (List (Call × Bool))
  | [] => [sofar]
  | a :: rest =>
      if a.1.now - opened < window then windowsFrom window opened (sofar ++ [a]) rest
      else sofar :: windowsFrom window a.1.now [a] rest

/-- The windows of one key. A window is counted from the call that opens it. -/
def windows (window : Nat) : List (Call × Bool) → List (List (Call × Bool))
  | [] => []
  | a :: rest => windowsFrom window a.1.now [a] rest

/-- The cost of what was admitted. -/
def admittedCost (w : List (Call × Bool)) : Nat :=
  ((w.filter fun a => a.2).map fun a => a.1.cost).sum

/-- What was admitted fits the limit, or there is one admitted call that cost anything, which was
the first one to do so. -/
def Bounded (limit : Nat) (w : List (Call × Bool)) : Prop :=
  admittedCost w ≤ limit ∨
    ∃ a, (w.filter fun a => a.2 && decide (a.1.cost ≠ 0)) = [a] ∧
      (w.filter fun a => decide (a.1.cost ≠ 0)).head? = some a

section Answers

variable {l : RateLimiter} {buckets : Buckets} {key : String}

/-! ## Eviction is not seen -/

theorem entryAt_of_over {now : Nat} {bucket : Bucket} (h : l.window ≤ now - bucket.start) :
    l.entryAt now (some bucket) = { start := now, count := 0 } :=
  if_pos h

theorem entryAt_of_open {now : Nat} {bucket : Bucket} (h : now - bucket.start < l.window) :
    l.entryAt now (some bucket) = bucket :=
  if_neg (Nat.not_le.mpr h)

theorem entryAt_none (l : RateLimiter) (now : Nat) :
    l.entryAt now none = { start := now, count := 0 } := by
  rw [RateLimiter.entryAt, Option.getD_none, ite_id]

/-- No call from `now` on tells the two apart. -/
def SameAt (l : RateLimiter) (now : Nat) (buckets kept : Buckets) : Prop :=
  ∀ key t, now ≤ t → l.entryAt t (buckets.get? key) = l.entryAt t (kept.get? key)

theorem SameAt.refl (l : RateLimiter) (now : Nat) (buckets : Buckets) :
    SameAt l now buckets buckets :=
  fun _ _ _ => rfl

theorem SameAt.later {now t : Nat} {kept : Buckets} (h : SameAt l now buckets kept)
    (hle : now ≤ t) : SameAt l t buckets kept :=
  fun key u hu => h key u (hle.trans hu)

/-- What is evicted has expired, and has for every later call. -/
theorem SameAt.evict {now : Nat} {kept : Buckets} (h : SameAt l now buckets kept) :
    SameAt l now (l.evict now buckets) kept := by
  intro key t ht
  rw [← h key t ht, RateLimiter.evict]
  split_ifs
  · rw [OrderedMap.get?_filter]
    cases hget : buckets.get? key with
    | none => rfl
    | some bucket =>
        by_cases hopen : now - bucket.start < l.window
        · rw [Option.filter_some_pos (by simpa using hopen)]
        · rw [Option.filter_some_neg (by simpa using hopen), entryAt_none, entryAt_of_over]
          omega
  · rfl

theorem charge_answer {kept : Buckets} {call : Call}
    (h : l.entryAt call.now (buckets.get? call.key) = l.entryAt call.now (kept.get? call.key)) :
    (l.charge buckets call).1 = (l.charge kept call).1 := by
  rw [RateLimiter.charge, RateLimiter.charge, h]

/-- A call leaves what it finds with its cost added, and the other keys alone. -/
theorem get?_charge (buckets : Buckets) (call : Call) (key : String) :
    (l.charge buckets call).2.get? key =
      if key = call.key then
        some { l.entryAt call.now (buckets.get? call.key) with
          count := min ((l.entryAt call.now (buckets.get? call.key)).count + call.cost) u32Max }
      else buckets.get? key :=
  OrderedMap.get?_insert ..

theorem SameAt.charge {kept : Buckets} {call : Call} (h : SameAt l call.now buckets kept) :
    SameAt l call.now (l.charge buckets call).2 (l.charge kept call).2 := by
  intro key t ht
  rw [get?_charge, get?_charge, h call.key call.now le_rfl]
  split_ifs
  · rfl
  · exact h key t ht

/-- By induction on the calls: after each of them the two limiters look the same. -/
theorem answers_allowCost {kept : Buckets} {now : Nat} {calls : List Call}
    (h : SameAt l now buckets kept) (hnow : ∀ call ∈ calls, now ≤ call.now)
    (htimes : calls.Pairwise fun a b => a.now ≤ b.now) :
    answers l.allowCost buckets calls = answers l.charge kept calls := by
  induction calls generalizing buckets kept now with
  | nil => rfl
  | cons call calls ih =>
      obtain ⟨hlater, hrest⟩ := List.pairwise_cons.mp htimes
      have hsame : SameAt l call.now (l.evict call.now buckets) kept :=
        (h.later (hnow call List.mem_cons_self)).evict
      rw [answers, answers, RateLimiter.allowCost, charge_answer (hsame _ _ le_rfl),
        ih hsame.charge hlater hrest]

/-! ## Keys are apart -/

theorem answers_filter {kept : Buckets} (h : buckets.get? key = kept.get? key)
    (calls : List Call) :
    (answers l.charge buckets calls).filter (fun a => decide (a.1.key = key)) =
      answers l.charge kept (calls.filter fun call => decide (call.key = key)) := by
  induction calls generalizing buckets kept with
  | nil => rfl
  | cons call calls ih =>
      rw [answers]
      by_cases hkey : call.key = key
      · have hanswer : (l.charge buckets call).1 = (l.charge kept call).1 := by
          apply charge_answer
          rw [hkey, h]
        rw [List.filter_cons_of_pos (by simpa using hkey),
          List.filter_cons_of_pos (by simpa using hkey), answers, hanswer]
        congr 1
        apply ih
        rw [get?_charge, get?_charge, hkey, h]
      · rw [List.filter_cons_of_neg (by simpa using hkey),
          List.filter_cons_of_neg (by simpa using hkey)]
        apply ih
        rw [get?_charge, if_neg (Ne.symm hkey), h]

/-! ## One window -/

/-- What a window has so far, beside the count of its bucket: within the limit everything was
admitted; beyond it nothing more will be. -/
def Spent (limit : Nat) (w : List (Call × Bool)) (count : Nat) : Prop :=
  (count ≤ limit ∧ (∀ a ∈ w, a.2 = true) ∧ (w.map fun a => a.1.cost).sum = count) ∨
    (limit < count ∧ Bounded limit w)

variable {limit count : Nat} {w : List (Call × Bool)}

theorem admittedCost_append (w : List (Call × Bool)) (a : Call × Bool) :
    admittedCost (w ++ [a]) = admittedCost w + if a.2 then a.1.cost else 0 := by
  rw [admittedCost, List.filter_append, List.map_append, List.sum_append, ← admittedCost]
  cases h : a.2 <;> simp [h]

theorem admittedCost_of_all (h : ∀ a ∈ w, a.2 = true) :
    admittedCost w = (w.map fun a => a.1.cost).sum := by
  rw [admittedCost, List.filter_eq_self.mpr h]

theorem Spent.bounded (h : Spent limit w count) : Bounded limit w := by
  rcases h with ⟨hle, hall, hsum⟩ | ⟨-, hbounded⟩
  · left
    rw [admittedCost_of_all hall, hsum]
    exact hle
  · exact hbounded

theorem Spent.nil (limit : Nat) : Spent limit [] 0 :=
  Or.inl ⟨Nat.zero_le _, fun _ ha => absurd ha List.not_mem_nil, rfl⟩

/-- Nothing changes for what was admitted when a call is refused. -/
theorem Bounded.refused (h : Bounded limit w) (call : Call) :
    Bounded limit (w ++ [(call, false)]) := by
  rcases h with hle | ⟨a, halone, hfirst⟩
  · left
    rw [admittedCost_append]
    exact hle
  · refine Or.inr ⟨a, ?_, ?_⟩
    · rw [List.filter_append, halone]
      rfl
    · rw [List.filter_append, List.head?_append, hfirst]
      rfl

/-- In a window in which nothing cost anything one more call may be too large. -/
theorem Bounded.oversized (hfree : (w.map fun a => a.1.cost).sum = 0) {call : Call}
    (hcost : call.cost ≠ 0) : Bounded limit (w ++ [(call, true)]) := by
  have hzero : ∀ a ∈ w, a.1.cost = 0 := fun a ha =>
    List.sum_eq_zero_iff_forall_eq_nat.mp hfree _ (List.mem_map_of_mem ha)
  have hnone : (w.filter fun a => decide (a.1.cost ≠ 0)) = [] := by
    rw [List.filter_eq_nil_iff]
    intro a ha
    simp [hzero a ha]
  have hadmitted : (w.filter fun a => a.2 && decide (a.1.cost ≠ 0)) = [] := by
    rw [List.filter_eq_nil_iff]
    intro a ha
    simp [hzero a ha]
  refine Or.inr ⟨(call, true), ?_, ?_⟩
  · rw [List.filter_append, hadmitted]
    simp [hcost]
  · rw [List.filter_append, hnone]
    simp [hcost]

/-- One call in an open window. -/
theorem Spent.charge (hlimit : limit < u32Max) (h : Spent limit w count) (call : Call) :
    Spent limit
      (w ++ [(call, decide (min (count + call.cost) u32Max ≤ limit) || count == 0)])
      (min (count + call.cost) u32Max) := by
  by_cases hfits : min (count + call.cost) u32Max ≤ limit
  -- the count has not been cut off, and was within the limit before
  · have hsum : min (count + call.cost) u32Max = count + call.cost := by omega
    rcases h with ⟨-, hall, hw⟩ | ⟨hover, -⟩
    · left
      refine ⟨hfits, fun a ha => ?_, ?_⟩
      · rcases List.mem_append.mp ha with ha | ha
        · exact hall a ha
        · rw [List.mem_singleton.mp ha, decide_eq_true hfits, Bool.true_or]
      · rw [List.map_append, List.sum_append, hw, hsum]
        simp
    · omega
  · have hover : limit < min (count + call.cost) u32Max := Nat.lt_of_not_le hfits
    rw [decide_eq_false hfits, Bool.false_or]
    refine Or.inr ⟨hover, ?_⟩
    by_cases hempty : count = 0
    · have hcost : call.cost ≠ 0 := by
        intro hzero
        rw [hempty, hzero] at hover
        omega
      rcases h with ⟨-, -, hw⟩ | ⟨hlt, -⟩
      · rw [hempty] at hw
        rw [hempty]
        exact Bounded.oversized hw hcost
      · omega
    · rw [beq_eq_false_iff_ne.mpr hempty]
      exact h.bounded.refused call

/-- By induction on the calls: the bucket of the key counts what the open window has so far. -/
theorem bounded_windowsFrom (hlimit : l.maxRequests < u32Max) {calls : List Call}
    (hkeys : ∀ call ∈ calls, call.key = key) {bucket : Bucket}
    (hget : buckets.get? key = some bucket) (hspent : Spent l.maxRequests w bucket.count) :
    ∀ v ∈ windowsFrom l.window bucket.start w (answers l.charge buckets calls),
      Bounded l.maxRequests v := by
  induction calls generalizing buckets bucket w with
  | nil =>
      intro v hv
      rw [answers, windowsFrom, List.mem_singleton] at hv
      rw [hv]
      exact hspent.bounded
  | cons call calls ih =>
      obtain ⟨hkey, hrest⟩ := List.forall_mem_cons.mp hkeys
      have hafter := get?_charge (l := l) buckets call key
      rw [if_pos hkey.symm, hkey, hget] at hafter
      intro v hv
      rw [answers, windowsFrom] at hv
      split_ifs at hv with hopen
      · rw [entryAt_of_open hopen] at hafter
        refine ih hrest hafter ?_ v hv
        rw [RateLimiter.charge, hkey, hget, entryAt_of_open hopen]
        exact hspent.charge hlimit call
      · rw [entryAt_of_over (Nat.le_of_not_lt hopen)] at hafter
        rcases List.mem_cons.mp hv with rfl | hv
        · exact hspent.bounded
        · refine ih hrest hafter ?_ v hv
          rw [RateLimiter.charge, hkey, hget, entryAt_of_over (Nat.le_of_not_lt hopen)]
          exact (Spent.nil _).charge hlimit call

theorem bounded_of_mem_windows (hlimit : l.maxRequests < u32Max) {calls : List Call}
    (hkeys : ∀ call ∈ calls, call.key = key) (hget : buckets.get? key = none) :
    ∀ v ∈ windows l.window (answers l.charge buckets calls), Bounded l.maxRequests v := by
  cases calls with
  | nil => exact fun v hv => absurd hv List.not_mem_nil
  | cons call calls =>
      obtain ⟨hkey, hrest⟩ := List.forall_mem_cons.mp hkeys
      have hafter := get?_charge (l := l) buckets call key
      rw [if_pos hkey.symm, hkey, hget, entryAt_none] at hafter
      rw [answers, windows]
      refine bounded_windowsFrom hlimit hrest hafter ?_
      rw [RateLimiter.charge, hkey, hget, entryAt_none]
      exact (Spent.nil _).charge hlimit call

end Answers

/-- The answers of a new limiter. -/
def RateLimiter.answered (l : RateLimiter) (calls : List Call) : List (Call × Bool) :=
  answers l.allowCost .empty calls

/-- The answers of a new limiter that never evicts. -/
def RateLimiter.answeredKeeping (l : RateLimiter) (calls : List Call) : List (Call × Bool) :=
  answers l.charge .empty calls

theorem answered_eq_keeping (l : RateLimiter) {calls : List Call}
    (htimes : calls.Pairwise fun a b => a.now ≤ b.now) :
    l.answered calls = l.answeredKeeping calls :=
  answers_allowCost (.refl l 0 _) (fun _ _ => Nat.zero_le _) htimes

theorem answered_filter (l : RateLimiter) {calls : List Call}
    (htimes : calls.Pairwise fun a b => a.now ≤ b.now) (key : String) :
    (l.answered calls).filter (fun a => decide (a.1.key = key)) =
      l.answered (calls.filter fun call => decide (call.key = key)) := by
  rw [answered_eq_keeping l htimes, answered_eq_keeping l (htimes.filter _)]
  exact answers_filter rfl calls

/-- **The rate limiter.** Its answers do not depend on evictions; what a window admits is bounded;
keys do not affect each other. -/
theorem rate_limit (l : RateLimiter) (hlimit : l.maxRequests < 2 ^ 32 - 1) (calls : List Call)
    (htimes : calls.Pairwise fun a b => a.now ≤ b.now) :
    l.answered calls = l.answeredKeeping calls ∧
    (∀ key, ∀ w ∈ windows l.window ((l.answered calls).filter fun a => decide (a.1.key = key)),
      Bounded l.maxRequests w) ∧
    (∀ key, (l.answered calls).filter (fun a => decide (a.1.key = key)) =
      l.answered (calls.filter fun call => decide (call.key = key))) := by
  refine ⟨answered_eq_keeping l htimes, fun key => ?_, answered_filter l htimes⟩
  rw [answered_filter l htimes, answered_eq_keeping l (htimes.filter _)]
  have hkeys : ∀ call ∈ calls.filter fun call => decide (call.key = key), call.key = key :=
    fun call hcall => of_decide_eq_true (List.mem_filter.mp hcall).2
  exact bounded_of_mem_windows hlimit hkeys rfl

/-- A limit of three: a call of two is admitted, another one is not, and a new window opens. -/
theorem rate_limit_three :
    (RateLimiter.mk 3 10).answered [⟨"a", 2, 0⟩, ⟨"a", 2, 5⟩, ⟨"a", 7, 10⟩] =
        (RateLimiter.mk 3 10).answeredKeeping [⟨"a", 2, 0⟩, ⟨"a", 2, 5⟩, ⟨"a", 7, 10⟩] ∧
      ∀ w ∈ windows 10 (((RateLimiter.mk 3 10).answered
        [⟨"a", 2, 0⟩, ⟨"a", 2, 5⟩, ⟨"a", 7, 10⟩]).filter fun a => decide (a.1.key = "a")),
        Bounded 3 w :=
  have h := rate_limit (RateLimiter.mk 3 10) (by decide)
    [⟨"a", 2, 0⟩, ⟨"a", 2, 5⟩, ⟨"a", 7, 10⟩] (by simp)
  ⟨h.1, h.2.1 "a"⟩

/-! ## Searches -/

/-- A search is refused when its call is. -/
theorem chargeSearchTokens_fst (limiter : RateLimiter) (buckets : Buckets) (workspaceId : Uuid)
    (queryText : String) (now : Nat) :
    (chargeSearchTokens limiter buckets workspaceId queryText now).1 = .ok () ↔
      (limiter.allowCost buckets (searchCall workspaceId queryText now)).1 = true := by
  rw [chargeSearchTokens]
  split_ifs with h
  · simp [h]
  · simp [h]

/-- Searches of one workspace are answered as if there were no others. -/
theorem searches_filter (l : RateLimiter) (searches : List (Uuid × String × Nat))
    (htimes : searches.Pairwise fun a b => a.2.2 ≤ b.2.2) (workspaceId : Uuid) :
    (l.answered (searches.map fun s => searchCall s.1 s.2.1 s.2.2)).filter
        (fun a => decide (a.1.key = workspaceId.toString)) =
      l.answered ((searches.filter fun s => decide (s.1 = workspaceId)).map fun s =>
        searchCall s.1 s.2.1 s.2.2) := by
  have hcalls : (searches.map fun s => searchCall s.1 s.2.1 s.2.2).Pairwise
      fun a b => a.now ≤ b.now := List.pairwise_map.mpr htimes
  have hsearches : (searches.map fun s => searchCall s.1 s.2.1 s.2.2).filter
      (fun call => decide (call.key = workspaceId.toString)) =
        (searches.filter fun s => decide (s.1 = workspaceId)).map fun s =>
          searchCall s.1 s.2.1 s.2.2 := by
    rw [List.filter_map]
    refine congrArg _ (List.filter_congr fun s _ => ?_)
    rw [Function.comp_apply, searchCall]
    exact decide_eq_decide.mpr Uuid.toString_inj
  rw [answered_filter l hcalls, hsearches]

end Yorishiro.Http
