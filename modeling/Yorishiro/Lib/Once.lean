import Yorishiro.Lib.SingleWriter

/-!
# Work that is done once

Jobs that are delivered again and again. A delivery takes the lock of its job and looks for the
job's mark; where there is one it ends, and otherwise it does the work, which leaves the mark with
what came of it, all in one transaction (`Marks.once`).

`Marks.OnceOnly` says what this is for: a job has been worked off at most once, its mark is what
came of that, a delivery that has ended has found or left it, and one that found it changed
nothing. It holds in every interleaving under locks (`Marks.onceOnly_run`) and with a single
writer (`Marks.onceOnly_single`).
-/

set_option autoImplicit false

namespace Yorishiro.Lib.Fence

variable {ι ν σ ε η β : Type}

/-- Where the marks of the jobs are found, and the lock of each. -/
structure Marks (ι ν σ β : Type) where
  name : ι → ν
  found : σ → ι → List β

namespace Marks

variable (M : Marks ι ν σ β)

/-- Does the work of a job, which leaves its mark, unless the mark is there. -/
def once (job : ι) (work : Script ν σ ε β) : Script ν σ ε (Option β) := do
  .acquire (M.name job)
  let done ← .read fun d => !(M.found d job).isEmpty
  if done then pure none
  else do
    let result ← work
    pure (some result)

/-- The marks stay. -/
def Keeps (d d' : σ) : Prop := ∀ job, M.found d' job = M.found d job

/-- What came of the deliveries of a job that did the work. -/
def performed [DecidableEq ι] (log : List (Entry ι σ (Option β))) (job : ι) : List β :=
  log.filterMap fun e => if e.job = job then e.result else none

/-- What is committed, after a start with the marks of `d₀`. -/
structure OnceOnly [DecidableEq ι] (d₀ : σ) (w : State ι σ (Option β)) : Prop where
  marks : ∀ job, M.found w.db job = M.found d₀ job ++ performed w.log job
  atMostOnce : ∀ job, (M.found w.db job).length ≤ 1
  settled : ∀ e ∈ w.log, M.found w.db e.job ≠ []
  idle : ∀ e ∈ w.log, e.result = none → e.after = e.before

variable [DecidableEq ι] {M}

theorem performed_append (log : List (Entry ι σ (Option β))) (e : Entry ι σ (Option β))
    (job : ι) :
    performed (log ++ [e]) job =
      performed log job ++ (if e.job = job then e.result.toList else []) := by
  unfold performed
  rw [List.filterMap_append]
  congr 1
  by_cases h : e.job = job
  · rw [if_pos h]
    cases hresult : e.result with
    | none => simp [h, hresult]
    | some r => simp [h, hresult]
  · rw [if_neg h]
    simp [h]

variable (M) in
/-- What the deliveries rely on. -/
def discipline (d₀ : σ) : Discipline ι ν σ (Option β) where
  inv := M.OnceOnly d₀
  onward := fun w w' => ∀ job, M.found w.db job <+: M.found w'.db job
  keeps := fun name w w' => ∀ job, M.name job = name → M.found w'.db job = M.found w.db job
  met := fun _ _ _ => True
  onward_refl := fun _ _ => List.prefix_rfl
  onward_trans := fun _ _ _ h h' job => (h job).trans (h' job)
  keeps_refl := fun _ _ _ _ => rfl
  keeps_trans := fun _ _ _ _ h h' job hname => (h' job hname).trans (h job hname)

theorem OnceOnly.init {d₀ : σ} (h : ∀ job, (M.found d₀ job).length ≤ 1) :
    M.OnceOnly d₀ ⟨d₀, []⟩ where
  marks := fun job => (List.append_nil (M.found d₀ job)).symm
  atMostOnce := h
  settled := fun _ he => absurd he List.not_mem_nil
  idle := fun _ he => absurd he List.not_mem_nil

/-- A change that leaves the marks leaves what they say. -/
theorem OnceOnly.keep {d₀ d : σ} {w : State ι σ (Option β)} (h : M.OnceOnly d₀ w)
    (hkeep : M.Keeps w.db d) : M.OnceOnly d₀ { w with db := d } where
  marks := fun job => (hkeep job).trans (h.marks job)
  atMostOnce := fun job => (hkeep job).symm ▸ h.atMostOnce job
  settled := fun e he => (hkeep e.job).symm ▸ h.settled e he
  idle := h.idle

/-- A delivery that has found the mark commits what it met. -/
theorem OnceOnly.found {d₀ : σ} {w : State ι σ (Option β)} (h : M.OnceOnly d₀ w) {job : ι}
    (hmark : M.found w.db job ≠ []) (seen : List σ) :
    M.OnceOnly d₀ (w.commit job none seen w.db) where
  marks := fun other => by
    rw [State.commit, performed_append]
    simp only [Option.toList_none, ite_self, List.append_nil]
    exact h.marks other
  atMostOnce := h.atMostOnce
  settled := fun e he => by
    rcases List.mem_append.mp he with he | he
    · exact h.settled e he
    · obtain rfl := List.mem_singleton.mp he
      exact hmark
  idle := fun e he => by
    rcases List.mem_append.mp he with he | he
    · exact h.idle e he
    · obtain rfl := List.mem_singleton.mp he
      exact fun _ => rfl

/-- What a delivery that does the work adds to the marks. -/
def Adds (M : Marks ι ν σ β) (job : ι) (result : β) (d d' : σ) : Prop :=
  ∀ other, M.found d' other = M.found d other ++ if job = other then [result] else []

/-- A delivery that has found no mark leaves the first one. -/
theorem OnceOnly.left {d₀ d : σ} {w : State ι σ (Option β)} (h : M.OnceOnly d₀ w) {job : ι}
    (hnone : M.found w.db job = []) {result : β} (hadds : M.Adds job result w.db d)
    (seen : List σ) : M.OnceOnly d₀ (w.commit job (some result) seen d) where
  marks := fun other => by
    rw [State.commit, performed_append]
    refine (hadds other).trans ?_
    rw [h.marks other, List.append_assoc]
    rfl
  atMostOnce := fun other => by
    refine (congrArg List.length (hadds other)).trans_le ?_
    split_ifs with hjob
    · subst hjob
      rw [hnone]
      exact le_refl 1
    · rw [List.append_nil]
      exact h.atMostOnce other
  settled := fun e he => by
    refine fun hnil => ?_
    have hempty := List.append_eq_nil_iff.mp ((hadds e.job).symm.trans hnil)
    rcases List.mem_append.mp he with he | he
    · exact h.settled e he hempty.1
    · obtain rfl := List.mem_singleton.mp he
      rw [if_pos rfl] at hempty
      exact List.cons_ne_nil _ _ hempty.2
  idle := fun e he => by
    rcases List.mem_append.mp he with he | he
    · exact h.idle e he
    · obtain rfl := List.mem_singleton.mp he
      exact fun hnone => (nomatch hnone)

/-- From the delivery's first look at its mark on, the locks it has protect the mark. -/
theorem once_verified {code : ι → Script ν σ ε (Option β)} {work : ι → Script ν σ ε β}
    (hcode : ∀ job, code job = M.once job (work job))
    (hwork : ∀ job, (work job).Effects fun d result d' => M.Adds job result d d') (d₀ : σ) :
    Verified (M.discipline d₀) code := by
  intro job w hw
  rw [hcode]
  unfold once
  refine (Script.wp_bind _ _).mpr ((Script.wp_acquire _).mpr fun w₁ hw₁ => ?_)
  refine (Script.wp_bind _ _).mpr ((Script.wp_read _).mpr fun w₂ hw₂ v hv _ => ?_)
  obtain rfl : w₂.db = v := Except.ok.inj hv
  dsimp only
  split_ifs with hdone
  · -- the mark is there, and stays until the commit
    refine fun w₃ hw₃ d hd => ?_
    obtain rfl : w₃.db = d := Except.ok.inj hd
    have hmark : M.found w₃.db job = M.found w₂.db job :=
      hw₃.keeps (M.name job) List.mem_cons_self job rfl
    have hfound : M.found w₃.db job ≠ [] := by
      rw [hmark]
      simpa using hdone
    exact
      { inv := hw₃.inv.found hfound _
        onward := fun _ => List.prefix_rfl
        keeps := fun _ _ _ _ => rfl }
  · -- there is no mark until the commit, which leaves one
    have heffects : (work job >>= fun result =>
        (pure (some result) : Script ν σ ε (Option β))).Effects
          fun d r d' => ∃ result, r = some result ∧ M.Adds job result d d' := by
      refine (hwork job).bind (fun result => Script.effects_pure (some result)) ?_
      rintro d result d₁ r d₂ hadds ⟨rfl, rfl⟩
      exact ⟨result, rfl, hadds⟩
    refine Script.wp_effects heffects hw₂.inv fun r held seen pending w₃ hheld hw₃ hpending => ?_
    refine fun w₄ hw₄ d hd => ?_
    obtain ⟨d', hd', result, rfl, hadds⟩ := hpending w₄.db d hd
    obtain rfl : w₄.db = d' := Except.ok.inj hd'
    have hname : M.name job ∈ held := hheld List.mem_cons_self
    have hnone : M.found w₄.db job = [] := by
      rw [hw₄.keeps _ hname job rfl, hw₃.keeps _ List.mem_cons_self job rfl]
      simpa using hdone
    exact
      { inv := hw₄.inv.left hnone hadds _
        onward := fun other => (hadds other).symm ▸ List.prefix_append _ _
        keeps := fun name hfree other hother => by
          refine (hadds other).trans ?_
          rw [if_neg, List.append_nil]
          rintro rfl
          exact hfree (hother ▸ hname) }

section Runs

variable {code : ι → Script ν σ ε (Option β)} {work : ι → Script ν σ ε β}

theorem tame {env : η → σ → σ} (henv : ∀ e d, M.Keeps d (env e d)) (d₀ : σ) :
    Tame (M.discipline d₀) env := fun e w hw =>
  { inv := hw.keep (henv e w.db)
    onward := fun job => (henv e w.db job).symm ▸ List.prefix_rfl
    keeps := fun _ _ job _ => henv e w.db job }

/-- **Rule for deliveries under locks.** -/
theorem onceOnly_run [DecidableEq ν] {env : η → σ → σ}
    (hcode : ∀ job, code job = M.once job (work job))
    (hwork : ∀ job, (work job).Effects fun d result d' => M.Adds job result d d')
    (henv : ∀ e d, M.Keeps d (env e d)) {d₀ : σ} (h₀ : ∀ job, (M.found d₀ job).length ≤ 1)
    (is : List (Event ι η)) :
    M.OnceOnly d₀ (Transition.run (Server.step code env) (Server.init d₀) is).state :=
  (Server.sound_run (once_verified hcode hwork d₀) (tame henv d₀) (OnceOnly.init h₀)
    (Server.stepsMeet (fun _ _ _ => trivial) _ is)).inv

/-- **Rule for deliveries with a single writer.** -/
theorem onceOnly_single {env : η → σ → σ} (hcode : ∀ job, code job = M.once job (work job))
    (hwork : ∀ job, (work job).Effects fun d result d' => M.Adds job result d d')
    (henv : ∀ e d, M.Keeps d (env e d)) {d₀ : σ} (h₀ : ∀ job, (M.found d₀ job).length ≤ 1)
    (is : List (Event ι η)) :
    M.OnceOnly d₀
      (Transition.run (SingleWriter.Server.step code env) (SingleWriter.Server.init d₀) is).state :=
  SingleWriter.Server.inv_run (once_verified hcode hwork d₀) (tame henv d₀) (fun _ _ _ => trivial)
    (OnceOnly.init h₀) is

end Runs

end Marks

end Yorishiro.Lib.Fence
