import Yorishiro.Lib.Fence

/-!
# Transactions with a single writer

The scripts of `Yorishiro.Lib.Script` on a database that lets one transaction write at a time and
has no named locks. A transaction sees the database as it was at its first statement, with its own
changes. Its first change makes it the writer, for which it waits while another one writes; when
something has been committed since its first statement, it fails as a whole. It may be lost at any
point. The environment commits while none of them writes.

A transaction that is the writer from its beginning (`BEGIN IMMEDIATE`) is one whose statements
come while no other one writes, so its runs are among these.

So whoever commits a change has run alone (`Server.sound_step`), and what a discipline says of the
committed states holds here as well as under locks (`Server.inv_run`).
-/

set_option autoImplicit false

namespace Yorishiro.Lib.SingleWriter

open Yorishiro.Lib.Fence (Script State Event Discipline)

variable {ι ν σ ε ρ η : Type}

/-- A transaction that has begun, with the commits there had been at its first statement, and the
database as it sees it. -/
structure Session (ι ν σ ε ρ : Type) where
  job : ι
  script : Script ν σ ε ρ
  seen : List σ
  snapshot : Option (Nat × σ)

/-- What is committed, the number of commits, the transaction that writes and the open ones. -/
structure Server (ι ν σ ε ρ : Type) where
  state : State ι σ ρ
  version : Nat
  writer : Option Nat
  sessions : OrderedMap Nat (Session ι ν σ ε ρ)

namespace Server

/-- No transaction has begun. -/
def init (db : σ) : Server ι ν σ ε ρ := ⟨⟨db, []⟩, 0, none, OrderedMap.empty⟩

/-- What a transaction sees: its snapshot, or the database when it has none yet. -/
def view (s : Server ι ν σ ε ρ) (x : Session ι ν σ ε ρ) : Nat × σ :=
  x.snapshot.getD (s.version, s.state.db)

/-- Transaction `t` ends. -/
def close (s : Server ι ν σ ε ρ) (t : Nat) : Server ι ν σ ε ρ :=
  { s with
    writer := if s.writer = some t then none else s.writer
    sessions := s.sessions.erase t }

/-- Transaction `t` goes on as `x`. -/
def resume (s : Server ι ν σ ε ρ) (t : Nat) (x : Session ι ν σ ε ρ) : Server ι ν σ ε ρ :=
  { s with sessions := s.sessions.insert t x }

/-- Transaction `t` goes on as `x`, and writes. -/
def write (s : Server ι ν σ ε ρ) (t : Nat) (x : Session ι ν σ ε ρ) : Server ι ν σ ε ρ :=
  { s.resume t x with writer := some t }

/-- What the writer `t` has changed is committed. -/
def commit (s : Server ι ν σ ε ρ) (t : Nat) (x : Session ι ν σ ε ρ) (r : ρ) :
    Server ι ν σ ε ρ :=
  { s.close t with
    state := s.state.commit x.job r x.seen (s.view x).2
    version := s.version + 1 }

/-- The next statement of the open transaction `x`. -/
def advance (s : Server ι ν σ ε ρ) (t : Nat) (x : Session ι ν σ ε ρ) : Server ι ν σ ε ρ :=
  match x.script with
  | .done r => if s.writer = some t then s.commit t x r else s.close t
  | .fail _ => s.close t
  | .lock _ cont => s.resume t { x with script := cont }
  | .query cont =>
      s.resume t
        { x with
          script := cont (s.view x).2
          seen := x.seen ++ [(s.view x).2]
          snapshot := some (s.view x) }
  | .exec act cont =>
      if (s.writer.any fun w => decide (w ≠ t)) = true then s
      else if (s.view x).1 ≠ s.version then s.close t
      else
        match act (s.view x).2 with
        | .error _ => s.close t
        | .ok d' =>
            s.write t
              { x with
                script := cont (s.view x).2
                seen := x.seen ++ [(s.view x).2]
                snapshot := some (s.version, d') }

/-- The environment has committed the database. -/
def moved (s : Server ι ν σ ε ρ) (db : σ) : Server ι ν σ ε ρ :=
  { s with state := { s.state with db := db }, version := s.version + 1 }

/-- One step of the system; `code` gives the script of a job, `env` what the environment does. -/
def step (code : ι → Script ν σ ε ρ) (env : η → σ → σ) (s : Server ι ν σ ε ρ) :
    Event ι η → Server ι ν σ ε ρ
  | .start t job =>
      if (s.sessions.get? t).isSome then s else s.resume t ⟨job, code job, [], none⟩
  | .step t =>
      match s.sessions.get? t with
      | none => s
      | some x => s.advance t x
  | .drop t => s.close t
  | .env e => if s.writer.isSome then s else s.moved (env e s.state.db)

end Server

/-! ## Who commits has run alone -/

/-- From `d₀` the script `p₀` has seen `seen`, and goes on as `p` from `d`. -/
structure Reaches (p₀ : Script ν σ ε ρ) (d₀ : σ) (seen : List σ) (p : Script ν σ ε ρ) (d : σ) :
    Prop where
  alone : p₀.alone d₀ = p.alone d
  views : p₀.views d₀ = seen ++ p.views d

/-- The transaction has run alone so far, unless something has been committed meanwhile. -/
def Session.Alone (code : ι → Script ν σ ε ρ) (db : σ) (version : Nat)
    (x : Session ι ν σ ε ρ) : Prop :=
  match x.snapshot with
  | none => ∀ d, Reaches (code x.job) d x.seen x.script d
  | some (v, d) => v ≤ version ∧ (v = version → Reaches (code x.job) db x.seen x.script d)

/-- **Soundness of a state**: the discipline's invariant holds, every transaction has run alone on
its version, and the writer's is the last one. -/
structure Server.Sound (D : Discipline ι ν σ ρ) (code : ι → Script ν σ ε ρ)
    (s : Server ι ν σ ε ρ) : Prop where
  inv : D.inv s.state
  session : ∀ t x, s.sessions.get? t = some x → x.Alone code s.state.db s.version
  writer : ∀ t, s.writer = some t →
    ∃ x d, s.sessions.get? t = some x ∧ x.snapshot = some (s.version, d)

section Soundness

variable {D : Discipline ι ν σ ρ} {code : ι → Script ν σ ε ρ} {s : Server ι ν σ ε ρ} {t : Nat}
  {x : Session ι ν σ ε ρ}

theorem Server.view_of_snapshot {snapshot : Nat × σ} (h : x.snapshot = some snapshot) :
    s.view x = snapshot := by
  unfold Server.view
  rw [h]
  rfl

/-- What a transaction has reached, in what it sees. -/
theorem Session.Alone.view (h : x.Alone code s.state.db s.version) :
    (s.view x).1 ≤ s.version ∧
      ((s.view x).1 = s.version →
        Reaches (code x.job) s.state.db x.seen x.script (s.view x).2) := by
  unfold Session.Alone at h
  unfold Server.view
  cases hsnapshot : x.snapshot with
  | none =>
      rw [hsnapshot] at h
      exact ⟨le_refl _, fun _ => h s.state.db⟩
  | some snapshot =>
      rw [hsnapshot] at h
      exact h

/-- After a commit, what the others have seen is of an older version. -/
theorem Session.Alone.succ {db : σ} {version : Nat} (h : x.Alone code db version) (db' : σ) :
    x.Alone code db' (version + 1) := by
  unfold Session.Alone at h ⊢
  cases hsnapshot : x.snapshot with
  | none =>
      rw [hsnapshot] at h
      exact h
  | some snapshot =>
      rw [hsnapshot] at h
      have hle : snapshot.1 ≤ version := h.1
      exact ⟨Nat.le_succ_of_le hle, fun heq => absurd heq (Nat.ne_of_lt (Nat.lt_succ_of_le hle))⟩

theorem Server.Sound.close (h : s.Sound D code) (t : Nat) : (s.close t).Sound D code where
  inv := h.inv
  session := fun t' x hx => h.session t' x (OrderedMap.get?_erase_eq_some hx).2
  writer := fun t' ht' => by
    simp only [Server.close] at ht'
    split_ifs at ht' with hself
    obtain ⟨x, d, hx, hsnapshot⟩ := h.writer t' ht'
    refine ⟨x, d, ?_, hsnapshot⟩
    rw [Server.close, OrderedMap.get?_erase, if_neg, hx]
    rintro rfl
    exact hself ht'

/-- A transaction goes on, and is the writer only on the last version. -/
theorem Server.Sound.resume (h : s.Sound D code) (hx : x.Alone code s.state.db s.version)
    (hwriter : s.writer = some t → ∃ d, x.snapshot = some (s.version, d)) :
    (s.resume t x).Sound D code where
  inv := h.inv
  session := fun t' x' hx' => by
    rcases OrderedMap.get?_insert_eq_some hx' with ⟨-, rfl⟩ | ⟨-, hx'⟩
    · exact hx
    · exact h.session t' x' hx'
  writer := fun t' ht' => by
    by_cases heq : t' = t
    · subst heq
      obtain ⟨d, hsnapshot⟩ := hwriter ht'
      exact ⟨x, d, OrderedMap.get?_insert_self _ _ _, hsnapshot⟩
    · obtain ⟨x', d, hx', hsnapshot⟩ := h.writer t' ht'
      refine ⟨x', d, ?_, hsnapshot⟩
      rw [Server.resume, OrderedMap.get?_insert, if_neg heq, hx']

/-- A transaction writes when no other one does, and it is on the last version. -/
theorem Server.Sound.write (h : s.Sound D code) (hx : x.Alone code s.state.db s.version)
    {d : σ} (hsnapshot : x.snapshot = some (s.version, d)) : (s.write t x).Sound D code where
  inv := h.inv
  session := fun t' x' hx' => by
    rcases OrderedMap.get?_insert_eq_some hx' with ⟨-, rfl⟩ | ⟨-, hx'⟩
    · exact hx
    · exact h.session t' x' hx'
  writer := fun t' ht' => by
    cases ht'
    exact ⟨x, d, OrderedMap.get?_insert_self _ _ _, hsnapshot⟩

/-- **A commit is that of a transaction that has run alone.** -/
theorem Server.Sound.commit (hcode : Fence.Verified D code) (hmet : ∀ job seen v, D.met job seen v)
    (h : s.Sound D code) (hx : s.sessions.get? t = some x) (hwriter : s.writer = some t) {r : ρ}
    (hscript : x.script = .done r) : (s.commit t x r).Sound D code := by
  obtain ⟨x', d, hx', hsnapshot⟩ := h.writer t hwriter
  obtain rfl : x = x' := Option.some.inj (hx.symm.trans hx')
  have hview : s.view x = (s.version, d) := Server.view_of_snapshot hsnapshot
  have hreaches := (h.session t x hx).view.2 (by rw [hview])
  rw [hview, hscript] at hreaches
  have hviews : (code x.job).views s.state.db = x.seen :=
    hreaches.views.trans (List.append_nil x.seen)
  obtain ⟨held, hallows⟩ := hcode.alone h.inv (hmet x.job) hreaches.alone
  refine ⟨?_, fun t' x' hx' => ((h.close t).session t' x' hx').succ _, fun t' ht' => ?_⟩
  · change D.inv (s.state.commit x.job r x.seen (s.view x).2)
    rw [hview, ← hviews]
    exact hallows.inv
  · change (if s.writer = some t then none else s.writer) = some t' at ht'
    rw [if_pos hwriter] at ht'
    cases ht'

/-- The next statement of an open transaction. -/
theorem Server.Sound.advance (hcode : Fence.Verified D code) (hmet : ∀ job seen v, D.met job seen v)
    (h : s.Sound D code) (hx : s.sessions.get? t = some x) : (s.advance t x).Sound D code := by
  have halone := h.session t x hx
  obtain ⟨hle, hreaches⟩ := halone.view
  have hsnapshot : s.writer = some t → ∃ d, x.snapshot = some (s.version, d) := fun hwriter => by
    obtain ⟨x', d, hx', hd⟩ := h.writer t hwriter
    obtain rfl : x = x' := Option.some.inj (hx.symm.trans hx')
    exact ⟨d, hd⟩
  unfold Server.advance
  split
  case h_1 r hscript =>
    split_ifs with hwriter
    · exact h.commit hcode hmet hx hwriter hscript
    · exact h.close t
  case h_2 => exact h.close t
  case h_3 name cont hscript =>
    -- there are no named locks
    refine h.resume ?_ hsnapshot
    unfold Session.Alone at halone ⊢
    cases hx' : x.snapshot with
    | none =>
        simp only [hx', hscript] at halone ⊢
        exact fun d => ⟨(halone d).alone, (halone d).views⟩
    | some snapshot =>
        simp only [hx', hscript] at halone ⊢
        exact ⟨halone.1, fun heq => ⟨(halone.2 heq).alone, (halone.2 heq).views⟩⟩
  case h_4 cont hscript =>
    rw [hscript] at hreaches
    refine h.resume ⟨hle, fun heq => ⟨(hreaches heq).alone, ?_⟩⟩ fun hwriter => ?_
    · exact (hreaches heq).views.trans (List.append_cons x.seen _ _)
    · obtain ⟨d, hd⟩ := hsnapshot hwriter
      exact ⟨d, congrArg some (Server.view_of_snapshot hd)⟩
  case h_5 act cont hscript =>
    rw [hscript] at hreaches
    split_ifs with hbusy hstale
    · exact h
    · exact h.close t
    · have hrun := hreaches (not_not.mp hstale)
      split
      · exact h.close t
      · rename_i d' hact
        refine h.write ⟨le_refl _, fun _ => ⟨hrun.alone.trans ?_, hrun.views.trans ?_⟩⟩ rfl
        · simp only [Script.alone, hact]
        · simp only [Script.views, hact]
          exact List.append_cons x.seen _ _

/-- The environment commits what is allowed to it, while nobody writes. -/
theorem Server.Sound.moved (h : s.Sound D code) {db : σ}
    (hdb : D.inv { s.state with db := db }) (hwriter : s.writer = none) :
    (s.moved db).Sound D code where
  inv := hdb
  session := fun t x hx => (h.session t x hx).succ db
  writer := fun t ht => by
    change s.writer = some t at ht
    rw [hwriter] at ht
    cases ht

/-- **Step rule.** -/
theorem Server.sound_step {env : η → σ → σ} (hcode : Fence.Verified D code)
    (henv : Fence.Tame D env) (hmet : ∀ job seen v, D.met job seen v) (h : s.Sound D code)
    (i : Event ι η) : (s.step code env i).Sound D code := by
  cases i with
  | start t job =>
      simp only [Server.step]
      split_ifs with hopen
      · exact h
      · refine h.resume (fun d => ⟨rfl, rfl⟩) fun hwriter => ?_
        obtain ⟨x, d, hx, -⟩ := h.writer t hwriter
        exact absurd (Option.isSome_iff_exists.mpr ⟨x, hx⟩) hopen
  | step t =>
      simp only [Server.step]
      split
      · exact h
      · rename_i x hx
        exact h.advance hcode hmet hx
  | drop t => exact h.close t
  | env e =>
      simp only [Server.step]
      split_ifs with hwriter
      · exact h
      · exact h.moved (henv e s.state h.inv).inv (Option.not_isSome_iff_eq_none.mp hwriter)

theorem Server.sound_init {db : σ} (h : D.inv ⟨db, []⟩) :
    (Server.init db : Server ι ν σ ε ρ).Sound D code where
  inv := h
  session := fun t x hx => by cases hx
  writer := fun t ht => by cases ht

/-- **Run rule.** What a discipline says of the committed states holds in every interleaving. -/
theorem Server.inv_run {env : η → σ → σ} (hcode : Fence.Verified D code)
    (henv : Fence.Tame D env) (hmet : ∀ job seen v, D.met job seen v) {db : σ}
    (hdb : D.inv ⟨db, []⟩) (is : List (Event ι η)) :
    D.inv (Transition.run (Server.step code env) (Server.init db) is).state :=
  (Transition.run_invariant (Server.Sound D code)
    (fun _ i h (_ : True) => sound_step hcode henv hmet h i) (sound_init hdb)
    (Transition.StepsMeet.of_forall (fun _ _ => trivial) _ is)).inv

end Soundness

end Yorishiro.Lib.SingleWriter
