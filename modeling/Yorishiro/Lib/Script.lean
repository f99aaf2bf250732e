import Yorishiro.Lib.Table
import Yorishiro.Lib.Transition

/-!
# Transactions under advisory locks

A `Script` is a transaction on a database `σ`, one statement at a time: it reads the
database as it sees it, changes it, takes a named lock, and ends by committing a result
or by rolling back. `Script.alone` runs one with no other transaction around.

`Server` interleaves any number of them under read committed. A statement sees what is
committed, with the transaction's own changes replayed on it; a lock is kept until the
transaction ends, and a request for a lock that another transaction has waits. A commit
replays the changes on what is committed then, and adds an entry to the log. The
environment may change the committed database between statements, and a transaction may be
lost at any point.

The rules for such systems are in `Yorishiro.Lib.Fence`.
-/

set_option autoImplicit false

namespace Yorishiro.Lib.Fence

variable {ι ν σ ε ρ η α β : Type}

/-! ## Scripts -/

/-- A transaction: its next statement and what follows it. -/
inductive Script (ν σ ε ρ : Type) where
  | done (r : ρ)
  | fail (e : ε)
  | lock (name : ν) (cont : Script ν σ ε ρ)
  | query (cont : σ → Script ν σ ε ρ)
  | exec (act : σ → Except ε σ) (cont : σ → Script ν σ ε ρ)

namespace Script

/-- Continues with `f` where the first script would have committed. -/
def bind : Script ν σ ε α → (α → Script ν σ ε ρ) → Script ν σ ε ρ
  | done r, f => f r
  | fail e, _ => fail e
  | lock name cont, f => lock name (cont.bind f)
  | query cont, f => query fun v => (cont v).bind f
  | exec act cont, f => exec act fun v => (cont v).bind f

instance : Monad (Script ν σ ε) where
  pure := done
  bind := bind

/-- `SELECT`: what `f` makes of the database. -/
def read (f : σ → α) : Script ν σ ε α := query fun v => done (f v)

/-- A statement that changes the database and returns something, or fails. -/
def update (f : σ → Except ε (α × σ)) : Script ν σ ε α :=
  exec (fun s => (f s).map Prod.snd) fun v =>
    match f v with
    | .ok r => done r.1
    | .error e => fail e

/-- Waits for a lock. -/
def acquire (name : ν) : Script ν σ ε Unit := lock name (done ())

/-- Continues with the result of a fallible computation, or rolls back. -/
def ofExcept : Except ε α → Script ν σ ε α
  | .ok a => done a
  | .error e => fail e

/-- Continues with the value, or rolls back without one. -/
def orFail (e : ε) : Option α → Script ν σ ε α
  | some a => done a
  | none => fail e

/-- Rolls back if the condition holds. -/
def failIf (c : Prop) [Decidable c] (e : ε) : Script ν σ ε Unit := if c then fail e else done ()

/-- Rolls back with another error. -/
def mapError (h : ε → ε) : Script ν σ ε ρ → Script ν σ ε ρ
  | done r => done r
  | fail e => fail (h e)
  | lock name cont => lock name (cont.mapError h)
  | query cont => query fun v => (cont v).mapError h
  | exec act cont => exec (fun s => (act s).mapError h) fun v => (cont v).mapError h

/-- The next thing is a statement on the database, not a request for a lock or the end. -/
def isStatement : Script ν σ ε ρ → Bool
  | query _ => true
  | exec _ _ => true
  | _ => false

/-- Runs a script with no other transaction around. -/
def alone : Script ν σ ε ρ → σ → Except ε (ρ × σ)
  | done r, s => .ok (r, s)
  | fail e, _ => .error e
  | lock _ cont, s => cont.alone s
  | query cont, s => (cont s).alone s
  | exec act cont, s =>
      match act s with
      | .ok s' => (cont s).alone s'
      | .error e => .error e

@[simp] theorem alone_pure (r : ρ) (s : σ) :
    (pure r : Script ν σ ε ρ).alone s = .ok (r, s) := rfl

@[simp] theorem alone_done (r : ρ) (s : σ) :
    (done r : Script ν σ ε ρ).alone s = .ok (r, s) := rfl

@[simp] theorem alone_fail (e : ε) (s : σ) :
    (fail e : Script ν σ ε ρ).alone s = .error e := rfl

@[simp] theorem alone_read (f : σ → α) (s : σ) :
    (read f : Script ν σ ε α).alone s = .ok (f s, s) := rfl

@[simp] theorem alone_acquire (name : ν) (s : σ) :
    (acquire name : Script ν σ ε Unit).alone s = .ok ((), s) := rfl

@[simp] theorem alone_update (f : σ → Except ε (α × σ)) (s : σ) :
    (update f : Script ν σ ε α).alone s = f s := by
  unfold update
  cases hf : f s with
  | error e => simp [alone, hf, Except.map]
  | ok r => simp [alone, hf, Except.map]

@[simp] theorem alone_ofExcept (x : Except ε α) (s : σ) :
    (ofExcept x : Script ν σ ε α).alone s = x.map fun a => (a, s) := by
  cases x with
  | error e => rfl
  | ok a => rfl

@[simp] theorem alone_orFail_some (e : ε) (a : α) (s : σ) :
    (orFail e (some a) : Script ν σ ε α).alone s = .ok (a, s) := rfl

@[simp] theorem alone_orFail_none (e : ε) (s : σ) :
    (orFail e none : Script ν σ ε α).alone s = .error e := rfl

theorem alone_bind (p : Script ν σ ε α) (f : α → Script ν σ ε ρ) (s : σ) :
    (p >>= f).alone s = (p.alone s).bind fun r => (f r.1).alone r.2 := by
  change (p.bind f).alone s = _
  induction p generalizing s with
  | done r => rfl
  | fail e => rfl
  | lock name cont ih => exact ih s
  | query cont ih => exact ih s s
  | exec act cont ih =>
      cases hact : act s with
      | error e => simp [bind, alone, hact, Except.bind]
      | ok s' =>
          simp only [bind, alone, hact]
          exact ih s s'

/-- A successful sequence of two scripts, read back. -/
theorem alone_bind_eq_ok {p : Script ν σ ε α} {f : α → Script ν σ ε ρ} {s s'' : σ} {r : ρ} :
    (p >>= f).alone s = .ok (r, s'') ↔
      ∃ a s', p.alone s = .ok (a, s') ∧ (f a).alone s' = .ok (r, s'') := by
  rw [alone_bind]
  cases p.alone s with
  | error e => simp [Except.bind]
  | ok b =>
      obtain ⟨a, s'⟩ := b
      simp [Except.bind]

@[simp] theorem alone_pure_bind (a : α) (f : α → Script ν σ ε ρ) (s : σ) :
    ((pure a : Script ν σ ε α) >>= f).alone s = (f a).alone s := rfl

@[simp] theorem alone_read_bind (g : σ → α) (f : α → Script ν σ ε ρ) (s : σ) :
    ((read g : Script ν σ ε α) >>= f).alone s = (f (g s)).alone s := rfl

@[simp] theorem alone_acquire_bind (name : ν) (f : Unit → Script ν σ ε ρ) (s : σ) :
    ((acquire name : Script ν σ ε Unit) >>= f).alone s = (f ()).alone s := rfl

theorem alone_orFail_bind_eq_ok {e : ε} {o : Option α} {f : α → Script ν σ ε ρ} {s : σ}
    {r : ρ × σ} : ((orFail e o : Script ν σ ε α) >>= f).alone s = .ok r ↔
      ∃ a, o = some a ∧ (f a).alone s = .ok r := by
  cases o with
  | none => simp [alone_bind, Except.bind]
  | some b => simp [alone_bind, Except.bind]

theorem alone_ofExcept_bind_eq_ok {x : Except ε α} {f : α → Script ν σ ε ρ} {s : σ}
    {r : ρ × σ} : ((ofExcept x : Script ν σ ε α) >>= f).alone s = .ok r ↔
      ∃ a, x = .ok a ∧ (f a).alone s = .ok r := by
  cases x with
  | error e => simp [alone_bind, Except.bind, Except.map]
  | ok b => simp [alone_bind, Except.bind, Except.map]

theorem alone_failIf_bind_eq_ok {c : Prop} [Decidable c] {e : ε} {f : Unit → Script ν σ ε ρ}
    {s : σ} {r : ρ × σ} : ((failIf c e : Script ν σ ε Unit) >>= f).alone s = .ok r ↔
      ¬c ∧ (f ()).alone s = .ok r := by
  unfold failIf
  split_ifs with hc
  · simp [alone_bind, hc, Except.bind]
  · simp [alone_bind, hc, Except.bind]

/-! ### What a script may change -/

/-- Every statement of the script changes the database as `R` allows. -/
inductive Within (R : σ → σ → Prop) : Script ν σ ε ρ → Prop where
  | done (r : ρ) : Within R (done r)
  | fail (e : ε) : Within R (fail e)
  | lock (name : ν) {cont : Script ν σ ε ρ} (h : Within R cont) : Within R (lock name cont)
  | query {cont : σ → Script ν σ ε ρ} (h : ∀ v, Within R (cont v)) : Within R (query cont)
  | exec {act : σ → Except ε σ} {cont : σ → Script ν σ ε ρ}
      (hact : ∀ s s', act s = .ok s' → R s s') (h : ∀ v, Within R (cont v)) :
      Within R (exec act cont)

section Within

variable {R : σ → σ → Prop}

theorem within_pure (r : ρ) : Within R (pure r : Script ν σ ε ρ) := .done r

theorem within_fail (e : ε) : Within R (fail e : Script ν σ ε ρ) := .fail e

theorem within_read (f : σ → α) : Within R (read f : Script ν σ ε α) :=
  .query fun v => .done (f v)

theorem within_acquire (name : ν) : Within R (acquire name : Script ν σ ε Unit) :=
  .lock name (.done ())

theorem within_orFail (e : ε) (o : Option α) : Within R (orFail e o : Script ν σ ε α) := by
  cases o with
  | none => exact .fail e
  | some a => exact .done a

theorem within_ofExcept (x : Except ε α) : Within R (ofExcept x : Script ν σ ε α) := by
  cases x with
  | error e => exact .fail e
  | ok a => exact .done a

theorem within_failIf (c : Prop) [Decidable c] (e : ε) :
    Within R (failIf c e : Script ν σ ε Unit) := by
  unfold failIf
  split_ifs
  · exact .fail e
  · exact .done ()

theorem within_update {f : σ → Except ε (α × σ)} (hf : ∀ s a s', f s = .ok (a, s') → R s s') :
    Within R (update f : Script ν σ ε α) := by
  refine .exec (fun s s' h => ?_) fun v => ?_
  · obtain ⟨⟨a, s''⟩, hok, rfl⟩ := Except.map_eq_ok h
    exact hf s a s'' hok
  · cases f v with
    | error e => exact .fail e
    | ok r => exact .done r.1

theorem Within.bind {p : Script ν σ ε α} {f : α → Script ν σ ε ρ} (hp : Within R p)
    (hf : ∀ a, Within R (f a)) : Within R (p >>= f) := by
  change Within R (p.bind f)
  induction hp with
  | done r => exact hf r
  | fail e => exact .fail e
  | lock name h ih => exact .lock name ih
  | query h ih => exact .query ih
  | exec hact h ih => exact .exec hact ih

theorem Within.mapError {p : Script ν σ ε ρ} (hp : Within R p) (h : ε → ε) :
    Within R (p.mapError h) := by
  induction hp with
  | done r => exact .done r
  | fail e => exact .fail (h e)
  | lock name _ ih => exact .lock name ih
  | query _ ih => exact .query ih
  | exec hact _ ih => exact .exec (fun s s' hs => hact s s' (Except.mapError_eq_ok hs)) ih

theorem Within.mono {R' : σ → σ → Prop} {p : Script ν σ ε ρ} (hp : Within R p)
    (h : ∀ s s', R s s' → R' s s') : Within R' p := by
  induction hp with
  | done r => exact .done r
  | fail e => exact .fail e
  | lock name _ ih => exact .lock name ih
  | query _ ih => exact .query ih
  | exec hact _ ih => exact .exec (fun s s' hs => h s s' (hact s s' hs)) ih

/-- **Frame rule.** A script run alone changes the database as its statements may. -/
theorem Within.alone {p : Script ν σ ε ρ} (hp : Within R p) (hrefl : ∀ s, R s s)
    (htrans : ∀ s s' s'', R s s' → R s' s'' → R s s'') {s s' : σ} {r : ρ}
    (h : p.alone s = .ok (r, s')) : R s s' := by
  -- the database moves along the statements, so it is generalised
  induction hp generalizing s with
  | done r' =>
      cases h
      exact hrefl s'
  | fail e => cases h
  | lock name _ ih => exact ih h
  | query _ ih => exact ih s h
  | @exec act cont hact _ ih =>
      cases hok : act s with
      | error e => simp [Script.alone, hok] at h
      | ok s₁ =>
          simp only [Script.alone, hok] at h
          exact htrans s s₁ s' (hact s s₁ hok) (ih s h)

end Within

/-- The script changes nothing. -/
def Quiet (p : Script ν σ ε ρ) : Prop := Within (fun _ _ => False) p

theorem Quiet.within {p : Script ν σ ε ρ} (hp : Quiet p) {R : σ → σ → Prop} : Within R p :=
  Within.mono hp fun _ _ h => h.elim

/-- A script that changes nothing leaves the database as it is. -/
theorem Quiet.alone_eq {p : Script ν σ ε ρ} (hp : Quiet p) {s s' : σ} {r : ρ}
    (h : p.alone s = .ok (r, s')) : s' = s := by
  have heq : s = s' := Within.alone (R := Eq) hp.within (fun _ => rfl)
    (fun _ _ _ => Eq.trans) h
  exact heq.symm

/-- After a script that changes nothing, the next one starts from the same database. -/
theorem Quiet.alone_bind_eq_ok {p : Script ν σ ε α} (hp : Quiet p) {f : α → Script ν σ ε ρ}
    {s : σ} {r : ρ × σ} (h : (p >>= f).alone s = .ok r) :
    ∃ a, p.alone s = .ok (a, s) ∧ (f a).alone s = .ok r := by
  obtain ⟨a, s', hfirst, hrest⟩ := Script.alone_bind_eq_ok.mp h
  obtain rfl := hp.alone_eq hfirst
  exact ⟨a, hfirst, hrest⟩

/-! ### What a script does -/

/-- Whatever the statements see, their changes, made one after the other, lead from `d` to a
`d'` with `R d a d'` where the script ends with `a`. -/
def Effects : Script ν σ ε α → (σ → α → σ → Prop) → Prop
  | done r, R => ∀ d, R d r d
  | fail _, _ => True
  | lock _ cont, R => cont.Effects R
  | query cont, R => ∀ v, (cont v).Effects R
  | exec act cont, R =>
      ∀ v v', act v = .ok v' → (cont v).Effects fun d₁ a d' => ∀ d, act d = .ok d₁ → R d a d'

section Effects

variable {R : σ → α → σ → Prop}

theorem Effects.mono {R' : σ → α → σ → Prop} {p : Script ν σ ε α} (hp : p.Effects R)
    (h : ∀ d a d', R d a d' → R' d a d') : p.Effects R' := by
  induction p generalizing R R' with
  | done r => exact fun d => h d r d (hp d)
  | fail e => trivial
  | lock name cont ih => exact ih hp h
  | query cont ih => exact fun v => ih v (hp v) h
  | exec act cont ih =>
      exact fun v v' hv => ih v (hp v v' hv) fun d₁ a d' hR d hd => h d a d' (hR d hd)

theorem Effects.and {S : σ → α → σ → Prop} {p : Script ν σ ε α} (hp : p.Effects R)
    (hp' : p.Effects S) : p.Effects fun d a d' => R d a d' ∧ S d a d' := by
  induction p generalizing R S with
  | done r => exact fun d => ⟨hp d, hp' d⟩
  | fail e => trivial
  | lock name cont ih => exact ih hp hp'
  | query cont ih => exact fun v => ih v (hp v) (hp' v)
  | exec act cont ih =>
      exact fun v v' hv => (ih v (hp v v' hv) (hp' v v' hv)).mono fun d₁ a d' h d hd =>
        ⟨h.1 d hd, h.2 d hd⟩

/-- What a script does not depend on. -/
theorem effects_true (p : Script ν σ ε α) : p.Effects fun _ _ _ => True := by
  induction p with
  | done r => exact fun _ => trivial
  | fail e => trivial
  | lock name cont ih => exact ih
  | query cont ih => exact ih
  | exec act cont ih => exact fun v _ _ => (ih v).mono fun _ _ _ _ _ _ => trivial

/-- The effects of two scripts, one after the other. -/
theorem Effects.bind {S : α → σ → ρ → σ → Prop} {T : σ → ρ → σ → Prop} {p : Script ν σ ε α}
    {f : α → Script ν σ ε ρ} (hp : p.Effects R) (hf : ∀ a, (f a).Effects (S a))
    (h : ∀ d a d' r d'', R d a d' → S a d' r d'' → T d r d'') : (p >>= f).Effects T := by
  change (p.bind f).Effects T
  induction p generalizing R T with
  | done r => exact (hf r).mono fun d b d' hS => h d r d b d' (hp d) hS
  | fail e => trivial
  | lock name cont ih => exact ih hp h
  | query cont ih => exact fun v => ih v (hp v) h
  | exec act cont ih =>
      exact fun v v' hv => ih v (hp v v' hv) fun d₁ a d' r d'' hR hS d hd =>
        h d a d' r d'' (hR d hd) hS

/-- The two effects, with what is between them. -/
theorem Effects.seq {S : α → σ → ρ → σ → Prop} {p : Script ν σ ε α} {f : α → Script ν σ ε ρ}
    (hp : p.Effects R) (hf : ∀ a, (f a).Effects (S a)) :
    (p >>= f).Effects fun d r d'' => ∃ a d', R d a d' ∧ S a d' r d'' :=
  hp.bind hf fun _ a d' _ _ hR hS => ⟨a, d', hR, hS⟩

theorem effects_pure (a : α) :
    (pure a : Script ν σ ε α).Effects fun d b d' => b = a ∧ d' = d := fun _ => ⟨rfl, rfl⟩

theorem effects_orFail (e : ε) (o : Option α) :
    (orFail e o : Script ν σ ε α).Effects fun d a d' => o = some a ∧ d' = d := by
  cases o with
  | none => trivial
  | some a => exact fun _ => ⟨rfl, rfl⟩

/-- A statement whose result is the same whatever it sees. -/
theorem effects_update {f : σ → Except ε (α × σ)} {a : α} {S : σ → σ → Prop}
    (hf : ∀ d b d', f d = .ok (b, d') → b = a ∧ S d d') :
    (update f : Script ν σ ε α).Effects fun d b d' => b = a ∧ S d d' := by
  intro v v' hv
  obtain ⟨⟨b, _⟩, hok, -⟩ := Except.map_eq_ok hv
  obtain rfl := (hf v b _ hok).1
  simp only [hok]
  intro d₁ d hd
  obtain ⟨⟨b', d'⟩, hok', rfl⟩ := Except.map_eq_ok hd
  exact ⟨rfl, (hf d b' d' hok').2⟩

/-- What a script does is within what its statements may change. -/
theorem Within.effects {S : σ → σ → Prop} (hrefl : ∀ s, S s s)
    (htrans : ∀ s s' s'', S s s' → S s' s'' → S s s'') {p : Script ν σ ε α} (hp : Within S p) :
    p.Effects fun d _ d' => S d d' := by
  induction hp with
  | done r => exact hrefl
  | fail e => trivial
  | lock name _ ih => exact ih
  | query _ ih => exact ih
  | exec hact _ ih =>
      exact fun v _ _ => (ih v).mono fun d₁ _ d' hS d hd => htrans d d₁ d' (hact d d₁ hd) hS

/-- A script that changes nothing has no effect. -/
theorem Quiet.effects {p : Script ν σ ε α} (hp : Quiet p) : p.Effects fun d _ d' => d' = d := by
  induction hp with
  | done r => exact fun _ => rfl
  | fail e => trivial
  | lock name _ ih => exact ih
  | query _ ih => exact ih
  | exec hact _ _ => exact fun v v' hv => (hact v v' hv).elim

/-- After a script that changes nothing, the effects are those of the next one. -/
theorem Quiet.effects_bind {S : σ → ρ → σ → Prop} {p : Script ν σ ε α} {f : α → Script ν σ ε ρ}
    (hp : Quiet p) (hf : ∀ a, (f a).Effects S) : (p >>= f).Effects S :=
  hp.effects.bind hf fun _ _ _ _ _ hsame hS => hsame ▸ hS

end Effects

/-! ### What a script sees -/

/-- The database before each statement of a script that runs with no other transaction around. -/
def views : Script ν σ ε ρ → σ → List σ
  | done _, _ => []
  | fail _, _ => []
  | lock _ cont, s => cont.views s
  | query cont, s => s :: (cont s).views s
  | exec act cont, s =>
      s :: match act s with
        | .ok s' => (cont s).views s'
        | .error _ => []

/-- The first statement sees the database as it is. -/
theorem views_zero {p : Script ν σ ε ρ} {s v : σ} (h : (p.views s)[0]? = some v) : v = s := by
  induction p with
  | done r => cases h
  | fail e => cases h
  | lock name cont ih => exact ih h
  | query cont ih =>
      cases h
      rfl
  | exec act cont ih =>
      cases h
      rfl

/-- Each statement sees what the statements before it may have changed. -/
theorem Within.views {R : σ → σ → Prop} {p : Script ν σ ε ρ} (hp : Within R p)
    (hrefl : ∀ s, R s s) (htrans : ∀ s s' s'', R s s' → R s' s'' → R s s'') {s v : σ}
    (hv : v ∈ p.views s) : R s v := by
  -- the database moves along the statements, so it is generalised
  induction hp generalizing s with
  | done r => cases hv
  | fail e => cases hv
  | lock name _ ih => exact ih hv
  | query _ ih =>
      rcases List.mem_cons.mp hv with rfl | hv
      · exact hrefl v
      · exact ih s hv
  | @exec act cont hact _ ih =>
      rcases List.mem_cons.mp hv with rfl | hv
      · exact hrefl v
      · cases hok : act s with
        | error e =>
            rw [hok] at hv
            cases hv
        | ok s₁ =>
            rw [hok] at hv
            exact htrans s s₁ v (hact s s₁ hok) (ih s hv)

/-! ### Scripts on a part of the database -/

section Zoom

variable {τ : Type} (get : τ → σ) (set : σ → τ → τ)

/-- Runs a script on the part of a larger database that `get` reads and `set` replaces. -/
def zoom : Script ν σ ε ρ → Script ν τ ε ρ
  | done r => done r
  | fail e => fail e
  | lock name cont => lock name cont.zoom
  | query cont => query fun v => (cont (get v)).zoom
  | exec act cont =>
      exec (fun t => (act (get t)).map fun s => set s t) fun v => (cont (get v)).zoom

@[simp] theorem zoom_pure (r : ρ) : (pure r : Script ν σ ε ρ).zoom get set = pure r := rfl

@[simp] theorem zoom_read (f : σ → α) :
    (read f : Script ν σ ε α).zoom get set = read fun t => f (get t) := rfl

@[simp] theorem zoom_acquire (name : ν) :
    (acquire name : Script ν σ ε Unit).zoom get set = acquire name := rfl

@[simp] theorem zoom_ofExcept (x : Except ε α) :
    (ofExcept x : Script ν σ ε α).zoom get set = ofExcept x := by
  cases x with
  | error e => rfl
  | ok a => rfl

@[simp] theorem zoom_orFail (e : ε) (o : Option α) :
    (orFail e o : Script ν σ ε α).zoom get set = orFail e o := by
  cases o with
  | none => rfl
  | some a => rfl

@[simp] theorem zoom_failIf (c : Prop) [Decidable c] (e : ε) :
    (failIf c e : Script ν σ ε Unit).zoom get set = failIf c e := by
  unfold failIf
  split_ifs
  · rfl
  · rfl

@[simp] theorem zoom_update (f : σ → Except ε (α × σ)) :
    (update f : Script ν σ ε α).zoom get set =
      update fun t => (f (get t)).map fun r => (r.1, set r.2 t) := by
  unfold update zoom
  congr 1
  · funext t
    cases hf : f (get t) with
    | error e => simp [hf, Except.map]
    | ok r => simp [hf, Except.map]
  · funext v
    cases hf : f (get v) with
    | error e => simp only [hf, Except.map, zoom]
    | ok r => simp only [hf, Except.map, zoom]

@[simp] theorem zoom_bind (p : Script ν σ ε α) (f : α → Script ν σ ε ρ) :
    (p >>= f).zoom get set = p.zoom get set >>= fun a => (f a).zoom get set := by
  change (p.bind f).zoom get set = (p.zoom get set).bind fun a => (f a).zoom get set
  induction p with
  | done r => rfl
  | fail e => rfl
  | lock name cont ih => simp only [bind, zoom, ih]
  | query cont ih => simp only [bind, zoom, ih]
  | exec act cont ih => simp only [bind, zoom, ih]

/-- What a script may change of the part, it may change of the whole. -/
theorem Within.zoom {R : σ → σ → Prop} {R' : τ → τ → Prop}
    (hR : ∀ t s, R (get t) s → R' t (set s t)) {p : Script ν σ ε ρ} (hp : Within R p) :
    Within R' (p.zoom get set) := by
  induction hp with
  | done r => exact .done r
  | fail e => exact .fail e
  | lock name _ ih => exact .lock name ih
  | query _ ih => exact .query fun v => ih (get v)
  | exec hact _ ih =>
      refine .exec (fun t t' h => ?_) fun v => ih (get v)
      obtain ⟨s, hok, rfl⟩ := Except.map_eq_ok h
      exact hR t s (hact (get t) s hok)

theorem Quiet.zoom {p : Script ν σ ε ρ} (hp : Quiet p) : Quiet (p.zoom get set) :=
  Within.zoom get set (fun _ _ h => h) hp

/-- What a script does to the part, it does to the whole. -/
theorem Effects.zoom (hself : ∀ t, set (get t) t = t) (hget : ∀ s t, get (set s t) = s)
    (hset : ∀ s s' t, set s' (set s t) = set s' t) {R : σ → ρ → σ → Prop} {p : Script ν σ ε ρ}
    (hp : p.Effects R) :
    (p.zoom get set).Effects fun t r t' => ∃ s', R (get t) r s' ∧ t' = set s' t := by
  induction p generalizing R with
  | done r => exact fun t => ⟨get t, hp (get t), (hself t).symm⟩
  | fail e => trivial
  | lock name cont ih => exact ih hp
  | query cont ih => exact fun v => ih (get v) (hp (get v))
  | exec act cont ih =>
      intro v v' hv
      obtain ⟨s, hact, -⟩ := Except.map_eq_ok hv
      refine (ih (get v) (hp (get v) s hact)).mono fun t₁ r t' hR t ht => ?_
      obtain ⟨s₁, hact₁, rfl⟩ := Except.map_eq_ok ht
      obtain ⟨s', hR, rfl⟩ := hR
      rw [hget] at hR
      exact ⟨s', hR (get t) hact₁, hset s₁ s' t⟩

end Zoom

end Script

/-! ## Interleavings -/

/-- What a commit did. -/
structure Entry (ι σ ρ : Type) where
  job : ι
  result : ρ
  seen : List σ
  before : σ
  after : σ

/-- What is committed, and the commits that led there. -/
structure State (ι σ ρ : Type) where
  db : σ
  log : List (Entry ι σ ρ)

/-- The state after a transaction that saw `seen` commits `after` with result `r`. -/
def State.commit (w : State ι σ ρ) (job : ι) (r : ρ) (seen : List σ) (after : σ) :
    State ι σ ρ where
  db := after
  log := w.log ++ [{ job := job, result := r, seen := seen, before := w.db, after := after }]

/-- A transaction that has begun. -/
structure Session (ι ν σ ε ρ : Type) where
  job : ι
  script : Script ν σ ε ρ
  held : List ν
  seen : List σ
  pending : σ → Except ε σ

/-- A transaction before its first statement. -/
def Session.fresh (job : ι) (script : Script ν σ ε ρ) : Session ι ν σ ε ρ where
  job := job
  script := script
  held := []
  seen := []
  pending := .ok

/-- The committed state and the open transactions. -/
structure Server (ι ν σ ε ρ : Type) where
  state : State ι σ ρ
  sessions : OrderedMap Nat (Session ι ν σ ε ρ)

/-- What happens next: a transaction begins, executes a statement or is lost, or the
environment changes the database. -/
inductive Event (ι η : Type) where
  | start (t : Nat) (job : ι)
  | step (t : Nat)
  | drop (t : Nat)
  | env (e : η)

/-- The next `n` statements of transaction `t`. -/
def Event.steps (t n : Nat) : List (Event ι η) := List.replicate n (.step t)

namespace Server

variable [DecidableEq ν]

/-- No transaction has begun. -/
def init (db : σ) : Server ι ν σ ε ρ := ⟨⟨db, []⟩, OrderedMap.empty⟩

/-- Another transaction than `t` has the lock. -/
def taken (s : Server ι ν σ ε ρ) (t : Nat) (name : ν) : Bool :=
  s.sessions.entries.any fun e => decide (e.1 ≠ t) && decide (name ∈ e.2.held)

/-- Transaction `t` ends without a commit. -/
def close (s : Server ι ν σ ε ρ) (t : Nat) : Server ι ν σ ε ρ :=
  { s with sessions := s.sessions.erase t }

/-- Transaction `t` goes on as `x`. -/
def resume (s : Server ι ν σ ε ρ) (t : Nat) (x : Session ι ν σ ε ρ) : Server ι ν σ ε ρ :=
  { s with sessions := s.sessions.insert t x }

/-- The next statement of the open transaction `x`. -/
def advance (s : Server ι ν σ ε ρ) (t : Nat) (x : Session ι ν σ ε ρ) : Server ι ν σ ε ρ :=
  match x.script, x.pending s.state.db with
  -- a change that cannot be replayed any more (a unique key taken meanwhile) rolls back
  | _, .error _ => s.close t
  | .done r, .ok a => { s.close t with state := s.state.commit x.job r x.seen a }
  | .fail _, .ok _ => s.close t
  | .lock name cont, .ok _ =>
      if s.taken t name then s
      else s.resume t { x with script := cont, held := name :: x.held }
  | .query cont, .ok v => s.resume t { x with script := cont v, seen := x.seen ++ [v] }
  | .exec act cont, .ok v =>
      match act v with
      | .error _ => s.close t
      | .ok _ =>
          s.resume t
            { x with
              script := cont v
              seen := x.seen ++ [v]
              pending := fun d => (x.pending d).bind act }

/-- One step of the system; `code` gives the script of a job. -/
def step (code : ι → Script ν σ ε ρ) (env : η → σ → σ) (s : Server ι ν σ ε ρ) :
    Event ι η → Server ι ν σ ε ρ
  | .start t job =>
      if (s.sessions.get? t).isSome then s else s.resume t (Session.fresh job (code job))
  | .step t =>
      match s.sessions.get? t with
      | none => s
      | some x => s.advance t x
  | .drop t => s.close t
  | .env e => { s with state := { s.state with db := env e s.state.db } }

/-- **Inversion of a step.** The committed state is left alone, or a transaction commits what
it was going to change, or the environment acts. -/
theorem step_state (code : ι → Script ν σ ε ρ) (env : η → σ → σ) (s : Server ι ν σ ε ρ)
    (i : Event ι η) :
    (s.step code env i).state = s.state ∨
      (∃ t x r a, i = .step t ∧ s.sessions.get? t = some x ∧ x.script = .done r ∧
        x.pending s.state.db = .ok a ∧
        (s.step code env i).state = s.state.commit x.job r x.seen a) ∨
      ∃ e, i = .env e ∧ (s.step code env i).state = { s.state with db := env e s.state.db } := by
  cases i with
  | start t job =>
      simp only [step]
      split_ifs
      · exact Or.inl rfl
      · exact Or.inl rfl
  | step t =>
      cases hx : s.sessions.get? t with
      | none => exact Or.inl (by simp only [step, hx])
      | some x =>
          simp only [step, hx]
          unfold advance
          split
          · exact Or.inl rfl
          · rename_i r a hscript hpending
            exact Or.inr (Or.inl ⟨t, x, r, a, rfl, hx, hscript, hpending, rfl⟩)
          · exact Or.inl rfl
          · split_ifs
            · exact Or.inl rfl
            · exact Or.inl rfl
          · exact Or.inl rfl
          · split
            · exact Or.inl rfl
            · exact Or.inl rfl
  | drop t => exact Or.inl rfl
  | env e => exact Or.inr (Or.inr ⟨e, rfl, rfl⟩)

/-- A step only adds to the log. -/
theorem log_prefix_step (code : ι → Script ν σ ε ρ) (env : η → σ → σ) (s : Server ι ν σ ε ρ)
    (i : Event ι η) : s.state.log <+: (s.step code env i).state.log := by
  rcases step_state code env s i with heq | ⟨t, x, r, a, -, -, -, -, heq⟩ | ⟨e, -, heq⟩
  · exact heq.symm ▸ List.prefix_rfl
  · rw [heq]
    exact List.prefix_append _ _
  · exact heq.symm ▸ List.prefix_rfl

theorem log_prefix_run (code : ι → Script ν σ ε ρ) (env : η → σ → σ) (s : Server ι ν σ ε ρ)
    (is : List (Event ι η)) :
    s.state.log <+: (Transition.run (step code env) s is).state.log := by
  induction is generalizing s with
  | nil => exact List.prefix_rfl
  | cons i is ih => exact (log_prefix_step code env s i).trans (ih (s.step code env i))

/-- **Rule for what the commits keep.** What every commit of the run and the environment keep is
true of what is committed in the end. -/
theorem log_invariant {code : ι → Script ν σ ε ρ} {env : η → σ → σ} {Q : σ → Prop}
    (henv : ∀ e d, Q d → Q (env e d)) {s : Server ι ν σ ε ρ} (hs : Q s.state.db)
    {is : List (Event ι η)}
    (hlog : ∀ e ∈ (Transition.run (step code env) s is).state.log, Q e.before → Q e.after) :
    Q (Transition.run (step code env) s is).state.db := by
  induction is generalizing s with
  | nil => exact hs
  | cons i is ih =>
      refine ih ?_ hlog
      rcases step_state code env s i with heq | ⟨t, x, r, a, -, -, -, -, heq⟩ | ⟨e, -, heq⟩
      · rw [heq]
        exact hs
      · -- the entry of this commit is in the log of the whole run
        have hmem := (log_prefix_run code env (s.step code env i) is).subset
          (heq ▸ List.mem_append_right _ List.mem_cons_self :
            (⟨x.job, r, x.seen, s.state.db, a⟩ : Entry ι σ ρ) ∈ (s.step code env i).state.log)
        rw [heq]
        exact hlog _ hmem hs
      · rw [heq]
        exact henv e _ hs

end Server

end Yorishiro.Lib.Fence
