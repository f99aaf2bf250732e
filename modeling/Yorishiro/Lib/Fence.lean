import Yorishiro.Lib.Script

/-!
# What advisory locks protect

A `Discipline` says what a transaction may rely on: `inv` holds of whatever is committed,
`onward` is how the committed state moves in any case, and `keeps name` is how it moves
while the lock `name` is with somebody who does not commit. `Script.wp` is the weakest
precondition of a script under a discipline. Between two statements the state may move as
the locks held by then allow, so facts about what the locks protect stay true until the
commit.

`Server.sound_run` is the rule for whole systems. When every script has its weakest
precondition, the invariant holds in every state of every interleaving whose statements
meet what the discipline assumes of them (`Discipline.met`).
-/

set_option autoImplicit false

namespace Yorishiro.Lib.Fence

variable {ι ν σ ε ρ η α : Type}

/-- What the transactions of a system agree on. -/
structure Discipline (ι ν σ ρ : Type) where
  inv : State ι σ ρ → Prop
  onward : State ι σ ρ → State ι σ ρ → Prop
  keeps : ν → State ι σ ρ → State ι σ ρ → Prop
  met : ι → List σ → σ → Prop
  onward_refl : ∀ w, onward w w
  onward_trans : ∀ u v w, onward u v → onward v w → onward u w
  keeps_refl : ∀ name w, keeps name w w
  keeps_trans : ∀ name u v w, keeps name u v → keeps name v w → keeps name u w

/-- Where a transaction stands: the locks it has, what it has seen, what it is going to
change, and a committed state it has met. -/
structure Point (ι ν σ ε ρ : Type) where
  held : List ν
  seen : List σ
  pending : σ → Except ε σ
  state : State ι σ ρ

namespace Discipline

variable (D : Discipline ι ν σ ρ)

/-- The committed state may move from `w` to `w'` while one has the locks `held`. -/
structure Rely (held : List ν) (w w' : State ι σ ρ) : Prop where
  inv : D.inv w'
  onward : D.onward w w'
  keeps : ∀ name ∈ held, D.keeps name w w'

/-- A commit of one who has the locks `held` moves the state from `w` to `w'`. -/
structure Allows (held : List ν) (w w' : State ι σ ρ) : Prop where
  inv : D.inv w'
  onward : D.onward w w'
  keeps : ∀ name, name ∉ held → D.keeps name w w'

variable {D}

theorem Rely.refl {held : List ν} {w : State ι σ ρ} (h : D.inv w) : D.Rely held w w :=
  ⟨h, D.onward_refl w, fun name _ => D.keeps_refl name w⟩

theorem Rely.trans {held : List ν} {u v w : State ι σ ρ} (huv : D.Rely held u v)
    (hvw : D.Rely held v w) : D.Rely held u w :=
  ⟨hvw.inv, D.onward_trans u v w huv.onward hvw.onward, fun name hname =>
    D.keeps_trans name u v w (huv.keeps name hname) (hvw.keeps name hname)⟩

/-- With fewer locks the state may move at least as far. -/
theorem Rely.weaken {held held' : List ν} {w w' : State ι σ ρ} (h : D.Rely held' w w')
    (hsub : held ⊆ held') : D.Rely held w w' :=
  ⟨h.inv, h.onward, fun name hname => h.keeps name (hsub hname)⟩

variable (D)

/-- The transaction of `job` may commit at this point, whatever happens before it does. -/
def Commits (job : ι) (r : ρ) (pt : Point ι ν σ ε ρ) : Prop :=
  ∀ w, D.Rely pt.held pt.state w → ∀ a, pt.pending w.db = .ok a →
    D.Allows pt.held w (w.commit job r pt.seen a)

end Discipline

/-! ## Weakest preconditions -/

namespace Script

variable (D : Discipline ι ν σ ρ) (job : ι)

/-- From the point `pt` the script gets to `K`, unless it rolls back. -/
def wp : Script ν σ ε α → (α → Point ι ν σ ε ρ → Prop) → Point ι ν σ ε ρ → Prop
  | done r, K, pt => K r pt
  | fail _, _, _ => True
  | lock name cont, K, pt =>
      ∀ w, D.Rely pt.held pt.state w →
        cont.wp K { pt with held := name :: pt.held, state := w }
  | query cont, K, pt =>
      ∀ w, D.Rely pt.held pt.state w → ∀ v, pt.pending w.db = .ok v → D.met job pt.seen v →
        (cont v).wp K { pt with seen := pt.seen ++ [v], state := w }
  | exec act cont, K, pt =>
      ∀ w, D.Rely pt.held pt.state w → ∀ v, pt.pending w.db = .ok v → D.met job pt.seen v →
        ∀ v', act v = .ok v' →
          (cont v).wp K
            { pt with
              seen := pt.seen ++ [v]
              pending := fun d => (pt.pending d).bind act
              state := w }

variable {D job} {K : α → Point ι ν σ ε ρ → Prop} {pt : Point ι ν σ ε ρ}

@[simp] theorem wp_pure (a : α) : wp D job (pure a : Script ν σ ε α) K pt ↔ K a pt := Iff.rfl

@[simp] theorem wp_done (a : α) : wp D job (done a : Script ν σ ε α) K pt ↔ K a pt := Iff.rfl

@[simp] theorem wp_fail (e : ε) : wp D job (fail e : Script ν σ ε α) K pt ↔ True := Iff.rfl

theorem wp_bind {β : Type} (p : Script ν σ ε β) (f : β → Script ν σ ε α) :
    wp D job (p >>= f) K pt ↔ wp D job p (fun b pt => wp D job (f b) K pt) pt := by
  change wp D job (p.bind f) K pt ↔ _
  induction p generalizing pt with
  | done r => exact Iff.rfl
  | fail e => exact Iff.rfl
  | lock name cont ih => simp only [bind, wp, ih]
  | query cont ih => simp only [bind, wp, ih]
  | exec act cont ih => simp only [bind, wp, ih]

theorem wp_mono {K' : α → Point ι ν σ ε ρ → Prop} {p : Script ν σ ε α} (h : wp D job p K pt)
    (hK : ∀ a pt, K a pt → K' a pt) : wp D job p K' pt := by
  induction p generalizing pt with
  | done r => exact hK r pt h
  | fail e => trivial
  | lock name cont ih => exact fun w hw => ih (h w hw)
  | query cont ih => exact fun w hw v hv hmet => ih v (h w hw v hv hmet)
  | exec act cont ih => exact fun w hw v hv hmet v' hv' => ih v (h w hw v hv hmet v' hv')

theorem wp_acquire (name : ν) {K : Unit → Point ι ν σ ε ρ → Prop} :
    wp D job (acquire name : Script ν σ ε Unit) K pt ↔
      ∀ w, D.Rely pt.held pt.state w → K () { pt with held := name :: pt.held, state := w } :=
  Iff.rfl

theorem wp_read (f : σ → α) :
    wp D job (read f : Script ν σ ε α) K pt ↔
      ∀ w, D.Rely pt.held pt.state w → ∀ v, pt.pending w.db = .ok v → D.met job pt.seen v →
        K (f v) { pt with seen := pt.seen ++ [v], state := w } := Iff.rfl

theorem wp_update (f : σ → Except ε (α × σ)) :
    wp D job (update f : Script ν σ ε α) K pt ↔
      ∀ w, D.Rely pt.held pt.state w → ∀ v, pt.pending w.db = .ok v → D.met job pt.seen v →
        ∀ a v', f v = .ok (a, v') →
          K a
            { pt with
              seen := pt.seen ++ [v]
              pending := fun d => (pt.pending d).bind fun s => (f s).map Prod.snd
              state := w } := by
  constructor
  · intro h w hw v hv hmet a v' hf
    have hact : (f v).map Prod.snd = .ok v' := by
      rw [hf]
      rfl
    have hcont := h w hw v hv hmet v' hact
    simpa [hf] using hcont
  · intro h w hw v hv hmet v' hv'
    obtain ⟨⟨a, v''⟩, hf, -⟩ := Except.map_eq_ok hv'
    simpa [hf] using h w hw v hv hmet a v'' hf

theorem wp_ofExcept (x : Except ε α) :
    wp D job (ofExcept x : Script ν σ ε α) K pt ↔ ∀ a, x = .ok a → K a pt := by
  cases x with
  | error e => exact iff_of_true trivial fun a ha => by cases ha
  | ok a => exact ⟨fun h b hb => by cases hb; exact h, fun h => h a rfl⟩

theorem wp_orFail (e : ε) (o : Option α) :
    wp D job (orFail e o : Script ν σ ε α) K pt ↔ ∀ a, o = some a → K a pt := by
  cases o with
  | none => exact iff_of_true trivial fun a ha => by cases ha
  | some a => exact ⟨fun h b hb => by cases hb; exact h, fun h => h a rfl⟩

theorem wp_failIf (c : Prop) [Decidable c] (e : ε) {K : Unit → Point ι ν σ ε ρ → Prop} :
    wp D job (failIf c e : Script ν σ ε Unit) K pt ↔ (¬c → K () pt) := by
  unfold failIf
  split_ifs with hc
  · exact iff_of_true trivial fun hn => absurd hc hn
  · exact ⟨fun h _ => h, fun h => h hc⟩

/-- **Rule for other errors.** A script that rolls back with another error gets to the same
points, up to the errors of what it is going to change. -/
theorem wp_mapError {p : Script ν σ ε α} (h : wp D job p K pt) (f : ε → ε)
    (hK : ∀ a (pt : Point ι ν σ ε ρ) pending, K a pt →
      (∀ d d', pending d = .ok d' ↔ pt.pending d = .ok d') → K a { pt with pending := pending })
    {pending : σ → Except ε σ} (hpending : ∀ d d', pending d = .ok d' ↔ pt.pending d = .ok d') :
    wp D job (p.mapError f) K { pt with pending := pending } := by
  induction p generalizing pt pending with
  | done r => exact hK r pt pending h hpending
  | fail e => trivial
  | lock name cont ih => exact fun w hw => ih (h w hw) hpending
  | query cont ih =>
      exact fun w hw v hv hmet => ih v (h w hw v ((hpending w.db v).mp hv) hmet) hpending
  | exec act cont ih =>
      intro w hw v hv hmet v' hv'
      have hact : act v = .ok v' := Except.mapError_eq_ok hv'
      refine ih v (h w hw v ((hpending w.db v).mp hv) hmet v' hact) fun d d' => ⟨fun hd => ?_,
        fun hd => ?_⟩
      · obtain ⟨s, hs, hok⟩ := Except.bind_eq_ok.mp hd
        exact Except.bind_eq_ok.mpr ⟨s, (hpending d s).mp hs, Except.mapError_eq_ok hok⟩
      · obtain ⟨s, hs, hok⟩ := Except.bind_eq_ok.mp hd
        refine Except.bind_eq_ok.mpr ⟨s, (hpending d s).mpr hs, ?_⟩
        rw [hok]
        rfl

/-- **Rule for scripts that change little.** What they are going to change stays within what
the statements may change, they keep their locks, and the state moves as these allow. -/
theorem wp_within {R : σ → σ → Prop} (hrefl : ∀ s, R s s)
    (htrans : ∀ s s' s'', R s s' → R s' s'' → R s s'') {p : Script ν σ ε α} (hp : Within R p)
    (hinv : D.inv pt.state)
    (hK : ∀ a held seen pending w, pt.held ⊆ held → pt.seen ⊆ seen → D.Rely pt.held pt.state w →
      (∀ d d', pending d = .ok d' → ∃ v, pt.pending d = .ok v ∧ R v d') →
      K a { held := held, seen := seen, pending := pending, state := w }) : wp D job p K pt := by
  -- the point is generalised over the locks, the changes and the state, which only move along
  induction hp generalizing pt with
  | done r =>
      exact hK r pt.held pt.seen pt.pending pt.state (List.Subset.refl _) (List.Subset.refl _)
        (.refl hinv) fun d d' h => ⟨d', h, hrefl d'⟩
  | fail e => trivial
  | lock name h ih =>
      intro w hw
      refine ih hw.inv fun a held seen pending w' hheld hseen hw' hpending => ?_
      exact hK a held seen pending w' (fun n hn => hheld (List.mem_cons_of_mem name hn)) hseen
        (hw.trans (hw'.weaken (List.subset_cons_self name _))) hpending
  | query h ih =>
      intro w hw v hv hmet
      refine ih v hw.inv fun a held seen pending w' hheld hseen hw' hpending => ?_
      exact hK a held seen pending w' hheld (fun d hd => hseen (List.mem_append_left _ hd))
        (hw.trans hw') hpending
  | @exec act cont hact h ih =>
      intro w hw v hv hmet v' hv'
      refine ih v hw.inv fun a held seen pending w' hheld hseen hw' hpending => ?_
      refine hK a held seen pending w' hheld (fun d hd => hseen (List.mem_append_left _ hd))
        (hw.trans hw') fun d d' hd => ?_
      obtain ⟨d₂, hd₂, hR⟩ := hpending d d' hd
      obtain ⟨d₁, hd₁, hact'⟩ := Except.bind_eq_ok.mp hd₂
      exact ⟨d₁, hd₁, htrans d₁ d₂ d' (hact d₁ d₂ hact') hR⟩

/-- **Rule for scripts that change nothing.** They leave what is to be changed alone, keep
their locks, and the state moves as these allow. -/
theorem wp_quiet {p : Script ν σ ε α} (hp : Quiet p) (hinv : D.inv pt.state)
    (hK : ∀ a held seen w, pt.held ⊆ held → pt.seen ⊆ seen → D.Rely pt.held pt.state w →
      K a { pt with held := held, seen := seen, state := w }) : wp D job p K pt := by
  induction hp generalizing pt with
  | done r =>
      exact hK r pt.held pt.seen pt.state (List.Subset.refl _) (List.Subset.refl _) (.refl hinv)
  | fail e => trivial
  | lock name h ih =>
      intro w hw
      refine ih hw.inv fun a held seen w' hheld hseen hw' => ?_
      exact hK a held seen w' (fun n hn => hheld (List.mem_cons_of_mem name hn)) hseen
        (hw.trans (hw'.weaken (List.subset_cons_self name _)))
  | query h ih =>
      intro w hw v hv hmet
      refine ih v hw.inv fun a held seen w' hheld hseen hw' => ?_
      exact hK a held seen w' hheld (fun d hd => hseen (List.mem_append_left _ hd)) (hw.trans hw')
  | exec hact h ih => exact fun w hw v hv hmet v' hv' => (hact v v' hv').elim

/-- **Rule for what scripts do.** When a script is through, what is to be changed is what was
to be changed before, followed by its effects. -/
theorem wp_effects {R : σ → α → σ → Prop} {p : Script ν σ ε α} (hp : p.Effects R)
    (hinv : D.inv pt.state)
    (hK : ∀ a held seen pending w, pt.held ⊆ held → D.Rely pt.held pt.state w →
      (∀ d d', pending d = .ok d' → ∃ v, pt.pending d = .ok v ∧ R v a d') →
      K a { held := held, seen := seen, pending := pending, state := w }) : wp D job p K pt := by
  induction p generalizing pt R with
  | done r =>
      exact hK r pt.held pt.seen pt.pending pt.state (List.Subset.refl _) (.refl hinv)
        fun d d' h => ⟨d', h, hp d'⟩
  | fail e => trivial
  | lock name cont ih =>
      intro w hw
      refine ih hp hw.inv fun a held seen pending w' hheld hw' hpending => ?_
      exact hK a held seen pending w' (fun n hn => hheld (List.mem_cons_of_mem name hn))
        (hw.trans (hw'.weaken (List.subset_cons_self name _))) hpending
  | query cont ih =>
      intro w hw v _ _
      refine ih v (hp v) hw.inv fun a held seen pending w' hheld hw' hpending => ?_
      exact hK a held seen pending w' hheld (hw.trans hw') hpending
  | exec act cont ih =>
      intro w hw v _ _ v' hv'
      refine ih v (hp v v' hv') hw.inv fun a held seen pending w' hheld hw' hpending => ?_
      refine hK a held seen pending w' hheld (hw.trans hw') fun d d' hd => ?_
      obtain ⟨d₂, hd₂, hR⟩ := hpending d d' hd
      obtain ⟨d₁, hd₁, hact⟩ := Except.bind_eq_ok.mp hd₂
      exact ⟨d₁, hd₁, hR d₁ hact⟩

/-! ### Assertions that hold throughout -/

variable (D job) in
/-- From a point where `P` holds, the script gets to one where it holds, unless it rolls
back. -/
def Maintains (P : Point ι ν σ ε ρ → Prop) (p : Script ν σ ε α) : Prop :=
  ∀ pt, P pt → wp D job p (fun _ => P) pt

section Maintains

variable {P : Point ι ν σ ε ρ → Prop}

theorem maintains_pure (a : α) : Maintains D job P (pure a : Script ν σ ε α) := fun _ h => h

theorem maintains_orFail (e : ε) (o : Option α) :
    Maintains D job P (orFail e o : Script ν σ ε α) :=
  fun _ h => (wp_orFail e o).mpr fun _ _ => h

theorem maintains_failIf (c : Prop) [Decidable c] (e : ε) :
    Maintains D job P (failIf c e : Script ν σ ε Unit) :=
  fun _ h => (wp_failIf c e).mpr fun _ => h

theorem Maintains.bind {β : Type} {p : Script ν σ ε β} {f : β → Script ν σ ε α}
    (hp : Maintains D job P p) (hf : ∀ b, Maintains D job P (f b)) :
    Maintains D job P (p >>= f) :=
  fun pt h => (wp_bind p f).mpr (wp_mono (hp pt h) fun b pt' h' => hf b pt' h')

/-- An assertion that changes within `R` leave true. -/
theorem maintains_within {R : σ → σ → Prop} (hrefl : ∀ s, R s s)
    (htrans : ∀ s s' s'', R s s' → R s' s'' → R s s'') (hinv : ∀ pt, P pt → D.inv pt.state)
    (hP : ∀ pt held seen pending w, P pt → pt.held ⊆ held → D.Rely pt.held pt.state w →
      (∀ d d', pending d = .ok d' → ∃ v, pt.pending d = .ok v ∧ R v d') →
      P ⟨held, seen, pending, w⟩) {p : Script ν σ ε α} (hp : Within R p) :
    Maintains D job P p :=
  fun pt h => wp_within hrefl htrans hp (hinv pt h) fun _ held seen pending w hheld _ hw hpending =>
    hP pt held seen pending w h hheld hw hpending

end Maintains

/-- A weakest precondition stays true while the state moves as the locks allow. -/
theorem wp_rely {p : Script ν σ ε α} (h : wp D job p K pt)
    (hK : ∀ a (pt : Point ι ν σ ε ρ) w, K a pt → D.Rely pt.held pt.state w →
      K a { pt with state := w })
    {w : State ι σ ρ} (hw : D.Rely pt.held pt.state w) :
    wp D job p K { pt with state := w } := by
  cases p with
  | done r => exact hK r pt w h hw
  | fail e => trivial
  | lock name cont => exact fun w' hw' => h w' (hw.trans hw')
  | query cont => exact fun w' hw' => h w' (hw.trans hw')
  | exec act cont => exact fun w' hw' => h w' (hw.trans hw')

/-- **Rule for scripts that run alone.** Nothing moves between the statements, and a script that
is through stands where its precondition says, having seen its views. -/
theorem wp_alone {p : Script ν σ ε α} (h : wp D job p K pt) (hinv : D.inv pt.state)
    (hmet : ∀ seen v, D.met job seen v) {s s' : σ} {a : α}
    (hs : pt.pending pt.state.db = .ok s) (hrun : p.alone s = .ok (a, s')) :
    ∃ held pending, pending pt.state.db = .ok s' ∧
      K a
        { held := held
          seen := pt.seen ++ p.views s
          pending := pending
          state := pt.state } := by
  induction p generalizing pt s with
  | done r =>
      cases hrun
      refine ⟨pt.held, pt.pending, hs, ?_⟩
      rw [views, List.append_nil]
      exact h
  | fail e => cases hrun
  | lock name cont ih => exact ih (h pt.state (.refl hinv)) hinv hs hrun
  | query cont ih =>
      have hcont := ih s (h pt.state (.refl hinv) s hs (hmet _ s)) hinv hs hrun
      simpa only [views, List.append_assoc, List.singleton_append] using hcont
  | exec act cont ih =>
      cases hact : act s with
      | error e => simp [Script.alone, hact] at hrun
      | ok s₁ =>
          simp only [Script.alone, hact] at hrun
          have hpending : (pt.pending pt.state.db).bind act = .ok s₁ := by
            rw [hs]
            exact hact
          have hcont := ih s (h pt.state (.refl hinv) s hs (hmet _ s) s₁ hact) hinv hpending hrun
          simpa only [views, hact, List.append_assoc, List.singleton_append] using hcont

end Script

/-! ## Soundness -/

/-- Where an open transaction stands, over the state `w`. -/
def Session.point (x : Session ι ν σ ε ρ) (w : State ι σ ρ) : Point ι ν σ ε ρ where
  held := x.held
  seen := x.seen
  pending := x.pending
  state := w

section Soundness

variable (D : Discipline ι ν σ ρ)

/-- The transaction will commit as the discipline allows, if it commits. -/
def Session.Sound (w : State ι σ ρ) (x : Session ι ν σ ε ρ) : Prop :=
  x.script.wp D x.job (D.Commits x.job) (x.point w)

/-- **Soundness of a state**: the invariant holds, every transaction is sound, and no two
have the same lock. -/
structure Server.Sound (s : Server ι ν σ ε ρ) : Prop where
  inv : D.inv s.state
  session : ∀ t x, s.sessions.get? t = some x → x.Sound D s.state
  exclusive : ∀ t t' x x' name, s.sessions.get? t = some x → s.sessions.get? t' = some x' →
    name ∈ x.held → name ∈ x'.held → t = t'

/-- The scripts have their weakest preconditions when they begin. -/
def Verified (code : ι → Script ν σ ε ρ) : Prop :=
  ∀ job w, D.inv w → (code job).wp D job (D.Commits job) ⟨[], [], .ok, w⟩

variable {D} in
/-- **Rule for transactions that run alone**: one of them commits what it would commit in any
interleaving. -/
theorem Verified.alone {code : ι → Script ν σ ε ρ} (hcode : Verified D code) {w : State ι σ ρ}
    (hinv : D.inv w) {job : ι} (hmet : ∀ seen v, D.met job seen v) {r : ρ} {s' : σ}
    (hrun : (code job).alone w.db = .ok (r, s')) :
    ∃ held, D.Allows held w (w.commit job r ((code job).views w.db) s') := by
  obtain ⟨held, pending, hpending, hcommits⟩ :=
    Script.wp_alone (hcode job w hinv) hinv hmet rfl hrun
  exact ⟨held, hcommits w (.refl hinv) s' hpending⟩

/-- What the environment does is allowed to one who has no lock. -/
def Tame (env : η → σ → σ) : Prop :=
  ∀ e w, D.inv w → D.Allows [] w { w with db := env e w.db }

/-- A statement of this step sees what the discipline assumes. -/
def Server.Meets (s : Server ι ν σ ε ρ) : Event ι η → Prop
  | .step t =>
      ∀ x, s.sessions.get? t = some x → x.script.isStatement = true →
        ∀ v, x.pending s.state.db = .ok v → D.met x.job x.seen v
  | _ => True

variable {D}

/-- A discipline that assumes nothing is met by every step. -/
theorem Server.meets (hmet : ∀ job seen v, D.met job seen v) (s : Server ι ν σ ε ρ)
    (i : Event ι η) : s.Meets D i := by
  cases i with
  | step t => exact fun x _ _ v _ => hmet x.job x.seen v
  | _ => trivial

theorem Session.Sound.rely {w w' : State ι σ ρ} {x : Session ι ν σ ε ρ} (h : x.Sound D w)
    (hw : D.Rely x.held w w') : x.Sound D w' :=
  Script.wp_rely h (fun _ _ _ hK hrely w'' hw'' => hK w'' (hrely.trans hw'')) hw

theorem Server.sound_init {db : σ} (h : D.inv ⟨db, []⟩) :
    (Server.init db : Server ι ν σ ε ρ).Sound D where
  inv := h
  session := fun t x hx => by cases hx
  exclusive := fun t t' x x' name hx => by cases hx

theorem Server.Sound.close {s : Server ι ν σ ε ρ} (h : s.Sound D) (t : Nat) : (s.close t).Sound D :=
  ⟨h.inv, fun t' x hx => h.session t' x (OrderedMap.get?_erase_eq_some hx).2,
    fun t₁ t₂ x₁ x₂ name h₁ h₂ => h.exclusive t₁ t₂ x₁ x₂ name
      (OrderedMap.get?_erase_eq_some h₁).2 (OrderedMap.get?_erase_eq_some h₂).2⟩

/-- A transaction goes on soundly, with no lock that another one has. -/
theorem Server.Sound.resume {s : Server ι ν σ ε ρ} (h : s.Sound D) {t : Nat} {x : Session ι ν σ ε ρ}
    (hx : x.Sound D s.state)
    (hheld : ∀ t' x' name, s.sessions.get? t' = some x' → t' ≠ t → name ∈ x.held →
      name ∉ x'.held) : (s.resume t x).Sound D := by
  refine ⟨h.inv, fun t' x' hx' => ?_, fun t₁ t₂ x₁ x₂ name h₁ h₂ hn₁ hn₂ => ?_⟩
  · rcases OrderedMap.get?_insert_eq_some hx' with ⟨-, rfl⟩ | ⟨-, hx'⟩
    · exact hx
    · exact h.session t' x' hx'
  · rcases OrderedMap.get?_insert_eq_some h₁ with ⟨ht₁, rfl⟩ | ⟨ht₁, hold₁⟩
    · rcases OrderedMap.get?_insert_eq_some h₂ with ⟨ht₂, -⟩ | ⟨ht₂, hold₂⟩
      · exact ht₁.trans ht₂.symm
      · exact absurd hn₂ (hheld t₂ x₂ name hold₂ ht₂ hn₁)
    · rcases OrderedMap.get?_insert_eq_some h₂ with ⟨ht₂, rfl⟩ | ⟨ht₂, hold₂⟩
      · exact absurd hn₁ (hheld t₁ x₁ name hold₁ ht₁ hn₂)
      · exact h.exclusive t₁ t₂ x₁ x₂ name hold₁ hold₂ hn₁ hn₂

/-- The committed state moves as one who has the locks `held` may move it, and nobody else
has any of these. -/
theorem Server.Sound.moved {s : Server ι ν σ ε ρ} (h : s.Sound D) {held : List ν} {w : State ι σ ρ}
    (hw : D.Allows held s.state w)
    (hothers : ∀ t x name, s.sessions.get? t = some x → name ∈ x.held → name ∉ held) :
    ({ s with state := w } : Server ι ν σ ε ρ).Sound D := by
  refine ⟨hw.inv, fun t x hx => (h.session t x hx).rely ?_, h.exclusive⟩
  exact ⟨hw.inv, hw.onward, fun name hname => hw.keeps name (hothers t x name hx hname)⟩

section Steps

variable [DecidableEq ν]

theorem Server.taken_eq_false {s : Server ι ν σ ε ρ} {t : Nat} {name : ν}
    (h : s.taken t name = false) {t' : Nat} {x : Session ι ν σ ε ρ}
    (hx : s.sessions.get? t' = some x) (hne : t' ≠ t) : name ∉ x.held := by
  have hmem := (OrderedMap.mem_entries_iff s.sessions t' x).mpr hx
  have hnot := List.any_eq_false.mp h (t', x) hmem
  simpa [hne] using hnot

/-- The next statement of an open transaction. -/
theorem Server.Sound.advance {s : Server ι ν σ ε ρ} (h : s.Sound D) {t : Nat}
    {x : Session ι ν σ ε ρ} (hx : s.sessions.get? t = some x)
    (hmet : x.script.isStatement = true → ∀ v, x.pending s.state.db = .ok v →
      D.met x.job x.seen v) :
    (s.advance t x).Sound D := by
  have hsound : x.script.wp D x.job (D.Commits x.job) (x.point s.state) := h.session t x hx
  have hrely : D.Rely x.held s.state s.state := .refl h.inv
  -- the locks it had are still nobody else's
  have hheld : ∀ t' x' name, s.sessions.get? t' = some x' → t' ≠ t → name ∈ x.held →
      name ∉ x'.held :=
    fun t' x' name hx' hne hn hn' => hne (h.exclusive t' t x' x name hx' hx hn' hn)
  unfold Server.advance
  split
  case h_1 => exact h.close t
  case h_2 r a hscript hpending =>
    rw [hscript] at hsound
    refine (h.close t).moved (hsound s.state hrely a hpending) fun t' x' name hx' hn' hn => ?_
    obtain ⟨hne, hx'⟩ := OrderedMap.get?_erase_eq_some hx'
    exact hheld t' x' name hx' hne hn hn'
  case h_3 => exact h.close t
  case h_4 name cont _ hscript hpending =>
    rw [hscript] at hsound
    split_ifs with htaken
    · exact h
    · refine h.resume (hsound s.state hrely) fun t' x' n hx' hne hn => ?_
      rcases List.mem_cons.mp hn with rfl | hn
      · exact Server.taken_eq_false (by simpa using htaken) hx' hne
      · exact hheld t' x' n hx' hne hn
  case h_5 cont v hscript hpending =>
    rw [hscript] at hsound hmet
    exact h.resume (hsound s.state hrely v hpending (hmet rfl v hpending)) hheld
  case h_6 act cont v hscript hpending =>
    rw [hscript] at hsound hmet
    split
    · exact h.close t
    · rename_i v' hact
      exact h.resume (hsound s.state hrely v hpending (hmet rfl v hpending) v' hact) hheld

/-- **Step rule.** -/
theorem Server.sound_step {code : ι → Script ν σ ε ρ} {env : η → σ → σ} (hcode : Verified D code)
    (henv : Tame D env) {s : Server ι ν σ ε ρ} {i : Event ι η} (h : s.Sound D)
    (hmet : s.Meets D i) : (s.step code env i).Sound D := by
  cases i with
  | start t job =>
      simp only [Server.step]
      split_ifs
      · exact h
      · exact h.resume (hcode job s.state h.inv) fun t' x' name _ _ hn => by cases hn
  | step t =>
      simp only [Server.step]
      split
      · exact h
      · rename_i x hx
        exact h.advance hx (hmet x hx)
  | drop t => exact h.close t
  | env e => exact h.moved (henv e s.state h.inv) fun _ _ _ _ _ hn => by cases hn

theorem Server.stepsMeet {code : ι → Script ν σ ε ρ} {env : η → σ → σ}
    (hmet : ∀ job seen v, D.met job seen v) (s : Server ι ν σ ε ρ) (is : List (Event ι η)) :
    Transition.StepsMeet (Server.step code env) (Server.Meets D) s is :=
  Transition.StepsMeet.of_forall (Server.meets hmet) s is

/-- **Run rule.** -/
theorem Server.sound_run {code : ι → Script ν σ ε ρ} {env : η → σ → σ} (hcode : Verified D code)
    (henv : Tame D env) {db : σ} (hdb : D.inv ⟨db, []⟩) {is : List (Event ι η)}
    (hmet : Transition.StepsMeet (Server.step code env) (Server.Meets D) (Server.init db) is) :
    (Transition.run (Server.step code env) (Server.init db) is).Sound D :=
  Transition.run_invariant (Server.Sound D) (fun _ _ h hc => sound_step hcode henv h hc)
    (sound_init hdb) hmet

/-- The committed state moves as it does in any case. -/
theorem Server.Sound.onward_step {code : ι → Script ν σ ε ρ} {env : η → σ → σ} (henv : Tame D env)
    {s : Server ι ν σ ε ρ} (h : s.Sound D) (i : Event ι η) :
    D.onward s.state (s.step code env i).state := by
  rcases Server.step_state code env s i with heq | ⟨t, x, r, a, -, hx, hscript, hpending, heq⟩ |
    ⟨e, -, heq⟩
  · rw [heq]
    exact D.onward_refl s.state
  · have hsound : x.script.wp D x.job (D.Commits x.job) (x.point s.state) := h.session t x hx
    rw [hscript] at hsound
    rw [heq]
    exact (hsound s.state (.refl h.inv) a hpending).onward
  · rw [heq]
    exact (henv e s.state h.inv).onward

/-- **Run rule for what the state does in any case.** -/
theorem Server.Sound.onward_run {code : ι → Script ν σ ε ρ} {env : η → σ → σ}
    (hcode : Verified D code) (henv : Tame D env) {s : Server ι ν σ ε ρ} (h : s.Sound D)
    {is : List (Event ι η)}
    (hmet : Transition.StepsMeet (Server.step code env) (Server.Meets D) s is) :
    D.onward s.state (Transition.run (Server.step code env) s is).state := by
  induction is generalizing s with
  | nil => exact D.onward_refl s.state
  | cons i is ih =>
      exact D.onward_trans _ _ _ (h.onward_step henv i) (ih (sound_step hcode henv h hmet.1) hmet.2)

end Steps

end Soundness

end Yorishiro.Lib.Fence
