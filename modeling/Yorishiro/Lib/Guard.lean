import Yorishiro.Lib.Fence

/-!
# Locks that guard the database

A `Guard` says what each lock stands for: `keeps name` is how the database may change in the
hands of those who do not have the lock `name`. A script is `Guarded` when each of its
statements respects this for the locks it has by then; how it reads plays no part.

What one reads under a lock stays as it was. `Script.Checks` follows a script that only reads
while the database moves along a relation between its statements, and `wp_checks` makes of it a
precondition under the discipline of a guard.
-/

set_option autoImplicit false

namespace Yorishiro.Lib.Fence

variable {ι ν σ τ ε ρ η α β : Type}

/-- What is true of every database, and what the locks stand for. -/
structure Guard (ν σ : Type) where
  inv : σ → Prop
  keeps : ν → σ → σ → Prop
  refl : ∀ name s, keeps name s s
  trans : ∀ name s s' s'', keeps name s s' → keeps name s' s'' → keeps name s s''

namespace Guard

variable (G : Guard ν σ)

/-- One who has the locks `held` may change the database from `s` to `s'`. -/
structure Respects (held : List ν) (s s' : σ) : Prop where
  inv : G.inv s'
  keeps : ∀ name, name ∉ held → G.keeps name s s'

variable {G}

theorem Respects.refl {held : List ν} {s : σ} (h : G.inv s) : G.Respects held s s :=
  ⟨h, fun name _ => G.refl name s⟩

theorem Respects.trans {held : List ν} {s s' s'' : σ} (h : G.Respects held s s')
    (h' : G.Respects held s' s'') : G.Respects held s s'' :=
  ⟨h'.inv, fun name hname => G.trans name s s' s'' (h.keeps name hname) (h'.keeps name hname)⟩

theorem Respects.mono {held held' : List ν} (hsub : held ⊆ held') {s s' : σ}
    (h : G.Respects held s s') : G.Respects held' s s' :=
  ⟨h.inv, fun name hname => h.keeps name fun hmem => hname (hsub hmem)⟩

/-- The guard of a part of a larger database. -/
def on (G : Guard ν σ) (get : τ → σ) : Guard ν τ where
  inv := fun t => G.inv (get t)
  keeps := fun name t t' => G.keeps name (get t) (get t')
  refl := fun name t => G.refl name (get t)
  trans := fun name t t' t'' => G.trans name (get t) (get t') (get t'')

end Guard

/-! ## Guarded scripts -/

namespace Script

/-- Each statement changes the database as one who has the locks taken so far may. -/
def Guarded (G : Guard ν σ) : Script ν σ ε α → List ν → Prop
  | done _, _ => True
  | fail _, _ => True
  | lock name cont, held => cont.Guarded G (name :: held)
  | query cont, held => ∀ v, G.inv v → (cont v).Guarded G held
  | exec act cont, held =>
      (∀ s s', G.inv s → act s = .ok s' → G.Respects held s s') ∧
        ∀ v v', G.inv v → act v = .ok v' → (cont v).Guarded G held

section Guarded

variable {G : Guard ν σ} {held : List ν}

theorem guarded_pure (a : α) : (pure a : Script ν σ ε α).Guarded G held := trivial

theorem guarded_read (f : σ → α) : (read f : Script ν σ ε α).Guarded G held := fun _ _ => trivial

theorem guarded_failIf (c : Prop) [Decidable c] (e : ε) :
    (failIf c e : Script ν σ ε Unit).Guarded G held := by
  unfold failIf
  split_ifs
  · trivial
  · trivial

theorem guarded_acquire (name : ν) : (acquire name : Script ν σ ε Unit).Guarded G held := trivial

theorem guarded_lock {name : ν} {cont : Script ν σ ε α} (h : cont.Guarded G (name :: held)) :
    (lock name cont).Guarded G held := h

theorem Guarded.mono {p : Script ν σ ε α} (h : p.Guarded G held) {held' : List ν}
    (hsub : held ⊆ held') : p.Guarded G held' := by
  induction p generalizing held held' with
  | done r => trivial
  | fail e => trivial
  | lock name cont ih => exact ih h (List.cons_subset_cons name hsub)
  | query cont ih => exact fun v hv => ih v (h v hv) hsub
  | exec act cont ih =>
      exact ⟨fun s s' hs hact => (h.1 s s' hs hact).mono hsub,
        fun v v' hv hact => ih v (h.2 v v' hv hact) hsub⟩

theorem Guarded.bind {p : Script ν σ ε β} {f : β → Script ν σ ε α} (hp : p.Guarded G held)
    (hf : ∀ b, (f b).Guarded G held) : (p >>= f).Guarded G held := by
  change (p.bind f).Guarded G held
  induction p generalizing held with
  | done r => exact hf r
  | fail e => trivial
  | lock name cont ih => exact ih hp fun b => (hf b).mono (List.subset_cons_self name held)
  | query cont ih => exact fun v hv => ih v (hp v hv) hf
  | exec act cont ih => exact ⟨hp.1, fun v v' hv hact => ih v (hp.2 v v' hv hact) hf⟩

/-- A script whose statements all change what the locks it begins with stand for. -/
theorem Within.guarded {R : σ → σ → Prop} {p : Script ν σ ε α} (hp : Within R p)
    (hR : ∀ s s', G.inv s → R s s' → G.Respects held s s') : p.Guarded G held := by
  induction hp generalizing held with
  | done r => trivial
  | fail e => trivial
  | lock name _ ih =>
      exact ih fun s s' hs h => (hR s s' hs h).mono (List.subset_cons_self name held)
  | query _ ih => exact fun v _ => ih v hR
  | exec hact _ ih =>
      exact ⟨fun s s' hs h => hR s s' hs (hact s s' h), fun v _ _ _ => ih v hR⟩

theorem Quiet.guarded {p : Script ν σ ε α} (hp : Quiet p) : p.Guarded G held :=
  Within.guarded hp fun _ _ _ h => h.elim

theorem guarded_update {f : σ → Except ε (α × σ)}
    (hf : ∀ s a s', G.inv s → f s = .ok (a, s') → G.Respects held s s') :
    (update f : Script ν σ ε α).Guarded G held := by
  refine ⟨fun s s' hs h => ?_, fun v v' _ _ => ?_⟩
  · obtain ⟨⟨a, s''⟩, hok, rfl⟩ := Except.map_eq_ok h
    exact hf s a s'' hs hok
  · dsimp only
    cases f v with
    | error e => trivial
    | ok r => trivial

/-- What follows a script that takes a lock and reads is under the lock. -/
theorem guarded_locked_bind {name : ν} {p q : Script ν σ ε β} {f : β → Script ν σ ε α}
    (hp : p = lock name q) (hquiet : Quiet p) (hf : ∀ b, (f b).Guarded G (name :: held)) :
    (p >>= f).Guarded G held := by
  subst hp
  cases hquiet with
  | lock _ hq => exact guarded_lock (Guarded.bind (Quiet.guarded hq) hf)

theorem guarded_orFail_bind {e : ε} {o : Option β} {f : β → Script ν σ ε α}
    (h : ∀ b, o = some b → (f b).Guarded G held) : ((orFail e o) >>= f).Guarded G held := by
  cases o with
  | none => trivial
  | some b => exact h b rfl

theorem guarded_failIf_bind {c : Prop} [Decidable c] {e : ε} {f : Unit → Script ν σ ε α}
    (h : ¬c → (f ()).Guarded G held) : ((failIf c e) >>= f).Guarded G held := by
  unfold failIf
  split_ifs with hc
  · trivial
  · exact h hc

/-- What is guarded on a part is guarded on the whole. -/
theorem Guarded.zoom {p : Script ν σ ε α} (hp : p.Guarded G held) (get : τ → σ)
    (set : σ → τ → τ) (hget : ∀ s t, get (set s t) = s) :
    (p.zoom get set).Guarded (G.on get) held := by
  induction p generalizing held with
  | done r => trivial
  | fail e => trivial
  | lock name cont ih => exact ih hp
  | query cont ih => exact fun t ht => ih (get t) (hp (get t) ht)
  | exec act cont ih =>
      refine ⟨fun t t' ht h => ?_, fun t t' ht h => ?_⟩
      · obtain ⟨s, hact, rfl⟩ := Except.map_eq_ok h
        have hs := hp.1 (get t) s ht hact
        exact ⟨(congrArg G.inv (hget s t)).mpr hs.inv, fun name hname =>
          (congrArg (G.keeps name (get t)) (hget s t)).mpr (hs.keeps name hname)⟩
      · obtain ⟨s, hact, -⟩ := Except.map_eq_ok h
        exact ih (get t) (hp.2 (get t) s ht hact)

end Guarded

/-! ## Checks -/

/-- From `s`, having seen `seen`, the script changes nothing and ends where `Q` says, while the
database moves within `R` before each of its statements. -/
def Checks (R : σ → σ → Prop) :
    Script ν σ ε α → List σ → σ → (α → List σ → σ → Prop) → Prop
  | done a, seen, s, Q => Q a seen s
  | fail _, _, _, _ => True
  | lock _ cont, seen, s, Q => ∀ s', R s s' → cont.Checks R seen s' Q
  | query cont, seen, s, Q => ∀ s', R s s' → (cont s').Checks R (seen ++ [s']) s' Q
  | exec _ _, _, _, _ => False

section Checks

variable {R : σ → σ → Prop} {Q : α → List σ → σ → Prop} {seen : List σ} {s : σ}

theorem checks_bind (p : Script ν σ ε β) (f : β → Script ν σ ε α) :
    (p >>= f).Checks R seen s Q ↔
      p.Checks R seen s fun b seen' s' => (f b).Checks R seen' s' Q := by
  change (p.bind f).Checks R seen s Q ↔ _
  induction p generalizing seen s with
  | done r => exact Iff.rfl
  | fail e => exact Iff.rfl
  | lock name cont ih => simp only [Script.bind, Checks, ih]
  | query cont ih => simp only [Script.bind, Checks, ih]
  | exec act cont ih => exact Iff.rfl

theorem checks_read (f : σ → α) :
    (read f : Script ν σ ε α).Checks R seen s Q ↔ ∀ s', R s s' → Q (f s') (seen ++ [s']) s' :=
  Iff.rfl

theorem checks_orFail (e : ε) (o : Option α) :
    (orFail e o : Script ν σ ε α).Checks R seen s Q ↔ ∀ a, o = some a → Q a seen s := by
  cases o with
  | none => exact iff_of_true trivial fun a ha => by cases ha
  | some a => exact ⟨fun h b hb => by cases hb; exact h, fun h => h a rfl⟩

theorem checks_ofExcept (x : Except ε α) :
    (ofExcept x : Script ν σ ε α).Checks R seen s Q ↔ ∀ a, x = .ok a → Q a seen s := by
  cases x with
  | error e => exact iff_of_true trivial fun a ha => by cases ha
  | ok a => exact ⟨fun h b hb => by cases hb; exact h, fun h => h a rfl⟩

theorem checks_failIf (c : Prop) [Decidable c] (e : ε) {Q : Unit → List σ → σ → Prop} :
    (failIf c e : Script ν σ ε Unit).Checks R seen s Q ↔ (¬c → Q () seen s) := by
  unfold failIf
  split_ifs with hc
  · exact iff_of_true trivial fun hn => absurd hc hn
  · exact ⟨fun h _ => h, fun h => h hc⟩

theorem Checks.mono {p : Script ν σ ε α} (h : p.Checks R seen s Q)
    {Q' : α → List σ → σ → Prop} (hQ : ∀ a seen s, Q a seen s → Q' a seen s) :
    p.Checks R seen s Q' := by
  induction p generalizing seen s with
  | done r => exact hQ r seen s h
  | fail e => trivial
  | lock name cont ih => exact fun s' hs' => ih (h s' hs')
  | query cont ih => exact fun s' hs' => ih s' (h s' hs')
  | exec act cont ih => exact h.elim

/-- **Frame rule.** What holds at first and stays true still holds in the end. -/
theorem Checks.frame {P : List σ → σ → Prop}
    (hP : ∀ seen s s', P seen s → R s s' → P seen s' ∧ P (seen ++ [s']) s')
    {p : Script ν σ ε α} (h : p.Checks R seen s Q) (hs : P seen s) :
    p.Checks R seen s fun a seen' s' => P seen' s' ∧ Q a seen' s' := by
  induction p generalizing seen s with
  | done r => exact ⟨hs, h⟩
  | fail e => trivial
  | lock name cont ih => exact fun s' hs' => ih (h s' hs') (hP seen s s' hs hs').1
  | query cont ih => exact fun s' hs' => ih s' (h s' hs') (hP seen s s' hs hs').2
  | exec act cont ih => exact h.elim

/-- A check of a part is one of the whole. -/
theorem Checks.zoom {p : Script ν σ ε α} {get : τ → σ} (set : σ → τ → τ) {seen : List τ} {t : τ}
    (h : p.Checks R (seen.map get) (get t) Q) :
    (p.zoom get set).Checks (fun t t' => R (get t) (get t')) seen t
      fun a seen' t' => Q a (seen'.map get) (get t') := by
  induction p generalizing seen t with
  | done r => exact h
  | fail e => trivial
  | lock name cont ih => exact fun t' ht' => ih (h (get t') ht')
  | query cont ih =>
      intro t' ht'
      refine ih (get t') ?_
      rw [List.map_append]
      exact h (get t') ht'
  | exec act cont ih => exact h.elim

end Checks

end Script

/-! ## The discipline of a guard -/

namespace Guard

variable (G : Guard ν σ) (Φ : Entry ι σ ρ → Prop)

/-- What transactions agree on, when each commit is to be recorded as `Φ` says. -/
def discipline : Discipline ι ν σ ρ where
  inv := fun w => G.inv w.db ∧ ∀ e ∈ w.log, Φ e
  onward := fun _ _ => True
  keeps := fun name w w' => G.keeps name w.db w'.db
  met := fun _ _ _ => True
  onward_refl := fun _ => trivial
  onward_trans := fun _ _ _ _ _ => trivial
  keeps_refl := fun name w => G.refl name w.db
  keeps_trans := fun name u v w => G.trans name u.db v.db w.db

/-- What the transaction is going to change respects its locks, whenever it commits. -/
def Upheld (pt : Point ι ν σ ε ρ) : Prop :=
  ∀ w, (G.discipline Φ).Rely pt.held pt.state w → ∀ d, pt.pending w.db = .ok d →
    G.Respects pt.held w.db d

variable {G Φ} {job : ι} {pt : Point ι ν σ ε ρ}

/-- A commit that respects the locks, and is recorded as it has to be. -/
theorem Upheld.commits {r : ρ} (hpt : G.Upheld Φ pt)
    (hentry : ∀ w a, (G.discipline Φ).Rely pt.held pt.state w → pt.pending w.db = .ok a →
      Φ ⟨job, r, pt.seen, w.db, a⟩) : (G.discipline Φ).Commits job r pt := by
  intro w hw a ha
  have hrespects := hpt w hw a ha
  refine ⟨⟨hrespects.inv, fun e he => ?_⟩, trivial, hrespects.keeps⟩
  rcases List.mem_append.mp he with hold | hnew
  · exact hw.inv.2 e hold
  · rw [List.mem_singleton.mp hnew]
    exact hentry w a hw ha

/-- **Rule for guarded scripts.** -/
theorem wp_guarded {p : Script ν σ ε α} {K : α → Point ι ν σ ε ρ → Prop}
    (hp : p.Guarded G pt.held) (hpt : G.Upheld Φ pt) (hinv : (G.discipline Φ).inv pt.state)
    (hK : ∀ a pt', G.Upheld Φ pt' → K a pt') : p.wp (G.discipline Φ) job K pt := by
  -- over the statements that are left, from where the transaction stands by then
  induction p generalizing pt with
  | done r => exact hK r pt hpt
  | fail e => trivial
  | lock name cont ih =>
      intro w hw
      refine ih hp (fun w' hw' d hd => ?_) hw.inv
      have hsub := List.subset_cons_self name pt.held
      exact (hpt w' (hw.trans (hw'.weaken hsub)) d hd).mono hsub
  | query cont ih =>
      intro w hw v hv _
      have hrespects := hpt w hw v hv
      exact ih v (hp v hrespects.inv) (fun w' hw' => hpt w' (hw.trans hw')) hw.inv
  | exec act cont ih =>
      intro w hw v hv _ v' hv'
      have hrespects := hpt w hw v hv
      refine ih v (hp.2 v v' hrespects.inv hv') (fun w' hw' d hd => ?_) hw.inv
      obtain ⟨d₁, hd₁, hact⟩ := Except.bind_eq_ok.mp hd
      have hbefore := hpt w' (hw.trans hw') d₁ hd₁
      exact hbefore.trans (hp.1 d₁ d hbefore.inv hact)

/-- **A guarded script keeps the discipline**, when its commits may be recorded anyhow. -/
theorem wp_of_guarded {p : Script ν σ ε ρ} (hp : p.Guarded G [])
    (hΦ : ∀ r seen before after, Φ ⟨job, r, seen, before, after⟩) {w : State ι σ ρ}
    (hw : (G.discipline Φ).inv w) :
    p.wp (G.discipline Φ) job ((G.discipline Φ).Commits job) ⟨[], [], .ok, w⟩ := by
  refine wp_guarded hp (fun w' hw' d hd => ?_) hw fun r pt hpt => ?_
  · cases hd
    exact .refl hw'.inv.1
  · exact hpt.commits fun _ _ _ _ => hΦ r _ _ _

/-- **Rule for checks.** Under a lock that it has, a transaction that has changed nothing yet sees
the database move as the lock allows. -/
theorem wp_checks {p : Script ν σ ε α} {name : ν} {Q : α → List σ → σ → Prop}
    {K : α → Point ι ν σ ε ρ → Prop} (hname : name ∈ pt.held) (hpending : pt.pending = .ok)
    (hinv : (G.discipline Φ).inv pt.state)
    (hp : p.Checks (fun s s' => G.inv s' ∧ G.keeps name s s') pt.seen pt.state.db Q)
    (hK : ∀ a held seen w, pt.held ⊆ held → (G.discipline Φ).Rely pt.held pt.state w →
      Q a seen w.db → K a ⟨held, seen, .ok, w⟩) : p.wp (G.discipline Φ) job K pt := by
  obtain ⟨held, seen, pending, state⟩ := pt
  obtain rfl : pending = .ok := hpending
  induction p generalizing held seen state with
  | done r => exact hK r held seen state (List.Subset.refl _) (.refl hinv) hp
  | fail e => trivial
  | lock n cont ih =>
      intro w hw
      refine ih _ _ w (List.mem_cons_of_mem n hname) hw.inv (hp w.db ⟨hw.inv.1, hw.keeps name hname⟩)
        fun a held' seen' w' hheld hw' hQ => ?_
      have hsub := List.subset_cons_self n held
      exact hK a held' seen' w' (List.Subset.trans hsub hheld) (hw.trans (hw'.weaken hsub)) hQ
  | query cont ih =>
      intro w hw v hv _
      cases hv
      refine ih _ _ _ w hname hw.inv (hp w.db ⟨hw.inv.1, hw.keeps name hname⟩)
        fun a held' seen' w' hheld hw' hQ => ?_
      exact hK a held' seen' w' hheld (hw.trans hw') hQ
  | exec act cont ih => exact hp.elim

/-- What the environment does respects every lock. -/
theorem tame {env : η → σ → σ} (henv : ∀ e s, G.inv s → G.Respects [] s (env e s)) :
    Tame (G.discipline Φ) env := by
  intro e w hw
  have hrespects := henv e w.db hw.1
  exact ⟨⟨hrespects.inv, hw.2⟩, trivial, hrespects.keeps⟩

/-- **Run rule.** Every commit of every interleaving is recorded as `Φ` says. -/
theorem log_run [DecidableEq ν] {code : ι → Script ν σ ε ρ} {env : η → σ → σ}
    (hcode : Verified (G.discipline Φ) code)
    (henv : ∀ e s, G.inv s → G.Respects [] s (env e s)) {db : σ} (hdb : G.inv db)
    (is : List (Event ι η)) :
    ∀ e ∈ (Transition.run (Server.step code env) (Server.init db) is).state.log, Φ e := by
  have hsound : (Transition.run (Server.step code env) (Server.init db) is).Sound
      (G.discipline Φ) :=
    Server.sound_run hcode (tame henv) ⟨hdb, List.forall_mem_nil _⟩
      (Server.stepsMeet (fun _ _ _ => trivial) _ is)
  exact hsound.inv.2

end Guard

end Yorishiro.Lib.Fence
