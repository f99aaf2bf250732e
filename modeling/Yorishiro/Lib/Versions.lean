import Yorishiro.Lib.ReadCommitted

/-!
# Versions of rows

A stamp that is never given to a row twice identifies a version of the row. Where
every write of a system of transactions takes such a stamp, two versions with the
same stamp are the same (`Sys.Unique`), and a version that a commit has replaced
neither comes back nor is replaced again (`Sys.Retired`). `unique_step` and
`retired_step` are their step rules.

Whatever the stamps are, the commits tell the whole history of the rows: each commit
changed what the commits before it had left (`Sys.Replays`, with `replays_step`).
-/

set_option autoImplicit false

namespace Yorishiro.Lib

variable {ι κ α β τ ε ρ : Type} [LinearOrder κ]

section Stamps

variable {ν : Type} (ver : α → ν) (mark : τ → ν)

/-- A write of this step gives the row a version that the row never had. -/
def Sys.Fresh (s : Sys ι κ α β τ ε ρ) : Input ι τ → Prop
  | .start _ _ => True
  | .step t stamp =>
      match s.writing t with
      | none => True
      | some (_, k, _) => ∀ e ∈ s.written, e.1 = k → ver e.2 ≠ mark stamp

instance Sys.Fresh.decidable [DecidableEq ν] (s : Sys ι κ α β τ ε ρ) (i : Input ι τ) :
    Decidable (s.Fresh ver mark i) :=
  match i with
  | .start _ _ => .isTrue trivial
  | .step t stamp =>
      match h : s.writing t with
      | none => .isTrue (by simp [Fresh, h])
      | some (_, k, _) =>
          decidable_of_iff (∀ e ∈ s.written, e.1 = k → ver e.2 ≠ mark stamp) (by simp [Fresh, h])

/-- Every write takes its version from its stamp. -/
def Stamped (C : ι → Contract κ α τ) : Prop :=
  ∀ job seen wrote k stamp x y, (C job).writes seen wrote k stamp x (some y) → ver y = mark stamp

/-- The versions of a row are told apart by `ver`. -/
def Sys.Unique (s : Sys ι κ α β τ ε ρ) : Prop :=
  ∀ k x y, (k, x) ∈ s.written → (k, y) ∈ s.written → ver x = ver y → x = y

/-- Replaced versions are gone for good, and no version is replaced twice. -/
structure Sys.Retired (s : Sys ι κ α β τ ε ρ) : Prop where
  known : ∀ c ∈ s.commits, ∀ k old o, (k, old, o) ∈ c.changes → (k, old) ∈ s.written
  gone : ∀ c ∈ s.commits, ∀ k old o, (k, old, o) ∈ c.changes → s.store.rows.get? k ≠ some old
  unwritten : ∀ c ∈ s.commits, ∀ k old o, (k, old, o) ∈ c.changes → ∀ t x,
    s.txns.get? t = some x → x.dirty.get? k ≠ some (some old)
  dirty_new : ∀ t x k y, s.txns.get? t = some x → x.dirty.get? k = some (some y) →
    s.store.rows.get? k ≠ some y
  once : s.commits.Pairwise fun a b =>
    ∀ k old o o', (k, old, o) ∈ a.changes → (k, old, o') ∉ b.changes

/-! ## Versions -/

variable {ver mark} {W : World κ α β} {C : ι → Contract κ α τ}
  {post : ι → List (κ × α) → List κ → ρ → Prop} {code : ι → Prog κ α β τ ε ρ}

theorem Sys.unique_init (store : Store κ α β) :
    (Sys.init store : Sys ι κ α β τ ε ρ).Unique ver := by
  intro k x y hx hy _
  have hx' := (OrderedMap.mem_entries_iff store.rows k x).mp hx
  have hy' := (OrderedMap.mem_entries_iff store.rows k y).mp hy
  exact Option.some.inj (hx'.symm.trans hy')

theorem Sys.retired_init (store : Store κ α β) :
    (Sys.init store : Sys ι κ α β τ ε ρ).Retired where
  known := fun c hc => by cases hc
  gone := fun c hc => by cases hc
  unwritten := fun c hc => by cases hc
  dirty_new := fun t x k y hx => by cases hx
  once := List.Pairwise.nil

/-- What a statement that wrote a version of a row wrote: a version no earlier one has. -/
theorem Txn.Moves.new_version {s : Sys ι κ α β τ ε ρ} (h : s.Sound W C post)
    (hstamped : Stamped ver mark C) {t : Nat} {stamp : τ} (hcalm : s.Calm C (.step t stamp))
    (hfresh : s.Fresh ver mark (.step t stamp)) {x : Txn ι κ α β τ ε ρ}
    (hx : s.txns.get? t = some x) {m : Txn ι κ α β τ ε ρ × List (κ × α)}
    (hmove : x.Moves (s.blocked t) s.store stamp m) {k : κ} {y : α} (hy : (k, y) ∈ m.2) :
    ∀ e ∈ s.written, e.1 = k → ver e.2 ≠ ver y := by
  cases hmove with
  | write l p act cont row hprog hqueued hfree hrow hp =>
      have hwriting := Sys.writing_eq hx hprog hqueued hfree hrow hp
      have hact : act stamp row = some y ∧ l = k := by
        cases hact : act stamp row with
        | none => simp [hact] at hy
        | some z =>
            simp only [hact, Option.map_some, Option.toList_some, List.mem_singleton,
              Prod.mk.injEq] at hy
            exact ⟨by rw [hy.2], hy.1.symm⟩
      have hsound := h.txn t x hx
      have hwp := hsound.wp
      rw [hprog] at hwp
      have hwrites := (hwp.1 stamp row (hsound.view_row h.within.1 hrow) hp
        (hcalm.write hx hprog hqueued hfree hrow hp)).1
      rw [hact.1] at hwrites
      -- the contract of the write names the version it leaves
      have hver : ver y = mark stamp := hstamped _ _ _ _ _ _ _ hwrites
      simp only [Sys.Fresh, hwriting] at hfresh
      rw [hver, ← hact.2]
      exact hfresh
  | _ => cases hy

/-- Stamps that are never given twice tell the versions of a row apart. -/
theorem Sys.unique_step {s : Sys ι κ α β τ ε ρ} {i : Input ι τ} (h : s.Sound W C post)
    (hstamped : Stamped ver mark C) (hcalm : s.Calm C i) (hfresh : s.Fresh ver mark i)
    (hunique : s.Unique ver) : (s.step code i).Unique ver := by
  have hmoves := step_moves code s i
  generalize s.step code i = s' at hmoves
  cases hmoves with
  | idle => exact hunique
  | start t job hnew => exact hunique
  | rollback t stamp x hx => exact hunique
  | commit t stamp x r hx hprog => exact hunique
  | advance t stamp x m hx hmove =>
      have hnew := fun k y => hmove.new_version h hstamped hcalm hfresh hx (k := k) (y := y)
      -- one statement writes at most one version
      have hone : ∀ e e', e ∈ m.2 → e' ∈ m.2 → e = e' := by
        cases hmove with
        | write l p act cont row hprog hqueued hfree hrow hp =>
            intro e e' he he'
            simp only [Option.mem_toList] at he he'
            exact Option.some.inj (he.symm.trans he')
        | _ => intro e e' he; cases he
      intro k y z hy hz hver
      rcases List.mem_append.mp hy with hy | hy
      · rcases List.mem_append.mp hz with hz | hz
        · exact hunique k y z hy hz hver
        · exact absurd hver (hnew k z hz (k, y) hy rfl)
      · rcases List.mem_append.mp hz with hz | hz
        · exact absurd hver.symm (hnew k y hy (k, z) hz rfl)
        · exact congrArg Prod.snd (hone (k, y) (k, z) hy hz)

/-! ## Retirement -/

/-- A statement leaves the rows it had written, apart from the version it writes. -/
theorem Txn.Moves.dirty {blocked : κ → Bool} {s : Store κ α β} {stamp : τ}
    {x : Txn ι κ α β τ ε ρ} {m : Txn ι κ α β τ ε ρ × List (κ × α)}
    (hmove : x.Moves blocked s stamp m) {k : κ} {y : α} (h : m.1.dirty.get? k = some (some y)) :
    x.dirty.get? k = some (some y) ∨ (k, y) ∈ m.2 := by
  cases hmove with
  | write l p act cont row hprog hqueued hfree hrow hp =>
      simp only [OrderedMap.get?_insert] at h
      split_ifs at h with hk
      · right
        rw [Option.some.inj h, hk]
        simp
      · exact Or.inl h
  | _ => exact Or.inl h

/-- A commit retires the rows it replaces. -/
theorem Sys.Sound.retired_commit {s : Sys ι κ α β τ ε ρ} (h : s.Sound W C post)
    (hretired : s.Retired) {t : Nat} {x : Txn ι κ α β τ ε ρ} (hx : s.txns.get? t = some x)
    {r : ρ} : (s.commit t x r).Retired := by
  constructor
  case known =>
    intro c hc k old o hmem
    rcases List.mem_append.mp hc with hc | hc
    · exact hretired.known c hc k old o hmem
    · rw [List.mem_singleton.mp hc] at hmem
      exact h.rows_written k old (mem_changes.mp hmem).2
  case gone =>
    intro c hc k old o hmem hrow
    simp only [commit, Txn.get?_view] at hrow
    rcases List.mem_append.mp hc with hc | hc
    · -- An earlier commit replaced `old`: it was gone, and the transaction has not written it.
      cases hdirty : x.dirty.get? k with
      | none =>
          rw [hdirty] at hrow
          exact hretired.gone c hc k old o hmem hrow
      | some o' =>
          rw [hdirty] at hrow
          obtain rfl : o' = some old := hrow
          exact hretired.unwritten c hc k old o hmem t x hx hdirty
    · -- This commit replaced `old`, by a version that was not the committed one.
      rw [List.mem_singleton.mp hc] at hmem
      obtain ⟨hdirty, hold⟩ := mem_changes.mp hmem
      rw [hdirty] at hrow
      obtain rfl : o = some old := hrow
      exact hretired.dirty_new t x k old hx hdirty hold
  case unwritten =>
    intro c hc k old o hmem t' x' hx' hdirty'
    obtain ⟨hne, hx'⟩ := OrderedMap.get?_erase_eq_some hx'
    rcases List.mem_append.mp hc with hc | hc
    · exact hretired.unwritten c hc k old o hmem t' x' hx' hdirty'
    · -- Two transactions cannot have written the row.
      rw [List.mem_singleton.mp hc] at hmem
      have hfree := h.exclusive t' t x' x k hx' hx hne (by simp [Txn.holds, hdirty'])
      simp [Txn.holds, (mem_changes.mp hmem).1] at hfree
  case dirty_new =>
    intro t' x' k y hx' hdirty'
    obtain ⟨hne, hx'⟩ := OrderedMap.get?_erase_eq_some hx'
    -- the row is locked by `t'`, so the commit of `t` has left it alone
    have hk : k ∈ x'.wrote := ((h.txn t' x' hx').wrote k).mp (by simp [hdirty'])
    simp only [commit]
    rw [h.commit_rows hx hx' hne hk]
    exact hretired.dirty_new t' x' k y hx' hdirty'
  case once =>
    -- what an earlier commit replaced was no longer there for this one to replace
    refine List.pairwise_append.mpr ⟨hretired.once, List.pairwise_singleton _ _, ?_⟩
    intro a ha b hb k old o o' hmem hmem'
    rw [List.mem_singleton.mp hb] at hmem'
    exact hretired.gone a ha k old o hmem (mem_changes.mp hmem').2

/-- A change of the open transactions keeps retirement, when what they have written is
neither a replaced nor a committed version. -/
theorem Sys.Retired.of_txns {s : Sys ι κ α β τ ε ρ} (h : s.Retired)
    {txns : OrderedMap Nat (Txn ι κ α β τ ε ρ)} {more : List (κ × α)}
    (hdirty : ∀ t x k y, txns.get? t = some x → x.dirty.get? k = some (some y) →
      (∃ t' x', s.txns.get? t' = some x' ∧ x'.dirty.get? k = some (some y)) ∨
        ((∀ c ∈ s.commits, ∀ o, (k, y, o) ∉ c.changes) ∧ s.store.rows.get? k ≠ some y)) :
    ({ s with txns := txns, written := s.written ++ more } : Sys ι κ α β τ ε ρ).Retired where
  known := fun c hc k old o hmem => List.mem_append_left _ (h.known c hc k old o hmem)
  gone := h.gone
  unwritten := by
    intro c hc k old o hmem t x hx hy
    rcases hdirty t x k old hx hy with ⟨t', x', hx', hy'⟩ | ⟨hnever, -⟩
    · exact h.unwritten c hc k old o hmem t' x' hx' hy'
    · exact hnever c hc o hmem
  dirty_new := by
    intro t x k y hx hy
    rcases hdirty t x k y hx hy with ⟨t', x', hx', hy'⟩ | ⟨-, hrow⟩
    · exact h.dirty_new t' x' k y hx' hy'
    · exact hrow
  once := h.once

/-- A replaced version stays gone. -/
theorem Sys.retired_step {s : Sys ι κ α β τ ε ρ} {i : Input ι τ} (h : s.Sound W C post)
    (hstamped : Stamped ver mark C) (hcalm : s.Calm C i) (hfresh : s.Fresh ver mark i)
    (hretired : s.Retired) : (s.step code i).Retired := by
  have hmoves := step_moves code s i
  generalize s.step code i = s' at hmoves
  have hquiet : s.written ++ [] = s.written := List.append_nil s.written
  cases hmoves with
  | idle => exact hretired
  | start t job hnew =>
      rw [← hquiet]
      apply hretired.of_txns
      intro t' x' k y hx' hy
      rcases OrderedMap.get?_insert_eq_some hx' with ⟨-, rfl⟩ | ⟨-, hx'⟩
      · cases hy
      · exact Or.inl ⟨t', x', hx', hy⟩
  | rollback t stamp x hx =>
      rw [← hquiet]
      apply hretired.of_txns
      intro t' x' k y hx' hy
      exact Or.inl ⟨t', x', (OrderedMap.get?_erase_eq_some hx').2, hy⟩
  | commit t stamp x r hx hprog => exact h.retired_commit hretired hx
  | advance t stamp x m hx hmove =>
      apply hretired.of_txns
      intro t' x' k y hx' hy
      rcases OrderedMap.get?_insert_eq_some hx' with ⟨-, rfl⟩ | ⟨-, hx'⟩
      · rcases hmove.dirty hy with hy | hwrote
        · exact Or.inl ⟨t, x, hx, hy⟩
        · -- A version that was just written has a stamp that no earlier version has.
          have hnew := hmove.new_version h hstamped hcalm hfresh hx hwrote
          refine Or.inr ⟨fun c hc o hmem => ?_, fun hrow => ?_⟩
          · exact hnew (k, y) (hretired.known c hc k y o hmem) rfl rfl
          · exact hnew (k, y) (h.rows_written k y hrow) rfl rfl
      · exact Or.inl ⟨t', x', hx', hy⟩

end Stamps

/-! ## Replaying the commits -/

section Replay

/-- The rows after a commit's changes. -/
def Commit.apply (rows : OrderedMap κ α) (c : Commit ι κ α ρ) : OrderedMap κ α :=
  (c.changes.map fun e => (e.1, e.2.2)).foldl (fun m e => m.put e.1 e.2) rows

/-- The rows after the commits, in their order. -/
def replay (rows : OrderedMap κ α) (commits : List (Commit ι κ α ρ)) : OrderedMap κ α :=
  commits.foldl Commit.apply rows

/-- The committed rows are what the commits made of the first ones, and each commit changed
the rows that the commits before it had left. -/
structure Sys.Replays (rows : OrderedMap κ α) (s : Sys ι κ α β τ ε ρ) : Prop where
  current : ∀ k, s.store.rows.get? k = (replay rows s.commits).get? k
  changed : ∀ before c after, s.commits = before ++ c :: after → ∀ k old o,
    (k, old, o) ∈ c.changes → (replay rows before).get? k = some old

variable {W : World κ α β} {C : ι → Contract κ α τ}
  {post : ι → List (κ × α) → List κ → ρ → Prop} {code : ι → Prog κ α β τ ε ρ}
  {rows : OrderedMap κ α}

theorem Sys.replays_init (store : Store κ α β) :
    (Sys.init store : Sys ι κ α β τ ε ρ).Replays store.rows where
  current := fun _ => rfl
  changed := by
    intro before c after h
    cases before <;> cases h

theorem Sys.sorted_changes (s : Sys ι κ α β τ ε ρ) (x : Txn ι κ α β τ ε ρ) :
    Entries.Sorted ((s.changes x).map fun e => (e.1, e.2.2)) := by
  unfold changes Entries.Sorted
  rw [List.pairwise_map, List.pairwise_filterMap]
  refine x.dirty.sorted.imp ?_
  intro a b hab e he e' he'
  obtain ⟨_, -, rfl⟩ := Option.map_eq_some_iff.mp he
  obtain ⟨_, -, rfl⟩ := Option.map_eq_some_iff.mp he'
  exact hab

/-- The changes of a transaction, applied to the committed rows, give what it sees. -/
theorem Sys.Sound.get?_apply {s : Sys ι κ α β τ ε ρ} (h : s.Sound W C post) {t : Nat}
    {x : Txn ι κ α β τ ε ρ} (hx : s.txns.get? t = some x) {r : ρ} (m : OrderedMap κ α)
    (hm : ∀ k, s.store.rows.get? k = m.get? k) (k : κ) :
    (x.view s.store.rows).get? k =
      (Commit.apply m { job := x.job, result := r, changes := s.changes x }).get? k := by
  rw [Txn.get?_view, Commit.apply, get?_foldl_put (sorted_changes s x), hm]
  congr 1
  have hsound := h.txn t x hx
  -- the changes are the dirty rows, in the order of their keys
  cases hdirty : x.dirty.get? k with
  | none =>
      symm
      rw [Entries.get?_eq_none_iff]
      intro hmem
      obtain ⟨e, he, rfl⟩ := List.mem_map.mp hmem
      obtain ⟨⟨l, old, o⟩, hchange, rfl⟩ := List.mem_map.mp he
      rw [(mem_changes.mp hchange).1] at hdirty
      cases hdirty
  | some o =>
      symm
      obtain ⟨old, hold⟩ := hsound.base k ((hsound.wrote k).mp (by simp [hdirty]))
      apply Entries.get?_of_mem (sorted_changes s x)
      exact List.mem_map.mpr ⟨(k, old, o), mem_changes.mpr ⟨hdirty, hold⟩, rfl⟩

theorem Sys.replays_step {s : Sys ι κ α β τ ε ρ} {i : Input ι τ} (h : s.Sound W C post)
    (hreplays : s.Replays rows) : (s.step code i).Replays rows := by
  have hmoves := step_moves code s i
  generalize s.step code i = s' at hmoves
  cases hmoves with
  | idle => exact hreplays
  | start t job hnew => exact ⟨hreplays.current, hreplays.changed⟩
  | rollback t stamp x hx => exact ⟨hreplays.current, hreplays.changed⟩
  | advance t stamp x m hx hmove => exact ⟨hreplays.current, hreplays.changed⟩
  | commit t stamp x r hx hprog =>
      constructor
      case current =>
        intro k
        simp only [commit, replay, List.foldl_append, List.foldl_cons, List.foldl_nil]
        exact h.get?_apply hx _ hreplays.current k
      case changed =>
        intro before c after heq k old o hmem
        rcases List.append_eq_append_iff.mp heq with ⟨rest, hbefore, hrest⟩ | ⟨rest, hcommits, hrest⟩
        · -- The new commit changed the committed rows.
          have hnil : rest = [] ∧ c = { job := x.job, result := r, changes := s.changes x } := by
            cases rest with
            | nil => exact ⟨rfl, (List.cons.inj hrest).1.symm⟩
            | cons d rest => simp at hrest
          rw [hbefore, hnil.1, List.append_nil, ← hreplays.current]
          rw [hnil.2] at hmem
          exact (mem_changes.mp hmem).2
        · cases rest with
          | nil =>
              rw [List.append_nil] at hcommits
              -- the split falls at the end of the old commits: again the new commit
              rw [← hcommits, ← hreplays.current]
              rw [(List.cons.inj hrest).1] at hmem
              exact (mem_changes.mp hmem).2
          | cons d rest =>
              obtain ⟨rfl, -⟩ := List.cons.inj hrest
              exact hreplays.changed before c rest hcommits k old o hmem

end Replay

end Yorishiro.Lib
