import Mathlib.Data.List.Basic
import Mathlib.Data.List.Lemmas
import Mathlib.Data.List.Perm.Basic
import Mathlib.Data.List.Sort

/-!
# Ranked selections

What `ORDER BY`, `LIMIT`, `CROSS JOIN LATERAL` and `row_number()` may return. An order by rank
leaves rows of one rank in any order, so a query has no single result: each operator here relates
the rows it reads to the lists it may return.

The newest rows of each group can be selected by a limited query for every key, joined laterally,
or by numbering all rows within their groups and keeping the low numbers. `lateral_iff_numbered`
says that both may return the same rows, and `Limited.rearrange` that a limited selection which is
ordered once more is still a limited selection.
-/

set_option autoImplicit false

namespace Yorishiro.Lib.Ranking

universe u v

variable {α : Type u} {κ : Type v}

/-! ## Operators -/

/-- `ORDER BY`: the rows, none before a row that has to come before it. -/
structure Ordered (le : α → α → Prop) (rows out : List α) : Prop where
  perm : out.Perm rows
  sorted : out.Pairwise le

/-- `ORDER BY ... LIMIT n`. -/
def Limited (le : α → α → Prop) (n : Nat) (rows out : List α) : Prop :=
  ∃ all, Ordered le rows all ∧ out = all.take n

/-- `CROSS JOIN LATERAL` of keys with a query that reads the key. -/
inductive Lateral (query : κ → List α → Prop) : List κ → List α → Prop where
  | nil : Lateral query [] []
  | cons {k : κ} {ks : List κ} {xs rest : List α} :
      query k xs → Lateral query ks rest → Lateral query (k :: ks) (xs ++ rest)

section Groups

variable [DecidableEq κ] (key : α → κ)

/-- The rows of a group. -/
def group (k : κ) (rows : List α) : List α := rows.filter fun row => decide (key row = k)

/-- `row_number() OVER (PARTITION BY key ORDER BY le)`: every row with its position, from one on,
among the rows of its group. -/
structure Numbered (le : α → α → Prop) (rows : List α) (numbered : List (α × Nat)) : Prop where
  complete : (numbered.map Prod.fst).Perm rows
  positions : ∀ k, ∃ part, Ordered le (group key k rows) part ∧
    (group (fun e => key e.1) k numbered).Perm (part.zipIdx 1)

/-- `WHERE position <= n` over numbered rows. -/
def withinPosition (n : Nat) (numbered : List (α × Nat)) : List α :=
  (numbered.filter fun e => decide (e.2 ≤ n)).map Prod.fst

end Groups

/-! ## Limited selections -/

section Limits

variable {le : α → α → Prop} {n : Nat} {rows rows' out xs ys : List α}

theorem Ordered.of_perm (h : Ordered le rows out) (hperm : rows.Perm rows') :
    Ordered le rows' out :=
  ⟨h.perm.trans hperm, h.sorted⟩

theorem Limited.of_perm (h : Limited le n rows out) (hperm : rows.Perm rows') :
    Limited le n rows' out := by
  obtain ⟨all, hall, rfl⟩ := h
  exact ⟨all, hall.of_perm hperm, rfl⟩

theorem Limited.length_eq (h : Limited le n rows out) : out.length = min n rows.length := by
  obtain ⟨all, hall, rfl⟩ := h
  rw [List.length_take, hall.perm.length_eq]

theorem Limited.subset (h : Limited le n rows out) : out ⊆ rows := by
  obtain ⟨all, hall, rfl⟩ := h
  intro x hx
  exact hall.perm.mem_iff.mp (List.mem_of_mem_take hx)

/-- What is selected may be ordered once more: rows of one rank change places at most, and those
that were left out still come after all that were taken. -/
theorem Limited.rearrange (h : Limited le n rows xs) (hys : Ordered le xs ys) :
    Limited le n rows ys := by
  obtain ⟨all, hall, rfl⟩ := h
  have hcut := hall.sorted
  rw [← List.take_append_drop n all, List.pairwise_append] at hcut
  refine ⟨ys ++ all.drop n, ⟨?_, List.pairwise_append.mpr ⟨hys.sorted, hcut.2.1, ?_⟩⟩, ?_⟩
  · have hsplit : (ys ++ all.drop n).Perm (all.take n ++ all.drop n) := hys.perm.append_right _
    rw [List.take_append_drop] at hsplit
    exact hsplit.trans hall.perm
  · intro a ha b hb
    exact hcut.2.2 a (hys.perm.mem_iff.mp ha) b hb
  · have hlength : ys.length = min n all.length := by
      rw [hys.perm.length_eq, List.length_take]
    rcases Nat.le_total n all.length with hle | hle
    · rw [Nat.min_eq_left hle] at hlength
      rw [← hlength, List.take_left]
    · rw [Nat.min_eq_right hle] at hlength
      rw [List.drop_eq_nil_of_le hle, List.append_nil, List.take_of_length_le]
      omega

end Limits

/-! ## Groups -/

section Groups

variable [DecidableEq κ] {key : α → κ} {le : α → α → Prop} {n : Nat} {keys : List κ} {k : κ}
  {f g : κ → List α} {rows out : List α}

theorem mem_group {x : α} : x ∈ group key k rows ↔ x ∈ rows ∧ key x = k := by
  rw [group, List.mem_filter, decide_eq_true_iff]

theorem group_perm (h : out.Perm rows) : (group key k out).Perm (group key k rows) :=
  h.filter _

/-- Rows whose keys are listed once each are the rows of the groups of these keys. -/
theorem flatMap_group_perm (hnodup : keys.Nodup) (hkeys : ∀ x ∈ rows, key x ∈ keys) :
    (keys.flatMap fun k => group key k rows).Perm rows := by
  induction keys generalizing rows with
  | nil =>
      have hnil : rows = [] := List.eq_nil_iff_forall_not_mem.mpr fun x hx => nomatch hkeys x hx
      rw [hnil]
      rfl
  | cons k ks ih =>
      obtain ⟨hnotin, hrest⟩ := List.nodup_cons.mp hnodup
      have hgroups : (ks.flatMap fun k' => group key k' rows) =
          ks.flatMap fun k' => group key k' (rows.filter fun x => !decide (key x = k)) := by
        refine List.flatMap_congr fun k' hk' => ?_
        have hne : k' ≠ k := fun h => hnotin (h ▸ hk')
        rw [group, group, List.filter_filter]
        refine List.filter_congr fun x _ => ?_
        by_cases hx : key x = k'
        · simp [hx, hne]
        · simp [hx]
      have hothers : ∀ x ∈ rows.filter fun x => !decide (key x = k), key x ∈ ks := by
        intro x hx
        obtain ⟨hmem, hne⟩ := List.mem_filter.mp hx
        have hne : key x ≠ k := by simpa using hne
        exact (List.mem_cons.mp (hkeys x hmem)).resolve_left hne
      rw [List.flatMap_cons, hgroups]
      exact ((ih hrest hothers).append_left _).trans (List.filter_append_perm _ _)

/-- The group of a key in rows that are listed key by key. -/
theorem group_flatMap (hnodup : keys.Nodup) (hkey : ∀ k ∈ keys, ∀ x ∈ g k, key x = k) :
    group key k (keys.flatMap g) = if k ∈ keys then g k else [] := by
  induction keys with
  | nil => rfl
  | cons k' ks ih =>
      obtain ⟨hnotin, hrest⟩ := List.nodup_cons.mp hnodup
      have hhead : ∀ x ∈ g k', key x = k' := hkey k' List.mem_cons_self
      have ih := ih hrest fun k hk => hkey k (List.mem_cons_of_mem _ hk)
      rw [group] at ih ⊢
      rw [List.flatMap_cons, List.filter_append, ih]
      by_cases hk : k = k'
      · subst hk
        rw [if_pos List.mem_cons_self, if_neg hnotin, List.append_nil, List.filter_eq_self]
        exact fun x hx => decide_eq_true (hhead x hx)
      · have hnone : ((g k').filter fun x => decide (key x = k)) = [] := by
          rw [List.filter_eq_nil_iff]
          intro x hx
          rw [hhead x hx]
          simpa using Ne.symm hk
        rw [hnone, List.nil_append]
        simp [hk]

/-! ## Lateral joins -/

/-- A lateral join lists what the query may return for each key. -/
theorem lateral_iff {query : κ → List α → Prop} (hnodup : keys.Nodup) :
    Lateral query keys out ↔
      ∃ g : κ → List α, (∀ k ∈ keys, query k (g k)) ∧ out = keys.flatMap g := by
  constructor
  · intro h
    induction h with
    | nil => exact ⟨fun _ => [], fun _ hk => (nomatch hk), rfl⟩
    | @cons k ks xs rest hx _ ih =>
        obtain ⟨hnotin, hrest⟩ := List.nodup_cons.mp hnodup
        obtain ⟨g, hg, rfl⟩ := ih hrest
        refine ⟨Function.update g k xs, ?_, ?_⟩
        · intro k' hk'
          rcases List.mem_cons.mp hk' with rfl | hk'
          · rwa [Function.update_self]
          · have hne : k' ≠ k := fun h => hnotin (h ▸ hk')
            rw [Function.update_of_ne hne]
            exact hg k' hk'
        · rw [List.flatMap_cons, Function.update_self]
          congr 1
          refine List.flatMap_congr fun k' hk' => ?_
          have hne : k' ≠ k := fun h => hnotin (h ▸ hk')
          rw [Function.update_of_ne hne]
  · rintro ⟨g, hg, rfl⟩
    clear hnodup
    induction keys with
    | nil => exact .nil
    | cons k ks ih =>
        exact .cons (hg k List.mem_cons_self) (ih fun k hk => hg k (List.mem_cons_of_mem _ hk))

/-! ## Numbered rows -/

theorem withinPosition_zipIdx_from (part : List α) (i : Nat) :
    withinPosition n (part.zipIdx i) = part.take (n + 1 - i) := by
  induction part generalizing i with
  | nil => simp [withinPosition]
  | cons x part ih =>
      have ih := ih (i + 1)
      rw [withinPosition] at ih ⊢
      rw [List.zipIdx_cons, List.filter_cons]
      split
      · next hi =>
        have hi : i ≤ n := of_decide_eq_true hi
        have htake : n + 1 - i = (n + 1 - (i + 1)) + 1 := by omega
        rw [List.map_cons, ih, htake, List.take_succ_cons]
      · next hi =>
        have hi : ¬i ≤ n := fun h => hi (decide_eq_true h)
        have hlow : n + 1 - (i + 1) = 0 := by omega
        have hzero : n + 1 - i = 0 := by omega
        rw [ih, hlow, hzero, List.take_zero, List.take_zero]

/-- Low positions in an ordered list are a limit. -/
theorem withinPosition_zipIdx (part : List α) : withinPosition n (part.zipIdx 1) = part.take n :=
  withinPosition_zipIdx_from part 1

theorem withinPosition_perm {numbered numbered' : List (α × Nat)} (h : numbered.Perm numbered') :
    (withinPosition n numbered).Perm (withinPosition n numbered') :=
  (h.filter _).map _

omit [DecidableEq κ] in
theorem withinPosition_flatMap {numbered : κ → List (α × Nat)} :
    withinPosition n (keys.flatMap numbered) =
      keys.flatMap fun k => withinPosition n (numbered k) := by
  rw [withinPosition, List.filter_flatMap, List.map_flatMap]
  rfl

/-- Numbering the ordered groups one after the other numbers all rows. -/
theorem numbered_flatMap (hnodup : keys.Nodup) (hrows : rows.Perm (keys.flatMap f))
    (hkey : ∀ k ∈ keys, ∀ x ∈ f k, key x = k) (hg : ∀ k ∈ keys, Ordered le (f k) (g k)) :
    Numbered key le rows (keys.flatMap fun k => (g k).zipIdx 1) := by
  have hgkey : ∀ k ∈ keys, ∀ x ∈ g k, key x = k := fun k hk x hx =>
    hkey k hk x ((hg k hk).perm.mem_iff.mp hx)
  refine ⟨?_, fun k => ?_⟩
  · rw [List.map_flatMap]
    simp only [List.zipIdx_map_fst]
    exact (List.Perm.flatMap_left _ fun k hk => (hg k hk).perm).trans hrows.symm
  · have hrow : (group key k rows).Perm (if k ∈ keys then f k else []) := by
      rw [← group_flatMap hnodup hkey]
      exact group_perm hrows
    have hpositions : ∀ k ∈ keys, ∀ e ∈ (g k).zipIdx 1, key e.1 = k := fun k hk e he =>
      hgkey k hk e.1 (List.fst_mem_of_mem_zipIdx he)
    rw [group_flatMap hnodup hpositions]
    by_cases hk : k ∈ keys
    · rw [if_pos hk] at hrow ⊢
      exact ⟨g k, (hg k hk).of_perm hrow.symm, .refl _⟩
    · rw [if_neg hk] at hrow ⊢
      exact ⟨[], ⟨hrow.symm, .nil⟩, .refl _⟩

/-- **Lateral joins and row numbers.** The first rows of each group may be selected by a limited
query for each key, or by their positions among the rows of the group: up to the order in which
they are listed, the same selections are possible. -/
theorem lateral_iff_numbered (hnodup : keys.Nodup) (hrows : rows.Perm (keys.flatMap f))
    (hkey : ∀ k ∈ keys, ∀ x ∈ f k, key x = k) :
    (∃ mid, Lateral (fun k => Limited le n (f k)) keys mid ∧ out.Perm mid) ↔
      ∃ numbered, Numbered key le rows numbered ∧ out.Perm (withinPosition n numbered) := by
  constructor
  · rintro ⟨mid, hmid, hout⟩
    obtain ⟨g, hg, rfl⟩ := (lateral_iff hnodup).mp hmid
    choose! all hall htake using hg
    refine ⟨_, numbered_flatMap hnodup hrows hkey hall, ?_⟩
    rw [withinPosition_flatMap]
    simp only [withinPosition_zipIdx]
    rwa [List.flatMap_congr htake] at hout
  · rintro ⟨numbered, hnumbered, hout⟩
    choose part hpart hpositions using hnumbered.positions
    have hgroup : ∀ k ∈ keys, (group key k rows).Perm (f k) := by
      intro k hk
      have hperm : (group key k rows).Perm (group key k (keys.flatMap f)) := group_perm hrows
      rwa [group_flatMap hnodup hkey, if_pos hk] at hperm
    have hkeys : ∀ e ∈ numbered, key e.1 ∈ keys := by
      intro e he
      have hmem : e.1 ∈ rows := hnumbered.complete.mem_iff.mp (List.mem_map_of_mem he)
      obtain ⟨k, hk, hx⟩ := List.mem_flatMap.mp (hrows.mem_iff.mp hmem)
      rwa [hkey k hk e.1 hx]
    refine ⟨keys.flatMap fun k => (part k).take n, (lateral_iff hnodup).mpr ⟨_, ?_, rfl⟩, ?_⟩
    · intro k hk
      exact ⟨part k, (hpart k).of_perm (hgroup k hk), rfl⟩
    · have hsplit := withinPosition_perm (n := n) (flatMap_group_perm hnodup hkeys)
      rw [withinPosition_flatMap] at hsplit
      refine hout.trans (hsplit.symm.trans (List.Perm.flatMap_left _ fun k _ => ?_))
      rw [← withinPosition_zipIdx]
      exact withinPosition_perm (hpositions k)

end Groups

/-! ## Selections listed by key -/

section Keys

variable [LinearOrder κ] {key : α → κ} {le : α → α → Prop} {n : Nat} {keys : List κ}
  {f g : κ → List α} {mid out : List α}

/-- `ORDER BY key ASC, ...`. -/
def byKey (key : α → κ) (le : α → α → Prop) (a b : α) : Prop :=
  key a < key b ∨ key a = key b ∧ le a b

theorem Ordered.group (h : Ordered (byKey key le) mid out) (k : κ) :
    Ordered le (group key k mid) (group key k out) := by
  refine ⟨group_perm h.perm, ?_⟩
  refine (h.sorted.filter _).imp_of_mem fun {a b} ha hb hab => ?_
  have hkey : key a = key b := (mem_group.mp ha).2.trans (mem_group.mp hb).2.symm
  rcases hab with hlt | ⟨-, hle⟩
  · exact absurd hkey hlt.ne
  · exact hle

theorem pairwise_byKey (hsorted : keys.Pairwise (· < ·)) (hkey : ∀ k ∈ keys, ∀ x ∈ g k, key x = k)
    (hg : ∀ k ∈ keys, (g k).Pairwise le) : (keys.flatMap g).Pairwise (byKey key le) := by
  rw [List.pairwise_flatMap]
  refine ⟨fun k hk => ?_, hsorted.imp_of_mem fun {k k'} hk hk' hlt x hx y hy => ?_⟩
  · exact (hg k hk).imp_of_mem fun {x y} hx hy hle =>
      .inr ⟨(hkey k hk x hx).trans (hkey k hk y hy).symm, hle⟩
  · left
    rwa [hkey k hk x hx, hkey k' hk' y hy]

/-- In a lateral join of limited queries, listed by key, the rows of each key are what its query
may return: neither the other keys nor the last order have a say in it. -/
theorem limited_group (hnodup : keys.Nodup) (hkey : ∀ k ∈ keys, ∀ x ∈ f k, key x = k)
    (hmid : Lateral (fun k => Limited le n (f k)) keys mid) (hout : Ordered (byKey key le) mid out)
    (k : κ) :
    if k ∈ keys then Limited le n (f k) (group key k out) else group key k out = [] := by
  obtain ⟨g, hg, rfl⟩ := (lateral_iff hnodup).mp hmid
  have hgkey : ∀ k ∈ keys, ∀ x ∈ g k, key x = k := fun k hk x hx =>
    hkey k hk x ((hg k hk).subset hx)
  have hgroup := hout.group k
  rw [group_flatMap hnodup hgkey] at hgroup
  by_cases hk : k ∈ keys
  · rw [if_pos hk] at hgroup ⊢
    exact (hg k hk).rearrange hgroup
  · rw [if_neg hk] at hgroup ⊢
    exact List.perm_nil.mp hgroup.perm

/-- What the queries of the keys may return may all be listed by one lateral join. -/
theorem exists_lateral (hnodup : keys.Nodup) (hkey : ∀ k ∈ keys, ∀ x ∈ f k, key x = k)
    (hg : ∀ k ∈ keys, Limited le n (f k) (g k)) :
    ∃ mid out, Lateral (fun k => Limited le n (f k)) keys mid ∧ Ordered (byKey key le) mid out ∧
      ∀ k, group key k out = if k ∈ keys then g k else [] := by
  have hgkey : ∀ k ∈ keys, ∀ x ∈ g k, key x = k := fun k hk x hx =>
    hkey k hk x ((hg k hk).subset hx)
  have hperm : (keys.insertionSort (· ≤ ·)).Perm keys := List.perm_insertionSort _ _
  have hmem : ∀ k, k ∈ keys.insertionSort (· ≤ ·) ↔ k ∈ keys := fun k => hperm.mem_iff
  have hsorted : (keys.insertionSort (· ≤ ·)).Pairwise (· < ·) := by
    have hle : (keys.insertionSort (· ≤ ·)).Pairwise (· ≤ ·) := List.pairwise_insertionSort _ _
    have hne : (keys.insertionSort (· ≤ ·)).Pairwise (· ≠ ·) := hperm.nodup_iff.mpr hnodup
    exact (hle.and hne).imp fun h => lt_of_le_of_ne h.1 h.2
  have hpairwise : ((keys.insertionSort (· ≤ ·)).flatMap g).Pairwise (byKey key le) := by
    refine pairwise_byKey hsorted (fun k hk => hgkey k ((hmem k).mp hk)) fun k hk => ?_
    obtain ⟨all, hall, htake⟩ := hg k ((hmem k).mp hk)
    rw [htake]
    exact hall.sorted.take
  refine ⟨keys.flatMap g, (keys.insertionSort (· ≤ ·)).flatMap g, (lateral_iff hnodup).mpr ⟨g, hg, rfl⟩,
    ⟨hperm.flatMap_right g, hpairwise⟩, fun k => ?_⟩
  rw [group_flatMap (hperm.nodup_iff.mpr hnodup) fun k hk => hgkey k ((hmem k).mp hk)]
  exact if_congr (hmem k) rfl rfl

end Keys

end Yorishiro.Lib.Ranking
