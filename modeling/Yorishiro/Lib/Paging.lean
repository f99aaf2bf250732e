import Mathlib.Data.List.Forall2
import Mathlib.Data.List.Nodup
import Mathlib.Order.Basic
import Yorishiro.Lib.Ranking

/-!
# Pages of an ordered selection

`ORDER BY ... LIMIT size OFFSET skip` orders the rows anew for every page, and rows of one rank may
come in another order each time. So a walk over the pages may show a row twice and another one
never. `walk_ordered_iff` says when this cannot happen: exactly when no page boundary separates two
rows of one rank.
-/

set_option autoImplicit false

namespace Yorishiro.Lib.Paging

open Yorishiro.Lib.Ranking

universe u

variable {α : Type u}

/-- `ORDER BY ... LIMIT size OFFSET skip`. -/
def Page (le : α → α → Prop) (skip size : Nat) (rows out : List α) : Prop :=
  ∃ all, Ordered le rows all ∧ out = (all.drop skip).take size

/-- A walk over the first pages, each one a query of its own. -/
def Walk (le : α → α → Prop) (size : Nat) (rows : List α) (outs : List (List α)) : Prop :=
  ∀ i out, outs[i]? = some out → Page le (i * size) size rows out

/-- No page boundary of the ordered rows separates two rows of one rank. -/
def Firm (le : α → α → Prop) (size : Nat) (all : List α) : Prop :=
  ∀ k, 0 < k → ∀ h : k * size < all.length, ¬ le all[k * size] all[k * size - 1]

/-- The pages of the ordered rows. -/
def chunks (size n : Nat) (all : List α) : List (List α) :=
  (List.range n).map fun i => (all.drop (i * size)).take size

section Chunks

variable {size n : Nat} {all : List α}

theorem getElem?_chunks {i : Nat} {out : List α} (h : (chunks size n all)[i]? = some out) :
    out = (all.drop (i * size)).take size := by
  unfold chunks at h
  rw [List.getElem?_map] at h
  obtain ⟨j, hj, rfl⟩ := Option.map_eq_some_iff.mp h
  obtain ⟨hi, rfl⟩ := List.getElem?_eq_some_iff.mp hj
  rw [List.getElem_range]

theorem flatten_chunks : (chunks size n all).flatten = all.take (n * size) := by
  induction n with
  | zero => simp [chunks]
  | succ n ih =>
      unfold chunks at ih ⊢
      rw [List.range_succ, List.map_append, List.flatten_append, ih, Nat.succ_mul, List.take_add]
      simp

end Chunks

/-! ## Firm boundaries -/

section Cuts

variable {le : α → α → Prop} {rows all all' : List α}

/-- A list in which the rows that have a property come first. -/
theorem filter_append_filter {p : α → Bool} {l : List α}
    (h : l.Pairwise fun x y => p y = true → p x = true) :
    l.filter p ++ l.filter (fun x => !p x) = l := by
  induction l with
  | nil => rfl
  | cons x l ih =>
      obtain ⟨hx, hl⟩ := List.pairwise_cons.mp h
      by_cases hp : p x = true
      · rw [List.filter_cons_of_pos hp, List.filter_cons_of_neg (by simp [hp]), List.cons_append,
          ih hl]
      · have hnone : l.filter p = [] := List.filter_eq_nil_iff.mpr fun y hy hpy => hp (hx y hy hpy)
        have hall : l.filter (fun x => !p x) = l :=
          List.filter_eq_self.mpr fun y hy => by simpa using fun hpy => hp (hx y hy hpy)
        rw [List.filter_cons_of_neg hp, hnone, List.filter_cons_of_pos (by simpa using hp), hall]
        rfl

/-- Where two rows of different rank meet, every order cuts the rows alike. -/
theorem take_perm_of_gap [Std.Refl le] [IsTrans α le] (h : Ordered le rows all)
    (h' : Ordered le rows all') {b : Nat} (hb : b < all.length)
    (hgap : ¬ le all[b] all[b - 1]) : (all'.take b).Perm (all.take b) := by
  classical
  let p : α → Bool := fun x => !decide (le all[b] x)
  have hp : ∀ x, p x = true ↔ ¬ le all[b] x := fun x => by simp [p]
  have hsorted := List.pairwise_iff_getElem.mp h.sorted
  have hfirst : ∀ x ∈ all.take b, p x = true := by
    intro x hx
    obtain ⟨i, hi, rfl⟩ := List.mem_take_iff_getElem.mp hx
    refine (hp _).mpr fun hle => hgap ?_
    have hib : i ≤ b - 1 := by omega
    rcases Nat.lt_or_eq_of_le hib with hlt | rfl
    · exact IsTrans.trans _ _ _ hle (hsorted i (b - 1) (by omega) (by omega) hlt)
    · exact hle
  have hlast : ∀ x ∈ all.drop b, ¬ p x = true := by
    intro x hx
    obtain ⟨j, hj, rfl⟩ := List.mem_drop_iff_getElem.mp hx
    rw [hp, not_not]
    rcases Nat.eq_zero_or_pos j with rfl | hpos
    · exact Std.Refl.refl _
    · exact hsorted b (b + j) hb (by omega) (by omega)
  have htake : all.filter p = all.take b := by
    conv_lhs => rw [← List.take_append_drop b all]
    rw [List.filter_append, List.filter_eq_self.mpr hfirst, List.filter_eq_nil_iff.mpr hlast,
      List.append_nil]
  have hprefix : all'.filter p ++ all'.filter (fun x => !p x) = all' := by
    refine filter_append_filter (h'.sorted.imp fun {x y} hxy => ?_)
    rw [hp, hp]
    exact fun hy hx => hy (IsTrans.trans _ _ _ hx hxy)
  have hfilter : (all'.filter p).Perm (all.take b) := by
    rw [← htake]
    exact (h'.perm.trans h.perm.symm).filter p
  have hlength : (all'.filter p).length = b := by
    rw [hfilter.length_eq, List.length_take]
    omega
  rw [← hprefix, List.take_left' hlength]
  exact hfilter

end Cuts

/-! ## Walks -/

section Walks

variable {le : α → α → Prop} {size n : Nat} {rows all : List α} {outs : List (List α)}

/-- At a firm boundary, and beyond the last row, every order cuts the rows alike. -/
theorem take_perm_of_firm [Std.Refl le] [IsTrans α le] {all' : List α} (h : Ordered le rows all)
    (h' : Ordered le rows all') (hfirm : Firm le size all) (k : Nat) :
    (all'.take (k * size)).Perm (all.take (k * size)) := by
  rcases Nat.eq_zero_or_pos k with rfl | hk
  · rw [Nat.zero_mul]
    exact List.Perm.refl _
  · by_cases hin : k * size < all.length
    · exact take_perm_of_gap h h' hin (hfirm k hk hin)
    · have hlength : all'.length = all.length := by rw [h'.perm.length_eq, h.perm.length_eq]
      rw [List.take_of_length_le (by omega), List.take_of_length_le (by omega)]
      exact h'.perm.trans h.perm.symm

/-- With firm boundaries, a page has the rows that it has in any order of the rows. -/
theorem page_perm [Std.Refl le] [IsTrans α le] (h : Ordered le rows all) (hfirm : Firm le size all)
    {k : Nat} {out : List α} (hpage : Page le (k * size) size rows out) :
    out.Perm ((all.drop (k * size)).take size) := by
  obtain ⟨all', h', rfl⟩ := hpage
  have hbefore := take_perm_of_firm h h' hfirm k
  have hafter := take_perm_of_firm h h' hfirm (k + 1)
  rw [Nat.succ_mul, List.take_add, List.take_add] at hafter
  exact (List.perm_append_left_iff _).mp ((hbefore.symm.append_right _).trans hafter)

theorem Page.sorted {k : Nat} {out : List α} (h : Page le k size rows out) : out.Pairwise le := by
  obtain ⟨all, hall, rfl⟩ := h
  exact hall.sorted.sublist ((List.take_sublist _ _).trans (List.drop_sublist _ _))

/-- With firm boundaries, the pages put together are the rows in their order. -/
theorem ordered_of_firm [Std.Refl le] [IsTrans α le] (h : Ordered le rows all)
    (hfirm : Firm le size all) (hwalk : Walk le size rows outs)
    (hcover : rows.length ≤ outs.length * size) : Ordered le rows outs.flatten := by
  have hpages : List.Forall₂ List.Perm outs (chunks size outs.length all) := by
    refine List.forall₂_iff_get.mpr ⟨by simp [chunks], fun i hi hi' => ?_⟩
    have hout := page_perm h hfirm (hwalk i _ (List.getElem?_eq_getElem hi))
    simpa [chunks] using hout
  have hall : (chunks size outs.length all).flatten = all := by
    rw [flatten_chunks, List.take_of_length_le (by rw [h.perm.length_eq]; exact hcover)]
  refine ⟨(List.Perm.flatten_congr hpages).trans (by rw [hall]; exact h.perm), ?_⟩
  have hbetween := (List.pairwise_flatten.mp (hall ▸ h.sorted)).2
  refine List.pairwise_flatten.mpr ⟨fun out hout => ?_, List.pairwise_iff_getElem.mpr ?_⟩
  · obtain ⟨i, hi, rfl⟩ := List.mem_iff_getElem.mp hout
    exact (hwalk i _ (List.getElem?_eq_getElem hi)).sorted
  · intro i j hi hj hij x hx y hy
    have hget := (List.forall₂_iff_get.mp hpages).2
    have hi' : i < (chunks size outs.length all).length := by simpa [chunks] using hi
    have hj' : j < (chunks size outs.length all).length := by simpa [chunks] using hj
    exact List.pairwise_iff_getElem.mp hbetween i j hi' hj' hij
      x ((hget i hi hi').mem_iff.mp hx) y ((hget j hj hj').mem_iff.mp hy)

/-- Two neighbours of one rank may change places. -/
theorem ordered_swap {before after : List α} {x y : α} (h : Ordered le rows (before ++ x :: y :: after))
    (hyx : le y x) : Ordered le rows (before ++ y :: x :: after) := by
  refine ⟨((List.Perm.swap x y after).append_left before).trans h.perm, ?_⟩
  obtain ⟨hbefore, hrest, hcross⟩ := List.pairwise_append.mp h.sorted
  obtain ⟨hx, hrest⟩ := List.pairwise_cons.mp hrest
  obtain ⟨hy, hafter⟩ := List.pairwise_cons.mp hrest
  refine List.pairwise_append.mpr ⟨hbefore, ?_, fun a ha b hb => hcross a ha b ?_⟩
  · refine List.pairwise_cons.mpr ⟨fun b hb => ?_, List.pairwise_cons.mpr ⟨fun b hb => ?_, hafter⟩⟩
    · rcases List.mem_cons.mp hb with rfl | hb
      · exact hyx
      · exact hy b hb
    · exact hx b (List.mem_cons_of_mem _ hb)
  · exact (List.Perm.swap x y after).mem_iff.mp hb

theorem mem_page {skip i : Nat} {x : α} (hget : all[skip + i]? = some x) (hi : i < size) :
    x ∈ (all.drop skip).take size := by
  refine List.mem_of_getElem? (i := i) ?_
  rw [List.getElem?_take_of_lt hi, List.getElem?_drop]
  exact hget

/-- When a boundary is not firm, a walk may show a row twice. -/
theorem firm_of_ordered (hsize : 0 < size) (hnodup : rows.Nodup) (hcover : rows.length ≤ n * size)
    (h : Ordered le rows all)
    (hwalks : ∀ outs, outs.length = n → Walk le size rows outs → Ordered le rows outs.flatten) :
    Firm le size all := by
  intro k hk hin htied
  have hlength : all.length = rows.length := h.perm.length_eq
  have hkn : k < n := by
    by_contra hle
    have := Nat.mul_le_mul_right size (Nat.le_of_not_lt hle)
    omega
  have hpos : 0 < k * size := Nat.mul_pos hk hsize
  -- the rows beside the boundary change places in the query of the page after it
  have hsplit : all = all.take (k * size - 1) ++
      all[k * size - 1] :: all[k * size] :: all.drop (k * size + 1) := by
    conv_lhs => rw [← List.take_append_drop (k * size - 1) all,
      List.drop_eq_getElem_cons (show k * size - 1 < all.length by omega)]
    have hnext : k * size - 1 + 1 = k * size := by omega
    rw [hnext, List.drop_eq_getElem_cons hin]
  have hswapped : Ordered le rows (all.take (k * size - 1) ++
      all[k * size] :: all[k * size - 1] :: all.drop (k * size + 1)) :=
    ordered_swap (hsplit ▸ h) htied
  generalize hall' : all.take (k * size - 1) ++
    all[k * size] :: all[k * size - 1] :: all.drop (k * size + 1) = all' at hswapped
  have htwice : all'[k * size]? = some all[k * size - 1] := by
    rw [← hall', List.getElem?_append_right (by simp)]
    have hone : k * size - min (k * size - 1) all.length = 1 := by omega
    simp [hone]
  let outs := (chunks size n all).set k ((all'.drop (k * size)).take size)
  have hlen : outs.length = n := by simp [outs, chunks]
  have hwalk : Walk le size rows outs := by
    intro i out hout
    by_cases hik : i = k
    · subst hik
      rw [List.getElem?_set_self (by simpa [chunks] using hkn)] at hout
      cases hout
      exact ⟨all', hswapped, rfl⟩
    · rw [List.getElem?_set_ne (Ne.symm hik)] at hout
      exact ⟨all, h, getElem?_chunks hout⟩
  have hdisjoint := (List.nodup_flatten.mp ((hwalks outs hlen hwalk).perm.nodup_iff.mpr hnodup)).2
  have hpages := List.pairwise_iff_getElem.mp hdisjoint (k - 1) k (by omega) (by omega) (by omega)
  refine hpages (a := all[k * size - 1]) ?_ ?_
  · have hbefore : outs[k - 1] = (all.drop ((k - 1) * size)).take size := by
      simp [outs, chunks, List.getElem_set_ne (show k ≠ k - 1 by omega)]
    have hlast : (k - 1) * size + (size - 1) = k * size - 1 := by
      rw [Nat.sub_mul, Nat.one_mul]
      have := Nat.le_mul_of_pos_left size hk
      omega
    rw [hbefore]
    refine mem_page (i := size - 1) ?_ (by omega)
    rw [hlast]
    exact List.getElem?_eq_getElem _
  · have hafter : outs[k] = (all'.drop (k * size)).take size := by simp [outs]
    rw [hafter]
    exact mem_page (i := 0) htwice hsize

/-- **Pages.** Walks over pages that cover the rows are sure to show every row once, in order, if
and only if no page boundary separates two rows of one rank. -/
theorem walk_ordered_iff [Std.Refl le] [IsTrans α le] (hsize : 0 < size) (hnodup : rows.Nodup)
    (hcover : rows.length ≤ n * size) (h : Ordered le rows all) :
    (∀ outs, outs.length = n → Walk le size rows outs → Ordered le rows outs.flatten) ↔
      Firm le size all := by
  refine ⟨firm_of_ordered hsize hnodup hcover h, fun hfirm outs hlength hwalk => ?_⟩
  exact ordered_of_firm h hfirm hwalk (hlength ▸ hcover)

end Walks

/-! ## Keys -/

section Keys

variable {κ : Type u} [LinearOrder κ] {size : Nat}

/-- Two equal keys stand on the two sides of a page boundary. -/
def tied (size : Nat) (keys : List κ) : Bool :=
  (List.range keys.length).any fun b =>
    decide (0 < b) && decide (size ∣ b) && decide (keys[b - 1]? = keys[b]?)

/-- The order by a key. -/
def byKey (key : α → κ) (x y : α) : Prop := key x ≤ key y

instance (key : α → κ) : Std.Refl (byKey key) := ⟨fun _ => le_refl _⟩

instance (key : α → κ) : IsTrans α (byKey key) := ⟨fun _ _ _ => le_trans⟩

instance (key : α → κ) : Std.Total (byKey key) := ⟨fun x y => le_total (key x) (key y)⟩

instance (key : α → κ) : DecidableRel (byKey key) := fun x y =>
  inferInstanceAs (Decidable (key x ≤ key y))

variable {key : α → κ} {rows all : List α}

/-- Keys of ordered rows are in their order. -/
theorem map_key_eq (h : Ordered (byKey key) rows all) :
    all.map key = (rows.map key).insertionSort (· ≤ ·) :=
  List.Perm.eq_of_pairwise' (List.pairwise_map.mpr h.sorted) (List.pairwise_insertionSort _ _)
    ((h.perm.map key).trans (List.perm_insertionSort _ _).symm)

/-- Some order of the rows. -/
theorem exists_ordered (key : α → κ) (rows : List α) : ∃ all, Ordered (byKey key) rows all :=
  ⟨rows.insertionSort (byKey key), List.perm_insertionSort _ _,
    List.pairwise_insertionSort _ _⟩

theorem firm_iff (hsize : 0 < size) (h : Ordered (byKey key) rows all) :
    Firm (byKey key) size all ↔ tied size (all.map key) = false := by
  have hsorted := List.pairwise_iff_getElem.mp h.sorted
  constructor
  · intro hfirm
    refine List.any_eq_false.mpr fun b hb htied => ?_
    simp only [Bool.and_eq_true, decide_eq_true_eq] at htied
    obtain ⟨⟨hpos, k, rfl⟩, heq⟩ := htied
    rw [List.mem_range, List.length_map] at hb
    rw [List.getElem?_map, List.getElem?_map, List.getElem?_eq_getElem (by omega),
      List.getElem?_eq_getElem hb] at heq
    have hk : 0 < k := Nat.pos_of_mul_pos_left hpos
    simp only [Nat.mul_comm size k] at hb heq
    refine hfirm k hk hb ?_
    exact le_of_eq (Option.some.inj heq).symm
  · intro htied k hk hin hle
    have hb := List.any_eq_false.mp htied (k * size) (by simpa using hin)
    simp only [Bool.and_eq_true, decide_eq_true_eq] at hb
    have hpos : 0 < k * size := Nat.mul_pos hk hsize
    refine hb ⟨⟨hpos, Nat.dvd_mul_left size k⟩, ?_⟩
    rw [List.getElem?_map, List.getElem?_map, List.getElem?_eq_getElem (by omega),
      List.getElem?_eq_getElem hin]
    have hle' := hsorted (k * size - 1) (k * size) (by omega) hin (by omega)
    exact congrArg some (le_antisymm hle' hle)

end Keys

end Yorishiro.Lib.Paging
