import Mathlib.Data.List.Sort
import Mathlib.Order.Lattice

/-!
# Reading a table page by page

A loop reads the rows above a cursor in the order of a key, `size` of them at a time, handles
them, and goes on above the last of them until a page is empty (`drain`). `drain_eq` is the result:
with a fuel of more than the number of rows, and keys that tell the rows apart, the loop handles
every row once, in order.

The table may also change between two pages. A `Loop` is such a reader between two of its pages:
its rows are in order (`Loop.ascending_read`), and it passes over nothing that was there all the
time (`Loop.complete_read`). On a table at rest it does what `drain` does (`exists_read_drain`).
-/

set_option autoImplicit false

namespace Yorishiro.Lib.Keyset

variable {α β ε κ : Type} [LinearOrder κ]

/-- The rows of a table in the order of a key. -/
def ordered (key : α → κ) (table : List α) : List α :=
  table.insertionSort fun a b => key a ≤ key b

/-- The first rows above the cursor. -/
def page (key : α → κ) (size : Nat) (table : List α) (cursor : Option κ) : List α :=
  ((ordered key table).filter fun x => cursor.all fun c => decide (c < key x)).take size

/-- Handles the rows above the cursor page by page. -/
def drain (key : α → κ) (size : Nat) (table : List α) (handle : β → α → Except ε β) :
    Nat → Option κ → β → Except ε β
  | 0, _, b => .ok b
  | fuel + 1, cursor, b =>
      match page key size table cursor with
      | [] => .ok b
      | x :: xs => do
          let b ← (x :: xs).foldlM handle b
          drain key size table handle fuel (some (key ((x :: xs).getLast (List.cons_ne_nil x xs)))) b

/-! ## Every row once -/

section Drain

variable {key : α → κ} {size : Nat} {table : List α}

@[simp] theorem mem_ordered {x : α} : x ∈ ordered key table ↔ x ∈ table :=
  List.mem_insertionSort _

theorem length_ordered : (ordered key table).length = table.length :=
  List.length_insertionSort _ _

/-- Keys that tell the rows apart order them strictly. -/
theorem ordered_strict (hkeys : (table.map key).Nodup) :
    (ordered key table).Pairwise fun a b => key a < key b := by
  have hle : (ordered key table).Pairwise fun a b => key a ≤ key b :=
    List.pairwise_insertionSort _ _
  have hne : ((ordered key table).map key).Nodup :=
    ((List.perm_insertionSort _ table).map key).nodup_iff.mpr hkeys
  rw [List.Nodup, List.pairwise_map] at hne
  exact (hle.and hne).imp fun h => lt_of_le_of_ne h.1 h.2

/-- Above the last of the rows handled are those not handled yet. -/
theorem filter_above {done rest : List α} {x : α}
    (hstrict : (done ++ x :: rest).Pairwise fun a b => key a < key b) :
    (done ++ x :: rest).filter (fun y => decide (key x < key y)) = rest := by
  obtain ⟨-, htail, hbelow⟩ := List.pairwise_append.mp hstrict
  have hdone : done.filter (fun y => decide (key x < key y)) = [] := by
    refine List.filter_eq_nil_iff.mpr fun y hy => ?_
    simpa using (hbelow y hy x List.mem_cons_self).le
  have hrest : rest.filter (fun y => decide (key x < key y)) = rest :=
    List.filter_eq_self.mpr fun y hy => by simpa using (List.pairwise_cons.mp htail).1 y hy
  rw [List.filter_append, hdone, List.nil_append, List.filter_cons_of_neg (by simp), hrest]

variable (handle : β → α → Except ε β)

/-- The loop from a point on: what is left is handled, in order. -/
theorem drain_rest (hsize : 0 < size) (hkeys : (table.map key).Nodup) (fuel : Nat)
    (rest : List α) (cursor : Option κ) (b : β)
    (hrest : (ordered key table).filter (fun x => cursor.all fun c => decide (c < key x)) = rest)
    (hsuffix : ∃ done, ordered key table = done ++ rest) (hfuel : rest.length < fuel) :
    drain key size table handle fuel cursor b = rest.foldlM handle b := by
  -- the rest gets shorter with each page that is not empty
  induction fuel generalizing rest cursor b with
  | zero => exact absurd hfuel (Nat.not_lt_zero _)
  | succ fuel ih =>
      have hpage : page key size table cursor = rest.take size := by
        unfold page
        rw [hrest]
      unfold drain
      rw [hpage]
      cases rest with
      | nil =>
          rw [List.take_nil]
          rfl
      | cons x xs =>
          obtain ⟨n, rfl⟩ := Nat.exists_eq_add_one_of_ne_zero hsize.ne'
          rw [List.take_succ_cons]
          obtain ⟨done, hdone⟩ := hsuffix
          -- the page ends with a row, and the rows after it are left
          obtain ⟨front, last, hlast⟩ : ∃ front last, x :: xs.take n = front ++ [last] :=
            ⟨_, _, (List.dropLast_append_getLast (List.cons_ne_nil x (xs.take n))).symm⟩
          have hcursor : (x :: xs.take n).getLast (List.cons_ne_nil x _) = last := by
            rw [List.getLast_congr _ (by simp) hlast, List.getLast_append_singleton]
          have hsplit : ordered key table = (done ++ front) ++ last :: xs.drop n := by
            rw [hdone, ← List.take_append_drop n xs, ← List.cons_append, hlast]
            simp
          have hstrict := ordered_strict hkeys
          rw [hsplit] at hstrict
          have habove : (ordered key table).filter
              (fun y => (some last).all fun c => decide (key c < key y)) = xs.drop n := by
            rw [hsplit]
            exact filter_above hstrict
          conv_rhs => rw [← List.take_append_drop n xs, ← List.cons_append, List.foldlM_append]
          refine bind_congr fun b' => ?_
          rw [hcursor]
          refine ih (xs.drop n) (some (key last)) b' habove ⟨(done ++ front) ++ [last], ?_⟩ ?_
          · rw [hsplit]
            simp
          · rw [List.length_cons] at hfuel
            rw [List.length_drop]
            omega

/-- **Every row once, in order.** -/
theorem drain_eq (hsize : 0 < size) (hkeys : (table.map key).Nodup) {fuel : Nat}
    (hfuel : table.length < fuel) (b : β) :
    drain key size table handle fuel none b = (ordered key table).foldlM handle b :=
  drain_rest handle hsize hkeys fuel _ none b (by simp) ⟨[], rfl⟩ (by rwa [length_ordered])

end Drain

/-! ## A table that changes between pages -/

section Changes

variable {ι : Type} {key : α → κ} {ident : α → ι} {size : Nat} {table rows : List α}
  {cursor : Option κ} {x y : α} {xs : List α} {old : ι → κ → Prop}

/-- The rows read so far are in strict order, up to the cursor. -/
structure Ascending (key : α → κ) (cursor : Option κ) (rows : List α) : Prop where
  strict : rows.Pairwise fun a b => key a < key b
  upTo : ∀ x ∈ rows, ∃ c, cursor = some c ∧ key x ≤ c

/-- All that is old, up to the cursor, is among the rows read. -/
def Covered (ident : α → ι) (old : ι → κ → Prop) (cursor : Option κ) (rows : List α) : Prop :=
  ∀ i k, old i k → (∃ c, cursor = some c ∧ k ≤ c) → ∃ x ∈ rows, ident x = i

theorem Ascending.start : Ascending key none [] := ⟨.nil, fun _ hx => nomatch hx⟩

theorem Covered.start : Covered ident old none rows := by
  rintro i k - ⟨c, hc, -⟩
  cases hc

theorem mem_page (h : x ∈ page key size table cursor) :
    x ∈ table ∧ ∀ c, cursor = some c → c < key x := by
  obtain ⟨hmem, habove⟩ := List.mem_filter.mp (List.mem_of_mem_take h)
  refine ⟨mem_ordered.mp hmem, ?_⟩
  rintro c rfl
  exact of_decide_eq_true habove

theorem page_strict (hkeys : (table.map key).Nodup) :
    (page key size table cursor).Pairwise fun a b => key a < key b :=
  ((ordered_strict hkeys).filter _).take

theorem le_getLast {page : List α} (hstrict : page.Pairwise fun a b => key a < key b)
    (hne : page ≠ []) (hx : x ∈ page) : key x ≤ key (page.getLast hne) := by
  induction page with
  | nil => exact absurd rfl hne
  | cons y ys ih =>
      obtain ⟨hhead, htail⟩ := List.pairwise_cons.mp hstrict
      cases ys with
      | nil => rw [List.mem_singleton.mp hx, List.getLast_singleton]
      | cons z zs =>
          rw [List.getLast_cons (List.cons_ne_nil z zs)]
          rcases List.mem_cons.mp hx with rfl | hx
          · exact (hhead _ (List.getLast_mem _)).le
          · exact ih htail (List.cons_ne_nil z zs) hx

/-- A page has all rows above the cursor, up to its last. -/
theorem mem_page_of_le (hkeys : (table.map key).Nodup) (hx : x ∈ table)
    (habove : ∀ c, cursor = some c → c < key x) (hne : page key size table cursor ≠ [])
    (hle : key x ≤ key ((page key size table cursor).getLast hne)) :
    x ∈ page key size table cursor := by
  have hrest : x ∈ (ordered key table).filter fun y => cursor.all fun c => decide (c < key y) := by
    refine List.mem_filter.mpr ⟨mem_ordered.mpr hx, ?_⟩
    cases cursor with
    | none => rfl
    | some c => exact decide_eq_true (habove c rfl)
  have hstrict := (ordered_strict hkeys).filter fun y => cursor.all fun c => decide (c < key y)
  rw [← List.take_append_drop size (List.filter _ _)] at hrest hstrict
  rcases List.mem_append.mp hrest with hpage | hafter
  · exact hpage
  · -- a row after the page would be above its last
    have hlast := List.getLast_mem hne
    exact absurd ((List.pairwise_append.mp hstrict).2.2 _ hlast x hafter) hle.not_gt

/-- Above the cursor there is nothing left when a page is empty. -/
theorem le_cursor_of_page_eq_nil (hsize : 0 < size) (hpage : page key size table cursor = [])
    (hx : x ∈ table) : ∃ c, cursor = some c ∧ key x ≤ c := by
  rw [page, List.take_eq_nil_iff] at hpage
  have hnone := hpage.resolve_left hsize.ne'
  have hx' := List.filter_eq_nil_iff.mp hnone x (mem_ordered.mpr hx)
  cases cursor with
  | none => exact absurd rfl hx'
  | some c => exact ⟨c, rfl, not_lt.mp fun hlt => hx' (decide_eq_true hlt)⟩

/-! ### Loops -/

/-- A reader between two pages: its cursor, the rows it has read, and whether a page was empty. -/
structure Loop (κ α : Type) where
  cursor : Option κ
  rows : List α
  finished : Bool

/-- A reader before its first page. -/
def Loop.start : Loop κ α := ⟨none, [], false⟩

/-- Reads the next page. -/
def Loop.read (key : α → κ) (size : Nat) (table : List α) (l : Loop κ α) : Loop κ α :=
  match (page key size table l.cursor).getLast? with
  | none => { l with finished := true }
  | some last =>
      { l with
        cursor := some (key last)
        rows := l.rows ++ page key size table l.cursor }

/-- A reader that has passed over nothing that is old. -/
structure Loop.Complete (ident : α → ι) (old : ι → κ → Prop) (l : Loop κ α) : Prop where
  covered : Covered ident old l.cursor l.rows
  finished : l.finished = true → ∀ i k, old i k → ∃ x ∈ l.rows, ident x = i

variable {l : Loop κ α}

theorem Loop.read_cases (key : α → κ) (size : Nat) (table : List α) (l : Loop κ α) :
    (page key size table l.cursor = [] ∧ l.read key size table = { l with finished := true }) ∨
      ∃ hne : page key size table l.cursor ≠ [],
        l.read key size table =
          ⟨some (key ((page key size table l.cursor).getLast hne)),
            l.rows ++ page key size table l.cursor, l.finished⟩ := by
  unfold Loop.read
  cases hlast : (page key size table l.cursor).getLast? with
  | none => exact .inl ⟨List.getLast?_eq_none_iff.mp hlast, rfl⟩
  | some last =>
      have hne : page key size table l.cursor ≠ [] := by
        rintro hnil
        rw [hnil] at hlast
        cases hlast
      rw [List.getLast?_eq_some_getLast hne] at hlast
      refine .inr ⟨hne, ?_⟩
      rw [Option.some.inj hlast]

theorem Loop.read_rows : (l.read key size table).rows = l.rows ++ page key size table l.cursor := by
  rcases Loop.read_cases key size table l with ⟨hnil, hread⟩ | ⟨hne, hread⟩
  · rw [hread, hnil, List.append_nil]
  · rw [hread]

theorem Loop.ascending_read (h : Ascending key l.cursor l.rows) (hkeys : (table.map key).Nodup) :
    Ascending key (l.read key size table).cursor (l.read key size table).rows := by
  rcases Loop.read_cases key size table l with ⟨hnil, hread⟩ | ⟨hne, hread⟩
  · rw [hread]
    exact h
  · rw [hread]
    have hstrict : (page key size table l.cursor).Pairwise fun a b => key a < key b :=
      page_strict hkeys
    have habove : ∀ x ∈ l.rows, ∀ y ∈ page key size table l.cursor, key x < key y := by
      intro x hx y hy
      obtain ⟨c, hc, hle⟩ := h.upTo x hx
      exact hle.trans_lt ((mem_page hy).2 c hc)
    refine ⟨List.pairwise_append.mpr ⟨h.strict, hstrict, habove⟩, fun x hx => ⟨_, rfl, ?_⟩⟩
    rcases List.mem_append.mp hx with hx | hx
    · exact (habove x hx _ (List.getLast_mem hne)).le
    · exact le_getLast hstrict hne hx

theorem Loop.complete_start : (Loop.start : Loop κ α).Complete ident old :=
  ⟨.start, fun h => nomatch h⟩

/-- What is old may become less. -/
theorem Loop.Complete.mono {old' : ι → κ → Prop} (h : l.Complete ident old)
    (hold : ∀ i k, old' i k → old i k) : l.Complete ident old' :=
  ⟨fun i k hik => h.covered i k (hold i k hik), fun hfin i k hik => h.finished hfin i k (hold i k hik)⟩

/-- **Nothing is passed over.** One more page, of a table that has all that is old. -/
theorem Loop.complete_read (h : l.Complete ident old) (hopen : l.finished = false)
    (hsize : 0 < size) (hkeys : (table.map key).Nodup)
    (hold : ∀ i k, old i k → ∃ x ∈ table, ident x = i ∧ key x = k) :
    (l.read key size table).Complete ident old := by
  rcases Loop.read_cases key size table l with ⟨hnil, hread⟩ | ⟨hne, hread⟩
  · rw [hread]
    refine ⟨h.covered, fun _ i k hik => ?_⟩
    obtain ⟨x, hx, -, rfl⟩ := hold i k hik
    exact h.covered i (key x) hik (le_cursor_of_page_eq_nil hsize hnil hx)
  · rw [hread]
    refine ⟨?_, fun hfin => ?_⟩
    · rintro i k hik ⟨c, hc, hle⟩
      obtain rfl := Option.some.inj hc
      by_cases hbelow : ∃ c, l.cursor = some c ∧ k ≤ c
      · obtain ⟨x, hx, hident⟩ := h.covered i k hik hbelow
        exact ⟨x, List.mem_append_left _ hx, hident⟩
      · obtain ⟨x, hx, hident, rfl⟩ := hold i k hik
        have habove : ∀ c, l.cursor = some c → c < key x := fun c hc =>
          not_le.mp fun hle => hbelow ⟨c, hc, hle⟩
        exact ⟨x, List.mem_append_right _ (mem_page_of_le hkeys hx habove hne hle), hident⟩
    · rw [hopen] at hfin
      cases hfin

end Changes

/-! ### Tables at rest -/

section Rest

variable {key : α → κ} {size : Nat} {table : List α}

/-- The rows above a cursor. -/
def above (key : α → κ) (table : List α) (cursor : Option κ) : List α :=
  (ordered key table).filter fun x => cursor.all fun c => decide (c < key x)

/-- A page that is not empty leaves less above it. -/
theorem length_above_lt {l : Loop κ α} (hne : page key size table l.cursor ≠ []) :
    (above key table (l.read key size table).cursor).length <
      (above key table l.cursor).length := by
  obtain ⟨hnil, -⟩ | ⟨_, hread⟩ := Loop.read_cases key size table l
  · exact absurd hnil hne
  · rw [hread]
    have hlast := List.getLast_mem hne
    have hfewer : above key table (some (key ((page key size table l.cursor).getLast hne))) =
        (above key table l.cursor).filter fun x =>
          decide (key ((page key size table l.cursor).getLast hne) < key x) := by
      rw [above, above, List.filter_filter]
      refine List.filter_congr fun x _ => ?_
      by_cases hx : key ((page key size table l.cursor).getLast hne) < key x
      · have hx' : (l.cursor.all fun c => decide (c < key x)) = true := by
          cases hc : l.cursor with
          | none => rfl
          | some c => exact decide_eq_true (((mem_page hlast).2 c hc).trans hx)
        simp [hx, hx']
      · simp [hx]
    rw [hfewer, List.length_filter_lt_length_iff_exists]
    exact ⟨_, List.mem_of_mem_take hlast, by simp⟩

/-- A machine that reads a page at a time comes to what `drain` comes to. -/
theorem exists_read_drain {σ : Type} (handle : β → α → Except ε β) (reaches : σ → σ → Prop)
    (place : Loop κ α → β → σ) (failed : ε → σ → Prop)
    (htrans : ∀ a b c, reaches a b → reaches b c → reaches a c)
    (hread : ∀ l b b', l.finished = false →
      (page key size table l.cursor).foldlM handle b = .ok b' →
      reaches (place l b) (place (l.read key size table) b'))
    (hfail : ∀ l b e, l.finished = false →
      (page key size table l.cursor).foldlM handle b = .error e →
      ∃ t, reaches (place l b) t ∧ failed e t)
    (fuel : Nat) (l : Loop κ α) (b : β) (hopen : l.finished = false)
    (hfuel : (above key table l.cursor).length < fuel) :
    (∀ b', drain key size table handle fuel l.cursor b = .ok b' →
        ∃ l', l'.finished = true ∧ reaches (place l b) (place l' b')) ∧
      ∀ e, drain key size table handle fuel l.cursor b = .error e →
        ∃ t, reaches (place l b) t ∧ failed e t := by
  induction fuel generalizing l b with
  | zero => exact absurd hfuel (Nat.not_lt_zero _)
  | succ fuel ih =>
      rcases hpage : page key size table l.cursor with _ | ⟨x, xs⟩
      · have hdrain : drain key size table handle (fuel + 1) l.cursor b = .ok b := by
          rw [drain, hpage]
        rw [hdrain]
        refine ⟨fun b' hb' => ⟨l.read key size table, ?_, hread l b b' hopen ?_⟩, nofun⟩
        · rw [Loop.read, hpage]
          rfl
        · rw [hpage]
          exact hb'
      · have hne : page key size table l.cursor ≠ [] := by
          rw [hpage]
          exact List.cons_ne_nil x xs
        obtain ⟨hnil, -⟩ | ⟨_, hl⟩ := Loop.read_cases key size table l
        · exact absurd hnil hne
        have hopen' : (l.read key size table).finished = false := by
          rw [hl]
          exact hopen
        have hcursor : (l.read key size table).cursor =
            some (key ((x :: xs).getLast (List.cons_ne_nil x xs))) := by
          rw [Loop.read, List.getLast?_eq_some_getLast hne]
          simp only [hpage]
        have hdrain : drain key size table handle (fuel + 1) l.cursor b =
            (x :: xs).foldlM handle b >>=
              drain key size table handle fuel (l.read key size table).cursor := by
          rw [drain, hpage, hcursor]
        cases hhandle : (x :: xs).foldlM handle b with
        | error e =>
            have hstop : drain key size table handle (fuel + 1) l.cursor b = .error e := by
              rw [hdrain, hhandle]
              rfl
            rw [hstop]
            refine ⟨nofun, fun e' he' => ?_⟩
            obtain rfl := Except.error.inj he'
            exact hfail l b e hopen (hpage ▸ hhandle)
        | ok b' =>
            have hfirst := hread l b b' hopen (hpage ▸ hhandle)
            obtain ⟨hrest, hstop⟩ := ih (l.read key size table) b' hopen'
              (Nat.lt_of_lt_of_le (length_above_lt hne) (Nat.le_of_lt_succ hfuel))
            have hnext : drain key size table handle (fuel + 1) l.cursor b =
                drain key size table handle fuel (l.read key size table).cursor b' := by
              rw [hdrain, hhandle]
              rfl
            rw [hnext]
            constructor
            · intro b'' hb''
              obtain ⟨l', hl', hreaches⟩ := hrest b'' hb''
              exact ⟨l', hl', htrans _ _ _ hfirst hreaches⟩
            · intro e he
              obtain ⟨t, hreaches, ht⟩ := hstop e he
              exact ⟨t, htrans _ _ _ hfirst hreaches, ht⟩

end Rest

end Yorishiro.Lib.Keyset
