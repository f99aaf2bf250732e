import Yorishiro.Lib.OrderedMap

/-!
# Relational tables with unique constraints

A `Table κ α clash` is a map from primary keys to rows in which no two rows
clash; `clash` stands for the unique indexes of the table. `insert` and
`updateWhere` are the two statements that write rows: each fails as a whole when
the rows it would leave behind clash, and otherwise reports what it changed. The
spec lemmas `insert_eq_ok`, `updateWhere_eq_ok` and `updateRow_eq_ok` say which
rows a successful statement leaves, so that proofs about statements never look at
the constraint.
-/

set_option autoImplicit false

namespace Yorishiro.Lib

universe u v w

/-- Why a statement failed. -/
inductive DbErr where
  | recordNotFound (what : String)
  | uniqueViolation
  | foreignKeyViolation
  | outOfRange
  | custom (message : String)
deriving DecidableEq, Repr

/-- Reads a successful sequence of two fallible computations back. -/
theorem Except.bind_eq_ok {ε : Type u} {α β : Type v} {x : Except ε α} {f : α → Except ε β}
    {r : β} : (x >>= f) = .ok r ↔ ∃ a, x = .ok a ∧ f a = .ok r := by
  cases x with
  | error e => simp [bind, Except.bind]
  | ok a => simp [bind, Except.bind]

theorem Except.map_eq_ok {ε : Type u} {α β : Type v} {x : Except ε α} {f : α → β} {r : β}
    (h : x.map f = .ok r) : ∃ a, x = .ok a ∧ f a = r := by
  cases x with
  | error e => cases h
  | ok a =>
      cases h
      exact ⟨a, rfl, rfl⟩

theorem Except.mapError_eq_ok {ε ε' : Type u} {α : Type v} {x : Except ε α} {f : ε → ε'} {r : α}
    (h : x.mapError f = .ok r) : x = .ok r := by
  cases x with
  | error e => cases h
  | ok a => exact congrArg Except.ok (Except.ok.inj h)

/-- A table: rows by primary key, no two of them in conflict. -/
structure Table (κ : Type u) [LinearOrder κ] (α : Type v) (clash : α → α → Bool) where
  rows : OrderedMap κ α
  unique : rows.entries.Pairwise fun a b => clash a.2 b.2 = false

namespace Table

variable {κ : Type u} [LinearOrder κ] {α : Type v} {clash : α → α → Bool}

/-- The table with no row. -/
def empty : Table κ α clash := ⟨OrderedMap.empty, List.Pairwise.nil⟩

instance : Inhabited (Table κ α clash) := ⟨empty⟩

instance [DecidableEq α] : DecidableEq (Table κ α clash) := fun s t =>
  decidable_of_iff (s.rows = t.rows) (by cases s; cases t; simp)

/-- The row with primary key `k`. -/
def get? (t : Table κ α clash) (k : κ) : Option α := t.rows.get? k

/-- Number of rows a selection matches. -/
def count (p : κ → α → Bool) (t : Table κ α clash) : Nat := t.rows.count p

/-- Replaces the rows, checking the unique constraints. -/
def replace (_ : Table κ α clash) (rows : OrderedMap κ α) : Except DbErr (Table κ α clash) :=
  if h : rows.entries.Pairwise fun a b => clash a.2 b.2 = false then .ok ⟨rows, h⟩
  else .error .uniqueViolation

/-- `INSERT`: refused when the primary key is taken. -/
def insert (t : Table κ α clash) (k : κ) (x : α) : Except DbErr (Table κ α clash) :=
  if (t.get? k).isSome then .error .uniqueViolation else t.replace (t.rows.insert k x)

/-- `INSERT ... ON CONFLICT (primary key) DO UPDATE`: inserts `x`, or updates the row that is
there by `f`. -/
def upsert (t : Table κ α clash) (k : κ) (x : α) (f : α → α) : Except DbErr (Table κ α clash) :=
  t.replace (t.rows.insert k ((t.get? k).elim x f))

/-- `UPDATE ... WHERE`: the new table and the number of rows the filter matched. -/
def updateWhere (p : κ → α → Bool) (f : α → α) (t : Table κ α clash) :
    Except DbErr (Table κ α clash × Nat) :=
  (t.replace (t.rows.updateWhere p f)).map fun t' => (t', t.count p)

/-- `UPDATE` of the one row `id`, filtered by `p`. -/
def updateRow (t : Table κ α clash) (id : κ) (p : α → Bool) (f : α → α) :
    Except DbErr (Table κ α clash × Nat) :=
  t.updateWhere (fun l row => decide (l = id) && p row) f

/-- `DELETE` by primary key. -/
def delete (t : Table κ α clash) (k : κ) : Table κ α clash :=
  ⟨t.rows.erase k, t.unique.filter _⟩

/-- `DELETE ... WHERE`. -/
def deleteWhere (p : κ → α → Bool) (t : Table κ α clash) : Table κ α clash :=
  ⟨t.rows.filter fun k x => !p k x, t.unique.filter _⟩

theorem replace_eq_ok {t t' : Table κ α clash} {rows : OrderedMap κ α}
    (h : t.replace rows = .ok t') : t'.rows = rows := by
  unfold replace at h
  split_ifs at h
  cases h
  rfl

theorem insert_eq_ok {t t' : Table κ α clash} {k : κ} {x : α} (h : t.insert k x = .ok t') :
    t.get? k = none ∧ t'.rows = t.rows.insert k x := by
  unfold insert at h
  split_ifs at h with hk
  exact ⟨Option.not_isSome_iff_eq_none.mp hk, replace_eq_ok h⟩

theorem updateWhere_eq_ok {p : κ → α → Bool} {f : α → α} {t t' : Table κ α clash} {n : Nat}
    (h : t.updateWhere p f = .ok (t', n)) :
    t'.rows = t.rows.updateWhere p f ∧ n = t.count p := by
  unfold updateWhere at h
  cases hr : t.replace (t.rows.updateWhere p f) with
  | error e => rw [hr] at h; cases h
  | ok t₁ =>
      rw [hr] at h
      cases h
      exact ⟨replace_eq_ok hr, rfl⟩

/-- Without unique indexes an update always succeeds. -/
theorem updateWhere_of_no_clash (hclash : ∀ a b, clash a b = false) (p : κ → α → Bool) (f : α → α)
    (t : Table κ α clash) : ∃ t', t.updateWhere p f = .ok (t', t.count p) := by
  have hrows : (t.rows.updateWhere p f).entries.Pairwise fun a b => clash a.2 b.2 = false :=
    List.pairwise_of_forall fun a b => hclash a.2 b.2
  exact ⟨⟨_, hrows⟩, by simp [updateWhere, replace, hrows, Except.map]⟩

/-- A successful update, row by row. -/
theorem get?_updateWhere {p : κ → α → Bool} {f : α → α} {t t' : Table κ α clash} {n : Nat}
    (h : t.updateWhere p f = .ok (t', n)) (k : κ) :
    t'.get? k = (t.get? k).map fun x => if p k x then f x else x := by
  unfold get?
  rw [(updateWhere_eq_ok h).1, OrderedMap.get?_updateWhere]

/-- A successful insertion, row by row. -/
theorem get?_insert {t t' : Table κ α clash} {k : κ} {x : α} (h : t.insert k x = .ok t') (l : κ) :
    t'.get? l = if l = k then some x else t.get? l := by
  unfold get?
  rw [(insert_eq_ok h).2, OrderedMap.get?_insert]

/-- A successful insertion leaves the other rows as they are. -/
theorem get?_insert_of_some {t t' : Table κ α clash} {k l : κ} {x y : α}
    (h : t.insert k x = .ok t') (hl : t.get? l = some y) : t'.get? l = some y := by
  unfold get?
  rw [(insert_eq_ok h).2]
  exact OrderedMap.get?_insert_of_absent (insert_eq_ok h).1 x hl

/-- A successful upsert, row by row. -/
theorem get?_upsert {t t' : Table κ α clash} {k : κ} {x : α} {f : α → α}
    (h : t.upsert k x f = .ok t') (l : κ) :
    t'.get? l = if l = k then some ((t.get? k).elim x f) else t.get? l := by
  have hrows := replace_eq_ok h
  unfold get?
  rw [hrows, OrderedMap.get?_insert]
  rfl

@[simp] theorem get?_delete (t : Table κ α clash) (k l : κ) :
    (t.delete k).get? l = if l = k then none else t.get? l :=
  OrderedMap.get?_erase t.rows k l

@[simp] theorem get?_deleteWhere (p : κ → α → Bool) (t : Table κ α clash) (k : κ) :
    (t.deleteWhere p).get? k = (t.get? k).filter fun x => !p k x :=
  OrderedMap.get?_filter (fun k x => !p k x) t.rows k

@[simp] theorem get?_empty (k : κ) : (empty : Table κ α clash).get? k = none := rfl

theorem ext_get? {s t : Table κ α clash} (h : ∀ k, s.get? k = t.get? k) : s = t := by
  cases s with
  | mk m hm =>
      cases t with
      | mk n hn =>
          congr 1
          exact OrderedMap.ext_get? h

/-- A filter on the primary key matches at most that row. -/
theorem count_key (t : Table κ α clash) (k : κ) (p : α → Bool) :
    (t.count fun l x => decide (l = k) && p x) = if (t.get? k).any p then 1 else 0 :=
  OrderedMap.count_key t.rows k p

/-- A selection whose rows all have a selected counterpart counts at most as many. -/
theorem count_le_count {s t : Table κ α clash} {p q : κ → α → Bool}
    (h : ∀ k x, s.get? k = some x → p k x = true → ∃ y, t.get? k = some y ∧ q k y = true) :
    s.count p ≤ t.count q :=
  OrderedMap.count_le_count h

theorem count_le_count_ne (t : Table κ α clash) (p : κ → α → Bool) (k : κ) :
    t.count p ≤ (t.count fun l x => p l x && !decide (l = k)) + 1 :=
  OrderedMap.count_le_count_ne t.rows p k

/-- `t'` is `t` with the row `id` replaced by `row`. -/
def Replaces (t t' : Table κ α clash) (id : κ) (row : α) : Prop :=
  ∀ l, t'.get? l = if l = id then some row else t.get? l

theorem Replaces.get?_self {t t' : Table κ α clash} {id : κ} {row : α}
    (h : Replaces t t' id row) : t'.get? id = some row := by
  rw [h id, if_pos rfl]

theorem Replaces.get?_ne {t t' : Table κ α clash} {id : κ} {row : α} (h : Replaces t t' id row)
    {l : κ} (hl : l ≠ id) : t'.get? l = t.get? l := by
  rw [h l, if_neg hl]

/-- **Single-row update.** Either the filter held of the row `id`, which is then
replaced, or nothing matched and the table is unchanged. -/
theorem updateRow_eq_ok {t t' : Table κ α clash} {id : κ} {p : α → Bool} {f : α → α} {n : Nat}
    (h : t.updateRow id p f = .ok (t', n)) :
    (∃ row, t.get? id = some row ∧ p row = true ∧ n = 1 ∧ Replaces t t' id (f row)) ∨
      ((t.get? id).any p = false ∧ n = 0 ∧ t' = t) := by
  have hn : n = if (t.get? id).any p then 1 else 0 := by
    rw [(updateWhere_eq_ok h).2]
    exact count_key t id p
  have hget := fun l => get?_updateWhere h l
  cases hp : (t.get? id).any p with
  | true =>
      obtain ⟨row, hrow, hprow⟩ : ∃ row, t.get? id = some row ∧ p row = true := by
        cases hrow : t.get? id with
        | none => simp [hrow] at hp
        | some row => exact ⟨row, rfl, by simpa [hrow] using hp⟩
      refine Or.inl ⟨row, hrow, hprow, by simpa [hp] using hn, fun l => ?_⟩
      rw [hget l]
      by_cases hl : l = id
      · subst hl
        simp [hrow, hprow]
      -- off the key the filter is false, so the row is kept as it is
      · cases hlrow : t.get? l with
        | none => simp [hl]
        | some r => simp [hl]
  | false =>
      refine Or.inr ⟨rfl, by simpa [hp] using hn, ext_get? fun l => ?_⟩
      rw [hget l]
      by_cases hl : l = id
      · subst hl
        cases hrow : t.get? l with
        | none => rfl
        | some row =>
            have hprow : p row = false := by simpa [hrow] using hp
            simp [hprow]
      · cases hlrow : t.get? l with
        | none => rfl
        | some r => simp [hl]

/-- A single-row update fails only because the row it would write clashes with
another row. -/
theorem updateRow_eq_error {t : Table κ α clash} {id : κ} {p : α → Bool} {f : α → α} {e : DbErr}
    (h : t.updateRow id p f = .error e) :
    e = .uniqueViolation ∧ ∃ row other row', t.get? id = some row ∧ p row = true ∧ other ≠ id ∧
      t.get? other = some row' ∧ (clash (f row) row' = true ∨ clash row' (f row) = true) := by
  unfold updateRow updateWhere replace at h
  split_ifs at h with hpair
  · cases h
  refine ⟨(Except.error.inj h).symm, ?_⟩
  -- if the new row clashed with no other row, the constraint check would have passed
  by_contra hnone
  push Not at hnone
  apply hpair
  show (t.rows.entries.map fun d =>
    (d.1, if decide (d.1 = id) && p d.2 then f d.2 else d.2)).Pairwise _
  rw [List.pairwise_map]
  refine (t.rows.sorted.and t.unique).imp_of_mem ?_
  rintro ⟨k, x⟩ ⟨l, y⟩ hx hy ⟨hlt, hxy⟩
  -- at most one of the two rows is the updated one, and that one clashes with no other
  have hne : k ≠ l := ne_of_lt hlt
  have hgx : t.get? k = some x := (t.rows.mem_entries_iff k x).mp hx
  have hgy : t.get? l = some y := (t.rows.mem_entries_iff l y).mp hy
  by_cases hk : k = id ∧ p x = true
  · obtain ⟨rfl, hp⟩ := hk
    have hnot := (hnone x l y hgx hp hne.symm hgy).1
    simpa [hp, hne.symm] using hnot
  · by_cases hl : l = id ∧ p y = true
    · obtain ⟨rfl, hp⟩ := hl
      have hnot := (hnone y k x hgy hp hne hgx).2
      simpa [hp, hne] using hnot
    · have hk' : (decide (k = id) && p x) = false := by simpa using hk
      have hl' : (decide (l = id) && p y) = false := by simpa using hl
      simpa [hk', hl'] using hxy

/-- Rows of a table do not clash, in whichever order they are compared. -/
theorem clash_eq_false (hsymm : ∀ a b, clash a b = clash b a) {t : Table κ α clash} {k l : κ}
    {x y : α} (hne : k ≠ l) (hx : t.get? k = some x) (hy : t.get? l = some y) :
    clash x y = false := by
  have hsymm' : Std.Symm fun a b : κ × α => clash a.2 b.2 = false :=
    ⟨fun a b h => (hsymm b.2 a.2).trans h⟩
  apply t.unique.forall ((t.rows.mem_entries_iff k x).mpr hx) ((t.rows.mem_entries_iff l y).mpr hy)
  exact fun h => hne (congrArg Prod.fst h)

/-- Where rows that meet `p` clash, a further condition filters the one row that does. -/
theorem find?_and {p r : κ × α → Bool}
    (hp : ∀ a b : κ × α, p a = true → p b = true → clash a.2 b.2 = true) (t : Table κ α clash) :
    (t.rows.entries.find? fun e => p e && r e) = (t.rows.entries.find? p).filter r := by
  have hunique := t.unique
  generalize t.rows.entries = rows at hunique
  induction rows with
  | nil => rfl
  | cons e es ih =>
      obtain ⟨hhead, htail⟩ := List.pairwise_cons.mp hunique
      cases hpe : p e with
      | false => simpa [hpe] using ih htail
      | true =>
          cases hre : r e with
          | true => simp [hpe, hre, Option.filter]
          | false =>
              -- no later row meets `p`
              have hnone : (es.find? fun d => p d && r d) = none := by
                refine List.find?_eq_none.mpr fun d hd hpd => ?_
                have hclash := hp e d hpe (Bool.and_eq_true_iff.mp hpd).1
                rw [hhead d hd] at hclash
                cases hclash
              simp [hpe, hre, hnone, Option.filter]

/-- A row that clashes with no more rows than the one it replaces can be written. -/
theorem updateRow_total (hsymm : ∀ a b, clash a b = clash b a) {t : Table κ α clash} {id : κ}
    {p : α → Bool} {f : α → α} {row : α} (hrow : t.get? id = some row)
    (hle : ∀ other, clash (f row) other = true → clash row other = true) :
    ∃ r, t.updateRow id p f = .ok r := by
  cases hu : t.updateRow id p f with
  | ok r => exact ⟨r, rfl⟩
  | error e =>
      obtain ⟨-, row₁, other, row', hrow₁, -, hne, hrow', hclash⟩ := updateRow_eq_error hu
      obtain rfl : row₁ = row := Option.some.inj (hrow₁.symm.trans hrow)
      have hforward : clash (f row₁) row' = true := by
        rcases hclash with h | h
        · exact h
        · rw [hsymm]
          exact h
      have hbefore := hle row' hforward
      rw [clash_eq_false hsymm hne.symm hrow hrow'] at hbefore
      cases hbefore

/-- Rows that do not clash, in whichever order they are compared, can be stored. -/
theorem replace_total {t : Table κ α clash} {rows : OrderedMap κ α}
    (h : ∀ k l x y, k ≠ l → rows.get? k = some x → rows.get? l = some y → clash x y = false) :
    ∃ t', t.replace rows = .ok t' := by
  have hpair : rows.entries.Pairwise fun a b => clash a.2 b.2 = false := by
    refine rows.sorted.imp_of_mem ?_
    rintro ⟨k, x⟩ ⟨l, y⟩ hx hy hlt
    exact h k l x y (ne_of_lt hlt) ((rows.mem_entries_iff k x).mp hx)
      ((rows.mem_entries_iff l y).mp hy)
  refine ⟨⟨rows, hpair⟩, ?_⟩
  unfold replace
  rw [dif_pos hpair]

/-- A row under a free key that clashes with no other can be inserted. -/
theorem insert_total (hsymm : ∀ a b, clash a b = clash b a) {t : Table κ α clash} {k : κ} {x : α}
    (hk : t.get? k = none) (hx : ∀ l y, t.get? l = some y → clash x y = false) :
    ∃ t', t.insert k x = .ok t' := by
  unfold insert
  rw [if_neg (by simp [hk])]
  apply replace_total
  intro a b y z hne hy hz
  rw [OrderedMap.get?_insert] at hy hz
  split_ifs at hy hz with ha hb hb
  · exact absurd (ha.trans hb.symm) hne
  · cases hy
    exact hx b z hz
  · cases hz
    rw [hsymm]
    exact hx a y hy
  · exact clash_eq_false hsymm hne hy hz

theorem insert_eq_error {t : Table κ α clash} {k : κ} {x : α} {e : DbErr}
    (h : t.insert k x = .error e) : e = .uniqueViolation := by
  unfold insert replace at h
  split_ifs at h
  · exact (Except.error.inj h).symm
  · exact (Except.error.inj h).symm

/-- A row under a free key can be inserted exactly when it clashes with no other. -/
theorem insert_ok_iff (hsymm : ∀ a b, clash a b = clash b a) {t : Table κ α clash} {k : κ} {x : α}
    (hk : t.get? k = none) :
    (∃ t', t.insert k x = .ok t') ↔ ∀ l y, t.get? l = some y → clash x y = false := by
  refine ⟨fun ⟨t', ht'⟩ l y hy => ?_, insert_total hsymm hk⟩
  have hne : k ≠ l := by
    rintro rfl
    rw [hk] at hy
    cases hy
  have hx : t'.get? k = some x := by rw [get?_insert ht', if_pos rfl]
  exact clash_eq_false hsymm hne hx (get?_insert_of_some ht' hy)

/-- The selected primary keys, in order. -/
def keysWhere (p : α → Bool) (t : Table κ α clash) : List κ :=
  (t.rows.entries.filter fun e => p e.2).map Prod.fst

theorem mem_keysWhere {p : α → Bool} {t : Table κ α clash} {k : κ} {x : α}
    (hx : t.get? k = some x) (hp : p x = true) : k ∈ t.keysWhere p :=
  List.mem_map.mpr ⟨(k, x), List.mem_filter.mpr ⟨(t.rows.mem_entries_iff k x).mpr hx, hp⟩, rfl⟩

/-- An update that adds no clash succeeds. -/
theorem updateWhere_total (hsymm : ∀ a b, clash a b = clash b a) {t : Table κ α clash}
    {p : κ → α → Bool} {f : α → α} (hf : ∀ a b, clash (f a) b = true → clash a b = true) :
    ∃ t', t.updateWhere p f = .ok (t', t.count p) := by
  -- each side of a comparison may be updated or not
  have hside : ∀ (c : Bool) a b, clash (if c = true then f a else a) b = true →
      clash a b = true := by
    intro c a b h
    split_ifs at h
    · exact hf a b h
    · exact h
  obtain ⟨t', ht'⟩ : ∃ t', t.replace (t.rows.updateWhere p f) = .ok t' := by
    apply replace_total
    intro k l x y hne hx hy
    rw [OrderedMap.get?_updateWhere] at hx hy
    obtain ⟨x₀, hx₀, rfl⟩ := Option.map_eq_some_iff.mp hx
    obtain ⟨y₀, hy₀, rfl⟩ := Option.map_eq_some_iff.mp hy
    by_contra hclash
    rw [Bool.not_eq_false] at hclash
    have hfirst := hside _ _ _ hclash
    rw [hsymm] at hfirst
    have hboth := hside _ _ _ hfirst
    rw [hsymm, clash_eq_false hsymm hne hx₀ hy₀] at hboth
    cases hboth
  refine ⟨t', ?_⟩
  unfold updateWhere
  rw [ht']
  rfl

end Table

end Yorishiro.Lib
