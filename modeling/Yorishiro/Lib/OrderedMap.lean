import Mathlib.Data.List.Pairwise
import Mathlib.Order.Basic
import Mathlib.Order.Lattice

/-!
# Finite maps as key-sorted association lists

`Entries` are plain association lists with a sorted insertion; `OrderedMap`
bundles such a list with the proof that its keys increase strictly. An
`OrderedMap` is determined by its lookups (`OrderedMap.ext_get?`), so it serves
both as an ordered dictionary and as a table keyed by its primary key. The bulk
operations are the value map `mapValues`, the selection `filter`, and the
conditional update `updateWhere`, whose effect on each key is
`get?_updateWhere`.
-/

set_option autoImplicit false

namespace Yorishiro.Lib

universe u v w

variable {κ : Type u} {α : Type v} {β : Type w}

/-! ## Association lists -/

namespace Entries

/-- The keys increase strictly along the list. -/
def Sorted [LinearOrder κ] (es : List (κ × α)) : Prop :=
  es.Pairwise fun a b => a.1 < b.1

/-- First value stored under `k`. -/
def get? [LinearOrder κ] (k : κ) : List (κ × α) → Option α
  | [] => none
  | (k', x) :: rest => if k = k' then some x else get? k rest

/-- Sorted insertion, replacing the value of an existing key. -/
def insert [LinearOrder κ] (k : κ) (x : α) : List (κ × α) → List (κ × α)
  | [] => [(k, x)]
  | (k', y) :: rest =>
      if k < k' then (k, x) :: (k', y) :: rest
      -- an existing key keeps its place
      else if k = k' then (k, x) :: rest
      else (k', y) :: insert k x rest

/-- Removes every entry stored under `k`. -/
def erase [LinearOrder κ] (k : κ) (es : List (κ × α)) : List (κ × α) :=
  es.filter fun e => !decide (e.1 = k)

/-- Applies `f` to every key and value, keeping the keys. -/
def mapValues (f : κ → α → β) (es : List (κ × α)) : List (κ × β) :=
  es.map fun e => (e.1, f e.1 e.2)

/-- Inserts the entries that carry a value, in order. -/
def insertSome [LinearOrder κ] : List (κ × Option α) → List (κ × α) → List (κ × α)
  | [], es => es
  | (_, none) :: named, es => insertSome named es
  | (k, some x) :: named, es => insertSome named (insert k x es)

section Lookup

variable [LinearOrder κ]

@[simp] theorem get?_nil (k : κ) : get? k ([] : List (κ × α)) = none := rfl

theorem get?_cons (k k' : κ) (x : α) (es : List (κ × α)) :
    get? k ((k', x) :: es) = if k = k' then some x else get? k es := rfl

theorem get?_eq_none_iff (k : κ) (es : List (κ × α)) :
    get? k es = none ↔ k ∉ es.map Prod.fst := by
  induction es with
  | nil => simp
  | cons e rest ih =>
      obtain ⟨k', x⟩ := e
      by_cases h : k = k'
      · simp [get?_cons, h]
      · simp [get?_cons, h, ih]

theorem mem_of_get? {k : κ} {x : α} {es : List (κ × α)} (h : get? k es = some x) :
    (k, x) ∈ es := by
  induction es with
  | nil => simp at h
  | cons e rest ih =>
      obtain ⟨k', y⟩ := e
      by_cases hk : k = k'
      · subst hk
        simp only [get?_cons, if_pos, Option.some.injEq] at h
        subst h
        exact List.mem_cons_self
      · rw [get?_cons, if_neg hk] at h
        exact List.mem_cons_of_mem _ (ih h)

theorem get?_of_mem {k : κ} {x : α} {es : List (κ × α)} (hs : Sorted es)
    (h : (k, x) ∈ es) : get? k es = some x := by
  induction es with
  | nil => simp at h
  | cons e rest ih =>
      obtain ⟨k', y⟩ := e
      obtain ⟨hlt, hrest⟩ := List.pairwise_cons.mp hs
      rcases List.mem_cons.mp h with heq | hmem
      · cases heq
        simp [get?_cons]
      -- keys increase, so the head's key is not found again further on
      · have hne : k ≠ k' := ne_of_gt (hlt _ hmem)
        rw [get?_cons, if_neg hne]
        exact ih hrest hmem

@[simp] theorem get?_insert (k l : κ) (x : α) (es : List (κ × α)) :
    get? l (insert k x es) = if l = k then some x else get? l es := by
  induction es with
  | nil => rfl
  | cons e rest ih =>
      obtain ⟨k', y⟩ := e
      by_cases hlt : k < k'
      · simp only [insert, if_pos hlt, get?_cons]
      · by_cases heq : k = k'
        · subst heq
          by_cases hl : l = k
          · simp [insert, get?_cons, hl]
          · simp [insert, get?_cons, hl]
        · by_cases hl : l = k
          · subst hl
            simp [insert, hlt, heq, get?_cons, ih]
          · simp [insert, hlt, heq, hl, get?_cons, ih]

@[simp] theorem get?_erase (k l : κ) (es : List (κ × α)) :
    get? l (erase k es) = if l = k then none else get? l es := by
  induction es with
  | nil => simp [erase]
  | cons e rest ih =>
      obtain ⟨k', y⟩ := e
      unfold erase at ih ⊢
      by_cases hk : k' = k
      · subst hk
        by_cases hl : l = k'
        · simpa [hl] using ih
        · simp [hl, get?_cons, ih]
      · by_cases hl : l = k'
        · subst hl; simp [hk, get?_cons]
        · simp [hk, hl, get?_cons, ih]

@[simp] theorem get?_mapValues (f : κ → α → β) (k : κ) (es : List (κ × α)) :
    get? k (mapValues f es) = (get? k es).map (f k) := by
  induction es with
  | nil => rfl
  | cons e rest ih =>
      obtain ⟨k', y⟩ := e
      unfold mapValues at ih ⊢
      by_cases hk : k = k'
      · subst hk; simp [get?_cons]
      · simp [get?_cons, hk, ih]

/-- The head key of a sorted list does not occur again. -/
theorem get?_tail_eq_none {k : κ} {x : α} {es : List (κ × α)} (hs : Sorted ((k, x) :: es)) :
    get? k es = none := by
  rw [get?_eq_none_iff]
  intro hmem
  obtain ⟨e, he, hek⟩ := List.mem_map.mp hmem
  exact lt_irrefl k (hek ▸ (List.pairwise_cons.mp hs).1 e he)

theorem get?_filter {p : κ × α → Bool} {es : List (κ × α)} (hs : Sorted es) (k : κ) :
    get? k (es.filter p) = (get? k es).filter fun x => p (k, x) := by
  induction es with
  | nil => rfl
  | cons e rest ih =>
      obtain ⟨k', y⟩ := e
      have hrest : Sorted rest := (List.pairwise_cons.mp hs).2
      by_cases hk : k = k'
      · subst hk
        cases hp : p (k, y) with
        | true => simp [hp, get?_cons, Option.filter]
        -- the filtered-out head was the only entry of its key
        | false => simp [hp, get?_cons, ih hrest, get?_tail_eq_none hs, Option.filter]
      · cases hp : p (k', y) with
        | true => simp [hp, get?_cons, hk, ih hrest]
        | false => simp [hp, get?_cons, hk, ih hrest]

theorem get?_insertSome_of_notMem {k : κ} {named : List (κ × Option α)}
    (h : k ∉ named.map Prod.fst) (es : List (κ × α)) :
    get? k (insertSome named es) = get? k es := by
  induction named generalizing es with
  | nil => rfl
  | cons e named ih =>
      obtain ⟨l, o⟩ := e
      obtain ⟨hne, hrest⟩ : k ≠ l ∧ k ∉ named.map Prod.fst := by simpa using h
      cases o with
      | none => exact ih hrest es
      | some x => exact (ih hrest _).trans ((get?_insert l k x es).trans (if_neg hne))

/-- What an entry of `named` leaves under its key, when the keys are distinct and new. -/
theorem get?_insertSome_of_mem {k : κ} {o : Option α} {named : List (κ × Option α)}
    (hnodup : (named.map Prod.fst).Nodup) (h : (k, o) ∈ named) {es : List (κ × α)}
    (hnew : get? k es = none) : get? k (insertSome named es) = o := by
  induction named generalizing es with
  | nil => cases h
  | cons e named ih =>
      obtain ⟨l, o'⟩ := e
      obtain ⟨hfresh, hrest⟩ := List.nodup_cons.mp hnodup
      rcases List.mem_cons.mp h with heq | hmem
      · cases heq
        cases o with
        | none => exact (get?_insertSome_of_notMem hfresh es).trans hnew
        | some x => exact (get?_insertSome_of_notMem hfresh _).trans (by simp)
      · have hne : k ≠ l := by
          rintro rfl
          exact hfresh (List.mem_map.mpr ⟨(k, o), hmem, rfl⟩)
        cases o' with
        | none => exact ih hrest hmem hnew
        | some x => exact ih hrest hmem (by simp [hne, hnew])

/-- The named entries and the entries beside them can be read back. -/
theorem insertSome_inj {named named' : List (κ × Option α)} {es ds : List (κ × α)}
    (hkeys : named.map Prod.fst = named'.map Prod.fst) (hnodup : (named.map Prod.fst).Nodup)
    (hes : ∀ k ∈ named.map Prod.fst, get? k es = none)
    (hds : ∀ k ∈ named.map Prod.fst, get? k ds = none)
    (h : insertSome named es = insertSome named' ds) :
    named = named' ∧ ∀ k, get? k es = get? k ds := by
  have hget : ∀ k, get? k (insertSome named es) = get? k (insertSome named' ds) := fun k => by
    rw [h]
  constructor
  · apply List.ext_getElem
    · simpa using congrArg List.length hkeys
    · intro i hi hi'
      have hkey : (named[i]).1 = (named'[i]).1 := by
        have := congrArg (fun l => l[i]?) hkeys
        simpa [hi, hi'] using this
      have hmem : (named[i].1, named[i].2) ∈ named := List.getElem_mem hi
      -- the two lists have the same keys in the same places
      have hmem' : (named[i].1, named'[i].2) ∈ named' := by
        rw [hkey]
        exact List.getElem_mem hi'
      have hin : named[i].1 ∈ named.map Prod.fst := List.mem_map_of_mem hmem
      have hval := hget named[i].1
      rw [get?_insertSome_of_mem hnodup hmem (hes _ hin),
        get?_insertSome_of_mem (hkeys ▸ hnodup) hmem' (hds _ hin)] at hval
      exact Prod.ext hkey hval
  · intro k
    -- named keys are absent beside, the others are untouched by the insertions
    by_cases hk : k ∈ named.map Prod.fst
    · rw [hes k hk, hds k hk]
    · have := hget k
      rwa [get?_insertSome_of_notMem hk, get?_insertSome_of_notMem (hkeys ▸ hk)] at this

end Lookup

section Order

variable [LinearOrder κ]

theorem key_mem_insert {k : κ} {x : α} {e : κ × α} {es : List (κ × α)}
    (h : e ∈ insert k x es) : e = (k, x) ∨ e ∈ es := by
  induction es with
  | nil => simpa [insert] using h
  | cons d rest ih =>
      obtain ⟨k', y⟩ := d
      simp only [insert] at h
      split_ifs at h with hlt heq
      · rcases List.mem_cons.mp h with h | h
        · exact Or.inl h
        · exact Or.inr h
      · rcases List.mem_cons.mp h with h | h
        · exact Or.inl h
        · exact Or.inr (List.mem_cons_of_mem _ h)
      · rcases List.mem_cons.mp h with h | h
        · exact Or.inr (h ▸ List.mem_cons_self)
        · rcases ih h with h | h
          · exact Or.inl h
          · exact Or.inr (List.mem_cons_of_mem _ h)

theorem mem_of_mem_insertSome {named : List (κ × Option α)} {e : κ × α} {es : List (κ × α)}
    (h : e ∈ insertSome named es) : (e.1, some e.2) ∈ named ∨ e ∈ es := by
  induction named generalizing es with
  | nil => exact Or.inr h
  | cons d named ih =>
      obtain ⟨k, o⟩ := d
      cases o with
      | none => exact (ih h).imp_left (List.mem_cons_of_mem _)
      | some x =>
          rcases ih h with h | h
          · exact Or.inl (List.mem_cons_of_mem _ h)
          · rcases key_mem_insert h with rfl | h
            · exact Or.inl List.mem_cons_self
            · exact Or.inr h

theorem Sorted.insert {es : List (κ × α)} (hs : Sorted es) (k : κ) (x : α) :
    Sorted (Entries.insert k x es) := by
  induction es with
  | nil => simp [Entries.insert, Sorted]
  | cons e rest ih =>
      obtain ⟨k', y⟩ := e
      obtain ⟨hlt, hrest⟩ := List.pairwise_cons.mp hs
      simp only [Entries.insert]
      split_ifs with h₁ h₂
      · refine List.pairwise_cons.mpr ⟨?_, hs⟩
        intro e he
        rcases List.mem_cons.mp he with he | he
        · exact he ▸ h₁
        · exact lt_trans h₁ (hlt e he)
      · subst h₂
        exact List.pairwise_cons.mpr ⟨hlt, hrest⟩
      -- beyond the head, what the insertion adds is still above the head's key
      · refine List.pairwise_cons.mpr ⟨?_, ih hrest⟩
        intro e he
        rcases key_mem_insert he with he | he
        · exact he ▸ lt_of_le_of_ne (not_lt.mp h₁) (Ne.symm h₂)
        · exact hlt e he

theorem Sorted.erase {es : List (κ × α)} (hs : Sorted es) (k : κ) :
    Sorted (Entries.erase k es) :=
  List.Pairwise.filter _ hs

theorem Sorted.filter {es : List (κ × α)} (hs : Sorted es) (p : κ × α → Bool) :
    Sorted (es.filter p) :=
  List.Pairwise.filter _ hs

theorem Sorted.mapValues {es : List (κ × α)} (hs : Sorted es) (f : κ → α → β) :
    Sorted (Entries.mapValues f es) := by
  unfold Entries.mapValues Sorted
  rw [List.pairwise_map]
  exact hs

/-- Two sorted lists with the same lookups are equal. -/
theorem Sorted.ext_get? {es ds : List (κ × α)} (he : Sorted es) (hd : Sorted ds)
    (h : ∀ k, get? k es = get? k ds) : es = ds := by
  induction es generalizing ds with
  | nil =>
      cases ds with
      | nil => rfl
      | cons d ds =>
          obtain ⟨l, y⟩ := d
          have := h l
          simp [get?_cons] at this
  | cons e es ih =>
      obtain ⟨k, x⟩ := e
      cases ds with
      | nil =>
          have := h k
          simp [get?_cons] at this
      | cons d ds =>
          obtain ⟨l, y⟩ := d
          obtain ⟨hlte, hes⟩ := List.pairwise_cons.mp he
          obtain ⟨hltd, hds⟩ := List.pairwise_cons.mp hd
          -- the two heads carry the least key of each side, so they agree
          have hkl : k = l := by
            rcases lt_trichotomy k l with hlt | heq | hgt
            · have hmem : (k, x) ∈ (l, y) :: ds :=
                mem_of_get? ((h k).symm.trans (by simp [get?_cons]))
              rcases List.mem_cons.mp hmem with hm | hm
              · exact congrArg Prod.fst hm
              · exact absurd (hltd _ hm) (not_lt.mpr hlt.le)
            · exact heq
            · have hmem : (l, y) ∈ (k, x) :: es :=
                mem_of_get? ((h l).trans (by simp [get?_cons]))
              rcases List.mem_cons.mp hmem with hm | hm
              · exact (congrArg Prod.fst hm).symm
              · exact absurd (hlte _ hm) (not_lt.mpr hgt.le)
          subst hkl
          have hxy : x = y := by
            have := h k
            simpa [get?_cons] using this
          subst hxy
          congr 1
          refine ih hes hds fun m => ?_
          by_cases hm : m = k
          · subst hm
            rw [get?_tail_eq_none he, get?_tail_eq_none hd]
          · have := h m
            simpa [get?_cons, hm] using this

end Order

end Entries

/-! ## Ordered maps -/

/-- A finite map: an association list with its keys in strictly increasing order. -/
structure OrderedMap (κ : Type u) [LinearOrder κ] (α : Type v) where
  entries : List (κ × α)
  sorted : Entries.Sorted entries

namespace OrderedMap

variable [LinearOrder κ]

/-- The empty map. -/
def empty : OrderedMap κ α := ⟨[], List.Pairwise.nil⟩

instance : Inhabited (OrderedMap κ α) := ⟨empty⟩

instance [DecidableEq α] : DecidableEq (OrderedMap κ α) := fun m n =>
  decidable_of_iff (m.entries = n.entries) (by
    cases m; cases n; simp)

/-- Value stored under `k`. -/
def get? (m : OrderedMap κ α) (k : κ) : Option α := Entries.get? k m.entries

/-- The map with `k` bound to `x`. -/
def insert (m : OrderedMap κ α) (k : κ) (x : α) : OrderedMap κ α :=
  ⟨Entries.insert k x m.entries, m.sorted.insert k x⟩

/-- The map without `k`. -/
def erase (m : OrderedMap κ α) (k : κ) : OrderedMap κ α :=
  ⟨Entries.erase k m.entries, m.sorted.erase k⟩

/-- The map with every value rewritten by `f`. -/
def mapValues (f : κ → α → β) (m : OrderedMap κ α) : OrderedMap κ β :=
  ⟨Entries.mapValues f m.entries, m.sorted.mapValues f⟩

/-- The entries that satisfy `p`. -/
def filter (p : κ → α → Bool) (m : OrderedMap κ α) : OrderedMap κ α :=
  ⟨m.entries.filter fun e => p e.1 e.2, m.sorted.filter _⟩

/-- Number of entries that satisfy `p`. -/
def count (p : κ → α → Bool) (m : OrderedMap κ α) : Nat :=
  m.entries.countP fun e => p e.1 e.2

/-- Keys in increasing order. -/
def keys (m : OrderedMap κ α) : List κ := m.entries.map Prod.fst

/-- Rewrites the rows that satisfy `p` by `f` and keeps every other row. -/
def updateWhere (p : κ → α → Bool) (f : α → α) (m : OrderedMap κ α) : OrderedMap κ α :=
  m.mapValues fun k x => if p k x then f x else x

/-- The map of an association list, later entries replacing earlier ones. -/
def ofList (es : List (κ × α)) : OrderedMap κ α :=
  es.foldl (fun m e => m.insert e.1 e.2) empty

@[simp] theorem get?_empty (k : κ) : (empty : OrderedMap κ α).get? k = none := rfl

@[simp] theorem get?_insert (m : OrderedMap κ α) (k l : κ) (x : α) :
    (m.insert k x).get? l = if l = k then some x else m.get? l :=
  Entries.get?_insert k l x m.entries

@[simp] theorem get?_erase (m : OrderedMap κ α) (k l : κ) :
    (m.erase k).get? l = if l = k then none else m.get? l :=
  Entries.get?_erase k l m.entries

theorem get?_insert_eq_some {m : OrderedMap κ α} {k l : κ} {x y : α}
    (h : (m.insert k x).get? l = some y) : (l = k ∧ y = x) ∨ (l ≠ k ∧ m.get? l = some y) := by
  rw [get?_insert] at h
  split_ifs at h with hl
  · exact Or.inl ⟨hl, (Option.some.inj h).symm⟩
  · exact Or.inr ⟨hl, h⟩

theorem get?_insert_self (m : OrderedMap κ α) (k : κ) (x : α) :
    (m.insert k x).get? k = some x := by
  rw [get?_insert, if_pos rfl]

/-- An entry under a free key leaves the others as they are. -/
theorem get?_insert_of_absent {m : OrderedMap κ α} {k l : κ} {y : α} (hk : m.get? k = none)
    (x : α) (hl : m.get? l = some y) : (m.insert k x).get? l = some y := by
  have hne : l ≠ k := by
    rintro rfl
    rw [hk] at hl
    cases hl
  rw [get?_insert, if_neg hne]
  exact hl

/-- Grouped by a key, the elements are under their keys in the order of the list. -/
theorem get?_foldl_group {α : Type u} {κ : Type v} [LinearOrder κ] (key : α → κ) (l : List α)
    (m : OrderedMap κ (List α)) (k : κ) :
    (l.foldl (fun m p => m.insert (key p) ((m.get? (key p)).getD [] ++ [p])) m).get? k =
      if l.filter (fun p => decide (key p = k)) = [] then m.get? k
      else some ((m.get? k).getD [] ++ l.filter fun p => decide (key p = k)) := by
  induction l generalizing m with
  | nil => simp
  | cons p l ih =>
      rw [List.foldl_cons, ih, get?_insert]
      by_cases hk : key p = k
      · subst hk
        by_cases hnil : l.filter (fun q => decide (key q = key p)) = []
        · simp [hnil]
        · simp [hnil]
      · have hne : k ≠ key p := fun heq => hk heq.symm
        simp [hk, hne]

theorem get?_erase_eq_some {m : OrderedMap κ α} {k l : κ} {x : α}
    (h : (m.erase k).get? l = some x) : l ≠ k ∧ m.get? l = some x := by
  rw [get?_erase] at h
  split_ifs at h with hl
  exact ⟨hl, h⟩

@[simp] theorem get?_mapValues (f : κ → α → β) (m : OrderedMap κ α) (k : κ) :
    (m.mapValues f).get? k = (m.get? k).map (f k) :=
  Entries.get?_mapValues f k m.entries

@[simp] theorem get?_filter (p : κ → α → Bool) (m : OrderedMap κ α) (k : κ) :
    (m.filter p).get? k = (m.get? k).filter (p k) :=
  Entries.get?_filter m.sorted k

@[simp] theorem get?_updateWhere (p : κ → α → Bool) (f : α → α) (m : OrderedMap κ α) (k : κ) :
    (m.updateWhere p f).get? k = (m.get? k).map fun x => if p k x then f x else x :=
  get?_mapValues _ m k

theorem mem_entries_iff (m : OrderedMap κ α) (k : κ) (x : α) :
    (k, x) ∈ m.entries ↔ m.get? k = some x :=
  ⟨Entries.get?_of_mem m.sorted, Entries.mem_of_get?⟩

theorem mem_keys_iff (m : OrderedMap κ α) (k : κ) : k ∈ m.keys ↔ (m.get? k).isSome := by
  have h := Entries.get?_eq_none_iff k m.entries
  unfold keys get?
  cases hg : Entries.get? k m.entries with
  | none => simpa [hg] using h
  | some x => simpa [hg] using h

theorem nodup_keys (m : OrderedMap κ α) : m.keys.Nodup := by
  have h : m.keys.Pairwise (· < ·) := List.pairwise_map.mpr m.sorted
  exact h.imp fun hlt => ne_of_lt hlt

/-- A map is determined by its lookups. -/
theorem ext_get? {m n : OrderedMap κ α} (h : ∀ k, m.get? k = n.get? k) : m = n := by
  cases m with
  | mk es hes =>
      cases n with
      | mk ds hds =>
          congr 1
          exact hes.ext_get? hds h

/-- Two maps that agree on the selected entries have them in the same order. -/
theorem filter_entries_congr {m n : OrderedMap κ α} {p q : κ → α → Bool}
    (h : ∀ k, (m.get? k).filter (p k) = (n.get? k).filter (q k)) :
    (m.entries.filter fun e => p e.1 e.2) = n.entries.filter fun e => q e.1 e.2 := by
  have heq : m.filter p = n.filter q := ext_get? fun k => by
    rw [get?_filter, get?_filter, h k]
  exact congrArg entries heq

/-- The rows whose keys are among the keys are all rows. -/
theorem filter_keys (m : OrderedMap κ α) : (m.filter fun k _ => m.keys.contains k) = m := by
  apply ext_get?
  intro k
  rw [get?_filter]
  cases h : m.get? k with
  | none => rfl
  | some x =>
      have hmem : k ∈ m.keys := by simp [mem_keys_iff, h]
      simp [hmem]

theorem get?_ofList_isSome (es : List (κ × α)) (k : κ) :
    ((ofList es).get? k).isSome ↔ k ∈ es.map Prod.fst := by
  unfold ofList
  -- the accumulator is generalised, so that the fold can be taken apart
  suffices h : ∀ m : OrderedMap κ α,
      ((es.foldl (fun m e => m.insert e.1 e.2) m).get? k).isSome ↔
        k ∈ es.map Prod.fst ∨ (m.get? k).isSome by
    simpa using h empty
  induction es with
  | nil => simp
  | cons e es ih =>
      intro m
      rw [List.foldl_cons, ih, get?_insert]
      by_cases hk : k = e.1
      · simp [hk]
      · simp [hk]

/-- The keys of any of several maps, each once and in increasing order. -/
def unionKeys (ks : List κ) : List κ :=
  (ofList (ks.map fun k => (k, ()))).keys

@[simp] theorem mem_unionKeys (ks : List κ) (k : κ) : k ∈ unionKeys ks ↔ k ∈ ks := by
  unfold unionKeys
  rw [mem_keys_iff, get?_ofList_isSome]
  simp

theorem count_congr {p q : κ → α → Bool} {m : OrderedMap κ α}
    (h : ∀ k x, m.get? k = some x → p k x = q k x) : m.count p = m.count q :=
  List.countP_congr fun e he => by rw [h e.1 e.2 ((m.mem_entries_iff e.1 e.2).mp he)]

theorem count_eq_zero {p : κ → α → Bool} (h : ∀ k x, p k x = false) (m : OrderedMap κ α) :
    m.count p = 0 :=
  List.countP_eq_zero.mpr fun e _ => by simp [h]

/-- A count, split in two. -/
theorem count_eq_add (p q : κ → α → Bool) (m : OrderedMap κ α) :
    m.count q = (m.count fun k x => !p k x && q k x) + m.count fun k x => p k x && q k x := by
  unfold count
  induction m.entries with
  | nil => rfl
  | cons e es ih =>
      simp only [List.countP_cons] at ih ⊢
      cases hp : p e.1 e.2 with
      | true =>
          simp only [Bool.not_true, Bool.false_and, Bool.true_and, Bool.false_eq_true, if_false]
          omega
      | false =>
          simp only [Bool.not_false, Bool.false_and, Bool.true_and, Bool.false_eq_true, if_false]
          omega

/-- What a conditional update leaves to count. -/
theorem count_updateWhere (p q : κ → α → Bool) (f : α → α) (m : OrderedMap κ α) :
    (m.updateWhere p f).count q =
      (m.count fun k x => !p k x && q k x) + m.count fun k x => p k x && q k (f x) := by
  have hcount : (m.updateWhere p f).count q =
      m.count fun k x => q k (if p k x then f x else x) := by
    unfold count updateWhere mapValues Entries.mapValues
    rw [List.countP_map]
    rfl
  rw [hcount, count_eq_add p]
  congr 1
  · refine count_congr fun k x _ => ?_
    cases p k x <;> rfl
  · refine count_congr fun k x _ => ?_
    cases p k x <;> rfl

/-- A selection that pins the key counts at most that one row. -/
theorem count_key (m : OrderedMap κ α) (k : κ) (p : α → Bool) :
    (m.count fun l x => decide (l = k) && p x) = if (m.get? k).any p then 1 else 0 := by
  obtain ⟨es, hs⟩ := m
  unfold count get?
  induction es with
  | nil => rfl
  | cons e rest ih =>
      obtain ⟨k', y⟩ := e
      rw [List.countP_cons, ih (List.pairwise_cons.mp hs).2]
      by_cases hk : k = k'
      · subst hk
        simp [Entries.get?_cons, Entries.get?_tail_eq_none hs]
      · have hk' : ¬ k' = k := fun h => hk h.symm
        simp [Entries.get?_cons, hk, hk']

/-! ## Counting -/

/-- Keys whose rows a selection matches. -/
def selected (p : κ → α → Bool) (m : OrderedMap κ α) : List κ :=
  (m.entries.filter fun e => p e.1 e.2).map Prod.fst

theorem length_selected (p : κ → α → Bool) (m : OrderedMap κ α) :
    (m.selected p).length = m.count p := by
  rw [selected, List.length_map, count, List.countP_eq_length_filter]

theorem nodup_selected (p : κ → α → Bool) (m : OrderedMap κ α) : (m.selected p).Nodup := by
  rw [selected, List.Nodup, List.pairwise_map]
  exact (m.sorted.filter _).imp fun h => ne_of_lt h

theorem mem_selected {p : κ → α → Bool} {m : OrderedMap κ α} {k : κ} :
    k ∈ m.selected p ↔ ∃ x, m.get? k = some x ∧ p k x = true := by
  simp only [selected, List.mem_map, List.mem_filter]
  constructor
  · rintro ⟨⟨l, x⟩, ⟨hmem, hp⟩, rfl⟩
    exact ⟨x, (m.mem_entries_iff l x).mp hmem, hp⟩
  · rintro ⟨x, hx, hp⟩
    exact ⟨(k, x), ⟨(m.mem_entries_iff k x).mpr hx, hp⟩, rfl⟩

/-- A selection whose keys all occur in another one counts at most as many rows. -/
theorem count_le_count {m n : OrderedMap κ α} {p q : κ → α → Bool}
    (h : ∀ k x, m.get? k = some x → p k x = true → ∃ y, n.get? k = some y ∧ q k y = true) :
    m.count p ≤ n.count q := by
  rw [← length_selected, ← length_selected]
  apply List.Nodup.length_le_of_subset (nodup_selected p m)
  intro k hk
  obtain ⟨x, hx, hp⟩ := mem_selected.mp hk
  exact mem_selected.mpr (h k x hx hp)

/-- A new row is counted if the selection matches it. -/
theorem count_insert_of_absent {m : OrderedMap κ α} {k : κ} (hk : m.get? k = none) (x : α)
    (p : κ → α → Bool) : (m.insert k x).count p = m.count p + if p k x then 1 else 0 := by
  have hkey : ∀ n : OrderedMap κ α, (n.count fun l y => decide (l = k) && p l y) =
      n.count fun l y => decide (l = k) && p k y := by
    refine fun n => count_congr fun l y _ => ?_
    by_cases hl : l = k
    · rw [hl]
    · simp [hl]
  -- off the key `k` the two maps have the same rows
  have hoff : ((m.insert k x).count fun l y => !decide (l = k) && p l y) =
      m.count fun l y => !decide (l = k) && p l y := by
    apply le_antisymm
    · refine count_le_count fun l y hy hp => ⟨y, ?_, hp⟩
      rcases get?_insert_eq_some hy with ⟨rfl, -⟩ | ⟨-, hold⟩
      · simp at hp
      · exact hold
    · exact count_le_count fun l y hy hp => ⟨y, get?_insert_of_absent hk x hy, hp⟩
  rw [count_eq_add (fun l _ => decide (l = k)) p, count_eq_add (fun l _ => decide (l = k)) p m,
    hoff, hkey, hkey, count_key, count_key, hk]
  simp

/-- One row more than those off the key `k`, at most. -/
theorem count_le_count_ne (m : OrderedMap κ α) (p : κ → α → Bool) (k : κ) :
    m.count p ≤ (m.count fun l x => p l x && !decide (l = k)) + 1 := by
  rw [← length_selected, ← length_selected]
  have hsub : m.selected p ⊆ k :: m.selected fun l x => p l x && !decide (l = k) := by
    intro l hl
    obtain ⟨x, hx, hp⟩ := mem_selected.mp hl
    by_cases hlk : l = k
    · exact hlk ▸ List.mem_cons_self
    · exact List.mem_cons_of_mem _ (mem_selected.mpr ⟨x, hx, by simp [hp, hlk]⟩)
  exact List.Nodup.length_le_of_subset (nodup_selected p m) hsub

end OrderedMap

end Yorishiro.Lib
