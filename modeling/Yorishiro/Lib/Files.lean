import Mathlib.Logic.Function.Basic
import Mathlib.Tactic.SplitIfs

/-!
# Files of one file system

Names lead to inodes, and inodes have bytes. An open file is an inode: what is written to it goes
there whatever becomes of its name. A rename moves the inode to another name in one step, and
takes the place of what was there.
-/

set_option autoImplicit false

namespace Yorishiro.Lib.Files

variable {ν β : Type}

/-- The names, the bytes of each inode, and the first inode that has not been used. -/
structure Disk (ν β : Type) where
  names : ν → Option Nat
  bytes : Nat → List β
  next : Nat

namespace Disk

/-- What is read under a name. -/
def read (d : Disk ν β) (name : ν) : Option (List β) := (d.names name).map d.bytes

variable [DecidableEq ν]

/-- `unlink`. -/
def unlink (d : Disk ν β) (name : ν) : Disk ν β :=
  { d with names := Function.update d.names name none }

/-- Opens a file for writing, new or emptied. -/
def create (d : Disk ν β) (name : ν) : Nat × Disk ν β :=
  match d.names name with
  | some inode => (inode, { d with bytes := Function.update d.bytes inode [] })
  | none =>
      (d.next,
        { names := Function.update d.names name (some d.next)
          bytes := Function.update d.bytes d.next []
          next := d.next + 1 })

omit [DecidableEq ν] in
/-- Writes to an open file. -/
def append (d : Disk ν β) (inode : Nat) (more : List β) : Disk ν β :=
  { d with bytes := Function.update d.bytes inode (d.bytes inode ++ more) }

/-- `rename`, of a file that is there. -/
def rename (d : Disk ν β) (source target : ν) : Disk ν β :=
  match d.names source with
  | none => d
  | some inode =>
      { d with
        names := Function.update (Function.update d.names source none) target (some inode) }

/-- Each inode has one name at most, and has been used. -/
structure Sound (d : Disk ν β) : Prop where
  unique : ∀ name other inode, d.names name = some inode → d.names other = some inode → name = other
  used : ∀ name inode, d.names name = some inode → inode < d.next

variable {d : Disk ν β} {name other : ν} {inode : Nat}

/-! ## What an operation leaves -/

theorem unlink_eq_some (h : (d.unlink name).names other = some inode) :
    other ≠ name ∧ d.names other = some inode := by
  by_cases hother : other = name
  · subst hother
    simp [unlink] at h
  · exact ⟨hother, by simpa [unlink, Function.update_of_ne hother] using h⟩

theorem create_self (d : Disk ν β) (name : ν) :
    (d.create name).2.names name = some (d.create name).1 := by
  unfold create
  split
  · rename_i inode h
    exact h
  · simp

theorem create_bytes_self (d : Disk ν β) (name : ν) :
    (d.create name).2.bytes (d.create name).1 = [] := by
  unfold create
  split
  · simp
  · simp

theorem create_eq_some (h : (d.create name).2.names other = some inode) :
    other = name ∨ d.names other = some inode := by
  by_cases hother : other = name
  · exact .inl hother
  · right
    unfold create at h
    split at h
    · exact h
    · simpa [Function.update_of_ne hother] using h

theorem create_names_of_ne (d : Disk ν β) (hne : other ≠ name) :
    (d.create name).2.names other = d.names other := by
  unfold create
  split
  · rfl
  · simp [Function.update_of_ne hne]

theorem create_bytes_of_ne (d : Disk ν β) (hne : inode ≠ (d.create name).1) :
    (d.create name).2.bytes inode = d.bytes inode := by
  unfold create at hne ⊢
  split
  · rename_i i h
    simp only [h] at hne
    simp [Function.update_of_ne hne]
  · rename_i h
    simp only [h] at hne
    simp [Function.update_of_ne hne]

/-- The inode of a created file is that of its name, or new. -/
theorem create_fst (d : Disk ν β) (name : ν) :
    d.names name = some (d.create name).1 ∨ (d.names name = none ∧ (d.create name).1 = d.next) := by
  unfold create
  split
  · rename_i inode h
    exact .inl h
  · rename_i h
    exact .inr ⟨h, rfl⟩

theorem create_next (d : Disk ν β) (name : ν) : d.next ≤ (d.create name).2.next := by
  unfold create
  split
  · exact Nat.le_refl _
  · exact Nat.le_succ _

theorem create_fst_lt (h : d.Sound) (name : ν) : (d.create name).1 < (d.create name).2.next := by
  unfold create
  split
  · rename_i inode hname
    exact h.used name inode hname
  · exact Nat.lt_succ_self _

theorem rename_eq_some {source target : ν} {moved : Nat} (hmoved : d.names source = some moved)
    (h : (d.rename source target).names name = some inode) :
    (name = target ∧ inode = moved) ∨
      (name ≠ target ∧ name ≠ source ∧ d.names name = some inode) := by
  simp only [rename, hmoved] at h
  by_cases htarget : name = target
  · subst htarget
    left
    simpa [eq_comm] using h
  · rw [Function.update_of_ne htarget] at h
    by_cases hsource : name = source
    · subst hsource
      simp at h
    · rw [Function.update_of_ne hsource] at h
      exact .inr ⟨htarget, hsource, h⟩

theorem rename_bytes (d : Disk ν β) (source target : ν) :
    (d.rename source target).bytes = d.bytes := by
  unfold rename
  split
  · rfl
  · rfl

theorem rename_next (d : Disk ν β) (source target : ν) :
    (d.rename source target).next = d.next := by
  unfold rename
  split
  · rfl
  · rfl

/-! ## Every inode keeps one name -/

theorem Sound.unlink (h : d.Sound) (name : ν) : (d.unlink name).Sound where
  unique := fun a b i ha hb => h.unique a b i (unlink_eq_some ha).2 (unlink_eq_some hb).2
  used := fun a i ha => h.used a i (unlink_eq_some ha).2

omit [DecidableEq ν] in
theorem Sound.append (h : d.Sound) (inode : Nat) (more : List β) : (d.append inode more).Sound where
  unique := h.unique
  used := h.used

theorem Sound.create (h : d.Sound) (name : ν) : (d.create name).2.Sound where
  unique := fun a b i ha hb => by
    by_cases hab : a = b
    · exact hab
    · -- one of the two is the name that was there before
      have key : ∀ c, c ≠ name → (d.create name).2.names c = some i →
          (d.create name).2.names name = some i → c = name := by
        intro c hc hci hnamei
        rw [create_self] at hnamei
        rw [create_names_of_ne d hc] at hci
        obtain rfl := Option.some.inj hnamei
        rcases create_fst d name with hfst | ⟨-, hfst⟩
        · exact h.unique c name _ hci hfst
        · have hlt := h.used c _ hci
          rw [hfst] at hlt
          exact absurd hlt (Nat.lt_irrefl _)
      by_cases ha' : a = name
      · subst ha'
        exact (key b (fun hb' => hab hb'.symm) hb ha).symm
      · by_cases hb' : b = name
        · subst hb'
          exact key a ha' ha hb
        · rw [create_names_of_ne d ha'] at ha
          rw [create_names_of_ne d hb'] at hb
          exact h.unique a b i ha hb
  used := fun a i ha => by
    by_cases ha' : a = name
    · subst ha'
      rw [create_self] at ha
      obtain rfl := Option.some.inj ha
      exact create_fst_lt h a
    · rw [create_names_of_ne d ha'] at ha
      exact Nat.lt_of_lt_of_le (h.used a i ha) (create_next d name)

theorem Sound.rename (h : d.Sound) (source target : ν) : (d.rename source target).Sound := by
  cases hmoved : d.names source with
  | none =>
      have hsame : d.rename source target = d := by simp only [Disk.rename, hmoved]
      rw [hsame]
      exact h
  | some moved =>
      refine { unique := fun a b i ha hb => ?_, used := fun a i ha => ?_ }
      · rcases rename_eq_some hmoved ha with ⟨hat, hai⟩ | ⟨hat, has, hold⟩
        · rcases rename_eq_some hmoved hb with ⟨hbt, -⟩ | ⟨-, hbs, hold'⟩
          · exact hat.trans hbt.symm
          · subst hai
            exact absurd (h.unique b source _ hold' hmoved) hbs
        · rcases rename_eq_some hmoved hb with ⟨-, hbi⟩ | ⟨-, -, hold'⟩
          · subst hbi
            exact absurd (h.unique a source _ hold hmoved) has
          · exact h.unique a b i hold hold'
      · rw [rename_next]
        rcases rename_eq_some hmoved ha with ⟨-, rfl⟩ | ⟨-, -, ha⟩
        · exact h.used source _ hmoved
        · exact h.used a i ha

end Disk

end Yorishiro.Lib.Files
