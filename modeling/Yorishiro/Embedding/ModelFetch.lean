import Yorishiro.Lib.Files
import Yorishiro.Lib.Transition

/-!
# Fetching the local model

On its first use the local embedding provider downloads its files into a directory that several
processes may share. A file is streamed into one staged under the process's pid and a nonce,
its length and digest are checked on the way, and it is renamed into place. Meanwhile other
processes fetch the same file, remove a cached one of the wrong size, sweep staged files that
look abandoned, and die. Processes that are alive at one time have different pids: those of two
containers that share the directory might not.

`destination_verified` is what the fetch is written for: in every interleaving, whoever finds a
file in place reads one that has passed both checks, or the one that was there at the start.
-/

set_option autoImplicit false

namespace Yorishiro.Embedding.ModelFetch

open Yorishiro.Lib Yorishiro.Lib.Transition
open Yorishiro.Lib.Files (Disk)

variable {α : Type} [DecidableEq α]

/-! ## Artifacts and names -/

/-- What a file is checked against. -/
structure Artifact where
  sha256 : String
  size : Nat
deriving DecidableEq, Repr

/-- The names in the directory: a file in its place, one staged by a process, and others. -/
inductive FileName (α : Type) where
  | place (artifact : α)
  | staged (artifact : α) (pid nonce : Nat)
  | other (name : String)
deriving DecidableEq

/-- The files that the provider uses and the digest of a file, in hexadecimal. -/
structure Model (α : Type) where
  artifact : α → Artifact
  sha256 : List UInt8 → String

/-- The bytes pass the checks of `download_verified`. -/
def Model.verified (model : Model α) (artifact : α) (bytes : List UInt8) : Bool :=
  decide (bytes.length = (model.artifact artifact).size) &&
    decide (model.sha256 bytes = (model.artifact artifact).sha256)

/-- The name of a file that `sweep_stale_partials` looks at. -/
def FileName.isStagedFor (artifact : α) : FileName α → Bool
  | .staged a _ _ => decide (a = artifact)
  | _ => false

/-- `sweep_stale_partials`: removes the staged files of the artifact that look abandoned. -/
def sweepStalePartials (disk : Disk (FileName α) UInt8) (artifact : α)
    (stale : List (FileName α)) : Disk (FileName α) UInt8 :=
  (stale.filter (FileName.isStagedFor artifact)).foldl Disk.unlink disk

/-! ## A fetch -/

/-- Where a fetch stands in `ensure_file_with_client`. -/
inductive Phase (α : Type) where
  | idle
  /-- The file is in its place. -/
  | found (artifact : α)
  /-- It is, with another size. -/
  | wrongSize (artifact : α)
  /-- It is not, or not any more. -/
  | absent (artifact : α)
  /-- The staged file has its name, and the file is requested. -/
  | requesting (artifact : α) (nonce : Nat)
  /-- The staged file is open, and `received` has been hashed and written. -/
  | streaming (artifact : α) (nonce inode : Nat) (received : List UInt8)
  /-- The download has failed. -/
  | failed (artifact : α) (nonce : Nat)
  /-- The download is closed and verified. -/
  | downloaded (artifact : α) (nonce inode : Nat)
deriving DecidableEq

/-- The directory, the fetches, by the pid of their process and a number in it, and
`NEXT_STAGING_NONCE` of each process. -/
structure World (α : Type) where
  disk : Disk (FileName α) UInt8
  fetches : Nat × Nat → Phase α
  nonces : Nat → Nat

/-- What happens next to a fetch. -/
inductive Event (α : Type) where
  /-- Looks whether the file is there. -/
  | ensure (artifact : α)
  /-- Reads its size. -/
  | stat (readable : Bool)
  /-- Removes it. -/
  | remove (removed : Bool)
  /-- Makes the directory, sweeps it, and names the staged file. -/
  | prepare (made : Bool) (stale : List (FileName α))
  /-- The server answers, and the staged file is created. -/
  | respond (success : Bool)
  /-- A chunk arrives; when it cannot be written, part of it may be. -/
  | chunk (bytes : List UInt8) (written : Bool) (part : Nat)
  /-- The stream ends, or breaks. -/
  | finish (ended : Bool)
  /-- Removes the staged file of a failed download. -/
  | cleanUp (removed : Bool)
  /-- Moves the staged file into place, or removes it. -/
  | move (moved removed : Bool)

/-- A fetch goes on, or a process dies and another one gets its pid. -/
inductive Label (α : Type) where
  | fetch (fetch : Nat × Nat) (event : Event α)
  | crash (pid : Nat)

/-- The directory, the phase and the nonce after a step of a fetch. -/
structure Next (α : Type) where
  disk : Disk (FileName α) UInt8
  phase : Phase α
  nonce : Nat

section Steps

variable (model : Model α)

/-- `remove_file` of a staged file, which may fail. -/
def removeStaged (removed : Bool) (disk : Disk (FileName α) UInt8) (artifact : α)
    (pid nonce : Nat) : Disk (FileName α) UInt8 :=
  if removed then disk.unlink (.staged artifact pid nonce) else disk

/-- The next step of a fetch in the process `pid`. An event that does not come next in its phase
changes nothing. -/
def advance (disk : Disk (FileName α) UInt8) (pid nonce : Nat) (phase : Phase α) :
    Event α → Next α
  | .ensure a =>
      match phase with
      | .idle => ⟨disk, if (disk.names (.place a)).isSome then .found a else .absent a, nonce⟩
      | _ => ⟨disk, phase, nonce⟩
  | .stat readable =>
      match phase with
      | .found a =>
          match readable, disk.read (.place a) with
          | true, some bytes =>
              -- the size is checked, and deliberately not the digest
              ⟨disk, if bytes.length = (model.artifact a).size then .idle else .wrongSize a, nonce⟩
          | _, _ => ⟨disk, .idle, nonce⟩
      | _ => ⟨disk, phase, nonce⟩
  | .remove removed =>
      match phase with
      | .wrongSize a =>
          if removed && (disk.names (.place a)).isSome then
            ⟨disk.unlink (.place a), .absent a, nonce⟩
          else ⟨disk, .idle, nonce⟩
      | _ => ⟨disk, phase, nonce⟩
  | .prepare made stale =>
      match phase with
      | .absent a =>
          if made then ⟨sweepStalePartials disk a stale, .requesting a nonce, nonce + 1⟩
          else ⟨disk, .idle, nonce⟩
      | _ => ⟨disk, phase, nonce⟩
  | .respond success =>
      match phase with
      | .requesting a n =>
          if success then
            ⟨(disk.create (.staged a pid n)).2,
              .streaming a n (disk.create (.staged a pid n)).1 [], nonce⟩
          else ⟨disk, .failed a n, nonce⟩
      | _ => ⟨disk, phase, nonce⟩
  | .chunk bytes written part =>
      match phase with
      | .streaming a n inode received =>
          if written then
            ⟨disk.append inode bytes, .streaming a n inode (received ++ bytes), nonce⟩
          else ⟨disk.append inode (bytes.take part), .failed a n, nonce⟩
      | _ => ⟨disk, phase, nonce⟩
  | .finish ended =>
      match phase with
      | .streaming a n inode received =>
          -- the digest is of what was received, not of what the file has now
          if ended && model.verified a received then ⟨disk, .downloaded a n inode, nonce⟩
          else ⟨disk, .failed a n, nonce⟩
      | _ => ⟨disk, phase, nonce⟩
  | .cleanUp removed =>
      match phase with
      | .failed a n => ⟨removeStaged removed disk a pid n, .idle, nonce⟩
      | _ => ⟨disk, phase, nonce⟩
  | .move moved removed =>
      match phase with
      | .downloaded a n _ =>
          if moved then ⟨disk.rename (.staged a pid n) (.place a), .idle, nonce⟩
          else ⟨removeStaged removed disk a pid n, .idle, nonce⟩
      | _ => ⟨disk, phase, nonce⟩

omit [DecidableEq α] in
/-- The world after a step of a fetch. -/
def World.setFetch (w : World α) (fetch : Nat × Nat) (next : Next α) : World α where
  disk := next.disk
  fetches := Function.update w.fetches fetch next.phase
  nonces := Function.update w.nonces fetch.1 next.nonce

/-- A step of the world. -/
def step (w : World α) : Label α → World α
  | .fetch fetch event =>
      w.setFetch fetch
        (advance model w.disk fetch.1 (w.nonces fetch.1) (w.fetches fetch) event)
  | .crash pid =>
      { w with
        fetches := fun fetch => if fetch.1 = pid then .idle else w.fetches fetch
        nonces := Function.update w.nonces pid 0 }

/-- No fetch has done anything yet. -/
def World.start (disk : Disk (FileName α) UInt8) : World α where
  disk := disk
  fetches := fun _ => .idle
  nonces := fun _ => 0

end Steps

/-! ## What every fetch keeps -/

/-- The nonce of a fetch that has named its staged file. -/
def Phase.staging : Phase α → Option Nat
  | .requesting _ nonce | .streaming _ nonce _ _ | .failed _ nonce | .downloaded _ nonce _ =>
      some nonce
  | _ => none

/-- The inode that a fetch writes, or is about to move, and its name. -/
def Phase.opened (pid : Nat) : Phase α → Option (FileName α × Nat)
  | .streaming a nonce inode _ => some (.staged a pid nonce, inode)
  | .downloaded a nonce inode => some (.staged a pid nonce, inode)
  | _ => none

/-- What a fetch knows of the inode it has opened: nothing else leads there than its staged
name, which leads nowhere else, and its bytes are what has been received. -/
structure Owned (disk : Disk (FileName α) UInt8) (name : FileName α) (inode : Nat)
    (bytes : List UInt8 → Prop) : Prop where
  used : inode < disk.next
  named : ∀ other, disk.names other = some inode → other = name
  leads : ∀ other, disk.names name = some other → other = inode
  bytes : bytes (disk.bytes inode)

/-- The fetch has opened no file, or owns the one it has opened. -/
def Phase.Sound (model : Model α) (disk : Disk (FileName α) UInt8) (pid : Nat) : Phase α → Prop
  | .streaming a nonce inode received =>
      Owned disk (.staged a pid nonce) inode fun bytes => bytes = received
  | .downloaded a nonce inode =>
      Owned disk (.staged a pid nonce) inode fun bytes => model.verified a bytes = true
  | _ => True

/-- What an operation leaves to the owner of a name and its inode. -/
structure Spares (disk disk' : Disk (FileName α) UInt8) (name : FileName α) (inode : Nat) :
    Prop where
  next : disk.next ≤ disk'.next
  named : ∀ other, disk'.names other = some inode → disk.names other = some inode
  leads : ∀ other, disk'.names name = some other → disk.names name = some other
  bytes : disk'.bytes inode = disk.bytes inode

/-- Every file in place is verified, or the one that was there at the start. -/
def Placed (model : Model α) (start disk : Disk (FileName α) UInt8) : Prop :=
  ∀ a inode, disk.names (.place a) = some inode →
    model.verified a (disk.bytes inode) = true ∨ start.read (.place a) = some (disk.bytes inode)

/-- Each fetch has a nonce of its own in its process, owns what it has opened, and no two have
opened the same inode. -/
structure World.Sound (model : Model α) (start : Disk (FileName α) UInt8) (w : World α) :
    Prop where
  disk : w.disk.Sound
  placed : Placed model start w.disk
  phase : ∀ fetch, (w.fetches fetch).Sound model w.disk fetch.1
  fresh : ∀ fetch nonce, (w.fetches fetch).staging = some nonce → nonce < w.nonces fetch.1
  nonces : ∀ fetch other nonce, fetch.1 = other.1 → (w.fetches fetch).staging = some nonce →
    (w.fetches other).staging = some nonce → fetch = other
  apart : ∀ fetch other name name' inode, (w.fetches fetch).opened fetch.1 = some (name, inode) →
    (w.fetches other).opened other.1 = some (name', inode) → fetch = other

section Operations

variable {model : Model α} {start disk disk' : Disk (FileName α) UInt8} {name other : FileName α}
  {inode : Nat} {bytes : List UInt8 → Prop}

omit [DecidableEq α] in
theorem Spares.refl (disk : Disk (FileName α) UInt8) (name : FileName α) (inode : Nat) :
    Spares disk disk name inode :=
  ⟨Nat.le_refl _, fun _ h => h, fun _ h => h, rfl⟩

omit [DecidableEq α] in
theorem Spares.trans {disk'' : Disk (FileName α) UInt8} (h : Spares disk disk' name inode)
    (h' : Spares disk' disk'' name inode) : Spares disk disk'' name inode where
  next := Nat.le_trans h.next h'.next
  named := fun other hother => h.named other (h'.named other hother)
  leads := fun other hother => h.leads other (h'.leads other hother)
  bytes := h'.bytes.trans h.bytes

omit [DecidableEq α] in
theorem Owned.spared (h : Owned disk name inode bytes) (hspares : Spares disk disk' name inode) :
    Owned disk' name inode bytes where
  used := Nat.lt_of_lt_of_le h.used hspares.next
  named := fun other hother => h.named other (hspares.named other hother)
  leads := fun other hother => h.leads other (hspares.leads other hother)
  bytes := hspares.bytes.symm ▸ h.bytes

/-! ### The phase of a fetch -/

variable {phase : Phase α} {pid : Nat}

omit [DecidableEq α] in
theorem Phase.opened_eq_some (h : phase.opened pid = some (name, inode)) :
    ∃ a nonce, name = .staged a pid nonce ∧ phase.staging = some nonce := by
  cases phase with
  | streaming a nonce i received =>
      cases h
      exact ⟨a, nonce, rfl, rfl⟩
  | downloaded a nonce i =>
      cases h
      exact ⟨a, nonce, rfl, rfl⟩
  | idle => cases h
  | found a => cases h
  | wrongSize a => cases h
  | absent a => cases h
  | requesting a nonce => cases h
  | failed a nonce => cases h

omit [DecidableEq α] in
theorem Phase.Sound.owned (h : phase.Sound model disk pid)
    (hopened : phase.opened pid = some (name, inode)) : ∃ bytes, Owned disk name inode bytes := by
  cases phase with
  | streaming a nonce i received =>
      cases hopened
      exact ⟨_, h⟩
  | downloaded a nonce i =>
      cases hopened
      exact ⟨_, h⟩
  | idle => cases hopened
  | found a => cases hopened
  | wrongSize a => cases hopened
  | absent a => cases hopened
  | requesting a nonce => cases hopened
  | failed a nonce => cases hopened

omit [DecidableEq α] in
theorem Phase.Sound.spared (h : phase.Sound model disk pid)
    (hspares : ∀ name inode, phase.opened pid = some (name, inode) →
      Spares disk disk' name inode) : phase.Sound model disk' pid := by
  cases phase with
  | streaming a nonce i received => exact Owned.spared h (hspares _ _ rfl)
  | downloaded a nonce i => exact Owned.spared h (hspares _ _ rfl)
  | idle => trivial
  | found a => trivial
  | wrongSize a => trivial
  | absent a => trivial
  | requesting a nonce => trivial
  | failed a nonce => trivial

omit [DecidableEq α] in
theorem Phase.sound_of_opened_none (h : phase.opened pid = none) :
    phase.Sound model disk pid := by
  cases phase with
  | streaming a nonce i received => cases h
  | downloaded a nonce i => cases h
  | idle => trivial
  | found a => trivial
  | wrongSize a => trivial
  | absent a => trivial
  | requesting a nonce => trivial
  | failed a nonce => trivial

/-! ### Removing a name -/

theorem spares_unlink (disk : Disk (FileName α) UInt8) (removed name : FileName α) (inode : Nat) :
    Spares disk (disk.unlink removed) name inode where
  next := Nat.le_refl _
  named := fun _ h => (Disk.unlink_eq_some h).2
  leads := fun _ h => (Disk.unlink_eq_some h).2
  bytes := rfl

theorem placed_unlink (h : Placed model start disk) (removed : FileName α) :
    Placed model start (disk.unlink removed) :=
  fun a inode hinode => h a inode (Disk.unlink_eq_some hinode).2

/-! ### Writing to an open file -/

omit [DecidableEq α] in
theorem spares_append (disk : Disk (FileName α) UInt8) (name : FileName α) {written : Nat}
    (hne : inode ≠ written) (more : List UInt8) :
    Spares disk (disk.append written more) name inode where
  next := Nat.le_refl _
  named := fun _ h => h
  leads := fun _ h => h
  bytes := by simp [Disk.append, Function.update_of_ne hne]

omit [DecidableEq α] in
theorem placed_append (h : Placed model start disk) (howned : Owned disk name inode bytes)
    (hname : ∀ a, name ≠ .place a) (more : List UInt8) :
    Placed model start (disk.append inode more) := by
  intro a j hj
  have hne : j ≠ inode := by
    rintro rfl
    exact hname a (howned.named _ hj).symm
  have hbytes : (disk.append inode more).bytes j = disk.bytes j := by
    simp [Disk.append, Function.update_of_ne hne]
  rw [hbytes]
  exact h a j hj

omit [DecidableEq α] in
theorem owned_append {received : List UInt8}
    (h : Owned disk name inode fun bytes => bytes = received) (more : List UInt8) :
    Owned (disk.append inode more) name inode fun bytes => bytes = received ++ more where
  used := h.used
  named := h.named
  leads := h.leads
  bytes := by
    rw [← h.bytes]
    simp [Disk.append]

/-! ### Creating a staged file -/

/-- The inode of another owner is not that of a name that is created. -/
theorem create_ne (h : Owned disk other inode bytes) (hne : name ≠ other) :
    inode ≠ (disk.create name).1 := by
  rintro rfl
  rcases Disk.create_fst disk name with hfst | ⟨-, hfst⟩
  · exact hne (h.named name hfst)
  · have hlt := h.used
    rw [hfst] at hlt
    exact absurd hlt (Nat.lt_irrefl _)

theorem spares_create (h : Owned disk other inode bytes) (hne : name ≠ other) :
    Spares disk (disk.create name).2 other inode where
  next := Disk.create_next disk name
  named := fun a ha => by
    rcases Disk.create_eq_some ha with rfl | ha'
    · rw [Disk.create_self] at ha
      exact absurd (Option.some.inj ha).symm (create_ne h hne)
    · exact ha'
  leads := fun a ha => by rwa [Disk.create_names_of_ne disk hne.symm] at ha
  bytes := Disk.create_bytes_of_ne disk (create_ne h hne)

theorem owned_create (h : disk.Sound) (name : FileName α) :
    Owned (disk.create name).2 name (disk.create name).1 fun bytes => bytes = [] where
  used := Disk.create_fst_lt h name
  named := fun a ha => (h.create name).unique a name _ ha (Disk.create_self disk name)
  leads := fun i hi => by
    rw [Disk.create_self] at hi
    exact (Option.some.inj hi).symm
  bytes := Disk.create_bytes_self disk name

theorem placed_create (h : Placed model start disk) (hdisk : disk.Sound)
    (hname : ∀ a, name ≠ .place a) : Placed model start (disk.create name).2 := by
  intro a j hj
  have hold : disk.names (.place a) = some j := by
    rwa [Disk.create_names_of_ne disk (hname a).symm] at hj
  have hne : j ≠ (disk.create name).1 := by
    rintro rfl
    exact hname a ((hdisk.create name).unique _ _ _ (Disk.create_self disk name) hj)
  rw [Disk.create_bytes_of_ne disk hne]
  exact h a j hold

/-! ### Moving a staged file into place -/

theorem spares_rename {source target : FileName α} (h : Owned disk other inode bytes)
    (hsource : source ≠ other) (htarget : target ≠ other) :
    Spares disk (disk.rename source target) other inode where
  next := Nat.le_of_eq (Disk.rename_next disk source target).symm
  named := fun a ha => by
    cases hmoved : disk.names source with
    | none => simpa only [Disk.rename, hmoved] using ha
    | some moved =>
        rcases Disk.rename_eq_some hmoved ha with ⟨-, rfl⟩ | ⟨-, -, ha'⟩
        · exact absurd (h.named source hmoved) hsource
        · exact ha'
  leads := fun a ha => by
    cases hmoved : disk.names source with
    | none => simpa only [Disk.rename, hmoved] using ha
    | some moved =>
        rcases Disk.rename_eq_some hmoved ha with ⟨heq, -⟩ | ⟨-, -, ha'⟩
        · exact absurd heq.symm htarget
        · exact ha'
  bytes := by rw [Disk.rename_bytes]

/-- A verified file is moved into its place. -/
theorem placed_rename {a : α} (h : Placed model start disk)
    (howned : Owned disk name inode fun bytes => model.verified a bytes = true) :
    Placed model start (disk.rename name (.place a)) := by
  intro b j hj
  cases hmoved : disk.names name with
  | none =>
      have hsame : disk.rename name (.place a) = disk := by simp only [Disk.rename, hmoved]
      rw [hsame] at hj ⊢
      exact h b j hj
  | some moved =>
      rw [Disk.rename_bytes]
      rcases Disk.rename_eq_some hmoved hj with ⟨hplace, rfl⟩ | ⟨-, -, hold⟩
      · cases hplace
        obtain rfl := howned.leads _ hmoved
        exact .inl howned.bytes
      · exact h b j hold

end Operations

/-! ## What every step keeps -/

variable {model : Model α} {start : Disk (FileName α) UInt8} {w : World α} {fetch : Nat × Nat}
  {next : Next α}

/-- What a step of a fetch owes the others. -/
structure Advanced (model : Model α) (start : Disk (FileName α) UInt8) (w : World α)
    (fetch : Nat × Nat) (next : Next α) : Prop where
  disk : next.disk.Sound
  placed : Placed model start next.disk
  phase : next.phase.Sound model next.disk fetch.1
  nonce : w.nonces fetch.1 ≤ next.nonce
  staging : ∀ nonce, next.phase.staging = some nonce → nonce < next.nonce ∧
    ((w.fetches fetch).staging = some nonce ∨ nonce = w.nonces fetch.1)
  spares : ∀ other name inode, other ≠ fetch →
    (w.fetches other).opened other.1 = some (name, inode) → Spares w.disk next.disk name inode
  apart : ∀ other name name' inode, other ≠ fetch →
    (w.fetches other).opened other.1 = some (name, inode) →
      next.phase.opened fetch.1 ≠ some (name', inode)

theorem sweep_induction {P : Disk (FileName α) UInt8 → Prop} {disk : Disk (FileName α) UInt8}
    (h : P disk) (artifact : α)
    (hunlink : ∀ d a pid nonce, P d → P (d.unlink (.staged a pid nonce)))
    (stale : List (FileName α)) : P (sweepStalePartials disk artifact stale) := by
  unfold sweepStalePartials
  induction stale generalizing disk with
  | nil => exact h
  | cons name stale ih =>
      rw [List.filter_cons]
      split_ifs with hname
      · cases name with
        | staged a pid nonce => exact ih (hunlink disk a pid nonce h)
        | place a => cases hname
        | other name => cases hname
      · exact ih h

omit [DecidableEq α] in
theorem World.Sound.setFetch (h : w.Sound model start)
    (hnext : Advanced model start w fetch next) : (w.setFetch fetch next).Sound model start where
  disk := hnext.disk
  placed := hnext.placed
  phase := fun other => by
    by_cases hother : other = fetch
    · subst hother
      simpa [World.setFetch] using hnext.phase
    · simp only [World.setFetch, Function.update_of_ne hother]
      exact (h.phase other).spared fun name inode => hnext.spares other name inode hother
  fresh := fun other nonce hstaging => by
    by_cases hother : other = fetch
    · subst hother
      simp only [World.setFetch, Function.update_self] at hstaging ⊢
      exact (hnext.staging nonce hstaging).1
    · simp only [World.setFetch, Function.update_of_ne hother] at hstaging ⊢
      have hlt := h.fresh other nonce hstaging
      by_cases hpid : other.1 = fetch.1
      · rw [hpid, Function.update_self]
        exact Nat.lt_of_lt_of_le (hpid ▸ hlt) hnext.nonce
      · rwa [Function.update_of_ne hpid]
  nonces := fun a b nonce hpid ha hb => by
    -- a nonce that the fetch has now was its own, or is greater than every other
    have key : ∀ c, c ≠ fetch → c.1 = fetch.1 → (w.fetches c).staging = some nonce →
        next.phase.staging ≠ some nonce := by
      intro c hc hcpid hcstaging hstaging
      rcases (hnext.staging nonce hstaging).2 with hold | rfl
      · exact hc (h.nonces c fetch nonce hcpid hcstaging hold)
      · have hlt := h.fresh c _ hcstaging
        rw [hcpid] at hlt
        exact absurd hlt (Nat.lt_irrefl _)
    by_cases ha' : a = fetch
    · by_cases hb' : b = fetch
      · exact ha'.trans hb'.symm
      · subst ha'
        simp only [World.setFetch, Function.update_self, Function.update_of_ne hb'] at ha hb
        exact absurd ha (key b hb' hpid.symm hb)
    · by_cases hb' : b = fetch
      · subst hb'
        simp only [World.setFetch, Function.update_self, Function.update_of_ne ha'] at ha hb
        exact absurd hb (key a ha' hpid ha)
      · simp only [World.setFetch, Function.update_of_ne ha', Function.update_of_ne hb'] at ha hb
        exact h.nonces a b nonce hpid ha hb
  apart := fun a b name name' inode ha hb => by
    by_cases ha' : a = fetch
    · by_cases hb' : b = fetch
      · exact ha'.trans hb'.symm
      · subst ha'
        simp only [World.setFetch, Function.update_self, Function.update_of_ne hb'] at ha hb
        exact absurd ha (hnext.apart b name' name inode hb' hb)
    · by_cases hb' : b = fetch
      · subst hb'
        simp only [World.setFetch, Function.update_self, Function.update_of_ne ha'] at ha hb
        exact absurd hb (hnext.apart a name name' inode ha' ha)
      · simp only [World.setFetch, Function.update_of_ne ha', Function.update_of_ne hb'] at ha hb
        exact h.apart a b name name' inode ha hb

/-! ### The steps of a fetch -/

omit [DecidableEq α] in
theorem Advanced.stays (h : w.Sound model start) (fetch : Nat × Nat) :
    Advanced model start w fetch ⟨w.disk, w.fetches fetch, w.nonces fetch.1⟩ where
  disk := h.disk
  placed := h.placed
  phase := h.phase fetch
  nonce := Nat.le_refl _
  staging := fun nonce hnonce => ⟨h.fresh fetch nonce hnonce, .inl hnonce⟩
  spares := fun _ _ _ _ _ => Spares.refl _ _ _
  apart := fun other name name' inode hne hother hfetch =>
    hne (h.apart other fetch name name' inode hother hfetch)

omit [DecidableEq α] in
/-- A fetch that has nothing open after its step. -/
theorem Advanced.of_closed {disk : Disk (FileName α) UInt8} {phase : Phase α} {nonce : Nat}
    (hopened : phase.opened fetch.1 = none) (hdisk : disk.Sound) (hplaced : Placed model start disk)
    (hnonce : w.nonces fetch.1 ≤ nonce)
    (hstaging : ∀ n, phase.staging = some n → n < nonce ∧
      ((w.fetches fetch).staging = some n ∨ n = w.nonces fetch.1))
    (hspares : ∀ other name inode, other ≠ fetch →
      (w.fetches other).opened other.1 = some (name, inode) → Spares w.disk disk name inode) :
    Advanced model start w fetch ⟨disk, phase, nonce⟩ where
  disk := hdisk
  placed := hplaced
  phase := Phase.sound_of_opened_none hopened
  nonce := hnonce
  staging := hstaging
  spares := hspares
  apart := fun _ _ _ _ _ _ hsome => by
    rw [hopened] at hsome
    cases hsome

omit [DecidableEq α] in
/-- A fetch that has nothing open after its step, has no new nonce, and leaves the directory. -/
theorem Advanced.of_idle (h : w.Sound model start) {phase : Phase α}
    (hopened : phase.opened fetch.1 = none)
    (hstaging : ∀ n, phase.staging = some n → (w.fetches fetch).staging = some n) :
    Advanced model start w fetch ⟨w.disk, phase, w.nonces fetch.1⟩ :=
  Advanced.of_closed hopened h.disk h.placed (Nat.le_refl _)
    (fun n hn => ⟨h.fresh fetch n (hstaging n hn), .inl (hstaging n hn)⟩)
    (fun _ _ _ _ _ => Spares.refl _ _ _)

omit [DecidableEq α] in
/-- The staged name of a fetch is not the one that another has opened. -/
theorem World.Sound.staged_ne (h : w.Sound model start) {other : Nat × Nat} {name : FileName α}
    {inode nonce : Nat} (hne : other ≠ fetch)
    (hopened : (w.fetches other).opened other.1 = some (name, inode))
    (hstaging : (w.fetches fetch).staging = some nonce) (a : α) :
    FileName.staged a fetch.1 nonce ≠ name := by
  intro hname
  obtain ⟨b, n, rfl, hother⟩ := Phase.opened_eq_some hopened
  injection hname with _ hpid hnonce
  subst hnonce
  exact hne (h.nonces other fetch nonce hpid.symm hother hstaging)

omit [DecidableEq α] in
theorem World.Sound.owned (h : w.Sound model start) {other : Nat × Nat} {name : FileName α}
    {inode : Nat} (hopened : (w.fetches other).opened other.1 = some (name, inode)) :
    ∃ bytes, Owned w.disk name inode bytes :=
  (h.phase other).owned hopened

theorem advanced_prepare (h : w.Sound model start) (a : α) (stale : List (FileName α)) :
    Advanced model start w fetch
      ⟨sweepStalePartials w.disk a stale, .requesting a (w.nonces fetch.1),
        w.nonces fetch.1 + 1⟩ := by
  refine Advanced.of_closed rfl ?_ ?_ (Nat.le_succ _) ?_ ?_
  · exact sweep_induction h.disk a (fun d a pid nonce hd => hd.unlink _) stale
  · exact sweep_induction h.placed a (fun d a pid nonce hd => placed_unlink hd _) stale
  · intro nonce hnonce
    obtain rfl := Option.some.inj hnonce
    exact ⟨Nat.lt_succ_self _, .inr rfl⟩
  · intro other name inode _ _
    refine sweep_induction (P := fun d => Spares w.disk d name inode) (Spares.refl _ _ _) a ?_ stale
    intro d b pid nonce hd
    exact hd.trans (spares_unlink d _ name inode)

theorem advanced_respond (h : w.Sound model start) {a : α} {nonce : Nat}
    (hphase : w.fetches fetch = .requesting a nonce) :
    Advanced model start w fetch
      ⟨(w.disk.create (.staged a fetch.1 nonce)).2,
        .streaming a nonce (w.disk.create (.staged a fetch.1 nonce)).1 [], w.nonces fetch.1⟩ := by
  have hstaging : (w.fetches fetch).staging = some nonce := by rw [hphase]; rfl
  exact {
    disk := h.disk.create _
    placed := placed_create h.placed h.disk fun b => by simp
    phase := owned_create h.disk _
    nonce := Nat.le_refl _
    staging := fun n hn => by
      obtain rfl := Option.some.inj hn
      exact ⟨h.fresh fetch nonce hstaging, .inl hstaging⟩
    spares := fun other name inode hne hopened => by
      obtain ⟨bytes, howned⟩ := h.owned hopened
      exact spares_create howned (h.staged_ne hne hopened hstaging a)
    apart := fun other name name' inode hne hopened hfetch => by
      obtain ⟨bytes, howned⟩ := h.owned hopened
      have hinode := (Prod.mk.inj (Option.some.inj hfetch)).2
      exact create_ne howned (h.staged_ne hne hopened hstaging a) hinode.symm }

omit [DecidableEq α] in
/-- What a fetch writes to the inode that it streams to. -/
theorem spares_streaming (h : w.Sound model start) {a : α} {nonce inode : Nat}
    {received : List UInt8} (hphase : w.fetches fetch = .streaming a nonce inode received)
    (more : List UInt8) (other : Nat × Nat) (name : FileName α) (j : Nat) (hne : other ≠ fetch)
    (hopened : (w.fetches other).opened other.1 = some (name, j)) :
    Spares w.disk (w.disk.append inode more) name j := by
  refine spares_append w.disk name ?_ more
  rintro rfl
  refine hne (h.apart other fetch name (.staged a fetch.1 nonce) j hopened ?_)
  rw [hphase]
  rfl

omit [DecidableEq α] in
theorem advanced_chunk (h : w.Sound model start) {a : α} {nonce inode : Nat}
    {received : List UInt8} (hphase : w.fetches fetch = .streaming a nonce inode received)
    (bytes : List UInt8) :
    Advanced model start w fetch
      ⟨w.disk.append inode bytes, .streaming a nonce inode (received ++ bytes),
        w.nonces fetch.1⟩ := by
  have hstays := Advanced.stays h fetch
  rw [hphase] at hstays
  have howned : Owned w.disk (.staged a fetch.1 nonce) inode fun b => b = received := hstays.phase
  exact {
    disk := h.disk.append inode bytes
    placed := placed_append h.placed howned (fun b => by simp) bytes
    phase := owned_append howned bytes
    nonce := Nat.le_refl _
    staging := hstays.staging
    spares := spares_streaming h hphase bytes
    apart := hstays.apart }

omit [DecidableEq α] in
theorem advanced_chunk_failed (h : w.Sound model start) {a : α} {nonce inode : Nat}
    {received : List UInt8} (hphase : w.fetches fetch = .streaming a nonce inode received)
    (bytes : List UInt8) :
    Advanced model start w fetch
      ⟨w.disk.append inode bytes, .failed a nonce, w.nonces fetch.1⟩ := by
  have hstays := Advanced.stays h fetch
  rw [hphase] at hstays
  have howned : Owned w.disk (.staged a fetch.1 nonce) inode fun b => b = received := hstays.phase
  exact Advanced.of_closed rfl (h.disk.append inode bytes)
    (placed_append h.placed howned (fun b => by simp) bytes) (Nat.le_refl _) hstays.staging
    (spares_streaming h hphase bytes)

omit [DecidableEq α] in
theorem advanced_finish (h : w.Sound model start) {a : α} {nonce inode : Nat}
    {received : List UInt8} (hphase : w.fetches fetch = .streaming a nonce inode received)
    (hverified : model.verified a received = true) :
    Advanced model start w fetch
      ⟨w.disk, .downloaded a nonce inode, w.nonces fetch.1⟩ := by
  have hstays := Advanced.stays h fetch
  rw [hphase] at hstays
  have howned : Owned w.disk (.staged a fetch.1 nonce) inode fun b => b = received := hstays.phase
  exact {
    disk := h.disk
    placed := h.placed
    phase := { howned with bytes := by rw [howned.bytes]; exact hverified }
    nonce := Nat.le_refl _
    staging := hstays.staging
    spares := hstays.spares
    apart := hstays.apart }

theorem advanced_unlink (h : w.Sound model start) (name : FileName α) {phase : Phase α}
    (hopened : phase.opened fetch.1 = none) (hstaging : phase.staging = none) :
    Advanced model start w fetch ⟨w.disk.unlink name, phase, w.nonces fetch.1⟩ :=
  Advanced.of_closed hopened (h.disk.unlink name) (placed_unlink h.placed name) (Nat.le_refl _)
    (fun n hn => by rw [hstaging] at hn; cases hn) (fun _ _ _ _ _ => spares_unlink _ _ _ _)

theorem advanced_removeStaged (h : w.Sound model start) (removed : Bool) (a : α) (nonce : Nat) :
    Advanced model start w fetch
      ⟨removeStaged removed w.disk a fetch.1 nonce, .idle, w.nonces fetch.1⟩ := by
  unfold removeStaged
  split_ifs with hremoved
  · exact advanced_unlink h _ rfl rfl
  · exact Advanced.of_idle h rfl fun n hn => by cases hn

theorem advanced_rename (h : w.Sound model start) {a : α} {nonce inode : Nat}
    (hphase : w.fetches fetch = .downloaded a nonce inode) :
    Advanced model start w fetch
      ⟨w.disk.rename (.staged a fetch.1 nonce) (.place a), .idle, w.nonces fetch.1⟩ := by
  have hstaging : (w.fetches fetch).staging = some nonce := by rw [hphase]; rfl
  have hphase' := h.phase fetch
  rw [hphase] at hphase'
  have howned : Owned w.disk (.staged a fetch.1 nonce) inode fun b => model.verified a b = true :=
    hphase'
  refine Advanced.of_closed rfl (h.disk.rename _ _) (placed_rename h.placed howned) (Nat.le_refl _)
    (fun n hn => by cases hn) ?_
  intro other name j hne hopened
  obtain ⟨bytes, hother⟩ := h.owned hopened
  refine spares_rename hother (h.staged_ne hne hopened hstaging a) ?_
  obtain ⟨b, n, rfl, -⟩ := Phase.opened_eq_some hopened
  simp

/-- **Step lemma.** Whatever happens next to a fetch, it keeps what it knows and leaves to the
others what they know. -/
theorem advance_sound (h : w.Sound model start) (fetch : Nat × Nat) (event : Event α) :
    Advanced model start w fetch
      (advance model w.disk fetch.1 (w.nonces fetch.1) (w.fetches fetch) event) := by
  have hstays := Advanced.stays h fetch
  cases event with
  | ensure a =>
      dsimp only [advance]
      split
      · split_ifs
        · exact Advanced.of_idle h rfl fun n hn => by cases hn
        · exact Advanced.of_idle h rfl fun n hn => by cases hn
      · exact hstays
  | stat readable =>
      dsimp only [advance]
      split
      · split
        · split_ifs
          · exact Advanced.of_idle h rfl fun n hn => by cases hn
          · exact Advanced.of_idle h rfl fun n hn => by cases hn
        · exact Advanced.of_idle h rfl fun n hn => by cases hn
      · exact hstays
  | remove removed =>
      dsimp only [advance]
      split
      · split_ifs
        · exact advanced_unlink h _ rfl rfl
        · exact Advanced.of_idle h rfl fun n hn => by cases hn
      · exact hstays
  | prepare made stale =>
      dsimp only [advance]
      split
      · split_ifs
        · exact advanced_prepare h _ stale
        · exact Advanced.of_idle h rfl fun n hn => by cases hn
      · exact hstays
  | respond success =>
      dsimp only [advance]
      split
      · rename_i a nonce hphase
        split_ifs
        · exact advanced_respond h hphase
        · exact Advanced.of_idle h rfl fun n hn => by rw [hphase]; exact hn
      · exact hstays
  | chunk bytes written part =>
      dsimp only [advance]
      split
      · rename_i a nonce inode received hphase
        split_ifs
        · exact advanced_chunk h hphase bytes
        · exact advanced_chunk_failed h hphase _
      · exact hstays
  | finish ended =>
      dsimp only [advance]
      split
      · rename_i a nonce inode received hphase
        split_ifs with hended
        · exact advanced_finish h hphase (Bool.and_eq_true_iff.mp hended).2
        · exact Advanced.of_idle h rfl fun n hn => by rw [hphase]; exact hn
      · exact hstays
  | cleanUp removed =>
      dsimp only [advance]
      split
      · exact advanced_removeStaged h removed _ _
      · exact hstays
  | move moved removed =>
      dsimp only [advance]
      split
      · rename_i a nonce inode hphase
        split_ifs
        · exact advanced_rename h hphase
        · exact advanced_removeStaged h removed _ _
      · exact hstays

theorem step_sound (h : w.Sound model start) (label : Label α) :
    (step model w label).Sound model start := by
  cases label with
  | fetch fetch event => exact h.setFetch (advance_sound h fetch event)
  | crash pid =>
      refine
        { disk := h.disk
          placed := h.placed
          phase := ?_
          fresh := ?_
          nonces := ?_
          apart := ?_ }
      · intro fetch
        dsimp only [step]
        split_ifs
        · trivial
        · exact h.phase fetch
      · intro fetch nonce hstaging
        dsimp only [step] at hstaging ⊢
        split_ifs at hstaging with hpid
        · cases hstaging
        · rw [Function.update_of_ne hpid]
          exact h.fresh fetch nonce hstaging
      · intro fetch other nonce hpid hfetch hother
        dsimp only [step] at hfetch hother
        split_ifs at hfetch hother
        · cases hfetch
        · cases hfetch
        · cases hother
        · exact h.nonces fetch other nonce hpid hfetch hother
      · intro fetch other name name' inode hfetch hother
        dsimp only [step] at hfetch hother
        split_ifs at hfetch hother
        · cases hfetch
        · cases hfetch
        · cases hother
        · exact h.apart fetch other name name' inode hfetch hother

omit [DecidableEq α] in
theorem start_sound (model : Model α) {disk : Disk (FileName α) UInt8} (h : disk.Sound) :
    (World.start disk).Sound model disk where
  disk := h
  placed := fun a inode hinode => .inr (Option.map_eq_some_iff.mpr ⟨inode, hinode, rfl⟩)
  phase := fun _ => trivial
  fresh := fun _ _ hstaging => by cases hstaging
  nonces := fun _ _ _ _ hstaging => by cases hstaging
  apart := fun _ _ _ _ _ hopened => by cases hopened

/-- In every interleaving of any number of processes that fetch, fail, sweep what looks abandoned,
and die: whoever reads a file in its place reads one that has passed both checks, or the one that
was there at the start; and no two fetches write the same inode. -/
theorem destination_verified (model : Model α) {disk : Disk (FileName α) UInt8} (h : disk.Sound)
    (labels : List (Label α)) :
    (∀ a bytes, (run (step model) (World.start disk) labels).disk.read (.place a) = some bytes →
        model.verified a bytes = true ∨ disk.read (.place a) = some bytes) ∧
      ∀ fetch other name name' inode,
        ((run (step model) (World.start disk) labels).fetches fetch).opened fetch.1 =
            some (name, inode) →
          ((run (step model) (World.start disk) labels).fetches other).opened other.1 =
            some (name', inode) → fetch = other := by
  have hmeet : StepsMeet (step model) (fun _ _ => True) (World.start disk) labels :=
    StepsMeet.of_forall (fun _ _ => trivial) _ labels
  have hsound := run_invariant (World.Sound model disk) (fun w label hw _ => step_sound hw label)
    (start_sound model h) hmeet
  refine ⟨fun a bytes hread => ?_, hsound.apart⟩
  obtain ⟨inode, hinode, rfl⟩ := Option.map_eq_some_iff.mp hread
  exact hsound.placed a inode hinode

/-- A model with one file, and the digest of its bytes. -/
def tinyModel : Model Unit where
  artifact := fun _ =>
    ⟨"fb8e20fc2e4c3f248c60c39bd652f3c1347298bb977b8b4d5903b85055620603", 2⟩
  sha256 := fun bytes =>
    if bytes = [97, 98] then "fb8e20fc2e4c3f248c60c39bd652f3c1347298bb977b8b4d5903b85055620603"
    else ""

/-- A cached file that has lost its end. -/
def truncatedDisk : Disk (FileName Unit) UInt8 where
  names := fun name => if name = .place () then some 0 else none
  bytes := fun _ => [97]
  next := 1

theorem truncatedDisk_sound : truncatedDisk.Sound where
  unique := fun a b i ha hb => by
    by_cases ha' : a = .place ()
    · by_cases hb' : b = .place ()
      · exact ha'.trans hb'.symm
      · simp [truncatedDisk, hb'] at hb
    · simp [truncatedDisk, ha'] at ha
  used := fun a i ha => by
    by_cases ha' : a = .place ()
    · simp [truncatedDisk, ha'] at ha
      simp [truncatedDisk, ← ha]
    · simp [truncatedDisk, ha'] at ha

/-- The second process sweeps the file that the first is still streaming, and the first one's
rename finds nothing to move. -/
def sweptFetch : List (Label Unit) :=
  [.fetch (1, 0) (.ensure ()), .fetch (1, 0) (.stat true), .fetch (1, 0) (.remove true),
    .fetch (1, 0) (.prepare true []), .fetch (1, 0) (.respond true),
    .fetch (1, 0) (.chunk [97] true 0), .fetch (2, 0) (.ensure ()),
    .fetch (2, 0) (.prepare true [.staged () 1 0]), .fetch (2, 0) (.respond true),
    .fetch (2, 0) (.chunk [97, 98] true 0), .fetch (2, 0) (.finish true),
    .fetch (2, 0) (.move true false), .fetch (1, 0) (.chunk [99] true 0),
    .fetch (1, 0) (.finish true), .fetch (1, 0) (.cleanUp true)]

theorem swept_fetch_verified : tinyModel.verified () [97, 98] = true :=
  ((destination_verified tinyModel truncatedDisk_sound sweptFetch).1 () [97, 98]
    (by decide)).resolve_right (by decide)

end Yorishiro.Embedding.ModelFetch
