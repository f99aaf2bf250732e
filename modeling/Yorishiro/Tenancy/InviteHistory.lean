import Mathlib.Data.List.Induction
import Mathlib.Data.Set.Function
import Yorishiro.Tenancy.Runs

/-!
# What the log says of invites

The log of an interleaving says which token an invite was last issued with and whether it was
revoked since (`standing`). `InviteFacts` relates this to the table, and says of every commit
of an acceptance or a registration what it redeemed (`Redemption`); it holds as long as the
tokens that were drawn are fresh (`FreshTokens`), which random tokens are.

`inviteDiscipline` is what transactions agree on: while the membership lock of an invite's
tenant is taken, the row, the tenant and what the log says of the invite stay as they are.
-/

set_option autoImplicit false

namespace Yorishiro.Tenancy

open Yorishiro.Lib
open Yorishiro.Lib.Fence
open Yorishiro.Queue (Instant)

/-- The log of committed operations. -/
abbrev History := List (Entry Op Db Result)

/-! ## Issues, revocations, redemptions -/

/-- The invite an operation issues, with its token. -/
def Op.issuesInvite : Op → Option (Uuid × String)
  | .createInvite fresh .. => some (fresh.id, fresh.token)
  | .createInviteAs fresh .. => some (fresh.id, fresh.token)
  | .reissueInviteAs token _ id _ => some (id, token)
  | _ => none

/-- The invite an operation revokes. -/
def Op.revokesInvite : Op → Option Uuid
  | .revokeInviteAs _ id => some id
  | _ => none

/-- The token an operation redeems. -/
def Op.presents : Op → Option String
  | .acceptExistingUser token .. => some token
  | .acceptAuthenticatedUser _ token => some token
  | .registerUser _ token .. => some token
  | _ => none

/-- The token of an operation, issued or presented. -/
def Op.token (op : Op) : Option String := (op.issuesInvite.map Prod.snd).or op.presents

/-- What the log says of an invite: the token of its last issue, if there was one, and whether
it was revoked since. -/
structure Standing where
  token : Option String
  revoked : Bool
deriving DecidableEq, Repr

/-- The standing after one more commit. -/
def Standing.next (id : Uuid) (s : Standing) (op : Op) : Standing :=
  match op.issuesInvite with
  | some (issued, token) => if issued = id then ⟨some token, false⟩ else s
  | none => if op.revokesInvite = some id then { s with revoked := true } else s

/-- The standing of an invite by the log. -/
def standing (id : Uuid) (log : History) : Standing :=
  log.foldl (fun s e => s.next id e.job) ⟨none, false⟩

theorem standing_concat (id : Uuid) (log : History) (e : Entry Op Db Result) :
    standing id (log ++ [e]) = (standing id log).next id e.job := by
  simp [standing, List.foldl_append]

/-- The operation says nothing of the invite. -/
def Op.silent (id : Uuid) (op : Op) : Prop :=
  (∀ issued, op.issuesInvite = some issued → issued.1 ≠ id) ∧ op.revokesInvite ≠ some id

theorem Standing.next_silent {id : Uuid} {op : Op} (h : op.silent id) (s : Standing) :
    s.next id op = s := by
  unfold Standing.next
  cases hop : op.issuesInvite with
  | none => simp [h.2]
  | some issued => simp [h.1 issued hop]

/-- The token of the standing was issued in the log. -/
theorem standing_issued {id : Uuid} {log : History} {token : String}
    (h : (standing id log).token = some token) :
    ∃ e ∈ log, e.job.issuesInvite = some (id, token) := by
  induction log using List.reverseRecOn with
  | nil => cases h
  | append_singleton log e ih =>
      rw [standing_concat] at h
      have hold : (standing id log).token = some token →
          ∃ e' ∈ log ++ [e], e'.job.issuesInvite = some (id, token) := by
        intro hlog
        obtain ⟨e', he', hissues⟩ := ih hlog
        exact ⟨e', List.mem_append_left _ he', hissues⟩
      unfold Standing.next at h
      split at h
      · rename_i issued token' hissues
        split_ifs at h with hid
        · cases h
          subst hid
          exact ⟨e, List.mem_append_right _ List.mem_cons_self, hissues⟩
        · exact hold h
      · split_ifs at h
        · exact hold h
        · exact hold h

/-- A commit uses the invite. -/
def Uses (id : Uuid) (e : Entry Op Db Result) : Prop :=
  ∃ row row', e.before.invites.get? id = some row ∧ row.usedAt = none ∧
    e.after.invites.get? id = some row' ∧ row'.usedAt.isSome = true

/-! ## Fresh tokens -/

/-- The tokens that were issued are drawn afresh: none is drawn twice or stored at the start,
and the digests of the tokens of the run do not collide. -/
structure FreshTokens (h : Externals) (start : Db) (log : History) : Prop where
  drawn : (log.filterMap fun e => e.job.issuesInvite.map Prod.snd).Nodup
  digests : Set.InjOn h.hashKey {token | ∃ e ∈ log, e.job.token = some token}
  unknown : ∀ e ∈ log, ∀ issued, e.job.issuesInvite = some issued → ∀ id row,
    start.invites.get? id = some row → row.tokenHash ≠ h.hashKey issued.2

theorem FreshTokens.sublist {h : Externals} {start : Db} {log log' : History}
    (hfresh : FreshTokens h start log') (hsub : log.Sublist log') : FreshTokens h start log where
  drawn := hfresh.drawn.sublist (hsub.filterMap _)
  digests := by
    refine hfresh.digests.mono fun token htoken => ?_
    obtain ⟨e, he, heq⟩ := htoken
    exact ⟨e, hsub.subset he, heq⟩
  unknown := fun e he => hfresh.unknown e (hsub.subset he)

/-- The invite has, or had, the digest: from the start, or by an issue in the log. -/
def BoundTo (h : Externals) (start : Db) (log : History) (digest : Digest) (id : Uuid) : Prop :=
  (∃ row, start.invites.get? id = some row ∧ row.tokenHash = digest) ∨
    ∃ e ∈ log, ∃ token, e.job.issuesInvite = some (id, token) ∧ h.hashKey token = digest

theorem BoundTo.subset {h : Externals} {start : Db} {log log' : History} (hsub : log ⊆ log')
    {digest : Digest} {id : Uuid} (hbound : BoundTo h start log digest id) :
    BoundTo h start log' digest id := by
  rcases hbound with hrow | ⟨e, he, hissued⟩
  · exact Or.inl hrow
  · exact Or.inr ⟨e, hsub he, hissued⟩

theorem Op.token_of_issues {op : Op} {issued : Uuid × String}
    (h : op.issuesInvite = some issued) : op.token = some issued.2 := by
  simp [Op.token, h]

/-- Tokens are drawn once, so equal tokens were issued by the same commit. -/
theorem issues_unique {log : History}
    (hdrawn : (log.filterMap fun e => e.job.issuesInvite.map Prod.snd).Nodup)
    {e e' : Entry Op Db Result} (he : e ∈ log) (he' : e' ∈ log) {issued issued' : Uuid × String}
    (hissues : e.job.issuesInvite = some issued) (hissues' : e'.job.issuesInvite = some issued')
    (htoken : issued.2 = issued'.2) : issued = issued' := by
  induction log with
  | nil => cases he
  | cons d log ih =>
      -- the token of the first entry does not occur again
      have hnot : ∀ e ∈ log, ∀ i j, d.job.issuesInvite = some i → e.job.issuesInvite = some j →
          i.2 ≠ j.2 := by
        intro e he i j hi hj heq
        rw [List.filterMap_cons, hi] at hdrawn
        refine (List.nodup_cons.mp hdrawn).1 (List.mem_filterMap.mpr ⟨e, he, ?_⟩)
        rw [hj, Option.map_some, heq]
      have htail : (log.filterMap fun e => e.job.issuesInvite.map Prod.snd).Nodup :=
        hdrawn.sublist ((List.sublist_cons_self d log).filterMap _)
      rcases List.mem_cons.mp he with rfl | hlater
      · rcases List.mem_cons.mp he' with rfl | hlater'
        · exact Option.some.inj (hissues.symm.trans hissues')
        · exact absurd htoken (hnot e' hlater' _ _ hissues hissues')
      · rcases List.mem_cons.mp he' with rfl | hlater'
        · exact absurd htoken.symm (hnot e hlater _ _ hissues' hissues)
        · exact ih htail hlater hlater'

/-- With fresh tokens a digest belongs to one invite for good. -/
theorem BoundTo.unique {h : Externals} {start : Db} {log : History} (hfresh : FreshTokens h start log)
    {digest : Digest} {id id' : Uuid} (hid : BoundTo h start log digest id)
    (hid' : BoundTo h start log digest id') : id = id' := by
  rcases hid with ⟨row, hrow, rfl⟩ | ⟨e, he, token, hissues, rfl⟩
  · rcases hid' with ⟨row', hrow', heq⟩ | ⟨e', he', token', hissues', heq⟩
    · by_contra hne
      have hclash := Table.clash_eq_false (fun a b => by simp [Invite.clash, eq_comm]) hne hrow hrow'
      simp [Invite.clash, heq] at hclash
    · exact absurd heq.symm (hfresh.unknown e' he' _ hissues' id row hrow)
  · rcases hid' with ⟨row', hrow', heq⟩ | ⟨e', he', token', hissues', heq⟩
    · exact absurd heq (hfresh.unknown e he _ hissues id' row' hrow')
    · have htoken : token' = token :=
        hfresh.digests ⟨e', he', Op.token_of_issues hissues'⟩ ⟨e, he, Op.token_of_issues hissues⟩
          heq
      exact congrArg Prod.fst
        (issues_unique hfresh.drawn he he' hissues hissues' htoken.symm)

/-! ## Facts -/

/-- **What a commit redeemed**, given the log before it. At the redeeming update the invite was
unused and unexpired and its tenant active, and it was still the same at the commit; the token
is the one of the last issue, with no revocation since; the member's email is the invited
one. -/
structure Redemption (h : Externals) (log : History) (e : Entry Op Db Result) (token : String)
    (id : Uuid) (row : Invite) (user : Uuid) (time : Instant) : Prop where
  now : ∃ v ∈ e.seen, v.clock = time
  update : ∃ v ∈ e.seen, v.invites.get? id = some row ∧ v.active row.tenantId = true
  unused : row.usedAt = none
  unexpired : time < row.expiresAt
  digest : row.tokenHash = h.hashKey token
  last : ∀ issued, (standing id log).token = some issued → token = issued
  unrevoked : (standing id log).revoked = false
  before : e.before.invites.get? id = some row
  after : e.after.invites.get? id = some { row with usedAt := some time }
  account : ∃ account, e.after.users.get? user = some account ∧ account.email = row.email
  member : e.after.role row.tenantId user = some row.role

/-- What the table and the log have to do with each other. -/
structure InviteFacts (h : Externals) (start : Db) (w : State Op Db Result) : Prop where
  bound : ∀ id row, w.db.invites.get? id = some row → BoundTo h start w.log row.tokenHash id
  issued : ∀ id row token, w.db.invites.get? id = some row →
    (standing id w.log).token = some token → row.tokenHash = h.hashKey token
  revoked : ∀ id row, w.db.invites.get? id = some row →
    (standing id w.log).revoked = true → row.expiresAt ≤ w.db.clock
  used : ∀ e ∈ w.log, ∀ id, Uses id e →
    ∃ row, w.db.invites.get? id = some row ∧ row.usedAt.isSome = true
  once : w.log.Pairwise fun e e' => ∀ id, Uses id e → ¬Uses id e'
  redeemed : ∀ l e l', w.log = l ++ e :: l' → ∀ token, e.job.presents = some token →
    ∃ id row user time, Redemption h l e token id row user time

theorem inviteFacts_init (h : Externals) (start : Db) : InviteFacts h start ⟨start, []⟩ where
  bound := fun id row hrow => Or.inl ⟨row, hrow, rfl⟩
  issued := fun id row token _ h => by cases h
  revoked := fun id row _ h => by cases h
  used := List.forall_mem_nil _
  once := List.Pairwise.nil
  redeemed := fun l e l' h => by simp at h

/-- What a commit of `op` at the given time may do to a row: keep its digest, and its expiry
unless it revokes, or issue it. -/
def RowStep (h : Externals) (op : Op) (db : Db) (clock : Instant) (id : Uuid) (row' : Invite) : Prop :=
  (∃ row, db.invites.get? id = some row ∧ row'.tokenHash = row.tokenHash ∧
    ((op.silent id ∧ row'.expiresAt = row.expiresAt) ∨
      (op.issuesInvite = none ∧ op.revokesInvite = some id ∧ row'.expiresAt ≤ clock))) ∨
    ∃ token, op.issuesInvite = some (id, token) ∧ row'.tokenHash = h.hashKey token

section Commit

variable {h : Externals} {start : Db} {w : State Op Db Result} {op : Op} {r : Result}
  {seen : List Db} {a : Db}

/-- **Commit rule.** -/
theorem InviteFacts.commit (hfacts : InviteFacts h start w) (hclock : w.db.clock ≤ a.clock)
    (hrows : ∀ id row', a.invites.get? id = some row' → RowStep h op w.db a.clock id row')
    (hused : ∀ id row, w.db.invites.get? id = some row → row.usedAt.isSome = true →
      ∃ row', a.invites.get? id = some row' ∧ row'.usedAt.isSome = true)
    (hnew : ∀ token, op.presents = some token → ∃ id row user time,
      Redemption h w.log ⟨op, r, seen, w.db, a⟩ token id row user time) :
    InviteFacts h start (w.commit op r seen a) where
  bound := by
    intro id row' hrow'
    rcases hrows id row' hrow' with ⟨row, hrow, hhash, -⟩ | ⟨token, hissues, hhash⟩
    · rw [hhash]
      exact (hfacts.bound id row hrow).subset (List.subset_append_left _ _)
    · exact Or.inr ⟨_, List.mem_append_right _ List.mem_cons_self, token, hissues, hhash.symm⟩
  issued := by
    intro id row' token hrow' htoken
    simp only [State.commit, standing_concat] at htoken
    rcases hrows id row' hrow' with ⟨row, hrow, hhash, hkind⟩ | ⟨token', hissues, hhash⟩
    · rw [hhash]
      apply hfacts.issued id row token hrow
      rcases hkind with ⟨hsilent, -⟩ | ⟨hissues, hrevokes, -⟩
      · rwa [Standing.next_silent hsilent] at htoken
      · simpa [Standing.next, hissues, hrevokes] using htoken
    · simp only [Standing.next, hissues, if_true, Option.some.injEq] at htoken
      rw [hhash, htoken]
  revoked := by
    intro id row' hrow' hrevoked
    simp only [State.commit, standing_concat] at hrevoked
    change row'.expiresAt ≤ a.clock
    rcases hrows id row' hrow' with ⟨row, hrow, -, hkind⟩ | ⟨token', hissues, -⟩
    · rcases hkind with ⟨hsilent, hexpires⟩ | ⟨-, -, hexpires⟩
      · rw [Standing.next_silent hsilent] at hrevoked
        rw [hexpires]
        exact (hfacts.revoked id row hrow hrevoked).trans hclock
      · exact hexpires
    · simp [Standing.next, hissues] at hrevoked
  used := by
    intro e he id huses
    rcases List.mem_append.mp he with hold | hnew
    · obtain ⟨row, hrow, husedAt⟩ := hfacts.used e hold id huses
      exact hused id row hrow husedAt
    · rw [List.mem_singleton.mp hnew] at huses
      obtain ⟨-, row', -, -, hrow', husedAt⟩ := huses
      exact ⟨row', hrow', husedAt⟩
  once := by
    refine List.pairwise_append.mpr ⟨hfacts.once, List.pairwise_singleton _ _, ?_⟩
    intro e he e' he' id huses huses'
    rw [List.mem_singleton.mp he'] at huses'
    obtain ⟨row, -, hrow, hunused, -⟩ := huses'
    obtain ⟨row', hrow', husedAt⟩ := hfacts.used e he id huses
    have heq : row = row' := Option.some.inj (hrow.symm.trans hrow')
    rw [← heq, hunused] at husedAt
    cases husedAt
  redeemed := by
    intro l e l' hlog token htoken
    rcases List.eq_nil_or_concat l' with rfl | ⟨l'', last, rfl⟩
    · obtain ⟨rfl, hlast⟩ := List.append_inj' hlog rfl
      obtain rfl := (List.cons.inj hlast).1
      exact hnew token htoken
    · have hsplit : w.log ++ [⟨op, r, seen, w.db, a⟩] = (l ++ e :: l'') ++ [last] := by
        rw [List.concat_eq_append] at hlog
        rw [List.append_assoc]
        exact hlog
      exact hfacts.redeemed l e l'' (List.append_inj' hsplit rfl).1 token htoken

end Commit

/-! ## The discipline -/

/-- How the committed state moves in any case. -/
structure InvitesOnward (w w' : State Op Db Result) : Prop where
  log : w.log <+: w'.log
  clock : w.db.clock ≤ w'.db.clock
  users : ∀ id row, w.db.users.get? id = some row → w'.db.users.get? id = some row
  invites : ∀ id row, w.db.invites.get? id = some row →
    ∃ row', w'.db.invites.get? id = some row' ∧ row'.tenantId = row.tenantId

theorem InvitesOnward.trans {u v w : State Op Db Result} (huv : InvitesOnward u v)
    (hvw : InvitesOnward v w) : InvitesOnward u w where
  log := huv.log.trans hvw.log
  clock := huv.clock.trans hvw.clock
  users := fun id row h => hvw.users id row (huv.users id row h)
  invites := by
    intro id row hrow
    obtain ⟨row₁, hrow₁, htenant₁⟩ := huv.invites id row hrow
    obtain ⟨row₂, hrow₂, htenant₂⟩ := hvw.invites id row₁ hrow₁
    exact ⟨row₂, hrow₂, htenant₂.trans htenant₁⟩

/-- What a lock protects: the invites of the tenant, the tenant, and what the log says of
them. -/
structure InvitesKept (h : Externals) (start : Db) (name : String) (w w' : State Op Db Result) :
    Prop where
  log : w.log <+: w'.log
  kept : FreshTokens h start w'.log → ∀ id row, w.db.invites.get? id = some row →
    name = membershipLock row.tenantId →
      w'.db.invites.get? id = some row ∧
        (∀ tenant, w.db.tenants.get? row.tenantId = some tenant →
          w'.db.tenants.get? row.tenantId = some tenant) ∧
        standing id w'.log = standing id w.log

theorem InvitesKept.trans {h : Externals} {start : Db} {name : String} {u v w : State Op Db Result}
    (huv : InvitesKept h start name u v) (hvw : InvitesKept h start name v w) :
    InvitesKept h start name u w where
  log := huv.log.trans hvw.log
  kept := by
    intro hfresh id row hrow hname
    obtain ⟨hrow₁, htenant₁, hstanding₁⟩ :=
      huv.kept (hfresh.sublist hvw.log.sublist) id row hrow hname
    obtain ⟨hrow₂, htenant₂, hstanding₂⟩ := hvw.kept hfresh id row hrow₁ hname
    exact ⟨hrow₂, fun tenant h => htenant₂ tenant (htenant₁ tenant h), hstanding₂.trans hstanding₁⟩

/-- What transactions agree on about invites. -/
def inviteDiscipline (h : Externals) (start : Db) : Discipline Op String Db Result where
  inv := fun w => FreshTokens h start w.log → InviteFacts h start w
  onward := InvitesOnward
  keeps := InvitesKept h start
  met := fun _ _ _ => True
  onward_refl := fun _ => ⟨List.prefix_rfl, le_rfl, fun _ _ h => h, fun _ row h => ⟨row, h, rfl⟩⟩
  onward_trans := fun _ _ _ => InvitesOnward.trans
  keeps_refl := fun _ _ => ⟨List.prefix_rfl, fun _ _ _ hrow _ => ⟨hrow, fun _ h => h, rfl⟩⟩
  keeps_trans := fun _ _ _ _ => InvitesKept.trans

section Commit

variable {h : Externals} {start : Db} {held : List String} {w : State Op Db Result} {op : Op}
  {r : Result} {seen : List Db} {a : Db}

/-- **What a commit has to establish.** All but the monotone part may rely on fresh tokens. -/
theorem allows_commit (hinv : (inviteDiscipline h start).inv w) (hclock : w.db.clock ≤ a.clock)
    (husers : ∀ id row, w.db.users.get? id = some row → a.users.get? id = some row)
    (htenants : ∀ id row, w.db.invites.get? id = some row →
      ∃ row', a.invites.get? id = some row' ∧ row'.tenantId = row.tenantId)
    (hused : ∀ id row, w.db.invites.get? id = some row → row.usedAt.isSome = true →
      ∃ row', a.invites.get? id = some row' ∧ row'.usedAt.isSome = true)
    (hrows : FreshTokens h start (w.commit op r seen a).log → InviteFacts h start w →
      ∀ id row', a.invites.get? id = some row' → RowStep h op w.db a.clock id row')
    (hnew : FreshTokens h start (w.commit op r seen a).log → InviteFacts h start w →
      ∀ token, op.presents = some token → ∃ id row user time,
        Redemption h w.log ⟨op, r, seen, w.db, a⟩ token id row user time)
    (hkept : FreshTokens h start (w.commit op r seen a).log → ∀ id row,
      w.db.invites.get? id = some row → membershipLock row.tenantId ∉ held →
        a.invites.get? id = some row ∧
          a.tenants.get? row.tenantId = w.db.tenants.get? row.tenantId ∧ op.silent id) :
    (inviteDiscipline h start).Allows held w (w.commit op r seen a) := by
  have hlog : w.log <+: (w.commit op r seen a).log := List.prefix_append _ _
  refine ⟨fun hfresh => ?_, ⟨hlog, hclock, husers, htenants⟩, fun name hname => ⟨hlog, ?_⟩⟩
  · have hfacts := hinv (hfresh.sublist hlog.sublist)
    exact hfacts.commit hclock (hrows hfresh hfacts) hused (hnew hfresh hfacts)
  · intro hfresh id row hrow heq
    obtain ⟨hrow', htenant, hsilent⟩ := hkept hfresh id row hrow fun hlock => hname (heq ▸ hlock)
    refine ⟨hrow', fun tenant h => htenant.trans h, ?_⟩
    simp only [State.commit, standing_concat]
    exact Standing.next_silent hsilent _

end Commit

end Yorishiro.Tenancy
