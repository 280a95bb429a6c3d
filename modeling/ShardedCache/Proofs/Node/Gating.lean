import ShardedCache.Proofs.Node.Copying
import ShardedCache.Proofs.Node.Moving

/-!
# What goes ahead of a login

A login is put in front of the write queue, and what has been in the queue before is its backlog. As
long as nothing is added, packing writes only the login and the backlog, the latter alone or in batches
(`Queue.Gated.copies`): a login joins no batch, and what has lapsed is never written.
-/

namespace ShardedCache

open Engine (Moves)

namespace Engine

/-- The operation has ended in success. -/
def succeeded (e : Engine) (id : Nat) : Bool := ((e.get? id).bind (·.status)).any (·.isSuccess)

/-- A login with these credentials. -/
def IsLogin (e : Engine) (credentials : Credentials) (id : Nat) : Prop :=
  ∃ n, e.nature? id = some n ∧
    n.work = .single (.saslPlain credentials.username credentials.password)

/-- What is not held back until the login has succeeded: the login itself, the backlog and batches made
of it. -/
def Ahead (e : Engine) (login : Option Nat) (backlog : List Nat) (id : Nat) : Prop :=
  login = some id ∨ id ∈ backlog ∨ e.members id ≠ [] ∧ ∀ m ∈ e.members id, m ∈ backlog

variable {e e' : Engine} {credentials : Credentials} {login : Option Nat} {backlog : List Nat}
  {id : Nat}

theorem succeeded_goes (h : e.succeeded id = true) (he : e.Sound) (hgoes : e.Goes e') :
    e'.succeeded id = true := by
  obtain ⟨status, hstatus, hsuccess⟩ := (Option.any_eq_true _ _).1 h
  obtain ⟨op, hop, hop'⟩ := Option.bind_eq_some_iff.1 hstatus
  have hlife := life?_of_get? hop
  obtain ⟨l', hl', hfollows⟩ := hgoes.follows id _ hlife
  have hend : Life.isTerminal ⟨op, (e.heardOf id).1, (e.heardOf id).2⟩ = true := by
    rw [(he.lives hlife).ended]
    exact Option.isSome_iff_exists.2 ⟨status, hop'⟩
  have hsame : l'.operation.status = op.status := congrArg Ending.status (hfollows.ending hend)
  rw [succeeded, get?_of_life? hl', Option.bind_some, hsame, hop']
  exact hsuccess

theorem isLogin_create (e : Engine) (credentials : Credentials) (callback : Callback) :
    (e.create (.saslPlain credentials.username credentials.password) callback).1.IsLogin credentials
      e.size := by
  have hget := get?_add e (.single (.saslPlain credentials.username credentials.password))
    (Command.saslPlain credentials.username credentials.password).kind.isIdempotent callback e.size
  rw [if_pos rfl] at hget
  exact ⟨_, nature?_of_get? hget, rfl⟩

theorem IsLogin.goes (h : e.IsLogin credentials id) (hgoes : e.Goes e') :
    e'.IsLogin credentials id := by
  obtain ⟨n, hn, hwork⟩ := h
  exact ⟨n, (hgoes.follows.nature?_eq (lt_size_of_nature? hn)).trans hn, hwork⟩

theorem Ahead.goes (h : e.Ahead login backlog id) (hgoes : e.Goes e') :
    e'.Ahead login backlog id := by
  refine h.imp_right fun h => h.imp_right fun ⟨hne, hmembers⟩ => ?_
  have hlt : id < e.size := by
    refine Nat.lt_of_not_le fun hle => hne ?_
    rw [members, get?_eq_none_iff.2 hle]
    rfl
  rw [hgoes.follows.members_eq hlt]
  exact ⟨hne, hmembers⟩

/-- What waits to be written: it has lapsed, or it is not held back. -/
def Waits (e : Engine) (login : Option Nat) (backlog : List Nat) (id : Nat) : Prop :=
  e.lapsed id = true ∨ e.Ahead login backlog id

theorem Waits.moves {since : Outline} (h : e.Waits login backlog id) (he : e.Sound)
    (hmoves : e.Moves since e') : e'.Waits login backlog id :=
  h.imp hmoves.lapsed fun hahead => hahead.goes (hmoves.goes he)

end Engine

/-! ## Packing -/

namespace Queue

section Packing

variable {credentials : Credentials} {login : Option Nat} {backlog : List Nat}

/-- Everything in the write queue has lapsed, is the login, or is of the backlog. -/
structure Gated (credentials : Credentials) (login : Option Nat) (backlog : List Nat) (q : Queue)
    (e : Engine) : Prop where
  proper : e.Proper
  isLogin : ∀ id, login = some id → e.IsLogin credentials id
  waits : ∀ id ∈ q.writeQueue, e.Waits login backlog id

variable {q q' : Queue} {e e' : Engine}

/-- A login joins no batch. -/
theorem not_fits_of_isLogin {family : BatchFamily} {id : Nat} (h : e.IsLogin credentials id) :
    ¬fits e family id = true := by
  intro hfits
  obtain ⟨n, hn, hwork⟩ := h
  obtain ⟨op, hop, hfit⟩ := (Option.any_eq_true _ _).1 hfits
  have hsame : op.nature = n := Option.some.inj ((Engine.nature?_of_get? hop).symm.trans hn)
  have hop' : op.work = .single (.saslPlain credentials.username credentials.password) :=
    (congrArg Nature.work hsame).trans hwork
  have hnone : op.work.family? = none := by
    rw [hop']
    rfl
  simp [hnone] at hfit

/-- The engine has gone on, and nothing new is to be written. -/
theorem Gated.moves {since : Outline} (h : Gated credentials login backlog q e)
    (hmoves : e.Moves since e') (hsub : q'.writeQueue ⊆ q.writeQueue) :
    Gated credentials login backlog q' e' where
  proper := h.proper.moves hmoves
  isLogin id hid := (h.isLogin id hid).goes (hmoves.goes h.proper.orderly.sound)
  waits id hid := (h.waits id (hsub hid)).moves h.proper.orderly.sound hmoves

theorem Gated.regroup {family : BatchFamily} {n : Nat} (h : Gated credentials login backlog q e)
    (hregrouped : Regrouped q e family n e') (hmoves : e.Moves e.reports.outline e') :
    Gated credentials login backlog { q with writeQueue := e.size :: q.writeQueue.drop n } e' := by
  have hsound := h.proper.orderly.sound
  have hgoes := hmoves.goes hsound
  refine ⟨h.proper.moves hmoves, fun id hid => (h.isLogin id hid).goes hgoes, fun id hid => ?_⟩
  rcases List.mem_cons.1 hid with rfl | hid
  · -- a new batch is made of what is due, but not of the login
    obtain ⟨tag, multiplexer, idempotent, hnew⟩ := hregrouped.get?_size
    have hmembers : e'.members e.size = q.writeQueue.take n := by
      rw [Engine.members, hnew]
      rfl
    refine .inr (.inr (.inr ?_))
    rw [hmembers]
    refine ⟨?_, fun m hm => ?_⟩
    · have htwo := hregrouped.two_le
      have hlength := hregrouped.le_length
      rw [← List.length_pos_iff, List.length_take]
      omega
    · have hfits := hregrouped.fits m hm
      rcases h.waits m (List.mem_of_mem_take hm) with hlapsed | hlogin | hkept | ⟨hne, -⟩
      · rw [lapsed_of_fits hfits] at hlapsed
        cases hlapsed
      · exact absurd hfits (not_fits_of_isLogin (h.isLogin m hlogin))
      · exact hkept
      · exact absurd (Engine.members_of_isSingle (isSingle_of_fits hfits)) hne
  · exact (h.waits id (List.mem_of_mem_drop hid)).moves hsound hmoves

/-- Each round of packing keeps it so. -/
theorem Gated.packing (hstep : Packing q e q' e') (h : Gated credentials login backlog q e) :
    Gated credentials login backlog q' e' := by
  have hmoves : e.Moves e.reports.outline e' := moves_packing h.proper (Nat.le_refl _) hstep
  cases hstep with
  | drop hq _ _ => exact h.moves hmoves (by rw [hq]; exact List.subset_cons_self _ _)
  | @regroup id _ hq _ =>
    rcases regroup_cases q e id with heq | ⟨-, heq⟩
    · rw [heq]
      exact h
    · rw [heq] at hmoves ⊢
      rcases optimize_cases q e with heq' | ⟨family, n, e', hregrouped, heq'⟩
      · rw [heq']
        exact h
      · rw [heq'] at hmoves ⊢
        exact h.regroup hregrouped hmoves
  | fill hq _ _ _ => exact h.moves hmoves (List.Subset.refl _)
  | handOn hq _ _ _ => exact h.moves hmoves (by rw [hq]; exact List.subset_cons_self _ _)

/-- Whatever packing copies is not held back. -/
theorem Gated.copies (h : Gated credentials login backlog q e) :
    ∀ p ∈ q.copies e, (q.pack e).2.Ahead login backlog p.owner := by
  intro p hp
  obtain ⟨q', e', hgated, hcopied, hgoes⟩ :=
    copiedOut_of_mem_copies Gated.packing h.proper.orderly.sound h p hp
  have hmem : p.owner ∈ q'.writeQueue := List.mem_of_mem_head? (Option.mem_def.2 hcopied.head)
  rcases hgated.waits p.owner hmem with hlapsed | hahead
  · rw [hcopied.due.lapsed] at hlapsed
    cases hlapsed
  · exact hahead.goes hgoes

end Packing

/-- Processing concerns the read queue only. -/
theorem writeQueue_process (q : Queue) (e : Engine) : (q.process e).1.writeQueue = q.writeQueue := by
  refine process_induction (P := fun q' _ => q'.writeQueue = q.writeQueue)
    (fun hstep heq => ?_) q e rfl
  cases hstep <;> exact heq

end Queue

end ShardedCache
