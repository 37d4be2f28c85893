import ChainBridge.Lib.Serial
import ChainBridge.Surfpool
import ChainBridge.Theorems.Simulation

/-!
# What happens to the LiteSVM of Surfpool

Whatever calls of the provider run side by side, the LiteSVM goes through states one of which comes from the other by a clone
of an account it did not have, the funding of a payer that was short, a transaction sent, or an airdrop asked for; and every
answer of a simulation is one that `surfpoolSimulateTransaction` gives on readings of such states.
-/

namespace ChainBridge

open Interleave SurfTask

/-- The accounts a call makes sure of. -/
def SolanaCall.accounts : SolanaCall → List Pubkey
  | .simulateTransaction tx => tx.message.instructionKeys
  | .getBalance pubkey => [pubkey]
  | .getAccount pubkey => [pubkey]
  | _ => []

section Surfpool

variable {σ : Type} (P : Providers) (S : LiteSvm σ)

/-- What happens in a run. -/
abbrev SurfLabel (σ : Type) : Type := LockLabel (fun _ : SvmLock => σ) SurfCall.Answer SolanaCall

/-- A call with its answer. -/
abbrev SurfEvent (σ : Type) : Type := LockEvent (fun _ : SvmLock => σ) SurfCall.Answer

/-- What a call may do to the LiteSVM in one go, when it was told this outside. -/
inductive SvmMove (told : List (Event SurfCall.Answer)) (svm : σ) : SolanaCall → σ → Prop where
  /-- An account it does not have, and that the call names, becomes what the RPC node said. -/
  | clone {c : SolanaCall} {pubkey : Pubkey} {account : Account} : pubkey ∈ c.accounts → S.getAccount svm pubkey = none →
      ⟨.rpcGetAccount pubkey, .ok account⟩ ∈ told → SvmMove told svm c (S.setAccount svm pubkey account).2
  /-- The payer of a transaction to send is short. -/
  | fund {tx : Transaction} {payer : Pubkey} : tx.message.accountKeys.head? = some payer →
      (S.getBalance svm payer).getD 0 < payerMinimum →
      SvmMove told svm (.sendTransaction tx) (S.airdrop svm payer payerAirdrop).2
  | send {tx : Transaction} {versionedTx : VersionedTransaction} : P.reencode tx = .ok versionedTx →
      SvmMove told svm (.sendTransaction tx) (S.sendTransaction svm versionedTx).2
  | airdrop {pubkey : Pubkey} {lamports : UInt64} :
      SvmMove told svm (.requestAirdrop pubkey lamports) (S.airdrop svm pubkey lamports).2

/-- The LiteSVM goes from a state to the next as a call that was made may do it, told outside what the history has. -/
def Moved (log : List (SurfLabel σ)) (svm svm' : σ) : Prop :=
  ∃ t c told, .deliver t c ∈ log ∧ (∀ e ∈ told, .call t ⟨.outside e.1, e.2⟩ ∈ log) ∧ SvmMove P S told svm c svm'

/-- The states the LiteSVM comes through. -/
abbrev CameThrough (log : List (SurfLabel σ)) : σ → σ → Prop := Relation.ReflTransGen (Moved P S log)

/-- What a simulation is answered is read off a state of the LiteSVM, or is what the RPC node said. -/
inductive Drawn (holds : σ → Prop) (told : Pubkey → Except String Account → Prop) : ProviderEvent → Prop where
  | hasAccount {svm : σ} (pubkey : Pubkey) : holds svm →
      Drawn holds told ⟨.svmHasAccount pubkey, (S.getAccount svm pubkey).isSome⟩
  | rpcGetAccount {pubkey : Pubkey} {answer : Except String Account} : told pubkey answer →
      Drawn holds told ⟨.rpcGetAccount pubkey, answer⟩
  | setAccount {svm : σ} (pubkey : Pubkey) (account : Account) : holds svm →
      Drawn holds told ⟨.svmSetAccount pubkey account, (S.setAccount svm pubkey account).1⟩
  | simulate {svm : σ} (versionedTx : VersionedTransaction) : holds svm →
      Drawn holds told ⟨.svmSimulate versionedTx, S.simulateTransaction svm versionedTx⟩

namespace SurfpoolAux

variable {P S}

/-! ## Discipline -/

/-- The method returns. -/
def isReply : LockCall SvmLock (fun _ => σ) SurfCall → Bool
  | .outside (.reply _ _) => true
  | _ => false

/-- The discipline of the lock, for parts that do not reply. -/
def svmMonitor (σ : Type) : Monitor (LockCall SvmLock (fun _ => σ) SurfCall) (LockCall.Answer SurfCall.Answer)
    (Grip SvmLock) where
  allow g c := c.Keeps true g ∧ isReply c = false
  next g c _ := c.grip g

variable {α β : Type} {g : Grip SvmLock} {Q : Grip SvmLock → α → Prop}

/-- A guard is taken where none is held, and what follows begins with it. -/
theorem guarded_acquire {mode : LockMode} {f : Unit → SurfTask σ α} (hg : g.held = [])
    (h : (f ()).wp (svmMonitor σ) ⟨[(.svm, mode)], false⟩ Q) :
    (Prog.perform (LockCall.acquire SvmLock.svm mode) >>= f : SurfTask σ α).wp (svmMonitor σ) g Q := by
  refine ⟨⟨⟨fun _ => ⟨rfl, hg⟩, fun h hh => ?_⟩, rfl⟩, fun _ => ?_⟩
  · rw [hg] at hh
    cases hh
  · show (f ()).wp (svmMonitor σ) ⟨(.svm, mode) :: g.held, false⟩ Q
    rw [hg]
    exact h

/-- The guard is dropped, and what follows holds none. -/
theorem guarded_unlock {mode : LockMode} {f : Unit → SurfTask σ α}
    (h : ∀ g : Grip SvmLock, g.held = [] → (f ()).wp (svmMonitor σ) g Q) :
    (unlock >>= f : SurfTask σ α).wp (svmMonitor σ) ⟨[(.svm, mode)], false⟩ Q :=
  ⟨⟨⟨_, List.mem_cons_self⟩, rfl⟩, fun _ => h _ (show List.filter _ _ = [] by simp)⟩

/-- The guard is read. -/
theorem guarded_deref {mode : LockMode} {f : σ → SurfTask σ α}
    (h : ∀ svm, (f svm).wp (svmMonitor σ) ⟨[(.svm, mode)], false⟩ Q) :
    (deref >>= f : SurfTask σ α).wp (svmMonitor σ) ⟨[(.svm, mode)], false⟩ Q :=
  ⟨⟨⟨rfl, _, List.mem_cons_self⟩, rfl⟩, fun svm => h svm⟩

/-- What the guard gives access to is changed, and the guard is dropped. -/
theorem guarded_assign {svm : σ} {f : Unit → SurfTask σ α}
    (h : ∀ g : Grip SvmLock, g.held = [] → (f ()).wp (svmMonitor σ) g Q) :
    (assign svm >>= fun _ => unlock >>= f : SurfTask σ α).wp (svmMonitor σ) ⟨[(.svm, .exclusive)], false⟩ Q :=
  ⟨⟨⟨rfl, List.mem_cons_self⟩, rfl⟩, fun _ => guarded_unlock h⟩

/-- A part that begins and ends without a guard, and does not reply. -/
def Guarded (p : SurfTask σ α) : Prop := ∀ g : Grip SvmLock, g.held = [] → p.wp (svmMonitor σ) g (fun g' _ => g'.held = [])

theorem guarded_ret (a : α) : Guarded (.ret a : SurfTask σ α) := fun _ hg => hg

theorem guarded_bind {p : SurfTask σ α} {f : α → SurfTask σ β} (hp : Guarded p) (hf : ∀ a, Guarded (f a)) : Guarded (p >>= f) :=
  fun g hg => (Prog.wp_bind ..).mpr (Prog.wp_mono (hp g hg) fun g' a hg' => hf a g' hg')

theorem guarded_ensureAccountTask (pubkey : Pubkey) : Guarded (ensureAccountTask P S pubkey) := by
  refine fun g hg => guarded_acquire hg (guarded_deref fun svm => ?_)
  split
  · exact guarded_unlock fun _ hg => hg
  split
  · refine ⟨⟨trivial, rfl⟩, fun answer => ?_⟩
    cases answer with
    | error e => exact guarded_unlock fun _ hg => hg
    | ok account => exact guarded_assign fun _ hg => hg
  · exact guarded_unlock fun _ hg => hg

theorem guarded_ensureAccountsTask (keys : List Pubkey) : Guarded (ensureAccountsTask P S keys) := by
  induction keys with
  | nil => exact guarded_ret _
  | cons key keys ih =>
    refine guarded_bind (guarded_ensureAccountTask key) fun ensured => ?_
    cases ensured with
    | error e => exact guarded_ret _
    | ok _ => exact ih

theorem guarded_simulateTransactionTask (tx : Transaction) : Guarded (simulateTransactionTask P S tx) := by
  refine guarded_bind (guarded_ensureAccountsTask _) fun ensured => ?_
  cases ensured with
  | error e => exact guarded_ret _
  | ok _ =>
    refine fun g hg => guarded_acquire hg ?_
    split
    · exact guarded_unlock fun _ hg => hg
    · refine guarded_deref fun svm => guarded_unlock fun _ hg => ?_
      split <;> exact hg

theorem guarded_fundPayerTask (payer : Pubkey) : Guarded (fundPayerTask S payer) := by
  refine fun g hg => guarded_acquire hg (guarded_deref fun svm => ?_)
  split
  · exact guarded_assign fun _ hg => hg
  · exact guarded_unlock fun _ hg => hg

theorem guarded_sendFundedTask (tx : Transaction) : Guarded (sendFundedTask P S tx) := by
  refine fun g hg => guarded_acquire hg ?_
  split
  · exact guarded_unlock fun _ hg => hg
  · refine guarded_deref fun svm => guarded_assign fun _ hg => ?_
    split <;> exact hg

theorem guarded_sendTransactionTask (tx : Transaction) : Guarded (sendTransactionTask P S tx) := by
  unfold sendTransactionTask
  split
  · exact guarded_sendFundedTask tx
  · refine guarded_bind (guarded_fundPayerTask _) fun funded => ?_
    cases funded with
    | error e => exact guarded_ret _
    | ok _ => exact guarded_sendFundedTask tx

/-- The guard is taken to look at the LiteSVM only. -/
theorem guarded_reading {f : σ → SurfTask σ α} (hf : ∀ svm, Guarded (f svm)) :
    Guarded (read >>= fun _ => deref >>= fun svm => unlock >>= fun _ => f svm : SurfTask σ α) :=
  fun _ hg => guarded_acquire hg (guarded_deref fun svm => guarded_unlock fun g hg => hf svm g hg)

theorem guarded_serve (c : SolanaCall) : Guarded (c.serve P S) := by
  cases c with
  | simulateTransaction tx => exact guarded_simulateTransactionTask tx
  | sendTransaction tx => exact guarded_sendTransactionTask tx
  | getLatestBlockhash => exact guarded_reading fun svm => guarded_ret _
  | getBalance pubkey =>
    refine guarded_bind (guarded_ensureAccountTask pubkey) fun ensured => ?_
    cases ensured with
    | error e => exact guarded_ret _
    | ok _ => exact guarded_reading fun svm => guarded_ret _
  | getAccount pubkey =>
    refine guarded_bind (guarded_ensureAccountTask pubkey) fun ensured => ?_
    cases ensured with
    | error e => exact guarded_ret _
    | ok _ =>
      refine guarded_reading fun svm => ?_
      cases S.getAccount svm pubkey <;> exact guarded_ret _
  | requestAirdrop pubkey lamports =>
    refine fun g hg => guarded_acquire hg (guarded_deref fun svm => guarded_assign fun _ hg => ?_)
    split <;> exact hg
  | _ => exact guarded_ret _

/-- Every call takes the guard only where it holds none, and drops it. -/
theorem disciplined_task (c : SolanaCall) : Disciplined true (c.task P S) := by
  refine (Prog.wp_bind ..).mpr (Prog.wp_mono (Prog.wp_weaken (guarded_serve c _ rfl) rfl fun _ _ h => h.1) fun g answer hg => ?_)
  exact ⟨trivial, fun _ => hg⟩

/-- A part that is guarded does not reply. -/
theorem not_reply_of_guarded {p q : SurfTask σ α} {t : List (SurfEvent σ)} (hp : Guarded p) (hs : Prog.Steps p t q)
    {e : SurfEvent σ} (he : e ∈ t) : isReply e.1 = false := by
  obtain ⟨t₁, t₂, rfl⟩ := List.append_of_mem he
  exact (Prog.wp_allow (hp ⟨[], false⟩ rfl) hs).2

/-- What a call replied, its method returned. -/
theorem exec_serve_of_reply {c c' : SolanaCall} {answer : c'.Answer} {t : List (SurfEvent σ)} {q : SurfTask σ Unit}
    (hs : Prog.Steps (c.task P S) t q) (h : ⟨.outside (.reply c' answer), ()⟩ ∈ t) :
    ∃ u, Prog.Exec (c'.serve P S) u answer ∧ (∀ e ∈ u, e ∈ t) ∧ c = c' := by
  rcases Prog.steps_bind.mp hs with ⟨p', hserve, -⟩ | ⟨t₁, t₂, a, rfl, hserve, hreply⟩
  · cases not_reply_of_guarded (guarded_serve c) hserve h
  · have hlast : (⟨.outside (.reply c' answer), ()⟩ : SurfEvent σ) ∈ t₂ := by
      refine (List.mem_append.mp h).resolve_left fun h₁ => ?_
      cases not_reply_of_guarded (guarded_serve c) hserve h₁
    rcases Prog.steps_call.mp hreply with ⟨rfl, -⟩ | ⟨_, t', rfl, hnone⟩
    · cases hlast
    · rw [(Prog.steps_ret.mp hnone).1] at hlast
      cases List.mem_singleton.mp hlast
      exact ⟨t₁, hserve, fun e he => List.mem_append_left _ he, rfl⟩

/-! ## Moves -/

/-- The LiteSVM is as it was at the beginning of the section, or a call has moved it. -/
def Kept (P : Providers) (S : LiteSvm σ) (c : SolanaCall) (told : List (Event SurfCall.Answer)) (s d : SvmLock → σ) : Prop :=
  d .svm = s .svm ∨ SvmMove P S told (s .svm) c (d .svm)

/-- Sections that are finished: nothing has been done in the next. -/
abbrev Anew {σ α : Type} : α → (SvmLock → σ) → (SvmLock → σ) → Prop := fun _ s d => s = d

/-- A part of a call, wherever it begins between two sections, moves the LiteSVM as the call may, and ends between two. -/
def Moves (P : Providers) (S : LiteSvm σ) (c : SolanaCall) (p : SurfTask σ α) : Prop :=
  ∀ told d released, Effects (Kept P S c) Anew p told d d released

variable {c : SolanaCall} {told : List (Event SurfCall.Answer)} {s d : SvmLock → σ} {released : Bool}

theorem moves_ret (a : α) : Moves P S c (.ret a : SurfTask σ α) := fun _ _ _ => ⟨Or.inl rfl, rfl⟩

theorem moves_bind {p : SurfTask σ α} {f : α → SurfTask σ β} (hp : Moves P S c p) (hf : ∀ a, Moves P S c (f a)) :
    Moves P S c (p >>= f) := by
  refine fun told d released => effects_bind (hp told d released) ?_
  rintro a told s _ released rfl
  exact hf a told s released

theorem moves_acquire {mode : LockMode} {f : Unit → SurfTask σ α}
    (h : ∀ told d, Effects (Kept P S c) Anew (f ()) told d d false) :
    Moves P S c (Prog.perform (LockCall.acquire SvmLock.svm mode) >>= f : SurfTask σ α) :=
  fun told d _ => ⟨Or.inl rfl, fun _ => h told d⟩

theorem effects_unlock {f : Unit → SurfTask σ α} (hkept : Kept P S c told s d) (h : Moves P S c (f ())) :
    Effects (Kept P S c) Anew (unlock >>= f : SurfTask σ α) told s d false :=
  ⟨hkept, fun _ d' => h told d' true⟩

theorem effects_deref {f : σ → SurfTask σ α} (h : Effects (Kept P S c) Anew (f (d .svm)) told d d false) :
    Effects (Kept P S c) Anew (deref >>= f : SurfTask σ α) told d d false :=
  ⟨Or.inl rfl, fun _ => h⟩

theorem effects_assign {svm : σ} {f : Unit → SurfTask σ α} (hmove : SvmMove P S told (d .svm) c svm) (h : Moves P S c (f ())) :
    Effects (Kept P S c) Anew (assign svm >>= fun _ => unlock >>= f : SurfTask σ α) told d d false := by
  refine ⟨Or.inl rfl, fun _ => effects_unlock (Or.inr ?_) h⟩
  show SvmMove P S told (d .svm) c (Function.update d SvmLock.svm svm .svm)
  rw [Function.update_self]
  exact hmove

theorem moves_reading {f : σ → SurfTask σ α} (hf : ∀ svm, Moves P S c (f svm)) :
    Moves P S c (read >>= fun _ => deref >>= fun svm => unlock >>= fun _ => f svm : SurfTask σ α) :=
  moves_acquire fun _ _ => effects_deref (effects_unlock (Or.inl rfl) (hf _))

theorem moves_ensureAccountTask {pubkey : Pubkey} (hpubkey : pubkey ∈ c.accounts) :
    Moves P S c (ensureAccountTask P S pubkey) := by
  refine moves_acquire fun told d => effects_deref ?_
  split
  · exact effects_unlock (Or.inl rfl) (moves_ret _)
  rename_i hnone
  split
  · refine ⟨Or.inl rfl, fun answer => ?_⟩
    cases answer with
    | error e => exact effects_unlock (Or.inl rfl) (moves_ret _)
    | ok account =>
      refine effects_assign (.clone hpubkey ?_ (List.mem_append_right _ List.mem_cons_self)) (moves_ret _)
      rwa [Option.not_isSome_iff_eq_none] at hnone
  · exact effects_unlock (Or.inl rfl) (moves_ret _)

theorem moves_ensureAccountsTask {keys : List Pubkey} (hkeys : ∀ key ∈ keys, key ∈ c.accounts) :
    Moves P S c (ensureAccountsTask P S keys) := by
  induction keys with
  | nil => exact moves_ret _
  | cons key keys ih =>
    obtain ⟨hkey, hkeys⟩ := List.forall_mem_cons.mp hkeys
    refine moves_bind (moves_ensureAccountTask hkey) fun ensured => ?_
    cases ensured with
    | error e => exact moves_ret _
    | ok _ => exact ih hkeys

theorem moves_simulateTransactionTask (tx : Transaction) :
    Moves P S (.simulateTransaction tx) (simulateTransactionTask P S tx) := by
  refine moves_bind (moves_ensureAccountsTask fun _ hkey => hkey) fun ensured => ?_
  cases ensured with
  | error e => exact moves_ret _
  | ok _ =>
    refine moves_acquire fun told d => ?_
    split
    · exact effects_unlock (Or.inl rfl) (moves_ret _)
    · refine effects_deref (effects_unlock (Or.inl rfl) ?_)
      split <;> exact moves_ret _

theorem moves_sendFundedTask (tx : Transaction) : Moves P S (.sendTransaction tx) (sendFundedTask P S tx) := by
  refine moves_acquire fun told d => ?_
  split
  · exact effects_unlock (Or.inl rfl) (moves_ret _)
  · rename_i versionedTx hencoded
    refine effects_deref (effects_assign (.send hencoded) ?_)
    split <;> exact moves_ret _

theorem moves_fundPayerTask {tx : Transaction} {payer : Pubkey} (hpayer : tx.message.accountKeys.head? = some payer) :
    Moves P S (.sendTransaction tx) (fundPayerTask S payer) := by
  refine moves_acquire fun told d => effects_deref ?_
  split
  · rename_i hshort
    exact effects_assign (.fund hpayer hshort) (moves_ret _)
  · exact effects_unlock (Or.inl rfl) (moves_ret _)

theorem moves_sendTransactionTask (tx : Transaction) : Moves P S (.sendTransaction tx) (sendTransactionTask P S tx) := by
  unfold sendTransactionTask
  split
  · exact moves_sendFundedTask tx
  · rename_i payer hpayer
    refine moves_bind (moves_fundPayerTask hpayer) fun funded => ?_
    cases funded with
    | error e => exact moves_ret _
    | ok _ => exact moves_sendFundedTask tx

theorem moves_serve (c : SolanaCall) : Moves P S c (c.serve P S) := by
  cases c with
  | simulateTransaction tx => exact moves_simulateTransactionTask tx
  | sendTransaction tx => exact moves_sendTransactionTask tx
  | getLatestBlockhash => exact moves_reading fun svm => moves_ret _
  | getBalance pubkey =>
    refine moves_bind (moves_ensureAccountTask (List.mem_singleton_self pubkey)) fun ensured => ?_
    cases ensured with
    | error e => exact moves_ret _
    | ok _ => exact moves_reading fun svm => moves_ret _
  | getAccount pubkey =>
    refine moves_bind (moves_ensureAccountTask (List.mem_singleton_self pubkey)) fun ensured => ?_
    cases ensured with
    | error e => exact moves_ret _
    | ok _ =>
      refine moves_reading fun svm => ?_
      cases S.getAccount svm pubkey <;> exact moves_ret _
  | requestAirdrop pubkey lamports =>
    refine moves_acquire fun told d => effects_deref (effects_assign .airdrop ?_)
    split <;> exact moves_ret _
  | _ => exact moves_ret _

/-- A call moves the LiteSVM as it may, a section at a time. -/
theorem effects_task (c : SolanaCall) (d : SvmLock → σ) :
    Effects (Kept P S c) (fun _ _ _ => True) (c.task P S) [] d d false := by
  refine effects_bind (moves_serve c [] d false) ?_
  rintro answer told s _ released rfl
  exact ⟨Or.inl rfl, fun _ => ⟨Or.inl rfl, trivial⟩⟩

variable {svm₀ : σ} {x : SurfTasks σ}

/-- What happened before a label happened after it. -/
theorem Moved.append {log : List (SurfLabel σ)} {svm svm' : σ} (h : Moved P S log svm svm') (log' : List (SurfLabel σ)) :
    Moved P S (log ++ log') svm svm' := by
  obtain ⟨t, c, told, hdelivered, htold, hmove⟩ := h
  exact ⟨t, c, told, List.mem_append_left _ hdelivered, fun e he => List.mem_append_left _ (htold e he), hmove⟩

/-- The LiteSVM of a run comes from the first by the moves of the calls. -/
theorem cameThrough (h : Locked.Reach (SolanaCall.task P S) (Locked.init fun _ => svm₀) x) :
    CameThrough P S x.log svm₀ (x.data .svm) := by
  have hdone := h.related (R := Kept P S) disciplined_task effects_task
  generalize hdata : x.data = data at hdone
  clear hdata
  induction hdone with
  | refl => exact .refl
  | @tail s d _ hstep ih =>
    obtain ⟨t, c, told, hdelivered, htold, hsame | hmove⟩ := hstep
    · rw [hsame]
      exact ih
    · refine ih.tail ⟨t, c, told, hdelivered, fun e he => ?_, hmove⟩
      rcases mem_of_mem_outsideAfter (htold.subset he) with hnil | hmem
      · cases hnil
      · exact Pool.mem_traceOf.mp hmem

/-- Every state of the LiteSVM that a call read is one it came through. -/
theorem cameThrough_of_read (h : Locked.Reach (SolanaCall.task P S) (Locked.init fun _ => svm₀) x) {t : Nat} {svm : σ}
    (hmem : .call t ⟨.get .svm, svm⟩ ∈ x.log) : CameThrough P S x.log svm₀ svm := by
  obtain ⟨log, log', hlog⟩ := List.append_of_mem hmem
  obtain ⟨x₁, y₁, hr, hs, rfl⟩ := h.step_of_split hlog
  have hread : svm = x₁.data .svm := by
    generalize hl : (.call t ⟨.get .svm, svm⟩ : SurfLabel σ) = l at hs
    cases hs with
    | @call u m c k r hc hgranted =>
      cases c with
      | get l =>
        cases hl
        rfl
      | _ => cases hl
    | _ => cases hl
  rw [hread, hlog]
  exact Relation.ReflTransGen.mono (fun _ _ hmoved => Moved.append hmoved _) _ _ (cameThrough hr)

/-! ## Simulations -/

/-- What the calls of a part were answered. -/
abbrev DrawnFrom (S : LiteSvm σ) (u : List (SurfEvent σ)) : ProviderEvent → Prop :=
  Drawn S (fun svm => ⟨.get .svm, svm⟩ ∈ u) fun pubkey answer => ⟨.outside (.rpcGetAccount pubkey), answer⟩ ∈ u

theorem drawn_mono {holds holds' : σ → Prop} {told told' : Pubkey → Except String Account → Prop} {e : ProviderEvent}
    (h : Drawn S holds told e) (hholds : ∀ svm, holds svm → holds' svm) (htold : ∀ pubkey a, told pubkey a → told' pubkey a) :
    Drawn S holds' told' e := by
  cases h with
  | hasAccount pubkey hsvm => exact .hasAccount pubkey (hholds _ hsvm)
  | rpcGetAccount hanswer => exact .rpcGetAccount (htold _ _ hanswer)
  | setAccount pubkey account hsvm => exact .setAccount pubkey account (hholds _ hsvm)
  | simulate versionedTx hsvm => exact .simulate versionedTx (hholds _ hsvm)

theorem drawnFrom_mono {u u' : List (SurfEvent σ)} {us : List ProviderEvent} (h : ∀ e ∈ us, DrawnFrom S u e)
    (hu : ∀ e ∈ u, e ∈ u') : ∀ e ∈ us, DrawnFrom S u' e :=
  fun e he => drawn_mono (h e he) (fun _ => hu _) fun _ _ => hu _

/-- A part under the lock comes to what the part of `Provider` comes to, when that one is answered from the LiteSVM. -/
def Refines (S : LiteSvm σ) (p : SurfTask σ α) (p' : ProviderProg α) : Prop :=
  ∀ u a, Prog.Exec p u a → ∃ us, Prog.Exec p' us a ∧ ∀ e ∈ us, DrawnFrom S u e

theorem refines_ret (a : α) : Refines S (.ret a) (.ret a) := by
  rintro u b h
  obtain ⟨rfl, rfl⟩ := Prog.exec_ret.mp h
  exact ⟨[], .nil _, fun e he => by cases he⟩

theorem refines_bind {p : SurfTask σ α} {p' : ProviderProg α} {f : α → SurfTask σ β} {f' : α → ProviderProg β}
    (hp : Refines S p p') (hf : ∀ a, Refines S (f a) (f' a)) : Refines S (p >>= f) (p' >>= f') := by
  intro u b h
  obtain ⟨u₁, u₂, a, rfl, h₁, h₂⟩ := Prog.exec_bind.mp h
  obtain ⟨us₁, h₁', hdrawn₁⟩ := hp u₁ a h₁
  obtain ⟨us₂, h₂', hdrawn₂⟩ := hf a u₂ b h₂
  refine ⟨us₁ ++ us₂, Prog.exec_bind.mpr ⟨us₁, us₂, a, rfl, h₁', h₂'⟩, List.forall_mem_append.mpr ⟨?_, ?_⟩⟩
  · exact drawnFrom_mono hdrawn₁ fun _ => List.mem_append_left _
  · exact drawnFrom_mono hdrawn₂ fun _ => List.mem_append_right _

/-- A guard taken or dropped does not show. -/
theorem refines_silent {call : LockCall SvmLock (fun _ => σ) SurfCall} {f : call.Answer SurfCall.Answer → SurfTask σ β}
    {p' : ProviderProg β} (hf : ∀ a, Refines S (f a) p') : Refines S (Prog.perform call >>= f) p' := by
  intro u b h
  obtain ⟨a, u', rfl, h'⟩ := Prog.exec_perform.mp h
  obtain ⟨us, hus, hdrawn⟩ := hf a u' b h'
  exact ⟨us, hus, drawnFrom_mono hdrawn fun _ => List.mem_cons_of_mem _⟩

/-- The guard is dropped, and the part returns. -/
theorem exec_unlock_ret {u : List (SurfEvent σ)} {a b : α} (h : Prog.Exec (unlock >>= fun _ => .ret a : SurfTask σ α) u b) :
    a = b := by
  obtain ⟨_, u', rfl, h'⟩ := Prog.exec_perform.mp h
  exact (Prog.exec_ret.mp h').2

theorem refines_ensureAccountTask (pubkey : Pubkey) : Refines S (ensureAccountTask P S pubkey) (ensureAccount P pubkey) := by
  refine refines_silent fun _ v result hexec => ?_
  obtain ⟨svm, v, rfl, h⟩ := Prog.exec_perform.mp hexec
  clear hexec
  have hhas : DrawnFrom S (⟨.get .svm, svm⟩ :: v) ⟨.svmHasAccount pubkey, (S.getAccount svm pubkey).isSome⟩ :=
    .hasAccount pubkey List.mem_cons_self
  by_cases hsome : (S.getAccount svm pubkey).isSome = true
  · rw [if_pos hsome] at h
    refine ⟨[⟨.svmHasAccount pubkey, _⟩], Prog.exec_perform_cons.mpr ?_, List.forall_mem_singleton.mpr hhas⟩
    rw [if_pos hsome, ← exec_unlock_ret h]
    exact .nil _
  rw [if_neg hsome] at h
  by_cases hcloning : P.cloning = true
  · rw [if_pos hcloning] at h
    obtain ⟨answer, u, rfl, hu⟩ := Prog.exec_perform.mp h
    have htold : DrawnFrom S (⟨.get .svm, svm⟩ :: ⟨.outside (.rpcGetAccount pubkey), answer⟩ :: u)
        ⟨.rpcGetAccount pubkey, answer⟩ :=
      .rpcGetAccount (List.mem_cons_of_mem _ List.mem_cons_self)
    cases answer with
    | error e =>
      refine ⟨[⟨.svmHasAccount pubkey, _⟩, ⟨.rpcGetAccount pubkey, .error e⟩], Prog.exec_perform_cons.mpr ?_,
        List.forall_mem_cons.mpr ⟨hhas, List.forall_mem_singleton.mpr htold⟩⟩
      rw [if_neg hsome, if_pos hcloning, ← exec_unlock_ret hu]
      exact .cons _ _ (.nil _)
    | ok account =>
      obtain ⟨_, w, rfl, hw⟩ := Prog.exec_perform.mp hu
      refine ⟨[⟨.svmHasAccount pubkey, _⟩, ⟨.rpcGetAccount pubkey, .ok account⟩, ⟨.svmSetAccount pubkey account, _⟩],
        Prog.exec_perform_cons.mpr ?_, List.forall_mem_cons.mpr ⟨hhas, List.forall_mem_cons.mpr ⟨htold,
          List.forall_mem_singleton.mpr (.setAccount pubkey account List.mem_cons_self)⟩⟩⟩
      rw [if_neg hsome, if_pos hcloning, ← exec_unlock_ret hw]
      exact .cons _ _ (.cons _ _ (.nil _))
  · rw [if_neg hcloning] at h
    refine ⟨[⟨.svmHasAccount pubkey, _⟩], Prog.exec_perform_cons.mpr ?_, List.forall_mem_singleton.mpr hhas⟩
    rw [if_neg hsome, if_neg hcloning, ← exec_unlock_ret h]
    exact .nil _

theorem refines_ensureAccountsTask (keys : List Pubkey) : Refines S (ensureAccountsTask P S keys) (ensureAccounts P keys) := by
  induction keys with
  | nil => exact refines_ret _
  | cons key keys ih =>
    refine refines_bind (refines_ensureAccountTask key) fun ensured => ?_
    cases ensured with
    | error e => exact refines_ret _
    | ok _ => exact ih

theorem refines_simulateTransactionTask (tx : Transaction) :
    Refines S (simulateTransactionTask P S tx) (surfpoolSimulateTransaction P tx) := by
  refine refines_bind (refines_ensureAccountsTask _) fun ensured => ?_
  cases ensured with
  | error e => exact refines_ret _
  | ok _ =>
    refine refines_silent fun _ => ?_
    cases P.reencode tx with
    | error e => exact refines_silent fun _ => refines_ret _
    | ok versionedTx =>
      intro u result hexec
      obtain ⟨svm, v, rfl, hv⟩ := Prog.exec_perform.mp hexec
      obtain ⟨_, w, rfl, h⟩ := Prog.exec_perform.mp hv
      refine ⟨[⟨.svmSimulate versionedTx, S.simulateTransaction svm versionedTx⟩], Prog.exec_perform_cons.mpr ?_,
        List.forall_mem_singleton.mpr (.simulate versionedTx List.mem_cons_self)⟩
      cases hsim : S.simulateTransaction svm versionedTx with
      | error e =>
        simp only [hsim] at h
        exact (Prog.exec_ret.mp h).2 ▸ .nil _
      | ok units =>
        simp only [hsim] at h
        exact (Prog.exec_ret.mp h).2 ▸ .nil _

end SurfpoolAux

open SurfpoolAux

variable {P S} {svm₀ : σ} {x : SurfTasks σ}

/-- Whatever calls run side by side and whatever callers give up, in every state of the run the LiteSVM has come from the first
by moves of calls that were made, one at a time: an account it did not have cloned as the RPC node had it, a payer funded that
was short, a transaction sent, an airdrop given. And so has every state of it that a call read. -/
theorem surfpool_moves (h : Locked.Reach (SolanaCall.task P S) (Locked.init fun _ => svm₀) x) :
    CameThrough P S x.log svm₀ (x.data .svm) ∧ ∀ t svm, .call t ⟨.get .svm, svm⟩ ∈ x.log → CameThrough P S x.log svm₀ svm :=
  ⟨cameThrough h, fun _ _ hmem => cameThrough_of_read h hmem⟩

/-- Whatever else goes on, a simulation is answered as `surfpoolSimulateTransaction` answers when what it asks of the LiteSVM
is read off states that the LiteSVM has come through, and what it asks of the RPC node is what the node said. -/
theorem surfpool_simulation_refines (h : Locked.Reach (SolanaCall.task P S) (Locked.init fun _ => svm₀) x) {t : Nat}
    {tx : Transaction} {result : Except String SimulationResult}
    (hreply : .call t ⟨.outside (.reply (.simulateTransaction tx) result), ()⟩ ∈ x.log) :
    ∃ us, Prog.Exec (surfpoolSimulateTransaction P tx) us result ∧ ∀ e ∈ us, Drawn S (CameThrough P S x.log svm₀)
      (fun pubkey answer => .call t ⟨.outside (.rpcGetAccount pubkey), answer⟩ ∈ x.log) e := by
  have hmem := Pool.mem_traceOf.mpr hreply
  cases hthread : x.threads t with
  | none =>
    rw [(h.begun t).1 hthread] at hmem
    cases hmem
  | some th =>
    obtain ⟨c, q⟩ := th
    obtain ⟨-, q', hsteps, -⟩ := (h.begun t).2 c q hthread
    obtain ⟨u, hserve, hu, -⟩ := exec_serve_of_reply hsteps hmem
    obtain ⟨us, hus, hdrawn⟩ := refines_simulateTransactionTask tx u result hserve
    refine ⟨us, hus, fun e he => drawn_mono (hdrawn e he) (fun svm hsvm => ?_) fun pubkey answer hanswer => ?_⟩
    · exact cameThrough_of_read h (Pool.mem_traceOf.mp (hu _ hsvm))
    · exact Pool.mem_traceOf.mp (hu _ hanswer)

/-- As long as a call has something to do, some call can go on: nobody waits for a guard that is not dropped, also when it is
held over a question to the RPC node. -/
theorem surfpool_calls_go_on (h : Locked.Reach (SolanaCall.task P S) (Locked.init fun _ => svm₀) x) {t : Nat} {c : SolanaCall}
    {call : LockCall SvmLock (fun _ => σ) SurfCall} {k : call.Answer SurfCall.Answer → SurfTask σ Unit}
    (ht : x.threads t = some (c, .call call k)) : ∃ u e y, Locked.Step (SolanaCall.task P S) x (.call u e) y := by
  refine h.progress disciplined_task (fun i => ?_) ht
  cases i with
  | rpcGetAccount pubkey => exact ⟨.error "AccountNotFound"⟩
  | reply c answer => exact ⟨()⟩

end Surfpool

/-! ## A simulation and a transaction -/

namespace SurfpoolAux

open SampleAux

/-- An account without data. -/
def walletOf (lamports : UInt64) : Account :=
  { lamports := lamports, data := [], owner := ⟨Vector.replicate 32 0⟩, executable := false, rentEpoch := 0 }

/-- The accounts by their keys: enough of LiteSVM for transactions that the payer signs alone and that only cost the fee. -/
def balances : LiteSvm (List (Pubkey × Account)) where
  getAccount svm pubkey := svm.lookup pubkey
  setAccount svm pubkey account := (.ok (), (pubkey, account) :: svm)
  getBalance svm pubkey := (svm.lookup pubkey).map Account.lamports
  airdrop svm pubkey lamports := (.ok (), (pubkey, walletOf (((svm.lookup pubkey).map Account.lamports).getD 0 + lamports)) :: svm)
  simulateTransaction _ _ := .ok 150
  sendTransaction svm _ := (.ok (), (payer, walletOf (((svm.lookup payer).map Account.lamports).getD 0 - 5000)) :: svm)
  latestBlockhash _ := hashOf 5

/-- A transaction with an instruction that names the payer. -/
def namingTx : Transaction :=
  { datedTx with message := { datedTx.message with instructions := [⟨0, [0], []⟩] } }

/-- The bridge's Surfpool, with a client to clone accounts with. -/
def cloningProviders : Providers :=
  { SimulationAux.providers with
    deserializeVersioned := fun b => ((ctx [datedTx, namingTx]).deserialize b).map .ofTransaction
    cloning := true }

/-- The answers: the RPC node has the payer. -/
def surfAnswer : (c : LockCall SvmLock (fun _ => List (Pubkey × Account)) SurfCall) → Option (c.Answer SurfCall.Answer)
  | .acquire _ _ => some ()
  | .release _ => some ()
  | .get _ => some []
  | .set _ _ => some ()
  | .outside (.rpcGetAccount _) => some (.ok (walletOf 7))
  | .outside (.reply _ _) => some ()

/-- A transaction is to be sent while a simulation clones its payer. -/
def surfScript : List (Pool.Action (LockCall SvmLock (fun _ => List (Pubkey × Account)) SurfCall)
    (LockCall.Answer SurfCall.Answer) SolanaCall Nat) :=
  [.deliver 0 (.simulateTransaction namingTx), .deliver 1 (.sendTransaction datedTx), .call 0 surfAnswer, .call 0 surfAnswer]

/-- The payer is cloned, then funded; the simulation and the transaction follow. -/
def surfEnd : List (Pool.Action (LockCall SvmLock (fun _ => List (Pubkey × Account)) SurfCall)
    (LockCall.Answer SurfCall.Answer) SolanaCall Nat) :=
  List.replicate 3 (.call 0 surfAnswer) ++ List.replicate 4 (.call 1 surfAnswer) ++ List.replicate 4 (.call 0 surfAnswer) ++
    List.replicate 5 (.call 1 surfAnswer)

/-- Where the run ends. -/
def surfRun (script : List (Pool.Action (LockCall SvmLock (fun _ => List (Pubkey × Account)) SurfCall)
    (LockCall.Answer SurfCall.Answer) SolanaCall Nat)) : Option (SurfTasks (List (Pubkey × Account))) :=
  (Locked.init fun _ => []).exec (SolanaCall.task cloningProviders balances) script

/-- The simulation has been answered, by its reply. -/
def simulated : SurfLabel (List (Pubkey × Account)) → Bool
  | .call 0 ⟨.outside (.reply (.simulateTransaction tx) (.ok result)), ()⟩ =>
    decide (tx = namingTx ∧ result = { err := none, unitsConsumed := some 150 })
  | _ => false

theorem eq_of_simulated {l : SurfLabel (List (Pubkey × Account))} (h : simulated l = true) :
    l = .call 0 ⟨.outside (.reply (.simulateTransaction namingTx) (.ok { err := none, unitsConsumed := some 150 })), ()⟩ := by
  unfold simulated at h
  split at h
  · obtain ⟨rfl, rfl⟩ := of_decide_eq_true h
    rfl
  · cases h

end SurfpoolAux

open SurfpoolAux SampleAux

/-- The payer was cloned with 7 lamports, got an airdrop, and paid for the transaction. -/
theorem surfpool_moves_beside : ∃ x : SurfTasks (List (Pubkey × Account)),
    Locked.Reach (SolanaCall.task cloningProviders balances) (Locked.init fun _ => []) x ∧
    balances.getBalance (x.data .svm) payer = some 9999995007 ∧
    CameThrough cloningProviders balances x.log [] (x.data .svm) ∧
    ∀ t svm, .call t ⟨.get .svm, svm⟩ ∈ x.log → CameThrough cloningProviders balances x.log [] svm := by
  have hrun : (surfRun (surfScript ++ surfEnd)).any (fun x =>
      decide (balances.getBalance (x.data .svm) payer = some 9999995007)) = true := by
    decide +kernel
  obtain ⟨x, hx, htest⟩ := Locked.exists_reach_of_exec hrun
  exact ⟨x, hx, of_decide_eq_true htest, surfpool_moves hx⟩

/-- The simulation was answered from the balances. -/
theorem surfpool_simulation_refines_beside : ∃ x : SurfTasks (List (Pubkey × Account)),
    Locked.Reach (SolanaCall.task cloningProviders balances) (Locked.init fun _ => []) x ∧
    ∃ us, Prog.Exec (surfpoolSimulateTransaction cloningProviders namingTx) us
        (.ok { err := none, unitsConsumed := some 150 }) ∧
      ∀ e ∈ us, Drawn balances (CameThrough cloningProviders balances x.log [])
        (fun pubkey answer => .call 0 ⟨.outside (.rpcGetAccount pubkey), answer⟩ ∈ x.log) e := by
  have hrun : (surfRun (surfScript ++ surfEnd)).any (fun x => x.log.any simulated) = true := by
    decide +kernel
  obtain ⟨x, hx, htest⟩ := Locked.exists_reach_of_exec hrun
  obtain ⟨l, hl, hsimulated⟩ := List.any_eq_true.mp htest
  rw [eq_of_simulated hsimulated] at hl
  exact ⟨x, hx, surfpool_simulation_refines hx hl⟩

/-- The transaction waits, and the simulation can go on. -/
theorem surfpool_calls_go_on_beside : ∃ x : SurfTasks (List (Pubkey × Account)),
    Locked.Reach (SolanaCall.task cloningProviders balances) (Locked.init fun _ => []) x ∧
    (∃ c k, x.threads 1 = some (c, .call (.acquire .svm .exclusive) k)) ∧
    ∃ u e y, Locked.Step (SolanaCall.task cloningProviders balances) x (.call u e) y := by
  have hrun : (surfRun surfScript).any (fun x => decide (x.awaits 1 = some (.svm, .exclusive))) = true := by
    decide +kernel
  obtain ⟨x, hx, htest⟩ := Locked.exists_reach_of_exec hrun
  obtain ⟨c, k, ht⟩ := Locked.exists_acquire_of_awaits (of_decide_eq_true htest)
  exact ⟨x, hx, ⟨c, k, ht⟩, surfpool_calls_go_on hx ht⟩

end ChainBridge
