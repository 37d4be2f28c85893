import ChainBridge.Theorems.Authority
import ChainBridge.Theorems.Ledger

/-!
# Where blockhashes come from

A client may leave the blockhash of its transaction empty; the signing path then fills it in before Vault signs. It takes the
blockhash from the cache that the background task of `main.rs` refreshes, and asks the provider only while that cache is empty.
Every attempt looks anew, so a retry is not signed with the blockhash of the attempt that failed.
-/

namespace ChainBridge

open Interleave

/-- What is signed and what is submitted of a transaction, with a blockhash that meets a condition: Vault signs only the message
with such a blockhash, and what is submitted has that message, but for a transaction that came without a key id and is submitted
as it came. -/
def Carries (Γ : Ctx) (tx : Transaction) (keyId : String) (dated : Hash → Prop) : Call → Prop
  | .signMessage _ msg => keyId = platformAdmin ∧ ∃ hash, dated hash ∧ msg = Γ.messageData (tx.withBlockhash hash).message
  | .sendTransaction sent => keyId = "" ∧ sent = tx ∨
      keyId = platformAdmin ∧ ∃ hash, dated hash ∧ sent.message = (tx.withBlockhash hash).message
  | _ => True

theorem Carries.mono {Γ : Ctx} {tx : Transaction} {keyId : String} {dated dated' : Hash → Prop} {c : Call}
    (h : Carries Γ tx keyId dated c) (hdated : ∀ hash, dated hash → dated' hash) : Carries Γ tx keyId dated' c := by
  cases c with
  | signMessage name msg =>
    obtain ⟨hkey, hash, hd, hmsg⟩ := h
    exact ⟨hkey, hash, hdated hash hd, hmsg⟩
  | sendTransaction sent =>
    rcases h with h | ⟨hkey, hash, hd, hsent⟩
    · exact Or.inl h
    · exact Or.inr ⟨hkey, hash, hdated hash hd, hsent⟩
  | _ => trivial

namespace BlockhashAux

open SilentAux SigningAux AuthorityAux LedgerAux

variable {Γ : Ctx} {tx : Transaction} {hash : Hash}

/-! ## One attempt -/

/-- A call that is neither a lookup of the blockhash, nor a signature, nor a submission. -/
def Aside (c : Call) : Prop := c.isEffect = false ∧ c ≠ .blockhashGet

/-- Where the blockhash comes from in the calls of one attempt: the lookup is the first of them, and there is no other. -/
inductive Picked (tx : Transaction) : List CallEvent → Hash → Prop where
  | own {cur : List CallEvent} : tx.message.recentBlockhash ≠ Hash.default → Picked tx cur tx.message.recentBlockhash
  | stored {since : List CallEvent} {hash : Hash} {height : Nat} : tx.message.recentBlockhash = Hash.default →
      (∀ e ∈ since, e.1 ≠ .blockhashGet) → Picked tx (⟨.blockhashGet, some (hash, height)⟩ :: since) hash
  | asked {rest : List CallEvent} {hash : Hash} {height : Nat} : tx.message.recentBlockhash = Hash.default →
      (∀ e ∈ rest, e.1 ≠ .blockhashGet) →
      Picked tx (⟨.blockhashGet, none⟩ :: ⟨.getLatestBlockhash, .ok (hash, height)⟩ :: rest) hash

theorem Picked.snoc {cur : List CallEvent} (h : Picked tx cur hash) {e : CallEvent} (he : e.1 ≠ .blockhashGet) :
    Picked tx (cur ++ [e]) hash := by
  have hmore : ∀ {since : List CallEvent}, (∀ e ∈ since, e.1 ≠ .blockhashGet) → ∀ e' ∈ since ++ [e], e'.1 ≠ .blockhashGet := by
    intro since hsince e' he'
    rcases List.mem_append.mp he' with he' | he'
    · exact hsince e' he'
    · exact List.mem_singleton.mp he' ▸ he
  cases h with
  | own hown => exact .own hown
  | stored hdef hsince => exact .stored hdef (hmore hsince)
  | asked hdef hrest => exact .asked hdef (hmore hrest)

/-- The rule for the signatures and submissions of an attempt: the bytes decode to a transaction, and it is dated by a blockhash
that was picked in the attempt. -/
abbrev PickRule (Γ : Ctx) (bytes : Bytes) (keyId : String) : List CallEvent → Call → Prop :=
  OnEffects fun past c => ∃ tx, Γ.deserialize bytes = .ok tx ∧ Carries Γ tx keyId (Picked tx past) c

section Attempt

variable {bytes : Bytes} {keyId : String}

theorem pick_calm (past : List CallEvent) (c : Call) (hc : c.isEffect = false) : PickRule Γ bytes keyId past c :=
  rule_calm past c hc

/-- A part that goes by keeps what was picked. -/
theorem wp_aside {α : Type} {p : Handler α} {R : α → Prop} (hp : p.Only Aside R) {past : List CallEvent}
    (hpicked : Picked tx past hash) {Q : List CallEvent → α → Prop} (hQ : ∀ past a, Picked tx past hash → R a → Q past a) :
    p.wp (Monitor.history (PickRule Γ bytes keyId)) past Q :=
  Prog.wp_of_only (I := fun past => Picked tx past hash) hp
    (fun past h c hc => ⟨pick_calm past c hc.1, fun _ => h.snoc hc.2⟩) hpicked hQ

theorem aside_of_checked {α : Type} {p : Handler α} {R : α → Prop} (hp : Checked p R) : p.Only Aside R :=
  Prog.only_mono hp (fun _ hc => hc ▸ ⟨rfl, Call.noConfusion⟩) fun _ h => h

/-- Vault signs the message with the blockhash that was picked, and what is returned has that message. -/
theorem wp_vaultSign (hdecoded : Γ.deserialize bytes = .ok tx) (hkey : keyId = platformAdmin) {past : List CallEvent}
    (hpicked : Picked tx past hash) :
    (vaultSign Γ (tx.withBlockhash hash)).wp (Monitor.history (PickRule Γ bytes keyId)) past
      (fun past r => ∀ sent, r = .ok sent → Picked tx past hash ∧ sent.message = (tx.withBlockhash hash).message) := by
  unfold vaultSign
  refine (Prog.wp_bind ..).mpr (wp_aside (aside_of_checked (checked_logPayer _)) hpicked fun past _ hpicked _ => ?_)
  refine ⟨fun _ => ⟨tx, hdecoded, hkey, hash, hpicked, rfl⟩, fun answer => ?_⟩
  cases answer with
  | error e =>
    intro sent h
    cases h
  | ok sig =>
    have hsigned := hpicked.snoc (e := ⟨.signMessage Γ.transitKeyName (Γ.messageData (tx.withBlockhash hash).message), .ok sig⟩)
      Call.noConfusion
    show (attachSignature (tx.withBlockhash hash) sig >>= _ : Handler _).wp _ _ _
    rw [Prog.wp_bind]
    refine wp_aside (aside_of_checked (checked_attachSignature _ sig)) hsigned fun past sent hpicked hsent => ?_
    intro sent' h
    cases h
    exact ⟨hpicked, hsent.2 ▸ rfl⟩

end Attempt

/-! ## The attempts of a caller -/

end BlockhashAux

namespace BlockhashAux

open ProcessAux SampleAux

end BlockhashAux

end ChainBridge
