import ChainBridge.Lib.Chain
import ChainBridge.Lemmas.Sample
import Mathlib.Data.List.Forall2

/-!
# What the tip of the audit chain commits to

An entry is hashed as the 32 bytes of the link before it, then its fields one after the other with nothing between them. So the
tip of a list of entries commits to the bytes of the fields of each entry, and not to where one field ends and the next begins;
and as the all-zero hash stands for the missing link of the first entry, entries whose own tip is the all-zero digest may stand
before it unnoticed.
-/

namespace ChainBridge

/-- The fold of `entry_hash` over a list of entries, from the empty tip. -/
def tipHash (Γ : Ctx) (entries : List AuditEntry) : Option AuditHash :=
  entries.foldl (fun prev e => some (e.entryHash Γ prev)) none

/-- The fields an edit may change. -/
structure SameFields (e e' : AuditEntry) : Prop where
  correlationId : e.correlationId = e'.correlationId
  identity : e.identity = e'.identity
  action : e.action = e'.action
  outcome : e.outcome = e'.outcome
  createdAtMs : e.createdAtMs = e'.createdAtMs

/-- Two lists of entries agree entry by entry. -/
abbrev Agree (l l' : List AuditEntry) : Prop := List.Forall₂ SameFields l l'

/-- The fields of an entry as they are hashed. -/
def AuditEntry.fieldBytes (Γ : Ctx) (e : AuditEntry) : Bytes :=
  strBytes e.correlationId ++ strBytes e.identity ++ strBytes e.action ++ strBytes (outcomeText Γ e.outcome) ++
    leBytes e.createdAtMs

/-- Where the fields of an entry are cut: the lengths in bytes of the three free-form strings. -/
def AuditEntry.cuts (e : AuditEntry) : Nat × Nat × Nat :=
  (e.correlationId.utf8ByteSize, e.identity.utf8ByteSize, e.action.utf8ByteSize)

/-- The all-zero hash. -/
def zeroHash : AuditHash := ⟨Vector.replicate 32 0⟩

/-- What is hashed along a list of entries. -/
def hashedBytes (Γ : Ctx) (entries : List AuditEntry) : Set Bytes :=
  {b | ∃ p e s, entries = p ++ e :: s ∧ b = prevBytes (tipHash Γ p) ++ e.fieldBytes Γ}

/-- The entries have the same bytes and are cut differently somewhere. -/
def Recut (Γ : Ctx) (l l' : List AuditEntry) : Prop :=
  l.map (·.fieldBytes Γ) = l'.map (·.fieldBytes Γ) ∧ l.map (·.cuts) ≠ l'.map (·.cuts)

/-- The first list has the bytes of the second one behind entries whose tip is the all-zero digest. -/
def HiddenStart (Γ : Ctx) (l l' : List AuditEntry) : Prop :=
  ∃ p s, l = p ++ s ∧ s ≠ [] ∧ tipHash Γ p = some zeroHash ∧ s.map (·.fieldBytes Γ) = l'.map (·.fieldBytes Γ)

namespace TamperAux

variable {Γ : Ctx}

/-! ## The bytes of the fields -/

theorem strBytes_injective : Function.Injective strBytes := by
  intro s t h
  exact String.toByteArray_inj.mp (ByteArray.ext (Array.toList_inj.mp h))

/-- Numbers with the same low digits agree below the place where the digits end. -/
theorem mod_pow_eq {n m k : Nat} (h : ∀ i < k, n / 256 ^ i % 256 = m / 256 ^ i % 256) : n % 256 ^ k = m % 256 ^ k := by
  induction k with
  | zero => simp [Nat.mod_one]
  | succ k ih =>
    have hlow := ih fun i hi => h i (by omega)
    rw [Nat.mod_pow_succ, Nat.mod_pow_succ, hlow, h k (by omega)]

theorem leBytes_injective : Function.Injective leBytes := by
  intro n m h
  have hbyte : ∀ i < 8, n.toNat / 256 ^ i % 256 = m.toNat / 256 ^ i % 256 := by
    intro i hi
    have hi' := List.map_inj_left.mp h i (List.mem_range.mpr hi)
    simpa using congrArg UInt8.toNat hi'
  have hmod := mod_pow_eq hbyte
  have hn := n.toNat_lt
  have hm := m.toNat_lt
  exact UInt64.toNat_inj.mp (by omega)

theorem length_leBytes (n : UInt64) : (leBytes n).length = 8 := by
  rw [leBytes, List.length_map, List.length_range]

/-- The bytes of an entry, cut where it says, are its fields. -/
theorem sameFields_of_bytes {e e' : AuditEntry}
    (hjson : outcomeText Γ e.outcome = outcomeText Γ e'.outcome → e.outcome = e'.outcome)
    (hbytes : e.fieldBytes Γ = e'.fieldBytes Γ) (hcuts : e.cuts = e'.cuts) : SameFields e e' := by
  simp only [AuditEntry.cuts, Prod.mk.injEq] at hcuts
  obtain ⟨hcorr, hident, haction⟩ := hcuts
  unfold AuditEntry.fieldBytes at hbytes
  -- the time is cut off from the end, the strings from the front
  obtain ⟨hbytes, htime⟩ := List.append_inj' hbytes (by rw [length_leBytes, length_leBytes])
  simp only [List.append_assoc] at hbytes
  obtain ⟨h1, hbytes⟩ := List.append_inj hbytes hcorr
  obtain ⟨h2, hbytes⟩ := List.append_inj hbytes hident
  obtain ⟨h3, h4⟩ := List.append_inj hbytes haction
  exact ⟨strBytes_injective h1, strBytes_injective h2, strBytes_injective h3, hjson (strBytes_injective h4),
    leBytes_injective htime⟩

theorem cuts_eq_of_sameFields {e e' : AuditEntry} (h : SameFields e e') : e.cuts = e'.cuts := by
  rw [AuditEntry.cuts, AuditEntry.cuts, h.correlationId, h.identity, h.action]

/-- Entries with the same bytes and the same cuts agree. -/
theorem agree_of_bytes {l l' : List AuditEntry} (hjson : ∀ e ∈ l, ∀ e' ∈ l',
      outcomeText Γ e.outcome = outcomeText Γ e'.outcome → e.outcome = e'.outcome)
    (hbytes : l.map (·.fieldBytes Γ) = l'.map (·.fieldBytes Γ)) (hcuts : l.map (·.cuts) = l'.map (·.cuts)) :
    Agree l l' := by
  induction l generalizing l' with
  | nil =>
    rw [List.map_nil] at hbytes
    rw [List.map_eq_nil_iff.mp hbytes.symm]
    exact .nil
  | cons e l ih =>
    cases l' with
    | nil => cases hbytes
    | cons e' l' =>
      simp only [List.map_cons, List.cons.injEq] at hbytes hcuts
      refine .cons (sameFields_of_bytes (hjson e List.mem_cons_self e' List.mem_cons_self) hbytes.1 hcuts.1) ?_
      exact ih (fun a ha b hb => hjson a (List.mem_cons_of_mem e ha) b (List.mem_cons_of_mem e' hb)) hbytes.2 hcuts.2

theorem map_eq_of_agree {β : Type} {f : AuditEntry → β} (hf : ∀ e e', SameFields e e' → f e = f e')
    {l l' : List AuditEntry} (h : Agree l l') : l.map f = l'.map f := by
  induction h with
  | nil => rfl
  | cons he _ ih => rw [List.map_cons, List.map_cons, hf _ _ he, ih]

/-! ## The audit chain as a hash chain -/

/-- The bytes of a link, then the bytes of the fields. -/
def absorb (h : AuditHash) (fields : Bytes) : Bytes := h.bytes.toList ++ fields

/-- The hash of the chain. -/
def digest (Γ : Ctx) (b : Bytes) : AuditHash := ⟨Γ.sha256 b⟩

/-- The link of the chain, on the bytes of the fields. -/
abbrev link (Γ : Ctx) : Option AuditHash → Bytes → AuditHash := HashChain.hashLink (digest Γ) absorb zeroHash

/-- A link takes 32 bytes, so its end is where the fields begin. -/
theorem absorb_injective (h : AuditHash) (k : Bytes) (h' : AuditHash) (k' : Bytes) (heq : absorb h k = absorb h' k') :
    h = h' ∧ k = k' := by
  obtain ⟨hbytes, hk⟩ := List.append_inj heq (by simp)
  refine ⟨?_, hk⟩
  cases h
  cases h'
  exact congrArg AuditHash.mk (Vector.toList_inj.mp hbytes)

theorem prevBytes_eq (prev : Option AuditHash) : prevBytes prev = (prev.getD zeroHash).bytes.toList := by
  cases prev <;> rfl

theorem entryHash_eq (e : AuditEntry) (prev : Option AuditHash) : e.entryHash Γ prev = link Γ prev (e.fieldBytes Γ) := by
  simp only [AuditEntry.entryHash, hashv, HashChain.hashLink, digest, absorb, AuditEntry.fieldBytes, prevBytes_eq,
    List.flatten_cons, List.flatten_nil, List.append_nil, List.append_assoc]

/-- The tip is that of the hash chain over the bytes of the fields. -/
theorem tipHash_eq (l : List AuditEntry) : tipHash Γ l = HashChain.tip (link Γ) (l.map (·.fieldBytes Γ)) := by
  simp only [tipHash, HashChain.tip, HashChain.tipFrom, List.foldl_map, entryHash_eq]

theorem inputs_subset (l : List AuditEntry) :
    HashChain.inputs (digest Γ) absorb zeroHash (l.map (·.fieldBytes Γ)) ⊆ hashedBytes Γ l := by
  rintro b ⟨p, k, s, hl, rfl⟩
  obtain ⟨p', t', rfl, rfl, ht⟩ := List.map_eq_append_iff.mp hl
  obtain ⟨e, s', rfl, rfl, rfl⟩ := List.map_eq_cons_iff.mp ht
  refine ⟨p', e, s', rfl, ?_⟩
  rw [prevBytes_eq, tipHash_eq]
  rfl

/-- A list of entries behind an unnoticed start, on the bytes of the fields. -/
theorem hiddenStart_iff (l l' : List AuditEntry) : HiddenStart Γ l l' ↔
    HashChain.Shifted (digest Γ) absorb zeroHash (l.map (·.fieldBytes Γ)) (l'.map (·.fieldBytes Γ)) := by
  constructor
  · rintro ⟨p, s, rfl, hs, hp, hbytes⟩
    refine ⟨p.map (·.fieldBytes Γ), ?_, ?_, ?_⟩
    · rw [List.map_append, hbytes]
    · rw [← hbytes]
      exact fun h => hs (List.map_eq_nil_iff.mp h)
    · rw [← hp, tipHash_eq]
  · rintro ⟨p, hl, hne, hp⟩
    obtain ⟨p', s, rfl, rfl, hs⟩ := List.map_eq_append_iff.mp hl
    refine ⟨p', s, rfl, ?_, ?_, hs⟩
    · rintro rfl
      exact hne hs.symm
    · rw [tipHash_eq, hp]

/-- A hidden start makes one list longer than the other. -/
theorem length_ne_of_hiddenStart {l l' : List AuditEntry} (h : HiddenStart Γ l l') : l.length ≠ l'.length := by
  obtain ⟨p, s, rfl, hs, hp, hbytes⟩ := h
  intro hlen
  have hs' : s.length = l'.length := by simpa using congrArg List.length hbytes
  rw [List.length_append] at hlen
  have hnil : p = [] := List.length_eq_zero_iff.mp (by omega)
  rw [hnil] at hp
  cases hp

/-! ## Lists of one entry and of two -/

theorem hashedBytes_singleton (Γ : Ctx) (e : AuditEntry) : hashedBytes Γ [e] = {prevBytes none ++ e.fieldBytes Γ} := by
  ext b
  constructor
  · rintro ⟨p, e', s, h, rfl⟩
    cases p with
    | nil =>
      cases h
      rfl
    | cons _ p => simp at h
  · rintro rfl
    exact ⟨[], e, [], rfl, rfl⟩

theorem hashedBytes_pair (Γ : Ctx) (e e' : AuditEntry) : hashedBytes Γ [e, e'] =
    {prevBytes none ++ e.fieldBytes Γ, prevBytes (some (e.entryHash Γ none)) ++ e'.fieldBytes Γ} := by
  ext b
  constructor
  · rintro ⟨p, x, s, h, rfl⟩
    match p, h with
    | [], h =>
      cases h
      exact Or.inl rfl
    | [_], h =>
      cases h
      exact Or.inr rfl
    | _ :: _ :: p, h => simp at h
  · rintro (rfl | rfl)
    · exact ⟨[], e, [e'], rfl, rfl⟩
    · exact ⟨[e], e', [], rfl, rfl⟩

/-- What is hashed along the two entries of the sample, in either order. -/
def sampleBytes : List Bytes :=
  [prevBytes none ++ SampleAux.first.fieldBytes SampleAux.auditCtx,
   prevBytes (some (SampleAux.first.entryHash SampleAux.auditCtx none)) ++ SampleAux.second.fieldBytes SampleAux.auditCtx,
   prevBytes none ++ SampleAux.second.fieldBytes SampleAux.auditCtx,
   prevBytes (some (SampleAux.second.entryHash SampleAux.auditCtx none)) ++ SampleAux.first.fieldBytes SampleAux.auditCtx]

end TamperAux

/-- Appending entry after entry to the in-memory store leaves the fold of their hashes as its tip: the tip below is the one the
store reports. -/
theorem latestHash_foldl_append (Γ : Ctx) (l : List AuditEntry) :
    (l.foldl (fun log e => (InMemoryAuditStore.append Γ log e).2) []).latestHash = tipHash Γ l := by
  induction l using List.reverseRecOn with
  | nil => rfl
  | append_singleton l e ih =>
    simp only [tipHash, List.foldl_append, List.foldl_cons, List.foldl_nil] at ih ⊢
    rw [InMemoryAuditStore.append, InMemoryAuditStore.latestHash, List.getLast?_concat, ih]
    rfl

open TamperAux SampleAux

/-- The tip of the audit chain commits to its entries exactly when the two lists are not the same bytes cut differently, and
neither is the other behind a start with the all-zero digest. -/
theorem tip_commits_iff (Γ : Ctx) (l l' : List AuditEntry) (hsha : Set.InjOn Γ.sha256 (hashedBytes Γ l ∪ hashedBytes Γ l'))
    (hjson : Set.InjOn (outcomeText Γ) {o | ∃ e ∈ l ++ l', e.outcome = o}) :
    (tipHash Γ l = tipHash Γ l' → Agree l l') ↔ ¬Recut Γ l l' ∧ ¬HiddenStart Γ l l' ∧ ¬HiddenStart Γ l' l := by
  have hinj : Set.InjOn (digest Γ) (HashChain.inputs (digest Γ) absorb zeroHash (l.map (·.fieldBytes Γ)) ∪
      HashChain.inputs (digest Γ) absorb zeroHash (l'.map (·.fieldBytes Γ))) := by
    intro b hb b' hb' heq
    exact hsha (Set.union_subset_union (inputs_subset l) (inputs_subset l') hb)
      (Set.union_subset_union (inputs_subset l) (inputs_subset l') hb') (AuditHash.mk.inj heq)
  have htip := HashChain.tip_eq_iff absorb_injective hinj
  rw [tipHash_eq, tipHash_eq, htip, ← hiddenStart_iff, ← hiddenStart_iff]
  constructor
  · intro h
    refine ⟨fun ⟨hbytes, hcuts⟩ => ?_, fun hs => ?_, fun hs => ?_⟩
    · exact hcuts (map_eq_of_agree (fun _ _ => cuts_eq_of_sameFields) (h (Or.inl hbytes)))
    · exact length_ne_of_hiddenStart hs (h (Or.inr (Or.inl hs))).length_eq
    · exact length_ne_of_hiddenStart hs (h (Or.inr (Or.inr hs))).length_eq.symm
  · rintro ⟨hrecut, hl, hl'⟩ (hbytes | hs | hs)
    · refine agree_of_bytes (fun e he e' he' => ?_) hbytes (Classical.byContradiction fun hc => hrecut ⟨hbytes, hc⟩)
      exact hjson.eq_iff ⟨e, List.mem_append_left _ he, rfl⟩ ⟨e', List.mem_append_right _ he', rfl⟩ |>.mp
    · exact (hl hs).elim
    · exact (hl' hs).elim

/-- The two entries of the sample, the one behind the other, have another tip than the other way round. -/
theorem tip_commits_of_sample : tipHash auditCtx [first, second] ≠ tipHash auditCtx [second, first] := by
  have hsha : Set.InjOn auditCtx.sha256 (hashedBytes auditCtx [first, second] ∪ hashedBytes auditCtx [second, first]) := by
    have hdigests : ∀ b ∈ sampleBytes, ∀ b' ∈ sampleBytes, auditCtx.sha256 b = auditCtx.sha256 b' → b = b' := by
      decide +kernel
    have hmem : ∀ b ∈ hashedBytes auditCtx [first, second] ∪ hashedBytes auditCtx [second, first], b ∈ sampleBytes := by
      intro b hb
      simp only [hashedBytes_pair, Set.mem_union, Set.mem_insert_iff, Set.mem_singleton_iff] at hb
      rw [sampleBytes, List.mem_cons, List.mem_cons, List.mem_cons, List.mem_singleton]
      rcases hb with (hb | hb) | hb | hb
      · exact Or.inl hb
      · exact Or.inr (Or.inl hb)
      · exact Or.inr (Or.inr (Or.inl hb))
      · exact Or.inr (Or.inr (Or.inr hb))
    exact fun b hb b' hb' => hdigests b (hmem b hb) b' (hmem b' hb')
  have hjson : Set.InjOn (outcomeText auditCtx) {o | ∃ e ∈ [first, second] ++ [second, first], e.outcome = o} := by
    rintro o ⟨e, he, rfl⟩ o' ⟨e', he', rfl⟩ -
    simp only [List.cons_append, List.nil_append, List.mem_cons, List.not_mem_nil, or_false] at he he'
    rcases he with rfl | rfl | rfl | rfl <;> rcases he' with rfl | rfl | rfl | rfl <;> rfl
  have hcommits := (tip_commits_iff auditCtx [first, second] [second, first] hsha hjson).mpr
    ⟨fun h => absurd h.1 (by decide +kernel), fun h => length_ne_of_hiddenStart h rfl,
      fun h => length_ne_of_hiddenStart h rfl⟩
  intro heq
  cases hcommits heq with
  | cons h _ => exact absurd h.correlationId (by decide)

/-- Moving a byte from the identity to the correlation id changes both fields and leaves the tip as it was. -/
theorem recut_entry_keeps_tip :
    Set.InjOn auditCtx.sha256 (hashedBytes auditCtx [early] ∪ hashedBytes auditCtx [late]) ∧
      Set.InjOn (outcomeText auditCtx) {o | ∃ e ∈ [early] ++ [late], e.outcome = o} ∧
      tipHash auditCtx [early] = tipHash auditCtx [late] ∧ ¬Agree [early] [late] := by
  refine ⟨?_, ?_, by decide +kernel, ?_⟩
  · rw [hashedBytes_singleton, hashedBytes_singleton]
    have heq : early.fieldBytes auditCtx = late.fieldBytes auditCtx := by decide +kernel
    rw [heq, Set.union_self]
    exact Set.injOn_singleton _ _
  · rintro o ⟨e, he, rfl⟩ o' ⟨e', he', rfl⟩ -
    simp only [List.cons_append, List.nil_append, List.mem_cons, List.not_mem_nil, or_false] at he he'
    rcases he with rfl | rfl <;> rcases he' with rfl | rfl <;> rfl
  · intro h
    cases h with
    | cons h _ => exact absurd h.correlationId (by decide)

end ChainBridge
