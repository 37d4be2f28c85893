import Mathlib.Data.List.Basic
import Mathlib.Data.List.Induction
import Mathlib.Data.Set.Function

/-!
# Hash chains

A chain of entries is summed up by its tip: each entry is linked to the tip before it, and the tip of no entry is `none`. A
stored chain keeps, with each entry, the tip it was linked to and its own link; `Linked` says that the stored links are those
of the entries. `tip_eq_iff` says exactly when two lists of entries have the same tip, when the link is a hash of the tip and
the entry, a fixed `zero` stands for the missing tip, and the hash is injective on what is hashed for the two lists: they are
equal, or one is the other behind entries whose own tip is `zero`.
-/

namespace HashChain

variable {H K B : Type}

/-- The tip after a list of entries, from a tip. -/
def tipFrom (link : Option H → K → H) (prev : Option H) (l : List K) : Option H :=
  l.foldl (fun tip k => some (link tip k)) prev

/-- The tip of a list of entries. -/
def tip (link : Option H → K → H) (l : List K) : Option H := tipFrom link none l

section Link

variable {link : Option H → K → H}

@[simp] theorem tip_nil : tip link [] = none := rfl

@[simp] theorem tip_concat (l : List K) (k : K) : tip link (l ++ [k]) = some (link (tip link l) k) := by
  simp only [tip, tipFrom, List.foldl_append, List.foldl_cons, List.foldl_nil]

theorem tip_append (l l' : List K) : tip link (l ++ l') = tipFrom link (tip link l) l' := by
  simp only [tip, tipFrom, List.foldl_append]

theorem tip_eq_none_iff {l : List K} : tip link l = none ↔ l = [] := by
  rcases List.eq_nil_or_concat' l with rfl | ⟨l', k, rfl⟩
  · simp
  · simp

/-- Entries stored with the tip they were linked to and their link are linked one to the next, from a tip on. -/
def Linked (link : Option H → K → H) : Option H → List (Option H × H × K) → Prop
  | _, [] => True
  | prev, (p, h, k) :: rest => p = prev ∧ h = link prev k ∧ Linked link (some h) rest

/-- The last stored link, or the tip to start from. -/
def lastLink (prev : Option H) (l : List (Option H × H × K)) : Option H := (l.getLast?.map (·.2.1)).or prev

theorem lastLink_cons (prev : Option H) (x : Option H × H × K) (l : List (Option H × H × K)) :
    lastLink prev (x :: l) = lastLink (some x.2.1) l := by
  cases l with
  | nil => rfl
  | cons y l => simp only [lastLink, List.getLast?_cons, Option.map_some, Option.some_or, Option.getD_some]

/-- An entry extends a linked chain exactly when it is linked to its last link. -/
theorem linked_concat_iff {prev : Option H} {l : List (Option H × H × K)} {p : Option H} {h : H} {k : K} :
    Linked link prev (l ++ [(p, h, k)]) ↔ Linked link prev l ∧ p = lastLink prev l ∧ h = link (lastLink prev l) k := by
  induction l generalizing prev with
  | nil => simp [Linked, lastLink]
  | cons x l ih =>
    obtain ⟨q, g, j⟩ := x
    rw [List.cons_append, Linked, Linked, ih, lastLink_cons]
    simp only [and_assoc]

/-- The last link of a linked chain is the tip of its entries. -/
theorem Linked.lastLink_eq {prev : Option H} {l : List (Option H × H × K)} (hl : Linked link prev l) :
    lastLink prev l = tipFrom link prev (l.map (·.2.2)) := by
  induction l generalizing prev with
  | nil => rfl
  | cons x l ih =>
    obtain ⟨p, h, k⟩ := x
    obtain ⟨-, rfl, hrest⟩ := hl
    rw [lastLink_cons, ih hrest]
    rfl

end Link

section Tamper

variable (hash : B → H) (absorb : H → K → B) (zero : H)

/-- The link of an entry: the hash of the tip, or of `zero`, with the entry. -/
def hashLink (prev : Option H) (k : K) : H := hash (absorb (prev.getD zero) k)

/-- What is hashed along a list of entries. -/
def inputs (l : List K) : Set B :=
  {b | ∃ p k s, l = p ++ k :: s ∧ b = absorb ((tip (hashLink hash absorb zero) p).getD zero) k}

/-- A list is another one behind entries whose tip is `zero`. -/
def Shifted (l l' : List K) : Prop :=
  ∃ p, l = p ++ l' ∧ l' ≠ [] ∧ tip (hashLink hash absorb zero) p = some zero

variable {hash absorb zero}

theorem inputs_mono (l : List K) (k : K) : inputs hash absorb zero l ⊆ inputs hash absorb zero (l ++ [k]) := by
  rintro b ⟨p, j, s, rfl, hb⟩
  exact ⟨p, j, s ++ [k], by simp, hb⟩

theorem mem_inputs_concat (l : List K) (k : K) :
    absorb ((tip (hashLink hash absorb zero) l).getD zero) k ∈ inputs hash absorb zero (l ++ [k]) :=
  ⟨l, k, [], rfl, rfl⟩

theorem Shifted.concat {l l' : List K} (h : Shifted hash absorb zero l l') (k : K) :
    Shifted hash absorb zero (l ++ [k]) (l' ++ [k]) := by
  obtain ⟨p, rfl, -, hp⟩ := h
  exact ⟨p, List.append_assoc .., by simp, hp⟩

/-- The first entry is linked to `zero`, as is an entry behind a tip of `zero`. -/
theorem Shifted.tip_eq {l l' : List K} (h : Shifted hash absorb zero l l') :
    tip (hashLink hash absorb zero) l = tip (hashLink hash absorb zero) l' := by
  obtain ⟨p, rfl, hne, hp⟩ := h
  cases l' with
  | nil => exact absurd rfl hne
  | cons k s =>
    rw [tip_append, hp]
    rfl

/-- Two tips that are absorbed alike are equal, or one is missing and the other is `zero`. -/
theorem getD_eq_getD {a b : Option H} (h : a.getD zero = b.getD zero) :
    a = b ∨ (a = none ∧ b = some zero) ∨ (a = some zero ∧ b = none) := by
  cases a <;> cases b <;> simp_all

/-- Two lists with the same tip are equal, up to a start that goes unnoticed. -/
theorem eq_or_shifted (habsorb : ∀ h k h' k', absorb h k = absorb h' k' → h = h' ∧ k = k') {l l' : List K}
    (hinj : Set.InjOn hash (inputs hash absorb zero l ∪ inputs hash absorb zero l'))
    (h : tip (hashLink hash absorb zero) l = tip (hashLink hash absorb zero) l') :
    l = l' ∨ Shifted hash absorb zero l l' ∨ Shifted hash absorb zero l' l := by
  induction l using List.reverseRecOn generalizing l' with
  | nil => exact Or.inl (tip_eq_none_iff.mp h.symm).symm
  | append_singleton l k ih =>
    rcases List.eq_nil_or_concat' l' with rfl | ⟨l', k', rfl⟩
    · simp at h
    · rw [tip_concat, tip_concat, Option.some.injEq] at h
      obtain ⟨hprev, rfl⟩ := habsorb _ _ _ _
        (hinj (Or.inl (mem_inputs_concat l k)) (Or.inr (mem_inputs_concat l' k')) h)
      have hinj' : Set.InjOn hash (inputs hash absorb zero l ∪ inputs hash absorb zero l') :=
        hinj.mono (Set.union_subset_union (inputs_mono l k) (inputs_mono l' k))
      rcases getD_eq_getD hprev with heq | ⟨hnone, hzero⟩ | ⟨hzero, hnone⟩
      · rcases ih hinj' heq with rfl | hs | hs
        · exact Or.inl rfl
        · exact Or.inr (Or.inl (hs.concat k))
        · exact Or.inr (Or.inr (hs.concat k))
      · rw [tip_eq_none_iff.mp hnone]
        exact Or.inr (Or.inr ⟨l', rfl, by simp, hzero⟩)
      · rw [tip_eq_none_iff.mp hnone]
        exact Or.inr (Or.inl ⟨l, rfl, by simp, hzero⟩)

/-- Exactly when two lists of entries have the same tip. -/
theorem tip_eq_iff (habsorb : ∀ h k h' k', absorb h k = absorb h' k' → h = h' ∧ k = k') {l l' : List K}
    (hinj : Set.InjOn hash (inputs hash absorb zero l ∪ inputs hash absorb zero l')) :
    tip (hashLink hash absorb zero) l = tip (hashLink hash absorb zero) l' ↔
      l = l' ∨ Shifted hash absorb zero l l' ∨ Shifted hash absorb zero l' l := by
  constructor
  · exact eq_or_shifted habsorb hinj
  · rintro (rfl | hs | hs)
    · rfl
    · exact hs.tip_eq
    · exact hs.tip_eq.symm

end Tamper

end HashChain
