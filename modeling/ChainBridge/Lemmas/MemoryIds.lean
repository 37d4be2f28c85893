import ChainBridge.AgentMemory

/-!
# The ids of memory entries

An id is the nanoseconds of the clock, written byte by byte, with six of its bits overwritten by the version and the variant of
a UUID. Two readings of the clock give the same id exactly if their nanoseconds agree in the other bits
(`uuidV4Placeholder_eq_iff`).
-/

namespace ChainBridge.AgentMemory

/-- The bits of the clock that an id does not show: those under the version and under the variant, and those after the last
byte. -/
def Hidden (k : Nat) : Prop := (52 ≤ k ∧ k < 56) ∨ (70 ≤ k ∧ k < 72) ∨ 128 ≤ k

instance (k : Nat) : Decidable (Hidden k) := inferInstanceAs (Decidable (_ ∨ _))

/-- Two readings of the clock agree in the bits that an id shows. -/
def SameShown (a b : SystemTime) : Prop := ∀ k, ¬ Hidden k → a.asNanos.testBit k = b.asNanos.testBit k

namespace MemoryIdsAux

theorem digitChar_inj {a b : Nat} (ha : a < 16) (hb : b < 16) (h : Nat.digitChar a = Nat.digitChar b) : a = b := by
  have hall : ∀ a b : Fin 16, Nat.digitChar a = Nat.digitChar b → a = b := by decide
  exact congrArg Fin.val (hall ⟨a, ha⟩ ⟨b, hb⟩ h)

theorem hexByte_inj {a b : UInt8} (h : hexByte a = hexByte b) : a = b := by
  have ha := a.toNat_lt
  have hb := b.toNat_lt
  rw [hexByte, hexByte, List.cons.injEq, List.cons.injEq] at h
  have hhigh := digitChar_inj (by omega) (by omega) h.1
  have hlow := digitChar_inj (Nat.mod_lt _ (by decide)) (Nat.mod_lt _ (by decide)) h.2.1
  exact UInt8.toNat_inj.mp (by omega)

/-- Bytes are read off the beginning of a text. -/
theorem hexBytes_append_inj {bytes bytes' : Fin 16 → UInt8} {l l' : List Char} (is : List (Fin 16))
    (h : (is.flatMap fun i => hexByte (bytes i)) ++ l = (is.flatMap fun i => hexByte (bytes' i)) ++ l') :
    (∀ i ∈ is, bytes i = bytes' i) ∧ l = l' := by
  induction is with
  | nil => exact ⟨by simp, h⟩
  | cons i is ih =>
    simp only [List.flatMap_cons, List.append_assoc] at h
    obtain ⟨hi, hrest⟩ := List.append_inj h rfl
    obtain ⟨his, hl⟩ := ih hrest
    exact ⟨List.forall_mem_cons.mpr ⟨hexByte_inj hi, his⟩, hl⟩

/-- The text shows every byte. -/
theorem uuidV4Placeholder_eq_iff_bytes (a b : SystemTime) :
    uuidV4Placeholder a = uuidV4Placeholder b ↔ ∀ i, uuidBytes a.asNanos i = uuidBytes b.asNanos i := by
  constructor
  · intro h
    have htext := String.ofList_injective h
    simp only [List.append_assoc, List.cons_append] at htext
    obtain ⟨h₀, htext⟩ := hexBytes_append_inj [0, 1, 2, 3] htext
    obtain ⟨h₄, htext⟩ := hexBytes_append_inj [4, 5] (List.cons.inj htext).2
    obtain ⟨h₆, htext⟩ := hexBytes_append_inj [6, 7] (List.cons.inj htext).2
    obtain ⟨h₈, htext⟩ := hexBytes_append_inj [8, 9] (List.cons.inj htext).2
    obtain ⟨h₁₀, -⟩ := hexBytes_append_inj [10, 11, 12, 13, 14, 15] (congrArg (· ++ []) (List.cons.inj htext).2)
    have hplace : ∀ i : Fin 16, i ∈ [0, 1, 2, 3] ∨ i ∈ [4, 5] ∨ i ∈ [6, 7] ∨ i ∈ [8, 9] ∨ i ∈ [10, 11, 12, 13, 14, 15] := by
      decide
    intro i
    rcases hplace i with hi | hi | hi | hi | hi
    · exact h₀ i hi
    · exact h₄ i hi
    · exact h₆ i hi
    · exact h₈ i hi
    · exact h₁₀ i hi
  · intro h
    rw [uuidV4Placeholder, uuidV4Placeholder, funext h]

/-- A byte as the bits of the number it was taken from. -/
theorem testBit_byte (n i j : Nat) :
    (UInt8.ofNat ((n >>> (i * 8)) &&& 0xff)).toNat.testBit j = (decide (j < 8) && n.testBit (8 * i + j)) := by
  have hmask : (0xff : Nat) = 2 ^ 8 - 1 := rfl
  rw [UInt8.toNat_ofNat', Nat.testBit_mod_two_pow, hmask, Nat.testBit_and, Nat.testBit_two_pow_sub_one, Nat.testBit_shiftRight,
    Nat.mul_comm i 8]
  cases decide (j < 8) <;> simp

/-- The masks of the version and of the variant, bit by bit. -/
theorem testBit_masks {j : Nat} (h : j < 8) :
    (0x0f : Nat).testBit j = decide (j < 4) ∧ (0x40 : Nat).testBit j = decide (j = 6) ∧
      (0x3f : Nat).testBit j = decide (j < 6) ∧ (0x80 : Nat).testBit j = decide (j = 7) := by
  have hall : ∀ j : Fin 8, (0x0f : Nat).testBit j = decide (j.val < 4) ∧ (0x40 : Nat).testBit j = decide (j.val = 6) ∧
      (0x3f : Nat).testBit j = decide (j.val < 6) ∧ (0x80 : Nat).testBit j = decide (j.val = 7) := by decide
  exact hall ⟨j, h⟩

/-- A byte that keeps its low bits and has one of the others set. -/
theorem keep_low (bit : Bool) {w c j : Nat} (h : w ≤ c) :
    (bit && decide (j < w) || decide (j = c)) = if w ≤ j then decide (j = c) else bit := by
  by_cases hj : w ≤ j
  · rw [if_pos hj, decide_eq_false (by omega : ¬ j < w), Bool.and_false, Bool.false_or]
  · rw [if_neg hj, decide_eq_true (by omega : j < w), decide_eq_false (by omega : ¬ j = c), Bool.and_true, Bool.or_false]

/-- The bits of an id: the version and the variant are the same in every id, the others are those of the clock. -/
theorem testBit_uuidBytes (n : Nat) (i : Fin 16) {j : Nat} (h : j < 8) :
    (uuidBytes n i).toNat.testBit j =
      if Hidden (8 * i + j) then decide (8 * i + j = 54 ∨ 8 * i + j = 71) else n.testBit (8 * i + j) := by
  have hi := i.isLt
  have hbyte := testBit_byte n i j
  simp only [h, decide_true, Bool.true_and] at hbyte
  obtain ⟨hlow4, hversion, hlow6, hvariant⟩ := testBit_masks h
  by_cases hi6 : i = 6
  · subst hi6
    have hbits : (uuidBytes n 6).toNat.testBit j = (n.testBit (48 + j) && decide (j < 4) || decide (j = 6)) := by
      show ((UInt8.ofNat ((n >>> (6 * 8)) &&& 0xff) &&& 0x0f) ||| 0x40).toNat.testBit j = _
      rw [UInt8.toNat_or, UInt8.toNat_and, Nat.testBit_or, Nat.testBit_and]
      exact congrArg₂ _ (congrArg₂ _ hbyte hlow4) hversion
    rw [hbits, keep_low _ (by decide)]
    exact if_congr (show 4 ≤ j ↔ Hidden (48 + j) by simp only [Hidden]; omega)
      (decide_eq_decide.mpr (show j = 6 ↔ 48 + j = 54 ∨ 48 + j = 71 by omega)) rfl
  · by_cases hi8 : i = 8
    · subst hi8
      have hbits : (uuidBytes n 8).toNat.testBit j = (n.testBit (64 + j) && decide (j < 6) || decide (j = 7)) := by
        show ((UInt8.ofNat ((n >>> (8 * 8)) &&& 0xff) &&& 0x3f) ||| 0x80).toNat.testBit j = _
        rw [UInt8.toNat_or, UInt8.toNat_and, Nat.testBit_or, Nat.testBit_and]
        exact congrArg₂ _ (congrArg₂ _ hbyte hlow6) hvariant
      rw [hbits, keep_low _ (by decide)]
      exact if_congr (show 6 ≤ j ↔ Hidden (64 + j) by simp only [Hidden]; omega)
        (decide_eq_decide.mpr (show j = 7 ↔ 64 + j = 54 ∨ 64 + j = 71 by omega)) rfl
    · have hshown : ¬ Hidden (8 * i + j) := by
        simp only [Hidden]
        omega
      rw [if_neg hshown, ← hbyte]
      simp only [uuidBytes, hi6, hi8, if_false]

/-- Bytes are equal if their bits are. -/
theorem eq_of_testBit {a b : UInt8} (h : ∀ j < 8, a.toNat.testBit j = b.toNat.testBit j) : a = b := by
  refine UInt8.toNat_inj.mp (Nat.eq_of_testBit_eq fun j => ?_)
  by_cases hj : j < 8
  · exact h j hj
  · have hpow : 2 ^ 8 ≤ 2 ^ j := Nat.pow_le_pow_right (by decide) (by omega)
    rw [Nat.testBit_lt_two_pow (Nat.lt_of_lt_of_le a.toNat_lt hpow), Nat.testBit_lt_two_pow (Nat.lt_of_lt_of_le b.toNat_lt hpow)]

end MemoryIdsAux

open MemoryIdsAux

/-- Two readings give the same id exactly if they agree in the bits that are shown. -/
theorem uuidV4Placeholder_eq_iff (a b : SystemTime) : uuidV4Placeholder a = uuidV4Placeholder b ↔ SameShown a b := by
  rw [uuidV4Placeholder_eq_iff_bytes]
  constructor
  · intro h k hk
    have hk128 : k < 128 := Nat.lt_of_not_le fun hle => hk (Or.inr (Or.inr hle))
    have hbit := congrArg (fun byte => byte.toNat.testBit (k % 8)) (h ⟨k / 8, by omega⟩)
    simp only [testBit_uuidBytes _ _ (Nat.mod_lt k (by decide)), Nat.div_add_mod, if_neg hk] at hbit
    exact hbit
  · intro h i
    refine eq_of_testBit fun j hj => ?_
    rw [testBit_uuidBytes _ _ hj, testBit_uuidBytes _ _ hj]
    by_cases hk : Hidden (8 * i + j)
    · rw [if_pos hk, if_pos hk]
    · rw [if_neg hk, if_neg hk]
      exact h _ hk

end ChainBridge.AgentMemory
