/-!
# Base64

The standard alphabet with padding. The decoder is strict: the text is cut into groups of four, the padding is there, and the bits
it stands for are zero. It decodes what the encoder writes (`decode_encode`), and nothing else (`decode_eq_some_iff`).
-/

namespace Base64

/-- The 64 digits. -/
def alphabet : List Char := "ABCDEFGHIJKLMNOPQRSTUVWXYZabcdefghijklmnopqrstuvwxyz0123456789+/".toList

/-- The digit of six bits. -/
def digit (n : Nat) : Char := alphabet.getD n 'A'

/-- The six bits of a digit. -/
def value (c : Char) : Option Nat := alphabet.idxOf? c

/-- The text of a byte string: four digits for three bytes, the last group padded. -/
def encode : List UInt8 → List Char
  | a :: b :: c :: rest =>
    digit (a.toNat / 4) :: digit (a.toNat % 4 * 16 + b.toNat / 16) :: digit (b.toNat % 16 * 4 + c.toNat / 64) ::
      digit (c.toNat % 64) :: encode rest
  | [a, b] => [digit (a.toNat / 4), digit (a.toNat % 4 * 16 + b.toNat / 16), digit (b.toNat % 16 * 4), '=']
  | [a] => [digit (a.toNat / 4), digit (a.toNat % 4 * 16), '=', '=']
  | [] => []

/-- The byte string of a text, if it is one. -/
def decode : List Char → Option (List UInt8)
  | [] => some []
  | [a, b, '=', '='] => do
    let x ← value a
    let y ← value b
    if y % 16 = 0 then some [UInt8.ofNat (x * 4 + y / 16)] else none
  | [a, b, c, '='] => do
    let x ← value a
    let y ← value b
    let z ← value c
    if z % 4 = 0 then some [UInt8.ofNat (x * 4 + y / 16), UInt8.ofNat (y % 16 * 16 + z / 4)] else none
  | a :: b :: c :: d :: rest => do
    let x ← value a
    let y ← value b
    let z ← value c
    let w ← value d
    let bytes ← decode rest
    some (UInt8.ofNat (x * 4 + y / 16) :: UInt8.ofNat (y % 16 * 16 + z / 4) :: UInt8.ofNat (z % 4 * 64 + w) :: bytes)
  | _ => none

theorem value_digit {n : Nat} (h : n < 64) : value (digit n) = some n := by
  have hall : ∀ n : Fin 64, value (digit n.val) = some n.val := by
    decide +kernel
  exact hall ⟨n, h⟩

theorem digit_mem (n : Nat) : digit n ∈ alphabet := by
  rw [digit, List.getD_eq_getElem?_getD]
  cases h : alphabet[n]? with
  | none => decide
  | some c => exact List.mem_of_getElem? h

theorem digit_ne_pad (n : Nat) : digit n ≠ '=' := by
  intro h
  have hmem := digit_mem n
  rw [h] at hmem
  revert hmem
  decide

/-- A character that is no digit and no padding is not in a text. -/
theorem not_mem_encode {c : Char} (hdigit : c ∉ alphabet) (hpad : c ≠ '=') (bytes : List UInt8) : c ∉ encode bytes := by
  have hne : ∀ n, c ≠ digit n := by
    rintro n rfl
    exact hdigit (digit_mem n)
  fun_induction encode bytes <;> simp_all

theorem ofNat_eq {a : UInt8} {n : Nat} (h : n = a.toNat) : UInt8.ofNat n = a := by
  rw [h, UInt8.ofNat_toNat]

/-- A group without padding. -/
theorem decode_group {x y z w : Nat} (hx : x < 64) (hy : y < 64) (hz : z < 64) (hw : w < 64) (rest : List Char) :
    decode (digit x :: digit y :: digit z :: digit w :: rest) = (decode rest).map fun bytes =>
      UInt8.ofNat (x * 4 + y / 16) :: UInt8.ofNat (y % 16 * 16 + z / 4) :: UInt8.ofNat (z % 4 * 64 + w) :: bytes := by
  rw [decode]
  · simp only [value_digit hx, value_digit hy, value_digit hz, value_digit hw, Option.bind_eq_bind, Option.bind_some]
    cases decode rest <;> rfl
  · intro h
    exact absurd h (digit_ne_pad z)
  · intro h
    exact absurd h (digit_ne_pad w)

/-- A last group of two bytes. -/
theorem decode_group_two {x y z : Nat} (hx : x < 64) (hy : y < 64) (hz : z * 4 < 64) :
    decode [digit x, digit y, digit (z * 4), '='] = some [UInt8.ofNat (x * 4 + y / 16), UInt8.ofNat (y % 16 * 16 + z)] := by
  rw [decode]
  · simp [value_digit hx, value_digit hy, value_digit hz]
  · intro h
    exact absurd h (digit_ne_pad _)

/-- A last group of one byte. -/
theorem decode_group_one {x y : Nat} (hx : x < 64) (hy : y * 16 < 64) :
    decode [digit x, digit (y * 16), '=', '='] = some [UInt8.ofNat (x * 4 + y)] := by
  simp [decode, value_digit hx, value_digit hy]

/-- A text decodes to the byte string it was made from. -/
theorem decode_encode (bytes : List UInt8) : decode (encode bytes) = some bytes := by
  fun_induction encode bytes with
  | case1 a b c rest ih =>
    have ha := a.toNat_lt
    have hb := b.toNat_lt
    have hc := c.toNat_lt
    rw [decode_group (by omega) (by omega) (by omega) (by omega), ih]
    simp only [Option.map_some, Option.some.injEq, List.cons.injEq, and_true]
    refine ⟨ofNat_eq ?_, ofNat_eq ?_, ofNat_eq ?_⟩ <;> omega
  | case2 a b =>
    have ha := a.toNat_lt
    have hb := b.toNat_lt
    rw [decode_group_two (by omega) (by omega) (by omega)]
    simp only [Option.some.injEq, List.cons.injEq, and_true]
    refine ⟨ofNat_eq ?_, ofNat_eq ?_⟩ <;> omega
  | case3 a =>
    have ha := a.toNat_lt
    rw [decode_group_one (by omega) (by omega)]
    simp only [Option.some.injEq, List.cons.injEq, and_true]
    exact ofNat_eq (by omega)
  | case4 => rfl

/-- The value of a digit, and the digit back. -/
theorem digit_of_value {c : Char} {n : Nat} (h : value c = some n) : n < 64 ∧ digit n = c := by
  obtain ⟨hn, hc, -⟩ := List.findIdx?_eq_some_iff_getElem.mp h
  refine ⟨hn, ?_⟩
  rw [digit, List.getD_eq_getElem?_getD, List.getElem?_eq_getElem hn]
  simpa using hc

theorem toNat_ofNat {n : Nat} (h : n < 256) : (UInt8.ofNat n).toNat = n := by
  rw [UInt8.toNat_ofNat', Nat.mod_eq_of_lt h]

/-- The decoder is strict: what it accepts is the text of the byte string it returns. -/
theorem encode_of_decode {text : List Char} {bytes : List UInt8} (h : decode text = some bytes) : encode bytes = text := by
  fun_induction decode text generalizing bytes with
  | case1 =>
    cases h
    rfl
  | case2 a b =>
    simp only [Option.bind_eq_bind, Option.bind_eq_some_iff] at h
    obtain ⟨x, hx, y, hy, h⟩ := h
    obtain ⟨hx64, rfl⟩ := digit_of_value hx
    obtain ⟨hy64, rfl⟩ := digit_of_value hy
    split at h
    · rename_i hpad
      cases h
      have hbyte := toNat_ofNat (n := x * 4 + y / 16) (by omega)
      rw [encode, hbyte]
      rw [show (x * 4 + y / 16) / 4 = x by omega, show (x * 4 + y / 16) % 4 * 16 = y by omega]
    · cases h
  | case3 a b c hc =>
    simp only [Option.bind_eq_bind, Option.bind_eq_some_iff] at h
    obtain ⟨x, hx, y, hy, z, hz, h⟩ := h
    obtain ⟨hx64, rfl⟩ := digit_of_value hx
    obtain ⟨hy64, rfl⟩ := digit_of_value hy
    obtain ⟨hz64, rfl⟩ := digit_of_value hz
    split at h
    · rename_i hpad
      cases h
      have hbyte := toNat_ofNat (n := x * 4 + y / 16) (by omega)
      have hbyte' := toNat_ofNat (n := y % 16 * 16 + z / 4) (by omega)
      rw [encode, hbyte, hbyte']
      rw [show (x * 4 + y / 16) / 4 = x by omega, show (x * 4 + y / 16) % 4 * 16 + (y % 16 * 16 + z / 4) / 16 = y by omega,
        show (y % 16 * 16 + z / 4) % 16 * 4 = z by omega]
    · cases h
  | case4 a b c d rest hcd hd ih =>
    simp only [Option.bind_eq_bind, Option.bind_eq_some_iff] at h
    obtain ⟨x, hx, y, hy, z, hz, w, hw, bytes', hrest, h⟩ := h
    obtain ⟨hx64, rfl⟩ := digit_of_value hx
    obtain ⟨hy64, rfl⟩ := digit_of_value hy
    obtain ⟨hz64, rfl⟩ := digit_of_value hz
    obtain ⟨hw64, rfl⟩ := digit_of_value hw
    cases h
    have hbyte := toNat_ofNat (n := x * 4 + y / 16) (by omega)
    have hbyte' := toNat_ofNat (n := y % 16 * 16 + z / 4) (by omega)
    have hbyte'' := toNat_ofNat (n := z % 4 * 64 + w) (by omega)
    rw [encode, hbyte, hbyte', hbyte'', ih hrest]
    rw [show (x * 4 + y / 16) / 4 = x by omega, show (x * 4 + y / 16) % 4 * 16 + (y % 16 * 16 + z / 4) / 16 = y by omega,
      show (y % 16 * 16 + z / 4) % 16 * 4 + (z % 4 * 64 + w) / 64 = z by omega, show (z % 4 * 64 + w) % 64 = w by omega]
  | case5 => cases h

theorem decode_eq_some_iff {text : List Char} {bytes : List UInt8} : decode text = some bytes ↔ text = encode bytes := by
  constructor
  · intro h
    exact (encode_of_decode h).symm
  · rintro rfl
    exact decode_encode bytes

end Base64
