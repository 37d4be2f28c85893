/-!
# Maps with one value for each key

A map is its lookup function. The operations are those of a concurrent hash map seen one atomic call at a time: look a key up,
insert, remove, keep the entries a test accepts. Two maps with the same lookups are equal, so a fact about a map is a fact
about its lookups, and a map over a concrete key type computes.
-/

namespace Interleave

/-- A map from keys to values, by its lookup function. -/
def KeyMap (κ ν : Type) : Type := κ → Option ν

namespace KeyMap

variable {κ ν : Type}

/-- The map with no entry. -/
def empty : KeyMap κ ν := fun _ => none

/-- The value stored under a key. -/
def get? (m : KeyMap κ ν) (k : κ) : Option ν := m k

/-- Whether a key is stored. -/
def contains (m : KeyMap κ ν) (k : κ) : Bool := (m.get? k).isSome

/-- Keep the entries that a test accepts. -/
def retain (m : KeyMap κ ν) (p : κ → ν → Bool) : KeyMap κ ν := fun k => (m.get? k).filter (p k)

section Update

variable [DecidableEq κ]

/-- Store a value under a key, in place of any value stored there. -/
def insert (m : KeyMap κ ν) (k : κ) (v : ν) : KeyMap κ ν := fun j => if j = k then some v else m.get? j

/-- Delete a key. -/
def remove (m : KeyMap κ ν) (k : κ) : KeyMap κ ν := fun j => if j = k then none else m.get? j

@[simp] theorem get?_insert_self (m : KeyMap κ ν) (k : κ) (v : ν) : (m.insert k v).get? k = some v := by
  simp [insert, get?]

theorem get?_insert_of_ne (m : KeyMap κ ν) {k j : κ} (v : ν) (h : j ≠ k) : (m.insert k v).get? j = m.get? j := by
  simp [insert, get?, h]

@[simp] theorem get?_remove_self (m : KeyMap κ ν) (k : κ) : (m.remove k).get? k = none := by
  simp [remove, get?]

theorem get?_remove_of_ne (m : KeyMap κ ν) {k j : κ} (h : j ≠ k) : (m.remove k).get? j = m.get? j := by
  simp [remove, get?, h]

/-- An insertion keeps every stored key stored. -/
theorem contains_insert_of_contains (m : KeyMap κ ν) (k j : κ) (v : ν) (h : m.contains j = true) :
    (m.insert k v).contains j = true := by
  by_cases hj : j = k
  · subst hj
    simp [contains]
  · rw [contains, get?_insert_of_ne m v hj]
    exact h

end Update

@[simp] theorem get?_retain (m : KeyMap κ ν) (p : κ → ν → Bool) (k : κ) :
    (m.retain p).get? k = (m.get? k).filter (p k) := rfl

/-- An entry the test accepts survives `retain`. -/
theorem get?_retain_of_keep (m : KeyMap κ ν) (p : κ → ν → Bool) {k : κ} {v : ν} (h : m.get? k = some v)
    (hp : p k v = true) : (m.retain p).get? k = some v := by
  rw [get?_retain, h, Option.filter_some, if_pos hp]

/-- What `retain` leaves was stored before. -/
theorem get?_of_get?_retain (m : KeyMap κ ν) (p : κ → ν → Bool) {k : κ} {v : ν} (h : (m.retain p).get? k = some v) :
    m.get? k = some v := by
  rw [get?_retain, Option.filter_eq_some_iff] at h
  exact h.1

end KeyMap

end Interleave
