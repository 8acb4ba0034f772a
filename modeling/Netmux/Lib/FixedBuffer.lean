import Netmux.Lib.Checked

/-!
# Buffers of a fixed size

A buffer is reused from one read to the next: a read overwrites its front and leaves the rest as
it was. What was read is the front of that length, whatever the buffer held before.
-/

namespace Netmux

/-- A buffer of `size` entries. -/
structure FixedBuffer (α : Type) (size : Nat) where
  entries : List α
  length_entries : entries.length = size

namespace FixedBuffer

variable {α : Type} {size : Nat}

/-- A buffer with the same entry everywhere. -/
def filled (size : Nat) (a : α) : FixedBuffer α size :=
  ⟨List.replicate size a, List.length_replicate⟩

/-- Put entries at the front, as many as fit. -/
def fill (m : FixedBuffer α size) (xs : List α) : FixedBuffer α size where
  entries := (xs ++ m.entries.drop xs.length).take size
  length_entries := by
    have hm := m.length_entries
    rw [List.length_take, List.length_append, List.length_drop]
    omega

/-- `buf.copy_within(a..b, 0)`. -/
def copyToFront (m : FixedBuffer α size) (a b : Nat) : Checked (FixedBuffer α size) := do
  let xs ← Checked.slice m.entries a b
  pure (m.fill xs)

/-- The front of a buffer that was written is what was put there. -/
theorem take_fill (m : FixedBuffer α size) {xs : List α} {n : Nat} (hn : n ≤ xs.length)
    (hsize : n ≤ size) : (m.fill xs).entries.take n = xs.take n := by
  rw [fill, List.take_take, Nat.min_eq_left hsize, List.take_append_of_le_length hn]

theorem take_fill_self (m : FixedBuffer α size) {xs : List α} (hsize : xs.length ≤ size) :
    (m.fill xs).entries.take xs.length = xs := by
  rw [take_fill m (Nat.le_refl _) hsize, List.take_length]

/-- The front of a buffer is a slice of it. -/
theorem slice_front (m : FixedBuffer α size) {n : Nat} (hn : n ≤ size) :
    Checked.slice m.entries 0 n = .ok (m.entries.take n) := by
  rw [Checked.slice_eq (Nat.zero_le n) (by rw [m.length_entries]; exact hn), List.drop_zero]

/-- The first entry is that of every front. -/
theorem index_front (m : FixedBuffer α size) {n : Nat} (hn : 0 < n) :
    Checked.index m.entries 0 = Checked.index (m.entries.take n) 0 := by
  rw [Checked.index, Checked.index, List.getElem?_take_of_lt hn]

/-- Entries moved to the front are the front. -/
theorem copyToFront_eq (m : FixedBuffer α size) {a b : Nat} (hab : a ≤ b) (hb : b ≤ size) :
    ∃ m' : FixedBuffer α size, m.copyToFront a b = .ok m' ∧
      m'.entries.take (b - a) = (m.entries.take b).drop a := by
  have hlength : ((m.entries.take b).drop a).length = b - a := by
    rw [List.length_drop, List.length_take, m.length_entries, Nat.min_eq_left hb]
  refine ⟨m.fill ((m.entries.take b).drop a), ?_, ?_⟩
  · rw [copyToFront, Checked.slice_eq hab (by rw [m.length_entries]; exact hb), Checked.ok_bind]
    rfl
  · have hfits : ((m.entries.take b).drop a).length ≤ size := by omega
    rw [← hlength, m.take_fill_self hfits]

end FixedBuffer

end Netmux
