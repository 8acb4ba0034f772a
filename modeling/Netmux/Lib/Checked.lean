import Mathlib.Algebra.Group.Int.Defs
import Mathlib.Algebra.Group.Nat.Defs
import Mathlib.Data.List.Basic

/-!
# Checked execution

Indexing, slicing, fixed-width arithmetic and remainders either return a value or
panic, which stops the thread that runs them. Fixed-width integers are natural
numbers whose bound is checked where they are formed. Every operation has one
success lemma, so that a proof discharges the bound once and then computes.
-/

namespace Netmux

/-- Why a checked operation stops the running thread. -/
inductive Panic where
  | indexOutOfBounds
  | overflow
  | divisionByZero
  deriving DecidableEq, Repr

/-- A computation that may panic. -/
abbrev Checked (α : Type) := Except Panic α

namespace Checked

variable {α β : Type}

/-- `xs[i]`. -/
def index (xs : List α) (i : Nat) : Checked α :=
  match xs[i]? with
  | some x => .ok x
  | none => .error .indexOutOfBounds

/-- `&xs[a..b]`. -/
def slice (xs : List α) (a b : Nat) : Checked (List α) :=
  if a ≤ b ∧ b ≤ xs.length then .ok ((xs.take b).drop a) else .error .indexOutOfBounds

/-- `&xs[a..]`. -/
def sliceFrom (xs : List α) (a : Nat) : Checked (List α) := slice xs a xs.length

/-- `xs[a..b].copy_from_slice(ys)`: the two lengths have to agree. -/
def copyFromSlice (xs : List α) (a b : Nat) (ys : List α) : Checked (List α) :=
  if a ≤ b ∧ b ≤ xs.length ∧ ys.length = b - a then
    .ok (xs.take a ++ ys ++ xs.drop b)
  else .error .indexOutOfBounds

/-- `xs[i] = x`. -/
def store (xs : List α) (i : Nat) (x : α) : Checked (List α) := copyFromSlice xs i (i + 1) [x]

/-- `a + b` in an unsigned type of `width` bits. -/
def add (width a b : Nat) : Checked Nat :=
  if a + b < 2 ^ width then .ok (a + b) else .error .overflow

/-- `a + b` in a signed type of `width` bits. -/
def addSigned (width : Nat) (a b : Int) : Checked Int :=
  if -2 ^ (width - 1) ≤ a + b ∧ a + b < 2 ^ (width - 1) then .ok (a + b) else .error .overflow

/-- `a * b` in an unsigned type of `width` bits. -/
def mul (width a b : Nat) : Checked Nat :=
  if a * b < 2 ^ width then .ok (a * b) else .error .overflow

/-- `a % b`. -/
def rem (a b : Nat) : Checked Nat :=
  if b = 0 then .error .divisionByZero else .ok (a % b)

@[simp] theorem ok_bind (a : α) (f : α → Checked β) : ((.ok a : Checked α) >>= f) = f a := rfl

@[simp] theorem error_bind (p : Panic) (f : α → Checked β) :
    ((.error p : Checked α) >>= f) = .error p := rfl

@[simp] theorem pure_eq (a : α) : (pure a : Checked α) = .ok a := rfl

/-- A sequence succeeds exactly when its first part does and its second does after it. -/
theorem bind_eq_ok {x : Checked α} {f : α → Checked β} {b : β} :
    (x >>= f) = .ok b ↔ ∃ a, x = .ok a ∧ f a = .ok b := by
  cases x with
  | error p => simp
  | ok a => simp

theorem index_eq {xs : List α} {i : Nat} {x : α} (h : xs[i]? = some x) : index xs i = .ok x := by
  simp only [index, h]

theorem slice_eq {xs : List α} {a b : Nat} (hab : a ≤ b) (hb : b ≤ xs.length) :
    slice xs a b = .ok ((xs.take b).drop a) := by
  simp only [slice, hab, hb, and_self, if_true]

theorem sliceFrom_eq {xs : List α} {a : Nat} (h : a ≤ xs.length) :
    sliceFrom xs a = .ok (xs.drop a) := by
  rw [sliceFrom, slice_eq h (Nat.le_refl _), List.take_length]

theorem copyFromSlice_eq {xs ys : List α} {a b : Nat} (hab : a ≤ b) (hb : b ≤ xs.length)
    (hy : ys.length = b - a) :
    copyFromSlice xs a b ys = .ok (xs.take a ++ ys ++ xs.drop b) := by
  simp only [copyFromSlice, hab, hb, hy, and_self, if_true]

theorem add_eq {width a b : Nat} (h : a + b < 2 ^ width) : add width a b = .ok (a + b) := by
  simp only [add, h, if_true]

theorem mul_eq {width a b : Nat} (h : a * b < 2 ^ width) : mul width a b = .ok (a * b) := by
  simp only [mul, h, if_true]

theorem rem_eq {a b : Nat} (h : b ≠ 0) : rem a b = .ok (a % b) := by
  simp only [rem, h, if_false]

end Checked

end Netmux
