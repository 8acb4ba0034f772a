/-!
# Xor-and-multiply hashes

A hash that takes in its bytes one after another, each by an exclusive or and a multiplication.
Both work from the low bits up, so the low bits of the hash are the same hash in a smaller word;
and with a multiplier that has an inverse every step can be undone.
-/

namespace Netmux

/-- Take in the bytes in their order. -/
def xorMultiply {w : Nat} (prime : BitVec w) (start : BitVec w) (bytes : List (BitVec 8)) :
    BitVec w :=
  bytes.foldl (fun hash b => (hash ^^^ b.setWidth w) * prime) start

section

variable {w : Nat} {prime : BitVec w}

theorem xorMultiply_cons (prime start : BitVec w) (b : BitVec 8) (bytes : List (BitVec 8)) :
    xorMultiply prime start (b :: bytes) =
      xorMultiply prime ((start ^^^ b.setWidth w) * prime) bytes := rfl

theorem xorMultiply_append (prime start : BitVec w) (bytes bytes' : List (BitVec 8)) :
    xorMultiply prime start (bytes ++ bytes') =
      xorMultiply prime (xorMultiply prime start bytes) bytes' :=
  List.foldl_append

/-- The low bits of the hash are the hash in the low bits. -/
theorem setWidth_xorMultiply {k : Nat} (hk : k ≤ w) (prime start : BitVec w)
    (bytes : List (BitVec 8)) : (xorMultiply prime start bytes).setWidth k =
      xorMultiply (prime.setWidth k) (start.setWidth k) bytes := by
  induction bytes generalizing start with
  | nil => rfl
  | cons b bytes ih =>
    rw [xorMultiply_cons, xorMultiply_cons, ih, BitVec.setWidth_mul _ _ hk, BitVec.setWidth_xor,
      BitVec.setWidth_setWidth_of_le _ hk]

/-- The hash sees of each byte only what fits its word. -/
theorem xorMultiply_congr {start : BitVec w} {bytes bytes' : List (BitVec 8)}
    (h : bytes.map (BitVec.setWidth w) = bytes'.map (BitVec.setWidth w)) :
    xorMultiply prime start bytes = xorMultiply prime start bytes' := by
  have hfold (bytes : List (BitVec 8)) : xorMultiply prime start bytes =
      (bytes.map (BitVec.setWidth w)).foldl (fun hash b => (hash ^^^ b) * prime) start := by
    rw [List.foldl_map]
    rfl
  rw [hfold, hfold, h]

/-- One step can be undone. -/
theorem xorMultiply_step_inj {inverse : BitVec w} (hinverse : prime * inverse = 1#w)
    {hash hash' b b' : BitVec w} (h : (hash ^^^ b) * prime = (hash' ^^^ b') * prime) :
    hash ^^^ b = hash' ^^^ b' := by
  have hundone (x : BitVec w) : x * prime * inverse = x := by
    rw [BitVec.mul_assoc, hinverse, BitVec.mul_one]
  rw [← hundone (hash ^^^ b), h, hundone]

/-- Equal bytes keep different hashes apart. -/
theorem xorMultiply_inj {inverse : BitVec w} (hinverse : prime * inverse = 1#w)
    {start start' : BitVec w} (bytes : List (BitVec 8)) :
    xorMultiply prime start bytes = xorMultiply prime start' bytes ↔ start = start' := by
  constructor
  · intro h
    induction bytes generalizing start start' with
    | nil => exact h
    | cons b bytes ih =>
      rw [xorMultiply_cons, xorMultiply_cons] at h
      exact (BitVec.xor_left_inj _).mp (xorMultiply_step_inj hinverse (ih h))
  · rintro rfl
    rfl

/-- Inputs that differ in one byte agree in their hash exactly when the word cannot tell the two
bytes apart. -/
theorem xorMultiply_replaced {inverse : BitVec w} (hinverse : prime * inverse = 1#w)
    (start : BitVec w) (before after : List (BitVec 8)) (b b' : BitVec 8) :
    xorMultiply prime start (before ++ b :: after) =
        xorMultiply prime start (before ++ b' :: after) ↔ b.setWidth w = b'.setWidth w := by
  rw [xorMultiply_append, xorMultiply_append, xorMultiply_cons, xorMultiply_cons,
    xorMultiply_inj hinverse]
  constructor
  · intro h
    exact (BitVec.xor_right_inj _).mp (xorMultiply_step_inj hinverse h)
  · intro h
    rw [h]

end

end Netmux
