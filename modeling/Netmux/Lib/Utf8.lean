import Mathlib.Data.List.Basic

/-!
# Text as bytes

The bytes of a string, the conversion to a C string, and the lossy conversion back, which
replaces each maximal ill-formed piece by one replacement character. Well-formed text comes
back unchanged.
-/

namespace Netmux

/-- `as_bytes()`. -/
def utf8 (s : String) : List UInt8 := s.toByteArray.data.toList

theorem utf8_eq_flatMap (s : String) : utf8 s = s.toList.flatMap String.utf8EncodeChar := by
  rw [utf8, ← String.utf8Encode_toList, List.utf8Encode, List.toList_data_toByteArray]

/-- `CString::new`, which refuses a NUL byte. -/
def cString (s : String) : Option (List UInt8) := if 0 ∈ utf8 s then none else some (utf8 s)

theorem cString_eq_none {s : String} (h : 0 ∈ utf8 s) : cString s = none := if_pos h

theorem cString_eq_some {s : String} (h : 0 ∉ utf8 s) : cString s = some (utf8 s) := if_neg h

/-- The bytes 0x80 to 0xbf. -/
def isContinuation (b : UInt8) : Bool := b &&& 0xc0 == 0x80

/-- Whether two bytes start a character of three or four bytes. -/
def startsLong (first second : UInt8) : Bool :=
  if first = 0xe0 then 0xa0 ≤ second && second ≤ 0xbf
  else if first = 0xed then 0x80 ≤ second && second ≤ 0x9f
  else if 0xe1 ≤ first && first ≤ 0xef then isContinuation second
  else if first = 0xf0 then 0x90 ≤ second && second ≤ 0xbf
  else if 0xf1 ≤ first && first ≤ 0xf3 then isContinuation second
  else if first = 0xf4 then 0x80 ≤ second && second ≤ 0x8f
  else false

/-- The length of the ill-formed piece in front of bytes that start no character. -/
def illFormedLength : List UInt8 → Nat
  | first :: second :: rest =>
    if startsLong first second then
      match rest with
      | third :: _ => if isContinuation third then 3 else 2
      | [] => 2
    else 1
  | _ => 1

/-- `String::from_utf8_lossy`, over a fuel of one turn a byte. -/
def lossyChars : Nat → List UInt8 → List Char
  | 0, _ => []
  | _ + 1, [] => []
  | fuel + 1, bytes@(_ :: _) =>
    match bytes.toByteArray.utf8DecodeChar? 0 with
    | some c => c :: lossyChars fuel (bytes.drop c.utf8Size)
    | none => '\uFFFD' :: lossyChars fuel (bytes.drop (illFormedLength bytes))

/-- `String::from_utf8_lossy`. -/
def fromUtf8Lossy (bytes : List UInt8) : String := String.ofList (lossyChars bytes.length bytes)

/-- A character is decoded from its own bytes, whatever follows. -/
theorem lossyChars_utf8EncodeChar (fuel : Nat) (c : Char) (rest : List UInt8) :
    lossyChars (fuel + 1) (String.utf8EncodeChar c ++ rest) = c :: lossyChars fuel rest := by
  have hdecode : (String.utf8EncodeChar c ++ rest).toByteArray.utf8DecodeChar? 0 = some c := by
    rw [List.toByteArray_append]
    exact ByteArray.utf8DecodeChar?_utf8EncodeChar_append
  have hlength := String.length_utf8EncodeChar c
  have hpos := c.utf8Size_pos
  cases hbytes : String.utf8EncodeChar c ++ rest with
  | nil =>
    have hnil := congrArg List.length hbytes
    rw [List.length_append, List.length_nil] at hnil
    omega
  | cons b bs =>
    rw [hbytes] at hdecode
    rw [lossyChars, hdecode]
    simp only
    rw [← hbytes, List.drop_left' hlength]

theorem lossyChars_flatMap {fuel : Nat} {cs : List Char} (h : cs.length ≤ fuel) :
    lossyChars fuel (cs.flatMap String.utf8EncodeChar) = cs := by
  induction cs generalizing fuel with
  | nil => cases fuel <;> rfl
  | cons c cs ih =>
    obtain ⟨fuel, rfl⟩ : ∃ n, fuel = n + 1 := ⟨fuel - 1, by simp at h; omega⟩
    rw [List.flatMap_cons, lossyChars_utf8EncodeChar, ih (by simpa using h)]

/-- No character is empty. -/
theorem length_le_length_flatMap (cs : List Char) :
    cs.length ≤ (cs.flatMap String.utf8EncodeChar).length := by
  induction cs with
  | nil => exact Nat.le_refl 0
  | cons c cs ih =>
    have hpos := c.utf8Size_pos
    rw [List.flatMap_cons, List.length_append, String.length_utf8EncodeChar, List.length_cons]
    omega

/-- Nothing is lost of well-formed text. -/
theorem fromUtf8Lossy_utf8 (s : String) : fromUtf8Lossy (utf8 s) = s := by
  rw [fromUtf8Lossy, utf8_eq_flatMap, lossyChars_flatMap (length_le_length_flatMap s.toList),
    String.ofList_toList]

/-- A stray continuation byte and a character that is cut off. -/
example : fromUtf8Lossy [0x61, 0x80, 0xe2, 0x82, 0x62, 0xf0, 0x9f, 0x98] =
    "a\uFFFD\uFFFDb\uFFFD" := by decide +kernel

end Netmux
