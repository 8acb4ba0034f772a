import Mathlib.Data.List.Basic
import Std.Data.String.ToNat

/-!
# Separated text

Text that is put together from fields and separators can be taken apart again at the
first or at the last occurrence of a separator that the fields in between do not contain.
Decimal and hexadecimal numbers are such fields, and the latter read back as what was
printed.
-/

namespace Netmux

section Separators

variable {α : Type} {left left' right right' : List α} {sep : α}

/-- The fields around the first separator. -/
theorem append_cons_inj_of_first (hleft : sep ∉ left) (hleft' : sep ∉ left')
    (h : left ++ sep :: right = left' ++ sep :: right') : left = left' ∧ right = right' := by
  induction left generalizing left' with
  | nil =>
    cases left' with
    | nil => exact ⟨rfl, (List.cons.inj h).2⟩
    | cons x left' =>
      have hsep : sep = x := (List.cons.inj h).1
      exact absurd (hsep ▸ List.mem_cons_self) hleft'
  | cons x left ih =>
    cases left' with
    | nil =>
      have hsep : x = sep := (List.cons.inj h).1
      exact absurd (hsep ▸ List.mem_cons_self) hleft
    | cons y left' =>
      obtain ⟨rfl, htail⟩ := List.cons.inj h
      obtain ⟨rfl, rfl⟩ := ih (fun hmem => hleft (List.mem_cons_of_mem _ hmem))
        (fun hmem => hleft' (List.mem_cons_of_mem _ hmem)) htail
      exact ⟨rfl, rfl⟩

/-- The fields around the last separator. -/
theorem append_cons_inj_of_last (hright : sep ∉ right) (hright' : sep ∉ right')
    (h : left ++ sep :: right = left' ++ sep :: right') : left = left' ∧ right = right' := by
  have hrev : right.reverse ++ sep :: left.reverse = right'.reverse ++ sep :: left'.reverse := by
    simpa using congrArg List.reverse h
  obtain ⟨hr, hl⟩ := append_cons_inj_of_first (by rwa [List.mem_reverse])
    (by rwa [List.mem_reverse]) hrev
  exact ⟨List.reverse_injective hl, List.reverse_injective hr⟩

end Separators

/-! ## Joined fields -/

section Fields

variable {α : Type} {sep : α}

/-- Joined fields start with their first field. -/
theorem head?_intercalate {field : List α} (h : field ≠ []) (fields : List (List α))
    (rest : List α) : ([sep].intercalate (field :: fields) ++ rest).head? = field.head? := by
  cases fields with
  | nil => rw [List.intercalate_singleton, List.head?_append_of_ne_nil field h]
  | cons next fields =>
    rw [List.intercalate_cons_cons, List.append_assoc, List.append_assoc,
      List.head?_append_of_ne_nil field h]

variable [DecidableEq α]

/-- The texts around the first doubled separator. -/
def cutDouble (sep : α) : List α → Option (List α × List α)
  | x :: y :: rest =>
    if x = sep ∧ y = sep then some ([], rest)
    else (cutDouble sep (y :: rest)).map fun (left, right) => (x :: left, right)
  | _ => none

theorem cutDouble_double (rest : List α) :
    cutDouble sep (sep :: sep :: rest) = some ([], rest) := by
  rw [cutDouble, if_pos ⟨rfl, rfl⟩]

/-- A separator without another one behind it. -/
theorem cutDouble_cons_of_single {x : α} {rest : List α} (h : x = sep → rest.head? ≠ some sep) :
    cutDouble sep (x :: rest) =
      (cutDouble sep rest).map fun (left, right) => (x :: left, right) := by
  cases rest with
  | nil => rfl
  | cons y rest =>
    rw [cutDouble, if_neg]
    rintro ⟨rfl, rfl⟩
    exact h rfl rfl

/-- Text without separators is passed. -/
theorem cutDouble_append {field : List α} (h : sep ∉ field) (rest : List α) :
    cutDouble sep (field ++ rest) =
      (cutDouble sep rest).map fun (left, right) => (field ++ left, right) := by
  induction field with
  | nil => simp
  | cons x field ih =>
    have hx : x ≠ sep := fun he => h (he ▸ List.mem_cons_self)
    rw [List.cons_append, cutDouble_cons_of_single (fun he => absurd he hx),
      ih (fun hmem => h (List.mem_cons_of_mem _ hmem)), Option.map_map]
    rfl

/-- Between nonempty fields there is only one separator. -/
theorem cutDouble_intercalate {fields : List (List α)}
    (h : ∀ field ∈ fields, field ≠ [] ∧ sep ∉ field) (rest : List α) :
    cutDouble sep ([sep].intercalate fields ++ rest) =
      (cutDouble sep rest).map fun (left, right) => ([sep].intercalate fields ++ left, right) := by
  induction fields with
  | nil => simp
  | cons field fields ih =>
    rw [List.forall_mem_cons] at h
    cases fields with
    | nil =>
      rw [List.intercalate_singleton]
      exact cutDouble_append h.1.2 rest
    | cons next fields =>
      have hnext := h.2 next List.mem_cons_self
      have hhead : ([sep].intercalate (next :: fields) ++ rest).head? ≠ some sep := by
        rw [head?_intercalate hnext.1]
        exact fun he => hnext.2 (List.mem_of_head? he)
      rw [List.intercalate_cons_cons, List.append_assoc, List.append_assoc,
        cutDouble_append h.1.2, List.singleton_append,
        cutDouble_cons_of_single (fun _ => hhead), ih h.2, Option.map_map, Option.map_map]
      simp only [List.append_assoc, List.cons_append]
      rfl

end Fields

/-! ## Decimal numbers -/

/-- A decimal number holds no character but digits. -/
theorem not_mem_repr {n : Nat} {ch : Char} (h : ch.isDigit = false) : ch ∉ (Nat.repr n).toList := by
  intro hmem
  rw [Nat.toList_repr] at hmem
  have hdigit := Nat.isDigit_of_mem_toDigits (by decide) (by decide) hmem
  rw [h] at hdigit
  exact absurd hdigit (by decide)

/-! ## Hexadecimal numbers -/

/-- The value of a hexadecimal digit of either case. -/
def hexValue (ch : Char) : Option Nat :=
  if ch.isDigit then some (ch.toNat - '0'.toNat)
  else if 'a' ≤ ch ∧ ch ≤ 'f' then some (ch.toNat - 'a'.toNat + 10)
  else if 'A' ≤ ch ∧ ch ≤ 'F' then some (ch.toNat - 'A'.toNat + 10)
  else none

/-- The number that hexadecimal digits continue. -/
def readHex : List Char → Nat → Option Nat
  | [], value => some value
  | ch :: text, value => do
    let digit ← hexValue ch
    readHex text (16 * value + digit)

theorem hexValue_digitChar {d : Nat} (h : d < 16) : hexValue d.digitChar = some d := by
  have hall : ∀ d : Fin 16, hexValue (Nat.digitChar d.val) = some d.val := by decide
  exact hall ⟨d, h⟩

theorem readHex_append (text rest : List Char) (value : Nat) :
    readHex (text ++ rest) value = (readHex text value).bind (readHex rest) := by
  induction text generalizing value with
  | nil => rfl
  | cons ch text ih =>
    simp only [List.cons_append, readHex, Option.bind_eq_bind, ih, Option.bind_assoc]

/-- A number reads back as itself. -/
theorem readHex_toDigits (n : Nat) : readHex (Nat.toDigits 16 n) 0 = some n := by
  induction n using Nat.strongRecOn with
  | ind n ih =>
    rw [Nat.toDigits_eq_if (by decide)]
    split
    · rename_i hlt
      simp only [readHex, hexValue_digitChar hlt, Option.bind_eq_bind, Option.bind_some,
        Nat.mul_zero, Nat.zero_add]
    · rw [readHex_append, ih (n / 16) (by omega), Option.bind_some]
      simp only [readHex, hexValue_digitChar (Nat.mod_lt n (by decide)), Option.bind_eq_bind,
        Option.bind_some, Nat.div_add_mod]

/-- Only digits are read. -/
theorem hexValue_of_readHex {text : List Char} {value n : Nat} (h : readHex text value = some n)
    {ch : Char} (hch : ch ∈ text) : hexValue ch ≠ none := by
  induction text generalizing value with
  | nil => exact absurd hch List.not_mem_nil
  | cons c text ih =>
    simp only [readHex, Option.bind_eq_bind, Option.bind_eq_some_iff] at h
    obtain ⟨digit, hdigit, h⟩ := h
    rcases List.mem_cons.mp hch with rfl | hch
    · rw [hdigit]
      exact Option.some_ne_none digit
    · exact ih h hch

/-- A hexadecimal number holds no character but digits. -/
theorem not_mem_hex {n : Nat} {ch : Char} (h : hexValue ch = none) : ch ∉ Nat.toDigits 16 n := by
  intro hmem
  exact hexValue_of_readHex (readHex_toDigits n) hmem h

end Netmux
