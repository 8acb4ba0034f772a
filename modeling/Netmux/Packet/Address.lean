import Netmux.Lib.Bytes
import Netmux.Lib.Text

/-!
# IPv4 addresses and their text

The data plane carries addresses both as four octets and as text: the parser prints
them with `{}.{}.{}.{}` and the NAT reads them back with the parser of the standard
library, which accepts exactly four decimal octets without leading zeros.
-/

namespace Netmux

/-- `std::net::Ipv4Addr`, also used for the bare `[u8; 4]` of the checksum helper. -/
structure Ipv4Addr where
  a : UInt8
  b : UInt8
  c : UInt8
  d : UInt8
  deriving DecidableEq, Repr

namespace Ipv4Addr

/-- `addr.octets()`. -/
def octets (x : Ipv4Addr) : List UInt8 := [x.a, x.b, x.c, x.d]

@[simp] theorem length_octets (x : Ipv4Addr) : x.octets.length = 4 := rfl

/-- `format!("{}.{}.{}.{}", ..)` of the four octets. -/
def dotted (x : Ipv4Addr) : String :=
  Nat.repr x.a.toNat ++ "." ++ Nat.repr x.b.toNat ++ "." ++ Nat.repr x.c.toNat ++ "." ++
    Nat.repr x.d.toNat

/-! ## The standard parser -/

/-- The digit loop of `read_number`: value, number of digits and rest; an octet above 255
fails at the digit that overflows it. -/
def readDigits : List Char → Nat → Nat → Option (Nat × Nat × List Char)
  | [], value, count => some (value, count, [])
  | ch :: rest, value, count =>
    if ch.isDigit then
      let value := value * 10 + (ch.toNat - '0'.toNat)
      if value ≤ 255 then readDigits rest value (count + 1) else none
    else some (value, count, ch :: rest)

/-- `read_number(10, None, false)`: at least one digit and no leading zero. -/
def readNumber (text : List Char) : Option (UInt8 × List Char) := do
  let (value, count, rest) ← readDigits text 0 0
  if count = 0 then none
  else if text.head? = some '0' ∧ 1 < count then none
  else some (UInt8.ofNat value, rest)

/-- One separator in front of an octet. -/
def readDot : List Char → Option (List Char)
  | '.' :: rest => some rest
  | _ => none

/-- `s.parse::<Ipv4Addr>().ok()`: at most 15 bytes, all of them consumed. -/
def fromStr (s : String) : Option Ipv4Addr :=
  if 15 < s.utf8ByteSize then none
  else do
    let (a, rest) ← readNumber s.toList
    let (b, rest) ← readNumber (← readDot rest)
    let (c, rest) ← readNumber (← readDot rest)
    let (d, rest) ← readNumber (← readDot rest)
    if rest = [] then some ⟨a, b, c, d⟩ else none

/-! ## Round trip -/

/-- The digit loop stops in front of a character that is no digit. -/
theorem readDigits_append {ds rest : List Char} {value count value' count' : Nat}
    (hrest : ∀ ch, rest.head? = some ch → ch.isDigit = false)
    (h : readDigits ds value count = some (value', count', [])) :
    readDigits (ds ++ rest) value count = some (value', count', rest) := by
  induction ds generalizing value count with
  | nil =>
    simp only [readDigits, Option.some.injEq, Prod.mk.injEq, and_true] at h
    obtain ⟨rfl, rfl⟩ := h
    cases rest with
    | nil => rfl
    | cons ch rest => simp [readDigits, hrest ch rfl]
  | cons ch ds ih =>
    simp only [readDigits] at h
    simp only [List.cons_append, readDigits]
    split at h
    · rename_i hd
      rw [if_pos hd]
      split at h
      · rename_i hv
        rw [if_pos hv]
        exact ih h
      · simp at h
    · simp at h

/-- The number reader stops there too. -/
theorem readNumber_append {ds rest : List Char} {x : UInt8}
    (hrest : ∀ ch, rest.head? = some ch → ch.isDigit = false)
    (h : readNumber ds = some (x, [])) : readNumber (ds ++ rest) = some (x, rest) := by
  simp only [readNumber, Option.bind_eq_bind, Option.bind_eq_some_iff] at h
  obtain ⟨⟨value, count, left⟩, hd, h⟩ := h
  by_cases hc : count = 0
  · simp [hc] at h
  by_cases hz : ds.head? = some '0' ∧ 1 < count
  · simp [hz] at h
  simp only [hc, hz, if_false, Option.some.injEq, Prod.mk.injEq] at h
  obtain ⟨rfl, rfl⟩ := h
  have hne : ds ≠ [] := by
    rintro rfl
    simp only [readDigits, Option.some.injEq, Prod.mk.injEq] at hd
    exact hc hd.2.1.symm
  have hhead : (ds ++ rest).head? = ds.head? := List.head?_append_of_ne_nil ds hne
  simp only [readNumber, Option.bind_eq_bind, readDigits_append hrest hd, Option.bind_some, hc,
    hhead, hz, if_false]

/-- Every octet prints to at most three digits that the number reader takes back. -/
theorem readNumber_repr (x : UInt8) :
    (Nat.repr x.toNat).utf8ByteSize ≤ 3 ∧ readNumber (Nat.repr x.toNat).toList = some (x, []) := by
  have h : ∀ n : Fin 256, (Nat.repr n.val).utf8ByteSize ≤ 3 ∧
      readNumber (Nat.repr n.val).toList = some (UInt8.ofNat n.val, []) := by
    decide +kernel
  simpa only [UInt8.ofNat_toNat] using h ⟨x.toNat, x.toNat_lt⟩

/-- Reading back the dotted text of an address gives the address. -/
@[simp] theorem fromStr_dotted (x : Ipv4Addr) : fromStr x.dotted = some x := by
  have hsize : x.dotted.utf8ByteSize ≤ 15 := by
    have ha := (readNumber_repr x.a).1
    have hb := (readNumber_repr x.b).1
    have hc := (readNumber_repr x.c).1
    have hd := (readNumber_repr x.d).1
    have hdot : ".".utf8ByteSize = 1 := by decide
    simp only [dotted, String.utf8ByteSize_append, hdot]
    omega
  have hlist : x.dotted.toList =
      (Nat.repr x.a.toNat).toList ++ ('.' :: ((Nat.repr x.b.toNat).toList ++
      ('.' :: ((Nat.repr x.c.toNat).toList ++ ('.' :: ((Nat.repr x.d.toNat).toList ++ [])))))) := by
    have hdot : ".".toList = ['.'] := by decide
    simp only [dotted, String.toList_append, hdot, List.append_assoc, List.cons_append,
      List.nil_append, List.append_nil]
  have hnext (rest : List Char) :
      ∀ ch, ('.' :: rest).head? = some ch → ch.isDigit = false := by
    intro ch hch
    obtain rfl : '.' = ch := by simpa using hch
    decide
  have hend : ∀ ch, ([] : List Char).head? = some ch → ch.isDigit = false := by
    intro ch hch
    simp at hch
  rw [fromStr, if_neg (by omega), hlist]
  simp only [Option.bind_eq_bind, readNumber_append (hnext _) (readNumber_repr _).2,
    readNumber_append hend (readNumber_repr _).2, Option.bind_some, readDot, if_true]

/-- Different addresses have different texts. -/
theorem dotted_inj {x y : Ipv4Addr} : x.dotted = y.dotted ↔ x = y := by
  constructor
  · intro h
    rw [← Option.some_inj, ← fromStr_dotted, h, fromStr_dotted]
  · rintro rfl
    rfl

/-- The text of an address holds digits and dots only. -/
theorem dash_not_mem_dotted (x : Ipv4Addr) : '-' ∉ x.dotted.toList := by
  have hdigit (octet : UInt8) : '-' ∉ (Nat.repr octet.toNat).toList := not_mem_repr (by decide)
  have hdot : '-' ∉ ".".toList := by decide
  simp only [dotted, String.toList_append, List.mem_append, hdigit, hdot, or_self,
    not_false_eq_true]

/-! ## What the parser rejects -/

private theorem readDigits_chars {text rest : List Char} {value count value' count' : Nat}
    (h : readDigits text value count = some (value', count', rest)) :
    ∃ ds, text = ds ++ rest ∧ ∀ ch ∈ ds, ch.isDigit = true := by
  induction text generalizing value count with
  | nil =>
    simp only [readDigits, Option.some.injEq, Prod.mk.injEq] at h
    exact ⟨[], by simp [← h.2.2], by simp⟩
  | cons ch text ih =>
    simp only [readDigits] at h
    split at h
    · rename_i hd
      split at h
      · obtain ⟨ds, rfl, hds⟩ := ih h
        refine ⟨ch :: ds, rfl, ?_⟩
        intro c hc
        rcases List.mem_cons.mp hc with rfl | hc
        · exact hd
        · exact hds c hc
      · simp at h
    · simp only [Option.some.injEq, Prod.mk.injEq] at h
      exact ⟨[], by simp [← h.2.2], by simp⟩

private theorem readNumber_chars {text rest : List Char} {x : UInt8}
    (h : readNumber text = some (x, rest)) :
    ∃ ds, text = ds ++ rest ∧ ∀ ch ∈ ds, ch.isDigit = true := by
  simp only [readNumber, Option.bind_eq_bind, Option.bind_eq_some_iff] at h
  obtain ⟨⟨value, count, left⟩, hd, h⟩ := h
  have hleft : left = rest := by
    split at h
    · simp at h
    · split at h
      · simp at h
      · simp only [Option.some.injEq, Prod.mk.injEq] at h
        exact h.2
  subst hleft
  exact readDigits_chars hd

private theorem readDot_chars {text rest : List Char} (h : readDot text = some rest) :
    text = '.' :: rest := by
  unfold readDot at h
  split at h
  · simp only [Option.some.injEq] at h
    rw [h]
  · simp at h

/-- Text with a colon in it is no IPv4 address. -/
theorem fromStr_of_colon {s : String} (h : ':' ∈ s.toList) : fromStr s = none := by
  cases hs : fromStr s with
  | none => rfl
  | some x =>
    exfalso
    unfold fromStr at hs
    split at hs
    · simp at hs
    · simp only [Option.bind_eq_bind, Option.bind_eq_some_iff] at hs
      obtain ⟨⟨a, ra⟩, ha, ⟨ta, hta, ⟨b, rb⟩, hb, tb, htb, ⟨c, rc⟩, hc, tc, htc, ⟨d, rd⟩, hd,
        hs⟩⟩ := hs
      have hrd : rd = [] := by
        by_contra hne
        simp [hne] at hs
      obtain ⟨da, hda, hdiga⟩ := readNumber_chars ha
      obtain ⟨db, hdb, hdigb⟩ := readNumber_chars hb
      obtain ⟨dc, hdc, hdigc⟩ := readNumber_chars hc
      obtain ⟨dd, hdd, hdigd⟩ := readNumber_chars hd
      have hcolon : ¬ (':' : Char).isDigit = true := by decide
      dsimp only at hta htb htc
      rw [hda, readDot_chars hta, hdb, readDot_chars htb, hdc, readDot_chars htc, hdd, hrd] at h
      simp only [List.mem_append, List.mem_cons, List.not_mem_nil, or_false] at h
      rcases h with h | h | h | h | h | h | h
      · exact hcolon (hdiga _ h)
      · exact absurd h (by decide)
      · exact hcolon (hdigb _ h)
      · exact absurd h (by decide)
      · exact hcolon (hdigc _ h)
      · exact absurd h (by decide)
      · exact hcolon (hdigd _ h)

end Ipv4Addr

end Netmux
