import Mathlib.Algebra.Group.Nat.Defs

/-!
# The sysfs network directory

One reading of `/sys/class/net`: for each entry its name and the text of the files the
program opens, absent when a name or a file does not read as UTF-8 text. The number and
truth value readers are the program's own, over the text rules of the standard library.
-/

namespace Netmux

/-- What one entry of `/sys/class/net` reads as. -/
structure SysEntry where
  name : Option String
  operstate : Option String
  flags : Option String
  address : Option String
  carrier : Option String
  rxBytes : Option String
  txBytes : Option String
  rxPackets : Option String
  txPackets : Option String
  deriving DecidableEq, Repr

/-- One reading of the directory. Entry names are distinct, and interface indices are positive
`int` values, so that there are fewer than 2^31 entries. -/
structure NetDir where
  entries : List SysEntry
  nodup : (entries.filterMap SysEntry.name).Nodup
  few : entries.length < 2 ^ 31

/-- `read_dir` on it: an OS error or a directory. -/
abbrev ReadDir := Except Nat NetDir

/-- The characters with the Unicode property White_Space. -/
def isWhitespace (c : Char) : Bool :=
  let n := c.toNat
  (9 ≤ n && n ≤ 13) || n == 0x20 || n == 0x85 || n == 0xa0 || n == 0x1680 ||
    (0x2000 ≤ n && n ≤ 0x200a) || n == 0x2028 || n == 0x2029 || n == 0x202f || n == 0x205f ||
    n == 0x3000

/-- `str::trim`. -/
def trim (s : String) : List Char :=
  ((s.toList.dropWhile isWhitespace).reverse.dropWhile isWhitespace).reverse

/-- `trim_start_matches("0x")`. -/
def trimHexPrefix : List Char → List Char
  | '0' :: 'x' :: rest => trimHexPrefix rest
  | s => s

/-- `char::to_digit`. -/
def toDigit (radix : Nat) (c : Char) : Option Nat :=
  let n := c.toNat
  let d :=
    if 48 ≤ n ∧ n ≤ 57 then some (n - 48)
    else if 97 ≤ n ∧ n ≤ 122 then some (n - 97 + 10)
    else if 65 ≤ n ∧ n ≤ 90 then some (n - 65 + 10)
    else none
  d.filter (· < radix)

/-- The digits of a `u64`, refused on overflow. -/
def readDigitsU64 (radix : Nat) : List Char → Nat → Option Nat
  | [], acc => some acc
  | c :: rest, acc =>
    match toDigit radix c with
    | none => none
    | some d =>
      let next := acc * radix + d
      if next < 2 ^ 64 then readDigitsU64 radix rest next else none

/-- `u64::from_str_radix`: one optional plus sign, then at least one digit. -/
def fromStrRadix (radix : Nat) (s : List Char) : Option UInt64 :=
  let digits :=
    match s with
    | '+' :: rest => rest
    | _ => s
  if digits.isEmpty then none else (readDigitsU64 radix digits 0).map UInt64.ofNat

/-- `read_u64`. -/
def readU64 (file : Option String) : UInt64 :=
  (file.bind fun s => fromStrRadix 10 (trim s)).getD 0

/-- `read_bool`. -/
def readBool (file : Option String) : Bool :=
  (file.map fun s => trim s == ['1']).getD false

end Netmux
