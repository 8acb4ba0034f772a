import Netmux.Lib.Text
import Netmux.Packet.Parse

/-!
# Text representation of IPv6 addresses

Eight groups of one to four hexadecimal digits with colons between them. One or more groups
of zeros may be written as `::`, once, and the last two groups as four decimal octets. The
reader below takes exactly these forms.
-/

namespace Netmux

/-- A group of one to four hexadecimal digits. -/
def readGroup (text : List Char) : Option UInt16 :=
  if 1 ≤ text.length ∧ text.length ≤ 4 then (readHex text 0).map UInt16.ofNat else none

/-- Groups of digits only. -/
def readGroups : List (List Char) → Option (List UInt16)
  | [] => some []
  | text :: rest => do
    let group ← readGroup text
    let groups ← readGroups rest
    return group :: groups

/-- The two groups of a dotted address. -/
def dottedGroups (x : Ipv4Addr) : List UInt16 := [fromBe x.a x.b, fromBe x.c x.d]

/-- Groups of which the last two may be written as a dotted address. -/
def readTail : List (List Char) → Option (List UInt16)
  | [] => some []
  | [text] =>
    match readGroup text with
    | some group => some [group]
    | none => (Ipv4Addr.fromStr (String.ofList text)).map dottedGroups
  | text :: next :: rest => do
    let group ← readGroup text
    let groups ← readTail (next :: rest)
    return group :: groups

/-- The texts between the colons; an empty text holds none. -/
def groupTexts (text : List Char) : List (List Char) :=
  if text = [] then [] else text.splitOn ':'

/-- The eight groups of an address. -/
def readAddress (text : List Char) : Option (List UInt16) :=
  match cutDouble ':' text with
  | none => do
    let groups ← readTail (groupTexts text)
    if groups.length = 8 then some groups else none
  | some (left, right) => do
    let front ← readGroups (groupTexts left)
    let back ← readTail (groupTexts right)
    if front.length + back.length ≤ 7 then
      some (front ++ List.replicate (8 - (front.length + back.length)) 0 ++ back)
    else none

/-! ## Printed groups -/

/-- The digits of a group, without leading zeros. -/
def groupText (w : UInt16) : List Char := Nat.toDigits 16 w.toNat

/-- Groups with colons between them. -/
def joinGroups (ws : List UInt16) : List Char := [':'].intercalate (ws.map groupText)

theorem joinGroups_cons_cons (w v : UInt16) (ws : List UInt16) :
    joinGroups (w :: v :: ws) = groupText w ++ [':'] ++ joinGroups (v :: ws) :=
  List.intercalate_cons_cons

/-- Joining goes on behind the last group. -/
theorem joinGroups_append {left right : List UInt16} (hleft : left ≠ []) (hright : right ≠ []) :
    joinGroups (left ++ right) = joinGroups left ++ [':'] ++ joinGroups right := by
  obtain ⟨v, right, rfl⟩ := List.exists_cons_of_ne_nil hright
  induction left with
  | nil => exact absurd rfl hleft
  | cons w left ih =>
    cases left with
    | nil =>
      rw [List.singleton_append, joinGroups_cons_cons]
      exact congrArg (· ++ _ ++ _) List.intercalate_singleton.symm
    | cons u left =>
      rw [List.cons_append, List.cons_append, joinGroups_cons_cons, joinGroups_cons_cons,
        ← List.cons_append, ih (List.cons_ne_nil u left)]
      simp only [List.append_assoc]

/-- Only digits and colons are printed. -/
theorem chars_joinGroups (ws : List UInt16) :
    ∀ ch ∈ joinGroups ws, ch = ':' ∨ hexValue ch ≠ none := by
  have hgroup (w : UInt16) : ∀ ch ∈ groupText w, hexValue ch ≠ none := by
    intro ch hch
    exact hexValue_of_readHex (readHex_toDigits w.toNat) hch
  induction ws with
  | nil =>
    intro ch hch
    exact absurd hch List.not_mem_nil
  | cons w ws ih =>
    cases ws with
    | nil =>
      rw [joinGroups, List.map_singleton, List.intercalate_singleton]
      exact fun ch hch => .inr (hgroup w ch hch)
    | cons v ws =>
      intro ch hch
      rw [joinGroups_cons_cons, List.mem_append, List.mem_append, List.mem_singleton] at hch
      rcases hch with (hch | hch) | hch
      · exact .inr (hgroup w ch hch)
      · exact .inl hch
      · exact ih ch hch

theorem groupText_ne_nil (w : UInt16) : groupText w ≠ [] := Nat.toDigits_ne_nil

theorem colon_not_mem_groupText (w : UInt16) : ':' ∉ groupText w := not_mem_hex (by decide)

theorem readGroup_groupText (w : UInt16) : readGroup (groupText w) = some w := by
  have hpos : 1 ≤ (groupText w).length := Nat.length_toDigits_pos
  have hle : (groupText w).length ≤ 4 :=
    (Nat.length_toDigits_le_iff (by decide) (by decide)).mpr w.toNat_lt
  rw [readGroup, if_pos ⟨hpos, hle⟩, groupText, readHex_toDigits, Option.map_some,
    UInt16.ofNat_toNat]

theorem readGroups_map_groupText (ws : List UInt16) :
    readGroups (ws.map groupText) = some ws := by
  induction ws with
  | nil => rfl
  | cons w ws ih =>
    simp only [List.map_cons, readGroups, readGroup_groupText, ih, Option.bind_eq_bind,
      Option.bind_some, Option.pure_def]

theorem readTail_map_groupText (ws : List UInt16) : readTail (ws.map groupText) = some ws := by
  induction ws with
  | nil => rfl
  | cons w ws ih =>
    cases ws with
    | nil => simp only [List.map_cons, List.map_nil, readTail, readGroup_groupText]
    | cons v ws =>
      simp only [List.map_cons] at ih
      simp only [List.map_cons, readTail, readGroup_groupText, ih, Option.bind_eq_bind,
        Option.bind_some, Option.pure_def]

/-- Joined groups start with the first digit of the first one. -/
theorem head?_joinGroups (w : UInt16) (ws : List UInt16) (rest : List Char) :
    (joinGroups (w :: ws) ++ rest).head? = (groupText w).head? :=
  head?_intercalate (groupText_ne_nil w) (ws.map groupText) rest

theorem joinGroups_ne_nil {ws : List UInt16} (h : ws ≠ []) : joinGroups ws ≠ [] := by
  obtain ⟨w, ws, rfl⟩ := List.exists_cons_of_ne_nil h
  intro hnil
  have hhead := head?_joinGroups w ws []
  rw [hnil] at hhead
  exact groupText_ne_nil w (List.head?_eq_none_iff.mp hhead.symm)

/-- Joined groups come apart again. -/
theorem groupTexts_joinGroups (ws : List UInt16) :
    groupTexts (joinGroups ws) = ws.map groupText := by
  cases ws with
  | nil => rfl
  | cons w ws =>
    rw [groupTexts, if_neg (joinGroups_ne_nil (List.cons_ne_nil w ws)), joinGroups,
      List.splitOn_intercalate ':' _ (by simp)]
    intro text htext
    obtain ⟨v, _, rfl⟩ := List.mem_map.mp htext
    exact colon_not_mem_groupText v

theorem cutDouble_joinGroups (ws : List UInt16) (rest : List Char) :
    cutDouble ':' (joinGroups ws ++ rest) =
      (cutDouble ':' rest).map fun (left, right) => (joinGroups ws ++ left, right) := by
  apply cutDouble_intercalate
  intro text htext
  obtain ⟨w, _, rfl⟩ := List.mem_map.mp htext
  exact ⟨groupText_ne_nil w, colon_not_mem_groupText w⟩

/-! ## What reads back -/

/-- Joined groups read back when there are eight of them. -/
theorem readAddress_joinGroups (ws : List UInt16) :
    readAddress (joinGroups ws) = if ws.length = 8 then some ws else none := by
  have hcut : cutDouble ':' (joinGroups ws) = none := by
    have h := cutDouble_joinGroups ws []
    rwa [List.append_nil] at h
  simp only [readAddress, hcut, groupTexts_joinGroups, readTail_map_groupText,
    Option.bind_eq_bind, Option.bind_some]

/-- Groups in front of a double colon read back with zeros behind them. -/
theorem readAddress_trailing {ws : List UInt16} (h : ws.length ≤ 7) :
    readAddress (joinGroups ws ++ [':', ':']) = some (ws ++ List.replicate (8 - ws.length) 0) := by
  have hcut : cutDouble ':' (joinGroups ws ++ [':', ':']) = some (joinGroups ws, []) := by
    simp only [cutDouble_joinGroups, cutDouble_double, Option.map_some, List.append_nil]
  have hempty : readTail (groupTexts []) = some [] := rfl
  simp only [readAddress, hcut, groupTexts_joinGroups, readGroups_map_groupText, hempty,
    Option.bind_eq_bind, Option.bind_some, List.length_nil, Nat.add_zero, h, if_true,
    List.append_nil]

/-- A single colon in front of groups reads as nothing. -/
theorem readAddress_leading {ws : List UInt16} (h : ws ≠ []) :
    readAddress (':' :: joinGroups ws) = none := by
  obtain ⟨w, ws, rfl⟩ := List.exists_cons_of_ne_nil h
  have hcut : cutDouble ':' (':' :: joinGroups (w :: ws)) = none := by
    have hhead : (joinGroups (w :: ws)).head? ≠ some ':' := by
      have heq := head?_joinGroups w ws []
      rw [List.append_nil] at heq
      rw [heq]
      exact fun he => colon_not_mem_groupText w (List.mem_of_head? he)
    have hnone := cutDouble_joinGroups (w :: ws) []
    rw [List.append_nil] at hnone
    rw [cutDouble_cons_of_single (fun _ => hhead), hnone]
    rfl
  have htexts : groupTexts (':' :: joinGroups (w :: ws)) = [] :: (w :: ws).map groupText := by
    have hjoined := groupTexts_joinGroups (w :: ws)
    rw [groupTexts, if_neg (joinGroups_ne_nil (List.cons_ne_nil w ws))] at hjoined
    rw [groupTexts, if_neg (List.cons_ne_nil _ _), ← hjoined]
    exact List.splitOn_append_cons_self_of_not_mem List.not_mem_nil _
  have hread : readTail ([] :: (w :: ws).map groupText) = none := rfl
  simp only [readAddress, hcut, htexts, hread, Option.bind_eq_bind, Option.bind_none]

end Netmux
