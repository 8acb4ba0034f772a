import Netmux.Lib.Span
import Netmux.Packet.FlowKey
import Netmux.Packet.Ipv6
import Netmux.Packet.Ipv6Text

/-!
# Faithful address texts

The scan finds the first of the longest runs of zero words, and the printer puts one colon
in its place. That makes a double colon only when the run reaches the last word: a run in
front of other words leaves a single colon, and the text no longer says how many words are
missing or where.
-/

namespace Netmux

open Checked

/-! ## The run that is compressed -/

/-- The recorded runs are the longest ones among the first `i` words. -/
structure ZeroRun.Tracks (run : ZeroRun) (ws : List UInt16) (i : Nat) : Prop where
  best : FirstLongest 0 ws i run.bestStart run.bestLen
  cur : run.curStart = usizeMax ∧ LongestEnding 0 ws i i 0 ∨
    run.curStart ≠ usizeMax ∧ LongestEnding 0 ws i run.curStart run.curLen

/-- A zero word continues the open run, or opens one. -/
theorem ZeroRun.Tracks.extend {run : ZeroRun} {ws : List UInt16} {i : Nat} (h : run.Tracks ws i)
    (hi : i < usizeMax) (hw : ws[i]? = some 0) :
    ∃ start len, run.extend i = .ok (start, len) ∧ LongestEnding 0 ws (i + 1) start len ∧
      0 < len := by
  rw [ZeroRun.extend]
  rcases h.cur with ⟨hclosed, hcur⟩ | ⟨hopen, hcur⟩
  · exact ⟨i, 1, by rw [if_pos hclosed]; rfl, hcur.extend hw, Nat.one_pos⟩
  · have hends := hcur.ends
    unfold usizeMax at hi
    refine ⟨run.curStart, run.curLen + 1, ?_, hcur.extend hw, Nat.succ_pos _⟩
    rw [if_neg hopen, add_eq (by omega), ok_bind]
    rfl

/-- The scan finds the first of the longest runs. -/
theorem scanZeros_tracks {ws : List UInt16} (hmax : ws.length < usizeMax) (words : List UInt16)
    {i : Nat} {run : ZeroRun} (hwords : ws.drop i = words) (hi : i ≤ ws.length)
    (h : run.Tracks ws i) :
    ∃ run', scanZeros i words run = .ok run' ∧ run'.Tracks ws ws.length := by
  induction words generalizing i run with
  | nil =>
    obtain rfl : i = ws.length := Nat.le_antisymm hi (List.drop_eq_nil_iff.mp hwords)
    exact ⟨run, rfl, h⟩
  | cons w words ih =>
    have hlt : i < ws.length := by
      by_contra hge
      rw [List.drop_eq_nil_of_le (Nat.not_lt.mp hge)] at hwords
      exact absurd hwords (by simp)
    have hw : ws[i]? = some w := by
      rw [← Nat.add_zero i, ← List.getElem?_drop, hwords]
      rfl
    have hrest : ws.drop (i + 1) = words := by
      rw [← List.drop_drop, hwords]
      rfl
    rw [scanZeros]
    by_cases hzero : w = 0
    · subst hzero
      obtain ⟨start, len, hextend, hcur, hpos⟩ := h.extend (by omega) hw
      have hends := hcur.ends
      have hopen : start ≠ usizeMax := by omega
      rw [if_pos rfl, hextend, ok_bind]
      dsimp only
      by_cases hbest : run.bestLen < len
      · rw [if_pos hbest]
        exact ih hrest hlt ⟨h.best.replace hcur hbest, .inr ⟨hopen, hcur⟩⟩
      · rw [if_neg hbest]
        exact ih hrest hlt ⟨h.best.stay hcur (Nat.not_lt.mp hbest), .inr ⟨hopen, hcur⟩⟩
    · have hne : ws[i]? ≠ some 0 := by
        rw [hw]
        exact fun he => hzero (Option.some.inj he)
      have hreset := LongestEnding.reset hne
      rw [if_neg hzero]
      exact ih hrest hlt ⟨h.best.stay hreset (Nat.zero_le _), .inl ⟨rfl, hreset⟩⟩

/-! ## The text -/

/-- A colon behind text that does not end with one. -/
def separate (out : List Char) : List Char :=
  if out ≠ [] ∧ out.getLast? ≠ some ':' then out ++ [':'] else out

theorem ofList_separate (out : List Char) :
    (if String.ofList out ≠ "" ∧ (String.ofList out).toList.getLast? ≠ some ':' then
      String.ofList out ++ ":" else String.ofList out) = String.ofList (separate out) := by
  simp only [separate, ne_eq, String.ofList_eq_empty_iff, String.toList_ofList]
  split
  · exact String.ofList_append.symm
  · rfl

theorem separate_colon (out : List Char) : separate (out ++ [':']) = out ++ [':'] := by
  rw [separate, if_neg]
  rintro ⟨_, hlast⟩
  exact hlast (by rw [List.getLast?_append_of_ne_nil _ (List.cons_ne_nil _ _)]; rfl)

/-- The text that the printing loop leaves behind words outside the run. -/
def pushText (out : List Char) : List UInt16 → List Char
  | [] => out
  | w :: ws => pushText (separate out ++ groupText w) ws

theorem separate_append_groupText (out : List Char) (w : UInt16) :
    separate (out ++ groupText w) = out ++ groupText w ++ [':'] := by
  have hne := groupText_ne_nil w
  have hlast : (out ++ groupText w).getLast? ≠ some ':' := by
    rw [List.getLast?_append_of_ne_nil _ hne]
    exact fun he => colon_not_mem_groupText w (List.mem_of_getLast? he)
  rw [separate, if_pos ⟨List.append_ne_nil_of_right_ne_nil out hne, hlast⟩]

/-- Words are joined by colons. -/
theorem pushText_eq (out : List Char) {ws : List UInt16} (h : ws ≠ []) :
    pushText out ws = separate out ++ joinGroups ws := by
  induction ws generalizing out with
  | nil => exact absurd rfl h
  | cons w ws ih =>
    cases ws with
    | nil => rw [pushText, pushText, joinGroups, List.map_singleton, List.intercalate_singleton]
    | cons v ws =>
      rw [pushText, ih _ (List.cons_ne_nil v ws), separate_append_groupText, joinGroups_cons_cons]
      simp only [List.append_assoc]

/-- The printing loop over words outside the run. -/
theorem pushWords_outside (compress : Bool) {run : ZeroRun}
    (hrun : run.bestStart + run.bestLen < 2 ^ 64) (ws rest : List UInt16) {i : Nat}
    (out : List Char) (h : ∀ k, i ≤ k → k < i + ws.length → compress = true →
      k < run.bestStart ∨ run.bestStart + run.bestLen ≤ k) :
    pushWords compress run i (ws ++ rest) (String.ofList out) =
      pushWords compress run (i + ws.length) rest (String.ofList (pushText out ws)) := by
  induction ws generalizing i out with
  | nil => rfl
  | cons w ws ih =>
    rw [List.length_cons] at h ⊢
    have hout : ¬ (compress && decide (run.bestStart ≤ i) &&
        decide (i < run.bestStart + run.bestLen)) = true := by
      simp only [Bool.and_eq_true, decide_eq_true_eq]
      intro hin
      have hk := h i le_rfl (by omega) hin.1.1
      omega
    have hnext := ih (separate out ++ groupText w) (i := i + 1)
      (fun k hk hk' => h k (by omega) (by omega))
    rw [List.cons_append, pushWords, inRun_eq compress i hrun, ok_bind, if_neg hout]
    dsimp only
    rw [ofList_separate, ← groupText, ← String.ofList_append, hnext, pushText, Nat.add_assoc,
      Nat.add_comm 1 ws.length]

/-- It skips the words of the run. -/
theorem pushWords_inside {run : ZeroRun} (hrun : run.bestStart + run.bestLen < 2 ^ 64)
    (ws rest : List UInt16) {i : Nat} (out : String) (hstart : run.bestStart < i)
    (hend : i + ws.length ≤ run.bestStart + run.bestLen) :
    pushWords true run i (ws ++ rest) out = pushWords true run (i + ws.length) rest out := by
  induction ws generalizing i with
  | nil => rfl
  | cons w ws ih =>
    rw [List.length_cons] at hend ⊢
    have hin : (true && decide (run.bestStart ≤ i) &&
        decide (i < run.bestStart + run.bestLen)) = true := by
      simp only [Bool.true_and, Bool.and_eq_true, decide_eq_true_eq]
      omega
    rw [List.cons_append, pushWords, inRun_eq true i hrun, ok_bind, if_pos hin, if_neg (by omega),
      ih (by omega) (by omega), Nat.add_assoc, Nat.add_comm 1 ws.length]

/-- A colon stands for the whole run. -/
theorem pushWords_run {run : ZeroRun} (hrun : run.bestStart + run.bestLen < 2 ^ 64)
    {ws : List UInt16} (rest : List UInt16) (out : String) (hlen : ws.length = run.bestLen)
    (hpos : 0 < run.bestLen) :
    pushWords true run run.bestStart (ws ++ rest) out =
      pushWords true run (run.bestStart + run.bestLen) rest (out ++ ":") := by
  cases ws with
  | nil => exact absurd hlen.symm (Nat.ne_of_gt hpos)
  | cons w ws =>
    rw [List.length_cons] at hlen
    have hin : (true && decide (run.bestStart ≤ run.bestStart) &&
        decide (run.bestStart < run.bestStart + run.bestLen)) = true := by
      simp only [Bool.true_and, Bool.and_eq_true, decide_eq_true_eq]
      omega
    rw [List.cons_append, pushWords, inRun_eq true _ hrun, ok_bind, if_pos hin, if_pos rfl,
      ite_self, pushWords_inside hrun ws rest _ (Nat.lt_add_one _) (by omega), Nat.add_assoc,
      Nat.add_comm 1 ws.length, hlen]

/-- The first words are joined by colons. -/
theorem pushText_nil (ws : List UInt16) : pushText [] ws = joinGroups ws := by
  cases ws with
  | nil => rfl
  | cons w ws => exact pushText_eq [] (List.cons_ne_nil w ws)

/-- Printing only adds to the text. -/
theorem pushText_ne_nil {out : List Char} (h : out ≠ []) (ws : List UInt16) :
    pushText out ws ≠ [] := by
  cases ws with
  | nil => exact h
  | cons w ws =>
    rw [pushText_eq out (List.cons_ne_nil w ws)]
    exact List.append_ne_nil_of_right_ne_nil _ (joinGroups_ne_nil (List.cons_ne_nil w ws))

/-- Without compression all words are joined. -/
theorem pushWords_plain {run : ZeroRun} (hrun : run.bestStart + run.bestLen < 2 ^ 64)
    (ws : List UInt16) : pushWords false run 0 ws "" = .ok (String.ofList (joinGroups ws)) := by
  have h := pushWords_outside false hrun ws [] (i := 0) [] (by simp)
  rw [List.append_nil, pushText_nil] at h
  exact h

/-- With compression the words around the run are joined around one colon. -/
theorem pushWords_compressed {run : ZeroRun} (hrun : run.bestStart + run.bestLen < 2 ^ 64)
    (left zeros right : List UInt16) (hstart : run.bestStart = left.length)
    (hlen : zeros.length = run.bestLen) (hpos : 0 < run.bestLen) :
    pushWords true run 0 (left ++ (zeros ++ right)) "" =
      .ok (String.ofList (pushText (joinGroups left ++ [':']) right)) := by
  have hleft := pushWords_outside true hrun left (zeros ++ right) (i := 0) []
    (fun k _ hk _ => .inl (by omega))
  have hright := pushWords_outside true hrun right [] (i := run.bestStart + run.bestLen)
    (joinGroups left ++ [':']) (fun k hk _ _ => .inr hk)
  rw [Nat.zero_add, ← hstart, pushText_nil] at hleft
  rw [List.append_nil] at hright
  calc pushWords true run 0 (left ++ (zeros ++ right)) ""
    _ = pushWords true run run.bestStart (zeros ++ right) (String.ofList (joinGroups left)) := hleft
    _ = pushWords true run (run.bestStart + run.bestLen) right
          (String.ofList (joinGroups left) ++ ":") := pushWords_run hrun right _ hlen hpos
    _ = pushWords true run (run.bestStart + run.bestLen) right
          (String.ofList (joinGroups left ++ [':'])) := by
      rw [String.ofList_append]
    _ = .ok (String.ofList (pushText (joinGroups left ++ [':']) right)) := hright

/-- A text that is there already only gets the closing colon. -/
theorem closeRun_eq (compress : Bool) {run : ZeroRun} (hrun : run.bestStart + run.bestLen < 2 ^ 64)
    {text : List Char} (hne : text ≠ []) :
    closeRun compress run (String.ofList text) = .ok (String.ofList
      (text ++ if compress = true ∧ run.bestStart + run.bestLen = 8 then [':'] else [])) := by
  have hclosed (s : List Char) (hs : s ≠ []) :
      (pure (if String.ofList s = "" then "::" else String.ofList s) : Checked String) =
        .ok (String.ofList s) := by
    rw [if_neg (fun he => hs (String.ofList_eq_empty_iff.mp he))]
    rfl
  rw [closeRun]
  cases compress with
  | false =>
    rw [if_neg (by decide), hclosed text hne, if_neg (fun h => absurd h.1 (by decide)),
      List.append_nil]
  | true =>
    rw [if_pos rfl, add_eq hrun, ok_bind]
    by_cases hend : run.bestStart + run.bestLen = 8
    · have hcolon : String.ofList text ++ ":" = String.ofList (text ++ [':']) :=
        String.ofList_append.symm
      rw [if_pos hend, if_pos ⟨rfl, hend⟩, hcolon]
      exact hclosed _ (List.append_ne_nil_of_left_ne_nil hne _)
    · rw [if_neg hend, if_neg (fun h => hend h.2), List.append_nil]
      exact hclosed text hne

/-- The scan of an address. -/
theorem scanZeros_address {b : List UInt8} (hb : b.length = 16) :
    ∃ run, scanZeros 0 (hextets b) ⟨usizeMax, 0, usizeMax, 0⟩ = .ok run ∧
      run.Tracks (hextets b) 8 ∧ run.bestStart + run.bestLen < 2 ^ 64 := by
  have hlen : (hextets b).length = 8 := by rw [length_hextets, hb]
  have hstart : ZeroRun.Tracks ⟨usizeMax, 0, usizeMax, 0⟩ (hextets b) 0 :=
    ⟨.zero 0 _ _, .inl ⟨rfl, .zero 0 _⟩⟩
  obtain ⟨run, hscan, hrun⟩ := scanZeros_tracks (by rw [hlen]; decide) (hextets b) List.drop_zero
    (Nat.zero_le _) hstart
  rw [hlen] at hrun
  have hscanned : ZeroRun.Scanned ⟨usizeMax, 0, usizeMax, 0⟩ 0 := ⟨.inl ⟨rfl, rfl⟩, .inl rfl⟩
  obtain ⟨run', hscan', hrun'⟩ := scanZeros_ok (hextets b) hscanned (by rw [hlen]; decide)
  obtain rfl := Except.ok.inj (hscan.symm.trans hscan')
  exact ⟨run, hscan, hrun, hrun'.bound (by rw [hlen]; decide)⟩

/-- Without two zero words in a row, all eight words are printed. -/
theorem ip6_plain {b : List UInt8} (hb : b.length = 16)
    (h : ∀ i n, 2 ≤ n → ¬ FirstLongest 0 (hextets b) 8 i n) :
    ip6 b = .ok (String.ofList (joinGroups (hextets b))) := by
  obtain ⟨run, hscan, hrun, hbound⟩ := scanZeros_address hb
  have hplain : decide (2 ≤ run.bestLen) = false :=
    decide_eq_false fun hn => h run.bestStart run.bestLen hn hrun.best
  have hne : hextets b ≠ [] := by
    rw [← List.length_pos_iff, length_hextets, hb]
    decide
  rw [ip6, hscan, ok_bind]
  dsimp only
  rw [hplain, pushWords_plain hbound, ok_bind, closeRun_eq false hbound (joinGroups_ne_nil hne),
    if_neg (by simp), List.append_nil]

/-- The first of the longest runs is printed as one colon, and as two at the end. -/
theorem ip6_compressed {b : List UInt8} (hb : b.length = 16) {i n : Nat} (hn : 2 ≤ n)
    (h : FirstLongest 0 (hextets b) 8 i n) :
    ip6 b = .ok (String.ofList (pushText (joinGroups ((hextets b).take i) ++ [':'])
      ((hextets b).drop (i + n)) ++ if i + n = 8 then [':'] else [])) := by
  have hlen : (hextets b).length = 8 := by rw [length_hextets, hb]
  obtain ⟨run, hscan, hrun, hbound⟩ := scanZeros_address hb
  obtain ⟨rfl, rfl⟩ := hrun.best.unique h (by omega)
  have hends := h.ends (by omega)
  have htake : run.bestStart = ((hextets b).take run.bestStart).length := by
    rw [List.length_take]
    omega
  have hprint := pushWords_compressed hbound _ _ ((hextets b).drop (run.bestStart + run.bestLen))
    htake (List.length_replicate (a := (0 : UInt16))) (by omega)
  rw [← h.span.split (by omega)] at hprint
  rw [ip6, hscan, ok_bind]
  dsimp only
  rw [decide_eq_true hn, hprint, ok_bind,
    closeRun_eq true hbound (pushText_ne_nil (by simp) _)]
  simp only [true_and]

/-! ## What reads back -/

/-- The first of the longest runs of two or more zero words, if there is one, reaches the last
word. -/
def TextFaithful (ws : List UInt16) : Prop :=
  ∀ i n, 2 ≤ n → FirstLongest 0 ws 8 i n → i + n = 8

/-- The text of an address with a run that reaches the last word, and of one without a run, reads
back. -/
theorem readAddress_of_faithful {b : List UInt8} (hb : b.length = 16)
    (h : TextFaithful (hextets b)) :
    ∃ text, ip6 b = .ok text ∧ readAddress text.toList = some (hextets b) := by
  have hlen : (hextets b).length = 8 := by rw [length_hextets, hb]
  by_cases hrun : ∃ i n, 2 ≤ n ∧ FirstLongest 0 (hextets b) 8 i n
  · obtain ⟨i, n, hn, hfirst⟩ := hrun
    have hend := h i n hn hfirst
    have htake : ((hextets b).take i).length = i := by
      rw [List.length_take]
      omega
    have hdrop : (hextets b).drop (i + n) = [] := List.drop_eq_nil_of_le (by omega)
    refine ⟨_, ip6_compressed hb hn hfirst, ?_⟩
    have hsplit := hfirst.span.split (by omega)
    rw [hdrop, List.append_nil] at hsplit
    rw [String.toList_ofList, hdrop, if_pos hend, pushText, List.append_assoc,
      List.singleton_append, readAddress_trailing (by omega), htake, show 8 - i = n by omega,
      ← hsplit]
  · refine ⟨_, ip6_plain hb (fun i n hn hfirst => hrun ⟨i, n, hn, hfirst⟩), ?_⟩
    rw [String.toList_ofList, readAddress_joinGroups, if_pos hlen]

/-- The text of an address whose run ends earlier is no address. -/
theorem readAddress_of_not_faithful {b : List UInt8} (hb : b.length = 16)
    (h : ¬ TextFaithful (hextets b)) :
    ∃ text, ip6 b = .ok text ∧ readAddress text.toList = none := by
  have hlen : (hextets b).length = 8 := by rw [length_hextets, hb]
  simp only [TextFaithful, not_forall] at h
  obtain ⟨i, n, hn, hfirst, hend⟩ := h
  have hle := hfirst.ends (by omega)
  have hright : (hextets b).drop (i + n) ≠ [] := by
    rw [← List.length_pos_iff, List.length_drop]
    omega
  refine ⟨_, ip6_compressed hb hn hfirst, ?_⟩
  rw [String.toList_ofList, if_neg hend, List.append_nil, pushText_eq _ hright, separate_colon]
  by_cases hleft : (hextets b).take i = []
  · rw [hleft]
    exact readAddress_leading hright
  · have hshort : ((hextets b).take i ++ (hextets b).drop (i + n)).length ≠ 8 := by
      rw [List.length_append, List.length_take, List.length_drop]
      omega
    rw [← joinGroups_append hleft hright, readAddress_joinGroups, if_neg hshort]

/-- Bytes that fill the same words are the same. -/
theorem hextets_inj {b b' : List UInt8} (heven : b.length % 2 = 0) (hlen : b'.length = b.length)
    (h : hextets b' = hextets b) : b' = b := by
  induction b using hextets.induct generalizing b' with
  | case1 x y rest ih =>
    rcases b' with _ | ⟨x', _ | ⟨y', rest'⟩⟩
    · exact absurd hlen (by simp)
    · exact absurd hlen (by simp)
    · simp only [List.length_cons] at heven hlen
      obtain ⟨hword, hrest⟩ := List.cons.inj h
      obtain ⟨rfl, rfl⟩ := fromBe_inj hword
      rw [ih (by omega) (by omega) hrest]
  | case2 b hb =>
    rcases b with _ | ⟨x, _ | ⟨y, rest⟩⟩
    · exact List.length_eq_zero_iff.mp hlen
    · exact absurd heven (by simp)
    · exact absurd rfl (hb x y rest)

/-- Only digits and colons are printed. -/
theorem chars_pushText {out : List Char} (h : ∀ ch ∈ out, ch = ':' ∨ hexValue ch ≠ none)
    (ws : List UInt16) : ∀ ch ∈ pushText out ws, ch = ':' ∨ hexValue ch ≠ none := by
  have hcolon : ∀ ch ∈ separate out, ch = ':' ∨ hexValue ch ≠ none := by
    intro ch hch
    rw [separate] at hch
    split at hch
    · rcases List.mem_append.mp hch with hch | hch
      · exact h ch hch
      · exact .inl (List.mem_singleton.mp hch)
    · exact h ch hch
  cases ws with
  | nil => exact h
  | cons w ws =>
    intro ch hch
    rw [pushText_eq out (List.cons_ne_nil w ws), List.mem_append] at hch
    exact hch.elim (hcolon ch) (chars_joinGroups _ ch)

theorem chars_ip6 {b : List UInt8} (hb : b.length = 16) {text : String} (h : ip6 b = .ok text) :
    ∀ ch ∈ text.toList, ch = ':' ∨ hexValue ch ≠ none := by
  by_cases hrun : ∃ i n, 2 ≤ n ∧ FirstLongest 0 (hextets b) 8 i n
  · obtain ⟨i, n, hn, hfirst⟩ := hrun
    obtain rfl := Except.ok.inj (h.symm.trans (ip6_compressed hb hn hfirst))
    intro ch hch
    rw [String.toList_ofList, List.mem_append] at hch
    rcases hch with hch | hch
    · refine chars_pushText ?_ _ ch hch
      intro ch hch
      rcases List.mem_append.mp hch with hch | hch
      · exact chars_joinGroups _ ch hch
      · exact .inl (List.mem_singleton.mp hch)
    · split at hch
      · exact .inl (List.mem_singleton.mp hch)
      · exact absurd hch List.not_mem_nil
  · obtain rfl := Except.ok.inj (h.symm.trans
      (ip6_plain hb (fun i n hn hfirst => hrun ⟨i, n, hn, hfirst⟩)))
    rw [String.toList_ofList]
    exact chars_joinGroups _

/-- IPv6 flows with the same key have the same address texts. -/
theorem ip6_eq_of_key {p q : List UInt8} {f g : Flow} (hp : byteAt p 0 >>> 4 = 6)
    (hq : byteAt q 0 >>> 4 = 6) (hf : parse p = .ok (some f)) (hg : parse q = .ok (some g))
    (hkey : f.key = g.key) :
    ip6 (srcBytes p) = ip6 (srcBytes q) ∧ ip6 (dstBytes p) = ip6 (dstBytes q) := by
  rw [parse_of_version6 hp] at hf
  rw [parse_of_version6 hq] at hg
  obtain ⟨hplen, hpsrc, hpdst⟩ := parseV6_flow hf
  obtain ⟨hqlen, hqsrc, hqdst⟩ := parseV6_flow hg
  have hdash {b : List UInt8} (hb : b.length = 16) {text : String} (h : ip6 b = .ok text) :
      '-' ∉ text.toList := by
    intro hmem
    exact absurd (chars_ip6 hb h '-' hmem) (by decide)
  obtain ⟨hsrc, _, hdst, _⟩ := Flow.key_inj (hdash (length_srcBytes hplen) hpsrc)
    (hdash (length_srcBytes hqlen) hqsrc) hkey
  exact ⟨by rw [hpsrc, hqsrc, hsrc], by rw [hpdst, hqdst, hdst]⟩

/-- The text of an address identifies it. -/
structure TextIdentifies (b : List UInt8) : Prop where
  /-- It reads back as the eight words. -/
  reads : ∃ text, ip6 b = .ok text ∧ readAddress text.toList = some (hextets b)
  /-- No other address has it. -/
  unique : ∀ b', b'.length = 16 → ip6 b' = ip6 b → b' = b
  /-- A flow with the key of one that starts or ends at the address does so too. -/
  flows : ∀ p q f g, byteAt p 0 >>> 4 = 6 → byteAt q 0 >>> 4 = 6 → parse p = .ok (some f) →
    parse q = .ok (some g) → f.key = g.key →
    (srcBytes p = b → srcBytes q = b) ∧ (dstBytes p = b → dstBytes q = b)

/-- The text of an address identifies it exactly when the run that is compressed, if any, reaches
the last word. -/
theorem textIdentifies_iff {b : List UInt8} (hb : b.length = 16) :
    TextIdentifies b ↔ TextFaithful (hextets b) := by
  constructor
  · intro h
    by_contra hnot
    obtain ⟨text, htext, hread⟩ := h.reads
    obtain ⟨text', htext', hnone⟩ := readAddress_of_not_faithful hb hnot
    obtain rfl := Except.ok.inj (htext.symm.trans htext')
    exact absurd (hread.symm.trans hnone) (by simp)
  · intro h
    have hunique (b' : List UInt8) (hb' : b'.length = 16) (htext : ip6 b' = ip6 b) : b' = b := by
      obtain ⟨text, hok, hread⟩ := readAddress_of_faithful hb h
      by_cases h' : TextFaithful (hextets b')
      · obtain ⟨text', hok', hread'⟩ := readAddress_of_faithful hb' h'
        obtain rfl := Except.ok.inj (hok'.symm.trans (htext.trans hok))
        exact hextets_inj (by rw [hb]) (hb'.trans hb.symm)
          (Option.some.inj (hread'.symm.trans hread))
      · obtain ⟨text', hok', hnone⟩ := readAddress_of_not_faithful hb' h'
        obtain rfl := Except.ok.inj (hok'.symm.trans (htext.trans hok))
        exact absurd (hread.symm.trans hnone) (by simp)
    refine ⟨readAddress_of_faithful hb h, hunique, ?_⟩
    intro p q f g hp hq hf hg hkey
    obtain ⟨hsrc, hdst⟩ := ip6_eq_of_key hp hq hf hg hkey
    have hlen : 40 ≤ q.length := by
      rw [parse_of_version6 hq] at hg
      exact (parseV6_flow hg).1
    constructor
    · rintro rfl
      exact hunique _ (length_srcBytes hlen) hsrc.symm
    · rintro rfl
      exact hunique _ (length_dstBytes hlen) hdst.symm

/-- 2001:db8::1, whose run stands in front of its last word. -/
private def innerRun : List UInt8 := [0x20, 1, 0xd, 0xb8, 0, 0, 0, 0, 0, 0, 0, 0, 0, 0, 0, 1]

/-- 2001::db8:1, the same words around a run that stands elsewhere. -/
private def movedRun : List UInt8 := [0x20, 1, 0, 0, 0, 0, 0, 0, 0, 0, 0, 0, 0xd, 0xb8, 0, 1]

/-- A TCP packet of the given address to 2001:db8::. -/
private def tcpFrom (src : List UInt8) : List UInt8 :=
  [0x60, 0, 0, 0, 0, 4, 6, 64] ++ src ++ [0x20, 1, 0xd, 0xb8] ++ List.replicate 12 0 ++
    [0x13, 0x88, 1, 0xbb]

private def sharedFlow : Flow := ⟨"2001:db8:1", "2001:db8::", 6, 5000, 443⟩

/-- The first of the two addresses. -/
theorem textIdentifies_iff_innerRun :
    TextIdentifies innerRun ↔ TextFaithful (hextets innerRun) :=
  textIdentifies_iff (by decide)

/-- Two addresses share the text `2001:db8:1`, which is that of no address, and so do their flows
share a key. -/
theorem text_drops_run :
    innerRun ≠ movedRun ∧ ip6 innerRun = .ok "2001:db8:1" ∧ ip6 movedRun = .ok "2001:db8:1" ∧
      readAddress "2001:db8:1".toList = none ∧
      (∃ f g, parse (tcpFrom innerRun) = .ok (some f) ∧ parse (tcpFrom movedRun) = .ok (some g) ∧
        f.key = g.key) ∧
      ¬ TextIdentifies innerRun := by
  have hinner : ip6 innerRun = .ok "2001:db8:1" := by decide +kernel
  have hmoved : ip6 movedRun = .ok "2001:db8:1" := by decide +kernel
  have hnone : readAddress "2001:db8:1".toList = none := by decide +kernel
  have hflow : parse (tcpFrom innerRun) = .ok (some sharedFlow) := by decide +kernel
  have hflow' : parse (tcpFrom movedRun) = .ok (some sharedFlow) := by decide +kernel
  refine ⟨by decide, hinner, hmoved, hnone, ⟨_, _, hflow, hflow', rfl⟩, ?_⟩
  intro h
  obtain ⟨text, htext, hread⟩ := h.reads
  obtain rfl := Except.ok.inj (hinner.symm.trans htext)
  exact absurd (hread.symm.trans hnone) (by simp)

end Netmux
