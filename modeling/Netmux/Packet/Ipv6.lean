import Netmux.Packet.Parse

/-!
# IPv6 packets

The IPv6 branch of the parser never panics, and the text it gives an address always
contains a colon: the compressed run prints one, and without a run eight words are
separated by them. Such a text is no IPv4 address, which is what keeps IPv6 flows out
of the NAT.
-/

namespace Netmux

open Checked

/-! ## The scan for zero words -/

/-- The runs recorded after `i` words lie within them. -/
structure ZeroRun.Scanned (run : ZeroRun) (i : Nat) : Prop where
  best : (run.bestStart = usizeMax ∧ run.bestLen = 0) ∨ run.bestStart + run.bestLen ≤ i
  cur : run.curStart = usizeMax ∨ run.curStart + run.curLen = i

/-- The end of the longest run does not overflow. -/
theorem ZeroRun.Scanned.bound {run : ZeroRun} {i : Nat} (h : run.Scanned i) (hi : i < 2 ^ 64) :
    run.bestStart + run.bestLen < 2 ^ 64 := by
  have hbest := h.best
  unfold usizeMax at hbest
  omega

private theorem ZeroRun.extend_eq {run : ZeroRun} {i : Nat} (hrun : run.Scanned i)
    (hi : i < usizeMax) : ∃ start len, run.extend i = .ok (start, len) ∧ start + len = i + 1 := by
  unfold ZeroRun.extend
  by_cases hcur : run.curStart = usizeMax
  · exact ⟨i, 1, by rw [if_pos hcur]; rfl, rfl⟩
  · have hsum := hrun.cur.resolve_left hcur
    refine ⟨run.curStart, run.curLen + 1, ?_, by omega⟩
    unfold usizeMax at hi
    rw [if_neg hcur, add_eq (by omega), ok_bind]
    rfl

/-- The scan succeeds and leaves runs that lie within the words scanned. -/
theorem scanZeros_ok {i : Nat} (words : List UInt16) {run : ZeroRun} (hrun : run.Scanned i)
    (h : i + words.length < usizeMax) :
    ∃ run', scanZeros i words run = .ok run' ∧ run'.Scanned (i + words.length) := by
  induction words generalizing i run with
  | nil => exact ⟨run, rfl, hrun⟩
  | cons w words ih =>
    rw [List.length_cons] at h ⊢
    have hlen : i + (words.length + 1) = i + 1 + words.length := by omega
    rw [hlen] at h ⊢
    unfold scanZeros
    by_cases hw : w = 0
    · obtain ⟨start, len, he, hsum⟩ := ZeroRun.extend_eq hrun (by omega)
      rw [if_pos hw, he, ok_bind]
      dsimp only
      by_cases hbest : run.bestLen < len
      · rw [if_pos hbest]
        exact ih ⟨.inr (Nat.le_of_eq hsum), .inr hsum⟩ h
      · rw [if_neg hbest]
        exact ih ⟨hrun.best.imp_right (by intro hle; dsimp only; omega), .inr hsum⟩ h
    · rw [if_neg hw]
      exact ih ⟨hrun.best.imp_right (by intro hle; dsimp only; omega), .inl rfl⟩ h

/-! ## The printing loop -/

theorem inRun_eq (compress : Bool) {run : ZeroRun} (i : Nat)
    (hrun : run.bestStart + run.bestLen < 2 ^ 64) :
    inRun compress run i = .ok (compress && decide (run.bestStart ≤ i) &&
      decide (i < run.bestStart + run.bestLen)) := by
  unfold inRun
  by_cases h : (compress && decide (run.bestStart ≤ i)) = true
  · rw [if_pos h, add_eq hrun, ok_bind, h]
    rfl
  · have hfalse : (compress && decide (run.bestStart ≤ i)) = false := by simpa using h
    rw [if_neg h, hfalse]
    rfl

/-- A printed text grows at the end only, so a colon stays in it. -/
private theorem pushWords_ok (compress : Bool) {run : ZeroRun}
    (hrun : run.bestStart + run.bestLen < 2 ^ 64) (i : Nat) (words : List UInt16) (out : String) :
    ∃ text, pushWords compress run i words out = .ok text ∧ out.toList <+: text.toList := by
  induction words generalizing i out with
  | nil => exact ⟨out, rfl, List.prefix_refl _⟩
  | cons w words ih =>
    rw [pushWords, inRun_eq compress i hrun, ok_bind]
    split
    · obtain ⟨text, ht, hpre⟩ := ih (i + 1)
        (if i = run.bestStart then out ++ (if run.bestStart = 0 then ":" else ":") else out)
      refine ⟨text, ht, List.IsPrefix.trans ?_ hpre⟩
      split
      · rw [String.toList_append]
        exact List.prefix_append _ _
      · exact List.prefix_refl _
    · obtain ⟨text, ht, hpre⟩ := ih (i + 1)
        ((if out ≠ "" ∧ out.toList.getLast? ≠ some ':' then out ++ ":" else out) ++
          String.ofList (Nat.toDigits 16 w.toNat))
      refine ⟨text, ht, List.IsPrefix.trans ?_ hpre⟩
      rw [String.toList_append]
      refine List.IsPrefix.trans ?_ (List.prefix_append _ _)
      split
      · rw [String.toList_append]
        exact List.prefix_append _ _
      · exact List.prefix_refl _

/-- Printing a word behind other text leaves a colon in the text. -/
private theorem colon_of_separator (out : String) (hout : out ≠ "") :
    ':' ∈ (if out ≠ "" ∧ out.toList.getLast? ≠ some ':' then out ++ ":" else out).toList := by
  by_cases hlast : out.toList.getLast? = some ':'
  · rw [if_neg (fun hh => hh.2 hlast)]
    exact List.mem_of_getLast? hlast
  · rw [if_pos ⟨hout, hlast⟩, String.toList_append]
    exact List.mem_append_right _ (by decide)

/-- Without compression two words already put a colon between them. -/
private theorem pushWords_colon_of_words {run : ZeroRun}
    (hrun : run.bestStart + run.bestLen < 2 ^ 64) {i : Nat} {v w : UInt16} {words : List UInt16} :
    ∃ text, pushWords false run i (v :: w :: words) "" = .ok text ∧ ':' ∈ text.toList := by
  have hfirst : ("" ++ String.ofList (Nat.toDigits 16 v.toNat)) ≠ "" := by
    have hne : Nat.toDigits 16 v.toNat ≠ [] := Nat.toDigits_ne_nil
    intro he
    simp only [String.empty_append, String.ofList_eq_empty_iff] at he
    exact hne he
  rw [pushWords, inRun_eq false i hrun, ok_bind, pushWords, inRun_eq false (i + 1) hrun]
  simp only [Bool.false_and, ok_bind, Bool.false_eq_true, if_false, ne_eq, not_true_eq_false,
    false_and]
  obtain ⟨text, ht, hpre⟩ := pushWords_ok false hrun (i + 1 + 1) words _
  refine ⟨text, ht, hpre.subset ?_⟩
  rw [String.toList_append]
  exact List.mem_append_left _ (colon_of_separator _ hfirst)

/-- A compressed run that starts at one of the words prints its colon there. -/
private theorem pushWords_colon_of_run {run : ZeroRun}
    (hrun : run.bestStart + run.bestLen < 2 ^ 64) (hpos : 0 < run.bestLen) {i : Nat}
    {words : List UInt16} {out : String} (hi : i ≤ run.bestStart)
    (hlt : run.bestStart < i + words.length) :
    ∃ text, pushWords true run i words out = .ok text ∧ ':' ∈ text.toList := by
  induction words generalizing i out with
  | nil =>
    rw [List.length_nil] at hlt
    omega
  | cons w words ih =>
    rw [List.length_cons] at hlt
    rw [pushWords, inRun_eq true i hrun, ok_bind]
    by_cases hstart : i = run.bestStart
    · have hin : (true && decide (run.bestStart ≤ i) &&
          decide (i < run.bestStart + run.bestLen)) = true := by
        simp [hstart, hpos]
      rw [if_pos hin, if_pos hstart]
      obtain ⟨text, ht, hpre⟩ := pushWords_ok true hrun (i + 1) words
        (out ++ (if run.bestStart = 0 then ":" else ":"))
      refine ⟨text, ht, hpre.subset ?_⟩
      rw [String.toList_append]
      exact List.mem_append_right _ (by split <;> decide)
    · have hout : ¬ (true && decide (run.bestStart ≤ i) &&
          decide (i < run.bestStart + run.bestLen)) = true := by
        simp only [Bool.true_and, Bool.and_eq_true, decide_eq_true_eq]
        omega
      rw [if_neg hout]
      exact ih (by omega) (by omega)

/-! ## Addresses and packets -/

theorem length_hextets (b : List UInt8) : (hextets b).length = b.length / 2 := by
  induction b using hextets.induct with
  | case1 x y rest ih =>
    simp only [hextets, List.length_cons, ih]
    omega
  | case2 b hb =>
    have hlt : b.length < 2 := by
      rcases b with _ | ⟨x, _ | ⟨y, rest⟩⟩
      · simp
      · simp
      · exact absurd rfl (hb x y rest)
    rw [hextets]
    · rw [List.length_nil]
      omega
    · exact hb

private theorem closeRun_colon {compress : Bool} {run : ZeroRun} {out : String}
    (hrun : run.bestStart + run.bestLen < 2 ^ 64) (h : ':' ∈ out.toList) :
    ∃ text, closeRun compress run out = .ok text ∧ ':' ∈ text.toList := by
  have hempty (s : String) (hs : ':' ∈ s.toList) :
      ':' ∈ (if s = "" then "::" else s).toList := by
    split
    · decide
    · exact hs
  unfold closeRun
  by_cases hc : compress = true
  · rw [if_pos hc, add_eq hrun, ok_bind]
    refine ⟨_, rfl, hempty _ ?_⟩
    split
    · rw [String.toList_append]
      exact List.mem_append_left _ h
    · exact h
  · rw [if_neg hc]
    exact ⟨_, rfl, hempty _ h⟩

/-- Every 16-byte address has a text, and a colon in it. -/
theorem ip6_ok {b : List UInt8} (h : b.length = 16) :
    ∃ text, ip6 b = .ok text ∧ ':' ∈ text.toList := by
  have hlen : (hextets b).length = 8 := by rw [length_hextets, h]
  have hstart : ZeroRun.Scanned ⟨usizeMax, 0, usizeMax, 0⟩ 0 := ⟨.inl ⟨rfl, rfl⟩, .inl rfl⟩
  obtain ⟨run, hscan, hrun⟩ := scanZeros_ok (hextets b) hstart (by rw [hlen]; decide)
  rw [hlen, Nat.zero_add] at hrun
  have hbound := hrun.bound (by decide)
  have hprint : ∃ text, pushWords (decide (2 ≤ run.bestLen)) run 0 (hextets b) "" = .ok text ∧
      ':' ∈ text.toList := by
    by_cases hc : 2 ≤ run.bestLen
    · have hbest := hrun.best.resolve_left (by omega)
      rw [decide_eq_true hc]
      exact pushWords_colon_of_run hbound (by omega) (Nat.zero_le _) (by omega)
    · rw [decide_eq_false hc]
      rcases hw : hextets b with _ | ⟨v, _ | ⟨w, words⟩⟩
      · rw [hw] at hlen
        simp at hlen
      · rw [hw] at hlen
        simp at hlen
      · exact pushWords_colon_of_words hbound
  obtain ⟨text, hprint, hcolon⟩ := hprint
  rw [ip6, hscan, ok_bind]
  dsimp only
  rw [hprint, ok_bind]
  exact closeRun_colon hbound hcolon

/-! ## The extension walk -/

/-- The walk stops in front of anything that is no extension header. -/
theorem walkExtensions_stop (pkt : List UInt8) (turns : Nat) {next : UInt8} (offset : Nat)
    (h : isExtension next = false) :
    walkExtensions pkt turns next offset = .ok (some (next, offset)) := by
  cases turns with
  | zero => rfl
  | succ turns =>
    rw [walkExtensions]
    by_cases ht : isTransport next = true
    · rw [if_pos ht]
      rfl
    · rw [if_neg ht, if_neg (by rw [h]; decide)]
      rfl

/-- No extension header is a transport. -/
theorem not_isTransport_of_isExtension {next : UInt8} (h : isExtension next = true) :
    isTransport next = false := by
  simp only [isExtension, Bool.or_eq_true, beq_iff_eq] at h
  rcases h with ((rfl | rfl) | rfl) | rfl
  · decide
  · decide
  · decide
  · decide

/-- It gives up where the first two bytes of a header are cut off. -/
theorem walkExtensions_cut {pkt : List UInt8} (turns : Nat) {next : UInt8} {offset : Nat}
    (h : isExtension next = true) (hoffset : offset + 2 < 2 ^ 64) (hcut : pkt.length < offset + 2) :
    walkExtensions pkt (turns + 1) next offset = .ok none := by
  rw [walkExtensions, not_isTransport_of_isExtension h, if_neg (by decide), if_pos h,
    add_eq hoffset, ok_bind, if_pos hcut]
  rfl

/-- It steps over a header whose first two bytes are there. -/
theorem walkExtensions_step {pkt : List UInt8} (turns : Nat) {next : UInt8} {offset : Nat}
    (h : isExtension next = true) (hoffset : offset + 2048 < 2 ^ 64)
    (hlen : offset + 2 ≤ pkt.length) :
    walkExtensions pkt (turns + 1) next offset =
      walkExtensions pkt turns (byteAt pkt offset)
        (offset + ((byteAt pkt (offset + 1)).toNat + 1) * 8) := by
  have hbyte := (byteAt pkt (offset + 1)).toNat_lt
  rw [walkExtensions, not_isTransport_of_isExtension h, if_neg (by decide), if_pos h,
    add_eq (by omega), ok_bind, if_neg (by omega), index_byteAt (by omega), ok_bind,
    add_eq (by omega), ok_bind, mul_eq (by omega), ok_bind, index_byteAt (by omega), ok_bind,
    add_eq (by omega), ok_bind]

/-- The extension walk never panics. -/
theorem walkExtensions_ok (pkt : List UInt8) (turns : Nat) (next : UInt8) (offset : Nat)
    (h : offset + turns * 2048 + 2 < 2 ^ 64) :
    ∃ found, walkExtensions pkt turns next offset = .ok found ∧
      ∀ last stop, found = some (last, stop) → stop ≤ offset + turns * 2048 := by
  induction turns generalizing next offset with
  | zero =>
    refine ⟨some (next, offset), rfl, ?_⟩
    rintro last stop ⟨rfl, rfl⟩
    exact Nat.le_add_right _ _
  | succ turns ih =>
    cases he : isExtension next with
    | false =>
      refine ⟨some (next, offset), walkExtensions_stop pkt _ offset he, ?_⟩
      rintro last stop ⟨rfl, rfl⟩
      exact Nat.le_add_right _ _
    | true =>
      by_cases hcut : pkt.length < offset + 2
      · exact ⟨none, walkExtensions_cut turns he (by omega) hcut, by simp⟩
      · have hbyte := (byteAt pkt (offset + 1)).toNat_lt
        obtain ⟨found, hf, hstop⟩ := ih (byteAt pkt offset)
          (offset + ((byteAt pkt (offset + 1)).toNat + 1) * 8) (by omega)
        refine ⟨found, (walkExtensions_step turns he (by omega) (by omega)).trans hf, ?_⟩
        intro last stop hs
        have hle := hstop last stop hs
        omega

/-- The bytes of the source address. -/
def srcBytes (pkt : List UInt8) : List UInt8 := (pkt.take 24).drop 8

/-- The bytes of the destination address. -/
def dstBytes (pkt : List UInt8) : List UInt8 := (pkt.take 40).drop 24

theorem length_srcBytes {pkt : List UInt8} (h : 40 ≤ pkt.length) : (srcBytes pkt).length = 16 := by
  rw [srcBytes, List.length_drop, List.length_take]
  omega

theorem length_dstBytes {pkt : List UInt8} (h : 40 ≤ pkt.length) : (dstBytes pkt).length = 16 := by
  rw [dstBytes, List.length_drop, List.length_take]
  omega

/-- The flow of an IPv6 packet whose walk ends at `stop`. -/
def flowV6 (pkt : List UInt8) (src dst : String) (stop : UInt8 × Nat) : Flow where
  src := src
  dst := dst
  proto := stop.1
  sport := (portsAt pkt stop.1 stop.2).1
  dport := (portsAt pkt stop.1 stop.2).2

/-- Behind a complete fixed header the walk decides what `parseV6` returns. -/
theorem parseV6_eq {pkt : List UInt8} (hlen : 40 ≤ pkt.length) {src dst : String}
    (hsrc : ip6 (srcBytes pkt) = .ok src) (hdst : ip6 (dstBytes pkt) = .ok dst)
    {found : Option (UInt8 × Nat)}
    (hwalk : walkExtensions pkt 8 (byteAt pkt 6) 40 = .ok found) :
    parseV6 pkt = .ok (found.map (flowV6 pkt src dst)) := by
  obtain ⟨found', hwalk', hstop⟩ := walkExtensions_ok pkt 8 (byteAt pkt 6) 40 (by decide)
  obtain rfl := Except.ok.inj (hwalk.symm.trans hwalk')
  rw [srcBytes] at hsrc
  rw [dstBytes] at hdst
  rw [parseV6, if_neg (by omega), slice_eq (by decide) (by omega), ok_bind, hsrc, ok_bind,
    slice_eq (by decide) (by omega), ok_bind, hdst, ok_bind, index_byteAt (by omega), ok_bind,
    hwalk, ok_bind]
  cases found with
  | none => rfl
  | some stop =>
    obtain ⟨next, offset⟩ := stop
    have hle := hstop next offset rfl
    dsimp only
    rw [readPorts_eq (by omega), ok_bind]
    rfl

/-- The IPv6 branch never panics, and its flows carry the texts of the two addresses. -/
theorem parseV6_ok (pkt : List UInt8) :
    ∃ found, parseV6 pkt = .ok found ∧
      ∀ flow, found = some flow → 40 ≤ pkt.length ∧ ip6 (srcBytes pkt) = .ok flow.src ∧
        ip6 (dstBytes pkt) = .ok flow.dst := by
  by_cases hlen : pkt.length < 40
  · exact ⟨none, by rw [parseV6, if_pos hlen]; rfl, by simp⟩
  · obtain ⟨src, hsrc, _⟩ := ip6_ok (length_srcBytes (Nat.not_lt.mp hlen))
    obtain ⟨dst, hdst, _⟩ := ip6_ok (length_dstBytes (Nat.not_lt.mp hlen))
    obtain ⟨found, hwalk, _⟩ := walkExtensions_ok pkt 8 (byteAt pkt 6) 40 (by decide)
    refine ⟨_, parseV6_eq (by omega) hsrc hdst hwalk, ?_⟩
    intro flow hflow
    obtain ⟨stop, _, rfl⟩ := Option.map_eq_some_iff.mp hflow
    exact ⟨by omega, hsrc, hdst⟩

theorem parseV6_flow {pkt : List UInt8} {flow : Flow} (h : parseV6 pkt = .ok (some flow)) :
    40 ≤ pkt.length ∧ ip6 (srcBytes pkt) = .ok flow.src ∧ ip6 (dstBytes pkt) = .ok flow.dst := by
  obtain ⟨found, hok, hflow⟩ := parseV6_ok pkt
  exact hflow flow (Except.ok.inj (hok.symm.trans h))

/-! ## The parser as a whole -/

/-- Parsing never panics. -/
theorem parse_ok (pkt : List UInt8) : ∃ found, parse pkt = .ok found := by
  by_cases hnil : pkt = []
  · exact ⟨none, by rw [hnil]; rfl⟩
  · rw [parse_of_ne_nil hnil]
    split
    · exact ⟨_, parseV4_eq pkt⟩
    · split
      · obtain ⟨found, h, _⟩ := parseV6_ok pkt
        exact ⟨found, h⟩
      · exact ⟨none, rfl⟩

/-- A packet of version 6 goes to the IPv6 branch. -/
theorem parse_of_version6 {pkt : List UInt8} (h : byteAt pkt 0 >>> 4 = 6) :
    parse pkt = parseV6 pkt := by
  have hne : pkt ≠ [] := by
    rintro rfl
    exact absurd h (by decide)
  rw [parse_of_ne_nil hne, h, if_neg (by decide), if_pos rfl]

/-- A flow whose destination reads as an IPv4 address was parsed from an IPv4 packet. -/
theorem isIpv4_of_dst {pkt : List UInt8} {flow : Flow} {addr : Ipv4Addr}
    (h : parse pkt = .ok (some flow)) (hdst : Ipv4Addr.fromStr flow.dst = some addr) :
    IsIpv4 pkt ∧ flow = flowV4 pkt := by
  by_cases hv : byteAt pkt 0 >>> 4 = 4
  · exact isIpv4_of_parse hv h
  · exfalso
    have hne : pkt ≠ [] := by
      rintro rfl
      exact absurd h (by simp [parse])
    rw [parse_of_ne_nil hne, if_neg hv] at h
    split at h
    · obtain ⟨hlen, _, hdst6⟩ := parseV6_flow h
      obtain ⟨text, htext, hcolon⟩ := ip6_ok (length_dstBytes hlen)
      obtain rfl := Except.ok.inj (hdst6.symm.trans htext)
      rw [Ipv4Addr.fromStr_of_colon hcolon] at hdst
      exact absurd hdst (by simp)
    · exact absurd h (by simp)

end Netmux
