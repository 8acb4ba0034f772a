import Netmux.Packet.Fragment
import Netmux.Sched.Aggregator
import Netmux.Sched.HashPool

/-!
# Fragmented datagrams in the data plane

The parser reads ports from every fragment, so that only fragments whose flow keys hash
alike stay together, and the rewriters write a checksum into every fragment that is long
enough. Fragmented datagrams survive exactly when neither happens to matter.
-/

namespace Netmux

/-- Under hash balancing with unchanged candidates all packets go to one interface. -/
def RoutedTogether (pkts : List (List UInt8)) : Prop :=
  ∀ a b : Aggregator, a.config.strategy = .loadBalance → a.config.algorithm = .hash →
    b.config = a.config → b.candidates = a.candidates → ∀ f ∈ pkts, ∀ g ∈ pkts,
    ∀ d a' d' b', a.route f = .ok (d, a') → b.route g = .ok (d', b') →
      d.bind ForwardDecision.interface = d'.bind ForwardDecision.interface

/-- What the data plane owes to the fragments of a datagram. -/
structure FragmentsSurvive (frags : List (List UInt8)) : Prop where
  together : RoutedTogether frags
  payload : ∀ f ∈ frags, fragmentOffset f ≠ 0 → PayloadSurvives f

/-- The hash of the flow key of an IPv4 packet. -/
def keyHash (pkt : List UInt8) : UInt32 := fnv1a (utf8 (flowV4 pkt).key)

/-- Fragments whose flow keys hash alike and whose later ones are short. -/
structure FragmentsHarmless (frags : List (List UInt8)) : Prop where
  hashes : ∀ f ∈ frags, ∀ g ∈ frags, HashTwins (keyHash f) (keyHash g)
  short : ∀ f ∈ frags, fragmentOffset f ≠ 0 → segmentLen f < 18

/-- The decision under hash balancing is the slot of the flow key. -/
theorem Aggregator.Routed.hash_slot {a a' : Aggregator} {pkt : List UInt8}
    {d : Option ForwardDecision} (h : a.Routed pkt d a') (hv : IsIpv4 pkt)
    (hs : a.config.strategy = .loadBalance) (ha : a.config.algorithm = .hash) :
    (d = none ∧ (a.config.enabled = false ∨ usableOf a.candidates = [])) ∨
      a.config.enabled = true ∧
        ∃ c, (poolOf (usableOf a.candidates))[(keyHash pkt).toNat %
          (poolOf (usableOf a.candidates)).length]? = some c ∧
        d.bind ForwardDecision.interface = some c.name := by
  cases h with
  | disabled hdisabled => exact .inl ⟨rfl, .inl hdisabled⟩
  | unparsed hparse => exact absurd ((parse_ipv4 hv).symm.trans hparse) (by simp)
  | unusable husable => exact .inl ⟨rfl, .inr husable⟩
  | decided henabled hparse hpick =>
    obtain rfl := Option.some.inj (Except.ok.inj ((parse_ipv4 hv).symm.trans hparse))
    obtain ⟨_, c, hc, hname⟩ := hpick.hash_inv hs ha
    exact .inr ⟨henabled, c, hc, congrArg some hname.symm⟩

private theorem not_undecided {a : Aggregator} {i : Nat} {c : CandidateIface}
    (henabled : a.config.enabled = true) (hc : (poolOf (usableOf a.candidates))[i]? = some c) :
    ¬ (a.config.enabled = false ∨ usableOf a.candidates = []) := by
  rintro (hdisabled | husable)
  · cases henabled.symm.trans hdisabled
  · exact List.ne_nil_of_mem (mem_of_slot hc) husable

/-- Packets whose keys hash alike go to one interface. -/
theorem routedTogether_of_twins {pkts : List (List UInt8)} (hv : ∀ f ∈ pkts, IsIpv4 f)
    (h : ∀ f ∈ pkts, ∀ g ∈ pkts, HashTwins (keyHash f) (keyHash g)) : RoutedTogether pkts := by
  intro a b hs ha hconfig hcandidates f hf g hg d a' d' b' hroute hroute'
  have hslot := (Aggregator.routed_of_route hroute).hash_slot (hv f hf) hs ha
  have hslot' := (Aggregator.routed_of_route hroute').hash_slot (hv g hg)
    (by rw [hconfig]; exact hs) (by rw [hconfig]; exact ha)
  rw [hconfig, hcandidates] at hslot'
  rcases hslot with ⟨rfl, hnone⟩ | ⟨henabled, c, hc, hd⟩
  · rcases hslot' with ⟨rfl, _⟩ | ⟨henabled, c, hc, _⟩
    · rfl
    · exact absurd hnone (not_undecided henabled hc)
  · rcases hslot' with ⟨rfl, hnone⟩ | ⟨_, c', hc', hd'⟩
    · exact absurd hnone (not_undecided henabled hc)
    · rw [hd, hd', (h f hf g hg).name_eq hc hc']

/-- Two packets that always go to one interface have keys that hash alike. -/
theorem twins_of_routedTogether {pkts : List (List UInt8)} (h : RoutedTogether pkts)
    {f g : List UInt8} (hf : f ∈ pkts) (hg : g ∈ pkts) (hvf : IsIpv4 f) (hvg : IsIpv4 g) :
    HashTwins (keyHash f) (keyHash g) := by
  by_contra hnot
  obtain ⟨list, husable, hweight, c, d, hc, hd, hne⟩ := exists_separates hnot
  let a : Aggregator := { freshAggregator .default with candidates := list }
  have hslot {pkt : List UInt8} (hv : IsIpv4 pkt) {c : CandidateIface}
      (hc : (poolOf list)[(keyHash pkt).toNat % (poolOf list).length]? = some c) :
      ∃ dec a', a.route pkt = .ok (dec, a') ∧
        dec.bind ForwardDecision.interface = some c.name := by
    have hlist : usableOf a.candidates = list := husable
    obtain ⟨dec, a', hroute⟩ := a.route_ok pkt (by rw [hlist]; exact hweight)
    refine ⟨dec, a', hroute, ?_⟩
    rcases (Aggregator.routed_of_route hroute).hash_slot hv rfl rfl with
      ⟨_, hdisabled | hempty⟩ | ⟨_, e, he, hdec⟩
    · cases hdisabled
    · exact absurd (hlist.symm.trans hempty) (List.ne_nil_of_mem (mem_of_slot hc))
    · rw [hlist] at he
      rw [hdec, Option.some.inj (hc.symm.trans he)]
  obtain ⟨dec, a', hroute, hdec⟩ := hslot hvf hc
  obtain ⟨dec', b', hroute', hdec'⟩ := hslot hvg hd
  have heq := h a a rfl rfl rfl rfl f hf g hg _ _ _ _ hroute hroute'
  rw [hdec, hdec'] at heq
  exact hne (Option.some.inj heq)

/-- The fragments of a TCP or UDP datagram survive the data plane exactly when their flow keys
hash alike and every later one has fewer than 18 bytes of payload. -/
theorem fragments_survive_iff {datagram : List UInt8} {frags : List (List UInt8)}
    (hd : IsTransportPacket 6 20 datagram ∨ IsTransportPacket 17 8 datagram)
    (h : Fragments datagram 0 frags) : FragmentsSurvive frags ↔ FragmentsHarmless frags := by
  have hproto : isTransport (byteAt datagram 9) = true := by
    rcases hd with hd | hd
    · rw [hd.proto]
      rfl
    · rw [hd.proto]
      rfl
  have hv (f : List UInt8) (hf : f ∈ frags) : IsIpv4 f := by
    obtain ⟨_, _, hfrag⟩ := h.isFragment hf
    exact hfrag.ipv4
  have hpayload (f : List UInt8) (hf : f ∈ frags) : PayloadSurvives f ↔ segmentLen f < 18 := by
    obtain ⟨_, _, hfrag⟩ := h.isFragment hf
    refine payloadSurvives_iff hfrag.ipv4 ?_ hfrag.length_le
    rw [hfrag.proto]
    exact hproto
  constructor
  · intro hs
    constructor
    · intro f hf g hg
      exact twins_of_routedTogether hs.together hf hg (hv f hf) (hv g hg)
    · intro f hf hlater
      exact (hpayload f hf).mp (hs.payload f hf hlater)
  · intro hs
    constructor
    · exact routedTogether_of_twins hv hs.hashes
    · intro f hf hlater
      exact (hpayload f hf).mpr (hs.short f hf hlater)

/-- A TCP datagram of 48 bytes behind its header. -/
def fragmentProbe : List UInt8 :=
  [0x45, 0, 0, 68, 0, 9, 0, 0, 64, 6, 0, 0, 10, 99, 0, 1, 8, 8, 8, 8] ++
    [0x13, 0x88, 1, 0xbb, 0, 0, 0, 1, 0, 0, 0, 0, 0x50, 0x18, 0, 0, 0, 0, 0, 0] ++
    List.replicate 28 0x61

/-- Its first 24 bytes. -/
def firstFragment : List UInt8 :=
  [0x45, 0, 0, 44, 0, 9, 0x20, 0, 64, 6, 0, 0, 10, 99, 0, 1, 8, 8, 8, 8] ++
    [0x13, 0x88, 1, 0xbb, 0, 0, 0, 1, 0, 0, 0, 0, 0x50, 0x18, 0, 0, 0, 0, 0, 0] ++
    List.replicate 4 0x61

/-- The other 24 bytes. -/
def secondFragment : List UInt8 :=
  [0x45, 0, 0, 44, 0, 9, 0, 3, 64, 6, 0, 0, 10, 99, 0, 1, 8, 8, 8, 8] ++ List.replicate 24 0x61

private theorem fragments_probe :
    Fragments fragmentProbe 0 [firstFragment, secondFragment] := by
  refine .more (by decide) (by decide) (by decide) (.last ?_ (by decide))
  decide

theorem fragments_survive_iff_probe :
    FragmentsSurvive [firstFragment, secondFragment] ↔
      FragmentsHarmless [firstFragment, secondFragment] :=
  fragments_survive_iff (.inl (by decide)) fragments_probe

/-- A source rewrite overwrites two bytes of the second piece. -/
theorem fragments_lost_probe :
    IsTransportPacket 6 20 fragmentProbe ∧
      Fragments fragmentProbe 0 [firstFragment, secondFragment] ∧
      ¬ FragmentsSurvive [firstFragment, secondFragment] := by
  refine ⟨by decide, fragments_probe, ?_⟩
  intro hs
  obtain ⟨⟨out, hout, hheader⟩, _⟩ := hs.payload secondFragment (by simp) (by decide)
    ⟨192, 168, 31, 49⟩
  have hbyte := hheader.frame 36 (by decide) (by decide)
  have hrun : (rewriteIpv4Source secondFragment ⟨192, 168, 31, 49⟩).map
      (fun r => decide (r.2[36]? = some 0x61)) = .ok false := by decide +kernel
  rw [hout] at hrun
  have hchanged := of_decide_eq_false (Except.ok.inj hrun)
  exact hchanged hbyte

end Netmux
