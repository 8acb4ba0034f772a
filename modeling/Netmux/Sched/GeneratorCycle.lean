import Netmux.Lib.Congruential
import Netmux.Packet.FlowKey
import Netmux.Sched.Generator

/-!
# The cycle of the traffic simulator

Each of the eight states of the generator is a congruential sequence of full period, and a packet
carries its state in the source address and the source port. So no two states are the same flow,
and the generator plays all 2^32 flows through, each as often as any other.
-/

namespace Netmux

namespace PcapGenerator

/-- The flow of the packets made from a state. -/
def flowOf (rnd : UInt32) : Flow where
  src := (⟨(rnd >>> 16).toUInt8, (rnd >>> 8).toUInt8, 1, (rnd >>> 24).toUInt8⟩ : Ipv4Addr).dotted
  dst := (⟨8, 8, 4 + (rnd % 4).toUInt8, 8⟩ : Ipv4Addr).dotted
  proto := 6
  sport := (rnd % 60000).toUInt16 + 1024
  dport := 443

/-- The slot of the next call. -/
def slot (g : PcapGenerator) : Fin 8 := ⟨(g.tick + 1).toNat % 8, Nat.mod_lt _ (Nat.succ_pos 7)⟩

/-- The state of a slot. -/
def seed (g : PcapGenerator) (i : Fin 8) : UInt32 := g.seeds[i]

/-- The state it draws. -/
def drawn (g : PcapGenerator) : UInt32 := g.seed g.slot * 1664525 + 1013904223

/-- The generator behind it. -/
def advanced (g : PcapGenerator) : PcapGenerator :=
  { tick := g.tick + 1, seeds := g.seeds.set g.slot g.drawn }

/-- Consecutive calls for packets of the given lengths. -/
def packets (g : PcapGenerator) : List Nat → List (List UInt8)
  | [] => []
  | len :: lens =>
    let (pkt, g) := g.nextPacket len
    pkt :: packets g lens

/-! ## Flows and states -/

theorem fromBe_toBe_bytes (w : UInt16) :
    fromBe (UInt8.ofNat (w.toNat / 256)) (UInt8.ofNat w.toNat) = w := by
  rw [fromBe, beWord_toBe, UInt16.ofNat_toNat]

theorem parse_nextPacket_eq (g : PcapGenerator) (len : Nat) :
    parse (g.nextPacket len).1 = .ok (some (flowOf g.drawn)) := by
  have hlen := g.length_nextPacket len
  have hproto : byteAt (g.nextPacket len).1 9 = 6 := rfl
  have hports : isTransport 6 = true ∧ 20 + 4 ≤ (g.nextPacket len).1.length := ⟨rfl, by omega⟩
  have hsport : wordAt (g.nextPacket len).1 20 = (g.drawn % 60000).toUInt16 + 1024 :=
    fromBe_toBe_bytes _
  have hdport : wordAt (g.nextPacket len).1 22 = 443 := fromBe_toBe_bytes 443
  rw [parse_ipv4 (g.isIpv4_nextPacket len), flowV4, portsAt, hproto, g.headerLen_nextPacket len,
    if_pos hports, hsport, hdport]
  rfl

/-- A byte of a state. -/
theorem toNat_shiftRight_toUInt8 (r : UInt32) {n : UInt32} (hn : n.toNat < 32) :
    (r >>> n).toUInt8.toNat = r.toNat / 2 ^ n.toNat % 256 := by
  rw [UInt32.toNat_toUInt8, UInt32.toNat_shiftRight, Nat.mod_eq_of_lt hn,
    Nat.shiftRight_eq_div_pow]

/-- The source port of a state never wraps. -/
theorem toNat_sport_flowOf (r : UInt32) : (flowOf r).sport.toNat = r.toNat % 60000 + 1024 := by
  have hmod : (r % 60000).toUInt16.toNat = r.toNat % 60000 := by
    rw [UInt32.toNat_toUInt16, UInt32.toNat_mod]
    have hlt := Nat.mod_lt r.toNat (by decide : 0 < 60000)
    exact Nat.mod_eq_of_lt (by simp; omega)
  have hlt := Nat.mod_lt r.toNat (by decide : 0 < 60000)
  rw [flowOf, UInt16.toNat_add, hmod]
  exact Nat.mod_eq_of_lt (by simp; omega)

/-- The flow keys of different states differ. -/
theorem key_flowOf_inj {r r' : UInt32} (h : (flowOf r).key = (flowOf r').key) : r = r' := by
  have hdash (r : UInt32) : '-' ∉ (flowOf r).src.toList := by
    rw [flowOf]
    exact Ipv4Addr.dash_not_mem_dotted _
  obtain ⟨hsrc, hsport, -, -⟩ := Flow.key_inj (hdash r) (hdash r') h
  have haddr := Ipv4Addr.dotted_inj.mp hsrc
  simp only [Ipv4Addr.mk.injEq, true_and, ← UInt8.toNat_inj] at haddr
  rw [toNat_shiftRight_toUInt8 r (by decide), toNat_shiftRight_toUInt8 r (by decide),
    toNat_shiftRight_toUInt8 r (by decide), toNat_shiftRight_toUInt8 r' (by decide),
    toNat_shiftRight_toUInt8 r' (by decide), toNat_shiftRight_toUInt8 r' (by decide)] at haddr
  have hport := congrArg UInt16.toNat hsport
  rw [toNat_sport_flowOf, toNat_sport_flowOf] at hport
  apply UInt32.toNat_inj.mp
  have hr := r.toNat_lt
  have hr' := r'.toNat_lt
  simp only [UInt32.reduceToNat, Nat.reducePow] at haddr
  have hbytes {n : Nat} (hn : n < 2 ^ 32) :
      n / 256 = n / 16777216 % 256 * 65536 + n / 65536 % 256 * 256 + n / 256 % 256 := by omega
  have hhigh : r.toNat / 256 = r'.toNat / 256 := by
    rw [hbytes hr, hbytes hr', haddr.1, haddr.2.1, haddr.2.2]
  omega

/-! ## Consecutive calls -/

theorem toNat_drawn (g : PcapGenerator) :
    g.drawn.toNat = congruential 32 (1664524 + 1) 1013904223 (g.seed g.slot).toNat := by
  rw [drawn, congruential, UInt32.toNat_add, UInt32.toNat_mul, Nat.mul_comm]
  simp

/-- The slot of the call after `n` others. -/
def slotAt (g : PcapGenerator) (n : Nat) : Fin 8 :=
  ⟨(g.tick.toNat + 1 + n) % 8, Nat.mod_lt _ (Nat.succ_pos 7)⟩

/-- The state that the call after `n` others draws. -/
def drawnAt (g : PcapGenerator) (n : Nat) : Nat :=
  (congruential 32 (1664524 + 1) 1013904223)^[n / 8 + 1] (g.seed (g.slotAt n)).toNat

theorem slotAt_zero (g : PcapGenerator) : g.slotAt 0 = g.slot := by
  apply Fin.ext
  simp only [slotAt, slot, UInt64.toNat_add]
  have hone : (1 : UInt64).toNat = 1 := rfl
  omega

/-- The counter of the calls wraps at a multiple of the number of slots. -/
theorem slotAt_advanced (g : PcapGenerator) (n : Nat) : g.advanced.slotAt n = g.slotAt (n + 1) := by
  apply Fin.ext
  simp only [slotAt, advanced, UInt64.toNat_add]
  have hone : (1 : UInt64).toNat = 1 := rfl
  omega

theorem slotAt_eq_slot_iff (g : PcapGenerator) (n : Nat) : g.slotAt n = g.slot ↔ n % 8 = 0 := by
  rw [← slotAt_zero, Fin.ext_iff]
  simp only [slotAt]
  omega

theorem seed_advanced (g : PcapGenerator) (i : Fin 8) :
    g.advanced.seed i = if i = g.slot then g.drawn else g.seed i := by
  rw [seed, advanced, seed]
  dsimp only [Fin.getElem_fin]
  rw [Vector.getElem_set]
  simp only [Fin.ext_iff, eq_comm]

theorem drawnAt_zero (g : PcapGenerator) : g.drawnAt 0 = g.drawn.toNat := by
  rw [drawnAt, slotAt_zero, toNat_drawn, Nat.zero_div, Nat.zero_add, Function.iterate_one]

theorem drawnAt_succ (g : PcapGenerator) (n : Nat) : g.drawnAt (n + 1) = g.advanced.drawnAt n := by
  rw [drawnAt, drawnAt, slotAt_advanced, seed_advanced]
  by_cases hturn : (n + 1) % 8 = 0
  · have hdiv : (n + 1) / 8 = n / 8 + 1 := by omega
    have hslot := (g.slotAt_eq_slot_iff (n + 1)).mpr hturn
    rw [if_pos hslot, toNat_drawn, hdiv, ← Function.iterate_succ_apply, hslot]
  · have hdiv : (n + 1) / 8 = n / 8 := by omega
    rw [if_neg fun hslot => hturn ((g.slotAt_eq_slot_iff (n + 1)).mp hslot), hdiv]

/-- Counting packets is counting the states they are made from. -/
theorem countP_packets (g : PcapGenerator) (lens : List Nat) (rnd : UInt32) :
    (g.packets lens).countP (fun pkt => parse pkt = .ok (some (flowOf rnd))) =
      Nat.count (fun n => g.drawnAt n = rnd.toNat) lens.length := by
  induction lens generalizing g with
  | nil => rfl
  | cons len lens ih =>
    have hsame : parse (g.nextPacket len).1 = .ok (some (flowOf rnd)) ↔
        g.drawnAt 0 = rnd.toNat := by
      rw [parse_nextPacket_eq, drawnAt_zero, UInt32.toNat_inj, Except.ok.injEq, Option.some.injEq]
      constructor
      · intro h
        exact key_flowOf_inj (congrArg Flow.key h)
      · rintro rfl
        rfl
    have hpackets : g.packets (len :: lens) = (g.nextPacket len).1 :: g.advanced.packets lens := rfl
    rw [hpackets, List.countP_cons, ih, List.length_cons, Nat.count_succ']
    simp only [decide_eq_true_eq, hsame, drawnAt_succ]

/-- Over whole cycles of all slots every state is drawn once by each of them. -/
theorem count_drawnAt (g : PcapGenerator) {n : Nat} (hn : n < 2 ^ 32) :
    Nat.count (fun i => g.drawnAt i = n) (8 * 2 ^ 32) = 8 := by
  have hdrawn (i : Nat) : g.drawnAt i = (congruential 32 (1664524 + 1) 1013904223)^[i / 8]
      (congruential 32 (1664524 + 1) 1013904223 (g.seed (g.slotAt (i % 8))).toNat) := by
    have hslot : g.slotAt i = g.slotAt (i % 8) := by
      apply Fin.ext
      simp only [slotAt]
      omega
    rw [drawnAt, hslot, Function.iterate_succ_apply]
  have hfour : 4 ∣ 1664524 := by decide
  have hodd : Odd 1013904223 := by decide
  have hturns := count_congruential_turns hfour hodd
    (x := fun r => congruential 32 (1664524 + 1) 1013904223 (g.seed (g.slotAt r)).toNat)
    (w := 8) (fun r _ => Nat.mod_lt _ (Nat.two_pow_pos 32)) hn
  simp only [hdrawn]
  exact hturns

/-- Every packet of the generator belongs to one of the flows of the states. -/
theorem parse_of_mem_packets {g : PcapGenerator} {lens : List Nat} {pkt : List UInt8}
    (h : pkt ∈ g.packets lens) : ∃ rnd, parse pkt = .ok (some (flowOf rnd)) := by
  induction lens generalizing g with
  | nil => exact absurd h List.not_mem_nil
  | cons len lens ih =>
    rcases List.mem_cons.mp h with rfl | h
    · exact ⟨g.drawn, g.parse_nextPacket_eq len⟩
    · exact ih h

/-- The packets of the generator belong to 2^32 flows whose keys are all different, and over any
8 * 2^32 consecutive calls, from any state and for packets of any lengths, every one of these flows
is played exactly eight times. -/
theorem flows_equidistributed (g : PcapGenerator) {lens : List Nat}
    (hlength : lens.length = 8 * 2 ^ 32) :
    (∀ pkt ∈ g.packets lens, ∃ rnd, parse pkt = .ok (some (flowOf rnd))) ∧
      (∀ r r', (flowOf r).key = (flowOf r').key → r = r') ∧
      ∀ rnd, (g.packets lens).countP (fun pkt => parse pkt = .ok (some (flowOf rnd))) = 8 := by
  refine ⟨fun pkt => parse_of_mem_packets, fun r r' => key_flowOf_inj, ?_⟩
  intro rnd
  rw [countP_packets, hlength]
  exact g.count_drawnAt rnd.toNat_lt

/-- From the state the application starts with. -/
theorem flows_equidistributed_default : ∃ lens : List Nat, lens.length = 8 * 2 ^ 32 ∧
    ∀ rnd, (default.packets lens).countP (fun pkt => parse pkt = .ok (some (flowOf rnd))) = 8 :=
  ⟨List.replicate (8 * 2 ^ 32) 96, List.length_replicate,
    (flows_equidistributed default List.length_replicate).2.2⟩

end PcapGenerator

end Netmux
