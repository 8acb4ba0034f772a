import Netmux.Lib.Table
import Netmux.Packet.Parse

/-!
# The NAT session table

Sessions are stored under their outbound 5-tuple; a second map holds the return tuples
and serves as a gate for the return lookup, which then scans the stored sessions. The
representation invariant ties the two maps together, and the return lookup is exact on
every table that keeps it.
-/

namespace Netmux

/-- A tracked bidirectional NAT session. -/
structure Session where
  clientIp : Ipv4Addr
  clientPort : UInt16
  serverIp : Ipv4Addr
  serverPort : UInt16
  proto : UInt8
  egressIface : String
  egressIp : Ipv4Addr
  txPackets : UInt64
  rxPackets : UInt64
  deriving DecidableEq, Repr

/-- Outbound key: (proto, client, sport, server, dport). -/
abbrev OutKey := UInt8 × Ipv4Addr × UInt16 × Ipv4Addr × UInt16

/-- Return key: (proto, server, sport, egress_ip, client_port). -/
abbrev RetKey := UInt8 × Ipv4Addr × UInt16 × Ipv4Addr × UInt16

/-- The table: sessions by outbound key, and a running index by return key. -/
structure NatTable where
  byOutbound : Table OutKey Session
  byReturn : Table RetKey UInt64
  index : UInt64

/-- `parse_ip`. -/
def parseIp (s : String) : Option Ipv4Addr := Ipv4Addr.fromStr s

namespace NatTable

/-- `NatTable::new()`. -/
def new : NatTable := ⟨∅, ∅, 0⟩

/-- Number of live sessions. -/
def sessions (t : NatTable) : Nat := t.byOutbound.entries.length

/-- Register (or reuse) a session for an outbound flow. -/
def register (t : NatTable) (flow : Flow) (egressIface : String) (egressIp : Ipv4Addr) :
    Option Session × NatTable :=
  match parseIp flow.src, parseIp flow.dst with
  | some clientIp, some serverIp =>
    let key : OutKey := (flow.proto, clientIp, flow.sport, serverIp, flow.dport)
    match t.byOutbound.lookup key with
    | some s => (some s, t)
    | none =>
      let retKey : RetKey := (flow.proto, serverIp, flow.dport, egressIp, flow.sport)
      let session : Session :=
        { clientIp := clientIp
          clientPort := flow.sport
          serverIp := serverIp
          serverPort := flow.dport
          proto := flow.proto
          egressIface := egressIface
          egressIp := egressIp
          txPackets := 0
          rxPackets := 0 }
      (some session,
        { byOutbound := t.byOutbound.insert key session
          byReturn := t.byReturn.insert retKey t.index
          index := t.index + 1 })
  | _, _ => (none, t)

/-- Look up the session for a return packet; `order` is how this call walks `by_outbound`. -/
def lookupReturn (t : NatTable) (order : WalkOrder Session) (proto : UInt8) (srcIp : Ipv4Addr)
    (sport : UInt16) (dstIp : Ipv4Addr) (dport : UInt16) : Option Session :=
  let retKey : RetKey := (proto, srcIp, sport, dstIp, dport)
  (t.byReturn.lookup retKey).bind fun _ =>
    (order.walk t.byOutbound.values).find? fun s =>
      s.proto == proto && s.serverIp == srcIp && s.serverPort == sport && s.egressIp == dstIp &&
        s.clientPort == dport

end NatTable

/-- The 5-tuple a session is stored under. -/
def Session.outKey (s : Session) : OutKey :=
  (s.proto, s.clientIp, s.clientPort, s.serverIp, s.serverPort)

/-- The tuple of the replies to a session. -/
def Session.retKey (s : Session) : RetKey :=
  (s.proto, s.serverIp, s.serverPort, s.egressIp, s.clientPort)

/-- The 5-tuple of a flow whose addresses read as IPv4. -/
def Flow.outKey (flow : Flow) : Option OutKey :=
  match parseIp flow.src, parseIp flow.dst with
  | some client, some server => some (flow.proto, client, flow.sport, server, flow.dport)
  | _, _ => none

/-- The session that a first registration of `key` stores. -/
def OutKey.session (key : OutKey) (egressIface : String) (egressIp : Ipv4Addr) : Session :=
  ⟨key.2.1, key.2.2.1, key.2.2.2.1, key.2.2.2.2, key.1, egressIface, egressIp, 0, 0⟩

@[simp] theorem OutKey.outKey_session (key : OutKey) (egressIface : String)
    (egressIp : Ipv4Addr) : (OutKey.session key egressIface egressIp).outKey = key := rfl

/-- The client of a session is the one thing its return tuple does not determine. -/
theorem Session.outKey_eq_of_retKey {s s' : Session} (hret : s.retKey = s'.retKey)
    (hclient : s.clientIp = s'.clientIp) : s.outKey = s'.outKey := by
  simp only [Session.retKey, Prod.mk.injEq] at hret
  simp only [Session.outKey, hret, hclient]

namespace NatTable

/-- The session a key is mapped to. -/
def Stored (t : NatTable) (key : OutKey) (s : Session) : Prop := t.byOutbound.lookup key = some s

/-- What a registration does: nothing without two IPv4 addresses, a lookup for a known 5-tuple,
and one new entry in both maps otherwise. -/
theorem register_cases (t : NatTable) (flow : Flow) (iface : String) (ip : Ipv4Addr) :
    (flow.outKey = none ∧ t.register flow iface ip = (none, t)) ∨
      (∃ key s, flow.outKey = some key ∧ t.Stored key s ∧
        t.register flow iface ip = (some s, t)) ∨
      ∃ key, flow.outKey = some key ∧ t.byOutbound.lookup key = none ∧
        t.register flow iface ip = (some (OutKey.session key iface ip),
          { byOutbound := t.byOutbound.insert key (OutKey.session key iface ip)
            byReturn := t.byReturn.insert (OutKey.session key iface ip).retKey t.index
            index := t.index + 1 }) := by
  unfold register Flow.outKey Stored
  rcases hsrc : parseIp flow.src with _ | client
  · exact .inl ⟨rfl, rfl⟩
  rcases hdst : parseIp flow.dst with _ | server
  · exact .inl ⟨rfl, rfl⟩
  dsimp only
  cases hk : t.byOutbound.lookup (flow.proto, client, flow.sport, server, flow.dport) with
  | some s => exact .inr (.inl ⟨_, s, rfl, hk, rfl⟩)
  | none => exact .inr (.inr ⟨_, rfl, hk, rfl⟩)

/-! ## Representation invariant -/

/-- Both maps describe the same sessions. -/
structure Wf (t : NatTable) : Prop where
  key : ∀ {key s}, t.Stored key s → s.outKey = key
  gate : ∀ r, (t.byReturn.lookup r).isSome = true ↔ ∃ key s, t.Stored key s ∧ s.retKey = r

theorem not_stored_new (key : OutKey) (s : Session) : ¬ new.Stored key s := by
  simp [Stored, new]

theorem wf_new : new.Wf where
  key h := absurd h (not_stored_new _ _)
  gate r := by simp [Stored, new]

private theorem stored_insert {t : NatTable} {key k : OutKey} {s₀ s : Session}
    {byReturn : Table RetKey UInt64} {index : UInt64} :
    Stored ⟨t.byOutbound.insert key s₀, byReturn, index⟩ k s ↔
      k = key ∧ s₀ = s ∨ k ≠ key ∧ t.Stored k s := by
  rw [Stored, Table.lookup_insert_eq]
  by_cases hk : k = key
  · simp [hk]
  · simp [hk, Stored]

/-- A registration keeps the invariant. -/
theorem Wf.register {t : NatTable} (h : t.Wf) (flow : Flow) (iface : String) (ip : Ipv4Addr) :
    (t.register flow iface ip).2.Wf := by
  rcases t.register_cases flow iface ip with ⟨_, hr⟩ | ⟨key, s, _, _, hr⟩ | ⟨key, _, hnew, hr⟩
  · rw [hr]
    exact h
  · rw [hr]
    exact h
  · rw [hr]
    constructor
    · intro k s hs
      rcases stored_insert.mp hs with ⟨rfl, rfl⟩ | ⟨_, hs⟩
      · rfl
      · exact h.key hs
    · intro r
      simp only [stored_insert]
      rw [Table.lookup_insert_eq]
      by_cases hret : r = (OutKey.session key iface ip).retKey
      · simp only [hret, if_true, Option.isSome_some, true_iff]
        exact ⟨key, _, .inl ⟨rfl, rfl⟩, rfl⟩
      · rw [if_neg hret, h.gate r]
        constructor
        · rintro ⟨k, s, hs, rfl⟩
          refine ⟨k, s, .inr ⟨?_, hs⟩, rfl⟩
          rintro rfl
          rw [Stored, hnew] at hs
          simp at hs
        · rintro ⟨k, s, ⟨rfl, rfl⟩ | ⟨_, hs⟩, hret'⟩
          · exact absurd hret'.symm hret
          · exact ⟨k, s, hs, hret'⟩

/-- A stored session is never altered or removed. -/
theorem Stored.register {t : NatTable} {key : OutKey} {s : Session} (h : t.Stored key s)
    (flow : Flow) (iface : String) (ip : Ipv4Addr) : (t.register flow iface ip).2.Stored key s := by
  rcases t.register_cases flow iface ip with ⟨_, hr⟩ | ⟨key', s', _, _, hr⟩ | ⟨key', _, hnew, hr⟩
  · rw [hr]
    exact h
  · rw [hr]
    exact h
  · rw [hr, stored_insert]
    refine .inr ⟨?_, h⟩
    rintro rfl
    rw [Stored, hnew] at h
    simp at h

/-- What a registration returns is stored under the 5-tuple of its flow. -/
theorem stored_of_register {t : NatTable} {flow : Flow} {iface : String} {ip : Ipv4Addr}
    {s : Session} (h : (t.register flow iface ip).1 = some s) :
    ∃ key, flow.outKey = some key ∧ (t.register flow iface ip).2.Stored key s := by
  rcases t.register_cases flow iface ip with ⟨_, hr⟩ | ⟨key, s', hk, hs, hr⟩ | ⟨key, hk, _, hr⟩
  · rw [hr] at h
    simp at h
  · rw [hr] at h ⊢
    obtain rfl : s' = s := by simpa using h
    exact ⟨key, hk, hs⟩
  · rw [hr] at h ⊢
    obtain rfl : OutKey.session key iface ip = s := by simpa using h
    exact ⟨key, hk, AList.lookup_insert _⟩

/-- A stored session was there before the registration or is the one it creates. -/
theorem stored_or_created {t : NatTable} {flow : Flow} {iface : String} {ip : Ipv4Addr}
    {key : OutKey} {s : Session} (h : (t.register flow iface ip).2.Stored key s) :
    t.Stored key s ∨ flow.outKey = some key ∧ s = OutKey.session key iface ip ∧
      (t.register flow iface ip).1 = some s := by
  rcases t.register_cases flow iface ip with ⟨_, hr⟩ | ⟨key', s', _, _, hr⟩ | ⟨key', hkey, _, hr⟩
  · rw [hr] at h
    exact .inl h
  · rw [hr] at h
    exact .inl h
  · rw [hr] at h ⊢
    rcases stored_insert.mp h with ⟨rfl, rfl⟩ | ⟨_, hs⟩
    · exact .inr ⟨hkey, rfl, rfl⟩
    · exact .inl hs

/-! ## The return lookup -/

/-- In every walk order the lookup finds only stored sessions with the tuple asked for. -/
theorem stored_of_lookupReturn {t : NatTable} {order : WalkOrder Session} {proto : UInt8}
    {srcIp dstIp : Ipv4Addr} {sport dport : UInt16} {s : Session}
    (h : t.lookupReturn order proto srcIp sport dstIp dport = some s) :
    (∃ key, t.Stored key s) ∧ s.retKey = (proto, srcIp, sport, dstIp, dport) := by
  simp only [lookupReturn, Option.bind_eq_some_iff] at h
  obtain ⟨_, _, hfind⟩ := h
  obtain ⟨hmem, htest⟩ := order.find?_some hfind
  simp only [Bool.and_eq_true, beq_iff_eq] at htest
  obtain ⟨⟨⟨⟨hproto, hserver⟩, hport⟩, hegress⟩, hclient⟩ := htest
  refine ⟨Table.mem_values.mp hmem, ?_⟩
  rw [Session.retKey, hproto, hserver, hport, hegress, hclient]

/-- It finds one whenever a stored session has that tuple. -/
theorem Wf.lookupReturn_of_stored {t : NatTable} (h : t.Wf) (order : WalkOrder Session)
    {key : OutKey} {s : Session} (hs : t.Stored key s) :
    ∃ r, t.lookupReturn order s.proto s.serverIp s.serverPort s.egressIp s.clientPort = some r := by
  obtain ⟨i, hi⟩ := Option.isSome_iff_exists.mp ((h.gate s.retKey).mpr ⟨key, s, hs, rfl⟩)
  rw [Session.retKey] at hi
  simp only [lookupReturn, hi, Option.bind_some]
  exact order.find?_of_mem (Table.mem_values.mpr ⟨key, hs⟩) (by simp)

/-- A walk that starts with a stored session answers its tuple with that session. -/
theorem Wf.lookupReturn_first {t : NatTable} (h : t.Wf) {key : OutKey} {s : Session}
    (hs : t.Stored key s) : t.lookupReturn (.first s) s.proto s.serverIp s.serverPort s.egressIp
      s.clientPort = some s := by
  obtain ⟨i, hi⟩ := Option.isSome_iff_exists.mp ((h.gate s.retKey).mpr ⟨key, s, hs, rfl⟩)
  rw [Session.retKey] at hi
  simp only [lookupReturn, hi, Option.bind_some]
  exact WalkOrder.find?_first (Table.mem_values.mpr ⟨key, hs⟩) (by simp)

end NatTable

end Netmux
