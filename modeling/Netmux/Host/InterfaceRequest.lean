import Netmux.Host.Tun

/-!
# Interface requests are well formed

The kernel reads the name of an interface from the first 16 bytes of a request, up to its
terminator, and the flags from the two bytes behind. A name of at most 15 bytes leaves both in
order; a longer one makes the copy panic, loses its terminator or runs into the flags.
-/

namespace Netmux

/-- A request whose first 16 bytes are the name, NUL-terminated and zero-padded, and whose next
two are the flags alone. -/
structure WellFormedRequest (name flags bytes : List UInt8) : Prop where
  length : bytes.length = 40
  named : ∃ pad, 0 < pad ∧ bytes.take 16 = name ++ List.replicate pad 0
  flagged : (bytes.take 18).drop 16 = flags

/-- Such a name leaves room for its terminator. -/
theorem WellFormedRequest.length_lt {name flags bytes : List UInt8}
    (h : WellFormedRequest name flags bytes) : name.length < 16 := by
  obtain ⟨pad, hpad, htake⟩ := h.named
  have hlength := congrArg List.length htake
  rw [List.length_take, List.length_append, List.length_replicate] at hlength
  omega

/-- A request without flags. -/
theorem wellFormed_namedRequest {name : List UInt8} (h : name.length ≤ 15) :
    WellFormedRequest name [0, 0] (namedRequest name) := by
  have htake (n : Nat) (hname : name.length ≤ n) (hn : n ≤ 40) :
      (namedRequest name).take n = name ++ List.replicate (n - name.length) 0 := by
    rw [namedRequest, List.take_append, List.take_of_length_le hname, List.take_replicate]
    congr 2
    omega
  constructor
  · exact length_namedRequest (by omega)
  · exact ⟨16 - name.length, by omega, htake 16 (by omega) (by decide)⟩
  · have hrest : 18 - name.length - (16 - name.length) = 2 := by omega
    rw [htake 18 (by omega) (by decide), List.drop_append, List.drop_of_length_le (by omega),
      List.drop_replicate, hrest]
    rfl

/-- And one with them. -/
theorem wellFormed_splice {name flags : List UInt8} (h : name.length ≤ 15)
    (hflags : flags.length = 2) :
    WellFormedRequest name flags (splice (namedRequest name) 16 flags) := by
  have hlength : (namedRequest name).length = 40 := length_namedRequest (by omega)
  have hroom : 16 + flags.length ≤ (namedRequest name).length := by omega
  constructor
  · rw [length_splice hroom, hlength]
  · rw [take_splice_of_le hroom le_rfl]
    exact (wellFormed_namedRequest h).named
  · have hfield := take_drop_splice hroom
    rw [List.drop_take]
    rwa [hflags] at hfield

/-- The call does not panic, and it returns an error or hands over well-formed requests. -/
def Ended.RequestsWell {α : Type} (e : Ended α) (name : List UInt8)
    (flagsOf : IfRequestCode → List UInt8) : Prop :=
  ∃ result, e.outcome = .ok result ∧ ((∃ error, result = .error error) ∨
    e.requests ≠ [] ∧ ∀ r ∈ e.requests, WellFormedRequest name (flagsOf r.code) r.bytes)

/-- The flags in the request of `Tun::create`. -/
def createFlags (order : ByteOrder) (_ : IfRequestCode) : List UInt8 :=
  order.toNeBytes 2 (iffTun ||| iffNoPi)

/-- The flags in the requests of `set_up`: none, then those it was told with the interface up. -/
def SetUpCalls.flags {fds : Finset Nat} (calls : SetUpCalls fds) (order : ByteOrder) :
    IfRequestCode → List UInt8
  | .setIfFlags =>
    order.toNeBytes 2 ((calls.getIfFlags.toOption.getD 0).toNat ||| iffUp)
  | _ => [0, 0]

/-- Once the device is open, `Tun::create` only succeeds with well-formed requests. -/
def CreateWellFormed (name : String) : Prop :=
  ∀ (order : ByteOrder) (fds : Finset Nat) (calls : CreateCalls fds),
    (∃ file, calls.openTun = .ok file) →
      (Tun.create order calls name).RequestsWell (utf8 name) (createFlags order)

/-- Once the socket is open, so does `set_up`. -/
def SetUpWellFormed (name : String) : Prop :=
  ∀ (order : ByteOrder) (fds : Finset Nat) (calls : SetUpCalls fds),
    (∃ fd, calls.socket = .ok fd) →
      (setUp order calls name).RequestsWell (utf8 name) (calls.flags order)

section Calls

variable (order : ByteOrder) {fds : Finset Nat} {name : String}

/-- The closure hands over well-formed requests when the name has at most 15 bytes. -/
theorem requestUp_wellFormed {calls : SetUpCalls fds} {cname : List UInt8}
    (h : cname.length ≤ 15) :
    (∃ result, (requestUp order calls name cname).1 = .ok result) ∧
      (requestUp order calls name cname).2 ≠ [] ∧
      ∀ r ∈ (requestUp order calls name cname).2,
        WellFormedRequest cname (calls.flags order r.code) r.bytes := by
  have hget : WellFormedRequest cname (calls.flags order .getIfFlags) (namedRequest cname) :=
    wellFormed_namedRequest h
  rw [requestUp_eq (by omega)]
  cases hflags : calls.getIfFlags with
  | error e =>
    refine ⟨⟨_, rfl⟩, by simp, ?_⟩
    intro r hr
    obtain rfl := List.mem_singleton.mp hr
    exact hget
  | ok current =>
    have hset : WellFormedRequest cname (calls.flags order .setIfFlags)
        (upRequest order cname current) := by
      rw [SetUpCalls.flags, hflags]
      exact wellFormed_splice h (order.length_toNeBytes 2 _)
    refine ⟨⟨_, rfl⟩, by simp, ?_⟩
    intro r hr
    rcases List.mem_cons.mp hr with rfl | hr
    · exact hget
    · obtain rfl := List.mem_singleton.mp hr
      exact hset

end Calls

/-- `Tun::create` is well behaved exactly on the names that fit with their terminator. -/
theorem createWellFormed_iff (name : String) :
    CreateWellFormed name ↔ 0 ∈ utf8 name ∨ (utf8 name).length ≤ 15 := by
  constructor
  · intro h
    by_contra hcon
    obtain ⟨hnul, hlong⟩ := not_or.mp hcon
    let calls : CreateCalls ∅ := ⟨.ok ⟨3, Finset.notMem_empty 3⟩, .ok ⟨List.replicate 16 0, rfl⟩⟩
    have hopen : ∃ file, calls.openTun = .ok file := ⟨_, rfl⟩
    obtain ⟨result, houtcome, hwell⟩ := h .little ∅ calls hopen
    rcases Nat.lt_or_ge 16 (utf8 name).length with hpanic | hfit
    · rw [Tun.create_panics .little hnul hpanic hopen] at houtcome
      exact absurd houtcome (by simp)
    · obtain ⟨result', houtcome', hok⟩ := Tun.outcome_create .little hnul hfit hopen
      obtain ⟨tun, rfl⟩ := hok ⟨_, rfl⟩
      obtain rfl := Except.ok.inj (houtcome.symm.trans houtcome')
      rcases hwell with ⟨e, he⟩ | ⟨_, hwell⟩
      · exact absurd he (by simp)
      · rw [Tun.requests_create .little hnul hfit hopen] at hwell
        have hlt := (hwell _ List.mem_cons_self).length_lt
        omega
  · intro h order fds calls hopen
    by_cases hnul : 0 ∈ utf8 name
    · exact ⟨_, by rw [Tun.create, cString_eq_none hnul], .inl ⟨_, rfl⟩⟩
    · have hshort := h.resolve_left hnul
      obtain ⟨result, houtcome, _⟩ :=
        Tun.outcome_create order hnul (by omega) hopen
      refine ⟨result, houtcome, .inr ?_⟩
      rw [Tun.requests_create order hnul (by omega) hopen]
      refine ⟨by simp, ?_⟩
      intro r hr
      obtain rfl := List.mem_singleton.mp hr
      exact wellFormed_splice hshort (order.length_toNeBytes 2 _)

/-- So is `set_up`, which panics on fewer of the others. -/
theorem setUpWellFormed_iff (name : String) :
    SetUpWellFormed name ↔ 0 ∈ utf8 name ∨ (utf8 name).length ≤ 15 := by
  constructor
  · intro h
    by_contra hcon
    obtain ⟨hnul, hlong⟩ := not_or.mp hcon
    let calls : SetUpCalls ∅ := ⟨.ok ⟨3, Finset.notMem_empty 3⟩, .ok 0, .ok ()⟩
    have hopen : ∃ fd, calls.socket = .ok fd := ⟨_, rfl⟩
    obtain ⟨result, houtcome, hwell⟩ := h .little ∅ calls hopen
    obtain ⟨hended, hrequests⟩ := setUp_eq .little hnul hopen
    rw [hended] at houtcome
    rw [hrequests] at hwell
    rcases Nat.lt_or_ge 40 (utf8 name).length with hpanic | hfit
    · rw [requestUp_panics hpanic] at houtcome
      exact absurd houtcome (by simp)
    · rw [requestUp_eq hfit] at houtcome hwell
      obtain rfl := Except.ok.inj houtcome
      rcases hwell with ⟨e, he⟩ | ⟨_, hwell⟩
      · exact absurd he (by simp [calls])
      · have hlt := (hwell _ List.mem_cons_self).length_lt
        omega
  · intro h order fds calls hopen
    by_cases hnul : 0 ∈ utf8 name
    · exact ⟨_, by rw [setUp, cString_eq_none hnul], .inl ⟨_, rfl⟩⟩
    · obtain ⟨hended, hrequests⟩ := setUp_eq order hnul hopen
      obtain ⟨⟨result, hresult⟩, hwell⟩ :=
        requestUp_wellFormed order (h.resolve_left hnul)
      refine ⟨result, hended.trans hresult, .inr ?_⟩
      rw [hrequests]
      exact hwell

/-- For every name, both calls only hand over well-formed requests exactly when it contains a NUL
byte, which they refuse, or fits the name field with its terminator. -/
theorem interfaceRequests_iff (name : String) :
    (CreateWellFormed name ↔ 0 ∈ utf8 name ∨ (utf8 name).length ≤ 15) ∧
      (SetUpWellFormed name ↔ 0 ∈ utf8 name ∨ (utf8 name).length ≤ 15) :=
  ⟨createWellFormed_iff name, setUpWellFormed_iff name⟩

/-- A name of 17 bytes: one call panics, and the other one's name runs into the flags. -/
theorem interfaceRequests_overlap :
    (∀ calls : CreateCalls ∅, (∃ file, calls.openTun = .ok file) →
      (Tun.create .little calls "netmux-uplink-001").outcome = .error .indexOutOfBounds) ∧
    (∀ calls : SetUpCalls ∅, (∃ fd, calls.socket = .ok fd) →
      ∃ r ∈ (setUp .little calls "netmux-uplink-001").requests, r.bytes[16]? = some 0x31) ∧
    ¬ CreateWellFormed "netmux-uplink-001" ∧ ¬ SetUpWellFormed "netmux-uplink-001" := by
  have hnul : 0 ∉ utf8 "netmux-uplink-001" := by decide +kernel
  have hlength : (utf8 "netmux-uplink-001").length = 17 := by decide +kernel
  have hbyte : (namedRequest (utf8 "netmux-uplink-001"))[16]? = some 0x31 := by decide +kernel
  refine ⟨?_, ?_, ?_, ?_⟩
  · intro calls hopen
    exact Tun.create_panics .little hnul (by omega) hopen
  · intro calls hopen
    rw [(setUp_eq .little hnul hopen).2, requestUp_eq (by omega)]
    cases calls.getIfFlags with
    | error e => exact ⟨_, List.mem_cons_self, hbyte⟩
    | ok current => exact ⟨_, List.mem_cons_self, hbyte⟩
  · rw [createWellFormed_iff]
    exact not_or.mpr ⟨hnul, by omega⟩
  · rw [setUpWellFormed_iff]
    exact not_or.mpr ⟨hnul, by omega⟩

end Netmux
