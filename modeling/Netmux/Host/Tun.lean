import Netmux.Error
import Netmux.Lib.ByteOrder
import Netmux.Lib.Bytes
import Netmux.Lib.Utf8
import Mathlib.Data.Finset.Basic

/-!
# The TUN device

`Tun.create` and `setUp` name an interface to the kernel in a request of 40 bytes: the name in
the first 16, the flags behind it. The answers of the system calls are parameters, and a call
ends with the requests it handed over and the descriptors it left open.
-/

namespace Netmux

/-! ## Calls to the kernel -/

/-- The answer to a call that opens a descriptor: an error number, or one that was not open. -/
abbrev Opened (fds : Finset Nat) := Except Nat {fd : Nat // fd ∉ fds}

/-- The requests on interfaces. -/
inductive IfRequestCode where
  | tunSetIff
  | getIfFlags
  | setIfFlags
  deriving DecidableEq, Repr

/-- A request as it is handed to the kernel. -/
structure IfRequest where
  code : IfRequestCode
  bytes : List UInt8
  deriving DecidableEq, Repr

/-- How a call ended: its outcome, the requests it handed over, and what is open behind it. -/
structure Ended (α : Type) where
  outcome : Checked (Except NetmuxError α)
  requests : List IfRequest
  fds : Finset Nat

/-- `ErrorKind::PermissionDenied`: `EPERM` or `EACCES`. -/
def permissionDenied (e : Nat) : Bool := e == 1 || e == 13

/-! ## The requests -/

def iffTun : Nat := 0x0001
def iffNoPi : Nat := 0x1000
def iffUp : Nat := 0x0001

/-- A zeroed `struct ifreq`. -/
def emptyIfreq : List UInt8 := List.replicate 40 0

/-- An opened TUN device. -/
structure Tun where
  file : Nat
  name : String
  deriving DecidableEq, Repr

/-- The request of `Tun::create`. -/
def createRequest (order : ByteOrder) (ifname : List UInt8) : Checked (List UInt8) := do
  let ifr ← Checked.copyFromSlice emptyIfreq 0 ifname.length
    (ifname.take (min 16 ifname.length))
  Checked.copyFromSlice ifr 16 18 (order.toNeBytes 2 (iffTun ||| iffNoPi))

/-- The advice for a process without the capability. -/
def tunSetIffDenied : String :=
  "ioctl(TUNSETIFF) needs CAP_NET_ADMIN — run as root, or grant: " ++
    "sudo setcap cap_net_admin+ep <netmux-app>"

/-- The answers `Tun::create` gets; with the last one the kernel fills in the name field. -/
structure CreateCalls (fds : Finset Nat) where
  openTun : Opened fds
  tunSetIff : Except Nat {assigned : List UInt8 // assigned.length = 16}

/-- Create a TUN device. The file is closed when it is dropped, also by a panic. -/
def Tun.create (order : ByteOrder) {fds : Finset Nat} (calls : CreateCalls fds) (name : String) :
    Ended Tun :=
  match cString name with
  | none => ⟨.ok (.error (.config "interface name contains NUL byte")), [], fds⟩
  | some ifname =>
    match calls.openTun with
    | .error e =>
      ⟨.ok (.error (if permissionDenied e then
        .permission "cannot open /dev/net/tun — run as root or grant CAP_NET_ADMIN"
      else .io "opening /dev/net/tun" e)), [], fds⟩
    | .ok file =>
      match createRequest order ifname with
      | .error p => ⟨.error p, [], (insert file.val fds).erase file⟩
      | .ok ifr =>
        match calls.tunSetIff with
        | .error e =>
          ⟨.ok (.error (if permissionDenied e then .permission tunSetIffDenied
          else .io ("ioctl(TUNSETIFF) for " ++ name) e)),
            [⟨.tunSetIff, ifr⟩], (insert file.val fds).erase file⟩
        | .ok assigned =>
          let ifr' := splice ifr 0 assigned.val
          ⟨.ok (.ok ⟨file, fromUtf8Lossy ((ifr'.take 16).takeWhile (· != 0))⟩),
            [⟨.tunSetIff, ifr⟩], insert file.val fds⟩

/-- The answers `set_up` gets; with the second one the kernel fills in the flag word. -/
structure SetUpCalls (fds : Finset Nat) where
  socket : Opened fds
  getIfFlags : Except Nat UInt16
  setIfFlags : Except Nat Unit

/-- The closure of `set_up`. -/
def requestUp (order : ByteOrder) {fds : Finset Nat} (calls : SetUpCalls fds) (name : String)
    (cname : List UInt8) : Checked (Except NetmuxError Unit) × List IfRequest :=
  match Checked.copyFromSlice emptyIfreq 0 cname.length cname with
  | .error p => (.error p, [])
  | .ok ifr =>
    match calls.getIfFlags with
    | .error e =>
      (.ok (.error (.io ("ioctl(SIOCGIFFLAGS) for " ++ name) e)), [⟨.getIfFlags, ifr⟩])
    | .ok current =>
      let ifr' := splice ifr 16 (order.toNeBytes 2 current.toNat)
      let flags := order.fromNeBytes [byteAt ifr' 16, byteAt ifr' 17] ||| iffUp
      match Checked.copyFromSlice ifr' 16 18 (order.toNeBytes 2 flags) with
      | .error p => (.error p, [⟨.getIfFlags, ifr⟩])
      | .ok ifr'' =>
        match calls.setIfFlags with
        | .error e =>
          (.ok (.error (.io ("ioctl(SIOCSIFFLAGS) for " ++ name) e)),
            [⟨.getIfFlags, ifr⟩, ⟨.setIfFlags, ifr''⟩])
        | .ok () => (.ok (.ok ()), [⟨.getIfFlags, ifr⟩, ⟨.setIfFlags, ifr''⟩])

/-- Bring the interface administratively up. -/
def setUp (order : ByteOrder) {fds : Finset Nat} (calls : SetUpCalls fds) (name : String) :
    Ended Unit :=
  match cString name with
  | none => ⟨.ok (.error (.config "interface name contains NUL byte")), [], fds⟩
  | some cname =>
    match calls.socket with
    | .error e => ⟨.ok (.error (.io "socket(AF_INET, SOCK_DGRAM)" e)), [], fds⟩
    | .ok fd =>
      match requestUp order calls name cname with
      -- The panic leaves the function in front of `close`, and a number has no destructor.
      | (.error p, requests) => ⟨.error p, requests, insert fd.val fds⟩
      | (.ok result, requests) => ⟨.ok result, requests, (insert fd.val fds).erase fd⟩

/-! ## What the requests look like -/

/-- A name in front of zeros. -/
def namedRequest (name : List UInt8) : List UInt8 := name ++ List.replicate (40 - name.length) 0

theorem splice_emptyIfreq (name : List UInt8) : splice emptyIfreq 0 name = namedRequest name := by
  rw [splice, emptyIfreq, namedRequest, List.take_zero, List.nil_append, Nat.zero_add,
    List.drop_replicate]

/-- The name is copied in when it is no longer than the request. -/
theorem copyName_eq {name : List UInt8} (h : name.length ≤ 40) :
    Checked.copyFromSlice emptyIfreq 0 name.length name = .ok (namedRequest name) := by
  rw [copyFromSlice_eq_splice (Nat.zero_add _).symm h, splice_emptyIfreq]

/-- A copy of another length panics. -/
theorem copyFromSlice_panics {xs ys : List UInt8} {b : Nat} (h : xs.length < b ∨ ys.length < b) :
    Checked.copyFromSlice xs 0 b ys = .error .indexOutOfBounds := by
  rw [Checked.copyFromSlice, if_neg (by omega)]

theorem length_namedRequest {name : List UInt8} (h : name.length ≤ 40) :
    (namedRequest name).length = 40 := by
  rw [namedRequest, List.length_append, List.length_replicate]
  omega

/-- The request of `Tun::create` is its name and its flags when the name has at most 16 bytes. -/
theorem createRequest_eq {order : ByteOrder} {ifname : List UInt8} (h : ifname.length ≤ 16) :
    createRequest order ifname =
      .ok (splice (namedRequest ifname) 16 (order.toNeBytes 2 (iffTun ||| iffNoPi))) := by
  have hflags := order.length_toNeBytes 2 (iffTun ||| iffNoPi)
  have hlength : (namedRequest ifname).length = 40 := length_namedRequest (by omega)
  rw [createRequest, Nat.min_eq_right h, List.take_length, copyName_eq (by omega), Checked.ok_bind,
    copyFromSlice_eq_splice (by rw [hflags]) (by rw [hlength]; decide)]

/-- For a longer one the source of the copy is shorter than its target. -/
theorem createRequest_panics {order : ByteOrder} {ifname : List UInt8} (h : 16 < ifname.length) :
    createRequest order ifname = .error .indexOutOfBounds := by
  have hshort : (ifname.take (min 16 ifname.length)).length < ifname.length := by
    rw [List.length_take]
    omega
  rw [createRequest, copyFromSlice_panics (.inr hshort), Checked.error_bind]

/-- The flags that `set_up` reads are the ones the kernel filled in. -/
theorem readFlags_eq (order : ByteOrder) {ifr : List UInt8} (h : 18 ≤ ifr.length) (flags : UInt16) :
    order.fromNeBytes [byteAt (splice ifr 16 (order.toNeBytes 2 flags.toNat)) 16,
      byteAt (splice ifr 16 (order.toNeBytes 2 flags.toNat)) 17] = flags.toNat := by
  have hlength := order.length_toNeBytes 2 flags.toNat
  have hread := order.fromNeBytes_toNeBytes (w := 2) flags.toNat_lt
  generalize order.toNeBytes 2 flags.toNat = image at hlength hread
  obtain ⟨a, b, rfl⟩ := List.length_eq_two.mp hlength
  have hfirst : 16 < 16 + [a, b].length := Nat.lt_add_of_pos_right Nat.two_pos
  have hsecond : 17 < 16 + [a, b].length := Nat.lt_succ_self 17
  rw [byteAt, byteAt, getElem?_splice_of_in h (by decide) hfirst,
    getElem?_splice_of_in h (by decide) hsecond]
  exact hread

/-- The second request of `set_up`. -/
def upRequest (order : ByteOrder) (cname : List UInt8) (current : UInt16) : List UInt8 :=
  splice (namedRequest cname) 16 (order.toNeBytes 2 (current.toNat ||| iffUp))

/-- A name that fits the request gets it through the closure, as far as the kernel lets it. -/
theorem requestUp_eq {order : ByteOrder} {fds : Finset Nat} {calls : SetUpCalls fds} {name : String}
    {cname : List UInt8} (h : cname.length ≤ 40) :
    requestUp order calls name cname =
      match calls.getIfFlags with
      | .error e => (.ok (.error (.io ("ioctl(SIOCGIFFLAGS) for " ++ name) e)),
          [⟨.getIfFlags, namedRequest cname⟩])
      | .ok current =>
        (.ok (match calls.setIfFlags with
          | .error e => .error (.io ("ioctl(SIOCSIFFLAGS) for " ++ name) e)
          | .ok () => .ok ()),
          [⟨.getIfFlags, namedRequest cname⟩, ⟨.setIfFlags, upRequest order cname current⟩]) := by
  have hlength := length_namedRequest h
  rw [requestUp, copyName_eq h]
  cases calls.getIfFlags with
  | error e => rfl
  | ok current =>
    have himage := order.length_toNeBytes 2 current.toNat
    have hwritten := order.length_toNeBytes 2 (current.toNat ||| iffUp)
    have hroom : 16 + (order.toNeBytes 2 current.toNat).length ≤ (namedRequest cname).length := by
      omega
    have hcopy : Checked.copyFromSlice
        (splice (namedRequest cname) 16 (order.toNeBytes 2 current.toNat)) 16 18
        (order.toNeBytes 2 (current.toNat ||| iffUp)) = .ok (upRequest order cname current) := by
      rw [copyFromSlice_eq_splice (by rw [hwritten]) (by rw [length_splice hroom]; omega),
        splice_splice_same hroom (by rw [hwritten, himage]), upRequest]
    simp only [readFlags_eq order (show 18 ≤ (namedRequest cname).length by omega),
      hcopy]
    cases calls.setIfFlags with
    | error e => rfl
    | ok done => rfl

/-- A longer one does not reach the kernel. -/
theorem requestUp_panics {order : ByteOrder} {fds : Finset Nat} {calls : SetUpCalls fds}
    {name : String} {cname : List UInt8} (h : 40 < cname.length) :
    requestUp order calls name cname = (.error .indexOutOfBounds, []) := by
  rw [requestUp, copyFromSlice_panics (.inl h)]

section Calls

variable (order : ByteOrder) {fds : Finset Nat} {name : String}

/-- A name of at most 16 bytes is handed to the kernel. -/
theorem Tun.requests_create {calls : CreateCalls fds} (hnul : 0 ∉ utf8 name)
    (hfit : (utf8 name).length ≤ 16) (hopen : ∃ file, calls.openTun = .ok file) :
    (Tun.create order calls name).requests =
      [⟨.tunSetIff, splice (namedRequest (utf8 name)) 16
        (order.toNeBytes 2 (iffTun ||| iffNoPi))⟩] := by
  obtain ⟨file, hfile⟩ := hopen
  simp only [Tun.create, cString_eq_some hnul, hfile, createRequest_eq hfit]
  cases calls.tunSetIff with
  | error e => rfl
  | ok assigned => rfl

/-- The call returns then, without an error when the kernel agrees. -/
theorem Tun.outcome_create {calls : CreateCalls fds} (hnul : 0 ∉ utf8 name)
    (hfit : (utf8 name).length ≤ 16) (hopen : ∃ file, calls.openTun = .ok file) :
    ∃ result, (Tun.create order calls name).outcome = .ok result ∧
      ((∃ assigned, calls.tunSetIff = .ok assigned) → ∃ tun, result = .ok tun) := by
  obtain ⟨file, hfile⟩ := hopen
  cases hset : calls.tunSetIff with
  | error e =>
    simp only [Tun.create, cString_eq_some hnul, hfile, createRequest_eq hfit, hset,
      Except.ok.injEq, exists_eq_left']
    rintro ⟨assigned, hassigned⟩
    exact absurd hassigned (by simp)
  | ok assigned =>
    simp only [Tun.create, cString_eq_some hnul, hfile, createRequest_eq hfit, hset,
      Except.ok.injEq, exists_eq_left']
    exact fun _ => ⟨_, rfl⟩

/-- A longer one panics in front of the request. -/
theorem Tun.create_panics {calls : CreateCalls fds} (hnul : 0 ∉ utf8 name)
    (hlong : 16 < (utf8 name).length) (hopen : ∃ file, calls.openTun = .ok file) :
    (Tun.create order calls name).outcome = .error .indexOutOfBounds := by
  obtain ⟨file, hfile⟩ := hopen
  simp only [Tun.create, cString_eq_some hnul, hfile, createRequest_panics hlong]

/-- `set_up` ends as its closure does. -/
theorem setUp_eq {calls : SetUpCalls fds} (hnul : 0 ∉ utf8 name)
    (hopen : ∃ fd, calls.socket = .ok fd) :
    (setUp order calls name).outcome = (requestUp order calls name (utf8 name)).1 ∧
      (setUp order calls name).requests = (requestUp order calls name (utf8 name)).2 := by
  obtain ⟨fd, hfd⟩ := hopen
  simp only [setUp, cString_eq_some hnul, hfd]
  obtain ⟨outcome, requests⟩ := requestUp order calls name (utf8 name)
  cases outcome with
  | error p => exact ⟨rfl, rfl⟩
  | ok result => exact ⟨rfl, rfl⟩

/-- When the kernel assigns the name it was asked for, the device carries it. -/
theorem Tun.name_create {calls : CreateCalls fds} (hnul : 0 ∉ utf8 name)
    (hfit : (utf8 name).length ≤ 15) {file : {fd : Nat // fd ∉ fds}}
    (hopen : calls.openTun = .ok file) {assigned : {field : List UInt8 // field.length = 16}}
    (hset : calls.tunSetIff = .ok assigned)
    (hname : assigned.val = utf8 name ++ List.replicate (16 - (utf8 name).length) 0) :
    (Tun.create order calls name).outcome = .ok (.ok ⟨file, name⟩) := by
  have hfield (ifr : List UInt8) : (splice ifr 0 assigned.val).take 16 = assigned.val := by
    rw [splice, List.take_zero, List.nil_append, List.take_left' assigned.property]
  have hcreate : createRequest order (utf8 name) =
      .ok (splice (namedRequest (utf8 name)) 16 (order.toNeBytes 2 (iffTun ||| iffNoPi))) :=
    createRequest_eq (by omega)
  have hread : assigned.val.takeWhile (· != 0) = utf8 name := by
    rw [hname, List.takeWhile_append_of_pos]
    · rw [List.takeWhile_replicate_eq_filter]
      simp
    · intro b hb
      exact bne_iff_ne.mpr (fun hzero => hnul (hzero ▸ hb))
  simp only [Tun.create, cString_eq_some hnul, hopen,
    hcreate, hset, hfield, hread, fromUtf8Lossy_utf8]

end Calls

end Netmux
