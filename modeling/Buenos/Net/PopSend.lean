/-
# Net.PopSend -- socket_sendto and the frame layer below it

net/network.c's MTU and sending functions and pop.c's `socket_sendto`.  The interface table
is followed by other memory: a scan that goes on past the last entry leaves the table.
`network_get_mtu` stops at an entry without a device, so with a full table it never stops in
time; with an empty one it answers with a sentinel one larger than a page.

A call of `network_send` is noted before its assertion.  What the devices, the page pool and
the protocol's frame handler answer is given.  The two semaphores of `socket_sendto` are left
out: one call is looked at, and it holds neither of them while it computes the size.
-/
import Buenos.Net.PopTransfer
import Buenos.Theory.Prog

namespace Buenos.Net

open Buenos.Lib Buenos.Theory
open Buenos.Vm (PAGE_SIZE)

set_option autoImplicit false

def CONFIG_MAX_GNDS : Nat := 4
def NETWORK_MAX_MTU : Nat := 4096
def NETWORK_BROADCAST_ADDRESS : NetworkAddress := 0xffffffff
def NETWORK_LOOPBACK_ADDRESS : NetworkAddress := 0

def NET_OK : Int := 0
def NET_ERROR : Int := -1
def NET_DOESNT_EXIST : Int := -2

/-- An entry of `network_interfaces`; `gnd` says whether its device is there. -/
structure Interface where
  address : NetworkAddress
  mtu : BitVec 32
  gnd : Bool

/-- A call of `network_send` for a POP packet; the buffer starts with the POP header. -/
structure Packet where
  source : NetworkAddress
  destination : NetworkAddress
  protocolId : BitVec 32
  length : BitVec 32
  sourcePort : BitVec 16
  destPort : BitVec 16
  size : BitVec 32
  payload : List Byte

structure Network where
  interfaces : Nat → Interface
  sockets : Nat → SocketDescriptor
  /-- The calls of `network_send`, the last one first. -/
  sends : List Packet

/-- What the layers below answer: whether there is a page, whether the handler takes a frame,
whether a device sends it. -/
structure Carrier where
  page : Bool
  push : Bool
  send : Nat → Bool

/-- `network_interfaces[i]` -/
def interface (i : Nat) : Prog Network Interface := do
  Prog.assert (fun _ => i < CONFIG_MAX_GNDS) .outOfBounds
  Prog.gets fun s => s.interfaces i

/-- The loop for the smallest MTU from entry `i` on. -/
def smallestMtu : Nat → Nat → BitVec 32 → Prog Network (BitVec 32)
  | 0, _, _ => Prog.stop .outOfBounds
  | rounds + 1, i, min => do
      let n ← interface i
      if n.gnd then smallestMtu rounds (i + 1) (if n.mtu.slt min then n.mtu else min)
      else pure min

/-- The loop for the entry with a given address. -/
def mtuOf (address : NetworkAddress) : Nat → Nat → Prog Network (BitVec 32)
  | 0, _ => Prog.stop .outOfBounds
  | rounds + 1, i => do
      let n ← interface i
      if n.gnd then
        if n.address = address then pure (n.mtu - BitVec.ofNat 32 networkFrameHeaderSize)
        else mtuOf address rounds (i + 1)
      else pure 0

def networkGetMtu (localAddress : NetworkAddress) : Prog Network (BitVec 32) :=
  if localAddress = NETWORK_BROADCAST_ADDRESS then do
    let min ← smallestMtu (CONFIG_MAX_GNDS + 1) 0 (BitVec.ofNat 32 (NETWORK_MAX_MTU + 1))
    pure (min - BitVec.ofNat 32 networkFrameHeaderSize)
  else if localAddress = NETWORK_LOOPBACK_ADDRESS then
    pure (BitVec.ofNat 32 (PAGE_SIZE - networkFrameHeaderSize))
  else mtuOf localAddress (CONFIG_MAX_GNDS + 1) 0

def networkGetInterface (localAddress : NetworkAddress) (s : Network) : Option Nat :=
  (List.range CONFIG_MAX_GNDS).find? fun i => (s.interfaces i).address = localAddress

/-- The interfaces that a broadcast goes through. -/
def broadcastInterfaces (s : Network) : List Nat :=
  (List.range CONFIG_MAX_GNDS).takeWhile fun i => (s.interfaces i).gnd

def networkSend (carrier : Carrier) (packet : Packet) : Prog Network Int := do
  Prog.modify fun s => { s with sends := packet :: s.sends }
  Prog.assert (fun _ => 0 < packet.length.toInt &&
    packet.length.toInt ≤ (PAGE_SIZE - networkFrameHeaderSize : Nat)) .assertion
  if carrier.page = false then pure NET_ERROR
  else if packet.destination = NETWORK_LOOPBACK_ADDRESS then
    pure (if carrier.push then NET_OK else NET_ERROR)
  else if packet.source ≠ NETWORK_BROADCAST_ADDRESS then do
    let found ← Prog.gets (networkGetInterface packet.source)
    match found with
    | none => pure NET_DOESNT_EXIST
    | some i => pure (if carrier.send i then NET_OK else NET_ERROR)
  else do
    let all ← Prog.gets broadcastInterfaces
    pure (if all.all carrier.send then NET_OK else NET_ERROR)

/-- The macro, on unsigned operands. -/
def minUnsigned (a b : BitVec 32) : BitVec 32 := if a > b then b else a

/-- The size limited to the MTU or the page. -/
def limitSize (size mtu : BitVec 32) : BitVec 32 :=
  minUnsigned (minUnsigned size (mtu - BitVec.ofNat 32 popHeaderSize))
    (BitVec.ofNat 32 (PAGE_SIZE - popHeaderSize))

/-- `buf` is the memory at the buffer, or NULL. -/
def socketSendto (carrier : Carrier) (socket : Int) (addr : NetworkAddress) (dport : BitVec 16)
    (buf : Option (Nat → Byte)) (size : BitVec 32) : Prog Network Int := do
  Prog.assert (fun _ => 0 ≤ socket && socket < CONFIG_MAX_OPEN_SOCKETS) .assertion
  if dport = 0 then pure (-1)
  else do
    Prog.assert (fun _ => 1 ≤ size.toInt && buf.isSome) .assertion
    let mtu ← networkGetMtu NETWORK_BROADCAST_ADDRESS
    let size := limitSize size mtu
    let entry ← Prog.gets fun s => s.sockets socket.toNat
    if entry.protocol ≠ PROTOCOL_POP then pure (-1)
    else do
      let r ← networkSend carrier
        { source := NETWORK_BROADCAST_ADDRESS
          destination := addr
          protocolId := PROTOCOL_POP.setWidth 32
          length := size + BitVec.ofNat 32 popHeaderSize
          sourcePort := entry.port
          destPort := dport
          size := size
          payload := (List.range size.toInt.toNat).map (buf.getD fun _ => 0) }
      pure (if r ≠ NET_OK then -1 else size.toInt)

/-! ## What should hold -/

/-- `n` interfaces, and no device in the entries behind them. -/
structure Interfaces (s : Network) (n : Nat) : Prop where
  fits : n ≤ CONFIG_MAX_GNDS
  devices : ∀ i < n, (s.interfaces i).gnd = true
  mtus : ∀ i < n, 21 ≤ (s.interfaces i).mtu.toNat ∧ (s.interfaces i).mtu.toNat ≤ PAGE_SIZE
  rest : ∀ i, n ≤ i → i < CONFIG_MAX_GNDS → (s.interfaces i).gnd = false

/-- The call returns, and has sent one packet that fits a page and every interface. -/
def SendsSendable (carrier : Carrier) (s : Network) (n : Nat) (socket : Int)
    (addr : NetworkAddress) (dport : BitVec 16) (buf : Option (Nat → Byte)) (size : BitVec 32) :
    Prop :=
  (socketSendto carrier socket addr dport buf size).Ends s fun _ t =>
    ∃ packet, t.sends = packet :: s.sends ∧ 0 < packet.length.toInt ∧
      packet.length.toInt ≤ (PAGE_SIZE - networkFrameHeaderSize : Nat) ∧
        ∀ i < n, packet.length.toInt + networkFrameHeaderSize ≤ (s.interfaces i).mtu.toInt

/-! ## The smallest MTU -/

section Mtu

variable {s : Network} {n : Nat}

theorem interface_inside {i : Nat} (inside : i < CONFIG_MAX_GNDS) (s : Network) :
    interface i s = .returned (s.interfaces i, s) := by
  rw [interface, Prog.bind_assert_apply, if_pos (decide_eq_true inside)]
  rfl

theorem interface_outside {i : Nat} (outside : CONFIG_MAX_GNDS ≤ i) (s : Network) :
    interface i s = .stopped .outOfBounds := by
  rw [interface, Prog.bind_assert_apply, if_neg (by simpa using outside)]

/-- A bit vector below 2^31 is its own value as an `int`. -/
theorem slt_iff {a b : BitVec 32} (low : a.toNat < 2147483648) (low' : b.toNat < 2147483648) :
    a.slt b = true ↔ a.toNat < b.toNat := by
  rw [BitVec.slt_iff_toInt_lt, BitVec.toInt_eq_toNat_of_lt (by omega),
    BitVec.toInt_eq_toNat_of_lt (by omega)]
  omega

/-- The scan stops at the first entry without a device. -/
theorem smallestMtu_ran (interfaces : Interfaces s n) (short : n < CONFIG_MAX_GNDS)
    (rounds i : Nat) (min : BitVec 32) (le : i ≤ n) (enough : n < i + rounds)
    (low : 21 ≤ min.toNat) (high : min.toNat ≤ 4097) :
    ∃ m, smallestMtu rounds i min s = .returned (m, s) ∧ 21 ≤ m.toNat ∧ m.toNat ≤ min.toNat ∧
      (i = n → m = min) ∧ ∀ j, i ≤ j → j < n → m.toNat ≤ (s.interfaces j).mtu.toNat := by
  induction rounds generalizing i min with
  | zero => omega
  | succ rounds ih =>
      rw [smallestMtu, Prog.bind_of_returned (interface_inside (by omega) s)]
      by_cases last : i = n
      · subst last
        rw [if_neg (by simp [interfaces.rest i (Nat.le_refl i) short])]
        exact ⟨min, rfl, low, Nat.le_refl _, fun _ => rfl, fun j above below => by omega⟩
      · obtain ⟨floor, ceiling⟩ := interfaces.mtus i (by omega)
        change _ ≤ 4096 at ceiling
        rw [if_pos (interfaces.devices i (by omega))]
        have less := slt_iff (a := (s.interfaces i).mtu) (b := min) (by omega) (by omega)
        -- the smaller of the two goes on
        obtain ⟨next, chosen, bound, bound', floor'⟩ : ∃ next : BitVec 32,
            (if (s.interfaces i).mtu.slt min then (s.interfaces i).mtu else min) = next ∧
              next.toNat ≤ min.toNat ∧ next.toNat ≤ (s.interfaces i).mtu.toNat ∧
                21 ≤ next.toNat := by
          by_cases smaller : (s.interfaces i).mtu.toNat < min.toNat
          · exact ⟨_, if_pos (less.2 smaller), Nat.le_of_lt smaller, Nat.le_refl _, floor⟩
          · exact ⟨_, if_neg (mt less.1 smaller), Nat.le_refl _, Nat.le_of_not_lt smaller, low⟩
        rw [chosen]
        obtain ⟨m, ran, least, below, -, all⟩ :=
          ih (i + 1) next (by omega) (by omega) floor' (by omega)
        refine ⟨m, ran, least, by omega, fun same => absurd same last, fun j above less => ?_⟩
        by_cases here : j = i
        · subst here
          omega
        · exact all j (by omega) less

/-- With a full table the scan goes on behind it. -/
theorem smallestMtu_full (full : ∀ i < CONFIG_MAX_GNDS, (s.interfaces i).gnd = true)
    (rounds i : Nat) (min : BitVec 32) :
    smallestMtu rounds i min s = .stopped .outOfBounds := by
  induction rounds generalizing i min with
  | zero => rfl
  | succ rounds ih =>
      rw [smallestMtu]
      by_cases inside : i < CONFIG_MAX_GNDS
      · rw [Prog.bind_of_returned (interface_inside inside s), if_pos (full i inside)]
        exact ih _ _
      · exact Prog.bind_of_stopped (interface_outside (Nat.le_of_not_lt inside) s)

theorem networkGetMtu_broadcast (interfaces : Interfaces s n) (short : n < CONFIG_MAX_GNDS) :
    ∃ m : BitVec 32, networkGetMtu NETWORK_BROADCAST_ADDRESS s =
        .returned (m - BitVec.ofNat 32 networkFrameHeaderSize, s) ∧ 21 ≤ m.toNat ∧
      (n = 0 → m.toNat = 4097) ∧ (0 < n → m.toNat ≤ 4096) ∧
        ∀ i < n, m.toNat ≤ (s.interfaces i).mtu.toNat := by
  obtain ⟨m, ran, least, -, none_, all⟩ := smallestMtu_ran interfaces short
    (CONFIG_MAX_GNDS + 1) 0 (BitVec.ofNat 32 (NETWORK_MAX_MTU + 1)) (Nat.zero_le n) (by omega)
    (by decide) (by decide)
  refine ⟨m, ?_, least, fun empty => ?_, fun some_ => ?_, fun i less => all i (Nat.zero_le i) less⟩
  · rw [networkGetMtu, if_pos rfl, Prog.bind_of_returned ran]
    rfl
  · rw [none_ empty.symm]
    rfl
  · have first := all 0 (Nat.le_refl 0) some_
    have bound := (interfaces.mtus 0 some_).2
    change _ ≤ 4096 at bound
    omega

end Mtu

/-! ## The size and the packet -/

section Size

theorem toNat_minUnsigned (a b : BitVec 32) :
    (minUnsigned a b).toNat = min a.toNat b.toNat := by
  rw [minUnsigned]
  by_cases above : b.toNat < a.toNat
  · rw [if_pos (show a > b from above), Nat.min_eq_right (Nat.le_of_lt above)]
  · rw [if_neg (show ¬ a > b from above), Nat.min_eq_left (Nat.le_of_not_lt above)]

/-- The size that goes into the packet, as a number. -/
theorem toNat_limitSize (size m : BitVec 32) (least : 21 ≤ m.toNat) (most : m.toNat ≤ 4097) :
    (limitSize size (m - BitVec.ofNat 32 networkFrameHeaderSize)).toNat =
      min size.toNat (m.toNat - 20) := by
  have frame : (BitVec.ofNat 32 networkFrameHeaderSize).toNat = 12 := by decide
  have header : (BitVec.ofNat 32 popHeaderSize).toNat = 8 := by decide
  have page : (BitVec.ofNat 32 (PAGE_SIZE - popHeaderSize)).toNat = 4088 := by decide
  have room : (m - BitVec.ofNat 32 networkFrameHeaderSize -
      BitVec.ofNat 32 popHeaderSize).toNat = m.toNat - 20 := by
    rw [BitVec.toNat_sub, BitVec.toNat_sub, frame, header]
    omega
  rw [limitSize, toNat_minUnsigned, toNat_minUnsigned, room, page]
  omega

/-- What `network_send` asserts of the length. -/
def FitsPage (length : BitVec 32) : Prop :=
  0 < length.toInt ∧ length.toInt ≤ (PAGE_SIZE - networkFrameHeaderSize : Nat)

/-- After its assertion `network_send` returns, whatever the layers below answer. -/
theorem networkSend_returns (carrier : Carrier) (packet : Packet) (s : Network)
    (fits : FitsPage packet.length) :
    ∃ r, networkSend carrier packet s =
      .returned (r, { s with sends := packet :: s.sends }) := by
  have asserted : (0 < packet.length.toInt &&
      packet.length.toInt ≤ (PAGE_SIZE - networkFrameHeaderSize : Nat)) = true := by
    simpa [FitsPage] using fits
  rw [networkSend, Prog.bind_modify_apply, Prog.bind_assert_apply, if_pos (by exact asserted)]
  by_cases page : carrier.page = false
  · exact ⟨_, by rw [if_pos page]; rfl⟩
  rw [if_neg page]
  by_cases loopback : packet.destination = NETWORK_LOOPBACK_ADDRESS
  · exact ⟨_, by rw [if_pos loopback]; rfl⟩
  rw [if_neg loopback]
  by_cases broadcast : packet.source = NETWORK_BROADCAST_ADDRESS
  · exact ⟨_, by rw [if_neg (not_not_intro broadcast)]; rfl⟩
  rw [if_pos broadcast, Prog.bind_gets_apply]
  cases networkGetInterface packet.source { s with sends := packet :: s.sends } with
  | none => exact ⟨_, rfl⟩
  | some i => exact ⟨_, rfl⟩

theorem networkSend_stops (carrier : Carrier) (packet : Packet) (s : Network)
    (unfit : ¬ FitsPage packet.length) :
    networkSend carrier packet s = .stopped .assertion := by
  have asserted : ¬ (0 < packet.length.toInt &&
      packet.length.toInt ≤ (PAGE_SIZE - networkFrameHeaderSize : Nat)) = true := by
    simpa [FitsPage] using unfit
  rw [networkSend, Prog.bind_modify_apply, Prog.bind_assert_apply, if_neg (by exact asserted)]

end Size

/-! ## A whole call -/

section Call

variable {carrier : Carrier} {s : Network} {n : Nat} {socket : Int} {addr : NetworkAddress}
  {dport : BitVec 16} {buf : Option (Nat → Byte)} {size : BitVec 32}

/-- The packet of a call, once the size is limited. -/
def packetOf (s : Network) (socket : Int) (addr : NetworkAddress) (dport : BitVec 16)
    (buf : Option (Nat → Byte)) (size : BitVec 32) : Packet where
  source := NETWORK_BROADCAST_ADDRESS
  destination := addr
  protocolId := PROTOCOL_POP.setWidth 32
  length := size + BitVec.ofNat 32 popHeaderSize
  sourcePort := (s.sockets socket.toNat).port
  destPort := dport
  size := size
  payload := (List.range size.toInt.toNat).map (buf.getD fun _ => 0)

/-- A call on an open POP socket is the search for the smallest MTU and one `network_send`. -/
theorem socketSendto_apply (carrier : Carrier) (addr : NetworkAddress)
    (socketInside : 0 ≤ socket ∧ socket < CONFIG_MAX_OPEN_SOCKETS)
    (pop : (s.sockets socket.toNat).protocol = PROTOCOL_POP) (dportNonzero : dport ≠ 0)
    (bufGiven : buf.isSome = true) (positive : 1 ≤ size.toInt) {mtu : BitVec 32}
    (ran : networkGetMtu NETWORK_BROADCAST_ADDRESS s = .returned (mtu, s)) :
    socketSendto carrier socket addr dport buf size s =
      (networkSend carrier (packetOf s socket addr dport buf (limitSize size mtu)) >>= fun r =>
        pure (if r ≠ NET_OK then -1 else (limitSize size mtu).toInt)) s := by
  have inside : (0 ≤ socket && socket < CONFIG_MAX_OPEN_SOCKETS) = true := by
    simpa using socketInside
  have given : (1 ≤ size.toInt && buf.isSome) = true := by
    simpa [bufGiven] using positive
  rw [socketSendto, Prog.bind_assert_apply, if_pos (by exact inside), if_neg dportNonzero,
    Prog.bind_assert_apply, if_pos (by exact given), Prog.bind_of_returned ran,
    Prog.bind_gets_apply, if_neg (not_not_intro pop)]
  rfl

/-- When the search for the MTU stops, so does the call. -/
theorem socketSendto_stops (carrier : Carrier) (addr : NetworkAddress)
    (socketInside : 0 ≤ socket ∧ socket < CONFIG_MAX_OPEN_SOCKETS) (dportNonzero : dport ≠ 0)
    (bufGiven : buf.isSome = true) (positive : 1 ≤ size.toInt) {why : Stop}
    (stopped : networkGetMtu NETWORK_BROADCAST_ADDRESS s = .stopped why) :
    socketSendto carrier socket addr dport buf size s = .stopped why := by
  have inside : (0 ≤ socket && socket < CONFIG_MAX_OPEN_SOCKETS) = true := by
    simpa using socketInside
  have given : (1 ≤ size.toInt && buf.isSome) = true := by
    simpa [bufGiven] using positive
  rw [socketSendto, Prog.bind_assert_apply, if_pos (by exact inside), if_neg dportNonzero,
    Prog.bind_assert_apply, if_pos (by exact given), Prog.bind_of_stopped stopped]

/-- A call notes one packet if its length fits a page, and stops if not. -/
theorem socketSendto_ends_iff (carrier : Carrier) (addr : NetworkAddress)
    (socketInside : 0 ≤ socket ∧ socket < CONFIG_MAX_OPEN_SOCKETS)
    (pop : (s.sockets socket.toNat).protocol = PROTOCOL_POP) (dportNonzero : dport ≠ 0)
    (bufGiven : buf.isSome = true) (positive : 1 ≤ size.toInt) {mtu : BitVec 32}
    (ran : networkGetMtu NETWORK_BROADCAST_ADDRESS s = .returned (mtu, s)) :
    SendsSendable carrier s n socket addr dport buf size ↔
      FitsPage (limitSize size mtu + BitVec.ofNat 32 popHeaderSize) ∧
        ∀ i < n, (limitSize size mtu + BitVec.ofNat 32 popHeaderSize).toInt +
          networkFrameHeaderSize ≤ (s.interfaces i).mtu.toInt := by
  have call := socketSendto_apply carrier addr socketInside pop dportNonzero bufGiven positive ran
  have length : (packetOf s socket addr dport buf (limitSize size mtu)).length =
      limitSize size mtu + BitVec.ofNat 32 popHeaderSize := rfl
  generalize limitSize size mtu = limited at *
  rw [SendsSendable, Prog.ends_congr call]
  by_cases fits : FitsPage (limited + BitVec.ofNat 32 popHeaderSize)
  · obtain ⟨r, sent⟩ := networkSend_returns carrier (packetOf s socket addr dport buf limited) s
      (by rwa [length])
    rw [Prog.ends_congr (Prog.bind_of_returned sent), Prog.ends_iff (Prog.pure_apply _ _)]
    constructor
    · rintro ⟨packet, noted, -, -, below⟩
      obtain ⟨rfl, -⟩ := List.cons.inj noted
      exact ⟨fits, below⟩
    · rintro ⟨-, below⟩
      exact ⟨_, rfl, fits.1, fits.2, below⟩
  · have stopped := networkSend_stops carrier (packetOf s socket addr dport buf limited) s
      (by rwa [length])
    constructor
    · rintro ⟨value, t, returned, -⟩
      rw [Prog.bind_of_stopped stopped] at returned
      cases returned
    · rintro ⟨fits', -⟩
      exact absurd fits' fits

/-- The length of the packet of a call with `n < CONFIG_MAX_GNDS` interfaces. -/
theorem toInt_packetLength (size m : BitVec 32) (positive : 1 ≤ size.toInt)
    (least : 21 ≤ m.toNat) (most : m.toNat ≤ 4097) :
    (limitSize size (m - BitVec.ofNat 32 networkFrameHeaderSize) +
      BitVec.ofNat 32 popHeaderSize).toInt = (min size.toNat (m.toNat - 20) + 8 : Nat) ∧
      0 < min size.toNat (m.toNat - 20) := by
  have header : (BitVec.ofNat 32 popHeaderSize).toNat = 8 := by decide
  have limited := toNat_limitSize size m least most
  have sizePositive : 0 < size.toNat := by
    rw [BitVec.toInt_eq_toNat_cond] at positive
    split at positive <;> omega
  have sum : (limitSize size (m - BitVec.ofNat 32 networkFrameHeaderSize) +
      BitVec.ofNat 32 popHeaderSize).toNat = min size.toNat (m.toNat - 20) + 8 := by
    rw [BitVec.toNat_add, limited, header]
    omega
  refine ⟨?_, by omega⟩
  rw [BitVec.toInt_eq_toNat_of_lt (by omega), sum]

end Call

/-- **`socket_sendto` hands a sendable frame to `network_send` exactly when the interface table
has an empty entry and, with no interface at all, the size is at most what the page holds.** -/
theorem socketSendto_sendable_iff (carrier : Carrier) (s : Network) (n : Nat) (socket : Int)
    (addr : NetworkAddress) (dport : BitVec 16) (buf : Option (Nat → Byte)) (size : BitVec 32)
    (interfaces : Interfaces s n)
    (socketInside : 0 ≤ socket ∧ socket < CONFIG_MAX_OPEN_SOCKETS)
    (pop : (s.sockets socket.toNat).protocol = PROTOCOL_POP) (dportNonzero : dport ≠ 0)
    (bufGiven : buf.isSome = true) (positive : 1 ≤ size.toInt) :
    SendsSendable carrier s n socket addr dport buf size ↔
      n < CONFIG_MAX_GNDS ∧ (0 < n ∨ size.toNat ≤ payloadRoom) := by
  by_cases short : n < CONFIG_MAX_GNDS
  · obtain ⟨m, ran, least, empty, occupied, smallest⟩ := networkGetMtu_broadcast interfaces short
    have most : m.toNat ≤ 4097 := by
      by_cases some_ : 0 < n
      · exact Nat.le_succ_of_le (occupied some_)
      · exact Nat.le_of_eq (empty (by omega))
    obtain ⟨length, room⟩ := toInt_packetLength size m positive least most
    have page : ((PAGE_SIZE - networkFrameHeaderSize : Nat) : Int) = 4084 := by decide
    have header : (networkFrameHeaderSize : Int) = 12 := by decide
    rw [socketSendto_ends_iff carrier addr socketInside pop dportNonzero bufGiven positive ran,
      FitsPage, length, page, header, show payloadRoom = 4076 from rfl]
    constructor
    · rintro ⟨⟨-, fits⟩, -⟩
      refine ⟨short, ?_⟩
      by_cases some_ : 0 < n
      · exact Or.inl some_
      · have sentinel := empty (by omega)
        exact Or.inr (by omega)
    · rintro ⟨-, enough⟩
      refine ⟨⟨by omega, ?_⟩, fun i less => ?_⟩
      · rcases enough with some_ | small
        · have bound := occupied some_
          omega
        · omega
      · have bound := smallest i less
        have ceiling := (interfaces.mtus i less).2
        change _ ≤ 4096 at ceiling
        rw [BitVec.toInt_eq_toNat_of_lt (show 2 * (s.interfaces i).mtu.toNat < 2 ^ 32 by omega)]
        omega
  · have full : ∀ i < CONFIG_MAX_GNDS, (s.interfaces i).gnd = true :=
      fun i less => interfaces.devices i (by omega)
    have scanned : networkGetMtu NETWORK_BROADCAST_ADDRESS s = .stopped .outOfBounds := by
      rw [networkGetMtu, if_pos rfl]
      exact Prog.bind_of_stopped (smallestMtu_full full _ _ _)
    have stopped := socketSendto_stops carrier addr socketInside dportNonzero bufGiven positive
      scanned
    constructor
    · rintro ⟨value, t, returned, -⟩
      rw [stopped] at returned
      cases returned
    · rintro ⟨short', -⟩
      exact absurd short' short

/-! ## Two tables -/

/-- `n` Ethernet interfaces, and sockets open on port 7. -/
def ethernet (n : Nat) : Network where
  interfaces := fun i => { address := BitVec.ofNat 32 (i + 1), mtu := 1500, gnd := i < n }
  sockets := fun _ =>
    { port := 7, protocol := PROTOCOL_POP, receiveComplete := some ⟨0, []⟩, rbuf := none,
      bufsize := 0, sender := none, copied := none, sport := none }
  sends := []

theorem ethernet_interfaces (n : Nat) (fits : n ≤ CONFIG_MAX_GNDS) :
    Interfaces (ethernet n) n where
  fits := fits
  devices := fun i less => decide_eq_true less
  mtus := fun i _ => by
    change 21 ≤ (1500#32).toNat ∧ (1500#32).toNat ≤ 4096
    decide
  rest := fun i above _ => decide_eq_false (Nat.not_lt.2 above)

/-- One interface and a hundred bytes, and no interface and 4076 bytes, which is all that the page
holds. -/
theorem socketSendto_sendable_iff_one :
    SendsSendable ⟨true, true, fun _ => true⟩ (ethernet 1) 1 0 9 80 (some fun _ => 0) 100 ∧
      SendsSendable ⟨true, true, fun _ => true⟩ (ethernet 0) 0 0 9 80 (some fun _ => 0) 4076 :=
  ⟨(socketSendto_sendable_iff _ (ethernet 1) 1 0 9 80 _ 100 (ethernet_interfaces 1 (by decide))
      (by decide) rfl (by decide) rfl (by decide)).2 ⟨by decide, .inl Nat.one_pos⟩,
    (socketSendto_sendable_iff _ (ethernet 0) 0 0 9 80 _ 4076 (ethernet_interfaces 0 (by decide))
      (by decide) rfl (by decide) rfl (by decide)).2 ⟨by decide, .inr (by decide)⟩⟩

/-- Without an interface, 4077 bytes fail the assertion of `network_send`; with four interfaces
the search for the MTU leaves the table. -/
theorem socketSendto_unsendable :
    (Interfaces (ethernet 0) 0 ∧
      ¬ SendsSendable ⟨true, true, fun _ => true⟩ (ethernet 0) 0 0 0 80 (some fun _ => 0) 4077) ∧
    (Interfaces (ethernet 4) 4 ∧
      ¬ SendsSendable ⟨true, true, fun _ => true⟩ (ethernet 4) 4 0 9 80 (some fun _ => 0) 1) := by
  refine ⟨⟨ethernet_interfaces 0 (by decide), ?_⟩, ethernet_interfaces 4 (by decide), ?_⟩
  · rintro ⟨value, t, returned, -⟩
    have stopped : socketSendto ⟨true, true, fun _ => true⟩ 0 0 80 (some fun _ => 0) 4077
        (ethernet 0) = .stopped .assertion := rfl
    rw [stopped] at returned
    cases returned
  · rintro ⟨value, t, returned, -⟩
    have stopped : socketSendto ⟨true, true, fun _ => true⟩ 0 9 80 (some fun _ => 0) 1
        (ethernet 4) = .stopped .outOfBounds := rfl
    rw [stopped] at returned
    cases returned

end Buenos.Net
