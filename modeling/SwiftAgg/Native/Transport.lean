import SwiftAgg.Native.Types

/-!
# The socket table

The table of sockets in `transport.c`: `transport_create_socket` and
`transport_accept` store a descriptor at the index `g_socket_count` and count
on, `transport_close` clears the first entry that holds the descriptor. What
the operating system answers is an input of a call. Pointers are not `NULL`;
the addresses that are stored beside the descriptors are not modelled.
-/

namespace SwiftAgg.Native

/-- `MAX_SOCKETS`. -/
def maxSockets : Nat := 4

/-- `g_sockets`, where -1 is a free entry, and `g_socket_count`. From the counter on all entries are
    free. -/
structure SocketTable where
  sockets : List Int
  length_eq : sockets.length = maxSockets
  socketCount : UInt8
  count_le : socketCount.toNat ≤ maxSockets
  free_from : ∀ i, socketCount.toNat ≤ i → i < maxSockets → sockets[i]? = some (-1)

/-- What the operating system answers to a call that opens a socket: the descriptor, negative on
    failure, whether the failure is `EAGAIN` or `EWOULDBLOCK`, and whether the descriptor could be
    made non-blocking. -/
structure Opened where
  fd : Int
  wouldBlock : Bool
  nonblocking : Bool
  deriving DecidableEq

namespace SocketTable

/-- `transport_init`; the static initialisers are the same. -/
def transportInit : SocketTable where
  sockets := List.replicate maxSockets (-1)
  length_eq := List.length_replicate
  socketCount := 0
  count_le := Nat.zero_le _
  free_from i _ hi := by rw [List.getElem?_replicate, if_pos hi]

theorem toNat_succ_socketCount {count : UInt8} (h : count.toNat < maxSockets) :
    (count + 1).toNat = count.toNat + 1 := by
  rw [UInt8.toNat_add, UInt8.toNat_one]
  rw [maxSockets] at h
  omega

/-- Store a descriptor at the counter and count on. -/
def record (t : SocketTable) (sock : Int) (h : t.socketCount.toNat < maxSockets) : SocketTable where
  sockets := t.sockets.set t.socketCount.toNat sock
  length_eq := by rw [List.length_set, t.length_eq]
  socketCount := t.socketCount + 1
  count_le := by
    rw [toNat_succ_socketCount h]
    exact h
  free_from i hle hi := by
    rw [toNat_succ_socketCount h] at hle
    rw [List.getElem?_set_ne (by omega), t.free_from i (by omega) hi]

/-- `g_sockets[i] = -1`. -/
def clear (t : SocketTable) (i : Nat) : SocketTable where
  sockets := t.sockets.set i (-1)
  length_eq := by rw [List.length_set, t.length_eq]
  socketCount := t.socketCount
  count_le := t.count_le
  free_from j hle hj := by
    have hfree := t.free_from j hle hj
    rw [List.getElem?_set]
    split
    · rename_i hij
      subst hij
      rw [if_pos (t.length_eq ▸ hj)]
    · exact hfree

/-- `transport_create_socket`: the status, `*sock_fd` if it is written, and the table. `validIp`
    says whether `inet_pton` takes the address. -/
def transportCreateSocket (t : SocketTable) (opened : Opened) (validIp : Bool) :
    PqcStatus × Option Int × SocketTable :=
  if h : t.socketCount.toNat < maxSockets then
    if opened.fd < 0 then (.errGeneric, none, t)
    else if ¬opened.nonblocking then (.errGeneric, none, t)
    else if ¬validIp then (.errInvalidArgument, none, t)
    else (.success, some opened.fd, t.record opened.fd h)
  else (.errInvalidArgument, none, t)

/-- `transport_accept`: the status, `*client_sock` if it is written, and the table. -/
def transportAccept (t : SocketTable) (opened : Opened) : PqcStatus × Option Int × SocketTable :=
  if opened.fd < 0 then
    (if opened.wouldBlock then .errNetworkTimeout else .errGeneric, none, t)
  else if ¬opened.nonblocking then (.errGeneric, none, t)
  -- with a full table the descriptor is returned but not stored
  else if h : t.socketCount.toNat < maxSockets then
    (.success, some opened.fd, t.record opened.fd h)
  else (.success, some opened.fd, t)

/-- `transport_close`. -/
def transportClose (t : SocketTable) (sockFd : Int) : PqcStatus × SocketTable :=
  match t.sockets.findIdx? (· = sockFd) with
  -- the counter stays as it is
  | some i => (.success, t.clear i)
  | none => (.errInvalidArgument, t)

end SocketTable

/-- A call of `transport.c` that can change the table. -/
inductive SocketCall where
  | createSocket (opened : Opened) (validIp : Bool)
  | accept (opened : Opened)
  | close (sockFd : Int)
  deriving DecidableEq

namespace SocketTable

/-- The table after a call. -/
def step (t : SocketTable) : SocketCall → SocketTable
  | .createSocket opened validIp => (t.transportCreateSocket opened validIp).2.2
  | .accept opened => (t.transportAccept opened).2.2
  | .close sockFd => (t.transportClose sockFd).2

/-- The table after a sequence of calls. -/
def run (t : SocketTable) (calls : List SocketCall) : SocketTable := calls.foldl step t

end SocketTable

end SwiftAgg.Native
