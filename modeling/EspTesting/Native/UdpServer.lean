import EspTesting.ForStd.Handles
import EspTesting.ForStd.Machine
import EspTesting.Native.DeviceBits
import EspTesting.Native.DnsServer

/-!
# UDP servers

The task that the servers share (`udp_server.c`) and the servers that start it (`dns_server.c`,
`ping_sever.c`, `bgcp_server.c`). The sockets, the allocator and the scheduler are code outside:
what they return is an argument of each step, and the calls made to them are recorded.
-/

namespace EspTesting.Udp

open Dns (Ipv4 udpSendBufSize udpRecvBufSize)
open Labels (block)

/-- `BIT_BGCP_SERVER_RUN` -/
abbrev bitBgcpServerRun : EventBits := Flags.bit 32 0
/-- `BIT_DNS_SERVER_RUN` -/
abbrev bitDnsServerRun : EventBits := Flags.bit 32 11
/-- `BIT_ECHO_SERVER_RUN` -/
abbrev bitEchoServerRun : EventBits := Flags.bit 32 12

/-- The address of a peer. -/
structure SockAddr where
  ip : Ipv4
  port : UInt16
  deriving DecidableEq, Repr

/-- `create_response_handler_t`: what stands in the response buffer in front of the length that is
    returned, or `none` for a length that is not positive. -/
abbrev ResponseHandler := (Nat → UInt8) → Nat → Option (List UInt8)

/-- `serv_task_conf_t`; the context of the handler is part of the handler, and `none` stands for a
    handler that is `NULL`. -/
structure ServTaskConf where
  bitCtrl : EventBits
  ip : Ipv4
  port : UInt16
  createResponseHandler : Option ResponseHandler

/-- What `recvfrom` returns. -/
inductive Received where
  /-- `EAGAIN` or `EWOULDBLOCK` -/
  | again
  | failed
  | datagram (data : List UInt8) (sender : SockAddr)
  deriving DecidableEq, Repr

/-- A call outside. -/
inductive Call where
  | malloc
  | free
  | setBits (bits : EventBits)
  | clearBits (bits : EventBits)
  | createTask
  | deleteTask
  | delay (ms : Nat)
  | socket (sock : Nat)
  | bind (sock : Nat) (ip : Ipv4) (port : UInt16)
  | setsockopt (sock : Nat)
  | recvfrom (sock : Nat) (result : Received)
  | sendto (sock : Nat) (data : List UInt8) (dest : SockAddr)
  | close (sock : Nat)
  deriving DecidableEq, Repr

/-! ## The task -/

/-- What is returned to a pass of the loop: the bits of the device, the socket if one is created,
    whether it could be bound, and what is received. -/
structure Pass where
  bits : EventBits
  socket : Option Nat
  bound : Bool
  recvfrom : Received
  deriving DecidableEq, Repr

/-- The task: its socket, `none` for -1, its buffer, and the calls made. -/
structure UdpServer where
  running : Bool
  sock : Option Nat
  query : Nat → UInt8
  calls : List Call

/-- `udp_socket_create`: the socket, and the calls. -/
def udpSocketCreate (conf : ServTaskConf) (p : Pass) : Option Nat × List Call :=
  match p.socket with
  | none => (none, [])
  | some sock =>
    if p.bound then
      -- the timeouts may fail
      (some sock,
        [.socket sock, .bind sock conf.ip conf.port, .setsockopt sock, .setsockopt sock])
    else (none, [.socket sock, .bind sock conf.ip conf.port, .close sock])

/-- The buffer after a datagram was received. -/
def receive (query : Nat → UInt8) (data : List UInt8) : Nat → UInt8 :=
  fun i => if h : i < data.length then data[i] else query i

/-- A pass of the loop with a socket. -/
def UdpServer.serve (handler : ResponseHandler) (sock : Nat) (result : Received) (s : UdpServer) :
    UdpServer :=
  match result with
  | .again => { s with calls := s.calls ++ [.recvfrom sock result, .delay 200] }
  | .failed => { s with
      sock := none
      calls := s.calls ++ [.recvfrom sock result, .close sock, .delay 2000] }
  | .datagram data sender =>
    -- what does not fit the buffer is dropped
    let data := data.take udpRecvBufSize
    let query := receive s.query data
    let calls := s.calls ++ [.recvfrom sock (.datagram data sender)]
    match handler query data.length with
    | some response => { s with query, calls := calls ++ [.sendto sock response sender] }
    | none => { s with query, calls }

/-- A pass of the loop. -/
def UdpServer.pass (conf : ServTaskConf) (handler : ResponseHandler) (p : Pass) (s : UdpServer) :
    UdpServer :=
  let s := { s with calls := s.calls ++ [Call.delay 10] }
  match s.sock with
  | some sock => s.serve handler sock p.recvfrom
  | none =>
    let (sock, calls) := udpSocketCreate conf p
    let s := { s with sock, calls := s.calls ++ calls }
    match sock with
    | some sock => s.serve handler sock p.recvfrom
    | none => { s with calls := s.calls ++ [Call.delay 2000] }

/-- The end of the task. -/
def UdpServer.stop (s : UdpServer) : UdpServer where
  running := false
  sock := none
  query := s.query
  calls := s.calls ++ (s.sock.map Call.close).toList ++ [.free, .deleteTask]

/-- The condition of the loop, and a pass or the end of the task. -/
def UdpServer.step (conf : ServTaskConf) (s : UdpServer) (p : Pass) : UdpServer :=
  match conf.createResponseHandler with
  -- the task has not reached its loop
  | none => s
  | some handler =>
    if s.running then
      if deviceHasBits p.bits conf.bitCtrl then s.pass conf handler p else s.stop
    else s

/-- The part of the task in front of the loop. Without a handler the task is deleted at once, and
    its configuration is not freed. -/
def UdpServer.enter (conf : ServTaskConf) (s : UdpServer) : UdpServer :=
  match conf.createResponseHandler with
  | none => { s with running := false, calls := s.calls ++ [.deleteTask] }
  | some _ => s

/-! ## Starting -/

/-- The part that the functions that start a server share: the allocation, the bit and
    `start_udp_server`, whose task starts with whatever stands in its buffer. -/
def startServer (conf : ServTaskConf) (malloc create : Bool) (query : Nat → UInt8) :
    Bool × UdpServer :=
  if malloc then
    if create then
      (true, UdpServer.enter conf
        ⟨true, none, query, [.malloc, .setBits conf.bitCtrl, .createTask]⟩)
    else
      (false, ⟨false, none, query,
        [.malloc, .setBits conf.bitCtrl, .free, .clearBits conf.bitCtrl]⟩)
  else (false, ⟨false, none, query, [.clearBits conf.bitCtrl]⟩)

/-- `dns_response_handler`, as the task calls it. -/
def dnsHandler (hostIp : Ipv4) : ResponseHandler := fun query queryLen =>
  (Dns.dnsResponseHandler query queryLen hostIp).map fun r => r.2.toList.take r.1

/-- `echo_response_handler` -/
def echoResponseHandler : ResponseHandler := fun query queryLen =>
  if queryLen > 0 then some (block query 0 queryLen) else none

/-- `start_dns_server` -/
def startDnsServer (hostIp : Ipv4) : Bool → Bool → (Nat → UInt8) → Bool × UdpServer :=
  startServer ⟨bitDnsServerRun, ⟨0, 0, 0, 0⟩, 53, some (dnsHandler hostIp)⟩

/-- `start_ping_server` -/
def startPingServer : Bool → Bool → (Nat → UInt8) → Bool × UdpServer :=
  startServer ⟨bitEchoServerRun, ⟨0, 0, 0, 0⟩, 7, some echoResponseHandler⟩

/-- `start_bgcp_server`. It does not set the handler, so what the allocated block holds in its place
    (`stale`) is the handler of the task. -/
def startBgcpServer (ip : Ipv4) (port : UInt16) (stale : Option ResponseHandler) :
    Bool → Bool → (Nat → UInt8) → Bool × UdpServer :=
  startServer ⟨bitBgcpServerRun, ip, port, stale⟩

end EspTesting.Udp
