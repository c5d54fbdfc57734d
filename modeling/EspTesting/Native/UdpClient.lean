import EspTesting.Native.UdpServer

/-!
# The UDP client

The task that asks a server again and again (`udp_client.c`). What the sockets and the handlers of
the application return is an argument of each step, and the calls are recorded as for the servers.
-/

namespace EspTesting.Udp

open Dns (Ipv4 udpRecvBufSize)

/-- `client_task_conf_t`, but for the handlers, whose results are arguments of a pass: whether both
    are set, the address of the server, zero if it is to be found by its name, whether there is a
    name, the port and the time between two requests. -/
structure ClientTaskConf where
  bitCtrl : EventBits
  ip : Ipv4
  hostname : Bool
  port : UInt16
  handlers : Bool
  sendInterval : Nat

/-- What is returned to a pass of the loop: the bits of the device, the socket if one is created,
    what the first handler puts in front of a positive length, whether the request could be sent,
    what is received, and what the second handler puts in front of a positive length. -/
structure ClientPass where
  bits : EventBits
  socket : Option Nat
  request : Option (List UInt8)
  sent : Bool
  recvfrom : Received
  response : Option (List UInt8)
  deriving DecidableEq, Repr

/-- The task: the address it asks, its socket, `none` for -1, and the calls made. -/
structure UdpClient where
  running : Bool
  dest : SockAddr
  sock : Option Nat
  calls : List Call
  deriving DecidableEq, Repr

/-- A pass of the loop with a socket. -/
def UdpClient.ask (sock : Nat) (p : ClientPass) (s : UdpClient) : UdpClient :=
  match p.request with
  | none => s
  | some request =>
    let calls := s.calls ++ [Call.sendto sock request s.dest]
    if p.sent then
      match p.recvfrom with
      | .datagram data sender =>
        -- one byte of the buffer stays free
        let data := data.take (udpRecvBufSize - 1)
        let calls := calls ++ [.recvfrom sock (.datagram data sender)]
        if data = [] then { s with calls }
        else
          match p.response with
          | some response => { s with calls := calls ++ [.sendto sock response sender] }
          | none => { s with calls }
      | result => { s with calls := calls ++ [.recvfrom sock result] }
    else { s with calls }

/-- A pass of the loop. -/
def UdpClient.pass (conf : ClientTaskConf) (p : ClientPass) (s : UdpClient) : UdpClient :=
  let s := { s with calls := s.calls ++ [Call.delay conf.sendInterval] }
  match s.sock with
  | some sock => s.ask sock p
  | none =>
    match p.socket with
    | some sock =>
      { s with sock := some sock, calls := s.calls ++ [Call.socket sock] }.ask sock p
    | none => { s with calls := s.calls ++ [Call.delay 2000] }

/-- The end of the task. -/
def UdpClient.stop (s : UdpClient) : UdpClient where
  running := false
  dest := s.dest
  sock := none
  calls := s.calls ++ (s.sock.map Call.close).toList ++ [.free, .deleteTask]

/-- The condition of the loop, and a pass or the end of the task. -/
def UdpClient.step (conf : ClientTaskConf) (s : UdpClient) (p : ClientPass) : UdpClient :=
  if s.running then
    if deviceHasBits p.bits conf.bitCtrl then s.pass conf p else s.stop
  else s

/-- The start of the task. `resolved` is what `resolve_hostname_to_ip4` finds for the name. A task
    that gives up does not free its configuration. -/
def udpClientTask (conf : ClientTaskConf) (resolved : Option Ipv4) : UdpClient :=
  let ip :=
    if conf.sendInterval = 0 ∨ conf.handlers = false then none
    else if conf.ip = ⟨0, 0, 0, 0⟩ then if conf.hostname then resolved else none
    else some conf.ip
  match ip with
  | some ip => ⟨true, ⟨ip, conf.port⟩, none, [.malloc]⟩
  | none => ⟨false, ⟨⟨0, 0, 0, 0⟩, conf.port⟩, none, [.malloc, .deleteTask]⟩

end EspTesting.Udp
