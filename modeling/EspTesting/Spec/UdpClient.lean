import EspTesting.Native.UdpClient
import EspTesting.Spec.UdpServer

/-!
# Runs of the UDP client

The client creates at most one socket and closes it at its end; on the network it sends its own
requests to the server, and besides only what it says to the sender of a datagram that came in
right behind a request. Its configuration is freed at the end of the task, and never if the task
gives up at its start.

## Key results

- `udpClient_correct`: socket, memory and datagrams over any run
-/

namespace EspTesting.Udp

open Dns (Ipv4 udpRecvBufSize)
open Handles (held held_nil held_acquire held_use held_release held_trans)

/-- A request, and the datagram received behind it with what was sent back, if there were any. -/
structure Poll where
  request : List UInt8
  received : Option (List UInt8 × SockAddr × Option (List UInt8))
  deriving DecidableEq, Repr

/-- The datagrams of a poll. -/
def Poll.net (dest : SockAddr) (poll : Poll) : List Net :=
  .sent poll.request dest ::
    match poll.received with
    | none => []
    | some (data, sender, response) =>
      .received data sender :: (response.map (Net.sent · sender)).toList

/-- The sockets that are created. -/
def Call.created : Call → Option Nat
  | socket sock => some sock
  | _ => none

/-! ## The invariant -/

/-- What holds between two passes, if the task has entered its loop or not. -/
structure Polling (dest : SockAddr) (entered : Bool) (s : UdpClient) : Prop where
  dest : s.dest = dest
  begun : s.running = true → entered = true
  sock : held none (s.calls.filterMap Call.sockEvent) = some s.sock
  created : (s.calls.filterMap Call.created).length ≤ 1
  fresh : s.running = true → s.sock = none → s.calls.filterMap Call.created = []
  memory : held none (s.calls.filterMap Call.confEvent) =
    some (if s.running = true ∨ entered = false then some () else none)
  stopped : s.running = false → s.sock = none
  net : ∃ polls : List Poll, s.calls.filterMap Call.net = polls.flatMap (Poll.net s.dest)

/-- Calls on the socket that is there, which make up at most one poll. -/
structure Asks (sock : Nat) (s s' : UdpClient) (calls : List Call) : Prop where
  eq : s' = { s with calls := s.calls ++ calls }
  sock : held (some sock) (calls.filterMap Call.sockEvent) = some (some sock)
  created : calls.filterMap Call.created = []
  memory : calls.filterMap Call.confEvent = []
  net : ∃ poll : Option Poll, calls.filterMap Call.net = poll.toList.flatMap (Poll.net s.dest)

variable {dest : SockAddr} {entered : Bool} {s s' : UdpClient} {sock : Nat} {calls : List Call}

/-- A pass over the socket: a request, and perhaps an answer and a reply. -/
theorem asks_ask (sock : Nat) (p : ClientPass) (s : UdpClient) :
    ∃ calls, Asks sock s (s.ask sock p) calls := by
  unfold UdpClient.ask
  cases hrequest : p.request with
  | none => exact ⟨[], by simp, held_nil _, rfl, rfl, none, rfl⟩
  | some request =>
    cases hsent : p.sent with
    | false =>
      exact ⟨[.sendto sock request s.dest], rfl, held_use sock [], rfl, rfl,
        some ⟨request, none⟩, rfl⟩
    | true =>
      have hheld : held (some sock) [.use sock, .use sock] = some (some sock) := by
        rw [held_use, held_use, held_nil]
      cases hrecv : p.recvfrom with
      | again =>
        exact ⟨[.sendto sock request s.dest, .recvfrom sock .again], by simp, hheld, rfl, rfl,
          some ⟨request, none⟩, rfl⟩
      | failed =>
        exact ⟨[.sendto sock request s.dest, .recvfrom sock .failed], by simp, hheld, rfl, rfl,
          some ⟨request, none⟩, rfl⟩
      | datagram data sender =>
        dsimp only
        generalize data.take (udpRecvBufSize - 1) = data
        have hplain : Asks sock s { s with calls := s.calls ++ [Call.sendto sock request s.dest] ++
              [.recvfrom sock (.datagram data sender)] }
            [.sendto sock request s.dest, .recvfrom sock (.datagram data sender)] :=
          ⟨by simp, hheld, rfl, rfl, some ⟨request, some (data, sender, none)⟩, rfl⟩
        -- an empty datagram goes to no handler
        by_cases hempty : data = []
        · rw [if_pos rfl, if_pos hempty]
          exact ⟨_, hplain⟩
        · rw [if_pos rfl, if_neg hempty]
          cases p.response with
          | none => exact ⟨_, hplain⟩
          | some response =>
            refine ⟨[.sendto sock request s.dest, .recvfrom sock (.datagram data sender),
              .sendto sock response sender], by simp, ?_, rfl, rfl,
              some ⟨request, some (data, sender, some response)⟩, rfl⟩
            show held (some sock) [.use sock, .use sock, .use sock] = some (some sock)
            rw [held_use, held_use, held_use, held_nil]

/-- Asking keeps the order of the calls. -/
theorem Polling.asks (h : Polling dest entered s) (hsock : s.sock = some sock)
    (h' : Asks sock s s' calls) : Polling dest entered s' := by
  obtain ⟨poll, hpoll⟩ := h'.net
  obtain ⟨polls, hpolls⟩ := h.net
  rw [h'.eq]
  constructor <;> simp only [List.filterMap_append, h'.created, h'.memory, List.append_nil]
  · exact h.dest
  · exact h.begun
  · have hheld := h.sock
    rw [hsock] at hheld ⊢
    exact held_trans hheld h'.sock
  · exact h.created
  · exact h.fresh
  · exact h.memory
  · exact h.stopped
  · exact ⟨polls ++ poll.toList, by rw [hpolls, hpoll, List.flatMap_append]⟩

/-- A pause changes nothing. -/
theorem Polling.delay (h : Polling dest entered s) (ms : Nat) :
    Polling dest entered { s with calls := s.calls ++ [.delay ms] } := by
  obtain ⟨polls, hpolls⟩ := h.net
  constructor <;> simp only [List.filterMap_append]
  · exact h.dest
  · exact h.begun
  · exact held_trans h.sock (held_nil _)
  · exact (List.append_nil _).symm ▸ h.created
  · exact fun hrunning hsock => (List.append_nil _).trans (h.fresh hrunning hsock)
  · exact held_trans h.memory (held_nil _)
  · exact h.stopped
  · exact ⟨polls, (List.append_nil _).trans hpolls⟩

/-- The one socket is created. -/
theorem Polling.create (h : Polling dest entered s) (hrunning : s.running = true)
    (hsock : s.sock = none) (sock : Nat) :
    Polling dest entered { s with sock := some sock, calls := s.calls ++ [.socket sock] } := by
  obtain ⟨polls, hpolls⟩ := h.net
  have hheld := h.sock
  rw [hsock] at hheld
  constructor <;> simp only [List.filterMap_append]
  · exact h.dest
  · exact h.begun
  · exact held_trans hheld (held_acquire sock [])
  · -- it is the first socket
    rw [h.fresh hrunning hsock]
    exact Nat.le_refl 1
  · exact fun _ hnone => absurd hnone (Option.some_ne_none sock)
  · exact held_trans h.memory (held_nil _)
  · rw [hrunning]
    exact fun hfalse => absurd hfalse.symm Bool.false_ne_true
  · exact ⟨polls, (List.append_nil _).trans hpolls⟩

/-- A pass of the loop keeps the order of the calls. -/
theorem Polling.pass (h : Polling dest entered s) (hrunning : s.running = true)
    (conf : ClientTaskConf) (p : ClientPass) : Polling dest entered (s.pass conf p) := by
  have hdelay := h.delay conf.sendInterval
  unfold UdpClient.pass
  dsimp only
  cases hsock : s.sock with
  -- the socket of before, or a new one
  | some sock =>
    rw [hsock] at hdelay
    obtain ⟨calls, hasks⟩ := asks_ask sock p
      { s with sock := some sock, calls := s.calls ++ [.delay conf.sendInterval] }
    exact hdelay.asks rfl hasks
  | none =>
    rw [hsock] at hdelay
    cases p.socket with
    | some sock =>
      obtain ⟨calls, hasks⟩ := asks_ask sock p { s with
        sock := some sock
        calls := s.calls ++ [.delay conf.sendInterval] ++ [.socket sock] }
      exact (hdelay.create hrunning rfl sock).asks rfl hasks
    | none => exact hdelay.delay 2000

/-- The socket is closed, if there is one, and the configuration is freed. -/
theorem Polling.stop (h : Polling dest entered s) (hrunning : s.running = true) :
    Polling dest entered s.stop := by
  obtain rfl := h.begun hrunning
  -- the socket is closed, the configuration freed
  obtain ⟨hsock, hmemory, hnet, -⟩ := events_ending s.sock _ rfl
  have hcalls : s.stop.calls =
      s.calls ++ ((s.sock.map Call.close).toList ++ [.free, .deleteTask]) := List.append_assoc ..
  have hcreated : ((s.sock.map Call.close).toList ++ [Call.free, Call.deleteTask]).filterMap
      Call.created = [] := by
    cases s.sock <;> rfl
  obtain ⟨polls, hpolls⟩ := h.net
  have hheld := h.memory
  rw [if_pos (.inl hrunning)] at hheld
  constructor
  · exact h.dest
  · exact fun _ => rfl
  · rw [hcalls, List.filterMap_append]
    exact held_trans h.sock hsock
  · rw [hcalls, List.filterMap_append, hcreated, List.append_nil]
    exact h.created
  · exact fun hrunning => absurd hrunning Bool.false_ne_true
  · rw [hcalls, List.filterMap_append, hmemory]
    exact held_trans hheld (held_release () [])
  · exact fun _ => rfl
  · refine ⟨polls, ?_⟩
    rw [hcalls, List.filterMap_append, hnet, List.append_nil]
    exact hpolls

/-- A step of the task keeps the order of the calls. -/
theorem Polling.step {conf : ClientTaskConf} (h : Polling dest entered s) (p : ClientPass) :
    Polling dest entered (s.step conf p) := by
  unfold UdpClient.step
  split
  · rename_i hrunning
    split
    · exact h.pass hrunning conf p
    · exact h.stop hrunning
  · exact h

/-- However the start goes, it leaves the invariant. -/
theorem polling_start (conf : ClientTaskConf) (resolved : Option Ipv4) :
    Polling (udpClientTask conf resolved).dest (udpClientTask conf resolved).running
      (udpClientTask conf resolved) := by
  unfold udpClientTask
  dsimp only
  generalize (if conf.sendInterval = 0 ∨ conf.handlers = false then none else _) = ip
  cases ip with
  | none => exact ⟨rfl, id, rfl, Nat.zero_le 1, fun _ _ => rfl, rfl, fun _ => rfl, [], rfl⟩
  | some ip => exact ⟨rfl, id, rfl, Nat.zero_le 1, fun _ _ => rfl, rfl, fun _ => rfl, [], rfl⟩

/-- The address of the server, if the task can find it. -/
def serverAddr (conf : ClientTaskConf) (resolved : Option Ipv4) : Option SockAddr :=
  (if conf.ip = ⟨0, 0, 0, 0⟩ then if conf.hostname then resolved else none else some conf.ip).map
    fun ip => ⟨ip, conf.port⟩

/-- The task enters its loop if it has what it needs, and asks the server then. -/
theorem udpClientTask_running (conf : ClientTaskConf) (resolved : Option Ipv4) :
    ((udpClientTask conf resolved).running = true ↔ conf.sendInterval ≠ 0 ∧
      conf.handlers = true ∧ (serverAddr conf resolved).isSome = true) ∧
    ((udpClientTask conf resolved).running = true →
      serverAddr conf resolved = some (udpClientTask conf resolved).dest) := by
  by_cases hargs : conf.sendInterval = 0 ∨ conf.handlers = false
  · -- the configuration is refused
    have hstart : (udpClientTask conf resolved).running = false := by
      simp only [udpClientTask, if_pos hargs]
    rw [hstart]
    refine ⟨?_, fun h => absurd h Bool.false_ne_true⟩
    constructor
    · exact fun h => absurd h Bool.false_ne_true
    · rintro ⟨hinterval, hhandlers, -⟩
      rw [hhandlers] at hargs
      exact absurd hargs (by simp [hinterval])
  · simp only [udpClientTask, if_neg hargs, serverAddr]
    obtain ⟨hinterval, hhandlers⟩ := not_or.mp hargs
    cases (if conf.ip = ⟨0, 0, 0, 0⟩ then if conf.hostname then resolved else none
      else some conf.ip) with
    | none => simp
    | some ip => simp [hinterval, eq_true_of_ne_false hhandlers]

/-- Over every run of the client from the start of its task on: its calls on sockets are allowed,
    and at most one socket is ever created; none is left when the task is over; the configuration
    is freed exactly at the end of a task that did not give up at its start; and the network sees
    its polls, one after the other, of the server that is configured or was found by its name. -/
theorem udpClient_correct (conf : ClientTaskConf) (resolved : Option Ipv4) (ps : List ClientPass) :
    let start := udpClientTask conf resolved
    let s := Machine.run (UdpClient.step conf) start ps
    (start.running = true ↔ conf.sendInterval ≠ 0 ∧ conf.handlers = true ∧
        (serverAddr conf resolved).isSome = true) ∧
      (start.running = true → serverAddr conf resolved = some start.dest) ∧
      held none (s.calls.filterMap Call.sockEvent) = some s.sock ∧
      (s.calls.filterMap Call.created).length ≤ 1 ∧
      (s.running = false → s.sock = none) ∧
      held none (s.calls.filterMap Call.confEvent) =
        some (if s.running = true ∨ start.running = false then some () else none) ∧
      ∃ polls : List Poll, s.calls.filterMap Call.net = polls.flatMap (Poll.net start.dest) := by
  intro start s
  have h : Polling start.dest start.running s :=
    Machine.run_invariant (fun s p h => h.step p) (polling_start conf resolved) ps
  obtain ⟨hrunning, hdest⟩ := udpClientTask_running conf resolved
  exact ⟨hrunning, hdest, h.sock, h.created, h.stopped, h.memory, h.dest ▸ h.net⟩

/-- A server that is found by its name is asked once, and its answer is received. -/
theorem udpClient_correct_resolved :
    let conf : ClientTaskConf := ⟨bitBgcpServerRun, ⟨0, 0, 0, 0⟩, true, 5000, true, 100⟩
    let server : SockAddr := ⟨⟨10, 0, 0, 7⟩, 5000⟩
    let start := udpClientTask conf (some server.ip)
    let s := Machine.run (UdpClient.step conf) start
      [⟨bitBgcpServerRun, some 4, some [1], true, .datagram [2] server, none⟩]
    start.dest = server ∧
      ∃ polls : List Poll, s.calls.filterMap Call.net = polls.flatMap (Poll.net server) := by
  intro conf server start s
  obtain ⟨hrunning, hdest, -, -, -, -, hpolls⟩ := udpClient_correct conf (some server.ip)
    [⟨bitBgcpServerRun, some 4, some [1], true, .datagram [2] server, none⟩]
  have hserver : serverAddr conf (some server.ip) = some server := by decide
  have hstart : start.dest = server := by
    have hstart := hdest (hrunning.mpr ⟨by decide, rfl, by rw [hserver]; rfl⟩)
    exact (Option.some.inj (hserver.symm.trans hstart)).symm
  exact ⟨hstart, hstart ▸ hpolls⟩

end EspTesting.Udp
