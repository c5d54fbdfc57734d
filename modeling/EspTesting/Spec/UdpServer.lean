import Mathlib.Data.List.Forall2
import EspTesting.Native.UdpServer
import EspTesting.Spec.DnsResponse

/-!
# Runs of a UDP server

However the sockets, the allocator and the scheduler answer, and whenever the bit of the server is
cleared: the task has at most one socket, uses none that it has closed, and leaves none open; its
configuration is freed exactly once, if it has a handler; and on the network it is a server that
answers each datagram once, at once and to its sender. A task without a handler is over at once,
and its configuration is never freed.

## Key results

- `udpServer_correct`: sockets, memory and datagrams over any run
- `bgcpServer_leaks`: what becomes of a server whose handler was not set
- `pingServer_echoes`, `dnsServer_answers`: what the servers send
-/

namespace EspTesting.Udp

open Dns (Ipv4 udpSendBufSize udpRecvBufSize)
open Labels (block)
open Handles (held held_nil held_acquire held_use held_release held_append held_trans
  acquired_of_use)

/-! ## What the calls do -/

/-- What a call does with a socket. -/
def Call.sockEvent : Call → Option (Handles.Event Nat)
  | socket sock => some (.acquire sock)
  | bind sock _ _ | setsockopt sock | recvfrom sock _ | sendto sock _ _ => some (.use sock)
  | close sock => some (.release sock)
  | _ => none

/-- What a call does with the configuration. -/
def Call.confEvent : Call → Option (Handles.Event Unit)
  | malloc => some (.acquire ())
  | free => some (.release ())
  | _ => none

/-- A datagram on the network. -/
inductive Net where
  | received (data : List UInt8) (sender : SockAddr)
  | sent (data : List UInt8) (dest : SockAddr)
  deriving DecidableEq, Repr

/-- The datagram of a call. -/
def Call.net : Call → Option Net
  | recvfrom _ (.datagram data sender) => some (.received data sender)
  | sendto _ data dest => some (.sent data dest)
  | _ => none

/-- The datagram that a call receives. -/
def Call.received : Call → Option (List UInt8 × SockAddr)
  | recvfrom _ (.datagram data sender) => some (data, sender)
  | _ => none

/-- A server that answers each datagram before it takes the next one. Its buffer keeps what earlier
    datagrams left. -/
def answerEach (handler : ResponseHandler) :
    (Nat → UInt8) → List (List UInt8 × SockAddr) → List Net
  | _, [] => []
  | query, (data, sender) :: rest =>
    let query := receive query data
    .received data sender :: ((handler query data.length).map (Net.sent · sender)).toList ++
      answerEach handler query rest

/-- The buffer after the datagrams. -/
def receiveAll (query : Nat → UInt8) (datagrams : List (List UInt8 × SockAddr)) : Nat → UInt8 :=
  datagrams.foldl (fun query d => receive query d.1) query

theorem answerEach_append (handler : ResponseHandler) (query : Nat → UInt8)
    (ds ds' : List (List UInt8 × SockAddr)) :
    answerEach handler query (ds ++ ds') =
      answerEach handler query ds ++ answerEach handler (receiveAll query ds) ds' := by
  induction ds generalizing query with
  | nil => rfl
  | cons d ds ih =>
    simp only [List.cons_append, answerEach, ih, receiveAll, List.foldl_cons, List.append_assoc]

/-! ## The invariant -/

/-- What holds between two passes of a task with a handler. -/
structure Serving (handler : ResponseHandler) (query : Nat → UInt8) (s : UdpServer) : Prop where
  sock : held none (s.calls.filterMap Call.sockEvent) = some s.sock
  memory : held none (s.calls.filterMap Call.confEvent) = some (if s.running then some () else none)
  stopped : s.running = false → s.sock = none
  buffer : s.query = receiveAll query (s.calls.filterMap Call.received)
  net : s.calls.filterMap Call.net =
    answerEach handler query (s.calls.filterMap Call.received)
  short : ∀ d ∈ s.calls.filterMap Call.received, d.1.length ≤ udpRecvBufSize

/-- Calls that continue a run. -/
structure Continues (handler : ResponseHandler) (s s' : UdpServer) (calls : List Call) : Prop where
  calls_eq : s'.calls = s.calls ++ calls
  running : s'.running = s.running
  sock : held s.sock (calls.filterMap Call.sockEvent) = some s'.sock
  memory : calls.filterMap Call.confEvent = []
  buffer : s'.query = receiveAll s.query (calls.filterMap Call.received)
  net : calls.filterMap Call.net =
    answerEach handler s.query (calls.filterMap Call.received)
  short : ∀ d ∈ calls.filterMap Call.received, d.1.length ≤ udpRecvBufSize

variable {handler : ResponseHandler} {query : Nat → UInt8} {s s' : UdpServer} {calls : List Call}

/-- Calls that continue a run keep the invariant. -/
theorem Serving.continues (h : Serving handler query s) (hrunning : s.running = true)
    (h' : Continues handler s s' calls) : Serving handler query s' := by
  constructor
  · rw [h'.calls_eq, List.filterMap_append]
    exact held_trans h.sock h'.sock
  · rw [h'.calls_eq, List.filterMap_append, h'.memory, List.append_nil, h'.running]
    exact h.memory
  · rw [h'.running, hrunning]
    exact fun h => absurd h.symm Bool.false_ne_true
  · rw [h'.calls_eq, List.filterMap_append, h'.buffer, h.buffer, receiveAll, receiveAll,
      receiveAll, List.foldl_append]
  · rw [h'.calls_eq, List.filterMap_append, List.filterMap_append, answerEach_append, h.net,
      h'.net, h.buffer]
  · rw [h'.calls_eq, List.filterMap_append]
    intro d hd
    -- a datagram of before, or one of this pass
    obtain hd | hd := List.mem_append.mp hd
    · exact h.short d hd
    · exact h'.short d hd

/-- Calls that continue a run, and calls that continue it further. -/
theorem Continues.trans {s'' : UdpServer} {calls' : List Call} (h : Continues handler s s' calls)
    (h' : Continues handler s' s'' calls') : Continues handler s s'' (calls ++ calls') := by
  constructor
  · rw [h'.calls_eq, h.calls_eq, List.append_assoc]
  · rw [h'.running, h.running]
  · rw [List.filterMap_append]
    exact held_trans h.sock h'.sock
  · rw [List.filterMap_append, h.memory, h'.memory, List.append_nil]
  · rw [List.filterMap_append, h'.buffer, h.buffer, receiveAll, receiveAll, receiveAll,
      List.foldl_append]
  · rw [List.filterMap_append, List.filterMap_append, answerEach_append, h.net, h'.net, h.buffer]
  · rw [List.filterMap_append]
    exact List.forall_mem_append.mpr ⟨h.short, h'.short⟩

/-- Calls that touch neither the buffer nor the network. -/
theorem continues_quiet {sock : Option Nat}
    (hsock : held s.sock (calls.filterMap Call.sockEvent) = some sock)
    (hmemory : calls.filterMap Call.confEvent = []) (hnet : calls.filterMap Call.net = [])
    (hreceived : calls.filterMap Call.received = []) :
    Continues handler s { s with sock, calls := s.calls ++ calls } calls := by
  refine ⟨rfl, rfl, hsock, hmemory, ?_, ?_, ?_⟩ <;> rw [hreceived]
  · rfl
  · exact hnet
  · exact fun d hd => absurd hd List.not_mem_nil

/-- With a socket, a pass receives once and answers at most once. -/
theorem continues_serve (handler : ResponseHandler) {sock : Nat} (hsock : s.sock = some sock)
    (result : Received) :
    ∃ calls, Continues handler s (s.serve handler sock result) calls := by
  cases result with
  | again =>
    have hheld : held s.sock [.use sock] = some s.sock := by rw [hsock, held_use, held_nil]
    exact ⟨[.recvfrom sock .again, .delay 200], continues_quiet hheld rfl rfl rfl⟩
  | failed =>
    have hheld : held s.sock [.use sock, .release sock] = some none := by
      rw [hsock, held_use, held_release, held_nil]
    exact ⟨[.recvfrom sock .failed, .close sock, .delay 2000], continues_quiet hheld rfl rfl rfl⟩
  -- the handler sees the buffer with the datagram in it
  | datagram data sender =>
    have hshort : (data.take udpRecvBufSize).length ≤ udpRecvBufSize := List.length_take_le ..
    unfold UdpServer.serve
    dsimp only
    generalize data.take udpRecvBufSize = data at hshort
    cases hresponse : handler (receive s.query data) data.length with
    | none =>
      refine ⟨[.recvfrom sock (.datagram data sender)], rfl, rfl, ?_, rfl, rfl, ?_, ?_⟩
      · show held s.sock [.use sock] = some s.sock
        rw [hsock, held_use, held_nil]
      · show [Net.received data sender] = answerEach _ s.query [(data, sender)]
        rw [answerEach, hresponse]
        rfl
      · exact List.forall_mem_singleton.mpr hshort
    | some response =>
      refine ⟨[.recvfrom sock (.datagram data sender), .sendto sock response sender],
        List.append_assoc .., rfl, ?_, rfl, rfl, ?_, ?_⟩
      · show held s.sock [.use sock, .use sock] = some s.sock
        rw [hsock, held_use, held_use, held_nil]
      · show [Net.received data sender, .sent response sender] =
          answerEach _ s.query [(data, sender)]
        rw [answerEach, hresponse]
        rfl
      · exact List.forall_mem_singleton.mpr hshort

/-- A socket that cannot be bound is closed again. -/
theorem continues_create (handler : ResponseHandler) (conf : ServTaskConf) (hsock : s.sock = none)
    (p : Pass) :
    Continues handler s { s with
      sock := (udpSocketCreate conf p).1
      calls := s.calls ++ (udpSocketCreate conf p).2 } (udpSocketCreate conf p).2 := by
  unfold udpSocketCreate
  cases p.socket with
  | none => exact continues_quiet (by rw [hsock]; exact held_nil none) rfl rfl rfl
  | some sock =>
    -- a socket that cannot be bound is closed at once
    cases p.bound with
    | true =>
      have hheld : held s.sock [.acquire sock, .use sock, .use sock, .use sock] =
          some (some sock) := by
        rw [hsock, held_acquire, held_use, held_use, held_use, held_nil]
      exact continues_quiet hheld rfl rfl rfl
    | false =>
      have hheld : held s.sock [.acquire sock, .use sock, .release sock] = some none := by
        rw [hsock, held_acquire, held_use, held_release, held_nil]
      exact continues_quiet hheld rfl rfl rfl

/-- Every pass continues the run: it waits, makes sure of a socket, and serves. -/
theorem continues_pass (conf : ServTaskConf) (handler : ResponseHandler) (p : Pass)
    (s : UdpServer) : ∃ calls, Continues handler s (s.pass conf handler p) calls := by
  have hdelay : Continues handler s { s with calls := s.calls ++ [.delay 10] } [.delay 10] :=
    continues_quiet (held_nil s.sock) rfl rfl rfl
  unfold UdpServer.pass
  dsimp only
  cases hsock : s.sock with
  | some sock =>
    obtain ⟨calls, hserve⟩ := continues_serve handler
      (s := { s with calls := s.calls ++ [.delay 10] }) hsock p.recvfrom
    rw [hsock] at hdelay hserve
    exact ⟨_, hdelay.trans hserve⟩
  | none =>
    have hcreate := continues_create handler conf
      (s := { s with calls := s.calls ++ [.delay 10] }) hsock p
    rw [hsock] at hdelay hcreate
    generalize udpSocketCreate conf p = created at hcreate
    obtain ⟨sock, calls⟩ := created
    cases sock with
    | some sock =>
      obtain ⟨calls', hserve⟩ := continues_serve handler (s := { s with
        sock := some sock
        calls := s.calls ++ [.delay 10] ++ calls }) rfl p.recvfrom
      exact ⟨_, hdelay.trans (hcreate.trans hserve)⟩
    | none =>
      -- no socket: the pass is over after a longer wait
      have hwait : Continues handler { s with
          sock := none
          calls := s.calls ++ [.delay 10] ++ calls } _ [.delay 2000] :=
        continues_quiet (held_nil none) rfl rfl rfl
      exact ⟨_, hdelay.trans (hcreate.trans hwait)⟩

/-! ## The run -/

theorem events_ending (sock : Option Nat) (calls : List Call)
    (hcalls : calls = (sock.map Call.close).toList ++ [.free, .deleteTask]) :
    held sock (calls.filterMap Call.sockEvent) = some none ∧
      calls.filterMap Call.confEvent = [.release ()] ∧ calls.filterMap Call.net = [] ∧
      calls.filterMap Call.received = [] := by
  subst hcalls
  cases sock with
  | none => exact ⟨rfl, rfl, rfl, rfl⟩
  | some sock => exact ⟨held_release sock [], rfl, rfl, rfl⟩

/-- The socket is closed, if there is one, and the configuration is freed. -/
theorem Serving.stop (h : Serving handler query s) (hrunning : s.running = true) :
    Serving handler query s.stop := by
  -- the socket is closed, the configuration freed
  obtain ⟨hsock, hmemory, hnet, hreceived⟩ := events_ending s.sock _ rfl
  have hcalls : s.stop.calls =
      s.calls ++ ((s.sock.map Call.close).toList ++ [.free, .deleteTask]) := List.append_assoc ..
  have hsame : s.stop.calls.filterMap Call.received = s.calls.filterMap Call.received := by
    rw [hcalls, List.filterMap_append, hreceived, List.append_nil]
  have hheld := h.memory
  rw [if_pos hrunning] at hheld
  constructor
  · rw [hcalls, List.filterMap_append]
    exact held_trans h.sock hsock
  · rw [hcalls, List.filterMap_append, hmemory]
    exact held_trans hheld (held_release () [])
  · exact fun _ => rfl
  · rw [hsame]
    exact h.buffer
  · rw [hsame, hcalls, List.filterMap_append, hnet, List.append_nil]
    exact h.net
  · rw [hsame]
    exact h.short

/-- A step of a task with a handler keeps the invariant. -/
theorem Serving.step {conf : ServTaskConf} (hhandler : conf.createResponseHandler = some handler)
    (h : Serving handler query s) (p : Pass) : Serving handler query (s.step conf p) := by
  simp only [UdpServer.step, hhandler]
  split
  · rename_i hrunning
    split
    · obtain ⟨calls, hcontinues⟩ := continues_pass conf handler p s
      exact h.continues hrunning hcontinues
    · exact h.stop hrunning
  · exact h

/-- However the start goes, it leaves the invariant. -/
theorem serving_start {conf : ServTaskConf} (hhandler : conf.createResponseHandler = some handler)
    (malloc create : Bool) (query : Nat → UInt8) :
    Serving handler query (startServer conf malloc create query).2 := by
  cases malloc with
  | false => exact ⟨rfl, rfl, fun _ => rfl, rfl, rfl, fun d hd => absurd hd List.not_mem_nil⟩
  | true =>
    cases create with
    | false => exact ⟨rfl, rfl, fun _ => rfl, rfl, rfl, fun d hd => absurd hd List.not_mem_nil⟩
    | true =>
      simp only [startServer, UdpServer.enter, hhandler, if_true]
      exact ⟨rfl, rfl, fun _ => rfl, rfl, rfl, fun d hd => absurd hd List.not_mem_nil⟩

/-- The invariant over a run of a server with a handler. -/
theorem serving_run {conf : ServTaskConf} (hhandler : conf.createResponseHandler = some handler)
    (malloc create : Bool) (query : Nat → UInt8) (ps : List Pass) :
    Serving handler query
      (Machine.run (UdpServer.step conf) (startServer conf malloc create query).2 ps) :=
  Machine.run_invariant (fun _ p h => h.step hhandler p)
    (serving_start hhandler malloc create query) ps

/-- Without a handler nothing happens after the start. -/
theorem run_of_no_handler {conf : ServTaskConf} (hhandler : conf.createResponseHandler = none)
    (s : UdpServer) (ps : List Pass) : Machine.run (UdpServer.step conf) s ps = s := by
  induction ps with
  | nil => rfl
  | cons p ps ih =>
    have hstep : s.step conf p = s := by simp only [UdpServer.step, hhandler]
    rw [Machine.run_cons, hstep, ih]

/-- Over every run of a server, from its start on: each call on a socket is on the one created last,
    with no other socket created and none closed in between; no socket is left when the task is
    over, and the configuration is freed exactly then, or never if the task was created without a
    handler; and on the network each datagram is answered at once and by its sender's address, or
    not at all. -/
theorem udpServer_correct (conf : ServTaskConf) (malloc create : Bool) (query : Nat → UInt8)
    (ps : List Pass) :
    let s := Machine.run (UdpServer.step conf) (startServer conf malloc create query).2 ps
    let events := s.calls.filterMap Call.sockEvent
    let datagrams := s.calls.filterMap Call.received
    let leaked := malloc && create && conf.createResponseHandler.isNone
    held none events = some s.sock ∧
      (∀ before sock after, events = before ++ .use sock :: after →
        ∃ earlier uses, before = earlier ++ .acquire sock :: uses ∧ ∀ e ∈ uses, e = .use sock) ∧
      held none (s.calls.filterMap Call.confEvent) =
        some (if s.running || leaked then some () else none) ∧
      (s.running = false → s.sock = none) ∧
      (conf.createResponseHandler = none → s.running = false ∧ events = [] ∧ datagrams = []) ∧
      (∀ handler, conf.createResponseHandler = some handler →
        s.calls.filterMap Call.net = answerEach handler query datagrams) ∧
      ∀ d ∈ datagrams, d.1.length ≤ udpRecvBufSize := by
  intro s events datagrams leaked
  cases hhandler : conf.createResponseHandler with
  | some handler =>
    have h : Serving handler query s := serving_run hhandler malloc create query ps
    have hleaked : leaked = false := by
      simp only [leaked, hhandler, Option.isNone_some, Bool.and_false]
    rw [hleaked, Bool.or_false]
    refine ⟨h.sock, ?_, h.memory, h.stopped, ?_, ?_, h.short⟩
    · intro before sock after heq
      have hsock := h.sock
      rw [show s.calls.filterMap Call.sockEvent = _ from heq] at hsock
      exact acquired_of_use hsock
    · exact fun hnone => absurd hnone (Option.some_ne_none _)
    · intro handler' hhandler'
      rw [← Option.some.inj hhandler']
      exact h.net
  | none =>
    -- the run is over as it begins: what was allocated is freed only if no task was created
    have hs : s = (startServer conf malloc create query).2 := run_of_no_handler hhandler _ ps
    have hleaked : leaked = (malloc && create) := by
      simp only [leaked, hhandler, Option.isNone_none, Bool.and_true]
    have hquiet : s.running = false ∧ s.sock = none ∧ events = [] ∧ datagrams = [] ∧
        held none (s.calls.filterMap Call.confEvent) =
          some (if malloc && create then some () else none) := by
      simp only [events, datagrams, hs]
      cases malloc with
      | false => exact ⟨rfl, rfl, rfl, rfl, rfl⟩
      | true =>
        cases create with
        | false => exact ⟨rfl, rfl, rfl, rfl, rfl⟩
        | true =>
          have hstart : (startServer conf true true query).2 = ⟨false, none, query,
              [.malloc, .setBits conf.bitCtrl, .createTask, .deleteTask]⟩ := by
            simp only [startServer, UdpServer.enter, hhandler, if_true]
            rfl
          rw [hstart]
          exact ⟨rfl, rfl, rfl, rfl, rfl⟩
    obtain ⟨hrunning, hsock, hevents, hdatagrams, hmemory⟩ := hquiet
    rw [hleaked, hrunning, hsock, hevents, hdatagrams, Bool.false_or]
    refine ⟨rfl, ?_, hmemory, fun _ => rfl, fun _ => ⟨rfl, rfl, rfl⟩, ?_, ?_⟩
    · intro before sock after heq
      exact absurd heq.symm (List.append_ne_nil_of_right_ne_nil _ (List.cons_ne_nil _ _))
    · exact fun handler hsome => absurd hsome.symm (Option.some_ne_none _)
    · exact fun d hd => absurd hd List.not_mem_nil

/-- A datagram is received on socket 3 and sent back, then the bit is cleared: the socket is closed
    and the configuration freed. -/
theorem udpServer_correct_echo :
    let conf : ServTaskConf := ⟨bitEchoServerRun, ⟨0, 0, 0, 0⟩, 7, some echoResponseHandler⟩
    let sender : SockAddr := ⟨⟨10, 0, 0, 2⟩, 4000⟩
    let s := Machine.run (UdpServer.step conf) (startServer conf true true fun _ => 0).2
      [⟨bitEchoServerRun, some 3, true, .datagram [1, 2] sender⟩, ⟨0, none, false, .again⟩]
    s.calls.filterMap Call.net = [.received [1, 2] sender, .sent [1, 2] sender] ∧
      s.sock = none ∧ held none (s.calls.filterMap Call.confEvent) = some none := by
  intro conf sender s
  obtain ⟨-, -, hmemory, hstopped, -, hnet, -⟩ := udpServer_correct conf true true (fun _ => 0)
    [⟨bitEchoServerRun, some 3, true, .datagram [1, 2] sender⟩, ⟨0, none, false, .again⟩]
  have hrunning : s.running = false := by decide +kernel
  have hdatagrams : s.calls.filterMap Call.received = [([1, 2], sender)] := by decide +kernel
  refine ⟨?_, hstopped hrunning, ?_⟩
  · rw [show s.calls.filterMap Call.net = _ from hnet echoResponseHandler rfl, hdatagrams]
    decide +kernel
  · exact hmemory.trans (by rw [hrunning]; rfl)

/-- A BGCP server whose block holds `NULL` in the place of the handler is over as soon as it is
    started, and its configuration is never freed. -/
theorem bgcpServer_leaks (ip : Ipv4) (port : UInt16) (query : Nat → UInt8) (ps : List Pass) :
    let conf : ServTaskConf := ⟨bitBgcpServerRun, ip, port, none⟩
    let start := startBgcpServer ip port none true true query
    let s := Machine.run (UdpServer.step conf) start.2 ps
    start.1 = true ∧ s.running = false ∧
      held none (s.calls.filterMap Call.confEvent) = some (some ()) := by
  intro conf start s
  have hs : s = start.2 := run_of_no_handler rfl _ ps
  rw [hs]
  exact ⟨rfl, rfl, rfl⟩

/-! ## What the servers send -/

/-- Datagrams on the network, each with the answer to it, if there is one. -/
def conversation (ds : List (List UInt8 × SockAddr)) (answers : List (Option (List UInt8))) :
    List Net :=
  (ds.zip answers).flatMap fun p =>
    .received p.1.1 p.1.2 :: (p.2.map (Net.sent · p.1.2)).toList

/-- What holds of the answer to a datagram whatever stood in the buffer before. -/
theorem answerEach_forall (handler : ResponseHandler)
    {P : List UInt8 × SockAddr → Option (List UInt8) → Prop} {ds : List (List UInt8 × SockAddr)}
    (h : ∀ d ∈ ds, ∀ query, P d (handler (receive query d.1) d.1.length)) (query : Nat → UInt8) :
    ∃ answers, List.Forall₂ P ds answers ∧
      answerEach handler query ds = conversation ds answers := by
  induction ds generalizing query with
  | nil => exact ⟨[], .nil, rfl⟩
  | cons d ds ih =>
    obtain ⟨hd, hds⟩ := List.forall_mem_cons.mp h
    obtain ⟨answers, hanswers, heq⟩ := ih hds (receive query d.1)
    exact ⟨_, .cons (hd query) hanswers, by rw [answerEach, heq]; rfl⟩

theorem receive_eq {data : List UInt8} {i : Nat} (hi : i < data.length) (query : Nat → UInt8) :
    receive query data i = data[i] := dif_pos hi

theorem block_receive {data : List UInt8} {n : Nat} (hn : n ≤ data.length) (query : Nat → UInt8) :
    block (receive query data) 0 n = data.take n := by
  apply List.ext_getElem
  · simp [hn]
  · intro i hi hi'
    rw [Labels.length_block] at hi
    simp [block, receive_eq (Nat.lt_of_lt_of_le hi hn)]

/-- The echo server sends every datagram back that is not empty. -/
theorem pingServer_echoes (malloc create : Bool) (query : Nat → UInt8) (ps : List Pass) :
    let conf : ServTaskConf := ⟨bitEchoServerRun, ⟨0, 0, 0, 0⟩, 7, some echoResponseHandler⟩
    let s := Machine.run (UdpServer.step conf) (startPingServer malloc create query).2 ps
    let ds := s.calls.filterMap Call.received
    s.calls.filterMap Call.net =
      conversation ds (ds.map fun d => if d.1 = [] then none else some d.1) := by
  intro conf s ds
  have hnet := (@serving_run _ conf rfl malloc create query ps).net
  -- the answer does not depend on what was in the buffer before
  have hecho : ∀ d ∈ ds, ∀ query, (if d.1 = [] then none else some d.1) =
      echoResponseHandler (receive query d.1) d.1.length := by
    intro d _ query
    rw [echoResponseHandler, block_receive (Nat.le_refl _), List.take_length]
    cases d.1 <;> rfl
  obtain ⟨answers, hanswers, heq⟩ := answerEach_forall echoResponseHandler
    (P := fun d a => (if d.1 = [] then none else some d.1) = a) hecho query
  rw [← List.forall₂_map_left_iff (R := Eq), List.forall₂_eq_eq_eq] at hanswers
  rw [hanswers]
  exact hnet.trans heq

/-- A datagram in a buffer of its own. -/
def bytesOf (data : List UInt8) : Nat → UInt8 := receive (fun _ => 0) data

/-- Where the host name is spelled in the datagram, up to the end or a byte zero, the byte zero and
    the type and the class of the question follow. -/
def WholeQuestion (data : List UInt8) : Prop :=
  ∀ z, Dns.SpelledTo (bytesOf data) z → z ≤ data.length → (z < data.length → bytesOf data z = 0) →
    z + 5 ≤ data.length

/-- A name that is closed leaves no other place for the host name to end. -/
theorem wholeQuestion_of_closed {data : List UInt8} {ls : List Labels.Label}
    (h : Labels.Closed (bytesOf data) Dns.sizeofDnsHeader ls)
    (hroom : Dns.sizeofDnsHeader + Labels.size ls + 5 ≤ data.length) : WholeQuestion data := by
  intro z hspelled _ _
  obtain ⟨ls', hwire, rfl, -⟩ := hspelled
  have hsize := hwire.size_le_of_closed h
  omega

/-- What the DNS server sends for a datagram in a buffer of its own. -/
def dnsAnswer (hostIp : Ipv4) (data : List UInt8) : Option (List UInt8) :=
  dnsHandler hostIp (bytesOf data) data.length

theorem dnsHandler_eq_reply (hostIp : Ipv4) (query : Nat → UInt8) (queryLen : Nat) :
    dnsHandler hostIp query queryLen = (Dns.reply query queryLen hostIp).map Prod.snd := by
  rw [dnsHandler, Dns.reply, Option.map_map]
  rfl

/-- A whole question is answered by itself. -/
theorem dnsHandler_of_whole {data : List UInt8} (hwhole : WholeQuestion data) (hostIp : Ipv4)
    (query : Nat → UInt8) :
    dnsHandler hostIp (receive query data) data.length = dnsAnswer hostIp data := by
  rw [dnsAnswer, dnsHandler_eq_reply, dnsHandler_eq_reply]
  apply congrArg (Option.map Prod.snd)
  exact Dns.reply_congr hwhole fun i hi => by rw [bytesOf, receive_eq hi, receive_eq hi]

/-- An answer carries the identifier and the flags of the datagram, and ends with the address of the
    host. -/
theorem dnsHandler_spec {hostIp : Ipv4} {query : Nat → UInt8} {data response : List UInt8}
    (h : dnsHandler hostIp (receive query data) data.length = some response) :
    response.length ≤ 57 ∧ response.take 6 = data.take 6 ∧ hostIp.bytes <:+ response := by
  rw [dnsHandler_eq_reply] at h
  by_cases hip : hostIp = ⟨0, 0, 0, 0⟩
  · rw [hip, Dns.reply_of_no_ip] at h
    cases h
  · by_cases hany : ∃ z, Dns.Matches (receive query data) data.length z
    · obtain ⟨z, hz⟩ := hany
      have hle := hz.spelled.le
      have hlen := hz.le_len
      rw [Dns.reply_eq hip hz] at h
      obtain rfl := Option.some.inj h
      have hheader : Dns.sizeofDnsHeader = 12 := rfl
      refine ⟨?_, ?_, ?_⟩
      · simp only [Dns.responseBytes, List.length_append, Labels.length_block, List.length_cons,
          List.length_nil, Dns.answerHead, Ipv4.bytes]
        omega
      · -- the identification and the flags
        rw [← block_receive (show 6 ≤ data.length by omega) query]
        simp only [Dns.responseBytes, List.append_assoc]
        exact List.take_left' (Labels.length_block ..)
      · exact ⟨_, List.append_assoc ..⟩
    · rw [not_exists] at hany
      rw [Dns.reply_eq_none hany] at h
      cases h

/-- Over every run of the DNS server, each datagram gets at most one answer, which is of at most 57
    bytes, carries the identifier and the flags of that datagram and the address of the host, and,
    if the question is whole, depends on nothing but the datagram. -/
theorem dnsServer_answers (hostIp : Ipv4) (malloc create : Bool) (query : Nat → UInt8)
    (ps : List Pass) :
    let conf : ServTaskConf := ⟨bitDnsServerRun, ⟨0, 0, 0, 0⟩, 53, some (dnsHandler hostIp)⟩
    let s := Machine.run (UdpServer.step conf) (startDnsServer hostIp malloc create query).2 ps
    let ds := s.calls.filterMap Call.received
    ∃ answers, s.calls.filterMap Call.net = conversation ds answers ∧
      List.Forall₂ (fun d a => (WholeQuestion d.1 → a = dnsAnswer hostIp d.1) ∧
        ∀ response ∈ a, response.length ≤ 57 ∧ response.take 6 = d.1.take 6 ∧
          hostIp.bytes <:+ response) ds answers := by
  intro conf s ds
  have hnet := (@serving_run _ conf rfl malloc create query ps).net
  obtain ⟨answers, hanswers, heq⟩ := answerEach_forall (dnsHandler hostIp)
    (P := fun d a => (WholeQuestion d.1 → a = dnsAnswer hostIp d.1) ∧
      ∀ response ∈ a, response.length ≤ 57 ∧ response.take 6 = d.1.take 6 ∧
        hostIp.bytes <:+ response)
    (fun d _ query => ⟨fun hwhole => dnsHandler_of_whole hwhole hostIp query,
      fun _ hresponse => dnsHandler_spec hresponse⟩) query
  exact ⟨answers, hnet.trans heq, hanswers⟩

end EspTesting.Udp
