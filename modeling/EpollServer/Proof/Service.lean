import EpollServer.Proof.Network

/-!
# The server serves each connection

Two results about the whole server with its network: each connection runs as if it had the server for itself, and
when the thread of its loop waits, every message that arrived on it is answered.
-/

namespace EpollServer

open Framing

/-- Whether a system call fails for good. -/
def Label.fails : Label → Bool
  | .read _ r => r.isHard
  | .write _ r => r.isHard
  | _ => false

namespace Network

variable {n n' : Network} {action : Action} {t c : Nat} {move : Move} {full : Bool}

/-- **Each connection runs alone.** Where `epoll_ctl` succeeds, whatever the callbacks do, the system calls return
and the order of the threads is: what a connection that is registered looks like, a connection with a server of
its own can look like, and each step of the server is a step of it or leaves it as it is. -/
theorem runs_alone (hn : Machine.Reachable Network.step Registers Fresh n) (hup : n.Up c) :
    Machine.Reachable Endpoint.step (fun _ _ => True) Endpoint.Fresh (n.endpoint c) ∧
      ∀ action n', n.Registers action → n.step action = some n' → n'.Up c →
        Machine.Follows Endpoint.step (n.projects c action) (n.endpoint c) (n'.endpoint c) := by
  obtain ⟨hs, -⟩ := kept_of_reachable (fun _ _ => id) hn
  refine ⟨endpoint_of_reachable (fun _ _ => id) (fun _ _ _ _ _ _ _ => trivial) hn hup, ?_⟩
  exact fun action n' hok h hup' => endpoint_step hs hok h hup hup'.registered

/-- The callbacks are the echo server's, and `epoll_ctl` succeeds. -/
def Answers (n : Network) : Action → Prop
  | .peer _ _ => True
  | .thread t move _ => n.server.Echoes (t, move)

instance (n : Network) : (action : Action) → Decidable (n.Answers action)
  | .peer _ _ => .isTrue trivial
  | .thread t move _ => inferInstanceAs (Decidable (n.server.Echoes (t, move)))

theorem Answers.registers (h : n.Answers action) : n.Registers action := by
  cases action with
  | peer => trivial
  | thread => exact h.1

/-- Besides, no system call on connection `c` fails for good. -/
def Echoes (c : Nat) (n : Network) (action : Action) : Prop :=
  n.Answers action ∧ match action with
    | .peer _ _ => True
    | .thread t move _ => ∀ step ∈ n.server.runs (t, move), step.1 = c → step.2.fails = false

instance (c : Nat) (n : Network) (action : Action) : Decidable (Echoes c n action) := by
  unfold Echoes
  cases action <;> infer_instance

theorem endpoint_of_runs (hs : n.server.Regular) {label : Label}
    (hruns : n.server.runs (t, move) = some (c, label)) :
    move = .run label ∧ (n.endpoint c).session = (n.server.slots c).session := by
  unfold Server.runs at hruns
  split at hruns
  · rename_i c' guard rest label' hpc hmove
    cases hruns
    exact ⟨hmove, by rw [endpoint_of_handling hs hpc]⟩
  · cases hruns

theorem runs_of_projects {label : Label} {full : Bool} (h : n.projects c action = some (.run label full)) :
    ∃ t, action = .thread t (.run label) full ∧ n.server.runs (t, .run label) = some (c, label) := by
  cases action with
  | peer k event =>
      obtain ⟨-, h⟩ := Option.ite_none_right_eq_some.mp h
      cases event <;> cases h
  | thread t move full' =>
      cases move with
      | run label' =>
          obtain ⟨hruns, h⟩ := Option.ite_none_right_eq_some.mp h
          cases h
          exact ⟨t, rfl, hruns⟩
      | epollWait ready =>
          obtain ⟨-, h⟩ := Option.ite_none_right_eq_some.mp h
          cases h
      | accept | construct | next => cases h

theorem Answers.endpoint (h : n.Answers action) (hs : n.server.Regular) {a : Endpoint.Action}
    (hprojects : n.projects c action = some a) : (n.endpoint c).Answers a := by
  cases a with
  | run label full =>
      obtain ⟨t, rfl, hruns⟩ := runs_of_projects hprojects
      rw [Endpoint.Answers, (endpoint_of_runs hs hruns).2]
      exact h.2 _ hruns
  | arrive | fin | drain | epollWait => trivial

theorem Echoes.endpoint (h : Echoes c n action) (hs : n.server.Regular) {a : Endpoint.Action}
    (hprojects : n.projects c action = some a) : (n.endpoint c).Echoes a := by
  cases a with
  | run label full =>
      obtain ⟨t, rfl, hruns⟩ := runs_of_projects hprojects
      have hanswers : (n.endpoint c).session.Echoes label := h.1.endpoint hs hprojects
      have hsoft : label.fails = false := h.2 _ hruns rfl
      cases label with
      | onMessage | call => exact hanswers
      | epollCtl ok => exact h.1.1
      | read | write => exact hsoft
      | event | tau | onClose => trivial
  | arrive | fin | drain | epollWait => trivial

theorem endpoint_of_echoes (hn : Machine.Reachable Network.step (Echoes c) Fresh n) (hup : n.Up c) :
    Machine.Reachable Endpoint.step Endpoint.Echoes Endpoint.Fresh (n.endpoint c) :=
  endpoint_of_reachable (fun _ _ h => h.1.registers) (fun _ _ _ hs _ hok h => hok.endpoint hs h) hn hup

/-- The bytes of a socket are those of its connection. -/
theorem traffic_of_answers {ok : Network → Action → Prop}
    (hok : ∀ n action, ok n action → n.Answers action)
    (hn : Machine.Reachable Network.step ok Fresh n) : n.server.Traffic := by
  have hs : Machine.Reachable Server.step Server.Echoes (fun s => s.Fresh ∧ s.ExactTid) n.server :=
    server_of_reachable (fun n t move full h => hok n (.thread t move full) h) hn
  exact (Server.traffic_of_reachable (hs.mono (fun _ => And.left) fun _ _ => id)).2.2.2

/-- A connection that is open is registered. -/
theorem up_of_connected (hs : n.server.Regular)
    (henabled : Stage.enableRead.index < (n.server.slots c).stage.index)
    (hstate : (n.server.slots c).session.conn.state = .connected) : n.Up c := by
  obtain ⟨-, -, hsound⟩ := hs.sound
  have hclosing := hsound.closing c
  rw [Session.Closing, hstate, if_neg (by decide)] at hclosing
  have hchain := hsound.chain c
  exact ⟨henabled, by omega⟩

/-- A connection at rest has been answered. -/
theorem answered_of_quiet (hn : Machine.Reachable Network.step (Echoes c) Fresh n)
    (henabled : Stage.enableRead.index < (n.server.slots c).stage.index)
    (hstate : (n.server.slots c).session.conn.state = .connected)
    (hpc : (n.server.threads (n.server.slots c).eventLoop).pc = .epollWait)
    (hquiet : n.ready c = false) (hroom : (n.sockets c).sendFull = false) :
    n.server.input c = (n.sockets c).received ∧
      n.server.output c = (bodies tlv (n.sockets c).received).flatMap frameBytes := by
  obtain ⟨hs, -⟩ := kept_of_reachable (fun _ _ h => h.1.registers) hn
  have htraffic := traffic_of_answers (fun _ _ h => h.1) hn
  have hendpoint := endpoint_of_none (n := n) (c := c) (by rw [hpc]; rfl)
  have hreachable := endpoint_of_echoes hn (up_of_connected hs henabled hstate)
  have hrest : (n.endpoint c).AtRest := by
    rw [hendpoint]
    exact ⟨Up.idle_of_waiting hs hpc, hquiet, hroom⟩
  obtain ⟨hread, hwritten⟩ := hrest.answered hreachable (by rw [hendpoint]; exact hstate)
  rw [hendpoint] at hread hwritten
  exact ⟨htraffic.input c ▸ hread, htraffic.output c ▸ hwritten⟩

/-- **Every connection gets its answers.** In every run of the echo server with any number of threads and
connections, the bytes that arrived on a socket were read from it, or are still in its queue. And when the thread
of its loop waits, an open connection whose item is not ready and that can send has read all that arrived, and
what was written to its socket is one frame with the same body for each whole frame that arrived. -/
theorem answers_everyone (hn : Machine.Reachable Network.step (Echoes c) Fresh n) :
    (∀ k, (n.sockets k).received = n.server.input k ++ (n.sockets k).recvQueue) ∧
      (Stage.enableRead.index < (n.server.slots c).stage.index →
        (n.server.slots c).session.conn.state = .connected →
        (n.server.threads (n.server.slots c).eventLoop).pc = .epollWait →
        n.ready c = false → (n.sockets c).sendFull = false →
          n.server.input c = (n.sockets c).received ∧
            n.server.output c = (bodies tlv (n.sockets c).received).flatMap frameBytes) := by
  obtain ⟨-, hkept⟩ := kept_of_reachable (fun _ _ h => h.1.registers) hn
  have htraffic := traffic_of_answers (fun _ _ h => h.1) hn
  refine ⟨fun k => htraffic.input k ▸ hkept k, fun henabled hstate hpc hquiet hroom => ?_⟩
  exact answered_of_quiet hn henabled hstate hpc hquiet hroom

theorem fresh_start (threadNums : Nat) : (start threadNums).Fresh :=
  ⟨Server.fresh_start threadNums id id, Server.exactTid_start threadNums, fun _ => rfl⟩

/-- The steps of thread `t` that leave everything to the server. -/
def goOn (t count : Nat) : List Action := List.replicate count (.thread t (.next true) false)

/-- A connection is accepted, and a message of one byte arrives. -/
def arriving : List Action :=
  [.thread 0 (.epollWait [.accept]) false, .thread 0 (.accept (some 7)) false,
    .thread 0 (.construct .invalid false true) false] ++ goOn 0 11 ++
  [.peer 0 (.arrive [0, 0, 0, 0, 0, 0, 0, 1, 7]),
    .thread 1 (.epollWait [.conn 7 0 { EpollEvents.none with epollin := true }]) false]

theorem runs_alone_arriving : ∃ n : Network, n.Up 0 ∧
    Machine.Reachable Endpoint.step (fun _ _ => True) Endpoint.Fresh (n.endpoint 0) := by
  have hview : (Machine.run Network.step Registers (start 1) arriving).map (fun n =>
      ((n.server.slots 0).stage, (n.server.slots 0).unregistered)) = some (.done, 0) := by
    decide +kernel
  obtain ⟨n, hrun, hend⟩ := Option.map_eq_some_iff.mp hview
  obtain ⟨hstage, hregistered⟩ := Prod.mk.inj hend
  have hup : n.Up 0 := ⟨by rw [hstage]; decide, hregistered⟩
  exact ⟨n, hup, (runs_alone (.run (.init (fresh_start 1)) hrun) hup).1⟩

/-- The sub reactor reads the message and answers it. -/
def answering : List Action :=
  arriving ++ goOn 1 1 ++
  [.thread 1 (.run .tau) false, .thread 1 (.run (.read 8 (.data [0, 0, 0, 0, 0, 0, 0, 1]))) false,
    .thread 1 (.run (.read 1 (.data [7]))) false, .thread 1 (.run (.onMessage [.send2 [7]])) false,
    .thread 1 (.run .tau) false, .thread 1 (.run (.epollCtl true)) false, .thread 1 (.run .tau) false] ++
  goOn 1 6 ++
  [.thread 1 (.epollWait [.conn 7 0 { EpollEvents.none with epollout := true }]) false] ++ goOn 1 1 ++
  [.thread 1 (.run (.write [0, 0, 0, 0, 0, 0, 0, 1, 7] (.accepted 9))) false] ++ goOn 1 6

theorem answers_everyone_one : ∃ n : Network, Machine.Reachable Network.step (Echoes 0) Fresh n ∧
    (n.sockets 0).received = [0, 0, 0, 0, 0, 0, 0, 1, 7] ∧
      n.server.output 0 = (bodies tlv (n.sockets 0).received).flatMap frameBytes := by
  have hview : (Machine.run Network.step (Echoes 0) (start 1) answering).map (fun n => decide (
      (n.server.slots 0).stage = .done ∧ (n.server.slots 0).session.conn.state = .connected ∧
      (n.server.threads (n.server.slots 0).eventLoop).pc = .epollWait ∧ n.ready 0 = false ∧
      (n.sockets 0).sendFull = false ∧
      (n.sockets 0).received = [0, 0, 0, 0, 0, 0, 0, 1, 7])) = some true := by
    decide +kernel
  obtain ⟨n, hrun, hend⟩ := Option.map_eq_some_iff.mp hview
  obtain ⟨hstage, hstate, hpc, hquiet, hroom, hreceived⟩ := of_decide_eq_true hend
  have hn : Machine.Reachable Network.step (Echoes 0) Fresh n := .run (.init (fresh_start 1)) hrun
  obtain ⟨-, hanswered⟩ := answers_everyone hn
  exact ⟨n, hn, hreceived, (hanswered (by rw [hstage]; decide) hstate hpc hquiet hroom).2⟩

end Network

end EpollServer
