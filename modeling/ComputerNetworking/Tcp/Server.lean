/-
# ComputerNetworking.Tcp.Server -- configuring, starting and stopping a server

The setters of `tcp::Server`, `start` and `stop`. Whether the server runs is known from `server_pid` alone.
`start` sets it to what `fork` returns, and does not set it in thread mode. So in thread mode a running server
can still be configured, and started again.
-/
import ComputerNetworking.Lib.Bytes
import ComputerNetworking.Tcp.ClientHandler

namespace ComputerNetworking.Tcp

open ComputerNetworking.Lib

/-- `Server`, without the socket and the count of timeouts. -/
structure Server where
  clientHandler : ClientHandler
  serverPid : Int
  serverIpAddr : Bytes
  portNo : UInt32
  timeout : UInt32
  maxTimeouts : UInt32
  backlog : UInt32
  debugMode : Bool
  useThread : Bool
  timeoutHandler : Address
  deriving DecidableEq

/-- What a call throws. -/
inductive Thrown where
  | configurationError (what : String)
  /-- `std::system_error`, from `std::thread`. -/
  | systemError
  deriving DecidableEq

namespace Server

/-- `Server()`. -/
def new : Server := ⟨.new, -1, [], 0, 1, 0, 5, false, false, 0⟩

/-! ## Setters -/

/-- A setter: what it throws while the server runs, and what it sets. -/
def configure (what : String) (change : Server → Server) (s : Server) : Except Thrown Unit × Server :=
  if 0 ≤ s.serverPid then (.error (.configurationError what), s) else (.ok (), change s)

def setPort (portNo : UInt32) : Server → Except Thrown Unit × Server :=
  configure "Cannot set port while server is running" fun s => { s with portNo := portNo }

/-- `INET6_ADDRSTRLEN`. -/
def inet6AddrStrLen : Nat := 46

/-- The text of the address, mapped to IPv6 if it has no colon, and cut off in front of the NUL. -/
def setIpAddr (ipAddr : Bytes) : Server → Except Thrown Unit × Server :=
  configure "Cannot set IP address while server is running" fun s =>
    let address := if (0x3A : UInt8) ∈ ipAddr then ipAddr else ascii "::ffff:" ++ ipAddr
    { s with serverIpAddr := address.take (inet6AddrStrLen - 1) }

def setTimeout (timeout : UInt32) : Server → Except Thrown Unit × Server :=
  configure "Cannot set timeout while server is running" fun s => { s with timeout := timeout }

def setMaxTimeouts (maxTimeouts : UInt32) : Server → Except Thrown Unit × Server :=
  configure "Cannot set max timeouts while server is running" fun s =>
    { s with maxTimeouts := maxTimeouts }

def setBacklog (backlog : UInt32) : Server → Except Thrown Unit × Server :=
  configure "Cannot set backlog while server is running" fun s => { s with backlog := backlog }

def debug (mode : Bool) : Server → Except Thrown Unit × Server :=
  configure "Cannot set debug mode while server is running" fun s =>
    { s with debugMode := mode, clientHandler := { s.clientHandler with debugMode := mode } }

def setTimeoutHandler (handler : Address) : Server → Except Thrown Unit × Server :=
  configure "Cannot set timeout handler while server is running" fun s =>
    { s with timeoutHandler := handler }

def useThreads : Server → Except Thrown Unit × Server :=
  configure "Cannot set use threads while server is running" fun s =>
    { s with clientHandler := { s.clientHandler with useThread := true }, useThread := true }

def addHandler (handler : Address) : Server → Except Thrown Unit × Server :=
  configure "Cannot add handler while server is running" fun s =>
    { s with clientHandler :=
      { s.clientHandler with handlers := s.clientHandler.handlers ++ [handler] } }

def setHandlerMode (mode : HandleMode) : Server → Except Thrown Unit × Server :=
  configure "Cannot set handler mode while server is running" fun s =>
    { s with clientHandler := { s.clientHandler with mode := mode } }

def setMaxClients (maxClients : UInt32) : Server → Except Thrown Unit × Server :=
  configure "Cannot set max clients while server is running" fun s =>
    { s with clientHandler := { s.clientHandler with maxClients := maxClients } }

def addHandlerExtraData (data : Address) : Server → Except Thrown Unit × Server :=
  configure "Cannot set extra data while server is running" fun s =>
    { s with clientHandler := { s.clientHandler with extraData := data } }

/-! ## Starting and stopping -/

/-- What `fork` returns to the process that calls it. -/
abbrev Forked := { pid : Int // pid = -1 ∨ 0 < pid }

/-- `start`, given what `fork` returns and whether `std::thread` gets its thread. The other process runs the
server and does not come back from `start`. -/
def start (forked : Forked) (spawned : Bool) (s : Server) : Except Thrown Int × Server :=
  if 0 ≤ s.serverPid then (.error (.configurationError "Server already running"), s)
  else if s.portNo = 0 then (.error (.configurationError "Port number not set"), s)
  else if s.backlog = 0 then (.error (.configurationError "Backlog not set"), s)
  else if s.clientHandler.handlers.length = 0 then
    (.error (.configurationError "No client handlers set"), s)
  else if s.clientHandler.maxClients = 0 then (.error (.configurationError "Max clients not set"), s)
  else if !s.useThread then (.ok forked.val, { s with serverPid := forked.val })
  else if spawned then (.ok s.serverPid, s)
  else (.error .systemError, s)

inductive Signal where
  | kill
  | term
  deriving DecidableEq

/-- `stop`: the signal sent, and the server afterwards. -/
def stop (force : Bool) (s : Server) : Option (Int × Signal) × Server :=
  if s.serverPid < 0 then (none, s)
  else (some (s.serverPid, if force then .kill else .term), { s with serverPid := -1 })

end Server

/-! ## Sequences of calls -/

inductive Setter where
  | setPort (portNo : UInt32)
  | setIpAddr (ipAddr : Bytes)
  | setTimeout (timeout : UInt32)
  | setMaxTimeouts (maxTimeouts : UInt32)
  | setBacklog (backlog : UInt32)
  | debug (mode : Bool)
  | setTimeoutHandler (handler : Address)
  | useThreads
  | addHandler (handler : Address)
  | setHandlerMode (mode : HandleMode)
  | setMaxClients (maxClients : UInt32)
  | addHandlerExtraData (data : Address)

def Setter.call : Setter → Server → Except Thrown Unit × Server
  | setPort portNo => Server.setPort portNo
  | setIpAddr ipAddr => Server.setIpAddr ipAddr
  | setTimeout timeout => Server.setTimeout timeout
  | setMaxTimeouts maxTimeouts => Server.setMaxTimeouts maxTimeouts
  | setBacklog backlog => Server.setBacklog backlog
  | debug mode => Server.debug mode
  | setTimeoutHandler handler => Server.setTimeoutHandler handler
  | useThreads => Server.useThreads
  | addHandler handler => Server.addHandler handler
  | setHandlerMode mode => Server.setHandlerMode mode
  | setMaxClients maxClients => Server.setMaxClients maxClients
  | addHandlerExtraData data => Server.addHandlerExtraData data

inductive Call where
  | set (setter : Setter)
  | start (forked : Server.Forked) (spawned : Bool)
  | stop (force : Bool)

/-- A server object, with how many servers it has launched, and whether the last `start` that launched one
came after the last `stop`. -/
structure Session where
  server : Server
  started : Bool
  launched : Nat
  deriving DecidableEq

/-- `start` launches a server: it returns, and with a pid in process mode. -/
def launches (forked : Server.Forked) (spawned : Bool) (s : Server) : Bool :=
  match (s.start forked spawned).1 with
  | .ok pid => s.useThread || 0 < pid
  | .error _ => false

/-- One call. -/
def Session.call (t : Session) : Call → Session
  | .set setter => { t with server := (setter.call t.server).2 }
  | .start forked spawned =>
      let server := (t.server.start forked spawned).2
      if launches forked spawned t.server then ⟨server, true, t.launched + 1⟩
      else { t with server := server }
  | .stop force => { t with server := (t.server.stop force).2, started := false }

/-- A server object, from its construction on. -/
def sessions : Machine Session Call where
  init t := t = ⟨.new, false, 0⟩
  step t call := some (t.call call)

/-- Setters and `start` throw a `ConfigurationError`, change nothing and launch nothing. -/
structure Frozen (t : Session) : Prop where
  setters : ∀ setter : Setter, ∃ what,
    setter.call t.server = (.error (.configurationError what), t.server)
  restart : ∀ forked spawned, (∃ what,
    t.server.start forked spawned = (.error (.configurationError what), t.server)) ∧
      t.call (.start forked spawned) = t

/-! ## What the calls do -/

section Calls

variable {s : Server} {t : Session}

/-- All setters look at `server_pid` and nothing else before they set something. -/
theorem Setter.call_eq (setter : Setter) :
    ∃ what change, setter.call = Server.configure what change ∧
      ∀ s, (change s).serverPid = s.serverPid ∧ ((change s).useThread = false → s.useThread = false) := by
  cases setter with
  | useThreads =>
      refine ⟨_, _, rfl, fun s => ⟨rfl, fun h => ?_⟩⟩
      cases h
  | _ => exact ⟨_, _, rfl, fun s => ⟨rfl, id⟩⟩

theorem Server.configure_of_running {what : String} {change : Server → Server} (h : 0 ≤ s.serverPid) :
    configure what change s = (.error (.configurationError what), s) :=
  if_pos h

theorem Server.configure_of_not_running {what : String} {change : Server → Server}
    (h : s.serverPid < 0) : configure what change s = (.ok (), change s) :=
  if_neg (Int.not_le.mpr h)

theorem Server.start_of_running (forked : Server.Forked) (spawned : Bool) (h : 0 ≤ s.serverPid) :
    s.start forked spawned = (.error (.configurationError "Server already running"), s) :=
  if_pos h

/-- **What `start` does.** -/
theorem Server.start_cases (forked : Server.Forked) (spawned : Bool) (s : Server) :
    (∃ e, s.start forked spawned = (.error e, s)) ∨
      s.serverPid < 0 ∧
        (s.useThread = false ∧ s.start forked spawned = (.ok forked.val, { s with serverPid := forked.val }) ∨
          s.useThread = true ∧ s.start forked spawned = (.ok s.serverPid, s)) := by
  unfold start
  split_ifs with hrunning hport hbacklog hhandlers hmax hmode hspawned
  · exact .inl ⟨_, rfl⟩
  · exact .inl ⟨_, rfl⟩
  · exact .inl ⟨_, rfl⟩
  · exact .inl ⟨_, rfl⟩
  · exact .inl ⟨_, rfl⟩
  · exact .inr ⟨Int.not_le.mp hrunning, .inl ⟨by simpa using hmode, rfl⟩⟩
  · exact .inr ⟨Int.not_le.mp hrunning, .inr ⟨by simpa using hmode, rfl⟩⟩
  · exact .inl ⟨_, rfl⟩

/-- Behind `stop` there is no pid. -/
theorem Server.stop_idle (s : Server) (force : Bool) : (s.stop force).2.serverPid < 0 := by
  unfold stop
  by_cases hidle : s.serverPid < 0
  · rw [if_pos hidle]
    exact hidle
  · rw [if_neg hidle]
    show (-1 : Int) < 0
    decide

/-- In process mode a started server has a pid; in thread mode there never is one. -/
structure Tracked (t : Session) : Prop where
  process : t.started = true → t.server.useThread = false → 0 ≤ t.server.serverPid
  thread : t.server.useThread = true → t.server.serverPid < 0

theorem Tracked.set (h : Tracked t) (setter : Setter) : Tracked (t.call (.set setter)) := by
  obtain ⟨what, change, hcall, hchange⟩ := setter.call_eq
  show Tracked { t with server := (setter.call t.server).2 }
  rw [hcall]
  by_cases hrunning : 0 ≤ t.server.serverPid
  · rw [Server.configure_of_running hrunning]
    exact h
  · rw [Int.not_le] at hrunning
    rw [Server.configure_of_not_running hrunning]
    obtain ⟨hpid, hmode⟩ := hchange t.server
    constructor
    · intro hstarted hprocess
      exact absurd (h.process hstarted (hmode hprocess)) (Int.not_le.mpr hrunning)
    · intro _
      show (change t.server).serverPid < 0
      rw [hpid]
      exact hrunning

theorem Tracked.start (h : Tracked t) (forked : Server.Forked) (spawned : Bool) :
    Tracked (t.call (.start forked spawned)) := by
  rcases t.server.start_cases forked spawned with
    ⟨e, herror⟩ | ⟨hidle, ⟨hmode, hprocess⟩ | ⟨hmode, hthread⟩⟩
  · have hsame : t.call (.start forked spawned) = t := by
      simp [Session.call, launches, herror]
    rw [hsame]
    exact h
  · have hnoThread : t.server.useThread ≠ true := by
      rw [hmode]
      decide
    by_cases hpid : 0 < forked.val
    · have hstarts : t.call (.start forked spawned) =
          ⟨{ t.server with serverPid := forked.val }, true, t.launched + 1⟩ := by
        simp [Session.call, launches, hprocess, hpid]
      rw [hstarts]
      exact ⟨fun _ _ => Int.le_of_lt hpid, fun hthread => absurd hthread hnoThread⟩
    · -- `fork` has failed, and the server was not started before
      have hfails : t.call (.start forked spawned) =
          { t with server := { t.server with serverPid := forked.val } } := by
        simp [Session.call, launches, hprocess, hpid, hmode]
      rw [hfails]
      refine ⟨fun hstarted _ => ?_, fun hthread => absurd hthread hnoThread⟩
      exact absurd (h.process hstarted hmode) (Int.not_le.mpr hidle)
  · have hstarts : t.call (.start forked spawned) = ⟨t.server, true, t.launched + 1⟩ := by
      simp [Session.call, launches, hthread, hmode]
    rw [hstarts]
    refine ⟨fun _ hprocess => ?_, fun _ => hidle⟩
    exact absurd (hmode.symm.trans hprocess) (by decide)

theorem Tracked.call (h : Tracked t) (call : Call) : Tracked (t.call call) := by
  cases call with
  | set setter => exact h.set setter
  | start forked spawned => exact h.start forked spawned
  | stop force =>
      constructor
      · intro hstarted
        cases hstarted
      · intro _
        exact t.server.stop_idle force

theorem tracked_of_reachable (h : sessions.Reachable t) : Tracked t := by
  apply h.invariant
  · rintro t rfl
    constructor
    · intro hstarted
      cases hstarted
    · intro hthread
      cases hthread
  · intro t call t' htracked _ hs
    cases hs
    exact htracked.call call

end Calls

/-- **When the configuration is frozen.** After any sequence of calls, with a server started and not stopped,
setters and `start` throw and change nothing exactly in process mode. -/
theorem frozen_iff {t : Session} (h : sessions.Reachable t) (hstarted : t.started = true) :
    Frozen t ↔ t.server.useThread = false := by
  have htracked := tracked_of_reachable h
  constructor
  · intro hfrozen
    rw [← Bool.not_eq_true]
    intro hmode
    obtain ⟨what, hthrows⟩ := hfrozen.setters (.setPort 0)
    obtain ⟨_, change, hcall, -⟩ := (Setter.setPort 0).call_eq
    rw [hcall, Server.configure_of_not_running (htracked.thread hmode)] at hthrows
    cases hthrows
  · intro hmode
    have hrunning := htracked.process hstarted hmode
    constructor
    · intro setter
      obtain ⟨what, change, hcall, -⟩ := setter.call_eq
      exact ⟨what, by rw [hcall, Server.configure_of_running hrunning]⟩
    · intro forked spawned
      have hthrows := Server.start_of_running forked spawned hrunning
      exact ⟨⟨_, hthrows⟩, by simp [Session.call, launches, hthrows]⟩

/-- A server with a handler and a port, started; in thread mode or not. -/
def startCalls (threads : Bool) : List Call :=
  [.set (.addHandler 1), .set (.setPort 8080)] ++ (if threads then [.set .useThreads] else []) ++
    [.start ⟨100, by decide⟩ true]

theorem frozen_process : ∃ t, sessions.run ⟨.new, false, 0⟩ (startCalls false) = some t ∧ Frozen t := by
  have hrun : sessions.run ⟨.new, false, 0⟩ (startCalls false) = some _ := rfl
  exact ⟨_, hrun, (frozen_iff (Machine.reachable_of_run rfl hrun) rfl).mpr rfl⟩

/-- In thread mode the port of a started server is set, and a second server is launched. -/
theorem thread_mode_not_frozen : ∃ t, sessions.Reachable t ∧ t.started = true ∧
    (Setter.call (.setPort 8081) t.server).1 = .ok () ∧
    (Setter.call (.setPort 8081) t.server).2.portNo ≠ t.server.portNo ∧
    (t.call (.start ⟨101, by decide⟩ true)).launched = t.launched + 1 ∧ ¬ Frozen t := by
  have hrun : sessions.run ⟨.new, false, 0⟩ (startCalls true) = some _ := rfl
  refine ⟨_, Machine.reachable_of_run rfl hrun, rfl, rfl, by decide, by decide, fun hfrozen => ?_⟩
  obtain ⟨what, hthrows⟩ := hfrozen.setters (.setPort 8081)
  cases hthrows

end ComputerNetworking.Tcp
