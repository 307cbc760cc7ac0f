/-
# ComputerNetworking.Echo.Programs -- the echo client and the echo server

`echo_client.cpp` takes its input line by line, or in pieces of 511 bytes, writes what `fgets` gives, and
behind a piece that ends its line it reads back what the server sends, until that ends a line as well.
`echo_server.cpp` writes back what it reads, up to 256 bytes at a time.

Both programs, the connection's two directions and the client's output are one machine. An event is one
system call: `read` and `write` return any number of bytes they can, fail, or are interrupted.
-/
import ComputerNetworking.Lib.Lines
import ComputerNetworking.Lib.Transition
import ComputerNetworking.Tcp.Client

namespace ComputerNetworking.Echo

open ComputerNetworking.Lib ComputerNetworking.Tcp

/-- `sizeof(buf)` of the client. -/
def clientBufferSize : Nat := 512

/-- `sizeof(buffer)` of the handler. -/
def serverBufferSize : Nat := 256

/-! ## State -/

/-- Where the client is. -/
inductive Client where
  | atFgets
  | writing (w : Writen)
  /-- In `readline`, with these bytes in the buffer. -/
  | reading (got : Bytes)
  /-- `buf[len - 1]` with `len` 0. -/
  | undefined
  | exited (status : Nat)

/-- Where the handler is. -/
inductive Server where
  | reading
  | writing (w : Writen)
  | done

structure State where
  /-- What is left of the standard input. -/
  input : Bytes
  client : Client
  toServer : Bytes
  server : Server
  toClient : Bytes
  printed : Bytes

/-- The client at its first `fgets`. -/
def start (input : Bytes) : State where
  input := input
  client := .atFgets
  toServer := []
  server := .reading
  toClient := []
  printed := []

/-! ## The client -/

/-- The string in a buffer. -/
def text (buf : Bytes) : Bytes := buf.takeWhile (· ≠ 0)

/-- Behind `writen`: is it the end of a line? -/
def Client.behindWriten (buf : Bytes) : Client :=
  match buf.getLast? with
  | none => undefined
  | some b => if b ≠ newline then atFgets else reading []

/-- `writen(buf, strlen(buf))`, and what follows if there is nothing to write. -/
def Client.write (buf : Bytes) : Client :=
  match Writen.start buf with
  | some w => writing w
  | none => behindWriten buf

/-- `write` has returned `k`. -/
def Client.wrote (w : Writen) (k : Nat) : Client :=
  match w.wrote k with
  | some w' => writing w'
  | none => behindWriten w.buf

namespace State

/-- `fgets`. -/
def fgets (s : State) : State :=
  match s.input with
  | [] => { s with client := .exited 0 }
  | _ :: _ =>
      let line := takeLine newline (clientBufferSize - 1) s.input
      { s with input := s.input.drop line.length, client := .write (text line) }

/-- Behind `readline`. -/
def behindReadline (s : State) (got : Bytes) : State :=
  match got.getLast? with
  -- server closed connection :(
  | none => { s with client := .exited 1 }
  | some b => { s with
      printed := s.printed ++ text got
      client := if b ≠ newline then .reading [] else .atFgets }

/-- `read` has put a byte behind those in the buffer. -/
def readByte (s : State) (got : Bytes) : State :=
  if readlineDone clientBufferSize got then s.behindReadline got
  else { s with client := .reading got }

end State

/-! ## The server -/

/-- `writen(buffer, bytes_read)`. -/
def Server.write (buf : Bytes) : Server :=
  match Writen.start buf with
  | some w => writing w
  | none => reading

/-- `write` has returned `k`. -/
def Server.wrote (w : Writen) (k : Nat) : Server :=
  match w.wrote k with
  | some w' => writing w'
  | none => reading

/-! ## The machine -/

/-- One system call. -/
inductive Event where
  | fgets
  | clientWrites (k : Nat)
  | clientWriteFails
  | clientReads
  /-- The server has closed the connection. -/
  | clientEof
  | clientReadFails
  /-- EINTR in `writen` or `readline`. -/
  | interrupted
  | serverReads (k : Nat)
  /-- The client has closed the connection. -/
  | serverEof
  | serverReadFails
  | serverWrites (k : Nat)
  | serverWriteFails

namespace Event

/-- The system call does what it is there for, sooner or later. -/
def Works : Event → Prop
  | clientWriteFails | clientReadFails | serverReadFails | serverWriteFails => False
  | _ => True

/-- It is not only tried again. -/
def progresses : Event → Bool
  | interrupted => false
  | _ => true

end Event

/-- A `write` of these bytes can return `k`. -/
def CanWrite (w : Writen) (k : Nat) : Prop := 0 < k ∧ k ≤ w.pending.length

instance (w : Writen) (k : Nat) : Decidable (CanWrite w k) := inferInstanceAs (Decidable (_ ∧ _))

/-- A `read` of the handler can return `k`. -/
def CanRead (stream : Bytes) (k : Nat) : Prop := 0 < k ∧ k ≤ serverBufferSize ∧ k ≤ stream.length

instance (stream : Bytes) (k : Nat) : Decidable (CanRead stream k) :=
  inferInstanceAs (Decidable (_ ∧ _ ∧ _))

/-- What a system call does; `none` where the program is not at it, or blocked in it. -/
def step (s : State) : Event → Option State
  | .interrupted => some s
  | .fgets =>
      match s.client with
      | .atFgets => some s.fgets
      | _ => none
  | .clientWrites k =>
      match s.client with
      | .writing w =>
          if CanWrite w k then
            some { s with toServer := s.toServer ++ w.pending.take k, client := .wrote w k }
          else none
      | _ => none
  -- what `writen` returns is not looked at
  | .clientWriteFails =>
      match s.client with
      | .writing w => some { s with client := .behindWriten w.buf }
      | _ => none
  | .clientReads =>
      match s.client, s.toClient with
      | .reading got, b :: toClient => some ({ s with toClient := toClient }.readByte (got ++ [b]))
      | _, _ => none
  | .clientEof =>
      match s.client, s.toClient, s.server with
      | .reading got, [], .done => some (s.behindReadline got)
      | _, _, _ => none
  | .clientReadFails =>
      match s.client with
      | .reading _ => some { s with client := .exited 1 }
      | _ => none
  | .serverReads k =>
      match s.server with
      | .reading =>
          if CanRead s.toServer k then
            some { s with toServer := s.toServer.drop k, server := .write (s.toServer.take k) }
          else none
      | _ => none
  | .serverEof =>
      match s.server, s.toServer, s.client with
      | .reading, [], .exited _ => some { s with server := .done }
      | _, _, _ => none
  | .serverReadFails =>
      match s.server with
      | .reading => some { s with server := .done }
      | _ => none
  | .serverWrites k =>
      match s.server with
      | .writing w =>
          if CanWrite w k then
            some { s with toClient := s.toClient ++ w.pending.take k, server := .wrote w k }
          else none
      | _ => none
  | .serverWriteFails =>
      match s.server with
      | .writing _ => some { s with server := .done }
      | _ => none

/-- The client and the server, with an input for the client. -/
def echo (input : Bytes) : Machine State Event where
  init s := s = start input
  step := step

end ComputerNetworking.Echo
