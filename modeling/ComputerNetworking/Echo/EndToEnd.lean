/-
# ComputerNetworking.Echo.EndToEnd -- what the echo client prints

From the buffer of `readline` back through the server to the buffer of `writen` lies what is in flight, in
the order of the input: `Echoing`. While the client writes a piece that does not end its line, no line end is
in flight; once it has written one that does, that line end is the last thing in flight, so reading up to it
takes everything out.

Nothing gets stuck, since what is in flight can always be moved on, and each byte is moved on six times at
most. So a run ends, and then the client has printed its input up to the last line end.
-/
import ComputerNetworking.Echo.Programs

namespace ComputerNetworking.Echo

open ComputerNetworking.Lib ComputerNetworking.Tcp

/-! ## What a system call does -/

/-- What the system calls that work do. -/
inductive Moves (s : State) : Event → State → Prop
  | interrupted : Moves s .interrupted s
  | fgets (hclient : s.client = .atFgets) : Moves s .fgets s.fgets
  | clientWrites {w : Writen} {k : Nat} (hclient : s.client = .writing w) (hk : CanWrite w k) :
      Moves s (.clientWrites k)
        { s with toServer := s.toServer ++ w.pending.take k, client := .wrote w k }
  | clientReads {got toClient : Bytes} {b : UInt8} (hclient : s.client = .reading got)
      (hstream : s.toClient = b :: toClient) :
      Moves s .clientReads ({ s with toClient := toClient }.readByte (got ++ [b]))
  | clientEof {got : Bytes} (hclient : s.client = .reading got) (hstream : s.toClient = [])
      (hserver : s.server = .done) : Moves s .clientEof (s.behindReadline got)
  | serverReads {k : Nat} (hserver : s.server = .reading) (hk : CanRead s.toServer k) :
      Moves s (.serverReads k)
        { s with toServer := s.toServer.drop k, server := .write (s.toServer.take k) }
  | serverEof {status : Nat} (hserver : s.server = .reading) (hstream : s.toServer = [])
      (hclient : s.client = .exited status) : Moves s .serverEof { s with server := .done }
  | serverWrites {w : Writen} {k : Nat} (hserver : s.server = .writing w) (hk : CanWrite w k) :
      Moves s (.serverWrites k)
        { s with toClient := s.toClient ++ w.pending.take k, server := .wrote w k }

theorem moves_of_step {s s' : State} {e : Event} (hworks : e.Works) (h : step s e = some s') :
    Moves s e s' := by
  cases e with
  | interrupted =>
      cases h
      exact .interrupted
  | clientWriteFails => exact hworks.elim
  | clientReadFails => exact hworks.elim
  | serverReadFails => exact hworks.elim
  | serverWriteFails => exact hworks.elim
  | fgets =>
      simp only [step] at h
      split at h
      · next hclient =>
          cases h
          exact .fgets hclient
      · cases h
  | clientWrites k =>
      simp only [step] at h
      split at h
      · next w hclient =>
          split_ifs at h with hk
          cases h
          exact .clientWrites hclient hk
      · cases h
  | clientReads =>
      simp only [step] at h
      split at h
      · next got b toClient hclient hstream =>
          cases h
          exact .clientReads hclient hstream
      · cases h
  | clientEof =>
      simp only [step] at h
      split at h
      · next got hclient hstream hserver =>
          cases h
          exact .clientEof hclient hstream hserver
      · cases h
  | serverReads k =>
      simp only [step] at h
      split at h
      · next hserver =>
          split_ifs at h with hk
          cases h
          exact .serverReads hserver hk
      · cases h
  | serverEof =>
      simp only [step] at h
      split at h
      · next status hserver hstream hclient =>
          cases h
          exact .serverEof hserver hstream hclient
      · cases h
  | serverWrites k =>
      simp only [step] at h
      split at h
      · next w hserver =>
          split_ifs at h with hk
          cases h
          exact .serverWrites hserver hk
      · cases h

/-! ## What is in flight -/

/-- The buffer of `readline`. -/
def Client.got : Client → Bytes
  | reading got => got
  | _ => []

/-- What is left in the buffer of `writen`. -/
def Client.pending : Client → Bytes
  | writing w => w.pending
  | _ => []

/-- The piece that is being written ends its line, or its line is being read. -/
def Client.AwaitsLine : Client → Prop
  | writing w => w.buf.getLast? = some newline
  | reading _ => True
  | _ => False

/-- What is left in the buffer of the handler. -/
def Server.pending : Server → Bytes
  | writing w => w.pending
  | _ => []

/-- What is between the input and the output, first what comes out first. -/
def State.flight (s : State) : Bytes :=
  s.client.got ++ (s.toClient ++ (s.server.pending ++ (s.toServer ++ s.client.pending)))

section Parts

variable {w : Writen} {k : Nat} {buf : Bytes}

theorem Client.behindWriten_parts (buf : Bytes) : (behindWriten buf).got = [] ∧
    (behindWriten buf).pending = [] ∧ ((behindWriten buf).AwaitsLine ↔ buf.getLast? = some newline) := by
  unfold behindWriten
  rcases buf.getLast? with _ | b
  · exact ⟨rfl, rfl, by simp [AwaitsLine]⟩
  · by_cases hb : b = newline
    · simp [hb, got, pending, AwaitsLine]
    · simp [hb, got, pending, AwaitsLine]

theorem Client.write_parts (buf : Bytes) : (write buf).got = [] ∧ (write buf).pending = buf ∧
    ((write buf).AwaitsLine ↔ buf.getLast? = some newline) := by
  rcases eq_or_ne buf [] with rfl | hne
  · exact behindWriten_parts []
  · obtain ⟨w, hstart, hbuf, hpending⟩ := Writen.start_of_ne_nil hne
    rw [write, hstart]
    exact ⟨rfl, hpending, by rw [← hbuf]; exact Iff.rfl⟩

/-- Neither of them has more than before. -/
theorem Client.wrote_parts (w : Writen) (k : Nat) : (wrote w k).got = [] ∧
    w.pending.take k ++ (wrote w k).pending = w.pending ∧
      ((wrote w k).AwaitsLine ↔ w.buf.getLast? = some newline) := by
  have hsplit := w.take_append_wrote k
  unfold wrote
  rcases hnext : w.wrote k with _ | w'
  · obtain ⟨hgot, hpending, hawaits⟩ := behindWriten_parts w.buf
    rw [hnext] at hsplit
    refine ⟨hgot, ?_, hawaits⟩
    rw [hpending]
    exact hsplit
  · rw [hnext] at hsplit
    exact ⟨rfl, hsplit, by rw [← Writen.buf_of_wrote hnext]; exact Iff.rfl⟩

/-- A buffer that has something in it is no reason to stop. -/
theorem Client.behindWriten_cases (hne : buf ≠ []) :
    behindWriten buf = atFgets ∨ behindWriten buf = reading [] := by
  unfold behindWriten
  rcases hlast : buf.getLast? with _ | b
  · exact absurd (List.getLast?_eq_none_iff.mp hlast) hne
  · by_cases hb : b = newline
    · simp [hb]
    · simp [hb]

theorem Client.wrote_cases (w : Writen) (k : Nat) :
    (∃ w', wrote w k = writing w') ∨ wrote w k = atFgets ∨ wrote w k = reading [] := by
  unfold wrote
  rcases w.wrote k with _ | w'
  · refine .inr (behindWriten_cases ?_)
    have hmore := w.more
    rintro hnil
    rw [hnil] at hmore
    exact absurd hmore (Nat.not_lt_zero _)
  · exact .inl ⟨w', rfl⟩

theorem Client.write_cases (hne : buf ≠ []) : ∃ w, write buf = writing w := by
  obtain ⟨w, hstart, -⟩ := Writen.start_of_ne_nil hne
  exact ⟨w, by rw [write, hstart]⟩

theorem Server.write_pending (buf : Bytes) : (write buf).pending = buf := by
  rcases eq_or_ne buf [] with rfl | hne
  · rfl
  · obtain ⟨w, hstart, -, hpending⟩ := Writen.start_of_ne_nil hne
    rw [write, hstart]
    exact hpending

theorem Server.wrote_pending (w : Writen) (k : Nat) :
    w.pending.take k ++ (wrote w k).pending = w.pending := by
  have hsplit := w.take_append_wrote k
  unfold wrote
  rcases hnext : w.wrote k with _ | w'
  · rw [hnext] at hsplit
    exact hsplit
  · rw [hnext] at hsplit
    exact hsplit

theorem Server.write_ne_done (buf : Bytes) : write buf ≠ done := by
  unfold write
  split <;> exact Server.noConfusion

theorem Server.wrote_ne_done (w : Writen) (k : Nat) : wrote w k ≠ done := by
  unfold wrote
  split <;> exact Server.noConfusion

theorem text_of_notMem (h : 0 ∉ buf) : text buf = buf := by
  rw [text, List.takeWhile_eq_self_iff]
  intro b hb
  rw [decide_eq_true_eq]
  rintro rfl
  exact h hb

end Parts

/-! ## The invariant -/

/-- Where the input is, and how much of a line of it is in flight. -/
structure Echoing (input : Bytes) (s : State) : Prop where
  order : s.printed ++ (s.flight ++ s.input) = input
  awaits : s.client.AwaitsLine → EndsLine newline s.flight
  rests : ¬ s.client.AwaitsLine → newline ∉ s.flight ∧ WholeLines newline s.printed
  got : newline ∉ s.client.got
  defined : s.client ≠ .undefined
  exited : ∀ status, s.client = .exited status → status = 0 ∧ s.input = []
  served : s.server = .done → ∃ status, s.client = .exited status

section Steps

variable {input : Bytes} {s s' : State}

theorem echoing_start (input : Bytes) : Echoing input (start input) where
  order := rfl
  awaits h := h.elim
  rests _ := ⟨List.not_mem_nil, .inl rfl⟩
  got := List.not_mem_nil
  defined := Client.noConfusion
  exited _ h := Client.noConfusion h
  served h := Server.noConfusion h

/-- Moving on what is in flight changes nothing. -/
theorem Echoing.transport (h : Echoing input s) (hprinted : s'.printed = s.printed)
    (hflight : s'.flight = s.flight) (hinput : s'.input = s.input)
    (hawaits : s'.client.AwaitsLine ↔ s.client.AwaitsLine) (hgot : newline ∉ s'.client.got)
    (hdefined : s'.client ≠ .undefined) (hexited : ∀ status, s'.client = .exited status → s'.client = s.client)
    (hserved : s'.server = .done → ∃ status, s'.client = .exited status) : Echoing input s' where
  order := by rw [hprinted, hflight, hinput, h.order]
  awaits := by rw [hawaits, hflight]; exact h.awaits
  rests := by rw [hawaits, hflight, hprinted]; exact h.rests
  got := hgot
  defined := hdefined
  exited status hstatus := by
    rw [hinput]
    exact h.exited status ((hexited status hstatus).symm.trans hstatus)
  served := hserved

theorem fgets_end (hinput : s.input = []) : s.fgets = { s with client := .exited 0 } := by
  rw [State.fgets, hinput]

/-- The next piece of the input: a line, or less. -/
theorem fgets_piece (hinput : s.input ≠ []) :
    ∃ line more, s.input = line ++ more ∧ line ≠ [] ∧ (newline ∉ line ∨ EndsLine newline line) ∧
      s.fgets = { s with input := more, client := .write (text line) } := by
  obtain ⟨more, hmore⟩ := takeLine_prefix newline (clientBufferSize - 1) s.input
  refine ⟨takeLine newline (clientBufferSize - 1) s.input, more, hmore.symm, takeLine_ne_nil hinput,
    notMem_or_endsLine_takeLine .., ?_⟩
  have hdrop : ∀ line, line ++ more = s.input → s.input.drop line.length = more := by
    intro line hsplit
    rw [← hsplit, List.drop_left]
  unfold State.fgets
  split
  · next hnil => exact absurd hnil hinput
  · simp only [hdrop _ hmore]

theorem atFgets_parts (hclient : s.client = .atFgets) : ¬ s.client.AwaitsLine ∧
    s.flight = s.toClient ++ (s.server.pending ++ s.toServer) := by
  rw [State.flight, hclient]
  exact ⟨not_false, by simp [Client.got, Client.pending]⟩

/-- While the client is there, the handler is. -/
theorem Echoing.server_ne_done (h : Echoing input s) (hclient : ∀ status, s.client ≠ .exited status) :
    s.server ≠ .done := by
  intro hdone
  obtain ⟨status, hstatus⟩ := h.served hdone
  exact hclient status hstatus

/-- The client takes the next piece of its input, or exits. -/
theorem Echoing.fgets (hnul : 0 ∉ input) (h : Echoing input s) (hclient : s.client = .atFgets) :
    Echoing input s.fgets := by
  obtain ⟨hidle, hflight⟩ := atFgets_parts hclient
  obtain ⟨hnone, hwhole⟩ := h.rests hidle
  have hserver := h.server_ne_done (by simp [hclient])
  have horder := h.order
  by_cases hinput : s.input = []
  · have hsame : State.flight { s with client := .exited 0 } = s.flight := by
      rw [hflight]
      simp [State.flight, Client.got, Client.pending]
    rw [fgets_end hinput]
    refine ⟨by rwa [hsame], fun hawaits => hawaits.elim, fun _ => ?_, List.not_mem_nil,
      Client.noConfusion, ?_, fun hdone => absurd hdone hserver⟩
    · rw [hsame]
      exact ⟨hnone, hwhole⟩
    · intro status hstatus
      cases hstatus
      exact ⟨rfl, hinput⟩
  · obtain ⟨line, more, hsplit, hne, hline, hnext⟩ := fgets_piece hinput
    have htext : text line = line := by
      refine text_of_notMem fun hmem => hnul ?_
      rw [← horder, hsplit]
      simp [hmem]
    rw [htext] at hnext
    obtain ⟨hgot, hpending, hawaits⟩ := Client.write_parts line
    obtain ⟨w, hw⟩ := Client.write_cases hne
    have hmoved : State.flight { s with input := more, client := .write line } = s.flight ++ line := by
      rw [hflight, State.flight]
      simp [hgot, hpending]
    rw [hnext]
    refine ⟨?_, ?_, ?_, ?_, ?_, ?_, fun hdone => absurd hdone hserver⟩
    · rw [hmoved, List.append_assoc, ← hsplit, horder]
    · intro hends
      rw [hmoved]
      refine .append hnone (hline.resolve_left fun hnot => hnot ?_)
      exact List.mem_of_getLast? (hawaits.mp hends)
    · intro hmore
      rw [hmoved, List.mem_append, not_or]
      refine ⟨⟨hnone, ?_⟩, hwhole⟩
      rcases hline with hnot | hends
      · exact hnot
      · exact absurd (hawaits.mpr hends.getLast?) hmore
    · show newline ∉ (Client.write line).got
      rw [hgot]
      exact List.not_mem_nil
    · rw [hw]
      exact Client.noConfusion
    · intro status hstatus
      rw [hw] at hstatus
      cases hstatus

/-- What a byte does: the end of a line, a full buffer, or neither. -/
theorem readByte_eq (s : State) (got : Bytes) (b : UInt8) : s.readByte (got ++ [b]) =
    if b = newline then { s with printed := s.printed ++ text (got ++ [b]), client := .atFgets }
    else if clientBufferSize - 1 ≤ (got ++ [b]).length then
      { s with printed := s.printed ++ text (got ++ [b]), client := .reading [] }
    else { s with client := .reading (got ++ [b]) } := by
  have hlast : (got ++ [b]).getLast? = some b := List.getLast?_concat
  unfold State.readByte State.behindReadline readlineDone
  by_cases hb : b = newline
  · simp [hb]
  · simp [hlast, hb]

/-- The byte that is read is the next one in flight. -/
theorem flight_reading {got toClient : Bytes} {b : UInt8} (hclient : s.client = .reading got)
    (hstream : s.toClient = b :: toClient) : ∃ rest, s.flight = (got ++ [b]) ++ rest ∧
      State.flight { s with toClient := toClient, client := .reading (got ++ [b]) } = s.flight ∧
      ∀ (printed : Bytes) (client : Client), client.got = [] → client.pending = [] →
        State.flight { s with toClient := toClient, printed := printed, client := client } = rest := by
  have hflight : s.flight = (got ++ [b]) ++ (toClient ++ (s.server.pending ++ s.toServer)) := by
    rw [State.flight, hclient, hstream]
    simp [Client.got, Client.pending]
  refine ⟨_, hflight, ?_, ?_⟩
  · rw [hflight, State.flight]
    simp [Client.got, Client.pending]
  · intro printed client hnone hidle
    rw [State.flight]
    simp [hnone, hidle]

/-- A byte comes out of what is in flight, and with the last byte of a line the line is printed. -/
theorem Echoing.readByte (hnul : 0 ∉ input) (h : Echoing input s) {got toClient : Bytes} {b : UInt8}
    (hclient : s.client = .reading got) (hstream : s.toClient = b :: toClient) :
    Echoing input ({ s with toClient := toClient }.readByte (got ++ [b])) := by
  have horder := h.order
  have hline : EndsLine newline s.flight := h.awaits (by rw [hclient]; exact trivial)
  have hserver := h.server_ne_done (by simp [hclient])
  obtain ⟨rest, hflight, hsame, hleft⟩ := flight_reading hclient hstream
  rw [hflight] at horder hline
  have htext : text (got ++ [b]) = got ++ [b] := by
    refine text_of_notMem fun hmem => hnul ?_
    rw [← horder]
    exact List.mem_append_right _ (List.mem_append_left _ (List.mem_append_left _ hmem))
  have hnot : b ≠ newline → newline ∉ got ++ [b] := by
    intro hb
    have hgot := h.got
    rw [hclient] at hgot
    rw [List.mem_append, List.mem_singleton, not_or]
    exact ⟨hgot, Ne.symm hb⟩
  -- what has been read is printed or kept
  have hprinted : s.printed ++ (got ++ [b]) ++ (rest ++ s.input) = input := by
    rw [← horder]
    simp only [List.append_assoc]
  rw [readByte_eq, htext]
  split_ifs with hb hfull
  · have hnil : rest = [] := hline.right_eq_nil (by simp [hb])
    rw [hnil, List.append_nil] at hline
    refine ⟨?_, fun hawaits => hawaits.elim, fun _ => ?_, List.not_mem_nil, Client.noConfusion,
      fun status hstatus => Client.noConfusion hstatus, fun hdone => absurd hdone hserver⟩
    · rw [hleft _ _ rfl rfl]
      exact hprinted
    · rw [hleft _ _ rfl rfl, hnil]
      exact ⟨List.not_mem_nil, .of_endsLine hline _⟩
  · refine ⟨?_, fun _ => ?_, fun hawaits => absurd trivial hawaits, List.not_mem_nil,
      Client.noConfusion, fun status hstatus => Client.noConfusion hstatus,
      fun hdone => absurd hdone hserver⟩
    · rw [hleft _ _ rfl rfl]
      exact hprinted
    · rw [hleft _ _ rfl rfl]
      exact hline.of_append (hnot hb)
  · refine h.transport rfl hsame rfl ?_ (hnot hb) Client.noConfusion
      (fun status hstatus => Client.noConfusion hstatus) fun hdone => absurd hdone hserver
    rw [hclient]
    exact Iff.rfl

/-- The client writes. -/
theorem Echoing.clientWrites (h : Echoing input s) {w : Writen} (hclient : s.client = .writing w)
    (k : Nat) : Echoing input
      { s with toServer := s.toServer ++ w.pending.take k, client := .wrote w k } := by
  obtain ⟨hgot, hpending, hawaits⟩ := Client.wrote_parts w k
  have hcases := Client.wrote_cases w k
  have hserver := h.server_ne_done (by simp [hclient])
  refine h.transport rfl ?_ rfl ?_ ?_ ?_ ?_ fun hdone => absurd hdone hserver
  · simp only [State.flight, hclient, hgot, List.append_assoc, hpending]
    rfl
  · rw [hclient]
    exact hawaits
  · show newline ∉ (Client.wrote w k).got
    rw [hgot]
    exact List.not_mem_nil
  · rcases hcases with ⟨w', hnext⟩ | hnext | hnext
    all_goals
      rw [hnext]
      exact Client.noConfusion
  · intro status hstatus
    rcases hcases with ⟨w', hnext⟩ | hnext | hnext
    all_goals
      rw [hnext] at hstatus
      cases hstatus

/-- The handler reads. -/
theorem Echoing.serverReads (h : Echoing input s) (hserver : s.server = .reading) (k : Nat) :
    Echoing input
      { s with toServer := s.toServer.drop k, server := .write (s.toServer.take k) } := by
  refine h.transport rfl ?_ rfl Iff.rfl h.got h.defined (fun _ _ => rfl) fun hdone =>
    absurd hdone (Server.write_ne_done _)
  simp only [State.flight, hserver, Server.write_pending]
  rw [← List.append_assoc (s.toServer.take k), List.take_append_drop]
  rfl

/-- The handler writes. -/
theorem Echoing.serverWrites (h : Echoing input s) {w : Writen} (hserver : s.server = .writing w)
    (k : Nat) : Echoing input
      { s with toClient := s.toClient ++ w.pending.take k, server := .wrote w k } := by
  refine h.transport rfl ?_ rfl Iff.rfl h.got h.defined (fun _ _ => rfl) fun hdone =>
    absurd hdone (Server.wrote_ne_done w k)
  have hpending := Server.wrote_pending w k
  simp only [State.flight, hserver, List.append_assoc]
  rw [← List.append_assoc (w.pending.take k), hpending]
  rfl

/-- The handler ends behind the client. -/
theorem Echoing.serverEof (h : Echoing input s) (hserver : s.server = .reading) {status : Nat}
    (hclient : s.client = .exited status) : Echoing input { s with server := .done } := by
  refine h.transport rfl ?_ rfl Iff.rfl h.got h.defined (fun _ _ => rfl) fun _ => ⟨status, hclient⟩
  simp only [State.flight, hserver]
  rfl

theorem Echoing.moves {e : Event} (hnul : 0 ∉ input) (h : Echoing input s) (hmoves : Moves s e s') :
    Echoing input s' := by
  cases hmoves with
  | interrupted => exact h
  | fgets hclient => exact h.fgets hnul hclient
  | clientWrites hclient => exact h.clientWrites hclient _
  | clientReads hclient hstream => exact h.readByte hnul hclient hstream
  | clientEof hclient _ hserver => exact absurd hserver (h.server_ne_done (by simp [hclient]))
  | serverReads hserver => exact h.serverReads hserver _
  | serverEof hserver _ hclient => exact h.serverEof hserver hclient
  | serverWrites hserver => exact h.serverWrites hserver _

end Steps

/-! ## Nothing gets stuck -/

/-- The system calls to come for what the client has in its buffers, and for its end. -/
def Client.work (c : Client) : Nat :=
  5 * c.pending.length + c.got.length +
    match c with
    | exited _ => 0
    | _ => 1

/-- The same of the handler. -/
def Server.work (c : Server) : Nat :=
  3 * c.pending.length +
    match c with
    | done => 0
    | _ => 1

/-- How many system calls there are to come at most: each takes bytes one place on, or ends a program. -/
def State.work (s : State) : Nat :=
  6 * s.input.length + s.client.work + 4 * s.toServer.length + s.server.work + 2 * s.toClient.length

section Work

variable {input buf : Bytes} {s s' : State} {w : Writen} {k : Nat}

theorem Client.work_reading (got : Bytes) : (reading got).work = got.length + 1 := by
  show 5 * 0 + got.length + 1 = got.length + 1
  omega

theorem Client.work_le (c : Client) : c.work ≤ 5 * c.pending.length + c.got.length + 1 := by
  cases c with
  | exited status => exact Nat.le_succ _
  | _ => exact Nat.le_refl _

theorem Server.work_le (c : Server) : c.work ≤ 3 * c.pending.length + 1 := by
  cases c with
  | done => exact Nat.le_succ _
  | _ => exact Nat.le_refl _

theorem Client.work_write (buf : Bytes) : (write buf).work ≤ 5 * buf.length + 1 := by
  obtain ⟨hgot, hpending, -⟩ := write_parts buf
  have hle := (write buf).work_le
  rwa [hgot, hpending] at hle

theorem Server.work_write (buf : Bytes) : (write buf).work ≤ 3 * buf.length + 1 := by
  have hle := (write buf).work_le
  rwa [write_pending] at hle

/-- A `write` that returns `k` takes `k` bytes out of the buffer. -/
theorem length_take_of_canWrite (hk : CanWrite w k) {rest : Bytes}
    (hrest : w.pending.take k ++ rest = w.pending) :
    (w.pending.take k).length = k ∧ w.pending.length = k + rest.length := by
  have htake : (w.pending.take k).length = k := List.length_take_of_le hk.2
  have hlength := congrArg List.length hrest
  rw [List.length_append, htake] at hlength
  exact ⟨htake, hlength.symm⟩

theorem Client.work_wrote (hk : CanWrite w k) : (wrote w k).work + 5 * k ≤ (writing w).work := by
  obtain ⟨hgot, hpending, -⟩ := wrote_parts w k
  obtain ⟨-, hlength⟩ := length_take_of_canWrite hk hpending
  have hle := (wrote w k).work_le
  have hwriting : (writing w).work = 5 * w.pending.length + 1 := rfl
  rw [hgot, List.length_nil] at hle
  omega

theorem Server.work_wrote (hk : CanWrite w k) : (wrote w k).work + 3 * k ≤ (writing w).work := by
  obtain ⟨-, hlength⟩ := length_take_of_canWrite hk (wrote_pending w k)
  have hle := (wrote w k).work_le
  have hwriting : (writing w).work = 3 * w.pending.length + 1 := rfl
  omega

theorem work_fgets (hclient : s.client = .atFgets) : s.fgets.work < s.work := by
  have hone : Client.atFgets.work = 1 := rfl
  by_cases hinput : s.input = []
  · have hnone : (Client.exited 0).work = 0 := rfl
    rw [fgets_end hinput]
    simp only [State.work, hclient]
    omega
  · obtain ⟨line, more, hsplit, hne, -, hnext⟩ := fgets_piece hinput
    have htext : (text line).length ≤ line.length := (List.takeWhile_prefix _).length_le
    have hline : 0 < line.length := List.length_pos_iff.mpr hne
    have hwrite := Client.work_write (text line)
    rw [hnext]
    simp only [State.work, hclient, hsplit, List.length_append]
    omega

theorem work_readByte {got toClient : Bytes} {b : UInt8} (hclient : s.client = .reading got)
    (hstream : s.toClient = b :: toClient) :
    State.work ({ s with toClient := toClient }.readByte (got ++ [b])) < s.work := by
  have hone : Client.atFgets.work = 1 := rfl
  rw [readByte_eq]
  split_ifs
  all_goals
    simp only [State.work, hclient, hstream, Client.work_reading, List.length_nil, List.length_append,
      List.length_cons]
    omega

theorem work_behindReadline {got : Bytes} (hclient : s.client = .reading got) :
    (s.behindReadline got).work < s.work := by
  have hone : Client.atFgets.work = 1 := rfl
  have hnone : (Client.exited 1).work = 0 := rfl
  unfold State.behindReadline
  split
  · simp only [State.work, hclient, Client.work_reading]
    omega
  · next b hlast =>
      have hgot : 0 < got.length := List.length_pos_of_mem (List.mem_of_getLast? hlast)
      split_ifs
      all_goals
        simp only [State.work, hclient, Client.work_reading, List.length_nil]
        omega

/-- **Every system call that works is one of those to come.** -/
theorem work_moves {e : Event} (hmoves : Moves s e s') :
    (if e.progresses then 1 else 0) + s'.work ≤ s.work := by
  cases hmoves with
  | interrupted => exact Nat.le_of_eq (Nat.zero_add _)
  | fgets hclient => exact Nat.add_comm _ 1 ▸ work_fgets hclient
  | clientReads hclient hstream => exact Nat.add_comm _ 1 ▸ work_readByte hclient hstream
  | clientEof hclient _ _ => exact Nat.add_comm _ 1 ▸ work_behindReadline hclient
  | @clientWrites w k hclient hk =>
      have hwrote := Client.work_wrote hk
      have htake : (w.pending.take k).length = k := List.length_take_of_le hk.2
      have hpos : 0 < k := hk.1
      simp only [Event.progresses, if_true, State.work, hclient, List.length_append, htake]
      omega
  | @serverReads k hserver hk =>
      have htake : (s.toServer.take k).length = k := List.length_take_of_le hk.2.2
      have hwrite := Server.work_write (s.toServer.take k)
      have hone : Server.reading.work = 1 := rfl
      obtain ⟨hpos, -, hstream⟩ := hk
      simp only [Event.progresses, if_true, State.work, hserver, List.length_drop]
      omega
  | serverEof hserver _ _ =>
      have hone : Server.reading.work = 1 := rfl
      have hnone : Server.done.work = 0 := rfl
      simp only [Event.progresses, if_true, State.work, hserver]
      omega
  | @serverWrites w k hserver hk =>
      have hwrote := Server.work_wrote hk
      have htake : (w.pending.take k).length = k := List.length_take_of_le hk.2
      have hpos : 0 < k := hk.1
      simp only [Event.progresses, if_true, State.work, hserver, List.length_append, htake]
      omega

theorem canWrite_one (w : Writen) : CanWrite w 1 :=
  ⟨Nat.one_pos, List.length_pos_iff.mpr w.pending_ne_nil⟩

/-- While a line is read its end is in flight, and not in the buffer yet. -/
theorem Echoing.exists_step_reading (h : Echoing input s) {got : Bytes}
    (hclient : s.client = .reading got) : ∃ e s', e.Works ∧ e.progresses = true ∧ step s e = some s' := by
  have hline : EndsLine newline s.flight := h.awaits (by rw [hclient]; exact trivial)
  rcases hdown : s.toClient with _ | ⟨b, toClient⟩
  · rcases hserver : s.server with _ | w | _
    · rcases hup : s.toServer with _ | ⟨c, toServer⟩
      · have hnone : s.flight = s.client.got := by
          rw [State.flight, hdown, hserver, hup, hclient]
          simp [Server.pending, Client.pending]
        rw [hnone] at hline
        exact absurd hline.mem h.got
      · refine ⟨.serverReads 1,
          { s with toServer := s.toServer.drop 1, server := .write (s.toServer.take 1) }, trivial, rfl, ?_⟩
        rw [step, hserver]
        exact if_pos ⟨Nat.one_pos, by decide, by rw [hup]; exact Nat.succ_pos _⟩
    · refine ⟨.serverWrites 1,
        { s with toClient := s.toClient ++ w.pending.take 1, server := .wrote w 1 }, trivial, rfl, ?_⟩
      rw [step, hserver]
      exact if_pos (canWrite_one w)
    · exact absurd hserver (h.server_ne_done (by simp [hclient]))
  · refine ⟨.clientReads, { s with toClient := toClient }.readByte (got ++ [b]), trivial, rfl, ?_⟩
    rw [step, hclient, hdown]

/-- **Nothing gets stuck**: before the client exits, some system call can return. -/
theorem Echoing.exists_step (h : Echoing input s) (hclient : ∀ status, s.client ≠ .exited status) :
    ∃ e s', e.Works ∧ e.progresses = true ∧ step s e = some s' := by
  rcases hphase : s.client with _ | w | got | _ | status
  · refine ⟨.fgets, s.fgets, trivial, rfl, ?_⟩
    rw [step, hphase]
  · refine ⟨.clientWrites 1,
      { s with toServer := s.toServer ++ w.pending.take 1, client := .wrote w 1 }, trivial, rfl, ?_⟩
    rw [step, hphase]
    exact if_pos (canWrite_one w)
  · exact h.exists_step_reading hphase
  · exact absurd hphase h.defined
  · exact absurd hphase (hclient status)

end Work

/-! ## From end to end -/

section EndToEnd

variable {input : Bytes} {s : State}

/-- What has been printed is the beginning of the whole lines. -/
theorem Echoing.printed_prefix (h : Echoing input s) : s.printed <+: throughLast newline input := by
  rw [← h.order]
  by_cases hline : s.client.AwaitsLine
  · have hwhole := WholeLines.of_endsLine (h.awaits hline) s.printed
    rw [← List.append_assoc]
    exact (List.prefix_append ..).trans (hwhole.prefix_throughLast s.input)
  · exact (h.rests hline).2.prefix_throughLast _

/-- At the end they are printed. -/
theorem Echoing.printed_eq (h : Echoing input s) {status : Nat} (hclient : s.client = .exited status) :
    status = 0 ∧ s.printed = throughLast newline input := by
  obtain ⟨hstatus, hinput⟩ := h.exited status hclient
  obtain ⟨hnone, hwhole⟩ := h.rests (by rw [hclient]; exact not_false)
  refine ⟨hstatus, ?_⟩
  rw [← h.order, hinput, List.append_nil, throughLast_append hwhole hnone]

theorem echoing_of_reachable (hnul : 0 ∉ input)
    (h : (echo input).ReachableUnder (fun _ e => e.Works) s) : Echoing input s := by
  refine h.invariant ?_ fun s e s' hs hworks hstep => hs.moves hnul (moves_of_step hworks hstep)
  rintro s rfl
  exact echoing_start input

end EndToEnd

/-- **Echo end to end.** Whatever the lengths of the lines and however the two directions are split into
reads and writes: as long as no system call fails, the client prints nothing but its input up to the last
line end; when it exits it has printed that; before it exits some system call can return; and all of them
together return at most six times for each byte of the input, and twice. -/
theorem echo_end_to_end {input : Bytes} (hnul : 0 ∉ input) :
    (∀ s, (echo input).ReachableUnder (fun _ e => e.Works) s →
      s.printed <+: throughLast newline input ∧
      (∀ status, s.client = .exited status → status = 0 ∧ s.printed = throughLast newline input) ∧
      ((∃ status, s.client = .exited status) ∨
        ∃ e s', e.Works ∧ e.progresses = true ∧ (echo input).step s e = some s')) ∧
    ∀ es s, (echo input).Along (fun _ e => e.Works) (start input) es →
      (echo input).run (start input) es = some s →
        es.countP Event.progresses ≤ 6 * input.length + 2 := by
  constructor
  · intro s hs
    have h := echoing_of_reachable hnul hs
    refine ⟨h.printed_prefix, fun status hclient => h.printed_eq hclient, ?_⟩
    by_cases hclient : ∃ status, s.client = .exited status
    · exact .inl hclient
    · exact .inr (h.exists_step fun status hstatus => hclient ⟨status, hstatus⟩)
  · intro es s hworks hrun
    have hle := hworks.countP_le (p := Event.progresses) (m := State.work) hrun fun s e s' hw hstep =>
      work_moves (moves_of_step hw hstep)
    have hstart : (start input).work = 6 * input.length + 2 := rfl
    omega

/-- A line that comes back in three writes, and a last line without its end, which is sent and not printed. -/
theorem echo_one_line : ∃ s, (echo (ascii "ab\nc")).run (start (ascii "ab\nc"))
    [.fgets, .clientWrites 3, .serverReads 2, .serverWrites 1, .clientReads, .interrupted, .serverWrites 1,
      .clientReads, .serverReads 1, .serverWrites 1, .clientReads, .fgets, .clientWrites 1, .fgets] =
      some s ∧ s.client = .exited 0 ∧ s.printed = throughLast newline (ascii "ab\nc") := by
  generalize hes : [Event.fgets, .clientWrites 3, .serverReads 2, .serverWrites 1, .clientReads,
    .interrupted, .serverWrites 1, .clientReads, .serverReads 1, .serverWrites 1, .clientReads, .fgets,
    .clientWrites 1, .fgets] = es
  obtain ⟨s, hrun, hexited⟩ : ∃ s, (echo (ascii "ab\nc")).run (start (ascii "ab\nc")) es = some s ∧
      s.client = .exited 0 := by
    rw [← hes]
    exact ⟨_, rfl, rfl⟩
  have hworks : (echo (ascii "ab\nc")).Along (fun _ e => e.Works) (start (ascii "ab\nc")) es := by
    rw [← hes]
    exact .of_forall (by simp [Event.Works])
  have hprints := (echo_end_to_end (show 0 ∉ ascii "ab\nc" by decide)).1 s
    (Machine.ReachableUnder.run (.init rfl) hworks hrun)
  exact ⟨s, hrun, hexited, (hprints.2.1 0 hexited).2⟩

end ComputerNetworking.Echo
