/-
# ComputerNetworking.Tftp.FileServer -- the files behind the server

Every request has a process of its own, and the processes share nothing but the files. Which file a name
denotes is up to the system: `file` maps the one to the other, and two names may denote one file.

The handler looks whether it can open the file before it creates it, so a file that is there is not written:
`written_once`. Between the two another handler may do the same, and then both write the file; while no two
uploads of a file are under way at once, what has been uploaded is what every later download is a download
of, whatever other requests and transfers come in between: `stored_is_fetched`.

The disk shows what has been written to a file at once, not when the stream over it is flushed; so a download
is to begin when no upload of its file is under way. A file that is there can be opened for reading.
-/
import ComputerNetworking.Tftp.LockStep
import ComputerNetworking.Tftp.OctetUpload
import ComputerNetworking.Tftp.RequestHandling

namespace ComputerNetworking.Tftp

open ComputerNetworking.Lib Function

/-! ## State and steps -/

/-- A process behind its request. -/
inductive Session where
  | reading (filename : Bytes) (mode : Mode) (transfer : ReadTransfer)
  /-- The file could not be opened for reading, and is now to be created. -/
  | checked (filename : Bytes) (mode : Mode)
  | writing (filename : Bytes) (mode : Mode) (opened : Bool) (transfer : WriteTransfer)

namespace Session

/-- The file that an upload has created or is going to create. -/
def target : Session → Option Bytes
  | .reading _ _ _ => none
  | .checked filename _ => some filename
  | .writing filename _ opened _ => if opened then some filename else none

/-- The file that an upload under way still has to write. -/
def pending : Session → Option Bytes
  | .reading _ _ _ => none
  | .checked filename _ => some filename
  | .writing filename _ opened transfer =>
      if opened = true ∧ transfer.left = none then some filename else none

end Session

/-- The disk, and the processes in the order of their requests. -/
structure FileServer (ι : Type*) where
  disk : ι → Option Bytes
  sessions : List Session

inductive FileEvent where
  /-- A first datagram, in its receive buffer. -/
  | request (msg : Bytes) (stack : PacketBuf)
  /-- The `i`-th process creates its file, or fails to. -/
  | create (i : Nat) (opened : Bool)
  /-- What happens at the `select` of the `i`-th process. -/
  | read (i : Nat) (e : WaitEvent)
  | write (i : Nat) (e : WriteEvent)

/-- What is written at an offset; up to there the file is filled up with zeros. -/
def patch (content : Bytes) (offset : Nat) (bytes : Bytes) : Bytes :=
  if bytes = [] then content else overwrite (content ++ zeros (offset - content.length)) offset bytes

/-- The transfer behind `std::ofstream file(filename)`. -/
def WriteTransfer.over (mode : Mode) (opened : Bool) : WriteTransfer :=
  if opened then .start mode
  else { WriteTransfer.start mode with file := ⟨[], { IoState.goodbit with fail := true }⟩ }

section Machine

variable {ι : Type*} (file : Bytes → ι)

/-- What a `std::ifstream` can open. -/
def FileServer.readable (s : FileServer ι) (filename : Bytes) : Bool :=
  (s.disk (file filename)).isSome

/-- No upload of a file is under way. -/
def FileServer.Settled (s : FileServer ι) (f : ι) : Prop :=
  ∀ x ∈ s.sessions, ∀ filename ∈ x.pending, file filename ≠ f

variable [DecidableEq ι]

namespace FileServer

/-- The handler has come to the loop of a download or to the creation of a file, or has returned. -/
def begin (s : FileServer ι) : Handled → Option (FileServer ι)
  | .replied _ => some s
  | .reading filename mode =>
      (s.disk (file filename)).map fun bytes =>
        { s with sessions := s.sessions ++ [.reading filename mode (.start mode bytes)] }
  | .writing filename mode => some { s with sessions := s.sessions ++ [.checked filename mode] }

/-- What a transfer has written to its file since it was at another point. -/
def written (s : FileServer ι) (filename : Bytes) (transfer transfer' : WriteTransfer) : ι → Option Bytes :=
  let offset := transfer.file.content.length
  update s.disk (file filename) ((s.disk (file filename)).map fun content =>
    patch content offset (transfer'.file.content.drop offset))

def step (s : FileServer ι) : FileEvent → Option (FileServer ι)
  | .request msg stack =>
      match handleRequest (s.readable file) stack msg with
      | .ok handled => s.begin file handled
      -- what is thrown ends the process of this request
      | .error _ => some s
  | .create i opened =>
      match s.sessions[i]? with
      | some (.checked filename mode) =>
          some
            -- a file that has come to be there meanwhile is emptied
            ⟨if opened then update s.disk (file filename) (some []) else s.disk,
              s.sessions.set i (.writing filename mode opened (.over mode opened))⟩
      | _ => none
  | .read i e =>
      match s.sessions[i]? with
      | some (.reading filename mode transfer) =>
          (readStep transfer e).map fun transfer =>
            { s with sessions := s.sessions.set i (.reading filename mode transfer) }
      | _ => none
  | .write i e =>
      match s.sessions[i]? with
      | some (.writing filename mode opened transfer) =>
          (writeStep transfer e).map fun transfer' =>
            ⟨if opened then s.written file filename transfer transfer' else s.disk,
              s.sessions.set i (.writing filename mode opened transfer')⟩
      | _ => none

end FileServer

/-- The server, with any files on its disk. -/
def fileServer : Machine (FileServer ι) FileEvent where
  init s := s.sessions = []
  step := FileServer.step file

/-! ## Conditions -/

/-- Clients wait for an upload before they ask for its file, to read it or to write it; no `select` of a
download is interrupted while a full block is outstanding; and what an octet upload receives comes from its
client. -/
def Orderly (client : Nat → Bytes) (s : FileServer ι) : FileEvent → Prop
  | .request msg stack =>
      match handleRequest (s.readable file) stack msg with
      | .ok (.reading filename _) => s.Settled file (file filename)
      | .ok (.writing filename _) => s.Settled file (file filename)
      | _ => True
  | .create _ _ => True
  | .read i e =>
      match s.sessions[i]? with
      | some (.reading _ _ transfer) => NoInterruptInside transfer e
      | _ => True
  | .write i e =>
      match s.sessions[i]? with
      | some (.writing _ .octet _ transfer) => FromClient (client i) transfer e
      | _ => True

/-! ## What a step can do -/

inductive FileServer.Turn (s : FileServer ι) (e : FileEvent) : FileServer ι → Prop
  | refused : Turn s e s
  | opened {msg : Bytes} {stack : PacketBuf} {filename bytes : Bytes} {mode : Mode}
      (he : e = .request msg stack)
      (hhandled : handleRequest (s.readable file) stack msg = .ok (.reading filename mode))
      (hdisk : s.disk (file filename) = some bytes) :
      Turn s e { s with sessions := s.sessions ++ [.reading filename mode (.start mode bytes)] }
  | checked {msg : Bytes} {stack : PacketBuf} {filename : Bytes} {mode : Mode}
      (he : e = .request msg stack)
      (hhandled : handleRequest (s.readable file) stack msg = .ok (.writing filename mode))
      (hdisk : s.disk (file filename) = none) :
      Turn s e { s with sessions := s.sessions ++ [.checked filename mode] }
  | created {i : Nat} {filename : Bytes} {mode : Mode} {opened : Bool}
      (he : e = .create i opened) (hi : s.sessions[i]? = some (.checked filename mode)) :
      Turn s e ⟨if opened then update s.disk (file filename) (some []) else s.disk,
        s.sessions.set i (.writing filename mode opened (.over mode opened))⟩
  | read {i : Nat} {re : WaitEvent} {filename : Bytes} {mode : Mode} {transfer transfer' : ReadTransfer}
      (he : e = .read i re) (hi : s.sessions[i]? = some (.reading filename mode transfer))
      (hs : readStep transfer re = some transfer') :
      Turn s e { s with sessions := s.sessions.set i (.reading filename mode transfer') }
  | wrote {i : Nat} {we : WriteEvent} {filename : Bytes} {mode : Mode} {opened : Bool}
      {transfer transfer' : WriteTransfer}
      (he : e = .write i we) (hi : s.sessions[i]? = some (.writing filename mode opened transfer))
      (hs : writeStep transfer we = some transfer') :
      Turn s e ⟨if opened then s.written file filename transfer transfer' else s.disk,
        s.sessions.set i (.writing filename mode opened transfer')⟩

variable {file}

/-- The handler replies, or comes to the transfer of a file it does not refuse. -/
theorem handleRequest_cases {readable : Bytes → Bool} {stack : PacketBuf} {msg : Bytes} {handled : Handled}
    (h : handleRequest readable stack msg = .ok handled) :
    (∃ packet, handled = .replied packet) ∨
      ∃ (o : Opcode) (filename : Bytes) (mode : Mode), o.IsRequest ∧ refusal readable o filename = none ∧
        handled = transfer o filename mode := by
  by_cases hrequest : ∃ o : Opcode, o.IsRequest ∧ opcodeOf msg = some o
  · obtain ⟨o, ho, hopcode⟩ := hrequest
    obtain ⟨payload, rfl⟩ := opcodeOf_eq_some_iff.mp hopcode
    rw [handleRequest_of_opcode ho, bind_eq_ok] at h
    obtain ⟨filename, -, h⟩ := h
    split at h
    · cases h
      exact .inl ⟨_, rfl⟩
    · next hrefusal =>
        simp only [bind_eq_ok, Except.ok.injEq] at h
        obtain ⟨text, -, mode, -, rfl⟩ := h
        exact .inr ⟨o, filename, mode, ho, hrefusal, rfl⟩
  · have hno : opcodeOf msg ≠ some .rrq ∧ opcodeOf msg ≠ some .wrq :=
      ⟨fun ho => hrequest ⟨_, .inl rfl, ho⟩, fun ho => hrequest ⟨_, .inr rfl, ho⟩⟩
    unfold handleRequest at h
    split at h
    · next hopcode => exact absurd hopcode hno.1
    · next hopcode => exact absurd hopcode hno.2
    · rw [errorSent_eq] at h
      cases h
      exact .inl ⟨_, rfl⟩

section Steps

variable {s s' : FileServer ι} {e : FileEvent}

theorem file_step (hs : s.step file e = some s') : s.Turn file e s' := by
  cases e with
  | request msg stack =>
      simp only [FileServer.step] at hs
      split at hs
      · next handled hhandled =>
          rcases handleRequest_cases hhandled with ⟨packet, rfl⟩ | ⟨o, filename, mode, ho, hrefusal, rfl⟩
          · cases hs
            exact .refused
          · rcases ho with rfl | rfl
            · obtain ⟨bytes, hdisk, rfl⟩ := Option.map_eq_some_iff.mp hs
              exact .opened rfl hhandled hdisk
            · cases hs
              refine .checked rfl hhandled ?_
              -- what can be opened is refused
              by_contra hsome
              have hreadable : s.readable file filename = true := Option.ne_none_iff_isSome.mp hsome
              simp only [refusal, hreadable] at hrefusal
              cases hrefusal
      · cases hs
        exact .refused
  | create i opened =>
      simp only [FileServer.step] at hs
      split at hs
      · next hi =>
          cases hs
          exact .created rfl hi
      · cases hs
  | read i re =>
      simp only [FileServer.step] at hs
      split at hs
      · next hi =>
          obtain ⟨transfer', hstep, rfl⟩ := Option.map_eq_some_iff.mp hs
          exact .read rfl hi hstep
      · cases hs
  | write i we =>
      simp only [FileServer.step] at hs
      split at hs
      · next hi =>
          obtain ⟨transfer', hstep, rfl⟩ := Option.map_eq_some_iff.mp hs
          exact .wrote rfl hi hstep
      · cases hs

/-! ## A file is written once -/

/-- One more session. -/
theorem sessions_concat {l : List Session} {x y : Session} {i : Nat} (h : (l ++ [x])[i]? = some y) :
    l[i]? = some y ∨ i = l.length ∧ y = x := by
  rcases Nat.lt_or_ge i l.length with hlt | hge
  · rw [List.getElem?_append_left hlt] at h
    exact .inl h
  · rw [List.getElem?_append_right hge] at h
    obtain ⟨hi, hx⟩ := List.getElem?_eq_some_iff.mp h
    have hlen : i = l.length := by
      rw [List.length_singleton] at hi
      omega
    subst hlen
    exact .inr ⟨rfl, by rw [← hx]; simp⟩

/-- One session a step further. -/
theorem sessions_set {l : List Session} {x y : Session} {i j : Nat} (h : (l.set i x)[j]? = some y) :
    j ≠ i ∧ l[j]? = some y ∨ j = i ∧ y = x := by
  by_cases hij : i = j
  · subst hij
    have hlt : i < (l.set i x).length := (List.getElem?_eq_some_iff.mp h).1
    rw [List.length_set] at hlt
    rw [List.getElem?_set_self hlt, Option.some.injEq] at h
    exact .inr ⟨rfl, h.symm⟩
  · rw [List.getElem?_set_ne hij] at h
    exact .inl ⟨Ne.symm hij, h⟩

theorem writeStep_left {t t' : WriteTransfer} {e : WriteEvent} (hs : writeStep t e = some t') :
    t.left = none := by
  unfold writeStep at hs
  split_ifs at hs with hleft
  exact Option.not_isSome_iff_eq_none.mp hleft

namespace FileServer.Settled

omit [DecidableEq ι] in
theorem concat {f : ι} {x : Session} (h : s.Settled file f) (hx : ∀ filename ∈ x.pending, file filename ≠ f) :
    ∀ y ∈ s.sessions ++ [x], ∀ filename ∈ y.pending, file filename ≠ f := by
  rw [List.forall_mem_append, List.forall_mem_singleton]
  exact ⟨h, hx⟩

omit [DecidableEq ι] in
/-- A session that goes on has no other file than before. -/
theorem set {f : ι} {i : Nat} {x x' : Session} (h : s.Settled file f) (hi : s.sessions[i]? = some x)
    (hx : ∀ filename ∈ x'.pending, filename ∈ x.pending) :
    ∀ y ∈ s.sessions.set i x', ∀ filename ∈ y.pending, file filename ≠ f := by
  intro y hy filename hpending
  rcases List.mem_or_eq_of_mem_set hy with hy | rfl
  · exact h y hy filename hpending
  · exact h x (List.mem_of_getElem? hi) filename (hx filename hpending)

end FileServer.Settled

theorem mem_pending_writing {filename g : Bytes} {mode : Mode} {opened : Bool} {t : WriteTransfer} :
    g ∈ (Session.writing filename mode opened t).pending ↔
      opened = true ∧ t.left = none ∧ g = filename := by
  show g ∈ (if opened = true ∧ t.left = none then some filename else none) ↔ _
  split_ifs with h
  · rw [Option.mem_some_iff]
    exact ⟨fun hg => ⟨h.1, h.2, hg.symm⟩, fun hg => hg.2.2.symm⟩
  · exact iff_of_false (by simp) fun hg => h ⟨hg.1, hg.2.1⟩

/-- **One step leaves a file alone** that is there and has no upload under way, and begins none. -/
theorem settled_step (hs : s.step file e = some s') {f : ι} (hthere : s.disk f ≠ none)
    (hsettled : s.Settled file f) : s'.disk f = s.disk f ∧ s'.Settled file f := by
  cases file_step hs with
  | refused => exact ⟨rfl, hsettled⟩
  | opened he hhandled hdisk => exact ⟨rfl, hsettled.concat fun _ hnone => nomatch hnone⟩
  | checked he hhandled hdisk =>
      refine ⟨rfl, hsettled.concat fun g hg heq => hthere ?_⟩
      cases hg
      rw [← heq]
      exact hdisk
  | @created i filename mode opened he hi =>
      have hne : file filename ≠ f := hsettled _ (List.mem_of_getElem? hi) filename rfl
      refine ⟨?_, hsettled.set hi fun g hg => ?_⟩
      · cases opened
        · rfl
        · exact update_of_ne (Ne.symm hne) _ _
      · obtain ⟨-, -, rfl⟩ := mem_pending_writing.mp hg
        rfl
  | read he hi hstep => exact ⟨rfl, hsettled.set hi fun _ hnone => nomatch hnone⟩
  | @wrote i we filename mode opened transfer transfer' he hi hstep =>
      -- a transfer that takes a step has not been left
      have hrunning := writeStep_left hstep
      refine ⟨?_, hsettled.set hi fun g hg => ?_⟩
      · cases opened
        · rfl
        · have hne := hsettled _ (List.mem_of_getElem? hi) filename
            (mem_pending_writing.mpr ⟨rfl, hrunning, rfl⟩)
          exact update_of_ne (Ne.symm hne) _ _
      · obtain ⟨hopened, -, hsame⟩ := mem_pending_writing.mp hg
        exact mem_pending_writing.mpr ⟨hopened, hrunning, hsame⟩

end Steps

/-- A run leaves alone what each of its steps does. -/
theorem kept_of_run {s s' : FileServer ι} {es : List FileEvent} (hs : (fileServer file).run s es = some s')
    {f : ι} {bytes : Bytes} (hthere : s.disk f = some bytes) (hsettled : s.Settled file f) :
    s'.disk f = some bytes ∧ s'.Settled file f := by
  induction es generalizing s with
  | nil =>
      cases hs
      exact ⟨hthere, hsettled⟩
  | cons e es ih =>
      obtain ⟨s₁, hs₁, hrest⟩ := Option.bind_eq_some_iff.mp hs
      obtain ⟨hsame, hsettled₁⟩ := settled_step hs₁ (by rw [hthere]; simp) hsettled
      exact ih hrest (hsame.trans hthere) hsettled₁

/-- **A file is written once.** Once a file is there and no upload of it is under way, nothing that is
requested and nothing that is received changes it, or begins another upload of it. -/
theorem written_once {ι : Type*} [DecidableEq ι] (file : Bytes → ι) (s s' : FileServer ι)
    (es : List FileEvent) (hs : (fileServer file).run s es = some s') (f : ι) (bytes : Bytes)
    (hthere : s.disk f = some bytes) (hsettled : s.Settled file f) :
    s'.disk f = some bytes ∧ s'.Settled file f :=
  kept_of_run hs hthere hsettled

/-! ## What is stored is what is fetched -/

theorem prefix_leave {t t' : WriteTransfer} {why : Leave} (hsame : t'.file = t.file) :
    t.file.content <+: (t'.leave why).file.content := by
  rw [← hsame]
  unfold WriteTransfer.leave
  split_ifs
  · exact OFStream.prefix_insert ..
  · exact List.prefix_rfl

/-- What a step of a transfer writes comes behind what it has written. -/
theorem prefix_writeStep {t t' : WriteTransfer} {e : WriteEvent} (hs : writeStep t e = some t') :
    t.file.content <+: t'.file.content := by
  unfold writeStep at hs
  split_ifs at hs
  cases e with
  | interrupted =>
      cases hs
      exact List.prefix_rfl
  | selectError =>
      cases hs
      exact prefix_leave rfl
  | timeout =>
      cases hs
      unfold WriteTransfer.loopTop
      split_ifs
      · exact List.prefix_rfl
      · exact prefix_leave rfl
  | received ret data =>
      dsimp only at hs
      split_ifs at hs
      · cases hs
        exact prefix_leave rfl
      · cases hs
        exact List.prefix_rfl
      · cases hs
        exact prefix_leave rfl
      · unfold WriteTransfer.flush at hs
        dsimp only at hs
        split_ifs at hs
        cases hs
        unfold WriteTransfer.bufRead
        split
        · exact OFStream.prefix_write ..
        · exact OFStream.prefix_write ..

theorem patch_length (content bytes : Bytes) : patch content content.length bytes = content ++ bytes := by
  unfold patch
  split_ifs with hnone
  · rw [hnone, List.append_nil]
  · have hover := overwrite_append content [] bytes
    rw [List.append_nil, List.drop_nil, List.append_nil] at hover
    rw [Nat.sub_self, show zeros 0 = [] from rfl, List.append_nil]
    exact hover

/-- What holds in every reachable state. -/
structure Serving (file : Bytes → ι) (client : Nat → Bytes) (s : FileServer ι) : Prop where
  written : ∀ (i : Nat) (f : Bytes) (mode : Mode) (t : WriteTransfer),
    s.sessions[i]? = some (.writing f mode true t) → s.disk (file f) = some t.file.content
  alone : ∀ (i j : Nat) (x y : Session), s.sessions[i]? = some x → s.sessions[j]? = some y →
    ∀ f ∈ x.target, ∀ g ∈ y.target, file f = file g → i = j
  fetched : ∀ (i : Nat) (f : Bytes) (mode : Mode) (t : ReadTransfer),
    s.sessions[i]? = some (.reading f mode t) → s.Settled file (file f) ∧
      ∃ bytes, s.disk (file f) = some bytes ∧ InLockStep (FileStream.stream mode bytes) t
  uploaded : ∀ (i : Nat) (f : Bytes) (t : WriteTransfer),
    s.sessions[i]? = some (.writing f .octet true t) → Uploading (client i) t

namespace Serving

variable {client : Nat → Bytes} {s s' : FileServer ι} {e : FileEvent}

omit [DecidableEq ι] in
/-- A file that is not there and of which no upload is under way is no upload's. -/
theorem ne_target (h : Serving file client s) {filename : Bytes} (hdisk : s.disk (file filename) = none)
    (hsettled : s.Settled file (file filename)) {i : Nat} {x : Session} (hi : s.sessions[i]? = some x)
    {f : Bytes} (hf : f ∈ x.target) : file f ≠ file filename := by
  cases x with
  | reading => cases hf
  | checked g mode =>
      cases hf
      exact hsettled _ (List.mem_of_getElem? hi) f rfl
  | writing g mode opened t =>
      cases opened
      · cases hf
      · cases hf
        intro hsame
        have hwritten := h.written i f mode t hi
        rw [hsame, hdisk] at hwritten
        cases hwritten

omit [DecidableEq ι] in
/-- A session that goes on has no other target than before. -/
theorem alone_set (h : Serving file client s) {k : Nat} {z w : Session} (hk : s.sessions[k]? = some z)
    (hw : ∀ f ∈ w.target, f ∈ z.target) (i j : Nat) (x y : Session)
    (hi : (s.sessions.set k w)[i]? = some x) (hj : (s.sessions.set k w)[j]? = some y) :
    ∀ f ∈ x.target, ∀ g ∈ y.target, file f = file g → i = j := by
  intro f hf g hg hsame
  rcases sessions_set hi with ⟨-, hi'⟩ | ⟨hik, hx⟩ <;> rcases sessions_set hj with ⟨-, hj'⟩ | ⟨hjk, hy⟩
  · exact h.alone i j x y hi' hj' f hf g hg hsame
  · rw [hy] at hg
    rw [hjk]
    exact h.alone i k x z hi' hk f hf g (hw g hg) hsame
  · rw [hx] at hf
    rw [hik]
    exact h.alone k j z y hk hj' f (hw f hf) g hg hsame
  · rw [hik, hjk]

theorem alone_step (h : Serving file client s) (hg : Orderly file client s e)
    (hs : s.step file e = some s') (i j : Nat) (x y : Session) (hi : s'.sessions[i]? = some x)
    (hj : s'.sessions[j]? = some y) : ∀ f ∈ x.target, ∀ g ∈ y.target, file f = file g → i = j := by
  cases file_step hs with
  | refused => exact h.alone i j x y hi hj
  | opened he hhandled hdisk =>
      intro f hf g hg
      rcases sessions_concat hi with hi | ⟨-, rfl⟩
      · rcases sessions_concat hj with hj | ⟨-, rfl⟩
        · exact h.alone i j x y hi hj f hf g hg
        · cases hg
      · cases hf
  | @checked msg stack filename mode he hhandled hdisk =>
      subst he
      have hsettled : s.Settled file (file filename) := by simpa only [Orderly, hhandled] using hg
      intro f hf g hg hsame
      rcases sessions_concat hi with hi' | ⟨hi', rfl⟩ <;> rcases sessions_concat hj with hj' | ⟨hj', rfl⟩
      · exact h.alone i j x y hi' hj' f hf g hg hsame
      · cases hg
        exact absurd hsame (h.ne_target hdisk hsettled hi' hf)
      · cases hf
        exact absurd hsame.symm (h.ne_target hdisk hsettled hj' hg)
      · rw [hi', hj']
  | @created k filename mode opened he hk =>
      refine h.alone_set hk (fun f hf => ?_) i j x y hi hj
      cases opened
      · cases hf
      · exact hf
  | @read k re filename mode transfer transfer' he hk hstep =>
      exact h.alone_set hk (w := .reading filename mode transfer') (fun _ hf => hf) i j x y hi hj
  | @wrote k we filename mode opened transfer transfer' he hk hstep =>
      exact h.alone_set hk (w := .writing filename mode opened transfer') (fun _ hf => hf) i j x y hi hj

theorem written_step (h : Serving file client s) (hs : s.step file e = some s') {i : Nat} {f : Bytes}
    {mode : Mode} {t : WriteTransfer} (hi : s'.sessions[i]? = some (.writing f mode true t)) :
    s'.disk (file f) = some t.file.content := by
  cases file_step hs with
  | refused => exact h.written i f mode t hi
  | opened he hhandled hdisk =>
      rcases sessions_concat hi with hi | ⟨-, hx⟩
      · exact h.written i f mode t hi
      · cases hx
  | checked he hhandled hdisk =>
      rcases sessions_concat hi with hi | ⟨-, hx⟩
      · exact h.written i f mode t hi
      · cases hx
  | @created k filename mode' opened he hk =>
      rcases sessions_set hi with ⟨hik, hi'⟩ | ⟨-, hx⟩
      · have hkept := h.written i f mode t hi'
        cases opened
        · exact hkept
        · rw [← hkept]
          exact update_of_ne (fun hsame => hik (h.alone i k _ _ hi' hk f rfl filename rfl hsame)) _ _
      · cases hx
        exact update_self ..
  | read he hk hstep =>
      rcases sessions_set hi with ⟨-, hi⟩ | ⟨-, hx⟩
      · exact h.written i f mode t hi
      · cases hx
  | @wrote k we filename mode' opened transfer transfer' he hk hstep =>
      rcases sessions_set hi with ⟨hik, hi'⟩ | ⟨-, hx⟩
      · have hkept := h.written i f mode t hi'
        cases opened
        · exact hkept
        · rw [← hkept]
          exact update_of_ne (fun hsame => hik (h.alone i k _ _ hi' hk f rfl filename rfl hsame)) _ _
      · cases hx
        obtain ⟨bytes, hbytes⟩ := prefix_writeStep hstep
        refine (update_self ..).trans ?_
        rw [h.written k f mode transfer hk, Option.map_some, ← hbytes, List.drop_left, patch_length]

/-- Downloads that were under way go on as they were. -/
theorem fetched_kept (h : Serving file client s) (hs : s.step file e = some s') {i : Nat}
    {f : Bytes} {mode : Mode} {t : ReadTransfer} (hi : s.sessions[i]? = some (.reading f mode t)) :
    s'.Settled file (file f) ∧
      ∃ bytes, s'.disk (file f) = some bytes ∧ InLockStep (FileStream.stream mode bytes) t := by
  obtain ⟨hsettled, bytes, hdisk, hlock⟩ := h.fetched i f mode t hi
  obtain ⟨hsame, hsettled'⟩ := settled_step hs (by rw [hdisk]; simp) hsettled
  exact ⟨hsettled', bytes, hsame.trans hdisk, hlock⟩

theorem fetched_step (h : Serving file client s) (hg : Orderly file client s e)
    (hs : s.step file e = some s') {i : Nat} {f : Bytes} {mode : Mode} {t : ReadTransfer}
    (hi : s'.sessions[i]? = some (.reading f mode t)) : s'.Settled file (file f) ∧
      ∃ bytes, s'.disk (file f) = some bytes ∧ InLockStep (FileStream.stream mode bytes) t := by
  cases file_step hs with
  | refused => exact h.fetched i f mode t hi
  | @opened msg stack filename bytes mode' he hhandled hdisk =>
      rcases sessions_concat hi with hi | ⟨-, hx⟩
      · exact h.fetched_kept hs hi
      · cases hx
        refine ⟨?_, bytes, hdisk, loopTop_advancing (advancing_init _ bytes)⟩
        subst he
        have hsettled : s.Settled file (file f) := by
          simpa only [Orderly, hhandled] using hg
        exact (settled_step hs (by rw [hdisk]; simp) hsettled).2
  | checked he hhandled hdisk =>
      rcases sessions_concat hi with hi | ⟨-, hx⟩
      · exact h.fetched_kept hs hi
      · cases hx
  | created he hk =>
      rcases sessions_set hi with ⟨-, hi⟩ | ⟨-, hx⟩
      · exact h.fetched_kept hs hi
      · cases hx
  | @read j re filename mode' transfer transfer' he hj hstep =>
      rcases sessions_set hi with ⟨-, hi⟩ | ⟨-, hx⟩
      · exact h.fetched_kept hs hi
      · cases hx
        obtain ⟨hsettled, bytes, hdisk, hlock⟩ := h.fetched_kept hs hj
        subst he
        have hquiet : NoInterruptInside transfer re := by simpa only [Orderly, hj] using hg
        exact ⟨hsettled, bytes, hdisk, inLockStep_step hlock hquiet hstep⟩
  | wrote he hj hstep =>
      rcases sessions_set hi with ⟨-, hi⟩ | ⟨-, hx⟩
      · exact h.fetched_kept hs hi
      · cases hx

theorem uploaded_step (hk : ∀ i, (client i).length / tftpMaxDataLen + 1 < 65536)
    (h : Serving file client s) (hg : Orderly file client s e) (hs : s.step file e = some s') {i : Nat}
    {f : Bytes} {t : WriteTransfer} (hi : s'.sessions[i]? = some (.writing f .octet true t)) :
    Uploading (client i) t := by
  cases file_step hs with
  | refused => exact h.uploaded i f t hi
  | opened he hhandled hdisk =>
      rcases sessions_concat hi with hi | ⟨-, hx⟩
      · exact h.uploaded i f t hi
      · cases hx
  | checked he hhandled hdisk =>
      rcases sessions_concat hi with hi | ⟨-, hx⟩
      · exact h.uploaded i f t hi
      · cases hx
  | created he hj =>
      rcases sessions_set hi with ⟨-, hi⟩ | ⟨-, hx⟩
      · exact h.uploaded i f t hi
      · cases hx
        exact .inl ⟨0, expecting_start _⟩
  | read he hj hstep =>
      rcases sessions_set hi with ⟨-, hi⟩ | ⟨-, hx⟩
      · exact h.uploaded i f t hi
      · cases hx
  | @wrote j we filename mode opened transfer transfer' he hj hstep =>
      rcases sessions_set hi with ⟨-, hi⟩ | ⟨hij, hx⟩
      · exact h.uploaded i f t hi
      · cases hx
        subst he hij
        have hfrom : FromClient (client i) transfer we := by simpa only [Orderly, hj] using hg
        rcases h.uploaded i _ _ hj with ⟨k, hexp⟩ | ⟨hleft, -⟩
        · obtain ⟨u, hu, hup⟩ := uploading_step (hk i) hexp hfrom
          rw [hstep, Option.some.injEq] at hu
          exact hu ▸ hup
        · rw [writeStep_left hstep] at hleft
          cases hleft

end Serving

section Serving

variable {client : Nat → Bytes} {s : FileServer ι}

theorem serving_of_reachable (hk : ∀ i, (client i).length / tftpMaxDataLen + 1 < 65536)
    (h : (fileServer file).ReachableUnder (Orderly file client) s) : Serving file client s := by
  apply h.invariant
  · intro s hnone
    have hno : ∀ (i : Nat) (x : Session), s.sessions[i]? ≠ some x := by
      intro i x hi
      rw [show s.sessions = [] from hnone] at hi
      cases hi
    exact ⟨fun i f m t hi => absurd hi (hno i _), fun i j x y hi => absurd hi (hno i _),
      fun i f m t hi => absurd hi (hno i _), fun i f t hi => absurd hi (hno i _)⟩
  · intro s e s' hi hg hs
    exact ⟨fun _ _ _ _ h => hi.written_step hs h, hi.alone_step hg hs,
      fun _ _ _ _ h => hi.fetched_step hg hs h, fun _ _ _ h => hi.uploaded_step hk hg hs h⟩

end Serving

/-- **What has been uploaded is what is downloaded.** Once an octet upload whose file could be created has
ended with its last block, the file is what its client sent, and stays it whatever else is requested and
transferred; and what every later download of it sends, under whatever name, is that file in lock-step. -/
theorem stored_is_fetched {ι : Type*} [DecidableEq ι] (file : Bytes → ι) (client : Nat → Bytes)
    (hk : ∀ i, (client i).length / tftpMaxDataLen + 1 < 65536) (s s' : FileServer ι) (es : List FileEvent)
    (hr : (fileServer file).ReachableUnder (Orderly file client) s)
    (hG : (fileServer file).Along (Orderly file client) s es)
    (hs : (fileServer file).run s es = some s') (i : Nat) (name : Bytes) (t : WriteTransfer)
    (hi : s.sessions[i]? = some (.writing name .octet true t)) (hlast : t.left = some .lastBlock) :
    s.disk (file name) = some (client i) ∧ s'.disk (file name) = some (client i) ∧
      ∀ (j : Nat) (name' : Bytes) (mode : Mode) (u : ReadTransfer), file name' = file name →
        s'.sessions[j]? = some (.reading name' mode u) →
        LockStep (FileStream.stream mode (client i)) u.log := by
  have hserving := serving_of_reachable hk hr
  have hstored : s.disk (file name) = some (client i) := by
    rw [hserving.written i name .octet t hi]
    rcases hserving.uploaded i name t hi with ⟨k, hexp⟩ | ⟨-, -, hcontent⟩
    · rw [hexp.running] at hlast
      cases hlast
    · rw [hcontent hlast]
  have hsettled : s.Settled file (file name) := by
    intro x hx g hg hsame
    obtain ⟨j, hj⟩ := List.mem_iff_getElem?.mp hx
    have htarget : g ∈ x.target := by
      cases x with
      | reading => cases hg
      | checked => exact hg
      | writing f mode opened u =>
          obtain ⟨rfl, -, rfl⟩ := mem_pending_writing.mp hg
          rfl
    -- it would be this upload itself, and that has ended
    cases hserving.alone j i x _ hj hi g htarget name rfl hsame
    cases hj.symm.trans hi
    obtain ⟨-, hrunning, -⟩ := mem_pending_writing.mp hg
    rw [hlast] at hrunning
    cases hrunning
  have hkept := kept_of_run hs hstored hsettled
  refine ⟨hstored, hkept.1, ?_⟩
  intro j name' mode u hsame hj
  obtain ⟨-, bytes, hdisk, hlock⟩ := (serving_of_reachable hk (hr.run hG hs)).fetched j name' mode u hj
  rw [hsame, hkept.1, Option.some.injEq] at hdisk
  subst hdisk
  rcases hlock with ⟨-, k, hout⟩ | ⟨-, hlog⟩
  · exact .of_ofLog hout.log
  · exact hlog

section Examples

variable {ι : Type*} {file : Bytes → ι} {client : Nat → Bytes} {s : FileServer ι}

theorem orderly_request (h : ∀ f, s.Settled file f) (msg : Bytes) (stack : PacketBuf) :
    Orderly file client s (.request msg stack) := by
  unfold Orderly
  dsimp only
  split
  · exact h _
  · exact h _
  · trivial

theorem orderly_write {i k : Nat} (hk : k ≤ (client i).length / tftpMaxDataLen) (before : PacketBuf) :
    Orderly file client s (.write i (clientData (client i) k before)) := by
  unfold Orderly
  dsimp only
  split
  · exact fromClient_clientData _ before hk
  · trivial

end Examples

/-- A request for the file `f` in octet mode. -/
def requestF (o : Opcode) : FileEvent :=
  .request (le16 o.value ++ (ascii "f" ++ 0 :: (Mode.octet.toString ++ [0]))) .blank

/-- A disk with one file. -/
def holdingF : FileServer Bytes := ⟨fun f => if f = ascii "f" then some (ascii "hi") else none, []⟩

/-- An upload of a file that is there. -/
theorem written_once_refused :
    ∃ s, (fileServer id).run holdingF [requestF .wrq] = some s ∧ s.disk (ascii "f") = some (ascii "hi") ∧
      s.Settled id (ascii "f") := by
  have hrun : ((fileServer id).run holdingF [requestF .wrq]).isSome = true := by decide +kernel
  obtain ⟨s, hs⟩ := Option.isSome_iff_exists.mp hrun
  have hthere : holdingF.disk (ascii "f") = some (ascii "hi") := by decide
  exact ⟨s, hs, written_once id holdingF s _ hs (ascii "f") (ascii "hi") hthere
    (by simp [FileServer.Settled, holdingF])⟩

/-- An empty disk. -/
def emptyDisk : FileServer Bytes := ⟨fun _ => none, []⟩

/-- The upload of `hi` to the file `f`. -/
def uploadF (i : Nat) : List FileEvent := [.create i true, .write i (clientData (ascii "hi") 0 .blank)]

/-- Two handlers find no file, one upload ends, and then the other one empties the file. -/
example : ((fileServer id).run emptyDisk ([requestF .wrq, requestF .wrq] ++ uploadF 0)).map
      (fun s => s.disk (ascii "f")) = some (some (ascii "hi")) ∧
    ((fileServer id).run emptyDisk ([requestF .wrq, requestF .wrq] ++ uploadF 0 ++ [.create 1 true])).map
      (fun s => s.disk (ascii "f")) = some (some []) := by
  decide +kernel

/-- The upload of the file `f` has ended. -/
def uploadedF : List Session → Bool
  | [.writing name .octet opened t] => opened && name = ascii "f" && t.left = some .lastBlock
  | _ => false

/-- The uploaded file is requested once its upload has ended. -/
theorem stored_is_fetched_hi :
    ∃ s s', (fileServer id).run emptyDisk (requestF .wrq :: uploadF 0) = some s ∧
      (fileServer id).run s [requestF .rrq] = some s' ∧
      s'.disk (ascii "f") = some (ascii "hi") ∧ s'.sessions.length = 2 ∧
      ∀ (j : Nat) (name' : Bytes) (mode : Mode) (u : ReadTransfer), id name' = id (ascii "f") →
        s'.sessions[j]? = some (.reading name' mode u) →
        LockStep (FileStream.stream mode (ascii "hi")) u.log := by
  have hrun : (((fileServer id).run emptyDisk (requestF .wrq :: uploadF 0)).any fun s =>
        uploadedF s.sessions &&
        ((fileServer id).run s [requestF .rrq]).any fun s' => s'.sessions.length = 2) = true := by
    decide +kernel
  obtain ⟨s, hs, hrest⟩ := (Option.any_eq_true _ _).mp hrun
  rw [Bool.and_eq_true] at hrest
  obtain ⟨hsession, hrest⟩ := hrest
  obtain ⟨s', hs', hlen⟩ := (Option.any_eq_true _ _).mp hrest
  obtain ⟨t, ht, hleft⟩ :
      ∃ t, s.sessions = [.writing (ascii "f") .octet true t] ∧ t.left = some .lastBlock := by
    unfold uploadedF at hsession
    split at hsession
    · next name opened t heq =>
        simp only [Bool.and_eq_true, decide_eq_true_eq] at hsession
        obtain ⟨⟨rfl, rfl⟩, hleft⟩ := hsession
        exact ⟨t, heq, hleft⟩
    · cases hsession
  have hsettled : ∀ f, s.Settled id f := by
    intro f x hx g hg
    rw [ht, List.mem_singleton] at hx
    subst hx
    obtain ⟨-, hrunning, -⟩ := mem_pending_writing.mp hg
    rw [hleft] at hrunning
    cases hrunning
  have hinit : (fileServer id).init emptyDisk := rfl
  have hG : (fileServer id).Along (Orderly id fun _ => ascii "hi") emptyDisk (requestF .wrq :: uploadF 0) :=
    ⟨orderly_request (by simp [FileServer.Settled, emptyDisk]) _ _,
      fun _ _ => ⟨trivial, fun _ _ => ⟨orderly_write (Nat.zero_le _) _, fun _ _ => trivial⟩⟩⟩
  have hG' : (fileServer id).Along (Orderly id fun _ => ascii "hi") s [requestF .rrq] :=
    ⟨orderly_request hsettled _ _, fun _ _ => trivial⟩
  obtain ⟨-, hdisk, hfetched⟩ := stored_is_fetched id (fun _ => ascii "hi") (fun _ => by decide +kernel)
    s s' [requestF .rrq] (.run (.init hinit) hG hs) hG' hs' 0 (ascii "f") t (by rw [ht]; rfl) hleft
  exact ⟨s, s', hs, hs', hdisk, of_decide_eq_true hlen, hfetched⟩

end Machine

end ComputerNetworking.Tftp
