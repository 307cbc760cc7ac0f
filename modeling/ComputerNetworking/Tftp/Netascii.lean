/-
# ComputerNetworking.Tftp.Netascii -- the two netascii stream buffers

`UNIXtoNetasciiStreamBuf` and `NetasciitoUNIXStreamBuf` convert one character at a time in
`underflow`, looking one character ahead behind a CR. Each is given here as the source has it, next
to the conversion of whole byte strings it is meant to compute; the buffer supplies exactly the
converted bytes.
-/
import ComputerNetworking.Lib.Stream

namespace ComputerNetworking.Tftp

open ComputerNetworking.Lib

/-- `'\n'`. -/
def lf : UInt8 := 0x0A

/-- `'\r'`. -/
def cr : UInt8 := 0x0D

/-- `char nextChar = file.peek()`: EOF is -1, as a char 0xFF. -/
def peekedChar (c : Option UInt8) : UInt8 := c.getD 0xFF

/-! ## UNIX to netascii -/

/-- LF becomes CR LF, CR LF stays, a CR before anything else becomes CR NUL. -/
def unixToNetascii : Bytes → Bytes
  | [] => []
  | c :: rest =>
      if c = lf then cr :: lf :: unixToNetascii rest
      else if c = cr then
        match rest with
        | d :: rest' =>
            if d = lf then cr :: lf :: unixToNetascii rest'
            else cr :: 0 :: unixToNetascii (d :: rest')
        | [] => [cr, 0]
      else c :: unixToNetascii rest

section Encode

variable {c d : UInt8} {rest : Bytes}

theorem unixToNetascii_lf : unixToNetascii (lf :: rest) = cr :: lf :: unixToNetascii rest := by
  rw [unixToNetascii.eq_def]
  rfl

theorem unixToNetascii_cr_end : unixToNetascii [cr] = [cr, 0] := by
  rw [unixToNetascii.eq_def]
  rfl

theorem unixToNetascii_cr_lf :
    unixToNetascii (cr :: lf :: rest) = cr :: lf :: unixToNetascii rest := by
  rw [unixToNetascii.eq_def]
  rfl

theorem unixToNetascii_cr (hd : d ≠ lf) :
    unixToNetascii (cr :: d :: rest) = cr :: 0 :: unixToNetascii (d :: rest) := by
  rw [unixToNetascii.eq_def]
  simp only [if_neg (show cr ≠ lf by decide), if_neg hd, if_true]

theorem unixToNetascii_other (hlf : c ≠ lf) (hcr : c ≠ cr) :
    unixToNetascii (c :: rest) = c :: unixToNetascii rest := by
  rw [unixToNetascii.eq_def]
  simp only [if_neg hlf, if_neg hcr]

end Encode

/-- `UNIXtoNetasciiStreamBuf::underflow` on an empty get area: the characters it puts there. -/
def unixToNetasciiUnderflow (file : IStream Bytes) : Bytes × IStream Bytes :=
  match file.read fileBuf 1 with
  | ([], file) => ([], file)
  | (c :: _, file) =>
      if c = lf then ([cr, lf], file)
      else if c = cr then
        match file.peek fileBuf with
        | (next, file) =>
            if peekedChar next = lf then
              (cr :: (file.read fileBuf 1).1, (file.read fileBuf 1).2)
            else ([cr, 0], file)
      else ([c], file)

/-- `UNIXtoNetasciiStreamBuf`. -/
def unixToNetasciiBuf : StreamBuf (IStream Bytes × Bytes) := refilling unixToNetasciiUnderflow

theorem unixToNetascii_eq_nil {s : Bytes} : unixToNetascii s = [] ↔ s = [] := by
  constructor
  · intro h
    rw [unixToNetascii.eq_def] at h
    split at h
    · rfl
    · split_ifs at h
      split at h
      · split_ifs at h
      · cases h
  · rintro rfl
    rfl

/-- What one `underflow` puts into the get area is the front of the converted file. -/
theorem unixToNetasciiUnderflow_content (file : IStream Bytes) :
    unixToNetascii (file.content id) = (unixToNetasciiUnderflow file).1 ++
        unixToNetascii ((unixToNetasciiUnderflow file).2.content id) ∧
      ((unixToNetasciiUnderflow file).1 = [] → unixToNetascii (file.content id) = []) := by
  unfold unixToNetasciiUnderflow
  rcases IStream.read_one fileBuf_supplies file with
    ⟨file', hr, hc, hc'⟩ | ⟨c, rest, file', hr, hc, hc'⟩
  · rw [hr, hc]
    exact ⟨by rw [hc']; rfl, fun _ => rfl⟩
  · rw [hr, hc]
    obtain ⟨hnext, hsame⟩ := IStream.peek_content fileBuf_supplies file'
    rw [hc'] at hnext hsame
    by_cases hlf : c = lf
    · subst hlf
      simp only [if_true, hc', unixToNetascii_lf]
      exact ⟨rfl, by simp⟩
    · by_cases hcr : c = cr
      · subst hcr
        cases rest with
        | nil =>
            -- EOF behind the CR is 0xFF as a char, and no LF
            have hne : peekedChar (file'.peek fileBuf).1 ≠ lf := by
              rw [hnext]
              decide
            simp only [if_neg hlf, if_true, if_neg hne, hsame, unixToNetascii_cr_end]
            exact ⟨rfl, by simp⟩
        | cons d rest =>
            have hpeeked : peekedChar (file'.peek fileBuf).1 = d := by rw [hnext]; rfl
            by_cases hd : d = lf
            · subst hd
              rcases IStream.read_content fileBuf_supplies (file'.peek fileBuf).2 1 with
                ⟨hgot, hrest⟩
              rw [hsame] at hgot hrest
              simp only [if_neg hlf, if_true, hpeeked, hgot, hrest, unixToNetascii_cr_lf]
              exact ⟨rfl, by simp⟩
            · simp only [if_neg hlf, if_true, hpeeked, if_neg hd, hsame, unixToNetascii_cr hd]
              exact ⟨rfl, by simp⟩
      · simp only [if_neg hlf, if_neg hcr, hc', unixToNetascii_other hlf hcr]
        exact ⟨rfl, by simp⟩

/-- **The buffer supplies the converted file.** -/
theorem unixToNetasciiBuf_supplies :
    unixToNetasciiBuf.Supplies fun s => s.2 ++ unixToNetascii (s.1.content id) :=
  refilling_supplies
    (fun file => (unixToNetasciiUnderflow_content file).1)
    (fun file => (unixToNetasciiUnderflow_content file).2)

/-! ## Netascii to UNIX -/

/-- CR LF becomes LF, CR NUL becomes CR, everything else stays. -/
def netasciiToUnix : Bytes → Bytes
  | [] => []
  | c :: rest =>
      if c = cr then
        match rest with
        | d :: rest' =>
            if d = lf then lf :: netasciiToUnix rest'
            else if d = 0 then cr :: netasciiToUnix rest'
            else cr :: netasciiToUnix (d :: rest')
        | [] => [cr]
      else c :: netasciiToUnix rest

/-- `NetasciitoUNIXStreamBuf::underflow` on an empty get area: the character it puts there. -/
def netasciiToUnixUnderflow (file : StringStream) : Bytes × StringStream :=
  match file.read stringBuf 1 with
  | ([], file) => ([], file)
  | (c :: _, file) =>
      if c = cr then
        match file.peek stringBuf with
        | (next, file) =>
            if peekedChar next = lf then
              -- `file.read(&buffer, 1)` over the CR
              (((file.read stringBuf 1).1 ++ [c]).take 1, (file.read stringBuf 1).2)
            else if peekedChar next = 0 then ([c], (file.get stringBuf).2)
            else ([c], file)
      else ([c], file)

/-- `NetasciitoUNIXStreamBuf`. -/
def netasciiToUnixBuf : StreamBuf (StringStream × Bytes) := refilling netasciiToUnixUnderflow

section Decode

variable {c d : UInt8} {rest : Bytes}

theorem netasciiToUnix_cr_end : netasciiToUnix [cr] = [cr] := by
  rw [netasciiToUnix.eq_def]
  rfl

theorem netasciiToUnix_cr_lf : netasciiToUnix (cr :: lf :: rest) = lf :: netasciiToUnix rest := by
  rw [netasciiToUnix.eq_def]
  rfl

theorem netasciiToUnix_cr_nul : netasciiToUnix (cr :: 0 :: rest) = cr :: netasciiToUnix rest := by
  rw [netasciiToUnix.eq_def]
  rfl

theorem netasciiToUnix_cr (hlf : d ≠ lf) (hnul : d ≠ 0) :
    netasciiToUnix (cr :: d :: rest) = cr :: netasciiToUnix (d :: rest) := by
  rw [netasciiToUnix.eq_def]
  simp only [if_neg hlf, if_neg hnul, if_true]

theorem netasciiToUnix_other (hcr : c ≠ cr) :
    netasciiToUnix (c :: rest) = c :: netasciiToUnix rest := by
  rw [netasciiToUnix.eq_def]
  simp only [if_neg hcr]

end Decode

/-- Decoding does not make it longer. -/
theorem netasciiToUnix_length_le (raw : Bytes) : (netasciiToUnix raw).length ≤ raw.length := by
  fun_induction netasciiToUnix raw <;> simp only [List.length_cons, List.length_nil] at * <;> omega

/-- A character that means nothing behind a CR stays where it is. -/
theorem netasciiToUnix_concat {c : UInt8} (hlf : c ≠ lf) (hnul : c ≠ 0) (raw : Bytes) :
    netasciiToUnix (raw ++ [c]) = netasciiToUnix raw ++ [c] := by
  have hone : netasciiToUnix [c] = [c] := by
    by_cases hcr : c = cr
    · rw [hcr, netasciiToUnix_cr_end]
    · exact netasciiToUnix_other hcr
  induction raw using netasciiToUnix.induct with
  | case1 => exact hone
  | case2 rest ih =>
      show netasciiToUnix (cr :: lf :: (rest ++ [c])) = _
      rw [netasciiToUnix_cr_lf, netasciiToUnix_cr_lf, ih, List.cons_append]
  | case3 rest _ ih =>
      show netasciiToUnix (cr :: 0 :: (rest ++ [c])) = _
      rw [netasciiToUnix_cr_nul, netasciiToUnix_cr_nul, ih, List.cons_append]
  | case4 d rest hdlf hdnul ih =>
      show netasciiToUnix (cr :: d :: (rest ++ [c])) = _
      rw [netasciiToUnix_cr hdlf hdnul, netasciiToUnix_cr hdlf hdnul, ← List.cons_append, ih,
        List.cons_append]
  | case5 =>
      show netasciiToUnix [cr, c] = _
      rw [netasciiToUnix_cr hlf hnul, hone, netasciiToUnix_cr_end]
      rfl
  | case6 d rest hcr ih =>
      show netasciiToUnix (d :: (rest ++ [c])) = _
      rw [netasciiToUnix_other hcr, netasciiToUnix_other hcr, ih, List.cons_append]

/-- One character: what it decodes to and what is behind it, or `none` where the end comes before
the character or before the one that has to be looked at behind a CR. -/
def decodeOne : Bytes → Option (UInt8 × Bytes)
  | [] => none
  | c :: rest =>
      if c = cr then
        match rest with
        | d :: rest' =>
            if d = lf then some (lf, rest')
            else if d = 0 then some (cr, rest')
            else some (cr, d :: rest')
        | [] => none
      else some (c, rest)

/-- The cases in which there is a character. -/
theorem decodeOne_eq_some {raw rest : Bytes} {c : UInt8} (h : decodeOne raw = some (c, rest)) :
    (raw = cr :: lf :: rest ∧ c = lf) ∨ (raw = cr :: 0 :: rest ∧ c = cr) ∨
      (∃ d tail, raw = cr :: d :: tail ∧ rest = d :: tail ∧ c = cr ∧ d ≠ lf ∧ d ≠ 0) ∨
      (raw = c :: rest ∧ c ≠ cr) := by
  rcases raw with _ | ⟨x, _ | ⟨d, tail⟩⟩
  · simp [decodeOne] at h
  · by_cases hx : x = cr
    · simp [decodeOne, hx] at h
    · rw [decodeOne, if_neg hx] at h
      obtain ⟨rfl, rfl⟩ := h
      exact .inr (.inr (.inr ⟨rfl, hx⟩))
  · by_cases hx : x = cr
    · subst hx
      by_cases hlf : d = lf
      · rw [decodeOne, if_pos rfl, hlf] at h
        obtain ⟨rfl, rfl⟩ := h
        exact .inl ⟨by rw [hlf], rfl⟩
      · by_cases hnul : d = 0
        · rw [decodeOne, if_pos rfl, hnul] at h
          obtain ⟨rfl, rfl⟩ := h
          exact .inr (.inl ⟨by rw [hnul], rfl⟩)
        · simp only [decodeOne, if_true, if_neg hlf, if_neg hnul] at h
          obtain ⟨rfl, rfl⟩ := h
          exact .inr (.inr (.inl ⟨d, tail, rfl, rfl, rfl, hlf, hnul⟩))
    · rw [decodeOne, if_neg hx] at h
      obtain ⟨rfl, rfl⟩ := h
      exact .inr (.inr (.inr ⟨rfl, hx⟩))

/-- The cases in which there is none. -/
theorem decodeOne_eq_none {raw : Bytes} (h : decodeOne raw = none) : raw = [] ∨ raw = [cr] := by
  rcases raw with _ | ⟨x, _ | ⟨d, tail⟩⟩
  · exact .inl rfl
  · by_cases hx : x = cr
    · exact .inr (by rw [hx])
    · rw [decodeOne, if_neg hx] at h
      cases h
  · exfalso
    by_cases hx : x = cr
    · simp only [decodeOne, if_pos hx] at h
      split_ifs at h
    · rw [decodeOne, if_neg hx] at h
      cases h

/-- What follows does not change a character that is there. -/
theorem netasciiToUnix_of_decodeOne {raw rest : Bytes} {c : UInt8}
    (h : decodeOne raw = some (c, rest)) (later : Bytes) :
    netasciiToUnix (raw ++ later) = c :: netasciiToUnix (rest ++ later) := by
  rcases decodeOne_eq_some h with
    ⟨rfl, rfl⟩ | ⟨rfl, rfl⟩ | ⟨d, tail, rfl, rfl, rfl, hlf, hnul⟩ | ⟨rfl, hcr⟩
  · exact netasciiToUnix_cr_lf
  · exact netasciiToUnix_cr_nul
  · exact netasciiToUnix_cr hlf hnul
  · exact netasciiToUnix_other hcr

theorem length_lt_of_decodeOne {raw rest : Bytes} {c : UInt8}
    (h : decodeOne raw = some (c, rest)) : rest.length < raw.length := by
  rcases decodeOne_eq_some h with
    ⟨rfl, _⟩ | ⟨rfl, _⟩ | ⟨d, tail, rfl, rfl, _⟩ | ⟨rfl, _⟩ <;>
  · simp only [List.length_cons]
    omega

/-- `underflow` on a good stream delivers the next character and leaves the stream good. -/
theorem netasciiToUnixUnderflow_some {buf : StringBuf} {c : UInt8} {rest : Bytes}
    (h : decodeOne buf.unread = some (c, rest)) :
    ∃ gpos, netasciiToUnixUnderflow ⟨buf, .goodbit⟩ = ([c], ⟨⟨gpos, rest⟩, .goodbit⟩) := by
  obtain ⟨gpos, unread⟩ := buf
  rcases decodeOne_eq_some h with
    ⟨rfl, rfl⟩ | ⟨rfl, rfl⟩ | ⟨d, tail, rfl, rfl, rfl, hlf, hnul⟩ | ⟨rfl, hcr⟩
  · exact ⟨gpos + 2, rfl⟩
  · exact ⟨gpos + 2, rfl⟩
  · refine ⟨gpos + 1, ?_⟩
    simp [netasciiToUnixUnderflow, IStream.read, IStream.peek, StreamBuf.sgetn, stringBuf,
      IoState.goodbit, IoState.good, peekedChar, hlf, hnul]
  · refine ⟨gpos + 1, ?_⟩
    simp [netasciiToUnixUnderflow, IStream.read, StreamBuf.sgetn, stringBuf, IoState.goodbit,
      IoState.good, hcr]

/-- Where it runs into the end, be it with the look behind a CR, a bit of the stream is set. -/
theorem netasciiToUnixUnderflow_none {buf : StringBuf} (h : decodeOne buf.unread = none) :
    (netasciiToUnixUnderflow ⟨buf, .goodbit⟩).1 = netasciiToUnix buf.unread ∧
      ¬ (netasciiToUnixUnderflow ⟨buf, .goodbit⟩).2.state.good := by
  obtain ⟨gpos, unread⟩ := buf
  rcases decodeOne_eq_none h with rfl | rfl
  · exact ⟨rfl, by simp [netasciiToUnixUnderflow, IStream.read, StreamBuf.sgetn, stringBuf,
      IoState.goodbit, IoState.good]⟩
  · show _ = netasciiToUnix [cr] ∧ _
    rw [netasciiToUnix_cr_end]
    simp [netasciiToUnixUnderflow, IStream.read, IStream.peek, StreamBuf.sgetn, stringBuf,
      IoState.goodbit, IoState.good, peekedChar, cr, lf]

/-- On a stream with a bit set nothing comes and nothing changes but `failbit`. -/
theorem netasciiToUnixUnderflow_not_good (file : StringStream) (h : ¬ file.state.good) :
    (netasciiToUnixUnderflow file).1 = [] ∧
      ¬ (netasciiToUnixUnderflow file).2.state.good := by
  have hread : file.read stringBuf 1 = ([], ⟨file.buf, { file.state with fail := true }⟩) :=
    if_neg h
  unfold netasciiToUnixUnderflow
  rw [hread]
  exact ⟨rfl, by simp [IoState.good]⟩

/-- **The buffer supplies the decoded bytes** of what can still be read. -/
theorem netasciiToUnixBuf_supplies :
    netasciiToUnixBuf.Supplies fun s => s.2 ++ netasciiToUnix (s.1.content StringBuf.unread) := by
  have hlaw : ∀ file : StringStream, netasciiToUnix (file.content StringBuf.unread) =
      (netasciiToUnixUnderflow file).1 ++
        netasciiToUnix ((netasciiToUnixUnderflow file).2.content StringBuf.unread) := by
    rintro ⟨buf, state⟩
    by_cases hgood : state.good
    · rw [IoState.eq_goodbit hgood, IStream.content_good rfl]
      rcases hone : decodeOne buf.unread with _ | ⟨c, rest⟩
      · obtain ⟨hout, hstuck⟩ := netasciiToUnixUnderflow_none hone
        rw [IStream.content_not_good hstuck, hout]
        exact (List.append_nil _).symm
      · obtain ⟨gpos, hout⟩ := netasciiToUnixUnderflow_some hone
        rw [hout, IStream.content_good rfl]
        have hdecode := netasciiToUnix_of_decodeOne hone []
        rwa [List.append_nil, List.append_nil] at hdecode
    · obtain ⟨hout, hstuck⟩ := netasciiToUnixUnderflow_not_good ⟨buf, state⟩ hgood
      rw [IStream.content_not_good hgood, IStream.content_not_good hstuck, hout]
      rfl
  have hnil : ∀ file : StringStream, (netasciiToUnixUnderflow file).1 = [] →
      netasciiToUnix (file.content StringBuf.unread) = [] := by
    rintro ⟨buf, state⟩ hout
    by_cases hgood : state.good
    · rw [IoState.eq_goodbit hgood] at hout ⊢
      rw [IStream.content_good rfl]
      rcases hone : decodeOne buf.unread with _ | ⟨c, rest⟩
      · rw [(netasciiToUnixUnderflow_none hone).1] at hout
        exact hout
      · obtain ⟨gpos, hsome⟩ := netasciiToUnixUnderflow_some hone
        rw [hsome] at hout
        cases hout
    · rw [IStream.content_not_good hgood]
      rfl
  exact refilling_supplies hlaw hnil

/-! ## Reading a number of characters ahead of the end -/

/-- What is left behind `n` characters, or `none` where forming one of them runs into the end. -/
def consume : Nat → Bytes → Option Bytes
  | 0, raw => some raw
  | n + 1, raw => (decodeOne raw).bind fun one => consume n one.2

/-- No decoded character takes less than one byte. -/
theorem length_le_of_consume {n : Nat} {raw rest : Bytes} (h : consume n raw = some rest) :
    rest.length + n ≤ raw.length := by
  induction n generalizing raw with
  | zero =>
      cases h
      exact Nat.le_refl _
  | succ n ih =>
      obtain ⟨⟨c, behind⟩, hone, hrest⟩ := Option.bind_eq_some_iff.mp h
      have hle : rest.length + n ≤ behind.length := ih hrest
      have hlt := length_lt_of_decodeOne hone
      omega

theorem netasciiToUnixBuf_sbumpc (file : StringStream) :
    netasciiToUnixBuf.sbumpc (file, []) = ((netasciiToUnixUnderflow file).1.head?,
      ((netasciiToUnixUnderflow file).2, (netasciiToUnixUnderflow file).1.tail)) := rfl

/-- Reading `n` characters that are all there: the stream stays good, and the decoding of what was
there and whatever comes later is these characters and the decoding of the rest. -/
theorem netasciiToUnixBuf_sgetn_some {n : Nat} (buf : StringBuf) {rest : Bytes}
    (h : consume n buf.unread = some rest) :
    ∃ out gpos, netasciiToUnixBuf.sgetn n (⟨buf, .goodbit⟩, []) =
        (out, (⟨⟨gpos, rest⟩, .goodbit⟩, [])) ∧
      out.length = n ∧
      ∀ later, netasciiToUnix (buf.unread ++ later) = out ++ netasciiToUnix (rest ++ later) := by
  induction n generalizing buf with
  | zero =>
      cases h
      exact ⟨[], buf.gpos, rfl, rfl, fun _ => rfl⟩
  | succ n ih =>
      obtain ⟨⟨c, behind⟩, hone, hrest⟩ := Option.bind_eq_some_iff.mp h
      obtain ⟨gpos, hunder⟩ := netasciiToUnixUnderflow_some hone
      obtain ⟨out, gpos', hgot, hlen, hdecode⟩ := ih ⟨gpos, behind⟩ hrest
      refine ⟨c :: out, gpos', ?_, by rw [List.length_cons, hlen], ?_⟩
      · rw [StreamBuf.sgetn, netasciiToUnixBuf_sbumpc, hunder]
        simp only [List.head?_cons, List.tail_cons, hgot]
      · intro later
        rw [netasciiToUnix_of_decodeOne hone, hdecode later, List.cons_append]

/-- Nothing comes out of the buffer any more, now or later. -/
def Stuck (s : StringStream × Bytes) : Prop := ¬ s.1.state.good ∧ s.2 = []

/-- Reading does not get it going again. -/
theorem Stuck.sgetn {s : StringStream × Bytes} (h : Stuck s) (n : Nat) :
    (netasciiToUnixBuf.sgetn n s).1 = [] ∧ Stuck (netasciiToUnixBuf.sgetn n s).2 := by
  obtain ⟨file, area⟩ := s
  obtain ⟨hstuck, rfl⟩ := h
  cases n with
  | zero => exact ⟨rfl, hstuck, rfl⟩
  | succ n =>
      obtain ⟨hout, hstuck'⟩ := netasciiToUnixUnderflow_not_good file hstuck
      rw [StreamBuf.sgetn, netasciiToUnixBuf_sbumpc, hout]
      exact ⟨rfl, hstuck', rfl⟩

/-- Reading characters that are not all there gets the buffer stuck. -/
theorem netasciiToUnixBuf_sgetn_none {n : Nat} (buf : StringBuf) (h : consume n buf.unread = none) :
    Stuck (netasciiToUnixBuf.sgetn n (⟨buf, .goodbit⟩, [])).2 := by
  induction n generalizing buf with
  | zero => cases h
  | succ n ih =>
      rcases hone : decodeOne buf.unread with _ | ⟨c, behind⟩
      · obtain ⟨hout, hstuck⟩ := netasciiToUnixUnderflow_none hone
        rw [StreamBuf.sgetn, netasciiToUnixBuf_sbumpc, hout]
        rcases decodeOne_eq_none hone with hraw | hraw
        · rw [hraw]
          exact ⟨hstuck, rfl⟩
        · -- the CR itself comes, but the look behind it has set `eofbit`
          rw [hraw, netasciiToUnix_cr_end]
          exact (Stuck.sgetn ⟨hstuck, rfl⟩ n).2
      · rw [consume, hone] at h
        obtain ⟨gpos, hunder⟩ := netasciiToUnixUnderflow_some hone
        rw [StreamBuf.sgetn, netasciiToUnixBuf_sbumpc, hunder]
        exact ih ⟨gpos, behind⟩ h

end ComputerNetworking.Tftp
