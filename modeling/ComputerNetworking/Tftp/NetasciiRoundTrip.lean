/-
# ComputerNetworking.Tftp.NetasciiRoundTrip -- one conversion after the other

A netascii stream is made of line ends, carriage returns and other characters: `Token`. The encoder
emits tokens and the decoder reads them one by one, so decoding what was encoded gives the text with
plain line ends. The other way round two tokens can become one: the encoder takes CR LF in a file for
a line end, also where the CR was one of its own.
-/
import ComputerNetworking.Tftp.Netascii
import Mathlib.Data.List.Infix

namespace ComputerNetworking.Tftp

open ComputerNetworking.Lib

/-! ## Well-formed streams -/

/-- Every CR is followed by LF or NUL, and every LF stands behind a CR. -/
structure WellFormed (y : Bytes) : Prop where
  behind_cr : ∀ i, y[i]? = some cr → y[i + 1]? = some lf ∨ y[i + 1]? = some 0
  before_lf : ∀ i, y[i]? = some lf → ∃ j, i = j + 1 ∧ y[j]? = some cr

inductive Token where
  | endOfLine
  | carriageReturn
  | char (c : UInt8) (hlf : c ≠ lf) (hcr : c ≠ cr)

namespace Token

/-- In netascii. -/
def netascii : Token → Bytes
  | endOfLine => [cr, lf]
  | carriageReturn => [cr, 0]
  | char c _ _ => [c]

/-- In a file. -/
def unix : Token → Bytes
  | endOfLine => [lf]
  | carriageReturn => [cr]
  | char c _ _ => [c]

end Token

section WellFormed

variable {c d : UInt8} {y rest : Bytes}

theorem wellFormed_nil : WellFormed [] := ⟨by simp, by simp⟩

theorem wellFormed_cons (hlf : c ≠ lf) (hcr : c ≠ cr) : WellFormed (c :: y) ↔ WellFormed y := by
  constructor
  · rintro ⟨hbehind, hbefore⟩
    refine ⟨fun i hi => hbehind (i + 1) hi, ?_⟩
    intro i hi
    obtain ⟨j, hj, hcrj⟩ := hbefore (i + 1) hi
    cases j with
    | zero => exact absurd (Option.some.inj hcrj) hcr
    | succ j => exact ⟨j, by omega, hcrj⟩
  · rintro ⟨hbehind, hbefore⟩
    refine ⟨?_, ?_⟩
    · intro i hi
      cases i with
      | zero => exact absurd (Option.some.inj hi) hcr
      | succ i => exact hbehind i hi
    · intro i hi
      cases i with
      | zero => exact absurd (Option.some.inj hi) hlf
      | succ i =>
          obtain ⟨j, rfl, hcrj⟩ := hbefore i hi
          exact ⟨j + 1, rfl, hcrj⟩

/-- A CR and what has to be behind it. -/
theorem wellFormed_cr (hd : d = lf ∨ d = 0) : WellFormed (cr :: d :: y) ↔ WellFormed y := by
  have hdcr : d ≠ cr := by rcases hd with rfl | rfl <;> decide
  constructor
  · rintro ⟨hbehind, hbefore⟩
    refine ⟨fun i hi => hbehind (i + 2) hi, ?_⟩
    intro i hi
    obtain ⟨j, hj, hcrj⟩ := hbefore (i + 2) hi
    rcases j with _ | _ | j
    · omega
    · exact absurd (Option.some.inj hcrj) hdcr
    · exact ⟨j, by omega, hcrj⟩
  · rintro ⟨hbehind, hbefore⟩
    refine ⟨?_, ?_⟩
    · intro i hi
      rcases i with _ | _ | i
      · rcases hd with rfl | rfl <;> simp
      · exact absurd (Option.some.inj hi) hdcr
      · exact hbehind i hi
    · intro i hi
      rcases i with _ | _ | i
      · exact absurd (Option.some.inj hi) (by decide)
      · exact ⟨0, rfl, rfl⟩
      · obtain ⟨j, rfl, hcrj⟩ := hbefore i hi
        exact ⟨j + 2, rfl, hcrj⟩

theorem wellFormed_token (t : Token) : WellFormed (t.netascii ++ y) ↔ WellFormed y := by
  cases t with
  | endOfLine => exact wellFormed_cr (.inl rfl)
  | carriageReturn => exact wellFormed_cr (.inr rfl)
  | char c hlf hcr => exact wellFormed_cons hlf hcr

/-- A well-formed stream that is not empty begins with a token. -/
theorem WellFormed.first (h : WellFormed y) (hne : y ≠ []) :
    ∃ (t : Token) (rest : Bytes), y = t.netascii ++ rest := by
  rcases y with _ | ⟨c, rest⟩
  · exact absurd rfl hne
  · by_cases hcr : c = cr
    · subst hcr
      rcases rest with _ | ⟨d, rest⟩
      · rcases h.behind_cr 0 rfl with hd | hd <;> cases hd
      · rcases h.behind_cr 0 rfl with hd | hd
        · obtain rfl := Option.some.inj hd
          exact ⟨.endOfLine, rest, rfl⟩
        · obtain rfl := Option.some.inj hd
          exact ⟨.carriageReturn, rest, rfl⟩
    · by_cases hlf : c = lf
      · subst hlf
        obtain ⟨j, hj, -⟩ := h.before_lf 0 rfl
        omega
      · exact ⟨.char c hlf hcr, rest, rfl⟩

/-- **The well-formed streams are the sequences of tokens.** -/
theorem wellFormed_iff : WellFormed y ↔ ∃ ts : List Token, y = ts.flatMap Token.netascii := by
  constructor
  · intro h
    induction hn : y.length using Nat.strongRecOn generalizing y with
    | ind n ih =>
        by_cases hne : y = []
        · exact ⟨[], hne⟩
        · obtain ⟨t, rest, rfl⟩ := h.first hne
          have hlt : rest.length < n := by
            rw [← hn, List.length_append]
            cases t <;> simp [Token.netascii]
          obtain ⟨ts, rfl⟩ := ih rest.length hlt ((wellFormed_token t).mp h) rfl
          exact ⟨t :: ts, rfl⟩
  · rintro ⟨ts, rfl⟩
    induction ts with
    | nil => exact wellFormed_nil
    | cons t ts ih => exact (wellFormed_token t).mpr ih

end WellFormed

/-! ## Encoding and decoding tokens -/

/-- Every CR LF replaced by a single LF. -/
def crlfToLf : Bytes → Bytes
  | c :: d :: rest =>
      if c = cr ∧ d = lf then lf :: crlfToLf rest else c :: crlfToLf (d :: rest)
  | y => y

/-- Every CR NUL left out that stands directly before a CR LF. -/
def dropReturns : Bytes → Bytes
  | c :: d :: rest =>
      if c = cr ∧ d = 0 ∧ [cr, lf] <+: rest then dropReturns rest
      else c :: dropReturns (d :: rest)
  | y => y

section Tokens

variable {c d : UInt8} {y rest : Bytes}

theorem crlfToLf_crlf : crlfToLf (cr :: lf :: rest) = lf :: crlfToLf rest := by
  rw [crlfToLf, if_pos ⟨rfl, rfl⟩]

theorem crlfToLf_other (h : ¬ [cr, lf] <+: c :: rest) : crlfToLf (c :: rest) = c :: crlfToLf rest := by
  rcases rest with _ | ⟨d, rest⟩
  · rfl
  · rw [crlfToLf, if_neg]
    rintro ⟨rfl, rfl⟩
    exact h ⟨rest, rfl⟩

/-- Without a CR LF nothing is replaced. -/
theorem crlfToLf_of_no_crlf (h : ¬ [cr, lf] <:+: y) : crlfToLf y = y := by
  induction y with
  | nil => rfl
  | cons c y ih =>
      rw [List.infix_cons_iff, not_or] at h
      rw [crlfToLf_other h.1, ih h.2]

/-- **The encoder makes of a text the tokens that the decoder makes it of again.** -/
theorem exists_tokens (x : Bytes) : ∃ ts : List Token,
    unixToNetascii x = ts.flatMap Token.netascii ∧ crlfToLf x = ts.flatMap Token.unix := by
  induction x using unixToNetascii.induct with
  | case1 => exact ⟨[], rfl, rfl⟩
  | case2 rest ih =>
      obtain ⟨ts, hnetascii, hunix⟩ := ih
      refine ⟨.endOfLine :: ts, ?_, ?_⟩
      · rw [unixToNetascii_lf, hnetascii]
        rfl
      · rw [crlfToLf_other (by simp [List.cons_prefix_cons, cr, lf]), hunix]
        rfl
  | case3 rest _ ih =>
      obtain ⟨ts, hnetascii, hunix⟩ := ih
      refine ⟨.endOfLine :: ts, ?_, ?_⟩
      · rw [unixToNetascii_cr_lf, hnetascii]
        rfl
      · rw [crlfToLf_crlf, hunix]
        rfl
  | case4 d rest hd _ ih =>
      obtain ⟨ts, hnetascii, hunix⟩ := ih
      refine ⟨.carriageReturn :: ts, ?_, ?_⟩
      · rw [unixToNetascii_cr hd, hnetascii]
        rfl
      · have hno : ¬ [cr, lf] <+: cr :: d :: rest := by
          simp only [List.cons_prefix_cons, true_and]
          rintro ⟨rfl, -⟩
          exact hd rfl
        rw [crlfToLf_other hno, hunix]
        rfl
  | case5 => exact ⟨[.carriageReturn], unixToNetascii_cr_end, rfl⟩
  | case6 c rest hlf hcr ih =>
      obtain ⟨ts, hnetascii, hunix⟩ := ih
      refine ⟨.char c hlf hcr :: ts, ?_, ?_⟩
      · rw [unixToNetascii_other hlf hcr, hnetascii]
        rfl
      · have hno : ¬ [cr, lf] <+: c :: rest := by
          rw [List.cons_prefix_cons]
          rintro ⟨rfl, -⟩
          exact hcr rfl
        rw [crlfToLf_other hno, hunix]
        rfl

theorem netasciiToUnix_token (t : Token) :
    netasciiToUnix (t.netascii ++ y) = t.unix ++ netasciiToUnix y := by
  cases t with
  | endOfLine => exact netasciiToUnix_cr_lf
  | carriageReturn => exact netasciiToUnix_cr_nul
  | char c hlf hcr => exact netasciiToUnix_other hcr

theorem netasciiToUnix_tokens (ts : List Token) :
    netasciiToUnix (ts.flatMap Token.netascii) = ts.flatMap Token.unix := by
  induction ts with
  | nil => rfl
  | cons t ts ih => rw [List.flatMap_cons, netasciiToUnix_token, ih, List.flatMap_cons]

theorem dropReturns_other (h : ¬ [cr, 0, cr, lf] <+: c :: rest) :
    dropReturns (c :: rest) = c :: dropReturns rest := by
  rcases rest with _ | ⟨d, rest⟩
  · rfl
  · rw [dropReturns, if_neg]
    rintro ⟨rfl, rfl, tail, rfl⟩
    exact h ⟨tail, rfl⟩

theorem dropReturns_before_crlf (h : [cr, lf] <+: rest) :
    dropReturns (cr :: 0 :: rest) = dropReturns rest := by
  rw [dropReturns, if_pos ⟨rfl, rfl, h⟩]

/-- Only a CR is left out. -/
theorem dropReturns_of_ne_cr (h : c ≠ cr) : dropReturns (c :: rest) = c :: dropReturns rest := by
  apply dropReturns_other
  rw [List.cons_prefix_cons]
  rintro ⟨rfl, -⟩
  exact h rfl

theorem dropReturns_length_le (y : Bytes) : (dropReturns y).length ≤ y.length := by
  induction y using dropReturns.induct with
  | case1 c d rest h ih =>
      rw [dropReturns, if_pos h]
      simp only [List.length_cons]
      omega
  | case2 c d rest h ih =>
      rw [dropReturns, if_neg h, List.length_cons, List.length_cons]
      exact Nat.succ_le_succ ih
  | case3 y hy =>
      rw [dropReturns.eq_2 y hy]

/-- Nothing is left out exactly where nothing has to be. -/
theorem dropReturns_eq_self_iff : dropReturns y = y ↔ ¬ [cr, 0, cr, lf] <:+: y := by
  induction y with
  | nil => simp [dropReturns]
  | cons c y ih =>
      rw [List.infix_cons_iff, not_or]
      by_cases h : [cr, 0, cr, lf] <+: c :: y
      · refine iff_of_false ?_ fun hno => hno.1 h
        obtain ⟨tail, htail⟩ := h
        have hlen := dropReturns_length_le (cr :: lf :: tail)
        have hdrop : dropReturns (c :: y) = dropReturns (cr :: lf :: tail) := by
          rw [← htail]
          exact dropReturns_before_crlf ⟨tail, rfl⟩
        intro heq
        rw [← hdrop, heq, ← htail] at hlen
        simp only [List.length_append, List.length_cons, List.length_nil] at hlen
        omega
      · rw [dropReturns_other h, List.cons.injEq, ih]
        simp [h]

/-- Tokens that begin with CR LF begin with a line end. -/
theorem exists_endOfLine {ts : List Token} (h : [cr, lf] <+: ts.flatMap Token.netascii) :
    ∃ ts', ts = .endOfLine :: ts' := by
  rcases ts with _ | ⟨t, ts⟩
  · simp at h
  · cases t with
    | endOfLine => exact ⟨ts, rfl⟩
    | carriageReturn => simp [Token.netascii, List.cons_prefix_cons, lf] at h
    | char c hlf hcr =>
        rw [List.flatMap_cons, Token.netascii, List.singleton_append, List.cons_prefix_cons] at h
        exact absurd h.1.symm hcr

/-- A file that begins with LF is one of tokens that begin with a line end. -/
theorem begins_crlf {ts : List Token} (h : (ts.flatMap Token.unix).head? = some lf) :
    [cr, lf] <+: ts.flatMap Token.netascii := by
  rcases ts with _ | ⟨t, ts⟩
  · cases h
  · cases t with
    | endOfLine => exact ⟨ts.flatMap Token.netascii, rfl⟩
    | carriageReturn => cases h
    | char c hlf hcr => exact absurd (Option.some.inj h) hlf

/-- A CR before anything but LF. -/
theorem unixToNetascii_return {x : Bytes} (h : x.head? ≠ some lf) :
    unixToNetascii (cr :: x) = cr :: 0 :: unixToNetascii x := by
  rcases x with _ | ⟨d, x⟩
  · exact unixToNetascii_cr_end
  · exact unixToNetascii_cr fun hd => h (by rw [hd]; rfl)

/-- **Encoding what tokens decode to gives these tokens but for the carriage returns before a line
end.** -/
theorem unixToNetascii_tokens (ts : List Token) :
    unixToNetascii (ts.flatMap Token.unix) = dropReturns (ts.flatMap Token.netascii) := by
  induction ts with
  | nil => rfl
  | cons t ts ih =>
      rw [List.flatMap_cons, List.flatMap_cons]
      cases t with
      | endOfLine =>
          show unixToNetascii (lf :: ts.flatMap Token.unix) =
            dropReturns (cr :: lf :: ts.flatMap Token.netascii)
          rw [unixToNetascii_lf, ih, dropReturns_other (by simp [List.cons_prefix_cons, lf]),
            dropReturns_of_ne_cr (by decide)]
      | char c hlf hcr =>
          show unixToNetascii (c :: ts.flatMap Token.unix) =
            dropReturns (c :: ts.flatMap Token.netascii)
          rw [unixToNetascii_other hlf hcr, ih, dropReturns_of_ne_cr hcr]
      | carriageReturn =>
          show unixToNetascii (cr :: ts.flatMap Token.unix) =
            dropReturns (cr :: 0 :: ts.flatMap Token.netascii)
          -- what is behind it decides whether it is still there
          by_cases hnext : [cr, lf] <+: ts.flatMap Token.netascii
          · obtain ⟨ts, rfl⟩ := exists_endOfLine hnext
            rw [dropReturns_before_crlf hnext, ← ih]
            exact unixToNetascii_cr_lf.trans unixToNetascii_lf.symm
          · rw [dropReturns_other (by simpa [List.cons_prefix_cons] using hnext),
              dropReturns_of_ne_cr (by decide), ← ih]
            exact unixToNetascii_return fun hlf => hnext (begins_crlf hlf)

end Tokens

/-! ## The streams -/

/-- `UNIXtoNetasciiStream` over a file that has just been opened. -/
def unixToNetasciiStream (x : Bytes) : IStream (IStream Bytes × Bytes) :=
  ⟨(⟨x, .goodbit⟩, []), .goodbit⟩

/-- `NetasciitoUNIXStream` over a `std::stringstream` with these bytes. -/
def netasciiToUnixStream (y : Bytes) : IStream (StringStream × Bytes) :=
  ⟨(⟨⟨0, y⟩, .goodbit⟩, []), .goodbit⟩

theorem reads_unixToNetascii (x : Bytes) (ns : List Nat) :
    (IStream.reads unixToNetasciiBuf (unixToNetasciiStream x) ns).1 =
      (unixToNetascii x).take ns.sum :=
  (IStream.reads_content unixToNetasciiBuf_supplies (unixToNetasciiStream x) ns).1

theorem reads_netasciiToUnix (y : Bytes) (ns : List Nat) :
    (IStream.reads netasciiToUnixBuf (netasciiToUnixStream y) ns).1 =
      (netasciiToUnix y).take ns.sum :=
  (IStream.reads_content netasciiToUnixBuf_supplies (netasciiToUnixStream y) ns).1

/-- **Whatever the reads, the encoder stream gives a well-formed stream, and the decoder stream makes of
it the text with every CR LF replaced by LF.** -/
theorem netascii_decode_encode (x : Bytes) :
    ∃ y, WellFormed y ∧
      (∀ ns, (IStream.reads unixToNetasciiBuf (unixToNetasciiStream x) ns).1 = y.take ns.sum) ∧
      (∀ ns, (IStream.reads netasciiToUnixBuf (netasciiToUnixStream y) ns).1 =
        (crlfToLf x).take ns.sum) ∧
      (¬ [cr, lf] <:+: x → crlfToLf x = x) := by
  obtain ⟨ts, hnetascii, hunix⟩ := exists_tokens x
  refine ⟨unixToNetascii x, ?_, reads_unixToNetascii x, ?_, crlfToLf_of_no_crlf⟩
  · rw [hnetascii]
    exact wellFormed_iff.mpr ⟨ts, rfl⟩
  · intro ns
    rw [reads_netasciiToUnix, hnetascii, netasciiToUnix_tokens, hunix]

/-- A text without CR LF, read three bytes at a time and then two. -/
theorem netascii_decode_encode_text :
    (IStream.reads unixToNetasciiBuf (unixToNetasciiStream [0x61, cr, lf + 1]) [3, 3]).1 =
        [0x61, cr, 0, lf + 1] ∧
      (IStream.reads netasciiToUnixBuf (netasciiToUnixStream [0x61, cr, 0, lf + 1]) [2, 2]).1 =
        [0x61, cr, lf + 1] := by
  obtain ⟨y, -, hencoded, hdecoded, hsame⟩ := netascii_decode_encode [0x61, cr, lf + 1]
  have hy : y = [0x61, cr, 0, lf + 1] := by
    have hall := hencoded [4 + y.length]
    have hencode : unixToNetascii [0x61, cr, lf + 1] = [0x61, cr, 0, lf + 1] := rfl
    rw [reads_unixToNetascii, hencode, List.take_of_length_le (by simp),
      List.take_of_length_le (by simp)] at hall
    exact hall.symm
  rw [hy] at hencoded hdecoded
  refine ⟨hencoded [3, 3], ?_⟩
  rw [hdecoded, hsame (by decide)]
  rfl

/-- **Storing a well-formed stream and fetching it again gives it back without the carriage returns
directly before a line end; so it is unchanged exactly if it has none of them.** -/
theorem netascii_fetch_stored (y : Bytes) (h : WellFormed y) :
    ∃ stored,
      (∀ ns, (IStream.reads netasciiToUnixBuf (netasciiToUnixStream y) ns).1 =
        stored.take ns.sum) ∧
      (∀ ns, (IStream.reads unixToNetasciiBuf (unixToNetasciiStream stored) ns).1 =
        (dropReturns y).take ns.sum) ∧
      (dropReturns y = y ↔ ¬ [cr, 0, cr, lf] <:+: y) := by
  obtain ⟨ts, rfl⟩ := wellFormed_iff.mp h
  refine ⟨ts.flatMap Token.unix, ?_, ?_, dropReturns_eq_self_iff⟩
  · intro ns
    rw [reads_netasciiToUnix, netasciiToUnix_tokens]
  · intro ns
    rw [reads_unixToNetascii, unixToNetascii_tokens]

/-- A line end, a carriage return and a letter. -/
theorem netascii_fetch_stored_line :
    WellFormed [cr, lf, cr, 0, 0x61] ∧
      ∃ stored, (IStream.reads unixToNetasciiBuf (unixToNetasciiStream stored) [512]).1 =
        [cr, lf, cr, 0, 0x61] := by
  have h : WellFormed [cr, lf, cr, 0, 0x61] :=
    wellFormed_iff.mpr ⟨[.endOfLine, .carriageReturn, .char 0x61 (by decide) (by decide)], rfl⟩
  obtain ⟨stored, -, hfetched, hsame⟩ := netascii_fetch_stored [cr, lf, cr, 0, 0x61] h
  refine ⟨h, stored, ?_⟩
  rw [hfetched, hsame.mpr (by decide)]
  rfl

/-- A carriage return before a line end is lost. -/
theorem netascii_return_lost :
    WellFormed [cr, 0, cr, lf] ∧
      (IStream.reads netasciiToUnixBuf (netasciiToUnixStream [cr, 0, cr, lf]) [512, 512]).1 =
        [cr, lf] ∧
      (IStream.reads unixToNetasciiBuf (unixToNetasciiStream [cr, lf]) [512, 512]).1 =
        [cr, lf] :=
  ⟨wellFormed_iff.mpr ⟨[.carriageReturn, .endOfLine], rfl⟩, rfl, rfl⟩

end ComputerNetworking.Tftp
