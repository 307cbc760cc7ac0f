/-
# ComputerNetworking.Lib.Stream -- C++ input streams over stream buffers

A `std::istream` is a stream buffer and three state bits. The buffer hands out characters; the
stream asks it for them as long as all bits are clear, and sets `eofbit` and `failbit` when it gets
fewer than it asked for. Once a bit is set nothing more is read and nothing clears it.

`Supplies` relates a stream buffer to the bytes it still has to give. With it, a read of `n` bytes
is `take n` and `drop n` on these bytes whatever the buffer does inside: `IStream.read_content`.
`refilling` is the buffer whose `underflow` puts a few characters into an empty get area, and
`refilling_supplies` reduces its law to one about `underflow`.
-/
import Mathlib.Algebra.GroupWithZero.Nat
import ComputerNetworking.Lib.Bytes

namespace ComputerNetworking.Lib

/-! ## Stream buffers -/

/-- The characters of a stream buffer: `sgetc` looks at the next one, `sbumpc` takes it; `none` is
EOF. -/
structure StreamBuf (σ : Type) where
  sgetc : σ → Option UInt8 × σ
  sbumpc : σ → Option UInt8 × σ

namespace StreamBuf

variable {σ : Type} (b : StreamBuf σ)

/-- `sgetn`: up to `n` characters, fewer only at EOF. -/
def sgetn : Nat → σ → Bytes × σ
  | 0, s => ([], s)
  | n + 1, s =>
      match b.sbumpc s with
      | (none, s') => ([], s')
      | (some c, s') => (c :: (sgetn n s').1, (sgetn n s').2)

/-- The buffer gives the bytes `content` says it has. -/
structure Supplies (content : σ → Bytes) : Prop where
  look : ∀ s, (b.sgetc s).1 = (content s).head? ∧ content (b.sgetc s).2 = content s
  bump : ∀ s, (b.sbumpc s).1 = (content s).head? ∧ content (b.sbumpc s).2 = (content s).tail

variable {b} {content : σ → Bytes}

theorem Supplies.sgetn (h : b.Supplies content) (n : Nat) (s : σ) :
    (b.sgetn n s).1 = (content s).take n ∧ content (b.sgetn n s).2 = (content s).drop n := by
  induction n generalizing s with
  | zero => exact ⟨rfl, rfl⟩
  | succ n ih =>
      obtain ⟨hhead, htail⟩ := h.bump s
      unfold StreamBuf.sgetn
      rcases hb : b.sbumpc s with ⟨_ | c, s'⟩
      · -- EOF: there was nothing left
        rw [hb] at hhead htail
        have hnil : content s = [] := List.head?_eq_none_iff.mp hhead.symm
        refine ⟨by simp [hnil], ?_⟩
        show content s' = _
        rw [show content s' = (content s).tail from htail, hnil]
        rfl
      · rw [hb] at hhead htail
        obtain ⟨rest, hcons⟩ := List.head?_eq_some_iff.mp hhead.symm
        have hrest : content s' = rest := by
          rw [show content s' = (content s).tail from htail, hcons]
          rfl
        refine ⟨?_, ?_⟩
        · show c :: (b.sgetn n s').1 = _
          rw [(ih s').1, hrest, hcons]
          rfl
        · show content (b.sgetn n s').2 = _
          rw [(ih s').2, hrest, hcons]
          rfl

end StreamBuf

/-- The buffer of a file opened for reading: the bytes not read yet. -/
def fileBuf : StreamBuf Bytes where
  sgetc s := (s.head?, s)
  sbumpc s := (s.head?, s.tail)

theorem fileBuf_supplies : fileBuf.Supplies id := ⟨fun _ => ⟨rfl, rfl⟩, fun _ => ⟨rfl, rfl⟩⟩

/-- A buffer with a get area of its own. Where that is empty, `underflow` refills it from the
underlying state; an empty refill is EOF. -/
def refilling {φ : Type} (underflow : φ → Bytes × φ) : StreamBuf (φ × Bytes) where
  sgetc
    | (f, c :: area) => (some c, (f, c :: area))
    | (f, []) => ((underflow f).1.head?, ((underflow f).2, (underflow f).1))
  sbumpc
    | (f, c :: area) => (some c, (f, area))
    | (f, []) => ((underflow f).1.head?, ((underflow f).2, (underflow f).1.tail))

/-- The law of `underflow`: what it puts into the get area is the front of what there is, and it
puts nothing there only when there is nothing. -/
theorem refilling_supplies {φ : Type} {underflow : φ → Bytes × φ} {content : φ → Bytes}
    (h : ∀ f, content f = (underflow f).1 ++ content (underflow f).2)
    (hnil : ∀ f, (underflow f).1 = [] → content f = []) :
    (refilling underflow).Supplies fun s => s.2 ++ content s.1 := by
  have hhead : ∀ f, (underflow f).1.head? = (content f).head? := by
    intro f
    rw [h f]
    cases hu : (underflow f).1 with
    | nil =>
        have hrest := h f
        rw [hnil f hu, hu] at hrest
        simp [← hrest]
    | cons c area => rfl
  refine ⟨?_, ?_⟩
  · -- `sgetc`: an empty get area is refilled first
    rintro ⟨f, _ | ⟨c, area⟩⟩
    · exact ⟨hhead f, (h f).symm⟩
    · exact ⟨rfl, rfl⟩
  · -- `sbumpc`: the same, and the first character is gone
    rintro ⟨f, _ | ⟨c, area⟩⟩
    · refine ⟨hhead f, ?_⟩
      show (underflow f).1.tail ++ content (underflow f).2 = (content f).tail
      conv_rhs => rw [h f]
      cases hu : (underflow f).1 with
      | nil =>
          have hrest := h f
          rw [hnil f hu, hu] at hrest
          simp [← hrest]
      | cons c area => rfl
    · exact ⟨rfl, rfl⟩

/-! ## Input streams -/

/-- The bits of `std::ios_base::iostate`. -/
structure IoState where
  eof : Bool
  fail : Bool
  bad : Bool
  deriving DecidableEq, Repr

namespace IoState

/-- No bit set. -/
def goodbit : IoState := ⟨false, false, false⟩

def good (s : IoState) : Bool := !s.eof && !s.fail && !s.bad

/-- `fail()`. -/
def failed (s : IoState) : Bool := s.fail || s.bad

theorem eq_goodbit {s : IoState} (h : s.good) : s = .goodbit := by
  rcases s with ⟨_ | _, _ | _, _ | _⟩ <;> first | rfl | cases h

end IoState

/-- A `std::istream` over a stream buffer. -/
structure IStream (σ : Type) where
  buf : σ
  state : IoState

namespace IStream

variable {σ : Type} (b : StreamBuf σ)

/-- `read(data, n)`: the characters stored, `gcount()` of them. -/
def read (s : IStream σ) (n : Nat) : Bytes × IStream σ :=
  if s.state.good then
    let got := b.sgetn n s.buf
    (got.1, ⟨got.2, if got.1.length = n then s.state else { s.state with eof := true, fail := true }⟩)
  else ([], ⟨s.buf, { s.state with fail := true }⟩)

/-- `peek()`; `none` is EOF. -/
def peek (s : IStream σ) : Option UInt8 × IStream σ :=
  if s.state.good then
    match b.sgetc s.buf with
    | (some c, buf) => (some c, ⟨buf, s.state⟩)
    | (none, buf) => (none, ⟨buf, { s.state with eof := true }⟩)
  else (none, ⟨s.buf, { s.state with fail := true }⟩)

/-- `get()`; `none` is EOF. -/
def get (s : IStream σ) : Option UInt8 × IStream σ :=
  if s.state.good then
    match b.sbumpc s.buf with
    | (some c, buf) => (some c, ⟨buf, s.state⟩)
    | (none, buf) => (none, ⟨buf, { s.state with eof := true, fail := true }⟩)
  else (none, ⟨s.buf, { s.state with fail := true }⟩)

/-- What can still be read. -/
def content (c : σ → Bytes) (s : IStream σ) : Bytes := if s.state.good then c s.buf else []

variable {b} {c : σ → Bytes}

theorem content_good {s : IStream σ} (h : s.state.good) : s.content c = c s.buf := if_pos h

theorem content_not_good {s : IStream σ} (h : ¬ s.state.good) : s.content c = [] := if_neg h

/-- **A read takes the front of what can be read**, and stops for good where that is shorter. -/
theorem read_content (h : b.Supplies c) (s : IStream σ) (n : Nat) :
    (s.read b n).1 = (s.content c).take n ∧
      (s.read b n).2.content c = (s.content c).drop n := by
  obtain ⟨htake, hdrop⟩ := h.sgetn n s.buf
  unfold read
  by_cases hgood : s.state.good
  · rw [if_pos hgood, content_good hgood]
    refine ⟨htake, ?_⟩
    by_cases hlen : (b.sgetn n s.buf).1.length = n
    · rw [content_good]
      · exact hdrop
      · simpa [hlen] using hgood
    · -- a short read: the bits are set, and nothing is left behind it
      rw [content_not_good (by simp [hlen, IoState.good])]
      rw [htake, List.length_take] at hlen
      rw [List.drop_eq_nil_of_le (by omega)]
  · rw [if_neg hgood, content_not_good hgood]
    refine ⟨by simp, ?_⟩
    rw [content_not_good (by simp [IoState.good])]
    simp

/-- Reads of these sizes, one after the other. -/
def reads (b : StreamBuf σ) (s : IStream σ) : List Nat → Bytes × IStream σ
  | [] => ([], s)
  | n :: ns => ((s.read b n).1 ++ (reads b (s.read b n).2 ns).1, (reads b (s.read b n).2 ns).2)

/-- **How much is read at a time makes no difference.** -/
theorem reads_content (h : b.Supplies c) (s : IStream σ) (ns : List Nat) :
    (s.reads b ns).1 = (s.content c).take ns.sum ∧
      (s.reads b ns).2.content c = (s.content c).drop ns.sum := by
  induction ns generalizing s with
  | nil => exact ⟨rfl, rfl⟩
  | cons n ns ih =>
      obtain ⟨hgot, hrest⟩ := read_content h s n
      obtain ⟨hgots, hrests⟩ := ih (s.read b n).2
      rw [hrest] at hgots hrests
      refine ⟨?_, ?_⟩
      · show (s.read b n).1 ++ (reads b (s.read b n).2 ns).1 = _
        rw [hgot, hgots, List.sum_cons, List.take_add]
      · show (reads b (s.read b n).2 ns).2.content c = _
        rw [hrests, List.sum_cons, List.drop_drop]

/-- Reading one character: there is none, or it is the next one. -/
theorem read_one (h : b.Supplies c) (s : IStream σ) :
    (∃ s', s.read b 1 = ([], s') ∧ s.content c = [] ∧ s'.content c = []) ∨
      ∃ x rest s', s.read b 1 = ([x], s') ∧ s.content c = x :: rest ∧ s'.content c = rest := by
  obtain ⟨hgot, hrest⟩ := read_content h s 1
  rcases hr : s.read b 1 with ⟨got, s'⟩
  rw [hr] at hgot hrest
  cases hc : s.content c with
  | nil =>
      rw [hc] at hgot hrest
      exact .inl ⟨s', by rw [show got = [] from hgot], rfl, hrest⟩
  | cons x rest =>
      rw [hc] at hgot hrest
      exact .inr ⟨x, rest, s', by rw [show got = [x] from hgot], rfl, hrest⟩

theorem peek_content (h : b.Supplies c) (s : IStream σ) :
    (s.peek b).1 = (s.content c).head? ∧ (s.peek b).2.content c = s.content c := by
  obtain ⟨hhead, hsame⟩ := h.look s.buf
  unfold peek
  by_cases hgood : s.state.good
  · rw [if_pos hgood, content_good hgood]
    rcases hg : b.sgetc s.buf with ⟨_ | ch, buf⟩
    · rw [hg] at hhead hsame
      refine ⟨hhead, ?_⟩
      rw [content_not_good (by simp [IoState.good])]
      exact (List.head?_eq_none_iff.mp hhead.symm).symm
    · rw [hg] at hhead hsame
      refine ⟨hhead, ?_⟩
      rw [content_good (by exact hgood)]
      exact hsame
  · rw [if_neg hgood, content_not_good hgood]
    exact ⟨rfl, content_not_good (by simp [IoState.good])⟩

/-- `read(data, n)` with the signed count the interface has. A negative count stores nothing and is
never what was stored. -/
def readCount (b : StreamBuf σ) (s : IStream σ) (n : Int) : Bytes × IStream σ :=
  if 0 ≤ n then s.read b n.toNat
  else if s.state.good then ([], ⟨s.buf, { s.state with eof := true, fail := true }⟩)
  else ([], ⟨s.buf, { s.state with fail := true }⟩)

end IStream

/-! ## String streams -/

/-- A `std::stringbuf` written at its end only: the get position, and what is behind it. -/
structure StringBuf where
  gpos : Nat
  unread : Bytes

/-- The get side of a string buffer. -/
def stringBuf : StreamBuf StringBuf where
  sgetc s := (s.unread.head?, s)
  sbumpc s :=
    match s.unread with
    | [] => (none, s)
    | c :: rest => (some c, ⟨s.gpos + 1, rest⟩)

theorem stringBuf_supplies : stringBuf.Supplies StringBuf.unread := by
  refine ⟨fun _ => ⟨rfl, rfl⟩, ?_⟩
  rintro ⟨gpos, _ | ⟨c, rest⟩⟩
  · exact ⟨rfl, rfl⟩
  · exact ⟨rfl, rfl⟩

/-- A `std::stringstream`. -/
abbrev StringStream := IStream StringBuf

namespace StringStream

/-- A stringstream just constructed. -/
def empty : StringStream := ⟨⟨0, []⟩, .goodbit⟩

/-- `write(data, n)`, `data` being the bytes from the pointer on. Nothing happens on a stream with a
bit set; a negative count is never what was written. -/
def write (s : StringStream) (data : Bytes) (n : Int) : StringStream :=
  if s.state.good then
    if 0 ≤ n then ⟨⟨s.buf.gpos, s.buf.unread ++ data.take n.toNat⟩, s.state⟩
    else ⟨s.buf, { s.state with bad := true }⟩
  else s

theorem write_good {s : StringStream} (h : s.state = .goodbit) (data : Bytes) (n : Nat) :
    s.write data n = ⟨⟨s.buf.gpos, s.buf.unread ++ data.take n⟩, .goodbit⟩ := by
  unfold write
  rw [h]
  rfl

/-- `tellp()`. -/
def tellp (s : StringStream) : Int :=
  if s.state.failed then -1 else s.buf.gpos + s.buf.unread.length

/-- `tellg()`; on a stream with a bit set its sentry sets `failbit`. -/
def tellg (s : StringStream) : Int × StringStream :=
  if s.state.good then (s.buf.gpos, s) else (-1, ⟨s.buf, { s.state with fail := true }⟩)

end StringStream

/-- A `std::ofstream` opened for writing: what it will have written when it is closed. -/
structure OFStream where
  content : Bytes
  state : IoState

namespace OFStream

def empty : OFStream := ⟨[], .goodbit⟩

/-- `write(data, n)`. -/
def write (f : OFStream) (data : Bytes) (n : Int) : OFStream :=
  if f.state.good then
    if 0 ≤ n then ⟨f.content ++ data.take n.toNat, f.state⟩
    else ⟨f.content, { f.state with bad := true }⟩
  else f

theorem write_good {f : OFStream} (h : f.state = .goodbit) (data : Bytes) (n : Nat) :
    f.write data n = ⟨f.content ++ data.take n, .goodbit⟩ := by
  unfold write
  rw [h]
  rfl

/-- `file << sb`: all the characters the buffer gives; `failbit` if there were none. -/
def insert (f : OFStream) (chars : Bytes) : OFStream :=
  if f.state.good then
    ⟨f.content ++ chars, if chars.isEmpty then { f.state with fail := true } else f.state⟩
  else f

/-- What has been written stays in front. -/
theorem prefix_write (f : OFStream) (data : Bytes) (n : Int) : f.content <+: (f.write data n).content := by
  unfold write
  split_ifs
  · exact List.prefix_append ..
  · exact List.prefix_rfl
  · exact List.prefix_rfl

theorem prefix_insert (f : OFStream) (chars : Bytes) : f.content <+: (f.insert chars).content := by
  unfold insert
  split_ifs
  · exact List.prefix_append ..
  · exact List.prefix_append ..
  · exact List.prefix_rfl

end OFStream

end ComputerNetworking.Lib
