/-
# ComputerNetworking.Proxy.RequestReading -- the text of a request, read in pieces

The handlers of `http_proxy.cpp` and `http_server.cpp` read until what they have got ends with an empty
line. They look at the end of it only, behind each read. A read that brings the empty line together with
bytes behind it is not noticed: the bytes become part of the text, and reading goes on.
-/
import ComputerNetworking.Http.Layout
import ComputerNetworking.Lib.Segments

namespace ComputerNetworking.Proxy

open ComputerNetworking.Lib ComputerNetworking.Http

/-! ## The loop -/

/-- What a `read` returns: bytes, none of them at the end of the stream, or -1. -/
inductive Read where
  | data (bytes : Bytes)
  | failed
  deriving DecidableEq

/-- The test behind a read; `blankLine` is `std::string(CRLF) + std::string(CRLF)`. -/
def EndsBlank (requestStr : Bytes) : Prop :=
  4 ≤ requestStr.length ∧ requestStr.drop (requestStr.length - 4) = blankLine

instance (requestStr : Bytes) : Decidable (EndsBlank requestStr) := by
  unfold EndsBlank
  infer_instance

/-- The loop from some `request_str` on, given what the next reads return; behind them is the end of the
stream. `none` where `append` throws `std::length_error`. -/
def readRequest (requestStr : Bytes) : List Read → Option Bytes
  | [] => some requestStr
  | .data [] :: _ => some requestStr
  | .data (b :: bs) :: reads =>
      if EndsBlank (requestStr ++ b :: bs) then some (requestStr ++ b :: bs)
      else readRequest (requestStr ++ b :: bs) reads
  -- as a `size_t`, -1 is the largest length
  | .failed :: _ => none

theorem endsBlank_iff {text : Bytes} : EndsBlank text ↔ blankLine <:+ text := by
  unfold EndsBlank
  rw [List.suffix_iff_eq_drop, show blankLine.length = 4 from rfl, eq_comm]
  refine and_iff_right_of_imp fun h => ?_
  have hlength := congrArg List.length h
  rw [List.length_drop, show blankLine.length = 4 from rfl] at hlength
  omega

/-! ## Segmentations -/

/-- What a successful `read` into the buffer returns. -/
structure Segment where
  bytes : Bytes
  nonempty : bytes ≠ []
  small : bytes.length ≤ 1024

/-- The stream that is cut into the segments. -/
def stream (segments : List Segment) : Bytes := (segments.map Segment.bytes).flatten

/-- The loop on a stream that comes in segments. -/
def requestStr (segments : List Segment) : Option Bytes :=
  readRequest [] (segments.map fun segment => .data segment.bytes)

/-- A stream up to and including its first empty line. -/
def requestText (stream : Bytes) : Bytes :=
  match firstOccurrence blankLine stream with
  | some i => stream.take (i + blankLine.length)
  | none => stream

/-- If there is an empty line, the end of the first one is the end of a segment. -/
def CutAtBlank (segments : List Segment) : Prop :=
  ∀ i, firstOccurrence blankLine (stream segments) = some i →
    i + blankLine.length ∈ cuts (segments.map Segment.bytes)

/-- A segment that does not complete an empty line is appended. -/
theorem readRequest_of_not_endsBlank {text bytes : Bytes} {reads : List Read} (hbytes : bytes ≠ [])
    (h : ¬ EndsBlank (text ++ bytes)) :
    readRequest text (.data bytes :: reads) = readRequest (text ++ bytes) reads := by
  rcases bytes with _ | ⟨b, bs⟩
  · exact absurd rfl hbytes
  · rw [readRequest, if_neg h]

theorem readRequest_of_endsBlank {text bytes : Bytes} {reads : List Read} (hbytes : bytes ≠ [])
    (h : EndsBlank (text ++ bytes)) :
    readRequest text (.data bytes :: reads) = some (text ++ bytes) := by
  rcases bytes with _ | ⟨b, bs⟩
  · exact absurd rfl hbytes
  · rw [readRequest, if_pos h]

/-- Nothing that has been read is given up. -/
theorem prefix_of_readRequest {text result : Bytes} {reads : List Read}
    (h : readRequest text reads = some result) : text <+: result := by
  induction reads generalizing text with
  | nil =>
      cases h
      exact List.prefix_rfl
  | cons read reads ih =>
      rcases read with (_ | ⟨b, bs⟩) | _
      · cases h
        exact List.prefix_rfl
      · rw [readRequest] at h
        split_ifs at h
        · cases h
          exact List.prefix_append ..
        · exact (List.prefix_append ..).trans (ih h)
      · cases h

section Loop

variable {text : Bytes} {segments : List Segment}

/-- Without an empty line everything is read. -/
theorem readRequest_none (h : ¬ blankLine <:+: text ++ stream segments) :
    readRequest text (segments.map fun segment => .data segment.bytes) =
      some (text ++ stream segments) := by
  induction segments generalizing text with
  | nil =>
      rw [stream, List.map_nil, List.map_nil, List.flatten_nil, List.append_nil]
      rfl
  | cons segment segments ih =>
      have hstream : text ++ stream (segment :: segments) =
          text ++ segment.bytes ++ stream segments := by
        simp [stream]
      rw [hstream] at h ⊢
      rw [List.map_cons, readRequest_of_not_endsBlank segment.nonempty, ih h]
      intro hblank
      exact h ((endsBlank_iff.mp hblank).isInfix.trans (List.prefix_append ..).isInfix)

/-- In front of the end of the first empty line nothing ends with one. -/
theorem not_endsBlank_of_lt {rest : Bytes} {i : Nat}
    (h : firstOccurrence blankLine (text ++ rest) = some i) (hlt : text.length < i + blankLine.length) :
    ¬ EndsBlank text := by
  intro hblank
  have hsuffix : blankLine <:+ (text ++ rest).take text.length := by
    rw [List.take_left]
    exact endsBlank_iff.mp hblank
  have hle := firstOccurrence_le_of_suffix h (by rw [List.length_append]; omega) hsuffix
  omega

/-- A segment is read whole. -/
theorem append_prefix_of_readRequest {segment : Segment} {reads : List Read} {requestStr : Bytes}
    (h : readRequest text (.data segment.bytes :: reads) = some requestStr) :
    text ++ segment.bytes <+: requestStr := by
  by_cases hblank : EndsBlank (text ++ segment.bytes)
  · rw [readRequest_of_endsBlank segment.nonempty hblank] at h
    exact Option.some.inj h ▸ List.prefix_rfl
  · rw [readRequest_of_not_endsBlank segment.nonempty hblank] at h
    exact prefix_of_readRequest h

/-- With the first empty line still to come, the loop ends behind it exactly if a segment does. -/
theorem readRequest_some_iff {i : Nat}
    (h : firstOccurrence blankLine (text ++ stream segments) = some i)
    (hcome : text.length < i + blankLine.length) :
    readRequest text (segments.map fun segment => .data segment.bytes) =
        some ((text ++ stream segments).take (i + blankLine.length)) ↔
      i + blankLine.length ∈ (cuts (segments.map Segment.bytes)).map (text.length + ·) := by
  have hle := (firstOccurrence_spec h).1
  induction segments generalizing text with
  | nil =>
      rw [stream, List.map_nil, List.flatten_nil, List.append_nil] at hle
      omega
  | cons segment segments ih =>
      have hstream : text ++ stream (segment :: segments) =
          text ++ segment.bytes ++ stream segments := by
        simp [stream]
      have hlen : (text ++ segment.bytes).length = text.length + segment.bytes.length :=
        List.length_append
      have hcuts : i + blankLine.length ∈
            (cuts ((segment :: segments).map Segment.bytes)).map (text.length + ·) ↔
          i + blankLine.length ∈ (cuts (segments.map Segment.bytes)).map
            ((text ++ segment.bytes).length + ·) := by
        rw [List.map_cons, cuts, List.map_cons, List.map_map, List.mem_cons, Nat.add_zero,
          or_iff_right (by omega), hlen]
        simp only [Function.comp_def, Nat.add_assoc]
      rw [hstream] at h hle ⊢
      rw [hcuts, List.map_cons]
      rcases Nat.lt_trichotomy (text ++ segment.bytes).length (i + blankLine.length) with
        hlt | heq | hgt
      · -- the empty line is not complete yet
        rw [readRequest_of_not_endsBlank segment.nonempty (not_endsBlank_of_lt h hlt)]
        exact ih h hlt hle
      · -- the segment ends with it
        have htake : (text ++ segment.bytes ++ stream segments).take (i + blankLine.length) =
            text ++ segment.bytes := by
          rw [← heq, List.take_left]
        have hblank : EndsBlank (text ++ segment.bytes) := by
          rw [endsBlank_iff, ← htake]
          exact suffix_of_firstOccurrence h
        rw [readRequest_of_endsBlank segment.nonempty hblank, htake]
        refine iff_of_true rfl ?_
        rw [← heq]
        exact List.mem_map.mpr ⟨0, zero_mem_cuts _, rfl⟩
      · -- bytes behind it come with it
        refine iff_of_false (fun hread => ?_) (fun hmem => ?_)
        · have hshort := (append_prefix_of_readRequest hread).length_le
          rw [List.length_take] at hshort
          omega
        · obtain ⟨n, -, hn⟩ := List.mem_map.mp hmem
          omega

end Loop

/-- The loop hands over the text up to the first empty line exactly if that is where a segment ends. -/
theorem requestStr_iff (segments : List Segment) :
    requestStr segments = some (requestText (stream segments)) ↔ CutAtBlank segments := by
  unfold requestStr requestText CutAtBlank
  rcases h : firstOccurrence blankLine (stream segments) with _ | i
  · have hnone := @readRequest_none [] segments (firstOccurrence_eq_none.mp h)
    exact iff_of_true hnone fun i hi => by cases hi
  · have hsome := @readRequest_some_iff [] segments i h (Nat.succ_pos _)
    simp only [List.nil_append, List.length_nil, Nat.zero_add, List.map_id'] at hsome
    rw [hsome]
    constructor
    · intro hmem j hj
      cases hj
      exact hmem
    · intro hcut
      exact hcut i rfl

/-- **Two segmentations of a stream give the text up to the first empty line exactly if both cut the
stream there.** -/
theorem request_reading_iff (s₁ s₂ : List Segment) (h : stream s₁ = stream s₂) :
    (requestStr s₁ = some (requestText (stream s₁)) ∧
        requestStr s₂ = some (requestText (stream s₁))) ↔
      CutAtBlank s₁ ∧ CutAtBlank s₂ := by
  have h₂ := requestStr_iff s₂
  rw [← h] at h₂
  exact and_congr (requestStr_iff s₁) h₂

/-- A request in one segment, and in two. -/
def oneSegment : List Segment :=
  [⟨ascii "GET /a HTTP/1.0\r\n\r\n", by decide, by decide⟩]

def twoSegments : List Segment :=
  [⟨ascii "GET /a HTTP/1.0\r\n\r", by decide, by decide⟩, ⟨ascii "\n", by decide, by decide⟩]

theorem request_reading_segments :
    requestStr oneSegment = some (ascii "GET /a HTTP/1.0\r\n\r\n") ∧
      requestStr twoSegments = some (ascii "GET /a HTTP/1.0\r\n\r\n") := by
  have hfirst : firstOccurrence blankLine (stream oneSegment) = some 15 := by decide +kernel
  have hstream : stream oneSegment = stream twoSegments := by decide +kernel
  have htext : requestText (stream oneSegment) = ascii "GET /a HTTP/1.0\r\n\r\n" := by
    decide +kernel
  rw [← htext]
  refine (request_reading_iff oneSegment twoSegments hstream).mpr ⟨?_, ?_⟩
  · intro i hi
    rw [← Option.some.inj (hfirst.symm.trans hi)]
    decide +kernel
  · intro i hi
    rw [← hstream] at hi
    rw [← Option.some.inj (hfirst.symm.trans hi)]
    decide +kernel

/-- A request whose empty line comes together with a byte behind it. -/
def withBody : List Segment := [⟨ascii "POST /a HTTP/1.0\r\n\r\nx", by decide, by decide⟩]

/-- The same bytes, cut behind the empty line. -/
def bodyApart : List Segment :=
  [⟨ascii "POST /a HTTP/1.0\r\n\r\n", by decide, by decide⟩, ⟨ascii "x", by decide, by decide⟩]

/-- The byte is part of the text, or is not. -/
theorem segmentation_matters : stream withBody = stream bodyApart ∧
    requestStr withBody = some (ascii "POST /a HTTP/1.0\r\n\r\nx") ∧
    requestStr bodyApart = some (ascii "POST /a HTTP/1.0\r\n\r\n") ∧
    requestText (stream withBody) = ascii "POST /a HTTP/1.0\r\n\r\n" := by
  decide +kernel

end ComputerNetworking.Proxy
