import Tcslog.Binding.Iterators
import Tcslog.Lib.Cstring
import Tcslog.Timestamp

/-!
# Texts that cross into C and back

The C library reads strings that a NUL ends and renders texts into buffers of its
callers.  A buffer either gets a whole text with its NUL or is not touched, and
what an identifier is rendered as is what is parsed as one.
-/

namespace Tcslog

open Lib.Cstring Lib.Text

/-! ## Plain texts -/

namespace SegId

theorem plain_hexGroup (n : Nat) : ∀ byte ∈ hexGroup n, Plain byte := by
  have digit {d : Nat} (small : d < 16) : Plain (hexDigit d) := by
    interval_cases d <;> decide
  simp only [hexGroup, List.forall_mem_cons]
  exact ⟨digit (by omega), digit (by omega), digit (by omega), digit (by omega),
    fun _ mem => absurd mem List.not_mem_nil⟩

theorem plain_display (id : SegId) : ∀ byte ∈ display id, Plain byte := by
  have plain_dash : Plain dash := by decide
  simp only [display, List.forall_mem_append, List.forall_mem_cons, and_assoc]
  exact ⟨plain_hexGroup _, plain_dash, plain_hexGroup _, plain_dash, plain_hexGroup _, plain_dash,
    plain_hexGroup _⟩

theorem parseFrom_error {i value : Nat} {text : Bytes} {e : LogError}
    (refused : parseFrom i value text = .error e) : e = .invalidPathname := by
  induction text generalizing i value with
  | nil => contradiction
  | cons byte text ih =>
      rw [parseFrom] at refused
      split at refused
      · split at refused
        · exact ih refused
        · exact (Except.error.inj refused).symm
      · split at refused
        · exact ih refused
        · exact (Except.error.inj refused).symm

/-- A text is refused for one reason. -/
theorem parse_error {text : Bytes} {e : LogError} (refused : parse text = .error e) :
    e = .invalidPathname := by
  rw [parse] at refused
  split at refused
  · exact (Except.error.inj refused).symm
  · exact parseFrom_error refused

end SegId

theorem plain_decimal (width n : Nat) : ∀ c ∈ decimal width n, PlainChar c := by
  induction width generalizing n with
  | zero => exact fun _ mem => absurd mem List.not_mem_nil
  | succ width ih =>
      have digit : ∀ d < 10, PlainChar (Nat.digitChar d) := by decide
      intro c mem
      rcases List.mem_append.mp mem with before | last
      · exact ih (n / 10) c before
      · obtain rfl := List.mem_singleton.mp last
        exact digit _ (Nat.mod_lt _ (by decide))

theorem plain_timestamp (ts : Timestamp) : ∀ c ∈ writeTimestamp ts, PlainChar c := by
  obtain ⟨moment, _, _, text⟩ := writeTimestamp_eq_render ts
  rw [text]
  have dash : PlainChar '-' := by decide
  have time : PlainChar 'T' := by decide
  have colon : PlainChar ':' := by decide
  have point : PlainChar '.' := by decide
  have zone : PlainChar 'Z' := by decide
  simp only [render, List.forall_mem_append, List.forall_mem_cons, and_assoc]
  exact ⟨plain_decimal _ _, dash, plain_decimal _ _, dash, plain_decimal _ _, time, plain_decimal _ _, colon,
    plain_decimal _ _, colon, plain_decimal _ _, point, plain_decimal _ _, zone, List.forall_mem_nil _⟩

/-- A timestamp is one byte for each of its characters. -/
theorem length_utf8_writeTimestamp (ts : Timestamp) : (utf8 (writeTimestamp ts)).length = timestampStrLen := by
  obtain ⟨moment, _, _, text⟩ := writeTimestamp_eq_render ts
  rw [(utf8_of_plain (plain_timestamp ts)).1, List.length_map, text, length_render]

theorem plain_writeTimestamp (ts : Timestamp) : ∀ byte ∈ utf8 (writeTimestamp ts), Plain byte :=
  (utf8_of_plain (plain_timestamp ts)).2

namespace Binding

/-! ## Strings of the caller -/

/-- Borrow a string, given the bytes from its pointer on: none of them for null. -/
def asStr (p : Option Bytes) : Except TcslogStatus Bytes :=
  match p with
  | none => .error .nullArgument
  | some bytes => if isText (upToNul bytes) then .ok (upToNul bytes) else .error .notUtf8

/-- The status of an error where there is no result to fill. -/
def statusOnly (e : LogError) : TcslogStatus :=
  (statusOf e .empty).1

/-! ## Buffers of the caller -/

/-- A buffer that text is written to, as far as it is filled. -/
structure SliceWriter where
  buf : Bytes
  len : Nat
  fits : len ≤ buf.length

/-- Write a piece of text, if it fits. -/
def SliceWriter.writeStr (w : SliceWriter) (s : Bytes) : Option SliceWriter :=
  if room : w.len + s.length ≤ w.buf.length then
    some {
      buf := w.buf.take w.len ++ s ++ w.buf.drop (w.len + s.length)
      len := w.len + s.length
      fits := by
        have start := w.fits
        simp only [List.length_append, List.length_take, List.length_drop]
        omega }
  else none

/-- Write a text piece by piece, until one does not fit.  What was written before
that stays. -/
def SliceWriter.writeAll (w : SliceWriter) : List Bytes → Except SliceWriter SliceWriter
  | [] => .ok w
  | piece :: pieces =>
      match w.writeStr piece with
      | some w => w.writeAll pieces
      | none => .error w

/-- How a text is handed over when it is formatted: in pieces. -/
structure Formatter where
  pieces : Bytes → List Bytes
  whole (text : Bytes) : (pieces text).flatten = text

/-- Render a text of `len` bytes into a buffer, none for null, with a NUL after it. -/
def renderInto (buf : Option Bytes) (len : Nat) (pieces : List Bytes) : TcslogStatus × Option Bytes :=
  match buf with
  | none => (.nullArgument, none)
  | some dst =>
      if dst.length ≤ len then (.bufferTooSmall, some dst)
      else
        match SliceWriter.writeAll ⟨dst, 0, Nat.zero_le _⟩ pieces with
        | .error w => (.bufferTooSmall, some w.buf)
        | .ok w =>
            -- the NUL behind a text that fills the buffer is out of bounds, a panic that is caught
            if w.len < w.buf.length then (.ok, some (w.buf.set w.len 0)) else (.panic, some w.buf)

section Functions

variable (formatter : Formatter)

def tcslogSegIdFormat (id : SegId) (buf : Option Bytes) : TcslogStatus × Option Bytes :=
  renderInto buf SegId.strLen (formatter.pieces (SegId.display id))

def tcslogFormatTimestamp (ts : Timestamp) (buf : Option Bytes) : TcslogStatus × Option Bytes :=
  renderInto buf timestampStrLen (formatter.pieces (utf8 (writeTimestamp ts)))

end Functions

/-- Parse an identifier into what `out` points to: nothing for null. -/
def tcslogSegIdParse (text : Option Bytes) (out : Option SegId) : TcslogStatus × Option SegId :=
  match out with
  | none => (.nullArgument, none)
  | some held =>
      match asStr text with
      | .error status => (status, some held)
      | .ok text =>
          match SegId.parse text with
          | .ok id => (.ok, some id)
          | .error e => (statusOnly e, some held)

/-! ## What is rendered -/

section Writing

variable {w : SliceWriter} {dst text : Bytes}

/-- A text was written to the front of a buffer, and behind it nothing changed. -/
structure SliceWriter.Holds (w : SliceWriter) (dst text : Bytes) : Prop where
  len : w.len = text.length
  buf : w.buf = text ++ dst.drop text.length

/-- A piece that fits is put behind the text before. -/
theorem SliceWriter.Holds.writeStr (holds : w.Holds dst text)
    (piece : Bytes) (room : (text ++ piece).length ≤ dst.length) :
    ∃ w', w.writeStr piece = some w' ∧ w'.Holds dst (text ++ piece) := by
  rw [List.length_append] at room
  have length : w.buf.length = dst.length := by
    rw [holds.buf, List.length_append, List.length_drop]
    omega
  have fits : w.len + piece.length ≤ w.buf.length := by rw [holds.len, length]; exact room
  refine ⟨_, dif_pos fits, ?_, ?_⟩
  · simp only [holds.len, List.length_append]
  · simp only [holds.len, holds.buf, List.take_left, List.length_append]
    rw [List.drop_length_add_append, List.drop_drop]

theorem SliceWriter.Holds.writeAll (holds : w.Holds dst text) (pieces : List Bytes)
    (room : (text ++ pieces.flatten).length ≤ dst.length) :
    ∃ w', w.writeAll pieces = .ok w' ∧ w'.Holds dst (text ++ pieces.flatten) := by
  induction pieces generalizing w text with
  | nil => exact ⟨w, rfl, by rwa [List.flatten_nil, List.append_nil]⟩
  | cons piece pieces ih =>
      rw [List.flatten_cons, ← List.append_assoc] at room ⊢
      obtain ⟨next, wrote, holds⟩ := holds.writeStr piece
        (room.trans' (List.sublist_append_left _ _).length_le)
      obtain ⟨last, wroteOn, holds⟩ := ih holds room
      refine ⟨last, ?_, holds⟩
      rw [SliceWriter.writeAll, wrote]
      exact wroteOn

/-- What comes of rendering a text into a buffer: the text and a NUL in front of
what was in it, or the buffer as it was. -/
inductive Renders (text : Bytes) : Option Bytes → TcslogStatus × Option Bytes → Prop
  | null : Renders text none (.nullArgument, none)
  | small {dst : Bytes} (small : dst.length ≤ text.length) :
      Renders text (some dst) (.bufferTooSmall, some dst)
  | whole {dst : Bytes} (room : text.length < dst.length) :
      Renders text (some dst) (.ok, some (text ++ 0 :: dst.drop (text.length + 1)))

/-- However a text is handed over, it is rendered whole or not at all. -/
theorem renderInto_renders (formatter : Formatter) (text : Bytes) (buf : Option Bytes) :
    Renders text buf (renderInto buf text.length (formatter.pieces text)) := by
  cases buf with
  | none => exact .null
  | some dst =>
      rw [renderInto]
      by_cases small : dst.length ≤ text.length
      · rw [if_pos small]
        exact .small small
      · have room : text.length < dst.length := Nat.lt_of_not_le small
        have begins : SliceWriter.Holds ⟨dst, 0, Nat.zero_le _⟩ dst [] := ⟨rfl, rfl⟩
        obtain ⟨w, wrote, holds⟩ := begins.writeAll (formatter.pieces text)
          (by rw [List.nil_append, formatter.whole]; exact room.le)
        rw [List.nil_append, formatter.whole] at holds
        have length : w.buf.length = dst.length := by
          rw [holds.buf, List.length_append, List.length_drop]
          omega
        have behind : dst.drop text.length = dst[text.length] :: dst.drop (text.length + 1) :=
          List.drop_eq_getElem_cons room
        rw [if_neg small, wrote]
        simp only [length, holds.len, if_pos room]
        rw [holds.buf, behind, List.set_append_right _ _ le_rfl, Nat.sub_self, List.set_cons_zero]
        exact .whole room

end Writing

/-! ## What is parsed -/

/-- What comes of parsing a string: an identifier is stored if it is what that one is
rendered as, and otherwise what was held stays. -/
inductive Parses : Option Bytes → Option SegId → TcslogStatus × Option SegId → Prop
  | nullOut {text : Option Bytes} : Parses text none (.nullArgument, none)
  | null {held : SegId} : Parses none (some held) (.nullArgument, some held)
  | notUtf8 {bytes : Bytes} {held : SegId} (invalid : isText (upToNul bytes) = false) :
      Parses (some bytes) (some held) (.notUtf8, some held)
  | other {bytes : Bytes} {held : SegId} (valid : isText (upToNul bytes) = true)
      (other : ∀ id, upToNul bytes ≠ SegId.display id) :
      Parses (some bytes) (some held) (.invalidPathname, some held)
  | stored {bytes : Bytes} {held id : SegId} (isId : upToNul bytes = SegId.display id) :
      Parses (some bytes) (some held) (.ok, some id)

theorem asStr_of_text {bytes : Bytes} (valid : isText (upToNul bytes) = true) :
    asStr (some bytes) = .ok (upToNul bytes) :=
  if_pos valid

theorem tcslogSegIdParse_parses (text : Option Bytes) (out : Option SegId) :
    Parses text out (tcslogSegIdParse text out) := by
  cases out with
  | none => exact .nullOut
  | some held =>
      cases text with
      | none => exact .null
      | some bytes =>
          cases valid : isText (upToNul bytes) with
          | false =>
              rw [tcslogSegIdParse, asStr, if_neg (by simp [valid])]
              exact .notUtf8 valid
          | true =>
              rw [tcslogSegIdParse, asStr_of_text valid]
              cases parsed : SegId.parse (upToNul bytes) with
              | ok id =>
                  simp only [parsed]
                  exact .stored (SegId.parse_eq_ok_iff.mp parsed)
              | error e =>
                  obtain rfl := SegId.parse_error parsed
                  simp only [parsed]
                  refine .other valid fun id isId => ?_
                  rw [isId, SegId.parse_display] at parsed
                  contradiction

/-! ## Rendered and read back -/

/-- A buffer with a text of plain characters and a NUL holds the string. -/
theorem asStr_of_plain {text rest : Bytes} (plain : ∀ byte ∈ text, Plain byte) :
    asStr (some (text ++ 0 :: rest)) = .ok text := by
  have same : upToNul (text ++ 0 :: rest) = text := upToNul_append (nulFree_of_plain plain)
  rw [asStr_of_text (by rw [same]; exact isText_of_plain plain), same]

theorem Renders.asStr {text : Bytes} {buf buf' : Option Bytes} (renders : Renders text buf (.ok, buf'))
    (plain : ∀ byte ∈ text, Plain byte) : asStr buf' = .ok text := by
  cases renders with
  | whole room => exact asStr_of_plain plain

/-- Identifiers and timestamps are rendered whole, with a NUL, or the buffer is not
touched.  A string is parsed as an identifier if and only if it is what that one is
rendered as, so that one which was rendered is parsed again. -/
theorem texts_cross (formatter : Formatter) :
    (∀ id buf, Renders (SegId.display id) buf (tcslogSegIdFormat formatter id buf)) ∧
    (∀ ts buf, Renders (utf8 (writeTimestamp ts)) buf (tcslogFormatTimestamp formatter ts buf)) ∧
    (∀ text out, Parses text out (tcslogSegIdParse text out)) ∧
    (∀ id buf buf' held, tcslogSegIdFormat formatter id buf = (.ok, buf') →
      tcslogSegIdParse buf' (some held) = (.ok, some id)) ∧
    ∀ ts buf buf', tcslogFormatTimestamp formatter ts buf = (.ok, buf') →
      asStr buf' = .ok (utf8 (writeTimestamp ts)) := by
  have ids (id : SegId) (buf : Option Bytes) :
      Renders (SegId.display id) buf (tcslogSegIdFormat formatter id buf) :=
    renderInto_renders formatter (SegId.display id) buf
  have times (ts : Timestamp) (buf : Option Bytes) :
      Renders (utf8 (writeTimestamp ts)) buf (tcslogFormatTimestamp formatter ts buf) := by
    have renders := renderInto_renders formatter (utf8 (writeTimestamp ts)) buf
    rw [length_utf8_writeTimestamp] at renders
    exact renders
  refine ⟨ids, times, tcslogSegIdParse_parses, fun id buf buf' held rendered => ?_,
    fun ts buf buf' rendered => ?_⟩
  · have renders := ids id buf
    rw [rendered] at renders
    rw [tcslogSegIdParse, renders.asStr (SegId.plain_display id)]
    simp only [SegId.parse_display]
  · have renders := times ts buf
    rw [rendered] at renders
    exact renders.asStr (plain_writeTimestamp ts)

end Binding

end Tcslog
