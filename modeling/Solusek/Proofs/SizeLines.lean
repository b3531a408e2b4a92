import Solusek.Lib.Texts
import Solusek.Model.Client
import Solusek.Proofs.ResponseRoundTrip
import Solusek.Proofs.Strings
import Solusek.Proofs.Wire

/-!
# Size lines

What a peer sends as the body of a response: its length and the bytes, or chunks, each behind a line
with its size. `strtoul` reads the digits and leaves what follows them.
-/

namespace Solusek.Client

open Socket Lines RoundTrip

/-! ### What a peer sends -/

/-- A chunk: its size in hexadecimal digits, what else is in the size line, and its data. -/
structure Chunk where
  size : Str
  ext : Str
  data : Str

def hexValue (digits : Str) : Nat := (hexDigits digits).foldl (fun n d => 16 * n + d) 0

def blank (c : Char) : Bool := c == ' ' || c == '\t'

/-- Hexadecimal digits, and behind them at most blanks and an extension, which starts with a
semicolon. -/
structure SizeLine (size ext : Str) : Prop where
  digits : size ≠ [] ∧ ∀ c ∈ size, (hexDigit c).isSome
  apart : ∀ c ∈ (ext.dropWhile blank).head?, c = ';'
  inside : '\r' ∉ ext

structure Chunk.Sound (c : Chunk) : Prop where
  line : SizeLine c.size c.ext
  value : hexValue c.size = c.data.length
  nonempty : c.data ≠ []

def Chunk.text (c : Chunk) : Str := c.size ++ c.ext ++ "\r\n".toList ++ c.data ++ "\r\n".toList

/-- How a response goes on behind its head. -/
inductive Framing where
  | contentLength (body : Str)
  /-- The chunks, the size line of the last, empty one, and what stands behind that line. -/
  | chunked (chunks : List Chunk) (zero ext trailer : Str)
  /-- Chunks, a size line that is not one of a number, and anything behind it. -/
  | malformed (chunks : List Chunk) (line rest : Str)

namespace Framing

def text : Framing → Str
  | contentLength body => body
  | chunked chunks zero ext trailer =>
    chunks.flatMap Chunk.text ++ (zero ++ ext ++ "\r\n".toList ++ trailer)
  | malformed chunks line rest => chunks.flatMap Chunk.text ++ (line ++ "\r\n".toList ++ rest)

/-- The whole body that is announced, if one is. -/
def whole : Framing → Option Str
  | contentLength body => some body
  | chunked chunks _ _ _ => some (chunks.flatMap Chunk.data)
  | malformed _ _ _ => none

/-- The framing is what the head announces. -/
def Announced (head : Head) : Framing → Prop
  | contentLength body =>
    let value := head.headers "content-length".toList
    value ≠ [] ∧ value.all Char.isDigit ∧ Nat.ofDigitChars 10 value 0 = body.length
  | chunked chunks zero ext _ =>
    head.headers "content-length".toList = [] ∧ head.headers "transfer-encoding".toList ≠ [] ∧
      (∀ c ∈ chunks, c.Sound) ∧ SizeLine zero ext ∧ hexValue zero = 0
  | malformed chunks line _ =>
    head.headers "content-length".toList = [] ∧ head.headers "transfer-encoding".toList ≠ [] ∧
      (∀ c ∈ chunks, c.Sound) ∧ '\r' ∉ line ∧
        ¬ ∃ size ext, line = size ++ ext ∧ SizeLine size ext

end Framing

/-- The status code that a line gives, if it is a status line. -/
def statusOf (line : Str) : Option Int :=
  if find "HTTP/1.1".toList line = none then none
  else (responseLine {} line).toOption.map Head.code

/-- The status code in the last status line among the lines that have arrived, 0 without one. -/
def lastStatus (head : Str) : Int :=
  (((headReader 0).lines head).filterMap statusOf).getLastD 0

/-- A response on its way: the text of the head, what it says, and what follows. -/
structure Stream where
  head : Str
  meaning : Head
  framing : Framing

namespace Stream

def text (s : Stream) : Str := s.head ++ s.framing.text

structure Sent (s : Stream) : Prop where
  complete : ∀ eof, headLoop eof [] 0 {} s.head = (s.meaning, .ok [])
  announced : s.framing.Announced s.meaning

/-- No chunk is too long for the `unsigned int` its size is read into. -/
def Small (s : Stream) : Prop :=
  match s.framing with
  | .chunked chunks _ _ _ => ∀ c ∈ chunks, c.data.length < 2 ^ 32
  | _ => True

/-- The lines of the head that have arrived do not give the status code, or no byte of the body
is missing: it has none, or the cut is behind the last byte of the last chunk's data, two bytes
before the end of the chunks. -/
def Told (s : Stream) (rx : Str) : Prop :=
  lastStatus (rx.take s.head.length) ≠ s.meaning.code ∨
  match s.framing with
  | .contentLength body => body = []
  | .chunked chunks _ _ _ =>
    chunks = [] ∨
      s.Small ∧ s.head.length + (chunks.flatMap Chunk.text).length ≤ rx.length + 2
  | .malformed _ _ _ => False

end Stream

/-! ### Size lines -/

theorem hexDigits_append {size rest : Str} (digits : ∀ c ∈ size, (hexDigit c).isSome)
    (apart : ∀ c ∈ rest.head?, hexDigit c = none) : hexDigits (size ++ rest) = hexDigits size := by
  have all : ∀ o ∈ size.map hexDigit, o.isSome = true := by
    intro o member
    obtain ⟨c, inside, rfl⟩ := List.mem_map.mp member
    exact digits c inside
  have stop : (rest.map hexDigit).takeWhile Option.isSome = [] := by
    cases rest with
    | nil => rfl
    | cons c rest => simp [apart c rfl]
  unfold hexDigits
  rw [List.map_append, List.takeWhile_append_of_pos all, stop, List.append_nil]
  rw [List.takeWhile_eq_self_iff.mpr all]

theorem hexDigit_above {c : Char} (digit : (hexDigit c).isSome) : 48 ≤ c.toNat := by
  unfold hexDigit at digit
  split at digit <;> rename_i decimal
  · have range : 48 ≤ c.toNat ∧ c.toNat ≤ 57 := by
      simpa [Char.isDigit, UInt32.le_iff_toNat_le] using decimal
    exact range.1
  · split at digit <;> rename_i lower
    · have low : 97 ≤ c.toNat := by
        simpa [Char.le_def, UInt32.le_iff_toNat_le] using lower.1
      omega
    · split at digit <;> rename_i upper
      · have low : 65 ≤ c.toNat := by
          simpa [Char.le_def, UInt32.le_iff_toNat_le] using upper.1
        omega
      · cases digit

theorem hexDigit_ne {c d : Char} (digit : (hexDigit c).isSome) (other : hexDigit d = none) :
    c ≠ d := by
  rintro rfl
  simp [other] at digit

theorem SizeLine.stops {size ext : Str} (line : SizeLine size ext) :
    ∀ c ∈ ext.head?, hexDigit c = none ∧ c ≠ 'x' ∧ c ≠ 'X' := by
  intro c member
  obtain ⟨ext', rfl⟩ := List.head?_eq_some_iff.mp member
  have first := line.apart
  rw [List.dropWhile_cons] at first
  split at first <;> rename_i here
  · rcases (show c = ' ' ∨ c = '\t' by simpa [blank] using here) with rfl | rfl <;> decide
  · rw [first c rfl]
    decide

theorem hexNumber_line {size rest : Str} (nonempty : size ≠ [])
    (digits : ∀ c ∈ size, (hexDigit c).isSome)
    (apart : ∀ c ∈ rest.head?, hexDigit c = none ∧ c ≠ 'x' ∧ c ≠ 'X') :
    hexNumber (size ++ rest) = some (hexValue size) := by
  have same := hexDigits_append digits fun c member => (apart c member).1
  have found : hexDigits size ≠ [] := by
    obtain ⟨c, t, rfl⟩ := List.exists_cons_of_ne_nil nonempty
    obtain ⟨d, digit⟩ := Option.isSome_iff_exists.mp (digits c List.mem_cons_self)
    simp [hexDigits, digit]
  have second : ∀ c d t, size ++ rest = c :: d :: t → d ≠ 'x' ∧ d ≠ 'X' := by
    intro c d t whole
    obtain ⟨first, more, rfl⟩ := List.exists_cons_of_ne_nil nonempty
    have tail : more ++ rest = d :: t := (List.cons.inj whole).2
    cases more with
    | nil => exact (apart d (by rw [List.nil_append] at tail; simp [tail])).2
    | cons e more =>
      have here : e = d := (List.cons.inj tail).1
      have digit := digits d (by simp [here])
      exact ⟨hexDigit_ne digit rfl, hexDigit_ne digit rfl⟩
  unfold hexNumber
  split <;> rename_i whole
  · exact absurd rfl (second _ _ _ whole).1
  · exact absurd rfl (second _ _ _ whole).2
  · simp only [same, found, if_false]
    rfl

theorem scanHex_line {blank size ext : Str} (spaces : ∀ c ∈ blank, isspace c = true)
    (line : SizeLine size ext) (small : hexValue size < 2 ^ 32) :
    scanHex (cstr (blank ++ (size ++ ext))) = some (hexValue size) := by
  have apart := line.stops
  obtain ⟨⟨nonempty, digits⟩, _, _⟩ := line
  have front : ∀ c ∈ blank ++ size, (c != '\x00') = true := by
    intro c member
    rcases List.mem_append.mp member with space | digit
    · have read := spaces c space
      by_contra nul
      have same : c = '\x00' := by simpa using nul
      rw [same] at read
      cases read
    · simpa using hexDigit_ne (digits c digit) (d := '\x00') rfl
  have cut : cstr (blank ++ (size ++ ext)) = blank ++ (size ++ cstr ext) := by
    rw [cstr, ← List.append_assoc, List.takeWhile_append_of_pos front, List.append_assoc]
    rfl
  have apart' : ∀ c ∈ (cstr ext).head?, hexDigit c = none ∧ c ≠ 'x' ∧ c ≠ 'X' := by
    intro c member
    cases ext with
    | nil => cases member
    | cons e ext =>
      refine apart c ?_
      rw [cstr, List.takeWhile_cons] at member
      split at member
      · exact member
      · cases member
  have number := hexNumber_line nonempty digits apart'
  have below : min (2 ^ 64 - 1) (hexValue size) = hexValue size := Nat.min_eq_right (by omega)
  obtain ⟨d, t, rfl⟩ := List.exists_cons_of_ne_nil nonempty
  have digit := digits d List.mem_cons_self
  have start : (blank ++ (d :: t ++ cstr ext)).dropWhile isspace = d :: t ++ cstr ext := by
    refine Texts.dropWhile_behind spaces ?_
    intro c member
    have same : d = c := Option.some.inj member
    rw [← same]
    exact isspace_above (by have above := hexDigit_above digit; omega)
  rw [cut]
  unfold scanHex
  rw [start]
  split <;> rename_i whole
  · exact absurd (List.cons.inj whole).1 (hexDigit_ne digit rfl)
  · exact absurd (List.cons.inj whole).1 (hexDigit_ne digit rfl)
  · rw [number, Option.map_some, below, Nat.mod_eq_of_lt small]

theorem chunkLine_read {eof : Int} {l : Str} (plain : '\r' ∉ l) {prev : Char} (other : prev ≠ '\r')
    (acc rx : Str) :
    chunkLine eof acc prev (l ++ ("\r\n".toList ++ rx)) = .ok (acc ++ l, rx) := by
  induction l generalizing acc prev with
  | nil => simp [chunkLine, other]
  | cons c l ih =>
    have here : c ≠ '\r' := fun same => plain (by simp [same])
    have later : '\r' ∉ l := fun member => plain (List.mem_cons_of_mem _ member)
    rw [List.cons_append, chunkLine, if_neg (fun both => other both.1), if_pos here,
      ih later here, List.append_assoc]
    rfl

theorem chunkLine_cut {eof : Int} {l : Str} (plain : '\r' ∉ l) {prev : Char} (other : prev ≠ '\r')
    {acc rx : Str} (cut : rx <+: l ++ "\r\n".toList) (short : rx.length < l.length + 2) :
    chunkLine eof acc prev rx = .error (.int eof) := by
  induction l generalizing acc prev rx with
  | nil =>
    match rx, cut, short with
    | [], _, _ => rfl
    | [c], cut, _ => simp [chunkLine, other]
  | cons c l ih =>
    have here : c ≠ '\r' := fun same => plain (by simp [same])
    have later : '\r' ∉ l := fun member => plain (List.mem_cons_of_mem _ member)
    cases rx with
    | nil => rfl
    | cons d rx =>
      obtain ⟨rfl, rest⟩ := List.cons_prefix_cons.mp cut
      rw [chunkLine, if_neg (fun both => other both.1)]
      exact ih later here rest (by simpa using short)

end Solusek.Client
