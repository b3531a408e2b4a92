import Solusek.Lib.Texts
import Solusek.Proofs.Wire

/-!
# What a node reads

The entry of a header line, the request line and the body, as functions of the bytes read.
-/

namespace Solusek.Node

open Socket Lines Texts

/-! ### Header lines -/

/-- The entry of a line: the name up to the first colon and the value behind it. -/
def entry (line : Str) : CVarVal :=
  if ':' ∈ line then
    { Var := (line.takeWhile (· ≠ ':')).map Char.toLower
      Val := trim ((line.dropWhile (· ≠ ':')).drop 1) }
  else { Var := line }

theorem headerLine_colon {name : Str} (plain : ':' ∉ name) (val : Str) :
    headerLine (name ++ ':' :: val) = .ok { Var := name.map Char.toLower, Val := trim val } := by
  simp only [headerLine, findChar_append plain, substr_left, substr_behind]
  rfl

theorem entry_colon {name : Str} (plain : ':' ∉ name) (val : Str) :
    entry (name ++ ':' :: val) = { Var := name.map Char.toLower, Val := trim val } := by
  unfold entry
  rw [if_pos (by simp), takeWhile_ne plain, dropWhile_ne plain]
  rfl

theorem headerLine_eq (line : Str) : headerLine line = .ok (entry line) := by
  by_cases colon : ':' ∈ line
  · obtain ⟨name, val, rfl, plain⟩ := List.eq_append_cons_of_mem colon
    rw [headerLine_colon plain, entry_colon plain]
  · simp [headerLine, findChar_none colon, entry, colon]

theorem foldlM_headerLine (eof : Int) (lines : List Str) (Headers : List CVarVal) :
    lines.foldlM (headerReader eof).onLine Headers = .ok (Headers ++ lines.map entry) := by
  induction lines generalizing Headers with
  | nil => simp [pure, Except.pure]
  | cons line lines ih =>
    have here : (headerReader eof).onLine Headers line = .ok (Headers ++ [entry line]) := by
      simp [headerReader, headerLine_eq, Except.map]
    rw [List.foldlM_cons, here]
    show lines.foldlM (headerReader eof).onLine (Headers ++ [entry line]) = _
    rw [ih]
    simp

theorem shown_eq (eof : Int) (p : Str) :
    (headerReader eof).shown p = p.filter fun c => !(c == '\r' || c == '\x00') := by
  simp [Reader.shown, headerReader]

/-! ### The request line -/

theorem requestLine_eq {Method target version : Str} (method : ' ' ∉ Method)
    (plain : ' ' ∉ target) :
    requestLine (Method ++ ' ' :: (target ++ ' ' :: version)) =
      .ok { Method, Path := target.takeWhile (· ≠ '?'),
            QueryString := (target.dropWhile (· ≠ '?')).drop 1, ProtocolVersion := version } := by
  simp only [requestLine, findChar_append method, substr_left, substr_behind,
    findChar_append plain, posSucc, bind, Except.bind]
  by_cases query : '?' ∈ target
  · obtain ⟨path, rest, rfl, before⟩ := List.eq_append_cons_of_mem query
    simp only [findChar_append before, substr_left, substr_behind, takeWhile_ne before,
      dropWhile_ne before]
    rfl
  · simp only [findChar_none query, takeWhile_ne_self query, dropWhile_ne_nil query]
    rfl

/-! ### Looking a header up -/

/-- The test `getHeader` makes for a name in lower case. -/
def named (key : Str) (vv : CVarVal) : Bool := strtolower vv.Var == key

theorem named_iff {key : Str} {vv : CVarVal} : named key vv = true ↔ strtolower vv.Var = key := by
  unfold named
  exact beq_iff_eq

theorem getHeader_eq (node : CNode) {name : Str} (terminated : '\x00' ∉ name) :
    node.getHeader name = node.Headers.find? (named (name.map Char.toLower)) := by
  simp only [CNode.getHeader, cstr_eq terminated, strtolower_lower]
  rfl

/-! ### The body -/

theorem bodyLoop_chunk {net : Net} {len n : Nat} (more : n < len) {rx buf rest : Str}
    (read : net.readBuffer rx 1024 = .ok (buf, rest)) (Body : Str) :
    bodyLoop net len n Body rx =
      bodyLoop net len ((n + buf.length) % 2 ^ 32) (Body ++ cstr buf) rest := by
  rw [bodyLoop, if_pos more]
  split
  · rename_i e failed
    rw [read] at failed
    cases failed
  · rename_i buf' rest' found
    rw [read] at found
    obtain ⟨rfl, rfl⟩ := Prod.mk.inj (Except.ok.inj found)
    rfl

theorem bodyLoop_failed {net : Net} {len n : Nat} (more : n < len) {rx : Str} {e : Exn}
    (failed : net.readBuffer rx 1024 = .error e) (Body : Str) :
    bodyLoop net len n Body rx = .error e := by
  rw [bodyLoop, if_pos more]
  split
  · rename_i e' failed'
    rw [failed] at failed'
    rw [Except.error.inj failed']
  · rename_i found
    rw [failed] at found
    cases found

theorem bodyLoop_done {net : Net} {len n : Nat} (done : len ≤ n) (Body rx : Str) :
    bodyLoop net len n Body rx = .ok (Body, rx) := by
  rw [bodyLoop, if_neg (Nat.not_lt.mpr done)]

/-- However the bytes arrive, the loop takes all of an announced body without NUL bytes. -/
theorem bodyLoop_all (net : Net) {len : Nat} (small : len < 2 ^ 31) (n : Nat) (Body : Str)
    {rx : Str} (terminated : '\x00' ∉ rx) (announced : n + rx.length = len) :
    bodyLoop net len n Body rx = .ok (Body ++ rx, []) := by
  induction h : rx.length using Nat.strong_induction_on generalizing n Body rx with
  | _ size ih =>
    by_cases more : n < len
    · have nonempty : rx ≠ [] := by
        rintro rfl
        simp at announced
        omega
      obtain ⟨r, positive, _, fits, read⟩ := readBuffer_some net nonempty (show 0 < 1024 by decide)
      have clean : '\x00' ∉ rx.take r := fun member => terminated (List.mem_of_mem_take member)
      have later : '\x00' ∉ rx.drop r := fun member => terminated (List.mem_of_mem_drop member)
      have count : (n + (rx.take r).length) % 2 ^ 32 = n + r := by
        rw [List.length_take_of_le fits]
        omega
      have rest := ih (rx.drop r).length (by rw [List.length_drop]; omega) (n + r)
        (Body ++ rx.take r) later (by rw [List.length_drop]; omega) rfl
      rw [bodyLoop_chunk more read, count, cstr_eq clean, rest, List.append_assoc,
        List.take_append_drop]
    · have ended : rx = [] := List.eq_nil_of_length_eq_zero (by omega)
      rw [bodyLoop_done (Nat.not_lt.mp more), ended, List.append_nil]

end Solusek.Node
