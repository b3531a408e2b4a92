import Solusek.Lib.Lines
import Solusek.Model.Client
import Solusek.Model.Node
import Solusek.Proofs.Strings

/-!
# Bytes on the wire

What single reads and writes do, and the two header loops as readers of lines.
-/

namespace Solusek

open Socket Lines

namespace Socket

/-- `send` accepts all it is given. -/
def SendsInFull (net : Net) : Prop := ∀ sent len, 0 ≤ len → net.send sent len = len

variable {net : Net}

theorem readBuffer_one (net : Net) (rx : Str) :
    net.readBuffer rx 1 =
      match rx with
      | [] => .error (.int net.eof)
      | c :: rest => .ok ([c], rest) := by
  cases rx with
  | nil => simp [Net.readBuffer, net.eof_lt]
  | cons c rest =>
    have cast : (max 1 ((min (net.recv (c :: rest).length) (min 1 (c :: rest).length) : Nat) : Int))
        = 1 := by
      omega
    simp only [Net.readBuffer, List.cons_ne_nil, if_false, cast]
    rfl

theorem readBuffer_some (net : Net) {rx : Str} (nonempty : rx ≠ []) {len : Nat} (positive : 0 < len) :
    ∃ r, 0 < r ∧ r ≤ len ∧ r ≤ rx.length ∧
      net.readBuffer rx len = .ok (rx.take r, rx.drop r) := by
  have bytes := List.length_pos_of_ne_nil nonempty
  refine ⟨max 1 (min (net.recv rx.length) (min len rx.length)), by omega, by omega, by omega, ?_⟩
  simp only [Net.readBuffer, if_neg nonempty]
  rw [if_neg (by omega)]
  have cast : (max 1 ((min (net.recv rx.length) (min len rx.length) : Nat) : Int)).toNat =
      max 1 (min (net.recv rx.length) (min len rx.length)) := by
    omega
  rw [cast]

theorem writeBuffer_full (full : SendsInFull net) {buf : Str} (positive : 0 < buf.length)
    (small : buf.length < 2 ^ 31) (tx : Str) :
    net.writeBuffer tx buf buf.length = (.ok (), tx ++ buf) := by
  have sent : net.send tx.length (sizeToInt buf.length) = buf.length := by
    rw [sizeToInt_small small]
    exact full _ _ (by omega)
  simp only [Net.writeBuffer, sent, Int.toNat_natCast, List.take_length]
  rw [if_neg (by omega)]

theorem writeBuffer_empty (full : SendsInFull net) (tx : Str) :
    net.writeBuffer tx [] 0 = (.error (.int 0), tx) := by
  have sent : net.send tx.length (sizeToInt 0) = 0 := full _ _ (by decide)
  simp only [Net.writeBuffer, sent]
  simp

theorem writeAll_full (full : SendsInFull net) {parts : List Str}
    (sound : ∀ part ∈ parts, 0 < part.length ∧ part.length < 2 ^ 31) (tx : Str) (rest : List Str) :
    net.writeAll tx (parts ++ rest) = net.writeAll (tx ++ parts.flatten) rest := by
  induction parts generalizing tx with
  | nil => simp
  | cons part parts ih =>
    obtain ⟨positive, small⟩ := sound part List.mem_cons_self
    rw [List.cons_append, Net.writeAll, writeBuffer_full full positive small]
    simp only
    rw [ih fun other member => sound other (List.mem_cons_of_mem _ member)]
    simp

theorem writeBuffer_extends (tx buf : Str) (size : Nat) :
    tx <+: (net.writeBuffer tx buf size).2 := by
  unfold Net.writeBuffer
  simp only
  split
  · exact List.prefix_append _ _
  · exact List.prefix_append _ _

theorem writeAll_extends (tx : Str) (parts : List Str) : tx <+: (net.writeAll tx parts).2 := by
  induction parts generalizing tx with
  | nil => exact List.prefix_rfl
  | cons part parts ih =>
    have first := @writeBuffer_extends net tx part part.length
    unfold Net.writeAll
    split
    · rename_i tx' written
      rw [written] at first
      exact first.trans (ih tx')
    · exact first

/-- The last part may be empty: its write throws, but there is nothing left to write. -/
theorem writeAll_last (full : SendsInFull net) {parts : List Str}
    (sound : ∀ part ∈ parts, 0 < part.length ∧ part.length < 2 ^ 31) {last : Str}
    (small : last.length < 2 ^ 31) :
    (net.writeAll [] (parts ++ [last])).2 = parts.flatten ++ last := by
  rw [writeAll_full full sound, List.nil_append, Net.writeAll]
  cases last with
  | nil => simp [writeBuffer_empty full]
  | cons c last => rw [writeBuffer_full full (by simp) small]; rfl

/-- A socket that sends in full and delivers all there is. -/
def fullNet : Net where
  recv n := n
  eof := 0
  send _ len := if 0 ≤ len then len else -1
  eof_lt := by decide

theorem fullNet_full : SendsInFull fullNet := fun _ _ positive => if_pos positive

end Socket

/-! ### Header loops -/

namespace Node

/-- `readHeader` as a reader of lines. -/
def headerReader (eof : Int) : Reader Char (List CVarVal) Exn where
  skip c := c == '\r' || c == '\x00'
  lf := '\n'
  add c := [c]
  onLine Headers line := (headerLine line).map fun vv => Headers ++ [vv]
  eof := .int eof

theorem headerReader_cr (eof : Int) : ∀ c ∈ ['\r'], (headerReader eof).skip c = true := by
  intro c member
  rw [List.mem_singleton.mp member]
  rfl

theorem headerLoop_eq (eof : Int) (acc : Str) (ex : Nat) (Headers : List CVarVal) (rx : Str) :
    headerLoop eof acc ex Headers rx =
      ((headerReader eof).scan acc ex Headers rx).2.map fun rest =>
        (((headerReader eof).scan acc ex Headers rx).1, rest) := by
  induction rx generalizing acc ex Headers with
  | nil => rfl
  | cons c rx ih =>
    unfold headerLoop Reader.scan
    by_cases skipped : c = '\r' ∨ c = '\x00'
    · have passed : (headerReader eof).skip c = true := by simpa [headerReader] using skipped
      rw [if_pos skipped, if_pos passed]
      exact ih acc ex Headers
    · have passed : (headerReader eof).skip c ≠ true := by simpa [headerReader] using skipped
      rw [if_neg skipped, if_neg passed]
      by_cases ends : c = '\n'
      · rw [if_pos ends, if_pos (show c = (headerReader eof).lf from ends)]
        cases handled : headerLine acc with
        | error e => simp [headerReader, handled, Except.map]
        | ok vv =>
          simp only [headerReader, handled, Except.map]
          split
          · rfl
          · exact ih [] (ex + 1) (Headers ++ [vv])
      · rw [if_neg ends, if_neg (show ¬ c = (headerReader eof).lf from ends)]
        exact ih (acc ++ [c]) 0 Headers

end Node

namespace Client

/-- The header loop of the client as a reader of lines. -/
def headReader (eof : Int) : Reader Char Head Exn where
  skip c := c == '\r'
  lf := '\n'
  add c := cstr [c]
  onLine := responseLine
  eof := .int eof

theorem headReader_cr (eof : Int) : ∀ c ∈ ['\r'], (headReader eof).skip c = true := by
  intro c member
  rw [List.mem_singleton.mp member]
  rfl

theorem headLoop_eq (eof : Int) (line : Str) (ex : Nat) (head : Head) (rx : Str) :
    headLoop eof line ex head rx = (headReader eof).scan line ex head rx := by
  induction rx generalizing line ex head with
  | nil => rfl
  | cons c rx ih =>
    unfold headLoop Reader.scan
    by_cases skipped : c = '\r'
    · have passed : (headReader eof).skip c = true := by simpa [headReader] using skipped
      rw [if_pos skipped, if_pos passed]
      exact ih line ex head
    · have passed : (headReader eof).skip c ≠ true := by simpa [headReader] using skipped
      rw [if_neg skipped, if_neg passed]
      by_cases ends : c = '\n'
      · rw [if_pos ends, if_pos (show c = (headReader eof).lf from ends)]
        simp only [headReader]
        cases handled : responseLine head line with
        | error e => rfl
        | ok head =>
          simp only
          split
          · rfl
          · exact ih [] (ex + 1) head
      · rw [if_neg ends, if_neg (show ¬ c = (headReader eof).lf from ends)]
        exact ih (line ++ cstr [c]) 0 head

theorem readBytes_all (eof : Int) (resp rx : Str) :
    readBytes eof resp.length (resp ++ rx) = (resp, .ok rx) := by
  induction resp with
  | nil => rfl
  | cons c resp ih => simp only [List.length_cons, List.cons_append, readBytes, ih]

theorem readBytes_short (eof : Int) {n : Nat} {rx : Str} (short : rx.length < n) :
    readBytes eof n rx = (rx, .error (.int eof)) := by
  induction n generalizing rx with
  | zero => exact absurd short (Nat.not_lt_zero _)
  | succ n ih =>
    cases rx with
    | nil => rfl
    | cons c rx => simp only [readBytes, ih (Nat.lt_of_succ_lt_succ short)]

end Client

end Solusek
