import Solusek.Proofs.CutChunks

/-!
# Responses that are cut off

The reader stores the status code as soon as it has read the status line and keeps what it has
of the body when a read throws. So a response that is cut off behind its status line is told
apart from a whole one only where no byte of the body is missing.
-/

namespace Solusek.Client

open Socket Lines RoundTrip

/-! ### The status code so far -/

theorem responseLine_thrown {head : Head} {line : Str} {e : Exn}
    (thrown : responseLine head line = .error e) : e = .outOfRange := by
  unfold responseLine at thrown
  split at thrown
  · rcases bind_error thrown with first | ⟨scode, later⟩
    · exact substr_thrown first
    · rcases bind_error later with second | ⟨text, none⟩
      · exact substr_thrown second
      · cases none
  · rcases bind_error thrown with first | ⟨var, later⟩
    · exact substr_thrown first
    · rcases bind_error later with second | ⟨val, none⟩
      · exact substr_thrown second
      · cases none

theorem responseLine_code {head head' : Head} {line : Str}
    (read : responseLine head line = .ok head') :
    head'.code = (statusOf line).getD head.code := by
  unfold statusOf
  unfold responseLine at read ⊢
  split at read <;> rename_i status
  · obtain ⟨scode, first, later⟩ := bind_ok read
    obtain ⟨text, second, same⟩ := bind_ok later
    simp only [if_neg status, if_pos status, first, second, bind, Except.bind, pure, Except.pure]
    rw [← Except.ok.inj same]
    rfl
  · obtain ⟨var, first, later⟩ := bind_ok read
    obtain ⟨val, second, same⟩ := bind_ok later
    rw [if_pos (not_not.mp status), ← Except.ok.inj same]
    rfl

theorem foldlM_code {lines : List Str} {head head' : Head}
    (read : lines.foldlM responseLine head = .ok head') :
    head'.code = (lines.filterMap statusOf).getLastD head.code := by
  induction lines generalizing head with
  | nil => exact congrArg Head.code (Except.ok.inj read).symm
  | cons line lines ih =>
    rw [List.foldlM_cons] at read
    obtain ⟨next, first, others⟩ := bind_ok read
    rw [ih others, responseLine_code first, List.filterMap_cons]
    cases statusOf line with
    | none => rfl
    | some code => exact List.getLastD_cons.symm

theorem headLoop_code {eof : Int} {rx : Str} {head : Head} {answer : Except Exn Str}
    (read : headLoop eof [] 0 {} rx = (head, answer))
    (ended : answer = .ok [] ∨ answer = .error (.int eof)) : head.code = lastStatus rx := by
  rw [headLoop_eq] at read
  have apart : ∀ s l, (headReader eof).onLine s l ≠ .error (headReader eof).eof := by
    intro s l thrown
    cases responseLine_thrown thrown
  have inside : (headReader eof).lf ∉ ([] : Str) := List.not_mem_nil
  exact foldlM_code (Reader.scan_lines rfl apart inside read ended)

/-! ### What the caller is given -/

section Answers

variable {net : Net} {garbage : Nat} {s : Stream} {rx rest : Str}

theorem headLoop_behind (sent : s.Sent) (rest : Str) :
    headLoop net.eof [] 0 {} (s.head ++ rest) = (s.meaning, .ok rest) := by
  have read := sent.complete net.eof
  rw [headLoop_eq] at read ⊢
  exact Reader.scan_append read rest

theorem readResponse_chunked (sent : s.Sent)
    (length : s.meaning.headers "content-length".toList = [])
    (encoding : s.meaning.headers "transfer-encoding".toList ≠ []) :
    ∃ r, readResponse net garbage (s.head ++ rest) = .ok r ∧ r.Code = s.meaning.code ∧
      r.Body = chunkLoop net garbage [] rest := by
  have positive := List.length_pos_of_ne_nil encoding
  unfold readResponse
  rw [headLoop_behind sent]
  simp only [length, List.length_nil, Nat.lt_irrefl, if_false, if_pos positive]
  exact ⟨_, rfl, rfl, rfl⟩

end Answers

/-! ### Heads of one field -/

def okHead (f : Str × Str) : Str :=
  "HTTP/1.1 200 OK".toList ++ "\r\n".toList ++ fieldLine f ++ "\r\n".toList ++ "\r\n".toList

def okMeaning (f : Str × Str) : Head where
  code := 200
  headers := Function.update (put (fun _ => []) f) [] []

theorem okHead_read {f : Str × Str} (field : Field f) (eof : Int) :
    headLoop eof [] 0 {} (okHead f) = (okMeaning f, .ok []) := by
  have printed : ∀ l ∈ ["HTTP/1.1 200 OK".toList, fieldLine f], Printed l ∧ ' ' ∈ l := by
    intro l member
    rcases List.mem_cons.mp member with rfl | later
    · exact ⟨⟨by decide, by decide, by decide⟩, by decide⟩
    · rw [List.mem_singleton.mp later]
      exact ⟨field.line_printed, by simp [fieldLine]⟩
  have handled : (["HTTP/1.1 200 OK".toList, fieldLine f] ++ [[]]).foldlM responseLine {} =
      .ok (okMeaning f) :=
    @foldlM_head _ _ responseLine_ok [f] (by simpa using field)
  have text : okHead f =
      (headReader eof).text ['\r'] ["HTTP/1.1 200 OK".toList, fieldLine f] ++ [] := by
    have brk : (headReader eof).brk ['\r'] = "\r\n".toList := rfl
    have join (a b l : Str) : a ++ b ++ l ++ b ++ b = a ++ b ++ (l ++ b ++ []) ++ b := by simp
    rw [List.append_nil, Reader.text, List.flatMap_cons, List.flatMap_cons, List.flatMap_nil, brk]
    exact join _ _ _
  rw [text]
  exact headLoop_lines (List.cons_ne_nil _ _) printed handled eof []

theorem okMeaning_value {f : Str × Str} {key : Str} (named : trim (strtolower f.1) = key)
    (nonempty : key ≠ []) : (okMeaning f).headers key = trim (' ' :: f.2) := by
  show Function.update (put (fun _ => []) f) [] [] key = _
  rw [Function.update_of_ne nonempty, put, named, Function.update_self]

theorem okMeaning_other {f : Str × Str} {key : Str} (apart : trim (strtolower f.1) ≠ key) :
    (okMeaning f).headers key = [] := by
  show Function.update (put (fun _ => []) f) [] [] key = _
  by_cases blank : key = []
  · rw [blank, Function.update_self]
  · rw [Function.update_of_ne blank, put, Function.update_of_ne apart.symm]

/-! ### A response with the body `hi` -/

theorem Stream.Sent.code {s : Stream} (sent : s.Sent) : s.meaning.code = lastStatus s.head :=
  headLoop_code (sent.complete 0) (Or.inl rfl)

theorem Stream.Told.small {s : Stream} {rest : Str} (sent : s.Sent)
    (told : s.Told (s.head ++ rest)) : s.Small := by
  rw [Stream.Told, List.take_left, sent.code] at told
  simp only [ne_eq, not_true, false_or] at told
  cases framing : s.framing with
  | contentLength body => simp [Stream.Small, framing]
  | chunked chunks zero ext trailer =>
    rw [framing] at told
    rcases told with rfl | enough
    · simp [Stream.Small, framing]
    · exact enough.1
  | malformed chunks line tail => simp [Stream.Small, framing]

end Solusek.Client
