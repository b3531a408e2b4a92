import Solusek.Lib.Texts
import Solusek.Model.Client
import Solusek.Proofs.Strings
import Solusek.Proofs.Wire

/-!
# Status lines and header lines

The client takes every line with "HTTP/1.1" in it for a status line, wherever the line stands,
and a line without a ':' for a header that has the whole line as its name and as its value.
-/

namespace Solusek.Client

open Socket Lines Texts

/-! ### Lines -/

/-- A line without the CR and NUL bytes, which the reader drops. -/
def lineText (l : Str) : Str := l.filter fun c => c != '\r' && c != '\x00'

def lineName (l : Str) : Str := trim ((l.takeWhile (· ≠ ':')).map Char.toLower)

def lineValue (l : Str) : Str := trim (l.dropWhile (· ≠ ':')).tail

/-- The value in the last line that has a ':' and this name. -/
def lastValue (name : Str) (lines : List Str) : Str :=
  ((lines.reverse.find? fun l => decide (':' ∈ l ∧ lineName l = name)).map lineValue).getD []

/-- The names that `runRequest` uses afterwards. -/
def usedNames : List Str :=
  ["content-type", "content-length", "transfer-encoding", "location"].map String.toList

/-- A status line, lines with any text, and the empty line behind them. -/
structure HeadLines where
  number : Str
  reason : Str
  lines : List Str
  digits : number ≠ [] ∧ ∀ c ∈ number, c.isDigit = true
  reason_plain : '\n' ∉ reason
  lines_plain : ∀ l ∈ lines, '\n' ∉ l ∧ l.all (· == '\r') = false

namespace HeadLines

variable (s : HeadLines)

def first : Str := "HTTP/1.1 ".toList ++ (s.number ++ ' ' :: s.reason)

def text : Str := (s.first :: s.lines).flatMap (· ++ "\r\n".toList) ++ "\r\n".toList

def code : Int := (Nat.ofDigitChars 10 s.number 0 : Int)

def headers : List Str := s.lines.map lineText

end HeadLines

/-- The code of the first line is returned, and each name has its last value. -/
def HeadExact (net : Net) (garbage : Nat) (s : HeadLines) (rest : Str) : Prop :=
  (∃ r, readResponse net garbage (s.text ++ rest) = .ok r ∧ r.Code = s.code) ∧
    ∃ head, headLoop net.eof [] 0 {} (s.text ++ rest) = (head, .ok rest) ∧
      ∀ name ∈ usedNames, head.headers name = lastValue name s.headers

/-! ### How a line is read -/

def isStatus (l : Str) : Bool := (find "HTTP/1.1".toList l).isSome

/-- The text between the first two spaces; without one it starts where the line does. -/
def secondWord (l : Str) : Str :=
  (if ' ' ∈ l then (l.dropWhile (· ≠ ' ')).tail else l).takeWhile (· ≠ ' ')

/-- What is recorded for the name of a line. -/
def recorded (l : Str) : Str := if ':' ∈ l then lineValue l else trim l

def lineStep (head : Head) (l : Str) : Head :=
  if isStatus l then { head with code := atoi (secondWord l) }
  else { head with headers := Function.update head.headers (lineName l) (recorded l) }

/-- What is looked for in the line stands where an `int` can tell. -/
structure ShortLine (l : Str) : Prop where
  name : isStatus l = false → (l.takeWhile (· ≠ ':')).length + 1 < 2 ^ 31
  status : isStatus l = true →
    (l.takeWhile (· ≠ ' ')).length + 1 < 2 ^ 31 ∧ (secondWord l).length + 1 < 2 ^ 31

theorem substr_around {l : Str} {c : Char} (short : (l.takeWhile (· ≠ c)).length + 1 < 2 ^ 31) :
    substr l 0 (some (toSize (toInt (findChar l c)))) = .ok (l.takeWhile (· ≠ c)) ∧
      substr l (toSize (intSucc (toInt (findChar l c)))) =
        .ok (if c ∈ l then (l.dropWhile (· ≠ c)).tail else l) := by
  by_cases member : c ∈ l
  · obtain ⟨p, q, rfl, absent⟩ := List.eq_append_cons_of_mem member
    rw [takeWhile_ne absent] at short ⊢
    rw [dropWhile_ne absent, if_pos member]
    exact (substr_cut absent (by omega) q).2
  · rw [takeWhile_ne_self member] at short ⊢
    rw [if_neg member, findChar_none member]
    have far : toSize (toInt none) = 2 ^ 64 - 1 := rfl
    have start : toSize (intSucc (toInt none)) = 0 := rfl
    rw [far, start, substr, substr, if_neg (Nat.not_lt_zero _), if_neg (Nat.not_lt_zero _)]
    refine ⟨congrArg Except.ok (List.take_of_length_le ?_), rfl⟩
    rw [List.drop_zero]
    omega

theorem isStatus_iff {l : Str} : isStatus l = true ↔ "HTTP/1.1".toList <:+: l := by
  constructor
  · intro found
    by_contra absent
    rw [isStatus, find_eq_none absent] at found
    cases found
  · intro inside
    by_contra absent
    rw [isStatus, Bool.not_eq_true, Option.isSome_eq_false_iff, Option.isNone_iff_eq_none] at absent
    exact not_infix_of_find absent inside

theorem responseLine_short {l : Str} (short : ShortLine l) (terminated : '\x00' ∉ l) (head : Head) :
    responseLine head l = .ok (lineStep head l) := by
  unfold responseLine lineStep
  cases status : isStatus l with
  | true =>
    have found : find "HTTP/1.1".toList l ≠ none := Option.isSome_iff_ne_none.mp status
    obtain ⟨near, next⟩ := short.status status
    have word := (substr_around near).2
    have plain : '\x00' ∉ secondWord l := by
      intro member
      have inside := (List.takeWhile_prefix _).subset member
      split at inside
      · exact terminated ((List.dropWhile_suffix _).subset (List.mem_of_mem_tail inside))
      · exact terminated inside
    have number := (substr_around next).1
    rw [if_pos found, if_pos rfl]
    simp only [bind, Except.bind, pure, Except.pure, word, number]
    rw [← secondWord, cstr_eq plain]
  | false =>
    have absent : ¬ find "HTTP/1.1".toList l ≠ none := by
      rw [← Option.isSome_iff_ne_none]
      exact Bool.eq_false_iff.mp status
    obtain ⟨name, value⟩ := substr_around (short.name status)
    have lower : strtolower (l.takeWhile (· ≠ ':')) = (l.takeWhile (· ≠ ':')).map Char.toLower :=
      strtolower_short (by have near := short.name status; omega)
    rw [if_neg absent, if_neg Bool.false_ne_true]
    simp only [bind, Except.bind, pure, Except.pure, name, value, lower]
    unfold recorded lineValue lineName
    split <;> rfl

/-! ### The lines in order -/

theorem foldl_code (lines : List Str) (head : Head) : (lines.foldl lineStep head).code =
    ((lines.reverse.find? isStatus).map fun l => atoi (secondWord l)).getD head.code := by
  induction lines using List.reverseRecOn with
  | nil => rfl
  | append_singleton lines l ih =>
    rw [List.foldl_append, find?_reverse_snoc]
    show (lineStep (lines.foldl lineStep head) l).code = _
    generalize lines.foldl lineStep head = now at ih ⊢
    unfold lineStep
    cases isStatus l with
    | true => rfl
    | false => exact ih

theorem foldl_headers (lines : List Str) (head : Head) (name : Str) :
    (lines.foldl lineStep head).headers name =
      ((lines.reverse.find? fun l => !isStatus l && decide (lineName l = name)).map
        recorded).getD (head.headers name) := by
  induction lines using List.reverseRecOn with
  | nil => rfl
  | append_singleton lines l ih =>
    rw [List.foldl_append, find?_reverse_snoc]
    show (lineStep (lines.foldl lineStep head) l).headers name = _
    generalize lines.foldl lineStep head = now at ih ⊢
    unfold lineStep
    cases isStatus l with
    | true => exact ih
    | false =>
      by_cases same : lineName l = name
      · simp [same]
      · simp [same, Function.update_of_ne (Ne.symm same), ih]

/-! ### The whole head -/

theorem shown_lineText (eof : Int) (l : Str) : (headReader eof).shown l = lineText l := by
  unfold Reader.shown lineText
  induction l with
  | nil => rfl
  | cons c l ih =>
    by_cases cr : c = '\r'
    · have skipped : (headReader eof).skip c = true := by simp [headReader, cr]
      rw [List.filter_cons_of_neg (by simp [skipped]), List.filter_cons_of_neg (by simp [cr])]
      exact ih
    · have kept : (headReader eof).skip c = false := by simp [headReader, cr]
      rw [List.filter_cons_of_pos (by simp [kept]), List.flatMap_cons, ih]
      by_cases nul : c = '\x00'
      · rw [List.filter_cons_of_neg (by simp [nul]), nul]
        rfl
      · rw [List.filter_cons_of_pos (by simp [cr, nul])]
        simp [headReader, cstr, nul]

theorem lineText_plain (l : Str) : '\x00' ∉ lineText l := by
  unfold lineText
  simp

theorem shortLine_nil : ShortLine [] := ⟨fun _ => by decide, fun status => nomatch status⟩

theorem foldlM_short {lines : List Str} (short : ∀ l ∈ lines, ShortLine l ∧ '\x00' ∉ l)
    (head : Head) : lines.foldlM responseLine head = .ok (lines.foldl lineStep head) := by
  induction lines generalizing head with
  | nil => rfl
  | cons l lines ih =>
    obtain ⟨here, terminated⟩ := short l List.mem_cons_self
    rw [List.foldlM_cons, responseLine_short here terminated, List.foldl_cons]
    exact ih (fun l member => short l (List.mem_cons_of_mem _ member)) (lineStep head l)

namespace HeadLines

variable (s : HeadLines)

/-- All lines as they are read, the first one included. -/
def shown : List Str := (s.first :: s.lines).map lineText

/-- What is read of the lines. -/
def head : Head := (s.shown ++ [[]]).foldl lineStep {}

theorem line_written {l : Str} (member : l ∈ s.first :: s.lines) :
    '\n' ∉ l ∧ l.all (· == '\r') = false := by
  rcases List.mem_cons.mp member with rfl | later
  · have front : 'H' ∈ s.first := List.mem_append_left _ (by decide)
    refine ⟨fun inside => ?_, List.all_eq_false.mpr ⟨'H', front, by decide⟩⟩
    rcases List.mem_append.mp inside with label | behind
    · exact absurd label (by decide)
    rcases List.mem_append.mp behind with digit | reason
    · exact absurd (s.digits.2 _ digit) (by decide)
    · exact s.reason_plain ((List.mem_cons.mp reason).resolve_left (by decide))
  · exact s.lines_plain l later

theorem headLoop_text (short : ∀ l ∈ s.shown, ShortLine l) (eof : Int) (rest : Str) :
    headLoop eof [] 0 {} (s.text ++ rest) = (s.head, .ok rest) := by
  have handled : ((s.first :: s.lines).map (headReader eof).shown ++ [[]]).foldlM
      (headReader eof).onLine {} = .ok s.head := by
    rw [List.map_congr_left fun l _ => shown_lineText eof l]
    refine foldlM_short (fun l member => ?_) {}
    rcases List.mem_append.mp member with line | empty
    · obtain ⟨k, _, rfl⟩ := List.mem_map.mp line
      exact ⟨short _ line, lineText_plain k⟩
    · rw [List.mem_singleton.mp empty]
      exact ⟨shortLine_nil, List.not_mem_nil⟩
  have text : s.text = (headReader eof).text ['\r'] (s.first :: s.lines) := by
    have brk : (headReader eof).brk ['\r'] = "\r\n".toList := rfl
    rw [HeadLines.text, Reader.text, brk]
  rw [headLoop_eq, text]
  exact Reader.scan_text (headReader_cr eof) rfl (List.cons_ne_nil _ _)
    (fun l member => (s.line_written member).1) (fun l member => (s.line_written member).2) rest
    handled

end HeadLines

theorem readResponse_code (net : Net) (garbage : Nat) {rx rest : Str} {head : Head}
    (read : headLoop net.eof [] 0 {} rx = (head, .ok rest)) :
    ∃ r, readResponse net garbage rx = .ok r ∧ r.Code = head.code := by
  unfold readResponse
  rw [read]
  dsimp only
  split
  · split
    · exact ⟨_, rfl, rfl⟩
    · exact ⟨_, rfl, rfl⟩
  · split
    · exact ⟨_, rfl, rfl⟩
    · exact ⟨_, rfl, rfl⟩

/-! ### Lines that are taken for others -/

/-- The last line whose name is `name`, if any, is a header line, or has no ':' and the text of
the value that `name` has. -/
def NameKept (name : Str) (lines : List Str) : Prop :=
  ∀ l, lines.reverse.find? (fun l => decide (lineName l = name)) = some l →
    if ':' ∈ l then isStatus l = false else lastValue name lines = trim l

theorem slash_lineName {l : Str} (member : '/' ∈ l.takeWhile (· ≠ ':')) : '/' ∈ lineName l := by
  have solid : ∀ c ∈ ['/'], isspace c = false := fun c member =>
    isspace_above (by rw [List.mem_singleton.mp member]; decide)
  have lower : '/' ∈ (l.takeWhile (· ≠ ':')).map Char.toLower := List.mem_map_of_mem member
  exact (List.singleton_infix_iff _ _).mp
    (infix_trim solid ((List.singleton_infix_iff _ _).mpr lower))

theorem status_value {l : Str} (plain : '/' ∉ lineName l) (status : isStatus l = true) :
    ':' ∈ l ∧ "HTTP/1.1".toList <:+: lineValue l := by
  have inside := isStatus_iff.mp status
  have slash : '/' ∈ "HTTP/1.1".toList := by decide
  have above : "HTTP/1.1".toList.all (fun c => decide (32 < c.toNat)) = true := rfl
  have solid (c : Char) (member : c ∈ "HTTP/1.1".toList) : isspace c = false :=
    isspace_above (of_decide_eq_true (List.all_eq_true.mp above c member))
  by_cases colon : ':' ∈ l
  · refine ⟨colon, infix_trim solid ?_⟩
    obtain ⟨p, q, rfl, absent⟩ := List.eq_append_cons_of_mem colon
    rw [dropWhile_ne absent]
    rcases infix_of_append_cons (by decide) inside with front | behind
    · refine absurd (slash_lineName ?_) plain
      rw [takeWhile_ne absent]
      exact front.subset slash
    · exact behind
  · refine absurd (slash_lineName ?_) plain
    rw [takeWhile_ne_self colon]
    exact inside.subset slash

theorem recorded_inside (l : Str) : recorded l <:+: l := by
  unfold recorded lineValue
  split
  · refine (trim_inside _).trans ((List.tail_suffix _).isInfix.trans ?_)
    exact (List.dropWhile_suffix _).isInfix
  · exact trim_inside l

theorem recorded_iff {name : Str} (plain : '/' ∉ name) (lines : List Str) :
    ((lines.reverse.find? fun l => !isStatus l && decide (lineName l = name)).map recorded).getD []
      = lastValue name lines ↔ NameKept name lines := by
  have carried (l : Str) (test : decide (':' ∈ l ∧ lineName l = name) = true) :
      decide (lineName l = name) = true := decide_eq_true (of_decide_eq_true test).2
  have read (l : Str) (test : (!isStatus l && decide (lineName l = name)) = true) :
      decide (lineName l = name) = true := (Bool.and_eq_true_iff.mp test).2
  unfold NameKept
  cases last : lines.reverse.find? fun l => decide (lineName l = name) with
  | none =>
    refine iff_of_true ?_ (fun l none => nomatch none)
    rw [List.find?_eq_none] at last
    unfold lastValue
    rw [List.find?_eq_none.mpr fun l member test => last l member (carried l test),
      List.find?_eq_none.mpr fun l member test => last l member (read l test)]
    rfl
  | some l =>
    have test := List.find?_some last
    have named : lineName l = name := of_decide_eq_true test
    have only : (∀ k, some l = some k → if ':' ∈ k then isStatus k = false
        else lastValue name lines = trim k) ↔
        if ':' ∈ l then isStatus l = false else lastValue name lines = trim l := by
      simp
    rw [only]
    cases status : isStatus l with
    | false =>
      have here := find?_stronger last (by simp [status, named]) read
      rw [here]
      by_cases colon : ':' ∈ l
      · have value : lastValue name lines = lineValue l := by
          unfold lastValue
          rw [find?_stronger last (decide_eq_true ⟨colon, named⟩) carried]
          rfl
        rw [if_pos colon, value]
        exact iff_of_true (if_pos colon) rfl
      · rw [if_neg colon]
        show recorded l = _ ↔ _
        rw [recorded, if_neg colon]
        exact eq_comm
    | true =>
      obtain ⟨colon, inside⟩ := status_value (named ▸ plain) status
      have value : lastValue name lines = lineValue l := by
        unfold lastValue
        rw [find?_stronger last (decide_eq_true ⟨colon, named⟩) carried]
        rfl
      rw [if_pos colon, value]
      refine iff_of_false (fun same => ?_) Bool.noConfusion
      rw [← same] at inside
      cases other : lines.reverse.find? fun l => !isStatus l && decide (lineName l = name) with
      | none =>
        rw [other] at inside
        exact absurd inside (by decide)
      | some k =>
        rw [other] at inside
        have status' := isStatus_iff.mpr (inside.trans (recorded_inside k))
        have held := List.find?_some other
        rw [status'] at held
        cases held

/-! ### Any lines -/

namespace HeadLines

variable (s : HeadLines)

/-- The last line with "HTTP/1.1" in it gives the code of the first one. -/
def StatusKept : Prop :=
  (s.shown.reverse.find? isStatus).map (fun l => atoi (secondWord l)) = some s.code

theorem first_status : isStatus (lineText s.first) = true := by
  have front : lineText s.first =
      lineText "HTTP/1.1 ".toList ++ lineText (s.number ++ ' ' :: s.reason) := List.filter_append ..
  have label : "HTTP/1.1".toList <:+: lineText "HTTP/1.1 ".toList := by decide
  rw [isStatus_iff, front]
  exact label.trans (List.prefix_append _ _).isInfix

theorem head_code : s.head.code = s.code ↔ s.StatusKept := by
  have blank : isStatus [] = false := rfl
  unfold head StatusKept
  rw [foldl_code, find?_reverse_snoc, blank, if_neg Bool.false_ne_true]
  cases last : s.shown.reverse.find? isStatus with
  | none =>
    have found : lineText s.first ∈ s.shown.reverse :=
      List.mem_reverse.mpr List.mem_cons_self
    exact absurd s.first_status (List.find?_eq_none.mp last _ found)
  | some l => exact Option.some_inj.symm

theorem head_header {name : Str} (nonempty : name ≠ []) : s.head.headers name =
    ((s.headers.reverse.find? fun l => !isStatus l && decide (lineName l = name)).map
      recorded).getD [] := by
  have blank : (!isStatus [] && decide (lineName [] = name)) = false := by
    rw [Bool.and_eq_false_iff]
    exact .inr (decide_eq_false nonempty.symm)
  unfold head shown
  rw [foldl_headers, find?_reverse_snoc, blank, if_neg Bool.false_ne_true, List.map_cons,
    List.reverse_cons, List.find?_append, List.find?_singleton, s.first_status]
  simp [headers]

end HeadLines

theorem usedNames_plain : ∀ name ∈ usedNames, name ≠ [] ∧ '/' ∉ name := by decide

theorem headExact_iff_head (net : Net) (garbage : Nat) {s : HeadLines} (rest : Str)
    (short : ∀ l ∈ s.shown, ShortLine l) : HeadExact net garbage s rest ↔
      s.head.code = s.code ∧ ∀ name ∈ usedNames, s.head.headers name = lastValue name s.headers := by
  have read := s.headLoop_text short net.eof rest
  obtain ⟨r, answer, code⟩ := readResponse_code net garbage read
  unfold HeadExact
  rw [answer, read, ← code]
  constructor
  · rintro ⟨⟨r', same, told⟩, head, equal, values⟩
    rw [← Except.ok.inj same] at told
    rw [← (Prod.mk.inj equal).1] at values
    exact ⟨told, values⟩
  · rintro ⟨told, values⟩
    exact ⟨⟨r, rfl, told⟩, s.head, rfl, values⟩

/-- The code is that of the first line, and the names that are used have the values of the last
lines with them, exactly if no later line with "HTTP/1.1" gives another code, and of the lines
with such a name the last one is a header line, or has no ':' and the text of that value. -/
theorem head_exact_iff (net : Net) (garbage : Nat) (s : HeadLines) (rest : Str)
    (short : ∀ l ∈ s.shown, ShortLine l) :
    HeadExact net garbage s rest ↔
      s.StatusKept ∧ ∀ name ∈ usedNames, NameKept name s.headers := by
  rw [headExact_iff_head net garbage rest short, s.head_code]
  refine and_congr_right fun _ => forall₂_congr fun name used => ?_
  obtain ⟨nonempty, plain⟩ := usedNames_plain name used
  rw [s.head_header nonempty, recorded_iff plain]

/-! ### A head with a `Via` field -/

theorem shortLine_of_length {l : Str} (short : l.length + 1 < 2 ^ 31) : ShortLine l := by
  have cut (c : Char) : (l.takeWhile (· ≠ c)).length ≤ l.length :=
    (List.takeWhile_prefix _).length_le
  have word : (secondWord l).length ≤ l.length := by
    refine (List.takeWhile_prefix _).length_le.trans ?_
    split
    · rw [List.length_tail]
      exact (Nat.sub_le _ _).trans (List.dropWhile_suffix _).length_le
    · exact le_rfl
  have colon := cut ':'
  have space := cut ' '
  exact ⟨fun _ => by omega, fun _ => by omega⟩

def okLines (lines : List Str)
    (plain : ∀ l ∈ lines, '\n' ∉ l ∧ l.all (· == '\r') = false) : HeadLines where
  number := "200".toList
  reason := "OK".toList
  lines := lines
  digits := ⟨List.cons_ne_nil _ _, List.all_eq_true.mp rfl⟩
  reason_plain := by decide
  lines_plain := plain

def plainHead : HeadLines := okLines ["Location: /a".toList] (by decide)

def viaHead : HeadLines := okLines ["Via: HTTP/1.1 b".toList] (by decide)

theorem plainHead_exact : HeadExact fullNet 0 plainHead [] := by
  have short : ∀ l ∈ plainHead.shown, l.length + 1 < 2 ^ 31 := by decide
  refine (head_exact_iff fullNet 0 plainHead [] fun l member =>
    shortLine_of_length (short l member)).mpr ⟨?_, fun name used l last => ?_⟩
  · have first : plainHead.shown.reverse.find? isStatus = some "HTTP/1.1 200 OK".toList := rfl
    have word : secondWord "HTTP/1.1 200 OK".toList = printNat 200 := rfl
    rw [HeadLines.StatusKept, first, Option.map_some, word, atoi_printNat (by decide)]
    rfl
  · have only : plainHead.headers.reverse = ["Location: /a".toList] := rfl
    have member := List.mem_of_find?_eq_some last
    rw [only, List.mem_singleton] at member
    rw [member, if_pos (by decide)]
    rfl

/-- The line of a proxy is taken for a status line. -/
theorem via_misread : ¬ ∀ (net : Net) (garbage : Nat) (s : HeadLines) (rest : Str),
    HeadExact net garbage s rest := by
  intro claim
  have short : ∀ l ∈ viaHead.shown, l.length + 1 < 2 ^ 31 := by decide
  have told := (headExact_iff_head fullNet 0 [] fun l member =>
    shortLine_of_length (short l member)).mp (claim fullNet 0 viaHead [])
  have kept := viaHead.head_code.mp told.1
  have last : viaHead.shown.reverse.find? isStatus = some "Via: HTTP/1.1 b".toList := rfl
  have number : atoi (secondWord "Via: HTTP/1.1 b".toList) = 0 := rfl
  rw [HeadLines.StatusKept, last, Option.map_some, number] at kept
  exact absurd (Option.some.inj kept) (by decide)

end Solusek.Client
