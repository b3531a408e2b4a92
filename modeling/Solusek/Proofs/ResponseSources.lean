import Solusek.Lib.Blocks
import Solusek.Proofs.CutResponses

/-!
# What a response is made of

Whatever a server sends, the client takes nothing from anywhere else: the code, the type and the
location come from lines of the header, the body from the bytes behind it, and each in the order in
which they came.
-/

namespace Solusek.Client

open Socket Lines Texts

/-! ### Header lines -/

/-- The shortest text that ends, without its CRs, in two LFs. -/
def WholeHead (p : Str) : Prop :=
  "\n\n".toList <:+ (p.filter fun c => !(c == '\r')) ∧
    ∀ q, q <+: p → "\n\n".toList <:+ (q.filter fun c => !(c == '\r')) → q = p

/-- The lines that have ended, without CR and NUL. -/
def headLines (p : Str) : List Str :=
  (p.splitOn '\n').dropLast.map fun l => l.filter fun c => !(c == '\r' || c == '\x00')

def Status (line : Str) : Prop := "HTTP/1.1".toList <:+: line

/-- What stands between the first two blanks, or behind the only one. -/
def statusWord (line : Str) : Str :=
  if ' ' ∈ line then ((line.dropWhile (· ≠ ' ')).drop 1).takeWhile (· ≠ ' ') else line

/-- The code is that of the last status line, 0 without one. In a line too long for an `int` its
digits may stand anywhere. -/
def CodeOf (lines : List Str) (code : Int) : Prop :=
  (code = 0 ∧ ∀ l ∈ lines, ¬ Status l) ∨
  ∃ before line after, lines = before ++ line :: after ∧ Status line ∧
    (∀ l ∈ after, ¬ Status l) ∧ ∃ word, word <:+: line ∧ code = atoi (cstr word) ∧
      (line.length + 1 < 2 ^ 31 → word = statusWord line)

/-- The line gives the name this value; in one too long for an `int` it may stand anywhere. -/
def FieldOf (name line value : Str) : Prop :=
  ¬ Status line ∧ value <:+: line ∧ (line.length + 1 < 2 ^ 31 → ':' ∈ line →
    name = trim (strtolower (line.takeWhile (· ≠ ':'))) ∧
      value = trim ((line.dropWhile (· ≠ ':')).drop 1))

/-- What has been found comes from these lines. -/
structure FoundIn (lines : List Str) (head : Head) : Prop where
  code : CodeOf lines head.code
  values : ∀ name, head.headers name ≠ [] → ∃ line ∈ lines, FieldOf name line (head.headers name)

theorem shown_headLine (eof : Int) (l : Str) :
    (headReader eof).shown l = l.filter fun c => !(c == '\r' || c == '\x00') := by
  induction l with
  | nil => rfl
  | cons c l ih =>
    unfold Reader.shown at ih ⊢
    by_cases cr : c = '\r'
    · rw [List.filter_cons_of_neg (by simp [headReader, cr]), ih,
        List.filter_cons_of_neg (by simp [cr])]
    · rw [List.filter_cons_of_pos (by simp [headReader, cr]), List.flatMap_cons, ih]
      by_cases nul : c = '\x00'
      · rw [List.filter_cons_of_neg (by simp [nul]), nul]
        rfl
      · rw [List.filter_cons_of_pos (by simp [cr, nul])]
        show cstr [c] ++ _ = _
        simp [cstr, nul]

theorem headLines_eq (eof : Int) (p : Str) : headLines p = (headReader eof).lines p := by
  unfold headLines Reader.lines
  exact List.map_congr_left fun l _ => (shown_headLine eof l).symm

theorem substr_part {s t : Str} {pos : Nat} {n : Option Nat} (cut : substr s pos n = .ok t) :
    t <:+: s := by
  unfold substr at cut
  split at cut
  · cases cut
  · obtain rfl := Except.ok.inj cut
    have behind : s.drop pos <:+: s := (List.drop_suffix pos s).isInfix
    cases n with
    | none => exact behind
    | some n => exact (List.take_prefix n _).isInfix.trans behind

/-- The two cuts around a blank, in a text whose positions an `int` has. -/
theorem substr_word {s t : Str} (small : s.length + 1 < 2 ^ 31)
    (cut : substr s 0 (some (toSize (toInt (findChar s ' ')))) = .ok t) :
    t = s.takeWhile (· ≠ ' ') := by
  by_cases blank : ' ' ∈ s
  · obtain ⟨word, rest, rfl, plain⟩ := List.eq_append_cons_of_mem blank
    simp only [List.length_append, List.length_cons] at small
    have position : toInt (some word.length) = word.length := sizeToInt_small (by omega)
    have here : toSize (word.length : Int) = word.length := toSize_natCast (by omega)
    rw [findChar_append plain, position, here, substr_left] at cut
    rw [takeWhile_ne plain, ← Except.ok.inj cut]
  · have nowhere : toInt none = -1 := rfl
    have last : s.length ≤ toSize (-1) := by
      have top : toSize (-1) = 2 ^ 64 - 1 := rfl
      omega
    rw [findChar_none blank, nowhere] at cut
    simp only [substr, Nat.not_lt_zero, if_false, List.drop_zero, List.take_of_length_le last] at cut
    rw [takeWhile_ne_self blank, ← Except.ok.inj cut]

theorem substr_rest {s t : Str} (small : s.length + 1 < 2 ^ 31) {c : Char}
    (cut : substr s (toSize (intSucc (toInt (findChar s c)))) = .ok t) :
    t = if c ∈ s then (s.dropWhile (· ≠ c)).drop 1 else s := by
  by_cases found : c ∈ s
  · obtain ⟨front, rest, rfl, plain⟩ := List.eq_append_cons_of_mem found
    simp only [List.length_append, List.length_cons] at small
    have position : toInt (some front.length) = front.length := sizeToInt_small (by omega)
    have next : toSize (intSucc front.length) = front.length + 1 := by
      rw [intSucc_small (by omega)]
      exact toSize_natCast (by omega)
    rw [findChar_append plain, position, next, substr_behind] at cut
    rw [if_pos found, dropWhile_ne plain, ← Except.ok.inj cut]
    rfl
  · have start : toSize (intSucc (toInt none)) = 0 := rfl
    rw [findChar_none found, start] at cut
    rw [if_neg found]
    exact (Except.ok.inj cut).symm

theorem responseLine_found {lines : List Str} {line : Str} {head head' : Head}
    (found : FoundIn lines head) (read : responseLine head line = .ok head') :
    FoundIn (lines ++ [line]) head' := by
  have last : line ∈ lines ++ [line] := List.mem_append_right _ (List.mem_singleton_self _)
  have older {name value : Str} (known : ∃ l ∈ lines, FieldOf name l value) :
      ∃ l ∈ lines ++ [line], FieldOf name l value := by
    obtain ⟨l, member, field⟩ := known
    exact ⟨l, List.mem_append_left _ member, field⟩
  unfold responseLine at read
  split at read <;> rename_i status
  · obtain ⟨behind, first, read⟩ := bind_ok read
    obtain ⟨word, second, read⟩ := bind_ok read
    obtain rfl := Except.ok.inj read
    have shown : Status line := by
      by_contra other
      exact status (find_eq_none other)
    refine ⟨Or.inr ⟨lines, line, [], rfl, shown, List.forall_mem_nil _, word,
      (substr_part second).trans (substr_part first), rfl, fun small => ?_⟩,
      fun name filled => older (found.values name filled)⟩
    have shorter := (substr_part first).length_le
    rw [substr_word (by omega) second, substr_rest small first, statusWord]
    by_cases blank : ' ' ∈ line
    · rw [if_pos blank, if_pos blank]
    · rw [if_neg blank, if_neg blank, takeWhile_ne_self blank]
  · obtain ⟨var, first, read⟩ := bind_ok read
    obtain ⟨val, second, read⟩ := bind_ok read
    obtain rfl := Except.ok.inj read
    have plain : ¬ Status line := not_infix_of_find (not_not.mp status)
    refine ⟨?_, fun name filled => ?_⟩
    · rcases found.code with ⟨zero, none⟩ | ⟨before, l, after, rfl, shown, behind, word⟩
      · refine Or.inl ⟨zero, fun l member => ?_⟩
        rcases List.mem_append.mp member with old | new
        · exact none l old
        · rwa [List.mem_singleton.mp new]
      · refine Or.inr ⟨before, l, after ++ [line], by simp, shown, fun k member => ?_, word⟩
        rcases List.mem_append.mp member with old | new
        · exact behind k old
        · rwa [List.mem_singleton.mp new]
    · dsimp only at filled ⊢
      by_cases same : name = trim (strtolower var)
      · rw [same, Function.update_self]
        refine ⟨line, last, plain, (trim_inside val).trans (substr_part second),
          fun small colon => ?_⟩
        obtain ⟨front, rest, rfl, absent⟩ := List.eq_append_cons_of_mem colon
        have value := substr_rest small second
        simp only [List.length_append, List.length_cons] at small
        have position : toInt (some front.length) = front.length := sizeToInt_small (by omega)
        have here : toSize (front.length : Int) = front.length := toSize_natCast (by omega)
        rw [findChar_append absent, position, here, substr_left] at first
        obtain rfl := Except.ok.inj first
        rw [takeWhile_ne absent, value, if_pos colon]
        exact ⟨rfl, rfl⟩
      · rw [Function.update_of_ne same] at filled ⊢
        exact older (found.values name filled)

theorem foldlM_found {lines : List Str} {head : Head}
    (read : lines.foldlM responseLine {} = .ok head) : FoundIn lines head := by
  have all (rest before : List Str) (start : Head) (found : FoundIn before start)
      (read : rest.foldlM responseLine start = .ok head) : FoundIn (before ++ rest) head := by
    induction rest generalizing before start with
    | nil =>
      rw [← Except.ok.inj read, List.append_nil]
      exact found
    | cons line rest ih =>
      rw [List.foldlM_cons] at read
      obtain ⟨next, first, others⟩ := bind_ok read
      have whole := ih (before ++ [line]) next (responseLine_found found first) others
      rwa [List.append_assoc] at whole
  exact all lines [] {} ⟨Or.inl ⟨rfl, fun l member => nomatch member⟩,
    fun name filled => absurd rfl filled⟩ read

/-- The header that is read: a whole one, or what there is of it. -/
theorem headLoop_found (eof : Int) (rx : Str) :
    (∃ p rest head, rx = p ++ rest ∧ WholeHead p ∧ FoundIn (headLines p) head ∧
      headLoop eof [] 0 {} rx = (head, .ok rest)) ∨
    (∃ head, FoundIn (headLines rx) head ∧ (∀ p, p <+: rx → ¬ WholeHead p) ∧
      headLoop eof [] 0 {} rx = (head, .error (.int eof))) ∨
    ∃ head, headLoop eof [] 0 {} rx = (head, .error .outOfRange) := by
  have apart s l : (headReader eof).onLine s l ≠ .error (headReader eof).eof := by
    intro thrown
    cases responseLine_thrown thrown
  rw [headLoop_eq]
  rcases Reader.scan_block (R := headReader eof) rfl apart {} rx with
    ⟨head, p, rest, whole, block, read, handled⟩ | ⟨⟨head, read, handled⟩, none⟩ |
    ⟨head, e, read, t, l, failed⟩
  · rw [← headLines_eq eof] at handled
    exact Or.inl ⟨p, rest, head, whole, block, foldlM_found handled, read⟩
  · rw [← headLines_eq eof] at handled
    exact Or.inr (Or.inl ⟨head, foldlM_found handled, none, read⟩)
  · obtain rfl := responseLine_thrown failed
    exact Or.inr (Or.inr ⟨head, read⟩)

/-! ### The body -/

theorem readBytes_found {eof : Int} {n : Nat} {rx resp : Str} {answer : Except Exn Str}
    (read : readBytes eof n rx = (resp, answer)) :
    ∃ rest, rx = resp ++ rest ∧ ∀ rx', answer = .ok rx' → rx' = rest := by
  induction n generalizing rx resp with
  | zero =>
    obtain ⟨rfl, rfl⟩ := Prod.mk.inj read
    exact ⟨rx, rfl, fun rx' same => (Except.ok.inj same).symm⟩
  | succ n ih =>
    cases rx with
    | nil =>
      obtain ⟨rfl, rfl⟩ := Prod.mk.inj read
      exact ⟨[], rfl, nofun⟩
    | cons buf rx =>
      obtain ⟨rfl, last⟩ := Prod.mk.inj read
      obtain ⟨rest, whole, left⟩ := ih (Prod.ext rfl last)
      exact ⟨rest, by rw [List.cons_append, ← whole], left⟩

theorem chunkLine_found {eof : Int} {acc line rest rx : Str} {prev : Char}
    (read : chunkLine eof acc prev rx = .ok (line, rest)) : rest <:+ rx := by
  induction rx generalizing acc prev with
  | nil => cases read
  | cons buf rx ih =>
    unfold chunkLine at read
    split at read
    · obtain ⟨_, rfl⟩ := Prod.mk.inj (Except.ok.inj read)
      exact List.suffix_cons buf rx
    · exact (ih read).trans (List.suffix_cons buf rx)

theorem readBuffer_suffix {net : Net} {rx buf rest : Str} {len : Nat}
    (read : net.readBuffer rx len = .ok (buf, rest)) : rest <:+ rx := by
  unfold Net.readBuffer at read
  generalize (if rx = [] then net.eof else
    max 1 ((min (net.recv rx.length) (min len rx.length) : Nat) : Int)) = r at read
  dsimp only at read
  split at read
  · cases read
  · obtain ⟨_, rfl⟩ := Prod.mk.inj (Except.ok.inj read)
    exact List.drop_suffix _ rx

/-- Each round adds bytes it has read, in front of those that are left. -/
theorem chunkLoop_found (net : Net) (size : Nat) (resp rx : Str) :
    ∃ more, chunkLoop net size resp rx = resp ++ more ∧ more.Sublist rx := by
  induction h : rx.length using Nat.strong_induction_on generalizing size resp rx with
  | _ len ih =>
    have nothing {r : Str} (same : r = resp) : ∃ more, r = resp ++ more ∧ more.Sublist rx :=
      ⟨[], by rw [same, List.append_nil], List.nil_sublist rx⟩
    rw [chunkLoop]
    split
    · exact nothing rfl
    · rename_i acc rest line
      dsimp only
      split
      · exact nothing rfl
      · split
        · rename_i more e body
          obtain ⟨left, whole, _⟩ := readBytes_found body
          refine ⟨more, rfl, ?_⟩
          have part : more.Sublist rest := whole ▸ List.sublist_append_left more left
          exact part.trans (chunkLine_found line).sublist
        · rename_i more rest' body
          obtain ⟨left, whole, same⟩ := readBytes_found body
          have part : more.Sublist rest := whole ▸ List.sublist_append_left more left
          split
          · exact ⟨more, rfl, part.trans (chunkLine_found line).sublist⟩
          · rename_i gone rest'' gap
            have first := chunkLine_shorter line
            have second := readBytes_shorter body
            have third := Net.readBuffer_shorter gap
            obtain ⟨others, again, inside⟩ := ih rest''.length (by omega) _ (resp ++ more) rest'' rfl
            refine ⟨more ++ others, by rw [again, List.append_assoc], ?_⟩
            have tail : others.Sublist left := by
              rw [← same rest' rfl]
              exact inside.trans (readBuffer_suffix gap).sublist
            exact (whole ▸ (List.Sublist.refl more).append tail).trans (chunkLine_found line).sublist

/-! ### The response -/

/-- Every part of a response is one of the client's own, or comes from its place in the stream. -/
theorem response_found {net : Net} {garbage : Nat} {rx : Str} {got : MResponse}
    (read : readResponse net garbage rx = .ok got) :
    ∃ p rest, rx = p ++ rest ∧ (WholeHead p ∨ rest = [] ∧ ∀ q, q <+: rx → ¬ WholeHead q) ∧
      CodeOf (headLines p) got.Code ∧
      (got.ContentType = "application/json".toList ∨
        ∃ line ∈ headLines p, FieldOf "content-type".toList line got.ContentType) ∧
      (got.Location = [] ∨
        ∃ line ∈ headLines p, FieldOf "location".toList line got.Location) ∧
      got.Body.Sublist rest ∧ got.Date = [] ∧ got.SID = [] ∧ got.Cookies = [] := by
  rcases headLoop_found net.eof rx with
    ⟨p, rx', head, whole, block, found, loop⟩ | ⟨head, found, none, loop⟩ | ⟨head, loop⟩
  · have typed : (if (head.headers "content-type".toList).length > 0 then
        head.headers "content-type".toList else "application/json".toList) =
          "application/json".toList ∨
        ∃ line ∈ headLines p, FieldOf "content-type".toList line
          (if (head.headers "content-type".toList).length > 0 then
            head.headers "content-type".toList else "application/json".toList) := by
      split <;> rename_i filled
      · exact Or.inr (found.values _ (List.length_pos_iff.mp filled))
      · exact Or.inl rfl
    have located : head.headers "location".toList = [] ∨ ∃ line ∈ headLines p,
        FieldOf "location".toList line (head.headers "location".toList) :=
      or_iff_not_imp_left.mpr (found.values _)
    unfold readResponse at read
    rw [loop] at read
    dsimp only at read
    refine ⟨p, rx', whole, Or.inl block, ?_⟩
    split at read
    · split at read <;> rename_i body <;> obtain rfl := Except.ok.inj read
      · obtain ⟨tail, behind, _⟩ := readBytes_found body
        exact ⟨found.code, typed, Or.inl rfl, behind ▸ List.sublist_append_left _ tail, rfl, rfl,
          rfl⟩
      · obtain ⟨tail, behind, _⟩ := readBytes_found body
        exact ⟨found.code, typed, located, behind ▸ List.sublist_append_left _ tail, rfl, rfl, rfl⟩
    · split at read <;> obtain rfl := Except.ok.inj read
      · obtain ⟨more, same, inside⟩ := chunkLoop_found net garbage [] rx'
        refine ⟨found.code, typed, located, ?_, rfl, rfl, rfl⟩
        show (chunkLoop net garbage [] rx').Sublist rx'
        rw [same]
        exact inside
      · exact ⟨found.code, typed, located, List.nil_sublist _, rfl, rfl, rfl⟩
  · unfold readResponse at read
    rw [loop] at read
    obtain rfl := Except.ok.inj read
    exact ⟨rx, [], (List.append_nil rx).symm, Or.inr ⟨rfl, none⟩, found.code, Or.inl rfl,
      Or.inl rfl, List.nil_sublist _, rfl, rfl, rfl⟩
  · unfold readResponse at read
    rw [loop] at read
    cases read

theorem response_found_cut : CodeOf (headLines "HTTP/1.1 200 OK\r\nDate: ".toList) 200 := by
  obtain ⟨p, rest, whole, header, code, _⟩ :=
    response_found (RoundTrip.readResponse_cut fullNet 0)
  rcases header with block | ⟨rfl, _⟩
  · have inside : p <+: "HTTP/1.1 200 OK\r\nDate: ".toList := ⟨rest, whole.symm⟩
    have two := (block.1.sublist.trans List.filter_sublist).count_le '\n'
    have one := inside.sublist.count_le '\n'
    exact absurd (two.trans one) (by decide)
  · rw [List.append_nil] at whole
    rwa [whole]

end Solusek.Client
