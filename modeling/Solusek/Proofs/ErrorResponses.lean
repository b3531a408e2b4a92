import Solusek.Lib.Json
import Solusek.Model.Message
import Solusek.Proofs.Replacement

/-!
# Error responses as JSON

`MErrorResponse` puts a message between quotes and escapes only the quotes in it. What comes
out is read back as the message exactly if nothing else in it needs an escape.
-/

namespace Solusek

open Json

/-- There is a way to read `body` as JSON, and each gives an object with these two members. -/
structure Carries (msg body : Str) : Prop where
  wellFormed : ∃ v, Element body v
  decoded : ∀ v, Element body v → ∃ members, v = .object members ∧
    (members.map Prod.fst).Perm ["code".toList, "message".toList] ∧
    ("message".toList, .string msg) ∈ members

/-- The text between the two values is the constructor's. -/
def errorBody (digits escaped : Str) : Str :=
  "\x7b \"code\": \"".toList ++ digits ++ "\", \"message\": \"".toList ++ escaped ++ "\" \x7d".toList

def quoted (s rest : Str) : Str := '"' :: (s ++ '"' :: rest)

/-- An object with two members whose values are strings, spaced as the constructor does it. -/
def twoMembers (name raw name' raw' : Str) : Str :=
  '\x7b' :: ' ' :: quoted name (':' :: ' ' :: quoted raw
    (',' :: ' ' :: quoted name' (':' :: ' ' :: quoted raw' [' ', '\x7d'])))

theorem errorBody_eq (digits escaped : Str) :
    errorBody digits escaped = twoMembers "code".toList digits "message".toList escaped := by
  have first : "\x7b \"code\": \"".toList =
      '\x7b' :: ' ' :: quoted "code".toList [':', ' ', '"'] := by decide
  have second : "\", \"message\": \"".toList =
      '"' :: ',' :: ' ' :: quoted "message".toList [':', ' ', '"'] := by decide
  have third : "\" \x7d".toList = ['"', ' ', '\x7d'] := by decide
  unfold errorBody
  rw [first, second, third]
  simp only [twoMembers, quoted, List.cons_append, List.append_assoc, List.nil_append]

theorem MErrorResponse_eq (code : Int) (msg : Str) :
    MErrorResponse code msg = some (.ok
      { Code := code, Body := errorBody (printInt code) (Utf8.marked '\\' '"' msg) }) := by
  obtain ⟨pieces, cut⟩ := Occurrences.Cut.exists_pieces (List.cons_ne_nil '"' []) msg
  have escaped : replaceAll msg "\"".toList "\\\"".toList =
      some (.ok (Utf8.marked '\\' '"' msg)) := by
    refine (replaceAll_cut (List.cons_ne_nil '"' []) cut ['\\', '"']).trans ?_
    rw [cut.intercalate_symbol]
    rfl
  rw [MErrorResponse, escaped]
  rfl

/-! ### Reading the body -/

theorem space_blank : Space [' '] := by
  intro c member
  rw [List.mem_singleton.mp member]
  rfl

theorem code_chars : Chars "code".toList "code".toList := chars_of_plain (by simp)

theorem message_chars : Chars "message".toList "message".toList := chars_of_plain (by simp)

section TwoMembers

variable {name value name' escaped : Str} {v : Datum}

/-- Whatever the text is read as, the second value starts where `escaped` does, and there is no
further member exactly if the object ends behind it. -/
theorem twoMembers_reads (named : Chars name name) (numeral : Chars value value)
    (named' : Chars name' name') (element : Element (twoMembers name value name' escaped) v) :
    ∃ raw message w rest members, Chars raw message ∧ Space w ∧
      escaped ++ '"' :: [' ', '\x7d'] = raw ++ '"' :: (w ++ rest) ∧
      v = .object ((name, .string value) :: (name', .string message) :: members) ∧
      ((members = [] ∧ ∃ b, Space b ∧ rest = '\x7d' :: b) ∨
        members ≠ [] ∧ ∃ t, rest = ',' :: t) := by
  obtain ⟨s, b, object, blank, whole⟩ :=
    @Element.start _ [] _ _ _ _ element space_nil rfl (List.append_nil _)
  rw [List.append_nil] at whole
  rcases object.brace with ⟨w, empty, rfl, rfl⟩ | ⟨inner, all, inside, rfl, rfl⟩
  · have same : [' '] ++ '"' :: (name ++ '"' :: _) = w ++ '\x7d' :: b := whole.trans (by simp)
    obtain ⟨_, wrong, _⟩ := space_unique space_blank empty rfl rfl same
    cases wrong
  · rw [List.append_assoc] at whole
    obtain ⟨raw, d, w, behind, chars, empty, split, rest⟩ :=
      @Members.string _ _ _ [' '] _ _ _ _ inside space_blank named space_blank whole.symm
    obtain ⟨rfl, rfl, tail⟩ := chars_unique numeral chars split
    rcases rest with ⟨_, rfl⟩ | ⟨s', later, inside', rfl, rfl⟩
    · obtain ⟨_, wrong, _⟩ := space_unique space_nil empty rfl rfl tail
      cases wrong
    · obtain ⟨_, _, tail⟩ := space_unique space_nil empty rfl rfl tail
      obtain ⟨raw, d, w, behind, chars, empty, split, rest⟩ :=
        @Members.string _ _ _ [' '] _ _ _ _ inside' space_blank named' space_blank tail.symm
      rcases rest with ⟨rfl, rfl⟩ | ⟨s'', more, inside'', rfl, rfl⟩
      · exact ⟨raw, d, w, _, [], chars, empty, split, rfl, Or.inl ⟨rfl, b, blank, rfl⟩⟩
      · exact ⟨raw, d, w, _, more, chars, empty, split, rfl, Or.inr ⟨inside''.ne_nil, _, rfl⟩⟩

theorem twoMembers_element {message : Str} (named : Chars name name) (numeral : Chars value value)
    (named' : Chars name' name') (chars : Chars escaped message) :
    Element (twoMembers name value name' escaped)
      (.object [(name, .string value), (name', .string message)]) := by
  have first := member_of_strings space_blank named space_blank numeral space_nil
  have second := member_of_strings space_blank named' space_blank chars space_blank
  have both := Value.object (.more first (.last second))
  have element := Element.mk space_nil both space_nil
  simpa [twoMembers, quoted] using element

end TwoMembers

theorem printInt_range {code : Int} {c : Char} (member : c ∈ printInt code) :
    45 ≤ c.toNat ∧ c.toNat ≤ 57 := by
  have sign : c = '-' ∨ c.isDigit = true := by
    unfold printInt at member
    split at member
    · rcases List.mem_cons.mp member with rfl | digit
      · exact Or.inl rfl
      · exact Or.inr (Decimal.isDigit_of_mem digit)
    · exact Or.inr (Decimal.isDigit_of_mem member)
  rcases sign with rfl | digit
  · decide
  · have range : 48 ≤ c.toNat ∧ c.toNat ≤ 57 := by
      simpa [Char.isDigit, UInt32.le_iff_toNat_le] using digit
    omega

theorem numeral_chars (code : Int) : Chars (printInt code) (printInt code) := by
  refine chars_of_plain fun c member => ?_
  have range := printInt_range member
  refine ⟨by omega, ?_, ?_⟩ <;> rintro rfl <;> exact absurd range (by decide)

theorem last_quote {a b t u : Str} (left : '"' ∉ t) (right : '"' ∉ u)
    (same : a ++ '"' :: t = b ++ '"' :: u) : a = b := by
  rcases List.append_eq_append_iff.mp same with ⟨m, rfl, tail⟩ | ⟨m, rfl, tail⟩
  all_goals
    cases m with
    | nil => simp
    | cons c m =>
      have later := (List.cons.inj tail).2
      subst later
      simp at left right

theorem carries_iff (code : Int) (msg : Str) :
    Carries msg (errorBody (printInt code) (Utf8.marked '\\' '"' msg)) ↔
      ∀ c ∈ msg, c ≠ '\\' ∧ 0x20 ≤ c.toNat := by
  rw [← chars_marked_iff, errorBody_eq]
  constructor
  · rintro ⟨⟨v, element⟩, decoded⟩
    obtain ⟨raw, message, w, rest, members, chars, empty, split, rfl, ended⟩ :=
      twoMembers_reads code_chars (numeral_chars code) message_chars element
    obtain ⟨all, same, names, member⟩ := decoded _ element
    obtain rfl := Datum.object.inj same
    have two := names.length_eq
    obtain ⟨rfl, b, blank, rfl⟩ := ended.resolve_right fun more => more.1 (by simpa using two)
    have denoted : msg = message := by simpa using member
    have plain : '"' ∉ w ++ '\x7d' :: b := by
      intro quote
      rcases List.mem_append.mp quote with inside | inside
      · exact absurd (empty _ inside) (by decide)
      · rcases List.mem_cons.mp inside with wrong | inside
        · cases wrong
        · exact absurd (blank _ inside) (by decide)
    rw [last_quote (by decide) plain split, denoted]
    exact chars
  · intro escapes
    refine ⟨⟨_, twoMembers_element code_chars (numeral_chars code) message_chars escapes⟩, ?_⟩
    intro v element
    obtain ⟨raw, message, w, rest, members, chars, empty, split, rfl, ended⟩ :=
      twoMembers_reads code_chars (numeral_chars code) message_chars element
    obtain ⟨rfl, rfl, tail⟩ := chars_unique escapes chars split
    rcases ended with ⟨rfl, _⟩ | ⟨_, t, rfl⟩
    · exact ⟨_, rfl, List.Perm.refl _, by simp⟩
    · have same : [' '] ++ '\x7d' :: [] = w ++ ',' :: t := tail
      obtain ⟨_, wrong, _⟩ := space_unique space_blank empty rfl rfl same
      cases wrong

theorem errorBody_valid_iff (code : Int) (msg : Str) :
    Utf8.Valid (errorBody (printInt code) (Utf8.marked '\\' '"' msg)) ↔ Utf8.Valid msg := by
  have first : ∀ c ∈ "\x7b \"code\": \"".toList, c.toNat < 128 := by simp
  have second : ∀ c ∈ "\", \"message\": \"".toList, c.toNat < 128 := by simp
  have front : ∀ c ∈ "\x7b \"code\": \"".toList ++ printInt code ++ "\", \"message\": \"".toList,
      c.toNat < 128 := by
    intro c member
    rcases List.mem_append.mp member with inside | inside
    · rcases List.mem_append.mp inside with inside | digit
      · exact first c inside
      · have range := printInt_range digit
        omega
    · exact second c inside
  have third : "\" \x7d".toList = '"' :: [' ', '\x7d'] := by decide
  have ending : Utf8.Valid [' ', '\x7d'] := ⟨[' ', '\x7d'], by decide⟩
  unfold errorBody
  rw [third, List.append_assoc _ (Utf8.marked '\\' '"' msg), Utf8.valid_append front,
    Utf8.valid_append_cons (by decide), Utf8.valid_marked (by decide) (by decide)]
  exact and_iff_left ending

/-- The body carries the message exactly if no backslash and no control character is in it.
Bytes above ASCII are taken over as they are, so it is UTF-8 exactly if the message is. -/
theorem errorResponse_carries_iff (code : Int) (msg : Str) :
    ((∃ response, MErrorResponse code msg = some (.ok response) ∧ Carries msg response.Body) ↔
      ∀ c ∈ msg, c ≠ '\\' ∧ 0x20 ≤ c.toNat) ∧
    ∀ response, MErrorResponse code msg = some (.ok response) →
      (Utf8.Valid response.Body ↔ Utf8.Valid msg) := by
  rw [MErrorResponse_eq, ← carries_iff code msg]
  refine ⟨⟨?_, fun carries => ⟨_, rfl, carries⟩⟩, ?_⟩
  · rintro ⟨response, same, carries⟩
    obtain rfl := Except.ok.inj (Option.some.inj same)
    exact carries
  · intro response same
    obtain rfl := Except.ok.inj (Option.some.inj same)
    exact errorBody_valid_iff code msg

/-- A backslash escapes the closing quote. -/
theorem errorResponse_backslash :
    ¬ ∀ (code : Int) (msg : Str),
      ∃ response, MErrorResponse code msg = some (.ok response) ∧ Carries msg response.Body := by
  intro claim
  obtain ⟨response, same, carries⟩ := claim 400 ['\\']
  rw [MErrorResponse_eq] at same
  obtain rfl := Except.ok.inj (Option.some.inj same)
  have solid := (carries_iff 400 ['\\']).mp carries '\\' List.mem_cons_self
  exact solid.1 rfl

end Solusek
