import Solusek.Lib.Utf8

/-!
# JSON texts

The grammar of JSON over the bytes of a text, with what each text denotes. Bytes above ASCII
stand for themselves in a string; an escape denotes the UTF-8 of a code point. A surrogate that
is not one of a pair denotes nothing.
-/

namespace Solusek.Json

inductive Datum where
  | null
  | bool (b : Bool)
  | number (digits : List Char)
  | string (s : List Char)
  | array (items : List Datum)
  | object (members : List (List Char × Datum))

def space (c : Char) : Bool := c == ' ' || c == '\t' || c == '\n' || c == '\r'

def Space (w : List Char) : Prop := ∀ c ∈ w, space c = true

/-! ### Strings -/

/-- What a backslash and this symbol denote. -/
def escaped : Char → Option Char
  | '"' => some '"'
  | '\\' => some '\\'
  | '/' => some '/'
  | 'b' => some '\x08'
  | 'f' => some '\x0c'
  | 'n' => some '\n'
  | 'r' => some '\r'
  | 't' => some '\t'
  | _ => none

def hexDigit (c : Char) : Option Nat :=
  if '0' ≤ c ∧ c ≤ '9' then some (c.toNat - 48)
  else if 'a' ≤ c ∧ c ≤ 'f' then some (c.toNat - 87)
  else if 'A' ≤ c ∧ c ≤ 'F' then some (c.toNat - 55)
  else none

def hex4 : List Char → Option Nat
  | [a, b, c, d] => do
    return (((← hexDigit a) * 16 + (← hexDigit b)) * 16 + (← hexDigit c)) * 16 + (← hexDigit d)
  | _ => none

/-- What stands between the quotes of a string, and the text it denotes. -/
inductive Chars : List Char → List Char → Prop where
  | nil : Chars [] []
  | plain {c : Char} {raw s : List Char} (printed : 0x20 ≤ c.toNat) (solid : c ≠ '"' ∧ c ≠ '\\')
      (rest : Chars raw s) : Chars (c :: raw) (c :: s)
  | escape {e c : Char} {raw s : List Char} (known : escaped e = some c) (rest : Chars raw s) :
      Chars ('\\' :: e :: raw) (c :: s)
  | unicode {h raw s : List Char} {n : Nat} (digits : hex4 h = some n)
      (scalar : n < 0xD800 ∨ 0xDFFF < n) (rest : Chars raw s) :
      Chars ('\\' :: 'u' :: (h ++ raw)) (Utf8.bytes (Char.ofNat n) ++ s)
  | pair {h l raw s : List Char} {m n : Nat} (first : hex4 h = some m)
      (high : 0xD800 ≤ m ∧ m ≤ 0xDBFF) (second : hex4 l = some n)
      (low : 0xDC00 ≤ n ∧ n ≤ 0xDFFF) (rest : Chars raw s) :
      Chars ('\\' :: 'u' :: (h ++ '\\' :: 'u' :: (l ++ raw)))
        (Utf8.bytes (Char.ofNat (0x10000 + (m - 0xD800) * 0x400 + (n - 0xDC00))) ++ s)

/-! ### Values -/

def Digits (s : List Char) : Prop := s ≠ [] ∧ ∀ c ∈ s, c.isDigit = true

inductive Number : List Char → Prop where
  | mk {sign int frac exp : List Char} (signed : sign = [] ∨ sign = ['-'])
      (whole : int = ['0'] ∨ Digits int ∧ int.head? ≠ some '0')
      (fraction : frac = [] ∨ ∃ d, Digits d ∧ frac = '.' :: d)
      (scaled : exp = [] ∨ ∃ e g d, (e = 'e' ∨ e = 'E') ∧ (g = [] ∨ g = ['+'] ∨ g = ['-']) ∧
        Digits d ∧ exp = e :: (g ++ d)) :
      Number (sign ++ (int ++ (frac ++ exp)))

mutual

inductive Value : List Char → Datum → Prop where
  | null : Value ['n', 'u', 'l', 'l'] .null
  | isTrue : Value ['t', 'r', 'u', 'e'] (.bool true)
  | isFalse : Value ['f', 'a', 'l', 's', 'e'] (.bool false)
  | number {s : List Char} (number : Number s) : Value s (.number s)
  | string {raw s : List Char} (chars : Chars raw s) : Value ('"' :: (raw ++ ['"'])) (.string s)
  | emptyArray {w : List Char} (blank : Space w) : Value ('[' :: (w ++ [']'])) (.array [])
  | array {s : List Char} {items : List Datum} (elements : Elements s items) :
      Value ('[' :: (s ++ [']'])) (.array items)
  | emptyObject {w : List Char} (blank : Space w) : Value ('\x7b' :: (w ++ ['\x7d'])) (.object [])
  | object {s : List Char} {members : List (List Char × Datum)} (inside : Members s members) :
      Value ('\x7b' :: (s ++ ['\x7d'])) (.object members)

/-- A value with white space around it; this is also a whole JSON text. -/
inductive Element : List Char → Datum → Prop where
  | mk {w s w' : List Char} {v : Datum} (left : Space w) (value : Value s v) (right : Space w') :
      Element (w ++ (s ++ w')) v

inductive Elements : List Char → List Datum → Prop where
  | last {s : List Char} {v : Datum} (element : Element s v) : Elements s [v]
  | more {s rest : List Char} {v : Datum} {items : List Datum} (element : Element s v)
      (behind : Elements rest items) : Elements (s ++ ',' :: rest) (v :: items)

inductive Member : List Char → List Char → Datum → Prop where
  | mk {w raw name w' s : List Char} {v : Datum} (left : Space w) (chars : Chars raw name)
      (right : Space w') (element : Element s v) :
      Member (w ++ '"' :: (raw ++ '"' :: (w' ++ ':' :: s))) name v

inductive Members : List Char → List (List Char × Datum) → Prop where
  | last {s name : List Char} {v : Datum} (member : Member s name v) : Members s [(name, v)]
  | more {s rest name : List Char} {v : Datum} {members : List (List Char × Datum)}
      (member : Member s name v) (behind : Members rest members) :
      Members (s ++ ',' :: rest) ((name, v) :: members)

end

/-! ### White space -/

theorem space_unique {w w' r r' : List Char} {c c' : Char} (blank : Space w) (blank' : Space w')
    (solid : space c = false) (solid' : space c' = false) (same : w ++ c :: r = w' ++ c' :: r') :
    w = w' ∧ c = c' ∧ r = r' := by
  induction w generalizing w' with
  | nil =>
    cases w' with
    | nil =>
      obtain ⟨head, tail⟩ := List.cons.inj same
      exact ⟨rfl, head, tail⟩
    | cons d w' =>
      have spaced := blank' d List.mem_cons_self
      rw [← (List.cons.inj same).1, solid] at spaced
      cases spaced
  | cons d w ih =>
    cases w' with
    | nil =>
      have spaced := blank d List.mem_cons_self
      rw [(List.cons.inj same).1, solid'] at spaced
      cases spaced
    | cons d' w' =>
      obtain ⟨rfl, later⟩ := List.cons.inj same
      obtain ⟨rfl, rest⟩ := ih (fun c member => blank c (List.mem_cons_of_mem _ member))
        (fun c member => blank' c (List.mem_cons_of_mem _ member)) later
      exact ⟨rfl, rest⟩

theorem space_nil : Space [] := fun _ member => absurd member List.not_mem_nil

/-! ### Reading a string -/

theorem hex4_length {h : List Char} {n : Nat} (digits : hex4 h = some n) : h.length = 4 := by
  unfold hex4 at digits
  split at digits
  · rfl
  · cases digits

theorem hex4_unique {h h' t t' : List Char} {n n' : Nat} (digits : hex4 h = some n)
    (digits' : hex4 h' = some n') (same : h ++ t = h' ++ t') : h = h' ∧ n = n' ∧ t = t' := by
  have lengths : h.length = h'.length := (hex4_length digits).trans (hex4_length digits').symm
  obtain ⟨rfl, behind⟩ := List.append_inj same lengths
  rw [digits] at digits'
  exact ⟨rfl, Option.some.inj digits', behind⟩

theorem chars_unique {raw raw' s s' rest rest' : List Char} (chars : Chars raw s)
    (chars' : Chars raw' s') (same : raw ++ '"' :: rest = raw' ++ '"' :: rest') :
    raw = raw' ∧ s = s' ∧ rest = rest' := by
  induction chars generalizing raw' s' with
  | nil =>
    cases chars' with
    | nil => exact ⟨rfl, rfl, (List.cons.inj same).2⟩
    | plain printed solid behind => exact absurd (List.cons.inj same).1.symm solid.1
    | _ => cases same
  | @plain c raw s printed solid behind ih =>
    cases chars' with
    | nil => exact absurd (List.cons.inj same).1 solid.1
    | plain printed' solid' behind' =>
      obtain ⟨rfl, later⟩ := List.cons.inj same
      obtain ⟨rfl, rfl, rest⟩ := ih behind' later
      exact ⟨rfl, rfl, rest⟩
    | _ => exact absurd (List.cons.inj same).1 solid.2
  | @escape e c raw s known behind ih =>
    cases chars' with
    | nil => cases same
    | plain printed' solid' behind' => exact absurd (List.cons.inj same).1.symm solid'.2
    | escape known' behind' =>
      obtain ⟨rfl, later⟩ := List.cons.inj (List.cons.inj same).2
      obtain ⟨rfl, rfl, rest⟩ := ih behind' later
      rw [known] at known'
      exact ⟨rfl, by rw [Option.some.inj known'], rest⟩
    | _ =>
      rw [(List.cons.inj (List.cons.inj same).2).1] at known
      cases known
  | @unicode h raw s n digits scalar behind ih =>
    cases chars' with
    | nil => cases same
    | plain printed' solid' behind' => exact absurd (List.cons.inj same).1.symm solid'.2
    | escape known' behind' =>
      rw [← (List.cons.inj (List.cons.inj same).2).1] at known'
      cases known'
    | unicode digits' scalar' behind' =>
      simp only [List.cons_append, List.append_assoc, List.cons.injEq, true_and] at same
      obtain ⟨rfl, rfl, later⟩ := hex4_unique digits digits' same
      obtain ⟨rfl, rfl, rest⟩ := ih behind' later
      exact ⟨rfl, rfl, rest⟩
    | pair first' high' second' low' behind' =>
      simp only [List.cons_append, List.append_assoc, List.cons.injEq, true_and] at same
      obtain ⟨rfl, rfl, _⟩ := hex4_unique digits first' same
      omega
  | @pair h l raw s m n first high second low behind ih =>
    cases chars' with
    | nil => cases same
    | plain printed' solid' behind' => exact absurd (List.cons.inj same).1.symm solid'.2
    | escape known' behind' =>
      rw [← (List.cons.inj (List.cons.inj same).2).1] at known'
      cases known'
    | unicode digits' scalar' behind' =>
      simp only [List.cons_append, List.append_assoc, List.cons.injEq, true_and] at same
      obtain ⟨rfl, rfl, _⟩ := hex4_unique first digits' same
      omega
    | pair first' high' second' low' behind' =>
      simp only [List.cons_append, List.append_assoc, List.cons.injEq, true_and] at same
      obtain ⟨rfl, rfl, later⟩ := hex4_unique first first' same
      simp only [List.cons.injEq, true_and] at later
      obtain ⟨rfl, rfl, later⟩ := hex4_unique second second' later
      obtain ⟨rfl, rfl, rest⟩ := ih behind' later
      exact ⟨rfl, rfl, rest⟩

/-! ### A string with its quotes escaped -/

open Utf8 (marked marked_same marked_other marked_plain)

theorem marked_append (mark q : Char) (a b : List Char) :
    marked mark q (a ++ b) = marked mark q a ++ marked mark q b := List.flatMap_append

theorem marked_bytes_length (c : Char) : (marked '\\' '"' (Utf8.bytes c)).length ≤ 4 := by
  by_cases ascii : c.toNat < 128
  · rw [Utf8.bytes_ascii ascii]
    by_cases same : c = '"' <;> simp [marked, same]
  · have plain : '"' ∉ Utf8.bytes c := by
      intro member
      exact absurd (Utf8.bytes_high (Nat.le_of_not_lt ascii) _ member) (by decide)
    have same : marked '\\' '"' (Utf8.bytes c ++ []) = _ := marked_plain plain []
    rw [List.append_nil] at same
    rw [same]
    simpa [marked] using Utf8.bytes_length_le c

theorem marked_length_cons (c : Char) (s : List Char) :
    (marked '\\' '"' s).length + 1 ≤ (marked '\\' '"' (c :: s)).length ∧
      (marked '\\' '"' (c :: s)).length ≤ (marked '\\' '"' s).length + 2 := by
  by_cases same : c = '"'
  · subst same
    simp [marked_same]
  · simp [marked_other same]

/-- No way to write a text as a string is shorter than its quotes escaped. -/
theorem Chars.marked_length_le {raw s : List Char} (chars : Chars raw s) :
    (marked '\\' '"' s).length ≤ raw.length := by
  induction chars with
  | nil => exact le_rfl
  | plain printed solid rest ih =>
    rw [marked_other solid.1, List.length_cons, List.length_cons]
    exact Nat.succ_le_succ ih
  | @escape e c raw s known rest ih =>
    have bound := (marked_length_cons c s).2
    simp only [List.length_cons]
    omega
  | @unicode h raw s n digits scalar rest ih =>
    have bound := marked_bytes_length (Char.ofNat n)
    simp only [marked_append, List.length_append, List.length_cons, hex4_length digits]
    omega
  | pair first high second low rest ih =>
    rw [marked_append, List.length_append]
    have bound := marked_bytes_length
    simp only [List.length_append, List.length_cons, hex4_length first, hex4_length second]
    exact (Nat.add_le_add (bound _) ih).trans (by omega)

/-- A text that is written as short as that needs no other escape. -/
theorem Chars.plain_of_short {raw s : List Char} (chars : Chars raw s)
    (short : raw.length ≤ (marked '\\' '"' s).length) : ∀ c ∈ s, c ≠ '\\' ∧ 0x20 ≤ c.toNat := by
  induction chars with
  | nil => exact fun c member => absurd member List.not_mem_nil
  | @plain c raw s printed solid rest ih =>
    rw [marked_other solid.1, List.length_cons, List.length_cons] at short
    exact List.forall_mem_cons.mpr ⟨⟨solid.2, printed⟩, ih (Nat.le_of_succ_le_succ short)⟩
  | @escape e c raw s known rest ih =>
    have behind := rest.marked_length_le
    by_cases quote : c = '"'
    · subst quote
      rw [marked_same] at short
      simp only [List.length_cons] at short
      exact List.forall_mem_cons.mpr ⟨by decide, ih (by omega)⟩
    · rw [marked_other quote] at short
      simp only [List.length_cons] at short
      omega
  | @unicode h raw s n digits scalar rest ih =>
    have behind := rest.marked_length_le
    have bound := marked_bytes_length (Char.ofNat n)
    simp only [marked_append, List.length_append, List.length_cons, hex4_length digits] at short
    omega
  | pair first high second low rest ih =>
    have behind := rest.marked_length_le
    rw [marked_append, List.length_append] at short
    simp only [List.length_append, List.length_cons, hex4_length first, hex4_length second] at short
    exact absurd (short.trans (Nat.add_le_add (marked_bytes_length _) behind)) (by omega)

theorem chars_marked_iff (s : List Char) :
    Chars (marked '\\' '"' s) s ↔ ∀ c ∈ s, c ≠ '\\' ∧ 0x20 ≤ c.toNat := by
  constructor
  · intro chars
    exact chars.plain_of_short le_rfl
  · intro plain
    induction s with
    | nil => exact .nil
    | cons c s ih =>
      obtain ⟨⟨solid, printed⟩, later⟩ := List.forall_mem_cons.mp plain
      by_cases quote : c = '"'
      · subst quote
        rw [marked_same]
        exact .escape rfl (ih later)
      · rw [marked_other quote]
        exact .plain printed ⟨quote, solid⟩ (ih later)

/-! ### Reading a value -/

theorem Number.head {s : List Char} (number : Number s) :
    ∃ c t, s = c :: t ∧ (c = '-' ∨ c.isDigit = true) := by
  obtain @⟨sign, int, frac, exp, signed, whole, _, _⟩ := number
  rcases signed with rfl | rfl
  · rcases whole with rfl | ⟨⟨nonempty, digits⟩, _⟩
    · exact ⟨_, _, rfl, Or.inr rfl⟩
    · obtain ⟨c, t, rfl⟩ := List.exists_cons_of_ne_nil nonempty
      exact ⟨_, _, rfl, Or.inr (digits c List.mem_cons_self)⟩
  · exact ⟨_, _, rfl, Or.inl rfl⟩

theorem Number.apart {c : Char} {s : List Char} (number : Number (c :: s)) :
    space c = false ∧ c ≠ '"' ∧ c ≠ '\x7b' := by
  obtain ⟨d, t, same, start⟩ := number.head
  obtain ⟨rfl, _⟩ := List.cons.inj same
  rcases start with rfl | digit
  · decide
  · refine ⟨?_, ?_, ?_⟩
    · by_contra spaced
      simp only [space, Bool.not_eq_false, Bool.or_eq_true, beq_iff_eq] at spaced
      rcases spaced with ((rfl | rfl) | rfl) | rfl <;> exact absurd digit (by decide)
    · rintro rfl
      exact absurd digit (by decide)
    · rintro rfl
      exact absurd digit (by decide)

theorem Value.head {s : List Char} {v : Datum} (value : Value s v) :
    ∃ c t, s = c :: t ∧ space c = false := by
  cases value with
  | number number =>
    obtain ⟨c, t, rfl, _⟩ := number.head
    exact ⟨c, t, rfl, number.apart.1⟩
  | _ => exact ⟨_, _, rfl, rfl⟩

theorem Value.quote {t : List Char} {v : Datum} (value : Value ('"' :: t) v) :
    ∃ raw s, t = raw ++ ['"'] ∧ Chars raw s ∧ v = .string s := by
  generalize whole : '"' :: t = text at value
  cases value with
  | number number =>
    subst whole
    exact absurd rfl number.apart.2.1
  | string chars => exact ⟨_, _, (List.cons.inj whole).2, chars, rfl⟩
  | _ => cases whole

theorem Value.brace {t : List Char} {v : Datum} (value : Value ('\x7b' :: t) v) :
    (∃ w, Space w ∧ t = w ++ ['\x7d'] ∧ v = .object []) ∨
      ∃ s members, Members s members ∧ t = s ++ ['\x7d'] ∧ v = .object members := by
  generalize whole : '\x7b' :: t = text at value
  cases value with
  | number number =>
    subst whole
    exact absurd rfl number.apart.2.2
  | emptyObject blank => exact Or.inl ⟨_, blank, (List.cons.inj whole).2, rfl⟩
  | object inside => exact Or.inr ⟨_, _, inside, (List.cons.inj whole).2, rfl⟩
  | _ => cases whole

/-- A text that starts with a value starts with it whatever white space is in front. -/
theorem Element.start {e rest w t : List Char} {c : Char} {v : Datum} (element : Element e v)
    (blank : Space w) (solid : space c = false) (whole : e ++ rest = w ++ c :: t) :
    ∃ s w', Value (c :: s) v ∧ Space w' ∧ t = s ++ (w' ++ rest) := by
  obtain @⟨w₁, s, w₂, v, left, value, right⟩ := element
  obtain ⟨d, s, rfl, solid'⟩ := value.head
  have same : w₁ ++ d :: (s ++ (w₂ ++ rest)) = w ++ c :: t := by
    rw [← whole]
    simp
  obtain ⟨_, rfl, rfl⟩ := space_unique left blank solid' solid same
  exact ⟨s, w₂, value, right, rfl⟩

theorem Member.string {m rest w w' raw t name name' : List Char} {v : Datum}
    (member : Member m name' v) (left : Space w) (chars : Chars raw name) (right : Space w')
    (whole : m ++ rest = w ++ '"' :: (raw ++ '"' :: ':' :: (w' ++ '"' :: t))) :
    name' = name ∧ ∃ raw' s w'', Chars raw' s ∧ v = .string s ∧ Space w'' ∧
      t = raw' ++ '"' :: (w'' ++ rest) := by
  obtain @⟨w₁, raw₁, name', w₂, e, v, left', chars', right', element⟩ := member
  have same : w₁ ++ '"' :: (raw₁ ++ '"' :: (w₂ ++ ':' :: (e ++ rest))) =
      w ++ '"' :: (raw ++ '"' :: ([] ++ ':' :: (w' ++ '"' :: t))) := by
    rw [List.nil_append, ← whole]
    simp
  obtain ⟨_, _, same⟩ := space_unique left' left rfl rfl same
  obtain ⟨_, rfl, same⟩ := chars_unique chars' chars same
  obtain ⟨_, _, same⟩ := space_unique right' space_nil rfl rfl same
  obtain ⟨s, w₃, value, blank, rfl⟩ := element.start right rfl same
  obtain ⟨raw', d, rfl, inside, rfl⟩ := value.quote
  exact ⟨rfl, raw', d, w₃, inside, rfl, blank, by simp⟩

theorem Members.string {s rest w w' raw t name : List Char} {members : List (List Char × Datum)}
    (inside : Members s members) (left : Space w) (chars : Chars raw name) (right : Space w')
    (whole : s ++ rest = w ++ '"' :: (raw ++ '"' :: ':' :: (w' ++ '"' :: t))) :
    ∃ raw' d w'' behind, Chars raw' d ∧ Space w'' ∧ t = raw' ++ '"' :: (w'' ++ behind) ∧
      ((members = [(name, .string d)] ∧ behind = rest) ∨
        ∃ s' later, Members s' later ∧ members = (name, .string d) :: later ∧
          behind = ',' :: (s' ++ rest)) := by
  cases inside with
  | last member =>
    obtain ⟨rfl, raw', d, w'', chars', rfl, blank, rfl⟩ := member.string left chars right whole
    exact ⟨raw', d, w'', rest, chars', blank, rfl, Or.inl ⟨rfl, rfl⟩⟩
  | @more m s' name' v later member behind =>
    rw [List.append_assoc, List.cons_append] at whole
    obtain ⟨rfl, raw', d, w'', chars', rfl, blank, rfl⟩ := member.string left chars right whole
    exact ⟨raw', d, w'', _, chars', blank, rfl, Or.inr ⟨s', later, behind, rfl, rfl⟩⟩

theorem Members.ne_nil {s : List Char} {members : List (List Char × Datum)}
    (inside : Members s members) : members ≠ [] := by
  cases inside <;> exact List.cons_ne_nil _ _

theorem chars_of_plain {s : List Char} (plain : ∀ c ∈ s, 0x20 ≤ c.toNat ∧ c ≠ '"' ∧ c ≠ '\\') :
    Chars s s := by
  induction s with
  | nil => exact .nil
  | cons c s ih =>
    obtain ⟨⟨printed, solid⟩, later⟩ := List.forall_mem_cons.mp plain
    exact .plain printed solid (ih later)

theorem member_of_strings {w w' w'' raw name raw' s : List Char} (left : Space w)
    (chars : Chars raw name) (between : Space w') (chars' : Chars raw' s) (right : Space w'') :
    Member (w ++ '"' :: (raw ++ '"' :: ':' :: (w' ++ '"' :: (raw' ++ '"' :: w'')))) name
      (.string s) := by
  have element := Element.mk between (Value.string chars') right
  have member := Member.mk left chars space_nil element
  simpa using member

end Solusek.Json
