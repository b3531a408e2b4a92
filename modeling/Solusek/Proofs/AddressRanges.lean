import Solusek.Lib.Texts
import Solusek.Model.Listener
import Solusek.Proofs.Strings

/-!
# Ranges of addresses

`isAddrInRange` cuts all three texts where the last dot of `from` is. So a longer third octet
passes for a shorter one that it begins with, and `to` may end at the cut.
-/

namespace Solusek.Listening

open Texts

/-- A canonical dotted-quad address. -/
structure Quad where
  a : Fin 256
  b : Fin 256
  c : Fin 256
  d : Fin 256
  deriving DecidableEq, Repr

namespace Quad

/-- The first three octets. -/
def net (q : Quad) : Fin 256 × Fin 256 × Fin 256 := (q.a, q.b, q.c)

/-- The text before the last dot. -/
def head (q : Quad) : Str := printNat q.a ++ '.' :: (printNat q.b ++ '.' :: printNat q.c)

def text (q : Quad) : Str := q.head ++ '.' :: printNat q.d

end Quad

/-- No exception, and within one network the answer is whether `addr` is in the range. -/
def RangeExact (addr lower upper : Quad) : Prop :=
  ∃ inside, isAddrInRange addr.text lower.text upper.text = .ok inside ∧
    (upper.net = lower.net →
      (inside = true ↔ addr.net = lower.net ∧ lower.d ≤ addr.d ∧ addr.d ≤ upper.d))

/-- The digits of the third octet of `addr` begin with those of `lower`, behind the same two
octets. -/
def Passes (addr lower : Quad) : Prop :=
  addr.a = lower.a ∧ addr.b = lower.b ∧ printNat lower.c <+: printNat addr.c

/-- What is taken for the last octet where the third one is longer than that of `lower`. -/
def misread (addr lower : Quad) : Nat :=
  if lower.c.val < 10 ∧ 100 ≤ addr.c.val then addr.c.val % 10 else 0

/-! ### Octets -/

theorem octet_length (n : Fin 256) : (printNat n).length ≤ 3 :=
  (Nat.length_toDigits_le_iff (by decide) (by decide)).mpr (by omega)

theorem octet_plain (n : Nat) : '.' ∉ printNat n := Decimal.not_mem_toDigits (by decide)

theorem head_length (q : Quad) : q.head.length < 2 ^ 32 - 1 := by
  have a := octet_length q.a
  have b := octet_length q.b
  have c := octet_length q.c
  simp only [Quad.head, List.length_append, List.length_cons]
  omega

theorem printNat_inj {m n : Fin 256} (same : printNat m = printNat n) : m = n :=
  Fin.ext (Decimal.toDigits_injective same)

theorem passes_iff {addr lower : Quad} : lower.head <+: addr.text ↔ Passes addr lower := by
  have text : addr.text = printNat addr.a ++ '.' :: (printNat addr.b ++
      '.' :: (printNat addr.c ++ '.' :: printNat addr.d)) := by
    simp [Quad.text, Quad.head]
  unfold Passes Quad.head
  rw [text, prefix_append_cons (octet_plain _) (octet_plain _),
    prefix_append_cons (octet_plain _) (octet_plain _)]
  refine and_congr ?_ (and_congr ?_ ?_)
  · exact ⟨fun same => (printNat_inj same).symm, fun same => by rw [same]⟩
  · exact ⟨fun same => (printNat_inj same).symm, fun same => by rw [same]⟩
  · constructor
    · intro cut
      rcases prefix_append_cases cut with ⟨inside, _⟩ | ⟨rest, whole, first⟩
      · exact inside
      · match rest with
        | [] => exact ⟨[], by rw [whole, List.append_nil, List.append_nil]⟩
        | x :: rest =>
          have dot : x = '.' := (List.cons_prefix_cons.mp first).1
          refine absurd ?_ (octet_plain lower.c)
          rw [whole, dot]
          exact List.mem_append_right _ List.mem_cons_self
    · exact fun cut => cut.trans (List.prefix_append _ _)

/-- An address that passes has the same network, or digits behind those of the third octet. -/
theorem Passes.cases {addr lower : Quad} (passes : Passes addr lower) :
    (addr.net = lower.net ∧ addr.text = lower.head ++ '.' :: printNat addr.d) ∨
    ∃ y e, printNat addr.c = printNat lower.c ++ y :: e ∧ addr.c ≠ lower.c ∧
      addr.text = lower.head ++ y :: (e ++ '.' :: printNat addr.d) := by
  obtain ⟨first, second, e, third⟩ := passes
  match e with
  | [] =>
    rw [List.append_nil] at third
    have equal := printNat_inj third
    refine .inl ⟨?_, ?_⟩
    · rw [Quad.net, Quad.net, first, second, equal]
    · rw [Quad.text, Quad.head, Quad.head, first, second, equal]
  | y :: e =>
    refine .inr ⟨y, e, third.symm, fun same => ?_, ?_⟩
    · rw [same] at third
      exact List.cons_ne_nil y e (List.append_right_eq_self.mp third)
    · simp [Quad.text, Quad.head, first, second, ← third]

theorem passes_of_net {addr lower : Quad} (same : addr.net = lower.net) : Passes addr lower := by
  obtain ⟨first, rest⟩ := Prod.mk.inj same
  obtain ⟨second, third⟩ := Prod.mk.inj rest
  exact ⟨first, second, [], by rw [third, List.append_nil]⟩

/-! ### What is read -/

/-- How a last octet is read. -/
def lastRead (rest : Str) : Int := toShort (atoi (cstr rest))

theorem toShort_octet {n : Nat} (small : n < 256) : toShort n = n :=
  Int.bmod_eq_of_le (by omega) (by omega)

theorem lastRead_octet {n : Nat} (small : n < 256) : lastRead (printNat n) = n := by
  rw [lastRead, cstr_eq (printNat_printed n).2.2, atoi_printNat (by omega), toShort_octet small]

theorem lastRead_digit {n : Nat} (small : n < 256) (rest : Str) :
    lastRead (printNat n ++ '.' :: rest) = n := by
  have plain : ∀ c ∈ printNat n, (c != '\x00') = true := by
    intro c member
    exact bne_iff_ne.mpr fun same => (printNat_printed n).2.2 (same ▸ member)
  have cut : cstr (printNat n ++ '.' :: rest) = printNat n ++ '.' :: cstr rest := by
    unfold cstr
    rw [List.takeWhile_append_of_pos plain]
    rfl
  have stop : ∀ c ∈ ('.' :: cstr rest).head?, c.isDigit = false := by
    intro c first
    rw [← Option.some.inj first]
    rfl
  rw [lastRead, cut, atoi_printNat_append (by omega) stop, toShort_octet small]

theorem lastRead_dot (rest : Str) : lastRead ('.' :: rest) = 0 := by
  have cut : cstr ('.' :: rest) = '.' :: cstr rest := rfl
  have zero : strtol ('.' :: cstr rest) = 0 := rfl
  rw [lastRead, cut, atoi, zero]
  rfl

theorem printNat_last {n : Nat} (long : 10 ≤ n) :
    printNat n = printNat (n / 10) ++ printNat (n % 10) := by
  have digit : printNat (n % 10) = [Nat.digitChar (n % 10)] :=
    Nat.toDigits_of_lt_base (Nat.mod_lt n (by decide))
  rw [digit]
  exact Nat.toDigits_of_base_le (by decide) long

theorem lastRead_misread {addr lower : Quad} {y : Char} {e : Str}
    (longer : printNat addr.c = printNat lower.c ++ y :: e) :
    lastRead (e ++ '.' :: printNat addr.d) = misread addr lower := by
  have counted := congrArg List.length longer
  rw [List.length_append, List.length_cons] at counted
  have few := octet_length addr.c
  have nonempty : 0 < (printNat lower.c).length := Nat.length_toDigits_pos
  have one : (printNat lower.c).length ≤ 1 ↔ lower.c.val < 10 ^ 1 :=
    Nat.length_toDigits_le_iff (by decide) (by decide)
  have two : (printNat addr.c).length ≤ 2 ↔ addr.c.val < 10 ^ 2 :=
    Nat.length_toDigits_le_iff (by decide) (by decide)
  unfold misread
  match e with
  | [] =>
    rw [List.length_nil] at counted
    rw [List.nil_append, lastRead_dot, if_neg (by omega)]
    rfl
  | [w] =>
    rw [List.length_singleton] at counted
    have last : [w] = printNat (addr.c.val % 10) := by
      have whole := @printNat_last addr.c.val (by omega)
      rw [longer, List.append_cons] at whole
      have digit : printNat (addr.c.val % 10) = [Nat.digitChar (addr.c.val % 10)] :=
        Nat.toDigits_of_lt_base (by omega)
      exact (List.append_inj' whole (by rw [digit]; rfl)).2
    rw [last, lastRead_digit (by omega), if_pos (by omega)]
  | _ :: _ :: e =>
    rw [List.length_cons, List.length_cons] at counted
    omega

/-! ### The answer -/

section

variable {head last : Str}

theorem cut_at (dot : '.' ∉ last) (short : head.length < 2 ^ 32 - 1) :
    toUnsigned (findLastOf (head ++ '.' :: last) '.') = head.length := by
  rw [findLastOf_append head dot]
  exact Nat.mod_eq_of_lt (by omega)

theorem isAddrInRange_missed {addr To : Str} (dot : '.' ∉ last)
    (short : head.length < 2 ^ 32 - 1) (missed : To.length < head.length ∨ ¬ head <+: addr) :
    isAddrInRange addr (head ++ '.' :: last) To = .ok false := by
  have apart (pass : ¬ To.length < head.length) : head ≠ addr.take head.length := fun same =>
    missed.elim pass fun other => other (List.prefix_iff_eq_take.mpr same)
  unfold isAddrInRange
  have begun : substr addr 0 (some head.length) = .ok (addr.take head.length) := by
    rw [substr, if_neg (Nat.not_lt_zero _)]
    rfl
  simp only [cut_at dot short, substr_left, begun, bind, Except.bind, pure, Except.pure]
  split
  · rfl
  · rename_i pass
    rw [if_pos (apart pass)]

theorem isAddrInRange_passed (x : Char) (rest : Str) {To : Str} (dot : '.' ∉ last)
    (short : head.length < 2 ^ 32 - 1) (long : head.length ≤ To.length) :
    isAddrInRange (head ++ x :: rest) (head ++ '.' :: last) To =
      if To.length = head.length then .error .outOfRange
      else .ok (decide (lastRead rest ≤ lastRead (To.drop (head.length + 1))) &&
        decide (lastRead rest ≥ lastRead last)) := by
  unfold isAddrInRange
  have next : (head.length + 1) % 2 ^ 32 = head.length + 1 := Nat.mod_eq_of_lt (by omega)
  simp only [cut_at dot short, next, substr_left, substr_behind, bind, Except.bind, pure,
    Except.pure, ne_eq, not_true_eq_false, if_false]
  rw [if_neg (by omega)]
  by_cases ended : To.length = head.length
  · rw [if_pos ended, substr, if_pos (by omega)]
  · rw [if_neg ended, substr, if_neg (by omega)]
    rfl

end

/-! ### Any three addresses -/

theorem text_length (q : Quad) : q.text.length = q.head.length + 1 + (printNat q.d).length := by
  rw [Quad.text, List.length_append, List.length_cons]
  omega

theorem head_of_net {q r : Quad} (same : q.net = r.net) : q.head = r.head := by
  obtain ⟨first, rest⟩ := Prod.mk.inj same
  obtain ⟨second, third⟩ := Prod.mk.inj rest
  rw [Quad.head, Quad.head, first, second, third]

theorem lastRead_upper {lower upper : Quad} (same : upper.net = lower.net) :
    lower.head.length < upper.text.length ∧
      lastRead (upper.text.drop (lower.head.length + 1)) = upper.d.val := by
  rw [← head_of_net same]
  refine ⟨by rw [text_length]; omega, ?_⟩
  rw [Quad.text, List.drop_length_add_append, List.drop_one, List.tail_cons,
    lastRead_octet upper.d.isLt]

theorem decide_range {l u n : Nat} :
    (decide ((n : Int) ≤ u) && decide ((n : Int) ≥ l)) = true ↔ l ≤ n ∧ n ≤ u := by
  rw [Bool.and_eq_true, decide_eq_true_iff, decide_eq_true_iff]
  omega

/-- Where the test of the first octets fails, the address is in no range with this network. -/
theorem range_missed {addr lower upper : Quad}
    (missed : upper.text.length < lower.head.length ∨ ¬ Passes addr lower) :
    RangeExact addr lower upper := by
  have no := isAddrInRange_missed (octet_plain lower.d) (head_length lower)
    (missed.imp_right (mt passes_iff.mp))
  refine ⟨false, no, fun same => ⟨(nomatch ·), fun inside => ?_⟩⟩
  have long := (lastRead_upper same).1
  rcases missed with short | other
  · omega
  · exact absurd (passes_of_net inside.1) other

section

variable {addr lower upper : Quad} {x : Char} {rest : Str}

theorem range_thrown (cut : addr.text = lower.head ++ x :: rest)
    (ended : upper.text.length = lower.head.length) : ¬ RangeExact addr lower upper := by
  rintro ⟨inside, answer, _⟩
  rw [cut, Quad.text, isAddrInRange_passed x rest (octet_plain _) (head_length lower) ended.ge,
    if_pos ended] at answer
  exact nomatch answer

theorem range_read (cut : addr.text = lower.head ++ x :: rest) {n : Nat} (read : lastRead rest = n)
    (long : lower.head.length < upper.text.length) :
    RangeExact addr lower upper ↔ (upper.net = lower.net → (lower.d.val ≤ n ∧ n ≤ upper.d.val ↔
      addr.net = lower.net ∧ lower.d ≤ addr.d ∧ addr.d ≤ upper.d)) := by
  have answer := isAddrInRange_passed x rest (octet_plain lower.d) (head_length lower) long.le
  rw [if_neg (by omega), ← cut, read, lastRead_octet lower.d.isLt] at answer
  unfold RangeExact
  constructor
  · rintro ⟨inside, given, told⟩ same
    rw [show lower.text = lower.head ++ '.' :: printNat lower.d from rfl, answer,
      (lastRead_upper same).2] at given
    rw [← told same, ← Except.ok.inj given]
    exact decide_range.symm
  · intro told
    refine ⟨_, answer, fun same => ?_⟩
    rw [(lastRead_upper same).2, ← told same]
    exact decide_range

end

/-- The answer is exact unless `addr` begins with the text of `from` before its last dot, and
`to` ends there, or the two are a range that holds the number misread behind a longer third
octet. -/
theorem range_exact_iff (addr lower upper : Quad) :
    RangeExact addr lower upper ↔
      (Passes addr lower → upper.text.length ≠ lower.head.length ∧
        (upper.net = lower.net → addr.c ≠ lower.c →
          ¬ (lower.d.val ≤ misread addr lower ∧ misread addr lower ≤ upper.d.val))) := by
  by_cases missed : upper.text.length < lower.head.length ∨ ¬ Passes addr lower
  · refine iff_of_true (range_missed missed) fun passes => ⟨?_, fun same => ?_⟩
    · have short := missed.resolve_right (not_not_intro passes)
      omega
    · have short := missed.resolve_right (not_not_intro passes)
      have long := (lastRead_upper same).1
      omega
  · obtain ⟨reached, passes⟩ := not_or.mp missed
    have passes := not_not.mp passes
    rw [forall_prop_of_true passes]
    rcases passes.cases with ⟨same, cut⟩ | ⟨y, e, longer, other, cut⟩
    · by_cases ended : upper.text.length = lower.head.length
      · exact iff_of_false (range_thrown cut ended) fun holds => holds.1 ended
      · have equal : addr.c = lower.c := (Prod.mk.inj (Prod.mk.inj same).2).2
        rw [range_read cut (lastRead_octet addr.d.isLt) (by omega)]
        refine iff_of_true (fun _ => ?_) ⟨ended, fun _ other => absurd equal other⟩
        rw [and_iff_right same]
        rfl
    · by_cases ended : upper.text.length = lower.head.length
      · exact iff_of_false (range_thrown cut ended) fun holds => holds.1 ended
      · have apart : ¬ (addr.net = lower.net ∧ lower.d ≤ addr.d ∧ addr.d ≤ upper.d) := fun inside =>
          other (Prod.mk.inj (Prod.mk.inj inside.1).2).2
        rw [range_read cut (lastRead_misread longer) (by omega), and_iff_right ended]
        refine forall_congr' fun same => ?_
        rw [iff_false_right apart, forall_prop_of_true other]

/-- `1.2.30.7` passes for an address from `1.2.3.0` to `1.2.3.10`, and is refused or let in with
them. -/
theorem longer_octet_covered : ¬ ∀ addr lower upper : Quad, RangeExact addr lower upper := by
  intro claim
  have read := @range_read ⟨1, 2, 30, 7⟩ ⟨1, 2, 3, 0⟩ ⟨1, 2, 3, 10⟩ '0' ".7".toList (by decide) 0
    (lastRead_dot _) (by decide)
  exact absurd (read.mp (claim _ _ _) rfl) (by decide)

end Solusek.Listening
