import Mathlib

/-!
# UTF-8 as a text of bytes

A byte is the `Char` of its number. A text stays UTF-8, or stays something else, when a mark is
put in front of each occurrence of an ASCII symbol.
-/

namespace Solusek.Utf8

def bytes (c : Char) : List Char := (String.utf8EncodeChar c).map fun b => Char.ofNat b.toNat

def encode (cs : List Char) : List Char := cs.flatMap bytes

def Valid (s : List Char) : Prop := ∃ cs, s = encode cs

theorem bytes_ascii {c : Char} (ascii : c.toNat < 128) : bytes c = [c] := by
  have low : c.val.toNat ≤ 0x7f := by
    rw [Char.toNat_val]
    omega
  have one : String.utf8EncodeChar c = [UInt8.ofNat c.toNat] := if_pos low
  have small : (UInt8.ofNat c.toNat).toNat = c.toNat := UInt8.toNat_ofNat_of_lt' (by
    rw [UInt8.size]
    omega)
  rw [bytes, one, List.map_singleton, small, Char.ofNat_toNat]

theorem toNat_ofNat_byte {n : Nat} (byte : n < 256) : (Char.ofNat n).toNat = n := by
  rw [Char.ofNat, dif_pos (Or.inl (by omega))]
  rfl

theorem bytes_high {c : Char} (high : 128 ≤ c.toNat) : ∀ b ∈ bytes c, 128 ≤ b.toNat := by
  intro b member
  have above : ¬ c.val.toNat ≤ 0x7f := by
    rw [Char.toNat_val]
    omega
  obtain ⟨x, inside, rfl⟩ := List.mem_map.mp member
  have big : 128 ≤ x.toNat := by
    unfold String.utf8EncodeChar at inside
    simp only [if_neg above] at inside
    split at inside
    · simp only [List.mem_cons, List.not_mem_nil, or_false] at inside
      rcases inside with rfl | rfl <;> rw [UInt8.toNat_ofNat'] <;> omega
    · split at inside <;> simp only [List.mem_cons, List.not_mem_nil, or_false] at inside
      · rcases inside with rfl | rfl | rfl <;> rw [UInt8.toNat_ofNat'] <;> omega
      · rcases inside with rfl | rfl | rfl | rfl <;> rw [UInt8.toNat_ofNat'] <;> omega
  rw [toNat_ofNat_byte x.toNat_lt]
  exact big

theorem bytes_length_le (c : Char) : (bytes c).length ≤ 4 := by
  rw [bytes, List.length_map, String.length_utf8EncodeChar]
  exact c.utf8Size_le_four

theorem bytes_ne_nil (c : Char) : bytes c ≠ [] := by
  intro empty
  exact String.utf8EncodeChar_ne_nil (List.map_eq_nil_iff.mp empty)

theorem encode_cons (c : Char) (cs : List Char) : encode (c :: cs) = bytes c ++ encode cs :=
  List.flatMap_cons

theorem Valid.append {s : List Char} (c : Char) : Valid s → Valid (bytes c ++ s) := by
  rintro ⟨cs, rfl⟩
  exact ⟨c :: cs, (encode_cons c cs).symm⟩

theorem valid_nil : Valid [] := ⟨[], rfl⟩

theorem exists_bytes {c : Char} {s : List Char} (valid : Valid (c :: s)) :
    ∃ d more rest, bytes d = c :: more ∧ s = more ++ rest ∧ Valid rest := by
  obtain ⟨cs, whole⟩ := valid
  cases cs with
  | nil => cases whole
  | cons d ds =>
    rw [encode_cons] at whole
    cases split : bytes d with
    | nil => exact absurd split (bytes_ne_nil d)
    | cons b more =>
      rw [split] at whole
      obtain ⟨rfl, rest⟩ := List.cons.inj whole
      exact ⟨d, more, encode ds, split, rest, ds, rfl⟩

theorem valid_cons {c : Char} {s : List Char} (ascii : c.toNat < 128) :
    Valid (c :: s) ↔ Valid s := by
  constructor
  · intro valid
    obtain ⟨d, more, rest, front, rfl, behind⟩ := exists_bytes valid
    have low : d.toNat < 128 := by
      by_contra high
      have big := bytes_high (Nat.le_of_not_lt high) c (front ▸ List.mem_cons_self)
      omega
    rw [bytes_ascii low] at front
    rw [← (List.cons.inj front).2]
    exact behind
  · intro valid
    have more := valid.append c
    rwa [bytes_ascii ascii] at more

theorem valid_append {s rest : List Char} (ascii : ∀ c ∈ s, c.toNat < 128) :
    Valid (s ++ rest) ↔ Valid rest := by
  induction s with
  | nil => rfl
  | cons c s ih =>
    rw [List.cons_append, valid_cons (ascii c List.mem_cons_self)]
    exact ih fun d member => ascii d (List.mem_cons_of_mem _ member)

theorem not_mem_more {c d e : Char} {more : List Char} (high : ¬ c.toNat < 128)
    (front : bytes d = c :: more) (ascii : e.toNat < 128) : e ∉ more := by
  have above : 128 ≤ d.toNat := by
    by_contra small
    rw [bytes_ascii (Nat.lt_of_not_le small)] at front
    obtain ⟨rfl, _⟩ := List.cons.inj front
    exact high (Nat.lt_of_not_le small)
  intro member
  have big := bytes_high above e (front ▸ List.mem_cons_of_mem _ member)
  omega

/-- No code point goes past an ASCII symbol. -/
theorem valid_append_cons {c : Char} (ascii : c.toNat < 128) (s t : List Char) :
    Valid (s ++ c :: t) ↔ Valid s ∧ Valid t := by
  induction n : s.length using Nat.strong_induction_on generalizing s with
  | _ n ih =>
    subst n
    cases s with
    | nil =>
      rw [List.nil_append, valid_cons ascii]
      exact ⟨fun valid => ⟨valid_nil, valid⟩, And.right⟩
    | cons x s =>
      by_cases low : x.toNat < 128
      · rw [List.cons_append, valid_cons low, valid_cons low]
        exact ih s.length (Nat.lt_succ_self _) s rfl
      constructor
      · intro valid
        obtain ⟨d, more, rest, front, whole, behind⟩ := exists_bytes valid
        have apart := not_mem_more low front ascii
        have inside : ∃ m, s = more ++ m ∧ rest = m ++ c :: t := by
          rcases List.append_eq_append_iff.mp whole with ⟨m, rfl, tail⟩ | ⟨m, rfl, tail⟩
          · cases m with
            | nil => exact ⟨[], by simp, tail.symm⟩
            | cons b m =>
              obtain ⟨rfl, _⟩ := List.cons.inj tail
              exact absurd (by simp) apart
          · exact ⟨m, rfl, tail⟩
        obtain ⟨m, rfl, rfl⟩ := inside
        obtain ⟨first, second⟩ := (ih m.length (by simp) m rfl).mp behind
        rw [← List.cons_append, ← front]
        exact ⟨first.append d, second⟩
      · rintro ⟨valid, second⟩
        obtain ⟨d, more, rest, front, rfl, behind⟩ := exists_bytes valid
        have valid := (ih rest.length (by simp) rest rfl).mpr ⟨behind, second⟩
        rw [List.cons_append, List.append_assoc, ← List.cons_append, ← front]
        exact valid.append d

/-! ### Marks -/

section Marks

variable {mark q : Char}

def marked (mark q : Char) (s : List Char) : List Char :=
  s.flatMap fun c => if c = q then [mark, q] else [c]

theorem marked_same (s : List Char) : marked mark q (q :: s) = mark :: q :: marked mark q s := by
  simp [marked]

theorem marked_other {c : Char} (other : c ≠ q) (s : List Char) :
    marked mark q (c :: s) = c :: marked mark q s := by
  simp [marked, other]

theorem marked_plain {s : List Char} (plain : q ∉ s) (rest : List Char) :
    marked mark q (s ++ rest) = s ++ marked mark q rest := by
  induction s with
  | nil => rfl
  | cons c s ih =>
    obtain ⟨other, inside⟩ := List.ne_and_not_mem_of_not_mem_cons plain
    rw [List.cons_append, marked_other (Ne.symm other), ih inside, List.cons_append]

theorem marked_cut {s more rest : List Char} (unmarked : mark ∉ more)
    (whole : marked mark q s = more ++ rest) (plain : q ∉ more) :
    ∃ t, s = more ++ t ∧ rest = marked mark q t := by
  induction more generalizing s with
  | nil => exact ⟨s, rfl, whole.symm⟩
  | cons b more ih =>
    obtain ⟨notMark, later'⟩ := List.ne_and_not_mem_of_not_mem_cons unmarked
    obtain ⟨_, plain'⟩ := List.ne_and_not_mem_of_not_mem_cons plain
    cases s with
    | nil => cases whole
    | cons c s =>
      by_cases same : c = q
      · subst same
        rw [marked_same] at whole
        exact absurd (List.cons.inj whole).1 notMark
      · rw [marked_other same] at whole
        obtain ⟨rfl, later⟩ := List.cons.inj whole
        obtain ⟨t, rfl, rest⟩ := ih later' later plain'
        exact ⟨t, rfl, rest⟩

theorem valid_marked (markAscii : mark.toNat < 128) (ascii : q.toNat < 128) (s : List Char) :
    Valid (marked mark q s) ↔ Valid s := by
  induction n : s.length using Nat.strong_induction_on generalizing s with
  | _ n ih =>
    subst n
    cases s with
    | nil => rfl
    | cons c s =>
      have shorter := ih s.length (Nat.lt_succ_self _) s rfl
      by_cases same : c = q
      · subst same
        rw [marked_same, valid_cons markAscii, valid_cons ascii, valid_cons ascii]
        exact shorter
      rw [marked_other same]
      by_cases low : c.toNat < 128
      · rw [valid_cons low, valid_cons low]
        exact shorter
      constructor
      · intro valid
        obtain ⟨d, more, rest, front, whole, behind⟩ := exists_bytes valid
        obtain ⟨t, rfl, rfl⟩ := marked_cut (not_mem_more low front markAscii) whole
          (not_mem_more low front ascii)
        have valid := (ih t.length (by simp) t rfl).mp behind
        rw [← List.cons_append, ← front]
        exact valid.append d
      · intro valid
        obtain ⟨d, more, rest, front, rfl, behind⟩ := exists_bytes valid
        have valid := (ih rest.length (by simp) rest rfl).mpr behind
        rw [marked_plain (not_mem_more low front ascii), ← List.cons_append, ← front]
        exact valid.append d

end Marks

end Solusek.Utf8
