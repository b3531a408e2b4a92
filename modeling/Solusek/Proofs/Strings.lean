import Solusek.Lib.Decimal
import Solusek.Lib.Texts
import Solusek.Model.StringUtil

/-!
# Facts about strings
-/

namespace Solusek

theorem bind_ok {ε : Type*} {α β : Type} {x : Except ε α} {f : α → Except ε β} {b : β}
    (h : x >>= f = .ok b) : ∃ a, x = .ok a ∧ f a = .ok b := by
  cases x with
  | error e => exact absurd h (by simp [bind, Except.bind])
  | ok a => exact ⟨a, rfl, h⟩

theorem bind_error {ε : Type*} {α β : Type} {x : Except ε α} {f : α → Except ε β} {e : ε}
    (thrown : x >>= f = .error e) : x = .error e ∨ ∃ a, f a = .error e := by
  cases x with
  | error e' => exact Or.inl (congrArg _ (Except.error.inj thrown))
  | ok a => exact Or.inr ⟨a, thrown⟩

theorem bind_total {ε : Type*} {α β : Type} {x : Except ε α} {f : α → Except ε β}
    (first : ∃ a, x = .ok a) (rest : ∀ a, ∃ b, f a = .ok b) : ∃ b, x >>= f = .ok b := by
  obtain ⟨a, rfl⟩ := first
  exact rest a

/-! ### Searching and cutting -/

theorem find_le {pat s : Str} {n : Nat} (found : find pat s = some n) :
    n + pat.length ≤ s.length := by
  induction s generalizing n with
  | nil =>
    unfold find at found
    split at found <;> rename_i empty
    · obtain rfl := Option.some.inj found
      simp [empty]
    · cases found
  | cons c s ih =>
    unfold find at found
    split at found <;> rename_i start
    · obtain rfl := Option.some.inj found
      have below := (List.isPrefixOf_iff_prefix.mp start).length_le
      omega
    · obtain ⟨m, inside, rfl⟩ := Option.map_eq_some_iff.mp found
      have below := ih inside
      rw [List.length_cons]
      omega

theorem findChar_lt {s : Str} {c : Char} {n : Nat} (found : findChar s c = some n) :
    n < s.length :=
  (List.idxOf?_eq_some_iff.mp found).1

theorem not_infix_of_find {pat s : Str} (absent : find pat s = none) : ¬ pat <:+: s := by
  induction s with
  | nil =>
    intro inside
    have empty : pat = [] := List.infix_nil.mp inside
    simp [find, empty] at absent
  | cons c s ih =>
    unfold find at absent
    split at absent
    · exact absurd absent (by simp)
    · rename_i start
      intro inside
      rcases List.infix_cons_iff.mp inside with here | later
      · exact start (List.isPrefixOf_iff_prefix.mpr here)
      · exact ih (by simpa using absent) later

theorem find_eq_none {pat s : Str} (absent : ¬ pat <:+: s) : find pat s = none := by
  induction s with
  | nil =>
    have nonempty : pat ≠ [] := by
      rintro rfl
      exact absent List.infix_rfl
    simp [find, nonempty]
  | cons c s ih =>
    have start : ¬ pat.isPrefixOf (c :: s) = true :=
      fun starts => absent (List.isPrefixOf_iff_prefix.mp starts).isInfix
    unfold find
    rw [if_neg start, ih fun inside => absent (inside.trans (List.suffix_cons c s).isInfix)]
    rfl

theorem nul_not_mem_cstr (s : Str) : '\x00' ∉ cstr s := by
  intro member
  have kept := List.mem_takeWhile_imp member
  simp at kept

theorem cstr_eq {s : Str} (terminated : '\x00' ∉ s) : cstr s = s := by
  apply List.takeWhile_eq_self_iff.mpr
  intro c member
  simpa using fun same : c = '\x00' => terminated (same ▸ member)

theorem cstr_ended (s rest : Str) : cstr (s ++ '\x00' :: rest) = cstr s := by
  induction s with
  | nil => rfl
  | cons c s ih =>
    unfold cstr at ih ⊢
    rw [List.cons_append, List.takeWhile_cons, List.takeWhile_cons, ih]

theorem cstr_eq_take {s : Str} {k : Nat} (more : k < s.length) (same : cstr s = s.take k) :
    s[k]? = some '\x00' := by
  by_cases nul : '\x00' ∈ s
  · obtain ⟨a, b, rfl, plain⟩ := List.eq_append_cons_of_mem nul
    rw [cstr_ended, cstr_eq plain] at same
    have length := congrArg List.length same
    rw [List.length_take_of_le more.le] at length
    rw [← length, List.getElem?_append_right le_rfl, Nat.sub_self]
    rfl
  · rw [cstr_eq nul] at same
    have length := congrArg List.length same
    rw [List.length_take] at length
    omega

theorem cstr_of_nul {s : Str} {k : Nat} (plain : '\x00' ∉ s.take k) (nul : s[k]? = some '\x00') :
    cstr s = s.take k := by
  obtain ⟨inside, same⟩ := List.getElem?_eq_some_iff.mp nul
  have split : s = s.take k ++ '\x00' :: s.drop (k + 1) := by
    rw [← same, ← List.drop_eq_getElem_cons, List.take_append_drop]
  conv_lhs => rw [split]
  rw [cstr_ended, cstr_eq plain]

theorem substr_thrown {s : Str} {pos : Nat} {n : Option Nat} {e : Exn}
    (thrown : substr s pos n = .error e) : e = .outOfRange := by
  unfold substr at thrown
  split at thrown
  · exact (Except.error.inj thrown).symm
  · cases thrown

theorem substr_inside {s : Str} {pos : Nat} (inside : pos ≤ s.length) (n : Option Nat) :
    ∃ t, substr s pos n = .ok t := by
  unfold substr
  rw [if_neg (Nat.not_lt.mpr inside)]
  exact ⟨_, rfl⟩

theorem substr_subset {s u : Str} {pos : Nat} {n : Option Nat} (cut : substr s pos n = .ok u) :
    u ⊆ s := by
  unfold substr at cut
  split at cut
  · cases cut
  · rw [← Except.ok.inj cut]
    cases n with
    | none => exact List.drop_subset pos s
    | some n => exact List.Subset.trans (List.take_subset n _) (List.drop_subset pos s)

theorem substr_prefix {s t : Str} {n : Option Nat} (cut : substr s 0 n = .ok t) : t <+: s := by
  simp only [substr, Nat.not_lt_zero, if_false, List.drop_zero] at cut
  have same := Except.ok.inj cut
  subst same
  cases n with
  | none => exact List.prefix_rfl
  | some n => exact List.take_prefix n s

theorem findChar_append {p : Str} {c : Char} (absent : c ∉ p) (rest : Str) :
    findChar (p ++ c :: rest) c = some p.length := by
  unfold findChar
  rw [List.idxOf?_eq_some_iff]
  refine ⟨by simp, by simp, ?_⟩
  intro j before same
  rw [List.getElem_append_left before] at same
  exact absent (same ▸ List.getElem_mem before)

theorem findChar_none {s : Str} {c : Char} (absent : c ∉ s) : findChar s c = none :=
  List.idxOf?_eq_none_iff.mpr absent

theorem substr_left (p rest : Str) : substr (p ++ rest) 0 (some p.length) = .ok p := by
  simp [substr]

theorem substr_behind (p : Str) (c : Char) (rest : Str) :
    substr (p ++ c :: rest) (p.length + 1) = .ok rest := by
  simp [substr]

theorem findLastOf_append (p : Str) {c : Char} {rest : Str} (absent : c ∉ rest) :
    findLastOf (p ++ c :: rest) c = some p.length := by
  have back : (p ++ c :: rest).reverse = rest.reverse ++ c :: p.reverse := by simp
  have found := findChar_append (mt List.mem_reverse.mp absent) p.reverse
  unfold findChar at found
  rw [findLastOf, back, found, Option.map_some, List.length_append, List.length_cons,
    List.length_reverse]
  congr 1
  omega

theorem sizeToInt_small {n : Nat} (small : n < 2 ^ 31) : sizeToInt n = n :=
  Int.bmod_eq_of_le (by omega) (by omega)

theorem sizeToInt_wrapped {n : Nat} (low : 2 ^ 31 ≤ n) (high : n < 2 ^ 32) :
    sizeToInt n = n - 2 ^ 32 := by
  unfold sizeToInt Int.bmod
  rw [if_neg (by omega)]
  omega

theorem sizeToInt_large {n : Nat} (low : 2 ^ 31 ≤ n) (high : n < 2 ^ 32) : sizeToInt n < 0 := by
  rw [sizeToInt_wrapped low high]
  omega

theorem intSucc_small {n : Nat} (small : n + 1 < 2 ^ 31) : intSucc n = (n + 1 : Nat) :=
  Int.bmod_eq_of_le (by omega) (by omega)

theorem toSize_natCast {n : Nat} (small : n < 2 ^ 64) : toSize n = n := by
  unfold toSize
  omega

/-! ### Letter case -/

/-- A search result kept in an `int`, and what is cut off on both sides of it. -/
theorem substr_cut {p : Str} {c : Char} (absent : c ∉ p) (short : p.length + 1 < 2 ^ 31)
    (rest : Str) :
    toInt (findChar (p ++ c :: rest) c) ≠ -1 ∧
      substr (p ++ c :: rest) 0 (some (toSize (toInt (findChar (p ++ c :: rest) c)))) = .ok p ∧
      substr (p ++ c :: rest) (toSize (intSucc (toInt (findChar (p ++ c :: rest) c)))) = .ok rest := by
  have position : toInt (findChar (p ++ c :: rest) c) = p.length := by
    rw [findChar_append absent]
    exact sizeToInt_small (by omega)
  rw [position, intSucc_small short, toSize_natCast (by omega), toSize_natCast (by omega)]
  exact ⟨by omega, substr_left p _, substr_behind p c rest⟩

theorem toLower_toNat (c : Char) :
    c.toLower.toNat = if 65 ≤ c.toNat ∧ c.toNat ≤ 90 then c.toNat + 32 else c.toNat := by
  have bounds : (c.val ≥ 'A'.val ∧ c.val ≤ 'Z'.val) ↔ 65 ≤ c.toNat ∧ c.toNat ≤ 90 := by
    simp [UInt32.le_iff_toNat_le]
  unfold Char.toLower
  split
  · rename_i upper
    rw [if_pos (bounds.mp upper)]
    have range := bounds.mp upper
    have sum : (c.val + ('a'.val - 'A'.val)).toNat = c.toNat + 32 := by
      rw [UInt32.toNat_add]
      simp only [Char.toNat_val]
      have gap : ('a'.val - 'A'.val).toNat = 32 := rfl
      omega
    exact sum
  · rename_i other
    rw [if_neg fun range => other (bounds.mpr range)]

theorem toLower_toLower (c : Char) : c.toLower.toLower = c.toLower := by
  apply Char.toNat_inj.mp
  rw [toLower_toNat, toLower_toNat]
  split
  · split <;> omega
  · rfl

theorem toLower_eq_iff {c d : Char} (other : d.toNat < 65) : c.toLower = d ↔ c = d := by
  rw [← Char.toNat_inj, ← Char.toNat_inj, toLower_toNat]
  split <;> omega

theorem strtolower_lower (s : Str) : (strtolower s).map Char.toLower = s.map Char.toLower := by
  have twice : Char.toLower ∘ Char.toLower = Char.toLower := funext toLower_toLower
  unfold strtolower
  rw [List.map_append, List.map_map, twice, ← List.map_append, List.take_append_drop]

theorem strtolower_short {s : Str} (short : s.length < 2 ^ 31) :
    strtolower s = s.map Char.toLower := by
  simp [strtolower, sizeToInt_small short]

theorem strtolower_of_lower (s : Str) :
    strtolower (s.map Char.toLower) = s.map Char.toLower := by
  have twice : Char.toLower ∘ Char.toLower = Char.toLower := funext toLower_toLower
  simp only [strtolower]
  rw [List.map_take, List.map_map, twice, List.take_append_drop]

/-! ### White space -/

/-- No white space at either end. -/
def Trimmed (s : Str) : Prop :=
  (∀ c ∈ s.head?, isspace c = false) ∧ ∀ c ∈ s.getLast?, isspace c = false

theorem trim_padded {p s q : Str} (before : ∀ c ∈ p, isspace c = true) (trimmed : Trimmed s)
    (after : ∀ c ∈ q, isspace c = true) : trim (p ++ s ++ q) = s :=
  Texts.strip_padded before trimmed.1 trimmed.2 after

/-! ### Numbers -/

theorem trim_inside (s : Str) : trim s <:+: s := by
  have left : ltrim s <:+: s := (List.dropWhile_suffix _).isInfix
  have right : rtrim (ltrim s) <:+: ltrim s := by
    refine List.reverse_infix.mp ?_
    rw [rtrim, List.reverse_reverse]
    exact (List.dropWhile_suffix _).isInfix
  exact right.trans left

theorem infix_trim {pat s : Str} (solid : ∀ c ∈ pat, isspace c = false) (found : pat <:+: s) :
    pat <:+: trim s := by
  have left : pat <:+: ltrim s := Texts.infix_dropWhile solid found
  have back : pat.reverse <:+: (ltrim s).reverse := List.reverse_infix.mpr left
  have solid' : ∀ c ∈ pat.reverse, isspace c = false := fun c member =>
    solid c (List.mem_reverse.mp member)
  refine List.reverse_infix.mp ?_
  rw [trim, rtrim, List.reverse_reverse]
  exact Texts.infix_dropWhile solid' back

theorem isspace_above {c : Char} (above : 32 < c.toNat) : isspace c = false := by
  have apart : c ≠ ' ' := by
    rintro rfl
    exact absurd above (by decide)
  have high : ¬ c ≤ '\r' := by
    rw [Char.le_def, UInt32.le_iff_toNat_le]
    have bound : '\r'.val.toNat = 13 := rfl
    simp only [Char.toNat_val] at bound ⊢
    omega
  simp [isspace, apart, high]

theorem isspace_digit {c : Char} (digit : c.isDigit = true) : isspace c = false := by
  have range : 48 ≤ c.toNat ∧ c.toNat ≤ 57 := by
    simpa [Char.isDigit, UInt32.le_iff_toNat_le] using digit
  exact isspace_above (by omega)

theorem strtol_digits {t rest : Str} (digits : ∀ c ∈ t, c.isDigit = true) (nonempty : t ≠ [])
    (stop : ∀ c ∈ rest.head?, c.isDigit = false) :
    strtol (t ++ rest) = min (2 ^ 63 - 1) (Nat.ofDigitChars 10 t 0 : Int) := by
  have number : (t ++ rest).takeWhile Char.isDigit = t := by
    rw [List.takeWhile_append_of_pos digits]
    cases rest with
    | nil => simp
    | cons c rest => simp [stop c rfl]
  obtain ⟨d, t, rfl⟩ := List.exists_cons_of_ne_nil nonempty
  have digit := digits d List.mem_cons_self
  have start : (d :: t ++ rest).dropWhile isspace = d :: t ++ rest := by
    rw [List.cons_append, List.dropWhile_cons, if_neg (by simp [isspace_digit digit])]
  unfold strtol
  rw [start]
  split
  · rename_i minus
    rw [(List.cons.inj minus).1] at digit
    exact absurd digit (by decide)
  · rename_i plus
    rw [(List.cons.inj plus).1] at digit
    exact absurd digit (by decide)
  · rw [number]

theorem strtol_printNat (n : Nat) {rest : Str} (stop : ∀ c ∈ rest.head?, c.isDigit = false) :
    strtol (printNat n ++ rest) = min (2 ^ 63 - 1) (n : Int) := by
  have nonempty : printNat n ≠ [] := List.length_pos_iff.mp Nat.length_toDigits_pos
  have digits : ∀ c ∈ printNat n, c.isDigit = true := fun c member =>
    Decimal.isDigit_of_mem member
  rw [strtol_digits digits nonempty stop, printNat, Nat.ofDigitChars_ten_toDigits]

theorem read_printNat (n : Nat) :
    Nat.ofDigitChars 10 ((printNat n).takeWhile Char.isDigit) 0 = n := by
  have all := @Decimal.takeWhile_toDigits n [] (by simp)
  rw [List.append_nil] at all
  rw [printNat, all, Nat.ofDigitChars_ten_toDigits]

theorem strtol_minus (n : Nat) : strtol ('-' :: printNat n) = max (-2 ^ 63) (-(n : Int)) := by
  have start : ('-' :: printNat n).dropWhile isspace = '-' :: printNat n := rfl
  unfold strtol
  rw [start]
  simp only [read_printNat]

theorem atoi_printInt {n : Int} (low : -2 ^ 31 ≤ n) (high : n < 2 ^ 31) : atoi (printInt n) = n := by
  have read : strtol (printInt n) = n := by
    unfold printInt
    split
    · rw [strtol_minus]
      omega
    · have all := @strtol_printNat n.natAbs [] (by simp)
      rw [List.append_nil] at all
      rw [all]
      omega
  rw [atoi, read]
  exact Int.bmod_eq_of_le (by omega) (by omega)

theorem atoi_printNat_append {n : Nat} (small : n < 2 ^ 31) {rest : Str}
    (stop : ∀ c ∈ rest.head?, c.isDigit = false) : atoi (printNat n ++ rest) = n := by
  rw [atoi, strtol_printNat n stop, min_eq_right (by omega)]
  exact Int.bmod_eq_of_le (by omega) (by omega)

theorem atoi_printNat {n : Nat} (small : n < 2 ^ 31) : atoi (printNat n) = n := by
  have all := @atoi_printNat_append n small [] (by simp)
  rwa [List.append_nil] at all

/-! ### Printed texts -/

/-- Neither a part of a line end nor NUL. -/
def Printed (s : Str) : Prop := '\r' ∉ s ∧ '\n' ∉ s ∧ '\x00' ∉ s

instance (s : Str) : Decidable (Printed s) := inferInstanceAs (Decidable (_ ∧ _ ∧ _))

theorem printed_append {a b : Str} (first : Printed a) (second : Printed b) : Printed (a ++ b) := by
  obtain ⟨cr, lf, nul⟩ := first
  obtain ⟨cr', lf', nul'⟩ := second
  simp [Printed, cr, lf, nul, cr', lf', nul']

theorem printed_cons {c : Char} {s : Str} (other : c ≠ '\r' ∧ c ≠ '\n' ∧ c ≠ '\x00')
    (printed : Printed s) : Printed (c :: s) := by
  obtain ⟨cr, lf, nul⟩ := printed
  simp [Printed, cr, lf, nul, other.1.symm, other.2.1.symm, other.2.2.symm]

theorem printNat_printed (n : Nat) : Printed (printNat n) :=
  ⟨Decimal.not_mem_toDigits (by decide), Decimal.not_mem_toDigits (by decide),
    Decimal.not_mem_toDigits (by decide)⟩

theorem printNat_trimmed (n : Nat) : Trimmed (printNat n) := by
  constructor
  · intro c first
    exact isspace_digit (Decimal.isDigit_of_mem (List.mem_of_head? first))
  · intro c last
    exact isspace_digit (Decimal.isDigit_of_mem (List.mem_of_getLast? last))

theorem trim_space {s : Str} (trimmed : Trimmed s) : trim (' ' :: s) = s := by
  have space : ∀ c ∈ [' '], isspace c = true := by
    intro c member
    rw [List.mem_singleton.mp member]
    rfl
  have padded := @trim_padded [' '] s [] space trimmed (by simp)
  simpa using padded

end Solusek
