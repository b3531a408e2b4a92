import Mathlib

/-!
# Strings and numbers of the C++ sources

A `std::string` is the list of its bytes, each byte a `Char`. A `size_t` position is a
`Nat`; the result of a search is an `Option Nat`, where `none` is `std::string::npos`.
-/

namespace Solusek

abbrev Str := List Char

/-- What the sources throw. -/
inductive Exn where
  | int (r : Int)
  | exception
  | outOfRange
  | runtimeError (what : Str)
  deriving DecidableEq, Repr

/-- The bytes of `s` up to its first NUL: what a `const char *` to `s` denotes. -/
def cstr (s : Str) : Str := s.takeWhile (· != '\x00')

/-- `s.find(c)`. -/
def findChar (s : Str) (c : Char) : Option Nat := s.idxOf? c

/-- `s.find_last_of(c)`. -/
def findLastOf (s : Str) (c : Char) : Option Nat :=
  (s.reverse.idxOf? c).map (s.length - 1 - ·)

/-- `s.find(pat)`. -/
def find (pat : Str) : Str → Option Nat
  | [] => if pat = [] then some 0 else none
  | c :: s => if pat.isPrefixOf (c :: s) then some 0 else (find pat s).map (· + 1)

/-- `s.find(pat, pos)`. -/
def findFrom (pat s : Str) (pos : Nat) : Option Nat :=
  if s.length < pos then none else (find pat (s.drop pos)).map (· + pos)

/-- `s.substr(pos, n)`; `n = none` is `npos`. -/
def substr (s : Str) (pos : Nat) (n : Option Nat := none) : Except Exn Str :=
  if s.length < pos then .error .outOfRange
  else .ok (match n with
    | none => s.drop pos
    | some n => (s.drop pos).take n)

/-- `p + 1` on a search result: `npos + 1` wraps to 0. -/
def posSucc : Option Nat → Nat
  | none => 0
  | some p => p + 1

/-- A search result stored in an `unsigned int`. -/
def toUnsigned : Option Nat → Nat
  | none => 2 ^ 32 - 1
  | some p => p % 2 ^ 32

/-- A `size_t` value stored in an `int`. -/
def sizeToInt (n : Nat) : Int := (n : Int).bmod (2 ^ 32)

/-- A search result stored in an `int`. -/
def toInt : Option Nat → Int
  | none => -1
  | some p => sizeToInt p

theorem sizeToInt_range (n : Nat) : -2 ^ 31 ≤ sizeToInt n ∧ sizeToInt n < 2 ^ 31 := by
  have low := @Int.le_bmod (n : Int) (2 ^ 32) (Nat.two_pow_pos 32)
  have high := @Int.bmod_lt (n : Int) (2 ^ 32) (Nat.two_pow_pos 32)
  unfold sizeToInt
  omega

theorem toInt_range (r : Option Nat) : -2 ^ 31 ≤ toInt r ∧ toInt r < 2 ^ 31 := by
  cases r with
  | none => simp [toInt]
  | some n => exact sizeToInt_range n

/-- `p + 1` on an `int`. Behind `INT_MAX`, where the language leaves it open, it wraps. -/
def intSucc (i : Int) : Int := (i + 1).bmod (2 ^ 32)

/-- An `int` used as a position. -/
def toSize (i : Int) : Nat := (i % 2 ^ 64).toNat

/-- `isspace` of the C locale. -/
def isspace (c : Char) : Bool := c == ' ' || ('\t' ≤ c && c ≤ '\r')

/-- `strtol(s, 0, 10)`, which saturates at the bounds of a 64-bit `long`. -/
def strtol (s : Str) : Int :=
  match s.dropWhile isspace with
  | '-' :: t => max (-2 ^ 63) (-(Nat.ofDigitChars 10 (t.takeWhile Char.isDigit) 0 : Int))
  | '+' :: t => min (2 ^ 63 - 1) (Nat.ofDigitChars 10 (t.takeWhile Char.isDigit) 0 : Int)
  | t => min (2 ^ 63 - 1) (Nat.ofDigitChars 10 (t.takeWhile Char.isDigit) 0 : Int)

/-- `atoi`: `strtol` cut down to an `int`. -/
def atoi (s : Str) : Int := (strtol s).bmod (2 ^ 32)

/-- `%lu` and `%u`. -/
def printNat (n : Nat) : Str := Nat.toDigits 10 n

/-- `%i`. -/
def printInt (n : Int) : Str :=
  if n < 0 then '-' :: printNat n.natAbs else printNat n.natAbs

/-- `CVarVal`. -/
structure CVarVal where
  Var : Str := []
  Val : Str := []
  deriving DecidableEq, Repr

/-- A `std::map<std::string, std::string>`: its entries in the order of iteration. -/
structure StdMap where
  entries : List (Str × Str)
  sorted : entries.Pairwise fun a b => a.1 < b.1

namespace StdMap

def empty : StdMap := ⟨[], List.Pairwise.nil⟩

/-- `m[name] = val`. -/
def set (m : StdMap) (name val : Str) : StdMap where
  entries := m.entries.filter (·.1 < name) ++ (name, val) :: m.entries.filter (name < ·.1)
  sorted := by
    refine List.pairwise_append.mpr ⟨m.sorted.filter _, ?_, ?_⟩
    · refine List.pairwise_cons.mpr ⟨fun entry member => ?_, m.sorted.filter _⟩
      exact of_decide_eq_true (List.mem_filter.mp member).2
    · intro before first entry later
      have below : before.1 < name := of_decide_eq_true (List.mem_filter.mp first).2
      rcases List.mem_cons.mp later with rfl | behind
      · exact below
      · exact List.lt_trans below (of_decide_eq_true (List.mem_filter.mp behind).2)

def erase (m : StdMap) (name : Str) : StdMap where
  entries := m.entries.filter (·.1 ≠ name)
  sorted := m.sorted.filter _

end StdMap

end Solusek
