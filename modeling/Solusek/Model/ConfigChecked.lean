import Solusek.Model.Config

/-!
# Configuration files with checked indices

`config_parse` and `CConfig::get` once more, each index tested against the size of its string.
`config_get` indexes nothing.
-/

namespace Solusek.Config.Checked

inductive Fault where
  | other (f : Config.Fault)
  /-- An index behind the end of its string. -/
  | outside
  deriving DecidableEq, Repr

def lift {α : Type} : Except Exn α → Except Fault α
  | .error e => .error (.other (.exn e))
  | .ok a => .ok a

/-- `s[i]`, which is NUL at `s.size()`. -/
def load (s : Str) (i : Nat) : Except Fault Char :=
  if i = s.length then .ok '\x00'
  else match s[i]? with
    | some c => .ok c
    | none => .error .outside

@[simp] theorem load_cons (c : Char) (s : Str) : load (c :: s) 0 = .ok c := rfl

theorem substr_front {s rest : Str} (cut : lift (substr s 1) = .ok rest) :
    rest.length < s.length := by
  cases s with
  | nil => cases cut
  | cons c s =>
    obtain rfl : s = rest := by simpa [substr, lift] using cut
    exact Nat.lt_succ_self _

theorem substr_back {s rest : Str} {c : Char}
    (found : load s (toSize ((s.length : Int) - 1)) = .ok c)
    (cut : lift (substr s 0 (some (toSize ((s.length : Int) - 1)))) = .ok rest) :
    rest.length < s.length := by
  have whole : substr s 0 (some (toSize ((s.length : Int) - 1))) =
      .ok (s.take (toSize ((s.length : Int) - 1))) := by simp [substr]
  rw [whole] at cut
  rw [← Except.ok.inj cut, List.length_take]
  cases s with
  | nil => cases found
  | cons d s =>
    have inside : toSize (((d :: s).length : Int) - 1) < (d :: s).length := by
      unfold toSize
      rw [List.length_cons]
      omega
    omega

/-! ### Parsing -/

/-- `while(blank(s[0])) s = s.substr(1);` with the number of turns added to `n`. -/
def skipFront (blank : Char → Bool) (n : Nat) (s : Str) : Except Fault (Nat × Str) :=
  match load s 0 with
  | .error f => .error f
  | .ok c =>
    if blank c then
      match _cut : lift (substr s 1) with
      | .error f => .error f
      | .ok rest => skipFront blank (n + 1) rest
    else .ok (n, s)
termination_by s.length
decreasing_by exact substr_front _cut

/-- `while(s[s.size()-1] == ' ') s = s.substr(0, s.size()-1);` -/
def skipBack (s : Str) : Except Fault Str :=
  match _found : load s (toSize ((s.length : Int) - 1)) with
  | .error f => .error f
  | .ok c =>
    if c = ' ' then
      match _cut : lift (substr s 0 (some (toSize ((s.length : Int) - 1)))) with
      | .error f => .error f
      | .ok rest => skipBack rest
    else .ok s
termination_by s.length
decreasing_by exact substr_back _found _cut

def stripSpaces (s : Str) : Except Fault Str :=
  match skipFront (· == ' ') 0 s with
  | .error f => .error f
  | .ok (_, s) => skipBack s

def lineNode (line : Str) : Except Fault (Option CNode) :=
  let pp := toInt (findChar line ':')
  if pp = -1 then .ok none
  else
    match lift (substr line 0 (some (toSize pp))) with
    | .error f => .error f
    | .ok var =>
      match lift (substr line (toSize (intSucc pp))) with
      | .error f => .error f
      | .ok val =>
        match stripSpaces var with
        | .error f => .error f
        | .ok var =>
          match stripSpaces val with
          | .error f => .error f
          | .ok val => .ok (some (.mk var val []))

theorem skipFront_eq {blank : Char → Bool} (solid : blank '\x00' = false) (n : Nat) (s : Str) :
    skipFront blank n s = .ok (n + (s.takeWhile blank).length, s.dropWhile blank) := by
  induction s generalizing n with
  | nil =>
    rw [skipFront]
    simp [load, solid]
  | cons c s ih =>
    have behind : lift (substr (c :: s) 1) = .ok s := by simp [lift, substr]
    rw [skipFront, load_cons]
    by_cases passes : blank c = true
    · simp only [passes, if_true, List.takeWhile_cons_of_pos, List.dropWhile_cons_of_pos,
        List.length_cons]
      split
      · rename_i f failed
        rw [behind] at failed
        cases failed
      · rename_i rest found
        rw [behind] at found
        rw [← Except.ok.inj found, ih, Nat.add_assoc, Nat.add_comm 1]
    · simp [passes]

theorem indent_eq (line : Str) :
    skipFront isIndent 0 line = .ok (innerShift line, line.dropWhile isIndent) := by
  rw [skipFront_eq (by decide), Nat.zero_add]
  rfl

def configLoop (shift : Nat) (fresh : Bool) (Children : List CNode) (body : Str) :
    Except Fault (List CNode × Str) :=
  if _last : toInt (findChar body '\n') = -1 then .ok (Children, body)
  else
    match _indent : skipFront isIndent 0 (firstLine body) with
    | .error f => .error f
    | .ok (innerShift, line) =>
      if _deeper : innerShift > shift then
        match configLoop innerShift true (lastChildren fresh Children) body with
        | .error f => .error f
        | .ok (inner, rest) =>
          if _shorter : rest.length < body.length then
            configLoop shift fresh (setLastChildren fresh Children inner) rest
          else .error (.other .diverges)
      else if innerShift < shift then .ok (Children, body)
      else
        match lineNode line with
        | .error f => .error f
        | .ok node =>
          match _cut : substr body (toSize (intSucc (toInt (findChar body '\n')))) with
          | .error e => .error (.other (.exn e))
          | .ok rest =>
            configLoop shift (fresh && node.isNone) (Children ++ node.toList) rest
termination_by (body.length, if Config.innerShift (firstLine body) > shift then 1 else 0)
decreasing_by
  · rw [indent_eq] at _indent
    obtain rfl := (Prod.mk.inj (Except.ok.inj _indent)).1
    rw [if_neg (Nat.lt_irrefl _), if_pos _deeper]
    exact Prod.Lex.right _ Nat.one_pos
  · exact Prod.Lex.left _ _ _shorter
  · exact Prod.Lex.left _ _ (rest_shorter _last _cut)

/-! ### Lookup -/

def unquoted (val : Str) : Except Fault Str :=
  match load val 0 with
  | .error f => .error f
  | .ok first =>
    if first = '"' then
      match load val (toSize ((val.length : Int) - 1)) with
      | .error f => .error f
      | .ok last =>
        if last = '"' then lift (substr val 1 (some (toSize ((val.length : Int) - 2))))
        else .ok val
    else .ok val

def get (BaseNode : List CNode) (path : Str) : Except Fault Str :=
  match lift (configGet BaseNode path) with
  | .error f => .error f
  | .ok none => .ok []
  | .ok (some node) => unquoted node.Value

/-- `CConfig::get` for the configuration in `body`. -/
def getFrom (body path : Str) : Except Fault Str :=
  match configLoop 0 true [] body with
  | .error f => .error f
  | .ok (top, _) => get top path

end Solusek.Config.Checked
