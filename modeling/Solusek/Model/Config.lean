import Solusek.Model.Cxx

/-!
# Configuration files

`config_parse`, `config_get` and `CConfig::get` of the build without YAML. The character in
front of an empty string, which the loops over trailing spaces read, is taken as no space.
-/

namespace Solusek.Config

inductive CNode where
  | mk (Name Value : Str) (Children : List CNode)
  deriving Repr

namespace CNode

def Name : CNode → Str
  | mk Name _ _ => Name

def Value : CNode → Str
  | mk _ Value _ => Value

def Children : CNode → List CNode
  | mk _ _ Children => Children

end CNode

-- `diverges` is a loop that comes back to where it was.
inductive Fault where
  | exn (e : Exn)
  | diverges
  deriving DecidableEq, Repr

/-! ### Parsing -/

/-- What the loop over the start of a line takes away. -/
def isIndent (c : Char) : Bool := c == ' ' || c == '\t'

/-- The two loops that take the spaces off a name or a value. -/
def stripSpaces (s : Str) : Str :=
  ((s.dropWhile (· == ' ')).reverse.dropWhile (· == ' ')).reverse

/-- The node of one line without its indentation, if it makes one. -/
def lineNode (line : Str) : Except Exn (Option CNode) :=
  let pp := toInt (findChar line ':')
  if pp = -1 then .ok none
  else do
    let var ← substr line 0 (some (toSize pp))
    let val ← substr line (toSize (intSucc pp))
    pure (some (.mk (stripSpaces var) (stripSpaces val) []))

/-- The children of `lastNode`, which is the parent itself until a node is made. -/
def lastChildren (fresh : Bool) (Children : List CNode) : List CNode :=
  if fresh then Children
  else match Children.getLast? with
    | some node => node.Children
    | none => []

def setLastChildren (fresh : Bool) (Children inner : List CNode) : List CNode :=
  if fresh then inner
  else match Children.getLast? with
    | some node => Children.dropLast ++ [.mk node.Name node.Value inner]
    | none => []

theorem toSize_next_pos {p : Int} (low : -2 ^ 31 ≤ p) (high : p < 2 ^ 31) (found : p ≠ -1) :
    0 < toSize (intSucc p) := by
  by_cases top : p + 1 < 2 ^ 31
  · have plain : intSucc p = p + 1 := Int.bmod_eq_of_le (by omega) (by omega)
    unfold toSize
    omega
  · obtain rfl : p = 2 ^ 31 - 1 := by omega
    decide

theorem rest_shorter {body rest : Str} {c : Char} (found : toInt (findChar body c) ≠ -1)
    (cut : substr body (toSize (intSucc (toInt (findChar body c)))) = .ok rest) :
    rest.length < body.length := by
  obtain ⟨low, high⟩ := toInt_range (findChar body c)
  have positive := toSize_next_pos low high found
  unfold substr at cut
  split at cut
  · exact absurd cut (by simp)
  · rename_i inside
    rw [← Except.ok.inj cut, List.length_drop]
    omega

/-- The first line of `body` as the loop cuts it off. -/
def firstLine (body : Str) : Str := body.take (toSize (toInt (findChar body '\n')))

/-- The blanks at the start of a line: `innerShift`. -/
def innerShift (line : Str) : Nat := (line.takeWhile isIndent).length

/-- The loop of `config_parse` for a parent with the children `Children`; `fresh` says that it
has not made a node yet. The call for a deeper line works on the same `body`. -/
def configLoop (shift : Nat) (fresh : Bool) (Children : List CNode) (body : Str) :
    Except Fault (List CNode × Str) :=
  if _last : toInt (findChar body '\n') = -1 then .ok (Children, body)
  else if _deeper : innerShift (firstLine body) > shift then
    match configLoop (innerShift (firstLine body)) true (lastChildren fresh Children) body with
    | .error e => .error e
    | .ok (inner, rest) =>
      if _shorter : rest.length < body.length then
        configLoop shift fresh (setLastChildren fresh Children inner) rest
      else .error .diverges
  else if innerShift (firstLine body) < shift then .ok (Children, body)
  else
    match lineNode ((firstLine body).dropWhile isIndent) with
    | .error e => .error (.exn e)
    | .ok node =>
      match _cut : substr body (toSize (intSucc (toInt (findChar body '\n')))) with
      | .error e => .error (.exn e)
      | .ok rest =>
        configLoop shift (fresh && node.isNone) (Children ++ node.toList) rest
termination_by (body.length, if innerShift (firstLine body) > shift then 1 else 0)
decreasing_by
  · rw [if_neg (Nat.lt_irrefl _), if_pos _deeper]
    exact Prod.Lex.right _ Nat.one_pos
  · exact Prod.Lex.left _ _ _shorter
  · exact Prod.Lex.left _ _ (rest_shorter _last _cut)

def configParse (parent : List CNode) (body : Str) (shift : Nat) :
    Except Fault (List CNode × Str) :=
  configLoop shift true parent body

/-- The same loop as the source runs it, for every `shift`: no turn asks how far the call in it
got, and `fuel` bounds the turns and calls below one another. -/
def configRun : Nat → Int → Bool → List CNode → Str → Option (Except Exn (List CNode × Str))
  | 0, _, _, _, _ => none
  | fuel + 1, shift, fresh, Children, body =>
    if toInt (findChar body '\n') = -1 then some (.ok (Children, body))
    else if innerShift (firstLine body) > shift then
      match configRun fuel (innerShift (firstLine body)) true (lastChildren fresh Children) body with
      | none => none
      | some (.error e) => some (.error e)
      | some (.ok (inner, rest)) =>
        configRun fuel shift fresh (setLastChildren fresh Children inner) rest
    else if innerShift (firstLine body) < shift then some (.ok (Children, body))
    else
      match lineNode ((firstLine body).dropWhile isIndent) with
      | .error e => some (.error e)
      | .ok node =>
        match substr body (toSize (intSucc (toInt (findChar body '\n')))) with
        | .error e => some (.error e)
        | .ok rest => configRun fuel shift (fresh && node.isNone) (Children ++ node.toList) rest

/-! ### Lookup -/

/-- The name `config_get` looks for, and what it leaves of `path`. -/
def splitPath (path : Str) : Except Exn (Str × Str) :=
  let p := toInt (findChar path '/')
  if p = -1 then .ok (path, [])
  else do
    let var ← substr path 0 (some (toSize p))
    let rest ← substr path (toSize (intSucc p))
    pure (var, rest)

theorem splitPath_shorter {path var rest : Str} (split : splitPath path = .ok (var, rest))
    (more : rest.length > 0) : rest.length < path.length := by
  unfold splitPath at split
  simp only at split
  split at split
  · rw [← (Prod.mk.inj (Except.ok.inj split)).2] at more
    exact absurd more (Nat.lt_irrefl 0)
  · rename_i found
    cases first : substr path 0 (some (toSize (toInt (findChar path '/')))) with
    | error e =>
      rw [first] at split
      exact absurd split (by simp [bind, Except.bind])
    | ok name =>
      cases second : substr path (toSize (intSucc (toInt (findChar path '/')))) with
      | error e =>
        rw [first, second] at split
        exact absurd split (by simp [bind, Except.bind])
      | ok left =>
        rw [first, second] at split
        have same : (name, left) = (var, rest) := Except.ok.inj split
        rw [← (Prod.mk.inj same).2]
        exact rest_shorter found second

/-- `config_get` on the children of a node. -/
def configGet (Children : List CNode) (path : Str) : Except Exn (Option CNode) :=
  match _split : splitPath path with
  | .error e => .error e
  | .ok (var, rest) =>
    match Children.find? fun it => it.Name == var with
    | none => .ok none
    | some it => if _more : rest.length > 0 then configGet it.Children rest else .ok (some it)
termination_by path.length
decreasing_by exact splitPath_shorter _split _more

/-- `val` without the double quotes around it. -/
def unquoted (val : Str) : Str :=
  if val.head? = some '"' ∧ val.getLast? = some '"' then (val.drop 1).take (val.length - 2) else val

/-- `CConfig::get`, for a configuration with the top nodes `BaseNode`. -/
def get (BaseNode : List CNode) (path : Str) : Except Exn Str :=
  match configGet BaseNode path with
  | .error e => .error e
  | .ok (some node) => .ok (unquoted node.Value)
  | .ok none => .ok []

/-- `BaseNode` when `body` has been read. -/
def baseNode (body : Str) : Except Fault (List CNode) := (configParse [] body 0).map (·.1)

/-- `CConfig::get` for the configuration in `body`. -/
def getFrom (body path : Str) : Except Fault Str :=
  match baseNode body with
  | .error e => .error e
  | .ok top => (get top path).mapError .exn

end Solusek.Config
