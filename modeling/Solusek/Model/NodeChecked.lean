import Solusek.Model.Node

/-!
# Reading with checked indices

The functions of `CNode` that read from a connection, once more with their buffers, each index
tested against the size of its object. A `std::string` may be indexed at its size.
-/

namespace Solusek.Node.Checked

open Socket

inductive Fault where
  | thrown (e : Exn)
  /-- An index outside its object. -/
  | outside
  deriving DecidableEq, Repr

def lift {α : Type} : Except Exn α → Except Fault α
  | .error e => .error (.thrown e)
  | .ok a => .ok a

/-- `buf[i]` -/
def load {α : Type} (buf : List α) (i : Nat) : Except Fault α :=
  match buf[i]? with
  | some a => .ok a
  | none => .error .outside

/-- `buf[i] = c` -/
def store (buf : Str) (i : Nat) (c : Char) : Except Fault Str :=
  if i < buf.length then .ok (buf.set i c) else .error .outside

/-- The C string at the start of `buf`, which has to end inside. -/
def text (buf : Str) : Except Fault Str :=
  if '\x00' ∈ buf then .ok (cstr buf) else .error .outside

/-- `std::string(&s[i], n)` -/
def slice (s : Str) (i n : Nat) : Except Fault Str :=
  if i ≤ s.length ∧ i + n ≤ s.length then .ok ((s.drop i).take n) else .error .outside

/-- `readBuffer(buf, len)`: the buffer, the number of bytes read and the bytes left. -/
def readBuffer (net : Net) (buf rx : Str) (len : Nat) : Except Fault (Str × Nat × Str) :=
  if len ≤ buf.length then
    match net.readBuffer rx len with
    | .error e => .error (.thrown e)
    | .ok (data, rest) => .ok (data ++ buf.drop data.length, data.length, rest)
  else .error .outside

theorem readBuffer_shorter {net : Net} {buf buf' rx rest : Str} {len read : Nat}
    (found : readBuffer net buf rx len = .ok (buf', read, rest)) : rest.length < rx.length := by
  unfold readBuffer at found
  split at found
  · cases read' : net.readBuffer rx len with
    | error e =>
      rw [read'] at found
      cases found
    | ok answer =>
      rw [read'] at found
      obtain ⟨data, rest'⟩ := answer
      obtain ⟨_, _, rfl⟩ : _ ∧ _ ∧ rest' = rest := by simpa using found
      exact Net.readBuffer_shorter read'
  · cases found

/-! ### The header -/

/-- `readBuffer(buf, 1); buf[1] = 0;` -/
def readByte (net : Net) (buf rx : Str) : Except Fault (Str × Str) :=
  match readBuffer net buf rx 1 with
  | .error f => .error f
  | .ok (buf, _, rest) =>
    match store buf 1 '\x00' with
    | .error f => .error f
    | .ok buf => .ok (buf, rest)

theorem readByte_shorter {net : Net} {buf buf' rx rest : Str}
    (found : readByte net buf rx = .ok (buf', rest)) : rest.length < rx.length := by
  unfold readByte at found
  cases read : readBuffer net buf rx 1 with
  | error f =>
    rw [read] at found
    cases found
  | ok answer =>
    obtain ⟨buf₁, n, rest'⟩ := answer
    rw [read] at found
    dsimp only at found
    cases stored : store buf₁ 1 '\x00' with
    | error f =>
      rw [stored] at found
      cases found
    | ok buf₂ =>
      rw [stored] at found
      obtain rfl : rest' = rest := (Prod.mk.inj (Except.ok.inj found)).2
      exact readBuffer_shorter read

def headerLoop (net : Net) (buf acc : Str) (ex : Nat) (Headers : List CVarVal) (rx : Str) :
    Except Fault (List CVarVal × Str) :=
  match _found : readByte net buf rx with
  | .error f => .error f
  | .ok (buf, rest) =>
    match load buf 0 with
    | .error f => .error f
    | .ok c =>
      if c = '\r' ∨ c = '\x00' then headerLoop net buf acc ex Headers rest
      else if c = '\n' then
        match lift (headerLine acc) with
        | .error f => .error f
        | .ok vv =>
          if ex + 1 = 2 then .ok (Headers ++ [vv], rest)
          else headerLoop net buf [] (ex + 1) (Headers ++ [vv]) rest
      else
        match text buf with
        | .error f => .error f
        | .ok s => headerLoop net buf (acc ++ s) 0 Headers rest
termination_by rx.length
decreasing_by all_goals exact readByte_shorter ‹_›

def readHeader (net : Net) (buf rx : Str) : Except Fault (CNode × Str) :=
  match headerLoop net buf [] 0 [] rx with
  | .error f => .error f
  | .ok (Headers, rx) =>
    if Headers.length > 0 then
      match load Headers 0 with
      | .error f => .error f
      | .ok first =>
        match lift (requestLine first.Var) with
        | .error f => .error f
        | .ok node => .ok ({ node with Headers }, rx)
    else .ok ({}, rx)

/-! ### The body -/

/-- `buf[read] = 0;` and the text that `Body += buf` appends. -/
def chunkText (buf : Str) (read : Nat) : Except Fault (Str × Str) :=
  match store buf read '\x00' with
  | .error f => .error f
  | .ok buf =>
    match text buf with
    | .error f => .error f
    | .ok s => .ok (buf, s)

def bodyLoop (net : Net) (buf : Str) (len n : Nat) (Body rx : Str) : Except Fault (Str × Str) :=
  if n < len then
    match _found : readBuffer net buf rx 1024 with
    | .error f => .error f
    | .ok (buf, read, rest) =>
      match chunkText buf read with
      | .error f => .error f
      | .ok (buf, s) => bodyLoop net buf len ((n + read) % 2 ^ 32) (Body ++ s) rest
  else .ok (Body, rx)
termination_by rx.length
decreasing_by exact readBuffer_shorter ‹_›

def readBody (net : Net) (node : CNode) (buf rx : Str) : Except Fault (CNode × Str) :=
  match node.getHeader "content-length".toList with
  | none => .ok ({ node with Body := [] }, rx)
  | some vv =>
    match bodyLoop net buf (atoi (cstr vv.Val) % 2 ^ 32).toNat 0 [] rx with
    | .error f => .error f
    | .ok (Body, rx) => .ok ({ node with Body }, rx)

/-! ### The cookies -/

def sliceCookie (deccum : Str) : Except Fault (Str × Str) :=
  let sp := toUnsigned (findChar deccum ';')
  if sp < deccum.length then
    match lift (substr deccum 0 (some sp)) with
    | .error f => .error f
    | .ok ck =>
      match slice deccum ((sp + 1) % 2 ^ 32) (deccum.length - sp - 1) with
      | .error f => .error f
      | .ok rest => .ok (ck, rest)
  else .ok (deccum, [])

/-- The slice behind a `;` lies inside, wherever the 32 bits of its position point to. -/
theorem sliceCookie_eq (deccum : Str) : sliceCookie deccum = .ok (Node.sliceCookie deccum) := by
  unfold sliceCookie Node.sliceCookie
  generalize toUnsigned (findChar deccum ';') = sp
  dsimp only
  by_cases inside : sp < deccum.length
  · have within : (sp + 1) % 2 ^ 32 ≤ sp + 1 := Nat.mod_le _ _
    have cut : lift (substr deccum 0 (some sp)) = .ok (deccum.take sp) := by
      simp [substr, lift]
    have rest : slice deccum ((sp + 1) % 2 ^ 32) (deccum.length - sp - 1) =
        .ok ((deccum.drop ((sp + 1) % 2 ^ 32)).take (deccum.length - sp - 1)) := by
      unfold slice
      rw [if_pos ⟨by omega, by omega⟩]
    rw [if_pos inside, if_pos inside, cut]
    dsimp only
    rw [rest]
  · rw [if_neg inside, if_neg inside]

def cookieLoop (request : MRequest) (deccum : Str) : Except Fault MRequest :=
  if _empty : deccum = [] then .ok request
  else
    match _sliced : sliceCookie deccum with
    | .error f => .error f
    | .ok (ck, rest) =>
      match lift (parseCookie ck) with
      | .error f => .error f
      | .ok cookie =>
        let request :=
          if cookie.Name = "SolusekSID".toList then { request with SID := cookie.Value }
          else request
        cookieLoop { request with Cookies := request.Cookies ++ [cookie] } rest
termination_by deccum.length
decreasing_by
  rw [sliceCookie_eq] at _sliced
  rw [show rest = (Node.sliceCookie deccum).2 by rw [Except.ok.inj _sliced]]
  exact sliceCookie_shorter ‹_›

end Solusek.Node.Checked
