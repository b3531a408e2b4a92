import Solusek.Lib.Texts

/-!
# Quoted literals

A statement language in which one symbol, the quote, opens and closes literals. Text pasted
together from quote-free pieces and encoded literals lexes to the tokens of the pieces with
one literal between each two of them, whatever the literals denote, as long as no piece ends
where the quote opens no literal.
-/

namespace Solusek.Literals

open Texts

variable {α τ σ : Type*}

/-- A lexer that goes symbol by symbol up to a quote in a state that opens a literal; a comment
or a prefix of a literal is a state that does not. -/
structure Dialect (α τ σ : Type*) where
  quote : α
  start : σ
  /-- The tokens that end with the symbol. -/
  step : σ → α → List τ × σ
  /-- The tokens that end where a literal starts, or the text ends. -/
  flush : σ → List τ
  opens : σ → Bool
  /-- The state behind a literal. -/
  behind : σ → σ
  /-- From behind the opening quote: what the literal denotes and the text behind its closing
  quote. -/
  body : List α → Option (List α × List α)

inductive Token (α τ : Type*) where
  | word (t : τ)
  | lit (v : List α)
  | unterminated
  deriving DecidableEq, Repr

/-- The token with the value of a literal left out. -/
def Token.shape : Token α τ → Token α τ
  | .lit _ => .lit []
  | t => t

def Token.value? : Token α τ → Option (List α)
  | .lit v => some v
  | _ => none

def skeleton (ts : List (Token α τ)) : List (Token α τ) := ts.map Token.shape

def literals (ts : List (Token α τ)) : List (List α) := ts.filterMap Token.value?

/-! ### Lists of pieces -/

/-- The items of a list: `pre` stands before the first one and `sep` between them. -/
def pieces (pre sep : List α) : List (List α × List α) → List (List α × List α)
  | [] => []
  | item :: items => (pre ++ item.1, item.2) :: items.map fun item => (sep ++ item.1, item.2)

theorem pieces_map_snd (pre sep : List α) (items : List (List α × List α)) :
    (pieces pre sep items).map Prod.snd = items.map Prod.snd := by
  cases items with
  | nil => rfl
  | cons item items => simp [pieces, Function.comp_def]

theorem pieces_blank (pre sep : List α) (items : List (List α × List α)) :
    (pieces pre sep items).map (fun item => (item.1, [])) =
      pieces pre sep (items.map fun item => (item.1, [])) := by
  cases items with
  | nil => rfl
  | cons item items => simp [pieces, Function.comp_def]

theorem pieces_clean {quote : α} {pre sep : List α} {items : List (List α × List α)}
    (before : quote ∉ pre) (between : quote ∉ sep) (clean : ∀ item ∈ items, quote ∉ item.1) :
    ∀ item ∈ pieces pre sep items, quote ∉ item.1 := by
  cases items with
  | nil => simp [pieces]
  | cons item items =>
    intro piece member
    rcases List.mem_cons.mp member with rfl | member
    · simpa using ⟨before, clean item List.mem_cons_self⟩
    · obtain ⟨other, inside, rfl⟩ := List.mem_map.mp member
      simpa using ⟨between, clean other (List.mem_cons_of_mem _ inside)⟩

theorem pieces_apart {pre sep : List α} (separates : sep ≠ []) (items : List (List α × List α)) :
    ∀ item ∈ (pieces pre sep items).tail, item.1 ≠ [] := by
  cases items with
  | nil => simp [pieces]
  | cons item items =>
    intro piece member
    obtain ⟨other, _, rfl⟩ := List.mem_map.mp member
    simp [separates]

namespace Dialect

variable (D : Dialect α τ σ)

/-- `esc` encodes: a quote, `esc v` and a quote lex as one literal that denotes `v`, unless
a further quote follows. -/
def Encodes (esc : List α → List α) : Prop :=
  ∀ v rest, rest.head? ≠ some D.quote → D.body (esc v ++ D.quote :: rest) = some (v, rest)

/-! ### Pieces without quotes -/

def run (s : σ) : List α → List τ × σ
  | [] => ([], s)
  | c :: p => ((D.step s c).1 ++ (run (D.step s c).2 p).1, (run (D.step s c).2 p).2)

/-- The tokens of a piece that a literal or the end of the text follows. -/
def words (s : σ) (p : List α) : List τ := (D.run s p).1 ++ D.flush (D.run s p).2

/-- Behind each of the pieces, with a literal between each two, a quote opens a literal. -/
def Readable (s : σ) : List (List α) → Prop
  | [] => True
  | p :: ps => D.opens (D.run s p).2 = true ∧ Readable (D.behind (D.run s p).2) ps

instance (s : σ) (ps : List (List α)) : Decidable (D.Readable s ps) :=
  match ps with
  | [] => isTrue trivial
  | p :: ps =>
    have := instDecidableReadable (D.behind (D.run s p).2) ps
    inferInstanceAs (Decidable (_ ∧ _))

/-! ### Pasted texts -/

/-- Each item is a piece of text and the value of the literal behind it. -/
def render (esc : List α → List α) (items : List (List α × List α)) (post : List α) : List α :=
  items.flatMap (fun item => item.1 ++ D.quote :: (esc item.2 ++ [D.quote])) ++ post

def tokens (s : σ) (items : List (List α × List α)) (post : List α) : List (Token α τ) :=
  match items with
  | [] => (D.words s post).map .word
  | item :: items =>
    (D.words s item.1).map .word ++ .lit item.2 :: tokens (D.behind (D.run s item.1).2) items post

theorem render_cons (esc : List α → List α) (item : List α × List α)
    (items : List (List α × List α)) (post : List α) :
    D.render esc (item :: items) post =
      item.1 ++ D.quote :: (esc item.2 ++ D.quote :: D.render esc items post) := by
  simp [render]

theorem render_append (esc : List α → List α) (items items' : List (List α × List α))
    (post : List α) :
    D.render esc (items ++ items') post = D.render esc items (D.render esc items' post) := by
  simp [render]

theorem render_pieces (esc : List α → List α) (pre sep : List α)
    {items : List (List α × List α)} (filled : items ≠ []) (post : List α) :
    D.render esc (pieces pre sep items) post =
      pre ++ sep.intercalate (items.map fun item => item.1 ++ D.quote :: (esc item.2 ++ [D.quote])) ++
        post := by
  cases items with
  | nil => exact absurd rfl filled
  | cons item items =>
    rw [List.map_cons, intercalate_cons]
    simp [pieces, render, List.flatMap_map]

theorem skeleton_tokens (s : σ) (items : List (List α × List α)) (post : List α) :
    skeleton (D.tokens s items post) =
      D.tokens s (items.map fun item => (item.1, [])) post := by
  induction items generalizing s with
  | nil => simp [skeleton, tokens, Token.shape]
  | cons item items ih =>
    rw [List.map_cons, tokens, tokens, ← ih]
    simp [skeleton, Token.shape]

theorem literals_tokens (s : σ) (items : List (List α × List α)) (post : List α) :
    literals (D.tokens s items post) = items.map Prod.snd := by
  induction items generalizing s with
  | nil => simp [literals, tokens, Token.value?]
  | cons item items ih =>
    rw [tokens, List.map_cons, ← ih (D.behind (D.run s item.1).2)]
    simp [literals, Token.value?, Function.comp_def]

variable {D} in
theorem head_render {esc : List α → List α} {items : List (List α × List α)} {post : List α}
    (clean : ∀ item ∈ items, D.quote ∉ item.1) (apart : ∀ item ∈ items, item.1 ≠ [])
    (last : D.quote ∉ post) : (D.render esc items post).head? ≠ some D.quote := by
  intro starts
  cases items with
  | nil =>
    have member : D.quote ∈ D.render esc [] post := List.mem_of_head? starts
    exact last (by simpa [render] using member)
  | cons item items =>
    rw [render_cons, List.head?_append_of_ne_nil _ (apart item List.mem_cons_self)] at starts
    exact clean item List.mem_cons_self (List.mem_of_head? starts)

/-! ### Lexing -/

variable [DecidableEq α]

def lexFuel : Nat → σ → List α → List (Token α τ)
  | 0, _, _ => []
  | _ + 1, s, [] => (D.flush s).map .word
  | fuel + 1, s, c :: rest =>
    if c = D.quote ∧ D.opens s = true then
      (D.flush s).map .word ++
        match D.body rest with
        | none => [.unterminated]
        | some (v, rest) => .lit v :: lexFuel fuel (D.behind s) rest
    else (D.step s c).1.map .word ++ lexFuel fuel (D.step s c).2 rest

def lex (s : List α) : List (Token α τ) := D.lexFuel (s.length + 1) D.start s

variable {D}

theorem lexFuel_run {p : List α} (clean : D.quote ∉ p) (fuel : Nat) (s : σ) (rest : List α) :
    D.lexFuel (p.length + fuel) s (p ++ rest) =
      (D.run s p).1.map .word ++ D.lexFuel fuel (D.run s p).2 rest := by
  induction p generalizing s with
  | nil => rw [List.length_nil, Nat.zero_add, List.nil_append, run, List.map_nil, List.nil_append]
  | cons c p ih =>
    have other : c ≠ D.quote := fun same => clean (by simp [same])
    have later : D.quote ∉ p := fun member => clean (List.mem_cons_of_mem _ member)
    rw [List.length_cons, Nat.succ_add_eq_add_succ, Nat.add_succ, List.cons_append, lexFuel,
      if_neg fun both => other both.1, ih later, run, List.map_append, List.append_assoc]

theorem lexFuel_clean {p : List α} (clean : D.quote ∉ p) (s : σ) {fuel : Nat}
    (enough : p.length < fuel) : D.lexFuel fuel s p = (D.words s p).map .word := by
  obtain ⟨fuel, rfl⟩ := Nat.exists_eq_add_of_lt enough
  have read := lexFuel_run clean (fuel + 1) s []
  rw [List.append_nil] at read
  rw [Nat.add_assoc, read, lexFuel, words, List.map_append]

theorem lexFuel_render {esc : List α → List α} (encodes : D.Encodes esc)
    {items : List (List α × List α)} {post : List α} (clean : ∀ item ∈ items, D.quote ∉ item.1)
    (apart : ∀ item ∈ items.tail, item.1 ≠ []) (last : D.quote ∉ post) {s : σ}
    (readable : D.Readable s (items.map Prod.fst)) {fuel : Nat}
    (enough : (D.render esc items post).length < fuel) :
    D.lexFuel fuel s (D.render esc items post) = D.tokens s items post := by
  induction items generalizing s fuel with
  | nil =>
    have plain : D.render esc [] post = post := by simp [render]
    rw [plain] at enough ⊢
    exact lexFuel_clean last s enough
  | cons item items ih =>
    have here := clean item List.mem_cons_self
    have later : ∀ item ∈ items, D.quote ∉ item.1 :=
      fun other member => clean other (List.mem_cons_of_mem _ member)
    obtain ⟨opens, others⟩ := readable
    rw [render_cons, List.length_append, List.length_cons, List.length_append, List.length_cons]
      at enough
    obtain ⟨fuel, rfl⟩ := Nat.exists_eq_add_of_le
      (show item.1.length + 1 ≤ fuel by omega)
    have read := encodes item.2 (D.render esc items post) (head_render later apart last)
    have rest := @ih later (fun other member => apart other (List.mem_of_mem_tail member)) _
      others fuel (by omega)
    rw [render_cons, Nat.add_assoc, lexFuel_run here, Nat.add_comm 1, lexFuel,
      if_pos ⟨rfl, opens⟩, read, tokens, words, List.map_append, List.append_assoc]
    dsimp only
    rw [rest]

/-- Pasted text lexes to the tokens of its pieces with the literals between them. -/
theorem lex_render {esc : List α → List α} (encodes : D.Encodes esc)
    {items : List (List α × List α)} {post : List α} (clean : ∀ item ∈ items, D.quote ∉ item.1)
    (apart : ∀ item ∈ items.tail, item.1 ≠ []) (last : D.quote ∉ post)
    (readable : D.Readable D.start (items.map Prod.fst)) :
    D.lex (D.render esc items post) = D.tokens D.start items post :=
  lexFuel_render encodes clean apart last readable (Nat.lt_succ_self _)

end Dialect

/-! ### Doubled quotes -/

variable [DecidableEq α]

/-- A literal whose own quotes are doubled. -/
def doubledBody (quote : α) : List α → Option (List α × List α)
  | [] => none
  | [c] => if c = quote then some ([], []) else none
  | c :: d :: s =>
    if c = quote then
      if d = quote then (doubledBody quote s).map fun r => (quote :: r.1, r.2)
      else some ([], d :: s)
    else (doubledBody quote (d :: s)).map fun r => (c :: r.1, r.2)

def double (quote : α) (v : List α) : List α :=
  v.flatMap fun c => if c = quote then [c, c] else [c]

theorem doubledBody_other {quote c : α} (other : c ≠ quote) (s : List α) :
    doubledBody quote (c :: s) = (doubledBody quote s).map fun r => (c :: r.1, r.2) := by
  cases s with
  | nil => simp [doubledBody, other]
  | cons d s => simp [doubledBody, other]

theorem encodes_double {D : Dialect α τ σ} (doubles : D.body = doubledBody D.quote) :
    D.Encodes (double D.quote) := by
  intro v rest stop
  rw [doubles]
  generalize D.quote = quote at stop ⊢
  induction v with
  | nil =>
    cases rest with
    | nil => simp [double, doubledBody]
    | cons d rest =>
      have other : d ≠ quote := by simpa using stop
      simp [double, doubledBody, other]
  | cons c v ih =>
    have ih' : doubledBody quote (v.flatMap (fun c => if c = quote then [c, c] else [c]) ++
        quote :: rest) = some (v, rest) := ih
    by_cases same : c = quote
    · simp [double, same, doubledBody, ih']
    · simp [double, same, doubledBody_other same, ih']

theorem length_double (quote : α) (v : List α) : v.length ≤ (double quote v).length := by
  induction v with
  | nil => exact Nat.zero_le _
  | cons c v ih =>
    have ih' : v.length ≤ (v.flatMap fun c => if c = quote then [c, c] else [c]).length := ih
    by_cases same : c = quote
    · simp only [double, List.flatMap_cons, if_pos same, List.length_append, List.length_cons]
      omega
    · simp only [double, List.flatMap_cons, if_neg same, List.length_append, List.length_cons]
      omega

end Solusek.Literals
