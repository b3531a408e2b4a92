import Solusek.Proofs.HeaderFraming

/-!
# The request line

The request line is the first header line: if it has a colon, it is cut there and lowered before
it is cut at spaces.
-/

namespace Solusek.Node

open Socket Lines

/-! ### A line with a colon -/

theorem requestLine_subset {line : Str} {node : CNode} (read : requestLine line = .ok node) :
    node.Method ⊆ line ∧ node.Path ⊆ line ∧ node.QueryString ⊆ line ∧
      node.ProtocolVersion ⊆ line := by
  unfold requestLine at read
  cases space : findChar line ' ' with
  | none =>
    rw [space] at read
    cases read
  | some sp =>
    rw [space] at read
    dsimp only at read
    obtain ⟨Method, method, read⟩ := bind_ok read
    obtain ⟨seg2, second, read⟩ := bind_ok read
    obtain ⟨Path, path, read⟩ := bind_ok read
    obtain ⟨ProtocolVersion, version, read⟩ := bind_ok read
    have target := List.Subset.trans (substr_subset path) (substr_subset second)
    have last := List.Subset.trans (substr_subset version) (substr_subset second)
    cases query : findChar Path '?' with
    | none =>
      rw [query] at read
      obtain rfl := Except.ok.inj read
      exact ⟨substr_subset method, target, List.nil_subset _, last⟩
    | some sp =>
      rw [query] at read
      obtain ⟨QueryString, behind, read⟩ := bind_ok read
      obtain ⟨Path', before, read⟩ := bind_ok read
      obtain rfl := Except.ok.inj read
      exact ⟨substr_subset method, List.Subset.trans (substr_subset before) target,
        List.Subset.trans (substr_subset behind) target, last⟩

theorem colon_not_mem_entry {line : Str} (colon : ':' ∈ line) : ':' ∉ (entry line).Var := by
  unfold entry
  rw [if_pos colon]
  intro member
  obtain ⟨c, before, lower⟩ := List.mem_map.mp member
  have same : c = ':' := (toLower_eq_iff (by decide)).mp lower
  have kept := List.mem_takeWhile_imp before
  simp [same] at kept

theorem mem_path_or_query {t : Str} {c : Char} (other : c ≠ '?') (member : c ∈ t) :
    c ∈ t.takeWhile (· ≠ '?') ∨ c ∈ (t.dropWhile (· ≠ '?')).drop 1 := by
  by_cases query : '?' ∈ t
  · obtain ⟨path, rest, rfl, before⟩ := List.eq_append_cons_of_mem query
    rw [Texts.takeWhile_ne before, Texts.dropWhile_ne before]
    simpa [other] using member
  · rw [Texts.takeWhile_ne_self query]
    exact Or.inl member

/-! ### The request line of a header -/

theorem filtered_eq {s : Str} (cr : '\r' ∉ s) (nul : '\x00' ∉ s) : filtered s = s := by
  refine List.filter_eq_self.mpr fun c member => ?_
  have first : c ≠ '\r' := fun same => cr (same ▸ member)
  have second : c ≠ '\x00' := fun same => nul (same ▸ member)
  simp [first, second]

theorem readHeader_text (net : Net) {line : Str} (printed : Printed line) (nonempty : line ≠ [])
    {lines : List Str} (inside : ∀ l ∈ lines, '\n' ∉ l) (written : ∀ l ∈ lines, filtered l ≠ [])
    (rest : Str) :
    readHeader net (headerText (line :: lines) ++ rest) =
      (requestLine (entry line).Var).map fun node =>
        ({ node with Headers := (headerLines (headerText (line :: lines))).map entry }, rest) := by
  obtain ⟨cr, lf, nul⟩ := printed
  have same := filtered_eq cr nul
  obtain ⟨header, framed⟩ := headerText_framed (List.cons_ne_nil line lines)
    (List.forall_mem_cons.mpr ⟨lf, inside⟩)
    (List.forall_mem_cons.mpr ⟨by rw [same]; exact nonempty, written⟩)
  unfold readHeader
  rw [headerLoop_header net.eof header rest, framed, List.map_cons, same, List.cons_append,
    List.map_cons]
  dsimp only
  cases requestLine (entry line).Var <;> rfl

/-- The request `m t v` is read byte for byte exactly if none of the three has a colon. -/
theorem requestLine_exact_iff (net : Net) {m t v : Str} (method : ' ' ∉ m ∧ Printed m)
    (target : ' ' ∉ t ∧ Printed t) (version : Printed v) {lines : List Str}
    (inside : ∀ l ∈ lines, '\n' ∉ l) (written : ∀ l ∈ lines, filtered l ≠ []) (rest : Str) :
    (∃ node, readHeader net (headerText ((m ++ ' ' :: (t ++ ' ' :: v)) :: lines) ++ rest) =
        .ok (node, rest) ∧
      node.Method = m ∧ node.Path = t.takeWhile (· ≠ '?') ∧
      node.QueryString = (t.dropWhile (· ≠ '?')).drop 1 ∧ node.ProtocolVersion = v) ↔
    ':' ∉ m ∧ ':' ∉ t ∧ ':' ∉ v := by
  have printed : Printed (m ++ ' ' :: (t ++ ' ' :: v)) :=
    printed_append method.2 (printed_cons (by decide) (printed_append target.2
      (printed_cons (by decide) version)))
  rw [readHeader_text net printed (by simp) inside written]
  have colons : ':' ∈ m ++ ' ' :: (t ++ ' ' :: v) ↔ ':' ∈ m ∨ ':' ∈ t ∨ ':' ∈ v := by simp
  constructor
  · rintro ⟨node, read, sameMethod, samePath, sameQuery, sameVersion⟩
    by_contra spoiled
    have colon : ':' ∈ m ++ ' ' :: (t ++ ' ' :: v) := by
      rw [colons]
      tauto
    have absent := colon_not_mem_entry colon
    cases line : requestLine (entry (m ++ ' ' :: (t ++ ' ' :: v))).Var with
    | error e =>
      rw [line] at read
      cases read
    | ok start =>
      rw [line] at read
      obtain rfl := (Prod.mk.inj (Except.ok.inj read)).1
      obtain ⟨first, second, third, fourth⟩ := requestLine_subset line
      rcases colons.mp colon with inMethod | inTarget | inVersion
      · exact absent (first (sameMethod ▸ inMethod))
      · rcases mem_path_or_query (by decide) inTarget with path | query
        · exact absent (second (samePath ▸ path))
        · exact absent (third (sameQuery ▸ query))
      · exact absent (fourth (sameVersion ▸ inVersion))
  · rintro ⟨inMethod, inTarget, inVersion⟩
    have plain : ':' ∉ m ++ ' ' :: (t ++ ' ' :: v) := by
      rw [colons]
      tauto
    rw [show (entry (m ++ ' ' :: (t ++ ' ' :: v))).Var = m ++ ' ' :: (t ++ ' ' :: v) by
      simp [entry, plain], requestLine_eq method.1 target.1]
    exact ⟨_, rfl, rfl, rfl, rfl, rfl⟩

/-- A target with a query. -/
theorem requestLine_exact_iff_query : ∃ node, readHeader fullNet
    (headerText (["GET /a?B HTTP/1.1".toList, "Host: h".toList]) ++ "body".toList) =
      .ok (node, "body".toList) ∧
    node.Method = "GET".toList ∧ node.Path = "/a".toList ∧ node.QueryString = "B".toList ∧
      node.ProtocolVersion = "HTTP/1.1".toList :=
  (@requestLine_exact_iff fullNet "GET".toList "/a?B".toList "HTTP/1.1".toList (by decide)
    (by decide) (by decide) ["Host: h".toList] (by decide) (by decide) "body".toList).mpr
    (by decide)

/-- A target with a colon is cut off and lowered. -/
theorem colon_misread : ¬ ∀ (net : Net) (m t v : Str) (lines : List Str) (rest : Str),
    m ≠ [] ∧ ' ' ∉ m ∧ Printed m → t ≠ [] ∧ ' ' ∉ t ∧ Printed t → v ≠ [] ∧ ' ' ∉ v ∧ Printed v →
    (∀ l ∈ lines, '\n' ∉ l) → (∀ l ∈ lines, filtered l ≠ []) →
    ∃ node, readHeader net (headerText ((m ++ ' ' :: (t ++ ' ' :: v)) :: lines) ++ rest) =
        .ok (node, rest) ∧
      node.Method = m ∧ node.Path = t.takeWhile (· ≠ '?') ∧
      node.QueryString = (t.dropWhile (· ≠ '?')).drop 1 ∧ node.ProtocolVersion = v := by
  intro claim
  obtain ⟨node, read, method, _⟩ := claim fullNet "GET".toList "/a:b".toList "HTTP/1.1".toList [] []
    (by decide) (by decide) (by decide) (by simp) (by simp)
  have taken : (readHeader fullNet (headerText ["GET /a:b HTTP/1.1".toList])).map (·.1.Method) =
      .ok "get".toList := by decide
  have same : (readHeader fullNet (headerText ["GET /a:b HTTP/1.1".toList])).map (·.1.Method) =
      .ok "GET".toList := (congrArg (Except.map (·.1.Method)) read).trans
      (congrArg Except.ok method)
  exact absurd (same.symm.trans taken) (by decide)

end Solusek.Node
