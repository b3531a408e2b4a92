import Solusek.Model.NodeChecked
import Solusek.Proofs.HeaderFraming

/-!
# No index outside its object

On every stream the checked functions do what the plain ones do: no check fails. What can leave
them is the `int` of a failed read, and the `std::exception` of a first line that has no space in
front of its first colon.
-/

namespace Solusek.Node

open Socket

/-! ### What the plain functions throw -/

theorem posSucc_le (s : Str) (c : Char) : posSucc (findChar s c) ≤ s.length := by
  cases found : findChar s c with
  | none => exact Nat.zero_le _
  | some p => exact findChar_lt found

theorem requestLine_total {line : Str} (space : ' ' ∈ line) :
    ∃ node, requestLine line = .ok node := by
  unfold requestLine
  cases found : findChar line ' ' with
  | none => exact absurd space (List.idxOf?_eq_none_iff.mp found)
  | some sp =>
    refine bind_total (substr_inside (Nat.zero_le _) _) fun Method =>
      bind_total (substr_inside (findChar_lt found) none) fun seg2 =>
      bind_total (substr_inside (Nat.zero_le _) _) fun Path =>
      bind_total (substr_inside (posSucc_le seg2 ' ') none) fun ProtocolVersion => ?_
    cases query : findChar Path '?' with
    | none => exact ⟨_, rfl⟩
    | some sp =>
      exact bind_total (substr_inside (findChar_lt query) none) fun QueryString =>
        bind_total (substr_inside (Nat.zero_le _) _) fun Path' => ⟨_, rfl⟩

theorem requestLine_error {line : Str} {e : Exn} (failed : requestLine line = .error e) :
    e = .exception ∧ ' ' ∉ line := by
  have plain : ' ' ∉ line := by
    intro space
    obtain ⟨node, read⟩ := requestLine_total space
    rw [read] at failed
    cases failed
  unfold requestLine at failed
  rw [findChar_none plain] at failed
  exact ⟨(Except.error.inj failed).symm, plain⟩

theorem entry_space (line : Str) : ' ' ∈ (entry line).Var ↔ ' ' ∈ line.takeWhile (· ≠ ':') := by
  unfold entry
  by_cases colon : ':' ∈ line
  · rw [if_pos colon]
    constructor
    · intro member
      obtain ⟨c, before, lower⟩ := List.mem_map.mp member
      rwa [(toLower_eq_iff (by decide)).mp lower] at before
    · exact fun member => List.mem_map.mpr ⟨' ', member, by decide⟩
  · rw [if_neg colon, Texts.takeWhile_ne_self colon]

theorem bodyLoop_error {net : Net} {len n : Nat} {Body rx : Str} {e : Exn}
    (failed : bodyLoop net len n Body rx = .error e) : e = .int net.eof := by
  induction h : rx.length using Nat.strong_induction_on generalizing n Body rx with
  | _ size ih =>
    by_cases more : n < len
    · by_cases empty : rx = []
      · have ended : net.readBuffer rx 1024 = .error (.int net.eof) := by
          simp [Net.readBuffer, empty, net.eof_lt]
        rw [bodyLoop_failed more ended] at failed
        exact (Except.error.inj failed).symm
      · obtain ⟨r, positive, _, fits, read⟩ := readBuffer_some net empty (show 0 < 1024 by decide)
        rw [bodyLoop_chunk more read] at failed
        exact ih (rx.drop r).length (by rw [List.length_drop]; omega) failed rfl
    · rw [bodyLoop_done (Nat.not_lt.mp more)] at failed
      cases failed

theorem readBody_error {net : Net} {node : CNode} {rx : Str} {e : Exn}
    (failed : readBody net node rx = .error e) : e = .int net.eof := by
  unfold readBody at failed
  cases header : node.getHeader "content-length".toList with
  | none =>
    rw [header] at failed
    cases failed
  | some vv =>
    rw [header] at failed
    dsimp only at failed
    cases loop : bodyLoop net (atoi (cstr vv.Val) % 2 ^ 32).toNat 0 [] rx with
    | error e' =>
      rw [loop] at failed
      rw [← Except.error.inj failed]
      exact bodyLoop_error loop
    | ok answer =>
      rw [loop] at failed
      cases failed

theorem parseCookie_total (ck : Str) : ∃ cookie, parseCookie ck = .ok cookie := by
  unfold parseCookie
  refine bind_total (substr_inside (Nat.zero_le _) _) fun cname =>
    bind_total (substr_inside ?_ none) fun cval => ⟨_, rfl⟩
  cases found : findChar (trim ck) '=' with
  | none => exact Nat.zero_le _
  | some p =>
    have inside := findChar_lt found
    have wrapped : (p % 2 ^ 32 + 1) % 2 ^ 32 ≤ p + 1 :=
      (Nat.mod_le _ _).trans (Nat.succ_le_succ (Nat.mod_le p _))
    exact wrapped.trans inside

theorem cookieLoop_total (request : MRequest) (deccum : Str) :
    ∃ request', cookieLoop request deccum = .ok request' := by
  induction h : deccum.length using Nat.strong_induction_on generalizing request deccum with
  | _ size ih =>
    by_cases empty : deccum = []
    · exact ⟨request, by rw [cookieLoop, dif_pos empty]⟩
    · obtain ⟨cookie, parsed⟩ := parseCookie_total (sliceCookie deccum).1
      rw [cookieLoop, dif_neg empty, parsed]
      exact ih _ (h ▸ sliceCookie_shorter empty) _ _ rfl

namespace Checked

/-- What a client sends and how it arrives makes no index leave its object, and no exception
leave these functions but the two expected ones. -/
structure Safe (net : Net) (rx : Str) : Prop where
  header : ∀ (buf : Str) (f : Fault), buf.length = 2 → readHeader net buf rx = .error f →
    f = .thrown (.int net.eof) ∨
      f = .thrown .exception ∧ ∃ p, p <+: rx ∧ Header p ∧ ' ' ∉ (headerLines p).headI
  body : ∀ (node : CNode) (buf rest : Str) (f : Fault), buf.length = 1025 →
    readBody net node buf rest = .error f → f = .thrown (.int net.eof)
  cookies : ∀ (request : MRequest) (deccum : Str), ∃ request',
    cookieLoop request deccum = .ok request'

theorem lift_error {α : Type} {answer : Except Exn α} {f : Fault}
    (failed : lift answer = .error f) : ∃ e, answer = .error e ∧ f = .thrown e := by
  cases answer with
  | error e => exact ⟨e, rfl, (Except.error.inj failed).symm⟩
  | ok a => cases failed

/-! ### The header -/

theorem readByte_eq (net : Net) {buf : Str} (size : buf.length = 2) (rx : Str) :
    readByte net buf rx =
      match rx with
      | [] => .error (.thrown (.int net.eof))
      | c :: rest => .ok ([c, '\x00'], rest) := by
  obtain ⟨a, b, rfl⟩ := List.length_eq_two.mp size
  unfold readByte readBuffer
  rw [if_pos (show 1 ≤ [a, b].length by simp), readBuffer_one]
  cases rx with
  | nil => rfl
  | cons c rest => rfl

theorem headerLoop_eq (net : Net) {buf : Str} (size : buf.length = 2) (acc : Str) (ex : Nat)
    (Headers : List CVarVal) (rx : Str) :
    headerLoop net buf acc ex Headers rx = lift (Node.headerLoop net.eof acc ex Headers rx) := by
  induction rx generalizing buf acc ex Headers with
  | nil =>
    have read := readByte_eq net size []
    unfold headerLoop
    split
    · rename_i f failed
      rw [read] at failed
      rw [← Except.error.inj failed]
      rfl
    · rename_i found
      rw [read] at found
      cases found
  | cons c rx ih =>
    have read := readByte_eq net size (c :: rx)
    unfold headerLoop Node.headerLoop
    split
    · rename_i f failed
      rw [read] at failed
      cases failed
    · rename_i buf' rest found
      rw [read] at found
      obtain ⟨rfl, rfl⟩ := Prod.mk.inj (Except.ok.inj found)
      have first : load [c, '\x00'] 0 = .ok c := rfl
      rw [first]
      dsimp only
      by_cases skipped : c = '\r' ∨ c = '\x00'
      · rw [if_pos skipped, if_pos skipped]
        exact ih rfl acc ex Headers
      · rw [if_neg skipped, if_neg skipped]
        by_cases ends : c = '\n'
        · rw [if_pos ends, if_pos ends, headerLine_eq]
          dsimp only [lift]
          by_cases second : ex + 1 = 2
          · rw [if_pos second, if_pos second]
          · rw [if_neg second, if_neg second]
            exact ih rfl [] (ex + 1) _
        · have shown : text [c, '\x00'] = .ok [c] := by
            have visible : (c != '\x00') = true := by
              simpa using fun same => skipped (Or.inr same)
            simp [text, cstr, visible]
          rw [if_neg ends, if_neg ends, shown]
          exact ih rfl (acc ++ [c]) 0 Headers

theorem readHeader_eq (net : Net) {buf : Str} (size : buf.length = 2) (rx : Str) :
    readHeader net buf rx = lift (Node.readHeader net rx) := by
  unfold readHeader Node.readHeader
  rw [headerLoop_eq net size]
  cases read : Node.headerLoop net.eof [] 0 [] rx with
  | error e => rfl
  | ok answer =>
    obtain ⟨Headers, rest⟩ := answer
    cases Headers with
    | nil => rfl
    | cons first more =>
      have loaded : load (first :: more) 0 = .ok first := rfl
      dsimp only [lift]
      rw [if_pos (show (first :: more).length > 0 by simp), loaded]
      dsimp only
      cases requestLine first.Var <;> rfl

/-! ### The body -/

theorem chunk_eq (net : Net) {buf : Str} (size : buf.length = 1025) {rx : Str} (nonempty : rx ≠ []) :
    ∃ data rest buf₁ buf₂, net.readBuffer rx 1024 = .ok (data, rest) ∧
      readBuffer net buf rx 1024 = .ok (buf₁, data.length, rest) ∧
      chunkText buf₁ data.length = .ok (buf₂, cstr data) ∧ buf₂.length = 1025 := by
  obtain ⟨r, positive, fits, within, read⟩ := readBuffer_some net nonempty (show 0 < 1024 by decide)
  have taken : (rx.take r).length = r := List.length_take_of_le within
  obtain ⟨next, behind, cut⟩ := List.exists_cons_of_length_pos (l := buf.drop r)
    (by rw [List.length_drop]; omega)
  have stored : (rx.take r ++ next :: behind).set r '\x00' = rx.take r ++ '\x00' :: behind := by
    rw [List.set_append_right _ _ taken.le, taken, Nat.sub_self]
    rfl
  have long : behind.length + 1 = 1025 - r := by
    rw [← List.length_cons, ← cut, List.length_drop, size]
  refine ⟨rx.take r, rx.drop r, rx.take r ++ next :: behind, rx.take r ++ '\x00' :: behind, read,
    ?_, ?_, ?_⟩
  · unfold readBuffer
    rw [if_pos (by omega), read]
    dsimp only
    rw [taken, cut]
  · have inside : r < (rx.take r ++ next :: behind).length := by
      rw [List.length_append, taken, List.length_cons]
      omega
    unfold chunkText store
    rw [taken, if_pos inside, stored]
    dsimp only
    unfold text
    rw [if_pos (by simp), cstr_ended]
  · rw [List.length_append, taken, List.length_cons]
    omega

theorem bodyLoop_eq (net : Net) {buf : Str} (size : buf.length = 1025) (len n : Nat)
    (Body rx : Str) :
    bodyLoop net buf len n Body rx = lift (Node.bodyLoop net len n Body rx) := by
  induction h : rx.length using Nat.strong_induction_on generalizing buf n Body rx with
  | _ bytes ih =>
    by_cases more : n < len
    · rw [bodyLoop, if_pos more]
      by_cases empty : rx = []
      · have plain : net.readBuffer rx 1024 = .error (.int net.eof) := by
          simp [Net.readBuffer, empty, net.eof_lt]
        have read : readBuffer net buf rx 1024 = .error (.thrown (.int net.eof)) := by
          rw [readBuffer, if_pos (by omega), plain]
        rw [bodyLoop_failed more plain]
        split
        · rename_i f failed
          rw [read] at failed
          rw [← Except.error.inj failed]
          rfl
        · rename_i found
          rw [read] at found
          cases found
      · obtain ⟨data, rest, buf₁, buf₂, plain, read, shown, size'⟩ := chunk_eq net size empty
        have shorter := Net.readBuffer_shorter plain
        rw [bodyLoop_chunk more plain]
        split
        · rename_i f failed
          rw [read] at failed
          cases failed
        · rename_i buf' n' rest' found
          rw [read] at found
          obtain ⟨rfl, same⟩ := Prod.mk.inj (Except.ok.inj found)
          obtain ⟨rfl, rfl⟩ := Prod.mk.inj same
          rw [shown]
          exact ih rest.length (by omega) size' _ _ rest rfl
    · rw [bodyLoop, if_neg more, bodyLoop_done (Nat.not_lt.mp more)]
      rfl

theorem readBody_eq (net : Net) (node : CNode) {buf : Str} (size : buf.length = 1025) (rx : Str) :
    readBody net node buf rx = lift (Node.readBody net node rx) := by
  unfold readBody Node.readBody
  cases node.getHeader "content-length".toList with
  | none => rfl
  | some vv =>
    dsimp only
    rw [bodyLoop_eq net size]
    generalize Node.bodyLoop net _ 0 [] rx = answer
    cases answer <;> rfl

/-! ### The cookies -/

theorem cookieLoop_eq (request : MRequest) (deccum : Str) :
    cookieLoop request deccum = lift (Node.cookieLoop request deccum) := by
  induction h : deccum.length using Nat.strong_induction_on generalizing request deccum with
  | _ size ih =>
    by_cases empty : deccum = []
    · rw [cookieLoop, dif_pos empty, Node.cookieLoop, dif_pos empty]
      rfl
    · have shorter := sliceCookie_shorter empty
      rw [cookieLoop, dif_neg empty, Node.cookieLoop, dif_neg empty]
      split
      · rename_i f failed
        rw [sliceCookie_eq] at failed
        cases failed
      · rename_i ck rest found
        rw [sliceCookie_eq] at found
        have same := Except.ok.inj found
        rw [same]
        dsimp only
        rw [same] at shorter
        cases parseCookie ck with
        | error e => rfl
        | ok cookie => exact ih rest.length (h ▸ shorter) _ rest rfl

/-! ### Every stream -/

theorem readHeader_error {net : Net} {rx : Str} {e : Exn}
    (failed : Node.readHeader net rx = .error e) : e = .int net.eof ∨
      e = .exception ∧ ∃ p, p <+: rx ∧ Header p ∧
        ' ' ∉ (headerLines p).headI.takeWhile (· ≠ ':') := by
  unfold Node.readHeader at failed
  rcases headerLoop_framed net.eof rx with ⟨p, rest, rfl, header, read⟩ | ⟨read, _⟩
  · rw [read] at failed
    cases lines : headerLines p with
    | nil =>
      rw [lines] at failed
      cases failed
    | cons first more =>
      rw [lines, List.map_cons] at failed
      dsimp only at failed
      cases line : requestLine (entry first).Var with
      | error e' =>
        rw [line] at failed
        obtain rfl := Except.error.inj failed
        obtain ⟨exception, plain⟩ := requestLine_error line
        rw [entry_space] at plain
        exact Or.inr ⟨exception, p, List.prefix_append p rest, header, by rw [lines]; exact plain⟩
      | ok node =>
        rw [line] at failed
        cases failed
  · rw [read] at failed
    exact Or.inl (Except.error.inj failed).symm

theorem readHeader_rejects (net : Net) {p : Str} (header : Header p) (rest : Str)
    (space : ' ' ∈ (headerLines p).headI)
    (plain : ' ' ∉ (headerLines p).headI.takeWhile (· ≠ ':')) :
    Node.readHeader net (p ++ rest) = .error .exception := by
  unfold Node.readHeader
  rw [headerLoop_header net.eof header rest]
  cases lines : headerLines p with
  | nil =>
    rw [lines] at space
    exact absurd space List.not_mem_nil
  | cons first more =>
    rw [lines, List.headI_cons, ← entry_space] at plain
    rw [List.map_cons]
    dsimp only
    rw [requestLine, findChar_none plain]

/-- Reading is safe on a stream exactly if its first line, once it has a space, has one in front
of its first colon. -/
theorem safe_iff (net : Net) (rx : Str) : Safe net rx ↔ ∀ p, p <+: rx → Header p →
    ' ' ∈ (headerLines p).headI → ' ' ∈ (headerLines p).headI.takeWhile (· ≠ ':') := by
  constructor
  · rintro safe p ⟨rest, rfl⟩ header space
    by_contra plain
    have rejected : readHeader net ['\x00', '\x00'] (p ++ rest) = .error (.thrown .exception) := by
      rw [readHeader_eq net rfl, readHeader_rejects net header rest space plain]
      rfl
    rcases safe.header _ _ rfl rejected with int | ⟨_, q, ⟨rest', whole⟩, other, spaceless⟩
    · cases int
    · rw [(header.unique other whole.symm).1] at space
      exact spaceless space
  · intro spaced
    refine ⟨fun buf f size failed => ?_, fun node buf rest f size failed => ?_, ?_⟩
    · rw [readHeader_eq net size] at failed
      obtain ⟨e, thrown, rfl⟩ := lift_error failed
      rcases readHeader_error thrown with rfl | ⟨rfl, p, inside, header, plain⟩
      · exact Or.inl rfl
      · exact Or.inr ⟨rfl, p, inside, header, fun space => plain (spaced p inside header space)⟩
    · rw [readBody_eq net node size] at failed
      obtain ⟨e, thrown, rfl⟩ := lift_error failed
      rw [readBody_error thrown]
    · intro request deccum
      obtain ⟨request', read⟩ := cookieLoop_total request deccum
      exact ⟨request', by rw [cookieLoop_eq, read]; rfl⟩

/-- The first line `a:b c` has a space and is rejected. -/
theorem spaced_line_rejected : ¬ ∀ (net : Net) (rx : Str), Safe net rx := by
  intro claim
  obtain ⟨header, lines⟩ := @headerText_framed ["a:b c".toList] (List.cons_ne_nil _ _) (by decide)
    (by decide)
  have rejected : readHeader fullNet ['\x00', '\x00'] (headerText ["a:b c".toList]) =
      .error (.thrown .exception) := by
    rw [readHeader_eq fullNet rfl]
    decide
  rcases (claim fullNet _).header _ _ rfl rejected with int | ⟨_, p, ⟨rest, whole⟩, other, plain⟩
  · cases int
  · obtain ⟨rfl, _⟩ := other.unique header (whole.trans (List.append_nil _).symm)
    rw [lines] at plain
    exact plain (by decide)

end Checked

end Solusek.Node
