import Solusek.Proofs.ReadableAnswers

/-!
# Complete requests

A request that is not complete has no effect, and a complete one is answered, however its bytes
arrive and whatever follows them.
-/

namespace Solusek.Serve

open Socket Node Static

variable {σ : Type*}

theorem not_finished_of_cut {p body a : Str} {node : Node.CNode} (head : Head p node)
    (whole : body.length = announced node) (cut : a <+: p ++ body)
    (short : a.length < (p ++ body).length) : ¬ Finished a := by
  rintro ⟨q, rest, node', rfl, head', enough⟩
  obtain ⟨more, back⟩ := cut
  have same : p ++ body = q ++ (rest ++ more) := by
    rw [← back, List.append_assoc]
  obtain ⟨rfl, tail⟩ := head.header.unique head'.header same
  obtain rfl : node = node' := Except.ok.inj (head.parsed.symm.trans head'.parsed)
  simp only [List.length_append] at short
  omega

theorem reply_silent (srv : CServer σ) (fs : FileSystem) {node : Node.CNode} (empty : node.Path = [])
    (s : σ) : reply srv fs node s = ((.ok none, []), s) := by
  unfold reply
  rw [empty]
  rfl

theorem reply_answers (srv : CServer σ) (fs : FileSystem) {node : Node.CNode}
    (path : node.Path ≠ []) (s : σ) : (reply srv fs node s).1.1 ≠ .ok none := by
  have positive : node.Path.length > 0 := List.length_pos_of_ne_nil path
  unfold reply
  rw [if_pos positive]
  repeat' split
  · simp
  · simp
  · simp
  · rename_i ep _ _
    simp only
    cases pageOf ep <;> simp [Except.map]

/-- A response goes out, and a client reads it where the connection delivers in full. -/
def Answered (c : Connection) (outcome : Outcome) : Prop :=
  ∃ response, outcome.1 = .ok (sent c (some response)) ∧
    (SendsInFull c.net → Delivers response (sent c (some response)))

/-- Up to its last byte a request has no effect at all. From there on, whatever follows it and
however the bytes arrive, a careful server answers it, or has opened a directory. -/
theorem request_gates {p body : Str} {node : Node.CNode} (head : Head p node)
    (whole : body.length = announced node) (small : announced node ≤ 2 ^ 32 - 1024)
    (setup : List (Setup σ)) (fs : FileSystem) (c : Connection) (s : σ) :
    (c.rx <+: p ++ body → c.rx.length < (p ++ body).length →
      CNode.run (configured setup) fs c s = ((.ok [], []), s)) ∧
    (p ++ body <+: c.rx → (∃ Body, received c = { node with Body := Body }) ∧
      (Careful setup fs → Answered c (CNode.run (configured setup) fs c s).1 ∨
        OpensDirectory fs (CNode.run (configured setup) fs c s).1.2)) := by
  constructor
  · intro cut short
    have silent := received_unfinished c (not_finished_of_cut head whole cut short)
    unfold CNode.run
    simp only [reply_silent (configured setup) fs silent s]
    rfl
  · rintro ⟨extra, full⟩
    have enough : announced node ≤ (body ++ extra).length := by
      rw [List.length_append]
      omega
    obtain ⟨Body, same⟩ := @received_finished c p (body ++ extra) node
      (by rw [← full, List.append_assoc]) head small enough
    refine ⟨⟨Body, same⟩, fun careful => ?_⟩
    rcases careful.reply (received_terminated c) s with ⟨r, made, sendable⟩ | ⟨_, _, opened⟩
    · have path : (received c).Path ≠ [] := by
        rw [same]
        exact head.path
      have answers := reply_answers (configured setup) fs path s
      cases r with
      | none => exact absurd made answers
      | some response =>
        have written : (CNode.run (configured setup) fs c s).1.1 = .ok (sent c (some response)) := by
          unfold CNode.run
          simp only [made]
          rfl
        exact Or.inl ⟨response, written, fun full => delivers_sent full (sendable response rfl)⟩
    · exact Or.inr opened

def getLine : Str := "GET / HTTP/1.1".toList

theorem getLine_head : Head (headerText [getLine])
    { Method := "GET".toList, Path := "/".toList, ProtocolVersion := "HTTP/1.1".toList
      Headers := [{ Var := getLine }, { Var := [] }] } := by
  obtain ⟨header, lines⟩ := @headerText_framed [getLine] (List.cons_ne_nil _ _) (by decide)
    (by decide)
  have shown : filtered getLine = getLine := by decide
  have first : requestLine getLine = .ok
      { Method := "GET".toList, Path := "/".toList, ProtocolVersion := "HTTP/1.1".toList } := by
    decide
  refine ⟨header, ?_, List.cons_ne_nil _ _⟩
  rw [List.map_singleton, shown] at lines
  have entries : (headerLines (headerText [getLine])).map entry =
      [{ Var := getLine }, { Var := [] }] := by
    rw [lines]
    decide
  unfold headNode
  rw [entries]
  simp only [first, Except.map]

theorem getLine_announced : announced
    { Method := "GET".toList, Path := "/".toList, ProtocolVersion := "HTTP/1.1".toList
      Headers := [{ Var := getLine }, { Var := [] }] } = 0 := by
  have spaced : ¬ named "content-length".toList { Var := getLine } := by
    rw [named_iff]
    intro same
    have space : ' ' ∈ strtolower getLine :=
      RoundTrip.mem_strtolower RoundTrip.space_low (by decide)
    rw [same] at space
    exact absurd space (by decide)
  have low : "content-length".toList.map Char.toLower = "content-length".toList := by simp
  unfold announced
  rw [getHeader_eq _ (show '\x00' ∉ "content-length".toList by decide), low,
    List.find?_cons_of_neg spaced,
    List.find?_cons_of_neg (RoundTrip.blank_skipped (by decide))]
  rfl

/-- Without the last line feed, and with it. -/
theorem request_gates_get :
    CNode.run (configured []) ⟨fun _ => none, fun _ => []⟩
      ⟨fullNet, "GET / HTTP/1.1\r\n\r".toList, midnight⟩ () = ((.ok [], []), ()) ∧
    Answered ⟨fullNet, "GET / HTTP/1.1\r\n\r\n".toList, midnight⟩
      (CNode.run (configured []) ⟨fun _ => none, fun _ => []⟩
        ⟨fullNet, "GET / HTTP/1.1\r\n\r\n".toList, midnight⟩ ()).1 := by
  have text : headerText [getLine] = "GET / HTTP/1.1\r\n\r\n".toList := by decide
  have gates (rx : Str) := @request_gates Unit _ [] _ getLine_head getLine_announced.symm
    (by rw [getLine_announced]; decide) [] ⟨fun _ => none, fun _ => []⟩ ⟨fullNet, rx, midnight⟩ ()
  have careful : Careful ([] : List (Setup Unit)) ⟨fun _ => none, fun _ => []⟩ :=
    ⟨nofun, nofun, nofun⟩
  constructor
  · refine (gates _).1 ?_ ?_
    · rw [text]
      exact ⟨"\n".toList, by decide⟩
    · rw [text]
      decide
  · have whole : headerText [getLine] ++ [] <+: "GET / HTTP/1.1\r\n\r\n".toList := by
      rw [text]
      exact ⟨[], by decide⟩
    rcases ((gates _).2 whole).2 careful with answered | ⟨name, size, _, directory⟩
    · exact answered
    · cases directory

end Solusek.Serve
