import Solusek.Proofs.NodeInput

/-!
# The headers of a request

`CClient` writes a line for each header, and `CNode` keeps each line as a name and a value. A name is
looked up without regard to case, and the first that fits counts.
-/

namespace Solusek.RoundTrip

open Socket Lines Texts Client Node

def lower (s : Str) : Str := s.map Char.toLower

structure Request (client : CClient) (host path body : Str) : Prop where
  method : client.Method ≠ [] ∧ ' ' ∉ client.Method ∧ ':' ∉ client.Method ∧ Printed client.Method
  path : path.head? = some '/' ∧ ' ' ∉ path ∧ ':' ∉ path ∧ Printed path
  host : host ≠ [] ∧ Trimmed host
  names : ∀ it ∈ client.AdditionalHeaders.entries,
    it.1 ≠ [] ∧ ':' ∉ it.1 ∧ '\x00' ∉ it.1 ∧ ∀ c ∈ it.1, isspace c = false
  values : ∀ it ∈ client.AdditionalHeaders.entries, Trimmed it.2 ∧ Printed it.2
  distinct : client.AdditionalHeaders.entries.Pairwise fun a b => lower a.1 ≠ lower b.1
  apart : ∀ it ∈ client.AdditionalHeaders.entries,
    lower it.1 ≠ "host".toList ∧ lower it.1 ≠ "content-length".toList
  body : '\x00' ∉ body ∧ body.length < 2 ^ 31

def receive (net : Net) (rx : Str) : Except Exn (CNode × Str) :=
  match readHeader net rx with
  | .error e => .error e
  | .ok (node, rx) => readBody net node rx

structure Received (client : CClient) (path body : Str) (node : CNode) : Prop where
  method : node.Method = client.Method
  target : node.Path = path.takeWhile (· ≠ '?')
  query : node.QueryString = (path.dropWhile (· ≠ '?')).drop 1
  version : node.ProtocolVersion = "HTTP/1.1".toList
  header : ∀ it ∈ client.AdditionalHeaders.entries, ∀ name, lower name = lower it.1 →
    (node.getHeader name).map CVarVal.Val = some it.2
  body : node.Body = body

/-! ### What is written -/

def firstLine (client : CClient) (path : Str) : Str :=
  client.Method ++ ' ' :: (path ++ ' ' :: "HTTP/1.1".toList)

def requestLines (client : CClient) (host path body : Str) : List Str :=
  [firstLine client path, "Host".toList ++ ':' :: ' ' :: host] ++
    client.AdditionalHeaders.entries.map (fun it => it.1 ++ ':' :: ' ' :: it.2) ++
    if body.length > 0 then ["Content-length".toList ++ ':' :: ' ' :: printNat body.length] else []

theorem foldl_append_flatMap {κ : Type*} (f : κ → Str) (l : List κ) (data : Str) :
    l.foldl (fun data it => data ++ f it) data = data ++ l.flatMap f := by
  induction l generalizing data with
  | nil => simp
  | cons it l ih => rw [List.foldl_cons, ih, List.flatMap_cons, List.append_assoc]

theorem requestHead_eq (client : CClient) (host path body : Str) (eof : Int) :
    client.requestHead host path body =
      (headerReader eof).text ['\r'] (requestLines client host path body) := by
  have headers (data : Str) : client.AdditionalHeaders.entries.foldl
      (fun data it => data ++ it.1 ++ ": ".toList ++ it.2 ++ "\r\n".toList) data =
      data ++ client.AdditionalHeaders.entries.flatMap
        (fun it => it.1 ++ ':' :: ' ' :: it.2 ++ ['\r', '\n']) := by
    rw [← foldl_append_flatMap]
    simp
  simp only [CClient.requestHead, headers]
  split
  · rename_i nonempty
    simp [Reader.text, Reader.brk, headerReader, requestLines, firstLine, nonempty,
      List.flatMap_map]
  · rename_i empty
    simp [Reader.text, Reader.brk, headerReader, requestLines, firstLine, empty,
      List.flatMap_map]

theorem bodyWriter_full {net : Net} (full : SendsInFull net) (body : Str) (done : Nat)
    (tx : Str) : bodyWriter net body done tx = (.ok (), tx ++ body.drop done) := by
  induction h : body.length - done using Nat.strong_induction_on generalizing done tx with
  | _ left ih =>
    unfold bodyWriter
    by_cases more : done < body.length
    · rw [if_pos more]
      obtain ⟨chunk, size⟩ : ∃ chunk, chunk =
          if done + 1024 > body.length then body.length - done else 1024 := ⟨_, rfl⟩
      have bounds : 0 < chunk ∧ chunk ≤ 1024 ∧ done + chunk ≤ body.length := by
        split at size <;> omega
      have length : ((body.drop done).take chunk).length = chunk := by
        rw [List.length_take, List.length_drop]
        omega
      have written := @writeBuffer_full net full ((body.drop done).take chunk) (by omega)
        (by omega) tx
      rw [length] at written
      simp only [← size, written]
      rw [ih (body.length - (done + chunk)) (by omega) _ _ rfl, List.append_assoc,
        ← List.drop_drop, List.take_append_drop]
    · rw [if_neg more, List.drop_eq_nil_of_le (by omega), List.append_nil]

theorem writeRequest_full {net : Net} (full : SendsInFull net) {client : CClient}
    {host path body : Str} (short : (client.requestHead host path body).length < 2 ^ 31) :
    client.writeRequest net host path body =
      (.ok (), client.requestHead host path body ++ body) := by
  have positive : 0 < (client.requestHead host path body).length := by
    rw [requestHead_eq client host path body 0]
    simp [Reader.text, Reader.brk]
  unfold CClient.writeRequest
  simp only [writeBuffer_full full positive short, bodyWriter_full full, List.nil_append,
    List.drop_zero]

theorem requestLines_written (client : CClient) (host path body : Str) (eof : Int) :
    ∀ l ∈ requestLines client host path body, l.all (headerReader eof).skip = false := by
  have seen (a b : Str) (c : Char) (other : (headerReader eof).skip c = false) :
      (a ++ c :: b).all (headerReader eof).skip = false := by
    simp [other]
  intro l member
  unfold requestLines firstLine at member
  simp only [List.mem_append, List.mem_cons, List.not_mem_nil, or_false, List.mem_map] at member
  rcases member with ((rfl | rfl) | ⟨it, inside, rfl⟩) | length
  · exact seen _ _ ' ' rfl
  · exact seen _ _ ':' rfl
  · exact seen _ _ ':' rfl
  · split at length
    · rw [List.mem_singleton.mp length]
      exact seen _ _ ':' rfl
    · exact absurd length List.not_mem_nil

/-! ### What is read -/

/-- The bytes of a host that show up in its header. -/
def shownHost (host : Str) : Str := host.filter fun c => !(c == '\r' || c == '\x00')

/-- The entries behind the additional headers: the length and the empty line. -/
def lastHeaders (body : Str) : List CVarVal :=
  (if body.length > 0 then [{ Var := "content-length".toList, Val := printNat body.length }]
    else []) ++ [{ Var := [] }]

def headersOf (client : CClient) (host path body : Str) : List CVarVal :=
  { Var := firstLine client path } :: { Var := "host".toList, Val := trim (' ' :: shownHost host) } ::
    (client.AdditionalHeaders.entries.map fun it => { Var := lower it.1, Val := it.2 }) ++
    lastHeaders body

theorem shown_printed {s : Str} (printed : Printed s) (eof : Int) :
    (headerReader eof).shown s = s := by
  rw [shown_eq]
  apply List.filter_eq_self.mpr
  intro c member
  have notCr : c ≠ '\r' := fun same => printed.1 (same ▸ member)
  have notNul : c ≠ '\x00' := fun same => printed.2.2 (same ▸ member)
  simp [notCr, notNul]

theorem host_entry (host : Str) (eof : Int) :
    entry ((headerReader eof).shown ("Host".toList ++ ':' :: ' ' :: host)) =
      { Var := "host".toList, Val := trim (' ' :: shownHost host) } := by
  have split : (headerReader eof).shown ("Host".toList ++ ':' :: ' ' :: host) =
      "Host".toList ++ ':' :: ' ' :: shownHost host := by
    rw [shown_eq, List.filter_append]
    rfl
  rw [split, entry_colon (by decide)]
  rfl

theorem contentLength_entry (n : Nat) (eof : Int) :
    entry ((headerReader eof).shown ("Content-length".toList ++ ':' :: ' ' :: printNat n)) =
      { Var := "content-length".toList, Val := printNat n } := by
  have whole : Printed ("Content-length".toList ++ ':' :: ' ' :: printNat n) :=
    printed_append ⟨by decide, by decide, by decide⟩
      (printed_cons (by decide) (printed_cons (by decide) (printNat_printed n)))
  rw [shown_printed whole, entry_colon (by decide), trim_space (printNat_trimmed n)]
  rfl

namespace Request

variable {client : CClient} {host path body : Str}

theorem name_printed (request : Request client host path body) {it : Str × Str}
    (member : it ∈ client.AdditionalHeaders.entries) : Printed it.1 := by
  obtain ⟨_, _, nul, solid⟩ := request.names it member
  exact ⟨fun cr => absurd (solid _ cr) (by decide), fun lf => absurd (solid _ lf) (by decide), nul⟩

theorem firstLine_printed (request : Request client host path body) :
    Printed (firstLine client path) := by
  have space : ' ' ≠ '\r' ∧ ' ' ≠ '\n' ∧ ' ' ≠ '\x00' := by decide
  exact printed_append request.method.2.2.2 (printed_cons space
    (printed_append request.path.2.2.2 (printed_cons space ⟨by decide, by decide, by decide⟩)))

theorem firstLine_plain (request : Request client host path body) :
    ':' ∉ firstLine client path := by
  have method := request.method.2.2.1
  have target := request.path.2.2.1
  simp [firstLine, method, target]

theorem lines_inside (request : Request client host path body) (oneLine : '\n' ∉ host) :
    ∀ l ∈ requestLines client host path body, '\n' ∉ l := by
  intro l member
  unfold requestLines at member
  simp only [List.mem_append, List.mem_cons, List.not_mem_nil, or_false, List.mem_map] at member
  rcases member with ((rfl | rfl) | ⟨it, inside, rfl⟩) | length
  · exact request.firstLine_printed.2.1
  · simp [oneLine]
  · have name := (request.name_printed inside).2.1
    have value := (request.values it inside).2.2.1
    simp [name, value]
  · split at length
    · rw [List.mem_singleton.mp length]
      have digits := (printNat_printed body.length).2.1
      simp [digits]
    · exact absurd length List.not_mem_nil

theorem firstLine_entry (request : Request client host path body) (eof : Int) :
    entry ((headerReader eof).shown (firstLine client path)) = { Var := firstLine client path } := by
  rw [shown_printed request.firstLine_printed, entry, if_neg request.firstLine_plain]

theorem header_entry (request : Request client host path body) (eof : Int) {it : Str × Str}
    (member : it ∈ client.AdditionalHeaders.entries) :
    entry ((headerReader eof).shown (it.1 ++ ':' :: ' ' :: it.2)) =
      { Var := lower it.1, Val := it.2 } := by
  obtain ⟨trimmed, printed⟩ := request.values it member
  have whole : Printed (it.1 ++ ':' :: ' ' :: it.2) :=
    printed_append (request.name_printed member)
      (printed_cons (by decide) (printed_cons (by decide) printed))
  rw [shown_printed whole, entry_colon (request.names it member).2.1, trim_space trimmed]
  rfl

theorem entries_of_lines (request : Request client host path body) (eof : Int) :
    ((requestLines client host path body).map (headerReader eof).shown ++ [[]]).map entry =
      headersOf client host path body := by
  have headers : client.AdditionalHeaders.entries.map
      (fun it => entry ((headerReader eof).shown (it.1 ++ ':' :: ' ' :: it.2))) =
      client.AdditionalHeaders.entries.map fun it => { Var := lower it.1, Val := it.2 } :=
    List.map_congr_left fun it member => request.header_entry eof member
  have length : (if body.length > 0 then ["Content-length".toList ++ ':' :: ' ' ::
      printNat body.length] else []).map (fun l => entry ((headerReader eof).shown l)) =
      if body.length > 0 then
        [{ Var := "content-length".toList, Val := printNat body.length }] else [] := by
    split
    · rw [List.map_singleton, contentLength_entry]
    · rfl
  have blank : entry [] = { Var := [] } := by simp [entry]
  simp only [requestLines, headersOf, lastHeaders, List.map_append, List.map_cons, List.map_nil, List.map_map,
    Function.comp_def, request.firstLine_entry, host_entry, headers, length, blank,
    List.cons_append, List.nil_append, List.append_assoc]

theorem headerLoop_request (request : Request client host path body) (oneLine : '\n' ∉ host)
    (eof : Int) : headerLoop eof [] 0 [] (client.requestHead host path body ++ body) =
      .ok (headersOf client host path body, body) := by
  have handled := foldlM_headerLine eof
    ((requestLines client host path body).map (headerReader eof).shown ++ [[]]) []
  have nonempty : requestLines client host path body ≠ [] := List.cons_ne_nil _ _
  have read := Reader.scan_text (headerReader_cr eof) rfl nonempty (request.lines_inside oneLine)
    (requestLines_written client host path body eof) body handled
  rw [headerLoop_eq, requestHead_eq client host path body eof, read, request.entries_of_lines eof]
  rfl

end Request

/-! ### Looking headers up -/

theorem mem_lower {c : Char} {s : Str} (low : c.toNat < 65) : c ∈ lower s ↔ c ∈ s := by
  unfold lower
  rw [List.mem_map]
  constructor
  · rintro ⟨d, member, same⟩
    exact (toLower_eq_iff low).mp same ▸ member
  · exact fun member => ⟨c, member, (toLower_eq_iff low).mpr rfl⟩

theorem mem_strtolower {c : Char} {s : Str} (low : c.toNat < 65) (member : c ∈ s) :
    c ∈ strtolower s := by
  have mapped : c ∈ lower (strtolower s) := by
    unfold lower
    rw [strtolower_lower]
    exact (mem_lower low).mpr member
  exact (mem_lower low).mp mapped

theorem space_low : ' '.toNat < 65 := by simp

/-- The request line holds a space, so no header name finds it. -/
theorem firstLine_skipped (client : CClient) (path : Str) {key : Str} (solid : ' ' ∉ key) :
    ¬ named key { Var := firstLine client path } := by
  have space : ' ' ∈ firstLine client path := by simp [firstLine]
  rw [named_iff]
  intro same
  exact solid (same ▸ mem_strtolower space_low space)

theorem named_lower {name key val : Str} :
    named key { Var := lower name, Val := val } = true ↔ lower name = key := by
  have low : strtolower (lower name) = lower name := strtolower_of_lower name
  rw [named_iff, low]

theorem find_entries {l : List (Str × Str)} (distinct : l.Pairwise fun a b => lower a.1 ≠ lower b.1)
    {it : Str × Str} (member : it ∈ l) :
    (l.map fun it => ({ Var := lower it.1, Val := it.2 } : CVarVal)).find? (named (lower it.1)) =
      some { Var := lower it.1, Val := it.2 } := by
  induction l with
  | nil => exact absurd member List.not_mem_nil
  | cons other l ih =>
    obtain ⟨apart, rest⟩ := List.pairwise_cons.mp distinct
    rw [List.map_cons]
    rcases List.mem_cons.mp member with rfl | later
    · exact List.find?_cons_of_pos (named_lower.mpr rfl)
    · rw [List.find?_cons_of_neg fun same => apart it later (named_lower.mp same)]
      exact ih rest later

theorem find_entries_none {l : List (Str × Str)} {key : Str}
    (apart : ∀ it ∈ l, lower it.1 ≠ key) :
    (l.map fun it => ({ Var := lower it.1, Val := it.2 } : CVarVal)).find? (named key) = none := by
  rw [List.find?_eq_none]
  intro vv member same
  obtain ⟨it, inside, rfl⟩ := List.mem_map.mp member
  exact apart it inside (named_lower.mp same)

theorem lower_host : lower "Host".toList = "host".toList := by simp [lower]

theorem lower_contentLength : lower "Content-length".toList = "content-length".toList := by
  simp [lower]

theorem host_skipped {key : Str} (other : key ≠ "host".toList) (val : Str) :
    ¬ named key { Var := "host".toList, Val := val } := by
  rw [← lower_host, named_lower, lower_host]
  exact other.symm

theorem blank_skipped {key : Str} (nonempty : key ≠ []) : ¬ named key { Var := [] } := by
  have blank : strtolower [] = [] := by simp [strtolower]
  rw [named_iff, blank]
  exact nonempty.symm

theorem find_headersOf (client : CClient) (host path body : Str) {key : Str} (solid : ' ' ∉ key)
    (other : key ≠ "host".toList) :
    (headersOf client host path body).find? (named key) =
      ((client.AdditionalHeaders.entries.map fun it =>
          ({ Var := lower it.1, Val := it.2 } : CVarVal)).find? (named key)).or
        ((lastHeaders body).find? (named key)) := by
  unfold headersOf
  rw [List.cons_append, List.cons_append,
    List.find?_cons_of_neg (firstLine_skipped client path solid),
    List.find?_cons_of_neg (host_skipped other _), List.find?_append]

theorem find_host (client : CClient) (host path body : Str) :
    (headersOf client host path body).find? (named "host".toList) =
      some { Var := "host".toList, Val := trim (' ' :: shownHost host) } := by
  have here : named "host".toList { Var := "host".toList, Val := trim (' ' :: shownHost host) } := by
    rw [← lower_host, named_lower]
  unfold headersOf
  rw [List.cons_append, List.cons_append,
    List.find?_cons_of_neg (firstLine_skipped client path (by decide)),
    List.find?_cons_of_pos here]

namespace Request

variable {client : CClient} {host path body : Str}

theorem name_solid (request : Request client host path body) {it : Str × Str}
    (member : it ∈ client.AdditionalHeaders.entries) : ' ' ∉ lower it.1 := by
  rw [mem_lower space_low]
  exact fun space => absurd ((request.names it member).2.2.2 _ space) (by decide)

theorem find_header (request : Request client host path body) {it : Str × Str}
    (member : it ∈ client.AdditionalHeaders.entries) :
    (headersOf client host path body).find? (named (lower it.1)) =
      some { Var := lower it.1, Val := it.2 } := by
  rw [find_headersOf client host path body (request.name_solid member) (request.apart it member).1,
    find_entries request.distinct member]
  rfl

theorem find_contentLength (request : Request client host path body) :
    (headersOf client host path body).find? (named "content-length".toList) =
      if body.length > 0 then
        some { Var := "content-length".toList, Val := printNat body.length }
      else none := by
  have here (val : Str) :
      named "content-length".toList { Var := "content-length".toList, Val := val } := by
    rw [← lower_contentLength, named_lower]
  rw [find_headersOf client host path body (by decide) (by decide),
    find_entries_none fun it member => (request.apart it member).2, Option.none_or, lastHeaders]
  split
  · rw [List.cons_append, List.find?_cons_of_pos (here _)]
  · rw [List.nil_append, List.find?_cons_of_neg (blank_skipped (by decide))]
    rfl

end Request

end Solusek.RoundTrip
