import Solusek.Proofs.ResponseTexts

/-!
# Responses

What `CNode` writes is what `CClient` reads: the code, the content type and the body, byte for
byte. Every text of the header has to be short enough for the `int` its length is sent as.
-/

namespace Solusek.RoundTrip

open Socket Lines Texts Client Node

/-! ### The names that count -/

theorem key_eq {name : Str} (small : name.length < 20) :
    trim (strtolower name) = trim (name.map Char.toLower) := by
  have short : name.length < 2 ^ 31 := by omega
  rw [strtolower_short short]

theorem later_names {response : MResponse} {f : Str × Str} (member : f ∈ laterFields response) :
    f.1 ∈ ["Set-Cookie", "Server", "Connection"].map String.toList := by
  rcases List.mem_append.mp member with cookie | fixed
  · obtain ⟨_, _, rfl⟩ := List.mem_map.mp cookie
    exact List.mem_cons_self
  · simp only [List.mem_cons, List.not_mem_nil, or_false] at fixed
    rcases fixed with rfl | rfl
    · exact List.mem_cons_of_mem _ List.mem_cons_self
    · exact List.mem_cons_of_mem _ (List.mem_cons_of_mem _ List.mem_cons_self)

theorem laterFields_apart (response : MResponse) : ∀ f ∈ laterFields response,
    trim (strtolower f.1) ≠ "content-type".toList ∧
      trim (strtolower f.1) ≠ "content-length".toList := by
  have keys : ∀ name ∈ ["Set-Cookie", "Server", "Connection"].map String.toList,
      name.length < 20 ∧ trim (name.map Char.toLower) ≠ "content-type".toList ∧
        trim (name.map Char.toLower) ≠ "content-length".toList := by
    decide
  intro f member
  obtain ⟨small, apart⟩ := keys f.1 (later_names member)
  rw [key_eq small]
  exact apart

theorem headOf_contentLength (response : MResponse) (tm : Tm) :
    (headOf response tm).headers "content-length".toList =
      printNat (response.Body.length % 2 ^ 32) := by
  have named : trim (strtolower "Content-Length".toList) = "content-length".toList := by
    rw [key_eq (by decide)]
    decide
  have modified : trim (strtolower "Last-Modified".toList) ≠ "content-length".toList := by
    rw [key_eq (by decide)]
    decide
  unfold headOf fields
  simp only
  rw [Function.update_of_ne (by decide), List.foldl_cons, List.foldl_cons,
    @foldl_put_last ("Content-Length".toList, _) _ _ named, trim_space (printNat_trimmed _)]
  intro f member
  rcases List.mem_cons.mp member with rfl | later
  · exact modified
  · exact (laterFields_apart response f later).2

theorem headOf_contentType {response : MResponse} (trimmed : Trimmed response.ContentType)
    (tm : Tm) : (headOf response tm).headers "content-type".toList = response.ContentType := by
  have named : trim (strtolower "Content-Type".toList) = "content-type".toList := by
    rw [key_eq (by decide)]
    decide
  have length : trim (strtolower "Content-Length".toList) ≠ "content-type".toList := by
    rw [key_eq (by decide)]
    decide
  have modified : trim (strtolower "Last-Modified".toList) ≠ "content-type".toList := by
    rw [key_eq (by decide)]
    decide
  unfold headOf fields
  simp only
  rw [Function.update_of_ne (by decide), List.foldl_cons,
    @foldl_put_last ("Content-Type".toList, _) _ _ named, trim_space trimmed]
  intro f member
  rcases List.mem_cons.mp member with rfl | member
  · exact length
  rcases List.mem_cons.mp member with rfl | later
  · exact modified
  · exact (laterFields_apart response f later).1

/-! ### The body -/

theorem readResponse_eq {response : MResponse} (reply : Reply response) (tm : Tm) (peer : Net)
    (garbage : Nat) : ∃ answer,
      readResponse peer garbage ((headParts response tm).flatten ++ response.Body) = .ok answer ∧
      answer.Code = response.Code ∧ answer.Body = response.Body ∧
      answer.ContentType = response.ContentType := by
  have head := reply.headLoop_response tm peer.eof
  have type := headOf_contentType reply.contentType.2 tm
  have length := headOf_contentLength response tm
  have small := reply.body
  have typed : response.ContentType.length > 0 := List.length_pos_of_ne_nil reply.contentType.1
  have digits : (printNat (response.Body.length % 2 ^ 32)).length > 0 := Nat.length_toDigits_pos
  have clen : (atoi (cstr (printNat (response.Body.length % 2 ^ 32))) % 2 ^ 32).toNat =
      response.Body.length := by
    rw [cstr_eq (printNat_printed _).2.2, atoi_printNat (by omega)]
    omega
  have read := readBytes_all peer.eof response.Body []
  rw [List.append_nil] at read
  unfold readResponse
  rw [head]
  simp only [type, length, if_pos typed, if_pos digits, clen, read]
  exact ⟨_, rfl, rfl, rfl, rfl⟩

/-! ### Responses that arrive -/

theorem cookieParts_sendable {cookie : MCookie} (nonempty : cookie.Name ≠ [] ∧ cookie.Value ≠ [])
    (short : cookie.Name.length < 2 ^ 31 ∧ cookie.Value.length < 2 ^ 31 ∧
      cookie.Path.length < 2 ^ 31) :
    ∀ part ∈ cookieParts cookie, 0 < part.length ∧ part.length < 2 ^ 31 := by
  have name := List.length_pos_of_ne_nil nonempty.1
  have value := List.length_pos_of_ne_nil nonempty.2
  unfold cookieParts
  split
  · rename_i path
    simp only [List.forall_mem_append, List.forall_mem_cons, List.not_mem_nil, false_imp_iff,
      implies_true, and_true]
    exact ⟨⟨⟨by decide, ⟨name, short.1⟩, by decide, ⟨value, short.2.1⟩, by decide⟩,
      by decide, path, short.2.2⟩, by decide⟩
  · simp only [List.forall_mem_append, List.forall_mem_cons, List.not_mem_nil, false_imp_iff,
      implies_true, and_true]
    exact ⟨⟨by decide, ⟨name, short.1⟩, by decide, ⟨value, short.2.1⟩, by decide⟩, by decide⟩

theorem sidParts_sendable {SID : Str} (short : SID.length < 2 ^ 31) :
    ∀ part ∈ sidParts SID, 0 < part.length ∧ part.length < 2 ^ 31 := by
  unfold sidParts
  split
  · rename_i nonempty
    simp only [List.forall_mem_cons, List.not_mem_nil, false_imp_iff, implies_true, and_true]
    exact ⟨by decide, by decide, by decide, ⟨nonempty, short⟩, by decide, by decide, by decide⟩
  · intro part member
    exact absurd member List.not_mem_nil

theorem openParts_sendable {response : MResponse}
    (code : -2 ^ 31 ≤ response.Code ∧ response.Code < 2 ^ 31)
    (type : response.ContentType ≠ [] ∧ response.ContentType.length < 2 ^ 31)
    (date : response.Date.length < 2 ^ 31) (tm : Tm) :
    ∀ part ∈ openParts response tm, 0 < part.length ∧ part.length < 2 ^ 31 := by
  have date := responseDate_size date tm
  have type : 0 < response.ContentType.length ∧ response.ContentType.length < 2 ^ 31 :=
    ⟨List.length_pos_of_ne_nil type.1, type.2⟩
  have code : 0 < (printInt response.Code).length ∧ (printInt response.Code).length < 2 ^ 31 := by
    have digits := printInt_short code
    omega
  have desc : 0 < response.getCodeDescription.length ∧
      response.getCodeDescription.length < 2 ^ 31 := by
    unfold MResponse.getCodeDescription
    repeat' split
    all_goals decide
  have length : 0 < (printNat (response.Body.length % 2 ^ 32)).length ∧
      (printNat (response.Body.length % 2 ^ 32)).length < 2 ^ 31 := by
    have digits := @printNat_short (response.Body.length % 2 ^ 32) (by omega)
    have positive : 0 < (printNat (response.Body.length % 2 ^ 32)).length := Nat.length_toDigits_pos
    omega
  unfold openParts
  simp only [List.forall_mem_cons, List.not_mem_nil, false_imp_iff, implies_true, and_true]
  exact ⟨by decide, code, by decide, desc, by decide, by decide, date, by decide, by decide, type,
    by decide, by decide, length, by decide, by decide, date, by decide⟩

theorem headParts_sendable {response : MResponse}
    (code : -2 ^ 31 ≤ response.Code ∧ response.Code < 2 ^ 31) (type : response.ContentType ≠ [])
    (filled : ∀ cookie ∈ response.Cookies, cookie.Name ≠ [] ∧ cookie.Value ≠ [])
    (short : ∀ text ∈ headerTexts response, text.length < 2 ^ 31) (tm : Tm) :
    ∀ part ∈ headParts response tm, 0 < part.length ∧ part.length < 2 ^ 31 := by
  have opened := openParts_sendable code
    ⟨type, short response.ContentType (by simp [headerTexts])⟩
    (short response.Date (by simp [headerTexts])) tm
  have sid := sidParts_sendable (short response.SID (by simp [headerTexts]))
  have cookies : ∀ part ∈ response.Cookies.flatMap cookieParts,
      0 < part.length ∧ part.length < 2 ^ 31 := by
    intro part member
    obtain ⟨cookie, inside, piece⟩ := List.mem_flatMap.mp member
    have texts : ∀ text ∈ [cookie.Name, cookie.Value, cookie.Path], text.length < 2 ^ 31 :=
      fun text among => short text
        (List.mem_append_right _ (List.mem_flatMap.mpr ⟨cookie, inside, among⟩))
    exact cookieParts_sendable (filled cookie inside)
      ⟨texts _ (by simp), texts _ (by simp), texts _ (by simp)⟩ part piece
  unfold headParts
  simp only [List.forall_mem_append, List.forall_mem_cons, List.not_mem_nil, false_imp_iff,
    implies_true, and_true]
  exact ⟨opened, sid, cookies, by decide, by decide, by decide⟩

/-- What the client's reader makes of the bytes of a response, however they arrive. -/
def Answered (response : MResponse) : Prop :=
  ∀ (net peer : Net) (tm : Tm) (garbage : Nat), SendsInFull net → ∃ answer,
    readResponse peer garbage (writeResponse net response tm).2 = .ok answer ∧
    answer.Code = response.Code ∧ answer.Body = response.Body ∧
    answer.ContentType = response.ContentType

/-- A response whose header texts are all shorter than 2^31 bytes reaches the client with its
code, its content type and its body. -/
theorem response_delivered {response : MResponse} (reply : Reply response)
    (short : ∀ text ∈ headerTexts response, text.length < 2 ^ 31) : Answered response := by
  intro net peer tm garbage full
  have sent := writeAll_last full
    (headParts_sendable reply.code reply.contentType.1 reply.cookies short tm) reply.body
  unfold writeResponse
  rw [responseParts_eq, sent]
  exact readResponse_eq reply tm peer garbage

/-! ### Inputs -/

def hiResponse (Date : Str) : MResponse where
  Body := "hi".toList
  Date := Date

theorem hiResponse_texts {date text : Str} (member : text ∈ headerTexts (hiResponse date)) :
    text = "application/json".toList ∨ text = date ∨ text = [] := by
  simpa [headerTexts, hiResponse] using member

theorem hiResponse_reply {date : Str} (stamp : date.all stampChar = true) :
    Reply (hiResponse date) where
  code := by
    show -2 ^ 31 ≤ (200 : Int) ∧ (200 : Int) < 2 ^ 31
    decide
  body := by
    show "hi".toList.length < 2 ^ 31
    decide
  contentType := by
    refine ⟨List.cons_ne_nil _ _, fun c first => ?_, fun c last => ?_⟩
    · obtain rfl : 'a' = c := by simpa [hiResponse] using first
      rfl
    · obtain rfl : 'n' = c := by simpa [hiResponse] using last
      rfl
  cookies := fun cookie member => absurd member List.not_mem_nil
  texts := by
    intro text member
    rcases hiResponse_texts member with rfl | rfl | rfl
    · exact headerText_of_stamp rfl
    · exact headerText_of_stamp stamp
    · exact headerText_of_stamp rfl

theorem response_delivered_hi : Answered (hiResponse "now".toList) := by
  apply response_delivered (hiResponse_reply rfl)
  intro text member
  rcases hiResponse_texts member with rfl | rfl | rfl <;> decide

theorem responseParts_date (response : MResponse) (tm : Tm) : ∃ rest,
    responseParts response tm = ["HTTP/1.1 ".toList, printInt response.Code, " ".toList,
      response.getCodeDescription, "\r\n".toList, "Date: ".toList] ++
        responseDate response tm :: rest :=
  ⟨_, rfl⟩

/-- The length of the text wraps around to 0, and nothing is sent. -/
theorem writeBuffer_wrapped {net : Net} (full : SendsInFull net) {buf : Str}
    (long : buf.length = 2 ^ 32) (tx : Str) :
    net.writeBuffer tx buf buf.length = (.error (.int 0), tx) := by
  have wrapped : sizeToInt buf.length = 0 := by
    unfold sizeToInt
    rw [long]
    exact Int.bmod_self
  have sent : net.send tx.length (sizeToInt buf.length) = 0 := by
    rw [wrapped]
    exact full _ _ (by decide)
  unfold Net.writeBuffer
  simp only [sent]
  simp

theorem writeResponse_cut {net : Net} (full : SendsInFull net) {date : Str}
    (long : date.length = 2 ^ 32) (tm : Tm) :
    (writeResponse net (hiResponse date) tm).2 = "HTTP/1.1 200 OK\r\nDate: ".toList := by
  obtain ⟨rest, parts⟩ := responseParts_date (hiResponse date) tm
  have code : printInt (hiResponse date).Code = "200".toList := by
    show printInt 200 = "200".toList
    decide
  have desc : (hiResponse date).getCodeDescription = "OK".toList := rfl
  have own : responseDate (hiResponse date) tm = date := by
    have nonempty : ¬ (hiResponse date).Date.length = 0 := by
      show ¬ date.length = 0
      omega
    unfold responseDate
    rw [if_neg nonempty]
    rfl
  have sound : ∀ part ∈ ["HTTP/1.1 ".toList, "200".toList, " ".toList, "OK".toList, "\r\n".toList,
      "Date: ".toList], 0 < part.length ∧ part.length < 2 ^ 31 := by
    decide
  unfold writeResponse
  rw [parts, code, desc, own, writeAll_full full sound, Net.writeAll, writeBuffer_wrapped full long]
  rfl

theorem responseLine_ok : responseLine {} "HTTP/1.1 200 OK".toList = .ok { code := 200 } := by
  have status : "HTTP/1.1 200 OK".toList =
      "HTTP/1.1".toList ++ ' ' :: (printInt 200 ++ ' ' :: "OK".toList) := rfl
  rw [status]
  exact responseLine_status {} (by decide) _

theorem readResponse_cut (peer : Net) (garbage : Nat) :
    readResponse peer garbage "HTTP/1.1 200 OK\r\nDate: ".toList = .ok { Code := 200 } := by
  have lines : "HTTP/1.1 200 OK\r\nDate: ".toList = "HTTP/1.1 200 OK".toList ++
      ((headReader peer.eof).brk ['\r'] ++ ("Date: ".toList ++ [])) := rfl
  have handled : (headReader peer.eof).onLine {}
      ((headReader peer.eof).shown "HTTP/1.1 200 OK".toList) = .ok { code := 200 } := by
    rw [shown_line ⟨by decide, by decide, by decide⟩]
    exact responseLine_ok
  have date : (headReader peer.eof).lf ∉ "Date: ".toList := by
    show '\n' ∉ "Date: ".toList
    decide
  have inside : (headReader peer.eof).lf ∉ "HTTP/1.1 200 OK".toList := by
    show '\n' ∉ "HTTP/1.1 200 OK".toList
    decide
  have read : headLoop peer.eof [] 0 {} "HTTP/1.1 200 OK\r\nDate: ".toList =
      ({ code := 200 }, .error (.int peer.eof)) := by
    rw [headLoop_eq, lines, Reader.scan_line (headReader_cr peer.eof) rfl inside rfl handled,
      Reader.scan_stretch date]
    rfl
  unfold readResponse
  rw [read]

/-- A text of 2^32 bytes is sent as none, and its exception cuts the response off. -/
theorem response_lost : ¬ ∀ response : MResponse, Reply response → Answered response := by
  intro claim
  have long : (List.replicate (2 ^ 32) 'x').length = 2 ^ 32 := List.length_replicate
  have stamp : (List.replicate (2 ^ 32) 'x').all stampChar = true := by
    rw [List.all_replicate]
    rfl
  have midnight : Tm := ⟨0, 0, 0, 0, 0, 0, 0, by decide⟩
  obtain ⟨answer, read, _, body, _⟩ :=
    claim _ (hiResponse_reply stamp) fullNet fullNet midnight 0 fullNet_full
  rw [writeResponse_cut fullNet_full long, readResponse_cut] at read
  obtain rfl := Except.ok.inj read
  exact absurd body (by decide)

end Solusek.RoundTrip
