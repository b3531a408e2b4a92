import Solusek.Lib.Decimal
import Solusek.Proofs.ResponseRoundTrip

/-!
# Whole messages

`writeBuffer` reports success once `send` has accepted one byte, and throws if it was given none.
So a message arrives as a whole exactly if every call of `send` accepts all it is given, and the
writer of a response is cut off by the first text that is empty.
-/

namespace Solusek

open Socket

namespace Socket

variable {net : Net}

/-- Each call of `send` accepts all bytes of its piece. -/
def Whole (net : Net) : Nat → List Str → Prop
  | _, [] => True
  | sent, part :: rest =>
    (part.length : Int) ≤ net.send sent (sizeToInt part.length) ∧
      Whole net (sent + part.length) rest

/-! ### Pieces -/

def sentFor (net : Net) (tx part : Str) : Int := net.send tx.length (sizeToInt part.length)

theorem writeAll_cons (net : Net) (tx part : Str) (rest : List Str) :
    net.writeAll tx (part :: rest) =
      if sentFor net tx part < 1 then
        (.error (.int (sentFor net tx part)), tx ++ part.take (sentFor net tx part).toNat)
      else net.writeAll (tx ++ part.take (sentFor net tx part).toNat) rest := by
  rw [Net.writeAll, Net.writeBuffer]
  unfold sentFor
  by_cases failed : net.send tx.length (sizeToInt part.length) < 1
  · rw [if_pos failed, if_pos failed]
  · rw [if_neg failed, if_neg failed]

theorem writeAll_length (net : Net) (tx : Str) (parts : List Str) :
    (net.writeAll tx parts).2.length ≤ tx.length + parts.flatten.length := by
  induction parts generalizing tx with
  | nil => exact le_of_eq (by simp [Net.writeAll])
  | cons part rest ih =>
    have taken : (part.take (sentFor net tx part).toNat).length ≤ part.length := by
      rw [List.length_take]
      exact Nat.min_le_right _ _
    rw [writeAll_cons, List.flatten_cons, List.length_append]
    split
    · simp only [List.length_append]
      omega
    · refine (ih _).trans ?_
      rw [List.length_append]
      omega

/-- If nothing is missing at the end, the first piece has been accepted as a whole. -/
theorem writeAll_first {tx part : Str} {rest : List Str}
    (complete : tx.length + (part :: rest).flatten.length ≤
      (net.writeAll tx (part :: rest)).2.length) :
    part.take (sentFor net tx part).toNat = part ∧
    (rest.flatten ≠ [] → 1 ≤ sentFor net tx part) ∧
    (1 ≤ sentFor net tx part → (tx ++ part).length + rest.flatten.length ≤
      (net.writeAll (tx ++ part) rest).2.length) := by
  rw [writeAll_cons, List.flatten_cons, List.length_append] at complete
  have size : (part.take (sentFor net tx part).toNat).length =
      min (sentFor net tx part).toNat part.length := List.length_take
  by_cases failed : sentFor net tx part < 1
  · rw [if_pos failed] at complete
    simp only [List.length_append] at complete
    refine ⟨?_, fun more => ?_, fun passed => absurd failed (by omega)⟩
    · exact List.take_of_length_le (by omega)
    · have positive := List.length_pos_of_ne_nil more
      omega
  · rw [if_neg failed] at complete
    have bound := writeAll_length net (tx ++ part.take (sentFor net tx part).toNat) rest
    rw [List.length_append] at bound
    have whole : part.take (sentFor net tx part).toNat = part :=
      List.take_of_length_le (by omega)
    rw [whole] at complete
    refine ⟨whole, fun _ => by omega, fun _ => ?_⟩
    rw [List.length_append]
    omega

/-! ### Calls that report success -/

theorem writeAll_whole_iff (net : Net) {tx : Str} {parts : List Str}
    (success : (net.writeAll tx parts).1 = .ok ()) :
    (net.writeAll tx parts).2 = tx ++ parts.flatten ↔ Whole net tx.length parts := by
  induction parts generalizing tx with
  | nil => simp [Net.writeAll, Whole]
  | cons part rest ih =>
    have passed : ¬ sentFor net tx part < 1 := by
      intro failed
      rw [writeAll_cons, if_pos failed] at success
      cases success
    have step := writeAll_cons net tx part rest
    rw [if_neg passed] at step
    constructor
    · intro received
      have complete : tx.length + (part :: rest).flatten.length ≤
          (net.writeAll tx (part :: rest)).2.length := by
        rw [received, List.length_append]
      obtain ⟨whole, _, _⟩ := writeAll_first complete
      have size : (part.take (sentFor net tx part).toNat).length =
          min (sentFor net tx part).toNat part.length := List.length_take
      rw [whole] at size step
      rw [step] at success received
      rw [List.flatten_cons, ← List.append_assoc, ih success, List.length_append] at received
      exact ⟨show (part.length : Int) ≤ sentFor net tx part by omega, received⟩
    · rintro ⟨all, more⟩
      have accepted : (part.length : Int) ≤ sentFor net tx part := all
      have whole : part.take (sentFor net tx part).toNat = part :=
        List.take_of_length_le (by omega)
      rw [whole] at step
      rw [step] at success ⊢
      rw [List.flatten_cons, ← List.append_assoc, ih success, List.length_append]
      exact more

/-- The contract of `send` on a call with `k` bytes. -/
def Contract (net : Net) : Prop :=
  ∀ sent k, 0 < k → net.send sent k = -1 ∨ 1 ≤ net.send sent k ∧ net.send sent k ≤ k

end Socket

namespace Client

/-- The pieces of a body from `done` on. -/
def bodyPieces (body : Str) (done : Nat) : List Str :=
  if done < body.length then
    let chunk := if done + 1024 > body.length then body.length - done else 1024
    (body.drop done).take chunk :: bodyPieces body (done + chunk)
  else []
termination_by body.length - done
decreasing_by split <;> omega

/-- The loop over the body is one call of `writeBuffer` for each piece. -/
theorem bodyWriter_eq (net : Net) (body : Str) (done : Nat) (tx : Str) :
    bodyWriter net body done tx = net.writeAll tx (bodyPieces body done) ∧
      (bodyPieces body done).flatten = body.drop done := by
  induction h : body.length - done using Nat.strong_induction_on generalizing done tx with
  | _ left ih =>
    by_cases more : done < body.length
    · rw [bodyWriter, if_pos more, bodyPieces, if_pos more]
      obtain ⟨chunk, size⟩ : ∃ chunk, chunk =
          if done + 1024 > body.length then body.length - done else 1024 := ⟨_, rfl⟩
      have bounds : 0 < chunk ∧ done + chunk ≤ body.length := by
        split at size <;> omega
      have length : ((body.drop done).take chunk).length = chunk := by
        rw [List.length_take, List.length_drop]
        omega
      have later tx' := ih (body.length - (done + chunk)) (by omega) (done + chunk) tx' rfl
      dsimp only
      rw [← size, List.flatten_cons, (later tx).2, ← List.drop_drop, List.take_append_drop]
      refine ⟨?_, rfl⟩
      rw [Net.writeAll, length]
      generalize net.writeBuffer tx ((body.drop done).take chunk) chunk = answer
      obtain ⟨result, tx'⟩ := answer
      cases result with
      | error e => rfl
      | ok _ => exact (later tx').1
    · rw [bodyWriter, if_neg more, bodyPieces, if_neg more]
      exact ⟨rfl, (List.drop_eq_nil_of_le (Nat.not_lt.mp more)).symm⟩

end Client

/-! ### Successful writes -/

open Client

/-- If all calls of `writeBuffer` for a message succeed, by `writeString` or in the body loop, the
peer has the message exactly if each call of `send` accepted all of its piece. -/
theorem success_whole_iff (net : Net) (tx : Str) :
    (∀ parts, (net.writeAll tx parts).1 = .ok () →
      ((net.writeAll tx parts).2 = tx ++ parts.flatten ↔ Whole net tx.length parts)) ∧
    ∀ body, (bodyWriter net body 0 tx).1 = .ok () →
      ((bodyWriter net body 0 tx).2 = tx ++ body ↔ Whole net tx.length (bodyPieces body 0)) := by
  refine ⟨fun parts => writeAll_whole_iff net, fun body success => ?_⟩
  obtain ⟨same, pieces⟩ := bodyWriter_eq net body 0 tx
  rw [same] at success ⊢
  rw [List.drop_zero] at pieces
  have received := writeAll_whole_iff net success
  rwa [pieces] at received

theorem success_whole_iff_hi : (fullNet.writeAll [] ["h".toList, "i".toList]).2 = "hi".toList :=
  ((success_whole_iff fullNet []).1 ["h".toList, "i".toList] (by decide)).mpr
    ⟨by decide, by decide, trivial⟩

/-- A socket that takes one byte at a time. -/
def slowNet : Net where
  recv n := n
  eof := 0
  send _ len := min 1 len
  eof_lt := Int.one_pos

/-- The second byte of a piece is lost, and the write reports success. -/
theorem tail_lost : ¬ ∀ (net : Net) (tx : Str) (parts : List Str), Contract net →
    (net.writeAll tx parts).1 = .ok () → (net.writeAll tx parts).2 = tx ++ parts.flatten := by
  intro claim
  have contract : Contract slowNet := by
    intro sent k positive
    have least : slowNet.send sent k = min 1 k := rfl
    exact Or.inr ⟨by omega, by omega⟩
  have received := claim slowNet [] ["hi".toList] contract (by decide)
  exact absurd received (by decide)

/-! ### Responses -/

open Node RoundTrip

/-- An `int` comes back for a negative length, too. -/
def IntSend (net : Net) : Prop := ∀ sent len, len < 0 → net.send sent len < 2 ^ 31

def messageFields (response : MResponse) (tm : Tm) : List (Str × Str) :=
  ("Date".toList, responseDate response tm) :: ("Content-Type".toList, response.ContentType) ::
    ("Content-Length".toList, printNat response.Body.length) ::
    ("Last-Modified".toList, responseDate response tm) :: laterFields response

/-- The status line, the header lines, the empty line and the body. -/
def message (response : MResponse) (tm : Tm) : Str :=
  (statusLine response :: (messageFields response tm).map fieldLine).flatMap (· ++ "\r\n".toList) ++
    "\r\n".toList ++ response.Body

/-- All texts of a response that `writeResponse` writes. -/
def messageTexts (response : MResponse) : List Str := headerTexts response ++ [response.Body]

theorem responseParts_flatten (response : MResponse) (tm : Tm) :
    (responseParts response tm).flatten =
      (statusLine response :: (fields response tm).map fieldLine).flatMap (· ++ "\r\n".toList) ++
        "\r\n".toList ++ response.Body := by
  rw [responseParts_eq, List.flatten_append, headParts_flatten response tm 0,
    List.flatten_singleton]
  rfl

theorem printNat_mono {m n : Nat} (below : m ≤ n) : (printNat m).length ≤ (printNat n).length := by
  have positive : 0 < (printNat n).length := Nat.length_toDigits_pos
  have bound := (Nat.length_toDigits_le_iff (b := 10) (by decide) positive).mp (le_refl _)
  exact (Nat.length_toDigits_le_iff (by decide) positive).mpr (below.trans_lt bound)

theorem message_length (response : MResponse) (tm : Tm) :
    (responseParts response tm).flatten.length ≤ (message response tm).length := by
  have digits := printNat_mono (Nat.mod_le response.Body.length (2 ^ 32))
  rw [responseParts_flatten, message, fields, messageFields]
  simp only [List.map_cons, List.flatMap_cons, List.length_append, fieldLine, List.length_cons]
  omega

theorem message_eq {response : MResponse} (small : response.Body.length < 2 ^ 32) (tm : Tm) :
    message response tm = (responseParts response tm).flatten := by
  rw [responseParts_flatten, message, fields, messageFields, Nat.mod_eq_of_lt small]

section

variable {net : Net} (full : SendsInFull net) (int : IntSend net)

include full in
theorem sentFor_short {part : Str} (short : part.length < 2 ^ 31) (tx : Str) :
    sentFor net tx part = part.length := by
  unfold sentFor
  rw [sizeToInt_small short]
  exact full _ _ (by omega)

include full int in
theorem short_of_whole {tx part : Str} (whole : part.take (sentFor net tx part).toNat = part) :
    part.length < 2 ^ 31 := by
  by_contra long
  have range := sizeToInt_range part.length
  have below : sentFor net tx part < 2 ^ 31 := by
    unfold sentFor
    by_cases negative : sizeToInt part.length < 0
    · exact int _ _ negative
    · rw [full _ _ (by omega)]
      exact range.2
  have size := congrArg List.length whole
  rw [List.length_take] at size
  omega

include full int in
/-- A message that arrives as a whole has no empty and no oversized piece, but for an empty last
one. -/
theorem writeAll_sound {parts : List Str} {last : Str}
    (closing : ∀ part ∈ parts.getLast?, part ≠ []) {tx : Str}
    (complete : tx.length + (parts ++ [last]).flatten.length ≤
      (net.writeAll tx (parts ++ [last])).2.length) :
    (∀ part ∈ parts, 0 < part.length ∧ part.length < 2 ^ 31) ∧ last.length < 2 ^ 31 := by
  induction parts generalizing tx with
  | nil => exact ⟨by simp, short_of_whole full int (writeAll_first complete).1⟩
  | cons part parts ih =>
    obtain ⟨whole, passes, later⟩ := writeAll_first complete
    have short := short_of_whole full int whole
    have sent := sentFor_short full short tx
    have positive : 0 < part.length := by
      cases parts with
      | nil => exact List.length_pos_of_ne_nil (closing part rfl)
      | cons next parts =>
        have final := closing ((next :: parts).getLast (List.cons_ne_nil _ _)) (by
          rw [List.getLast?_cons_cons, List.getLast?_eq_some_getLast (List.cons_ne_nil _ _)]
          rfl)
        have passed := passes (by
          intro empty
          rw [List.flatten_eq_nil_iff] at empty
          exact final (empty _ (List.mem_append_left [last] (List.getLast_mem _))))
        omega
    have rest := ih (by
      intro final member
      refine closing final ?_
      cases parts with
      | nil => cases member
      | cons next parts => rwa [List.getLast?_cons_cons]) (later (by omega))
    exact ⟨List.forall_mem_cons.mpr ⟨⟨positive, short⟩, rest.1⟩, rest.2⟩

end

theorem headParts_closing (response : MResponse) (tm : Tm) :
    ∀ part ∈ (headParts response tm).getLast?, part ≠ [] := by
  intro part member
  have last : (headParts response tm).getLast? = some "\r\n".toList := by
    unfold headParts
    simp only [List.getLast?_append]
    rfl
  rw [last] at member
  obtain rfl := Option.some.inj member
  decide

theorem mem_cookieParts (cookie : MCookie) : cookie.Name ∈ cookieParts cookie ∧
    cookie.Value ∈ cookieParts cookie ∧ (cookie.Path ≠ [] → cookie.Path ∈ cookieParts cookie) := by
  unfold cookieParts
  refine ⟨?_, ?_, fun given => ?_⟩
  · refine List.mem_append_left _ (List.mem_append_left _ ?_)
    exact List.mem_cons_of_mem _ List.mem_cons_self
  · refine List.mem_append_left _ (List.mem_append_left _ ?_)
    exact List.mem_cons_of_mem _ (List.mem_cons_of_mem _ (List.mem_cons_of_mem _
      List.mem_cons_self))
  · refine List.mem_append_left _ (List.mem_append_right _ ?_)
    rw [if_pos (List.length_pos_of_ne_nil given)]
    exact List.mem_cons_of_mem _ List.mem_cons_self

/-- The texts of a response are pieces of the message, or empty. -/
theorem texts_of_parts {response : MResponse} {tm : Tm} {P : Str → Prop} (empty : P [])
    (parts : ∀ part ∈ headParts response tm, P part) : ∀ text ∈ headerTexts response, P text := by
  have opened part (member : part ∈ openParts response tm) : P part :=
    parts part (List.mem_append_left _ member)
  have sid part (member : part ∈ sidParts response.SID) : P part :=
    parts part (List.mem_append_right _ (List.mem_append_left _ member))
  have cookies cookie (inside : cookie ∈ response.Cookies) part
      (member : part ∈ cookieParts cookie) : P part :=
    parts part (List.mem_append_right _ (List.mem_append_right _
      (List.mem_append_left _ (List.mem_flatMap.mpr ⟨cookie, inside, member⟩))))
  have date : P response.Date := by
    have own := opened (responseDate response tm) (by simp [openParts])
    unfold responseDate at own
    by_cases none : response.Date.length = 0
    · rw [List.eq_nil_of_length_eq_zero none]
      exact empty
    · rwa [if_neg none] at own
  have own : P response.SID := by
    by_cases none : response.SID = []
    · rw [none]
      exact empty
    · refine sid response.SID ?_
      unfold sidParts
      rw [if_pos (List.length_pos_of_ne_nil none)]
      simp
  intro text member
  rcases List.mem_append.mp member with fixed | inCookie
  · simp only [List.mem_cons, List.not_mem_nil, or_false] at fixed
    rcases fixed with rfl | rfl | rfl
    · exact opened response.ContentType (by simp [openParts])
    · exact date
    · exact own
  · obtain ⟨cookie, inside, among⟩ := List.mem_flatMap.mp inCookie
    obtain ⟨name, value, path⟩ := mem_cookieParts cookie
    simp only [List.mem_cons, List.not_mem_nil, or_false] at among
    rcases among with rfl | rfl | rfl
    · exact cookies cookie inside _ name
    · exact cookies cookie inside _ value
    · by_cases none : cookie.Path = []
      · rw [none]
        exact empty
      · exact cookies cookie inside _ (path none)

theorem response_sound {net : Net} (full : SendsInFull net) (int : IntSend net)
    {response : MResponse} {tm : Tm}
    (received : (writeResponse net response tm).2 = message response tm) :
    (∀ part ∈ headParts response tm, 0 < part.length ∧ part.length < 2 ^ 31) ∧
      response.Body.length < 2 ^ 31 := by
  have complete : ([] : Str).length + (headParts response tm ++ [response.Body]).flatten.length ≤
      (net.writeAll [] (headParts response tm ++ [response.Body])).2.length := by
    unfold writeResponse at received
    rw [← responseParts_eq, received, List.length_nil, Nat.zero_add]
    exact message_length response tm
  exact writeAll_sound full int (headParts_closing response tm) complete

/-- A response is on the wire as a whole exactly if its content type and the names and values of
its cookies are not empty, and all its texts are shorter than 2^31 bytes. -/
theorem response_whole_iff {net : Net} (full : SendsInFull net) (int : IntSend net)
    {response : MResponse} (code : -2 ^ 31 ≤ response.Code ∧ response.Code < 2 ^ 31) (tm : Tm) :
    (writeResponse net response tm).2 = message response tm ↔
      response.ContentType ≠ [] ∧
      (∀ cookie ∈ response.Cookies, cookie.Name ≠ [] ∧ cookie.Value ≠ []) ∧
      ∀ text ∈ messageTexts response, text.length < 2 ^ 31 := by
  constructor
  · intro received
    obtain ⟨sound, body⟩ := response_sound full int received
    refine ⟨?_, fun cookie inside => ?_, ?_⟩
    · have type := sound response.ContentType (List.mem_append_left _ (by simp [openParts]))
      exact List.ne_nil_of_length_pos type.1
    · have inParts part (member : part ∈ cookieParts cookie) : part ≠ [] :=
        List.ne_nil_of_length_pos (sound part (List.mem_append_right _ (List.mem_append_right _
          (List.mem_append_left _ (List.mem_flatMap.mpr ⟨cookie, inside, member⟩))))).1
      obtain ⟨name, value, _⟩ := mem_cookieParts cookie
      exact ⟨inParts _ name, inParts _ value⟩
    · have zero : ([] : Str).length < 2 ^ 31 := Nat.two_pow_pos 31
      have texts := texts_of_parts (P := fun text => text.length < 2 ^ 31) zero
        fun part member => (sound part member).2
      exact List.forall_mem_append.mpr ⟨texts, List.forall_mem_singleton.mpr body⟩
  · rintro ⟨type, filled, short⟩
    obtain ⟨texts, body⟩ := List.forall_mem_append.mp short
    have body := List.forall_mem_singleton.mp body
    have sent := writeAll_last full (headParts_sendable code type filled texts tm) body
    rw [writeResponse, message_eq (by omega), responseParts_eq, sent, List.flatten_append,
      List.flatten_singleton]

theorem fullNet_int : IntSend fullNet := by
  intro sent len negative
  rw [show fullNet.send sent len = -1 from if_neg (by omega)]
  decide

def midnight : Tm := ⟨0, 0, 0, 0, 0, 0, 0, by decide⟩

/-- A page with a session, a cookie of its own and a body. -/
def page : MResponse where
  Code := 404
  Body := "<p>\r\n\r\nNone</p>".toList
  ContentType := "text/html".toList
  SID := "17".toList
  Cookies := [{ Name := "seen".toList, Value := "1; x=2".toList, Path := "/".toList }]

theorem response_whole_iff_cookie : (writeResponse fullNet page midnight).2 = message page midnight := by
  have code : -2 ^ 31 ≤ page.Code ∧ page.Code < 2 ^ 31 := by
    show -2 ^ 31 ≤ (404 : Int) ∧ (404 : Int) < 2 ^ 31
    decide
  refine (response_whole_iff fullNet_full fullNet_int code midnight).mpr ⟨by decide, ?_, ?_⟩
  · intro cookie member
    obtain rfl := List.mem_singleton.mp member
    exact ⟨by decide, by decide⟩
  · have short : ∀ text ∈ messageTexts page, text.length < 32 := by decide
    intro text member
    have bound := short text member
    omega

/-- A response with an empty content type ends there. -/
theorem typeless_cut : ¬ ∀ (net : Net) (response : MResponse) (tm : Tm), SendsInFull net →
    IntSend net → -2 ^ 31 ≤ response.Code ∧ response.Code < 2 ^ 31 →
    (writeResponse net response tm).2 = message response tm := by
  intro claim
  have code : -2 ^ 31 ≤ ({ ContentType := [] } : MResponse).Code ∧
      ({ ContentType := [] } : MResponse).Code < 2 ^ 31 := by
    show -2 ^ 31 ≤ (200 : Int) ∧ (200 : Int) < 2 ^ 31
    decide
  have received := claim fullNet { ContentType := [] } midnight fullNet_full fullNet_int code
  have sound := (response_sound fullNet_full fullNet_int received).1 []
    (List.mem_append_left _ (by simp [openParts]))
  exact absurd sound.1 (by decide)

end Solusek
