import Solusek.Proofs.CookieSegments
import Solusek.Proofs.ResponseRoundTrip
import Solusek.Proofs.SessionIds

/-!
# Cookies

A client that sends the session cookie of a response back, among other cookies, is in the
session again. The cookie loop keeps its positions in 32 bits, so no pair may be too long.
-/

namespace Solusek.SessionCookies

open Socket Texts Node Session RoundTrip

/-- A pair of a `Cookie` header with the numbers of spaces around it. -/
structure Pair where
  left : Nat := 0
  Name : Str
  Value : Str
  right : Nat := 0
  name : Name ≠ [] ∧ '=' ∉ Name ∧ ';' ∉ Name ∧ Trimmed Name
  value : ';' ∉ Value ∧ Trimmed Value

namespace Pair

def inner (p : Pair) : Str := p.Name ++ '=' :: p.Value

def text (p : Pair) : Str := List.replicate p.left ' ' ++ p.inner ++ List.replicate p.right ' '

def cookie (p : Pair) : MCookie := { Name := p.Name, Value := p.Value }

theorem inner_trimmed (p : Pair) : Trimmed p.inner := by
  obtain ⟨nonempty, _, _, start, _⟩ := p.name
  constructor
  · intro c first
    unfold inner at first
    rw [List.head?_append_of_ne_nil _ nonempty] at first
    exact start c first
  · intro c last
    unfold inner at last
    rw [List.getLast?_append_of_ne_nil _ (List.cons_ne_nil _ _)] at last
    cases value : p.Value with
    | nil =>
      obtain rfl : '=' = c := by simpa [value] using last
      rfl
    | cons d v =>
      rw [value, List.getLast?_cons_cons] at last
      exact p.value.2.2 c (value ▸ last)

theorem trim_text (p : Pair) : trim p.text = p.inner := by
  have spaces (n : Nat) : ∀ c ∈ List.replicate n ' ', isspace c = true := by
    intro c member
    rw [List.eq_of_mem_replicate member]
    rfl
  exact trim_padded (spaces p.left) p.inner_trimmed (spaces p.right)

theorem text_plain (p : Pair) : ';' ∉ p.text := by
  have spaces (n : Nat) : ';' ∉ List.replicate n ' ' := not_mem_replicate (by decide) n
  have name := p.name.2.2.1
  have value := p.value.1
  simp [text, inner, spaces, name, value]

theorem inner_length (p : Pair) : p.Name.length + 1 ≤ p.inner.length ∧
    p.inner.length ≤ p.text.length := by
  unfold text inner
  simp only [List.length_append, List.length_cons]
  omega

theorem text_some (p : Pair) : p.text ≠ [] := by
  have size := p.inner_length
  intro empty
  rw [empty, List.length_nil] at size
  omega

end Pair

/-! ### One pair -/

theorem taken_text (p : Pair) : taken p.text = p.cookie := by
  have filled : '=' ∈ trim p.text := by
    rw [p.trim_text]
    exact List.mem_append_right _ List.mem_cons_self
  rw [taken, if_pos filled, cookieOf, p.trim_text]
  unfold Pair.inner
  rw [takeWhile_ne p.name.2.1, dropWhile_ne p.name.2.1]
  rfl

/-! ### All pairs -/

def headerText (pairs : List Pair) : Str := [';'].intercalate (pairs.map Pair.text)

/-- Every pair is short enough for the positions of the cookie loop. -/
def Short : List Pair → Prop
  | [] => True
  | [p] => p.text.length < 2 ^ 32
  | p :: q :: pairs => p.text.length < 2 ^ 32 - 1 ∧ Short (q :: pairs)

/-- The SID the loop leaves: the value of the last pair with that name. -/
def sidOf (SID : Str) (pairs : List Pair) : Str :=
  pairs.foldl (fun SID p => if p.Name = "SolusekSID".toList then p.Value else SID) SID

theorem Short.segments {pairs : List Pair} (short : Short pairs) :
    ShortSegments (pairs.map Pair.text) := by
  induction pairs with
  | nil => exact ⟨List.forall_mem_nil _, fun _ none => by cases none⟩
  | cons p pairs ih =>
    cases pairs with
    | nil =>
      refine ⟨List.forall_mem_nil _, fun s last => ?_⟩
      rw [← Option.some.inj last]
      exact short
    | cons q pairs =>
      obtain ⟨front, last⟩ := ih short.2
      refine ⟨fun s member => ?_, last⟩
      rcases List.mem_cons.mp member with rfl | later
      · exact short.1
      · exact front s later

theorem looked_pairs (pairs : List Pair) :
    (looked (pairs.map Pair.text)).map taken = pairs.map Pair.cookie := by
  have all : looked (pairs.map Pair.text) = pairs.map Pair.text := by
    refine looked_of_some fun s member => ?_
    obtain ⟨p, _, rfl⟩ := List.mem_map.mp member
    exact p.text_some
  rw [all, List.map_map]
  exact List.map_congr_left fun p _ => taken_text p

theorem sidAfter_pairs (SID : Str) (pairs : List Pair) :
    sidAfter SID (pairs.map Pair.cookie) = sidOf SID pairs := List.foldl_map

/-! ### The request -/

theorem buildRequest_pairs {node : CNode} {vv : CVarVal} {pairs : List Pair}
    (header : node.getHeader "Cookie".toList = some vv) (sent : vv.Val = headerText pairs)
    (short : Short pairs) :
    ∃ request, buildRequest node = .ok request ∧ request.Cookies = pairs.map Pair.cookie ∧
      request.SID = sidOf [] pairs := by
  have plain : ∀ s ∈ pairs.map Pair.text, ';' ∉ s := by
    intro s member
    obtain ⟨p, _, rfl⟩ := List.mem_map.mp member
    exact p.text_plain
  obtain ⟨request, built, cookies, sid⟩ :=
    buildRequest_segments header sent plain short.segments
  rw [looked_pairs] at cookies sid
  exact ⟨request, built, cookies, sid.trans (sidAfter_pairs [] pairs)⟩

theorem sidOf_other {pairs : List Pair} (others : ∀ p ∈ pairs, p.Name ≠ "SolusekSID".toList)
    (SID : Str) : sidOf SID pairs = SID := by
  induction pairs generalizing SID with
  | nil => rfl
  | cons p pairs ih =>
    unfold sidOf
    rw [List.foldl_cons, if_neg (others p List.mem_cons_self)]
    exact ih (fun q member => others q (List.mem_cons_of_mem _ member)) SID

theorem sidOf_between {before after : List Pair} {sid : Pair}
    (named : sid.Name = "SolusekSID".toList)
    (others : ∀ p ∈ before ++ after, p.Name ≠ "SolusekSID".toList) (SID : Str) :
    sidOf SID (before ++ sid :: after) = sid.Value := by
  unfold sidOf
  rw [List.foldl_append, List.foldl_cons, if_pos named]
  exact sidOf_other (fun p member => others p (List.mem_append_right _ member)) _

theorem getCookie_pairs {request : MRequest} {pairs : List Pair}
    (cookies : request.Cookies = pairs.map Pair.cookie) (name : Str) :
    request.getCookie name = match pairs.find? fun p => p.Name == name with
      | some p => p.cookie
      | none => { None := true } := by
  unfold MRequest.getCookie
  rw [cookies, List.find?_map]
  have same : (fun it : MCookie => it.Name == name) ∘ Pair.cookie = fun p => p.Name == name := rfl
  rw [same]
  cases pairs.find? fun p => p.Name == name with
  | some p => rfl
  | none => rfl

/-! ### The session cookie -/

theorem sidParts_text {SID : Str} (nonempty : 0 < SID.length) : (sidParts SID).flatten =
    "Set-Cookie: ".toList ++ ("SolusekSID".toList ++ '=' :: SID) ++
      "; SameSite=Strict; Path=/\r\n".toList := by
  have equals : "=".toList = ['='] := rfl
  have ends : "; SameSite=Strict; Path=/\r\n".toList =
      "; SameSite=Strict".toList ++ ("; Path=/".toList ++ "\r\n".toList) := rfl
  unfold sidParts
  rw [if_pos nonempty, equals, ends]
  simp only [List.flatten_cons, List.flatten_nil, List.append_assoc, List.cons_append,
    List.nil_append, List.append_nil]

/-- The pair in the line `writeResponse` emits. -/
def Emitted (response : MResponse) (sid : Pair) : Prop :=
  (sidParts response.SID).flatten =
    "Set-Cookie: ".toList ++ sid.inner ++ "; SameSite=Strict; Path=/\r\n".toList

theorem Emitted.pair {response : MResponse} {sid : Pair} (emitted : Emitted response sid)
    (nonempty : 0 < response.SID.length) :
    sid.Name = "SolusekSID".toList ∧ sid.Value = response.SID := by
  unfold Emitted at emitted
  rw [sidParts_text nonempty, List.append_cancel_right_eq, List.append_cancel_left_eq] at emitted
  have plain : '=' ∉ "SolusekSID".toList := by decide
  have names := congrArg (List.takeWhile (· ≠ '=')) emitted
  have values := congrArg (List.dropWhile (· ≠ '=')) emitted
  unfold Pair.inner at names values
  rw [takeWhile_ne plain, takeWhile_ne sid.name.2.1] at names
  rw [dropWhile_ne plain, dropWhile_ne sid.name.2.1] at values
  exact ⟨names.symm, (List.cons.inj values).2.symm⟩

/-- A response whose lines up to the session cookie can be sent. -/
structure Opens (response : MResponse) : Prop where
  code : -2 ^ 31 ≤ response.Code ∧ response.Code < 2 ^ 31
  contentType : response.ContentType ≠ [] ∧ response.ContentType.length < 2 ^ 31
  date : response.Date.length < 2 ^ 31

theorem sid_written {response : MResponse} (opens : Opens response)
    (short : response.SID.length < 2 ^ 31) {net : Net} (full : SendsInFull net) (tm : Tm) :
    (sidParts response.SID).flatten <:+: (writeResponse net response tm).2 := by
  have opened := openParts_sendable opens.code opens.contentType opens.date tm
  have sid := sidParts_sendable short
  unfold writeResponse
  rw [responseParts_eq, headParts, List.append_assoc, List.append_assoc,
    writeAll_full full opened, writeAll_full full sid, List.nil_append]
  obtain ⟨more, whole⟩ := @writeAll_extends net
    ((openParts response tm).flatten ++ (sidParts response.SID).flatten) _
  exact ⟨(openParts response tm).flatten, more, whole⟩

/-! ### The session again -/

theorem id_size {ops : List Op} (clock : Clock (startTimes ops)) {p : Nat} {id : Str}
    (own : (SessionTable.run ops).idOf p = some id) : 0 < id.length ∧ id.length < 2 ^ 31 := by
  have numbered := run_numbered ops
  obtain ⟨inside, _⟩ := idOf_some own
  rw [List.length_map, numbered.length] at inside
  have time : (startTimes ops)[p]? = some (startTimes ops)[p] := List.getElem?_eq_getElem inside
  have read := numbered.ids p _ time
  rw [own] at read
  have digits := printNat_time (clock.tenDigits _ (List.mem_of_getElem? time))
  have counter := @printNat_short (p % 4294967295) (by omega)
  rw [Option.some.inj read, List.length_append, digits]
  omega

/-- The request of a client that is back in the session started between `pre` and `post`. -/
structure Continued (pre : List Op) (now : Nat) (post : List Op) (pairs : List Pair)
    (request : MRequest) : Prop where
  cookies : request.Cookies = pairs.map Pair.cookie
  sid : (SessionTable.run (pre ++ .start now :: post)).idOf (startTimes pre).length =
    some request.SID
  first : ∀ name, request.getCookie name =
    match pairs.find? fun p => p.Name == name with
    | some p => p.cookie
    | none => { None := true }
  session : (SessionTable.run (pre ++ .start now :: post)).getSession request.SID =
    if .destroy request.SID ∈ post then none else some (startTimes pre).length

/-- `run` builds the request of that client. -/
def Returns (pre : List Op) (now : Nat) (post : List Op) (pairs : List Pair) (node : CNode) :
    Prop :=
  ∃ request, buildRequest node = .ok request ∧ Continued pre now post pairs request

/-- A client that sends the session cookie back is in its session until that is destroyed, if
the clock is sound and every pair is short enough. -/
theorem session_continued {pre post : List Op} {now : Nat}
    (clock : Clock (startTimes (pre ++ .start now :: post))) {response : MResponse}
    (own : (SessionTable.run (pre ++ .start now :: post)).idOf (startTimes pre).length =
      some response.SID)
    {before after : List Pair} {sid : Pair} (emitted : Emitted response sid)
    (others : ∀ p ∈ before ++ after, p.Name ≠ "SolusekSID".toList)
    (short : Short (before ++ sid :: after)) {node : CNode} {vv : CVarVal}
    (header : node.getHeader "Cookie".toList = some vv)
    (sent : vv.Val = headerText (before ++ sid :: after)) :
    (∀ (net : Net) (tm : Tm), SendsInFull net → Opens response →
      (sidParts response.SID).flatten <:+: (writeResponse net response tm).2) ∧
    Returns pre now post (before ++ sid :: after) node := by
  obtain ⟨nonempty, small⟩ := id_size clock own
  obtain ⟨named, value⟩ := emitted.pair nonempty
  obtain ⟨request, built, cookies, read⟩ := buildRequest_pairs header sent short
  rw [sidOf_between named others, value] at read
  refine ⟨fun net tm full opens => sid_written opens small full tm, request, built, ?_⟩
  refine ⟨cookies, read ▸ own, getCookie_pairs cookies, ?_⟩
  rw [read]
  exact getSession_own clock own

/-! ### Inputs -/

def sidPair (digits : Str) (plain : ';' ∉ digits ∧ Trimmed digits) : Pair where
  Name := "SolusekSID".toList
  Value := digits
  name := by
    refine ⟨List.cons_ne_nil _ _, by decide, by decide, fun c first => ?_, fun c last => ?_⟩
    · obtain rfl : 'S' = c := by simpa using first
      rfl
    · obtain rfl : 'D' = c := by simpa using last
      rfl
  value := plain

theorem sidPair_emitted {digits : Str} (plain : ';' ∉ digits ∧ Trimmed digits)
    (nonempty : 0 < digits.length) : Emitted { SID := digits } (sidPair digits plain) :=
  sidParts_text nonempty

theorem printNat_value (n : Nat) : ';' ∉ printNat n ∧ Trimmed (printNat n) :=
  ⟨Decimal.not_mem_toDigits (by decide), printNat_trimmed n⟩

def letters (n : Nat) : Pair where
  Name := "a".toList
  Value := List.replicate n 'x'
  name := by
    refine ⟨List.cons_ne_nil _ _, by decide, by decide, fun c first => ?_, fun c last => ?_⟩
    · obtain rfl : 'a' = c := by simpa using first
      rfl
    · obtain rfl : 'a' = c := by simpa using last
      rfl
  value := by
    refine ⟨fun member => absurd (List.eq_of_mem_replicate member) (by decide), ?_, ?_⟩
    · intro c first
      rw [List.eq_of_mem_replicate (List.mem_of_head? first)]
      rfl
    · intro c last
      rw [List.eq_of_mem_replicate (List.mem_of_getLast? last)]
      rfl

theorem letters_text (n : Nat) : (letters n).text = 'a' :: '=' :: List.replicate n 'x' := by
  show [] ++ ('a' :: '=' :: List.replicate n 'x') ++ [] = _
  rw [List.nil_append, List.append_nil]

/-- The session of `session_continued` and a cookie behind its own. -/
theorem session_continued_two : Returns [] 1700000000 []
    [sidPair (printNat 17000000000) (printNat_value _), letters 3]
    (cookieNode "SolusekSID=17000000000;a=xxx".toList) := by
  have clock : Clock (startTimes ([] ++ .start 1700000000 :: [])) :=
    ⟨by decide, by decide, fun t => (List.count_le_length).trans (by decide)⟩
  have own : (SessionTable.run ([] ++ .start 1700000000 :: [])).idOf (startTimes []).length =
      some ({ SID := printNat 17000000000 } : MResponse).SID := by
    decide
  have last : (letters 3).text.length < 2 ^ 32 := by decide
  have short : Short ([] ++ sidPair (printNat 17000000000) (printNat_value _) :: [letters 3]) :=
    ⟨by decide, last⟩
  exact (session_continued clock own (sidPair_emitted (printNat_value _) (by decide)) (by decide)
    short (cookieNode_getHeader _) (by decide)).2

/-! ### What breaks a session -/

/-- The position behind a pair of 2^32 - 1 bytes is 0 again. -/
theorem sliceCookie_wrapped {p : Pair} (long : p.text.length = 2 ^ 32 - 1) (rest : Str) :
    sliceCookie (p.text ++ ';' :: rest) = (p.text, (p.text ++ ';' :: rest).take rest.length) := by
  have found : toUnsigned (findChar (p.text ++ ';' :: rest) ';') = 2 ^ 32 - 1 := by
    rw [findChar_append p.text_plain, long]
    rfl
  have next : (2 ^ 32 - 1 + 1) % 2 ^ 32 = 0 := rfl
  have size : (p.text ++ ';' :: rest).length = 2 ^ 32 + rest.length := by
    simp only [List.length_append, List.length_cons, long]
    omega
  have left : 2 ^ 32 + rest.length - (2 ^ 32 - 1) - 1 = rest.length := by omega
  unfold sliceCookie
  simp only [found, next, size, left]
  rw [if_pos (by omega), ← long, List.take_left', List.drop_zero]
  rfl

theorem cookieLoop_wrapped {n : Nat} (long : n + 2 = 2 ^ 32 - 1) {q : Pair}
    (size : q.text.length < 100) (request : MRequest) :
    cookieLoop request (headerText [letters n, q]) = .ok { request with
      Cookies := request.Cookies ++ [(letters n).cookie, (letters (q.text.length - 2)).cookie] } := by
  have length (m : Nat) : (letters m).text.length = m + 2 := by
    rw [letters_text]
    simp
  have bytes : 2 ≤ q.text.length := by
    have name := List.length_pos_of_ne_nil q.name.1
    have inner := q.inner_length
    omega
  obtain ⟨k, count⟩ : ∃ k, q.text.length = k + 2 := ⟨q.text.length - 2, by omega⟩
  have whole : headerText [letters n, q] = (letters n).text ++ ';' :: q.text := by
    simp [headerText, List.intercalate_cons_cons]
  have again : ((letters n).text ++ ';' :: q.text).take q.text.length = (letters k).text := by
    rw [List.take_append_of_le_length (by rw [length]; omega), letters_text, letters_text, count,
      List.take_succ_cons, List.take_succ_cons, List.take_replicate, Nat.min_eq_left (by omega)]
  have slice := sliceCookie_wrapped (show (letters n).text.length = 2 ^ 32 - 1 by rw [length, long])
    q.text
  have first : (letters n).text.length < 2 ^ 32 := by
    rw [length]
    omega
  have second : (letters k).text.length < 2 ^ 32 := by
    rw [length]
    omega
  have nonempty := List.append_ne_nil_of_left_ne_nil (letters n).text_some (';' :: q.text)
  rw [again] at slice
  rw [whole, cookieLoop_step first slice nonempty,
    cookieLoop_step second (sliceCookie_last (letters k).text_plain second) (letters k).text_some,
    cookieLoop_nil, taken_text, taken_text, count, Nat.add_sub_cancel]
  simp only [List.append_assoc, List.cons_append, List.nil_append]
  rfl

/-- Two sessions with one ID, from a clock that is set back. -/
def setBack : List Op := .start 11 :: List.replicate 9 (.start 1)

/-- Neither condition can be left out: sessions started while the clock is set back share an ID,
and a pair of 2^32 - 1 bytes hides the session cookie behind it. -/
theorem session_lost :
    (¬ ∀ (pre post : List Op) (now : Nat) (response : MResponse) (before after : List Pair)
      (sid : Pair) (node : CNode) (vv : CVarVal),
      (SessionTable.run (pre ++ .start now :: post)).idOf (startTimes pre).length =
        some response.SID → Emitted response sid →
      (∀ p ∈ before ++ after, p.Name ≠ "SolusekSID".toList) → Short (before ++ sid :: after) →
      node.getHeader "Cookie".toList = some vv → vv.Val = headerText (before ++ sid :: after) →
      Returns pre now post (before ++ sid :: after) node) ∧
    ¬ ∀ (pre post : List Op) (now : Nat) (response : MResponse) (before after : List Pair)
      (sid : Pair) (node : CNode) (vv : CVarVal), Clock (startTimes (pre ++ .start now :: post)) →
      (SessionTable.run (pre ++ .start now :: post)).idOf (startTimes pre).length =
        some response.SID → Emitted response sid →
      (∀ p ∈ before ++ after, p.Name ≠ "SolusekSID".toList) →
      node.getHeader "Cookie".toList = some vv → vv.Val = headerText (before ++ sid :: after) →
      Returns pre now post (before ++ sid :: after) node := by
  constructor
  · intro claim
    have own : (SessionTable.run (setBack ++ .start 1 :: [])).idOf (startTimes setBack).length =
        some ({ SID := printNat 110 } : MResponse).SID := by
      decide
    obtain ⟨request, _, continued⟩ := claim setBack [] 1 { SID := printNat 110 } [] []
      (sidPair (printNat 110) (printNat_value _)) (cookieNode "SolusekSID=110".toList) _ own
      (sidPair_emitted (printNat_value _) (by decide)) (by decide) (show _ < _ by decide)
      (cookieNode_getHeader _) (by decide)
    have other : (SessionTable.run (setBack ++ .start 1 :: [])).getSession (printNat 110) = some 0 := by
      decide
    have read := continued.session
    have same : request.SID = printNat 110 := (Option.some.inj (continued.sid.symm.trans own))
    rw [same, other] at read
    exact absurd read (by decide)
  · intro claim
    have clock : Clock (startTimes ([] ++ .start 1700000000 :: [])) :=
      ⟨by decide, by decide, fun t => (List.count_le_length).trans (by decide)⟩
    have own : (SessionTable.run ([] ++ .start 1700000000 :: [])).idOf (startTimes []).length =
        some ({ SID := printNat 17000000000 } : MResponse).SID := by
      decide
    have others : ∀ p ∈ [letters (2 ^ 32 - 3)] ++ [], p.Name ≠ "SolusekSID".toList := by
      intro p member
      rw [List.mem_singleton.mp member]
      exact show "a".toList ≠ "SolusekSID".toList by decide
    have header := cookieNode_getHeader
      (headerText [letters (2 ^ 32 - 3), sidPair (printNat 17000000000) (printNat_value _)])
    obtain ⟨request, built, continued⟩ := claim [] [] 1700000000 { SID := printNat 17000000000 }
      [letters (2 ^ 32 - 3)] [] (sidPair (printNat 17000000000) (printNat_value _)) _ _ clock own
      (sidPair_emitted (printNat_value _) (by decide)) others header rfl
    have size : (sidPair (printNat 17000000000) (printNat_value _)).text.length < 100 := by decide
    obtain ⟨fresh, _, blank, other, read, _, sid⟩ := buildRequest_of_loop header
      (cookieLoop_wrapped (by decide) size)
    obtain rfl := Except.ok.inj (built.symm.trans read)
    have same : request.SID = printNat 17000000000 :=
      Option.some.inj (continued.sid.symm.trans own)
    rw [sid, blank] at same
    exact absurd same (by decide)

end Solusek.SessionCookies
