import Solusek.Proofs.ResponseLines

/-!
# Texts without a status line

`CClient` takes every line that contains `HTTP/1.1` for a status line. The dates and numbers that
`CNode` writes do not, so the head of a response is read as it was meant.
-/

namespace Solusek.RoundTrip

open Socket Lines Texts Client Node

/-- The characters of a printed time. -/
def stampChar (c : Char) : Bool := c != '\r' && c != '\n' && c != '\x00' && c != 'H'

theorem headerText_of_stamp {s : Str} (stamp : s.all stampChar = true) : HeaderText s := by
  have apart {c : Char} (other : stampChar c = false) : c ∉ s := by
    intro member
    have kept := List.all_eq_true.mp stamp c member
    exact absurd kept (by simp [other])
  refine ⟨⟨apart (by decide), apart (by decide), apart (by decide)⟩, fun found => ?_⟩
  exact apart (c := 'H') (by decide) (found.subset List.mem_cons_self)

theorem printNat_stamp (n : Nat) : (printNat n).all stampChar = true := by
  have apart (c : Char) (other : c.isDigit = false) : c ∉ printNat n :=
    Decimal.not_mem_toDigits other
  rw [List.all_eq_true]
  intro c member
  have notCr : c ≠ '\r' := fun same => apart '\r' (by decide) (same ▸ member)
  have notLf : c ≠ '\n' := fun same => apart '\n' (by decide) (same ▸ member)
  have notNul : c ≠ '\x00' := fun same => apart '\x00' (by decide) (same ▸ member)
  have notH : c ≠ 'H' := fun same => apart 'H' (by decide) (same ▸ member)
  simp [stampChar, notCr, notLf, notNul, notH]

theorem printInt_stamp (n : Int) : (printInt n).all stampChar = true := by
  unfold printInt
  split
  · rw [List.all_cons, printNat_stamp]
    rfl
  · exact printNat_stamp _

theorem pad_stamp {fill : Char} (kept : stampChar fill = true) {n : Nat} (small : n < 61) :
    (pad fill n).all stampChar = true ∧ (pad fill n).length ≤ 11 := by
  have digits := @printNat_short n (by omega)
  unfold pad
  split
  · rw [List.all_cons, kept, printNat_stamp, List.length_cons]
    exact ⟨rfl, by omega⟩
  · exact ⟨printNat_stamp n, by omega⟩

theorem weekday_stamp (d : Fin 7) :
    (weekdays.getD d []).all stampChar = true ∧ (weekdays.getD d []).length = 3 := by
  revert d
  decide

theorem month_stamp (m : Fin 12) :
    (months.getD m []).all stampChar = true ∧ (months.getD m []).length = 3 := by
  revert m
  decide

theorem asctime_eq (tm : Tm) : ∃ stamp, asctime tm = stamp ++ ['\n'] ∧
    stamp.all stampChar = true ∧ 0 < stamp.length ∧ stamp.length < 2 ^ 31 := by
  obtain ⟨weekday, weekdaySize⟩ := weekday_stamp tm.tm_wday
  obtain ⟨month, monthSize⟩ := month_stamp tm.tm_mon
  obtain ⟨day, daySize⟩ := @pad_stamp ' ' rfl tm.tm_mday (by omega)
  obtain ⟨hour, hourSize⟩ := @pad_stamp '0' rfl tm.tm_hour (by omega)
  obtain ⟨minute, minuteSize⟩ := @pad_stamp '0' rfl tm.tm_min (by omega)
  obtain ⟨second, secondSize⟩ := @pad_stamp '0' rfl tm.tm_sec (by omega)
  have year := printInt_stamp (tm.tm_year + 1900)
  have yearSize := printInt_short tm.year_int
  have space : " ".toList.all stampChar = true ∧ " ".toList.length = 1 := by decide
  have colon : ":".toList.all stampChar = true ∧ ":".toList.length = 1 := by decide
  refine ⟨_, rfl, ?_, ?_⟩
  · simp only [List.all_append, weekday, month, day, hour, minute, second, year, space.1, colon.1,
      Bool.and_self]
  · simp only [List.length_append, weekdaySize, monthSize, space.2, colon.2]
    omega

theorem headerText_append_cons {a b : Str} {c : Char} (outside : c ∉ "HTTP/1.1".toList)
    (other : c ≠ '\r' ∧ c ≠ '\n' ∧ c ≠ '\x00') (left : HeaderText a) (right : HeaderText b) :
    HeaderText (a ++ c :: b) := by
  refine ⟨printed_append left.1 (printed_cons other right.1), fun found => ?_⟩
  rcases infix_of_append_cons outside found with here | there
  · exact left.2 here
  · exact right.2 there

theorem headerText_behind {a b : Str} (stamp : a.all stampChar = true) (text : HeaderText b) :
    HeaderText (a ++ b) := by
  refine ⟨printed_append (headerText_of_stamp stamp).1 text.1, fun found => text.2 ?_⟩
  have outside : 'H' ∉ a := fun member => absurd (List.all_eq_true.mp stamp 'H' member) (by decide)
  exact infix_of_append outside found

theorem cookieField_text {cookie : MCookie} (name : HeaderText cookie.Name)
    (value : HeaderText cookie.Value) (path : HeaderText cookie.Path) :
    HeaderText (cookieField cookie).2 := by
  have equals : '=' ∉ "HTTP/1.1".toList ∧ '=' ≠ '\r' ∧ '=' ≠ '\n' ∧ '=' ≠ '\x00' := by decide
  have semicolon : ';' ∉ "HTTP/1.1".toList ∧ ';' ≠ '\r' ∧ ';' ≠ '\n' ∧ ';' ≠ '\x00' := by decide
  have strict : HeaderText " SameSite=Strict".toList := headerText_of_stamp rfl
  have ends : HeaderText (" SameSite=Strict".toList ++
      if cookie.Path.length > 0 then ';' :: (" Path=".toList ++ cookie.Path) else []) := by
    split
    · exact headerText_append_cons semicolon.1 semicolon.2 strict (headerText_behind rfl path)
    · rw [List.append_nil]
      exact strict
  exact headerText_append_cons equals.1 equals.2 name
    (headerText_append_cons semicolon.1 semicolon.2 value ends)

theorem responseDate_text {response : MResponse} (date : HeaderText response.Date) (tm : Tm) :
    HeaderText (responseDate response tm) := by
  unfold responseDate
  split
  · obtain ⟨stamp, whole, kept, _⟩ := asctime_eq tm
    simp only [whole, List.length_append, List.length_singleton, Nat.add_sub_cancel,
      List.take_left']
    exact headerText_of_stamp kept
  · exact date

theorem responseDate_size {response : MResponse} (short : response.Date.length < 2 ^ 31) (tm : Tm) :
    0 < (responseDate response tm).length ∧ (responseDate response tm).length < 2 ^ 31 := by
  unfold responseDate
  split
  · obtain ⟨stamp, whole, _, size⟩ := asctime_eq tm
    simp only [whole, List.length_append, List.length_singleton, Nat.add_sub_cancel,
      List.take_left']
    exact size
  · omega

theorem statusLine_printed (response : MResponse) : Printed (statusLine response) := by
  have protocol : Printed "HTTP/1.1".toList := ⟨by decide, by decide, by decide⟩
  have space : ' ' ≠ '\r' ∧ ' ' ≠ '\n' ∧ ' ' ≠ '\x00' := by decide
  have desc : Printed response.getCodeDescription := by
    unfold MResponse.getCodeDescription
    split
    · exact ⟨by decide, by decide, by decide⟩
    split
    · exact ⟨by decide, by decide, by decide⟩
    split
    · exact ⟨by decide, by decide, by decide⟩
    · exact ⟨by decide, by decide, by decide⟩
  exact printed_append protocol (printed_cons space
    (printed_append (headerText_of_stamp (printInt_stamp _)).1 (printed_cons space desc)))

def headOf (response : MResponse) (tm : Tm) : Head where
  code := response.Code
  headers := Function.update ((fields response tm).foldl put fun _ => []) [] []

namespace Reply

variable {response : MResponse}

theorem cookie_texts (reply : Reply response) {cookie : MCookie}
    (member : cookie ∈ response.Cookies) :
    HeaderText cookie.Name ∧ HeaderText cookie.Value ∧ HeaderText cookie.Path := by
  have written : ∀ text ∈ [cookie.Name, cookie.Value, cookie.Path], HeaderText text :=
    fun text inside => reply.texts text
      (List.mem_append_right _ (List.mem_flatMap.mpr ⟨cookie, member, inside⟩))
  exact ⟨written _ (by simp), written _ (by simp), written _ (by simp)⟩

theorem sid_texts (reply : Reply response) {cookie : MCookie}
    (member : cookie ∈ sidCookies response.SID) :
    HeaderText cookie.Name ∧ HeaderText cookie.Value ∧ HeaderText cookie.Path := by
  unfold sidCookies at member
  split at member
  · rw [List.mem_singleton.mp member]
    exact ⟨headerText_of_stamp rfl, reply.texts _ (by simp [headerTexts]), headerText_of_stamp rfl⟩
  · exact absurd member List.not_mem_nil

theorem fields_sound (reply : Reply response) (tm : Tm) : ∀ f ∈ fields response tm, Field f := by
  have date := responseDate_text (reply.texts response.Date (by simp [headerTexts])) tm
  have type := reply.texts response.ContentType (by simp [headerTexts])
  have length := headerText_of_stamp (printNat_stamp (response.Body.length % 2 ^ 32))
  have field (name : Str) (fixed : Printed name ∧ ':' ∉ name ∧ 'H' ∉ name ∧ name.length < 20)
      {val : Str} (value : HeaderText val) : Field (name, val) := by
    obtain ⟨printed, plain, other, small⟩ := fixed
    have short : name.length + 1 < 2 ^ 31 := by omega
    exact ⟨⟨printed, plain, other, short⟩, value⟩
  intro f member
  unfold fields laterFields at member
  simp only [List.mem_append, List.mem_cons, List.not_mem_nil, or_false, List.mem_map] at member
  rcases member with rfl | rfl | rfl | rfl | ⟨cookie, inside, rfl⟩ | rfl | rfl
  · exact field "Date".toList (by decide) date
  · exact field "Content-Type".toList (by decide) type
  · exact field "Content-Length".toList (by decide) length
  · exact field "Last-Modified".toList (by decide) date
  · obtain ⟨n, v, p⟩ : HeaderText cookie.Name ∧ HeaderText cookie.Value ∧ HeaderText cookie.Path := by
      rcases inside with session | other
      · exact reply.sid_texts session
      · exact reply.cookie_texts other
    exact field "Set-Cookie".toList (by decide) (cookieField_text n v p)
  · exact field "Server".toList (by decide) (headerText_of_stamp rfl)
  · exact field "Connection".toList (by decide) (headerText_of_stamp rfl)

theorem lines_handled (reply : Reply response) (tm : Tm) :
    (statusLine response :: (fields response tm).map fieldLine ++ [[]]).foldlM responseLine {} =
      .ok (headOf response tm) :=
  foldlM_head (responseLine_status {} reply.code response.getCodeDescription)
    (reply.fields_sound tm)

theorem lines_printed (reply : Reply response) (tm : Tm) :
    ∀ l ∈ statusLine response :: (fields response tm).map fieldLine, Printed l ∧ ' ' ∈ l := by
  intro l member
  rcases List.mem_cons.mp member with rfl | later
  · exact ⟨statusLine_printed response, List.mem_append_right _ List.mem_cons_self⟩
  · obtain ⟨f, inside, rfl⟩ := List.mem_map.mp later
    have space : ' ' ∈ ':' :: ' ' :: f.2 := List.mem_cons_of_mem _ List.mem_cons_self
    exact ⟨(reply.fields_sound tm f inside).line_printed, List.mem_append_right _ space⟩

theorem headLoop_response (reply : Reply response) (tm : Tm) (eof : Int) :
    headLoop eof [] 0 {} ((headParts response tm).flatten ++ response.Body) =
      (headOf response tm, .ok response.Body) := by
  rw [headParts_flatten response tm eof]
  exact headLoop_lines (List.cons_ne_nil _ _) (reply.lines_printed tm) (reply.lines_handled tm) eof
    response.Body

end Reply

end Solusek.RoundTrip
