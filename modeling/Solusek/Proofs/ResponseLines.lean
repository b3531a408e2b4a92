import Solusek.Lib.Texts
import Solusek.Proofs.Wire

/-!
# The lines of a response

`CNode` writes a status line and a line for each field, and `CClient` reads line by line. A line with
a name and a value sets that name; the last one counts.
-/

namespace Solusek.RoundTrip

open Socket Lines Texts Client Node

/-- A header text: it ends no line and is like no status line. -/
def HeaderText (s : Str) : Prop := Printed s ∧ ¬ "HTTP/1.1".toList <:+: s

def headerTexts (response : MResponse) : List Str :=
  [response.ContentType, response.Date, response.SID] ++
    response.Cookies.flatMap fun cookie => [cookie.Name, cookie.Value, cookie.Path]

structure Reply (response : MResponse) : Prop where
  code : -2 ^ 31 ≤ response.Code ∧ response.Code < 2 ^ 31
  body : response.Body.length < 2 ^ 31
  contentType : response.ContentType ≠ [] ∧ Trimmed response.ContentType
  cookies : ∀ cookie ∈ response.Cookies, cookie.Name ≠ [] ∧ cookie.Value ≠ []
  texts : ∀ text ∈ headerTexts response, HeaderText text

/-! ### One line -/

theorem responseLine_field (head : Head) {name val : Str} (plain : ':' ∉ name)
    (small : name.length + 1 < 2 ^ 31) (other : ¬ "HTTP/1.1".toList <:+: name ++ ':' :: val) :
    responseLine head (name ++ ':' :: val) = .ok { head with
      headers := Function.update head.headers (trim (strtolower name)) (trim val) } := by
  have position : toInt (some name.length) = name.length := sizeToInt_small (by omega)
  have next : toSize (intSucc name.length) = name.length + 1 := by
    rw [intSucc_small small]
    exact toSize_natCast (by omega)
  have here : toSize (name.length : Int) = name.length := toSize_natCast (by omega)
  unfold responseLine
  rw [if_neg (by rw [find_eq_none other]; simp)]
  simp only [findChar_append plain, position, here, next, substr_left, substr_behind]
  rfl

theorem responseLine_blank (head : Head) :
    responseLine head [] = .ok { head with headers := Function.update head.headers [] [] } := by
  have absent : find "HTTP/1.1".toList [] = none := rfl
  have nowhere : toInt (findChar [] ':') = -1 := rfl
  have start : toSize (intSucc (-1)) = 0 := rfl
  have lowered : strtolower [] = [] := by simp [strtolower]
  have read (last : Nat) (f : Str → Str → Head) : (do
      let var ← substr [] 0 (some last)
      let val ← substr [] 0
      pure (f var val)) = .ok (f [] []) := by
    simp only [substr, List.drop_nil, List.take_nil]
    rfl
  unfold responseLine
  rw [if_neg (by rw [absent]; simp)]
  simp only [nowhere, start]
  refine (read (toSize (-1)) fun var val => { head with
    headers := Function.update head.headers (trim (strtolower var)) (trim val) }).trans ?_
  rw [lowered]
  rfl

theorem printInt_chars {n : Int} {c : Char} (member : c ∈ printInt n) :
    c = '-' ∨ c.isDigit = true := by
  unfold printInt at member
  split at member
  · rcases List.mem_cons.mp member with sign | digit
    · exact Or.inl sign
    · exact Or.inr (Decimal.isDigit_of_mem digit)
  · exact Or.inr (Decimal.isDigit_of_mem member)

theorem not_mem_printInt (n : Int) {c : Char} (minus : c ≠ '-') (other : c.isDigit = false) :
    c ∉ printInt n := by
  intro member
  rcases printInt_chars member with sign | digit
  · exact minus sign
  · exact absurd digit (by simp [other])

theorem printNat_short {n : Nat} (small : n < 10 ^ 10) : (printNat n).length ≤ 10 :=
  (Nat.length_toDigits_le_iff (by decide) (by decide)).mpr small

theorem printInt_short {n : Int} (int : -2 ^ 31 ≤ n ∧ n < 2 ^ 31) :
    0 < (printInt n).length ∧ (printInt n).length ≤ 11 := by
  have positive := Nat.length_toDigits_pos (b := 10) (n := n.natAbs)
  have digits := @printNat_short n.natAbs (by omega)
  unfold printInt
  unfold printNat at digits ⊢
  split
  · rw [List.length_cons]
    omega
  · omega

theorem responseLine_status (head : Head) {code : Int} (int : -2 ^ 31 ≤ code ∧ code < 2 ^ 31)
    (desc : Str) :
    responseLine head ("HTTP/1.1".toList ++ ' ' :: (printInt code ++ ' ' :: desc)) =
      .ok { head with code := code } := by
  have solid : ' ' ∉ "HTTP/1.1".toList := by decide
  have found : find "HTTP/1.1".toList
      ("HTTP/1.1".toList ++ ' ' :: (printInt code ++ ' ' :: desc)) ≠ none := by
    intro absent
    exact not_infix_of_find absent (List.prefix_append _ _).isInfix
  have digits : ' ' ∉ printInt code := not_mem_printInt code (by decide) (by decide)
  have terminated : '\x00' ∉ printInt code := not_mem_printInt code (by decide) (by decide)
  have first : toInt (some "HTTP/1.1".toList.length) = 8 := sizeToInt_small (by decide)
  have second : toInt (some (printInt code).length) = (printInt code).length := by
    have short := printInt_short int
    exact sizeToInt_small (by omega)
  have behind : toSize (intSucc 8) = "HTTP/1.1".toList.length + 1 := rfl
  have here : toSize ((printInt code).length : Int) = (printInt code).length := by
    have short := printInt_short int
    exact toSize_natCast (by omega)
  have read := atoi_printInt int.1 int.2
  unfold responseLine
  rw [if_pos found]
  simp only [findChar_append solid, first, behind, substr_behind, findChar_append digits, second,
    here, substr_left, bind, Except.bind, cstr_eq terminated, read]
  rfl

/-! ### Lines of names and values -/

/-- The value a header name has once the line of `f` is read. -/
def put (headers : Str → Str) (f : Str × Str) : Str → Str :=
  Function.update headers (trim (strtolower f.1)) (trim (' ' :: f.2))

def fieldLine (f : Str × Str) : Str := f.1 ++ ':' :: ' ' :: f.2

structure Field (f : Str × Str) : Prop where
  name : Printed f.1 ∧ ':' ∉ f.1 ∧ 'H' ∉ f.1 ∧ f.1.length + 1 < 2 ^ 31
  value : HeaderText f.2

theorem Field.line_printed {f : Str × Str} (field : Field f) : Printed (fieldLine f) :=
  printed_append field.name.1 (printed_cons (by decide) (printed_cons (by decide) field.value.1))

theorem Field.handled {f : Str × Str} (field : Field f) (head : Head) :
    responseLine head (fieldLine f) = .ok { head with headers := put head.headers f } := by
  obtain ⟨_, plain, other, small⟩ := field.name
  apply responseLine_field head plain small
  intro found
  have behind := infix_of_append (show 'H' ∉ f.1 ++ [':', ' '] by simp [other])
    (show 'H' :: "TTP/1.1".toList <:+: (f.1 ++ [':', ' ']) ++ f.2 by simpa using found)
  exact field.value.2 behind

theorem shown_line {l : Str} (printed : Printed l) (eof : Int) : (headReader eof).shown l = l := by
  apply Reader.shown_plain
  intro c member
  have notCr : c ≠ '\r' := fun same => printed.1 (same ▸ member)
  have notNul : c ≠ '\x00' := fun same => printed.2.2 (same ▸ member)
  simp [headReader, cstr, notCr, notNul]

theorem foldlM_fields {fields : List (Str × Str)} (sound : ∀ f ∈ fields, Field f) (head : Head) :
    (fields.map fieldLine).foldlM responseLine head =
      .ok { head with headers := fields.foldl put head.headers } := by
  induction fields generalizing head with
  | nil => rfl
  | cons f fields ih =>
    rw [List.map_cons, List.foldlM_cons, (sound f List.mem_cons_self).handled]
    exact ih (fun g member => sound g (List.mem_cons_of_mem _ member)) _

theorem foldlM_head {status : Str} {code : Int} (first : responseLine {} status = .ok { code })
    {fields : List (Str × Str)} (sound : ∀ f ∈ fields, Field f) :
    (status :: fields.map fieldLine ++ [[]]).foldlM responseLine {} =
      .ok { code, headers := Function.update (fields.foldl put fun _ => []) [] [] } := by
  have bind (head : Head) (f : Head → Except Exn Head) : (.ok head >>= f) = f head := rfl
  rw [List.cons_append, List.foldlM_cons, first, bind, List.foldlM_append,
    foldlM_fields sound { code }, bind, List.foldlM_cons, responseLine_blank, bind, List.foldlM_nil]
  rfl

theorem headLoop_lines {lines : List Str} (nonempty : lines ≠ [])
    (printed : ∀ l ∈ lines, Printed l ∧ ' ' ∈ l) {head : Head}
    (handled : (lines ++ [[]]).foldlM responseLine {} = .ok head) (eof : Int) (rest : Str) :
    headLoop eof [] 0 {} ((headReader eof).text ['\r'] lines ++ rest) = (head, .ok rest) := by
  have written : ∀ l ∈ lines, l.all (headReader eof).skip = false := by
    intro l member
    rw [List.all_eq_false]
    exact ⟨' ', (printed l member).2, by simp [headReader]⟩
  have shown : lines.map (headReader eof).shown = lines := by
    conv_rhs => rw [← List.map_id lines]
    exact List.map_congr_left fun l member => shown_line (printed l member).1 eof
  rw [← shown] at handled
  rw [headLoop_eq]
  exact Reader.scan_text (headReader_cr eof) rfl nonempty (fun l member => (printed l member).1.2.1)
    written rest handled

theorem foldl_put_other {fields : List (Str × Str)} {key : Str}
    (apart : ∀ f ∈ fields, trim (strtolower f.1) ≠ key) (headers : Str → Str) :
    fields.foldl put headers key = headers key := by
  induction fields generalizing headers with
  | nil => rfl
  | cons f fields ih =>
    rw [List.foldl_cons, ih fun g member => apart g (List.mem_cons_of_mem _ member)]
    exact Function.update_of_ne (apart f List.mem_cons_self).symm _ _

theorem foldl_put_last {f : Str × Str} {after : List (Str × Str)} {key : Str}
    (named : trim (strtolower f.1) = key) (apart : ∀ g ∈ after, trim (strtolower g.1) ≠ key)
    (headers : Str → Str) :
    (f :: after).foldl put headers key = trim (' ' :: f.2) := by
  rw [List.foldl_cons, foldl_put_other apart, ← named]
  exact Function.update_self _ _ _

/-! ### The lines of a response -/

def sidCookies (SID : Str) : List MCookie :=
  if SID.length > 0 then
    [{ Name := "SolusekSID".toList, Value := SID, Path := "/".toList }]
  else []

def cookieField (cookie : MCookie) : Str × Str :=
  ("Set-Cookie".toList, cookie.Name ++ '=' :: (cookie.Value ++ ';' :: (" SameSite=Strict".toList ++
    if cookie.Path.length > 0 then ';' :: (" Path=".toList ++ cookie.Path) else [])))

def statusLine (response : MResponse) : Str :=
  "HTTP/1.1".toList ++ ' ' :: (printInt response.Code ++ ' ' :: response.getCodeDescription)

def laterFields (response : MResponse) : List (Str × Str) :=
  (sidCookies response.SID ++ response.Cookies).map cookieField ++
    [("Server".toList, "Solusek/1.0 (Linux)".toList), ("Connection".toList, "close".toList)]

def fields (response : MResponse) (tm : Tm) : List (Str × Str) :=
  ("Date".toList, responseDate response tm) :: ("Content-Type".toList, response.ContentType) ::
    ("Content-Length".toList, printNat (response.Body.length % 2 ^ 32)) ::
    ("Last-Modified".toList, responseDate response tm) :: laterFields response

/-- What `writeResponse` writes before the cookies. -/
def openParts (response : MResponse) (tm : Tm) : List Str :=
  let sdt := responseDate response tm
  ["HTTP/1.1 ".toList, printInt response.Code, " ".toList, response.getCodeDescription,
    "\r\n".toList, "Date: ".toList, sdt, "\r\n".toList,
    "Content-Type: ".toList, response.ContentType, "\r\n".toList,
    "Content-Length: ".toList, printNat (response.Body.length % 2 ^ 32), "\r\n".toList,
    "Last-Modified: ".toList, sdt, "\r\n".toList]

/-- What it writes before the body. -/
def headParts (response : MResponse) (tm : Tm) : List Str :=
  openParts response tm ++ (sidParts response.SID ++ (response.Cookies.flatMap cookieParts ++
  ["Server: Solusek/1.0 (Linux)\r\n".toList, "Connection: close\r\n".toList, "\r\n".toList]))

theorem responseParts_eq (response : MResponse) (tm : Tm) :
    responseParts response tm = headParts response tm ++ [response.Body] := by
  simp only [responseParts, headParts, openParts, List.append_assoc, List.cons_append,
    List.nil_append]

theorem crlf : "\r\n".toList = ['\r', '\n'] := rfl

theorem setCookie_name : "Set-Cookie: ".toList = "Set-Cookie".toList ++ [':', ' '] := rfl

theorem sameSite_text : "; SameSite=Strict".toList = ';' :: " SameSite=Strict".toList := rfl

theorem path_text : "; Path=".toList = ';' :: " Path=".toList := rfl

theorem cookieParts_flatten (cookie : MCookie) :
    (cookieParts cookie).flatten = fieldLine (cookieField cookie) ++ ['\r', '\n'] := by
  unfold cookieParts fieldLine cookieField
  rw [crlf, setCookie_name, sameSite_text, path_text]
  split <;> simp

theorem cookieField_sid (SID : Str) :
    cookieField { Name := "SolusekSID".toList, Value := SID, Path := "/".toList } =
      ("Set-Cookie".toList, "SolusekSID".toList ++ '=' :: (SID ++ ';' ::
        (" SameSite=Strict".toList ++ ';' :: (" Path=".toList ++ "/".toList)))) := by
  have positive : 0 < "/".toList.length := by decide
  unfold cookieField
  rw [if_pos positive]

theorem sidParts_flatten (SID : Str) : (sidParts SID).flatten =
    ((sidCookies SID).map cookieField).flatMap fun f => fieldLine f ++ ['\r', '\n'] := by
  have root : "; Path=/".toList = ';' :: (" Path=".toList ++ "/".toList) := rfl
  have equals : "=".toList = ['='] := rfl
  unfold sidParts sidCookies
  split
  · rw [List.map_singleton, List.flatMap_singleton, cookieField_sid, crlf, setCookie_name,
      sameSite_text, root, equals]
    simp only [fieldLine, List.flatten_cons, List.flatten_nil, List.append_assoc, List.cons_append,
      List.nil_append, List.append_nil]
  · rfl

theorem cookies_flatten (Cookies : List MCookie) : (Cookies.flatMap cookieParts).flatten =
    (Cookies.map cookieField).flatMap fun f => fieldLine f ++ ['\r', '\n'] := by
  induction Cookies with
  | nil => rfl
  | cons cookie Cookies ih =>
    rw [List.flatMap_cons, List.flatten_append, cookieParts_flatten, ih]
    rfl

theorem headParts_flatten (response : MResponse) (tm : Tm) (eof : Int) :
    (headParts response tm).flatten = (headReader eof).text ['\r']
      (statusLine response :: (fields response tm).map fieldLine) := by
  have brk : (headReader eof).brk ['\r'] = ['\r', '\n'] := rfl
  unfold Reader.text headParts openParts fields laterFields statusLine
  rw [brk, List.flatMap_cons, List.flatMap_map]
  simp only [List.flatten_append, sidParts_flatten, cookies_flatten]
  have first : "HTTP/1.1 ".toList = "HTTP/1.1".toList ++ [' '] := rfl
  have space : " ".toList = [' '] := rfl
  have date : "Date: ".toList = "Date".toList ++ [':', ' '] := rfl
  have type : "Content-Type: ".toList = "Content-Type".toList ++ [':', ' '] := rfl
  have length : "Content-Length: ".toList = "Content-Length".toList ++ [':', ' '] := rfl
  have modified : "Last-Modified: ".toList = "Last-Modified".toList ++ [':', ' '] := rfl
  have server : "Server: Solusek/1.0 (Linux)\r\n".toList =
      "Server".toList ++ [':', ' '] ++ "Solusek/1.0 (Linux)".toList ++ ['\r', '\n'] := rfl
  have connection : "Connection: close\r\n".toList =
      "Connection".toList ++ [':', ' '] ++ "close".toList ++ ['\r', '\n'] := rfl
  simp only [first, space, date, type, length, modified, server, connection, crlf, fieldLine,
    List.flatten_cons, List.flatten_nil, List.flatMap_cons, List.flatMap_nil, List.flatMap_append,
    List.map_append, List.append_assoc, List.cons_append, List.nil_append, List.append_nil]

end Solusek.RoundTrip
