import Solusek.Lib.Texts
import Solusek.Proofs.NodeInput

/-!
# The segments of a `Cookie` header

The cookie loop keeps what a search finds in an `unsigned int`, which is never `npos`. So a
segment without '=' is taken for a cookie that has the segment as its name and as its value.
-/

namespace Solusek.SessionCookies

open Texts Node

/-- The cookie of a segment: its text split at the first '='. -/
def cookieOf (s : Str) : MCookie where
  Name := (trim s).takeWhile (· ≠ '=')
  Value := ((trim s).dropWhile (· ≠ '=')).tail

/-- The cookies of the segments that hold '='. -/
def cookiesOf (segments : List Str) : List MCookie :=
  (segments.filter fun s => decide ('=' ∈ trim s)).map cookieOf

/-- The SID behind some cookies: the value of the last one with that name. -/
def sidAfter (SID : Str) (cookies : List MCookie) : Str :=
  cookies.foldl (fun SID ck => if ck.Name = "SolusekSID".toList then ck.Value else SID) SID

/-- `run` builds a request with the cookies of the header's segments, and their SID. -/
def CookiesExact (node : CNode) (text : Str) : Prop :=
  ∃ request, buildRequest node = .ok request ∧
    request.Cookies = cookiesOf (text.splitOn ';') ∧
    request.SID = sidAfter [] (cookiesOf (text.splitOn ';'))

/-- Every segment holds '=', but for an empty one at the end. -/
def Filled (segments : List Str) : Prop :=
  (∀ s ∈ segments.dropLast, '=' ∈ s) ∧ ∀ s ∈ segments.getLast?, s = [] ∨ '=' ∈ s

/-- Every segment, and the ';' behind it, is short enough for the positions of the loop. -/
def ShortSegments (segments : List Str) : Prop :=
  (∀ s ∈ segments.dropLast, s.length < 2 ^ 32 - 1) ∧ ∀ s ∈ segments.getLast?, s.length < 2 ^ 32

/-! ### One segment -/

section

variable {s : Str}

theorem mem_trim : '=' ∈ trim s ↔ '=' ∈ s := by
  have solid : ∀ c ∈ ['='], isspace c = false := fun c member =>
    isspace_above (by rw [List.mem_singleton.mp member]; decide)
  constructor
  · exact fun member => (trim_inside s).subset member
  · intro member
    rw [← List.singleton_infix_iff] at member ⊢
    exact infix_trim solid member

/-- What the loop makes of a segment. -/
def taken (s : Str) : MCookie :=
  if '=' ∈ trim s then cookieOf s else { Name := trim s, Value := trim s }

theorem parseCookie_taken (short : s.length < 2 ^ 32) : parseCookie s = .ok (taken s) := by
  have size := (trim_inside s).length_le
  unfold parseCookie taken
  by_cases filled : '=' ∈ trim s
  · obtain ⟨p, q, whole, absent⟩ := List.eq_append_cons_of_mem filled
    have bound : p.length + 1 ≤ (trim s).length := by
      rw [whole, List.length_append, List.length_cons]
      omega
    have found : toUnsigned (findChar (p ++ '=' :: q) '=') = p.length := by
      rw [findChar_append absent]
      exact Nat.mod_eq_of_lt (by omega)
    have next : (p.length + 1) % 2 ^ 32 = p.length + 1 := Nat.mod_eq_of_lt (by omega)
    rw [if_pos filled, cookieOf]
    simp only [whole, found, next, substr_left, substr_behind, bind, Except.bind, pure, Except.pure,
      takeWhile_ne absent, dropWhile_ne absent, List.tail_cons]
  · have found : toUnsigned (findChar (trim s) '=') = 2 ^ 32 - 1 := by
      rw [findChar_none filled]
      rfl
    have start : (2 ^ 32 - 1 + 1) % 2 ^ 32 = 0 := rfl
    have all : substr (trim s) 0 (some (2 ^ 32 - 1)) = .ok (trim s) := by
      rw [substr, if_neg (Nat.not_lt_zero _)]
      refine congrArg Except.ok (List.take_of_length_le ?_)
      rw [List.drop_zero]
      omega
    have behind : substr (trim s) 0 = .ok (trim s) := by
      rw [substr, if_neg (Nat.not_lt_zero _)]
      rfl
    rw [if_neg filled]
    simp only [found, start, all, behind, bind, Except.bind, pure, Except.pure]

theorem sliceCookie_more (plain : ';' ∉ s) (short : s.length < 2 ^ 32 - 1) (rest : Str) :
    sliceCookie (s ++ ';' :: rest) = (s, rest) := by
  have found : toUnsigned (findChar (s ++ ';' :: rest) ';') = s.length := by
    rw [findChar_append plain]
    exact Nat.mod_eq_of_lt (by omega)
  have next : (s.length + 1) % 2 ^ 32 = s.length + 1 := Nat.mod_eq_of_lt (by omega)
  have size : (s ++ ';' :: rest).length = s.length + 1 + rest.length := by
    simp only [List.length_append, List.length_cons]
    omega
  have left : s.length + 1 + rest.length - s.length - 1 = rest.length := by omega
  unfold sliceCookie
  simp only [found, next, size, left]
  rw [if_pos (by omega)]
  simp

theorem sliceCookie_last (plain : ';' ∉ s) (short : s.length < 2 ^ 32) :
    sliceCookie s = (s, []) := by
  have found : toUnsigned (findChar s ';') = 2 ^ 32 - 1 := by
    rw [findChar_none plain]
    rfl
  unfold sliceCookie
  simp only [found]
  rw [if_neg (by omega)]

theorem cookieLoop_nil (request : MRequest) : cookieLoop request [] = .ok request := by
  unfold cookieLoop
  rfl

theorem cookieLoop_step (short : s.length < 2 ^ 32) {deccum rest : Str}
    (slice : sliceCookie deccum = (s, rest)) (nonempty : deccum ≠ []) (request : MRequest) :
    cookieLoop request deccum = cookieLoop
      { request with Cookies := request.Cookies ++ [taken s], SID := sidAfter request.SID [taken s] }
      rest := by
  have parsed := parseCookie_taken short
  rw [cookieLoop, dif_neg nonempty, slice]
  simp only [parsed, sidAfter, List.foldl_cons, List.foldl_nil]
  split
  · rfl
  · rfl

end

/-! ### All segments -/

/-- The segments that the loop comes to: all but an empty one at the end. -/
def looked (segments : List Str) : List Str :=
  segments.dropLast ++ segments.getLast?.toList.filter fun s => decide (s ≠ [])

theorem segments_whole (segments : List Str) :
    segments.dropLast ++ segments.getLast?.toList = segments := by
  cases last : segments.getLast? with
  | none =>
    rw [List.getLast?_eq_none_iff.mp last]
    rfl
  | some s => exact List.dropLast_append_getLast? s last

theorem looked_of_some {segments : List Str} (nonempty : ∀ s ∈ segments, s ≠ []) :
    looked segments = segments := by
  unfold looked
  rw [List.filter_eq_self.mpr, segments_whole]
  intro s member
  exact decide_eq_true (nonempty s (List.mem_of_mem_getLast? (Option.mem_toList.mp member)))

theorem looked_cons (s t : Str) (segments : List Str) :
    looked (s :: t :: segments) = s :: looked (t :: segments) := by
  unfold looked
  rw [List.getLast?_cons_cons]
  rfl

theorem cookieLoop_segments {segments : List Str} (plain : ∀ s ∈ segments, ';' ∉ s)
    (short : ShortSegments segments) (request : MRequest) :
    cookieLoop request ([';'].intercalate segments) = .ok { request with
      Cookies := request.Cookies ++ (looked segments).map taken
      SID := sidAfter request.SID ((looked segments).map taken) } := by
  induction segments generalizing request with
  | nil =>
    have nothing : looked [] = [] := rfl
    rw [List.intercalate_nil, cookieLoop_nil, nothing]
    simp only [List.map_nil, List.append_nil, sidAfter, List.foldl_nil]
  | cons s segments ih =>
    have here := plain s List.mem_cons_self
    cases segments with
    | nil =>
      have bound : s.length < 2 ^ 32 := short.2 s rfl
      rw [List.intercalate_singleton]
      by_cases blank : s = []
      · have nothing : looked [[]] = [] := rfl
        rw [blank, cookieLoop_nil, nothing]
        simp only [List.map_nil, List.append_nil, sidAfter, List.foldl_nil]
      · have one : looked [s] = [s] := by simp [looked, blank]
        rw [cookieLoop_step bound (sliceCookie_last here bound) blank, cookieLoop_nil, one]
        rfl
    | cons t segments =>
      have first : s.length < 2 ^ 32 - 1 := short.1 s List.mem_cons_self
      have later : ShortSegments (t :: segments) :=
        ⟨fun k member => short.1 k (List.mem_cons_of_mem _ member), fun k member => short.2 k member⟩
      have whole : [';'].intercalate (s :: t :: segments) =
          s ++ ';' :: [';'].intercalate (t :: segments) := by
        simp [List.intercalate_cons_cons]
      have nonempty : s ++ ';' :: [';'].intercalate (t :: segments) ≠ [] :=
        List.append_ne_nil_of_right_ne_nil _ (List.cons_ne_nil _ _)
      rw [whole, cookieLoop_step (by omega) (sliceCookie_more here first _) nonempty,
        ih (fun k member => plain k (List.mem_cons_of_mem _ member)) later, looked_cons]
      simp only [sidAfter, List.foldl_cons, List.foldl_nil, List.map_cons, List.append_assoc,
        List.cons_append, List.nil_append]

theorem cookiesOf_looked (segments : List Str) :
    cookiesOf segments = cookiesOf (looked segments) := by
  have blank (l : List Str) : (l.filter fun s => decide (s ≠ [])).filter
      (fun s => decide ('=' ∈ trim s)) = l.filter fun s => decide ('=' ∈ trim s) := by
    rw [List.filter_filter]
    refine List.filter_congr fun s _ => ?_
    have apart : '=' ∈ trim s → s ≠ [] := fun member same => by
      rw [mem_trim, same] at member
      exact nomatch member
    by_cases filled : '=' ∈ trim s
    · simp [filled, apart filled]
    · simp [filled]
  unfold cookiesOf looked
  rw [List.filter_append, blank, ← List.filter_append, segments_whole]

theorem filled_iff (segments : List Str) : Filled segments ↔ ∀ s ∈ looked segments, '=' ∈ s := by
  unfold Filled looked
  constructor
  · rintro ⟨front, last⟩ s member
    rcases List.mem_append.mp member with inside | ending
    · exact front s inside
    · obtain ⟨here, nonempty⟩ := List.mem_filter.mp ending
      exact (last s (Option.mem_toList.mp here)).resolve_left (of_decide_eq_true nonempty)
  · intro all
    refine ⟨fun s member => all s (List.mem_append_left _ member), fun s member => ?_⟩
    by_cases blank : s = []
    · exact .inl blank
    · refine .inr (all s (List.mem_append_right _ (List.mem_filter.mpr ⟨?_, decide_eq_true blank⟩)))
      exact Option.mem_toList.mpr member

/-! ### The request -/

/-- `run` hands the cookie loop a request without cookies and changes neither them nor the SID
behind the loop. -/
theorem buildRequest_of_loop {node : CNode} {vv : CVarVal}
    (header : node.getHeader "Cookie".toList = some vv) {filled : MRequest → MRequest}
    (loop : ∀ request, cookieLoop request vv.Val = .ok (filled request)) :
    ∃ fresh : MRequest, fresh.Cookies = [] ∧ fresh.SID = [] ∧ ∃ request,
      buildRequest node = .ok request ∧ request.Cookies = (filled fresh).Cookies ∧
      request.SID = (filled fresh).SID := by
  unfold buildRequest
  simp only [header, loop]
  cases node.getHeader "X-SSL-Client-CN".toList with
  | some cn => exact ⟨_, rfl, rfl, _, rfl, rfl, rfl⟩
  | none => exact ⟨_, rfl, rfl, _, rfl, rfl, rfl⟩

theorem buildRequest_segments {node : CNode} {vv : CVarVal} {segments : List Str}
    (header : node.getHeader "Cookie".toList = some vv)
    (sent : vv.Val = [';'].intercalate segments) (plain : ∀ s ∈ segments, ';' ∉ s)
    (short : ShortSegments segments) :
    ∃ request, buildRequest node = .ok request ∧ request.Cookies = (looked segments).map taken ∧
      request.SID = sidAfter [] ((looked segments).map taken) := by
  obtain ⟨fresh, bare, blank, request, built, cookies, sid⟩ :=
    buildRequest_of_loop header fun request => sent ▸ cookieLoop_segments plain short request
  refine ⟨request, built, ?_, ?_⟩
  · rw [cookies, bare, List.nil_append]
  · rw [sid, blank]

/-- As long as the segments are short, the cookies are those of the header exactly if every
segment, but for an empty one at the end, holds '='. -/
theorem cookies_exact_iff {node : CNode} {vv : CVarVal}
    (header : node.getHeader "Cookie".toList = some vv)
    (short : ShortSegments (vv.Val.splitOn ';')) :
    CookiesExact node vv.Val ↔ Filled (vv.Val.splitOn ';') := by
  obtain ⟨request, built, cookies, sid⟩ := buildRequest_segments header
    (List.intercalate_splitOn (x := ';')).symm (fun s => not_mem_of_mem_splitOn) short
  rw [filled_iff]
  unfold CookiesExact
  rw [built, cookiesOf_looked]
  generalize looked (vv.Val.splitOn ';') = segments at cookies sid
  constructor
  · rintro ⟨other, equal, same, _⟩ s member
    obtain rfl := Except.ok.inj equal
    have count := congrArg List.length (cookies.symm.trans same)
    rw [cookiesOf, List.length_map, List.length_map] at count
    have all := List.length_filter_eq_length_iff.mp count.symm
    exact mem_trim.mp (of_decide_eq_true (all s member))
  · intro filled
    have all : ∀ s ∈ segments, '=' ∈ trim s := fun s member => mem_trim.mpr (filled s member)
    have same : segments.map taken = cookiesOf segments := by
      rw [cookiesOf, List.filter_eq_self.mpr fun s member => decide_eq_true (all s member)]
      exact List.map_congr_left fun s member => if_pos (all s member)
    rw [same] at cookies sid
    exact ⟨request, rfl, cookies, sid⟩

/-! ### Inputs -/

def cookieNode (text : Str) : CNode where
  Headers := [{ Var := "cookie".toList, Val := text }]

theorem cookieNode_getHeader (text : Str) : (cookieNode text).getHeader "Cookie".toList =
    some { Var := "cookie".toList, Val := text } := by
  have low : "Cookie".toList.map Char.toLower = "cookie".toList := by decide
  have short : "cookie".toList.length < 2 ^ 31 := by decide
  have own : named "cookie".toList { Var := "cookie".toList, Val := text } = true := by
    rw [named_iff, strtolower_short short]
    decide
  rw [getHeader_eq _ (show '\x00' ∉ "Cookie".toList by decide), low]
  exact List.find?_cons_of_pos own

theorem cookies_exact_two : CookiesExact (cookieNode "a=1; b=c=d;".toList) "a=1; b=c=d;".toList := by
  have split : "a=1; b=c=d;".toList.splitOn ';' = ["a=1".toList, " b=c=d".toList, []] := rfl
  have short : ShortSegments ("a=1; b=c=d;".toList.splitOn ';') := by
    rw [split]
    exact ⟨by decide, by decide⟩
  have filled : Filled ("a=1; b=c=d;".toList.splitOn ';') := by
    rw [split]
    exact ⟨by decide, by decide⟩
  exact (cookies_exact_iff (cookieNode_getHeader _) short).mpr filled

/-- A bare name is taken for a cookie. -/
theorem bare_name_taken : ¬ ∀ (node : CNode) (vv : CVarVal),
    node.getHeader "Cookie".toList = some vv → CookiesExact node vv.Val := by
  intro claim
  have header := cookieNode_getHeader "SolusekSID".toList
  have split : "SolusekSID".toList.splitOn ';' = ["SolusekSID".toList] := rfl
  obtain ⟨request, built, cookieless, _⟩ := claim (cookieNode "SolusekSID".toList) _ header
  obtain ⟨request', built', one, _⟩ := @buildRequest_segments _ _ ["SolusekSID".toList]
    header rfl (by decide) ⟨by decide, by decide⟩
  have bare : '=' ∉ trim "SolusekSID".toList := mt mem_trim.mp (by decide)
  rw [← Except.ok.inj (built'.symm.trans built), one] at cookieless
  have count := congrArg List.length cookieless
  rw [split, cookiesOf, List.filter_singleton, decide_eq_false bare] at count
  exact absurd count (by decide)

end Solusek.SessionCookies
