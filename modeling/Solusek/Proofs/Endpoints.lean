import Solusek.Lib.Texts
import Solusek.Proofs.ClientHistory

/-!
# The parts of an endpoint

`runRequest` looks for the user name only in front of the first '/', but for the port in the
whole text behind it. So where no port is given, a ':' in the path is taken for the one in front
of a port.
-/

namespace Solusek.Setup

open Socket Texts

structure Url where
  https : Bool
  userinfo : Option Str
  host : Str
  port : Option Str
  path : Option Str
  userinfo_plain : ∀ u ∈ userinfo, '/' ∉ u ∧ '@' ∉ u
  host_plain : ':' ∉ host ∧ '/' ∉ host ∧ '@' ∉ host
  port_digits : ∀ p ∈ port, ∀ c ∈ p, c.isDigit = true
  port_value : ∀ p ∈ port, 1 ≤ Nat.ofDigitChars 10 p 0 ∧ Nat.ofDigitChars 10 p 0 ≤ 65535

namespace Url

variable (url : Url)

def scheme : Str := if url.https then "https".toList else "http".toList

def portText : Str := url.port.elim [] (':' :: ·)

def pathText : Str := url.path.elim [] ('/' :: ·)

/-- The text behind the user name. -/
def location : Str := url.host ++ (url.portText ++ url.pathText)

def authText : Str := url.userinfo.elim [] (· ++ ['@'])

def text : Str := url.scheme ++ ("://".toList ++ (url.authText ++ url.location))

def schemePort : Int := if url.https then 443 else 80

def portNumber : Int := url.port.elim url.schemePort fun p => (Nat.ofDigitChars 10 p 0 : Int)

def pathname : Str := '/' :: url.path.getD []

end Url

/-- The request goes to the host and the port of the URL and asks for its path. -/
def Reached (url : Url) (c : CClient) (world : World) (body : Str) : Prop :=
  ∃ request, (({ c with Endpoint := url.text }).runRequest world body).2 = .ok (some request) ∧
    (∀ host port, .connect host port ∈ request.calls ↔ host = url.host ∧ port = url.portNumber) ∧
    request.written =
      c.toCClient.writeRequest world.net request.target.host url.pathname body

/-! ### The user name -/

theorem findChar_behind {a b : Str} {c : Char} (absent : c ∉ a) {n : Nat}
    (found : findChar (a ++ b) c = some n) : a.length ≤ n := by
  unfold findChar at found
  obtain ⟨bound, here, _⟩ := List.idxOf?_eq_some_iff.mp found
  by_contra inside
  rw [List.getElem_append_left (Nat.not_le.mp inside)] at here
  exact absent (here ▸ List.getElem_mem _)

namespace Url

variable (url : Url)

theorem portText_plain : '/' ∉ url.portText ∧ '@' ∉ url.portText := by
  unfold portText
  cases given : url.port with
  | none => exact ⟨List.not_mem_nil, List.not_mem_nil⟩
  | some p =>
    have digits := url.port_digits p given
    have other {c : Char} (apart : c ≠ ':') (letter : c.isDigit = false) : c ∉ ':' :: p := by
      intro member
      rcases List.mem_cons.mp member with colon | inside
      · exact apart colon
      · rw [digits c inside] at letter
        cases letter
    exact ⟨other (by decide) rfl, other (by decide) rfl⟩

theorem location_plain {c : Char} (sep : c = '/' ∨ c = '@') : c ∉ url.host ++ url.portText := by
  obtain ⟨_, slash, sign⟩ := url.host_plain
  obtain ⟨slash', sign'⟩ := url.portText_plain
  rw [List.mem_append, not_or]
  rcases sep with rfl | rfl
  · exact ⟨slash, slash'⟩
  · exact ⟨sign, sign'⟩

theorem withoutAuth_location : withoutAuth url.location = .ok url.location := by
  have split : url.location = url.host ++ url.portText ++ url.pathText := by
    rw [location, List.append_assoc]
  have sign := url.location_plain (.inr rfl)
  unfold withoutAuth
  rw [split]
  unfold pathText
  cases url.path with
  | none =>
    rw [Option.elim_none, List.append_nil, findChar_none sign]
    rfl
  | some q =>
    rw [Option.elim_some, findChar_append (url.location_plain (.inl rfl))]
    split <;> rename_i found
    · have late := findChar_behind sign found
      dsimp only
      rw [Option.all_some, if_neg (by simpa using late)]
      rfl
    · rfl

theorem withoutAuth_text : withoutAuth (url.authText ++ url.location) = .ok url.location := by
  unfold authText
  cases given : url.userinfo with
  | none => exact url.withoutAuth_location
  | some u =>
    obtain ⟨slash, sign⟩ := url.userinfo_plain u given
    have whole : (some u).elim [] (· ++ ['@']) ++ url.location = u ++ '@' :: url.location := by simp
    rw [whole, withoutAuth, findChar_append sign]
    dsimp only
    rw [if_pos, substr_behind]
    rw [Option.all_eq_true]
    intro k found
    have plain : '/' ∉ u ++ ['@'] := by simp [slash]
    rw [List.append_cons] at found
    have late := findChar_behind plain found
    rw [List.length_append, List.length_singleton] at late
    exact decide_eq_true late

/-! ### The port and the path -/

theorem atoi_port {p : Str} (given : url.port = some p) :
    atoi (cstr p) = (Nat.ofDigitChars 10 p 0 : Int) := by
  have digits := url.port_digits p given
  obtain ⟨low, high⟩ := url.port_value p given
  have terminated : '\x00' ∉ p := fun member => absurd (digits _ member) (by decide)
  have nonempty : p ≠ [] := by
    rintro rfl
    exact absurd low (by decide)
  have read := @strtol_digits p [] digits nonempty fun c none => nomatch none
  rw [List.append_nil] at read
  rw [cstr_eq terminated, atoi, read, min_eq_right (by omega)]
  exact Int.bmod_eq_of_le (by omega) (by omega)

theorem portAndPath_given {p : Str} (given : url.port = some p) :
    portAndPath url.host (p ++ url.pathText) =
      .ok ⟨url.host, Nat.ofDigitChars 10 p 0, url.pathname⟩ := by
  have plain : '/' ∉ p := fun member => absurd (url.port_digits p given _ member) (by decide)
  unfold portAndPath pathText pathname
  cases url.path with
  | none =>
    rw [Option.elim_none, List.append_nil, findChar_none plain]
    dsimp only
    rw [url.atoi_port given]
    rfl
  | some q =>
    have cut : substr (p ++ '/' :: q) p.length = .ok ('/' :: q) := by simp [substr]
    rw [Option.elim_some, findChar_append plain]
    simp only [cut, substr_left, bind, Except.bind, pure, Except.pure, url.atoi_port given]
    rfl

theorem portAndPath_host (host sport : Str) :
    ∃ t, portAndPath host sport = .ok t ∧ t.host = host := by
  obtain ⟨t, read⟩ := portAndPath_total host sport
  refine ⟨t, read, ?_⟩
  unfold portAndPath at read
  split at read
  · obtain ⟨path, _, later⟩ := bind_ok read
    obtain ⟨text, _, same⟩ := bind_ok later
    rw [← Except.ok.inj same]
  · rw [← Except.ok.inj read]

theorem target_given {p : Str} (given : url.port = some p) :
    target url.schemePort (url.authText ++ url.location) =
      .ok ⟨url.host, url.portNumber, url.pathname⟩ := by
  have split : url.location = url.host ++ ':' :: (p ++ url.pathText) := by
    simp [location, portText, given]
  have number : url.portNumber = Nat.ofDigitChars 10 p 0 := by rw [portNumber, given]; rfl
  unfold target
  rw [withoutAuth_text, split]
  simp only [bind, Except.bind, findChar_append url.host_plain.1, substr_behind, substr_left]
  rw [url.portAndPath_given given, number]

theorem target_plain (given : url.port = none) (plain : ':' ∉ url.pathText) :
    target url.schemePort (url.authText ++ url.location) =
      .ok ⟨url.host, url.portNumber, url.pathname⟩ := by
  obtain ⟨colon, slash, _⟩ := url.host_plain
  have split : url.location = url.host ++ url.pathText := by simp [location, portText, given]
  have number : url.portNumber = url.schemePort := by rw [portNumber, given]; rfl
  have absent : ':' ∉ url.host ++ url.pathText := by simp [colon, plain]
  unfold target
  rw [withoutAuth_text, split, number]
  simp only [bind, Except.bind, findChar_none absent]
  unfold pathText pathname
  cases url.path with
  | none =>
    rw [Option.elim_none, List.append_nil, findChar_none slash]
    rfl
  | some q =>
    have cut : substr (url.host ++ '/' :: q) url.host.length = .ok ('/' :: q) := by simp [substr]
    rw [Option.elim_some, findChar_append slash]
    simp only [cut, substr_left]
    rfl

theorem target_colon (given : url.port = none) (colon : ':' ∈ url.pathText) :
    ∃ q t, target url.schemePort (url.authText ++ url.location) = .ok t ∧
      t.host = url.host ++ '/' :: q := by
  obtain ⟨before, sport, split, first⟩ := List.eq_append_cons_of_mem colon
  obtain ⟨q, rfl⟩ : ∃ q, before = '/' :: q := by
    unfold pathText at colon split
    cases path : url.path with
    | none =>
      rw [path] at colon
      exact nomatch colon
    | some p =>
      rw [path, Option.elim_some] at split
      cases before with
      | nil => exact absurd (List.cons.inj split).1 (by decide)
      | cons c q => exact ⟨q, by rw [(List.cons.inj split).1]⟩
  have whole : url.location = (url.host ++ '/' :: q) ++ ':' :: sport := by
    simp [location, portText, given, split]
  have absent : ':' ∉ url.host ++ '/' :: q := by
    rw [List.mem_append, not_or]
    exact ⟨url.host_plain.1, first⟩
  obtain ⟨t, read, host⟩ := portAndPath_host (url.host ++ '/' :: q) sport
  refine ⟨q, t, ?_, host⟩
  unfold target
  rw [withoutAuth_text, whole]
  simp only [bind, Except.bind, findChar_append absent, substr_behind, substr_left, read]

end Url

/-! ### The request -/

theorem connect_mem (c : CClient) (world : World) (t : Target) (body host : Str) (port : Int) :
    .connect host port ∈ (c.request world t body).calls ↔ host = cstr t.host ∧ port = t.port := by
  constructor
  · intro member
    rcases setup_call member with made | connected | setting
    · cases made
    · exact Call.connect.inj connected
    · exact setting.elim
  · rintro ⟨rfl, rfl⟩
    simp [CClient.request, CClient.setup]

namespace Url

variable (url : Url)

theorem scheme_secure : url.scheme = "https".toList ↔ url.https = true := by
  unfold scheme
  cases url.https <;> decide

theorem find_text : find "://".toList url.text = some url.scheme.length := by
  unfold text scheme
  cases url.https <;> rfl

theorem substr_scheme : substr url.text 0 (some url.scheme.length) = .ok url.scheme :=
  substr_left url.scheme _

theorem substr_text : substr url.text (url.scheme.length + 3) =
    .ok (url.authText ++ url.location) := by
  have whole : url.text = url.scheme ++ "://".toList ++ (url.authText ++ url.location) := by
    rw [text, List.append_assoc]
  have size : url.scheme.length + 3 = (url.scheme ++ "://".toList).length := by simp
  rw [whole, size, substr, if_neg (by simp), List.drop_left]

end Url

theorem runRequest_target {url : Url} {c : CClient} (here : c.Endpoint = url.text) (world : World)
    (body : Str) {t : Target}
    (taken : target url.schemePort (url.authText ++ url.location) = .ok t) :
    (c.runRequest world body).2 =
      .ok (some ((c.withSSL (c.UseSSL || url.https)).request world t body)) := by
  have goes : substr c.Endpoint (url.scheme.length + 3) >>= target url.schemePort = .ok t := by
    rw [here, url.substr_text]
    exact taken
  unfold CClient.runRequest
  rw [here, url.find_text]
  dsimp only
  rw [url.substr_scheme, ← here]
  unfold Url.schemePort at goes
  by_cases secure : url.https = true
  · rw [if_pos secure] at goes
    rw [secure, Bool.or_true]
    simp only [if_pos (url.scheme_secure.mpr secure), goes, CClient.withSSL]
  · rw [if_neg secure] at goes
    rw [Bool.eq_false_iff.mpr secure, Bool.or_false]
    simp only [if_neg (mt url.scheme_secure.mp secure), goes, CClient.withSSL]

theorem Reached.host {url : Url} {c : CClient} {world : World} {body : Str}
    (reached : Reached url c world body) {t : Target}
    (taken : target url.schemePort (url.authText ++ url.location) = .ok t) :
    cstr t.host = url.host := by
  obtain ⟨request, goes, connected, _⟩ := reached
  have answer := runRequest_target (c := { c with Endpoint := url.text }) rfl world body taken
  rw [answer] at goes
  rw [← Option.some.inj (Except.ok.inj goes)] at connected
  exact ((connected _ _).mp ((connect_mem _ world t body _ _).mpr ⟨rfl, rfl⟩)).1

theorem reached_of_target {url : Url} (terminated : '\x00' ∉ url.host)
    (taken : target url.schemePort (url.authText ++ url.location) =
      .ok ⟨url.host, url.portNumber, url.pathname⟩) (c : CClient) (world : World) (body : Str) :
    Reached url c world body := by
  refine ⟨_, runRequest_target rfl world body taken, fun host port => ?_, rfl⟩
  rw [connect_mem, cstr_eq terminated]

/-- The parts of a URL are found exactly where it has a port, or no ':' in its path, and its
host has no NUL, at which the name handed to `connect` would end. -/
theorem reached_iff (url : Url) (c : CClient) (world : World) (body : Str) :
    Reached url c world body ↔
      (url.port = none → ':' ∉ url.pathText) ∧ '\x00' ∉ url.host := by
  constructor
  · intro reached
    have terminated : '\x00' ∉ url.host := by
      obtain ⟨t, taken⟩ := target_total url.schemePort (url.authText ++ url.location)
      rw [← reached.host taken]
      exact nul_not_mem_cstr t.host
    refine ⟨fun given colon => ?_, terminated⟩
    obtain ⟨q, t, taken, host⟩ := url.target_colon given colon
    have same := reached.host taken
    have plain : ∀ c ∈ url.host, (c != '\x00') = true := fun c member =>
      bne_iff_ne.mpr fun nul => terminated (nul ▸ member)
    rw [host, cstr, List.takeWhile_append_of_pos plain] at same
    exact List.cons_ne_nil _ _ (List.append_right_eq_self.mp same)
  · rintro ⟨plain, terminated⟩
    cases given : url.port with
    | none => exact reached_of_target terminated (url.target_plain given (plain given)) c world body
    | some p => exact reached_of_target terminated (url.target_given given) c world body

/-- The URL of a time of day: what stands behind the ':' is taken for a port. -/
def clockUrl : Url where
  https := false
  userinfo := none
  host := "a".toList
  port := none
  path := some "at/10:30".toList
  userinfo_plain := fun _ none => nomatch none
  host_plain := by decide
  port_digits := fun _ none => nomatch none
  port_value := fun _ none => nomatch none

theorem clock_unreached : ¬ ∀ (url : Url) (c : CClient) (world : World) (body : Str),
    Reached url c world body := by
  intro claim
  have reached := claim clockUrl .new ⟨fun _ => none, fullNet⟩ []
  obtain ⟨q, t, taken, host⟩ := clockUrl.target_colon rfl (by decide)
  have same := reached.host taken
  rw [host] at same
  exact absurd (congrArg List.length same) (by simp [clockUrl, cstr])

end Solusek.Setup
