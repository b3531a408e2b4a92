import Solusek.Model.Handlers
import Solusek.Proofs.Strings

/-!
# MySQL connection strings

Which user, password, host and database can be written into a connection string so that `open`
takes out the same ones.
-/

namespace Solusek.Handlers

/-! ### Texts -/

/-- What may stand in front of the host. -/
inductive Login where
  | nobody
  | user (username : Str)
  | full (username password : Str)

namespace Login

def text : Login → Str
  | nobody => []
  | user username => username ++ "@".toList
  | full username password => username ++ ":".toList ++ password ++ "@".toList

def username : Login → Str
  | nobody => []
  | user username => username
  | full username _ => username

def password : Login → Str
  | full _ password => password
  | _ => []

/-- No separator stands where `open` would take it for one. -/
def Plain (host : Str) : Login → Prop
  | nobody => '/' ∉ host ∧ '@' ∉ host
  | user username => '/' ∉ username ∧ '/' ∉ host ∧ '@' ∉ username ∧ ':' ∉ username
  | full username password => '/' ∉ username ∧ '/' ∉ password ∧ '/' ∉ host ∧
      '@' ∉ username ∧ '@' ∉ password ∧ ':' ∉ username

end Login

def connectionString (login : Login) (host dbname : Str) : Str :=
  "mysql://".toList ++ (login.text ++ host ++ '/' :: dbname)

def Login.target (login : Login) (host dbname : Str) : Target where
  host := host
  username := login.username
  password := login.password
  dbname := dbname

/-! ### What `open` takes out -/

theorem cut_at {p : Str} {c : Char} (absent : c ∉ p) (rest : Str) :
    findChar (p ++ c :: rest) c = some p.length ∧
      substr (p ++ c :: rest) 0 (some p.length) = .ok p ∧
      substr (p ++ c :: rest) (p.length + 1) = .ok rest :=
  ⟨findChar_append absent rest, substr_left p (c :: rest), substr_behind p c rest⟩

theorem authority_nobody {host : Str} (absent : '@' ∉ host) :
    authority host = .ok ([], [], host) := by
  unfold authority
  rw [findChar_none absent]
  rfl

theorem authority_user {username : Str} (sign : '@' ∉ username) (colon : ':' ∉ username)
    (host : Str) : authority (username ++ '@' :: host) = .ok (username, [], host) := by
  obtain ⟨found, left, right⟩ := cut_at sign host
  unfold authority
  rw [found]
  simp only [left, right, bind, Except.bind, findChar_none colon]
  rfl

theorem authority_full {username password : Str} (sign : '@' ∉ username ++ ':' :: password)
    (colon : ':' ∉ username) (host : Str) :
    authority (username ++ ':' :: password ++ '@' :: host) = .ok (username, password, host) := by
  obtain ⟨found, left, right⟩ := cut_at sign host
  obtain ⟨found', left', right'⟩ := cut_at colon password
  unfold authority
  rw [found]
  simp only [left, right, bind, Except.bind, found', left', right']
  rfl

/-- A separator splits a text at its first occurrence. -/
theorem split_at {c : Char} {s : Str} (member : c ∈ s) :
    ∃ p rest, s = p ++ c :: rest ∧ c ∉ p :=
  List.eq_append_cons_of_mem member

theorem authority_total (p1 : Str) : ∃ r, authority p1 = .ok r := by
  by_cases sign : '@' ∈ p1
  · obtain ⟨p2, host, rfl, absent⟩ := split_at sign
    by_cases colon : ':' ∈ p2
    · obtain ⟨username, password, rfl, first⟩ := split_at colon
      exact ⟨_, authority_full absent first host⟩
    · exact ⟨_, authority_user absent colon host⟩
  · exact ⟨_, authority_nobody sign⟩

theorem behind_scheme (cs : Str) :
    ¬ (("mysql://".toList ++ cs).length < 8 ∨
      ("mysql://".toList ++ cs).take 8 ≠ "mysql://".toList) ∧
    find "://".toList ("mysql://".toList ++ cs) = some 5 ∧
    substr ("mysql://".toList ++ cs) (5 + 3) = .ok cs := by
  have scheme : "mysql://".toList.length = 8 := rfl
  have long : ¬ ("mysql://".toList ++ cs).length < 8 := by
    rw [List.length_append, scheme]
    omega
  refine ⟨?_, by simp [find], ?_⟩
  · rw [List.take_left' scheme]
    simp only [long, ne_eq, not_true_eq_false, or_self, not_false_eq_true]
  · unfold substr
    rw [if_neg long, List.drop_left' scheme]

theorem target_slash {p1 : Str} (absent : '/' ∉ p1) (dbname : Str) {username password host : Str}
    (read : authority p1 = .ok (username, password, host)) :
    target ("mysql://".toList ++ (p1 ++ '/' :: dbname)) =
      .ok (some { host, username, password, dbname }) := by
  obtain ⟨long, place, behind⟩ := behind_scheme (p1 ++ '/' :: dbname)
  obtain ⟨found, left, right⟩ := cut_at absent dbname
  unfold target
  rw [if_neg long, place]
  simp only [behind, bind, Except.bind, found, left, right, read]
  rfl

theorem target_unslashed {cs : Str} (absent : '/' ∉ cs) :
    target ("mysql://".toList ++ cs) = .ok none := by
  obtain ⟨long, place, behind⟩ := behind_scheme cs
  unfold target
  rw [if_neg long, place]
  simp only [behind, bind, Except.bind, findChar_none absent]
  rfl

example : target "mysql://root@localhost".toList = .ok none := by decide

/-- Whatever the connection string, no `substr` throws. -/
theorem target_total (ConnectionString : Str) : ∃ t, target ConnectionString = .ok t := by
  by_cases scheme : "mysql://".toList <+: ConnectionString
  · obtain ⟨cs, rfl⟩ := scheme
    by_cases slash : '/' ∈ cs
    · obtain ⟨p1, dbname, rfl, absent⟩ := split_at slash
      obtain ⟨⟨username, password, host⟩, read⟩ := authority_total p1
      exact ⟨_, target_slash absent dbname read⟩
    · exact ⟨_, target_unslashed slash⟩
  · refine ⟨none, ?_⟩
    unfold target
    rw [if_pos]
    · rfl
    · right
      intro same
      apply scheme
      rw [← same]
      exact List.take_prefix 8 ConnectionString

/-! ### Round trips -/

theorem append_cons_inj {c : Char} {p q a b : Str} (same : p ++ c :: a = q ++ c :: b)
    (tail : a = b) : p = q := by
  subst tail
  exact List.append_cancel_right same

theorem authority_host {p2 host username password : Str}
    (read : authority (p2 ++ '@' :: host) = .ok (username, password, host)) : '@' ∉ p2 := by
  obtain ⟨q, h, whole, absent⟩ := split_at
    (show '@' ∈ p2 ++ '@' :: host from List.mem_append_right _ List.mem_cons_self)
  rw [whole] at read
  have same : host = h := by
    by_cases colon : ':' ∈ q
    · obtain ⟨v, w, rfl, first⟩ := split_at colon
      rw [authority_full absent first] at read
      exact (Prod.mk.inj (Prod.mk.inj (Except.ok.inj read)).2).2.symm
    · rw [authority_user absent colon] at read
      exact (Prod.mk.inj (Prod.mk.inj (Except.ok.inj read)).2).2.symm
  rw [append_cons_inj whole same]
  exact absent

theorem authority_iff (login : Login) (host : Str) (slashless : '/' ∉ login.text ++ host) :
    authority (login.text ++ host) = .ok (login.username, login.password, host) ↔
      login.Plain host := by
  cases login with
  | nobody =>
    rw [Login.text, List.nil_append] at slashless ⊢
    constructor
    · refine fun read => ⟨slashless, fun sign => ?_⟩
      obtain ⟨q, h, rfl, absent⟩ := split_at sign
      have sizes : h.length = (q ++ '@' :: h).length := by
        by_cases colon : ':' ∈ q
        · obtain ⟨v, w, rfl, first⟩ := split_at colon
          rw [authority_full absent first] at read
          exact congrArg List.length (Prod.mk.inj (Prod.mk.inj (Except.ok.inj read)).2).2
        · rw [authority_user absent colon] at read
          exact congrArg List.length (Prod.mk.inj (Prod.mk.inj (Except.ok.inj read)).2).2
      rw [List.length_append, List.length_cons] at sizes
      omega
    · exact fun plain => authority_nobody plain.2
  | user username =>
    have shape : (Login.user username).text ++ host = username ++ '@' :: host := by
      simp [Login.text]
    rw [shape] at slashless ⊢
    rw [List.mem_append, not_or] at slashless
    constructor
    · intro read
      have sign := authority_host read
      refine ⟨slashless.1, fun slash => slashless.2 (List.mem_cons_of_mem _ slash), sign,
        fun colon => ?_⟩
      obtain ⟨v, w, rfl, first⟩ := split_at colon
      rw [authority_full sign first] at read
      have sizes := congrArg List.length (Prod.mk.inj (Except.ok.inj read)).1
      simp only [Login.username, List.length_append, List.length_cons] at sizes
      omega
    · rintro ⟨_, _, sign, colon⟩
      exact authority_user sign colon host
  | full username password =>
    have shape : (Login.full username password).text ++ host =
        username ++ ':' :: password ++ '@' :: host := by
      simp [Login.text]
    rw [shape] at slashless ⊢
    simp only [List.mem_append, List.mem_cons, not_or] at slashless
    constructor
    · intro read
      have sign := authority_host read
      obtain ⟨v, w, whole, first⟩ := split_at
        (show ':' ∈ username ++ ':' :: password from
          List.mem_append_right _ List.mem_cons_self)
      rw [whole] at read sign
      rw [authority_full sign first] at read
      obtain ⟨rfl, _⟩ := Prod.mk.inj (Except.ok.inj read)
      rw [← whole, List.mem_append, not_or] at sign
      exact ⟨slashless.1.1, slashless.1.2.2, slashless.2.2, sign.1,
        fun inside => sign.2 (List.mem_cons_of_mem _ inside), first⟩
    · rintro ⟨_, _, _, sign, sign', colon⟩
      refine authority_full ?_ colon host
      simp only [List.mem_append, List.mem_cons, not_or]
      exact ⟨sign, by decide, sign'⟩

theorem Login.Plain.slashless {login : Login} {host : Str} (plain : login.Plain host) :
    '/' ∉ login.text ++ host := by
  cases login with
  | nobody => exact plain.1
  | user username =>
    simp [Login.text, plain.1, plain.2.1]
  | full username password =>
    simp [Login.text, plain.1, plain.2.1, plain.2.2.1]

/-- `open` takes out of a connection string what has been written into it exactly if no separator
stands where it would be taken for one; the database may hold any. -/
theorem connectionString_iff (login : Login) (host dbname : Str) :
    target (connectionString login host dbname) = .ok (some (login.target host dbname)) ↔
      login.Plain host := by
  constructor
  · intro read
    obtain ⟨p1, d, whole, absent⟩ := split_at
      (show '/' ∈ login.text ++ host ++ '/' :: dbname from
        List.mem_append_right _ List.mem_cons_self)
    obtain ⟨⟨username, password, h⟩, parsed⟩ := authority_total p1
    have taken : target (connectionString login host dbname) = _ :=
      (congrArg (fun cs => target ("mysql://".toList ++ cs)) whole).trans
        (target_slash absent d parsed)
    have fields : login.target host dbname = { host := h, username, password, dbname := d } :=
      Option.some.inj (Except.ok.inj (read.symm.trans taken))
    obtain ⟨own, user, pass, tail⟩ := Target.mk.inj fields
    have front := append_cons_inj whole tail
    rw [← front] at absent parsed
    rw [← own, ← user, ← pass] at parsed
    exact (authority_iff login host absent).mp parsed
  · intro plain
    exact target_slash plain.slashless dbname
      ((authority_iff login host plain.slashless).mpr plain)

end Solusek.Handlers
