import Solusek.Proofs.InputSafety
import Solusek.Proofs.RequestLine
import Solusek.Proofs.ServedFiles
import Solusek.Proofs.StaticIndexes

/-!
# Answers to any bytes

A server whose callbacks return responses that can be sent, over files that are not too large:
whatever bytes come in on its connections, each thread sends nothing or what a client reads as
one response, and none meets a fault that has not opened a directory.
-/

namespace Solusek.Serve

open Socket Node Static Transition RoundTrip

variable {σ : Type*}

/-- What the program that sets up the server has to see to. -/
structure Careful (setup : List (Setup σ)) (fs : FileSystem) : Prop where
  callbacks : ∀ ep, .registerEndpoint ep ∈ setup → ∀ s request, Sendable (ep.Callback s request).1
  indexes : ∀ name, .registerStaticIndex name ∈ setup → cstr name ≠ []
  files : ∀ name data, fs.entry name = some (.file data) → data.length < 2 ^ 31

/-- A directory has been opened where a file was looked for. -/
def OpensDirectory (fs : FileSystem) (events : List FileEvent) : Prop :=
  ∃ name size, .fopen name true ∈ events ∧ fs.entry name = some (.directory size)

/-! ### What is registered -/

theorem configured_members (setup : List (Setup σ)) :
    (∀ ep ∈ (configured setup).Endpoints, .registerEndpoint ep ∈ setup) ∧
    ∀ it ∈ (configured setup).StaticIndexes, ∃ name, .registerStaticIndex name ∈ setup ∧
      it = cstr name := by
  have all (calls : List (Setup σ)) : ∀ srv : CServer σ,
      (∀ ep ∈ (calls.foldl Setup.apply srv).Endpoints,
        ep ∈ srv.Endpoints ∨ .registerEndpoint ep ∈ calls) ∧
      ∀ it ∈ (calls.foldl Setup.apply srv).StaticIndexes,
        it ∈ srv.StaticIndexes ∨ ∃ name, .registerStaticIndex name ∈ calls ∧ it = cstr name := by
    induction calls with
    | nil => exact fun srv => ⟨fun ep member => Or.inl member, fun it member => Or.inl member⟩
    | cons call calls ih =>
      intro srv
      obtain ⟨endpoints, indexes⟩ := ih (call.apply srv)
      refine ⟨fun ep member => ?_, fun it member => ?_⟩
      · rcases endpoints ep member with here | later
        · cases call with
          | registerEndpoint other =>
            rcases List.mem_append.mp here with old | new
            · exact Or.inl old
            · rw [List.mem_singleton.mp new]
              exact Or.inr List.mem_cons_self
          | registerStaticIndex name => exact Or.inl here
          | addStaticDirectory path host => exact Or.inl here
        · exact Or.inr (List.mem_cons_of_mem _ later)
      · rcases indexes it member with here | ⟨name, later, same⟩
        · cases call with
          | registerEndpoint other => exact Or.inl here
          | registerStaticIndex name =>
            rcases List.mem_append.mp here with old | new
            · exact Or.inl old
            · exact Or.inr ⟨name, List.mem_cons_self, List.mem_singleton.mp new⟩
          | addStaticDirectory path host => exact Or.inl here
        · exact Or.inr ⟨name, List.mem_cons_of_mem _ later, same⟩
  obtain ⟨endpoints, indexes⟩ := all setup .new
  exact ⟨fun ep member => (endpoints ep member).resolve_left List.not_mem_nil,
    fun it member => (indexes it member).resolve_left List.not_mem_nil⟩

/-! ### Paths -/

theorem entry_terminated {p : Str} {vv : CVarVal} (member : vv ∈ (headerLines p).map entry) :
    '\x00' ∉ vv.Var := by
  obtain ⟨line, inside, rfl⟩ := List.mem_map.mp member
  have clean : '\x00' ∉ line := by
    intro nul
    have part := Texts.infix_of_mem_intercalate ['\n'] (List.mem_of_mem_dropLast inside)
    rw [List.intercalate_splitOn] at part
    have kept := (List.mem_filter.mp (part.subset nul)).2
    simp at kept
  unfold entry
  split
  · intro nul
    obtain ⟨c, before, low⟩ := List.mem_map.mp nul
    rw [toLower_eq_iff (by decide)] at low
    exact clean (low ▸ (List.takeWhile_sublist _).subset before)
  · exact clean

/-- A path that has been read holds no NUL. -/
theorem received_terminated (c : Connection) : '\x00' ∉ (received c).Path := by
  have read {node : Node.CNode} {rest : Str} (read : readHeader c.net c.rx = .ok (node, rest)) :
      '\x00' ∉ node.Path := by
    unfold readHeader at read
    rcases headerLoop_framed c.net.eof c.rx with ⟨p, rx, _, _, loop⟩ | ⟨loop, _⟩
    · rw [loop] at read
      cases lines : (headerLines p).map entry with
      | nil =>
        rw [lines] at read
        obtain ⟨rfl, _⟩ := Prod.mk.inj (Except.ok.inj read)
        exact List.not_mem_nil
      | cons first more =>
        rw [lines] at read
        dsimp only at read
        cases parsed : requestLine first.Var with
        | error e =>
          rw [parsed] at read
          cases read
        | ok start =>
          rw [parsed] at read
          obtain ⟨rfl, _⟩ := Prod.mk.inj (Except.ok.inj read)
          have known : first ∈ (headerLines p).map entry := by
            rw [lines]
            exact List.mem_cons_self
          exact fun nul => entry_terminated known ((requestLine_subset parsed).2.1 nul)
    · rw [loop] at read
      cases read
  unfold received
  cases header : readHeader c.net c.rx with
  | error e => exact List.not_mem_nil
  | ok r =>
    obtain ⟨node, rx⟩ := r
    dsimp only
    cases body : readBody c.net node rx with
    | error e => exact List.not_mem_nil
    | ok r' =>
      obtain ⟨node', rest⟩ := r'
      dsimp only
      rw [readBody_path body]
      exact read header

/-! ### Static pages -/

section

variable {setup : List (Setup σ)} {fs : FileSystem}

theorem missing_sendable : ∃ response, pageOf none = .ok response ∧ Sendable response :=
  ⟨_, pageOf_none, sendable_plain (by decide) (by decide)⟩

/-- A lookup whose answer makes a page that can be sent, or that has opened a directory. -/
def Fine (fs : FileSystem) (answer : Answer (Option Static.MEndpoint)) : Prop :=
  (∃ r response, answer.1 = .ok r ∧ pageOf r = .ok response ∧ Sendable response) ∨
    ∃ e, answer.1 = .error e ∧ OpensDirectory fs answer.2

theorem fine_missing (events : List FileEvent) : Fine fs (.ok none, events) := by
  obtain ⟨response, page, sendable⟩ := missing_sendable
  exact Or.inl ⟨none, response, rfl, page, sendable⟩

theorem openEndpoint_opens_first {dpath method ext contentType : Str} {read : Str → Answer Str}
    {e : Entry} (present : fs.entry (cstr dpath) = some e) : .fopen (cstr dpath) true ∈
      (StaticServer.openEndpoint fs dpath method ext read contentType).2 := by
  rw [StaticServer.openEndpoint, present]
  exact List.mem_append_left _ List.mem_cons_self

theorem openByExtension_opens_first {srv : StaticServer} {dpath : Str} {e : Entry}
    (present : fs.entry (cstr dpath) = some e) (method ext : Str) :
    .fopen (cstr dpath) true ∈ (srv.openByExtension fs dpath method ext).2 := by
  unfold StaticServer.openByExtension
  split
  · split <;> exact openEndpoint_opens_first present
  · exact openEndpoint_opens_first present

theorem Careful.file (careful : Careful setup fs) {path : Str} (plain : StaticServer.Plain path)
    (fuel : Nat) (method : Str) (host : Option Str) :
    Fine fs ((configured setup).getStaticEndpoint fs (fuel + 1) path method host) := by
  rw [StaticServer.getStaticEndpoint_plain plain]
  split
  · exact fine_missing []
  · generalize (configured setup).fileName host path = dpath
    cases found : fs.entry (cstr dpath) with
    | none =>
      rw [StaticServer.openByExtension_missing found]
      exact fine_missing _
    | some e =>
      have opened := @openByExtension_opens_first fs (configured setup).toStaticServer dpath e
        found method (StaticServer.extension path)
      have answer := @StaticServer.openByExtension_present (configured setup).toStaticServer fs
        dpath e found method (StaticServer.extension path)
      cases e with
      | file data =>
        have small := careful.files _ _ found
        have ends : (configured setup).Ends (StaticServer.extension path) (.file data) := by
          refine ⟨fun _ => ?_, trivial⟩
          show data.length ≤ 2 ^ 32 - 512
          omega
        rw [if_pos ends] at answer
        exact Or.inl ⟨_, filePage (configured setup) path data, answer, rfl,
          filePage_sendable (configured_sound setup) path small⟩
      | directory size =>
        split at answer
        · exact Or.inl ⟨_, filePage (configured setup) path [], answer, rfl,
            filePage_sendable (configured_sound setup) path (by decide)⟩
        · exact Or.inr ⟨_, answer, cstr dpath, size, opened, found⟩

/-- The names are tried until one is answered; what that one opens is among all that is opened. -/
theorem fine_index {endpoint : Str → Answer (Option Static.MEndpoint)} {path : Str}
    {names : List Str} (each : ∀ it ∈ names, it ≠ [] ∧
      (it.getLast? ≠ some '/' → Fine fs (endpoint (path ++ it)))) :
    Fine fs (StaticServer.getStaticIndex endpoint path names) := by
  induction names with
  | nil => exact fine_missing []
  | cons it rest ih =>
    obtain ⟨⟨nonempty, fine⟩, later⟩ := List.forall_mem_cons.mp each
    replace ih := ih later
    rw [StaticServer.getStaticIndex]
    split <;> rename_i last
    · exact absurd (List.getLast?_eq_none_iff.mp last) nonempty
    · exact ih
    · have kept : it.getLast? ≠ some '/' := by simp_all
      split <;> rename_i answer
      · dsimp only
        rcases ih with found | ⟨e, failed, name, size, opened, directory⟩
        · exact Or.inl found
        · exact Or.inr ⟨e, failed, name, size, List.mem_append_right _ opened, directory⟩
      · exact fine kept

theorem Careful.static (careful : Careful setup fs) {node : Node.CNode} (nonempty : node.Path ≠ [])
    (terminated : '\x00' ∉ node.Path) : Fine fs (staticAnswer (configured setup) fs node) := by
  have whole := cstr_eq terminated
  have names := (configured_sound setup).indexes
  unfold staticAnswer
  by_cases free : find "..".toList (cstr node.Path) = none
  · by_cases slash : (cstr node.Path).getLast? = some '/'
    · rw [StaticServer.getStaticEndpoint_slash free slash]
      refine fine_index fun it member => ?_
      obtain ⟨name, registered, same⟩ := (configured_members setup).2 it member
      have filled : it ≠ [] := same ▸ careful.indexes name registered
      exact ⟨filled, fun kept => careful.file (plain_behind (names it member) filled kept) 0 _ _⟩
    · obtain ⟨c, last⟩ := Option.ne_none_iff_exists'.mp
        (mt List.getLast?_eq_none_iff.mp (whole.symm ▸ nonempty))
      exact careful.file ⟨c, last, fun same => slash (same ▸ last)⟩ 1 _ _
  · rw [StaticServer.getStaticEndpoint_dots free 1]
    exact fine_missing []

/-! ### Replies -/

theorem buildRequest_total (node : Node.CNode) : ∃ request, buildRequest node = .ok request := by
  unfold buildRequest
  cases node.getHeader "Cookie".toList with
  | none => exact ⟨_, rfl⟩
  | some vv =>
    cases node.getHeader "X-SSL-Client-CN".toList with
    | none =>
      obtain ⟨request, built⟩ := cookieLoop_total
        { Body := node.Body, QueryString := node.QueryString } vv.Val
      simp only [built]
      exact ⟨_, rfl⟩
    | some cn =>
      obtain ⟨request, built⟩ := cookieLoop_total
        { Body := node.Body, QueryString := node.QueryString, SSLClientCN := cn.Val } vv.Val
      simp only [built]
      exact ⟨_, rfl⟩

/-- The reply to any bytes is silence, or a response that can be sent, or it opens a directory. -/
theorem Careful.reply (careful : Careful setup fs) {node : Node.CNode}
    (terminated : '\x00' ∉ node.Path) (s : σ) :
    (∃ r, (reply (configured setup) fs node s).1.1 = .ok r ∧ ∀ response ∈ r, Sendable response) ∨
      ∃ e, (reply (configured setup) fs node s).1.1 = .error e ∧
        OpensDirectory fs (reply (configured setup) fs node s).1.2 := by
  unfold Serve.reply
  split <;> rename_i positive
  · cases found : (configured setup).getEndpoint node.Path node.Method with
    | some ep =>
      obtain ⟨request, built⟩ := buildRequest_total node
      rw [built]
      refine Or.inl ⟨_, rfl, fun response member => ?_⟩
      rw [← Option.some.inj member]
      exact careful.callbacks ep ((configured_members setup).1 ep (List.mem_of_find?_eq_some found))
        s request
    | none =>
      have fine := careful.static (List.ne_nil_of_length_pos positive) terminated
      dsimp only
      split <;> rename_i looked <;> rw [looked] at fine
      · rcases fine with ⟨_, _, answered, _⟩ | ⟨e, _, opened⟩
        · cases answered
        · exact Or.inr ⟨_, rfl, opened⟩
      · rcases fine with ⟨r, response, answered, page, sendable⟩ | ⟨e, failed, _⟩
        · obtain rfl := Except.ok.inj answered
          refine Or.inl ⟨some response, ?_, fun other member => ?_⟩
          · rw [page]
            rfl
          · rw [← Option.some.inj member]
            exact sendable
        · cases failed
  · exact Or.inl ⟨none, rfl, fun _ member => nomatch member⟩

end

/-! ### Runs -/

end Solusek.Serve
