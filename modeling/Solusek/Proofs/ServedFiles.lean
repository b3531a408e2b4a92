import Solusek.Proofs.Exchanges

/-!
# Files that are served

A client that asks a new server for a file of its directory gets the file as it is, with the type
of its extension. Whatever bytes come in on any number of connections, only files inside a
registered directory are opened.
-/

namespace Solusek.Serve

open Socket Node Static Transition RoundTrip

variable {σ : Type*}

/-! ### Configured servers -/

structure Configured (srv : CServer σ) : Prop where
  mimes : srv.MimeTypes = defaultMimeTypes
  indexes : ∀ it ∈ srv.StaticIndexes, '\x00' ∉ it
  directories : Terminated srv.toStaticServer

theorem configured_sound (calls : List (Setup σ)) : Configured (configured calls) := by
  have step (srv : CServer σ) (call : Setup σ) (before : Configured srv) :
      Configured (call.apply srv) := by
    obtain ⟨mimes, indexes, directories⟩ := before
    cases call with
    | registerEndpoint ep => exact ⟨mimes, indexes, directories⟩
    | registerStaticIndex name =>
      refine ⟨mimes, fun it member => ?_, directories⟩
      rcases List.mem_append.mp member with old | new
      · exact indexes it old
      · rw [List.mem_singleton.mp new]
        exact nul_not_mem_cstr name
    | addStaticDirectory path host =>
      exact ⟨mimes, indexes, addStaticDirectory_terminated directories path host⟩
  have all (srv : CServer σ) (before : Configured srv) :
      Configured (calls.foldl Setup.apply srv) := by
    induction calls generalizing srv with
    | nil => exact before
    | cons call calls ih => exact ih _ (step srv call before)
  exact all .new ⟨rfl, nofun, nofun⟩

/-- The types that a new server gives. -/
def types : List Str :=
  "application/force-download".toList :: defaultMimeTypes.map MMimeType.Type

theorem types_sound : ∀ type ∈ types,
    (type ≠ [] ∧ Trimmed type) ∧ HeaderText type ∧ type.length < 2 ^ 31 := by
  have solid : ∀ type ∈ types, type ≠ [] ∧ type.all (fun c => !isspace c) = true := by
    decide
  have stamp : ∀ type ∈ types, type.all stampChar = true := by
    decide
  have short : ∀ type ∈ types, type.length < 100 := by
    decide
  intro type member
  have length := short type member
  obtain ⟨nonempty, spaceless⟩ := solid type member
  have apart {c : Char} (inside : c ∈ type) : isspace c = false := by
    simpa using List.all_eq_true.mp spaceless c inside
  refine ⟨⟨nonempty, fun c first => ?_, fun c last => ?_⟩, headerText_of_stamp (stamp type member), ?_⟩
  · exact apart (List.mem_of_mem_head? first)
  · exact apart (List.mem_of_getLast? last)
  · omega

theorem Configured.mimeType_mem {srv : CServer σ} (configured : Configured srv) (ext : Str) :
    srv.mimeType ext ∈ types := by
  unfold StaticServer.mimeType
  split <;> rename_i found
  · unfold StaticServer.getMimeType at found
    rw [configured.mimes] at found
    exact List.mem_cons_of_mem _ (List.mem_map_of_mem (List.mem_of_find?_eq_some found))
  · exact List.mem_cons_self

/-! ### One file -/

/-- The page of a file. -/
def filePage (srv : CServer σ) (target data : Str) : MResponse where
  Code := 200
  Body := data
  ContentType := srv.mimeType (StaticServer.extension target)

theorem filePage_sendable {srv : CServer σ} (configured : Configured srv) (target : Str) {data : Str}
    (small : data.length < 2 ^ 31) : Sendable (filePage srv target data) := by
  obtain ⟨typed, text, short⟩ := types_sound _
    (configured.mimeType_mem (StaticServer.extension target))
  have texts : ∀ text ∈ headerTexts (filePage srv target data),
      text = (filePage srv target data).ContentType ∨ text = [] := fun text member => by
    simpa [headerTexts, filePage] using member
  have code : -2 ^ 31 ≤ (filePage srv target data).Code ∧
      (filePage srv target data).Code < 2 ^ 31 := by
    show -2 ^ 31 ≤ (200 : Int) ∧ (200 : Int) < 2 ^ 31
    decide
  refine ⟨⟨code, small, typed, fun cookie member => absurd member List.not_mem_nil,
    fun t member => ?_⟩, fun t member => ?_⟩
  · rcases texts t member with rfl | rfl
    · exact text
    · exact headerText_of_stamp rfl
  · rcases texts t member with rfl | rfl
    · exact short
    · decide

namespace Call

variable {call : Call}

theorem target_query (call : Call) : '?' ∉ call.target := fun member => by
  simpa using List.mem_takeWhile_imp member

theorem Sound.target_printed (sound : call.Sound) : '\x00' ∉ call.target := fun member =>
  sound.request.path.2.2.2.2.2 ((List.takeWhile_sublist _).subset member)

theorem Sound.target_short (sound : call.Sound) : call.target.length < 2 ^ 31 := by
  have path : call.target.length ≤ call.path.length := (List.takeWhile_sublist _).length_le
  have head : call.path.length ≤
      (call.client.requestHead call.host call.path call.body).length := by
    rw [requestHead_eq _ _ _ _ 0, Lines.Reader.text, requestLines, List.cons_append,
      List.cons_append, List.flatMap_cons]
    simp only [firstLine, List.length_append, List.length_cons]
    omega
  have short := sound.short
  omega

theorem Sound.withoutQuery (sound : call.Sound) :
    StaticServer.withoutQuery (cstr call.target) = call.target := by
  have short := sound.target_short
  rw [cstr_eq sound.target_printed, StaticServer.withoutQuery, findChar_none call.target_query]
  exact List.take_of_length_le (by show call.target.length ≤ 2 ^ 32 - 1; omega)

end Call

/-- A file below the directory for the client's host reaches the client byte for byte. -/
theorem file_delivered (setup : List (Setup σ)) (fs : FileSystem) (s : σ) {call : Call}
    (wellFormed : call.WellFormed) (carried : call.Carried)
    (unrouted : (configured setup).getEndpoint call.target call.client.Method = none)
    (free : find "..".toList call.target = none) (plain : call.target.getLast? ≠ some '/')
    (hosted : (configured setup).directory (some call.host) ≠ []) {data : Str}
    (present : fs.entry ((configured setup).directory (some call.host) ++ "/".toList ++
      call.target) = some (.file data)) (small : data.length < 2 ^ 31) :
    ∃ tx events, CNode.run (configured setup) fs call.connection s = ((.ok tx, events), s) ∧
      Delivers (filePage (configured setup) call.target data) tx := by
  have sound : call.Sound := ⟨wellFormed, carried⟩
  have config := configured_sound setup
  generalize configured setup = srv at *
  have terminated := cstr_eq sound.target_printed
  have positive : ¬ (srv.directory (some call.host)).length = 0 := fun none =>
    hosted (List.eq_nil_of_length_eq_zero none)
  have name : cstr (srv.fileName (some call.host) call.target) =
      srv.directory (some call.host) ++ "/".toList ++ call.target := by
    rw [StaticServer.fileName, sound.withoutQuery]
    apply cstr_eq
    obtain ⟨ep, member, same⟩ := staticPath_mem positive
    have dir : '\x00' ∉ srv.directory (some call.host) := by
      rw [StaticServer.directory, ← same]
      exact config.directories ep member
    simp only [List.mem_append, not_or]
    exact ⟨⟨dir, by decide⟩, sound.target_printed⟩
  have served : srv.served fs (some call.host) call.target = some (.file data) := by
    rw [StaticServer.served, terminated, name, present, if_neg]
    rintro (dots | none)
    · exact dots free
    · exact positive none
  have stands : StaticServer.Plain call.target := by
    obtain ⟨c, last⟩ := Option.ne_none_iff_exists'.mp
      (mt List.getLast?_eq_none_iff.mp sound.target_some)
    exact ⟨c, by rw [terminated, last], fun same => plain (same ▸ last)⟩
  have ends : srv.Ends (StaticServer.extension call.target) (.file data) := by
    refine ⟨fun _ => ?_, trivial⟩
    show data.length ≤ 2 ^ 32 - 512
    omega
  have file := @StaticServer.getStaticEndpoint_file srv.toStaticServer fs call.target stands 1
    call.client.Method (some call.host)
  rw [StaticServer.fileAnswer, served] at file
  dsimp only at file
  rw [if_pos ends] at file
  have answered : call.answer srv fs s = (.ok (filePage srv call.target data), s) := by
    unfold Call.answer Call.file
    rw [unrouted]
    dsimp only
    rw [file]
    rfl
  exact sound.run srv fs answered (filePage_sendable config call.target small)

def pageCall : Call :=
  callOf (getRequest "x".toList) "/a.x".toList
    ((getRequest "x".toList).writeRequest fullNet "x".toList "/a.x".toList []).2

theorem pageCall_sound : pageCall.Sound := by
  have letter := @getRequest_request "x".toList "x".toList (@letter_value 1)
    ⟨by decide, (@letter_value 1).1⟩
  exact callOf_sound { letter with path := by decide } (by decide) getRequest_cookies rfl

def pageSetup : List (Setup Unit) := [.addStaticDirectory "d".toList none]

theorem file_delivered_page : ∃ tx events,
    CNode.run (configured pageSetup) onePage pageCall.connection () = ((.ok tx, events), ()) ∧
    Delivers (filePage (configured pageSetup) pageCall.target "hi".toList) tx :=
  file_delivered pageSetup onePage () pageCall_sound.toWellFormed pageCall_sound.toCarried rfl (by decide) (by decide) (by decide)
    (by decide) (by decide)

/-! ### All files of a run -/

/-- What a thread has done to files. -/
def eventsOf : Thread → List FileEvent
  | .stepped b => b.2.2
  | .finished o => o.2
  | _ => []

theorem reply_inside {srv : CServer σ} (terminated : Terminated srv.toStaticServer)
    {fs : FileSystem} {node : Node.CNode} {s : σ} {name : Str}
    (opens : Opens (reply srv fs node s).1.2 name) : Inside srv.toStaticServer name := by
  unfold reply at opens
  have nothing {name : Str} : ¬ Opens [] name := fun ⟨_, member⟩ => List.not_mem_nil member
  split at opens
  · split at opens
    · split at opens
      · exact absurd opens nothing
      · exact absurd opens nothing
    · split at opens <;> rename_i lookup <;>
        exact getStaticEndpoint_inside terminated
          (by rw [← staticAnswer, lookup]; exact opens)
  · exact absurd opens nothing

/-- Whatever arrives on however many connections, no thread opens a file that does not lie inside
a registered directory. -/
theorem files_inside (setup : List (Setup σ)) (fs : FileSystem) (initial : σ)
    {acts : List (Interleaving.Action Connection)} {t : State σ}
    (run : Runs (Step (configured setup) fs) { shared := initial, threads := [] } acts t) :
    ∀ thread ∈ t.threads, ∀ name, Opens (eventsOf thread) name →
      Inside (configured setup).toStaticServer name := by
  have terminated := (configured_sound setup).directories
  have keeps : (task (configured setup) fs).Keeps (fun _ => True) fun thread =>
      ∀ name, Opens (eventsOf thread) name → Inside (configured setup).toStaticServer name :=
    { fresh := fun _ _ _ opens => absurd opens.choose_spec List.not_mem_nil
      ready := fun _ _ _ opens => absurd opens.choose_spec List.not_mem_nil
      stepped := fun _ _ _ _ opens => reply_inside terminated opens
      finished := fun _ before => before }
  exact keeps.runs (run.mono fun step => step.taken) fun _ _ => trivial

theorem files_inside_page : Inside (configured pageSetup).toStaticServer "d//a.x".toList := by
  have opened : (.fopen "d//a.x".toList true) ∈
      (pageCall.file (configured pageSetup) onePage).2 := by decide
  obtain ⟨response, served⟩ : ∃ response,
      (pageCall.file (configured pageSetup) onePage).1.bind pageOf = .ok response := ⟨_, rfl⟩
  have replied := @Call.Sound.reply_page _ _ pageCall_sound (configured pageSetup) onePage () rfl
  rw [served] at replied
  have run := @connection_runs _ _ _ [] (fun _ member => absurd member List.not_mem_nil) _ _ _ _ _
    replied
  exact files_inside pageSetup onePage () run _ List.mem_cons_self _ ⟨true, opened⟩

end Solusek.Serve
