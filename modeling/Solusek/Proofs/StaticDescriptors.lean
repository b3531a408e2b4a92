import Solusek.Model.Static

/-!
# Descriptors of static files

`readTextFile` closes what it opens, `readBinaryFile` does not. So a request leaves a
descriptor open exactly if the file it is answered with is not read as text.
-/

namespace Solusek.Static

open StaticServer

/-- What a call does to the number of open descriptors. -/
def FileEvent.opened : FileEvent → Int
  | .fopen _ true => 1
  | .fopen _ false => 0
  | .fclose _ => -1

def stillOpen (events : List FileEvent) : Int := (events.map FileEvent.opened).sum

namespace StaticServer

/-- The file name and the extension that a path below a directory stands for. -/
def target (staticPath fpath : Str) : Option (Str × Str) :=
  let np := toUnsigned (findChar fpath '?')
  let cut := if np ≠ npos then do
      let _qs ← substr fpath ((np + 1) % 2 ^ 32)
      substr fpath 0 (some np)
    else .ok fpath
  match cut with
  | .error _ => none
  | .ok fpath =>
    let dpath := staticPath ++ "/".toList ++ fpath
    let np := toUnsigned (findLastOf fpath '/')
    if np = npos then none
    else
      match substr fpath ((np + 1) % 2 ^ 32) with
      | .error _ => none
      | .ok fname =>
        let np := toUnsigned (findLastOf fname '.')
        if np ≠ npos then
          match substr fname ((np + 1) % 2 ^ 32) with
          | .error _ => none
          | .ok ext => some (dpath, strtolower ext)
        else none

/-- The files that a path names, in the order in which they are looked for. -/
def named (srv : StaticServer) (host : Option Str) : Nat → Str → List (Str × Str)
  | 0, _ => []
  | fuel + 1, path =>
    let fpath := cstr path
    if find "..".toList fpath ≠ none then []
    else
      match fpath.getLast? with
      | none => []
      | some '/' =>
        (srv.StaticIndexes.filter fun it => it.getLast? ≠ some '/').flatMap
          fun it => named srv host fuel (fpath ++ it)
      | some _ =>
        let staticPath := staticPath (lowerHost host) srv.StaticEndpoints
        if staticPath.length = 0 then [] else (target staticPath fpath).toList

/-- A file with this extension is read as binary: its type says so, or it has none. -/
def binary (srv : StaticServer) (ext : Str) : Bool :=
  match srv.getMimeType ext with
  | some mime => !mime.IsText
  | none => true

end StaticServer

/-- The first of these files that exists. -/
def FileSystem.first (fs : FileSystem) (names : List (Str × Str)) : Option (Str × Str) :=
  names.find? fun t => (fs.entry (cstr t.1)).isSome

/-- What is left open for the file a request is answered with. -/
def StaticServer.left (srv : StaticServer) : Option (Str × Str) → Int
  | none => 0
  | some t => if srv.binary t.2 then 1 else 0

/-- An answer that comes back is the first of these files that exists, and leaves open what
that file does. -/
def Accounts (srv : StaticServer) (fs : FileSystem) (names : List (Str × Str))
    (answer : Answer (Option MEndpoint)) : Prop :=
  ∀ r, answer.1 = .ok r →
    r.isSome = (fs.first names).isSome ∧ stillOpen answer.2 = srv.left (fs.first names)

variable {srv : StaticServer} {fs : FileSystem}

@[simp] theorem stillOpen_nil : stillOpen [] = 0 := rfl

theorem stillOpen_append (a b : List FileEvent) : stillOpen (a ++ b) = stillOpen a + stillOpen b := by
  simp [stillOpen]

/-! ### Readers -/

theorem readTextFile_left {fname data : Str} (read : (readTextFile fs fname).1 = .ok data) :
    stillOpen (readTextFile fs fname).2 = 0 := by
  unfold readTextFile at read ⊢
  split
  · rfl
  · rfl
  · rename_i size found
    rw [found] at read
    dsimp only at read ⊢
    split <;> rename_i large
    · rw [if_pos large] at read
      cases read
    · rfl

theorem readBinaryFile_left {fname : Str} {e : Entry} (present : fs.entry (cstr fname) = some e) :
    stillOpen (readBinaryFile fs fname).2 = 1 := by
  unfold readBinaryFile
  rw [present]
  cases e with
  | file data =>
    dsimp only
    split <;> rfl
  | directory size =>
    dsimp only
    split
    · split <;> rfl
    · rfl

/-- The test whether the file is there opens and closes it; `read` does what is left. -/
theorem openEndpoint_accounts {dpath method ext contentType : Str} {read : Str → Answer Str}
    {n : Int} (reads : ∀ e data, fs.entry (cstr dpath) = some e → (read dpath).1 = .ok data →
      stillOpen (read dpath).2 = n)
    (left : srv.left (some (dpath, ext)) = n) :
    Accounts srv fs [(dpath, ext)] (openEndpoint fs dpath method ext read contentType) := by
  intro r answered
  unfold openEndpoint at answered ⊢
  split at answered <;> rename_i present
  · rw [← Except.ok.inj answered]
    simp [FileSystem.first, present, stillOpen, FileEvent.opened, StaticServer.left]
  · rename_i e
    have rest := fun data => reads e data present
    rcases opened : read dpath with ⟨contents, events⟩
    rw [opened] at answered rest
    cases contents with
    | error e => cases answered
    | ok contents =>
      replace rest := rest contents rfl
      have known : fs.first [(dpath, ext)] = some (dpath, ext) := by
        simp [FileSystem.first, present]
      rw [known, left]
      refine ⟨?_, ?_⟩
      · rw [← Except.ok.inj answered]
        rfl
      · simp only [stillOpen_append]
        rw [← rest]
        simp [stillOpen, FileEvent.opened]

theorem openByExtension_accounts (dpath method ext : Str) :
    Accounts srv fs [(dpath, ext)] (srv.openByExtension fs dpath method ext) := by
  unfold openByExtension
  split <;> rename_i type
  · split <;> rename_i text
    · refine openEndpoint_accounts (n := 0) (fun _ _ _ read => readTextFile_left read) ?_
      simp [StaticServer.left, binary, type, text]
    · refine openEndpoint_accounts (n := 1) (fun _ _ present _ => readBinaryFile_left present) ?_
      simp [StaticServer.left, binary, type, text]
  · refine openEndpoint_accounts (n := 1) (fun _ _ present _ => readBinaryFile_left present) ?_
    simp [StaticServer.left, binary, type]

theorem nothing_accounts : Accounts srv fs [] (.ok none, []) := by
  intro r answered
  rw [← Except.ok.inj answered]
  exact ⟨rfl, rfl⟩

theorem fault_accounts {names : List (Str × Str)} {fault : Fault} {events : List FileEvent} :
    Accounts srv fs names (.error fault, events) := by
  intro r answered
  cases answered

theorem openBelow_accounts (staticPath fpath method : Str) :
    Accounts srv fs (target staticPath fpath).toList
      (srv.openBelow fs staticPath fpath method) := by
  simp only [openBelow, target]
  generalize (if toUnsigned (findChar fpath '?') ≠ npos then (do
      let _qs ← substr fpath ((toUnsigned (findChar fpath '?') + 1) % 2 ^ 32)
      substr fpath 0 (some (toUnsigned (findChar fpath '?'))))
    else .ok fpath : Except Exn Str) = cut
  rcases cut with e | path
  · exact fault_accounts
  dsimp only
  by_cases flat : toUnsigned (findLastOf path '/') = npos
  · simp only [flat, if_true]
    exact nothing_accounts
  simp only [flat, if_false]
  rcases substr path ((toUnsigned (findLastOf path '/') + 1) % 2 ^ 32) with e | fname
  · exact fault_accounts
  dsimp only
  by_cases plain : toUnsigned (findLastOf fname '.') = npos
  · simp only [plain, ne_eq, not_true, if_false]
    exact nothing_accounts
  simp only [plain, ne_eq, not_false_eq_true, if_true]
  rcases substr fname ((toUnsigned (findLastOf fname '.') + 1) % 2 ^ 32) with e | ext
  · exact fault_accounts
  · exact openByExtension_accounts _ method _

/-! ### Lookup -/

theorem first_append (a b : List (Str × Str)) :
    fs.first (a ++ b) = (fs.first a).or (fs.first b) := List.find?_append

/-- The index names are tried in order until one is answered. -/
theorem getStaticIndex_accounts {endpoint : Str → Answer (Option MEndpoint)} {path : Str}
    {names : Str → List (Str × Str)}
    (each : ∀ path, Accounts srv fs (names path) (endpoint path)) (indexes : List Str) :
    Accounts srv fs
      ((indexes.filter fun it => it.getLast? ≠ some '/').flatMap fun it => names (path ++ it))
      (getStaticIndex endpoint path indexes) := by
  induction indexes with
  | nil => exact nothing_accounts
  | cons it rest ih =>
    unfold getStaticIndex
    split <;> rename_i last
    · exact fault_accounts
    · simpa [last] using ih
    · have kept : it.getLast? ≠ some '/' := by simp_all
      simp only [List.filter_cons, kept, ne_eq, not_false_eq_true, decide_true, if_true,
        List.flatMap_cons]
      have here := each (path ++ it)
      split <;> rename_i answer
      · intro r answered
        rw [answer] at here
        obtain ⟨missing, closed⟩ := here none rfl
        have unfound : fs.first (names (path ++ it)) = none :=
          Option.isSome_eq_false_iff.mp missing.symm |> Option.isNone_iff_eq_none.mp
        obtain ⟨same, later⟩ := ih r answered
        rw [unfound] at closed
        rw [first_append, unfound, Option.none_or, stillOpen_append, closed]
        exact ⟨same, by rw [later]; simp [StaticServer.left]⟩
      · intro r answered
        obtain ⟨same, left⟩ := here r answered
        cases r with
        | none => exact (answer _ (Prod.ext answered rfl)).elim
        | some ep =>
          obtain ⟨t, found⟩ := Option.isSome_iff_exists.mp same.symm
          rw [first_append, found, Option.some_or]
          rw [found] at left
          exact ⟨rfl, left⟩

theorem getStaticEndpoint_accounts (fuel : Nat) (path method : Str) (host : Option Str) :
    Accounts srv fs (srv.named host fuel path)
      (srv.getStaticEndpoint fs fuel path method host) := by
  induction fuel generalizing path with
  | zero => exact fault_accounts
  | succ fuel ih =>
    simp only [getStaticEndpoint, named]
    split <;> rename_i dots
    · exact nothing_accounts
    · rcases last : (cstr path).getLast? with _ | c
      · exact fault_accounts
      · by_cases slash : c = '/'
        · subst slash
          exact getStaticIndex_accounts ih srv.StaticIndexes
        · simp only
          split
          · exact nothing_accounts
          · exact openBelow_accounts _ _ method

/-! ### Many requests -/

/-- A request for a static file, and the files as they are when it comes. -/
structure StaticRequest where
  fs : FileSystem
  path : Str
  method : Str
  host : Option Str

namespace StaticRequest

def answer (srv : StaticServer) (fuel : Nat) (r : StaticRequest) : Answer (Option MEndpoint) :=
  srv.getStaticEndpoint r.fs fuel r.path r.method r.host

/-- The first existing file of those the request names is read as binary. -/
def ReadsBinary (srv : StaticServer) (fuel : Nat) (r : StaticRequest) : Prop :=
  ∃ t, r.fs.first (srv.named r.host fuel r.path) = some t ∧ srv.binary t.2

theorem answer_left {fuel : Nat} {r : StaticRequest} {ep : Option MEndpoint}
    (answered : (r.answer srv fuel).1 = .ok ep) :
    0 ≤ stillOpen (r.answer srv fuel).2 ∧
      (stillOpen (r.answer srv fuel).2 = 0 ↔ ¬ r.ReadsBinary srv fuel) := by
  have accounts : Accounts srv r.fs (srv.named r.host fuel r.path) (r.answer srv fuel) :=
    getStaticEndpoint_accounts fuel r.path r.method r.host
  obtain ⟨_, left⟩ := accounts ep answered
  rw [left, ReadsBinary]
  cases r.fs.first (srv.named r.host fuel r.path) with
  | none => simp [StaticServer.left]
  | some t => cases binary : srv.binary t.2 <;> simp [StaticServer.left, binary]

end StaticRequest

/-- After any requests, each of which was answered, as many descriptors are open as before
exactly if none of them was answered with a file that is read as binary. -/
theorem descriptors_kept_iff (srv : StaticServer) (fuel : Nat) (requests : List StaticRequest)
    (answered : ∀ r ∈ requests, ∃ ep, (r.answer srv fuel).1 = .ok ep) :
    stillOpen (requests.flatMap fun r => (r.answer srv fuel).2) = 0 ↔
      ∀ r ∈ requests, ¬ r.ReadsBinary srv fuel := by
  have both : 0 ≤ stillOpen (requests.flatMap fun r => (r.answer srv fuel).2) ∧
      (stillOpen (requests.flatMap fun r => (r.answer srv fuel).2) = 0 ↔
        ∀ r ∈ requests, ¬ r.ReadsBinary srv fuel) := by
    induction requests with
    | nil => simp
    | cons r rest ih =>
      obtain ⟨ep, here⟩ := answered r List.mem_cons_self
      obtain ⟨positive, closed⟩ := StaticRequest.answer_left here
      obtain ⟨more, others⟩ := ih fun r member => answered r (List.mem_cons_of_mem _ member)
      rw [List.flatMap_cons, stillOpen_append, List.forall_mem_cons, ← closed, ← others]
      omega
  exact both.2

/-- One text file and one without a registered type. -/
def twoFiles : FileSystem where
  entry name :=
    if name = "d//a.x".toList then some (.file "hi".toList)
    else if name = "d//b.y".toList then some (.file "yo".toList) else none
  modTime _ := []

def textServer : StaticServer :=
  { StaticEndpoints := [{ Path := "d".toList }]
    MimeTypes := [{ Ext := "x".toList, «Type» := "text/x".toList, IsText := true }] }

theorem descriptors_kept_text :
    stillOpen (([⟨twoFiles, "/a.x".toList, [], none⟩] : List StaticRequest).flatMap
      fun r => (r.answer textServer 1).2) = 0 := by
  refine (descriptors_kept_iff textServer 1 _ ?_).mpr ?_
  · intro r member
    rw [List.mem_singleton.mp member]
    exact ⟨_, rfl⟩
  · intro r member
    rw [List.mem_singleton.mp member]
    rintro ⟨t, first, binary⟩
    have file : some ("d//a.x".toList, "x".toList) = some t := first
    rw [← Option.some.inj file] at binary
    exact absurd binary (by decide)

/-- A file without a registered type is read as binary and stays open. -/
theorem descriptor_leaked :
    ¬ ∀ (srv : StaticServer) (fuel : Nat) (requests : List StaticRequest),
      (∀ r ∈ requests, ∃ ep, (r.answer srv fuel).1 = .ok ep) →
        stillOpen (requests.flatMap fun r => (r.answer srv fuel).2) = 0 := by
  intro claim
  have kept := claim textServer 1 [⟨twoFiles, "/b.y".toList, [], none⟩] fun r member => by
    rw [List.mem_singleton.mp member]
    exact ⟨_, rfl⟩
  exact absurd kept (by decide)

end Solusek.Static
