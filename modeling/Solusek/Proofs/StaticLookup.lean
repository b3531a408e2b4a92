import Solusek.Proofs.FileReading
import Solusek.Proofs.StaticDescriptors
import Solusek.Proofs.Strings

/-!
# The file behind a path

What `getStaticEndpoint` does with a path that does not end in `/`, in closed form. The
positions of query, slash and dot are 32 bits wide and never equal the 64-bit `npos`, so the
branches for a missing one are never taken.
-/

namespace Solusek.Static

namespace StaticServer

/-- The path up to the query, with the position the code keeps. -/
def withoutQuery (fpath : Str) : Str := fpath.take (toUnsigned (findChar fpath '?'))

/-- The text behind the last `c`; `npos + 1` is 0, so it is all of it when there is none. -/
def behindLast (c : Char) (s : Str) : Str := s.drop ((toUnsigned (findLastOf s c) + 1) % 2 ^ 32)

def extension (path : Str) : Str :=
  strtolower (behindLast '.' (behindLast '/' (withoutQuery (cstr path))))

def directory (srv : StaticServer) (host : Option Str) : Str :=
  staticPath (lowerHost host) srv.StaticEndpoints

def fileName (srv : StaticServer) (host : Option Str) (path : Str) : Str :=
  srv.directory host ++ "/".toList ++ withoutQuery (cstr path)

/-- What is behind a path, if it is looked for and exists. -/
def served (srv : StaticServer) (fs : FileSystem) (host : Option Str) (path : Str) : Option Entry :=
  if find "..".toList (cstr path) ≠ none ∨ (srv.directory host).length = 0 then none
  else fs.entry (cstr (srv.fileName host path))

/-- The reader that the extension selects comes to an end, with what it has read. -/
def Ends (srv : StaticServer) (ext : Str) (e : Entry) : Prop :=
  (srv.binary ext = true → e.size ≤ 2 ^ 32 - 512) ∧ e.Filled

instance (srv : StaticServer) (ext : Str) (e : Entry) : Decidable (srv.Ends ext e) :=
  inferInstanceAs (Decidable ((_ → _) ∧ _))

/-- What becomes of a call whose reader does not. -/
def readFault (srv : StaticServer) (ext : Str) (e : Entry) : Fault :=
  if srv.binary ext = true ∧ 2 ^ 32 - 512 < e.size then .diverges else .undefined

def mimeType (srv : StaticServer) (ext : Str) : Str :=
  match srv.getMimeType ext with
  | some mime => mime.Type
  | none => "application/force-download".toList

def endpointOf (srv : StaticServer) (fs : FileSystem) (dpath method ext data : Str) : MEndpoint where
  «Type» := 1
  Path := dpath
  Method := cstr method
  Contents := data
  Ext := ext
  ContentType := srv.mimeType ext
  Date := fs.modTime dpath

def fileAnswer (srv : StaticServer) (fs : FileSystem) (method : Str) (host : Option Str)
    (path : Str) : Except Fault (Option MEndpoint) :=
  match srv.served fs host path with
  | none => .ok none
  | some e =>
    if srv.Ends (extension path) e then
      .ok (some (srv.endpointOf fs (srv.fileName host path) method (extension path) e.bytes))
    else .error (srv.readFault (extension path) e)

/-- What is behind the path is read to its end, if there is anything. -/
def EndsAt (srv : StaticServer) (fs : FileSystem) (host : Option Str) (path : Str) : Prop :=
  ∀ e ∈ srv.served fs host path, srv.Ends (extension path) e

variable {srv : StaticServer} {fs : FileSystem}

/-! ### Positions -/

theorem toUnsigned_lt (r : Option Nat) : toUnsigned r < 2 ^ 32 := by
  cases r <;> simp only [toUnsigned] <;> omega

theorem toUnsigned_ne_npos (r : Option Nat) : toUnsigned r ≠ npos := by
  have small := toUnsigned_lt r
  unfold npos
  omega

theorem findLastOf_lt {s : Str} {c : Char} {n : Nat} (found : findLastOf s c = some n) :
    n < s.length := by
  obtain ⟨m, inside, rfl⟩ := Option.map_eq_some_iff.mp found
  have bound := findChar_lt inside
  rw [List.length_reverse] at bound
  omega

theorem toUnsigned_succ_le {r : Option Nat} {l : Nat} (inside : ∀ n, r = some n → n < l) :
    (toUnsigned r + 1) % 2 ^ 32 ≤ l := by
  cases r with
  | none => simp [toUnsigned]
  | some n =>
    have bound := inside n rfl
    simp only [toUnsigned]
    omega

/-! ### One file -/

theorem openEndpoint_missing {dpath method ext contentType : Str} {read : Str → Answer Str}
    (absent : fs.entry (cstr dpath) = none) :
    openEndpoint fs dpath method ext read contentType =
      (.ok none, [.fopen (cstr dpath) false]) := by
  rw [openEndpoint, absent]

theorem openEndpoint_present {dpath method ext contentType : Str} {read : Str → Answer Str}
    {e : Entry} (present : fs.entry (cstr dpath) = some e) :
    (openEndpoint fs dpath method ext read contentType).1 =
      (read dpath).1.map fun Contents => some
        { «Type» := 1, Path := dpath, Method := cstr method, Contents, Ext := ext,
          ContentType := contentType, Date := fs.modTime dpath } := by
  rw [openEndpoint, present]

theorem openByExtension_missing {dpath : Str} (absent : fs.entry (cstr dpath) = none)
    (method ext : Str) :
    srv.openByExtension fs dpath method ext = (.ok none, [.fopen (cstr dpath) false]) := by
  unfold openByExtension
  split
  · split <;> exact openEndpoint_missing absent
  · exact openEndpoint_missing absent

/-- A reader that answers as `Ends` and `readFault` say. -/
theorem openEndpoint_read {dpath method ext : Str} {read : Str → Answer Str} {e : Entry}
    (present : fs.entry (cstr dpath) = some e)
    (result : (read dpath).1 =
      if srv.Ends ext e then .ok e.bytes else .error (srv.readFault ext e)) :
    (openEndpoint fs dpath method ext read (srv.mimeType ext)).1 =
      if srv.Ends ext e then .ok (some (srv.endpointOf fs dpath method ext e.bytes))
      else .error (srv.readFault ext e) := by
  rw [openEndpoint_present present, result]
  split <;> rfl

theorem binary_result {dpath ext : Str} {e : Entry} (present : fs.entry (cstr dpath) = some e)
    (binary : srv.binary ext = true) :
    (readBinaryFile fs dpath).1 =
      if srv.Ends ext e then .ok e.bytes else .error (srv.readFault ext e) := by
  rw [readBinaryFile_result present]
  unfold Ends readFault
  simp only [binary, true_and, forall_const]
  by_cases small : e.size ≤ 2 ^ 32 - 512
  · have inside : ¬ 2 ^ 32 - 512 < e.size := Nat.not_lt.mpr small
    simp only [small, true_and, if_true, if_neg inside]
  · have outside : 2 ^ 32 - 512 < e.size := Nat.lt_of_not_le small
    simp only [small, false_and, if_false, if_pos outside]

theorem text_result {dpath ext : Str} {e : Entry} (present : fs.entry (cstr dpath) = some e)
    (text : srv.binary ext = false) :
    (readTextFile fs dpath).1 =
      if srv.Ends ext e then .ok e.bytes else .error (srv.readFault ext e) := by
  rw [readTextFile_result present]
  unfold Ends readFault
  simp only [text, Bool.false_eq_true, false_implies, true_and, false_and, if_false]

theorem openByExtension_present {dpath : Str} {e : Entry}
    (present : fs.entry (cstr dpath) = some e) (method ext : Str) :
    (srv.openByExtension fs dpath method ext).1 =
      if srv.Ends ext e then .ok (some (srv.endpointOf fs dpath method ext e.bytes))
      else .error (srv.readFault ext e) := by
  unfold openByExtension
  rcases known : srv.getMimeType ext with _ | mime
  · have type : srv.mimeType ext = "application/force-download".toList := by rw [mimeType, known]
    have untyped : srv.binary ext = true := by rw [binary, known]
    dsimp only
    rw [← type]
    exact openEndpoint_read present (binary_result present untyped)
  · have type : srv.mimeType ext = mime.Type := by rw [mimeType, known]
    have kind : srv.binary ext = !mime.IsText := by rw [binary, known]
    dsimp only
    rw [← type]
    cases text : mime.IsText
    · simp only [Bool.false_eq_true, if_false]
      exact openEndpoint_read present (binary_result present (by rw [kind, text]; rfl))
    · simp only [if_true]
      exact openEndpoint_read present (text_result present (by rw [kind, text]; rfl))

/-- No search result is `npos`, and no position lies behind the end. -/
theorem openBelow_eq (dir fpath method : Str) :
    srv.openBelow fs dir fpath method =
      srv.openByExtension fs (dir ++ "/".toList ++ withoutQuery fpath) method
        (strtolower (behindLast '.' (behindLast '/' (withoutQuery fpath)))) := by
  have cut {s : Str} {r : Option Nat} (inside : ∀ n, r = some n → n < s.length) :
      substr s ((toUnsigned r + 1) % 2 ^ 32) = .ok (s.drop ((toUnsigned r + 1) % 2 ^ 32)) := by
    rw [substr, if_neg (Nat.not_lt.mpr (toUnsigned_succ_le inside))]
  have front (s : Str) (n : Nat) : substr s 0 (some n) = .ok (s.take n) := by simp [substr]
  have query := cut (s := fpath) fun _ found => findChar_lt (c := '?') found
  unfold openBelow
  simp only [ne_eq, toUnsigned_ne_npos, not_false_eq_true, if_true, if_false, query, front]
  have slash := cut (s := withoutQuery fpath) fun _ found => findLastOf_lt (c := '/') found
  have dot := cut (s := behindLast '/' (withoutQuery fpath))
    fun _ found => findLastOf_lt (c := '.') found
  unfold withoutQuery at slash
  unfold behindLast withoutQuery at dot
  unfold behindLast withoutQuery
  simp only [bind, Except.bind, slash, dot]

/-! ### One path -/

variable {path : Str} {c : Char}

/-- The path does not end in `/`, so it stands for one file. -/
def Plain (path : Str) : Prop := ∃ c, (cstr path).getLast? = some c ∧ c ≠ '/'

theorem getStaticEndpoint_dots (dots : find "..".toList (cstr path) ≠ none) (fuel : Nat)
    (method : Str) (host : Option Str) :
    srv.getStaticEndpoint fs (fuel + 1) path method host = (.ok none, []) := by
  simp only [getStaticEndpoint, if_pos dots]

theorem getStaticEndpoint_slash (free : find "..".toList (cstr path) = none)
    (slash : (cstr path).getLast? = some '/') (fuel : Nat) (method : Str) (host : Option Str) :
    srv.getStaticEndpoint fs (fuel + 1) path method host =
      getStaticIndex (fun path => srv.getStaticEndpoint fs fuel path method host) (cstr path)
        srv.StaticIndexes := by
  simp only [getStaticEndpoint, free, ne_eq, not_true, if_false, slash]

theorem getStaticEndpoint_plain (plain : Plain path) (fuel : Nat) (method : Str)
    (host : Option Str) :
    srv.getStaticEndpoint fs (fuel + 1) path method host =
      if find "..".toList (cstr path) ≠ none ∨ (srv.directory host).length = 0 then (.ok none, [])
      else srv.openByExtension fs (srv.fileName host path) method (extension path) := by
  obtain ⟨c, last, other⟩ := plain
  by_cases dots : find "..".toList (cstr path) ≠ none
  · rw [getStaticEndpoint_dots dots, if_pos (Or.inl dots)]
  · simp only [getStaticEndpoint, dots, last, false_or, if_false]
    rw [openBelow_eq]
    rfl

theorem getStaticEndpoint_file (plain : Plain path) (fuel : Nat) (method : Str)
    (host : Option Str) :
    (srv.getStaticEndpoint fs (fuel + 1) path method host).1 =
      srv.fileAnswer fs method host path := by
  rw [getStaticEndpoint_plain plain, fileAnswer, served]
  split
  · rfl
  · rcases present : fs.entry (cstr (srv.fileName host path)) with _ | e
    · rw [openByExtension_missing present]
    · exact openByExtension_present present method (extension path)

theorem fileAnswer_none_iff (method : Str) (host : Option Str) :
    srv.fileAnswer fs method host path = .ok none ↔ srv.served fs host path = none := by
  unfold fileAnswer
  split <;> rename_i present
  · simp [present]
  · split <;> simp [present]

theorem fileAnswer_ok_iff (method : Str) (host : Option Str) :
    (∃ r, srv.fileAnswer fs method host path = .ok r) ↔ srv.EndsAt fs host path := by
  unfold fileAnswer EndsAt
  split <;> rename_i present
  · simp [present]
  · split <;> rename_i ends <;> simp [present, ends]

end StaticServer

end Solusek.Static
