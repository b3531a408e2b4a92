import Solusek.Proofs.StaticContainment
import Solusek.Proofs.StaticLookup

/-!
# Hosts of static directories

A directory should be served to its host and to the domains below it, but its host is compared
with the end of the header value as it is: a port hides the host, and a longer name that ends
in the same letters gets the directory too.
-/

namespace Solusek.Static

open StaticServer

/-- The arguments of `addStaticDirectory`. -/
abbrev Registration := Str × Option Str

def headerValue (h : Str) (port : Option Str) : Str := h ++ port.elim [] (':' :: ·)

def lowered (s : Str) : Str := s.map Char.toLower

/-- The registration has no host, or `h` is its host or a domain below it. -/
def covers (h : Str) (r : Registration) : Bool :=
  match r.2 with
  | none => true
  | some g => (cstr g).isEmpty || lowered (cstr g) == lowered h ||
      ('.' :: lowered (cstr g)).isSuffixOf (lowered h)

/-- The registration has no host, or its host ends the header value as the code lowers both. -/
def ends (value : Str) (r : Registration) : Bool :=
  (lowerHost r.2).isSuffixOf (lowerHost (some value))

/-- The path of the first registration that passes the test; there is none for an empty path. -/
def firstPath (test : Registration → Bool) (regs : List Registration) : Str :=
  ((regs.find? test).map fun r => cstr r.1).getD []

/-- The registration that covers the host first, and for every host. -/
def chosen (h : Str) (regs : List Registration) : List Registration :=
  ((regs.find? (covers h)).map fun r => (r.1, none)).toList

/-- Requests with this header value get what they would get if the only directory were that of
the first registration that covers the host. -/
def ServedByDomain (regs : List Registration) (h : Str) (port : Option Str) : Prop :=
  ∀ (mimeTypes : List MMimeType) (indexes : List Str) (fs : FileSystem) (fuel : Nat)
    (path method : Str),
    (configure mimeTypes regs indexes).getStaticEndpoint fs fuel path method
        (some (headerValue h port)) =
      (configure mimeTypes (chosen h regs) indexes).getStaticEndpoint fs fuel path method
        (some (headerValue h port))

/-- The first of the registrations that passes the test is for the path; or the path is empty, and
none passes. -/
def NextHas (test : Registration → Bool) (path : Str) (regs : List Registration) : Prop :=
  (∃ before r after, regs = before ++ r :: after ∧ (∀ b ∈ before, test b = false) ∧
      test r = true ∧ cstr r.1 = path) ∨
    path = [] ∧ ∀ r ∈ regs, test r = false

/-- The first registration that covers the host or ends the value does both; or it does one of
these, and the first one behind it that does the other is for the same path. -/
def FirstAgrees (h value : Str) : List Registration → Prop
  | [] => True
  | r :: rest =>
    match covers h r, ends value r with
    | true, true => True
    | true, false => NextHas (ends value) (cstr r.1) rest
    | false, true => NextHas (covers h) (cstr r.1) rest
    | false, false => FirstAgrees h value rest

variable {fs : FileSystem} {regs : List Registration}

/-! ### The directory -/

theorem staticPath_find (shost : Str) (eps : List MStaticEndpoint) :
    staticPath shost eps =
      ((eps.find? fun it => it.Host.isSuffixOf shost).map MStaticEndpoint.Path).getD [] := by
  induction eps with
  | nil => rfl
  | cons it rest ih =>
    have suffix : it.Host.isSuffixOf shost = true ↔ it.Host.length = 0 ∨
        it.Host.length ≤ shost.length ∧
          shost.drop (shost.length - it.Host.length) = it.Host := by
      rw [List.isSuffixOf_iff_suffix, List.suffix_iff_eq_drop, List.length_eq_zero_iff]
      constructor
      · intro same
        have shorter : it.Host.length ≤ shost.length := by
          rw [same, List.length_drop]
          omega
        exact Or.inr ⟨shorter, same.symm⟩
      · rintro (empty | ⟨_, same⟩)
        · simp [empty]
        · exact same.symm
    rw [staticPath, List.find?_cons]
    cases passes : it.Host.isSuffixOf shost with
    | true =>
      rcases suffix.mp passes with empty | longer
      · rw [if_pos empty]
        rfl
      · rw [if_pos longer]
        split <;> rfl
    | false =>
      obtain ⟨named, other⟩ := not_or.mp (mt suffix.mpr (by simp [passes]))
      rw [if_neg named, if_neg other]
      exact ih

theorem configure_endpoints (mimeTypes : List MMimeType) (regs : List Registration)
    (indexes : List Str) :
    (configure mimeTypes regs indexes).StaticEndpoints =
      regs.map fun r => { Host := lowerHost r.2, Path := cstr r.1 } := by
  have added (srv : StaticServer) :
      (regs.foldl (fun srv d => srv.addStaticDirectory d.1 d.2) srv).StaticEndpoints =
        srv.StaticEndpoints ++ regs.map fun r => { Host := lowerHost r.2, Path := cstr r.1 } := by
    induction regs generalizing srv with
    | nil => simp
    | cons r regs ih =>
      rw [List.foldl_cons, ih]
      simp [addStaticDirectory]
  rw [configure, registerStaticIndex_endpoints, added]
  rfl

theorem configure_directory (mimeTypes : List MMimeType) (regs : List Registration)
    (indexes : List Str) (value : Str) :
    (configure mimeTypes regs indexes).directory (some value) = firstPath (ends value) regs := by
  rw [directory, staticPath_find, configure_endpoints, List.find?_map, firstPath, Option.map_map]
  rfl

theorem chosen_path (h value : Str) :
    firstPath (ends value) (chosen h regs) = firstPath (covers h) regs := by
  rw [firstPath, firstPath, chosen]
  cases regs.find? (covers h) with
  | none => rfl
  | some r =>
    have all : ends value (r.1, none) = true := List.isSuffixOf_iff_suffix.mpr List.nil_suffix
    simp only [Option.map_some, Option.toList_some, List.find?_cons, all]

/-! ### What an answer depends on -/

theorem openBelow_congr {srv srv' : StaticServer} (mimes : srv.MimeTypes = srv'.MimeTypes)
    (dir fpath method : Str) :
    srv.openBelow fs dir fpath method = srv'.openBelow fs dir fpath method := by
  simp only [openBelow_eq, openByExtension, getMimeType, mimes]

theorem getStaticEndpoint_congr {srv srv' : StaticServer} (mimes : srv.MimeTypes = srv'.MimeTypes)
    (indexes : srv.StaticIndexes = srv'.StaticIndexes) {host : Option Str}
    (dir : srv.directory host = srv'.directory host) (fuel : Nat) (path method : Str) :
    srv.getStaticEndpoint fs fuel path method host =
      srv'.getStaticEndpoint fs fuel path method host := by
  unfold directory at dir
  induction fuel generalizing path with
  | zero => rfl
  | succ fuel ih => simp only [getStaticEndpoint, ih, indexes, dir, openBelow_congr mimes]

/-- Every name is that of an empty file. -/
def anyFile : FileSystem where
  entry _ := some (.file [])
  modTime _ := []

theorem anyFile_path (regs : List Registration) (value : Str) :
    ((configure [] regs []).getStaticEndpoint anyFile 1 "/a".toList [] (some value)).1 =
      if (firstPath (ends value) regs).length = 0 then .ok none
      else .ok (some ((configure [] regs []).endpointOf anyFile
        (firstPath (ends value) regs ++ "/".toList ++ "/a".toList) [] (extension "/a".toList) [])) := by
  have plain : Plain "/a".toList := ⟨'a', by decide, by decide⟩
  have free : find "..".toList (cstr "/a".toList) = none := by decide
  have query : withoutQuery (cstr "/a".toList) = "/a".toList := by decide
  rw [getStaticEndpoint_file plain, fileAnswer, served, fileName, configure_directory, free, query]
  by_cases empty : (firstPath (ends value) regs).length = 0
  · simp [empty]
  · have brief : (configure [] regs []).Ends (extension "/a".toList) (.file []) :=
      ⟨fun _ => Nat.zero_le _, trivial⟩
    simp only [ne_eq, not_true, false_or, if_neg empty, anyFile]
    rw [if_pos brief]
    rfl

theorem firstPath_cons (test : Registration → Bool) (r : Registration)
    (regs : List Registration) :
    firstPath test (r :: regs) = if test r then cstr r.1 else firstPath test regs := by
  unfold firstPath
  rw [List.find?_cons]
  cases test r <;> rfl

theorem nextHas_iff (test : Registration → Bool) (path : Str) (regs : List Registration) :
    NextHas test path regs ↔ firstPath test regs = path := by
  constructor
  · rintro (⟨before, r, after, rfl, others, passes, rfl⟩ | ⟨rfl, others⟩)
    · have found : (before ++ r :: after).find? test = some r := by
        refine List.find?_eq_some_iff_append.mpr ⟨passes, before, after, rfl, fun b member => ?_⟩
        simp [others b member]
      rw [firstPath, found]
      rfl
    · have absent : regs.find? test = none :=
        List.find?_eq_none.mpr fun r member => by simp [others r member]
      rw [firstPath, absent]
      rfl
  · intro same
    cases found : regs.find? test with
    | none =>
      rw [firstPath, found] at same
      refine Or.inr ⟨same.symm, fun r member => ?_⟩
      simpa using List.find?_eq_none.mp found r member
    | some r =>
      obtain ⟨passes, before, after, split, others⟩ := List.find?_eq_some_iff_append.mp found
      rw [firstPath, found] at same
      exact Or.inl ⟨before, r, after, split, fun b member => by simpa using others b member,
        passes, same⟩

theorem firstPath_eq_iff (h value : Str) (regs : List Registration) :
    firstPath (covers h) regs = firstPath (ends value) regs ↔ FirstAgrees h value regs := by
  induction regs with
  | nil => exact iff_of_true rfl trivial
  | cons r regs ih =>
    rw [firstPath_cons, firstPath_cons, FirstAgrees]
    cases covers h r <;> cases ends value r
    · exact ih
    · exact (nextHas_iff (covers h) (cstr r.1) regs).symm
    · exact eq_comm.trans (nextHas_iff (ends value) (cstr r.1) regs).symm
    · exact iff_of_true rfl trivial

theorem served_same {regs : List Registration} {h : Str} {port : Option Str}
    (served : ServedByDomain regs h port) :
    firstPath (covers h) regs = firstPath (ends (headerValue h port)) regs := by
  have answers := congrArg Prod.fst (served [] [] anyFile 1 "/a".toList [])
  rw [anyFile_path, anyFile_path, chosen_path] at answers
  split at answers <;> rename_i empty <;> split at answers <;> rename_i empty'
  · rw [List.length_eq_zero_iff.mp empty, List.length_eq_zero_iff.mp empty']
  · cases answers
  · cases answers
  · have paths := congrArg MEndpoint.Path (Option.some.inj (Except.ok.inj answers))
    exact (List.append_cancel_right (List.append_cancel_right paths)).symm

theorem ends_short {value g : Str} (short : (cstr value).length < 2 ^ 31)
    (short' : (cstr g).length < 2 ^ 31) (path : Str) :
    ends value (path, some g) = (lowered (cstr g)).isSuffixOf (lowered (cstr value)) := by
  rw [ends, lowerHost, lowerHost, strtolower_short short, strtolower_short short']
  rfl

/-- Files are served from the first directory for the domain of the header exactly if the test on
the end of the header value takes up the registrations in the same way. -/
theorem static_host_iff (regs : List Registration) (h : Str) (port : Option Str) :
    ServedByDomain regs h port ↔ FirstAgrees h (headerValue h port) regs := by
  rw [← firstPath_eq_iff]
  constructor
  · exact served_same
  · intro same mimeTypes indexes fs fuel path method
    refine getStaticEndpoint_congr ?_ ?_ ?_ fuel path method
    · rw [configure_mimes, configure_mimes]
    · rw [configure_indexes, configure_indexes]
    · rw [configure_directory, configure_directory, chosen_path, same]

/-- The directory of `b.c` is served to `ab.c` and not to `b.c:1`. -/
theorem static_host_suffix :
    (¬ ∀ (regs : List Registration) (h : Str), ServedByDomain regs h none) ∧
      ¬ ∀ (regs : List Registration) (h p : Str), ServedByDomain regs h (some p) := by
  constructor
  · intro claim
    have same := served_same (claim [("d".toList, some "b.c".toList)] "ab.c".toList)
    have ended : ends (headerValue "ab.c".toList none) ("d".toList, some "b.c".toList) = true := by
      rw [ends_short (by decide) (by decide)]
      decide
    have left : firstPath (covers "ab.c".toList) [("d".toList, some "b.c".toList)] = [] := by decide
    rw [left, firstPath, List.find?_cons, ended] at same
    exact absurd same (by decide)
  · intro claim
    have same := served_same (claim [("d".toList, some "b.c".toList)] "b.c".toList "1".toList)
    have apart : ends (headerValue "b.c".toList (some "1".toList))
        ("d".toList, some "b.c".toList) = false := by
      rw [ends_short (by decide) (by decide)]
      decide
    have left : firstPath (covers "b.c".toList) [("d".toList, some "b.c".toList)] = "d".toList := by
      decide
    rw [left, firstPath, List.find?_cons, apart] at same
    exact absurd same (by decide)

end Solusek.Static
