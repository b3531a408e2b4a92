import Solusek.Lib.Paths
import Solusek.Model.Static
import Solusek.Proofs.Strings

/-!
# Static files stay below their directory

`getStaticEndpoint` turns away every path with `..` in it. What it does to the path later on
only cuts pieces off its end, and an index name is checked again by the nested call.
-/

namespace Solusek.Static

open Paths StaticServer

/-- `p` has no segment `..`, and walking it never leaves the directory it starts from. -/
def Below (p : Str) : Prop :=
  "..".toList ∉ p.splitOn '/' ∧
    (walk "..".toList [[], ".".toList] 0 (p.splitOn '/')).isSome

/-- A name made of the path of a registered directory and a path below it. -/
def Inside (srv : StaticServer) (name : Str) : Prop :=
  ∃ ep ∈ srv.StaticEndpoints, ∃ p, name = ep.Path ++ "/".toList ++ p ∧ Below p

/-- The names of the files that are opened, or tried. -/
def Opens (events : List FileEvent) (name : Str) : Prop := ∃ found, .fopen name found ∈ events

/-- The paths of directories come from `const char *` arguments. -/
def Terminated (srv : StaticServer) : Prop := ∀ ep ∈ srv.StaticEndpoints, '\x00' ∉ ep.Path

/-- The server after the calls of `addStaticDirectory` and `registerStaticIndex`. -/
def configure (mimeTypes : List MMimeType) (directories : List (Str × Option Str))
    (indexes : List Str) : StaticServer :=
  indexes.foldl registerStaticIndex
    (directories.foldl (fun srv d => srv.addStaticDirectory d.1 d.2) { MimeTypes := mimeTypes })

/-! ### Registration -/

theorem below_of_find {p : Str} (free : ¬ "..".toList <:+: p) : Below p :=
  ⟨not_mem_splitOn free '/', walk_isSome (not_mem_splitOn free '/') 0⟩

theorem registerStaticIndex_endpoints (srv : StaticServer) (indexes : List Str) :
    (indexes.foldl registerStaticIndex srv).StaticEndpoints = srv.StaticEndpoints := by
  induction indexes generalizing srv with
  | nil => rfl
  | cons name indexes ih => rw [List.foldl_cons, ih, registerStaticIndex]

theorem addStaticDirectory_terminated {srv : StaticServer} (terminated : Terminated srv)
    (path : Str) (host : Option Str) : Terminated (srv.addStaticDirectory path host) := by
  intro ep member
  rcases List.mem_append.mp member with old | new
  · exact terminated ep old
  · have same := List.mem_singleton.mp new
    subst same
    exact nul_not_mem_cstr path

theorem configure_terminated (mimeTypes : List MMimeType) (directories : List (Str × Option Str))
    (indexes : List Str) : Terminated (configure mimeTypes directories indexes) := by
  have added : ∀ (directories : List (Str × Option Str)) (srv : StaticServer), Terminated srv →
      Terminated (directories.foldl (fun srv d => srv.addStaticDirectory d.1 d.2) srv) := by
    intro directories
    induction directories with
    | nil => exact fun _ terminated => terminated
    | cons d directories ih =>
      exact fun srv terminated => ih _ (addStaticDirectory_terminated terminated d.1 d.2)
  unfold Terminated configure
  rw [registerStaticIndex_endpoints]
  apply added
  intro ep member
  exact absurd member List.not_mem_nil

theorem foldl_same {σ ι κ : Type*} {step : σ → ι → σ} (field : σ → κ)
    (same : ∀ s i, field (step s i) = field s) (l : List ι) (s : σ) :
    field (l.foldl step s) = field s := by
  induction l generalizing s with
  | nil => rfl
  | cons i l ih => rw [List.foldl_cons, ih, same]

theorem configure_indexes (mimeTypes : List MMimeType) (directories : List (Str × Option Str))
    (indexes : List Str) :
    (configure mimeTypes directories indexes).StaticIndexes = indexes.map cstr := by
  have registered (srv : StaticServer) :
      (indexes.foldl registerStaticIndex srv).StaticIndexes =
        srv.StaticIndexes ++ indexes.map cstr := by
    induction indexes generalizing srv with
    | nil => simp
    | cons name indexes ih => simp [ih, registerStaticIndex]
  rw [configure, registered, foldl_same StaticIndexes]
  · rfl
  · exact fun _ _ => rfl

theorem configure_mimes (mimeTypes : List MMimeType) (directories : List (Str × Option Str))
    (indexes : List Str) : (configure mimeTypes directories indexes).MimeTypes = mimeTypes := by
  rw [configure, foldl_same MimeTypes, foldl_same MimeTypes]
  · exact fun _ _ => rfl
  · exact fun _ _ => rfl

/-! ### What is opened -/

theorem readTextFile_opens {fs : FileSystem} {fname name : Str}
    (opens : Opens (readTextFile fs fname).2 name) : name = cstr fname := by
  obtain ⟨found, member⟩ := opens
  unfold readTextFile at member
  split at member
  · simp at member
    exact member.1
  · simp at member
    exact member.1
  · split at member
    · simp at member
      exact member.1
    · simp at member
      exact member.1

theorem readBinaryFile_opens {fs : FileSystem} {fname name : Str}
    (opens : Opens (readBinaryFile fs fname).2 name) : name = cstr fname := by
  obtain ⟨found, member⟩ := opens
  unfold readBinaryFile at member
  split at member
  · simp at member
    exact member.1
  · split at member
    · simp at member
      exact member.1
    · simp at member
      exact member.1
  · split at member
    · split at member
      · simp at member
        exact member.1
      · simp at member
        exact member.1
    · simp at member
      exact member.1

theorem openEndpoint_opens {fs : FileSystem} {dpath method ext contentType name : Str}
    {read : Str → Answer Str} (reads : Opens (read dpath).2 name → name = cstr dpath)
    (opens : Opens (openEndpoint fs dpath method ext read contentType).2 name) :
    name = cstr dpath := by
  obtain ⟨found, member⟩ := opens
  unfold openEndpoint at member
  split at member
  · simp at member
    exact member.1
  · simp at member
    rcases member with here | later
    · exact here.1
    · exact reads ⟨found, later⟩

theorem openByExtension_opens {srv : StaticServer} {fs : FileSystem} {dpath method ext name : Str}
    (opens : Opens (srv.openByExtension fs dpath method ext).2 name) : name = cstr dpath := by
  unfold openByExtension at opens
  split at opens
  · split at opens
    · exact openEndpoint_opens readTextFile_opens opens
    · exact openEndpoint_opens readBinaryFile_opens opens
  · exact openEndpoint_opens readBinaryFile_opens opens

/-- Below a directory only names are tried that end with a piece cut off the end of the path. -/
theorem openBelow_opens {srv : StaticServer} {fs : FileSystem} {dir fpath method name : Str}
    (opens : Opens (srv.openBelow fs dir fpath method).2 name) :
    ∃ p, p <+: fpath ∧ name = cstr (dir ++ "/".toList ++ p) := by
  have nothing : ∀ {α : Type} {r : Except Fault α}, ¬ Opens (r, ([] : List FileEvent)).2 name := by
    rintro α r ⟨found, member⟩
    exact absurd member List.not_mem_nil
  simp only [openBelow] at opens
  split at opens
  · exact absurd opens nothing
  · rename_i p cut
    have shorter : p <+: fpath := by
      split at cut
      · obtain ⟨qs, _, rest⟩ := bind_ok cut
        exact substr_prefix rest
      · exact Except.ok.inj cut ▸ List.prefix_rfl
    split at opens
    · exact absurd opens nothing
    · split at opens
      · exact absurd opens nothing
      · split at opens
        · split at opens
          · exact absurd opens nothing
          · exact ⟨p, shorter, openByExtension_opens opens⟩
        · exact absurd opens nothing

theorem staticPath_mem {shost : Str} {eps : List MStaticEndpoint}
    (found : (staticPath shost eps).length ≠ 0) : ∃ ep ∈ eps, ep.Path = staticPath shost eps := by
  induction eps with
  | nil => simp [staticPath] at found
  | cons it rest ih =>
    unfold staticPath at found ⊢
    split
    · exact ⟨it, List.mem_cons_self, rfl⟩
    · rename_i hosted
      rw [if_neg hosted] at found
      split
      · exact ⟨it, List.mem_cons_self, rfl⟩
      · rename_i other
        rw [if_neg other] at found
        obtain ⟨ep, member, same⟩ := ih found
        exact ⟨ep, List.mem_cons_of_mem _ member, same⟩

theorem openBelow_inside {srv : StaticServer} (terminated : Terminated srv) {fs : FileSystem}
    {shost path method name : Str} (free : find "..".toList (cstr path) = none)
    (served : (staticPath shost srv.StaticEndpoints).length ≠ 0)
    (opens : Opens (srv.openBelow fs (staticPath shost srv.StaticEndpoints) (cstr path) method).2
      name) : Inside srv name := by
  obtain ⟨p, shorter, rfl⟩ := openBelow_opens opens
  obtain ⟨ep, member, same⟩ := staticPath_mem served
  have clean : '\x00' ∉ ep.Path ++ "/".toList ++ p := by
    simp only [List.mem_append, not_or]
    exact ⟨⟨terminated ep member, by decide⟩,
      fun inside => nul_not_mem_cstr path (shorter.subset inside)⟩
  refine ⟨ep, member, p, ?_, ?_⟩
  · rw [← same, cstr_eq clean]
  · exact below_of_find fun inside => not_infix_of_find free (inside.trans shorter.isInfix)

theorem getStaticIndex_opens {endpoint : Str → Answer (Option MEndpoint)} {path name : Str}
    {indexes : List Str} {P : Str → Prop}
    (each : ∀ path, Opens (endpoint path).2 name → P name)
    (opens : Opens (getStaticIndex endpoint path indexes).2 name) : P name := by
  induction indexes with
  | nil =>
    obtain ⟨found, member⟩ := opens
    exact absurd member List.not_mem_nil
  | cons it rest ih =>
    unfold getStaticIndex at opens
    split at opens
    · obtain ⟨found, member⟩ := opens
      exact absurd member List.not_mem_nil
    · exact ih opens
    · split at opens
      · rename_i events answer
        obtain ⟨found, member⟩ := opens
        rcases List.mem_append.mp member with here | later
        · exact each (path ++ it) ⟨found, by rw [answer]; exact here⟩
        · exact ih ⟨found, later⟩
      · exact each (path ++ it) opens

theorem getStaticEndpoint_inside {srv : StaticServer} (terminated : Terminated srv)
    {fs : FileSystem} {fuel : Nat} {path method : Str} {host : Option Str} {name : Str}
    (opens : Opens (srv.getStaticEndpoint fs fuel path method host).2 name) :
    Inside srv name := by
  induction fuel generalizing path with
  | zero =>
    obtain ⟨found, member⟩ := opens
    exact absurd member List.not_mem_nil
  | succ fuel ih =>
    simp only [getStaticEndpoint] at opens
    split at opens
    · obtain ⟨found, member⟩ := opens
      exact absurd member List.not_mem_nil
    · rename_i checked
      have free : find "..".toList (cstr path) = none := by simpa using checked
      split at opens
      · obtain ⟨found, member⟩ := opens
        exact absurd member List.not_mem_nil
      · exact getStaticIndex_opens (fun _ nested => ih nested) opens
      · split at opens
        · obtain ⟨found, member⟩ := opens
          exact absurd member List.not_mem_nil
        · rename_i served
          exact openBelow_inside terminated free served opens

/-- Whatever is registered and whatever is requested, every file that is opened lies inside one
of the registered directories. -/
theorem static_inside (mimeTypes : List MMimeType) (directories : List (Str × Option Str))
    (indexes : List Str) (fs : FileSystem) (fuel : Nat) (path method : Str) (host : Option Str)
    (name : Str) :
    Opens ((configure mimeTypes directories indexes).getStaticEndpoint fs fuel path method
      host).2 name → Inside (configure mimeTypes directories indexes) name :=
  fun opens => getStaticEndpoint_inside (configure_terminated mimeTypes directories indexes) opens

def onePage : FileSystem where
  entry name := if name = "d//a.x".toList then some (.file "hi".toList) else none
  modTime _ := []

theorem static_inside_page : Inside (configure [] [("d".toList, none)] []) "d//a.x".toList :=
  static_inside [] [("d".toList, none)] [] onePage 1 "/a.x".toList "GET".toList none _
    ⟨true, by decide⟩

end Solusek.Static
