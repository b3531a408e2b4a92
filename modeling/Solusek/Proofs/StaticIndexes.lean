import Solusek.Proofs.StaticContainment
import Solusek.Proofs.StaticLookup

/-!
# Index names

`getStaticIndex` calls `getStaticEndpoint` again with a name behind the path. It passes over
the names that end in `/`, so the inner calls never come back to it; an empty name it indexes
in front of its first character.
-/

namespace Solusek.Static

open StaticServer

/-- Whatever the depth of the calls may be, from some depth on the answer is `r`. -/
def Answered (srv : StaticServer) (fs : FileSystem) (method : Str) (host : Option Str) (path : Str)
    (r : Option MEndpoint) : Prop :=
  ∃ n, ∀ fuel, n ≤ fuel → (srv.getStaticEndpoint fs fuel path method host).1 = .ok r

/-- `r` is the endpoint of the first of these names behind `path` that has one. -/
def FirstOf (srv : StaticServer) (fs : FileSystem) (method : Str) (host : Option Str) (path : Str)
    (names : List Str) : Option MEndpoint → Prop
  | some ep => ∃ before it after, names = before ++ it :: after ∧ it.getLast? ≠ some '/' ∧
      Answered srv fs method host (path ++ it) (some ep) ∧
      ∀ x ∈ before, x.getLast? ≠ some '/' → ∀ ep, ¬ Answered srv fs method host (path ++ x) (some ep)
  | none => ∀ x ∈ names, x.getLast? ≠ some '/' →
      ∀ ep, ¬ Answered srv fs method host (path ++ x) (some ep)

/-- The call comes back without a fault, from the index of a directory with the endpoint of
the first name that has one. -/
def Indexed (srv : StaticServer) (fs : FileSystem) (method : Str) (host : Option Str)
    (path : Str) : Prop :=
  ∃ r, Answered srv fs method host path r ∧
    ((cstr path).getLast? = some '/' → find "..".toList (cstr path) = none →
      FirstOf srv fs method host (cstr path) srv.StaticIndexes r)

namespace StaticServer

/-- The name is empty, or there is something for it behind the path. -/
def stops (srv : StaticServer) (fs : FileSystem) (host : Option Str) (path it : Str) : Bool :=
  it.isEmpty || it.getLast? ≠ some '/' && (srv.served fs host (path ++ it)).isSome

/-- In a directory the first name that is empty or has a file is not empty, and what is served,
there or behind a path of its own, is read to its end. -/
def Sound (srv : StaticServer) (fs : FileSystem) (host : Option Str) (path : Str) : Prop :=
  find "..".toList (cstr path) = none →
    if (cstr path).getLast? = some '/' then
      ∀ it ∈ srv.StaticIndexes.find? (srv.stops fs host (cstr path)),
        it ≠ [] ∧ srv.EndsAt fs host (cstr path ++ it)
    else srv.EndsAt fs host path

end StaticServer

variable {srv : StaticServer} {fs : FileSystem} {method path : Str} {host : Option Str}

/-! ### The loop over the names -/

variable {endpoint : Str → Answer (Option MEndpoint)}

theorem getStaticIndex_find {stops : Str → Bool} {names : List Str}
    (known : ∀ it ∈ names, stops it = true ↔
      it = [] ∨ it.getLast? ≠ some '/' ∧ (endpoint (path ++ it)).1 ≠ .ok none) :
    (getStaticIndex endpoint path names).1 =
      match names.find? stops with
      | none => .ok none
      | some it => if it = [] then .error .undefined else (endpoint (path ++ it)).1 := by
  induction names with
  | nil => rfl
  | cons it rest ih =>
    obtain ⟨here, later⟩ := List.forall_mem_cons.mp known
    rw [getStaticIndex]
    split <;> rename_i last
    · have empty : it = [] := List.getLast?_eq_none_iff.mp last
      rw [List.find?_cons_of_pos (here.mpr (Or.inl empty))]
      simp only [if_pos empty]
    · have passed : ¬ stops it = true := by
        rw [here]
        rintro (rfl | ⟨other, _⟩)
        · cases last
        · exact other last
      rw [List.find?_cons_of_neg passed]
      exact ih later
    · have nonempty : it ≠ [] := by
        rintro rfl
        cases last
      have kept : it.getLast? ≠ some '/' := by simp_all
      rcases answer : endpoint (path ++ it) with ⟨r, events⟩
      rw [answer] at here
      by_cases missing : r = .ok none
      · subst missing
        rw [List.find?_cons_of_neg (by simp [here, nonempty])]
        exact ih later
      · rw [List.find?_cons_of_pos (here.mpr (Or.inr ⟨kept, missing⟩))]
        simp only [if_neg nonempty, answer]
        rcases r with e | _ | ep
        · rfl
        · exact absurd rfl missing
        · rfl

/-! ### Both functions -/

theorem answered_iff {k : Nat} {a : Except Fault (Option MEndpoint)}
    (settled : ∀ fuel, (srv.getStaticEndpoint fs (fuel + k) path method host).1 = a)
    (r : Option MEndpoint) : Answered srv fs method host path r ↔ a = .ok r := by
  constructor
  · rintro ⟨n, same⟩
    rw [← settled n]
    exact same (n + k) (Nat.le_add_right n k)
  · intro same
    refine ⟨k, fun fuel deep => ?_⟩
    obtain ⟨m, rfl⟩ := Nat.exists_eq_add_of_le deep
    rw [Nat.add_comm, settled, same]

theorem plain_answered_iff (plain : Plain path) (r : Option MEndpoint) :
    Answered srv fs method host path r ↔ srv.fileAnswer fs method host path = .ok r :=
  answered_iff (k := 1) (fun fuel => getStaticEndpoint_file plain fuel method host) r

/-- A name that is tried makes a path that stands for one file. -/
theorem plain_behind {it : Str} (terminated : '\x00' ∉ it) (nonempty : it ≠ [])
    (kept : it.getLast? ≠ some '/') : Plain (cstr path ++ it) := by
  have whole : cstr (cstr path ++ it) = cstr path ++ it := by
    apply cstr_eq
    rw [List.mem_append, not_or]
    exact ⟨nul_not_mem_cstr path, terminated⟩
  obtain ⟨c, last⟩ := Option.ne_none_iff_exists'.mp (mt List.getLast?_eq_none_iff.mp nonempty)
  refine ⟨c, ?_, ?_⟩
  · rw [whole, List.getLast?_append, last]
    rfl
  · rintro rfl
    exact kept last

def indexAnswer (srv : StaticServer) (fs : FileSystem) (method : Str) (host : Option Str)
    (path : Str) : Except Fault (Option MEndpoint) :=
  match srv.StaticIndexes.find? (srv.stops fs host (cstr path)) with
  | none => .ok none
  | some it => if it = [] then .error .undefined else srv.fileAnswer fs method host (cstr path ++ it)

/-- A name that ends in `/` would lead back here; each of the others takes one call more. -/
theorem getStaticEndpoint_index (terminated : ∀ it ∈ srv.StaticIndexes, '\x00' ∉ it)
    (free : find "..".toList (cstr path) = none) (slash : (cstr path).getLast? = some '/')
    (fuel : Nat) :
    (srv.getStaticEndpoint fs (fuel + 2) path method host).1 =
      indexAnswer srv fs method host path := by
  have each {it : Str} (member : it ∈ srv.StaticIndexes) (nonempty : it ≠ [])
      (kept : it.getLast? ≠ some '/') :
      (srv.getStaticEndpoint fs (fuel + 1) (cstr path ++ it) method host).1 =
        srv.fileAnswer fs method host (cstr path ++ it) :=
    getStaticEndpoint_file (plain_behind (terminated it member) nonempty kept) fuel method host
  rw [getStaticEndpoint_slash free slash, @getStaticIndex_find _ _ (srv.stops fs host (cstr path)),
    indexAnswer]
  · split <;> rename_i found
    · rfl
    · rename_i it
      by_cases empty : it = []
      · rw [if_pos empty, if_pos empty]
      · have stopped := List.find?_some found
        have kept : it.getLast? ≠ some '/' := by simp_all [stops]
        rw [if_neg empty, if_neg empty, each (List.mem_of_find?_eq_some found) empty kept]
  · intro it member
    by_cases empty : it = []
    · simp [stops, empty]
    · by_cases kept : it.getLast? = some '/'
      · simp [stops, empty, kept]
      · simp only [each member empty kept, ne_eq, fileAnswer_none_iff]
        simp [stops, empty, kept, Option.isSome_iff_ne_none]

theorem indexAnswer_first (terminated : ∀ it ∈ srv.StaticIndexes, '\x00' ∉ it)
    {r : Option MEndpoint} (answered : indexAnswer srv fs method host path = .ok r) :
    FirstOf srv fs method host (cstr path) srv.StaticIndexes r := by
  have passed {x : Str} (member : x ∈ srv.StaticIndexes)
      (other : ¬ srv.stops fs host (cstr path) x = true) (kept : x.getLast? ≠ some '/')
      (ep : MEndpoint) : ¬ Answered srv fs method host (cstr path ++ x) (some ep) := by
    have nonempty : x ≠ [] := by
      rintro rfl
      exact other rfl
    have missing : srv.served fs host (cstr path ++ x) = none := by
      simpa [stops, nonempty, kept] using other
    rw [plain_answered_iff (plain_behind (terminated x member) nonempty kept),
      (fileAnswer_none_iff method host).mpr missing]
    simp
  unfold indexAnswer at answered
  split at answered <;> rename_i found
  · obtain rfl := Except.ok.inj answered
    intro x member kept
    exact passed member (List.find?_eq_none.mp found x member) kept
  · rename_i it
    obtain ⟨stopped, before, after, parted, others⟩ := List.find?_eq_some_iff_append.mp found
    split at answered <;> rename_i empty
    · cases answered
    · have tried : it.getLast? ≠ some '/' ∧ (srv.served fs host (cstr path ++ it)).isSome := by
        simpa [stops, empty] using stopped
      have member : it ∈ srv.StaticIndexes := List.mem_of_find?_eq_some found
      cases r with
      | none =>
        rw [fileAnswer_none_iff] at answered
        rw [answered] at tried
        cases tried.2
      | some ep =>
        refine ⟨before, it, after, parted, tried.1, ?_, fun x earlier => ?_⟩
        · exact (plain_answered_iff (plain_behind (terminated it member) empty tried.1) _).mpr answered
        · refine passed ?_ (by simpa using others x earlier)
          rw [parted]
          exact List.mem_append_left _ earlier

theorem indexed_iff_sound (terminated : ∀ it ∈ srv.StaticIndexes, '\x00' ∉ it)
    (nonempty : cstr path ≠ []) : Indexed srv fs method host path ↔ srv.Sound fs host path := by
  unfold Indexed Sound
  by_cases free : find "..".toList (cstr path) = none
  · simp only [free, forall_true_left]
    by_cases slash : (cstr path).getLast? = some '/'
    · have each := answered_iff (k := 2) fun fuel =>
        @getStaticEndpoint_index srv fs method path host terminated free slash fuel
      simp only [slash, forall_true_left, if_true, each]
      constructor
      · rintro ⟨r, answered, _⟩ it found
        rw [indexAnswer, Option.mem_def.mp found] at answered
        dsimp only at answered
        split at answered <;> rename_i empty
        · cases answered
        · exact ⟨empty, (fileAnswer_ok_iff method host).mp ⟨r, answered⟩⟩
      · intro sound
        have comes : ∃ r, indexAnswer srv fs method host path = .ok r := by
          unfold indexAnswer
          split <;> rename_i found
          · exact ⟨none, rfl⟩
          · obtain ⟨empty, ends⟩ := sound _ found
            rw [if_neg empty]
            exact (fileAnswer_ok_iff method host).mpr ends
        obtain ⟨r, answered⟩ := comes
        exact ⟨r, answered, indexAnswer_first terminated answered⟩
    · obtain ⟨c, last⟩ := Option.ne_none_iff_exists'.mp (mt List.getLast?_eq_none_iff.mp nonempty)
      have plain : Plain path := ⟨c, last, fun same => slash (same ▸ last)⟩
      simp only [slash, false_implies, and_true, if_false, plain_answered_iff plain]
      exact fileAnswer_ok_iff method host
  · have refused : Answered srv fs method host path none := by
      refine (answered_iff (k := 1) (fun fuel => ?_) none).mpr rfl
      rw [getStaticEndpoint_dots free]
    exact ⟨fun _ clean => absurd clean free,
      fun _ => ⟨none, refused, fun _ clean => absurd clean free⟩⟩

/-! ### Registered names -/

theorem configure_names_terminated (mimeTypes : List MMimeType)
    (directories : List (Str × Option Str)) (indexes : List Str) :
    ∀ it ∈ (configure mimeTypes directories indexes).StaticIndexes, '\x00' ∉ it := by
  rw [configure_indexes]
  intro it member
  obtain ⟨name, _, rfl⟩ := List.mem_map.mp member
  exact nul_not_mem_cstr name

theorem static_indexed_iff (mimeTypes : List MMimeType) (directories : List (Str × Option Str))
    (indexes : List Str) (fs : FileSystem) (method : Str) (host : Option Str) (path : Str)
    (nonempty : cstr path ≠ []) :
    Indexed (configure mimeTypes directories indexes) fs method host path ↔
      (configure mimeTypes directories indexes).Sound fs host path :=
  indexed_iff_sound (configure_names_terminated mimeTypes directories indexes) nonempty

/-- Behind `/` there is a page for the one name. -/
theorem static_indexed_page :
    Indexed (configure [] [("d".toList, none)] ["a.x".toList]) onePage [] none "/".toList := by
  refine (static_indexed_iff [] _ _ onePage [] none "/".toList (by decide)).mpr fun _ => ?_
  rw [if_pos (by decide)]
  intro it found
  have first : (configure [] [("d".toList, none)] ["a.x".toList]).StaticIndexes.find?
      ((configure [] [("d".toList, none)] ["a.x".toList]).stops onePage none (cstr "/".toList)) =
        some "a.x".toList := by decide
  obtain rfl := Option.some.inj (first.symm.trans found)
  refine ⟨by decide, fun e held => ?_⟩
  have page : (configure [] [("d".toList, none)] ["a.x".toList]).served onePage none
      (cstr "/".toList ++ "a.x".toList) = some (.file "hi".toList) := by decide
  obtain rfl := Option.some.inj (page.symm.trans held)
  decide

/-- An empty name is indexed in front of its first character. -/
theorem static_index_empty :
    ¬ ∀ (mimeTypes : List MMimeType) (directories : List (Str × Option Str)) (indexes : List Str)
      (fs : FileSystem) (method : Str) (host : Option Str) (path : Str), cstr path ≠ [] →
        Indexed (configure mimeTypes directories indexes) fs method host path := by
  intro claim
  have indexed := claim [] [] [[]] onePage [] none "/".toList (by decide)
  have sound := (indexed_iff_sound (configure_names_terminated [] [] [[]]) (by decide)).mp indexed
    (by decide)
  rw [if_pos (by decide)] at sound
  exact (sound [] rfl).1 rfl

end Solusek.Static
