import Solusek.Lib.Texts
import Solusek.Proofs.ClientHistory

/-!
# The fields of a request

The client's map holds its headers under the exact spelling of their names, "Content-type" being
set from the start, and `runRequest` adds Host and Content-length by itself. So a field is written
twice where its name is spelled in two ways, or is one of the two that are added.
-/

namespace Solusek.Setup

/-! ### Calls -/

/-- A call of `setHeader` with the value, or of `removeHeader`. -/
abbrev HeaderCall := Str × Option Str

def HeaderCall.op : HeaderCall → Op
  | (name, some val) => .setHeader name val
  | (name, none) => .removeHeader name

/-- A fresh client after the calls. -/
def withHeaders (calls : List HeaderCall) : CClient := after (calls.map HeaderCall.op)

/-- What the constructor sets counts as the first call. -/
def allCalls (calls : List HeaderCall) : List HeaderCall :=
  ("Content-type".toList, some "application/json".toList) :: calls

def sameName (m n : Str) : Bool := decide (m.map Char.toLower = n.map Char.toLower)

/-- The last call whose name passes the test. -/
def lastCall (p : Str → Bool) (calls : List HeaderCall) : Option HeaderCall :=
  (allCalls calls).reverse.find? fun c => p c.1

/-! ### Fields -/

/-- The fields that are written. -/
def fields (calls : List HeaderCall) (host body : Str) : List (Str × Str) :=
  ("Host".toList, host) :: (withHeaders calls).AdditionalHeaders.entries ++
    if body.length > 0 then [("Content-length".toList, printNat body.length)] else []

/-- The fields of these that no call has set. -/
def added (host body : Str) : List (Str × Str) :=
  ("Host".toList, host) ::
    if body.length > 0 then [("Content-length".toList, printNat body.length)] else []

def requestText (Method path : Str) (fields : List (Str × Str)) : Str :=
  Method ++ " ".toList ++ path ++ " HTTP/1.1".toList ++ "\r\n".toList ++
    fields.flatMap (fun f => f.1 ++ ": ".toList ++ f.2 ++ "\r\n".toList) ++ "\r\n".toList

/-- Among the fields no name stands twice, a name that was set or removed has the last value, or
none, and any other field is one of those added. -/
structure Kept (calls : List HeaderCall) (host body : Str) (fields : List (Str × Str)) : Prop where
  once : (fields.map fun f => f.1.map Char.toLower).Nodup
  last : ∀ name call, lastCall (sameName · name) calls = some call →
    (fields.filter (sameName ·.1 name)).map Prod.snd = call.2.toList
  only : ∀ f ∈ fields, lastCall (sameName · f.1) calls = none → f ∈ added host body

theorem requestHead_fields (calls : List HeaderCall) (host path body : Str) :
    (withHeaders calls).toCClient.requestHead host path body =
      requestText (withHeaders calls).Method path (fields calls host body) := by
  unfold Client.CClient.requestHead requestText fields
  have entries (l : List (Str × Str)) (data : Str) :
      l.foldl (fun data it => data ++ it.1 ++ ": ".toList ++ it.2 ++ "\r\n".toList) data =
        data ++ l.flatMap fun f => f.1 ++ ": ".toList ++ f.2 ++ "\r\n".toList := by
    induction l generalizing data with
    | nil => simp
    | cons it l ih =>
      rw [List.foldl_cons, ih, List.flatMap_cons]
      simp only [List.append_assoc]
  simp only [entries]
  split <;> simp

/-! ### The map -/

theorem mem_set {m : StdMap} {name val n v : Str} :
    (n, v) ∈ (m.set name val).entries ↔ if n = name then v = val else (n, v) ∈ m.entries := by
  unfold StdMap.set
  simp only [List.mem_append, List.mem_cons, List.mem_filter, decide_eq_true_iff, Prod.mk.injEq]
  rcases lt_trichotomy n name with below | same | above
  · simp [below, below.ne, below.not_gt]
  · simp [same]
  · simp [above, above.ne', above.not_gt]

theorem mem_erase {m : StdMap} {name n v : Str} :
    (n, v) ∈ (m.erase name).entries ↔ n ≠ name ∧ (n, v) ∈ m.entries := by
  unfold StdMap.erase
  simp [and_comm]

theorem lastCall_snoc (p : Str → Bool) (calls : List HeaderCall) (call : HeaderCall) :
    lastCall p (calls ++ [call]) = if p call.1 then some call else lastCall p calls := by
  unfold lastCall allCalls
  rw [← List.cons_append]
  exact Texts.find?_reverse_snoc _ _ _

theorem mem_single (n v name val : Str) : (name, val) ∈ (StdMap.empty.set n v).entries ↔
    [(n, some v)].find? (fun c => decide (c.1 = name)) = some (name, some val) := by
  rw [mem_set, List.find?_singleton]
  by_cases same : n = name
  · simp [same, eq_comm]
  · simp [same, Ne.symm same, StdMap.empty]

theorem mem_entries (calls : List HeaderCall) (name val : Str) :
    (name, val) ∈ (withHeaders calls).AdditionalHeaders.entries ↔
      lastCall (fun n => decide (n = name)) calls = some (name, some val) := by
  induction calls using List.reverseRecOn with
  | nil =>
    exact mem_single _ _ name val
  | append_singleton calls call ih =>
    have step : (withHeaders (calls ++ [call])).AdditionalHeaders =
        (call.op.run (withHeaders calls)).AdditionalHeaders := by
      rw [withHeaders, List.map_append, List.map_singleton, after_snoc]
      rfl
    rw [step, lastCall_snoc]
    obtain ⟨n, _ | v⟩ := call
    · refine mem_erase.trans ?_
      by_cases same : n = name
      · simp [same]
      · simp [same, Ne.symm same, ih]
    · refine mem_set.trans ?_
      by_cases same : n = name
      · simp [same, eq_comm]
      · simp [same, Ne.symm same, ih]

/-! ### Names in any spelling -/

theorem sameName_iff {m n : Str} :
    sameName m n = true ↔ m.map Char.toLower = n.map Char.toLower := decide_eq_true_iff

theorem mem_of_lastCall {calls : List HeaderCall} {name s v : Str}
    (last : lastCall (sameName · name) calls = some (s, some v)) :
    (s, v) ∈ (withHeaders calls).AdditionalHeaders.entries ∧ sameName s name = true := by
  have named := List.find?_some last
  refine ⟨(mem_entries calls s v).mpr ?_, named⟩
  refine Texts.find?_stronger last (decide_eq_true rfl) fun call spelled => ?_
  rw [show call.1 = s from of_decide_eq_true spelled]
  exact named

theorem lastCall_of_mem {calls : List HeaderCall} {name : Str} {call : HeaderCall}
    (member : call ∈ allCalls calls) (named : sameName call.1 name = true) :
    ∃ last, lastCall (sameName · name) calls = some last := by
  refine Option.isSome_iff_exists.mp (List.find?_isSome.mpr ⟨call, ?_, named⟩)
  exact List.mem_reverse.mpr member

theorem lastCall_mem {calls : List HeaderCall} {p : Str → Bool} {call : HeaderCall}
    (last : lastCall p calls = some call) : call ∈ allCalls calls ∧ p call.1 = true := by
  unfold lastCall at last
  have passed := List.find?_some last
  exact ⟨List.mem_reverse.mp (List.mem_of_find?_eq_some last), passed⟩

theorem lastCall_congr (calls : List HeaderCall) {m n : Str} (same : sameName m n = true) :
    lastCall (sameName · m) calls = lastCall (sameName · n) calls := by
  unfold sameName at same ⊢
  rw [of_decide_eq_true same]

/-- A header that is set in one spelling was not set or removed later in another one. -/
def OneSpelling (calls : List HeaderCall) : Prop :=
  ∀ s v, lastCall (fun n => decide (n = s)) calls = some (s, some v) →
    lastCall (sameName · s) calls = some (s, some v)

/-- No call has the name of a field that `runRequest` adds. -/
def NoneAdded (calls : List HeaderCall) (body : Str) : Prop :=
  ∀ call ∈ calls, sameName call.1 "Host".toList = false ∧
    (body ≠ [] → sameName call.1 "Content-length".toList = false)

section

variable {calls : List HeaderCall} {host body : Str}

theorem NoneAdded.all (none : NoneAdded calls body) {call : HeaderCall}
    (member : call ∈ allCalls calls) : sameName call.1 "Host".toList = false ∧
      (body ≠ [] → sameName call.1 "Content-length".toList = false) := by
  rcases List.mem_cons.mp member with rfl | later
  · exact ⟨by decide, fun _ => by decide⟩
  · exact none call later

theorem entry_called {f : Str × Str}
    (member : f ∈ (withHeaders calls).AdditionalHeaders.entries) :
    (f.1, some f.2) ∈ allCalls calls :=
  (lastCall_mem ((mem_entries calls f.1 f.2).mp member)).1

theorem entries_nodup : (withHeaders calls).AdditionalHeaders.entries.Nodup :=
  (withHeaders calls).AdditionalHeaders.sorted.imp fun below same => by
    rw [same] at below
    exact lt_irrefl _ below

theorem mem_fields {f : Str × Str} : f ∈ fields calls host body ↔
    f = ("Host".toList, host) ∨ f ∈ (withHeaders calls).AdditionalHeaders.entries ∨
      body ≠ [] ∧ f = ("Content-length".toList, printNat body.length) := by
  unfold fields
  rw [List.cons_append, List.mem_cons, List.mem_append]
  refine or_congr_right (or_congr_right ?_)
  split <;> rename_i size
  · rw [List.mem_singleton, and_iff_right (List.length_pos_iff.mp size)]
  · have empty : body = [] := by simpa using size
    simp [empty]

/-! ### One spelling of each name -/

theorem OneSpelling.unique (one : OneSpelling calls) {f g : Str × Str}
    (first : f ∈ (withHeaders calls).AdditionalHeaders.entries)
    (second : g ∈ (withHeaders calls).AdditionalHeaders.entries)
    (same : sameName f.1 g.1 = true) : f = g := by
  have left := one f.1 f.2 ((mem_entries calls f.1 f.2).mp first)
  have right := one g.1 g.2 ((mem_entries calls g.1 g.2).mp second)
  rw [lastCall_congr calls same, right] at left
  obtain ⟨name, value⟩ := Prod.mk.inj (Option.some.inj left)
  exact (Prod.ext name (Option.some.inj value)).symm

theorem fields_once (one : OneSpelling calls) (none : NoneAdded calls body) :
    ((fields calls host body).map fun f => f.1.map Char.toLower).Nodup := by
  unfold fields
  rw [List.cons_append, List.map_cons, List.map_append, List.nodup_cons, List.nodup_append]
  refine ⟨fun again => ?_, ?_, ?_, ?_⟩
  · rcases List.mem_append.mp again with inside | length
    · obtain ⟨f, member, same⟩ := List.mem_map.mp inside
      exact absurd (sameName_iff.mpr same) (by rw [(none.all (entry_called member)).1]; decide)
    · split at length
      · have same : "Host".toList.map Char.toLower = "Content-length".toList.map Char.toLower :=
          List.mem_singleton.mp length
        exact absurd same (by decide)
      · exact nomatch length
  · refine entries_nodup.map_on fun f first g second same => ?_
    exact one.unique first second (sameName_iff.mpr same)
  · split
    · exact List.nodup_singleton _
    · exact List.nodup_nil
  · intro m inside n length same
    obtain ⟨f, member, rfl⟩ := List.mem_map.mp inside
    split at length <;> rename_i size
    · rw [List.mem_singleton.mp length] at same
      have apart := (none.all (entry_called member)).2 (List.length_pos_iff.mp size)
      exact absurd (sameName_iff.mpr same) (by rw [apart]; decide)
    · exact nomatch length

theorem entries_named (one : OneSpelling calls) {name : Str} {call : HeaderCall}
    (last : lastCall (sameName · name) calls = some call) (f : Str × Str) :
    f ∈ (withHeaders calls).AdditionalHeaders.entries.filter (sameName ·.1 name) ↔
      some f.2 = call.2 ∧ f.1 = call.1 := by
  rw [List.mem_filter]
  constructor
  · rintro ⟨member, named⟩
    have same := one f.1 f.2 ((mem_entries calls f.1 f.2).mp member)
    rw [lastCall_congr calls named, last] at same
    rw [Option.some.inj same]
    exact ⟨rfl, rfl⟩
  · rintro ⟨value, spelled⟩
    rw [show call = (f.1, some f.2) from Prod.ext spelled.symm value.symm] at last
    exact mem_of_lastCall last

theorem fields_last (one : OneSpelling calls) (none : NoneAdded calls body) {name : Str}
    {call : HeaderCall} (last : lastCall (sameName · name) calls = some call) :
    ((fields calls host body).filter (sameName ·.1 name)).map Prod.snd = call.2.toList := by
  obtain ⟨member, named⟩ := lastCall_mem last
  obtain ⟨apart, apart'⟩ := none.all member
  have away {added : Str} (other : sameName call.1 added = false) :
      sameName added name = false := by
    rw [← Bool.not_eq_true, sameName_iff] at other ⊢
    exact fun same => other ((sameName_iff.mp named).trans same.symm)
  have behind : (if body.length > 0 then [("Content-length".toList, printNat body.length)]
      else []).filter (sameName ·.1 name) = [] := by
    split <;> rename_i size
    · have other := away (apart' (List.length_pos_iff.mp size))
      rw [List.filter_singleton, other]
      rfl
    · rfl
  have entries := entries_named one last
  unfold fields
  rw [List.cons_append, List.filter_cons_of_neg (by rw [away apart]; decide), List.filter_append,
    behind, List.append_nil]
  obtain ⟨s, _ | v⟩ := call
  · rw [List.eq_nil_iff_forall_not_mem.mpr fun f inside => nomatch ((entries f).mp inside).1]
    rfl
  · have only : (withHeaders calls).AdditionalHeaders.entries.filter (sameName ·.1 name) =
        [(s, v)] := by
      refine List.perm_singleton.mp ((List.perm_ext_iff_of_nodup (entries_nodup.filter _)
        (List.nodup_singleton _)).mpr fun f => ?_)
      rw [entries f, List.mem_singleton, Option.some_inj, Prod.ext_iff, and_comm]
    rw [only]
    rfl

theorem fields_only {f : Str × Str} (member : f ∈ fields calls host body)
    (uncalled : lastCall (sameName · f.1) calls = none) : f ∈ added host body := by
  rcases mem_fields.mp member with rfl | held | ⟨filled, rfl⟩
  · exact List.mem_cons_self
  · obtain ⟨last, called⟩ := lastCall_of_mem (entry_called held) (sameName_iff.mpr rfl)
    exact nomatch uncalled.symm.trans called
  · refine List.mem_cons_of_mem _ ?_
    rw [if_pos (List.length_pos_iff.mpr filled)]
    exact List.mem_cons_self

theorem added_fields {f : Str × Str} (member : f ∈ added host body) :
    f ∈ fields calls host body := by
  unfold added at member
  rcases List.mem_cons.mp member with rfl | length
  · exact mem_fields.mpr (.inl rfl)
  · exact List.mem_cons_of_mem _ (List.mem_append_right _ length)

/-! ### What a name of two spellings leads to -/

theorem Kept.apart (kept : Kept calls host body (fields calls host body)) {call : HeaderCall}
    (member : call ∈ allCalls calls) {f : Str × Str} (field : f ∈ fields calls host body)
    (other : f ∉ (withHeaders calls).AdditionalHeaders.entries) :
    sameName call.1 f.1 = false := by
  by_contra named
  obtain ⟨⟨s, o⟩, last⟩ := lastCall_of_mem member (Bool.not_eq_false _ ▸ named)
  have told := kept.last f.1 _ last
  have inside : f ∈ (fields calls host body).filter (sameName ·.1 f.1) :=
    List.mem_filter.mpr ⟨field, sameName_iff.mpr rfl⟩
  cases o with
  | none =>
    rw [List.map_eq_nil_iff.mp told] at inside
    exact nomatch inside
  | some v =>
    obtain ⟨held, same⟩ := mem_of_lastCall last
    have equal := List.inj_on_of_nodup_map kept.once (mem_fields.mpr (.inr (.inl held))) field
      (sameName_iff.mp same)
    exact other (equal ▸ held)

theorem Kept.noneAdded (kept : Kept calls host body (fields calls host body)) :
    NoneAdded calls body := by
  have once : (fields calls host body).Nodup := kept.once.of_map _
  unfold fields at once
  rw [List.cons_append, List.nodup_cons, List.mem_append, not_or, List.nodup_append] at once
  obtain ⟨⟨first, _⟩, _, _, disjoint⟩ := once
  intro call member
  have called : call ∈ allCalls calls := List.mem_cons_of_mem _ member
  refine ⟨kept.apart called (mem_fields.mpr (.inl rfl)) first, fun filled => ?_⟩
  refine kept.apart called (mem_fields.mpr (.inr (.inr ⟨filled, rfl⟩))) fun inside => ?_
  refine disjoint _ inside _ ?_ rfl
  rw [if_pos (List.length_pos_iff.mpr filled)]
  exact List.mem_cons_self

theorem Kept.oneSpelling (kept : Kept calls host body (fields calls host body)) :
    OneSpelling calls := by
  intro s v spelled
  have held := (mem_entries calls s v).mpr spelled
  have field : (s, v) ∈ fields calls host body := mem_fields.mpr (.inr (.inl held))
  obtain ⟨⟨s', o⟩, last⟩ := lastCall_of_mem (entry_called held) (sameName_iff.mpr rfl)
  have told := kept.last s _ last
  cases o with
  | none =>
    have inside : (s, v) ∈ (fields calls host body).filter (sameName ·.1 s) :=
      List.mem_filter.mpr ⟨field, sameName_iff.mpr rfl⟩
    rw [List.map_eq_nil_iff.mp told] at inside
    exact nomatch inside
  | some v' =>
    obtain ⟨held', same⟩ := mem_of_lastCall last
    have equal := List.inj_on_of_nodup_map kept.once (mem_fields.mpr (.inr (.inl held'))) field
      (sameName_iff.mp same)
    obtain ⟨rfl, rfl⟩ := Prod.mk.inj equal
    exact last

/-- The fields written are right exactly where no call names one that is added, and no name is
left set in one spelling behind a later call that spells it in another way. -/
theorem kept_iff : Kept calls host body (fields calls host body) ↔
    NoneAdded calls body ∧ OneSpelling calls := by
  constructor
  · exact fun kept => ⟨kept.noneAdded, kept.oneSpelling⟩
  · rintro ⟨none, one⟩
    exact ⟨fields_once one none, fun _ _ => fields_last one none, fun _ => fields_only⟩

end

end Solusek.Setup
