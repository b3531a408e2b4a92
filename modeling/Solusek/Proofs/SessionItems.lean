import Solusek.Lib.Texts
import Solusek.Model.Session

/-!
# The values of a session

`setStringValue` pushes the `CVarVal` of a name that is there already once more. So reads are
right over any calls, and the list holds a pointer as often as its name has been set.
-/

namespace Solusek.Session.CSession

/-- The session after these calls of `setStringValue`, each a name and a value. -/
def stored (ses : CSession) (calls : List (Str × Str)) : CSession :=
  calls.foldl (fun ses call => ses.setStringValue call.1 call.2) ses

/-- The value of the last call with this name. -/
def lastValue (calls : List (Str × Str)) (name : Str) : Option Str :=
  (calls.reverse.find? (·.1 == name)).map (·.2)

def nameOf (ses : CSession) (vv : Nat) : Option Str := (ses.heap[vv]?).map (·.Var)

/-- The session answers every name with its last value, lists one entry for each name that was
set and no pointer twice, and its destructor deletes every `CVarVal` once. -/
structure Mapped (ses : CSession) (calls : List (Str × Str)) : Prop where
  values : ∀ name, ses.getStringValue name = (lastValue calls name).getD []
  entries : ∀ name, (ses.Items.map ses.nameOf).count (some name) =
    if name ∈ calls.map Prod.fst then 1 else 0
  pointers : ses.Items.Nodup
  deleted : ∀ vv < ses.heap.length, ses.destructor.count vv = 1

/-! ### Any calls -/

/-- Every call has pushed an item with its name, and every name has one `CVarVal`. -/
structure Held (ses : CSession) (calls : List (Str × Str)) : Prop where
  names : ses.Items.map ses.nameOf = calls.map fun call => some call.1
  distinct : (ses.heap.map (·.Var)).Nodup
  listed : ∀ vv < ses.heap.length, vv ∈ ses.Items
  values : ∀ it ∈ ses.heap, lastValue calls it.Var = some it.Val

theorem lastValue_snoc (calls : List (Str × Str)) (name value other : Str) :
    lastValue (calls ++ [(name, value)]) other =
      if name = other then some value else lastValue calls other := by
  unfold lastValue
  rw [Texts.find?_reverse_snoc]
  by_cases same : name = other
  · simp [same]
  · have apart : (name == other) = false := by simpa using same
    simp [apart, same]

theorem get_eq (ses : CSession) (name : Str) :
    ses.get name = ses.Items.find? fun vv => ses.nameOf vv == some name := rfl

theorem get_some {ses : CSession} {name : Str} {vv : Nat} (found : ses.get name = some vv) :
    vv ∈ ses.Items ∧ ∃ it, ses.heap[vv]? = some it ∧ it.Var = name := by
  rw [get_eq] at found
  have named : ses.nameOf vv = some name := by
    have test := List.find?_some found
    exact eq_of_beq test
  obtain ⟨it, here, same⟩ := Option.map_eq_some_iff.mp named
  exact ⟨List.mem_of_find?_eq_some found, it, here, same⟩

section

variable {ses : CSession} {calls : List (Str × Str)}

theorem Held.get_none (held : Held ses calls) {name : Str} (missed : ses.get name = none) :
    name ∉ ses.heap.map (·.Var) := by
  intro member
  obtain ⟨it, inside, same⟩ := List.mem_map.mp member
  obtain ⟨vv, bound, here⟩ := List.mem_iff_getElem.mp inside
  rw [get_eq] at missed
  have named : ses.nameOf vv = some name := by
    unfold nameOf
    rw [List.getElem?_eq_getElem bound, here, Option.map_some, same]
  exact List.find?_eq_none.mp missed vv (held.listed vv bound) (beq_iff_eq.mpr named)

theorem Held.place_inj (held : Held ses calls) {a b : Nat} {it other : CVarVal}
    (first : ses.heap[a]? = some it) (second : ses.heap[b]? = some other)
    (same : it.Var = other.Var) : a = b := by
  obtain ⟨bound, _⟩ := List.getElem?_eq_some_iff.mp first
  refine (List.getElem?_inj ?_ held.distinct).mp ?_
  · rwa [List.length_map]
  · rw [List.getElem?_map, List.getElem?_map, first, second, Option.map_some, same]
    rfl

/-! ### One call -/

theorem set_names {vv : Nat} {old : CVarVal} (here : ses.heap[vv]? = some old) (value : Str) :
    (ses.heap.set vv ⟨old.Var, value⟩).map (·.Var) = ses.heap.map (·.Var) := by
  refine List.ext_getElem? fun k => ?_
  rw [List.getElem?_map, List.getElem?_map, List.getElem?_set]
  by_cases same : vv = k
  · obtain ⟨bound, _⟩ := List.getElem?_eq_some_iff.mp here
    rw [if_pos same, ← same, if_pos bound, here]
    rfl
  · rw [if_neg same]

theorem Held.set_old (held : Held ses calls) {vv : Nat} {old : CVarVal}
    (found : ses.get old.Var = some vv) (here : ses.heap[vv]? = some old) (value : Str) :
    Held (ses.setStringValue old.Var value) (calls ++ [(old.Var, value)]) := by
  have vars := set_names here value
  have set : ses.setStringValue old.Var value =
      { ses with heap := ses.heap.set vv ⟨old.Var, value⟩, Items := ses.Items ++ [vv] } := by
    simp only [setStringValue, found]
  have kept : (ses.setStringValue old.Var value).nameOf = ses.nameOf := by
    funext other
    rw [set]
    unfold nameOf
    rw [← List.getElem?_map, ← List.getElem?_map, vars]
  refine ⟨?_, ?_, fun other inside => ?_, fun it member => ?_⟩
  · rw [kept, set, List.map_append, held.names]
    simp [nameOf, here]
  · rw [set]
    exact vars ▸ held.distinct
  · rw [set] at inside ⊢
    rw [List.length_set] at inside
    exact List.mem_append_left _ (held.listed other inside)
  · rw [set] at member
    obtain ⟨place, there⟩ := List.mem_iff_getElem?.mp member
    rw [List.getElem?_set] at there
    rw [lastValue_snoc]
    by_cases own : vv = place
    · obtain ⟨bound, _⟩ := List.getElem?_eq_some_iff.mp here
      rw [if_pos own, if_pos bound] at there
      rw [← Option.some.inj there, if_pos rfl]
    · rw [if_neg own] at there
      rw [if_neg fun same => own (held.place_inj here there same)]
      exact held.values it (List.mem_of_getElem? there)

theorem Held.set_new (held : Held ses calls) {name : Str} (missed : ses.get name = none)
    (value : Str) : Held (ses.setStringValue name value) (calls ++ [(name, value)]) := by
  have absent := held.get_none missed
  have set : ses.setStringValue name value =
      { ses with heap := ses.heap ++ [⟨name, value⟩], Items := ses.Items ++ [ses.heap.length] } := by
    simp only [setStringValue, missed]
  have kept : ∀ vv ∈ ses.Items,
      (ses.setStringValue name value).nameOf vv = ses.nameOf vv := by
    intro vv member
    have named : ses.nameOf vv ∈ calls.map fun call => some call.1 := by
      rw [← held.names]
      exact List.mem_map_of_mem member
    obtain ⟨call, _, same⟩ := List.mem_map.mp named
    obtain ⟨it, here, _⟩ := Option.map_eq_some_iff.mp same.symm
    obtain ⟨bound, _⟩ := List.getElem?_eq_some_iff.mp here
    rw [set]
    unfold nameOf
    rw [List.getElem?_append_left bound]
  refine ⟨?_, ?_, fun other inside => ?_, fun it member => ?_⟩
  · rw [set, List.map_append, ← set, List.map_congr_left kept, held.names]
    simp [set, nameOf]
  · rw [set, List.map_append]
    refine List.nodup_append.mpr ⟨held.distinct, List.nodup_singleton _, ?_⟩
    intro other old fresh new same
    have equal : other = name := same.trans (List.mem_singleton.mp new)
    exact absent (equal ▸ old)
  · rw [set] at inside ⊢
    rw [List.length_append, List.length_singleton] at inside
    rcases Nat.lt_succ_iff_lt_or_eq.mp inside with old | new
    · exact List.mem_append_left _ (held.listed other old)
    · exact List.mem_append_right _ (List.mem_singleton.mpr new)
  · rw [set] at member
    rw [lastValue_snoc]
    rcases List.mem_append.mp member with old | new
    · have apart : name ≠ it.Var := fun same => absent (same ▸ List.mem_map_of_mem old)
      rw [if_neg apart]
      exact held.values it old
    · rw [List.mem_singleton.mp new, if_pos rfl]

theorem Held.set (held : Held ses calls) (name value : Str) :
    Held (ses.setStringValue name value) (calls ++ [(name, value)]) := by
  cases found : ses.get name with
  | none => exact held.set_new found value
  | some vv =>
    obtain ⟨_, old, here, rfl⟩ := get_some found
    exact held.set_old found here value

end

/-! ### A new session -/

theorem stored_held (now Incremental : Nat) (calls : List (Str × Str)) :
    Held ((CSession.new now Incremental).1.stored calls) calls := by
  induction calls using List.reverseRecOn with
  | nil => constructor <;> simp [stored, CSession.new]
  | append_singleton calls call ih =>
    unfold stored at ih ⊢
    rw [List.foldl_append]
    exact ih.set call.1 call.2

theorem Held.values_last {ses : CSession} {calls : List (Str × Str)} (held : Held ses calls)
    (name : Str) : ses.getStringValue name = (lastValue calls name).getD [] := by
  unfold getStringValue
  cases found : ses.get name with
  | some vv =>
    obtain ⟨_, it, here, rfl⟩ := get_some found
    simp [here, held.values it (List.mem_of_getElem? here)]
  | none =>
    have unset : lastValue calls name = none := by
      unfold lastValue
      rw [Option.map_eq_none_iff, List.find?_eq_none]
      intro call member same
      have named : some name ∈ ses.Items.map ses.nameOf := by
        rw [held.names]
        exact List.mem_map.mpr ⟨call, List.mem_reverse.mp member, by rw [eq_of_beq same]⟩
      obtain ⟨vv, inside, here⟩ := List.mem_map.mp named
      rw [get_eq] at found
      exact List.find?_eq_none.mp found vv inside (beq_iff_eq.mpr here)
    rw [unset]
    rfl

/-- The list of a session holds one entry for each name, and its destructor deletes each
`CVarVal` once, exactly if no name has been set twice. -/
theorem items_mapped_iff (now Incremental : Nat) (calls : List (Str × Str)) :
    Mapped ((CSession.new now Incremental).1.stored calls) calls ↔
      (calls.map Prod.fst).Nodup := by
  have held := stored_held now Incremental calls
  generalize (CSession.new now Incremental).1.stored calls = ses at held
  have names : ses.Items.map ses.nameOf = (calls.map Prod.fst).map some := by
    rw [held.names, List.map_map]
    rfl
  have counted (name : Str) : (ses.Items.map ses.nameOf).count (some name) =
      (calls.map Prod.fst).count name := by
    rw [names]
    exact List.count_map_of_injective _ _ (Option.some_injective Str) name
  constructor
  · intro mapped
    refine List.nodup_iff_count_le_one.mpr fun name => ?_
    rw [← counted, mapped.entries]
    split <;> omega
  · intro once
    have pointers : ses.Items.Nodup := by
      refine List.Nodup.of_map ses.nameOf ?_
      rw [names]
      exact once.map (Option.some_injective Str)
    refine ⟨held.values_last, fun name => ?_, pointers, fun vv inside => ?_⟩
    · rw [counted, once.count]
    · exact List.count_eq_one_of_mem pointers (held.listed vv inside)

/-- One name set twice: its `CVarVal` is deleted twice. -/
theorem deleted_again : ¬ ∀ (now Incremental : Nat) (calls : List (Str × Str)),
    Mapped ((CSession.new now Incremental).1.stored calls) calls := by
  intro claim
  have mapped := claim 1700000000 0 [("a".toList, "1".toList), ("a".toList, "2".toList)]
  exact absurd (mapped.deleted 0 (by decide)) (by decide)

end Solusek.Session.CSession
