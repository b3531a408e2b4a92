import Solusek.Model.Sample
import Solusek.Proofs.Exchanges
import Solusek.Proofs.RequestFields

/-!
# The callbacks of the sample server

The callbacks only ever add a session, with an ID and values that stay as they are.
-/

namespace Solusek.Sample

open Socket Node Static Transition Session Serve RoundTrip SessionCookies

variable {clock : Nat → Nat} {fs : FileSystem}

/-! ### The callbacks -/

def varsSet (ses : CSession) : Prop :=
  ses.getStringValue "var1".toList = "val1".toList ∧ ses.getStringValue "var2".toList = "val2".toList

/-- No session is ever destroyed, and each one has both variables. -/
structure Stocked (s : SessionTable) : Prop where
  all : s.Sessions = List.range s.heap.length
  vars : ∀ ses ∈ s.heap, varsSet ses

def foundPage : MResponse where
  Code := 200
  Body := "Session found!\n\nvar1 = val1\nvar2 = val2\n".toList

theorem Stocked.getSession_some {s : SessionTable} (stocked : Stocked s) {p : Nat} {id : Str}
    (read : s.idOf p = some id) : ∃ q, s.getSession id = some q := by
  have bound : p < s.heap.length := by
    obtain ⟨ses, here, _⟩ := Option.map_eq_some_iff.mp read
    exact (List.getElem?_eq_some_iff.mp here).1
  rw [← Option.isSome_iff_exists, SessionTable.getSession, List.find?_isSome]
  exact ⟨p, by rw [stocked.all]; exact List.mem_range.mpr bound, beq_iff_eq.mpr read⟩

theorem getSession_id {s : SessionTable} {q : Nat} {id : Str}
    (found : s.getSession id = some q) : s.idOf q = some id :=
  beq_iff_eq.mp (List.find?_some (p := fun p => s.idOf p == some id) found)

theorem Stocked.found {s : SessionTable} (stocked : Stocked s) {data : MRequest} {p : Nat}
    (read : s.idOf p = some data.SID) : (getSessionEndpoint s data).1 = foundPage := by
  obtain ⟨q, found⟩ := stocked.getSession_some read
  obtain ⟨ses, here, _⟩ := Option.map_eq_some_iff.mp (getSession_id found)
  obtain ⟨first, second⟩ := stocked.vars ses (List.mem_of_getElem? here)
  unfold getSessionEndpoint
  rw [found]
  dsimp only
  simp only [SessionTable.getStringValue, here, first, second]
  rfl

end Solusek.Sample
