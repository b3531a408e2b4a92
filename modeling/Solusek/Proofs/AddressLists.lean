import Solusek.Model.Listener

/-!
# Address lists

`clearBlacklist` and `clearWhitelist` call `empty()` and so clear nothing. An address is judged
by every item ever added to a list, in order, and an item whose range ends before its last
number makes the judgement throw unless one in front of it covers the address.
-/

namespace Solusek.Listening

inductive Which where
  | Blacklist
  | Whitelist
  deriving DecidableEq, Repr

inductive Op where
  | add (w : Which) (item : IPAddressItem)
  | clear (w : Which)
  deriving DecidableEq, Repr

def Op.run (s : CNetHandlerSocket) : Op → CNetHandlerSocket
  | add .Blacklist item => s.addBlacklist item
  | add .Whitelist item => s.addWhitelist item
  | clear .Blacklist => s.clearBlacklist
  | clear .Whitelist => s.clearWhitelist

/-- Every item that was added to the list. -/
def added (w : Which) (ops : List Op) : List IPAddressItem :=
  ops.filterMap fun
    | .add v item => if v = w then some item else none
    | .clear _ => none

/-- The items added to the list since it was last cleared. -/
def live (w : Which) (ops : List Op) : List IPAddressItem :=
  ops.foldl (fun items op => match op with
    | .add v item => if v = w then items ++ [item] else items
    | .clear v => if v = w then [] else items) []

def CNetHandlerSocket.list (s : CNetHandlerSocket) : Which → List IPAddressItem
  | .Blacklist => s.Blacklist
  | .Whitelist => s.Whitelist

/-- `isBlacklisted` and `isWhitelisted`. -/
def CNetHandlerSocket.judges (s : CNetHandlerSocket) (addr : Str) : Which → Except Exn Bool
  | .Blacklist => s.isBlacklisted addr
  | .Whitelist => s.isWhitelisted addr

def IPAddressItem.Covers (it : IPAddressItem) (addr : Str) : Prop := it.covers addr = .ok true

def IPAddressItem.Throws (it : IPAddressItem) (addr : Str) : Prop := ∃ e, it.covers addr = .error e

/-- After the calls `ops`, both tests and `accept` follow the items added since the last clear. -/
def FollowsLive (s : CNetHandlerSocket) (ops : List Op) (addr : Str) : Prop :=
  (∀ w, ∃ answer, (ops.foldl Op.run s).judges addr w = .ok answer ∧
    (answer = true ↔ ∃ it ∈ live w ops, it.Covers addr)) ∧
  ∀ contexts hello,
    ((Listener.mk (ops.foldl Op.run s) contexts).accept addr hello).1 = .ok none ↔
      (∃ it ∈ live .Blacklist ops, it.Covers addr) ∧ ¬ ∃ it ∈ live .Whitelist ops, it.Covers addr

/-- No item that has been cleared covers the address alone, and none throws with no item in front of
it that covers the address. -/
structure Unspoiled (w : Which) (ops : List Op) (addr : Str) : Prop where
  cleared : ∀ it ∈ added w ops, it.Covers addr → ∃ it ∈ live w ops, it.Covers addr
  sheltered : ∀ front it back, added w ops = front ++ it :: back → it.Throws addr →
    ∃ it ∈ front, it.Covers addr

/-! ### The lists -/

theorem run_list (s : CNetHandlerSocket) (op : Op) (w : Which) :
    (op.run s).list w = s.list w ++ added w [op] := by
  cases op with
  | add v item => cases v <;> cases w <;> simp [Op.run, added, CNetHandlerSocket.list,
      CNetHandlerSocket.addBlacklist, CNetHandlerSocket.addWhitelist]
  | clear v => cases v <;> cases w <;> simp [Op.run, added, CNetHandlerSocket.list,
      CNetHandlerSocket.clearBlacklist, CNetHandlerSocket.clearWhitelist]

theorem foldl_run_list (s : CNetHandlerSocket) (ops : List Op) (w : Which) :
    (ops.foldl Op.run s).list w = s.list w ++ added w ops := by
  induction ops generalizing s with
  | nil => simp [added]
  | cons op ops ih =>
    have split : added w (op :: ops) = added w [op] ++ added w ops := by
      unfold added
      rw [← List.filterMap_append]
      rfl
    rw [List.foldl_cons, ih, run_list, split, List.append_assoc]

theorem live_suffix (w : Which) (ops : List Op) : live w ops <:+ added w ops := by
  induction ops using List.reverseRecOn with
  | nil => exact List.suffix_rfl
  | append_singleton ops op ih =>
    obtain ⟨cleared, whole⟩ := ih
    unfold live added at whole ⊢
    rw [List.foldl_append, List.filterMap_append, ← whole]
    cases op with
    | add v item =>
      by_cases same : v = w
      · exact ⟨cleared, by simp [same]⟩
      · exact ⟨cleared, by simp [same]⟩
    | clear v =>
      by_cases same : v = w
      · simp only [same, if_true, List.foldl_cons, List.foldl_nil]
        exact List.nil_suffix
      · exact ⟨cleared, by simp [same]⟩

/-! ### Judging an address -/

theorem sheltered_cons {addr : Str} {it : IPAddressItem} {rest : List IPAddressItem} :
    (∀ front x back, it :: rest = front ++ x :: back → x.Throws addr →
      ∃ y ∈ front, y.Covers addr) ↔
    ¬ it.Throws addr ∧ (it.Covers addr ∨ ∀ front x back, rest = front ++ x :: back →
      x.Throws addr → ∃ y ∈ front, y.Covers addr) := by
  constructor
  · intro all
    refine ⟨fun thrown => ?_, or_iff_not_imp_left.mpr fun misses front x back split thrown => ?_⟩
    · obtain ⟨_, member, _⟩ := all [] it rest rfl thrown
      exact absurd member List.not_mem_nil
    · obtain ⟨y, member, covers⟩ := all (it :: front) x back (by rw [split]; rfl) thrown
      rcases List.mem_cons.mp member with rfl | inside
      · exact absurd covers misses
      · exact ⟨y, inside, covers⟩
  · rintro ⟨calm, sheltered⟩ front x back split thrown
    cases front with
    | nil =>
      obtain ⟨rfl, _⟩ := List.cons.inj split
      exact absurd thrown calm
    | cons y front =>
      obtain ⟨rfl, later⟩ := List.cons.inj split
      rcases sheltered with here | behind
      · exact ⟨it, List.mem_cons_self, here⟩
      · obtain ⟨z, member, covers⟩ := behind front x back later thrown
        exact ⟨z, List.mem_cons_of_mem _ member, covers⟩

theorem covered_ok_iff (addr : Str) (items : List IPAddressItem) (answer : Bool) :
    covered addr items = .ok answer ↔ (answer = true ↔ ∃ it ∈ items, it.Covers addr) ∧
      ∀ front it back, items = front ++ it :: back → it.Throws addr →
        ∃ it ∈ front, it.Covers addr := by
  induction items with
  | nil => cases answer <;> simp [covered]
  | cons it rest ih =>
    rw [covered, sheltered_cons]
    cases judged : it.covers addr with
    | error e =>
      have thrown : it.Throws addr := ⟨e, judged⟩
      simp [thrown]
    | ok hit =>
      have calm : ¬ it.Throws addr := by
        rintro ⟨e, thrown⟩
        rw [judged] at thrown
        cases thrown
      have same : it.Covers addr ↔ hit = true := by simp [IPAddressItem.Covers, judged]
      cases hit with
      | true => simp [calm, same, eq_comm]
      | false => simpa [calm, same] using ih

theorem judges_eq (s : CNetHandlerSocket) (addr : Str) (w : Which) :
    s.judges addr w = covered addr (s.list w) := by
  cases w <;> rfl

/-- The answer is that of the live items exactly if no other item spoils it. -/
theorem judges_iff {s : CNetHandlerSocket} {w : Which} (fresh : s.list w = []) (ops : List Op)
    (addr : Str) :
    (∃ answer, (ops.foldl Op.run s).judges addr w = .ok answer ∧
      (answer = true ↔ ∃ it ∈ live w ops, it.Covers addr)) ↔ Unspoiled w ops addr := by
  rw [judges_eq, foldl_run_list, fresh, List.nil_append]
  simp only [covered_ok_iff]
  constructor
  · rintro ⟨answer, ⟨all, sheltered⟩, alive⟩
    refine ⟨fun it member covers => alive.mp (all.mpr ⟨it, member, covers⟩), sheltered⟩
  · rintro ⟨cleared, sheltered⟩
    have same : (∃ it ∈ added w ops, it.Covers addr) ↔ ∃ it ∈ live w ops, it.Covers addr := by
      constructor
      · rintro ⟨it, member, covers⟩
        exact cleared it member covers
      · rintro ⟨it, member, covers⟩
        exact ⟨it, (live_suffix w ops).subset member, covers⟩
    by_cases hit : ∃ it ∈ live w ops, it.Covers addr
    · exact ⟨true, ⟨iff_of_true rfl (same.mpr hit), sheltered⟩, iff_of_true rfl hit⟩
    · exact ⟨false, ⟨iff_of_false nofun (mt same.mp hit), sheltered⟩, iff_of_false nofun hit⟩

theorem accept_none_iff (l : Listener) (addr : Str) (hello : Option Str) :
    (l.accept addr hello).1 = .ok none ↔ l.socket.refuses addr = .ok true := by
  unfold Listener.accept
  split <;> rename_i refused <;> simp [refused]

theorem refuses_iff {s : CNetHandlerSocket} {addr : Str} {black white : Bool}
    (blacklisted : s.isBlacklisted addr = .ok black) (whitelisted : s.isWhitelisted addr = .ok white) :
    s.refuses addr = .ok true ↔ black = true ∧ ¬ white = true := by
  unfold CNetHandlerSocket.refuses
  rw [whitelisted]
  cases white with
  | true => simp [bind, Except.bind, pure, Except.pure]
  | false => simp [bind, Except.bind, blacklisted]

/-! ### Connections after any calls -/

/-- Both tests and `accept` follow the items added since the last clear exactly if, on either
list, the items that have been cleared cover no other addresses than those, and an item that throws
stands behind one that covers the address. -/
theorem follows_live_iff (ssl sslMutual : Bool) (ctx : Option SSL_CTX) (ipaddr : Str)
    (ops : List Op) (addr : Str) :
    FollowsLive (.new ssl sslMutual ctx ipaddr) ops addr ↔ ∀ w, Unspoiled w ops addr := by
  have fresh : ∀ w, (CNetHandlerSocket.new ssl sslMutual ctx ipaddr).list w = [] := by
    intro w
    cases w <;> rfl
  constructor
  · intro follows w
    exact (judges_iff (fresh w) ops addr).mp (follows.1 w)
  · intro unspoiled
    have judged w := (judges_iff (fresh w) ops addr).mpr (unspoiled w)
    refine ⟨judged, fun contexts hello => ?_⟩
    obtain ⟨black, blacklisted, blackLive⟩ := judged .Blacklist
    obtain ⟨white, whitelisted, whiteLive⟩ := judged .Whitelist
    rw [accept_none_iff, ← blackLive, ← whiteLive]
    exact refuses_iff blacklisted whitelisted

/-- An address stays refused after `clearBlacklist`. -/
theorem cleared_refused : ¬ ∀ (ops : List Op) (addr : Str),
    FollowsLive (.new false false none []) ops addr := by
  intro claim
  let ops : List Op := [.add .Blacklist { Addr := "1.2.3.4".toList }, .clear .Blacklist]
  obtain ⟨answer, judged, alive⟩ := (claim ops "1.2.3.4".toList).1 .Blacklist
  have blacklisted : answer = true := (Except.ok.inj judged).symm
  obtain ⟨it, member, _⟩ := alive.mp blacklisted
  exact absurd member List.not_mem_nil

end Solusek.Listening
