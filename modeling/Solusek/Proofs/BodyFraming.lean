import Solusek.Proofs.NodeInput

/-!
# The frame of a body

`readBody` asks for 1024 bytes whatever remains of the body, and appends what it gets as a C
string. So a NUL byte is lost with what follows it in its read, and a read that goes beyond the
body adds to it up to the next NUL.
-/

namespace Solusek.Node

open Socket

/-- Some read of 1024 bytes, or none yet, ends behind the first `n` bytes. -/
inductive EndsAt (net : Net) : Str → Nat → Prop where
  | here (rx : Str) : EndsAt net rx 0
  | later {rx buf rest : Str} {n : Nat} : net.readBuffer rx 1024 = .ok (buf, rest) →
      EndsAt net rest n → EndsAt net rx (buf.length + n)

theorem EndsAt.behind {net : Net} {rx buf rest : Str} {n : Nat} (ends : EndsAt net rx n)
    (positive : 0 < n) (read : net.readBuffer rx 1024 = .ok (buf, rest)) :
    ∃ k, n = buf.length + k ∧ EndsAt net rest k := by
  cases ends with
  | here => exact absurd positive (Nat.lt_irrefl 0)
  | later first ends =>
    rw [read] at first
    obtain ⟨rfl, rfl⟩ := Prod.mk.inj (Except.ok.inj first)
    exact ⟨_, rfl, ends⟩

/-- What the loop makes of the first `k` bytes, which are all that is missing. -/
def Exact (net : Net) (rx : Str) (k : Nat) : Prop :=
  '\x00' ∉ rx.take k ∧ (EndsAt net rx k ∨ rx[k]? = some '\x00')

/-- A read within the body: the rest is exact exactly if the whole is and the read is plain. -/
theorem exact_read {net : Net} {rx : Str} {r k : Nat} (positive : 0 < r) (inside : r ≤ k)
    (fits : r ≤ rx.length) (read : net.readBuffer rx 1024 = .ok (rx.take r, rx.drop r)) :
    Exact net rx k ↔ '\x00' ∉ rx.take r ∧ Exact net (rx.drop r) (k - r) := by
  have taken : (rx.take r).length = r := List.length_take_of_le fits
  have split : rx.take k = rx.take r ++ (rx.drop r).take (k - r) := by
    rw [← List.take_add, Nat.add_sub_cancel' inside]
  have next : (rx.drop r)[k - r]? = rx[k]? := by
    rw [List.getElem?_drop, Nat.add_sub_cancel' inside]
  have ends : EndsAt net rx k ↔ EndsAt net (rx.drop r) (k - r) := by
    constructor
    · intro ends
      obtain ⟨j, whole, behind⟩ := ends.behind (by omega) read
      rwa [show k - r = j by omega]
    · intro behind
      have ends := EndsAt.later read behind
      rwa [taken, Nat.add_sub_cancel' inside] at ends
  unfold Exact
  rw [split, List.mem_append, not_or, next, ends, and_assoc]

/-- A read beyond the body is exact exactly if a NUL byte follows the body. -/
theorem exact_beyond {net : Net} {rx : Str} {r k : Nat} (positive : 0 < k) (beyond : k < r)
    (fits : r ≤ rx.length) (read : net.readBuffer rx 1024 = .ok (rx.take r, rx.drop r)) :
    Exact net rx k ↔ cstr (rx.take r) = rx.take k := by
  have taken : (rx.take r).length = r := List.length_take_of_le fits
  have first : (rx.take r).take k = rx.take k := by
    rw [List.take_take, Nat.min_eq_left beyond.le]
  have next : (rx.take r)[k]? = rx[k]? := List.getElem?_take_of_lt beyond
  constructor
  · rintro ⟨plain, ends | nul⟩
    · obtain ⟨j, whole, _⟩ := ends.behind positive read
      omega
    · rw [← first] at plain ⊢
      exact cstr_of_nul plain (next.trans nul)
  · intro same
    refine ⟨same ▸ nul_not_mem_cstr _, Or.inr ?_⟩
    rw [← next]
    exact cstr_eq_take (by omega) (same.trans first.symm)

theorem bodyLoop_iff (net : Net) {len : Nat} (small : len < 2 ^ 31) (n : Nat) (Body : Str)
    {rx : Str} (enough : len - n ≤ rx.length) :
    ∃ added rest, bodyLoop net len n Body rx = .ok (Body ++ added, rest) ∧ '\x00' ∉ added ∧
      (added = rx.take (len - n) ↔ Exact net rx (len - n)) := by
  induction h : rx.length using Nat.strong_induction_on generalizing n Body rx with
  | _ size ih =>
    by_cases more : n < len
    · have nonempty : rx ≠ [] := by
        rintro rfl
        rw [List.length_nil] at enough
        omega
      obtain ⟨r, positive, short, fits, read⟩ := readBuffer_some net nonempty (show 0 < 1024 by decide)
      have taken : (rx.take r).length = r := List.length_take_of_le fits
      have count : (n + (rx.take r).length) % 2 ^ 32 = n + r := by
        rw [taken]
        omega
      have clean : '\x00' ∉ cstr (rx.take r) := nul_not_mem_cstr _
      rw [bodyLoop_chunk more read, count]
      by_cases within : r ≤ len - n
      · obtain ⟨added, rest, loop, plain, exact⟩ := ih (rx.drop r).length
          (by rw [List.length_drop]; omega) (n + r) (Body ++ cstr (rx.take r))
          (by rw [List.length_drop]; omega) rfl
        have missing : len - (n + r) = len - n - r := by omega
        rw [missing] at exact
        refine ⟨cstr (rx.take r) ++ added, rest, by rw [loop, List.append_assoc], ?_, ?_⟩
        · rw [List.mem_append, not_or]
          exact ⟨clean, plain⟩
        · rw [exact_read positive within fits read, ← exact]
          have split : rx.take (len - n) = rx.take r ++ (rx.drop r).take (len - n - r) := by
            rw [← List.take_add, Nat.add_sub_cancel' within]
          rw [split]
          constructor
          · intro same
            have nulless : '\x00' ∉ rx.take r := by
              intro nul
              have member : '\x00' ∈ cstr (rx.take r) ++ added := by
                rw [same]
                exact List.mem_append_left _ nul
              exact (List.mem_append.mp member).elim clean plain
            rw [cstr_eq nulless] at same
            exact ⟨nulless, List.append_cancel_left same⟩
          · rintro ⟨nulless, rfl⟩
            rw [cstr_eq nulless]
      · refine ⟨cstr (rx.take r), rx.drop r, bodyLoop_done (by omega) _ _, clean, ?_⟩
        exact (exact_beyond (by omega) (by omega) fits read).symm
    · have none : len - n = 0 := by omega
      refine ⟨[], rx, by rw [bodyLoop_done (Nat.not_lt.mp more), List.append_nil],
        List.not_mem_nil, ?_⟩
      rw [none, List.take_zero]
      exact iff_of_true rfl ⟨List.not_mem_nil, Or.inl (.here rx)⟩

/-- The body is exactly the announced bytes if and only if none of them is NUL, and either a read
ends behind them or a NUL byte follows them. -/
theorem body_exact_iff (net : Net) {node : CNode} {vv : CVarVal}
    (header : node.getHeader "content-length".toList = some vv) {n : Nat} (small : n < 2 ^ 31)
    (announced : atoi (cstr vv.Val) = n) {rx : Str} (enough : n ≤ rx.length) :
    (∃ node' rest, readBody net node rx = .ok (node', rest) ∧ node'.Body = rx.take n) ↔
      '\x00' ∉ rx.take n ∧ (EndsAt net rx n ∨ rx[n]? = some '\x00') := by
  have len : (atoi (cstr vv.Val) % 2 ^ 32).toNat = n := by
    rw [announced]
    omega
  obtain ⟨added, rest, loop, _, exact⟩ := bodyLoop_iff net small 0 [] enough
  rw [Nat.sub_zero] at exact
  have read : readBody net node rx = .ok ({ node with Body := added }, rest) := by
    unfold readBody
    rw [header]
    dsimp only
    rw [len, loop, List.nil_append]
  rw [read]
  refine Iff.trans ?_ exact
  constructor
  · rintro ⟨node', rest', same, body⟩
    obtain ⟨rfl, _⟩ := Prod.mk.inj (Except.ok.inj same)
    exact body
  · exact fun same => ⟨_, _, rfl, same⟩

def announcing (value : Str) : CNode where
  Headers := [{ Var := "content-length".toList, Val := value }]

theorem announcing_header (value : Str) : (announcing value).getHeader "content-length".toList =
    some { Var := "content-length".toList, Val := value } := by
  have short : "content-length".toList.length < 2 ^ 31 := by
    rw [show "content-length".toList.length = 14 from rfl]
    omega
  have found : named ("content-length".toList.map Char.toLower)
      { Var := "content-length".toList, Val := value } = true :=
    named_iff.mpr (strtolower_short short)
  rw [getHeader_eq _ (by decide), announcing, List.find?_cons, found]

theorem body_exact_iff_two : ∃ node' rest,
    readBody fullNet (announcing "2".toList) "ab".toList = .ok (node', rest) ∧
      node'.Body = "ab".toList.take 2 := by
  have read : fullNet.readBuffer "ab".toList 1024 = .ok ("ab".toList, []) := by decide
  exact (@body_exact_iff fullNet _ _ (announcing_header "2".toList) 2 (by omega) (by decide)
    "ab".toList (by decide)).mpr ⟨by decide, Or.inl (.later read (.here []))⟩

/-- A byte behind the announced body gets into it. -/
theorem body_overrun : ¬ ∀ (net : Net) (node : CNode) (vv : CVarVal) (n : Nat) (rx : Str),
    node.getHeader "content-length".toList = some vv → n < 2 ^ 31 → atoi (cstr vv.Val) = n →
    n ≤ rx.length →
    ∃ node' rest, readBody net node rx = .ok (node', rest) ∧ node'.Body = rx.take n := by
  intro claim
  obtain ⟨node', rest, read, body⟩ := claim fullNet _ _ 1 "ab".toList
    (announcing_header "1".toList) (by omega) (by decide) (by decide)
  have one : (atoi (cstr "1".toList) % 2 ^ 32).toNat = 1 := by decide
  have chunk : fullNet.readBuffer "ab".toList 1024 = .ok ("ab".toList, []) := by decide
  have loop : bodyLoop fullNet 1 0 [] "ab".toList = .ok ("ab".toList, []) := by
    rw [bodyLoop_chunk (by decide) chunk]
    exact bodyLoop_done (by decide) _ _
  unfold readBody at read
  rw [announcing_header] at read
  dsimp only at read
  rw [one, loop] at read
  obtain ⟨rfl, _⟩ := Prod.mk.inj (Except.ok.inj read)
  exact absurd body (by decide)

end Solusek.Node
