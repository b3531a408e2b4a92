import Solusek.Model.FileUtil
import Solusek.Model.Static

/-!
# Files as they are read

Both readers deliver a file as it is. The one that counts in steps of 512 bytes does so only
while its 32-bit counter does not go past its end.
-/

namespace Solusek

open FileUtil (File)

namespace Static

variable {data : Str}

/-! ### Steps of 512 bytes -/

theorem read_appends {n rd : Nat} (inside : n + rd ≤ data.length) (buf : Str) :
    data.take n ++ ((data.drop n).take rd ++ buf.drop ((data.drop n).take rd).length).take rd =
      data.take (n + rd) := by
  have full : ((data.drop n).take rd).length = rd := by
    rw [List.length_take, List.length_drop]
    omega
  rw [List.take_left' full, List.take_add]

/-- In front of round `k` the first `512 * k` bytes are read. -/
theorem readBinaryLoop_ends (small : data.length ≤ 2 ^ 32 - 512) {rd : Nat} (buf : Str)
    {fuel k : Nat} (full : rd = 512 ∨ data.length ≤ 512 * k)
    (enough : data.length - 512 * k < fuel) :
    readBinaryLoop data.length fuel (512 * k) rd buf (data.drop (512 * k)) (data.take (512 * k)) =
      some data := by
  induction fuel generalizing k rd buf with
  | zero => omega
  | succ fuel ih =>
    rw [readBinaryLoop]
    by_cases inside : 512 * k < data.length
    · obtain rfl := full.resolve_right (Nat.not_le.mpr inside)
      have counted : (512 * k + 512) % 2 ^ 32 = 512 * (k + 1) := by omega
      simp only [if_pos inside, counted, List.drop_drop]
      by_cases last : 512 * (k + 1) > data.length
      · have ended : 512 * k + (data.length - 512 * k) = data.length := by omega
        have round := @ih (data.length - 512 * k) ((data.drop (512 * k)).take
          (data.length - 512 * k) ++ buf.drop ((data.drop (512 * k)).take
            (data.length - 512 * k)).length) (k + 1) (Or.inr last.le) (by omega)
        rw [List.drop_eq_nil_of_le last.le, List.take_of_length_le last.le] at round
        rw [if_pos last, read_appends ended.le, ended, List.drop_length, List.take_length]
        exact round
      · rw [if_neg last, read_appends (by omega)]
        exact ih _ (Or.inl rfl) (by omega)
    · rw [if_neg inside, List.take_of_length_le (Nat.not_lt.mp inside)]

/-- A counter that has gone past `2 ^ 32` starts again at the front. -/
theorem readBinaryLoop_forever {len : Nat} (large : 2 ^ 32 - 512 < len) {k : Nat}
    (counter : 512 * k < 2 ^ 32) (fuel : Nat) (buf rest r : Str) :
    readBinaryLoop len fuel (512 * k) 512 buf rest r = none := by
  induction fuel generalizing k buf rest r with
  | zero => rfl
  | succ fuel ih =>
    have inside : 512 * k < len := by omega
    have early : ¬ (512 * k + 512) % 2 ^ 32 > len := by omega
    have wrapped : (512 * k + 512) % 2 ^ 32 = 512 * ((512 * k + 512) % 2 ^ 32 / 512) := by omega
    rw [readBinaryLoop]
    simp only [if_pos inside, if_neg early]
    rw [wrapped]
    exact ih (by omega) _ _ _

theorem readBinaryLoop_iff (buf : Str) {fuel : Nat} (enough : data.length < fuel) :
    readBinaryLoop data.length fuel 0 512 buf data [] =
      if data.length ≤ 2 ^ 32 - 512 then some data else none := by
  split <;> rename_i size
  · exact readBinaryLoop_ends size buf (k := 0) (Or.inl rfl) enough
  · exact readBinaryLoop_forever (Nat.lt_of_not_le size) (k := 0) (by decide) fuel buf data []

/-- What is read has no part in when the loop ends. -/
theorem readBinaryLoop_isSome (len fuel n rd rd' : Nat) (buf buf' rest rest' r r' : Str) :
    (readBinaryLoop len fuel n rd buf rest r).isSome =
      (readBinaryLoop len fuel n rd' buf' rest' r').isSome := by
  induction fuel generalizing n rd rd' buf buf' rest rest' r r' with
  | zero => rfl
  | succ fuel ih =>
    rw [readBinaryLoop, readBinaryLoop]
    split
    · exact ih _ _ _ _ _ _ _ _ _
    · rfl

/-! ### Entries -/

namespace Entry

def size : Entry → Nat
  | file data => data.length
  | directory size => size

def bytes : Entry → Str
  | file data => data
  | directory _ => []

/-- What `ftell` promises can be read. -/
def Filled : Entry → Prop
  | file _ => True
  | directory size => size = 0

instance : DecidablePred Filled
  | file _ => inferInstanceAs (Decidable True)
  | directory size => inferInstanceAs (Decidable (size = 0))

end Entry

variable {fs : FileSystem} {fname : Str} {e : Entry}

theorem readTextFile_result (present : fs.entry (cstr fname) = some e) :
    (readTextFile fs fname).1 = if e.Filled then .ok e.bytes else .error .undefined := by
  rw [readTextFile, present]
  cases e with
  | file data => rfl
  | directory size =>
    rcases Nat.eq_zero_or_pos size with rfl | large
    · rfl
    · have unfilled : ¬ (Entry.directory size).Filled := Nat.ne_of_gt large
      rw [if_neg unfilled]
      simp only [if_pos large]

theorem readBinaryFile_result (present : fs.entry (cstr fname) = some e) :
    (readBinaryFile fs fname).1 =
      if e.size ≤ 2 ^ 32 - 512 then if e.Filled then .ok e.bytes else .error .undefined
      else .error .diverges := by
  rw [readBinaryFile, present]
  cases e with
  | file data =>
    have bytes : (Entry.file data).size = data.length := rfl
    dsimp only
    rw [readBinaryLoop_iff [] (Nat.lt_succ_self _), bytes]
    by_cases small : data.length ≤ 2 ^ 32 - 512
    · rw [if_pos small, if_pos small]
      rfl
    · rw [if_neg small, if_neg small]
  | directory size =>
    have same := readBinaryLoop_isSome size (size + 1) 0 512 512 [] [] []
      (List.replicate size 'a') [] []
    have length : (List.replicate size 'a').length = size := List.length_replicate
    have known := @readBinaryLoop_iff (List.replicate size 'a') [] _ (Nat.lt_succ_self _)
    rw [length] at known
    rw [known] at same
    have given : (Entry.directory size).size = size := rfl
    dsimp only
    rw [given]
    by_cases small : size ≤ 2 ^ 32 - 512
    · rw [if_pos small] at same
      obtain ⟨r, ended⟩ := Option.isSome_iff_exists.mp same
      rw [if_pos small, ended]
      rcases Nat.eq_zero_or_pos size with rfl | large
      · rfl
      · have unfilled : ¬ (Entry.directory size).Filled := Nat.ne_of_gt large
        rw [if_neg unfilled]
        simp only [if_pos large]
    · rw [if_neg small] at same
      rw [if_neg small, Option.isNone_iff_eq_none.mp (Option.isSome_eq_false_iff.mp same)]

end Static

namespace FileUtil

variable {data : Str}

/-! ### The `FILE` behind a reader -/

theorem drop_read (file : File) (n : Nat) :
    file.data.drop (file.pos + ((file.data.drop file.pos).take n).length) =
      (file.data.drop file.pos).drop n := by
  rw [List.drop_drop, List.length_take, List.length_drop]
  by_cases short : n ≤ file.data.length - file.pos
  · rw [min_eq_left short]
  · rw [List.drop_eq_nil_of_le (by omega), List.drop_eq_nil_of_le (by omega)]

theorem readBinaryLoop_eq (len fuel n rd : Nat) (buf : Str) (file : File) (r : Str) :
    readBinaryLoop len fuel n rd buf file r =
      Static.readBinaryLoop len fuel n rd buf (file.data.drop file.pos) r := by
  induction fuel generalizing n rd buf file r with
  | zero => rfl
  | succ fuel ih =>
    rw [readBinaryLoop, Static.readBinaryLoop]
    split
    · have last : (if (n + 512) % 2 ^ 32 > len then (len - n) % 2 ^ 32 else rd) =
          if (n + 512) % 2 ^ 32 > len then len - n else rd := by
        split <;> omega
      simp only [File.fread, ih, drop_read, last]
    · rfl

theorem readTextFile_eq (buf : Str) : readTextFile buf ⟨data, 0⟩ = data := by
  simp only [readTextFile, File.fseekEnd, File.fseekSet, File.ftell, File.fread, List.drop_zero,
    List.take_length]
  split <;> rename_i filled
  · rw [List.take_left' rfl]
  · exact (List.length_eq_zero_iff.mp (by omega)).symm

theorem readBinaryFile_eq (fuel : Nat) (buf : Str) :
    readBinaryFile fuel buf ⟨data, 0⟩ =
      Static.readBinaryLoop data.length fuel 0 512 buf data [] := by
  simp only [readBinaryFile, File.fseekEnd, File.fseekSet, File.ftell, readBinaryLoop_eq,
    List.drop_zero]

theorem readBinaryFile_long (large : 2 ^ 32 - 512 < data.length) (fuel : Nat) (buf : Str) :
    readBinaryFile fuel buf ⟨data, 0⟩ = none := by
  rw [readBinaryFile_eq]
  exact Static.readBinaryLoop_forever large (k := 0) (by decide) fuel buf data []

theorem readBinaryFile_short (small : data.length ≤ 2 ^ 32 - 512) (buf : Str) :
    readBinaryFile (data.length + 1) buf ⟨data, 0⟩ = some data := by
  rw [readBinaryFile_eq, Static.readBinaryLoop_iff buf (Nat.lt_succ_self _), if_pos small]

/-- The readers of the static files are these, on the file that is found under the name. -/
theorem static_readers {fs : Static.FileSystem} {fname : Str}
    (present : fs.entry (cstr fname) = some (.file data)) (buf : Str) :
    (Static.readTextFile fs fname).1 = .ok (readTextFile buf ⟨data, 0⟩) ∧
      (Static.readBinaryFile fs fname).1 =
        match readBinaryFile (data.length + 1) [] ⟨data, 0⟩ with
        | some r => .ok r
        | none => .error .diverges := by
  constructor
  · rw [Static.readTextFile, present, readTextFile_eq]
  · rw [Static.readBinaryFile, present, readBinaryFile_eq]
    dsimp only
    cases Static.readBinaryLoop data.length (data.length + 1) 0 512 [] data [] <;> rfl

/-- Both readers end with the bytes of the file exactly if there are not more than
`2 ^ 32 - 512` of them. -/
theorem readers_whole_iff (text binary data : Str) :
    (readTextFile text ⟨data, 0⟩ = data ∧
      ∃ fuel, readBinaryFile fuel binary ⟨data, 0⟩ = some data) ↔ data.length ≤ 2 ^ 32 - 512 := by
  constructor
  · rintro ⟨_, fuel, ended⟩
    by_contra large
    rw [readBinaryFile_long (Nat.lt_of_not_le large)] at ended
    cases ended
  · intro small
    exact ⟨readTextFile_eq text, _, readBinaryFile_short small binary⟩

/-- Of 2^32 bytes the counter never sees the end. -/
theorem readBinaryFile_forever :
    ¬ ∀ text binary data : Str, readTextFile text ⟨data, 0⟩ = data ∧
      ∃ fuel, readBinaryFile fuel binary ⟨data, 0⟩ = some data := by
  intro claim
  obtain ⟨_, fuel, ended⟩ := claim [] [] (List.replicate (2 ^ 32) 'a')
  have large : 2 ^ 32 - 512 < (List.replicate (2 ^ 32) 'a').length := by
    rw [List.length_replicate]
    omega
  rw [readBinaryFile_long large] at ended
  cases ended

end FileUtil

end Solusek
