import Solusek.Proofs.RequestFields

/-!
# The request as it is read

The head that `runRequest` writes is read line by line, as a server reads it. A line break in the
path, the host, a name or a value makes lines of its own, and then more fields are read than
names were set.
-/

namespace Solusek.Setup

open Texts

/-! ### Reading -/

/-- A line without the CR in front of its LF. -/
def withoutCR (line : Str) : Str := if line.getLast? = some '\r' then line.dropLast else line

/-- The lines between the request line and the blank line that ends the head. -/
def fieldLines (head : Str) : List Str :=
  ((head.splitOn '\n').map withoutCR).tail.dropLast.dropLast

/-- The name in front of the colon, and the value behind the colon and the blank. -/
def readField (line : Str) : Str × Str :=
  (line.takeWhile (· ≠ ':'), (line.dropWhile (· ≠ ':')).drop 2)

def readFields (head : Str) : List (Str × Str) := (fieldLines head).map readField

/-- Every line of the head that is written is a field, and the fields are as the calls ask. -/
structure FieldsExact (calls : List HeaderCall) (host path body : Str) : Prop where
  formed : ∀ line ∈ fieldLines ((withHeaders calls).toCClient.requestHead host path body),
    ':' ∈ line
  kept : Kept calls host body
    (readFields ((withHeaders calls).toCClient.requestHead host path body))

/-- No header that is left set has a line break in it, or a colon in its name. -/
def Printable (calls : List HeaderCall) : Prop :=
  ∀ name val, lastCall (fun n => decide (n = name)) calls = some (name, some val) →
    ':' ∉ name ∧ '\n' ∉ name ∧ '\n' ∉ val

/-! ### The lines of the head -/

def requestLine (Method path : Str) : Str :=
  Method ++ " ".toList ++ path ++ " HTTP/1.1".toList ++ ['\r']

def fieldText (f : Str × Str) : Str := f.1 ++ ": ".toList ++ f.2 ++ ['\r']

theorem requestText_lines (Method path : Str) (fields : List (Str × Str)) :
    requestText Method path fields =
      (requestLine Method path :: fields.map fieldText ++ [['\r']]).flatMap fun l => l ++ ['\n'] := by
  have each (f : Str × Str) :
      f.1 ++ ": ".toList ++ f.2 ++ "\r\n".toList = fieldText f ++ ['\n'] := by
    simp [fieldText]
  have inner : (fields.flatMap fun f => f.1 ++ ": ".toList ++ f.2 ++ "\r\n".toList) =
      (fields.map fieldText).flatMap fun l => l ++ ['\n'] := by
    rw [List.flatMap_map]
    exact List.flatMap_congr fun f _ => each f
  unfold requestText
  rw [inner, List.cons_append, List.flatMap_cons, List.flatMap_append]
  simp [requestLine]

theorem fieldLines_requestText (Method path : Str) (fields : List (Str × Str)) :
    fieldLines (requestText Method path fields) =
      (((requestLine Method path).splitOn '\n').tail ++
        fields.flatMap fun f => (fieldText f).splitOn '\n').map withoutCR := by
  have last : ['\r'].splitOn '\n' = [['\r']] := rfl
  cases first : (requestLine Method path).splitOn '\n' with
  | nil => exact absurd first (List.splitOn_ne_nil _ _)
  | cons line lines =>
    unfold fieldLines
    rw [requestText_lines, splitOn_ended, List.cons_append, List.flatMap_cons, List.flatMap_append,
      first, List.flatMap_singleton, last, List.flatMap_map]
    simp [List.dropLast_append_of_ne_nil]

/-! ### A head without other line breaks -/

theorem withoutCR_append (line : Str) : withoutCR (line ++ ['\r']) = line := by
  unfold withoutCR
  rw [if_pos List.getLast?_concat, List.dropLast_concat]

theorem splitOn_line {line : Str} (inside : '\n' ∉ line) :
    ((line ++ ['\r']).splitOn '\n').map withoutCR = [line] := by
  have whole : '\n' ∉ line ++ ['\r'] := by
    rw [List.mem_append, not_or]
    exact ⟨inside, by decide⟩
  rw [List.splitOn_eq_singleton whole, List.map_singleton, withoutCR_append]

theorem readField_text {f : Str × Str} (plain : ':' ∉ f.1) :
    readField (f.1 ++ ": ".toList ++ f.2) = f := by
  have split : f.1 ++ ": ".toList ++ f.2 = f.1 ++ ':' :: ' ' :: f.2 := by simp
  unfold readField
  rw [split, takeWhile_ne plain, dropWhile_ne plain]
  rfl

theorem colon_lower (name : Str) : ':' ∈ name.map Char.toLower ↔ ':' ∈ name := by
  have same (c : Char) : c.toLower = ':' ↔ c = ':' := toLower_eq_iff (by decide)
  simp [same]

theorem readField_plain (line : Str) : ':' ∉ (readField line).1 := by
  intro member
  have different := List.mem_takeWhile_imp member
  exact absurd different (by decide)

section

variable {calls : List HeaderCall} {host path body : Str}

theorem withHeaders_Method (calls : List HeaderCall) :
    (withHeaders calls).Method = "POST".toList := by
  induction calls using List.reverseRecOn with
  | nil => rfl
  | append_singleton calls call ih =>
    rw [withHeaders, List.map_append, List.map_singleton, after_snoc]
    obtain ⟨name, _ | val⟩ := call
    · exact ih
    · exact ih

/-- None of the texts of the fields breaks a line, and no name has a colon. -/
def Clean (fields : List (Str × Str)) : Prop :=
  ∀ f ∈ fields, ':' ∉ f.1 ∧ '\n' ∉ f.1 ∧ '\n' ∉ f.2

theorem readFields_clean {Method : Str} {fields : List (Str × Str)} (method : '\n' ∉ Method)
    (one : '\n' ∉ path) (clean : Clean fields) :
    fieldLines (requestText Method path fields) =
        fields.map (fun f => f.1 ++ ": ".toList ++ f.2) ∧
      readFields (requestText Method path fields) = fields := by
  have request : ((requestLine Method path).splitOn '\n').tail = [] := by
    have whole : '\n' ∉ requestLine Method path := by simp [requestLine, method, one]
    rw [List.splitOn_eq_singleton whole, List.tail_cons]
  have lines : fieldLines (requestText Method path fields) =
      fields.map fun f => f.1 ++ ": ".toList ++ f.2 := by
    rw [fieldLines_requestText, request, List.nil_append, List.map_flatMap, ← List.flatMap_pure_eq_map]
    refine List.flatMap_congr fun f member => splitOn_line ?_
    simp [(clean f member).2.1, (clean f member).2.2]
  refine ⟨lines, ?_⟩
  unfold readFields
  rw [lines, List.map_map]
  exact (List.map_congr_left fun f member => readField_text (clean f member).1).trans
    (List.map_id fields)

theorem fields_clean : Clean (fields calls host body) ↔ '\n' ∉ host ∧ Printable calls := by
  constructor
  · intro clean
    refine ⟨(clean _ (mem_fields.mpr (.inl rfl))).2.2, fun name val last => ?_⟩
    exact clean _ (mem_fields.mpr (.inr (.inl ((mem_entries calls name val).mpr last))))
  · rintro ⟨plain, printable⟩ f member
    rcases mem_fields.mp member with rfl | held | ⟨_, rfl⟩
    · exact ⟨of_decide_eq_false rfl, of_decide_eq_false rfl, plain⟩
    · exact printable f.1 f.2 ((mem_entries calls f.1 f.2).mp held)
    · refine ⟨of_decide_eq_false rfl, of_decide_eq_false rfl, fun digit => ?_⟩
      exact absurd (Decimal.isDigit_of_mem digit) (by decide)

/-! ### No more fields are read than names are wanted -/

theorem Kept.inside {read : List (Str × Str)} (kept : Kept calls host body read) :
    read.map (fun f => f.1.map Char.toLower) ⊆
      (fields calls host body).map fun f => f.1.map Char.toLower := by
  intro lower member
  obtain ⟨f, held, rfl⟩ := List.mem_map.mp member
  cases last : lastCall (sameName · f.1) calls with
  | none => exact List.mem_map_of_mem (added_fields (kept.only f held last))
  | some call =>
    have told := kept.last f.1 call last
    have found : f.2 ∈ (read.filter (sameName ·.1 f.1)).map Prod.snd :=
      List.mem_map_of_mem (List.mem_filter.mpr ⟨held, sameName_iff.mpr rfl⟩)
    rw [told] at found
    obtain ⟨s, _ | v⟩ := call
    · exact nomatch found
    · obtain ⟨entry, same⟩ := mem_of_lastCall last
      exact List.mem_map.mpr ⟨(s, v), mem_fields.mpr (.inr (.inl entry)), sameName_iff.mp same⟩

theorem length_readFields (Method path : Str) (fields : List (Str × Str)) :
    (readFields (requestText Method path fields)).length =
      (requestLine Method path).count '\n' + fields.length +
        (fields.map fun f => (fieldText f).count '\n').sum := by
  have rest : (fields.flatMap fun f => (fieldText f).splitOn '\n').length =
      fields.length + (fields.map fun f => (fieldText f).count '\n').sum := by
    induction fields with
    | nil => rfl
    | cons f fields ih =>
      rw [List.flatMap_cons, List.length_append, ih, length_splitOn, List.map_cons, List.sum_cons,
        List.length_cons]
      omega
  unfold readFields
  rw [List.length_map, fieldLines_requestText, List.length_map, List.length_append, rest,
    List.length_tail, length_splitOn]
  omega

/-- A head that is read as it should be has no line break but its own: each of them adds a field,
and no more are read than are written. -/
theorem FieldsExact.clean (right : FieldsExact calls host path body) :
    '\n' ∉ path ∧ Clean (fields calls host body) := by
  have kept := right.kept
  have plain : ∀ f ∈ readFields ((withHeaders calls).toCClient.requestHead host path body),
      ':' ∉ f.1 := by
    intro f member
    obtain ⟨line, _, rfl⟩ := List.mem_map.mp member
    exact readField_plain line
  rw [requestHead_fields] at kept plain
  have few := List.subperm_of_subset kept.once kept.inside
  have size := few.length_le
  rw [List.length_map, List.length_map, length_readFields] at size
  have request : '\n' ∉ requestLine (withHeaders calls).Method path :=
    List.count_eq_zero.mp (by omega)
  have breaks : ((fields calls host body).map fun f => (fieldText f).count '\n').sum = 0 := by
    omega
  have same := few.perm_of_length_le (by
    rw [List.length_map, List.length_map, length_readFields]
    omega)
  refine ⟨fun broken => request ?_, fun f member => ?_⟩
  · simp [requestLine, broken]
  · have whole : '\n' ∉ fieldText f :=
      List.count_eq_zero.mp (List.sum_eq_zero_iff.mp breaks _ (List.mem_map_of_mem member))
    simp only [fieldText, List.mem_append, not_or] at whole
    refine ⟨fun colon => ?_, whole.1.1.1, whole.1.2⟩
    obtain ⟨g, read, lower⟩ := List.mem_map.mp (same.mem_iff.mpr (List.mem_map_of_mem member))
    refine plain g read ((colon_lower g.1).mp ?_)
    rw [lower]
    exact (colon_lower f.1).mpr colon

end

/-- The request carries its fields as the calls ask exactly where nothing that is written breaks a
line, no name has a colon, no call names a field that is added, and no name is left set in one
spelling behind a later call that spells it in another way. -/
theorem fields_exact_iff (calls : List HeaderCall) (host path body : Str) :
    FieldsExact calls host path body ↔
      ('\n' ∉ path ∧ '\n' ∉ host ∧ Printable calls) ∧ NoneAdded calls body ∧
        OneSpelling calls := by
  have method : '\n' ∉ (withHeaders calls).Method := by
    rw [withHeaders_Method]
    decide
  constructor
  · intro right
    obtain ⟨one, clean⟩ := right.clean
    have kept := right.kept
    rw [requestHead_fields, (readFields_clean method one clean).2] at kept
    exact ⟨⟨one, fields_clean.mp clean⟩, kept_iff.mp kept⟩
  · rintro ⟨⟨one, texts⟩, apart⟩
    obtain ⟨lines, read⟩ := readFields_clean method one (fields_clean.mpr texts)
    constructor
    · rw [requestHead_fields, lines]
      intro line member
      obtain ⟨f, _, rfl⟩ := List.mem_map.mp member
      simp
    · rw [requestHead_fields, read]
      exact kept_iff.mpr apart

/-- "Content-Type" does not replace the "Content-type" that is set from the start. -/
theorem content_type_twice : ¬ ∀ (calls : List HeaderCall) (host path body : Str),
    FieldsExact calls host path body := by
  intro claim
  have kept := (claim [("Content-Type".toList, some "text/plain".toList)] "a".toList "/".toList
    []).kept
  exact absurd kept.once (by decide)

end Solusek.Setup
