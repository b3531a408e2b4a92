import Solusek.Proofs.SizeLines

/-!
# Chunks that are cut off

The loop over the chunks adds what it has read of each to the body. Where the connection ends early,
the body is what has arrived.
-/

namespace Solusek.Client

open Socket Lines RoundTrip

/-! ### One round of the chunk loop -/

section Round

variable {net : Net} {size : Nat} {resp rx acc rest : Str} {e : Exn}

theorem chunkLoop_cut (line : chunkLine net.eof [] '\x00' rx = .error e) :
    chunkLoop net size resp rx = resp := by
  rw [chunkLoop]
  split
  · rfl
  · rename_i read
    rw [line] at read
    cases read

theorem chunkLoop_last (line : chunkLine net.eof [] '\x00' rx = .ok (acc, rest))
    (zero : scanHex (cstr acc) = some 0) : chunkLoop net size resp rx = resp := by
  rw [chunkLoop]
  split
  · rfl
  · rename_i read
    rw [line] at read
    obtain ⟨rfl, rfl⟩ := Prod.mk.inj (Except.ok.inj read)
    simp [zero]

theorem chunkLoop_round {n : Nat} (line : chunkLine net.eof [] '\x00' rx = .ok (acc, rest))
    (number : scanHex (cstr acc) = some n) (positive : n ≠ 0) :
    chunkLoop net size resp rx =
      match readBytes net.eof n rest with
      | (more, .error _) => resp ++ more
      | (more, .ok rest') =>
        match net.readBuffer rest' 2 with
        | .error _ => resp ++ more
        | .ok (_, rest'') => chunkLoop net n (resp ++ more) rest'' := by
  conv => lhs; rw [chunkLoop]
  split
  · rename_i read
    rw [line] at read
    cases read
  · rename_i read
    rw [line] at read
    obtain ⟨rfl, rfl⟩ := Prod.mk.inj (Except.ok.inj read)
    simp only [number, Option.getD_some, positive, if_false]
    split <;> rename_i body <;> rw [number, Option.getD_some] at body
    · rw [body]
    · rw [body]
      dsimp only
      split <;> rename_i gap
      · rw [gap]
      · rw [gap]

end Round

/-! ### Chunks that are cut off -/

theorem SizeLine.plain {size ext : Str} (line : SizeLine size ext) {blank : Str}
    (lead : blank = [] ∨ blank = ['\n']) : '\r' ∉ blank ++ (size ++ ext) := by
  simp only [List.mem_append, not_or]
  refine ⟨?_, fun member => hexDigit_ne (line.digits.2 _ member) rfl rfl, line.inside⟩
  rcases lead with rfl | rfl <;> decide

theorem SizeLine.cases {size ext : Str} (line : SizeLine size ext) (small : hexValue size < 2 ^ 32)
    {blank : Str} (lead : blank = [] ∨ blank = ['\n']) {rx more : Str}
    (cut : rx <+: size ++ ext ++ "\r\n".toList ++ more) (eof : Int) :
    (rx.length < (size ++ ext ++ "\r\n".toList).length ∧
      chunkLine eof [] '\x00' (blank ++ rx) = .error (.int eof)) ∨
    ∃ rest, rx = size ++ ext ++ "\r\n".toList ++ rest ∧ rest <+: more ∧
      ∃ acc, chunkLine eof [] '\x00' (blank ++ rx) = .ok (acc, rest) ∧
        scanHex (cstr acc) = some (hexValue size) := by
  have plain := line.plain lead
  have spaces : ∀ c ∈ blank, isspace c = true := by
    rcases lead with rfl | rfl <;> simp [isspace]
  rcases Texts.prefix_append_cases cut with ⟨inside, short⟩ | ⟨rest, rfl, inside⟩
  · refine Or.inl ⟨short, chunkLine_cut plain (by decide) ?_ ?_⟩
    · rw [List.append_assoc]
      exact (List.prefix_append_right_inj blank).mpr inside
    · simp only [List.length_append] at short ⊢
      have crlf : "\r\n".toList.length = 2 := rfl
      omega
  · refine Or.inr ⟨rest, rfl, inside, blank ++ (size ++ ext), ?_, scanHex_line spaces line small⟩
    have read := @chunkLine_read eof _ plain '\x00' (by decide) [] rest
    simpa only [List.append_assoc, List.nil_append] using read

theorem chunks_length {chunks : List Chunk} (sound : ∀ c ∈ chunks, c.Sound) :
    chunks = [] ∨ (6 ≤ (chunks.flatMap Chunk.text).length ∧
      0 < (chunks.flatMap Chunk.data).length) := by
  cases chunks with
  | nil => exact Or.inl rfl
  | cons c rest =>
    have first := sound c List.mem_cons_self
    have size := List.length_pos_of_ne_nil first.line.digits.1
    have data := List.length_pos_of_ne_nil first.nonempty
    have crlf : "\r\n".toList.length = 2 := rfl
    refine Or.inr ?_
    simp only [List.flatMap_cons, List.length_append, Chunk.text]
    omega

/-- Of the whole body either all has arrived, or less: it is all there at the last byte of data,
two bytes before the end of the chunks. -/
def Arrived (received total : Nat) (d whole : Str) : Prop :=
  if total ≤ received + 2 then d = whole else d.length < whole.length

theorem Arrived.all {received total : Nat} {d whole : Str} (enough : total ≤ received + 2)
    (same : d = whole) : Arrived received total d whole := by
  rw [Arrived, if_pos enough]
  exact same

theorem Arrived.part {received total : Nat} {d whole : Str} (missing : received + 2 < total)
    (less : d.length < whole.length) : Arrived received total d whole := by
  rw [Arrived, if_neg (Nat.not_le.mpr missing)]
  exact less

theorem gap_read (net : Net) {rx more : Str} (cut : rx <+: "\r\n".toList ++ more) :
    (rx = [] ∧ net.readBuffer rx 2 = .error (.int net.eof)) ∨
    ∃ got blank rest, net.readBuffer rx 2 = .ok (got, blank ++ rest) ∧
      (blank = [] ∨ blank = ['\n']) ∧ rest <+: more ∧ 0 < rx.length ∧
      rest.length = rx.length - 2 := by
  have cut : rx <+: '\r' :: '\n' :: more := cut
  match rx, cut with
  | [], _ => exact Or.inl ⟨rfl, by simp [Net.readBuffer, net.eof_lt]⟩
  | [a], _ =>
    obtain ⟨r, positive, _, bound, read⟩ :=
      readBuffer_some net (List.cons_ne_nil a []) (show 0 < 2 by omega)
    have one : r = 1 := Nat.le_antisymm bound positive
    refine Or.inr ⟨[a].take r, [], [], ?_, Or.inl rfl, List.nil_prefix, Nat.one_pos, rfl⟩
    rw [read, one]
    rfl
  | a :: b :: rx, cut =>
    obtain ⟨same, tail⟩ := List.cons_prefix_cons.mp cut
    obtain ⟨next, inside⟩ := List.cons_prefix_cons.mp tail
    subst same next
    obtain ⟨r, positive, small, _, read⟩ :=
      readBuffer_some net (List.cons_ne_nil '\r' ('\n' :: rx)) (show 0 < 2 by omega)
    refine Or.inr ⟨('\r' :: '\n' :: rx).take r, if r = 1 then ['\n'] else [], rx, ?_, ?_, inside,
      Nat.succ_pos _, rfl⟩
    · rcases (show r = 1 ∨ r = 2 by omega) with rfl | rfl <;> rw [read] <;> rfl
    · split
      · exact Or.inr rfl
      · exact Or.inl rfl

theorem chunkLoop_arrived (net : Net) {chunks : List Chunk} (sound : ∀ c ∈ chunks, c.Sound)
    (small : ∀ c ∈ chunks, c.data.length < 2 ^ 32) {zero ext trailer : Str}
    (last : SizeLine zero ext) (nothing : hexValue zero = 0) {blank : Str}
    (lead : blank = [] ∨ blank = ['\n']) {rx : Str}
    (cut : rx <+: chunks.flatMap Chunk.text ++ (zero ++ ext ++ "\r\n".toList ++ trailer))
    (size : Nat) (resp : Str) :
    ∃ d, chunkLoop net size resp (blank ++ rx) = resp ++ d ∧
      Arrived rx.length (chunks.flatMap Chunk.text).length d (chunks.flatMap Chunk.data) := by
  induction chunks generalizing blank rx size resp with
  | nil =>
    refine ⟨[], ?_, by simp [Arrived]⟩
    rw [List.append_nil]
    rcases last.cases (by omega) lead cut net.eof with ⟨_, line⟩ | ⟨_, _, _, acc, line, number⟩
    · exact chunkLoop_cut line
    · exact chunkLoop_last line (nothing ▸ number)
  | cons c chunks ih =>
    have first := sound c List.mem_cons_self
    have data := List.length_pos_of_ne_nil first.nonempty
    have fits : hexValue c.size < 2 ^ 32 := first.value ▸ small c List.mem_cons_self
    have crlf : "\r\n".toList.length = 2 := rfl
    have later := chunks_length fun d member => sound d (List.mem_cons_of_mem _ member)
    simp only [List.flatMap_cons, Chunk.text, List.append_assoc] at cut ⊢
    simp only [← List.append_assoc c.size, ← List.append_assoc (c.size ++ c.ext)] at cut ⊢
    rcases first.line.cases fits lead cut net.eof with
      ⟨short, line⟩ | ⟨rest, rfl, inside, acc, line, number⟩
    · -- cut off in the size line
      refine ⟨[], by rw [chunkLoop_cut line, List.append_nil], Arrived.part ?_ ?_⟩ <;>
        simp only [List.length_append, List.length_nil] at short ⊢ <;> omega
    rw [chunkLoop_round line number (by rw [first.value]; omega), first.value]
    rcases Texts.prefix_append_cases inside with ⟨_, short⟩ | ⟨rest, rfl, behind⟩
    · -- cut off in the data
      rw [readBytes_short net.eof short]
      refine ⟨rest, rfl, Arrived.part ?_ ?_⟩ <;> simp only [List.length_append] <;> omega
    rw [readBytes_all]
    dsimp only
    rcases gap_read net behind with ⟨rfl, gap⟩ | ⟨got, blank', rest', gap, lead', cut', begun, left⟩
    · -- cut off right behind the data
      rw [gap]
      refine ⟨c.data, rfl, ?_⟩
      rcases later with rfl | ⟨room, bytes⟩
      · refine Arrived.all ?_ (by simp)
        simp only [List.flatMap_nil, List.append_nil, List.length_append]
        omega
      · refine Arrived.part ?_ ?_ <;> simp only [List.length_append, List.length_nil] <;> omega
    · rw [gap]
      obtain ⟨d, read, arrived⟩ := ih (fun d member => sound d (List.mem_cons_of_mem _ member))
        (fun d member => small d (List.mem_cons_of_mem _ member)) lead'
        (by simpa only [List.append_assoc] using cut') c.data.length (resp ++ c.data)
      refine ⟨c.data ++ d, by rw [← List.append_assoc]; exact read, ?_⟩
      unfold Arrived at arrived
      split at arrived <;> rename_i enough
      · rw [arrived]
        rcases later with rfl | ⟨room, bytes⟩
        · refine Arrived.all ?_ rfl
          simp only [List.flatMap_nil, List.append_nil, List.length_append]
          omega
        · refine Arrived.all ?_ rfl
          simp only [List.length_append]
          omega
      · refine Arrived.part ?_ ?_ <;> simp only [List.length_append] <;> omega

end Solusek.Client
