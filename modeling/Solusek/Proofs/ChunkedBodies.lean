import Solusek.Proofs.CutResponses

/-!
# Chunked bodies

The reader puts the chunks of a body together again, wherever `recv` splits the stream. Where
the two bytes behind a chunk come one at a time, the line feed is left in front of the next size
line, and `sscanf` skips it there.
-/

namespace Solusek.Client

open Socket Lines RoundTrip

/-- What may stand in a size line behind the digits. -/
inductive Extension : Str → Prop where
  | none : Extension []
  | some (t : Str) (inside : '\r' ∉ t ∧ '\n' ∉ t) : Extension (';' :: t)

theorem Extension.sizeLine {size ext : Str} (extension : Extension ext)
    (digits : size ≠ [] ∧ ∀ c ∈ size, (hexDigit c).isSome) : SizeLine size ext := by
  refine ⟨digits, fun c first => ?_, ?_⟩
  · cases extension with
    | none => exact nomatch first
    | some t _ => exact (Option.some.inj first).symm
  · cases extension with
    | none => exact List.not_mem_nil
    | some t inside =>
      rw [List.mem_cons, not_or]
      exact ⟨by decide, inside.1⟩

/-- A whole chunked body is read as it was before it was split into chunks. -/
theorem chunkLoop_whole (net : Net) {chunks : List Chunk} (sound : ∀ c ∈ chunks, c.Sound)
    (small : ∀ c ∈ chunks, c.data.length < 2 ^ 32) {zero ext : Str} (last : SizeLine zero ext)
    (nothing : hexValue zero = 0) (trailer : Str) (size : Nat) :
    chunkLoop net size [] (Framing.chunked chunks zero ext trailer).text =
      chunks.flatMap Chunk.data := by
  obtain ⟨d, read, arrived⟩ := chunkLoop_arrived net sound small last nothing (Or.inl rfl)
    (List.prefix_refl _) size []
  unfold Arrived at arrived
  rw [if_pos (by simp only [List.length_append]; omega)] at arrived
  rw [← arrived]
  exact read

/-- Whatever was read before and however the reads are split, the body of a chunked response is
what its chunks hold together. -/
theorem chunked_body_whole (net : Net) (garbage : Nat) {head : Str} {meaning : Head}
    (complete : ∀ eof, headLoop eof [] 0 {} head = (meaning, .ok []))
    (length : meaning.headers "content-length".toList = [])
    (encoding : meaning.headers "transfer-encoding".toList ≠ [])
    {chunks : List Chunk} (sound : ∀ c ∈ chunks, c.Sound)
    (small : ∀ c ∈ chunks, c.data.length < 2 ^ 32)
    {zero ext : Str} (last : SizeLine zero ext) (nothing : hexValue zero = 0) (trailer : Str) :
    ∃ r, readResponse net garbage (head ++ (Framing.chunked chunks zero ext trailer).text) = .ok r ∧
      r.Code = meaning.code ∧ r.Body = chunks.flatMap Chunk.data := by
  have sent : Stream.Sent ⟨head, meaning, .chunked chunks zero ext trailer⟩ :=
    ⟨complete, length, encoding, sound, last, nothing⟩
  obtain ⟨r, read, code, body⟩ := @readResponse_chunked net garbage _ _ sent length encoding
  exact ⟨r, read, code, body.trans (chunkLoop_whole net sound small last nothing trailer garbage)⟩

/-! ### A body of two chunks -/

theorem hexDigits_decimal {size : Str} (digits : size.all Char.isDigit = true) :
    ∀ c ∈ size, (hexDigit c).isSome := by
  intro c member
  have digit := List.all_eq_true.mp digits c member
  unfold hexDigit
  rw [if_pos digit]
  rfl

def encodingField : Str × Str := ("Transfer-Encoding".toList, "chunked".toList)

def hiChunks : List Chunk :=
  [⟨"0002".toList, ";a=b".toList, "hi".toList⟩, ⟨"1".toList, [], "!".toList⟩]

theorem hiChunks_sound : ∀ c ∈ hiChunks, c.Sound := by
  intro c member
  have first : Extension ";a=b".toList := .some "a=b".toList (by decide)
  have second : Extension [] := .none
  rcases List.mem_cons.mp member with rfl | later
  · exact ⟨first.sizeLine ⟨by decide, hexDigits_decimal rfl⟩, by decide, by decide⟩
  · rw [List.mem_singleton.mp later]
    exact ⟨second.sizeLine ⟨by decide, hexDigits_decimal rfl⟩, by decide, by decide⟩

theorem chunked_body_hi : ∃ r, readResponse fullNet 7 (okHead encodingField ++
    (Framing.chunked hiChunks "0".toList [] "\r\n".toList).text) = .ok r ∧
      r.Code = 200 ∧ r.Body = "hi!".toList := by
  have named : trim (strtolower encodingField.1) = "transfer-encoding".toList := by
    rw [key_eq (by decide)]
    decide
  have field : Field encodingField := ⟨by decide, headerText_of_stamp rfl⟩
  have length := @okMeaning_other encodingField "content-length".toList (by rw [named]; decide)
  have encoding := okMeaning_value named (List.cons_ne_nil _ _)
  refine chunked_body_whole fullNet 7 (okHead_read field) length ?_ hiChunks_sound ?_
    (Extension.none.sizeLine ⟨by decide, hexDigits_decimal rfl⟩) (by decide) _
  · rw [encoding]
    exact List.cons_ne_nil _ _
  · intro c member
    rcases List.mem_cons.mp member with rfl | later
    · decide
    · rw [List.mem_singleton.mp later]
      decide

end Solusek.Client
