import Solusek.Proofs.StaticLookup

/-!
# Types of static files

A file is answered with the type of its extension. A path without slash or dot should be
answered with nothing, but the code takes the missing position for one and goes on.
-/

namespace Solusek.Static

open StaticServer

inductive MimeCall where
  | add (type : MMimeType)
  | remove (ext : Str)

def MimeCall.apply (srv : StaticServer) : MimeCall → StaticServer
  | add type => srv.addMimeType type
  | remove ext => srv.removeMimeType ext

/-! ### What a path says -/

def beforeQuery (path : Str) : Str := (cstr path).takeWhile (· ≠ '?')

/-- The text behind the last `c`, all of it when there is none. -/
def behind (c : Char) (s : Str) : Str := (s.reverse.takeWhile (· ≠ c)).reverse

def lastSegment (path : Str) : Str := behind '/' (beforeQuery path)

def ownExtension (path : Str) : Str := (behind '.' (lastSegment path)).map Char.toLower

def Named (path : Str) : Prop := '/' ∈ beforeQuery path ∧ '.' ∈ lastSegment path

/-- The type of the first of these entries that has the extension. -/
def typeOf (mimes : List MMimeType) (ext : Str) : Str :=
  ((mimes.find? fun it => it.Ext = ext).map MMimeType.Type).getD "application/force-download".toList

/-- A file has the type of its extension, and no file is opened for a path that names none. -/
structure Typed (mimes : List MMimeType) (path : Str) (answer : Answer (Option MEndpoint)) :
    Prop where
  served : ∀ ep, answer.1 = .ok (some ep) → ep.ContentType = typeOf mimes (ownExtension path)
  refused : ¬ Named path → answer.1 = .ok none ∧ ∀ name, .fopen name true ∉ answer.2

/-- If a file exists where the code looks for it, the path names it, and its extension as the
code cuts and lowers it has the same type, unless the file is not read to its end. -/
def NamesServed (srv : StaticServer) (fs : FileSystem) (host : Option Str) (path : Str) : Prop :=
  ∀ e ∈ srv.served fs host path, Named path ∧ (srv.Ends (extension path) e →
    typeOf srv.MimeTypes (extension path) = typeOf srv.MimeTypes (ownExtension path))

variable {srv : StaticServer} {fs : FileSystem} {path : Str}

theorem mimeType_eq (ext : Str) : srv.mimeType ext = typeOf srv.MimeTypes ext := by
  have same : (srv.MimeTypes.find? fun it => it.Ext = ext) = srv.getMimeType ext := by
    rw [getMimeType]
    congr 1
    exact funext fun it => Bool.eq_iff_iff.mpr (by simp)
  rw [mimeType, typeOf, same]
  cases srv.getMimeType ext <;> rfl

/-! ### Short paths -/

theorem withoutQuery_short (short : (cstr path).length < 2 ^ 31) :
    withoutQuery (cstr path) = beforeQuery path := by
  unfold withoutQuery beforeQuery
  by_cases query : '?' ∈ cstr path
  · obtain ⟨a, b, split, absent⟩ := List.eq_append_cons_of_mem query
    rw [split] at short ⊢
    have position : a.length % 2 ^ 32 = a.length := by
      rw [List.length_append] at short
      omega
    rw [findChar_append absent, toUnsigned, position, List.take_left, Texts.takeWhile_ne absent]
  · rw [findChar_none query, toUnsigned, List.take_of_length_le (by omega),
      Texts.takeWhile_ne_self query]

theorem behindLast_short {s : Str} (short : s.length < 2 ^ 31) (c : Char) :
    behindLast c s = behind c s := by
  unfold behindLast behind
  by_cases member : c ∈ s
  · obtain ⟨b, a, split, absent⟩ := List.eq_append_cons_of_mem (List.mem_reverse.mpr member)
    have whole : s = a.reverse ++ c :: b.reverse := by
      rw [← List.reverse_reverse s, split]
      simp
    have last : c ∉ b.reverse := mt List.mem_reverse.mp absent
    have position : (a.reverse.length % 2 ^ 32 + 1) % 2 ^ 32 = a.reverse.length + 1 := by
      rw [whole, List.length_append] at short
      omega
    have tail (p rest : Str) : (p ++ c :: rest).drop (p.length + 1) = rest := by simp
    rw [split, Texts.takeWhile_ne absent, whole, findLastOf_append _ last, toUnsigned, position]
    exact tail _ _
  · have missing : findLastOf s c = none := by
      rw [findLastOf, List.idxOf?_eq_none_iff.mpr (mt List.mem_reverse.mp member)]
      rfl
    rw [missing, Texts.takeWhile_ne_self (mt List.mem_reverse.mp member), List.reverse_reverse]
    rfl

theorem behind_length_le (c : Char) (s : Str) : (behind c s).length ≤ s.length := by
  rw [behind, List.length_reverse, ← @List.length_reverse _ s]
  exact (List.takeWhile_prefix _).length_le

/-- Up to 2^31 bytes no position is cut and every letter is lowered. -/
theorem extension_short (short : (cstr path).length < 2 ^ 31) :
    extension path = ownExtension path := by
  have query : (beforeQuery path).length < 2 ^ 31 :=
    (List.takeWhile_prefix _).length_le.trans_lt short
  have segment : (lastSegment path).length < 2 ^ 31 := (behind_length_le _ _).trans_lt query
  have dotted : (behind '.' (lastSegment path)).length < 2 ^ 31 :=
    (behind_length_le _ _).trans_lt segment
  unfold extension
  rw [withoutQuery_short short, behindLast_short query]
  change strtolower (behindLast '.' (lastSegment path)) = _
  rw [behindLast_short segment, strtolower_short dotted, ownExtension]

/-! ### Answers -/

theorem typed_iff (plain : Plain path) (fuel : Nat) (method : Str) (host : Option Str) :
    Typed srv.MimeTypes path (srv.getStaticEndpoint fs (fuel + 1) path method host) ↔
      NamesServed srv fs host path := by
  have answer := @getStaticEndpoint_file srv fs path plain fuel method host
  constructor
  · rintro ⟨typed, refused⟩ e present
    have named : Named path := by
      by_contra unnamed
      have missing := (refused unnamed).1
      rw [answer, fileAnswer_none_iff, Option.mem_def.mp present] at missing
      cases missing
    refine ⟨named, fun ends => ?_⟩
    have found : srv.fileAnswer fs method host path = .ok (some
        (srv.endpointOf fs (srv.fileName host path) method (extension path) e.bytes)) := by
      rw [fileAnswer, Option.mem_def.mp present]
      exact if_pos ends
    rw [← mimeType_eq]
    exact typed _ (answer.trans found)
  · intro sound
    constructor
    · intro ep answered
      rw [answer, fileAnswer] at answered
      split at answered <;> rename_i present
      · cases answered
      · split at answered <;> rename_i ends
        · obtain rfl := Option.some.inj (Except.ok.inj answered)
          exact (mimeType_eq _).trans ((sound _ present).2 ends)
        · cases answered
    · intro unnamed
      have missing : srv.served fs host path = none := by
        cases present : srv.served fs host path with
        | none => rfl
        | some e => exact absurd (sound e present).1 unnamed
      refine ⟨answer.trans ((fileAnswer_none_iff method host).mpr missing), fun name => ?_⟩
      rw [getStaticEndpoint_plain plain]
      rw [served] at missing
      split at missing <;> rename_i turned
      · rw [if_pos turned]
        exact List.not_mem_nil
      · rw [if_neg turned, openByExtension_missing missing]
        simp

theorem getStaticIndex_source {endpoint : Str → Answer (Option MEndpoint)} {names : List Str}
    {ep : MEndpoint} (answered : (getStaticIndex endpoint path names).1 = .ok (some ep)) :
    ∃ it ∈ names, (endpoint (path ++ it)).1 = .ok (some ep) := by
  induction names with
  | nil => cases answered
  | cons it rest ih =>
    rw [getStaticIndex] at answered
    split at answered
    · cases answered
    · obtain ⟨x, member, found⟩ := ih answered
      exact ⟨x, List.mem_cons_of_mem _ member, found⟩
    · split at answered
      · obtain ⟨x, member, found⟩ := ih answered
        exact ⟨x, List.mem_cons_of_mem _ member, found⟩
      · exact ⟨it, List.mem_cons_self, answered⟩

/-- After any calls a path that stands for a file is answered rightly exactly if the file the
code opens for it, if there is one, is named by the path. For the path of a directory the
same holds of each name behind it, one of which its endpoint comes from. -/
theorem static_type_iff (srv : StaticServer) (calls : List MimeCall) (fs : FileSystem)
    (fuel : Nat) (path method : Str) (host : Option Str) :
    let srv := calls.foldl MimeCall.apply srv
    let answer (path : Str) := srv.getStaticEndpoint fs (fuel + 1) path method host
    (Plain path → (Typed srv.MimeTypes path (answer path) ↔ NamesServed srv fs host path)) ∧
      (Plain path → (cstr path).length < 2 ^ 31 →
        (Typed srv.MimeTypes path (answer path) ↔ (srv.served fs host path = none ∨ Named path))) ∧
      ((cstr path).getLast? = some '/' → ∀ ep,
        (srv.getStaticEndpoint fs (fuel + 2) path method host).1 = .ok (some ep) →
          ∃ it ∈ srv.StaticIndexes, (answer (cstr path ++ it)).1 = .ok (some ep)) := by
  intro srv answer
  refine ⟨fun plain => typed_iff plain fuel method host, fun plain short => ?_, fun slash ep => ?_⟩
  · rw [typed_iff plain fuel method host, NamesServed, extension_short short]
    cases srv.served fs host path <;> simp
  · intro answered
    by_cases free : find "..".toList (cstr path) = none
    · rw [getStaticEndpoint_slash free slash] at answered
      exact getStaticIndex_source answered
    · rw [getStaticEndpoint_dots free] at answered
      cases answered

def plainFile : FileSystem where
  entry name := if name = "d//README".toList then some (.file "hi".toList) else none
  modTime _ := []

/-- A file without an extension is served all the same. -/
theorem static_type_missing :
    ¬ ∀ (srv : StaticServer) (calls : List MimeCall) (fs : FileSystem) (fuel : Nat)
      (path method : Str) (host : Option Str), Plain path →
        Typed (calls.foldl MimeCall.apply srv).MimeTypes path
          ((calls.foldl MimeCall.apply srv).getStaticEndpoint fs (fuel + 1) path method host) := by
  intro claim
  have plain : Plain "/README".toList := ⟨'E', by decide, by decide⟩
  have typed := claim { StaticEndpoints := [{ Path := "d".toList }] } [] plainFile 0
    "/README".toList [] none plain
  have sound := (typed_iff plain 0 [] none).mp typed
  obtain ⟨⟨_, dotted⟩, _⟩ := sound (.file "hi".toList) (by decide)
  exact absurd dotted (by decide)

end Solusek.Static
