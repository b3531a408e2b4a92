import Solusek.Model.ClientSetup
import Solusek.Proofs.Strings
import Solusek.Proofs.Wire

/-!
# What a request leaves behind

`runRequest` sets `UseSSL` for an endpoint with the scheme "https" and does not put it back. So
a request depends on the endpoints of earlier ones exactly if such a request was made since the
last call of `setUseSSL`, and neither that call nor the endpoint now asks for TLS.
-/

namespace Solusek.Setup

open Socket

/-! ### The settings -/

def Op.Setter : Op → Bool
  | .runRequest _ _ => false
  | _ => true

def after (h : List Op) : CClient := h.foldl Op.run .new

/-- The client that has the values last given to the setters, and no request behind it. -/
def settings (h : List Op) : CClient := after (h.filter Op.Setter)

def scheme (Endpoint : Str) : Option Str := (find "://".toList Endpoint).map (Endpoint.take ·)

def Https (Endpoint : Str) : Prop := scheme Endpoint = some "https".toList

instance (Endpoint : Str) : Decidable (Https Endpoint) :=
  inferInstanceAs (Decidable (scheme Endpoint = some "https".toList))

/-- A request went to an endpoint with the scheme "https", and `setUseSSL` was not called since. -/
def Leaks (h : List Op) : Prop :=
  ∃ before world body later, h = before ++ .runRequest world body :: later ∧
    Https (settings before).Endpoint ∧ ∀ b, .setUseSSL b ∉ later

/-- Every request behind the calls `h` is the one of the values last given to the setters, and
its socket is a TLS socket exactly if these ask for one. -/
def Settled (h : List Op) : Prop :=
  ∀ world body,
    ((after h).runRequest world body).2 = ((settings h).runRequest world body).2 ∧
    ∀ request, ((after h).runRequest world body).2 = .ok (some request) →
      (.createSocket true ∈ request.calls ↔
        (settings h).UseSSL = true ∨ Https (settings h).Endpoint)

/-! ### The endpoint -/

theorem withoutAuth_total (host : Str) : ∃ t, withoutAuth host = .ok t := by
  unfold withoutAuth
  split <;> rename_i sign
  · dsimp only
    split
    · exact substr_inside (findChar_lt sign) none
    · exact ⟨host, rfl⟩
  · exact ⟨host, rfl⟩

theorem portAndPath_total (host sport : Str) : ∃ t, portAndPath host sport = .ok t := by
  unfold portAndPath
  split <;> rename_i slash
  · refine bind_total (substr_inside (Nat.le_of_lt (findChar_lt slash)) none) fun path => ?_
    exact bind_total (substr_inside (Nat.zero_le _) _) fun sport => ⟨_, rfl⟩
  · exact ⟨_, rfl⟩

theorem target_total (port : Int) (host : Str) : ∃ t, target port host = .ok t := by
  refine bind_total (withoutAuth_total host) fun host => ?_
  split <;> rename_i colon
  · refine bind_total (substr_inside (findChar_lt colon) none) fun sport => ?_
    exact bind_total (substr_inside (Nat.zero_le _) _) fun host => portAndPath_total host sport
  · split <;> rename_i slash
    · refine bind_total (substr_inside (Nat.le_of_lt (findChar_lt slash)) none) fun path => ?_
      exact bind_total (substr_inside (Nat.zero_le _) _) fun host => ⟨_, rfl⟩
    · exact ⟨_, rfl⟩

/-! ### One request -/

def CClient.withSSL (c : CClient) (b : Bool) : CClient := { c with UseSSL := b }

theorem runRequest_invalid {c : CClient} (invalid : scheme c.Endpoint = none) (world : World)
    (body : Str) : c.runRequest world body = (c, .ok none) := by
  have absent : find "://".toList c.Endpoint = none := Option.map_eq_none_iff.mp invalid
  unfold CClient.runRequest
  rw [absent]

theorem runRequest_valid {Endpoint : Str} (valid : scheme Endpoint ≠ none) : ∃ t : Target,
    ∀ (c : CClient) (world : World) (body : Str), c.Endpoint = Endpoint →
      c.runRequest world body =
        (c.withSSL (c.UseSSL || decide (Https Endpoint)), .ok (some
          ((c.withSSL (c.UseSSL || decide (Https Endpoint))).request world t body))) := by
  obtain ⟨protocol, scheme_eq⟩ := Option.ne_none_iff_exists'.mp valid
  obtain ⟨n1, found, cut⟩ := Option.map_eq_some_iff.mp scheme_eq
  have front : substr Endpoint 0 (some n1) = .ok protocol := congrArg Except.ok cut
  have below : n1 + 3 ≤ Endpoint.length := find_le found
  obtain ⟨t, taken⟩ := bind_total (substr_inside below none)
    (target_total (if protocol = "https".toList then 443 else 80))
  refine ⟨t, ?_⟩
  rintro c world body rfl
  have named : Https c.Endpoint ↔ protocol = "https".toList := by
    unfold Https
    rw [scheme_eq]
    exact Option.some_inj
  unfold CClient.runRequest
  rw [found]
  dsimp only
  rw [front]
  by_cases https : protocol = "https".toList
  · rw [if_pos https] at taken
    rw [decide_eq_true (named.mpr https), Bool.or_true]
    simp only [if_pos https, taken, CClient.withSSL]
  · rw [if_neg https] at taken
    rw [decide_eq_false (mt named.mp https), Bool.or_false]
    simp only [if_neg https, taken, CClient.withSSL]

theorem runRequest_leaves (c : CClient) (world : World) (body : Str) :
    (c.runRequest world body).1 = c.withSSL (c.UseSSL || decide (Https c.Endpoint)) := by
  by_cases valid : scheme c.Endpoint = none
  · have other : ¬ Https c.Endpoint := by simp [Https, valid]
    rw [runRequest_invalid valid]
    simp [CClient.withSSL, other]
  · obtain ⟨t, goes⟩ := runRequest_valid valid
    rw [goes c world body rfl]

/-- The calls that neither make the socket nor connect it. -/
def Call.Setting : Call → Prop
  | .createSocket _ | .connect _ _ => False
  | _ => True

theorem setPKCS12_setting {c : CClient} {world : World} {x : Call}
    (member : x ∈ c.setPKCS12 world) : x.Setting := by
  unfold CClient.setPKCS12 at member
  split at member
  · rcases List.mem_cons.mp member with rfl | inside
    · trivial
    · split at inside <;> simp at inside
      rcases inside with rfl | rfl <;> trivial
  · exact List.mem_singleton.mp member ▸ trivial
  · cases member

theorem settings_setting {c : CClient} {world : World} {x : Call}
    (member : x ∈ c.settings world) : x.Setting := by
  unfold CClient.settings at member
  simp only [List.flatten_cons, List.flatten_nil, List.append_nil, List.mem_append] at member
  rcases member with cert | key | pkcs12 | certMem | keyMem | verify
  · split at cert <;> simp at cert
    exact cert ▸ trivial
  · split at key <;> simp at key
    rcases key with rfl | rfl <;> trivial
  · split at pkcs12
    · exact setPKCS12_setting pkcs12
    · cases pkcs12
  · split at certMem <;> simp at certMem
    exact certMem ▸ trivial
  · split at keyMem <;> simp at keyMem
    exact keyMem ▸ trivial
  · split at verify <;> simp at verify
    rcases verify with rfl | rfl <;> trivial

theorem setup_call {c : CClient} {world : World} {t : Target} {x : Call}
    (member : x ∈ c.setup world t) :
    x = .createSocket c.UseSSL ∨ x = .connect (cstr t.host) t.port ∨ x.Setting := by
  unfold CClient.setup at member
  simp only [List.mem_append, List.mem_cons, List.not_mem_nil, or_false] at member
  rcases member with ((rfl | rfl) | inside) | rfl | rfl
  · exact Or.inl rfl
  · exact Or.inr (Or.inr trivial)
  · exact Or.inr (Or.inr (settings_setting inside))
  · exact Or.inr (Or.inr trivial)
  · exact Or.inr (Or.inl rfl)

theorem createSocket_mem (c : CClient) (world : World) (t : Target) (body : Str) :
    .createSocket true ∈ (c.request world t body).calls ↔ c.UseSSL = true := by
  constructor
  · intro member
    rcases setup_call member with made | connected | setting
    · exact (Call.createSocket.inj made).symm
    · cases connected
    · exact setting.elim
  · intro on
    simp [CClient.request, CClient.setup, on]

theorem request_withSSL (c : CClient) (a b : Bool) (world : World) (t : Target) (body : Str) :
    (c.withSSL a).request world t body = (c.withSSL b).request world t body ↔ a = b := by
  constructor
  · intro same
    have left := createSocket_mem (c.withSSL a) world t body
    have right := createSocket_mem (c.withSSL b) world t body
    rw [same] at left
    exact Bool.eq_iff_iff.mpr (left.symm.trans right)
  · rintro rfl
    rfl

/-! ### What is left behind -/

theorem settings_snoc (h : List Op) (op : Op) :
    settings (h ++ [op]) = if op.Setter then op.run (settings h) else settings h := by
  unfold settings after
  rw [List.filter_append, List.foldl_append]
  cases op <;> rfl

theorem after_snoc (h : List Op) (op : Op) : after (h ++ [op]) = op.run (after h) := by
  unfold after
  rw [List.foldl_append]
  rfl

theorem leaks_nil : ¬ Leaks [] := by
  rintro ⟨before, world, body, later, same, _⟩
  simp at same

theorem leaks_snoc (h : List Op) (op : Op) : Leaks (h ++ [op]) ↔
    (Leaks h ∧ ∀ b, op ≠ .setUseSSL b) ∨
      ∃ world body, op = .runRequest world body ∧ Https (settings h).Endpoint := by
  constructor
  · rintro ⟨before, world, body, later, same, https, kept⟩
    rcases List.eq_nil_or_concat later with rfl | ⟨middle, last, rfl⟩
    · obtain ⟨rfl, here⟩ := List.append_inj' same rfl
      exact Or.inr ⟨world, body, List.singleton_inj.mp here, https⟩
    · rw [List.concat_eq_append, ← List.cons_append, ← List.append_assoc] at same
      obtain ⟨rfl, here⟩ := List.append_inj' same rfl
      refine Or.inl ⟨⟨before, world, body, middle, rfl, https, fun b member => ?_⟩, fun b set => ?_⟩
      · exact kept b (by simp [member])
      · exact kept b (by simp [← List.singleton_inj.mp here, set])
  · rintro (⟨⟨before, world, body, later, rfl, https, kept⟩, other⟩ | ⟨world, body, rfl, https⟩)
    · refine ⟨before, world, body, later ++ [op], by simp, https, fun b member => ?_⟩
      rcases List.mem_append.mp member with earlier | here
      · exact kept b earlier
      · exact other b (List.mem_singleton.mp here).symm
    · exact ⟨h, world, body, [], rfl, https, fun b => List.not_mem_nil⟩

theorem run_withSSL {op : Op} (setter : op.Setter = true) (other : ∀ b, op ≠ .setUseSSL b)
    (c : CClient) (b : Bool) :
    op.run (c.withSSL b) = (op.run c).withSSL b ∧ (op.run c).UseSSL = c.UseSSL := by
  cases op with
  | setUseSSL b' => exact absurd rfl (other b')
  | runRequest world body => cases setter
  | _ => exact ⟨rfl, rfl⟩

/-- Behind any calls the client has the values last given to its setters, but for `UseSSL`, which
is also set by a request that leaks. -/
theorem after_eq (h : List Op) : ∃ b, after h = (settings h).withSSL b ∧
    (b = true ↔ (settings h).UseSSL = true ∨ Leaks h) := by
  induction h using List.reverseRecOn with
  | nil => exact ⟨false, rfl, by simp [leaks_nil, settings, after, CClient.new]⟩
  | append_singleton h op ih =>
    obtain ⟨b, same, on⟩ := ih
    rw [after_snoc, settings_snoc, same]
    by_cases request : ∃ world body, op = .runRequest world body
    · obtain ⟨world, body, rfl⟩ := request
      refine ⟨b || decide (Https (settings h).Endpoint),
        runRequest_leaves ((settings h).withSSL b) world body, ?_⟩
      have left : Leaks (h ++ [.runRequest world body]) ↔
          Leaks h ∨ Https (settings h).Endpoint := by simp [leaks_snoc]
      rw [Bool.or_eq_true, decide_eq_true_iff, on, left, or_assoc]
      rfl
    · have setter : op.Setter = true := by
        cases op with
        | runRequest world body => exact absurd ⟨world, body, rfl⟩ request
        | _ => rfl
      rw [if_pos setter]
      by_cases given : ∃ b', op = .setUseSSL b'
      · obtain ⟨b', rfl⟩ := given
        have none : ¬ Leaks (h ++ [.setUseSSL b']) := by simp [leaks_snoc]
        exact ⟨b', rfl, by simp [none, Op.run]⟩
      · have other : ∀ b', op ≠ .setUseSSL b' := fun b' set => given ⟨b', set⟩
        have left : Leaks (h ++ [op]) ↔ Leaks h := by
          have absent : ¬ ∃ world body, op = .runRequest world body ∧ Https (settings h).Endpoint :=
            fun ⟨world, body, here, _⟩ => request ⟨world, body, here⟩
          rw [leaks_snoc, or_iff_left absent]
          exact and_iff_left other
        obtain ⟨run, kept⟩ := run_withSSL setter other (settings h) b
        exact ⟨b, run, by rw [kept, left, on]⟩

/-! ### The next request -/

theorem answer_withSSL {c : CClient} (valid : scheme c.Endpoint ≠ none) : ∃ t : Target,
    ∀ (b : Bool) (world : World) (body : Str),
      ((c.withSSL b).runRequest world body).2 = .ok (some
        ((c.withSSL (b || decide (Https c.Endpoint))).request world t body)) := by
  obtain ⟨t, goes⟩ := runRequest_valid valid
  refine ⟨t, fun b world body => ?_⟩
  rw [goes (c.withSSL b) world body rfl]
  rfl

/-- A request that goes out is the one of the settings exactly if it asks for TLS as they do. -/
theorem settled_valid {h : List Op} {b : Bool} (same : after h = (settings h).withSSL b)
    (valid : scheme (settings h).Endpoint ≠ none) :
    Settled h ↔ (b || decide (Https (settings h).Endpoint)) =
      ((settings h).UseSSL || decide (Https (settings h).Endpoint)) := by
  obtain ⟨t, answer⟩ := answer_withSSL valid
  have own (world : World) (body : Str) := answer (settings h).UseSSL world body
  constructor
  · intro settled
    let world : World := ⟨fun _ => none, fullNet⟩
    have equal := (settled world []).1.trans (own world [])
    rw [same, answer] at equal
    exact (request_withSSL _ _ _ world t []).mp (Option.some.inj (Except.ok.inj equal))
  · intro equal world body
    have first := answer b world body
    rw [equal] at first
    rw [same]
    refine ⟨first.trans (own world body).symm, fun request goes => ?_⟩
    obtain rfl := Option.some.inj (Except.ok.inj (first.symm.trans goes))
    rw [createSocket_mem]
    simp [CClient.withSSL]

/-- Where a request goes and what is written never depends on earlier ones. -/
theorem target_written_kept (h : List Op) (world : World) (body : Str) :
    (((after h).runRequest world body).2.map (Option.map fun r => (r.target, r.written))) =
      (((settings h).runRequest world body).2.map (Option.map fun r => (r.target, r.written))) := by
  obtain ⟨b, same, _⟩ := after_eq h
  by_cases valid : scheme (settings h).Endpoint = none
  · rw [same, runRequest_invalid valid, runRequest_invalid (c := (settings h).withSSL b) valid]
  · obtain ⟨t, answer⟩ := answer_withSSL valid
    have own := answer (settings h).UseSSL world body
    rw [show (settings h).withSSL (settings h).UseSSL = settings h from rfl] at own
    rw [same, answer, own]
    rfl

/-- The requests behind `h` are those of the values last given to the setters exactly if these
ask for TLS or for nothing, or no earlier request has left `UseSSL` set. -/
theorem settled_iff (h : List Op) : Settled h ↔
    (settings h).UseSSL = true ∨ Https (settings h).Endpoint ∨
      scheme (settings h).Endpoint = none ∨ ¬ Leaks h := by
  obtain ⟨b, same, on⟩ := after_eq h
  by_cases valid : scheme (settings h).Endpoint = none
  · have nothing (world : World) (body : Str) : ((after h).runRequest world body).2 = .ok none := by
      rw [same, runRequest_invalid (c := (settings h).withSSL b) valid]
    refine iff_of_true (fun world body => ⟨?_, fun request goes => ?_⟩)
      (Or.inr (Or.inr (Or.inl valid)))
    · rw [nothing, runRequest_invalid valid]
    · rw [nothing] at goes
      cases goes
  · rw [settled_valid same valid]
    simp only [valid, false_or]
    by_cases https : Https (settings h).Endpoint
    · simp [https]
    · cases asked : (settings h).UseSSL with
      | true =>
        rw [asked] at on
        simp [on]
      | false =>
        rw [asked] at on
        rw [decide_eq_false https, Bool.or_false, Bool.or_false]
        simp only [https, false_or, Bool.false_eq_true]
        rw [← not_iff_not, not_not, Bool.not_eq_false, on]
        simp

/-- A request to "https", and the next one goes to port 80 by TLS. -/
theorem unsettled : ¬ ∀ h, Settled h := by
  intro claim
  let world : World := ⟨fun _ => none, fullNet⟩
  let h : List Op := [.setEndpoint "https://a/".toList, .runRequest world [],
    .setEndpoint "http://b/".toList]
  have valid : scheme (settings h).Endpoint ≠ none := by decide
  have other : ¬ Https (settings h).Endpoint := by decide
  have same : after h = (settings h).withSSL true := rfl
  have equal := (settled_valid same valid).mp (claim h)
  rw [decide_eq_false other] at equal
  cases equal

end Solusek.Setup
