import Solusek.Model.Cxx

/-!
# Sockets

`readBuffer` and `writeBuffer` of a `CNetHandlerSocket` that throws exceptions. Bytes on their
way are lists; what `recv` and `send` make of a call is a parameter.
-/

namespace Solusek.Socket

/-- `recv` and `eof` say how much `recv` delivers while that many bytes are left, and what it
returns when none is left; `send` what `send` returns after that many bytes. -/
structure Net where
  recv : Nat → Nat
  eof : Int
  send : Nat → Int → Int
  eof_lt : eof < 1

namespace Net

variable (net : Net)

def readBuffer (rx : Str) (len : Nat) : Except Exn (Str × Str) :=
  let r : Int :=
    if rx = [] then net.eof else max 1 (min (net.recv rx.length) (min len rx.length) : Nat)
  if r < 1 then .error (.int r) else .ok (rx.take r.toNat, rx.drop r.toNat)

variable {net} in
theorem readBuffer_shorter {rx buf rest : Str} {len : Nat}
    (read : net.readBuffer rx len = .ok (buf, rest)) : rest.length < rx.length := by
  unfold Net.readBuffer at read
  split at read
  · rename_i empty
    simp [net.eof_lt] at read
  · rename_i nonempty
    have positive := List.length_pos_of_ne_nil nonempty
    simp only at read
    split at read
    · exact absurd read (by simp)
    · have same := (Prod.mk.inj (Except.ok.inj read)).2
      rw [← same, List.length_drop]
      omega

-- `size` is narrowed to the parameter `int len`.
def writeBuffer (tx buf : Str) (size : Nat) : Except Exn Unit × Str :=
  let len := sizeToInt size
  let r := net.send tx.length len
  let tx := tx ++ buf.take r.toNat
  if r < 1 then (.error (.int r), tx) else (.ok (), tx)

/-- Calls of `writeBuffer` one after another, up to the first that throws. -/
def writeAll : Str → List Str → Except Exn Unit × Str
  | tx, [] => (.ok (), tx)
  | tx, buf :: rest =>
    match net.writeBuffer tx buf buf.length with
    | (.ok _, tx) => writeAll tx rest
    | answer => answer

end Net

end Solusek.Socket
