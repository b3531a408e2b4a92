import Solusek.Model.Cxx

/-!
# `file_util.cpp`

The two readers over an open `FILE`, as `fseek`, `ftell` and `fread` move in it. A file is
shorter than 2^63 bytes, so `ftell` gives its length. What stands in a buffer that was not
written yet is a parameter.
-/

namespace Solusek.FileUtil

structure File where
  data : Str
  pos : Nat := 0

namespace File

def fseekEnd (file : File) : File := { file with pos := file.data.length }

def fseekSet (file : File) : File := { file with pos := 0 }

def ftell (file : File) : Nat := file.pos

/-- What `fread(buf, 1, n, file)` leaves in `buf`, and the file behind it. -/
def fread (file : File) (buf : Str) (n : Nat) : Str × File :=
  let got := (file.data.drop file.pos).take n
  (got ++ buf.drop got.length, { file with pos := file.pos + got.length })

end File

/-- What `readTextFile` does once the file is open; `buf` is its `new char[len]`. -/
def readTextFile (buf : Str) (file : File) : Str :=
  let file := file.fseekEnd
  let len := file.ftell
  if 0 < len then
    let (buf, _) := file.fseekSet.fread buf len
    buf.take len
  else []

/-- The loop of `readBinaryFile` over the `unsigned int n`, without a result when it is not
through by then. -/
def readBinaryLoop (len : Nat) : Nat → Nat → Nat → Str → File → Str → Option Str
  | 0, _, _, _, _, _ => none
  | fuel + 1, n, rd, buf, file, r =>
    if n < len then
      let rd := if (n + 512) % 2 ^ 32 > len then (len - n) % 2 ^ 32 else rd
      let (buf, file) := file.fread buf rd
      readBinaryLoop len fuel ((n + 512) % 2 ^ 32) rd buf file (r ++ buf.take rd)
    else some r

/-- What `readBinaryFile` does once the file is open. -/
def readBinaryFile (fuel : Nat) (buf : Str) (file : File) : Option Str :=
  let file := file.fseekEnd
  let len := file.ftell
  readBinaryLoop len fuel 0 512 buf file.fseekSet []

end Solusek.FileUtil
