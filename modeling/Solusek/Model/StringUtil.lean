import Solusek.Model.Cxx

/-!
# `string_util.cpp`
-/

namespace Solusek

def ltrim (s : Str) : Str := s.dropWhile isspace

def rtrim (s : Str) : Str := (s.reverse.dropWhile isspace).reverse

def trim (s : Str) : Str := rtrim (ltrim s)

-- The loop counts to `int leng`, so a text of 2^31 bytes and more is not lowered as a whole.
def strtolower (str : Str) : Str :=
  let leng := (sizeToInt str.length).toNat
  (str.take leng).map Char.toLower ++ str.drop leng

/-- The loop of `replaceAll` and what follows it; without fuel left it has no result. -/
def replaceLoop (source «from» «to» : Str) : Nat → Nat → Str → Option (Except Exn Str)
  | 0, _, _ => none
  | fuel + 1, lastPos, newString =>
    match findFrom «from» source lastPos with
    | none => some do return newString ++ (← substr source lastPos)
    | some findPos =>
      match substr source lastPos (some (findPos - lastPos)) with
      | .error e => some (.error e)
      | .ok piece =>
        replaceLoop source «from» «to» fuel (findPos + «from».length) (newString ++ piece ++ «to»)

-- Each round but the last passes a non-empty match, so a loop that ends needs no more rounds.
def replaceAll (source «from» «to» : Str) : Option (Except Exn Str) :=
  replaceLoop source «from» «to» (source.length + 1) 0 []

end Solusek
