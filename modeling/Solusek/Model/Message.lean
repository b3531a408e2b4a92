import Solusek.Model.StringUtil

/-!
# Requests and responses
-/

namespace Solusek

structure MCookie where
  Name : Str := []
  Value : Str := []
  Path : Str := []
  None : Bool := false
  deriving DecidableEq, Repr

structure MRequest where
  Cookies : List MCookie := []
  Body : Str := []
  Host : Str := []
  SID : Str := []
  QueryString : Str := []
  SSLClientCN : Str := []
  deriving DecidableEq, Repr

def MRequest.getCookie (request : MRequest) (name : Str) : MCookie :=
  match request.Cookies.find? fun it => it.Name == name with
  | some it => it
  | none => { None := true }

structure MResponse where
  Code : Int := 200
  Body : Str := []
  ContentType : Str := "application/json".toList
  Date : Str := []
  SID : Str := []
  Location : Str := []
  Cookies : List MCookie := []
  deriving DecidableEq, Repr

def MResponse.getCodeDescription (response : MResponse) : Str :=
  if response.Code = 200 then "OK".toList
  else if response.Code = 404 then "Not Found".toList
  else if response.Code = 400 then "Bad Request".toList
  else "Unknown".toList

/-- The constructor, which does not come back if `replaceAll` does not. -/
def MErrorResponse (code : Int) (msg : Str) : Option (Except Exn MResponse) := do
  let escaped ← replaceAll msg "\"".toList "\\\"".toList
  return do
    let escaped ← escaped
    return {
      Code := code
      Body := "\x7b \"code\": \"".toList ++ printInt code ++ "\", \"message\": \"".toList ++
        escaped ++ "\" \x7d".toList }

end Solusek
