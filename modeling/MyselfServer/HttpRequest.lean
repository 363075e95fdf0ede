import Std.Data.TreeMap
import MyselfServer.Text

/-!
# Requests

`HttpRequest` as the parser fills it in. Header names are stored in lower
case, so every lookup lowers the name it is given.
-/

namespace Myself

open Text

inductive Method where
  | kInvalid
  | kGet
  | kPost
  | kHead
  deriving DecidableEq, Repr

def methodFromString (text : Bytes) : Method :=
  if text = bytes "GET" then .kGet
  else if text = bytes "POST" then .kPost
  else if text = bytes "HEAD" then .kHead
  else .kInvalid

def methodToString : Method → Bytes
  | .kGet => bytes "GET"
  | .kPost => bytes "POST"
  | .kHead => bytes "HEAD"
  | .kInvalid => bytes "INVALID"

abbrev HeaderMap := Std.TreeMap Bytes Bytes compare

structure HttpRequest where
  method : Method := .kInvalid
  path : Bytes := bytes "/"
  query : Bytes := []
  version : Bytes := bytes "HTTP/1.0"
  body : Bytes := []
  headers : HeaderMap := ∅
  keepAlive : Bool := false

namespace HttpRequest

/-- The target is cut at its first `?`; an empty path is `/`. -/
def setPath (r : HttpRequest) (target : Bytes) : HttpRequest :=
  let r := match search [QUESTION] target with
    | none => { r with path := target, query := [] }
    | some pos => { r with path := target.take pos, query := target.drop (pos + 1) }
  if r.path.isEmpty then { r with path := bytes "/" } else r

def addHeader (r : HttpRequest) (key value : Bytes) : HttpRequest :=
  { r with headers := r.headers.insert (toLower (trim key)) (trim value) }

def hasHeader (r : HttpRequest) (key : Bytes) : Bool :=
  r.headers.contains (toLower key)

def getHeader (r : HttpRequest) (key : Bytes) : Bytes :=
  (r.headers[toLower key]?).getD []

theorem setPath_eq (r : HttpRequest) (target : Bytes) :
    ∃ path query, r.setPath target = { r with path := path, query := query } := by
  simp only [setPath]
  cases search [QUESTION] target <;> (dsimp only; split) <;> exact ⟨_, _, rfl⟩

theorem setPath_path {r : HttpRequest} {target : Bytes} (h : QUESTION ∉ target) :
    r.setPath target =
      { r with path := if target = [] then bytes "/" else target, query := [] } := by
  simp only [setPath, search_one_eq_none.mpr h]
  by_cases ht : target = [] <;> simp [ht]

theorem setPath_query {r : HttpRequest} {path query : Bytes} (h : QUESTION ∉ path) :
    r.setPath (path ++ QUESTION :: query) =
      { r with path := if path = [] then bytes "/" else path, query := query } := by
  simp only [setPath, search_one h]
  by_cases hp : path = [] <;> simp [hp]

theorem getHeader_addHeader (r : HttpRequest) (key value name : Bytes) :
    (r.addHeader key value).getHeader name =
      if toLower (trim key) = toLower name then trim value else r.getHeader name := by
  simp only [getHeader, addHeader, Std.TreeMap.getElem?_insert, Std.LawfulEqCmp.compare_eq_iff_eq]
  split <;> rfl

theorem hasHeader_addHeader (r : HttpRequest) (key value name : Bytes) :
    (r.addHeader key value).hasHeader name =
      (decide (toLower (trim key) = toLower name) || r.hasHeader name) := by
  simp only [hasHeader, addHeader, Std.TreeMap.contains_insert]
  congr 1
  exact Bool.eq_iff_iff.mpr (by simp [Std.LawfulEqCmp.compare_eq_iff_eq])

end HttpRequest

end Myself
