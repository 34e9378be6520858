import Mathlib.Data.List.DropRight
import Accumulate.Library.NetUrl.Components

/-!
# URLs as text

`URL` of `pkg/url` as it is in memory, five strings of bytes: how a URL is parsed and printed.
`net/url` is the model of `Library.NetUrl`.
-/

namespace Accumulate.UrlText

open Library Library.NetUrl

/-- `URL`, without what it memoizes. -/
structure URL where
  userInfo : List UInt8
  authority : List UInt8
  path : List UInt8
  query : List UInt8
  fragment : List UInt8
deriving DecidableEq, Repr

/-- Why a string is not an Accumulate URL. -/
inductive ParseError where
  | netUrl (e : NetUrl.Error)
  | wrongScheme (url : List UInt8)
  | missingHost (url : List UInt8)
deriving DecidableEq, Repr

def parseWithScheme (s : List UInt8) : Except NetUrl.Error NetUrl.URL :=
  match NetUrl.parse s with
  | .error e => .error e
  | .ok u => if u.scheme = [] then NetUrl.parse (ascii "acc://" ++ s) else .ok u

def parse (s : List UInt8) : Except ParseError URL :=
  match parseWithScheme s with
  | .error e => .error (.netUrl e)
  | .ok u =>
    if u.scheme ≠ ascii "acc" then .error (.wrongScheme s)
    else if u.host = [] ∨ u.host.head? = some colon then .error (.missingHost s)
    else .ok { userInfo := (u.user.map Userinfo.text).getD [], authority := u.host, path := u.path,
               query := u.rawQuery, fragment := u.fragment }

/-- `normalizePath`: one slash before and none after. -/
def normalizePath (s : List UInt8) : List UInt8 :=
  match (s.dropWhile (· = slash)).rdropWhile (· = slash) with
  | [] => []
  | c :: s => slash :: c :: s

/-- The loop of `format` over the segments of a path that starts with a slash. -/
def writePath (escape : List UInt8 → List UInt8) : List UInt8 → List UInt8
  | [] => []
  | _ :: p =>
    slash :: escape (p.takeWhile (· ≠ slash)) ++ writePath escape (p.dropWhile (· ≠ slash))
termination_by p => p.length
decreasing_by exact Nat.lt_succ_of_le (List.length_dropWhile_le _ p)

def lowerByte (c : UInt8) : UInt8 :=
  if 'A'.toUInt8 ≤ c ∧ c ≤ 'Z'.toUInt8 then c + 32 else c

def hexEncode (s : List UInt8) : List UInt8 :=
  s.flatMap fun c => [lowerByte (upperhex (c / 16)), lowerByte (upperhex (c % 16))]

namespace URL

def format (u : URL) (txid : Option (List UInt8)) (encode : Bool) : List UInt8 :=
  ascii "acc://" ++
  ((match txid with
    | some txid => hexEncode txid ++ [at']
    | none => if u.userInfo = [] then [] else u.userInfo ++ [at']) ++
  u.authority ++
  writePath (if encode then pathEscape else id) (normalizePath u.path) ++
  (if u.query = [] then [] else question :: u.query) ++
  (if u.fragment = [] then [] else hash :: u.fragment))

def string (u : URL) : List UInt8 := u.format none true

end URL

end Accumulate.UrlText
