import Mathlib.Data.FinEnum

/-!
# Generic URLs

The parser and the escaping rules of `net/url`, over bytes.  A URL is cut at its separators, and
each component is unescaped by the rules of that component; the text a component was written as
is not kept.
-/

namespace Accumulate.Library
namespace NetUrl

def ascii (s : String) : List UInt8 := s.toList.map Char.toUInt8

def oneOf (characters : List Char) (c : UInt8) : Bool := characters.any fun d => d.toUInt8 == c

/-- The component a text is escaped for; queries are kept as they are written. -/
inductive Mode where
  | path
  | pathSegment
  | host
  | zone
  | userPassword
  | fragment
deriving DecidableEq, Repr

inductive Error where
  | controlCharacter
  | missingScheme
  | colonInFirstSegment
  | missingBracket
  | invalidPort (port : List UInt8)
  | invalidUserinfo
  | escape (text : List UInt8)
  | invalidHost (character : UInt8)
deriving DecidableEq, Repr

def slash : UInt8 := '/'.toUInt8
def colon : UInt8 := ':'.toUInt8
def question : UInt8 := '?'.toUInt8
def hash : UInt8 := '#'.toUInt8
def at' : UInt8 := '@'.toUInt8
def percent : UInt8 := '%'.toUInt8
def space : UInt8 := ' '.toUInt8
def opening : UInt8 := '['.toUInt8
def closing : UInt8 := ']'.toUInt8

def isLetter (c : UInt8) : Bool :=
  ('a'.toUInt8 ≤ c && c ≤ 'z'.toUInt8) || ('A'.toUInt8 ≤ c && c ≤ 'Z'.toUInt8)

def isDigit (c : UInt8) : Bool := '0'.toUInt8 ≤ c && c ≤ '9'.toUInt8

def shouldEscape (c : UInt8) (mode : Mode) : Bool :=
  if isLetter c || isDigit c then false
  else if (mode = .host || mode = .zone) &&
      oneOf ['!', '$', '&', '\'', '(', ')', '*', '+', ',', ';', '=', ':', '[', ']', '<', '>', '"'] c
  then false
  else if oneOf ['-', '_', '.', '~'] c then false
  else if oneOf ['$', '&', '+', ',', '/', ':', ';', '=', '?', '@'] c then
    match mode with
    | .path => c == question
    | .pathSegment => oneOf ['/', ';', ',', '?'] c
    | .userPassword => oneOf ['@', '/', '?', ':'] c
    | .fragment => false
    | .host | .zone => true
  else if mode = .fragment && oneOf ['!', '(', ')', '*'] c then false
  else true

def unhex? (c : UInt8) : Option UInt8 :=
  if '0'.toUInt8 ≤ c && c ≤ '9'.toUInt8 then some (c - '0'.toUInt8)
  else if 'a'.toUInt8 ≤ c && c ≤ 'f'.toUInt8 then some (c - 'a'.toUInt8 + 10)
  else if 'A'.toUInt8 ≤ c && c ≤ 'F'.toUInt8 then some (c - 'A'.toUInt8 + 10)
  else none

/-- An escape that may stand in a component: those of a host stand for bytes outside ASCII or for a
percent sign, those of a zone for bytes that may stand there unescaped, or a space. -/
def escapeAllowed (mode : Mode) (high value : UInt8) : Bool :=
  match mode with
  | .host => 8 ≤ high || value == percent
  | .zone => value == percent || value == space || !shouldEscape value .host
  | _ => true

def unescape (mode : Mode) : List UInt8 → Except Error (List UInt8)
  | [] => .ok []
  | c :: s =>
    if c = percent then
      match s with
      | a :: b :: s' =>
        match unhex? a, unhex? b with
        | some high, some low =>
          if escapeAllowed mode high (high * 16 + low) then
            (unescape mode s').map ((high * 16 + low) :: ·)
          else .error (.escape [c, a, b])
        | _, _ => .error (.escape [c, a, b])
      | _ => .error (.escape (c :: s))
    else if (mode = .host || mode = .zone) && c < 0x80 && shouldEscape c mode then
      .error (.invalidHost c)
    else (unescape mode s).map (c :: ·)

def upperhex (n : UInt8) : UInt8 := if n < 10 then '0'.toUInt8 + n else 'A'.toUInt8 + (n - 10)

def escapeByte (mode : Mode) (c : UInt8) : List UInt8 :=
  if shouldEscape c mode then [percent, upperhex (c / 16), upperhex (c % 16)] else [c]

def escape (mode : Mode) (s : List UInt8) : List UInt8 := s.flatMap (escapeByte mode)

def pathEscape (s : List UInt8) : List UInt8 := escape .pathSegment s

/-! ## Parsing -/

structure Userinfo where
  username : List UInt8
  password : Option (List UInt8)
deriving DecidableEq, Repr

/-- A parsed URL, without the hints at how it was written. -/
structure URL where
  scheme : List UInt8
  opaqueText : List UInt8
  user : Option Userinfo
  host : List UInt8
  path : List UInt8
  rawQuery : List UInt8
  fragment : List UInt8
deriving DecidableEq, Repr

def cut (c : UInt8) (s : List UInt8) : List UInt8 × List UInt8 :=
  (s.takeWhile (· ≠ c), (s.dropWhile (· ≠ c)).tail)

def cutLast (c : UInt8) : List UInt8 → Option (List UInt8 × List UInt8)
  | [] => none
  | d :: s =>
    match cutLast c s with
    | some (before, after) => some (d :: before, after)
    | none => if d = c then some ([], s) else none

def isControl (c : UInt8) : Bool := c < 0x20 || c == 0x7F

def isSchemeByte (c : UInt8) : Bool := isLetter c || isDigit c || oneOf ['+', '-', '.'] c

def getScheme (rawURL : List UInt8) : Except Error (List UInt8 × List UInt8) :=
  let scheme := rawURL.takeWhile isSchemeByte
  match rawURL.dropWhile isSchemeByte with
  | c :: rest =>
    if c ≠ colon then .ok ([], rawURL)
    else
      match scheme with
      | [] => .error .missingScheme
      | first :: _ => if isLetter first then .ok (scheme, rest) else .ok ([], rawURL)
  | [] => .ok ([], rawURL)

/-- A colon and digits, or nothing. -/
def validOptionalPort : List UInt8 → Bool
  | [] => true
  | c :: port => c == colon && port.all isDigit

/-- The bytes user information is written with. -/
def isUserinfoByte (c : UInt8) : Bool :=
  isLetter c || isDigit c ||
    oneOf ['-', '.', '_', ':', '~', '!', '$', '&', '\'', '(', ')', '*', '+', ',', ';', '=', '%',
      '@']
      c

def cutZone : List UInt8 → Option (List UInt8 × List UInt8)
  | [] => none
  | c :: s =>
    if (ascii "%25").isPrefixOf (c :: s) then some ([], c :: s)
    else (cutZone s).map fun (before, after) => (c :: before, after)

def parseHost (host : List UInt8) : Except Error (List UInt8) :=
  if host.head? = some opening then
    match cutLast closing host with
    | none => .error .missingBracket
    | some (literal, colonPort) =>
      if validOptionalPort colonPort then
        match cutZone literal with
        | some (address, zone) => do
            let host₁ ← unescape .host address
            let host₂ ← unescape .zone zone
            let host₃ ← unescape .host (closing :: colonPort)
            return host₁ ++ host₂ ++ host₃
        | none => unescape .host host
      else .error (.invalidPort colonPort)
  else
    match cutLast colon host with
    | some (_, port) =>
      if validOptionalPort (colon :: port) then unescape .host host
      else .error (.invalidPort (colon :: port))
    | none => unescape .host host

def parseUserinfo (userinfo : List UInt8) : Except Error Userinfo :=
  if !userinfo.all isUserinfoByte then .error .invalidUserinfo
  else if colon ∈ userinfo then do
    let (username, password) := cut colon userinfo
    let username ← unescape .userPassword username
    let password ← unescape .userPassword password
    return ⟨username, some password⟩
  else do
    let username ← unescape .userPassword userinfo
    return ⟨username, none⟩

def parseAuthority (authority : List UInt8) : Except Error (Option Userinfo × List UInt8) :=
  match cutLast at' authority with
  | none => do
      let host ← parseHost authority
      return (none, host)
  | some (userinfo, host) => do
      let host ← parseHost host
      let user ← parseUserinfo userinfo
      return (some user, host)

def lowerScheme (scheme : List UInt8) : List UInt8 :=
  scheme.map fun c => if 'A'.toUInt8 ≤ c && c ≤ 'Z'.toUInt8 then c + 0x20 else c

/-- Parse what comes between the scheme and the query. -/
def parseHierarchy (scheme rest rawQuery : List UInt8) : Except Error URL :=
  if rest.head? ≠ some slash ∧ scheme ≠ [] then
    -- a path without a root is not taken apart
    .ok { scheme, opaqueText := rest, user := none, host := [], path := [], rawQuery,
          fragment := [] }
  else if rest.head? ≠ some slash ∧ colon ∈ (cut slash rest).1 then
    .error .colonInFirstSegment
  else if (scheme ≠ [] ∨ ¬ (ascii "///").isPrefixOf rest) ∧ (ascii "//").isPrefixOf rest then do
    let (user, host) ← parseAuthority ((rest.drop 2).takeWhile (· ≠ slash))
    let path ← unescape .path ((rest.drop 2).dropWhile (· ≠ slash))
    return { scheme, opaqueText := [], user, host, path, rawQuery, fragment := [] }
  else do
    let path ← unescape .path rest
    return { scheme, opaqueText := [], user := none, host := [], path, rawQuery, fragment := [] }

/-- Parse what comes before the fragment.  A question mark at the end starts an empty query. -/
def parseRest (rawURL : List UInt8) : Except Error URL :=
  if rawURL.any isControl then .error .controlCharacter
  else if rawURL = ascii "*" then
    .ok { scheme := [], opaqueText := [], user := none, host := [], path := ascii "*",
          rawQuery := [], fragment := [] }
  else do
    let (scheme, rest) ← getScheme rawURL
    parseHierarchy (lowerScheme scheme) (cut question rest).1 (cut question rest).2

def parse (rawURL : List UInt8) : Except Error URL := do
  let url ← parseRest (cut hash rawURL).1
  let fragment ← unescape .fragment (cut hash rawURL).2
  return { url with fragment }

end NetUrl
end Accumulate.Library
