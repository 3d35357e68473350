import Energiminer.Protocol.PoolURI

/-!
# The text of a URI

`scheme://[user[:password]@]host[:port][/path[?query][#fragment]]` as the record of its parts.
`UriText.Scanned` says where the parts end, so that the text is read in one way only: at the first
character that announces what may follow. A password may have colons, a host behind credentials an
`@`, and a host in brackets colons and slashes.
-/

namespace Energiminer.Protocol
open Misc

/-- What may follow the host and the port. -/
structure UriTail where
  path : List Char
  query : Option (List Char)
  fragment : Option (List Char)
  deriving DecidableEq

structure UriText where
  scheme : List Char
  /-- the user, and the password if there is one -/
  userinfo : Option (List Char × Option (List Char))
  host : List Char
  port : Option (List Char)
  tail : Option UriTail
  deriving DecidableEq

/-- A part that is optional, behind the character that announces it. -/
def optText (mark : Char) : Option (List Char) → List Char
  | none => []
  | some part => mark :: part

def UriTail.text (tail : UriTail) : List Char :=
  '/' :: tail.path ++ (optText '?' tail.query ++ optText '#' tail.fragment)

namespace UriText

def userinfoText : Option (List Char × Option (List Char)) → List Char
  | none => []
  | some (user, password) => user ++ (optText ':' password ++ ['@'])

def tailText : Option UriTail → List Char
  | none => []
  | some tail => tail.text

/-- What follows the two slashes. -/
def authority (t : UriText) : List Char :=
  userinfoText t.userinfo ++ (t.host ++ (optText ':' t.port ++ tailText t.tail))

def text (t : UriText) : List Char := t.scheme ++ ':' :: '/' :: '/' :: t.authority

/-- The parts of the text that are decoded. -/
def decoded (t : UriText) : List (List Char) :=
  (t.userinfo.elim [] fun info => info.1 :: info.2.toList) ++ t.host ::
    t.tail.elim [] fun tail => tail.path :: (tail.query.toList ++ tail.fragment.toList)

end UriText

/-! ## Delimiters -/

/-- No character that separates credentials, host and path. -/
def noDelimiter (c : Char) : Bool := c ≠ ':' && c ≠ '@' && c ≠ '/'

structure UriTail.Delimited (tail : UriTail) : Prop where
  path : ∀ c ∈ tail.path, c ≠ '#' ∧ c ≠ '?'
  query : ∀ query ∈ tail.query, ∀ c ∈ query, c ≠ '#'

namespace UriText

/-- What follows the host. -/
def afterHost (t : UriText) : List Char := optText ':' t.port ++ tailText t.tail

/-- Every part ends at the first delimiter behind it. -/
structure Scanned (t : UriText) : Prop where
  scheme : ∀ c ∈ t.scheme, isSchemeChar c = true
  user : ∀ info ∈ t.userinfo, ∀ c ∈ info.1, noDelimiter c = true
  password : ∀ info ∈ t.userinfo, ∀ password ∈ info.2, ∀ c ∈ password, c ≠ '@' ∧ c ≠ '/'
  noUserinfo : t.userinfo = none → userpassFlag (t.host ++ t.afterHost) = false
  host : hostSpan (t.host ++ t.afterHost) = (t.host, t.afterHost)
  port : ∀ port ∈ t.port, ∀ c ∈ port, c ≠ '/'
  tail : ∀ tail ∈ t.tail, tail.Delimited

/-! ## Well-formed text -/

/-- Two hexadecimal digits follow every `%`. -/
def escaped : List Char → Bool
  | [] => true
  | c :: s => (c ≠ '%' || ((s.take 2).length = 2 && (s.take 2).all isHexDigit)) && escaped s

/-- A string of decimal digits with a value that `unsigned short` holds. -/
def isPort (port : List Char) : Bool :=
  port ≠ [] && port.all Char.isDigit && decNumber port ≤ 65535

/-- A URI of the documented form. A NUL is in none of its parts: the parser reads the `c_str` of the
text, and what follows a NUL belongs to no part. -/
structure WellFormed (t : UriText) : Prop where
  scanned : t.Scanned
  scheme : t.scheme ≠ []
  host : t.host ≠ []
  port : ∀ port ∈ t.port, isPort port = true
  decoded : ∀ part ∈ t.decoded, escaped part = true
  noNul : '\x00' ∉ t.text

/-- The text has no port or the given one. -/
def HasPort (t : UriText) (port : BitVec 16) : Prop := ∀ p ∈ t.port, decNumber p = port.toNat

/-! ## What is accepted -/

/-- The digits behind blanks and a sign. -/
def portDigits (text : List Char) : List Char :=
  (signOf (text.dropWhile isSpace)).2.takeWhile Char.isDigit

/-- What the parser checks: the characters of the scheme, the two slashes behind it, that the port or
the path or nothing follows the host, and that the port begins with a number. -/
structure Accepted (t : UriText) : Prop where
  scanned : t.Scanned
  port : ∀ port ∈ t.port, portDigits port ≠ [] ∧ decNumber (portDigits port) ≤ 65535

/-- What it does not check. -/
structure Sound (t : UriText) : Prop where
  scheme : t.scheme ≠ []
  host : t.host ≠ []
  port : ∀ port ∈ t.port, ∀ c ∈ port, c.isDigit = true
  decoded : ∀ part ∈ t.decoded, escaped part = true

end UriText

/-! ## Cutting a text at its delimiters -/

def cutPassword : List Char → Option (List Char) × List Char
  | ':' :: s =>
    let (password, rest) := s.span (· ≠ '@')
    (some password, rest)
  | s => (none, s)

def cutUserinfo (s : List Char) : Option (List Char × Option (List Char)) × List Char :=
  if userpassFlag s then
    let (user, rest) := s.span fun c => c ≠ ':' && c ≠ '@'
    let (password, rest) := cutPassword rest
    (some (user, password), rest.drop 1)
  else (none, s)

def cutPort : List Char → Option (List Char) × List Char
  | ':' :: s =>
    let (port, rest) := s.span (· ≠ '/')
    (some port, rest)
  | s => (none, s)

def cutFragment : List Char → Option (List Char)
  | '#' :: s => some s
  | _ => none

def cutQuery : List Char → Option (List Char) × List Char
  | '?' :: s =>
    let (query, rest) := s.span (· ≠ '#')
    (some query, rest)
  | s => (none, s)

def cutTail : List Char → Option UriTail
  | '/' :: s =>
    let (path, rest) := s.span fun c => c ≠ '#' && c ≠ '?'
    let (query, rest) := cutQuery rest
    some ⟨path, query, cutFragment rest⟩
  | _ => none

/-- The parts of a text. -/
def cut (s : List Char) : UriText :=
  let (scheme, rest) := s.span (· ≠ ':')
  let (userinfo, rest) := cutUserinfo (rest.drop 3)
  let (host, rest) := hostSpan rest
  let (port, rest) := cutPort rest
  { scheme, userinfo, host, port, tail := cutTail rest }

end Energiminer.Protocol
