import Energiminer.Misc.Text

/-!
# Pool URIs

The constructor of `URI` and `urlDecode` (`protocol/PoolURI.cpp:32-227`). A `std::string` is the
list of its characters, and `curstr` is what is left of the text, which ends at the first NUL. The
constructor is cut at its comments: each part reads one component and goes on with the rest, or
returns and leaves `m_valid` false. `isalpha`, `isdigit` and `tolower` are those of the C locale.

`urlDecode` does not initialise the variable that `sscanf` writes, so where the first escape of a
text is no number the character is whatever the variable held: `junk` gives its value for each text.
The stratum mode and the mark of unrecoverable pools are not touched by the constructor and are left
out.
-/

namespace Energiminer.Protocol
open Misc

/-! ## The C library -/

/-- The conversion to `char`. -/
def charOf (n : Nat) : Char := Char.ofNat (n % 256)

/-- The digits that `%x` reads. A `0x` without a digit is read as zero. -/
def scanDigits : List Char → List Char
  | '0' :: 'x' :: text => '0' :: text.takeWhile isHexDigit
  | '0' :: 'X' :: text => '0' :: text.takeWhile isHexDigit
  | text => text.takeWhile isHexDigit

/-- `sscanf(text, "%x", &ii)`: the value that is stored, if one is. -/
def sscanfHex (text : List Char) : Option (BitVec 32) :=
  let (negative, text) := signOf (text.dropWhile isSpace)
  let digits := scanDigits text
  if digits = [] then none
  else if negative then some (-BitVec.ofNat 32 (hexNumber digits))
  else some (BitVec.ofNat 32 (hexNumber digits))

/-- The number that a list of decimal digits stands for. -/
def decNumber (digits : List Char) : Nat :=
  digits.foldl (fun n c => 10 * n + (c.toNat - '0'.toNat)) 0

/-- `ss >> m_port`: the `unsigned short` that is stored and whether the extraction fails. What
follows the digits stays in the stream. -/
def extractPort (text : List Char) : BitVec 16 × Bool :=
  let (negative, text) := signOf (text.dropWhile isSpace)
  let digits := text.takeWhile Char.isDigit
  if digits = [] then (0, true)
  else if 65535 < decNumber digits then (65535, true)
  else if negative then (-BitVec.ofNat 16 (decNumber digits), false)
  else (BitVec.ofNat 16 (decNumber digits), false)

/-! ## `urlDecode` -/

/-- The loop of `urlDecode`; `skip` is what `i = i + 2` still jumps over. -/
def urlDecodeFrom : Nat → BitVec 32 → List Char → List Char
  | _, _, [] => []
  | skip + 1, ii, _ :: s => urlDecodeFrom skip ii s
  | 0, ii, c :: s =>
    if c = '%' then
      let ii := (sscanfHex (cStr (s.take 2))).getD ii
      charOf ii.toNat :: urlDecodeFrom 2 ii s
    else if c = '+' then ' ' :: urlDecodeFrom 0 ii s
    else c :: urlDecodeFrom 0 ii s

/-- `urlDecode` (`PoolURI.cpp:32-54`), for the value that `ii` has before it is written. -/
def urlDecode (ii : BitVec 32) (s : List Char) : List Char := urlDecodeFrom 0 ii s

/-! ## The constructor -/

structure URI where
  uri : List Char
  scheme : List Char := []
  username : List Char := []
  password : List Char := []
  host : List Char := []
  port : BitVec 16 := 0
  path : List Char := []
  query : List Char := []
  fragment : List Char := []
  valid : Bool := false
  deriving DecidableEq

/-- The characters that the scheme may have. -/
def isSchemeChar (c : Char) : Bool := c.isAlpha || c.isDigit || c = '+' || c = '-' || c = '.'

/-- `userpass_flag`: an `@` comes before the first `/`. -/
def userpassFlag : List Char → Bool
  | [] => false
  | c :: s => if c = '@' then true else if c = '/' then false else userpassFlag s

/-- The text of the host and what follows it. -/
def hostSpan : List Char → List Char × List Char
  | '[' :: s =>
    let (body, rest) := s.span (· ≠ ']')
    ('[' :: body ++ rest.take 1, rest.drop 1)
  | s => s.span fun c => c ≠ ':' && c ≠ '/'

namespace URI
variable (junk : List Char → BitVec 32)

/-- Lines 214-226. -/
def readFragment (u : URI) : List Char → URI
  | '#' :: s => { u with fragment := urlDecode (junk s) s, valid := true }
  | _ => { u with valid := true }

/-- Lines 200-212. -/
def readQuery (u : URI) : List Char → URI
  | '?' :: s =>
    let (query, rest) := s.span (· ≠ '#')
    readFragment junk { u with query := urlDecode (junk query) query } rest
  | s => u.readFragment junk s

/-- Lines 176-198, from the end of the host and the port on. -/
def readPath (u : URI) : List Char → URI
  | [] => { u with valid := true }
  | '/' :: s =>
    let (path, rest) := s.span fun c => c ≠ '#' && c ≠ '?'
    let u := if path = [] then u
      else { u with path := urlDecode (junk ('/' :: path)) ('/' :: path) }
    u.readQuery junk rest
  | _ => u

/-- Lines 158-174. -/
def readPort (u : URI) : List Char → URI
  | ':' :: s =>
    let (text, rest) := s.span (· ≠ '/')
    let (port, fail) := extractPort text
    let u := { u with port }
    if fail then u else u.readPath junk rest
  | s => u.readPath junk s

/-- Lines 140-156. -/
def readHost (u : URI) (s : List Char) : URI :=
  let (host, rest) := hostSpan s
  readPort junk { u with host := urlDecode (junk host) host } rest

/-- The `@` after the credentials, lines 133-137. -/
def skipAt (u : URI) : List Char → URI
  | '@' :: s => u.readHost junk s
  | _ => u

/-- Lines 119-132, after the user. -/
def readPassword (u : URI) : List Char → URI
  | ':' :: s =>
    let (password, rest) := s.span (· ≠ '@')
    skipAt junk { u with password := urlDecode (junk password) password } rest
  | s => u.skipAt junk s

/-- Lines 95-138. -/
def readUser (u : URI) (s : List Char) : URI :=
  if userpassFlag s then
    let (username, rest) := s.span fun c => c ≠ ':' && c ≠ '@'
    readPassword junk { u with username := urlDecode (junk username) username } rest
  else u.readHost junk s

/-- The two slashes, lines 88-93. -/
def skipSlashes (u : URI) : List Char → URI
  | '/' :: '/' :: s => u.readUser junk s
  | _ => u

/-- `URI::URI` (`PoolURI.cpp:56-227`). -/
def parse (uri : List Char) : URI :=
  match (cStr uri).span (· ≠ ':') with
  | (_, []) => { uri }
  | (scheme, _ :: rest) =>
    let u : URI := { uri, scheme := scheme.map Char.toLower }
    if u.scheme.all isSchemeChar then u.skipSlashes junk rest else u

end URI

end Energiminer.Protocol
