/-!
# Web addresses

A web address is kept as its text, which is in normal form.  `Url.parts` takes that apart, and `Url.ofText?`
accepts a text whose parts can stand together.  In normal form a host of four numbers is an address under the
schemes that look hosts up, and a mere name under any other; an address of eight groups stands in brackets.  A
path that would begin like a host has `/.` in front, which is no part of it.  A file on this machine has no host.
-/

namespace LiveProperty

/-- A web address in its normal form. -/
structure Url where
  text : String
  deriving DecidableEq, Repr

namespace Url

/-- A host: a name, or an internet address of either version. -/
inductive Host where
  | domain (name : List Char)
  | ipv4 (address : List Char)
  | ipv6 (address : List Char)

/-- The parts of an address; it is `rooted` if other addresses can be given relative to it. -/
structure Parts where
  scheme : List Char
  rooted : Bool
  username : List Char
  password : Option (List Char)
  host : Option Host
  port : Option (List Char)
  path : List Char
  query : Option (List Char)
  fragment : Option (List Char)

/-- Splits a text before the first occurrence of a character. -/
def cut (c : Char) (s : List Char) : List Char × Option (List Char) :=
  (s.takeWhile (· ≠ c), match s.dropWhile (· ≠ c) with | [] => none | _ :: rest => some rest)

/-- The pieces of a text between occurrences of a character. -/
def pieces (separator : Char) (s : List Char) : List (List Char) :=
  s.foldr
    (fun c pieces => match pieces with
      | [] => [[c]]
      | piece :: rest => if c = separator then [] :: piece :: rest else (c :: piece) :: rest)
    [[]]

/-- The number written by decimal digits. -/
def decimalValue (digits : List Char) : Nat :=
  digits.foldl (fun n d => 10 * n + (d.toNat - '0'.toNat)) 0

/-- Whether a text is four numbers with dots between them. -/
def isQuad (s : List Char) : Bool :=
  (pieces '.' s).length = 4 && (pieces '.' s).all fun piece => !piece.isEmpty && piece.all Char.isDigit

/-- Whether a character is a small hexadecimal digit. -/
def isHexDigit (c : Char) : Bool :=
  c.isDigit || ('a' ≤ c && c ≤ 'f')

/-- Whether a piece of a name reads as a number, in decimal or, after `0x`, in hexadecimal digits. -/
def isNumber : List Char → Bool
  | '0' :: 'x' :: rest => rest.all isHexDigit
  | piece => !piece.isEmpty && piece.all Char.isDigit

/-- Whether the last piece of a name is a number; a dot at the end does not count. -/
def endsInNumber (s : List Char) : Bool :=
  match (pieces '.' s).reverse with
  | [] :: last :: _ => isNumber last
  | last :: _ => isNumber last
  | [] => false

/-- The schemes that look hosts up. -/
def lookupSchemes : List String :=
  ["http", "https", "ws", "wss", "ftp", "file"]

/-- The number written by small hexadecimal digits. -/
def groupValue (digits : List Char) : Nat :=
  digits.foldl (fun n d => 16 * n + if d.isDigit then d.toNat - '0'.toNat else d.toNat - 'a'.toNat + 10) 0

/-- The two numbers in a group of an address. -/
def groupText (digits : List Char) : List Char :=
  Nat.toDigits 10 (groupValue digits / 256) ++ '.' :: Nat.toDigits 10 (groupValue digits % 256)

/-- The text of an address of eight groups.  One that stands for an address of four numbers, as its first six
groups tell, ends in these numbers. -/
def ipv6Text (s : List Char) : List Char :=
  let lead := "::ffff:".toList
  match lead.isPrefixOf s, cut ':' (s.drop lead.length) with
  | true, (high, some low) =>
    if low.contains ':' then s else lead ++ groupText high ++ '.' :: groupText low
  | _, _ => s

/-- How many groups of up to four hexadecimal digits a text has; nothing if it has anything else. -/
def groupCount? (s : List Char) : Option Nat :=
  if s.isEmpty then some 0
  else if (pieces ':' s).all fun piece => !piece.isEmpty && piece.length ≤ 4 && piece.all isHexDigit then
    some (pieces ':' s).length
  else none

/-- Splits a text at its first pair of colons. -/
def cutGap : List Char → Option (List Char × List Char)
  | [] => none
  | ':' :: ':' :: rest => some ([], rest)
  | c :: rest => (cutGap rest).map fun (front, back) => (c :: front, back)

/-- Whether a text is an address of eight groups, of which a pair of colons may leave some out. -/
def isGroups (s : List Char) : Bool :=
  match cutGap s with
  | none => groupCount? s = some 8
  | some (front, back) =>
    match groupCount? front, groupCount? back with
    | some m, some n => m + n < 8
    | _, _ => false

/-- Whether a scheme looks hosts up. -/
def looksUp (scheme : List Char) : Bool :=
  lookupSchemes.contains (String.ofList scheme)

/-- The host written under a scheme; none if nothing is written. -/
def host? (scheme : List Char) : List Char → Option Host
  | [] => none
  | '[' :: rest => some (.ipv6 (if rest.getLast? = some ']' then rest.dropLast else '[' :: rest))
  | name => if looksUp scheme && isQuad name then some (.ipv4 name) else some (.domain name)

/-- What stands between the slashes that open a host and the path, if there are such slashes, and the path. -/
def authority : List Char → List Char × List Char
  | '/' :: '/' :: rest => (rest.takeWhile (· ≠ '/'), rest.dropWhile (· ≠ '/'))
  | '/' :: '.' :: '/' :: '/' :: rest => ([], '/' :: '/' :: rest)
  | path => ([], path)

/-- Takes an address apart. -/
def parts (u : Url) : Parts :=
  let (scheme, rest) := cut ':' u.text.toList
  let (body, fragment) := cut '#' (rest.getD [])
  let (hierarchy, query) := cut '?' body
  let (authority, path) := authority hierarchy
  let (user, address) := match cut '@' authority with
    | (address, none) => ([], address)
    | (user, some address) => (user, address)
  let (username, password) := cut ':' user
  let bracketed := if address.head? = some '[' then address.takeWhile (· ≠ ']') else []
  let (host, port) := cut ':' (address.drop bracketed.length)
  { scheme, rooted := hierarchy.head? = some '/', username, password, host := host? scheme (bracketed ++ host),
    port, path, query, fragment }

/-- The characters that no name of a host has. -/
def outsideNames : List Char :=
  ['\x00', '\t', '\n', '\r', ' ', '#', '/', ':', '<', '>', '?', '@', '[', '\\', ']', '^', '|']

/-- Whether a host can stand under a scheme.  A name that is looked up has no control character and no percent
sign, and does not end in a number. -/
def Host.isAllowed (scheme : List Char) : Host → Bool
  | .domain name =>
    !name.any outsideNames.contains &&
      (!looksUp scheme || (!endsInNumber name && name.all fun c => '\x20' < c && c ≠ '\x7f' && c ≠ '%'))
  | .ipv4 address => (pieces '.' address).all fun piece => decimalValue piece < 256
  | .ipv6 address => isGroups address

/-- Whether parts can stand together.  The scheme is a word.  Only a host has a user or a port, and a port has
sixteen bits.  A scheme that looks hosts up needs one, but the host of a file may be missing, and has neither
user nor port. -/
def Parts.isAllowed (p : Parts) : Bool :=
  let alone := p.username.isEmpty && p.password.isNone && p.port.isNone
  let isFile := p.scheme = "file".toList
  (p.scheme.head?.any Char.isAlpha && p.scheme.all fun c => c.isAlphanum || ['+', '-', '.'].contains c) &&
    (p.port.all fun digits => digits.all Char.isDigit && decimalValue digits < 0x10000) &&
    match p.host with
    | none => alone && (isFile || !looksUp p.scheme)
    | some host => host.isAllowed p.scheme && (alone || !isFile)

/-- Whether a path begins with a drive: a letter and a colon. -/
def hasDrive : List Char → Bool
  | '/' :: c :: ':' :: rest => c.isAlpha && (rest.isEmpty || rest.head? = some '/')
  | _ => false

/-- Whether a file is on this machine although a host is written, since the host is this machine or the path begins
with a drive. -/
def Parts.isLocalFile (p : Parts) : Bool :=
  p.scheme = "file".toList && p.path.head? = some '/' &&
    match p.host with
    | some (.domain name) => name = "localhost".toList || hasDrive p.path
    | some _ => hasDrive p.path
    | none => false

/-- Leaves out the host of a file. -/
def withoutHost (u : Url) : Url :=
  let opening := "file://".toList
  ⟨String.ofList (opening ++ (u.text.toList.drop opening.length).dropWhile (· ≠ '/'))⟩

/-- The address that a text is; nothing if it is none. -/
def ofText? (s : String) : Option Url :=
  let u : Url := ⟨s⟩
  if s.toList.contains ':' && u.parts.isAllowed then some (if u.parts.isLocalFile then u.withoutHost else u)
  else none

end Url

end LiveProperty
