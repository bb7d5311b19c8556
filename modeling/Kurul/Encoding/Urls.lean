import Kurul.Encoding.Percent
import Kurul.Sequence.Trimming

/-! URLs, resolved against a base with an `http` or `https` scheme. A fragment and a query are cut off first: no state
of the parser reads past their marks. Hosts, and the schemes that are not `http`-like, are left to the standard. -/
namespace Kurul.Urls

open Encoding

/-- The parts of the standard that are not spelled out: its host parser, and its reading of what follows the
colon of another scheme. -/
structure Standard (Host : Type) where
  host : List Char → Option Host
  other : (scheme : List Char) → List Char → Option (Host × List (List Char))

structure Url (Host : Type) where
  scheme : List Char
  username : List Char
  password : List Char
  host : Host
  port : Option Nat
  path : List (List Char)
  query : Option (List Char)
  fragment : Option (List Char)

/-- The schemes with an authority behind two slashes, and their ports; `file` is not among them. -/
def defaultPorts : List (String × Nat) := [("http", 80), ("https", 443), ("ws", 80), ("wss", 443), ("ftp", 21)]

def defaultPort (scheme : List Char) : Option Nat :=
  (defaultPorts.find? fun entry => entry.1.toList = scheme).map Prod.snd

def isSpecial (scheme : List Char) : Bool := (defaultPort scheme).isSome || scheme = "file".toList

/-- A URL with a tuple origin that others are resolved against. -/
structure Base (Host : Type) where
  url : Url Host
  web : url.scheme = "http".toList ∨ url.scheme = "https".toList

structure Origin (Host : Type) where
  scheme : List Char
  host : Host
  port : Option Nat

def Url.origin {Host : Type} (url : Url Host) : Origin Host := ⟨url.scheme, url.host, url.port⟩

def isSlash (c : Char) : Bool := c = '/' || c = '\\'

def isControlOrSpace (c : Char) : Bool := c.toNat ≤ 0x20

def isTabOrNewline (c : Char) : Bool := c = '\t' || c = '\n' || c = '\r'

/-- What is left of the input before anything is read. -/
def stripped (input : List Char) : List Char :=
  (Sequence.trimmed isControlOrSpace input).filter fun c => !isTabOrNewline c

/-- The text before the mark, and the text behind it. -/
def cut (mark : Char) (text : List Char) : List Char × Option (List Char) :=
  (text.takeWhile (· ≠ mark), (text.dropWhile (· ≠ mark)).tail?)

section Sets

def isPrintable (c : Char) : Bool := 0x20 ≤ c.toNat && c.toNat ≤ 0x7e

/-- The characters that a query keeps; in a special URL it escapes an apostrophe too. -/
def keepsInQuery (special : Bool) (c : Char) : Bool :=
  isPrintable c && !(" \"#<>".toList.contains c) && !(special && c = '\'')

def keepsInFragment (c : Char) : Bool := isPrintable c && !(" \"<>`".toList.contains c)

def keepsInPath (c : Char) : Bool := isPrintable c && !(" \"#<>?^`\x7b\x7d".toList.contains c)

def keepsInUserinfo (c : Char) : Bool := keepsInPath c && !("/:;=@[\\]|".toList.contains c)

end Sets

section Path

def lower (text : List Char) : List Char := text.map Char.toLower

def isDoubleDot (segment : List Char) : Bool :=
  [".." , ".%2e", "%2e.", "%2e%2e"].any fun dots => dots.toList = lower segment

def isSingleDot (segment : List Char) : Bool := [".", "%2e"].any fun dot => dot.toList = lower segment

/-- One segment more; dots go up or stay, and leave an empty segment where they end the path. -/
def addSegment (path : List (List Char)) (segment : List Char) (last : Bool) : List (List Char) :=
  if isDoubleDot segment then if last then path.dropLast ++ [[]] else path.dropLast
  else if isSingleDot segment then if last then path ++ [[]] else path
  else path ++ [percentEncode keepsInPath segment]

def addSegments (path : List (List Char)) : List (List Char) → List (List Char)
  | [] => path
  | segment :: rest => addSegments (addSegment path segment rest.isEmpty) rest

/-- The path state. -/
def pathState (path : List (List Char)) (rest : List Char) : List (List Char) :=
  addSegments path (rest.splitOnP isSlash)

/-- The path start state: a first slash belongs to no segment. -/
def pathStart (rest : List Char) : List (List Char) :=
  match rest with
  | [] => pathState [] []
  | c :: rest' => pathState [] (if isSlash c then rest' else rest)

end Path

section Authority

/-- The port state: digits up to the end. -/
def portState (scheme digits : List Char) : Option (Option Nat) :=
  if digits.all Char.isDigit then
    if digits = [] then some none
    else
      let port := Nat.ofDigitChars 10 digits 0
      if port > 65535 then none else some (if defaultPort scheme = some port then none else some port)
  else none

/-- The colon of a port is none inside brackets. -/
def splitPort : (inside : Bool) → List Char → List Char × Option (List Char)
  | _, [] => ([], none)
  | inside, c :: rest =>
      if c = ':' ∧ inside = false then ([], some rest)
      else
        let later := splitPort (if c = '[' then true else if c = ']' then false else inside) rest
        (c :: later.1, later.2)

/-- The text before the last `@`, if there is one, and the text behind it. -/
def splitUserinfo (authority : List Char) : Option (List Char) × List Char :=
  if '@' ∈ authority then
    let behind := (authority.reverse.takeWhile (· ≠ '@')).reverse
    (some (authority.take (authority.length - behind.length - 1)), behind)
  else (none, authority)

variable {Host : Type} (standard : Standard Host)

/-- The authority, host and port states, and the path behind them. -/
def authorityState (scheme rest : List Char) : Option (Url Host) := do
  let authority := rest.takeWhile fun c => !isSlash c
  let (userinfo, hostport) := splitUserinfo authority
  let (hostname, digits) := splitPort false hostport
  if hostname = [] then none
  else
    let host ← standard.host hostname
    let port ← portState scheme (digits.getD [])
    let info := userinfo.getD []
    return {
      scheme
      username := percentEncode keepsInUserinfo (info.takeWhile (· ≠ ':'))
      password := percentEncode keepsInUserinfo ((info.dropWhile (· ≠ ':')).drop 1)
      host
      port
      path := pathStart (rest.dropWhile fun c => !isSlash c)
      query := none
      fragment := none }

end Authority

section States

variable {Host : Type} (standard : Standard Host) (base : Base Host)

/-- The special authority ignore slashes state. -/
def ignoreSlashes (scheme rest : List Char) : Option (Url Host) := authorityState standard scheme (rest.dropWhile isSlash)

/-- The relative slash state: a second slash starts an authority. -/
def relativeSlash (rest : List Char) : Option (Url Host) :=
  if rest.head?.any isSlash then ignoreSlashes standard base.url.scheme (rest.drop 1)
  else some { base.url with path := pathState [] rest, query := none, fragment := none }

/-- The relative state. -/
def relative (rest : List Char) : Option (Url Host) :=
  match rest with
  | [] => some { base.url with fragment := none }
  | c :: rest' =>
      if isSlash c then relativeSlash standard base rest'
      else some { base.url with path := pathState base.url.path.dropLast rest, query := none, fragment := none }

/-- The states behind the colon of a scheme. -/
def schemeEnd (scheme rest : List Char) : Option (Url Host) :=
  if (defaultPort scheme).isSome then
    if scheme = base.url.scheme then
      if "//".toList.isPrefixOf rest then ignoreSlashes standard scheme (rest.drop 2) else relative standard base rest
    else ignoreSlashes standard scheme rest
  else
    (standard.other scheme rest).map fun (host, path) =>
      { scheme, username := [], password := [], host, port := none, path, query := none, fragment := none }

def isSchemeChar (c : Char) : Bool := c.isAlphanum || "+-.".toList.contains c

/-- The scheme start, scheme and no scheme states. -/
def schemeStart (rest : List Char) : Option (Url Host) :=
  if rest.head?.any Char.isAlpha ∧ (rest.dropWhile isSchemeChar).head? = some ':' then
    schemeEnd standard base (lower (rest.takeWhile isSchemeChar)) ((rest.dropWhile isSchemeChar).drop 1)
  else relative standard base rest

def resolve (input : List Char) : Option (Url Host) :=
  let (rest, fragment) := cut '#' (stripped input)
  let (rest, query) := cut '?' rest
  (schemeStart standard base rest).map fun url => { url with
    query := (query.map (percentEncode (keepsInQuery (isSpecial url.scheme)))).or url.query
    fragment := fragment.map (percentEncode keepsInFragment) }

end States

end Kurul.Urls
