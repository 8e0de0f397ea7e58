import RunLedger.Http.Percent

/-!
Addresses of HTTP. The text is taken apart once: the first question mark begins the query, the
first number sign begins a fragment, which is not sent, and the segments `.` and `..` of the path
are resolved. What may not stand in its place is percent-encoded.
-/

set_option autoImplicit false

namespace RunLedger.Http

structure Url where
  authority : String
  /-- The encoded path; it begins with a slash. -/
  path : String
  /-- The encoded query, without its question mark. -/
  query : Option String
  deriving DecidableEq, Repr

namespace Url

/-- What stands before the first character that satisfies a test, and what begins with it. -/
def splitAtFirst (stop : Char → Bool) (cs : List Char) : List Char × List Char :=
  (cs.takeWhile (!stop ·), cs.dropWhile (!stop ·))

/-- The pieces between the characters that satisfy a test. -/
def split (stop : Char → Bool) : List Char → List (List Char)
  | [] => [[]]
  | c :: cs =>
    if stop c then [] :: split stop cs
    else
      match split stop cs with
      | [] => [[c]]
      | piece :: pieces => (c :: piece) :: pieces

/-- Whether a character divides the segments of a path. -/
def isSlash (c : Char) : Bool := c = '/' || c = '\\'

/-- What follows a dot, which may be written as a percent sign and two digits. -/
def afterDot? : List Char → Option (List Char)
  | '.' :: cs => some cs
  | '%' :: '2' :: e :: cs => if e = 'e' ∨ e = 'E' then some cs else none
  | _ => none

/-- The number of dots that a segment stands for, when it stands for dots. -/
def dots? (segment : List Char) : Option Nat :=
  match afterDot? segment with
  | some [] => some 1
  | some cs => if afterDot? cs = some [] then some 2 else none
  | none => none

/-- Resolves segments onto those already there, the latest first. A step up or in place at the end
leaves an empty segment. -/
def resolve (above : List (List Char)) : List (List Char) → List (List Char)
  | [] => above.reverse
  | s :: rest =>
    let settled (stack : List (List Char)) :=
      if rest.isEmpty then resolve ([] :: stack) rest else resolve stack rest
    match dots? s with
    | some 1 => settled above
    | some _ => settled above.tail
    | none => resolve (Percent.encode Percent.keptInPath s :: above) rest

def pathOf (cs : List Char) : String :=
  let segments := split isSlash (if (cs.head?.map isSlash).getD false then cs.tail else cs)
  String.ofList ((resolve [] segments).flatMap ('/' :: ·))

def afterScheme? (cs : List Char) : Option (List Char) :=
  let (scheme, rest) := splitAtFirst (· = ':') cs
  let name := String.ofList (scheme.map Char.toLower)
  if name = "http" ∨ name = "https" then some (rest.tail.dropWhile isSlash) else none

/-- Whether a character does not count at either end of an address: blanks and controls. -/
def isEdge (c : Char) : Bool := c.toNat ≤ 0x20

/-- Whether a character does not count anywhere in an address. -/
def isBreak (c : Char) : Bool := c = '\t' || c = '\n' || c = '\r'

/-- A text without the characters at its end that do not count there. -/
def trimEnd (cs : List Char) : List Char := (cs.reverse.dropWhile isEdge).reverse

/-- What counts of a text. -/
def tidy (cs : List Char) : List Char := (trimEnd (cs.dropWhile isEdge)).filter (!isBreak ·)

/-- Whether a character ends a path. -/
def endsPath (c : Char) : Bool := c = '?' || c = '#'

/-- Whether a character ends the name of a host. -/
def endsHost (c : Char) : Bool := isSlash c || endsPath c

def queryOf? (rest : List Char) : Option (List Char) :=
  if rest.head? = some '?' then some (rest.tail.takeWhile (· ≠ '#')) else none

def parse? (s : String) : Option Url := do
  let rest ← afterScheme? (tidy s.toList)
  let (authority, rest) := splitAtFirst endsHost rest
  guard !authority.isEmpty
  let (path, rest) := splitAtFirst endsPath rest
  return {
    authority := String.ofList authority
    path := pathOf path
    query := (queryOf? rest).map fun q => String.ofList (Percent.encode Percent.keptInQuery q) }

def withQuery (u : Url) (pairs : List (String × String)) : Url :=
  let pair (p : String × String) := Percent.encodeForm p.1 ++ '=' :: Percent.encodeForm p.2
  let text := String.ofList (['&'].intercalate (pairs.map pair))
  let query := match u.query with
    | none => text
    | some q => if q = "" then text else q ++ "&" ++ text
  { u with query := some query }

/-- What a request line names: the path and the query. -/
def target (u : Url) : String :=
  match u.query with
  | none => u.path
  | some q => u.path ++ "?" ++ q

end Url

def trimSlashes (address : String) : String :=
  String.ofList (address.toList.reverse.dropWhile (· = '/')).reverse

end RunLedger.Http
