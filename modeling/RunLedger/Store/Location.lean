import RunLedger.Http.Percent
import RunLedger.Store.Error
import RunLedger.Text.Hex

/-!
Where a database is: in memory or in a file, as the text of an address says. Parameters behind a
question mark choose how it is opened; unknown ones are refused.
-/

set_option autoImplicit false

namespace RunLedger.Store

inductive Location where
  | memory (isWritable : Bool)
  /-- A file without a name, which goes when it is closed. -/
  | temporary (isWritable : Bool)
  /-- A file, which may be made when it is not there. -/
  | file (path : String) (mayCreate isWritable : Bool)
  deriving DecidableEq, Repr

/-- How a database is to be opened. -/
inductive Access where
  | read
  | write
  /-- Writing, which may make a file. -/
  | create
  /-- No file is touched. -/
  | memory (isWritable : Bool)
  deriving DecidableEq, Repr

namespace Access

/-- Whether anything can be stored. -/
def isWritable : Access → Bool
  | read => false
  | write => true
  | create => true
  | memory w => w

/-- The access that a mode changes another one to. Reading and memory can always be asked for, and
in memory so can all else; otherwise a mode gives no more than there was. -/
def change? (a : Access) (mode : String) : Option Access :=
  match mode with
  | "memory" => some (.memory true)
  | "ro" => some .read
  | "rw" => if a matches .read then none else some .write
  | "rwc" => if a matches .create | .memory _ then some .create else none
  | _ => none

end Access

namespace Location

/-- Whether anything can be stored at a location. -/
def isWritable : Location → Bool
  | memory w => w
  | temporary w => w
  | file _ _ w => w

private def dropAll (mark : String) : Nat → List Char → List Char
  | 0, cs => cs
  | fuel + 1, cs =>
    if mark.toList.isPrefixOf cs then dropAll mark fuel (cs.drop mark.length) else cs

private def decodeForm (cs : List Char) : String :=
  Text.Utf8.lossy (Text.Utf8.decode
    (Http.Percent.decode (cs.map fun c => if c = '+' then ' ' else c)))

/-- Whether a parameter may be given with this value. -/
def allows (name value : String) : Bool :=
  if name = "mode" then ["ro", "rw", "rwc", "memory"].contains value
  else if name = "cache" then ["private", "shared"].contains value
  else if name = "immutable" then ["true", "1", "false", "0"].contains value
  else name = "vfs"

private def parameters (cs : List Char) : List (String × String) :=
  ((String.ofList cs).splitOn "&").filter (· ≠ "") |>.map fun pair =>
    let name := pair.toList.takeWhile (· ≠ '=')
    (decodeForm name, decodeForm (pair.toList.drop (name.length + 1)))

private def fileSystems : List String :=
  ["unix", "unix-dotfile", "unix-excl", "unix-none", "memdb"]

/-- The value of a parameter; the last one counts. -/
private def last? (name : String) (given : List (String × String)) : Option String :=
  given.reverse.lookup name

private def beforeNull (s : String) : String := String.ofList (s.toList.takeWhile (· ≠ '\x00'))

/-- The location of a path, which may also be the mark of a database in memory. What is promised not
to change cannot be written, which says nothing of what no file system holds. -/
private def ofPath (path : String) (access : Access) (isFixed : Bool) (vfs : Option String) :
    Location :=
  if path = ":memory:" || access matches .memory _ then .memory access.isWritable
  else if path = "" then .temporary access.isWritable
  else
    let isWritable := access.isWritable && !isFixed
    if vfs = some "memdb" then .memory isWritable
    else .file path (access matches .create) isWritable

private def decodePart (cs : List Char) : String :=
  Text.Utf8.lossy (Text.Utf8.decode ((Http.Percent.decode cs).takeWhile (· ≠ 0)))

private def localParameters (cs : List Char) : List (String × String) :=
  ((String.ofList cs).splitOn "&").map fun pair =>
    let name := pair.toList.takeWhile (· ≠ '=')
    (decodePart name, decodePart (pair.toList.drop (name.length + 1)))

/-- The number that a word begins with, in base ten or, after a mark, in base sixteen. One of more
than thirty-one bits is no number. -/
private def number? (word : List Char) : Option Nat :=
  let isHex := fun c => (Text.Hex.value? c).isSome
  let digits := match word with
    | '0' :: x :: d :: r => if x.toLower = 'x' && isHex d then some (d :: r) else none
    | _ => none
  let n := match digits with
    | some ds => Text.Hex.number? (ds.takeWhile isHex)
    | none => (String.ofList (word.takeWhile Char.isDigit)).toNat?
  n.filter (· ≤ 0x7FFFFFFF)

/-- Whether a word of a local parameter says yes. Of a number the last eight bits count. -/
private def affirms (word : String) : Bool :=
  if word.toList.head?.any Char.isDigit then (number? word.toList).any (· % 0x100 ≠ 0)
  else ["yes", "on", "true"].contains word.toLower

/-- The location of what follows the scheme of files: an authority, which is empty or the local one,
a path, and parameters up to a hash. Each mode in turn changes the access. The rights of another
file, which may be asked for, are not known. -/
private def ofFileAddress (cs : List Char) (access : Access) : Except Error Location := do
  let (authority, cs) := match cs with
    | '/' :: '/' :: r => (String.ofList (r.takeWhile (· ≠ '/')), r.dropWhile (· ≠ '/'))
    | _ => ("", cs)
  let cs := cs.takeWhile (· ≠ '#')
  let name := cs.takeWhile (· ≠ '?')
  let given := localParameters (cs.drop (name.length + 1))
  let vfs := last? "vfs" given
  if authority ∉ ["", "localhost"] || vfs.any (!fileSystems.contains ·)
      || given.any (fun (n, v) => n = "cache" && v ∉ ["private", "shared"]) then
    throw (.database .other)
  let modes := given.filterMap fun (n, v) => if n = "mode" then some v else none
  let access ← orError (.database .other) (modes.foldlM Access.change? access)
  let location := ofPath (decodePart name) access ((given.lookup "immutable").any affirms) vfs
  if location matches .file .. && (given.lookup "modeof").isSome then throw (.database .other)
  return location

/-- The location that an address names. A path may again be an address of a file, unless a parameter
says how files are reached or promises that nothing will change; then it ends at a null. -/
def parse (url : String) : Except Error Location := do
  let cs := url.toList
  let cs := dropAll "sqlite:" cs.length (dropAll "sqlite://" cs.length cs)
  let name := cs.takeWhile (· ≠ '?')
  let given := parameters (cs.drop (name.length + 1))
  let path ← orError (.database .configuration)
    (Text.Utf8.strict? (Text.Utf8.decode (Http.Percent.decode name)))
  if given.any fun p => !allows p.1 p.2 then throw (.database .configuration)
  let isReadOnly := given.contains ("mode", "ro")
  let access : Access :=
    if String.ofList name = ":memory:" || given.contains ("mode", "memory") then
      .memory (!isReadOnly)
    else if isReadOnly then .read
    else .create
  let vfs := (last? "vfs" given).map beforeNull
  let isFixed := (last? "immutable" given).any ["true", "1"].contains
  if vfs.isSome || isFixed then
    if vfs.any (!fileSystems.contains ·) then throw (.database .other)
    return ofPath (beforeNull path) access isFixed vfs
  else if path.contains '\x00' then throw (.database .other)
  else if path.startsWith "file:" then ofFileAddress (path.toList.drop 5) access
  else return ofPath path access false none

def segments (path : String) : List String :=
  (path.splitOn "/").filter fun s => s ≠ "" && s ≠ "."

/-- The segments of a path with the steps back taken. Those that lead out of a path without a
leading slash stay in front; above the root there is only the root. -/
def resolve (path : String) : List String :=
  (segments path).foldl (fun done s =>
    if s ≠ ".." then done ++ [s]
    else if done.all (· = "..") then (if path.startsWith "/" then [] else done ++ [s])
    else done.dropLast) []

/-- The bytes that the name of a file may have. Of one that can be written eight are left for the
files beside it, whose names are longer. -/
def longestName (isWritable : Bool) : Nat := if isWritable then 247 else 255

/-- Whether a file that is not there can be made, given the directories that are there by their
segments. No segment may be longer than a name, also one that is stepped back from. A path without a
leading slash begins at the working directory, and of what lies about that only the directories
above are known. -/
def canMake (directories : List (List String)) (path : String) (isWritable : Bool) : Bool :=
  let parts := resolve path
  match parts.getLast? with
  | none => false
  | some name =>
    let above := parts.dropLast
    if name = ".." || longestName isWritable < name.utf8ByteSize
        || (segments path).any (longestName false < ·.utf8ByteSize) then false
    else if path.startsWith "/" then directories.contains above && !directories.contains parts
    else above.all (· = "..")

/-- Whether a database that is not there yet can be opened at a location. -/
def opens (directories : List (List String)) : Location → Bool
  | file path mayCreate isWritable => mayCreate && canMake directories path isWritable
  | _ => true

end Location

end RunLedger.Store
