import Ambient.Bytes
import Ambient.Fault

/-!
# Disks

A disk holds directories and files, each at a list of names.  The names of what
lies below the current directory are those of the directories on the way;
outside of it they start with two dots or, for an absolute path, with a slash.
A path is taken apart at its slashes; empty parts and single dots have no
meaning, two dots go one directory up.  A path is encoded in bytes, in which a
low half of a surrogate pair may stand for a byte beyond ASCII; neither a path
nor a name may have too many bytes.
-/

namespace Ambient

namespace Path

def parts : List Char -> List (List Char)
  | [] => [[]]
  | c :: cs =>
      match parts cs with
      | [] => [[c]]
      | part :: more =>
          if c == '/' then [] :: part :: more else (c :: part) :: more

def components (path : String) : List String :=
  ((parts path.toList).filter fun part => part != [] && part != ['.']).map
    String.ofList

/-- The slashes that a path starts with, as they are kept: exactly two stay
two. -/
def root (path : String) : String :=
  match (path.toList.takeWhile (· == '/')).length with
  | 0 => ""
  | 2 => "//"
  | _ => "/"

def normalize (path : String) : String :=
  let plain := root path ++ "/".intercalate (components path)
  if plain = "" then "." else plain

def isAbsolute (path : String) : Bool := path.toList.head? == some '/'

def ending (path : String) : List (List Char) :=
  (parts path.toList).reverse.takeWhile fun part => part == [] || part == ['.']

/-- The names of a directory that is there on every disk: the current one, those
above it, and the root. -/
def isBase (names : List String) : Bool :=
  names == ["/"] || names.all (· == "..")

def step (here : List String) (part : String) : List String :=
  if part != ".." then here ++ [part]
  else if here == ["/"] then here
  else if isBase here then here ++ [part]
  else here.dropLast

def start (path : String) : List String := if isAbsolute path then ["/"] else []

def stepsFrom (here : List String) : List String -> List (List String)
  | [] => []
  | part :: rest => step here part :: stepsFrom (step here part) rest

def trail (path : String) : List (List String) :=
  stepsFrom (start path) (components path)

/-- Whether a code point stands for a single byte that encodes no character. -/
def isByteHalf (n : Nat) : Bool := 0xDC80 ≤ n && n ≤ 0xDCFF

def codeSize (n : Nat) : Nat :=
  if n < 0x80 || isByteHalf n then 1 else if n < 0x800 then 2
  else if n < 0x10000 then 3 else 4

def size (path : String) : Nat :=
  ((Text.codes path.toList).map codeSize).foldr (· + ·) 0

def nameLimit : Nat := 255

def pathLimit : Nat := 4095

/-- Refuses a path that cannot be encoded in bytes, that holds the null
character or that is too long. -/
def check (path : String) : Except Fault Unit :=
  let codes := Text.codes path.toList
  if codes.any fun n => Text.isHalf n && !isByteHalf n then .error .halfPair
  else if codes.contains 0 then .error .nullInPath
  else if pathLimit < size path then .error .longName
  else .ok ()

def ofBytes (bs : Bytes) : String :=
  match Text.decode? ⟨bs.toArray⟩ with
  | some path => path
  | none =>
      String.ofList (bs.flatMap fun b =>
        Text.ofCode (if b.toNat < 0x80 then b.toNat else 0xDC00 + b.toNat))

def ofNames : List String -> String
  | [] => "."
  | "/" :: names => "/" ++ "/".intercalate names
  | names => "/".intercalate names

end Path

inductive DiskNode where
  | directory
  | file (content : ByteArray)

structure Disk where
  nodes : List (List String × DiskNode)

namespace Disk

/-- What stands at a list of names.  The directories above a file exist with
it. -/
def node? (disk : Disk) (names : List String) : Option DiskNode :=
  if Path.isBase names then some .directory
  else
    match disk.nodes.lookup names with
    | some node => some node
    | none =>
        if disk.nodes.any fun entry => names.isPrefixOf entry.1
          then some .directory else none

def put (names : List String) (content : ByteArray) (disk : Disk) : Disk :=
  if disk.nodes.any fun entry => entry.1 == names then
    ⟨disk.nodes.map fun entry =>
      if entry.1 == names then (names, .file content) else entry⟩
  else ⟨disk.nodes ++ [(names, .file content)]⟩

/-- The names at which a walk along some parts ends.  Every part but the last
has to be a directory. -/
def walk (disk : Disk) : List String -> List String ->
    Except Fault (List String)
  | here, [] => .ok here
  | here, part :: rest =>
      match disk.node? here with
      | some .directory =>
          if Path.nameLimit < Path.size part then .error .longName
          else walk disk (Path.step here part) rest
      | some (.file _) => .error .notDirectory
      | none => .error .noFile

def locate (disk : Disk) (path : String) : Except Fault (List String) := do
  Path.check path
  disk.walk (Path.start path) (Path.components path)

/-- Whether a path leads to something; one that is too long leads nowhere, and
is a fault. -/
def isThere (disk : Disk) (path : String) : Except Fault Bool :=
  match disk.locate path with
  | .ok names => .ok (disk.node? names).isSome
  | .error .longName => .error .longName
  | .error _ => .ok false

def read (disk : Disk) (path : String) : Except Fault ByteArray := do
  match disk.node? (← disk.locate path) with
  | some (.file content) => return content
  | some .directory => .error .isDirectory
  | none => .error .noFile

/-- The names of the file that is written at a path.  A path that ends in a
slash or a dot asks for a directory. -/
def target (disk : Disk) (path : String) : Except Fault (List String) := do
  let names ← disk.locate path
  let ending := Path.ending path
  match disk.node? names with
  | some .directory => .error .isDirectory
  | some (.file _) =>
      if ending.isEmpty then return names else .error .notDirectory
  | none =>
      if ending.contains ['.'] then .error .noFile
      else if ending.isEmpty then return names
      else .error .isDirectory

end Disk
end Ambient
