import Backdate.Text.Utf8

/-!
# Files and paths

A tree of directories and files, and the paths that lead through it. Names are
bytes and need not be UTF-8; a text stands for its UTF-8. There are no links, and
no permissions: what is there can be read and entered.

A path is **canonical** as the list of names from the root; each spelling of a
path (with `.`, `..`, repeated and trailing slashes) leads to one canonical path
or nowhere (`FileTree.canonical`).
-/

namespace Backdate

/-- Why a path leads nowhere, or to something that cannot be read. -/
inductive PathError where
  | notFound
  | notDirectory
  | isDirectory
  | tooLong
  | notUtf8
  /-- The path itself has a NUL in it. -/
  | nul
  deriving DecidableEq, Repr

def PathError.message : PathError → String
  | .notFound => "No such file or directory (os error 2)"
  | .notDirectory => "Not a directory (os error 20)"
  | .isDirectory => "Is a directory (os error 21)"
  | .tooLong => "File name too long (os error 36)"
  | .notUtf8 => "stream did not contain valid UTF-8"
  | .nul => "file name contained an unexpected NUL byte"

/-- Whether there is a NUL in a text. -/
def Text.hasNul (s : String) : Bool := s.toList.contains '\x00'

/-- The parts between slashes of a path that is a text. -/
def pathParts (path : String) : List String :=
  (path.toList.splitOn '/').map String.ofList

def isAbsolutePath (path : String) : Bool := path.toList.head? == some '/'

/-- A name in a directory, or a path. -/
abbrev Bytes := List UInt8

/-- A text stands for its bytes. -/
instance : Coe String Bytes := ⟨Text.encode⟩

instance : Coe (List String) (List Bytes) := ⟨List.map Text.encode⟩

namespace Bytes

def slash : UInt8 := 0x2F

def dot : UInt8 := 0x2E

/-- The parts of a path between slashes. -/
def parts (path : Bytes) : List Bytes := path.splitOn slash

def isAbsolute (path : Bytes) : Bool := path.head? == some slash

/-- A path as seen from a directory. -/
def join (directory path : Bytes) : Bytes :=
  if path.isAbsolute then path else directory ++ slash :: path

end Bytes

/-- The longest name in a directory, in bytes. -/
def maxName : Nat := 255

/-- The longest path that is opened or entered, in bytes. -/
def maxPath : Nat := 4095

/-- A file or a directory. -/
inductive FileTree where
  | file (content : List UInt8)
  | directory (entries : List (Bytes × FileTree))

namespace FileTree

/-- The entries of a directory; a file has none. -/
def entries : FileTree → List (Bytes × FileTree)
  | .file _ => []
  | .directory entries => entries

/-- What a name in a directory stands for. -/
def child? (t : FileTree) (name : Bytes) : Option FileTree := t.entries.lookup name

/-- What a canonical path leads to. -/
def at? (t : FileTree) : List Bytes → Option FileTree
  | [] => some t
  | name :: names => (t.child? name).bind fun sub => sub.at? names

/-- A tree with `leaf` at a canonical path, and directories on the way to it. -/
def put (leaf : FileTree) : List Bytes → FileTree → FileTree
  | [], _ => leaf
  | name :: names, t =>
    let sub := put leaf names ((t.child? name).getD (.directory []))
    .directory (t.entries.filter (fun e => e.1 != name) ++ [(name, sub)])

/-- A tree with a directory at a canonical path, unless something is there. -/
def makeDirectory (t : FileTree) (path : List Bytes) : FileTree :=
  match t.at? path with
  | some _ => t
  | none => put (.directory []) path t

/-- Follows the parts of a path from a canonical one. Each part, also an empty one, is looked for
in a directory. -/
def walk (t : FileTree) (here : List Bytes) : List Bytes → Except PathError (List Bytes)
  | [] => .ok here
  | part :: parts =>
    match t.at? here with
    | none => .error .notFound
    | some (.file _) => .error .notDirectory
    | some (.directory entries) =>
      if part = [] ∨ part = [Bytes.dot] then t.walk here parts
      else if part = [Bytes.dot, Bytes.dot] then t.walk here.dropLast parts
      else if maxName < part.length then .error .tooLong
      else if (entries.lookup part).isSome then t.walk (here ++ [part]) parts
      else .error .notFound

/-- The canonical path that a path leads to, seen from a directory. The path is followed part by
part, so it may be of any length; the empty path leads nowhere. -/
def canonical (t : FileTree) (directory path : Bytes) : Except PathError (List Bytes) :=
  if 0 ∈ path then .error .nul
  else if path = [] then .error .notFound
  else t.walk [] (directory.join path).parts

/-- What a path opens, seen from a directory. The path is taken as a whole, so its length is
limited. -/
def access (t : FileTree) (directory path : Bytes) : Except PathError FileTree :=
  if 0 ∉ path ∧ maxPath < path.length then .error .tooLong
  else
    match t.canonical directory path with
    | .error why => .error why
    | .ok here => (t.at? here).elim (.error .notFound) .ok

/-- The text of the file that a path leads to, seen from a directory. -/
def read (t : FileTree) (directory path : Bytes) : Except PathError String :=
  match t.access directory path with
  | .error why => .error why
  | .ok (.directory _) => .error .isDirectory
  | .ok (.file content) =>
    match Text.decode? content with
    | none => .error .notUtf8
    | some s => .ok s

/-- Why the directory that a path leads to cannot be entered, if it cannot. -/
def blocked? (t : FileTree) (directory path : Bytes) : Option PathError :=
  match t.access directory path with
  | .error why => some why
  | .ok (.directory _) => none
  | .ok (.file _) => some .notDirectory

/-- Whether a path leads to a directory, seen from a directory. -/
def hasDirectory (t : FileTree) (directory path : Bytes) : Bool :=
  match t.canonical directory path with
  | .error _ => false
  | .ok here =>
    match t.at? here with
    | some (.directory _) => true
    | _ => false

/-- The way from one path to another below it, both seen from a directory: a text, with what is no
UTF-8 in a name replaced. -/
def relative? (t : FileTree) (directory file top : Bytes) : Option String :=
  match t.canonical directory file, t.canonical directory top with
  | .ok file, .ok top =>
    if top.isPrefixOf file ∧ top.length < file.length then
      some (String.intercalate "/" ((file.drop top.length).map Text.decodeLossy))
    else none
  | _, _ => none

end FileTree

end Backdate
