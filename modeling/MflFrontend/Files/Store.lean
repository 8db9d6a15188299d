import MflFrontend.Grammar.Program
import MflFrontend.Text.Utf8

/-!
# Reading source files

A `FileStore` is a working directory: names with contents, some of which are directories. Paths are
resolved step by step; a step through something that is not a directory fails, and so does a step to
a name that is not there. Nothing is known to lie outside the working directory.

`FileStore.readText` reads a file as source text: strict UTF-8, with unified line ends and a byte
order mark left in place. `FileStore.parseFile` reads that text as a program.
-/

namespace MflFrontend

/-- What a name in a working directory stands for. -/
inductive FileEntry where
  /-- A file with its bytes. -/
  | file (bytes : List UInt8)
  /-- A directory. -/
  | directory

/-- A working directory: paths inside it, as lists of names, and what they stand for. -/
structure FileStore where
  /-- The entries, by path. -/
  entries : List (List (List Char) × FileEntry)

/-- Why a file cannot be opened. -/
inductive FileFault where
  /-- The path holds a NUL character. -/
  | embeddedNul
  /-- There is no such file. -/
  | notFound (path : String)
  /-- The path ends at a directory. -/
  | isDirectory (path : String)
  /-- The path goes through something that is not a directory. -/
  | notDirectory (path : String)
  /-- The path or a name in it is longer than file systems take. -/
  | nameTooLong (path : String)
  deriving DecidableEq

/-- The wording of a file fault. -/
def FileFault.message : FileFault → String
  | embeddedNul => "embedded null byte"
  | notFound path => numbered 2 "No such file or directory" path
  | isDirectory path => numbered 21 "Is a directory" path
  | notDirectory path => numbered 20 "Not a directory" path
  | nameTooLong path => numbered 36 "File name too long" path
where
  /-- A message with the number of its cause and the path concerned. -/
  numbered (n : Nat) (text path : String) : String :=
    "[Errno " ++ integerText n ++ "] " ++ text ++ ": " ++ String.ofList (quoted path.toList)

/-- Why a file does not come back as text. -/
inductive ReadFault where
  /-- The file cannot be opened. -/
  | file (fault : FileFault)
  /-- The file is not UTF-8. -/
  | undecodable (fault : Utf8Fault)
  deriving DecidableEq

/-- The wording of a read fault. -/
def ReadFault.message : ReadFault → String
  | file fault => fault.message
  | undecodable fault => fault.message

/-- The names that a path is made of, split at the slashes. -/
def pathNames : List Char → List (List Char)
  | [] => [[]]
  | '/' :: cs => [] :: pathNames cs
  | c :: cs =>
    match pathNames cs with
    | [] => [[c]]
    | name :: names => (c :: name) :: names

/-- The number of bytes that a text takes in UTF-8. -/
def byteLength : List Char → Nat
  | [] => 0
  | c :: cs => c.utf8Size + byteLength cs

/-- The most bytes that a name may take. -/
def maxNameBytes : Nat := 255

/-- The most bytes that a path may take. -/
def maxPathBytes : Nat := 4095

/-- A place that a path has led to. -/
inductive Place where
  /-- A directory, by its path in the working directory. -/
  | directory (path : List (List Char))
  /-- A directory outside the working directory. -/
  | outside
  /-- A file. -/
  | file (bytes : List UInt8)

namespace FileStore

/-- The store whose entries have the given names, in which slashes separate directories. -/
def ofNames (entries : List (String × FileEntry)) : FileStore :=
  ⟨entries.map fun (name, entry) => (pathNames name.toList, entry)⟩

/-- What lies at a path inside the working directory. The directories on the way to an entry are
there with it. -/
def lookup (s : FileStore) (path : List (List Char)) : Option Place :=
  match s.entries.find? fun entry => entry.1 == path with
  | some (_, .file bytes) => some (.file bytes)
  | some (_, .directory) => some (.directory path)
  | none =>
    if path.isEmpty || s.entries.any fun entry => path.isPrefixOf entry.1 then
      some (.directory path)
    else none

/-- One step along a path. -/
def step (s : FileStore) (path : String) (place : Place) (name : List Char) :
    Except FileFault Place :=
  match place with
  | .file _ => .error (.notDirectory path)
  | .outside => if name = [] ∨ name = ['.'] ∨ name = ['.', '.'] then .ok .outside
    else .error (.notFound path)
  | .directory here =>
    if name = [] ∨ name = ['.'] then .ok (.directory here)
    else if name = ['.', '.'] then
      .ok (if here.isEmpty then .outside else .directory here.dropLast)
    else if maxNameBytes < byteLength name then .error (.nameTooLong path)
    else
      match s.lookup (here ++ [name]) with
      | some place => .ok place
      | none => .error (.notFound path)

/-- The place that a path leads to. -/
def resolve (s : FileStore) (path : String) : Except FileFault Place :=
  let cs := path.toList
  if cs.contains (Char.ofNat 0) then .error .embeddedNul
  else if cs.isEmpty then .error (.notFound path)
  else if maxPathBytes < byteLength cs then .error (.nameTooLong path)
  else
    (pathNames cs).foldlM (s.step path)
      (if cs.head? == some '/' then .outside else .directory [])

/-- The bytes of a file. -/
def read (s : FileStore) (path : String) : Except FileFault (List UInt8) :=
  match s.resolve path with
  | .error fault => .error fault
  | .ok (.file bytes) => .ok bytes
  | .ok _ => .error (.isDirectory path)

end FileStore

/-- The bytes of a file as source text. -/
def sourceText (bytes : List UInt8) : Except Utf8Fault String :=
  (Utf8.decode bytes).map fun cs => String.ofList (unifyLineEnds cs)

/-- A file as source text, when its bytes were asked for with this result. -/
def readSource (bytes : Except FileFault (List UInt8)) : Except ReadFault String :=
  match bytes with
  | .error fault => .error (.file fault)
  | .ok bytes =>
    match sourceText bytes with
    | .error fault => .error (.undecodable fault)
    | .ok text => .ok text

/-- A file of the store as source text. -/
def FileStore.readText (s : FileStore) (path : String) : Except ReadFault String :=
  readSource (s.read path)

/-- Reads a file of the store as a program, in the given room. -/
def FileStore.parseFile (s : FileStore) (room : Nat) (path : String) :
    Except ReadFault ParseReport :=
  (s.readText path).map (parseText room)

end MflFrontend
