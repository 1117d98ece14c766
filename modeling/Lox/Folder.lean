/-!
# A folder of files

A folder that is held in memory, as a program that is started in it sees it: a path is followed name
by name, and leads to a file, to a folder, or to the first reason why it cannot be followed. What
lies around the folder is not known, except that there is a folder around it.
-/

set_option autoImplicit false

namespace Lox

/-- What opening a path gives. -/
inductive Contents where
  | file (bytes : List UInt8)
  /-- A folder can be opened, but holds no bytes. -/
  | folder
  /-- Nothing can be opened, for a cause in the words of the system. -/
  | unopened (cause : String)

/-- Why a path cannot be followed. -/
inductive PathError where
  | notFound
  | denied
  | notFolder
  | nameTooLong
  deriving DecidableEq, Repr

namespace PathError

/-- All of them. -/
def all : List PathError :=
  [.notFound, .denied, .notFolder, .nameTooLong]

/-- The number by which the system knows an error. -/
def number : PathError → Nat
  | .notFound => 2
  | .denied => 13
  | .notFolder => 20
  | .nameTooLong => 36

/-- What the system calls an error. -/
def words : PathError → String
  | .notFound => "No such file or directory"
  | .denied => "Permission denied"
  | .notFolder => "Not a directory"
  | .nameTooLong => "File name too long"

/-- The wording of an error. -/
def message (e : PathError) : String :=
  e.words ++ " (os error " ++ toString e.number ++ ")"

end PathError

/-- Where a path has led so far. -/
inductive Place where
  /-- In the folder, after the names of the given way, the innermost first. -/
  | inside (way : List String)
  /-- In a folder around it. -/
  | outside
  deriving DecidableEq, Repr

/-- The files below a folder, each with the way to it, the innermost name first. -/
structure Folder where
  files : List (List String × List UInt8)

namespace Folder

/-- The first name in a path and those after it. Slashes set them apart. -/
def splitNames : List Char → List Char × List (List Char)
  | [] => ([], [])
  | c :: cs =>
    let (name, rest) := splitNames cs
    if c = '/' then ([], name :: rest) else (c :: name, rest)

/-- The names in a path. -/
def namesOf (path : String) : List String :=
  let (name, rest) := splitNames path.toList
  (name :: rest).map String.ofList

/-- The folder with the given files. A later file replaces an earlier one of the same path. -/
def ofFiles (files : List (String × List UInt8)) : Folder :=
  ⟨(files.map fun (path, bytes) => ((namesOf path).reverse, bytes)).reverse⟩

/-- The bytes of the file at the end of a way. -/
def file? (folder : Folder) (way : List String) : Option (List UInt8) :=
  folder.files.lookup way

/-- Whether a place is a folder. Every file has the folders on its way. -/
def isFolder (folder : Folder) : Place → Bool
  | .outside => true
  | .inside way => way.isEmpty || folder.files.any fun (file, _) => way != file && way.isSuffixOf file

/-- The most bytes that a name may have. -/
def longestName : Nat := 255

/-- The most bytes that a path may have. -/
def longestPath : Nat := 4095

/-- Follows one name from a place. A single dot stays, and two dots lead outwards. -/
def enter (folder : Folder) (place : Place) (name : String) : Except PathError Place :=
  if !folder.isFolder place then .error .notFolder
  else if name == "" || name == "." then .ok place
  else
    match name, place with
    | "..", .inside (_ :: way) => .ok (.inside way)
    | "..", _ => .ok .outside
    | _, .outside => .error (if longestName < name.utf8ByteSize then .nameTooLong else .notFound)
    | _, .inside way =>
      if longestName < name.utf8ByteSize then .error .nameTooLong
      else if (folder.file? (name :: way)).isSome || folder.isFolder (.inside (name :: way)) then
        .ok (.inside (name :: way))
      else .error .notFound

/-- Follows a path. One that begins with a slash leads outside at once. -/
def follow (folder : Folder) (path : String) : Except PathError Place :=
  if path.isEmpty then .error .notFound
  else if longestPath < path.utf8ByteSize then .error .nameTooLong
  else
    (namesOf path).foldlM folder.enter
      (if path.toList.head? = some '/' then .outside else .inside [])

/-- What a path leads to. -/
def contents (folder : Folder) (path : String) : Contents :=
  match folder.follow path with
  | .error e => .unopened e.message
  | .ok .outside => .folder
  | .ok (.inside way) =>
    match folder.file? way with
    | some bytes => .file bytes
    | none => .folder

end Folder

end Lox
