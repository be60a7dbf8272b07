/-!
# Folders of files

A working folder as a value: the files in it and below it, each under its path. Folders exist as far
as there are files in them.
-/
namespace MetricWiring

/-- Why a file gave no text. -/
inductive ReadError where
  | notFound
  | isDirectory
  | notADirectory
  | notText
  deriving DecidableEq, Repr

namespace ReadError

def message : ReadError → String
  | notFound => "No such file or directory (os error 2)"
  | isDirectory => "Is a directory (os error 21)"
  | notADirectory => "Not a directory (os error 20)"
  | notText => "stream did not contain valid UTF-8"

end ReadError

/-- The files of a folder. The names on a path are those of folders, and the last one is that of
the file. -/
structure Folder where
  files : List (List String × ByteArray)

namespace Folder

/-- The parts of a path between its slashes. -/
def parts (path : String) : List String := (path.toList.splitOn '/').map .ofList

/-- The names that a path is made of. Empty ones and single dots say nothing of where it leads. -/
def names (path : String) : List String :=
  (parts path).filter fun name => name != "" && name != "."

def ofFiles (files : List (String × ByteArray)) : Folder :=
  ⟨files.map fun file => (names file.1, file.2)⟩

def file? (folder : Folder) (place : List String) : Option ByteArray := folder.files.lookup place

/-- Whether the place is a folder: the top one, or one on the way to a file. -/
def isFolder (folder : Folder) (place : List String) : Bool :=
  place.isEmpty || folder.files.any fun file => place.isPrefixOf file.1 && place != file.1

/-- The bytes of the file at the end of a path, walked from the given place. Outside of the top
folder, where the place is `none`, nothing is known but that there are folders. -/
def walk (folder : Folder) (place : Option (List String)) :
    List String → Except ReadError ByteArray
  | [] => .error .isDirectory
  | name :: rest =>
    if name = "" || name = "." then folder.walk place rest
    else
      match place with
      | none => if name = ".." then folder.walk none rest else .error .notFound
      | some here =>
        if name = ".." then
          folder.walk (if here.isEmpty then none else some here.dropLast) rest
        else
          match folder.file? (here ++ [name]) with
          | some bytes => if rest.isEmpty then .ok bytes else .error .notADirectory
          | none =>
            if folder.isFolder (here ++ [name]) then folder.walk (some (here ++ [name])) rest
            else .error .notFound

/-- The bytes of the file that a path leads to. -/
def read (folder : Folder) (path : String) : Except ReadError ByteArray :=
  if path = "" then .error .notFound
  else folder.walk (if path.toList.head? = some '/' then none else some []) (parts path)

/-- The text of the file that a path leads to. -/
def readText (folder : Folder) (path : String) : Except ReadError String :=
  match folder.read path with
  | .ok bytes =>
    match String.fromUTF8? bytes with
    | some text => .ok text
    | none => .error .notText
  | .error e => .error e

end Folder

end MetricWiring
