import LispReader.Source.Path

namespace LispReader

inductive Entry
  | folder
  | file (contents : List UInt8)
  deriving DecidableEq

/-- What is below the working directory: each entry under the names that lead to it, the innermost
first. Of several entries under the same names the first counts. -/
structure Directory where
  entries : List (List String × Entry)

namespace Directory

def empty : Directory := ⟨[]⟩

def entry? (directory : Directory) (place : List String) : Option Entry :=
  if place = [] then some .folder else directory.entries.lookup place

def isFolder (directory : Directory) (place : List String) : Bool :=
  directory.entry? place = some .folder

def addFolder (directory : Directory) : List String → Directory
  | [] => directory
  | name :: outer => ⟨(name :: outer, .folder) :: (directory.addFolder outer).entries⟩

def addFile (directory : Directory) (contents : List UInt8) : List String → Directory
  | [] => directory
  | name :: outer => ⟨(name :: outer, .file contents) :: (directory.addFolder outer).entries⟩

/-- The place to which the parts of a path lead from a folder. Each part is looked up in a folder,
so that a file can be followed by nothing, not even a slash. -/
def walk? (directory : Directory) (place : List String) : List String → Option (List String)
  | [] => some place
  | part :: rest =>
      if !directory.isFolder place then none
      else if part = "" ∨ part = "." then directory.walk? place rest
      else if part = ".." then
        match place with
        | [] => none
        | _ :: outer => directory.walk? outer rest
      else directory.walk? (part :: place) rest

def contents? (directory : Directory) (path : String) : Option (List UInt8) :=
  if Path.isPath path ∧ path.toList.head? ≠ some '/' then
    match (directory.walk? [] (Path.segments path)).bind directory.entry? with
    | some (.file contents) => some contents
    | _ => none
  else none

end Directory

end LispReader
