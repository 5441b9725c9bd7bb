import Sequencer.Settings.Variables

/-! What settings are loaded from: files below the current directory, and environment variables. A
path is walked part by part. Every part but the last has to lead to a directory, also where the
next part is empty or leads back; above the current directory nothing is known but that there are
directories. -/

namespace Sequencer

structure Surroundings where
  /-- The texts of the files by their paths from the current directory. -/
  files : List (String × String) := []
  environment : Variables := []

inductive Found where
  | file (text : String)
  | directory
  | nothing

inductive Place where
  /-- Below the current directory, by the names on the way. -/
  | below (names : List String)
  | outside

def Place.parent : Place → Place
  | .below [] => .outside
  | .below names => .below names.dropLast
  | .outside => .outside

/-! ### Paths -/

namespace FilePath

def sizeLimit : Nat := 4095

def splitParts (current : List Char) : List Char → List String
  | [] => [String.ofList current.reverse]
  | c :: r =>
    if c = '/' then String.ofList current.reverse :: splitParts [] r
    else splitParts (c :: current) r

def parts (path : String) : List String := splitParts [] path.toList

def staysPut (part : String) : Bool := part == "" || part == "."

/-- The path with an extension added to the name that it ends in, if it does end in a name. -/
def extend? (path extension : String) : Option String :=
  match (parts path).reverse.dropWhile staysPut with
  | [] => none
  | p :: ps =>
    if p = ".." then none else some ("/".intercalate (ps.reverse ++ [p ++ "." ++ extension]))

end FilePath

namespace Surroundings

/-- What there is below the current directory under some names. -/
def entry (s : Surroundings) (names : List String) : Found :=
  let named := s.files.map fun f => ((FilePath.parts f.1).filter (!FilePath.staysPut ·), f.2)
  match named.find? fun f => f.1 == names with
  | some f => .file f.2
  | none =>
    if names.isEmpty || named.any fun f => names.isPrefixOf f.1 then .directory else .nothing

def look (s : Surroundings) : Place → Found
  | .below names => s.entry names
  | .outside => .directory

def walk (s : Surroundings) (here : Place) : List String → Found
  | [] => s.look here
  | p :: ps =>
    match s.look here with
    | .directory =>
      if FilePath.staysPut p then walk s here ps
      else if p = ".." then walk s here.parent ps
      else
        match here with
        | .below names => walk s (.below (names ++ [p])) ps
        | .outside => .nothing
    | _ => .nothing

def find (s : Surroundings) (path : String) : Found :=
  if path.isEmpty || FilePath.sizeLimit < path.utf8ByteSize then .nothing
  else s.walk (if path.startsWith "/" then .outside else .below []) (FilePath.parts path)

end Surroundings
end Sequencer
