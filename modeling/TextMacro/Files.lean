import TextMacro.Error

/-!
# Files

The files that a program can see: a tree of directories, written down as the places in it. Paths are
walked component by component from the working directory or from the root, and each way in which a
walk can fail is an error of its own.
-/

namespace TextMacro

/-- What stands at a place of the tree. -/
inductive Node where
  | file (content : ByteArray)
  | directory

/-- A place in the tree: the components from the working directory on, or from the root on if the
first one is empty. -/
abbrev Place := List String

/-- The files and directories there are. -/
structure Files where
  nodes : List (Place × Node)
  /-- The paths that programs have asked for, the latest first. -/
  sought : List String

namespace Files

/-- The greatest number of bytes a component may have. -/
def maxComponent : Nat := 255

/-- The greatest number of bytes a path may have. -/
def maxPath : Nat := 4095

/-- An empty working directory. -/
def empty : Files := ⟨[], []⟩

/-- A file system of which nothing is said has no files. -/
instance : Inhabited Files := ⟨empty⟩

/-- Whether a place is there whatever the files are: the root, the working directory and those
above it. -/
def isFixed (place : Place) : Bool :=
  place == [""] || place.all (· == "..")

/-- What stands at a place. -/
def node? (files : Files) (place : Place) : Option Node :=
  if isFixed place then some .directory else files.nodes.lookup place

/-- Whether a directory stands at a place. -/
def isDirectory (files : Files) (place : Place) : Bool :=
  match files.node? place with
  | some .directory => true
  | _ => false

/-- Puts something at a place. -/
def put (files : Files) (place : Place) (node : Node) : Files :=
  { files with nodes := (place, node) :: files.nodes.filter (·.1 != place) }

/-- The place one step up. -/
def parent (place : Place) : Place :=
  if place == [""] then place
  else if place.all (· == "..") then place ++ [".."]
  else place.dropLast

/-- The place that one component leads to. -/
def child (place : Place) (component : String) : Place :=
  if component == "" || component == "." then place
  else if component == ".." then parent place
  else place ++ [component]

/-- Follows components from a place. -/
def walk (files : Files) (place : Place) : List String → Except StreamProblem Place
  | [] => .ok place
  | component :: rest =>
    match files.node? place with
    | none => .error .notFound
    | some (.file _) => .error .notDirectory
    | some .directory =>
      let next := child place component
      if maxComponent < component.utf8ByteSize then .error .nameTooLong
      else if (files.node? next).isNone then .error .notFound
      else files.walk next rest

/-- The components of a path and the place to follow them from. -/
def start (path : String) : Except StreamProblem (Place × List String) :=
  if path.toList.contains '\x00' then .error .nulInName
  else if path.isEmpty then .error .notFound
  else if maxPath < path.utf8ByteSize then .error .nameTooLong
  else
    match path.splitOn "/" with
    | "" :: components => .ok ([""], components)
    | components => .ok ([], components)

/-- The place a path leads to. -/
def locate (files : Files) (path : String) : Except StreamProblem Place := do
  let (place, components) ← start path
  files.walk place components

/-- The content of the file at a place. -/
def contentAt (files : Files) (place : Place) : Except StreamProblem ByteArray :=
  match files.node? place with
  | some (.file content) => .ok content
  | some .directory => .error .isDirectory
  | none => .error .notFound

/-- The content of the file a path leads to. -/
def read (files : Files) (path : String) : Except StreamProblem ByteArray := do
  files.contentAt (← files.locate path)

/-- The content of the file a path leads to, which has to be a text. -/
def readText (files : Files) (path : String) : Except StreamProblem String := do
  let content ← files.read path
  match String.fromUTF8? content with
  | some text => .ok text
  | none => .error .notText

/-- Whether a path leads to a file. -/
def isFile (files : Files) (path : String) : Bool :=
  match files.read path with
  | .ok _ => true
  | .error _ => false

/-- Makes an empty file, or empties the one a path leads to. -/
def create (files : Files) (path : String) : Except StreamProblem (Place × Files) := do
  let (place, components) ← start path
  let named := (components.reverse.dropWhile (· == "")).reverse
  match named.getLast? with
  | none => .error .isDirectory
  | some last =>
    let place ← files.walk place named.dropLast
    match files.node? place with
    | none => .error .notFound
    | some (.file _) => .error .notDirectory
    | some .directory =>
      let target := place ++ [last]
      if last == "." || last == ".." || named.length < components.length then .error .isDirectory
      else if maxComponent < last.utf8ByteSize then .error .nameTooLong
      else if files.isDirectory target then .error .isDirectory
      else .ok (target, files.put target (.file ByteArray.empty))

/-- Adds bytes at the end of a file; a directory stays as it is. -/
def extended (node : Node) (bytes : ByteArray) : Node :=
  match node with
  | .file content => .file (content ++ bytes)
  | .directory => .directory

/-- Adds bytes at the end of the file at a place. -/
def append (files : Files) (place : Place) (bytes : ByteArray) : Files :=
  let ⟨nodes, sought⟩ := files
  ⟨nodes.map fun (p, node) => (p, if p == place then extended node bytes else node), sought⟩

/-- Makes a place a directory if nothing stands there. -/
def ensureDirectory (files : Files) (place : Place) : Files :=
  if (files.node? place).isSome then files else files.put place .directory

/-- Puts something where a path leads, with the directories on the way. -/
def install (files : Files) (path : String) (node : Node) : Files :=
  let (place, components) : Place × List String := match path.splitOn "/" with
    | "" :: components => ([""], components)
    | components => ([], components)
  let (files, place) := components.foldl
    (fun (files, place) component => (files.ensureDirectory place, child place component))
    (files, place)
  files.put place node

/-- Notes that a program has asked for a path. -/
def note (files : Files) (path : String) : Files :=
  { files with sought := path :: files.sought }

end Files

end TextMacro
