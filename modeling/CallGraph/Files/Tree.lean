/-
  CallGraph.Files.Tree — files and directories, and the way of a path through them.

  A place in the tree is the list of the names from the root. A path is followed name by name:
  every name but the last has to be one of a directory, so a slash behind the name of a file leads
  nowhere. Two dots lead back, at the root to the root itself. A link is replaced by its target.
  What may be read, and where a new file may stand, is decided by the place that a path leads to.
  Whether a file takes what is written to it is another matter: a disk can be full.
-/

namespace CallGraph.Files

/-- The channels that a program starts with. -/
inductive Channel where
  | input
  | output
  | error
deriving DecidableEq

inductive Node where
  /-- No entries can be made in a fixed directory. -/
  | directory (isFixed : Bool)
  | file (content : ByteArray)
  /-- Can be read and not changed: it is not opened for writing, or else refuses with these words
  what is written. -/
  | fixed (content : ByteArray) (refusal : Option String)
  | link (target : String)
  | channel (c : Channel)
  /-- Holds nothing and takes everything. -/
  | sink
  /-- Takes everything and gives bytes without end, so it is never read whole. -/
  | endless
  /-- Takes nothing, and gives bytes without end. -/
  | full
  /-- Cannot be opened. -/
  | closed

/-- The names from the root. -/
abbrev Place := List String

structure Tree where
  /-- What stands where. A directory that something lies in needs no node of its own. -/
  nodes : List (Place × Node)
  /-- Where a path starts that does not start at the root. -/
  working : Place := []
  /-- What the input channel gives. -/
  input : ByteArray := .empty
  /-- Where a file can be made but takes nothing, since its disk is full. A disk that takes a part
  of a document only is left out. -/
  full : Place → Bool := fun _ => false

/-- The names of a path, between its slashes. -/
def names (path : String) : List String := (path.toList.splitOn '/').map String.ofList

/-- How far a path leads. -/
inductive Way where
  | arrived (place : Place)
  | nowhere
  /-- At a link in a directory, with the names behind it. -/
  | link (directory : Place) (target : String) (rest : List String)
deriving DecidableEq

/-- The most bytes that a name may have. -/
def maxName : Nat := 255

/-- The most bytes that a path may have. -/
def maxPath : Nat := 4095

/-- The most links that one path may lead through. -/
def maxLinks : Nat := 40

/-- What a full disk or device says. -/
def noSpace : String := "No space left on device (os error 28)"

namespace Tree

def node? (t : Tree) (place : Place) : Option Node :=
  match t.nodes.lookup place with
  | some n => some n
  | none =>
    if place = [] ∨ t.nodes.any fun n => place.isPrefixOf n.1 then some (.directory false) else none

def isDirectory (t : Tree) (place : Place) : Bool :=
  match t.node? place with
  | some (.directory _) => true
  | _ => false

/-- Whether a new entry can be made in a directory. -/
def isOpen (t : Tree) (place : Place) : Bool :=
  match t.node? place with
  | some (.directory isFixed) => !isFixed
  | _ => false

/-- Follows names from a place up to the first link. -/
def follow (t : Tree) (place : Place) : List String → Way
  | [] => .arrived place
  | name :: names =>
    if !t.isDirectory place || maxName < name.utf8ByteSize then .nowhere
    else if name = "" ∨ name = "." then t.follow place names
    else if name = ".." then t.follow place.dropLast names
    else
      match t.node? (place ++ [name]) with
      | some (.link target) => .link place target names
      | _ => t.follow (place ++ [name]) names

/-- Where the names of a path start that is met at a place. -/
def startOf (place : Place) (path : String) : Place := if path.startsWith "/" then [] else place

/-- The place that names lead to from another one, through a number of links at most. -/
def resolve (t : Tree) : Nat → Place → List String → Option Place
  | links, place, names =>
    match t.follow place names with
    | .arrived place => some place
    | .nowhere => none
    | .link directory target rest =>
      match links with
      | 0 => none
      | links + 1 => t.resolve links (startOf directory target) (Files.names target ++ rest)

/-- The place that a path leads to. Nothing needs to stand there yet. -/
def place? (t : Tree) (path : String) : Option Place :=
  if maxPath < path.utf8ByteSize then none
  else t.resolve maxLinks (startOf t.working path) (Files.names path)

/-- What is read under a path. -/
def read? (t : Tree) (path : String) : Option ByteArray :=
  match (t.place? path).bind t.node? with
  | some (.file content) | some (.fixed content _) => some content
  | some .sink => some .empty
  | some (.channel .input) => some t.input
  | _ => none

/-- What takes in what is written under a path. -/
inductive Target where
  | file (place : Place)
  | channel (c : Channel)
  /-- Takes everything. -/
  | sink
  /-- Takes nothing, and says why. -/
  | refusing (reason : String)
deriving DecidableEq

/-- Where a path leads for writing: to what is there, or to a new file in a directory. -/
def target? (t : Tree) (path : String) : Option Target :=
  match t.place? path with
  | none => none
  | some place =>
    match t.node? place with
    | some (.file _) => some (.file place)
    | some (.channel c) => some (.channel c)
    | some .sink | some .endless => some .sink
    | some .full => some (.refusing noSpace)
    | some (.fixed _ refusal) => refusal.map .refusing
    | some (.directory _) | some (.link _) | some .closed => none
    | none => if t.isOpen place.dropLast then some (.file place) else none

/-- Puts a file at a place, instead of what stands there. -/
def put (t : Tree) (place : Place) (content : ByteArray) : Tree :=
  { t with nodes := (place, .file content) :: t.nodes.filter fun n => n.1 ≠ place }

end Tree
end CallGraph.Files
