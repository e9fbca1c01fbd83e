import Phrasebook.Host

/-!
# File trees

Files and folders in memory. A place is the list of names that lead to it from the root. A path is
read name by name: what it leads through has to be a folder, `..` goes up, and only the last name
may be one that is not there yet.
-/

namespace Phrasebook

abbrev Place := List String

inductive FileItem where
  | file (contents : ByteArray)
  | folder

/-- Why a file tree does not do what it is asked to. -/
inductive TreeFault where
  | missing
  | notFolder
  | isFolder
  | taken
  | badName
  | notText
  deriving DecidableEq, Repr

def TreeFault.message : TreeFault → String
  | missing => "no such file or folder"
  | notFolder => "not a folder"
  | isFolder => "is a folder"
  | taken => "exists already"
  | badName => "no name for a file"
  | notText => "the file does not hold text"

structure FileTree where
  /-- Everything but the root, which is always a folder. -/
  items : List (Place × FileItem)
  /-- The folder from which relative paths start. -/
  here : Place

namespace FileTree

/-- A tree of folders alone: the one from which relative paths start, and those above it. -/
def startingIn (here : Place) : FileTree where
  items := (List.range here.length).map fun n => (here.take (n + 1), .folder)
  here

def item? (tree : FileTree) (place : Place) : Option FileItem :=
  if place.isEmpty then some .folder else tree.items.lookup place

def put (tree : FileTree) (place : Place) (item : FileItem) : FileTree :=
  { tree with items := (place, item) :: tree.items.filter (·.1 ≠ place) }

theorem item?_put_self (tree : FileTree) {place : Place} (item : FileItem) (h : place ≠ []) :
    (tree.put place item).item? place = some item := by
  simp [item?, put, h]

theorem lookup_filter_ne {place other : Place} (items : List (Place × FileItem))
    (h : other ≠ place) :
    (items.filter (·.1 ≠ place)).lookup other = items.lookup other := by
  induction items with
  | nil => rfl
  | cons entry rest ih =>
    by_cases hp : entry.1 = place
    · have hb : (other == entry.1) = false := by simp [hp, h]
      rw [List.filter_cons_of_neg (by simp [hp]), List.lookup_cons, hb, ih]
    · rw [List.filter_cons_of_pos (by simp [hp]), List.lookup_cons, List.lookup_cons, ih]

theorem item?_put_of_ne (tree : FileTree) {place other : Place} (item : FileItem)
    (h : other ≠ place) : (tree.put place item).item? other = tree.item? other := by
  have hb : (other == place) = false := by simp [h]
  simp only [item?, put, List.lookup_cons, hb]
  rw [lookup_filter_ne _ h]

def maxNameBytes : Nat := 255

/-- The place that a name leads to from a folder. -/
def enter (tree : FileTree) (place : Place) (name : String) : Except TreeFault Place :=
  match tree.item? place with
  | none => .error .missing
  | some (.file _) => .error .notFolder
  | some .folder =>
    if Path.isIdle name.toList then .ok place
    else if name = ".." then .ok place.dropLast
    else if maxNameBytes < name.utf8ByteSize then .error .badName
    else .ok (place ++ [name])

def follow (tree : FileTree) (start : Place) (names : List String) : Except TreeFault Place :=
  names.foldlM tree.enter start

def start (tree : FileTree) (path : String) : Place :=
  if Path.isAbsolute path then [] else tree.here

/-- The names of a path; the empty path leads nowhere and no name has a NUL in it. -/
def names (path : String) : Except TreeFault (List String) :=
  if path.isEmpty then .error .missing
  else if path.toList.contains '\x00' then .error .badName
  else .ok (Text.parts '/' path)

def locate (tree : FileTree) (path : String) : Except TreeFault Place := do
  tree.follow (tree.start path) (← names path)

def readText (tree : FileTree) (path : String) : Except TreeFault String := do
  match tree.item? (← tree.locate path) with
  | none => .error .missing
  | some .folder => .error .isFolder
  | some (.file contents) =>
    match String.fromUTF8? contents with
    | some text => .ok text
    | none => .error .notText

/-- Writes a file, in a folder that is there. -/
def write (tree : FileTree) (path : String) (contents : ByteArray) :
    Except TreeFault FileTree := do
  let place ← tree.locate path
  match tree.item? place with
  | some .folder => .error .isFolder
  | _ => .ok (tree.put place (.file contents))

def isFolder (tree : FileTree) (path : String) : Bool :=
  match tree.locate path with
  | .ok place =>
    match tree.item? place with
    | some .folder => true
    | _ => false
  | .error _ => false

/-- Creates one folder, in a folder that is there. Slashes at the end of the path do not count. -/
def createFolder (tree : FileTree) (path : String) : Except TreeFault FileTree := do
  match (← names path).reverse.dropWhile String.isEmpty with
  | [] => .error .taken
  | last :: above =>
    let place ← tree.follow (tree.start path) (above.reverse ++ [last])
    match tree.item? place with
    | some _ => .error .taken
    | none => .ok (tree.put place .folder)

/-- Creates the folders of a list of paths, of which each is in the next, as far as they are not
there. -/
def createAll (tree : FileTree) : List String → Except TreeFault FileTree
  | [] => .ok tree
  | path :: above =>
    match tree.createFolder path with
    | .ok tree => .ok tree
    | .error .missing => do
      let tree ← tree.createAll above
      match tree.createFolder path with
      | .ok tree => .ok tree
      | .error fault => if tree.isFolder path then .ok tree else .error fault
    | .error fault => if tree.isFolder path then .ok tree else .error fault

/-- Creates a folder and the folders above it, as far as they are not there. The empty path is
there. -/
def createFolders (tree : FileTree) (path : String) : Except TreeFault FileTree :=
  tree.createAll (Path.ancestors path)

/-! ## Hosts in memory

The files of such a host are a file tree; its clock stands still and its network answers as it is
told to.
-/

def readFault : TreeFault → ReadFault
  | .missing => .missing TreeFault.missing.message
  | fault => .refused fault.message

def attempt (action : FileTree → Except TreeFault FileTree) :
    StateM FileTree (Except String Unit) := do
  match action (← get) with
  | .ok tree => do
    set tree
    return .ok ()
  | .error fault => return .error fault.message

def host (network : String → Except String Response) : Host (StateM FileTree) where
  readText path := return ((← get).readText path).mapError readFault
  createFolders path := attempt (·.createFolders path)
  writeText path text := attempt (·.write path text.toUTF8)
  request url := return network url
  wait _ := return ()

end FileTree

end Phrasebook
