import Phrasebook.Retry
import Phrasebook.Schema
import Phrasebook.Text.Basic

/-!
# Hosts and stores

What a program asks of the system that it runs on: files, a network, and time. All of it happens
in a monad, so the same program runs on the real system and on a file tree in memory. A preference
store keeps one text under each key; the store in a folder keeps each in a file of that name.
-/

namespace Phrasebook

/-- Of two computations in a row, both succeed if the whole does. -/
theorem bind_eq_ok_iff {ε α β : Type} {x : Except ε α} {f : α → Except ε β} {b : β} :
    x >>= f = .ok b ↔ ∃ a, x = .ok a ∧ f a = .ok b := by
  cases x <;> simp [bind, Except.bind]

/-! ## File paths

A path is a text of names with slashes between them; it is absolute if it starts with one. Empty
names and `.` do not lead anywhere. Nothing here looks at the file system.
-/

namespace Path

def isAbsolute (path : String) : Bool := path.toList.head? = some '/'

/-- The path of `relative` below `base`; an absolute path stands for itself. -/
def join (base relative : String) : String :=
  if isAbsolute relative || base.isEmpty then relative
  else if base.toList.getLast? = some '/' then base ++ relative
  else base ++ "/" ++ relative

/-- A name that does not lead anywhere. -/
def isIdle (name : List Char) : Bool := name.isEmpty || name = ['.']

/-- The length of the start of a path that belongs to no name: the slash of an absolute path, or
a dot in front of everything else. -/
def leadLength : List Char → Nat
  | '/' :: _ => 1
  | ['.'] => 1
  | '.' :: '/' :: _ => 1
  | _ => 0

/-- The path of the folder that a path is in, by its text alone. The empty path and a path of
slashes alone are in no folder. -/
def parent? (path : String) : Option String :=
  let s := path.toList
  let lead := s.take (leadLength s)
  match (Text.splitOn '/' (s.drop (leadLength s))).reverse.dropWhile isIdle with
  | _ :: above => some (String.ofList (lead ++ Text.joinWith '/' (above.dropWhile isIdle).reverse))
  | [] => if lead = ['.'] then some "" else none

/-- `path` and the paths above it, the innermost first, as long as they are not empty. There are
no more of them than `path` has characters. -/
def ancestors (path : String) : List String := go path.length path
where
  go : Nat → String → List String
    | 0, _ => []
    | steps + 1, path =>
      if path.isEmpty then []
      else
        match parent? path with
        | some above => path :: go steps above
        | none => [path]

end Path

/-! ## Hosts -/

/-- Why a file could not be read, with the system's own words. -/
inductive ReadFault where
  /-- There is no such file. -/
  | missing (detail : String)
  | refused (detail : String)
  deriving DecidableEq, Repr

def ReadFault.detail : ReadFault → String
  | missing detail => detail
  | refused detail => detail

structure Response where
  status : Nat
  /-- The text of the body, unless it broke off or is no text. -/
  body : Option String
  deriving DecidableEq, Repr

/-- A system; a fault without a type of its own is the system's own words. -/
structure Host (m : Type → Type) where
  readText : (path : String) → m (Except ReadFault String)
  /-- Creates a folder and the folders above it, as far as they are not there. -/
  createFolders : (path : String) → m (Except String Unit)
  /-- Writes a file in place of the one that may be there. -/
  writeText : (path text : String) → m (Except String Unit)
  /-- Asks for the document at an address. -/
  request : (url : String) → m (Except String Response)
  wait : Duration → m Unit

/-! ## Preference stores -/

def languageKey : String := "lang"

structure PreferenceStore (m : Type → Type) where
  get : (key : String) → m (Except StoreFault (Option String))
  set : (key value : String) → m (Except StoreFault Unit)

def PreferenceStore.unavailable {m : Type → Type} [Monad m] : PreferenceStore m where
  get _ := return .error .unavailable
  set _ _ := return .error .unavailable

/-! ## Stores in a folder

White space around a stored text does not count, and a blank file stores nothing.
-/

namespace PreferenceStore

variable {m : Type → Type} [Monad m]

def stored? (contents : String) : Option String :=
  let text := Text.trimmed contents
  if text.isEmpty then none else some text

/-- The store whose files are in `folder`, which is created when something is stored. -/
def inFolder (host : Host m) (folder : String) : PreferenceStore m where
  get key := do
    let path := Path.join folder key
    match ← host.readText path with
    | .ok contents => return .ok (stored? contents)
    | .error (.missing _) => return .ok none
    | .error (.refused detail) => return .error (.refused .read path detail)
  set key value := do
    match ← host.createFolders folder with
    | .error detail => return .error (.refused .create folder detail)
    | .ok () =>
      let path := Path.join folder key
      match ← host.writeText path value with
      | .error detail => return .error (.refused .write path detail)
      | .ok () => return .ok ()

end PreferenceStore

end Phrasebook
