/-!
# Files

Files in and below a directory, named by paths from it. Reading gives the text of a file, and
writing replaces a file or adds one to a directory that exists. A path is followed part by part;
everything that it passes through must be a directory.
-/

namespace ShaderGraph

inductive FileError where
  | notFound
  | notDirectory
  | isDirectory
  | nameTooLong
  /-- The bytes of a file encode no text. -/
  | notText
  | other (message : String)
deriving DecidableEq

namespace FileError

def message : FileError → String
  | .notFound => "No such file or directory (os error 2)"
  | .notDirectory => "Not a directory (os error 20)"
  | .isDirectory => "Is a directory (os error 21)"
  | .nameTooLong => "File name too long (os error 36)"
  | .notText => "stream did not contain valid UTF-8"
  | .other message => message

end FileError

/-- What a program can do with files. -/
structure FileSystem (m : Type → Type) where
  read : String → m (Except FileError String)
  write : String → String → m (Except FileError Unit)

inductive FileEntry where
  | directory
  | contents (bytes : ByteArray)

structure Files where
  /-- What there is, by the parts of its path. -/
  entries : List (List String × FileEntry)

/-- Where a path leads. -/
inductive Place where
  /-- In or below the directory, by the names on the way. -/
  | below (names : List String)
  /-- A directory that is not below. -/
  | above
  /-- Something in such a directory, of which nothing is known; it counts as absent. -/
  | elsewhere
deriving DecidableEq

namespace Files

/-- The bytes of a path and of a name in it are limited. -/
def pathLimit : Nat := 4095
def nameLimit : Nat := 255

/-- The parts of a path between slashes. -/
def parts (path : String) : List String := path.splitToList (· = '/')

def ofList (l : List (String × FileEntry)) : Files := ⟨l.map fun (path, e) => (parts path, e)⟩

/-- What is at a place; the directories above an entry are there too. -/
def get? (f : Files) : Place → Option FileEntry
  | .below names =>
    match f.entries.find? (·.1 = names) with
    | some (_, e) => some e
    | none =>
      if names.isEmpty || f.entries.any (fun entry => names.isPrefixOf entry.1) then
        some .directory
      else none
  | .above => some .directory
  | .elsewhere => none

/-- Follows one part of a path from a place, which must be a directory. -/
def step (f : Files) (place : Place) (part : String) : Except FileError Place :=
  match f.get? place with
  | none => .error .notFound
  | some (.contents _) => .error .notDirectory
  | some .directory =>
    if part = "" ∨ part = "." then .ok place
    else if part = ".." then
      match place with
      | .below names => .ok (if names.isEmpty then .above else .below names.dropLast)
      | _ => .ok .above
    else if nameLimit < part.utf8ByteSize then .error .nameTooLong
    else match place with
      | .below names => .ok (.below (names ++ [part]))
      | _ => .ok .elsewhere

/-- Where a path leads. If it is `entered`, a slash must follow its last name, which is left out. -/
def resolve (f : Files) (path : String) (entered : Bool) : Except FileError Place :=
  if path.isEmpty then .error .notFound
  else if pathLimit < path.utf8ByteSize then .error .nameTooLong
  else
    let names := ((parts path).reverse.dropWhile (· = "")).reverse
    let start : Place := if path.startsWith "/" then .above else .below []
    (if entered then names.dropLast ++ ["."] else names).foldlM f.step start

def read (f : Files) (path : String) : Except FileError String := do
  match f.get? (← f.resolve path false) with
  | none => .error .notFound
  | some .directory => .error .isDirectory
  | some (.contents bytes) =>
    if path.endsWith "/" then .error .notDirectory
    else match String.fromUTF8? bytes with
      | some text => .ok text
      | none => .error .notText

/-- What is written elsewhere is not kept. -/
def write (f : Files) (path : String) (text : String) : Except FileError Files := do
  let entered := path.endsWith "/"
  let place ← f.resolve path entered
  match f.get? place, place with
  | some .directory, _ => .error .isDirectory
  | _, .below names => .ok ⟨(names, .contents text.toUTF8) :: f.entries.filter (·.1 ≠ names)⟩
  | _, _ => .ok f

/-- The files as a program sees them. -/
def system : FileSystem (StateM Files) where
  read path := return (← get).read path
  write path text := do
    match (← get).write path text with
    | .ok f => set f; return .ok ()
    | .error e => return .error e

end Files

end ShaderGraph
