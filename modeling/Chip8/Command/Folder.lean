import Chip8.Command.Surroundings

/-!
# A folder of files

The files of a command, held in memory: a folder that contains files and no other folders, in a file
system of which only the usual folders at its root are known. A path is followed name by name, as a
file system does it, and the first name that cannot be followed decides what is wrong with the path.
A path to create has one rule more: a slash behind its last name asks for a folder, before anything
is known about that name.
-/

namespace Chip8.Command

structure Folder where
  entries : List (String × List UInt8)

/-- Where a name is looked up. -/
inductive Site
  /-- In the folder itself. -/
  | inside
  | root
  /-- In the usual folder at the root that has devices. -/
  | devices
  /-- In another usual folder at the root. -/
  | usual
  /-- In the folder that holds the folder itself, and that the root holds. -/
  | above
deriving DecidableEq

/-- Where a path leads. -/
inductive Place
  | folder
  /-- To the last name of the path. `slashed` says whether a slash follows it. -/
  | entry (site : Site) (name : String) (slashed : Bool)
  /-- Past a name that is not the last. -/
  | beyond (site : Site) (name : String)
  | nowhere
  /-- The whole path is longer than a file system takes. -/
  | tooLong
deriving DecidableEq

/-- The bytes that a name may have. -/
def maxNameSize : Nat := 255

/-- The bytes that a path may have. -/
def maxPathSize : Nat := 4095

/-- The folders that every root has, beside the one with the devices. -/
def usualFolders : List String :=
  ["bin", "etc", "home", "lib", "opt", "proc", "root", "run", "sbin", "sys", "tmp", "usr", "var"]

namespace Site

/-- The site above a site. -/
def up : Site → Site
  | inside => above
  | _ => root

/-- The site that a name leads to, if it is the name of a folder. -/
def step? (site : Site) (name : String) : Option Site :=
  if name = ".." then some site.up
  else if site = root && name = "dev" then some devices
  else if site = root && usualFolders.contains name then some usual
  else none

end Site

namespace Place

/-- Follows the names of a path from a site on. -/
def follow (site : Site) : List String → Place
  | [] => folder
  | name :: rest =>
    if name = "" || name = "." then follow site rest
    else
      match site.step? name with
      | some next => follow next rest
      | none => if rest.all (· = "") then entry site name !rest.isEmpty else beyond site name

/-- Where a path leads. -/
def ofPath (path : String) : Place :=
  if path = "" then nowhere
  else if maxPathSize < Text.byteSize path then tooLong
  else
    let names := (path.toList.splitOnP (· = '/')).map String.ofList
    follow (if names.head? = some "" then .root else .inside) names

end Place

namespace Folder

/-- The name of the file that a path leads to, or the path itself. -/
def plainName (path : String) : String :=
  let path := Text.whole path
  match Place.ofPath path with
  | .entry .inside name false => name
  | _ => path

/-- The file with a name at a site. Of those outside the folder only the empty device is known. -/
def get? (f : Folder) (site : Site) (name : String) : Option (List UInt8) :=
  match site with
  | .inside => f.entries.lookup name
  | .devices => if name = "null" then some [] else none
  | _ => none

/-- What is wrong with a path that goes on behind a name. -/
def behind (f : Folder) (site : Site) (name path : String) : FileError :=
  if maxNameSize < Text.byteSize name then .nameTooLong path
  else if (f.get? site name).isSome then .notDirectory path
  else .notFound path

/-- The bytes of the file that a path leads to. -/
def read (f : Folder) (path : String) : Except FileError (List UInt8) := do
  checkPath path
  let path := Text.whole path
  match Place.ofPath path with
  | .folder => .error .isDirectory
  | .entry site name slashed =>
    match f.get? site name, slashed with
    | some bytes, false => .ok bytes
    | _, _ => .error (f.behind site name path)
  | .beyond site name => .error (f.behind site name path)
  | .nowhere => .error (.notFound path)
  | .tooLong => .error (.nameTooLong path)

/-- Can a file be created under a path? -/
def create (f : Folder) (path : String) : Except FileError Unit := do
  checkPath path
  let path := Text.whole path
  match Place.ofPath path with
  | .folder => .error (.opensDirectory path)
  | .entry _ _ true => .error (.opensDirectory path)
  | .entry _ name false =>
    if maxNameSize < Text.byteSize name then .error (.nameTooLong path) else .ok ()
  | .beyond site name => .error (f.behind site name path)
  | .nowhere => .error (.notFound path)
  | .tooLong => .error (.nameTooLong path)

/-- What a command may do with the folder. -/
def files (f : Folder) : Files := ⟨f.read, f.create⟩

end Folder

end Chip8.Command
