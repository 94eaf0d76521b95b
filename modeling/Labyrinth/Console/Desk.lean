import Labyrinth.Console.Host
import Labyrinth.Console.Path

/-!
# Desks

A **desk** is a host without effects: a directory of named texts on an otherwise empty machine,
together with what has been printed. A path is followed part by part, as a machine does it: every
part but the last has to name a directory, also one that is left again at once.

## Main results

* `Desk.content_put`: what has been written is read back.
* `Desk.Writable.put`: a file that can be written can be written again.
-/

namespace Labyrinth.Console

/-- A place among all directories and files: the names that lead there from the root. -/
abbrev Place := List String

/-- The directories of an empty machine. -/
def machineDirectories : List Place :=
  [] :: ["bin", "boot", "dev", "etc", "home", "lib", "lib64", "media", "mnt", "opt", "proc", "root",
    "run", "sbin", "srv", "sys", "tmp", "usr", "var"].map ([·])

/-- An empty file that keeps nothing. -/
def nullDevice : Place := ["dev", "null"]

/-- The directory in which commands are carried out. -/
def workplace : Place := ["tmp", "desk"]

/-- The number of bytes from which on a path is too long. -/
def maxPathSize : Nat := 4096

/-- The number of bytes that a name can have. -/
def maxNameSize : Nat := 255

/-- A directory of texts, and what has been printed. -/
structure Desk where
  directories : List Place
  files : List (Place × String)
  output : String
  errors : String
  deriving DecidableEq, Repr

namespace Desk

/-- The directories that a file's place lies in. -/
def parents (place : Place) : List Place :=
  (List.range place.length).map place.take

/-- A directory of texts in which nothing has happened yet. -/
def ofFiles (files : List (String × String)) : Desk :=
  let placed := files.map fun (path, text) => (workplace ++ pathParts path, text)
  { directories := machineDirectories ++ workplace :: placed.flatMap fun f => parents f.1
    files := (nullDevice, "") :: placed
    output := ""
    errors := "" }

/-- Follows the steps of a path from a directory to the place it leads to, where a directory, a
file or nothing may be. -/
def follow (d : Desk) (directory : Place) : List String → Except FileError Place
  | [] => .ok directory
  | step :: steps =>
    if step = "" ∨ step = "." then d.follow directory steps
    else if step = ".." then d.follow directory.dropLast steps
    else if maxNameSize < step.utf8ByteSize then .error .nameTooLong
    else
      let place := directory ++ [step]
      if place ∈ d.directories then d.follow place steps
      else if steps = [] then .ok place
      else if (d.files.lookup place).isSome then .error .notDirectory
      else .error .notFound

/-- The place a path leads to. -/
def resolve (d : Desk) (path : String) : Except FileError Place :=
  if '\x00' ∈ path.toList then .error .invalidName
  else if maxPathSize ≤ path.utf8ByteSize then .error .nameTooLong
  else if path = "" then .error .notFound
  else d.follow (if isAbsolute path then [] else workplace) (pathSteps path)

/-- Reads what is at a place. -/
def textAt (d : Desk) (place : Place) : Except FileError String :=
  if place ∈ d.directories then .error .isDirectory
  else match d.files.lookup place with
    | some text => .ok text
    | none => .error .notFound

/-- Reads a file. -/
def content (d : Desk) (path : String) : Except FileError String :=
  d.resolve path >>= d.textAt

/-- Replaces the text of a file, or adds one. -/
def setFile (place : Place) (text : String) : List (Place × String) → List (Place × String)
  | [] => [(place, text)]
  | (other, old) :: rest =>
    if place == other then (place, text) :: rest else (other, old) :: setFile place text rest

/-- Writes a file, if its directory exists and if no directory has its name. -/
def put (d : Desk) (path text : String) : Desk :=
  match d.resolve path with
  | .error _ => d
  | .ok place =>
    if place ∈ d.directories ∨ place = nullDevice then d
    else { d with files := setFile place text d.files }

/-- A desk as a host. Time passes at once. -/
def host : Host (StateM Desk) where
  read path := do return (← get).content path
  write path text := modify fun d => d.put path text
  print text := modify fun d => { d with output := d.output ++ text }
  warn text := modify fun d => { d with errors := d.errors ++ text }
  wait _ := return

/-- Whether what is written at a path stays there. -/
def Writable (d : Desk) (path : String) : Prop :=
  ∃ place, d.resolve path = .ok place ∧ place ∉ d.directories ∧ place ≠ nullDevice

theorem lookup_setFile (place : Place) (text : String) (files : List (Place × String)) :
    (setFile place text files).lookup place = some text := by
  induction files with
  | nil => simp [setFile]
  | cons f files ih => grind [setFile]

theorem directories_put (d : Desk) (path text : String) :
    (d.put path text).directories = d.directories := by
  unfold put
  split
  · rfl
  · split <;> rfl

/-- Where a path leads depends on the directories alone. -/
theorem follow_congr {d e : Desk} (h : e.directories = d.directories) {directory : Place}
    {steps : List String} {place : Place} (hp : d.follow directory steps = .ok place) :
    e.follow directory steps = .ok place := by
  induction steps generalizing directory with
  | nil => exact hp
  | cons step steps ih =>
    simp only [follow, h] at hp ⊢
    repeat' split at hp
    all_goals first | exact ih hp | simp_all

theorem resolve_congr {d e : Desk} (h : e.directories = d.directories) {path : String}
    {place : Place} (hp : d.resolve path = .ok place) : e.resolve path = .ok place := by
  unfold resolve at hp ⊢
  repeat' split at hp
  all_goals simp_all [follow_congr h]

/-- What has been written is read back. -/
theorem content_put {d : Desk} {path : String} (h : d.Writable path) (text : String) :
    (d.put path text).content path = .ok text := by
  obtain ⟨place, hr, hd, hn⟩ := h
  have hr' := resolve_congr (directories_put d path text) hr
  have ht : (d.put path text).textAt place = .ok text := by
    simp [textAt, put, hr, hd, hn, lookup_setFile]
  simp only [content, hr']
  exact ht

/-- A file that can be written can be written again. -/
theorem Writable.put {d : Desk} {path other : String} (h : d.Writable path) (text : String) :
    (d.put other text).Writable path := by
  obtain ⟨place, hr, hd, hn⟩ := h
  have hdir := directories_put d other text
  exact ⟨place, resolve_congr hdir hr, by rwa [hdir], hn⟩

end Desk

end Labyrinth.Console
