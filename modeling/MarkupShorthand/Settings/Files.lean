/-!
# Files

Files by their paths. A path is a list of names with slashes between; it starts at the root of all
directories if a slash is its first character, and at the working directory otherwise. Empty names
and single points lead nowhere else, two points lead to the directory above, and what a name is
looked up in must be a directory, so that a path with a slash at its end leads to no file. There are
no links.
-/

namespace MarkupShorthand

namespace FilePath

/-- The names in a path with one more character in front of it. -/
def addChar (c : Char) : List (List Char) → List (List Char)
  | [] => [[c]]
  | name :: names => if c = '/' then [] :: name :: names else (c :: name) :: names

/-- The names in a path, empty ones included. -/
def names (path : String) : List String :=
  (path.toList.foldr addChar [[]]).map String.ofList

/-- Whether a name in a path leads nowhere else. -/
def isVoid (name : String) : Bool :=
  name == "" || name == "."

/-- Whether a path starts at the root of all directories. -/
def isAbsolute (path : String) : Bool :=
  path.toList.head? == some '/'

/-- Where a name leads from a place. A place is told by the names on the way to it from the root,
the last one first; there is nothing above the root. -/
def enter (place : List String) (name : String) : List String :=
  if isVoid name then place else if name = ".." then place.tail else name :: place

/-- The path with `.toml` behind its last name, whatever the name ends in. A path without names has
none, nor has one that ends in two points. -/
def toml? (path : String) : Option String :=
  match (names path).reverse.dropWhile isVoid with
  | [] => none
  | last :: above =>
    if last = ".." then none
    else some ("/".intercalate ((last ++ ".toml") :: above).reverse)

end FilePath

open FilePath

/-- Some files, and the directory that paths start at. Every directory that leads to one of them
exists. -/
structure Files where
  /-- The texts of files by their paths. -/
  entries : List (String × String) := []
  /-- The paths of files that cannot be read as text. -/
  unreadable : List String := []
  /-- The paths of directories with none of these files in them. -/
  directories : List String := []
  /-- The path of the working directory from the root. -/
  workingDirectory : String := "work"

namespace Files

variable (files : Files)

/-- A path as it is from the root of all directories. -/
def absolute (path : String) : String :=
  if isAbsolute path then path else "/" ++ files.workingDirectory ++ "/" ++ path

/-- The place that a path is written for. -/
def place (path : String) : List String :=
  (names (files.absolute path)).foldl enter []

/-- The paths of all files. -/
def paths : List String :=
  files.entries.map (·.1) ++ files.unreadable

/-- Whether there is a directory at a place. -/
def isDirectory (place : List String) : Bool :=
  place.isSuffixOf (files.place "") ||
    files.directories.any (fun path => place.isSuffixOf (files.place path)) ||
    files.paths.any (fun path => place.isSuffixOf (files.place path).tail)

/-- The place that names lead to, if there is a directory wherever a name is looked up. -/
def walk : List String → List String → Option (List String)
  | place, [] => some place
  | place, name :: rest => if files.isDirectory place then walk (enter place name) rest else none

/-- The place that a path leads to. -/
def resolve? (path : String) : Option (List String) :=
  files.walk [] (names (files.absolute path))

/-- Whether a path leads to a file. -/
def isFile (path : String) : Bool :=
  (files.resolve? path).any fun place => files.paths.any (files.place · == place)

/-- The text of the file that a path leads to. -/
def read? (path : String) : Option String :=
  (files.resolve? path).bind fun place =>
    (files.entries.find? fun entry => files.place entry.1 == place).map (·.2)

/-- The text of a settings file: of the file itself if there is one, and otherwise of the one with
`.toml` behind its name. -/
def settings? (path : String) : Option String :=
  if files.isFile path then files.read? path
  else (toml? (files.absolute path)).bind files.read?

variable {files} {path : String} {names place : List String}

/-- It makes no difference whether a path is taken from the working directory or written out from
the root. -/
theorem read?_absolute (files : Files) (path : String) :
    files.read? (files.absolute path) = files.read? path := by
  have habsolute : isAbsolute (files.absolute path) = true := by
    rw [absolute]
    split
    · assumption
    · rw [String.append_assoc, String.append_assoc, isAbsolute, String.toList_append]
      rfl
  have hsame : files.absolute (files.absolute path) = files.absolute path := by
    rw [absolute, if_pos habsolute]
  rw [read?, read?, resolve?, resolve?, hsame]

/-- A walk that goes through directories ends where its names lead. -/
theorem eq_foldl_of_walk {stop : List String} (h : files.walk place names = some stop) :
    stop = names.foldl enter place := by
  induction names generalizing place with
  | nil => exact (Option.some.inj h).symm
  | cons name rest ih =>
    rw [walk] at h
    split at h
    · exact ih h
    · cases h

/-- Of two paths to one place, neither of which goes through what is no directory, it makes no
difference which is taken. -/
theorem read?_congr {path' : String} (hplace : files.place path = files.place path')
    (h : (files.resolve? path).isSome = true) (h' : (files.resolve? path').isSome = true) :
    files.read? path = files.read? path' := by
  obtain ⟨stop, hstop⟩ := Option.isSome_iff_exists.1 h
  obtain ⟨stop', hstop'⟩ := Option.isSome_iff_exists.1 h'
  have hsame : stop = stop' :=
    (eq_foldl_of_walk hstop).trans (hplace.trans (eq_foldl_of_walk hstop').symm)
  rw [read?, read?, hstop, hstop', hsame]

example :
    let files : Files := { entries := [("a.toml", "text")] }
    files.read? "/work/./a.toml" = some "text" ∧ files.read? "../work/a.toml" = some "text" ∧
      files.read? "missing/../a.toml" = none ∧ files.read? "a.toml/" = none := by
  decide +kernel

/-- Names that do not lead up lead to places below. -/
theorem suffix_foldl_enter (h : ".." ∉ names) (place : List String) :
    place <:+ names.foldl enter place := by
  induction names generalizing place with
  | nil => exact List.suffix_rfl
  | cons name rest ih =>
    obtain ⟨hname, hrest⟩ := not_or.1 (mt List.mem_cons.2 h)
    refine List.IsSuffix.trans ?_ (ih hrest (enter place name))
    rw [enter, if_neg (Ne.symm hname)]
    split
    · exact List.suffix_rfl
    · exact List.suffix_cons name place

/-- With one more name behind them, the place just above is still below. -/
theorem suffix_tail_foldl_enter {last : String} (hup : ".." ∉ names) (hlast : isVoid last = false)
    (hlastUp : last ≠ "..") (place : List String) :
    place <:+ ((names ++ [last]).foldl enter place).tail := by
  rw [List.foldl_append, List.foldl_cons, List.foldl_nil, enter, if_neg (by rw [hlast]; nofun),
    if_neg hlastUp]
  exact suffix_foldl_enter hup place

/-- Names that lead to a file are followed to its place, through directories. -/
theorem walk_eq_some {last : String} (hpath : path ∈ files.paths) (hup : ".." ∉ names)
    (hlast : isVoid last = false) (hlastUp : last ≠ "..")
    (h : (names ++ [last]).foldl enter place = files.place path) :
    files.walk place (names ++ [last]) = some (files.place path) := by
  have enters {place : List String} (hsuffix : place <:+ (files.place path).tail) :
      files.isDirectory place = true := by
    have hany : files.paths.any (fun path => place.isSuffixOf (files.place path).tail) = true :=
      List.any_eq_true.2 ⟨path, hpath, List.isSuffixOf_iff_suffix.2 hsuffix⟩
    rw [isDirectory, hany, Bool.or_true]
  induction names generalizing place with
  | nil =>
    have hdirectory := enters (h ▸ suffix_tail_foldl_enter hup hlast hlastUp place)
    rw [List.nil_append, walk, if_pos hdirectory, walk, ← h]
    rfl
  | cons name rest ih =>
    have hdirectory := enters (h ▸ suffix_tail_foldl_enter hup hlast hlastUp place)
    rw [List.cons_append, walk, if_pos hdirectory]
    exact ih (mt (List.mem_cons_of_mem name) hup) h

/-- Every file is found by its own path, if the path ends in a name and does not lead up. -/
theorem isFile_of_mem_paths {last : String} (hpath : path ∈ files.paths)
    (hnames : FilePath.names (files.absolute path) = names ++ [last]) (hup : ".." ∉ names)
    (hlast : isVoid last = false) (hlastUp : last ≠ "..") : files.isFile path = true := by
  have hresolve : files.resolve? path = some (files.place path) := by
    rw [resolve?, hnames]
    exact walk_eq_some hpath hup hlast hlastUp (by rw [place, hnames])
  rw [isFile, hresolve]
  exact List.any_eq_true.2 ⟨path, hpath, beq_self_eq_true _⟩

end Files

end MarkupShorthand
