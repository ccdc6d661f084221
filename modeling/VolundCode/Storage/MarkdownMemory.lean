import VolundCode.Storage.MarkdownRecord

/-!
# The Markdown repository of memory records

The repository keeps one file for every memory record, in the directory of the record's scope. It
manages the files it has seen: saving a set of records writes the files of those that are new or
changed, and removes the files of those that the set no longer has. A load reads all files of
records in the directories of the layout, in any order.
-/

namespace Storage.Markdown

/-! ### Layout -/

structure MarkdownMemoryLayout where
  root : String
  currentProjectId : Option String
  currentProjectDir : Option String

namespace MarkdownMemoryLayout

variable (layout : MarkdownMemoryLayout)

def sessionsDirectory : String :=
  layout.root ++ "/sessions"

def projectsDirectory : String :=
  layout.root ++ "/projects"

/-- The directory of a project that is not the current one. -/
def fallbackDirectory (projectId : String) : String :=
  layout.projectsDirectory ++ "/" ++ projectId

def directoryFor : MemoryRecordScope → String
  | .workspace _ => layout.root
  | .session _ _ _ => layout.sessionsDirectory
  | .project _ projectId =>
    match layout.currentProjectId, layout.currentProjectDir with
    | some id, some directory =>
      if projectId = id then directory else layout.fallbackDirectory projectId
    | _, _ => layout.fallbackDirectory projectId

/-- Whether a load reads a directory, if it is there: the directories of projects are the
directories in the directory of all projects. -/
def reads (directory : String) : Bool :=
  directory = layout.root || directory = layout.sessionsDirectory ||
    layout.currentProjectDir = some directory ||
    (Ecma.startsWith directory (layout.projectsDirectory ++ "/") &&
      let name := directory.toList.drop (layout.projectsDirectory ++ "/").length
      name ≠ [] && !name.contains '/')

end MarkdownMemoryLayout

/-! ### Files -/

/-- Where a file is. -/
structure Path where
  directory : String
  name : String
deriving DecidableEq

def Path.text (path : Path) : String :=
  path.directory ++ "/" ++ path.name

structure MemoryFile where
  text : List Char
  mtimeMs : ℤ

/-- The files on the disk. -/
abbrev Disk : Type :=
  AList fun _ : Path => MemoryFile

def indexFilename : String :=
  "MEMORY.md"

/-- Whether a file of this name may be the file of a record. -/
def isRecordName (name : String) : Bool :=
  Ecma.endsWith name ".md" && !Ecma.startsWith name "." && name ≠ indexFilename

/-- Whether a load reads the file as the file of a record. -/
def MarkdownMemoryLayout.isRecordPath (layout : MarkdownMemoryLayout) (path : Path) : Bool :=
  layout.reads path.directory && isRecordName path.name

/-! ### Names of files -/

/-- The characters a character has in `s.toLowerCase()`, as far as slugs have them: besides the
capital letters of ASCII, these two have a letter of ASCII in lower case. -/
def lowerCase (c : Char) : List Char :=
  if c = '\u212a' then ['k']
  else if c = '\u0130' then ['i', '\u0307']
  else [c.toLower]

def isSlugChar (c : Char) : Bool :=
  ('a' ≤ c && c ≤ 'z') || c.isDigit

/-- The line without the marks of a heading. -/
def withoutHeading (line : List Char) : List Char :=
  match line with
  | '#' :: _ => (line.dropWhile (· = '#')).dropWhile Ecma.isSpace
  | _ => line

def slugFor (content : String) : String :=
  let firstLine := content.toList.takeWhile (· ≠ '\n')
  let words := ((withoutHeading firstLine).flatMap lowerCase).splitOnP fun c => !isSlugChar c
  let slug := (['-'].intercalate ((words.filter (· ≠ [])).take 8)).take 40
  if slug = [] then "memo" else String.ofList slug

def shortId (id : String) : String :=
  let cleaned := (id.toList.filter fun c => c.isAlphanum || c = '-').take 12
  if cleaned = [] then "record" else String.ofList cleaned

def canonicalFilename (record : MemoryRecord) : String :=
  Ecma.sliceTo record.createdAt 10 ++ "-" ++ slugFor record.content ++ "-" ++
    shortId record.id ++ ".md"

/-! ### Loading -/

structure ManagedFile where
  path : Path
  record : MemoryRecord

/-- The files the repository has seen, by the ids of their records. -/
abbrev Managed : Type :=
  AList fun _ : String => ManagedFile

structure LoadedFile where
  file : ManagedFile
  mtimeMs : ℤ

/-- What a load has read: the newest file for each id, and the files it has passed over. -/
structure Loaded where
  byId : AList fun _ : String => LoadedFile
  issues : List Path

namespace Loaded

def records (loaded : Loaded) : List MemoryRecord :=
  loaded.byId.entries.map fun entry => entry.2.file.record

def managed (loaded : Loaded) : Managed where
  entries := loaded.byId.entries.map fun entry => ⟨entry.1, entry.2.file⟩
  nodupKeys := List.NodupKeys.map₂ (fun _ l => l.file) _ loaded.byId.nodupKeys

end Loaded

/-- Texts are compared by their code units. -/
def LoadedFile.newer (parsed existing : LoadedFile) : Bool :=
  existing.mtimeMs < parsed.mtimeMs ||
    (parsed.mtimeMs = existing.mtimeMs &&
      decide (Ecma.units existing.file.path.text < Ecma.units parsed.file.path.text))

variable (env : MemoryExternals) (yaml : Yaml) (layout : MarkdownMemoryLayout)

def readMemoryFile (disk : Disk) (path : Path) : Option LoadedFile := do
  let file ← disk.lookup path
  let record ← parseMemoryFile env yaml file.text file.mtimeMs
  some { file := { path := path, record := record }, mtimeMs := file.mtimeMs }

/-- One file is read. -/
def loadEntry (disk : Disk) (loaded : Loaded) (path : Path) : Loaded :=
  if !layout.isRecordPath path then loaded
  else
    match readMemoryFile env yaml disk path with
    | none => { loaded with issues := loaded.issues ++ [path] }
    | some parsed =>
      match loaded.byId.lookup parsed.file.record.id with
      | none => { loaded with byId := loaded.byId.insert parsed.file.record.id parsed }
      | some existing =>
        if parsed.newer existing then
          { loaded with byId := loaded.byId.insert parsed.file.record.id parsed }
        else loaded

/-- The files are read in the order in which they are listed. -/
def loadUnlocked (disk : Disk) (listing : List Path) : Loaded :=
  listing.foldl (loadEntry env yaml layout disk) { byId := ∅, issues := [] }

/-! ### Saving -/

/-- The name of the file of a record: the name it has, or the canonical one. -/
def filenameFor (managed : Managed) (record : MemoryRecord) : String :=
  match managed.lookup record.id with
  | some file => file.path.name
  | none => canonicalFilename record

/-- What is on the disk, which files are managed, and the directories that were written to. -/
structure Syncing where
  disk : Disk
  managed : Managed
  touched : List String

/-- The file of a record that is new or changed is written, and the file it had elsewhere is
removed. -/
def syncRecord (clock : Path → ℤ) (s : Syncing) (record : MemoryRecord) : Syncing :=
  let managed := s.managed.lookup record.id
  if managed.any fun file => file.record = record then s
  else
    let path : Path :=
      { directory := layout.directoryFor record.scope, name := filenameFor s.managed record }
    let disk := s.disk.insert path
      { text := serializeRecord yaml record, mtimeMs := clock path }
    match managed.filter fun file => file.path ≠ path with
    | none =>
      { disk := disk
        managed := s.managed.insert record.id { path := path, record := record }
        touched := s.touched ++ [path.directory] }
    | some file =>
      { disk := disk.erase file.path
        managed := s.managed.insert record.id { path := path, record := record }
        touched := s.touched ++ [file.path.directory, path.directory] }

/-- The file of a record that the set no longer has is removed. -/
def syncAbsent (nextIds : List String) (s : Syncing) (id : String) : Syncing :=
  if id ∈ nextIds then s
  else
    match s.managed.lookup id with
    | none => s
    | some file =>
      { disk := s.disk.erase file.path
        managed := s.managed.erase id
        touched := s.touched ++ [file.path.directory] }

/-- A summary that does not break the syntax of a link. -/
def markdownSafe (value : String) : String :=
  Ecma.replaceAll (Ecma.replaceAll (Ecma.replaceAll value '[' "(") ']' ")") (Char.ofNat 0x60) "'"

def indexHeader : String :=
  "<!-- Auto-generated by volund memory. Do not edit — rewritten on every memory write. -->\n"

variable (localeCompare : String → String → Ordering)

/-- The order of the records in an index. -/
def indexOrder (left right : ManagedFile) : Ordering :=
  (localeCompare left.record.createdAt right.record.createdAt).then
    (localeCompare left.record.id right.record.id)

/-- `basename(path, '.md')`. -/
def stem (name : String) : String :=
  if Ecma.endsWith name ".md" && name ≠ ".md" then
    String.ofList (name.toList.take (name.length - 3))
  else name

def indexLine (file : ManagedFile) : String :=
  let firstLine := String.ofList (file.record.content.toList.takeWhile (· ≠ '\n'))
  let summary := markdownSafe (Ecma.sliceTo (Ecma.trim firstLine) 120)
  "- [" ++ stem file.path.name ++ "](" ++ file.path.name ++ ") — " ++ summary ++
    (if file.record.pinned then " \x60pinned\x60" else "") ++
    (if file.record.deletedAt.any (· ≠ "") then " \x60deleted\x60" else "")

def memoryIndexDocument (managed : Managed) (directory : String) : String :=
  let files := (managed.entries.map Sigma.snd).insertionSort fun left right =>
    indexOrder localeCompare left right ≠ .gt
  let lines := (files.filter fun file => file.path.directory = directory).map indexLine
  indexHeader ++ "\n" ++ "\n".intercalate lines ++ if 0 < lines.length then "\n" else ""

/-- The index of a directory is written, unless it is the one of sessions. -/
def writeIndex (clock : Path → ℤ) (managed : Managed) (disk : Disk) (directory : String) : Disk :=
  if directory = layout.sessionsDirectory then disk
  else
    let path : Path := { directory := directory, name := indexFilename }
    disk.insert path
      { text := (memoryIndexDocument localeCompare managed directory).toList
        mtimeMs := clock path }

/-- The files of the records are brought up to date, one record after the other. -/
def syncRecords (clock : Path → ℤ) (records : List MemoryRecord) (s : Syncing) : Syncing :=
  records.foldl (syncRecord yaml layout clock) s

/-- The files of all other records are removed. -/
def syncAbsents (records : List MemoryRecord) (s : Syncing) : Syncing :=
  (s.managed.entries.map Sigma.fst).foldl (syncAbsent (records.map MemoryRecord.id)) s

def writeIndexes (clock : Path → ℤ) (s : Syncing) : Disk :=
  s.touched.eraseDups.foldl (writeIndex layout localeCompare clock s.managed) s.disk

/-- What is on the disk, and which files the repository manages. -/
structure MarkdownMemory where
  disk : Disk
  managed : Managed

def syncToDisk (clock : Path → ℤ) (records : List MemoryRecord) (s : MarkdownMemory) :
    MarkdownMemory :=
  let synced := syncAbsents records
    (syncRecords yaml layout clock records
      { disk := s.disk, managed := s.managed, touched := [] })
  { disk := writeIndexes layout localeCompare clock synced, managed := synced.managed }

end Storage.Markdown
