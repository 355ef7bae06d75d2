import Mathlib.Algebra.GroupWithZero.Nat
import Orynx.Daemon.LocalSkills
import Orynx.Lib.Keyed

/-! # Skill archives

`parseSkillArchive` of `server/internal/handler/skill_import_archive.go`, with `addFile` and
`validateFilePath` of `skill.go`. An archive is the list of its entries, and the front matter of a
`SKILL.md` is read by a function that is given.
-/

namespace Orynx.SkillArchive

open Lib Lib.SlashPath
open LocalSkills (isSkillMd toLower trimSpace)

abbrev Text := List Char

abbrev Bytes := List UInt8

/-- `len`, in bytes. -/
def len (s : Text) : Nat := (s.map Char.utf8Size).sum

/-! ## Paths -/

def isSlash (c : Char) : Bool := c == '/'

/-- `path.Base`. -/
def baseName (s : Text) : Text :=
  if s = [] then dot
  else
    let last := (s.rdropWhile isSlash).rtakeWhile fun c => !isSlash c
    if last = [] then ['/'] else last

/-- `path.Dir`. -/
def dirName (s : Text) : Text := clean (s.rdropWhile fun c => !isSlash c)

/-- `path.Ext`. -/
def ext (s : Text) : Text :=
  let last := s.rtakeWhile fun c => !isSlash c
  if '.' ∈ last then '.' :: last.rtakeWhile (· != '.') else []

def trimSuffix (s t : Text) : Text := if t.isSuffixOf s then s.take (s.length - t.length) else s

def validateFilePath (p : Text) : Bool :=
  if p = [] then false
  else if p.head? = some '/' then false
  else !dotdot.isPrefixOf (clean p)

def archiveEntryPrefix (cleanName : Text) : Text :=
  let dir := dirName cleanName
  if dir = dot ∨ dir = ['/'] then [] else dir ++ ['/']

def skillNameFromArchive (rootPrefix filename : Text) : Text :=
  let wrapper := baseName (trimSuffix rootPrefix ['/'])
  if rootPrefix ≠ [] ∧ wrapper ≠ dot ∧ wrapper ≠ ['/'] ∧ wrapper ≠ dotdot then wrapper
  else
    let base := baseName (filename.map fun c => if c = '\x5c' then '/' else c)
    trimSpace (if ext base = [] then base else trimSuffix base (ext base))

def isIgnoredArchiveEntry (rel : Text) : Bool :=
  (split rel).any (fun seg => seg.isEmpty || seg == "__MACOSX".toList || seg.head? == some '.') ||
    ["license", "license.md", "license.txt"].any fun s => (baseName rel).map toLower == s.toList

def binaryExtensions : List String :=
  [".png", ".jpg", ".jpeg", ".gif", ".webp", ".bmp", ".tiff", ".ico", ".heic",
    ".ttf", ".otf", ".woff", ".woff2", ".eot",
    ".zip", ".gz", ".tar", ".bz2", ".7z", ".rar",
    ".pdf", ".docx", ".xlsx", ".pptx", ".doc", ".xls", ".ppt",
    ".mp3", ".mp4", ".wav", ".avi", ".mov", ".webm", ".m4a", ".flac",
    ".exe", ".dll", ".so", ".dylib", ".class", ".jar", ".wasm",
    ".db", ".sqlite", ".sqlite3", ".pyc"]

def isLikelyBinaryFilePath (path : Text) : Bool :=
  binaryExtensions.any fun e => (ext path).map toLower == e.toList

/-! ## The import -/

structure ZipFile where
  name : Text
  content : Bytes
  isDir : Bool := false
deriving DecidableEq

structure ImportedFile where
  path : Text
  content : Bytes
deriving DecidableEq

structure ImportedSkill where
  name : Text
  description : Text
  content : Bytes
  files : List ImportedFile := []
  bundleSize : Nat := 0
deriving DecidableEq

inductive ImportError where
  /-- `archive does not contain a SKILL.md`. -/
  | noSkillMd
  /-- `read SKILL.md: file … exceeds 1048576 bytes`. -/
  | oversized (name : Text)
  /-- `could not determine the skill name: …`. -/
  | unnamed
  /-- `import cap exceeded: import bundle exceeds 128 file limit`. -/
  | fileLimit
  /-- `import cap exceeded: import bundle exceeds 8388608 byte limit`. -/
  | byteLimit
deriving DecidableEq

def maxImportFileSize : Nat := 1048576

def maxImportTotalSize : Nat := 8388608

def maxImportFileCount : Nat := 128

def readZipFile (f : ZipFile) (maxSize : Nat) : Option Bytes :=
  if maxSize < f.content.length then none else some f.content

def ImportedSkill.addFile (s : ImportedSkill) (path : Text) (content : Bytes) :
    Except ImportError ImportedSkill :=
  if isLikelyBinaryFilePath path then .ok s
  else if maxImportFileCount ≤ s.files.length then .error .fileLimit
  else if maxImportTotalSize < s.bundleSize + content.length then .error .byteLimit
  else
    .ok { s with
      bundleSize := s.bundleSize + content.length, files := s.files ++ [⟨path, content⟩] }

/-- Is the entry a `SKILL.md` that the skill may be rooted at? -/
def isCandidate (f : ZipFile) : Bool :=
  !f.isDir && isSkillMd (baseName (clean f.name)) && validateFilePath (clean f.name)

def entryPrefix (f : ZipFile) : Text := archiveEntryPrefix (clean f.name)

/-- One step of the search for the root. -/
def pickRoot (skillMd : Option ZipFile) (f : ZipFile) : Option ZipFile :=
  if isCandidate f then
    match skillMd with
    | none => some f
    | some best => if len (entryPrefix f) < len (entryPrefix best) then some f else some best
  else skillMd

def findRoot (entries : List ZipFile) : Option ZipFile := entries.foldl pickRoot none

/-- One step of the import of the supporting files. -/
def importEntry (rootPrefix : Text) (imported : ImportedSkill) (f : ZipFile) :
    Except ImportError ImportedSkill :=
  let cleanName := clean f.name
  let rel := if rootPrefix.isPrefixOf cleanName then cleanName.drop rootPrefix.length else cleanName
  if f.isDir then .ok imported
  else if rootPrefix ≠ [] ∧ rootPrefix.isPrefixOf cleanName = false then .ok imported
  else if rel = [] then .ok imported
  else if isSkillMd (baseName rel) then .ok imported
  else if isIgnoredArchiveEntry rel then .ok imported
  else if validateFilePath rel = false then .ok imported
  else
    match readZipFile f maxImportFileSize with
    | none => .ok imported
    | some content => imported.addFile rel content

/-- The name that the front matter gives, or else that the archive does. -/
def skillName (parseSkillFrontmatter : Bytes → Text × Text) (filename : Text) (skillMd : ZipFile) :
    Text :=
  let name := (parseSkillFrontmatter skillMd.content).1
  if name = [] then skillNameFromArchive (entryPrefix skillMd) filename else name

def parseSkillArchive (parseSkillFrontmatter : Bytes → Text × Text) (entries : List ZipFile)
    (filename : Text) : Except ImportError ImportedSkill :=
  match findRoot entries with
  | none => .error .noSkillMd
  | some skillMd =>
    match readZipFile skillMd maxImportFileSize with
    | none => .error (.oversized skillMd.name)
    | some content =>
      let name := skillName parseSkillFrontmatter filename skillMd
      let description := (parseSkillFrontmatter content).2
      if name = [] then .error .unnamed
      else
        (entries.foldlM (importEntry (entryPrefix skillMd))
          { name := name, description := description, content := content }).map fun imported =>
            { imported with files := sortBy ImportedFile.path imported.files }

end Orynx.SkillArchive
