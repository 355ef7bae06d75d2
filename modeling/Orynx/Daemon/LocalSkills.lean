import Mathlib.Data.Char
import Mathlib.Data.List.DropRight
import Mathlib.Data.List.Lex
import Mathlib.Data.List.Sort
import Orynx.Lib.SlashPath
import Orynx.Text

/-! # The skills on a machine

`listRuntimeLocalSkills` and `loadRuntimeLocalSkillBundle` of
`server/internal/daemon/local_skills.go`. The first walks the skill roots of a provider and lists
what it finds, the second resolves a listed key on its own.

The machine is what its calls return: `stat` follows symbolic links, `readDir` sorts, and `node` is
the tree below a path without links.
-/

namespace Orynx.LocalSkills

open Lib.SlashPath

abbrev Text := List Char

/-! ## The file system -/

/-- What is below a resolved path. A directory that cannot be read has no entries, a file that
cannot be read no content. -/
inductive Node where
  | file (size : Nat) (content : Option Text)
  | symlink
  | dir (entries : List (Name × Node))

/-- `os.Stat`; `fault` is any error but that nothing is there. -/
inductive Stat where
  | dir
  | file (size : Nat)
  | notExist
  | fault
deriving DecidableEq, Repr

structure ClaudePlugin where
  id : Text
  name : Text
  skillPaths : List Path
deriving DecidableEq, Repr

/-- The calls of a machine that does not change, and its settings. -/
structure Host where
  stat : Path → Stat
  readDir : Path → Option (List Name)
  evalSymlinks : Path → Option Path
  readFile : Path → Option Text
  node : Path → Option Node
  home : Path
  codexHome : Option Path := none
  grokHome : Option Path := none
  enabledClaudePlugins : List ClaudePlugin := []
  parseSkillFrontmatter : Text → Text × Text

def maxLocalSkillFileSize : Nat := 1048576

def maxLocalSkillBundleSize : Nat := 8388608

def maxLocalSkillFileCount : Nat := 128

def maxLocalSkillDirDepth : Nat := 4

def skillMd : Name := "SKILL.md".toList

/-! ## Roots -/

inductive RootKind where
  | provider
  | universal
  | plugin
deriving DecidableEq, Repr

structure LocalSkillRoot where
  path : Path
  kind : RootKind
  keyPrefix : Text := []
  plugin : Text := []
deriving DecidableEq, Repr

def below (dir : Path) (names : List String) : Path := dir ++ names.map String.toList

/-- The skill directory of a provider. -/
def providerRoot (h : Host) : String → Option Path
  | "claude" => some (below h.home [".claude", "skills"])
  | "codebuddy" => some (below h.home [".codebuddy", "skills"])
  | "codex" => some (below (h.codexHome.getD (below h.home [".codex"])) ["skills"])
  | "copilot" => some (below h.home [".copilot", "skills"])
  | "opencode" => some (below h.home [".config", "opencode", "skills"])
  | "deveco" => some (below h.home [".config", "deveco", "skills"])
  | "openclaw" => some (below h.home [".openclaw", "skills"])
  | "pi" => some (below h.home [".pi", "agent", "skills"])
  | "cursor" => some (below h.home [".cursor", "skills"])
  | "hermes" => some (below h.home [".hermes", "skills"])
  | "kimi" => some (below h.home [".kimi", "skills"])
  | "kiro" => some (below h.home [".kiro", "skills"])
  | "qoder" => some (below h.home [".qoder", "skills"])
  | "traecli" => some (below h.home [".traecli", "skills"])
  | "antigravity" => some (below h.home [".gemini", "antigravity-cli", "skills"])
  | "grok" => some (below (h.grokHome.getD (below h.home [".grok"])) ["skills"])
  | _ => none

/-- `localSkillRootsForProvider`, in the order of priority; `none` if there is no support. -/
def localSkillRootsForProvider (h : Host) (provider : String) : Option (List LocalSkillRoot) :=
  (providerRoot h provider).map fun path =>
    [{ path := path, kind := .provider },
      { path := below h.home [".agents", "skills"], kind := .universal }] ++
    if provider = "claude" then
      h.enabledClaudePlugins.flatMap fun plugin =>
        plugin.skillPaths.map fun path =>
          { path := path, kind := .plugin, keyPrefix := plugin.name ++ [':'],
            plugin := plugin.id }
    else []

/-! ## Names and keys -/

/-- `unicode.ToLower`, as far as it leads to ASCII. -/
def toLower (c : Char) : Char :=
  if c = 'İ' then 'i' else if c = '\u212A' then 'k' else c.toLower

/-- Simple folding, as far as it leads to ASCII. -/
def foldChar (c : Char) : Char :=
  if c = 'ſ' then 's' else if c = '\u212A' then 'k' else c.toLower

def isIgnoredLocalSkillEntry (name : Name) : Bool :=
  name.isEmpty || name.head? == some '.' ||
    ["license", "license.md", "license.txt"].any fun s => name.map toLower == s.toList

/-- `strings.EqualFold(name, "SKILL.md")`. -/
def isSkillMd (name : Name) : Bool := name.map foldChar == "skill.md".toList

def trimSpace (s : Text) : Text := (s.dropWhile isSpace).rdropWhile isSpace

/-- A key that is rejected has none. -/
def normalizeLocalSkillKey (key : Text) : Option Text :=
  if key.all isSpace then none
  else
    let cleaned := clean (trimSpace key)
    if cleaned = dot ∨ cleaned.head? = some '/' ∨ dotdot.isPrefixOf cleaned = true then none
    else some cleaned

/-- A path as the user is shown it. -/
inductive SourcePath where
  | home (names : List Name)
  | absolute (names : List Name)
deriving DecidableEq, Repr

def relativizeHomePath (h : Host) (path : Path) : SourcePath :=
  if h.home.isPrefixOf path then .home (path.drop h.home.length) else .absolute path

/-- `filepath.Base`. -/
def base (path : Path) : Name := path.getLastD ['/']

/-! ## One skill -/

/-- `readLocalSkillMainFile`; reading a directory fails. -/
def readLocalSkillMainFile (h : Host) (skillDir : Path) : Option Text :=
  match h.stat (skillDir ++ [skillMd]) with
  | .file size =>
    if maxLocalSkillFileSize < size then none else h.readFile (skillDir ++ [skillMd])
  | .dir => h.readFile (skillDir ++ [skillMd])
  | .notExist | .fault => none

structure SkillFileData where
  path : Text
  content : Text := []
deriving DecidableEq, Repr

/-- The files that were collected, and the size of all that were looked at. -/
structure Collected where
  files : List SkillFileData := []
  totalSize : Nat := 0
deriving DecidableEq, Repr

/-- A regular file on the walk, at a path below its root. -/
def collectFile (includeContent : Bool) (path : List Name) (size : Nat) (content : Option Text)
    (c : Collected) : Option Collected :=
  if maxLocalSkillFileSize < size then some c
  else if maxLocalSkillFileCount ≤ c.files.length then none
  else if maxLocalSkillBundleSize < c.totalSize + size then none
  else
    let c := { c with totalSize := c.totalSize + size }
    if includeContent then
      match content with
      | none => some c
      | some content => some { c with files := c.files ++ [⟨join path, content⟩] }
    else some { c with files := c.files ++ [⟨join path, []⟩] }

mutual

/-- The callback of the walk, on an entry of the directory `dir`. -/
def collectNode (includeContent : Bool) (dir : List Name) (name : Name) :
    Node → Collected → Option Collected
  | .symlink, c => some c
  | .dir entries, c =>
    if isIgnoredLocalSkillEntry name then some c
    else collectEntries includeContent (dir ++ [name]) entries c
  | .file size content, c =>
    if isIgnoredLocalSkillEntry name || isSkillMd name then some c
    else collectFile includeContent (dir ++ [name]) size content c

def collectEntries (includeContent : Bool) (dir : List Name) :
    List (Name × Node) → Collected → Option Collected
  | [], c => some c
  | (name, node) :: entries, c =>
    (collectNode includeContent dir name node c).bind
      (collectEntries includeContent dir entries)

end

/-- The walk of a root, of which only the entries are looked at. -/
def collectRoot (includeContent : Bool) : Option Node → Option Collected
  | some (.dir entries) => collectEntries includeContent [] entries {}
  | _ => some {}

/-- `collectLocalSkillFiles`; `none` if there are too many or they are too large. -/
def collectLocalSkillFiles (h : Host) (skillDir : Path) (includeContent : Bool) :
    Option (List SkillFileData) :=
  let walkRoot := (h.evalSymlinks skillDir).getD skillDir
  (collectRoot includeContent (h.node walkRoot)).map fun c =>
    c.files.insertionSort fun a b => a.path ≤ b.path

/-- The name of a skill: a plugin's is its key, any other's what its file says, or else its
directory. -/
def skillName (root : LocalSkillRoot) (key : Text) (skillDir : Path) (parsed : Text) : Text :=
  if root.plugin ≠ [] then key
  else if parsed = [] then base skillDir
  else parsed

/-! ## Listing -/

structure Summary where
  key : Text
  name : Text
  description : Text
  sourcePath : SourcePath
  provider : String
  root : RootKind
  plugin : Text
  fileCount : Nat
deriving DecidableEq, Repr

/-- The entry of a directory with a `SKILL.md`, at a path below the root; `none` if the key, the
file or the bundle is not in order. -/
def summarize (h : Host) (provider : String) (root : LocalSkillRoot) (rel : List Name) :
    Option Summary := do
  let path := root.path ++ rel
  let normalized ← normalizeLocalSkillKey (join rel)
  let key := root.keyPrefix ++ normalized
  let content ← readLocalSkillMainFile h path
  let parsed := h.parseSkillFrontmatter content
  let files ← collectLocalSkillFiles h path false
  some
    { key := key, name := skillName root key path parsed.1, description := parsed.2,
      sourcePath := relativizeHomePath h path, provider := provider, root := root.kind,
      plugin := root.plugin, fileCount := files.length + 1 }

structure Walked where
  visited : List Path := []
  skills : List Summary := []

/-- `enumerateLocalSkills` of the directory at `rel` below the root, with the number of levels that
are left. -/
def enumerateLocalSkills (h : Host) (provider : String) (root : LocalSkillRoot) :
    Nat → List Name → Walked → Walked
  | 0, _, w => w
  | levels + 1, rel, w =>
    match h.evalSymlinks (root.path ++ rel) with
    | none => w
    | some resolved =>
      if resolved ∈ w.visited then w
      else
        let w := { w with visited := resolved :: w.visited }
        match h.readDir (root.path ++ rel) with
        | none => w
        | some names => names.foldl (fun w name =>
            if isIgnoredLocalSkillEntry name then w
            else if h.stat (root.path ++ (rel ++ [name])) ≠ .dir then w
            else
              match h.stat (root.path ++ (rel ++ [name]) ++ [skillMd]) with
              | .dir | .file _ =>
                { w with skills := w.skills ++ (summarize h provider root (rel ++ [name])).toList }
              | .notExist | .fault =>
                -- no skill here, so there may be some below
                enumerateLocalSkills h provider root levels (rel ++ [name]) w) w

/-- The skills of a root; every root is walked from depth zero, with nothing visited. -/
def rootSkills (h : Host) (provider : String) (root : LocalSkillRoot) : List Summary :=
  (enumerateLocalSkills h provider root (maxLocalSkillDirDepth + 1) [] {}).skills

/-- Of the skills with one key, the first. -/
def mergeSkills (skills : List Summary) (s : Summary) : List Summary :=
  if s.key ∈ skills.map Summary.key then skills else skills ++ [s]

/-- The roots in their order; `none` is the error of a root that cannot be looked at. -/
def mergeRoots (h : Host) (provider : String) :
    List LocalSkillRoot → List Summary → Option (List Summary)
  | [], skills => some skills
  | root :: roots, skills =>
    match h.stat root.path with
    | .notExist => mergeRoots h provider roots skills
    | .fault => none
    | .dir | .file _ =>
      mergeRoots h provider roots ((rootSkills h provider root).foldl mergeSkills skills)

/-- `listRuntimeLocalSkills`; a provider without support has nothing listed. -/
def listRuntimeLocalSkills (h : Host) (provider : String) : Option (List Summary) :=
  match localSkillRootsForProvider h provider with
  | none => some []
  | some roots =>
    (mergeRoots h provider roots []).map fun skills =>
      skills.insertionSort fun a b => a.key ≤ b.key

/-! ## Loading -/

structure Bundle where
  name : Text
  description : Text
  content : Text
  sourcePath : SourcePath
  provider : String
  files : List SkillFileData
deriving DecidableEq, Repr

inductive LoadError where
  | unsupported
  | invalidKey
  | fault
  | unreadable
  | tooLarge
  | notFound
deriving DecidableEq, Repr

/-- What the root calls the key, if it can be one of its own. -/
def LocalSkillRoot.rootKey (root : LocalSkillRoot) (key : Text) : Option Text :=
  if root.keyPrefix.isPrefixOf key then some (key.drop root.keyPrefix.length) else none

/-- The bundle of a directory that has a `SKILL.md`. -/
def loadSkillDir (h : Host) (provider : String) (root : LocalSkillRoot) (key : Text)
    (skillDir : Path) : Except LoadError Bundle :=
  match readLocalSkillMainFile h skillDir with
  | none => .error .unreadable
  | some content =>
    let parsed := h.parseSkillFrontmatter content
    match collectLocalSkillFiles h skillDir true with
    | none => .error .tooLarge
    | some files =>
      .ok { name := skillName root key skillDir parsed.1, description := parsed.2,
            content := content, sourcePath := relativizeHomePath h skillDir,
            provider := provider, files := files }

def loadFromRoots (h : Host) (provider : String) (key : Text) :
    List LocalSkillRoot → Except LoadError Bundle
  | [] => .error .notFound
  | root :: roots =>
    match root.rootKey key with
    | none => loadFromRoots h provider key roots
    | some rootKey =>
      let skillDir := joinPath root.path rootKey
      match h.stat skillDir with
      | .notExist | .file _ => loadFromRoots h provider key roots
      | .fault => .error .fault
      | .dir =>
        match h.stat (skillDir ++ [skillMd]) with
        | .notExist => loadFromRoots h provider key roots
        | .fault => .error .fault
        | .dir | .file _ => loadSkillDir h provider root key skillDir

def loadRuntimeLocalSkillBundle (h : Host) (provider : String) (skillKey : Text) :
    Except LoadError Bundle :=
  match localSkillRootsForProvider h provider with
  | none => .error .unsupported
  | some roots =>
    match normalizeLocalSkillKey skillKey with
    | none => .error .invalidKey
    | some key => loadFromRoots h provider key roots

end Orynx.LocalSkills
