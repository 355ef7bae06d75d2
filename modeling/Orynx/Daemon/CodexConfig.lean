import Orynx.Daemon.LocalSkills
import Orynx.Lib.Marker
import Orynx.Lib.TomlEdit
import Orynx.Redact.Text

/-! # The Codex configuration of a task

The edits of `config.toml` in `server/internal/daemon/execenv`: `codex_skill_strip.go`,
`codex_sandbox.go`, `codex_multi_agent.go` and `codex_memory.go`. Each takes the content of the
file, and what it returns is written back.
-/

namespace Orynx.CodexConfig

open Lib
open LocalSkills (trimSpace)
open Redact (word inOrder)

abbrev Text := List Char

abbrev Line := List Char

/-- `strings.Split(content, "\n")`. -/
def lines (content : Text) : List Line := content.splitOn '\n'

/-- `strings.Join(lines, "\n")`. -/
def joined (ls : List Line) : Text := ['\n'].intercalate ls

def isNewline (c : Char) : Bool := c == '\n'

/-- `strings.TrimLeft(content, "\n")`. -/
def trimLeft (content : Text) : Text := content.dropWhile isNewline

/-- `strings.TrimRight(content, "\n")`. -/
def trimRight (content : Text) : Text := content.rdropWhile isNewline

def isHeaderLine (line : Line) : Bool := (trimSpace line).head? == some '['

/-! ## Expressions -/

/-- `^…$`. -/
def matchesWhole (r : Regex) (s : Line) : Bool := (r.results none s).any fun x => x.1 == s

/-- `^…`. -/
def matchesStart (r : Regex) (s : Line) : Bool := !(r.results none s).isEmpty

/-- `\s*`. -/
def spaces : Regex := .many isBlank 0 none

/-- `^\s*\[\s*name\s*\]\s*(?:#.*)?$`. -/
def tableHeaderRe (name : String) : Regex :=
  inOrder [spaces, word "[", spaces, word name, spaces, word "]", spaces,
    .alt (inOrder [word "#", .many (fun c => !isNewline c) 0 none]) .empty]

/-- `^\s*name\s*=`. -/
def keyRe (name : String) : Regex := inOrder [spaces, word name, spaces, word "="]

/-- `^\s*table\s*\.\s*name\s*=`. -/
def dottedKeyRe (table name : String) : Regex :=
  inOrder [spaces, word table, spaces, word ".", spaces, word name, spaces, word "="]

def rootFeaturesTableHeaderRe : Regex := tableHeaderRe "features"

def rootMemoriesTableHeaderRe : Regex := tableHeaderRe "memories"

def featuresTableMultiAgentRe : Regex := keyRe "multi_agent"

def rootDottedMultiAgentRe : Regex := dottedKeyRe "features" "multi_agent"

def featuresTableMemoriesRe : Regex := keyRe "memories"

def rootDottedFeaturesMemoriesRe : Regex := dottedKeyRe "features" "memories"

def memoriesTableGenerateRe : Regex := keyRe "generate_memories"

def memoriesTableUseRe : Regex := keyRe "use_memories"

def rootDottedMemoriesGenerateRe : Regex := dottedKeyRe "memories" "generate_memories"

def rootDottedMemoriesUseRe : Regex := dottedKeyRe "memories" "use_memories"

/-! ## Managed blocks -/

structure Block where
  beginMarker : Line
  endMarker : Line

def multicaManaged : Block :=
  ⟨"# BEGIN multica-managed (do not edit; regenerated by daemon)".toList,
    "# END multica-managed".toList⟩

def multicaMultiAgent : Block :=
  ⟨"# BEGIN multica-managed multi-agent (do not edit; regenerated by daemon)".toList,
    "# END multica-managed multi-agent".toList⟩

def multicaMemoryFeature : Block :=
  ⟨"# BEGIN multica-managed memory-feature (do not edit; regenerated by daemon)".toList,
    "# END multica-managed memory-feature".toList⟩

def multicaMemoryConfig : Block :=
  ⟨"# BEGIN multica-managed memory-config (do not edit; regenerated by daemon)".toList,
    "# END multica-managed memory-config".toList⟩

namespace Block

/-- `(?ms)^BEGIN.*?^END\n*` matches in these lines. -/
def isMatch (b : Block) : List Line → Bool
  | [] => false
  | l :: ls =>
    b.beginMarker.isPrefixOf l && ls.any (fun l => b.endMarker.isPrefixOf l) || b.isMatch ls

/-- Where a search for the blocks is: outside of them, in one, or in the newlines behind it. -/
inductive Scan where
  | outside
  | inside
  | behind

def cut (b : Block) : Scan → List Line → List Line
  | .outside, [] => []
  | .inside, [] => []
  | .behind, [] => [[]]
  | .outside, l :: ls =>
    if b.beginMarker.isPrefixOf l && ls.any (fun l => b.endMarker.isPrefixOf l) then
      b.cut .inside ls
    else l :: b.cut .outside ls
  | .inside, l :: ls =>
    if b.endMarker.isPrefixOf l then
      if l = b.endMarker then b.cut .behind ls
      else l.drop b.endMarker.length :: b.cut .outside ls
    else b.cut .inside ls
  | .behind, l :: ls =>
    if l = [] then b.cut .behind ls
    else if b.beginMarker.isPrefixOf l && ls.any (fun l => b.endMarker.isPrefixOf l) then
      b.cut .inside ls
    else l :: b.cut .outside ls

/-- `ReplaceAllString` of the blocks by nothing. -/
def removeFrom (b : Block) (content : Text) : Text := joined (b.cut .outside (lines content))

/-- The block with these lines in it. -/
def render (b : Block) (body : List Line) : Text :=
  joined (b.beginMarker :: body ++ [b.endMarker, []])

end Block

/-- Lines in front of the file, with a blank one between. -/
def prepend (block existing : Text) : Text :=
  if existing = [] then block else block ++ '\n' :: existing

/-! ## Skills -/

def skillsConfigHeader : Line := "[[skills.config]]".toList

def skillsConfigLines : Bool → List Line → List Line
  | _, [] => []
  | inSkillsConfig, line :: ls =>
    if isHeaderLine line then
      if trimSpace line = skillsConfigHeader then skillsConfigLines true ls
      else line :: skillsConfigLines false ls
    else if inSkillsConfig then skillsConfigLines true ls
    else line :: skillsConfigLines false ls

def stripSkillsConfigEntries (content : Text) : Text :=
  if Marker.contains skillsConfigHeader content then
    let stripped := trimRight (joined (skillsConfigLines false (lines content))) ++ ['\n']
    if trimSpace stripped = [] then [] else stripped
  else content

/-! ## Sandbox -/

inductive SandboxMode where
  | workspaceWrite
  | dangerFullAccess
deriving DecidableEq

structure CodexSandboxPolicy where
  mode : SandboxMode
  networkAccess : Bool

def SandboxMode.text : SandboxMode → List Char
  | .workspaceWrite => "workspace-write".toList
  | .dangerFullAccess => "danger-full-access".toList

def SandboxMode.line (mode : SandboxMode) : Line :=
  "sandbox_mode = \"".toList ++ mode.text ++ "\"".toList

def networkAccessLine (networkAccess : Bool) : Line :=
  "sandbox_workspace_write.network_access = ".toList ++ (toString networkAccess).toList

def managedLines (policy : CodexSandboxPolicy) : List Line :=
  policy.mode.line ::
    if policy.mode = .workspaceWrite then [networkAccessLine policy.networkAccess] else []

def renderMulticaManagedBlock (policy : CodexSandboxPolicy) : Text :=
  multicaManaged.render (managedLines policy)

def upsertMulticaManagedBlock (content : Text) (policy : CodexSandboxPolicy) : Text :=
  prepend (renderMulticaManagedBlock policy) (trimLeft (multicaManaged.removeFrom content))

def workspaceWriteHeader : Line := "[sandbox_workspace_write]".toList

def sandboxModeKey : Line := "sandbox_mode".toList

def legacySandboxLines : Bool → List Line → List Line
  | _, [] => []
  | inLegacyWorkspaceWrite, line :: ls =>
    if isHeaderLine line then
      if trimSpace line = workspaceWriteHeader then legacySandboxLines true ls
      else line :: legacySandboxLines false ls
    else if inLegacyWorkspaceWrite then legacySandboxLines true ls
    else if sandboxModeKey.isPrefixOf (trimSpace line) then legacySandboxLines false ls
    else line :: legacySandboxLines false ls

def stripLegacySandboxDirectives (content : Text) : Text :=
  joined (legacySandboxLines false (lines content))

def ensureCodexSandboxConfig (data : Text) (policy : CodexSandboxPolicy) : Text :=
  let existing :=
    if data ≠ [] ∧ multicaManaged.isMatch (lines data) = false then
      stripLegacySandboxDirectives data
    else data
  upsertMulticaManagedBlock existing policy

/-! ## Directives of the user -/

/-- The tables that are looked for, by the expressions of their headers, and the keys that are
taken out of each; the root has no name. -/
structure Directives where
  tables : List (Regex × Line)
  keys : List (Line × List Regex)

namespace Directives

/-- The current table after a header. -/
def tableOf (d : Directives) (line : Line) : Line :=
  ((d.tables.find? fun t => matchesWhole t.1 line).map Prod.snd).getD (trimSpace line)

def takes (d : Directives) (currentTable trimmed : Line) : Bool :=
  d.keys.any fun k => k.1 == currentTable && k.2.any fun r => matchesStart r trimmed

def strip (d : Directives) : Line → List Line → List Line
  | _, [] => []
  | currentTable, line :: ls =>
    if d.tables.any (fun t => matchesWhole t.1 line) || isHeaderLine line then
      line :: d.strip (d.tableOf line) ls
    else if d.takes currentTable (trimSpace line) then d.strip currentTable ls
    else line :: d.strip currentTable ls

end Directives

def featuresTable : Line := "[features]".toList

def memoriesTable : Line := "[memories]".toList

def isFeaturesHeader (line : Line) : Bool := matchesWhole rootFeaturesTableHeaderRe line

def isMemoriesHeader (line : Line) : Bool := matchesWhole rootMemoriesTableHeaderRe line

def hasRootFeaturesTable (content : Text) : Bool := (lines content).any isFeaturesHeader

def hasRootMemoriesTable (content : Text) : Bool := (lines content).any isMemoriesHeader

/-! ## Multi-agent -/

def userMultiAgentDirectives : Directives where
  tables := [(rootFeaturesTableHeaderRe, featuresTable)]
  keys := [([], [rootDottedMultiAgentRe]), (featuresTable, [featuresTableMultiAgentRe])]

def stripUserMultiAgentDirectives (content : Text) : Text :=
  joined (userMultiAgentDirectives.strip [] (lines content))

def multiAgentLine (inFeaturesTable : Bool) : Line :=
  if inFeaturesTable then "multi_agent = false".toList else "features.multi_agent = false".toList

def renderMulticaMultiAgentBlock (inFeaturesTable : Bool) : Text :=
  multicaMultiAgent.render [multiAgentLine inFeaturesTable]

def injectManagedBlockIntoFeaturesTable (content : Text) : Text :=
  let blockLines := lines (trimRight (renderMulticaMultiAgentBlock true))
  joined (Toml.insertAfter isFeaturesHeader blockLines (lines content))

/-- `enabled` is `codexMultiAgentEnabled()`. -/
def ensureCodexMultiAgentConfig (enabled : Bool) (data : Text) : Text :=
  if enabled then data
  else
    let existing := stripUserMultiAgentDirectives (multicaMultiAgent.removeFrom data)
    if hasRootFeaturesTable existing then injectManagedBlockIntoFeaturesTable existing
    else prepend (renderMulticaMultiAgentBlock false) (trimLeft existing)

/-! ## Memory -/

def userMemoryDirectives : Directives where
  tables := [(rootFeaturesTableHeaderRe, featuresTable), (rootMemoriesTableHeaderRe, memoriesTable)]
  keys :=
    [([], [rootDottedFeaturesMemoriesRe, rootDottedMemoriesGenerateRe, rootDottedMemoriesUseRe]),
     (featuresTable, [featuresTableMemoriesRe]),
     (memoriesTable, [memoriesTableGenerateRe, memoriesTableUseRe])]

def stripUserMemoryDirectives (content : Text) : Text :=
  joined (userMemoryDirectives.strip [] (lines content))

def memoryFeatureLine (inFeaturesTable : Bool) : Line :=
  if inFeaturesTable then "memories = false".toList else "features.memories = false".toList

def renderMulticaMemoryFeatureBlock (inFeaturesTable : Bool) : Text :=
  multicaMemoryFeature.render [memoryFeatureLine inFeaturesTable]

def memoryConfigLines (inMemoriesTable : Bool) : List Line :=
  if inMemoriesTable then ["generate_memories = false".toList, "use_memories = false".toList]
  else
    ["memories.generate_memories = false".toList, "memories.use_memories = false".toList]

def renderMulticaMemoryConfigBlock (inMemoriesTable : Bool) : Text :=
  multicaMemoryConfig.render (memoryConfigLines inMemoriesTable)

/-- The lines behind a block, without those that are empty, but for the last one. -/
def dropEmpty : List Line → List Line
  | [] => []
  | [l] => [l]
  | l :: l' :: ls => if l = [] then dropEmpty (l' :: ls) else l :: l' :: ls

def insertAfterHeader (isHeader : Line → Bool) (blockLines : List Line) : List Line → List Line
  | [] => []
  | l :: ls =>
    if isHeader l then l :: (blockLines ++ dropEmpty ls)
    else l :: insertAfterHeader isHeader blockLines ls

def injectAfterHeader (content : Text) (isHeader : Line → Bool) (block : Text) : Text :=
  joined (insertAfterHeader isHeader (lines (trimRight block)) (lines content))

/-- `enabled` is `codexMemoryEnabled()`. -/
def ensureCodexMemoryConfig (enabled : Bool) (data : Text) : Text :=
  if enabled then data
  else
    let existing := stripUserMemoryDirectives
      (multicaMemoryConfig.removeFrom (multicaMemoryFeature.removeFrom data))
    let hasFeatures := hasRootFeaturesTable existing
    let hasMemories := hasRootMemoriesTable existing
    let existing :=
      if hasFeatures then
        injectAfterHeader existing isFeaturesHeader (renderMulticaMemoryFeatureBlock true)
      else existing
    let existing :=
      if hasMemories then
        injectAfterHeader existing isMemoriesHeader (renderMulticaMemoryConfigBlock true)
      else existing
    let prependStr := (if hasFeatures then [] else renderMulticaMemoryFeatureBlock false) ++
      if hasMemories then [] else renderMulticaMemoryConfigBlock false
    let existing := trimLeft existing
    if prependStr = [] then existing else prepend prependStr existing

/-! ## All edits -/

/-- The edits that `prepareCodexHomeWithOpts` makes in its copy of the user's file, where neither
feature was opted into. -/
def editedConfig (policy : CodexSandboxPolicy) (content : Text) : Text :=
  ensureCodexMemoryConfig false (ensureCodexMultiAgentConfig false
    (ensureCodexSandboxConfig (stripSkillsConfigEntries content) policy))

end Orynx.CodexConfig
