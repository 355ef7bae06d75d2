import Mathlib.Algebra.GroupWithZero.Nat
import Mathlib.Logic.Equiv.Basic
import Orynx.Lib.Keyed
import Orynx.Lib.PrefixCode
import Orynx.Lib.SlashPath

/-! # The hash of a skill

`BuildManifest` of `server/pkg/skillbundle/hash.go`, which hashes a skill with its files,
`BuildAgentSkillBundles` of `server/internal/service/task.go`, which sends the hashes out, and
`validateSkillBundle` of `server/internal/daemon/skill_cache.go`, which checks what comes back.

* `hash_eq_iff`: two skills have one hash just if they are one skill;
* `bundle_taken_iff`: the daemon takes a bundle just if it is the skill that the server meant,
  with safe paths.

A text is its bytes, and SHA-256 is any function that does not collide.
-/

namespace Orynx.SkillBundle

open Lib

abbrev Bytes := List UInt8

def ascii (s : String) : Bytes := s.toList.map Char.toUInt8

def decimal (n : Nat) : Bytes := (Nat.toDigits 10 n).map Char.toUInt8

def hexDigit (n : Nat) : UInt8 :=
  if n < 10 then '0'.toUInt8 + n.toUInt8 else 'a'.toUInt8 + (n - 10).toUInt8

/-- `hex.EncodeToString`. -/
def hexEncode (b : Bytes) : Bytes :=
  b.flatMap fun x => [hexDigit (x.toNat / 16), hexDigit (x.toNat % 16)]

/-! ## The manifest -/

@[ext]
structure File where
  path : Bytes
  content : Bytes
deriving DecidableEq

structure Skill where
  id : Bytes
  source : Bytes
  name : Bytes
  description : Bytes
  content : Bytes
  files : List File

structure FileRef where
  path : Bytes
  sha256 : Bytes
  sizeBytes : Nat

structure Manifest where
  hash : Bytes
  sizeBytes : Nat
  fileCount : Nat
  files : List FileRef

/-- What was written so far. -/
def writeHashPart (h value : Bytes) : Bytes :=
  h ++ (decimal value.length ++ ascii ":" ++ (value ++ ascii "\n"))

def digest (sha256 : Bytes → Bytes) (b : Bytes) : Bytes := ascii "sha256:" ++ hexEncode (sha256 b)

structure Written where
  h : Bytes
  size : Nat
  refs : List FileRef

def writeFile (sha256 : Bytes → Bytes) (w : Written) (file : File) : Written :=
  let fileDigest := digest sha256 file.content
  { h := writeHashPart (writeHashPart (writeHashPart w.h file.path) fileDigest) file.content
    size := w.size + file.content.length
    refs := w.refs ++ [⟨file.path, fileDigest, file.content.length⟩] }

def writeSkill (skill : Skill) : Bytes :=
  [ascii "v1", skill.source, skill.id, skill.name, skill.description, skill.content].foldl
    writeHashPart []

def buildManifest (sha256 : Bytes → Bytes) (skill : Skill) : Manifest :=
  let files := sortBy File.path skill.files
  let w := files.foldl (writeFile sha256) ⟨writeSkill skill, skill.content.length, []⟩
  { hash := digest sha256 w.h, sizeBytes := w.size, fileCount := files.length, files := w.refs }

/-! ## The server -/

def sourceWorkspace : Bytes := ascii "workspace"

def sourceBuiltin : Bytes := ascii "builtin"

structure AgentSkillFileData where
  path : Bytes
  content : Bytes
  sha256 : Bytes := []
  sizeBytes : Nat := 0

structure AgentSkillData where
  id : Bytes
  source : Bytes
  name : Bytes
  description : Bytes
  hash : Bytes := []
  sizeBytes : Nat := 0
  content : Bytes
  files : List AgentSkillFileData

structure SkillRefData where
  id : Bytes
  source : Bytes
  name : Bytes
  description : Bytes
  hash : Bytes
  sizeBytes : Nat
  fileCount : Nat
  files : List FileRef

/-- The skill under the source and the id that it is sent with. -/
def identified (skill : AgentSkillData) : Skill :=
  let source :=
    if skill.source = [] then if skill.id = [] then sourceBuiltin else sourceWorkspace
    else skill.source
  let id :=
    if skill.id = [] ∧ source = sourceBuiltin then ascii "builtin:" ++ skill.name else skill.id
  { id := id, source := source, name := skill.name, description := skill.description,
    content := skill.content, files := skill.files.map fun f => ⟨f.path, f.content⟩ }

/-- A file with what the manifest says of its path; of two entries the last counts. -/
def withRef (refs : List FileRef) (f : AgentSkillFileData) : AgentSkillFileData :=
  match refs.reverse.find? fun ref => ref.path == f.path with
  | none => f
  | some ref => { f with sha256 := ref.sha256, sizeBytes := ref.sizeBytes }

def buildBundle (sha256 : Bytes → Bytes) (skill : AgentSkillData) : AgentSkillData × SkillRefData :=
  let sent := identified skill
  let manifest := buildManifest sha256 sent
  ({ skill with
      source := sent.source, id := sent.id, hash := manifest.hash,
      sizeBytes := manifest.sizeBytes, files := skill.files.map (withRef manifest.files) },
    { id := sent.id, source := sent.source, name := sent.name, description := sent.description,
      hash := manifest.hash, sizeBytes := manifest.sizeBytes, fileCount := manifest.fileCount,
      files := manifest.files })

def buildAgentSkillBundles (sha256 : Bytes → Bytes) (skills : List AgentSkillData) :
    List AgentSkillData × List SkillRefData :=
  (skills.map (buildBundle sha256)).unzip

/-! ## The daemon -/

/-- A bundle with the hash that it comes with. -/
structure SkillData extends Skill where
  hash : Bytes

/-- The bytes as characters, for what looks at dots and slashes only. -/
def latin (b : Bytes) : List Char := b.map fun x => Char.ofNat x.toNat

def safeSkillFilePath (p : Bytes) : Bool :=
  let p := latin p
  if p = [] ∨ '\x00' ∈ p ∨ p.head? = some '/' ∨ '\x5c' ∈ p then false
  else
    let clean := SlashPath.clean p
    !(clean == SlashPath.dot || clean != p || "../".toList.isPrefixOf clean ||
      clean == SlashPath.dotdot)

def validateSkillBundle (sha256 : Bytes → Bytes) (ref : SkillRefData) (bundle : SkillData) : Bool :=
  if bundle.id ≠ ref.id ∨ bundle.source ≠ ref.source ∨ bundle.hash ≠ ref.hash then false
  else if bundle.files.length ≠ ref.fileCount then false
  else if bundle.files.any fun f => !safeSkillFilePath f.path then false
  else
    let manifest := buildManifest sha256 bundle.toSkill
    if manifest.hash ≠ ref.hash then false
    else !(decide (0 < ref.sizeBytes) && manifest.sizeBytes != ref.sizeBytes)

/-! ## What is written -/

/-- A part as it is written. -/
def part (value : Bytes) : Bytes := decimal value.length ++ ascii ":" ++ (value ++ ascii "\n")

def fileParts (sha256 : Bytes → Bytes) (f : File) : List Bytes :=
  [f.path, digest sha256 f.content, f.content]

def parts (sha256 : Bytes → Bytes) (skill : Skill) : List Bytes :=
  [ascii "v1", skill.source, skill.id, skill.name, skill.description, skill.content] ++
    (sortBy File.path skill.files).flatMap (fileParts sha256)

theorem writeHashPart_eq (h value : Bytes) : writeHashPart h value = h ++ part value := rfl

theorem foldl_writeHashPart (h : Bytes) (values : List Bytes) :
    values.foldl writeHashPart h = h ++ values.flatMap part := by
  induction values generalizing h with
  | nil => exact (List.append_nil h).symm
  | cons value values ih =>
    rw [List.foldl_cons, ih, writeHashPart_eq, List.flatMap_cons, List.append_assoc]

/-- What writing files does, to the hash, the size and the references. -/
theorem foldl_writeFile (sha256 : Bytes → Bytes) (w : Written) (files : List File) :
    files.foldl (writeFile sha256) w =
      ⟨(files.flatMap (fileParts sha256)).foldl writeHashPart w.h,
        w.size + (files.map fun f => f.content.length).sum,
        w.refs ++ files.map fun f => ⟨f.path, digest sha256 f.content, f.content.length⟩⟩ := by
  induction files generalizing w with
  | nil => simp
  | cons file files ih =>
    rw [List.foldl_cons, ih]
    simp [writeFile, fileParts, Nat.add_assoc]

theorem hash_eq (sha256 : Bytes → Bytes) (skill : Skill) :
    (buildManifest sha256 skill).hash = digest sha256 ((parts sha256 skill).flatMap part) := by
  rw [buildManifest, foldl_writeFile, writeSkill, ← List.foldl_append, foldl_writeHashPart]
  rfl

/-! ## Codes -/

theorem ofNat_toUInt8 {c : Char} (hc : c.isDigit = true) : Char.ofNat c.toUInt8.toNat = c := by
  have hbyte : c.toUInt8.toNat = c.toNat := by
    have hle : c.val.toNat ≤ 57 := by
      simp only [Char.isDigit, Bool.and_eq_true, decide_eq_true_eq] at hc
      exact UInt32.le_iff_toNat_le.1 hc.2
    rw [Char.toUInt8, UInt32.toNat_toUInt8]
    exact Nat.mod_eq_of_lt (by omega)
  rw [hbyte, Char.ofNat_toNat]

theorem map_decimal (n : Nat) :
    (decimal n).map (fun x => Char.ofNat x.toNat) = Nat.toDigits 10 n := by
  rw [decimal, List.map_map]
  refine (List.map_congr_left fun c hc => ?_).trans (List.map_id _)
  exact ofNat_toUInt8 (Nat.isDigit_of_mem_toDigits (by decide) (by decide) hc)

theorem decimal_injective : Function.Injective decimal := by
  intro m n h
  rw [← Nat.ofDigitChars_ten_toDigits (n := m), ← map_decimal, h, map_decimal,
    Nat.ofDigitChars_ten_toDigits]

/-- The part of a value says where it ends. -/
theorem prefixCode_part : PrefixCode part := by
  have hcolon : ∀ n, ':'.toUInt8 ∉ decimal n := by
    intro n hmem
    have hdigit := List.mem_map_of_mem (f := fun x : UInt8 => Char.ofNat x.toNat) hmem
    rw [map_decimal] at hdigit
    cases Nat.isDigit_of_mem_toDigits (by decide) (by decide) hdigit
  exact (PrefixCode.delimited decimal_injective hcolon).sized (ascii "\n")

theorem hexDigit_inj : ∀ m < 16, ∀ n < 16, hexDigit m = hexDigit n → m = n := by decide

theorem hexEncode_injective : Function.Injective hexEncode := by
  refine (PrefixCode.of_length (n := 1) ?_ fun _ => rfl).flatMap_injective
  intro x y h
  have hx := x.toNat_lt
  have hy := y.toNat_lt
  simp only [List.cons.injEq, and_true] at h
  have hhigh := hexDigit_inj _ (by omega) _ (by omega) h.1
  have hlow := hexDigit_inj _ (by omega) _ (by omega) h.2
  exact UInt8.toNat_inj.1 (by omega)

theorem digest_injective {sha256 : Bytes → Bytes} (hsha : Function.Injective sha256) :
    Function.Injective (digest sha256) := by
  intro a b h
  exact hsha (hexEncode_injective (List.append_cancel_left h))

theorem prefixCode_fileParts (sha256 : Bytes → Bytes) : PrefixCode (fileParts sha256) where
  ne_nil _ := List.cons_ne_nil _ _
  cancel f g r s h := by
    simp only [fileParts, List.cons_append, List.nil_append, List.cons.injEq] at h
    obtain ⟨hpath, -, hcontent, hrest⟩ := h
    exact ⟨File.ext hpath hcontent, hrest⟩

/-! ## The hash of a skill -/

/-- One skill, whatever order its files are listed in. -/
structure Same (a b : Skill) : Prop where
  source : a.source = b.source
  id : a.id = b.id
  name : a.name = b.name
  description : a.description = b.description
  content : a.content = b.content
  files : ∀ f, f ∈ a.files ↔ f ∈ b.files

def DistinctPaths (skill : Skill) : Prop := (skill.files.map File.path).Nodup

instance (skill : Skill) : Decidable (DistinctPaths skill) :=
  inferInstanceAs (Decidable (skill.files.map File.path).Nodup)

variable {sha256 : Bytes → Bytes} {a b : Skill}

theorem same_iff_perm (ha : DistinctPaths a) (hb : DistinctPaths b) :
    Same a b ↔ a.source = b.source ∧ a.id = b.id ∧ a.name = b.name ∧
      a.description = b.description ∧ a.content = b.content ∧ a.files.Perm b.files := by
  have hperm := List.perm_ext_iff_of_nodup (List.Nodup.of_map _ ha) (List.Nodup.of_map _ hb)
  constructor
  · rintro ⟨hsource, hid, hname, hdescription, hcontent, hfiles⟩
    exact ⟨hsource, hid, hname, hdescription, hcontent, hperm.2 hfiles⟩
  · rintro ⟨hsource, hid, hname, hdescription, hcontent, hfiles⟩
    exact ⟨hsource, hid, hname, hdescription, hcontent, hperm.1 hfiles⟩

theorem hash_eq_iff_parts (hsha : Function.Injective sha256) :
    (buildManifest sha256 a).hash = (buildManifest sha256 b).hash ↔
      parts sha256 a = parts sha256 b := by
  rw [hash_eq, hash_eq]
  exact ((digest_injective hsha).eq_iff).trans prefixCode_part.flatMap_injective.eq_iff

theorem parts_eq_iff (ha : DistinctPaths a) (hb : DistinctPaths b) :
    parts sha256 a = parts sha256 b ↔ Same a b := by
  rw [same_iff_perm ha hb, ← sortBy_eq_iff File.path ha,
    ← (prefixCode_fileParts sha256).flatMap_injective.eq_iff]
  simp [parts]

/-- Two skills have one hash just if they are one skill. -/
theorem hash_eq_iff (sha256 : Bytes → Bytes) (hsha : Function.Injective sha256) (a b : Skill)
    (ha : DistinctPaths a) (hb : DistinctPaths b) :
    (buildManifest sha256 a).hash = (buildManifest sha256 b).hash ↔ Same a b :=
  (hash_eq_iff_parts hsha).trans (parts_eq_iff ha hb)

/-- SHA-256 on what is hashed of the skill below. -/
def deploySha256 : Equiv.Perm Bytes :=
  ((Equiv.swap (ascii "a")
    [0xca, 0x97, 0x81, 0x12, 0xca, 0x1b, 0xbd, 0xca, 0xfa, 0xc2, 0x31, 0xb3, 0x9a, 0x23, 0xdc, 0x4d,
     0xa7, 0x86, 0xef, 0xf8, 0x14, 0x7c, 0x4e, 0x72, 0xb9, 0x80, 0x77, 0x85, 0xaf, 0xee, 0x48,
     0xbb]).trans
    (Equiv.swap (ascii "b")
    [0x3e, 0x23, 0xe8, 0x16, 0x00, 0x39, 0x59, 0x4a, 0x33, 0x89, 0x4f, 0x65, 0x64, 0xe1, 0xb1, 0x34,
     0x8b, 0xbd, 0x7a, 0x00, 0x88, 0xd4, 0x2c, 0x4a, 0xcb, 0x73, 0xee, 0xae, 0xd5, 0x9c, 0x00,
     0x9d])).trans
    (Equiv.swap (ascii ("2:v1\n9:workspace\n7:skill-1\n6:deploy\n0:\n4:main\n4:a.md\n" ++
    "71:sha256:ca978112ca1bbdcafac231b39a23dc4da786eff8147c4e72b9807785afee48bb\n1:a\n" ++
    "4:b.md\n71:sha256:3e23e8160039594a33894f6564e1b1348bbd7a0088d42c4acb73eeaed59c009d\n" ++
    "1:b\n"))
    [0x33, 0xe6, 0x61, 0x81, 0xe0, 0xc3, 0xf2, 0x0d, 0xdd, 0x25, 0xe7, 0x88, 0x21, 0x7a, 0xa6, 0x07,
    0x76, 0xa4, 0x68, 0x52, 0xbe, 0xeb, 0xe5, 0x62, 0xef, 0x66, 0x21, 0xb5, 0x43, 0xe8, 0x4f, 0xd4])

def deploy (files : List File) : Skill where
  id := ascii "skill-1"
  source := sourceWorkspace
  name := ascii "deploy"
  description := []
  content := ascii "main"
  files := files

theorem hash_eq_iff_deploy :
    let a : File := ⟨ascii "a.md", ascii "a"⟩
    let b : File := ⟨ascii "b.md", ascii "b"⟩
    (buildManifest deploySha256 (deploy [b, a])).hash =
        (buildManifest deploySha256 (deploy [a, b])).hash ↔
      Same (deploy [b, a]) (deploy [a, b]) :=
  hash_eq_iff deploySha256 deploySha256.injective (deploy [_, _]) (deploy [_, _]) (by decide)
    (by decide)

/-! ## Bundles that are sent -/

/-- All of a manifest is the same for the same skill. -/
theorem buildManifest_congr (sha256 : Bytes → Bytes) (ha : DistinctPaths a)
    (hb : DistinctPaths b) (h : Same a b) :
    buildManifest sha256 a = buildManifest sha256 b := by
  rcases (same_iff_perm ha hb).1 h with ⟨hsource, hid, hname, hdescription, hcontent, hperm⟩
  have hfiles := (sortBy_eq_iff File.path ha).2 hperm
  simp only [buildManifest, writeSkill, hsource, hid, hname, hdescription, hcontent, hfiles]

variable {bundle : SkillData}

theorem validateSkillBundle_iff (hsha : Function.Injective sha256) {skill : AgentSkillData}
    (hskill : DistinctPaths (identified skill)) (hbundle : DistinctPaths bundle.toSkill) :
    validateSkillBundle sha256 (buildBundle sha256 skill).2 bundle = true ↔
      Same bundle.toSkill (identified skill) ∧ bundle.hash = (buildBundle sha256 skill).2.hash ∧
        ∀ f ∈ bundle.files, safeSkillFilePath f.path = true := by
  have hidentity := hash_eq_iff sha256 hsha bundle.toSkill (identified skill) hbundle hskill
  have hpaths : (bundle.files.any fun f => !safeSkillFilePath f.path) = true ↔
      ¬∀ f ∈ bundle.files, safeSkillFilePath f.path = true := by simp
  rw [validateSkillBundle]
  constructor
  · intro h
    split at h
    · cases h
    · next hids =>
      split at h
      · cases h
      split at h
      · cases h
      · next hsafe =>
        dsimp only at h
        split at h
        · cases h
        · next hhash =>
          rw [not_or, not_or, not_not, not_not, not_not] at hids
          exact ⟨hidentity.1 (not_not.1 hhash), hids.2.2, not_not.1 fun hno => hsafe (hpaths.2 hno)⟩
  · rintro ⟨hsame, hhash, hsafe⟩
    have hmanifest := buildManifest_congr sha256 hbundle hskill hsame
    have hcount : bundle.files.length = (buildBundle sha256 skill).2.fileCount := by
      rw [((same_iff_perm hbundle hskill).1 hsame).2.2.2.2.2.length_eq]
      exact (perm_sortBy File.path _).length_eq.symm
    have hids : ¬(bundle.id ≠ (buildBundle sha256 skill).2.id ∨
        bundle.source ≠ (buildBundle sha256 skill).2.source ∨
        bundle.hash ≠ (buildBundle sha256 skill).2.hash) := by
      rw [not_or, not_or, not_not, not_not, not_not]
      exact ⟨hsame.id, hsame.source, hhash⟩
    rw [if_neg hids, if_neg (not_not.2 hcount), if_neg fun h => hpaths.1 h hsafe]
    dsimp only
    rw [hmanifest]
    simp [buildBundle]

/-- The daemon takes a bundle for a reference of the server just if it is the skill that the
reference was made of, with safe paths. -/
theorem bundle_taken_iff (sha256 : Bytes → Bytes) (hsha : Function.Injective sha256)
    (skills : List AgentSkillData) (hskills : ∀ skill ∈ skills, DistinctPaths (identified skill))
    (i : Nat) (skill : AgentSkillData) (hi : skills[i]? = some skill) (ref : SkillRefData)
    (href : (buildAgentSkillBundles sha256 skills).2[i]? = some ref) (bundle : SkillData)
    (hbundle : DistinctPaths bundle.toSkill) :
    validateSkillBundle sha256 ref bundle = true ↔
      Same bundle.toSkill (identified skill) ∧ bundle.hash = ref.hash ∧
        ∀ f ∈ bundle.files, safeSkillFilePath f.path = true := by
  simp only [buildAgentSkillBundles, List.unzip_eq_map, List.map_map, List.getElem?_map, hi,
    Option.map_some, Option.some.injEq] at href
  subst href
  exact validateSkillBundle_iff hsha (hskills skill (List.mem_of_getElem? hi)) hbundle

theorem bundle_taken_iff_deploy :
    let a : File := ⟨ascii "a.md", ascii "a"⟩
    let b : File := ⟨ascii "b.md", ascii "b"⟩
    let skill : AgentSkillData := ⟨ascii "skill-1", [], ascii "deploy", [], [], 0, ascii "main",
      [⟨ascii "a.md", ascii "a", [], 0⟩, ⟨ascii "b.md", ascii "b", [], 0⟩]⟩
    let ref := (buildBundle deploySha256 skill).2
    validateSkillBundle deploySha256 ref ⟨deploy [b, a], ref.hash⟩ = true ↔
      Same (deploy [b, a]) (identified skill) ∧ ref.hash = ref.hash ∧
        ∀ f ∈ [b, a], safeSkillFilePath f.path = true :=
  bundle_taken_iff deploySha256 deploySha256.injective [_]
    (List.forall_mem_singleton.2 (by decide)) 0 _ rfl _ rfl ⟨deploy [_, _], _⟩ (by decide)

end Orynx.SkillBundle
