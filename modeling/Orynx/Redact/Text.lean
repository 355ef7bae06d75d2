import Orynx.Pattern

/-! # Secrets in the output of an agent

`Text` of `server/pkg/redact/redact.go`: the patterns of known secrets, each replaced by a
placeholder, and the home directory of the local user.
-/

namespace Orynx.Redact

open Lib

/-! ## Searches -/

/-- An expression, two of them with as little as possible between, or one up to a character that
is captured or the end of the text. -/
inductive Search where
  | plain (r : Regex)
  | lazily (r r' : Regex)
  | delimited (r : Regex) (stop : Char → Bool)

/-- The first match at the start of `s`: the text and what was captured. -/
def Search.first (q : Search) (prev : Option Char) (s : List Char) :
    Option (List Char × List Char) :=
  match q with
  | .plain r => (r.results prev s).head?.map fun x => (x.1, [])
  | .lazily r r' =>
    (r.results prev s).findSome? fun x =>
      let rest := s.drop x.1.length
      (List.range (rest.length + 1)).findSome? fun n =>
        let between := x.1 ++ rest.take n
        (r'.results (Regex.lastOf prev between) (rest.drop n)).head?.map fun y =>
          (between ++ y.1, [])
  | .delimited r stop =>
    (r.results prev s).findSome? fun x =>
      match s.drop x.1.length with
      | [] => some (x.1, [])
      | c :: _ => if stop c then some (x.1 ++ [c], [c]) else none

/-- `ReplaceAllString` for a search that does not match the empty text; the first `skip` characters
belong to a match already replaced. -/
def replaceFrom (q : Search) (replacement : List Char) :
    Option Char → Nat → List Char → List Char
  | _, _, [] => []
  | _, skip + 1, c :: s => replaceFrom q replacement (some c) skip s
  | prev, 0, c :: s =>
    match q.first prev (c :: s) with
    | some (w, captured) =>
      replacement ++ captured ++ replaceFrom q replacement (some c) (w.length - 1) s
    | none => c :: replaceFrom q replacement (some c) 0 s

/-- `strings.ReplaceAll` and, with a limit, `strings.Replace`, of a text that is not empty. -/
def replaceText (old new : List Char) : Option Nat → Nat → List Char → List Char
  | _, _, [] => []
  | limit, skip + 1, _ :: s => replaceText old new limit skip s
  | limit, 0, c :: s =>
    if limit ≠ some 0 ∧ old.isPrefixOf (c :: s) then
      new ++ replaceText old new (limit.map (· - 1)) (old.length - 1) s
    else c :: replaceText old new limit 0 s

/-! ## Classes -/

def isDigit (c : Char) : Bool := decide ('0' ≤ c ∧ c ≤ '9')

def isUpper (c : Char) : Bool := decide ('A' ≤ c ∧ c ≤ 'Z')

def isLower (c : Char) : Bool := decide ('a' ≤ c ∧ c ≤ 'z')

/-- `A-Za-z0-9` and some more characters. -/
def alnumOr (more : String) (c : Char) : Bool :=
  isDigit c || isUpper c || isLower c || more.toList.contains c

/-- A class under `(?i)`. -/
def folded (p : Char → Bool) (c : Char) : Bool := p c || p (foldChar c)

/-- A word as it stands. -/
def exactly : List Char → Regex
  | [] => .empty
  | c :: cs => .seq (.set fun d => d == c) (exactly cs)

def word (s : String) : Regex := exactly s.toList

def anyCase (s : String) : Regex := literal s.toList

/-- One of some words. -/
def oneOf (build : String → Regex) : List String → Regex
  | [] => .set fun _ => false
  | [s] => build s
  | s :: rest => .alt (build s) (oneOf build rest)

def inOrder : List Regex → Regex
  | [] => .empty
  | [r] => r
  | r :: rest => .seq r (inOrder rest)

/-- The run after a separator: `\s*[=:]\s*`. -/
def separator : Regex :=
  inOrder [.many isBlank 0 none, .set fun c => c == '=' || c == ':', .many isBlank 0 none]

/-! ## The patterns -/

structure SecretPattern where
  re : Search
  replacement : String

def patterns : List SecretPattern :=
  [⟨.plain (inOrder [.wordBoundary, word "AKIA",
      .many (fun c => isDigit c || isUpper c) 16 (some 16), .wordBoundary]),
    "[REDACTED AWS KEY]"⟩,
   ⟨.plain (inOrder [.alt (anyCase "aws_secret_access_key")
        (inOrder [anyCase "secret", .many (· == '_') 0 (some 1), anyCase "access",
          .many (· == '_') 0 (some 1), anyCase "key"]),
      separator, .many (folded (alnumOr "/+=")) 40 (some 40)]),
    "[REDACTED AWS SECRET]"⟩,
   ⟨.lazily
      (inOrder [word "-----BEGIN", .many (fun c => isUpper c || isBlank c) 0 none,
        word "PRIVATE KEY-----"])
      (inOrder [word "-----END", .many (fun c => isUpper c || isBlank c) 0 none,
        word "PRIVATE KEY-----"]),
    "[REDACTED PRIVATE KEY]"⟩,
   ⟨.plain (inOrder [.wordBoundary, .group (oneOf word ["ghp", "gho", "ghu", "ghs", "ghr"]),
      word "_", .many (alnumOr "_") 36 (some 255), .wordBoundary]),
    "[REDACTED GITHUB TOKEN]"⟩,
   ⟨.plain (inOrder [.wordBoundary, word "github_pat_", .many (alnumOr "_") 20 (some 255),
      .wordBoundary]),
    "[REDACTED GITHUB TOKEN]"⟩,
   ⟨.plain (inOrder [.wordBoundary, word "sk-", .many (alnumOr "_-") 20 none, .wordBoundary]),
    "[REDACTED API KEY]"⟩,
   ⟨.plain (inOrder [.wordBoundary, word "xox", .set fun c => "bporase".toList.contains c,
      word "-", .many (alnumOr "-") 10 none, .wordBoundary]),
    "[REDACTED SLACK TOKEN]"⟩,
   ⟨.plain (inOrder [.wordBoundary, word "xapp-", .many (alnumOr "-") 10 none, .wordBoundary]),
    "[REDACTED SLACK TOKEN]"⟩,
   ⟨.plain (inOrder [.wordBoundary, word "glpat-", .many (alnumOr "_-") 20 none, .wordBoundary]),
    "[REDACTED GITLAB TOKEN]"⟩,
   ⟨.delimited (inOrder [.wordBoundary, word "AIza", .many (alnumOr "_-") 35 (some 35)])
      (fun c => !alnumOr "_-" c),
    "[REDACTED GOOGLE API KEY]"⟩,
   ⟨.plain (inOrder [.wordBoundary, oneOf word ["sk", "rk"], word "_live_",
      .many (alnumOr "") 16 none, .wordBoundary]),
    "[REDACTED STRIPE KEY]"⟩,
   ⟨.plain (inOrder [.wordBoundary, word "ey", .many (alnumOr "_-") 10 none, word ".",
      .many (alnumOr "_-") 10 none, word ".", .many (alnumOr "_-") 10 none, .wordBoundary]),
    "[REDACTED JWT]"⟩,
   ⟨.plain (inOrder [.wordBoundary, anyCase "bearer", .many isBlank 1 none,
      .many (folded (alnumOr "-._~+/")) 1 none, .many (· == '=') 0 none, .wordBoundary]),
    "Bearer [REDACTED]"⟩,
   ⟨.plain (inOrder [oneOf anyCase ["postgres", "mysql", "mongodb", "redis", "amqp"],
      .alt (anyCase "ql") .empty, word "://",
      .many (fun c => c != ':' && !isBlank c) 1 none, word ":",
      .many (fun c => c != '@' && !isBlank c) 1 none, word "@"]),
    "[REDACTED CONNECTION STRING]@"⟩,
   ⟨.plain (inOrder [oneOf anyCase ["api_key", "api_secret", "secret_key", "secret",
        "access_token", "auth_token", "private_key", "database_url", "db_password", "db_url",
        "redis_url", "password", "token"],
      separator, .many (fun c => !isBlank c) 1 none]),
    "[REDACTED CREDENTIAL]"⟩]

/-! ## The text -/

/-- What is known of the local user; empty where the lookup failed. -/
structure Host where
  homeDir : String
  username : String

def maskHome (host : Host) (s : List Char) : List Char :=
  if host.homeDir ≠ "" ∧ host.username ≠ "" then
    let masked := replaceText host.username.toList "****".toList (some 1) 0 host.homeDir.toList
    replaceText host.homeDir.toList masked none 0 s
  else s

/-- `Text`. -/
def Text (host : Host) (s : String) : String :=
  String.ofList (maskHome host
    (patterns.foldl (fun s p => replaceFrom p.re p.replacement.toList none 0 s) s.toList))

end Orynx.Redact
