import Mathlib.Data.List.TakeWhile
import Mathlib.Logic.Basic

/-! # Tab URLs

The URL helpers of `apps/desktop/src/renderer/src/stores/tab-store.ts`. Every tab URL is to be
`/{workspaceSlug}/{route}/...`.

* `sanitizeTabPath_idem`: a sanitised URL is left as it is;
* `belongs_default`: the default path of a plain slug belongs to it;
* `Belongs.plainSlug`: a slug that some URL belongs to is plain.
-/

namespace Orynx.Tabs

/-- `RESERVED_SLUGS` of `packages/core/paths/reserved-slugs.ts`. -/
def reservedSlugs : List String :=
  ["login", "logout", "signin", "signout", "signup", "auth", "oauth", "callback", "invite",
    "invitations", "verify", "reset", "password", "onboarding", "api", "admin", "multica", "www",
    "new", "home", "homepage", "dashboard", "help", "about", "pricing", "changelog", "docs",
    "support", "status", "legal", "privacy", "terms", "security", "contact", "contact-sales",
    "blog", "careers", "press", "download", "usecases", "profile", "account", "billing",
    "notifications", "search", "members", "issues", "projects", "autopilots", "agents", "squads",
    "inbox", "my-issues", "usage", "runtimes", "skills", "settings", "workspaces", "teams", "v1",
    "v2", "graphql", "webhooks", "sdk", "tokens", "cli", "health", "readyz", "healthz", "ws",
    "metrics", "ping", "postmaster", "abuse", "noreply", "webmaster", "hostmaster", "mail",
    "ftp", "static", "cdn", "assets", "public", "files", "uploads", "_next", "favicon.ico",
    "robots.txt", "sitemap.xml", "manifest.json", ".well-known"]

def isReservedSlug (slug : String) : Bool := reservedSlugs.contains slug

/-- A character of a pathname. -/
def inPathname (c : Char) : Bool := c != '?' && c != '#'

/-- `splitTabUrl`: the pathname, and the search and hash. -/
def splitTabUrl (url : String) : String × String :=
  (String.ofList (url.toList.takeWhile inPathname), String.ofList (url.toList.dropWhile inPathname))

/-- `path.split("/").filter(Boolean)`. -/
def segments (path : String) : List String :=
  ((path.toList.splitOn '/').filter (· != [])).map String.ofList

/-- `extractWorkspaceSlug`. -/
def extractWorkspaceSlug (path : String) : Option String :=
  match segments path with
  | [] => none
  | first :: _ => if isReservedSlug first then none else some first

/-- `resourceKeyForUrl`. -/
def resourceKeyForUrl (url : String) : String := (splitTabUrl url).1

/-- `sanitizeTabPath`. -/
def sanitizeTabPath (path : String) : Option String :=
  match segments (splitTabUrl path).1 with
  | [] => none
  | first :: rest =>
    if isReservedSlug first then none
    else if rest = [] then some ("/" ++ first ++ "/issues" ++ (splitTabUrl path).2)
    else some path

/-- `ROUTE_ICONS`. -/
def routeIcons : List (String × String) :=
  [("inbox", "Inbox"), ("my-issues", "CircleUser"), ("issues", "ListTodo"),
    ("projects", "FolderKanban"), ("autopilots", "ListTodo"), ("agents", "Bot"),
    ("runtimes", "Monitor"), ("skills", "BookOpenText"), ("settings", "Settings")]

/-- `resolveRouteIcon`. -/
def resolveRouteIcon (pathname : String) : String :=
  (routeIcons.lookup ((segments pathname)[1]?.getD "")).getD "ListTodo"

/-- `defaultPathFor`. -/
def defaultPathFor (slug : String) : String := "/" ++ slug ++ "/issues"

/-- The URL is as `sanitizeTabPath` leaves it, and is in the workspace. -/
def Belongs (slug url : String) : Prop :=
  sanitizeTabPath url = some url ∧ extractWorkspaceSlug url = some slug

instance (slug url : String) : Decidable (Belongs slug url) := inferInstanceAs (Decidable (_ ∧ _))

/-- A slug that is one segment of a pathname, and no route of the app. -/
def plainSlug (slug : String) : Bool :=
  slug != "" && slug.toList.all (fun c => inPathname c && c != '/') && !isReservedSlug slug

/-! ## Segments -/

section Segments

variable {cs seg : List Char} {slug suffix url path : String}

theorem mem_splitOn (h : seg ∈ cs.splitOn '/') : ∀ c ∈ seg, c ∈ cs ∧ c ≠ '/' := by
  induction cs generalizing seg with
  | nil =>
    simp only [List.splitOn_nil, List.mem_singleton] at h
    simp [h]
  | cons d cs ih =>
    rw [List.splitOn, List.splitOnP_cons_eq_if_modifyHead] at h
    split at h
    · rcases List.mem_cons.1 h with rfl | h
      · simp
      · exact fun c hc => ⟨List.mem_cons_of_mem d (ih h c hc).1, (ih h c hc).2⟩
    · rename_i hd
      cases hsplit : cs.splitOnP (· == '/') with
      | nil => simp [hsplit] at h
      | cons head tail =>
        have hmem : ∀ s ∈ head :: tail, ∀ c ∈ s, c ∈ cs ∧ c ≠ '/' := by
          intro s hs
          exact ih (by rw [List.splitOn, hsplit]; exact hs)
        rw [hsplit, List.modifyHead_cons] at h
        intro c hc
        rcases List.mem_cons.1 h with rfl | h
        · rcases List.mem_cons.1 hc with rfl | hc
          · exact ⟨List.mem_cons_self, by simpa using hd⟩
          · have hhead := hmem head List.mem_cons_self c hc
            exact ⟨List.mem_cons_of_mem d hhead.1, hhead.2⟩
        · have htail := hmem seg (List.mem_cons_of_mem head h) c hc
          exact ⟨List.mem_cons_of_mem d htail.1, htail.2⟩

/-- A segment is a piece of the path without a slash. -/
theorem mem_segments {s : String} (h : s ∈ segments path) :
    s ≠ "" ∧ ∀ c ∈ s.toList, c ∈ path.toList ∧ c ≠ '/' := by
  rcases List.mem_map.1 h with ⟨seg, hseg, rfl⟩
  rcases List.mem_filter.1 hseg with ⟨hin, hne⟩
  rw [String.toList_ofList]
  refine ⟨fun heq => ?_, mem_splitOn hin⟩
  have hnil : seg = [] := by
    rw [← String.toList_ofList (l := seg), heq]
    rfl
  simp [hnil] at hne

/-- `/{slug}/issues` has two segments. -/
theorem segments_default (hne : slug ≠ "") (hslash : ∀ c ∈ slug.toList, c ≠ '/') :
    segments (defaultPathFor slug) = [slug, "issues"] := by
  have hsplit : (defaultPathFor slug).toList.splitOn '/' = [[], slug.toList, "issues".toList] := by
    have hchars : (defaultPathFor slug).toList =
        '/' :: (slug.toList ++ '/' :: "issues".toList) := by
      simp [defaultPathFor]
    have hrest : "issues".toList.splitOnP (· == '/') = ["issues".toList] := by decide
    rw [hchars, List.splitOn, List.splitOnP_cons_eq_if_modifyHead, if_pos (by decide),
      List.splitOnP_append_cons_of_forall_mem (fun c hc => by simpa using hslash c hc) '/'
        (by decide), hrest]
  have hkeep : slug.toList ≠ [] := by simpa using hne
  rw [segments, hsplit]
  simp [hkeep]

/-- A piece that is followed by a slash does not change with what comes behind. -/
theorem splitOn_append {head : List Char} {tail : List (List Char)}
    (h : cs.splitOn '/' = head :: tail) (hne : tail ≠ []) (ds : List Char) :
    ∃ tail', (cs ++ ds).splitOn '/' = head :: tail' := by
  induction cs generalizing head tail with
  | nil =>
    simp only [List.splitOn_nil, List.cons.injEq] at h
    exact absurd h.2.symm hne
  | cons c cs ih =>
    rw [List.cons_append]
    rw [List.splitOn, List.splitOnP_cons_eq_if_modifyHead] at h ⊢
    split at h
    · rename_i hc
      rw [if_pos hc]
      obtain ⟨rfl, -⟩ := List.cons.inj h
      exact ⟨_, rfl⟩
    · rename_i hc
      rw [if_neg hc]
      cases hsplit : cs.splitOnP (· == '/') with
      | nil => simp [hsplit] at h
      | cons first rest =>
        rw [hsplit, List.modifyHead_cons] at h
        obtain ⟨rfl, rfl⟩ := List.cons.inj h
        rcases ih hsplit hne with ⟨tail', htail⟩
        rw [List.splitOn] at htail
        exact ⟨tail', by rw [htail, List.modifyHead_cons]⟩

/-- Nor does the first of two segments. -/
theorem segments_append {first second : String} {rest : List String}
    (h : segments path = first :: second :: rest) (suffix : String) :
    ∃ rest', segments (path ++ suffix) = first :: rest' := by
  have hchars : ∀ (cs ds : List Char) (x y : List Char) (zs : List (List Char)),
      (cs.splitOn '/').filter (· != []) = x :: y :: zs →
      ∃ zs', ((cs ++ ds).splitOn '/').filter (· != []) = x :: zs' := by
    intro cs ds x y zs
    induction cs with
    | nil =>
      intro hcs
      simp at hcs
    | cons c cs ih =>
      intro hcs
      by_cases hc : (c == '/') = true
      · rw [List.cons_append]
        rw [List.splitOn, List.splitOnP_cons_eq_if_modifyHead, if_pos hc,
          List.filter_cons_of_neg (by simp)] at hcs ⊢
        exact ih hcs
      · cases hsplit : (c :: cs).splitOn '/' with
        | nil => simp [hsplit] at hcs
        | cons head tail =>
          have hhead : head ≠ [] := by
            rw [List.splitOn, List.splitOnP_cons_eq_if_modifyHead, if_neg hc] at hsplit
            cases hrest : cs.splitOnP (· == '/') with
            | nil => simp [hrest] at hsplit
            | cons first rest =>
              rw [hrest, List.modifyHead_cons] at hsplit
              rw [← (List.cons.inj hsplit).1]
              simp
          rw [hsplit, List.filter_cons_of_pos (by simpa using hhead)] at hcs
          obtain ⟨rfl, htail⟩ := List.cons.inj hcs
          have hne : tail ≠ [] := fun hnil => by simp [hnil] at htail
          rcases splitOn_append hsplit hne ds with ⟨tail', hall⟩
          rw [hall, List.filter_cons_of_pos (by simpa using hhead)]
          exact ⟨_, rfl⟩
  rcases List.map_eq_cons_iff.1 h with ⟨x, xs, hfilter, hx, hxs⟩
  rcases List.map_eq_cons_iff.1 hxs with ⟨y, ys, rfl, -, -⟩
  rcases hchars path.toList suffix.toList x y ys hfilter with ⟨zs, hzs⟩
  rw [segments, String.toList_append, hzs, List.map_cons, hx]
  exact ⟨_, rfl⟩

end Segments

/-! ## Sanitised URLs -/

section Sanitised

variable {slug suffix url path : String}

/-- A pathname is cut off where the search or hash begins. -/
theorem splitTabUrl_append (hpath : ∀ c ∈ path.toList, inPathname c = true) (url : String) :
    splitTabUrl (path ++ (splitTabUrl url).2) = (path, (splitTabUrl url).2) := by
  have htake : (url.toList.dropWhile inPathname).takeWhile inPathname = [] := by
    rw [List.takeWhile_eq_nil_iff]
    intro hlen
    simpa using List.dropWhile_get_zero_not inPathname url.toList hlen
  have hdrop : (url.toList.dropWhile inPathname).dropWhile inPathname =
      url.toList.dropWhile inPathname := by
    have hboth : (url.toList.dropWhile inPathname).takeWhile inPathname ++
        (url.toList.dropWhile inPathname).dropWhile inPathname =
          url.toList.dropWhile inPathname := List.takeWhile_append_dropWhile
    rwa [htake, List.nil_append] at hboth
  simp only [splitTabUrl, String.toList_append, String.toList_ofList,
    List.takeWhile_append_of_pos hpath, List.dropWhile_append_of_pos hpath, htake, hdrop,
    List.append_nil, String.ofList_toList]

theorem inPathname_default (hslug : ∀ c ∈ slug.toList, inPathname c = true) :
    ∀ c ∈ (defaultPathFor slug).toList, inPathname c = true := by
  intro c hc
  rcases (by simpa [defaultPathFor, or_assoc] using hc : c = '/' ∨ c ∈ slug.toList ∨ _) with
    rfl | hmem | hrest
  · decide
  · exact hslug c hmem
  · rcases hrest with rfl | rfl | rfl | rfl | rfl | rfl | rfl <;> decide

/-- A sanitised URL is left as it is. -/
theorem sanitizeTabPath_idem (h : sanitizeTabPath path = some url) :
    sanitizeTabPath url = some url := by
  unfold sanitizeTabPath at h
  split at h
  · simp at h
  · rename_i first rest hsegs
    split at h
    · simp at h
    · rename_i hreserved
      split at h
      · rename_i hrest
        subst hrest
        rcases mem_segments (s := first) (hsegs ▸ List.mem_singleton.2 rfl) with ⟨hne, hchars⟩
        have hpath : ∀ c ∈ (defaultPathFor first).toList, inPathname c = true := by
          refine inPathname_default fun c hc => ?_
          have hin := (hchars c hc).1
          rw [splitTabUrl, String.toList_ofList] at hin
          exact List.mem_takeWhile_imp hin
        obtain rfl : defaultPathFor first ++ (splitTabUrl path).2 = url := Option.some.inj h
        rw [sanitizeTabPath, splitTabUrl_append hpath,
          segments_default hne fun c hc => (hchars c hc).2]
        simp [hreserved]
      · rename_i hrest
        obtain rfl : path = url := Option.some.inj h
        rw [sanitizeTabPath, hsegs]
        simp [hreserved, hrest]

/-- The default path of a plain slug belongs to it. -/
theorem belongs_default (h : plainSlug slug = true) : Belongs slug (defaultPathFor slug) := by
  simp only [plainSlug, Bool.and_eq_true, bne_iff_ne, List.all_eq_true, Bool.not_eq_true'] at h
  rcases h with ⟨⟨hne, hchars⟩, hreserved⟩
  have hsegs := segments_default hne fun c hc => by simpa using (hchars c hc).2
  have hsplit : splitTabUrl (defaultPathFor slug) = (defaultPathFor slug, "") := by
    have hnone := splitTabUrl_append (inPathname_default fun c hc => (hchars c hc).1) ""
    simpa [splitTabUrl] using hnone
  constructor
  · rw [sanitizeTabPath, hsplit, hsegs]
    simp [hreserved]
  · rw [extractWorkspaceSlug, hsegs]
    simp [hreserved]

/-- A workspace that has a URL has a plain slug. -/
theorem Belongs.plainSlug (h : Belongs slug url) : plainSlug slug = true := by
  have hsan := h.1
  unfold sanitizeTabPath at hsan
  split at hsan
  · simp at hsan
  · rename_i first rest hsegs
    rcases mem_segments (s := first) (hsegs ▸ List.mem_cons_self) with ⟨hne, hchars⟩
    have hplain : ∀ c ∈ first.toList, inPathname c = true := by
      intro c hc
      have hin := (hchars c hc).1
      rw [splitTabUrl, String.toList_ofList] at hin
      exact List.mem_takeWhile_imp hin
    split at hsan
    · simp at hsan
    · rename_i hreserved
      -- a sanitised URL has a second segment
      have hsecond : rest ≠ [] := by
        intro hrest
        rw [if_pos hrest] at hsan
        have hurl : defaultPathFor first ++ (splitTabUrl url).2 = url := Option.some.inj hsan
        have hpath : (splitTabUrl url).1 = defaultPathFor first := by
          have hsplit := splitTabUrl_append (inPathname_default hplain) url
          rw [hurl] at hsplit
          rw [hsplit]
        rw [hpath, segments_default hne fun c hc => (hchars c hc).2, hrest] at hsegs
        simp at hsegs
      cases rest with
      | nil => exact absurd rfl hsecond
      | cons second rest =>
        have hurl : (splitTabUrl url).1 ++ (splitTabUrl url).2 = url := by
          rw [splitTabUrl, ← String.ofList_append, List.takeWhile_append_dropWhile,
            String.ofList_toList]
        rcases segments_append hsegs (splitTabUrl url).2 with ⟨rest', hall⟩
        have hslug := h.2
        rw [extractWorkspaceSlug, ← hurl, hall] at hslug
        simp only [hreserved, Bool.false_eq_true, if_false, Option.some.injEq] at hslug
        subst hslug
        simp only [Tabs.plainSlug, Bool.and_eq_true, bne_iff_ne, List.all_eq_true,
          Bool.not_eq_true']
        exact ⟨⟨hne, fun c hc => ⟨hplain c hc, (hchars c hc).2⟩⟩, by simpa using hreserved⟩

end Sanitised

end Orynx.Tabs
