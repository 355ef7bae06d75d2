import Orynx.Lib.Machine
import Orynx.Lib.Record
import Orynx.Tabs.Url

/-! # The tab store

`apps/desktop/src/renderer/src/stores/tab-store.ts`: for each workspace a group of tabs with its
active tab; a tab has a URL and the history that it was reached by. The store is written to the
disk by `partialize` and read back by `merge`.
-/

namespace Orynx.Tabs

open Lib

/-! ## Sessions -/

structure TabMemento where
  scroll : List (String × Nat × Nat) := []
deriving DecidableEq, Repr

structure TabHistory where
  stack : List String
  index : Nat
deriving DecidableEq, Repr

structure TabSession where
  id : String
  url : String
  resourceKey : String
  title : String
  icon : String
  pinned : Bool
  history : TabHistory
  memento : TabMemento
deriving DecidableEq, Repr

structure WorkspaceTabGroup where
  tabs : List TabSession
  activeTabId : String
deriving DecidableEq, Repr

structure TabStore where
  activeWorkspaceSlug : Option String := none
  byWorkspace : Record WorkspaceTabGroup := .empty

/-- `makeSession`, with the id that `createId` gives. -/
def makeSession (id url title icon : String) : TabSession :=
  { id := id
    url := url
    resourceKey := resourceKeyForUrl url
    title := title
    icon := icon
    pinned := false
    history := { stack := [url], index := 0 }
    memento := {} }

/-- `pinnedBoundary`. -/
def pinnedBoundary (tabs : List TabSession) : Nat := (tabs.takeWhile (·.pinned)).length

/-- `defaultTabFor`. -/
def defaultTabFor (id slug : String) : TabSession :=
  let path := defaultPathFor slug
  makeSession id path "Issues" (resolveRouteIcon path)

/-- The list with an element at a place, all from there on one further. -/
def insertAt {α : Type} (l : List α) (i : Nat) (a : α) : List α := l.take i ++ a :: l.drop i

namespace TabStore

/-- The active workspace, unless it is null or empty. -/
def active (s : TabStore) : Option String := s.activeWorkspaceSlug.filter (· != "")

def setGroup (s : TabStore) (slug : String) (group : WorkspaceTabGroup) : TabStore :=
  { s with byWorkspace := s.byWorkspace.set slug group }

/-- `findTabLocation`. -/
def findTabLocation (s : TabStore) (tabId : String) : Option (String × WorkspaceTabGroup × Nat) :=
  s.byWorkspace.entries.findSome? fun e =>
    (e.2.tabs.findIdx? (·.id == tabId)).map fun index => (e.1, e.2, index)

/-- The active tab of the active workspace. -/
def activeTab (s : TabStore) : Option (String × WorkspaceTabGroup × Nat × TabSession) := do
  let slug ← s.active
  let group ← s.byWorkspace.get? slug
  let index ← group.tabs.findIdx? (·.id == group.activeTabId)
  let tab ← group.tabs[index]?
  some (slug, group, index, tab)

/-! ## Actions -/

def switchWorkspace (s : TabStore) (slug : String) (openPath : Option String) (fresh : String) :
    TabStore :=
  if slug = "" then s
  else
    match s.byWorkspace.get? slug with
    | none =>
      let desiredPath := openPath.getD (defaultPathFor slug)
      let seedPath := (sanitizeTabPath desiredPath).getD (defaultPathFor slug)
      let tab := makeSession fresh seedPath "Issues" (resolveRouteIcon seedPath)
      { s.setGroup slug { tabs := [tab], activeTabId := tab.id } with
        activeWorkspaceSlug := some slug }
    | some existing =>
      match openPath.bind sanitizeTabPath with
      | none => { s with activeWorkspaceSlug := some slug }
      | some clean =>
        let key := resourceKeyForUrl clean
        match existing.tabs.find? (·.resourceKey == key) with
        | some found =>
          { s.setGroup slug { existing with activeTabId := found.id } with
            activeWorkspaceSlug := some slug }
        | none =>
          let tab := makeSession fresh clean "Issues" (resolveRouteIcon clean)
          { s.setGroup slug { tabs := existing.tabs ++ [tab], activeTabId := tab.id } with
            activeWorkspaceSlug := some slug }

def openTab (s : TabStore) (path title icon : String) (activate : Bool) (fresh : String) :
    TabStore :=
  match s.active, sanitizeTabPath path with
  | some slug, some clean =>
    match s.byWorkspace.get? slug with
    | none => s
    | some group =>
      let key := resourceKeyForUrl clean
      match group.tabs.find? (·.resourceKey == key) with
      | some existing => s.setGroup slug { group with activeTabId := existing.id }
      | none =>
        let tab := makeSession fresh clean title icon
        s.setGroup slug {
          tabs := group.tabs ++ [tab]
          activeTabId := if activate then tab.id else group.activeTabId }
  | _, _ => s

def addTab (s : TabStore) (path title icon fresh : String) : TabStore :=
  match s.active, sanitizeTabPath path with
  | some slug, some clean =>
    match s.byWorkspace.get? slug with
    | none => s
    | some group =>
      s.setGroup slug { group with tabs := group.tabs ++ [makeSession fresh clean title icon] }
  | _, _ => s

/-- A group that would be left without tabs makes the call fail where the next active tab is
looked for. -/
def closeTab (s : TabStore) (tabId fresh : String) : TabStore :=
  match s.findTabLocation tabId with
  | none => s
  | some (slug, group, index) =>
    if group.tabs.length = 1 then
      let tab := defaultTabFor fresh slug
      s.setGroup slug { tabs := [tab], activeTabId := tab.id }
    else
      let nextTabs := group.tabs.filter (·.id != tabId)
      if group.activeTabId = tabId then
        match nextTabs[min index (nextTabs.length - 1)]? with
        | none => s
        | some next => s.setGroup slug { tabs := nextTabs, activeTabId := next.id }
      else s.setGroup slug { group with tabs := nextTabs }

/-- `buildCloseOtherTabsResult`. -/
def closeOtherTabs (s : TabStore) (tabId : String) : TabStore :=
  match s.findTabLocation tabId with
  | none => s
  | some (slug, group, _) =>
    let closingTabs := group.tabs.filter fun tab => !tab.pinned && tab.id != tabId
    if closingTabs = [] then s
    else
      let closingIds := closingTabs.map (·.id)
      s.setGroup slug {
        tabs := group.tabs.filter fun tab => !closingIds.contains tab.id
        activeTabId := if closingIds.contains group.activeTabId then tabId else group.activeTabId }

def setActiveTab (s : TabStore) (tabId : String) : TabStore :=
  match s.findTabLocation tabId with
  | none => s
  | some (slug, group, _) =>
    if s.activeWorkspaceSlug = some slug ∧ group.activeTabId = tabId then s
    else
      { s.setGroup slug { group with activeTabId := tabId } with activeWorkspaceSlug := some slug }

def updateTab (s : TabStore) (tabId : String) (title icon : Option String) : TabStore :=
  match s.findTabLocation tabId with
  | none => s
  | some (slug, group, index) =>
    match group.tabs[index]? with
    | none => s
    | some current =>
      let next := { current with title := title.getD current.title, icon := icon.getD current.icon }
      if next.title = current.title ∧ next.icon = current.icon then s
      else s.setGroup slug { group with tabs := group.tabs.set index next }

/-- A session at another URL. -/
def goTo (tab : TabSession) (url : String) (history : TabHistory) : TabSession :=
  { tab with
    url := url
    resourceKey := resourceKeyForUrl url
    icon := resolveRouteIcon (splitTabUrl url).1
    history := history }

def navigateActiveSession (s : TabStore) (url : String) (replace : Bool) : TabStore :=
  match s.activeTab, sanitizeTabPath url with
  | some (slug, group, index, current), some clean =>
    if extractWorkspaceSlug clean ≠ some slug then s
    else if current.url = clean then s
    else
      let h := current.history
      let history : TabHistory :=
        if replace then
          { stack := h.stack.take h.index ++ clean :: h.stack.drop (h.index + 1), index := h.index }
        else { stack := h.stack.take (h.index + 1) ++ [clean], index := h.index + 1 }
      s.setGroup slug { group with tabs := group.tabs.set index (goTo current clean history) }
  | _, _ => s

def stepHistory (s : TabStore) (delta : Int) : TabStore :=
  match s.activeTab with
  | none => s
  | some (slug, group, index, current) =>
    let nextIndex := current.history.index + delta
    if nextIndex < 0 then s
    else
      match current.history.stack[nextIndex.toNat]? with
      | none => s
      | some url =>
        s.setGroup slug { group with
          tabs := group.tabs.set index
            (goTo current url { current.history with index := nextIndex.toNat }) }

def goBack (s : TabStore) : TabStore := s.stepHistory (-1)

def goForward (s : TabStore) : TabStore := s.stepHistory 1

/-- The place to which a tab may be moved. -/
def clampedTo (tabs : List TabSession) (source : TabSession) (toIndex : Int) : Int :=
  let boundary : Int := pinnedBoundary tabs
  if source.pinned then max 0 (min toIndex (boundary - 1))
  else max boundary (min toIndex (tabs.length - 1))

/-- `arrayMove` is a function of a library. -/
def moveTab (arrayMove : List TabSession → Nat → Nat → List TabSession) (s : TabStore)
    (fromIndex toIndex : Int) : TabStore :=
  if fromIndex = toIndex then s
  else
    match s.active with
    | none => s
    | some slug =>
      match s.byWorkspace.get? slug with
      | none => s
      | some group =>
        if fromIndex < 0 then s
        else
          match group.tabs[fromIndex.toNat]? with
          | none => s
          | some source =>
            let clamped := clampedTo group.tabs source toIndex
            if clamped = fromIndex then s
            else
              s.setGroup slug { group with
                tabs := arrayMove group.tabs fromIndex.toNat clamped.toNat }

def togglePin (s : TabStore) (tabId : String) : TabStore :=
  match s.findTabLocation tabId with
  | none => s
  | some (slug, group, index) =>
    match group.tabs[index]? with
    | none => s
    | some current =>
      let nextTab := { current with pinned := !current.pinned }
      let withoutCurrent := group.tabs.eraseIdx index
      s.setGroup slug { group with
        tabs := insertAt withoutCurrent (pinnedBoundary withoutCurrent) nextTab }

/-- The slugs are in the order in which the set has them. -/
def validateWorkspaceSlugs (s : TabStore) (validSlugs : List String) (fresh : String) : TabStore :=
  let kept := s.byWorkspace.filterMap fun slug group =>
    if validSlugs.contains slug then some group else none
  match s.active.filter validSlugs.contains with
  | some slug => { activeWorkspaceSlug := some slug, byWorkspace := kept }
  | none =>
    match kept.keys.head?.filter (· != "") with
    | some slug => { activeWorkspaceSlug := some slug, byWorkspace := kept }
    | none =>
      match validSlugs.head?.filter (· != "") with
      | none => { activeWorkspaceSlug := none, byWorkspace := kept }
      | some fallbackSlug =>
        let tab := defaultTabFor fresh fallbackSlug
        { activeWorkspaceSlug := some fallbackSlug
          byWorkspace := kept.set fallbackSlug { tabs := [tab], activeTabId := tab.id } }

def reset : TabStore := {}

end TabStore

/-! ## The disk -/

/-- What may be read of a history: the stack may be missing or no array. -/
structure PersistedHistory where
  stack : Option (List String) := none
  index : Option Int := none
deriving DecidableEq, Repr

structure PersistedTab where
  id : String
  url : String
  title : String
  icon : String
  pinned : Option Bool := none
  history : Option PersistedHistory := none
  memento : Option TabMemento := none
deriving DecidableEq, Repr

structure PersistedGroup where
  tabs : List PersistedTab
  activeTabId : String
deriving DecidableEq, Repr

structure Persisted where
  activeWorkspaceSlug : Option String := none
  byWorkspace : Option (Record PersistedGroup) := none

def partializeTab (t : TabSession) : PersistedTab :=
  { id := t.id
    url := t.url
    title := t.title
    icon := t.icon
    pinned := some t.pinned
    history := some { stack := some t.history.stack, index := some t.history.index }
    memento := some t.memento }

/-- `partialize`. -/
def partialize (s : TabStore) : Persisted :=
  { activeWorkspaceSlug := s.activeWorkspaceSlug
    byWorkspace := some (s.byWorkspace.filterMap fun _ group =>
      some { tabs := group.tabs.map partializeTab, activeTabId := group.activeTabId }) }

/-- The history of a tab that is read, with its URL in place of a stack that is not there. -/
def restoreHistory (clean : String) (h : Option PersistedHistory) : TabHistory :=
  let stack := ((h.bind (·.stack)).filter (· != [])).getD [clean]
  let index := (h.bind (·.index)).getD (stack.length - 1)
  { stack := stack, index := (min (max index 0) (stack.length - 1)).toNat }

/-- A tab that is read, unless its URL is not in the workspace of the group. -/
def restoreTab (slug : String) (pTab : PersistedTab) : Option TabSession :=
  match sanitizeTabPath pTab.url with
  | none => none
  | some clean =>
    if extractWorkspaceSlug clean ≠ some slug then none
    else some {
      id := pTab.id
      url := clean
      resourceKey := resourceKeyForUrl clean
      title := pTab.title
      icon := pTab.icon
      pinned := pTab.pinned.getD false
      history := restoreHistory clean pTab.history
      memento := pTab.memento.getD {} }

/-- A stable sort by `pinned`. -/
def sortPinned (tabs : List TabSession) : List TabSession :=
  tabs.filter (·.pinned) ++ tabs.filter (!·.pinned)

def restoreGroup (slug : String) (pGroup : PersistedGroup) : Option WorkspaceTabGroup :=
  let tabs := sortPinned (pGroup.tabs.filterMap (restoreTab slug))
  match tabs with
  | [] => none
  | first :: _ => some {
    tabs := tabs
    activeTabId :=
      if tabs.any (·.id == pGroup.activeTabId) then pGroup.activeTabId else first.id }

/-- `merge`. -/
def merge (persisted : Persisted) (currentState : TabStore) : TabStore :=
  match persisted.byWorkspace with
  | none => currentState
  | some groups =>
    let byWorkspace := groups.filterMap restoreGroup
    let known := persisted.activeWorkspaceSlug.filter fun slug =>
      slug != "" && (byWorkspace.get? slug).isSome
    { activeWorkspaceSlug := known <|> byWorkspace.keys.head?, byWorkspace := byWorkspace }

/-! ## The machine -/

/-- `rehydrate` is what the library does with the state that it has read; `fresh` is the id that
`createId` gives. -/
inductive Act where
  | rehydrate (persisted : Persisted)
  | switchWorkspace (slug : String) (openPath : Option String) (fresh : String)
  | openTab (path title icon : String) (activate : Bool) (fresh : String)
  | addTab (path title icon fresh : String)
  | closeTab (tabId fresh : String)
  | closeOtherTabs (tabId : String)
  | setActiveTab (tabId : String)
  | updateTab (tabId : String) (title icon : Option String)
  | navigateActiveSession (url : String) (replace : Bool)
  | goBack
  | goForward
  | moveTab (fromIndex toIndex : Int)
  | togglePin (tabId : String)
  | validateWorkspaceSlugs (validSlugs : List String) (fresh : String)
  | reset

/-- No tab has the id. -/
def TabStore.isFresh (s : TabStore) (id : String) : Bool :=
  s.byWorkspace.entries.all fun e => e.2.tabs.all (·.id != id)

section Machine

variable (arrayMove : List TabSession → Nat → Nat → List TabSession)

def step (s : TabStore) : Act → TabStore
  | .rehydrate persisted => merge persisted s
  | .switchWorkspace slug openPath fresh => s.switchWorkspace slug openPath fresh
  | .openTab path title icon activate fresh => s.openTab path title icon activate fresh
  | .addTab path title icon fresh => s.addTab path title icon fresh
  | .closeTab tabId fresh => s.closeTab tabId fresh
  | .closeOtherTabs tabId => s.closeOtherTabs tabId
  | .setActiveTab tabId => s.setActiveTab tabId
  | .updateTab tabId title icon => s.updateTab tabId title icon
  | .navigateActiveSession url replace => s.navigateActiveSession url replace
  | .goBack => s.goBack
  | .goForward => s.goForward
  | .moveTab fromIndex toIndex => s.moveTab arrayMove fromIndex toIndex
  | .togglePin tabId => s.togglePin tabId
  | .validateWorkspaceSlugs validSlugs fresh => s.validateWorkspaceSlugs validSlugs fresh
  | .reset => .reset

/-- The id that an action may need. -/
def Act.fresh : Act → Option String
  | .switchWorkspace _ _ fresh | .openTab _ _ _ _ fresh | .addTab _ _ _ fresh
  | .closeTab _ fresh | .validateWorkspaceSlugs _ fresh => some fresh
  | _ => none

/-- Ids that are created are new. -/
def next (s : TabStore) (a : Act) : Option TabStore :=
  if a.fresh.all s.isFresh then some (step arrayMove s a) else none

def machine : Machine TabStore Act where
  Init s := s = {}
  next := next arrayMove

end Machine

end Orynx.Tabs
