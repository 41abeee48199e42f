import MiracleAuction.Agents.WorkspacePatch
import MiracleAuction.Base.FileTree

/-!
# Workspaces

`WorkspaceManager` copies the repository into the workspace of a run, and an approval counts the
files in which the two differ. The copy leaves out what lies in the workspace root, wherever that
is; the count does not.
-/
namespace MiracleAuction.Workspaces
open FileTree

/-- The file system of the service. -/
abbrev Disk := Node (List UInt8)

inductive Failure
  /-- `Path escapes sandbox root`. -/
  | escapes (candidatePath : Path)
  | fileSystem
  deriving DecidableEq

/-! ## `PathGuard` -/

structure PathGuard where
  root : Path

namespace PathGuard
variable (guard : PathGuard)

def assertInside (candidatePath : Path) : Except Failure Unit :=
  if !(Path.relative guard.root candidatePath).staysInside then throw (.escapes candidatePath)
  else return

def resolveInside (relativePath : List Char) : Except Failure Path := do
  let resolved := guard.root.resolve relativePath
  guard.assertInside resolved
  return resolved

end PathGuard

/-! ## `WorkspaceManager` -/

def excludedNames : List (List Char) :=
  [".git".toList, "node_modules".toList, "dist".toList, ".agent-workspaces".toList]

instance (chars : List Char) : Decidable (chars ∈ excludedNames) :=
  decidable_of_iff (excludedNames.contains chars = true) List.contains_iff_mem

def packageJson : FileName := ⟨"package.json".toList, by decide, by decide⟩

def nodeModules : FileName := ⟨"node_modules".toList, by decide, by decide⟩

def gitDirectory : FileName := ⟨".git".toList, by decide, by decide⟩

structure WorkspaceManager where
  workspaceRoot : Path
  repoRoot : Path

namespace WorkspaceManager
variable (manager : WorkspaceManager)

def guard : PathGuard := ⟨manager.workspaceRoot⟩

def isInsideWorkspaceRoot (sourcePath : Path) : Bool :=
  (Path.relative manager.workspaceRoot sourcePath).staysInside

mutual

/-- What becomes of an entry; links and the like are not copied. -/
def copyEntry (sourcePath : Path) : Node (List UInt8) → Option (Node (List UInt8))
  | .file content => some (.file content)
  | .directory entries => some (.directory (copyDirectory sourcePath entries))
  | .other => none

def copyDirectory (sourceRoot : Path) : Entries (List UInt8) → Entries (List UInt8)
  | .nil => .nil
  | .cons name node dirents =>
    if name.chars ∈ excludedNames then copyDirectory sourceRoot dirents
    else if manager.isInsideWorkspaceRoot (sourceRoot ++ [name]) then
      copyDirectory sourceRoot dirents
    else
      match copyEntry (sourceRoot ++ [name]) node with
      | some copied => .cons name copied (copyDirectory sourceRoot dirents)
      | none => copyDirectory sourceRoot dirents

end

mutual

/-- The directories from `current` on with a `package.json`. -/
def walkPackages (current : Path) : Node (List UInt8) → List Path
  | .directory dirents =>
    (match dirents.lookup packageJson with
      | some (.file _) => [current]
      | _ => []) ++ walkDirents current dirents
  | _ => []

def walkDirents (current : Path) : Entries (List UInt8) → List Path
  | .nil => []
  | .cons name node dirents =>
    (if name.chars ∈ excludedNames then []
      else if manager.isInsideWorkspaceRoot (current ++ [name]) then []
      else walkPackages (current ++ [name]) node) ++ walkDirents current dirents

end

def findPackageDirs (root : Path) (disk : Disk) : List Path :=
  ((disk.at root).map (manager.walkPackages root)).getD []

/-- The link is put in the place of what may be there. -/
def linkDependencies (sourceRoot workspacePath : Path) (disk : Disk) (packageDir : Path) :
    Option Disk :=
  if (disk.at (packageDir ++ [nodeModules])).isSome then
    Node.put .other (workspacePath ++ Path.relative sourceRoot packageDir ++ [nodeModules]) disk
  else some disk

def linkDependencyDirectories (sourceRoot workspacePath : Path) (disk : Disk) : Option Disk :=
  (manager.findPackageDirs sourceRoot disk).foldlM (linkDependencies sourceRoot workspacePath) disk

/-- `repository` is what the commands of Git leave, if the first one works. -/
def initializeGitRepository (repository : Option (Node (List UInt8))) (workspacePath : Path)
    (disk : Disk) : Option Disk :=
  match repository with
  | some repository => Node.put repository (workspacePath ++ [gitDirectory]) disk
  | none => some disk

/-- What throws an error of the file system. -/
def orThrow {τ : Type} (result : Option τ) : Except Failure τ :=
  match result with
  | some result => return result
  | none => throw .fileSystem

def readdir (path : Path) (disk : Disk) : Option (Entries (List UInt8)) :=
  match disk.at path with
  | some (.directory entries) => some entries
  | _ => none

def createWorkspace (disk : Disk) (runId : List Char)
    (repository : Option (Node (List UInt8))) : Except Failure (Path × Disk) := do
  let workspacePath ← manager.guard.resolveInside runId
  let disk ← orThrow (Node.put (.directory .nil) workspacePath disk)
  let dirents ← orThrow (readdir manager.repoRoot disk)
  let copy := Node.directory (manager.copyDirectory manager.repoRoot dirents)
  let disk ← orThrow (Node.put copy workspacePath disk)
  let disk ← orThrow (manager.linkDependencyDirectories manager.repoRoot workspacePath disk)
  let disk ← orThrow (initializeGitRepository repository workspacePath disk)
  return (workspacePath, disk)

end WorkspaceManager

/-! ## `AgentRunService.listFiles`

Relative paths are joined with slashes here; a backslash in a name, which the source
replaces by a slash, stays as it is. -/

mutual

def listEntry : Node (List UInt8) → List (Path × List UInt8)
  | .file content => [([], content)]
  | .directory entries => listFiles entries
  | .other => []

def listFiles : Entries (List UInt8) → List (Path × List UInt8)
  | .nil => []
  | .cons name node entries =>
    if name.chars ∈ excludedNames then listFiles entries
    else (listEntry node).map (Prod.map (name :: ·) id) ++ listFiles entries

end

/-- A listing with its paths as texts. -/
def texts (files : List (Path × List UInt8)) : WorkspacePatch.Files :=
  files.map (Prod.map Path.text id)

/-! ## What is walked -/

def named (path : Path) : Bool :=
  path.getLast?.all fun name => decide (name.chars ∉ excludedNames)

namespace WorkspaceManager

def kept (manager : WorkspaceManager) (path : Path) : Bool :=
  named path && !manager.isInsideWorkspaceRoot path

end WorkspaceManager

section
variable {manager : WorkspaceManager} {name : FileName} {node copied : Node (List UInt8)}
  {entries : Entries (List UInt8)} {here path root : Path}

@[simp] theorem named_append : named (path ++ [name]) = decide (name.chars ∉ excludedNames) := by
  simp [named]

mutual

theorem listEntry_eq (here : Path) : (node : Node (List UInt8)) →
    listEntry node = node.found named here
  | .file _ => rfl
  | .directory entries => listFiles_eq here entries
  | .other => rfl

theorem listFiles_eq (here : Path) : (entries : Entries (List UInt8)) →
    listFiles entries = entries.found named here
  | .nil => rfl
  | .cons name node entries => by
    rw [listFiles, Entries.found_cons, named_append, listFiles_eq here entries,
      listEntry_eq (here ++ [name]) node]
    by_cases hname : name.chars ∈ excludedNames <;> simp [hname]

end

mutual

/-- An entry that is copied, with the files that are. -/
theorem copyEntry_files (here : Path) : (node : Node (List UInt8)) →
    ((manager.copyEntry here node).map Node.files).getD [] = node.found manager.kept here
  | .file _ => rfl
  | .directory entries => copyDirectory_files here entries
  | .other => rfl

theorem copyDirectory_files (here : Path) : (entries : Entries (List UInt8)) →
    (manager.copyDirectory here entries).files = entries.found manager.kept here
  | .nil => rfl
  | .cons name node entries => by
    have hentry := copyEntry_files (here ++ [name]) node
    have hrest := copyDirectory_files here entries
    rw [WorkspaceManager.copyDirectory, Entries.found_cons, WorkspaceManager.kept, named_append,
      ← hentry, ← hrest]
    by_cases hname : name.chars ∈ excludedNames
    · simp [hname]
    · by_cases hinside : manager.isInsideWorkspaceRoot (here ++ [name]) = true
      · simp [hname, hinside]
      · cases hcopied : manager.copyEntry (here ++ [name]) node with
        | none => simp [hname, hinside]
        | some copied => simp [hname, hinside, Entries.files]

end

/-- Every name of a path may be walked. -/
def allNamed (path : Path) : Bool := path.all fun name => decide (name.chars ∉ excludedNames)

theorem reached_named (here : Path) : reached named here path = allNamed path := by
  induction path generalizing here with
  | nil => rfl
  | cons name path ih =>
    rw [reached, named_append, ih]
    rfl

theorem reached_kept (here : Path) : reached manager.kept here path =
    (allNamed path && reached (fun path => !manager.isInsideWorkspaceRoot path) here path) := by
  rw [← reached_named here]
  exact reached_and

theorem allNamed_append (h : name.chars ∈ excludedNames) : allNamed (path ++ [name]) = false := by
  simp [allNamed, h]

theorem files_ne_nil (entries : Entries (List UInt8)) :
    ∀ file ∈ entries.files, file.1 ≠ [] := by
  induction entries using Entries.rec (motive_1 := fun _ => True) with
  | nil => simp [Entries.files]
  | cons name node entries _ ih =>
    intro file hfile
    rw [Entries.files] at hfile
    obtain hfile | hfile := List.mem_append.mp hfile
    · obtain ⟨inner, -, rfl⟩ := List.mem_map.mp hfile
      exact List.cons_ne_nil _ _
    · exact ih file hfile
  | _ => trivial

/-- What an approval lists below a directory. -/
def listFilesAt (root : Path) (disk : Disk) : List (Path × List UInt8) :=
  match disk.at root with
  | some (.directory entries) => listFiles entries
  | _ => []

/-- The recursion lists the files without an excluded name in their paths. -/
theorem listFilesAt_eq (disk : Disk) :
    listFilesAt root disk = (disk.filesAt root).filter fun file => allNamed file.1 := by
  unfold listFilesAt Node.filesAt
  cases disk.at root with
  | none => rfl
  | some node =>
    cases node with
    | directory entries =>
      refine (listFiles_eq [] entries).trans ?_
      exact List.filter_congr fun file _ => reached_named []
    | _ => rfl

theorem filesAt_ne_nil {disk : Disk} : ∀ file ∈ disk.filesAt root, file.1 ≠ [] := by
  unfold Node.filesAt
  split
  · exact files_ne_nil _
  · simp

theorem texts_listFilesAt (disk : Disk) :
    WorkspacePatch.listFiles (texts (disk.filesAt root)) = texts (listFilesAt root disk) := by
  rw [listFilesAt_eq]
  unfold WorkspacePatch.listFiles texts
  rw [List.filter_map]
  congr 1
  refine List.filter_congr fun file hfile => ?_
  simp only [Function.comp, Prod.map]
  rw [Path.text_splitOn (filesAt_ne_nil file hfile), List.all_map]
  rfl

/-! ## The disk afterwards -/

theorem resolveInside_inside {guard : PathGuard} {runId : List Char}
    (h : guard.resolveInside runId = .ok path) :
    (Path.relative guard.root path).staysInside = true := by
  obtain ⟨_, hinside, hpath⟩ := Except.bind_eq_ok h
  cases hpath
  unfold PathGuard.assertInside at hinside
  split at hinside
  · cases hinside
  · rename_i hstays
    simpa using hstays

/-- A run id that is a name names a directory of the workspace root. -/
theorem resolveInside_proper {guard : PathGuard} (hproper : name.Proper)
    (h : guard.resolveInside name.chars = .ok path) : path = guard.root ++ [name] := by
  obtain ⟨_, -, hpath⟩ := Except.bind_eq_ok h
  cases hpath
  exact Path.resolve_proper hproper

theorem readdir_eq {disk : Disk} (h : WorkspaceManager.readdir path disk = some entries) :
    disk.at path = some (.directory entries) := by
  unfold WorkspaceManager.readdir at h
  split at h
  · cases h
    assumption
  · cases h

theorem orThrow_ok {τ : Type} {result : Option τ} {value : τ}
    (h : WorkspaceManager.orThrow result = .ok value) : result = some value := by
  cases result with
  | none => cases h
  | some result =>
    cases h
    rfl

/-- What is put below a directory, under names that no walk goes into. -/
def Attached (workspacePath : Path) : Disk → Disk → Prop :=
  Relation.ReflTransGen fun disk disk' => ∃ node rest, ∃ name : FileName,
    name.chars ∈ excludedNames ∧ Node.put node (workspacePath ++ rest ++ [name]) disk =
      some disk'

theorem Attached.preserves {τ : Type*} {workspacePath : Path} {disk disk' : Disk} {f : Disk → τ}
    (h : Attached workspacePath disk disk')
    (hput : ∀ (disk disk' : Disk) (node : Node (List UInt8)) (rest : Path) (name : FileName),
      name.chars ∈ excludedNames →
        Node.put node (workspacePath ++ rest ++ [name]) disk = some disk' → f disk' = f disk) :
    f disk' = f disk := by
  induction h with
  | refl => rfl
  | tail _ hstep ih =>
    obtain ⟨node, rest, name, hname, hstep⟩ := hstep
    rw [hput _ _ node rest name hname hstep, ih]

theorem attached_links {sourceRoot workspacePath : Path} {packageDirs : List Path}
    {disk disk' : Disk} (h : packageDirs.foldlM
      (WorkspaceManager.linkDependencies sourceRoot workspacePath) disk = some disk') :
    Attached workspacePath disk disk' := by
  induction packageDirs generalizing disk with
  | nil =>
    cases h
    exact .refl
  | cons packageDir packageDirs ih =>
    obtain ⟨next, hnext, hrest⟩ := Option.bind_eq_some_iff.mp h
    refine Relation.ReflTransGen.trans ?_ (ih hrest)
    unfold WorkspaceManager.linkDependencies at hnext
    split at hnext
    · exact .single ⟨_, _, nodeModules, by decide, hnext⟩
    · cases hnext
      exact .refl

theorem attached_repository {repository : Option (Node (List UInt8))} {workspacePath : Path}
    {disk disk' : Disk}
    (h : WorkspaceManager.initializeGitRepository repository workspacePath disk = some disk') :
    Attached workspacePath disk disk' := by
  cases repository with
  | none =>
    cases h
    exact .refl
  | some repository =>
    refine .single ⟨repository, [], gitDirectory, by decide, ?_⟩
    rw [List.append_nil]
    exact h

/-- A workspace is emptied, filled with the copy, and completed with what no walk goes into. -/
theorem createWorkspace_steps {disk disk' : Disk} {runId : List Char}
    {repository : Option (Node (List UInt8))} {workspacePath : Path}
    (h : manager.createWorkspace disk runId repository = .ok (workspacePath, disk')) :
    manager.guard.resolveInside runId = .ok workspacePath ∧
      ∃ emptied dirents filled, Node.put (.directory .nil) workspacePath disk = some emptied ∧
        emptied.at manager.repoRoot = some (.directory dirents) ∧
        Node.put (.directory (manager.copyDirectory manager.repoRoot dirents)) workspacePath
          emptied = some filled ∧
        Attached workspacePath filled disk' := by
  obtain ⟨path, hpath, h⟩ := Except.bind_eq_ok h
  obtain ⟨emptied, hemptied, h⟩ := Except.bind_eq_ok h
  obtain ⟨dirents, hdirents, h⟩ := Except.bind_eq_ok h
  obtain ⟨filled, hfilled, h⟩ := Except.bind_eq_ok h
  obtain ⟨linked, hlinked, h⟩ := Except.bind_eq_ok h
  obtain ⟨final, hfinal, h⟩ := Except.bind_eq_ok h
  cases h
  exact ⟨hpath, emptied, dirents, filled, orThrow_ok hemptied,
    readdir_eq (orThrow_ok hdirents), orThrow_ok hfilled,
    (attached_links (orThrow_ok hlinked)).trans (attached_repository (orThrow_ok hfinal))⟩

/-- The files of the workspace that an approval lists are those of the copy. -/
theorem workspace_listed {disk disk' : Disk} {workspacePath : Path}
    (h : Attached workspacePath disk disk') : (disk'.filesAt workspacePath).filter
      (fun file => reached named workspacePath file.1) =
    (disk.filesAt workspacePath).filter fun file => reached named workspacePath file.1 := by
  refine h.preserves (f := fun disk => (disk.filesAt workspacePath).filter
    fun file => reached named workspacePath file.1) fun disk disk' node rest name hname hput => ?_
  refine Node.filesAt_put_of_avoids hput (.inl ⟨rest ++ [name], List.append_assoc _ _ _, ?_⟩)
  rw [reached_named, allNamed_append hname]

theorem avoids_excluded (hname : name.chars ∈ excludedNames) :
    Avoids manager.kept root (root ++ path ++ [name]) := by
  refine .inl ⟨path ++ [name], List.append_assoc _ _ _, ?_⟩
  rw [reached_kept, allNamed_append hname, Bool.false_and]

/-- The copy does not get to what lies in the workspace root. -/
theorem avoids_workspace {workspacePath : Path}
    (hinside : manager.isInsideWorkspaceRoot workspacePath = true)
    (houtside : ¬ workspacePath <+: root) : Avoids manager.kept root (workspacePath ++ path) := by
  by_cases hroot : root <+: workspacePath
  · obtain ⟨rest, rfl⟩ := hroot
    refine .inl ⟨rest ++ path, List.append_assoc _ _ _, ?_⟩
    rw [Bool.eq_false_iff]
    intro hreached
    have hne : rest ≠ [] := by
      rintro rfl
      exact houtside (by simp)
    have hkept := reached_iff.mp hreached rest (List.prefix_append _ _) hne
    simp [WorkspaceManager.kept, hinside] at hkept
  · refine .inr ⟨fun hbelow => houtside ((List.prefix_append _ _).trans hbelow),
      fun habove => ?_⟩
    obtain h | h := List.prefix_or_prefix_of_prefix habove (List.prefix_append workspacePath path)
    · exact hroot h
    · exact houtside h

section
variable {workspacePath : Path} {dirents : Entries (List UInt8)} {emptied filled disk' : Disk}

theorem filled_files
    (hfilled : Node.put (.directory (manager.copyDirectory manager.repoRoot dirents))
      workspacePath emptied = some filled) :
    (filled.filesAt workspacePath).filter (fun file => reached named workspacePath file.1) =
      dirents.found manager.kept manager.repoRoot := by
  unfold Node.filesAt
  rw [Node.at_put_self hfilled]
  simp only
  rw [copyDirectory_files, Entries.found, List.filter_filter]
  refine List.filter_congr fun file _ => ?_
  rw [reached_named, reached_kept]
  cases allNamed file.1 <;> simp

/-- Where the repository lies in the workspace, it is the workspace, and was just emptied. -/
theorem eq_of_emptied {disk : Disk}
    (hemptied : Node.put (.directory .nil) workspacePath disk = some emptied)
    (hat : emptied.at manager.repoRoot = some (.directory dirents))
    (hwithin : workspacePath <+: manager.repoRoot) :
    workspacePath = manager.repoRoot ∧ dirents = .nil := by
  obtain ⟨rest, hrest⟩ := hwithin
  rw [← hrest, Node.at_append, Node.at_put_self hemptied] at hat
  cases rest with
  | cons name rest => simp [Node.at, Entries.lookup] at hat
  | nil =>
    cases hat
    exact ⟨List.append_nil workspacePath ▸ hrest, rfl⟩

/-- A repository that is the workspace was emptied before it was read. -/
theorem repository_files_of_within {disk : Disk}
    (hemptied : Node.put (.directory .nil) workspacePath disk = some emptied)
    (hat : emptied.at manager.repoRoot = some (.directory dirents))
    (hfilled : Node.put (.directory (manager.copyDirectory manager.repoRoot dirents))
      workspacePath emptied = some filled)
    (hattached : Attached workspacePath filled disk')
    (hwithin : workspacePath <+: manager.repoRoot) :
    (disk'.filesAt manager.repoRoot).filter
        (fun file => reached manager.kept manager.repoRoot file.1) =
      dirents.found manager.kept manager.repoRoot := by
  obtain ⟨rfl, rfl⟩ := eq_of_emptied hemptied hat hwithin
  have hsame := hattached.preserves (f := fun disk => (disk.filesAt manager.repoRoot).filter
    fun file => reached manager.kept manager.repoRoot file.1)
    fun disk disk' node rest name hname hput =>
      Node.filesAt_put_of_avoids hput (avoids_excluded hname)
  rw [hsame]
  unfold Node.filesAt
  rw [Node.at_put_self hfilled]
  rfl

theorem repository_files_of_not_within
    (hinside : manager.isInsideWorkspaceRoot workspacePath = true)
    (hat : emptied.at manager.repoRoot = some (.directory dirents))
    (hfilled : Node.put (.directory (manager.copyDirectory manager.repoRoot dirents))
      workspacePath emptied = some filled)
    (hattached : Attached workspacePath filled disk')
    (hwithin : ¬ workspacePath <+: manager.repoRoot) :
    (disk'.filesAt manager.repoRoot).filter
        (fun file => reached manager.kept manager.repoRoot file.1) =
      dirents.found manager.kept manager.repoRoot := by
  have hsame := hattached.preserves (f := fun disk => (disk.filesAt manager.repoRoot).filter
    fun file => reached manager.kept manager.repoRoot file.1)
    fun disk disk' node rest name _ hput =>
      Node.filesAt_put_of_avoids hput (List.append_assoc workspacePath rest [name] ▸
        avoids_workspace hinside hwithin)
  have havoids : Avoids manager.kept manager.repoRoot workspacePath :=
    List.append_nil workspacePath ▸ avoids_workspace hinside hwithin
  rw [hsame, Node.filesAt_put_of_avoids hfilled havoids]
  unfold Node.filesAt
  rw [hat]
  rfl

end

/-- What is copied is in the repository also afterwards, and in the workspace. -/
theorem createWorkspace_files {disk disk' : Disk} {runId : List Char}
    {repository : Option (Node (List UInt8))} {workspacePath : Path}
    (h : manager.createWorkspace disk runId repository = .ok (workspacePath, disk')) :
    (disk'.filesAt workspacePath).filter (fun file => reached named workspacePath file.1) =
      (disk'.filesAt manager.repoRoot).filter
        fun file => reached manager.kept manager.repoRoot file.1 := by
  obtain ⟨hresolved, emptied, dirents, filled, hemptied, hat, hfilled, hattached⟩ :=
    createWorkspace_steps h
  have hinside : manager.isInsideWorkspaceRoot workspacePath = true :=
    resolveInside_inside hresolved
  rw [workspace_listed hattached, filled_files hfilled]
  by_cases hwithin : workspacePath <+: manager.repoRoot
  · exact (repository_files_of_within hemptied hat hfilled hattached hwithin).symm
  · exact (repository_files_of_not_within hinside hat hfilled hattached hwithin).symm

end

/-! ## Changed files -/

section
variable {η : Type} {sha256 : List UInt8 → η} {files repo workspace : WorkspacePatch.Files}
  {listed : List (Path × List UInt8)} {copied : Path → Bool}

theorem lookup_hashed (text : List Char) :
    (files.map fun (path, content) => (path, sha256 content)).lookup text =
      (files.lookup text).map sha256 := by
  induction files with
  | nil => rfl
  | cons file files ih =>
    rw [List.map_cons, List.lookup_cons, List.lookup_cons, ih]
    cases text == file.1 <;> rfl

theorem lookup_eq_none_of_fst {text : List Char} (h : text ∉ files.map Prod.fst) :
    files.lookup text = none := by
  rw [List.lookup_eq_none_iff]
  intro file hfile
  rw [bne_iff_ne]
  rintro rfl
  exact h (List.mem_map_of_mem hfile)

/-- No file has changed if every path leads to the same content, or to none. -/
theorem countChangedFiles_eq_zero [DecidableEq η] :
    WorkspacePatch.countChangedFiles sha256 repo workspace = 0 ↔
      ∀ text, ((WorkspacePatch.listFiles repo).lookup text).map sha256 =
        ((WorkspacePatch.listFiles workspace).lookup text).map sha256 := by
  unfold WorkspacePatch.countChangedFiles
  simp only [List.length_eq_zero_iff, List.filter_eq_nil_iff, List.mem_dedup, List.mem_append,
    lookup_hashed, decide_eq_true_eq, not_not]
  constructor
  · intro h text
    by_cases hmem : text ∈ ((WorkspacePatch.listFiles repo).map Prod.fst) ++
        (WorkspacePatch.listFiles workspace).map Prod.fst
    · refine h text ?_
      simpa [Function.comp_def] using hmem
    · rw [List.mem_append, not_or] at hmem
      rw [lookup_eq_none_of_fst hmem.1, lookup_eq_none_of_fst hmem.2]
  · exact fun h text _ => h text

/-- A listing and the part of it that was copied differ in what was not. -/
theorem unchanged_iff (hne : ∀ file ∈ listed, file.1 ≠ []) :
    (∀ text, ((texts listed).lookup text).map sha256 =
      ((texts (listed.filter fun file => copied file.1)).lookup text).map sha256) ↔
    ∀ file ∈ listed, copied file.1 = true := by
  constructor
  · intro h file hfile
    by_contra hnot
    have hnone : (texts (listed.filter fun file => copied file.1)).lookup file.1.text = none := by
      rw [List.lookup_eq_none_iff]
      intro entry hentry
      obtain ⟨file', hfile', rfl⟩ := List.mem_map.mp hentry
      obtain ⟨hlisted, hcopied⟩ := List.mem_filter.mp hfile'
      rw [bne_iff_ne]
      intro htext
      have hsame := Path.text_injective (hne file hfile) (hne file' hlisted) htext
      exact hnot (hsame ▸ hcopied)
    have hlookup := h file.1.text
    rw [hnone, Option.map_none, Option.map_eq_none_iff, List.lookup_eq_none_iff] at hlookup
    have hdiffers := hlookup _ (List.mem_map_of_mem hfile)
    simp at hdiffers
  · intro h text
    rw [List.filter_eq_self.mpr fun file hfile => h file hfile]

end

/-! ## Results -/

section
variable {manager : WorkspaceManager} {disk disk' : Disk} {runId : List Char}
  {repository : Option (Node (List UInt8))} {workspacePath : Path}

/-- The workspace of a run id that is a name is the directory of that name in the workspace root;
its creation changes no file outside of it, and so none of the workspace of another run. -/
theorem workspace_contained {name : FileName} (hproper : name.Proper)
    (h : manager.createWorkspace disk name.chars repository = .ok (workspacePath, disk')) :
    workspacePath = manager.workspaceRoot ++ [name] ∧
      (∀ path, ¬ workspacePath <+: path → disk'.content path = disk.content path) ∧
      ∀ other, other ≠ name →
        ∀ rest, disk'.content (manager.workspaceRoot ++ other :: rest) =
        disk.content (manager.workspaceRoot ++ other :: rest) := by
  obtain ⟨hresolved, emptied, dirents, filled, hemptied, -, hfilled, hattached⟩ :=
    createWorkspace_steps h
  have hpath : workspacePath = manager.workspaceRoot ++ [name] :=
    resolveInside_proper hproper hresolved
  have houtside : ∀ path, ¬ workspacePath <+: path →
      disk'.content path = disk.content path := by
    intro path hpath
    have hsame := hattached.preserves (f := fun disk => disk.content path)
      fun disk disk' node rest name _ hput => Node.content_put hput fun hbelow => hpath
        (((List.prefix_append _ _).trans (List.prefix_append _ _)).trans hbelow)
    rw [hsame, Node.content_put hfilled hpath, Node.content_put hemptied hpath]
  refine ⟨hpath, houtside, fun other hother rest => houtside _ fun hbelow => ?_⟩
  rw [hpath, List.prefix_append_right_inj, List.cons_prefix_cons] at hbelow
  exact hother hbelow.1.symm

/-- No file that an approval lists in the repository lies in the workspace root. -/
def WorkspaceManager.Apart (manager : WorkspaceManager) (disk : Disk) : Prop :=
  ∀ file ∈ listFilesAt manager.repoRoot disk, ∀ rest, rest <+: file.1 → rest ≠ [] →
    manager.isInsideWorkspaceRoot (manager.repoRoot ++ rest) = false

theorem createWorkspacePatch_of_unchanged {η : Type} [DecidableEq η] {sha256 : List UInt8 → η}
    {run : WorkspacePatch.AgentRun} {repo workspace : WorkspacePatch.Files}
    {child : WorkspacePatch.Child} (hpath : run.workspacePath ≠ none)
    (h : WorkspacePatch.countChangedFiles sha256 repo workspace = 0) :
    WorkspacePatch.createWorkspacePatch sha256 run repo workspace child =
      .error "Workspace diff is empty" := by
  obtain ⟨path, hpath⟩ := Option.ne_none_iff_exists'.mp hpath
  unfold WorkspacePatch.createWorkspacePatch
  rw [hpath, h]
  rfl

/-- A workspace that nobody has touched differs from the repository exactly in the listed files
that lie in the workspace root; without any, the approval is refused. -/
theorem untouched_workspace {η : Type} [DecidableEq η] (sha256 : List UInt8 → η)
    (h : manager.createWorkspace disk runId repository = .ok (workspacePath, disk')) :
    (WorkspacePatch.countChangedFiles sha256 (texts (disk'.filesAt manager.repoRoot))
        (texts (disk'.filesAt workspacePath)) = 0 ↔ manager.Apart disk') ∧
      (manager.Apart disk' → ∀ (run : WorkspacePatch.AgentRun) (child : WorkspacePatch.Child),
        run.workspacePath ≠ none → WorkspacePatch.createWorkspacePatch sha256 run
          (texts (disk'.filesAt manager.repoRoot)) (texts (disk'.filesAt workspacePath)) child =
            .error "Workspace diff is empty") := by
  have hfiles := createWorkspace_files h
  have hlisted : listFilesAt workspacePath disk' = (listFilesAt manager.repoRoot disk').filter
      fun file => reached (fun path => !manager.isInsideWorkspaceRoot path) manager.repoRoot
        file.1 := by
    rw [listFilesAt_eq, listFilesAt_eq, List.filter_filter]
    simp only [reached_named, reached_kept] at hfiles
    rw [hfiles]
    exact List.filter_congr fun file _ => Bool.and_comm _ _
  have hne : ∀ file ∈ listFilesAt manager.repoRoot disk', file.1 ≠ [] := by
    intro file hfile
    rw [listFilesAt_eq] at hfile
    exact filesAt_ne_nil file (List.mem_filter.mp hfile).1
  have hcount : WorkspacePatch.countChangedFiles sha256 (texts (disk'.filesAt manager.repoRoot))
      (texts (disk'.filesAt workspacePath)) = 0 ↔ manager.Apart disk' := by
    rw [countChangedFiles_eq_zero, texts_listFilesAt, texts_listFilesAt, hlisted,
      unchanged_iff hne]
    simp only [reached_iff, Bool.not_eq_true']
    rfl
  exact ⟨hcount, fun hapart run child hpath =>
    createWorkspacePatch_of_unchanged hpath (hcount.mpr hapart)⟩

end

namespace Sample

def name (chars : String) (nonempty : chars.toList ≠ []) (plain : '/' ∉ chars.toList) :
    FileName :=
  ⟨chars.toList, nonempty, plain⟩

def repo : FileName := name "repo" (by decide) (by decide)

def note : FileName := name "note.txt" (by decide) (by decide)

def agentWorkspaces : FileName := name ".agent-workspaces" (by decide) (by decide)

def work : FileName := name "work" (by decide) (by decide)

def run : FileName := name "run" (by decide) (by decide)

/-- The workspace root is a directory of the repository. -/
def manager (workspaceRoot : FileName) : WorkspaceManager :=
  { workspaceRoot := [repo, workspaceRoot]
    repoRoot := [repo] }

def noteFile : Node (List UInt8) := .file [104, 105]

/-- A note, a package with its dependencies, and no workspace so far. -/
def disk : Disk :=
  .directory (.cons repo (.directory (.cons note noteFile (.cons packageJson (.file [])
    (.cons nodeModules (.directory .nil) .nil)))) .nil)

def workspace : Node (List UInt8) :=
  .directory (.cons note noteFile (.cons packageJson (.file []) (.cons nodeModules .other
    (.cons gitDirectory (.directory .nil) .nil))))

def after (workspaceRoot : FileName) : Disk :=
  .directory (.cons repo (.directory (.cons note noteFile (.cons packageJson (.file [])
    (.cons nodeModules (.directory .nil) (.cons workspaceRoot
      (.directory (.cons run workspace .nil)) .nil))))) .nil)

theorem created : (manager agentWorkspaces).createWorkspace disk "run".toList
    (some (.directory .nil)) = .ok ([repo, agentWorkspaces, run], after agentWorkspaces) := rfl

def next : FileName := name "next" (by decide) (by decide)

/-- The disk with the workspaces of two runs. -/
def afterNext : Disk :=
  .directory (.cons repo (.directory (.cons note noteFile (.cons packageJson (.file [])
    (.cons nodeModules (.directory .nil) (.cons agentWorkspaces
      (.directory (.cons run workspace (.cons next workspace .nil))) .nil))))) .nil)

theorem createdNext : (manager agentWorkspaces).createWorkspace (after agentWorkspaces)
    next.chars (some (.directory .nil)) = .ok ([repo, agentWorkspaces, next], afterNext) := rfl

def agentRun : WorkspacePatch.AgentRun :=
  { workspacePath := some "/repo/.agent-workspaces/run".toList
    repoRoot := "/repo".toList
    maxChangedFiles := 80 }

end Sample

/-- The workspace of a second run leaves that of the first as it is. -/
theorem workspace_contained_sample :
    (Sample.manager Sample.agentWorkspaces).createWorkspace (Sample.after Sample.agentWorkspaces)
        Sample.next.chars (some (.directory .nil)) =
      .ok ([Sample.repo, Sample.agentWorkspaces, Sample.next], Sample.afterNext) ∧
    ∀ rest, Sample.afterNext.content
        (Sample.repo :: Sample.agentWorkspaces :: Sample.run :: rest) =
      (Sample.after Sample.agentWorkspaces).content
        (Sample.repo :: Sample.agentWorkspaces :: Sample.run :: rest) :=
  ⟨Sample.createdNext, (workspace_contained (by decide) Sample.createdNext).2.2 Sample.run
    (by decide)⟩

theorem untouched_workspace_sample : WorkspacePatch.createWorkspacePatch id Sample.agentRun
    (texts ((Sample.after Sample.agentWorkspaces).filesAt [Sample.repo]))
    (texts ((Sample.after Sample.agentWorkspaces).filesAt
      [Sample.repo, Sample.agentWorkspaces, Sample.run])) ⟨[], [], 0⟩ =
        .error "Workspace diff is empty" :=
  (untouched_workspace id Sample.created).2
    ((untouched_workspace id Sample.created).1.mp (by decide +kernel)) _ _ (by decide)

/-- In a workspace root of another name the workspace itself counts as changed. -/
example : (Sample.manager Sample.work).createWorkspace Sample.disk "run".toList
      (some (.directory .nil)) =
        .ok ([Sample.repo, Sample.work, Sample.run], Sample.after Sample.work) ∧
    WorkspacePatch.countChangedFiles id (texts ((Sample.after Sample.work).filesAt [Sample.repo]))
      (texts ((Sample.after Sample.work).filesAt [Sample.repo, Sample.work, Sample.run])) = 2 :=
  ⟨rfl, by decide +kernel⟩

end MiracleAuction.Workspaces
