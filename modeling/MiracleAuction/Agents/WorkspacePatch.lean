import MiracleAuction.Base.Regex
import MiracleAuction.Base.Run
import MiracleAuction.Base.Utf8

/-!
# The patch of an approval

`createWorkspacePatch` reads what `git diff` prints, rewrites its paths, and `applyPatch` hands the
text to `git apply`. Paths are those of POSIX.
-/
namespace MiracleAuction.WorkspacePatch

/-- The regular files of a directory, by their relative paths. -/
abbrev Files := List (List Char × List UInt8)

def SameFiles (files files' : Files) : Prop := ∀ path, files.lookup path = files'.lookup path

/-! ## Git -/

inductive Root
  | repo
  | workspace
deriving DecidableEq

/-- A piece of a patch: text, or one of the two roots, which stand in the paths of its headers after
an `a` or a `b`. -/
inductive Piece (τ : Type)
  | text (t : τ)
  | root (r : Root)
deriving DecidableEq

def Piece.print {τ : Type} (roots : Root → τ) : Piece τ → τ
  | text t => t
  | root r => roots r

def print (roots : Root → List UInt8) (pieces : List (Piece (List UInt8))) : List UInt8 :=
  (pieces.map (Piece.print roots)).flatten

/-- `git diff --no-index --binary` and `git apply`. -/
structure Git where
  diff : Files → Files → List (Piece (List UInt8))
  apply : List UInt8 → Files → Option Files

/-- A patch that nobody has modified, with relative paths in its headers, makes the files of the
workspace of those of the repository. The first name of a path does not count. -/
def Git.Correct (git : Git) (repo workspace : Files) : Prop :=
  ∀ first : Root → Char, (∀ r, first r = 'a' ∨ first r = 'b') →
    ∃ files, git.apply (print (fun r => Utf8.encode [first r, '/']) (git.diff repo workspace))
      repo = some files ∧ SameFiles files workspace

/-! ## `createWorkspacePatch` -/

structure AgentRun where
  workspacePath : Option (List Char)
  repoRoot : List Char
  maxChangedFiles : Nat

def excluded : List (List Char) :=
  [".git".toList, "node_modules".toList, "dist".toList, ".agent-workspaces".toList]

/-- Paths have slashes here; the source puts them in the place of backslashes. -/
def listFiles (files : Files) : Files :=
  files.filter fun (path, _) => (path.splitOn '/').all (· ∉ excluded)

def countChangedFiles {η : Type} [DecidableEq η] (sha256 : List UInt8 → η)
    (repo workspace : Files) : Nat :=
  let repoFiles := (listFiles repo).map fun (path, content) => (path, sha256 content)
  let workspaceFiles := (listFiles workspace).map fun (path, content) => (path, sha256 content)
  let allFiles := (repoFiles.map Prod.fst ++ workspaceFiles.map Prod.fst).dedup
  (allFiles.filter fun path => repoFiles.lookup path ≠ workspaceFiles.lookup path).length

/-- What a child process has printed, in chunks, and its exit code. -/
structure Child where
  stdout : List (List UInt8)
  stderr : List (List UInt8)
  exitCode : Int

/-- A buffer is decoded when it comes. -/
def received (chunks : List (List UInt8)) : List Char := (chunks.map Utf8.decode).flatten

def runCommand (command : String) (child : Child) (allowExitOne : Bool) :
    Except String (List Char) :=
  if child.exitCode = 0 ∨ allowExitOne ∧ child.exitCode = 1 then .ok (received child.stdout)
  else
    let stderr := received child.stderr
    .error (command ++ " failed: " ++
      if stderr = [] then "exit " ++ toString child.exitCode else String.ofList stderr)

/-- `replace(/\\/g, "/")`. -/
def slashes : Regex.Replacement := .literal ['\\'] ['/'] (List.cons_ne_nil _ _)

/-- `split(text).join(...)`, of a text that ends with a directory. -/
def directory (before path new : List Char) : Regex.Replacement :=
  .literal (before ++ path ++ ['/']) new (by simp)

def rewrites (repo workspace : List Char) : List Regex.Replacement :=
  [.literal ['\\', '\\'] ['/'] (List.cons_ne_nil _ _), slashes,
    directory ['a', '/'] repo ['a', '/'], directory ['b', '/'] repo ['b', '/'],
    directory ['a', '/'] workspace ['a', '/'], directory ['b', '/'] workspace ['b', '/'],
    directory [] repo ['a', '/'], directory [] workspace ['b', '/']]

def rewriteNoIndexPatch (patch repoRoot workspacePath : List Char) : List Char :=
  Regex.applyAll (rewrites (slashes.apply repoRoot) (slashes.apply workspacePath)) patch

def createWorkspacePatch {η : Type} [DecidableEq η] (sha256 : List UInt8 → η) (run : AgentRun)
    (repo workspace : Files) (child : Child) : Except String (List Char) := do
  let some workspacePath := run.workspacePath | throw "Run has no workspace path to approve"
  let changedFiles := countChangedFiles sha256 repo workspace
  if run.maxChangedFiles < changedFiles then
    throw ("Workspace diff changes " ++ toString changedFiles ++
      " files, exceeding maxChangedFiles " ++ toString run.maxChangedFiles)
  if changedFiles = 0 then throw "Workspace diff is empty"
  let rawPatch ← runCommand ("git diff --no-index --binary -- " ++ String.ofList run.repoRoot ++
    " " ++ String.ofList workspacePath) child true
  return rewriteNoIndexPatch rawPatch run.repoRoot workspacePath

/-! ## Approvals -/

/-- A root as it stands in the paths that Git prints. -/
def rootPath (repoRoot workspacePath : List Char) : Root → List Char
  | .repo => repoRoot ++ ['/']
  | .workspace => workspacePath ++ ['/']

/-- The first name that stands for a root afterwards. -/
def firstName : Root → Char
  | .repo => 'a'
  | .workspace => 'b'

/-- The patch that was created turns the repository into the workspace. -/
def AppliesExactly (git : Git) (repo workspace : Files) (patch : List Char) : Prop :=
  ∃ files, git.apply (Utf8.encode patch) repo = some files ∧ SameFiles files workspace

/-- The roots are absolute and normal, and the workspace does not lie in the repository. -/
structure RootsApart (repoRoot workspacePath : List Char) : Prop where
  slash : '\\' ∉ repoRoot ∧ '\\' ∉ workspacePath
  absolute : ['/'] <+: repoRoot ∧ ['/'] <+: workspacePath
  normal : ¬ ['/', '/'] <:+: repoRoot ++ ['/'] ∧ ¬ ['/', '/'] <:+: workspacePath ++ ['/']
  outside : ¬ repoRoot ++ ['/'] <:+: workspacePath ++ ['/']

/-- A patch that gets through unharmed. Its texts are UTF-8, of which no chunk cuts a character;
they have no backslash, and none of the roots, also not across their ends. -/
structure Plain (repoRoot workspacePath : List Char) (chunks : List (List UInt8))
    (pieces : List (Piece (List Char))) : Prop where
  roots : RootsApart repoRoot workspacePath
  characters : Utf8.uncut chunks = true
  texts : ∀ t, Piece.text t ∈ pieces → '\\' ∉ t ∧
    ¬ repoRoot ++ ['/'] <:+: t ∧ ¬ workspacePath ++ ['/'] <:+: t
  paths : Regex.uncutAll (rewrites repoRoot workspacePath)
    (pieces.map (Piece.print (rootPath repoRoot workspacePath))) = true

def Piece.encode : Piece (List Char) → Piece (List UInt8)
  | text t => .text (Utf8.encode t)
  | root r => .root r

variable {repoRoot workspacePath t text : List Char} {chunks : List (List UInt8)}
  {pieces : List (Piece (List Char))} {p : Regex.Replacement}

theorem directory_of_not_infix {before path new : List Char} (h : ¬ path ++ ['/'] <:+: text) :
    (directory before path new).apply text = text := by
  refine Regex.apply_of_not_infix fun hoccurs => h ?_
  have hsuffix : path ++ ['/'] <:+ before ++ path ++ ['/'] :=
    ⟨before, (List.append_assoc _ _ _).symm⟩
  exact hsuffix.isInfix.trans hoccurs

theorem directory_of_normal (before : List Char) {path new : List Char}
    (habsolute : ['/'] <+: path) (hnormal : ¬ ['/', '/'] <:+: text) :
    (directory (before ++ ['/']) path new).apply text = text := by
  refine Regex.apply_of_not_infix fun hoccurs => hnormal ?_
  obtain ⟨rest, rfl⟩ := habsolute
  exact List.IsInfix.trans ⟨before, rest ++ ['/'], by simp⟩ hoccurs

theorem slashes_apply (h : '\\' ∉ text) : slashes.apply text = text :=
  Regex.apply_of_not_infix fun hoccurs => h (hoccurs.subset (List.mem_singleton_self _))

theorem doubled_apply (h : '\\' ∉ text) :
    (Regex.Replacement.literal ['\\', '\\'] ['/'] (List.cons_ne_nil _ _)).apply text = text :=
  Regex.apply_of_not_infix fun hoccurs => h (hoccurs.subset List.mem_cons_self)

/-- A text without backslashes and roots stays as it is. -/
theorem rewrites_text (hslash : '\\' ∉ t) (hrepo : ¬ repoRoot ++ ['/'] <:+: t)
    (hworkspace : ¬ workspacePath ++ ['/'] <:+: t) :
    Regex.applyAll (rewrites repoRoot workspacePath) t = t := by
  refine Regex.applyAll_of_fixed fun p hp => ?_
  simp only [rewrites, List.mem_cons, List.not_mem_nil, or_false] at hp
  obtain rfl | rfl | rfl | rfl | rfl | rfl | rfl | rfl := hp
  · exact doubled_apply hslash
  · exact slashes_apply hslash
  · exact directory_of_not_infix hrepo
  · exact directory_of_not_infix hrepo
  · exact directory_of_not_infix hworkspace
  · exact directory_of_not_infix hworkspace
  · exact directory_of_not_infix hrepo
  · exact directory_of_not_infix hworkspace

/-- The first passes look for paths with an empty name, and for backslashes. -/
theorem rewrites_normal (hslash : '\\' ∉ text) (hnormal : ¬ ['/', '/'] <:+: text)
    (habsolute : ['/'] <+: repoRoot ∧ ['/'] <+: workspacePath) :
    Regex.applyAll (rewrites repoRoot workspacePath) text =
      (directory [] workspacePath ['b', '/']).apply
        ((directory [] repoRoot ['a', '/']).apply text) := by
  have hfirst : Regex.applyAll ((rewrites repoRoot workspacePath).take 6) text = text := by
    refine Regex.applyAll_of_fixed fun p hp => ?_
    simp only [rewrites, List.take_succ_cons, List.take_zero, List.mem_cons, List.not_mem_nil,
      or_false] at hp
    obtain rfl | rfl | rfl | rfl | rfl | rfl := hp
    · exact doubled_apply hslash
    · exact slashes_apply hslash
    · exact directory_of_normal ['a'] habsolute.1 hnormal
    · exact directory_of_normal ['b'] habsolute.1 hnormal
    · exact directory_of_normal ['a'] habsolute.2 hnormal
    · exact directory_of_normal ['b'] habsolute.2 hnormal
  rw [← List.take_append_drop 6 (rewrites repoRoot workspacePath), Regex.applyAll_append, hfirst]
  rfl

theorem directory_self (path new : List Char) :
    (directory [] path new).apply (path ++ ['/']) = new :=
  Regex.apply_literal _ _ _

/-- Each root gives way to one name. -/
theorem rewrites_root (h : RootsApart repoRoot workspacePath) (r : Root) :
    Regex.applyAll (rewrites repoRoot workspacePath) (rootPath repoRoot workspacePath r) =
      [firstName r, '/'] := by
  cases r with
  | repo =>
    have hslash : '\\' ∉ repoRoot ++ ['/'] := by simpa using h.slash.1
    rw [rootPath, rewrites_normal hslash h.normal.1 h.absolute, directory_self]
    refine directory_of_not_infix fun hoccurs => h.normal.2 ?_
    -- The workspace's path is too long unless it is the root of the file system.
    obtain ⟨rest, hrest⟩ := h.absolute.2
    have hlength := hoccurs.length_le
    rw [← hrest] at hlength ⊢
    cases rest with
    | nil => exact List.infix_rfl
    | cons c rest => simp at hlength
  | workspace =>
    have hslash : '\\' ∉ workspacePath ++ ['/'] := by simpa using h.slash.2
    rw [rootPath, rewrites_normal hslash h.normal.2 h.absolute,
      directory_of_not_infix h.outside, directory_self]
    rfl

theorem encode_flatten (texts : List (List Char)) :
    Utf8.encode texts.flatten = (texts.map Utf8.encode).flatten := by
  induction texts with
  | nil => rfl
  | cons t texts ih =>
    rw [List.flatten_cons, List.map_cons, List.flatten_cons, ← ih]
    exact List.flatMap_append

theorem print_encode (roots : Root → List Char) (pieces : List (Piece (List Char))) :
    print (fun r => Utf8.encode (roots r)) (pieces.map Piece.encode) =
      Utf8.encode (pieces.map (Piece.print roots)).flatten := by
  rw [encode_flatten, print, List.map_map, List.map_map]
  refine congrArg List.flatten (List.map_congr_left fun piece _ => ?_)
  cases piece <;> rfl

/-- What is received of a plain patch, rewritten, is the patch with relative paths. -/
theorem rewrite_plain (h : Plain repoRoot workspacePath chunks pieces)
    (hchunks : chunks.flatten = print (fun r => Utf8.encode (rootPath repoRoot workspacePath r))
      (pieces.map Piece.encode)) :
    rewriteNoIndexPatch (received chunks) repoRoot workspacePath =
      (pieces.map (Piece.print fun r => [firstName r, '/'])).flatten := by
  rw [rewriteNoIndexPatch, slashes_apply h.roots.slash.1, slashes_apply h.roots.slash.2, received,
    ← Utf8.decode_flatten h.characters, hchunks, print_encode, Utf8.decode_encode,
    Regex.applyAll_flatten h.paths, List.map_map]
  refine congrArg List.flatten (List.map_congr_left fun piece hpiece => ?_)
  cases piece with
  | text t =>
    obtain ⟨hslash, hrepo, hworkspace⟩ := h.texts t hpiece
    exact rewrites_text hslash hrepo hworkspace
  | root r => exact rewrites_root h.roots r

/-- What is created is what was received, rewritten. -/
theorem createWorkspacePatch_ok {η : Type} [DecidableEq η] {sha256 : List UInt8 → η}
    {run : AgentRun} {repo workspace : Files} {child : Child} {patch : List Char}
    (hpath : run.workspacePath = some workspacePath)
    (h : createWorkspacePatch sha256 run repo workspace child = .ok patch) :
    patch = rewriteNoIndexPatch (received child.stdout) run.repoRoot workspacePath := by
  simp only [createWorkspacePatch, hpath] at h
  by_cases hlimit : run.maxChangedFiles < countChangedFiles sha256 repo workspace
  · rw [if_pos hlimit] at h
    cases h
  · rw [if_neg hlimit] at h
    by_cases hzero : countChangedFiles sha256 repo workspace = 0
    · rw [if_pos hzero] at h
      cases h
    · rw [if_neg hzero] at h
      obtain ⟨rawPatch, hraw, h⟩ := Except.bind_eq_ok h
      rw [runCommand] at hraw
      split at hraw
      · cases hraw
        cases h
        rfl
      · cases hraw

/-- A plain patch makes the files of the workspace of those of the repository. -/
theorem patch_applies {η : Type} [DecidableEq η] (sha256 : List UInt8 → η) (git : Git)
    (run : AgentRun) (repo workspace : Files) (child : Child) (workspacePath : List Char)
    (pieces : List (Piece (List Char))) (patch : List Char)
    (hgit : git.Correct repo workspace) (hpath : run.workspacePath = some workspacePath)
    (hprints : child.stdout.flatten =
      print (fun r => Utf8.encode (rootPath run.repoRoot workspacePath r))
        (git.diff repo workspace))
    (hpieces : git.diff repo workspace = pieces.map Piece.encode)
    (hplain : Plain run.repoRoot workspacePath child.stdout pieces)
    (h : createWorkspacePatch sha256 run repo workspace child = .ok patch) :
    AppliesExactly git repo workspace patch := by
  rw [hpieces] at hprints
  obtain ⟨files, happly, hsame⟩ := hgit firstName fun r => by cases r <;> simp [firstName]
  rw [hpieces, print_encode, ← rewrite_plain hplain hprints,
    ← createWorkspacePatch_ok hpath h] at happly
  exact ⟨files, happly, hsame⟩

/-! ## A file of one line -/

namespace Sample

/-- What Git prints for the file `note.txt`, whose one line has changed; `index` are the names of
the two contents. -/
def diff (index : String) (old new : List UInt8) : List (Piece (List UInt8)) :=
  [.text (Utf8.encode "diff --git a".toList), .root .repo, .text (Utf8.encode "note.txt b".toList),
    .root .workspace,
    .text (Utf8.encode ("note.txt\nindex " ++ index ++ " 100644\n--- a").toList), .root .repo,
    .text (Utf8.encode "note.txt\n+++ b".toList), .root .workspace,
    .text (Utf8.encode "note.txt\n@@ -1 +1 @@\n-".toList ++ old ++ Utf8.encode ['+'] ++ new)]

/-- The line of a hunk, if it begins with a sign. -/
def lineAfter (sign : Char) : List Char → Option (List UInt8)
  | [] => none
  | c :: line => if c = sign then some (Utf8.encode (line ++ ['\n'])) else none

/-- `git apply`, of such a patch. -/
def apply (patch : List UInt8) (files : Files) : Option Files :=
  match (Utf8.decode patch).splitOn '\n' with
  | [_, _, minus, _, hunk, old, new, []] => do
    let path := ((minus.dropWhile (· ≠ '/')).drop 1)
    let oldContent ← lineAfter '-' old
    let newContent ← lineAfter '+' new
    if hunk = "@@ -1 +1 @@".toList ∧ files.lookup path = some oldContent then
      some (files.map fun file => if file.1 = path then (path, newContent) else file)
    else none
  | _ => none

def git (index : String) : Git where
  diff := fun repo workspace => diff index
    ((repo.lookup "note.txt".toList).getD []) ((workspace.lookup "note.txt".toList).getD [])
  apply := apply

def repo : Files := [("note.txt".toList, Utf8.encode "before\n".toList)]

def workspace (line : String) : Files := [("note.txt".toList, Utf8.encode line.toList)]

def run : AgentRun where
  workspacePath := some "/workspace".toList
  repoRoot := "/repo".toList
  maxChangedFiles := 5

/-- Git's output comes in one chunk; it has found a difference. -/
def child (index line : String) : Child where
  stdout := [print (fun r => Utf8.encode (rootPath "/repo".toList "/workspace".toList r))
    ((git index).diff repo (workspace line))]
  stderr := []
  exitCode := 1

/-- Git is right about a line if it is so with each pair of first names. -/
theorem correct_of {index line : String}
    (h : ∀ a b, a = 'a' ∨ a = 'b' → b = 'a' ∨ b = 'b' →
    apply (print (Root.rec (Utf8.encode [a, '/']) (Utf8.encode [b, '/']))
      ((git index).diff repo (workspace line))) repo = some (workspace line)) :
    (git index).Correct repo (workspace line) := by
  intro first hfirst
  have hroots : (fun r => Utf8.encode [first r, '/']) = fun r =>
      Root.rec (Utf8.encode [first .repo, '/']) (Utf8.encode [first .workspace, '/']) r := by
    funext r
    cases r <;> rfl
  refine ⟨workspace line, ?_, fun _ => rfl⟩
  rw [hroots]
  exact h _ _ (hfirst .repo) (hfirst .workspace)

theorem correct_after : (git "90be1f3..294186e").Correct repo (workspace "after\n") := by
  refine correct_of fun a b ha hb => ?_
  obtain rfl | rfl := ha <;> obtain rfl | rfl := hb <;> decide +kernel

theorem correct_backslash : (git "90be1f3..3b07d3a").Correct repo (workspace "a\\b\n") := by
  refine correct_of fun a b ha hb => ?_
  obtain rfl | rfl := ha <;> obtain rfl | rfl := hb <;> decide +kernel

/-- The pieces of such a patch, as texts. -/
def patchPieces (index old new : String) : List (Piece (List Char)) :=
  [.text "diff --git a".toList, .root .repo, .text "note.txt b".toList, .root .workspace,
    .text ("note.txt\nindex " ++ index ++ " 100644\n--- a").toList, .root .repo,
    .text "note.txt\n+++ b".toList, .root .workspace,
    .text ("note.txt\n@@ -1 +1 @@\n-" ++ old ++ "+" ++ new).toList]

theorem roots_apart : RootsApart "/repo".toList "/workspace".toList :=
  ⟨by decide, by decide, by decide, by decide⟩

theorem plain_line : Plain "/repo".toList "/workspace".toList
    (child "90be1f3..294186e" "after\n").stdout
    (patchPieces "90be1f3..294186e" "before\n" "after\n") := by
  refine ⟨roots_apart, by decide +kernel, fun t ht => ?_, by decide +kernel⟩
  simp only [patchPieces, List.mem_cons, Piece.text.injEq, reduceCtorEq, false_or, or_false,
    List.not_mem_nil] at ht
  obtain rfl | rfl | rfl | rfl | rfl := ht
  all_goals exact ⟨by decide +kernel, by decide +kernel, by decide +kernel⟩

end Sample

/-- The new line of a file gets through unharmed. -/
theorem patch_applies_line : ∃ patch,
    createWorkspacePatch id Sample.run Sample.repo (Sample.workspace "after\n")
      (Sample.child "90be1f3..294186e" "after\n") = .ok patch ∧
    AppliesExactly (Sample.git "90be1f3..294186e") Sample.repo (Sample.workspace "after\n")
      patch := by
  have hok : (createWorkspacePatch id Sample.run Sample.repo (Sample.workspace "after\n")
      (Sample.child "90be1f3..294186e" "after\n")).isOk = true := by decide +kernel
  obtain ⟨patch, hcreate⟩ := Except.exists_ok hok
  exact ⟨patch, hcreate, patch_applies id (Sample.git "90be1f3..294186e") Sample.run Sample.repo
    (Sample.workspace "after\n") (Sample.child "90be1f3..294186e" "after\n") "/workspace".toList
    (Sample.patchPieces "90be1f3..294186e" "before\n" "after\n") patch Sample.correct_after rfl
    (List.append_nil _) (by decide +kernel) Sample.plain_line hcreate⟩

/-- A backslash in the new line of a file becomes a slash in the repository. -/
theorem backslash_lost :
    (Sample.git "90be1f3..3b07d3a").Correct Sample.repo (Sample.workspace "a\\b\n") ∧
    ∃ patch, createWorkspacePatch id Sample.run Sample.repo (Sample.workspace "a\\b\n")
        (Sample.child "90be1f3..3b07d3a" "a\\b\n") = .ok patch ∧
      (Sample.git "90be1f3..3b07d3a").apply (Utf8.encode patch) Sample.repo =
        some (Sample.workspace "a/b\n") ∧
      ¬ AppliesExactly (Sample.git "90be1f3..3b07d3a") Sample.repo (Sample.workspace "a\\b\n")
        patch := by
  have hok : (createWorkspacePatch id Sample.run Sample.repo (Sample.workspace "a\\b\n")
      (Sample.child "90be1f3..3b07d3a" "a\\b\n")).isOk = true := by decide +kernel
  obtain ⟨patch, hcreate⟩ := Except.exists_ok hok
  have happly : (Sample.git "90be1f3..3b07d3a").apply (Utf8.encode patch) Sample.repo =
      some (Sample.workspace "a/b\n") := by
    rw [createWorkspacePatch_ok rfl hcreate]
    decide +kernel
  refine ⟨Sample.correct_backslash, patch, hcreate, happly, fun hexact => ?_⟩
  obtain ⟨files, hfiles, hsame⟩ := hexact
  obtain rfl := Option.some.inj (happly.symm.trans hfiles)
  exact absurd (hsame "note.txt".toList) (by decide +kernel)

end MiracleAuction.WorkspacePatch
