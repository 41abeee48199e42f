import Mathlib

/-!
# File trees

Directories and the regular files in them, absolute paths as lists of names, and what putting a
node at a path does to the nodes at other paths and to the files that a pruned walk reaches.
-/
namespace FileTree

universe u

/-- A name in a directory. -/
structure FileName where
  chars : List Char
  nonempty : chars ≠ []
  plain : '/' ∉ chars
  deriving DecidableEq

/-- From the root of the file system, or from a directory. -/
abbrev Path := List FileName

/-! ## Texts -/

def FileName.ofChars? (chars : List Char) : Option FileName :=
  if h : chars ≠ [] ∧ '/' ∉ chars then some ⟨chars, h.1, h.2⟩ else none

def Path.text (path : Path) : List Char := ['/'].intercalate (path.map FileName.chars)

/-- The names between the slashes; empty ones do not count. -/
def Path.names (text : List Char) : Path := (text.splitOn '/').filterMap FileName.ofChars?

def FileName.parent : FileName := ⟨['.', '.'], by simp, by simp⟩

/-- One name more, where `.` stays and `..` goes back. -/
def Path.push (path : Path) (name : FileName) : Path :=
  if name.chars = ['.'] then path
  else if name = .parent then path.dropLast
  else path ++ [name]

/-- `path.resolve(base, text)` for an absolute base. -/
def Path.resolve (base : Path) (text : List Char) : Path :=
  (Path.names text).foldl Path.push (if text.head? = some '/' then [] else base)

/-- `path.relative`: back to where the two paths part, and on from there. -/
def Path.relative : Path → Path → Path
  | name :: source, name' :: target =>
    if name = name' then relative source target
    else .parent :: source.map (fun _ => .parent) ++ name' :: target
  | source, target => source.map (fun _ => .parent) ++ target

/-- A relative path that leads nowhere else than into the directory, by the look of its text. -/
def Path.staysInside (relative : Path) : Bool :=
  relative.head?.all fun name => not (List.isPrefixOf ['.', '.'] name.chars)

section
variable {root path rest : Path} {name : FileName}

theorem Path.text_splitOn (h : path ≠ []) :
    path.text.splitOn '/' = path.map FileName.chars := by
  refine List.splitOn_intercalate '/' (fun chars hchars => ?_) (by simpa using h)
  obtain ⟨name, -, rfl⟩ := List.mem_map.mp hchars
  exact name.plain

/-- A name that is neither `.` nor `..`. -/
def FileName.Proper (name : FileName) : Prop := name.chars ≠ ['.'] ∧ name ≠ .parent

instance (name : FileName) : Decidable name.Proper := by
  unfold FileName.Proper; infer_instance

theorem Path.names_single (name : FileName) : Path.names name.chars = [name] := by
  have hsplit : name.chars.splitOn '/' = [name.chars] := by
    simpa [Path.text] using Path.text_splitOn (List.cons_ne_nil name [])
  unfold Path.names
  rw [hsplit]
  simp [FileName.ofChars?, name.nonempty, name.plain]

/-- Such a name resolves to the entry of that name. -/
theorem Path.resolve_proper (hproper : name.Proper) :
    root.resolve name.chars = root ++ [name] := by
  have hhead : name.chars.head? ≠ some '/' := by
    intro h
    exact name.plain (List.mem_of_mem_head? h)
  unfold Path.resolve
  rw [Path.names_single, if_neg hhead, List.foldl_cons, List.foldl_nil, Path.push,
    if_neg hproper.1, if_neg hproper.2]

theorem Path.text_injective (h : path ≠ []) {path' : Path} (h' : path' ≠ [])
    (htext : path.text = path'.text) : path = path' := by
  have hchars : path.map FileName.chars = path'.map FileName.chars := by
    rw [← Path.text_splitOn h, ← Path.text_splitOn h', htext]
  refine List.map_injective_iff.mpr (fun name name' hname => ?_) hchars
  cases name
  cases name'
  cases hname
  rfl

end

/-! ## Trees -/

mutual

inductive Node (α : Type u)
  | file (content : α)
  | directory (entries : Entries α)
  /-- A symbolic link, a socket, a device. -/
  | other

inductive Entries (α : Type u)
  | nil
  | cons (name : FileName) (node : Node α) (entries : Entries α)

end

variable {α : Type u}

def Entries.lookup (name : FileName) : Entries α → Option (Node α)
  | .nil => none
  | .cons name' node entries => if name' = name then some node else entries.lookup name

/-- The entry is replaced, or added as the last one. -/
def Entries.set (name : FileName) (node : Node α) : Entries α → Entries α
  | .nil => .cons name node .nil
  | .cons name' node' entries =>
    if name' = name then .cons name' node entries else .cons name' node' (entries.set name node)

def Node.at : Path → Node α → Option (Node α)
  | [], node => some node
  | name :: path, .directory entries => (entries.lookup name).bind (Node.at path)
  | _ :: _, _ => none

/-- A node is put at a path, with the directories on the way there. -/
def Node.put (new : Node α) : Path → Node α → Option (Node α)
  | [], _ => some new
  | name :: path, .directory entries =>
    (new.put path ((entries.lookup name).getD (.directory .nil))).map fun node =>
      .directory (entries.set name node)
  | _ :: _, _ => none

mutual

/-- The regular files with their paths. -/
def Node.files : Node α → List (Path × α)
  | .file content => [([], content)]
  | .directory entries => entries.files
  | .other => []

def Entries.files : Entries α → List (Path × α)
  | .nil => []
  | .cons name node entries => node.files.map (Prod.map (name :: ·) id) ++ entries.files

end

/-- The regular file at a path. -/
def Node.content (path : Path) (node : Node α) : Option α :=
  match node.at path with
  | some (.file content) => some content
  | _ => none

/-- The files below a directory, or none where there is no such directory. -/
def Node.filesAt (path : Path) (node : Node α) : List (Path × α) :=
  match node.at path with
  | some (.directory entries) => entries.files
  | _ => []

/-! ## Putting and reading -/

section
variable {name name' : FileName} {node node' new : Node α} {entries entries' : Entries α}
  {path path' rest here : Path} {content : α}

@[simp] theorem Entries.lookup_set_self : (entries.set name node).lookup name = some node := by
  induction entries using Entries.rec (motive_1 := fun _ => True) with
  | nil => simp [Entries.set, Entries.lookup]
  | cons name' node' entries _ ih =>
    unfold Entries.set
    split
    · simp [Entries.lookup, *]
    · simp [Entries.lookup, *]
  | _ => trivial

theorem Entries.lookup_set_of_ne (h : name ≠ name') :
    (entries.set name node).lookup name' = entries.lookup name' := by
  induction entries using Entries.rec (motive_1 := fun _ => True) with
  | nil => simp [Entries.set, Entries.lookup, h]
  | cons name'' node' entries _ ih =>
    unfold Entries.set
    split
    · rename_i heq
      subst heq
      simp [Entries.lookup, h]
    · simp only [Entries.lookup, ih]
  | _ => trivial

theorem Node.at_append : node.at (path ++ path') = (node.at path).bind (Node.at path') := by
  induction path generalizing node with
  | nil => rfl
  | cons name path ih =>
    cases node with
    | directory entries =>
      simp only [List.cons_append, Node.at]
      cases entries.lookup name with
      | none => rfl
      | some node => exact ih
    | _ => rfl

/-- Putting goes through directories only. -/
theorem Node.put_cons (h : new.put (name :: path) node = some node') :
    ∃ entries, node = .directory entries ∧ ∃ inner,
      new.put path ((entries.lookup name).getD (.directory .nil)) = some inner ∧
        node' = .directory (entries.set name inner) := by
  cases node with
  | directory entries =>
    obtain ⟨inner, hinner, rfl⟩ := Option.map_eq_some_iff.mp h
    exact ⟨entries, rfl, inner, hinner, rfl⟩
  | _ => cases h

/-- A path is reached through each of its beginnings. -/
theorem Node.put_append (h : new.put (path ++ rest) node = some node') :
    ∃ inner, node'.at path = some inner ∧
      new.put rest ((node.at path).getD (.directory .nil)) = some inner := by
  induction path generalizing node node' with
  | nil => exact ⟨node', rfl, h⟩
  | cons name path ih =>
    obtain ⟨entries, rfl, inner, hinner, rfl⟩ := Node.put_cons h
    obtain ⟨target, hat, hput⟩ := ih hinner
    refine ⟨target, by simpa [Node.at] using hat, ?_⟩
    rw [← hput]
    congr 1
    simp only [Node.at]
    cases entries.lookup name with
    | some node => rfl
    | none =>
      cases path with
      | nil => rfl
      | cons name' path => simp [Node.at, Entries.lookup]

theorem Node.at_put_self (h : new.put path node = some node') : node'.at path = some new := by
  rw [← List.append_nil path] at h
  obtain ⟨inner, hat, hput⟩ := Node.put_append h
  cases hput
  exact hat

/-- The nodes beside the path stay as they are. -/
theorem Node.at_put_of_apart (h : new.put path node = some node') (hbelow : ¬ path <+: path')
    (habove : ¬ path' <+: path) : node'.at path' = node.at path' := by
  induction path generalizing node node' path' with
  | nil => exact absurd (List.nil_prefix) hbelow
  | cons name path ih =>
    cases path' with
    | nil => exact absurd (List.nil_prefix) habove
    | cons name' path' =>
      obtain ⟨entries, rfl, inner, hinner, rfl⟩ := Node.put_cons h
      by_cases hname : name = name'
      · subst hname
        rw [List.prefix_cons_inj] at hbelow habove
        simp only [Node.at, Entries.lookup_set_self, Option.bind_some]
        rw [ih hinner hbelow habove]
        cases entries.lookup name with
        | some node => rfl
        | none =>
          cases path' with
          | nil => exact absurd (List.nil_prefix) habove
          | cons name' path' => simp [Node.at, Entries.lookup]
      · simp only [Node.at]
        rw [Entries.lookup_set_of_ne hname]

/-- No file changes but those below the path. -/
theorem Node.content_put (h : new.put path node = some node') (hbelow : ¬ path <+: path') :
    node'.content path' = node.content path' := by
  by_cases habove : path' <+: path
  · obtain ⟨rest, rfl⟩ := habove
    obtain ⟨inner, hat, hput⟩ := Node.put_append h
    cases rest with
    | nil => exact absurd (by simp) hbelow
    | cons name rest =>
      obtain ⟨entries, hentries, _, -, rfl⟩ := Node.put_cons hput
      have hbefore : node.content path' = none := by
        unfold Node.content
        cases hnode : node.at path' with
        | none => rfl
        | some inner =>
          rw [hnode] at hentries
          cases hentries
          rfl
      rw [hbefore]
      unfold Node.content
      rw [hat]
  · unfold Node.content
    rw [Node.at_put_of_apart h hbelow habove]

end

/-! ## Pruned walks -/

/-- Whether a walk that goes only into what is kept gets to a path below `here`. -/
def reached (keep : Path → Bool) (here : Path) : Path → Bool
  | [] => true
  | name :: path => keep (here ++ [name]) && reached keep (here ++ [name]) path

/-- The files that the walk finds. -/
def Node.found (keep : Path → Bool) (here : Path) (node : Node α) : List (Path × α) :=
  node.files.filter fun file => reached keep here file.1

def Entries.found (keep : Path → Bool) (here : Path) (entries : Entries α) : List (Path × α) :=
  entries.files.filter fun file => reached keep here file.1

section
variable {name : FileName} {node node' new : Node α} {entries entries' : Entries α}
  {path root rest here : Path} {keep keep' : Path → Bool}

theorem Entries.found_cons : (Entries.cons name node entries).found keep here =
    (if keep (here ++ [name]) then
      (node.found keep (here ++ [name])).map (Prod.map (name :: ·) id) else []) ++
      entries.found keep here := by
  unfold Entries.found Node.found
  rw [Entries.files, List.filter_append, List.filter_map]
  congr 1
  split
  · rename_i hkeep
    congr 2
    funext file
    simp [reached, hkeep]
  · rename_i hkeep
    simp [reached, hkeep]

/-- What an entry contributes to a walk is all that matters of it. -/
theorem Entries.found_set (h : keep (here ++ [name]) = true →
    node.found keep (here ++ [name]) =
      ((entries.lookup name).getD (.directory .nil)).found keep (here ++ [name])) :
    (entries.set name node).found keep here = entries.found keep here := by
  induction entries using Entries.rec (motive_1 := fun _ => True) with
  | nil =>
    rw [Entries.set, Entries.found_cons]
    split
    · rename_i hkeep
      rw [h hkeep]
      rfl
    · rfl
  | cons name' node' entries _ ih =>
    unfold Entries.set
    split
    · rename_i heq
      subst heq
      simp only [Entries.lookup, if_true, Option.getD_some] at h
      rw [Entries.found_cons, Entries.found_cons]
      congr 1
      split
      · rename_i hkeep
        rw [h hkeep]
      · rfl
    · rename_i hne
      simp only [Entries.lookup, if_neg hne] at h
      rw [Entries.found_cons, Entries.found_cons, ih h]
  | _ => trivial

/-- A walk does not notice what is put where it does not get to. -/
theorem Node.found_put (h : new.put path node = some node')
    (hreached : reached keep here path = false) : node'.found keep here = node.found keep here := by
  induction path generalizing node node' here with
  | nil => cases hreached
  | cons name path ih =>
    obtain ⟨entries, rfl, inner, hinner, rfl⟩ := Node.put_cons h
    exact Entries.found_set fun hkeep => ih hinner (by simpa [reached, hkeep] using hreached)

theorem Node.filesAt_put (h : new.put (root ++ rest) node = some node')
    (hreached : reached keep here rest = false) :
    (node'.filesAt root).filter (fun file => reached keep here file.1) =
      (node.filesAt root).filter fun file => reached keep here file.1 := by
  obtain ⟨inner, hat, hput⟩ := Node.put_append h
  cases rest with
  | nil => cases hreached
  | cons name rest =>
    have hfound := Node.found_put hput hreached
    obtain ⟨entries, hentries, _, -, rfl⟩ := Node.put_cons hput
    rw [hentries] at hfound
    unfold Node.filesAt
    rw [hat]
    refine hfound.trans ?_
    cases hnode : node.at root with
    | none =>
      rw [hnode] at hentries
      cases hentries
      rfl
    | some found =>
      rw [hnode] at hentries
      cases hentries
      rfl

/-- A walk from `root` gets neither to the path nor to anything on the way there. -/
def Avoids (keep : Path → Bool) (root path : Path) : Prop :=
  (∃ rest, path = root ++ rest ∧ reached keep root rest = false) ∨
    ¬ path <+: root ∧ ¬ root <+: path

theorem Node.filesAt_put_of_avoids (h : new.put path node = some node')
    (havoids : Avoids keep root path) :
    (node'.filesAt root).filter (fun file => reached keep root file.1) =
      (node.filesAt root).filter fun file => reached keep root file.1 := by
  obtain ⟨rest, rfl, hreached⟩ | ⟨hbelow, habove⟩ := havoids
  · exact Node.filesAt_put h hreached
  · unfold Node.filesAt
    rw [Node.at_put_of_apart h hbelow habove]

/-- Every step on the way is kept. -/
theorem reached_iff : reached keep here path = true ↔
    ∀ rest, rest <+: path → rest ≠ [] → keep (here ++ rest) = true := by
  induction path generalizing here with
  | nil => simp [reached]
  | cons name path ih =>
    simp only [reached, Bool.and_eq_true, ih]
    constructor
    · rintro ⟨hname, hpath⟩ rest hrest hne
      cases rest with
      | nil => exact absurd rfl hne
      | cons name' rest =>
        obtain ⟨rfl, hinner⟩ := List.cons_prefix_cons.mp hrest
        by_cases hnil : rest = []
        · rwa [hnil]
        · simpa using hpath rest hinner hnil
    · intro h
      refine ⟨h [name] (by simp) (by simp), fun rest hrest _ => ?_⟩
      simpa using h (name :: rest) (List.cons_prefix_cons.mpr ⟨rfl, hrest⟩) (by simp)

/-- A walk below another one finds what both keep. -/
theorem reached_and : reached (fun path => keep path && keep' path) here path =
    (reached keep here path && reached keep' here path) := by
  induction path generalizing here with
  | nil => rfl
  | cons name path ih =>
    simp only [reached, ih]
    cases keep (here ++ [name]) <;> cases keep' (here ++ [name]) <;> simp

end

end FileTree
