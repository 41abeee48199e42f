import MiracleAuction.Base.Forest
import MiracleAuction.Base.Run
import MiracleAuction.Base.Decimal

/-!
# The category table

The statements that the admin operations send, with the constraints of the table: a statement that
would break one of them is refused. `parent_id` is only checked to name a category.
-/
namespace MiracleAuction.Categories
open Decimal (Text)

/-- A row of `categories`. -/
structure Category where
  id : Int
  name : Text
  parentId : Option Int := none
  status : Text := "active".toList
  deleted : Bool := false
  slug : Option Text := none
  catImage : Option Text := none
deriving DecidableEq

/-- What a request body may set. -/
structure CategoryData where
  id : Option Int := none
  name : Option Text := none
  parentId : Option (Option Int) := none
  status : Option Text := none
  deleted : Option Bool := none
  slug : Option (Option Text) := none
  catImage : Option (Option Text) := none

/-- The row of a new category; `seq` is the value of the sequence. -/
def CategoryData.create (seq : Int) (data : CategoryData) : Option Category :=
  data.name.map fun name =>
    { id := data.id.getD seq, name, parentId := data.parentId.join,
      status := data.status.getD "active".toList, deleted := data.deleted.getD false,
      slug := data.slug.join, catImage := data.catImage.join }

/-- The row after an edit. -/
def CategoryData.update (data : CategoryData) (c : Category) : Category :=
  { id := data.id.getD c.id, name := data.name.getD c.name,
    parentId := data.parentId.getD c.parentId, status := data.status.getD c.status,
    deleted := data.deleted.getD c.deleted, slug := data.slug.getD c.slug,
    catImage := data.catImage.getD c.catImage }

/-- The statements of the repository. `held` says which categories have products that other tables
do not let go. -/
inductive Statement
  | insertCategory (seq : Int) (data : CategoryData)
  | updateCategoryWithID (id : Int) (data : CategoryData)
  | deleteCategoryWithID (id : Int)
  | restoreCategoryWithID (id : Int)
  | destroyCategoryWithID (id : Int) (held : Int → Bool)

variable {d d' rows : List Category} {s : Statement} {c : Category} {id k : Int}
  {held : Int → Bool}

def setDeleted (id : Int) (deleted : Bool) (d : List Category) : Option (List Category) :=
  if d.any (·.id = id) then some (d.map fun c => if c.id = id then { c with deleted } else c)
  else none

def edited (id : Int) (c : Category) : Bool := c.deleted = false ∧ c.id = id

/-- The table without a category. -/
def without (id : Int) (d : List Category) : List Category := d.filter (·.id ≠ id)

/-- The table after a statement, before its constraints are checked. -/
def Statement.effect (d : List Category) : Statement → Option (List Category)
  | insertCategory seq data => (data.create seq).map fun row => d ++ [row]
  | updateCategoryWithID id data =>
    some (d.map fun c => if edited id c then data.update c else c)
  | deleteCategoryWithID id => setDeleted id true d
  | restoreCategoryWithID id => setDeleted id false d
  | destroyCategoryWithID id held =>
    if d.any (·.id = id) ∧ held id = false then some (without id d) else none

def ids (d : List Category) : List Int := d.map (·.id)

/-- `categories_pkey`, `fk_categories_parent` and `categories_slug_key`. -/
def Valid (d : List Category) : Prop :=
  (ids d).Nodup ∧ (∀ c ∈ d, c.parentId.all (· ∈ ids d)) ∧ (d.filterMap (·.slug)).Nodup

instance : Decidable (Valid d) := inferInstanceAs (Decidable (_ ∧ _))

def next (d : List Category) (s : Statement) : Option (List Category) :=
  (s.effect d).filter fun d' => Valid d'

/-- The rows that a statement writes with a parent. -/
def Statement.written (d : List Category) : Statement → List Category
  | insertCategory seq data => (data.create seq).toList
  | updateCategoryWithID id data => (d.filter (edited id)).map data.update
  | _ => []

def links (d : List Category) : List (Int × Option Int) := d.map fun c => (c.id, c.parentId)

/-- `k` is a strict descendant of `id`. -/
def Descendant (d : List Category) (id k : Int) : Prop :=
  Forest.Below (links d) (some id) (some k)

/-- No row that the statement writes has itself or one of its descendants as its parent. -/
def ParentAbove (d : List Category) (s : Statement) : Prop :=
  ∀ row ∈ s.written d, ∀ p, row.parentId = some p →
    p ≠ row.id ∧ ¬ Descendant d row.id p

theorem next_eq (h : next d s = some d') : s.effect d = some d' ∧ Valid d' := by
  simpa [next, Option.filter_eq_some_iff] using h

theorem links_keys (d : List Category) : (links d).map Prod.fst = ids d := by
  simp [links, ids, Function.comp_def]

theorem links_cons : links (c :: d) = (c.id, c.parentId) :: links d := rfl

theorem mem_links {p : Option Int} : (k, p) ∈ links d ↔
    ∃ c ∈ d, c.id = k ∧ c.parentId = p := by
  simp [links]

/-- The parent of a category is in the table. -/
theorem Valid.parent_mem (h : Valid d) (hc : c ∈ d) (hparent : c.parentId = some k) :
    k ∈ ids d := by
  simpa [hparent] using h.2.1 c hc

theorem Valid.unique {c' : Category} (h : Valid d) (hc : c ∈ d) (hc' : c' ∈ d)
    (hid : c.id = c'.id) : c = c' :=
  List.inj_on_of_nodup_map h.1 hc hc' hid

/-- Only categories of the table have descendants. -/
theorem Valid.no_descendant (h : Valid d) (hid : id ∉ ids d) {q : Option Int} :
    ¬ Forest.Below (links d) (some id) q := by
  intro hbelow
  obtain ⟨_, ⟨k, hk, _⟩, _⟩ := Relation.TransGen.head'_iff.mp hbelow
  obtain ⟨c, hc, _, hparent⟩ := mem_links.mp hk
  exact hid (h.parent_mem hc hparent)

theorem mem_without : c ∈ without id d ↔ c ∈ d ∧ c.id ≠ id := by
  simp [without]

theorem ids_without (hk : k ∈ ids d) (hne : k ≠ id) : k ∈ ids (without id d) := by
  obtain ⟨c, hc, rfl⟩ := List.mem_map.mp hk
  exact List.mem_map_of_mem (mem_without.mpr ⟨hc, hne⟩)

theorem links_setDeleted {deleted : Bool} (h : setDeleted id deleted d = some d') :
    links d' = links d := by
  unfold setDeleted at h
  by_cases hid : d.any (·.id = id)
  · obtain rfl : _ = d' := Option.some.inj ((if_pos hid).symm.trans h)
    simp only [links, List.map_map]
    refine List.map_congr_left fun c _ => ?_
    by_cases hc : c.id = id <;> simp [hc]
  · simp [hid] at h

/-- An insertion adds a link. -/
theorem acyclic_insertCategory {row : Category} (hacyclic : Forest.Acyclic (links d)) :
    Forest.Acyclic (links (d ++ [row])) ↔
      ∀ p, row.parentId = some p → p ≠ row.id ∧ ¬ Descendant d row.id p := by
  have hperm : (links (d ++ [row])).Perm ((row.id, row.parentId) :: links d) := by
    simp [links]
  rw [Forest.acyclic_perm hperm, Forest.acyclic_cons hacyclic]
  cases hparent : row.parentId with
  | none => simp [Forest.not_below_none]
  | some p => simp [Descendant]

/-- An edit changes at most one row. -/
theorem updated_perm (hkeys : (ids d).Nodup) (hc : c ∈ d) (hedited : edited id c)
    (data : CategoryData) : ∃ rest, d.Perm (c :: rest) ∧
      (d.map fun c => if edited id c then data.update c else c).Perm (data.update c :: rest) := by
  have hperm := List.perm_cons_erase hc
  refine ⟨d.erase c, hperm, (hperm.map _).trans ?_⟩
  have hnodup : (ids (c :: d.erase c)).Nodup := (hperm.map _).nodup_iff.mp hkeys
  have hid : c.id = id := (of_decide_eq_true hedited).2
  have hothers : ∀ c' ∈ d.erase c, edited id c' = false := by
    intro c' hc'
    have hne : c'.id ≠ c.id := by
      intro heq
      exact (List.nodup_cons.mp hnodup).1 (List.mem_map.mpr ⟨c', hc', heq⟩)
    simp [edited, hid ▸ hne]
  have hrest : (d.erase c).map (fun c => if edited id c then data.update c else c) = d.erase c := by
    refine (List.map_congr_left fun c' hc' => ?_).trans (List.map_id _)
    simp [hothers c' hc']
  simp [hedited, hrest]

/-- An edit replaces a link. -/
theorem acyclic_updateCategory {data : CategoryData} (hvalid : Valid d)
    (hacyclic : Forest.Acyclic (links d)) (hc : c ∈ d) (hedited : edited id c)
    (hvalid' : Valid (d.map fun c => if edited id c then data.update c else c)) :
    Forest.Acyclic (links (d.map fun c => if edited id c then data.update c else c)) ↔
      ∀ p, (data.update c).parentId = some p →
        p ≠ (data.update c).id ∧ ¬ Descendant d (data.update c).id p := by
  obtain ⟨rest, hd, hd'⟩ := updated_perm hvalid.1 hc hedited data
  generalize data.update c = row at hd' ⊢
  have hlinks : (links d).Perm ((c.id, c.parentId) :: links rest) := hd.map _
  have hlinks' : (links (d.map fun c => if edited id c then data.update c else c)).Perm
      ((row.id, row.parentId) :: links rest) := hd'.map _
  have hold : Forest.Acyclic ((c.id, c.parentId) :: links rest) :=
    (Forest.acyclic_perm hlinks).mp hacyclic
  have hrest : Forest.Acyclic (links rest) :=
    Forest.acyclic_mono (fun l hl => List.mem_cons_of_mem _ hl) hold
  have hbelow : ∀ p, Forest.Below (links d) (some row.id) p ↔
      Forest.Below (links rest) (some row.id) p := by
    intro p
    by_cases hid : row.id = c.id
    · rw [Forest.below_perm hlinks, hid, Forest.below_cons_self hold]
    · have hnew : row.id ∉ ids d := by
        have hnodup : (ids (row :: rest)).Nodup := (hd'.map _).nodup_iff.mp hvalid'.1
        have hnotin := (List.nodup_cons.mp hnodup).1
        intro hmem
        obtain heq | hmem := List.mem_cons.mp ((hd.map (·.id)).mem_iff.mp hmem)
        · exact hid heq
        · exact hnotin hmem
      refine iff_of_false (hvalid.no_descendant hnew) fun h => ?_
      exact hvalid.no_descendant hnew (Forest.below_mono
        (fun l hl => hlinks.mem_iff.mpr (List.mem_cons_of_mem _ hl)) h)
  rw [Forest.acyclic_perm hlinks', Forest.acyclic_cons hrest]
  cases hparent : row.parentId with
  | none => simp [Forest.not_below_none]
  | some p => simp [Descendant, hbelow]

/-- A statement keeps the table free of cycles exactly if it writes no parent from below. -/
theorem acyclic_next (h : next d s = some d') (hvalid : Valid d)
    (hacyclic : Forest.Acyclic (links d)) : Forest.Acyclic (links d') ↔ ParentAbove d s := by
  obtain ⟨heffect, hvalid'⟩ := next_eq h
  unfold ParentAbove
  cases s with
  | insertCategory seq data =>
    obtain ⟨row, hrow, rfl⟩ := Option.map_eq_some_iff.mp heffect
    simp only [Statement.written, hrow, Option.toList_some, List.mem_singleton, forall_eq]
    exact acyclic_insertCategory hacyclic
  | updateCategoryWithID id data =>
    obtain rfl : _ = d' := Option.some.inj heffect
    by_cases hex : ∃ c ∈ d, edited id c
    · obtain ⟨c, hc, hedited⟩ := hex
      rw [acyclic_updateCategory hvalid hacyclic hc hedited hvalid']
      constructor
      · intro habove row hrow
        obtain ⟨c', hc', rfl⟩ := List.mem_map.mp hrow
        obtain ⟨hc', hedited'⟩ := List.mem_filter.mp hc'
        have hid := (of_decide_eq_true hedited).2
        have hid' := (of_decide_eq_true hedited').2
        obtain rfl := hvalid.unique hc hc' (hid.trans hid'.symm)
        exact habove
      · intro habove
        exact habove _ (List.mem_map_of_mem (List.mem_filter.mpr ⟨hc, hedited⟩))
    · have hnone : ∀ c ∈ d, edited id c = false := by simpa using hex
      have hsame : d.map (fun c => if edited id c then data.update c else c) = d := by
        refine (List.map_congr_left fun c hc => ?_).trans (List.map_id _)
        simp [hnone c hc]
      have hwritten : d.filter (edited id) = [] :=
        List.filter_eq_nil_iff.mpr fun c hc => by simp [hnone c hc]
      simp [hsame, hacyclic, Statement.written, hwritten]
  | deleteCategoryWithID id =>
    simp [links_setDeleted heffect, hacyclic, Statement.written]
  | restoreCategoryWithID id =>
    simp [links_setDeleted heffect, hacyclic, Statement.written]
  | destroyCategoryWithID id held =>
    simp only [Statement.effect, Option.ite_none_right_eq_some, Option.some.injEq] at heffect
    obtain ⟨_, rfl⟩ := heffect
    have hsub : ∀ l ∈ links (without id d), l ∈ links d := by
      intro l hl
      exact List.map_subset _ (List.filter_subset_self d) hl
    exact iff_of_true (Forest.acyclic_mono hsub hacyclic) (by simp [Statement.written])

end MiracleAuction.Categories
