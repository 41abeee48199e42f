import MiracleAuction.Categories.Table

/-!
# Subtrees of categories

The recursion that lists the descendants of a category, the tree of the listed categories, and the
removal of a subtree row by row, over every table that the statements of the admin operations lead
to.
-/
namespace MiracleAuction.Categories
open Decimal (Text)

variable {d d' rows rows' : List Category} {s : Statement} {c : Category} {id k : Int}
  {held : Int → Bool} {fuel : Nat} {ks : List Int}

/-- `findDescendants`, over the rows read once; none when the recursion goes deeper than `fuel`. -/
def findDescendants (allCategories : List Category) :
    Nat → Int → List Int → Option (List Int)
  | 0, _, _ => none
  | fuel + 1, parentId, descendants =>
    allCategories.foldlM
      (fun descendants cat =>
        if cat.parentId = some parentId then
          findDescendants allCategories fuel cat.id (descendants ++ [cat.id])
        else some descendants)
      descendants

def getAllDescendantIds (fuel : Nat) (allCategories : List Category) (categoryId : Int) :
    Option (List Int) :=
  findDescendants allCategories fuel categoryId []

inductive CategoryNode
  | mk (id : Int) (name : Text) (slug : Option Text) (catImage : Text)
      (children : List CategoryNode)

def buildTree (categories : List Category) : Nat → Option Int → Option (List CategoryNode)
  | 0, _ => none
  | fuel + 1, parentID =>
    categories.foldlM
      (fun tree item =>
        if item.parentId = parentID then do
          let children ← buildTree categories fuel (some item.id)
          return tree ++ [.mk item.id item.name item.slug (item.catImage.getD []) children]
        else some tree)
      []

mutual

/-- The categories of a node. -/
def CategoryNode.ids : CategoryNode → List Int
  | .mk id _ _ _ children => id :: treeIds children

/-- The categories of a tree. -/
def treeIds : List CategoryNode → List Int
  | [] => []
  | node :: nodes => node.ids ++ treeIds nodes

end

/-- `getAllCategories`, in the order of the table. -/
def getAllCategories (d : List Category) : List Category :=
  d.filter fun c => c.status = "active".toList ∧ c.deleted = false

def getAllCategory (d : List Category) (deleted : Bool) : List Category :=
  d.filter fun c => c.deleted = deleted

/-- One request's statements, up to the first that is refused. -/
def perform (d : List Category) : List Statement → List Category
  | [] => d
  | s :: statements =>
    match next d s with
    | none => d
    | some d' => perform d' statements

/-- `deleteCategory`, where `linked` says which categories have products. -/
def deleteCategory (fuel : Nat) (allCategories d : List Category) (linked : Int → Bool)
    (categoryId : Int) : Option (List Category) :=
  (getAllDescendantIds fuel allCategories categoryId).map fun descendantIds =>
    if (categoryId :: descendantIds).any linked then d
    else perform d ((categoryId :: descendantIds).map .deleteCategoryWithID)

def destroyCategory (fuel : Nat) (allCategories d : List Category) (held : Int → Bool)
    (categoryId : Int) : Option (List Category) :=
  (getAllDescendantIds fuel allCategories categoryId).map fun descendantIds =>
    perform d ((descendantIds ++ [categoryId]).map fun k => .destroyCategoryWithID k held)

/-- The listings end, and hold what they should once; a table is read in any order. -/
structure Exact (d : List Category) : Prop where
  descendants : ∀ rows, rows.Perm d → ∀ id, ∃ fuel ks,
    getAllDescendantIds fuel rows id = some ks ∧ ks.Nodup ∧ ∀ k, k ∈ ks ↔
      Descendant d id k
  tree : ∀ listed ∈ [getAllCategories d, getAllCategory d false], ∀ rows, rows.Perm listed →
    ∃ fuel nodes, buildTree rows fuel none = some nodes ∧ (treeIds nodes).Nodup ∧
      ∀ k, k ∈ treeIds nodes ↔ Forest.Below (links listed) none (some k)

/-- What is left of a table when a subtree is destroyed: all of it, or all but the subtree. -/
def Whole (d d' : List Category) (id : Int) : Prop :=
  (∀ c, c ∈ d' ↔ c ∈ d ∧ c.id ≠ id ∧ ¬ Descendant d id c.id) ∨ d' = d

/-- A row that no other row and no product keeps in the table. -/
def Removable (d : List Category) (held : Int → Bool) (k : Int) : Prop :=
  held k = false ∧ ∀ c ∈ d, c.parentId ≠ some k

/-- Unless the first row below `id` cannot be removed, each of them can, and `id` is not held. -/
def AllOrFirst (d rows : List Category) (held : Int → Bool) (id : Int) : Prop :=
  ∀ c, (rows.filter (·.parentId = some id)).head? = some c → Removable d held c.id →
    (∀ c' ∈ rows, c'.parentId = some id → Removable d held c'.id) ∧ held id = false

theorem findDescendants_eq (rows : List Category) (fuel : Nat) (id : Int) (acc : List Int) :
    findDescendants rows fuel id acc =
      (Forest.below (links rows) fuel (some id)).map (acc ++ ·) := by
  induction fuel generalizing id acc with
  | zero => rfl
  | succ fuel ih =>
    have hrows : ∀ (part : List Category) acc,
        part.foldlM (fun descendants cat =>
          if cat.parentId = some id then
            findDescendants rows fuel cat.id (descendants ++ [cat.id])
          else some descendants) acc =
        (Forest.collect (fun k => Forest.below (links rows) fuel (some k))
          (Forest.children (links part) (some id))).map (acc ++ ·) := by
      intro part
      induction part with
      | nil => intro acc; simp [links, Forest.children, Forest.collect]
      | cons c part ihpart =>
        intro acc
        rw [List.foldlM_cons, links_cons]
        by_cases hc : c.parentId = some id
        · rw [Forest.children_cons_of_eq hc, Forest.collect]
          simp only [if_pos hc]
          rw [ih]
          cases Forest.below (links rows) fuel (some c.id) with
          | none => rfl
          | some own =>
            refine (ihpart (acc ++ [c.id] ++ own)).trans ?_
            cases Forest.collect (fun k => Forest.below (links rows) fuel (some k))
                (Forest.children (links part) (some id)) with
            | none => rfl
            | some others => simp
        · rw [Forest.children_cons_of_ne hc]
          simp only [if_neg hc]
          exact ihpart acc
    exact hrows rows acc

theorem getAllDescendantIds_eq (fuel : Nat) (rows : List Category) (id : Int) :
    getAllDescendantIds fuel rows id = Forest.below (links rows) fuel (some id) := by
  simp [getAllDescendantIds, findDescendants_eq]

theorem treeIds_append (nodes nodes' : List CategoryNode) :
    treeIds (nodes ++ nodes') = treeIds nodes ++ treeIds nodes' := by
  induction nodes with
  | nil => rfl
  | cons node nodes ih => simp [treeIds, ih]

/-- The tree holds the keys that the recursion visits. -/
theorem buildTree_ids (rows : List Category) (fuel : Nat) (p : Option Int) :
    (buildTree rows fuel p).map treeIds = Forest.below (links rows) fuel p := by
  induction fuel generalizing p with
  | zero => rfl
  | succ fuel ih =>
    have hrows : ∀ (part : List Category) acc,
        (part.foldlM (fun tree item =>
          if item.parentId = p then do
            let children ← buildTree rows fuel (some item.id)
            return tree ++ [CategoryNode.mk item.id item.name item.slug (item.catImage.getD [])
              children]
          else some tree) acc).map treeIds =
        (Forest.collect (fun k => Forest.below (links rows) fuel (some k))
          (Forest.children (links part) p)).map (treeIds acc ++ ·) := by
      intro part
      induction part with
      | nil => intro acc; simp [links, Forest.children, Forest.collect]
      | cons c part ihpart =>
        intro acc
        rw [List.foldlM_cons, links_cons]
        by_cases hc : c.parentId = p
        · rw [Forest.children_cons_of_eq hc, Forest.collect, ← ih]
          simp only [if_pos hc]
          cases buildTree rows fuel (some c.id) with
          | none => rfl
          | some children =>
            refine (ihpart (acc ++ [.mk c.id c.name c.slug (c.catImage.getD []) children])).trans ?_
            cases Forest.collect (fun k => Forest.below (links rows) fuel (some k))
                (Forest.children (links part) p) with
            | none => rfl
            | some others => simp [treeIds_append, treeIds, CategoryNode.ids]
        · rw [Forest.children_cons_of_ne hc]
          simp only [if_neg hc]
          exact ihpart acc
    refine (hrows rows []).trans ?_
    simp [treeIds, Forest.below]

/-- A request that writes no parents is a guarded run of its statements, up to the one that is
refused. -/
theorem perform_run (d : List Category) (statements : List Statement)
    (h : ∀ s ∈ statements, ∀ d, s.written d = []) : ∃ done, done <+: statements ∧
      Run (Guarded ParentAbove (StepOf next)) d done (perform d statements) := by
  induction statements generalizing d with
  | nil => exact ⟨[], List.nil_prefix, .refl d⟩
  | cons s statements ih =>
    unfold perform
    cases hnext : next d s with
    | none => exact ⟨[], List.nil_prefix, .refl d⟩
    | some d' =>
      obtain ⟨done, hdone, hrun⟩ := ih d' fun s hs => h s (List.mem_cons_of_mem _ hs)
      have hok : ParentAbove d s := by simp [ParentAbove, h s List.mem_cons_self d]
      exact ⟨s :: done, List.prefix_cons_iff.mpr (.inr ⟨done, rfl, hdone⟩),
        .cons ⟨hok, hnext⟩ hrun⟩

theorem deleteCategory_run {linked : Int → Bool}
    (h : deleteCategory fuel rows d linked id = some d') :
    ∃ done, Run (Guarded ParentAbove (StepOf next)) d done d' := by
  obtain ⟨ks, _, rfl⟩ := Option.map_eq_some_iff.mp h
  by_cases hlinked : (id :: ks).any linked
  · exact ⟨[], by rw [if_pos hlinked]; exact .refl d⟩
  · rw [if_neg hlinked]
    obtain ⟨done, _, hrun⟩ := perform_run d ((id :: ks).map .deleteCategoryWithID)
      (by simp [Statement.written])
    exact ⟨done, hrun⟩

theorem destroyCategory_run (h : destroyCategory fuel rows d held id = some d') :
    ∃ done, Run (Guarded ParentAbove (StepOf next)) d done d' := by
  obtain ⟨ks, _, rfl⟩ := Option.map_eq_some_iff.mp h
  obtain ⟨done, _, hrun⟩ := perform_run d
    ((ks ++ [id]).map fun k => .destroyCategoryWithID k held)
    (by simp [Statement.written, or_imp, forall_and])
  exact ⟨done, hrun⟩

theorem valid_nil : Valid [] := by decide

theorem valid_next (h : next d s = some d') : Valid d' := (next_eq h).2

/-- Without cycles, the listings end and are exact. -/
theorem exact_of_acyclic (hvalid : Valid d) (hacyclic : Forest.Acyclic (links d)) : Exact d := by
  have hlist : ∀ listed, listed.Sublist d → ∀ rows, rows.Perm listed → ∀ p, ∃ fuel ks,
      Forest.below (links rows) fuel p = some ks ∧ ks.Nodup ∧
        ∀ k, k ∈ ks ↔ Forest.Below (links listed) p (some k) := by
    intro listed hsub rows hperm p
    have hlinks : (links rows).Perm (links listed) := hperm.map _
    have hrows : Forest.Acyclic (links rows) := by
      rw [Forest.acyclic_perm hlinks]
      exact Forest.acyclic_mono (fun l hl => (hsub.map _).subset hl) hacyclic
    have hkeys : ((links rows).map Prod.fst).Nodup := by
      rw [(hlinks.map Prod.fst).nodup_iff, links_keys]
      exact (hsub.map _).nodup hvalid.1
    obtain ⟨fuel, ks, hks⟩ := Forest.below_isSome_iff.mpr fun q (_ : _) => hrows q
    exact ⟨fuel, ks, hks, Forest.below_nodup hkeys hks, fun k =>
      (Forest.mem_below hks).trans (Forest.below_perm hlinks)⟩
  constructor
  · intro rows hperm id
    simp only [getAllDescendantIds_eq]
    exact hlist d (List.Sublist.refl d) rows hperm (some id)
  · intro listed hlisted rows hperm
    have hsub : listed.Sublist d := by
      simp only [List.mem_cons, List.not_mem_nil, or_false] at hlisted
      obtain rfl | rfl := hlisted
      · exact List.filter_sublist
      · exact List.filter_sublist
    obtain ⟨fuel, ks, hks, hnodup, hmem⟩ := hlist listed hsub rows hperm none
    rw [← buildTree_ids] at hks
    obtain ⟨nodes, hnodes, rfl⟩ := Option.map_eq_some_iff.mp hks
    exact ⟨fuel, nodes, hnodes, hnodup, hmem⟩

/-- A category on a cycle has no listing. -/
theorem exact_iff_acyclic (hvalid : Valid d) : Exact d ↔ Forest.Acyclic (links d) := by
  refine ⟨fun h q hcycle => ?_, exact_of_acyclic hvalid⟩
  cases q with
  | none => exact Forest.not_below_none hcycle
  | some id =>
    obtain ⟨fuel, ks, hks, _⟩ := h.descendants d (List.Perm.refl d) id
    rw [getAllDescendantIds_eq, Forest.below_eq_none .refl hcycle] at hks
    cases hks

theorem next_destroy (hvalid : Valid d) : next d (.destroyCategoryWithID k held) = some d' ↔
    k ∈ ids d ∧ held k = false ∧ (∀ c ∈ d, c.parentId = some k → c.id = k) ∧
      without k d = d' := by
  have hany : d.any (·.id = k) = true ↔ k ∈ ids d := by simp [ids]
  constructor
  · intro h
    obtain ⟨heffect, hvalid'⟩ := next_eq h
    simp only [Statement.effect, Option.ite_none_right_eq_some, Option.some.injEq] at heffect
    obtain ⟨⟨hk, hheld⟩, rfl⟩ := heffect
    refine ⟨hany.mp hk, hheld, fun c hc hparent => ?_, rfl⟩
    by_contra hne
    have hmem := hvalid'.parent_mem (mem_without.mpr ⟨hc, hne⟩) hparent
    obtain ⟨c', hc', heq⟩ := List.mem_map.mp hmem
    exact (mem_without.mp hc').2 heq
  · rintro ⟨hk, hheld, hleaf, rfl⟩
    have hvalid' : Valid (without k d) := by
      refine ⟨(List.filter_sublist.map _).nodup hvalid.1, fun c hc => ?_,
        (List.filter_sublist.filterMap _).nodup hvalid.2.2⟩
      obtain ⟨hcd, hne⟩ := mem_without.mp hc
      cases hparent : c.parentId with
      | none => rfl
      | some p =>
        have hp : p ≠ k := by
          rintro rfl
          exact hne (hleaf c hcd hparent)
        simpa using ids_without (hvalid.parent_mem hcd hparent) hp
    simp [next, Statement.effect, hany.mpr hk, hheld, hvalid']

/-- The statements of a destruction. -/
def destroyAll (held : Int → Bool) (ks : List Int) : List Statement :=
  ks.map fun k => .destroyCategoryWithID k held

theorem mem_of_perform (h : c ∈ perform d (destroyAll held ks)) : c ∈ d := by
  induction ks generalizing d with
  | nil => exact h
  | cons k ks ih =>
    simp only [destroyAll, List.map_cons, perform] at h
    cases hnext : next d (.destroyCategoryWithID k held) with
    | none => simpa [hnext] using h
    | some d1 =>
      simp only [hnext] at h
      obtain ⟨heffect, _⟩ := next_eq hnext
      simp only [Statement.effect, Option.ite_none_right_eq_some, Option.some.injEq] at heffect
      obtain ⟨_, rfl⟩ := heffect
      exact List.mem_of_mem_filter (ih h)

/-- Each row can be removed when those before it are gone. -/
def Peels (d : List Category) (held : Int → Bool) (ks : List Int) : Prop :=
  ∀ before k after, ks = before ++ k :: after →
    held k = false ∧ ∀ c ∈ d, c.parentId = some k → c.id = k ∨ c.id ∈ before

theorem perform_of_peels (hvalid : Valid d) (hnodup : ks.Nodup) (hmem : ∀ k ∈ ks, k ∈ ids d)
    (h : Peels d held ks) : perform d (destroyAll held ks) = d.filter (·.id ∉ ks) := by
  induction ks generalizing d with
  | nil => simp [destroyAll, perform]
  | cons k ks ih =>
    obtain ⟨hk, hnodup⟩ := List.nodup_cons.mp hnodup
    obtain ⟨hheld, hleaf⟩ := h [] k ks rfl
    have hnext : next d (.destroyCategoryWithID k held) = some (without k d) :=
      (next_destroy hvalid).mpr
        ⟨hmem k List.mem_cons_self, hheld, by simpa using hleaf, rfl⟩
    have hrest : Peels (without k d) held ks := by
      rintro before j after rfl
      obtain ⟨hheld, hlast⟩ := h (k :: before) j after rfl
      refine ⟨hheld, fun c hc hparent => ?_⟩
      obtain ⟨hc, hne⟩ := mem_without.mp hc
      obtain heq | hbefore := hlast c hc hparent
      · exact .inl heq
      · exact .inr ((List.mem_cons.mp hbefore).resolve_left hne)
    have hmem' : ∀ j ∈ ks, j ∈ ids (without k d) := fun j hj =>
      ids_without (hmem j (List.mem_cons_of_mem k hj)) fun heq => hk (heq ▸ hj)
    have hperform := ih (valid_next hnext) hnodup hmem' hrest
    simp only [destroyAll, List.map_cons, perform, hnext] at hperform ⊢
    rw [hperform, without, List.filter_filter]
    refine List.filter_congr fun c _ => ?_
    simp [Bool.and_comm]

/-- A destruction that leaves none of its rows was never refused. -/
theorem peels_of_perform (hvalid : Valid d) (hnodup : ks.Nodup) (hmem : ∀ k ∈ ks, k ∈ ids d)
    (h : ∀ k ∈ ks, k ∉ ids (perform d (destroyAll held ks))) : Peels d held ks := by
  induction ks generalizing d with
  | nil => intro before k after heq; simp at heq
  | cons k ks ih =>
    obtain ⟨hk, hnodup⟩ := List.nodup_cons.mp hnodup
    simp only [destroyAll, List.map_cons, perform] at h
    cases hnext : next d (.destroyCategoryWithID k held) with
    | none =>
      simp only [hnext] at h
      exact absurd (hmem k List.mem_cons_self) (h k List.mem_cons_self)
    | some d1 =>
      simp only [hnext] at h
      obtain ⟨_, hheld, hleaf, rfl⟩ := (next_destroy hvalid).mp hnext
      have hmem' : ∀ j ∈ ks, j ∈ ids (without k d) := fun j hj =>
        ids_without (hmem j (List.mem_cons_of_mem k hj)) fun heq => hk (heq ▸ hj)
      have hrest := ih (valid_next hnext) hnodup hmem'
        fun j hj => h j (List.mem_cons_of_mem k hj)
      intro before j after heq
      cases before with
      | nil =>
        obtain ⟨rfl, _⟩ := List.cons.inj heq
        exact ⟨hheld, fun c hc hparent => .inl (hleaf c hc hparent)⟩
      | cons k' before =>
        obtain ⟨rfl, htail⟩ := List.cons.inj heq
        obtain ⟨hheld, hlast⟩ := hrest before j after htail
        refine ⟨hheld, fun c hc hparent => ?_⟩
        by_cases hck : c.id = k
        · exact .inr (List.mem_cons.mpr (.inl hck))
        · obtain heq | hbefore := hlast c (mem_without.mpr ⟨hc, hck⟩) hparent
          · exact .inl heq
          · exact .inr (List.mem_cons_of_mem _ hbefore)

/-- No category is its own parent. -/
theorem parent_ne (hacyclic : Forest.Acyclic (links d)) (hc : c ∈ d)
    (hparent : c.parentId = some k) : c.id ≠ k := by
  rintro rfl
  exact hacyclic (some c.id) (.single ⟨c.id, mem_links.mpr ⟨c, hc, rfl, hparent⟩, rfl⟩)

theorem descendant_of_parent (hc : c ∈ d) (hparent : c.parentId = some id) :
    Descendant d id c.id :=
  .single ⟨c.id, mem_links.mpr ⟨c, hc, rfl, hparent⟩, rfl⟩

/-- A row can be removed at once exactly if it is removable. -/
theorem next_destroy_iff (hvalid : Valid d) (hacyclic : Forest.Acyclic (links d))
    (hk : k ∈ ids d) :
    (next d (.destroyCategoryWithID k held)).isSome ↔ Removable d held k := by
  rw [Option.isSome_iff_exists]
  simp only [next_destroy hvalid, Removable, hk, true_and, exists_and_left, exists_eq', and_true]
  refine and_congr_right fun _ => forall₂_congr fun c hc => ?_
  refine imp_congr_right fun hparent => ?_
  exact iff_of_false (parent_ne hacyclic hc hparent) not_false

section Destruction
variable (hvalid : Valid d) (hacyclic : Forest.Acyclic (links d)) (hrows : rows.Perm d)
  (hks : getAllDescendantIds fuel rows id = some ks)
include hvalid hacyclic hrows hks

/-- The rows that a destruction names, each once. -/
theorem listed_spec : (ks ++ [id]).Nodup ∧ (∀ k, k ∈ ks ↔ Descendant d id k) ∧
    ∀ k ∈ ks, k ∈ ids d := by
  have hlinks : (links rows).Perm (links d) := hrows.map _
  rw [getAllDescendantIds_eq] at hks
  have hmem : ∀ k, k ∈ ks ↔ Descendant d id k := fun k =>
    (Forest.mem_below hks).trans (Forest.below_perm hlinks)
  have hkeys : ((links rows).map Prod.fst).Nodup := by
    rw [(hlinks.map Prod.fst).nodup_iff, links_keys]
    exact hvalid.1
  refine ⟨List.nodup_append.mpr ⟨Forest.below_nodup hkeys hks, List.nodup_singleton id, ?_⟩,
    hmem, fun k hk => ?_⟩
  · rintro k hk _ hid rfl
    obtain rfl := List.mem_singleton.mp hid
    exact hacyclic _ ((hmem k).mp hk)
  · obtain ⟨_, _, j, hj, heq⟩ := Relation.TransGen.tail'_iff.mp ((hmem k).mp hk)
    obtain rfl := Option.some.inj heq
    obtain ⟨c, hc, rfl, _⟩ := mem_links.mp hj
    exact List.mem_map_of_mem hc

/-- A subtree of leaves that nothing holds is removed. -/
theorem whole_of_leaves (hid : id ∈ ids d)
    (hkids : ∀ c ∈ rows, c.parentId = some id → Removable d held c.id)
    (hheld : held id = false) :
    Whole d (perform d (destroyAll held (ks ++ [id]))) id := by
  obtain ⟨hnodup, hmem, hin⟩ := listed_spec hvalid hacyclic hrows hks
  have hremovable : ∀ k ∈ ks, Removable d held k := by
    intro k hk
    obtain ⟨q, ⟨j, hj, rfl⟩, hjk⟩ := Relation.TransGen.head'_iff.mp ((hmem k).mp hk)
    obtain ⟨c, hc, rfl, hparent⟩ := mem_links.mp hj
    have hc' := hkids c (hrows.mem_iff.mpr hc) hparent
    obtain heq | ⟨q, ⟨j, hj, rfl⟩, _⟩ := Relation.ReflTransGen.cases_head hjk
    · obtain rfl := Option.some.inj heq
      exact hc'
    · obtain ⟨c', hc'', _, hparent'⟩ := mem_links.mp hj
      exact absurd hparent' (hc'.2 c' hc'')
  have hpeels : Peels d held (ks ++ [id]) := by
    intro before k after heq
    have hk : k ∈ ks ++ [id] := by simp [heq]
    obtain hk | hk := List.mem_append.mp hk
    · obtain ⟨hheld, hleaf⟩ := hremovable k hk
      exact ⟨hheld, fun c hc hparent => absurd hparent (hleaf c hc)⟩
    · obtain rfl := List.mem_singleton.mp hk
      refine ⟨hheld, fun c hc hparent => .inr ?_⟩
      have hbefore : c.id ∈ ks := (hmem c.id).mpr (descendant_of_parent hc hparent)
      obtain ⟨_, rfl, _⟩ | ⟨part, rfl, hpart⟩ := List.append_eq_append_iff.mp heq
      · exact List.mem_append_left _ hbefore
      · cases part with
        | nil => simpa using hbefore
        | cons j part =>
          obtain ⟨rfl, _⟩ := List.cons.inj hpart
          exact absurd ((hmem _).mp (by simp)) (hacyclic _)
  have hall : ∀ k ∈ ks ++ [id], k ∈ ids d := by
    intro k hk
    obtain hk | hk := List.mem_append.mp hk
    · exact hin k hk
    · obtain rfl := List.mem_singleton.mp hk
      exact hid
  refine .inl fun c => ?_
  rw [perform_of_peels hvalid hnodup hall hpeels, List.mem_filter]
  simp [hmem, and_comm]

/-- A destruction that stops after its first row leaves part of the subtree, unless it is one of
leaves. -/
theorem leaves_of_whole (hc : c ∈ d) (hparent : c.parentId = some id)
    (hfirst : ks.head? = some c.id) (hremovable : Removable d held c.id)
    (h : Whole d (perform d (destroyAll held (ks ++ [id]))) id) :
    (∀ c ∈ rows, c.parentId = some id → Removable d held c.id) ∧ held id = false := by
  obtain ⟨hnodup, hmem, hin⟩ := listed_spec hvalid hacyclic hrows hks
  have hid : id ∈ ids d := hvalid.parent_mem hc hparent
  have hall : ∀ k ∈ ks ++ [id], k ∈ ids d := by
    intro k hk
    obtain hk | hk := List.mem_append.mp hk
    · exact hin k hk
    · obtain rfl := List.mem_singleton.mp hk
      exact hid
  have hgone : c ∉ perform d (destroyAll held (ks ++ [id])) := by
    obtain ⟨rest, rfl⟩ := List.head?_eq_some_iff.mp hfirst
    have hsome := (next_destroy_iff hvalid hacyclic (hin c.id (by simp))).mpr hremovable
    obtain ⟨d1, hd1⟩ := Option.isSome_iff_exists.mp hsome
    intro hc'
    simp only [List.cons_append, destroyAll, List.map_cons, perform, hd1] at hc'
    obtain ⟨_, _, _, rfl⟩ := (next_destroy hvalid).mp hd1
    exact (mem_without.mp (mem_of_perform hc')).2 rfl
  obtain hremoved | hsame := h
  · have hpeels : Peels d held (ks ++ [id]) := by
      refine peels_of_perform hvalid hnodup hall fun k hk hkept => ?_
      obtain ⟨c', hc', rfl⟩ := List.mem_map.mp hkept
      obtain ⟨_, hne, hnot⟩ := (hremoved c').mp hc'
      obtain hk | hk := List.mem_append.mp hk
      · exact hnot ((hmem c'.id).mp hk)
      · exact hne (List.mem_singleton.mp hk)
    refine ⟨fun c' hc' hparent' => ?_, (hpeels ks id [] rfl).1⟩
    rw [getAllDescendantIds_eq] at hks
    have hlink : Forest.Link (links rows) (some id) (some c'.id) :=
      ⟨c'.id, mem_links.mpr ⟨c', hc', rfl, hparent'⟩, rfl⟩
    obtain ⟨earlier, own, later, rfl, hown⟩ := Forest.below_split hks hlink
    obtain ⟨hheld, hleaf⟩ := hpeels earlier c'.id (own ++ later ++ [id]) (by simp)
    refine ⟨hheld, fun c'' hc'' hparent'' => ?_⟩
    -- a row below the child stands after it, so the child was refused
    have hbelow : c''.id ∈ own :=
      (hown c''.id).mpr (descendant_of_parent (hrows.mem_iff.mpr hc'') hparent'')
    obtain heq | hearlier := hleaf c'' hc'' hparent''
    · exact parent_ne hacyclic hc'' hparent'' heq
    · have hdisjoint := (List.nodup_append.mp (List.nodup_append.mp hnodup).1).2.2
      exact hdisjoint c''.id hearlier c''.id (by simp [hbelow]) rfl
  · rw [hsame] at hgone
    exact absurd hc hgone

/-- When a destruction is all or nothing. -/
theorem whole_iff : Whole d (perform d (destroyAll held (ks ++ [id]))) id ↔
    AllOrFirst d rows held id := by
  cases hkids : (rows.filter (·.parentId = some id)).head? with
  | none =>
    refine iff_of_true ?_ fun c hc => by simp [hkids] at hc
    have hnone : ∀ c ∈ rows, c.parentId ≠ some id := by
      simpa using List.head?_eq_none_iff.mp hkids
    by_cases hid : id ∈ ids d ∧ held id = false
    · exact whole_of_leaves hvalid hacyclic hrows hks hid.1
        (fun c hc hparent => absurd hparent (hnone c hc)) hid.2
    · have hks' : ks = [] := by
        obtain ⟨_, hmem, _⟩ := listed_spec hvalid hacyclic hrows hks
        refine List.eq_nil_iff_forall_not_mem.mpr fun k hk => ?_
        obtain ⟨q, ⟨j, hj, _⟩, _⟩ := Relation.TransGen.head'_iff.mp ((hmem k).mp hk)
        obtain ⟨c, hc, _, hparent⟩ := mem_links.mp hj
        exact hnone c (hrows.mem_iff.mpr hc) hparent
      subst hks'
      cases hnext : next d (.destroyCategoryWithID id held) with
      | none => exact .inr (by simp [destroyAll, perform, hnext])
      | some d1 =>
        obtain ⟨hin, hheld, _⟩ := (next_destroy hvalid).mp hnext
        exact absurd ⟨hin, hheld⟩ hid
  | some c =>
    have hmem := List.mem_of_head? hkids
    obtain ⟨hc, hparent⟩ := List.mem_filter.mp hmem
    have hcd := hrows.mem_iff.mp hc
    have hparent : c.parentId = some id := of_decide_eq_true hparent
    have hfirst : ks.head? = some c.id := by
      rw [getAllDescendantIds_eq] at hks
      refine Forest.below_head hks ?_
      simpa [Forest.children, links, List.filter_map, Function.comp_def] using
        congrArg (Option.map (·.id)) hkids
    by_cases hremovable : Removable d held c.id
    · constructor
      · intro h c' hc' _
        exact leaves_of_whole hvalid hacyclic hrows hks hcd hparent hfirst hremovable h
      · intro h
        obtain ⟨hkids, hheld⟩ := h c hkids hremovable
        exact whole_of_leaves hvalid hacyclic hrows hks (hvalid.parent_mem hcd hparent) hkids hheld
    · refine iff_of_true (.inr ?_) fun c' hc' hremovable' => ?_
      · obtain ⟨rest, rfl⟩ := List.head?_eq_some_iff.mp hfirst
        have hin := (listed_spec hvalid hacyclic hrows hks).2.2 c.id (by simp)
        have hnone : next d (.destroyCategoryWithID c.id held) = none := by
          simpa using (next_destroy_iff hvalid hacyclic hin).not.mpr hremovable
        simp [destroyAll, perform, hnone]
      · obtain rfl : c = c' := Option.some.inj (hkids.symm.trans hc')
        exact absurd hremovable' hremovable

end Destruction

/-- The table stays free of cycles, and every subtree stays exact, exactly if no statement gives a
category itself or one of its descendants as its parent; then a destruction is all or nothing
exactly if its first row is refused, or none of its rows has a category below it or is held. -/
theorem subtrees_exact_iff {statements : List Statement}
    (h : Run (StepOf next) [] statements d) :
    (Run.Always next Exact [] statements ↔
      Run (Guarded ParentAbove (StepOf next)) [] statements d) ∧
    (Run (Guarded ParentAbove (StepOf next)) [] statements d → ∀ rows, rows.Perm d →
      ∀ held id,
        (∃ fuel d', destroyCategory fuel rows d held id = some d' ∧ Whole d d' id) ↔
        AllOrFirst d rows held id) := by
  have hstart : Valid [] ∧ Forest.Acyclic (links []) :=
    ⟨valid_nil, fun q hq => by
      obtain ⟨_, ⟨k, hk, _⟩, _⟩ := Relation.TransGen.head'_iff.mp hq
      cases hk⟩
  constructor
  · refine Run.always_iff_guarded (I := fun d => Valid d ∧ Forest.Acyclic (links d))
      (fun d hd => exact_of_acyclic hd.1 hd.2) (fun d s d' hs hd => ?_) (fun d s d' hs hd hok => ?_)
      h hstart
    · rw [exact_iff_acyclic (valid_next hs)]
      exact acyclic_next hs hd.1 hd.2
    · exact ⟨valid_next hs, (acyclic_next hs hd.1 hd.2).mpr hok⟩
  · intro hguarded rows hrows held id
    have hinv : Valid d ∧ Forest.Acyclic (links d) := by
      refine hguarded.preserves (I := fun d => Valid d ∧ Forest.Acyclic (links d)) ?_ hstart
      intro d s d' hs hd
      exact ⟨valid_next hs.2, (acyclic_next hs.2 hd.1 hd.2).mpr hs.1⟩
    obtain ⟨fuel, ks, hks, _⟩ := (exact_of_acyclic hinv.1 hinv.2).descendants rows hrows id
    have hiff : Whole d _ id ↔ AllOrFirst d rows held id := whole_iff hinv.1 hinv.2 hrows hks
    rw [← hiff]
    constructor
    · rintro ⟨fuel', d', hd', hwhole⟩
      obtain ⟨ks', hks', rfl⟩ := Option.map_eq_some_iff.mp hd'
      rw [getAllDescendantIds_eq] at hks hks'
      obtain rfl := Forest.below_unique hks hks'
      exact hwhole
    · exact fun hwhole => ⟨fuel, _, by rw [destroyCategory, hks]; rfl, hwhole⟩

namespace Sample

def category (id : Int) (parentId : Option Int) : Statement :=
  .insertCategory id { name := some "Art".toList, parentId := some parentId }

/-- A category and one below it, then the first is moved below the second. -/
def crossed : List Statement :=
  [category 1 none, category 2 (some 1), .updateCategoryWithID 1 { parentId := some (some 2) }]

/-- A category with a leaf and with a category that has another below it. -/
def uneven : List Statement :=
  [category 1 none, category 2 (some 1), category 3 (some 1), category 4 (some 3)]

/-- The same table without the lowest category. -/
def leaves : List Statement := uneven ++ [.destroyCategoryWithID 4 fun _ => false]

end Sample

theorem subtrees_exact_leaves :
    Run (StepOf next) [] Sample.leaves (Run.final next [] Sample.leaves) ∧
    ((Run.Always next Exact [] Sample.leaves ↔
      Run (Guarded ParentAbove (StepOf next)) [] Sample.leaves
        (Run.final next [] Sample.leaves)) ∧
    (Run (Guarded ParentAbove (StepOf next)) [] Sample.leaves (Run.final next [] Sample.leaves) →
      ∀ rows, rows.Perm (Run.final next [] Sample.leaves) → ∀ held id,
        (∃ fuel d', destroyCategory fuel rows (Run.final next [] Sample.leaves) held id =
          some d' ∧
          Whole (Run.final next [] Sample.leaves) d' id) ↔
        AllOrFirst (Run.final next [] Sample.leaves) rows held id)) :=
  ⟨Run.to_final (by decide), subtrees_exact_iff (Run.to_final (by decide))⟩

/-- An edit closes a cycle, below which no listing ends; and a subtree loses its leaf before its
next row is refused. -/
theorem subtree_torn :
    (∃ d, Run (StepOf next) [] Sample.crossed d ∧
      ∀ fuel, getAllDescendantIds fuel d 1 = none) ∧
    ∃ d d', Run (StepOf next) [] Sample.uneven d ∧
      destroyCategory 4 d d (fun _ => false) 1 = some d' ∧ ¬ Whole d d' 1 := by
  refine ⟨⟨Run.final next [] Sample.crossed, Run.to_final (by decide), fun fuel => ?_⟩,
    Run.final next [] Sample.uneven, (Run.final next [] Sample.uneven).filter (·.id ≠ 2),
    Run.to_final (by decide), by decide, ?_⟩
  · rw [getAllDescendantIds_eq]
    refine Forest.below_eq_none .refl (.head (b := some 2) ?_ (.single ?_)) fuel
    · exact ⟨2, by decide, rfl⟩
    · exact ⟨1, by decide, rfl⟩
  · rintro (hremoved | hsame)
    · have hroot := (hremoved { id := 1, name := "Art".toList }).mp (by decide)
      exact hroot.2.1 rfl
    · exact absurd hsame (by decide)

end MiracleAuction.Categories
