import Mathlib.Logic.Relation
import Mathlib.Data.List.Nodup
import Mathlib.Data.List.Chain
import Mathlib.Data.List.Perm.Subperm

/-!
# Parent links

Rows that name a parent row, or none for a root, and the listing of the keys below a key by
recursion over the rows. The listing ends exactly where the links below the key have no cycle, and
then it holds each key below it once.
-/
namespace Forest
open Relation

variable {κ : Type*} {links links' : List (κ × Option κ)} {p q r : Option κ} {k k' : κ}
  {n m : Nat} {ks : List κ}

/-- `q` is the key of a row whose parent is `p`. -/
def Link (links : List (κ × Option κ)) (p q : Option κ) : Prop :=
  ∃ k, (k, p) ∈ links ∧ q = some k

/-- `q` is below `p`, at any depth. -/
def Below (links : List (κ × Option κ)) : Option κ → Option κ → Prop :=
  TransGen (Link links)

/-- No key is below itself. -/
def Acyclic (links : List (κ × Option κ)) : Prop := ∀ q, ¬ Below links q q

def children [DecidableEq κ] (links : List (κ × Option κ)) (p : Option κ) : List κ :=
  (links.filter fun l => l.2 = p).map Prod.fst

/-- The keys, each followed by those that `f` lists for it. -/
def collect (f : κ → Option (List κ)) : List κ → Option (List κ)
  | [] => some []
  | k :: ks => do
    let own ← f k
    let others ← collect f ks
    return k :: own ++ others

/-- The keys below `p`, down to `n` levels: none where there is a key on level `n`. -/
def below [DecidableEq κ] (links : List (κ × Option κ)) : Nat → Option κ → Option (List κ)
  | 0, _ => none
  | n + 1, p => collect (fun k => below links n (some k)) (children links p)

/-- One more link. -/
def Extended {α : Type*} (R : α → α → Prop) (a b x y : α) : Prop :=
  R x y ∨ x = a ∧ y = b

section Extended
variable {α : Type*} {R : α → α → Prop} {a b x y : α}

theorem extended_transGen (h : TransGen (Extended R a b) x y) :
    TransGen R x y ∨ ReflTransGen R x a ∧ ReflTransGen (Extended R a b) b y := by
  induction h with
  | single h =>
    obtain h | ⟨rfl, rfl⟩ := h
    · exact .inl (.single h)
    · exact .inr ⟨.refl, .refl⟩
  | tail _ h ih =>
    obtain ih | ⟨hxa, hby⟩ := ih
    · obtain h | ⟨rfl, rfl⟩ := h
      · exact .inl (ih.tail h)
      · exact .inr ⟨ih.to_reflTransGen, .refl⟩
    · exact .inr ⟨hxa, hby.tail h⟩

/-- One more link closes a cycle exactly if it leads back up. -/
theorem extended_acyclic (hR : ∀ x, ¬ TransGen R x x) :
    (∀ x, ¬ TransGen (Extended R a b) x x) ↔ ¬ ReflTransGen R b a := by
  have hle : ∀ x y, R x y → Extended R a b x y := fun x y h => .inl h
  constructor
  · intro h hba
    exact h a (TransGen.head' (.inr ⟨rfl, rfl⟩) (ReflTransGen.mono hle _ _ hba))
  · intro h x hcycle
    have hpath : ∀ y, ReflTransGen (Extended R a b) b y → ReflTransGen R b y := by
      intro y hy
      obtain rfl | hy := reflTransGen_iff_eq_or_transGen.mp hy
      · exact .refl
      · obtain hy | ⟨hba, _⟩ := extended_transGen hy
        · exact hy.to_reflTransGen
        · exact absurd hba h
    obtain hx | ⟨hxa, hbx⟩ := extended_transGen hcycle
    · exact hR x hx
    · exact h ((hpath x hbx).trans hxa)

end Extended

theorem link_mono (hsub : ∀ l ∈ links, l ∈ links') (h : Link links p q) :
    Link links' p q := by
  obtain ⟨k, hk, rfl⟩ := h
  exact ⟨k, hsub _ hk, rfl⟩

theorem below_mono (hsub : ∀ l ∈ links, l ∈ links') (h : Below links p q) :
    Below links' p q :=
  TransGen.mono (fun _ _ => link_mono hsub) _ _ h

theorem acyclic_mono (hsub : ∀ l ∈ links, l ∈ links') (h : Acyclic links') : Acyclic links :=
  fun q hq => h q (below_mono hsub hq)

/-- The links matter, not their order. -/
theorem below_perm (h : links.Perm links') : Below links p q ↔ Below links' p q :=
  ⟨below_mono fun _ => h.mem_iff.mp, below_mono fun _ => h.mem_iff.mpr⟩

theorem acyclic_perm (h : links.Perm links') : Acyclic links ↔ Acyclic links' :=
  ⟨acyclic_mono fun _ => h.mem_iff.mpr, acyclic_mono fun _ => h.mem_iff.mp⟩

theorem link_cons : Link ((k, p) :: links) = Extended (Link links) p (some k) := by
  ext q r
  constructor
  · rintro ⟨j, hj, rfl⟩
    obtain heq | hj := List.mem_cons.mp hj
    · obtain ⟨rfl, rfl⟩ := Prod.mk.inj heq
      exact .inr ⟨rfl, rfl⟩
    · exact .inl ⟨j, hj, rfl⟩
  · rintro (⟨j, hj, rfl⟩ | ⟨rfl, rfl⟩)
    · exact ⟨j, List.mem_cons_of_mem _ hj, rfl⟩
    · exact ⟨k, List.mem_cons_self, rfl⟩

theorem not_below_none : ¬ Below links p none := by
  intro h
  obtain ⟨q, _, k, _, heq⟩ := TransGen.tail'_iff.mp h
  cases heq

/-- One more row closes a cycle exactly if its parent is itself or below it. -/
theorem acyclic_cons (hacyclic : Acyclic links) :
    Acyclic ((k, p) :: links) ↔ p ≠ some k ∧ ¬ Below links (some k) p := by
  unfold Acyclic Below
  rw [link_cons, extended_acyclic hacyclic, reflTransGen_iff_eq_or_transGen, not_or]

/-- What is below a key does not depend on its own parent. -/
theorem below_cons_self (hacyclic : Acyclic ((k, p) :: links)) :
    Below ((k, p) :: links) (some k) q ↔ Below links (some k) q := by
  constructor
  · intro h
    unfold Below at h
    rw [link_cons] at h
    obtain h | ⟨hup, _⟩ := extended_transGen h
    · exact h
    · have hlink : Link ((k, p) :: links) p (some k) := ⟨k, List.mem_cons_self, rfl⟩
      have hmono : ∀ q r, Link links q r → Link ((k, p) :: links) q r :=
        fun _ _ => link_mono fun _ => List.mem_cons_of_mem _
      exact absurd (TransGen.tail' (ReflTransGen.mono hmono _ _ hup) hlink) (hacyclic (some k))
  · exact below_mono fun _ => List.mem_cons_of_mem _

theorem link_unique (hkeys : (links.map Prod.fst).Nodup) (hp : Link links p r)
    (hq : Link links q r) : p = q := by
  obtain ⟨k, hk, rfl⟩ := hp
  obtain ⟨k', hk', heq⟩ := hq
  obtain rfl : k = k' := Option.some.inj heq
  exact congrArg Prod.snd (List.inj_on_of_nodup_map hkeys hk hk' rfl)

/-- Two keys above one key are above one another. -/
theorem above_total (hkeys : (links.map Prod.fst).Nodup) (hp : ReflTransGen (Link links) p r)
    (hq : ReflTransGen (Link links) q r) :
    ReflTransGen (Link links) p q ∨ ReflTransGen (Link links) q p := by
  induction hp with
  | refl => exact .inr hq
  | tail hpu hur ih =>
    obtain rfl | ⟨v, hqv, hv⟩ := ReflTransGen.cases_tail hq
    · exact .inl (hpu.tail hur)
    · obtain rfl := link_unique hkeys hur hv
      exact ih hqv

/-- Of two keys with one parent, none is below the other, unless the parent is on a cycle. -/
theorem sibling_not_below (hkeys : (links.map Prod.fst).Nodup) (hk : Link links p q)
    (hk' : Link links p r) (hne : q ≠ r) (hacyclic : ¬ Below links p p) :
    ¬ ReflTransGen (Link links) q r := by
  intro hqr
  obtain rfl | ⟨u, hqu, hur⟩ := ReflTransGen.cases_tail hqr
  · exact hne rfl
  · obtain rfl := link_unique hkeys hk' hur
    exact hacyclic (TransGen.head' hk hqu)

/-- A path without a cycle is no longer than the table. -/
theorem path_length_le {path : List κ} (hpath : List.IsChain (Link links) (p :: path.map some))
    (hacyclic : ∀ q, Below links p q → ¬ Below links q q) : path.length ≤ links.length := by
  have hpairwise : (p :: path.map some).Pairwise (Below links) := by
    have htrans : IsTrans (Option κ) (Below links) := ⟨fun _ _ _ => TransGen.trans⟩
    exact List.isChain_iff_pairwise.mp (hpath.imp fun _ _ h => TransGen.single h)
  obtain ⟨hbelow, hpairwise⟩ := List.pairwise_cons.mp hpairwise
  have hnodup : path.Nodup := by
    refine (List.pairwise_map.mp hpairwise).imp_of_mem ?_
    rintro a b ha _ hab rfl
    exact hacyclic (some a) (hbelow _ (List.mem_map_of_mem ha)) hab
  have hsub : path ⊆ links.map Prod.fst := by
    intro k hk
    obtain ⟨q, _, k', hk', heq⟩ := TransGen.tail'_iff.mp (hbelow _ (List.mem_map_of_mem hk))
    obtain rfl : k = k' := Option.some.inj heq
    exact List.mem_map_of_mem hk'
  calc path.length ≤ (links.map Prod.fst).length := (hnodup.subperm hsub).length_le
    _ = links.length := List.length_map _

section Collect
variable {f g : κ → Option (List κ)}

theorem collect_cons (hk : f k = some ks) {others : List κ} {rest : List κ}
    (hrest : collect f rest = some others) : collect f (k :: rest) = some (k :: ks ++ others) := by
  simp [collect, hk, hrest]

/-- What a listing consists of. -/
theorem collect_cons_eq {rest all : List κ} (h : collect f (k :: rest) = some all) :
    ∃ own others, f k = some own ∧ collect f rest = some others ∧
      all = k :: own ++ others := by
  simp only [collect, Option.bind_eq_bind, Option.bind_eq_some_iff, Option.pure_def,
    Option.some.injEq] at h
  obtain ⟨own, hown, others, hothers, rfl⟩ := h
  exact ⟨own, others, hown, hothers, rfl⟩

theorem collect_congr {roots all : List κ} (h : collect f roots = some all)
    (hfg : ∀ k ks, f k = some ks → g k = some ks) : collect g roots = some all := by
  induction roots generalizing all with
  | nil => exact h
  | cons k rest ih =>
    obtain ⟨own, others, hown, hothers, rfl⟩ := collect_cons_eq h
    exact collect_cons (hfg k own hown) (ih hothers)

theorem collect_none {roots : List κ} (hk : k ∈ roots) (h : f k = none) :
    collect f roots = none := by
  induction roots with
  | nil => cases hk
  | cons j rest ih =>
    cases hall : collect f (j :: rest) with
    | none => rfl
    | some all =>
      obtain ⟨own, others, hown, hothers, rfl⟩ := collect_cons_eq hall
      obtain rfl | hk := List.mem_cons.mp hk
      · simp [h] at hown
      · simp [ih hk] at hothers

/-- A listing is missing only if that of one of the keys is. -/
theorem exists_of_collect_none {roots : List κ} (h : collect f roots = none) :
    ∃ k ∈ roots, f k = none := by
  induction roots with
  | nil => cases h
  | cons k rest ih =>
    cases hk : f k with
    | none => exact ⟨k, List.mem_cons_self, hk⟩
    | some own =>
      cases hrest : collect f rest with
      | none =>
        obtain ⟨j, hj, hnone⟩ := ih hrest
        exact ⟨j, List.mem_cons_of_mem k hj, hnone⟩
      | some others => simp [collect_cons hk hrest] at h

theorem mem_collect {roots all : List κ} (h : collect f roots = some all) :
    k' ∈ all ↔ ∃ k ∈ roots, k' = k ∨ ∃ own, f k = some own ∧ k' ∈ own := by
  induction roots generalizing all with
  | nil =>
    obtain rfl : [] = all := Option.some.inj h
    simp
  | cons k rest ih =>
    obtain ⟨own, others, hown, hothers, rfl⟩ := collect_cons_eq h
    simp [ih hothers, hown, or_assoc]

theorem collect_split {roots all : List κ} (h : collect f roots = some all) (hk : k ∈ roots) :
    ∃ earlier own later, f k = some own ∧ all = earlier ++ k :: (own ++ later) := by
  induction roots generalizing all with
  | nil => cases hk
  | cons j rest ih =>
    obtain ⟨own, others, hown, hothers, rfl⟩ := collect_cons_eq h
    obtain rfl | hk := List.mem_cons.mp hk
    · exact ⟨[], own, others, hown, rfl⟩
    · obtain ⟨earlier, own', later, hown', rfl⟩ := ih hothers hk
      exact ⟨j :: own ++ earlier, own', later, hown', by simp⟩

end Collect

/-- The listing of some keys of one parent, where each of their own listings is without
repetition. -/
theorem collect_nodup (hkeys : (links.map Prod.fst).Nodup) (hacyclic : ¬ Below links p p)
    {f : κ → Option (List κ)} {roots all : List κ} (hroots : roots.Nodup)
    (hlink : ∀ k ∈ roots, Link links p (some k))
    (hown : ∀ k ∈ roots, ∀ own, f k = some own → own.Nodup ∧ k ∉ own ∧
      ∀ j ∈ own, ReflTransGen (Link links) (some k) (some j))
    (h : collect f roots = some all) : all.Nodup := by
  induction roots generalizing all with
  | nil =>
    obtain rfl : [] = all := Option.some.inj h
    exact List.nodup_nil
  | cons k rest ih =>
    obtain ⟨own, others, hk, hothers, rfl⟩ := collect_cons_eq h
    obtain ⟨hnotin, hrest⟩ := List.nodup_cons.mp hroots
    obtain ⟨hnodup, hself, hup⟩ := hown k List.mem_cons_self own hk
    have hothers' := ih hrest (fun j hj => hlink j (List.mem_cons_of_mem k hj))
      (fun j hj => hown j (List.mem_cons_of_mem k hj)) hothers
    have hfirst : (k :: own).Nodup := List.nodup_cons.mpr ⟨hself, hnodup⟩
    refine List.nodup_append.mpr ⟨hfirst, hothers', ?_⟩
    rintro x hx _ hx' rfl
    have hkx : ReflTransGen (Link links) (some k) (some x) := by
      obtain rfl | hx := List.mem_cons.mp hx
      · exact .refl
      · exact hup x hx
    obtain ⟨j, hj, hjx⟩ := (mem_collect hothers).mp hx'
    have hjx : ReflTransGen (Link links) (some j) (some x) := by
      obtain rfl | ⟨own', hown', hx'⟩ := hjx
      · exact .refl
      · exact (hown j (List.mem_cons_of_mem k hj) own' hown').2.2 x hx'
    have hne : some k ≠ some j := by
      intro heq
      exact hnotin (Option.some.inj heq ▸ hj)
    have hk := hlink k List.mem_cons_self
    have hj := hlink j (List.mem_cons_of_mem k hj)
    obtain hkj | hjk := above_total hkeys hkx hjx
    · exact sibling_not_below hkeys hk hj hne hacyclic hkj
    · exact sibling_not_below hkeys hj hk hne.symm hacyclic hjk

section Listing
variable [DecidableEq κ]

theorem mem_children : k ∈ children links p ↔ Link links p (some k) := by
  simp [children, Link]

theorem children_cons_of_eq {l : κ × Option κ} (h : l.2 = p) :
    children (l :: links) p = l.1 :: children links p := by
  simp [children, h]

theorem children_cons_of_ne {l : κ × Option κ} (h : l.2 ≠ p) :
    children (l :: links) p = children links p := by
  simp [children, h]

theorem below_succ (h : below links n p = some ks) : below links (n + 1) p = some ks := by
  induction n generalizing p ks with
  | zero => cases h
  | succ n ih => exact collect_congr h fun k ks hk => ih hk

theorem below_le (hnm : n ≤ m) (h : below links n p = some ks) : below links m p = some ks := by
  induction m, hnm using Nat.le_induction with
  | base => exact h
  | succ m _ ih => exact below_succ ih

/-- The listing does not depend on the depth that was allowed. -/
theorem below_unique {ks' : List κ} (h : below links n p = some ks)
    (h' : below links m p = some ks') : ks = ks' := by
  have hle := below_le (Nat.le_max_left n m) h
  have hle' := below_le (Nat.le_max_right n m) h'
  exact Option.some.inj (hle.symm.trans hle')

theorem mem_below (h : below links n p = some ks) : k ∈ ks ↔ Below links p (some k) := by
  induction n generalizing p ks with
  | zero => cases h
  | succ n ih =>
    rw [mem_collect h, Below, TransGen.head'_iff]
    constructor
    · rintro ⟨j, hj, rfl | ⟨own, hown, hk⟩⟩
      · exact ⟨some k, mem_children.mp hj, .refl⟩
      · exact ⟨some j, mem_children.mp hj, ((ih hown).mp hk).to_reflTransGen⟩
    · rintro ⟨q, hq, hk⟩
      obtain ⟨j, hj, rfl⟩ := hq
      have hchild : j ∈ children links p := mem_children.mpr ⟨j, hj, rfl⟩
      refine ⟨j, hchild, ?_⟩
      obtain heq | hk := reflTransGen_iff_eq_or_transGen.mp hk
      · exact .inl (Option.some.inj heq)
      · cases hown : below links n (some j) with
        | none =>
          have hnone := collect_none (f := fun k => below links n (some k)) hchild hown
          exact absurd (hnone.symm.trans h) (by simp)
        | some own => exact .inr ⟨own, rfl, (ih hown).mpr hk⟩

/-- Below a key with a cycle below it, no depth is enough. -/
theorem below_eq_none (hq : ReflTransGen (Link links) p q) (hcycle : Below links q q) (n : Nat) :
    below links n p = none := by
  induction n generalizing p with
  | zero => rfl
  | succ n ih =>
    have hstep : ∃ r, Link links p r ∧ ReflTransGen (Link links) r q := by
      obtain rfl | ⟨r, hr, hrq⟩ := ReflTransGen.cases_head hq
      · exact TransGen.head'_iff.mp hcycle
      · exact ⟨r, hr, hrq⟩
    obtain ⟨r, ⟨k, hk, rfl⟩, hrq⟩ := hstep
    exact collect_none (mem_children.mpr ⟨k, hk, rfl⟩) (ih hrq)

/-- Where a depth is not enough, a path is that long. -/
theorem path_of_below_none (h : below links n p = none) :
    ∃ path : List κ, path.length = n ∧ List.IsChain (Link links) (p :: path.map some) := by
  induction n generalizing p with
  | zero => exact ⟨[], rfl, .singleton p⟩
  | succ n ih =>
    obtain ⟨k, hk, hnone⟩ := exists_of_collect_none h
    obtain ⟨path, hlength, hpath⟩ := ih hnone
    exact ⟨k :: path, by simp [hlength], .cons_cons (mem_children.mp hk) hpath⟩

/-- A child stands before everything below it. -/
theorem below_split (h : below links n p = some ks) (hk : Link links p (some k)) :
    ∃ earlier own later, ks = earlier ++ k :: (own ++ later) ∧
      ∀ j, j ∈ own ↔ Below links (some k) (some j) := by
  cases n with
  | zero => cases h
  | succ n =>
    obtain ⟨earlier, own, later, hown, hks⟩ := collect_split h (mem_children.mpr hk)
    exact ⟨earlier, own, later, hks, fun j => mem_below hown⟩

/-- The listing starts with the first child. -/
theorem below_head (h : below links n p = some ks) (hp : (children links p).head? = some k) :
    ks.head? = some k := by
  cases n with
  | zero => cases h
  | succ n =>
    obtain ⟨rest, hrest⟩ := List.head?_eq_some_iff.mp hp
    rw [below, hrest] at h
    obtain ⟨own, others, _, _, rfl⟩ := collect_cons_eq h
    rfl

/-- The listing ends exactly where there is no cycle below the key. -/
theorem below_isSome_iff : (∃ n ks, below links n p = some ks) ↔
    ∀ q, ReflTransGen (Link links) p q → ¬ Below links q q := by
  constructor
  · rintro ⟨n, ks, h⟩ q hq hcycle
    simp [below_eq_none hq hcycle n] at h
  · intro h
    refine ⟨links.length + 1, Option.isSome_iff_exists.mp ?_⟩
    rw [Option.isSome_iff_ne_none]
    intro hnone
    obtain ⟨path, hlength, hpath⟩ := path_of_below_none hnone
    have hle := path_length_le hpath fun q hq => h q hq.to_reflTransGen
    omega

theorem children_nodup (hkeys : (links.map Prod.fst).Nodup) : (children links p).Nodup :=
  (List.filter_sublist.map Prod.fst).nodup hkeys

/-- The listing repeats no key. -/
theorem below_nodup (hkeys : (links.map Prod.fst).Nodup) (h : below links n p = some ks) :
    ks.Nodup := by
  induction n generalizing p ks with
  | zero => cases h
  | succ n ih =>
    have hends := below_isSome_iff.mp ⟨n + 1, ks, h⟩
    refine collect_nodup hkeys (hends p .refl) (children_nodup hkeys)
      (fun k hk => mem_children.mp hk) (fun k hk own hown => ⟨ih hown, ?_, ?_⟩) h
    · intro hself
      exact hends (some k) (.single (mem_children.mp hk)) ((mem_below hown).mp hself)
    · intro j hj
      exact ((mem_below hown).mp hj).to_reflTransGen

end Listing
end Forest
