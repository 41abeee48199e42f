import MiracleAuction.Base.Numeral
import MiracleAuction.Base.Queries
import MiracleAuction.Messaging.Envelope

/-!
# `product.repository.ts`: the catalog

The query of `getProductsCatalogList`, and the pages that `getProductsPageList` makes of it.
-/
namespace MiracleAuction.Products
open Decimal Numeral

/-- A row of `products`; times in milliseconds. -/
structure Product where
  productId : Int
  productName : Option Text := none
  description : Option Text := none
  currentPrice : Option Int := none
  buyNowPrice : Option Int := none
  priceOwnerId : Option Int := none
  bidTurns : Option Int := none
  cat2Id : Option Int := none
  createdAt : Int
  endTime : Option Int := none
  isRemoved : Option Bool := some false
  deriving DecidableEq

structure CatalogTables where
  products : List Product
  /-- The id and the parent of each category. -/
  categories : List (Int × Option Int)
  usernames : Int → Option Text

inductive CatalogStatus
  | active
  | buyNow
  | ended
  | all
  deriving DecidableEq, Repr

inductive SortBy
  | relevance
  | priceAsc
  | priceDesc
  | timeAsc
  | timeDesc
  | createdDesc
  | bidsDesc
  deriving DecidableEq, Repr

inductive Direction
  | asc
  | desc
  deriving DecidableEq, Repr

/-- `ProductCatalogFilterOptions`, but for the page. -/
structure CatalogOptions where
  cat1Id : Option Int := none
  cat2Id : Option Int := none
  search : Option Text := none
  minPrice : Option ℚ := none
  maxPrice : Option ℚ := none
  status : Option CatalogStatus := none
  sortBy : Option SortBy := none
  limit : Nat
  legacyPrice : Option Direction := none
  legacyTime : Option Direction := none

/-- The functions and operators of PostgreSQL on texts: `remove_accents`, `@@` with
`websearch_to_tsquery`, `ts_rank_cd`, `ILIKE`, `<%` and `word_similarity`. -/
structure TextSearch where
  removeAccents : Text → Text
  matchesQuery : Product → Text → Bool
  rank : Product → Text → ℚ
  ilike : Text → Text → Bool
  similar : Text → Text → Bool
  similarity : Text → Text → ℚ

/-! ## The query -/

/-- The length in UTF-16. -/
def utf16Length (text : Text) : Nat :=
  (text.map fun c => if c.toNat < 0x10000 then 1 else 2).sum

/-- `searchTerm`. -/
def CatalogOptions.searchTerm (options : CatalogOptions) : Option Text :=
  (options.search.map Messaging.trim).filter (· ≠ [])

namespace TextSearch
variable (pg : TextSearch)

def normalizedName (product : Product) : Text := pg.removeAccents (product.productName.getD [])

def pattern (before : Text) (term : Text) (after : Text) : Text :=
  before ++ pg.removeAccents term ++ after

/-- `searchClauses`. -/
def finds (term : Text) (product : Product) : Bool :=
  pg.matchesQuery product (pg.removeAccents term) ||
    pg.ilike (pg.normalizedName product) (pg.pattern ['%'] term ['%']) ||
    decide (3 ≤ utf16Length term) &&
      pg.similar (pg.removeAccents term) (pg.normalizedName product)

/-- The sum by which `relevance` sorts. The `CASE`s are integers; the product and the sums with a
`real` are in double precision. -/
def relevance (term : Text) (product : Product) : ℚ :=
  let name := pg.normalizedName product
  let textRank :=
    double ((if name = pg.removeAccents term then 10 else 0) +
      (if pg.ilike name (pg.pattern [] term ['%']) then 5 else 0) +
      (if pg.ilike name (pg.pattern ['%'] term ['%']) then 2 else 0) +
      double (4 * pg.rank product (pg.removeAccents term)))
  if 3 ≤ utf16Length term then double (textRank + pg.similarity (pg.removeAccents term) name)
  else textRank

end TextSearch

/-- The condition on the end time and the price of `whereClauses`; a comparison with `NULL` does not
hold. -/
def CatalogStatus.holds (now : Int) (product : Product) : CatalogStatus → Bool
  | .active => product.endTime.any (now < ·)
  | .buyNow => product.buyNowPrice.any (0 < ·) && product.endTime.any (now < ·)
  | .ended => product.endTime.any (· ≤ now)
  | .all => true

/-- The condition on the category; the id 0 is none. -/
def CatalogOptions.inCategory (options : CatalogOptions) (d : CatalogTables) (product : Product) :
    Bool :=
  match options.cat2Id.filter (· ≠ 0), options.cat1Id.filter (· ≠ 0) with
  | some cat2Id, _ => product.cat2Id = some cat2Id
  | none, some cat1Id =>
    product.cat2Id.any fun id => d.categories.any fun (child, parent) =>
      child = id ∧ parent = some cat1Id
  | none, none => true

/-- `whereClauses`. -/
def CatalogOptions.selects (options : CatalogOptions) (pg : TextSearch) (d : CatalogTables)
    (now : Int) (product : Product) : Bool :=
  decide (product.isRemoved = some false) && options.inCategory d product &&
    (options.minPrice.all fun minimum => product.currentPrice.any fun price =>
      minimum ≤ (price : ℚ)) &&
    (options.maxPrice.all fun maximum => product.currentPrice.any fun price =>
      (price : ℚ) ≤ maximum) &&
    (options.status.all (·.holds now product)) &&
    (options.searchTerm.all (pg.finds · product))

/-- `orderByClause`. -/
inductive OrderByClause
  | relevance (term : Text)
  | currentPrice (direction : Direction)
  | endTime (direction : Direction)
  | createdAtDesc
  | bidTurnsDesc

def CatalogOptions.orderByClause (options : CatalogOptions) : OrderByClause :=
  match options.searchTerm, options.sortBy with
  | some term, some .relevance => .relevance term
  | _, sortBy =>
    if sortBy = some .priceAsc ∨ options.legacyPrice = some .asc then .currentPrice .asc
    else if sortBy = some .priceDesc ∨ options.legacyPrice = some .desc then .currentPrice .desc
    else if sortBy = some .timeAsc ∨ options.legacyTime = some .asc then .endTime .asc
    else if sortBy = some .timeDesc ∨ options.legacyTime = some .desc then .endTime .desc
    else if sortBy = some .createdDesc then .createdAtDesc
    else if sortBy = some .bidsDesc then .bidTurnsDesc
    else .endTime .asc

/-- `NULL` is greater than every value. -/
def sortKey (column : Option Int) : WithTop Int := column

def Direction.le (x y : WithTop Int) : Direction → Prop
  | .asc => x ≤ y
  | .desc => y ≤ x

/-- The first product may stand before the second one. -/
def OrderByClause.Before (pg : TextSearch) (a b : Product) : OrderByClause → Prop
  | .relevance term =>
    pg.relevance term b < pg.relevance term a ∨
      pg.relevance term a = pg.relevance term b ∧ sortKey a.endTime ≤ sortKey b.endTime
  | .currentPrice direction => direction.le (sortKey a.currentPrice) (sortKey b.currentPrice)
  | .endTime direction => direction.le (sortKey a.endTime) (sortKey b.endTime)
  | .createdAtDesc => b.createdAt ≤ a.createdAt
  | .bidTurnsDesc => b.bidTurns.getD 0 ≤ a.bidTurns.getD 0

/-! ## The pages -/

/-- A row of the answer. -/
structure CatalogRow where
  product : Product
  priceOwnerUsername : Option Text
  totalCount : Nat

/-- The products that match the filter. -/
def CatalogOptions.matching (options : CatalogOptions) (pg : TextSearch) (d : CatalogTables)
    (now : Int) : List Product :=
  d.products.filter (options.selects pg d now)

/-- What `getProductsCatalogList` may return. -/
def GetProductsCatalogList (pg : TextSearch) (d : CatalogTables) (now : Int)
    (options : CatalogOptions) (limit offset : Nat) (rows : List CatalogRow) : Prop :=
  ∃ page, Paging.Answers (fun a b => options.orderByClause.Before pg a b)
      (options.matching pg d now) limit offset page ∧
    rows = page.map fun product => {
      product
      priceOwnerUsername := product.priceOwnerId.bind d.usernames
      totalCount := (options.matching pg d now).length }

structure ProductsPage where
  data : List CatalogRow
  numberOfPages : Nat
  quantity : Nat

/-- `ITEMS_PER_PAGE`. -/
def itemsPerPage : Nat := 6

/-- `options.limit || ITEMS_PER_PAGE`. -/
def CatalogOptions.pageLimit (options : CatalogOptions) : Nat :=
  if options.limit = 0 then itemsPerPage else options.limit

def productsPage (limit : Nat) (results : List CatalogRow) : ProductsPage :=
  let totalCount := (results.head?.map (·.totalCount)).getD 0
  { data := results
    numberOfPages := if 0 < totalCount then Paging.pageCount totalCount limit else 0
    quantity := totalCount }

/-- What `getProductsPageList` may return for a page; the first one is 1. -/
def GetProductsPageList (pg : TextSearch) (d : CatalogTables) (now : Int) (options : CatalogOptions)
    (page : Nat) (reply : ProductsPage) : Prop :=
  ∃ results, GetProductsCatalogList pg d now options options.pageLimit
      ((page - 1) * options.pageLimit) results ∧ reply = productsPage options.pageLimit results

/-- Replies for the pages `1` to `numberOfPages`, which the first reply tells; each request has a
clock of its own. -/
def Replies (pg : TextSearch) (d : CatalogTables) (now : Nat → Int) (options : CatalogOptions)
    (replies : Nat → ProductsPage) : Prop :=
  GetProductsPageList pg d (now 1) options 1 (replies 1) ∧
    ∀ i < (replies 1).numberOfPages,
      GetProductsPageList pg d (now (i + 1)) options (i + 1) (replies (i + 1))

/-- The products of these pages, one page after the other. -/
def listed (replies : Nat → ProductsPage) : List Product :=
  Paging.concat (fun i => (replies (i + 1)).data.map (·.product)) (replies 1).numberOfPages

section
variable {pg : TextSearch} {d : CatalogTables} {now : Int} {clocks : Nat → Int}
  {options : CatalogOptions} {page : List Product} {replies : Nat → ProductsPage}
  {reply : ProductsPage} {i : Nat}

theorem pageLimit_pos (options : CatalogOptions) : 0 < options.pageLimit := by
  unfold CatalogOptions.pageLimit itemsPerPage
  split <;> omega

theorem before_refl (clause : OrderByClause) (a : Product) : clause.Before pg a a := by
  cases clause with
  | relevance term => exact .inr ⟨rfl, le_rfl⟩
  | currentPrice direction | endTime direction => cases direction <;> exact le_rfl
  | createdAtDesc | bidTurnsDesc => exact Int.le_refl _

theorem before_trans (clause : OrderByClause) (a b c : Product) (hab : clause.Before pg a b)
    (hbc : clause.Before pg b c) : clause.Before pg a c := by
  cases clause with
  | relevance term =>
    obtain hab | ⟨hab, hab'⟩ := hab
    · obtain hbc | ⟨hbc, _⟩ := hbc
      · exact .inl (hbc.trans hab)
      · exact .inl (hbc ▸ hab)
    · obtain hbc | ⟨hbc, hbc'⟩ := hbc
      · exact .inl (hab ▸ hbc)
      · exact .inr ⟨hab.trans hbc, hab'.trans hbc'⟩
  | currentPrice direction | endTime direction =>
    cases direction with
    | asc => exact hab.trans hbc
    | desc => exact hbc.trans hab
  | createdAtDesc | bidTurnsDesc => exact hbc.trans hab

/-- A reply holds the products of one answer of the query. -/
theorem reply_iff :
    GetProductsPageList pg d now options (i + 1) reply ↔
      ∃ page, Paging.Answers (fun a b => options.orderByClause.Before pg a b)
          (options.matching pg d now) options.pageLimit (i * options.pageLimit) page ∧
        reply = productsPage options.pageLimit (page.map fun product => {
          product
          priceOwnerUsername := product.priceOwnerId.bind d.usernames
          totalCount := (options.matching pg d now).length }) := by
  constructor
  · rintro ⟨_, ⟨page, hpage, rfl⟩, rfl⟩
    exact ⟨page, hpage, rfl⟩
  · rintro ⟨page, hpage, rfl⟩
    exact ⟨_, ⟨page, hpage, rfl⟩, rfl⟩

/-- The first reply tells the number of the pages. -/
theorem numberOfPages_eq (h : GetProductsPageList pg d now options 1 reply) :
    reply.numberOfPages =
      Paging.pageCount (options.matching pg d now).length options.pageLimit := by
  obtain ⟨page, ⟨order, ⟨hperm, _⟩, hpage⟩, rfl⟩ := reply_iff (i := 0).mp h
  have hlimit := pageLimit_pos options
  generalize options.matching pg d now = rows at *
  rw [Nat.zero_mul, List.drop_zero] at hpage
  cases order with
  | nil =>
    obtain rfl : rows = [] := hperm.symm.eq_nil
    obtain rfl : page = [] := by simpa using hpage
    unfold productsPage Paging.pageCount
    rw [List.length_nil, Nat.zero_add, Nat.div_eq_of_lt (Nat.sub_lt hlimit one_pos)]
    rfl
  | cons first order =>
    have hpos : 0 < rows.length := by
      rw [← hperm.length_eq]
      exact Nat.succ_pos _
    obtain ⟨limit, hlimit⟩ : ∃ limit, options.pageLimit = limit + 1 :=
      ⟨options.pageLimit - 1, by omega⟩
    rw [hlimit] at hpage ⊢
    subst hpage
    exact if_pos hpos

theorem data_products {limit : Nat} (rows : List CatalogRow) :
    (productsPage limit rows).data = rows := rfl

/-- The products of the page `i + 1` are the same at both times, whatever order the database
chooses. -/
def CatalogOptions.SamePage (options : CatalogOptions) (pg : TextSearch) (d : CatalogTables)
    (now now' : Int) (i : Nat) : Prop :=
  Paging.SamePage (fun a b => options.orderByClause.Before pg a b) (options.matching pg d now)
    (options.matching pg d now') options.pageLimit i

/-- No page ends between two products that the `ORDER BY` does not tell apart. -/
def CatalogOptions.Separated (options : CatalogOptions) (pg : TextSearch) (d : CatalogTables)
    (now : Int) : Prop :=
  Paging.Separated (fun a b => options.orderByClause.Before pg a b) (options.matching pg d now)
    options.pageLimit

/-- How many pages the first reply tells. -/
def CatalogOptions.pageCount (options : CatalogOptions) (pg : TextSearch) (d : CatalogTables)
    (now : Int) : Nat :=
  Paging.pageCount (options.matching pg d now).length options.pageLimit

/-- A reply with the products of a page. -/
def replyOf (pg : TextSearch) (d : CatalogTables) (now : Int) (options : CatalogOptions)
    (page : List Product) : ProductsPage :=
  productsPage options.pageLimit (page.map fun product => {
    product
    priceOwnerUsername := product.priceOwnerId.bind d.usernames
    totalCount := (options.matching pg d now).length })

theorem replyOf_products (page : List Product) :
    (replyOf pg d now options page).data.map (·.product) = page := by
  simp [replyOf, data_products, Function.comp_def]

/-- If every reply lists the products, so do all choices of the pages. -/
theorem concat_of_replies (clocks : Nat → Int) (pages : Nat → List Product)
    (hall : ∀ replies, Replies pg d clocks options replies →
      (listed replies).Perm (options.matching pg d (clocks 1)))
    (hpages : ∀ i, Paging.Answers (fun a b => options.orderByClause.Before pg a b)
      (options.matching pg d (clocks (i + 1))) options.pageLimit (i * options.pageLimit)
      (pages i)) :
    (Paging.concat pages (options.pageCount pg d (clocks 1))).Perm
      (options.matching pg d (clocks 1)) := by
  have hreply : ∀ i, GetProductsPageList pg d (clocks (i + 1)) options (i + 1)
      (replyOf pg d (clocks (i + 1)) options (pages i)) :=
    fun i => reply_iff.mpr ⟨pages i, hpages i, rfl⟩
  have hlisted := hall (fun page => replyOf pg d (clocks page) options (pages (page - 1)))
    ⟨hreply 0, fun i _ => hreply i⟩
  unfold listed at hlisted
  rw [numberOfPages_eq (hreply 0)] at hlisted
  refine (List.Perm.of_eq (congrArg (Paging.concat · _) ?_)).trans hlisted
  funext i
  exact (replyOf_products _).symm

/-- Whenever the requests are made within `times`, the pages list every matching product once, in
whatever order the database returns products that the `ORDER BY` does not tell apart, exactly if
no page ends between two such products, and no page but the first changes within `times`. -/
theorem catalog_lists_once_iff (pg : TextSearch) (d : CatalogTables) (times : Set Int)
    (options : CatalogOptions) (hkeys : (d.products.map (·.productId)).Nodup) :
    (∀ clocks : Nat → Int, (∀ page, clocks page ∈ times) → ∀ replies,
      Replies pg d clocks options replies →
        (listed replies).Perm (options.matching pg d (clocks 1))) ↔
      ∀ now ∈ times, options.Separated pg d now ∧ ∀ now' ∈ times, ∀ i, 0 < i →
        i < options.pageCount pg d now → options.SamePage pg d now now' i := by
  have hlimit := pageLimit_pos options
  have hcount (now : Int) := Paging.le_pageCount hlimit (options.matching pg d now).length
  constructor
  · intro hall now hnow
    constructor
    · have hrows : (options.matching pg d now).Nodup := (List.Nodup.of_map _ hkeys).filter _
      refine Paging.separated_of_pages hlimit hrows (hcount now) fun pages hpages => ?_
      exact concat_of_replies (fun _ => now) pages (hall _ fun _ => hnow) hpages
    · -- The page is asked for later, the other ones are not.
      intro now' hnow' i hpos hi order order' horder horder'
      let orders (j : Nat) : List Product := if j = i then order' else order
      let clocks (page : Nat) : Int := if page = i + 1 then now' else now
      have hclocks : ∀ page, clocks page ∈ times := by
        intro page
        dsimp only [clocks]
        split
        · exact hnow'
        · exact hnow
      have hother := concat_of_replies clocks
        (fun j => ((orders j).drop (j * options.pageLimit)).take options.pageLimit)
        (hall clocks hclocks) fun j => by
          refine ⟨orders j, ?_, rfl⟩
          dsimp only [orders, clocks]
          by_cases hj : j = i
          · rw [if_pos hj, if_pos (by omega)]
            exact horder'
          · rw [if_neg hj, if_neg (by omega)]
            exact horder
      have hfirst : clocks 1 = now := if_neg (by omega)
      rw [hfirst] at hother
      have hsame := Paging.concat_slices order options.pageLimit (options.pageCount pg d now)
      rw [List.take_of_length_le (by rw [horder.1.length_eq]; exact hcount now)] at hsame
      have hperm := Paging.perm_of_concat hi
        (fun j hj => by dsimp only [orders]; rw [if_neg hj])
        (hother.trans (horder.1.symm.trans (List.Perm.of_eq hsame.symm)))
      simpa only [orders, if_true] using hperm
  · rintro hsame clocks hclocks replies ⟨hfirst, hreplies⟩
    unfold listed
    rw [numberOfPages_eq hfirst] at hreplies ⊢
    obtain ⟨first, ⟨order, horder, hpage⟩, hreply⟩ := reply_iff (i := 0).mp hfirst
    refine Paging.pages_of_same (hcount (clocks 1)) horder fun i hi => ?_
    obtain rfl | hpos := Nat.eq_zero_or_pos i
    · rw [hreply, ← hpage]
      exact .of_eq (replyOf_products first)
    · obtain ⟨page, ⟨order', horder', hpage'⟩, hreply'⟩ := reply_iff.mp (hreplies i hi)
      rw [hreply']
      refine (List.Perm.of_eq (replyOf_products page)).trans ?_
      rw [hpage']
      exact (hsame (clocks 1) (hclocks 1)).2 (clocks (i + 1)) (hclocks (i + 1)) i hpos hi order
        order' horder horder'

/-! ## Two products that end together -/

/-- No text matches another one. -/
def noSearch : TextSearch where
  removeAccents := id
  matchesQuery _ _ := false
  rank _ _ := 0
  ilike _ _ := false
  similar _ _ := false
  similarity _ _ := 0

/-- Two products, the first of which ends at 5. -/
def ending (productId endTime : Int) : Product :=
  { productId, createdAt := 0, endTime := some endTime }

def twoProducts (endTime : Int) : CatalogTables where
  products := [ending 1 5, ending 2 endTime]
  categories := []
  usernames _ := none

def onePerPage : CatalogOptions := { limit := 1, sortBy := some .timeAsc, status := some .active }

/-- Each page may hold the first product. -/
theorem catalog_lists_twice :
    ¬ ∀ replies, Replies noSearch (twoProducts 5) (fun _ => 0) onePerPage replies →
      (listed replies).Perm (onePerPage.matching noSearch (twoProducts 5) 0) := by
  intro hall
  have hsorted : ∀ a b, ([ending a 5, ending b 5] : List Product).Pairwise
      fun a b => onePerPage.orderByClause.Before noSearch a b := by
    intro a b
    refine List.pairwise_pair.mpr ?_
    exact le_rfl (a := sortKey (some 5))
  have hlisted := hall (fun _ => productsPage 1 [⟨ending 1 5, none, 2⟩]) ⟨?_, ?_⟩
  · exact absurd hlisted (by decide)
  · exact ⟨_, ⟨[ending 1 5], ⟨[ending 1 5, ending 2 5], ⟨.refl _, hsorted 1 2⟩, rfl⟩,
      rfl⟩, rfl⟩
  · intro i hi
    obtain rfl | rfl : i = 0 ∨ i = 1 := by
      have hi : i < 2 := hi
      omega
    · exact ⟨_, ⟨[ending 1 5], ⟨[ending 1 5, ending 2 5], ⟨.refl _, hsorted 1 2⟩, rfl⟩,
        rfl⟩, rfl⟩
    · exact ⟨_, ⟨[ending 1 5],
        ⟨[ending 2 5, ending 1 5], ⟨.swap _ _ _, hsorted 2 1⟩, rfl⟩, rfl⟩, rfl⟩

theorem sorted_products {order : List Product}
    (h : Paging.Sorts (fun a b => onePerPage.orderByClause.Before noSearch a b)
      (twoProducts 6).products order) : order = (twoProducts 6).products := by
  obtain ⟨hperm, hsorted⟩ := h
  rcases List.perm_pair.mp (show order.Perm [ending 1 5, ending 2 6] from hperm) with rfl | rfl
  · rfl
  · have hbefore := List.pairwise_pair.mp hsorted
    exact absurd (show sortKey (some 6) ≤ sortKey (some 5) from hbefore) (by decide)

/-- The first page has the first product, the others the second one. -/
def inOrder (page : Nat) : ProductsPage :=
  if page = 1 then productsPage 1 [⟨ending 1 5, none, 2⟩]
  else productsPage 1 [⟨ending 2 6, none, 2⟩]

/-- Before the first end time the pages list both products, at whatever times they are asked for. -/
theorem catalog_lists_once_sample :
    Replies noSearch (twoProducts 6) (fun page => page % 5) onePerPage inOrder ∧
    ∀ clocks : Nat → Int, (∀ page, clocks page ∈ Set.Ico 0 5) →
      ∀ replies, Replies noSearch (twoProducts 6) clocks onePerPage replies →
        (listed replies).Perm (twoProducts 6).products := by
  have hsorted : ([ending 1 5, ending 2 6] : List Product).Pairwise
      fun a b => onePerPage.orderByClause.Before noSearch a b :=
    List.pairwise_pair.mpr (show sortKey (some 5) ≤ sortKey (some 6) by decide)
  have hreplies : Replies noSearch (twoProducts 6) (fun page => page % 5) onePerPage inOrder := by
    constructor
    · exact ⟨_, ⟨[ending 1 5], ⟨[ending 1 5, ending 2 6], ⟨.refl _, hsorted⟩, rfl⟩, rfl⟩, rfl⟩
    · intro i hi
      obtain rfl | rfl : i = 0 ∨ i = 1 := by
        have hi : i < 2 := hi
        omega
      · exact ⟨_, ⟨[ending 1 5], ⟨[ending 1 5, ending 2 6], ⟨.refl _, hsorted⟩, rfl⟩, rfl⟩, rfl⟩
      · exact ⟨_, ⟨[ending 2 6], ⟨[ending 1 5, ending 2 6], ⟨.refl _, hsorted⟩, rfl⟩, rfl⟩, rfl⟩
  refine ⟨hreplies, ?_⟩
  have hmatching : ∀ now ∈ Set.Ico (0 : Int) 5,
      onePerPage.matching noSearch (twoProducts 6) now = (twoProducts 6).products := by
    intro now hnow
    have hend : now < 5 ∧ now < 6 := ⟨hnow.2, by have := hnow.2; omega⟩
    simp [CatalogOptions.matching, CatalogOptions.selects, CatalogOptions.inCategory, onePerPage,
      twoProducts, ending, CatalogStatus.holds, CatalogOptions.searchTerm, hend.1, hend.2]
  intro clocks hclocks replies hreplies
  have hlisted := (catalog_lists_once_iff noSearch (twoProducts 6) (Set.Ico 0 5) onePerPage
    (by decide)).mpr ?_ clocks hclocks replies hreplies
  · rwa [hmatching _ (hclocks 1)] at hlisted
  · intro now hnow
    unfold CatalogOptions.Separated CatalogOptions.SamePage
    rw [hmatching now hnow]
    refine ⟨fun order horder i a b ha hb => ?_,
      fun now' hnow' i _ _ order order' horder horder' => ?_⟩
    · obtain rfl := sorted_products horder
      obtain rfl | hi := Nat.eq_zero_or_pos i
      · cases ha
        cases hb
        exact fun hle : sortKey (some 6) ≤ sortKey (some 5) => absurd hle (by decide)
      · have : 2 ≤ (i + 1) * onePerPage.pageLimit := by
          change 2 ≤ (i + 1) * 1
          omega
        rw [List.getElem?_eq_none this] at hb
        cases hb
    · rw [hmatching now' hnow'] at horder'
      rw [sorted_products horder, sorted_products horder']

end

end MiracleAuction.Products
