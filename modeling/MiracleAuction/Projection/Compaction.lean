import Mathlib
import MiracleAuction.Base.ConsumerGroup
import MiracleAuction.Base.Run
import MiracleAuction.Projection.Projector

/-!
# Compacting and draining the event streams

`compactAcknowledgedProjectorEntries` and `hasUndrainedProjectorEntries`, whose Redis commands
run between those of the consumers, on the stream of each shard.
-/
namespace MiracleAuction.Compaction

/-- The payload of an entry, and the product id that `extractRawProductId` finds in its text. -/
structure StreamValue where
  payload : StreamPayload
  rawProductId : Option Nat := none

/-- `acknowledged` are the entries between their `XACK` and `XDEL`. Of the past, `added` keeps
every entry, and `late` those delivered while a compaction had found nothing pending and
had not yet asked for the position of the group. -/
structure Shard where
  group : ConsumerGroup Nat StreamValue := ⟨[], 0, 0, []⟩
  acknowledged : List Nat := []
  added : List (Nat × StreamValue) := []
  late : List Nat := []

/-- The next command of a compaction on its shard. -/
inductive CompactionPhase
  | xpending
  | xinfo
  | xtrim (threshold : Nat)
  deriving DecidableEq

/-- `shard` is the loop variable; a compaction is over when it has passed the last one. -/
structure Compacting where
  shard : Nat := 0
  phase : CompactionPhase := .xpending
  deriving DecidableEq

/-- What an entry of a page means for a recovery of the products. -/
inductive Verdict
  | undrained
  | malformed
  | other
  deriving DecidableEq

inductive ScanResult
  | undrained
  | drained
  | threw
  deriving DecidableEq

/-- A call of `hasUndrainedProjectorEntries`; the cursor `-` is zero. -/
structure Scan where
  productIds : List Nat
  watermarks : Nat → Nat
  shard : Nat := 0
  cursor : Nat := 0
  result : Option ScanResult := none

/-- The shards of the configuration and what runs on them. -/
structure System where
  shards : Nat → Shard := fun _ => {}
  compactions : List Compacting := []
  scans : List Scan := []

def verdict (productIds : List Nat) (value : StreamValue) : Verdict :=
  match parseEvent value.payload with
  | .ok event => if event.productId ∈ productIds then .undrained else .other
  | .error _ =>
    match value.rawProductId with
    | none => .malformed
    | some productId => if productId ∈ productIds then .malformed else .other

/-- The number of entries that one `XRANGE` returns at most. -/
def pageSize : Nat := 1000

/-- `XRANGE` from the cursor to the watermark. -/
def Scan.page (scan : Scan) (group : ConsumerGroup Nat StreamValue) : List (Nat × StreamValue) :=
  (Cursor.span Prod.fst group.entries scan.cursor (scan.watermarks scan.shard)).take pageSize

/-- The first entry of a page that decides; else the next page, or the next shard. -/
def Scan.advance (scan : Scan) (page : List (Nat × StreamValue)) : Scan :=
  match page.find? fun entry => verdict scan.productIds entry.2 ≠ .other with
  | some entry =>
    { scan with
      result := some (if verdict scan.productIds entry.2 = .undrained then .undrained else .threw) }
  | none =>
    if page.length < pageSize then { scan with shard := scan.shard + 1, cursor := 0 }
    else { scan with cursor := (page.getLast?.map Prod.fst).getD scan.cursor }

namespace System
variable (s : System)

def setShard (i : Nat) (shard : Shard) : System :=
  { s with shards := Function.update s.shards i shard }

/-- A compaction of the shard has found nothing pending. -/
def awaitsPosition (i : Nat) : Bool := s.compactions.any fun c => c.shard = i ∧ c.phase = .xinfo

def setCompaction (i : Nat) (c : Compacting) : System :=
  { s with compactions := s.compactions.set i c }

end System

/-- The commands of producers and consumers on a shard, the steps of a compaction, and those
of a scan. -/
inductive Command
  | xadd (shard id : Nat) (value : StreamValue)
  | xreadgroup (shard count : Nat)
  | xack (shard id : Nat)
  | xdel (shard id : Nat)
  | compact
  | compaction (i : Nat)
  | scan (productIds : List Nat) (watermarks : Nat → Nat)
  | xrange (i : Nat)

/-- The step of a compaction: the smallest pending id, or the last one delivered, bounds what
is trimmed. -/
def compactionStep (s : System) (i : Nat) (c : Compacting) : Option System :=
  let shard := s.shards c.shard
  match c.phase with
  | .xpending =>
    match shard.group.pending.min? with
    | some threshold => some (s.setCompaction i { c with phase := .xtrim threshold })
    | none => some (s.setCompaction i { c with phase := .xinfo })
  | .xinfo => some (s.setCompaction i { c with phase := .xtrim shard.group.lastDelivered })
  | .xtrim threshold =>
    let trimmed := if threshold = 0 then s
      else s.setShard c.shard { shard with group := shard.group.trim threshold }
    some (trimmed.setCompaction i { shard := c.shard + 1 })

def step (shardCount : Nat) (s : System) : Command → Option System
  | .xadd i id value =>
    let shard := s.shards i
    if shard.group.lastGenerated < id then
      some (s.setShard i { shard with
        group := shard.group.add (id, value), added := shard.added ++ [(id, value)] })
    else none
  | .xreadgroup i count =>
    let shard := s.shards i
    some (s.setShard i { shard with
      group := shard.group.read count
      late := if s.awaitsPosition i then shard.late ++ (shard.group.page count).map Prod.fst
        else shard.late })
  | .xack i id =>
    let shard := s.shards i
    if id ∈ shard.group.pending then
      some (s.setShard i { shard with
        group := shard.group.acknowledge id, acknowledged := id :: shard.acknowledged })
    else some s
  | .xdel i id =>
    let shard := s.shards i
    if id ∈ shard.acknowledged then
      some (s.setShard i { shard with group := shard.group.delete id })
    else none
  | .compact => some { s with compactions := s.compactions ++ [{}] }
  | .compaction i =>
    match s.compactions[i]? with
    | some c => if c.shard < shardCount then compactionStep s i c else none
    | none => none
  | .scan productIds watermarks =>
    -- The watermarks were the last generated ids at some moment before.
    if ∀ i < shardCount, watermarks i ≤ (s.shards i).group.lastGenerated then
      some { s with scans := s.scans ++ [{ productIds := productIds, watermarks := watermarks }] }
    else none
  | .xrange i =>
    match s.scans[i]? with
    | some scan =>
      if scan.result ≠ none then none
      else if scan.shard < shardCount then
        let page := scan.page (s.shards scan.shard).group
        some { s with scans := s.scans.set i (scan.advance page) }
      else some { s with scans := s.scans.set i { scan with result := some .drained } }
    | none => none

/-! ## What every run keeps -/

structure Shard.Kept (shard : Shard) : Prop where
  ordered : shard.group.Ordered
  positive : ∀ entry ∈ shard.group.entries, 0 < entry.1
  acknowledged : ∀ id ∈ shard.acknowledged, ¬ shard.group.Outstanding id
  kept : ∀ entry ∈ shard.added, shard.group.Outstanding entry.1 →
    entry ∈ shard.group.entries ∨ entry.1 ∈ shard.late

/-- What a compaction knows about its shard. -/
structure Shard.Compacts (shard : Shard) (phase : CompactionPhase) : Prop where
  awaits : phase = .xinfo → ∀ id ∈ shard.group.pending, id ∈ shard.late
  clears : ∀ threshold, phase = .xtrim threshold → shard.group.Clears shard.late threshold

/-- What a scan has seen of a shard. -/
def Shard.Scanned (shard : Shard) (productIds : List Nat) (bound : Nat) : Prop :=
  bound ≤ shard.group.lastGenerated ∧
    ∀ entry ∈ shard.group.entries, entry.1 ≤ bound → verdict productIds entry.2 = .other

structure ScanKept (shardCount : Nat) (shards : Nat → Shard) (scan : Scan) : Prop where
  bounded : ∀ i < shardCount, scan.watermarks i ≤ (shards i).group.lastGenerated
  inside : scan.shard ≤ shardCount
  passed : ∀ i < scan.shard, (shards i).Scanned scan.productIds (scan.watermarks i)
  read : (shards scan.shard).Scanned scan.productIds scan.cursor
  complete : scan.result = some .drained → scan.shard = shardCount

structure Consistent (shardCount : Nat) (s : System) : Prop where
  shards : ∀ i, (s.shards i).Kept
  compactions : ∀ c ∈ s.compactions, (s.shards c.shard).Compacts c.phase
  scans : ∀ scan ∈ s.scans, ScanKept shardCount s.shards scan

/-- A shard goes on: ids only grow, what is acknowledged stays so, and so do the exceptions. -/
structure Shard.Follows (shard shard' : Shard) : Prop where
  generated : shard.group.lastGenerated ≤ shard'.group.lastGenerated
  entries : ∀ entry ∈ shard'.group.entries,
    entry ∈ shard.group.entries ∨ shard.group.lastGenerated < entry.1
  outstanding : ∀ id, shard'.group.Outstanding id → shard.group.Outstanding id
  late : ∀ id ∈ shard.late, id ∈ shard'.late

section
variable {shardCount : Nat} {s s' : System} {shard shard' : Shard} {c : Compacting} {scan : Scan}
  {productIds : List Nat} {bound i : Nat} {phase : CompactionPhase}

theorem Shard.Scanned.follows (h : shard.Scanned productIds bound) (hf : shard.Follows shard') :
    shard'.Scanned productIds bound := by
  refine ⟨h.1.trans hf.generated, fun entry hentry hle => ?_⟩
  obtain hold | hnew := hf.entries entry hentry
  · exact h.2 entry hold hle
  · have := h.1
    omega

theorem Shard.Follows.refl : shard.Follows shard :=
  ⟨le_rfl, fun _ h => .inl h, fun _ h => h, fun _ h => h⟩

theorem shards_setShard : (s.setShard i shard').shards i = shard' := Function.update_self ..

theorem shards_setShard_of_ne {j : Nat} (h : j ≠ i) :
    (s.setShard i shard').shards j = s.shards j :=
  Function.update_of_ne h ..

theorem setShard_follows (hf : (s.shards i).Follows shard') (j : Nat) :
    (s.shards j).Follows ((s.setShard i shard').shards j) := by
  by_cases hij : j = i
  · subst hij
    rwa [shards_setShard]
  · rw [shards_setShard_of_ne hij]
    exact .refl

theorem ScanKept.follows {shards shards' : Nat → Shard} (h : ScanKept shardCount shards scan)
    (hf : ∀ i, (shards i).Follows (shards' i)) : ScanKept shardCount shards' scan where
  bounded i hi := (h.bounded i hi).trans (hf i).generated
  inside := h.inside
  passed i hi := (h.passed i hi).follows (hf i)
  read := h.read.follows (hf scan.shard)
  complete := h.complete

/-- A threshold stays safe, and an empty list of pending entries fills with exceptions only. -/
theorem Shard.Compacts.follows (h : shard.Compacts phase) (hf : shard.Follows shard')
    (hawaits : phase = .xinfo → ∀ id ∈ shard'.group.pending,
      id ∈ shard.group.pending ∨ id ∈ shard'.late) : shard'.Compacts phase where
  awaits hphase id hid := by
    obtain hold | hlate := hawaits hphase id hid
    · exact hf.late id (h.awaits hphase id hold)
    · exact hlate
  clears threshold hphase := by
    intro id hid
    obtain hle | hlate := h.clears threshold hphase id (hf.outstanding id hid)
    · exact .inl hle
    · exact .inr (hf.late id hlate)

/-- One shard goes on, by a command that respects the waiting compactions. -/
theorem Consistent.setShard (h : Consistent shardCount s) (hkept : shard'.Kept)
    (hf : (s.shards i).Follows shard')
    (hawaits : s.awaitsPosition i = true → ∀ id ∈ shard'.group.pending,
      id ∈ (s.shards i).group.pending ∨ id ∈ shard'.late) :
    Consistent shardCount (s.setShard i shard') where
  shards j := by
    by_cases hij : j = i
    · subst hij
      rwa [shards_setShard]
    · rw [shards_setShard_of_ne hij]
      exact h.shards j
  compactions c hc := by
    have hold := h.compactions c hc
    by_cases hij : c.shard = i
    · subst hij
      rw [shards_setShard]
      refine hold.follows hf fun hphase => hawaits ?_
      exact List.any_eq_true.mpr ⟨c, hc, by simp [hphase]⟩
    · rw [shards_setShard_of_ne hij]
      exact hold
  scans scan hscan := (h.scans scan hscan).follows (setShard_follows hf)

theorem xadd_kept {id : Nat} (value : StreamValue) (h : shard.Kept)
    (hid : shard.group.lastGenerated < id) :
    let next : Shard := { shard with
      group := shard.group.add (id, value), added := shard.added ++ [(id, value)] }
    next.Kept ∧ shard.Follows next := by
  refine ⟨⟨h.ordered.add hid, fun entry hentry => ?_, h.acknowledged,
    fun entry hentry hout => ?_⟩,
    ⟨hid.le, fun entry hentry => ?_, fun _ hout => hout, fun _ hlate => hlate⟩⟩
  · obtain hold | hnew := List.mem_append.mp hentry
    · exact h.positive entry hold
    · rw [List.mem_singleton.mp hnew]
      exact Nat.zero_lt_of_lt hid
  · obtain hold | hnew := List.mem_append.mp hentry
    · obtain hin | hlate := h.kept entry hold hout
      · exact .inl (List.mem_append_left _ hin)
      · exact .inr hlate
    · exact .inl (List.mem_append_right _ hnew)
  · obtain hold | hnew := List.mem_append.mp hentry
    · exact .inl hold
    · right
      rw [List.mem_singleton.mp hnew]
      exact hid

theorem xreadgroup_kept (count : Nat) {late : List Nat} (h : shard.Kept)
    (hlate : ∀ id ∈ shard.late, id ∈ late) :
    let next : Shard := { shard with group := shard.group.read count, late := late }
    next.Kept ∧ shard.Follows next :=
  ⟨⟨h.ordered.read, h.positive,
      fun id hid hout => h.acknowledged id hid (ConsumerGroup.outstanding_of_read h.ordered hout),
      fun entry hentry hout => by
        have hout := ConsumerGroup.outstanding_of_read h.ordered hout
        obtain hin | hbefore := h.kept entry hentry hout
        · exact .inl hin
        · exact .inr (hlate _ hbefore)⟩,
    ⟨le_rfl, fun _ hentry => .inl hentry,
      fun _ hout => ConsumerGroup.outstanding_of_read h.ordered hout, hlate⟩⟩

theorem xack_kept {id : Nat} (h : shard.Kept) (hid : id ∈ shard.group.pending) :
    let next : Shard := { shard with
      group := shard.group.acknowledge id, acknowledged := id :: shard.acknowledged }
    next.Kept ∧ shard.Follows next := by
  refine ⟨⟨h.ordered.acknowledge, h.positive, fun other hother hout => ?_,
      fun entry hentry hout => h.kept entry hentry
        (ConsumerGroup.outstanding_of_acknowledge hout)⟩,
    ⟨le_rfl, fun _ hentry => .inl hentry,
      fun _ hout => ConsumerGroup.outstanding_of_acknowledge hout, fun _ hlate => hlate⟩⟩
  obtain rfl | hold := List.mem_cons.mp hother
  · exact ConsumerGroup.not_outstanding_acknowledge h.ordered hid hout
  · exact h.acknowledged other hold (ConsumerGroup.outstanding_of_acknowledge hout)

/-- Only an acknowledged entry is deleted. -/
theorem xdel_kept {id : Nat} (h : shard.Kept) (hid : id ∈ shard.acknowledged) :
    let next : Shard := { shard with group := shard.group.delete id }
    next.Kept ∧ shard.Follows next := by
  refine ⟨⟨h.ordered.delete, fun entry hentry => h.positive entry (List.mem_filter.mp hentry).1,
      h.acknowledged, fun entry hentry hout => ?_⟩,
    ⟨le_rfl, fun entry hentry => .inl (List.mem_filter.mp hentry).1, fun _ hout => hout,
      fun _ hlate => hlate⟩⟩
  obtain hin | hlate := h.kept entry hentry hout
  · refine .inl (List.mem_filter.mpr ⟨hin, ?_⟩)
    have hne : entry.1 ≠ id := by
      rintro rfl
      exact h.acknowledged _ hid hout
    simpa using hne
  · exact .inr hlate

theorem xtrim_kept {threshold : Nat} (h : shard.Kept)
    (hclears : shard.group.Clears shard.late threshold) :
    let next : Shard := { shard with group := shard.group.trim threshold }
    next.Kept ∧ shard.Follows next := by
  refine ⟨⟨h.ordered.trim, fun entry hentry => h.positive entry (List.mem_filter.mp hentry).1,
      h.acknowledged, fun entry hentry hout => ?_⟩,
    ⟨le_rfl, fun entry hentry => .inl (List.mem_filter.mp hentry).1, fun _ hout => hout,
      fun _ hlate => hlate⟩⟩
  obtain hin | hlate := h.kept entry hentry hout
  · exact ConsumerGroup.mem_trim hclears hin hout
  · exact .inr hlate

/-- A compaction goes to a phase that fits its shard. -/
theorem Consistent.setCompaction (h : Consistent shardCount s)
    (hc : (s.shards c.shard).Compacts c.phase) : Consistent shardCount (s.setCompaction i c) where
  shards := h.shards
  compactions other hother := by
    obtain hold | rfl := List.mem_or_eq_of_mem_set hother
    · exact h.compactions other hold
    · exact hc
  scans := h.scans

theorem consistent_compactionStep (h : Consistent shardCount s) (hc : s.compactions[i]? = some c)
    (hstep : compactionStep s i c = some s') : Consistent shardCount s' := by
  have hmem : c ∈ s.compactions := List.mem_iff_getElem?.mpr ⟨i, hc⟩
  have hshard := h.shards c.shard
  have hcompacts := h.compactions c hmem
  unfold compactionStep at hstep
  dsimp only at hstep
  split at hstep
  · split at hstep
    · rename_i threshold hmin
      cases hstep
      obtain ⟨hpending, hleast⟩ := List.min?_eq_some_iff.mp hmin
      refine h.setCompaction ⟨by simp, fun t ht => ?_⟩
      cases ht
      exact ConsumerGroup.clears_of_least hshard.ordered hpending hleast
    · rename_i hmin
      cases hstep
      rw [List.min?_eq_none_iff] at hmin
      refine h.setCompaction ⟨fun _ id hid => ?_, by simp⟩
      rw [hmin] at hid
      cases hid
  · rename_i hphase
    cases hstep
    refine h.setCompaction ⟨by simp, fun t ht => ?_⟩
    cases ht
    exact ConsumerGroup.clears_of_pending (hcompacts.awaits hphase)
  · rename_i threshold hphase
    cases hstep
    obtain ⟨hkept, hfollows⟩ := xtrim_kept hshard (hcompacts.clears threshold hphase)
    have hnew : ∀ shard : Shard, shard.Compacts .xpending := fun _ => ⟨by simp, by simp⟩
    split
    · exact h.setCompaction (hnew _)
    · exact (h.setShard hkept hfollows fun _ id hid => .inl hid).setCompaction (hnew _)

/-- A page without a finding clears its shard up to its last entry, and a short page up to
the watermark. -/
theorem ScanKept.advance {shards : Nat → Shard} (h : ScanKept shardCount shards scan)
    (hkept : ∀ i, (shards i).Kept) (hshard : scan.shard < shardCount) :
    ScanKept shardCount shards (scan.advance (scan.page (shards scan.shard).group)) := by
  have hspan : ∀ entry ∈ (shards scan.shard).group.entries, scan.cursor < entry.1 →
      entry.1 ≤ scan.watermarks scan.shard → entry ∈ Cursor.span Prod.fst
        (shards scan.shard).group.entries scan.cursor (scan.watermarks scan.shard) :=
    fun entry hentry hlt hle => Cursor.mem_span.mpr ⟨hentry, hlt, hle⟩
  unfold Scan.advance
  split
  · refine ⟨h.bounded, h.inside, h.passed, h.read, fun hresult => ?_⟩
    dsimp only at hresult
    split at hresult
    · cases hresult
    · cases hresult
  · rename_i hnone
    have hother : ∀ entry ∈ scan.page (shards scan.shard).group,
        verdict scan.productIds entry.2 = .other := by
      intro entry hentry
      simpa using List.find?_eq_none.mp hnone entry hentry
    split
    · rename_i hshort
      have hpage : scan.page (shards scan.shard).group = Cursor.span Prod.fst
          (shards scan.shard).group.entries scan.cursor (scan.watermarks scan.shard) := by
        refine List.take_of_length_le ?_
        unfold Scan.page at hshort
        rw [List.length_take] at hshort
        omega
      refine ⟨h.bounded, hshard, fun i hi => ?_, ⟨Nat.zero_le _, fun entry hentry hle => ?_⟩,
        fun hresult => ?_⟩
      · obtain hlt | rfl := Nat.lt_succ_iff_lt_or_eq.mp hi
        · exact h.passed i hlt
        · refine ⟨h.bounded _ hshard, fun entry hentry hle => ?_⟩
          by_cases hread : entry.1 ≤ scan.cursor
          · exact h.read.2 entry hentry hread
          · refine hother entry ?_
            rw [hpage]
            exact hspan entry hentry (by omega) hle
      · have := (hkept _).positive entry hentry
        dsimp only at hle
        omega
      · have := h.complete hresult
        omega
    · rename_i hfull
      have hlast : ∃ last, (scan.page (shards scan.shard).group).getLast? = some last := by
        refine Option.ne_none_iff_exists'.mp fun hnil => ?_
        rw [List.getLast?_eq_none_iff.mp hnil] at hfull
        exact hfull (by decide)
      obtain ⟨last, hlast⟩ := hlast
      have hordered := (hkept scan.shard).ordered
      have hpage := Cursor.prefix_eq_span hordered.sorted
        ((List.take_prefix _ _).trans (Cursor.span_prefix_later hordered.sorted)) hlast
      refine ⟨h.bounded, h.inside, h.passed, ?_, h.complete⟩
      dsimp only
      rw [hlast]
      refine ⟨?_, fun entry hentry hle => ?_⟩
      · exact hordered.generated last
          (Cursor.mem_span.mp (List.mem_of_mem_take (List.mem_of_getLast? hlast))).1
      · by_cases hread : entry.1 ≤ scan.cursor
        · exact h.read.2 entry hentry hread
        · refine hother entry ?_
          unfold Scan.page
          rw [hpage]
          exact Cursor.mem_span.mpr ⟨hentry, by omega, hle⟩

theorem consistent_step {command : Command} (hstep : step shardCount s command = some s')
    (h : Consistent shardCount s) : Consistent shardCount s' := by
  cases command with
  | xadd i id value =>
    dsimp only [step] at hstep
    split at hstep
    · rename_i hid
      cases hstep
      obtain ⟨hkept, hfollows⟩ := xadd_kept value (h.shards i) hid
      exact h.setShard hkept hfollows fun _ id hid => .inl hid
    · cases hstep
  | xreadgroup i count =>
    cases hstep
    have hlate : ∀ id ∈ (s.shards i).late, id ∈ if s.awaitsPosition i then
        (s.shards i).late ++ ((s.shards i).group.page count).map Prod.fst
      else (s.shards i).late := by
      intro id hid
      split
      · exact List.mem_append_left _ hid
      · exact hid
    obtain ⟨hkept, hfollows⟩ := xreadgroup_kept count (h.shards i) hlate
    refine h.setShard hkept hfollows fun hawaits id hid => ?_
    dsimp only
    rw [if_pos hawaits]
    obtain hold | hnew := List.mem_append.mp hid
    · exact .inl hold
    · exact .inr (List.mem_append_right _ hnew)
  | xack i id =>
    dsimp only [step] at hstep
    split at hstep
    · rename_i hid
      cases hstep
      obtain ⟨hkept, hfollows⟩ := xack_kept (h.shards i) hid
      exact h.setShard hkept hfollows fun _ id hid => .inl (List.mem_filter.mp hid).1
    · cases hstep
      exact h
  | xdel i id =>
    dsimp only [step] at hstep
    split at hstep
    · rename_i hid
      cases hstep
      obtain ⟨hkept, hfollows⟩ := xdel_kept (h.shards i) hid
      exact h.setShard hkept hfollows fun _ id hid => .inl hid
    · cases hstep
  | compact =>
    cases hstep
    refine ⟨h.shards, fun c hc => ?_, h.scans⟩
    obtain hold | hnew := List.mem_append.mp hc
    · exact h.compactions c hold
    · rw [List.mem_singleton.mp hnew]
      exact ⟨by simp, by simp⟩
  | compaction i =>
    dsimp only [step] at hstep
    split at hstep
    · rename_i c hc
      split at hstep
      · exact consistent_compactionStep h hc hstep
      · cases hstep
    · cases hstep
  | scan productIds watermarks =>
    dsimp only [step] at hstep
    split at hstep
    · rename_i hbounded
      cases hstep
      refine ⟨h.shards, h.compactions, fun scan hscan => ?_⟩
      obtain hold | hnew := List.mem_append.mp hscan
      · exact h.scans scan hold
      · rw [List.mem_singleton.mp hnew]
        refine ⟨hbounded, Nat.zero_le _, by simp, ⟨Nat.zero_le _, fun entry hentry hle => ?_⟩,
          by simp⟩
        have := (h.shards 0).positive entry hentry
        dsimp only at hle
        omega
    · cases hstep
  | xrange i =>
    dsimp only [step] at hstep
    split at hstep
    · rename_i scan hscan
      have hkept := h.scans scan (List.mem_iff_getElem?.mpr ⟨i, hscan⟩)
      split at hstep
      · cases hstep
      · split at hstep
        · rename_i _ hshard
          cases hstep
          refine ⟨h.shards, h.compactions, fun other hother => ?_⟩
          obtain hold | rfl := List.mem_or_eq_of_mem_set hother
          · exact h.scans other hold
          · exact hkept.advance h.shards hshard
        · rename_i _ hshard
          cases hstep
          refine ⟨h.shards, h.compactions, fun other hother => ?_⟩
          obtain hold | rfl := List.mem_or_eq_of_mem_set hother
          · exact h.scans other hold
          · have := hkept.inside
            exact ⟨hkept.bounded, hkept.inside, hkept.passed, hkept.read, fun _ => by
              dsimp only
              omega⟩
    · cases hstep

theorem consistent_run {commands : List Command}
    (h : Run (StepOf (step shardCount)) {} commands s) : Consistent shardCount s := by
  refine h.preserves (fun _ _ _ hstep hs => consistent_step hstep hs)
    ⟨fun i => ?_, by simp, by simp⟩
  exact ⟨⟨List.Pairwise.nil, by simp, le_rfl, by simp⟩, by simp, by simp, by simp⟩

/-- Compaction is safe but for one race: an entry that is not acknowledged is still in its
stream, unless it was delivered while a compaction of the shard had found nothing pending
and had not yet asked for the position of the group. -/
theorem compaction_keeps_outstanding {commands : List Command}
    (h : Run (StepOf (step shardCount)) {} commands s) :
    ∀ i, ∀ entry ∈ (s.shards i).added, (s.shards i).group.Outstanding entry.1 →
      entry ∈ (s.shards i).group.entries ∨ entry.1 ∈ (s.shards i).late :=
  fun i => ((consistent_run h).shards i).kept

namespace Sample

/-- Of two acknowledged entries one is deleted and the other trimmed; a third is unread. -/
def commands : List Command :=
  [.xadd 0 1 ⟨.invalidContract, some 7⟩, .xadd 0 2 ⟨.invalidContract, some 7⟩,
    .xadd 0 3 ⟨.invalidContract, some 8⟩, .xreadgroup 0 2, .xack 0 1, .xack 0 2, .xdel 0 2,
    .compact, .compaction 0, .compaction 0, .compaction 0,
    .scan [7] fun _ => 2, .xrange 0, .xrange 0]

def run : System := Run.final (step 1) {} commands

theorem run_run : Run (StepOf (step 1)) {} commands run :=
  Run.to_final (by decide +kernel)

theorem added_length : (run.shards 0).added.length = 3 := by decide +kernel

theorem scans_length : run.scans.length = 1 := by decide +kernel

/-- The entry with this place in the stream. -/
def entry (place : Fin 3) : Nat × StreamValue :=
  (run.shards 0).added.get (place.cast added_length.symm)

def answered : Scan := run.scans.get (Fin.cast scans_length.symm 0)

end Sample

theorem compaction_keeps_outstanding_sample :
    Sample.entry 2 ∈ (Sample.run.shards 0).group.entries ∨
      (Sample.entry 2).1 ∈ (Sample.run.shards 0).late :=
  compaction_keeps_outstanding Sample.run_run 0 (Sample.entry 2) (List.get_mem _ _)
    (by decide +kernel)

/-- A scan that finds nothing undrained has seen every entry of its products up to the
watermark acknowledged, but for those of that race. -/
theorem drained_acknowledged {commands : List Command}
    (h : Run (StepOf (step shardCount)) {} commands s) :
    ∀ scan ∈ s.scans, scan.result = some .drained → ∀ i < shardCount,
      ∀ entry ∈ (s.shards i).added, entry.1 ≤ scan.watermarks i →
        verdict scan.productIds entry.2 ≠ .other →
          ¬ (s.shards i).group.Outstanding entry.1 ∨ entry.1 ∈ (s.shards i).late := by
  intro scan hscan hresult i hi entry hentry hle hverdict
  have hconsistent := consistent_run h
  have hkept := hconsistent.scans scan hscan
  by_cases hout : (s.shards i).group.Outstanding entry.1
  · right
    obtain hin | hlate := (hconsistent.shards i).kept entry hentry hout
    · have hpassed := hkept.passed i (by rw [hkept.complete hresult]; exact hi)
      exact absurd (hpassed.2 entry hin hle) hverdict
    · exact hlate
  · exact .inl hout

theorem drained_acknowledged_sample :
    ¬ (Sample.run.shards 0).group.Outstanding (Sample.entry 1).1 ∨
      (Sample.entry 1).1 ∈ (Sample.run.shards 0).late :=
  drained_acknowledged Sample.run_run Sample.answered (List.get_mem _ _) (by decide +kernel) 0
    (by decide) (Sample.entry 1) (List.get_mem _ _) (by decide +kernel) (by decide +kernel)

end

end MiracleAuction.Compaction
