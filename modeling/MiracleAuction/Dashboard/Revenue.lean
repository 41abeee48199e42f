import MiracleAuction.Base.Numeral
import MiracleAuction.Orders.Transitions

/-!
# `dashboard.repository.ts`

The aggregates over `orders`. They ask for the status `finished`, which a migration renamed to
`payment_verified`.
-/
namespace MiracleAuction.Dashboard

open Messaging Orders

/-! ## Windows -/

structure Interval where
  months : Nat := 0
  days : Nat := 0
  deriving DecidableEq, Repr

def Interval.twice (i : Interval) : Interval := ⟨2 * i.months, 2 * i.days⟩

inductive Bucket
  | day
  | week
  | month
  deriving DecidableEq, Repr

/-- The functions of PostgreSQL on timestamps, here in microseconds: `-`, `date_trunc` and
`generate_series`. -/
structure Calendar where
  minus : Int → Interval → Int
  dateTrunc : Bucket → Int → Int
  generateSeries : Int → Int → Bucket → List Int

inductive DashboardRange
  | sevenDays
  | thirtyDays
  | threeMonths
  | sixMonths
  | oneYear
  deriving DecidableEq, Repr

/-- `RANGE_CONFIG`, the interval. -/
def DashboardRange.interval : DashboardRange → Interval
  | .sevenDays => { days := 7 }
  | .thirtyDays => { days := 30 }
  | .threeMonths => { months := 3 }
  | .sixMonths => { months := 6 }
  | .oneYear => { months := 12 }

/-- `RANGE_CONFIG`, the bucket. -/
def DashboardRange.bucket : DashboardRange → Bucket
  | .sevenDays | .thirtyDays => .day
  | .threeMonths => .week
  | .sixMonths | .oneYear => .month

/-- A condition `column >= since AND column < before`. -/
structure Window where
  since : Int
  before : Option Int := none
  deriving DecidableEq, Repr

def Window.Contains (window : Window) (time : Int) : Prop :=
  window.since ≤ time ∧ ∀ before ∈ window.before, time < before

instance (window : Window) (time : Int) : Decidable (window.Contains time) := by
  unfold Window.Contains; infer_instance

/-- `window` and `completedWindow`. -/
def reportingWindow (cal : Calendar) (now : Int) (interval : Interval) (previous : Bool) : Window :=
  if previous then ⟨cal.minus now interval.twice, some (cal.minus now interval)⟩
  else { since := cal.minus now interval }

/-- The column `completed_at` is in the window, and not null. -/
def CompletedWithin (window : Window) (order : Order) : Prop :=
  ∃ completedAt ∈ order.completedAt, window.Contains (1000 * completedAt.val)

instance (window : Window) (order : Order) : Decidable (CompletedWithin window order) := by
  unfold CompletedWithin
  cases order.completedAt with
  | none => exact .isFalse fun ⟨_, h, _⟩ => by cases h
  | some t => exact decidable_of_iff (window.Contains (1000 * t.val)) (by simp)

/-! ## The queries -/

/-- `COALESCE(SUM(amount_vnd), 0)`. -/
def sumAmounts (orders : List Order) : Int := (orders.filterMap (·.amountVnd)).sum

/-- The columns of a `MetricsRow` that come from `orders`. -/
structure MetricsRow where
  completedOrderGmvVnd : Int
  pendingOrders : Nat
  finishedOrders : Nat
  rejectedOrders : Nat
  deriving DecidableEq, Repr

/-- The rows with a status. -/
def withStatus (status : String) (orders : List Order) : List Order :=
  orders.filter (·.orderStatus.text = status)

/-- `metricsForInterval`. -/
def metricsForInterval (cal : Calendar) (now : Int) (interval : Interval) (previous : Bool)
    (orders : List Order) : MetricsRow :=
  let window := reportingWindow cal now interval previous
  { completedOrderGmvVnd :=
      sumAmounts ((withStatus "finished" orders).filter fun order => CompletedWithin window order)
    pendingOrders :=
      (withStatus "pending" orders).countP fun order => window.Contains order.createdAt
    finishedOrders :=
      (withStatus "finished" orders).countP fun order => CompletedWithin window order
    rejectedOrders :=
      (withStatus "rejected" orders).countP fun order => window.Contains order.createdAt }

/-- `Number` of a `bigint`. -/
def number (n : Int) : Int := Numeral.round 2 53 n

structure ChartPoint where
  bucketStart : Int
  completedOrderGmvVnd : Int
  deriving DecidableEq, Repr

/-- The completion falls into the bucket. -/
def InBucket (cal : Calendar) (bucket : Bucket) (bucketStart : Int) (order : Order) : Prop :=
  ∃ completedAt ∈ order.completedAt, cal.dateTrunc bucket (1000 * completedAt.val) = bucketStart

instance (cal : Calendar) (bucket : Bucket) (bucketStart : Int) (order : Order) :
    Decidable (InBucket cal bucket bucketStart order) := by
  unfold InBucket
  cases order.completedAt with
  | none => exact .isFalse fun ⟨_, h, _⟩ => by cases h
  | some t =>
    exact decidable_of_iff (cal.dateTrunc bucket (1000 * t.val) = bucketStart) (by simp)

/-- `getDashboardChartData`, the join of the buckets with the totals of orders. -/
def getDashboardChartData (cal : Calendar) (now : Int) (range : DashboardRange)
    (orders : List Order) : List ChartPoint :=
  let since := cal.minus now range.interval
  let finished := (withStatus "finished" orders).filter fun order =>
    CompletedWithin { since } order
  (cal.generateSeries (cal.dateTrunc range.bucket since) (cal.dateTrunc range.bucket now)
    range.bucket).map fun bucketStart =>
      ⟨bucketStart, number (sumAmounts (finished.filter fun order =>
        InBucket cal range.bucket bucketStart order))⟩

/-! ## What is completed -/

/-- `approveOrder` has completed the order in the window. -/
def Completed (window : Window) (order : Order) : Prop :=
  order.orderStatus = .paymentVerified ∧ CompletedWithin window order

instance (window : Window) (order : Order) : Decidable (Completed window order) := by
  unfold Completed; infer_instance

def completedIn (window : Window) (w : OrderWorld) : List Order :=
  (w.rows.map (·.order)).filter fun order => Completed window order

/-- The two aggregates and the chart agree with the orders that were completed in the window. -/
structure CountsRevenue (cal : Calendar) (now : Int) (range : DashboardRange) (previous : Bool)
    (w : OrderWorld) : Prop where
  gmv : (metricsForInterval cal now range.interval previous
      (w.rows.map (·.order))).completedOrderGmvVnd =
    sumAmounts (completedIn (reportingWindow cal now range.interval previous) w)
  finished : (metricsForInterval cal now range.interval previous
      (w.rows.map (·.order))).finishedOrders =
    (completedIn (reportingWindow cal now range.interval previous) w).length
  chart : previous = false →
    ((getDashboardChartData cal now range (w.rows.map (·.order))).map
      (·.completedOrderGmvVnd)).sum =
      sumAmounts (completedIn (reportingWindow cal now range.interval previous) w)

/-- The step does not complete an order in the window. -/
def CompletesNothing (window : Window) (w : OrderWorld) : OrderAction → Prop
  | .commit orderId =>
    ∀ writer ∈ (w.rows.find? (·.order.orderId = orderId)).bind (·.writer),
      ¬ Completed window writer.order
  | _ => True

/-- No order has been completed in the window. -/
def NothingCompleted (window : Window) (w : OrderWorld) : Prop :=
  ∀ row ∈ w.rows, ¬ Completed window row.order

section
variable {cal : Calendar} {now : Int} {range : DashboardRange} {previous : Bool} {window : Window}
  {topics : KafkaTopics} {w w' : OrderWorld} {a : OrderAction}

/-- No order has the old name of the status. -/
theorem withStatus_finished (orders : List Order) : withStatus "finished" orders = [] := by
  refine List.filter_eq_nil_iff.mpr fun order _ => ?_
  cases order.orderStatus <;> decide

theorem completedIn_eq_nil : completedIn window w = [] ↔ NothingCompleted window w := by
  unfold completedIn NothingCompleted
  simp [List.filter_eq_nil_iff]

/-- The dashboard shows no revenue at all. -/
theorem countsRevenue_iff :
    CountsRevenue cal now range previous w ↔
      NothingCompleted (reportingWindow cal now range.interval previous) w := by
  rw [← completedIn_eq_nil]
  constructor
  · rintro ⟨-, hfinished, -⟩
    unfold metricsForInterval at hfinished
    rw [withStatus_finished] at hfinished
    exact List.length_eq_zero_iff.mp hfinished.symm
  · intro hnone
    refine ⟨?_, ?_, fun _ => ?_⟩
    · unfold metricsForInterval
      rw [hnone, withStatus_finished]
      rfl
    · unfold metricsForInterval
      rw [hnone, withStatus_finished]
      rfl
    · unfold getDashboardChartData
      rw [hnone, withStatus_finished, List.map_map]
      refine List.sum_eq_zero fun total htotal => ?_
      obtain ⟨bucketStart, -, rfl⟩ := List.mem_map.mp htotal
      rfl

/-! ## Steps that complete nothing -/

/-- Rows that keep the status and the time of completion. -/
theorem NothingCompleted.map {g : Row → Row} (h : NothingCompleted window w)
    (hrows : w'.rows = w.rows.map g)
    (hkeeps : ∀ row ∈ w.rows, Completed window (g row).order → Completed window row.order) :
    NothingCompleted window w' := by
  intro row' hrow'
  rw [hrows] at hrow'
  obtain ⟨row, hrow, rfl⟩ := List.mem_map.mp hrow'
  exact fun hnow => h row hrow (hkeeps row hrow hnow)

theorem NothingCompleted.setRow {orderId : Nat} {f : Row → Row} (h : NothingCompleted window w)
    (hkeeps : ∀ row, (f row).order = row.order) :
    NothingCompleted window (w.setRow orderId f) := by
  refine h.map rfl fun row _ => ?_
  split
  · rw [hkeeps]
    exact id
  · exact id

theorem NothingCompleted.updateMany {p : Order → Prop} [DecidablePred p] {f : Row → Row}
    (h : NothingCompleted window w)
    (hkeeps : ∀ row, Completed window (f row).order → Completed window row.order) :
    NothingCompleted window { w with rows := (w.updateMany p f).1 } := by
  refine h.map rfl fun row _ => ?_
  split
  · exact hkeeps row
  · exact id

theorem NothingCompleted.advance {task : Nat} {url : String} {clock : DateMs}
    (h : NothingCompleted window w) (hstep : w.advance topics task url clock = some w') :
    NothingCompleted window w' := by
  unfold OrderWorld.advance at hstep
  split at hstep
  · split at hstep <;> cases hstep <;> exact h
  · cases hstep
    exact h
  · rename_i data _
    split at hstep
    · cases hstep
    have hupdated : NothingCompleted window { w with
        rows := (w.updateMany data.Matches fun row =>
          { row with order := data.update row.order }).1 } :=
      h.updateMany fun row hnow => hnow
    dsimp only at hstep
    split at hstep <;> cases hstep <;> exact hupdated
  · split at hstep <;> cases hstep <;> exact h
  · split at hstep <;> cases hstep <;> exact h
  · rename_i t order product _
    split at hstep
    · cases hstep
    have hupdated : NothingCompleted window { w with
        rows := (w.updateMany t.Matches fun row =>
          { row with
            writer := some
              { order := t.update product.currentPrice clock row.order
                input := transitionEvent topics t.nextStatus order } }).1 } :=
      h.updateMany fun row hnow => hnow
    dsimp only at hstep
    split at hstep <;> cases hstep
    · exact hupdated
    · exact h
  · cases hstep
  · cases hstep
  · cases hstep
  · cases hstep

/-- Only the commit of an approval completes an order. -/
theorem nothingCompleted_step (hstep : StepOf (OrderWorld.next topics) w a w')
    (h : NothingCompleted window w) :
    NothingCompleted window w' ↔ CompletesNothing window w a := by
  unfold StepOf at hstep
  cases a with
  | place order productId price =>
    simp only [OrderWorld.next] at hstep
    split at hstep
    · cases hstep
      refine iff_of_true (fun row hrow => ?_) trivial
      obtain hrow | hrow := List.mem_append.mp hrow
      · exact h row hrow
      · obtain rfl := List.mem_singleton.mp hrow
        rintro ⟨hstatus, -⟩
        cases hstatus
    · cases hstep
  | reprice productId price =>
    cases hstep
    exact iff_of_true h trivial
  | request request =>
    cases hstep
    exact iff_of_true h trivial
  | advance task url clock => exact iff_of_true (h.advance hstep) trivial
  | fail task message =>
    cases hstep
    exact iff_of_true h trivial
  | addEvent orderId generated =>
    simp only [OrderWorld.next] at hstep
    split at hstep
    · cases hstep
    split at hstep <;> cases hstep <;> exact iff_of_true (h.setRow fun _ => rfl) trivial
  | commit orderId =>
    simp only [OrderWorld.next] at hstep
    split at hstep
    · rename_i order input event hwriter
      cases hstep
      simp only [CompletesNothing, hwriter]
      obtain ⟨found, hfound, -⟩ := Option.bind_eq_some_iff.mp hwriter
      constructor
      · rintro hnone writer hmem
        cases hmem
        have hid : found.order.orderId = orderId := by simpa using List.find?_some hfound
        refine hnone { order } (List.mem_map.mpr ⟨found, List.mem_of_find?_eq_some hfound, ?_⟩)
        rw [if_pos hid]
      · intro hwriter row' hrow'
        obtain ⟨row, hrow, rfl⟩ := List.mem_map.mp hrow'
        split
        · exact hwriter _ rfl
        · exact h row hrow
    · cases hstep
  | rollback orderId =>
    cases hstep
    exact iff_of_true (h.setRow fun _ => rfl) trivial

end

/-- The dashboard counts the completed orders throughout a run if and only if none is completed in
the window. -/
theorem counts_revenue_iff {cal : Calendar} {now : Int} {range : DashboardRange} {previous : Bool}
    {topics : KafkaTopics} {products : Nat → Option Product} {w : OrderWorld}
    {as : List OrderAction} (hrun : Run (StepOf (OrderWorld.next topics)) { products } as w) :
    Run.Always (OrderWorld.next topics) (CountsRevenue cal now range previous) { products } as ↔
      Run (Guarded (CompletesNothing (reportingWindow cal now range.interval previous))
        (StepOf (OrderWorld.next topics))) { products } as w :=
  Run.always_iff_guarded (fun _ h => countsRevenue_iff.mpr h)
    (fun _ _ _ hstep h => countsRevenue_iff.trans (nothingCompleted_step hstep h))
    (fun _ _ _ hstep h hok => (nothingCompleted_step hstep h).mpr hok) hrun
    fun _ hrow => absurd hrow List.not_mem_nil

namespace Sample

/-- Months of thirty days, and buckets of as many days as they have. -/
def calendar : Calendar where
  minus := fun now interval => now - (30 * interval.months + interval.days) * 86400000000
  dateTrunc := fun
    | .day, time => time / 86400000000
    | .week, time => time / 604800000000
    | .month, time => time / 2592000000000
  generateSeries := fun first last _ => (List.range (last - first + 1).toNat).map fun i => first + i

/-- The order is rejected. -/
def rejection : List OrderAction :=
  [.place Orders.Sample.order 7 100, .request (.rejectOrder 2 9 "no payment"),
    .advance 0 "" (Messaging.Sample.time 3), .advance 0 "" (Messaging.Sample.time 4),
    .addEvent 2 Orders.Sample.generated, .commit 2]

end Sample

instance (window : Window) (w : OrderWorld) (a : OrderAction) :
    Decidable (CompletesNothing window w a) := by
  unfold CompletesNothing
  split <;> infer_instance

theorem counts_revenue_sample :
    Run.Always (OrderWorld.next {}) (CountsRevenue Sample.calendar 0 .sevenDays false)
      { products := Orders.Sample.products } Sample.rejection :=
  (counts_revenue_iff (Run.to_final (by decide))).mpr (Run.to_final_guarded (by decide))

/-- An order of 100 that was approved is not counted. -/
theorem counts_revenue_lost :
    Run (StepOf (OrderWorld.next {})) { products := Orders.Sample.products } Orders.Sample.actions
        Orders.Sample.final ∧
      ¬ CountsRevenue Sample.calendar 0 .sevenDays false Orders.Sample.final ∧
      sumAmounts
        (completedIn (reportingWindow Sample.calendar 0 ⟨0, 7⟩ false) Orders.Sample.final) =
        100 := by
  refine ⟨Run.to_final (by decide), fun h => ?_, by decide⟩
  have hfinished := h.finished
  revert hfinished
  decide

end MiracleAuction.Dashboard
