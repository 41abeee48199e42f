import MiracleAuction.Agents.Runs

/-!
# `langGraphWorkflow.ts` and `agentWorkflow.ts`

The loop of coder, tester and reviewer, once as the nodes of a graph that the worker invokes, once
as a for-loop. The agents are given by the texts that their successive turns return.
-/
namespace MiracleAuction.Agents
open Decimal

/-! ## Decisions -/

inductive Decision
  | pass | fail | needsChanges
  deriving DecidableEq, Repr

inductive DecisionTarget
  | coder | planner | human
  deriving DecidableEq, Repr

structure AgentDecision where
  decision : Decision
  target : Option DecisionTarget
  deriving DecidableEq, Repr

/-- What follows the word in the text. The letters of both may be of either case. -/
def stripWord : Text → Text → Option Text
  | [], text => some text
  | _ :: _, [] => none
  | w :: word, c :: text => if w.toLower = c.toLower then stripWord word text else none

/-- A label, white space and one of the words. -/
def matchAt {α : Type} (label : String) (words : List (String × α)) (text : Text) : Option α :=
  (stripWord label.toList text).bind fun rest =>
    words.findSome? fun (word, value) =>
      (stripWord word.toList (rest.dropWhile Messaging.isWhiteSpace)).map fun _ => value

/-- `RegExp.exec`: the first match in the text. -/
def exec {α : Type} (label : String) (words : List (String × α)) : Text → Option α
  | [] => matchAt label words []
  | c :: text => (matchAt label words (c :: text)).or (exec label words text)

/-- A text without a decision passes. -/
def parseAgentDecision (text : Text) : AgentDecision where
  decision :=
    (exec "AGENT_DECISION:"
      [("pass", .pass), ("fail", .fail), ("needs_changes", .needsChanges)] text).getD .pass
  target :=
    exec "AGENT_TARGET:" [("coder", .coder), ("planner", .planner), ("human", .human)] text

example : parseAgentDecision "Done.\nagent_decision: Fail\nAGENT_TARGET:coder".toList =
    ⟨.fail, some .coder⟩ := by decide

/-- The text passes its judgement. -/
def Passes (text : Text) : Prop := (parseAgentDecision text).decision = .pass

instance (text : Text) : Decidable (Passes text) := inferInstanceAs (Decidable (_ = _))

/-- What the agents return, turn by turn. -/
structure Answers where
  planner : Text := []
  coder : Nat → Text := fun _ => []
  tester : Nat → Text
  reviewer : Nat → Text

/-- The turns that the agents were given. -/
structure Turns where
  coder : Nat := 0
  tester : Nat := 0
  reviewer : Nat := 0
  deriving DecidableEq, Repr

/-! ## The engine -/

/-- The engine of graphs: `invoke` goes from a state on by supersteps, and tells the last state and
whether it has returned, which is not the case when it throws. -/
structure GraphEngine (σ : Type) where
  recursionLimit : Nat
  invoke : (σ → Option σ) → σ → σ × Bool

section
variable {σ : Type}

/-- So many supersteps. -/
def supersteps (step : σ → Option σ) : Nat → σ → Option σ
  | 0, s => some s
  | n + 1, s => (step s).bind (supersteps step n)

/-- An invocation returns if the graph ends after fewer supersteps than the recursion limit; after
so many it throws, wherever the graph has come to. -/
structure GraphEngine.Documented (engine : GraphEngine σ) : Prop where
  returns : ∀ (step : σ → Option σ) (n : Nat) (s s' : σ), n < engine.recursionLimit →
    supersteps step n s = some s' → step s' = none → engine.invoke step s = (s', true)
  throws : ∀ (step : σ → Option σ) (s s' : σ),
    supersteps step engine.recursionLimit s = some s' → engine.invoke step s = (s', false)

/-- One superstep after the other, with a counter. -/
def countdown (step : σ → Option σ) : Nat → σ → σ × Bool
  | 0, s => (s, false)
  | limit + 1, s =>
    match step s with
    | none => (s, true)
    | some s' => countdown step limit s'

theorem countdown_returns {step : σ → Option σ} {limit n : Nat} {s s' : σ} (hlt : n < limit)
    (hsteps : supersteps step n s = some s') (hend : step s' = none) :
    countdown step limit s = (s', true) := by
  induction limit generalizing n s with
  | zero => omega
  | succ limit ih =>
    unfold countdown
    cases n with
    | zero =>
      cases hsteps
      rw [hend]
    | succ n =>
      obtain ⟨t, ht, hrest⟩ := Option.bind_eq_some_iff.mp hsteps
      rw [ht]
      exact ih (by omega) hrest

theorem countdown_throws {step : σ → Option σ} {limit : Nat} {s s' : σ}
    (hsteps : supersteps step limit s = some s') : countdown step limit s = (s', false) := by
  induction limit generalizing s with
  | zero =>
    cases hsteps
    rfl
  | succ limit ih =>
    obtain ⟨t, ht, hrest⟩ := Option.bind_eq_some_iff.mp hsteps
    unfold countdown
    rw [ht]
    exact ih hrest

/-- An engine that counts its supersteps. -/
def GraphEngine.counting (recursionLimit : Nat) : GraphEngine σ where
  recursionLimit := recursionLimit
  invoke := fun step s => countdown step recursionLimit s

theorem GraphEngine.counting_documented (recursionLimit : Nat) :
    (GraphEngine.counting (σ := σ) recursionLimit).Documented where
  returns := fun _ _ _ _ => countdown_returns
  throws := fun _ _ _ => countdown_throws

/-- A graph ends within the limit, or makes as many supersteps. -/
theorem ends_or_reaches (step : σ → Option σ) (limit : Nat) (s : σ) :
    (∃ n s', n < limit ∧ supersteps step n s = some s' ∧ step s' = none) ∨
      ∃ s', supersteps step limit s = some s' := by
  induction limit generalizing s with
  | zero => exact .inr ⟨s, rfl⟩
  | succ limit ih =>
    cases hstep : step s with
    | none => exact .inl ⟨0, s, Nat.succ_pos _, rfl, hstep⟩
    | some t =>
      rcases ih t with ⟨n, s', hn, hsteps, hend⟩ | ⟨s', hsteps⟩
      · exact .inl ⟨n + 1, s', by omega, by simp [supersteps, hstep, hsteps], hend⟩
      · exact .inr ⟨s', by simp [supersteps, hstep, hsteps]⟩

end

/-! ## The graph -/

/-- The nodes of the graph. -/
inductive Node
  | contextIndexing | planning | implementing | testing | reviewing
  deriving DecidableEq, Repr

/-- `AgentState`. -/
structure AgentState where
  workspacePath : String := ""
  plan : Text := []
  implementationSummary : Text := []
  testReport : Text := []
  reviewReport : Text := []
  iteration : Nat := 1
  maxIterations : Nat := 3
  /-- `testerDecision` is "pass". -/
  testerPasses : Bool := true
  /-- `reviewerDecision` is "pass". -/
  reviewerPasses : Bool := true

namespace Node

/-- The `updateRunWorkflow` at the start of a node. -/
def input (state : AgentState) (workspacePath : String) : Node → WorkflowInput
  | .contextIndexing =>
    { workspacePath := some (some workspacePath)
      workflowState := some (some "context_indexing")
      status := some .contextIndexing
      currentStep := some (some .contextIndexing) }
  | .planning => { status := some .planning, currentStep := some (some .planning) }
  | .implementing =>
    { status := some .implementing
      currentStep := some (some .implementing)
      iteration := some state.iteration }
  | .testing => { status := some .testing, currentStep := some (some .testing) }
  | .reviewing => { status := some .reviewing, currentStep := some (some .reviewing) }

/-- What a node returns, merged into the state. A decision other than "pass" adds an iteration. -/
def returns (state : AgentState) (workspacePath : String) (text : Text) : Node → AgentState
  | .contextIndexing => { state with workspacePath }
  | .planning => { state with plan := text }
  | .implementing => { state with implementationSummary := text }
  | .testing =>
    { state with
      testReport := text
      testerPasses := Passes text
      iteration := if Passes text then state.iteration else state.iteration + 1 }
  | .reviewing =>
    { state with
      reviewReport := text
      reviewerPasses := Passes text
      iteration := if Passes text then state.iteration else state.iteration + 1 }

/-- `routeTester`. -/
def routeTester (state : AgentState) : Node :=
  if state.testerPasses then .reviewing
  else if state.maxIterations ≤ state.iteration then .reviewing
  else .implementing

/-- `routeReviewer`. -/
def routeReviewer (state : AgentState) : Option Node :=
  if state.reviewerPasses then none
  else if state.maxIterations ≤ state.iteration then none
  else some .implementing

/-- The node after this one; `none` is the end. -/
def next (state : AgentState) : Node → Option Node
  | .contextIndexing => some .planning
  | .planning => some .implementing
  | .implementing => some .testing
  | .testing => some (routeTester state)
  | .reviewing => routeReviewer state

/-- The text of the agent that the node gives a turn. -/
def answer (answers : Answers) (turns : Turns) : Node → Text
  | .contextIndexing => []
  | .planning => answers.planner
  | .implementing => answers.coder turns.coder
  | .testing => answers.tester turns.tester
  | .reviewing => answers.reviewer turns.reviewer

def count (turns : Turns) : Node → Turns
  | .implementing => { turns with coder := turns.coder + 1 }
  | .testing => { turns with tester := turns.tester + 1 }
  | .reviewing => { turns with reviewer := turns.reviewer + 1 }
  | _ => turns

end Node

/-- A graph that is invoked: the row of its run, its state, and the node that is next. -/
structure Execution where
  run : AgentRun
  state : AgentState := {}
  next : Option Node := some .contextIndexing
  turns : Turns := {}

namespace Execution
variable (answers : Answers) (workspacePath : String)

/-- One superstep. -/
def superstep (e : Execution) (node : Node) : Execution :=
  let workspacePath := e.run.workspacePath.getD workspacePath
  let state := node.returns e.state workspacePath (node.answer answers e.turns)
  { run := updateRunWorkflow (node.input e.state workspacePath) e.run
    state
    next := node.next state
    turns := node.count e.turns }

/-- A superstep runs the node that is next; there is none after the end. -/
def step (e : Execution) : Option Execution := e.next.map (e.superstep answers workspacePath)

end Execution

/-- `run.projectConfig?.maxIterations ?? 3`. -/
def AgentRun.maxIterations (run : AgentRun) : Nat :=
  (run.projectConfig.map (·.maxIterations)).getD 3

/-- The state that the worker invokes the graph with. -/
def initialState (run : AgentRun) : AgentState where
  workspacePath := run.workspacePath.getD ""
  maxIterations := run.maxIterations

/-- The update after the graph has ended. -/
def finalInput : WorkflowInput where
  status := some .waitingApproval
  currentStep := some (some .waitingApproval)

def finalize (run : AgentRun) : AgentRun :=
  if run.status = .reviewing ∨ run.status = .implementing then updateRunWorkflow finalInput run
  else run

/-- `poll` with a claimed run. -/
def poll (engine : GraphEngine Execution) (answers : Answers) (workspacePath : String)
    (run : AgentRun) : AgentRun × Turns :=
  let (e, ended) := engine.invoke (Execution.step answers workspacePath)
    { run, state := initialState run }
  (if ended then finalize e.run else e.run, e.turns)

/-! ## The loop -/

namespace AgentWorkflow
variable (answers : Answers)

/-- The row at the start of `runStep`. -/
def runStep (status : RunStatus) (stepName : StepName) (run : AgentRun) : AgentRun :=
  updateRunStatus status (some stepName) none none run

/-- What the catch does with the error after the last iteration. -/
def fail (maxIterations : Nat) (run : AgentRun) : AgentRun :=
  updateRunStatus .failed none (some .invalidState)
    (some
      ("Workflow reached maxIterations (" ++ toString maxIterations ++ ") before reviewer pass"))
    run

/-- The iterations from `iteration` on, of which so many are left. -/
def loop (maxIterations : Nat) : Nat → Nat → AgentRun × Turns → AgentRun × Turns
  | 0, _, (run, turns) => (fail maxIterations run, turns)
  | left + 1, iteration, (run, turns) =>
    let run := updateRunWorkflow
      { iteration := some iteration, workflowState := some (some "coder") } run
    let run := runStep .implementing .implementing run
    let run := runStep .testing .testing run
    let testReport := answers.tester turns.tester
    let turns := { turns with coder := turns.coder + 1, tester := turns.tester + 1 }
    if Passes testReport then
      let run := runStep .reviewing .reviewing run
      let reviewReport := answers.reviewer turns.reviewer
      let turns := { turns with reviewer := turns.reviewer + 1 }
      if Passes reviewReport then
        (updateRunStatus .waitingApproval (some .waitingApproval) none none run, turns)
      else loop maxIterations left (iteration + 1) (run, turns)
    else loop maxIterations left (iteration + 1) (run, turns)

/-- `AgentWorkflow.run`. -/
def run (workspacePath : String) (run : AgentRun) : AgentRun × Turns :=
  let workspacePath := run.workspacePath.getD workspacePath
  let started := updateRunWorkflow
    { workspacePath := some (some workspacePath)
      projectConfig := some run.projectConfig
      workflowState := some (some "context_indexing") } run
  let planned := runStep .planning .planning (runStep .contextIndexing .contextIndexing started)
  loop answers run.maxIterations run.maxIterations 1 (planned, {})

end AgentWorkflow

/-! ## Turns -/

/-- The turns before `turn` whose tester passes. So often the reviewer has been asked by then. -/
def reviewsBefore (answers : Answers) : Nat → Nat
  | 0 => 0
  | turn + 1 => reviewsBefore answers turn + if Passes (answers.tester turn) then 1 else 0

/-- The tester and the reviewer both pass in this turn. -/
def Approved (answers : Answers) (turn : Nat) : Prop :=
  Passes (answers.tester turn) ∧ Passes (answers.reviewer (reviewsBefore answers turn))

instance (answers : Answers) (turn : Nat) : Decidable (Approved answers turn) :=
  inferInstanceAs (Decidable (_ ∧ _))

/-- The supersteps of a graph that ends in this turn. -/
def superstepsOf (answers : Answers) (turn : Nat) : Nat :=
  5 + 2 * turn + reviewsBefore answers turn

/-- The last decision of the tester and that of the reviewer are both "pass". -/
def LastPass (answers : Answers) (turns : Turns) : Prop :=
  ∃ i j, turns.tester = i + 1 ∧ turns.reviewer = j + 1 ∧ Passes (answers.tester i) ∧
    Passes (answers.reviewer j)

section
variable {answers : Answers} {workspacePath : String} {maxIterations n i j limit : Nat}
  {e e' : Execution}

theorem reviewsBefore_mono (h : i ≤ j) : reviewsBefore answers i ≤ reviewsBefore answers j := by
  induction j, h using Nat.le_induction with
  | base => exact Nat.le_refl _
  | succ j _ ih => exact ih.trans (Nat.le_add_right _ _)

/-- Where a graph stands after `n` supersteps. The coder gets at most `maxIterations - 1` turns, or
the first one. -/
inductive Located (answers : Answers) (maxIterations : Nat) : Nat → Execution → Prop
  | indexing {e : Execution} (hnext : e.next = some .contextIndexing)
      (hmax : e.state.maxIterations = maxIterations) (hiteration : e.state.iteration = 1)
      (hturns : e.turns = {}) : Located answers maxIterations 0 e
  | planning {e : Execution} (hnext : e.next = some .planning)
      (hmax : e.state.maxIterations = maxIterations) (hiteration : e.state.iteration = 1)
      (hturns : e.turns = {}) (hstatus : e.run.status = .contextIndexing) :
      Located answers maxIterations 1 e
  | implementing {e : Execution} {i : Nat} (hnext : e.next = some .implementing)
      (hmax : e.state.maxIterations = maxIterations) (hiteration : e.state.iteration = i + 1)
      (hturns : e.turns = ⟨i, i, reviewsBefore answers i⟩)
        (hturn : i < max 1 (maxIterations - 1))
      (hrejected : ∀ k < i, ¬ Approved answers k) (hstatus : e.run.status ≠ .waitingApproval) :
      Located answers maxIterations (2 + 2 * i + reviewsBefore answers i) e
  | testing {e : Execution} {i : Nat} (hnext : e.next = some .testing)
      (hmax : e.state.maxIterations = maxIterations) (hiteration : e.state.iteration = i + 1)
      (hturns : e.turns = ⟨i + 1, i, reviewsBefore answers i⟩)
      (hturn : i < max 1 (maxIterations - 1)) (hrejected : ∀ k < i, ¬ Approved answers k)
      (hstatus : e.run.status = .implementing) :
      Located answers maxIterations (3 + 2 * i + reviewsBefore answers i) e
  | reviewing {e : Execution} {i : Nat} (hnext : e.next = some .reviewing)
      (hmax : e.state.maxIterations = maxIterations)
      (htester : Passes (answers.tester i) ∧ e.state.iteration = i + 1 ∨
        ¬ Passes (answers.tester i) ∧ e.state.iteration = i + 2 ∧ maxIterations ≤ i + 2)
      (hturns : e.turns = ⟨i + 1, i + 1, reviewsBefore answers i⟩)
      (hturn : i < max 1 (maxIterations - 1)) (hrejected : ∀ k < i, ¬ Approved answers k)
      (hstatus : e.run.status = .testing) :
      Located answers maxIterations (4 + 2 * i + reviewsBefore answers i) e
  | ended {e : Execution} {i : Nat} (hnext : e.next = none)
      (hlast : Approved answers i ∨ maxIterations ≤ i + 2)
      (hturns : e.turns = ⟨i + 1, i + 1, reviewsBefore answers i + 1⟩)
      (hturn : i < max 1 (maxIterations - 1)) (hrejected : ∀ k < i, ¬ Approved answers k)
      (hstatus : e.run.status = .reviewing) :
      Located answers maxIterations (superstepsOf answers i) e

theorem Located.of_eq (hs : Located answers maxIterations n e) (h : n = j) :
    Located answers maxIterations j e := h ▸ hs

/-- What holds of the turns before this one, and of this one, holds of those before the next. -/
theorem rejected_succ (h : ∀ k < i, ¬ Approved answers k) (hi : ¬ Approved answers i) :
    ∀ k < i + 1, ¬ Approved answers k := by
  intro k hk
  obtain hlt | rfl := Nat.lt_succ_iff_lt_or_eq.mp hk
  · exact h k hlt
  · exact hi

theorem located_superstep {node : Node} (hs : Located answers maxIterations n e)
    (hnext : e.next = some node) :
    Located answers maxIterations (n + 1) (e.superstep answers workspacePath node) := by
  cases hs with
  | indexing h hmax hiteration hturns =>
    cases h.symm.trans hnext
    exact .planning rfl hmax hiteration hturns rfl
  | planning h hmax hiteration hturns hstatus =>
    cases h.symm.trans hnext
    refine .implementing (i := 0) rfl hmax hiteration hturns ?_ ?_ ?_
    · omega
    · intro k hk
      omega
    · exact nofun
  | @implementing _ i h hmax hiteration hturns hturn hrejected hstatus =>
    cases h.symm.trans hnext
    have hturns' : Node.count e.turns .implementing = ⟨i + 1, i, reviewsBefore answers i⟩ := by
      rw [hturns]
      rfl
    exact (Located.testing (e := e.superstep answers workspacePath .implementing) rfl hmax
      hiteration hturns' hturn hrejected rfl).of_eq (by omega)
  | @testing _ i h hmax hiteration hturns hturn hrejected hstatus =>
    cases h.symm.trans hnext
    have htext : Node.answer answers e.turns .testing = answers.tester i := by
      rw [hturns]
      rfl
    have hturns' : Node.count e.turns .testing = ⟨i + 1, i + 1, reviewsBefore answers i⟩ := by
      rw [hturns]
      rfl
    by_cases hpass : Passes (answers.tester i)
    · refine (Located.reviewing (i := i) (e := e.superstep answers workspacePath .testing) ?_ hmax
        (.inl ⟨hpass, ?_⟩) hturns' hturn hrejected rfl).of_eq (by omega)
      · simp [Execution.superstep, Node.next, Node.routeTester, Node.returns, htext, hpass]
      · simp [Execution.superstep, Node.returns, htext, hpass, hiteration]
    · have hiteration' : (e.superstep answers workspacePath .testing).state.iteration = i + 2 := by
        simp [Execution.superstep, Node.returns, htext, hpass, hiteration]
      by_cases hlimit : maxIterations ≤ i + 2
      · refine (Located.reviewing (i := i) (e := e.superstep answers workspacePath .testing)
          ?_ hmax (.inr ⟨hpass, hiteration', hlimit⟩) hturns' hturn hrejected rfl).of_eq (by omega)
        simp [Execution.superstep, Node.next, Node.routeTester, Node.returns, htext, hpass, hmax,
          hiteration, hlimit]
      · -- The tester sends the run back to the coder.
        have hreviews : reviewsBefore answers (i + 1) = reviewsBefore answers i := by
          simp [reviewsBefore, hpass]
        rw [← hreviews] at hturns'
        have hrejected' := rejected_succ hrejected fun happroved => hpass happroved.1
        refine (Located.implementing (i := i + 1) (e := e.superstep answers workspacePath .testing)
          ?_ hmax hiteration' hturns' (by omega) hrejected' nofun).of_eq (by omega)
        simp [Execution.superstep, Node.next, Node.routeTester, Node.returns, htext, hpass, hmax,
          hiteration, hlimit]
  | @reviewing _ i h hmax htester hturns hturn hrejected hstatus =>
    cases h.symm.trans hnext
    have htext : Node.answer answers e.turns .reviewing =
        answers.reviewer (reviewsBefore answers i) := by
      rw [hturns]
      rfl
    have hturns' : Node.count e.turns .reviewing =
        ⟨i + 1, i + 1, reviewsBefore answers i + 1⟩ := by
      rw [hturns]
      rfl
    have hends : (e.superstep answers workspacePath .reviewing).next = none →
        Approved answers i ∨ maxIterations ≤ i + 2 →
        Located answers maxIterations (4 + 2 * i + reviewsBefore answers i + 1)
          (e.superstep answers workspacePath .reviewing) := by
      intro hnone hlast
      refine (Located.ended (e := e.superstep answers workspacePath .reviewing) hnone hlast hturns'
        hturn hrejected rfl).of_eq ?_
      unfold superstepsOf
      omega
    by_cases hpass : Passes (answers.reviewer (reviewsBefore answers i))
    · apply hends
      · simp [Execution.superstep, Node.next, Node.routeReviewer, Node.returns, htext, hpass]
      · obtain ⟨htester, -⟩ | ⟨-, -, hlimit⟩ := htester
        · exact .inl ⟨htester, hpass⟩
        · exact .inr hlimit
    · have hiteration' : (e.superstep answers workspacePath .reviewing).state.iteration =
          e.state.iteration + 1 := by
        simp [Execution.superstep, Node.returns, htext, hpass]
      by_cases hlimit : maxIterations ≤ e.state.iteration + 1
      · apply hends
        · simp [Execution.superstep, Node.next, Node.routeReviewer, Node.returns, htext,
            hpass, hmax, hlimit]
        · right
          obtain ⟨-, hiteration⟩ | ⟨-, -, hlast⟩ := htester
          · omega
          · exact hlast
      · obtain ⟨htester, hiteration⟩ | ⟨-, hiteration, hlast⟩ := htester
        · have hreviews : reviewsBefore answers (i + 1) = reviewsBefore answers i + 1 := by
            simp [reviewsBefore, htester]
          rw [← hreviews] at hturns'
          have hrejected' := rejected_succ hrejected fun happroved => hpass happroved.2
          refine (Located.implementing (i := i + 1)
            (e := e.superstep answers workspacePath .reviewing)
            ?_ hmax (by omega) hturns' (by omega) hrejected' nofun).of_eq (by omega)
          simp [Execution.superstep, Node.next, Node.routeReviewer, Node.returns, htext, hpass,
            hmax, hlimit]
        · omega
  | ended h => cases h.symm.trans hnext

theorem located_supersteps {m : Nat} (hs : Located answers maxIterations n e)
    (h : supersteps (Execution.step answers workspacePath) m e = some e') :
    Located answers maxIterations (n + m) e' := by
  induction m generalizing n e with
  | zero =>
    cases h
    exact hs
  | succ m ih =>
    obtain ⟨e₁, hstep, hrest⟩ := Option.bind_eq_some_iff.mp h
    obtain ⟨node, hnext, rfl⟩ := Option.map_eq_some_iff.mp hstep
    exact (ih (located_superstep hs hnext) hrest).of_eq (by omega)

/-- An invocation returns at the end, or throws after as many supersteps as it is allowed. -/
theorem located_invoke {engine : GraphEngine Execution} (hengine : engine.Documented)
    (workspacePath : String) (hs : Located answers maxIterations 0 e) :
    ∃ m e' ended, engine.invoke (Execution.step answers workspacePath) e = (e', ended) ∧
      Located answers maxIterations m e' ∧
        (ended = true ∧ e'.next = none ∧ m < engine.recursionLimit ∨
          ended = false ∧ m = engine.recursionLimit) := by
  rcases ends_or_reaches (Execution.step answers workspacePath) engine.recursionLimit e with
    ⟨n, e', hn, hsteps, hend⟩ | ⟨e', hsteps⟩
  · have hlocated := (located_supersteps hs hsteps).of_eq (Nat.zero_add n)
    have hnext : e'.next = none := Option.map_eq_none_iff.mp hend
    exact ⟨n, e', true, hengine.returns _ n e e' hn hsteps hend, hlocated,
      .inl ⟨rfl, hnext, hn⟩⟩
  · have hlocated := (located_supersteps hs hsteps).of_eq (Nat.zero_add _)
    exact ⟨_, e', false, hengine.throws _ e e' hsteps, hlocated, .inr ⟨rfl, rfl⟩⟩

/-- The loop ends with the first turn that both pass, or fails after all of them. -/
theorem loop_outcome {left : Nat} {run : AgentRun} (hleft : i + left = maxIterations)
    (hrejected : ∀ k < i, ¬ Approved answers k) :
    let result := AgentWorkflow.loop answers maxIterations left (i + 1)
      (run, ⟨i, i, reviewsBefore answers i⟩)
    (∃ turn < maxIterations, Approved answers turn ∧ (∀ k < turn, ¬ Approved answers k) ∧
      result.1.status = .waitingApproval ∧ result.2.coder = turn + 1) ∨
    (∀ k < maxIterations, ¬ Approved answers k) ∧ result.1.status = .failed ∧
      result.2.coder = maxIterations := by
  induction left generalizing i run with
  | zero =>
    obtain rfl : i = maxIterations := hleft
    exact .inr ⟨hrejected, rfl, rfl⟩
  | succ left ih =>
    unfold AgentWorkflow.loop
    dsimp only
    by_cases htester : Passes (answers.tester i)
    · have hreviews : reviewsBefore answers (i + 1) = reviewsBefore answers i + 1 := by
        simp [reviewsBefore, htester]
      rw [if_pos htester]
      by_cases hreviewer : Passes (answers.reviewer (reviewsBefore answers i))
      · rw [if_pos hreviewer]
        exact .inl ⟨i, by omega, ⟨htester, hreviewer⟩, hrejected, rfl, rfl⟩
      · rw [if_neg hreviewer, ← hreviews]
        exact ih (by omega) (rejected_succ hrejected fun happroved => hreviewer happroved.2)
    · have hreviews : reviewsBefore answers (i + 1) = reviewsBefore answers i := by
        simp [reviewsBefore, htester]
      rw [if_neg htester, ← hreviews]
      exact ih (by omega) (rejected_succ hrejected fun happroved => htester happroved.1)

end

/-- The worker's graph gives the coder as many turns as the loop, and waits for approval exactly
when the loop does, which is after two last decisions to pass. -/
structure Agrees (engine : GraphEngine Execution) (answers : Answers) (workspacePath : String)
    (run : AgentRun) : Prop where
  turns : (poll engine answers workspacePath run).2.coder =
    (AgentWorkflow.run answers workspacePath run).2.coder
  waits : (poll engine answers workspacePath run).1.status = .waitingApproval ↔
    (AgentWorkflow.run answers workspacePath run).1.status = .waitingApproval
  passes : (poll engine answers workspacePath run).1.status = .waitingApproval →
    LastPass answers (poll engine answers workspacePath run).2

section
variable {engine : GraphEngine Execution} {answers : Answers} {workspacePath : String}
  {run : AgentRun}

/-- The worker's run: it ends in some turn and waits for approval, or it is cut off. -/
theorem poll_outcome (hengine : engine.Documented) (answers : Answers) (workspacePath : String)
    (run : AgentRun) (hlimit : 0 < engine.recursionLimit) :
    let result := poll engine answers workspacePath run
    (∃ turn, (Approved answers turn ∨ run.maxIterations ≤ turn + 2) ∧
      turn < max 1 (run.maxIterations - 1) ∧ (∀ k < turn, ¬ Approved answers k) ∧
      superstepsOf answers turn < engine.recursionLimit ∧ result.1.status = .waitingApproval ∧
      result.2 = ⟨turn + 1, turn + 1, reviewsBefore answers turn + 1⟩) ∨
    (∃ turn ≤ max 1 (run.maxIterations - 1), result.2.coder = turn ∧
      result.1.status ≠ .waitingApproval ∧ ∀ k, Approved answers k ∨
        run.maxIterations ≤ k + 2 →
        engine.recursionLimit ≤ superstepsOf answers k) := by
  have hstart : Located answers run.maxIterations 0 { run, state := initialState run } :=
    .indexing rfl rfl rfl rfl
  obtain ⟨m, e, ended, hinvoke, hlocated, hstops⟩ :=
    located_invoke hengine workspacePath hstart
  unfold poll
  rw [hinvoke]
  dsimp only
  -- A graph that has not ended has used up its supersteps.
  have hcut : ∀ node, e.next = some node → ended = false ∧ m = engine.recursionLimit := by
    intro node hnext
    obtain ⟨-, hnone, -⟩ | hthrown := hstops
    · cases hnone.symm.trans hnext
    · exact hthrown
  have hbeyond : ∀ i < max 1 (run.maxIterations - 1), (∀ k < i, ¬ Approved answers k) →
      engine.recursionLimit ≤ superstepsOf answers i →
      ∀ k, Approved answers k ∨ run.maxIterations ≤ k + 2 →
        engine.recursionLimit ≤ superstepsOf answers k := by
    intro i hturn hrejected hshort k hk
    have hik : i ≤ k := by
      by_contra hlt
      obtain happroved | hlast := hk
      · exact hrejected k (by omega) happroved
      · omega
    have hmono : reviewsBefore answers i ≤ reviewsBefore answers k := reviewsBefore_mono hik
    unfold superstepsOf at hshort ⊢
    omega
  cases hlocated with
  | indexing hnext =>
    obtain ⟨-, hall⟩ := hcut _ hnext
    omega
  | planning hnext hmax hiteration hturns hstatus =>
    obtain ⟨rfl, hall⟩ := hcut _ hnext
    refine .inr ⟨0, by omega, by rw [hturns], by simp [hstatus], ?_⟩
    refine hbeyond 0 (by omega) (fun k hk => absurd hk (Nat.not_lt_zero k)) ?_
    unfold superstepsOf
    omega
  | @implementing _ i hnext hmax hiteration hturns hturn hrejected hstatus =>
    obtain ⟨rfl, hall⟩ := hcut _ hnext
    refine .inr ⟨i, by omega, by rw [hturns], hstatus, hbeyond i hturn hrejected ?_⟩
    unfold superstepsOf
    omega
  | @testing _ i hnext hmax hiteration hturns hturn hrejected hstatus =>
    obtain ⟨rfl, hall⟩ := hcut _ hnext
    refine .inr ⟨i + 1, by omega, by rw [hturns], by simp [hstatus],
      hbeyond i hturn hrejected ?_⟩
    unfold superstepsOf
    omega
  | @reviewing _ i hnext hmax htester hturns hturn hrejected hstatus =>
    obtain ⟨rfl, hall⟩ := hcut _ hnext
    refine .inr ⟨i + 1, by omega, by rw [hturns], by simp [hstatus],
      hbeyond i hturn hrejected ?_⟩
    unfold superstepsOf
    omega
  | @ended _ i hnext hlast hturns hturn hrejected hstatus =>
    obtain ⟨rfl, -, hlt⟩ | ⟨rfl, hall⟩ := hstops
    · refine .inl ⟨i, hlast, hturn, hrejected, hlt, ?_, hturns⟩
      simp [finalize, hstatus, updateRunWorkflow, finalInput]
    · -- The last superstep that is allowed has come to the end, but the engine throws.
      refine .inr ⟨i + 1, by omega, by rw [hturns], by simp [hstatus], ?_⟩
      exact hbeyond i hturn hrejected (Nat.le_of_eq hall.symm)

theorem run_outcome (answers : Answers) (workspacePath : String) (run : AgentRun) :
    let result := AgentWorkflow.run answers workspacePath run
    (∃ turn < run.maxIterations, Approved answers turn ∧
      (∀ k < turn, ¬ Approved answers k) ∧
      result.1.status = .waitingApproval ∧ result.2.coder = turn + 1) ∨
    (∀ k < run.maxIterations, ¬ Approved answers k) ∧ result.1.status = .failed ∧
      result.2.coder = run.maxIterations := by
  unfold AgentWorkflow.run
  exact loop_outcome (Nat.zero_add _) fun k hk => absurd hk (Nat.not_lt_zero k)

/-- The workflows agree exactly if both decisions are "pass" in some turn that the graph reaches:
one of the first `maxIterations - 1`, or the first, in fewer supersteps than the recursion limit. -/
theorem agrees_iff (hengine : engine.Documented) (hmax : 1 ≤ run.maxIterations)
    (hlimit : 5 < engine.recursionLimit) :
    Agrees engine answers workspacePath run ↔
      ∃ turn < max 1 (run.maxIterations - 1), Approved answers turn ∧
        superstepsOf answers turn < engine.recursionLimit := by
  have hgraph := poll_outcome hengine answers workspacePath run (by omega)
  have hloop := run_outcome answers workspacePath run
  constructor
  · rintro ⟨hturns, hwaits, -⟩
    obtain ⟨turn, hturn, happroved, hfirst, hstatus, hcoder⟩ |
        ⟨hnever, hstatus, hcoder⟩ := hloop
    · obtain ⟨i, hlast, hi, hrejected, hsteps, hwaiting, hcount⟩ |
          ⟨i, hi, hcount, hwaiting, -⟩ :=
        hgraph
      · obtain rfl : i = turn := by
          rw [hcount, hcoder] at hturns
          exact Nat.succ.inj hturns
        exact ⟨i, hi, happroved, hsteps⟩
      · exact absurd (hwaits.mpr hstatus) hwaiting
    · have hnot : (AgentWorkflow.run answers workspacePath run).1.status ≠ .waitingApproval := by
        rw [hstatus]
        exact nofun
      obtain ⟨i, hlast, hi, hrejected, hsteps, hwaiting, hcount⟩ |
          ⟨i, hi, hcount, -, hbeyond⟩ := hgraph
      · exact absurd (hwaits.mp hwaiting) hnot
      · -- The coder has had all turns, so there is only one, and the graph would have ended.
        have hshort := hbeyond 0 (.inr (by omega))
        unfold superstepsOf reviewsBefore at hshort
        omega
  · rintro ⟨turn, hturn, happroved, hsteps⟩
    obtain ⟨i, hlast, hi, hrejected, -, hwaiting, hcount⟩ | ⟨-, -, -, -, hbeyond⟩ := hgraph
    · have hle : i ≤ turn := by
        by_contra hlt
        exact hrejected turn (by omega) happroved
      have hnow : Approved answers i := by
        obtain hnow | hlimit := hlast
        · exact hnow
        · obtain rfl : i = turn := by omega
          exact happroved
      obtain ⟨j, hj, hnow', hfirst, hstatus, hcoder⟩ | ⟨hnever, -, -⟩ := hloop
      · obtain rfl : i = j := by
          by_contra hne
          obtain hlt | hlt := Nat.lt_or_gt_of_ne hne
          · exact hfirst i hlt hnow
          · exact hrejected j hlt hnow'
        refine ⟨?_, ⟨fun _ => hstatus, fun _ => hwaiting⟩, fun _ => ?_⟩
        · rw [hcount, hcoder]
        · rw [hcount]
          exact ⟨i, _, rfl, rfl, hnow⟩
      · exact absurd hnow (hnever i (by omega))
    · exact absurd hsteps (Nat.not_lt.mpr (hbeyond turn (.inl happroved)))

end

namespace Sample

def passText : Text := "AGENT_DECISION: pass".toList

def failText : Text := "AGENT_DECISION: fail".toList

/-- The tester and the reviewer fail the first turns, so many of them. -/
def answers (testerFails reviewerFails : Nat) : Answers where
  tester := fun turn => if turn < testerFails then failText else passText
  reviewer := fun turn => if turn < reviewerFails then failText else passText

def run : AgentRun := { status := .contextIndexing, projectConfig := some ⟨3⟩ }

/-- The default limit. -/
def engine : GraphEngine Execution := .counting 25

end Sample

/-- The reviewer asks for changes once, and both workflows wait for approval after the second
turn. -/
theorem agrees_sample : 1 ≤ Sample.run.maxIterations ∧
    Agrees Sample.engine (Sample.answers 0 1) "/workspace" Sample.run := by
  refine ⟨by decide,
    (agrees_iff (GraphEngine.counting_documented 25) (by decide) (by decide)).mpr ?_⟩
  exact ⟨1, by decide, by decide, by decide⟩

/-- A tester that fails every turn leaves the coder two turns of three, and a run that waits for
approval. -/
theorem agrees_rejected : Sample.engine.Documented ∧ 1 ≤ Sample.run.maxIterations ∧
    ¬ Agrees Sample.engine (Sample.answers 3 0) "/workspace" Sample.run ∧
    (poll Sample.engine (Sample.answers 3 0) "/workspace" Sample.run).1.status =
      .waitingApproval ∧
    (poll Sample.engine (Sample.answers 3 0) "/workspace" Sample.run).2 = ⟨2, 2, 1⟩ ∧
    (AgentWorkflow.run (Sample.answers 3 0) "/workspace" Sample.run).1.status = .failed ∧
    (AgentWorkflow.run (Sample.answers 3 0) "/workspace" Sample.run).2 = ⟨3, 3, 0⟩ := by
  refine ⟨GraphEngine.counting_documented 25, by decide, ?_, by decide, by decide, by decide,
    by decide⟩
  intro h
  have hturns := h.turns
  revert hturns
  decide

end MiracleAuction.Agents
