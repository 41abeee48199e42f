import MiracleAuction.Agents.Workflow
import MiracleAuction.Base.Run

/-!
# Cancellation

One run, from its creation: workers that claim it and go through their graph, the callbacks of the
commands that they start, and requests to cancel or approve it. A step is one statement of
PostgreSQL, with what follows it up to the next one; any step may come much later, or never.
-/
namespace MiracleAuction.Agents
open Decimal

/-- Where a worker stands with the run that it has claimed. -/
inductive WorkerPhase
  | idle
  /-- A node is about to read the run. -/
  | enter (node : Node) (state : AgentState)
  /-- `updateRunWorkflow` of a node is about to read the run, or has read it. -/
  | update (node : Node) (state : AgentState) (workspacePath : String)
  | write (node : Node) (state : AgentState) (workspacePath : String) (current : AgentRun)
  /-- The node does its work. -/
  | work (node : Node) (state : AgentState) (workspacePath : String)
  /-- The graph has ended. -/
  | finish
  | updateFinal
  | writeFinal (current : AgentRun)

/-- What is under way besides the workers: updates that nobody awaits, the clearing of a process,
and requests. -/
inductive Task
  | update (input : WorkflowInput)
  | write (input : WorkflowInput) (current : AgentRun)
  | clear (pid : Nat)
  | cancel
  | cancelClear (pid : Nat)
  | cancelWrite
  | approve
  | approveWrite

structure System where
  run : AgentRun
  workers : Nat → WorkerPhase := fun _ => .idle
  tasks : List Task := []

/-- The run is inserted, and `createRun` goes on to store its configuration. -/
def System.start (projectConfig : ProjectConfig) : System where
  run := createRun
  tasks :=
    [.update { projectConfig := some (some projectConfig), workflowState := some (some "queued") }]

/-- The worker's next statement. `text` is what the agent returns if the node is at work, `created`
the path of a new workspace. -/
def WorkerPhase.advance (text : Text) (created : String) (run : AgentRun) :
    WorkerPhase → Option (AgentRun × WorkerPhase)
  | .idle => (claimNextRun run).map fun run => (run, .enter .contextIndexing (initialState run))
  | .enter node state => some (run, .update node state (run.workspacePath.getD created))
  | .update node state workspacePath => some (run, .write node state workspacePath run)
  | .write node state workspacePath current =>
    some
      (updateRunWorkflow (node.input state workspacePath) current, .work node state workspacePath)
  | .work node state workspacePath =>
    let state := node.returns state workspacePath text
    match node.next state with
    | some node => some (run, .enter node state)
    | none => some (run, .finish)
  | .finish =>
    if run.status = .reviewing ∨ run.status = .implementing then some (run, .updateFinal)
    else some (run, .idle)
  | .updateFinal => some (run, .writeFinal run)
  | .writeFinal current => some (updateRunWorkflow finalInput current, .idle)

/-- The task's next statement, and what is left to do. -/
def Task.advance (run : AgentRun) : Task → AgentRun × Option Task
  | .update input => (run, some (.write input run))
  | .write input current => (updateRunWorkflow input current, none)
  | .clear pid => (clearActiveProcess pid run, none)
  | .cancel =>
    match run.activePid with
    | some pid => (run, some (.cancelClear pid))
    | none => (run, some .cancelWrite)
  | .cancelClear pid => (clearActiveProcess pid run, some .cancelWrite)
  | .cancelWrite => ((cancelRun run).getD run, none)
  | .approve => (run, if run.status = .waitingApproval then some .approveWrite else none)
  | .approveWrite => (updateRunStatus .succeeded none none none run, none)

/-- A worker goes on, or throws; a command of its node starts or finishes; the run is to be
cancelled or approved; a task goes on, or fails. -/
inductive SystemAction
  | advance (worker : Nat) (text : Text) (created : String)
  | throw (worker : Nat)
  | commandStart (worker pid : Nat)
  | commandFinish (worker pid : Nat)
  | requestCancel
  | requestApproval
  | task (index : Nat)
  | drop (index : Nat)

namespace System

def setWorker (s : System) (worker : Nat) (phase : WorkerPhase) : System :=
  { s with workers := Function.update s.workers worker phase }

def spawn (s : System) (task : Task) : System := { s with tasks := s.tasks ++ [task] }

/-- The task with this index has moved on, or is done. -/
def follow (s : System) (index : Nat) (result : AgentRun × Option Task) : System :=
  { s with
    run := result.1
    tasks :=
      match result.2 with
      | some task => s.tasks.set index task
      | none => s.tasks.eraseIdx index }

def next (s : System) : SystemAction → Option System
  | .advance worker text created =>
    ((s.workers worker).advance text created s.run).map fun (run, phase) =>
      { s with run, workers := Function.update s.workers worker phase }
  | .throw worker => some (s.setWorker worker .idle)
  | .commandStart worker pid =>
    match s.workers worker with
    | .work _ _ _ => some (s.spawn (.update { activePid := some (some pid) }))
    | _ => none
  | .commandFinish worker pid =>
    match s.workers worker with
    | .work _ _ _ => some (s.spawn (.clear pid))
    | _ => none
  | .requestCancel => some (s.spawn .cancel)
  | .requestApproval => some (s.spawn .approve)
  | .task index => (s.tasks[index]?).map fun task => s.follow index (task.advance s.run)
  | .drop index => some { s with tasks := s.tasks.eraseIdx index }

end System

/-! ## Final cancellations -/

/-- The worker is about to write a status. -/
def WorkerPhase.Writes : WorkerPhase → Prop
  | .update _ _ _ | .write _ _ _ _ | .updateFinal | .writeFinal _ => True
  | _ => False

/-- The task has read the run, and is about to write a status. -/
def Task.Writes : Task → Prop
  | .write _ _ | .approveWrite => True
  | _ => False

/-- Nobody has decided to write a status that is not written yet. -/
structure System.Quiet (s : System) : Prop where
  workers : ∀ worker, ¬ (s.workers worker).Writes
  tasks : ∀ task ∈ s.tasks, ¬ task.Writes

/-- A cancellation takes effect in a quiet moment, and no node starts on a cancelled run. -/
def Respects (s : System) : SystemAction → Prop
  | .advance worker _ _ =>
    match s.workers worker with
    | .enter _ _ => s.run.status ≠ .cancelled
    | _ => True
  | .task index =>
    s.tasks[index]? = some .cancelWrite → s.run.status.cancellable = true → s.Quiet
  | _ => True

/-- What a phase asks of the status of the run. -/
def WorkerPhase.Ok (status : RunStatus) (phase : WorkerPhase) : Prop :=
  phase.Writes → status ≠ .cancelled

def Task.Ok (status : RunStatus) : Task → Prop
  | .update input => input.status = none
  | .write input current =>
    input.status = none ∧ (current.status = .cancelled ↔ status = .cancelled)
  | .approveWrite => status ≠ .cancelled
  | _ => True

structure System.Invariant (s : System) : Prop where
  workers : ∀ worker, (s.workers worker).Ok s.run.status
  tasks : ∀ task ∈ s.tasks, task.Ok s.run.status

section
variable {s t : System} {run run' : AgentRun} {phase phase' : WorkerPhase} {task : Task}
  {status status' : RunStatus} {text : Text} {created : String} {x : SystemAction}

theorem WorkerPhase.Ok.congr (h : phase.Ok status)
    (hstatus : status' = .cancelled ↔ status = .cancelled) :
    phase.Ok status' := fun hwrites hcancelled => h hwrites (hstatus.mp hcancelled)

theorem Task.Ok.congr (h : task.Ok status)
    (hstatus : status' = .cancelled ↔ status = .cancelled) :
    task.Ok status' := by
  cases task with
  | write input current => exact ⟨h.1, h.2.trans hstatus.symm⟩
  | approveWrite => exact fun hcancelled => h (hstatus.mp hcancelled)
  | update input => exact h
  | _ => trivial

theorem Task.Ok.quiet (h : task.Ok status) (hquiet : ¬ task.Writes) : task.Ok status' := by
  cases task with
  | write input current => exact absurd trivial hquiet
  | approveWrite => exact absurd trivial hquiet
  | update input => exact h
  | _ => trivial

/-- The invariant of the others survives a step that does not cancel, and a cancellation in a quiet
moment. -/
theorem System.Invariant.move {workers : Nat → WorkerPhase} {tasks : List Task} (hs : s.Invariant)
    (hstatus : (run'.status = .cancelled ↔ s.run.status = .cancelled) ∨ s.Quiet)
    (hworkers : ∀ worker, workers worker = s.workers worker ∨ (workers worker).Ok run'.status)
    (htasks : ∀ task ∈ tasks, task ∈ s.tasks ∨ task.Ok run'.status) :
    System.Invariant ⟨run', workers, tasks⟩ := by
  constructor
  · intro worker
    change (workers worker).Ok run'.status
    obtain heq | hok := hworkers worker
    · rw [heq]
      obtain hsame | hquiet := hstatus
      · exact (hs.workers worker).congr hsame
      · exact fun hwrites => absurd hwrites (hquiet.workers worker)
    · exact hok
  · intro task hmem
    obtain hold | hok := htasks task hmem
    · obtain hsame | hquiet := hstatus
      · exact (hs.tasks task hold).congr hsame
      · exact (hs.tasks task hold).quiet (hquiet.tasks task hold)
    · exact hok

/-- No node writes that the run is cancelled. -/
theorem input_status {node : Node} {state : AgentState} {workspacePath : String} :
    (updateRunWorkflow (node.input state workspacePath) run).status ≠ .cancelled := by
  cases node <;> exact nofun

/-- A step of a worker neither cancels the run nor takes a cancellation back. -/
theorem WorkerPhase.Ok.advance (hs : phase.Ok run.status)
    (henters : ∀ node state, phase = .enter node state → run.status ≠ .cancelled)
    (h : phase.advance text created run = some (run', phase')) :
    (run'.status = .cancelled ↔ run.status = .cancelled) ∧ phase'.Ok run'.status := by
  have hkeeps : ∀ {next : WorkerPhase}, (next.Writes → run.status ≠ .cancelled) →
      (run.status = .cancelled ↔ run.status = .cancelled) ∧ next.Ok run.status :=
    fun hnext => ⟨Iff.rfl, hnext⟩
  cases phase with
  | idle =>
    obtain ⟨claimed, hclaim, heq⟩ := Option.map_eq_some_iff.mp h
    cases heq
    unfold claimNextRun at hclaim
    split at hclaim
    · rename_i hqueued
      cases hclaim
      exact ⟨by simp [hqueued], fun hwrites => hwrites.elim⟩
    · cases hclaim
  | enter node state =>
    cases h
    exact hkeeps fun _ => henters node state rfl
  | update node state workspacePath =>
    cases h
    exact hkeeps fun _ => hs trivial
  | write node state workspacePath current =>
    cases h
    exact ⟨iff_of_false input_status (hs trivial), fun hwrites => hwrites.elim⟩
  | work node state workspacePath =>
    unfold WorkerPhase.advance at h
    dsimp only at h
    split at h <;> cases h <;> exact hkeeps fun hwrites => hwrites.elim
  | finish =>
    unfold WorkerPhase.advance at h
    dsimp only at h
    split at h
    · rename_i hstatus
      cases h
      refine hkeeps fun _ hcancelled => ?_
      rw [hcancelled] at hstatus
      simp at hstatus
    · cases h
      exact hkeeps fun hwrites => hwrites.elim
  | updateFinal =>
    cases h
    exact hkeeps fun _ => hs trivial
  | writeFinal current =>
    cases h
    exact ⟨iff_of_false nofun (hs trivial), fun hwrites => hwrites.elim⟩

/-- Of the tasks only a cancellation cancels, and none takes a cancellation back. -/
theorem Task.Ok.advance (hs : task.Ok run.status) :
    (((task.advance run).1.status = .cancelled ↔ run.status = .cancelled) ∨
      task = .cancelWrite ∧ run.status.cancellable = true) ∧
    ∀ rest ∈ (task.advance run).2, rest.Ok (task.advance run).1.status := by
  have hdone : ∀ {status : RunStatus}, ∀ rest ∈ (none : Option Task), rest.Ok status := by
    intro status rest hrest
    cases hrest
  cases task with
  | update input =>
    refine ⟨.inl Iff.rfl, fun rest hrest => ?_⟩
    cases hrest
    exact ⟨hs, Iff.rfl⟩
  | write input current =>
    have hsame : (updateRunWorkflow input current).status = current.status := by
      unfold updateRunWorkflow
      rw [hs.1]
      rfl
    refine ⟨.inl ?_, hdone⟩
    change (updateRunWorkflow input current).status = .cancelled ↔ _
    rw [hsame]
    exact hs.2
  | clear pid =>
    refine ⟨.inl ?_, hdone⟩
    change (clearActiveProcess pid run).status = .cancelled ↔ _
    rw [clearActiveProcess_status]
  | cancel =>
    simp only [Task.advance]
    split
    · refine ⟨.inl Iff.rfl, fun rest hrest => ?_⟩
      cases hrest
      trivial
    · refine ⟨.inl Iff.rfl, fun rest hrest => ?_⟩
      cases hrest
      trivial
  | cancelClear pid =>
    refine ⟨.inl ?_, fun rest hrest => ?_⟩
    · change (clearActiveProcess pid run).status = .cancelled ↔ _
      rw [clearActiveProcess_status]
    · cases hrest
      trivial
  | cancelWrite =>
    refine ⟨?_, hdone⟩
    by_cases hcancellable : run.status.cancellable = true
    · exact .inr ⟨rfl, hcancellable⟩
    · left
      change ((cancelRun run).getD run).status = .cancelled ↔ _
      unfold cancelRun
      rw [if_neg hcancellable]
      rfl
  | approve =>
    refine ⟨.inl Iff.rfl, fun rest hrest => ?_⟩
    simp only [Task.advance] at hrest
    split at hrest
    · rename_i hwaiting
      cases hrest
      change run.status ≠ .cancelled
      rw [hwaiting]
      exact nofun
    · cases hrest
  | approveWrite => exact ⟨.inl (iff_of_false nofun hs), hdone⟩

/-- A cancelled run stays cancelled, and what is under way lets it. -/
theorem step_cancelled (hs : s.Invariant) (h : Guarded Respects (StepOf System.next) s x t) :
    t.Invariant ∧ (s.run.status = .cancelled → t.run.status = .cancelled) := by
  obtain ⟨hrespects, hstep⟩ := h
  have hspawn : ∀ task : Task, task.Ok s.run.status → (s.spawn task).Invariant := by
    intro task hok
    refine hs.move (.inl Iff.rfl) (fun _ => .inl rfl) fun other hmem => ?_
    obtain hold | hnew := List.mem_append.mp hmem
    · exact .inl hold
    · rw [List.mem_singleton.mp hnew]
      exact .inr hok
  unfold StepOf System.next at hstep
  cases x with
  | advance worker text created =>
    obtain ⟨⟨run, phase⟩, hadvance, rfl⟩ := Option.map_eq_some_iff.mp hstep
    have henters : ∀ node state, s.workers worker = .enter node state →
        s.run.status ≠ .cancelled := by
      intro node state hphase
      unfold Respects at hrespects
      dsimp only at hrespects
      rw [hphase] at hrespects
      exact hrespects
    obtain ⟨hsame, hok⟩ := (hs.workers worker).advance henters hadvance
    refine ⟨hs.move (.inl hsame) (fun other => ?_) fun task hmem => .inl hmem, hsame.mpr⟩
    by_cases hother : other = worker
    · subst hother
      exact .inr (by rwa [Function.update_self])
    · exact .inl (Function.update_of_ne hother _ _)
  | throw worker =>
    cases hstep
    refine ⟨hs.move (.inl Iff.rfl) (fun other => ?_) fun task hmem => .inl hmem, id⟩
    by_cases hother : other = worker
    · subst hother
      right
      rw [Function.update_self]
      exact fun hwrites => hwrites.elim
    · exact .inl (Function.update_of_ne hother _ _)
  | commandStart worker pid =>
    dsimp only at hstep
    split at hstep <;> cases hstep
    exact ⟨hspawn _ rfl, id⟩
  | commandFinish worker pid =>
    dsimp only at hstep
    split at hstep <;> cases hstep
    exact ⟨hspawn _ trivial, id⟩
  | requestCancel =>
    cases hstep
    exact ⟨hspawn _ trivial, id⟩
  | requestApproval =>
    cases hstep
    exact ⟨hspawn _ trivial, id⟩
  | task index =>
    obtain ⟨task, htask, rfl⟩ := Option.map_eq_some_iff.mp hstep
    obtain ⟨hstatus, hrest⟩ := (hs.tasks task (List.mem_of_getElem? htask)).advance
    have hmoves : ((task.advance s.run).1.status = .cancelled ↔ s.run.status = .cancelled) ∨
        s.Quiet := by
      obtain hsame | ⟨rfl, hcancellable⟩ := hstatus
      · exact .inl hsame
      · exact .inr (hrespects htask hcancellable)
    refine ⟨hs.move hmoves (fun _ => .inl rfl) fun other hmem => ?_, fun hcancelled => ?_⟩
    · change other ∈ (match (task.advance s.run).2 with
        | some task => s.tasks.set index task
        | none => s.tasks.eraseIdx index) at hmem
      cases hnext : (task.advance s.run).2 with
      | none =>
        rw [hnext] at hmem
        exact .inl (List.mem_of_mem_eraseIdx hmem)
      | some rest =>
        rw [hnext] at hmem
        obtain hold | rfl := List.mem_or_eq_of_mem_set hmem
        · exact .inl hold
        · exact .inr (hrest _ hnext)
    · obtain hsame | ⟨rfl, hcancellable⟩ := hstatus
      · exact hsame.mpr hcancelled
      · rw [hcancelled] at hcancellable
        cases hcancellable
  | drop index =>
    cases hstep
    exact ⟨hs.move (.inl Iff.rfl) (fun _ => .inl rfl) fun task hmem =>
      .inl (List.mem_of_mem_eraseIdx hmem), id⟩

theorem start_invariant (projectConfig : ProjectConfig) :
    (System.start projectConfig).Invariant := by
  refine ⟨fun worker hwrites => hwrites.elim, fun task hmem => ?_⟩
  rw [List.mem_singleton.mp hmem]
  exact rfl

end

/-- In a run whose cancellations take effect in quiet moments, and in which no node starts on a
cancelled run, a cancellation is final. -/
theorem cancelled_final {projectConfig : ProjectConfig} {xs ys : List SystemAction} {s t : System}
    (hrun : Run (Guarded Respects (StepOf System.next)) (System.start projectConfig) xs s)
    (hcancelled : s.run.status = .cancelled)
    (hrest : Run (Guarded Respects (StepOf System.next)) s ys t) : t.run.status = .cancelled := by
  have hs : s.Invariant := hrun.preserves (I := System.Invariant)
    (fun _ _ _ hstep hs => (step_cancelled hs hstep).1) (start_invariant projectConfig)
  exact (hrest.preserves (I := fun u => u.Invariant ∧ u.run.status = .cancelled)
    (fun _ _ _ hstep hu => ⟨(step_cancelled hu.1 hstep).1, (step_cancelled hu.1 hstep).2 hu.2⟩)
    ⟨hs, hcancelled⟩).2

namespace Sample

def advance (answer : Text := []) : SystemAction := .advance 0 answer "/workspace"

/-- The run is created and claimed, and its files are being indexed when it is to be cancelled. -/
def indexing : List SystemAction :=
  [.task 0, .task 0] ++ List.replicate 4 advance ++ [.requestCancel, .task 0]

def indexed : System := Run.final System.next (System.start ⟨3⟩) indexing

def cancelled : System := Run.final System.next indexed [.task 0]

/-- No cancellation takes effect, and the run is not cancelled when a worker goes on. -/
def Plain (s : System) : SystemAction → Prop
  | .advance _ _ _ => s.run.status ≠ .cancelled
  | .task index =>
    match s.tasks[index]? with
    | some .cancelWrite => False
    | _ => True
  | _ => True

instance (s : System) (x : SystemAction) : Decidable (Plain s x) := by
  unfold Plain
  split
  · infer_instance
  · split <;> infer_instance
  · infer_instance

theorem respects_of_plain {s : System} {x : SystemAction} (h : Plain s x) : Respects s x := by
  cases x with
  | advance worker text created =>
    simp only [Respects]
    split
    · exact h
    · trivial
  | task index =>
    intro hcancel
    simp only [Plain, hcancel] at h
  | _ => trivial

theorem plain_run {s : System} {xs : List SystemAction}
    (h : (xs.foldlM (fun s x => if Plain s x then s.next x else none) s).isSome) :
    Run (Guarded Respects (StepOf System.next)) s xs (Run.final System.next s xs) :=
  (Run.to_final_guarded h).mono fun _ _ _ hstep => ⟨respects_of_plain hstep.1, hstep.2⟩

theorem indexed_quiet : indexed.Quiet := by
  constructor
  · intro worker
    by_cases hworker : worker = 0
    · subst hworker
      exact id
    · have hworkers : indexed.workers = Function.update (Function.update (Function.update
          (Function.update (fun _ => .idle) 0 _) 0 _) 0 _) 0 _ := rfl
      rw [hworkers]
      simp only [Function.update_of_ne hworker]
      exact id
  · intro task hmem
    have htasks : indexed.tasks = [.cancelWrite] := rfl
    rw [htasks] at hmem
    rw [List.mem_singleton.mp hmem]
    exact id

/-- The nodes after the indexing, the end of the graph, and an approval. -/
def resumed : List SystemAction :=
  List.replicate 20 advance ++ [.requestApproval, .task 0, .task 0]

end Sample

/-- A cancellation while the files are indexed, after which the worker stops. -/
theorem cancelled_final_sample : Sample.cancelled.run.status = .cancelled ∧
    (Run.final System.next Sample.cancelled [.throw 0]).run.status = .cancelled := by
  have hbegins : Run (Guarded Respects (StepOf System.next)) (System.start ⟨3⟩) Sample.indexing
      Sample.indexed := Sample.plain_run (by decide +kernel)
  have hcancels : Guarded Respects (StepOf System.next) Sample.indexed (.task 0) Sample.cancelled :=
    ⟨fun _ _ => Sample.indexed_quiet, by rfl⟩
  have hcancelled : Sample.cancelled.run.status = .cancelled := by decide +kernel
  have hends : Run (Guarded Respects (StepOf System.next)) Sample.cancelled [.throw 0]
      (Run.final System.next Sample.cancelled [.throw 0]) := Sample.plain_run (by decide +kernel)
  exact ⟨hcancelled, cancelled_final (hbegins.snoc hcancels) hcancelled hends⟩

/-- The same cancellation, but the worker goes on: the run waits for approval, and succeeds. -/
theorem cancelled_resumed :
    Run (StepOf System.next) (System.start ⟨3⟩)
    (Sample.indexing ++ [.task 0]) Sample.cancelled ∧
    Sample.cancelled.run.status = .cancelled ∧
    Run (StepOf System.next) Sample.cancelled Sample.resumed
      (Run.final System.next Sample.cancelled Sample.resumed) ∧
    (Run.final System.next Sample.cancelled (List.replicate 20 Sample.advance)).run.status =
      .waitingApproval ∧
    (Run.final System.next Sample.cancelled Sample.resumed).run.status = .succeeded := by
  refine ⟨?_, by decide +kernel, Run.to_final (by decide +kernel), by decide +kernel,
    by decide +kernel⟩
  have hbegins : Run (StepOf System.next) (System.start ⟨3⟩) Sample.indexing Sample.indexed :=
    Run.to_final (by decide +kernel)
  exact hbegins.snoc (show StepOf System.next Sample.indexed (.task 0) Sample.cancelled from rfl)

end MiracleAuction.Agents
