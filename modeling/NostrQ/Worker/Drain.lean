import NostrQ.Worker.Exclusion

/-!
# The return of the worker

A loop that is told to stop waits until it has all the permits of its semaphore,
and returns then; a failing fetch makes it return at once.
-/

namespace NostrQ.Worker

open NostrQ.Foundation NostrQ.Core NostrQ.Database NostrQ.Sdk

/-- A fetch may also fail for reasons that are not in the store's contents. -/
inductive WorkerError where
  | store (error : StoreError)
  | database (message : String)

inductive WorkerExit where
  | looping
  | draining
  | returned (result : Except WorkerError Unit)

structure WorkerRun (Envelope : Type) where
  process : Process Envelope
  exit : WorkerExit

inductive RunAction (Envelope : Type) where
  | process (action : ProcessAction Envelope)
  | fetchFailed (message : String)
  | drained

namespace WorkerRun

variable {Envelope : Type} (W : ProcessSetup Envelope)

/-- The `limit` and the number of permits are passed as a `u32`. -/
def slots : Nat := (Fin.ofNat 4294967296 W.options.concurrency : U32).val

def fetchError? (p : Process Envelope) : Option StoreError :=
  match p.poll with
  | .fetching =>
      match p.store.claimable (W.scan p.time) W.queue (timestamp p.time)
          (Fin.ofNat 4294967296 W.options.concurrency) with
      | .error e => some e
      | .ok _ => none
  | _ => none

def exitAfter (p : Process Envelope) : ProcessAction Envelope → WorkerExit
  | .shutdown => .draining
  | .poll =>
      match fetchError? W p with
      | some e => .returned (.error (.store e))
      | none => .looping
  | _ => .looping

def processStep (w : WorkerRun Envelope) (action : ProcessAction Envelope) :
    Option (WorkerRun Envelope) :=
  (w.process.step W action).map fun process =>
    match w.exit with
    | .looping => ⟨process, exitAfter W w.process action⟩
    | exit => ⟨process, exit⟩

def failFetch (w : WorkerRun Envelope) (message : String) :
    Option (WorkerRun Envelope) :=
  match w.exit, w.process.poll with
  | .looping, .fetching =>
      some ⟨{ w.process with poll := .stopped },
        .returned (.error (.database message))⟩
  | _, _ => none

/-- All permits are acquired at once, when so many are free. -/
def drain (w : WorkerRun Envelope) : Option (WorkerRun Envelope) :=
  match w.exit with
  | .draining =>
      if slots W ≤ w.process.permits then
        some ⟨{ w.process with permits := w.process.permits - slots W },
          .returned (.ok ())⟩
      else none
  | _ => none

def step (w : WorkerRun Envelope) :
    RunAction Envelope → Option (WorkerRun Envelope)
  | .process action => w.processStep W action
  | .fetchFailed message => w.failFetch message
  | .drained => w.drain W

def system : System (WorkerRun Envelope) (RunAction Envelope) where
  init w := w.process.Started W ∧ w.exit = .looping
  step := step W

def Returned (w : WorkerRun Envelope) : Prop :=
  ∃ result, w.exit = .returned result

def Idle (w : WorkerRun Envelope) : Prop :=
  ∀ task ∈ w.process.tasks, task.job.phase = .finished

/--
No fetch fails while a task is at work, and a loop that has more slots than a
`u32` counts does not drain while one is.
-/
def StopsIdle (w : WorkerRun Envelope) : RunAction Envelope → Prop
  | .process .poll => fetchError? W w.process = none ∨ w.Idle
  | .fetchFailed _ => w.Idle
  | .drained => W.options.concurrency < 4294967296 ∨ w.Idle
  | _ => True

instance (w : WorkerRun Envelope) : Decidable w.Idle :=
  inferInstanceAs (Decidable (∀ task ∈ w.process.tasks, _))

instance (w : WorkerRun Envelope) (a : RunAction Envelope) :
    Decidable (w.StopsIdle W a) :=
  match a with
  | .process .poll | .drained => inferInstanceAs (Decidable (_ ∨ _))
  | .fetchFailed _ => inferInstanceAs (Decidable w.Idle)
  | .process (.advance _) | .process .shutdown | .process (.task _ _)
  | .process (.post _) | .process (.publish _) | .process (.publishProceed _)
  | .process (.publishAccepted _ _) | .process (.publishFailed _)
  | .process (.ingest _) | .process (.dlqRetry _) =>
      inferInstanceAs (Decidable True)

end WorkerRun

/-! ## Permits -/

/-- The loop has a permit between the acquisition and the spawn. -/
def PollPhase.permits : PollPhase → Nat
  | .spawning _ _ => 1
  | _ => 0

namespace Process

variable {Envelope : Type} {W : ProcessSetup Envelope}
  {p p' : Process Envelope}

/-- The permits that the loop and its tasks have. -/
def permitsOut (p : Process Envelope) : Nat :=
  p.poll.permits + p.tasks.countP Task.permitted

theorem permits_of_holds {poll : PollPhase} (h : poll.holds? = none) :
    poll.permits = 0 := by
  cases poll <;> first | rfl | contradiction

private theorem countP_set_add {α : Type} (q : α → Bool) {l : List α} {a : α}
    (b : α) : ∀ {i : Nat}, l[i]? = some a →
      (l.set i b).countP q + (q a).toNat = l.countP q + (q b).toNat := by
  induction l with
  | nil => simp
  | cons first rest ih =>
      intro i h
      cases i with
      | zero =>
          rw [List.getElem?_cons_zero, Option.some.injEq] at h
          subst h
          simp only [List.set_cons_zero, List.countP_cons]
          cases q first <;> cases q b <;> simp
      | succ i =>
          have hrest := ih (by simpa using h)
          simp only [List.set_cons_succ, List.countP_cons]
          omega

theorem permitsOut_set {i : Nat} {task : Task} (task' : Task)
    (h : p.tasks[i]? = some task) :
    { p with tasks := p.tasks.set i task' }.permitsOut +
        task.permitted.toNat = p.permitsOut + task'.permitted.toNat := by
  have hcount := countP_set_add Task.permitted task' h
  simp only [permitsOut]
  omega

theorem permitted_of_dropPermit {i : Nat} {task : Task}
    (htask : p.tasks[i]? = some task) (hphase : task.job.phase = .finished)
    (hguarded : task.guarded = false)
    (h : p.step W (.task i .drop) = some p') : task.permitted = true := by
  simp only [step, htask, Option.bind_some, taskStep, dropTask] at h
  rw [if_neg (by simp [hphase]), if_neg (by simp [hguarded])] at h
  split at h
  · assumption
  · contradiction

theorem permits_step {a : ProcessAction Envelope}
    (hs : p.step W a = some p') :
    p'.permits + p'.permitsOut = p.permits + p.permitsOut := by
  cases step_cases hs with
  | advance | post | call | publish _ _ _ _ | ingest | dlqRetry => rfl
  | sweep hpoll | fetch hpoll _ | skip hpoll _ | enter hpoll _ | refuse hpoll =>
      simp only [permitsOut, hpoll]
      rfl
  | acquire hpoll hfree =>
      simp only [permitsOut, hpoll, PollPhase.permits]
      omega
  | spawn hpoll =>
      simp only [permitsOut, hpoll, PollPhase.permits, List.countP_append]
      simp [Task.spawn]
      omega
  | turn _ hbefore hafter _ =>
      simp only [permitsOut, permits_of_holds hbefore, permits_of_holds hafter]
  | @work i task move relay store next htask _ =>
      have hset := permitsOut_set
        { task with job := { task.job with phase := next } } htask
      exact congrArg (p.permits + ·) (Nat.add_right_cancel hset)
  | @dropGuard i task htask _ _ =>
      have hset := permitsOut_set { task with guarded := false } htask
      exact congrArg (p.permits + ·) (Nat.add_right_cancel hset)
  | @dropPermit i task htask hphase hguarded =>
      have hset := permitsOut_set { task with permitted := false } htask
      rw [permitted_of_dropPermit htask hphase hguarded hs] at hset
      simp only [permitsOut, Bool.toNat_true, Bool.toNat_false] at hset ⊢
      omega

def Permitted (p : Process Envelope) : Prop :=
  ∀ task ∈ p.tasks, task.permitted = false → task.job.phase = .finished

theorem Permitted.set (h : p.Permitted) {i : Nat} {task : Task}
    (htask : task.permitted = false → task.job.phase = .finished) :
    { p with tasks := p.tasks.set i task }.Permitted := by
  intro other hother
  rcases List.mem_or_eq_of_mem_set hother with hold | rfl
  · exact h other hold
  · exact htask

theorem Permitted.step {a : ProcessAction Envelope} (h : p.Permitted)
    (hs : p.step W a = some p') : p'.Permitted := by
  cases step_cases hs with
  | advance | post | call | publish _ _ _ _ | ingest | dlqRetry => exact h
  | sweep _ | fetch _ _ | skip _ _ | enter _ _ | refuse _ | acquire _ _
  | turn _ _ _ _ => exact h
  | spawn _ =>
      intro task htask hpermitted
      rcases List.mem_append.mp htask with hold | hnew
      · exact h task hold hpermitted
      · rw [List.mem_singleton.mp hnew] at hpermitted
        contradiction
  | work htask hworks =>
      refine Permitted.set h fun hpermitted => ?_
      exact (hworks.finished
        (h _ (List.mem_of_getElem? htask) hpermitted)).1
  | dropGuard htask hphase _ => exact Permitted.set h fun _ => hphase
  | dropPermit htask hphase _ => exact Permitted.set h fun _ => hphase

theorem finished_step {a : ProcessAction Envelope}
    (hpoll : p.poll = .stopped)
    (h : ∀ task ∈ p.tasks, task.job.phase = .finished)
    (hs : p.step W a = some p') :
    ∀ task ∈ p'.tasks, task.job.phase = .finished := by
  have hset {i : Nat} {task : Task} (htask : task.job.phase = .finished) :
      ∀ other ∈ p.tasks.set i task, other.job.phase = .finished := by
    intro other hother
    rcases List.mem_or_eq_of_mem_set hother with hold | rfl
    · exact h other hold
    · exact htask
  cases step_cases hs with
  | advance | post | call | publish _ _ _ _ | ingest | dlqRetry => exact h
  | sweep _ | fetch _ _ | skip _ _ | enter _ _ | refuse _ | acquire _ _
  | turn _ _ _ _ => exact h
  | spawn hspawning => cases hpoll.symm.trans hspawning
  | work htask hworks =>
      exact hset (hworks.finished (h _ (List.mem_of_getElem? htask))).1
  | dropGuard _ hphase _ | dropPermit _ hphase _ => exact hset hphase

theorem stopped_step {a : ProcessAction Envelope} (hpoll : p.poll = .stopped)
    (hs : p.step W a = some p') : p'.poll = .stopped := by
  cases step_cases hs with
  | advance | post | call | publish _ _ _ _ | ingest | dlqRetry => exact hpoll
  | work _ _ | dropGuard _ _ _ | dropPermit _ _ _ => exact hpoll
  | sweep h | fetch h _ | skip h _ | enter h _ | refuse h | acquire h _
  | spawn h => cases hpoll.symm.trans h
  | turn ha _ _ _ =>
      rcases ha with rfl | rfl
      · simp [step, pollStep, hpoll] at hs
      · simp [step, shutdown, hpoll] at hs

end Process

/-! ## Every return -/

namespace WorkerRun

variable {Envelope : Type} {W : ProcessSetup Envelope}
  {w w' : WorkerRun Envelope}

theorem exitAfter_cases {action : ProcessAction Envelope}
    {process : Process Envelope}
    (hs : w.process.step W action = some process) :
    exitAfter W w.process action = .looping ∨
    (action = .shutdown ∧ exitAfter W w.process action = .draining ∧
      process.poll = .stopped) ∨
    ∃ e, action = .poll ∧ fetchError? W w.process = some e ∧
      exitAfter W w.process action = .returned (.error (.store e)) ∧
      process.poll = .stopped ∧ process.tasks = w.process.tasks := by
  unfold exitAfter
  split
  · right
    left
    refine ⟨rfl, rfl, ?_⟩
    simp only [Process.step, Process.shutdown] at hs
    split at hs <;> cases hs <;> rfl
  · split
    · next e hfetch =>
        right
        right
        refine ⟨e, rfl, hfetch, rfl, ?_⟩
        unfold fetchError? at hfetch
        split at hfetch
        · next hpoll =>
            split at hfetch
            · next hclaimable =>
                simp only [Process.step, Process.pollStep, hpoll,
                  hclaimable] at hs
                cases hs
                exact ⟨rfl, rfl⟩
            · contradiction
        · contradiction
    · exact Or.inl rfl
  · exact Or.inl rfl

structure Draining (W : ProcessSetup Envelope) (w : WorkerRun Envelope) :
    Prop where
  permits : ¬ w.Returned →
    w.process.permits + w.process.permitsOut = W.options.concurrency
  permitted : w.process.Permitted
  stopped : w.exit ≠ .looping → w.process.poll = .stopped
  returned : w.Returned → w.Idle

theorem Draining.processStep (h : w.Draining W)
    {action : ProcessAction Envelope}
    (horderly : w.StopsIdle W (.process action))
    (hs : w.processStep W action = some w') : w'.Draining W := by
  obtain ⟨process, hprocess, rfl⟩ := Option.map_eq_some_iff.mp hs
  have hpermits := Process.permits_step hprocess
  have hpermitted := h.permitted.step hprocess
  obtain ⟨before, exit⟩ := w
  cases exit with
  | looping =>
      have hcount := h.permits (by rintro ⟨_, ⟨⟩⟩)
      rcases exitAfter_cases hprocess with
        hexit | ⟨rfl, hexit, hpoll⟩ | ⟨e, rfl, hfetch, hexit, hpoll, htasks⟩
      · refine ⟨fun _ => hpermits.trans hcount, hpermitted, ?_, ?_⟩
        · exact fun hlooping => absurd hexit hlooping
        · rintro ⟨result, hresult⟩
          cases hexit.symm.trans hresult
      · refine ⟨fun _ => hpermits.trans hcount, hpermitted, fun _ => hpoll, ?_⟩
        rintro ⟨result, hresult⟩
        cases hexit.symm.trans hresult
      · refine ⟨fun hrunning => absurd ⟨_, hexit⟩ hrunning, hpermitted,
          fun _ => hpoll, fun _ => ?_⟩
        have hidle := horderly.resolve_left (by simp [hfetch])
        intro task htask
        exact hidle task (htasks ▸ htask)
  | draining =>
      have hpoll := h.stopped nofun
      refine ⟨fun _ => hpermits.trans (h.permits (by rintro ⟨_, ⟨⟩⟩)),
        hpermitted, fun _ => Process.stopped_step hpoll hprocess, ?_⟩
      rintro ⟨_, ⟨⟩⟩
  | returned result =>
      have hpoll := h.stopped nofun
      exact ⟨fun hrunning => absurd ⟨_, rfl⟩ hrunning, hpermitted,
        fun _ => Process.stopped_step hpoll hprocess,
        fun _ => Process.finished_step hpoll (h.returned ⟨_, rfl⟩) hprocess⟩

theorem Draining.idle (h : w.Draining W) (hrunning : ¬ w.Returned)
    (hall : W.options.concurrency ≤ w.process.permits) : w.Idle := by
  have hcount := h.permits hrunning
  have hnone : w.process.tasks.countP Task.permitted = 0 := by
    rw [Process.permitsOut] at hcount
    omega
  intro task htask
  refine h.permitted task htask ?_
  simpa using List.countP_eq_zero.mp hnone task htask

theorem slots_of_lt (h : W.options.concurrency < 4294967296) :
    slots W = W.options.concurrency :=
  Nat.mod_eq_of_lt h

theorem Draining.step {action : RunAction Envelope} (h : w.Draining W)
    (horderly : w.StopsIdle W action) (hs : w.step W action = some w') :
    w'.Draining W := by
  cases action with
  | process action => exact h.processStep horderly hs
  | fetchFailed message =>
      simp only [WorkerRun.step, failFetch] at hs
      split at hs
      · cases hs
        exact ⟨fun hrunning => absurd ⟨_, rfl⟩ hrunning, h.permitted,
          fun _ => rfl, fun _ => horderly⟩
      · contradiction
  | drained =>
      simp only [WorkerRun.step, drain] at hs
      split at hs
      · next hexit =>
          split at hs
          · next hslots =>
              cases hs
              refine ⟨fun hrunning => absurd ⟨_, rfl⟩ hrunning, h.permitted,
                fun _ => h.stopped (by simp [hexit]), fun _ => ?_⟩
              rcases horderly with hsmall | hidle
              · rw [slots_of_lt hsmall] at hslots
                exact h.idle (by rintro ⟨_, hresult⟩; simp [hexit] at hresult)
                  hslots
              · exact hidle
          · contradiction
      · contradiction

theorem draining (h : (system W).Reach (StopsIdle W) w) : w.Draining W := by
  refine h.invariant ?_ fun _ _ _ _ hdraining horderly hs =>
    hdraining.step horderly hs
  rintro w ⟨hstarted, hexit⟩
  refine ⟨fun _ => ?_, ?_, fun hlooping => absurd hexit hlooping, ?_⟩
  · simp [Process.permitsOut, hstarted.poll, hstarted.tasks, hstarted.permits,
      PollPhase.permits]
  · intro task htask
    simp [hstarted.tasks] at htask
  · rintro ⟨result, hresult⟩
    cases hexit.symm.trans hresult

theorem Draining.not_orderly {action : RunAction Envelope} (h : w.Draining W)
    (hs : w.step W action = some w') (hbroken : ¬ w.StopsIdle W action) :
    w'.Returned ∧ ¬ w'.Idle := by
  unfold StopsIdle at hbroken
  split at hbroken
  · obtain ⟨hfetch, hbusy⟩ := not_or.mp hbroken
    obtain ⟨process, hprocess, rfl⟩ := Option.map_eq_some_iff.mp hs
    obtain ⟨before, exit⟩ := w
    have hlooping : exit = .looping := by
      by_contra hnot
      have hpoll := h.stopped hnot
      simp only at hpoll
      simp [fetchError?, hpoll] at hfetch
    subst hlooping
    rcases exitAfter_cases hprocess with
      hexit | ⟨h, -⟩ | ⟨e, -, -, hexit, -, htasks⟩
    · obtain ⟨e, he⟩ := Option.ne_none_iff_exists'.mp hfetch
      simp [exitAfter, he] at hexit
    · contradiction
    · refine ⟨⟨_, hexit⟩, fun hidle => hbusy fun task htask => ?_⟩
      exact hidle task (htasks.symm ▸ htask)
  · simp only [WorkerRun.step, failFetch] at hs
    split at hs
    · cases hs
      exact ⟨⟨_, rfl⟩, hbroken⟩
    · contradiction
  · obtain ⟨-, hbusy⟩ := not_or.mp hbroken
    simp only [WorkerRun.step, drain] at hs
    split at hs
    · split at hs
      · cases hs
        exact ⟨⟨_, rfl⟩, hbusy⟩
      · contradiction
    · contradiction
  · exact absurd trivial hbroken

theorem Idle.quiet (h : w.Idle) {i : Nat} {move : TaskMove}
    (hs : w.step W (.process (.task i move)) = some w') :
    w'.process.relay = w.process.relay ∧
      w'.process.store = w.process.store := by
  obtain ⟨process, hprocess, rfl⟩ := Option.map_eq_some_iff.mp hs
  have hsame : process.relay = w.process.relay ∧
      process.store = w.process.store := by
    cases Process.step_cases hprocess with
    | turn ha _ _ _ => rcases ha with ha | ha <;> cases ha
    | work htask hworks =>
        exact (hworks.finished (h _ (List.mem_of_getElem? htask))).2
    | dropGuard _ _ _ | dropPermit _ _ _ => exact ⟨rfl, rfl⟩
    | publish ha _ _ _ => rcases ha with ha | ⟨_, ha⟩ | ha <;> cases ha
  split <;> exact hsame

/--
When the worker has returned, every task is finished and none does anything
more; and a step that is not orderly returns while a task is at work.
-/
theorem drained_on_return (h : (system W).Reach (StopsIdle W) w) :
    (w.Returned → w.Idle ∧ ∀ i move w',
      w.step W (.process (.task i move)) = some w' →
        w'.process.relay = w.process.relay ∧
          w'.process.store = w.process.store) ∧
    ∀ action w', w.step W action = some w' → ¬ w.StopsIdle W action →
      w'.Returned ∧ ¬ w'.Idle :=
  have hdraining := draining h
  ⟨fun hreturned => ⟨hdraining.returned hreturned,
    fun _ _ _ hs => (hdraining.returned hreturned).quiet hs⟩,
  fun _ _ hs hbroken => hdraining.not_orderly hs hbroken⟩

section Runs

def sampleRun : WorkerRun String := ⟨Process.sampleBoot, .looping⟩

def handlingMoves : List (ProcessAction String) :=
  List.replicate 6 .poll ++ Process.winMoves 0 (hexOf '1') ++
    [.task 0 .proceed]

def drainMoves : List (ProcessAction String) :=
  [.shutdown, .task 0 (.handled .success), .task 0 .proceed,
    .task 0 (.publish 0 (hexOf '2')), .task 0 .proceed, .task 0 .proceed,
    .task 0 .drop, .task 0 .drop]

def fetchMoves : List (ProcessAction String) := [.advance 500, .poll, .poll]

def returned? (w : WorkerRun Envelope) : Bool :=
  match w.exit with
  | .returned _ => true
  | _ => false

theorem returned_of_returned? (h : w.returned? = true) : w.Returned := by
  unfold returned? at h
  split at h
  · next result hexit => exact ⟨result, hexit⟩
  · contradiction

theorem drained_on_return_once :
    ∃ w : WorkerRun String, w.Returned ∧ w.process.tasks.length = 1 ∧
      w.Idle := by
  obtain ⟨w, hreach, htest⟩ :=
    (System.Reach.init (S := system Process.sampleProcess)
      (P := StopsIdle Process.sampleProcess) (s := sampleRun)
      ⟨Process.sampleBoot_started, rfl⟩).of_run_check
      ((handlingMoves ++ drainMoves).map .process ++ [.drained])
      (fun w => w.returned? && w.process.tasks.length == 1) (by decide)
  obtain ⟨hreturned, hlength⟩ := (Bool.and_eq_true _ _).mp htest
  exact ⟨w, returned_of_returned? hreturned, by simpa using hlength,
    ((drained_on_return hreach).1 (returned_of_returned? hreturned)).1⟩

/-- The worker has returned, and the handler of its task runs. -/
theorem failed_fetch_abandons :
    ∃ w : WorkerRun String,
      (system Process.sampleProcess).Reach System.Free w ∧ w.Returned ∧
        ∃ task ∈ w.process.tasks, task.Running := by
  obtain ⟨w, hreach, htest⟩ :=
    (System.Reach.init (S := system Process.sampleProcess) (P := System.Free)
      (s := sampleRun) ⟨Process.sampleBoot_started, rfl⟩).of_run_check
      ((handlingMoves ++ fetchMoves).map .process ++
        [.fetchFailed "database is locked"])
      (fun w => w.returned? && w.process.tasks.any fun task =>
        decide task.Running) (by decide)
  obtain ⟨hreturned, hrunning⟩ := (Bool.and_eq_true _ _).mp htest
  exact ⟨w, hreach, returned_of_returned? hreturned,
    by simpa using hrunning⟩

end Runs

end WorkerRun

end NostrQ.Worker
