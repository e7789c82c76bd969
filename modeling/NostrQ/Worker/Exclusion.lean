import NostrQ.Worker.Process

/-!
# One job at a time, and success is final

The set of messages in flight is consulted once, before the spawn; the guard
that empties it lives as long as the task.  A row fetched before an ack may
still be spawned after it, and is then stopped by the terminal query.
-/

namespace NostrQ.Worker

open NostrQ.Foundation NostrQ.Core NostrQ.Database NostrQ.Sdk

namespace Process

variable {Envelope : Type} {W : ProcessSetup Envelope}
  {p p' : Process Envelope}

/-! ## The guard -/

/-- Who holds a message in flight: the loop, and each task. -/
def holders (p : Process Envelope) : List (Option String) :=
  p.poll.holds? :: p.tasks.map Task.holds?

structure Guarded (p : Process Envelope) : Prop where
  registered : Registered p.inFlight p.holders
  finished : ∀ task ∈ p.tasks, task.guarded = false →
    task.job.phase = .finished

theorem holders_of_task {i : Nat} {task : Task} (h : p.tasks[i]? = some task)
    (hguarded : task.guarded = true) :
    p.holders[i + 1]? = some (some task.mid) := by
  simp [holders, h, Task.holds?, hguarded]

theorem holders_set {i : Nat} {task : Task} :
    { p with tasks := p.tasks.set i task }.holders =
      p.holders.set (i + 1) task.holds? := by
  simp [holders, List.map_set]

theorem holders_set_self {i : Nat} {task : Task} (task' : Task)
    (h : p.tasks[i]? = some task) (hholds : task'.holds? = task.holds?) :
    { p with tasks := p.tasks.set i task' }.holders = p.holders := by
  obtain ⟨hlt, rfl⟩ := List.getElem?_eq_some_iff.mp h
  rw [holders_set, hholds]
  refine List.ext_getElem? fun j => ?_
  rw [List.getElem?_set]
  split
  · next hj =>
      subst hj
      simp [holders, hlt]
  · rfl

theorem finished_set {i : Nat} {task : Task}
    (h : ∀ task ∈ p.tasks, task.guarded = false → task.job.phase = .finished)
    (htask : task.guarded = false → task.job.phase = .finished) :
    ∀ other ∈ p.tasks.set i task, other.guarded = false →
      other.job.phase = .finished := by
  intro other hother
  rcases List.mem_or_eq_of_mem_set hother with hold | rfl
  · exact h other hold
  · exact htask

theorem Works.finished {job : Job} {move : TaskMove} {relay : Relay}
    {store : Store} {next : JobPhase}
    (h : Works W p job move relay store next) (hphase : job.phase = .finished) :
    next = .finished ∧ relay = p.relay ∧ store = p.store := by
  cases h with
  | proceed hproceeds =>
      rw [hphase] at hproceeds
      cases hproceeds
  | query heq _ _ | contend heq | settle heq _ _ | handled heq =>
      cases hphase.symm.trans heq
  | lose _ hfailed | fail hfailed =>
      rw [hphase] at hfailed
      cases hfailed
  | panic => exact ⟨rfl, rfl, rfl⟩

theorem Guarded.same (h : p.Guarded) (hholds : p'.poll.holds? = p.poll.holds?)
    (htasks : p'.tasks = p.tasks) (hset : p'.inFlight = p.inFlight) :
    p'.Guarded := by
  have hholders : p'.holders = p.holders := by rw [holders, hholds, htasks]; rfl
  exact ⟨hset ▸ hholders ▸ h.registered, htasks ▸ h.finished⟩

theorem Guarded.step {a : ProcessAction Envelope} (h : p.Guarded)
    (hs : p.step W a = some p') : p'.Guarded := by
  cases step_cases hs with
  | advance | post | call | publish _ _ _ _ | ingest | dlqRetry =>
      exact h.same rfl rfl rfl
  | sweep hpoll | fetch hpoll _ | skip hpoll _ | acquire hpoll _ =>
      exact h.same (by rw [hpoll]; rfl) rfl rfl
  | turn _ hbefore hafter _ => exact h.same (hafter.trans hbefore.symm) rfl rfl
  | enter hpoll hnew => exact ⟨h.registered.enter hnew 0, h.finished⟩
  | @refuse record batch hpoll =>
      have hheld : p.holders[0]? = some (some record.mid) := by
        simp [holders, hpoll, PollPhase.holds?]
      exact ⟨h.registered.leave hheld, h.finished⟩
  | @spawn record batch hpoll =>
      have hheld : p.holders[0]? = some (some record.mid) := by
        simp [holders, hpoll, PollPhase.holds?]
      refine ⟨?_, ?_⟩
      · have hgiven := h.registered.handOver hheld
        simpa [holders, PollPhase.holds?, Task.holds?, Task.spawn, Task.mid,
          Job.spawn] using hgiven
      · intro task htask
        rcases List.mem_append.mp htask with hold | hnew
        · exact h.finished task hold
        · rw [List.mem_singleton.mp hnew]
          simp [Task.spawn]
  | @work i task move relay store next htask hworks =>
      refine ⟨?_, finished_set h.finished fun hguarded => ?_⟩
      · have hholders := holders_set_self (p := p)
          { task with job := { task.job with phase := next } } htask rfl
        exact hholders ▸ h.registered
      · have hphase := h.finished task (List.mem_of_getElem? htask) hguarded
        exact (hworks.finished hphase).1
  | @dropGuard i task htask hphase hguarded =>
      refine ⟨?_, finished_set h.finished fun _ => hphase⟩
      have hleft := h.registered.leave (holders_of_task htask hguarded)
      rw [show ({ p.removeInFlight task.mid with
        tasks := p.tasks.set i { task with guarded := false } } :
          Process Envelope).holders = p.holders.set (i + 1) none from holders_set]
      exact hleft
  | @dropPermit i task htask hphase hguarded =>
      refine ⟨?_, finished_set h.finished fun _ => hphase⟩
      have hholders := holders_set_self (p := p)
        { task with permitted := false } htask rfl
      exact hholders ▸ h.registered

theorem guarded {P : Process Envelope → ProcessAction Envelope → Prop}
    (h : (system W).Reach P p) : p.Guarded :=
  h.invariant (I := Guarded)
    (fun p h₀ => by
      refine ⟨.of_forall_none ?_, by simp [h₀.tasks]⟩
      simp [holders, h₀.poll, h₀.tasks, PollPhase.holds?])
    fun _ _ _ _ hi _ hs => hi.step hs

/-- Two tasks of one message are one task, or one of them is done. -/
theorem Guarded.unique (h : p.Guarded) {i j : Nat} {first second : Task}
    (hi : p.tasks[i]? = some first) (hj : p.tasks[j]? = some second)
    (hmid : first.mid = second.mid)
    (hfirst : first.job.phase ≠ .finished)
    (hsecond : second.job.phase ≠ .finished) : i = j := by
  have guarded_of : ∀ {k : Nat} {task : Task}, p.tasks[k]? = some task →
      task.job.phase ≠ .finished → p.holders[k + 1]? = some (some task.mid) := by
    intro k task hk hphase
    refine holders_of_task hk ?_
    by_contra hguarded
    exact hphase (h.finished task (List.mem_of_getElem? hk) (by simpa using hguarded))
  have honce := h.registered.once (i + 1) (j + 1) first.mid
    (guarded_of hi hfirst) (hmid ▸ guarded_of hj hsecond)
  exact Nat.succ.inj honce

/-! ## The rows behind the tasks -/

/-- The row that the record was read from is still there. -/
def Known (s : Store) (record : MessageRecord) : Prop :=
  ∃ row, s.row? record.mid = some row ∧ row.eventId = record.eventId

def Concerns (record : MessageRecord) : JobPhase → Prop
  | .claiming (.entering entered _ _) => entered = record
  | .claiming (.during call _) =>
      call.record = record ∧ Hex32.fromHex record.eventId = some call.message
  | .settling (.acking mid) => mid = record.mid
  | .settling (.nacking mid _) => mid = record.mid
  | .settling (.during call _) =>
      call.record.mid = record.mid ∧
        Hex32.fromHex record.eventId = some call.message
  | _ => True

section Jobs

variable {s s' : Store} {record : MessageRecord} {job : Job}

theorem Known.keeps (h : Known s record) (hkeeps : s.Keeps s') :
    Known s' record := by
  obtain ⟨row, hrow, hevent⟩ := h
  obtain ⟨progress, hrow'⟩ := hkeeps record.mid row hrow
  exact ⟨row.set progress, hrow', hevent⟩

private theorem concerns_enter (record : MessageRecord)
    (leaseSeconds settleMs : U64) (now : Int) :
    Concerns record
      (.claiming (ClaimPhase.enter record leaseSeconds settleMs now)) := by
  rcases ClaimPhase.enter_cases record leaseSeconds settleMs now with
    ⟨heq, -⟩ | ⟨heq, -⟩ | ⟨message, hhex, heq⟩ <;> rw [heq]
  · trivial
  · trivial
  · exact ⟨rfl, hhex⟩

private theorem concerns_answers {events : List Event} {key : PublicKey}
    {phase next : ClaimPhase} (h : Concerns record (.claiming phase))
    (hanswers : ClaimPhase.Answers key events phase next) :
    Concerns record (.claiming next) := by
  cases hanswers with
  | @terminal call =>
      rcases call.afterTerminal_cases events with
        ⟨heq, -⟩ | ⟨heq, -⟩ | ⟨heq, -⟩ <;> rw [heq] <;> exact h
  | nacks | recheckClaims => exact h
  | @claims call observed =>
      rcases call.afterSurvey_cases key observed (parseClaims events) with
        ⟨_, -, -, heq⟩ | ⟨_, -, -, heq⟩ | ⟨-, heq⟩ <;> rw [heq]
      · exact h
      · trivial
      · exact h
  | @recheckNacks call observed claims =>
      rcases call.afterRecheck_cases key observed claims events with
        ⟨_, -, -, heq⟩ | ⟨-, heq⟩ <;> rw [heq]
      · exact h
      · trivial

private theorem concerns_settle (outcome : HandlerOutcome) :
    Concerns record (.settling (Job.settle record outcome)) := by
  cases outcome <;> rfl

private theorem concerns_start (h : Known s record) {mid : String}
    (hmid : mid = record.mid) (stage : SettleStage) :
    Concerns record (.settling (SettlePhase.start s mid stage)) := by
  subst hmid
  unfold SettlePhase.start
  split
  · trivial
  · next call hcall =>
      obtain ⟨row, hrow, hshows, hhex⟩ := messageRef_ok hcall
      obtain ⟨known, hknown, hevent⟩ := h
      cases hrow.symm.trans hknown
      exact ⟨hshows.mid.trans (Messages.row?_mem hrow).2, hevent ▸ hhex⟩

private theorem concerns_proceeds {key : PublicKey} {time : Nat}
    {next : JobPhase} (h : Concerns job.record job.phase)
    (hknown : Known s job.record)
    (hproceeds : Job.Proceeds key s time job job.phase s' next) :
    Concerns job.record next := by
  generalize job.phase = phase at h hproceeds
  cases hproceeds with
  | @claimed result =>
      unfold Job.afterClaim
      split <;> trivial
  | claim hproceeds =>
      cases hproceeds with
      | enter =>
          cases h
          exact concerns_enter _ _ _ _
      | expire | finish _ => trivial
      | wake _ => exact h
  | timeout _ => exact concerns_settle _
  | settled => trivial
  | settle hproceeds =>
      cases hproceeds with
      | ack | nack => exact concerns_start hknown h _
      | configure => exact h
      | @count call reason config =>
          rcases SettlePhase.count_snd (s := s) call reason config with
            ⟨_, _, -, -, heq⟩ | ⟨_, heq, -⟩ <;> rw [heq]
          · exact h
          · trivial
      | finish _ => trivial

private theorem concerns_accepts {phase next : SettlePhase}
    (h : Concerns record (.settling phase))
    (haccepts : SettlePhase.Accepts phase next) :
    Concerns record (.settling next) := by
  cases haccepts with
  | ack | dlq => exact h
  | nack =>
      unfold SettleCall.afterNack
      split <;> exact h

theorem Works.concerns {move : TaskMove} {relay : Relay} {store : Store}
    {next : JobPhase} (h : Works W p job move relay store next)
    (hknown : Known p.store job.record) (hc : Concerns job.record job.phase) :
    Concerns job.record next := by
  cases h with
  | proceed hproceeds => exact concerns_proceeds hc hknown hproceeds
  | query heq _ hanswers => exact concerns_answers (heq ▸ hc) hanswers
  | contend heq =>
      rw [heq] at hc
      exact hc
  | settle heq _ haccepts => exact concerns_accepts (heq ▸ hc) haccepts
  | lose _ hfailed | fail hfailed =>
      generalize job.phase = phase at hfailed
      cases hfailed <;> trivial
  | handled _ => exact concerns_settle _
  | panic => trivial

theorem Works.keeps {move : TaskMove} {relay : Relay} {store : Store}
    {next : JobPhase} (h : Works W p job move relay store next) :
    p.store.Keeps store := by
  cases h with
  | proceed hproceeds => exact hproceeds.rewrites.keeps
  | query _ _ _ | contend _ | settle _ _ _ | lose _ _ | fail _ | handled _
  | panic => exact Store.Keeps.refl _

theorem Works.relay {move : TaskMove} {relay : Relay} {store : Store}
    {next : JobPhase} (h : Works W p job move relay store next) :
    p.relay <+: relay := by
  cases h with
  | contend _ | settle _ _ _ | lose _ _ => exact List.prefix_append _ _
  | proceed _ | query _ _ _ | fail _ | handled _ | panic =>
      exact List.prefix_rfl

end Jobs

theorem step_keeps {a : ProcessAction Envelope} (hs : p.step W a = some p') :
    p.store.Keeps p'.store := by
  cases step_cases hs with
  | sweep _ => exact (Store.expireDue_rewrites _ _).keeps
  | work _ hworks => exact hworks.keeps
  | publish _ _ _ hstore =>
      rcases hstore with rfl | ⟨rec, -, rfl⟩
      · exact Store.Keeps.refl _
      · exact Store.insertMessage_keeps rec
  | ingest =>
      rename_i event
      change p.store.Keeps (ingest W.codec p.store event)
      rcases ingest_unclaimed W.codec p.store event with heq | ⟨rec, -, heq⟩
      · rw [heq]
        exact Store.Keeps.refl _
      · rw [heq]
        exact Store.insertMessage_keeps rec
  | dlqRetry => exact Store.dlqRetry_moves.rewrites.keeps
  | advance | fetch _ _ | skip _ _ | enter _ _ | refuse _ | acquire _ _ | spawn _
  | turn _ _ _ _ | dropGuard _ _ _ | dropPermit _ _ _ | post | call =>
      exact Store.Keeps.refl _

theorem step_relay {a : ProcessAction Envelope} (hs : p.step W a = some p') :
    p.relay <+: p'.relay := by
  cases step_cases hs with
  | work _ hworks => exact hworks.relay
  | post => exact List.prefix_append _ _
  | advance | sweep _ | fetch _ _ | skip _ _ | enter _ _ | refuse _ | acquire _ _
  | spawn _ | turn _ _ _ _ | dropGuard _ _ _ | dropPermit _ _ _ | call
  | publish _ _ _ _ | ingest | dlqRetry => exact List.prefix_rfl

structure Grounded (p : Process Envelope) : Prop where
  records : ∀ record ∈ p.poll.records, Known p.store record
  tasks : ∀ task ∈ p.tasks, Known p.store task.job.record ∧
    Concerns task.job.record task.job.phase

theorem Grounded.of_keeps (h : p.Grounded) (hkeeps : p.store.Keeps p'.store)
    (hrecords : ∀ record ∈ p'.poll.records, record ∈ p.poll.records ∨
      Known p'.store record)
    (htasks : ∀ task ∈ p'.tasks, task ∈ p.tasks ∨
      Known p'.store task.job.record ∧
        Concerns task.job.record task.job.phase) : p'.Grounded where
  records := by
    intro record hrecord
    rcases hrecords record hrecord with hold | hnew
    · exact (h.records record hold).keeps hkeeps
    · exact hnew
  tasks := by
    intro task htask
    rcases htasks task htask with hold | hnew
    · exact ⟨(h.tasks task hold).1.keeps hkeeps, (h.tasks task hold).2⟩
    · exact hnew

theorem known_of_claimable {scan : Scan Row} {queue : String} {now : Int}
    {limit : U32} {s : Store} {batch : List MessageRecord} {record : MessageRecord}
    (h : s.claimable scan queue now limit = .ok batch) (hrecord : record ∈ batch) :
    Known s record := by
  obtain ⟨row, hrow, -, hshows⟩ := Store.claimable_shows h hrecord
  exact ⟨row, hrow, hshows.eventId.symm⟩

theorem Grounded.step {a : ProcessAction Envelope} (h : p.Grounded)
    (hs : p.step W a = some p') : p'.Grounded := by
  have hkeeps := step_keeps hs
  cases step_cases hs with
  | advance | post | call | publish _ _ _ _ | ingest | dlqRetry =>
      exact h.of_keeps hkeeps (fun _ hr => Or.inl hr) fun _ ht => Or.inl ht
  | sweep _ =>
      exact h.of_keeps hkeeps (fun _ hr => by simp [PollPhase.records] at hr)
        fun _ ht => Or.inl ht
  | turn _ _ _ hnone =>
      exact h.of_keeps hkeeps (fun _ hr => by simp [hnone] at hr)
        fun _ ht => Or.inl ht
  | refuse _ =>
      exact h.of_keeps hkeeps
        (fun _ hr => by simp [rest, PollPhase.records] at hr)
        fun _ ht => Or.inl ht
  | fetch _ hbatch =>
      exact h.of_keeps hkeeps
        (fun _ hr => Or.inr (known_of_claimable hbatch hr)) fun _ ht => Or.inl ht
  | skip hpoll _ =>
      refine h.of_keeps hkeeps (fun _ hr => Or.inl ?_) fun _ ht => Or.inl ht
      rw [hpoll]
      exact List.mem_cons_of_mem _ hr
  | enter hpoll _ | acquire hpoll _ =>
      refine h.of_keeps hkeeps (fun _ hr => Or.inl ?_) fun _ ht => Or.inl ht
      rw [hpoll]
      exact hr
  | @spawn record batch hpoll =>
      refine h.of_keeps hkeeps (fun _ hr => Or.inl ?_) fun task ht => ?_
      · rw [hpoll]
        exact List.mem_cons_of_mem _ hr
      · rcases List.mem_append.mp ht with hold | hnew
        · exact Or.inl hold
        · rw [List.mem_singleton.mp hnew]
          have hmem : record ∈ p.poll.records := by
            rw [hpoll]
            exact List.mem_cons_self
          exact Or.inr ⟨h.records record hmem, rfl⟩
  | @work i task _ _ _ _ htask hworks =>
      refine h.of_keeps hkeeps (fun _ hr => Or.inl hr) fun other ht => ?_
      rcases List.mem_or_eq_of_mem_set ht with hold | rfl
      · exact Or.inl hold
      · obtain ⟨hknown, hconcerns⟩ := h.tasks task (List.mem_of_getElem? htask)
        exact Or.inr ⟨hknown.keeps hkeeps, hworks.concerns hknown hconcerns⟩
  | @dropGuard i task htask _ _ | @dropPermit i task htask _ _ =>
      refine h.of_keeps hkeeps (fun _ hr => Or.inl hr) fun other ht => ?_
      rcases List.mem_or_eq_of_mem_set ht with hold | rfl
      · exact Or.inl hold
      · exact Or.inr (h.tasks task (List.mem_of_getElem? htask))

theorem grounded {P : Process Envelope → ProcessAction Envelope → Prop}
    (h : (system W).Reach P p) : p.Grounded :=
  h.invariant (I := Grounded)
    (fun p h₀ => ⟨by simp [h₀.poll, PollPhase.records], by simp [h₀.tasks]⟩)
    fun _ _ _ _ hi _ hs => hi.step hs

/-! ## After an ack -/

def Acked (relay : Relay) (message : EventId) : Prop :=
  ∃ accepted ∈ relay, accepted.event.kind = KIND_ACK ∧
    (terminalFilter message).matchEvent accepted.event = true

/-- A job in this phase starts no handler once its message is acked. -/
def Barred : JobPhase → Prop
  | .claiming (.entering _ _ _) => True
  | .claiming (.expiring _ _) => True
  | .claiming (.during _ .terminalCheck) => True
  | .claiming (.during _ .ackObserved) => True
  | .claiming (.during _ _) => False
  | .claiming (.returned result) => result ≠ .ok true
  | .handling _ _ => False
  | .settling _ => True
  | .finished => True

/-- The message is acked, and no task of it can reach its handler any more. -/
structure Done (mid : String) (message : EventId) (p : Process Envelope) :
    Prop where
  stored : ∃ row, p.store.row? mid = some row ∧
    Hex32.fromHex row.eventId = some message
  acked : Acked p.relay message
  barred : ∀ task ∈ p.tasks, task.mid = mid → Barred task.job.phase

section Barring

variable {mid : String} {message : EventId} {job : Job}

theorem Acked.grow {relay relay' : Relay} (h : Acked relay message)
    (hgrown : relay <+: relay') : Acked relay' message := by
  obtain ⟨accepted, haccepted, hack⟩ := h
  exact ⟨accepted, hgrown.subset haccepted, hack⟩

theorem Barred.not_running {phase : JobPhase} (h : Barred phase) :
    Task.runs phase = false := by
  unfold Barred at h
  split at h <;> first | rfl | contradiction

private theorem barred_enter (record : MessageRecord)
    (leaseSeconds settleMs : U64) (now : Int) :
    Barred (.claiming (ClaimPhase.enter record leaseSeconds settleMs now)) := by
  rcases ClaimPhase.enter_cases record leaseSeconds settleMs now with
    ⟨heq, -⟩ | ⟨heq, -⟩ | ⟨_, -, heq⟩ <;> rw [heq]
  · trivial
  · simp [Barred]
  · trivial

private theorem barred_proceeds {key : PublicKey} {s s' : Store} {time : Nat}
    {next : JobPhase} (h : Barred job.phase)
    (hproceeds : Job.Proceeds key s time job job.phase s' next) :
    Barred next := by
  generalize job.phase = phase at h hproceeds
  cases hproceeds with
  | @claimed result =>
      unfold Job.afterClaim
      split
      · exact absurd rfl h
      · trivial
  | claim hproceeds =>
      cases hproceeds with
      | enter => exact barred_enter _ _ _ _
      | expire => simp [Barred]
      | wake _ => exact h.elim
      | finish hfinish =>
          cases ClaimPhase.finishes hfinish with
          | acked _ hne => exact hne
          | buried _ _ | recognised _ _ | contendWon _ _ => exact h.elim
  | timeout _ => trivial
  | settled => trivial
  | settle _ => trivial

private theorem barred_answers {relay : Relay} {filter : Filter}
    {key : PublicKey} {phase next : ClaimPhase}
    (h : Barred (.claiming phase))
    (hmessage : ∀ call stage, phase = .during call stage →
      call.message = message)
    (hacked : Acked relay message) (hquery : phase.query? = some filter)
    (hanswers : ClaimPhase.Answers key (relay.query filter) phase next) :
    Barred (.claiming next) := by
  cases hanswers with
  | @terminal call =>
      cases hquery
      obtain ⟨accepted, haccepted, hkind, hmatch⟩ := hacked
      have hmem : accepted.event ∈ relay.query (terminalFilter call.message) := by
        rw [hmessage call _ rfl]
        exact Relay.mem_query.mpr ⟨hmatch, accepted, haccepted, rfl⟩
      rcases call.afterTerminal_cases (relay.query (terminalFilter call.message))
        with ⟨heq, -⟩ | ⟨-, hnone, -⟩ | ⟨-, hnone, -⟩
      · rw [heq]
        trivial
      · exact absurd hkind (hnone _ hmem)
      · exact absurd hkind (hnone _ hmem)
  | nacks | claims | recheckClaims | recheckNacks => exact h.elim

theorem Works.barred {move : TaskMove} {relay : Relay} {store : Store}
    {next : JobPhase} (h : Works W p job move relay store next)
    (hmessage : ∀ call stage, job.phase = .claiming (.during call stage) →
      call.message = message)
    (hacked : Acked p.relay message) (hbarred : Barred job.phase) :
    Barred next := by
  cases h with
  | proceed hproceeds => exact barred_proceeds hbarred hproceeds
  | query heq hquery hanswers =>
      rw [heq] at hbarred hmessage
      refine barred_answers hbarred (fun call stage hphase => ?_) hacked hquery
        hanswers
      exact hmessage call stage (congrArg JobPhase.claiming hphase)
  | contend heq =>
      rw [heq] at hbarred
      exact hbarred.elim
  | settle _ _ _ => trivial
  | lose _ hfailed | fail hfailed =>
      generalize job.phase = phase at hfailed
      cases hfailed <;> simp [Barred]
  | handled heq =>
      rw [heq] at hbarred
      exact hbarred.elim
  | panic => trivial

theorem Grounded.call_message {task : Task} {call : ClaimCall} {stage : ClaimStage}
    {row : Row} (h : p.Grounded) (htask : task ∈ p.tasks)
    (hrow : p.store.row? task.mid = some row)
    (hhex : Hex32.fromHex row.eventId = some message)
    (hphase : task.job.phase = .claiming (.during call stage)) :
    call.message = message := by
  obtain ⟨⟨known, hknown, hevent⟩, hconcerns⟩ := h.tasks task htask
  rw [hphase] at hconcerns
  cases hrow.symm.trans hknown
  have hmessage := hconcerns.2
  rw [← hevent, hhex] at hmessage
  exact (Option.some.inj hmessage).symm

theorem Done.of_tasks (h : Done mid message p)
    (hkeeps : p.store.Keeps p'.store) (hrelay : p.relay <+: p'.relay)
    (htasks : ∀ task ∈ p'.tasks, task.mid = mid →
      task ∈ p.tasks ∨ Barred task.job.phase) : Done mid message p' where
  stored := by
    obtain ⟨row, hrow, hhex⟩ := h.stored
    obtain ⟨progress, hrow'⟩ := hkeeps mid row hrow
    exact ⟨row.set progress, hrow', hhex⟩
  acked := h.acked.grow hrelay
  barred := by
    intro task htask hmid
    rcases htasks task htask hmid with hold | hbarred
    · exact h.barred task hold hmid
    · exact hbarred

theorem Done.step {a : ProcessAction Envelope} (h : Done mid message p)
    (hg : p.Grounded) (hs : p.step W a = some p') : Done mid message p' := by
  refine h.of_tasks (step_keeps hs) (step_relay hs) ?_
  cases step_cases hs with
  | spawn _ =>
      intro task htask _
      rcases List.mem_append.mp htask with hold | hnew
      · exact Or.inl hold
      · rw [List.mem_singleton.mp hnew]
        exact Or.inr trivial
  | @work i task _ _ _ _ htask hworks =>
      intro other hother hmid
      rcases List.mem_or_eq_of_mem_set hother with hold | rfl
      · exact Or.inl hold
      · have hmem := List.mem_of_getElem? htask
        obtain ⟨row, hrow, hhex⟩ := h.stored
        rw [← hmid] at hrow
        exact Or.inr (hworks.barred
          (fun _ _ hphase => hg.call_message hmem hrow hhex hphase) h.acked
          (h.barred task hmem hmid))
  | @dropGuard i task htask _ _ | @dropPermit i task htask _ _ =>
      intro other hother hmid
      rcases List.mem_or_eq_of_mem_set hother with hold | rfl
      · exact Or.inl hold
      · exact Or.inr (h.barred task (List.mem_of_getElem? htask) hmid)
  | advance | sweep _ | fetch _ _ | skip _ _ | enter _ _ | refuse _ | acquire _ _
  | turn _ _ _ _ | post | call | publish _ _ _ _ | ingest | dlqRetry =>
      exact fun _ htask _ => Or.inl htask

def Sends (move : TaskMove) : Prop :=
  ∃ createdAt id, move = .publish createdAt id ∨ move = .lose createdAt id

private theorem Works.acked {task : Task} {call : SettleCall} {move : TaskMove}
    {relay : Relay} {store : Store} {next : JobPhase}
    (hphase : task.job.phase = .settling (.during call .ackPublishing))
    (hsends : Sends move) (h : Works W p task.job move relay store next) :
    store = p.store ∧ Acked relay call.message ∧ Barred next := by
  have acked : ∀ createdAt id, Acked
      (p.accepting W (buildAckEvent W.hashtag call.ref) createdAt id)
      call.message := fun createdAt id =>
    ⟨_, List.mem_append_right _ (List.mem_singleton.mpr rfl), rfl,
      terminalFilter_ack W.hashtag call.ref _ _ _⟩
  cases h with
  | contend heq => cases hphase.symm.trans heq
  | settle heq hdraft _ =>
      cases hphase.symm.trans heq
      cases hdraft
      exact ⟨rfl, acked _ _, trivial⟩
  | lose hdraft hfailed =>
      simp only [Job.publish?, hphase, SettlePhase.publish?, Option.some.injEq]
        at hdraft
      subst hdraft
      rw [hphase] at hfailed
      cases hfailed
      exact ⟨rfl, acked _ _, trivial⟩
  | proceed _ | query _ _ _ | fail _ | handled _ | panic =>
      obtain ⟨_, _, hmove | hmove⟩ := hsends <;> cases hmove

theorem done_of_ack {i : Nat} {task : Task} {call : SettleCall}
    {move : TaskMove} (hguard : p.Guarded) (hg : p.Grounded)
    (htask : p.tasks[i]? = some task)
    (hphase : task.job.phase = .settling (.during call .ackPublishing))
    (hsends : Sends move) (hs : p.step W (.task i move) = some p') :
    Done task.mid call.message p' := by
  obtain ⟨⟨row, hrow, hevent⟩, hconcerns⟩ :=
    hg.tasks task (List.mem_of_getElem? htask)
  rw [hphase] at hconcerns
  obtain ⟨-, hhex⟩ := hconcerns
  cases step_cases hs with
  | turn haction _ _ _ => simp at haction
  | publish haction _ _ _ => simp at haction
  | dropGuard _ _ _ | dropPermit _ _ _ =>
      obtain ⟨_, _, hmove | hmove⟩ := hsends <;> cases hmove
  | work hfound hworks =>
      cases htask.symm.trans hfound
      obtain ⟨rfl, hacked, hbarred⟩ := hworks.acked hphase hsends
      refine ⟨⟨row, hrow, hevent ▸ hhex⟩, hacked, fun other hother hmid => ?_⟩
      rcases List.mem_or_eq_of_mem_set hother with hold | rfl
      · -- Any other task of the message is done already.
        obtain ⟨j, hj⟩ := List.mem_iff_getElem?.mp hold
        by_cases hfinished : other.job.phase = .finished
        · rw [hfinished]
          trivial
        · have heq := hguard.unique hj htask hmid hfinished (by simp [hphase])
          subst heq
          cases htask.symm.trans hj
          rw [hphase]
          trivial
      · exact hbarred

/--
In every run, two handler runs of one message never overlap; and once the ack of
a successful run has been published, no handler run of that message is in
progress in any later state, so none has started.
-/
theorem one_job_at_a_time (h : (system W).Reach System.Free p) :
    (∀ (i j : Nat) (first second : Task), p.tasks[i]? = some first →
      p.tasks[j]? = some second → first.Running → second.Running →
      first.mid = second.mid → i = j) ∧
    ∀ (i : Nat) (task : Task) (call : SettleCall) (move : TaskMove)
      (q r : Process Envelope), p.tasks[i]? = some task →
      task.job.phase = .settling (.during call .ackPublishing) →
      Sends move → p.step W (.task i move) = some q →
      ((system W).startingIn (· = q)).Reach System.Free r →
      ∀ later ∈ r.tasks, later.mid = task.mid → ¬ later.Running := by
  have hguard := guarded h
  have hg := grounded h
  constructor
  · intro i j first second hi hj hfirst hsecond hmid
    have unfinished : ∀ task : Task, task.Running →
        task.job.phase ≠ .finished := by
      intro task hrunning heq
      rw [Task.Running, heq] at hrunning
      contradiction
    exact hguard.unique hi hj hmid (unfinished first hfirst)
      (unfinished second hsecond)
  · intro i task call move q r htask hphase hsends hstep hlater
    have hq : (system W).Reach System.Free q :=
      .step (a := .task i move) h trivial hstep
    have hdone : Done task.mid call.message r ∧
        (system W).Reach System.Free r :=
      hlater.invariant
        (I := fun r => Done task.mid call.message r ∧
          (system W).Reach System.Free r)
        (fun r hr => hr ▸ ⟨done_of_ack hguard hg htask hphase hsends hstep, hq⟩)
        fun r a r' _ hi _ hs =>
          ⟨hi.1.step (grounded hi.2) hs, .step hi.2 trivial hs⟩
    intro later hmem hmid hrunning
    have hbarred := (hdone.1.barred later hmem hmid).not_running
    rw [Task.Running, hbarred] at hrunning
    contradiction

end Barring

section Runs

def successMoves : List (ProcessAction String) :=
  staleMoves ++ winMoves 0 (hexOf '1') ++
    [.task 0 .proceed, .task 0 (.handled .success), .task 0 .proceed]

def sendsAck? : JobPhase → Option SettleCall
  | .settling (.during call .ackPublishing) => some call
  | _ => none

def stragglerMoves : List (ProcessAction String) :=
  [.task 0 .proceed, .task 0 .proceed, .task 0 .drop] ++ respawnMoves ++
    [.task 1 .proceed, .task 1 .query, .task 1 .proceed]

theorem one_job_at_a_time_straggler :
    ∃ (p q r : Process String) (task : Task) (call : SettleCall),
      p.tasks[0]? = some task ∧
      task.job.phase = .settling (.during call .ackPublishing) ∧
      p.step sampleProcess (.task 0 (.publish 0 (hexOf '2'))) = some q ∧
      r.tasks.length = 2 ∧
      ∀ later ∈ r.tasks, later.mid = task.mid → ¬ later.Running := by
  obtain ⟨p, hreach, htest⟩ :=
    (System.Reach.init (S := system sampleProcess) (P := System.Free)
      sampleBoot_started).of_run_check successMoves
      (fun p : Process String => p.tasks[0]?.any fun task : Task =>
        decide (∃ call ∈ sendsAck? task.job.phase,
          task.job.phase = .settling (.during call .ackPublishing)) &&
        (p.step sampleProcess (.task 0 (.publish 0 (hexOf '2')))).any
          fun q => (((system sampleProcess).startingIn (· = q)).run
            System.Free q stragglerMoves).any fun r => r.tasks.length == 2)
      (by decide)
  obtain ⟨task, htask, htest⟩ := (Option.any_eq_true _ _).mp htest
  obtain ⟨hack, htest⟩ := (Bool.and_eq_true _ _).mp htest
  obtain ⟨call, -, hphase⟩ := of_decide_eq_true hack
  obtain ⟨q, hq, hrun⟩ := (Option.any_eq_true _ _).mp htest
  obtain ⟨r, hr, hlength⟩ := (Option.any_eq_true _ _).mp hrun
  have hlater : ((system sampleProcess).startingIn (· = q)).Reach
      System.Free r := System.Reach.of_run (.init rfl) hr
  exact ⟨p, q, r, task, call, htask, hphase, hq, by simpa using hlength,
    (one_job_at_a_time hreach).2 0 task call _ q r htask hphase
      ⟨_, _, Or.inl rfl⟩ hq hlater⟩

end Runs

end Process

end NostrQ.Worker
