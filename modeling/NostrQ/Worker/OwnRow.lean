import NostrQ.Worker.Exclusion

/-!
# A job reads and writes the row of its own message

Two stores may differ in everything but the row of one message and the queues.
A job of that message then takes the same steps on both, and leaves rows that
agree again.  Only an expiring call touches the rows of other messages.
-/

namespace NostrQ.Worker

open NostrQ.Foundation NostrQ.Core NostrQ.Database NostrQ.Sdk

/-! ## Stores that agree on a message -/

structure AgreeOn (mid : String) (s t : Store) : Prop where
  row : t.row? mid = s.row? mid
  queues : t.queues = s.queues

/-- A store call that reads and writes the row of `mid` only. -/
structure OwnRow {α : Type} (mid : String) (call : Store → α × Store) :
    Prop where
  result : ∀ s t, AgreeOn mid s t → (call t).1 = (call s).1
  agree : ∀ s t, AgreeOn mid s t → AgreeOn mid (call s).2 (call t).2
  others : ∀ s other, other ≠ mid → AgreeOn other s (call s).2

namespace AgreeOn

variable {mid : String} {s t u : Store}

theorem refl (mid : String) (s : Store) : AgreeOn mid s s := ⟨rfl, rfl⟩

theorem symm (h : AgreeOn mid s t) : AgreeOn mid t s :=
  ⟨h.row.symm, h.queues.symm⟩

theorem trans (h : AgreeOn mid s t) (h' : AgreeOn mid t u) : AgreeOn mid s u :=
  ⟨h'.row.trans h.row, h'.queues.trans h.queues⟩

theorem getMessage (h : AgreeOn mid s t) :
    t.getMessage mid = s.getMessage mid := by
  have hrow : t.messages.row? mid = s.messages.row? mid := h.row
  unfold Store.getMessage
  rw [hrow]

theorem getQueue (h : AgreeOn mid s t) (name : String) :
    t.getQueue name = s.getQueue name := by
  unfold Store.getQueue
  rw [h.queues]

theorem messageRef (h : AgreeOn mid s t) :
    messageRef t mid = messageRef s mid := by
  unfold Sdk.messageRef
  rw [h.getMessage]

theorem expireDue (h : AgreeOn mid s t) (queue : String) (now : Int) :
    AgreeOn mid (s.expireDue queue now).2 (t.expireDue queue now).2 := by
  constructor
  · rw [Store.expireDue_row?, Store.expireDue_row?, h.row]
  · exact h.queues

theorem expireDue_of_not_due {queue : String} {now : Int}
    (h : ∀ row, s.row? mid = some row → ¬ Store.Due queue now row) :
    AgreeOn mid s (s.expireDue queue now).2 := by
  constructor
  · rw [Store.expireDue_row?]
    cases hrow : s.row? mid with
    | none => rfl
    | some row => simp [h row hrow]
  · rfl

theorem of_moves {change : Progress → Progress}
    (hqueues : t.queues = s.queues) {target : String}
    (h : s.Moves t target change) (hne : mid ≠ target) : AgreeOn mid s t := by
  constructor
  · rw [h mid, if_neg hne]
  · exact hqueues

end AgreeOn

section Calls

variable {mid : String} {s : Store}

private theorem moved_agree {s t s' t' : Store}
    {change : Progress → Progress} (h : AgreeOn mid s t)
    (hs : s.Moves s' mid change) (ht : t.Moves t' mid change)
    (hqueues : s'.queues = s.queues) (hqueues' : t'.queues = t.queues) :
    AgreeOn mid s' t' := by
  constructor
  · rw [hs mid, ht mid, if_pos rfl, if_pos rfl, h.row]
  · rw [hqueues, hqueues', h.queues]

private theorem ownRow_of_moves {α : Type} {call : Store → α × Store}
    {change : Progress → Progress}
    (hmoves : ∀ s : Store, s.Moves (call s).2 mid change)
    (hqueues : ∀ s, (call s).2.queues = s.queues)
    (hresult : ∀ s t, AgreeOn mid s t → (call t).1 = (call s).1) :
    OwnRow mid call where
  result := hresult
  agree s t h := moved_agree h (hmoves s) (hmoves t) (hqueues s) (hqueues t)
  others s _ hne := .of_moves (hqueues s) (hmoves s) hne

private theorem update_result {s t : Store} (h : AgreeOn mid s t)
    (change : Progress → Progress) :
    (t.update mid change).1 = (s.update mid change).1 := by
  have hrow : t.messages.row? mid = s.messages.row? mid := h.row
  unfold Store.update
  rw [hrow]
  cases s.messages.row? mid <;> rfl

theorem update_ownRow (mid : String) (change : Progress → Progress) :
    OwnRow mid fun s => s.update mid change :=
  ownRow_of_moves (fun _ => Store.update_moves change)
    (fun _ => Store.update_queues change) fun _ _ h => update_result h change

theorem incrAttempts_ownRow (mid : String) :
    OwnRow mid fun s => s.incrAttempts mid := by
  refine ownRow_of_moves (fun _ => Store.incrAttempts_moves)
    (fun _ => Store.incrAttempts_queues) fun s t h => ?_
  rw [Store.incrAttempts_fst, Store.incrAttempts_fst, h.row]

private theorem buried_ownRow {change : Progress → Progress}
    {call : Store → Except StoreError Unit × Store} {reason : String} {now : Int}
    (hcall : ∀ s : Store, call s = match s.update mid change with
      | (.error e, s') => (.error e, s')
      | (.ok (), s') => (.ok (), s'.listDead mid reason now))
    (hmoves : ∀ s : Store, s.Moves (call s).2 mid change)
    (hqueues : ∀ s, (call s).2.queues = s.queues) : OwnRow mid call := by
  have hresult : ∀ s, (call s).1 = (s.update mid change).1 := by
    intro s
    rw [hcall]
    split <;> simp [*]
  refine ownRow_of_moves hmoves hqueues fun s t h => ?_
  rw [hresult, hresult, update_result h]

theorem moveToDlq_ownRow (mid reason : String) (now : Int) :
    OwnRow mid fun s => s.moveToDlq mid reason now :=
  buried_ownRow (fun _ => rfl) (fun _ => Store.moveToDlq_moves reason now)
    fun _ => Store.moveToDlq_queues reason now

theorem moveToDlqAt_ownRow (mid reason : String) (attempt : U32) (now : Int) :
    OwnRow mid fun s => s.moveToDlqAt mid reason attempt now :=
  buried_ownRow (fun _ => rfl)
    (fun _ => Store.moveToDlqAt_moves reason attempt now)
    fun _ => Store.moveToDlqAt_queues reason attempt now

theorem dlqRetry_ownRow (mid : String) :
    OwnRow mid fun s => s.dlqRetry mid := by
  have hresult : ∀ s : Store, (s.dlqRetry mid).1 = (s.update mid .retry).1 := by
    intro s
    unfold Store.dlqRetry
    split <;> simp [*]
  refine ownRow_of_moves (fun _ => Store.dlqRetry_moves)
    (fun _ => Store.dlqRetry_queues) fun s t h => ?_
  rw [hresult, hresult, update_result h]

end Calls

/-! ## Records and jobs that read the same -/

structure ReadsAlike (r r' : MessageRecord) : Prop where
  mid : r'.mid = r.mid
  queue : r'.queue = r.queue
  eventId : r'.eventId = r.eventId
  traceId : r'.traceId = r.traceId
  attempts : r'.attempts = r.attempts
  attemptFloor : r'.attemptFloor = r.attemptFloor
  expiresAt : r'.expiresAt = r.expiresAt

theorem ReadsAlike.refl (r : MessageRecord) : ReadsAlike r r :=
  ⟨rfl, rfl, rfl, rfl, rfl, rfl, rfl⟩

instance (r r' : MessageRecord) : Decidable (ReadsAlike r r') :=
  decidable_of_iff
    (r'.mid = r.mid ∧ r'.queue = r.queue ∧ r'.eventId = r.eventId ∧
      r'.traceId = r.traceId ∧ r'.attempts = r.attempts ∧
      r'.attemptFloor = r.attemptFloor ∧ r'.expiresAt = r.expiresAt)
    ⟨fun ⟨h₁, h₂, h₃, h₄, h₅, h₆, h₇⟩ => ⟨h₁, h₂, h₃, h₄, h₅, h₆, h₇⟩,
      fun h => ⟨h.mid, h.queue, h.eventId, h.traceId, h.attempts,
        h.attemptFloor, h.expiresAt⟩⟩

inductive ClaimMirrors (r r' : MessageRecord) : ClaimPhase → ClaimPhase → Prop
    where
  | entering {leaseSeconds settleMs : U64} :
      ClaimMirrors r r' (.entering r leaseSeconds settleMs)
        (.entering r' leaseSeconds settleMs)
  | expiring {now : Int} :
      ClaimMirrors r r' (.expiring r now) (.expiring r' now)
  | during {call : ClaimCall} {stage : ClaimStage} :
      call.record = r →
      ClaimMirrors r r' (.during call stage)
        (.during { call with record := r' } stage)
  | returned {result : Except SdkError Bool} :
      ClaimMirrors r r' (.returned result) (.returned result)

/-- Only the handler looks at the row that it was started with. -/
inductive PhaseMirrors (r r' : MessageRecord) : JobPhase → JobPhase → Prop where
  | claiming {phase phase' : ClaimPhase} :
      ClaimMirrors r r' phase phase' →
      PhaseMirrors r r' (.claiming phase) (.claiming phase')
  | handling {current current' : MessageRecord} {deadline : Nat} :
      PhaseMirrors r r' (.handling current deadline)
        (.handling current' deadline)
  | settling {phase : SettlePhase} :
      PhaseMirrors r r' (.settling phase) (.settling phase)
  | finished : PhaseMirrors r r' .finished .finished

structure Mirrors (job job' : Job) : Prop where
  record : ReadsAlike job.record job'.record
  leaseSeconds : job'.leaseSeconds = job.leaseSeconds
  phase : PhaseMirrors job.record job'.record job.phase job'.phase

theorem Mirrors.spawn {r r' : MessageRecord} (h : ReadsAlike r r')
    (leaseSeconds settleMs : U64) :
    Mirrors (.spawn r leaseSeconds settleMs)
      (.spawn r' leaseSeconds settleMs) :=
  ⟨h, rfl, .claiming .entering⟩

section Claims

variable {r r' : MessageRecord} {phase phase' : ClaimPhase} {call : ClaimCall}

private theorem claimAttempt_mirrors (h : ReadsAlike r r')
    (hcall : call.record = r) (observed : U32) :
    ({ call with record := r' } : ClaimCall).claimAttempt observed =
      call.claimAttempt observed := by
  simp [ClaimCall.claimAttempt, hcall, h.attempts]

private theorem messageRef_mirrors (h : ReadsAlike r r')
    (hcall : call.record = r) :
    ({ call with record := r' } : ClaimCall).messageRef = call.messageRef := by
  simp [ClaimCall.messageRef, hcall, h.queue, h.mid, h.traceId]

theorem ClaimMirrors.query? (h : ClaimMirrors r r' phase phase') :
    phase'.query? = phase.query? := by
  cases h with
  | @during call stage hcall => cases stage <;> rfl
  | entering | expiring | returned => rfl

theorem ClaimMirrors.publish? (hread : ReadsAlike r r')
    (h : ClaimMirrors r r' phase phase') (hashtag : String → String) :
    phase'.publish? hashtag = phase.publish? hashtag := by
  cases h with
  | @during call stage hcall =>
      cases stage <;> try rfl
      simp only [ClaimPhase.publish?, claimAttempt_mirrors hread hcall,
        messageRef_mirrors hread hcall]
  | entering | expiring | returned => rfl

private theorem enter_mirrors (h : ReadsAlike r r')
    (leaseSeconds settleMs : U64) (now : Int) :
    ClaimMirrors r r' (.enter r leaseSeconds settleMs now)
      (.enter r' leaseSeconds settleMs now) := by
  unfold ClaimPhase.enter
  rw [h.expiresAt, h.eventId]
  split
  · exact .expiring
  · split
    · exact .returned
    · exact .during rfl

private theorem answer_mirrors (hread : ReadsAlike r r')
    (h : ClaimMirrors r r' phase phase') {key : PublicKey}
    {events : List Event} {next : ClaimPhase}
    (hanswer : phase.answer key events = some next) :
    ∃ next', phase'.answer key events = some next' ∧
      ClaimMirrors r r' next next' := by
  cases h with
  | @during call stage hcall =>
      cases stage with
      | terminalCheck =>
          cases hanswer
          refine ⟨_, rfl, ?_⟩
          unfold ClaimCall.afterTerminal
          rw [hcall, hread.attemptFloor]
          split
          · exact .during hcall
          · split <;> exact .during hcall
      | surveyNacks | recheckClaims =>
          cases hanswer
          exact ⟨_, rfl, .during hcall⟩
      | surveyClaims observed =>
          cases hanswer
          refine ⟨_, rfl, ?_⟩
          simp only [ClaimCall.afterSurvey]
          split
          · split
            · exact .during hcall
            · exact .returned
          · exact .during hcall
      | recheckNacks observed claims =>
          cases hanswer
          refine ⟨_, rfl, ?_⟩
          simp only [ClaimCall.afterRecheck]
          split
          · split
            · exact .during hcall
            · exact .returned
          · exact .returned
      | ackObserved | dlqObserved | recognised | contending | settling
      | contendWon => contradiction
  | entering | expiring | returned => contradiction

private theorem returning_agree {β : Type} {mid : String} {value : β}
    {call : Store → Except StoreError Unit × Store} {s t s' : Store}
    {result : Except SdkError β} (h : OwnRow mid call)
    (hagree : AgreeOn mid s t)
    (hreturning : returning value (call s) = (s', result)) :
    ∃ t', returning value (call t) = (t', result) ∧ AgreeOn mid s' t' := by
  have hsame := h.result s t hagree
  have hafter := h.agree s t hagree
  generalize call s = before at *
  generalize call t = after at *
  obtain ⟨outcome, store⟩ := before
  obtain ⟨outcome', store'⟩ := after
  cases hsame
  cases outcome <;> cases hreturning <;> exact ⟨store', rfl, hafter⟩

private theorem finish_mirrors {key : PublicKey} {s t s' : Store} {now : Int}
    {stage : ClaimStage} {result : Except SdkError Bool}
    (hread : ReadsAlike r r') (hcall : call.record = r)
    (hagree : AgreeOn r.mid s t)
    (hfinish : ClaimPhase.finish key s now call stage = some (s', result)) :
    ∃ t', ClaimPhase.finish key t now { call with record := r' } stage =
      some (t', result) ∧ AgreeOn r.mid s' t' := by
  cases stage with
  | ackObserved =>
      obtain ⟨t', heq, hafter⟩ := returning_agree (update_ownRow r.mid .ack)
        hagree (hcall ▸ Option.some.inj hfinish)
      exact ⟨t', by rw [← heq, ← hread.mid]; rfl, hafter⟩
  | dlqObserved attempt =>
      obtain ⟨t', heq, hafter⟩ := returning_agree
        (moveToDlqAt_ownRow r.mid "dead-lettered by remote worker" attempt now)
        hagree (hcall ▸ Option.some.inj hfinish)
      exact ⟨t', by rw [← heq, ← hread.mid]; rfl, hafter⟩
  | recognised winner =>
      obtain ⟨t', heq, hafter⟩ := returning_agree (update_ownRow r.mid _)
        hagree (hcall ▸ Option.some.inj hfinish)
      exact ⟨t', by rw [← heq, ← hread.mid]; rfl, hafter⟩
  | contendWon observed =>
      have hattempt := claimAttempt_mirrors hread hcall observed
      obtain ⟨t', heq, hafter⟩ := returning_agree (update_ownRow r.mid _)
        hagree (hcall ▸ Option.some.inj hfinish)
      refine ⟨t', ?_, hafter⟩
      rw [← heq, ← hread.mid, ClaimPhase.finish, hattempt]
      rfl
  | terminalCheck | surveyNacks | surveyClaims | contending | settling
  | recheckClaims | recheckNacks => contradiction

variable {key : PublicKey} {s t s' : Store} {next : ClaimPhase}

private theorem proceed_mirrors {time : Nat} (hread : ReadsAlike r r')
    (h : ClaimMirrors r r' phase phase') (hagree : AgreeOn r.mid s t)
    (hproceed : phase.proceed key s time = some (s', next)) :
    ∃ t' next', phase'.proceed key t time = some (t', next') ∧
      AgreeOn r.mid s' t' ∧ ClaimMirrors r r' next next' := by
  cases ClaimPhase.proceeds hproceed with
  | enter =>
      cases h with
      | entering => exact ⟨t, _, rfl, hagree, enter_mirrors hread _ _ _⟩
  | expire =>
      cases h with
      | expiring =>
          refine ⟨_, _, rfl, ?_, .returned⟩
          rw [hread.queue]
          exact hagree.expireDue r.queue _
  | wake hwake =>
      cases h with
      | during hcall => exact ⟨t, _, if_pos hwake, hagree, .during hcall⟩
  | @finish call stage _ result hfinish =>
      cases h with
      | during hcall =>
          obtain ⟨t', hfinish', hafter⟩ :=
            finish_mirrors hread hcall hagree hfinish
          refine ⟨t', _, ?_, hafter, .returned⟩
          cases stage <;>
            first | contradiction | simp [ClaimPhase.proceed, hfinish']

private theorem awaits_mirrors (hread : ReadsAlike r r')
    (h : ClaimMirrors r r' phase phase') : phase'.awaits = phase.awaits := by
  unfold ClaimPhase.awaits
  rw [h.query?, h.publish? hread]

theorem ClaimMirrors.step {input : Input} (hread : ReadsAlike r r')
    (h : ClaimMirrors r r' phase phase') (hagree : AgreeOn r.mid s t)
    (hstep : phase.step key s input = some (s', next)) :
    ∃ t' next', phase'.step key t input = some (t', next') ∧
      AgreeOn r.mid s' t' ∧ ClaimMirrors r r' next next' := by
  cases input with
  | proceed time => exact proceed_mirrors hread h hagree hstep
  | answer events =>
      obtain ⟨after, hanswer, heq⟩ := Option.map_eq_some_iff.mp hstep
      cases heq
      obtain ⟨after', hanswer', hmirrors⟩ := answer_mirrors hread h hanswer
      exact ⟨t, after', Option.map_eq_some_iff.mpr ⟨_, hanswer', rfl⟩, hagree,
        hmirrors⟩
  | accepted time =>
      obtain ⟨after, haccepted, heq⟩ := Option.map_eq_some_iff.mp hstep
      cases heq
      obtain ⟨call, observed, rfl, rfl⟩ := ClaimPhase.accepted_cases haccepted
      cases h with
      | during hcall => exact ⟨t, _, rfl, hagree, .during hcall⟩
  | failed =>
      obtain ⟨after, hfailed, heq⟩ := Option.map_eq_some_iff.mp hstep
      cases heq
      obtain ⟨hawaits, rfl⟩ := ClaimPhase.failed_cases hfailed
      have hfailed' : phase'.failed = some (.returned (.error .transport)) :=
        if_pos ((awaits_mirrors hread h).trans hawaits)
      exact ⟨t, _, Option.map_eq_some_iff.mpr ⟨_, hfailed', rfl⟩, hagree,
        .returned⟩

end Claims

section Settles

variable {mid : String} {s t s' : Store} {phase next : SettlePhase}

def SettlesOwn (mid : String) : SettlePhase → Prop
  | .acking other => other = mid
  | .nacking other _ => other = mid
  | .during call _ => call.record.mid = mid
  | .settled _ => True

private theorem start_agree (h : AgreeOn mid s t) (stage : SettleStage) :
    SettlePhase.start t mid stage = SettlePhase.start s mid stage := by
  unfold SettlePhase.start
  rw [h.messageRef]

private theorem count_agree {call : SettleCall}
    (h : AgreeOn call.record.mid s t) (reason : String) (config : QueueConfig) :
    (SettlePhase.count t call reason config).2 =
        (SettlePhase.count s call reason config).2 ∧
      AgreeOn call.record.mid (SettlePhase.count s call reason config).1
        (SettlePhase.count t call reason config).1 := by
  have hown := incrAttempts_ownRow call.record.mid
  have hsame := hown.result s t h
  have hafter := hown.agree s t h
  simp only [SettlePhase.count]
  generalize s.incrAttempts call.record.mid = before at *
  generalize t.incrAttempts call.record.mid = after at *
  obtain ⟨outcome, store⟩ := before
  obtain ⟨outcome', store'⟩ := after
  cases hsame
  cases outcome <;> exact ⟨rfl, hafter⟩

private theorem finish_agree {call : SettleCall} {stage : SettleStage}
    {now : Int} {result : Except SdkError Settled}
    (h : AgreeOn call.record.mid s t)
    (hfinish : SettlePhase.finish s now call stage = some (s', result)) :
    ∃ t', SettlePhase.finish t now call stage = some (t', result) ∧
      AgreeOn call.record.mid s' t' := by
  cases stage with
  | ackAccepted =>
      obtain ⟨t', heq, hafter⟩ := returning_agree (update_ownRow _ .ack) h
        (Option.some.inj hfinish)
      exact ⟨t', congrArg some heq, hafter⟩
  | dlqAccepted reason =>
      obtain ⟨t', heq, hafter⟩ := returning_agree
        (moveToDlq_ownRow _ reason now) h (Option.some.inj hfinish)
      exact ⟨t', congrArg some heq, hafter⟩
  | requeueing config attempts =>
      obtain ⟨t', heq, hafter⟩ := returning_agree (update_ownRow _ _) h
        (Option.some.inj hfinish)
      exact ⟨t', congrArg some heq, hafter⟩
  | ackPublishing | configuring | counting | nackPublishing
  | dlqPublishing => contradiction

private theorem settle_proceed_agree {time : Nat} (h : AgreeOn mid s t)
    (hown : SettlesOwn mid phase)
    (hproceed : phase.proceed s time = some (s', next)) :
    ∃ t', phase.proceed t time = some (t', next) ∧ AgreeOn mid s' t' := by
  cases SettlePhase.proceeds hproceed with
  | ack =>
      cases hown
      exact ⟨t, by rw [← start_agree h]; rfl, h⟩
  | nack =>
      cases hown
      exact ⟨t, by rw [← start_agree h]; rfl, h⟩
  | @configure call reason =>
      refine ⟨t, ?_, h⟩
      simp only [SettlePhase.proceed, SettlePhase.configure, h.getQueue]
  | @count call reason config =>
      cases hown
      obtain ⟨hsame, hafter⟩ := count_agree h reason config
      refine ⟨_, ?_, hafter⟩
      rw [← hsame]
      rfl
  | @finish call stage _ result hfinish =>
      cases hown
      obtain ⟨t', hfinish', hafter⟩ := finish_agree h hfinish
      refine ⟨t', ?_, hafter⟩
      cases stage <;> first | contradiction | simp [SettlePhase.proceed, hfinish']

theorem settle_agree {input : Input} (h : AgreeOn mid s t)
    (hown : SettlesOwn mid phase)
    (hstep : phase.step s input = some (s', next)) :
    ∃ t', phase.step t input = some (t', next) ∧ AgreeOn mid s' t' := by
  cases input with
  | proceed time => exact settle_proceed_agree h hown hstep
  | answer events => contradiction
  | accepted time | failed =>
      obtain ⟨after, hafter, heq⟩ := Option.map_eq_some_iff.mp hstep
      cases heq
      exact ⟨t, Option.map_eq_some_iff.mpr ⟨_, hafter, rfl⟩, h⟩

end Settles

/-! ## Jobs -/

namespace Mirrors

variable {key : PublicKey} {s t s' : Store} {job job' next : Job}

theorem query? (h : Mirrors job job') : job'.query? = job.query? := by
  have hphase := h.phase
  unfold Job.query?
  generalize job.phase = phase at hphase ⊢
  generalize job'.phase = phase' at hphase ⊢
  cases hphase with
  | claiming hclaim => exact hclaim.query?
  | handling | settling | finished => rfl

theorem publish? (h : Mirrors job job') (hashtag : String → String) :
    job'.publish? hashtag = job.publish? hashtag := by
  have hphase := h.phase
  unfold Job.publish?
  generalize job.phase = phase at hphase ⊢
  generalize job'.phase = phase' at hphase ⊢
  cases hphase with
  | claiming hclaim => exact hclaim.publish? h.record hashtag
  | handling | settling | finished => rfl

private theorem settle_mirrors {r r' : MessageRecord} (h : ReadsAlike r r')
    (outcome : HandlerOutcome) : Job.settle r' outcome = Job.settle r outcome := by
  cases outcome <;> simp [Job.settle, h.mid]

private theorem afterClaim_mirrors {time : Nat} {r r' : MessageRecord}
    {leaseSeconds : U64} {phase phase' : JobPhase}
    (result : Except SdkError Bool) :
    PhaseMirrors r r' (Job.afterClaim s ⟨r, leaseSeconds, phase⟩ time result)
      (Job.afterClaim t ⟨r', leaseSeconds, phase'⟩ time result) := by
  unfold Job.afterClaim
  split
  · exact .handling
  · exact .finished

private theorem claim_mirrors {r r' : MessageRecord} {input : Input}
    {phase phase' : ClaimPhase} {after : JobPhase} (hread : ReadsAlike r r')
    (hclaim : ClaimMirrors r r' phase phase') (hagree : AgreeOn r.mid s t)
    (hstep : (phase.step key s input).map
      (fun (s', next) => (s', JobPhase.claiming next)) = some (s', after)) :
    ∃ t' after', (phase'.step key t input).map
        (fun (s', next) => (s', JobPhase.claiming next)) = some (t', after') ∧
      AgreeOn r.mid s' t' ∧ PhaseMirrors r r' after after' := by
  obtain ⟨⟨store, next⟩, hnext, heq⟩ := Option.map_eq_some_iff.mp hstep
  cases heq
  obtain ⟨t', next', hnext', hafter, hmirrors⟩ :=
    hclaim.step hread hagree hnext
  exact ⟨t', _, Option.map_eq_some_iff.mpr ⟨_, hnext', rfl⟩, hafter,
    .claiming hmirrors⟩

private theorem settling_agree {mid : String} {input : Input}
    {phase : SettlePhase} {after : JobPhase} (hagree : AgreeOn mid s t)
    (hown : SettlesOwn mid phase)
    (hstep : (phase.step s input).map
      (fun (s', next) => (s', JobPhase.settling next)) = some (s', after)) :
    ∃ t' next, after = .settling next ∧ (phase.step t input).map
        (fun (s', next) => (s', JobPhase.settling next)) = some (t', after) ∧
      AgreeOn mid s' t' := by
  obtain ⟨⟨store, next⟩, hnext, heq⟩ := Option.map_eq_some_iff.mp hstep
  cases heq
  obtain ⟨t', hnext', hafter⟩ := settle_agree hagree hown hnext
  exact ⟨t', next, rfl, Option.map_eq_some_iff.mpr ⟨_, hnext', rfl⟩, hafter⟩

theorem stepPhase {input : JobInput} {after : JobPhase} (h : Mirrors job job')
    (hagree : AgreeOn job.record.mid s t)
    (hown : ∀ phase, job.phase = .settling phase →
      SettlesOwn job.record.mid phase)
    (hstep : job.stepPhase key s input = some (s', after)) :
    ∃ t' after', job'.stepPhase key t input = some (t', after') ∧
      AgreeOn job.record.mid s' t' ∧
      PhaseMirrors job.record job'.record after after' := by
  obtain ⟨r, leaseSeconds, phase⟩ := job
  obtain ⟨r', leaseSeconds', phase'⟩ := job'
  obtain ⟨hread, hlease, hphase⟩ := h
  dsimp only at hread hlease hphase hagree hown ⊢
  subst hlease
  cases hphase with
  | claiming hclaim =>
      cases input with
      | handled outcome => contradiction
      | io input =>
          cases hclaim with
          | @returned result =>
              cases input with
              | proceed time =>
                  cases hstep
                  exact ⟨t, _, rfl, hagree, afterClaim_mirrors result⟩
              | answer | accepted | failed => contradiction
          | entering => exact claim_mirrors hread .entering hagree hstep
          | expiring => exact claim_mirrors hread .expiring hagree hstep
          | during hcall =>
              exact claim_mirrors hread (.during hcall) hagree hstep
  | handling =>
      cases input with
      | handled outcome =>
          cases hstep
          refine ⟨t, _, rfl, hagree, ?_⟩
          rw [settle_mirrors hread]
          exact .settling
      | io input =>
          cases input with
          | proceed time =>
              simp only [Job.stepPhase] at hstep ⊢
              split at hstep
              · next hdeadline =>
                  cases hstep
                  refine ⟨t, _, if_pos hdeadline, hagree, ?_⟩
                  rw [settle_mirrors hread]
                  exact .settling
              · contradiction
          | answer | accepted | failed => contradiction
  | @settling phase =>
      have hphase : SettlesOwn r.mid phase := hown phase rfl
      cases input with
      | handled outcome => contradiction
      | io input =>
          cases phase with
          | settled result =>
              cases input with
              | proceed time =>
                  cases hstep
                  exact ⟨t, _, rfl, hagree, .finished⟩
              | answer | accepted | failed => contradiction
          | acking | nacking | during =>
              obtain ⟨t', next, rfl, hstep', hafter⟩ :=
                settling_agree hagree hphase hstep
              exact ⟨t', _, hstep', hafter, .settling⟩
  | finished =>
      cases input with
      | handled outcome => contradiction
      | io input => contradiction

theorem step {input : JobInput} (h : Mirrors job job')
    (hagree : AgreeOn job.record.mid s t)
    (hown : ∀ phase, job.phase = .settling phase →
      SettlesOwn job.record.mid phase)
    (hstep : job.step key s input = some (s', next)) :
    ∃ t' next', job'.step key t input = some (t', next') ∧
      AgreeOn job.record.mid s' t' ∧ Mirrors next next' := by
  obtain ⟨⟨store, after⟩, hphase, heq⟩ := Option.map_eq_some_iff.mp hstep
  cases heq
  obtain ⟨t', after', hphase', hafter, hmirrors⟩ :=
    h.stepPhase hagree hown hphase
  exact ⟨t', { job' with phase := after' },
    Option.map_eq_some_iff.mpr ⟨_, hphase', rfl⟩, hafter,
    ⟨h.record, h.leaseSeconds, hmirrors⟩⟩

end Mirrors

/-! ## Jobs of other messages -/

section Elsewhere

variable {mid : String} {key : PublicKey} {s s' : Store} {now : Int}

private theorem claim_finish_elsewhere {call : ClaimCall} {stage : ClaimStage}
    {result : Except SdkError Bool} (hne : mid ≠ call.record.mid)
    (h : ClaimPhase.finish key s now call stage = some (s', result)) :
    AgreeOn mid s s' := by
  cases stage <;>
    simp only [ClaimPhase.finish, Option.some.injEq, reduceCtorEq] at h
  all_goals
    have hs : s' = _ := (congrArg Prod.fst h).symm
    rw [returning_fst] at hs
    rw [hs]
  · exact (update_ownRow _ _).others s mid hne
  · exact (moveToDlqAt_ownRow _ _ _ _).others s mid hne
  · exact (update_ownRow _ _).others s mid hne
  · exact (update_ownRow _ _).others s mid hne

private theorem settle_finish_elsewhere {call : SettleCall}
    {stage : SettleStage} {result : Except SdkError Settled}
    (hne : mid ≠ call.record.mid)
    (h : SettlePhase.finish s now call stage = some (s', result)) :
    AgreeOn mid s s' := by
  cases stage <;>
    simp only [SettlePhase.finish, Option.some.injEq, reduceCtorEq] at h
  all_goals
    have hs : s' = _ := (congrArg Prod.fst h).symm
    rw [returning_fst] at hs
    rw [hs]
  · exact (update_ownRow _ _).others s mid hne
  · exact (moveToDlq_ownRow _ _ _).others s mid hne
  · exact (update_ownRow _ _).others s mid hne

theorem settlesOwn_of_concerns {record : MessageRecord} {phase : SettlePhase}
    (h : Process.Concerns record (.settling phase)) :
    SettlesOwn record.mid phase := by
  cases phase with
  | acking | nacking => exact h
  | during => exact h.1
  | settled => trivial

theorem Proceeds.elsewhere {time : Nat} {job : Job} {next : JobPhase}
    (h : Job.Proceeds key s time job job.phase s' next)
    (hc : Process.Concerns job.record job.phase) (hne : mid ≠ job.record.mid) :
    (∃ record now, job.phase = .claiming (.expiring record now) ∧
      s' = (s.expireDue record.queue now).2) ∨
    (∀ record now, job.phase ≠ .claiming (.expiring record now)) ∧
      AgreeOn mid s s' := by
  generalize job.phase = phase at h hc
  cases h with
  | claimed | timeout | settled => exact Or.inr ⟨by simp, .refl mid s⟩
  | claim hclaim =>
      cases hclaim with
      | enter | wake => exact Or.inr ⟨by simp, .refl mid s⟩
      | expire => exact Or.inl ⟨_, _, rfl, rfl⟩
      | finish hfinish =>
          obtain ⟨hrecord, -⟩ := hc
          refine Or.inr ⟨by simp, claim_finish_elsewhere ?_ hfinish⟩
          rwa [hrecord]
  | settle hsettle =>
      cases hsettle with
      | ack | nack | configure => exact Or.inr ⟨by simp, .refl mid s⟩
      | count =>
          rw [SettlePhase.count_fst]
          refine Or.inr ⟨by simp, (incrAttempts_ownRow _).others s mid ?_⟩
          rwa [hc.1]
      | finish hfinish =>
          refine Or.inr ⟨by simp, settle_finish_elsewhere ?_ hfinish⟩
          rwa [hc.1]

end Elsewhere

end NostrQ.Worker
