import NostrQ.Database.Decoding
import NostrQ.Sdk.Publish
import NostrQ.Sdk.Settle

/-!
# Calls on one store

The operations of the SDK as they run beside each other: any number of calls,
each at its own point and given any answers, with ingest loops, sweeps and dlq
retries on the same store.
-/

namespace NostrQ.Sdk

open NostrQ.Foundation NostrQ.Core NostrQ.Database

inductive Call (Envelope : Type) where
  | publishing (phase : PublishPhase Envelope)
  | claiming (phase : ClaimPhase)
  | settling (phase : SettlePhase)

inductive CallInput where
  | io (input : Input)
  | published (id : EventId) (now : Int)

namespace Call

variable {Envelope : Type} (codec : Codec Envelope) (key : PublicKey)

def publish (call : PublishCall Envelope) : Call Envelope :=
  .publishing (.configuring call)

def tryClaim (record : MessageRecord) (leaseSeconds settleMs : U64) :
    Call Envelope :=
  .claiming (.entering record leaseSeconds settleMs)

def ack (mid : String) : Call Envelope := .settling (.acking mid)

def nack (mid reason : String) : Call Envelope :=
  .settling (.nacking mid reason)

def step (s : Store) :
    Call Envelope → CallInput → Option (Store × Call Envelope)
  | .publishing phase, .io (.proceed _) =>
      (phase.proceed codec s).map fun (s', next) => (s', .publishing next)
  | .publishing phase, .published id now =>
      (phase.accepted codec id now).map fun next => (s, .publishing next)
  | .publishing phase, .io .failed =>
      phase.failed.map fun next => (s, .publishing next)
  | .claiming phase, .io input =>
      (phase.step key s input).map fun (s', next) => (s', .claiming next)
  | .settling phase, .io input =>
      (phase.step s input).map fun (s', next) => (s', .settling next)
  | _, _ => none

def counts? : Call Envelope → Option String
  | .settling (.during call (.counting _ _)) => some call.record.mid
  | _ => none

/-- The call failed on a counter that does not fit its word. -/
def Overflowed (call : Call Envelope) : Prop :=
  call = .publishing (.returned (.error (.store .outOfRange))) ∨
    call = .claiming (.returned (.error (.store .outOfRange))) ∨
    call = .settling (.settled (.error (.store .outOfRange)))

end Call

structure Session (Envelope : Type) where
  store : Store
  calls : List (Call Envelope)

inductive SessionAction (Envelope : Type) where
  | publish (call : PublishCall Envelope)
  | tryClaim (record : MessageRecord) (leaseSeconds settleMs : U64)
  | ack (mid : String)
  | nack (mid reason : String)
  | resume (i : Nat) (input : CallInput)
  | ingest (event : Event)
  | sweepExpired (queue : String) (now : Int)
  | dlqRetry (mid : String)
  | configure (queues : List QueueConfig)

namespace Session

variable {Envelope : Type} (codec : Codec Envelope) (key : PublicKey)

def start (c : Session Envelope) (call : Call Envelope) : Session Envelope :=
  { c with calls := c.calls ++ [call] }

def step (c : Session Envelope) :
    SessionAction Envelope → Option (Session Envelope)
  | .publish call => some (c.start (.publish call))
  | .tryClaim record leaseSeconds settleMs =>
      some (c.start (.tryClaim record leaseSeconds settleMs))
  | .ack mid => some (c.start (.ack mid))
  | .nack mid reason => some (c.start (.nack mid reason))
  | .resume i input =>
      c.calls[i]?.bind fun call =>
        (call.step codec key c.store input).map fun (s, next) =>
          { store := s, calls := c.calls.set i next }
  | .ingest event => some { c with store := ingest codec c.store event }
  | .sweepExpired queue now =>
      some { c with store := (c.store.expireDue queue now).2 }
  | .dlqRetry mid => some { c with store := (c.store.dlqRetry mid).2 }
  | .configure queues => some { c with store := { c.store with queues := queues } }

def Opened (c : Session Envelope) : Prop :=
  c.store.Decodable ∧ c.calls = []

def system : System (Session Envelope) (SessionAction Envelope) where
  init := Opened
  step := step codec key

/-- A step that moves a counter finds it below its top. -/
def Headroom (c : Session Envelope) : SessionAction Envelope → Prop
  | .resume i _ =>
      ∀ mid ∈ c.calls[i]?.bind Call.counts?, ∀ row ∈ c.store.row? mid,
        row.attempts + 1 < 4294967296
  | _ => True

instance (c : Session Envelope) (a : SessionAction Envelope) :
    Decidable (c.Headroom a) :=
  match a with
  | .resume _ _ => inferInstanceAs (Decidable (∀ _ ∈ _, ∀ _ ∈ _, _))
  | .publish _ | .tryClaim _ _ _ | .ack _ | .nack _ _ | .ingest _
  | .sweepExpired _ _ | .dlqRetry _ | .configure _ =>
      inferInstanceAs (Decidable True)

end Session

/-! ## One step of a call -/

section Steps

variable {Envelope : Type} {codec : Codec Envelope} {key : PublicKey}
  {s s' : Store}

theorem returning_ne_outOfRange {α β : Type} {value : β}
    {r : Except StoreError α × Store} (h : r.1 ≠ .error .outOfRange) :
    (returning value r).2 ≠ .error (.store .outOfRange) := by
  obtain ⟨e | a, s⟩ := r
  · intro heq
    simp only [returning, Except.error.injEq, SdkError.store.injEq] at heq
    exact h (by rw [heq])
  · simp [returning]

private theorem finishes_decodable {call : ClaimCall} {stage : ClaimStage}
    {result : Except SdkError Bool}
    (h : ClaimPhase.Finishes key s call s' stage result) (hs : s.Decodable) :
    s'.Decodable := by
  cases h with
  | acked h _ => exact h.decodable hs fun _ _ hin => hin
  | buried h _ => exact h.decodable hs fun _ _ hin => hin.buryAt _
  | recognised h _ | contendWon h _ =>
      exact h.decodable hs fun _ _ hin => hin.claim _ _ _

private theorem claim_finish_ne {now : Int} {call : ClaimCall}
    {stage : ClaimStage} {result : Except SdkError Bool}
    (h : ClaimPhase.finish key s now call stage = some (s', result)) :
    result ≠ .error (.store .outOfRange) := by
  cases stage <;> simp only [ClaimPhase.finish, Option.some.injEq,
    reduceCtorEq] at h
  all_goals rw [show result = _ from (congrArg Prod.snd h).symm]
  · exact returning_ne_outOfRange (Store.update_ne_outOfRange _)
  · exact returning_ne_outOfRange (Store.moveToDlqAt_ne_outOfRange _ _ _)
  · exact returning_ne_outOfRange (Store.update_ne_outOfRange _)
  · exact returning_ne_outOfRange (Store.update_ne_outOfRange _)

theorem ClaimPhase.step_decodable {phase next : ClaimPhase} {input : Input}
    (hs : s.Decodable) (h : phase.step key s input = some (s', next)) :
    s'.Decodable ∧ next ≠ .returned (.error (.store .outOfRange)) := by
  cases input with
  | proceed time =>
      cases ClaimPhase.proceeds h with
      | @enter record leaseSeconds settleMs =>
          refine ⟨hs, ?_⟩
          rcases ClaimPhase.enter_cases record leaseSeconds settleMs
            (timestamp time) with
            ⟨heq, -⟩ | ⟨heq, -⟩ | ⟨_, -, heq⟩ <;> simp [heq]
      | expire => exact ⟨hs.expireDue _ _, by simp⟩
      | wake _ => exact ⟨hs, by simp⟩
      | finish hfinish =>
          exact ⟨finishes_decodable (ClaimPhase.finishes hfinish) hs,
            by simpa using claim_finish_ne hfinish⟩
  | answer events =>
      obtain ⟨next, hanswer, heq⟩ := Option.map_eq_some_iff.mp h
      cases heq
      refine ⟨hs, ?_⟩
      obtain ⟨_, _, -, hnext⟩ := (ClaimPhase.answers hanswer).next_cases
      rcases hnext with rfl | ⟨_, rfl, -⟩ <;> simp
  | accepted time =>
      obtain ⟨next, haccepted, heq⟩ := Option.map_eq_some_iff.mp h
      cases heq
      obtain ⟨_, _, -, rfl⟩ := ClaimPhase.accepted_cases haccepted
      exact ⟨hs, by simp⟩
  | failed =>
      obtain ⟨next, hfailed, heq⟩ := Option.map_eq_some_iff.mp h
      cases heq
      rw [(ClaimPhase.failed_cases hfailed).2]
      exact ⟨hs, by simp⟩

private theorem start_ne {mid : String} {stage : SettleStage}
    (hs : s.Decodable) :
    SettlePhase.start s mid stage ≠ .settled (.error (.store .outOfRange)) := by
  obtain ⟨found, hfound⟩ := hs.getMessage mid
  unfold SettlePhase.start messageRef
  rw [hfound]
  cases found with
  | none => simp
  | some record => cases hhex : Hex32.fromHex record.eventId <;> simp [hhex]

private theorem settle_finish_ne {now : Int} {call : SettleCall}
    {stage : SettleStage} {result : Except SdkError Settled}
    (h : SettlePhase.finish s now call stage = some (s', result)) :
    result ≠ .error (.store .outOfRange) := by
  cases stage <;> simp only [SettlePhase.finish, Option.some.injEq,
    reduceCtorEq] at h
  all_goals rw [show result = _ from (congrArg Prod.snd h).symm]
  · exact returning_ne_outOfRange (Store.update_ne_outOfRange _)
  · exact returning_ne_outOfRange (Store.moveToDlq_ne_outOfRange _ _)
  · exact returning_ne_outOfRange (Store.update_ne_outOfRange _)

private theorem count_ne {call : SettleCall} {reason : String}
    {config : QueueConfig}
    (hroom : ∀ row, s.row? call.record.mid = some row →
      row.attempts + 1 < 4294967296) :
    (SettlePhase.count s call reason config).2 ≠
      .settled (.error (.store .outOfRange)) := by
  have hne := Store.incrAttempts_ne_outOfRange hroom
  unfold SettlePhase.count
  split
  · simp
  · next e _ heq =>
      intro hbad
      simp only [SettlePhase.settled.injEq, Except.error.injEq,
        SdkError.store.injEq] at hbad
      exact hne (by rw [heq, hbad])

theorem SettlePhase.step_decodable {phase next : SettlePhase} {input : Input}
    (hs : s.Decodable)
    (hroom : ∀ mid ∈ (Call.settling phase : Call Envelope).counts?,
      ∀ row ∈ s.row? mid, row.attempts + 1 < 4294967296)
    (h : phase.step s input = some (s', next)) :
    s'.Decodable ∧ next ≠ .settled (.error (.store .outOfRange)) := by
  cases input with
  | proceed time =>
      cases SettlePhase.proceeds h with
      | ack => exact ⟨hs, start_ne hs⟩
      | nack => exact ⟨hs, start_ne hs⟩
      | configure => exact ⟨hs, by simp [SettlePhase.configure]⟩
      | @count call reason config =>
          rw [SettlePhase.count_fst]
          exact ⟨hs.incrAttempts (hroom _ rfl), count_ne (hroom _ rfl)⟩
      | finish hfinish =>
          refine ⟨?_, by simpa using settle_finish_ne hfinish⟩
          cases SettlePhase.finishes hfinish with
          | acked hmoves | buried hmoves | requeued hmoves =>
              exact hmoves.decodable hs fun _ _ hin => hin
  | answer events => contradiction
  | accepted time =>
      obtain ⟨next, haccepted, heq⟩ := Option.map_eq_some_iff.mp h
      cases heq
      refine ⟨hs, ?_⟩
      cases SettlePhase.accepts haccepted with
      | ack => simp
      | nack =>
          unfold SettleCall.afterNack
          split <;> simp
      | dlq => simp
  | failed =>
      obtain ⟨next, hfailed, heq⟩ := Option.map_eq_some_iff.mp h
      cases heq
      rw [SettlePhase.failed_cases hfailed]
      exact ⟨hs, by simp⟩

private theorem build_ne (call : PublishCall Envelope) (config : QueueConfig) :
    PublishPhase.build codec call config ≠
      .returned (.error (.store .outOfRange)) := by
  unfold PublishPhase.build
  split <;> simp

theorem PublishPhase.proceed_decodable {phase next : PublishPhase Envelope}
    (hs : s.Decodable) (h : phase.proceed codec s = some (s', next)) :
    s'.Decodable ∧ next ≠ .returned (.error (.store .outOfRange)) := by
  unfold PublishPhase.proceed at h
  split at h
  · split at h <;> cases h <;> exact ⟨hs, by simp⟩
  · next call config =>
      cases h
      refine ⟨hs, ?_⟩
      unfold PublishPhase.check
      split
      · exact build_ne call config
      · next key _ =>
          obtain ⟨found, hfound⟩ := hs.findByIdem call.queue key
          rw [hfound]
          cases found with
          | none => exact build_ne call config
          | some existing => simp
  · next rec =>
      cases h
      refine ⟨hs.insertMessage rec, ?_⟩
      unfold PublishPhase.insert
      split
      · simp
      · split <;> simp
  · next rec key =>
      cases h
      refine ⟨hs, ?_⟩
      obtain ⟨found, hfound⟩ := hs.findByIdem rec.queue key
      unfold PublishPhase.reread
      rw [hfound]
      cases found <;> simp
  · contradiction

theorem Call.step_decodable {call next : Call Envelope} {input : CallInput}
    (hs : s.Decodable)
    (hroom : ∀ mid ∈ call.counts?, ∀ row ∈ s.row? mid,
      row.attempts + 1 < 4294967296)
    (h : call.step codec key s input = some (s', next)) :
    s'.Decodable ∧ ¬ next.Overflowed := by
  unfold Call.step at h
  split at h
  · obtain ⟨⟨store, phase⟩, hstep, heq⟩ := Option.map_eq_some_iff.mp h
    cases heq
    obtain ⟨hs', hne⟩ := PublishPhase.proceed_decodable hs hstep
    exact ⟨hs', by simpa [Overflowed] using hne⟩
  · next phase id now =>
      obtain ⟨after, haccepted, heq⟩ := Option.map_eq_some_iff.mp h
      cases heq
      refine ⟨hs, ?_⟩
      unfold PublishPhase.accepted at haccepted
      split at haccepted
      · split at haccepted <;> cases haccepted <;> simp [Overflowed]
      · contradiction
  · obtain ⟨after, hfailed, heq⟩ := Option.map_eq_some_iff.mp h
    cases heq
    refine ⟨hs, ?_⟩
    unfold PublishPhase.failed at hfailed
    split at hfailed
    · cases hfailed
      simp [Overflowed]
    · contradiction
  · obtain ⟨⟨store, phase⟩, hstep, heq⟩ := Option.map_eq_some_iff.mp h
    cases heq
    obtain ⟨hs', hne⟩ := ClaimPhase.step_decodable hs hstep
    exact ⟨hs', by simpa [Overflowed] using hne⟩
  · obtain ⟨⟨store, phase⟩, hstep, heq⟩ := Option.map_eq_some_iff.mp h
    cases heq
    obtain ⟨hs', hne⟩ := SettlePhase.step_decodable hs hroom hstep
    exact ⟨hs', by simpa [Overflowed] using hne⟩
  · contradiction

end Steps

namespace Session

variable {Envelope : Type} {codec : Codec Envelope} {key : PublicKey}
  {c c' : Session Envelope}

theorem resume_cases {i : Nat} {input : CallInput}
    (h : step codec key c (.resume i input) = some c') :
    ∃ call s next, c.calls[i]? = some call ∧
      call.step codec key c.store input = some (s, next) ∧
      c' = { store := s, calls := c.calls.set i next } := by
  obtain ⟨call, hcall, hstep⟩ := Option.bind_eq_some_iff.mp h
  obtain ⟨⟨s, next⟩, hnext, heq⟩ := Option.map_eq_some_iff.mp hstep
  exact ⟨call, s, next, hcall, hnext, heq.symm⟩

theorem forall_start {P : Call Envelope → Prop} {call : Call Envelope}
    (h : ∀ other ∈ c.calls, P other) (hcall : P call) :
    ∀ other ∈ (c.start call).calls, P other :=
  List.forall_mem_append.mpr ⟨h, List.forall_mem_singleton.mpr hcall⟩

theorem forall_set {P : Call Envelope → Prop} {i : Nat} {next : Call Envelope}
    (h : ∀ other ∈ c.calls, P other) (hnext : P next) :
    ∀ other ∈ c.calls.set i next, P other := by
  intro other hother
  rcases List.mem_or_eq_of_mem_set hother with hold | rfl
  · exact h other hold
  · exact hnext

/-- The stored rows decode, and no call has failed because one did not. -/
structure Sound (c : Session Envelope) : Prop where
  decodable : c.store.Decodable
  calls : ∀ call ∈ c.calls, ¬ call.Overflowed

private theorem Sound.start (h : c.Sound) {call : Call Envelope}
    (hcall : ¬ call.Overflowed) : (c.start call).Sound :=
  ⟨h.decodable, forall_start h.calls hcall⟩

theorem Sound.step {a : SessionAction Envelope} (h : c.Sound)
    (hroom : c.Headroom a) (hs : step codec key c a = some c') : c'.Sound := by
  cases a with
  | publish call =>
      cases hs
      exact h.start (by simp [Call.Overflowed, Call.publish])
  | tryClaim record leaseSeconds settleMs =>
      cases hs
      exact h.start (by simp [Call.Overflowed, Call.tryClaim])
  | ack mid =>
      cases hs
      exact h.start (by simp [Call.Overflowed, Call.ack])
  | nack mid reason =>
      cases hs
      exact h.start (by simp [Call.Overflowed, Call.nack])
  | resume i input =>
      obtain ⟨call, s, next, hcall, hnext, rfl⟩ := resume_cases hs
      simp only [Headroom, hcall, Option.bind_some] at hroom
      obtain ⟨hdecodable, hne⟩ := Call.step_decodable h.decodable hroom hnext
      exact ⟨hdecodable, forall_set h.calls hne⟩
  | ingest event =>
      cases hs
      refine ⟨?_, h.calls⟩
      unfold Sdk.ingest
      split
      · exact h.decodable
      · exact h.decodable.insertMessage _
  | sweepExpired queue now =>
      cases hs
      exact ⟨h.decodable.expireDue queue now, h.calls⟩
  | dlqRetry mid =>
      cases hs
      exact ⟨h.decodable.dlqRetry mid, h.calls⟩
  | configure queues =>
      cases hs
      exact ⟨h.decodable, h.calls⟩

theorem sound (h : (system codec key).Reach Headroom c) : c.Sound :=
  h.invariant (I := Sound)
    (fun _ h₀ => ⟨h₀.1, by simp [h₀.2]⟩)
    fun _ _ _ _ hi hroom hs => hi.step hroom hs

/--
As long as no counter is moved from its top, every counter stays within its
word, the queries answer, and no call fails on a counter.
-/
theorem counters_in_range (h : (system codec key).Reach Headroom c) :
    (∀ row ∈ c.store.messages.rows,
      row.attempts < 4294967296 ∧ row.attemptFloor < 4294967296) ∧
    (∀ mid, ∃ found, c.store.getMessage mid = .ok found) ∧
    (∀ scan queue now limit,
      ∃ batch, c.store.claimable scan queue now limit = .ok batch) ∧
    ∀ call ∈ c.calls, ¬ call.Overflowed := by
  have hsound := sound h
  exact ⟨hsound.decodable.rows, hsound.decodable.getMessage,
    hsound.decodable.claimable, hsound.calls⟩

section Runs

/-- A message event of the sample call that claims 2^32 - 1 attempts. -/
def spentMessage : Event :=
  { Publishing.sampleDraft with
    tags := [["t", "jobs"], ["q", "jobs"], ["mode", "work_queue"], ["mid", "m"],
      ["trace", "trace"], ["attempt", "4294967295"]] }.sign
    (hexOf '0') 0 Publishing.sampleId

def sampleSession : Session String := ⟨.empty, []⟩

def nackRun (event : Event) : List (SessionAction String) :=
  [.ingest event, .nack "m" "failed", .resume 0 (.io (.proceed 0)),
    .resume 0 (.io (.proceed 0)), .resume 0 (.io (.proceed 0))]

theorem counters_in_range_nacked :
    ∃ c : Session String, c.store.row? "m" ≠ none ∧
      (∀ row ∈ c.store.messages.rows,
        row.attempts < 4294967296 ∧ row.attemptFloor < 4294967296) ∧
      (∀ mid, ∃ found, c.store.getMessage mid = .ok found) ∧
      (∀ scan queue now limit,
        ∃ batch, c.store.claimable scan queue now limit = .ok batch) ∧
      ∀ call ∈ c.calls, ¬ call.Overflowed := by
  obtain ⟨c, hreach, htest⟩ :=
    (System.Reach.init (S := system Publishing.textCodec Publishing.sampleId)
      (P := Headroom) (s := sampleSession)
      ⟨Store.decodable_empty, rfl⟩).of_run_check
      (nackRun (Publishing.sampleDraft.sign (hexOf '0') 0
        Publishing.sampleId))
      (fun c : Session String => decide (c.store.row? "m" ≠ none)) (by decide)
  exact ⟨c, of_decide_eq_true htest, counters_in_range hreach⟩

/--
A message event may carry any attempt.  One nack moves the counter of this one
past its word: the row does not decode, and the batch of its queue fails.
-/
theorem nack_past_top :
    ∃ c : Session String,
      (system Publishing.textCodec Publishing.sampleId).Reach System.Free c ∧
      (∃ row, c.store.row? "m" = some row ∧ row.attempts = 4294967296) ∧
      c.store.getMessage "m" = .error .outOfRange ∧
      c.store.claimable .stored "jobs" 1 1 = .error .outOfRange ∧
      ∃ call ∈ c.calls, call.Overflowed := by
  obtain ⟨c, hreach, htest⟩ :=
    (System.Reach.init (S := system Publishing.textCodec Publishing.sampleId)
      (P := System.Free) (s := sampleSession)
      ⟨Store.decodable_empty, rfl⟩).of_run_check
      (nackRun spentMessage)
      (fun c : Session String => decide ((∃ row ∈ c.store.row? "m",
        row.attempts = 4294967296) ∧
        c.store.getMessage "m" = .error .outOfRange ∧
        c.store.claimable .stored "jobs" 1 1 = .error .outOfRange) &&
        c.calls.any fun call => match call with
          | .settling phase =>
              decide (phase = .settled (.error (.store .outOfRange)))
          | _ => false) (by decide)
  obtain ⟨hstore, hcalls⟩ := Bool.and_eq_true_iff.mp htest
  obtain ⟨⟨row, hrow, hattempts⟩, hget, hclaimable⟩ := of_decide_eq_true hstore
  obtain ⟨call, hmem, hcall⟩ := List.any_eq_true.mp hcalls
  refine ⟨c, hreach, ⟨row, hrow, hattempts⟩, hget, hclaimable, call, hmem, ?_⟩
  split at hcall
  · next phase =>
      rw [of_decide_eq_true hcall]
      exact Or.inr (Or.inr rfl)
  · contradiction

end Runs

end Session

end NostrQ.Sdk
