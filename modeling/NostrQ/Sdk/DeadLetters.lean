import NostrQ.Database.DeadLetters
import NostrQ.Sdk.Session

/-!
# The dead-letter list over a session

A retry takes a message off the list when it takes it back from the dead; a late
claim, acknowledgement or requeueing does not.  As long as none of these finds
its row dead, the list shows the dead messages and nothing else.
-/

namespace NostrQ.Sdk

open NostrQ.Foundation NostrQ.Core NostrQ.Database

def Call.marks? {Envelope : Type} : Call Envelope → Option String
  | .claiming (.during call .ackObserved) => some call.record.mid
  | .claiming (.during call (.recognised _)) => some call.record.mid
  | .claiming (.during call (.contendWon _)) => some call.record.mid
  | .settling (.during call .ackAccepted) => some call.record.mid
  | .settling (.during call (.requeueing _ _)) => some call.record.mid
  | _ => none

def Call.Living {Envelope : Type} : Call Envelope → Prop
  | .publishing (.inserting rec) => rec.status ≠ .dead
  | _ => True

section Steps

variable {Envelope : Type} {codec : Codec Envelope} {key : PublicKey}
  {s s' : Store}

def Spared (s : Store) (mid : String) : Prop :=
  ∀ row ∈ s.row? mid, row.status ≠ .dead

private theorem claim_finish_inStep {now : Int} {call : ClaimCall}
    {stage : ClaimStage} {result : Except SdkError Bool} (h : s.InStep)
    (hspared : ∀ mid ∈ (Call.claiming (.during call stage) :
      Call Envelope).marks?, Spared s mid)
    (hfinish : ClaimPhase.finish key s now call stage = some (s', result)) :
    s'.InStep := by
  cases stage <;> simp only [ClaimPhase.finish, Option.some.injEq,
    reduceCtorEq] at hfinish
  all_goals
    have hs : s' = _ := (congrArg Prod.fst hfinish).symm
    rw [returning_fst] at hs
    rw [hs]
  · exact h.update (hspared _ rfl) fun _ => by simp
  · exact h.moveToDlqAt _ _ _
  · exact h.update (hspared _ rfl) fun _ => by simp
  · exact h.update (hspared _ rfl) fun _ => by simp

private theorem settle_finish_inStep {now : Int} {call : SettleCall}
    {stage : SettleStage} {result : Except SdkError Settled} (h : s.InStep)
    (hspared : ∀ mid ∈ (Call.settling (.during call stage) :
      Call Envelope).marks?, Spared s mid)
    (hfinish : SettlePhase.finish s now call stage = some (s', result)) :
    s'.InStep := by
  cases stage <;> simp only [SettlePhase.finish, Option.some.injEq,
    reduceCtorEq] at hfinish
  all_goals
    have hs : s' = _ := (congrArg Prod.fst hfinish).symm
    rw [returning_fst] at hs
    rw [hs]
  · exact h.update (hspared _ rfl) fun _ => by simp
  · exact h.moveToDlq _ _
  · exact h.update (hspared _ rfl) fun _ => by simp

theorem ClaimPhase.step_inStep {phase next : ClaimPhase} {input : Input}
    (h : s.InStep)
    (hspared : ∀ mid ∈ (Call.claiming phase : Call Envelope).marks?,
      Spared s mid)
    (hs : phase.step key s input = some (s', next)) : s'.InStep := by
  rcases ClaimPhase.step_store hs with rfl | ⟨time, hproceeds⟩
  · exact h
  · cases hproceeds with
    | enter => exact h
    | expire => exact h.expireDue _ _
    | wake _ => exact h
    | finish hfinish => exact claim_finish_inStep h hspared hfinish

theorem SettlePhase.step_inStep {phase next : SettlePhase} {input : Input}
    (h : s.InStep)
    (hspared : ∀ mid ∈ (Call.settling phase : Call Envelope).marks?,
      Spared s mid)
    (hs : phase.step s input = some (s', next)) : s'.InStep := by
  rcases SettlePhase.step_store hs with rfl | ⟨time, hproceeds⟩
  · exact h
  · cases hproceeds with
    | ack => exact h
    | nack => exact h
    | configure => exact h
    | count =>
        rw [SettlePhase.count_fst]
        exact h.incrAttempts
    | finish hfinish => exact settle_finish_inStep h hspared hfinish

theorem initialStatus_ne_dead (mode : QueueMode) :
    PublishCall.initialStatus mode ≠ .dead := by
  cases mode <;> simp [PublishCall.initialStatus]

theorem PublishPhase.proceed_inStep {phase next : PublishPhase Envelope}
    (h : s.InStep) (hliving : (Call.publishing phase).Living)
    (hs : phase.proceed codec s = some (s', next)) :
    s'.InStep ∧ (Call.publishing next).Living := by
  unfold PublishPhase.proceed at hs
  split at hs
  · split at hs <;> cases hs <;> exact ⟨h, trivial⟩
  · cases hs
    refine ⟨h, ?_⟩
    unfold PublishPhase.check PublishPhase.build
    split
    · split <;> trivial
    · split
      · trivial
      · trivial
      · split <;> trivial
  · cases hs
    refine ⟨h.insertMessage hliving, ?_⟩
    unfold PublishPhase.insert
    split
    · trivial
    · split <;> trivial
  · cases hs
    refine ⟨h, ?_⟩
    unfold PublishPhase.reread
    split <;> trivial
  · contradiction

theorem Call.step_inStep {call next : Call Envelope} {input : CallInput}
    (h : s.InStep) (hliving : call.Living)
    (hspared : ∀ mid ∈ call.marks?, Spared s mid)
    (hs : call.step codec key s input = some (s', next)) :
    s'.InStep ∧ next.Living := by
  unfold Call.step at hs
  split at hs
  · obtain ⟨⟨store, after⟩, hstep, heq⟩ := Option.map_eq_some_iff.mp hs
    cases heq
    exact PublishPhase.proceed_inStep h hliving hstep
  · obtain ⟨after, haccepted, heq⟩ := Option.map_eq_some_iff.mp hs
    cases heq
    refine ⟨h, ?_⟩
    unfold PublishPhase.accepted at haccepted
    split at haccepted
    · split at haccepted <;> cases haccepted
      · trivial
      · exact initialStatus_ne_dead _
    · contradiction
  · obtain ⟨after, hfailed, heq⟩ := Option.map_eq_some_iff.mp hs
    cases heq
    refine ⟨h, ?_⟩
    unfold PublishPhase.failed at hfailed
    split at hfailed
    · cases hfailed
      trivial
    · contradiction
  · obtain ⟨⟨store, after⟩, hstep, heq⟩ := Option.map_eq_some_iff.mp hs
    cases heq
    exact ⟨ClaimPhase.step_inStep h hspared hstep, trivial⟩
  · obtain ⟨⟨store, after⟩, hstep, heq⟩ := Option.map_eq_some_iff.mp hs
    cases heq
    exact ⟨SettlePhase.step_inStep h hspared hstep, trivial⟩
  · contradiction

end Steps

namespace Session

variable {Envelope : Type} {codec : Codec Envelope} {key : PublicKey}
  {c c' : Session Envelope}

/-- No claim, acknowledgement or requeueing finds its row dead. -/
def Spares (c : Session Envelope) : SessionAction Envelope → Prop
  | .resume i _ => ∀ mid ∈ c.calls[i]?.bind Call.marks?, Spared c.store mid
  | _ => True

instance (c : Session Envelope) (a : SessionAction Envelope) :
    Decidable (c.Spares a) :=
  match a with
  | .resume _ _ => inferInstanceAs (Decidable (∀ _ ∈ _, ∀ _ ∈ _, _))
  | .publish _ | .tryClaim _ _ _ | .ack _ | .nack _ _ | .ingest _
  | .sweepExpired _ _ | .dlqRetry _ | .configure _ =>
      inferInstanceAs (Decidable True)

def Listed (c : Session Envelope) : Prop :=
  c.store.InStep ∧ c.calls = []

structure Faithful (c : Session Envelope) : Prop where
  inStep : c.store.InStep
  living : ∀ call ∈ c.calls, call.Living

private theorem Faithful.start {call : Call Envelope} (h : c.Faithful)
    (hcall : call.Living) : (c.start call).Faithful :=
  ⟨h.inStep, forall_start h.living hcall⟩

theorem Faithful.step {a : SessionAction Envelope} (h : c.Faithful)
    (hspares : c.Spares a) (hs : step codec key c a = some c') :
    c'.Faithful := by
  cases a with
  | publish call =>
      cases hs
      exact h.start trivial
  | tryClaim record leaseSeconds settleMs =>
      cases hs
      exact h.start trivial
  | ack mid =>
      cases hs
      exact h.start trivial
  | nack mid reason =>
      cases hs
      exact h.start trivial
  | resume i input =>
      obtain ⟨call, s, next, hcall, hnext, rfl⟩ := resume_cases hs
      simp only [Spares, hcall, Option.bind_some] at hspares
      obtain ⟨hinStep, hliving⟩ := Call.step_inStep h.inStep
        (h.living call (List.mem_of_getElem? hcall)) hspares hnext
      exact ⟨hinStep, forall_set h.living hliving⟩
  | ingest event =>
      cases hs
      refine ⟨?_, h.living⟩
      unfold Sdk.ingest
      split
      · exact h.inStep
      · next rec hrec =>
          refine h.inStep.insertMessage ?_
          simp [(ingestRecord_ok hrec).1]
  | sweepExpired queue now =>
      cases hs
      exact ⟨h.inStep.expireDue queue now, h.living⟩
  | dlqRetry mid =>
      cases hs
      exact ⟨h.inStep.dlqRetry mid, h.living⟩
  | configure queues =>
      cases hs
      exact ⟨⟨h.inStep.dead_iff, h.inStep.once, h.inStep.queue⟩, h.living⟩

theorem faithful (h : ((system codec key).startingIn Listed).Reach Spares c) :
    c.Faithful :=
  h.invariant (I := Faithful) (fun _ h₀ => ⟨h₀.1, by simp [h₀.2]⟩)
    fun _ _ _ _ hi hspares hs => hi.step hspares hs

/--
In every run in which no claim, acknowledgement or requeueing finds its row
dead, the dead messages are the listed ones, and the statistics of each queue
count its list.
-/
theorem dead_iff_listed
    (h : ((system codec key).startingIn Listed).Reach Spares c) :
    (∀ mid, (∃ row, c.store.row? mid = some row ∧ row.status = .dead) ↔
      ∃ entry ∈ c.store.dlq, entry.mid = mid) ∧
    ∀ scan queue now stats listed, c.store.stats queue now = .ok stats →
      c.store.dlqList scan (some queue) = .ok listed →
      stats.dead.val = listed.length := by
  have hinStep := (faithful h).inStep
  exact ⟨fun mid => hinStep.dead_iff mid,
    fun _ _ _ _ _ hstats hlist => hinStep.stats_eq_dlqList hstats hlist⟩

section Runs

open Publishing

def remoteDlq : Event :=
  (buildDlqEvent id ⟨sampleId, "jobs", "m", "trace"⟩ 1 "failed").sign
    (hexOf 'f') 0 (hexOf 'd')

/-- A call finds the dead-letter event and buries the message. -/
def buryingRun : List (SessionAction String) :=
  [.ingest (sampleDraft.sign (hexOf '0') 0 sampleId),
    .tryClaim sampleRecord 60 0, .resume 0 (.io (.proceed 0)),
    .resume 0 (.io (.answer [remoteDlq])), .resume 0 (.io (.proceed 0))]

private theorem sampleSession_listed : sampleSession.Listed :=
  ⟨Store.inStep_empty, rfl⟩

theorem dead_iff_listed_buried :
    ∃ c : Session String, (∃ row, c.store.row? "m" = some row ∧
      row.status = .dead) ∧ ∃ entry ∈ c.store.dlq, entry.mid = "m" := by
  obtain ⟨c, hreach, htest⟩ :=
    (System.Reach.init
      (S := (system textCodec (hexOf 'a')).startingIn Listed)
      (P := Spares) sampleSession_listed).of_run_check buryingRun
      (fun c => decide (∃ row ∈ c.store.row? "m", row.status = .dead))
      (by decide)
  have hdead := of_decide_eq_true htest
  exact ⟨c, hdead, ((dead_iff_listed hreach).1 "m").mp hdead⟩

def remoteEntry : DlqRecord :=
  ⟨"m", "jobs", "dead-lettered by remote worker", 1, 0⟩

/-- The message is acknowledged after it died: it stays on the list. -/
theorem late_ack_still_listed :
    ∃ c : Session String,
      ((system textCodec (hexOf 'a')).startingIn Listed).Reach System.Free c ∧
      (∃ row, c.store.row? "m" = some row ∧ row.status = .acked) ∧
      (∃ entry ∈ c.store.dlq, entry.mid = "m") ∧
      c.store.stats "jobs" 0 = .ok ⟨0, 0, 1, 0, 0, none⟩ ∧
      c.store.dlqList .stored (some "jobs") = .ok [remoteEntry] := by
  obtain ⟨c, hreach, htest⟩ :=
    (System.Reach.init
      (S := (system textCodec (hexOf 'a')).startingIn Listed)
      (P := System.Free) sampleSession_listed).of_run_check
      (buryingRun ++ [.ack "m", .resume 1 (.io (.proceed 0)),
        .resume 1 (.io (.accepted 0)), .resume 1 (.io (.proceed 0))])
      (fun c => decide ((∃ row ∈ c.store.row? "m", row.status = .acked) ∧
        (∃ entry ∈ c.store.dlq, entry.mid = "m") ∧
        c.store.stats "jobs" 0 = .ok ⟨0, 0, 1, 0, 0, none⟩ ∧
        c.store.dlqList .stored (some "jobs") = .ok [remoteEntry])) (by decide)
  exact ⟨c, hreach, of_decide_eq_true htest⟩

end Runs

end Session

end NostrQ.Sdk
