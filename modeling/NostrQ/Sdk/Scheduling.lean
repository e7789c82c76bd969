import NostrQ.Database.Scheduling
import NostrQ.Sdk.Session

/-!
# Leases over a session

Only a claim sets the status `claimed`, and it sets the lease with it; every
other write clears both.
-/

namespace NostrQ.Sdk

open NostrQ.Foundation NostrQ.Core NostrQ.Database

section Steps

variable {Envelope : Type} {codec : Codec Envelope} {key : PublicKey}
  {s s' : Store}

def Call.Unclaimed : Call Envelope → Prop
  | .publishing (.inserting rec) => rec.status ≠ .claimed
  | _ => True

private theorem claim_finishes_leased {call : ClaimCall} {stage : ClaimStage}
    {result : Except SdkError Bool} (h : s.Leased)
    (hfinishes : ClaimPhase.Finishes key s call s' stage result) :
    s'.Leased := by
  cases hfinishes with
  | acked hmoves _ => exact hmoves.leased h fun p _ => p.leased_ack
  | buried hmoves _ => exact hmoves.leased h fun p _ => p.leased_buryAt _
  | recognised hmoves _ | contendWon hmoves _ =>
      exact hmoves.leased h fun p _ => p.leased_claim _ _ _

theorem ClaimPhase.step_leased {phase next : ClaimPhase} {input : Input}
    (h : s.Leased) (hs : phase.step key s input = some (s', next)) :
    s'.Leased := by
  rcases ClaimPhase.step_store hs with rfl | ⟨time, hproceeds⟩
  · exact h
  · cases hproceeds with
    | enter => exact h
    | expire => exact h.expireDue _ _
    | wake _ => exact h
    | finish hfinish =>
        exact claim_finishes_leased h (ClaimPhase.finishes hfinish)

private theorem settle_finishes_leased {call : SettleCall}
    {stage : SettleStage} (h : s.Leased)
    (hfinishes : SettlePhase.Finishes s call s' stage) : s'.Leased := by
  cases hfinishes with
  | acked hmoves => exact hmoves.leased h fun p _ => p.leased_ack
  | buried hmoves => exact hmoves.leased h fun p _ => p.leased_bury
  | requeued hmoves => exact hmoves.leased h fun p _ => p.leased_requeue _

theorem SettlePhase.step_leased {phase next : SettlePhase} {input : Input}
    (h : s.Leased) (hs : phase.step s input = some (s', next)) :
    s'.Leased := by
  rcases SettlePhase.step_store hs with rfl | ⟨time, hproceeds⟩
  · exact h
  · cases hproceeds with
    | ack => exact h
    | nack => exact h
    | configure => exact h
    | count =>
        rw [SettlePhase.count_fst]
        exact h.incrAttempts _
    | finish hfinish =>
        exact settle_finishes_leased h (SettlePhase.finishes hfinish)

theorem initialStatus_ne_claimed (mode : QueueMode) :
    PublishCall.initialStatus mode ≠ .claimed := by
  cases mode <;> simp [PublishCall.initialStatus]

theorem PublishPhase.proceed_unclaimed {phase next : PublishPhase Envelope}
    (h : phase.proceed codec s = some (s', next)) :
    (Call.publishing next).Unclaimed ∧
      (s' = s ∨ ∃ rec, phase = .inserting rec ∧
        s' = (s.insertMessage rec).2) := by
  unfold PublishPhase.proceed at h
  split at h
  · split at h <;> cases h <;> exact ⟨trivial, Or.inl rfl⟩
  · cases h
    refine ⟨?_, Or.inl rfl⟩
    unfold PublishPhase.check PublishPhase.build
    split
    · split <;> trivial
    · split
      · trivial
      · trivial
      · split <;> trivial
  · next rec =>
      cases h
      refine ⟨?_, Or.inr ⟨rec, rfl, rfl⟩⟩
      unfold PublishPhase.insert
      split
      · trivial
      · split <;> trivial
  · cases h
    refine ⟨?_, Or.inl rfl⟩
    unfold PublishPhase.reread
    split <;> trivial
  · contradiction

theorem PublishPhase.accepted_unclaimed {phase next : PublishPhase Envelope}
    {id : EventId} {now : Int} (h : phase.accepted codec id now = some next) :
    (Call.publishing next).Unclaimed := by
  unfold PublishPhase.accepted at h
  split at h
  · split at h <;> cases h
    · trivial
    · exact initialStatus_ne_claimed _
  · contradiction

theorem PublishPhase.failed_unclaimed {phase next : PublishPhase Envelope}
    (h : phase.failed = some next) : (Call.publishing next).Unclaimed := by
  unfold PublishPhase.failed at h
  split at h
  · cases h
    trivial
  · contradiction

theorem ingest_unclaimed (codec : Codec Envelope) (s : Store) (event : Event) :
    ingest codec s event = s ∨ ∃ rec : MessageRecord,
      rec.status ≠ .claimed ∧ ingest codec s event = (s.insertMessage rec).2 := by
  unfold ingest
  split
  · exact Or.inl rfl
  · next rec hrec =>
      refine Or.inr ⟨rec, ?_, rfl⟩
      simp [(ingestRecord_ok hrec).1]

theorem Call.step_leased {call next : Call Envelope} {input : CallInput}
    (h : s.Leased) (hunclaimed : call.Unclaimed)
    (hs : call.step codec key s input = some (s', next)) :
    s'.Leased ∧ next.Unclaimed := by
  unfold Call.step at hs
  split at hs
  · obtain ⟨⟨store, after⟩, hstep, heq⟩ := Option.map_eq_some_iff.mp hs
    cases heq
    obtain ⟨hnext, rfl | ⟨rec, rfl, rfl⟩⟩ := PublishPhase.proceed_unclaimed hstep
    · exact ⟨h, hnext⟩
    · exact ⟨h.insertMessage hunclaimed, hnext⟩
  · obtain ⟨after, haccepted, heq⟩ := Option.map_eq_some_iff.mp hs
    cases heq
    exact ⟨h, PublishPhase.accepted_unclaimed haccepted⟩
  · obtain ⟨after, hfailed, heq⟩ := Option.map_eq_some_iff.mp hs
    cases heq
    exact ⟨h, PublishPhase.failed_unclaimed hfailed⟩
  · obtain ⟨⟨store, after⟩, hstep, heq⟩ := Option.map_eq_some_iff.mp hs
    cases heq
    exact ⟨ClaimPhase.step_leased h hstep, trivial⟩
  · obtain ⟨⟨store, after⟩, hstep, heq⟩ := Option.map_eq_some_iff.mp hs
    cases heq
    exact ⟨SettlePhase.step_leased h hstep, trivial⟩
  · contradiction

end Steps

namespace Session

variable {Envelope : Type} {codec : Codec Envelope} {key : PublicKey}
  {c c' : Session Envelope}

/-- No call is running, the rows decode, and what is claimed has a lease. -/
def Clean (c : Session Envelope) : Prop :=
  c.Opened ∧ c.store.Leased

structure Timed (c : Session Envelope) : Prop where
  leased : c.store.Leased
  unclaimed : ∀ call ∈ c.calls, call.Unclaimed

private theorem Timed.start {call : Call Envelope} (h : c.Timed)
    (hcall : call.Unclaimed) : (c.start call).Timed :=
  ⟨h.leased, forall_start h.unclaimed hcall⟩

theorem Timed.step {a : SessionAction Envelope} (h : c.Timed)
    (hs : step codec key c a = some c') : c'.Timed := by
  cases a with
  | publish call =>
      cases hs
      exact h.start trivial
  | tryClaim record leaseSeconds settleMs =>
      cases hs
      exact h.start trivial
  | ack mid =>
      cases hs
      exact h.start trivial
  | nack mid reason =>
      cases hs
      exact h.start trivial
  | resume i input =>
      obtain ⟨call, s, next, hcall, hnext, rfl⟩ := resume_cases hs
      obtain ⟨hleased, hunclaimed⟩ := Call.step_leased h.leased
        (h.unclaimed call (List.mem_of_getElem? hcall)) hnext
      exact ⟨hleased, forall_set h.unclaimed hunclaimed⟩
  | ingest event =>
      cases hs
      refine ⟨?_, h.unclaimed⟩
      change (ingest codec c.store event).Leased
      rcases ingest_unclaimed codec c.store event with heq | ⟨rec, hstatus, heq⟩
      · rw [heq]
        exact h.leased
      · rw [heq]
        exact h.leased.insertMessage hstatus
  | sweepExpired queue now =>
      cases hs
      exact ⟨h.leased.expireDue queue now, h.unclaimed⟩
  | dlqRetry mid =>
      cases hs
      exact ⟨h.leased.dlqRetry mid, h.unclaimed⟩
  | configure queues =>
      cases hs
      exact ⟨h.leased, h.unclaimed⟩

theorem timed {P : Session Envelope → SessionAction Envelope → Prop}
    (h : ((system codec key).startingIn Clean).Reach P c) : c.Timed :=
  h.invariant (I := Timed) (fun _ h₀ => ⟨h₀.2, by simp [h₀.1.2]⟩)
    fun _ _ _ _ hi _ hs => hi.step hs

theorem scheduled
    (h : ((system codec key).startingIn Clean).Reach Headroom c)
    (queue : String) (now : Int) : c.store.Scheduled queue now :=
  (timed h).leased.scheduled
    (sound (h.restart fun _ h₀ => h₀.1)).decodable queue now

end Session

end NostrQ.Sdk
