import NostrQ.Cluster.Timestamps
import NostrQ.Sdk.Session
import NostrQ.Sdk.Ingest
import NostrQ.Transport.Feed

/-!
# The ingest loop of a queue

The loop takes an event from its subscription and stores a row for it before it
takes the next one, beside whatever else uses the store.  It skips a malformed
event, ends when its subscription is over, and does not survive an event whose
date is too far from the clock.
-/

namespace NostrQ.Cluster

open NostrQ.Foundation NostrQ.Core NostrQ.Database NostrQ.Sdk NostrQ.Transport

/-! ## No operation removes a row -/

section Keeps

variable {Envelope : Type} {codec : Codec Envelope} {key : PublicKey}
  {s s' : Store}

private theorem proceed_keeps {phase next : PublishPhase Envelope}
    (h : phase.proceed codec s = some (s', next)) : s.Keeps s' := by
  unfold PublishPhase.proceed at h
  split at h
  · split at h <;> cases h <;> exact .refl s
  · cases h
    exact .refl s
  · cases h
    exact Store.insertMessage_keeps _
  · cases h
    exact .refl s
  · contradiction

theorem ingest_keeps (event : Event) : s.Keeps (ingest codec s event) := by
  unfold ingest
  split
  · exact .refl s
  · exact Store.insertMessage_keeps _

private theorem call_keeps {call next : Call Envelope} {input : CallInput}
    (h : call.step codec key s input = some (s', next)) : s.Keeps s' := by
  unfold Call.step at h
  split at h
  · obtain ⟨⟨store, phase⟩, hstep, heq⟩ := Option.map_eq_some_iff.mp h
    cases heq
    exact proceed_keeps hstep
  · obtain ⟨phase, -, heq⟩ := Option.map_eq_some_iff.mp h
    cases heq
    exact .refl s
  · obtain ⟨phase, -, heq⟩ := Option.map_eq_some_iff.mp h
    cases heq
    exact .refl s
  · obtain ⟨⟨store, phase⟩, hstep, heq⟩ := Option.map_eq_some_iff.mp h
    cases heq
    rcases ClaimPhase.step_store hstep with rfl | ⟨time, hproceeds⟩
    · exact .refl _
    · exact hproceeds.rewrites.keeps
  · obtain ⟨⟨store, phase⟩, hstep, heq⟩ := Option.map_eq_some_iff.mp h
    cases heq
    rcases SettlePhase.step_store hstep with rfl | ⟨time, hproceeds⟩
    · exact .refl _
    · exact hproceeds.rewrites.keeps
  · contradiction

theorem session_keeps {c c' : Session Envelope} {a : SessionAction Envelope}
    (h : c.step codec key a = some c') : c.store.Keeps c'.store := by
  cases a with
  | publish call | tryClaim record leaseSeconds settleMs | ack mid
  | nack mid reason =>
      cases h
      exact .refl _
  | resume i input =>
      obtain ⟨call, s, next, -, hnext, rfl⟩ := Session.resume_cases h
      exact call_keeps hnext
  | ingest event =>
      cases h
      exact ingest_keeps event
  | sweepExpired queue now =>
      cases h
      exact (Store.expireDue_rewrites queue now).keeps
  | dlqRetry mid =>
      cases h
      exact Store.dlqRetry_moves.rewrites.keeps
  | configure queues =>
      cases h
      exact .refl c.store

/-- The row, or one that a unique index keeps it out for, is in the table. -/
def Represented (s : Store) (row : Row) : Prop :=
  ∃ stored ∈ s.messages.rows, stored.Conflicts row

theorem Represented.keeps {row : Row} (h : Represented s row)
    (hkeeps : s.Keeps s') : Represented s' row := by
  obtain ⟨stored, hmem, hconflicts⟩ := h
  obtain ⟨progress, hrow⟩ := hkeeps stored.mid stored (Messages.row?_of_mem hmem)
  exact ⟨stored.set progress, (Messages.row?_mem hrow).1, hconflicts⟩

theorem represented_ingest {event : Event} {row : Row}
    (h : ingestRow? codec event = some row) :
    Represented (ingest codec s event) row := by
  unfold Represented
  rw [ingest_rows, h, Option.elim_some, keep]
  split
  · next hstored => exact hstored
  · exact ⟨row, by simp, Or.inl rfl⟩

end Keeps

/-! ## The loop beside other users of its store -/

structure Ingesting (Envelope α : Type) where
  feed : Feed α
  hand : Option Event
  running : Bool
  session : Session Envelope

inductive IngestingAction (Envelope α : Type) where
  | feed (a : FeedAction α)
  | recv
  | store (now : Int)
  | other (a : SessionAction Envelope)

namespace Ingesting

variable {Envelope α : Type} (codec : Codec Envelope) (key : PublicKey)
  (S : Source α)

/-- Another task of the process may run between any two of these steps. -/
def step (c : Ingesting Envelope α) :
    IngestingAction Envelope α → Option (Ingesting Envelope α)
  | .feed a =>
      (c.feed.step S c.running a).map fun feed => { c with feed := feed }
  | .recv =>
      if c.running && c.hand.isNone then
        match c.feed.pop with
        | some (event, feed) => some { c with feed := feed, hand := some event }
        | none => if c.feed.Over then some { c with running := false } else none
      else none
  | .store now =>
      c.hand.map fun event =>
        match ingestRound codec now c.session.store event with
        | some s =>
            { c with hand := none, session := { c.session with store := s } }
        | none => { c with hand := none, running := false }
  | .other a =>
      (c.session.step codec key a).map fun session =>
        { c with session := session }

def system (tx : Broadcast α) (stored : List Event) :
    System (Ingesting Envelope α) (IngestingAction Envelope α) where
  init c := c.feed = .subscribe tx stored ∧ c.hand = none ∧ c.running = true
  step := step codec key S

def Dated (c : Ingesting Envelope α) : IngestingAction Envelope α → Prop
  | .store now => InI64 now ∧ ∀ event ∈ c.hand, WellFormed codec event →
      SkewFits now event.createdAt
  | _ => True

def Regular (c : Ingesting Envelope α) (a : IngestingAction Envelope α) : Prop :=
  c.Dated codec a ∧ match a with
    | .feed a => c.feed.KeepsUp S a
    | _ => True

instance (event : Event) : Decidable (WellFormed codec event) :=
  match h : parseMessageEvent codec event with
  | .ok msg => isTrue ⟨msg, h⟩
  | .error _ => isFalse fun ⟨_, hok⟩ => by simp [hok] at h

instance (c : Ingesting Envelope α) (a : IngestingAction Envelope α) :
    Decidable (c.Regular codec S a) :=
  match a with
  | .feed a => inferInstanceAs (Decidable (True ∧ c.feed.KeepsUp S a))
  | .store now => inferInstanceAs (Decidable ((InI64 now ∧ ∀ event ∈ c.hand,
      WellFormed codec event → SkewFits now event.createdAt) ∧ True))
  | .recv | .other _ => inferInstanceAs (Decidable (True ∧ True))

structure Accounts (tx : Broadcast α) (stored : List Event)
    (c : Ingesting Envelope α) : Prop where
  fed : ∃ dealt,
    c.feed.Follows S stored tx.subscribe (dealt ++ c.hand.toList) ∧
    ∀ event ∈ dealt, ∀ row ∈ ingestRow? codec event,
      Represented c.session.store row
  stopped : c.running = false → c.feed.Over ∧ c.hand = none

section Runs

variable {codec : Codec Envelope} {key : PublicKey} {S : Source α}
  {tx : Broadcast α} {stored : List Event} {c c' : Ingesting Envelope α}

theorem recv_cases (h : step codec key S c .recv = some c') :
    c.running = true ∧ c.hand = none ∧
    ((∃ event feed, c.feed.pop = some (event, feed) ∧
        c' = { c with feed := feed, hand := some event }) ∨
      c.feed.Over ∧ c' = { c with running := false }) := by
  simp only [step] at h
  split at h
  · next hready =>
      simp only [Bool.and_eq_true, Option.isNone_iff_eq_none] at hready
      refine ⟨hready.1, hready.2, ?_⟩
      split at h
      · next event feed hpop =>
          cases h
          exact Or.inl ⟨event, feed, hpop, rfl⟩
      · split at h
        · next hover =>
            cases h
            exact Or.inr ⟨hover, rfl⟩
        · contradiction
  · contradiction

theorem store_cases {now : Int} (h : step codec key S c (.store now) = some c') :
    ∃ event, c.hand = some event ∧
      ((ingestRound codec now c.session.store event).isSome = true ∧
          c' = { c with
            hand := none
            session := { c.session with
              store := ingest codec c.session.store event } } ∨
        ingestRound codec now c.session.store event = none ∧
          c' = { c with hand := none, running := false }) := by
  obtain ⟨event, hhand, heq⟩ := Option.map_eq_some_iff.mp h
  refine ⟨event, hhand, ?_⟩
  cases hround : ingestRound codec now c.session.store event with
  | some s =>
      rw [hround] at heq
      refine Or.inl ⟨rfl, ?_⟩
      rw [← heq, ingestRound_eq hround]
  | none =>
      rw [hround] at heq
      exact Or.inr ⟨rfl, heq.symm⟩

private theorem Accounts.feed {a : FeedAction α} {f : Feed α}
    (h : c.Accounts codec S tx stored)
    (hs : c.feed.step S c.running a = some f) :
    ({ c with feed := f } : Ingesting Envelope α).Accounts codec S tx
      stored := by
  obtain ⟨dealt, hfollows, hdealt⟩ := h.fed
  cases hrunning : c.running with
  | true =>
      rw [hrunning] at hs
      exact ⟨⟨dealt, hfollows.step hs, hdealt⟩, by simp⟩
  | false =>
      rw [hfollows.step_over (h.stopped hrunning).1 hs]
      exact ⟨⟨dealt, hfollows, hdealt⟩, fun _ => h.stopped hrunning⟩

private theorem Accounts.recv (h : c.Accounts codec S tx stored)
    (hs : step codec key S c .recv = some c') :
    c'.Accounts codec S tx stored := by
  obtain ⟨dealt, hfollows, hdealt⟩ := h.fed
  obtain ⟨hrunning, hhand, ⟨event, feed, hpop, rfl⟩ | ⟨hover, rfl⟩⟩ :=
    recv_cases hs
  · rw [hhand] at hfollows
    exact ⟨⟨dealt, by simpa using hfollows.pop hpop, hdealt⟩,
      by simp [hrunning]⟩
  · exact ⟨⟨dealt, hfollows, hdealt⟩, fun _ => ⟨hover, hhand⟩⟩

private theorem Accounts.store {now : Int} (h : c.Accounts codec S tx stored)
    (hdated : c.Dated codec (.store now))
    (hs : step codec key S c (.store now) = some c') :
    c'.Accounts codec S tx stored := by
  obtain ⟨dealt, hfollows, hdealt⟩ := h.fed
  obtain ⟨event, hhand, ⟨-, rfl⟩ | ⟨hround, -⟩⟩ := store_cases hs
  · rw [hhand] at hfollows
    refine ⟨⟨dealt ++ [event], by simpa using hfollows, fun other hother => ?_⟩,
      fun hstopped => ⟨(h.stopped hstopped).1, rfl⟩⟩
    rcases List.mem_append.mp hother with hold | hnew
    · exact fun row hrow =>
        (hdealt other hold row hrow).keeps (ingest_keeps event)
    · rw [List.mem_singleton.mp hnew]
      exact fun row hrow => represented_ingest hrow
  · have hsurvives :
        (ingestRound codec now c.session.store event).isSome = true :=
      (ingestRound_isSome hdated.1 _ event).mpr (hdated.2 event hhand)
    rw [hround] at hsurvives
    contradiction

theorem Accounts.step {a : IngestingAction Envelope α}
    (h : c.Accounts codec S tx stored) (hdated : c.Dated codec a)
    (hs : step codec key S c a = some c') : c'.Accounts codec S tx stored := by
  cases a with
  | feed a =>
      obtain ⟨f, hf, rfl⟩ := Option.map_eq_some_iff.mp hs
      exact h.feed hf
  | recv => exact h.recv hs
  | store now => exact h.store hdated hs
  | other a =>
      obtain ⟨session, hsession, rfl⟩ := Option.map_eq_some_iff.mp hs
      obtain ⟨dealt, hfollows, hdealt⟩ := h.fed
      exact ⟨⟨dealt, hfollows, fun event hevent row hrow =>
        (hdealt event hevent row hrow).keeps (session_keeps hsession)⟩, h.stopped⟩

theorem accounts (h : (system codec key S tx stored).Reach (Dated codec) c) :
    c.Accounts codec S tx stored := by
  refine h.invariant (I := Accounts codec S tx stored) ?_
    fun _ _ _ _ hi hdated hs => hi.step hdated hs
  rintro c₀ ⟨hfeed, hhand, hrunning⟩
  refine ⟨⟨[], ?_, by simp⟩, by simp [hrunning]⟩
  rw [hfeed, hhand]
  exact Feed.follows_subscribe tx stored

theorem caught (h : (system codec key S tx stored).Reach (Regular codec S) c) :
    c.feed.Caught S := by
  refine h.invariant (I := fun c => c.feed.Caught S) ?_ ?_
  · rintro c₀ ⟨hfeed, -, -⟩
    rw [hfeed]
    exact Feed.caught_subscribe tx stored
  · rintro c a c' - hi ⟨-, hup⟩ hs
    have hs : step codec key S c a = some c' := hs
    cases a with
    | feed a =>
        obtain ⟨f, hf, rfl⟩ := Option.map_eq_some_iff.mp hs
        exact hi.step hup hf
    | recv =>
        obtain ⟨-, -, ⟨event, feed, hpop, rfl⟩ | ⟨-, rfl⟩⟩ := recv_cases hs
        · obtain ⟨⟨popped, task⟩, -, heq⟩ := Option.map_eq_some_iff.mp hpop
          cases heq
          exact hi
        · exact hi
    | store now =>
        obtain ⟨event, -, ⟨-, rfl⟩ | ⟨-, rfl⟩⟩ := store_cases hs
        · exact hi
        · exact hi
    | other a =>
        obtain ⟨session, -, rfl⟩ := Option.map_eq_some_iff.mp hs
        exact hi

/--
Whatever else uses the store, the events replayed and sent since the
subscription have been dealt with one after the other, up to one in hand and
those still on their way; each that was dealt with and is well formed is
represented by a row.  The loop stops only after it has dealt with all of them.
-/
theorem ingesting_stores_all
    (h : (system codec key S tx stored).Reach (Regular codec S) c) :
    ∃ dealt,
      dealt ++ c.hand.toList ++ c.feed.pending ++
          (c.feed.tx.backlog c.feed.live).filterMap S.event? =
        stored ++ (c.feed.tx.sent.drop tx.subscribe).filterMap S.event? ∧
      (∀ event ∈ dealt, ∀ row, ingestRow? codec event = some row →
        Represented c.session.store row) ∧
      (c.running = false →
        dealt =
          stored ++ (c.feed.tx.sent.drop tx.subscribe).filterMap S.event?) := by
  have haccounts := accounts (h.mono fun _ _ hregular => hregular.1)
  obtain ⟨dealt, hfollows, hdealt⟩ := haccounts.fed
  have hall := hfollows.complete (caught h)
  refine ⟨dealt, hall, fun event hevent row hrow =>
    hdealt event hevent row hrow, fun hstopped => ?_⟩
  obtain ⟨hover, hhand⟩ := haccounts.stopped hstopped
  obtain ⟨-, hpending, hbacklog⟩ := hfollows.at_end hover
  rw [← hall, hhand, hpending, hbacklog]
  simp

end Runs

section Queue

open Publishing

/-- A replayed message is stored during a sweep; a later one is unread. -/
def ingestingRun : List (IngestingAction String Event) :=
  [.feed .next, .feed .forward, .recv,
    .feed (.send (sampleDraft.sign (hexOf '0') 0 (hexOf 'b'))),
    .other (.sweepExpired "jobs" 50), .store 50]

theorem ingesting_stores_all_unread :
    ∃ c : Ingesting String Event, c.hand = none ∧
      c.session.store.messages.rows.map Row.mid = ["m"] ∧ ∃ dealt,
        dealt ++ c.hand.toList ++ c.feed.pending ++
            (c.feed.tx.backlog c.feed.live).filterMap
              (MockTransport.source
                (messageFilter textCodec.hashtag "jobs")).event? =
          [datedMessage 40] ++ (c.feed.tx.sent.drop
            (Broadcast.new : Broadcast Event).subscribe).filterMap
              (MockTransport.source
                (messageFilter textCodec.hashtag "jobs")).event? ∧
        ∀ event ∈ dealt, ∀ row, ingestRow? textCodec event = some row →
          Represented c.session.store row := by
  obtain ⟨c, hreach, htest⟩ :=
    (System.Reach.init
      (S := system textCodec sampleId
        (MockTransport.source (messageFilter textCodec.hashtag "jobs")) .new
        [datedMessage 40])
      (P := Regular textCodec
        (MockTransport.source (messageFilter textCodec.hashtag "jobs")))
      (s := ⟨.subscribe .new [datedMessage 40], none, true, ⟨.empty, []⟩⟩)
      ⟨rfl, rfl, rfl⟩).of_run_check ingestingRun
      (fun c => decide (c.hand = none ∧
        c.session.store.messages.rows.map Row.mid = ["m"])) (by decide)
  obtain ⟨hhand, hrows⟩ := of_decide_eq_true htest
  obtain ⟨dealt, hall, hdealt, -⟩ := ingesting_stores_all hreach
  exact ⟨c, hhand, hrows, dealt, hall, hdealt⟩

end Queue

end Ingesting

end NostrQ.Cluster
