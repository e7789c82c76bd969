import NostrQ.Foundation.Forwarder
import NostrQ.Foundation.Lagging
import NostrQ.Transport.NostrTransport

/-!
# The task behind a subscription

Both transports give the subscriber the end of a channel of 256 events and spawn
a task that fills it: from the events stored so far, if the transport replays
them, and then from a broadcast channel, of which it sends on the events that
match.  The task waits while its channel is full, and the broadcast channel
overwrites what it has not read in time.
-/

namespace NostrQ.Transport

open NostrQ.Foundation NostrQ.Core

/-- The broadcast channel a task reads, and what it sends on of it. -/
structure Source (α : Type) where
  capacity : Nat
  event? : α → Option Event

def MockTransport.source (filter : Filter) : Source Event where
  capacity := 1024
  event? event := if filter.matchEvent event then some event else none

def NostrTransport.source (capacity : Nat) (filter : Filter) :
    Source RelayPoolNotification where
  capacity := capacity
  event?
    | .event event => if filter.matchEvent event then some event else none
    | _ => none

/--
`closed` says that nobody can send any more; `results` is what the receiver of
the broadcast channel has been handed.
-/
structure Feed (α : Type) where
  tx : Broadcast α
  closed : Bool
  stored : List Event
  live : Nat
  results : List (Received α)
  task : Forwarder Event 256

inductive FeedAction (α : Type) where
  | send (a : α)
  | close
  | next
  | forward
  deriving DecidableEq

namespace Feed

variable {α : Type} (S : Source α)

def subscribe (tx : Broadcast α) (stored : List Event) : Feed α where
  tx := tx
  closed := false
  stored := stored
  live := tx.subscribe
  results := []
  task := .new Event 256

/-- The next event to send on; the task ends when no more can come. -/
def next (f : Feed α) : Option (Feed α) :=
  if f.task.Idle then
    match f.stored with
    | event :: stored =>
        some { f with stored := stored, task := f.task.take (some event) }
    | [] =>
        match f.tx.recvWithin S.capacity f.live with
        | some (.value a, live) =>
            some { f with
              live := live
              results := f.results ++ [.value a]
              task := f.task.take (S.event? a) }
        | some (.lagged n, live) =>
            some { f with live := live, results := f.results ++ [.lagged n] }
        | none => if f.closed then some { f with task := f.task.finish } else none
  else none

def step (receiving : Bool) (f : Feed α) : FeedAction α → Option (Feed α)
  | .send a => if f.closed then none else some { f with tx := f.tx.send a }
  | .close => some { f with closed := true }
  | .next => f.next S
  | .forward => (f.task.send receiving).map fun task => { f with task := task }

def pop (f : Feed α) : Option (Event × Feed α) :=
  f.task.pop.map fun (event, task) => (event, { f with task := task })

def Over (f : Feed α) : Prop := f.task.ended = true ∧ f.task.out.content = []

instance (f : Feed α) : Decidable f.Over := inferInstanceAs (Decidable (_ ∧ _))

/-- Read and not yet received by the subscriber, or about to be replayed. -/
def pending (f : Feed α) : List Event := f.task.pending ++ f.stored

def KeepsUp (f : Feed α) : FeedAction α → Prop
  | .send a => (f.tx.send a).InTime S.capacity f.live
  | _ => True

instance (f : Feed α) (a : FeedAction α) : Decidable (f.KeepsUp S a) :=
  match a with
  | .send _ => inferInstanceAs (Decidable (_ ≤ _))
  | .close | .next | .forward => inferInstanceAs (Decidable True)

def forwarded (results : List (Received α)) : List Event :=
  (Received.values results).filterMap S.event?

/-! ## What has become of each event -/

/--
The subscriber has received the events `handed`.  They are, with those on their
way, the replayed ones and those of what was sent since and not missed.
-/
structure Follows (stored : List Event) (start : Nat) (handed : List Event)
    (f : Feed α) : Prop where
  sent : ∃ seen, f.tx.sent.drop start = seen ++ f.tx.backlog f.live ∧
    Received.Covers f.results seen
  valid : start ≤ f.live ∧ f.tx.Valid f.live
  handed : handed ++ f.pending = stored ++ forwarded S f.results
  replayed : f.stored ≠ [] → f.results = []
  ended : f.task.ended = true → f.closed = true ∧ f.stored = [] ∧
    f.task.hand = none ∧ f.tx.backlog f.live = []

section Steps

variable {S} {f f' : Feed α} {stored handed : List Event} {start : Nat}

theorem follows_subscribe (tx : Broadcast α) (stored : List Event) :
    (subscribe tx stored).Follows S stored tx.subscribe [] where
  sent := ⟨[], by simp [subscribe, Broadcast.backlog], .nil⟩
  valid := ⟨le_rfl, Broadcast.valid_subscribe⟩
  handed := by simp [pending, subscribe, forwarded]
  replayed := fun _ => rfl
  ended := by simp [subscribe, Forwarder.new]

theorem next_cases (h : f.next S = some f') :
    f.task.Idle ∧
    ((∃ event rest, f.stored = event :: rest ∧
        f' = { f with stored := rest, task := f.task.take (some event) }) ∨
      f.stored = [] ∧
      ((∃ a live, f.tx.recvWithin S.capacity f.live = some (.value a, live) ∧
          f' = { f with
            live := live
            results := f.results ++ [.value a]
            task := f.task.take (S.event? a) }) ∨
        (∃ n live, f.tx.recvWithin S.capacity f.live = some (.lagged n, live) ∧
          f' = { f with
            live := live
            results := f.results ++ [.lagged n] }) ∨
        f.tx.backlog f.live = [] ∧ f.closed = true ∧
          f' = { f with task := f.task.finish })) := by
  unfold next at h
  split at h
  · next hidle =>
      refine ⟨hidle, ?_⟩
      split at h
      · next event rest hstored =>
          cases h
          exact Or.inl ⟨event, rest, hstored, rfl⟩
      · next hstored =>
          refine Or.inr ⟨hstored, ?_⟩
          split at h
          · next a live hrecv =>
              cases h
              exact Or.inl ⟨a, live, hrecv, rfl⟩
          · next n live hrecv =>
              cases h
              exact Or.inr (Or.inl ⟨n, live, hrecv, rfl⟩)
          · next hrecv =>
              split at h
              · next hclosed =>
                  cases h
                  exact Or.inr (Or.inr
                    ⟨Broadcast.recvWithin_eq_none.mp hrecv, hclosed, rfl⟩)
              · contradiction
  · contradiction

theorem Follows.send (h : f.Follows S stored start handed) (a : α)
    (hopen : f.closed = false) :
    ({ f with tx := f.tx.send a } : Feed α).Follows S stored start handed where
  sent := by
    obtain ⟨seen, hseen, hcovers⟩ := h.sent
    refine ⟨seen, ?_, hcovers⟩
    have hstart : start ≤ f.tx.sent.length := le_trans h.valid.1 h.valid.2
    simp only [h.valid.2.backlog_send, Broadcast.sent_send]
    rw [List.drop_append_of_le_length hstart, hseen, List.append_assoc]
  valid := ⟨h.valid.1, h.valid.2.send a⟩
  handed := h.handed
  replayed := h.replayed
  ended hended := by
    have hclosed := (h.ended hended).1
    rw [hopen] at hclosed
    contradiction

theorem Follows.close (h : f.Follows S stored start handed) :
    ({ f with closed := true } : Feed α).Follows S stored start handed where
  sent := h.sent
  valid := h.valid
  handed := h.handed
  replayed := h.replayed
  ended hended := ⟨rfl, (h.ended hended).2⟩

private theorem Follows.received (h : f.Follows S stored start handed)
    {r : Received α} {live : Nat} {skipped : List α} {task : Forwarder Event 256}
    (hidle : f.task.Idle) (hstored : f.stored = [])
    (hcovers : ∀ {results seen}, Received.Covers results seen →
      Received.Covers (results ++ [r]) (seen ++ skipped))
    (hbacklog : f.tx.backlog f.live = skipped ++ f.tx.backlog live)
    (hle : f.live ≤ live) (hvalid : f.tx.Valid live)
    (hpending : task.pending = f.task.pending ++ forwarded S [r])
    (hended : task.ended = f.task.ended) :
    ({ f with
      live := live
      results := f.results ++ [r]
      task := task } : Feed α).Follows S stored start handed where
  sent := by
    obtain ⟨seen, hseen, hseens⟩ := h.sent
    refine ⟨seen ++ skipped, ?_, hcovers hseens⟩
    rw [hseen, hbacklog, List.append_assoc]
  valid := ⟨le_trans h.valid.1 hle, hvalid⟩
  handed := by
    have hhanded := h.handed
    simp only [pending, hstored, List.append_nil] at hhanded ⊢
    rw [hpending, ← List.append_assoc, hhanded, List.append_assoc]
    simp [forwarded, Received.values]
  replayed := fun hne => absurd hstored hne
  ended := by
    intro hend
    rw [hended, hidle.2] at hend
    contradiction

theorem Follows.next (h : f.Follows S stored start handed)
    (hs : f.next S = some f') : f'.Follows S stored start handed := by
  obtain ⟨hidle, ⟨event, rest, hstored, rfl⟩ | ⟨hstored, hcases⟩⟩ :=
    next_cases hs
  · refine ⟨h.sent, h.valid, ?_, fun _ => h.replayed (by simp [hstored]), ?_⟩
    · have hhanded := h.handed
      simp only [pending, hstored, Forwarder.pending_take hidle] at hhanded ⊢
      simpa using hhanded
    · intro hend
      exact absurd hend (by simp [Forwarder.take, hidle.2])
  · rcases hcases with ⟨a, live, hrecv, rfl⟩ | ⟨n, live, hrecv, rfl⟩ |
      ⟨hbacklog, hclosed, rfl⟩
    · rcases Broadcast.recvWithin_cases hrecv with
        ⟨b, hb, rfl, -, hbacklog⟩ | ⟨skipped, hlag, -⟩
      · cases hb
        have hvalid : f.tx.Valid (f.live + 1) := by
          have hlength := congrArg List.length hbacklog
          simp only [Broadcast.backlog, List.length_drop,
            List.length_cons] at hlength
          simp only [Broadcast.Valid]
          omega
        refine h.received hidle hstored (fun hseen => .value a hseen) hbacklog
          (Nat.le_succ _) hvalid ?_ rfl
        rw [Forwarder.pending_take hidle]
        cases hevent : S.event? a <;>
          simp [forwarded, Received.values, Received.value?, hevent]
      · contradiction
    · rcases Broadcast.recvWithin_cases hrecv with
        ⟨b, hb, -⟩ | ⟨skipped, hlag, -, -, rfl, hlast, hbacklog⟩
      · contradiction
      · cases hlag
        have hvalid : f.tx.Valid (f.live + skipped.length) := by
          simp only [Broadcast.Valid]
          omega
        refine h.received hidle hstored (fun hseen => .lagged skipped hseen)
          hbacklog (Nat.le_add_right _ _) hvalid ?_ rfl
        simp [forwarded, Received.values, Received.value?]
    · refine ⟨h.sent, h.valid, ?_, h.replayed, ?_⟩
      · simpa [pending, Forwarder.pending, Forwarder.finish, hidle.1]
          using h.handed
      · exact fun _ => ⟨hclosed, hstored, rfl, hbacklog⟩

theorem Follows.forward {task : Forwarder Event 256}
    (h : f.Follows S stored start handed) (hs : f.task.send true = some task) :
    ({ f with task := task } : Feed α).Follows S stored start handed := by
  obtain ⟨hpending, -, hended, hhand⟩ := Forwarder.send_receiving hs
  refine ⟨h.sent, h.valid, ?_, h.replayed, ?_⟩
  · simpa [pending, hpending] using h.handed
  · intro hend
    rw [hended] at hend
    have hnone := (h.ended hend).2.2.1
    rw [hnone] at hhand
    contradiction

/-- While the subscriber receives, every step of the feed keeps the account. -/
theorem Follows.step {a : FeedAction α} (h : f.Follows S stored start handed)
    (hs : f.step S true a = some f') : f'.Follows S stored start handed := by
  cases a with
  | send a =>
      simp only [Feed.step] at hs
      split at hs
      · contradiction
      · next hopen =>
          cases hs
          exact h.send a (by simpa using hopen)
  | close =>
      cases hs
      exact h.close
  | next => exact h.next hs
  | forward =>
      obtain ⟨task, htask, rfl⟩ := Option.map_eq_some_iff.mp hs
      exact h.forward htask

theorem Follows.pop {event : Event} (h : f.Follows S stored start handed)
    (hs : f.pop = some (event, f')) :
    f'.Follows S stored start (handed ++ [event]) := by
  obtain ⟨⟨popped, task⟩, htask, heq⟩ := Option.map_eq_some_iff.mp hs
  cases heq
  obtain ⟨hpending, hhand, hended⟩ := Forwarder.pop_eq_some htask
  refine ⟨h.sent, h.valid, ?_, h.replayed, ?_⟩
  · have hhanded := h.handed
    simp only [Feed.pending, hpending] at hhanded ⊢
    simpa using hhanded
  · intro hend
    simp only [hended, hhand] at hend ⊢
    exact h.ended hend

theorem Follows.at_end (h : f.Follows S stored start handed) (hover : f.Over) :
    f.closed = true ∧ f.pending = [] ∧ f.tx.backlog f.live = [] := by
  obtain ⟨hclosed, hstored, hhand, hbacklog⟩ := h.ended hover.1
  exact ⟨hclosed, by simp [pending, Forwarder.pending, hover.2, hhand, hstored],
    hbacklog⟩

theorem Follows.step_over {receiving : Bool} {a : FeedAction α}
    (h : f.Follows S stored start handed) (hover : f.Over)
    (hs : f.step S receiving a = some f') : f' = f := by
  obtain ⟨hclosed, -, hhand, -⟩ := h.ended hover.1
  cases a with
  | send a => simp [Feed.step, hclosed] at hs
  | close =>
      cases hs
      rw [← hclosed]
  | next =>
      obtain ⟨hidle, -⟩ := next_cases hs
      exact absurd hover.1 (by simp [hidle.2])
  | forward => simp [Feed.step, Forwarder.send, hhand] at hs

/-! ## Nothing is missed by a task that keeps up -/

def Caught (S : Source α) (f : Feed α) : Prop :=
  Received.totalMissed f.results = 0 ∧ f.tx.InTime S.capacity f.live

theorem caught_subscribe (tx : Broadcast α) (stored : List Event) :
    (subscribe tx stored).Caught S :=
  ⟨rfl, Nat.le_add_right _ _⟩

theorem Caught.step {receiving : Bool} {a : FeedAction α}
    (h : f.Caught S) (hup : f.KeepsUp S a)
    (hs : f.step S receiving a = some f') : f'.Caught S := by
  cases a with
  | send a =>
      simp only [Feed.step] at hs
      split at hs
      · contradiction
      · cases hs
        exact ⟨h.1, hup⟩
  | close =>
      cases hs
      exact h
  | next =>
      obtain ⟨hidle, ⟨event, rest, hstored, rfl⟩ | ⟨hstored, hcases⟩⟩ :=
        next_cases hs
      · exact h
      · rcases hcases with ⟨a, live, hrecv, rfl⟩ | ⟨n, live, hrecv, rfl⟩ |
          ⟨hbacklog, hclosed, rfl⟩
        · rcases Broadcast.recvWithin_cases hrecv with
            ⟨b, hb, rfl, hin, -⟩ | ⟨skipped, hlag, -⟩
          · cases hb
            refine ⟨by simp [h.1, Received.missed], ?_⟩
            simp only [Broadcast.InTime] at hin ⊢
            omega
          · contradiction
        · obtain ⟨a, ha, -⟩ := h.2.value hrecv
          contradiction
        · exact h
  | forward =>
      obtain ⟨task, -, rfl⟩ := Option.map_eq_some_iff.mp hs
      exact h

theorem Follows.complete (h : f.Follows S stored start handed)
    (hcaught : f.Caught S) :
    handed ++ f.pending ++ (f.tx.backlog f.live).filterMap S.event? =
      stored ++ (f.tx.sent.drop start).filterMap S.event? := by
  obtain ⟨seen, hseen, hcovers⟩ := h.sent
  rw [h.handed, hseen, forwarded, hcovers.values_eq hcaught.1,
    List.filterMap_append, List.append_assoc]

end Steps

end Feed

end NostrQ.Transport
