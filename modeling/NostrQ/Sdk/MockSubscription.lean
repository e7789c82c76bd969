import NostrQ.Foundation.Simulation
import NostrQ.Sdk.Subscription
import NostrQ.Transport.Mock

/-!
# A subscription over the in-memory transport

The in-memory transport, with a subscriber that takes everything at once, is what
a subscription comes down to when its task keeps up: the two bounded channels and
the tasks that wait for each other only delay what the subscriber gets.
-/

namespace NostrQ.Sdk.Subscription

open NostrQ.Foundation NostrQ.Core NostrQ.Transport

variable {Envelope : Type} (codec : Codec Envelope) (filter : Filter)

structure Subscribed (t : MockTransport) (stored : List Event) : Prop where
  forwarding : t.subscription = .forwarding stored t.tx.subscribe
  fresh : t.out = []

/-- The caller listens, its task keeps up, and the transport is there. -/
def Attended (s : Subscription Envelope Event) :
    SubscriptionAction Event → Prop
  | .feed .close | .drop => False
  | a => s.KeepsUp (MockTransport.source filter) a

/-- What the subscriber was given is parsed, or about to be. -/
structure Forwards (s : Subscription Envelope Event) (t : MockTransport) :
    Prop where
  listening : s.listening = true
  running : s.feed.closed = false
  forwarding : t.subscription = .forwarding s.feed.stored s.feed.live
  tx : t.tx = s.feed.tx
  out : t.out.filterMap (parse? codec) =
    s.received ++ s.parser.pending ++
      s.feed.task.pending.filterMap (parse? codec)

section Steps

variable {codec : Codec Envelope} {filter : Filter} {t₀ t : MockTransport}
  {stored : List Event} {s s' : Subscription Envelope Event}

private theorem keepsUp_of_attended {a : SubscriptionAction Event}
    (h : s.Attended filter a) : s.KeepsUp (MockTransport.source filter) a := by
  unfold Attended at h
  split at h
  · contradiction
  · contradiction
  · exact h

private theorem Forwards.parsing {tx : Broadcast Event} {S : Source Event}
    (h : Forwards codec s t) (haccounts : s.Accounts codec S tx stored) :
    s.parser.ended = false ∧ ¬ s.feed.Over := by
  have hnot : ¬ s.feed.Over := by
    intro hover
    obtain ⟨handed, hfollows, -⟩ := haccounts.fed h.listening
    have hclosed := (hfollows.ended hover.1).1
    rw [h.running] at hclosed
    contradiction
  refine ⟨Bool.eq_false_iff.mpr fun hended => ?_, hnot⟩
  exact hnot (haccounts.ended h.listening hended).1

private theorem Forwards.send (h : Forwards codec s t) (event : Event) :
    ∃ t', ((MockTransport.system filter).startingIn
        fun start => start = t).Reach System.Free t' ∧
      Forwards codec
        { s with feed := { s.feed with tx := s.feed.tx.send event } } t' := by
  have happend : ((MockTransport.system filter).startingIn
      fun start => start = t).step t (.append event) = some
      { t with
        events := t.events ++ [event]
        publishing := t.publishing ++ [event] } := rfl
  refine ⟨{ t with
      events := t.events ++ [event]
      publishing := (t.publishing ++ [event]).erase event
      tx := t.tx.send event },
    .step (a := .send event) (.step (.init rfl) trivial happend) trivial ?_, ?_⟩
  · simp [System.startingIn, MockTransport.system, MockTransport.step]
  · exact ⟨h.listening, h.running, h.forwarding, by simp [h.tx], h.out⟩

private theorem Forwards.next {f : Feed Event} (h : Forwards codec s t)
    (hcaught : s.feed.Caught (MockTransport.source filter))
    (hs : s.feed.next (MockTransport.source filter) = some f) :
    ∃ t', MockTransport.step filter t .forward = some t' ∧
      Forwards codec { s with feed := f } t' := by
  obtain ⟨hidle, ⟨event, rest, hstored, rfl⟩ | ⟨hstored, hcases⟩⟩ :=
    Feed.next_cases hs
  · have hforwarding := h.forwarding
    rw [hstored] at hforwarding
    refine ⟨{ t with
        subscription := .forwarding rest s.feed.live
        out := t.out ++ [event] },
      by rw [MockTransport.step, MockTransport.forward, hforwarding],
      h.listening, h.running, rfl, h.tx, ?_⟩
    simp only [Forwarder.pending_take hidle, List.filterMap_append, h.out,
      List.append_assoc]
    rfl
  · have hforwarding := h.forwarding
    rw [hstored] at hforwarding
    rcases hcases with ⟨a, live, hrecv, rfl⟩ | ⟨n, live, hrecv, rfl⟩ |
      ⟨-, hclosed, rfl⟩
    · obtain ⟨b, hb, hnow⟩ := hcaught.2.value hrecv
      cases hb
      refine ⟨{ t with
          subscription := .forwarding [] live
          out := if filter.matchEvent a then t.out ++ [a] else t.out }, ?_,
        h.listening, h.running, by rw [← hstored], h.tx, ?_⟩
      · rw [MockTransport.step, MockTransport.forward, hforwarding]
        simp [h.tx, hnow]
      · simp only [Forwarder.pending_take hidle, List.filterMap_append]
        rw [← List.append_assoc, ← h.out]
        by_cases hmatch : filter.matchEvent a = true <;>
          simp [MockTransport.source, hmatch]
    · obtain ⟨b, hb, -⟩ := hcaught.2.value hrecv
      contradiction
    · rw [h.running] at hclosed
      contradiction

private theorem Forwards.parse {tx : Broadcast Event} {S : Source Event}
    (h : Forwards codec s t) (haccounts : s.Accounts codec S tx stored)
    (hs : step codec S s .parse = some s') : Forwards codec s' t := by
  obtain ⟨hidle, ⟨event, feed, hpop, rfl⟩ | ⟨hover, -⟩⟩ := parse_cases hs
  · obtain ⟨⟨popped, task⟩, htask, heq⟩ := Option.map_eq_some_iff.mp hpop
    cases heq
    obtain ⟨hpending, -, -⟩ := Forwarder.pop_eq_some htask
    refine ⟨h.listening, h.running, h.forwarding, h.tx, ?_⟩
    rw [h.out, hpending, Forwarder.pending_take hidle]
    cases hparsed : parse? codec event <;> simp [hparsed]
  · exact absurd hover (h.parsing haccounts).2

private theorem Forwards.receive {S : Source Event} {tx : Broadcast Event}
    (h : Forwards codec s t) (haccounts : s.Accounts codec S tx stored)
    (hs : step codec S s .receive = some s') : Forwards codec s' t := by
  obtain ⟨-, -, ⟨msg, parser, hpop, rfl⟩ | ⟨-, hended, -⟩⟩ := receive_cases hs
  · obtain ⟨hpending, -, -⟩ := Forwarder.pop_eq_some hpop
    refine ⟨h.listening, h.running, h.forwarding, h.tx, ?_⟩
    rw [h.out, hpending]
    simp
  · rw [(h.parsing haccounts).1] at hended
    contradiction

/--
While the caller listens and the task keeps up, a subscription is simulated by
the in-memory transport with a subscriber that takes everything at once: all
that the caller has received or will receive, in its order, is what the messages
handed to that subscriber parse to.
-/
theorem mock_subscription_simulates (ht : Subscribed t₀ stored) :
    (system codec (MockTransport.source filter) t₀.tx stored).Simulates
      ((MockTransport.system filter).startingIn fun start => start = t₀)
      (Attended filter) System.Free (Forwards codec) where
  init := by
    rintro _ rfl
    refine ⟨t₀, rfl, rfl, rfl, ht.forwarding, rfl, ?_⟩
    simp [ht.fresh, opened, Feed.subscribe]
  step := by
    intro s a s' t hs _ h hattended hstep
    have haccounts := accounts hs
    have hcaught := caught (hs.mono fun _ _ => keepsUp_of_attended)
    cases a with
    | feed a =>
        obtain ⟨f, hf, rfl⟩ := Option.map_eq_some_iff.mp hstep
        rw [(h.parsing haccounts).1] at hf
        cases a with
        | send event =>
            rw [Feed.step, if_neg (by simp [h.running]),
              Option.some.injEq] at hf
            subst hf
            exact h.send event
        | close => exact absurd hattended id
        | next =>
            obtain ⟨t', ht', h'⟩ := h.next hcaught hf
            exact ⟨t', .step (a := .forward) (.init rfl) trivial ht', h'⟩
        | forward =>
            obtain ⟨task, htask, rfl⟩ := Option.map_eq_some_iff.mp hf
            obtain ⟨hpending, -, -, -⟩ := Forwarder.send_receiving htask
            exact ⟨t, .init rfl, h.listening, h.running, h.forwarding, h.tx, by
              rw [h.out, hpending]⟩
    | parse => exact ⟨t, .init rfl, h.parse haccounts hstep⟩
    | deliver =>
        obtain ⟨parser, hparser, rfl⟩ := Option.map_eq_some_iff.mp hstep
        rw [h.listening] at hparser
        obtain ⟨hpending, -, -, -⟩ := Forwarder.send_receiving hparser
        exact ⟨t, .init rfl, h.listening, h.running, h.forwarding, h.tx, by
          rw [h.out, hpending]⟩
    | receive => exact ⟨t, .init rfl, h.receive haccounts hstep⟩
    | drop => exact absurd hattended id

end Steps

section Replay

open Publishing

def replaying : MockTransport where
  events := [topicMessage "m" (hexOf 'a')]
  tx := ⟨[topicMessage "m" (hexOf 'a')]⟩
  publishing := []
  subscription := .forwarding [topicMessage "m" (hexOf 'a')] 1
  out := []

theorem mock_subscription_simulates_replay :
    (MockTransport.system topicFilter).Reach System.Free replaying ∧
    (system textCodec (MockTransport.source topicFilter) replaying.tx
        [topicMessage "m" (hexOf 'a')]).Simulates
      ((MockTransport.system topicFilter).startingIn
        fun start => start = replaying)
      (Attended topicFilter) System.Free (Forwards textCodec) := by
  have hrun : (MockTransport.system topicFilter).run System.Free .new
      [.append (topicMessage "m" (hexOf 'a')),
        .send (topicMessage "m" (hexOf 'a')), .snapshot, .createReceiver] =
      some replaying := by decide
  refine ⟨?_, mock_subscription_simulates ⟨rfl, rfl⟩⟩
  exact (System.Reach.init (S := MockTransport.system topicFilter)
    (P := System.Free) rfl).of_run hrun

end Replay

end NostrQ.Sdk.Subscription
