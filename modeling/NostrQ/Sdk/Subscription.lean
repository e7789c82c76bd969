import NostrQ.Foundation.Amortised
import NostrQ.Sdk.Ingest
import NostrQ.Transport.Feed

/-!
# A subscription to a topic

The transport's task fills one channel, a task of the SDK parses what it finds
there and fills a second one of 64 messages, and the caller receives from that.
Malformed events are skipped.  A task waits while the channel behind it is full,
and ends once nobody receives from it, or once the channel before it is over.
-/

namespace NostrQ.Sdk

open NostrQ.Foundation NostrQ.Core NostrQ.Transport

/-- `told` says that the caller has been told that no more will come. -/
structure Subscription (Envelope α : Type) where
  feed : Feed α
  parser : Forwarder (NqMessage Envelope) 64
  listening : Bool
  told : Bool
  received : List (NqMessage Envelope)

inductive SubscriptionAction (α : Type) where
  | feed (a : FeedAction α)
  | parse
  | deliver
  | receive
  | drop
  deriving DecidableEq

namespace Subscription

variable {Envelope α : Type} (codec : Codec Envelope) (S : Source α)

def parse? (event : Event) : Option (NqMessage Envelope) :=
  (parseMessageEvent codec event).toOption

def opened (tx : Broadcast α) (stored : List Event) :
    Subscription Envelope α where
  feed := .subscribe tx stored
  parser := .new _ 64
  listening := true
  told := false
  received := []

def step (s : Subscription Envelope α) :
    SubscriptionAction α → Option (Subscription Envelope α)
  | .feed a =>
      (s.feed.step S (!s.parser.ended) a).map fun feed => { s with feed := feed }
  | .parse =>
      if s.parser.Idle then
        match s.feed.pop with
        | some (event, feed) =>
            some { s with
              feed := feed
              parser := s.parser.take (parse? codec event) }
        | none =>
            if s.feed.Over then some { s with parser := s.parser.finish }
            else none
      else none
  | .deliver =>
      (s.parser.send s.listening).map fun parser => { s with parser := parser }
  | .receive =>
      if s.listening && !s.told then
        match s.parser.pop with
        | some (msg, parser) =>
            some { s with parser := parser, received := s.received ++ [msg] }
        | none => if s.parser.ended then some { s with told := true } else none
      else none
  | .drop => if s.listening then some { s with listening := false } else none

def system (tx : Broadcast α) (stored : List Event) :
    System (Subscription Envelope α) (SubscriptionAction α) where
  init s := s = opened tx stored
  step := step codec S

def messages (tx : Broadcast α) (stored : List Event) (now : Broadcast α) :
    List (NqMessage Envelope) :=
  (stored ++ (now.sent.drop tx.subscribe).filterMap S.event?).filterMap
    (parse? codec)

def underway (s : Subscription Envelope α) : List (NqMessage Envelope) :=
  s.parser.pending ++ s.feed.pending.filterMap (parse? codec)

def unread (s : Subscription Envelope α) : List (NqMessage Envelope) :=
  ((s.feed.tx.backlog s.feed.live).filterMap S.event?).filterMap (parse? codec)

def Drained (s : Subscription Envelope α) : Prop :=
  s.parser.pending = [] ∧ s.feed.pending = [] ∧
    s.feed.tx.backlog s.feed.live = []

/-- The transport's task keeps up with the channel it reads. -/
def KeepsUp (s : Subscription Envelope α) : SubscriptionAction α → Prop
  | .feed a => s.feed.KeepsUp S a
  | _ => True

instance (s : Subscription Envelope α) (a : SubscriptionAction α) :
    Decidable (s.KeepsUp S a) :=
  match a with
  | .feed a => inferInstanceAs (Decidable (s.feed.KeepsUp S a))
  | .parse | .deliver | .receive | .drop => inferInstanceAs (Decidable True)

/-- A step of the tasks, or of a caller that goes on receiving. -/
def Own (_ : Subscription Envelope α) : SubscriptionAction α → Prop
  | .feed .next | .feed .forward | .parse | .deliver | .receive => True
  | _ => False

/-- What the caller has been sent, and what is still on its way to it. -/
structure Accounts (tx : Broadcast α) (stored : List Event)
    (s : Subscription Envelope α) : Prop where
  grown : tx.subscribe ≤ s.feed.tx.sent.length
  sublist : s.received.Sublist (messages codec S tx stored s.feed.tx)
  fed : s.listening = true → ∃ handed,
    s.feed.Follows S stored tx.subscribe handed ∧
    s.received ++ s.parser.pending = handed.filterMap (parse? codec)
  ended : s.listening = true → s.parser.ended = true →
    s.feed.Over ∧ s.parser.hand = none
  told : s.told = true → s.listening = true →
    s.parser.ended = true ∧ s.parser.out.content = []

section Runs

variable {codec : Codec Envelope} {S : Source α} {tx : Broadcast α}
  {stored : List Event} {s s' : Subscription Envelope α}

theorem accounts_opened :
    Accounts codec S tx stored (opened tx stored : Subscription Envelope α) where
  grown := le_rfl
  sublist := List.nil_sublist _
  fed _ := ⟨[], Feed.follows_subscribe tx stored, rfl⟩
  ended _ h := by simp [opened, Forwarder.new] at h
  told h := by simp [opened] at h

theorem step_sent {f f' : Feed α} {receiving : Bool} {a : FeedAction α}
    (h : f.step S receiving a = some f') :
    ∃ later, f'.tx.sent = f.tx.sent ++ later := by
  cases a with
  | send a =>
      simp only [Feed.step] at h
      split at h
      · contradiction
      · cases h
        exact ⟨[a], rfl⟩
  | close =>
      cases h
      exact ⟨[], (List.append_nil _).symm⟩
  | next =>
      obtain ⟨-, ⟨event, rest, -, rfl⟩ | ⟨-, ⟨a, live, -, rfl⟩ |
        ⟨n, live, -, rfl⟩ | ⟨-, -, rfl⟩⟩⟩ := Feed.next_cases h
      all_goals exact ⟨[], (List.append_nil _).symm⟩
  | forward =>
      obtain ⟨task, -, rfl⟩ := Option.map_eq_some_iff.mp h
      exact ⟨[], (List.append_nil _).symm⟩

theorem messages_grow {now later : Broadcast α} {more : List α}
    (hgrown : tx.subscribe ≤ now.sent.length)
    (h : later.sent = now.sent ++ more) :
    (messages codec S tx stored now).Sublist
      (messages codec S tx stored later) := by
  unfold messages
  apply List.Sublist.filterMap
  apply List.Sublist.append_left
  apply List.Sublist.filterMap
  rw [h, List.drop_append_of_le_length hgrown]
  exact List.sublist_append_left _ _

private theorem sublist_of_fed {handed : List Event}
    {got pending : List (NqMessage Envelope)} {f : Feed α}
    (h : f.Follows S stored tx.subscribe handed)
    (hgot : got ++ pending = handed.filterMap (parse? codec)) :
    got.Sublist (messages codec S tx stored f.tx) := by
  obtain ⟨seen, hseen, hcovers⟩ := h.sent
  have hforwarded : (Feed.forwarded S f.results).Sublist
      ((f.tx.sent.drop tx.subscribe).filterMap S.event?) := by
    apply List.Sublist.filterMap
    rw [hseen]
    exact hcovers.values_sublist.trans (List.sublist_append_left _ _)
  have hhanded : handed.Sublist (stored ++ Feed.forwarded S f.results) := by
    rw [← h.handed]
    exact List.sublist_append_left _ _
  have hall : handed.Sublist
      (stored ++ (f.tx.sent.drop tx.subscribe).filterMap S.event?) :=
    hhanded.trans (hforwarded.append_left stored)
  have hparsed : (got ++ pending).Sublist (messages codec S tx stored f.tx) := by
    rw [hgot]
    exact hall.filterMap _
  exact (List.sublist_append_left got pending).trans hparsed

private theorem Accounts.feed {a : FeedAction α} {f : Feed α}
    (h : s.Accounts codec S tx stored)
    (hs : s.feed.step S (!s.parser.ended) a = some f) :
    ({ s with feed := f } : Subscription Envelope α).Accounts codec S tx
      stored := by
  obtain ⟨more, hmore⟩ := step_sent hs
  -- once the parser has ended, the feed is over and does not change
  have hsame : s.listening = true → s.parser.ended = true → f = s.feed := by
    intro hlistening hended
    obtain ⟨handed, hfollows, -⟩ := h.fed hlistening
    exact hfollows.step_over (h.ended hlistening hended).1 hs
  refine ⟨?_, h.sublist.trans (messages_grow h.grown hmore), ?_, ?_, h.told⟩
  · rw [hmore, List.length_append]
    exact le_trans h.grown (Nat.le_add_right _ _)
  · intro hlistening
    obtain ⟨handed, hfollows, hgot⟩ := h.fed hlistening
    cases hended : s.parser.ended with
    | false =>
        rw [hended] at hs
        exact ⟨handed, hfollows.step hs, hgot⟩
    | true =>
        rw [hsame hlistening hended]
        exact ⟨handed, hfollows, hgot⟩
  · intro hlistening hended
    rw [hsame hlistening hended]
    exact h.ended hlistening hended

theorem parse_cases (h : step codec S s .parse = some s') :
    s.parser.Idle ∧
    ((∃ event feed, s.feed.pop = some (event, feed) ∧
        s' = { s with
          feed := feed
          parser := s.parser.take (parse? codec event) }) ∨
      s.feed.Over ∧ s' = { s with parser := s.parser.finish }) := by
  simp only [step] at h
  split at h
  · next hidle =>
      refine ⟨hidle, ?_⟩
      split at h
      · next event feed hpop =>
          cases h
          exact Or.inl ⟨event, feed, hpop, rfl⟩
      · split at h
        · next hover =>
            cases h
            exact Or.inr ⟨hover, rfl⟩
        · contradiction
  · contradiction

theorem receive_cases (h : step codec S s .receive = some s') :
    s.listening = true ∧ s.told = false ∧
    ((∃ msg parser, s.parser.pop = some (msg, parser) ∧
        s' = { s with parser := parser, received := s.received ++ [msg] }) ∨
      s.parser.out.content = [] ∧ s.parser.ended = true ∧
        s' = { s with told := true }) := by
  simp only [step] at h
  split at h
  · next hgoes =>
      simp only [Bool.and_eq_true, Bool.not_eq_true'] at hgoes
      refine ⟨hgoes.1, hgoes.2, ?_⟩
      split at h
      · next msg parser hpop =>
          cases h
          exact Or.inl ⟨msg, parser, hpop, rfl⟩
      · next hpop =>
          split at h
          · next hended =>
              cases h
              exact Or.inr ⟨Forwarder.pop_eq_none.mp hpop, hended, rfl⟩
          · contradiction
  · contradiction

private theorem Accounts.parse (h : s.Accounts codec S tx stored)
    (hs : step codec S s .parse = some s') : s'.Accounts codec S tx stored := by
  obtain ⟨hidle, ⟨event, feed, hpop, rfl⟩ | ⟨hover, rfl⟩⟩ := parse_cases hs
  · have htx : feed.tx = s.feed.tx := by
      obtain ⟨⟨popped, task⟩, -, heq⟩ := Option.map_eq_some_iff.mp hpop
      cases heq
      rfl
    refine ⟨htx ▸ h.grown, htx ▸ h.sublist, fun hlistening => ?_,
      fun _ hended => ?_, fun hover hlistening => ?_⟩
    · obtain ⟨handed, hfollows, hgot⟩ := h.fed hlistening
      refine ⟨handed ++ [event], hfollows.pop hpop, ?_⟩
      simp only [Forwarder.pending_take hidle]
      rw [← List.append_assoc, hgot]
      cases hparsed : parse? codec event <;> simp [hparsed]
    · exact absurd hended (by simp [Forwarder.take, hidle.2])
    · exact absurd (h.told hover hlistening).1 (by simp [hidle.2])
  · refine ⟨h.grown, h.sublist, fun hlistening => ?_,
      fun _ _ => ⟨hover, rfl⟩, fun hsaid hlistening => ?_⟩
    · obtain ⟨handed, hfollows, hgot⟩ := h.fed hlistening
      refine ⟨handed, hfollows, ?_⟩
      simpa [Forwarder.pending, Forwarder.finish, hidle.1] using hgot
    · exact absurd (h.told hsaid hlistening).1 (by simp [hidle.2])

private theorem Accounts.deliver {parser : Forwarder (NqMessage Envelope) 64}
    (h : s.Accounts codec S tx stored)
    (hs : s.parser.send s.listening = some parser) :
    ({ s with parser := parser } : Subscription Envelope α).Accounts codec S tx
      stored := by
  cases hlistening : s.listening with
  | false => exact ⟨h.grown, h.sublist, by simp, by simp, by simp⟩
  | true =>
      rw [hlistening] at hs
      obtain ⟨hpending, hnone, hended, hhand⟩ := Forwarder.send_receiving hs
      have hrunning : s.parser.ended ≠ true := by
        intro hend
        rw [(h.ended hlistening hend).2] at hhand
        contradiction
      refine ⟨h.grown, h.sublist, fun _ => ?_, fun _ hend => ?_,
        fun hover _ => ?_⟩
      · obtain ⟨handed, hfollows, hgot⟩ := h.fed hlistening
        exact ⟨handed, hfollows, by simp only [hpending, hgot]⟩
      · exact absurd (hended ▸ hend) hrunning
      · exact absurd (h.told hover hlistening).1 hrunning

private theorem Accounts.receive (h : s.Accounts codec S tx stored)
    (hs : step codec S s .receive = some s') :
    s'.Accounts codec S tx stored := by
  obtain ⟨hlistening, hgoes, ⟨msg, parser, hpop, rfl⟩ |
    ⟨hempty, hended, rfl⟩⟩ := receive_cases hs
  · obtain ⟨hpending, hhand, hended⟩ := Forwarder.pop_eq_some hpop
    obtain ⟨handed, hfollows, hgot⟩ := h.fed hlistening
    have hgot' : (s.received ++ [msg]) ++ parser.pending =
        handed.filterMap (parse? codec) := by
      rw [← hgot, hpending]
      simp
    refine ⟨h.grown, sublist_of_fed hfollows hgot',
      fun _ => ⟨handed, hfollows, hgot'⟩, fun _ hend => ?_, fun hover => ?_⟩
    · rw [hhand]
      exact h.ended hlistening (hended ▸ hend)
    · exact absurd hover (by simp [hgoes])
  · exact ⟨h.grown, h.sublist, h.fed, h.ended, fun _ _ => ⟨hended, hempty⟩⟩

theorem Accounts.step {a : SubscriptionAction α}
    (h : s.Accounts codec S tx stored) (hs : step codec S s a = some s') :
    s'.Accounts codec S tx stored := by
  cases a with
  | feed a =>
      obtain ⟨f, hf, rfl⟩ := Option.map_eq_some_iff.mp hs
      exact h.feed hf
  | parse => exact h.parse hs
  | deliver =>
      obtain ⟨parser, hparser, rfl⟩ := Option.map_eq_some_iff.mp hs
      exact h.deliver hparser
  | receive => exact h.receive hs
  | drop =>
      simp only [Subscription.step] at hs
      split at hs
      · cases hs
        exact ⟨h.grown, h.sublist, by simp, by simp, by simp⟩
      · contradiction

theorem accounts {P : Subscription Envelope α → SubscriptionAction α → Prop}
    (h : (system codec S tx stored).Reach P s) :
    s.Accounts codec S tx stored := by
  refine h.invariant (I := Accounts codec S tx stored) ?_
    fun _ _ _ _ hi _ hs => hi.step hs
  rintro _ rfl
  exact accounts_opened

/--
The caller receives messages of what the transport replayed and was sent since,
in that order, each at most as often as it occurs.  While it listens nothing is
lost but what the transport's task was told it had missed, and of what it did
get, all that the caller has not received is on its way; nothing is on its way
when the caller is told of the end.
-/
theorem subscription_in_order (h : (system codec S tx stored).Reach System.Free s) :
    s.received.Sublist (messages codec S tx stored s.feed.tx) ∧
    (s.listening = true → ∃ seen,
      s.feed.tx.sent.drop tx.subscribe =
        seen ++ s.feed.tx.backlog s.feed.live ∧
      Received.Covers s.feed.results seen ∧
      s.received ++ s.underway codec =
        (stored ++ Feed.forwarded S s.feed.results).filterMap
          (parse? codec)) ∧
    (s.listening = true → s.told = true →
      s.feed.closed = true ∧ s.underway codec = [] ∧
        s.feed.tx.backlog s.feed.live = []) := by
  have haccounts := accounts h
  refine ⟨haccounts.sublist, fun hlistening => ?_, fun hlistening hover => ?_⟩
  · obtain ⟨handed, hfollows, hgot⟩ := haccounts.fed hlistening
    obtain ⟨seen, hseen, hcovers⟩ := hfollows.sent
    refine ⟨seen, hseen, hcovers, ?_⟩
    rw [underway, ← List.append_assoc, hgot, ← List.filterMap_append,
      hfollows.handed]
  · obtain ⟨handed, hfollows, -⟩ := haccounts.fed hlistening
    obtain ⟨hended, hempty⟩ := haccounts.told hover hlistening
    obtain ⟨hfeed, hhand⟩ := haccounts.ended hlistening hended
    obtain ⟨hclosed, hpending, hbacklog⟩ := hfollows.at_end hfeed
    refine ⟨hclosed, ?_, hbacklog⟩
    simp [underway, Forwarder.pending, hempty, hhand, hpending]

/-! ## A transport's task that keeps up -/

private theorem caught_step {a : SubscriptionAction α}
    (h : s.feed.Caught S) (hup : s.KeepsUp S a)
    (hs : step codec S s a = some s') : s'.feed.Caught S := by
  cases a with
  | feed a =>
      obtain ⟨f, hf, rfl⟩ := Option.map_eq_some_iff.mp hs
      exact h.step hup hf
  | parse =>
      obtain ⟨-, ⟨event, feed, hpop, rfl⟩ | ⟨-, rfl⟩⟩ := parse_cases hs
      · obtain ⟨⟨popped, task⟩, -, heq⟩ := Option.map_eq_some_iff.mp hpop
        cases heq
        exact h
      · exact h
  | deliver =>
      obtain ⟨parser, -, rfl⟩ := Option.map_eq_some_iff.mp hs
      exact h
  | receive =>
      obtain ⟨-, -, ⟨msg, parser, -, rfl⟩ | ⟨-, -, rfl⟩⟩ := receive_cases hs
      · exact h
      · exact h
  | drop =>
      simp only [Subscription.step] at hs
      split at hs
      · cases hs
        exact h
      · contradiction

theorem caught (h : (system codec S tx stored).Reach (KeepsUp S) s) :
    s.feed.Caught S := by
  refine h.invariant (I := fun s => s.feed.Caught S) ?_
    fun _ _ _ _ hi hup hs => caught_step hi hup hs
  rintro _ rfl
  exact Feed.caught_subscribe tx stored

/-- Every message has been received, is on its way, or is still to be read. -/
theorem complete (h : (system codec S tx stored).Reach (KeepsUp S) s)
    (hlistening : s.listening = true) :
    s.received ++ s.underway codec ++ s.unread codec S =
      messages codec S tx stored s.feed.tx := by
  obtain ⟨handed, hfollows, hgot⟩ := (accounts h).fed hlistening
  rw [messages, ← hfollows.complete (caught h), underway, unread,
    ← List.append_assoc, hgot]
  simp

/-! ## Draining -/

/-- The steps that the tasks and the caller can still take by themselves. -/
def rank (s : Subscription Envelope α) : Nat :=
  5 * ((s.feed.tx.backlog s.feed.live).length + s.feed.stored.length) +
    4 * s.feed.task.hand.toList.length + 3 * s.feed.task.out.content.length +
    2 * s.parser.hand.toList.length + s.parser.out.content.length +
    ((!s.feed.task.ended).toNat + (!s.parser.ended).toNat + (!s.told).toNat)

private theorem next_rank {f f' : Feed α} (h : f.next S = some f') :
    5 * ((f'.tx.backlog f'.live).length + f'.stored.length) +
        4 * f'.task.hand.toList.length + 3 * f'.task.out.content.length +
        (!f'.task.ended).toNat <
      5 * ((f.tx.backlog f.live).length + f.stored.length) +
        4 * f.task.hand.toList.length + 3 * f.task.out.content.length +
        (!f.task.ended).toNat := by
  obtain ⟨⟨hhand, hrunning⟩, ⟨event, rest, hstored, rfl⟩ |
    ⟨hstored, hcases⟩⟩ := Feed.next_cases h
  · simp only [hstored, hhand, Forwarder.take, List.length_cons,
      Option.toList_some, Option.toList_none, List.length_nil]
    omega
  · rcases hcases with ⟨a, live, hrecv, rfl⟩ | ⟨n, live, hrecv, rfl⟩ |
      ⟨hbacklog, -, rfl⟩
    · rcases Broadcast.recvWithin_cases hrecv with
        ⟨b, -, rfl, -, hbacklog⟩ | ⟨skipped, hlag, -⟩
      · have hhas : (S.event? a).toList.length ≤ 1 := by
          cases S.event? a <;> simp
        simp only [hbacklog, hhand, Forwarder.take, List.length_cons,
          Option.toList_none, List.length_nil]
        omega
      · contradiction
    · rcases Broadcast.recvWithin_cases hrecv with
        ⟨b, hb, -⟩ | ⟨skipped, -, hpos, -, rfl, -, hbacklog⟩
      · contradiction
      · simp only [hbacklog, List.length_append]
        omega
    · simp [Forwarder.finish, hhand, hrunning]

private theorem pop_lowers {β : Type} {capacity : Nat}
    {t t' : Forwarder β capacity} {b : β} (h : t.pop = some (b, t')) :
    t'.out.content.length + 1 = t.out.content.length ∧ t'.hand = t.hand ∧
      t'.ended = t.ended := by
  obtain ⟨hpending, hhand, hended⟩ := Forwarder.pop_eq_some h
  have hlength := congrArg List.length hpending
  simp only [Forwarder.pending, hhand, List.length_append,
    List.length_cons] at hlength
  exact ⟨by omega, hhand, hended⟩

theorem own_lowers {a : SubscriptionAction α} (hown : s.Own a)
    (hs : step codec S s a = some s') : s'.rank < s.rank := by
  cases a with
  | feed a =>
      obtain ⟨f, hf, rfl⟩ := Option.map_eq_some_iff.mp hs
      cases a with
      | send a => exact absurd hown (by simp [Own])
      | close => exact absurd hown (by simp [Own])
      | next =>
          have hlower := next_rank hf
          simp only [rank]
          omega
      | forward =>
          obtain ⟨task, htask, rfl⟩ := Option.map_eq_some_iff.mp hf
          have hlower := Forwarder.send_lowers 3 htask
          simp only [rank]
          omega
  | parse =>
      obtain ⟨⟨hhand, hrunning⟩, ⟨event, feed, hpop, rfl⟩ | ⟨-, rfl⟩⟩ :=
        parse_cases hs
      · obtain ⟨⟨popped, task⟩, htask, heq⟩ := Option.map_eq_some_iff.mp hpop
        cases heq
        obtain ⟨hlength, hsame, hended⟩ := pop_lowers htask
        have hhas : (parse? codec event).toList.length ≤ 1 := by
          cases parse? codec event <;> simp
        simp only [rank, Forwarder.take, hhand, hsame, hended,
          Option.toList_none, List.length_nil]
        omega
      · simp [rank, Forwarder.finish, hhand, hrunning]
  | deliver =>
      obtain ⟨parser, hparser, rfl⟩ := Option.map_eq_some_iff.mp hs
      have hlower := Forwarder.send_lowers 1 hparser
      simp only [rank]
      omega
  | receive =>
      obtain ⟨-, hgoes, ⟨msg, parser, hpop, rfl⟩ | ⟨-, -, rfl⟩⟩ :=
        receive_cases hs
      · obtain ⟨hlength, hsame, hended⟩ := pop_lowers hpop
        simp only [rank, hsame, hended]
        omega
      · simp [rank, hgoes]
  | drop => exact absurd hown (by simp [Own])

private theorem feed_enabled {f : Feed α} {handed : List Event}
    (h : f.Follows S stored tx.subscribe handed)
    (hout : f.task.out.content = []) (receiving : Bool) :
    (f.pending = [] ∧ f.tx.backlog f.live = []) ∨
      (f.step S receiving .next).isSome = true ∨
      (f.step S receiving .forward).isSome = true := by
  cases hhand : f.task.hand with
  | some event =>
      refine Or.inr (Or.inr ?_)
      cases hsend : f.task.send receiving with
      | some task => simp [Feed.step, hsend]
      | none =>
          rcases Forwarder.send_eq_none receiving hsend with hnone | ⟨-, hfull⟩
          · rw [hhand] at hnone
            contradiction
          · rw [hout] at hfull
            contradiction
  | none =>
      cases hended : f.task.ended with
      | true =>
          obtain ⟨-, hstored, -, hbacklog⟩ := h.ended hended
          exact Or.inl ⟨by simp [Feed.pending, Forwarder.pending, hout, hhand,
            hstored], hbacklog⟩
      | false =>
          have hidle : f.task.Idle := ⟨hhand, hended⟩
          cases hstored : f.stored with
          | cons event rest =>
              exact Or.inr (Or.inl (by simp [Feed.step, Feed.next, hidle,
                hstored]))
          | nil =>
              cases hrecv : f.tx.recvWithin S.capacity f.live with
              | none =>
                  refine Or.inl ⟨?_, Broadcast.recvWithin_eq_none.mp hrecv⟩
                  simp [Feed.pending, Forwarder.pending, hout, hhand, hstored]
              | some next =>
                  obtain ⟨r, live⟩ := next
                  refine Or.inr (Or.inl ?_)
                  cases r <;> simp [Feed.step, Feed.next, hidle, hstored, hrecv]

/-- The channels are never all blocked: some step is open until all is drained. -/
theorem own_enabled (h : s.Accounts codec S tx stored)
    (hlistening : s.listening = true) (hnot : ¬ s.Drained) :
    ∃ a, s.Own a ∧ (step codec S s a).isSome = true := by
  obtain ⟨handed, hfollows, -⟩ := h.fed hlistening
  cases hparser : s.parser.pop with
  | some next =>
      obtain ⟨msg, parser⟩ := next
      refine ⟨.receive, trivial, ?_⟩
      have hgoes : s.told = false := by
        apply Bool.eq_false_iff.mpr
        intro hover
        rw [Forwarder.pop_eq_none.mpr (h.told hover hlistening).2] at hparser
        contradiction
      simp [step, hlistening, hgoes, hparser]
  | none =>
      have hout : s.parser.out.content = [] := Forwarder.pop_eq_none.mp hparser
      cases hhand : s.parser.hand with
      | some msg =>
          refine ⟨.deliver, trivial, ?_⟩
          cases hsend : s.parser.send s.listening with
          | some parser => simp [step, hsend]
          | none =>
              rcases Forwarder.send_eq_none _ hsend with hnone | ⟨-, hfull⟩
              · rw [hhand] at hnone
                contradiction
              · rw [hout] at hfull
                contradiction
      | none =>
          have hpending : s.parser.pending = [] := by
            simp [Forwarder.pending, hout, hhand]
          cases hended : s.parser.ended with
          | true =>
              -- the feed is over, so nothing is left anywhere
              obtain ⟨-, hfeed, hbacklog⟩ :=
                hfollows.at_end (h.ended hlistening hended).1
              exact absurd ⟨hpending, hfeed, hbacklog⟩ hnot
          | false =>
              have hidle : s.parser.Idle := ⟨hhand, hended⟩
              cases hpop : s.feed.task.pop with
              | some next =>
                  refine ⟨.parse, trivial, ?_⟩
                  simp [step, hidle, Feed.pop, hpop]
              | none =>
                  rcases feed_enabled hfollows (Forwarder.pop_eq_none.mp hpop)
                    (!s.parser.ended) with ⟨hfeed, hbacklog⟩ | hnext | hforward
                  · exact absurd ⟨hpending, hfeed, hbacklog⟩ hnot
                  · exact ⟨.feed .next, trivial, by simpa [step] using hnext⟩
                  · exact ⟨.feed .forward, trivial, by
                      simpa [step] using hforward⟩

private theorem own_same {a : SubscriptionAction α} (hown : s.Own a)
    (hs : step codec S s a = some s') :
    s'.listening = s.listening ∧ s'.feed.tx = s.feed.tx := by
  cases a with
  | feed a =>
      obtain ⟨f, hf, rfl⟩ := Option.map_eq_some_iff.mp hs
      refine ⟨rfl, ?_⟩
      cases a with
      | send a => exact absurd hown (by simp [Own])
      | close => exact absurd hown (by simp [Own])
      | next =>
          obtain ⟨-, ⟨event, rest, -, rfl⟩ | ⟨-, ⟨a, live, -, rfl⟩ |
            ⟨n, live, -, rfl⟩ | ⟨-, -, rfl⟩⟩⟩ := Feed.next_cases hf
          all_goals rfl
      | forward =>
          obtain ⟨task, -, rfl⟩ := Option.map_eq_some_iff.mp hf
          rfl
  | parse =>
      obtain ⟨-, ⟨event, feed, hpop, rfl⟩ | ⟨-, rfl⟩⟩ := parse_cases hs
      · obtain ⟨⟨popped, task⟩, -, heq⟩ := Option.map_eq_some_iff.mp hpop
        cases heq
        exact ⟨rfl, rfl⟩
      · exact ⟨rfl, rfl⟩
  | deliver =>
      obtain ⟨parser, -, rfl⟩ := Option.map_eq_some_iff.mp hs
      exact ⟨rfl, rfl⟩
  | receive =>
      obtain ⟨-, -, ⟨msg, parser, -, rfl⟩ | ⟨-, -, rfl⟩⟩ := receive_cases hs
      all_goals exact ⟨rfl, rfl⟩
  | drop => exact absurd hown (by simp [Own])

/--
A caller that goes on receiving gets everything: where the transport's task
keeps up, no message is lost, and from then on the tasks and the caller come to
rest within a bounded number of steps, whichever they take, and only when the
caller has received all that was sent.
-/
theorem subscription_drains (h : (system codec S tx stored).Reach (KeepsUp S) s)
    (hlistening : s.listening = true) :
    s.received ++ s.underway codec ++ s.unread codec S =
      messages codec S tx stored s.feed.tx ∧
    ∀ taken s', ((system codec S tx stored).startingIn
        fun start => start = s).Trace Own taken s' →
      taken.length ≤ s.rank ∧
      ((∀ a, s'.Own a → step codec S s' a = none) →
        s'.received = messages codec S tx stored s.feed.tx) := by
  refine ⟨complete h hlistening, fun taken s' htaken => ⟨?_, fun hrest => ?_⟩⟩
  · have hbound := htaken.descends (n := s.rank) rank
      (fun start hstart => by rw [hstart]) fun _ _ _ hown hs => own_lowers hown hs
    omega
  · have hsame : s'.listening = s.listening ∧ s'.feed.tx = s.feed.tx := by
      refine htaken.reach.invariant
        (I := fun now => now.listening = s.listening ∧
          now.feed.tx = s.feed.tx) ?_ ?_
      · rintro _ rfl
        exact ⟨rfl, rfl⟩
      · rintro now a later - ⟨hl, htx⟩ hown hs
        obtain ⟨hl', htx'⟩ := own_same hown hs
        exact ⟨hl'.trans hl, htx'.trans htx⟩
    have hreach : (system codec S tx stored).Reach (KeepsUp S) s' := by
      refine h.after (htaken.reach.mono fun now a hown => ?_)
      cases a with
      | feed a =>
          cases a with
          | send a => exact absurd hown (by simp [Own])
          | _ => trivial
      | _ => trivial
    have hstill : s'.listening = true := hsame.1.trans hlistening
    have hdrained : s'.Drained := by
      by_contra hnot
      obtain ⟨a, hown, hopen⟩ := own_enabled (accounts hreach) hstill hnot
      rw [hrest a hown] at hopen
      contradiction
    have hall := complete hreach hstill
    rw [hsame.2] at hall
    rw [← hall, underway, unread, hdrained.1, hdrained.2.1, hdrained.2.2]
    simp

section Topic

open Publishing

def topicFilter : Filter := messageFilter textCodec.hashtag "jobs"

def topicMessage (mid : String) (id : EventId) : Event :=
  { sampleDraft with
    tags := [["t", "jobs"], ["mid", mid], ["trace", "trace"]] }.sign
    (hexOf '0') 0 id

/-- A client that keeps one notification: the first of two is overwritten. -/
def laggingRun : List (SubscriptionAction RelayPoolNotification) :=
  [.feed (.send (.event (topicMessage "m" (hexOf 'a')))),
    .feed (.send (.event (topicMessage "n" (hexOf 'b')))),
    .feed .next, .feed .next, .feed .forward, .parse, .deliver, .receive]

theorem subscription_in_order_lagged :
    ∃ s : Subscription String RelayPoolNotification,
      s.received.map NqMessage.mid = ["n"] ∧
      s.feed.results.map Received.missed = [1, 0] ∧
      s.received.Sublist (messages textCodec
        (NostrTransport.source 1 topicFilter) .new [] s.feed.tx) := by
  obtain ⟨s, hreach, htest⟩ :=
    (System.Reach.init
      (S := system textCodec (NostrTransport.source 1 topicFilter) .new [])
      (P := System.Free) rfl).of_run_check laggingRun
      (fun s => decide (s.received.map NqMessage.mid = ["n"] ∧
        s.feed.results.map Received.missed = [1, 0])) (by decide)
  obtain ⟨hreceived, hmissed⟩ := of_decide_eq_true htest
  exact ⟨s, hreceived, hmissed, (subscription_in_order hreach).1⟩

theorem subscription_drains_unread :
    ∃ s : Subscription String Event, s.received = [] ∧
      ∀ taken s', ((system textCodec (MockTransport.source topicFilter) .new
          [topicMessage "m" (hexOf 'a')]).startingIn
            fun start => start = s).Trace Own taken s' →
        taken.length ≤ s.rank ∧
        ((∀ a, s'.Own a → step textCodec (MockTransport.source topicFilter) s'
            a = none) →
          s'.received = messages textCodec (MockTransport.source topicFilter)
            .new [topicMessage "m" (hexOf 'a')] s.feed.tx) := by
  obtain ⟨s, hreach, htest⟩ :=
    (System.Reach.init
      (S := system textCodec (MockTransport.source topicFilter) .new
        [topicMessage "m" (hexOf 'a')])
      (P := KeepsUp (MockTransport.source topicFilter)) rfl).of_run_check
      [.feed (.send (topicMessage "n" (hexOf 'b')))]
      (fun s => decide (s.received.map NqMessage.mid = []) && s.listening)
      (by decide)
  rw [Bool.and_eq_true, decide_eq_true_eq, List.map_eq_nil_iff] at htest
  exact ⟨s, htest.1, (subscription_drains hreach htest.2).2⟩

end Topic

end Runs

end Subscription

end NostrQ.Sdk
