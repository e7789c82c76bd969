import NostrQ.Core.Event
import NostrQ.Foundation.Broadcast
import NostrQ.Foundation.Schedule

/-!
# The in-memory transport

A publish appends its event to the stored list and then sends it on the
broadcast channel; `subscribe` copies the matching stored events and then
creates its receiver.  Each of the four is a step of its own, and any number of
publishes runs beside one subscription.
-/

namespace NostrQ.Transport

open NostrQ.Foundation NostrQ.Core

inductive MockSubscribe where
  | entered
  | snapshotted (stored : List Event)
  | forwarding (stored : List Event) (live : Nat)
  deriving DecidableEq

/--
`publishing` are the publishes that have appended their event and not sent it;
`out` is what the subscriber has been given.
-/
structure MockTransport where
  events : List Event
  tx : Broadcast Event
  publishing : List Event
  subscription : MockSubscribe
  out : List Event
  deriving DecidableEq

inductive MockAction where
  | append (event : Event)
  | send (event : Event)
  | snapshot
  | createReceiver
  | forward
  deriving DecidableEq

namespace MockTransport

def new : MockTransport where
  events := []
  tx := .new
  publishing := []
  subscription := .entered
  out := []

def query (t : MockTransport) (filter : Filter) : List Event :=
  t.events.filter filter.matchEvent

/-- The stored events go first, then the live ones that match. -/
def forward (filter : Filter) (t : MockTransport) : Option MockTransport :=
  match t.subscription with
  | .forwarding (event :: stored) live =>
      some { t with
        subscription := .forwarding stored live
        out := t.out ++ [event] }
  | .forwarding [] live =>
      (t.tx.recv live).map fun (event, live) =>
        { t with
          subscription := .forwarding [] live
          out := if filter.matchEvent event then t.out ++ [event] else t.out }
  | _ => none

def step (filter : Filter) (t : MockTransport) :
    MockAction → Option MockTransport
  | .append event =>
      some { t with
        events := t.events ++ [event]
        publishing := t.publishing ++ [event] }
  | .send event =>
      if event ∈ t.publishing then
        some { t with
          publishing := t.publishing.erase event
          tx := t.tx.send event }
      else none
  | .snapshot =>
      match t.subscription with
      | .entered =>
          some { t with subscription := .snapshotted (t.query filter) }
      | _ => none
  | .createReceiver =>
      match t.subscription with
      | .snapshotted stored =>
          some { t with subscription := .forwarding stored t.tx.subscribe }
      | _ => none
  | .forward => t.forward filter

def system (filter : Filter) : System MockTransport MockAction where
  init t := t = new
  step := step filter

def Drained (t : MockTransport) : Prop :=
  ∃ live, t.subscription = .forwarding [] live ∧ t.tx.backlog live = []

/--
Some publish of the event has appended it before the snapshot, or has sent it
after the receiver was created.
-/
def Caught (actions : List MockAction) (event : Event) : Prop :=
  .append event ∈ Schedule.before .snapshot actions ∨
    .send event ∈ Schedule.after .createReceiver actions

/-- The subscriber has got the event, or will get it by draining. -/
def Delivers (filter : Filter) (t : MockTransport) (stored : List Event)
    (live : Nat) (event : Event) : Prop :=
  event ∈ t.out ∨ event ∈ stored ∨
    event ∈ t.tx.backlog live ∧ filter.matchEvent event = true

def Traced (filter : Filter) (past : List MockAction) (t : MockTransport) :
    Prop :=
  (∀ event, event ∈ t.events ↔ .append event ∈ past) ∧
  match t.subscription with
  | .entered =>
      t.out = [] ∧ .snapshot ∉ past ∧ .createReceiver ∉ past
  | .snapshotted stored =>
      t.out = [] ∧ .snapshot ∈ past ∧ .createReceiver ∉ past ∧
      ∀ event, event ∈ stored ↔ filter.matchEvent event = true ∧
        .append event ∈ Schedule.before .snapshot past
  | .forwarding stored live =>
      .snapshot ∈ past ∧ .createReceiver ∈ past ∧ t.tx.Valid live ∧
      ∀ event, t.Delivers filter stored live event ↔
        filter.matchEvent event = true ∧ Caught past event

section Runs

variable {filter : Filter} {past : List MockAction} {t t' : MockTransport}

theorem traced_new (filter : Filter) : Traced filter [] new := by
  simp [Traced, new]

private theorem mem_query {event : Event} :
    event ∈ t.query filter ↔
      filter.matchEvent event = true ∧ event ∈ t.events := by
  simp [query, and_comm]

theorem traced_append (h : Traced filter past t) (event : Event) :
    Traced filter (past ++ [.append event])
      { t with
        events := t.events ++ [event]
        publishing := t.publishing ++ [event] } := by
  obtain ⟨hevents, hphase⟩ := h
  refine ⟨fun other => ?_, ?_⟩
  · simp [hevents]
  · cases hsub : t.subscription with
    | entered => simpa [hsub] using hphase
    | snapshotted stored =>
        simp only [hsub] at hphase ⊢
        obtain ⟨hout, hsnapshot, hreceiver, hstored⟩ := hphase
        refine ⟨hout, by simp [hsnapshot], by simp [hreceiver], ?_⟩
        rw [Schedule.before_concat hsnapshot]
        exact hstored
    | forwarding stored live =>
        simp only [hsub] at hphase ⊢
        obtain ⟨hsnapshot, hreceiver, hlive, hcaught⟩ := hphase
        refine ⟨by simp [hsnapshot], by simp [hreceiver], hlive, ?_⟩
        intro other
        rw [Caught, Schedule.before_concat hsnapshot,
          Schedule.after_concat hreceiver]
        simpa [Caught, Delivers] using hcaught other

theorem traced_send (h : Traced filter past t) (event : Event) :
    Traced filter (past ++ [.send event])
      { t with
        publishing := t.publishing.erase event
        tx := t.tx.send event } := by
  obtain ⟨hevents, hphase⟩ := h
  refine ⟨fun other => ?_, ?_⟩
  · simp [hevents]
  · cases hsub : t.subscription with
    | entered => simpa [hsub] using hphase
    | snapshotted stored =>
        simp only [hsub] at hphase ⊢
        obtain ⟨hout, hsnapshot, hreceiver, hstored⟩ := hphase
        refine ⟨hout, by simp [hsnapshot], by simp [hreceiver], ?_⟩
        rw [Schedule.before_concat hsnapshot]
        exact hstored
    | forwarding stored live =>
        simp only [hsub] at hphase ⊢
        obtain ⟨hsnapshot, hreceiver, hlive, hcaught⟩ := hphase
        refine ⟨by simp [hsnapshot], by simp [hreceiver], hlive.send event, ?_⟩
        intro other
        have hother := hcaught other
        rw [Caught, Schedule.before_concat hsnapshot,
          Schedule.after_concat hreceiver]
        simp only [Delivers, Caught, hlive.backlog_send, List.mem_append,
          List.mem_singleton, MockAction.send.injEq] at hother ⊢
        tauto

theorem traced_snapshot (h : Traced filter past t)
    (hsub : t.subscription = .entered) :
    Traced filter (past ++ [.snapshot])
      { t with subscription := .snapshotted (t.query filter) } := by
  obtain ⟨hevents, hphase⟩ := h
  simp only [hsub] at hphase
  obtain ⟨hout, hsnapshot, hreceiver⟩ := hphase
  refine ⟨fun other => by simp [hevents], hout, by simp, by simp [hreceiver],
    ?_⟩
  intro event
  rw [Schedule.before_concat_self hsnapshot, mem_query, hevents]

theorem traced_createReceiver {stored : List Event} (h : Traced filter past t)
    (hsub : t.subscription = .snapshotted stored) :
    Traced filter (past ++ [.createReceiver])
      { t with subscription := .forwarding stored t.tx.subscribe } := by
  obtain ⟨hevents, hphase⟩ := h
  simp only [hsub] at hphase
  obtain ⟨hout, hsnapshot, hreceiver, hstored⟩ := hphase
  refine ⟨fun other => by simp [hevents], by simp [hsnapshot], by simp,
    Broadcast.valid_subscribe, ?_⟩
  intro event
  rw [Caught, Schedule.before_concat hsnapshot,
    Schedule.after_concat_self hreceiver]
  simp [Delivers, hout, hstored]

theorem traced_forward (h : Traced filter past t)
    (hstep : t.forward filter = some t') :
    Traced filter (past ++ [.forward]) t' := by
  obtain ⟨hevents, hphase⟩ := h
  cases hsub : t.subscription with
  | entered => simp [forward, hsub] at hstep
  | snapshotted stored => simp [forward, hsub] at hstep
  | forwarding stored live =>
      simp only [hsub] at hphase
      obtain ⟨hsnapshot, hreceiver, hlive, hcaught⟩ := hphase
      have hcaught' : ∀ event, Caught (past ++ [.forward]) event ↔
          Caught past event := by
        intro event
        rw [Caught, Caught, Schedule.before_concat hsnapshot,
          Schedule.after_concat hreceiver]
        simp
      cases stored with
      | cons first stored =>
          simp only [forward, hsub, Option.some.injEq] at hstep
          subst hstep
          refine ⟨fun other => by simp [hevents], by simp [hsnapshot],
            by simp [hreceiver], hlive, ?_⟩
          intro event
          rw [hcaught', ← hcaught]
          simp only [Delivers, List.mem_append, List.mem_cons,
            List.not_mem_nil, or_false]
          tauto
      | nil =>
          simp only [forward, hsub] at hstep
          obtain ⟨⟨first, live'⟩, hrecv, rfl⟩ := Option.map_eq_some_iff.mp hstep
          obtain ⟨-, hbacklog⟩ := Broadcast.recv_eq_some hrecv
          refine ⟨fun other => by simp [hevents], by simp [hsnapshot],
            by simp [hreceiver], Broadcast.Valid.recv hrecv, ?_⟩
          intro event
          rw [hcaught', ← hcaught]
          cases hmatch : filter.matchEvent first <;>
            simp only [Delivers, hbacklog, if_true, if_false, List.mem_append,
              List.mem_cons, List.not_mem_nil, or_false, Bool.false_eq_true]
          · constructor
            · tauto
            · rintro (hout | hnil | ⟨rfl | hmem, hevent⟩)
              · exact Or.inl hout
              · exact Or.inr (Or.inl hnil)
              · simp [hmatch] at hevent
              · exact Or.inr (Or.inr ⟨hmem, hevent⟩)
          · constructor
            · rintro ((hout | rfl) | hnil | hmem)
              · exact Or.inl hout
              · exact Or.inr (Or.inr ⟨Or.inl rfl, hmatch⟩)
              · exact Or.inr (Or.inl hnil)
              · exact Or.inr (Or.inr ⟨Or.inr hmem.1, hmem.2⟩)
            · tauto

theorem traced_step {a : MockAction} (h : Traced filter past t)
    (hstep : step filter t a = some t') : Traced filter (past ++ [a]) t' := by
  cases a with
  | append event =>
      cases hstep
      exact traced_append h event
  | send event =>
      simp only [step] at hstep
      split at hstep
      · cases hstep
        exact traced_send h event
      · contradiction
  | snapshot =>
      simp only [step] at hstep
      split at hstep
      · next hsub =>
          cases hstep
          exact traced_snapshot h hsub
      · contradiction
  | createReceiver =>
      simp only [step] at hstep
      split at hstep
      · next stored hsub =>
          cases hstep
          exact traced_createReceiver h hsub
      · contradiction
  | forward => exact traced_forward h hstep

variable {actions : List MockAction}

theorem traced (hrun : (system filter).run System.Free new actions = some t) :
    Traced filter actions t :=
  System.run_history hrun (traced_new filter)
    fun _ _ _ _ h _ hstep => traced_step h hstep

theorem mem_out_iff
    (hrun : (system filter).run System.Free new actions = some t)
    (hdrained : t.Drained) (event : Event) :
    event ∈ t.out ↔
      filter.matchEvent event = true ∧ Caught actions event := by
  obtain ⟨live, hsub, hbacklog⟩ := hdrained
  obtain ⟨-, hphase⟩ := traced hrun
  simp only [hsub] at hphase
  rw [← hphase.2.2.2 event]
  simp [Delivers, hbacklog]

/--
The drained subscriber has got every matching event that was published, exactly
when no publish of one fell, append and send, between the snapshot and the
creation of the receiver: each was appended before the one or sent after the
other.
-/
theorem subscribe_lossless_iff
    (hrun : (system filter).run System.Free new actions = some t)
    (hdrained : t.Drained) :
    (∀ event, .send event ∈ actions → filter.matchEvent event = true →
        event ∈ t.out) ↔
      ∀ event, .send event ∈ actions → filter.matchEvent event = true →
        Caught actions event := by
  refine forall_congr' fun event => imp_congr_right fun _ => ?_
  refine forall_congr' fun hmatch => ?_
  rw [mem_out_iff hrun hdrained]
  simp [hmatch]

def Appended (past : List MockAction) (t : MockTransport) : Prop :=
  (∀ event ∈ t.publishing, event ∈ t.events) ∧
    ∀ event, .send event ∈ past → event ∈ t.events

theorem appended_step {a : MockAction} (h : Appended past t)
    (hstep : step filter t a = some t') : Appended (past ++ [a]) t' := by
  obtain ⟨hpublishing, hsent⟩ := h
  cases a with
  | append event =>
      cases hstep
      refine ⟨fun other hmem => ?_, fun other hmem => ?_⟩
      · simp only [List.mem_append] at hmem ⊢
        exact hmem.imp_left (hpublishing other)
      · exact List.mem_append_left _ (hsent other (by simpa using hmem))
  | send event =>
      simp only [step] at hstep
      split at hstep
      · next hevent =>
          cases hstep
          refine ⟨fun other hmem => hpublishing other (List.mem_of_mem_erase hmem),
            fun other hmem => ?_⟩
          simp only [List.mem_append, List.mem_singleton,
            MockAction.send.injEq] at hmem
          rcases hmem with hmem | rfl
          · exact hsent other hmem
          · exact hpublishing other hevent
      · contradiction
  | snapshot =>
      simp only [step] at hstep
      split at hstep
      · cases hstep
        exact ⟨hpublishing, fun other hmem => hsent other (by simpa using hmem)⟩
      · contradiction
  | createReceiver =>
      simp only [step] at hstep
      split at hstep
      · cases hstep
        exact ⟨hpublishing, fun other hmem => hsent other (by simpa using hmem)⟩
      · contradiction
  | forward =>
      have hsame : t'.events = t.events ∧ t'.publishing = t.publishing := by
        simp only [step, forward] at hstep
        split at hstep
        · cases hstep
          exact ⟨rfl, rfl⟩
        · obtain ⟨_, -, rfl⟩ := Option.map_eq_some_iff.mp hstep
          exact ⟨rfl, rfl⟩
        · contradiction
      rw [Appended, hsame.1, hsame.2]
      exact ⟨hpublishing, fun other hmem => hsent other (by simpa using hmem)⟩

/--
What a caller may count on: a query returns every matching event that has been
published, and a subscription delivers those published after it returned.
-/
theorem query_and_subscription
    (hrun : (system filter).run System.Free new actions = some t) :
    (∀ event, .send event ∈ actions → filter.matchEvent event = true →
      event ∈ t.query filter) ∧
    ∀ stored live, t.subscription = .forwarding stored live → ∀ event,
      .send event ∈ Schedule.after .createReceiver actions →
      filter.matchEvent event = true → t.Delivers filter stored live event := by
  constructor
  · intro event hsent hmatch
    have happended : Appended actions t :=
      System.run_history hrun (by simp [Appended, new])
        fun _ _ _ _ h _ hstep => appended_step h hstep
    exact mem_query.mpr ⟨hmatch, happended.2 event hsent⟩
  · intro stored live hsub event hafter hmatch
    obtain ⟨-, hphase⟩ := traced hrun
    simp only [hsub] at hphase
    exact (hphase.2.2.2 event).mpr ⟨hmatch, Or.inr hafter⟩

def sampleEvent : Event where
  id := hexOf 'e'
  pubkey := hexOf 'a'
  createdAt := 0
  kind := 4620
  tags := [["t", "jobs"]]
  content := "{}"

def sampleFilter : Filter := { kinds := [4620], hashtags := ["jobs"] }

def replayedRun : List MockAction :=
  [.append sampleEvent, .snapshot, .send sampleEvent, .createReceiver, .forward]

theorem subscribe_lossless_iff_replayed :
    ∃ t, (system sampleFilter).run System.Free new replayedRun = some t ∧
      t.Drained ∧
      ((∀ event, .send event ∈ replayedRun →
          sampleFilter.matchEvent event = true → event ∈ t.out) ↔
        ∀ event, .send event ∈ replayedRun →
          sampleFilter.matchEvent event = true → Caught replayedRun event) := by
  have hrun : (system sampleFilter).run System.Free new replayedRun = some {
      events := [sampleEvent]
      tx := ⟨[sampleEvent]⟩
      publishing := []
      subscription := .forwarding [] 1
      out := [sampleEvent] } := by decide
  exact ⟨_, hrun, ⟨1, rfl, rfl⟩, subscribe_lossless_iff hrun ⟨1, rfl, rfl⟩⟩

/-- A whole publish between the snapshot and the creation of the receiver. -/
def missedRun : List MockAction :=
  [.snapshot, .append sampleEvent, .send sampleEvent, .createReceiver]

/-- The event is stored and sent, and never reaches the drained subscriber. -/
theorem published_in_the_gap_lost :
    ∃ t, (system sampleFilter).run System.Free new missedRun = some t ∧
      t.Drained ∧ .send sampleEvent ∈ missedRun ∧
      sampleFilter.matchEvent sampleEvent = true ∧ sampleEvent ∉ t.out := by
  have hrun : (system sampleFilter).run System.Free new missedRun = some {
      events := [sampleEvent]
      tx := ⟨[sampleEvent]⟩
      publishing := []
      subscription := .forwarding [] 1
      out := [] } := by decide
  exact ⟨_, hrun, ⟨1, rfl, rfl⟩, by decide, by decide, by simp⟩

end Runs

end MockTransport

end NostrQ.Transport
