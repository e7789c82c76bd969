import NostrQ.Transport.Mock

/-!
# The subscription of the relay client

`subscribe` sends its request and waits for it to be taken before it asks the
client for a notification receiver.  Of the client only this is used: from the
request on it may emit a notification at any moment, of each event at most once,
and a receiver sees exactly what is emitted after its creation.
-/

namespace NostrQ.Transport

open NostrQ.Foundation NostrQ.Core

inductive RelayPoolNotification where
  | event (event : Event)
  | message
  | shutdown
  deriving DecidableEq

inductive NostrSubscribe where
  | entered
  | requested
  | confirmed
  | failed
  | forwarding (live : Nat)
  deriving DecidableEq

structure NostrTransport where
  notifications : Broadcast RelayPoolNotification
  subscription : NostrSubscribe
  out : List Event
  deriving DecidableEq

inductive NostrAction where
  | request
  | confirm
  | refuse
  | createReceiver
  | emit (notification : RelayPoolNotification)
  | forward
  deriving DecidableEq

namespace NostrTransport

def start (history : List RelayPoolNotification) : NostrTransport where
  notifications := ⟨history⟩
  subscription := .entered
  out := []

/-- Whether the client may emit: the request is out, and the event is new. -/
def mayEmit (t : NostrTransport) : RelayPoolNotification → Bool
  | .event event =>
      t.subscription ≠ .entered &&
        !t.notifications.sent.contains (.event event)
  | _ => true

def forward (filter : Filter) (t : NostrTransport) : Option NostrTransport :=
  match t.subscription with
  | .forwarding live =>
      (t.notifications.recv live).map fun (notification, live) =>
        match notification with
        | .event event =>
            { t with
              subscription := .forwarding live
              out := if filter.matchEvent event then t.out ++ [event]
                else t.out }
        | _ => { t with subscription := .forwarding live }
  | _ => none

def step (filter : Filter) (t : NostrTransport) :
    NostrAction → Option NostrTransport
  | .request =>
      match t.subscription with
      | .entered => some { t with subscription := .requested }
      | _ => none
  | .confirm =>
      match t.subscription with
      | .requested => some { t with subscription := .confirmed }
      | _ => none
  | .refuse =>
      match t.subscription with
      | .requested => some { t with subscription := .failed }
      | _ => none
  | .createReceiver =>
      match t.subscription with
      | .confirmed =>
          some { t with subscription := .forwarding t.notifications.subscribe }
      | _ => none
  | .emit notification =>
      if t.mayEmit notification then
        some { t with notifications := t.notifications.send notification }
      else none
  | .forward => t.forward filter

def system (filter : Filter) : System NostrTransport NostrAction where
  init t := ∃ history, t = start history
  step := step filter

def Drained (t : NostrTransport) : Prop :=
  ∃ live, t.subscription = .forwarding live ∧
    t.notifications.backlog live = []

def Delivers (filter : Filter) (t : NostrTransport) (live : Nat)
    (event : Event) : Prop :=
  event ∈ t.out ∨ .event event ∈ t.notifications.backlog live ∧
    filter.matchEvent event = true

structure Traced (filter : Filter) (past : List NostrAction)
    (t : NostrTransport) : Prop where
  emitted : ∀ notification, .emit notification ∈ past →
    notification ∈ t.notifications.sent
  once : ∀ event,
    .emit (.event event) ∈ Schedule.before .createReceiver past →
    .emit (.event event) ∉ Schedule.after .createReceiver past
  phase : match t.subscription with
    | .forwarding live =>
        .createReceiver ∈ past ∧ t.notifications.Valid live ∧
        ∀ event, t.Delivers filter live event ↔
          filter.matchEvent event = true ∧
          .emit (.event event) ∈ Schedule.after .createReceiver past
    | _ => t.out = [] ∧ .createReceiver ∉ past

section Runs

variable {filter : Filter} {past : List NostrAction} {t t' : NostrTransport}

theorem traced_start (filter : Filter) (history : List RelayPoolNotification) :
    Traced filter [] (start history) where
  emitted := by simp
  once := by simp [Schedule.before]
  phase := ⟨rfl, by simp⟩

private theorem Traced.advance {a : NostrAction} {next : NostrSubscribe}
    (h : Traced filter past t) (ha : ∀ n, a ≠ .emit n)
    (ha' : a ≠ .createReceiver)
    (hnow : ∀ live, t.subscription ≠ .forwarding live)
    (hnext : ∀ live, next ≠ .forwarding live) :
    Traced filter (past ++ [a]) { t with subscription := next } := by
  have hphase : t.out = [] ∧ .createReceiver ∉ past := by
    have := h.phase
    split at this
    · next live hsub => exact absurd hsub (hnow live)
    · exact this
  have hmem : .createReceiver ∉ past ++ [a] := by
    simp [hphase.2, ha'.symm]
  refine ⟨fun n hn => h.emitted n ?_, fun event _ => ?_, ?_⟩
  · simpa [(ha n).symm] using hn
  · simp [Schedule.after_of_not_mem hmem]
  · split
    · next live hsub => exact absurd hsub (hnext live)
    · exact ⟨hphase.1, hmem⟩

theorem traced_createReceiver (h : Traced filter past t)
    (hsub : t.subscription = .confirmed) :
    Traced filter (past ++ [.createReceiver])
      { t with subscription := .forwarding t.notifications.subscribe } := by
  have hphase := h.phase
  simp only [hsub] at hphase
  obtain ⟨hout, hreceiver⟩ := hphase
  refine ⟨fun n hn => h.emitted n (by simpa using hn), fun event _ => ?_,
    by simp, Broadcast.valid_subscribe, fun event => ?_⟩
  · simp [Schedule.after_concat_self hreceiver]
  · simp [Delivers, hout, Schedule.after_concat_self hreceiver]

theorem traced_emit (h : Traced filter past t)
    {notification : RelayPoolNotification}
    (hmay : t.mayEmit notification = true) :
    Traced filter (past ++ [.emit notification])
      { t with notifications := t.notifications.send notification } := by
  have hphase := h.phase
  have hemitted : ∀ n, .emit n ∈ past ++ [.emit notification] →
      n ∈ (t.notifications.send notification).sent := by
    intro n hn
    simp only [List.mem_append, List.mem_singleton,
      NostrAction.emit.injEq] at hn
    rcases hn with hn | rfl
    · simp [h.emitted n hn]
    · simp
  by_cases hreceiver : .createReceiver ∈ past
  · refine ⟨hemitted, ?_, ?_⟩
    · intro event hbefore
      rw [Schedule.before_concat hreceiver] at hbefore
      rw [Schedule.after_concat hreceiver]
      simp only [List.mem_append, List.mem_singleton, NostrAction.emit.injEq,
        not_or]
      refine ⟨h.once event hbefore, ?_⟩
      rintro rfl
      -- the event was emitted before, so it may not be emitted again
      have hsent := h.emitted _ (Schedule.mem_of_mem_before hbefore)
      simp [mayEmit, hsent] at hmay
    · cases hsub : t.subscription with
      | forwarding live =>
          simp only [hsub] at hphase ⊢
          obtain ⟨-, hlive, hafter⟩ := hphase
          refine ⟨by simp [hreceiver], hlive.send notification, ?_⟩
          intro event
          have hevent := hafter event
          rw [Schedule.after_concat hreceiver]
          simp only [Delivers, hlive.backlog_send, List.mem_append,
            List.mem_singleton, NostrAction.emit.injEq] at hevent ⊢
          tauto
      | entered | requested | confirmed | failed =>
          simp only [hsub] at hphase
          exact absurd hreceiver hphase.2
  · have hmem : .createReceiver ∉ past ++ [.emit notification] := by
      simp [hreceiver]
    refine ⟨hemitted, ?_, ?_⟩
    · intro event _
      simp [Schedule.after_of_not_mem hmem]
    · cases hsub : t.subscription with
      | forwarding live =>
          simp only [hsub] at hphase
          exact absurd hphase.1 hreceiver
      | entered | requested | confirmed | failed =>
          simp only [hsub] at hphase ⊢
          exact ⟨hphase.1, hmem⟩

theorem traced_forward (h : Traced filter past t)
    (hstep : t.forward filter = some t') :
    Traced filter (past ++ [.forward]) t' := by
  have hphase := h.phase
  cases hsub : t.subscription with
  | entered | requested | confirmed | failed => simp [forward, hsub] at hstep
  | forwarding live =>
      simp only [hsub] at hphase
      obtain ⟨hreceiver, hlive, hafter⟩ := hphase
      simp only [forward, hsub] at hstep
      obtain ⟨⟨notification, live'⟩, hrecv, rfl⟩ :=
        Option.map_eq_some_iff.mp hstep
      obtain ⟨-, hbacklog⟩ := Broadcast.recv_eq_some hrecv
      have hlive' := Broadcast.Valid.recv hrecv
      have hemitted : ∀ n, .emit n ∈ past ++ [.forward] →
          n ∈ t.notifications.sent :=
        fun n hn => h.emitted n (by simpa using hn)
      have hbefore := Schedule.before_concat hreceiver .forward
      have hpast := Schedule.after_concat hreceiver .forward
      have honce : ∀ event,
          .emit (.event event) ∈
            Schedule.before .createReceiver (past ++ [.forward]) →
          .emit (.event event) ∉
            Schedule.after .createReceiver (past ++ [.forward]) := by
        intro event hevent
        rw [hbefore] at hevent
        simpa [hpast] using h.once event hevent
      cases notification with
      | message | shutdown =>
          refine ⟨hemitted, honce, by simp [hreceiver], hlive', ?_⟩
          intro event
          have hevent := hafter event
          simp only [Delivers, hbacklog, List.mem_cons, reduceCtorEq,
            false_or] at hevent
          simpa [Delivers, hpast] using hevent
      | event first =>
          refine ⟨hemitted, honce, by simp [hreceiver], hlive', ?_⟩
          intro event
          have hevent := hafter event
          rw [hpast]
          simp only [Delivers, hbacklog, List.mem_cons, List.mem_append,
            RelayPoolNotification.event.injEq, reduceCtorEq, List.not_mem_nil,
            or_false] at hevent ⊢
          rw [← hevent]
          cases hmatch : filter.matchEvent first
          · simp only [Bool.false_eq_true, if_false]
            constructor
            · tauto
            · rintro (hout | ⟨rfl | hmem, heq⟩)
              · exact Or.inl hout
              · simp [hmatch] at heq
              · exact Or.inr ⟨hmem, heq⟩
          · simp only [if_true, List.mem_append, List.mem_singleton]
            constructor
            · rintro ((hout | rfl) | hmem)
              · exact Or.inl hout
              · exact Or.inr ⟨Or.inl rfl, hmatch⟩
              · exact Or.inr ⟨Or.inr hmem.1, hmem.2⟩
            · tauto

theorem traced_step {a : NostrAction} (h : Traced filter past t)
    (hstep : step filter t a = some t') : Traced filter (past ++ [a]) t' := by
  cases a with
  | request =>
      simp only [step] at hstep
      split at hstep
      · next hsub =>
          cases hstep
          exact h.advance (by simp) (by simp) (by simp [hsub]) (by simp)
      · contradiction
  | confirm =>
      simp only [step] at hstep
      split at hstep
      · next hsub =>
          cases hstep
          exact h.advance (by simp) (by simp) (by simp [hsub]) (by simp)
      · contradiction
  | refuse =>
      simp only [step] at hstep
      split at hstep
      · next hsub =>
          cases hstep
          exact h.advance (by simp) (by simp) (by simp [hsub]) (by simp)
      · contradiction
  | createReceiver =>
      simp only [step] at hstep
      split at hstep
      · next hsub =>
          cases hstep
          exact traced_createReceiver h hsub
      · contradiction
  | emit notification =>
      simp only [step] at hstep
      split at hstep
      · next hmay =>
          cases hstep
          exact traced_emit h hmay
      · contradiction
  | forward => exact traced_forward h hstep

variable {history : List RelayPoolNotification} {actions : List NostrAction}

theorem traced (hrun : (system filter).run System.Free (start history) actions =
      some t) : Traced filter actions t :=
  System.run_history hrun (traced_start filter history)
    fun _ _ _ _ h _ hstep => traced_step h hstep

theorem mem_out_iff
    (hrun : (system filter).run System.Free (start history) actions = some t)
    (hdrained : t.Drained) (event : Event) :
    event ∈ t.out ↔ filter.matchEvent event = true ∧
      .emit (.event event) ∈ Schedule.after .createReceiver actions := by
  obtain ⟨live, hsub, hbacklog⟩ := hdrained
  have hphase := (traced hrun).phase
  simp only [hsub] at hphase
  rw [← hphase.2.2 event]
  simp [Delivers, hbacklog]

/--
The drained subscriber has got every matching event that the client emitted,
exactly when the client emitted none before the receiver was created.
-/
theorem subscribe_complete_iff
    (hrun : (system filter).run System.Free (start history) actions = some t)
    (hdrained : t.Drained) :
    (∀ event, .emit (.event event) ∈ actions →
        filter.matchEvent event = true → event ∈ t.out) ↔
      ∀ event,
        .emit (.event event) ∈ Schedule.before .createReceiver actions →
        filter.matchEvent event = false := by
  have honce := (traced hrun).once
  constructor
  · intro hall event hbefore
    by_contra hmatch
    have hmatch : filter.matchEvent event = true := by simpa using hmatch
    have hout := hall event (Schedule.mem_of_mem_before hbefore) hmatch
    exact honce event hbefore ((mem_out_iff hrun hdrained event).mp hout).2
  · intro hnone event hemit hmatch
    rw [mem_out_iff hrun hdrained]
    refine ⟨hmatch, ?_⟩
    rw [← Schedule.before_append_after .createReceiver actions,
      List.mem_append] at hemit
    rcases hemit with hbefore | hafter
    · simp [hnone event hbefore] at hmatch
    · exact hafter

open MockTransport (sampleEvent sampleFilter)

def promptRun : List NostrAction :=
  [.request, .confirm, .createReceiver, .emit (.event sampleEvent), .forward]

theorem subscribe_complete_iff_prompt :
    ∃ t, (system sampleFilter).run System.Free (start []) promptRun = some t ∧
      t.Drained ∧
      ((∀ event, .emit (.event event) ∈ promptRun →
          sampleFilter.matchEvent event = true → event ∈ t.out) ↔
        ∀ event,
          .emit (.event event) ∈ Schedule.before .createReceiver promptRun →
          sampleFilter.matchEvent event = false) := by
  have hrun : (system sampleFilter).run System.Free (start []) promptRun =
      some {
        notifications := ⟨[.event sampleEvent]⟩
        subscription := .forwarding 1
        out := [sampleEvent] } := by decide
  exact ⟨_, hrun, ⟨1, rfl, rfl⟩, subscribe_complete_iff hrun ⟨1, rfl, rfl⟩⟩

/-- The relay replays a stored event before the request is confirmed. -/
def earlyRun : List NostrAction :=
  [.request, .emit (.event sampleEvent), .confirm, .createReceiver]

theorem replayed_early_lost :
    ∃ t, (system sampleFilter).run System.Free (start []) earlyRun = some t ∧
      t.Drained ∧ .emit (.event sampleEvent) ∈ earlyRun ∧
      sampleFilter.matchEvent sampleEvent = true ∧ sampleEvent ∉ t.out := by
  have hrun : (system sampleFilter).run System.Free (start []) earlyRun =
      some {
        notifications := ⟨[.event sampleEvent]⟩
        subscription := .forwarding 1
        out := [] } := by decide
  exact ⟨_, hrun, ⟨1, rfl, rfl⟩, by decide, by decide, by simp⟩

end Runs

end NostrTransport

end NostrQ.Transport
