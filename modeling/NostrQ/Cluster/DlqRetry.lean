import NostrQ.Cluster.Finality

/-!
# Retrying a dead message

A retry raises the row's floor to the attempts that this node has counted or
seen.  Every dlq event that the node has taken in is covered by that floor.  A
dlq event of a higher attempt, accepted since the node last asked, is not.
-/

namespace NostrQ.Cluster

open NostrQ.Foundation NostrQ.Core NostrQ.Database NostrQ.Sdk NostrQ.Worker

variable {W : Type}

section Retry

variable (D : Deployment W)

def IsDlq (event : Event) : Prop :=
  (terminalFilter D.message).matchEvent event = true ∧ event.kind = KIND_DLQ

instance (event : Event) : Decidable (IsDlq D event) :=
  inferInstanceAs (Decidable (_ ∧ _))

def DlqAtMost (relay : Relay) (bound : Nat) : Prop :=
  ∀ accepted ∈ relay, IsDlq D accepted.event →
    (eventAttempt accepted.event).val ≤ bound

instance (relay : Relay) (bound : Nat) :
    Decidable (DlqAtMost D relay bound) :=
  inferInstanceAs (Decidable (∀ _ ∈ _, _))

def dlqObserved? : JobPhase → Option U32
  | .claiming (.during _ (.dlqObserved attempt)) => some attempt
  | _ => none

/--
The last retry of every node stands: no earlier dlq event is above the row's
floor, and a call on a record read since then dies of a later one only.
-/
def RetryStands (net : Net W) : Prop :=
  ∀ w, ∀ n ∈ (net.nodes w).history.retried,
    (∀ row ∈ (net.nodes w).store.row? D.mid,
      DlqAtMost D (net.relay.take n) row.attemptFloor) ∧
    ((net.nodes w).history.fresh = true → ∀ job ∈ (net.nodes w).job,
      ∀ attempt ∈ dlqObserved? job.phase,
        ∃ accepted ∈ net.relay.drop n, IsDlq D accepted.event ∧
          eventAttempt accepted.event = attempt)

structure Level [DecidableEq W] (net : Net W) : Prop extends D.Initial net where
  floors : ∀ w row, (net.nodes w).store.row? D.mid = some row →
    row.attemptFloor ≤ row.attempts

/--
At a retry, the dlq events accepted since the node's last completed terminal
check are not above the row's counter.
-/
def Unopposed (net : Net W) : Action W → Prop
  | .retry w => ∀ row ∈ (net.nodes w).store.row? D.mid,
      DlqAtMost D (net.relay.drop (net.nodes w).history.checked) row.attempts
  | _ => True

instance (net : Net W) (a : Action W) : Decidable (Unopposed D net a) :=
  match a with
  | .retry _ => inferInstanceAs (Decidable (∀ _ ∈ _, _))
  | .advance _ | .other _ | .fetch _ _ | .proceed _ | .query _
  | .publish _ _ _ | .handle _ _ | .fail _ | .lose _ _ _ | .drop _
  | .sweep _ _ => instDecidableTrue

/-! ## The invariant -/

structure Observed (relay : Relay) (history : History W) (attempt : U32) :
    Prop where
  highest : DlqAtMost D (relay.take history.checking) attempt.val
  later : history.fresh = true → ∀ n ∈ history.retried,
    ∃ accepted ∈ relay.drop n, IsDlq D accepted.event ∧
      eventAttempt accepted.event = attempt

structure Informed (relay : Relay) (s : Store) (history : History W) :
    Prop where
  checking : history.checking ≤ relay.length
  checked : history.checked ≤ relay.length
  retried : ∀ n ∈ history.retried, n ≤ relay.length
  floor : ∀ row, s.row? D.mid = some row → row.attemptFloor ≤ row.attempts
  counted : ∀ row, s.row? D.mid = some row →
    DlqAtMost D (relay.take history.checked) row.attempts
  covered : ∀ row, s.row? D.mid = some row → ∀ n ∈ history.retried,
    DlqAtMost D (relay.take n) row.attemptFloor

structure Recorded (relay : Relay) (s : Store) (history : History W)
    (record : MessageRecord) : Prop where
  floor : ∀ row, s.row? D.mid = some row →
    record.attemptFloor.val ≤ row.attempts
  covered : history.fresh = true → ∀ n ∈ history.retried,
    DlqAtMost D (relay.take n) record.attemptFloor.val

structure NodeRetry (relay : Relay) (node : Node W) : Prop where
  informed : Informed D relay node.store node.history
  recorded : ∀ job, node.job = some job →
    Recorded D relay node.store node.history job.record
  observed : ∀ job, node.job = some job →
    ∀ attempt ∈ dlqObserved? job.phase, Observed D relay node.history attempt

end Retry

/-! ## Growing and raising -/

section Lemmas

variable {D : Deployment W} {relay more : Relay} {s s' : Store}
  {history history' : History W}

theorem DlqAtMost.mono {bound bound' : Nat} (h : DlqAtMost D relay bound)
    (hle : bound ≤ bound') : DlqAtMost D relay bound' :=
  fun accepted hmem hdlq => (h accepted hmem hdlq).trans hle

theorem DlqAtMost.of_parts {n bound : Nat}
    (h : DlqAtMost D (relay.take n) bound)
    (h' : DlqAtMost D (relay.drop n) bound) : DlqAtMost D relay bound := by
  intro accepted hmem
  rw [← List.take_append_drop n relay] at hmem
  exact (List.mem_append.mp hmem).elim (h accepted) (h' accepted)

private theorem take_grow {n bound : Nat} (hn : n ≤ relay.length)
    (h : DlqAtMost D (relay.take n) bound) :
    DlqAtMost D ((relay ++ more).take n) bound := by
  rwa [List.take_append_of_le_length hn]

theorem Informed.grow (h : Informed D relay s history) :
    Informed D (relay ++ more) s history where
  checking := h.checking.trans (by simp)
  checked := h.checked.trans (by simp)
  retried n hn := (h.retried n hn).trans (by simp)
  floor := h.floor
  counted row hrow := take_grow h.checked (h.counted row hrow)
  covered row hrow n hn := take_grow (h.retried n hn) (h.covered row hrow n hn)

theorem Recorded.grow {record : MessageRecord}
    (h : Recorded D relay s history record)
    (hi : Informed D relay s history) :
    Recorded D (relay ++ more) s history record where
  floor := h.floor
  covered hfresh n hn := take_grow (hi.retried n hn) (h.covered hfresh n hn)

theorem Observed.grow {attempt : U32} (h : Observed D relay history attempt)
    (hi : Informed D relay s history) :
    Observed D (relay ++ more) history attempt where
  highest := take_grow hi.checking h.highest
  later hfresh n hn := by
    obtain ⟨accepted, hmem, hdlq⟩ := h.later hfresh n hn
    refine ⟨accepted, ?_, hdlq⟩
    rw [List.drop_append_of_le_length (hi.retried n hn)]
    exact List.mem_append_left _ hmem

theorem Informed.raises (h : Informed D relay s history)
    (hs : s.Raises s') : Informed D relay s' history where
  checking := h.checking
  checked := h.checked
  retried := h.retried
  floor row' hrow' := by
    obtain ⟨row, hrow, hle, hfloor⟩ := hs _ row' hrow'
    exact hfloor ▸ (h.floor row hrow).trans hle
  counted row' hrow' := by
    obtain ⟨row, hrow, hle, -⟩ := hs _ row' hrow'
    exact (h.counted row hrow).mono hle
  covered row' hrow' := by
    obtain ⟨row, hrow, -, hfloor⟩ := hs _ row' hrow'
    exact hfloor ▸ h.covered row hrow

theorem Recorded.raises {record : MessageRecord}
    (h : Recorded D relay s history record) (hs : s.Raises s') :
    Recorded D relay s' history record where
  floor row' hrow' := by
    obtain ⟨row, hrow, hle, -⟩ := hs _ row' hrow'
    exact (h.floor row hrow).trans hle
  covered := h.covered

theorem NodeRetry.grow {node : Node W} (h : NodeRetry D relay node) :
    NodeRetry D (relay ++ more) node where
  informed := h.informed.grow
  recorded job hjob := (h.recorded job hjob).grow h.informed
  observed job hjob attempt hattempt :=
    (h.observed job hjob attempt hattempt).grow h.informed

structure SameChecks (history history' : History W) : Prop where
  checking : history'.checking = history.checking
  checked : history'.checked = history.checked
  retried : history'.retried = history.retried
  fresh : history'.fresh = history.fresh

theorem Informed.congr (h : Informed D relay s history)
    (hsame : SameChecks history history') : Informed D relay s history' := by
  obtain ⟨hchecking, hchecked, hretried, -⟩ := hsame
  constructor
  · rw [hchecking]; exact h.checking
  · rw [hchecked]; exact h.checked
  · rw [hretried]; exact h.retried
  · exact h.floor
  · rw [hchecked]; exact h.counted
  · rw [hretried]; exact h.covered

theorem Recorded.congr {record : MessageRecord}
    (h : Recorded D relay s history record)
    (hsame : SameChecks history history') :
    Recorded D relay s history' record := by
  obtain ⟨-, -, hretried, hfresh⟩ := hsame
  refine ⟨h.floor, ?_⟩
  rw [hretried, hfresh]
  exact h.covered

/-! ## What a call has learnt -/

theorem dlqObserved?_proceeds {key : PublicKey} {time : Nat} {job : Job}
    {phase next : JobPhase} (hp : Job.Proceeds key s time job phase s' next) :
    dlqObserved? next = none := by
  cases hp with
  | claimed =>
      unfold Job.afterClaim
      split <;> rfl
  | claim hp =>
      cases hp with
      | enter =>
          unfold ClaimPhase.enter
          split
          · rfl
          · split <;> rfl
      | expire | wake | finish => rfl
  | timeout | settled | settle => rfl

theorem dlqObserved?_answers {key : PublicKey} {events : List Event}
    {phase next : ClaimPhase} (ha : ClaimPhase.Answers key events phase next)
    {attempt : U32} (h : attempt ∈ dlqObserved? (.claiming next)) :
    ∃ call, phase = .during call .terminalCheck ∧
      attempt = ClaimCall.dlqAttempt events ∧
      call.record.attemptFloor < attempt := by
  cases ha with
  | @terminal call =>
      rcases call.afterTerminal_cases events with
        ⟨heq, -⟩ | ⟨heq, -, hlt⟩ | ⟨heq, -⟩ <;> rw [heq] at h
      · contradiction
      · cases h
        exact ⟨call, rfl, rfl, hlt⟩
      · contradiction
  | nacks => contradiction
  | @claims call observed =>
      rcases call.afterSurvey_cases key observed
        (parseClaims events) with
        ⟨_, -, -, heq⟩ | ⟨_, -, -, heq⟩ | ⟨-, heq⟩ <;> rw [heq] at h <;>
        contradiction
  | recheckClaims => contradiction
  | @recheckNacks call observed claims =>
      rcases call.afterRecheck_cases key observed
        claims events with
        ⟨_, -, -, heq⟩ | ⟨-, heq⟩ <;> rw [heq] at h <;> contradiction

theorem dlqAttempt_most {events : List Event}
    (hevents : events = relay.query (terminalFilter D.message)) :
    DlqAtMost D relay (ClaimCall.dlqAttempt events).val := by
  intro accepted haccepted hdlq
  refine ClaimCall.le_dlqAttempt ?_ hdlq.2
  rw [hevents]
  exact Relay.mem_query.mpr ⟨hdlq.1, accepted, haccepted, rfl⟩

theorem dlqAttempt_attained {events : List Event} {floor : U32}
    (hevents : events = relay.query (terminalFilter D.message))
    (hfloor : floor < ClaimCall.dlqAttempt events) :
    ∃ accepted ∈ relay, IsDlq D accepted.event ∧
      eventAttempt accepted.event = ClaimCall.dlqAttempt events := by
  obtain ⟨event, hmem, hattempt⟩ :=
    maxAttempt_attained (lt_of_le_of_lt (Fin.zero_le floor) hfloor)
  obtain ⟨hmem, hkind⟩ := List.mem_filter.mp hmem
  rw [hevents] at hmem
  obtain ⟨hmatch, accepted, haccepted, rfl⟩ := Relay.mem_query.mp hmem
  exact ⟨accepted, haccepted, ⟨hmatch, by simpa using hkind⟩, hattempt⟩

end Lemmas

/-! ## Steps -/

section Steps

variable {D : Deployment W} {net net' : Net W}

private theorem afterQuery_checks (h : History W) (time seen : Nat)
    (job next : Job)
    (hstage : ∀ call, job.phase ≠ .claiming (.during call .terminalCheck)) :
    SameChecks h (h.afterQuery time seen job next) := by
  unfold History.afterQuery
  split
  · next call _ heq _ => exact absurd heq (hstage call)
  · next call heq _ => exact absurd heq (hstage call)
  · exact ⟨rfl, rfl, rfl, rfl⟩
  · exact ⟨rfl, rfl, rfl, rfl⟩
  · exact ⟨rfl, rfl, rfl, rfl⟩

private theorem newHistory_checks (D : Deployment W) (net : Net W) (w : W)
    (events : List Event) (job next : Job) :
    SameChecks ((net.nodes w).history.afterQuery net.time net.relay.length
      job next) (D.newHistory net w events job next) := by
  unfold Deployment.newHistory
  dsimp only
  split <;> exact ⟨rfl, rfl, rfl, rfl⟩

private theorem NodeRetry.withJob {relay : Relay} {store : Store}
    {history : History W} {job : Job}
    (hinformed : Informed D relay store history)
    (hrecorded : Recorded D relay store history job.record)
    (hnone : dlqObserved? job.phase = none) :
    NodeRetry D relay ⟨store, some job, history⟩ where
  informed := hinformed
  recorded _ heq := Option.some.inj heq ▸ hrecorded
  observed job' heq attempt hattempt := by
    cases heq
    rw [hnone] at hattempt
    contradiction

private theorem NodeRetry.terminal {w : W} {job next : Job} {call : ClaimCall}
    {events : List Event} (h : NodeRetry D net.relay (net.nodes w))
    (hjob : (net.nodes w).job = some job)
    (hphase : job.phase = .claiming (.during call .terminalCheck))
    (hrecord : call.record = job.record)
    (hevents : events = net.relay.query (terminalFilter D.message))
    (hnext : next = { job with phase := .claiming (call.afterTerminal events) }) :
    NodeRetry D net.relay ⟨(net.nodes w).store, some next,
      (net.nodes w).history.afterQuery net.time net.relay.length job next⟩ := by
  have hi := h.informed
  have hr := h.recorded job hjob
  have hmost := dlqAttempt_most (D := D) hevents
  have hchecking : Informed D net.relay (net.nodes w).store
      { (net.nodes w).history with checking := net.relay.length } :=
    ⟨le_rfl, hi.checked, hi.retried, hi.floor, hi.counted, hi.covered⟩
  subst hnext
  rcases call.afterTerminal_cases events with
    ⟨heq, -⟩ | ⟨heq, -, hlt⟩ | ⟨heq, -, hle⟩ <;> rw [heq] <;>
    simp only [History.afterQuery, hphase]
  · exact .withJob hchecking ⟨hr.floor, hr.covered⟩ rfl
  · refine ⟨hchecking, fun _ hsome => ?_, fun _ hsome attempt hattempt => ?_⟩
    · cases hsome
      exact ⟨hr.floor, hr.covered⟩
    · cases hsome
      cases hattempt
      refine ⟨by rwa [List.take_length], fun hfresh n hn => ?_⟩
      obtain ⟨accepted, haccepted, hdlq, hattempt⟩ :=
        dlqAttempt_attained hevents hlt
      refine ⟨accepted, ?_, hdlq, hattempt⟩
      rw [← List.take_append_drop n net.relay] at haccepted
      refine (List.mem_append.mp haccepted).resolve_left fun hearly => ?_
      -- an event before the retry is covered by the record's floor
      have := hr.covered hfresh n hn accepted hearly hdlq
      rw [hattempt, ← hrecord] at this
      exact absurd this (not_le.mpr hlt)
  · refine .withJob ⟨le_rfl, le_rfl, hi.retried, hi.floor, fun row hrow => ?_,
      hi.covered⟩ ⟨hr.floor, hr.covered⟩ rfl
    rw [List.take_length]
    rw [hrecord] at hle
    exact hmost.mono ((Fin.le_def.mp hle).trans (hr.floor row hrow))

private theorem Informed.afterProceed {s' : Store} {key : PublicKey}
    {w : W} {time : Nat} {job : Job} {next : JobPhase}
    (h : NodeRetry D net.relay (net.nodes w))
    (hjob : (net.nodes w).job = some job) (hc : JobConcerns D job)
    (hp : Job.Proceeds key (net.nodes w).store time job job.phase s' next) :
    Informed D net.relay s' ((net.nodes w).history.afterProceed job) := by
  have hraised := h.informed.raises hp.raises
  unfold History.afterProceed
  split
  · next call attempt hphase =>
      have hobserved := h.observed job hjob attempt (by rw [hphase]; rfl)
      have hconcerns := hc.phase
      rw [hphase] at hp hconcerns
      refine ⟨hraised.checking, hraised.checking, hraised.retried,
        hraised.floor, fun row' hrow' => hobserved.highest.mono ?_,
        hraised.covered⟩
      cases hp with
      | claim hp =>
          cases hp with
          | finish hf =>
              have hmid : call.record.mid = D.mid :=
                (congrArg _ hconcerns.1).trans hc.mid
              cases ClaimPhase.finishes hf with
              | buried hmoves _ =>
                  rw [hmid] at hmoves
                  obtain ⟨row, -, rfl⟩ := hmoves.moved hrow'
                  exact le_max_right _ _
  · exact hraised

private theorem NodeRetry.query {w : W} {job : Job} {phase after : ClaimPhase}
    {filter : Filter} (h : NodeRetry D net.relay (net.nodes w))
    (hc : JobConcerns D job) (hjob : (net.nodes w).job = some job)
    (hphase : job.phase = .claiming phase)
    (hquery : phase.query? = some filter)
    (ha : ClaimPhase.Answers (D.key w) (net.relay.query filter) phase after) :
    NodeRetry D net.relay ⟨(net.nodes w).store,
      some { job with phase := .claiming after },
      (net.nodes w).history.afterQuery net.time net.relay.length job
        { job with phase := .claiming after }⟩ := by
  have hconcerns := hc.phase
  rw [hphase] at hconcerns
  by_cases hstage : ∃ call, phase = .during call .terminalCheck
  · obtain ⟨call, rfl⟩ := hstage
    cases hquery
    cases ha
    exact h.terminal hjob hphase hconcerns.1 (by rw [hconcerns.2.1]) rfl
  · have hsame := afterQuery_checks (net.nodes w).history net.time
      net.relay.length job { job with phase := .claiming after }
      fun call heq => hstage ⟨call, by
        rw [hphase] at heq
        exact JobPhase.claiming.inj heq⟩
    refine .withJob (h.informed.congr hsame)
      ((h.recorded job hjob).congr hsame) ?_
    refine Option.eq_none_iff_forall_not_mem.mpr fun attempt hattempt => ?_
    obtain ⟨call, heq, -⟩ := dlqObserved?_answers ha hattempt
    exact hstage ⟨call, heq⟩

private theorem NodeRetry.retry {relay : Relay} {node : Node W}
    (h : NodeRetry D relay node)
    (hu : ∀ row ∈ node.store.row? D.mid,
      DlqAtMost D (relay.drop node.history.checked) row.attempts) :
    NodeRetry D relay { node with
      store := (node.store.dlqRetry D.mid).2
      history := { node.history with
        retried := some relay.length, fresh := false } } := by
  have retried : ∀ row', (node.store.dlqRetry D.mid).2.row? D.mid =
      some row' → ∃ row, node.store.row? D.mid = some row ∧
        row'.attempts = row.attempts ∧ row'.attemptFloor = row.attempts := by
    intro row' hrow'
    obtain ⟨row, hrow, rfl⟩ := Store.dlqRetry_moves.moved hrow'
    exact ⟨row, hrow, rfl, rfl⟩
  have hi := h.informed
  refine ⟨⟨hi.checking, hi.checked, by simp, ?_, ?_, ?_⟩, fun job hjob => ⟨?_,
    fun hfresh => by contradiction⟩, fun job hjob attempt hattempt =>
      ⟨(h.observed job hjob attempt hattempt).highest, fun hfresh => by
        contradiction⟩⟩
  · intro row' hrow'
    obtain ⟨row, hrow, hattempts, hfloor⟩ := retried row' hrow'
    rw [hattempts, hfloor]
  · intro row' hrow'
    obtain ⟨row, hrow, hattempts, -⟩ := retried row' hrow'
    exact hattempts ▸ hi.counted row hrow
  · intro row' hrow' n hn
    obtain ⟨row, hrow, -, hfloor⟩ := retried row' hrow'
    cases hn
    rw [List.take_length, hfloor]
    exact .of_parts (hi.counted row hrow) (hu row hrow)
  · intro row' hrow'
    obtain ⟨row, hrow, hattempts, -⟩ := retried row' hrow'
    exact hattempts ▸ (h.recorded job hjob).floor row hrow

variable [DecidableEq W]

theorem Deployment.Step.nodeRetry {a : Action W} {w : W}
    (h : D.Step net a net') (ha : a.actor = some w) (hg : Grounded D net)
    (hu : Unopposed D net a) (hn : NodeRetry D net.relay (net.nodes w)) :
    NodeRetry D net.relay (net'.nodes w) := by
  have settled : ∀ {job : Job} {next : JobPhase} {history : History W},
      (net.nodes w).job = some job → dlqObserved? next = none →
      SameChecks (net.nodes w).history history →
      NodeRetry D net.relay
        ⟨(net.nodes w).store, some { job with phase := next }, history⟩ :=
    fun hjob hnone hsame => .withJob (hn.informed.congr hsame)
      ((hn.recorded _ hjob).congr hsame) hnone
  cases h with
  | advance | other => contradiction
  | @fetch v lease record hidle hget =>
      cases ha
      rw [Net.setNode_self]
      have hi := hn.informed
      obtain ⟨row, hread, hshows⟩ := Store.getMessage_shows hget
      refine .withJob ⟨hi.checking, hi.checked, hi.retried, hi.floor,
        hi.counted, hi.covered⟩ ⟨fun row' hrow' => ?_, fun _ n hretried => ?_⟩ rfl
      · cases hread.symm.trans hrow'
        exact hshows.attemptFloor.trans_le (hi.floor row hread)
      · change DlqAtMost D _ record.attemptFloor.val
        rw [hshows.attemptFloor]
        exact hi.covered row hread n hretried
  | @proceed v job store phase hjob hproceeds =>
      cases ha
      rw [Net.setNode_self]
      refine .withJob (Informed.afterProceed hn hjob (hg.jobs _ _ hjob)
        hproceeds) ?_ (dlqObserved?_proceeds hproceeds)
      have hr := (hn.recorded job hjob).raises hproceeds.raises
      unfold History.afterProceed
      split <;> exact ⟨hr.floor, hr.covered⟩
  | @query v job phase after filter hjob hphase hquery hanswers =>
      cases ha
      rw [D.answered_self]
      have hquery := hn.query (hg.jobs _ _ hjob) hjob hphase hquery hanswers
      have hsame := newHistory_checks D net w
        (net.relay.query filter) job { job with phase := .claiming after }
      refine ⟨hquery.informed.congr hsame, fun job hsome =>
        (hquery.recorded job hsome).congr hsame,
        fun job hsome attempt hattempt => ?_⟩
      have hobserved := hquery.observed job hsome attempt hattempt
      refine ⟨hsame.checking ▸ hobserved.highest, ?_⟩
      rw [hsame.fresh, hsame.retried]
      exact hobserved.later
  | publish hjob hpublishes _ =>
      cases ha
      rw [Net.published_self]
      refine settled hjob ?_ (by split <;> exact ⟨rfl, rfl, rfl, rfl⟩)
      cases hpublishes <;> rfl
  | handle hjob hphase =>
      cases ha
      rw [Net.setNode_self]
      refine settled hjob rfl ?_
      unfold History.afterProceed
      rw [hphase]
      exact ⟨rfl, rfl, rfl, rfl⟩
  | failClaim hjob hphase hawaits =>
      cases ha
      rw [Net.setNode_self]
      refine settled hjob rfl ?_
      unfold History.afterProceed
      split
      · next heq =>
          rw [hphase] at heq
          cases heq
          contradiction
      · exact ⟨rfl, rfl, rfl, rfl⟩
  | failSettle hjob hphase =>
      cases ha
      rw [Net.setNode_self]
      refine settled hjob rfl ?_
      unfold History.afterProceed
      rw [hphase]
      exact ⟨rfl, rfl, rfl, rfl⟩
  | lose hjob hloses _ =>
      cases ha
      rw [Net.published_self]
      refine settled hjob ?_ (by split <;> exact ⟨rfl, rfl, rfl, rfl⟩)
      cases hloses <;> rfl
  | drop =>
      cases ha
      rw [Net.setNode_self]
      exact ⟨hn.informed.congr ⟨rfl, rfl, rfl, rfl⟩, by simp, by simp⟩
  | sweep =>
      cases ha
      rw [Net.setNode_self]
      exact ⟨hn.informed.raises (Store.expireDue_raises _ _), fun job hjob =>
        (hn.recorded job hjob).raises (Store.expireDue_raises _ _),
        hn.observed⟩
  | retry =>
      cases ha
      rw [Net.setNode_self]
      exact hn.retry hu

theorem retryInv (h : (D.system.startingIn (Level D)).Reach (Unopposed D)
    net) : ∀ w, NodeRetry D net.relay (net.nodes w) := by
  refine h.invariant (I := fun net => ∀ w, NodeRetry D net.relay
    (net.nodes w)) (fun net h₀ w => ?_) ?_
  · refine ⟨?_, fun job hjob => by simp [h₀.idle w] at hjob,
      fun job hjob => by simp [h₀.idle w] at hjob⟩
    rw [h₀.history w, h₀.relay]
    exact ⟨le_rfl, le_rfl, by simp, h₀.floors w, by simp [DlqAtMost],
      by simp⟩
  · intro net a net' hreach hi hu hs w
    have hr : D.system.Reach (Unopposed D) net :=
      hreach.restart fun _ h₀ => h₀.toInitial
    have hstep := Deployment.step_cases hs
    obtain ⟨more, hmore⟩ := hstep.relay_grows
    rw [hmore]
    by_cases ha : a.actor = some w
    · exact (hstep.nodeRetry ha (grounded hr) hu (hi w)).grow
    · rw [(hstep.frame ha).node]
      exact (hi w).grow

end Steps

theorem pairStart_level (maxAttempts : U32) :
    Level pair (pairStart maxAttempts) where
  toInitial := pairStart_initial maxAttempts
  floors _ row h := by
    rcases Messages.row?_insert h with hold | rfl
    · contradiction
    · exact le_rfl

def buryRun (w : Peer) (nack dlq : EventId) : List (Action Peer) :=
  [.proceed w, .handle w (.failure "boom"), .proceed w, .proceed w, .proceed w,
    .publish w 0 nack, .publish w 0 dlq, .proceed w]

/--
With one attempt allowed, the first worker dead-letters the message at attempt
1.  The second one learns of it, retries it, wins at attempt 1 and dead-letters
it at attempt 2.  Now the first retries: its floor is 1, and its next call dies
of the dlq event of attempt 2.
-/
def opposedRun : List (Action Peer) :=
  winningRun ++ buryRun .first (hexOf 'b') (hexOf 'c') ++
    [.fetch .second 60, .proceed .second, .query .second, .proceed .second, .drop .second, .retry .second,
      .fetch .second 60, .proceed .second, .query .second, .query .second, .query .second,
      .publish .second 0 (hexOf 'd'), .advance 400, .proceed .second, .query .second,
      .query .second, .proceed .second] ++ buryRun .second (hexOf 'f') (hexOf '0') ++
    [.retry .first, .drop .first, .fetch .first 60, .proceed .first, .query .first]

private def undone (net : Net Peer) : Bool :=
  decide (((net.nodes .first).job.bind fun job => dlqObserved? job.phase) = some 2) &&
    ((net.nodes .first).history.retried.any fun n =>
      ((net.nodes .first).store.row? pair.mid).any fun row =>
        !decide (DlqAtMost pair (net.relay.take n) row.attemptFloor))

private theorem undone_of_opposedRun :
    (pair.system.run System.Free (pairStart 1) opposedRun).any undone =
      true := by
  decide +kernel

end NostrQ.Cluster
