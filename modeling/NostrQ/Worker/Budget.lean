import NostrQ.Database.Decoding
import NostrQ.Worker.Solo

/-!
# The retry budget of one node

The counter of the row is the number of nacks on the relay, but for the moment
between counting a nack and publishing it.  The floor is what it was at the last
retry from the dead letters, and so the difference is what the current budget
has spent: the stage of the budget is read off the row.
-/

namespace NostrQ.Worker

open NostrQ.Foundation NostrQ.Foundation.Budget NostrQ.Core NostrQ.Database
open NostrQ.Sdk

variable {Value : Type}

/-! ## The relay -/

section Relay

variable (S : SoloSetup Value)

/-- The nacks count up, and no claim is ahead of them. -/
structure RelayOk (relay : Relay) : Prop where
  nacks : S.nackedAttempts relay = List.range' 1 (S.nacks relay)
  claims : ∀ c ∈ parseClaims (relay.query (claimFilter S.message)),
    c.attempt.val ≤ S.nacks relay

def DlqAbove (relay : Relay) (floor : Nat) : Prop :=
  ∃ event ∈ relay.query (terminalFilter S.message),
    event.kind = KIND_DLQ ∧ floor < (eventAttempt event).val

variable {S} {relay : Relay} {accepted : Accepted}

theorem RelayOk.maxAttempt (h : RelayOk S relay) :
    (maxAttempt (relay.query (nackFilter S.message))).val = S.nacks relay := by
  have hmem : ∀ attempt, attempt ∈ S.nackedAttempts relay ↔
      1 ≤ attempt ∧ attempt < 1 + S.nacks relay := by
    intro attempt
    rw [h.nacks, List.mem_range'_1]
  refine Nat.le_antisymm ?_ ?_
  · rcases (Nat.zero_le (Core.maxAttempt _).val).eq_or_lt with hzero | hpos
    · exact hzero ▸ Nat.zero_le _
    · obtain ⟨event, hevent, heq⟩ := maxAttempt_attained hpos
      have hattempt := (hmem _).mp (List.mem_map_of_mem hevent)
      rw [heq] at hattempt
      omega
  · rcases (Nat.zero_le (S.nacks relay)).eq_or_lt with hzero | hpos
    · exact hzero ▸ Nat.zero_le _
    · obtain ⟨event, hevent, heq⟩ := List.mem_map.mp
        ((hmem (S.nacks relay)).mpr ⟨hpos, by omega⟩)
      exact heq ▸ le_maxAttempt hevent

theorem RelayOk.of_unrelated
    (h : ∀ accepted ∈ relay, Unrelated S.message accepted.event) :
    RelayOk S relay ∧ S.nacks relay = 0 := by
  have hnone : ∀ filter : Filter,
      (∀ accepted ∈ relay, filter.matchEvent accepted.event = false) →
      relay.query filter = [] := by
    intro filter hfilter
    refine List.eq_nil_iff_forall_not_mem.mpr fun event hevent => ?_
    obtain ⟨hmatch, accepted, hmem, rfl⟩ := Relay.mem_query.mp hevent
    rw [hfilter accepted hmem] at hmatch
    contradiction
  have hnacks := hnone _ fun accepted hmem => (h accepted hmem).2.1
  have hclaims := hnone _ fun accepted hmem => (h accepted hmem).1
  have hzero : S.nacks relay = 0 := by simp [SoloSetup.nacks, hnacks]
  refine ⟨⟨?_, ?_⟩, hzero⟩
  · simp [SoloSetup.nackedAttempts, hnacks, hzero]
  · simp [hclaims, parseClaims]

theorem DlqAbove.mono {floor : Nat} (h : DlqAbove S relay floor)
    (more : Relay) : DlqAbove S (relay ++ more) floor := by
  obtain ⟨event, hevent, hdlq⟩ := h
  refine ⟨event, ?_, hdlq⟩
  rw [Relay.query_append]
  exact List.mem_append_left _ hevent

theorem nacks_push (relay : Relay) (accepted : Accepted) :
    S.nacks (relay ++ [accepted]) = S.nacks relay +
      if (nackFilter S.message).matchEvent accepted.event then 1 else 0 := by
  rw [SoloSetup.nacks, SoloSetup.nacks, Relay.query_concat, List.length_append]
  split <;> rfl

theorem nackedAttempts_push (relay : Relay) (accepted : Accepted) :
    S.nackedAttempts (relay ++ [accepted]) = S.nackedAttempts relay ++
      if (nackFilter S.message).matchEvent accepted.event then
        [(eventAttempt accepted.event).val] else [] := by
  rw [SoloSetup.nackedAttempts, SoloSetup.nackedAttempts, Relay.query_concat,
    List.map_append]
  split <;> rfl

theorem RelayOk.push (h : RelayOk S relay)
    (hnack : (nackFilter S.message).matchEvent accepted.event = true →
      (eventAttempt accepted.event).val = S.nacks relay + 1)
    (hclaim : (claimFilter S.message).matchEvent accepted.event = true →
      (eventAttempt accepted.event).val ≤ S.nacks relay) :
    RelayOk S (relay ++ [accepted]) := by
  have hpush := nacks_push (S := S) relay accepted
  refine ⟨?_, ?_⟩
  · rw [nackedAttempts_push, h.nacks, hpush]
    by_cases hmatch : (nackFilter S.message).matchEvent accepted.event = true
    · rw [if_pos hmatch, if_pos hmatch, hnack hmatch, List.range'_concat]
      simp [Nat.add_comm]
    · rw [if_neg hmatch, if_neg hmatch, List.append_nil, Nat.add_zero]
  · intro c hc
    have hle : S.nacks relay ≤ S.nacks (relay ++ [accepted]) := by
      rw [hpush]
      exact Nat.le_add_right _ _
    rw [Relay.query_append, parseClaims_append] at hc
    rcases List.mem_append.mp hc with hold | hnew
    · exact (h.claims c hold).trans hle
    · obtain ⟨event, hevent, hparse⟩ := mem_parseClaims.mp hnew
      obtain ⟨hmatch, last, hlast, rfl⟩ := Relay.mem_query.mp hevent
      rw [List.mem_singleton.mp hlast] at hmatch hparse
      rw [(parseClaimEvent_ok hparse).2.2]
      exact (hclaim hmatch).trans hle

theorem RelayOk.push_quiet (h : RelayOk S relay) (time : Nat) {event : Event}
    (hnack : (nackFilter S.message).matchEvent event = false)
    (hclaim : (claimFilter S.message).matchEvent event = true →
      (eventAttempt event).val ≤ S.nacks relay) :
    RelayOk S (relay ++ [⟨time, event⟩]) ∧
      S.nacks (relay ++ [⟨time, event⟩]) = S.nacks relay := by
  refine ⟨h.push (fun hmatch => ?_) hclaim, ?_⟩
  · rw [hnack] at hmatch
    contradiction
  · rw [nacks_push, hnack]
    rfl

theorem nackFilter_of_kind {event : Event} (h : event.kind ≠ KIND_NACK) :
    (nackFilter S.message).matchEvent event = false :=
  Bool.eq_false_iff.mpr fun hmatch => h (nackFilter_kind hmatch)

end Relay

/-! ## The row and the job -/

section Facts

/-- The row's counter is `count`, and `spent` of it belong to this budget. -/
structure Level (count spent : Nat) (row : Row) : Prop where
  status : row.status ≠ .dead
  attempts : row.attempts = count
  floor : row.attemptFloor + spent = count

structure Buried (S : SoloSetup Value) (relay : Relay) (count : Nat)
    (row : Row) : Prop where
  status : row.status = .dead
  attempts : row.attempts = count
  dlq : DlqAbove S relay row.attemptFloor

variable (S : SoloSetup Value)

/-- What a record of the message can say, however old it is. -/
structure Knows (row : Row) (record : MessageRecord) : Prop where
  mid : record.mid = S.mid
  eventId : Hex32.fromHex record.eventId = some S.message
  attempts : record.attempts.val ≤ row.attempts
  attemptFloor : record.attemptFloor.val ≤ row.attemptFloor

structure Names (row : Row) (call : SettleCall) : Prop where
  mid : call.record.mid = S.mid
  queue : call.record.queue = row.queue
  attemptFloor : call.record.attemptFloor.val = row.attemptFloor
  message : call.message = S.message

variable (limit : U32) (relay : Relay) (count : Nat) (row : Row)
  (stage : Stage)

def Rests : Prop :=
  S.nacks relay = count ∧
    match stage with
    | .ready spent => Level count spent row
    | .running _ => False
    | .closed => Buried S relay count row

def Runs : Prop :=
  S.nacks relay = count ∧ ∃ spent, stage = .running spent ∧
    Level count spent row

def Failed (spent : Nat) : Prop :=
  S.nacks relay = count + 1 ∧ Level (count + 1) (spent + 1) row

def CountFacts : ClaimStage → Prop
  | .terminalCheck | .ackObserved | .dlqObserved _ => True
  | .surveyNacks => ∃ spent, stage = .ready spent
  | .surveyClaims observed | .contending observed | .settling observed _
  | .recheckClaims observed | .recheckNacks observed _
  | .contendWon observed =>
      (∃ spent, stage = .ready spent) ∧ observed.val = count
  | .recognised winner =>
      (∃ spent, stage = .ready spent) ∧ winner.attempt.val ≤ count

def ClaimFacts : ClaimPhase → Prop
  | .entering record _ _ => Knows S row record
  | .expiring _ _ => True
  | .during call point => call.message = S.message ∧ Knows S row call.record ∧
      CountFacts count stage point
  | .returned result => result = .ok true → ∃ spent, stage = .ready spent

def NackFacts (spent : Nat) : SettleStage → Prop
  | .ackPublishing | .ackAccepted => False
  | .configuring _ => S.nacks relay = count ∧ Level count spent row
  | .counting _ config => (S.nacks relay = count ∧ Level count spent row) ∧
      config.maxAttempts = limit
  | .nackPublishing _ config attempts =>
      (S.nacks relay = count ∧ Level (count + 1) (spent + 1) row) ∧
        attempts.val = count + 1 ∧ config.maxAttempts = limit
  | .dlqPublishing _ attempts => Failed S relay count row spent ∧
      attempts.val = count + 1 ∧ spent + 1 = limit.val
  | .dlqAccepted _ => Failed S relay count row spent ∧
      DlqAbove S relay row.attemptFloor ∧ spent + 1 = limit.val
  | .requeueing _ _ => Failed S relay count row spent ∧ spent + 1 < limit.val

def SettleFacts : SettlePhase → Prop
  | .acking _ => False
  | .nacking mid _ => mid = S.mid ∧ Runs S relay count row stage
  | .during call point => Names S row call ∧ ∃ spent, stage = .running spent ∧
      NackFacts S limit relay count row spent point
  | .settled (.ok (.nacked _)) => Rests S relay count row stage
  | .settled _ => (∃ spent, stage = .running spent) ∧ row.status ≠ .dead

def PhaseFacts : JobPhase → Prop
  | .claiming phase => Rests S relay count row stage ∧
      ClaimFacts S count row stage phase
  | .handling _ _ => Runs S relay count row stage
  | .settling phase => SettleFacts S limit relay count row stage phase
  | .finished => Rests S relay count row stage

def JobFacts : Option Job → Prop
  | none => Rests S relay count row stage
  | some job => job.record.mid = S.mid ∧
      PhaseFacts S limit relay count row stage job.phase

end Facts

/-- The log follows the stage of the budget that the row and the job show. -/
structure InvAt (S : SoloSetup Value) (limit : U32) (p : Solo) (row : Row)
    (stage : Stage) : Prop where
  stored : p.store.row? S.mid = some row
  named : Hex32.fromHex row.eventId = some S.message
  floor : row.attemptFloor ≤ row.attempts
  board : RelayOk S p.relay
  known : ∀ record ∈ p.records, Knows S row record
  follows : Follows limit.val p.log stage
  job : JobFacts S limit p.relay (failures p.log) row stage p.job

def Inv (S : SoloSetup Value) (limit : U32) (p : Solo) : Prop :=
  ∃ row stage, InvAt S limit p row stage

/-! ### What the budget does not notice -/

section Calm

variable (S : SoloSetup Value)

structure Calm (relay : Relay) (row : Row) (relay' : Relay) (row' : Row) :
    Prop where
  nacks : S.nacks relay' = S.nacks relay
  dlq : ∀ floor, DlqAbove S relay floor → DlqAbove S relay' floor
  attempts : row'.attempts = row.attempts
  attemptFloor : row'.attemptFloor = row.attemptFloor
  queue : row'.queue = row.queue
  eventId : row'.eventId = row.eventId
  dead : row'.status = .dead ↔ row.status = .dead

variable {S} {limit : U32} {relay relay' : Relay} {count spent : Nat}
  {row row' : Row} {stage : Stage}

theorem Calm.push {accepted : Accepted}
    (hnacks : S.nacks (relay ++ [accepted]) = S.nacks relay) :
    Calm S relay row (relay ++ [accepted]) row :=
  ⟨hnacks, fun _ hdlq => hdlq.mono _, rfl, rfl, rfl, rfl, Iff.rfl⟩

theorem Calm.of_set {progress : Progress}
    (hattempts : progress.attempts = row.attempts)
    (hfloor : progress.attemptFloor = row.attemptFloor)
    (hdead : progress.status = .dead ↔ row.status = .dead) :
    Calm S relay row relay (row.set progress) :=
  ⟨rfl, fun _ hdlq => hdlq, hattempts, hfloor, rfl, rfl, hdead⟩

variable (h : Calm S relay row relay' row')

include h

theorem Calm.level (hl : Level count spent row) : Level count spent row' :=
  ⟨fun hdead => hl.status (h.dead.mp hdead), h.attempts.trans hl.attempts,
    by rw [h.attemptFloor, hl.floor]⟩

theorem Calm.knows {record : MessageRecord} (hk : Knows S row record) :
    Knows S row' record :=
  ⟨hk.mid, hk.eventId, hk.attempts.trans h.attempts.ge,
    hk.attemptFloor.trans h.attemptFloor.ge⟩

theorem Calm.names {call : SettleCall} (hn : Names S row call) :
    Names S row' call :=
  ⟨hn.mid, hn.queue.trans h.queue.symm,
    hn.attemptFloor.trans h.attemptFloor.symm, hn.message⟩

theorem Calm.rests (hr : Rests S relay count row stage) :
    Rests S relay' count row' stage := by
  refine ⟨h.nacks.trans hr.1, ?_⟩
  cases stage with
  | ready spent => exact h.level hr.2
  | running spent => exact hr.2
  | closed =>
      exact ⟨h.dead.mpr hr.2.status, h.attempts.trans hr.2.attempts,
        h.attemptFloor ▸ h.dlq _ hr.2.dlq⟩

theorem Calm.runs (hr : Runs S relay count row stage) :
    Runs S relay' count row' stage := by
  obtain ⟨hcount, spent, hstage, hlevel⟩ := hr
  exact ⟨h.nacks.trans hcount, spent, hstage, h.level hlevel⟩

theorem Calm.failed (hf : Failed S relay count row spent) :
    Failed S relay' count row' spent :=
  ⟨h.nacks.trans hf.1, h.level hf.2⟩

theorem Calm.claimFacts {phase : ClaimPhase}
    (hc : ClaimFacts S count row stage phase) :
    ClaimFacts S count row' stage phase := by
  cases phase with
  | entering record _ _ => exact h.knows hc
  | expiring _ _ => trivial
  | during call point => exact ⟨hc.1, h.knows hc.2.1, hc.2.2⟩
  | returned result => exact hc

theorem Calm.nackFacts {point : SettleStage}
    (hn : NackFacts S limit relay count row spent point) :
    NackFacts S limit relay' count row' spent point := by
  cases point with
  | ackPublishing | ackAccepted => exact hn
  | configuring _ => exact ⟨h.nacks.trans hn.1, h.level hn.2⟩
  | counting _ _ => exact ⟨⟨h.nacks.trans hn.1.1, h.level hn.1.2⟩, hn.2⟩
  | nackPublishing _ _ _ =>
      exact ⟨⟨h.nacks.trans hn.1.1, h.level hn.1.2⟩, hn.2⟩
  | dlqPublishing _ _ => exact ⟨h.failed hn.1, hn.2⟩
  | dlqAccepted _ =>
      exact ⟨h.failed hn.1, h.attemptFloor ▸ h.dlq _ hn.2.1, hn.2.2⟩
  | requeueing _ _ => exact ⟨h.failed hn.1, hn.2⟩

theorem Calm.settleFacts {phase : SettlePhase}
    (hs : SettleFacts S limit relay count row stage phase) :
    SettleFacts S limit relay' count row' stage phase := by
  unfold SettleFacts at hs ⊢
  split at hs
  · exact hs
  · exact ⟨hs.1, h.runs hs.2⟩
  · obtain ⟨hnames, spent, hstage, hfacts⟩ := hs
    exact ⟨h.names hnames, spent, hstage, h.nackFacts hfacts⟩
  · exact h.rests hs
  · exact ⟨hs.1, fun hdead => hs.2 (h.dead.mp hdead)⟩

theorem Calm.phaseFacts {phase : JobPhase}
    (hp : PhaseFacts S limit relay count row stage phase) :
    PhaseFacts S limit relay' count row' stage phase := by
  cases phase with
  | claiming phase => exact ⟨h.rests hp.1, h.claimFacts hp.2⟩
  | handling _ _ => exact h.runs hp
  | settling phase => exact h.settleFacts hp
  | finished => exact h.rests hp

theorem Calm.jobFacts {job : Option Job}
    (hj : JobFacts S limit relay count row stage job) :
    JobFacts S limit relay' count row' stage job := by
  cases job with
  | none => exact h.rests hj
  | some job => exact ⟨hj.1, h.phaseFacts hj.2⟩

end Calm

section Environment

variable {S : SoloSetup Value} {limit : U32} {p p' : Solo} {row row' : Row}
  {stage : Stage}

theorem InvAt.calm (h : InvAt S limit p row stage)
    (hcalm : Calm S p.relay row p'.relay row')
    (hstored : p'.store.row? S.mid = some row') (hboard : RelayOk S p'.relay)
    (hrecords : p'.records = p.records) (hjob : p'.job = p.job)
    (hlog : p'.log = p.log) : InvAt S limit p' row' stage where
  stored := hstored
  named := hcalm.eventId ▸ h.named
  floor := by
    rw [hcalm.attemptFloor, hcalm.attempts]
    exact h.floor
  board := hboard
  known := by
    rw [hrecords]
    exact fun record hrecord => hcalm.knows (h.known record hrecord)
  follows := hlog ▸ h.follows
  job := by
    rw [hjob, hlog]
    exact hcalm.jobFacts h.job

theorem InvAt.sweep (h : InvAt S limit p row stage) (queue : String) :
    ∃ row', InvAt S limit
      { p with store := (p.store.expireDue queue (timestamp p.time)).2 }
      row' stage := by
  have hrow := Store.expireDue_row? (s := p.store) queue (timestamp p.time) S.mid
  rw [h.stored, Option.map_some] at hrow
  refine ⟨_, h.calm ?_ hrow h.board rfl rfl rfl⟩
  split
  · next hdue =>
      refine .of_set rfl rfl ?_
      rcases hdue.2.1 with hpending | hclaimed
      · simp [hpending]
      · simp [hclaimed]
  · exact ⟨rfl, fun _ hdlq => hdlq, rfl, rfl, rfl, rfl, Iff.rfl⟩

section Grant

variable {relay : Relay} {count : Nat}

theorem Rests.closed (h : Rests S relay count row stage)
    (hdead : row.status = .dead) :
    stage = .closed ∧
      Rests S relay count (row.set row.toProgress.retry) (.ready 0) := by
  obtain ⟨hcount, hstage⟩ := h
  cases stage with
  | ready spent => exact absurd hdead hstage.status
  | running spent => exact hstage.elim
  | closed => exact ⟨rfl, hcount, by simp, hstage.attempts, hstage.attempts⟩

theorem CountFacts.of_closed {point : ClaimStage}
    (h : CountFacts count .closed point) : CountFacts count stage point := by
  cases point with
  | terminalCheck | ackObserved | dlqObserved _ => trivial
  | surveyNacks =>
      obtain ⟨spent, hstage⟩ := h
      contradiction
  | surveyClaims _ | contending _ | settling _ _ | recheckClaims _
  | recheckNacks _ _ | contendWon _ | recognised _ =>
      obtain ⟨⟨spent, hstage⟩, -⟩ := h
      contradiction

theorem ClaimFacts.granted {phase : ClaimPhase}
    (h : ClaimFacts S count row .closed phase)
    (hfloor : row.attemptFloor ≤ row.attempts) :
    ClaimFacts S count (row.set row.toProgress.retry) (.ready 0) phase := by
  have hknows : ∀ {record : MessageRecord}, Knows S row record →
      Knows S (row.set row.toProgress.retry) record := fun hk =>
    ⟨hk.mid, hk.eventId, hk.attempts, hk.attemptFloor.trans hfloor⟩
  cases phase with
  | entering record _ _ => exact hknows h
  | expiring _ _ => trivial
  | during call point => exact ⟨h.1, hknows h.2.1, h.2.2.of_closed⟩
  | returned result => exact fun _ => ⟨0, rfl⟩

theorem SettleFacts.closed {phase : SettlePhase}
    (h : SettleFacts S limit relay count row stage phase)
    (hdead : row.status = .dead) : Rests S relay count row stage ∧
      ∃ outcome, phase = .settled (.ok (.nacked outcome)) := by
  unfold SettleFacts at h
  split at h
  · exact h.elim
  · obtain ⟨-, -, spent, -, hlevel⟩ := h
    exact absurd hdead hlevel.status
  · next call point =>
      obtain ⟨-, spent, -, hfacts⟩ := h
      refine absurd hdead ?_
      cases point with
      | ackPublishing | ackAccepted => exact hfacts.elim
      | configuring _ => exact hfacts.2.status
      | counting _ _ | nackPublishing _ _ _ => exact hfacts.1.2.status
      | dlqPublishing _ _ | dlqAccepted _ | requeueing _ _ =>
          exact hfacts.1.2.status
  · next outcome => exact ⟨h, outcome, rfl⟩
  · exact absurd hdead h.2

/-- A dead row belongs to a closed budget, and its retry opens the next one. -/
theorem PhaseFacts.granted {phase : JobPhase}
    (h : PhaseFacts S limit relay count row stage phase)
    (hfloor : row.attemptFloor ≤ row.attempts) (hdead : row.status = .dead) :
    stage = .closed ∧ PhaseFacts S limit relay count
      (row.set row.toProgress.retry) (.ready 0) phase := by
  cases phase with
  | claiming phase =>
      obtain ⟨rfl, hrests⟩ := h.1.closed hdead
      exact ⟨rfl, hrests, h.2.granted hfloor⟩
  | handling _ _ =>
      obtain ⟨-, spent, -, hlevel⟩ := h
      exact absurd hdead hlevel.status
  | settling phase =>
      obtain ⟨hold, outcome, rfl⟩ := SettleFacts.closed h hdead
      exact hold.closed hdead
  | finished => exact Rests.closed h hdead

theorem JobFacts.granted {job : Option Job}
    (h : JobFacts S limit relay count row stage job)
    (hfloor : row.attemptFloor ≤ row.attempts) (hdead : row.status = .dead) :
    stage = .closed ∧ JobFacts S limit relay count
      (row.set row.toProgress.retry) (.ready 0) job := by
  cases job with
  | none => exact Rests.closed h hdead
  | some job =>
      obtain ⟨hstage, hphase⟩ := h.2.granted hfloor hdead
      exact ⟨hstage, h.1, hphase⟩

end Grant

theorem InvAt.dlqRetry (h : InvAt S limit p row stage)
    (hdead : row.status = .dead) :
    InvAt S limit { p with
      store := (p.store.dlqRetry S.mid).2
      log := p.log ++ [.granted] } (row.set row.toProgress.retry)
      (.ready 0) := by
  obtain ⟨rfl, hjob⟩ := h.job.granted h.floor hdead
  refine ⟨?_, h.named, le_rfl, h.board, fun record hrecord => ?_,
    h.follows.extend .grant, ?_⟩
  · exact Store.dlqRetry_moves.row h.stored
  · have hknows := h.known record hrecord
    exact ⟨hknows.mid, hknows.eventId, hknows.attempts,
      hknows.attemptFloor.trans h.floor⟩
  · rw [failures_append]
    exact hjob

theorem InvAt.read (h : InvAt S limit p row stage) {record : MessageRecord}
    (hread : p.store.getMessage S.mid = .ok (some record)) :
    InvAt S limit { p with records := p.records ++ [record] } row stage := by
  obtain ⟨found, hfound, hshows⟩ := Store.getMessage_shows hread
  cases h.stored.symm.trans hfound
  refine { h with known := fun other hother => ?_ }
  rcases List.mem_append.mp hother with hold | hnew
  · exact h.known other hold
  · rw [List.mem_singleton.mp hnew]
    exact ⟨hshows.mid.trans (Messages.row?_mem h.stored).2,
      hshows.eventId ▸ h.named, hshows.attempts.le, hshows.attemptFloor.le⟩

theorem InvAt.rests (h : InvAt S limit p row stage) (hdone : Done p.job) :
    Rests S p.relay (failures p.log) row stage := by
  have hfacts := h.job
  cases hjob : p.job with
  | none =>
      rw [hjob] at hfacts
      exact hfacts
  | some job =>
      rw [hjob] at hfacts hdone
      have hphase := hfacts.2
      rw [show job.phase = .finished from hdone] at hphase
      exact hphase

theorem InvAt.spawn (h : InvAt S limit p row stage) {record : MessageRecord}
    {leaseSeconds : U64} (hrecord : record ∈ p.records) (hdone : Done p.job) :
    InvAt S limit
      { p with job := some (.spawn record leaseSeconds S.settleMs) } row
      stage := by
  have hknows := h.known record hrecord
  exact { h with job := ⟨hknows.mid, h.rests hdone, hknows⟩ }

end Environment

/-! ### Steps of a job -/

section Steps

variable {S : SoloSetup Value} {limit : U32} {p : Solo} {row row' : Row}
  {stage stage' : Stage} {job : Job} {relay : Relay} {store : Store}
  {phase : JobPhase} {count : Nat}

structure Grows (row row' : Row) : Prop where
  eventId : row'.eventId = row.eventId
  attempts : row.attempts ≤ row'.attempts
  attemptFloor : row'.attemptFloor = row.attemptFloor

theorem Grows.refl (row : Row) : Grows row row := ⟨rfl, le_rfl, rfl⟩

theorem Grows.knows {record : MessageRecord} (h : Grows row row')
    (hk : Knows S row record) : Knows S row' record :=
  ⟨hk.mid, hk.eventId, hk.attempts.trans h.attempts,
    hk.attemptFloor.trans h.attemptFloor.ge⟩

theorem InvAt.mid (h : InvAt S limit p row stage) (hjob : p.job = some job) :
    job.record.mid = S.mid := by
  have hfacts := h.job
  rw [hjob] at hfacts
  exact hfacts.1

theorem InvAt.facts (h : InvAt S limit p row stage) (hjob : p.job = some job) :
    PhaseFacts S limit p.relay (failures p.log) row stage job.phase := by
  have hfacts := h.job
  rw [hjob] at hfacts
  exact hfacts.2

private theorem InvAt.resumed (h : InvAt S limit p row stage)
    (hjob : p.job = some job) (hstored : store.row? S.mid = some row')
    (hgrows : Grows row row') (hboard : RelayOk S relay)
    (hfollows : Follows limit.val (p.log ++ S.marks phase) stage')
    (hphase : PhaseFacts S limit relay (failures (p.log ++ S.marks phase)) row'
      stage' phase) : Inv S limit (p.resumed S relay store job phase) := by
  have hmid : job.record.mid = S.mid := h.mid hjob
  exact ⟨row', stage', {
    stored := hstored
    named := hgrows.eventId ▸ h.named
    floor := hgrows.attemptFloor.le.trans (h.floor.trans hgrows.attempts)
    board := hboard
    known := fun record hrecord => hgrows.knows (h.known record hrecord)
    follows := hfollows
    job := ⟨hmid, hphase⟩ }⟩

theorem InvAt.silent (h : InvAt S limit p row stage) (hjob : p.job = some job)
    (hstored : store.row? S.mid = some row') (hgrows : Grows row row')
    (hboard : RelayOk S relay) (hmarks : S.marks phase = [])
    (hphase : PhaseFacts S limit relay (failures p.log) row' stage phase) :
    Inv S limit (p.resumed S relay store job phase) := by
  have hlog : p.log ++ S.marks phase = p.log := by rw [hmarks, List.append_nil]
  exact h.resumed hjob hstored hgrows hboard (hlog.symm ▸ h.follows)
    (hlog.symm ▸ hphase)

theorem InvAt.marked {mark : Mark} (h : InvAt S limit p row stage)
    (hjob : p.job = some job) (hstored : store.row? S.mid = some row')
    (hgrows : Grows row row') (hboard : RelayOk S relay)
    (hmarks : S.marks phase = [mark])
    (hstep : Budget.Step limit.val stage mark stage')
    (hphase : PhaseFacts S limit relay (failures p.log + failures [mark]) row'
      stage' phase) : Inv S limit (p.resumed S relay store job phase) := by
  have hfollows := h.follows.extend hstep
  rw [← failures_append] at hphase
  rw [← hmarks] at hfollows hphase
  exact h.resumed hjob hstored hgrows hboard hfollows hphase

/-- The relay answers a call with what its nacks and its dead letters say. -/
theorem ClaimFacts.answers {phase next : ClaimPhase} {filter : Filter}
    (hboard : RelayOk S relay) (hrests : Rests S relay count row stage)
    (h : ClaimFacts S count row stage phase)
    (hquery : phase.query? = some filter)
    (hanswers : ClaimPhase.Answers S.key (relay.query filter) phase next) :
    ClaimFacts S count row stage next := by
  cases hanswers with
  | @terminal call =>
      cases hquery
      obtain ⟨hmessage, hknows, -⟩ := h
      rcases call.afterTerminal_cases (relay.query (terminalFilter
        call.message)) with ⟨heq, -⟩ | ⟨heq, -⟩ | ⟨heq, -, hle⟩
      · exact heq ▸ ⟨hmessage, hknows, trivial⟩
      · exact heq ▸ ⟨hmessage, hknows, trivial⟩
      · refine heq ▸ ⟨hmessage, hknows, ?_⟩
        cases stage with
        | ready spent => exact ⟨spent, rfl⟩
        | running spent => exact hrests.2.elim
        | closed =>
            -- The dead letter is above the floor of every record.
            obtain ⟨event, hevent, hkind, habove⟩ := hrests.2.dlq
            rw [hmessage] at hle
            have hdlq := ClaimCall.le_dlqAttempt hevent hkind
            have hfloor := hknows.attemptFloor
            rw [Fin.le_def] at hle hdlq
            omega
  | nacks =>
      cases hquery
      obtain ⟨hmessage, hknows, hready⟩ := h
      refine ⟨hmessage, hknows, hready, ?_⟩
      rw [hmessage, hboard.maxAttempt, hrests.1]
  | @claims call observed =>
      cases hquery
      obtain ⟨hmessage, hknows, hready, hobserved⟩ := h
      rcases call.afterSurvey_cases S.key observed (parseClaims (relay.query
        (claimFilter call.message))) with
        ⟨winner, hwinner, -, heq⟩ | ⟨_, -, -, heq⟩ | ⟨-, heq⟩
      · refine heq ▸ ⟨hmessage, hknows, hready, ?_⟩
        have hclaim := (claimWinner_mem hwinner).1
        rw [hmessage] at hclaim
        exact hrests.1 ▸ hboard.claims winner hclaim
      · rw [heq]
        intro hwon
        contradiction
      · exact heq ▸ ⟨hmessage, hknows, hready, hobserved⟩
  | recheckClaims => exact h
  | @recheckNacks call observed claims =>
      obtain ⟨hmessage, hknows, hready, hobserved⟩ := h
      rcases call.afterRecheck_cases S.key observed claims (relay.query filter)
        with ⟨_, -, -, heq⟩ | ⟨-, heq⟩
      · exact heq ▸ ⟨hmessage, hknows, hready, hobserved⟩
      · rw [heq]
        intro hwon
        contradiction

theorem Knows.claimAttempt_le {call : ClaimCall} {observed : U32} {spent : Nat}
    (h : Knows S row call.record) (hlevel : Level count spent row)
    (hobserved : observed.val = count) :
    (call.claimAttempt observed).val ≤ count := by
  unfold ClaimCall.claimAttempt
  rcases max_choice call.record.attempts observed with hmax | hmax
  · rw [hmax]
    exact h.attempts.trans hlevel.attempts.le
  · rw [hmax, hobserved]

theorem InvAt.claimed {consumer : String} {lease : Int} {attempt : U32}
    {result : Except SdkError Bool} (h : InvAt S limit p row stage)
    (hjob : p.job = some job)
    (hrests : Rests S p.relay (failures p.log) row stage)
    (hready : ∃ spent, stage = .ready spent)
    (hattempt : attempt.val ≤ failures p.log)
    (hmoves : p.store.Moves store S.mid fun row =>
      row.claim consumer lease attempt) :
    Inv S limit (p.resumed S p.relay store job (.claiming (.returned result))) := by
  obtain ⟨spent, rfl⟩ := hready
  have hlevel : Level (failures p.log) spent row := hrests.2
  have hsame : (row.toProgress.claim consumer lease attempt).attempts =
      row.attempts := max_eq_left (hattempt.trans hlevel.attempts.ge)
  have hcalm : Calm S p.relay row p.relay
      (row.set (row.toProgress.claim consumer lease attempt)) :=
    .of_set hsame rfl (by simp [hlevel.status])
  exact h.silent hjob (hmoves.row h.stored) ⟨rfl, hsame.ge, rfl⟩ h.board rfl
    ⟨hcalm.rests hrests, fun _ => ⟨spent, rfl⟩⟩

theorem InvAt.claimProceeds {phase next : ClaimPhase}
    (h : InvAt S limit p row stage) (hjob : p.job = some job)
    (hphase : job.phase = .claiming phase) (hlost : ¬ Solo.Lost job.phase)
    (hproceeds : ClaimPhase.Proceeds S.key p.store p.time phase store next) :
    Inv S limit (p.resumed S p.relay store job (.claiming next)) := by
  have hfacts := h.facts hjob
  rw [hphase] at hfacts hlost
  obtain ⟨hrests, hclaim⟩ := hfacts
  cases hproceeds with
  | @enter record leaseSeconds settleMs =>
      refine h.silent hjob h.stored (.refl row) h.board rfl ⟨hrests, ?_⟩
      rcases ClaimPhase.enter_cases record leaseSeconds settleMs
        (timestamp p.time) with ⟨heq, -⟩ | ⟨heq, -⟩ | ⟨message, hhex, heq⟩
      · rw [heq]
        trivial
      · rw [heq]
        intro hwon
        contradiction
      · rw [heq]
        have hmessage := hhex.symm.trans (Knows.eventId hclaim)
        exact ⟨Option.some.inj hmessage, hclaim, trivial⟩
  | expire => exact absurd trivial hlost
  | wake _ => exact h.silent hjob h.stored (.refl row) h.board rfl ⟨hrests, hclaim⟩
  | finish hfinish =>
      have hmoved := ClaimPhase.finishes hfinish
      obtain ⟨-, hknows, hpoint⟩ := hclaim
      cases hmoved with
      | acked _ _ | buried _ _ => exact absurd trivial hlost
      | recognised hmoves _ =>
          rw [hknows.mid] at hmoves
          exact h.claimed hjob hrests hpoint.1 hpoint.2 hmoves
      | @contendWon observed _ hmoves _ =>
          rw [hknows.mid] at hmoves
          obtain ⟨⟨spent, rfl⟩, hobserved⟩ := hpoint
          exact h.claimed hjob hrests ⟨spent, rfl⟩
            (hknows.claimAttempt_le hrests.2 hobserved) hmoves

theorem refetch_shows {s : Store} {record : MessageRecord}
    (hrow : s.row? record.mid = some row) (hdecodes : row.Decodes) :
    row.Shows (Job.refetch s record) := by
  obtain ⟨current, hcurrent⟩ := Store.decode_ok hdecodes
  have hget : s.getMessage record.mid = .ok (some current) := by
    unfold Store.getMessage
    rw [show s.messages.row? record.mid = some row from hrow]
    change (Store.decode row).map some = _
    rw [hcurrent]
    rfl
  rw [Job.refetch, hget]
  exact Store.shows_of_decode hcurrent

theorem InvAt.handling {deadline : Nat} (h : InvAt S limit p row stage)
    (hjob : p.job = some job)
    (hrests : Rests S p.relay (failures p.log) row stage)
    (hready : ∃ spent, stage = .ready spent) :
    Inv S limit (p.resumed S p.relay p.store job
      (.handling (Job.refetch p.store job.record) deadline)) := by
  obtain ⟨spent, rfl⟩ := hready
  obtain ⟨hnacks, hlevel⟩ := hrests
  have hlevel : Level (failures p.log) spent row := hlevel
  have hcount : failures p.log < 4294967296 := by
    rw [← hnacks, ← h.board.maxAttempt]
    exact (maxAttempt _).isLt
  have hattempts := hlevel.attempts
  have hfloor := hlevel.floor
  have hrow : p.store.row? job.record.mid = some row := by
    rw [h.mid hjob]
    exact h.stored
  have hshows := refetch_shows hrow ⟨by omega, by omega⟩
  have hspent : (attemptOf (Job.refetch p.store job.record)).val = spent := by
    change _ - _ = spent
    rw [hshows.attempts, hshows.attemptFloor]
    omega
  have hmarks : S.marks (.handling (Job.refetch p.store job.record) deadline) =
      [.ran spent] := by
    rw [← hspent]
    rfl
  exact h.marked hjob h.stored (.refl row) h.board hmarks .run
    ⟨hnacks, spent, rfl, hlevel⟩

theorem InvAt.unsettled {e : SdkError} {spent : Nat}
    (h : InvAt S limit p row stage) (hjob : p.job = some job)
    (hstored : store.row? S.mid = some row') (hgrows : Grows row row')
    (hstage : stage = .running spent) (halive : row'.status ≠ .dead) :
    Inv S limit (p.resumed S p.relay store job
      (.settling (.settled (.error e)))) :=
  h.silent hjob hstored hgrows h.board rfl ⟨⟨spent, hstage⟩, halive⟩

theorem InvAt.settled {call : SettleCall} {point : SettleStage} {spent : Nat}
    {result : Except SdkError Settled}
    (h : InvAt S limit p row (.running spent)) (hjob : p.job = some job)
    (hnames : Names S row call)
    (hpoint : NackFacts S limit p.relay (failures p.log) row spent point)
    (hfinish : SettlePhase.finish p.store (timestamp p.time) call point =
      some (store, result)) :
    Inv S limit (p.resumed S p.relay store job
      (.settling (.settled result))) := by
  have hstored := h.stored
  rw [← hnames.mid] at hstored
  cases point with
  | ackPublishing | ackAccepted => exact hpoint.elim
  | configuring _ | counting _ _ | nackPublishing _ _ _ | dlqPublishing _ _ =>
      contradiction
  | dlqAccepted reason =>
      obtain ⟨⟨hnacks, hlevel⟩, hdlq, hspent⟩ := hpoint
      obtain ⟨hmoves, rfl⟩ := SettlePhase.finish_dlq hstored hfinish
      rw [hnames.mid] at hmoves
      exact h.marked hjob (hmoves.row h.stored) ⟨rfl, le_rfl, rfl⟩ h.board rfl
        (.exhaust hspent) ⟨hnacks, by simp, hlevel.attempts, hdlq⟩
  | requeueing config attempts =>
      obtain ⟨⟨hnacks, hlevel⟩, hspent⟩ := hpoint
      obtain ⟨hmoves, rfl⟩ := SettlePhase.finish_requeue hstored hfinish
      rw [hnames.mid] at hmoves
      exact h.marked hjob (hmoves.row h.stored) ⟨rfl, le_rfl, rfl⟩ h.board rfl
        (.retry hspent) ⟨hnacks, by simp, hlevel.attempts, hlevel.floor⟩

theorem InvAt.started {reason : String} (h : InvAt S limit p row stage)
    (hjob : p.job = some job)
    (hruns : Runs S p.relay (failures p.log) row stage) :
    Inv S limit (p.resumed S p.relay p.store job
      (.settling (.start p.store S.mid (.configuring reason)))) := by
  obtain ⟨hnacks, spent, hstage, hlevel⟩ := hruns
  cases hcall : messageRef p.store S.mid with
  | error e =>
      rw [SettlePhase.start, hcall]
      exact h.unsettled hjob h.stored (.refl row) hstage hlevel.status
  | ok call =>
      obtain ⟨found, hfound, hshows, hhex⟩ := messageRef_ok hcall
      cases h.stored.symm.trans hfound
      have hnames : Names S row call :=
        ⟨hshows.mid.trans (Messages.row?_mem h.stored).2, hshows.queue,
          hshows.attemptFloor, Option.some.inj (hhex.symm.trans h.named)⟩
      rw [SettlePhase.start, hcall]
      exact h.silent hjob h.stored (.refl row) h.board rfl
        ⟨hnames, spent, hstage, hnacks, hlevel⟩

theorem InvAt.counted {call : SettleCall} {reason : String}
    {config : QueueConfig} {spent : Nat} (h : InvAt S limit p row stage)
    (hjob : p.job = some job) (hnames : Names S row call)
    (hstage : stage = .running spent)
    (hpoint : NackFacts S limit p.relay (failures p.log) row spent
      (.counting reason config)) :
    Inv S limit (p.resumed S p.relay
      (SettlePhase.count p.store call reason config).1 job
      (.settling (SettlePhase.count p.store call reason config).2)) := by
  obtain ⟨⟨hnacks, hlevel⟩, hconfig⟩ := hpoint
  have hmoves : p.store.Moves (SettlePhase.count p.store call reason config).1
      S.mid .count := by
    rw [SettlePhase.count_fst, hnames.mid]
    exact Store.incrAttempts_moves
  have hstored := hmoves.row h.stored
  have hgrows : Grows row (row.set row.toProgress.count) :=
    ⟨rfl, Nat.le_succ _, rfl⟩
  have hcounted : Level (failures p.log + 1) (spent + 1)
      (row.set row.toProgress.count) :=
    ⟨hlevel.status, congrArg (· + 1) hlevel.attempts,
      congrArg (· + 1) hlevel.floor⟩
  rcases SettlePhase.count_snd call reason config with
    ⟨attempts, found, hfound, hattempts, heq⟩ | ⟨e, heq, -⟩
  · rw [hnames.mid] at hfound
    cases h.stored.symm.trans hfound
    rw [hlevel.attempts] at hattempts
    rw [heq]
    exact h.silent hjob hstored hgrows h.board rfl
      ⟨⟨hnames.mid, hnames.queue, hnames.attemptFloor, hnames.message⟩, spent,
        hstage, ⟨hnacks, hcounted⟩, hattempts, hconfig⟩
  · rw [heq]
    exact h.unsettled hjob hstored hgrows hstage hlevel.status

theorem InvAt.settleProceeds {phase next : SettlePhase}
    (h : InvAt S limit p row stage) (hjob : p.job = some job)
    (hphase : job.phase = .settling phase)
    (hconstant : p.maxAttempts row.queue = limit)
    (hproceeds : SettlePhase.Proceeds p.store p.time phase store next) :
    Inv S limit (p.resumed S p.relay store job (.settling next)) := by
  have hfacts := h.facts hjob
  rw [hphase] at hfacts
  cases hproceeds with
  | ack => exact hfacts.elim
  | nack =>
      obtain ⟨rfl, hruns⟩ := hfacts
      exact h.started hjob hruns
  | configure =>
      obtain ⟨hnames, spent, hstage, hrests⟩ := hfacts
      refine h.silent hjob h.stored (.refl row) h.board rfl
        ⟨hnames, spent, hstage, hrests, ?_⟩
      rw [hnames.queue]
      exact hconstant
  | count =>
      obtain ⟨hnames, spent, hstage, hpoint⟩ := hfacts
      exact h.counted hjob hnames hstage hpoint
  | finish hfinish =>
      obtain ⟨hnames, spent, rfl, hpoint⟩ := hfacts
      exact h.settled hjob hnames hpoint hfinish

theorem InvAt.contend {call : ClaimCall} {observed : U32} {event : Event}
    {wakeAt : Nat} (h : InvAt S limit p row stage) (hjob : p.job = some job)
    (hphase : job.phase = .claiming (.during call (.contending observed)))
    (hkind : event.kind = KIND_CLAIM)
    (hattempt : eventAttempt event = call.claimAttempt observed) :
    Inv S limit (p.resumed S (p.accept event) p.store job
      (.claiming (.during call (.settling observed wakeAt)))) := by
  have hfacts := h.facts hjob
  rw [hphase] at hfacts
  obtain ⟨hrests, hmessage, hknows, ⟨spent, rfl⟩, hobserved⟩ := hfacts
  have hquiet : (nackFilter S.message).matchEvent event = false :=
    nackFilter_of_kind (by simp [hkind, KIND_CLAIM, KIND_NACK])
  obtain ⟨hboard, hnacks⟩ := h.board.push_quiet p.time hquiet fun _ => by
      rw [hattempt, hrests.1]
      exact hknows.claimAttempt_le hrests.2 hobserved
  exact h.silent hjob h.stored (.refl row) hboard rfl
    ⟨(Calm.push hnacks).rests hrests, hmessage, hknows, ⟨spent, rfl⟩, hobserved⟩

theorem InvAt.nackAccepted {call : SettleCall} {reason : String}
    {config : QueueConfig} {attempts : U32} {event : Event}
    (h : InvAt S limit p row stage) (hlimit : 0 < limit.val)
    (hjob : p.job = some job)
    (hphase : job.phase =
      .settling (.during call (.nackPublishing reason config attempts)))
    (hmatch : (nackFilter S.message).matchEvent event = true)
    (hattempt : eventAttempt event = attempts) :
    Inv S limit (p.resumed S (p.accept event) p.store job
      (.settling (call.afterNack reason config attempts))) := by
  have hfacts := h.facts hjob
  rw [hphase] at hfacts
  obtain ⟨hnames, spent, rfl, ⟨hcount, hlevel⟩, hattempts, hconfig⟩ := hfacts
  have hkind := nackFilter_kind hmatch
  have hboard : RelayOk S (p.accept event) := by
    refine h.board.push (fun _ => ?_) fun hclaim => ?_
    · rw [hattempt, hattempts, hcount]
    · exact absurd (hkind.symm.trans (claimFilter_kind hclaim)) (by decide)
  have hnacks : S.nacks (p.accept event) = failures p.log + 1 := by
    rw [Solo.accept, nacks_push, if_pos hmatch, hcount]
  have hfailed : Failed S (p.accept event) (failures p.log) row spent :=
    ⟨hnacks, hlevel⟩
  have hspent : (call.attemptsSinceFloor attempts).val = spent + 1 := by
    have hfloor := hlevel.floor
    change attempts.val - call.record.attemptFloor.val = spent + 1
    rw [hnames.attemptFloor, hattempts]
    omega
  unfold SettleCall.afterNack
  split
  · next hle =>
      rw [Fin.le_def, hspent, hconfig] at hle
      refine h.silent hjob h.stored (.refl row) hboard rfl
        ⟨hnames, spent, rfl, hfailed, hattempts, ?_⟩
      have hwithin : spent < limit.val := h.follows.within hlimit
      omega
  · next hlt =>
      rw [Fin.le_def, hspent, hconfig] at hlt
      exact h.silent hjob h.stored (.refl row) hboard rfl
        ⟨hnames, spent, rfl, hfailed, not_le.mp hlt⟩

theorem InvAt.dlqAccepted {call : SettleCall} {reason : String}
    {attempts : U32} {event : Event} (h : InvAt S limit p row stage)
    (hjob : p.job = some job)
    (hphase : job.phase =
      .settling (.during call (.dlqPublishing reason attempts)))
    (hmatch : (terminalFilter S.message).matchEvent event = true)
    (hkind : event.kind = KIND_DLQ) (hattempt : eventAttempt event = attempts) :
    Inv S limit (p.resumed S (p.accept event) p.store job
      (.settling (.during call (.dlqAccepted reason)))) := by
  have hfacts := h.facts hjob
  rw [hphase] at hfacts
  obtain ⟨hnames, spent, rfl, hfailed, hattempts, hspent⟩ := hfacts
  have hquiet : (nackFilter S.message).matchEvent event = false :=
    nackFilter_of_kind (by simp [hkind, KIND_DLQ, KIND_NACK])
  obtain ⟨hboard, hnacks⟩ := h.board.push_quiet p.time hquiet fun hclaim => by
      rw [claimFilter_kind hclaim] at hkind
      contradiction
  have hdlq : DlqAbove S (p.accept event) row.attemptFloor := by
    refine ⟨event, Relay.mem_query.mpr ⟨hmatch, ⟨p.time, event⟩, ?_, rfl⟩, hkind,
      ?_⟩
    · exact List.mem_append_right _ (List.mem_singleton_self _)
    · have hfloor := hfailed.2.floor
      rw [hattempt, hattempts]
      omega
  exact h.silent hjob h.stored (.refl row) hboard rfl
    ⟨hnames, spent, rfl, (Calm.push hnacks).failed hfailed, hdlq, hspent⟩

theorem InvAt.proceeds (h : InvAt S limit p row stage) (hjob : p.job = some job)
    (hwinning : Solo.Winning S limit p .proceed)
    (hproceeds : Job.Proceeds S.key p.store p.time job job.phase store phase) :
    Inv S limit (p.resumed S p.relay store job phase) := by
  have hlost := hwinning.2 job hjob
  have hfacts := h.facts hjob
  generalize hphase : job.phase = before at hproceeds
  rw [hphase] at hfacts hlost
  cases hproceeds with
  | @claimed result =>
      have hwon : result = .ok true := not_not.mp hlost
      subst hwon
      exact h.handling hjob hfacts.1 (hfacts.2 rfl)
  | claim hproceeds =>
      exact h.claimProceeds hjob hphase (hphase ▸ hlost) hproceeds
  | timeout _ =>
      exact h.silent hjob h.stored (.refl row) h.board rfl ⟨h.mid hjob, hfacts⟩
  | @settled result =>
      refine h.silent hjob h.stored (.refl row) h.board rfl ?_
      match result with
      | .ok (.nacked outcome) => exact hfacts
      | .ok .acked | .error _ => exact absurd trivial hlost
  | settle hproceeds =>
      exact h.settleProceeds hjob hphase (hwinning.1 row h.stored) hproceeds

theorem InvAt.accepts {before after : SettlePhase} {draft : Draft}
    (h : InvAt S limit p row stage) (hlimit : 0 < limit.val)
    (hjob : p.job = some job) (hphase : job.phase = .settling before)
    (hdraft : before.publish? S.codec.hashtag = some draft)
    (haccepts : SettlePhase.Accepts before after) (createdAt : U64)
    (id : EventId) :
    Inv S limit (p.resumed S (p.accept (draft.sign S.key createdAt id)) p.store
      job (.settling after)) := by
  have hfacts := h.facts hjob
  rw [hphase] at hfacts
  cases haccepts with
  | ack =>
      obtain ⟨-, spent, -, hpoint⟩ := hfacts
      exact hpoint.elim
  | @nack call reason config attempts =>
      cases hdraft
      refine h.nackAccepted hlimit hjob hphase ?_ (eventAttempt_nack _ _ _ _ _ _ _)
      rw [← hfacts.1.message]
      exact nackFilter_build S.codec.hashtag call.ref attempts reason S.key
        createdAt id
  | @dlq call reason attempts =>
      cases hdraft
      refine h.dlqAccepted hjob hphase ?_ rfl (eventAttempt_dlq _ _ _ _ _ _ _)
      rw [← hfacts.1.message]
      exact terminalFilter_dlq S.codec.hashtag call.ref attempts reason S.key
        createdAt id

theorem InvAt.work {a : SoloAction} (h : InvAt S limit p row stage)
    (hlimit : 0 < limit.val) (hjob : p.job = some job)
    (hwinning : Solo.Winning S limit p a)
    (hworks : p.Works S job a relay store phase) :
    Inv S limit (p.resumed S relay store job phase) := by
  have hfacts := h.facts hjob
  cases hworks with
  | proceed hproceeds => exact h.proceeds hjob hwinning hproceeds
  | query hphase hquery hanswers =>
      rw [hphase] at hfacts
      exact h.silent hjob h.stored (.refl row) h.board rfl
        ⟨hfacts.1, hfacts.2.answers h.board hfacts.1 hquery hanswers⟩
  | contend hphase =>
      exact h.contend hjob hphase rfl (eventAttempt_claim _ _ _ _ _ _ _)
  | settle hphase hdraft haccepts =>
      exact h.accepts hlimit hjob hphase hdraft haccepts _ _
  | failed hphase =>
      rw [hphase] at hfacts
      exact h.silent hjob h.stored (.refl row) h.board rfl ⟨h.mid hjob, hfacts⟩

theorem Inv.step {a : SoloAction} {p' : Solo} (h : Inv S limit p)
    (hlimit : 0 < limit.val) (hwinning : Solo.Winning S limit p a)
    (hs : p.step S a = some p') : Inv S limit p' := by
  obtain ⟨row, stage, h⟩ := h
  cases Solo.step_cases hs with
  | advance => exact ⟨row, stage, { h with }⟩
  | @post event hunrelated =>
      obtain ⟨hclaim, hnack, -⟩ := hunrelated
      obtain ⟨hboard, hnacks⟩ := h.board.push_quiet p.time hnack fun hmatch => by
        rw [hclaim] at hmatch
        contradiction
      exact ⟨row, stage, h.calm (.push hnacks) h.stored hboard rfl rfl rfl⟩
  | elsewhere hrow =>
      exact ⟨row, stage, { h with stored := hrow.trans h.stored }⟩
  | sweep =>
      obtain ⟨row', h⟩ := h.sweep _
      exact ⟨row', stage, h⟩
  | dlqRetry hrow hdead =>
      cases h.stored.symm.trans hrow
      exact ⟨_, _, h.dlqRetry hdead⟩
  | read hread => exact ⟨row, stage, h.read hread⟩
  | spawn hrecord hdone => exact ⟨row, stage, h.spawn hrecord hdone⟩
  | work hjob hworks => exact h.work hlimit hjob hwinning hworks

end Steps

section Runs

variable {S : SoloSetup Value} {limit : U32} {p : Solo}

theorem Inv.of_published (h : p.Published S) : Inv S limit p := by
  obtain ⟨row, hrow, hnamed, hstatus, hattempts, hfloor⟩ := h.row
  obtain ⟨hboard, hnacks⟩ := RelayOk.of_unrelated h.relay
  refine ⟨row, .ready 0, hrow, hnamed, ?_, hboard, ?_, ?_, ?_⟩
  · rw [hfloor]
    exact Nat.zero_le _
  · simp [h.records]
  · rw [h.log]
    exact .start
  · rw [h.job, h.log]
    exact ⟨hnacks, hstatus, hattempts, hfloor⟩

theorem inv (hlimit : 0 < limit.val)
    (h : (Solo.system S).Reach (Solo.Winning S limit) p) : Inv S limit p :=
  h.invariant (fun _ h₀ => Inv.of_published h₀)
    fun _ _ _ _ hi hwinning hs => hi.step hlimit hwinning hs

/--
From its publication on, and from each retry from the dead letters, a message
gets exactly `max_attempts` nacks: each leaves another try but the last one, and
each run is told how many of them there were.  The nacks count up from one, all
the retries through.
-/
theorem exact_retry_budget (hlimit : 1 ≤ limit.val)
    (h : (Solo.system S).Reach (Solo.Winning S limit) p) :
    (∃ count,
      p.log <+: (List.replicate count (budget limit.val)).flatten) ∧
    S.nackedAttempts p.relay = List.range' 1 (S.nacks p.relay) ∧
    (Done p.job → S.nacks p.relay = failures p.log) := by
  obtain ⟨row, stage, hinv⟩ := inv hlimit h
  exact ⟨hinv.follows.whole_budgets hlimit, hinv.board.nacks,
    fun hdone => (hinv.rests hdone).1⟩

def sampleSolo : SoloSetup String where
  key := hexOf 'a'
  codec := ⟨id, fun envelope => .ok envelope.body, fun text => .ok (.new text 0)⟩
  null := "null"
  mid := "m"
  message := hexOf 'e'
  settleMs := 0

def sampleStart : Solo where
  time := 0
  relay := []
  store := { (Store.empty.insertMessage sampleRecord).2 with
    queues := [{ QueueConfig.workQueue "jobs" with maxAttempts := 2 }] }
  records := []
  job := none
  log := []

theorem sampleStart_published : sampleStart.Published sampleSolo := by
  refine ⟨⟨sampleRecord.toRow, rfl, by decide, by decide, rfl, rfl⟩, ?_, rfl, rfl,
    rfl⟩
  simp [sampleStart]

def soloWin (record : MessageRecord) (id : EventId) : List SoloAction :=
  [.spawn record 60, .proceed, .query, .query, .query, .publish 0 id, .proceed,
    .query, .query, .proceed, .proceed]

def soloNack (id : EventId) : List SoloAction :=
  [.failed "failed", .proceed, .proceed, .proceed, .publish 0 id]

/-- Two failures on one record, a retry from the dead letters, and a new run. -/
def budgetRun : List SoloAction :=
  [.read] ++ soloWin sampleRecord (hexOf '1') ++ soloNack (hexOf '2') ++
    [.proceed, .proceed] ++ soloWin sampleRecord (hexOf '3') ++
    soloNack (hexOf '4') ++ [.publish 0 (hexOf '5'), .proceed, .proceed,
    .dlqRetry, .read] ++
    soloWin { sampleRecord with attempts := 2, attemptFloor := 2 } (hexOf '6') ++
    soloNack (hexOf '7') ++ [.proceed, .proceed]

theorem exact_retry_budget_granted :
    ∃ p : Solo, (Solo.system sampleSolo).Reach (Solo.Winning sampleSolo 2) p ∧
      p.log = budget 2 ++ [.ran 0, .retry] ∧
      (∃ count, p.log <+: (List.replicate count (budget 2)).flatten) ∧
      sampleSolo.nackedAttempts p.relay =
        List.range' 1 (sampleSolo.nacks p.relay) ∧
      sampleSolo.nacks p.relay = 3 := by
  obtain ⟨p, hreach, htest⟩ :=
    (System.Reach.init (S := Solo.system sampleSolo)
      (P := Solo.Winning sampleSolo 2) sampleStart_published).of_run_check
      budgetRun
      (fun p => decide (p.log = budget 2 ++ [.ran 0, .retry] ∧ Done p.job))
      (by decide)
  obtain ⟨hlog, hdone⟩ := of_decide_eq_true htest
  obtain ⟨hbudgets, hattempts, hnacks⟩ := exact_retry_budget (by decide) hreach
  refine ⟨p, hreach, hlog, hbudgets, hattempts, ?_⟩
  rw [hnacks hdone, hlog]
  rfl

end Runs

end NostrQ.Worker
