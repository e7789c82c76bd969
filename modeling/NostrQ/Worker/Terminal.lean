import NostrQ.Worker.RunWorker

/-!
# Terminal statuses

None of the `UPDATE`s looks at the status it overwrites.  What protects a
terminal status is where the jobs stand: the invariant says which statuses the
row of a job may have in each of its phases, so that what the job has still to
write leaves a terminal status as it is.
-/

namespace NostrQ.Worker

open NostrQ.Foundation NostrQ.Core NostrQ.Database NostrQ.Sdk

def Open (status : Status) : Prop := status = .pending ∨ status = .claimed

/-- Terminal statuses stay. -/
def Steady (status status' : Status) : Prop :=
  ¬ Open status → status' = status

theorem Open.steady {status status' : Status} (h : Open status) :
    Steady status status' :=
  fun hterminal => absurd h hterminal

theorem Steady.refl (status : Status) : Steady status status := fun _ => rfl

namespace LocalNode

/-! ## What the row of a job looks like -/

/-- What a call that has read the clock may find. -/
def StageFits (status : Status) : ClaimStage → Prop
  | .terminalCheck => status ≠ .expired
  | .ackObserved => Open status ∨ status = .acked
  | .dlqObserved _ => Open status ∨ status = .dead
  | _ => Open status

/--
Until it reads the clock a job may find its row expired, as long as its own TTL
check will see that.
-/
def Fits (time : Nat) (record : MessageRecord) (status : Status) :
    JobPhase → Prop
  | .claiming (.entering entered _ _) =>
      entered = record ∧
        (status = .expired → ∃ expiry ∈ record.expiresAt, expiry ≤ timestamp time)
  | .claiming (.expiring _ now) => now ≤ timestamp time
  | .claiming (.during call stage) =>
      call.record = record ∧ StageFits status stage
  | .claiming (.returned result) => result = .ok true → Open status
  | .handling _ _ => Open status
  | .settling (.acking mid) => mid = record.mid ∧ Open status
  | .settling (.nacking mid _) => mid = record.mid ∧ Open status
  | .settling (.during call _) => call.record.mid = record.mid ∧ Open status
  | .settling (.settled _) => True
  | .finished => True

section Others

variable {time time' : Nat} {record : MessageRecord} {status : Status}
  {phase : JobPhase}

theorem Fits.later (h : Fits time record status phase) (hle : time ≤ time') :
    Fits time' record status phase := by
  have hnow := timestamp_mono hle
  unfold Fits at h ⊢
  split
  · exact ⟨h.1, fun hexpired =>
      let ⟨expiry, hmem, hdue⟩ := h.2 hexpired
      ⟨expiry, hmem, hdue.trans hnow⟩⟩
  · exact h.trans hnow
  all_goals exact h

theorem Fits.requeued (h : Fits time record status phase) :
    Fits time record .pending phase := by
  have hpending : Open .pending := Or.inl rfl
  unfold Fits at h ⊢
  split
  · exact ⟨h.1, by simp⟩
  · exact h
  · next stage =>
      refine ⟨h.1, ?_⟩
      cases stage with
      | terminalCheck => simp [StageFits]
      | ackObserved => exact Or.inl hpending
      | dlqObserved attempt => exact Or.inl hpending
      | _ => exact hpending
  · exact fun _ => hpending
  · exact hpending
  · exact ⟨h.1, hpending⟩
  · exact ⟨h.1, hpending⟩
  · exact ⟨h.1, hpending⟩
  · trivial
  · trivial

theorem Fits.expired (h : Fits time record status phase)
    (hbusy : busy phase = false)
    (hdue : ∃ expiry ∈ record.expiresAt, expiry ≤ timestamp time) :
    Fits time record .expired phase := by
  cases phase with
  | claiming phase =>
      cases phase with
      | entering entered leaseSeconds settleMs => exact ⟨h.1, fun _ => hdue⟩
      | expiring entered now => exact h
      | during call stage => contradiction
      | returned result =>
          intro hresult
          rw [hresult] at hbusy
          contradiction
  | handling current deadline => contradiction
  | settling phase =>
      cases phase with
      | settled result => trivial
      | _ => contradiction
  | finished => trivial

end Others

/-! ## What a job does to its row -/

/--
A job's step on its row: it writes what leaves a terminal status as it is, and
what it writes fits where it then stands.
-/
def Writes (s s' : Store) (time : Nat) (record : MessageRecord) (row : Row)
    (next : JobPhase) : Prop :=
  ∃ change, s.Moves s' record.mid change ∧
    Steady row.status (change row.toProgress).status ∧
    ((change row.toProgress).status = .expired → row.status = .expired) ∧
    Fits time record (change row.toProgress).status next

section Own

variable {key : PublicKey} {s s' : Store} {time : Nat} {job : Job} {row : Row}

private theorem moves_refl (s : Store) (mid : String) : s.Moves s mid id := by
  intro other
  split
  · have hid : (fun row : Row => row.set (id row.toProgress)) = id := rfl
    rw [hid, Option.map_id_fun]
    rfl
  · rfl

private theorem Writes.nothing {record : MessageRecord} {next : JobPhase}
    (h : Fits time record row.status next) :
    Writes s s time record row next :=
  ⟨id, moves_refl s record.mid, Steady.refl _, fun hexpired => hexpired, h⟩

private theorem Writes.claim_finish {call : ClaimCall} {stage : ClaimStage}
    {result : Except SdkError Bool} {record : MessageRecord}
    (h : call.record = record ∧ StageFits row.status stage)
    (hf : ClaimPhase.Finishes key s call s' stage result) :
    Writes s s' time record row (.claiming (.returned result)) := by
  obtain ⟨rfl, hfits⟩ := h
  cases hf with
  | acked hmoves hne =>
      refine ⟨_, hmoves, fun hterminal => ?_, fun hbad => absurd hbad (by simp),
        fun htrue => absurd htrue hne⟩
      rcases hfits with hopen | hacked
      · exact absurd hopen hterminal
      · exact hacked.symm
  | buried hmoves hne =>
      refine ⟨_, hmoves, fun hterminal => ?_, fun hbad => absurd hbad (by simp),
        fun htrue => absurd htrue hne⟩
      rcases hfits with hopen | hdead
      · exact absurd hopen hterminal
      · exact hdead.symm
  | recognised hmoves _ | contendWon hmoves _ =>
      exact ⟨_, hmoves, Open.steady hfits, fun hbad => absurd hbad (by simp),
        fun _ => Or.inr rfl⟩

private theorem Fits.answers {phase next : ClaimPhase} {events : List Event}
    {record : MessageRecord} {status : Status}
    (h : Fits time record status (.claiming phase))
    (hconfirms : ∀ call ∈ terminalCheck? (.claiming phase),
      Confirms call events status)
    (ha : ClaimPhase.Answers key events phase next) :
    Fits time record status (.claiming next) := by
  cases ha with
  | @terminal call =>
      obtain ⟨hrecord, hexpired⟩ := h
      obtain ⟨hacked, hdead⟩ := hconfirms call rfl
      rcases call.afterTerminal_cases events with
        ⟨heq, event, hmem, hkind⟩ | ⟨heq, hnone, hfloor⟩ |
        ⟨heq, hnone, hfloor⟩ <;> rw [heq] <;> refine ⟨hrecord, ?_⟩
      · cases hstatus : status with
        | pending => exact Or.inl (Or.inl rfl)
        | claimed => exact Or.inl (Or.inr rfl)
        | acked => exact Or.inr rfl
        | dead => exact absurd hkind ((hdead hstatus).1 event hmem)
        | expired => exact absurd hstatus hexpired
      · cases hstatus : status with
        | pending => exact Or.inl (Or.inl rfl)
        | claimed => exact Or.inl (Or.inr rfl)
        | acked =>
            obtain ⟨event, hmem, hkind⟩ := hacked hstatus
            exact absurd hkind (hnone event hmem)
        | dead => exact Or.inr rfl
        | expired => exact absurd hstatus hexpired
      · cases hstatus : status with
        | pending => exact Or.inl rfl
        | claimed => exact Or.inr rfl
        | acked =>
            obtain ⟨event, hmem, hkind⟩ := hacked hstatus
            exact absurd hkind (hnone event hmem)
        | dead => exact absurd hfloor (not_le.mpr (hdead hstatus).2)
        | expired => exact absurd hstatus hexpired
  | nacks => exact h
  | @claims call observed =>
      rcases call.afterSurvey_cases key observed
        (parseClaims events) with
        ⟨_, -, -, heq⟩ | ⟨_, -, -, heq⟩ | ⟨-, heq⟩ <;> rw [heq]
      · exact h
      · exact fun hfalse => by simp at hfalse
      · exact h
  | recheckClaims => exact h
  | @recheckNacks call observed claims =>
      rcases call.afterRecheck_cases key observed
        claims events with
        ⟨_, -, -, heq⟩ | ⟨-, heq⟩ <;> rw [heq]
      · exact h
      · exact fun hfalse => by simp at hfalse

private theorem fits_settle {outcome : HandlerOutcome} {record : MessageRecord}
    {status : Status} (h : Open status) :
    Fits time record status (.settling (Job.settle record outcome)) := by
  cases outcome with
  | success => exact ⟨rfl, h⟩
  | failure reason => exact ⟨rfl, h⟩

private theorem fits_start {mid : String} {stage : SettleStage}
    {record : MessageRecord} {status : Status}
    (h : mid = record.mid ∧ Open status) :
    Fits time record status (.settling (SettlePhase.start s mid stage)) := by
  obtain ⟨rfl, hopen⟩ := h
  unfold SettlePhase.start
  split
  · trivial
  · next call hcall =>
      obtain ⟨row, hrow, hshows, -⟩ := messageRef_ok hcall
      exact ⟨hshows.mid.trans (Messages.row?_mem hrow).2, hopen⟩

theorem Writes.proceeds {next : JobPhase}
    (h : Fits time job.record row.status job.phase)
    (hnone : expires? job.phase = none)
    (hp : Job.Proceeds key s time job job.phase s' next) :
    Writes s s' time job.record row next := by
  generalize job.phase = phase at h hnone hp
  cases hp with
  | @claimed result =>
      unfold Job.afterClaim
      split
      · exact .nothing (h rfl)
      · exact .nothing trivial
  | claim hp =>
      cases hp with
      | @enter record leaseSeconds settleMs =>
          obtain ⟨rfl, hexpired⟩ := h
          refine .nothing ?_
          unfold ClaimPhase.enter
          split
          · exact le_rfl
          · next hlive =>
              have hstatus : row.status ≠ .expired := fun hbad => by
                obtain ⟨expiry, hmem, hdue⟩ := hexpired hbad
                exact hlive (by simp [Option.mem_def.mp hmem, hdue])
              split
              · exact fun hfalse => by simp at hfalse
              · exact ⟨rfl, hstatus⟩
      | expire => contradiction
      | wake _ => exact .nothing h
      | finish hf => exact .claim_finish h (ClaimPhase.finishes hf)
  | timeout _ => exact .nothing (fits_settle h)
  | settled => exact .nothing trivial
  | settle hp =>
      cases hp with
      | ack => exact .nothing (fits_start h)
      | nack => exact .nothing (fits_start h)
      | configure => exact .nothing h
      | @count call reason config =>
          rw [SettlePhase.count_fst, h.1]
          refine ⟨_, Store.incrAttempts_moves, Steady.refl _,
            fun hexpired => hexpired, ?_⟩
          rcases SettlePhase.count_snd (s := s) call reason config with
            ⟨_, _, -, -, heq⟩ | ⟨_, heq, -⟩ <;> rw [heq]
          · exact h
          · trivial
      | finish hf =>
          obtain ⟨hmid, hopen⟩ := h
          cases SettlePhase.finishes hf with
          | acked hmoves | buried hmoves | requeued hmoves =>
              exact ⟨_, hmid ▸ hmoves, hopen.steady,
                fun hbad => absurd hbad (by simp), trivial⟩

theorem Writes.step {move : JobMove} {next : Job}
    (h : Fits time job.record row.status job.phase)
    (hnone : move = .proceed → expires? job.phase = none)
    (hconfirms : ∀ events, move = .answer events →
      ∀ call ∈ terminalCheck? job.phase, Confirms call events row.status)
    (hs : job.step key s (move.at time) = some (s', next)) :
    Writes s s' time job.record row next.phase := by
  cases move with
  | proceed => exact .proceeds h (hnone rfl) (Job.step_proceed hs)
  | answer events =>
      obtain ⟨rfl, phase, after, hphase, hafter, hanswers⟩ := Job.step_answer hs
      have hasked := hconfirms events rfl
      rw [hphase] at h hasked
      exact hafter ▸ .nothing (h.answers hasked hanswers)
  | accepted =>
      obtain ⟨rfl, ⟨call, observed, hphase, hafter⟩ |
        ⟨phase, after, hphase, hafter, haccepts⟩⟩ := Job.step_accepted hs <;>
        rw [hphase] at h <;> rw [hafter]
      · exact .nothing h
      · cases haccepts with
        | ack => exact .nothing h
        | nack =>
            unfold SettleCall.afterNack
            split <;> exact .nothing h
        | dlq => exact .nothing h
  | failed =>
      obtain ⟨rfl, ⟨_, -, -, hafter⟩ | ⟨_, -, hafter⟩⟩ := Job.step_failed hs <;>
        rw [hafter]
      · exact .nothing fun hfalse => by simp at hfalse
      · exact .nothing trivial
  | handled outcome =>
      obtain ⟨rfl, current, deadline, hphase, hafter⟩ := Job.step_handled hs
      rw [hphase] at h
      exact hafter ▸ .nothing (fits_settle h)

end Own

/-! ## The invariant of the node -/

def Placed (s : Store) (time : Nat) (record : MessageRecord)
    (phase : JobPhase) : Prop :=
  ∃ row, s.row? record.mid = some row ∧ row.expiresAt = record.expiresAt ∧
    Fits time record row.status phase

/-- What the steps of others may do to the row of a job. -/
inductive Disturbs (time : Nat) (phase : JobPhase) (row row' : Row) : Prop where
  | same : row'.status = row.status → Disturbs time phase row row'
  | requeued : row'.status = .pending → Disturbs time phase row row'
  | expired : row'.status = .expired → busy phase = false →
      (∃ expiry ∈ row.expiresAt, expiry ≤ timestamp time) →
      Disturbs time phase row row'

theorem Placed.disturbed {s s' : Store} {time time' : Nat}
    {record : MessageRecord} {phase : JobPhase}
    (h : Placed s time record phase) (hle : time ≤ time')
    (hview : ∀ row, s.row? record.mid = some row → ∃ row',
      s'.row? record.mid = some row' ∧ row'.expiresAt = row.expiresAt ∧
        Disturbs time' phase row row') : Placed s' time' record phase := by
  obtain ⟨row, hrow, hexpires, hfits⟩ := h
  obtain ⟨row', hrow', hsame, hdisturbs⟩ := hview row hrow
  refine ⟨row', hrow', hsame.trans hexpires, ?_⟩
  have hlater := hfits.later hle
  cases hdisturbs with
  | same hstatus => exact hstatus ▸ hlater
  | requeued hstatus => exact hstatus ▸ hlater.requeued
  | expired hstatus hbusy hdue =>
      exact hstatus ▸ hlater.expired hbusy (hexpires ▸ hdue)

def waiting (record : MessageRecord) : JobPhase :=
  (Job.spawn record 0 0).phase

structure Served {Envelope : Type} (n : LocalNode Envelope) : Prop where
  jobs : ∀ mid job, n.jobs mid = some job →
    job.record.mid = mid ∧ Placed n.store n.time job.record job.phase
  batch : ∀ record ∈ n.loop.batch,
    Placed n.store n.time record (waiting record)

/-- A step takes no row away, and overwrites a terminal status only as a retry. -/
def Keeping {Envelope : Type} (n : LocalNode Envelope)
    (a : LocalAction Envelope) (n' : LocalNode Envelope) : Prop :=
  ∀ mid row, n.store.row? mid = some row → ∃ row',
    n'.store.row? mid = some row' ∧
      (Steady row.status row'.status ∨ a = .retry mid ∧ row.status = .dead)

section Steps

variable {Envelope : Type} {W : WorkerSetup Envelope}
  {n n' : LocalNode Envelope} {a : LocalAction Envelope}

structure Quiet (n n' : LocalNode Envelope) : Prop where
  time : n.time ≤ n'.time
  rows : ∀ mid row, n.store.row? mid = some row → n'.store.row? mid = some row
  jobs : n'.jobs = n.jobs
  batch : n'.loop.batch ⊆ n.loop.batch

private theorem Quiet.keeping (h : Quiet n n') : Keeping n a n' :=
  fun mid row hrow => ⟨row, h.rows mid row hrow, Or.inl (Steady.refl _)⟩

private theorem Quiet.placed (h : Quiet n n') {record : MessageRecord}
    {phase : JobPhase} (hp : Placed n.store n.time record phase) :
    Placed n'.store n'.time record phase :=
  hp.disturbed h.time fun row hrow => ⟨row, h.rows _ row hrow, rfl, .same rfl⟩

private theorem Served.quiet (h : Served n) (hq : Quiet n n') : Served n' where
  jobs mid job hjob := by
    rw [hq.jobs] at hjob
    exact ⟨(h.jobs mid job hjob).1, hq.placed (h.jobs mid job hjob).2⟩
  batch record hrecord := hq.placed (h.batch record (hq.batch hrecord))

/-! ### Expiries -/

private theorem due_open {queue : String} {now : Int} {row : Row}
    (h : Store.Due queue now row) : Open row.status := h.2.1

private theorem expire_steady {queue : String} {now : Int} {mid : String}
    {row : Row} (hrow : n.store.row? mid = some row) : ∃ row',
    (n.store.expireDue queue now).2.row? mid = some row' ∧
      Steady row.status row'.status := by
  refine ⟨_, by rw [Store.expireDue_row?, hrow, Option.map_some], ?_⟩
  split
  · next hdue => exact (due_open hdue).steady
  · exact Steady.refl _

private theorem Placed.expire {queue : String} {now : Int}
    {record : MessageRecord} {phase : JobPhase}
    (h : Placed n.store n.time record phase) (hnow : now ≤ timestamp n.time)
    (hspared : ∀ row, n.store.row? record.mid = some row →
      Store.Due queue now row → busy phase = false) :
    Placed (n.store.expireDue queue now).2 n.time record phase := by
  refine h.disturbed le_rfl fun row hrow => ?_
  refine ⟨_, by rw [Store.expireDue_row?, hrow, Option.map_some], ?_⟩
  by_cases hdue : Store.Due queue now row
  · rw [if_pos hdue]
    obtain ⟨expiry, hmem, hpast⟩ := hdue.2.2
    exact ⟨rfl, .expired rfl (hspared row hrow hdue)
      ⟨expiry, hmem, hpast.trans hnow⟩⟩
  · rw [if_neg hdue]
    exact ⟨rfl, .same rfl⟩

private theorem Spares.busy {queue : String} {now : Int}
    (h : n.Spares queue now) {mid : String} {job : Job}
    (hjob : n.jobs mid = some job) {row : Row}
    (hrow : n.store.row? mid = some row) (hdue : Store.Due queue now row) :
    busy job.phase = false := by
  obtain ⟨hmem, hmid⟩ := Messages.row?_mem hrow
  exact h row hmem hdue job (by rw [hmid]; exact hjob)

private theorem Served.expire (h : Served n) {queue : String} {now : Int}
    (hnow : now ≤ timestamp n.time) (hspares : n.Spares queue now) :
    Served { n with store := (n.store.expireDue queue now).2 } where
  jobs mid job hjob := by
    obtain ⟨hmid, hplaced⟩ := h.jobs mid job hjob
    exact ⟨hmid, hplaced.expire hnow fun row hrow hdue =>
      hspares.busy hjob (hmid ▸ hrow) hdue⟩
  batch record hrecord := (h.batch record hrecord).expire hnow fun _ _ _ => rfl

/-! ### Jobs -/

private theorem Placed.written {s s' : Store} {time : Nat}
    {record other : MessageRecord} {row : Row} {next : JobPhase}
    (h : Placed s time other (waiting other))
    (hrow : s.row? record.mid = some row)
    (hwrites : Writes s s' time record row next) :
    Placed s' time other (waiting other) := by
  obtain ⟨change, hmoves, -, hexpired, -⟩ := hwrites
  obtain ⟨found, hfound, hexpires, hfits⟩ := h
  by_cases heq : other.mid = record.mid
  · rw [heq, hrow] at hfound
    cases hfound
    refine ⟨row.set (change row.toProgress),
      by rw [hmoves, if_pos heq, heq, hrow, Option.map_some], hexpires, rfl, ?_⟩
    exact fun hbad => hfits.2 (hexpired hbad)
  · exact ⟨found, by rw [hmoves, if_neg heq, hfound], hexpires, hfits⟩

private theorem job_step_cases {job next : Job} {s' : Store} {move : JobMove}
    {row : Row} (hfits : Fits n.time job.record row.status job.phase)
    (hrow : n.store.row? job.record.mid = some row)
    (hunspoilt : n.Unspoilt job move)
    (hs : job.step W.key n.store (move.at n.time) = some (s', next)) :
    (∃ queue now, now ≤ timestamp n.time ∧ n.Spares queue now ∧
      s' = (n.store.expireDue queue now).2 ∧
      next.phase = .claiming (.returned (.ok false))) ∨
    Writes n.store s' n.time job.record row next.phase := by
  by_cases hmove : move = .proceed
  · subst hmove
    have hproceeds := Job.step_proceed hs
    cases hexpires : expires? job.phase with
    | none =>
        exact Or.inr (.step hfits (fun _ => hexpires) (fun _ h => by simp at h) hs)
    | some expiry =>
        unfold expires? at hexpires
        split at hexpires
        · next record now hphase =>
            cases hexpires
            have hspares := hunspoilt (record.queue, now) (by
              rw [hphase]
              rfl)
            rw [hphase] at hproceeds hfits
            generalize next.phase = after at hproceeds ⊢
            cases hproceeds with
            | claim hp =>
                cases hp with
                | expire => exact Or.inl ⟨_, _, hfits, hspares, rfl, rfl⟩
        · contradiction
  · refine Or.inr (.step hfits (fun h => absurd h hmove) ?_ hs)
    rintro events rfl call hcall
    exact hunspoilt call hcall row hrow

@[simp] private theorem placeJob_store (mid : String) (s : Store) (next : Job) :
    (n.placeJob mid s next).store = s := by
  unfold placeJob
  split <;> rfl

@[simp] private theorem placeJob_time (mid : String) (s : Store) (next : Job) :
    (n.placeJob mid s next).time = n.time := by
  unfold placeJob
  split <;> rfl

@[simp] private theorem placeJob_loop (mid : String) (s : Store) (next : Job) :
    (n.placeJob mid s next).loop = n.loop := by
  unfold placeJob
  split <;> rfl

private theorem placeJob_jobs {mid other : String} {s : Store} {next job : Job}
    (h : (n.placeJob mid s next).jobs other = some job) :
    other = mid ∧ job = next ∨ other ≠ mid ∧ n.jobs other = some job := by
  unfold placeJob at h
  by_cases heq : other = mid
  · left
    refine ⟨heq, ?_⟩
    subst heq
    split at h
    · simp at h
    · simpa using h.symm
  · right
    refine ⟨heq, ?_⟩
    split at h
    · simpa [heq] using h
    · simpa [heq] using h

private theorem Served.job (h : Served n) {mid : String} {job next : Job}
    {s' : Store} {move : JobMove} (hjob : n.jobs mid = some job)
    (hunspoilt : n.Unspoilt job move)
    (hs : job.step W.key n.store (move.at n.time) = some (s', next)) :
    Served (n.placeJob mid s' next) ∧ Keeping n a (n.placeJob mid s' next) := by
  obtain ⟨hmid, row, hrow, hexpires, hfits⟩ := h.jobs mid job hjob
  have hrecord := (Job.step_fields hs).1
  rcases job_step_cases hfits hrow hunspoilt hs with
    ⟨queue, now, hnow, hspares, rfl, hreturned⟩ | hwrites
  · have hserved := h.expire hnow hspares
    refine ⟨⟨fun other found hfound => ?_, fun record hbatch => ?_⟩,
      fun other old hold => ?_⟩
    · rw [placeJob_store, placeJob_time]
      rcases placeJob_jobs hfound with ⟨rfl, rfl⟩ | ⟨-, hother⟩
      · refine ⟨hrecord ▸ hmid, ?_⟩
        rw [hrecord, hreturned]
        have hlost : Placed n.store n.time job.record
            (.claiming (.returned (.ok false))) :=
          ⟨row, hrow, hexpires, fun hfalse => by simp at hfalse⟩
        exact hlost.expire hnow fun _ _ _ => rfl
      · exact hserved.jobs other found hother
    · rw [placeJob_store, placeJob_time]
      rw [placeJob_loop] at hbatch
      exact hserved.batch record hbatch
    · rw [placeJob_store]
      obtain ⟨row', hrow', hsteady⟩ := expire_steady hold
      exact ⟨row', hrow', Or.inl hsteady⟩
  · have hbatched := hwrites
    obtain ⟨change, hmoves, hsteady, -, hnext⟩ := hwrites
    have hown : s'.row? job.record.mid =
        some (row.set (change row.toProgress)) := hmoves.row hrow
    refine ⟨⟨fun other found hfound => ?_, fun record hbatch => ?_⟩,
      fun other old hold => ?_⟩
    · rw [placeJob_store, placeJob_time]
      rcases placeJob_jobs hfound with ⟨rfl, rfl⟩ | ⟨hne, hother⟩
      · exact ⟨hrecord ▸ hmid, hrecord ▸ ⟨_, hown, hexpires, hnext⟩⟩
      · obtain ⟨hmid', hplaced⟩ := h.jobs other found hother
        refine ⟨hmid', hplaced.disturbed le_rfl fun old hold =>
          ⟨old, ?_, rfl, .same rfl⟩⟩
        rw [hmoves, if_neg (by rw [hmid', hmid]; exact hne), hold]
    · rw [placeJob_store, placeJob_time]
      rw [placeJob_loop] at hbatch
      exact (h.batch record hbatch).written hrow hbatched
    · rw [placeJob_store]
      by_cases heq : other = job.record.mid
      · subst heq
        cases hrow.symm.trans hold
        exact ⟨_, hown, Or.inl hsteady⟩
      · exact ⟨old, by rw [hmoves, if_neg heq, hold], Or.inl (Steady.refl _)⟩

/-! ### The poll loop -/

private theorem Served.fetch (h : Served n) {batch : List MessageRecord}
    {limit : U32}
    (hbatch : n.store.claimable (W.scan n.time) W.queue (timestamp n.time) limit =
      .ok batch) :
    Served { n with loop := .dispatching batch } where
  jobs := h.jobs
  batch record hrecord := by
    obtain ⟨row, hrow, hclaimable, hshows⟩ :=
      Store.claimable_shows hbatch hrecord
    refine ⟨row, hrow, hshows.expiresAt.symm, rfl, fun hexpired => ?_⟩
    rcases hclaimable.2.1 with ⟨hstatus, -⟩ | ⟨hstatus, -⟩ <;>
      rw [hexpired] at hstatus <;> contradiction

private theorem Served.spawn (h : Served n) {record : MessageRecord}
    (hplaced : Placed n.store n.time record (waiting record)) :
    Served (n.spawn W record) where
  jobs mid job hjob := by
    simp only [LocalNode.spawn, Function.update_apply] at hjob
    split at hjob
    · next heq =>
        cases hjob
        exact ⟨heq.symm, hplaced⟩
    · exact h.jobs mid job hjob
  batch := h.batch

private theorem Served.rest (h : Served n) : Served (n.rest W) :=
  h.quiet ⟨le_rfl, fun _ _ hrow => hrow, rfl, by simp [LocalNode.rest,
    LoopPhase.batch]⟩

private theorem Served.dispatch (h : Served n) {batch : List MessageRecord}
    (hloop : n.loop = .dispatching batch) : Served (n.dispatch W batch) := by
  have hbatch : n.loop.batch = batch := by rw [hloop]; rfl
  cases batch with
  | nil => exact h.rest
  | cons record batch =>
      have hskip : ∀ {m : LocalNode Envelope}, Served m → m.loop = n.loop →
          Served { m with loop := .dispatching batch } := fun hm hsame =>
        ⟨hm.jobs, fun other hother => hm.batch other (by
          rw [hsame, hbatch]
          exact List.mem_cons_of_mem _ hother)⟩
      simp only [LocalNode.dispatch]
      split
      · exact hskip h rfl
      · split
        · exact h.rest
        · exact hskip (h.spawn (h.batch record (by simp [hbatch]))) rfl

private theorem dispatch_store (batch : List MessageRecord) :
    (n.dispatch W batch).store = n.store := by
  unfold LocalNode.dispatch
  split
  · rfl
  · split
    · rfl
    · split <;> rfl

private theorem Served.poll (h : Served n)
    (hspares : n.loop = .sweeping → n.Spares W.queue (timestamp n.time))
    (hs : n.poll W = some n') : Served n' ∧ Keeping n a n' := by
  have keeping : ∀ {m : LocalNode Envelope}, m.store = n.store →
      Keeping n a m := fun hsame mid row hrow =>
    ⟨row, hsame ▸ hrow, Or.inl (Steady.refl _)⟩
  unfold LocalNode.poll at hs
  split at hs
  · next hloop =>
      cases hs
      have hserved := h.expire le_rfl (hspares hloop)
      refine ⟨⟨hserved.jobs, by simp [LoopPhase.batch]⟩, fun mid row hrow => ?_⟩
      obtain ⟨row', hrow', hsteady⟩ := expire_steady hrow
      exact ⟨row', hrow', Or.inl hsteady⟩
  · split at hs
    · cases hs
      exact ⟨⟨h.jobs, by simp [LoopPhase.batch]⟩, keeping rfl⟩
    · next batch hbatch =>
        cases hs
        exact ⟨h.fetch hbatch, keeping rfl⟩
  · next batch hloop =>
      cases hs
      exact ⟨h.dispatch hloop, keeping (dispatch_store batch)⟩
  · split at hs
    · cases hs
      exact ⟨⟨h.jobs, by simp [LoopPhase.batch]⟩, keeping rfl⟩
    · contradiction
  · contradiction

/-! ### Every step -/

private theorem publish_rows {codec : Codec Envelope} {s s' : Store}
    {phase next : PublishPhase Envelope}
    (h : phase.proceed codec s = some (s', next)) {mid : String} {row : Row}
    (hrow : s.row? mid = some row) : s'.row? mid = some row := by
  unfold PublishPhase.proceed at h
  split at h
  · split at h <;> cases h <;> exact hrow
  · cases h
    exact hrow
  · cases h
    exact Store.insertMessage_row?_of_some hrow
  · cases h
    exact hrow
  · contradiction

private theorem ingest_rows {codec : Codec Envelope} {s : Store} {event : Event}
    {mid : String} {row : Row} (hrow : s.row? mid = some row) :
    (ingest codec s event).row? mid = some row := by
  unfold ingest
  split
  · exact hrow
  · exact Store.insertMessage_row?_of_some hrow

private theorem Served.retry (h : Served n) (mid : String)
    (retries : List String) :
    Served { n with
      store := (n.store.dlqRetry mid).2
      retries := retries } := by
  have view : ∀ {record : MessageRecord} {phase : JobPhase},
      Placed n.store n.time record phase →
      Placed (n.store.dlqRetry mid).2 n.time record phase := fun hplaced =>
    hplaced.disturbed le_rfl fun row hrow => by
      rw [Store.dlqRetry_moves, hrow]
      split
      · exact ⟨_, rfl, rfl, .requeued rfl⟩
      · exact ⟨row, rfl, rfl, .same rfl⟩
  exact ⟨fun other job hjob =>
    ⟨(h.jobs other job hjob).1, view (h.jobs other job hjob).2⟩,
    fun record hrecord => view (h.batch record hrecord)⟩

private theorem retry_keeping {mid : String} {retries : List String}
    (hopen : ∀ row ∈ n.store.row? mid,
      row.status ≠ .acked ∧ row.status ≠ .expired) :
    Keeping n (.retry mid) { n with
      store := (n.store.dlqRetry mid).2
      retries := retries } := by
  intro other row hrow
  dsimp only
  rw [Store.dlqRetry_moves, hrow]
  split
  · next heq =>
      subst heq
      refine ⟨_, rfl, ?_⟩
      obtain ⟨hacked, hexpired⟩ := hopen row hrow
      cases hstatus : row.status with
      | pending => exact Or.inl (Open.steady (Or.inl rfl))
      | claimed => exact Or.inl (Open.steady (Or.inr rfl))
      | acked => exact absurd hstatus hacked
      | dead => exact Or.inr ⟨rfl, rfl⟩
      | expired => exact absurd hstatus hexpired
  · exact ⟨row, rfl, Or.inl (Steady.refl _)⟩

theorem Served.step (h : Served n) (hundisturbed : n.Unspoiling W a)
    (hs : n.step W a = some n') : Served n' ∧ Keeping n a n' := by
  have quiet : Quiet n n' → Served n' ∧ Keeping n a n' :=
    fun hq => ⟨h.quiet hq, hq.keeping⟩
  cases a with
  | advance ms =>
      cases hs
      exact quiet ⟨Nat.le_add_right _ _, fun _ _ hrow => hrow, rfl, fun _ h => h⟩
  | poll => exact h.poll hundisturbed hs
  | shutdown =>
      simp only [LocalNode.step] at hs
      unfold LocalNode.shutdown at hs
      split at hs
      · cases hs
        exact quiet ⟨le_rfl, fun _ _ hrow => hrow, rfl,
          by simp [LoopPhase.batch]⟩
      · cases hs
        exact quiet ⟨le_rfl, fun _ _ hrow => hrow, rfl,
          by simp [LoopPhase.batch]⟩
      · contradiction
  | job mid move =>
      obtain ⟨job, hjob, hstep⟩ := Option.bind_eq_some_iff.mp hs
      obtain ⟨⟨s', next⟩, hnext, rfl⟩ := Option.map_eq_some_iff.mp hstep
      exact h.job hjob (hundisturbed job hjob) hnext
  | publish call =>
      cases hs
      exact quiet ⟨le_rfl, fun _ _ hrow => hrow, rfl, fun _ h => h⟩
  | publishProceed i =>
      obtain ⟨phase, -, hstep⟩ := Option.bind_eq_some_iff.mp hs
      obtain ⟨⟨s', next⟩, hproceed, rfl⟩ := Option.map_eq_some_iff.mp hstep
      exact quiet ⟨le_rfl, fun _ _ hrow => publish_rows hproceed hrow, rfl,
        fun _ h => h⟩
  | publishAccepted i id =>
      obtain ⟨phase, -, hstep⟩ := Option.bind_eq_some_iff.mp hs
      obtain ⟨next, -, rfl⟩ := Option.map_eq_some_iff.mp hstep
      exact quiet ⟨le_rfl, fun _ _ hrow => hrow, rfl, fun _ h => h⟩
  | publishFailed i =>
      obtain ⟨phase, -, hstep⟩ := Option.bind_eq_some_iff.mp hs
      obtain ⟨next, -, rfl⟩ := Option.map_eq_some_iff.mp hstep
      exact quiet ⟨le_rfl, fun _ _ hrow => hrow, rfl, fun _ h => h⟩
  | ingest event =>
      cases hs
      exact quiet ⟨le_rfl, fun _ _ hrow => ingest_rows hrow, rfl, fun _ h => h⟩
  | checkRetry mid =>
      simp only [LocalNode.step] at hs
      split at hs
      · split at hs
        · cases hs
          exact quiet ⟨le_rfl, fun _ _ hrow => hrow, rfl, fun _ h => h⟩
        · contradiction
      · contradiction
  | retry mid =>
      simp only [LocalNode.step] at hs
      split at hs
      · cases hs
        exact ⟨h.retry mid _, retry_keeping hundisturbed⟩
      · contradiction

theorem served (h : (system W).Reach (Unspoiling W) n) : Served n :=
  h.invariant (I := Served)
    (fun _ ⟨_, _, h₀⟩ => by
      subst h₀
      exact ⟨fun _ _ hjob => by simp at hjob, fun _ hbatch => by
        simp [LoopPhase.batch] at hbatch⟩)
    fun _ _ _ _ hi hp hs => (hi.step hp hs).1

private theorem settled_stays
    (h : (system W).Reach (Unspoiling W) n)
    (h' : ((system W).startingIn (· = n)).Reach (Unspoiling W) n')
    {mid : String} {row : Row} (hrow : n.store.row? mid = some row)
    (hstatus : row.status = .acked ∨ row.status = .expired) :
    Served n' ∧ ∃ row', n'.store.row? mid = some row' ∧
      row'.status = row.status := by
  refine h'.invariant (I := fun m => Served m ∧ ∃ row',
    m.store.row? mid = some row' ∧ row'.status = row.status) ?_ ?_
  · rintro m rfl
    exact ⟨served h, row, hrow, rfl⟩
  · rintro m a m' - ⟨hserved, before, hbefore, hsame⟩ hp hs
    obtain ⟨hserved', hkeeping⟩ := hserved.step hp hs
    obtain ⟨after, hafter, hsteady | ⟨-, hdead⟩⟩ := hkeeping mid before hbefore
    · refine ⟨hserved', after, hafter, (hsteady ?_).trans hsame⟩
      rw [hsame]
      rintro (hbad | hbad) <;> rcases hstatus with hst | hst <;>
        rw [hst] at hbad <;> contradiction
    · rw [hsame] at hdead
      rcases hstatus with hst | hst <;> rw [hst] at hdead <;> contradiction

/--
From any state of an undisturbed run, a row that is acked or expired keeps its
status for good, and the status of a dead row changes in no step but a retry of
its message.
-/
theorem terminal_absorbing (h : (system W).Reach (Unspoiling W) n) :
    (∀ n', ((system W).startingIn (· = n)).Reach (Unspoiling W) n' →
      ∀ mid row, n.store.row? mid = some row →
        row.status = .acked ∨ row.status = .expired →
        ∃ row', n'.store.row? mid = some row' ∧ row'.status = row.status) ∧
    ∀ a n', n.Unspoiling W a → n.step W a = some n' →
      ∀ mid row, n.store.row? mid = some row → row.status = .dead →
        ∃ row', n'.store.row? mid = some row' ∧
          (row'.status = .dead ∨ a = .retry mid) := by
  constructor
  · intro n' h' mid row hrow hstatus
    exact (settled_stays h h' hrow hstatus).2
  · intro a n' hp hs mid row hrow hdead
    obtain ⟨row', hrow', hsteady | ⟨hretry, -⟩⟩ :=
      ((served h).step hp hs).2 mid row hrow
    · refine ⟨row', hrow', Or.inl ((hsteady ?_).trans hdead)⟩
      rw [hdead]
      rintro (hbad | hbad) <;> contradiction
    · exact ⟨row', hrow', Or.inr hretry⟩

end Steps

section Runs

def sampleSetup : WorkerSetup String where
  key := Publishing.sampleId
  queue := "jobs"
  options := ⟨1, 60, 400, 250⟩
  codec := Publishing.textCodec
  scan _ := .stored

def sampleNode (record : MessageRecord) : LocalNode String where
  time := 0
  store := ⟨(Messages.empty.insert record.toRow).1, [], []⟩
  loop := .sweeping
  permits := 1
  jobs := fun _ => none
  publishes := []
  retries := []

theorem sampleNode_started (record : MessageRecord) :
    Started sampleSetup (sampleNode record) :=
  ⟨_, _, rfl⟩

def minuteClaim : Event :=
  (buildClaimEvent id ⟨Publishing.sampleId, "jobs", "m", "trace"⟩ 60 0).sign
    Publishing.sampleId 0 (hexOf 'a')

def winRun : List (LocalAction String) :=
  [.poll, .poll, .poll, .poll, .job "m" .proceed, .job "m" (.answer []),
    .job "m" (.answer []), .job "m" (.answer []), .job "m" .accepted,
    .advance 400, .job "m" .proceed, .job "m" (.answer [minuteClaim]),
    .job "m" (.answer []), .job "m" .proceed, .job "m" .proceed]

def ackRun : List (LocalAction String) :=
  [.job "m" (.handled .success), .job "m" .proceed, .job "m" .accepted,
    .job "m" .proceed]

theorem terminal_absorbing_acked :
    ∃ n : LocalNode String, ∃ row, n.store.row? "m" = some row ∧
      row.status = .acked ∧
      ∀ n', ((system sampleSetup).startingIn (· = n)).Reach
        (Unspoiling sampleSetup) n' →
        ∃ row', n'.store.row? "m" = some row' ∧ row'.status = .acked := by
  obtain ⟨n, hreach, htest⟩ :=
    (System.Reach.init (S := system sampleSetup) (P := Unspoiling sampleSetup)
      (sampleNode_started sampleRecord)).of_run_check
      (winRun ++ ackRun)
      (fun n : LocalNode String => decide (∃ row ∈ n.store.row? "m",
        row.status = .acked)) (by decide)
  obtain ⟨row, hrow, hstatus⟩ := of_decide_eq_true htest
  refine ⟨n, row, hrow, hstatus, fun n' h' => ?_⟩
  obtain ⟨row', hrow', hsame⟩ :=
    (terminal_absorbing hreach).1 n' h' "m" row hrow (Or.inl hstatus)
  exact ⟨row', hrow', hsame.trans hstatus⟩

/--
The message expires at second 1, while its handler runs: the sweep marks the row
expired, and the ack after the handler overwrites that.
-/
theorem ack_overwrites_expired :
    ∃ n n' : LocalNode String, (system sampleSetup).Reach System.Free n ∧
      (∃ row, n.store.row? "m" = some row ∧ row.status = .expired) ∧
      ((system sampleSetup).startingIn (· = n)).Reach System.Free n' ∧
      ∃ row, n'.store.row? "m" = some row ∧ row.status = .acked := by
  obtain ⟨n, hreach, htest⟩ :=
    (System.Reach.init (S := system sampleSetup) (P := System.Free)
      (sampleNode_started { sampleRecord with expiresAt := some 1 })).of_run_check
      (winRun ++ [.advance 700, .poll, .poll])
      (fun n : LocalNode String => decide (∃ row ∈ n.store.row? "m",
        row.status = .expired) &&
        (((system sampleSetup).startingIn (· = n)).run System.Free n
          ackRun).any
          fun n' : LocalNode String =>
            decide (∃ row ∈ n'.store.row? "m", row.status = .acked))
      (by decide)
  obtain ⟨hexpired, hrun⟩ := Bool.and_eq_true_iff.mp htest
  obtain ⟨row, hrow, hstatus⟩ := of_decide_eq_true hexpired
  obtain ⟨n', hreach', hacked⟩ :=
    (System.Reach.init (S := (system sampleSetup).startingIn (· = n))
      (P := System.Free) rfl).of_run_check ackRun _ hrun
  exact ⟨n, n', hreach, ⟨row, hrow, hstatus⟩, hreach',
    of_decide_eq_true hacked⟩

end Runs

end LocalNode

end NostrQ.Worker
