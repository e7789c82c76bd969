import NostrQ.Worker.Exclusion

/-!
# No early delivery

Whether a row may be handed out yet is asked by the query that fetches it, and by
nothing after that.  A nack can requeue the message between the fetch and the
spawn, and then its delay is not waited for.
-/

namespace NostrQ.Worker

open NostrQ.Foundation NostrQ.Core NostrQ.Database NostrQ.Sdk

namespace Process

variable {Envelope : Type} {W : ProcessSetup Envelope}
  {p p' : Process Envelope}

structure Timely (W : ProcessSetup Envelope) (p : Process Envelope) :
    Prop where
  started : p.Started W
  claimed : ∀ mid row, p.store.row? mid = some row → row.status = .claimed →
    row.visibleAt ≤ timestamp p.time

/-- The row still has the time it was fetched with, or is due anyway. -/
def UpToDate (p : Process Envelope) (record : MessageRecord) : Prop :=
  ∀ row ∈ p.store.row? record.mid,
    row.visibleAt = record.visibleAt ∨ row.visibleAt ≤ timestamp p.time

instance (p : Process Envelope) (record : MessageRecord) :
    Decidable (p.UpToDate record) :=
  inferInstanceAs (Decidable (∀ _ ∈ _, _))

def acquiring? (p : Process Envelope) : Option MessageRecord :=
  match p.poll with
  | .acquiring record _ => some record
  | _ => none

/--
No slot is given to a record whose message has been requeued for later since the
record was fetched.
-/
def Current (p : Process Envelope) : ProcessAction Envelope → Prop
  | .poll => p.permits ≠ 0 → ∀ record ∈ p.acquiring?, p.UpToDate record
  | _ => True

instance (p : Process Envelope) (a : ProcessAction Envelope) :
    Decidable (p.Current a) :=
  match a with
  | .poll => inferInstanceAs (Decidable (_ → ∀ _ ∈ _, _))
  | .advance _ | .shutdown | .task _ _ | .post _ | .publish _
  | .publishProceed _ | .publishAccepted _ _ | .publishFailed _ | .ingest _
  | .dlqRetry _ => inferInstanceAs (Decidable True)

/-! ## The invariant -/

def Seen (p : Process Envelope) (mid : String) : Prop :=
  ∀ row, p.store.row? mid = some row → row.visibleAt ≤ timestamp p.time

def Claiming : JobPhase → Prop
  | .claiming _ => True
  | _ => False

structure Visible (p : Process Envelope) : Prop where
  claimed : ∀ mid row, p.store.row? mid = some row → row.status = .claimed →
    row.visibleAt ≤ timestamp p.time
  fetched : ∀ record ∈ p.poll.records, record.visibleAt ≤ timestamp p.time
  spawning : ∀ record batch, p.poll = .spawning record batch → p.Seen record.mid
  claiming : ∀ task ∈ p.tasks, Claiming task.job.phase → p.Seen task.mid
  publishes : ∀ phase ∈ p.publishes, (Call.publishing phase).Unclaimed

/-- No row is put off, and none is claimed or inserted as claimed too early. -/
structure Eases (p p' : Process Envelope) : Prop where
  time : p.time ≤ p'.time
  rows : ∀ mid row', p'.store.row? mid = some row' →
    (p.store.row? mid = none ∧ row'.status ≠ .claimed) ∨
    ∃ row, p.store.row? mid = some row ∧
      (row'.visibleAt = row.visibleAt ∨
        row'.visibleAt ≤ timestamp p'.time) ∧
      (row'.status = .claimed → row.status = .claimed ∨
        row'.visibleAt ≤ timestamp p'.time)

theorem Eases.of_store (htime : p.time ≤ p'.time) (hstore : p'.store = p.store) :
    p.Eases p' where
  time := htime
  rows := by
    intro mid row hrow
    rw [hstore] at hrow
    exact Or.inr ⟨row, hrow, Or.inl rfl, Or.inl⟩

theorem Eases.of_insert {rec : MessageRecord} (htime : p.time ≤ p'.time)
    (hstatus : rec.status ≠ .claimed)
    (hstore : p'.store = (p.store.insertMessage rec).2) : p.Eases p' where
  time := htime
  rows := by
    intro mid row' hrow'
    rw [hstore] at hrow'
    cases hold : p.store.row? mid with
    | some row =>
        cases (Store.insertMessage_row?_of_some hold).symm.trans hrow'
        exact Or.inr ⟨row', rfl, Or.inl rfl, Or.inl⟩
    | none =>
        rcases Store.insertMessage_row? hrow' with hbefore | rfl
        · cases hold.symm.trans hbefore
        · exact Or.inl ⟨rfl, hstatus⟩

theorem Eases.of_moves {mid : String} {change : Progress → Progress}
    (htime : p.time ≤ p'.time) (hmoves : p.store.Moves p'.store mid change)
    (hchange : ∀ row, p.store.row? mid = some row →
      ((change row.toProgress).visibleAt = row.visibleAt ∨
        (change row.toProgress).visibleAt ≤ timestamp p'.time) ∧
      ((change row.toProgress).status = .claimed → row.status = .claimed ∨
        (change row.toProgress).visibleAt ≤ timestamp p'.time)) :
    p.Eases p' where
  time := htime
  rows := by
    intro other row' hrow'
    rcases hmoves.row_cases hrow' with ⟨rfl, row, hrow, rfl⟩ | hold
    · exact Or.inr ⟨row, hrow, hchange row hrow⟩
    · exact Or.inr ⟨row', hold, Or.inl rfl, Or.inl⟩

theorem Eases.of_release {mid : String} {change : Progress → Progress}
    (htime : p.time ≤ p'.time) (hmoves : p.store.Moves p'.store mid change)
    (hvisible : ∀ row : Progress, (change row).visibleAt = row.visibleAt)
    (hstatus : ∀ row : Progress, (change row).status = .claimed →
      row.status = .claimed) : p.Eases p' :=
  .of_moves htime hmoves fun row _ =>
    ⟨Or.inl (hvisible row.toProgress), fun hclaimed =>
      Or.inl (hstatus row.toProgress hclaimed)⟩

theorem Eases.of_claim {mid consumer : String} {lease : Int} {attempt : U32}
    (htime : p.time ≤ p'.time) (hseen : p.Seen mid)
    (hmoves : p.store.Moves p'.store mid fun row =>
      row.claim consumer lease attempt) : p.Eases p' :=
  .of_moves htime hmoves fun row hrow => ⟨Or.inl rfl, fun _ =>
    Or.inr ((hseen row hrow).trans (timestamp_mono htime))⟩

theorem Eases.of_expire {queue : String} {now : Int} (htime : p.time ≤ p'.time)
    (hstore : p'.store = (p.store.expireDue queue now).2) : p.Eases p' where
  time := htime
  rows := by
    intro mid row' hrow'
    rw [hstore, Store.expireDue_row?] at hrow'
    obtain ⟨row, hrow, rfl⟩ := Option.map_eq_some_iff.mp hrow'
    refine Or.inr ⟨row, hrow, ?_⟩
    split
    · exact ⟨Or.inl rfl, fun hclaimed => by simp at hclaimed⟩
    · exact ⟨Or.inl rfl, Or.inl⟩

theorem Eases.seen {record : MessageRecord} (h : p.Eases p')
    (hknown : Known p.store record) (hseen : p.Seen record.mid) :
    p'.Seen record.mid := by
  intro row' hrow'
  obtain ⟨known, hrow, -⟩ := hknown
  rcases h.rows _ _ hrow' with ⟨hnone, -⟩ | ⟨row, hold, hsame | hdue, -⟩
  · cases hnone.symm.trans hrow
  · rw [hsame]
    exact (hseen row hold).trans (timestamp_mono h.time)
  · exact hdue

theorem Visible.eased (h : p.Visible) (hg : p.Grounded) (he : p.Eases p')
    (hfetched : ∀ record ∈ p'.poll.records,
      record ∈ p.poll.records ∨ record.visibleAt ≤ timestamp p'.time)
    (hspawning : ∀ record batch, p'.poll = .spawning record batch →
      p.poll = .spawning record batch ∨ p'.Seen record.mid)
    (htasks : ∀ task ∈ p'.tasks, Claiming task.job.phase →
      (∃ old ∈ p.tasks, Claiming old.job.phase ∧
        task.job.record = old.job.record) ∨ p'.Seen task.mid)
    (hpublishes : ∀ phase ∈ p'.publishes,
      phase ∈ p.publishes ∨ (Call.publishing phase).Unclaimed) :
    p'.Visible where
  claimed := by
    intro mid row' hrow' hstatus
    rcases he.rows mid row' hrow' with
      ⟨-, hunclaimed⟩ | ⟨row, hrow, hsame | hdue, hclaimed⟩
    · exact absurd hstatus hunclaimed
    · rcases hclaimed hstatus with hbefore | hdue
      · rw [hsame]
        exact (h.claimed mid row hrow hbefore).trans (timestamp_mono he.time)
      · exact hdue
    · exact hdue
  fetched := by
    intro record hrecord
    rcases hfetched record hrecord with hold | hnew
    · exact (h.fetched record hold).trans (timestamp_mono he.time)
    · exact hnew
  spawning := by
    intro record batch hpoll
    rcases hspawning record batch hpoll with hold | hnew
    · refine he.seen (hg.records record ?_) (h.spawning record batch hold)
      rw [hold]
      exact List.mem_cons_self
    · exact hnew
  claiming := by
    intro task htask hclaiming
    rcases htasks task htask hclaiming with ⟨old, hold, hphase, heq⟩ | hnew
    · rw [Task.mid, heq]
      exact he.seen (hg.tasks old hold).1 (h.claiming old hold hphase)
    · exact hnew
  publishes := by
    intro phase hphase
    rcases hpublishes phase hphase with hold | hnew
    · exact h.publishes phase hold
    · exact hnew

theorem Visible.aside (h : p.Visible) (hg : p.Grounded) (he : p.Eases p')
    (hpoll : p'.poll = p.poll) (htasks : p'.tasks = p.tasks)
    (hpublishes : p'.publishes = p.publishes) : p'.Visible := by
  refine h.eased hg he ?_ ?_ ?_ ?_
  · rw [hpoll]
    exact fun _ hrecord => Or.inl hrecord
  · rw [hpoll]
    exact fun _ _ heq => Or.inl heq
  · rw [htasks]
    exact fun task htask hphase => Or.inl ⟨task, htask, hphase, rfl⟩
  · rw [hpublishes]
    exact fun _ hphase => Or.inl hphase

/-! ## Steps of a job -/

theorem Works.claiming {job : Job} {move : TaskMove} {relay : Relay}
    {store : Store} {next : JobPhase} (h : Works W p job move relay store next)
    (hnext : Claiming next) : Claiming job.phase := by
  cases h with
  | proceed hproceeds =>
      generalize job.phase = phase at hproceeds ⊢
      cases hproceeds with
      | claimed | claim _ => trivial
      | timeout _ | settled | settle _ => exact hnext.elim
  | query heq _ _ | contend heq =>
      rw [heq]
      trivial
  | settle _ _ _ | handled _ | panic => exact hnext.elim
  | lose _ hfailed | fail hfailed =>
      generalize job.phase = phase at hfailed ⊢
      cases hfailed
      · trivial
      · exact hnext.elim

structure Requeues (p : Process Envelope) (job : Job) (store : Store)
    (next : JobPhase) : Prop where
  moves : ∃ visibleAt, p.store.Moves store job.record.mid fun row =>
    row.requeue visibleAt
  unfinished : job.phase ≠ .finished
  unclaiming : ¬ Claiming job.phase
  done : ¬ Claiming next

theorem Works.eases {job : Job} {move : TaskMove} {relay : Relay}
    {store : Store} {next : JobPhase} (h : Works W p job move relay store next)
    (hconcerns : Concerns job.record job.phase)
    (hseen : Claiming job.phase → p.Seen job.record.mid)
    (htime : p.time ≤ p'.time) (hstore : p'.store = store) :
    p.Eases p' ∨ Requeues p job store next := by
  cases h with
  | query _ _ _ | contend _ | settle _ _ _ | lose _ _ | fail _ | handled _
  | panic => exact Or.inl (.of_store htime hstore)
  | proceed hproceeds =>
      generalize hphase : job.phase = phase at hproceeds hconcerns hseen
      cases hproceeds with
      | claimed | timeout _ | settled => exact Or.inl (.of_store htime hstore)
      | claim hproceeds =>
          cases hproceeds with
          | enter | wake _ => exact Or.inl (.of_store htime hstore)
          | expire => exact Or.inl (.of_expire htime hstore)
          | finish hfinish =>
              have hmoved := ClaimPhase.finishes hfinish
              rw [← hstore] at hmoved
              have hmid : p.Seen job.record.mid := hseen trivial
              rw [← hconcerns.1] at hmid
              cases hmoved with
              | acked hmoves _ | buried hmoves _ =>
                  exact Or.inl (.of_release htime hmoves (fun _ => rfl)
                    fun _ hclaimed => by simp at hclaimed)
              | recognised hmoves _ | contendWon hmoves _ =>
                  exact Or.inl (.of_claim htime hmid hmoves)
      | settle hproceeds =>
          cases hproceeds with
          | ack | nack | configure => exact Or.inl (.of_store htime hstore)
          | @count call reason config =>
              rw [SettlePhase.count_fst] at hstore
              have hmoves : p.store.Moves p'.store call.record.mid .count := by
                rw [hstore]
                exact Store.incrAttempts_moves
              exact Or.inl (.of_release htime hmoves (fun _ => rfl)
                fun _ hclaimed => hclaimed)
          | finish hfinish =>
              have hmoved := SettlePhase.finishes hfinish
              cases hmoved with
              | acked hmoves | buried hmoves =>
                  rw [← hstore] at hmoves
                  exact Or.inl (.of_release htime hmoves (fun _ => rfl)
                    fun _ hclaimed => by simp at hclaimed)
              | requeued hmoves =>
                  rw [hconcerns.1] at hmoves
                  refine Or.inr ⟨⟨_, hmoves⟩, ?_, ?_, ?_⟩
                  · simp [hphase]
                  · simp [hphase, Claiming]
                  · simp [Claiming]

theorem Visible.requeued {i : Nat} {task : Task} {relay : Relay} {store : Store}
    {next : JobPhase} (h : p.Visible) (hguard : p.Guarded)
    (htask : p.tasks[i]? = some task)
    (hrequeues : Requeues p task.job store next) :
    (p.placed i task relay store { task.job with phase := next }).Visible := by
  obtain ⟨⟨visibleAt, hmoves⟩, hunfinished, hunclaiming, hdone⟩ := hrequeues
  replace hmoves : p.store.Moves store task.mid fun row =>
    row.requeue visibleAt := hmoves
  have others : ∀ {mid : String} {row : Row}, mid ≠ task.mid →
      store.row? mid = some row → p.store.row? mid = some row := by
    intro mid row hne hrow
    rwa [hmoves mid, if_neg hne] at hrow
  have hguarded : task.guarded = true := by
    by_contra hfree
    exact hunfinished (hguard.finished task (List.mem_of_getElem? htask)
      (by simpa using hfree))
  refine ⟨?_, h.fetched, ?_, ?_, h.publishes⟩
  · intro mid row hrow hstatus
    by_cases heq : mid = task.mid
    · change store.row? mid = some row at hrow
      rw [heq] at hrow
      obtain ⟨old, -, rfl⟩ := hmoves.moved hrow
      simp at hstatus
    · exact h.claimed mid row (others heq hrow) hstatus
  · intro record batch hpoll row hrow
    -- The loop holds its record, the task its own.
    have hheld : p.holders[0]? = some (some record.mid) := by
      change p.poll = .spawning record batch at hpoll
      simp [holders, hpoll, PollPhase.holds?]
    have hne : record.mid ≠ task.mid := by
      intro heq
      rw [heq] at hheld
      have hsame := hguard.registered.once 0 (i + 1) task.mid hheld
        (holders_of_task htask hguarded)
      contradiction
    exact h.spawning record batch hpoll row (others hne hrow)
  · intro other hother hclaiming row hrow
    rcases List.mem_or_eq_of_mem_set hother with hold | rfl
    · have hne : other.mid ≠ task.mid := by
        intro heq
        obtain ⟨j, hj⟩ := List.mem_iff_getElem?.mp hold
        have hphase : other.job.phase ≠ .finished := by
          intro hfinished
          rw [hfinished] at hclaiming
          exact hclaiming
        have hsame := hguard.unique hj htask heq hphase hunfinished
        subst hsame
        cases htask.symm.trans hj
        exact hunclaiming hclaiming
      exact h.claiming other hold hclaiming row (others hne hrow)
    · exact absurd hclaiming hdone

theorem Visible.work {i : Nat} {task : Task} {move : TaskMove} {relay : Relay}
    {store : Store} {next : JobPhase} (h : p.Visible) (hguard : p.Guarded)
    (hg : p.Grounded) (htask : p.tasks[i]? = some task)
    (hworks : Works W p task.job move relay store next) :
    (p.placed i task relay store { task.job with phase := next }).Visible := by
  have hmem := List.mem_of_getElem? htask
  let placed := p.placed i task relay store { task.job with phase := next }
  have htime : p.time ≤ placed.time := le_rfl
  rcases hworks.eases (hg.tasks task hmem).2 (h.claiming task hmem) htime rfl
    with heases | hrequeues
  · refine h.eased hg heases (fun _ hrecord => Or.inl hrecord)
      (fun _ _ hpoll => Or.inl hpoll) ?_ fun _ hphase => Or.inl hphase
    intro other hother hclaiming
    rcases List.mem_or_eq_of_mem_set hother with hold | rfl
    · exact Or.inl ⟨other, hold, hclaiming, rfl⟩
    · exact Or.inl ⟨task, hmem, hworks.claiming hclaiming, rfl⟩
  · exact h.requeued hguard htask hrequeues

/-- A pending row is fetched when it is due; a claimed one has been due. -/
theorem Visible.fetched_le (h : p.Visible) {scan : Scan Row} {queue : String}
    {limit : U32} {batch : List MessageRecord} {record : MessageRecord}
    (hbatch : p.store.claimable scan queue (timestamp p.time) limit = .ok batch)
    (hrecord : record ∈ batch) : record.visibleAt ≤ timestamp p.time := by
  obtain ⟨row, hrow, hclaimable, hsame⟩ :=
    Store.claimable_visibleAt hbatch hrecord
  rw [hsame]
  rcases hclaimable.2.1 with ⟨-, hdue⟩ | ⟨hclaimed, -⟩
  · exact hdue
  · exact h.claimed _ row hrow hclaimed

private theorem Visible.polled (h : p.Visible) (hg : p.Grounded)
    (htime : p'.time = p.time) (hstore : p'.store = p.store)
    (htasks : p'.tasks = p.tasks) (hpublishes : p'.publishes = p.publishes)
    (hfetched : ∀ record ∈ p'.poll.records,
      record ∈ p.poll.records ∨ record.visibleAt ≤ timestamp p.time)
    (hspawning : ∀ record batch, p'.poll = .spawning record batch →
      p.Seen record.mid) : p'.Visible := by
  refine h.eased hg (.of_store htime.ge hstore) ?_ ?_ ?_ ?_
  · rw [htime]
    exact hfetched
  · intro record batch hpoll
    refine Or.inr ?_
    unfold Seen
    rw [hstore, htime]
    exact hspawning record batch hpoll
  · rw [htasks]
    exact fun task htask hphase => Or.inl ⟨task, htask, hphase, rfl⟩
  · rw [hpublishes]
    exact fun _ hphase => Or.inl hphase

theorem Visible.step {a : ProcessAction Envelope} (h : p.Visible)
    (hguard : p.Guarded) (hg : p.Grounded) (hcurrent : p.Current a)
    (hs : p.step W a = some p') : p'.Visible := by
  cases step_cases hs with
  | advance => exact h.aside hg (.of_store (Nat.le_add_right _ _) rfl) rfl rfl rfl
  | post => exact h.aside hg (.of_store le_rfl rfl) rfl rfl rfl
  | sweep _ =>
      exact h.eased hg (.of_expire le_rfl rfl) (by simp [PollPhase.records])
        (by simp) (fun task htask hphase => Or.inl ⟨task, htask, hphase, rfl⟩)
        fun _ hphase => Or.inl hphase
  | fetch _ hbatch =>
      exact h.polled hg rfl rfl rfl rfl
        (fun _ hrecord => Or.inr (h.fetched_le hbatch hrecord)) (by simp)
  | skip hpoll _ =>
      refine h.polled hg rfl rfl rfl rfl (fun _ hrecord => Or.inl ?_) (by simp)
      rw [hpoll]
      exact List.mem_cons_of_mem _ hrecord
  | enter hpoll _ =>
      refine h.polled hg rfl rfl rfl rfl (fun _ hrecord => Or.inl ?_) (by simp)
      rw [hpoll]
      exact hrecord
  | refuse _ =>
      exact h.polled hg rfl rfl rfl rfl (by simp [rest, PollPhase.records])
        (by simp [rest])
  | @acquire record batch hpoll hfree =>
      refine h.polled hg rfl rfl rfl rfl (fun _ hrecord => Or.inl ?_) ?_
      · rw [hpoll]
        exact hrecord
      · -- The record that gets the slot was due when it was fetched.
        intro other rest heq row hrow
        cases heq
        have hdue := h.fetched record (by simp [hpoll, PollPhase.records])
        rcases hcurrent hfree record (by simp [acquiring?, hpoll]) row hrow with
          hsame | hnow
        · exact hsame ▸ hdue
        · exact hnow
  | @spawn record batch hpoll =>
      refine h.eased hg (.of_store le_rfl rfl) (fun _ hrecord => Or.inl ?_)
        (by simp) ?_ fun _ hphase => Or.inl hphase
      · rw [hpoll]
        exact List.mem_cons_of_mem _ hrecord
      · intro task htask hclaiming
        rcases List.mem_append.mp htask with hold | hnew
        · exact Or.inl ⟨task, hold, hclaiming, rfl⟩
        · rw [List.mem_singleton.mp hnew]
          exact Or.inr (h.spawning record batch hpoll)
  | turn _ _ hafter hnone =>
      refine h.polled hg rfl rfl rfl rfl (by simp [hnone]) ?_
      intro record batch heq
      cases heq
      contradiction
  | work htask hworks => exact h.work hguard hg htask hworks
  | @dropGuard i task htask hphase _ | @dropPermit i task htask hphase _ =>
      refine h.eased hg (.of_store le_rfl rfl) (fun _ hrecord => Or.inl hrecord)
        (fun _ _ hpoll => Or.inl hpoll) ?_ fun _ hphase => Or.inl hphase
      intro other hother hclaiming
      rcases List.mem_or_eq_of_mem_set hother with hold | rfl
      · exact Or.inl ⟨other, hold, hclaiming, rfl⟩
      · exact Or.inl ⟨task, List.mem_of_getElem? htask, hclaiming, rfl⟩
  | call =>
      refine h.eased hg (.of_store le_rfl rfl) (fun _ hrecord => Or.inl hrecord)
        (fun _ _ hpoll => Or.inl hpoll)
        (fun task htask hphase => Or.inl ⟨task, htask, hphase, rfl⟩) ?_
      intro phase hphase
      rcases List.mem_append.mp hphase with hold | hnew
      · exact Or.inl hold
      · rw [List.mem_singleton.mp hnew]
        exact Or.inr trivial
  | @publish _ i phase next store _ hphase hnext hstore =>
      have heases : p.Eases (p.placePublish i store next) := by
        rcases hstore with rfl | ⟨rec, rfl, rfl⟩
        · exact .of_store le_rfl rfl
        · have hstatus := h.publishes _ (List.mem_of_getElem? hphase)
          exact .of_insert le_rfl hstatus rfl
      refine h.eased hg heases (fun _ hrecord => Or.inl hrecord)
        (fun _ _ hpoll => Or.inl hpoll)
        (fun task htask hphase => Or.inl ⟨task, htask, hphase, rfl⟩) ?_
      intro other hother
      rcases List.mem_or_eq_of_mem_set hother with hold | rfl
      · exact Or.inl hold
      · exact Or.inr hnext
  | @ingest event =>
      refine h.aside hg ?_ rfl rfl rfl
      rcases ingest_unclaimed W.codec p.store event with
        heq | ⟨rec, hstatus, heq⟩
      · exact .of_store le_rfl heq
      · exact .of_insert le_rfl hstatus heq
  | @dlqRetry mid =>
      refine h.aside hg (.of_moves le_rfl Store.dlqRetry_moves ?_) rfl rfl rfl
      intro row _
      have hnow : 0 ≤ timestamp p.time := Int.natCast_nonneg _
      exact ⟨Or.inr hnow, fun hclaimed => by simp at hclaimed⟩

theorem visible
    (h : ((system W).startingIn (Timely W)).Reach Current p) : p.Visible :=
  h.invariant (I := Visible)
    (fun p h₀ => by
      refine ⟨h₀.claimed, ?_, ?_, ?_, ?_⟩
      · simp [h₀.started.poll, PollPhase.records]
      · simp [h₀.started.poll]
      · simp [h₀.started.tasks]
      · simp [h₀.started.publishes])
    fun _ _ _ hr hi hcurrent hs =>
      let hfree := hr.restart fun _ h₀ => h₀.started
      hi.step (guarded hfree) (grounded hfree) hcurrent hs

/-- A handler starts when its task has won the claim, and in no other way. -/
theorem Works.starts {job : Job} {move : TaskMove} {relay : Relay}
    {store : Store} {next : JobPhase} (h : Works W p job move relay store next)
    (hnext : Task.runs next = true) :
    job.phase = .claiming (.returned (.ok true)) := by
  cases h with
  | proceed hproceeds =>
      generalize job.phase = phase at hproceeds
      cases hproceeds with
      | @claimed result =>
          unfold Job.afterClaim at hnext
          split at hnext
          · rfl
          · contradiction
      | claim _ | timeout _ | settled | settle _ => contradiction
  | query _ _ _ | contend _ | settle _ _ _ | handled _ | panic => contradiction
  | lose _ hfailed | fail hfailed =>
      generalize job.phase = phase at hfailed
      cases hfailed <;> contradiction

theorem step_starts {a : ProcessAction Envelope} {i : Nat} {task : Task}
    (hs : p.step W a = some p') (htask : p'.tasks[i]? = some task)
    (hruns : task.Running)
    (hnew : ∀ old, p.tasks[i]? = some old → ¬ old.Running) :
    ∃ old, p.tasks[i]? = some old ∧ old.mid = task.mid ∧
      old.job.phase = .claiming (.returned (.ok true)) := by
  cases step_cases hs with
  | spawn _ =>
      rcases getElem?_concat_cases htask with hold | ⟨-, rfl⟩
      · exact absurd hruns (hnew task hold)
      · contradiction
  | work hold hworks =>
      rcases getElem?_set_cases htask with ⟨rfl, rfl⟩ | ⟨-, hsame⟩
      · exact ⟨_, hold, rfl, hworks.starts hruns⟩
      · exact absurd hruns (hnew task hsame)
  | dropGuard hold _ _ | dropPermit hold _ _ =>
      rcases getElem?_set_cases htask with ⟨rfl, rfl⟩ | ⟨-, hsame⟩
      · exact (hnew _ hold hruns).elim
      · exact absurd hruns (hnew task hsame)
  | advance | sweep _ | fetch _ _ | skip _ _ | enter _ _ | refuse _
  | acquire _ _ | turn _ _ _ _ | post | call | publish _ _ _ _ | ingest
  | dlqRetry => exact absurd hruns (hnew task htask)

/--
As long as no slot is given to a record whose message has been requeued for
later since its fetch, a message is claimed, and its handler started, only when
its row may be handed out.
-/
theorem no_early_delivery
    (h : ((system W).startingIn (Timely W)).Reach Current p) :
    (∀ task ∈ p.tasks, Claiming task.job.phase →
      ∃ row, p.store.row? task.mid = some row ∧
        row.visibleAt ≤ timestamp p.time) ∧
    ∀ (a : ProcessAction Envelope) (p' : Process Envelope) (i : Nat)
      (task : Task), p.step W a = some p' → p'.tasks[i]? = some task →
      task.Running → (∀ old, p.tasks[i]? = some old → ¬ old.Running) →
      ∃ row, p.store.row? task.mid = some row ∧
        row.visibleAt ≤ timestamp p.time := by
  have hg := grounded (h.restart fun _ h₀ => h₀.started)
  have hclaiming : ∀ task ∈ p.tasks, Claiming task.job.phase →
      ∃ row, p.store.row? task.mid = some row ∧
        row.visibleAt ≤ timestamp p.time := by
    intro task hmem hphase
    obtain ⟨⟨row, hrow, -⟩, -⟩ := hg.tasks task hmem
    exact ⟨row, hrow, (visible h).claiming task hmem hphase row hrow⟩
  refine ⟨hclaiming, fun a p' i task hs htask hruns hnew => ?_⟩
  obtain ⟨old, hold, hmid, hphase⟩ := step_starts hs htask hruns hnew
  rw [← hmid]
  refine hclaiming old (List.mem_of_getElem? hold) ?_
  rw [hphase]
  trivial

section Runs

theorem sampleBoot_timely : Timely sampleProcess sampleBoot := by
  refine ⟨sampleBoot_started, fun mid row hrow hstatus => ?_⟩
  have hmem := (Messages.row?_mem hrow).1
  have hrows : sampleBoot.store.messages.rows = [sampleRecord.toRow] := rfl
  rw [hrows, List.mem_singleton] at hmem
  rw [hmem] at hstatus
  contradiction

theorem no_early_delivery_first :
    ∃ (p p' : Process String) (task : Task) (row : Row),
      p.step sampleProcess (.task 0 .proceed) = some p' ∧
      p'.tasks[0]? = some task ∧ task.Running ∧
      p.store.row? task.mid = some row ∧ row.visibleAt ≤ timestamp p.time := by
  obtain ⟨p, hreach, htest⟩ :=
    (System.Reach.init
      (S := (system sampleProcess).startingIn (Timely sampleProcess))
      (P := Current) sampleBoot_timely).of_run_check
      (staleMoves ++ winMoves 0 (hexOf '1'))
      (fun p : Process String =>
        (p.step sampleProcess (.task 0 .proceed)).any
          fun p' : Process String =>
            p'.tasks[0]?.any fun task : Task => decide (task.Running ∧
              ∀ old ∈ p.tasks[0]?, ¬ Task.Running old)) (by decide)
  obtain ⟨p', hstep, htest⟩ := (Option.any_eq_true _ _).mp htest
  obtain ⟨task, htask, htest⟩ := (Option.any_eq_true _ _).mp htest
  obtain ⟨hruns, hnew⟩ := of_decide_eq_true htest
  obtain ⟨row, hrow, hvisible⟩ :=
    (no_early_delivery hreach).2 _ p' 0 task hstep htask hruns hnew
  exact ⟨p, p', task, row, hstep, htask, hruns, hrow, hvisible⟩

def failureMoves : List (ProcessAction String) :=
  [.task 0 .proceed, .task 0 (.handled (.failure "failed")), .task 0 .proceed,
    .task 0 .proceed, .task 0 .proceed, .task 0 (.publish 0 (hexOf '2')),
    .task 0 .proceed, .task 0 .proceed, .task 0 .drop]

/-- The row fetched before the nack is spawned after it, and handled at once. -/
theorem requeued_row_delivered_early :
    ∃ (p p' : Process String) (task : Task) (row : Row),
      ((system sampleProcess).startingIn (Timely sampleProcess)).Reach
        System.Free p ∧
      p.step sampleProcess (.task 1 .proceed) = some p' ∧
      p'.tasks[1]? = some task ∧ task.Running ∧
      (∀ old, p.tasks[1]? = some old → ¬ old.Running) ∧
      p.store.row? task.mid = some row ∧ timestamp p.time < row.visibleAt := by
  obtain ⟨p, hreach, htest⟩ :=
    (System.Reach.init
      (S := (system sampleProcess).startingIn (Timely sampleProcess))
      (P := System.Free) sampleBoot_timely).of_run_check
      (staleMoves ++ winMoves 0 (hexOf '1') ++ failureMoves ++ respawnMoves ++
        winMoves 1 (hexOf '3'))
      (fun p : Process String =>
        (p.step sampleProcess (.task 1 .proceed)).any
          fun p' : Process String =>
            p'.tasks[1]?.any fun task : Task => decide (task.Running ∧
              (∀ old ∈ p.tasks[1]?, ¬ Task.Running old) ∧
              ∃ row ∈ p.store.row? task.mid,
                timestamp p.time < Progress.visibleAt row.toProgress)) (by decide)
  obtain ⟨p', hstep, htest⟩ := (Option.any_eq_true _ _).mp htest
  obtain ⟨task, htask, htest⟩ := (Option.any_eq_true _ _).mp htest
  obtain ⟨hruns, hnew, row, hrow, hearly⟩ := of_decide_eq_true htest
  exact ⟨p, p', task, row, hreach, hstep, htask, hruns, hnew, hrow, hearly⟩

end Runs

end Process

end NostrQ.Worker
