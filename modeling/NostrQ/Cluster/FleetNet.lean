import NostrQ.Cluster.Fleet

/-!
# A fleet is simulated by a net

Seen for one message, each step of a process is a step of the net or none.  The
message's row is the same on both sides, except that a worker of the net has it
from the start; its job is that of the one task that holds the message.
-/

namespace NostrQ.Cluster

open NostrQ.Foundation NostrQ.Core NostrQ.Database NostrQ.Sdk NostrQ.Worker

variable {W Envelope : Type}

/-! ## The relation -/

structure NodeStands (T : Subject W) (w : W) (p : Process Envelope)
    (node : Node W) : Prop where
  queues : node.store.queues = p.store.queues
  row : node.store.row? T.mid = some ((p.store.row? T.mid).getD (T.row w))
  working : ∀ task ∈ p.tasks, task.guarded = true → task.mid = T.mid →
    task.job.phase ≠ .finished →
    ∃ job, node.job = some job ∧ Mirrors task.job job
  idle : ∀ job, node.job = some job →
    ∃ task ∈ p.tasks, task.guarded = true ∧ task.mid = T.mid

structure Stands (T : Subject W) (F : Fleet W Envelope) (net : Net W) :
    Prop where
  time : net.time = F.time
  relay : net.relay = F.relay
  nodes : ∀ w, NodeStands T w (F.processes w) (net.nodes w)

section Nodes

variable {T : Subject W} {w : W} {p p' : Process Envelope} {node : Node W}

def Holders (T : Subject W) (task : Task) : Prop :=
  task.guarded = true ∧ task.mid = T.mid

theorem NodeStands.keep (h : NodeStands T w p node)
    (hagree : AgreeOn T.mid p.store p'.store)
    (htasks : ∀ task, Holders T task → (task ∈ p'.tasks ↔ task ∈ p.tasks)) :
    NodeStands T w p' node where
  queues := h.queues.trans hagree.queues.symm
  row := by rw [h.row, hagree.row]
  working task htask hguarded hmid :=
    h.working task ((htasks task ⟨hguarded, hmid⟩).mp htask) hguarded hmid
  idle job hjob := by
    obtain ⟨task, htask, hholds⟩ := h.idle job hjob
    exact ⟨task, (htasks task hholds).mpr htask, hholds⟩

theorem NodeStands.arrive (h : NodeStands T w p node)
    (hqueues : p'.store.queues = p.store.queues)
    (hkept : ∀ row, p.store.row? T.mid = some row →
      p'.store.row? T.mid = some row)
    (hnew : ∀ row, p.store.row? T.mid = none → p'.store.row? T.mid = some row →
      row = T.row w)
    (htasks : p'.tasks = p.tasks) : NodeStands T w p' node where
  queues := h.queues.trans hqueues.symm
  row := by
    rw [h.row]
    cases hrow : p.store.row? T.mid with
    | some row => rw [hkept row hrow]
    | none =>
        cases hrow' : p'.store.row? T.mid with
        | none => rfl
        | some row => simp [hnew row hrow hrow']
  working := by
    rw [htasks]
    exact h.working
  idle := by
    rw [htasks]
    exact h.idle

theorem mem_set_of_not_holders {i : Nat} {task task' other : Task}
    {tasks : List Task} (htask : tasks[i]? = some task)
    (hbefore : ¬ Holders T task) (hafter : ¬ Holders T task')
    (hother : Holders T other) : other ∈ tasks.set i task' ↔ other ∈ tasks := by
  rw [List.mem_iff_getElem?, List.mem_iff_getElem?]
  apply exists_congr
  intro j
  by_cases hj : i = j
  · subst hj
    have hlt := (List.getElem?_eq_some_iff.mp htask).1
    rw [List.getElem?_set_self hlt, htask]
    simp only [Option.some.injEq]
    constructor
    · rintro rfl
      exact absurd hother hafter
    · rintro rfl
      exact absurd hother hbefore
  · rw [List.getElem?_set_ne hj]

theorem holders_unique (h : p.Guarded) {i j : Nat} {first second : Task}
    (hi : p.tasks[i]? = some first) (hj : p.tasks[j]? = some second)
    (hfirst : Holders T first) (hsecond : Holders T second) : i = j := by
  have hboth := Process.holders_of_task hj hsecond.1
  rw [hsecond.2.trans hfirst.2.symm] at hboth
  have honce := h.registered.once (i + 1) (j + 1) first.mid
    (Process.holders_of_task hi hfirst.1) hboth
  omega

theorem NodeStands.move (hguarded : p.Guarded) {i : Nat} {task : Task}
    {relay : Relay} {s t : Store} {next next' : Job} {history : History W}
    (htask : p.tasks[i]? = some task) (hholds : Holders T task) (hagree : AgreeOn T.mid s t)
    (hstored : ∃ row, s.row? T.mid = some row)
    (hrecord : next.record = task.job.record) (hmirrors : Mirrors next next') :
    NodeStands T w (p.placed i task relay s next)
      ⟨t, some next', history⟩ where
  queues := hagree.queues
  row := by
    obtain ⟨row, hrow⟩ := hstored
    have hkept : (p.placed i task relay s next).store.row? T.mid = some row :=
      hrow
    rw [hkept, Option.getD_some]
    exact hagree.row.trans hrow
  working := by
    intro other hother hg hmid _
    obtain ⟨j, hj⟩ := List.mem_iff_getElem?.mp hother
    rcases getElem?_set_cases hj with ⟨-, rfl⟩ | ⟨hne, hold⟩
    · exact ⟨next', rfl, hmirrors⟩
    · exact absurd (holders_unique hguarded hold htask ⟨hg, hmid⟩ hholds) hne
  idle := by
    intro _ _
    refine ⟨{ task with job := next }, ?_, hholds.1, ?_⟩
    · have hlt := (List.getElem?_eq_some_iff.mp htask).1
      exact List.mem_iff_getElem?.mpr ⟨i, List.getElem?_set_self hlt⟩
    · rw [← hholds.2]
      exact congrArg MessageRecord.mid hrecord

theorem NodeStands.finish (h : NodeStands T w p node) (hguarded : p.Guarded)
    {i : Nat} {task task' : Task} {history : History W}
    (htask : p.tasks[i]? = some task) (hholds : Holders T task)
    (hdone : task'.guarded = true → task'.job.phase = .finished)
    (htasks : p'.tasks = p.tasks.set i task') (hstore : p'.store = p.store) :
    NodeStands T w p' ⟨node.store, none, history⟩ where
  queues := by
    rw [hstore]
    exact h.queues
  row := by
    rw [hstore]
    exact h.row
  working := by
    intro other hother hg hmid hphase
    rw [htasks] at hother
    obtain ⟨j, hj⟩ := List.mem_iff_getElem?.mp hother
    rcases getElem?_set_cases hj with ⟨-, rfl⟩ | ⟨hne, hold⟩
    · exact absurd (hdone hg) hphase
    · exact absurd (holders_unique hguarded hold htask ⟨hg, hmid⟩ hholds) hne
  idle := by
    intro job hjob
    contradiction

end Nodes

/-! ## One step -/

section Steps

variable [DecidableEq W] {S : FleetSetup W Envelope} {T : Subject W}
  {F : Fleet W Envelope} {net net' : Net W} {w : W} {p : Process Envelope}

omit [DecidableEq W] in
theorem Stands.node (h : Stands T F net) :
    NodeStands T w (F.process w) (net.nodes w) :=
  ⟨(h.nodes w).queues, (h.nodes w).row, (h.nodes w).working, (h.nodes w).idle⟩

theorem Stands.place (h : Stands T F net) (htime : net'.time = p.time)
    (hrelay : net'.relay = p.relay)
    (hnode : NodeStands T w p (net'.nodes w))
    (hothers : ∀ w', w' ≠ w → net'.nodes w' = net.nodes w') :
    Stands T (F.place w p) net' where
  time := htime
  relay := hrelay
  nodes w' := by
    by_cases hw : w' = w
    · subst hw
      rwa [Fleet.place_processes_self]
    · rw [Fleet.place_other hw, hothers w' hw]
      exact h.nodes w'

theorem Stands.still (h : Stands T F net) (htime : p.time = F.time)
    (hrelay : p.relay = F.relay) (hnode : NodeStands T w p (net.nodes w)) :
    Stands T (F.place w p) net :=
  h.place (h.time.trans htime.symm) (h.relay.trans hrelay.symm) hnode
    fun _ _ => rfl

theorem Stands.local (h : Stands T F net) {node : Node W}
    (htime : p.time = F.time) (hrelay : p.relay = F.relay)
    (hnode : NodeStands T w p node) :
    Stands T (F.place w p) (net.setNode w node) := by
  apply h.place
  · exact h.time.trans htime.symm
  · exact h.relay.trans hrelay.symm
  · rwa [Net.setNode_self]
  · intro w' hw
    rw [Net.setNode_nodes, if_neg hw]

theorem Stands.other (h : Stands T F net) {event : Event}
    (hunrelated : Unrelated T.message event) (hfresh : NoCollision F.relay event)
    (htime : p.time = F.time)
    (hrelay : p.relay = F.relay ++ [⟨F.time, event⟩])
    (hnode : NodeStands T w p (net.nodes w)) :
    (S.deployment T).system.Matches (Stands T) (F.place w p) net
      (some (.other event)) := by
  rw [← h.relay] at hfresh
  refine ⟨net.accept event, if_pos ⟨hunrelated, hfresh⟩, ?_⟩
  refine h.place (h.time.trans htime.symm) ?_ hnode fun _ _ => rfl
  rw [hrelay, ← h.relay, ← h.time]
  rfl

theorem Stands.advance (h : Stands T F net) (ms : Nat)
    (htime : p.time = F.time + ms) (hrelay : p.relay = F.relay)
    (hnode : NodeStands T w p (net.nodes w)) :
    (S.deployment T).system.Matches (Stands T) (F.place w p) net
      (some (.advance ms)) := by
  refine ⟨{ net with time := net.time + ms }, rfl, ?_⟩
  refine h.place ?_ (h.relay.trans hrelay.symm) hnode fun _ _ => rfl
  rw [htime, ← h.time]

theorem Stands.sweep (h : Stands T F net) {queue : String} {now : Int}
    (hnow : now ≤ timestamp F.time) (htime : p.time = F.time)
    (hrelay : p.relay = F.relay)
    (hstore : p.store = ((F.store w).expireDue queue now).2)
    (htasks : ∀ task, Holders T task →
      (task ∈ p.tasks ↔ task ∈ (F.processes w).tasks)) :
    (S.deployment T).system.Matches (Stands T) (F.place w p) net
      (T.followSweep (F.store w) w queue now) := by
  unfold Subject.followSweep
  split
  · next hdue =>
      obtain ⟨row, hrow, hdue⟩ := hdue
      have hrow : (F.store w).row? T.mid = some row := hrow
      have hlater : Store.Due queue (timestamp net.time) row := by
        obtain ⟨hqueue, hstatus, expiry, hexpiry, hle⟩ := hdue
        rw [h.time]
        exact ⟨hqueue, hstatus, expiry, hexpiry, hle.trans hnow⟩
      refine ⟨_, rfl, h.local htime hrelay ?_⟩
      have hnode := h.nodes w
      have hswept : p.store.row? T.mid = some (row.set row.toProgress.expire) := by
        rw [hstore, Store.expireDue_row?, hrow, Option.map_some, if_pos hdue]
      constructor
      · rw [hstore]
        exact hnode.queues
      · have hbefore : (net.nodes w).store.row? T.mid = some row := by
          rw [hnode.row, show (F.processes w).store.row? T.mid = some row from hrow]
          rfl
        rw [hswept, Option.getD_some, Store.expireDue_row?, hbefore,
          Option.map_some, if_pos hlater]
      · intro task htask hguarded hmid
        have hmem := (htasks task ⟨hguarded, hmid⟩).mp htask
        exact hnode.working task hmem hguarded hmid
      · intro job hjob
        obtain ⟨task, htask, hholds⟩ := hnode.idle job hjob
        exact ⟨task, (htasks task hholds).mpr htask, hholds⟩
  · next hdue =>
      refine h.still htime hrelay ((h.nodes w).keep ?_ htasks)
      rw [hstore]
      apply AgreeOn.expireDue_of_not_due
      intro row hrow hrowDue
      exact hdue ⟨row, hrow, hrowDue⟩

/-! ### The message's own task -/

omit [DecidableEq W] in
theorem NodeStands.agree {q : Process Envelope} {node : Node W} {row : Row}
    (h : NodeStands T w q node) (hrow : q.store.row? T.mid = some row) :
    AgreeOn T.mid q.store node.store :=
  ⟨by rw [h.row, hrow]; rfl, h.queues⟩

omit [DecidableEq W] in
private theorem holds_of_step (hsound : Sound T F) {i : Nat} {task : Task}
    {key : PublicKey} {s : Store} {input : JobInput} {next : Job}
    (htask : (F.processes w).tasks[i]? = some task)
    (hstep : task.job.step key (F.store w) input = some (s, next)) :
    task.guarded = true ∧ task.job.phase ≠ .finished := by
  have hrunning : task.job.phase ≠ .finished := by
    intro hphase
    unfold Job.step Job.stepPhase at hstep
    rw [hphase] at hstep
    cases input with
    | io input => contradiction
    | handled outcome => contradiction
  refine ⟨?_, hrunning⟩
  by_contra hguarded
  have hmem : task ∈ (F.process w).tasks := List.mem_of_getElem? htask
  exact hrunning ((hsound.guarded w).finished task hmem (by simpa using hguarded))

omit [DecidableEq W] in
private theorem Stands.resume (h : Stands T F net) (hsound : Sound T F)
    {i : Nat} {task : Task} {input : JobInput} {s : Store} {next : Job}
    (htask : (F.processes w).tasks[i]? = some task) (hmid : task.mid = T.mid)
    (hstep : task.job.step (S.worker w).key (F.store w) input =
      some (s, next)) :
    ∃ job t next', (net.nodes w).job = some job ∧ Mirrors task.job job ∧
      (S.deployment T).resume net w input = some (job, t, next') ∧
      ∀ relay history, NodeStands T w
        ((F.process w).placed i task relay s next) ⟨t, some next', history⟩ := by
  obtain ⟨hguarded, hrunning⟩ := holds_of_step hsound htask hstep
  have hmem : task ∈ (F.process w).tasks := List.mem_of_getElem? htask
  obtain ⟨job, hjob, hmirrors⟩ :=
    (h.nodes w).working task hmem hguarded hmid hrunning
  obtain ⟨⟨row, hrow, -⟩, hconcerns⟩ := (hsound.grounded w).tasks task hmem
  have hrow : (F.processes w).store.row? task.mid = some row := hrow
  have hown : ∀ phase, task.job.phase = .settling phase →
      SettlesOwn task.job.record.mid phase := by
    intro phase hphase
    rw [hphase] at hconcerns
    exact settlesOwn_of_concerns hconcerns
  have hagree : AgreeOn task.job.record.mid (F.store w) (net.nodes w).store := by
    rw [show task.job.record.mid = T.mid from hmid]
    exact (h.nodes w).agree (hmid ▸ hrow)
  obtain ⟨t, next', hstep', hagree', hnext⟩ :=
    hmirrors.step hagree hown hstep
  refine ⟨job, t, next', hjob, hmirrors, ?_, ?_⟩
  · unfold Deployment.resume
    rw [hjob, Option.bind_some]
    exact Option.map_eq_some_iff.mpr ⟨_, hstep', rfl⟩
  · intro relay history
    rw [show task.job.record.mid = T.mid from hmid] at hagree'
    obtain ⟨progress, hrow'⟩ := (Job.step_rewrites hstep).keeps T.mid row
      (hmid ▸ hrow)
    exact NodeStands.move (hsound.guarded w) htask ⟨hguarded, hmid⟩ hagree'
      ⟨_, hrow'⟩ (Job.step_fields hstep).1 hnext

private theorem Stands.alone (h : Stands T F net) (hsound : Sound T F)
    {i : Nat} {task : Task} {input : JobInput}
    (htask : (F.processes w).tasks[i]? = some task) (hmid : task.mid = T.mid)
    (hstep : (F.process w).advanceTask (S.worker w) i task F.relay input =
      some p) :
    ∃ net', (S.deployment T).local? net w input = some net' ∧
      Stands T (F.place w p) net' := by
  obtain ⟨⟨s, next⟩, hjob, rfl⟩ := Option.map_eq_some_iff.mp hstep
  obtain ⟨job, t, next', -, -, hresume, hnode⟩ :=
    h.resume hsound htask hmid hjob
  refine ⟨_, Option.map_eq_some_iff.mpr ⟨_, hresume, rfl⟩, ?_⟩
  exact h.local rfl rfl (hnode _ _)

private theorem Stands.query (h : Stands T F net) (hsound : Sound T F)
    {i : Nat} {task : Task} (htask : (F.processes w).tasks[i]? = some task)
    (hmid : task.mid = T.mid)
    (hstep : (F.process w).taskStep (S.worker w) i task .query = some p) :
    ∃ net', (S.deployment T).query net w = some net' ∧
      Stands T (F.place w p) net' := by
  obtain ⟨filter, hfilter, hadvance⟩ := Option.bind_eq_some_iff.mp hstep
  obtain ⟨⟨s, next⟩, hjob, rfl⟩ := Option.map_eq_some_iff.mp hadvance
  obtain ⟨job, t, next', hnetJob, hmirrors, hresume, hnode⟩ :=
    h.resume hsound htask hmid hjob
  have hfilter' : (net.nodes w).job.bind Job.query? = some filter := by
    rw [hnetJob, Option.bind_some, hmirrors.query?, hfilter]
  change (S.deployment T).resume net w
    (.io (.answer (F.relay.query filter))) = _ at hresume
  rw [← h.relay] at hresume
  refine ⟨_, ?_, h.place ?_ ?_ ?_ fun w' hw =>
    (S.deployment T).answered_other w (net.relay.query filter) job t next' hw⟩
  · simp only [Deployment.query, hfilter', Option.bind_some, hresume,
      Option.map_some]
  · rw [Deployment.answered_time, h.time]
    rfl
  · rw [Deployment.answered_relay, h.relay]
    rfl
  · rw [Deployment.answered_self]
    exact hnode _ _

omit [DecidableEq W] in
private theorem fresh_of_accepting {i : Nat} {task : Task} {input : JobInput}
    {createdAt : U64} {id : EventId} {draft : Draft}
    (hids : ∀ accepted ∈ p.relay.drop F.relay.length,
      NoCollision F.relay accepted.event)
    (hstep : (F.process w).advanceTask (S.worker w) i task
      ((F.process w).accepting (S.worker w) draft createdAt id) input =
      some p) :
    NoCollision F.relay (draft.sign (S.worker w).key createdAt id) := by
  obtain ⟨_, _, hp⟩ := Option.map_eq_some_iff.mp hstep
  refine hids ⟨F.time, draft.sign (S.worker w).key createdAt id⟩ ?_
  rw [← hp]
  simp [Process.placed, Process.accepting, Fleet.process]

private theorem Stands.send (h : Stands T F net) (hsound : Sound T F)
    {i : Nat} {task : Task} {input : JobInput} {createdAt : U64} {id : EventId}
    {draft : Draft} (htask : (F.processes w).tasks[i]? = some task)
    (hmid : task.mid = T.mid)
    (hdraft : task.job.publish? (S.worker w).hashtag = some draft)
    (hfresh : NoCollision F.relay (draft.sign (S.worker w).key createdAt id))
    (hstep : (F.process w).advanceTask (S.worker w) i task
      ((F.process w).accepting (S.worker w) draft createdAt id) input =
      some p) :
    ∃ event job t next', (S.deployment T).outgoing net w createdAt id =
        some event ∧ NoCollision net.relay event ∧
      (S.deployment T).resume net w input = some (job, t, next') ∧
      Stands T (F.place w p) (net.published w event job t next') := by
  obtain ⟨⟨s, next⟩, hjob, rfl⟩ := Option.map_eq_some_iff.mp hstep
  obtain ⟨job, t, next', hnetJob, hmirrors, hresume, hnode⟩ :=
    h.resume hsound htask hmid hjob
  have houtgoing : (S.deployment T).outgoing net w createdAt id =
      some (draft.sign (S.worker w).key createdAt id) := by
    unfold Deployment.outgoing
    rw [hnetJob, Option.bind_some, hmirrors.publish?]
    rw [S.hashtags w] at hdraft
    change (task.job.publish? S.hashtag).map _ = _
    rw [hdraft]
    rfl
  refine ⟨_, job, t, next', houtgoing, h.relay.symm ▸ hfresh, hresume, ?_⟩
  refine h.place ?_ ?_ ?_ fun w' hw => Net.published_other w _ job t next' hw
  · rw [Net.published_time, h.time]
    rfl
  · rw [Net.published_relay, h.relay, h.time]
    rfl
  · rw [Net.published_self]
    exact hnode _ _

private theorem Stands.own (h : Stands T F net) (hsound : Sound T F) {i : Nat}
    {task : Task} {move : TaskMove}
    (htask : (F.processes w).tasks[i]? = some task) (hmid : task.mid = T.mid)
    (hids : ∀ accepted ∈ p.relay.drop F.relay.length,
      NoCollision F.relay accepted.event)
    (hstep : (F.process w).taskStep (S.worker w) i task move = some p) :
    (S.deployment T).system.Matches (Stands T) (F.place w p) net
      (Subject.followOwn w task move) := by
  have hmem : task ∈ (F.process w).tasks := List.mem_of_getElem? htask
  cases move with
  | proceed =>
      have halone := h.alone hsound htask hmid hstep
      change ∃ net', (S.deployment T).local? net w _ = _ ∧ _
      rwa [h.time]
  | query => exact h.query hsound htask hmid hstep
  | publish createdAt id =>
      obtain ⟨draft, hdraft, hadvance⟩ := Option.bind_eq_some_iff.mp hstep
      have hfresh := fresh_of_accepting hids hadvance
      obtain ⟨event, job, t, next', houtgoing, hnew, hresume, hstands⟩ :=
        h.send hsound htask hmid hdraft hfresh hadvance
      refine ⟨_, ?_, hstands⟩
      change (S.deployment T).publish net w createdAt id = _
      change (S.deployment T).resume net w (.io (.accepted F.time)) = _ at hresume
      rw [← h.time] at hresume
      simp only [Deployment.publish, houtgoing, Option.bind_some, hnew, if_true,
        hresume, Option.map_some]
  | lose createdAt id =>
      obtain ⟨draft, hdraft, hadvance⟩ := Option.bind_eq_some_iff.mp hstep
      have hfresh := fresh_of_accepting hids hadvance
      obtain ⟨event, job, t, next', houtgoing, hnew, hresume, hstands⟩ :=
        h.send hsound htask hmid hdraft hfresh hadvance
      refine ⟨_, ?_, hstands⟩
      change (S.deployment T).lose net w createdAt id = _
      simp only [Deployment.lose, houtgoing, Option.bind_some, hnew, if_true,
        hresume, Option.map_some]
  | fail => exact h.alone hsound htask hmid hstep
  | handled outcome => exact h.alone hsound htask hmid hstep
  | panic =>
      cases hstep
      simp only [Subject.followOwn]
      split
      · next hphase =>
          have hsame : { task with job := { task.job with phase := .finished } } =
              task := by
            rw [← hphase]
          refine h.still rfl rfl ((h.nodes w).keep (.refl _ _) ?_)
          intro other _
          have htasks : ((F.process w).placed i task F.relay (F.process w).store
              { task.job with phase := .finished }).tasks =
              (F.processes w).tasks := by
            obtain ⟨hlt, rfl⟩ := List.getElem?_eq_some_iff.mp htask
            simp only [Process.placed, hsame]
            exact List.set_getElem_self hlt
          exact iff_of_eq (congrArg (other ∈ ·) htasks)
      · next hphase =>
          have hguarded : task.guarded = true := by
            by_contra hg
            exact hphase ((hsound.guarded w).finished task hmem (by simpa using hg))
          refine ⟨_, rfl, h.local rfl rfl ?_⟩
          exact h.node.finish (hsound.guarded w) htask ⟨hguarded, hmid⟩
            (fun _ => rfl) rfl rfl
  | drop =>
      simp only [Process.taskStep, Process.dropTask] at hstep
      split at hstep
      · contradiction
      · next hfinished =>
          split at hstep
          · next hguarded =>
              cases hstep
              simp only [Subject.followOwn, if_pos hguarded]
              refine ⟨_, rfl, h.local rfl rfl ?_⟩
              exact h.node.finish (hsound.guarded w) htask ⟨hguarded, hmid⟩
                (fun hg => by contradiction) rfl rfl
          · next hguarded =>
              split at hstep
              · cases hstep
                simp only [Subject.followOwn, if_neg hguarded]
                refine h.still rfl rfl ((h.nodes w).keep (.refl _ _) ?_)
                intro other hother
                exact mem_set_of_not_holders htask (fun ho => hguarded ho.1)
                  (fun ho => hguarded ho.1) hother
              · contradiction

/-! ### The tasks of other messages -/

private def RefersTo (message : EventId) (draft : Draft) : Prop :=
  matchTag "e" [message.toHex] draft.tags = true

private theorem unrelated_of_not_refers {message : EventId} {draft : Draft}
    (h : ¬ RefersTo message draft) (key : PublicKey) (createdAt : U64)
    (id : EventId) : Unrelated message (draft.sign key createdAt id) := by
  have hfalse : matchTag "e" [message.toHex] draft.tags = false := by
    simpa [RefersTo] using h
  refine ⟨?_, ?_, ?_⟩ <;>
    simp [Filter.matchEvent, claimFilter, nackFilter, terminalFilter,
      Draft.sign, hfalse]

private theorem refersTo_lifecycle {message : EventId} {hashtag : String → String}
    {ref : MessageRef} {more : List (List String)}
    (hmore : ∀ tag ∈ more, tag.head? ≠ some "e")
    (h : matchTag "e" [message.toHex] (lifecycleTags hashtag ref ++ more) =
      true) : ref.eventId = message := by
  have hnone : matchTag "e" [message.toHex] more = false := by
    simp only [matchTag, List.isEmpty_cons, Bool.false_or, List.any_eq_false]
    intro tag htag
    have hhead := hmore tag htag
    cases tag with
    | nil => simp
    | cons found values =>
        cases values with
        | nil => simp
        | cons value rest => simp_all
  simp only [matchTag, List.isEmpty_cons, Bool.false_or] at h hnone
  rw [List.any_append, hnone, Bool.or_false] at h
  simp [lifecycleTags] at h
  exact Hex32.ext_toHex h

private theorem claim_refersTo {message : EventId} {hashtag : String → String}
    {ref : MessageRef} {lease : Int} {attempt : U32}
    (h : RefersTo message (buildClaimEvent hashtag ref lease attempt)) :
    ref.eventId = message :=
  refersTo_lifecycle (by simp) h

private theorem settle_refersTo {message : EventId} {hashtag : String → String}
    {phase : SettlePhase} {draft : Draft}
    (hdraft : phase.publish? hashtag = some draft)
    (h : RefersTo message draft) :
    ∃ call stage, phase = .during call stage ∧ call.message = message := by
  unfold SettlePhase.publish? at hdraft
  split at hdraft
  · next call =>
      cases hdraft
      have hack : matchTag "e" [message.toHex]
          (lifecycleTags hashtag call.ref ++ []) = true := by
        rw [List.append_nil]
        exact h
      exact ⟨call, _, rfl, refersTo_lifecycle (by simp) hack⟩
  · next call _ _ _ =>
      cases hdraft
      exact ⟨call, _, rfl, refersTo_lifecycle (by simp) h⟩
  · next call _ _ =>
      cases hdraft
      exact ⟨call, _, rfl, refersTo_lifecycle (by simp) h⟩
  · contradiction

private theorem refersTo_own {message : EventId} {hashtag : String → String}
    {job : Job} {draft : Draft}
    (hconcerns : Process.Concerns job.record job.phase)
    (hdraft : job.publish? hashtag = some draft) (h : RefersTo message draft) :
    Hex32.fromHex job.record.eventId = some message := by
  unfold Job.publish? at hdraft
  split at hdraft
  · next phase hphase =>
      obtain ⟨call, observed, rfl, rfl⟩ := ClaimPhase.publish?_cases hdraft
      rw [hphase] at hconcerns
      rw [hconcerns.2]
      exact congrArg some (claim_refersTo h)
  · next phase hphase =>
      obtain ⟨call, stage, rfl, hmessage⟩ := settle_refersTo hdraft h
      rw [hphase] at hconcerns
      rw [hconcerns.2, hmessage]
  · contradiction

omit [DecidableEq W] in
private theorem Stands.aside (h : Stands T F net) {i : Nat} {task : Task}
    {relay : Relay} {s : Store} {next : Job}
    (htask : (F.processes w).tasks[i]? = some task) (hmid : task.mid ≠ T.mid)
    (hagree : AgreeOn T.mid (F.store w) s)
    (hrecord : next.record = task.job.record) :
    NodeStands T w ((F.process w).placed i task relay s next)
      (net.nodes w) := by
  refine (h.nodes w).keep hagree fun other hother => ?_
  refine mem_set_of_not_holders htask (fun ho => hmid ho.2) ?_ hother
  intro ho
  exact hmid ((congrArg MessageRecord.mid hrecord).symm.trans ho.2)

omit [DecidableEq W] in
private theorem Sound.unrelated (h : Sound T F) {task : Task} {draft : Draft}
    (htask : task ∈ (F.processes w).tasks) (hmid : task.mid ≠ T.mid)
    (hdraft : task.job.publish? S.hashtag = some draft) (createdAt : U64)
    (id : EventId) :
    Unrelated T.message (draft.sign (S.worker w).key createdAt id) := by
  obtain ⟨⟨row, hrow, hevent⟩, hconcerns⟩ := (h.grounded w).tasks task htask
  refine unrelated_of_not_refers (fun hrefers => ?_) _ _ _
  have hmessage := refersTo_own hconcerns hdraft hrefers
  exact h.rows w _ row hrow hmid (hevent ▸ hmessage)

private theorem Stands.posted (h : Stands T F net) (hsound : Sound T F)
    {i : Nat} {task : Task} {input : JobInput} {createdAt : U64} {id : EventId}
    {draft : Draft} (htask : (F.processes w).tasks[i]? = some task)
    (hmid : task.mid ≠ T.mid)
    (hids : ∀ accepted ∈ p.relay.drop F.relay.length,
      NoCollision F.relay accepted.event)
    (hdraft : task.job.publish? (S.worker w).hashtag = some draft)
    (hstore : ∀ s next, task.job.step (S.worker w).key (F.store w) input =
      some (s, next) → s = F.store w)
    (hstep : (F.process w).advanceTask (S.worker w) i task
      ((F.process w).accepting (S.worker w) draft createdAt id) input =
      some p) :
    (S.deployment T).system.Matches (Stands T) (F.place w p) net
      ((task.job.publish? S.hashtag).map fun draft =>
        .other (draft.sign (S.worker w).key createdAt id)) := by
  obtain ⟨⟨s, next⟩, hjob, rfl⟩ := Option.map_eq_some_iff.mp hstep
  obtain rfl := hstore s next hjob
  rw [S.hashtags w] at hdraft
  rw [hdraft]
  have hunrelated := hsound.unrelated (List.mem_of_getElem? htask) hmid hdraft
    createdAt id
  refine h.other hunrelated (fresh_of_accepting hids hstep) rfl rfl ?_
  exact h.aside htask hmid (.refl _ _) (Job.step_fields hjob).1

private theorem Stands.informed (h : Stands T F net) {i : Nat} {task : Task}
    {input : JobInput} (htask : (F.processes w).tasks[i]? = some task)
    (hmid : task.mid ≠ T.mid)
    (hstore : ∀ s next, task.job.step (S.worker w).key (F.store w) input =
      some (s, next) → s = F.store w)
    (hstep : (F.process w).advanceTask (S.worker w) i task F.relay input =
      some p) : Stands T (F.place w p) net := by
  obtain ⟨⟨s, next⟩, hjob, rfl⟩ := Option.map_eq_some_iff.mp hstep
  obtain rfl := hstore s next hjob
  exact h.still rfl rfl
    (h.aside htask hmid (.refl _ _) (Job.step_fields hjob).1)

private theorem Stands.called (h : Stands T F net) (hsound : Sound T F)
    {i : Nat} {task : Task} (htask : (F.processes w).tasks[i]? = some task)
    (hmid : task.mid ≠ T.mid)
    (hstep : (F.process w).advanceTask (S.worker w) i task F.relay
      (.io (.proceed F.time)) = some p) :
    (S.deployment T).system.Matches (Stands T) (F.place w p) net
      (T.followOther S (F.store w) w task .proceed) := by
  have hmem : task ∈ (F.process w).tasks := List.mem_of_getElem? htask
  obtain ⟨⟨s, next⟩, hjob, rfl⟩ := Option.map_eq_some_iff.mp hstep
  have hrecord := (Job.step_fields hjob).1
  rcases Proceeds.elsewhere (Job.step_proceed hjob)
    ((hsound.grounded w).tasks task hmem).2 (Ne.symm hmid) with
    ⟨record, now, hphase, rfl⟩ | ⟨hphase, hagree⟩
  · have hnow := hsound.belated w task hmem
    rw [hphase] at hnow
    simp only [Subject.followOther, hphase]
    refine h.sweep hnow rfl rfl rfl fun other hother => ?_
    refine mem_set_of_not_holders htask (fun ho => hmid ho.2) ?_ hother
    intro ho
    exact hmid ((congrArg MessageRecord.mid hrecord).symm.trans ho.2)
  · have hnone : T.followOther S (F.store w) w task .proceed = none := by
      unfold Subject.followOther
      dsimp only
      split
      · next heq => exact absurd heq (hphase _ _)
      · rfl
    rw [hnone]
    exact h.still rfl rfl (h.aside htask hmid hagree hrecord)

private theorem Stands.dropped (h : Stands T F net) {i : Nat} {task : Task}
    (htask : (F.processes w).tasks[i]? = some task) (hmid : task.mid ≠ T.mid)
    (hstep : (F.process w).dropTask i task = some p) :
    Stands T (F.place w p) net := by
  have hset : ∀ task' : Task, task'.job = task.job → ∀ other,
      Holders T other →
      (other ∈ (F.processes w).tasks.set i task' ↔
        other ∈ (F.processes w).tasks) := by
    intro task' hjob other hother
    refine mem_set_of_not_holders htask (fun ho => hmid ho.2) ?_ hother
    intro ho
    exact hmid ((congrArg (fun job => job.record.mid) hjob).symm.trans ho.2)
  unfold Process.dropTask at hstep
  split at hstep
  · contradiction
  · split at hstep
    · cases hstep
      exact h.still rfl rfl ((h.nodes w).keep (.refl _ _) (hset _ rfl))
    · split at hstep
      · cases hstep
        exact h.still rfl rfl ((h.nodes w).keep (.refl _ _) (hset _ rfl))
      · contradiction

private theorem Stands.another (h : Stands T F net) (hsound : Sound T F)
    {i : Nat} {task : Task} {move : TaskMove}
    (htask : (F.processes w).tasks[i]? = some task) (hmid : task.mid ≠ T.mid)
    (hids : ∀ accepted ∈ p.relay.drop F.relay.length,
      NoCollision F.relay accepted.event)
    (hstep : (F.process w).taskStep (S.worker w) i task move = some p) :
    (S.deployment T).system.Matches (Stands T) (F.place w p) net
      (T.followOther S (F.store w) w task move) := by
  cases move with
  | proceed => exact h.called hsound htask hmid hstep
  | query =>
      obtain ⟨filter, -, hadvance⟩ := Option.bind_eq_some_iff.mp hstep
      exact h.informed htask hmid
        (fun _ _ hjob => (Job.step_answer hjob).1) hadvance
  | publish createdAt id =>
      obtain ⟨draft, hdraft, hadvance⟩ := Option.bind_eq_some_iff.mp hstep
      exact h.posted hsound htask hmid hids hdraft
        (fun _ _ hjob => (Job.step_accepted hjob).1) hadvance
  | lose createdAt id =>
      obtain ⟨draft, hdraft, hadvance⟩ := Option.bind_eq_some_iff.mp hstep
      exact h.posted hsound htask hmid hids hdraft
        (fun _ _ hjob => (Job.step_failed hjob).1) hadvance
  | fail =>
      exact h.informed htask hmid
        (fun _ _ hjob => (Job.step_failed hjob).1) hstep
  | handled outcome =>
      exact h.informed htask hmid
        (fun _ _ hjob => (Job.step_handled hjob).1) hstep
  | panic =>
      cases hstep
      exact h.still rfl rfl (h.aside htask hmid (.refl _ _) rfl)
  | drop => exact h.dropped htask hmid hstep

/-! ### The process -/

omit [DecidableEq W] in
private theorem free_of_spawning (hsound : Sound T F) {record : MessageRecord}
    {batch : List MessageRecord}
    (hpoll : (F.processes w).poll = .spawning record batch)
    (hmid : record.mid = T.mid) :
    ∀ task ∈ (F.processes w).tasks, ¬ Holders T task := by
  intro task htask ⟨hguarded, htaskMid⟩
  obtain ⟨i, hi⟩ := List.mem_iff_getElem?.mp htask
  have hloop : (F.process w).holders[0]? = some (some task.mid) := by
    have hholds : (F.process w).poll.holds? = some record.mid := by
      simp [Fleet.process, hpoll, PollPhase.holds?]
    simp [Process.holders, hholds, hmid, htaskMid]
  have hheld : (F.process w).holders[i + 1]? = some (some task.mid) :=
    Process.holders_of_task hi hguarded
  have honce := (hsound.guarded w).registered.once 0 (i + 1) task.mid
    hloop hheld
  omega

omit [DecidableEq W] in
private theorem Stands.ready (h : Stands T F net) (hsound : Sound T F)
    {record : MessageRecord} {batch : List MessageRecord}
    (hpoll : (F.processes w).poll = .spawning record batch)
    (hmid : record.mid = T.mid)
    (hcurrent : Subject.Current (F.store w) record) :
    (net.nodes w).job = none ∧ ∃ current,
      (net.nodes w).store.getMessage T.mid = .ok (some current) ∧
      ReadsAlike record current := by
  have hnode := h.nodes w
  constructor
  · cases hjob : (net.nodes w).job with
    | none => rfl
    | some job =>
        obtain ⟨task, htask, hholds⟩ := hnode.idle job hjob
        exact absurd hholds (free_of_spawning hsound hpoll hmid task htask)
  · unfold Subject.Current at hcurrent
    split at hcurrent
    · next current hget =>
        obtain ⟨row, hrow, -⟩ := Store.getMessage_shows hget
        have hagree := hnode.agree (hmid ▸ hrow)
        refine ⟨current, ?_, hcurrent⟩
        rw [hagree.getMessage, ← hmid]
        exact hget
    · exact hcurrent.elim

private theorem Stands.spawn (h : Stands T F net) (hsound : Sound T F)
    {record : MessageRecord} {batch : List MessageRecord}
    (hpoll : (F.processes w).poll = .spawning record batch)
    (hcurrent : record.mid = T.mid → Subject.Current (F.store w) record)
    (htime : p.time = F.time) (hrelay : p.relay = F.relay)
    (hstore : p.store = F.store w)
    (htasks : p.tasks =
      (F.processes w).tasks ++ [.spawn record (S.worker w).options]) :
    (S.deployment T).system.Matches (Stands T) (F.place w p) net
      (if record.mid = T.mid then
        some (.fetch w (S.worker w).options.leaseSeconds) else none) := by
  have hnode := h.nodes w
  split
  · next hmid =>
      obtain ⟨hidle, current, hget, halike⟩ :=
        h.ready hsound hpoll hmid (hcurrent hmid)
      refine ⟨net.setNode w ⟨(net.nodes w).store,
        some (.spawn current (S.worker w).options.leaseSeconds S.settleMs),
        { (net.nodes w).history with fresh := true }⟩, ?_,
        h.local htime hrelay ?_⟩
      · change (S.deployment T).fetch net w _ = _
        unfold Deployment.fetch
        rw [hidle, show (net.nodes w).store.getMessage (S.deployment T).mid =
          .ok (some current) from hget]
        rfl
      · constructor
        · rw [hstore]
          exact hnode.queues
        · rw [hstore]
          exact hnode.row
        · intro task htask hguarded htaskMid _
          rw [htasks] at htask
          rcases List.mem_append.mp htask with hold | hnew
          · exact absurd ⟨hguarded, htaskMid⟩
              (free_of_spawning hsound hpoll hmid task hold)
          · refine ⟨_, rfl, ?_⟩
            rw [List.mem_singleton.mp hnew, ← S.settles w]
            exact Mirrors.spawn halike _ _
        · intro _ _
          refine ⟨.spawn record (S.worker w).options, ?_, rfl, hmid⟩
          rw [htasks]
          exact List.mem_append_right _ (List.mem_singleton_self _)
  · next hmid =>
      refine h.still htime hrelay (hnode.keep (hstore ▸ .refl _ _) ?_)
      intro task hholds
      rw [htasks, List.mem_append, List.mem_singleton]
      constructor
      · rintro (hold | rfl)
        · exact hold
        · exact absurd hholds.2 hmid
      · exact Or.inl

private theorem Stands.retried (h : Stands T F net) {mid : String}
    (hdead : mid = T.mid → ∀ row ∈ (F.store w).row? T.mid, row.status = .dead)
    (htime : p.time = F.time) (hrelay : p.relay = F.relay)
    (hstore : p.store = ((F.store w).dlqRetry mid).2)
    (htasks : p.tasks = (F.processes w).tasks) :
    (S.deployment T).system.Matches (Stands T) (F.place w p) net
      (if mid = T.mid ∧ ((F.store w).row? T.mid).isSome then some (.retry w)
        else none) := by
  have hnode := h.nodes w
  have hsame : ∀ task, Holders T task →
      (task ∈ p.tasks ↔ task ∈ (F.processes w).tasks) := by
    intro task _
    rw [htasks]
  split
  · next hown =>
      obtain ⟨rfl, hsome⟩ := hown
      obtain ⟨row, hrow⟩ := Option.isSome_iff_exists.mp hsome
      have hstatus := hdead rfl row hrow
      have hagree := hnode.agree hrow
      have hretried := (dlqRetry_ownRow T.mid).agree _ _ hagree
      have hbefore : (net.nodes w).store.row? T.mid = some row :=
        hagree.row.trans hrow
      refine ⟨net.setNode w { net.nodes w with
        store := ((net.nodes w).store.dlqRetry T.mid).2
        history := { (net.nodes w).history with
          retried := some net.relay.length, fresh := false } }, ?_,
        h.local htime hrelay ?_⟩
      · change (S.deployment T).retry net w = _
        unfold Deployment.retry
        rw [show (net.nodes w).store.row? (S.deployment T).mid = some row
          from hbefore]
        exact if_pos hstatus
      · have hrow' := Store.dlqRetry_moves.row hrow
        have hkept : p.store.row? T.mid =
            some (row.set (row.toProgress.retry)) := by
          rw [hstore]
          exact hrow'
        constructor
        · rw [hstore]
          exact hretried.queues
        · rw [hkept, Option.getD_some]
          exact hretried.row.trans hrow'
        · rw [htasks]
          exact hnode.working
        · rw [htasks]
          exact hnode.idle
  · next hother =>
      refine h.still htime hrelay (hnode.keep ?_ hsame)
      rw [hstore]
      by_cases hmid : mid = T.mid
      · subst hmid
        have hnone : (F.store w).row? T.mid = none := by simpa using hother
        constructor
        · rw [Store.dlqRetry_moves T.mid, if_pos rfl, hnone]
          exact hnone.symm
        · exact Store.dlqRetry_queues
      · exact (dlqRetry_ownRow mid).others _ _ (Ne.symm hmid)

private theorem Stands.inserted (h : Stands T F net)
    (hadmits : ∀ row ∈ p.store.messages.rows,
      (F.store w).row? row.mid = none → T.Admits w row)
    (htime : p.time = F.time) (hrelay : p.relay = F.relay)
    (hstore : p.store = F.store w ∨
      ∃ rec, p.store = ((F.store w).insertMessage rec).2)
    (htasks : p.tasks = (F.processes w).tasks) :
    Stands T (F.place w p) net := by
  refine h.still htime hrelay ((h.nodes w).arrive ?_ ?_ ?_ htasks)
  · rcases hstore with hsame | ⟨rec, hnew⟩
    · rw [hsame]
      rfl
    · rw [hnew]
      rfl
  · intro row hrow
    rcases hstore with hsame | ⟨rec, hnew⟩
    · rw [hsame]
      exact hrow
    · rw [hnew]
      exact Store.insertMessage_row?_of_some hrow
  · intro row hnone hrow
    obtain ⟨hmem, hmid⟩ := Messages.row?_mem hrow
    have hrowAdmits := hadmits row hmem (hmid.symm ▸ hnone)
    rwa [Subject.Admits, if_pos hmid] at hrowAdmits

private theorem Stands.turned (h : Stands T F net) (htime : p.time = F.time)
    (hrelay : p.relay = F.relay) (hstore : p.store = F.store w)
    (htasks : p.tasks = (F.processes w).tasks) :
    Stands T (F.place w p) net := by
  refine h.still htime hrelay ((h.nodes w).keep ?_ fun task _ => ?_)
  · rw [hstore]
    exact .refl _ _
  · rw [htasks]

private theorem Stands.polled (h : Stands T F net) (hsound : Sound T F)
    (hsheltered : T.Sheltered F w .poll)
    (hstep : (F.process w).pollStep (S.worker w) = some p) :
    (S.deployment T).system.Matches (Stands T) (F.place w p) net
      (T.follow S F (w, .poll)) := by
  unfold Process.pollStep at hstep
  cases hpoll : (F.processes w).poll with
  | sweeping =>
      simp only [Fleet.process, hpoll] at hstep
      cases hstep
      simp only [Subject.follow, hpoll]
      exact h.sweep le_rfl rfl rfl rfl fun _ _ => Iff.rfl
  | fetching =>
      simp only [Fleet.process, hpoll] at hstep
      simp only [Subject.follow, hpoll]
      split at hstep <;> cases hstep <;> exact h.turned rfl rfl rfl rfl
  | dispatching batch =>
      simp only [Fleet.process, hpoll] at hstep
      simp only [Subject.follow, hpoll]
      cases batch with
      | nil =>
          cases hstep
          exact h.turned rfl rfl rfl rfl
      | cons record batch =>
          cases hstep
          unfold Process.insertInFlight
          split <;> exact h.turned rfl rfl rfl rfl
  | acquiring record batch =>
      simp only [Fleet.process, hpoll] at hstep
      simp only [Subject.follow, hpoll]
      cases hstep
      unfold Process.acquire
      split <;> exact h.turned rfl rfl rfl rfl
  | spawning record batch =>
      have hcurrent : record.mid = T.mid →
          Subject.Current (F.store w) record := by
        simpa only [Subject.Sheltered, hpoll] using hsheltered
      simp only [Fleet.process, hpoll] at hstep
      cases hstep
      simp only [Subject.follow, hpoll]
      exact h.spawn hsound hpoll hcurrent rfl rfl rfl rfl
  | resting wakeAt =>
      simp only [Fleet.process, hpoll] at hstep
      simp only [Subject.follow, hpoll]
      split at hstep
      · cases hstep
        exact h.turned rfl rfl rfl rfl
      · contradiction
  | stopped =>
      simp only [Fleet.process, hpoll] at hstep
      contradiction

theorem Stands.step {a : W × ProcessAction Envelope} {F' : Fleet W Envelope}
    (h : Stands T F net) (hsound : Sound T F) (hfits : T.Fits S F a)
    (hs : F.step S a = some F') :
    (S.deployment T).system.Matches (Stands T) F' net (T.follow S F a) := by
  obtain ⟨w, a⟩ := a
  obtain ⟨hsheltered, haccountable⟩ := hfits
  have haccount := haccountable F' hs
  obtain ⟨p, hp, rfl⟩ := Fleet.step_eq hs
  have hids : ∀ accepted ∈ p.relay.drop F.relay.length,
      NoCollision F.relay accepted.event := haccount.1
  have hadmits : ∀ row ∈ p.store.messages.rows,
      (F.store w).row? row.mid = none → T.Admits w row := by
    have hrows := haccount.2
    rwa [Fleet.store, Fleet.place_processes_self] at hrows
  cases a with
  | advance ms =>
      cases hp
      exact h.advance ms rfl rfl ((h.nodes w).keep (.refl _ _) fun _ _ => .rfl)
  | post event =>
      cases hp
      refine h.other hsheltered ?_ rfl rfl
        ((h.nodes w).keep (.refl _ _) fun _ _ => .rfl)
      exact hids ⟨F.time, event⟩ (by simp [Fleet.process])
  | poll => exact h.polled hsound hsheltered hp
  | shutdown =>
      simp only [Process.step, Process.shutdown] at hp
      split at hp
      · cases hp
        exact h.turned rfl rfl rfl rfl
      · cases hp
        exact h.turned rfl rfl rfl rfl
      · contradiction
  | task i move =>
      obtain ⟨task, htask, hmove⟩ := Option.bind_eq_some_iff.mp hp
      have htask : (F.processes w).tasks[i]? = some task := htask
      simp only [Subject.follow, htask, Option.bind_some]
      split
      · next hmid => exact h.own hsound htask hmid hids hmove
      · next hmid => exact h.another hsound htask hmid hids hmove
  | publish call =>
      cases hp
      exact h.turned rfl rfl rfl rfl
  | publishProceed i | publishAccepted i id | publishFailed i =>
      cases Process.step_cases hp with
      | publish _ _ _ hstore =>
          refine h.inserted hadmits rfl rfl ?_ rfl
          rcases hstore with hsame | ⟨rec, -, hnew⟩
          · exact Or.inl hsame
          · exact Or.inr ⟨rec, hnew⟩
      | turn ha => simp at ha
  | ingest event =>
      cases hp
      refine h.inserted hadmits rfl rfl ?_ rfl
      rcases ingest_unclaimed (S.worker w).codec (F.store w) event with
        hsame | ⟨rec, -, hnew⟩
      · exact Or.inl hsame
      · exact Or.inr ⟨rec, hnew⟩
  | dlqRetry mid =>
      cases hp
      exact h.retried hsheltered rfl rfl rfl rfl

/-! ## Runs -/

omit [DecidableEq W] in
private theorem soleRow_row? (row : Row) (queues : List QueueConfig) :
    (Subject.soleRow row queues).row? row.mid = some row := by
  simp [Subject.soleRow, Store.row?, Messages.row?, Messages.insert,
    Messages.empty]

omit [DecidableEq W] in
theorem startNet_initial (T : Subject W) (F : Fleet W Envelope) :
    (S.deployment T).Initial (T.startNet F) where
  relay := rfl
  unsettled := rfl
  wins := rfl
  idle _ := rfl
  history _ := rfl
  eventId w row hrow := by
    have hsole := soleRow_row? (T.row w) (F.store w).queues
    rw [T.mids w] at hsole
    cases hsole.symm.trans hrow
    exact T.named w

theorem startNet_stands (h : (T.system S).init F) :
    Stands T F (T.startNet F) where
  time := rfl
  relay := h.1.symm
  nodes w := by
    obtain ⟨hstarted, hadmits⟩ := h.2 w
    have htasks : (F.processes w).tasks = [] := hstarted.tasks
    have hsole := soleRow_row? (T.row w) (F.store w).queues
    rw [T.mids w] at hsole
    constructor
    · rfl
    · refine hsole.trans (congrArg some ?_)
      cases hrow : (F.processes w).store.row? T.mid with
      | none => rfl
      | some row =>
          obtain ⟨hmem, hmid⟩ := Messages.row?_mem hrow
          have hrowAdmits := hadmits row hmem
          rw [Subject.Admits, if_pos hmid] at hrowAdmits
          rw [hrowAdmits, Option.getD_some]
    · intro task htask
      simp [htasks] at htask
    · intro job hjob
      contradiction

variable (S T)

/--
Seen for one message, a fleet of whole worker processes does only what a net of
workers does.  The net can be run beside the fleet, so that what restricts the
steps of the one restricts the steps of the other.
-/
theorem fleet_simulates :
    (T.system S).Simulates (S.deployment T).system (T.Fits S) System.Free
      (Stands T) ∧
    ∀ P : Net W → Action W → Prop,
      (T.watched S).Simulates (S.deployment T).system
        (fun s a => T.Fits S s.1 a ∧ ∀ b ∈ T.follow S s.1 a, P s.2 b) P
        (fun s net => s.2 = net ∧ Stands T s.1 net) := by
  have hstart : ∀ F, (T.system S).init F →
      (S.deployment T).system.init (T.startNet F) ∧
        Stands T F (T.startNet F) :=
    fun F hinit => ⟨startNet_initial T F, startNet_stands hinit⟩
  have hmatch : ∀ F a F' net, (T.system S).Reach (T.Fits S) F →
      Stands T F net → T.Fits S F a → F.step S a = some F' →
      (S.deployment T).system.Matches (Stands T) F' net (T.follow S F a) :=
    fun F a F' net hreach hstands hfits hs =>
      hstands.step (sound (fun _ _ h => h) hreach) hfits hs
  constructor
  · refine .of_matches T.startNet (T.follow S) hstart ?_
    exact fun F a F' net hreach _ hstands hfits hs =>
      hmatch F a F' net hreach hstands hfits hs
  · intro P
    refine System.watchedBy_simulates hstart ?_
    exact fun F a F' net hreach _ hstands hfits hs =>
      hmatch F a F' net hreach hstands hfits hs

end Steps

end NostrQ.Cluster
