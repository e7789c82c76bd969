import NostrQ.Cluster.Holding
import NostrQ.Foundation.Amortised
import NostrQ.Worker.Ranking

/-!
# The work of a worker

Whatever happens in a run, a worker takes a bounded number of steps for each
time it fetches the message, and the relay keeps a bounded number of its
events: one claim and one ack or nack for each fetch, one ack or nack for each
win, and one dlq event for each nack.
-/

namespace NostrQ.Cluster

open NostrQ.Foundation NostrQ.Core NostrQ.Database NostrQ.Sdk NostrQ.Worker

variable {W : Type}

def Deployment.sent (D : Deployment W) (kinds : List Nat) (w : W)
    (relay : Relay) : Nat :=
  relay.countP fun accepted => accepted.event.pubkey = D.key w ∧
    ¬ Unrelated D.message accepted.event ∧ accepted.event.kind ∈ kinds

def winsOf [DecidableEq W] (w : W) (wins : List (Win W)) : Nat :=
  wins.countP fun win => win.worker = w

section Steps

variable [DecidableEq W]

def fetchesOf (w : W) : Action W → Nat
  | .fetch v _ => if v = w then 1 else 0
  | _ => 0

def stepsOf (w : W) : Action W → Nat
  | .proceed v | .query v | .publish v _ _ | .handle v _ | .fail v
  | .lose v _ _ => if v = w then 1 else 0
  | _ => 0

end Steps

def Node.rank (node : Node W) : Nat :=
  (node.job.map fun job => job.phase.rank).getD 0

theorem Node.rank_job {node : Node W} {job : Job} (h : node.job = some job) :
    node.rank = job.phase.rank := by
  rw [Node.rank, h]
  rfl

theorem Node.rank_idle {node : Node W} (h : node.job = none) :
    node.rank = 0 := by
  rw [Node.rank, h]
  rfl

section Sent

variable {D : Deployment W} {w : W} {kinds : List Nat} {relay more : Relay}

theorem Deployment.sent_append :
    D.sent kinds w (relay ++ more) = D.sent kinds w relay +
      D.sent kinds w more := by
  rw [sent, sent, sent, List.countP_append]

theorem Deployment.sent_others
    (h : ∀ accepted ∈ more, Unrelated D.message accepted.event ∨
      accepted.event.pubkey ≠ D.key w) : D.sent kinds w more = 0 := by
  rw [sent, List.countP_eq_zero]
  intro accepted hmem hcount
  obtain ⟨hkey, hunrelated, -⟩ := of_decide_eq_true hcount
  exact (h accepted hmem).elim hunrelated fun hne => hne hkey

theorem Deployment.sent_one (D : Deployment W) (kinds : List Nat) (w : W)
    (accepted : Accepted) : D.sent kinds w [accepted] ≤ 1 :=
  List.countP_le_length

theorem Deployment.sent_kind {accepted : Accepted}
    (h : accepted.event.kind ∉ kinds) : D.sent kinds w [accepted] = 0 := by
  rw [sent, List.countP_eq_zero]
  intro other hmem hcount
  rw [List.mem_singleton.mp hmem] at hcount
  exact h (of_decide_eq_true hcount).2.2

end Sent

/-! ## What a step adds to the work of a worker -/

section Works

/-- A step seen by `w`: how often `w` fetches in it and steps in it. -/
inductive Works (D : Deployment W) (w : W) (net net' : Net W) :
    Nat → Nat → Prop where
  | rests :
      (net'.nodes w).rank ≤ (net.nodes w).rank →
      (∀ kinds, D.sent kinds w net'.relay = D.sent kinds w net.relay) →
      Works D w net net' 0 0
  | fetches :
      (net.nodes w).job = none → (net'.nodes w).rank = 18 →
      net'.relay = net.relay → Works D w net net' 1 0
  | steps {job : Job} :
      (net.nodes w).job = some job →
      (net'.nodes w).rank < job.phase.rank → net'.relay = net.relay →
      Works D w net net' 0 1
  | sends {job : Job} {event : Event} :
      (net.nodes w).job = some job → Outgoing D w job event →
      (net'.nodes w).rank < job.phase.rank →
      net'.relay = net.relay ++ [⟨net.time, event⟩] → Works D w net net' 0 1

theorem Outgoing.rank {D : Deployment W} {w : W} {job : Job} {event : Event}
    (h : Outgoing D w job event) :
    event.kind = KIND_CLAIM ∧ job.phase.rank = 14 ∨
      (event.kind = KIND_ACK ∨ event.kind = KIND_NACK) ∧
        job.phase.rank = 4 ∨
      event.kind = KIND_DLQ ∧ job.phase.rank = 3 := by
  cases h with
  | claim h => exact Or.inl ⟨rfl, by rw [h]; rfl⟩
  | ack h => exact Or.inr (Or.inl ⟨Or.inl rfl, by rw [h]; rfl⟩)
  | nack h => exact Or.inr (Or.inl ⟨Or.inr rfl, by rw [h]; rfl⟩)
  | dlq h => exact Or.inr (Or.inr ⟨rfl, by rw [h]; rfl⟩)

variable [DecidableEq W] {D : Deployment W} {net net' : Net W} {w : W}

private theorem rank_resumed {a : Action W} (h : D.step net a = some net')
    (hsteps : stepsOf w a = 1) : ∃ job, (net.nodes w).job = some job ∧
      (net'.nodes w).rank < job.phase.rank := by
  suffices ∃ input job store next,
      D.resume net w input = some (job, store, next) ∧
        (net'.nodes w).job = some next by
    obtain ⟨input, job, store, next, hresume, hnext⟩ := this
    obtain ⟨hjob, hstep⟩ := Deployment.resume_cases hresume
    exact ⟨job, hjob, by rw [Node.rank_job hnext]; exact Job.rank_lt hstep⟩
  cases a with
  | advance | other | fetch | drop | sweep | retry => contradiction
  | proceed v | handle v | fail v =>
      obtain rfl : v = w := by simpa [stepsOf] using hsteps
      obtain ⟨⟨job, store, next⟩, hresume, rfl⟩ := Option.map_eq_some_iff.mp h
      exact ⟨_, job, store, next, hresume, by simp⟩
  | query v =>
      obtain rfl : v = w := by simpa [stepsOf] using hsteps
      obtain ⟨filter, -, h⟩ := Option.bind_eq_some_iff.mp h
      obtain ⟨⟨job, store, next⟩, hresume, rfl⟩ := Option.map_eq_some_iff.mp h
      exact ⟨_, job, store, next, hresume, by rw [D.answered_self]⟩
  | publish v | lose v =>
      obtain rfl : v = w := by simpa [stepsOf] using hsteps
      obtain ⟨event, -, h⟩ := Option.bind_eq_some_iff.mp h
      split at h
      · obtain ⟨⟨job, store, next⟩, hresume, rfl⟩ :=
          Option.map_eq_some_iff.mp h
        exact ⟨_, job, store, next, hresume, by rw [Net.published_self]⟩
      · contradiction

theorem Deployment.step_works {a : Action W} (h : D.step net a = some net')
    (w : W) : Works D w net net' (fetchesOf w a) (stepsOf w a) := by
  have hrank := rank_resumed (w := w) h
  replace h := Deployment.step_cases h
  by_cases ha : a.actor = some w
  · cases h with
    | advance | other => contradiction
    | fetch hidle hget =>
        cases ha
        simp only [fetchesOf, stepsOf, if_pos]
        exact .fetches hidle (by simp [Node.rank, Job.spawn, JobPhase.rank,
          ClaimPhase.rank]) rfl
    | proceed | query | handle | failClaim | failSettle =>
        cases ha
        simp only [fetchesOf, stepsOf, if_pos] at hrank ⊢
        obtain ⟨job, hjob, hlt⟩ := hrank trivial
        exact .steps hjob hlt (by simp)
    | publish hjob hpublishes =>
        cases ha
        simp only [fetchesOf, stepsOf, if_pos] at hrank ⊢
        obtain ⟨job, hjob', hlt⟩ := hrank trivial
        cases hjob.symm.trans hjob'
        exact .sends hjob hpublishes.outgoing hlt (by simp)
    | lose hjob hloses =>
        cases ha
        simp only [fetchesOf, stepsOf, if_pos] at hrank ⊢
        obtain ⟨job, hjob', hlt⟩ := hrank trivial
        cases hjob.symm.trans hjob'
        exact .sends hjob hloses.outgoing hlt (by simp)
    | drop | sweep | retry =>
        cases ha
        refine .rests ?_ fun _ => rfl
        rw [Net.setNode_self]
        simp [Node.rank]
  · have hf := h.frame ha
    obtain ⟨more, hrelay, hmore⟩ := hf.relay
    have hnone : fetchesOf w a = 0 ∧ stepsOf w a = 0 := by
      cases a <;> simp_all [fetchesOf, stepsOf, Action.actor]
    rw [hnone.1, hnone.2]
    refine .rests (by rw [hf.node]) fun kinds => ?_
    rw [hrelay, D.sent_append,
      D.sent_others fun accepted hmem => (hmore accepted hmem).2, Nat.add_zero]

end Works

/-! ## Bounds on a run -/

section Bounds

variable [DecidableEq W] {D : Deployment W} {net net' : Net W} {w : W}
  {P : Net W → Action W → Prop} {taken : List (Action W)}

theorem rank_bounded (h : D.system.Trace P taken net) (w : W) :
    (net.nodes w).rank + System.total (stepsOf w) taken ≤
      18 * System.total (fetchesOf w) taken := by
  rw [← System.total_mul]
  apply h.balance fun net => (net.nodes w).rank
  · intro net h₀
    exact Node.rank_idle (h₀.idle w)
  · intro net a net' _ _ hstep
    have hworks := D.step_works hstep w
    generalize fetchesOf w a = fetches, stepsOf w a = steps at hworks ⊢
    cases hworks with
    | rests hrank => omega
    | fetches hidle hrank => omega
    | steps hjob hrank =>
        rw [Node.rank_job hjob]
        omega
    | sends hjob _ hrank =>
        rw [Node.rank_job hjob]
        omega

def ahead (n : Nat) (node : Node W) : Nat := if n ≤ node.rank then 1 else 0

theorem sent_bounded {kinds : List Nat} {n : Nat}
    (h : D.system.Trace P taken net) (hn : 0 < n)
    (hkinds : ∀ job event, Outgoing D w job event → event.kind ∈ kinds →
      job.phase.rank = n) :
    D.sent kinds w net.relay + ahead n (net.nodes w) ≤
      System.total (fetchesOf w) taken := by
  apply le_trans (Nat.le_add_right _ (System.total (fun _ => 0) taken))
  apply h.balance fun net =>
    D.sent kinds w net.relay + ahead n (net.nodes w)
  · intro net h₀
    simp only [h₀.relay, Deployment.sent, List.countP_nil, ahead,
      Node.rank_idle (h₀.idle w), Nat.le_zero, if_neg hn.ne']
  · intro net a net' _ _ hstep
    have hworks := D.step_works hstep w
    generalize fetchesOf w a = fetches, stepsOf w a = steps at hworks ⊢
    unfold ahead
    cases hworks with
    | rests hrank hsent =>
        rw [hsent]
        split <;> split <;> omega
    | fetches hidle hrank hrelay =>
        rw [hrelay, Node.rank_idle hidle]
        split <;> split <;> omega
    | steps hjob hrank hrelay =>
        rw [hrelay, Node.rank_job hjob]
        split <;> split <;> omega
    | @sends job event hjob hout hrank hrelay =>
        rw [hrelay, D.sent_append, Node.rank_job hjob]
        by_cases hkind : event.kind ∈ kinds
        · have hone := D.sent_one kinds w ⟨net.time, event⟩
          have hat := hkinds job event hout hkind
          rw [if_neg (by omega), if_pos (by omega)]
          omega
        · rw [D.sent_kind hkind]
          split <;> split <;> omega

/-- An unfinished job has a step to take, if only it waits long enough. -/
theorem never_stuck (D : Deployment W) {job : Job}
    (hjob : (net.nodes w).job = some job) (hphase : job.phase ≠ .finished) :
    ∃ wakeAt, ∀ net' : Net W, net'.nodes w = net.nodes w →
      wakeAt ≤ net'.time →
      ∃ a, stepsOf w a = 1 ∧ (D.step net' a).isSome = true := by
  cases Job.awaits (D.key w) (net.nodes w).store hphase with
  | @answer filter hquery hanswer =>
      refine ⟨0, fun net' hnode _ => ⟨.query w, if_pos rfl, ?_⟩⟩
      obtain ⟨store, next, hstep⟩ := hanswer (net'.relay.query filter)
      simp only [Deployment.step, Deployment.query, Deployment.resume, hnode,
        hjob, hquery, hstep, Option.bind_some, Option.map_some,
        Option.isSome_some]
  | accept _ _ hfailed =>
      refine ⟨0, fun net' hnode _ => ⟨.fail w, if_pos rfl, ?_⟩⟩
      obtain ⟨store, next, hstep⟩ := hfailed
      simp only [Deployment.step, Deployment.local?, Deployment.resume, hnode,
        hjob, hstep, Option.bind_some, Option.map_some, Option.isSome_some]
  | proceed wakeAt hproceed =>
      refine ⟨wakeAt, fun net' hnode hwake => ⟨.proceed w, if_pos rfl, ?_⟩⟩
      obtain ⟨store, next, hstep⟩ := hproceed net'.time hwake
      simp only [Deployment.step, Deployment.local?, Deployment.resume, hnode,
        hjob, hstep, Option.bind_some, Option.map_some, Option.isSome_some]

/--
In every run, a worker's job steps at most 18 times for each fetch, and of its
claims, of its acks and nacks, and of its dlq events the relay keeps at most one
for each fetch.  An unfinished job is never stuck, so every job can end.
-/
theorem work_bounded (h : D.system.Trace P taken net) (w : W) :
    System.total (stepsOf w) taken ≤ 18 * System.total (fetchesOf w) taken ∧
      (∀ kinds ∈ [[KIND_CLAIM], [KIND_ACK, KIND_NACK], [KIND_DLQ]],
        D.sent kinds w net.relay ≤ System.total (fetchesOf w) taken) ∧
      ∀ job, (net.nodes w).job = some job → job.phase ≠ .finished →
        ∃ wakeAt, ∀ net' : Net W, net'.nodes w = net.nodes w →
          wakeAt ≤ net'.time →
          ∃ a, stepsOf w a = 1 ∧ (D.step net' a).isSome = true := by
  have bound : ∀ kinds n, 0 < n →
      (∀ job event, Outgoing D w job event → event.kind ∈ kinds →
        job.phase.rank = n) →
      D.sent kinds w net.relay ≤ System.total (fetchesOf w) taken :=
    fun kinds n hn hkinds =>
      le_trans (Nat.le_add_right _ _) (sent_bounded h hn hkinds)
  refine ⟨le_trans (Nat.le_add_left _ _) (rank_bounded h w), ?_,
    fun job hjob hphase => never_stuck D hjob hphase⟩
  intro kinds hkinds
  simp only [List.mem_cons, List.not_mem_nil, or_false] at hkinds
  rcases hkinds with rfl | rfl | rfl
  · refine bound _ 14 (by decide) fun job event hout hkind => ?_
    have := hout.rank
    simp [KIND_CLAIM, KIND_ACK, KIND_NACK, KIND_DLQ] at hkind this
    omega
  · refine bound _ 4 (by decide) fun job event hout hkind => ?_
    have := hout.rank
    simp [KIND_CLAIM, KIND_ACK, KIND_NACK, KIND_DLQ] at hkind this
    omega
  · refine bound _ 3 (by decide) fun job event hout hkind => ?_
    have := hout.rank
    simp [KIND_CLAIM, KIND_ACK, KIND_NACK, KIND_DLQ] at hkind this
    omega

theorem work_bounded_winning :
    ∃ net, ReturnedTrue net .first ∧
      pair.system.Trace System.Free winningRun net ∧
      System.total (stepsOf .first) winningRun ≤
        18 * System.total (fetchesOf Peer.first) winningRun := by
  have hrun : (pair.system.run System.Free (pairStart 5) winningRun).any
      (fun net => decide (ReturnedTrue net .first)) = true := by decide
  cases hnet : pair.system.run System.Free (pairStart 5) winningRun with
  | none => simp [hnet] at hrun
  | some net =>
      rw [hnet, Option.any_some] at hrun
      have htrace : pair.system.Trace System.Free winningRun net :=
        (System.Trace.init (pairStart_initial 5)).of_run hnet
      exact ⟨net, of_decide_eq_true hrun, htrace,
        (work_bounded htrace .first).1⟩

end Bounds

/-! ## Settlements are paid for by wins -/

section Settlements

variable [DecidableEq W] {D : Deployment W} {net net' : Net W} {w : W}

def burying : JobPhase → Nat
  | .settling (.during _ (.dlqPublishing _ _)) => 1
  | _ => 0

def Node.burying (node : Node W) : Nat :=
  (node.job.map fun job => Cluster.burying job.phase).getD 0

/-- What the relay has from `w` never exceeds what `w` was entitled to. -/
structure PaidFor (D : Deployment W) (net : Net W) (w : W) : Prop where
  settled : D.sent [KIND_ACK, KIND_NACK] w net.relay +
    winsOf w net.unsettled ≤ winsOf w net.wins
  buried : D.sent [KIND_DLQ] w net.relay + (net.nodes w).burying ≤
    D.sent [KIND_NACK] w net.relay

theorem winsOf_append (w : W) (wins more : List (Win W)) :
    winsOf w (wins ++ more) = winsOf w wins + winsOf w more :=
  List.countP_append

theorem winsOf_published {v : W} {event : Event} {job next : Job}
    {store : Store} :
    winsOf w (net.published v event job store next).unsettled =
      if settling job = true ∧ v = w then 0 else winsOf w net.unsettled := by
  rw [Net.published_unsettled]
  split
  · next hsettling =>
      rw [winsOf, List.countP_filter]
      split
      · next hsame =>
          rw [List.countP_eq_zero]
          simp [hsame.2]
      · next hother =>
          have hne : v ≠ w := fun h => hother ⟨hsettling, h⟩
          apply List.countP_congr
          intro win _
          simp only [Bool.and_eq_true, decide_eq_true_eq,
            ne_eq, and_iff_left_iff_imp]
          rintro rfl
          exact hne.symm
  · next hclaiming => rw [if_neg fun h => hclaiming h.1]

omit [DecidableEq W] in
theorem Node.burying_job {node : Node W} {job : Job}
    (h : node.job = some job) : node.burying = Cluster.burying job.phase := by
  rw [Node.burying, h]
  rfl

theorem winsOf_pos (hh : HoldingInv net) {job : Job}
    (hjob : (net.nodes w).job = some job) (hholding : Holding job.phase) :
    0 < winsOf w net.unsettled := by
  obtain ⟨win, hwin⟩ := hh.holds w job hjob hholding
  exact List.countP_pos_iff.mpr
    ⟨win, hwin.unsettled, decide_eq_true hwin.worker⟩

omit [DecidableEq W] in
theorem sent_nack {job : Job} {call : SettleCall} {reason : String}
    {config : QueueConfig} {attempts : U32} {createdAt : U64} {id : EventId}
    {time : Nat} (hconcerns : JobConcerns D job)
    (hphase : job.phase =
      .settling (.during call (.nackPublishing reason config attempts))) :
    D.sent [KIND_NACK] w [⟨time, (buildNackEvent D.hashtag call.ref attempts
      reason).sign (D.key w) createdAt id⟩] = 1 := by
  have hmessage := hconcerns.phase
  rw [hphase] at hmessage
  have hmatch := nackFilter_build D.hashtag call.ref attempts reason (D.key w)
    createdAt id
  rw [show call.ref.eventId = D.message from hmessage.1] at hmatch
  have hown : ¬ Unrelated D.message ((buildNackEvent D.hashtag call.ref attempts
      reason).sign (D.key w) createdAt id) := fun hunrelated => by
    rw [hunrelated.2.1] at hmatch
    contradiction
  rw [Deployment.sent, List.countP_cons_of_pos]
  · rfl
  · exact decide_eq_true ⟨rfl, hown, by simp [Draft.sign, buildNackEvent]⟩

theorem PaidFor.send {event : Event} {job : Job} (hg : Grounded D net)
    (hh : HoldingInv net) (hi : PaidFor D net w)
    (hjob : (net.nodes w).job = some job) (hout : Outgoing D w job event)
    (hunsettled : winsOf w net'.unsettled =
      if settling job then 0 else winsOf w net.unsettled)
    (hwins : net'.wins = net.wins)
    (hrelay : net'.relay = net.relay ++ [⟨net.time, event⟩])
    (hnext : (net'.nodes w).burying = 0 ∨
      event.kind = KIND_NACK ∧ (net'.nodes w).burying ≤ 1) :
    PaidFor D net' w := by
  obtain ⟨hsettled, hburied⟩ := hi
  have hone := fun kinds => D.sent_one kinds w ⟨net.time, event⟩
  have hnone : ∀ kinds, event.kind ∉ kinds →
      D.sent kinds w [⟨net.time, event⟩] = 0 := fun _ hkind => D.sent_kind hkind
  rw [Node.burying_job hjob] at hburied
  constructor <;> rw [hrelay, D.sent_append]
  · rw [hunsettled, hwins]
    cases hout with
    | claim hphase =>
        rw [hnone _ (show KIND_CLAIM ∉ [KIND_ACK, KIND_NACK] by decide)]
        simp only [settling, hphase, Bool.false_eq_true, if_false]
        omega
    | ack hphase | nack hphase =>
        have hpos := winsOf_pos hh hjob (by rw [hphase]; trivial)
        have := hone [KIND_ACK, KIND_NACK]
        simp only [settling, hphase, if_true]
        omega
    | dlq hphase =>
        rw [hnone _ (show KIND_DLQ ∉ [KIND_ACK, KIND_NACK] by decide)]
        simp only [settling, hphase, if_true]
        omega
  · rw [D.sent_append]
    cases hout with
    | claim hphase =>
        have hquiet := hnext.resolve_right fun h =>
          absurd h.1 (show KIND_CLAIM ≠ KIND_NACK by decide)
        rw [hnone _ (show KIND_CLAIM ∉ [KIND_DLQ] by decide)]
        omega
    | ack hphase =>
        have hquiet := hnext.resolve_right fun h =>
          absurd h.1 (show KIND_ACK ≠ KIND_NACK by decide)
        rw [hnone _ (show KIND_ACK ∉ [KIND_DLQ] by decide)]
        omega
    | nack hphase =>
        rw [hnone _ (show KIND_NACK ∉ [KIND_DLQ] by decide),
          sent_nack (hg.jobs w job hjob) hphase]
        omega
    | dlq hphase =>
        have hquiet := hnext.resolve_right fun h =>
          absurd h.1 (show KIND_DLQ ≠ KIND_NACK by decide)
        have hdlq := hone [KIND_DLQ]
        simp only [hphase, Cluster.burying] at hburied
        omega

private theorem burying_proceeds {key : PublicKey} {s s' : Store} {time : Nat}
    {job : Job} {phase next : JobPhase}
    (h : Job.Proceeds key s time job phase s' next) :
    Cluster.burying next = 0 := by
  cases h with
  | claimed =>
      unfold Job.afterClaim
      split <;> rfl
  | claim | timeout | settled => rfl
  | settle h =>
      cases h with
      | ack | nack =>
          unfold SettlePhase.start
          split <;> rfl
      | configure => rfl
      | @count call reason config =>
          rcases SettlePhase.count_snd (s := s) call reason config with
            ⟨_, _, -, -, heq⟩ | ⟨_, heq, -⟩ <;> rw [heq] <;> rfl
      | finish => rfl

omit [DecidableEq W] in
private theorem burying_publishes {createdAt : U64} {id : EventId}
    {time : Nat} {job : Job} {event : Event} {next : JobPhase}
    (h : D.Publishes w createdAt id time job event next) :
    Cluster.burying next = 0 ∨
      event.kind = KIND_NACK ∧ Cluster.burying next ≤ 1 := by
  cases h with
  | claim => exact Or.inl rfl
  | settle _ hdraft haccepts =>
      cases haccepts with
      | ack | dlq => exact Or.inl rfl
      | nack =>
          cases hdraft
          refine Or.inr ⟨rfl, ?_⟩
          unfold SettleCall.afterNack
          split <;> simp [Cluster.burying]

theorem PaidFor.quiet (hi : PaidFor D net w)
    (hsent : ∀ kinds, D.sent kinds w net'.relay = D.sent kinds w net.relay)
    (hwins : winsOf w net'.unsettled + winsOf w net.wins ≤
      winsOf w net.unsettled + winsOf w net'.wins)
    (hnext : (net'.nodes w).burying ≤ (net.nodes w).burying) :
    PaidFor D net' w := by
  obtain ⟨hsettled, hburied⟩ := hi
  constructor <;> simp only [hsent] <;> omega

private theorem winsOf_step {a : Action W} (h : D.Step net a net') (w : W) :
    winsOf w net'.unsettled + winsOf w net.wins ≤
      winsOf w net.unsettled + winsOf w net'.wins := by
  cases h with
  | query =>
      rw [D.answered_unsettled, D.answered_wins, winsOf_append, winsOf_append]
      omega
  | publish | lose =>
      rw [winsOf_published, Net.published_wins]
      split <;> omega
  | advance | other | fetch | proceed | handle | failClaim | failSettle
  | drop | sweep | retry => exact le_rfl

theorem PaidFor.step {a : Action W} (hg : Grounded D net)
    (hh : HoldingInv net) (hi : PaidFor D net w) (h : D.Step net a net') :
    PaidFor D net' w := by
  have hwins := winsOf_step h w
  by_cases ha : a.actor = some w
  · cases h with
    | advance | other => contradiction
    | fetch | failClaim | failSettle | drop =>
        cases ha
        refine hi.quiet (fun _ => rfl) hwins ?_
        rw [Net.setNode_self]
        exact Nat.zero_le _
    | @handle _ outcome =>
        cases ha
        refine hi.quiet (fun _ => rfl) hwins ?_
        rw [Net.setNode_self]
        cases outcome <;> exact Nat.zero_le _
    | proceed hjob hproceeds =>
        cases ha
        refine hi.quiet (fun _ => rfl) hwins ?_
        rw [Net.setNode_self]
        exact (burying_proceeds hproceeds).trans_le (Nat.zero_le _)
    | query =>
        cases ha
        refine hi.quiet (fun _ => by simp) hwins ?_
        rw [D.answered_self]
        exact Nat.zero_le _
    | publish hjob hpublishes =>
        cases ha
        refine hi.send hg hh hjob hpublishes.outgoing ?_ (by simp) (by simp) ?_
        · rw [winsOf_published]
          simp
        · rw [Net.published_self]
          exact burying_publishes hpublishes
    | lose hjob hloses =>
        cases ha
        refine hi.send hg hh hjob hloses.outgoing ?_ (by simp) (by simp) ?_
        · rw [winsOf_published]
          simp
        · rw [Net.published_self]
          cases hloses <;> exact Or.inl rfl
    | sweep | retry =>
        cases ha
        refine hi.quiet (fun _ => rfl) hwins ?_
        rw [Net.setNode_self]
        exact le_rfl
  · have hf := h.frame ha
    obtain ⟨more, hrelay, hmore⟩ := hf.relay
    refine hi.quiet (fun kinds => ?_) hwins (by rw [hf.node])
    rw [hrelay, D.sent_append,
      D.sent_others fun accepted hmem => (hmore accepted hmem).2, Nat.add_zero]

theorem paidFor {P : Net W → Action W → Prop} (h : D.system.Reach P net)
    (w : W) : PaidFor D net w := by
  induction h with
  | init h₀ =>
      constructor
      · simp [h₀.relay, h₀.unsettled, Deployment.sent, winsOf]
      · simp [h₀.relay, Deployment.sent, Node.burying, h₀.idle w]
  | step hr _ hs ih =>
      exact ih.step (grounded hr) (holding hr) (Deployment.step_cases hs)

/--
In every run, a worker's acks and nacks on the relay never outnumber the wins it
no longer holds, nor its dlq events its nacks.
-/
theorem settlements_paid_for {P : Net W → Action W → Prop}
    (h : D.system.Reach P net) (w : W) :
    D.sent [KIND_ACK, KIND_NACK] w net.relay ≤
        winsOf w net.wins - winsOf w net.unsettled ∧
      D.sent [KIND_DLQ] w net.relay ≤ D.sent [KIND_NACK] w net.relay := by
  obtain ⟨hsettled, hburied⟩ := paidFor h w
  omega

theorem settlements_paid_for_winning :
    ∃ net, pair.system.Reach System.Free net ∧
      winsOf Peer.first net.wins = 1 ∧
      pair.sent [KIND_ACK, KIND_NACK] .first net.relay ≤
        winsOf .first net.wins - winsOf .first net.unsettled ∧
      pair.sent [KIND_DLQ] .first net.relay ≤
        pair.sent [KIND_NACK] .first net.relay := by
  obtain ⟨net, hreach, htest⟩ :=
    (System.Reach.init (pairStart_initial 5)).of_run_check
      (S := pair.system) (P := System.Free)
      (winningRun ++ [.proceed .first, .handle .first .success, .proceed .first,
        .publish .first 0 (hexOf 'b')])
      (fun net => winsOf Peer.first net.wins == 1 && net.unsettled.isEmpty)
      (by decide)
  rw [Bool.and_eq_true, beq_iff_eq] at htest
  exact ⟨net, hreach, htest.1, settlements_paid_for hreach .first⟩

end Settlements

end NostrQ.Cluster
