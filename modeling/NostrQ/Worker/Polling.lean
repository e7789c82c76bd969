import NostrQ.Foundation.Transition
import NostrQ.Worker.RunWorker

/-!
# What one poll cycle attempts

The loop fetches the oldest claimable rows, at most as many as it has slots in
all, skips those whose message is in flight, and tries to claim the rest while a
slot is free.  Rows that other workers hold on the relay are claimable here, so
they take places in the batch.
-/

namespace NostrQ.Worker

open NostrQ.Foundation NostrQ.Core NostrQ.Database NostrQ.Sdk

namespace LocalNode

variable {Envelope : Type} {W : WorkerSetup Envelope} {n : LocalNode Envelope}

def swept (W : WorkerSetup Envelope) (n : LocalNode Envelope) : Store :=
  (n.store.expireDue W.queue (timestamp n.time)).2

def limit (W : WorkerSetup Envelope) : U32 :=
  Fin.ofNat 4294967296 W.options.concurrency

/-- The records of the batch not in flight, as many as there are free slots. -/
def chosen (n : LocalNode Envelope) (batch : List MessageRecord) :
    List MessageRecord :=
  (batch.filter fun record => (n.jobs record.mid).isNone).take n.permits

def spawnAll (W : WorkerSetup Envelope) (n : LocalNode Envelope)
    (records : List MessageRecord) : LocalNode Envelope :=
  records.foldl (spawn W) n

def polls (W : WorkerSetup Envelope) (n : LocalNode Envelope) (k : Nat) :
    Option (LocalNode Envelope) :=
  (system W).run System.Free n (List.replicate k .poll)

theorem polls_succ {next : LocalNode Envelope} (h : n.poll W = some next)
    (k : Nat) : n.polls W (k + 1) = next.polls W k := by
  have hfree : System.Free n (LocalAction.poll : LocalAction Envelope) := trivial
  rw [polls, List.replicate_succ, System.run, if_pos hfree,
    show (system W).step n .poll = n.poll W from rfl, h]
  rfl

private theorem spawnAll_rest (records : List MessageRecord) (loop : LoopPhase) :
    (spawnAll W { n with loop := loop } records).rest W =
      (spawnAll W n records).rest W := by
  unfold spawnAll
  induction records generalizing n with
  | nil => rfl
  | cons record records ih => exact @ih (n.spawn W record)

private theorem spawnAll_jobs_of_not_mem {records : List MessageRecord}
    {mid : String} (h : ∀ record ∈ records, record.mid ≠ mid) :
    (spawnAll W n records).jobs mid = n.jobs mid := by
  unfold spawnAll
  induction records generalizing n with
  | nil => rfl
  | cons record records ih =>
      rw [List.foldl_cons, ih fun other hother => h other (by simp [hother])]
      exact Function.update_of_ne (h record (by simp)).symm _ _

private theorem spawnAll_jobs_of_mem {records : List MessageRecord}
    {record : MessageRecord} (hnodup : (records.map MessageRecord.mid).Nodup)
    (h : record ∈ records) :
    (spawnAll W n records).jobs record.mid =
      some (.spawn record W.options.leaseSeconds W.options.settleMs) := by
  induction records generalizing n with
  | nil => contradiction
  | cons first rest ih =>
      rw [List.map_cons, List.nodup_cons] at hnodup
      rcases List.mem_cons.mp h with rfl | hrest
      · have habsent : ∀ other ∈ rest, other.mid ≠ record.mid :=
          fun other hother heq =>
            hnodup.1 (heq ▸ List.mem_map_of_mem hother)
        change (spawnAll W (n.spawn W record) rest).jobs record.mid = _
        rw [spawnAll_jobs_of_not_mem habsent]
        exact Function.update_self ..
      · exact ih hnodup.2 hrest

private theorem spawnAll_time (records : List MessageRecord) :
    (spawnAll W n records).time = n.time := by
  unfold spawnAll
  induction records generalizing n with
  | nil => rfl
  | cons record records ih => exact @ih (n.spawn W record)

private theorem chosen_cons {next : LocalNode Envelope}
    {record : MessageRecord} {batch : List MessageRecord} {job : Option Job}
    (hflight : n.jobs record.mid = none)
    (hpermits : n.permits = next.permits + 1)
    (hjobs : next.jobs = Function.update n.jobs record.mid job)
    (habsent : record.mid ∉ batch.map MessageRecord.mid) :
    n.chosen (record :: batch) = record :: next.chosen batch := by
  have hsame : (batch.filter fun other => (next.jobs other.mid).isNone) =
      batch.filter fun other => (n.jobs other.mid).isNone := by
    refine List.filter_congr fun other hother => ?_
    have hne : other.mid ≠ record.mid := fun heq =>
      habsent (heq ▸ List.mem_map_of_mem hother)
    rw [hjobs, Function.update_of_ne hne]
  unfold chosen
  rw [hpermits, hsame, List.filter_cons, if_pos (by simp [hflight]),
    List.take_succ_cons]

private theorem polls_dispatching {batch : List MessageRecord}
    (hloop : n.loop = .dispatching batch)
    (hnodup : (batch.map MessageRecord.mid).Nodup) :
    ∃ k, n.polls W k = some ((spawnAll W n (n.chosen batch)).rest W) := by
  induction batch generalizing n with
  | nil =>
      refine ⟨1, ?_⟩
      rw [polls_succ (by simp only [poll, hloop]; rfl)]
      simp only [chosen, List.filter_nil, List.take_nil]
      rfl
  | cons record batch ih =>
      rw [List.map_cons, List.nodup_cons] at hnodup
      have hpoll : n.poll W = some (n.dispatch W (record :: batch)) := by
        simp only [poll, hloop]
      cases hflight : n.jobs record.mid with
      | some job =>
          -- A message in flight is skipped.
          let next : LocalNode Envelope := { n with loop := .dispatching batch }
          have hnext : n.dispatch W (record :: batch) = next := by
            rw [dispatch, hflight]
            rfl
          obtain ⟨k, hk⟩ := @ih next rfl hnodup.2
          have hchosen : n.chosen (record :: batch) = next.chosen batch := by
            unfold chosen
            rw [List.filter_cons, if_neg (by simp [hflight])]
          refine ⟨k + 1, ?_⟩
          rw [polls_succ (hnext ▸ hpoll), hk, hchosen, spawnAll_rest]
      | none =>
          by_cases hfree : n.permits = 0
          · -- No slot is free: the batch is dropped.
            have hnext : n.dispatch W (record :: batch) = n.rest W := by
              rw [dispatch, hflight]
              exact if_pos hfree
            refine ⟨1, ?_⟩
            rw [polls_succ (hnext ▸ hpoll), chosen, hfree, List.take_zero]
            rfl
          · let next : LocalNode Envelope :=
              { n.spawn W record with loop := .dispatching batch }
            have hnext : n.dispatch W (record :: batch) = next := by
              rw [dispatch, hflight]
              exact if_neg hfree
            obtain ⟨k, hk⟩ := @ih next rfl hnodup.2
            have hpermits : n.permits = next.permits + 1 :=
              (Nat.succ_pred_eq_of_ne_zero hfree).symm
            refine ⟨k + 1, ?_⟩
            rw [polls_succ (hnext ▸ hpoll), hk,
              chosen_cons hflight hpermits rfl hnodup.1, spawnAll_rest]
            rfl

private theorem polls_cycle {batch : List MessageRecord}
    (hloop : n.loop = .sweeping)
    (hbatch : (n.swept W).claimable (W.scan n.time) W.queue (timestamp n.time)
      (limit W) = .ok batch) :
    ∃ k, n.polls W k = some ((spawnAll W
      { n with store := n.swept W } (n.chosen batch)).rest W) := by
  let fetching : LocalNode Envelope :=
    { n with store := n.swept W, loop := .fetching }
  let dispatching : LocalNode Envelope :=
    { n with store := n.swept W, loop := .dispatching batch }
  have hsweep : n.poll W = some fetching := by
    rw [poll, hloop]
    rfl
  have hfetch : fetching.poll W = some dispatching := by
    unfold limit at hbatch
    simp only [poll, fetching, dispatching, hbatch]
  obtain ⟨k, hk⟩ := @polls_dispatching _ W dispatching batch rfl
    (Store.claimable_nodup hbatch)
  refine ⟨k + 1 + 1, ?_⟩
  rw [polls_succ hsweep, polls_succ hfetch, hk]
  exact congrArg some (@spawnAll_rest _ W { n with store := n.swept W } _ _)

/-- The cycle from `n` to `n'` starts a claiming call for the record. -/
def Attempts (W : WorkerSetup Envelope) (n n' : LocalNode Envelope)
    (record : MessageRecord) : Prop :=
  n.jobs record.mid = none ∧ n'.jobs record.mid =
    some (.spawn record W.options.leaseSeconds W.options.settleMs)

/-- The message is not in flight here, and the relay leaves it open. -/
def Attainable (relay : Relay) (W : WorkerSetup Envelope)
    (n : LocalNode Envelope) (record : MessageRecord) : Prop :=
  n.jobs record.mid = none ∧
    ∃ message, Hex32.fromHex record.eventId = some message ∧
      Relay.Open relay W.key (timestamp n.time) message record.attemptFloor

private theorem attempts_iff {batch : List MessageRecord}
    (hnodup : (batch.map MessageRecord.mid).Nodup) (record : MessageRecord) :
    Attempts W n ((spawnAll W { n with store := n.swept W }
      (n.chosen batch)).rest W) record ↔ record ∈ n.chosen batch := by
  have hchosen : ((n.chosen batch).map MessageRecord.mid).Nodup :=
    hnodup.sublist (((List.take_sublist _ _).trans List.filter_sublist).map _)
  have spawned : ∀ other ∈ n.chosen batch,
      ((spawnAll W { n with store := n.swept W }
        (n.chosen batch)).rest W).jobs other.mid = some (.spawn other
          W.options.leaseSeconds W.options.settleMs) :=
    fun other hother => spawnAll_jobs_of_mem hchosen hother
  constructor
  · rintro ⟨hnone, hsome⟩
    by_contra habsent
    by_cases hmid : ∃ other ∈ n.chosen batch, other.mid = record.mid
    · obtain ⟨other, hother, heq⟩ := hmid
      have hjob := spawned other hother
      rw [heq, hsome] at hjob
      simp only [Option.some.injEq, Job.spawn, Job.mk.injEq] at hjob
      exact habsent (hjob.1 ▸ hother)
    · have hkept : ((spawnAll W { n with store := n.swept W }
          (n.chosen batch)).rest W).jobs record.mid = n.jobs record.mid :=
        spawnAll_jobs_of_not_mem fun other hother heq =>
          hmid ⟨other, hother, heq⟩
      rw [hkept, hnone] at hsome
      contradiction
  · intro hmem
    refine ⟨?_, spawned record hmem⟩
    have hfiltered := (List.mem_filter.mp (List.mem_of_mem_take hmem)).2
    simpa using hfiltered

/--
A poll cycle with nothing in between tries to claim exactly the first records of
its batch that are not in flight, one for each free slot; so it tries an
attainable one if and only if there is one among them.
-/
theorem poll_cycle_attempts {batch : List MessageRecord}
    (hloop : n.loop = .sweeping)
    (hbatch : (n.swept W).claimable (W.scan n.time) W.queue (timestamp n.time)
      (limit W) = .ok batch) :
    ∃ k n', n.polls W k = some n' ∧
      n'.loop = .resting (n.time + W.options.pollMs.val) ∧
      (∀ record, Attempts W n n' record ↔ record ∈ n.chosen batch) ∧
      ∀ relay, (∃ record, Attempts W n n' record ∧ Attainable relay W n record) ↔
        ∃ record ∈ n.chosen batch, Attainable relay W n record := by
  obtain ⟨k, hk⟩ := polls_cycle hloop hbatch
  have hattempts := @attempts_iff _ W n batch (Store.claimable_nodup hbatch)
  refine ⟨k, _, hk, ?_, hattempts, fun relay => ?_⟩
  · rw [rest, spawnAll_time]
  · simp only [hattempts]

section Runs

open Publishing

def sampleWorker : WorkerSetup String where
  key := hexOf 'a'
  queue := "jobs"
  options := ⟨1, 60, 0, 500⟩
  codec := textCodec
  scan _ := .stored

def youngerRecord : MessageRecord :=
  { sampleRecord with
    mid := "n", eventId := (hexOf 'd').toHex, createdAt := 1 }

def sampleHead (store : Store) : LocalNode String where
  time := 5000
  store := store
  loop := .sweeping
  permits := 1
  jobs := fun _ => none
  publishes := []
  retries := []

def twoMessages : Store :=
  ((Store.empty.insertMessage sampleRecord).2.insertMessage youngerRecord).2

def foreignHold : Relay :=
  [⟨0, (buildClaimEvent id ⟨hexOf 'e', "jobs", "m", "trace"⟩ 3600 0).sign
    (hexOf 'b') 0 (hexOf 'c')⟩]

private theorem youngerRecord_attainable :
    Attainable foreignHold sampleWorker (sampleHead twoMessages)
      youngerRecord :=
  ⟨rfl, hexOf 'd', by decide, by decide, by decide, by decide⟩

theorem poll_cycle_attempts_younger :
    ∃ k n', (sampleHead (twoMessages.markAcked "m").2).polls sampleWorker k =
        some n' ∧
      Attempts sampleWorker (sampleHead (twoMessages.markAcked "m").2) n'
        youngerRecord := by
  have hbatch : ((sampleHead (twoMessages.markAcked "m").2).swept
      sampleWorker).claimable .stored "jobs" (timestamp 5000)
      (limit sampleWorker) = .ok [youngerRecord] := by decide
  obtain ⟨k, n', hpolls, -, hattempts, -⟩ := poll_cycle_attempts rfl hbatch
  exact ⟨k, n', hpolls, (hattempts youngerRecord).mpr (by decide)⟩

/--
The younger message is claimable, attainable, and a slot is free, but the batch
is the older message, which another worker holds.
-/
theorem foreign_hold_hides_younger :
    (∃ row, twoMessages.row? "n" = some row ∧
      Store.Claimable "jobs" (timestamp 5000) row ∧
      row.toMessage = some youngerRecord) ∧
    Attainable foreignHold sampleWorker (sampleHead twoMessages) youngerRecord ∧
    ∃ k n', (sampleHead twoMessages).polls sampleWorker k = some n' ∧
      n'.loop = .resting 5500 ∧
      ∀ record, Attempts sampleWorker (sampleHead twoMessages) n' record →
        record = sampleRecord ∧
        ¬ Attainable foreignHold sampleWorker (sampleHead twoMessages) record := by
  have hbatch : ((sampleHead twoMessages).swept sampleWorker).claimable .stored
      "jobs" (timestamp 5000) (limit sampleWorker) = .ok [sampleRecord] := by decide
  obtain ⟨k, hk⟩ := polls_cycle rfl hbatch
  refine ⟨⟨_, rfl, by decide, by decide⟩, youngerRecord_attainable, k, _, hk,
    rfl, fun record hrecord => ?_⟩
  have hmem := (attempts_iff (Store.claimable_nodup hbatch) record).mp hrecord
  obtain rfl : record = sampleRecord := by
    simpa using List.mem_of_mem_filter (List.mem_of_mem_take hmem)
  refine ⟨rfl, fun hattainable => ?_⟩
  obtain ⟨-, message, hhex, hopen⟩ := hattainable
  have hmessage : Hex32.fromHex sampleRecord.eventId = some (hexOf 'e') := by
    decide
  cases hmessage.symm.trans hhex
  have hheld : ¬ ∀ c ∈ parseClaims (Relay.query foreignHold
      (claimFilter (hexOf 'e'))), timestamp 5000 < c.leaseExpiresAt →
      maxAttempt (Relay.query foreignHold (nackFilter (hexOf 'e'))) ≤
        c.attempt → c.claimer = hexOf 'a' := by decide
  exact hheld hopen.unheld

end Runs

end LocalNode

end NostrQ.Worker
