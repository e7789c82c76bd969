import NostrQ.Database.Store

/-!
# Failing statements

The mutators of more than one statement, where any statement or any decoding may
fail.  Each statement is a transaction of its own: one that fails has no effect,
and one that has succeeded is not undone by a later failure.
-/

namespace NostrQ.Database

open NostrQ.Foundation

/-- The `k`-th statement or decoding of the call failed, or the call refused. -/
inductive Failure where
  | statement (k : Nat)
  | refused (error : StoreError)
  deriving DecidableEq, Repr

/-- Which statements and decodings of a call fail, counted from 0. -/
abbrev Faults := Nat → Bool

namespace Faults

open Store

variable (fails : Faults) (s : Store)

/--
An `UPDATE` of the row of `mid`, refused when there is none, then a second
statement.
-/
def updateThen (mid : String) (change : Progress → Progress)
    (second : Store → Store) : Except Failure Unit × Store :=
  if fails 0 then (.error (.statement 0), s)
  else
    match s.update mid change with
    | (.error e, s') => (.error (.refused e), s')
    | (.ok (), s') =>
        if fails 1 then (.error (.statement 1), s') else (.ok (), second s')

def moveToDlq (mid reason : String) (now : Int) : Except Failure Unit × Store :=
  updateThen fails s mid .bury fun s' => s'.listDead mid reason now

def moveToDlqAt (mid reason : String) (attempt : U32) (now : Int) :
    Except Failure Unit × Store :=
  updateThen fails s mid (fun p => p.buryAt attempt)
    fun s' => s'.listDead mid reason now

def dlqRetry (mid : String) : Except Failure Unit × Store :=
  updateThen fails s mid .retry
    fun s' => { s' with dlq := s'.dlq.filter fun entry => entry.mid ≠ mid }

def incrAttempts (mid : String) : Except Failure U32 × Store :=
  if fails 0 then (.error (.statement 0), s)
  else
    let counted := { s with
      messages := s.messages.update (fun row => row.mid = mid) .count }
    if fails 1 then (.error (.statement 1), counted)
    else
      match counted.messages.row? mid with
      | none => (.error (.refused .noRows), counted)
      | some row =>
          if fails 2 then (.error (.statement 2), counted)
          else if h : row.attempts < 4294967296 then
            (.ok ⟨row.attempts, h⟩, counted)
          else (.error (.refused .outOfRange), counted)

def expireDue (queue : String) (now : Int) :
    Except Failure (List String) × Store :=
  if fails 0 then (.error (.statement 0), s)
  else
    let due := s.messages.rows.filter fun row => Due queue now row
    if fails 1 && !due.isEmpty then (.error (.statement 1), s)
    else if due.isEmpty then (.ok [], s)
    else if fails 2 then (.error (.statement 2), s)
    else (.ok (due.map (·.mid)), (s.expireDue queue now).2)

/-! ## Without faults -/

variable {s} {mid reason : String} {now : Int}

def answer {α : Type} : Except StoreError α × Store → Except Failure α × Store
  | (.ok a, s) => (.ok a, s)
  | (.error e, s) => (.error (.refused e), s)

theorem moveToDlq_none :
    moveToDlq (fun _ => false) s mid reason now =
      answer (s.moveToDlq mid reason now) := by
  simp only [moveToDlq, updateThen, Store.moveToDlq, Bool.false_eq_true, if_false]
  rcases s.update mid .bury with ⟨_ | ⟨⟩, s'⟩ <;> rfl

theorem moveToDlqAt_none {attempt : U32} :
    moveToDlqAt (fun _ => false) s mid reason attempt now =
      answer (s.moveToDlqAt mid reason attempt now) := by
  simp only [moveToDlqAt, updateThen, Store.moveToDlqAt, Bool.false_eq_true,
    if_false]
  rcases s.update mid fun p => p.buryAt attempt with ⟨_ | ⟨⟩, s'⟩ <;> rfl

theorem dlqRetry_none :
    dlqRetry (fun _ => false) s mid = answer (s.dlqRetry mid) := by
  simp only [dlqRetry, updateThen, Store.dlqRetry, Bool.false_eq_true, if_false]
  rcases s.update mid .retry with ⟨_ | ⟨⟩, s'⟩ <;> rfl

theorem incrAttempts_none :
    incrAttempts (fun _ => false) s mid = answer (s.incrAttempts mid) := by
  simp only [incrAttempts, Store.incrAttempts, Bool.false_eq_true, if_false]
  cases hrow : (s.messages.update (fun row => row.mid = mid) .count).row? mid with
  | none => rfl
  | some row =>
      simp only
      split <;> rfl

theorem expireDue_none {queue : String} :
    (expireDue (fun _ => false) s queue now).1 =
      .ok (s.expireDue queue now).1 ∧
    (∀ mid, (expireDue (fun _ => false) s queue now).2.row? mid =
      (s.expireDue queue now).2.row? mid) := by
  simp only [expireDue, Bool.false_eq_true, if_false, Bool.false_and]
  split
  · next hempty =>
      rw [List.isEmpty_iff] at hempty
      refine ⟨by simp [Store.expireDue, hempty], fun mid => ?_⟩
      rw [expireDue_row?]
      cases hrow : s.row? mid with
      | none => rfl
      | some row =>
          have hdue : ¬ Due queue now row := by
            simpa using List.filter_eq_nil_iff.mp hempty row
              (Messages.row?_mem hrow).1
          simp [hdue]
  · exact ⟨rfl, fun _ => rfl⟩

end Faults

/-! ## What a failed call leaves -/

/-- The calls that run more than one statement. -/
inductive Mutation where
  | moveToDlq (mid reason : String) (now : Int)
  | moveToDlqAt (mid reason : String) (attempt : U32) (now : Int)
  | dlqRetry (mid : String)
  | incrAttempts (mid : String)
  | expireDue (queue : String) (now : Int)

namespace Mutation

/-- The error of the call, if any, and the tables after it. -/
def run (fails : Faults) (s : Store) : Mutation → Option Failure × Store
  | .moveToDlq mid reason now => outcome (fails.moveToDlq s mid reason now)
  | .moveToDlqAt mid reason attempt now =>
      outcome (fails.moveToDlqAt s mid reason attempt now)
  | .dlqRetry mid => outcome (fails.dlqRetry s mid)
  | .incrAttempts mid => outcome (fails.incrAttempts s mid)
  | .expireDue queue now => outcome (fails.expireDue s queue now)
where
  outcome {α : Type} : Except Failure α × Store → Option Failure × Store
    | (.ok _, s) => (none, s)
    | (.error e, s) => (some e, s)

def first : Mutation → Option (String × (Progress → Progress))
  | .moveToDlq mid _ _ => some (mid, .bury)
  | .moveToDlqAt mid _ attempt _ => some (mid, fun p => p.buryAt attempt)
  | .dlqRetry mid => some (mid, .retry)
  | .incrAttempts mid => some (mid, .count)
  | .expireDue _ _ => none

end Mutation

namespace Failure

/-- Something failed after the first statement had been executed. -/
def late : Failure → Bool
  | .statement k => k ≠ 0
  | .refused .outOfRange => true
  | .refused _ => false

end Failure

namespace Mutation

variable {fails : Faults} {s : Store} {m : Mutation} {e : Failure}

def begun (s : Store) (m : Mutation) : Store :=
  match m.first with
  | some (mid, change) =>
      { s with messages := s.messages.update (fun row => row.mid = mid) change }
  | none => s

theorem outcome_eq_some {α : Type} {call : Except Failure α × Store}
    (h : (run.outcome call).1 = some e) :
    call.1 = .error e ∧ (run.outcome call).2 = call.2 := by
  unfold run.outcome at h ⊢
  split at h
  · contradiction
  · cases h
    exact ⟨rfl, rfl⟩

theorem update_begun (mid : String) (change : Progress → Progress) :
    s.update mid change = (.error (.noMessage mid), s) ∨
      s.update mid change = (.ok (), { s with
        messages := s.messages.update (fun row => row.mid = mid) change }) := by
  unfold Store.update
  split
  · exact Or.inl rfl
  · exact Or.inr rfl

theorem updateThen_error {mid : String} {change : Progress → Progress}
    {second : Store → Store}
    (h : (fails.updateThen s mid change second).1 = .error e) :
    (fails.updateThen s mid change second).2 =
      if e.late then
        { s with messages := s.messages.update (fun row => row.mid = mid) change }
      else s := by
  unfold Faults.updateThen at h ⊢
  split at h
  · cases h
    simp_all [Failure.late]
  · next hfirst =>
      rw [if_neg hfirst]
      rcases update_begun (s := s) mid change with hupdate | hupdate
      · simp only [hupdate] at h ⊢
        cases h
        rfl
      · simp only [hupdate] at h ⊢
        split at h
        · next hsecond =>
            cases h
            rw [if_pos hsecond]
            rfl
        · contradiction

theorem update_of_none {mid : String} {change : Progress → Progress}
    (h : s.messages.row? mid = none) :
    s.messages.update (fun row => row.mid = mid) change = s.messages := by
  have hrows : ∀ row ∈ s.messages.rows, row.mid ≠ mid := by
    simpa [Messages.row?] using h
  have hsame : (s.messages.update (fun row => row.mid = mid) change).rows =
      s.messages.rows := by
    refine (List.map_congr_left fun row hrow => ?_).trans (List.map_id' _)
    simp [hrows row hrow]
  cases hmessages : s.messages
  rw [hmessages] at hsame
  simpa [Messages.update] using hsame

theorem incrAttempts_error {mid : String}
    (h : (fails.incrAttempts s mid).1 = .error e) :
    (fails.incrAttempts s mid).2 =
      if e.late then
        { s with messages := s.messages.update (fun row => row.mid = mid) .count }
      else s := by
  simp only [Faults.incrAttempts] at h ⊢
  split at h
  · next hfirst =>
      cases h
      rw [if_pos hfirst]
      rfl
  · next hfirst =>
      rw [if_neg hfirst]
      split at h
      · next hsecond =>
          cases h
          rw [if_pos hsecond]
          rfl
      · next hsecond =>
          rw [if_neg hsecond]
          split at h
          · next hnone =>
              cases h
              rw [Messages.row?_update_of_mid, if_pos rfl,
                Option.map_eq_none_iff] at hnone
              simp only [update_of_none hnone]
              rfl
          · next row hrow =>
              split at h
              · next hthird =>
                  cases h
                  rw [if_pos hthird]
                  rfl
              · next hthird =>
                  rw [if_neg hthird]
                  split at h
                  · contradiction
                  · next hrange =>
                      cases h
                      rw [dif_neg hrange]
                      rfl

theorem expireDue_error {queue : String} {now : Int}
    (h : (fails.expireDue s queue now).1 = .error e) :
    (fails.expireDue s queue now).2 = s := by
  simp only [Faults.expireDue] at h ⊢
  split
  · rfl
  · next h₀ =>
      rw [if_neg h₀] at h
      split
      · rfl
      · next h₁ =>
          rw [if_neg h₁] at h
          split
          · rfl
          · next h₂ =>
              rw [if_neg h₂] at h
              split
              · rfl
              · next h₃ =>
                  rw [if_neg h₃] at h
                  contradiction

/--
A failed call has left the tables as they were, or, when something failed after
its first statement, with the effect of that statement alone.  `expire_due`
always leaves them as they were.
-/
theorem failed_leaves (h : (m.run fails s).1 = some e) :
    (m.run fails s).2 = if e.late then m.begun s else s := by
  cases m with
  | moveToDlq mid reason now =>
      obtain ⟨herror, hsame⟩ := outcome_eq_some h
      exact hsame.trans (updateThen_error herror)
  | moveToDlqAt mid reason attempt now =>
      obtain ⟨herror, hsame⟩ := outcome_eq_some h
      exact hsame.trans (updateThen_error herror)
  | dlqRetry mid =>
      obtain ⟨herror, hsame⟩ := outcome_eq_some h
      exact hsame.trans (updateThen_error herror)
  | incrAttempts mid =>
      obtain ⟨herror, hsame⟩ := outcome_eq_some h
      exact hsame.trans (incrAttempts_error herror)
  | expireDue queue now =>
      obtain ⟨herror, hsame⟩ := outcome_eq_some h
      rw [show begun s (.expireDue queue now) = s from rfl, ite_self]
      exact hsame.trans (expireDue_error herror)

def storedSample : Store := (Store.empty.insertMessage sampleRecord).2

def secondFails : Faults := fun k => k = 1

theorem failed_leaves_retry :
    (run secondFails storedSample (.dlqRetry "m")).1 = some (.statement 1) ∧
      (run secondFails storedSample (.dlqRetry "m")).2 =
        if Failure.late (.statement 1) then begun storedSample (.dlqRetry "m")
        else storedSample :=
  ⟨by rfl, failed_leaves (by rfl)⟩

/--
The `INSERT` into `dlq` fails: the call returns an error, the row is dead, and
no entry lists it.
-/
theorem buried_unlisted :
    ∃ s', run secondFails storedSample (.moveToDlq "m" "failed" 0) =
        (some (.statement 1), s') ∧
      s'.messages.rows ≠ storedSample.messages.rows ∧
      (∃ row ∈ s'.row? "m", row.status = .dead) ∧ s'.dlq = [] :=
  ⟨_, rfl, by decide, by decide, rfl⟩

end Mutation

end NostrQ.Database
