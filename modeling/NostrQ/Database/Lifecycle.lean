import NostrQ.Database.Scheduling

/-!
# The `lifecycle` table

What happened to each message, in the order in which it was written down.
Nothing is ever taken out of the table, and no other table refers to it.
-/

namespace NostrQ.Database

open NostrQ.Foundation

inductive LifecycleKind where
  | published
  | seen
  | claimed
  | acked
  | nacked
  | retryScheduled
  | deadLettered
  | expired
  | dlqRetried
  deriving DecidableEq, Repr

namespace LifecycleKind

/-- The statuses that the write before such an entry leaves its row with. -/
@[simp] def leaves : LifecycleKind → List Status
  | published => [.pending, .acked]
  | seen => [.pending]
  | claimed => [.claimed]
  | acked => [.acked]
  | nacked => []
  | retryScheduled => [.pending]
  | deadLettered => [.dead]
  | expired => [.expired]
  | dlqRetried => [.pending]

def Moves (kind : LifecycleKind) : Prop := kind ≠ .nacked

instance (kind : LifecycleKind) : Decidable kind.Moves :=
  inferInstanceAs (Decidable (kind ≠ .nacked))

theorem moves_of_leaves {kind : LifecycleKind} {status : Status}
    (h : status ∈ kind.leaves) : kind.Moves := by
  rintro rfl
  contradiction

end LifecycleKind

structure LifecycleRecord where
  mid : String
  traceId : String
  kind : LifecycleKind
  detail : String
  createdAt : Int
  deriving DecidableEq

abbrev Lifecycle := List LifecycleRecord

def Lifecycle.trace (log : Lifecycle) (traceId : String) : Lifecycle :=
  log.filter fun entry => entry.traceId = traceId

/-- The last entry about `mid` that says something about its status. -/
def Lifecycle.lastMove (log : Lifecycle) (mid : String) :
    Option LifecycleRecord :=
  (log.filter fun entry => entry.mid = mid ∧ entry.kind.Moves).getLast?

def Store.traceIdForMid (s : Store) (mid : String) : Option String :=
  (s.row? mid).map Row.traceId

/--
The arguments of a call that writes an entry.  Expiry looks the trace up when it
gets to writing the entry.
-/
structure Note where
  mid : String
  traceId : Option String
  kind : LifecycleKind
  detail : String

/-- The entry as it is written, unless no trace is found for it. -/
def Note.toRecord (note : Note) (s : Store) (now : Int) :
    Option LifecycleRecord :=
  (note.traceId <|> s.traceIdForMid note.mid).map fun traceId =>
    ⟨note.mid, traceId, note.kind, note.detail, now⟩

/-! ## What the entries account for -/

def Note.Names (note : Note) (s : Store) : Prop :=
  ∃ row, s.row? note.mid = some row ∧
    ∀ traceId ∈ note.traceId, traceId = row.traceId

def MessageRecord.Named (rec : MessageRecord) (s : Store) : Prop :=
  ∃ row, s.row? rec.mid = some row ∧ rec.traceId = row.traceId

instance (rec : MessageRecord) (s : Store) : Decidable (rec.Named s) :=
  inferInstanceAs (Decidable (∃ row ∈ s.row? rec.mid, _))

def LifecycleRecord.Names (entry : LifecycleRecord) (s : Store) : Prop :=
  ∃ row, s.row? entry.mid = some row ∧ entry.traceId = row.traceId

/--
The rows stay, every status that changes is what one of the notes leaves, and
every note is about a row that it leaves as it says.
-/
structure Store.Accounts (s s' : Store) (notes : List Note) : Prop where
  keeps : s.Keeps s'
  moved : ∀ mid row', s'.row? mid = some row' →
    (∃ note ∈ notes, note.mid = mid ∧ row'.status ∈ note.kind.leaves) ∨
      ∃ row, s.row? mid = some row ∧ row.status = row'.status
  noted : ∀ note ∈ notes, ∃ row', s'.row? note.mid = some row' ∧
    (∀ traceId ∈ note.traceId, traceId = row'.traceId) ∧
    (note.kind.Moves → row'.status ∈ note.kind.leaves)

namespace Lifecycle

variable {log : Lifecycle} {entry : LifecycleRecord} {mid traceId : String}

theorem mem_trace : entry ∈ log.trace traceId ↔
    entry ∈ log ∧ entry.traceId = traceId := by
  rw [trace, List.mem_filter, decide_eq_true_eq]

theorem mem_of_lastMove (h : log.lastMove mid = some entry) :
    entry ∈ log ∧ entry.mid = mid ∧ entry.kind.Moves := by
  simpa using List.mem_filter.mp (List.mem_of_getLast? h)

theorem lastMove_concat_self (hmid : entry.mid = mid)
    (hmoves : entry.kind.Moves) :
    (log ++ [entry]).lastMove mid = some entry := by
  simp [lastMove, hmid, hmoves]

theorem lastMove_concat_other (h : ¬ (entry.mid = mid ∧ entry.kind.Moves)) :
    (log ++ [entry]).lastMove mid = log.lastMove mid := by
  simp [lastMove, List.filter_append, h]

end Lifecycle

section Keeps

variable {s s' : Store}

theorem MessageRecord.Named.keeps {rec : MessageRecord} (h : rec.Named s)
    (hkeeps : s.Keeps s') : rec.Named s' := by
  obtain ⟨row, hrow, htrace⟩ := h
  obtain ⟨progress, hrow'⟩ := hkeeps _ row hrow
  exact ⟨row.set progress, hrow', htrace⟩

theorem Note.Names.keeps {note : Note} (h : note.Names s)
    (hkeeps : s.Keeps s') : note.Names s' := by
  obtain ⟨row, hrow, htrace⟩ := h
  obtain ⟨progress, hrow'⟩ := hkeeps _ row hrow
  exact ⟨row.set progress, hrow', htrace⟩

theorem LifecycleRecord.Names.keeps {entry : LifecycleRecord}
    (h : entry.Names s) (hkeeps : s.Keeps s') : entry.Names s' := by
  obtain ⟨row, hrow, htrace⟩ := h
  obtain ⟨progress, hrow'⟩ := hkeeps _ row hrow
  exact ⟨row.set progress, hrow', htrace⟩

theorem Row.Shows.named {row : Row} {rec : MessageRecord}
    (h : row.Shows rec) (hrow : s.row? rec.mid = some row) : rec.Named s :=
  ⟨row, hrow, h.traceId⟩

theorem Note.Names.toRecord {note : Note} (h : note.Names s) (now : Int) :
    ∃ entry, note.toRecord s now = some entry ∧ entry.Names s ∧
      entry.mid = note.mid ∧ entry.kind = note.kind := by
  obtain ⟨row, hrow, htrace⟩ := h
  unfold Note.toRecord Store.traceIdForMid
  cases hnamed : note.traceId with
  | some traceId =>
      exact ⟨_, rfl, ⟨row, hrow, htrace traceId hnamed⟩, rfl, rfl⟩
  | none =>
      rw [hrow]
      exact ⟨_, rfl, ⟨row, hrow, rfl⟩, rfl, rfl⟩

end Keeps

namespace Store

variable {s s' : Store}

/-! ## The writes that are accounted for -/

theorem Accounts.same (h : ∀ mid, s'.row? mid = s.row? mid) :
    s.Accounts s' [] where
  keeps := fun mid row hrow => ⟨row.toProgress, (h mid).trans hrow⟩
  moved := fun mid row' hrow' => Or.inr ⟨row', (h mid).symm.trans hrow', rfl⟩
  noted := by simp

theorem Accounts.refl (s : Store) : s.Accounts s [] := .same fun _ => rfl

theorem Moves.accounts_quiet {mid : String} {change : Progress → Progress}
    (h : s.Moves s' mid change) (hstatus : ∀ p, (change p).status = p.status) :
    s.Accounts s' [] where
  keeps := h.rewrites.keeps
  moved := by
    intro other row' hrow'
    rcases h.row_cases hrow' with ⟨-, row, hrow, rfl⟩ | hold
    · exact Or.inr ⟨row, hrow, (hstatus _).symm⟩
    · exact Or.inr ⟨row', hold, rfl⟩
  noted := by simp

theorem Moves.accounts {note : Note} {change : Progress → Progress}
    (h : s.Moves s' note.mid change) (hnames : note.Names s)
    (hleaves : ∀ p, (change p).status ∈ note.kind.leaves) :
    s.Accounts s' [note] where
  keeps := h.rewrites.keeps
  moved := by
    intro other row' hrow'
    rcases h.row_cases hrow' with ⟨rfl, row, -, rfl⟩ | hold
    · exact Or.inl ⟨note, by simp, rfl, hleaves _⟩
    · exact Or.inr ⟨row', hold, rfl⟩
  noted := by
    intro other hother
    rw [List.mem_singleton.mp hother]
    obtain ⟨row, hrow, htrace⟩ := hnames
    exact ⟨_, h.row hrow, htrace, fun _ => hleaves _⟩

theorem moveToDlqAt_ok {mid : String} {row : Row} (h : s.row? mid = some row)
    (reason : String) (attempt : U32) (now : Int) :
    (s.moveToDlqAt mid reason attempt now).1 = .ok () := by
  have hok := update_ok h fun p => p.buryAt attempt
  unfold moveToDlqAt
  split
  · next heq =>
      rw [heq] at hok
      contradiction
  · rfl

theorem dlqRetry_ok {mid : String} {row : Row} (h : s.row? mid = some row) :
    (s.dlqRetry mid).1 = .ok () := by
  have hok := update_ok h .retry
  unfold dlqRetry
  split
  · next heq =>
      rw [heq] at hok
      contradiction
  · rfl

theorem Accounts.nacked {note : Note} (hnames : note.Names s)
    (hkind : note.kind = .nacked) : s.Accounts s [note] where
  keeps := .refl s
  moved := fun _ row' hrow' => Or.inr ⟨row', hrow', rfl⟩
  noted := by
    intro other hother
    rw [List.mem_singleton.mp hother]
    obtain ⟨row, hrow, htrace⟩ := hnames
    exact ⟨row, hrow, htrace, fun hmoves => absurd hkind hmoves⟩

theorem insertMessage_row?_of_false {rec : MessageRecord}
    (h : (s.insertMessage rec).1 = false) (mid : String) :
    (s.insertMessage rec).2.row? mid = s.row? mid :=
  congrArg (fun m : Messages => m.row? mid) (Messages.insert_conflict h).1

theorem insertMessage_accounts {rec : MessageRecord} {note : Note}
    (h : (s.insertMessage rec).1 = true) (hmid : note.mid = rec.mid)
    (htrace : note.traceId = some rec.traceId)
    (hleaves : rec.status ∈ note.kind.leaves) :
    s.Accounts (s.insertMessage rec).2 [note] where
  keeps := insertMessage_keeps rec
  moved := by
    intro mid row' hrow'
    rcases insertMessage_row? hrow' with hold | rfl
    · exact Or.inr ⟨row', hold, rfl⟩
    · exact Or.inl ⟨note, by simp, hmid.trans (Messages.row?_mem hrow').2,
        hleaves⟩
  noted := by
    intro other hother
    rw [List.mem_singleton.mp hother, hmid]
    refine ⟨rec.toRow, insertMessage_row?_of_true h, ?_, fun _ => hleaves⟩
    intro traceId hmem
    rw [htrace, Option.mem_some_iff] at hmem
    exact hmem.symm

end Store

def expiredNotes (s : Store) (queue : String) (now : Int) : List Note :=
  (s.expireDue queue now).1.map fun mid => ⟨mid, none, .expired, "ttl exceeded"⟩

namespace Store

variable {s : Store}

theorem expireDue_accounts (queue : String) (now : Int) :
    s.Accounts (s.expireDue queue now).2 (expiredNotes s queue now) where
  keeps := (expireDue_rewrites queue now).keeps
  moved := by
    intro mid row' hrow'
    rw [expireDue_row?] at hrow'
    obtain ⟨row, hrow, rfl⟩ := Option.map_eq_some_iff.mp hrow'
    by_cases hdue : Due queue now row
    · refine Or.inl ⟨⟨mid, none, .expired, "ttl exceeded"⟩, ?_, rfl, ?_⟩
      · exact List.mem_map_of_mem (mem_expireDue.mpr ⟨row, hrow, hdue⟩)
      · simp [hdue]
    · exact Or.inr ⟨row, hrow, by simp [hdue]⟩
  noted := by
    intro note hnote
    obtain ⟨mid, hmid, rfl⟩ := List.mem_map.mp hnote
    obtain ⟨row, hrow, hdue⟩ := mem_expireDue.mp hmid
    refine ⟨row.set row.toProgress.expire, ?_, by simp, ?_⟩
    · rw [expireDue_row?, hrow, Option.map_some, if_pos hdue]
    · intro _
      simp

end Store

end NostrQ.Database
