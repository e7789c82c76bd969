import NostrQ.Sdk.Journal

/-!
# The history of a message

`trace` takes the id of a trace or, where it finds no entry under that, the id
of a message.  The two are looked up in different tables.
-/

namespace NostrQ.Cli

open NostrQ.Foundation NostrQ.Core NostrQ.Database NostrQ.Sdk

/-- A message id is tried after a trace id. -/
def traceRows (s : Store) (log : Lifecycle) (id : String) : Lifecycle :=
  if (log.trace id).isEmpty then
    match s.traceIdForMid id with
    | some traceId => log.trace traceId
    | none => []
  else log.trace id

def traceCmd (s : Store) (log : Lifecycle) (id : String) :
    Except String Lifecycle :=
  let rows := traceRows s log id
  if rows.isEmpty then .error ("no lifecycle events for '" ++ id ++ "'")
  else .ok rows

theorem traceCmd_ok {s : Store} {log rows : Lifecycle} {id : String} :
    traceCmd s log id = .ok rows ↔ traceRows s log id = rows ∧ rows ≠ [] := by
  unfold traceCmd
  by_cases hempty : traceRows s log id = []
  · constructor
    · simp [hempty]
    · rintro ⟨rfl, hne⟩
      exact absurd hempty hne
  · constructor
    · simp only [List.isEmpty_iff, hempty, if_false, Except.ok.injEq]
      rintro rfl
      exact ⟨rfl, hempty⟩
    · rintro ⟨rfl, -⟩
      simp [hempty]

variable {Envelope : Type} {codec : Codec Envelope} {key : PublicKey}
  {c : Journal Envelope}

theorem history_of_row (h : (Journal.system codec key).Reach Journal.Fetched c)
    {mid : String} {row : Row} (hrow : c.store.row? mid = some row)
    (hwritten : ∀ note ∈ c.unwritten, note.mid ≠ mid) :
    (∀ entry ∈ c.lifecycle, entry.mid = mid →
      entry ∈ c.lifecycle.trace row.traceId) ∧
    ∃ entry ∈ c.lifecycle.trace row.traceId,
      entry.mid = mid ∧ row.status ∈ entry.kind.leaves := by
  have hkept := Journal.kept h
  have hin : ∀ entry ∈ c.lifecycle, entry.mid = mid →
      entry ∈ c.lifecycle.trace row.traceId := by
    intro entry hentry hmid
    obtain ⟨found, hfound, htrace⟩ := hkept.entries entry hentry
    rw [hmid] at hfound
    cases hrow.symm.trans hfound
    exact Lifecycle.mem_trace.mpr ⟨hentry, htrace⟩
  refine ⟨hin, ?_⟩
  rcases hkept.explained mid row hrow with
    ⟨entry, hentry, hmid, hleaves⟩ | ⟨note, hnote, hmid, -⟩
  · exact ⟨entry, hin entry hentry hmid, hmid, hleaves⟩
  · exact absurd hmid (hwritten note hnote)

private theorem traceRows_mid {s : Store} {log : Lifecycle} {mid : String}
    {row : Row} (hrow : s.row? mid = some row) :
    traceRows s log mid = log.trace row.traceId ↔
      log.trace mid = [] ∨ mid = row.traceId := by
  have hlookup : s.traceIdForMid mid = some row.traceId := by
    rw [Store.traceIdForMid, hrow, Option.map_some]
  unfold traceRows
  rw [hlookup]
  by_cases hempty : log.trace mid = []
  · simp [hempty]
  · simp only [List.isEmpty_iff, hempty, if_false, false_or]
    constructor
    · intro hsame
      obtain ⟨entry, hentry⟩ := List.exists_mem_of_ne_nil _ hempty
      rw [← (Lifecycle.mem_trace.mp hentry).2]
      exact (Lifecycle.mem_trace.mp (hsame ▸ hentry)).2
    · intro hsame
      rw [← hsame]

private theorem history_shown
    (h : (Journal.system codec key).Reach Journal.Fetched c) {mid : String}
    {row : Row} (hrow : c.store.row? mid = some row)
    (hwritten : ∀ note ∈ c.unwritten, note.mid ≠ mid) :
    traceCmd c.store c.lifecycle row.traceId =
      .ok (c.lifecycle.trace row.traceId) ∧
    (traceCmd c.store c.lifecycle mid = .ok (c.lifecycle.trace row.traceId) ↔
      c.lifecycle.trace mid = [] ∨ mid = row.traceId) := by
  obtain ⟨-, entry, hentry, -⟩ := history_of_row h hrow hwritten
  have hsome : c.lifecycle.trace row.traceId ≠ [] := List.ne_nil_of_mem hentry
  constructor
  · rw [traceCmd_ok]
    exact ⟨by simp [traceRows, hsome], hsome⟩
  · rw [traceCmd_ok, traceRows_mid hrow]
    exact and_iff_left hsome

private theorem found_iff
    (h : (Journal.system codec key).Reach Journal.Fetched c)
    (hwritten : c.unwritten = []) (id : String) :
    (∃ rows, traceCmd c.store c.lifecycle id = .ok rows) ↔
      ∃ mid row, c.store.row? mid = some row ∧ (mid = id ∨ row.traceId = id) := by
  have hnone : ∀ mid, ∀ note ∈ c.unwritten, note.mid ≠ mid := by
    simp [hwritten]
  constructor
  · rintro ⟨rows, hrows⟩
    obtain ⟨rfl, hsome⟩ := traceCmd_ok.mp hrows
    obtain ⟨entry, hentry⟩ := List.exists_mem_of_ne_nil _ hsome
    unfold traceRows at hentry
    split at hentry
    · split at hentry
      · next traceId hlookup =>
          obtain ⟨row, hrow, -⟩ := Option.map_eq_some_iff.mp hlookup
          exact ⟨id, row, hrow, Or.inl rfl⟩
      · contradiction
    · obtain ⟨hmem, htrace⟩ := Lifecycle.mem_trace.mp hentry
      obtain ⟨row, hrow, hcarries⟩ := (Journal.kept h).entries entry hmem
      exact ⟨entry.mid, row, hrow, Or.inr (hcarries.symm.trans htrace)⟩
  · rintro ⟨mid, row, hrow, rfl | rfl⟩
    · by_cases hempty : c.lifecycle.trace mid = []
      · exact ⟨_, (history_shown h hrow (hnone mid)).2.mpr (Or.inl hempty)⟩
      · exact ⟨_, traceCmd_ok.mpr ⟨by simp [traceRows, hempty], hempty⟩⟩
    · exact ⟨_, (history_shown h hrow (hnone mid)).1⟩

/--
Whatever runs beside each other on the store and whenever the process stops, a
message whose entries are all written down has its whole history under its
trace, with an entry for the status it has.  Its own id leads there too, unless
another message was published with that id as its trace.  Once everything is
written down, exactly the ids of messages and of their traces are found.
-/
theorem trace_shows_history
    (h : (Journal.system codec key).Reach Journal.Fetched c) :
    (∀ mid row, c.store.row? mid = some row →
      (∀ note ∈ c.unwritten, note.mid ≠ mid) →
      traceCmd c.store c.lifecycle row.traceId =
        .ok (c.lifecycle.trace row.traceId) ∧
      (traceCmd c.store c.lifecycle mid = .ok (c.lifecycle.trace row.traceId) ↔
        c.lifecycle.trace mid = [] ∨ mid = row.traceId) ∧
      (∀ entry ∈ c.lifecycle, entry.mid = mid →
        entry ∈ c.lifecycle.trace row.traceId) ∧
      ∃ entry ∈ c.lifecycle.trace row.traceId,
        entry.mid = mid ∧ row.status ∈ entry.kind.leaves) ∧
    (c.unwritten = [] → ∀ id,
      (∃ rows, traceCmd c.store c.lifecycle id = .ok rows) ↔
        ∃ mid row, c.store.row? mid = some row ∧
          (mid = id ∨ row.traceId = id)) := by
  refine ⟨?_, found_iff h⟩
  intro mid row hrow hwritten
  obtain ⟨htrace, hmid⟩ := history_shown h hrow hwritten
  exact ⟨htrace, hmid, history_of_row h hrow hwritten⟩

section Runs

open Publishing Journal

theorem trace_shows_history_late :
    ∃ c : Journal String, c.EndsWith .claimed .acked ∧ ∃ row,
      c.store.row? "m" = some row ∧
      traceCmd c.store c.lifecycle "m" = .ok (c.lifecycle.trace row.traceId) ∧
      ∃ entry ∈ c.lifecycle.trace row.traceId,
        entry.mid = "m" ∧ row.status ∈ entry.kind.leaves := by
  obtain ⟨c, hreach, htest⟩ :=
    (System.Reach.init (S := Journal.system textCodec (hexOf 'a'))
      (P := Fetched) (s := blankJournal) rfl).of_run_check
      (recognisingRun ++ ackingRun ++ [.record 2 0, .record 1 0, .restart])
      (fun c => decide (c.EndsWith .claimed .acked ∧ c.unwritten.isEmpty ∧
        c.lifecycle.trace "m" = [])) (by decide)
  obtain ⟨hends, hwritten, hempty⟩ := of_decide_eq_true htest
  obtain ⟨row, hrow, -⟩ := hends.2.1
  have hshown := (trace_shows_history hreach).1 "m" row hrow
    (by simp [List.isEmpty_iff.mp hwritten])
  exact ⟨c, hends, row, hrow, hshown.2.1.mpr (Or.inl hempty), hshown.2.2.2⟩

end Runs

end NostrQ.Cli
