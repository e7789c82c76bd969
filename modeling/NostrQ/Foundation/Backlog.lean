import Mathlib.Data.List.Flatten
import Mathlib.Data.List.Perm.Basic
import Mathlib.Tactic.Common

/-!
# Backlogs

Work that is put down for later.  Each batch of it has an owner, who leaves it
in the order in which it is to be done; the batches are served in any order.
-/

namespace NostrQ.Foundation

structure Backlog (ι ν : Type*) where
  batches : List (ι × List ν)

namespace Backlog

variable {ι ν : Type*}

def empty (ι ν : Type*) : Backlog ι ν := ⟨[]⟩

def notes (b : Backlog ι ν) : List ν := b.batches.flatMap Prod.snd

def Busy (b : Backlog ι ν) (owner : ι) : Prop :=
  ∃ batch ∈ b.batches, batch.1 = owner ∧ batch.2.isEmpty = false

instance [DecidableEq ι] (b : Backlog ι ν) (owner : ι) :
    Decidable (b.Busy owner) :=
  inferInstanceAs (Decidable (∃ batch ∈ b.batches, _ ∧ _))

def leave (b : Backlog ι ν) (owner : ι) (notes : List ν) : Backlog ι ν :=
  if notes.isEmpty then b else ⟨b.batches ++ [(owner, notes)]⟩

/-- Do the first thing of one batch. -/
def serve? (b : Backlog ι ν) (k : Nat) : Option (ν × Backlog ι ν) :=
  match b.batches[k]? with
  | some (owner, note :: rest) => some (note, ⟨b.batches.set k (owner, rest)⟩)
  | _ => none

variable {b b' : Backlog ι ν} {note : ν}

@[simp] theorem notes_empty : (empty ι ν).notes = [] := rfl

@[simp] theorem notes_leave (owner : ι) (notes : List ν) :
    (b.leave owner notes).notes = b.notes ++ notes := by
  cases notes <;> simp [Backlog.notes, leave]

theorem serve?_perm {k : Nat} (h : b.serve? k = some (note, b')) :
    List.Perm b.notes (note :: b'.notes) := by
  unfold serve? at h
  split at h
  · next owner first rest hbatch =>
      cases h
      obtain ⟨hk, hget⟩ := List.getElem?_eq_some_iff.mp hbatch
      have hsplit : b.batches =
          b.batches.take k ++ (owner, note :: rest) :: b.batches.drop (k + 1) := by
        rw [← hget, List.getElem_cons_drop, List.take_append_drop]
      have hset : b.batches.set k (owner, rest) =
          b.batches.take k ++ (owner, rest) :: b.batches.drop (k + 1) :=
        List.set_eq_take_append_cons_drop.trans (if_pos hk)
      simp only [notes, hset]
      conv_lhs => rw [hsplit]
      simp only [List.flatMap_append, List.flatMap_cons, List.cons_append]
      exact List.perm_middle
  · contradiction

theorem mem_notes_serve? {k : Nat} (h : b.serve? k = some (note, b'))
    (other : ν) : other ∈ b.notes ↔ other = note ∨ other ∈ b'.notes := by
  rw [(serve?_perm h).mem_iff, List.mem_cons]

end Backlog

end NostrQ.Foundation
