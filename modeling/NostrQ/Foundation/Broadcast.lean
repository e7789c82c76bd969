import Mathlib.Data.List.Basic

/-!
# Broadcast channels

A sender keeps everything it has sent, oldest first.  A receiver is the number
of values sent before the one it receives next: it sees exactly what is sent
after its creation, in order, and never lags.
-/

namespace NostrQ.Foundation

structure Broadcast (α : Type*) where
  sent : List α
  deriving DecidableEq

namespace Broadcast

variable {α : Type*} (tx : Broadcast α)

def new : Broadcast α := ⟨[]⟩

def send (a : α) : Broadcast α := ⟨tx.sent ++ [a]⟩

def subscribe : Nat := tx.sent.length

/-- What a receiver has not received yet. -/
def backlog (live : Nat) : List α := tx.sent.drop live

def recv (live : Nat) : Option (α × Nat) :=
  tx.sent[live]?.map fun a => (a, live + 1)

def Valid (live : Nat) : Prop := live ≤ tx.sent.length

variable {tx} {a : α} {live live' : Nat}

@[simp] theorem backlog_subscribe : tx.backlog tx.subscribe = [] :=
  List.drop_length

theorem valid_subscribe : tx.Valid tx.subscribe := Nat.le_refl _

theorem Valid.send (h : tx.Valid live) (a : α) : (tx.send a).Valid live := by
  simp only [Valid, Broadcast.send, List.length_append] at h ⊢
  omega

theorem Valid.backlog_send (h : tx.Valid live) (a : α) :
    (tx.send a).backlog live = tx.backlog live ++ [a] :=
  List.drop_append_of_le_length h

theorem recv_eq_some (h : tx.recv live = some (a, live')) :
    live' = live + 1 ∧ tx.backlog live = a :: tx.backlog live' := by
  unfold recv at h
  obtain ⟨b, hb, heq⟩ := Option.map_eq_some_iff.mp h
  cases heq
  obtain ⟨hlt, rfl⟩ := List.getElem?_eq_some_iff.mp hb
  exact ⟨rfl, List.drop_eq_getElem_cons hlt⟩

theorem Valid.recv (h : tx.recv live = some (a, live')) : tx.Valid live' := by
  unfold Broadcast.recv at h
  obtain ⟨b, hb, heq⟩ := Option.map_eq_some_iff.mp h
  cases heq
  exact (List.getElem?_eq_some_iff.mp hb).1

theorem recv_eq_none : tx.recv live = none ↔ tx.backlog live = [] := by
  simp [recv, backlog]

theorem mem_sent_of_mem_backlog (live : Nat) (h : a ∈ tx.backlog live) :
    a ∈ tx.sent :=
  List.mem_of_mem_drop h

@[simp] theorem sent_new : (new : Broadcast α).sent = [] := rfl

@[simp] theorem sent_send (tx : Broadcast α) (a : α) :
    (tx.send a).sent = tx.sent ++ [a] := rfl

end Broadcast

end NostrQ.Foundation
