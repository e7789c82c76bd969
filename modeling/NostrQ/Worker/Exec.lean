import Mathlib.Data.List.Induction
import Mathlib.Logic.Function.Basic
import NostrQ.Foundation.Pipe
import NostrQ.Foundation.Transition

/-!
# The exec handler and its child

The handler starts a command with pipes for its input and its two outputs.  It
first writes the whole payload, closes the input, and only then reads the
outputs.  The child reads and writes in its own order, so each of the two can be
waiting for the other to read.
-/

namespace NostrQ.Worker

open NostrQ.Foundation

inductive Stream where
  | out
  | err
  deriving DecidableEq

/-- What a child does next; reading nothing means the end of its input. -/
inductive ChildOp (σ β : Type) where
  | read (limit : Nat) (resume : List β → σ)
  | write (stream : Stream) (output : List β) (resume : σ)
  | exit

structure Child (σ β : Type) where
  start : σ
  next : σ → ChildOp σ β

inductive ChildPhase (σ β : Type) where
  | running (state : σ)
  | writing (stream : Stream) (rest : List β) (resume : σ)
  | exited

inductive HandlerPhase (β : Type) where
  | writing (rest : List β)
  | draining (output : Stream → List β)
  | done (output : Stream → List β)

structure Exec (σ β : Type) (stdinSize : Nat) (sizes : Stream → Nat) where
  handler : HandlerPhase β
  stdin : Pipe β stdinSize
  outputs : (stream : Stream) → Pipe β (sizes stream)
  child : ChildPhase σ β

/-- The handler's steps; a number says how many bytes move. -/
inductive HandlerAction where
  | feed (n : Nat)
  | brokenPipe
  | close
  | drain (stream : Stream) (n : Nat)
  | finish
  deriving DecidableEq

inductive ChildAction where
  | read (n : Nat)
  | endOfInput
  | beginWrite
  | write (n : Nat)
  | endWrite
  | exit
  deriving DecidableEq

inductive ExecAction where
  | handler (action : HandlerAction)
  | child (action : ChildAction)
  deriving DecidableEq

namespace Exec

variable {σ β : Type} {stdinSize : Nat} {sizes : Stream → Nat}
  (child : Child σ β)

def spawn (payload : List β) : Exec σ β stdinSize sizes where
  handler := .writing payload
  stdin := .empty β stdinSize
  outputs stream := .empty β (sizes stream)
  child := .running child.start

def feed (c : Exec σ β stdinSize sizes) (n : Nat) (rest : List β) :
    Option (Exec σ β stdinSize sizes) :=
  (c.stdin.push? (rest.take n)).map fun stdin =>
    { c with handler := .writing (rest.drop n), stdin := stdin }

def drain (c : Exec σ β stdinSize sizes) (stream : Stream) (n : Nat)
    (output : Stream → List β) : Option (Exec σ β stdinSize sizes) :=
  ((c.outputs stream).pop? n).map fun (chunk, pipe) =>
    { c with
      handler := .draining
        (Function.update output stream (output stream ++ chunk))
      outputs := Function.update c.outputs stream pipe }

def drained (c : Exec σ β stdinSize sizes) : Bool :=
  (c.outputs .out).content.isEmpty && (c.outputs .err).content.isEmpty

def handlerStep (c : Exec σ β stdinSize sizes) :
    HandlerPhase β → HandlerAction → Option (Exec σ β stdinSize sizes)
  | .writing rest, .feed n =>
      if 0 < n ∧ n ≤ rest.length then c.feed n rest else none
  | .writing (_ :: _), .brokenPipe =>
      match c.child with
      | .exited => some { c with handler := .draining fun _ => [] }
      | _ => none
  | .writing [], .close => some { c with handler := .draining fun _ => [] }
  | .draining output, .drain stream n =>
      if 0 < n then c.drain stream n output else none
  | .draining output, .finish =>
      match c.child with
      | .exited =>
          if c.drained then some { c with handler := .done output } else none
      | _ => none
  | _, _ => none

def read (c : Exec σ β stdinSize sizes) (n : Nat)
    (resume : List β → σ) : Option (Exec σ β stdinSize sizes) :=
  (c.stdin.pop? n).map fun (chunk, stdin) =>
    { c with stdin := stdin, child := .running (resume chunk) }

def write (c : Exec σ β stdinSize sizes) (stream : Stream) (n : Nat)
    (rest : List β) (resume : σ) : Option (Exec σ β stdinSize sizes) :=
  ((c.outputs stream).push? (rest.take n)).map fun pipe =>
    { c with
      outputs := Function.update c.outputs stream pipe
      child := .writing stream (rest.drop n) resume }

def atEnd (c : Exec σ β stdinSize sizes) : Bool :=
  match c.handler with
  | .writing _ => false
  | _ => c.stdin.content.isEmpty

def opStep (c : Exec σ β stdinSize sizes) :
    ChildOp σ β → ChildAction → Option (Exec σ β stdinSize sizes)
  | .read limit resume, .read n =>
      if 0 < n ∧ n ≤ limit then c.read n resume else none
  | .read _ resume, .endOfInput =>
      if c.atEnd then some { c with child := .running (resume []) } else none
  | .write stream output resume, .beginWrite =>
      some { c with child := .writing stream output resume }
  | .exit, .exit => some { c with child := .exited }
  | _, _ => none

def childStep (c : Exec σ β stdinSize sizes) :
    ChildPhase σ β → ChildAction → Option (Exec σ β stdinSize sizes)
  | .running state, action => c.opStep (child.next state) action
  | .writing stream rest resume, .write n =>
      if 0 < n ∧ n ≤ rest.length then c.write stream n rest resume else none
  | .writing _ [] resume, .endWrite =>
      some { c with child := .running resume }
  | _, _ => none

def step (c : Exec σ β stdinSize sizes) :
    ExecAction → Option (Exec σ β stdinSize sizes)
  | .handler action => c.handlerStep c.handler action
  | .child action => childStep child c c.child action

def system (payload : List β) :
    System (Exec σ β stdinSize sizes) ExecAction where
  init c := c = spawn child payload
  step := step child

/-- The handler has more to write than fits, and so has the child. -/
def Deadlocked (stream : Stream) (c : Exec σ β stdinSize sizes) : Prop :=
  ∃ rest output resume, c.handler = .writing rest ∧ rest ≠ [] ∧
    c.stdin.Full ∧ c.child = .writing stream output resume ∧ output ≠ [] ∧
    (c.outputs stream).Full

end Exec

/-! ## What a child reads before its output is too long -/

def grow (written : Stream → Nat) (stream : Stream) (n : Nat) : Stream → Nat :=
  Function.update written stream (written stream + n)

/--
The child comes to this state when it has read these bytes and written that
many, with reads of at most a pipe's content each.
-/
inductive Child.Gets {σ β : Type} (child : Child σ β) (stdinSize : Nat) :
    List β → (Stream → Nat) → σ → Prop where
  | start : Gets child stdinSize [] (fun _ => 0) child.start
  | read {consumed chunk : List β} {written : Stream → Nat} {limit : Nat}
      {state : σ} {resume : List β → σ} :
      Gets child stdinSize consumed written state →
      child.next state = .read limit resume → chunk ≠ [] →
      chunk.length ≤ limit → chunk.length ≤ stdinSize →
      Gets child stdinSize (consumed ++ chunk) written (resume chunk)
  | write {consumed output : List β} {written : Stream → Nat} {stream : Stream}
      {state resume : σ} :
      Gets child stdinSize consumed written state →
      child.next state = .write stream output resume →
      Gets child stdinSize consumed (grow written stream output.length) resume

/-- Having read these bytes it goes on to write more than the pipe takes. -/
def Child.Overfills {σ β : Type} (child : Child σ β) (stdinSize : Nat)
    (sizes : Stream → Nat) (stream : Stream) (consumed : List β) : Prop :=
  ∃ written state output resume, child.Gets stdinSize consumed written state ∧
    child.next state = .write stream output resume ∧
    (∀ s, written s ≤ sizes s) ∧
    sizes stream < written stream + output.length

/-- Whatever it then leaves unread of the payload fits into its input pipe. -/
def Child.Roomy {σ β : Type} (child : Child σ β) (stdinSize : Nat)
    (sizes : Stream → Nat) (stream : Stream) (payload : List β) : Prop :=
  ∀ consumed, consumed <+: payload →
    child.Overfills stdinSize sizes stream consumed →
    payload.length ≤ consumed.length + stdinSize

section Grow

variable {written : Stream → Nat} {stream s : Stream} {n : Nat}

@[simp] theorem grow_self : grow written stream n stream = written stream + n :=
  Function.update_self ..

theorem grow_of_ne (h : s ≠ stream) : grow written stream n s = written s :=
  Function.update_of_ne h ..

theorem le_grow (s : Stream) : written s ≤ grow written stream n s := by
  by_cases h : s = stream
  · subst h
    simp
  · exact Nat.le_of_eq (grow_of_ne h).symm

end Grow

namespace Exec

variable {σ β : Type} {stdinSize : Nat} {sizes : Stream → Nat}
  {child : Child σ β} {payload : List β} {stream : Stream}
  {c c' : Exec σ β stdinSize sizes}

def held (c : Exec σ β stdinSize sizes) (stream : Stream) : Nat :=
  (c.outputs stream).content.length

theorem held_le (c : Exec σ β stdinSize sizes) (stream : Stream) :
    c.held stream ≤ sizes stream :=
  (c.outputs stream).fits

section Held

variable {s : Stream} {pipe : Pipe β (sizes stream)}
  (h : c'.outputs = Function.update c.outputs stream pipe)
include h

theorem held_self : c'.held stream = pipe.content.length := by
  rw [held, h, Function.update_self]

theorem held_of_ne (hs : s ≠ stream) : c'.held s = c.held s := by
  rw [held, h, Function.update_of_ne hs, held]

end Held

/--
While the handler writes, nothing is taken from the output pipes: what the child
has written is in them, and what it has read is what the input pipe has let go.
-/
inductive Fed (child : Child σ β) (payload : List β)
    (c : Exec σ β stdinSize sizes) (rest : List β) : Prop where
  | running {consumed : List β} {state : σ} :
      payload = consumed ++ (c.stdin.content ++ rest) →
      c.child = .running state →
      child.Gets stdinSize consumed c.held state →
      Fed child payload c rest
  | writing {consumed output left : List β} {state resume : σ}
      {written : Stream → Nat} {stream : Stream} :
      payload = consumed ++ (c.stdin.content ++ rest) →
      c.child = .writing stream left resume →
      child.Gets stdinSize consumed written state →
      child.next state = .write stream output resume →
      grow written stream output.length = grow c.held stream left.length →
      written stream ≤ c.held stream →
      Fed child payload c rest
  | exited : c.child = .exited → Fed child payload c rest

def Tracked (child : Child σ β) (payload : List β)
    (c : Exec σ β stdinSize sizes) : Prop :=
  ∀ rest, c.handler = .writing rest → Fed child payload c rest

theorem tracked_spawn : Tracked child payload
    (spawn child payload : Exec σ β stdinSize sizes) := by
  intro rest hrest
  cases hrest
  exact .running (by simp [spawn]) rfl .start

/-! ## One step -/

theorem handlerStep_writing {action : HandlerAction} {rest : List β}
    (h : c.handlerStep c.handler action = some c')
    (hrest : c'.handler = .writing rest) :
    ∃ chunk, c.handler = .writing (chunk ++ rest) ∧
      c'.stdin.content = c.stdin.content ++ chunk ∧
      c'.outputs = c.outputs ∧ c'.child = c.child := by
  unfold handlerStep at h
  split at h
  · next rest₀ n hphase =>
      split at h
      · obtain ⟨stdin, hpush, rfl⟩ := Option.map_eq_some_iff.mp h
        cases hrest
        exact ⟨rest₀.take n, by rw [List.take_append_drop, hphase],
          Pipe.push?_eq_some.mp hpush, rfl, rfl⟩
      · contradiction
  · split at h
    · cases h
      contradiction
    · contradiction
  · cases h
    contradiction
  · split at h
    · obtain ⟨_, _, rfl⟩ := Option.map_eq_some_iff.mp h
      contradiction
    · contradiction
  · split at h
    · split at h
      · cases h
        contradiction
      · contradiction
    · contradiction
  · contradiction

theorem childStep_handler {phase : ChildPhase σ β} {action : ChildAction}
    (h : childStep child c phase action = some c') :
    c'.handler = c.handler := by
  unfold childStep at h
  split at h
  · unfold opStep at h
    split at h
    · split at h
      · obtain ⟨_, _, rfl⟩ := Option.map_eq_some_iff.mp h
        rfl
      · contradiction
    · split at h
      · cases h
        rfl
      · contradiction
    · cases h
      rfl
    · cases h
      rfl
    · contradiction
  · split at h
    · obtain ⟨_, _, rfl⟩ := Option.map_eq_some_iff.mp h
      rfl
    · contradiction
  · cases h
    rfl
  · contradiction

private theorem fed_opStep {action : ChildAction} {consumed rest : List β}
    {state : σ} (hhandler : c.handler = .writing rest)
    (hpayload : payload = consumed ++ (c.stdin.content ++ rest))
    (hgets : child.Gets stdinSize consumed c.held state)
    (h : c.opStep (child.next state) action = some c') :
    Fed child payload c' rest := by
  unfold opStep at h
  split at h
  · next limit resume n hnext =>
      split at h
      · next hn =>
          obtain ⟨⟨chunk, stdin⟩, hpop, rfl⟩ := Option.map_eq_some_iff.mp h
          obtain ⟨hcontent, hlength⟩ := Pipe.pop?_eq_some.mp hpop
          have hfits := c.stdin.fits
          rw [hcontent, List.length_append] at hfits
          have hchunk : chunk ≠ [] := List.ne_nil_of_length_pos (by omega)
          have hread : child.Gets stdinSize (consumed ++ chunk) c.held
              (resume chunk) :=
            .read hgets hnext hchunk (by omega) (by omega)
          refine .running ?_ rfl hread
          rw [hpayload, hcontent]
          simp only [List.append_assoc]
      · contradiction
  · split at h
    · next hend =>
        simp [atEnd, hhandler] at hend
    · contradiction
  · next hnext =>
      cases h
      exact .writing hpayload rfl hgets hnext rfl (Nat.le_refl _)
  · cases h
    exact .exited rfl
  · contradiction

private theorem grow_held {left : List β} {n : Nat}
    {pipe : Pipe β (sizes stream)} (c' : Exec σ β stdinSize sizes)
    (hpush : (c.outputs stream).push? (left.take n) = some pipe)
    (hc' : c'.outputs = Function.update c.outputs stream pipe) :
    grow c'.held stream (left.drop n).length =
        grow c.held stream left.length ∧
      c.held stream ≤ c'.held stream := by
  have hcontent := Pipe.push?_eq_some.mp hpush
  have hself : c'.held stream = c.held stream + (left.take n).length := by
    rw [held_self hc', hcontent, List.length_append, held]
  refine ⟨funext fun s => ?_, by omega⟩
  by_cases hs : s = stream
  · subst hs
    rw [grow_self, grow_self, hself, Nat.add_assoc, ← List.length_append,
      List.take_append_drop]
  · rw [grow_of_ne hs, grow_of_ne hs, held_of_ne hc' hs]

theorem fed_childStep {action : ChildAction} {rest : List β}
    (hhandler : c.handler = .writing rest) (hfed : Fed child payload c rest)
    (h : childStep child c c.child action = some c') :
    Fed child payload c' rest := by
  cases hfed with
  | running hpayload hchild hgets =>
      rw [hchild] at h
      exact fed_opStep hhandler hpayload hgets h
  | @writing consumed output left state resume written stream hpayload hchild
      hgets hnext hlength hle =>
      rw [hchild] at h
      unfold childStep at h
      split at h
      · contradiction
      · next hphase =>
          cases hphase
          split at h
          · obtain ⟨pipe, hpush, rfl⟩ := Option.map_eq_some_iff.mp h
            obtain ⟨hmoved, hgrown⟩ := grow_held { c with
                outputs := Function.update c.outputs stream pipe } hpush rfl
            exact .writing hpayload rfl hgets hnext (hlength.trans hmoved.symm)
              (Nat.le_trans hle hgrown)
          · contradiction
      · next hphase =>
          cases hphase
          cases h
          refine .running hpayload rfl ?_
          have hwritten : grow written stream output.length = c.held := by
            rw [hlength]
            exact Function.update_eq_self stream c.held
          exact hwritten ▸ .write hgets hnext
      · contradiction
  | exited hchild =>
      rw [hchild] at h
      simp [childStep] at h

theorem tracked_step {action : ExecAction} (h : Tracked child payload c)
    (hstep : step child c action = some c') : Tracked child payload c' := by
  intro rest hrest
  cases action with
  | handler action =>
      obtain ⟨chunk, hwriting, hstdin, houtputs, hchild⟩ :=
        handlerStep_writing hstep hrest
      have hmoved (consumed : List β) :
          consumed ++ (c.stdin.content ++ (chunk ++ rest)) =
            consumed ++ (c'.stdin.content ++ rest) := by
        rw [hstdin, List.append_assoc]
      have hheld : c.held = c'.held := by
        unfold held
        rw [houtputs]
      cases h _ hwriting with
      | running hpayload hrunning hgets =>
          exact .running (hpayload.trans (hmoved _)) (hchild.trans hrunning)
            (hheld ▸ hgets)
      | writing hpayload hphase hgets hnext hlength hle =>
          exact .writing (hpayload.trans (hmoved _)) (hchild.trans hphase)
            hgets hnext (hheld ▸ hlength) (hheld ▸ hle)
      | exited hexited => exact .exited (hchild.trans hexited)
  | child action =>
      have hhandler := childStep_handler hstep
      rw [hhandler] at hrest
      exact fed_childStep hrest (h rest hrest) hstep

theorem tracked_of_reach
    (h : (system child payload).Reach System.Free c) :
    Tracked child payload c :=
  h.invariant (fun _ hinit => hinit ▸ tracked_spawn)
    fun _ _ _ _ htracked _ hstep => tracked_step htracked hstep

theorem overfills_of_deadlocked (htracked : Tracked child payload c)
    (h : Deadlocked stream c) :
    ∃ consumed, consumed <+: payload ∧
      child.Overfills stdinSize sizes stream consumed ∧
      consumed.length + stdinSize < payload.length := by
  obtain ⟨rest, left, resume, hhandler, hrest, hstdin, hchild, hleft, hfull⟩ := h
  have hrest' := List.length_pos_of_ne_nil hrest
  have hleft' := List.length_pos_of_ne_nil hleft
  cases htracked rest hhandler with
  | running _ hrunning _ => simp [hrunning] at hchild
  | exited hexited => simp [hexited] at hchild
  | @writing consumed output left' state resume' written stream' hpayload
      hwriting hgets hnext hlength hle =>
      rw [hwriting] at hchild
      cases hchild
      have hover := congrFun hlength stream
      rw [grow_self, grow_self, held, hfull] at hover
      have hroom (s : Stream) : written s ≤ sizes s := by
        by_cases hs : s = stream
        · subst hs
          exact Nat.le_trans hle (c.held_le _)
        · have hsame := congrFun hlength s
          rw [grow_of_ne hs, grow_of_ne hs] at hsame
          exact hsame ▸ c.held_le s
      refine ⟨consumed, ⟨_, hpayload.symm⟩,
        ⟨written, state, output, resume, hgets, hnext, hroom, by omega⟩, ?_⟩
      have hsize := congrArg List.length hpayload
      simp only [List.length_append] at hsize
      rw [hstdin] at hsize
      omega

/-! ## Driving the two into each other -/

structure At (c : Exec σ β stdinSize sizes) (rest : List β)
    (written : Stream → Nat) (phase : ChildPhase σ β) : Prop where
  handler : c.handler = .writing rest
  stdin : c.stdin.content = []
  held : c.held = written
  child : c.child = phase

theorem reach_feed (chunk rest : List β)
    (h : (system child payload).Reach System.Free c)
    (hhandler : c.handler = .writing (chunk ++ rest))
    (hroom : (c.stdin.content ++ chunk).length ≤ stdinSize) :
    (system child payload).Reach System.Free
      { c with handler := .writing rest, stdin := ⟨_, hroom⟩ } := by
  cases chunk with
  | nil =>
      have hsame : c = { c with
          handler := .writing rest
          stdin := ⟨c.stdin.content ++ [], hroom⟩ } := by
        cases c
        cases hhandler
        simp
      exact hsame ▸ h
  | cons byte more =>
      refine h.step (a := .handler (.feed (byte :: more).length)) trivial ?_
      have hpush : c.stdin.push? (((byte :: more) ++ rest).take
          (byte :: more).length) = some ⟨_, hroom⟩ :=
        Pipe.push?_eq_some.mpr (by rw [List.take_left])
      simp only [system, step, hhandler, handlerStep]
      rw [if_pos (by simp), feed, hpush, List.drop_left]
      rfl

theorem reach_fill (output left : List β) {resume : σ}
    (h : (system child payload).Reach System.Free c)
    (hchild : c.child = .writing stream (output ++ left) resume)
    (hroom : ((c.outputs stream).content ++ output).length ≤ sizes stream) :
    (system child payload).Reach System.Free
      { c with
        child := .writing stream left resume
        outputs := Function.update c.outputs stream ⟨_, hroom⟩ } := by
  cases output with
  | nil =>
      have hpipe : (⟨_, hroom⟩ : Pipe β (sizes stream)) = c.outputs stream :=
        Pipe.ext_content (List.append_nil _)
      rw [hpipe, Function.update_eq_self]
      have hsame : c = { c with child := .writing stream left resume } := by
        cases c
        cases hchild
        rfl
      exact hsame ▸ h
  | cons byte more =>
      refine h.step (a := .child (.write (byte :: more).length)) trivial ?_
      have hpush : (c.outputs stream).push? (((byte :: more) ++ left).take
          (byte :: more).length) = some ⟨_, hroom⟩ :=
        Pipe.push?_eq_some.mpr (by rw [List.take_left])
      simp only [system, step, hchild, childStep]
      rw [if_pos (by simp), write, hpush, List.drop_left]
      rfl

theorem reach_take {chunk : List β} {limit : Nat} {state : σ}
    {resume : List β → σ} (h : (system child payload).Reach System.Free c)
    (hchild : c.child = .running state)
    (hnext : child.next state = .read limit resume)
    (hcontent : c.stdin.content = chunk) (hchunk : chunk ≠ [])
    (hlimit : chunk.length ≤ limit) :
    (system child payload).Reach System.Free
      { c with
        stdin := .empty β stdinSize
        child := .running (resume chunk) } := by
  refine h.step (a := .child (.read chunk.length)) trivial ?_
  have hpop : c.stdin.pop? chunk.length = some (chunk, .empty β stdinSize) :=
    Pipe.pop?_eq_some.mpr ⟨by simp [hcontent], rfl⟩
  simp only [system, step, hchild, childStep, hnext, opStep]
  rw [if_pos ⟨List.length_pos_of_ne_nil hchunk, hlimit⟩, read, hpop]
  rfl

theorem reach_beginWrite {output : List β} {state resume : σ}
    (h : (system child payload).Reach System.Free c)
    (hchild : c.child = .running state)
    (hnext : child.next state = .write stream output resume) :
    (system child payload).Reach System.Free
      { c with child := .writing stream output resume } := by
  refine h.step (a := .child .beginWrite) trivial ?_
  simp only [system, step, hchild, childStep, hnext, opStep]

theorem reach_endWrite {resume : σ}
    (h : (system child payload).Reach System.Free c)
    (hchild : c.child = .writing stream [] resume) :
    (system child payload).Reach System.Free
      { c with child := .running resume } := by
  refine h.step (a := .child .endWrite) trivial ?_
  simp only [system, step, hchild, childStep]

theorem reach_of_gets {consumed : List β} {written : Stream → Nat} {state : σ}
    (hgets : child.Gets stdinSize consumed written state) {rest : List β}
    (hpayload : payload = consumed ++ rest)
    (hroom : ∀ s, written s ≤ sizes s) :
    ∃ c : Exec σ β stdinSize sizes,
      (system child payload).Reach System.Free c ∧
        c.At rest written (.running state) := by
  induction hgets generalizing rest with
  | start =>
      exact ⟨spawn child payload, .init rfl,
        ⟨by rw [hpayload]; rfl, rfl, rfl, rfl⟩⟩
  | @read consumed chunk written limit state resume _ hnext hchunk hlimit hsize
      ih =>
      rw [List.append_assoc] at hpayload
      obtain ⟨c, hreach, hat⟩ := ih hpayload hroom
      have hfits : (c.stdin.content ++ chunk).length ≤ stdinSize := by
        rw [hat.stdin]
        exact hsize
      have hfed := reach_feed chunk rest hreach hat.handler hfits
      have htaken := reach_take hfed hat.child hnext (by simp [hat.stdin])
        hchunk hlimit
      exact ⟨_, htaken, ⟨rfl, rfl, hat.held, rfl⟩⟩
  | @write consumed output written stream state resume _ hnext ih =>
      obtain ⟨c, hreach, hat⟩ := ih hpayload
        fun s => Nat.le_trans (le_grow s) (hroom s)
      have hbegun := reach_beginWrite hreach hat.child hnext
      have hfits : ((c.outputs stream).content ++ output).length ≤
          sizes stream := by
        have hgrown := hroom stream
        rw [grow_self, ← hat.held] at hgrown
        rw [List.length_append]
        exact hgrown
      have hfilled := reach_fill output [] hbegun
        (by rw [List.append_nil]) hfits
      have hended := reach_endWrite hfilled rfl
      refine ⟨_, hended, ⟨hat.handler, hat.stdin, funext fun s => ?_, rfl⟩⟩
      rw [← hat.held]
      by_cases hs : s = stream
      · subst hs
        rw [grow_self, held_self (c := c) rfl, List.length_append, held]
      · rw [grow_of_ne hs, held_of_ne (c := c) rfl hs]

theorem reach_deadlocked {consumed : List β}
    (hpre : consumed <+: payload)
    (hover : child.Overfills stdinSize sizes stream consumed)
    (hlong : consumed.length + stdinSize < payload.length) :
    ∃ c : Exec σ β stdinSize sizes,
      (system child payload).Reach System.Free c ∧ Deadlocked stream c := by
  obtain ⟨rest, hpayload⟩ := hpre
  obtain ⟨written, state, output, resume, hgets, hnext, hroom, hover⟩ := hover
  obtain ⟨c, hreach, hat⟩ := reach_of_gets hgets hpayload.symm hroom
  have hunread : stdinSize < rest.length := by
    rw [← hpayload, List.length_append] at hlong
    omega
  have hbegun := reach_beginWrite hreach hat.child hnext
  -- the child writes what still fits, and then the handler does
  let space := sizes stream - written stream
  have hspace : written stream + space = sizes stream :=
    Nat.add_sub_of_le (hroom stream)
  have hout : ((c.outputs stream).content ++ output.take space).length =
      sizes stream := by
    have hheld : (c.outputs stream).content.length = written stream :=
      congrFun hat.held stream
    rw [List.length_append, hheld, List.length_take_of_le (by omega), hspace]
  have hfilled := reach_fill (output.take space) (output.drop space) hbegun
    (by rw [List.take_append_drop]) (Nat.le_of_eq hout)
  have hin : (c.stdin.content ++ rest.take stdinSize).length = stdinSize := by
    rw [hat.stdin, List.nil_append, List.length_take_of_le (by omega)]
  have hfed := reach_feed (rest.take stdinSize) (rest.drop stdinSize) hfilled
    (by rw [List.take_append_drop]; exact hat.handler) (Nat.le_of_eq hin)
  refine ⟨_, hfed, _, _, _, rfl, ?_, hin, rfl, ?_, ?_⟩
  · exact List.ne_nil_of_length_pos (by rw [List.length_drop]; omega)
  · exact List.ne_nil_of_length_pos (by rw [List.length_drop]; omega)
  · exact (held_self (c := c) rfl).trans hout

/--
The handler and its child never wait for each other exactly when, at the first
output the child's pipe cannot take, its input pipe can take what is unread.
-/
theorem never_deadlocked_iff {σ β : Type} (child : Child σ β)
    (payload : List β) (stdinSize : Nat) (sizes : Stream → Nat)
    (stream : Stream) :
    (∀ c : Exec σ β stdinSize sizes,
        (system child payload).Reach System.Free c →
          ¬ Deadlocked stream c) ↔
      child.Roomy stdinSize sizes stream payload := by
  constructor
  · intro h consumed hpre hover
    by_contra hlong
    obtain ⟨c, hreach, hdead⟩ :=
      reach_deadlocked hpre hover (Nat.lt_of_not_le hlong)
    exact h c hreach hdead
  · intro hroomy c hreach hdead
    obtain ⟨consumed, hpre, hover, hlong⟩ :=
      overfills_of_deadlocked (tracked_of_reach hreach) hdead
    exact absurd (hroomy consumed hpre hover) (Nat.not_le.mpr hlong)

end Exec

/-! ## A child that echoes its input -/

inductive EchoState (β : Type) where
  | reading
  | echoing (chunk : List β)
  | finished

def EchoState.Balanced {β : Type} (written read : Nat) : EchoState β → Prop
  | .reading => written = read
  | .echoing chunk => written + chunk.length = read
  | .finished => True

/-- It reads at most so much at once, and writes it before it reads on. -/
def echo (β : Type) (limit : Nat) : Child (EchoState β) β where
  start := .reading
  next
    | .reading => .read limit fun chunk =>
        match chunk with
        | [] => .finished
        | _ => .echoing chunk
    | .echoing chunk => .write .out chunk .reading
    | .finished => .exit

namespace Child

variable {β : Type} {limit stdinSize : Nat} {sizes : Stream → Nat}
  {payload consumed : List β} {written : Stream → Nat} {state : EchoState β}

theorem Gets.echo_written
    (h : (echo β limit).Gets stdinSize consumed written state) :
    state.Balanced (written .out) consumed.length := by
  induction h with
  | start => rfl
  | @read consumed chunk written limit' state resume _ hnext hchunk _ _ ih =>
      cases state <;> cases hnext
      cases chunk with
      | nil => contradiction
      | cons byte more =>
          simp only [EchoState.Balanced] at ih
          simp [EchoState.Balanced, ih]
  | @write consumed output written stream state resume _ hnext ih =>
      cases state <;> cases hnext
      exact grow_self.trans ih

theorem Gets.echo_byte
    (h : (echo β limit).Gets stdinSize consumed written .reading)
    (hlimit : 0 < limit) (hsize : 0 < stdinSize) (byte : β) :
    (echo β limit).Gets stdinSize (consumed ++ [byte]) written
      (.echoing [byte]) := by
  have hread := Gets.read h rfl (List.cons_ne_nil byte []) hlimit hsize
  exact hread

theorem Gets.echo_reading (hlimit : 0 < limit) (hsize : 0 < stdinSize)
    (consumed : List β) :
    (echo β limit).Gets stdinSize consumed
      (grow (fun _ => 0) .out consumed.length) .reading := by
  induction consumed using List.reverseRecOn with
  | nil =>
      have hstart : (echo β limit).Gets stdinSize [] (fun _ => 0) .reading :=
        .start
      simpa [grow] using hstart
  | append_singleton consumed byte ih =>
      have hwrite := Gets.write (ih.echo_byte hlimit hsize byte) rfl
      simpa [grow] using hwrite

theorem Gets.echo_overfills (hlimit : 0 < limit) (hsize : 0 < stdinSize)
    (hlength : consumed.length = sizes .out + 1) :
    (echo β limit).Overfills stdinSize sizes .out consumed := by
  induction consumed using List.reverseRecOn with
  | nil => contradiction
  | append_singleton consumed byte _ =>
      rw [List.length_append, List.length_singleton] at hlength
      have hread :=
        (Gets.echo_reading hlimit hsize consumed).echo_byte hlimit hsize byte
      refine ⟨_, _, [byte], _, hread, rfl, fun s => ?_, ?_⟩
      · cases s with
        | out => rw [grow_self]; omega
        | err => rw [grow_of_ne (by decide)]; exact Nat.zero_le _
      · rw [grow_self, List.length_singleton]
        omega

/-- The longest payload an echoing child takes: two full pipes and one byte. -/
theorem echo_roomy_iff (hlimit : 0 < limit) (hsize : 0 < stdinSize) :
    (echo β limit).Roomy stdinSize sizes .out payload ↔
      payload.length ≤ sizes .out + 1 + stdinSize := by
  constructor
  · intro hroomy
    by_contra hlong
    have hlength : (payload.take (sizes .out + 1)).length = sizes .out + 1 :=
      List.length_take_of_le (by omega)
    have hbound := hroomy _ (List.take_prefix _ _)
      (Gets.echo_overfills hlimit hsize hlength)
    omega
  · rintro hbound consumed - ⟨written, state, output, _, hgets, hnext, _, hover⟩
    have hwritten := hgets.echo_written
    cases state <;> cases hnext
    simp only [EchoState.Balanced] at hwritten
    omega

end Child

def longText : List UInt8 := 34 :: (List.replicate 1048574 97 ++ [34])

theorem longText_length : longText.length = 1048576 := by
  rw [longText, List.length_cons, List.length_append, List.length_replicate,
    List.length_singleton]

/-- A text of that length through pipes of 64 KiB, and a child that copies it. -/
theorem Exec.echo_deadlocks :
    ∃ c : Exec (EchoState UInt8) UInt8 65536 fun _ => 65536,
      (Exec.system (echo UInt8 131072) longText).Reach System.Free c ∧
        Exec.Deadlocked .out c := by
  have hlong : ¬ (echo UInt8 131072).Roomy 65536 (fun _ => 65536) .out
      longText := by
    rw [Child.echo_roomy_iff (by decide) (by decide), longText_length]
    decide
  simp only [Child.Roomy, not_forall, Nat.not_le] at hlong
  obtain ⟨consumed, hpre, hover, hlong⟩ := hlong
  exact Exec.reach_deadlocked hpre hover hlong

end NostrQ.Worker
