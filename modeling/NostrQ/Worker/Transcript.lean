import Mathlib.Data.List.Infix
import NostrQ.Worker.Exec

/-!
# What the exec handler collects

A child runs alone when it is given its input as it asks for it and its outputs
take all that it writes.  The pipes of the exec handler are not seen in what it
collects: it is what the child writes in such a run.
-/

namespace NostrQ.Worker

open NostrQ.Foundation

/-! ## A child alone -/

def put {β : Type} (written : Stream → List β) (stream : Stream)
    (output : List β) : Stream → List β :=
  Function.update written stream (written stream ++ output)

/--
The child comes to this state when it has been given these bytes, and the end of
its input if `ended`, and has written these.
-/
inductive Child.Runs {σ β : Type} (child : Child σ β) :
    List β → Bool → (Stream → List β) → σ → Prop where
  | start : Runs child [] false (fun _ => []) child.start
  | read {consumed chunk : List β} {written : Stream → List β} {limit : Nat}
      {state : σ} {resume : List β → σ} :
      Runs child consumed false written state →
      child.next state = .read limit resume → chunk ≠ [] →
      chunk.length ≤ limit →
      Runs child (consumed ++ chunk) false written (resume chunk)
  | endOfInput {consumed : List β} {ended : Bool} {written : Stream → List β}
      {limit : Nat} {state : σ} {resume : List β → σ} :
      Runs child consumed ended written state →
      child.next state = .read limit resume →
      Runs child consumed true written (resume [])
  | write {consumed output : List β} {ended : Bool}
      {written : Stream → List β} {stream : Stream} {state resume : σ} :
      Runs child consumed ended written state →
      child.next state = .write stream output resume →
      Runs child consumed ended (put written stream output) resume

/-- Where such a run is, given what of a write has got through. -/
inductive Child.Speaks {σ β : Type} (child : Child σ β) (consumed : List β)
    (ended : Bool) : (Stream → List β) → ChildPhase σ β → Prop where
  | running {written : Stream → List β} {state : σ} :
      child.Runs consumed ended written state →
      Speaks child consumed ended written (.running state)
  | writing {written : Stream → List β} {stream : Stream}
      {said left : List β} {state resume : σ} :
      child.Runs consumed ended written state →
      child.next state = .write stream (said ++ left) resume →
      Speaks child consumed ended (put written stream said)
        (.writing stream left resume)
  | exited {written : Stream → List β} {state : σ} :
      child.Runs consumed ended written state → child.next state = .exit →
      Speaks child consumed ended written .exited

section Put

variable {β : Type} {written : Stream → List β} {stream s : Stream}
  {output more : List β}

@[simp] theorem put_self : put written stream output stream =
    written stream ++ output :=
  Function.update_self ..

theorem put_of_ne (h : s ≠ stream) : put written stream output s = written s :=
  Function.update_of_ne h ..

@[simp] theorem put_nil : put written stream [] = written := by
  rw [put, List.append_nil]
  exact Function.update_eq_self stream written

@[simp] theorem put_put : put (put written stream output) stream more =
    put written stream (output ++ more) := by
  simp [put]

end Put

namespace Exec

variable {σ β : Type} {stdinSize : Nat} {sizes : Stream → Nat}
  {child : Child σ β} {payload : List β} {stream : Stream}
  {c c' : Exec σ β stdinSize sizes} {consumed rest : List β} {ended : Bool}
  {written : Stream → List β}

def collected (c : Exec σ β stdinSize sizes) : Stream → List β :=
  match c.handler with
  | .writing _ => fun _ => []
  | .draining output | .done output => output

theorem collected_writing {left : List β} (h : c.handler = .writing left) :
    c.collected = fun _ => [] := by
  rw [collected, h]

theorem collected_draining {output : Stream → List β}
    (h : c.handler = .draining output) : c.collected = output := by
  rw [collected, h]

def IsWriting (c : Exec σ β stdinSize sizes) : Prop :=
  ∃ rest, c.handler = .writing rest

/--
Nothing is lost between the handler and the child: `rest` is what the handler
still has to write, or has given up because the child has exited.
-/
structure Carries (child : Child σ β) (payload consumed rest : List β)
    (ended : Bool) (written : Stream → List β)
    (c : Exec σ β stdinSize sizes) : Prop where
  input : payload = consumed ++ (c.stdin.content ++ rest)
  output : ∀ s, c.collected s ++ (c.outputs s).content = written s
  speaks : child.Speaks consumed ended written c.child
  unwritten : ∀ left, c.handler = .writing left → left = rest
  closed : ¬ c.IsWriting → rest = [] ∨ c.child = .exited
  atEnd : ended = true → ¬ c.IsWriting ∧ c.stdin.content = [] ∧ rest = []
  done : ∀ output, c.handler = .done output →
    c.child = .exited ∧ ∀ s, (c.outputs s).content = []

theorem carries_spawn : Carries child payload [] payload false (fun _ => [])
    (spawn child payload : Exec σ β stdinSize sizes) where
  input := rfl
  output _ := rfl
  speaks := .running .start
  unwritten left hleft := by
    cases hleft
    rfl
  closed hclosed := absurd ⟨payload, rfl⟩ hclosed
  atEnd hended := by contradiction
  done output hdone := by contradiction

/-! ## The handler's steps -/

theorem Carries.not_ended
    (h : Carries child payload consumed rest ended written c)
    (hwriting : c.IsWriting) : ended = false := by
  cases ended with
  | false => rfl
  | true => exact absurd hwriting (h.atEnd rfl).1

theorem Carries.rest_eq_nil
    (h : Carries child payload consumed rest ended written c)
    (hrunning : c.child ≠ .exited) (hclosed : ¬ c.IsWriting) : rest = [] :=
  (h.closed hclosed).resolve_right hrunning

theorem Carries.not_done
    (h : Carries child payload consumed rest ended written c)
    (hrunning : c.child ≠ .exited) (output : Stream → List β) :
    c.handler ≠ .done output :=
  fun hdone => hrunning (h.done output hdone).1

theorem Carries.feed (h : Carries child payload consumed rest ended written c)
    {n : Nat} {left : List β} (hphase : c.handler = .writing left)
    (hstep : c.feed n left = some c') :
    Carries child payload consumed (rest.drop n) ended written c' := by
  obtain ⟨stdin, hpush, rfl⟩ := Option.map_eq_some_iff.mp hstep
  have hcontent := Pipe.push?_eq_some.mp hpush
  have hleft := h.unwritten left hphase
  subst hleft
  have hended := h.not_ended ⟨left, hphase⟩
  have hcollected := collected_writing hphase
  constructor
  · rw [h.input, hcontent, List.append_assoc, List.take_append_drop]
  · intro s
    rw [← h.output s, hcollected]
    rfl
  · exact h.speaks
  · intro left' hleft'
    cases hleft'
    rfl
  · intro hclosed
    exact absurd ⟨_, rfl⟩ hclosed
  · intro htrue
    rw [hended] at htrue
    contradiction
  · intro output hdone
    contradiction

theorem Carries.stop (h : Carries child payload consumed rest ended written c)
    {left : List β} (hphase : c.handler = .writing left)
    (hover : left = [] ∨ c.child = .exited) :
    Carries child payload consumed rest ended written
      { c with handler := .draining fun _ => [] } := by
  have hleft := h.unwritten left hphase
  subst hleft
  have hcollected := collected_writing hphase
  constructor
  · exact h.input
  · intro s
    rw [← h.output s, hcollected]
    rfl
  · exact h.speaks
  · intro left' hleft'
    contradiction
  · exact fun _ => hover
  · intro htrue
    exact absurd ⟨left, hphase⟩ (h.atEnd htrue).1
  · intro output hdone
    contradiction

theorem Carries.drain (h : Carries child payload consumed rest ended written c)
    {n : Nat} {output : Stream → List β} (hphase : c.handler = .draining output)
    (hstep : c.drain stream n output = some c') :
    Carries child payload consumed rest ended written c' := by
  obtain ⟨⟨chunk, pipe⟩, hpop, rfl⟩ := Option.map_eq_some_iff.mp hstep
  obtain ⟨hcontent, -⟩ := Pipe.pop?_eq_some.mp hpop
  have hopen : ¬ c.IsWriting := by
    rintro ⟨left, hleft⟩
    rw [hphase] at hleft
    contradiction
  have hcollected := collected_draining hphase
  constructor
  · exact h.input
  · intro s
    have hs := h.output s
    rw [hcollected] at hs
    by_cases heq : s = stream
    · subst heq
      rw [hcontent] at hs
      simp only [collected, Function.update_self, List.append_assoc]
      exact hs
    · simp only [collected, Function.update_of_ne heq]
      exact hs
  · exact h.speaks
  · intro left hleft
    contradiction
  · exact fun _ => h.closed hopen
  · intro htrue
    obtain ⟨-, hempty⟩ := h.atEnd htrue
    refine ⟨?_, hempty⟩
    rintro ⟨left, hleft⟩
    contradiction
  · intro output' hdone
    contradiction

theorem Carries.finish (h : Carries child payload consumed rest ended written c)
    {output : Stream → List β} (hphase : c.handler = .draining output)
    (hexited : c.child = .exited) (hdrained : c.drained = true) :
    Carries child payload consumed rest ended written
      { c with handler := .done output } := by
  have hcollected := collected_draining hphase
  unfold drained at hdrained
  simp only [Bool.and_eq_true, List.isEmpty_iff] at hdrained
  constructor
  · exact h.input
  · intro s
    rw [← h.output s, hcollected]
    rfl
  · exact h.speaks
  · intro left hleft
    contradiction
  · exact fun _ => Or.inr hexited
  · intro htrue
    obtain ⟨-, hempty⟩ := h.atEnd htrue
    refine ⟨?_, hempty⟩
    rintro ⟨left, hleft⟩
    contradiction
  · intro _ _
    refine ⟨hexited, fun s => ?_⟩
    cases s with
    | out => exact hdrained.1
    | err => exact hdrained.2

theorem Carries.handler
    (h : Carries child payload consumed rest ended written c)
    {action : HandlerAction}
    (hstep : c.handlerStep c.handler action = some c') :
    ∃ rest', Carries child payload consumed rest' ended written c' := by
  unfold handlerStep at hstep
  split at hstep
  · next left n hphase =>
      split at hstep
      · exact ⟨_, h.feed hphase hstep⟩
      · contradiction
  · next byte left hphase =>
      split at hstep
      · next hexited =>
          cases hstep
          exact ⟨rest, h.stop hphase (Or.inr hexited)⟩
      · contradiction
  · next hphase =>
      cases hstep
      exact ⟨rest, h.stop hphase (Or.inl rfl)⟩
  · next output stream n hphase =>
      split at hstep
      · exact ⟨rest, h.drain hphase hstep⟩
      · contradiction
  · next output hphase =>
      split at hstep
      · next hexited =>
          split at hstep
          · next hdrained =>
              cases hstep
              exact ⟨rest, h.finish hphase hexited hdrained⟩
          · contradiction
      · contradiction
  · contradiction

/-! ## The child's steps -/

theorem Carries.say (h : Carries child payload consumed rest ended written c)
    {phase : ChildPhase σ β} {written' : Stream → List β}
    (hrunning : c.child ≠ .exited) (hhandler : c'.handler = c.handler)
    (hstdin : c'.stdin = c.stdin) (hchild : c'.child = phase)
    (houtput : ∀ s, c.collected s ++ (c'.outputs s).content = written' s)
    (hspeaks : child.Speaks consumed ended written' phase) :
    Carries child payload consumed rest ended written' c' := by
  have hwriting : c'.IsWriting ↔ c.IsWriting := by
    unfold IsWriting
    rw [hhandler]
  constructor
  · rw [hstdin]
    exact h.input
  · intro s
    rw [← houtput s, collected, collected, hhandler]
  · rw [hchild]
    exact hspeaks
  · intro left hleft
    exact h.unwritten left (hhandler ▸ hleft)
  · intro hclosed
    exact Or.inl (h.rest_eq_nil hrunning (hwriting.not.mp hclosed))
  · intro htrue
    rw [hwriting, hstdin]
    exact h.atEnd htrue
  · intro output hdone
    exact absurd (hhandler ▸ hdone) (h.not_done hrunning output)

theorem Carries.read (h : Carries child payload consumed rest ended written c)
    {n limit : Nat} {state : σ} {resume : List β → σ}
    (hphase : c.child = .running state)
    (hruns : child.Runs consumed ended written state)
    (hnext : child.next state = .read limit resume) (hn : 0 < n)
    (hlimit : n ≤ limit) (hstep : c.read n resume = some c') :
    ∃ chunk, Carries child payload (consumed ++ chunk) rest ended written c' := by
  obtain ⟨⟨chunk, stdin⟩, hpop, rfl⟩ := Option.map_eq_some_iff.mp hstep
  obtain ⟨hcontent, hlength⟩ := Pipe.pop?_eq_some.mp hpop
  have hchunk : chunk ≠ [] := List.ne_nil_of_length_pos (by omega)
  have hended : ended = false := by
    cases ended with
    | false => rfl
    | true =>
        obtain ⟨-, hempty, -⟩ := h.atEnd rfl
        rw [hempty] at hcontent
        exact absurd (List.append_eq_nil_iff.mp hcontent.symm).1 hchunk
  subst hended
  have hrunning : c.child ≠ .exited := by simp [hphase]
  refine ⟨chunk, ?_⟩
  constructor
  · rw [h.input, hcontent]
    simp only [List.append_assoc]
  · exact h.output
  · exact .running (.read hruns hnext hchunk (by omega))
  · exact h.unwritten
  · exact fun hclosed => Or.inl (h.rest_eq_nil hrunning hclosed)
  · intro htrue
    contradiction
  · intro output hdone
    exact absurd hdone (h.not_done hrunning output)

theorem Carries.endOfInput
    (h : Carries child payload consumed rest ended written c) {limit : Nat}
    {state : σ} {resume : List β → σ} (hphase : c.child = .running state)
    (hruns : child.Runs consumed ended written state)
    (hnext : child.next state = .read limit resume) (hatEnd : c.atEnd = true) :
    Carries child payload consumed rest true written
      { c with child := .running (resume []) } := by
  have hend : ¬ c.IsWriting ∧ c.stdin.content = [] := by
    unfold Exec.atEnd at hatEnd
    split at hatEnd
    · contradiction
    · next hnot =>
        refine ⟨?_, List.isEmpty_iff.mp hatEnd⟩
        rintro ⟨left, hleft⟩
        exact hnot left hleft
  have hrunning : c.child ≠ .exited := by simp [hphase]
  have hrest : rest = [] := h.rest_eq_nil hrunning hend.1
  constructor
  · exact h.input
  · exact h.output
  · exact .running (.endOfInput hruns hnext)
  · exact h.unwritten
  · exact fun _ => Or.inl hrest
  · exact fun _ => ⟨hend.1, hend.2, hrest⟩
  · intro output hdone
    exact absurd hdone (h.not_done hrunning output)

theorem Carries.write (h : Carries child payload consumed rest ended written c)
    {n : Nat} {said left : List β} {before : Stream → List β} {state resume : σ}
    (hphase : c.child = .writing stream left resume)
    (hwritten : written = put before stream said)
    (hruns : child.Runs consumed ended before state)
    (hnext : child.next state = .write stream (said ++ left) resume)
    (hstep : c.write stream n left resume = some c') :
    Carries child payload consumed rest ended
      (put before stream (said ++ left.take n)) c' := by
  obtain ⟨pipe, hpush, rfl⟩ := Option.map_eq_some_iff.mp hstep
  have hcontent := Pipe.push?_eq_some.mp hpush
  refine h.say (by simp [hphase]) rfl rfl rfl (fun s => ?_)
    (.writing hruns ?_)
  · have hs := h.output s
    rw [hwritten] at hs
    by_cases heq : s = stream
    · subst heq
      rw [put_self] at hs
      simp only [Function.update_self, put_self]
      rw [hcontent, ← List.append_assoc, hs, List.append_assoc]
    · rw [put_of_ne heq] at hs
      simp only [put_of_ne heq, Function.update_of_ne heq]
      exact hs
  · rw [List.append_assoc, List.take_append_drop]
    exact hnext

theorem Carries.op (h : Carries child payload consumed rest ended written c)
    {action : ChildAction} {state : σ} (hphase : c.child = .running state)
    (hruns : child.Runs consumed ended written state)
    (hstep : c.opStep (child.next state) action = some c') :
    ∃ consumed' ended' written',
      Carries child payload consumed' rest ended' written' c' := by
  unfold opStep at hstep
  split at hstep
  · next limit resume n hnext =>
      split at hstep
      · next hn =>
          obtain ⟨chunk, hread⟩ :=
            h.read hphase hruns hnext hn.1 hn.2 hstep
          exact ⟨_, _, _, hread⟩
      · contradiction
  · next limit resume hnext =>
      split at hstep
      · next hatEnd =>
          cases hstep
          exact ⟨_, _, _, h.endOfInput hphase hruns hnext hatEnd⟩
      · contradiction
  · next stream output resume hnext =>
      cases hstep
      have hspeaks : child.Speaks consumed ended (put written stream [])
          (.writing stream output resume) := .writing hruns hnext
      rw [put_nil] at hspeaks
      exact ⟨_, _, _, h.say (by simp [hphase]) rfl rfl rfl h.output hspeaks⟩
  · next hnext =>
      cases hstep
      exact ⟨_, _, _, h.say (by simp [hphase]) rfl rfl rfl h.output
        (.exited hruns hnext)⟩
  · contradiction

theorem Carries.advance
    (h : Carries child payload consumed rest ended written c)
    {action : ChildAction} (hstep : childStep child c c.child action = some c') :
    ∃ consumed' ended' written',
      Carries child payload consumed' rest ended' written' c' := by
  have hspeaks := h.speaks
  generalize hphase : c.child = phase at hspeaks hstep
  cases hspeaks with
  | running hruns => exact h.op hphase hruns hstep
  | @writing before stream said left state resume hruns hnext =>
      unfold childStep at hstep
      split at hstep
      · contradiction
      · next hwriting =>
          cases hwriting
          split at hstep
          · exact ⟨_, _, _, h.write hphase rfl hruns hnext hstep⟩
          · contradiction
      · next hwriting =>
          cases hwriting
          cases hstep
          rw [List.append_nil] at hnext
          exact ⟨_, _, _, h.say (by simp [hphase]) rfl rfl rfl h.output
            (.running (.write hruns hnext))⟩
      · contradiction
  | exited hruns hnext => simp [childStep] at hstep

/-! ## Every run -/

theorem carries (h : (system child payload).Reach System.Free c) :
    ∃ consumed rest ended written,
      Carries child payload consumed rest ended written c := by
  apply h.invariant
  · rintro _ rfl
    exact ⟨_, _, _, _, carries_spawn⟩
  · rintro c action c' _ ⟨consumed, rest, ended, written, hcarries⟩ _ hstep
    cases action with
    | handler action =>
        obtain ⟨rest', hcarries'⟩ := hcarries.handler hstep
        exact ⟨_, _, _, _, hcarries'⟩
    | child action =>
        obtain ⟨consumed', ended', written', hcarries'⟩ := hcarries.advance hstep
        exact ⟨_, _, _, _, hcarries'⟩

/--
However large the pipes are and however the two are scheduled, the handler ends
with exactly what the child has written in a run alone, on the part of the
payload that it asked for: all of it, if it was told of the end of its input.
-/
theorem output_exact {output : Stream → List β}
    (h : (system child payload).Reach System.Free c)
    (hdone : c.handler = .done output) :
    ∃ consumed ended state, child.Runs consumed ended output state ∧
      child.next state = .exit ∧ consumed <+: payload ∧
      (ended = true → consumed = payload) := by
  obtain ⟨consumed, rest, ended, written, hcarries⟩ := carries h
  obtain ⟨hexited, hempty⟩ := hcarries.done output hdone
  have hwritten : written = output := by
    funext s
    rw [← hcarries.output s, hempty s, List.append_nil, collected, hdone]
  have hspeaks := hcarries.speaks
  rw [hexited, hwritten] at hspeaks
  cases hspeaks with
  | exited hruns hnext =>
      refine ⟨consumed, ended, _, hruns, hnext, ⟨_, hcarries.input.symm⟩, ?_⟩
      intro htrue
      obtain ⟨-, hstdin, hrest⟩ := hcarries.atEnd htrue
      simpa [hstdin, hrest] using hcarries.input.symm

/-! ## A payload that is echoed -/

def echoRun : List ExecAction :=
  [.handler (.feed 2), .child (.read 2), .child .beginWrite, .child (.write 2),
    .child .endWrite, .handler (.feed 1), .handler .close,
    .handler (.drain .out 2), .child (.read 1), .child .beginWrite,
    .child (.write 1), .child .endWrite, .child .endOfInput, .child .exit,
    .handler (.drain .out 1), .handler .finish]

def isDone (c : Exec σ β stdinSize sizes) : Bool :=
  match c.handler with
  | .done _ => true
  | _ => false

theorem output_exact_echo :
    ∃ (output : Stream → List Nat) (consumed : List Nat) (ended : Bool)
      (state : EchoState Nat), output .out = [1, 2, 3] ∧
      (echo Nat 2).Runs consumed ended output state ∧
      (echo Nat 2).next state = .exit ∧ consumed <+: [1, 2, 3] ∧
      (ended = true → consumed = [1, 2, 3]) := by
  obtain ⟨c, hreach, htest⟩ :=
    (System.Reach.init
      (S := (system (echo Nat 2) [1, 2, 3] :
        System (Exec (EchoState Nat) Nat 2 fun _ => 2) ExecAction))
      (P := System.Free) rfl).of_run_check echoRun
      (fun c => c.isDone && decide (c.collected .out = [1, 2, 3])) (by decide)
  rw [Bool.and_eq_true, decide_eq_true_eq] at htest
  obtain ⟨hdone, hcollected⟩ := htest
  unfold isDone at hdone
  split at hdone
  · next output hphase =>
      obtain ⟨consumed, ended, state, hexact⟩ := output_exact hreach hphase
      rw [collected, hphase] at hcollected
      exact ⟨output, consumed, ended, state, hcollected, hexact⟩
  · contradiction

end Exec

end NostrQ.Worker
