import Videre.Sdk.Run

/-! # Operation rules

One rule an operation: what its program may leave behind, read off the machine
once. The proofs about a run use these rules and never the machine.
-/

namespace Videre.Sdk

open Interaction

variable {S : Type} [KeeperStores S] {R : Rely Op (World S) (Input (KeeperStores.Edit S))}
  {G : World S → World S → Prop} {w : World S}

theorem keeps_read {q : Query} {Q : Except Fault q.Ans → World S → Prop} (stutter : G w w)
    (ok : R (.read q) .ok w → Q (.ok (q.eval w.store)) w)
    (fault : ∀ f, R (.read q) (.fault f) w → Q (.error f) w) :
    Keeps (machine S) R G Q (Program.perform (Op.read q)) w := by
  intro i a w' rely moves
  cases i <;> simp only [machine, stepOp, reduceCtorEq, Option.some.injEq, Prod.mk.injEq] at moves
  case ok =>
    obtain ⟨rfl, rfl⟩ := moves
    exact ⟨stutter, ok rely⟩
  case fault f =>
    obtain ⟨rfl, rfl⟩ := moves
    exact ⟨stutter, fault f rely⟩

theorem keeps_write {venue : VenueId} {jw : JournalWrite}
    {Q : Except Fault Unit → World S → Prop} (stutter : G w w)
    (ok : R (.write venue jw) .ok w → G w (w.write venue jw) ∧ Q (.ok ()) (w.write venue jw))
    (fault : ∀ f, R (.write venue jw) (.fault f) w → Q (.error f) w) :
    Keeps (machine S) R G Q (KeeperM.write venue jw).run w := by
  intro i a w' rely moves
  cases i <;> simp only [machine, stepOp, reduceCtorEq, Option.some.injEq, Prod.mk.injEq] at moves
  case ok =>
    obtain ⟨rfl, rfl⟩ := moves
    exact ok rely
  case fault f =>
    obtain ⟨rfl, rfl⟩ := moves
    exact ⟨stutter, fault f rely⟩

theorem keeps_retrier {call : RetrierCall} {Q : Except Fault Unit → World S → Prop}
    (ok : R (.retrier call) .ok w →
      G w { w with store := call.perform w.store } ∧
        Q (.ok ()) { w with store := call.perform w.store })
    (torn : ∀ f landed, R (.retrier call) (.torn f landed) w →
      G w (w.edited landed) ∧ Q (.error f) (w.edited landed)) :
    Keeps (machine S) R G Q (Program.perform (Op.retrier call)) w := by
  intro i a w' rely moves
  cases i <;> simp only [machine, stepOp, reduceCtorEq, Option.some.injEq, Prod.mk.injEq] at moves
  case ok =>
    obtain ⟨rfl, rfl⟩ := moves
    exact ok rely
  case torn f landed =>
    obtain ⟨rfl, rfl⟩ := moves
    exact torn f landed rely

theorem keeps_poll {c : CommitmentRef} {params : Bytes} {tick : Tick}
    {Q : Except Fault Outcome → World S → Prop}
    (polled : ∀ outcome edits, R (.poll c params tick) (.polled outcome edits) w →
      G w ((w.edited edits).record (.polled c outcome)) ∧
        Q (.ok outcome) ((w.edited edits).record (.polled c outcome))) :
    Keeps (machine S) R G Q (KeeperM.poll c params tick).run w := by
  apply Keeps.lift
  intro i a w' rely moves
  cases i <;> simp only [machine, stepOp, reduceCtorEq, Option.some.injEq, Prod.mk.injEq] at moves
  case polled outcome edits =>
    obtain ⟨rfl, rfl⟩ := moves
    exact polled outcome edits rely

theorem keeps_submit {pass : Pass} {venue : VenueId} {key : String} {body : Bytes}
    {Q : Except Fault SubmitResult → World S → Prop}
    (posted : ∀ placed, R (.post pass venue key body) (.sent placed) w →
      G w (w.record (.posted pass venue key body placed)))
    (answered : ∀ placed result, R (.post pass venue key body) (.sent placed) w →
      R (.reply pass venue key body) (.answered result)
        (w.record (.posted pass venue key body placed)) →
      G (w.record (.posted pass venue key body placed))
          ((w.record (.posted pass venue key body placed)).record
            (.answered pass venue key body result)) ∧
        Q (.ok result) ((w.record (.posted pass venue key body placed)).record
          (.answered pass venue key body result))) :
    Keeps (machine S) R G Q (KeeperM.submit pass venue key body).run w := by
  apply Keeps.lift
  intro i a w' rely moves
  cases i <;> simp only [machine, stepOp, reduceCtorEq, Option.some.injEq, Prod.mk.injEq] at moves
  case sent placed =>
    obtain ⟨-, rfl⟩ := moves
    refine ⟨posted placed rely, ?_⟩
    intro i a w' rely' moves
    cases i <;>
      simp only [machine, stepOp, reduceCtorEq, Option.some.injEq, Prod.mk.injEq] at moves
    case answered result =>
      obtain ⟨rfl, rfl⟩ := moves
      exact answered placed result rely rely'

end Videre.Sdk
