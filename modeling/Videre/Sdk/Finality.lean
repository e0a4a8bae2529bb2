import Videre.Sdk.Journal
import Videre.Sdk.MemStore

/-! # COMMITTED is final

Over any keepers, policies, budgets and answers, with a store that may fault at any
write and calls that may stop at any operation.
-/

namespace Videre.Sdk

open Interaction

section Finality

variable {S : Type} [KeeperStores S] [NexumSdk]
  {R : Rely Op (World S) (Input (KeeperStores.Edit S))} {G : Call → World S → Prop}

/-- A COMMITTED key keeps its marker, and nothing that concerns it is ever recorded. -/
theorem Reaches.spares {s t : Host S} {key : String} (reach : Reaches R G s t)
    (sound : s.Sound R G) (final : KeeperStores.marker s.world.store key = some .committed) :
    KeeperStores.marker t.world.store key = some .committed ∧
      ∃ es, t.world.log = s.world.log ++ es ∧ ∀ e ∈ es, e.key? ≠ some key := by
  refine reach.invariant (I := fun v => KeeperStores.marker v.store key = some .committed ∧
    ∃ es, v.log = s.world.log ++ es ∧ ∀ e ∈ es, e.key? ≠ some key) sound ?_ ?_ ?_
  · exact ⟨final, [], by simp⟩
  · intro v edits inv
    exact ⟨(v.edited_marker edits key).trans inv.1, inv.2⟩
  · intro c w₀ v v' _ path step inv
    obtain ⟨committed, es, log, spared⟩ := inv
    obtain ⟨new, appended, frame⟩ := step.effect
    obtain ⟨new', appended', spares⟩ := step.spares path committed
    have same : new' = new := List.append_cancel_left (appended'.symm.trans appended)
    rw [same] at spares
    refine ⟨(frame key spares).trans committed, es ++ new, ?_, ?_⟩
    · rw [appended, log, List.append_assoc]
    · intro e he
      rcases List.mem_append.mp he with old | fresh
      · exact spared e old
      · exact spares e fresh

theorem committed_final {w : World S} {s t : Host S} {key : String}
    (reach : Reaches R G (Host.idle w) s) (later : Reaches R G s t)
    (final : KeeperStores.marker s.world.store key = some .committed) :
    KeeperStores.marker t.world.store key = some .committed ∧
      ∀ pass venue body placed,
        .posted pass venue key body placed ∉ since s.world t.world := by
  have sound := reach.sound (Host.idle_sound w)
  obtain ⟨committed, es, log, spared⟩ := later.spares sound final
  refine ⟨committed, ?_⟩
  intro pass venue body placed posted
  rw [since_of_log log] at posted
  exact spared _ posted rfl

end Finality

open scoped MemStore

/-- A first sweep commits the order; a second one polls the commitment for it again. -/
theorem committed_final_stub :
    KeeperStores.marker (lived anyRely anyCall [(.run stubKeeper stubTick, duplicateSweep)]
        (lived anyRely anyCall [(.run stubKeeper stubTick, acceptedSweep)] stubWorld)).store
        (submissionKey stubKeeper.venue stubBody) = some .committed ∧
      ∀ pass venue body placed,
        .posted pass venue (submissionKey stubKeeper.venue stubBody) body placed ∉
          since (lived anyRely anyCall [(.run stubKeeper stubTick, acceptedSweep)] stubWorld)
            (lived anyRely anyCall [(.run stubKeeper stubTick, duplicateSweep)]
              (lived anyRely anyCall [(.run stubKeeper stubTick, acceptedSweep)] stubWorld)) :=
  committed_final (Reaches.lived (fun _ _ _ any => any) (by decide))
    (Reaches.lived (fun _ _ _ any => any) (by decide)) (by decide)

end Videre.Sdk
