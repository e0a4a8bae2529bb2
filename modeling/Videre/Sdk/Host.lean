import Videre.Sdk.Refinement

/-! # A host over its lifetime

One local store, and one keeper call at a time over it: a sweep or a bare
reconcile pass, of any keeper and at any tick. A call may be stopped at every
operation, which is a crash, and the store may be edited outside the journal
between calls. What holds of every reachable host is what the start satisfies
and each protocol path keeps.
-/

namespace Videre.Sdk

open Interaction Relation

/-- A call of the keeper's code. A bare reconcile pass takes its arguments off a keeper. -/
inductive Call
  | run (keeper : Keeper) (tick : Tick)
  | reconcile (keeper : Keeper) (tick : Tick)

namespace Call

def keeper : Call → Keeper
  | .run keeper _ | .reconcile keeper _ => keeper

def tick : Call → Tick
  | .run _ tick | .reconcile _ tick => tick

@[reducible] def Report : Call → Type
  | .run _ _ => RunReport
  | .reconcile _ _ => ReconcileReport

def program [NexumSdk] : (c : Call) → KeeperM c.Report
  | .run keeper tick => keeper.run tick
  | .reconcile keeper tick =>
      Sdk.reconcile keeper.venue tick keeper.maxPerTick keeper.faultPolicy

end Call

structure Activity where
  call : Call
  rest : Program Op Op.Ans (Except Fault call.Report)

structure Host (S : Type) where
  world : World S
  active : Option Activity

variable {S : Type}

def Host.idle (w : World S) : Host S :=
  ⟨w, none⟩

variable [KeeperStores S] [NexumSdk]

/-- One move of a host whose environment keeps to `R` and whose calls start where `G` allows. -/
inductive Host.Move (R : Rely Op (World S) (Input (KeeperStores.Edit S)))
    (G : Call → World S → Prop) : Host S → Host S → Prop
  | start {w : World S} {c : Call} (allowed : G c w) :
      Move R G ⟨w, none⟩ ⟨w, some ⟨c, c.program.run⟩⟩
  | operate {w w' : World S} {c : Call} {o : Op} {i : Input (KeeperStores.Edit S)} {a : o.Ans}
      {rest : o.Ans → Program Op Op.Ans (Except Fault c.Report)} (rely : R o i w)
      (moves : (machine S).step o i w = some (a, w')) :
      Move R G ⟨w, some ⟨c, .call o rest⟩⟩ ⟨w', some ⟨c, rest a⟩⟩
  | stop {w : World S} {active : Option Activity} : Move R G ⟨w, active⟩ ⟨w, none⟩
  | edit {w : World S} (edits : List (KeeperStores.Edit S)) :
      Move R G ⟨w, none⟩ ⟨w.edited edits, none⟩

abbrev Reaches (R : Rely Op (World S) (Input (KeeperStores.Edit S)))
    (G : Call → World S → Prop) : Host S → Host S → Prop :=
  ReflTransGen (Host.Move R G)

variable {R : Rely Op (World S) (Input (KeeperStores.Edit S))} {G : Call → World S → Prop}

/-- A call's run, as moves of its host. -/
theorem Reaches.of_exec {c : Call} {p q : Program Op Op.Ans (Except Fault c.Report)}
    {w w' : World S} (run : Exec (machine S) R p w q w') :
    Reaches R G ⟨w, some ⟨c, p⟩⟩ ⟨w', some ⟨c, q⟩⟩ := by
  induction run with
  | refl => exact .refl
  | step rely moves _ ih => exact .head (.operate rely moves) ih

/-- Run calls one after the other, each on its inputs and torn after the last of them. -/
def lifetime (R : Rely Op (World S) (Input (KeeperStores.Edit S))) (G : Call → World S → Prop)
    [∀ o i w, Decidable (R o i w)] [∀ c w, Decidable (G c w)] :
    List (Call × List (Input (KeeperStores.Edit S))) → World S → Option (World S)
  | [], w => some w
  | (c, inputs) :: later, w =>
      if G c w then
        match exec (machine S) R c.program.run inputs w with
        | none => none
        | some (_, w') => lifetime R G later w'
      else none

theorem Reaches.of_lifetime {G' : Call → World S → Prop} [∀ o i w, Decidable (R o i w)]
    [∀ c w, Decidable (G' c w)] {calls : List (Call × List (Input (KeeperStores.Edit S)))}
    {w w' : World S} (allow : ∀ p ∈ calls, ∀ v, G' p.1 v → G p.1 v)
    (lived : lifetime R G' calls w = some w') :
    Reaches R G (Host.idle w) (Host.idle w') := by
  induction calls generalizing w with
  | nil =>
      simp only [lifetime, Option.some.injEq] at lived
      rw [lived]
  | cons first later ih =>
      obtain ⟨c, inputs⟩ := first
      simp only [lifetime] at lived
      split at lived
      next allowed =>
        cases ran : exec (machine S) R c.program.run inputs w with
        | none => simp [ran] at lived
        | some out =>
            obtain ⟨rest, w₁⟩ := out
            rw [ran] at lived
            have start : Reaches R G (Host.idle w) ⟨w, some ⟨c, c.program.run⟩⟩ :=
              .single (.start (allow _ List.mem_cons_self w allowed))
            have torn : Reaches R G (Host.idle w) (Host.idle w₁) :=
              (start.trans (Reaches.of_exec (exec_sound ran))).tail .stop
            exact torn.trans (ih (fun p hp => allow p (List.mem_cons_of_mem _ hp)) lived)
      next => simp at lived

/-- The world calls leave, when their inputs fit. -/
def lived (R : Rely Op (World S) (Input (KeeperStores.Edit S))) (G : Call → World S → Prop)
    [∀ o i w, Decidable (R o i w)] [∀ c w, Decidable (G c w)]
    (calls : List (Call × List (Input (KeeperStores.Edit S)))) (w : World S) : World S :=
  (lifetime R G calls w).getD w

theorem Reaches.lived {G' : Call → World S → Prop} [∀ o i w, Decidable (R o i w)]
    [∀ c w, Decidable (G' c w)] {calls : List (Call × List (Input (KeeperStores.Edit S)))}
    {w : World S} (allow : ∀ p ∈ calls, ∀ v, G' p.1 v → G p.1 v)
    (fits : (lifetime R G' calls w).isSome = true) :
    Reaches R G (Host.idle w) (Host.idle (Sdk.lived R G' calls w)) := by
  obtain ⟨w', lived⟩ := Option.isSome_iff_exists.mp fits
  have same : Sdk.lived R G' calls w = w' := by rw [Sdk.lived, lived, Option.getD_some]
  rw [same]
  exact .of_lifetime allow lived

theorem call_keeps {c : Call} {w₀ : World S} :
    Keeps (machine S) R (Step R c.keeper c.tick w₀) (fun _ _ => True) c.program.run w₀ := by
  cases c with
  | run keeper tick => exact run_keeps.mono fun _ _ _ _ => trivial
  | reconcile keeper tick => exact reconcile_keeps.mono fun _ _ _ _ => trivial

/-- The call in progress has come here along the protocol, and what is left of it keeps to
the protocol. -/
def Host.Sound (R : Rely Op (World S) (Input (KeeperStores.Edit S)))
    (G : Call → World S → Prop) (h : Host S) : Prop :=
  ∀ activity, h.active = some activity → ∃ w₀, G activity.call w₀ ∧
    Path R activity.call.keeper activity.call.tick w₀ h.world ∧
    Keeps (machine S) R (Step R activity.call.keeper activity.call.tick w₀) (fun _ _ => True)
      activity.rest h.world

theorem Host.idle_sound (w : World S) : (Host.idle w).Sound R G := by
  intro activity active
  simp [Host.idle] at active

theorem Host.Move.sound {s t : Host S} (move : Host.Move R G s t) (sound : s.Sound R G) :
    t.Sound R G := by
  intro activity active
  cases move with
  | @start v c allowed =>
      cases active
      exact ⟨v, allowed, .refl, call_keeps⟩
  | operate rely moves =>
      cases active
      obtain ⟨w₀, allowed, path, keeps⟩ := sound _ rfl
      obtain ⟨step, later⟩ := keeps _ _ _ rely moves
      exact ⟨w₀, allowed, path.tail step, later⟩
  | stop => simp at active
  | edit edits => simp at active

theorem Reaches.sound {s t : Host S} (reach : Reaches R G s t) (sound : s.Sound R G) :
    t.Sound R G := by
  induction reach with
  | refl => exact sound
  | tail _ move ih => exact move.sound ih

/-- A move changes the world by an edit outside the journal or by a step of the protocol
of the call in progress. -/
theorem Host.Move.world {s t : Host S} (move : Host.Move R G s t) (sound : s.Sound R G) :
    (∃ edits, t.world = s.world.edited edits) ∨
      ∃ activity w₀, s.active = some activity ∧ G activity.call w₀ ∧
        Path R activity.call.keeper activity.call.tick w₀ s.world ∧
        Step R activity.call.keeper activity.call.tick w₀ s.world t.world := by
  cases move with
  | start allowed => exact .inl ⟨[], rfl⟩
  | operate rely moves =>
      obtain ⟨w₀, allowed, path, keeps⟩ := sound _ rfl
      exact .inr ⟨_, w₀, rfl, allowed, path, (keeps _ _ _ rely moves).1⟩
  | stop => exact .inl ⟨[], rfl⟩
  | edit edits => exact .inl ⟨edits, rfl⟩

/-- The induction of a host's lifetime: what every edit outside the journal and every
protocol step of a call keeps, a host keeps. -/
theorem Reaches.invariant {I : World S → Prop} {s t : Host S} (reach : Reaches R G s t)
    (sound : s.Sound R G) (init : I s.world)
    (edit : ∀ v edits, I v → I (v.edited edits))
    (step : ∀ c w₀ v v', G c w₀ → Path R c.keeper c.tick w₀ v →
      Step R c.keeper c.tick w₀ v v' → I v → I v') :
    I t.world := by
  induction reach with
  | refl => exact init
  | tail reach move ih =>
      rcases move.world (Reaches.sound reach sound) with
        ⟨edits, same⟩ | ⟨activity, w₀, _, allowed, path, moved⟩
      · rw [same]
        exact edit _ edits ih
      · exact step _ w₀ _ _ allowed path moved ih

theorem Host.Move.allow {G' : Call → World S → Prop} {s t : Host S} (move : Host.Move R G s t)
    (allow : ∀ c, G c s.world → G' c s.world) : Host.Move R G' s t := by
  cases move with
  | start allowed => exact .start (allow _ allowed)
  | operate rely moves => exact .operate rely moves
  | stop => exact .stop
  | edit edits => exact .edit edits

/-- The same induction call by call: what every edit outside the journal and every run of a
call, torn or not, keeps, a host that starts idle keeps. -/
theorem Reaches.by_calls {I : World S → Prop} {w : World S} {h : Host S}
    (reach : Reaches R G (Host.idle w) h) (init : I w)
    (edit : ∀ v edits, I v → I (v.edited edits))
    (call : ∀ c w₀ v, G c w₀ → I w₀ → Path R c.keeper c.tick w₀ v → I v) : I h.world := by
  have kept : I h.world ∧ h.Sound R (fun c v => G c v ∧ I v) := by
    induction reach with
    | refl => exact ⟨init, Host.idle_sound w⟩
    | tail _ move ih =>
        obtain ⟨now, sound⟩ := ih
        have move' : Host.Move R (fun c v => G c v ∧ I v) _ _ :=
          move.allow fun c allowed => ⟨allowed, now⟩
        refine ⟨?_, move'.sound sound⟩
        rcases move'.world sound with
          ⟨edits, same⟩ | ⟨activity, w₀, _, ⟨allowed, before⟩, path, step⟩
        · rw [same]
          exact edit _ edits now
        · exact call _ w₀ _ allowed before (path.tail step)
  exact kept.1

end Videre.Sdk
