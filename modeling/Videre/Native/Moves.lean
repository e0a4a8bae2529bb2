import Videre.Native.Platform

/-! # What a platform does in one step

Every step of a platform by what it logs, the law its log keeps, and what the log tells of
the adapters installed so far: each has a slot and a flag of its own, and beside the native
side nobody marks that flag.
-/

namespace Videre.Native

open Interaction Host

/-- Events that are neither an adapter's answer nor a mark on a flag. -/
def quiet : Event → Bool
  | .answered _ _ _ | .died _ | .revived _ => false
  | _ => true

theorem quiet_onWatch {e : Event} (watches : e.onWatch = true) : quiet e = true := by
  cases e <;> first | rfl | cases watches

/-! ## What one step does -/

structure Turned (P : Policy) (w : Platform) (label : Label Input HostEvent Call) (w' : Platform)
    (who : Option Nat) (events : List Event) : Prop where
  steps : (venueRegistry P).step w.pool label = some w'.pool
  log : w'.pool.log = w.pool.log ++ tagged who events
  grown : w' = { w with pool := w'.pool, log := w.log ++ (tagged who events).map .logged }

inductive Logs (w : Platform) : Label Input HostEvent Call → Option Nat → List Event → Prop
  | quiet {label : Label Input HostEvent Call} {who : Option Nat} {events : List Event}
      (silent : ∀ e ∈ events, quiet e = true)
      (actor : ∀ id, who = some id → label = .drop id ∨ ∃ input, label = .advance id input) :
      Logs w label who events
  | answered {id : Nat} {slot : Slot} {inv : Invocation} {reply : Reply}
      (stands : w.pool.standing id = some (.answer slot inv)) :
      Logs w (.advance id (.reply reply)) (some id) [.answered slot inv reply]
  | died (liveness : Liveness) : Logs w (.host (.markDead liveness)) none [.died liveness]
  | revived (liveness : Liveness) : Logs w (.host (.markAlive liveness)) none [.revived liveness]

inductive Moves (P : Policy) (w : Platform) : Platform → Prop
  | beside {label : Label Input HostEvent Call} {w' : Platform} {who : Option Nat}
      {events : List Event} (beside : w.beside label = true)
      (turned : Turned P w label w' who events) (logs : Logs w label who events) : Moves P w w'
  | newLiveness : Moves P w { w with flags := w.flags + 1 }
  | set (head : ChainHead) (response : String) :
      Moves P w ({ w with heads := Function.update w.heads head response }.see (.set head response))
  | registered {i : Installed} {w' : Platform} (slot : i.slot = w.pool.shared.slots)
      (liveness : i.liveness = w.flags)
      (turned : Turned P w (.host (.register i.venue i.liveness i.adapter.bodyVersions)) w' none
        [.registered i.venue i.slot i.liveness])
      (slots : w'.pool.shared.slots = w.pool.shared.slots + 1) :
      Moves P w ({ w' with
        flags := w.flags + 1
        installed := w.installed ++ [i] }.see (.installed i))
  | duplicate {venue : VenueId} {adapter : Adapter} {w' : Platform}
      (turned : Turned P w (.host (.register venue w.flags adapter.bodyVersions)) w' none
        [.duplicate venue]) :
      Moves P w { w' with flags := w.flags + 1 }
  | read {id : Nat} {i : Installed} {body : Bytes} {head : ChainHead}
      (awaits : w.awaiting id = some (i, .submit body)) (flaky : i.adapter = .flaky head)
      (fresh : w.submits id = none) :
      Moves P w ({ w with
        submits := Function.update w.submits id
          (some (.read (Flaky.isPoisoned (w.heads head)))) }.see
            (.read id i.slot (Flaky.isPoisoned (w.heads head))))
  | mark {id : Nat} {i : Installed} {inv : Invocation} {w' : Platform}
      (awaits : w.awaiting id = some (i, inv)) (stage : w.submits id = some (.read true))
      (turned : Turned P w (.host (.markDead i.liveness)) w' none [.died i.liveness]) :
      Moves P w { w' with submits := Function.update w.submits id (some .marked) }
  | answer {id : Nat} {i : Installed} {inv : Invocation} {reply : Reply} {w' : Platform}
      (awaits : w.awaiting id = some (i, inv))
      (replies : Platform.reply (w.submits id) i.adapter inv = some reply)
      (turned : Turned P w (.advance id (.reply reply)) w' (some id)
        [.answered i.slot inv reply]) :
      Moves P w { w' with submits := Function.update w.submits id none }
  | sweep {i : Installed} {head : ChainHead} (member : i ∈ w.installed)
      (flaky : i.adapter = .flaky head) :
      Moves P w ({ w with
        sweeps := if !Flaky.isPoisoned (w.heads head) then i.liveness :: w.sweeps
          else w.sweeps }.see (.swept i.liveness (!Flaky.isPoisoned (w.heads head))))
  | revive {liveness : Liveness} {w' : Platform} (due : liveness ∈ w.sweeps)
      (turned : Turned P w (.host (.markAlive liveness)) w' none [.revived liveness]) :
      Moves P w { w' with sweeps := w.sweeps.erase liveness }

section Turns

variable {P : Policy} {w w' : Platform} {label : Label Input HostEvent Call}

theorem turned_of_grow {pool : RegistryPool} {who : Option Nat} {events : List Event}
    (steps : (venueRegistry P).step w.pool label = some pool)
    (log : pool.log = w.pool.log ++ tagged who events) :
    Turned P w label (w.grow pool) who events := by
  constructor
  · exact steps
  · exact log
  · rw [Platform.grow, log, List.drop_left]

theorem act_logs {id : Nat} {o : Op} {input : Input} {r r' : Registry} {a : o.Ans}
    {events : List Event} (stands : w.pool.standing id = some o)
    (acts : act P id o input r = some (a, events, r')) :
    Logs w (.advance id input) (some id) events := by
  have actor : ∀ id', some id = some id' →
      (Label.advance id input : Label Input HostEvent Call) = .drop id' ∨
        ∃ input', (Label.advance id input : Label Input HostEvent Call) = .advance id' input' := by
    rintro _ ⟨⟩
    exact .inr ⟨input, rfl⟩
  cases o with
  | answer slot inv =>
      cases input with
      | reply reply =>
          simp only [act] at acts
          split at acts
          next =>
            cases acts
            exact .answered stands
          next => cases acts
      | elapsed nanos => simp [act] at acts
      | verdict verdict => simp [act] at acts
  | resolve venue =>
      obtain ⟨-, hevents, -⟩ := act_resolve acts
      exact .quiet (by simp [hevents, quiet]) actor
  | quotaAdmits caller =>
      obtain ⟨-, hevents, -⟩ := act_quotaAdmits acts
      exact .quiet (by simp [hevents, quiet]) actor
  | charge caller =>
      obtain ⟨_, _, hevents, -⟩ := act_charge acts
      exact .quiet (by simp [hevents, quiet]) actor
  | lock slot =>
      obtain ⟨-, hevents, -⟩ := act_lock acts
      exact .quiet (by simp [hevents, quiet]) actor
  | unlock slot =>
      obtain ⟨hevents, -⟩ := act_unlock acts
      exact .quiet (by simp [hevents, quiet]) actor
  | invoke slot inv =>
      obtain ⟨hevents, -⟩ := act_invoke acts
      exact .quiet (by simp [hevents, quiet]) actor
  | check ctx =>
      obtain ⟨hevents, -⟩ := act_check acts
      exact .quiet (by simp [hevents, quiet]) actor
  | watch venue receipt =>
      exact .quiet (fun e member => quiet_onWatch (act_watch_onWatch acts e member)) actor
  | snapshot =>
      exact .quiet (fun e member => quiet_onWatch (act_snapshot_onWatch acts e member)) actor
  | recordPolledStatus venue receipt status =>
      exact .quiet (fun e member => quiet_onWatch (act_recordPolledStatus_onWatch acts e member))
        actor

theorem host_logs (event : HostEvent) (r : Registry) :
    Logs w (.host event) none (host event r).1 := by
  have actor : ∀ id, (none : Option Nat) = some id →
      (Label.host event : Label Input HostEvent Call) = .drop id ∨
        ∃ input, (Label.host event : Label Input HostEvent Call) = .advance id input := by
    intro id none_
    cases none_
  cases event with
  | elapse nanos => exact .quiet (List.forall_mem_nil _) actor
  | markDead liveness => exact .died liveness
  | markAlive liveness => exact .revived liveness
  | register venue liveness bodyVersions =>
      cases registers : r.register venue liveness bodyVersions with
      | ok r' => exact .quiet (by simp [host, registers, quiet]) actor
      | error e => exact .quiet (by simp [host, registers, quiet]) actor

theorem turned_of_turn (turned : w.turn P label = some w') :
    ∃ who events, Turned P w label w' who events ∧ Logs w label who events := by
  obtain ⟨pool, steps, rfl⟩ := Option.map_eq_some_iff.mp turned
  obtain ⟨call, rfl, after⟩ | ⟨id, i, o, rest, a, events, r, rfl, thread, acts, after⟩ |
    ⟨id, o, rest, events, r, rfl, thread, gone, after⟩ | ⟨event, rfl, after⟩ :=
      (venueRegistry P).step_cases steps
  · refine ⟨none, [], turned_of_grow steps ?_, .quiet (List.forall_mem_nil _) ?_⟩
    · rw [after, tagged_nil, List.append_nil]
    · intro id none_
      cases none_
  · refine ⟨some id, events, turned_of_grow steps ?_, act_logs ?_ acts⟩
    · rw [after]
    · simp [Pool.standing, thread, Program.next?]
  · refine ⟨some id, events, turned_of_grow steps ?_, .quiet ?_ ?_⟩
    · rw [after]
    · rcases abandon_cases id gone with ⟨_, _, hevents, _⟩ | ⟨_, _, _, hevents, _⟩
      · rw [hevents]
        exact List.forall_mem_nil _
      · simp [hevents, quiet]
    · rintro _ ⟨⟩
      exact .inl rfl
  · refine ⟨none, (host event w.pool.shared).1, turned_of_grow steps ?_, host_logs _ _⟩
    rw [after]
    rfl

theorem turned_host {event : HostEvent} (turned : w.turn P (.host event) = some w') :
    Turned P w (.host event) w' none (host event w.pool.shared).1 ∧
      w'.pool.shared = (host event w.pool.shared).2 := by
  obtain ⟨pool, steps, rfl⟩ := Option.map_eq_some_iff.mp turned
  obtain ⟨_, hlabel, _⟩ | ⟨_, _, _, _, _, _, _, hlabel, _⟩ | ⟨_, _, _, _, _, hlabel, _⟩ |
    ⟨event', hlabel, after⟩ := (venueRegistry P).step_cases steps
  · cases hlabel
  · cases hlabel
  · cases hlabel
  · cases hlabel
    constructor
    · apply turned_of_grow steps
      rw [after]
      rfl
    · show pool.shared = _
      rw [after]
      rfl

theorem standing_of_awaiting {id : Nat} {i : Installed} {inv : Invocation}
    (awaits : w.awaiting id = some (i, inv)) :
    w.pool.standing id = some (.answer i.slot inv) ∧ i ∈ w.installed := by
  unfold Platform.awaiting at awaits
  split at awaits
  next slot inv' stands =>
    obtain ⟨j, found, same⟩ := Option.map_eq_some_iff.mp awaits
    cases same
    have here : i.slot = slot := by
      simpa using List.find?_some found
    rw [stands, here]
    exact ⟨rfl, List.mem_of_find?_eq_some found⟩
  next => cases awaits

theorem turned_answer {id : Nat} {slot : Slot} {inv : Invocation} {reply : Reply}
    (stands : w.pool.standing id = some (.answer slot inv))
    (turned : w.turn P (.advance id (.reply reply)) = some w') :
    Turned P w (.advance id (.reply reply)) w' (some id) [.answered slot inv reply] := by
  obtain ⟨pool, steps, rfl⟩ := Option.map_eq_some_iff.mp turned
  obtain ⟨rest, thread⟩ := Pool.of_standing stands
  apply turned_of_grow steps
  obtain ⟨_, hlabel, _⟩ | ⟨_, _, o, _, _, events, _, hlabel, thread', acts, after⟩ |
    ⟨_, _, _, _, _, hlabel, _⟩ | ⟨_, hlabel, _⟩ := (venueRegistry P).step_cases steps
  · cases hlabel
  · cases hlabel
    rw [thread] at thread'
    cases thread'
    have answers : act P id (.answer slot inv) (.reply reply) w.pool.shared = some (_, events, _) :=
      acts
    simp only [act] at answers
    split at answers
    next =>
      cases answers
      rw [after]
    next => cases answers
  · cases hlabel
  · cases hlabel

theorem step_moves {label : PlatformLabel} (moves : w.step P label = some w') : Moves P w w' := by
  cases label with
  | registry label =>
      simp only [Platform.step] at moves
      split at moves
      next beside =>
        obtain ⟨who, events, turned, logs⟩ := turned_of_turn moves
        exact .beside beside turned logs
      next => cases moves
  | newLiveness =>
      cases moves
      exact .newLiveness
  | set head response =>
      cases moves
      exact .set head response
  | register venue adapter =>
      have moves : w.register P venue adapter = some w' := moves
      unfold Platform.register at moves
      obtain ⟨w₁, turned, rfl⟩ := Option.map_eq_some_iff.mp moves
      obtain ⟨turned, shared⟩ := turned_host turned
      cases registers : w.pool.shared.register venue w.flags adapter.bodyVersions with
      | ok r =>
          have logs : (host (.register venue w.flags adapter.bodyVersions) w.pool.shared) =
              ([.registered venue w.pool.shared.slots w.flags], r) := by
            simp [host, registers]
          rw [logs] at turned shared
          apply Moves.registered rfl rfl turned
          rw [shared, register_frame registers]
      | error e =>
          have logs : (host (.register venue w.flags adapter.bodyVersions) w.pool.shared).1 =
              [.duplicate venue] := by
            simp [host, registers]
          rw [logs] at turned
          exact .duplicate turned
  | read id =>
      simp only [Platform.step] at moves
      split at moves
      next slot liveness venue head body awaits fresh =>
        cases moves
        exact .read awaits rfl fresh
      next => cases moves
  | mark id =>
      simp only [Platform.step] at moves
      split at moves
      next i inv awaits stage =>
        obtain ⟨w₁, turned, rfl⟩ := Option.map_eq_some_iff.mp moves
        exact .mark awaits stage (turned_host turned).1
      next => cases moves
  | answer id =>
      obtain ⟨⟨i, inv⟩, awaits, moves⟩ := Option.bind_eq_some_iff.mp moves
      obtain ⟨reply, replies, moves⟩ := Option.bind_eq_some_iff.mp moves
      obtain ⟨w₁, turned, rfl⟩ := Option.map_eq_some_iff.mp moves
      exact .answer awaits replies (turned_answer (standing_of_awaiting awaits).1 turned)
  | sweep liveness =>
      simp only [Platform.step] at moves
      split at moves
      next slot liveness' venue head found =>
        cases moves
        have same : liveness' = liveness := by
          simpa using List.find?_some found
        subst same
        exact .sweep (List.mem_of_find?_eq_some found) rfl
      next => cases moves
  | revive liveness =>
      simp only [Platform.step] at moves
      split at moves
      next due =>
        obtain ⟨w₁, turned, rfl⟩ := Option.map_eq_some_iff.mp moves
        exact .revive due (turned_host turned).1
      next => cases moves

end Turns

/-! ## The law of the log -/

def entries (log : List Happening) : List (Entry Event) :=
  log.filterMap Happening.entry?

def headAt (heads : ChainHead → String) (log : List Happening) (head : ChainHead) : String :=
  log.foldl
    (fun response happening =>
      match happening with
      | .set head' response' => if head' = head then response' else response
      | _ => response)
    (heads head)

def revivals (liveness : Liveness) (log : List Happening) : Nat :=
  log.countP fun h => h.entry?.any fun e => e.what = .revived liveness

/-- A method of `i` that call `id` awaits has come to `stage`, and the call waits since. -/
inductive Came (i : Installed) (id : Nat) (past : List Happening) : Option Stage → Prop
  | entered : Came i id past none
  | read (before after : List Happening) {poisoned : Bool}
      (split : past = before ++ .read id i.slot poisoned :: after)
      (waits : own id (entries after) = []) : Came i id past (some (.read poisoned))
  | marked (before mid after : List Happening)
      (split : past =
        before ++ .read id i.slot true :: (mid ++ .logged ⟨none, .died i.liveness⟩ :: after))
      (waits : own id (entries mid) = [] ∧ own id (entries after) = []) :
      Came i id past (some .marked)

def NativeLaw (heads : ChainHead → String) (past : List Happening) : Happening → Prop
  | .installed i =>
      ∀ e ∈ entries past, (∀ venue, e.what ≠ .resolved venue (.ok i.slot)) ∧
        e.what ≠ .died i.liveness ∧ e.what ≠ .revived i.liveness
  | .logged ⟨who, .answered slot inv reply⟩ =>
      ∀ i, .installed i ∈ past → i.slot = slot → ∃ id stage, who = some id ∧
        Came i id past stage ∧ Platform.reply stage i.adapter inv = some reply
  | .logged ⟨_, .died liveness⟩ =>
      ∀ i, .installed i ∈ past → i.liveness = liveness →
        ∃ id head, i.adapter = .flaky head ∧ Came i id past (some (.read true))
  | .logged ⟨_, .revived liveness⟩ =>
      ∀ i, .installed i ∈ past → i.liveness = liveness → (∃ head, i.adapter = .flaky head) ∧
        revivals liveness past < past.count (.swept liveness true)
  | .read _ slot poisoned =>
      ∃ i head, .installed i ∈ past ∧ i.slot = slot ∧ i.adapter = .flaky head ∧
        poisoned = Flaky.isPoisoned (headAt heads past head)
  | .swept liveness healthy =>
      ∃ i head, .installed i ∈ past ∧ i.liveness = liveness ∧ i.adapter = .flaky head ∧
        healthy = !Flaky.isPoisoned (headAt heads past head)
  | _ => True

section Logs

variable {i : Installed} {id : Nat} {past : List Happening} {stage : Option Stage}

@[simp] theorem entries_append (first second : List Happening) :
    entries (first ++ second) = entries first ++ entries second :=
  List.filterMap_append

@[simp] theorem entries_logged (events : List (Entry Event)) :
    entries (events.map .logged) = events := by
  induction events with
  | nil => rfl
  | cons e events ih =>
      show e :: entries (events.map .logged) = e :: events
      rw [ih]

theorem Came.append (came : Came i id past stage) {more : List Happening}
    (waits : own id (entries more) = []) : Came i id (past ++ more) stage := by
  cases came with
  | entered => exact .entered
  | read before after split rests =>
      apply Came.read before (after ++ more)
      · rw [split]
        simp
      · simp [rests, waits]
  | marked before mid after split rests =>
      apply Came.marked before mid (after ++ more)
      · rw [split]
        simp
      · simp [rests, waits]

theorem nativeLaw_quiet {heads : ChainHead → String} {e : Entry Event}
    (silent : quiet e.what = true) : NativeLaw heads past (.logged e) := by
  obtain ⟨who, what⟩ := e
  cases what <;> trivial

theorem extends_quiet {heads : ChainHead → String} {events : List (Entry Event)}
    (silent : ∀ e ∈ events, quiet e.what = true) :
    Extends (NativeLaw heads) past (events.map .logged) := by
  induction events generalizing past with
  | nil => trivial
  | cons e events ih =>
      constructor
      · exact nativeLaw_quiet (silent e List.mem_cons_self)
      · exact ih fun x member => silent x (List.mem_cons_of_mem _ member)

theorem headAt_logged (heads : ChainHead → String) (log : List Happening)
    (events : List (Entry Event)) (head : ChainHead) :
    headAt heads (log ++ events.map .logged) head = headAt heads log head := by
  unfold headAt
  rw [List.foldl_append]
  induction events with
  | nil => rfl
  | cons e events ih => exact ih

end Logs

/-! ## What every platform keeps -/

/-- The log tells what is installed, with slots and flags of their own. -/
structure Founded (P : Policy) (heads : ChainHead → String) (w : Platform) : Prop where
  reach : Reachable P w.pool
  entries : entries w.log = w.pool.log
  known : ∀ i, .installed i ∈ w.log ↔ i ∈ w.installed
  registered : ∀ i ∈ w.installed, ⟨none, .registered i.venue i.slot i.liveness⟩ ∈ w.pool.log
  slots : w.installed.Pairwise fun i j => i.slot ≠ j.slot
  flags : w.installed.Pairwise fun i j => i.liveness ≠ j.liveness
  bound : ∀ i ∈ w.installed, i.slot < w.pool.shared.slots ∧ i.liveness < w.flags
  marks : ∀ e ∈ w.pool.log, ∀ l, e.what = .died l ∨ e.what = .revived l → l < w.flags
  swept : ∀ l healthy, .swept l healthy ∈ w.log → l < w.flags
  reads : ∀ head, w.heads head = headAt heads w.log head

section Foundations

variable {P : Policy} {heads : ChainHead → String} {w w' : Platform}
  {label : Label Input HostEvent Call} {who : Option Nat} {events : List Event}

theorem founded_idle (start : Nat) : Founded P heads (Platform.idle start heads) := by
  constructor
  · exact ⟨start, .start⟩
  · rfl
  · intro i
    constructor <;> exact fun member => absurd member List.not_mem_nil
  · exact List.forall_mem_nil _
  · exact .nil
  · exact .nil
  · exact List.forall_mem_nil _
  · exact List.forall_mem_nil _
  · intro l healthy member
    exact absurd member List.not_mem_nil
  · intro head
    rfl

theorem Founded.same (founded : Founded P heads w) (pool : w'.pool = w.pool) (log : w'.log = w.log)
    (installed : w'.installed = w.installed) (reads : w'.heads = w.heads)
    (flags : w.flags ≤ w'.flags) : Founded P heads w' := by
  constructor
  · rw [pool]
    exact founded.reach
  · rw [pool, log]
    exact founded.entries
  · rw [log, installed]
    exact founded.known
  · rw [installed, pool]
    exact founded.registered
  · rw [installed]
    exact founded.slots
  · rw [installed]
    exact founded.flags
  · intro i member
    rw [installed] at member
    obtain ⟨slot, flag⟩ := founded.bound i member
    rw [pool]
    exact ⟨slot, Nat.lt_of_lt_of_le flag flags⟩
  · rw [pool]
    intro e member l marks
    exact Nat.lt_of_lt_of_le (founded.marks e member l marks) flags
  · rw [log]
    intro l healthy member
    exact Nat.lt_of_lt_of_le (founded.swept l healthy member) flags
  · rw [log, reads]
    exact founded.reads

theorem slots_step {p q : RegistryPool} (moves : (venueRegistry P).step p label = some q) :
    p.shared.slots ≤ q.shared.slots := by
  obtain ⟨call, rfl, rfl⟩ | ⟨id, i, o, rest, a, events, r, rfl, thread, acts, rfl⟩ |
    ⟨id, o, rest, events, r, rfl, thread, gone, rfl⟩ | ⟨event, rfl, rfl⟩ :=
      (venueRegistry P).step_cases moves
  · exact Nat.le_refl _
  · exact Nat.le_of_eq (act_routes acts).1.2.2.symm
  · rcases abandon_cases id gone with ⟨_, _, _, same⟩ | ⟨_, _, _, _, same⟩
    · rw [same]
    · rw [same]
  · show p.shared.slots ≤ (host event p.shared).2.slots
    cases event with
    | register venue liveness bodyVersions =>
        cases registers : p.shared.register venue liveness bodyVersions with
        | ok r =>
            simp only [host, registers]
            rw [register_frame registers]
            exact Nat.le_succ _
        | error e => simp [host, registers]
    | _ => exact Nat.le_refl _

theorem Turned.fields (turned : Turned P w label w' who events) :
    w'.flags = w.flags ∧ w'.heads = w.heads ∧ w'.installed = w.installed ∧
      w'.submits = w.submits ∧ w'.sweeps = w.sweeps ∧
      w'.log = w.log ++ (tagged who events).map .logged := by
  rw [turned.grown]
  exact ⟨rfl, rfl, rfl, rfl, rfl, rfl⟩

theorem Founded.turned (founded : Founded P heads w) (turned : Turned P w label w' who events)
    (marks : ∀ e ∈ events, ∀ l, e = .died l ∨ e = .revived l → l < w.flags) :
    Founded P heads w' := by
  obtain ⟨flags, reads, installed, -, -, log⟩ := turned.fields
  have kept : ∀ h, h ∈ w'.log ↔ h ∈ w.log ∨ ∃ e ∈ tagged who events, .logged e = h := by
    intro h
    rw [log, List.mem_append, List.mem_map]
  constructor
  · obtain ⟨start, reach⟩ := founded.reach
    exact ⟨start, reach.step turned.steps⟩
  · rw [log, turned.log, entries_append, entries_logged, founded.entries]
  · intro i
    rw [installed, ← founded.known, kept]
    constructor
    · rintro (old | ⟨e, -, same⟩)
      · exact old
      · cases same
    · exact .inl
  · intro i member
    rw [installed] at member
    rw [turned.log]
    exact List.mem_append_left _ (founded.registered i member)
  · rw [installed]
    exact founded.slots
  · rw [installed]
    exact founded.flags
  · intro i member
    rw [installed] at member
    obtain ⟨slot, flag⟩ := founded.bound i member
    rw [flags]
    exact ⟨Nat.lt_of_lt_of_le slot (slots_step turned.steps), flag⟩
  · intro e member l mark
    rw [flags]
    rw [turned.log] at member
    rcases List.mem_append.mp member with old | new
    · exact founded.marks e old l mark
    · exact marks e.what (mem_tagged.mp new).2 l mark
  · intro l healthy member
    rw [flags]
    rcases (kept _).mp member with old | ⟨e, -, same⟩
    · exact founded.swept l healthy old
    · cases same
  · intro head
    rw [reads, log, headAt_logged]
    exact founded.reads head

theorem headAt_see (heads : ChainHead → String) (log : List Happening) {h : Happening}
    (bare : ∀ head response, h ≠ .set head response) (head : ChainHead) :
    headAt heads (log ++ [h]) head = headAt heads log head := by
  unfold headAt
  rw [List.foldl_append]
  cases h with
  | set head response => exact absurd rfl (bare head response)
  | _ => rfl

theorem Founded.saw (founded : Founded P heads w) {h : Happening} (bare : h.entry? = none)
    (unknown : ∀ i, h ≠ .installed i) (swept : ∀ l healthy, h = .swept l healthy → l < w.flags)
    {now : ChainHead → String} (reads : ∀ head, now head = headAt heads (w.log ++ [h]) head)
    (submits : Nat → Option Stage) (sweeps : List Liveness) :
    Founded P heads
      ({ w with heads := now, submits := submits, sweeps := sweeps }.see h) where
  reach := founded.reach
  entries := by
    show Native.entries (w.log ++ [h]) = w.pool.log
    rw [entries_append, founded.entries]
    simp [Native.entries, bare]
  known i := by
    show _ ∈ w.log ++ [h] ↔ i ∈ w.installed
    rw [← founded.known, List.mem_append, List.mem_singleton]
    constructor
    · rintro (old | new)
      · exact old
      · exact absurd new.symm (unknown i)
    · exact .inl
  registered := founded.registered
  slots := founded.slots
  flags := founded.flags
  bound := founded.bound
  marks := founded.marks
  swept l healthy member := by
    have member : .swept l healthy ∈ w.log ++ [h] := member
    rcases List.mem_append.mp member with old | new
    · exact founded.swept l healthy old
    · exact swept l healthy (List.mem_singleton.mp new).symm
  reads := reads

theorem Founded.install (founded : Founded P heads w) {i : Installed}
    (slot : i.slot = w.pool.shared.slots) (liveness : i.liveness = w.flags)
    (turned : Turned P w label w' none [.registered i.venue i.slot i.liveness])
    (slots : w'.pool.shared.slots = w.pool.shared.slots + 1) :
    Founded P heads ({ w' with
      flags := w.flags + 1
      installed := w.installed ++ [i] }.see (.installed i)) := by
  have before := founded.turned turned (by simp)
  obtain ⟨flags, reads, installed, -, -, log⟩ := turned.fields
  constructor
  · exact before.reach
  · show Native.entries (w'.log ++ [.installed i]) = w'.pool.log
    rw [entries_append, before.entries]
    exact List.append_nil _
  · intro j
    show _ ∈ w'.log ++ [.installed i] ↔ j ∈ w.installed ++ [i]
    rw [List.mem_append, List.mem_append, before.known, installed]
    simp
  · intro j member
    have member : j ∈ w.installed ++ [i] := member
    show _ ∈ w'.pool.log
    rcases List.mem_append.mp member with old | new
    · rw [← installed] at old
      exact before.registered j old
    · rw [List.mem_singleton.mp new, turned.log]
      exact List.mem_append_right _ List.mem_cons_self
  · show (w.installed ++ [i]).Pairwise _
    rw [List.pairwise_append]
    refine ⟨founded.slots, List.pairwise_singleton _ _, ?_⟩
    intro j old k new
    rw [List.mem_singleton.mp new, slot]
    exact Nat.ne_of_lt (founded.bound j old).1
  · show (w.installed ++ [i]).Pairwise _
    rw [List.pairwise_append]
    refine ⟨founded.flags, List.pairwise_singleton _ _, ?_⟩
    intro j old k new
    rw [List.mem_singleton.mp new, liveness]
    exact Nat.ne_of_lt (founded.bound j old).2
  · intro j member
    show j.slot < w'.pool.shared.slots ∧ j.liveness < w.flags + 1
    have member : j ∈ w.installed ++ [i] := member
    rw [slots]
    rcases List.mem_append.mp member with old | new
    · obtain ⟨low, early⟩ := founded.bound j old
      exact ⟨Nat.lt_succ_of_lt low, Nat.lt_succ_of_lt early⟩
    · rw [List.mem_singleton.mp new, slot, liveness]
      exact ⟨Nat.lt_succ_self _, Nat.lt_succ_self _⟩
  · intro e member l marks
    show l < w.flags + 1
    have used := before.marks e member l marks
    rw [flags] at used
    exact Nat.lt_succ_of_lt used
  · intro l healthy member
    show l < w.flags + 1
    have member : .swept l healthy ∈ w'.log ++ [.installed i] := member
    rcases List.mem_append.mp member with old | new
    · have used := before.swept l healthy old
      rw [flags] at used
      exact Nat.lt_succ_of_lt used
    · cases List.mem_singleton.mp new
  · intro head
    show w'.heads head = headAt heads (w'.log ++ [.installed i]) head
    rw [headAt_see heads w'.log (by simp)]
    exact before.reads head

/-- A sweep about to revive is one of a flaky venue. -/
def Due (w : Platform) : Prop :=
  ∀ l ∈ w.sweeps, ∃ i ∈ w.installed, i.liveness = l ∧ ∃ head, i.adapter = .flaky head

theorem Due.same (due : Due w) (installed : ∀ i ∈ w.installed, i ∈ w'.installed)
    (sweeps : ∀ l ∈ w'.sweeps, l ∈ w.sweeps) : Due w' := by
  intro l pending
  obtain ⟨i, member, flag⟩ := due l (sweeps l pending)
  exact ⟨i, installed i member, flag⟩

theorem Due.turned (due : Due w) (turned : Turned P w label w' who events) : Due w' := by
  obtain ⟨-, -, installed, -, sweeps, -⟩ := turned.fields
  apply due.same
  · intro i member
    rw [installed]
    exact member
  · intro l pending
    rw [← sweeps]
    exact pending

theorem Due.moves (due : Due w) (moves : Moves P w w') : Due w' := by
  cases moves with
  | beside beside turned logs => exact due.turned turned
  | newLiveness => exact due
  | set head response => exact due
  | registered slot liveness turned slots =>
      apply (due.turned turned).same
      · intro i member
        rw [turned.fields.2.2.1] at member
        exact List.mem_append_left _ member
      · exact fun _ pending => pending
  | duplicate turned =>
      exact (due.turned turned).same (fun _ member => member) fun _ pending => pending
  | read awaits flaky fresh => exact due
  | mark awaits stage turned =>
      exact (due.turned turned).same (fun _ member => member) fun _ pending => pending
  | answer awaits replies turned =>
      exact (due.turned turned).same (fun _ member => member) fun _ pending => pending
  | @sweep i head member flaky =>
      intro l pending
      have pending : l ∈ if !Flaky.isPoisoned (w.heads head) then i.liveness :: w.sweeps
        else w.sweeps := pending
      split at pending
      next =>
        rcases List.mem_cons.mp pending with rfl | old
        · exact ⟨i, member, rfl, head, flaky⟩
        · exact due l old
      next => exact due l pending
  | revive pending turned =>
      apply due.same
      · intro i member
        show i ∈ _
        rw [turned.fields.2.2.1]
        exact member
      · intro l later
        exact List.mem_of_mem_erase later

/-- Marks beside the native adapters are on flags that are allocated and none of theirs. -/
theorem beside_marks (beside : w.beside label = true) (logs : Logs w label who events) {e : Event}
    (member : e ∈ events) {l : Liveness} (marks : e = .died l ∨ e = .revived l) :
    l < w.flags ∧ ∀ i ∈ w.installed, i.liveness ≠ l := by
  have held : ∀ l', (decide (l' < w.flags) && w.installed.all fun i => i.liveness != l') = true →
      l' < w.flags ∧ ∀ i ∈ w.installed, i.liveness ≠ l' := by
    intro l' free
    simpa using free
  cases logs with
  | quiet silent actor =>
      have silent := silent e member
      rcases marks with rfl | rfl <;> cases silent
  | answered stands =>
      rw [List.mem_singleton.mp member] at marks
      rcases marks with same | same <;> cases same
  | died liveness =>
      rw [List.mem_singleton.mp member] at marks
      rcases marks with same | same
      · cases same
        exact held l beside
      · cases same
  | revived liveness =>
      rw [List.mem_singleton.mp member] at marks
      rcases marks with same | same
      · cases same
      · cases same
        exact held l beside

theorem Founded.moves (founded : Founded P heads w) (due : Due w) (moves : Moves P w w') :
    Founded P heads w' := by
  cases moves with
  | beside beside turned logs =>
      apply founded.turned turned
      intro e member l marks
      exact (beside_marks beside logs member marks).1
  | newLiveness => exact founded.same rfl rfl rfl rfl (Nat.le_succ _)
  | set head response =>
      apply founded.saw rfl (by simp) (by simp)
      intro head'
      unfold headAt
      rw [List.foldl_append, Function.update_apply]
      have now : headAt heads w.log head' = w.heads head' := (founded.reads head').symm
      unfold headAt at now
      rw [now]
      by_cases same : head' = head
      · simp [same]
      · simp [same, Ne.symm same]
  | registered slot liveness turned slots => exact founded.install slot liveness turned slots
  | duplicate turned =>
      have before := founded.turned turned (by simp)
      exact before.same rfl rfl rfl rfl (turned.fields.1 ▸ Nat.le_succ _)
  | read awaits flaky fresh =>
      apply founded.saw rfl (by simp) (by simp)
      intro head
      rw [headAt_see heads w.log (by simp)]
      exact founded.reads head
  | mark awaits stage turned =>
      have before := founded.turned turned (by
        intro e member l marks
        rw [List.mem_singleton.mp member] at marks
        rcases marks with same | same
        · cases same
          exact (founded.bound _ (standing_of_awaiting awaits).2).2
        · cases same)
      exact before.same rfl rfl rfl rfl (Nat.le_refl _)
  | answer awaits replies turned =>
      have before := founded.turned turned (by simp)
      exact before.same rfl rfl rfl rfl (Nat.le_refl _)
  | sweep member flaky =>
      apply founded.saw rfl (by simp)
      · intro l healthy same
        cases same
        exact (founded.bound _ member).2
      · intro head
        rw [headAt_see heads w.log (by simp)]
        exact founded.reads head
  | revive pending turned =>
      obtain ⟨i, member, rfl, -⟩ := due _ pending
      have before := founded.turned turned (by
        intro e here l marks
        rw [List.mem_singleton.mp here] at marks
        rcases marks with same | same
        · cases same
        · cases same
          exact (founded.bound i member).2)
      exact before.same rfl rfl rfl rfl (Nat.le_refl _)

theorem reach_founded (reach : Platform.Reach P heads w) : Founded P heads w ∧ Due w := by
  induction reach with
  | start start => exact ⟨founded_idle start, List.forall_mem_nil _⟩
  | step _ moves ih =>
      obtain ⟨founded, due⟩ := ih
      have moves := step_moves moves
      exact ⟨founded.moves due moves, due.moves moves⟩

end Foundations

end Videre.Native
