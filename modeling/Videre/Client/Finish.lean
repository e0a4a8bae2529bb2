import Videre.Client.Orders
import Videre.Host.Completion

/-! # Keeper calls can be finished

A keeper's call waits for nothing but its own registry call, and registry calls can be
brought to their ends. So from every reachable session the call in progress can be
finished by operations alone, unless the registry call it awaits was dropped under it.
-/

namespace Videre.Client

open Interaction Sdk

variable {S : Type} {P : Nat → Host.Policy} {module : String}

def SessionLabel.Works {Edit : Type} : SessionLabel Edit → Prop
  | .operate _ | .turn (.registry _ (.advance _ _)) => True
  | _ => False

/-- The registry call the keeper awaits is still there. -/
def Undropped (s : Session S) : Prop :=
  ∀ flight, s.asked = some (.ok flight) →
    (s.process.registries flight.registry).threads flight.id ≠ none

section Waiting

variable [NexumRuntime] [KeeperStores S] [NexumSdk] {s t : Session S} {store : S}

/-- The call in progress has come here along the protocol, and a POST it made last was asked
of the import. -/
def Waits (s : Session S) : Prop :=
  ∀ activity, s.host.active = some activity → ∃ w₀,
    Path (fun _ _ _ => True) activity.call.keeper activity.call.tick w₀ s.host.world ∧
    Keeps (machine S) (fun _ _ _ => True)
      (Step (fun _ _ _ => True) activity.call.keeper activity.call.tick w₀) (fun _ _ => True)
      activity.rest s.host.world ∧
    ∀ pass venue key body placed,
      (since w₀ s.host.world).getLast? = some (.posted pass venue key body placed) →
        s.asked ≠ none

omit [KeeperStores S] [NexumSdk] in
theorem request_other {o : Op} (other : ∀ pass venue key body, o ≠ .post pass venue key body) :
    s.request P module o = s := by
  cases o with
  | post pass venue key body => exact absurd rfl (other pass venue key body)
  | _ => rfl

omit [KeeperStores S] [NexumSdk] in
theorem request_asks (pass : Pass) (venue : Sdk.VenueId) (key : String) (body : Bytes) :
    (s.request P module (.post pass venue key body)).asked ≠ none := by
  cases dispatched : s.process.submit P module venue.id body with
  | mk answer q => cases answer <;> simp [Session.request, dispatched]

theorem Waits.operate (waits : Waits s) {call : Sdk.Call} {o : Op}
    {input : Input (KeeperStores.Edit S)} {a : o.Ans} {w : World S}
    {rest : o.Ans → Program Op Op.Ans (Except Fault call.Report)}
    (active : s.host.active = some ⟨call, .call o rest⟩)
    (moves : (machine S).step o input s.host.world = some (a, w)) :
    Waits { s.request P module o with host := ⟨w, some ⟨call, rest a⟩⟩ } := by
  obtain ⟨w₀, path, keeps, asks⟩ := waits _ active
  obtain ⟨step, later⟩ := keeps _ _ _ trivial moves
  intro activity now
  cases now
  refine ⟨w₀, path.tail step, later, ?_⟩
  intro pass venue key body placed last
  have logs := path.since_append (log_of_step moves)
  show (s.request P module o).asked ≠ none
  by_cases posts : ∃ pass venue key body, o = .post pass venue key body
  · obtain ⟨pass, venue, key, body, rfl⟩ := posts
    exact request_asks pass venue key body
  · rw [request_other fun pass venue key body same => posts ⟨pass, venue, key, body, same⟩]
    have last : (since w₀ w).getLast? = some (.posted pass venue key body placed) := last
    rw [logs] at last
    cases logged : o.logs input with
    | none =>
        rw [logged, Option.toList_none, List.append_nil] at last
        exact asks _ _ _ _ _ last
    | some e =>
        rw [logged, Option.toList_some, List.getLast?_concat, Option.some.injEq] at last
        subst last
        cases o with
        | post pass venue key body => exact absurd ⟨_, _, _, _, rfl⟩ posts
        | _ => cases input <;> cases logged

theorem Waits.step (waits : Waits s) {label : SessionLabel (KeeperStores.Edit S)}
    (moves : s.step P module label = some t) : Waits t := by
  cases label with
  | turn t' =>
      obtain ⟨q, turned, rfl⟩ := Option.map_eq_some_iff.mp moves
      exact waits
  | start call =>
      simp only [Session.step] at moves
      split at moves
      next free =>
        cases moves
        intro activity now
        cases now
        refine ⟨s.host.world, .refl, call_keeps, ?_⟩
        intro pass venue key body placed last
        rw [since_start] at last
        cases last
      next => cases moves
  | operate input =>
      simp only [Session.step] at moves
      split at moves
      next call o rest active =>
        split at moves
        next admits =>
          split at moves
          next a w stepped =>
            cases moves
            exact waits.operate active stepped
          next => cases moves
        next => cases moves
      next => cases moves
  | stop =>
      cases moves
      intro activity now
      cases now
  | edit edits =>
      simp only [Session.step] at moves
      split at moves
      next free =>
        cases moves
        intro activity now
        cases now
      next => cases moves

theorem Waits.run (waits : Waits s) {labels : List (SessionLabel (KeeperStores.Edit S))}
    (ran : Session.run P module labels s = some t) : Waits t := by
  induction labels generalizing s with
  | nil =>
      cases ran
      exact waits
  | cons label labels ih =>
      obtain ⟨v, moves, rest⟩ := Option.bind_eq_some_iff.mp ran
      exact ih (waits.step moves) rest

theorem waits_reach (reach : Session.Reach P module store s) : Waits s := by
  induction reach with
  | start sound =>
      intro activity now
      cases now
  | step _ moves ih => exact ih.step moves

omit [NexumRuntime] in
theorem Waits.posted (waits : Waits s) {call : Sdk.Call} {pass : Pass} {venue : Sdk.VenueId}
    {key : String} {body : Bytes}
    {rest : SubmitResult → Program Op Op.Ans (Except Fault call.Report)}
    (active : s.host.active = some ⟨call, .call (.reply pass venue key body) rest⟩) :
    s.asked ≠ none ∧
      ∃ placed, s.host.world.log.getLast? = some (.posted pass venue key body placed) := by
  obtain ⟨w₀, path, keeps, asks⟩ := waits _ active
  -- Whatever the answer would be, the protocol takes it only after the POST.
  have moves : (machine S).step (.reply pass venue key body) (.answered (.error .timeout))
      s.host.world = some (.error .timeout,
        s.host.world.record (.answered pass venue key body (.error .timeout))) := rfl
  obtain ⟨step, -⟩ := keeps _ _ _ trivial moves
  obtain ⟨w', same⟩ : ∃ w', w' = s.host.world.record
    (.answered pass venue key body (.error .timeout)) := ⟨_, rfl⟩
  rw [← same] at step
  have log := congrArg World.log same
  cases step with
  | store st _ => simp at log
  | poll rests swept rely => simp at log
  | reserve polled unmarked => simp at log
  | post reserved own rely => simp at log
  | repost listed untouched rests rely => simp at log
  | answer posted rely =>
      simp only [World.record_log, List.append_cancel_left_eq, List.cons.injEq, and_true,
        Event.answered.injEq] at log
      obtain ⟨rfl, rfl, rfl, rfl, rfl⟩ := log
      exact ⟨asks _ _ _ _ _ posted, _, path.last_logged posted⟩
  | settle answered owes => simp at log

end Waiting

/-! ## Bringing calls to their ends -/

section Finishing

variable [NexumRuntime] [KeeperStores S] [NexumSdk] {s t : Session S} {store : S}

theorem run_append {labels labels' : List (SessionLabel (KeeperStores.Edit S))} {u : Session S}
    (first : Session.run P module labels s = some t)
    (later : Session.run P module labels' t = some u) :
    Session.run P module (labels ++ labels') s = some u := by
  induction labels generalizing s with
  | nil =>
      cases first
      exact later
  | cons label labels ih =>
      obtain ⟨v, moves, rest⟩ := Option.bind_eq_some_iff.mp first
      exact Option.bind_eq_some_iff.mpr ⟨v, moves, ih rest⟩

theorem run_registry {registry : Nat} {labels : Host.Schedule} :
    ∀ {s : Session S} {pool : Host.RegistryPool},
    (Host.venueRegistry (P registry)).run labels (s.process.registries registry) = some pool →
    Session.run P module (labels.map fun label => .turn (.registry registry label)) s =
      some { s with process := s.process.move registry pool } := by
  induction labels with
  | nil =>
      intro s pool ran
      cases ran
      rw [Process.move_same]
      rfl
  | cons label labels ih =>
      intro s pool ran
      unfold System.run at ran
      split at ran
      next next moves =>
        have turned : s.step P module (.turn (.registry registry label)) =
            some { s with process := s.process.move registry next } := by
          simp only [Session.step, Process.turn, moves, Option.map_some]
        rw [List.map_cons, Session.run, turned, Option.bind_some]
        have there : (s.process.move registry next).registries registry = next :=
          Process.move_self ..
        rw [ih (s := { s with process := s.process.move registry next }) (by rw [there]; exact ran),
          Process.move_move]
      next => cases ran

theorem Good.run (good : Good P module store s) {labels : List (SessionLabel (KeeperStores.Edit S))}
    (ran : Session.run P module labels s = some t) : Good P module store t := by
  induction labels generalizing s with
  | nil =>
      cases ran
      exact good
  | cons label labels ih =>
      obtain ⟨v, moves, rest⟩ := Option.bind_eq_some_iff.mp ran
      exact ih (good.step moves) rest

omit [NexumRuntime] [NexumSdk] [KeeperStores S] in
theorem submitted_of_story {Q : Host.Policy} {caller : String} {venue : Host.VenueId}
    {body : Bytes} {past : List Host.Event} {outcome : Host.Outcome}
    (story : Host.Story Q (.submit caller venue body) past outcome) :
    ∃ result, outcome = .submitted result := by
  cases story with
  | unrouted e routes => exact ⟨_, rfl⟩
  | throttled slot routes spends => exact ⟨_, rfl⟩
  | underived => exact ⟨_, rfl⟩
  | submitted => exact ⟨_, rfl⟩

/-- The answer the keeper waits for can be brought in by registry calls alone. -/
theorem reply_comes (good : Good P module store s) (waits : Waits s) (undropped : Undropped s)
    {call : Sdk.Call} {pass : Pass} {venue : Sdk.VenueId} {key : String} {body : Bytes}
    {rest : SubmitResult → Program Op Op.Ans (Except Fault call.Report)}
    (active : s.host.active = some ⟨call, .call (.reply pass venue key body) rest⟩) :
    ∃ labels t result, (∀ label ∈ labels, SessionLabel.Works label) ∧
      Session.run P module labels s = some t ∧ t.host = s.host ∧ Undropped t ∧
      t.replied = some result := by
  obtain ⟨asked, placed, posted⟩ := waits.posted active
  obtain ⟨answer, waiting⟩ := Option.ne_none_iff_exists'.mp asked
  cases answer with
  | error e =>
      refine ⟨[], s, .error (.ofVenueError e), List.forall_mem_nil _, rfl, rfl, undropped, ?_⟩
      simp [Session.replied, waiting]
  | ok flight =>
      obtain ⟨orders, backed⟩ := good.backed
      have latest := backed.asking _ _ _ _ _ _ posted waiting
      obtain ⟨start, reach⟩ := good.tracked.sound flight.registry
      obtain ⟨labels, pool, advances, ran, ended⟩ := Host.calls_drain reach
      have there := System.run_advances advances ran (undropped flight waiting)
      obtain ⟨thread, left⟩ := Option.ne_none_iff_exists'.mp there
      have standing := ended flight.id
      rw [Pool.standing, left] at standing
      cases thread with
      | call o rest' => cases standing
      | done outcome =>
          have brought : Session.run P module _ s = some
            { s with process := s.process.move flight.registry pool } := run_registry ran
          have here : (s.process.move flight.registry pool).registries flight.registry = pool :=
            Process.move_self ..
          obtain ⟨-, called⟩ := (good.run brought).tracked.called _ (List.mem_of_getLast? latest)
          obtain ⟨made, told, point⟩ := Host.tells_thread (reach.of_run ran) left
          rw [here, told] at called
          cases called
          obtain ⟨result, rfl⟩ := submitted_of_story (point.returned _ rfl)
          refine ⟨_, _, result.mapError VenueFault.ofVenueError, ?_, brought, rfl, ?_, ?_⟩
          · intro label member
            obtain ⟨label', member', rfl⟩ := List.mem_map.mp member
            obtain ⟨id, input, rfl⟩ := advances label' member'
            trivial
          · intro flight' waiting'
            have same : flight' = flight := by
              have both : s.asked = some (.ok flight') := waiting'
              rw [waiting] at both
              cases both
              rfl
            rw [same, here, left]
            simp
          · have landed : (s.process.move flight.registry pool).landed flight =
                some (.submitted result) := Process.landed_of_thread (by rw [here]; exact left)
            simp only [Session.replied, waiting, landed]

theorem operation_taken (undropped : Undropped s) (sound : s.process.Sound P) {call : Sdk.Call}
    {o : Op} {rest : o.Ans → Program Op Op.Ans (Except Fault call.Report)}
    (active : s.host.active = some ⟨call, .call o rest⟩) {input : Input (KeeperStores.Edit S)}
    {a : o.Ans} {w : World S} (admits : s.admits o input = true)
    (moves : (machine S).step o input s.host.world = some (a, w)) :
    ∃ t, Session.run P module [.operate input] s = some t ∧
      t.host.active = some ⟨call, rest a⟩ ∧ Undropped t := by
  refine ⟨{ s.request P module o with host := ⟨w, some ⟨call, rest a⟩⟩ }, ?_, rfl, ?_⟩
  · simp only [Session.run, Session.step, active, admits, moves, if_true, Option.bind_some]
  · by_cases posts : ∃ pass venue key body, o = .post pass venue key body
    · obtain ⟨pass, venue, key, body, rfl⟩ := posts
      intro flight waiting
      cases dispatched : s.process.submit P module venue.id body with
      | mk answer q =>
          rcases Process.dispatch_cases sound dispatched with
            ⟨⟨e, rfl⟩, rfl⟩ | ⟨flight', rfl, -, -, -, -, -, thread⟩
          · simp only [Session.request, dispatched] at waiting
            cases waiting
          · simp only [Session.request, dispatched] at waiting ⊢
            cases waiting
            rw [thread]
            simp
    · rw [request_other fun pass venue key body same => posts ⟨pass, venue, key, body, same⟩]
      exact undropped

omit [NexumRuntime] [NexumSdk] in
theorem operation_free {o : Op} (other : ∀ pass venue key body, o ≠ .reply pass venue key body) :
    ∃ (input : Input (KeeperStores.Edit S)) (a : o.Ans) (w : World S),
      s.admits o input = true ∧ (machine S).step o input s.host.world = some (a, w) := by
  cases o with
  | read q => exact ⟨.ok, _, _, rfl, rfl⟩
  | write venue jw => exact ⟨.ok, _, _, rfl, rfl⟩
  | retrier call => exact ⟨.ok, _, _, rfl, rfl⟩
  | poll c params tick => exact ⟨.polled .waitBlock [], _, _, rfl, rfl⟩
  | post pass venue key body => exact ⟨.sent false, _, _, rfl, rfl⟩
  | reply pass venue key body => exact absurd rfl (other pass venue key body)

/-- By induction on what is left of the call, one operation after another. -/
theorem call_finishes {call : Sdk.Call} {p : Program Op Op.Ans (Except Fault call.Report)} :
    ∀ {s : Session S}, Good P module store s → Waits s → Undropped s →
      s.host.active = some ⟨call, p⟩ →
      ∃ labels t out, (∀ label ∈ labels, SessionLabel.Works label) ∧
        Session.run P module labels s = some t ∧ t.host.active = some ⟨call, .done out⟩ := by
  induction p with
  | done out =>
      intro s _ _ _ active
      exact ⟨[], s, out, List.forall_mem_nil _, rfl, active⟩
  | call o rest ih =>
      intro s good waits undropped active
      have taken : ∃ labels t a, (∀ label ∈ labels, SessionLabel.Works label) ∧
          Session.run P module labels s = some t ∧ t.host.active = some ⟨call, rest a⟩ ∧
          Undropped t := by
        by_cases replies : ∃ pass venue key body, o = .reply pass venue key body
        · obtain ⟨pass, venue, key, body, rfl⟩ := replies
          obtain ⟨labels, t, result, works, ran, host, undropped', replied⟩ :=
            reply_comes good waits undropped active
          have admits : t.admits (.reply pass venue key body)
              (.answered result : Input (KeeperStores.Edit S)) = true :=
            beq_iff_eq.mpr replied
          obtain ⟨u, operated, stands, undropped''⟩ :=
            operation_taken (P := P) undropped' (good.run ran).tracked.sound
              (by rw [host]; exact active) admits rfl
          refine ⟨labels ++ [.operate (.answered result)], u, result, ?_,
            run_append ran operated, stands, undropped''⟩
          intro label member
          rcases List.mem_append.mp member with old | new
          · exact works label old
          · rw [List.mem_singleton.mp new]
            trivial
        · obtain ⟨input, a, w, admits, moves⟩ := operation_free (s := s) fun pass venue key body same =>
            replies ⟨pass, venue, key, body, same⟩
          obtain ⟨t, operated, stands, undropped'⟩ :=
            operation_taken undropped good.tracked.sound active admits moves
          refine ⟨[.operate input], t, a, ?_, operated, stands, undropped'⟩
          intro label member
          rw [List.mem_singleton.mp member]
          trivial
      obtain ⟨labels, t, a, works, ran, stands, undropped'⟩ := taken
      obtain ⟨labels', u, out, works', ran', ended⟩ :=
        ih a (good.run ran) (waits.run ran) undropped' stands
      refine ⟨labels ++ labels', u, out, ?_, run_append ran ran', ended⟩
      intro label member
      rcases List.mem_append.mp member with first | later
      · exact works label first
      · exact works' label later

/-- From every reachable session the keeper's call in progress can be brought to its end, by
operations of the keeper and of registry calls alone: nothing is torn, dropped or registered
for it. Only a registry call dropped while the keeper awaits it leaves the keeper waiting. -/
theorem keeper_call_finishes (reach : Session.Reach P module store s)
    (undropped : Undropped s) {activity : Activity} (active : s.host.active = some activity) :
    ∃ labels t out, (∀ label ∈ labels, SessionLabel.Works label) ∧
      Session.run P module labels s = some t ∧
      t.host.active = some ⟨activity.call, .done out⟩ :=
  call_finishes (good_reach reach) (waits_reach reach) undropped active

end Finishing

open scoped MemStore PlainIds

/-- The keeper's sweep has POSTed its order and nobody has moved since. -/
def waitingSession : List (SessionLabel MemStore.Edit) :=
  [.turn (.publish 0), .turn (.registry 0 (.host (.register ⟨"stub"⟩ 0 ∅))),
    .start (.run stubKeeper stubTick)] ++
  [.ok, .ok, .ok, .ok, .polled (.submit stubBody) [], .ok, .ok, .sent true].map .operate

def waitsOn (s : Session MemStore) : Option Flight :=
  match s.asked with
  | some (.ok flight) =>
      if ((s.process.registries flight.registry).threads flight.id).isSome &&
        s.host.active.isSome then some flight else none
  | _ => none

theorem keeper_call_finishes_stub : ∃ (s : Session MemStore) (activity : Activity),
    Session.Reach (fun _ => Host.oneCharge) "keeper" MemStore.single s ∧
    s.asked = some (.ok ⟨0, 0⟩) ∧
    ∃ labels t out, (∀ label ∈ labels, SessionLabel.Works label) ∧
      Session.run (fun _ => Host.oneCharge) "keeper" labels s = some t ∧
      t.host.active = some ⟨activity.call, .done out⟩ := by
  have ran : (Session.run (fun _ => Host.oneCharge) "keeper" waitingSession
      (Session.idle stubProcess MemStore.single)).bind waitsOn = some ⟨0, 0⟩ := by
    decide
  obtain ⟨s, reached, waits⟩ := Option.bind_eq_some_iff.mp ran
  have reach : Session.Reach (fun _ => Host.oneCharge) "keeper" MemStore.single s :=
    .of_run (.start fun _ => ⟨0, .start⟩) reached
  unfold waitsOn at waits
  split at waits
  next flight asked =>
    split at waits
    next there =>
      cases waits
      obtain ⟨thread, running⟩ := Bool.and_eq_true_iff.mp there
      obtain ⟨activity, active⟩ := Option.isSome_iff_exists.mp running
      have undropped : Undropped s := by
        intro flight waiting dropped
        rw [asked] at waiting
        cases waiting
        rw [dropped] at thread
        cases thread
      exact ⟨s, activity, reach, asked, keeper_call_finishes reach undropped active⟩
    next => cases waits
  next => cases waits

end Videre.Client
