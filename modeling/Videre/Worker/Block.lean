import Videre.Native.Echo
import Videre.Worker.Echo
import Videre.Worker.Engine

/-! # A block through the echo keeper

On an engine whose registry has the echo venue alone under its id, a handled block is
priced, placed, looked up and withdrawn by one call each, over the bytes of its body, or
ends at the first call the registry refuses, and a transition fanned back is logged as the
venue settled it.
-/

namespace Videre.Worker

open Interaction Sdk Client Native

/-! ## Rules for guest code -/

section Rules

variable {module : String} {R : Rely GuestOp (List Mark) GuestInput} {marks : List Mark}

/-- Every run of a guest program that returns leaves an answer and marks of `Q`. -/
abbrev Ends {α : Type} (module : String) (R : Rely GuestOp (List Mark) GuestInput)
    (Q : α → List Mark → Prop) (p : Guest α) (marks : List Mark) : Prop :=
  Keeps (guest module) R (fun _ _ => True) Q p marks

theorem ends_log {level : Level} {message : String} {Q : Unit → List Mark → Prop}
    (logged : Q () (marks ++ [.logged level message])) :
    Ends module R Q (log level message) marks := by
  intro input a marks' _ moves
  cases input with
  | written =>
      cases moves
      exact ⟨trivial, logged⟩
  | misnamed => cases moves
  | landed id outcome => cases moves

theorem ends_shims {venue : String} {request : Request}
    {Q : Except VenueError request.Returns → List Mark → Prop}
    (misnamed : R (.client venue request) .misnamed marks →
      Q (.error .unknownVenue) (marks ++ [.refused request]))
    (landed : ∀ id outcome result, R (.client venue request) (.landed id outcome) marks →
      request.landed outcome = some result →
        Q result (marks ++ [.answered id (request.call module ⟨venue⟩) outcome])) :
    Ends module R Q (shims venue request) marks := by
  intro input a marks' relies moves
  cases input with
  | written => cases moves
  | misnamed =>
      cases moves
      exact ⟨trivial, misnamed relies⟩
  | landed id outcome =>
      obtain ⟨result, lands, same⟩ := Option.map_eq_some_iff.mp moves
      cases same
      exact ⟨trivial, landed id outcome _ relies lands⟩

def refusal (e : VenueError) : Fault :=
  .ofClientError (.venue (.ofVenueError e))

theorem ends_folded {α : Type} {x : ExceptT ClientError Guest α}
    {Q : Except Fault α → List Mark → Prop}
    (ends : Ends module R (fun r t => Q (r.mapError .ofClientError) t) x.run marks) :
    Ends module R Q (folded x).run marks :=
  Keeps.bind ends

theorem ends_transported {venue : Sdk.VenueId} {request : Request}
    {Q : Except ClientError request.Returns → List Mark → Prop}
    (ends : Ends module R
      (fun r t => Q (r.mapError fun e => .venue (.ofVenueError e)) t)
      (shims venue.id request) marks) :
    Ends module R Q (transported (hostVenues venue request)).run marks := by
  apply Keeps.bind
  apply Keeps.bind
  apply ends.mono
  intro r t _ post
  cases r with
  | ok a => exact post
  | error e => exact post

end Rules

/-! ## What the echo venue answers a handler -/

section Echoes

variable {P : Host.Policy} {heads : ChainHead → String} {w : Platform} {i : Installed}
  {module caller : String} {venue : Host.VenueId}

theorem served_quote {body : Bytes} {result : Except VenueError Quotation}
    (serves : EchoServes P (.quote caller venue body) (.quoted result)) :
    result = .error (Host.rateLimited P) ∨
      ∃ slice : Echo.Slice, slice.val = body ∧ result = Echo.quote slice := by
  generalize called : Host.Call.quote caller venue body = call at serves
  generalize returned : Host.Outcome.quoted result = outcome at serves
  cases serves with
  | throttled spends =>
      subst called
      cases returned
      exact .inl rfl
  | quoted _ _ slice =>
      cases called
      cases returned
      exact .inr ⟨slice, rfl, rfl⟩
  | _ => cases called

theorem served_submit {body : Bytes} {result : Except VenueError SubmitOutcome}
    (serves : EchoServes P (.submit caller venue body) (.submitted result)) :
    result = .error (Host.rateLimited P) ∨ result = .ok (.accepted body) := by
  cases serves with
  | throttled spends => exact .inl rfl
  | submitted => exact .inr rfl

theorem served_status {receipt : Bytes} {result : Except VenueError IntentStatus}
    (serves : EchoServes P (.status venue receipt) (.status result)) : result = .ok .fulfilled := by
  cases serves with
  | throttled spends => cases spends
  | settled => rfl

theorem served_cancel {receipt : Bytes} {result : Except VenueError Unit}
    (serves : EchoServes P (.cancel venue receipt) (.cancelled result)) : result = .ok () := by
  cases serves with
  | throttled spends => cases spends
  | cancelled => rfl

/-- A call that was not refused as unknown was routed. -/
theorem routed_of_returned {pool : Host.RegistryPool} {start id : Nat} {call : Host.Call}
    {outcome : Host.Outcome} (reach : (Host.venueRegistry P).Reach (Host.Registry.new start) pool)
    (made : pool.calls[id]? = some call) (routes : call.venue? = some i.venue)
    (returned : pool.threads id = some (.done outcome)) :
    (∃ e, outcome = call.refuse e ∧
      ⟨some id, .resolved i.venue (.error e)⟩ ∈ pool.log) ∨
    ∃ slot, ⟨some id, .resolved i.venue (.ok slot)⟩ ∈ pool.log := by
  obtain ⟨call', made', point⟩ := Host.tells_thread reach returned
  rw [made] at made'
  cases made'
  have story := point.returned outcome rfl
  generalize trace : own id pool.log = events at story
  have routed : ∀ slot rest, events = .resolved i.venue (.ok slot) :: rest →
      ∃ slot, ⟨some id, .resolved i.venue (.ok slot)⟩ ∈ pool.log := by
    rintro slot rest rfl
    refine ⟨slot, ?_⟩
    rw [← mem_own, trace]
    exact List.mem_cons_self
  cases story with
  | @unrouted call venue e routes' =>
      rw [routes] at routes'
      cases routes'
      refine .inl ⟨e, rfl, ?_⟩
      rw [← mem_own, trace]
      exact List.mem_cons_self
  | throttled slot routes' spends =>
      rw [routes] at routes'
      cases routes'
      exact .inr (routed slot _ rfl)
  | polled => cases routes
  | _ =>
      cases routes
      exact .inr (routed _ _ rfl)

/-- Once a call was routed to the venue, no later one is refused as unknown. -/
theorem echo_later (reach : Platform.Reach P heads w) (member : i ∈ w.installed)
    (echo : i.adapter = .echo) (alone : Alone w i) {past : Platform}
    (reached : Platform.Reach P heads past) (log : past.pool.log <+: w.pool.log) {id later : Nat}
    {call call' : Host.Call} {outcome outcome' : Host.Outcome}
    (called : past.pool.calls[id]? = some call) (routes : call.venue? = some i.venue)
    (returned : past.pool.threads id = some (.done outcome))
    (routed : outcome ≠ call.refuse .unknownVenue) (fresh : past.pool.calls.length ≤ later)
    (called' : w.pool.calls[later]? = some call') (routes' : call'.venue? = some i.venue)
    (returned' : w.pool.threads later = some (.done outcome')) : EchoServes P call' outcome' := by
  obtain ⟨start, pool⟩ := (reach_founded reach).1.reach
  obtain ⟨start', pool'⟩ := (reach_founded reached).1.reach
  -- The call routed before was routed by a registration.
  have registered : ∃ e ∈ past.pool.log, ∃ slot liveness,
      e.what = .registered i.venue slot liveness := by
    rcases routed_of_returned pool' called routes returned with ⟨e, refused, resolves⟩ |
      ⟨slot, resolves⟩
    · have unknown := unrouted_alone reach member echo alone _ (log.subset resolves)
      rw [unknown] at refused
      exact absurd refused routed
    · obtain ⟨before, after, split⟩ := List.append_of_mem resolves
      obtain ⟨liveness, found, -⟩ := Host.resolved_live (Host.routes_match pool').lawful split
      obtain ⟨e, here, registers⟩ := Host.installedAt_mem found
      refine ⟨e, ?_, slot, liveness, registers⟩
      rw [split]
      exact List.mem_append_left _ here
  rcases echo_call reach member echo alone called' routes' returned' with ⟨-, resolves⟩ | served
  · exfalso
    obtain ⟨before, after, split⟩ := List.append_of_mem resolves
    have silent : ⟨some later, .resolved i.venue (.error .unknownVenue)⟩ ∉ past.pool.log := by
      rw [← mem_own, pool'.numbered.silent later fresh]
      exact List.not_mem_nil
    have inside : past.pool.log <+: before := by
      have front : before <+: w.pool.log := ⟨_, split.symm⟩
      rcases List.prefix_or_prefix_of_prefix log front with within | ⟨more, beyond⟩
      · exact within
      · cases more with
        | nil =>
            rw [← beyond, List.append_nil]
        | cons x more =>
            obtain ⟨tail, whole⟩ := log
            rw [← beyond, split, List.append_assoc, List.append_cancel_left_eq] at whole
            cases whole
            apply absurd _ silent
            rw [← beyond]
            exact List.mem_append_right _ List.mem_cons_self
    obtain ⟨e, here, slot, liveness, registers⟩ := registered
    have answer := (Host.resolves_by_log pool).at_split split i.venue _ rfl
    unfold Host.routeAt at answer
    split at answer
    next none_ =>
      exact Host.unregistered_of_none none_ e (inside.subset here) slot liveness registers
    next slot' liveness' found =>
      split at answer
      next => cases answer
      next => cases answer
  · exact served

end Echoes

/-! ## A block -/

def echoId : Host.VenueId := ⟨echoVenue.id.id⟩

/-- The calls of a block, all over the bytes of its body. -/
def quoteOf (module : String) (block : Block) : Host.Call :=
  .quote module echoId (EchoKeeper.bodyOf block)

def submitOf (module : String) (block : Block) : Host.Call :=
  .submit module echoId (EchoKeeper.bodyOf block)

def statusOf (block : Block) : Host.Call := .status echoId (EchoKeeper.bodyOf block)

def cancelOf (block : Block) : Host.Call := .cancel echoId (EchoKeeper.bodyOf block)

theorem quote_gives {body : Echo.Slice} {block : Block}
    (same : body.val = EchoKeeper.bodyOf block) :
    ∃ quotation, Echo.quote body = .ok quotation ∧ quotation.gives.amount.length = 1 := by
  obtain ⟨bytes, fits⟩ := body
  refine ⟨_, rfl, ?_⟩
  have nine : (Echo.Slice.len ⟨bytes, fits⟩) = 9 := by
    cases same
    rfl
  show (Echo.minimalBe (Echo.Slice.len ⟨bytes, fits⟩)).length = 1
  rw [nine]
  decide

section Settling

variable {P : Host.Policy} {heads : ChainHead → String} {w : Platform} {i : Installed}
  {module : String} {block : Block} {marks : List Mark}

theorem call_venue (request : Request) (module : String) (venue : Host.VenueId) :
    (request.call module venue).venue? = some venue := by
  cases request <;> rfl

def PricedIn (module : String) (block : Block) (marks : List Mark) : Prop :=
  ∃ priced quotation, .answered priced (quoteOf module block) (.quoted (.ok quotation)) ∈ marks

theorem PricedIn.append (first : PricedIn module block marks) (more : List Mark) :
    PricedIn module block (marks ++ more) := by
  obtain ⟨priced, quotation, there⟩ := first
  exact ⟨priced, quotation, List.mem_append_left _ there⟩

variable [NexumRuntime]

theorem served_after (reach : Platform.Reach P heads w) (member : i ∈ w.installed)
    (echo : i.adapter = .echo) (alone : Alone w i) (named : i.venue = echoId)
    (first : PricedIn module block marks) {request : Request} {id : Nat} {outcome : Host.Outcome}
    (answers : Answers P heads w module (.client echoVenue.id.id request) (.landed id outcome)
      marks) :
    EchoServes P (request.call module echoId) outcome := by
  obtain ⟨-, made, returned, since⟩ := answers
  obtain ⟨priced, quotation, there⟩ := first
  obtain ⟨past, reached, log, called, ended, fresh⟩ := since _ _ _ there
  have routes : ∀ request : Request, (request.call module echoId).venue? = some i.venue := by
    intro request
    rw [named]
    exact call_venue request module echoId
  apply echo_later reach member echo alone reached log called (routes (.quote _)) ended _ fresh made
    (routes request) returned
  intro refused
  cases refused

variable (reach : Platform.Reach P heads w) (member : i ∈ w.installed) (echo : i.adapter = .echo)
  (alone : Alone w i) (named : i.venue = echoId)

include reach member echo alone named

theorem ends_quote {Q : Except Fault Priced → List Mark → Prop}
    (misnamed : Q (.error (refusal .unknownVenue))
      (marks ++ [.refused (.quote (EchoKeeper.bodyOf block))]))
    (early : ∀ id, Q (.error (refusal .unknownVenue))
      (marks ++ [.answered id (quoteOf module block) (.quoted (.error .unknownVenue))]))
    (throttled : ∀ id, Q (.error .rateLimited)
      (marks ++ [.answered id (quoteOf module block) (.quoted (.error (Host.rateLimited P)))]))
    (priced : ∀ id body quotation, body.val = EchoKeeper.bodyOf block →
      Echo.quote body = .ok quotation → quotation.gives.amount.length = 1 →
        Client.venueId echoVenue.id.id = .ok echoId →
          Q (.ok ⟨EchoKeeper.bodyOf block, quotation⟩)
            (marks ++ [.answered id (quoteOf module block) (.quoted (.ok quotation))])) :
    Ends module (Answers P heads w module) Q
      (folded (VenueClient.quote echoVenue (.this block.number))).run marks := by
  apply ends_folded
  have quotes : VenueClient.quote echoVenue (.this block.number) = (do
      let quotation ← transported (hostVenues echoVenue.id (.quote (EchoKeeper.bodyOf block)))
      return ⟨EchoKeeper.bodyOf block, quotation⟩) := by
    unfold VenueClient.quote
    rw [EchoKeeper.toBytes_this]
  rw [quotes]
  apply Keeps.bindExcept
  apply ends_transported
  apply ends_shims
  · intro _
    exact misnamed
  · intro id outcome result answers lands
    obtain ⟨parsed, made, returned, -⟩ := answers
    have routes : (Request.call module echoId (.quote (EchoKeeper.bodyOf block))).venue? =
        some i.venue := by
      rw [named]
      rfl
    cases outcome with
    | quoted given =>
        cases lands
        rcases echo_call reach member echo alone made routes returned with ⟨refused, -⟩ | serves
        · cases refused
          exact early id
        · rcases served_quote serves with same | ⟨body, same, gives⟩
          · cases same
            exact throttled id
          · obtain ⟨quotation, quoted, one⟩ := quote_gives same
            rw [quoted] at gives
            cases gives
            exact priced id body quotation same quoted one parsed
    | _ => cases lands

theorem ends_submit (parsed : Client.venueId echoVenue.id.id = .ok echoId)
    (first : PricedIn module block marks) {quotation : Quotation}
    {Q : Except Fault SubmitOutcome → List Mark → Prop}
    (throttled : ∀ id, Q (.error .rateLimited)
      (marks ++ [.answered id (submitOf module block) (.submitted (.error (Host.rateLimited P)))]))
    (accepted : ∀ id, Q (.ok (.accepted (EchoKeeper.bodyOf block)))
      (marks ++ [.answered id (submitOf module block)
        (.submitted (.ok (.accepted (EchoKeeper.bodyOf block))))])) :
    Ends module (Answers P heads w module) Q
      (folded (Priced.submit echoVenue ⟨EchoKeeper.bodyOf block, quotation⟩)).run marks := by
  apply ends_folded
  apply ends_transported
  apply ends_shims
  · intro refused
    cases parsed.symm.trans refused
  · intro id outcome result answers lands
    have serves := served_after reach member echo alone named first answers
    cases outcome with
    | submitted given =>
        cases lands
        rcases served_submit serves with same | same
        · cases same
          exact throttled id
        · cases same
          exact accepted id
    | _ => cases lands

theorem ends_status (parsed : Client.venueId echoVenue.id.id = .ok echoId)
    (first : PricedIn module block marks) {Q : Except Fault IntentStatus → List Mark → Prop}
    (settled : ∀ id, Q (.ok .fulfilled)
      (marks ++ [.answered id (statusOf block) (.status (.ok .fulfilled))])) :
    Ends module (Answers P heads w module) Q
      (folded (VenueClient.status echoVenue (EchoKeeper.bodyOf block))).run marks := by
  apply ends_folded
  apply ends_transported
  apply ends_shims
  · intro refused
    cases parsed.symm.trans refused
  · intro id outcome result answers lands
    have serves := served_after reach member echo alone named first answers
    cases outcome with
    | status given =>
        cases lands
        cases served_status serves
        exact settled id
    | _ => cases lands

theorem ends_cancel (parsed : Client.venueId echoVenue.id.id = .ok echoId)
    (first : PricedIn module block marks) {Q : Except Fault Unit → List Mark → Prop}
    (withdrawn : ∀ id, Q (.ok ())
      (marks ++ [.answered id (cancelOf block) (.cancelled (.ok ()))])) :
    Ends module (Answers P heads w module) Q
      (folded (VenueClient.cancel echoVenue (EchoKeeper.bodyOf block))).run marks := by
  apply ends_folded
  apply ends_transported
  apply ends_shims
  · intro refused
    cases parsed.symm.trans refused
  · intro id outcome result answers lands
    have serves := served_after reach member echo alone named first answers
    cases outcome with
    | cancelled given =>
        cases lands
        cases served_cancel serves
        exact withdrawn id
    | _ => cases lands

end Settling

section Blocks

variable [Texts]

/-- How a block that returned went: at the first refusal the handler ends with it, and past
the last call it has placed the body once, with the body as its receipt. -/
inductive EchoBlock (P : Host.Policy) (module : String) (block : Block) :
    List Mark → Except Fault Unit → Prop
  | misnamed :
      EchoBlock P module block [.refused (.quote (EchoKeeper.bodyOf block))]
        (.error (.invalidInput "unknown venue"))
  | early (priced : Nat) :
      EchoBlock P module block
        [.answered priced (quoteOf module block) (.quoted (.error .unknownVenue))]
        (.error (.invalidInput "unknown venue"))
  | unpriced (priced : Nat) :
      EchoBlock P module block
        [.answered priced (quoteOf module block) (.quoted (.error (Host.rateLimited P)))]
        (.error .rateLimited)
  | unplaced (priced placed : Nat) (body : Echo.Slice) (same : body.val = EchoKeeper.bodyOf block) :
      EchoBlock P module block
        [.answered priced (quoteOf module block) (.quoted (Echo.quote body)),
          .logged .info "quoted at echo-venue: gives 1 amount bytes",
          .answered placed (submitOf module block) (.submitted (.error (Host.rateLimited P)))]
        (.error .rateLimited)
  | settled (priced placed asked withdrawn : Nat) (body : Echo.Slice)
      (same : body.val = EchoKeeper.bodyOf block) :
      EchoBlock P module block
        [.answered priced (quoteOf module block) (.quoted (Echo.quote body)),
          .logged .info "quoted at echo-venue: gives 1 amount bytes",
          .answered placed (submitOf module block)
            (.submitted (.ok (.accepted (EchoKeeper.bodyOf block)))),
          .logged .info "submitted to echo-venue: receipt 9 bytes",
          .answered asked (statusOf block) (.status (.ok .fulfilled)),
          .logged .info ("status at echo-venue: " ++ Texts.status .fulfilled),
          .answered withdrawn (cancelOf block) (.cancelled (.ok ())),
          .logged .info "cancelled at echo-venue"]
        (.ok ())

variable {P : Host.Policy} {heads : ChainHead → String} {w : Platform} {i : Installed}
  [NexumRuntime] {module : String} {block : Block}

/-- Every run of the block handler that returns went one of the ways. -/
theorem block_ends (reach : Platform.Reach P heads w) (member : i ∈ w.installed)
    (echo : i.adapter = .echo) (alone : Alone w i) (named : i.venue = echoId) :
    Ends module (Answers P heads w module)
      (fun result marks => EchoBlock P module block marks result)
      (EchoKeeper.onBlock block).run [] := by
  unfold EchoKeeper.onBlock
  apply Keeps.bindExcept
  apply ends_quote reach member echo alone named
  · exact .misnamed
  · exact .early
  · exact .unpriced
  · intro priced body quotation same quoted one parsed
    have first : PricedIn module block
        ([] ++ [.answered priced (quoteOf module block) (.quoted (.ok quotation))]) :=
      ⟨priced, quotation, List.mem_cons_self⟩
    have gives : ("quoted at " ++ echoVenue.id.id ++ ": gives " ++
        quotation.gives.amount.length.repr ++ " amount bytes") =
          "quoted at echo-venue: gives 1 amount bytes" := by
      rw [one]
      decide
    apply Keeps.bindExcept
    apply Keeps.lift
    apply ends_log
    rw [gives]
    replace first := first.append [.logged .info "quoted at echo-venue: gives 1 amount bytes"]
    apply Keeps.bindExcept
    apply ends_submit reach member echo alone named parsed first
    · intro placed
      rw [← quoted]
      exact .unplaced priced placed body same
    · intro placed
      have signed : ("submitted to " ++ echoVenue.id.id ++ ": receipt " ++
          (EchoKeeper.bodyOf block).length.repr ++ " bytes") =
            "submitted to echo-venue: receipt 9 bytes" := by
        show ("submitted to " ++ "echo-venue" ++ ": receipt " ++ (9 : Nat).repr ++ " bytes") = _
        decide
      have first := first.append [.answered placed (submitOf module block)
        (.submitted (.ok (.accepted (EchoKeeper.bodyOf block))))]
      apply Keeps.bindExcept
      apply Keeps.lift
      apply ends_log
      rw [signed]
      have first := first.append [.logged .info "submitted to echo-venue: receipt 9 bytes"]
      apply Keeps.bindExcept
      apply ends_status reach member echo alone named parsed first
      intro asked
      have first := first.append [.answered asked (statusOf block) (.status (.ok .fulfilled))]
      apply Keeps.bindExcept
      apply Keeps.lift
      apply ends_log
      have first := first.append [.logged .info ("status at echo-venue: " ++
        Texts.status .fulfilled)]
      apply Keeps.bindExcept
      apply ends_cancel reach member echo alone named parsed first
      intro withdrawn
      apply Keeps.lift
      apply ends_log
      rw [← quoted]
      exact .settled priced placed asked withdrawn body same

omit [NexumRuntime] in
/-- A delivered transition is logged as the status its update says. -/
theorem transition_ends {venue : Host.VenueId} {receipt : Bytes} {status : IntentStatus}
    {update : Wire.IntentStatusUpdate} {item : Host.ExtensionDelivery}
    {R : Rely GuestOp (List Mark) GuestInput} (told : Host.Says venue receipt status update)
    (sent : Host.delivery update = some item) :
    Ends module R
      (fun result marks => result = .ok () ∧ marks = [.logged .info ("intent status from venue " ++
        venue.asStr ++ ": " ++ lifecycleDebug (Host.lifecycle status) ++ " (" ++
          receipt.length.repr ++ " receipt bytes)")])
      (EchoKeeper.handlers.onTrigger (.extension item.trigger)) [] := by
  obtain ⟨from_, of_, decoded⟩ := told
  have recovered := Host.delivery_recovers sent
  simp only [Handlers.onTrigger, EchoKeeper.handlers, recovered, logTransition, decoded]
  apply Keeps.bind
  apply ends_log
  rw [from_, of_]
  exact ⟨rfl, rfl⟩

/-- On an engine whose registry has the echo venue alone under its id, whatever else runs, a
block the echo keeper handled was refused at the venue's absence or a spent budget, or was
priced, placed, found fulfilled and withdrawn by one call each over the same bytes; and the
transition of a watched receipt, delivered to it, is logged as fulfilled. -/
theorem echo_keeper_settles {components : Nat → Component} {e : Engine} {k : Nat}
    (reach : Engine.Reach P components heads e)
    (keeper : (components k).onTrigger = EchoKeeper.handlers.onTrigger)
    (member : i ∈ e.platform.installed) (echo : i.adapter = .echo) (alone : Alone e.platform i)
    (named : i.venue = echoId) :
    (∀ r block result, (k, r) ∈ e.handled → r.trigger = .block block →
      r.result? = some result → EchoBlock P (components k).module block r.marks result) ∧
    ∀ receipt before who after update item r result,
      e.platform.pool.log = before ++ ⟨who, .inserted i.venue receipt⟩ :: after →
      update ∈ Host.emittedIn i.venue receipt (Host.epoch i.venue receipt after) →
      Host.delivery update = some item → (k, r) ∈ e.handled →
      r.trigger = .extension item.trigger → r.result? = some result →
        result = .ok () ∧ r.marks = [.logged .info ("intent status from venue echo-venue: " ++
          "Fulfilled (" ++ receipt.length.repr ++ " receipt bytes)")] := by
  have conducted := engine_conducted reach
  -- A handler that returned ran its code to the end.
  have returned : ∀ r result, (k, r) ∈ e.handled → r.result? = some result →
      Exec (guest (components k).module) (Answers P heads e.platform (components k).module)
        (EchoKeeper.handlers.onTrigger r.trigger) [] (.done result) r.marks := by
    intro r result handled done_
    have ran := (conducted.handled k r handled).ran
    rw [keeper] at ran
    unfold Run.result? at done_
    split at done_
    next result' rests =>
      cases done_
      rw [rests] at ran
      exact ran
    next => cases done_
  constructor
  · intro r block result handled trigger done_
    have ran := returned r result handled done_
    rw [trigger] at ran
    exact (block_ends conducted.reach member echo alone named).returns ran
  · intro receipt before who after update item r result split emitted sent handled trigger done_
    have told : Host.Says i.venue receipt .fulfilled update := by
      rcases echo_reports conducted.reach member echo alone split with none_ | ⟨update', one, told⟩
      · rw [none_] at emitted
        cases emitted
      · rw [one] at emitted
        cases List.mem_singleton.mp emitted
        exact told
    have ran := returned r result handled done_
    rw [trigger] at ran
    obtain ⟨ok, marks⟩ := (transition_ends told sent).returns ran
    rw [named] at marks
    refine ⟨ok, marks.trans ?_⟩
    rfl

end Blocks

/-! ## A settled block -/

section Stub

/-- A parser of ids that are neither empty nor padded. -/
local instance : NexumRuntime where
  parse id :=
    match id.toList.head?, id.toList.getLast? with
    | some first, some last => if first.isWhitespace || last.isWhitespace then none else some ⟨id⟩
    | _, _ => none
  parse_asStr := by
    intro id venue parsed
    split at parsed
    next =>
      split at parsed
      next => cases parsed
      next =>
        cases parsed
        rfl
    next => cases parsed

local instance : Texts where
  readError _ := "Unexpected length of input"
  status _ := "IntentStatus::Fulfilled"

def twoCharges : Host.Policy :=
  (Host.VenueRegistryBuilder.new ⟨2, .fromSecs 60⟩).build (2 ^ 64)

def echoKeeper : Component := ⟨"echo-keeper", EchoKeeper.handlers.onTrigger⟩

def block7 : Block := ⟨1, 7, [], 0⟩

def asked (id gates : Nat) : List EngineLabel :=
  List.replicate gates (.platform (.registry (.advance id (.elapsed 0)))) ++
    [.platform (.answer id), .platform (.registry (.advance id (.elapsed 0)))]

def fulfilled7 : Host.ExtensionTrigger :=
  ⟨intentStatusKind, [1, 10, 0, 0, 0, 101, 99, 104, 111, 45, 118, 101, 110, 117, 101, 9, 0, 0, 0, 0,
    7, 0, 0, 0, 0, 0, 0, 0, 4, 0, 0, 0, 1, 2, 0, 0]⟩

/-- A block settles, its receipt is polled, and the transition is delivered. -/
def settling : List EngineLabel :=
  [.platform (.register echoId .echo), .deliver 0 (.block block7), .advance 0] ++
  asked 0 5 ++ [.advance 0, .advance 0, .advance 0] ++
  asked 1 4 ++
  [.platform (.registry (.advance 1 (.verdict .allow))),
    .platform (.registry (.advance 1 (.elapsed 0)))] ++
  [.platform (.answer 1), .platform (.registry (.advance 1 (.elapsed 0))),
    .platform (.registry (.advance 1 (.elapsed 0)))] ++
  [.advance 0, .advance 0, .advance 0] ++
  asked 2 3 ++ [.advance 0, .advance 0, .advance 0] ++
  asked 3 3 ++ [.advance 0, .advance 0, .retire 0] ++
  [.platform (.registry (.spawn .pollStatusTransitions))] ++
  asked 4 4 ++ [.platform (.registry (.advance 4 (.elapsed 0)))] ++
  [.deliver 0 (.extension fulfilled7), .advance 0, .retire 0]

theorem echo_keeper_settles_stub : ∃ (e : Engine) (block told : Run),
    Engine.Reach twoCharges (fun _ => echoKeeper) (fun _ => Flaky.healthyHead) e ∧
    e.handled = [(0, block), (0, told)] ∧
    EchoBlock twoCharges "echo-keeper" block7 block.marks (.ok ()) ∧
    told.marks = [.logged .info
      "intent status from venue echo-venue: Fulfilled (9 receipt bytes)"] := by
  have ran : (Engine.run twoCharges (fun _ => echoKeeper) settling
      (Engine.idle 0 fun _ => Flaky.healthyHead)).map
      (fun e => (e.platform.installed, slotsOf e.platform.pool.log, e.platform.pool.log[17]?,
        Host.emittedIn echoId (EchoKeeper.bodyOf block7)
          (Host.epoch echoId (EchoKeeper.bodyOf block7) (e.platform.pool.log.drop 18)),
        e.handled.map fun x => (x.1, x.2.trigger, x.2.result?))) =
      some ([⟨0, 0, echoId, .echo⟩], [0],
        some ⟨some 1, .inserted echoId (EchoKeeper.bodyOf block7)⟩,
        [⟨"echo-venue", EchoKeeper.bodyOf block7, [1, 2, 0, 0]⟩],
        [(0, .block block7, some (.ok ())), (0, .extension fulfilled7, some (.ok ()))]) := by
    rfl
  obtain ⟨e, reached, same⟩ := Option.map_eq_some_iff.mp ran
  simp only [Prod.mk.injEq] at same
  obtain ⟨installed, slots, inserted, emitted, handled⟩ := same
  have reach : Engine.Reach twoCharges (fun _ => echoKeeper) (fun _ => Flaky.healthyHead) e :=
    .of_run (.start 0) reached
  have member : (⟨0, 0, echoId, .echo⟩ : Installed) ∈ e.platform.installed := by
    rw [installed]
    exact List.mem_cons_self
  have alone : Alone e.platform ⟨0, 0, echoId, .echo⟩ := by
    intro x logged slot liveness registers
    have listed : slot ∈ slotsOf e.platform.pool.log := by
      apply List.mem_filterMap.mpr
      exact ⟨x, logged, by rw [registers]⟩
    rw [slots] at listed
    exact List.mem_singleton.mp listed
  obtain ⟨bound, here⟩ := List.getElem?_eq_some_iff.mp inserted
  have split : e.platform.pool.log = e.platform.pool.log.take 17 ++
      ⟨some 1, .inserted echoId (EchoKeeper.bodyOf block7)⟩ :: e.platform.pool.log.drop 18 := by
    rw [← here, List.getElem_cons_drop, List.take_append_drop]
  -- The two handlers that ended.
  obtain ⟨⟨k, block⟩, later, both, first, rest⟩ := List.map_eq_cons_iff.mp handled
  obtain ⟨⟨j, told⟩, none_, last, second, nothing⟩ := List.map_eq_cons_iff.mp rest
  cases List.map_eq_nil_iff.mp nothing
  rw [last] at both
  simp only [Prod.mk.injEq] at first second
  obtain ⟨rfl, onBlock, settled⟩ := first
  obtain ⟨rfl, onUpdate, logged⟩ := second
  have blockRan : (0, block) ∈ e.handled := by
    rw [both]
    exact List.mem_cons_self
  have toldRan : (0, told) ∈ e.handled := by
    rw [both]
    exact List.mem_cons_of_mem _ List.mem_cons_self
  obtain ⟨blocks, updates⟩ := echo_keeper_settles reach rfl member rfl alone rfl
  have update : (⟨"echo-venue", EchoKeeper.bodyOf block7, [1, 2, 0, 0]⟩ : Wire.IntentStatusUpdate) ∈
      Host.emittedIn echoId (EchoKeeper.bodyOf block7)
        (Host.epoch echoId (EchoKeeper.bodyOf block7) (e.platform.pool.log.drop 18)) := by
    rw [emitted]
    exact List.mem_cons_self
  refine ⟨e, block, told, reach, both, blocks block _ _ blockRan onBlock settled, ?_⟩
  exact (updates _ _ _ _ _ _ told _ split update rfl toldRan onUpdate logged).2

end Stub

end Videre.Worker
