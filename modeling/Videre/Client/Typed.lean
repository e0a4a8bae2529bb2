import Videre.Client.Import
import Videre.Sdk.IntentBody

/-! # The typed client

`VenueClient` over the import: a keeper hands it typed bodies, which cross the wire as
their encoding, and a quote gives back a handle bound to the bytes the venue priced.
The handle is the only way from a quote to a submission and is spent by it. What the
client refuses before the wire never reaches a registry.
-/

namespace Videre.Client

open Interaction Sdk Host

structure Venue where
  id : Sdk.VenueId
  schema : VersionEnum

abbrev Venue.Body (V : Venue) : Type 1 := Sdk.Body V.schema.variants

/-- Why a typed client call failed: before the wire or beyond it. -/
inductive ClientError
  | body (err : BodyError)
  | venue (fault : VenueFault)
  deriving DecidableEq

def guardReceipt (receipt : Bytes) : Except VenueError Unit :=
  if receipt.isEmpty then .error .invalidReceipt else .ok ()

/-- A priced intent: the quotation and the exact bytes it prices. `priced` is the registry
call that priced them, recorded only. -/
structure Quoted where
  bytes : Bytes
  quotation : Quotation
  priced : Flight
  deriving DecidableEq

inductive Request
  | quote (bytes : Bytes)
  | submit (bytes : Bytes)
  | redeem (quoted : Quoted)
  | observe (receipt : Bytes)
  | status (receipt : Bytes)
  | cancel (receipt : Bytes)
  deriving DecidableEq

/-- What a client method returns once its transport has answered. -/
inductive Answer
  | quoted (quoted : Quoted)
  | submitted (outcome : SubmitOutcome)
  | observed
  | status (status : IntentStatus)
  | cancelled

namespace VenueClient

variable {V : Venue}

def encoded (body : V.Body) (request : Bytes → Request) : Except ClientError Request :=
  match V.schema.toBytes body with
  | .ok bytes => .ok (request bytes)
  | .error err => .error (.body err)

def guarded (receipt : Bytes) (request : Bytes → Request) : Except ClientError Request :=
  match guardReceipt receipt with
  | .ok () => .ok (request receipt)
  | .error e => .error (.venue (.ofVenueError e))

def quote (body : V.Body) : Except ClientError Request := encoded body .quote

def submit (body : V.Body) : Except ClientError Request := encoded body .submit

def observe (receipt : Bytes) : Except ClientError Request := .ok (.observe receipt)

def status (receipt : Bytes) : Except ClientError Request := guarded receipt .status

def cancel (receipt : Bytes) : Except ClientError Request := guarded receipt .cancel

end VenueClient

def Quoted.submit (quoted : Quoted) : Except ClientError Request := .ok (.redeem quoted)

namespace Request

def body? : Request → Option Bytes
  | .quote bytes | .submit bytes => some bytes
  | .redeem quoted => some quoted.bytes
  | .observe _ | .status _ | .cancel _ => none

variable (module : String) (venue : Host.VenueId)

def call : Request → Host.Call
  | .quote bytes => .quote module venue bytes
  | .submit bytes => .submit module venue bytes
  | .redeem quoted => .submit module venue quoted.bytes
  | .observe receipt => .observe venue receipt
  | .status receipt => .status venue receipt
  | .cancel receipt => .cancel venue receipt

/-- What the method that made the request returns on a registry's outcome. -/
def receive (flight : Flight) : Request → Host.Outcome → Option (Except ClientError Answer)
  | .quote bytes, .quoted result =>
      some ((result.map fun quotation => .quoted ⟨bytes, quotation, flight⟩).mapError
        fun e => .venue (.ofVenueError e))
  | .submit _, .submitted result | .redeem _, .submitted result =>
      some ((result.map .submitted).mapError fun e => .venue (.ofVenueError e))
  | .observe _, .observed result =>
      some ((result.map fun _ => .observed).mapError fun e => .venue (.ofVenueError e))
  | .status _, .status result =>
      some ((result.map .status).mapError fun e => .venue (.ofVenueError e))
  | .cancel _, .cancelled result =>
      some ((result.map fun _ => .cancelled).mapError fun e => .venue (.ofVenueError e))
  | _, _ => none

end Request

/-- A request that reached a registry, and the body its method was handed. -/
structure Made (V : Venue) where
  flight : Flight
  request : Request
  written : Option V.Body

/-- A keeper module with a typed client, beside the registries of its process. `made` is
recorded only. -/
structure TypedSession (V : Venue) where
  process : Process
  /-- The request whose answer the keeper awaits. -/
  pending : Option (Made V)
  /-- The quotes in the keeper's hands. -/
  quotes : List Quoted
  /-- What the last method returned. -/
  returned : Option (Except ClientError Answer)
  made : List (Made V)

/-- What the keeper does with its client, or its process beside it. -/
inductive TypedLabel (V : Venue)
  | turn (t : Process.Turn)
  | quote (body : V.Body)
  | submit (body : V.Body)
  | redeem (index : Nat)
  | observe (receipt : Bytes)
  | status (receipt : Bytes)
  | cancel (receipt : Bytes)
  /-- The awaited answer comes back. -/
  | land
  /-- A quote goes out of scope. -/
  | discard (index : Nat)
  /-- The module is torn with everything it holds. -/
  | stop

namespace TypedSession

variable {V : Venue}

def idle (process : Process) : TypedSession V := ⟨process, none, [], none, []⟩

variable (P : Nat → Policy) (module : String) [NexumRuntime]

/-- Send what a method asks for, or return its refusal. -/
def send (s : TypedSession V) (written : Option V.Body) :
    Except ClientError Request → TypedSession V
  | .error e => { s with returned := some (.error e) }
  | .ok request =>
      match s.process.dispatch P V.id.id fun id => request.call module id with
      | (.ok flight, process) =>
          { s with
            process := process
            pending := some ⟨flight, request, written⟩
            made := s.made ++ [⟨flight, request, written⟩] }
      | (.error e, process) =>
          { s with process := process, returned := some (.error (.venue (.ofVenueError e))) }

/-- A method call; the keeper awaits one at a time. -/
def ask (s : TypedSession V) (written : Option V.Body) (request : Except ClientError Request) :
    Option (TypedSession V) :=
  match s.pending with
  | none => some (s.send P module written request)
  | some _ => none

/-- Take the answer of the awaited request. A new quote goes into the keeper's hands. -/
def landed (s : TypedSession V) : Option (TypedSession V) :=
  s.pending.bind fun made =>
    (s.process.landed made.flight).bind fun outcome =>
      (made.request.receive made.flight outcome).map fun result =>
        { s with
          pending := none
          quotes := match result with
            | .ok (.quoted quoted) => s.quotes ++ [quoted]
            | _ => s.quotes
          returned := some result }

def step (s : TypedSession V) : TypedLabel V → Option (TypedSession V)
  | .turn t => (s.process.turn P t).map fun process => { s with process := process }
  | .quote body => s.ask P module (some body) (VenueClient.quote body)
  | .submit body => s.ask P module (some body) (VenueClient.submit body)
  | .redeem index =>
      s.quotes[index]?.bind fun quoted =>
        { s with quotes := s.quotes.eraseIdx index }.ask P module none quoted.submit
  | .observe receipt => s.ask P module none (VenueClient.observe receipt)
  | .status receipt => s.ask P module none (VenueClient.status receipt)
  | .cancel receipt => s.ask P module none (VenueClient.cancel receipt)
  | .land => s.landed
  | .discard index => some { s with quotes := s.quotes.eraseIdx index }
  | .stop => some { s with pending := none, quotes := [], returned := none }

/-- The sessions reached from a process whose registries are sound. -/
inductive Reach : TypedSession V → Prop
  | start {process : Process} (sound : process.Sound P) : Reach (idle process)
  | step {s t : TypedSession V} {label : TypedLabel V} (before : Reach s)
      (moves : s.step P module label = some t) : Reach t

def run : List (TypedLabel V) → TypedSession V → Option (TypedSession V)
  | [], s => some s
  | label :: labels, s => (s.step P module label).bind (run labels)

variable {P module} in
theorem Reach.of_run {labels : List (TypedLabel V)} {s t : TypedSession V}
    (before : Reach P module s) (ran : run P module labels s = some t) : Reach P module t := by
  induction labels generalizing s with
  | nil =>
      cases ran
      exact before
  | cons label labels ih =>
      obtain ⟨u, moves, later⟩ := Option.bind_eq_some_iff.mp ran
      exact ih (before.step moves) later

end TypedSession

/-! ## What the client keeps -/

def Request.spends : Request → Option Quoted
  | .redeem quoted => some quoted
  | _ => none

section Recorded

variable {V : Venue}

def spentQuotes (made : List (Made V)) : List Quoted :=
  made.filterMap fun m => m.request.spends

/-- A quote is what a registry call returned for its bytes. -/
def Priced (p : Process) (made : List (Made V)) (quoted : Quoted) : Prop :=
  (∃ body, ⟨quoted.priced, .quote quoted.bytes, body⟩ ∈ made) ∧
    p.landed quoted.priced = some (.quoted (.ok quoted.quotation))

@[reducible] def Made.call (module : String) (m : Made V) : Host.Call :=
  m.request.call module ⟨V.id.id⟩

/-- A request is for this body: its method was handed it, or the method that priced the quote
it redeems was. -/
def Made.IsFor (made : List (Made V)) (m : Made V) (body : V.Body) : Prop :=
  m.written = some body ∨ ∃ quoted, m.request = .redeem quoted ∧
    ⟨quoted.priced, .quote quoted.bytes, some body⟩ ∈ made

/-- A request the client lets cross: its bytes are the encoding of the body it is for, and the
receipt it looks up is not empty. -/
structure Made.WellFormed (made : List (Made V)) (m : Made V) : Prop where
  encoded : ∀ bytes, m.request.body? = some bytes →
    ∃ body, m.IsFor made body ∧ V.schema.toBytes body = .ok bytes
  filled : m.request ≠ .status [] ∧ m.request ≠ .cancel []

theorem Made.WellFormed.grow {made : List (Made V)} {m : Made V} (wellFormed : m.WellFormed made)
    (more : List (Made V)) : m.WellFormed (made ++ more) := by
  refine ⟨?_, wellFormed.filled⟩
  intro bytes crosses
  obtain ⟨body, written | ⟨quoted, redeems, priced⟩, wrote⟩ := wellFormed.encoded bytes crosses
  · exact ⟨body, .inl written, wrote⟩
  · exact ⟨body, .inr ⟨quoted, redeems, List.mem_append_left _ priced⟩, wrote⟩

structure Kept (P : Nat → Policy) (module : String) (s : TypedSession V) : Prop where
  tracked : Tracked P Made.flight (Made.call module) s.process s.made
  wellFormed : ∀ m ∈ s.made, m.WellFormed s.made
  priced : ∀ quoted ∈ s.quotes ++ spentQuotes s.made, Priced s.process s.made quoted
  once : ((s.quotes ++ spentQuotes s.made).map Quoted.priced).Nodup
  after : ∀ m ∈ s.made, ∀ quoted, m.request.spends = some quoted →
    quoted.priced.id < m.flight.id
  awaited : ∀ m, s.pending = some m → m ∈ s.made ∧
    ∀ quoted ∈ s.quotes ++ spentQuotes s.made, quoted.priced.id < m.flight.id

end Recorded

section Keep

variable {P : Nat → Policy} {module : String} {V : Venue} {s t : TypedSession V}

theorem Priced.grow {p q : Process} {made : List (Made V)} {quoted : Quoted}
    (priced : Priced p made quoted) (grows : p.Grows q) (more : List (Made V)) :
    Priced q (made ++ more) quoted := by
  obtain ⟨⟨body, made⟩, landed⟩ := priced
  exact ⟨⟨body, List.mem_append_left _ made⟩, grows.landed _ _ landed⟩

theorem spentQuotes_concat (made : List (Made V)) (m : Made V) :
    spentQuotes (made ++ [m]) = spentQuotes made ++ m.request.spends.toList := by
  rw [spentQuotes, List.filterMap_append]
  cases spends : m.request.spends <;> simp [spentQuotes, spends]

theorem kept_idle {process : Process} (sound : process.Sound P) :
    Kept P module (TypedSession.idle process : TypedSession V) := by
  constructor
  · exact ⟨sound, List.forall_mem_nil _, .nil⟩
  · exact List.forall_mem_nil _
  · exact List.forall_mem_nil _
  · exact .nil
  · exact List.forall_mem_nil _
  · intro m pending
    cases pending

theorem Kept.turn (kept : Kept P module s) {q : Process} (sound : q.Sound P)
    (grows : s.process.Grows q) : Kept P module { s with process := q } where
  tracked := kept.tracked.grow sound grows
  wellFormed := kept.wellFormed
  priced quoted member := by
    have priced := (kept.priced quoted member).grow grows []
    rw [List.append_nil] at priced
    exact priced
  once := kept.once
  after := kept.after
  awaited := kept.awaited

theorem Kept.fewer (kept : Kept P module s) {quotes : List Quoted}
    (fewer : quotes.Sublist s.quotes) {pending : Option (Made V)}
    (same : ∀ m, pending = some m → s.pending = some m)
    (returned : Option (Except ClientError Answer)) :
    Kept P module { s with quotes := quotes, pending := pending, returned := returned } where
  tracked := kept.tracked
  wellFormed := kept.wellFormed
  priced quoted member :=
    kept.priced quoted ((fewer.append_right _).subset member)
  once := ((fewer.append_right _).map _).nodup kept.once
  after := kept.after
  awaited m waits := by
    obtain ⟨made, earlier⟩ := kept.awaited m (same m waits)
    exact ⟨made, fun quoted member => earlier quoted ((fewer.append_right _).subset member)⟩

variable [NexumRuntime]

/-- A request that crosses spends the quote it redeems and no other. -/
theorem Kept.send (kept : Kept P module s) {quotes : List Quoted} {request : Request}
    (fewer : quotes.Sublist s.quotes)
    {written : Option V.Body} (split : (request.spends.toList ++ quotes).Perm s.quotes)
    (wellFormed : ∀ flight, Made.WellFormed s.made ⟨flight, request, written⟩) :
    Kept P module
      (TypedSession.send P module { s with quotes := quotes } written (.ok request)) := by
  cases dispatched : s.process.dispatch P V.id.id fun id => request.call module id with
  | mk answer q =>
      rcases Process.dispatch_cases kept.tracked.sound dispatched with
        ⟨⟨e, rfl⟩, rfl⟩ | ⟨flight, rfl, sound, grows, published, fresh, called, -⟩
      · simp only [TypedSession.send, dispatched]
        exact kept.fewer fewer (fun _ waits => waits) _
      · simp only [TypedSession.send, dispatched]
        have tracked : Tracked P Made.flight (Made.call module) q
            (s.made ++ [⟨flight, request, written⟩]) :=
          kept.tracked.send sound grows published fresh called
        have moved : (quotes ++ spentQuotes (s.made ++ [⟨flight, request, written⟩])).Perm
            (s.quotes ++ spentQuotes s.made) := by
          rw [spentQuotes_concat, ← List.append_assoc]
          apply List.perm_append_comm.trans
          rw [← List.append_assoc]
          exact split.append_right _
        have priced : ∀ quoted ∈ s.quotes ++ spentQuotes s.made,
            Priced q (s.made ++ [⟨flight, request, written⟩]) quoted :=
          fun quoted member => (kept.priced quoted member).grow grows _
        have earlier : ∀ quoted ∈ s.quotes ++ spentQuotes s.made, quoted.priced.id < flight.id := by
          intro quoted member
          obtain ⟨⟨body, made⟩, -⟩ := kept.priced quoted member
          exact (List.pairwise_append.mp tracked.increasing).2.2 _ made _ List.mem_cons_self
        constructor
        · exact tracked
        · intro m member
          rcases List.mem_append.mp member with old | new
          · exact (kept.wellFormed m old).grow _
          · rw [List.mem_singleton.mp new]
            exact (wellFormed flight).grow _
        · intro quoted member
          exact priced quoted (moved.subset member)
        · exact (moved.map Quoted.priced).nodup_iff.mpr kept.once
        · intro m member quoted spends
          rcases List.mem_append.mp member with old | new
          · exact kept.after m old quoted spends
          · rw [List.mem_singleton.mp new] at spends ⊢
            have spends : request.spends = some quoted := spends
            apply earlier quoted (List.mem_append_left _ (split.subset _))
            simp [spends]
        · intro m waits
          cases waits
          exact ⟨List.mem_append_right _ List.mem_cons_self,
            fun quoted member => earlier quoted (moved.subset member)⟩

theorem Kept.ask (kept : Kept P module s) {written : Option V.Body}
    {request : Except ClientError Request}
    (fits : ∀ r, request = .ok r →
      (∀ flight, Made.WellFormed s.made ⟨flight, r, written⟩) ∧ r.spends = none)
    (asked : s.ask P module written request = some t) : Kept P module t := by
  unfold TypedSession.ask at asked
  split at asked
  next free =>
    cases asked
    cases request with
    | error e => exact kept.fewer (List.Sublist.refl _) (fun _ waits => waits) _
    | ok r =>
        obtain ⟨wellFormed, keeps⟩ := fits r rfl
        apply kept.send (List.Sublist.refl _) _ wellFormed
        rw [keeps]
        exact List.Perm.refl _
  next => cases asked

omit [NexumRuntime] in
theorem encoded_fits {made : List (Made V)} {body : V.Body} {request : Bytes → Request}
    {r : Request} (keeps : ∀ bytes, (request bytes).spends = none)
    (carries : ∀ bytes, (request bytes).body? = some bytes)
    (filled : ∀ bytes, request bytes ≠ .status [] ∧ request bytes ≠ .cancel [])
    (encoded : VenueClient.encoded body request = .ok r) :
    (∀ flight, Made.WellFormed made ⟨flight, r, some body⟩) ∧ r.spends = none := by
  unfold VenueClient.encoded at encoded
  split at encoded
  next bytes wrote =>
    cases encoded
    refine ⟨fun flight => ⟨?_, filled bytes⟩, keeps bytes⟩
    intro bytes' crosses
    cases (carries bytes).symm.trans crosses
    exact ⟨body, .inl rfl, wrote⟩
  next => cases encoded

omit [NexumRuntime] in
theorem guarded_fits {made : List (Made V)} {receipt : Bytes} {request : Bytes → Request}
    {r : Request} (keeps : ∀ bytes, (request bytes).spends = none)
    (carries : ∀ bytes, (request bytes).body? = none)
    (filled : receipt ≠ [] → request receipt ≠ .status [] ∧ request receipt ≠ .cancel [])
    (guarded : VenueClient.guarded receipt request = .ok r) :
    (∀ flight, Made.WellFormed made ⟨flight, r, none⟩) ∧ r.spends = none := by
  unfold VenueClient.guarded guardReceipt at guarded
  by_cases empty : receipt.isEmpty = true
  · rw [if_pos empty] at guarded
    cases guarded
  · rw [if_neg empty] at guarded
    cases guarded
    refine ⟨fun flight => ⟨?_, filled ?_⟩, keeps receipt⟩
    · intro bytes crosses
      cases (carries receipt).symm.trans crosses
    · rintro rfl
      exact empty rfl

theorem Kept.redeem (kept : Kept P module s) {index : Nat} {quoted : Quoted}
    (held : s.quotes[index]? = some quoted)
    (asked : TypedSession.ask P module { s with quotes := s.quotes.eraseIdx index } none
      quoted.submit = some t) : Kept P module t := by
  unfold TypedSession.ask at asked
  split at asked
  next free =>
    cases asked
    obtain ⟨bound, here⟩ := List.getElem?_eq_some_iff.mp held
    have member : quoted ∈ s.quotes := List.mem_of_getElem? held
    apply kept.send (List.eraseIdx_sublist _ _)
    · subst here
      exact List.getElem_cons_eraseIdx_perm bound
    · obtain ⟨⟨written, made⟩, -⟩ := kept.priced quoted (List.mem_append_left _ member)
      refine fun flight => ⟨?_, nofun, nofun⟩
      intro bytes crosses
      cases crosses
      obtain ⟨body, here | ⟨_, redeems, _⟩, wrote⟩ :=
        (kept.wellFormed _ made).encoded quoted.bytes rfl
      · cases here
        exact ⟨body, .inr ⟨quoted, rfl, made⟩, wrote⟩
      · cases redeems
  next => cases asked

omit [NexumRuntime] in
theorem quoted_of_receive {flight : Flight} {request : Request} {outcome : Host.Outcome}
    {quoted : Quoted} (received : request.receive flight outcome = some (.ok (.quoted quoted))) :
    request = .quote quoted.bytes ∧ outcome = .quoted (.ok quoted.quotation) ∧
      quoted.priced = flight := by
  unfold Request.receive at received
  split at received
  next bytes result =>
    cases result with
    | ok quotation =>
        cases received
        exact ⟨rfl, rfl, rfl⟩
    | error e => cases received
  next bytes result => cases result <;> cases received
  next quoted' result => cases result <;> cases received
  next receipt result => cases result <;> cases received
  next receipt result => cases result <;> cases received
  next receipt result => cases result <;> cases received
  next => cases received

omit [NexumRuntime] in
/-- The awaited answer brings at most one quote, which nobody held before. -/
theorem Kept.land (kept : Kept P module s) (landed : s.landed = some t) :
    Kept P module t := by
  obtain ⟨m, waits, landed⟩ := Option.bind_eq_some_iff.mp landed
  obtain ⟨outcome, came, landed⟩ := Option.bind_eq_some_iff.mp landed
  obtain ⟨result, received, rfl⟩ := Option.map_eq_some_iff.mp landed
  obtain ⟨made, earlier⟩ := kept.awaited m waits
  have plain : Kept P module
      { s with pending := none, quotes := s.quotes, returned := some result } := by
    apply kept.fewer (List.Sublist.refl _)
    intro m' waits'
    cases waits'
  cases result with
  | error e => exact plain
  | ok answer =>
      cases answer with
      | quoted quoted =>
          obtain ⟨asked, ended, home⟩ := quoted_of_receive received
          have own : Priced s.process s.made quoted := by
            constructor
            · refine ⟨m.written, ?_⟩
              rw [home, ← asked]
              exact made
            · rw [home, came, ended]
          have moved : ((s.quotes ++ [quoted]) ++ spentQuotes s.made).Perm
              (quoted :: (s.quotes ++ spentQuotes s.made)) := by
            rw [List.append_assoc]
            exact List.perm_middle
          constructor
          · exact kept.tracked
          · exact kept.wellFormed
          · intro q member
            rcases List.mem_cons.mp (moved.subset member) with rfl | old
            · exact own
            · exact kept.priced q old
          · apply (moved.map Quoted.priced).nodup_iff.mpr
            rw [List.map_cons, List.nodup_cons]
            refine ⟨?_, kept.once⟩
            intro again
            obtain ⟨q, old, same⟩ := List.mem_map.mp again
            have before := earlier q old
            rw [same, home] at before
            exact Nat.lt_irrefl _ before
          · exact kept.after
          · intro m' waits'
            cases waits'
      | submitted outcome => exact plain
      | observed => exact plain
      | status status => exact plain
      | cancelled => exact plain

theorem Kept.step (kept : Kept P module s) {label : TypedLabel V}
    (moves : s.step P module label = some t) : Kept P module t := by
  cases label with
  | turn t' =>
      obtain ⟨q, turned, rfl⟩ := Option.map_eq_some_iff.mp moves
      obtain ⟨sound, grows⟩ := Process.turn_grows kept.tracked.sound turned
      exact kept.turn sound grows
  | quote body =>
      apply kept.ask _ moves
      intro r asks
      have asks : VenueClient.encoded body .quote = .ok r := asks
      apply encoded_fits (fun _ => rfl) (fun _ => rfl) (fun _ => by simp) asks
  | submit body =>
      apply kept.ask _ moves
      intro r asks
      have asks : VenueClient.encoded body .submit = .ok r := asks
      apply encoded_fits (fun _ => rfl) (fun _ => rfl) (fun _ => by simp) asks
  | redeem index =>
      obtain ⟨quoted, held, asked⟩ := Option.bind_eq_some_iff.mp moves
      exact kept.redeem held asked
  | observe receipt =>
      apply kept.ask _ moves
      intro r asks
      cases asks
      refine ⟨fun flight => ⟨?_, nofun, nofun⟩, rfl⟩
      intro bytes crosses
      cases crosses
  | status receipt =>
      apply kept.ask _ moves
      intro r asks
      have asks : VenueClient.guarded receipt .status = .ok r := asks
      apply guarded_fits (fun _ => rfl) (fun _ => rfl) _ asks
      intro filled
      simpa using filled
  | cancel receipt =>
      apply kept.ask _ moves
      intro r asks
      have asks : VenueClient.guarded receipt .cancel = .ok r := asks
      apply guarded_fits (fun _ => rfl) (fun _ => rfl) _ asks
      intro filled
      simpa using filled
  | land => exact kept.land moves
  | discard index =>
      cases moves
      exact kept.fewer (List.eraseIdx_sublist _ _) (fun _ waits => waits) _
  | stop =>
      cases moves
      apply kept.fewer (List.nil_sublist _)
      intro m waits
      cases waits

theorem kept_reach (reach : TypedSession.Reach P module s) : Kept P module s := by
  induction reach with
  | start sound => exact kept_idle sound
  | step _ moves ih => exact ih.step moves

/-- Whatever the registries do, a keeper's typed client lets cross only bodies that decode at
the venue to what the keeper wrote, and looks up no empty receipt. A quote in the keeper's
hands was given by the adapter, in an earlier call, for exactly the bytes that redeeming it
submits, and no quote is redeemed twice. -/
theorem quoted_body_submitted (exact_ : ∀ p ∈ V.schema.variants, p.Exact)
    (reach : TypedSession.Reach P module s) :
    (∀ m ∈ s.made, (s.process.registries m.flight.registry).calls[m.flight.id]? =
        some (m.request.call module ⟨V.id.id⟩) ∧
      (∀ bytes, m.request.body? = some bytes →
        ∃ body, m.IsFor s.made body ∧ V.schema.toBytes body = .ok bytes ∧
          V.schema.fromBytes bytes = .ok body) ∧
      m.request ≠ .status [] ∧ m.request ≠ .cancel []) ∧
    ((s.quotes ++ spentQuotes s.made).map Quoted.priced).Nodup ∧
    (∀ m ∈ s.made, ∀ quoted, m.request.spends = some quoted →
      quoted.priced.id < m.flight.id) ∧
    ∀ quoted ∈ s.quotes ++ spentQuotes s.made,
      Story (P quoted.priced.registry) (.quote module ⟨V.id.id⟩ quoted.bytes)
        (own quoted.priced.id (s.process.registries quoted.priced.registry).log)
        (.quoted (.ok quoted.quotation)) := by
  have kept := kept_reach reach
  refine ⟨?_, kept.once, kept.after, ?_⟩
  · intro m member
    have fits := kept.wellFormed m member
    refine ⟨(kept.tracked.called m member).2, ?_, fits.filled⟩
    intro bytes crosses
    obtain ⟨body, isFor, wrote⟩ := fits.encoded bytes crosses
    exact ⟨body, isFor, wrote, VersionEnum.fromBytes_toBytes exact_ wrote⟩
  · intro quoted member
    obtain ⟨⟨body, asked⟩, landed⟩ := kept.priced quoted member
    obtain ⟨start, reached⟩ := kept.tracked.sound quoted.priced.registry
    obtain ⟨call, made, point⟩ := tells_thread reached (thread_of_outcomeOf landed)
    rw [(kept.tracked.called _ asked).2] at made
    cases made
    exact point.returned _ rfl

end Keep

/-! ## A small client -/

open scoped PlainIds

def stubTyped : Venue := ⟨⟨"stub"⟩, stubSchema⟩

def stubQuotation : Quotation :=
  ⟨⟨.native, [1]⟩, ⟨.native, [1]⟩, ⟨.native, []⟩, 1000⟩

def pricing : Schedule :=
  throughGate 0 ++ [.advance 0 (.elapsed 0), .advance 0 (.elapsed 0), .advance 0 (.elapsed 0),
    .advance 0 (.reply (.quotation (.ok stubQuotation))), .advance 0 (.elapsed 0)]

/-- The keeper prices a body, takes the quote and redeems it. -/
def redeemedQuote : List (TypedLabel stubTyped) :=
  [.turn (.publish 0), .turn (.registry 0 (.host (.register ⟨"stub"⟩ 0 ∅))),
    .quote (.next (.this [7, 8]))] ++
  pricing.map (fun label => .turn (.registry 0 label)) ++
  [.land, .redeem 0]

theorem quoted_body_submitted_stub : ∃ (s : TypedSession stubTyped) (quoted : Quoted),
    TypedSession.Reach (fun _ => oneCharge) "keeper" s ∧
    quoted ∈ spentQuotes s.made ∧ quoted.bytes = [1, 2, 0, 0, 0, 7, 8] ∧
    Story oneCharge (.quote "keeper" ⟨"stub"⟩ quoted.bytes)
      (own quoted.priced.id (s.process.registries quoted.priced.registry).log)
      (.quoted (.ok quoted.quotation)) := by
  have ran : (TypedSession.run (fun _ => oneCharge) "keeper" redeemedQuote
      (TypedSession.idle stubProcess)).map (fun s => (spentQuotes s.made).map Quoted.bytes) =
      some [[1, 2, 0, 0, 0, 7, 8]] := by
    decide
  obtain ⟨s, reached, spent⟩ := Option.map_eq_some_iff.mp ran
  have reach : TypedSession.Reach (fun _ => oneCharge) "keeper" s :=
    .of_run (.start fun _ => ⟨0, .start⟩) reached
  have exact_ : ∀ p ∈ stubTyped.schema.variants, p.Exact := by
    intro p member
    rcases List.mem_cons.mp member with rfl | member
    · exact Payload.ofFormat_exact _
    · rw [List.mem_singleton.mp member]
      exact Payload.ofFormat_exact _
  obtain ⟨-, -, -, priced⟩ := quoted_body_submitted exact_ reach
  have there : [1, 2, 0, 0, 0, 7, 8] ∈ (spentQuotes s.made).map Quoted.bytes := by
    rw [spent]
    exact List.mem_cons_self
  obtain ⟨quoted, member, bytes⟩ := List.mem_map.mp there
  exact ⟨s, quoted, reach, member, bytes, priced quoted (List.mem_append_right _ member)⟩

end Videre.Client
