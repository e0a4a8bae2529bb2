import Videre.Interaction.Life
import Videre.Sdk.Journal
import Videre.Sdk.MemStore

/-! # The life of an order

What a host does with one submission key is an automaton of four states: nothing
recorded, a stranded reservation, a reservation in the hand of a call, and committed.
A tear takes the reservation out of the call's hand and changes nothing else. A host
of any calls refines it key by key: the events of a key are a life of its order, and
the marker is the one of the state the life comes to.
-/

namespace Videre.Sdk

open Interaction Relation

/-- How far a call is with the order in its hand. -/
inductive Stage
  | reserving
  | asked (pass : Pass)
  | answered (pass : Pass) (result : SubmitResult)

inductive OrderState
  | absent
  | stranded (nextEligible : UInt64) (body : Bytes)
  | inHand (call : Call) (stage : Stage) (nextEligible : UInt64) (body : Bytes)
  | committed

namespace OrderState

def marker : OrderState → Option Marker
  | .absent => none
  | .stranded nextEligible body | .inHand _ _ nextEligible body =>
      some (.reserved nextEligible body)
  | .committed => some .committed

/-- A marker as the next host finds it. -/
def found : Option Marker → OrderState
  | none => .absent
  | some (.reserved nextEligible body) => .stranded nextEligible body
  | some .committed => .committed

theorem marker_found (m : Option Marker) : (found m).marker = m := by
  cases m with
  | none => rfl
  | some m =>
      cases m with
      | reserved nextEligible body => rfl
      | committed => rfl

end OrderState

/-- The call is torn and the reservation stays. -/
inductive Tears : OrderState → OrderState → Prop
  | torn {c : Call} {stage : Stage} {n : UInt64} {body : Bytes} :
      Tears (.inHand c stage n body) (.stranded n body)

section Edges

variable [NexumSdk] (calls : Call → Prop) (fresh : UInt64) (key : String)

/-- What a call of `calls` may do with the order. -/
inductive Edge : OrderState → Event → OrderState → Prop
  | reserve {c : Call} {body : Bytes} (made : calls c)
      (own : key = submissionKey c.keeper.venue body) :
      Edge .absent (.wrote c.keeper.venue (.reserve key body)) (.inHand c .reserving fresh body)
  | post {c : Call} {n : UInt64} {body : Bytes} {placed : Bool} :
      Edge (.inHand c .reserving n body) (.posted .commitments c.keeper.venue key body placed)
        (.inHand c (.asked .commitments) n body)
  | repost {c : Call} {n : UInt64} {body : Bytes} {placed : Bool} (made : calls c)
      (due : n ≤ c.tick.epochS) :
      Edge (.stranded n body) (.posted .reconcile c.keeper.venue key body placed)
        (.inHand c (.asked .reconcile) n body)
  | answer {c : Call} {pass : Pass} {n : UInt64} {body : Bytes} {result : SubmitResult} :
      Edge (.inHand c (.asked pass) n body) (.answered pass c.keeper.venue key body result)
        (.inHand c (.answered pass result) n body)
  | commit {c : Call} {pass : Pass} {n : UInt64} {body receipt : Bytes} :
      Edge (.inHand c (.answered pass (.ok (.accepted receipt))) n body)
        (.wrote c.keeper.venue (.commit key)) .committed
  | release {c : Call} {pass : Pass} {n : UInt64} {body : Bytes} {result : SubmitResult}
      (released : releases c.keeper.faultPolicy pass result = true) :
      Edge (.inHand c (.answered pass result) n body) (.wrote c.keeper.venue (.release key)) .absent
  | park {c : Call} {n : UInt64} {body : Bytes} {ms : UInt64}
      (kept : c.keeper.faultPolicy.isTerminal (.rateLimited (some ms)) = false) :
      Edge (.inHand c (.answered .reconcile (.error (.rateLimited (some ms)))) n body)
        (.wrote c.keeper.venue
          (.park key body (saturatingAdd c.tick.epochS (divCeil ms 1000))))
        (.stranded (saturatingAdd c.tick.epochS (divCeil ms 1000)) body)

end Edges

def concerning (key : String) (es : List Event) : List Event :=
  es.filter fun e => e.key? == some key

theorem concerning_append (key : String) (es es' : List Event) :
    concerning key (es ++ es') = concerning key es ++ concerning key es' :=
  List.filter_append ..

theorem concerning_self {key : String} {e : Event} (own : e.key? = some key) :
    concerning key [e] = [e] := by
  simp [concerning, own]

def Event.stage : Event → Stage
  | .posted pass _ _ _ _ => .asked pass
  | .answered pass _ _ _ result => .answered pass result
  | _ => .reserving

theorem Event.key?_under {e : Event} {key : String} {body : Bytes}
    (under : e.under = some (key, body)) : e.key? = some key := by
  cases e with
  | polled c outcome => cases under
  | posted pass venue key body placed =>
      cases under
      rfl
  | answered pass venue key body result =>
      cases under
      rfl
  | wrote venue jw =>
      cases jw with
      | reserve key body =>
          cases under
          rfl
      | _ => cases under

section Hosts

variable {S : Type} [KeeperStores S] [NexumSdk]
  {R : Rely Op (World S) (Input (KeeperStores.Edit S))} {G : Call → World S → Prop}

def Made (G : Call → World S → Prop) (c : Call) : Prop :=
  ∃ w, G c w

/-- Since `w` the key's order lived a life that comes to `s`. -/
structure Lived (G : Call → World S → Prop) (key : String) (w v : World S) (s : OrderState) :
    Prop where
  log : v.log = w.log ++ since w v
  life : Life (Edge (Made G) (KeeperStores.fresh S) key) Tears
    (.found (KeeperStores.marker w.store key)) (concerning key (since w v)) s
  marker : KeeperStores.marker v.store key = s.marker

section Path

variable {key : String} {w w₀ v v' : World S} {c : Call} {s s' : OrderState}

theorem lived_start (key : String) (w : World S) :
    Lived G key w w (.found (KeeperStores.marker w.store key)) := by
  constructor
  · rw [since_start, List.append_nil]
  · rw [since_start]
    exact .start
  · rw [OrderState.marker_found]

/-- Events of other keys leave an order where it is. -/
theorem Lived.beside (lived : Lived G key w v s) {es : List Event} (grown : v'.log = v.log ++ es)
    (other : ∀ e ∈ es, e.key? ≠ some key)
    (same : KeeperStores.marker v'.store key = KeeperStores.marker v.store key) :
    Lived G key w v' s := by
  obtain ⟨split, log⟩ := since_later lived.log grown
  have none_own : concerning key es = [] := by
    rw [concerning, List.filter_eq_nil_iff]
    intro e member
    simpa using other e member
  constructor
  · exact log
  · rw [split, concerning_append, none_own, List.append_nil]
    exact lived.life
  · rw [same, lived.marker]

theorem Lived.read (lived : Lived G key w v s) {e : Event} (grown : v'.log = v.log ++ [e])
    (own : e.key? = some key)
    (reads : Edge (Made G) (KeeperStores.fresh S) key s e s')
    (shows : KeeperStores.marker v'.store key = s'.marker) : Lived G key w v' s' := by
  obtain ⟨split, log⟩ := since_later lived.log grown
  constructor
  · exact log
  · rw [split, concerning_append, concerning_self own]
    exact lived.life.read reads
  · exact shows

theorem Lived.torn (lived : Lived G key w v s) {n : UInt64} {body : Bytes}
    (reserved : KeeperStores.marker v.store key = some (.reserved n body)) :
    Lived G key w v (.stranded n body) := by
  have shows := lived.marker.symm.trans reserved
  cases s with
  | absent => cases shows
  | stranded n' body' =>
      cases shows
      exact lived
  | inHand c stage n' body' =>
      cases shows
      exact ⟨lived.log, lived.life.rest .torn, reserved⟩
  | committed => cases shows

/-- An order whose last event is the call's last is in the call's hand. -/
def InHand (c : Call) (key : String) (w₀ v : World S) (s : OrderState) : Prop :=
  ∀ e body, (since w₀ v).getLast? = some e → e.under = some (key, body) →
    ∃ n, s = .inHand c e.stage n body

omit [KeeperStores S] [NexumSdk] in
theorem inHand_of_last {e : Event} (last : (since w₀ v).getLast? = some e)
    (here : ∀ body, e.under = some (key, body) → ∃ n, s = .inHand c e.stage n body) :
    InHand c key w₀ v s := by
  intro e' body last' under
  rw [last] at last'
  cases last'
  exact here body under

/-- The edge that the write owed for an answer takes. -/
theorem owed_edge (calls : Call → Prop) (fresh n : UInt64) {body : Bytes} {pass : Pass}
    {result : SubmitResult} {jw : JournalWrite}
    (owes : owed c.keeper.faultPolicy c.tick key body pass result = some jw) :
    ∃ s, Edge calls fresh key (.inHand c (.answered pass result) n body)
      (.wrote c.keeper.venue jw) s ∧ jw.leaves fresh = s.marker := by
  unfold owed at owes
  by_cases released : releases c.keeper.faultPolicy pass result = true
  · rw [if_pos released] at owes
    cases owes
    exact ⟨.absent, .release released, rfl⟩
  · rw [if_neg released] at owes
    split at owes
    next outcome =>
      cases owes
      cases outcome with
      | accepted receipt => exact ⟨.committed, .commit, rfl⟩
      | requiresSigning tx =>
          cases pass with
          | reconcile => exact absurd rfl released
          | commitments => exact absurd rfl released
    next ms =>
      cases owes
      cases pass with
      | reconcile => exact ⟨_, .park (Bool.eq_false_iff.mpr released), rfl⟩
      | commitments => exact absurd rfl released
    next => cases owes

/-! An order whose key a step concerns. -/

theorem Lived.reserve {body : Bytes} (lived : Lived G (submissionKey c.keeper.venue body) w v s)
    (made : Made G c) (path : Path R c.keeper c.tick w₀ v)
    (unmarked : KeeperStores.marker v.store (submissionKey c.keeper.venue body) = none) :
    ∃ s', Lived G (submissionKey c.keeper.venue body) w
        (v.write c.keeper.venue (.reserve (submissionKey c.keeper.venue body) body)) s' ∧
      InHand c (submissionKey c.keeper.venue body) w₀
        (v.write c.keeper.venue (.reserve (submissionKey c.keeper.venue body) body)) s' := by
  have empty := lived.marker.symm.trans unmarked
  cases s with
  | absent =>
      refine ⟨_, lived.read rfl rfl (.reserve made rfl) (World.marker_reserve ..), ?_⟩
      apply inHand_of_last (path.last_write _)
      intro body' under
      cases under
      exact ⟨_, rfl⟩
  | stranded n body' => cases empty
  | inHand c' stage n body' => cases empty
  | committed => cases empty

theorem Lived.post (lived : Lived G key w v s) (hand : InHand c key w₀ v s)
    (path : Path R c.keeper c.tick w₀ v) {body : Bytes} (placed : Bool)
    (reserved : (since w₀ v).getLast? = some (.wrote c.keeper.venue (.reserve key body))) :
    ∃ s', Lived G key w (v.record (.posted .commitments c.keeper.venue key body placed)) s' ∧
      InHand c key w₀ (v.record (.posted .commitments c.keeper.venue key body placed)) s' := by
  obtain ⟨n, rfl⟩ := hand _ body reserved rfl
  refine ⟨_, lived.read rfl rfl .post lived.marker, ?_⟩
  apply inHand_of_last (path.last_record _)
  intro body' under
  cases under
  exact ⟨n, rfl⟩

/-- A stranded order that is due is resubmitted by the call that found it. -/
theorem Lived.repost {r : Reservation} (lived : Lived G r.key w v s) (made : Made G c)
    (path : Path R c.keeper c.tick w₀ v) (placed : Bool)
    (listed : r ∈ share w₀.store c.tick c.keeper.maxPerTick)
    (untouched : ∀ e ∈ since w₀ v, e.key? ≠ some r.key) :
    ∃ s', Lived G r.key w
        (v.record (.posted .reconcile c.keeper.venue r.key r.body placed)) s' ∧
      InHand c r.key w₀ (v.record (.posted .reconcile c.keeper.venue r.key r.body placed)) s' := by
  have reserved := (path.frame untouched).trans (marker_of_share listed)
  have due : r.nextEligible ≤ c.tick.epochS := by
    have eligible := (List.mem_filter.mp (List.mem_of_mem_take listed)).2
    simpa [Reservation.eligible] using eligible
  have torn := lived.torn reserved
  refine ⟨_, torn.read rfl rfl (.repost made due) torn.marker, ?_⟩
  apply inHand_of_last (path.last_record _)
  intro body' under
  cases under
  exact ⟨_, rfl⟩

theorem Lived.answer (lived : Lived G key w v s) (hand : InHand c key w₀ v s)
    (path : Path R c.keeper c.tick w₀ v) {pass : Pass} {body : Bytes} {placed : Bool}
    (result : SubmitResult)
    (posted : (since w₀ v).getLast? = some (.posted pass c.keeper.venue key body placed)) :
    ∃ s', Lived G key w (v.record (.answered pass c.keeper.venue key body result)) s' ∧
      InHand c key w₀ (v.record (.answered pass c.keeper.venue key body result)) s' := by
  obtain ⟨n, rfl⟩ := hand _ body posted rfl
  refine ⟨_, lived.read rfl rfl .answer lived.marker, ?_⟩
  apply inHand_of_last (path.last_record _)
  intro body' under
  cases under
  exact ⟨n, rfl⟩

theorem Lived.settle (lived : Lived G key w v s) (hand : InHand c key w₀ v s)
    (path : Path R c.keeper c.tick w₀ v) {pass : Pass} {body : Bytes} {result : SubmitResult}
    {jw : JournalWrite}
    (answered : (since w₀ v).getLast? = some (.answered pass c.keeper.venue key body result))
    (owes : owed c.keeper.faultPolicy c.tick key body pass result = some jw) :
    ∃ s', Lived G key w (v.write c.keeper.venue jw) s' ∧
      InHand c key w₀ (v.write c.keeper.venue jw) s' := by
  obtain ⟨n, rfl⟩ := hand _ body answered rfl
  obtain ⟨s', edge, leaves⟩ := owed_edge (Made G) (KeeperStores.fresh S) n owes
  have same := owed_key owes
  have shows : KeeperStores.marker (v.write c.keeper.venue jw).store key = s'.marker := by
    rw [← leaves, ← same]
    exact marker_write_self jw v.store
  refine ⟨s', lived.read rfl (congrArg some same) edge shows, ?_⟩
  apply inHand_of_last (path.last_write _)
  intro body' under
  rcases owed_cases owes with ⟨rfl, _⟩ | ⟨rfl, _⟩ | ⟨_, rfl⟩
  · cases under
  · cases under
  · cases under

/-- Along a call's path an order keeps to its life. -/
theorem Lived.step (lived : Lived G key w v s) (hand : InHand c key w₀ v s) (made : Made G c)
    (path : Path R c.keeper c.tick w₀ v) (step : Step R c.keeper c.tick w₀ v v') :
    ∃ s', Lived G key w v' s' ∧ InHand c key w₀ v' s' := by
  have beside : ∀ e : Event, v'.log = v.log ++ [e] → e.key? ≠ some key →
      KeeperStores.marker v'.store key = KeeperStores.marker v.store key →
      ∃ s', Lived G key w v' s' ∧ InHand c key w₀ v' s' := by
    intro e grown other same
    refine ⟨s, lived.beside grown (by simpa using other) same, ?_⟩
    apply inHand_of_last (e := e)
    · rw [path.since_append grown, List.getLast?_concat]
    · intro body under
      exact absurd (Event.key?_under under) other
  cases step with
  | store st same =>
      refine ⟨s, lived.beside (List.append_nil _).symm (List.forall_mem_nil _) (same key), ?_⟩
      exact hand
  | poll rests swept rely =>
      exact beside _ rfl (by simp [Event.key?]) (World.edited_marker _ _ _)
  | @reserve cm body asked unmarked =>
      by_cases own : submissionKey c.keeper.venue body = key
      · subst own
        exact lived.reserve made path unmarked
      · exact beside _ rfl (fun h => own (Option.some.inj h)) (World.marker_reserve_other v _ own)
  | @post key' body placed reserved own rely =>
      by_cases mine : key' = key
      · subst mine
        exact lived.post hand path placed reserved
      · exact beside _ rfl (fun h => mine (Option.some.inj h)) rfl
  | @repost r placed listed untouched rests rely =>
      by_cases mine : r.key = key
      · subst mine
        exact lived.repost made path placed listed untouched
      · exact beside _ rfl (fun h => mine (Option.some.inj h)) rfl
  | @answer pass key' body placed result posted rely =>
      by_cases mine : key' = key
      · subst mine
        exact lived.answer hand path result posted
      · exact beside _ rfl (fun h => mine (Option.some.inj h)) rfl
  | @settle pass key' body result jw answered owes =>
      by_cases mine : key' = key
      · subst mine
        exact lived.settle hand path answered owes
      · have other : jw.key ≠ key := by
          rw [owed_key owes]
          exact mine
        exact beside _ rfl (fun h => other (Option.some.inj h)) (marker_write_other other.symm)

/-- A call's path leads an order along its life. -/
theorem Lived.path (lived : Lived G key w w₀ s) (made : Made G c)
    (path : Path R c.keeper c.tick w₀ v) :
    ∃ s', Lived G key w v s' ∧ InHand c key w₀ v s' := by
  induction path with
  | refl =>
      refine ⟨s, lived, ?_⟩
      intro e body last
      rw [since_start] at last
      cases last
  | tail before step ih =>
      obtain ⟨s', lived', hand⟩ := ih
      exact lived'.step hand made before step

end Path

/-! ## What a life shows -/

def replay (fresh : UInt64) (init : Option Marker) (es : List Event) : Option Marker :=
  es.foldl (fun m e => match e with
    | .wrote _ jw => jw.leaves fresh
    | _ => m) init

omit [NexumSdk] in
theorem replay_concat (fresh : UInt64) (init : Option Marker) (es : List Event) (e : Event) :
    replay fresh init (es ++ [e]) = replay fresh (replay fresh init es) [e] :=
  List.foldl_append ..

/-- What may follow in the events of a key: nothing once it is committed, and otherwise a
reservation, the POST of a fresh reservation or of a stranded one that is due, the answer to the
last POST, or the write the last answer calls for. -/
def OrderLaw (calls : Call → Prop) (fresh : UInt64) (init : Option Marker) (past : List Event) :
    Event → Prop
  | .polled _ _ => False
  | .posted .commitments venue key body _ =>
      past.getLast? = some (.wrote venue (.reserve key body))
  | .posted .reconcile venue _ body _ =>
      ∃ c n, calls c ∧ c.keeper.venue = venue ∧ n ≤ c.tick.epochS ∧
        replay fresh init past = some (.reserved n body)
  | .answered pass venue key body _ =>
      ∃ placed, past.getLast? = some (.posted pass venue key body placed)
  | .wrote venue (.reserve key body) =>
      key = submissionKey venue body ∧ replay fresh init past = none
  | .wrote venue (.commit key) =>
      ∃ pass body receipt,
        past.getLast? = some (.answered pass venue key body (.ok (.accepted receipt)))
  | .wrote venue (.release key) =>
      ∃ c pass body result, calls c ∧ releases c.keeper.faultPolicy pass result = true ∧
        past.getLast? = some (.answered pass venue key body result)
  | .wrote venue (.park key body n) =>
      ∃ c ms, calls c ∧ n = saturatingAdd c.tick.epochS (divCeil ms 1000) ∧
        past.getLast? =
          some (.answered .reconcile venue key body (.error (.rateLimited (some ms))))

section Shows

variable {calls : Call → Prop} {fresh : UInt64} {key : String} {init : Option Marker}
  {past : List Event} {s s' : OrderState} {e : Event}

/-- The marker is replayed from the key's writes, and an order is in the hand of a call whose
last event it is. -/
structure Shows (calls : Call → Prop) (fresh : UInt64) (key : String) (init : Option Marker)
    (past : List Event) (s : OrderState) : Prop where
  marker : s.marker = replay fresh init past
  last : ∀ c stage n body, s = .inHand c stage n body → calls c ∧
    ∃ e, past.getLast? = some e ∧ e.venue? = some c.keeper.venue ∧
      e.under = some (key, body) ∧ e.stage = stage

omit [NexumSdk] in
theorem last_reserved {body : Bytes} {venue : VenueId} (at_venue : e.venue? = some venue)
    (under : e.under = some (key, body)) (stage : e.stage = .reserving) :
    e = .wrote venue (.reserve key body) := by
  cases e with
  | polled c outcome => cases under
  | posted pass venue' key' body' placed => cases stage
  | answered pass venue' key' body' result => cases stage
  | wrote venue' jw =>
      cases at_venue
      cases jw with
      | reserve key' body' =>
          cases under
          rfl
      | _ => cases under

omit [NexumSdk] in
theorem last_posted {body : Bytes} {venue : VenueId} {pass : Pass}
    (at_venue : e.venue? = some venue) (under : e.under = some (key, body))
    (stage : e.stage = .asked pass) : ∃ placed, e = .posted pass venue key body placed := by
  cases e with
  | polled c outcome => cases under
  | posted pass' venue' key' body' placed =>
      cases at_venue
      cases under
      cases stage
      exact ⟨placed, rfl⟩
  | answered pass venue' key' body' result => cases stage
  | wrote venue' jw => cases stage

omit [NexumSdk] in
theorem last_answered {body : Bytes} {venue : VenueId} {pass : Pass} {result : SubmitResult}
    (at_venue : e.venue? = some venue) (under : e.under = some (key, body))
    (stage : e.stage = .answered pass result) : e = .answered pass venue key body result := by
  cases e with
  | polled c outcome => cases under
  | posted pass' venue' key' body' placed => cases stage
  | answered pass' venue' key' body' result' =>
      cases at_venue
      cases under
      cases stage
      rfl
  | wrote venue' jw => cases stage

omit [NexumSdk] in
theorem Shows.tear (shows : Shows calls fresh key init past s) (tears : Tears s s') :
    Shows calls fresh key init past s' := by
  cases tears with
  | torn =>
      constructor
      · exact shows.marker
      · intro c stage n body same
        cases same

theorem Shows.open (shows : Shows calls fresh key init past s)
    (edge : Edge calls fresh key s e s') : replay fresh init past ≠ some .committed := by
  rw [← shows.marker]
  cases edge <;> simp [OrderState.marker]

/-- Every edge keeps to the law and shows what it did. -/
theorem Shows.read (shows : Shows calls fresh key init past s)
    (edge : Edge calls fresh key s e s') :
    OrderLaw calls fresh init past e ∧ Shows calls fresh key init (past ++ [e]) s' := by
  have settled : s'.marker = replay fresh (replay fresh init past) [e] →
      (∀ c stage n body, s' ≠ .inHand c stage n body) →
      Shows calls fresh key init (past ++ [e]) s' := by
    intro same idle
    constructor
    · rw [replay_concat, same]
    · intro c stage n body there
      exact absurd there (idle c stage n body)
  have holds : ∀ c stage n body, s' = .inHand c stage n body → calls c →
      e.venue? = some c.keeper.venue → e.under = some (key, body) → e.stage = stage →
      s'.marker = replay fresh (replay fresh init past) [e] →
      Shows calls fresh key init (past ++ [e]) s' := by
    intro c stage n body there made at_venue under on_stage same
    constructor
    · rw [replay_concat, same]
    · intro c' stage' n' body' there'
      rw [there] at there'
      cases there'
      exact ⟨made, e, List.getLast?_concat, at_venue, under, on_stage⟩
  have marked := shows.marker
  cases edge with
  | reserve made own => exact ⟨⟨own, marked.symm⟩, holds _ _ _ _ rfl made rfl rfl rfl rfl⟩
  | post =>
      obtain ⟨made, e, last, at_venue, under, stage⟩ := shows.last _ _ _ _ rfl
      rw [last_reserved at_venue under stage] at last
      exact ⟨last, holds _ _ _ _ rfl made rfl rfl rfl marked⟩
  | @repost c n body placed made due =>
      exact ⟨⟨c, n, made, rfl, due, marked.symm⟩, holds _ _ _ _ rfl made rfl rfl rfl marked⟩
  | answer =>
      obtain ⟨made, e, last, at_venue, under, stage⟩ := shows.last _ _ _ _ rfl
      obtain ⟨placed, posted⟩ := last_posted at_venue under stage
      rw [posted] at last
      exact ⟨⟨placed, last⟩, holds _ _ _ _ rfl made rfl rfl rfl marked⟩
  | @commit c pass n body receipt =>
      obtain ⟨made, e, last, at_venue, under, stage⟩ := shows.last _ _ _ _ rfl
      rw [last_answered at_venue under stage] at last
      refine ⟨⟨pass, body, receipt, last⟩, settled rfl ?_⟩
      intro c' stage' n' body' there
      cases there
  | @release c pass n body result released =>
      obtain ⟨made, e, last, at_venue, under, stage⟩ := shows.last _ _ _ _ rfl
      rw [last_answered at_venue under stage] at last
      refine ⟨⟨c, pass, body, result, made, released, last⟩, settled rfl ?_⟩
      intro c' stage' n' body' there
      cases there
  | @park c n body ms kept =>
      obtain ⟨made, e, last, at_venue, under, stage⟩ := shows.last _ _ _ _ rfl
      rw [last_answered at_venue under stage] at last
      refine ⟨⟨c, ms, made, rfl, last⟩, settled rfl ?_⟩
      intro c' stage' n' body' there
      cases there

end Shows

/-- In every reachable host the events of a key since the start are a life of its order, and
its marker is the one of the state that life comes to. -/
theorem host_lives {w : World S} {h : Host S} (reach : Reaches R G (Host.idle w) h)
    (key : String) : ∃ s, Lived G key w h.world s := by
  apply reach.by_calls (I := fun v => ∃ s, Lived G key w v s) ⟨_, lived_start key w⟩
  · intro v edits lived
    obtain ⟨s, lived⟩ := lived
    exact ⟨s, lived.beside (List.append_nil _).symm (List.forall_mem_nil _)
      (World.edited_marker v edits key)⟩
  · intro c w₀ v allowed lived path
    obtain ⟨s, lived⟩ := lived
    obtain ⟨s', lived', _⟩ := lived.path ⟨w₀, allowed⟩ path
    exact ⟨s', lived'⟩

/-- However a host's calls interleave with crashes, faults and edits of its store, the events of
a submission key since the start are a life of its order: the marker is the one of the state
that life comes to, it is replayed from the key's journal writes alone, and nothing happens to a
key but a reservation, the POST of a fresh reservation or of a stranded one that is due with the
body reserved, the answer to the last POST, and the write that answer calls for. -/
theorem order_lives {w : World S} {h : Host S} (reach : Reaches R G (Host.idle w) h)
    (key : String) :
    (∃ s, Life (Edge (Made G) (KeeperStores.fresh S) key) Tears
        (.found (KeeperStores.marker w.store key)) (concerning key (since w h.world)) s ∧
      KeeperStores.marker h.world.store key = s.marker) ∧
    KeeperStores.marker h.world.store key =
      replay (KeeperStores.fresh S) (KeeperStores.marker w.store key)
        (concerning key (since w h.world)) ∧
    Lawful (fun past e =>
        replay (KeeperStores.fresh S) (KeeperStores.marker w.store key) past ≠ some .committed ∧
          OrderLaw (Made G) (KeeperStores.fresh S) (KeeperStores.marker w.store key) past e)
      (concerning key (since w h.world)) := by
  obtain ⟨s, lived⟩ := host_lives reach key
  have start : Shows (Made G) (KeeperStores.fresh S) key (KeeperStores.marker w.store key) []
      (.found (KeeperStores.marker w.store key)) := by
    constructor
    · exact OrderState.marker_found _
    · intro c stage n body there
      cases found : KeeperStores.marker w.store key with
      | none =>
          rw [found] at there
          cases there
      | some m =>
          rw [found] at there
          cases m <;> cases there
  have shown := lived.life.invariant start (fun _ _ _ shows tears => shows.tear tears)
    (fun _ _ _ _ shows edge => (shows.read edge).2)
  refine ⟨⟨s, lived.life, lived.marker⟩, lived.marker.trans shown.marker, ?_⟩
  exact lived.life.lawful start (fun _ _ _ shows tears => shows.tear tears)
    (fun _ _ _ _ shows edge => ⟨⟨shows.open edge, (shows.read edge).1⟩, (shows.read edge).2⟩)

end Hosts

open scoped MemStore

def resubmittedSweep : List (Input MemStore.Edit) :=
  [.ok, .sent true, .answered (.ok (.accepted [165, 90])), .ok]

/-- A sweep torn with its POST out, and one that resolves what it left. -/
def tornThenResolved : World MemStore :=
  lived anyRely anyCall [(.run stubKeeper stubTick, strandedSweep),
    (.run stubKeeper stubTick, resubmittedSweep)] stubWorld

def stubKey : String := submissionKey stubKeeper.venue stubBody

theorem order_lives_stub : ∃ s,
    Life (Edge (Made anyCall) 0 stubKey) Tears .absent
      [.wrote stubKeeper.venue (.reserve stubKey stubBody),
        .posted .commitments stubKeeper.venue stubKey stubBody false,
        .posted .reconcile stubKeeper.venue stubKey stubBody true,
        .answered .reconcile stubKeeper.venue stubKey stubBody (.ok (.accepted [165, 90])),
        .wrote stubKeeper.venue (.commit stubKey)] s ∧
      s.marker = some .committed := by
  have reach : Reaches anyRely anyCall (Host.idle stubWorld) (Host.idle tornThenResolved) :=
    Reaches.lived (fun _ _ _ any => any) (by decide)
  obtain ⟨s, life, shows⟩ := (order_lives reach stubKey).1
  have events : concerning stubKey (since stubWorld (Host.idle tornThenResolved).world) =
      [.wrote stubKeeper.venue (.reserve stubKey stubBody),
        .posted .commitments stubKeeper.venue stubKey stubBody false,
        .posted .reconcile stubKeeper.venue stubKey stubBody true,
        .answered .reconcile stubKeeper.venue stubKey stubBody (.ok (.accepted [165, 90])),
        .wrote stubKeeper.venue (.commit stubKey)] := by
    decide
  have committed : KeeperStores.marker (Host.idle tornThenResolved).world.store stubKey =
      some .committed := by
    decide
  rw [events] at life
  exact ⟨s, life, shows.symm.trans committed⟩

end Videre.Sdk
