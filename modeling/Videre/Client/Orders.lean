import Videre.Client.Session

/-! # Committed orders were accepted by their venue

From the journal to the adapter: the commit writes of a keeper are, in order, the
acceptances that distinct registry calls brought back from the adapter behind the
venue, each for the body the order's key was made of, and each the last submit the
keeper made for its order.
-/

namespace Videre

open Interaction

namespace Sdk

/-! ## What a protocol step appends -/

section Appends

variable {S : Type} [KeeperStores S] [NexumSdk]
  {R : Rely Op (World S) (Input (KeeperStores.Edit S))} {k : Keeper} {tick : Tick}
  {w₀ w w' : World S}

def Event.Follows (w : World S) : Event → Prop
  | .posted _ _ key body _ => ∃ n, KeeperStores.marker w.store key = some (.reserved n body)
  | .answered pass venue key body _ =>
      ∃ placed, w.log.getLast? = some (.posted pass venue key body placed)
  | .wrote venue (.commit key) =>
      ∃ pass body receipt n,
        w.log.getLast? = some (.answered pass venue key body (.ok (.accepted receipt))) ∧
          KeeperStores.marker w.store key = some (.reserved n body)
  | _ => True

theorem Path.last_logged (path : Path R k tick w₀ w) {e : Event}
    (last : (since w₀ w).getLast? = some e) : w.log.getLast? = some e := by
  rw [path.log_append, List.getLast?_append, last]
  rfl

theorem Step.follows (step : Step R k tick w₀ w w') (path : Path R k tick w₀ w) :
    w'.log = w.log ∨ ∃ e, w'.log = w.log ++ [e] ∧ e.Follows w := by
  cases step with
  | store s same => exact .inl rfl
  | poll rests swept rely => exact .inr ⟨_, rfl, trivial⟩
  | reserve asked unmarked => exact .inr ⟨_, rfl, trivial⟩
  | post reserved own rely => exact .inr ⟨_, rfl, path.reserved reserved rfl⟩
  | repost listed untouched rests rely =>
      have reserved := (path.frame untouched).trans (marker_of_share listed)
      exact .inr ⟨_, rfl, _, reserved⟩
  | answer posted rely => exact .inr ⟨_, rfl, _, path.last_logged posted⟩
  | settle answered owes =>
      refine .inr ⟨_, rfl, ?_⟩
      rcases owed_cases owes with ⟨rfl, _⟩ | ⟨rfl, receipt, rfl⟩ | ⟨_, rfl⟩
      · trivial
      · obtain ⟨n, reserved⟩ := path.reserved answered rfl
        exact ⟨_, _, receipt, n, path.last_logged answered, reserved⟩
      · trivial

theorem Step.committed_stays (step : Step R k tick w₀ w w') (path : Path R k tick w₀ w)
    {key : String} (final : KeeperStores.marker w.store key = some .committed) :
    KeeperStores.marker w'.store key = some .committed := by
  obtain ⟨es, grown, other⟩ := step.spares path final
  obtain ⟨es', grown', same⟩ := step.effect
  have split : es = es' := List.append_cancel_left (grown.symm.trans grown')
  rw [same key (split ▸ other), final]

/-- Every reservation is filed under a key made of its body. -/
def Keyed (s : S) : Prop :=
  ∀ key n body, KeeperStores.marker s key = some (.reserved n body) →
    ∃ venue, key = submissionKey venue body

theorem Keyed.of_same {s s' : S} (keyed : Keyed s)
    (same : ∀ key, KeeperStores.marker s' key = KeeperStores.marker s key) : Keyed s' := by
  intro key n body reserved
  exact keyed key n body ((same key).symm.trans reserved)

theorem Keyed.write {s : S} (keyed : Keyed s) {jw : JournalWrite}
    (own : ∀ n body, jw.leaves (KeeperStores.fresh S) = some (.reserved n body) →
      ∃ venue, jw.key = submissionKey venue body) : Keyed (KeeperStores.write jw s) := by
  intro key n body reserved
  rw [KeeperStores.marker_write] at reserved
  split at reserved
  next same =>
    rw [same]
    exact own n body reserved
  next => exact keyed key n body reserved

theorem Step.keyed (step : Step R k tick w₀ w w') (path : Path R k tick w₀ w)
    (keyed : Keyed w.store) : Keyed w'.store := by
  cases step with
  | store s same => exact keyed.of_same same
  | poll rests swept rely => exact keyed.of_same fun _ => World.edited_marker _ _ _
  | reserve asked unmarked =>
      apply keyed.write
      intro n body reserved
      cases reserved
      exact ⟨_, rfl⟩
  | post reserved own rely => exact keyed
  | repost listed untouched rests rely => exact keyed
  | answer posted rely => exact keyed
  | settle answered owes =>
      apply keyed.write
      intro n body reserved
      rcases owed_cases owes with ⟨rfl, _⟩ | ⟨rfl, _⟩ | ⟨_, rfl⟩
      · cases reserved
      · cases reserved
      · cases reserved
        obtain ⟨m, before⟩ := path.reserved answered rfl
        exact keyed _ m _ before

end Appends

def Op.logs {Edit : Type} : Op → Input Edit → Option Event
  | .write venue jw, .ok => some (.wrote venue jw)
  | .poll c _ _, .polled outcome _ => some (.polled c outcome)
  | .post pass venue key body, .sent placed => some (.posted pass venue key body placed)
  | .reply pass venue key body, .answered result => some (.answered pass venue key body result)
  | _, _ => none

theorem log_of_step {S : Type} [KeeperStores S] {o : Op} {i : Input (KeeperStores.Edit S)}
    {w w' : World S} {a : o.Ans} (moves : (machine S).step o i w = some (a, w')) :
    w'.log = w.log ++ (o.logs i).toList := by
  cases o <;> cases i <;> cases moves <;> simp [Op.logs]

def Event.posted? : Event → Option (VenueId × String × Bytes)
  | .posted _ venue key body _ => some (venue, key, body)
  | _ => none

def Event.committed? : Event → Option (VenueId × String)
  | .wrote venue (.commit key) => some (venue, key)
  | _ => none

/-- Over a journal filed under its bodies' keys, every POST is under a key of its body. -/
theorem Reaches.posts_keyed {S : Type} [KeeperStores S] [NexumSdk]
    {R : Rely Op (World S) (Input (KeeperStores.Edit S))} {G : Call → World S → Prop} {store : S}
    {h : Host S} (reach : Reaches R G (Host.idle ⟨store, []⟩) h) (keyed : Keyed store) :
    ∀ p ∈ h.world.log.filterMap Event.posted?, ∃ venue, p.2.1 = submissionKey venue p.2.2 := by
  have kept : Keyed h.world.store ∧
      ∀ p ∈ h.world.log.filterMap Event.posted?, ∃ venue, p.2.1 = submissionKey venue p.2.2 := by
    refine reach.invariant (I := fun v => Keyed v.store ∧
      ∀ p ∈ v.log.filterMap Event.posted?, ∃ venue, p.2.1 = submissionKey venue p.2.2)
      (Host.idle_sound _) ⟨keyed, List.forall_mem_nil _⟩ ?_ ?_
    · intro v edits inv
      exact ⟨inv.1.of_same fun _ => World.edited_marker _ _ _, inv.2⟩
    · intro c w₀ v v' _ path step inv
      refine ⟨step.keyed path inv.1, ?_⟩
      rcases step.follows path with same | ⟨e, grown, follows⟩
      · rw [same]
        exact inv.2
      · intro p listed
        rw [grown, List.filterMap_append, List.mem_append] at listed
        rcases listed with old | new
        · exact inv.2 p old
        · obtain ⟨e', here, posts⟩ := List.mem_filterMap.mp new
          cases List.mem_singleton.mp here
          cases e with
          | posted pass venue key body placed =>
              cases posts
              obtain ⟨n, reserved⟩ := follows
              exact inv.1 _ n _ reserved
          | _ => cases posts
  exact kept.2

end Sdk

namespace Client

open Sdk

variable {S : Type} {P : Nat → Host.Policy} {module : String}

/-! ## The submits of a session -/

@[reducible] def Sent.call (module : String) (o : Sent) : Host.Call :=
  .submit module ⟨o.venue.id⟩ o.body

def Accepted (p : Process) (o : Sent) : Prop :=
  ∃ receipt, p.landed o.flight = some (.submitted (.ok (.accepted receipt)))

theorem Accepted.grow {p q : Process} {o : Sent} (accepted : Accepted p o) (grows : p.Grows q) :
    Accepted q o := by
  obtain ⟨receipt, landed⟩ := accepted
  exact ⟨receipt, grows.landed _ _ landed⟩

/-- What a keeper's journal has to do with the submits of its session. `placed` are the
submits that its commits stand for. -/
structure Backed [KeeperStores S] [NexumSdk] (s : Session S) (placed : List Sent) : Prop where
  posted : (s.sent.map fun o => (o.venue, o.key, o.body)).Sublist
    (s.host.world.log.filterMap Event.posted?)
  commits : s.host.world.log.filterMap Event.committed? = placed.map fun o => (o.venue, o.key)
  among : placed.Sublist s.sent
  accepted : ∀ o ∈ placed, Accepted s.process o
  final : ∀ o ∈ placed, KeeperStores.marker s.host.world.store o.key = some .committed
  last : ∀ o ∈ placed, ∀ o' ∈ s.sent, o'.key = o.key → o'.flight.id ≤ o.flight.id
  asking : ∀ pass venue key body reached flight,
    s.host.world.log.getLast? = some (.posted pass venue key body reached) →
      s.asked = some (.ok flight) → s.sent.getLast? = some ⟨flight, venue, key, body⟩
  answered : ∀ pass venue key body receipt,
    s.host.world.log.getLast? = some (.answered pass venue key body (.ok (.accepted receipt))) →
      ∃ o, s.sent.getLast? = some o ∧ o.venue = venue ∧ o.key = key ∧ Accepted s.process o

section Keep

variable [KeeperStores S] [NexumSdk] {s t : Session S} {placed : List Sent}

theorem Backed.grow (backed : Backed s placed) {q : Process} (grows : s.process.Grows q) :
    Backed { s with process := q } placed where
  posted := backed.posted
  commits := backed.commits
  among := backed.among
  accepted o member := (backed.accepted o member).grow grows
  final := backed.final
  last := backed.last
  asking := backed.asking
  answered pass venue key body receipt last := by
    obtain ⟨o, latest, venues, keys, accepted⟩ := backed.answered pass venue key body receipt last
    exact ⟨o, latest, venues, keys, accepted.grow grows⟩

theorem Backed.quiet (backed : Backed s placed) {host : Host S}
    {asked : Option (Except VenueError Flight)} (log : host.world.log = s.host.world.log)
    (final : ∀ key, KeeperStores.marker s.host.world.store key = some .committed →
      KeeperStores.marker host.world.store key = some .committed)
    (forgets : ∀ flight, asked = some (.ok flight) → s.asked = some (.ok flight)) :
    Backed { s with host := host, asked := asked } placed where
  posted := by
    rw [log]
    exact backed.posted
  commits := by
    rw [log]
    exact backed.commits
  among := backed.among
  accepted := backed.accepted
  final o member := final _ (backed.final o member)
  last := backed.last
  asking pass venue key body reached flight last waits := by
    rw [log] at last
    exact backed.asking pass venue key body reached flight last (forgets flight waits)
  answered pass venue key body receipt last := by
    rw [log] at last
    exact backed.answered pass venue key body receipt last

theorem Backed.append (backed : Backed s placed) {host : Host S}
    {asked : Option (Except VenueError Flight)} {e : Sdk.Event}
    (grown : host.world.log = s.host.world.log ++ [e]) (open_ : e.committed? = none)
    (final : ∀ key, KeeperStores.marker s.host.world.store key = some .committed →
      KeeperStores.marker host.world.store key = some .committed)
    (asking : ∀ pass venue key body reached flight, e = .posted pass venue key body reached →
      asked = some (.ok flight) → s.sent.getLast? = some ⟨flight, venue, key, body⟩)
    (answered : ∀ pass venue key body receipt,
      e = .answered pass venue key body (.ok (.accepted receipt)) →
        ∃ o, s.sent.getLast? = some o ∧ o.venue = venue ∧ o.key = key ∧ Accepted s.process o) :
    Backed { s with host := host, asked := asked } placed where
  posted := by
    rw [grown, List.filterMap_append]
    exact backed.posted.trans (List.sublist_append_left _ _)
  commits := by
    rw [grown, List.filterMap_append, List.filterMap_cons_none open_, List.filterMap_nil,
      List.append_nil]
    exact backed.commits
  among := backed.among
  accepted := backed.accepted
  final o member := final _ (backed.final o member)
  last := backed.last
  asking pass venue key body reached flight last waits := by
    rw [grown, List.getLast?_concat, Option.some.injEq] at last
    exact asking pass venue key body reached flight last waits
  answered pass venue key body receipt last := by
    rw [grown, List.getLast?_concat, Option.some.injEq] at last
    exact answered pass venue key body receipt last

theorem Backed.commit (backed : Backed s placed)
    (tracked : Tracked P Sent.flight (Sent.call module) s.process s.sent)
    {host : Host S} {venue : Sdk.VenueId} {key : String}
    (grown : host.world.log = s.host.world.log ++ [.wrote venue (.commit key)])
    (follows : Sdk.Event.Follows s.host.world (.wrote venue (.commit key)))
    (final : ∀ key, KeeperStores.marker s.host.world.store key = some .committed →
      KeeperStores.marker host.world.store key = some .committed)
    (shows : KeeperStores.marker host.world.store key = some .committed) :
    ∃ o, Backed { s with host := host } (placed ++ [o]) := by
  obtain ⟨pass, body, receipt, n, answered, reserved⟩ := follows
  obtain ⟨o, latest, rfl, rfl, accepted⟩ := backed.answered _ _ _ _ _ answered
  obtain ⟨earlier, sent⟩ := List.getLast?_eq_some_iff.mp latest
  -- The key is still reserved, so no earlier commit was for it.
  have fresh : ∀ o' ∈ placed, o'.key ≠ o.key := by
    intro o' member same
    have committed := backed.final o' member
    rw [same, reserved] at committed
    cases committed
  have before : placed.Sublist earlier := by
    have among := backed.among
    rw [sent] at among
    obtain ⟨left, right, split, into, rest⟩ := List.sublist_append_iff.mp among
    cases right with
    | nil =>
        rw [split, List.append_nil]
        exact into
    | cons o' more =>
        have own : o' = o := List.mem_singleton.mp (rest.subset List.mem_cons_self)
        have member : o' ∈ placed := by
          rw [split]
          exact List.mem_append_right _ List.mem_cons_self
        exact absurd (congrArg Sent.key own) (fresh o' member)
  have latest_id : ∀ o' ∈ s.sent, o'.flight.id ≤ o.flight.id := by
    intro o' member
    have increasing := tracked.increasing
    rw [sent] at increasing member
    rcases List.mem_append.mp member with old | new
    · exact Nat.le_of_lt
        ((List.pairwise_append.mp increasing).2.2 o' old o List.mem_cons_self)
    · rw [List.mem_singleton.mp new]
  refine ⟨o, ?_⟩
  constructor
  · rw [grown, List.filterMap_append]
    exact backed.posted.trans (List.sublist_append_left _ _)
  · rw [grown, List.filterMap_append, backed.commits, List.map_append]
    rfl
  · show (placed ++ [o]).Sublist s.sent
    rw [sent]
    exact before.append (List.Sublist.refl _)
  · intro o' member
    rcases List.mem_append.mp member with old | new
    · exact backed.accepted o' old
    · rw [List.mem_singleton.mp new]
      exact accepted
  · intro o' member
    rcases List.mem_append.mp member with old | new
    · exact final _ (backed.final o' old)
    · rw [List.mem_singleton.mp new]
      exact shows
  · intro o' member o'' sent' same
    rcases List.mem_append.mp member with old | new
    · exact backed.last o' old o'' sent' same
    · rw [List.mem_singleton.mp new]
      exact latest_id o'' sent'
  · intro pass' venue' key' body' reached flight last
    rw [grown, List.getLast?_concat] at last
    cases last
  · intro pass' venue' key' body' receipt' last
    rw [grown, List.getLast?_concat] at last
    cases last

/-- The keeper sends an order whose key it holds reserved. -/
theorem Backed.send (backed : Backed s placed) {q : Process} (grows : s.process.Grows q)
    {host : Host S} {pass : Pass} (o : Sent) {reached : Bool}
    (grown : host.world.log = s.host.world.log ++ [.posted pass o.venue o.key o.body reached])
    (follows : Sdk.Event.Follows s.host.world (.posted pass o.venue o.key o.body reached))
    (same : host.world.store = s.host.world.store) :
    Backed ⟨q, host, some (.ok o.flight), s.sent ++ [o]⟩ placed := by
  obtain ⟨n, reserved⟩ := follows
  constructor
  · rw [grown, List.filterMap_append, List.map_append]
    exact backed.posted.append (List.Sublist.refl _)
  · rw [grown, List.filterMap_append, backed.commits]
    exact List.append_nil _
  · exact backed.among.trans (List.sublist_append_left _ _)
  · intro o' member
    exact (backed.accepted o' member).grow grows
  · intro o' member
    rw [same]
    exact backed.final o' member
  · intro o' member o'' sent keys
    rcases List.mem_append.mp sent with old | new
    · exact backed.last o' member o'' old keys
    · rw [List.mem_singleton.mp new] at keys
      have committed := backed.final o' member
      rw [← keys, reserved] at committed
      cases committed
  · intro pass' venue' key' body' reached' flight last waits
    rw [grown, List.getLast?_concat] at last
    cases last
    cases waits
    exact List.getLast?_concat
  · intro pass' venue' key' body' receipt' last
    rw [grown, List.getLast?_concat] at last
    cases last

end Keep

/-! ## Sessions -/

theorem accepted_of_replied {s : Session S} {receipt : Bytes}
    (replied : s.replied = some (.ok (.accepted receipt))) :
    ∃ flight, s.asked = some (.ok flight) ∧
      s.process.landed flight = some (.submitted (.ok (.accepted receipt))) := by
  unfold Session.replied at replied
  split at replied
  next => cases replied
  next => cases replied
  next flight waits =>
    refine ⟨flight, waits, ?_⟩
    split at replied
    next result landed =>
      cases result with
      | ok outcome =>
          cases replied
          exact landed
      | error e => cases replied
    next => cases replied

section Sessions

variable [NexumRuntime] [KeeperStores S] [NexumSdk] {s t : Session S} {store : S}

structure Good (P : Nat → Host.Policy) (module : String) (store : S) (s : Session S) : Prop where
  host : Reaches (fun _ _ _ => True) (fun _ _ => True) (Host.idle ⟨store, []⟩) s.host
  tracked : Tracked P Sent.flight (Sent.call module) s.process s.sent
  backed : ∃ placed, Backed s placed

omit [NexumRuntime] in
theorem good_idle {process : Process} (sound : process.Sound P) :
    Good P module store (Session.idle process store) := by
  constructor
  · exact .refl
  · exact ⟨sound, List.forall_mem_nil _, .nil⟩
  · refine ⟨[], .slnil, rfl, .slnil, List.forall_mem_nil _, List.forall_mem_nil _,
      List.forall_mem_nil _, ?_, ?_⟩
    · intro pass venue key body reached flight last
      cases last
    · intro pass venue key body receipt last
      cases last

omit [NexumSdk] in
theorem request_silent {o : Op} {input : Input (KeeperStores.Edit S)} {a : o.Ans} {w : World S}
    (moves : (machine S).step o input s.host.world = some (a, w)) (silent : o.logs input = none) :
    s.request P module o = s := by
  cases o with
  | post pass venue key body =>
      cases input with
      | sent placed => cases silent
      | _ => cases moves
  | _ => rfl

section Operations

variable {host : Host S}

omit [NexumRuntime] in
theorem Good.logged (good : Good P module store s) {asked : Option (Except VenueError Flight)}
    {e : Sdk.Event}
    (reaches : Reaches (fun _ _ _ => True) (fun _ _ => True) (Host.idle ⟨store, []⟩) host)
    (grown : host.world.log = s.host.world.log ++ [e]) (open_ : e.committed? = none)
    (final : ∀ key, KeeperStores.marker s.host.world.store key = some .committed →
      KeeperStores.marker host.world.store key = some .committed)
    (asking : ∀ pass venue key body reached flight, e = .posted pass venue key body reached →
      asked = some (.ok flight) → s.sent.getLast? = some ⟨flight, venue, key, body⟩)
    (answered : ∀ pass venue key body receipt,
      e = .answered pass venue key body (.ok (.accepted receipt)) →
        ∃ o, s.sent.getLast? = some o ∧ o.venue = venue ∧ o.key = key ∧ Accepted s.process o) :
    Good P module store { s with host := host, asked := asked } := by
  obtain ⟨placed, backed⟩ := good.backed
  exact ⟨reaches, good.tracked, placed, backed.append grown open_ final asking answered⟩

omit [NexumRuntime] in
theorem Good.wrote (good : Good P module store s) {venue : Sdk.VenueId} {jw : JournalWrite}
    (reaches : Reaches (fun _ _ _ => True) (fun _ _ => True) (Host.idle ⟨store, []⟩) host)
    (grown : host.world.log = s.host.world.log ++ [.wrote venue jw])
    (follows : Sdk.Event.Follows s.host.world (.wrote venue jw))
    (final : ∀ key, KeeperStores.marker s.host.world.store key = some .committed →
      KeeperStores.marker host.world.store key = some .committed)
    (shows : KeeperStores.marker host.world.store jw.key = jw.leaves (KeeperStores.fresh S)) :
    Good P module store { s with host := host } := by
  have plain : Sdk.Event.committed? (.wrote venue jw) = none →
      Good P module store { s with host := host } := fun open_ =>
    good.logged reaches grown open_ final nofun nofun
  cases jw with
  | commit key =>
      obtain ⟨placed, backed⟩ := good.backed
      obtain ⟨o, committed⟩ := backed.commit good.tracked grown follows final shows
      exact ⟨reaches, good.tracked, placed ++ [o], committed⟩
  | reserve key body => exact plain rfl
  | release key => exact plain rfl
  | park key body nextEligible => exact plain rfl

/-- A POST is a submit on the published registry, or is refused by the import. -/
theorem Good.posted (good : Good P module store s) {pass : Pass} {venue : Sdk.VenueId}
    {key : String} {body : Bytes} {reached : Bool}
    (reaches : Reaches (fun _ _ _ => True) (fun _ _ => True) (Host.idle ⟨store, []⟩) host)
    (grown : host.world.log = s.host.world.log ++ [.posted pass venue key body reached])
    (follows : Sdk.Event.Follows s.host.world (.posted pass venue key body reached))
    (same : host.world.store = s.host.world.store) :
    Good P module store { s.request P module (.post pass venue key body) with host := host } := by
  cases dispatched : s.process.submit P module venue.id body with
  | mk answer q =>
      rcases Process.dispatch_cases good.tracked.sound dispatched with
        ⟨⟨refusal, rfl⟩, rfl⟩ | ⟨flight, rfl, sound, grows, published, fresh, called, -⟩
      · simp only [Session.request, dispatched]
        refine good.logged reaches grown rfl ?_ ?_ nofun
        · intro key committed
          rw [same]
          exact committed
        · intro pass' venue' key' body' reached' flight posted waits
          cases waits
      · simp only [Session.request, dispatched]
        obtain ⟨placed, backed⟩ := good.backed
        exact ⟨reaches,
          good.tracked.send (o := ⟨flight, venue, key, body⟩) sound grows published fresh called,
          placed, backed.send grows ⟨flight, venue, key, body⟩ grown follows same⟩

omit [NexumRuntime] in
theorem Good.answered (good : Good P module store s) {pass : Pass} {venue : Sdk.VenueId}
    {key : String} {body : Bytes} {result : SubmitResult}
    (reaches : Reaches (fun _ _ _ => True) (fun _ _ => True) (Host.idle ⟨store, []⟩) host)
    (grown : host.world.log = s.host.world.log ++ [.answered pass venue key body result])
    (follows : Sdk.Event.Follows s.host.world (.answered pass venue key body result))
    (final : ∀ key, KeeperStores.marker s.host.world.store key = some .committed →
      KeeperStores.marker host.world.store key = some .committed)
    (replied : s.replied = some result) : Good P module store { s with host := host } := by
  apply good.logged reaches grown rfl final nofun
  intro pass' venue' key' body' receipt same
  cases same
  obtain ⟨reached, posted⟩ := follows
  obtain ⟨flight, waits, landed⟩ := accepted_of_replied replied
  obtain ⟨placed, backed⟩ := good.backed
  exact ⟨_, backed.asking _ _ _ _ _ _ posted waits, rfl, rfl, receipt, landed⟩

/-- The keeper's own operation, under the replies its import gives. -/
theorem Good.operate (good : Good P module store s) {call : Sdk.Call} {o : Op}
    {input : Input (KeeperStores.Edit S)} {a : o.Ans} {w : World S}
    {rest : o.Ans → Program Op Op.Ans (Except Fault call.Report)}
    (active : s.host = ⟨s.host.world, some ⟨call, .call o rest⟩⟩)
    (admits : s.admits o input = true)
    (moves : (machine S).step o input s.host.world = some (a, w)) :
    Good P module store { s.request P module o with host := ⟨w, some ⟨call, rest a⟩⟩ } := by
  have move : Host.Move (fun _ _ _ => True) (fun _ _ => True) s.host
      ⟨w, some ⟨call, rest a⟩⟩ := by
    rw [active]
    exact .operate trivial moves
  have reaches := good.host.tail move
  obtain ⟨w₀, -, path, keeps⟩ :=
    good.host.sound (Host.idle_sound _) ⟨call, .call o rest⟩ (by rw [active])
  have step := (keeps _ _ _ trivial moves).1
  have final : ∀ key, KeeperStores.marker s.host.world.store key = some .committed →
      KeeperStores.marker w.store key = some .committed :=
    fun _ committed => step.committed_stays path committed
  have logs := log_of_step moves
  rcases step.follows path with same | ⟨e, grown, follows⟩
  · have silent : o.logs input = none := by
      rw [same] at logs
      simpa using logs
    rw [request_silent moves silent]
    obtain ⟨placed, backed⟩ := good.backed
    exact ⟨reaches, good.tracked, placed, backed.quiet same final fun _ waits => waits⟩
  · have logged : o.logs input = some e := by
      rw [grown] at logs
      cases there : o.logs input with
      | none => simp [there] at logs
      | some e' =>
          rw [there] at logs
          exact congrArg some (List.singleton_inj.mp (List.append_cancel_left logs)).symm
    cases o with
    | read q => cases input <;> cases logged
    | retrier call => cases input <;> cases logged
    | write venue jw =>
        cases input with
        | ok =>
            cases logged
            cases moves
            exact good.wrote reaches grown follows final (marker_write_self jw _)
        | _ => cases logged
    | poll c params tick =>
        cases input with
        | polled outcome edits =>
            cases logged
            exact good.logged reaches grown rfl final nofun nofun
        | _ => cases logged
    | post pass venue key body =>
        cases input with
        | sent reached =>
            cases logged
            cases moves
            exact good.posted reaches grown follows rfl
        | _ => cases logged
    | reply pass venue key body =>
        cases input with
        | answered result =>
            cases logged
            exact good.answered reaches grown follows final (eq_of_beq admits)
        | _ => cases logged

end Operations

theorem Good.step (good : Good P module store s) {label : SessionLabel (KeeperStores.Edit S)}
    (moves : s.step P module label = some t) : Good P module store t := by
  obtain ⟨placed, backed⟩ := good.backed
  cases label with
  | turn t' =>
      obtain ⟨q, turned, rfl⟩ := Option.map_eq_some_iff.mp moves
      obtain ⟨sound, grows⟩ := Process.turn_grows good.tracked.sound turned
      exact ⟨good.host, good.tracked.grow sound grows, placed, backed.grow grows⟩
  | start call =>
      simp only [Session.step] at moves
      split at moves
      next free =>
        cases moves
        have rests : s.host = ⟨s.host.world, none⟩ := by rw [← free]
        have move : Host.Move (fun _ _ _ => True) (fun _ _ => True) s.host
            ⟨s.host.world, some ⟨call, call.program.run⟩⟩ := by
          rw [rests]
          exact .start trivial
        exact ⟨good.host.tail move, good.tracked, placed,
          backed.quiet rfl (fun _ committed => committed) nofun⟩
      next => cases moves
  | operate input =>
      simp only [Session.step] at moves
      split at moves
      next call o rest active =>
        split at moves
        next admits =>
          split at moves
          next a w stepped =>
            cases moves
            exact good.operate (by rw [← active]) admits stepped
          next => cases moves
        next => cases moves
      next => cases moves
  | stop =>
      cases moves
      exact ⟨good.host.tail .stop, good.tracked, placed,
        backed.quiet rfl (fun _ committed => committed) nofun⟩
  | edit edits =>
      simp only [Session.step] at moves
      split at moves
      next free =>
        cases moves
        have rests : s.host = ⟨s.host.world, none⟩ := by rw [← free]
        have move : Host.Move (fun _ _ _ => True) (fun _ _ => True) s.host
            ⟨s.host.world.edited edits, none⟩ := by
          rw [rests]
          exact .edit edits
        have same := World.edited_marker s.host.world edits
        refine ⟨good.host.tail move, good.tracked, placed,
          backed.quiet rfl ?_ fun _ waits => waits⟩
        intro key committed
        exact (same key).trans committed
      next => cases moves

theorem good_reach (reach : Session.Reach P module store s) : Good P module store s := by
  induction reach with
  | start sound => exact good_idle sound
  | step _ moves ih => exact ih.step moves

/-- Whatever the other modules, the adapters and the composition root do, and wherever the
keeper's calls are torn: the commits the keeper journals are, in order, the acceptances of
distinct registry calls it made on the one published registry. Each was a submit whose outcome
is the adapter's own acceptance, of the body its key was made of if the journal started filed
so, and no later submit of the keeper is for its order. -/
theorem committed_orders_accepted (reach : Session.Reach P module store s) :
    (s.sent.map fun o => (o.venue, o.key, o.body)).Sublist
      (s.host.world.log.filterMap Event.posted?) ∧
    (s.sent.Pairwise fun a b => a.flight.id < b.flight.id) ∧
    ∃ placed : List Sent, placed.Sublist s.sent ∧
      s.host.world.log.filterMap Event.committed? = placed.map (fun o => (o.venue, o.key)) ∧
      ∀ o ∈ placed, s.process.published = some o.flight.registry ∧
        (Keyed store → ∃ venue, o.key = submissionKey venue o.body) ∧
        (∃ receipt, Host.Story (P o.flight.registry) (.submit module ⟨o.venue.id⟩ o.body)
          (own o.flight.id (s.process.registries o.flight.registry).log)
          (.submitted (.ok (.accepted receipt)))) ∧
        ∀ o' ∈ s.sent, o'.key = o.key → o'.flight.id ≤ o.flight.id := by
  have good := good_reach reach
  obtain ⟨placed, backed⟩ := good.backed
  refine ⟨backed.posted, good.tracked.increasing, placed, backed.among, backed.commits, ?_⟩
  intro o member
  have sent := backed.among.subset member
  obtain ⟨published, called⟩ := good.tracked.called o sent
  refine ⟨published, ?_, ?_, backed.last o member⟩
  · intro keyed
    exact good.host.posts_keyed keyed _
      (backed.posted.subset (List.mem_map_of_mem (f := fun o => (o.venue, o.key, o.body)) sent))
  obtain ⟨receipt, landed⟩ := backed.accepted o member
  obtain ⟨start, reached⟩ := good.tracked.sound o.flight.registry
  obtain ⟨call, made, point⟩ := Host.tells_thread reached (Host.thread_of_outcomeOf landed)
  rw [called] at made
  cases made
  exact ⟨receipt, point.returned _ rfl⟩

end Sessions

/-! ## A small session -/

open scoped MemStore PlainIds

/-- The keeper's sweep POSTs its order, the adapter accepts it, and the sweep goes on. -/
def acceptedSession : List (SessionLabel MemStore.Edit) :=
  [.turn (.publish 0), .turn (.registry 0 (.host (.register ⟨"stub"⟩ 0 ∅))),
    .start (.run stubKeeper stubTick)] ++
  [.ok, .ok, .ok, .ok, .polled (.submit stubBody) [], .ok, .ok, .sent true].map .operate ++
  (Host.throughGate 0 ++ Host.throughHeader 0 .allow ++ Host.throughSubmit 0 [165, 90]).map
    (fun label => .turn (.registry 0 label)) ++
  [.answered (.ok (.accepted [165, 90])), .ok, .ok].map .operate

theorem committed_orders_accepted_stub : ∃ (s : Session MemStore) (placed : List Sent),
    Session.Reach (fun _ => Host.oneCharge) "keeper" MemStore.single s ∧
    placed.map (fun o => (o.venue, o.key)) =
      [(stubKeeper.venue, submissionKey stubKeeper.venue stubBody)] ∧
    ∀ o ∈ placed, ∃ receipt, Host.Story Host.oneCharge (.submit "keeper" ⟨o.venue.id⟩ o.body)
      (own o.flight.id (s.process.registries o.flight.registry).log)
      (.submitted (.ok (.accepted receipt))) := by
  have ran : (Session.run (fun _ => Host.oneCharge) "keeper" acceptedSession
      (Session.idle stubProcess MemStore.single)).map
        (fun s => s.host.world.log.filterMap Event.committed?) =
      some [(stubKeeper.venue, submissionKey stubKeeper.venue stubBody)] := by
    decide
  obtain ⟨s, reached, commits⟩ := Option.map_eq_some_iff.mp ran
  have reach : Session.Reach (fun _ => Host.oneCharge) "keeper" MemStore.single s :=
    .of_run (.start fun _ => ⟨0, .start⟩) reached
  obtain ⟨-, -, placed, -, same, vouched⟩ := committed_orders_accepted reach
  refine ⟨s, placed, reach, same.symm.trans commits, ?_⟩
  intro o member
  exact (vouched o member).2.2.1

end Client

end Videre
