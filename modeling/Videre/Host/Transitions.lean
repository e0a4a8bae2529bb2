import Mathlib.Data.List.TakeWhile
import Videre.Host.Epochs

/-! # Every lifecycle transition is reported once

The registry's steps move each pair of venue and receipt along the edges of its
epochs, so what an epoch emits is read off the log of the pair.
-/

namespace Videre.Host

open Interaction

/-- What the watch list says of a pair: unwatched, or watched with its last reported status. -/
def pairState (venue : VenueId) (receipt : Bytes) (watched : List WatchedIntent) :
    Option (Option IntentStatus) :=
  (watched.find? (WatchedIntent.watches venue receipt)).map (·.last)

section PairState

variable {venue : VenueId} {receipt : Bytes} {watched : List WatchedIntent}

theorem pairState_none (absent : ∀ w ∈ watched, w.pair ≠ (venue, receipt)) :
    pairState venue receipt watched = none := by
  unfold pairState
  rw [Option.map_eq_none_iff, List.find?_eq_none]
  intro w member watches
  exact absent w member (watches_iff.mp watches)

theorem pairState_of_mem (distinct : (watched.map WatchedIntent.pair).Nodup) {w : WatchedIntent}
    (member : w ∈ watched) (pair : w.pair = (venue, receipt)) :
    pairState venue receipt watched = some w.last := by
  unfold pairState
  cases found : watched.find? (WatchedIntent.watches venue receipt) with
  | none =>
      rw [List.find?_eq_none] at found
      exact absurd (watches_iff.mpr pair) (found w member)
  | some x =>
      have here := List.mem_of_find?_eq_some found
      have watches := watches_iff.mp (List.find?_some found)
      have same : x = w := List.inj_on_of_nodup_map distinct here member (watches.trans pair.symm)
      rw [same]
      rfl

theorem pairState_isSome :
    (pairState venue receipt watched).isSome = isWatched venue receipt watched := by
  unfold pairState isWatched
  rw [Option.isSome_map, Bool.eq_iff_iff, List.find?_isSome, List.any_eq_true]

theorem pairState_append (first second : List WatchedIntent) :
    pairState venue receipt (first ++ second) =
      (pairState venue receipt first).or (pairState venue receipt second) := by
  unfold pairState
  rw [List.find?_append, Option.map_or]

theorem pairState_cons_other {w : WatchedIntent} (other : w.pair ≠ (venue, receipt))
    (rest : List WatchedIntent) :
    pairState venue receipt (w :: rest) = pairState venue receipt rest := by
  unfold pairState
  rw [List.find?_cons_of_neg]
  intro watches
  exact other (watches_iff.mp watches)

theorem pairState_replaced {pre post : List WatchedIntent} {w w' : WatchedIntent}
    (other : w.pair ≠ (venue, receipt)) (same : w'.pair = w.pair) :
    pairState venue receipt (pre ++ w' :: post) = pairState venue receipt (pre ++ w :: post) := by
  have other' : w'.pair ≠ (venue, receipt) := by
    rw [same]
    exact other
  rw [pairState_append, pairState_append, pairState_cons_other other, pairState_cons_other other']

theorem pairState_removed {pre post : List WatchedIntent} {w : WatchedIntent}
    (other : w.pair ≠ (venue, receipt)) :
    pairState venue receipt (pre ++ post) = pairState venue receipt (pre ++ w :: post) := by
  rw [pairState_append, pairState_append, pairState_cons_other other]

end PairState

/-! ## What the operations do to a pair -/

section Steps

variable {P : Policy} {venue : VenueId} {receipt : Bytes}

theorem about_evicted {v : VenueId} {r : Bytes}
    (about : (Event.evicted v r).about venue receipt = true) :
    Event.evicted v r = .evicted venue receipt := by
  simp only [Event.about, Bool.and_eq_true, decide_eq_true_eq] at about
  rw [about.1, about.2]

/-- A prune keeps the pair, or evicts it and says so. -/
theorem prune_pair (venue : VenueId) (receipt : Bytes) {watched : List WatchedIntent}
    (distinct : (watched.map WatchedIntent.pair).Nodup) (now : Nat) :
    (pairState venue receipt (pruneExpired now watched) = pairState venue receipt watched ∧
      ∀ e ∈ evictions now watched, e.about venue receipt = false) ∨
    ((∃ last, pairState venue receipt watched = some last) ∧
      pairState venue receipt (pruneExpired now watched) = none ∧
      .evicted venue receipt ∈ evictions now watched ∧
      ∀ e ∈ evictions now watched, e.about venue receipt = true → e = .evicted venue receipt) := by
  have only : ∀ e ∈ evictions now watched, e.about venue receipt = true →
      e = .evicted venue receipt ∧
        ∃ x ∈ watched, x.unexpired now = false ∧ x.pair = (venue, receipt) := by
    intro e member about
    simp only [evictions, List.mem_map, List.mem_filter] at member
    obtain ⟨x, ⟨here, expired⟩, same⟩ := member
    subst same
    refine ⟨about_evicted about, x, here, by simpa using expired, ?_⟩
    simpa [Event.about, WatchedIntent.pair] using about
  by_cases there : ∃ w ∈ watched, w.pair = (venue, receipt)
  · obtain ⟨w, member, pair⟩ := there
    have distinct' : ((pruneExpired now watched).map WatchedIntent.pair).Nodup :=
      distinct.sublist (List.filter_sublist.map _)
    by_cases unexpired : w.unexpired now = true
    · left
      have kept : w ∈ pruneExpired now watched := mem_pruneExpired.mpr ⟨member, unexpired⟩
      constructor
      · rw [pairState_of_mem distinct' kept pair, pairState_of_mem distinct member pair]
      · intro e gone
        by_contra about
        obtain ⟨_, x, here, expired, same⟩ := only e gone (by simpa using about)
        have : x = w := List.inj_on_of_nodup_map distinct here member (same.trans pair.symm)
        rw [this, unexpired] at expired
        cases expired
    · right
      refine ⟨⟨_, pairState_of_mem distinct member pair⟩, ?_, ?_, fun e gone about =>
        (only e gone about).1⟩
      · apply pairState_none
        intro x kept same
        obtain ⟨here, alive⟩ := mem_pruneExpired.mp kept
        have : x = w := List.inj_on_of_nodup_map distinct here member (same.trans pair.symm)
        rw [this] at alive
        exact unexpired alive
      · simp only [evictions, List.mem_map, List.mem_filter]
        simp only [WatchedIntent.pair, Prod.mk.injEq] at pair
        exact ⟨w, ⟨member, by simpa using unexpired⟩, by rw [pair.1, pair.2]⟩
  · left
    constructor
    · rw [pairState_none, pairState_none]
      · exact fun w member pair => there ⟨w, member, pair⟩
      · exact fun w member pair => there ⟨w, (mem_pruneExpired.mp member).1, pair⟩
    · intro e gone
      by_contra about
      obtain ⟨_, x, here, _, same⟩ := only e gone (by simpa using about)
      exact there ⟨x, here, same⟩

theorem prune_pairStep (venue : VenueId) (receipt : Bytes) {watched : List WatchedIntent}
    (distinct : (watched.map WatchedIntent.pair).Nodup) (now : Nat) :
    PairStep venue receipt (pairState venue receipt watched)
      (pairState venue receipt (pruneExpired now watched)) (evictions now watched) := by
  rcases prune_pair venue receipt distinct now with ⟨same, others⟩ | ⟨⟨last, was⟩, gone, evicted, others⟩
  · rw [same]
    exact .beside _ _ others
  · rw [was, gone]
    exact .evicted last _ evicted others

theorem act_watch_pair {id : Nat} {i : Input} {r r' : Registry} {v : VenueId} {rc : Bytes}
    {a : Bool} {events : List Event} (ok : WatchOk P r.watched)
    (acts : act P id (.watch v rc) i r = some (a, events, r')) :
    PairStep venue receipt (pairState venue receipt r.watched)
      (pairState venue receipt r'.watched) events := by
  obtain ⟨nanos, _, ha, hr, hevents⟩ := act_watch acts
  have pruned := prune_pairStep venue receipt ok.distinct r.now
  rcases watch_spec P r v rc nanos with ⟨there, yes, h⟩ | ⟨absent, _, yes, h⟩ | ⟨absent, _, no, h⟩
  · rw [hr, h, hevents, there]
    simpa using pruned
  · rw [hr, h, hevents, ha, yes, absent, pairState_append]
    simp only [Bool.not_false, Bool.and_self, if_true]
    by_cases mine : (v, rc) = (venue, receipt)
    · rw [Prod.mk.injEq] at mine
      rw [mine.1, mine.2] at absent ⊢
      have unwatched : pairState venue receipt (pruneExpired r.now r.watched) = none := by
        rw [← Option.not_isSome_iff_eq_none, pairState_isSome, absent]
        nofun
      have fresh : pairState venue receipt [freshEntry P venue receipt (r.now + nanos)] =
          some none := by
        simp [pairState, freshEntry, WatchedIntent.watches]
      rw [unwatched, fresh]
      rcases prune_pair venue receipt ok.distinct r.now with
        ⟨same, others⟩ | ⟨⟨last, was⟩, _, evicted, others⟩
      · rw [← same, unwatched]
        exact .inserted _ others
      · rw [was]
        exact .renewed last _ evicted others
    · have fresh : pairState venue receipt [freshEntry P v rc (r.now + nanos)] = none := by
        apply pairState_none
        intro w member
        rw [List.mem_singleton.mp member]
        exact mine
      have aside : (Event.inserted v rc).about venue receipt = false := by
        simpa [Event.about] using mine
      rw [fresh, Option.or_none]
      rcases prune_pair venue receipt ok.distinct r.now with
        ⟨same, others⟩ | ⟨⟨last, was⟩, gone, evicted, others⟩
      · rw [same]
        apply PairStep.beside
        intro e member
        rcases List.mem_append.mp member with old | new
        · exact others e old
        · rw [List.mem_singleton.mp new]
          exact aside
      · rw [was, gone]
        apply PairStep.evicted last _ (List.mem_append_left _ evicted)
        intro e member about
        rcases List.mem_append.mp member with old | new
        · exact others e old about
        · rw [List.mem_singleton.mp new, aside] at about
          cases about
  · rw [hr, h, hevents, ha, no]
    simpa using pruned

/-- Folding a status of another pair does not touch the pair. -/
theorem record_other_pair {id : Nat} {i : Input} {r r' : Registry} {v : VenueId} {rc : Bytes}
    {status : IntentStatus} {a : Option Wire.IntentStatusUpdate} {events : List Event}
    {pre post : List WatchedIntent} {w : WatchedIntent} (found : Found v rc r.watched pre post w)
    (other : (v, rc) ≠ (venue, receipt))
    (acts : act P id (.recordPolledStatus v rc status) i r = some (a, events, r')) :
    pairState venue receipt r'.watched = pairState venue receipt r.watched ∧
      ∀ e ∈ events, e.about venue receipt = false := by
  obtain ⟨_, hr, hevents⟩ := act_recordPolledStatus acts
  have apart : w.pair ≠ (venue, receipt) := by
    rw [found.pair]
    exact other
  have aside : (decide (v = venue) && decide (rc = receipt)) = false := by
    simpa using other
  constructor
  · rw [hr]
    rcases recordPolledStatus_spec P r v rc status found with
      ⟨_, h⟩ | ⟨_, body, _, ⟨_, h⟩ | ⟨_, h⟩⟩
    · rw [h, found.split]
      exact pairState_replaced apart rfl
    · rw [h, found.split]
      exact pairState_removed apart
    · rw [h, found.split]
      exact pairState_replaced apart rfl
  · intro e member
    rw [hevents] at member
    split at member
    · rcases List.mem_cons.mp member with rfl | later
      · exact aside
      · split at later
        · cases later
        · rw [List.mem_singleton.mp later]
          exact aside
    · cases member

theorem record_own_pair {id : Nat} {i : Input} {r r' : Registry} {status : IntentStatus}
    {a : Option Wire.IntentStatusUpdate} {events : List Event} {pre post : List WatchedIntent}
    {w : WatchedIntent} (distinct : (r.watched.map WatchedIntent.pair).Nodup)
    (found : Found venue receipt r.watched pre post w)
    (acts : act P id (.recordPolledStatus venue receipt status) i r = some (a, events, r')) :
    PairStep venue receipt (some w.last) (pairState venue receipt r'.watched) events := by
  obtain ⟨ha, hr, hevents⟩ := act_recordPolledStatus acts
  rw [if_pos found.isWatched] at hevents
  rw [found.split] at distinct
  have kept : ∀ w' : WatchedIntent, w'.pair = w.pair → r'.watched = pre ++ w' :: post →
      pairState venue receipt r'.watched = some w'.last ∧
        events = [.folded venue receipt status a] := by
    intro w' same after
    have distinct' : ((pre ++ w' :: post).map WatchedIntent.pair).Nodup := by
      simpa [same] using distinct
    have now : pairState venue receipt r'.watched = some w'.last := by
      rw [after]
      exact pairState_of_mem distinct' (by simp) (same.trans found.pair)
    refine ⟨now, ?_⟩
    rw [hevents, ← pairState_isSome, now]
    rfl
  rcases recordPolledStatus_spec P r venue receipt status found with
    ⟨repeats, h⟩ | ⟨new, body, decoded, ⟨terminal, h⟩ | ⟨still, h⟩⟩
  · rw [h] at ha hr
    obtain ⟨now, logged⟩ := kept { w with
      expiresAt := Instant.checkedAdd P.horizon r.now P.watchLimit.grace } rfl (by rw [hr])
    rw [now, logged, ha, repeats]
    exact .repeated status
  · rw [h] at ha hr
    have gone : pairState venue receipt r'.watched = none := by
      rw [hr]
      rw [List.map_append, List.map_cons, List.nodup_middle, List.nodup_cons] at distinct
      apply pairState_none
      intro x here same
      apply distinct.1
      rw [found.pair, ← same, ← List.map_append]
      exact List.mem_map_of_mem here
    have absent : isWatched venue receipt r'.watched = false := by
      rw [← pairState_isSome, gone]
      rfl
    rw [gone, hevents, absent, ha]
    exact .settled _ _ _ new terminal ⟨rfl, rfl, decoded⟩
  · rw [h] at ha hr
    obtain ⟨now, logged⟩ := kept { w with
      last := some status
      expiresAt := Instant.checkedAdd P.horizon r.now P.watchLimit.grace } rfl (by rw [hr])
    rw [now, logged, ha]
    exact .moved _ _ _ new still ⟨rfl, rfl, decoded⟩

theorem act_record_pair {id : Nat} {i : Input} {r r' : Registry} {v : VenueId} {rc : Bytes}
    {status : IntentStatus} {a : Option Wire.IntentStatusUpdate} {events : List Event}
    (ok : WatchOk P r.watched)
    (acts : act P id (.recordPolledStatus v rc status) i r = some (a, events, r')) :
    PairStep venue receipt (pairState venue receipt r.watched)
      (pairState venue receipt r'.watched) events := by
  by_cases there : isWatched v rc r.watched = true
  · obtain ⟨pre, w, post, found⟩ := found_of_isWatched v rc there
    by_cases mine : (v, rc) = (venue, receipt)
    · obtain ⟨rfl, rfl⟩ := Prod.mk.inj mine
      rw [pairState_of_mem ok.distinct found.member found.pair]
      exact record_own_pair ok.distinct found acts
    · obtain ⟨same, aside⟩ := record_other_pair found mine acts
      rw [same]
      exact .beside _ _ aside
  · obtain ⟨_, hr, hevents⟩ := act_recordPolledStatus acts
    have unwatched : isWatched v rc r.watched = false := Bool.eq_false_iff.mpr there
    rw [hr, hevents, recordPolledStatus_unwatched unwatched, if_neg there]
    exact .beside _ _ (List.forall_mem_nil _)

theorem offAbout {e : Event} (quiet : e.onWatch = false) : e.about venue receipt = false := by
  cases e <;> first | rfl | cases quiet

theorem pair_step (venue : VenueId) (receipt : Bytes) {p q : RegistryPool}
    {label : Label Input HostEvent Call}
    (ok : WatchOk P p.shared.watched) (moves : (venueRegistry P).step p label = some q) :
    ∃ who events, q.log = p.log ++ tagged who events ∧
      PairStep venue receipt (pairState venue receipt p.shared.watched)
        (pairState venue receipt q.shared.watched) events := by
  rcases step_watched moves with ⟨id, o, rest, i, a, events, _, _, acts, _, log, h⟩ |
    ⟨same, who, events, log, quiet⟩
  · refine ⟨some id, events, log, ?_⟩
    rcases h with ⟨v, rc, nanos, rfl, rfl, _⟩ | ⟨rfl, h⟩ | ⟨v, rc, status, rfl, _⟩
    · exact act_watch_pair ok acts
    · obtain ⟨_, hevents, _⟩ := act_snapshot acts
      rw [h, hevents]
      exact prune_pairStep venue receipt ok.distinct p.shared.now
    · exact act_record_pair ok acts
  · refine ⟨who, events, log, ?_⟩
    rw [same]
    exact .beside _ _ fun e member => offAbout (quiet e member)

theorem tracks_reach {p : RegistryPool} {start : Nat}
    (reach : (venueRegistry P).Reach (Registry.new start) p) (venue : VenueId) (receipt : Bytes) :
    Tracks venue receipt (pairState venue receipt p.shared.watched) p.log := by
  induction reach with
  | start => exact Tracks.start
  | @step p q label before moves ih =>
      obtain ⟨who, events, log, edge⟩ := pair_step venue receipt (watchOk before) moves
      rw [log]
      exact ih.step edge who

end Steps

/-! ## One report a transition -/

/-- In every reachable state and for every watch epoch of a pair: the updates emitted in it
say, in order, the folded statuses without consecutive repeats and cut after the first
terminal one; a terminal update is the epoch's last event and removes the entry; the pair is
in the list exactly when its last epoch has no end; every folded status was polled from the
pair's adapter by the folding call; and a poll returns the updates it recorded. -/
theorem transitions_reported_once {P : Policy} {p : RegistryPool} (reach : Reachable P p)
    (venue : VenueId) (receipt : Bytes) :
    (∀ before who after, p.log = before ++ ⟨who, .inserted venue receipt⟩ :: after →
      Reported venue receipt (epoch venue receipt after) ∧ SettlesLast venue receipt after) ∧
    (isWatched venue receipt p.shared.watched = true ↔
      ∃ before who after, p.log = before ++ ⟨who, .inserted venue receipt⟩ :: after ∧
        epoch venue receipt after = after) ∧
    (∀ past who status update later,
      p.log = past ++ ⟨who, .folded venue receipt status update⟩ :: later →
      ∃ id, who = some id ∧ Polled (own id past) venue receipt status) ∧
    (∀ id updates, p.threads id = some (.done (.polled updates)) →
      updates = recorded (own id p.log)) := by
  obtain ⟨start, reach⟩ := reach
  have tracks := tracks_reach reach venue receipt
  refine ⟨tracks.facts, ?_, ?_, ?_⟩
  · rw [← pairState_isSome]
    constructor
    · intro present
      obtain ⟨last, watched⟩ := Option.isSome_iff_exists.mp present
      obtain ⟨before, who, after, split, still⟩ := tracks.live last watched
      exact ⟨before, who, after, split, epoch_open still⟩
    · rintro ⟨before, who, after, split, whole⟩
      have still : ∀ e ∈ after, e.what.ends venue receipt = false := by
        intro e member
        rw [← whole] at member
        simpa using List.mem_takeWhile_imp member
      rw [(tracks.opened before who after split still).1]
      rfl
  · intro past who status update later split
    have logged : ⟨who, .folded venue receipt status update⟩ ∈ p.log := by
      rw [split]
      simp
    cases who with
    | none => cases host_logged reach logged
    | some id =>
        refine ⟨id, rfl, ?_⟩
        have own_split : own id p.log =
            own id past ++ .folded venue receipt status update :: own id later := by
          rw [split, own_append, own_cons_self]
        have bound : id < p.calls.length := by
          by_contra fresh
          rw [reach.numbered.silent id (Nat.le_of_not_lt fresh)] at own_split
          simp at own_split
        have lawful := lawful_own reach (List.getElem?_eq_getElem bound)
        exact lawful.at_split own_split
  · intro id updates thread
    obtain ⟨call, _, follows⟩ := follows_thread reach thread
    exact follows.at_point.polled updates rfl

/-- A call resolves the venue, holds its adapter, hears `status` and folds it. -/
def throughVisit (id : Nat) (status : IntentStatus) : Schedule :=
  [.advance id (.elapsed 0), .advance id (.elapsed 0), .advance id (.elapsed 0),
    .advance id (.reply (.status (.ok status))), .advance id (.elapsed 0),
    .advance id (.elapsed 0)]

/-- Two polls take their snapshots before either visits the pair, and hear `fulfilled` both. -/
def crossingPolls : Schedule :=
  [.host (.register stubVenue 0 ∅), .spawn (.observe stubVenue [7]),
    .advance 0 (.elapsed 0), .advance 0 (.elapsed 0), .spawn .pollStatusTransitions,
    .spawn .pollStatusTransitions, .advance 1 (.elapsed 0), .advance 2 (.elapsed 0)] ++
  throughVisit 1 .fulfilled ++ throughVisit 2 .fulfilled

theorem transitions_reported_once_stub :
    ∃ p after, Reachable oneCharge p ∧
      p.log.drop 2 = ⟨some 0, .inserted stubVenue [7]⟩ :: after ∧
      foldedIn stubVenue [7] (epoch stubVenue [7] after) = [.fulfilled] ∧
      Reported stubVenue [7] (epoch stubVenue [7] after) ∧ SettlesLast stubVenue [7] after ∧
      isWatched stubVenue [7] p.shared.watched = false := by
  have ran : ((venueRegistry oneCharge).run crossingPolls
      (System.empty (Registry.new 0))).map (fun p => (p.log.take 3,
        foldedIn stubVenue [7] (epoch stubVenue [7] (p.log.drop 3)),
        isWatched stubVenue [7] p.shared.watched)) =
      some ([⟨none, .registered stubVenue 0 0⟩, ⟨some 0, .resolved stubVenue (.ok 0)⟩,
        ⟨some 0, .inserted stubVenue [7]⟩], [.fulfilled], false) := by
    decide
  obtain ⟨p, reached, same⟩ := Option.map_eq_some_iff.mp ran
  simp only [Prod.mk.injEq] at same
  obtain ⟨first, folded, gone⟩ := same
  have reach : Reachable oneCharge p := ⟨0, .of_run .start reached⟩
  have split : p.log = [⟨none, .registered stubVenue 0 0⟩,
      ⟨some 0, .resolved stubVenue (.ok 0)⟩] ++
      ⟨some 0, .inserted stubVenue [7]⟩ :: p.log.drop 3 := by
    calc p.log = p.log.take 3 ++ p.log.drop 3 := (List.take_append_drop 3 p.log).symm
      _ = _ := by rw [first]; rfl
  have once := (transitions_reported_once reach stubVenue [7]).1 _ _ _ split
  refine ⟨p, p.log.drop 3, reach, ?_, folded, once.1, once.2, gone⟩
  rw [split]
  rfl

end Videre.Host
