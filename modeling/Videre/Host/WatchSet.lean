import Videre.Host.Discipline

/-! # The watch set

Three operations change the watch list: admission, the prune a poll starts with
and the fold of one polled status. One spec lemma a function says what each does
to the list; the set's invariant and what a step may drop follow from these.
-/

namespace Videre.Host

open Interaction

def WatchedIntent.pair (w : WatchedIntent) : VenueId × Bytes :=
  (w.venue, w.receipt)

structure WatchOk (P : Policy) (watched : List WatchedIntent) : Prop where
  capped : watched.length ≤ P.watchLimit.maxEntries
  distinct : (watched.map WatchedIntent.pair).Nodup
  unsettled : ∀ w ∈ watched, ∀ status, w.last = some status → isTerminal status = false

theorem watches_iff {venue : VenueId} {receipt : Bytes} {w : WatchedIntent} :
    w.watches venue receipt = true ↔ w.pair = (venue, receipt) := by
  simp [WatchedIntent.watches, WatchedIntent.pair]

theorem isWatched_iff {venue : VenueId} {receipt : Bytes} {watched : List WatchedIntent} :
    isWatched venue receipt watched = true ↔ (venue, receipt) ∈ watched.map WatchedIntent.pair := by
  simp only [isWatched, List.any_eq_true, watches_iff, List.mem_map]

theorem isWatched_of_mem {w : WatchedIntent} {watched : List WatchedIntent} (member : w ∈ watched) :
    isWatched w.venue w.receipt watched = true :=
  isWatched_iff.mpr (List.mem_map_of_mem member)

/-! ## What the functions do to the list -/

section Functions

variable (P : Policy) (r : Registry) (venue : VenueId) (receipt : Bytes)

theorem mem_pruneExpired {now : Nat} {w : WatchedIntent} {watched : List WatchedIntent} :
    w ∈ pruneExpired now watched ↔ w ∈ watched ∧ w.unexpired now = true :=
  List.mem_filter

/-- An admitted entry: nothing reported yet, and a deadline one grace after `now`. -/
def freshEntry (now : Nat) : WatchedIntent :=
  ⟨venue, receipt, none, Instant.checkedAdd P.horizon now P.watchLimit.grace⟩

/-- Admission keeps the unexpired entries and answers whether the pair is in the list; it
adds the pair when it is not there and the list is below its cap. -/
theorem watch_spec (nanos : Nat) :
    let kept := pruneExpired r.now r.watched
    (isWatched venue receipt kept = true ∧ (r.watch P venue receipt nanos).1 = true ∧
      (r.watch P venue receipt nanos).2.watched = kept) ∨
    (isWatched venue receipt kept = false ∧ kept.length < P.watchLimit.maxEntries ∧
      (r.watch P venue receipt nanos).1 = true ∧
      (r.watch P venue receipt nanos).2.watched =
        kept ++ [freshEntry P venue receipt (r.now + nanos)]) ∨
    (isWatched venue receipt kept = false ∧ P.watchLimit.maxEntries ≤ kept.length ∧
      (r.watch P venue receipt nanos).1 = false ∧
      (r.watch P venue receipt nanos).2.watched = kept) := by
  intro kept
  unfold Registry.watch Registry.elapse
  dsimp only
  by_cases there : (pruneExpired r.now r.watched).any (WatchedIntent.watches venue receipt) = true
  · rw [if_pos there]
    exact .inl ⟨there, rfl, rfl⟩
  · rw [if_neg there]
    have absent : isWatched venue receipt kept = false := Bool.eq_false_iff.mpr there
    by_cases room : (pruneExpired r.now r.watched).length < P.watchLimit.maxEntries
    · rw [if_pos room]
      exact .inr (.inl ⟨absent, room, rfl, rfl⟩)
    · rw [if_neg room]
      exact .inr (.inr ⟨absent, Nat.le_of_not_lt room, rfl, rfl⟩)

theorem statusBody_encodes (status : IntentStatus) :
    ∃ body, (statusBody status).encode = .ok body ∧
      Wire.StatusBody.decode body = .ok (statusBody status) := by
  obtain ⟨body, encoded, _⟩ := Wire.StatusBody.encode_bare (lifecycle status)
  exact ⟨body, encoded, Wire.StatusBody.decode_encode encoded⟩

theorem mem_around {pre post : List WatchedIntent} {x w : WatchedIntent} :
    w ∈ pre ++ x :: post ↔ w = x ∨ w ∈ pre ++ post :=
  List.perm_middle.mem_iff.trans List.mem_cons

/-- The entry at which a fold takes effect. -/
structure Found (watched pre post : List WatchedIntent) (w : WatchedIntent) : Prop where
  split : watched = pre ++ w :: post
  pair : w.pair = (venue, receipt)
  first : ∀ x ∈ pre, x.watches venue receipt = false

theorem Found.member {watched pre post : List WatchedIntent} {w : WatchedIntent}
    (found : Found venue receipt watched pre post w) : w ∈ watched := by
  rw [found.split]
  simp

theorem Found.isWatched {watched pre post : List WatchedIntent} {w : WatchedIntent}
    (found : Found venue receipt watched pre post w) :
    Host.isWatched venue receipt watched = true := by
  rw [isWatched_iff, ← found.pair]
  exact List.mem_map_of_mem found.member

theorem found_of_isWatched {watched : List WatchedIntent}
    (there : isWatched venue receipt watched = true) :
    ∃ pre w post, Found venue receipt watched pre post w := by
  induction watched with
  | nil => cases there
  | cons x watched ih =>
      by_cases here : x.watches venue receipt = true
      · exact ⟨[], x, watched, rfl, watches_iff.mp here, List.forall_mem_nil _⟩
      · have later : isWatched venue receipt watched = true := by
          simpa [isWatched, here] using there
        obtain ⟨pre, w, post, found⟩ := ih later
        refine ⟨x :: pre, w, post, by rw [found.split]; rfl, found.pair, ?_⟩
        intro y member
        rcases List.mem_cons.mp member with rfl | old
        · exact Bool.eq_false_iff.mpr here
        · exact found.first y old

theorem findIdx?_found {watched pre post : List WatchedIntent} {w : WatchedIntent}
    (found : Found venue receipt watched pre post w) :
    watched.findIdx? (WatchedIntent.watches venue receipt) = some pre.length := by
  rw [found.split, List.findIdx?_eq_some_iff_getElem]
  refine ⟨by simp, ?_, ?_⟩
  · simpa using watches_iff.mpr found.pair
  · intro j before
    have := found.first pre[j] (List.getElem_mem before)
    simpa [List.getElem_append_left before] using this

theorem modify_found {pre post : List WatchedIntent} {w : WatchedIntent}
    (f : WatchedIntent → WatchedIntent) :
    (pre ++ w :: post).modify pre.length f = pre ++ f w :: post := by
  induction pre with
  | nil => rfl
  | cons x pre ih => simpa using ih

theorem eraseIdx_found {pre post : List WatchedIntent} {w : WatchedIntent} :
    (pre ++ w :: post).eraseIdx pre.length = pre ++ post := by
  rw [List.eraseIdx_append_of_length_le (Nat.le_refl _)]
  simp

/-- What folding a status does to the entry it finds: a repeat refreshes the deadline, a new
status is reported and kept, a terminal one is reported and the entry removed. -/
theorem recordPolledStatus_spec (status : IntentStatus) {pre post : List WatchedIntent}
    {w : WatchedIntent} (found : Found venue receipt r.watched pre post w) :
    let expiresAt := Instant.checkedAdd P.horizon r.now P.watchLimit.grace
    (w.last = some status ∧
      r.recordPolledStatus P venue receipt status =
        (none, { r with watched := pre ++ { w with expiresAt } :: post })) ∨
    (w.last ≠ some status ∧
      ∃ body, Wire.StatusBody.decode body = .ok (statusBody status) ∧
        ((isTerminal status = true ∧
            r.recordPolledStatus P venue receipt status =
              (some ⟨venue.asStr, receipt, body⟩, { r with watched := pre ++ post })) ∨
          (isTerminal status = false ∧
            r.recordPolledStatus P venue receipt status =
              (some ⟨venue.asStr, receipt, body⟩,
                { r with watched := pre ++ { w with last := some status, expiresAt } :: post })))) := by
  intro expiresAt
  have position := findIdx?_found venue receipt found
  have entry : r.watched[pre.length]?.bind (·.last) = w.last := by
    rw [found.split]
    simp
  obtain ⟨body, encoded, decoded⟩ := statusBody_encodes status
  unfold Registry.recordPolledStatus
  simp only [position, entry, encoded]
  by_cases same : w.last = some status
  · rw [if_pos same, found.split, modify_found]
    exact .inl ⟨same, rfl⟩
  · right
    refine ⟨same, body, decoded, ?_⟩
    rw [if_neg same, found.split]
    by_cases terminal : isTerminal status = true
    · rw [if_pos terminal, eraseIdx_found]
      exact .inl ⟨terminal, rfl⟩
    · rw [if_neg terminal, modify_found]
      exact .inr ⟨Bool.eq_false_iff.mpr terminal, rfl⟩

end Functions

/-! ## The invariant -/

section Invariant

variable {P : Policy} {watched : List WatchedIntent}

/-- An entry of another pair stands beside the one found. -/
theorem Found.beside {venue : VenueId} {receipt : Bytes} {pre post : List WatchedIntent}
    {x w : WatchedIntent} (found : Found venue receipt watched pre post x) (member : w ∈ watched)
    (other : w.pair ≠ (venue, receipt)) : w ∈ pre ++ post := by
  rw [found.split] at member
  rcases mem_around.mp member with rfl | beside
  · exact absurd found.pair other
  · exact beside

theorem WatchOk.sublist {part : List WatchedIntent} (ok : WatchOk P watched)
    (sub : part.Sublist watched) : WatchOk P part where
  capped := Nat.le_trans sub.length_le ok.capped
  distinct := ok.distinct.sublist (sub.map _)
  unsettled := fun w member => ok.unsettled w (sub.subset member)

theorem WatchOk.pruned (ok : WatchOk P watched) (now : Nat) : WatchOk P (pruneExpired now watched) :=
  ok.sublist List.filter_sublist

theorem WatchOk.pushed (ok : WatchOk P watched) {venue : VenueId} {receipt : Bytes}
    (absent : isWatched venue receipt watched = false)
    (room : watched.length < P.watchLimit.maxEntries) (now : Nat) :
    WatchOk P (watched ++ [freshEntry P venue receipt now]) where
  capped := by
    rw [List.length_append, List.length_singleton]
    omega
  distinct := by
    have out : (venue, receipt) ∉ watched.map WatchedIntent.pair := by
      rw [← isWatched_iff, absent]
      nofun
    rw [List.map_append, List.nodup_append]
    refine ⟨ok.distinct, List.nodup_singleton _, ?_⟩
    intro a old b new same
    rw [List.map_singleton, List.mem_singleton] at new
    rw [same, new] at old
    exact out old
  unsettled := by
    intro w member status last
    rcases List.mem_append.mp member with old | new
    · exact ok.unsettled w old status last
    · rw [List.mem_singleton.mp new] at last
      cases last

theorem WatchOk.replaced {pre post : List WatchedIntent} {w w' : WatchedIntent}
    (ok : WatchOk P (pre ++ w :: post)) (same : w'.pair = w.pair)
    (unsettled : ∀ status, w'.last = some status → isTerminal status = false) :
    WatchOk P (pre ++ w' :: post) where
  capped := by simpa using ok.capped
  distinct := by
    have distinct := ok.distinct
    rw [List.map_append, List.map_cons] at distinct ⊢
    rw [same]
    exact distinct
  unsettled := by
    intro x member
    rcases mem_around.mp member with rfl | beside
    · exact unsettled
    · exact ok.unsettled x (mem_around.mpr (.inr beside))

theorem WatchOk.watch {r : Registry} (ok : WatchOk P r.watched) (venue : VenueId) (receipt : Bytes)
    (nanos : Nat) : WatchOk P (r.watch P venue receipt nanos).2.watched := by
  have kept := ok.pruned r.now
  rcases watch_spec P r venue receipt nanos with ⟨_, _, h⟩ | ⟨absent, room, _, h⟩ | ⟨_, _, _, h⟩
  · rw [h]
    exact kept
  · rw [h]
    exact kept.pushed absent room _
  · rw [h]
    exact kept

theorem WatchOk.recordPolledStatus {r : Registry} (ok : WatchOk P r.watched) (venue : VenueId)
    (receipt : Bytes) (status : IntentStatus) :
    WatchOk P (r.recordPolledStatus P venue receipt status).2.watched := by
  by_cases there : isWatched venue receipt r.watched = true
  · obtain ⟨pre, w, post, found⟩ := found_of_isWatched venue receipt there
    rw [found.split] at ok
    rcases recordPolledStatus_spec P r venue receipt status found with
      ⟨_, h⟩ | ⟨_, body, _, ⟨_, h⟩ | ⟨still, h⟩⟩
    · rw [h]
      exact ok.replaced rfl (ok.unsettled w (by simp))
    · rw [h]
      exact ok.sublist ((List.sublist_cons_self w post).append_left pre)
    · rw [h]
      refine ok.replaced rfl fun s last => ?_
      cases last
      exact still
  · rw [recordPolledStatus_unwatched (Bool.eq_false_iff.mpr there)]
    exact ok

theorem act_watched {id : Nat} {o : Op} {i : Input} {r r' : Registry} {a : o.Ans}
    {events : List Event} (acts : act P id o i r = some (a, events, r')) :
    (∃ venue receipt nanos, o = .watch venue receipt ∧ i = .elapsed nanos ∧
      r' = (r.watch P venue receipt nanos).2) ∨
    (o = .snapshot ∧ r' = r.snapshot.2) ∨
    (∃ venue receipt status, o = .recordPolledStatus venue receipt status ∧
      r' = (r.recordPolledStatus P venue receipt status).2) ∨
    r'.watched = r.watched ∧ ∀ e ∈ events, e.onWatch = false := by
  cases o with
  | watch venue receipt =>
      obtain ⟨nanos, hi, _, hr, _⟩ := act_watch acts
      exact .inl ⟨venue, receipt, nanos, rfl, hi, hr⟩
  | snapshot =>
      obtain ⟨_, _, hr⟩ := act_snapshot acts
      exact .inr (.inl ⟨rfl, hr⟩)
  | recordPolledStatus venue receipt status =>
      obtain ⟨_, hr, _⟩ := act_recordPolledStatus acts
      exact .inr (.inr (.inl ⟨venue, receipt, status, rfl, hr⟩))
  | resolve venue =>
      obtain ⟨_, hevents, hr⟩ := act_resolve acts
      exact .inr (.inr (.inr ⟨by rw [hr], by simp [hevents, Event.onWatch]⟩))
  | quotaAdmits caller =>
      obtain ⟨_, hevents, hr⟩ := act_quotaAdmits acts
      exact .inr (.inr (.inr ⟨by rw [hr]; rfl, by simp [hevents, Event.onWatch]⟩))
  | charge caller =>
      obtain ⟨_, _, hevents, hr⟩ := act_charge acts
      exact .inr (.inr (.inr ⟨by rw [hr]; rfl, by simp [hevents, Event.onWatch]⟩))
  | lock slot =>
      obtain ⟨_, hevents, hr⟩ := act_lock acts
      exact .inr (.inr (.inr ⟨by rw [hr], by simp [hevents, Event.onWatch]⟩))
  | unlock slot =>
      obtain ⟨hevents, hr⟩ := act_unlock acts
      exact .inr (.inr (.inr ⟨by rw [hr], by simp [hevents, Event.onWatch]⟩))
  | invoke slot inv =>
      obtain ⟨hevents, hr⟩ := act_invoke acts
      exact .inr (.inr (.inr ⟨by rw [hr], by simp [hevents, Event.onWatch]⟩))
  | answer slot inv =>
      obtain ⟨_, _, hevents, hr⟩ := act_answer acts
      exact .inr (.inr (.inr ⟨by rw [hr], by simp [hevents, Event.onWatch]⟩))
  | check ctx =>
      obtain ⟨hevents, hr⟩ := act_check acts
      exact .inr (.inr (.inr ⟨by rw [hr], by simp [hevents, Event.onWatch]⟩))

theorem offWatch_onRoute {e : Event} (routing : e.onRoute = true) : e.onWatch = false := by
  cases e <;> first | rfl | cases routing

/-- A step of the pool is one of the three watch operations, or leaves the list alone. -/
theorem step_watched {p q : RegistryPool} {label : Label Input HostEvent Call}
    (moves : (venueRegistry P).step p label = some q) :
    (∃ id o rest i a events, label = .advance id i ∧ p.threads id = some (.call o rest) ∧
      act P id o i p.shared = some (a, events, q.shared) ∧
      q.threads id = some (rest a) ∧ q.log = p.log ++ tagged (some id) events ∧
      ((∃ venue receipt nanos, o = .watch venue receipt ∧ i = .elapsed nanos ∧
          q.shared = (p.shared.watch P venue receipt nanos).2) ∨
        (o = .snapshot ∧ q.shared = p.shared.snapshot.2) ∨
        ∃ venue receipt status, o = .recordPolledStatus venue receipt status ∧
          q.shared = (p.shared.recordPolledStatus P venue receipt status).2)) ∨
    (q.shared.watched = p.shared.watched ∧
      ∃ who events, q.log = p.log ++ tagged who events ∧ ∀ e ∈ events, e.onWatch = false) := by
  obtain ⟨call, rfl, rfl⟩ | ⟨id, i, o, rest, a, events, r, rfl, thread, acts, rfl⟩ |
    ⟨id, o, rest, events, r, rfl, thread, gone, rfl⟩ | ⟨event, rfl, rfl⟩ :=
      (venueRegistry P).step_cases moves
  · exact .inr ⟨rfl, none, [], by simp, List.forall_mem_nil _⟩
  · have here : Function.update p.threads id (some (rest a)) id = some (rest a) :=
      Function.update_self _ _ _
    rcases act_watched acts with h | h | h | ⟨same, quiet⟩
    · exact .inl ⟨id, o, rest, i, a, events, rfl, thread, acts, here, rfl, .inl h⟩
    · exact .inl ⟨id, o, rest, i, a, events, rfl, thread, acts, here, rfl, .inr (.inl h)⟩
    · exact .inl ⟨id, o, rest, i, a, events, rfl, thread, acts, here, rfl, .inr (.inr h)⟩
    · exact .inr ⟨same, some id, events, rfl, quiet⟩
  · right
    rcases abandon_cases id gone with ⟨_, _, hevents, hr⟩ | ⟨slot, _, _, hevents, hr⟩
    · rw [hevents, hr]
      exact ⟨rfl, none, [], by simp, List.forall_mem_nil _⟩
    · rw [hevents, hr]
      exact ⟨rfl, some id, [.unlocked slot], rfl, by simp [Event.onWatch]⟩
  · have quiet := fun e h => offWatch_onRoute (host_onRoute event p.shared e h)
    exact .inr ⟨(host_frame event p.shared).2.2.2, none, _, rfl, quiet⟩

theorem watchOk {p : RegistryPool} {start : Nat}
    (reach : (venueRegistry P).Reach (Registry.new start) p) : WatchOk P p.shared.watched := by
  induction reach with
  | start => exact ⟨Nat.zero_le _, List.nodup_nil, List.forall_mem_nil _⟩
  | step before moves ih =>
      rcases step_watched moves with ⟨_, _, _, _, _, _, _, _, _, _, _, h⟩ | ⟨same, _⟩
      · rcases h with ⟨venue, receipt, nanos, _, _, h⟩ | ⟨_, h⟩ | ⟨venue, receipt, status, _, h⟩
        · rw [h]
          exact ih.watch venue receipt nanos
        · rw [h]
          exact ih.pruned _
        · rw [h]
          exact ih.recordPolledStatus venue receipt status
      · rw [same]
        exact ih

end Invariant

/-! ## What leaves the list -/

section Leaving

variable {P : Policy} {r : Registry} {venue : VenueId} {receipt : Bytes}

/-- Admission keeps every unexpired entry as it was. -/
theorem watch_keeps {w : WatchedIntent} (member : w ∈ r.watched)
    (unexpired : w.unexpired r.now = true) (nanos : Nat) :
    w ∈ (r.watch P venue receipt nanos).2.watched := by
  have kept : w ∈ pruneExpired r.now r.watched := mem_pruneExpired.mpr ⟨member, unexpired⟩
  rcases watch_spec P r venue receipt nanos with ⟨_, _, h⟩ | ⟨_, _, _, h⟩ | ⟨_, _, _, h⟩
  · rw [h]
    exact kept
  · rw [h]
    exact List.mem_append_left _ kept
  · rw [h]
    exact kept

/-- Admission answers whether the pair is in the list it leaves. -/
theorem watch_answers (r : Registry) (venue : VenueId) (receipt : Bytes) (nanos : Nat) :
    (r.watch P venue receipt nanos).1 = true ↔
      isWatched venue receipt (r.watch P venue receipt nanos).2.watched = true := by
  rcases watch_spec P r venue receipt nanos with ⟨there, yes, h⟩ | ⟨_, _, yes, h⟩ |
    ⟨absent, _, no, h⟩
  · rw [h, yes, there]
  · rw [h, yes]
    simp [isWatched, freshEntry, WatchedIntent.watches]
  · rw [h, no, absent]

/-- Folding a status keeps every pair but the one it reports a terminal status for. -/
theorem recordPolledStatus_keeps (P : Policy) (venue : VenueId) (receipt : Bytes)
    {w : WatchedIntent} (status : IntentStatus)
    (member : w ∈ r.watched) :
    isWatched w.venue w.receipt (r.recordPolledStatus P venue receipt status).2.watched = true ∨
      w.pair = (venue, receipt) ∧ isTerminal status = true ∧
        ∃ update, (r.recordPolledStatus P venue receipt status).1 = some update := by
  by_cases there : isWatched venue receipt r.watched = true
  · obtain ⟨pre, x, post, found⟩ := found_of_isWatched venue receipt there
    have in_pairs : w.pair ∈ (pre ++ x :: post).map WatchedIntent.pair := by
      rw [← found.split]
      exact List.mem_map_of_mem member
    rw [List.map_append, List.map_cons] at in_pairs
    rcases recordPolledStatus_spec P r venue receipt status found with
      ⟨_, h⟩ | ⟨_, body, _, ⟨terminal, h⟩ | ⟨_, h⟩⟩
    · left
      rw [h, isWatched_iff, List.map_append, List.map_cons]
      exact in_pairs
    · by_cases mine : w.pair = (venue, receipt)
      · exact .inr ⟨mine, terminal, _, by rw [h]⟩
      · left
        rw [h]
        exact isWatched_of_mem (found.beside member mine)
    · left
      rw [h, isWatched_iff, List.map_append, List.map_cons]
      exact in_pairs
  · left
    rw [recordPolledStatus_unwatched (Bool.eq_false_iff.mpr there)]
    exact isWatched_of_mem member

end Leaving

/-! ## Observing -/

/-- Where an observation stands: at its resolve, at its admission, or done. -/
def ObservePoint (venue : VenueId) (receipt : Bytes) (past : List Event) (p : Async Outcome) :
    Prop :=
  past = [] ∨ (∃ outcome, p = .done outcome) ∨
    ∃ rest, p = .call (.watch venue receipt) rest ∧ ∀ admitted, rest admitted = .done (.observed
      (if admitted then .ok () else .error (.unavailable "status watch set full")))

def WatchPoint (call : Call) (past : List Event) (p : Async Outcome) : Prop :=
  ∀ venue receipt, call = .observe venue receipt → ObservePoint venue receipt past p

theorem stands_other (P : Policy) {call : Call} (other : ∀ venue receipt, call ≠ .observe venue receipt)
    (id : Nat) (past : List Event) (p : Async Outcome) :
    (venueRegistry P).Adheres (fun _ _ => True) (WatchPoint call) id past p := by
  apply System.Adheres.of_forall (fun _ _ => trivial)
  intro past p venue receipt same
  exact absurd same (other venue receipt)

theorem stands_observe (P : Policy) (id : Nat) (venue : VenueId) (receipt : Bytes) :
    (venueRegistry P).Adheres (fun _ _ => True) (WatchPoint (.observe venue receipt)) id []
      (Call.code P (.observe venue receipt)) := by
  refine ⟨fun _ _ _ => .inl rfl, ?_, nofun⟩
  intro i s a events t _
  refine ⟨Extends.of_forall (fun _ _ => trivial) _ _, ?_⟩
  cases a with
  | error e => exact fun _ _ _ => .inr (.inl ⟨_, rfl⟩)
  | ok slot =>
      refine ⟨?_, ?_, nofun⟩
      · intro venue' receipt' same
        cases same
        right; right
        refine ⟨_, rfl, fun admitted => ?_⟩
        cases admitted <;> rfl
      · intro i s admitted events t _
        refine ⟨Extends.of_forall (fun _ _ => trivial) _ _, ?_⟩
        cases admitted with
        | false => exact fun _ _ _ => .inr (.inl ⟨_, rfl⟩)
        | true => exact fun _ _ _ => .inr (.inl ⟨_, rfl⟩)

theorem stands_code (P : Policy) (id : Nat) (call : Call) :
    (venueRegistry P).Adheres (fun _ _ => True) (WatchPoint call) id [] (Call.code P call) := by
  cases call with
  | observe venue receipt => exact stands_observe P id venue receipt
  | _ => exact stands_other P (by exact nofun) id _ _

theorem observe_stands {P : Policy} {p : RegistryPool} {start : Nat}
    (reach : (venueRegistry P).Reach (Registry.new start) p) {id : Nat} {venue : VenueId}
    {receipt : Bytes} (made : p.calls[id]? = some (.observe venue receipt)) {t : Async Outcome}
    (thread : p.threads id = some t) : ObservePoint venue receipt (own id p.log) t :=
  ((reach.adheres (fun id call => stands_code P id call) made).2 t thread).at_point _ _ rfl

/-! ## Integrity -/

def ReportsTerminal (logged : List (Entry Event)) (w : WatchedIntent) : Prop :=
  ∃ who status update, ⟨who, .folded w.venue w.receipt status (some update)⟩ ∈ logged ∧
    isTerminal status = true

theorem step_leaves {P : Policy} {p q : RegistryPool} {label : Label Input HostEvent Call}
    (moves : (venueRegistry P).step p label = some q) :
    ∃ logged, q.log = p.log ++ logged ∧ ∀ w ∈ p.shared.watched,
      isWatched w.venue w.receipt q.shared.watched = true ∨
        w.unexpired p.shared.now = false ∨ ReportsTerminal logged w := by
  rcases step_watched moves with ⟨id, o, rest, i, a, events, _, _, acts, _, log, h⟩ |
    ⟨same, who, events, log, _⟩
  · refine ⟨_, log, fun w member => ?_⟩
    by_cases unexpired : w.unexpired p.shared.now = true
    · rcases h with ⟨venue, receipt, nanos, _, _, h⟩ | ⟨_, h⟩ | ⟨venue, receipt, status, ho, h⟩
      · left
        rw [h]
        exact isWatched_of_mem (watch_keeps member unexpired nanos)
      · left
        rw [h]
        exact isWatched_of_mem (mem_pruneExpired.mpr ⟨member, unexpired⟩)
      · subst ho
        obtain ⟨ha, hr, hevents⟩ := act_recordPolledStatus acts
        rcases recordPolledStatus_keeps P venue receipt status member
          with kept | ⟨mine, terminal, update, reported⟩
        · left
          rw [h]
          exact kept
        · right; right
          simp only [WatchedIntent.pair, Prod.mk.injEq] at mine
          have watched : isWatched venue receipt p.shared.watched = true := by
            rw [← mine.1, ← mine.2]
            exact isWatched_of_mem member
          rw [if_pos watched, ha, reported] at hevents
          refine ⟨some id, status, update, ?_, terminal⟩
          rw [hevents, mine.1, mine.2]
          simp
    · exact .inr (.inl (Bool.eq_false_iff.mpr unexpired))
  · refine ⟨_, log, fun w member => .inl ?_⟩
    rw [same]
    exact isWatched_of_mem member

/-- One admission, as a step of the call that makes it. -/
theorem step_admits {P : Policy} {p q : RegistryPool} {id : Nat} {input : Input} {venue : VenueId}
    {receipt : Bytes} {rest : Bool → Async Outcome}
    (thread : p.threads id = some (.call (.watch venue receipt) rest))
    (moves : (venueRegistry P).step p (.advance id input) = some q) :
    ∃ admitted, q.threads id = some (rest admitted) ∧
      (admitted = true ↔ isWatched venue receipt q.shared.watched = true) ∧
      ∀ w ∈ p.shared.watched, w.unexpired p.shared.now = true → w ∈ q.shared.watched := by
  rcases (venueRegistry P).step_cases moves with ⟨_, hlabel, _⟩ |
    ⟨id', i, o, rest', a, events, r, hlabel, thread', acts, hq⟩ | ⟨_, _, _, _, _, hlabel, _⟩ |
    ⟨_, hlabel, _⟩
  · cases hlabel
  · cases hlabel
    rw [thread] at thread'
    cases thread'
    subst hq
    obtain ⟨nanos, _, ha, hr, _⟩ := act_watch acts
    refine ⟨a, Function.update_self _ _ _, ?_, ?_⟩
    · rw [ha, hr]
      exact watch_answers _ _ _ _
    · intro w member unexpired
      rw [hr]
      exact watch_keeps member unexpired nanos
  · cases hlabel
  · cases hlabel

/-- In every reachable state the watch list is within the clamped cap, its pairs are
distinct and no entry is settled; a step drops an entry only past its deadline or with its
terminal report; an admission, refused or not, leaves every unexpired entry as it was; and an
observation of a resolved venue answers whether the pair is in the list it leaves. -/
theorem watch_set_integrity {builder : VenueRegistryBuilder} {horizon : Nat} {p : RegistryPool}
    (reach : Reachable (builder.build horizon) p) :
    p.shared.watched.length ≤ max builder.watchLimit.maxEntries 1 ∧
    (p.shared.watched.map WatchedIntent.pair).Nodup ∧
    (∀ w ∈ p.shared.watched, ∀ status, w.last = some status → isTerminal status = false) ∧
    (∀ label q, (venueRegistry (builder.build horizon)).step p label = some q →
      ∃ logged, q.log = p.log ++ logged ∧ ∀ w ∈ p.shared.watched,
        isWatched w.venue w.receipt q.shared.watched = true ∨
          w.unexpired p.shared.now = false ∨ ReportsTerminal logged w) ∧
    (∀ id input q venue receipt rest,
      p.threads id = some (.call (.watch venue receipt) rest) →
      (venueRegistry (builder.build horizon)).step p (.advance id input) = some q →
      ∃ admitted, q.threads id = some (rest admitted) ∧
        (admitted = true ↔ isWatched venue receipt q.shared.watched = true) ∧
        ∀ w ∈ p.shared.watched, w.unexpired p.shared.now = true → w ∈ q.shared.watched) ∧
    (∀ id input q venue receipt slot,
      p.calls[id]? = some (.observe venue receipt) →
      .resolved venue (.ok slot) ∈ own id p.log →
      (venueRegistry (builder.build horizon)).step p (.advance id input) = some q →
      ∃ result, q.threads id = some (.done (.observed result)) ∧
        (result = .ok () ↔ isWatched venue receipt q.shared.watched = true)) := by
  obtain ⟨start, reach⟩ := reach
  have ok := watchOk reach
  refine ⟨ok.capped, ok.distinct, ok.unsettled, fun label q moves => step_leaves moves,
    fun id input q venue receipt rest thread moves => step_admits thread moves, ?_⟩
  intro id input q venue receipt slot made resolved moves
  obtain ⟨t, thread⟩ : ∃ t, p.threads id = some t := by
    cases thread : p.threads id with
    | none => simp [System.step, thread] at moves
    | some t => exact ⟨t, rfl⟩
  rcases observe_stands reach made thread with fresh | ⟨outcome, finished⟩ | ⟨rest, admits, ends⟩
  · rw [fresh] at resolved
    cases resolved
  · simp [System.step, thread, finished] at moves
  · rw [admits] at thread
    obtain ⟨admitted, after, answer, _⟩ := step_admits thread moves
    rw [ends admitted] at after
    refine ⟨_, after, ?_⟩
    rw [← answer]
    cases admitted <;> simp

/-- A watch list without a configured entry: one receipt is admitted, the next refused. -/
def refusedWatch : Schedule :=
  [.host (.register stubVenue 0 ∅), .spawn (.observe stubVenue [7]),
    .advance 0 (.elapsed 0), .advance 0 (.elapsed 0), .spawn (.observe stubVenue [8]),
    .advance 1 (.elapsed 0), .advance 1 (.elapsed 0)]

def noEntries : VenueRegistryBuilder :=
  (VenueRegistryBuilder.new ⟨1, .fromSecs 60⟩).withWatchLimit (.new 0 (.fromSecs 60))

theorem watch_set_integrity_stub :
    ∃ p, Reachable (noEntries.build (2 ^ 64)) p ∧
      p.shared.watched.map WatchedIntent.pair = [(stubVenue, [7])] ∧
      p.shared.watched.length ≤ max 0 1 := by
  have ran : ((venueRegistry (noEntries.build (2 ^ 64))).run refusedWatch
      (System.empty (Registry.new 0))).map (fun p => p.shared.watched.map WatchedIntent.pair) =
      some [(stubVenue, [7])] := by
    decide
  obtain ⟨p, reached, pairs⟩ := Option.map_eq_some_iff.mp ran
  have reach : Reachable (noEntries.build (2 ^ 64)) p := ⟨0, .of_run .start reached⟩
  exact ⟨p, reach, pairs, (watch_set_integrity reach).1⟩

end Videre.Host
