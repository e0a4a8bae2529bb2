import Videre.Host.Transitions
import Videre.Host.Ledger
import Videre.Interaction.Clocked

/-! # Deadlines

An entry's deadline is one grace after the registry last heard of its pair: its
insertion or the last status folded into it, whichever is later. A run's stamped log
says when that was, so a deadline is a fact about the log.
-/

namespace Videre.Host

open Interaction

abbrev Timed (P : Policy) (start : Nat) : List (Stamped Event) → RegistryPool → Prop :=
  (venueRegistry P).Clocked Registry.now (Registry.new start)

def Event.hears (venue : VenueId) (receipt : Bytes) : Event → Bool
  | .inserted v r | .folded v r _ _ => v = venue && r = receipt
  | _ => false

def LastHeard (venue : VenueId) (receipt : Bytes) (h : List (Stamped Event)) (t : Nat) : Prop :=
  ∃ before e after, h = before ++ e :: after ∧ e.entry.what.hears venue receipt = true ∧
    e.closed = t ∧ ∀ x ∈ after, x.entry.what.about venue receipt = false

section Heard

variable {venue : VenueId} {receipt : Bytes}

theorem hears_about {e : Event} (hears : e.hears venue receipt = true) :
    e.about venue receipt = true := by
  cases e <;> first | exact hears | cases hears

theorem LastHeard.append {h more : List (Stamped Event)} {t : Nat}
    (heard : LastHeard venue receipt h t)
    (aside : ∀ x ∈ more, x.entry.what.about venue receipt = false) :
    LastHeard venue receipt (h ++ more) t := by
  obtain ⟨before, e, after, split, hears, at_, quiet⟩ := heard
  refine ⟨before, e, after ++ more, by rw [split, List.append_assoc]; rfl, hears, at_, ?_⟩
  intro x member
  rcases List.mem_append.mp member with old | new
  · exact quiet x old
  · exact aside x new

theorem LastHeard.latest {h : List (Stamped Event)} {t : Nat} (heard : LastHeard venue receipt h t)
    (ordered : h.Pairwise fun x y => x.closed ≤ y.closed) {x : Stamped Event} (member : x ∈ h)
    (hears : x.entry.what.hears venue receipt = true) : x.closed ≤ t := by
  obtain ⟨before, e, after, split, _, at_, quiet⟩ := heard
  rw [split] at member ordered
  rcases List.mem_append.mp member with old | rest
  · rw [← at_]
    exact (List.pairwise_append.mp ordered).2.2 x old e List.mem_cons_self
  · rcases List.mem_cons.mp rest with rfl | new
    · exact Nat.le_of_eq at_
    · have aside := quiet x new
      rw [hears_about hears] at aside
      cases aside

theorem LastHeard.member {h : List (Stamped Event)} {t : Nat} (heard : LastHeard venue receipt h t) :
    ∃ e ∈ h, e.entry.what.hears venue receipt = true ∧ e.closed = t := by
  obtain ⟨before, e, after, split, hears, at_, _⟩ := heard
  exact ⟨e, by rw [split]; simp, hears, at_⟩

theorem LastHeard.unique {h : List (Stamped Event)} {t t' : Nat}
    (heard : LastHeard venue receipt h t) (heard' : LastHeard venue receipt h t')
    (ordered : h.Pairwise fun x y => x.closed ≤ y.closed) : t = t' := by
  obtain ⟨e, member, hears, at_⟩ := heard.member
  obtain ⟨e', member', hears', at_'⟩ := heard'.member
  have before := heard'.latest ordered member hears
  have after := heard.latest ordered member' hears'
  omega

end Heard

/-! ## What one operation does to a deadline -/

section Operations

variable {P : Policy} {id : Nat} {i : Input} {r r' : Registry} {events : List Event}

/-- An entry after an operation: one that was there, with nothing logged about its pair, or
one just heard of, due one grace after the operation. -/
def KeptOrHeard (P : Policy) (r r' : Registry) (events : List Event) (w : WatchedIntent) : Prop :=
  (w ∈ r.watched ∧ ∀ e ∈ events, e.about w.venue w.receipt = false) ∨
    ∃ front e rest, events = front ++ e :: rest ∧ e.hears w.venue w.receipt = true ∧
      (∀ x ∈ rest, x.about w.venue w.receipt = false) ∧
      w.expiresAt = Instant.checkedAdd P.horizon r'.now P.watchLimit.grace

theorem about_evictions {now : Nat} {watched : List WatchedIntent} {venue : VenueId}
    {receipt : Bytes} {e : Event} (member : e ∈ evictions now watched)
    (about : e.about venue receipt = true) :
    ∃ w ∈ watched, w.pair = (venue, receipt) ∧ w.unexpired now = false := by
  simp only [evictions, List.mem_map, List.mem_filter] at member
  obtain ⟨w, ⟨here, expired⟩, rfl⟩ := member
  refine ⟨w, here, ?_, by simpa using expired⟩
  simpa [Event.about, WatchedIntent.pair] using about

theorem aside_of_kept (ok : WatchOk P r.watched) {w : WatchedIntent} {now : Nat}
    (kept : w ∈ pruneExpired now r.watched) :
    ∀ e ∈ evictions now r.watched, e.about w.venue w.receipt = false := by
  intro e member
  by_contra about
  obtain ⟨here, alive⟩ := mem_pruneExpired.mp kept
  obtain ⟨x, there, pair, expired⟩ := about_evictions member (Bool.eq_true_of_not_eq_false about)
  have same : x = w := List.inj_on_of_nodup_map ok.distinct there here pair
  rw [same, alive] at expired
  cases expired

theorem evicted_of_pruned {w : WatchedIntent} {now : Nat} (member : w ∈ r.watched)
    (expired : w.unexpired now = false) :
    .evicted w.venue w.receipt ∈ evictions now r.watched := by
  simp only [evictions, List.mem_map, List.mem_filter]
  exact ⟨w, ⟨member, by simpa using expired⟩, rfl⟩

theorem act_watch_entry {venue : VenueId} {receipt : Bytes} {a : Bool} (ok : WatchOk P r.watched)
    (acts : act P id (.watch venue receipt) i r = some (a, events, r')) {w : WatchedIntent}
    (member : w ∈ r'.watched) : KeptOrHeard P r r' events w := by
  obtain ⟨nanos, _, ha, hr, hevents⟩ := act_watch acts
  rcases watch_spec P r venue receipt nanos with ⟨there, yes, h⟩ | ⟨absent, _, yes, h⟩ |
    ⟨absent, _, no, h⟩
  · rw [hr, h] at member
    left
    rw [hevents, there]
    simp only [Bool.not_true, Bool.and_false, Bool.false_eq_true, if_false, List.append_nil]
    exact ⟨(mem_pruneExpired.mp member).1, aside_of_kept ok member⟩
  · rw [hr, h] at member
    rw [hevents, ha, yes, absent]
    simp only [Bool.not_false, Bool.and_self, if_true]
    rcases List.mem_append.mp member with old | new
    · left
      refine ⟨(mem_pruneExpired.mp old).1, ?_⟩
      intro e logged
      rcases List.mem_append.mp logged with gone | added
      · exact aside_of_kept ok old e gone
      · rw [List.mem_singleton.mp added]
        by_contra about
        have mine : venue = w.venue ∧ receipt = w.receipt := by simpa [Event.about] using about
        rw [mine.1, mine.2, isWatched_of_mem old] at absent
        cases absent
    · right
      rw [List.mem_singleton] at new
      subst new
      have clock : r'.now = r.now + nanos := by rw [hr, watch_frame]
      refine ⟨_, .inserted venue receipt, [], rfl, by simp [Event.hears, freshEntry],
        List.forall_mem_nil _, ?_⟩
      rw [clock]
      rfl
  · rw [hr, h] at member
    left
    rw [hevents, ha, no]
    simp only [Bool.false_and, Bool.false_eq_true, if_false, List.append_nil]
    exact ⟨(mem_pruneExpired.mp member).1, aside_of_kept ok member⟩

theorem act_snapshot_entry {a : List (VenueId × Bytes)} (ok : WatchOk P r.watched)
    (acts : act P id .snapshot i r = some (a, events, r')) {w : WatchedIntent}
    (member : w ∈ r'.watched) : KeptOrHeard P r r' events w := by
  obtain ⟨_, hevents, hr⟩ := act_snapshot acts
  have kept : w ∈ pruneExpired r.now r.watched := by
    rw [hr] at member
    exact member
  rw [hevents]
  exact .inl ⟨(mem_pruneExpired.mp kept).1, aside_of_kept ok kept⟩

theorem Found.apart {venue : VenueId} {receipt : Bytes} {watched pre post : List WatchedIntent}
    {x w : WatchedIntent} (found : Found venue receipt watched pre post x)
    (distinct : (watched.map WatchedIntent.pair).Nodup) (member : w ∈ pre ++ post) :
    w.pair ≠ (venue, receipt) := by
  rw [found.split, List.map_append, List.map_cons, List.nodup_middle, List.nodup_cons,
    ← List.map_append] at distinct
  intro same
  apply distinct.1
  rw [found.pair, ← same]
  exact List.mem_map_of_mem member

theorem act_record_entry {venue : VenueId} {receipt : Bytes} {status : IntentStatus}
    {a : Option Wire.IntentStatusUpdate} (ok : WatchOk P r.watched)
    (acts : act P id (.recordPolledStatus venue receipt status) i r = some (a, events, r'))
    {w : WatchedIntent} (member : w ∈ r'.watched) : KeptOrHeard P r r' events w := by
  obtain ⟨_, hr, hevents⟩ := act_recordPolledStatus acts
  by_cases there : isWatched venue receipt r.watched = true
  · obtain ⟨pre, x, post, found⟩ := found_of_isWatched venue receipt there
    have other : w ∈ pre ++ post → KeptOrHeard P r r' events w := by
      intro beside
      have apart := found.apart ok.distinct beside
      left
      constructor
      · rw [found.split]
        exact mem_around.mpr (.inr beside)
      · exact (record_other_pair found (Ne.symm apart) acts).2
    have clock : r'.now = r.now := by rw [hr, recordPolledStatus_frame]
    have own : ∀ y : WatchedIntent, y.pair = (venue, receipt) →
        y.expiresAt = Instant.checkedAdd P.horizon r.now P.watchLimit.grace →
        r'.watched = pre ++ y :: post → KeptOrHeard P r r' events w := by
      intro y pair deadline after
      rw [after] at member
      rcases mem_around.mp member with rfl | beside
      · right
        have still : isWatched venue receipt r'.watched = true := by
          rw [after, isWatched_iff, ← pair]
          simp
        simp only [WatchedIntent.pair, Prod.mk.injEq] at pair
        rw [if_pos there, if_pos still] at hevents
        refine ⟨[], _, [], hevents, ?_, List.forall_mem_nil _, ?_⟩
        · simp [Event.hears, pair]
        · rw [clock]
          exact deadline
      · exact other beside
    rcases recordPolledStatus_spec P r venue receipt status found with
      ⟨_, h⟩ | ⟨_, body, _, ⟨_, h⟩ | ⟨_, h⟩⟩
    · rw [h] at hr
      apply own { x with
        expiresAt := Instant.checkedAdd P.horizon r.now P.watchLimit.grace } found.pair rfl
      rw [hr]
    · rw [hr, h] at member
      exact other member
    · rw [h] at hr
      apply own { x with
        last := some status
        expiresAt := Instant.checkedAdd P.horizon r.now P.watchLimit.grace } found.pair rfl
      rw [hr]
  · have unwatched : isWatched venue receipt r.watched = false := Bool.eq_false_iff.mpr there
    rw [hr, recordPolledStatus_unwatched unwatched] at member
    rw [hevents, if_neg there]
    exact .inl ⟨member, List.forall_mem_nil _⟩

/-- An operation leaves an entry as it was, or logs something about its pair. -/
theorem act_leaves {o : Op} {a : o.Ans} (acts : act P id o i r = some (a, events, r'))
    {w : WatchedIntent} (member : w ∈ r.watched) :
    w ∈ r'.watched ∨ ∃ e ∈ events, e.about w.venue w.receipt = true := by
  rcases act_watched acts with ⟨venue, receipt, nanos, ho, _, h⟩ | ⟨ho, h⟩ |
    ⟨venue, receipt, status, ho, h⟩ | ⟨same, _⟩
  · subst ho
    obtain ⟨_, _, _, _, hevents⟩ := act_watch acts
    by_cases unexpired : w.unexpired r.now = true
    · left
      rw [h]
      exact watch_keeps member unexpired nanos
    · right
      have gone := evicted_of_pruned member (Bool.eq_false_iff.mpr unexpired)
      rw [hevents]
      exact ⟨_, List.mem_append_left _ gone, by simp [Event.about]⟩
  · subst ho
    obtain ⟨_, hevents, _⟩ := act_snapshot acts
    by_cases unexpired : w.unexpired r.now = true
    · left
      rw [h]
      exact mem_pruneExpired.mpr ⟨member, unexpired⟩
    · right
      rw [hevents]
      exact ⟨_, evicted_of_pruned member (Bool.eq_false_iff.mpr unexpired), by simp [Event.about]⟩
  · subst ho
    obtain ⟨_, _, hevents⟩ := act_recordPolledStatus acts
    by_cases there : isWatched venue receipt r.watched = true
    · obtain ⟨pre, x, post, found⟩ := found_of_isWatched venue receipt there
      by_cases mine : w.pair = (venue, receipt)
      · right
        simp only [WatchedIntent.pair, Prod.mk.injEq] at mine
        rw [if_pos there] at hevents
        rw [hevents]
        exact ⟨_, List.mem_cons_self, by simp [Event.about, mine]⟩
      · left
        have beside : w ∈ pre ++ post := found.beside member mine
        have kept : ∀ y : WatchedIntent, w ∈ pre ++ y :: post :=
          fun _ => mem_around.mpr (.inr beside)
        rcases recordPolledStatus_spec P r venue receipt status found with
          ⟨_, h'⟩ | ⟨_, body, _, ⟨_, h'⟩ | ⟨_, h'⟩⟩
        · rw [h, h']
          exact kept _
        · rw [h, h']
          exact beside
        · rw [h, h']
          exact kept _
    · left
      rw [h, recordPolledStatus_unwatched (Bool.eq_false_iff.mpr there)]
      exact member
  · left
    rw [same]
    exact member

/-- An eviction is of an entry past its deadline, and nothing the same operation logged before
it sets the pair's deadline. -/
theorem act_evicts {o : Op} {a : o.Ans} (acts : act P id o i r = some (a, events, r'))
    {venue : VenueId} {receipt : Bytes} {mid after : List Event}
    (split : events = mid ++ .evicted venue receipt :: after) :
    (∃ w ∈ r.watched, w.pair = (venue, receipt) ∧ w.unexpired r.now = false) ∧
      ∀ e ∈ mid, e.hears venue receipt = false := by
  have pruned : ∀ {rest}, evictions r.now r.watched = mid ++ .evicted venue receipt :: rest →
      (∃ w ∈ r.watched, w.pair = (venue, receipt) ∧ w.unexpired r.now = false) ∧
        ∀ e ∈ mid, e.hears venue receipt = false := by
    intro rest gone
    constructor
    · apply about_evictions (e := .evicted venue receipt)
      · rw [gone]
        simp
      · simp [Event.about]
    · intro e member
      have logged : e ∈ evictions r.now r.watched := by
        rw [gone]
        exact List.mem_append_left _ member
      simp only [evictions, List.mem_map] at logged
      obtain ⟨w, _, rfl⟩ := logged
      rfl
  have here : .evicted venue receipt ∈ events := by
    rw [split]
    simp
  rcases act_watched acts with ⟨v, rc, nanos, ho, _, _⟩ | ⟨ho, _⟩ | ⟨v, rc, status, ho, _⟩ |
    ⟨_, quiet⟩
  · subst ho
    obtain ⟨_, _, _, _, hevents⟩ := act_watch acts
    rw [hevents] at split
    rcases split_append split with ⟨rest, gone, _⟩ | ⟨m, _, added⟩
    · exact pruned gone
    · have inserted : .evicted venue receipt ∈ (if a && !isWatched v rc (pruneExpired r.now r.watched)
          then [Event.inserted v rc] else []) := by
        rw [added]
        simp
      split at inserted <;> simp at inserted
  · subst ho
    obtain ⟨_, hevents, _⟩ := act_snapshot acts
    exact pruned (hevents.symm.trans split)
  · subst ho
    obtain ⟨_, _, hevents⟩ := act_recordPolledStatus acts
    rw [hevents] at here
    split at here
    · split at here <;> simp at here
    · cases here
  · have off := quiet _ here
    cases off

end Operations

/-! ## What a run does to a deadline -/

section Runs

variable {P : Policy} {p q : RegistryPool} {label : Label Input HostEvent Call}

theorem step_now (moves : (venueRegistry P).step p label = some q) :
    p.shared.now ≤ q.shared.now := by
  rcases step_ledger moves with ⟨_, _, nanos, _, _, _, shared, _⟩ | ⟨_, _, _, _, quiet⟩
  · rw [shared]
    exact Nat.le_add_right _ _
  · exact quiet.clock

theorem step_logs {logged : List (Entry Event)}
    (moves : (venueRegistry P).step p label = some q) (log : q.log = p.log ++ logged) :
    (∃ id o i a events, logged = tagged (some id) events ∧
      act P id o i p.shared = some (a, events, q.shared)) ∨
    (q.shared.watched = p.shared.watched ∧ ∀ e ∈ logged, e.what.onWatch = false) := by
  rcases step_watched moves with ⟨id, o, _, i, a, events, _, _, acts, _, log', _⟩ |
    ⟨same, who, events, log', quiet⟩
  · left
    exact ⟨id, o, i, a, events, List.append_cancel_left (log.symm.trans log'), acts⟩
  · right
    refine ⟨same, fun e member => ?_⟩
    rw [List.append_cancel_left (log.symm.trans log')] at member
    exact quiet e.what (mem_tagged.mp member).2

theorem act_entry {id : Nat} {o : Op} {i : Input} {r r' : Registry} {a : o.Ans}
    {events : List Event} (ok : WatchOk P r.watched)
    (acts : act P id o i r = some (a, events, r')) {w : WatchedIntent} (member : w ∈ r'.watched) :
    KeptOrHeard P r r' events w := by
  rcases act_watched acts with ⟨venue, receipt, nanos, ho, _, _⟩ | ⟨ho, _⟩ |
    ⟨venue, receipt, status, ho, _⟩ | ⟨same, quiet⟩
  · subst ho
    exact act_watch_entry ok acts member
  · subst ho
    exact act_snapshot_entry ok acts member
  · subst ho
    exact act_record_entry ok acts member
  · rw [same] at member
    exact .inl ⟨member, fun e logged => offAbout (quiet e logged)⟩

def DueAfterHeard (P : Policy) (h : List (Stamped Event)) (w : WatchedIntent) : Prop :=
  ∃ t, LastHeard w.venue w.receipt h t ∧
    w.expiresAt = Instant.checkedAdd P.horizon t P.watchLimit.grace

theorem due_step {h : List (Stamped Event)} {logged : List (Entry Event)}
    (ok : WatchOk P p.shared.watched) (moves : (venueRegistry P).step p label = some q)
    (log : q.log = p.log ++ logged) (due : ∀ w ∈ p.shared.watched, DueAfterHeard P h w)
    {w : WatchedIntent} (member : w ∈ q.shared.watched) :
    DueAfterHeard P (h ++ stamped p.shared.now q.shared.now logged) w := by
  have kept : w ∈ p.shared.watched →
      (∀ e ∈ logged, e.what.about w.venue w.receipt = false) →
      DueAfterHeard P (h ++ stamped p.shared.now q.shared.now logged) w := by
    intro old aside
    obtain ⟨t, heard, deadline⟩ := due w old
    exact ⟨t, heard.append fun x new => aside x.entry (mem_stamped.mp new).1, deadline⟩
  rcases step_logs moves log with ⟨id, o, i, a, events, hlogged, acts⟩ | ⟨same, quiet⟩
  · rcases act_entry ok acts member with ⟨old, aside⟩ |
      ⟨front, e, rest, split, hears, aside, deadline⟩
    · apply kept old
      intro x new
      rw [hlogged] at new
      exact aside x.what (mem_tagged.mp new).2
    · refine ⟨q.shared.now, ?_, deadline⟩
      refine ⟨h ++ stamped p.shared.now q.shared.now (tagged (some id) front),
        ⟨⟨some id, e⟩, p.shared.now, q.shared.now⟩,
        stamped p.shared.now q.shared.now (tagged (some id) rest), ?_, hears, rfl, ?_⟩
      · rw [hlogged, split]
        simp [stamped]
      · intro x new
        exact aside x.entry.what (mem_tagged.mp (mem_stamped.mp new).1).2
  · rw [same] at member
    exact kept member fun e new => offAbout (quiet e new)

theorem due_heard {start : Nat} {h : List (Stamped Event)} (timed : Timed P start h p) :
    ∀ w ∈ p.shared.watched, DueAfterHeard P h w := by
  induction timed with
  | start => exact List.forall_mem_nil _
  | step before moves log ih =>
      exact fun w member => due_step (watchOk before.reach) moves log ih member

/-- Every eviction comes at least one grace after anything was heard of the pair. -/
def EvictedLate (P : Policy) (h : List (Stamped Event)) : Prop :=
  ∀ before x after venue receipt, h = before ++ x :: after →
    x.entry.what = .evicted venue receipt →
    ∀ e ∈ before, e.entry.what.hears venue receipt = true →
      e.closed + P.watchLimit.grace.nanos ≤ x.opened

theorem expired_checkedAdd {w : WatchedIntent} {now t : Nat} (expired : w.unexpired now = false)
    (deadline : w.expiresAt = Instant.checkedAdd P.horizon t P.watchLimit.grace) :
    t + P.watchLimit.grace.nanos ≤ now := by
  unfold WatchedIntent.unexpired at expired
  rw [deadline] at expired
  unfold Instant.checkedAdd at expired
  by_cases fits : t + P.watchLimit.grace.nanos ≤ P.horizon
  · simpa [fits] using expired
  · simp [fits] at expired

theorem evicted_step {start : Nat} {h : List (Stamped Event)} {logged : List (Entry Event)}
    (timed : Timed P start h p) (moves : (venueRegistry P).step p label = some q)
    (log : q.log = p.log ++ logged) (late : EvictedLate P h) :
    EvictedLate P (h ++ stamped p.shared.now q.shared.now logged) := by
  intro before x after venue receipt split evicted e member hears
  rcases split_append split with ⟨rest, old, _⟩ | ⟨mid, front, new⟩
  · exact late before x rest venue receipt old evicted e member hears
  · have hx : x ∈ stamped p.shared.now q.shared.now logged := by
      rw [new]
      simp
    have entries : logged =
        mid.map Stamped.entry ++ x.entry :: after.map Stamped.entry := by
      have h := congrArg (List.map Stamped.entry) new
      rwa [entries_stamped, List.map_append, List.map_cons] at h
    rcases step_logs moves log with ⟨id, o, i, a, events, hlogged, acts⟩ | ⟨_, quiet⟩
    · have whats : events = (mid.map Stamped.entry).map Entry.what ++
          .evicted venue receipt :: (after.map Stamped.entry).map Entry.what := by
        have h := congrArg (List.map Entry.what) (hlogged.symm.trans entries)
        rw [List.map_append, List.map_cons, evicted] at h
        simpa [tagged, Function.comp_def] using h
      obtain ⟨⟨w, watched, pair, expired⟩, deaf⟩ := act_evicts acts whats
      obtain ⟨t, heard, deadline⟩ := due_heard timed w watched
      have due := expired_checkedAdd expired deadline
      simp only [WatchedIntent.pair, Prod.mk.injEq] at pair
      rw [pair.1, pair.2] at heard
      rw [(mem_stamped.mp hx).2.1]
      rw [front] at member
      rcases List.mem_append.mp member with earlier | same
      · have ordered := (timed.ordered fun _ _ _ => step_now).1
        have latest := heard.latest ordered earlier hears
        omega
      · have silent := deaf e.entry.what
          (List.mem_map_of_mem (List.mem_map_of_mem same))
        rw [silent] at hears
        cases hears
    · have off := quiet x.entry (mem_stamped.mp hx).1
      rw [evicted] at off
      cases off

theorem evicted_late {start : Nat} {h : List (Stamped Event)} (timed : Timed P start h p) :
    EvictedLate P h := by
  induction timed with
  | start =>
      intro before x after venue receipt split
      simp at split
  | step before moves log ih => exact evicted_step before moves log ih

end Runs

/-! ## Visits -/

/-- The last thing a call did was resolve the venue, hold the adapter, hear `status` for the
receipt and leave the adapter. -/
def Visited (past : List Event) (venue : VenueId) (receipt : Bytes) (status : IntentStatus) :
    Prop :=
  ∃ slot before, past = before ++ [.resolved venue (.ok slot), .locked slot,
    .invoked slot (.status receipt), .answered slot (.status receipt) (.status (.ok status)),
    .unlocked slot]

def VisitLaw (call : Call) (past : List Event) : Event → Prop
  | .folded venue receipt status _ =>
      call = .pollStatusTransitions → Visited past venue receipt status
  | _ => True

def Event.failsVisit : Event → Bool
  | .resolved _ (.error _) | .answered _ (.status _) (.status (.error _)) => true
  | _ => false

abbrev Visits (P : Policy) (call : Call) (id : Nat) : List Event → Async Outcome → Prop :=
  (venueRegistry P).Adheres (VisitLaw call) (fun _ _ => True) id

section Visits

variable (P : Policy) (id : Nat)

theorem visits_pollEach (rest : List (VenueId × Bytes)) (past : List Event)
    (updates : List Wire.IntentStatusUpdate) :
    Visits P .pollStatusTransitions id past (do return .polled (← pollEach rest updates)) := by
  induction rest generalizing past updates with
  | nil => trivial
  | cons pair rest ih =>
      obtain ⟨venue, receipt⟩ := pair
      apply adheres_resolve trivial (fun _ => trivial)
      intro a
      cases a with
      | error e => exact ih _ _
      | ok slot =>
          apply adheres_lock trivial trivial
          apply adheres_invoke trivial trivial
          apply adheres_answer trivial trivial (fun _ => trivial)
          intro reply polled answers
          apply adheres_unlock trivial trivial
          cases polled with
          | error e => exact ih _ _
          | ok status =>
              rw [reply_of_status answers]
              have visited : Visited (past ++ [.resolved venue (.ok slot)] ++ [.locked slot] ++
                  [.invoked slot (.status receipt)] ++
                  [.answered slot (.status receipt) (.status (.ok status))] ++
                  [.unlocked slot]) venue receipt status := ⟨slot, past, by simp⟩
              apply adheres_recordPolledStatus trivial
              · intro update events folding
                cases folding with
                | unwatched => trivial
                | kept => exact ⟨fun _ => visited, trivial⟩
                | removed => exact ⟨fun _ => visited, trivial, trivial⟩
              · intro update events _
                cases update with
                | none => exact ih _ _
                | some update => exact ih _ _

theorem visits_code (call : Call) : Visits P call id [] (Call.code P call) := by
  by_cases polls : call = .pollStatusTransitions
  · subst polls
    apply adheres_snapshot trivial
    · intro events listing
      apply listing.extends
      intro past e _ unfolded
      cases e with
      | folded v r s u => exact absurd rfl (unfolded v r s u)
      | _ => trivial
    · intro pairs events _
      exact visits_pollEach P id pairs _ _
  · apply System.Adheres.of_forall
    · intro past e
      cases e with
      | folded venue receipt status update => exact fun same => absurd same polls
      | _ => trivial
    · exact fun _ _ => trivial

/-- Between a visit that fails and a fold of the same poll, the poll resolves a venue again. -/
theorem visit_fails {P : Policy} {p : RegistryPool} {start : Nat}
    (reach : (venueRegistry P).Reach (Registry.new start) p) {id : Nat}
    (polls : p.calls[id]? = some .pollStatusTransitions) {past mid later : List Event} {e : Event}
    {venue : VenueId} {receipt : Bytes} {status : IntentStatus}
    {update : Option Wire.IntentStatusUpdate} (fails : e.failsVisit = true)
    (split : own id p.log = past ++ e :: (mid ++ .folded venue receipt status update :: later)) :
    ∃ slot, .resolved venue (.ok slot) ∈ mid := by
  have lawful := (reach.adheres (fun id call => visits_code P id call) polls).1
  have fold_split : own id p.log =
      (past ++ e :: mid) ++ .folded venue receipt status update :: later := by
    rw [split]
    simp
  obtain ⟨slot, before, visited⟩ := lawful.at_split fold_split rfl
  refine ⟨slot, ?_⟩
  rcases split_append visited.symm with ⟨rest, _, suffix⟩ | ⟨front, _, five⟩
  · rw [suffix]
    simp
  · have succeeds : ∀ x ∈ [Event.resolved venue (.ok slot), .locked slot,
        .invoked slot (.status receipt), .answered slot (.status receipt) (.status (.ok status)),
        .unlocked slot], x.failsVisit = false := by
      simp [Event.failsVisit]
    rw [succeeds e (by rw [five]; simp)] at fails
    cases fails

end Visits

/-- In every state some run reaches, each watched entry is due one grace after the later of its
insertion and the last status folded into it, or never when that is past the clock's end; only
an operation that logs something about the pair changes its entry; a poll folds nothing
between a visit that finds the venue dead or whose status call errs and its next visit; and an
eviction comes at least one grace after every insertion and fold of the pair. -/
theorem deadline_measures_silence {P : Policy} {start : Nat} {h : List (Stamped Event)}
    {p : RegistryPool} (timed : Timed P start h p) :
    (∀ w ∈ p.shared.watched, ∃ t, LastHeard w.venue w.receipt h t ∧
      (∀ x ∈ h, x.entry.what.hears w.venue w.receipt = true → x.closed ≤ t) ∧
      w.expiresAt = Instant.checkedAdd P.horizon t P.watchLimit.grace ∧
      (w.expiresAt = none ↔ P.horizon < t + P.watchLimit.grace.nanos)) ∧
    (∀ label q, (venueRegistry P).step p label = some q →
      ∃ logged, q.log = p.log ++ logged ∧ ∀ w ∈ p.shared.watched,
        w ∈ q.shared.watched ∨ ∃ e ∈ logged, e.what.about w.venue w.receipt = true) ∧
    (∀ id, p.calls[id]? = some .pollStatusTransitions →
      ∀ past e mid venue receipt status update later, e.failsVisit = true →
        own id p.log = past ++ e :: (mid ++ .folded venue receipt status update :: later) →
        ∃ slot, .resolved venue (.ok slot) ∈ mid) ∧
    (∀ before x after venue receipt, h = before ++ x :: after →
      x.entry.what = .evicted venue receipt →
      ∀ e ∈ before, e.entry.what.hears venue receipt = true →
        e.closed + P.watchLimit.grace.nanos ≤ x.opened) := by
  have ordered := (timed.ordered fun _ _ _ => step_now).1
  refine ⟨?_, ?_, ?_, evicted_late timed⟩
  · intro w member
    obtain ⟨t, heard, deadline⟩ := due_heard timed w member
    refine ⟨t, heard, fun x logged hears => heard.latest ordered logged hears, deadline, ?_⟩
    rw [deadline, Instant.checkedAdd]
    by_cases fits : t + P.watchLimit.grace.nanos ≤ P.horizon
    · rw [if_pos fits]
      simpa using fits
    · rw [if_neg fits]
      simpa using fits
  · intro label q moves
    obtain ⟨logged, log⟩ := System.step_log moves
    refine ⟨logged, log, fun w member => ?_⟩
    rcases step_logs moves log with ⟨id, o, i, a, events, hlogged, acts⟩ | ⟨same, _⟩
    · rcases act_leaves acts member with kept | ⟨e, listed, about⟩
      · exact .inl kept
      · right
        rw [hlogged]
        exact ⟨⟨some id, e⟩, mem_tagged.mpr ⟨rfl, listed⟩, about⟩
    · left
      rw [same]
      exact member
  · intro id polls past e mid venue receipt status update later fails split
    exact visit_fails timed.reach polls fails split

/-- A receipt is watched, and five nanoseconds later a poll hears that it is pending. -/
def refreshedWatch : Schedule :=
  [.host (.register stubVenue 0 ∅), .spawn (.observe stubVenue [7]),
    .advance 0 (.elapsed 0), .advance 0 (.elapsed 0), .host (.elapse 5),
    .spawn .pollStatusTransitions, .advance 1 (.elapsed 0)] ++ throughVisit 1 .pending

theorem deadline_measures_silence_stub :
    ∃ h p w, Timed oneCharge 0 h p ∧ w ∈ p.shared.watched ∧
      w.expiresAt = some (5 + 86400 * 10 ^ 9) ∧
      ∃ t, LastHeard w.venue w.receipt h t ∧
        w.expiresAt = Instant.checkedAdd oneCharge.horizon t oneCharge.watchLimit.grace := by
  have ran : ((venueRegistry oneCharge).run refreshedWatch
      (System.empty (Registry.new 0))).map (fun p => p.shared.watched) =
      some [⟨stubVenue, [7], some .pending, some (5 + 86400 * 10 ^ 9)⟩] := by
    decide
  obtain ⟨p, reached, watched⟩ := Option.map_eq_some_iff.mp ran
  obtain ⟨h, timed⟩ : ∃ h, Timed oneCharge 0 h p := (System.Reach.of_run .start reached).clocked
  have member : (⟨stubVenue, [7], some .pending, some (5 + 86400 * 10 ^ 9)⟩ : WatchedIntent) ∈
      p.shared.watched := by
    rw [watched]
    exact List.mem_singleton_self _
  obtain ⟨t, heard, _, deadline, _⟩ := (deadline_measures_silence timed).1 _ member
  exact ⟨h, p, _, timed, member, rfl, t, heard, deadline⟩

end Videre.Host
