import Mathlib.Data.List.Destutter
import Videre.Host.WatchSet

/-! # Watch epochs

One pair of venue and receipt, seen on its own: it is unwatched, or watched with a
last reported status, and every step of the registry moves it along one of seven
edges. An epoch is the part of the log from an insertion of the pair to its
removal; what an epoch reports follows from the edges alone.
-/

namespace Videre.Host

open Interaction

/-! ## Transitions of a list of statuses -/

def untilTerminal : List IntentStatus → List IntentStatus
  | [] => []
  | status :: rest => if isTerminal status then [status] else status :: untilTerminal rest

/-- Consecutive repeats removed, then cut after the first terminal status. -/
def transitions (statuses : List IntentStatus) : List IntentStatus :=
  untilTerminal (statuses.destutter (· ≠ ·))

theorem untilTerminal_append {first : List IntentStatus} (second : List IntentStatus)
    (unsettled : ∀ status ∈ first, isTerminal status = false) :
    untilTerminal (first ++ second) = first ++ untilTerminal second := by
  induction first with
  | nil => rfl
  | cons status first ih =>
      have here : isTerminal status = false := unsettled status (by simp)
      rw [List.cons_append, untilTerminal, if_neg (by simp [here]),
        ih fun s h => unsettled s (by simp [h])]
      rfl

theorem destutter'_concat (a s : IntentStatus) (l : List IntentStatus) :
    (l ++ [s]).destutter' (· ≠ ·) a =
      if (a :: l).getLast? = some s then l.destutter' (· ≠ ·) a
      else l.destutter' (· ≠ ·) a ++ [s] := by
  induction l generalizing a with
  | nil =>
      by_cases same : a = s
      · simp [same]
      · simp [same]
  | cons b l ih =>
      rw [List.cons_append, List.getLast?_cons_cons]
      by_cases same : a = b
      · subst same
        rw [List.destutter'_cons_neg _ (by simp), List.destutter'_cons_neg _ (by simp), ih a]
      · rw [List.destutter'_cons_pos _ same, List.destutter'_cons_pos _ same, ih b]
        split <;> rfl

theorem destutter_concat (l : List IntentStatus) (s : IntentStatus) :
    (l ++ [s]).destutter (· ≠ ·) =
      if l.getLast? = some s then l.destutter (· ≠ ·) else l.destutter (· ≠ ·) ++ [s] := by
  cases l with
  | nil => rfl
  | cons a l => exact destutter'_concat a s l

theorem transitions_concat {statuses : List IntentStatus} (status : IntentStatus)
    (unsettled : ∀ s ∈ statuses, isTerminal s = false) :
    transitions (statuses ++ [status]) =
      if statuses.getLast? = some status then transitions statuses
      else transitions statuses ++ [status] := by
  have part : ∀ s ∈ statuses.destutter (· ≠ ·), isTerminal s = false :=
    fun s member => unsettled s ((List.destutter_sublist _ _).subset member)
  have alone : untilTerminal [status] = [status] := by
    unfold untilTerminal
    split <;> rfl
  have whole : untilTerminal (statuses.destutter (· ≠ ·)) = statuses.destutter (· ≠ ·) := by
    have := untilTerminal_append [] part
    simpa [untilTerminal] using this
  unfold transitions
  rw [destutter_concat]
  split
  next => rfl
  next => rw [untilTerminal_append _ part, alone, whole]

/-! ## The log of one pair -/

section Pair

variable (venue : VenueId) (receipt : Bytes)

def Event.about : Event → Bool
  | .inserted v r | .evicted v r | .folded v r _ _ | .removed v r => v = venue && r = receipt
  | _ => false

def Event.ends : Event → Bool
  | .evicted v r | .removed v r => v = venue && r = receipt
  | _ => false

/-- The log of an epoch: what follows its insertion, up to the pair's removal. -/
def epoch (after : List (Entry Event)) : List (Entry Event) :=
  after.takeWhile fun e => !e.what.ends venue receipt

def foldedStatus : Event → Option IntentStatus
  | .folded v r status _ => if v = venue ∧ r = receipt then some status else none
  | _ => none

def emittedUpdate : Event → Option Wire.IntentStatusUpdate
  | .folded v r _ update => if v = venue ∧ r = receipt then update else none
  | _ => none

def foldedIn (log : List (Entry Event)) : List IntentStatus :=
  log.filterMap fun e => foldedStatus venue receipt e.what

def emittedIn (log : List (Entry Event)) : List Wire.IntentStatusUpdate :=
  log.filterMap fun e => emittedUpdate venue receipt e.what

def Says (status : IntentStatus) (update : Wire.IntentStatusUpdate) : Prop :=
  update.venue = venue.asStr ∧ update.receipt = receipt ∧
    Wire.StatusBody.decode update.status = .ok (statusBody status)

/-- The updates of a log say, in order, the transitions of the statuses folded in it. -/
def Reported (log : List (Entry Event)) : Prop :=
  List.Forall₂ (Says venue receipt) (transitions (foldedIn venue receipt log))
    (emittedIn venue receipt log)

/-- A terminal update ends its epoch, and the pair is removed with it. -/
def SettlesLast (after : List (Entry Event)) : Prop :=
  ∀ pre who status update post,
    epoch venue receipt after = pre ++ ⟨who, .folded venue receipt status (some update)⟩ :: post →
    isTerminal status = true →
    post = [] ∧ ∃ later, after = epoch venue receipt after ++ ⟨who, .removed venue receipt⟩ :: later

/-- What one step does to the pair: it is unwatched (`none`) or watched with a last status. -/
inductive PairStep : Option (Option IntentStatus) → Option (Option IntentStatus) →
    List Event → Prop
  | beside (st : Option (Option IntentStatus)) (events : List Event)
      (others : ∀ e ∈ events, e.about venue receipt = false) : PairStep st st events
  | evicted (last : Option IntentStatus) (events : List Event)
      (gone : .evicted venue receipt ∈ events)
      (others : ∀ e ∈ events, e.about venue receipt = true → e = .evicted venue receipt) :
      PairStep (some last) none events
  | inserted (events : List Event) (others : ∀ e ∈ events, e.about venue receipt = false) :
      PairStep none (some none) (events ++ [.inserted venue receipt])
  | renewed (last : Option IntentStatus) (events : List Event)
      (gone : .evicted venue receipt ∈ events)
      (others : ∀ e ∈ events, e.about venue receipt = true → e = .evicted venue receipt) :
      PairStep (some last) (some none) (events ++ [.inserted venue receipt])
  | repeated (status : IntentStatus) :
      PairStep (some (some status)) (some (some status)) [.folded venue receipt status none]
  | moved (last : Option IntentStatus) (status : IntentStatus) (update : Wire.IntentStatusUpdate)
      (new : last ≠ some status) (still : isTerminal status = false)
      (stated : Says venue receipt status update) :
      PairStep (some last) (some (some status)) [.folded venue receipt status (some update)]
  | settled (last : Option IntentStatus) (status : IntentStatus)
      (update : Wire.IntentStatusUpdate) (new : last ≠ some status)
      (terminal : isTerminal status = true) (stated : Says venue receipt status update) :
      PairStep (some last) none
        [.folded venue receipt status (some update), .removed venue receipt]

end Pair

section Epochs

variable {venue : VenueId} {receipt : Bytes}

theorem epoch_append_ended {after : List (Entry Event)}
    (ended : ∃ e ∈ after, e.what.ends venue receipt = true) (more : List (Entry Event)) :
    epoch venue receipt (after ++ more) = epoch venue receipt after := by
  obtain ⟨e, member, ends⟩ := ended
  unfold epoch
  induction after with
  | nil => cases member
  | cons x after ih =>
      rw [List.cons_append]
      by_cases here : x.what.ends venue receipt = true
      · rw [List.takeWhile_cons_of_neg (by simp [here]), List.takeWhile_cons_of_neg (by simp [here])]
      · have later : e ∈ after := by
          rcases List.mem_cons.mp member with rfl | later
          · exact absurd ends here
          · exact later
        rw [List.takeWhile_cons_of_pos (by simp [here]), List.takeWhile_cons_of_pos (by simp [here]),
          ih later]

theorem epoch_append_open {after : List (Entry Event)}
    (still : ∀ e ∈ after, e.what.ends venue receipt = false) (more : List (Entry Event)) :
    epoch venue receipt (after ++ more) = after ++ epoch venue receipt more := by
  unfold epoch
  rw [List.takeWhile_append_of_pos]
  intro e member
  simp [still e member]

theorem epoch_open {after : List (Entry Event)}
    (still : ∀ e ∈ after, e.what.ends venue receipt = false) : epoch venue receipt after = after := by
  have := epoch_append_open still []
  simpa [epoch] using this

theorem ends_about {e : Event} (ends : e.ends venue receipt = true) :
    e.about venue receipt = true := by
  cases e <;> first | exact ends | cases ends

theorem foldedIn_append (first second : List (Entry Event)) :
    foldedIn venue receipt (first ++ second) =
      foldedIn venue receipt first ++ foldedIn venue receipt second :=
  List.filterMap_append

theorem emittedIn_append (first second : List (Entry Event)) :
    emittedIn venue receipt (first ++ second) =
      emittedIn venue receipt first ++ emittedIn venue receipt second :=
  List.filterMap_append

def Unfolded (venue : VenueId) (receipt : Bytes) (log : List (Entry Event)) : Prop :=
  ∀ e ∈ log, ∀ status update, e.what ≠ .folded venue receipt status update

theorem Unfolded.foldedIn {log : List (Entry Event)} (unfolded : Unfolded venue receipt log) :
    Host.foldedIn venue receipt log = [] := by
  unfold Host.foldedIn
  rw [List.filterMap_eq_nil_iff]
  intro e member
  unfold foldedStatus
  split
  next v r status update heq =>
    by_cases mine : v = venue ∧ r = receipt
    · rw [mine.1, mine.2] at heq
      exact absurd heq (unfolded e member status update)
    · rw [if_neg mine]
  next => rfl

theorem Unfolded.emittedIn {log : List (Entry Event)} (unfolded : Unfolded venue receipt log) :
    Host.emittedIn venue receipt log = [] := by
  unfold Host.emittedIn
  rw [List.filterMap_eq_nil_iff]
  intro e member
  unfold emittedUpdate
  split
  next v r status update heq =>
    by_cases mine : v = venue ∧ r = receipt
    · rw [mine.1, mine.2] at heq
      exact absurd heq (unfolded e member status update)
    · rw [if_neg mine]
  next => rfl

theorem Reported.append_unfolded {log more : List (Entry Event)} (reported : Reported venue receipt log)
    (unfolded : Unfolded venue receipt more) : Reported venue receipt (log ++ more) := by
  unfold Reported
  rw [foldedIn_append, emittedIn_append, unfolded.foldedIn, unfolded.emittedIn, List.append_nil,
    List.append_nil]
  exact reported

theorem mem_foldedIn (who : Option Nat) {status : IntentStatus}
    (update : Option Wire.IntentStatusUpdate) {log : List (Entry Event)}
    (member : ⟨who, .folded venue receipt status update⟩ ∈ log) :
    status ∈ foldedIn venue receipt log := by
  unfold foldedIn
  rw [List.mem_filterMap]
  exact ⟨_, member, by simp [foldedStatus]⟩

theorem settlesLast_of_unsettled {after : List (Entry Event)}
    (unsettled : ∀ s ∈ foldedIn venue receipt (epoch venue receipt after), isTerminal s = false) :
    SettlesLast venue receipt after := by
  intro pre who status update post split terminal
  have member : status ∈ foldedIn venue receipt (epoch venue receipt after) := by
    rw [split]
    exact mem_foldedIn who (some update) (by simp)
  rw [unsettled status member] at terminal
  cases terminal

theorem SettlesLast.append_ended {after : List (Entry Event)} (settles : SettlesLast venue receipt after)
    (ended : ∃ e ∈ after, e.what.ends venue receipt = true) (more : List (Entry Event)) :
    SettlesLast venue receipt (after ++ more) := by
  intro pre who status update post split terminal
  rw [epoch_append_ended ended] at split ⊢
  obtain ⟨last, later, hafter⟩ := settles pre who status update post split terminal
  refine ⟨last, later ++ more, ?_⟩
  have extended := congrArg (· ++ more) hafter
  rw [List.append_assoc] at extended
  exact extended

/-- What the log of a pair knows: every epoch is reported and settles last, and an epoch
without an end is the pair's present one. -/
structure Tracks (venue : VenueId) (receipt : Bytes) (st : Option (Option IntentStatus))
    (log : List (Entry Event)) : Prop where
  facts : ∀ before who after, log = before ++ ⟨who, .inserted venue receipt⟩ :: after →
    Reported venue receipt (epoch venue receipt after) ∧ SettlesLast venue receipt after
  opened : ∀ before who after, log = before ++ ⟨who, .inserted venue receipt⟩ :: after →
    (∀ e ∈ after, e.what.ends venue receipt = false) →
    st = some (foldedIn venue receipt after).getLast? ∧
      ∀ s ∈ foldedIn venue receipt after, isTerminal s = false
  live : ∀ last, st = some last → ∃ before who after,
    log = before ++ ⟨who, .inserted venue receipt⟩ :: after ∧
      ∀ e ∈ after, e.what.ends venue receipt = false

theorem Tracks.start : Tracks venue receipt none [] where
  facts := fun before who after split => by simp at split
  opened := fun before who after split => by simp at split
  live := nofun

structure Continues (venue : VenueId) (receipt : Bytes) (st : Option (Option IntentStatus))
    (after : List (Entry Event)) : Prop where
  reported : Reported venue receipt (epoch venue receipt after)
  settles : SettlesLast venue receipt after
  current : (∀ e ∈ after, e.what.ends venue receipt = false) →
    st = some (foldedIn venue receipt after).getLast? ∧
      ∀ s ∈ foldedIn venue receipt after, isTerminal s = false

/-- An unfolded tail changes neither the statuses nor the updates of an open epoch. -/
theorem Continues.unfolded {st : Option (Option IntentStatus)} {after more : List (Entry Event)}
    (still : ∀ e ∈ after, e.what.ends venue receipt = false)
    (reported : Reported venue receipt after)
    (unsettled : ∀ s ∈ foldedIn venue receipt after, isTerminal s = false)
    (unfolded : Unfolded venue receipt more)
    (current : (∀ e ∈ more, e.what.ends venue receipt = false) →
      st = some (foldedIn venue receipt after).getLast?) :
    Continues venue receipt st (after ++ more) := by
  have part : Unfolded venue receipt (epoch venue receipt more) :=
    fun e member => unfolded e ((List.takeWhile_sublist _).subset member)
  have split := epoch_append_open still more
  constructor
  · rw [split]
    exact reported.append_unfolded part
  · apply settlesLast_of_unsettled
    rw [split, foldedIn_append, part.foldedIn, List.append_nil]
    exact unsettled
  · intro open_
    rw [foldedIn_append, unfolded.foldedIn, List.append_nil]
    exact ⟨current fun e h => open_ e (List.mem_append_right _ h), unsettled⟩

theorem reported_concat {after : List (Entry Event)} {who : Option Nat} {status : IntentStatus}
    {update : Wire.IntentStatusUpdate} (reported : Reported venue receipt after)
    (unsettled : ∀ s ∈ foldedIn venue receipt after, isTerminal s = false)
    (new : (foldedIn venue receipt after).getLast? ≠ some status)
    (stated : Says venue receipt status update) :
    Reported venue receipt (after ++ [⟨who, .folded venue receipt status (some update)⟩]) := by
  have one : foldedIn venue receipt [⟨who, .folded venue receipt status (some update)⟩] =
      [status] := by
    simp [foldedIn, foldedStatus]
  have sent : emittedIn venue receipt [⟨who, .folded venue receipt status (some update)⟩] =
      [update] := by
    simp [emittedIn, emittedUpdate]
  unfold Reported
  rw [foldedIn_append, emittedIn_append, one, sent, transitions_concat status unsettled,
    if_neg new]
  exact List.rel_append reported (.cons stated .nil)

/-! ## The edges keep the log -/

theorem unfolded_of_beside {who : Option Nat} {events : List Event}
    (others : ∀ e ∈ events, e.about venue receipt = false) :
    Unfolded venue receipt (tagged who events) := by
  intro e member status update same
  have here := others e.what (mem_tagged.mp member).2
  rw [same] at here
  simp [Event.about] at here

theorem unfolded_of_evicting {who : Option Nat} {events : List Event}
    (others : ∀ e ∈ events, e.about venue receipt = true → e = .evicted venue receipt) :
    Unfolded venue receipt (tagged who events) := by
  intro e member status update same
  have about : e.what.about venue receipt = true := by
    rw [same]
    simp [Event.about]
  have gone := others e.what (mem_tagged.mp member).2 about
  rw [same] at gone
  cases gone

theorem Unfolded.append {first second : List (Entry Event)} (h : Unfolded venue receipt first)
    (h' : Unfolded venue receipt second) : Unfolded venue receipt (first ++ second) := by
  intro e member
  rcases List.mem_append.mp member with old | new
  · exact h e old
  · exact h' e new

theorem unfolded_inserted (who : Option Nat) :
    Unfolded venue receipt [⟨who, .inserted venue receipt⟩] := by
  intro e member status update same
  rw [List.mem_singleton.mp member] at same
  cases same

theorem evicted_ends {who : Option Nat} {events : List Event}
    (gone : .evicted venue receipt ∈ events) :
    ∃ e ∈ tagged who events, e.what.ends venue receipt = true :=
  ⟨⟨who, .evicted venue receipt⟩, mem_tagged.mpr ⟨rfl, gone⟩, by simp [Event.ends]⟩

theorem not_still {log : List (Entry Event)}
    (ended : ∃ e ∈ log, e.what.ends venue receipt = true) :
    ¬ ∀ e ∈ log, e.what.ends venue receipt = false := by
  intro still
  obtain ⟨e, member, ends⟩ := ended
  rw [still e member] at ends
  cases ends

theorem folded_one (who : Option Nat) (status : IntentStatus)
    (update : Option Wire.IntentStatusUpdate) :
    foldedIn venue receipt (tagged who [.folded venue receipt status update]) = [status] := by
  simp [foldedIn, foldedStatus]

theorem Continues.folded {after : List (Entry Event)} {who : Option Nat} {status : IntentStatus}
    {update : Option Wire.IntentStatusUpdate}
    (still : ∀ e ∈ after, e.what.ends venue receipt = false)
    (unsettled : ∀ s ∈ foldedIn venue receipt after, isTerminal s = false)
    (open_ : isTerminal status = false)
    (reported : Reported venue receipt
      (after ++ tagged who [.folded venue receipt status update])) :
    Continues venue receipt (some (some status))
      (after ++ tagged who [.folded venue receipt status update]) := by
  have still' : ∀ e ∈ after ++ tagged who [.folded venue receipt status update],
      e.what.ends venue receipt = false := by
    intro e member
    rcases List.mem_append.mp member with old | new
    · exact still e old
    · rw [List.mem_singleton.mp new]
      rfl
  have unsettled' : ∀ s ∈ foldedIn venue receipt after ++ [status], isTerminal s = false := by
    intro s member
    rcases List.mem_append.mp member with old | new
    · exact unsettled s old
    · rw [List.mem_singleton.mp new]
      exact open_
  constructor
  · rw [epoch_open still']
    exact reported
  · apply settlesLast_of_unsettled
    rw [epoch_open still', foldedIn_append, folded_one]
    exact unsettled'
  · intro _
    rw [foldedIn_append, folded_one]
    exact ⟨by simp, unsettled'⟩

theorem Continues.settled {after : List (Entry Event)} {who : Option Nat} {status : IntentStatus}
    {update : Wire.IntentStatusUpdate} {st : Option (Option IntentStatus)}
    (still : ∀ e ∈ after, e.what.ends venue receipt = false)
    (unsettled : ∀ s ∈ foldedIn venue receipt after, isTerminal s = false)
    (reported : Reported venue receipt
      (after ++ [⟨who, .folded venue receipt status (some update)⟩])) :
    Continues venue receipt st (after ++
      tagged who [.folded venue receipt status (some update), .removed venue receipt]) := by
  have cut : epoch venue receipt (tagged who
      [.folded venue receipt status (some update), .removed venue receipt]) =
      [⟨who, .folded venue receipt status (some update)⟩] := by
    simp [epoch, Event.ends]
  have whole := epoch_append_open still (tagged who
    [.folded venue receipt status (some update), .removed venue receipt])
  rw [cut] at whole
  constructor
  · rw [whole]
    exact reported
  · intro pre who' status' update' post split settles
    rw [whole] at split ⊢
    rcases split_append split with ⟨rest, before, _⟩ | ⟨mid, _, last⟩
    · have member : status' ∈ foldedIn venue receipt after := by
        rw [before]
        exact mem_foldedIn who' (some update') (by simp)
      rw [unsettled status' member] at settles
      cases settles
    · cases mid with
      | nil =>
          rw [List.nil_append, List.cons.injEq] at last
          have same := last.1
          simp only [Entry.mk.injEq] at same
          refine ⟨last.2.symm, [], ?_⟩
          rw [same.1]
          simp
      | cons x xs => simp at last
  · intro open_
    have ended : ∃ e ∈ after ++ tagged who
        [.folded venue receipt status (some update), .removed venue receipt],
        e.what.ends venue receipt = true :=
      ⟨⟨who, .removed venue receipt⟩, by simp, by simp [Event.ends]⟩
    exact absurd open_ (not_still ended)

theorem PairStep.continues {st st' : Option (Option IntentStatus)} {events : List Event}
    (moves : PairStep venue receipt st st' events) (who : Option Nat)
    {after : List (Entry Event)} (still : ∀ e ∈ after, e.what.ends venue receipt = false)
    (reported : Reported venue receipt after)
    (present : st = some (foldedIn venue receipt after).getLast?)
    (unsettled : ∀ s ∈ foldedIn venue receipt after, isTerminal s = false) :
    Continues venue receipt st' (after ++ tagged who events) := by
  cases moves with
  | beside st events others =>
      exact .unfolded still reported unsettled (unfolded_of_beside others) fun _ => present
  | evicted last events gone others =>
      exact .unfolded still reported unsettled (unfolded_of_evicting others)
        fun open_ => absurd open_ (not_still (evicted_ends gone))
  | inserted events others => cases present
  | renewed last events gone others =>
      rw [tagged_append]
      apply Continues.unfolded still reported unsettled
        ((unfolded_of_evicting others).append (unfolded_inserted who))
      intro open_
      exact absurd (fun e h => open_ e (List.mem_append_left _ h)) (not_still (evicted_ends gone))
  | repeated status =>
      have last : (foldedIn venue receipt after).getLast? = some status :=
        (Option.some.inj present).symm
      have sent : emittedIn venue receipt (tagged who [.folded venue receipt status none]) = [] := by
        simp [emittedIn, emittedUpdate]
      apply Continues.folded still unsettled (unsettled status (List.mem_of_getLast? last))
      unfold Reported
      rw [foldedIn_append, emittedIn_append, folded_one, sent, transitions_concat status unsettled,
        if_pos last, List.append_nil]
      exact reported
  | moved last status update new open_ stated =>
      have fresh : (foldedIn venue receipt after).getLast? ≠ some status := by
        rw [← Option.some.inj present]
        exact new
      apply Continues.folded still unsettled open_
      exact reported_concat reported unsettled fresh stated
  | settled last status update new terminal stated =>
      have fresh : (foldedIn venue receipt after).getLast? ≠ some status := by
        rw [← Option.some.inj present]
        exact new
      exact .settled still unsettled (reported_concat reported unsettled fresh stated)

/-- An insertion among one step's events is its last, and starts the pair afresh. -/
theorem PairStep.insertion {st st' : Option (Option IntentStatus)} {events : List Event}
    (moves : PairStep venue receipt st st' events) {who who' : Option Nat}
    {mid after : List (Entry Event)}
    (split : tagged who events = mid ++ ⟨who', .inserted venue receipt⟩ :: after) :
    after = [] ∧ st' = some none := by
  have member : .inserted venue receipt ∈ events := by
    have h : (⟨who', .inserted venue receipt⟩ : Entry Event) ∈ tagged who events := by
      rw [split]
      simp
    exact (mem_tagged.mp h).2
  have tail : ∀ before : List Event, .inserted venue receipt ∉ before →
      events = before ++ [.inserted venue receipt] → after = [] := by
    intro before absent shape
    rw [shape, tagged_append] at split
    rcases split_append split with ⟨rest, old, _⟩ | ⟨mid', _, last⟩
    · have h : (⟨who', .inserted venue receipt⟩ : Entry Event) ∈ tagged who before := by
        rw [old]
        simp
      exact absurd (mem_tagged.mp h).2 absent
    · cases mid' with
      | nil =>
          rw [List.nil_append] at last
          exact (List.cons.inj last).2.symm
      | cons x xs => simp at last
  have self : (Event.inserted venue receipt).about venue receipt = true := by
    simp [Event.about]
  have not_beside : ∀ before : List Event, (∀ e ∈ before, e.about venue receipt = false) →
      .inserted venue receipt ∉ before := by
    intro before others h
    rw [others _ h] at self
    cases self
  have not_evicting : ∀ before : List Event,
      (∀ e ∈ before, e.about venue receipt = true → e = .evicted venue receipt) →
      .inserted venue receipt ∉ before := fun before others h => nomatch others _ h self
  cases moves with
  | beside st events others => exact absurd member (not_beside _ others)
  | evicted last events gone others => exact absurd member (not_evicting _ others)
  | inserted events others => exact ⟨tail events (not_beside _ others) rfl, rfl⟩
  | renewed last events gone others => exact ⟨tail events (not_evicting _ others) rfl, rfl⟩
  | repeated status => simp at member
  | moved last status update new still stated => simp at member
  | settled last status update new terminal stated => simp at member

/-- A pair watched after a step was inserted by it, or was watched before and not ended. -/
theorem PairStep.stays {st st' : Option (Option IntentStatus)} {events : List Event}
    (moves : PairStep venue receipt st st' events) {last' : Option IntentStatus}
    (watched : st' = some last') (who : Option Nat) :
    (∃ before, events = before ++ [.inserted venue receipt]) ∨
      (∃ last, st = some last) ∧ ∀ e ∈ tagged who events, e.what.ends venue receipt = false := by
  have quiet : ∀ events : List Event, (∀ e ∈ events, e.about venue receipt = false) →
      ∀ e ∈ tagged who events, e.what.ends venue receipt = false := by
    intro events others e member
    have here := others e.what (mem_tagged.mp member).2
    by_contra ends
    rw [ends_about (by simpa using ends)] at here
    cases here
  cases moves with
  | beside st events others => exact .inr ⟨⟨last', watched⟩, quiet events others⟩
  | evicted last events gone others => cases watched
  | inserted events others => exact .inl ⟨events, rfl⟩
  | renewed last events gone others => exact .inl ⟨events, rfl⟩
  | repeated status => exact .inr ⟨⟨_, rfl⟩, by simp [Event.ends]⟩
  | moved last status update new still stated => exact .inr ⟨⟨_, rfl⟩, by simp [Event.ends]⟩
  | settled last status update new terminal stated => cases watched

theorem Tracks.step {st st' : Option (Option IntentStatus)} {log : List (Entry Event)}
    {events : List Event} (tracks : Tracks venue receipt st log)
    (moves : PairStep venue receipt st st' events) (who : Option Nat) :
    Tracks venue receipt st' (log ++ tagged who events) := by
  -- An epoch of the longer log is an old one, ended or open, or starts in the step.
  have cases_ : ∀ before w after, log ++ tagged who events =
      before ++ ⟨w, .inserted venue receipt⟩ :: after →
      (∃ rest, after = rest ++ tagged who events ∧
        (∃ e ∈ rest, e.what.ends venue receipt = true) ∧
        Reported venue receipt (epoch venue receipt rest) ∧ SettlesLast venue receipt rest) ∨
      Continues venue receipt st' after := by
    intro before w after split
    rcases split_append split with ⟨rest, old, hafter⟩ | ⟨mid, _, new⟩
    · obtain ⟨reported, settles⟩ := tracks.facts before w rest old
      by_cases still : ∀ e ∈ rest, e.what.ends venue receipt = false
      · obtain ⟨present, unsettled⟩ := tracks.opened before w rest old still
        rw [epoch_open still] at reported
        rw [hafter]
        exact .inr (moves.continues who still reported present unsettled)
      · have ended : ∃ e ∈ rest, e.what.ends venue receipt = true := by
          by_contra none_
          apply still
          intro e member
          by_contra ends
          exact none_ ⟨e, member, by simpa using ends⟩
        exact .inl ⟨rest, hafter, ended, reported, settles⟩
    · obtain ⟨nil, fresh⟩ := moves.insertion new
      rw [nil, fresh]
      exact .inr ⟨.nil, fun pre w s u post h => by simp [epoch] at h, fun _ => ⟨rfl, nofun⟩⟩
  constructor
  · intro before w after split
    rcases cases_ before w after split with ⟨rest, hafter, ended, reported, settles⟩ | continues
    · rw [hafter]
      refine ⟨?_, settles.append_ended ended _⟩
      rw [epoch_append_ended ended]
      exact reported
    · exact ⟨continues.reported, continues.settles⟩
  · intro before w after split open_
    rcases cases_ before w after split with ⟨rest, hafter, ended, _⟩ | continues
    · rw [hafter] at open_
      exact absurd (fun e h => open_ e (List.mem_append_left _ h)) (not_still ended)
    · exact continues.current open_
  · intro last' watched
    rcases moves.stays watched who with ⟨before, shape⟩ | ⟨⟨last, was⟩, quiet⟩
    · refine ⟨log ++ tagged who before, who, [], ?_, List.forall_mem_nil _⟩
      rw [shape, tagged_append, List.append_assoc]
      rfl
    · obtain ⟨before, w, after, split, still⟩ := tracks.live last was
      refine ⟨before, w, after ++ tagged who events, by rw [split]; simp, ?_⟩
      intro e member
      rcases List.mem_append.mp member with old | new
      · exact still e old
      · exact quiet e new

end Epochs

end Videre.Host
