import Videre.Native.Conduct

/-! # A venue that dies and comes back

A flaky venue on a registry: the registry sends no call to it from its death to the first
sweep that read a healthy head, whatever else is scheduled, and every submit that reached
it was answered as the head it read says.
-/

namespace Videre.Native

open Interaction Host

theorem split_of_entries {log : List Happening} {past later : List (Entry Event)} {e : Entry Event}
    (split : entries log = past ++ e :: later) :
    ∃ before after, log = before ++ .logged e :: after ∧ entries before = past ∧
      entries after = later := by
  obtain ⟨front, back, rfl, hfront, hback⟩ := List.filterMap_eq_append_iff.mp split
  obtain ⟨skipped, h, after, rfl, bare, entry, hafter⟩ := List.filterMap_eq_cons_iff.mp hback
  have logged : h = .logged e := by
    cases h with
    | logged e' =>
        cases entry
        rfl
    | _ => cases entry
  refine ⟨front ++ skipped, after, by rw [logged, List.append_assoc], ?_, hafter⟩
  have none_ : entries skipped = [] := List.filterMap_eq_nil_iff.mpr bare
  rw [entries_append, none_, List.append_nil]
  exact hfront

section Natives

variable {P : Policy} {heads : ChainHead → String} {w : Platform} {i : Installed}

/-- What concerns an adapter happens after it was installed. -/
theorem installed_before (reach : Platform.Reach P heads w) (member : i ∈ w.installed)
    {before after : List Happening} {e : Entry Event} (split : w.log = before ++ .logged e :: after)
    (concerns : (∃ x ∈ e :: entries before, ∃ venue, x.what = .resolved venue (.ok i.slot)) ∨
      e.what = .died i.liveness ∨ e.what = .revived i.liveness) :
    .installed i ∈ before := by
  have lawful := (native_lawful reach).1
  have there := ((reach_founded reach).1.known i).mpr member
  rw [split] at there
  rcases List.mem_append.mp there with early | late
  · exact early
  · rcases List.mem_cons.mp late with same | late
    · cases same
    · obtain ⟨mid, rest, hafter⟩ := List.append_of_mem late
      have law : NativeLaw heads (before ++ .logged e :: mid) (.installed i) := by
        apply lawful.at_split
        rw [split, hafter, List.append_assoc]
        rfl
      have known : entries (before ++ .logged e :: mid) = entries before ++ e :: entries mid := by
        rw [entries_append]
        rfl
      unfold NativeLaw at law
      rw [known] at law
      have here := law e (List.mem_append_right _ List.mem_cons_self)
      rcases concerns with ⟨x, listed, venue, resolves⟩ | dies | revives
      · have known := law x (by
          rcases List.mem_cons.mp listed with rfl | old
          · exact List.mem_append_right _ List.mem_cons_self
          · exact List.mem_append_left _ old)
        exact absurd resolves (known.1 venue)
      · exact absurd dies here.2.1
      · exact absurd revives here.2.2

/-- A call that was routed to a native adapter hears from it what its code answers. -/
theorem native_answers (reach : Platform.Reach P heads w) (member : i ∈ w.installed) {id : Nat}
    {past later : List Event} {venue : VenueId} {inv : Invocation} {reply : Reply}
    (split : own id w.pool.log = past ++ .answered i.slot inv reply :: later)
    (routed : .resolved venue (.ok i.slot) ∈ past) :
    ∃ before after stage, w.log = before ++ .logged ⟨some id, .answered i.slot inv reply⟩ :: after ∧
      Came i id before stage ∧ Platform.reply stage i.adapter inv = some reply := by
  obtain ⟨front, back, hlog, hfront, -⟩ := split_of_own id split
  rw [← (reach_founded reach).1.entries] at hlog
  obtain ⟨before, after, hlog, hbefore, -⟩ := split_of_entries hlog
  have installed : .installed i ∈ before := by
    apply installed_before reach member hlog
    left
    refine ⟨⟨some id, .resolved venue (.ok i.slot)⟩, List.mem_cons_of_mem _ ?_, venue, rfl⟩
    rw [hbefore, ← mem_own, hfront]
    exact routed
  have law := (native_lawful reach).1.at_split hlog
  obtain ⟨id', stage, same, came, replies⟩ := law i installed rfl
  cases same
  exact ⟨before, after, stage, hlog, came, replies⟩

/-! ## Death and revival -/

def Down (i : Installed) (past : List Happening) : Prop :=
  ∃ before who after, past = before ++ .logged ⟨who, .died i.liveness⟩ :: after ∧
    ∀ who', .logged ⟨who', .revived i.liveness⟩ ∉ after

theorem Down.append {past : List Happening} (down : Down i past) {more : List Happening}
    (still : ∀ who, .logged ⟨who, .revived i.liveness⟩ ∉ more) : Down i (past ++ more) := by
  obtain ⟨before, who, after, split, dead⟩ := down
  refine ⟨before, who, after ++ more, by rw [split, List.append_assoc]; rfl, ?_⟩
  intro who' revived
  rcases List.mem_append.mp revived with old | new
  · exact dead who' old
  · exact still who' new

/-- What is down was down before the last happening, unless that was the death. -/
theorem down_concat {past : List Happening} {h : Happening} (down : Down i (past ++ [h])) :
    (∃ who, h = .logged ⟨who, .died i.liveness⟩) ∨
      Down i past ∧ ∀ who, h ≠ .logged ⟨who, .revived i.liveness⟩ := by
  obtain ⟨before, who, after, split, dead⟩ := down
  rcases List.eq_nil_or_concat after with rfl | ⟨between, last, rfl⟩
  · have same := (List.append_inj' split rfl).2
    exact .inl ⟨who, List.head_eq_of_cons_eq same⟩
  · rw [List.concat_eq_append] at split dead
    rw [← List.cons_append, ← List.append_assoc] at split
    obtain ⟨earlier, same⟩ := List.append_inj' split rfl
    obtain rfl := List.head_eq_of_cons_eq same
    refine .inr ⟨⟨before, who, between, earlier, ?_⟩, ?_⟩
    · exact fun who' revived => dead who' (List.mem_append_left _ revived)
    · rintro who' rfl
      exact dead who' (List.mem_append_right _ List.mem_cons_self)

/-- The flag reads dead exactly while the adapter is down. -/
theorem aliveAfter_down (past : List Happening) :
    aliveAfter i.liveness true (entries past) = false ↔ Down i past := by
  induction past using List.reverseRecOn with
  | nil =>
      constructor
      · intro dead
        cases dead
      · rintro ⟨before, who, after, split, -⟩
        simp at split
  | append_singleton past h ih =>
      by_cases dies : ∃ who, h = .logged ⟨who, .died i.liveness⟩
      · obtain ⟨who, rfl⟩ := dies
        constructor
        · intro dead
          exact ⟨past, who, [], rfl, fun _ => List.not_mem_nil⟩
        · intro down
          rw [entries_append, aliveAfter_append]
          simp [entries, Happening.entry?, aliveAfter, aliveStep]
      by_cases revives : ∃ who, h = .logged ⟨who, .revived i.liveness⟩
      · obtain ⟨who, rfl⟩ := revives
        constructor
        · intro dead
          rw [entries_append, aliveAfter_append] at dead
          simp [entries, Happening.entry?, aliveAfter, aliveStep] at dead
        · intro down
          rcases down_concat down with ⟨who', same⟩ | ⟨-, other⟩
          · cases same
          · exact absurd rfl (other who)
      · have kept : aliveAfter i.liveness true (entries (past ++ [h])) =
            aliveAfter i.liveness true (entries past) := by
          rw [entries_append, aliveAfter_append]
          cases h with
          | logged e =>
              obtain ⟨who, what⟩ := e
              cases what with
              | died l =>
                  have other : l ≠ i.liveness := by
                    rintro rfl
                    exact dies ⟨who, rfl⟩
                  simp [entries, Happening.entry?, aliveAfter, aliveStep, other]
              | revived l =>
                  have other : l ≠ i.liveness := by
                    rintro rfl
                    exact revives ⟨who, rfl⟩
                  simp [entries, Happening.entry?, aliveAfter, aliveStep, other]
              | _ => rfl
          | _ => rfl
        rw [kept, ih]
        constructor
        · intro down
          apply down.append
          intro who revived
          exact revives ⟨who, (List.mem_singleton.mp revived).symm⟩
        · intro down
          rcases down_concat down with died | ⟨before, -⟩
          · exact absurd died dies
          · exact before

/-- The registry routes around an adapter while it is down, and to it while it is not. -/
theorem routed_around (reach : Platform.Reach P heads w) {past later : List Happening}
    {who : Option Nat} {a : Except VenueError Slot}
    (split : w.log = past ++ .logged ⟨who, .resolved i.venue a⟩ :: later)
    (latest : installedAt (entries past) i.venue = some (i.slot, i.liveness)) :
    (Down i past ∧ a = .error (.unavailable
      ("venue " ++ i.venue.asStr ++ " is dead pending restart"))) ∨
      (¬ Down i past ∧ a = .ok i.slot) := by
  have founded := (reach_founded reach).1
  obtain ⟨start, pool⟩ := founded.reach
  have hlog : w.pool.log = entries past ++ ⟨who, .resolved i.venue a⟩ :: entries later := by
    rw [← founded.entries, split, entries_append]
    rfl
  have answer := (resolves_by_log pool).at_split hlog i.venue a rfl
  have answer : a = if aliveAfter i.liveness true (entries past) = true then .ok i.slot
      else .error (.unavailable ("venue " ++ i.venue.asStr ++ " is dead pending restart")) := by
    unfold routeAt at answer
    rw [latest] at answer
    exact answer
  have down := aliveAfter_down (i := i) past
  cases alive : aliveAfter i.liveness true (entries past) with
  | true =>
      right
      rw [alive] at answer down
      exact ⟨fun dead => Bool.noConfusion (down.mpr dead), answer⟩
  | false =>
      left
      rw [alive] at answer
      exact ⟨down.mp alive, answer⟩

/-- What a call did when it read the head of the adapter whose method it awaits. -/
theorem read_split (reach : Platform.Reach P heads w) (member : i ∈ w.installed)
    {head : ChainHead} (flaky : i.adapter = .flaky head) {id : Nat} {before after : List Happening}
    {poisoned : Bool} (split : w.log = before ++ .read id i.slot poisoned :: after) :
    poisoned = Flaky.isPoisoned (headAt heads before head) := by
  have founded := (reach_founded reach).1
  obtain ⟨j, head', installed, same, flaky', reads⟩ := (native_lawful reach).1.at_split split
  have there : j ∈ w.installed := by
    rw [← founded.known, split]
    exact List.mem_append_left _ installed
  rw [founded.unique there member (.inl same), flaky] at flaky'
  cases flaky'
  exact reads

inductive FlakySubmit (P : Policy) (heads : ChainHead → String) (w : Platform) (i : Installed)
    (head : ChainHead) (id : Nat) (body : Bytes) : Outcome → Prop
  | throttled : FlakySubmit P heads w i head id body (.submitted (.error (rateLimited P)))
  | accepted {before after : List Happening}
      (split : w.log = before ++ .read id i.slot false :: after)
      (healthy : Flaky.isPoisoned (headAt heads before head) = false) :
      FlakySubmit P heads w i head id body (.submitted (.ok (.accepted body)))
  | detonated {before mid after : List Happening}
      (split : w.log = before ++ .read id i.slot true ::
        (mid ++ .logged ⟨none, .died i.liveness⟩ :: after))
      (poisoned : Flaky.isPoisoned (headAt heads before head) = true) :
      FlakySubmit P heads w i head id body
        (.submitted (.error (.unavailable "flaky-venue poison head")))

/-- A flaky venue's answer to a submit, by how far the submit came. -/
theorem flakySubmit_of_came (reach : Platform.Reach P heads w) (member : i ∈ w.installed)
    {head : ChainHead} (flaky : i.adapter = .flaky head) {id : Nat} {body : Bytes}
    {before after : List Happening} (split : w.log = before ++ after) {stage : Option Stage}
    {result : Except VenueError SubmitOutcome} (came : Came i id before stage)
    (replies : Platform.reply stage i.adapter (.submit body) = some (.outcome result)) :
    FlakySubmit P heads w i head id body (.submitted result) := by
  rw [flaky] at replies
  cases came with
  | entered => cases replies
  | @read front back poisoned inside waits =>
      have whole : w.log = front ++ .read id i.slot poisoned :: (back ++ after) := by
        rw [split, inside, List.append_assoc]
        rfl
      have reads := read_split reach member flaky whole
      cases poisoned with
      | true => cases replies
      | false =>
          cases replies
          exact .accepted whole reads.symm
  | marked front mid back inside waits =>
      have whole : w.log = front ++ .read id i.slot true ::
          (mid ++ .logged ⟨none, .died i.liveness⟩ :: (back ++ after)) := by
        rw [split, inside]
        simp
      cases replies
      exact .detonated whole (read_split reach member flaky whole).symm

theorem decodeCharge_resolves {caller : String} {e : VenueError} {charged : List Event}
    (charge : DecodeCharge caller e charged) (venue : VenueId) (a : Except VenueError Slot) :
    .resolved venue a ∉ charged := by
  intro member
  cases e with
  | invalidBody detail =>
      obtain ⟨instant, rfl⟩ := charge
      simp at member
  | _ =>
      have none_ : charged = [] := charge
      rw [none_] at member
      cases member

theorem watching_resolves {result : Except VenueError SubmitOutcome} {watching : List Event}
    (watches : Watching result watching) (venue : VenueId) (a : Except VenueError Slot) :
    .resolved venue a ∉ watching := by
  intro member
  unfold Watching at watches
  split at watches
  next => cases watches.quiet _ member
  next =>
    rw [watches] at member
    cases member

/-- A call that is refused where it is routed ends there. -/
theorem turned_away {call : Call} {past : List Event} {outcome : Outcome} {venue : VenueId}
    {e : VenueError} (story : Story P call past outcome) (routes : call.venue? = some venue)
    (refused : .resolved venue (.error e) ∈ past) :
    past = [.resolved venue (.error e)] ∧ outcome = call.refuse e := by
  cases story with
  | unrouted e' routes' =>
      cases List.mem_singleton.mp refused
      exact ⟨rfl, rfl⟩
  | underived caller venue' body slot e' charge =>
      simp [decodeCharge_resolves charge] at refused
  | submitted caller venue' body slot header instant verdict result watches =>
      simp [watching_resolves watches] at refused
  | observed venue' receipt slot admitted listing =>
      rcases List.mem_append.mp refused with first | later
      · simp at first
      · cases listing.quiet _ later
  | polled pairs pruned tour => cases routes
  | _ => simp at refused

theorem flaky_submit (reach : Platform.Reach P heads w) (member : i ∈ w.installed)
    {head : ChainHead} (flaky : i.adapter = .flaky head) {id : Nat} {caller : String} {body : Bytes}
    {outcome : Outcome} (made : w.pool.calls[id]? = some (.submit caller i.venue body))
    (returned : w.pool.threads id = some (.done outcome))
    (routed : .resolved i.venue (.ok i.slot) ∈ own id w.pool.log) :
    FlakySubmit P heads w i head id body outcome := by
  obtain ⟨start, pool⟩ := (reach_founded reach).1.reach
  obtain ⟨call, made', point⟩ := tells_thread pool returned
  rw [made] at made'
  cases made'
  have story := point.returned outcome rfl
  generalize trace : own id w.pool.log = events at story routed
  cases story with
  | unrouted e routes => simp at routed
  | throttled slot routes spends => exact .throttled
  | @underived caller venue body slot e charged charge =>
      have charges := decodeCharge_resolves charge
      simp [charges] at routed
      subst routed
      have hears : own id w.pool.log = ([.resolved i.venue (.ok i.slot), .gated caller true,
          .locked i.slot, .invoked i.slot (.deriveHeader body)] : List Event) ++
            .answered i.slot (.deriveHeader body) (.header (.error e)) ::
              (charged ++ [.unlocked i.slot]) := by
        rw [trace]
        simp
      obtain ⟨-, -, stage, -, -, replies⟩ := native_answers reach member hears List.mem_cons_self
      rw [flaky] at replies
      cases replies
  | @submitted caller venue body slot header instant verdict result watching watches =>
      have listed := watching_resolves watches
      simp [listed] at routed
      subst routed
      have hears : own id w.pool.log = ([.resolved i.venue (.ok i.slot), .gated caller true,
          .locked i.slot, .invoked i.slot (.deriveHeader body),
          .answered i.slot (.deriveHeader body) (.header (.ok header)), .charged caller instant,
          .guarded ⟨caller, i.venue, header⟩ verdict,
          .invoked i.slot (.submit body)] : List Event) ++
            .answered i.slot (.submit body) (.outcome result) ::
              (watching ++ [.unlocked i.slot]) := by
        rw [trace]
        simp
      obtain ⟨before, after, stage, split, came, replies⟩ :=
        native_answers reach member hears List.mem_cons_self
      exact flakySubmit_of_came reach member flaky split came replies

theorem find_liveness (founded : Founded P heads w) (member : i ∈ w.installed) :
    (w.installed.find? fun j => j.liveness == i.liveness) = some i := by
  cases found : w.installed.find? fun j => j.liveness == i.liveness with
  | none =>
      have absent := List.find?_eq_none.mp found i member
      simp at absent
  | some j =>
      have same : j.liveness = i.liveness := by
        simpa using List.find?_some found
      rw [founded.unique (List.mem_of_find?_eq_some found) member (.inr same)]

/-- Healing the head and sweeping brings a flaky venue back, wherever the platform stands. -/
theorem sweeps_back (founded : Founded P heads w) (member : i ∈ w.installed) {head : ChainHead}
    (flaky : i.adapter = .flaky head) :
    ∃ w', Platform.run P [.set head Flaky.healthyHead, .sweep i.liveness, .revive i.liveness] w =
        some w' ∧ ¬ Down i w'.log := by
  obtain ⟨slot, liveness, venue, adapter⟩ := i
  subst flaky
  let healed := { w with heads := Function.update w.heads head Flaky.healthyHead }.see
    (.set head Flaky.healthyHead)
  let swept := { healed with sweeps := liveness :: w.sweeps }.see (.swept liveness true)
  have sweeps : Platform.step P healed (.sweep liveness) = some swept := by
    have found : (healed.installed.find? fun j => j.liveness == liveness) =
        some ⟨slot, liveness, venue, .flaky head⟩ := find_liveness founded member
    have healthy : Flaky.isPoisoned (healed.heads head) = false := by
      have reads : healed.heads head = Flaky.healthyHead := Function.update_self ..
      rw [reads]
      decide
    simp only [Platform.step, found, healthy]
    rfl
  have revives : ∃ w', Platform.step P swept (.revive liveness) = some w' := by
    have due : liveness ∈ swept.sweeps := List.mem_cons_self
    simp only [Platform.step, if_pos due]
    exact ⟨_, rfl⟩
  obtain ⟨w', revives⟩ := revives
  refine ⟨w', ?_, ?_⟩
  · have heals : Platform.step P w (.set head Flaky.healthyHead) = some healed := rfl
    simp only [Platform.run, heals, sweeps, revives, Option.bind_some]
  · intro down
    have grown : w'.log = swept.log ++ [.logged ⟨none, .revived liveness⟩] := by
      have due : liveness ∈ swept.sweeps := List.mem_cons_self
      simp only [Platform.step, if_pos due] at revives
      obtain ⟨w₁, turned, rfl⟩ := Option.map_eq_some_iff.mp revives
      exact (turned_host turned).1.fields.2.2.2.2.2
    rw [grown] at down
    rcases down_concat down with ⟨who, same⟩ | ⟨-, other⟩
    · cases same
    · exact absurd rfl (other none)

/-- A flaky venue recovers by its sweep and by nothing else. While it is down the registry
answers every call to it `unavailable`, which ends the call and invokes nothing, and calls it
otherwise; it dies only of a submit that
read a poisoned head and waits since; each revival is owed to a sweep of its own that read a
healthy one; a submit routed to it is answered as the head it read says; and from anywhere,
healing the head and sweeping brings it back. -/
theorem flaky_recovers_by_sweep (reach : Platform.Reach P heads w) (member : i ∈ w.installed)
    {head : ChainHead} (flaky : i.adapter = .flaky head) :
    (∀ past who a later, w.log = past ++ .logged ⟨who, .resolved i.venue a⟩ :: later →
      installedAt (entries past) i.venue = some (i.slot, i.liveness) →
        (Down i past ∧ a = .error (.unavailable
            ("venue " ++ i.venue.asStr ++ " is dead pending restart")) ∧
          ∀ id call outcome, who = some id → w.pool.calls[id]? = some call →
            call.venue? = some i.venue → w.pool.threads id = some (.done outcome) →
              own id w.pool.log = [.resolved i.venue a] ∧
                outcome = call.refuse (.unavailable
                  ("venue " ++ i.venue.asStr ++ " is dead pending restart"))) ∨
        (¬ Down i past ∧ a = .ok i.slot)) ∧
    (∀ past who later, w.log = past ++ .logged ⟨who, .died i.liveness⟩ :: later →
      ∃ id before after, past = before ++ .read id i.slot true :: after ∧
        own id (entries after) = [] ∧ Flaky.isPoisoned (headAt heads before head) = true) ∧
    (∀ past who later, w.log = past ++ .logged ⟨who, .revived i.liveness⟩ :: later →
      revivals i.liveness past < past.count (.swept i.liveness true)) ∧
    (∀ past healthy later, w.log = past ++ .swept i.liveness healthy :: later →
      healthy = !Flaky.isPoisoned (headAt heads past head)) ∧
    (∀ id caller body outcome, w.pool.calls[id]? = some (.submit caller i.venue body) →
      w.pool.threads id = some (.done outcome) →
      .resolved i.venue (.ok i.slot) ∈ own id w.pool.log →
        FlakySubmit P heads w i head id body outcome) ∧
    ∃ w', Platform.run P [.set head Flaky.healthyHead, .sweep i.liveness, .revive i.liveness] w =
      some w' ∧ ¬ Down i w'.log := by
  have founded := (reach_founded reach).1
  have lawful := (native_lawful reach).1
  refine ⟨?_, ?_, ?_, ?_, ?_, sweeps_back founded member flaky⟩
  · intro past who a later split latest
    rcases routed_around reach split latest with ⟨down, rfl⟩ | up
    · refine .inl ⟨down, rfl, ?_⟩
      rintro id call outcome rfl made routes returned
      obtain ⟨start, pool⟩ := founded.reach
      obtain ⟨call', made', point⟩ := tells_thread pool returned
      cases made.symm.trans made'
      apply turned_away (point.returned outcome rfl) routes
      rw [mem_own, ← founded.entries, split, entries_append]
      exact List.mem_append_right _ List.mem_cons_self
    · exact .inr up
  · intro past who later split
    have installed := installed_before reach member split (.inr (.inl rfl))
    obtain ⟨id, head', flaky', came⟩ := lawful.at_split split i installed rfl
    cases came with
    | read before after inside waits =>
        refine ⟨id, before, after, inside, waits, ?_⟩
        symm
        apply read_split reach member flaky
        rw [split, inside, List.append_assoc]
        rfl
  · intro past who later split
    have installed := installed_before reach member split (.inr (.inr rfl))
    exact (lawful.at_split split i installed rfl).2
  · intro past healthy later split
    obtain ⟨j, head', installed, same, flaky', reads⟩ := lawful.at_split split
    have there : j ∈ w.installed := by
      rw [← founded.known, split]
      exact List.mem_append_left _ installed
    rw [founded.unique there member (.inr same), flaky] at flaky'
    cases flaky'
    exact reads
  · intro id caller body outcome made returned routed
    exact flaky_submit reach member flaky made returned routed

end Natives

/-! ## A small platform -/

def beside (schedule : Schedule) : List PlatformLabel :=
  schedule.map .registry

def detonation : List PlatformLabel :=
  [.register stubVenue (.flaky 0)] ++
  beside ([.spawn (.submit "keeper" stubVenue [1])] ++ throughGate 0 ++
    [.advance 0 (.elapsed 0), .advance 0 (.elapsed 0)]) ++
  [.answer 0] ++
  beside [.advance 0 (.elapsed 0), .advance 0 (.verdict .allow), .advance 0 (.elapsed 0)] ++
  [.read 0, .mark 0, .answer 0, .registry (.advance 0 (.elapsed 0))]

theorem flaky_recovers_by_sweep_stub : ∃ w w' : Platform,
    Platform.Reach oneCharge (fun _ => Flaky.poisonHead) w ∧
    FlakySubmit oneCharge (fun _ => Flaky.poisonHead) w ⟨0, 0, stubVenue, .flaky 0⟩ 0 0 [1]
      (.submitted (.error (.unavailable "flaky-venue poison head"))) ∧
    Platform.run oneCharge [.set 0 Flaky.healthyHead, .sweep 0, .revive 0] w = some w' ∧
    ¬ Down ⟨0, 0, stubVenue, .flaky 0⟩ w'.log := by
  have ran : (Platform.run oneCharge detonation
      (Platform.idle 0 fun _ => Flaky.poisonHead)).map
      (fun w => (w.installed, w.pool.calls[0]?, outcomeOf w.pool 0, own 0 w.pool.log |>.head?)) =
      some ([⟨0, 0, stubVenue, .flaky 0⟩], some (.submit "keeper" stubVenue [1]),
        some (.submitted (.error (.unavailable "flaky-venue poison head"))),
        some (.resolved stubVenue (.ok 0))) := by
    rfl
  obtain ⟨w, reached, same⟩ := Option.map_eq_some_iff.mp ran
  simp only [Prod.mk.injEq] at same
  obtain ⟨installed, made, returned, routed⟩ := same
  have reach : Platform.Reach oneCharge (fun _ => Flaky.poisonHead) w :=
    .of_run (.start 0) reached
  have member : (⟨0, 0, stubVenue, .flaky 0⟩ : Installed) ∈ w.installed := by
    rw [installed]
    exact List.mem_cons_self
  obtain ⟨-, -, -, -, submits, w', back, up⟩ := flaky_recovers_by_sweep reach member rfl
  exact ⟨w, w', reach, submits 0 "keeper" [1] _ made (thread_of_outcomeOf returned)
    (List.mem_of_mem_head? routed), back, up⟩

end Videre.Native
