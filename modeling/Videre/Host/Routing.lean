import Videre.Host.Submission

/-! # Which adapters are entered

Liveness is read when a slot is resolved; the method is entered after a wait. The
log fixes the routing state at every moment, so the adapter a call enters is the
live one exactly when neither its venue nor its flag moved since the call resolved.
-/

namespace Videre.Host

open Interaction

/-- The slot is the one installed for some venue, and that venue's flag reads alive. -/
def EnterableLive (r : Registry) (slot : Slot) : Prop :=
  ∃ venue installed, r.adapters.lookup venue = some installed ∧ installed.slot = slot ∧
    (r.flags installed.liveness).isAlive = true

/-! ## The routing state read off the log -/

def installStep (venue : VenueId) (installed : Option (Slot × Liveness)) (e : Entry Event) :
    Option (Slot × Liveness) :=
  match e.what with
  | .registered v slot liveness => if v = venue then some (slot, liveness) else installed
  | _ => installed

def installedAt (log : List (Entry Event)) (venue : VenueId) : Option (Slot × Liveness) :=
  log.foldl (installStep venue) none

def aliveStep (liveness : Liveness) (alive : Bool) (e : Entry Event) : Bool :=
  match e.what with
  | .died l => if l = liveness then false else alive
  | .revived l => if l = liveness then true else alive
  | _ => alive

def aliveAfter (liveness : Liveness) (alive : Bool) (log : List (Entry Event)) : Bool :=
  log.foldl (aliveStep liveness) alive

/-- Since the call last resolved and was given `slot`, its venue was not registered anew and
the flag it was registered with was not left dead. -/
def Undisturbed (log : List (Entry Event)) (id : Nat) (slot : Slot) : Prop :=
  ∃ venue liveness before mid,
    log = before ++ ⟨some id, .resolved venue (.ok slot)⟩ :: mid ∧
    (∀ v a, .resolved v a ∉ own id mid) ∧
    ⟨none, .registered venue slot liveness⟩ ∈ before ∧
    (∀ e ∈ mid, ∀ s l, e.what ≠ .registered venue s l) ∧
    aliveAfter liveness true mid = true

section Folds

variable {log first second : List (Entry Event)} {venue : VenueId}

theorem installedAt_append : installedAt (first ++ second) venue =
    second.foldl (installStep venue) (installedAt first venue) :=
  List.foldl_append

theorem aliveAfter_append (liveness : Liveness) (alive : Bool) :
    aliveAfter liveness alive (first ++ second) =
      aliveAfter liveness (aliveAfter liveness alive first) second :=
  List.foldl_append

theorem foldl_installStep_other {events : List (Entry Event)}
    (other : ∀ e ∈ events, ∀ s l, e.what ≠ .registered venue s l)
    (installed : Option (Slot × Liveness)) :
    events.foldl (installStep venue) installed = installed := by
  induction events generalizing installed with
  | nil => rfl
  | cons e events ih =>
      have same : installStep venue installed e = installed := by
        unfold installStep
        split
        next v slot liveness heq =>
          by_cases here : v = venue
          · subst here
            exact absurd heq (other e (by simp) _ _)
          · rw [if_neg here]
        next => rfl
      rw [List.foldl_cons, same]
      exact ih (fun x h => other x (by simp [h])) installed

/-- A venue's latest registration is a registration, made at the start or in the events. -/
theorem foldl_installStep_mem {events : List (Entry Event)}
    {installed : Option (Slot × Liveness)} {slot : Slot} {liveness : Liveness}
    (found : events.foldl (installStep venue) installed = some (slot, liveness)) :
    (installed = some (slot, liveness) ∧ ∀ e ∈ events, ∀ s l, e.what ≠ .registered venue s l) ∨
      ∃ e ∈ events, e.what = .registered venue slot liveness := by
  induction events generalizing installed with
  | nil => exact .inl ⟨found, by simp⟩
  | cons e events ih =>
      rcases ih found with ⟨here, none_later⟩ | ⟨x, member, hx⟩
      · unfold installStep at here
        split at here
        next v s l heq =>
          by_cases same : v = venue
          · rw [if_pos same, Option.some.injEq, Prod.mk.injEq] at here
            right
            refine ⟨e, by simp, ?_⟩
            rw [heq, same, here.1, here.2]
          · rw [if_neg same] at here
            left
            refine ⟨here, fun x member s' l' hx => ?_⟩
            rcases List.mem_cons.mp member with rfl | later
            · rw [heq] at hx
              cases hx
              exact same rfl
            · exact none_later x later s' l' hx
        next unregistered =>
          left
          refine ⟨here, fun x member s l hx => ?_⟩
          rcases List.mem_cons.mp member with rfl | later
          · exact unregistered _ _ _ hx
          · exact none_later x later s l hx
      · exact .inr ⟨x, List.mem_cons_of_mem _ member, hx⟩

theorem installedAt_mem {slot : Slot} {liveness : Liveness}
    (found : installedAt log venue = some (slot, liveness)) :
    ∃ e ∈ log, e.what = .registered venue slot liveness := by
  rcases foldl_installStep_mem found with ⟨h, _⟩ | h
  · cases h
  · exact h

theorem routed_split {past : List Event} {slot : Slot} (route : routed past = some (venue, slot)) :
    ∃ before mid, past = before ++ .resolved venue (.ok slot) :: mid ∧
      ∀ v a, .resolved v a ∉ mid := by
  induction past using List.reverseRecOn with
  | nil => cases route
  | append_singleton past e ih =>
      rw [routed_append] at route
      by_cases resolves : ∃ v a, e = .resolved v a
      · obtain ⟨v, a, he⟩ := resolves
        subst he
        cases a with
        | error err => cases route
        | ok s =>
            simp only [List.foldl_cons, List.foldl_nil, routedAfter, Option.some.injEq,
              Prod.mk.injEq] at route
            refine ⟨past, [], ?_, by simp⟩
            rw [route.1, route.2]
      · have same : routedAfter (routed past) e = routed past := by
          cases e <;> first | rfl | exact absurd ⟨_, _, rfl⟩ resolves
        rw [List.foldl_cons, List.foldl_nil, same] at route
        obtain ⟨before, mid, split, quiet⟩ := ih route
        refine ⟨before, mid ++ [e], by rw [split]; simp, ?_⟩
        intro v a member
        rcases List.mem_append.mp member with old | new
        · exact quiet v a old
        · exact resolves ⟨v, a, (List.mem_singleton.mp new).symm⟩

end Folds

/-! ## What a step does to the routing state -/

variable {P : Policy}

def Event.besideRoute : Event → Bool
  | .registered _ _ _ | .died _ | .revived _ | .resolved _ _ => false
  | _ => true

theorem besideRoute_onWatch {e : Event} (quiet : e.onWatch = true) : e.besideRoute = true := by
  cases e <;> first | rfl | cases quiet

def SameRoutes (r r' : Registry) : Prop :=
  r'.adapters = r.adapters ∧ r'.flags = r.flags ∧ r'.slots = r.slots

theorem act_routes {id : Nat} {o : Op} {i : Input} {r r' : Registry} {a : o.Ans}
    {events : List Event} (acts : act P id o i r = some (a, events, r')) :
    SameRoutes r r' ∧
      ((∃ venue, events = [.resolved venue (r.resolve venue)]) ∨
        ∀ e ∈ events, e.besideRoute = true) := by
  cases o with
  | resolve venue =>
      obtain ⟨ha, hevents, hr⟩ := act_resolve acts
      rw [hr, hevents, ha]
      exact ⟨⟨rfl, rfl, rfl⟩, .inl ⟨venue, rfl⟩⟩
  | quotaAdmits caller =>
      obtain ⟨_, hevents, hr⟩ := act_quotaAdmits acts
      rw [hr, hevents]
      exact ⟨⟨rfl, rfl, rfl⟩, .inr (by simp [Event.besideRoute])⟩
  | charge caller =>
      obtain ⟨_, _, hevents, hr⟩ := act_charge acts
      rw [hr, hevents]
      exact ⟨⟨rfl, rfl, rfl⟩, .inr (by simp [Event.besideRoute])⟩
  | lock slot =>
      obtain ⟨_, hevents, hr⟩ := act_lock acts
      rw [hr, hevents]
      exact ⟨⟨rfl, rfl, rfl⟩, .inr (by simp [Event.besideRoute])⟩
  | unlock slot =>
      obtain ⟨hevents, hr⟩ := act_unlock acts
      rw [hr, hevents]
      exact ⟨⟨rfl, rfl, rfl⟩, .inr (by simp [Event.besideRoute])⟩
  | invoke slot inv =>
      obtain ⟨hevents, hr⟩ := act_invoke acts
      rw [hr, hevents]
      exact ⟨⟨rfl, rfl, rfl⟩, .inr (by simp [Event.besideRoute])⟩
  | answer slot inv =>
      obtain ⟨_, _, hevents, hr⟩ := act_answer acts
      rw [hr, hevents]
      exact ⟨⟨rfl, rfl, rfl⟩, .inr (by simp [Event.besideRoute])⟩
  | check ctx =>
      obtain ⟨hevents, hr⟩ := act_check acts
      rw [hr, hevents]
      exact ⟨⟨rfl, rfl, rfl⟩, .inr (by simp [Event.besideRoute])⟩
  | watch venue receipt =>
      obtain ⟨_, hr⟩ := act_watch_frame acts
      have quiet := act_watch_onWatch acts
      rw [hr]
      exact ⟨⟨rfl, rfl, rfl⟩, .inr fun e h => besideRoute_onWatch (quiet e h)⟩
  | snapshot =>
      have quiet := act_snapshot_onWatch acts
      rw [act_snapshot_frame acts]
      exact ⟨⟨rfl, rfl, rfl⟩, .inr fun e h => besideRoute_onWatch (quiet e h)⟩
  | recordPolledStatus venue receipt status =>
      have quiet := act_recordPolledStatus_onWatch acts
      rw [act_recordPolledStatus_frame acts]
      exact ⟨⟨rfl, rfl, rfl⟩, .inr fun e h => besideRoute_onWatch (quiet e h)⟩

/-- A registration takes a new slot; a resolved slot is the live one of its venue. -/
def RouteLaw (past : List (Entry Event)) (e : Entry Event) : Prop :=
  match e.what with
  | .registered _ slot _ =>
      e.who = none ∧ ∀ x ∈ past, ∀ v l, x.what ≠ .registered v slot l
  | .resolved venue (.ok slot) =>
      ∃ liveness, installedAt past venue = some (slot, liveness) ∧
        aliveAfter liveness true past = true
  | _ => True

/-- The log says what is installed and which flags are alive. -/
structure RoutesMatch (r : Registry) (log : List (Entry Event)) : Prop where
  installed : ∀ venue, (r.adapters.lookup venue).map (fun v => (v.slot, v.liveness)) =
    installedAt log venue
  alive : ∀ liveness, (r.flags liveness).isAlive = aliveAfter liveness true log
  fresh : ∀ e ∈ log, ∀ v slot l, e.what = .registered v slot l → slot < r.slots
  lawful : Lawful RouteLaw log

theorem RoutesMatch.append {r r' : Registry} {log events : List (Entry Event)}
    (routes : RoutesMatch r log) (same : SameRoutes r r')
    (unregistered : ∀ e ∈ events, ∀ v s l, e.what ≠ .registered v s l)
    (unmarked : ∀ e ∈ events, ∀ l, e.what ≠ .died l ∧ e.what ≠ .revived l)
    (law : Extends RouteLaw log events) : RoutesMatch r' (log ++ events) := by
  obtain ⟨adapters, flags, slots⟩ := same
  constructor
  · intro venue
    rw [adapters, installedAt_append,
      foldl_installStep_other fun e h s l => unregistered e h venue s l]
    exact routes.installed venue
  · intro liveness
    rw [flags, aliveAfter_append, routes.alive liveness]
    clear law
    generalize aliveAfter liveness true log = alive
    induction events generalizing alive with
    | nil => rfl
    | cons e events ih =>
        have kept : aliveStep liveness alive e = alive := by
          have marks := unmarked e (by simp)
          unfold aliveStep
          split
          next l heq => exact absurd heq (marks l).1
          next l heq => exact absurd heq (marks l).2
          next => rfl
        simp only [aliveAfter, List.foldl_cons, kept]
        exact ih (fun x h => unregistered x (by simp [h])) (fun x h => unmarked x (by simp [h])) alive
  · intro e member v s l he
    rw [slots]
    rcases List.mem_append.mp member with old | new
    · exact routes.fresh e old v s l he
    · exact absurd he (unregistered e new v s l)
  · exact routes.lawful.append law

theorem RoutesMatch.beside {r r' : Registry} {log : List (Entry Event)} {who : Option Nat}
    {events : List Event} (routes : RoutesMatch r log) (same : SameRoutes r r')
    (beside : ∀ e ∈ events, e.besideRoute = true) :
    RoutesMatch r' (log ++ tagged who events) := by
  have what : ∀ e ∈ tagged who events, e.what.besideRoute = true :=
    fun e member => beside e.what (mem_tagged.mp member).2
  apply routes.append same
  · intro e member v s l he
    have := what e member
    rw [he] at this
    cases this
  · intro e member l
    constructor <;> intro he <;> have := what e member <;> rw [he] at this <;> cases this
  · clear routes
    generalize tagged who events = entries at what
    induction entries generalizing log with
    | nil => trivial
    | cons e entries ih =>
        refine ⟨?_, ih fun x h => what x (by simp [h])⟩
        have here := what e (by simp)
        unfold RouteLaw
        split
        next heq =>
          rw [heq] at here
          cases here
        next heq =>
          rw [heq] at here
          cases here
        next => trivial

theorem RoutesMatch.resolved {r r' : Registry} {log : List (Entry Event)} {who : Option Nat}
    (routes : RoutesMatch r log) (same : SameRoutes r r') (venue : VenueId) :
    RoutesMatch r' (log ++ tagged who [.resolved venue (r.resolve venue)]) := by
  apply routes.append same
  · simp
  · simp
  · refine ⟨?_, trivial⟩
    unfold RouteLaw
    split
    next heq => cases heq
    next v slot heq =>
      simp only [Event.resolved.injEq] at heq
      obtain ⟨rfl, resolves⟩ := heq
      unfold Registry.resolve at resolves
      split at resolves
      next => cases resolves
      next installed found =>
        split at resolves
        next alive =>
          cases resolves
          refine ⟨installed.liveness, ?_, ?_⟩
          · rw [← routes.installed, found]
            rfl
          · rw [← routes.alive]
            exact alive
        next => cases resolves
    next => trivial

theorem RoutesMatch.register {r : Registry} {log : List (Entry Event)} (routes : RoutesMatch r log)
    (venue : VenueId) (liveness : Liveness) (bodyVersions : Finset UInt32) :
    RoutesMatch
      { r with
        adapters := r.adapters.insert venue ⟨r.slots, liveness, bodyVersions⟩
        slots := r.slots + 1 }
      (log ++ [⟨none, .registered venue r.slots liveness⟩]) := by
  constructor
  · intro v
    rw [installedAt_append]
    by_cases here : v = venue
    · subst here
      simp [installStep, AList.lookup_insert]
    · have other : venue ≠ v := fun h => here h.symm
      simp only [List.foldl_cons, List.foldl_nil, installStep, if_neg other,
        AList.lookup_insert_ne here]
      exact routes.installed v
  · intro l
    rw [aliveAfter_append]
    exact routes.alive l
  · intro e member v s l he
    rcases List.mem_append.mp member with old | new
    · exact Nat.lt_succ_of_lt (routes.fresh e old v s l he)
    · rw [List.mem_singleton.mp new] at he
      cases he
      exact Nat.lt_succ_self _
  · apply routes.lawful.append
    refine ⟨⟨rfl, ?_⟩, trivial⟩
    intro x member v l hx
    exact Nat.lt_irrefl _ (routes.fresh x member v _ l hx)

theorem RoutesMatch.mark {r : Registry} {log : List (Entry Event)} (routes : RoutesMatch r log)
    {liveness : Liveness} {flag : Flag} {e : Event}
    (marks : e = .died liveness ∧ flag.isAlive = false ∨
      e = .revived liveness ∧ flag.isAlive = true) :
    RoutesMatch { r with flags := Function.update r.flags liveness flag } (log ++ [⟨none, e⟩]) := by
  constructor
  · intro v
    rw [installedAt_append, routes.installed v]
    rcases marks with ⟨rfl, _⟩ | ⟨rfl, _⟩ <;> rfl
  · intro l
    rw [aliveAfter_append]
    simp only [Function.update_apply]
    have before := routes.alive l
    by_cases here : l = liveness
    · subst here
      rcases marks with ⟨rfl, dead⟩ | ⟨rfl, alive⟩
      · simp [aliveAfter, aliveStep, dead]
      · simp [aliveAfter, aliveStep, alive]
    · have other : liveness ≠ l := fun h => here h.symm
      rcases marks with ⟨rfl, _⟩ | ⟨rfl, _⟩ <;>
        simpa [aliveAfter, aliveStep, here, other] using before
  · intro x member v s l he
    rcases List.mem_append.mp member with old | new
    · exact routes.fresh x old v s l he
    · rw [List.mem_singleton.mp new] at he
      rcases marks with ⟨rfl, _⟩ | ⟨rfl, _⟩ <;> cases he
  · apply routes.lawful.append
    rcases marks with ⟨rfl, _⟩ | ⟨rfl, _⟩ <;> exact ⟨trivial, trivial⟩

theorem RoutesMatch.host {r : Registry} {log : List (Entry Event)} (routes : RoutesMatch r log)
    (event : HostEvent) :
    RoutesMatch (Host.host event r).2 (log ++ tagged none (Host.host event r).1) := by
  cases event with
  | elapse nanos => exact routes.beside ⟨rfl, rfl, rfl⟩ (List.forall_mem_nil _)
  | register venue liveness bodyVersions =>
      cases registered : r.register venue liveness bodyVersions with
      | error e =>
          rw [Host.host, registered]
          exact routes.beside ⟨rfl, rfl, rfl⟩ (by simp [Event.besideRoute])
      | ok r' =>
          rw [Host.host, registered, register_frame registered]
          exact routes.register venue liveness bodyVersions
  | markDead liveness =>
      exact routes.mark (.inl ⟨rfl, Flag.isAlive_markDead r.now (r.flags liveness)⟩)
  | markAlive liveness =>
      exact routes.mark (.inr ⟨rfl, Flag.isAlive_markAlive (r.flags liveness)⟩)

theorem routes_match {p : RegistryPool} {start : Nat}
    (reach : (venueRegistry P).Reach (Registry.new start) p) : RoutesMatch p.shared p.log := by
  induction reach with
  | start => exact ⟨fun _ => rfl, fun _ => rfl, List.forall_mem_nil _, lawful_nil⟩
  | @step p q label before moves ih =>
      obtain ⟨call, rfl, rfl⟩ | ⟨id, i, o, rest, a, events, r, rfl, thread, acts, rfl⟩ |
        ⟨id, o, rest, events, r, rfl, thread, gone, rfl⟩ | ⟨event, rfl, rfl⟩ :=
          (venueRegistry P).step_cases moves
      · exact ih
      · obtain ⟨same, shape⟩ := act_routes acts
        rcases shape with ⟨venue, hevents⟩ | beside
        · rw [hevents]
          exact ih.resolved same venue
        · exact ih.beside same beside
      · rcases abandon_cases id gone with ⟨slot, _, hevents, hr⟩ | ⟨slot, inv, _, hevents, hr⟩
        · rw [hevents, hr]
          exact ih.beside ⟨rfl, rfl, rfl⟩ (by simp)
        · rw [hevents, hr]
          exact ih.beside ⟨rfl, rfl, rfl⟩ (by simp [Event.besideRoute])
      · exact ih.host event

/-! ## Entering an adapter -/

section Registrations

variable {log before mid : List (Entry Event)}

theorem registered_once (lawful : Lawful RouteLaw (before ++ mid)) {e x : Entry Event}
    {v v' : VenueId} {slot : Slot} {l l' : Liveness} (old : e ∈ before) (new : x ∈ mid)
    (he : e.what = .registered v slot l) : x.what ≠ .registered v' slot l' := by
  intro hx
  obtain ⟨first, second, hmid⟩ := List.append_of_mem new
  have split : before ++ mid = (before ++ first) ++ x :: second := by
    rw [hmid]
    simp
  have law := lawful.at_split split
  unfold RouteLaw at law
  rw [hx] at law
  exact law.2 e (List.mem_append_left _ old) v l he

theorem registered_unique (lawful : Lawful RouteLaw log) {e x : Entry Event} {v v' : VenueId}
    {slot : Slot} {l l' : Liveness} (he : e ∈ log) (hx : x ∈ log)
    (this : e.what = .registered v slot l) (that : x.what = .registered v' slot l') :
    v = v' ∧ l = l' := by
  obtain ⟨first, second, hlog⟩ := List.append_of_mem he
  rw [hlog] at hx lawful
  rcases List.mem_append.mp hx with earlier | here
  · exact absurd this (registered_once lawful earlier (by simp) that)
  · rcases List.mem_cons.mp here with same | later
    · rw [same, this] at that
      cases that
      exact ⟨rfl, rfl⟩
    · have regroup : first ++ e :: second = (first ++ [e]) ++ second := by simp
      rw [regroup] at lawful
      exact absurd that (registered_once lawful (by simp) later this)

theorem registered_by_host (lawful : Lawful RouteLaw log) {e : Entry Event} {v : VenueId}
    {slot : Slot} {l : Liveness} (member : e ∈ log) (he : e.what = .registered v slot l) :
    e = ⟨none, .registered v slot l⟩ := by
  obtain ⟨first, second, hlog⟩ := List.append_of_mem member
  have law := lawful.at_split hlog
  unfold RouteLaw at law
  rw [he] at law
  obtain ⟨who, what⟩ := e
  rw [← he, ← law.1]

end Registrations

theorem resolved_live {log before mid : List (Entry Event)} {who : Option Nat} {venue : VenueId}
    {slot : Slot} (lawful : Lawful RouteLaw log)
    (split : log = before ++ ⟨who, .resolved venue (.ok slot)⟩ :: mid) :
    ∃ liveness, installedAt before venue = some (slot, liveness) ∧
      aliveAfter liveness true before = true :=
  lawful.at_split split

/-- When a call is about to enter an adapter, the adapter is the installed and live one of
its venue exactly when the call's route is undisturbed since it resolved. -/
theorem entered_live_iff_undisturbed {P : Policy} {p : RegistryPool} (reach : Reachable P p)
    {id : Nat} {slot : Slot} {inv : Invocation} {rest : Unit → Async Outcome}
    (thread : p.threads id = some (.call (.invoke slot inv) rest)) :
    EnterableLive p.shared slot ↔ Undisturbed p.log id slot := by
  obtain ⟨start, reach⟩ := reach
  have routes := routes_match reach
  obtain ⟨call, _, follows⟩ := follows_thread reach thread
  have enters : (venueRegistry P).act id (.invoke slot inv) (.elapsed 0) p.shared =
      some ((), [.invoked slot inv], p.shared) := rfl
  obtain ⟨venue, route⟩ := (follows.2.1 _ _ _ _ _ enters).1.1.2.1
  constructor
  · rintro ⟨venue', installed, found, hslot, alive⟩
    have latest : installedAt p.log venue' = some (slot, installed.liveness) := by
      rw [← routes.installed, found, ← hslot]
      rfl
    rw [routes.alive] at alive
    obtain ⟨own_before, own_mid, own_split, own_quiet⟩ := routed_split route
    obtain ⟨before, mid, hlog, _, hmid⟩ := split_of_own id own_split
    obtain ⟨liveness, installed_then, alive_then⟩ := resolved_live routes.lawful hlog
    obtain ⟨e, member, he⟩ := installedAt_mem installed_then
    obtain ⟨x, member', hx⟩ := installedAt_mem latest
    have in_log : e ∈ p.log := by
      rw [hlog]
      exact List.mem_append_left _ member
    obtain ⟨hvenue, hliveness⟩ := registered_unique routes.lawful in_log member' he hx
    rw [← hvenue] at latest
    rw [← hliveness] at latest alive
    have lawful := routes.lawful
    rw [hlog] at latest alive lawful
    rw [installedAt_append] at latest
    rw [aliveAfter_append, alive_then] at alive
    have undisturbed : ∀ e ∈ mid, ∀ s l, e.what ≠ .registered venue s l := by
      rcases foldl_installStep_mem latest with ⟨_, quiet⟩ | ⟨y, later, hy⟩
      · exact fun e h => quiet e (List.mem_cons_of_mem _ h)
      · exact absurd hy (registered_once lawful member later he)
    have host_entry : (⟨none, .registered venue slot liveness⟩ : Entry Event) ∈ before := by
      rw [← registered_by_host routes.lawful in_log he]
      exact member
    exact ⟨venue, liveness, before, mid, hlog, by rw [hmid]; exact own_quiet, host_entry,
      undisturbed, alive⟩
  · rintro ⟨venue', liveness, before, mid, hlog, _, registered, unregistered, alive⟩
    obtain ⟨liveness', installed_then, alive_then⟩ := resolved_live routes.lawful hlog
    obtain ⟨e, member, he⟩ := installedAt_mem installed_then
    have in_log : ∀ x ∈ before, x ∈ p.log := by
      intro x hx
      rw [hlog]
      exact List.mem_append_left _ hx
    obtain ⟨_, hliveness⟩ := registered_unique routes.lawful (in_log e member)
      (in_log _ registered) he rfl
    rw [hliveness] at installed_then alive_then
    have latest : installedAt p.log venue' = some (slot, liveness) := by
      rw [hlog, installedAt_append, foldl_installStep_other]
      · exact installed_then
      · intro x hx
        rcases List.mem_cons.mp hx with rfl | later
        · nofun
        · exact unregistered x later
    have alive_now : aliveAfter liveness true p.log = true := by
      rw [hlog, aliveAfter_append, alive_then]
      exact alive
    rw [← routes.installed, Option.map_eq_some_iff] at latest
    obtain ⟨installed, found, pair⟩ := latest
    rw [Prod.mk.injEq] at pair
    refine ⟨venue', installed, found, pair.1, ?_⟩
    rw [routes.alive, pair.2]
    exact alive_now

def statusCall : Schedule :=
  [.host (.register stubVenue 0 ∅), .spawn (.status stubVenue [7]),
    .advance 0 (.elapsed 0), .advance 0 (.elapsed 0)]

theorem entered_live_iff_undisturbed_stub :
    ∃ p rest, Reachable oneCharge p ∧
      p.threads 0 = some (.call (.invoke 0 (.status [7])) rest) ∧
      (EnterableLive p.shared 0 ↔ Undisturbed p.log 0 0) := by
  have ran : ((venueRegistry oneCharge).run statusCall
      (System.empty (Registry.new 0))).map (fun p => p.standing 0) =
      some (some (.invoke 0 (.status [7]))) := by
    decide
  obtain ⟨p, reached, stands⟩ := Option.map_eq_some_iff.mp ran
  obtain ⟨rest, thread⟩ := Pool.of_standing stands
  have reach : Reachable oneCharge p := ⟨0, .of_run .start reached⟩
  exact ⟨p, rest, reach, thread, entered_live_iff_undisturbed reach thread⟩

/-- The adapter dies inside its own `submit` while a status call, already resolved, waits
for it. -/
def killedWhileQueued : Schedule :=
  [.host (.register stubVenue 0 ∅),
    .spawn (.submit "keeper" stubVenue [1]), .spawn (.status stubVenue [7])] ++
  throughGate 0 ++ throughHeader 0 .allow ++
  [.advance 1 (.elapsed 0), .host (.markDead 0),
    .advance 0 (.reply (.outcome (.error (.unavailable "down")))), .advance 0 (.elapsed 0),
    .advance 1 (.elapsed 0)]

/-- The waiting call then enters the dead adapter. -/
theorem dead_adapter_entered :
    ∃ p id slot inv rest, Reachable oneCharge p ∧
      p.threads id = some (.call (.invoke slot inv) rest) ∧ ¬ EnterableLive p.shared slot := by
  have ran : ((venueRegistry oneCharge).run killedWhileQueued
      (System.empty (Registry.new 0))).map (fun p => (p.standing 1,
        p.shared.adapters.entries.all fun v => !(p.shared.flags v.2.liveness).isAlive)) =
      some (some (.invoke 0 (.status [7])), true) := by
    decide
  obtain ⟨p, reached, shape⟩ := Option.map_eq_some_iff.mp ran
  rw [Prod.mk.injEq] at shape
  obtain ⟨rest, thread⟩ := Pool.of_standing shape.1
  refine ⟨p, 1, 0, .status [7], rest, ⟨0, .of_run .start reached⟩, thread, ?_⟩
  rintro ⟨venue, installed, found, _, alive⟩
  have member := AList.mem_lookup_iff.mp found
  have dead := List.all_eq_true.mp shape.2 _ member
  simp [alive] at dead

end Videre.Host
