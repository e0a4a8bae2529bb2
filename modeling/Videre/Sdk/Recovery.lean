import Videre.Sdk.Faultless
import Videre.Sdk.Held

/-! # Recovery from torn sweeps

Against a venue that accepts every body and holds none twice, what torn sweeps leave
is RESERVED or COMMITTED and nothing else. One sweep that runs to its end commits
all of it, and a later sweep that is asked for nothing new makes no venue call.
-/

namespace Videre.Sdk

open Interaction Relation

theorem untouched_concat {es : List Event} {key : String} {e : Event}
    (untouched : ∀ e ∈ es, e.key? ≠ some key) (other : e.key? ≠ some key) :
    ∀ e' ∈ es ++ [e], e'.key? ≠ some key := by
  intro e' he
  rcases List.mem_append.mp he with old | new
  · exact untouched e' old
  · rw [List.mem_singleton.mp new]
    exact other

section Recovery

variable {S : Type} [KeeperStores S] {R : Rely Op (World S) (Input (KeeperStores.Edit S))}
  {venue : VenueId} {k : Keeper} {tick : Tick} {w₀ w w' : World S}

/-- A venue that accepts what it holds, and places no body it holds already. -/
structure AcceptingVenue (R : Rely Op (World S) (Input (KeeperStores.Edit S)))
    (venue : VenueId) : Prop where
  accepts : ∀ pass key body result w, R (.reply pass venue key body) (.answered result) w →
    (∃ receipt, result = .ok (.accepted receipt)) ∧ Held venue body w
  places : ∀ pass key body w, R (.post pass venue key body) (.sent true) w → ¬ Held venue body w

theorem AcceptingVenue.faultless (accepting : AcceptingVenue R venue) :
    AcceptingVenue (Faultless R) venue :=
  ⟨fun _ _ _ _ _ rely => accepting.accepts _ _ _ _ _ rely.1,
    fun _ _ _ _ rely => accepting.places _ _ _ _ rely.1⟩

def SweepsAt (venue : VenueId) (c : Call) (_ : World S) : Prop :=
  ∃ k tick, c = .run k tick ∧ k.venue = venue

variable [NexumSdk]

/-- What torn sweeps leave: each reserved body is committed and held, or still reserved. -/
structure Converging (venue : VenueId) (w : World S) : Prop where
  keyed : WellKeyed venue w.store
  known : ∀ e ∈ w.log, ∀ key body, e.under = some (key, body) →
    key = submissionKey venue body ∧
      ((KeeperStores.marker w.store key = some .committed ∧ Held venue body w) ∨
        ∃ n, KeeperStores.marker w.store key = some (.reserved n body))
  once : ∀ body, w.log.countP (Event.places venue body) ≤ 1

/-- A change that touches no marker and places nothing. -/
theorem Converging.quiet (conv : Converging venue w) {es : List Event}
    (log : w'.log = w.log ++ es) (silent : ∀ e ∈ es, e.under = none)
    (same : ∀ key, KeeperStores.marker w'.store key = KeeperStores.marker w.store key) :
    Converging venue w' := by
  refine ⟨?_, ?_, ?_⟩
  · intro key n body held
    exact conv.keyed key n body ((same key).symm.trans held)
  · intro e he key body under
    rw [log] at he
    rcases List.mem_append.mp he with old | new
    · obtain ⟨own, fate⟩ := conv.known e old key body under
      rw [same]
      exact ⟨own, fate.imp_left fun committed => ⟨committed.1, committed.2.mono log⟩⟩
    · simp [silent e new] at under
  · intro body
    have none_placed : es.countP (Event.places venue body) = 0 := by
      rw [List.countP_eq_zero]
      intro e he places
      have under := silent e he
      unfold Event.places at places
      split at places <;> simp_all [Event.under]
    rw [log, List.countP_append, none_placed]
    exact conv.once body

/-- An event under a key RESERVED with its body, which places the body once at most. -/
theorem Converging.record (conv : Converging venue w) {e : Event} {key : String} {body : Bytes}
    {n : UInt64} (under : e.under = some (key, body))
    (reserved : KeeperStores.marker w.store key = some (.reserved n body))
    (places : ∀ b, e.places venue b = true → ¬ Held venue b w) :
    Converging venue (w.record e) := by
  refine ⟨conv.keyed, ?_, ?_⟩
  · intro e' he key' body' under'
    rcases List.mem_append.mp he with old | new
    · obtain ⟨own, fate⟩ := conv.known e' old key' body' under'
      exact ⟨own, fate.imp_left fun committed => ⟨committed.1, committed.2.mono rfl⟩⟩
    · rw [List.mem_singleton.mp new, under] at under'
      cases under'
      exact ⟨conv.keyed key n body reserved, .inr ⟨n, reserved⟩⟩
  · intro b
    have before := conv.once b
    rw [World.record_log, List.countP_append, List.countP_singleton]
    by_cases placed : e.places venue b = true
    · have unheld := places b placed
      rw [held_iff_pos] at unheld
      rw [if_pos placed]
      omega
    · rw [if_neg placed]
      omega

/-- A write, given what it leaves of the bodies known under its key. -/
theorem Converging.write {jw : JournalWrite} (conv : Converging venue w)
    (keyed : ∀ n body, jw.leaves (KeeperStores.fresh S) = some (.reserved n body) →
      jw.key = submissionKey venue body)
    (known : ∀ e ∈ w.log ++ [.wrote venue jw], ∀ body, e.under = some (jw.key, body) →
      jw.key = submissionKey venue body ∧
        ((jw.leaves (KeeperStores.fresh S) = some .committed ∧ Held venue body w) ∨
          ∃ n, jw.leaves (KeeperStores.fresh S) = some (.reserved n body))) :
    Converging venue (w.write venue jw) := by
  refine ⟨conv.keyed.write keyed, ?_, ?_⟩
  · intro e he key body under
    rw [World.write_store]
    by_cases same : key = jw.key
    · rw [same] at under ⊢
      rw [marker_write_self]
      obtain ⟨own, fate⟩ := known e he body under
      exact ⟨own, fate.imp_left fun committed => ⟨committed.1, committed.2.mono rfl⟩⟩
    · rw [marker_write_other same]
      rcases List.mem_append.mp he with old | new
      · obtain ⟨own, fate⟩ := conv.known e old key body under
        exact ⟨own, fate.imp_left fun committed => ⟨committed.1, committed.2.mono rfl⟩⟩
      · rw [List.mem_singleton.mp new] at under
        cases jw with
        | reserve key' body' =>
            cases under
            exact absurd rfl same
        | _ => simp [Event.under] at under
  · intro body
    rw [World.write_log, List.countP_append, List.countP_singleton]
    exact conv.once body

/-- An answer of an accepting venue calls for a commit. -/
theorem AcceptingVenue.owed (accepting : AcceptingVenue R k.venue) (path : Path R k tick w₀ w)
    {pass : Pass} {key : String} {body : Bytes} {result : SubmitResult}
    (answered : (since w₀ w).getLast? = some (.answered pass k.venue key body result)) :
    owed k.faultPolicy tick key body pass result = some (.commit key) ∧ Held k.venue body w := by
  obtain ⟨-, v, rely, log⟩ := path.relied answered
  obtain ⟨⟨receipt, rfl⟩, held⟩ := accepting.accepts _ _ _ _ _ rely
  exact ⟨rfl, held.mono log⟩

theorem Step.converging (step : Step R k tick w₀ w w') (path : Path R k tick w₀ w)
    (accepting : AcceptingVenue R k.venue) (conv : Converging k.venue w) :
    Converging k.venue w' := by
  cases step with
  | store s same => exact conv.quiet (List.append_nil _).symm (by simp) same
  | poll rests swept rely =>
      exact conv.quiet rfl (by simp [Event.under]) (World.edited_marker _ _)
  | @reserve c body asked unmarked =>
      apply conv.write
      · intro n b leaves
        cases leaves
        rfl
      · intro e he b under
        rcases List.mem_append.mp he with old | new
        · obtain ⟨-, fate⟩ := conv.known e old _ b under
          rcases fate with ⟨committed, _⟩ | ⟨n, reserved⟩
          · simp [JournalWrite.key, unmarked] at committed
          · simp [JournalWrite.key, unmarked] at reserved
        · rw [List.mem_singleton.mp new] at under
          cases under
          exact ⟨rfl, .inr ⟨_, rfl⟩⟩
  | @post key body placed reserved own rely =>
      obtain ⟨n, marked⟩ := path.reserved reserved rfl
      apply conv.record rfl marked
      intro b places
      simp only [Event.places, beq_self_eq_true, Bool.and_true, Bool.and_eq_true,
        beq_iff_eq] at places
      rw [← places.2]
      exact accepting.places _ _ _ _ (places.1 ▸ rely)
  | @repost r placed listed untouched rests rely =>
      have marked := (path.frame untouched).trans (marker_of_share listed)
      apply conv.record rfl marked
      intro b places
      simp only [Event.places, beq_self_eq_true, Bool.and_true, Bool.and_eq_true,
        beq_iff_eq] at places
      rw [← places.2]
      exact accepting.places _ _ _ _ (places.1 ▸ rely)
  | answer posted rely =>
      obtain ⟨n, marked⟩ := path.reserved posted rfl
      exact conv.record rfl marked (by simp [Event.places])
  | @settle pass key body result jw answered owes =>
      obtain ⟨n, reserved⟩ := path.reserved answered rfl
      obtain ⟨commit, held⟩ := accepting.owed path answered
      rw [commit] at owes
      cases owes
      apply conv.write (by simp [JournalWrite.leaves])
      intro e he b under
      rcases List.mem_append.mp he with old | new
      · obtain ⟨own, fate⟩ := conv.known e old key b under
        rcases fate with ⟨committed, _⟩ | ⟨m, marked⟩
        · simp [reserved] at committed
        · rw [reserved] at marked
          cases marked
          exact ⟨own, .inl ⟨rfl, held⟩⟩
      · rw [List.mem_singleton.mp new] at under
        simp [Event.under] at under

theorem Path.converging (path : Path R k tick w₀ w) (accepting : AcceptingVenue R k.venue)
    (conv : Converging k.venue w₀) : Converging k.venue w := by
  induction path with
  | refl => exact conv
  | tail before step ih => exact step.converging before accepting ih

/-- Torn sweeps of a venue's keepers over a fresh journal converge. -/
theorem torn_converging {s : S} (accepting : AcceptingVenue R venue)
    (empty : ∀ key, KeeperStores.marker s key = none)
    (torn : Reaches R (SweepsAt venue) (Host.idle ⟨s, []⟩) (Host.idle w)) :
    Converging venue w := by
  apply torn.invariant (I := Converging venue) (Host.idle_sound _)
  · refine ⟨?_, by simp [Host.idle], by simp [Host.idle]⟩
    intro key n body held
    simp [Host.idle, empty] at held
  · intro v edits conv
    exact conv.quiet (List.append_nil _).symm (by simp) (v.edited_marker edits)
  · rintro c w₀ v v' ⟨k, tick, rfl, rfl⟩ path step conv
    exact step.converging path accepting conv

/-- A faultless run at rest has no reservation of its own open. -/
theorem AtRest.closed (rests : AtRest (Faultless R) k tick w₀ w)
    (path : Path (Faultless R) k tick w₀ w) (accepting : AcceptingVenue R k.venue) {e : Event}
    (last : (since w₀ w).getLast? = some e) : e.under = none := by
  have settled := rests e last
  cases e with
  | polled c outcome => rfl
  | posted pass venue key body placed => exact absurd settled id
  | answered pass venue key body result =>
      obtain ⟨rfl, -⟩ := path.relied last
      have commit := (accepting.faultless.owed path last).1
      rcases settled with none_owed | ⟨receipt, f, v, _, _, rely⟩
      · simp [commit] at none_owed
      · simp [Faultless, Input.faults] at rely
  | wrote venue jw =>
      cases jw with
      | reserve key body => exact absurd settled id
      | _ => rfl

/-- A RESERVED key was reserved before the run, or is what the run is at. -/
theorem Path.lingers (path : Path (Faultless R) k tick w₀ w) (accepting : AcceptingVenue R k.venue)
    {key : String} {n : UInt64} {body : Bytes}
    (reserved : KeeperStores.marker w.store key = some (.reserved n body)) :
    (∀ e ∈ since w₀ w, e.key? ≠ some key) ∨
      ∃ e b, (since w₀ w).getLast? = some e ∧ e.under = some (key, b) := by
  induction path with
  | refl => exact .inl (by simp [since])
  | @tail v v' path step ih =>
      have path : Path (Faultless R) k tick w₀ v := path
      have closed : AtRest (Faultless R) k tick w₀ v →
          ¬ ∃ e b, (since w₀ v).getLast? = some e ∧ e.under = some (key, b) := by
        rintro rests ⟨e, b, last, under⟩
        simp [rests.closed path accepting last] at under
      have other : ∀ {e : Event} {key' : String} {b : Bytes}, (since w₀ v).getLast? = some e →
          e.under = some (key', b) → key' ≠ key →
          ¬ ∃ e b, (since w₀ v).getLast? = some e ∧ e.under = some (key, b) := by
        rintro e key' b last under differs ⟨e', b', last', under'⟩
        rw [last] at last'
        cases last'
        rw [under] at under'
        cases under'
        exact differs rfl
      cases step with
      | store s same => exact ih ((same key).symm.trans reserved)
      | poll rests swept rely =>
          have before := ih ((World.edited_marker _ _ _).symm.trans reserved)
          left
          rw [path.since_append rfl]
          exact untouched_concat (before.resolve_right (closed rests)) (by simp [Event.key?])
      | @reserve c b asked unmarked =>
          by_cases same : submissionKey k.venue b = key
          · exact .inr ⟨_, b, path.last_write _, congrArg (fun key => some (key, b)) same⟩
          · rw [v.marker_reserve_other _ same] at reserved
            have polled : ¬ ∃ e b, (since w₀ v).getLast? = some e ∧ e.under = some (key, b) := by
              rintro ⟨e, b', last, under⟩
              rw [asked] at last
              cases last
              simp [Event.under] at under
            left
            rw [path.since_write]
            exact untouched_concat ((ih reserved).resolve_right polled)
              (fun h => same (Option.some.inj h))
      | @post key' b placed last own rely =>
          by_cases same : key' = key
          · exact .inr ⟨_, b, path.last_record _, congrArg (fun key => some (key, b)) same⟩
          · left
            rw [path.since_record]
            exact untouched_concat ((ih reserved).resolve_right (other last rfl same))
              (fun h => same (Option.some.inj h))
      | @repost r placed listed untouched rests rely =>
          by_cases same : r.key = key
          · exact .inr ⟨_, r.body, path.last_record _,
              congrArg (fun key => some (key, r.body)) same⟩
          · left
            rw [path.since_record]
            exact untouched_concat ((ih reserved).resolve_right (closed rests))
              (fun h => same (Option.some.inj h))
      | @answer pass key' b placed result posted rely =>
          by_cases same : key' = key
          · exact .inr ⟨_, b, path.last_record _, congrArg (fun key => some (key, b)) same⟩
          · left
            rw [path.since_record]
            exact untouched_concat ((ih reserved).resolve_right (other posted rfl same))
              (fun h => same (Option.some.inj h))
      | @settle pass key' b result jw answered owes =>
          have commit := (accepting.faultless.owed path answered).1
          rw [commit] at owes
          cases owes
          by_cases same : key' = key
          · rw [← same, v.marker_commit] at reserved
            simp at reserved
          · rw [v.marker_commit_other _ same] at reserved
            left
            rw [path.since_write]
            exact untouched_concat ((ih reserved).resolve_right (other answered rfl same))
              (fun h => same (Option.some.inj h))

/-- A body a poll asked to submit is marked, or about to be. -/
theorem Path.asked (path : Path (Faultless R) k tick w₀ w) (accepting : AcceptingVenue R k.venue)
    {c : CommitmentRef} {body : Bytes} (polled : .polled c (.submit body) ∈ since w₀ w) :
    KeeperStores.marker w.store (submissionKey k.venue body) ≠ none ∨
      (since w₀ w).getLast? = some (.polled c (.submit body)) := by
  induction path with
  | refl => simp [since] at polled
  | @tail v v' path step ih =>
      have path : Path (Faultless R) k tick w₀ v := path
      have earlier : ∀ {e : Event}, (since w₀ v' = since w₀ v ++ [e]) →
          e ≠ .polled c (.submit body) → .polled c (.submit body) ∈ since w₀ v := by
        intro e grown other
        rw [grown, List.mem_append, List.mem_singleton] at polled
        exact polled.resolve_right fun same => other same.symm
      cases step with
      | store s same =>
          rw [same]
          exact ih polled
      | @poll c' params outcome edits rests swept rely =>
          rw [path.since_append rfl] at polled ⊢
          rw [List.getLast?_concat, World.record_store, World.edited_marker]
          rcases List.mem_append.mp polled with old | new
          · rcases ih old with marked | last
            · exact .inl marked
            · exact .inl (rests _ last)
          · exact .inr (congrArg some (List.mem_singleton.mp new).symm)
      | @reserve c' b asked unmarked =>
          left
          rcases ih (earlier (path.since_write _) (by simp)) with marked | last
          · have other : submissionKey k.venue b ≠ submissionKey k.venue body :=
              fun same => marked (same ▸ unmarked)
            rw [v.marker_reserve_other _ other]
            exact marked
          · rw [asked] at last
            cases last
            rw [v.marker_reserve]
            simp
      | post reserved own rely =>
          rcases ih (earlier (path.since_record _) (by simp)) with marked | last
          · exact .inl marked
          · simp [reserved] at last
      | repost listed untouched rests rely =>
          rcases ih (earlier (path.since_record _) (by simp)) with marked | last
          · exact .inl marked
          · exact .inl (rests _ last)
      | answer posted rely =>
          rcases ih (earlier (path.since_record _) (by simp)) with marked | last
          · exact .inl marked
          · simp [posted] at last
      | @settle pass key' b result jw answered owes =>
          have commit := (accepting.faultless.owed path answered).1
          rw [commit] at owes
          cases owes
          rcases ih (earlier (path.since_write _) (by simp)) with marked | last
          · left
            by_cases same : key' = submissionKey k.venue body
            · rw [← same, v.marker_commit]
              simp
            · rw [v.marker_commit_other _ same]
              exact marked
          · simp [answered] at last

/-- A sweep that starts with nothing reserved, and is asked for committed orders only, makes no
venue call, however it is torn. -/
theorem Path.idle (path : Path R k tick w₀ w)
    (none_reserved : ∀ key n body,
      KeeperStores.marker w₀.store key ≠ some (.reserved n body))
    (committed : ∀ c body, .polled c (.submit body) ∈ since w₀ w →
      KeeperStores.marker w₀.store (submissionKey k.venue body) ≠ none) :
    ∀ e ∈ since w₀ w, e.key? = none := by
  induction path with
  | refl => simp [since]
  | @tail v v' path step ih =>
      have path : Path R k tick w₀ v := path
      obtain ⟨es, new, -⟩ := step.effect
      have grown := path.since_append new
      have idle : ∀ e ∈ since w₀ v, e.key? = none :=
        ih fun c body polled => committed c body (grown ▸ List.mem_append_left es polled)
      have unkeyed : ∀ {e : Event} {key : String}, (since w₀ v).getLast? = some e →
          e.key? ≠ some key := by
        intro e key last
        simp [idle e (List.mem_of_getLast? last)]
      cases step with
      | store s same => exact idle
      | poll rests swept rely =>
          rw [path.since_append rfl]
          intro e he
          rcases List.mem_append.mp he with old | polled
          · exact idle e old
          · rw [List.mem_singleton.mp polled]
            rfl
      | @reserve c body asked unmarked =>
          have polled := List.mem_of_getLast? asked
          rw [path.frame fun e he => by simp [idle e he]] at unmarked
          exact absurd unmarked (committed c body (grown ▸ List.mem_append_left es polled))
      | post reserved own rely => exact absurd rfl (unkeyed reserved)
      | repost listed untouched rests rely =>
          exact absurd (marker_of_share listed) (none_reserved _ _ _)
      | answer posted rely => exact absurd rfl (unkeyed posted)
      | settle answered owes => exact absurd rfl (unkeyed answered)

/-- What a recovering sweep from `w` to `w'` achieves. -/
structure Recovered (venue : VenueId) (w w' : World S) : Prop where
  closed : ∀ key n body, KeeperStores.marker w'.store key ≠ some (.reserved n body)
  settled : ∀ e ∈ w'.log, ∀ key body, e.under = some (key, body) →
    key = submissionKey venue body ∧ KeeperStores.marker w'.store key = some .committed ∧
      w'.log.countP (Event.places venue body) = 1
  quiet : ∀ (R' : Rely Op (World S) (Input (KeeperStores.Edit S))) (k' : Keeper) (tick' : Tick)
    (rest : Program Op Op.Ans (Except Fault RunReport)) (w'' : World S), k'.venue = venue →
    Exec (machine S) R' (k'.run tick').run w' rest w'' →
    (∀ c body, .polled c (.submit body) ∈ since w' w'' →
      .polled c (.submit body) ∈ since w w') →
    ∀ pass v key body placed, .posted pass v key body placed ∉ since w' w''

/-- After any torn sweeps over a journal that began empty, one sweep with the budget for what
is pending leaves nothing RESERVED, every body ever reserved or POSTed COMMITTED and held
once, and nothing for a later sweep with the same poll outcomes to call the venue about. -/
theorem recovery_converges {s : S} {out : Except Fault RunReport}
    (accepting : AcceptingVenue R k.venue) (empty : ∀ key, KeeperStores.marker s key = none)
    (torn : Reaches R (SweepsAt k.venue) (Host.idle ⟨s, []⟩) (Host.idle w))
    (budget : (KeeperStores.pending w.store).length ≤ k.maxPerTick)
    (due : ∀ r ∈ KeeperStores.pending w.store, r.nextEligible ≤ tick.epochS)
    (recovery : Exec (machine S) (Faultless R) (k.run tick).run w (.done out) w') :
    Recovered k.venue w w' := by
  obtain ⟨report, reported⟩ := run_reports recovery
  obtain ⟨path, returned⟩ := run_keeps.exec recovery
  obtain ⟨rests, swept, -⟩ := returned report reported
  have path : Path (Faultless R) k tick w w' := path
  have conv := path.converging accepting.faultless (torn_converging accepting empty torn)
  have closed : ∀ key n body, KeeperStores.marker w'.store key ≠ some (.reserved n body) := by
    intro key n body reserved
    rcases path.lingers accepting reserved with untouched | ⟨e, b, last, under⟩
    · have before := (path.frame untouched).symm.trans reserved
      have pending := (KeeperStores.mem_pending w.store ⟨key, n, body⟩).mpr before
      have eligible : Reservation.eligible tick ⟨key, n, body⟩ = true := by
        have past := due _ pending
        simpa [Reservation.eligible] using past
      have listed : ⟨key, n, body⟩ ∈ share w.store tick k.maxPerTick := by
        rw [share, List.take_of_length_le]
        · exact List.mem_filter.mpr ⟨pending, eligible⟩
        · exact Nat.le_trans (List.length_filter_le _ _) budget
      obtain ⟨e, he, concerns⟩ := swept _ listed
      exact untouched e he concerns
    · simp [rests.closed path accepting last] at under
  refine ⟨closed, ?_, ?_⟩
  · intro e he key body under
    obtain ⟨own, fate⟩ := conv.known e he key body under
    rcases fate with ⟨committed, held⟩ | ⟨n, reserved⟩
    · have once := conv.once body
      rw [held_iff_pos] at held
      exact ⟨own, committed, by omega⟩
    · exact absurd reserved (closed _ _ _)
  · intro R' k' tick' rest w'' venue later same pass v key body placed posted
    have idle := Path.idle (run_keeps.exec later).1 closed (by
      intro c b polled
      rw [venue]
      rcases path.asked accepting (same c b polled) with marked | last
      · exact marked
      · exact rests _ last)
    exact absurd (idle _ posted) (by simp [Event.key?])

end Recovery

open scoped MemStore

/-- A venue over a store that may fault, which accepts every body and holds none twice. -/
def accepting (o : Op) (i : Input MemStore.Edit) (w : World MemStore) : Bool :=
  match o, i with
  | .reply _ venue _ body, .answered (.ok (.accepted _)) => decide (Held venue body w)
  | .reply _ _ _ _, .answered _ => false
  | .post _ venue _ body, .sent true => ! decide (Held venue body w)
  | _, _ => true

def acceptingVenue : Rely Op (World MemStore) (Input MemStore.Edit) := fun o i w =>
  accepting o i w = true

instance : ∀ o i w, Decidable (acceptingVenue o i w) := fun o i w =>
  inferInstanceAs (Decidable (accepting o i w = true))

theorem acceptingVenue_accepting (venue : VenueId) : AcceptingVenue acceptingVenue venue where
  accepts pass key body result w rely := by
    cases result with
    | ok outcome =>
        cases outcome with
        | accepted receipt => exact ⟨⟨receipt, rfl⟩, of_decide_eq_true rely⟩
        | requiresSigning tx => simp [acceptingVenue, accepting] at rely
    | error fault => simp [acceptingVenue, accepting] at rely
  places pass key body w rely := by
    simpa [acceptingVenue, accepting] using rely

/-- Two torn sweeps: the first with its POST placed, the second before its resubmit is
answered. -/
def tornWorld : World MemStore :=
  lived acceptingVenue anyCall [(.run stubKeeper stubTick, [.ok, .ok, .ok, .ok,
      .polled (.submit stubBody) [], .ok, .ok, .sent true]),
    (.run stubKeeper stubTick, [.ok, .sent false])] stubWorld

/-- The sweep that recovers: the resubmit is accepted again, and the poll is a duplicate. -/
def recoverySweep : List (Input MemStore.Edit) :=
  [.ok, .sent false, .answered (.ok (.accepted [165, 90])), .ok, .ok, .ok, .ok,
    .polled (.submit stubBody) [], .ok]

theorem recovery_converges_stub : ∃ w' : World MemStore,
    w'.log.countP (Event.places stubKeeper.venue stubBody) = 1 ∧
      Recovered stubKeeper.venue tornWorld w' := by
  have passed : sweeps (Faultless acceptingVenue) stubKeeper stubTick recoverySweep tornWorld
      (fun report w' => report.reconciledCommitted == 1 && report.duplicates == 1 &&
        w'.log.countP (Event.places stubKeeper.venue stubBody) == 1) = true := by decide
  obtain ⟨report, w', run, test⟩ := Exec.of_sweeps passed
  have held := (Bool.and_eq_true_iff.mp test).2
  have empty : ∀ key, KeeperStores.marker stubWorld.store key = none := fun _ => rfl
  have torn : Reaches acceptingVenue (SweepsAt stubKeeper.venue) (Host.idle stubWorld)
      (Host.idle tornWorld) := by
    refine Reaches.lived ?_ (by decide)
    intro p hp v _
    have stub : p.1 = .run stubKeeper stubTick := by
      simp only [List.mem_cons, List.not_mem_nil, or_false] at hp
      rcases hp with rfl | rfl <;> rfl
    exact ⟨_, _, stub, rfl⟩
  exact ⟨w', eq_of_beq held, recovery_converges (acceptingVenue_accepting _) empty torn
    (by decide) (by decide) run⟩

end Videre.Sdk
