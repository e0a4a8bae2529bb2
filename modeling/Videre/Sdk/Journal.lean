import Videre.Sdk.Host

/-! # The journal along a run

Two facts carry every proof about the journal. A key that no event of the run
concerns has the marker the run started with. And a key whose reservation, POST or
answer is the run's last event is RESERVED with that body: the marker stands from
the reservation until the write that follows the answer.
-/

namespace Videre.Sdk

open Interaction Relation

/-- The key and the body an event finds RESERVED, a commit, a release and a park apart. -/
def Event.under : Event → Option (String × Bytes)
  | .posted _ _ key body _ | .answered _ _ key body _ | .wrote _ (.reserve key body) =>
      some (key, body)
  | _ => none

/-- Whether an event is a reconcile pass's venue call, and for which reservation. -/
def Event.resubmits : Event → Option (String × Bytes)
  | .posted .reconcile _ key body _ | .answered .reconcile _ key body _ => some (key, body)
  | _ => none

theorem Event.key_of_under {e : Event} {key : String} {body : Bytes}
    (under : e.under = some (key, body)) : e.key? = some key := by
  unfold Event.under at under
  split at under <;> cases under <;> rfl

theorem split_concat {α : Type} {xs past later : List α} {e p : α}
    (split : xs ++ [e] = past ++ p :: later) :
    (later = [] ∧ xs = past ∧ e = p) ∨ ∃ rest, later = rest ++ [e] ∧ xs = past ++ p :: rest := by
  rcases List.eq_nil_or_concat later with none_later | ⟨rest, last, concat⟩
  · rw [none_later] at split
    obtain ⟨same, last⟩ := List.append_inj' split rfl
    exact .inl ⟨none_later, same, List.singleton_inj.mp last⟩
  · rw [concat, List.concat_eq_append, ← List.cons_append, ← List.append_assoc] at split
    obtain ⟨same, last⟩ := List.append_inj' split rfl
    refine .inr ⟨rest, ?_, same⟩
    rw [concat, List.concat_eq_append, last]

variable {S : Type} [KeeperStores S] [NexumSdk]
  {R : Rely Op (World S) (Input (KeeperStores.Edit S))} {k : Keeper} {tick : Tick}
  {w₀ w w' : World S}

theorem Path.frame (path : Path R k tick w₀ w) {key : String}
    (untouched : ∀ e ∈ since w₀ w, e.key? ≠ some key) :
    KeeperStores.marker w.store key = KeeperStores.marker w₀.store key := by
  induction path with
  | refl => rfl
  | @tail v v' path step ih =>
      obtain ⟨es, new, same⟩ := step.effect
      have split := Path.since_append path new
      rw [split] at untouched
      have before := ih fun e he => untouched e (List.mem_append_left es he)
      have after := same key fun e he => untouched e (List.mem_append_right _ he)
      rw [after, before]

theorem Path.reserved (path : Path R k tick w₀ w) {e : Event} {key : String} {body : Bytes}
    (last : (since w₀ w).getLast? = some e) (under : e.under = some (key, body)) :
    ∃ n, KeeperStores.marker w.store key = some (.reserved n body) := by
  induction path generalizing e key body with
  | refl => simp [since] at last
  | @tail v v' path step ih =>
      have path : Path R k tick w₀ v := path
      cases step with
      | store s same =>
          obtain ⟨n, held⟩ := ih last under
          exact ⟨n, (same key).trans held⟩
      | poll rests swept rely =>
          rw [path.since_append rfl, List.getLast?_concat] at last
          cases last
          simp [Event.under] at under
      | reserve asked unmarked =>
          rw [path.last_write] at last
          cases last
          cases under
          exact ⟨_, marker_write_self _ _⟩
      | post reserved own rely =>
          rw [path.last_record] at last
          cases last
          cases under
          exact ih reserved rfl
      | repost listed untouched rests rely =>
          rw [path.last_record] at last
          cases last
          cases under
          exact ⟨_, (path.frame untouched).trans (marker_of_share listed)⟩
      | answer posted rely =>
          rw [path.last_record] at last
          cases last
          cases under
          exact ih posted rfl
      | settle answered owes =>
          rw [path.last_write] at last
          cases last
          rcases owed_cases owes with ⟨rfl, _⟩ | ⟨rfl, _⟩ | ⟨_, rfl⟩ <;> simp [Event.under] at under

theorem Path.relied (path : Path R k tick w₀ w) {pass : Pass} {venue : VenueId} {key : String}
    {body : Bytes} {result : SubmitResult}
    (last : (since w₀ w).getLast? = some (.answered pass venue key body result)) :
    venue = k.venue ∧ ∃ v, R (.reply pass venue key body) (.answered result) v ∧
      w.log = v.log ++ [.answered pass venue key body result] := by
  induction path with
  | refl => simp [since] at last
  | @tail v v' path step ih =>
      have path : Path R k tick w₀ v := path
      cases step with
      | store s same => exact ih last
      | poll rests swept rely =>
          rw [path.since_append rfl, List.getLast?_concat] at last
          simp at last
      | reserve asked unmarked =>
          rw [path.last_write] at last
          simp at last
      | post reserved own rely =>
          rw [path.last_record] at last
          simp at last
      | repost listed untouched rests rely =>
          rw [path.last_record] at last
          simp at last
      | answer posted rely =>
          rw [path.last_record] at last
          cases last
          exact ⟨rfl, v, rely, rfl⟩
      | settle answered owes =>
          rw [path.last_write] at last
          simp at last

theorem Step.spares (step : Step R k tick w₀ w w') (path : Path R k tick w₀ w) {key : String}
    (final : KeeperStores.marker w.store key = some .committed) :
    ∃ es, w'.log = w.log ++ es ∧ ∀ e ∈ es, e.key? ≠ some key := by
  have other : ∀ {e : Event} {key' : String}, e.key? = some key' →
      KeeperStores.marker w.store key' ≠ some .committed →
      ∀ x ∈ [e], x.key? ≠ some key := by
    intro e key' concerns open' x hx same
    rw [List.mem_singleton.mp hx, concerns] at same
    exact open' (Option.some.inj same ▸ final)
  have held : ∀ {e : Event} {key' : String} {body : Bytes}, (since w₀ w).getLast? = some e →
      e.under = some (key', body) → KeeperStores.marker w.store key' ≠ some .committed := by
    intro e key' body last under committed
    obtain ⟨n, reserved⟩ := path.reserved last under
    simp [committed] at reserved
  cases step with
  | store s same => exact ⟨[], by simp, by simp⟩
  | poll rests swept rely => exact ⟨_, rfl, by simp [Event.key?]⟩
  | reserve asked unmarked => exact ⟨_, rfl, other rfl (by simp [JournalWrite.key, unmarked])⟩
  | post reserved own rely => exact ⟨_, rfl, other rfl (held reserved rfl)⟩
  | repost listed untouched rests rely =>
      have reserved := (path.frame untouched).trans (marker_of_share listed)
      exact ⟨_, rfl, other rfl (by simp [reserved])⟩
  | answer posted rely => exact ⟨_, rfl, other rfl (held posted rfl)⟩
  | settle answered owes =>
      exact ⟨_, rfl, other (congrArg some (owed_key owes)) (held answered rfl)⟩

section Moves

variable {key : String} {body : Bytes}

/-- What lets a run concern a key with its next event: no marker stands there, the last event
is a step of the key's own submission, or the key is of the share and its turn has come. -/
def Opens (k : Keeper) (tick : Tick) (w₀ w : World S) (key : String) : Prop :=
  KeeperStores.marker w.store key = none ∨
    (∃ last body, (since w₀ w).getLast? = some last ∧ last.under = some (key, body)) ∨
    ∃ r ∈ share w₀.store tick k.maxPerTick, r.key = key ∧ ∀ e ∈ since w₀ w, e.key? ≠ some key

/-- One event was recorded: something opened its key, and no other marker moved. -/
structure Records (k : Keeper) (tick : Tick) (w₀ w w' : World S) (e : Event) : Prop where
  log : w'.log = w.log ++ [e]
  opens : ∀ key, e.key? = some key → Opens k tick w₀ w key
  same : ∀ key, e.key? ≠ some key →
    KeeperStores.marker w'.store key = KeeperStores.marker w.store key

omit [NexumSdk] in
theorem Opens.wrote {jw : JournalWrite} (opens : Opens k tick w₀ w jw.key) :
    Records k tick w₀ w (w.write k.venue jw) (.wrote k.venue jw) where
  log := rfl
  opens _ concerns := Option.some.inj concerns ▸ opens
  same _ other := marker_write_other fun own => other (congrArg some own.symm)

omit [NexumSdk] in
theorem Opens.called {e : Event} (opens : Opens k tick w₀ w key) (concerns : e.key? = some key) :
    Records k tick w₀ w (w.record e) e where
  log := rfl
  opens _ own := Option.some.inj (concerns.symm.trans own) ▸ opens
  same _ _ := rfl

/-- A step records nothing and moves no marker, or records one event. -/
theorem Step.moves (step : Step R k tick w₀ w w') :
    (w'.log = w.log ∧
        ∀ key, KeeperStores.marker w'.store key = KeeperStores.marker w.store key) ∨
      ∃ e, Records k tick w₀ w w' e := by
  cases step with
  | store s same => exact .inl ⟨rfl, same⟩
  | poll rests swept rely =>
      exact .inr ⟨_, rfl, nofun, fun key _ => World.edited_marker _ _ _⟩
  | @reserve c body asked unmarked =>
      have opens : Opens k tick w₀ w (JournalWrite.reserve (submissionKey k.venue body) body).key :=
        .inl unmarked
      exact .inr ⟨_, opens.wrote⟩
  | @post key body placed reserved own rely =>
      have opens : Opens k tick w₀ w key := .inr (.inl ⟨_, body, reserved, rfl⟩)
      exact .inr ⟨_, opens.called rfl⟩
  | @repost r placed listed untouched rests rely =>
      have opens : Opens k tick w₀ w r.key := .inr (.inr ⟨r, listed, rfl, untouched⟩)
      exact .inr ⟨_, opens.called rfl⟩
  | @answer pass key body placed result posted rely =>
      have opens : Opens k tick w₀ w key := .inr (.inl ⟨_, body, posted, rfl⟩)
      exact .inr ⟨_, opens.called rfl⟩
  | @settle pass key body result jw answered owes =>
      have opens : Opens k tick w₀ w key := .inr (.inl ⟨_, body, answered, rfl⟩)
      rw [← owed_key owes] at opens
      exact .inr ⟨_, opens.wrote⟩

/-- What a reconcile pass resubmits is a reservation the run found. -/
theorem Path.shared (path : Path R k tick w₀ w) {e : Event} (recorded : e ∈ since w₀ w)
    (resubmits : e.resubmits = some (key, body)) :
    ∃ r ∈ share w₀.store tick k.maxPerTick, r.key = key ∧ r.body = body := by
  induction path generalizing e with
  | refl => simp [since_start] at recorded
  | @tail v v' path step ih =>
      have path : Path R k tick w₀ v := path
      have earlier : ∀ x, since w₀ v' = since w₀ v ++ [x] →
          (x.resubmits = some (key, body) → ∃ r ∈ share w₀.store tick k.maxPerTick,
            r.key = key ∧ r.body = body) →
          ∃ r ∈ share w₀.store tick k.maxPerTick, r.key = key ∧ r.body = body := by
        intro x grown new
        rw [grown] at recorded
        rcases List.mem_append.mp recorded with old | last
        · exact ih old resubmits
        · exact new (List.mem_singleton.mp last ▸ resubmits)
      cases step with
      | store s same => exact ih recorded resubmits
      | poll rests swept rely => exact earlier _ (path.since_append rfl) nofun
      | reserve asked unmarked => exact earlier _ (path.since_write _) nofun
      | post reserved own rely => exact earlier _ (path.since_record _) nofun
      | repost listed untouched rests rely =>
          refine earlier _ (path.since_record _) fun same => ?_
          cases same
          exact ⟨_, listed, rfl, rfl⟩
      | @answer pass key' b placed result posted rely =>
          refine earlier _ (path.since_record _) fun same => ?_
          cases pass with
          | commitments => cases same
          | reconcile => exact ih (List.mem_of_getLast? posted) same
      | settle answered owes => exact earlier _ (path.since_write _) nofun

/-- The step a run recorded an event with. -/
theorem Path.split (path : Path R k tick w₀ w) {past later : List Event} {e : Event}
    (split : since w₀ w = past ++ e :: later) :
    ∃ u u', Path R k tick w₀ u ∧ since w₀ u = past ∧ Step R k tick w₀ u u' ∧
      u'.log = u.log ++ [e] := by
  induction path generalizing later with
  | refl => simp [since_start] at split
  | @tail v v' path step ih =>
      have path : Path R k tick w₀ v := path
      rcases step.moves with ⟨same, -⟩ | ⟨e', records⟩
      · have silent : since w₀ v' = since w₀ v := by rw [since, since, same]
        exact ih (silent ▸ split)
      · have grown := path.since_append records.log
        rw [grown] at split
        rcases split_concat split with ⟨-, before, rfl⟩ | ⟨rest, -, earlier⟩
        · exact ⟨v, v', path, before, step, records.log⟩
        · exact ih earlier

end Moves

end Videre.Sdk
