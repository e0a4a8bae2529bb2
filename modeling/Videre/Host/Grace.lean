import Videre.Host.Deadlines

/-! # The derived grace

Under a limit that derives its grace, an unanswered watch is dropped two expiries after its
admission, a day at most. The derivation counts whole seconds, so this is exact for
the expiries that are whole seconds or reach the ceiling.
-/

namespace Videre.Host

open Interaction

def day : Nat := 86400 * 10 ^ 9

theorem nanos_deriveGrace (expiry : Duration) :
    (deriveGrace expiry).nanos = min (2 * (expiry.nanos / 10 ^ 9)) 86400 * 10 ^ 9 := by
  have bound := expiry.bound
  have secs : expiry.asSecs.toNat = expiry.nanos / 10 ^ 9 := by
    rw [Duration.asSecs, UInt64.toNat_ofNat', Nat.mod_eq_of_lt]
    exact Nat.div_lt_of_lt_mul (by omega)
  have ceiling : watchGraceMax.asSecs.toNat = 86400 := by decide
  have scaled : (saturatingMul expiry.asSecs watchGraceMultiplier).toNat =
      min (2 * (expiry.nanos / 10 ^ 9)) (2 ^ 64 - 1) := by
    have two : watchGraceMultiplier.toNat = 2 := rfl
    rw [saturatingMul, UInt64.toNat_ofNat', secs, two, Nat.mod_eq_of_lt (by omega), Nat.mul_comm]
  unfold deriveGrace Duration.fromSecs
  dsimp only
  by_cases below : saturatingMul expiry.asSecs watchGraceMultiplier < watchGraceMax.asSecs
  · rw [if_pos below, scaled]
    rw [UInt64.lt_iff_toNat_lt, scaled, ceiling] at below
    omega
  · rw [if_neg below, ceiling]
    rw [UInt64.lt_iff_toNat_lt, scaled, ceiling] at below
    omega

theorem deriveGrace_exact_iff (expiry : Duration) :
    (deriveGrace expiry).nanos = min (2 * expiry.nanos) day ↔
      expiry.nanos % 10 ^ 9 = 0 ∨ 43200 * 10 ^ 9 ≤ expiry.nanos := by
  rw [nanos_deriveGrace, day]
  omega

def derivedPolicy (quota : SubmitQuota) (maxEntries : Nat) (expiry : Duration) (horizon : Nat) :
    Policy :=
  ((VenueRegistryBuilder.new quota).withWatchLimit (.new maxEntries expiry)).build horizon

/-- In every run on such a registry, a pair nothing was logged about since its insertion is still
watched, and a prune at any instant the clock can name keeps it exactly before two expiries
after the insertion, a day at most. -/
def Honoured (maxEntries : Nat) (expiry : Duration) : Prop :=
  ∀ quota horizon start h p, Timed (derivedPolicy quota maxEntries expiry horizon) start h p →
    ∀ before e after venue receipt, h = before ++ e :: after →
      e.entry.what = .inserted venue receipt →
      (∀ x ∈ after, x.entry.what.about venue receipt = false) →
      ∃ w ∈ p.shared.watched, w.pair = (venue, receipt) ∧
        ∀ now, p.shared.now ≤ now → now ≤ horizon →
          (w ∈ pruneExpired now p.shared.watched ↔
            now < e.closed + min (2 * expiry.nanos) day)

/-- A pair nothing was logged about since its insertion is watched, and due one grace after it. -/
theorem unanswered_entry {P : Policy} {start : Nat} {h : List (Stamped Event)} {p : RegistryPool}
    (timed : Timed P start h p) {before after : List (Stamped Event)} {e : Stamped Event}
    {venue : VenueId} {receipt : Bytes} (split : h = before ++ e :: after)
    (inserted : e.entry.what = .inserted venue receipt)
    (silent : ∀ x ∈ after, x.entry.what.about venue receipt = false) :
    ∃ w ∈ p.shared.watched, w.pair = (venue, receipt) ∧
      w.expiresAt = Instant.checkedAdd P.horizon e.closed P.watchLimit.grace := by
  have log : p.log = before.map Stamped.entry ++
      ⟨e.entry.who, .inserted venue receipt⟩ :: after.map Stamped.entry := by
    rw [← timed.log, split, List.map_append, List.map_cons, ← inserted]
  have still : ∀ x ∈ after.map Stamped.entry, x.what.ends venue receipt = false := by
    intro x member
    obtain ⟨y, old, rfl⟩ := List.mem_map.mp member
    by_contra ends
    have about := ends_about (Bool.eq_true_of_not_eq_false ends)
    rw [silent y old] at about
    cases about
  have there := ((tracks_reach timed.reach venue receipt).opened _ _ _ log still).1
  have watched : isWatched venue receipt p.shared.watched = true := by
    rw [← pairState_isSome, there]
    rfl
  obtain ⟨w, member, pair⟩ := List.mem_map.mp (isWatched_iff.mp watched)
  obtain ⟨t, heard, deadline⟩ := due_heard timed w member
  refine ⟨w, member, pair, ?_⟩
  have hears : e.entry.what.hears venue receipt = true := by
    rw [inserted]
    simp [Event.hears]
  simp only [WatchedIntent.pair, Prod.mk.injEq] at pair
  rw [pair.1, pair.2] at heard
  have same := heard.unique ⟨before, e, after, split, hears, rfl, silent⟩
    (timed.ordered fun _ _ _ => step_now).1
  rw [deadline, same]

/-- A prune keeps an entry exactly before its deadline, and always when there is none. -/
theorem unexpired_checkedAdd {w : WatchedIntent} {horizon now t : Nat} {grace : Duration}
    (deadline : w.expiresAt = Instant.checkedAdd horizon t grace) (named : now ≤ horizon) :
    w.unexpired now = true ↔ now < t + grace.nanos := by
  unfold WatchedIntent.unexpired
  rw [deadline, Instant.checkedAdd]
  by_cases fits : t + grace.nanos ≤ horizon
  · simp [fits]
  · simp [fits]
    omega

theorem honoured_of_exact {maxEntries : Nat} {expiry : Duration}
    (exact_ : (deriveGrace expiry).nanos = min (2 * expiry.nanos) day) :
    Honoured maxEntries expiry := by
  intro quota horizon start h p timed before e after venue receipt split inserted silent
  obtain ⟨w, member, pair, deadline⟩ := unanswered_entry timed split inserted silent
  refine ⟨w, member, pair, fun now _ named => ?_⟩
  rw [mem_pruneExpired, unexpired_checkedAdd deadline named, ← exact_]
  exact and_iff_right member

/-- On any registry, a run that ends with the insertion of a pair as its clock starts. -/
theorem inserting_run (P : Policy) :
    ∃ h p before e, Timed P 0 h p ∧ h = before ++ [e] ∧
      e.entry.what = .inserted stubVenue [7] ∧ e.closed = 0 ∧ p.shared.now = 0 := by
  obtain ⟨p, ran, watched, clock, rest, thread⟩ :
      ∃ p, (venueRegistry P).run [.host (.register stubVenue 0 ∅), .spawn (.observe stubVenue [7]),
          .advance 0 (.elapsed 0)] (System.empty (Registry.new 0)) = some p ∧
        p.shared.watched = [] ∧ p.shared.now = 0 ∧
        ∃ rest, p.threads 0 = some (.call (.watch stubVenue [7]) rest) :=
    ⟨_, rfl, rfl, rfl, _, rfl⟩
  obtain ⟨h, timed⟩ : ∃ h, Timed P 0 h p := (System.Reach.of_run .start ran).clocked
  obtain ⟨a, events, r', acts⟩ : ∃ a events r',
      act P 0 (.watch stubVenue [7]) (.elapsed 0) p.shared = some (a, events, r') :=
    ⟨_, _, _, rfl⟩
  obtain ⟨nanos, spent, ha, hr, hevents⟩ := act_watch acts
  cases spent
  have empty : pruneExpired p.shared.now p.shared.watched = [] := by
    rw [watched]
    rfl
  have none_gone : evictions p.shared.now p.shared.watched = [] := by
    rw [watched]
    rfl
  have admitted : a = true := by
    rcases watch_spec P p.shared stubVenue [7] 0 with ⟨_, yes, _⟩ | ⟨_, _, yes, _⟩ | ⟨_, full, _, _⟩
    · exact ha.trans yes
    · exact ha.trans yes
    · have room := P.holds
      rw [empty, List.length_nil] at full
      omega
  rw [admitted, none_gone, empty] at hevents
  have later : r'.now = 0 := by rw [hr, watch_frame, clock]
  have runs : (venueRegistry P).act 0 (.watch stubVenue [7]) (.elapsed 0) p.shared =
      some (a, events, r') := acts
  have moves := (venueRegistry P).step_advance thread runs
  refine ⟨_, _, h, ⟨⟨some 0, .inserted stubVenue [7]⟩, p.shared.now, r'.now⟩,
    timed.step moves rfl, ?_, rfl, later, later⟩
  rw [hevents]
  rfl

theorem exact_of_honoured {maxEntries : Nat} {expiry : Duration}
    (honoured : Honoured maxEntries expiry) :
    (deriveGrace expiry).nanos = min (2 * expiry.nanos) day := by
  by_contra inexact
  -- The clock names two expiries and no more; the entry is due when the derived grace is over.
  obtain ⟨h, p, before, e, timed, split, inserted, at_, now⟩ :=
    inserting_run (derivedPolicy .default maxEntries expiry (2 * expiry.nanos))
  have silent : ∀ x ∈ ([] : List (Stamped Event)), x.entry.what.about stubVenue [7] = false :=
    List.forall_mem_nil _
  obtain ⟨w, member, pair, kept⟩ := honoured _ _ _ h p timed before e [] stubVenue [7] split
    inserted silent
  obtain ⟨w', member', pair', deadline⟩ := unanswered_entry timed split inserted silent
  have same : w' = w :=
    List.inj_on_of_nodup_map (watchOk timed.reach).distinct member' member (pair'.trans pair.symm)
  rw [same] at deadline
  have short : (deriveGrace expiry).nanos < min (2 * expiry.nanos) day := by
    rw [nanos_deriveGrace, day] at *
    omega
  have named : (deriveGrace expiry).nanos ≤ 2 * expiry.nanos := by omega
  have due := kept (deriveGrace expiry).nanos (by omega) named
  rw [mem_pruneExpired, unexpired_checkedAdd deadline named, at_] at due
  have grace : (derivedPolicy .default maxEntries expiry
      (2 * expiry.nanos)).watchLimit.grace = deriveGrace expiry := rfl
  rw [grace] at due
  have gone := (due.mpr (by omega)).2
  omega

/-- The derived grace is honoured exactly for the expiries that are a whole number of seconds or
at least half a day. -/
theorem grace_honoured_iff (maxEntries : Nat) (expiry : Duration) :
    Honoured maxEntries expiry ↔
      expiry.nanos % 10 ^ 9 = 0 ∨ 43200 * 10 ^ 9 ≤ expiry.nanos := by
  rw [← deriveGrace_exact_iff]
  exact ⟨exact_of_honoured, honoured_of_exact⟩

/-- An expiry of a second and a half is given two seconds, not three. -/
theorem grace_truncated : ¬ Honoured 1024 ⟨1500000000, by decide⟩ := by
  intro honoured
  have exact_ := exact_of_honoured honoured
  revert exact_
  decide

end Videre.Host
