import Videre.Sdk.Faultless
import Videre.Sdk.Journal
import Videre.Sdk.MemStore
import Mathlib.Data.List.Induction

/-! # One POST an order and tick

Both loops of a sweep may POST, and they meet in the marker only. A commit, a park
and a reservation left alone keep the other loop off. A release does not: a poll
that asks for the released order again gets a second POST within the tick. Nor does
the marker of another key, so an order filed under a key that is not its own has
nothing to keep the other loop off.
-/

namespace Videre.Sdk

open Interaction Relation

section Orders

variable [NexumSdk]

/-- A POST of what a submission key stands for, whichever key its reservation is under. -/
def Event.posts (key : String) : Event → Bool
  | .posted _ venue _ body _ => submissionKey venue body == key
  | _ => false

def Event.answers (key : String) : Event → Bool
  | .answered _ venue _ body _ => submissionKey venue body == key
  | _ => false

/-- Whether an event is an answer that hands back a transaction for signing. -/
def Event.signs (body : Bytes) : Event → Bool
  | .answered _ _ _ body' (.ok (.requiresSigning _)) => body' == body
  | _ => false

/-- No submission key is POSTed twice, and no body has two transactions handed back. -/
def OncePerKey (es : List Event) : Prop :=
  (∀ key, es.countP (Event.posts key) ≤ 1) ∧ ∀ body, es.countP (Event.signs body) ≤ 1

/-- The answer an event gives under a journal key. -/
def Event.answerUnder (key : String) : Event → Option (Pass × SubmitResult)
  | .answered pass _ key' _ result => if key' = key then some (pass, result) else none
  | _ => none

def lastAnswer (key : String) (es : List Event) : Option (Pass × SubmitResult) :=
  (es.filterMap (Event.answerUnder key)).getLast?

variable {S : Type} [KeeperStores S]

/-- Whether a key is without a marker, by the last answer under it, or by the store it started
in when there is none. -/
def Unmarked (k : Keeper) (s : S) (key : String) (es : List Event) : Prop :=
  match lastAnswer key es with
  | some (pass, result) => releases k.faultPolicy pass result = true
  | none => KeeperStores.marker s key = none

/-- The share of a pass holds no order twice. -/
def FiledOnce (k : Keeper) (tick : Tick) (s : S) : Prop :=
  ((share s tick k.maxPerTick).map fun r => submissionKey k.venue r.body).Nodup

/-- No poll asks for an order the venue has answered for while its key is without a marker. -/
def NotAskedAgain (k : Keeper) (s : S) (es : List Event) : Prop :=
  ∀ past c body later, es = past ++ .polled c (.submit body) :: later →
    Unmarked k s (submissionKey k.venue body) past →
      ∀ e ∈ past, e.answers (submissionKey k.venue body) = false

end Orders

/-! ## Counting -/

theorem countP_le_one {α : Type} {p : α → Bool} (es : List α)
    (first : ∀ past e later, es = past ++ e :: later → p e = true → past.countP p = 0) :
    es.countP p ≤ 1 := by
  induction es using List.reverseRecOn with
  | nil => simp
  | append_singleton es e ih =>
      rw [List.countP_append, List.countP_singleton]
      by_cases holds : p e = true
      · rw [first es e [] rfl holds, if_pos holds]
      · rw [if_neg holds]
        apply ih
        intro past e' later split
        exact first past e' (later ++ [e]) (by rw [split, List.append_assoc, List.cons_append])

theorem two_le_countP {α : Type} {p : α → Bool} {es : List α} {e e' : α} (listed : e ∈ es)
    (listed' : e' ∈ es) (distinct : e ≠ e') (holds : p e = true) (holds' : p e' = true) :
    2 ≤ es.countP p := by
  obtain ⟨before, after, rfl⟩ := List.append_of_mem listed
  have elsewhere : e' ∈ before ++ after := by
    rcases List.mem_append.mp listed' with earlier | here
    · exact List.mem_append_left _ earlier
    · rcases List.mem_cons.mp here with same | later
      · exact absurd same.symm distinct
      · exact List.mem_append_right _ later
  have other : 0 < (before ++ after).countP p := List.countP_pos_iff.mpr ⟨e', elsewhere, holds'⟩
  rw [List.countP_append] at other
  rw [List.countP_append, List.countP_cons_of_pos holds]
  omega

def Event.pastReconcile : Event → Bool
  | .polled _ _ | .posted .commitments _ _ _ _ | .answered .commitments _ _ _ _
  | .wrote _ (.reserve _ _) => true
  | _ => false

section Paths

variable {S : Type} [KeeperStores S] [NexumSdk]
  {R : Rely Op (World S) (Input (KeeperStores.Edit S))} {k : Keeper} {tick : Tick}
  {w₀ w w' : World S}

theorem Path.own_venue (path : Path R k tick w₀ w) : ∀ e ∈ since w₀ w, ∀ venue,
    e.venue? = some venue → venue = k.venue := by
  induction path with
  | refl => simp [since_start]
  | @tail v v' path step ih =>
      have path : Path R k tick w₀ v := path
      have grow : ∀ x, since w₀ v' = since w₀ v ++ [x] →
          (x.venue? = none ∨ x.venue? = some k.venue) →
          ∀ e ∈ since w₀ v', ∀ venue, e.venue? = some venue → venue = k.venue := by
        intro x grown own e recorded venue named
        rw [grown] at recorded
        rcases List.mem_append.mp recorded with old | new
        · exact ih e old venue named
        · rw [List.mem_singleton.mp new] at named
          rcases own with none_ | own
          · rw [none_] at named
            cases named
          · exact Option.some.inj (named.symm.trans own)
      cases step with
      | store s same => exact ih
      | poll rests swept rely => exact grow _ (path.since_append rfl) (.inl rfl)
      | reserve asked unmarked => exact grow _ (path.since_write _) (.inr rfl)
      | post reserved own rely => exact grow _ (path.since_record _) (.inr rfl)
      | repost listed untouched rests rely => exact grow _ (path.since_record _) (.inr rfl)
      | answer posted rely => exact grow _ (path.since_record _) (.inr rfl)
      | settle answered owes => exact grow _ (path.since_write _) (.inr rfl)

/-- Whether the last event is a POST of the order, its answer out. -/
def awaiting (key : String) (es : List Event) : Nat :=
  match es.getLast? with
  | some e => if e.posts key then 1 else 0
  | none => 0

theorem awaiting_of_last {key : String} {es : List Event} {e : Event}
    (last : es.getLast? = some e) (silent : e.posts key = false) : awaiting key es = 0 := by
  rw [awaiting, last]
  simp [silent]

theorem AtRest.answered (rests : AtRest R k tick w₀ w) (key : String) :
    awaiting key (since w₀ w) = 0 := by
  cases ends : (since w₀ w).getLast? with
  | none => simp [awaiting, ends]
  | some e =>
      apply awaiting_of_last ends
      have rest := rests e ends
      cases e with
      | posted pass venue key' body placed => exact rest.elim
      | _ => rfl

/-- Every POST but one that is out has its answer. -/
theorem Path.replied (path : Path R k tick w₀ w) (key : String) :
    (since w₀ w).countP (Event.posts key) =
      (since w₀ w).countP (Event.answers key) + awaiting key (since w₀ w) := by
  induction path with
  | refl => simp [since_start, awaiting]
  | @tail v v' path step ih =>
      have path : Path R k tick w₀ v := path
      -- An event that is no answer follows no POST.
      have quiet : ∀ e, since w₀ v' = since w₀ v ++ [e] → e.answers key = false →
          awaiting key (since w₀ v) = 0 →
          (since w₀ v').countP (Event.posts key) =
            (since w₀ v').countP (Event.answers key) + awaiting key (since w₀ v') := by
        intro e grown silent none_out
        rw [grown, List.countP_append, List.countP_append, ih, none_out, awaiting,
          List.getLast?_concat, List.countP_singleton, List.countP_singleton, silent]
        simp
      cases step with
      | store s same => exact ih
      | poll rests swept rely =>
          exact quiet _ (path.since_append rfl) rfl (rests.answered key)
      | reserve asked unmarked =>
          exact quiet _ (path.since_write _) rfl (awaiting_of_last asked rfl)
      | post reserved own rely =>
          exact quiet _ (path.since_record _) rfl (awaiting_of_last reserved rfl)
      | repost listed untouched rests rely =>
          exact quiet _ (path.since_record _) rfl (rests.answered key)
      | @answer pass key' body placed result posted rely =>
          rw [path.since_record, List.countP_append, List.countP_append, ih, awaiting, awaiting,
            posted, List.getLast?_concat, List.countP_singleton, List.countP_singleton]
          simp [Event.posts, Event.answers]
      | settle answered owes =>
          exact quiet _ (path.since_write _) rfl (awaiting_of_last answered rfl)

/-- The commitment loop starts when the share is done. -/
theorem Path.swept (path : Path R k tick w₀ w) {e : Event} (recorded : e ∈ since w₀ w)
    (past : e.pastReconcile = true) : Swept k tick w₀ w := by
  induction path generalizing e with
  | refl => simp [since_start] at recorded
  | @tail v v' path step ih =>
      have path : Path R k tick w₀ v := path
      have grow : ∀ x, since w₀ v' = since w₀ v ++ [x] →
          (x.pastReconcile = true → Swept k tick w₀ v) → Swept k tick w₀ v' := by
        intro x grown new
        rw [grown] at recorded
        rcases List.mem_append.mp recorded with old | last
        · exact (ih old past).mono grown
        · exact (new (List.mem_singleton.mp last ▸ past)).mono grown
      cases step with
      | store s same => exact ih recorded past
      | poll rests swept rely => exact grow _ (path.since_append rfl) fun _ => swept
      | reserve asked unmarked =>
          exact grow _ (path.since_write _) fun _ => ih (List.mem_of_getLast? asked) rfl
      | post reserved own rely =>
          exact grow _ (path.since_record _) fun _ => ih (List.mem_of_getLast? reserved) rfl
      | repost listed untouched rests rely => exact grow _ (path.since_record _) nofun
      | @answer pass key body placed result posted rely =>
          refine grow _ (path.since_record _) fun fresh => ?_
          cases pass with
          | commitments => exact ih (List.mem_of_getLast? posted) rfl
          | reconcile => cases fresh
      | settle answered owes =>
          refine grow _ (path.since_write _) fun fresh => ?_
          rcases owed_cases owes with ⟨rfl, -⟩ | ⟨rfl, -⟩ | ⟨_, rfl⟩ <;> cases fresh

/-- A reservation of the share that was concerned was first POSTed again. -/
theorem Path.reposted (path : Path R k tick w₀ w) {r : Reservation}
    (listed : r ∈ share w₀.store tick k.maxPerTick)
    (concerned : ∃ e ∈ since w₀ w, e.key? = some r.key) :
    ∃ placed, .posted .reconcile k.venue r.key r.body placed ∈ since w₀ w := by
  induction path with
  | refl => simp [since_start] at concerned
  | @tail v v' path step ih =>
      have path : Path R k tick w₀ v := path
      by_cases before : ∃ e ∈ since w₀ v, e.key? = some r.key
      · obtain ⟨placed, posted⟩ := ih before
        obtain ⟨new, grown, -⟩ := step.effect
        rw [path.since_append grown]
        exact ⟨placed, List.mem_append_left _ posted⟩
      have untouched : ∀ e ∈ since w₀ v, e.key? ≠ some r.key := by
        intro e recorded concerns
        exact before ⟨e, recorded, concerns⟩
      have first : ∀ x, since w₀ v' = since w₀ v ++ [x] → x.key? = some r.key := by
        intro x grown
        obtain ⟨e, recorded, concerns⟩ := concerned
        rw [grown] at recorded
        rcases List.mem_append.mp recorded with old | last
        · exact absurd concerns (untouched e old)
        · exact List.mem_singleton.mp last ▸ concerns
      have follows : ∀ e x, since w₀ v' = since w₀ v ++ [x] →
          (since w₀ v).getLast? = some e → e.key? = x.key? → False := by
        intro e x grown last same
        exact untouched e (List.mem_of_getLast? last) (same.trans (first x grown))
      cases step with
      | store s same => exact absurd concerned before
      | poll rests swept rely => cases first _ (path.since_append rfl)
      | @reserve c body asked unmarked =>
          have own : submissionKey k.venue body = r.key :=
            Option.some.inj (first _ (path.since_write _))
          rw [own, path.frame untouched, marker_of_share listed] at unmarked
          cases unmarked
      | post reserved own rely => exact (follows _ _ (path.since_record _) reserved rfl).elim
      | @repost r' placed listed' untouched' rests rely =>
          have same : r' = r := share_inj listed' listed
            (Option.some.inj (first _ (path.since_record _)))
          rw [path.since_record, same]
          exact ⟨placed, List.mem_append_right _ List.mem_cons_self⟩
      | answer posted rely => exact (follows _ _ (path.since_record _) posted rfl).elim
      | settle answered owes =>
          exact (follows _ _ (path.since_write _) answered (congrArg some (owed_key owes).symm)).elim

/-! ## The marker of a key -/

omit [KeeperStores S] [NexumSdk] in
theorem lastAnswer_concat (key : String) (es : List Event) (e : Event) :
    lastAnswer key (es ++ [e]) = (e.answerUnder key).or (lastAnswer key es) := by
  rw [lastAnswer, List.filterMap_append, lastAnswer]
  cases answer : e.answerUnder key <;> simp [List.filterMap, answer]

omit [NexumSdk] in
theorem unmarked_concat {s : S} {key : String} {es : List Event} {e : Event}
    (silent : e.answerUnder key = none) : Unmarked k s key (es ++ [e]) ↔ Unmarked k s key es := by
  rw [Unmarked, lastAnswer_concat, silent, Option.none_or, Unmarked]

/-- Whether a key's POST, its answer or its release is due next. -/
def InFlight (k : Keeper) (key : String) : Event → Prop
  | .wrote _ (.reserve key' _) | .posted _ _ key' _ _ => key' = key
  | .answered pass _ key' _ result => key' = key ∧ releases k.faultPolicy pass result = true
  | _ => False

theorem AtRest.not_inFlight (rests : AtRest R k tick w₀ w) {e : Event}
    (last : (since w₀ w).getLast? = some e) (key : String) : ¬ InFlight k key e := by
  intro inFlight
  have rest := rests e last
  unfold InFlight at inFlight
  split at inFlight
  · exact rest
  · exact rest
  · rcases rest with none_owed | ⟨receipt, _, _, _, accepted, _⟩
    · simp [owed, inFlight.2] at none_owed
    · rw [accepted] at inFlight
      simp [releases] at inFlight
  · exact inFlight

omit [NexumSdk] in
/-- The write owed for an answer unmarks its key exactly when the answer releases it. -/
theorem owed_unmarks {policy : FaultPolicy} {tick : Tick} {key : String} {body : Bytes} {pass : Pass}
    {result : SubmitResult} {jw : JournalWrite}
    (owes : owed policy tick key body pass result = some jw) (fresh : UInt64) :
    jw.leaves fresh = none ↔ releases policy pass result = true := by
  by_cases released : releases policy pass result = true
  · have release : jw = .release key := by
      simpa [owed, released] using owes.symm
    rw [release]
    exact iff_of_true rfl released
  · refine iff_of_false ?_ released
    rcases owed_cases owes with ⟨-, other⟩ | ⟨rfl, -⟩ | ⟨n, rfl⟩
    · exact absurd other released
    · exact Option.some_ne_none _
    · exact Option.some_ne_none _

/-- A key that is not in flight is without a marker as the answers under it say. -/
theorem Path.tracks (path : Path R k tick w₀ w) (key : String)
    (quiet : ∀ e, (since w₀ w).getLast? = some e → ¬ InFlight k key e) :
    KeeperStores.marker w.store key = none ↔ Unmarked k w₀.store key (since w₀ w) := by
  induction path with
  | refl => simp [since_start, Unmarked, lastAnswer]
  | @tail v v' path step ih =>
      have path : Path R k tick w₀ v := path
      -- The event is no answer under the key, and leaves its marker alone.
      have same : ∀ e, since w₀ v' = since w₀ v ++ [e] → e.answerUnder key = none →
          KeeperStores.marker v'.store key = KeeperStores.marker v.store key →
          (∀ e, (since w₀ v).getLast? = some e → ¬ InFlight k key e) →
          (KeeperStores.marker v'.store key = none ↔ Unmarked k w₀.store key (since w₀ v')) := by
        intro e grown silent kept before
        rw [grown, unmarked_concat silent, kept]
        exact ih before
      cases step with
      | store s kept =>
          rw [kept]
          exact ih quiet
      | poll rests swept rely =>
          exact same _ (path.since_append rfl) rfl (World.edited_marker _ _ _)
            fun e last => rests.not_inFlight last key
      | @reserve c body asked unmarked =>
          by_cases own : submissionKey k.venue body = key
          · exact absurd own (quiet _ (path.last_write _))
          · refine same _ (path.since_write _) rfl (marker_write_other fun is => own is.symm) ?_
            intro e last
            rw [asked] at last
            cases last
            exact id
      | @post key' body placed reserved own rely =>
          by_cases here : key' = key
          · exact absurd here (quiet _ (path.last_record _))
          · refine same _ (path.since_record _) rfl rfl ?_
            intro e last
            rw [reserved] at last
            cases last
            exact here
      | @repost r placed listed untouched rests rely =>
          exact same _ (path.since_record _) rfl rfl fun e last => rests.not_inFlight last key
      | @answer pass key' body placed result posted rely =>
          by_cases here : key' = key
          · obtain ⟨n, held⟩ := path.reserved posted rfl
            rw [path.since_record, Unmarked, lastAnswer_concat, Event.answerUnder, if_pos here,
              Option.some_or, World.record_store, ← here, held]
            have kept := quiet _ (path.last_record _)
            exact iff_of_false (Option.some_ne_none _) fun released => kept ⟨here, released⟩
          · refine same _ (path.since_record _) (if_neg here) rfl ?_
            intro e last
            rw [posted] at last
            cases last
            exact here
      | @settle pass key' body result jw answered owes =>
          have own := owed_key owes
          by_cases here : key' = key
          · obtain ⟨past, before⟩ := List.getLast?_eq_some_iff.mp answered
            rw [path.since_write, unmarked_concat rfl, before, Unmarked, lastAnswer_concat,
              Event.answerUnder, if_pos here, Option.some_or, ← here, ← own, World.write_store,
              marker_write_self]
            exact owed_unmarks owes _
          · refine same _ (path.since_write _) rfl
              (marker_write_other fun is => here (own.symm.trans is.symm)) ?_
            intro e last
            rw [answered] at last
            cases last
            exact fun inFlight => here inFlight.1

/-! ## What recorded an event -/

theorem Step.recorded_poll {c : CommitmentRef} {outcome : Outcome} (step : Step R k tick w₀ w w')
    (log : w'.log = w.log ++ [.polled c outcome]) : AtRest R k tick w₀ w := by
  cases step with
  | store s same => simp at log
  | poll rests swept rely => exact rests
  | _ => cases List.append_cancel_left log

theorem Step.recorded_reserve {venue : VenueId} {key : String} {body : Bytes}
    (step : Step R k tick w₀ w w') (log : w'.log = w.log ++ [.wrote venue (.reserve key body)]) :
    ∃ c, (since w₀ w).getLast? = some (.polled c (.submit body)) ∧
      key = submissionKey k.venue body ∧ KeeperStores.marker w.store key = none := by
  cases step with
  | store s same => simp at log
  | reserve asked unmarked =>
      cases List.append_cancel_left log
      exact ⟨_, asked, rfl, unmarked⟩
  | settle answered owes =>
      cases List.append_cancel_left log
      rcases owed_cases owes with ⟨other, -⟩ | ⟨other, -⟩ | ⟨_, other⟩ <;> cases other
  | _ => cases List.append_cancel_left log

theorem Step.recorded_post {pass : Pass} {venue : VenueId} {key : String} {body : Bytes}
    {placed : Bool} (step : Step R k tick w₀ w w')
    (log : w'.log = w.log ++ [.posted pass venue key body placed]) :
    ((since w₀ w).getLast? = some (.wrote k.venue (.reserve key body)) ∧
        key = submissionKey k.venue body) ∨
      ∃ r ∈ share w₀.store tick k.maxPerTick, r.body = body ∧
        ∀ e ∈ since w₀ w, e.key? ≠ some r.key := by
  cases step with
  | store s same => simp at log
  | post reserved own rely =>
      cases List.append_cancel_left log
      exact .inl ⟨reserved, own⟩
  | repost listed untouched rests rely =>
      cases List.append_cancel_left log
      exact .inr ⟨_, listed, rfl, untouched⟩
  | _ => cases List.append_cancel_left log

theorem Step.after_asked {c : CommitmentRef} {body : Bytes} {e : Event}
    (step : Step R k tick w₀ w w') (log : w'.log = w.log ++ [e])
    (asked : (since w₀ w).getLast? = some (.polled c (.submit body)))
    (unmarked : KeeperStores.marker w.store (submissionKey k.venue body) = none) :
    e = .wrote k.venue (.reserve (submissionKey k.venue body) body) := by
  cases step with
  | store s same => simp at log
  | poll rests swept rely => exact absurd unmarked (rests _ asked)
  | repost listed untouched rests rely => exact absurd unmarked (rests _ asked)
  | reserve asked' =>
      cases asked'.symm.trans asked
      exact (List.singleton_inj.mp (List.append_cancel_left log)).symm
  | post reserved => cases reserved.symm.trans asked
  | answer posted => cases posted.symm.trans asked
  | settle answered => cases answered.symm.trans asked

theorem Step.after_reserve {venue : VenueId} {key : String} {body : Bytes} {e : Event}
    (step : Step R k tick w₀ w w') (log : w'.log = w.log ++ [e])
    (reserved : (since w₀ w).getLast? = some (.wrote venue (.reserve key body))) :
    ∃ placed, e = .posted .commitments k.venue key body placed := by
  cases step with
  | store s same => simp at log
  | poll rests swept rely => exact (rests _ reserved).elim
  | repost listed untouched rests rely => exact (rests _ reserved).elim
  | reserve asked => cases asked.symm.trans reserved
  | post reserved' =>
      cases reserved'.symm.trans reserved
      exact ⟨_, (List.singleton_inj.mp (List.append_cancel_left log)).symm⟩
  | answer posted => cases posted.symm.trans reserved
  | settle answered => cases answered.symm.trans reserved

/-! ## The two directions -/

/-- At a poll, a key is without a marker as the answers before it say. -/
theorem Path.tracks_asked (path : Path R k tick w₀ w) {past : List Event} {c : CommitmentRef}
    {outcome : Outcome} (split : since w₀ w = past ++ [.polled c outcome]) (key : String) :
    KeeperStores.marker w.store key = none ↔ Unmarked k w₀.store key past := by
  have quiet : ∀ e, (since w₀ w).getLast? = some e → ¬ InFlight k key e := by
    intro e last
    rw [split, List.getLast?_concat] at last
    cases last
    exact id
  rw [path.tracks key quiet, split, unmarked_concat rfl]

/-- A POST of the commitment loop, when no poll asks again, is the first of its order. -/
theorem Path.first_of_asked (path : Path R k tick w₀ w)
    (clean : NotAskedAgain k w₀.store (since w₀ w)) {past later : List Event} {key : String}
    {body : Bytes} (split : since w₀ w = past ++ .wrote k.venue (.reserve key body) :: later) :
    past.countP (Event.posts key) = 0 := by
  obtain ⟨v, v', reached, here, reserves, log⟩ := path.split split
  obtain ⟨c, asked, rfl, unmarked⟩ := reserves.recorded_reserve log
  obtain ⟨before, polled⟩ := List.getLast?_eq_some_iff.mp asked
  obtain ⟨u, u', reachedᵤ, earlier, polls, logᵤ⟩ := reached.split polled
  have rests := polls.recorded_poll logᵤ
  have unanswered : before.countP (Event.answers (submissionKey k.venue body)) = 0 := by
    rw [List.countP_eq_zero]
    intro e recorded
    rw [clean before c body _ (by rw [split, ← here, polled, List.append_assoc]; rfl)
      ((reached.tracks_asked polled _).mp unmarked) e recorded]
    exact nofun
  have replied := reachedᵤ.replied (submissionKey k.venue body)
  rw [earlier, unanswered, ← earlier, rests.answered] at replied
  rw [← here, polled, List.countP_append, ← earlier, replied]
  rfl

theorem Path.bound (path : Path R k tick w₀ w) (filed : FiledOnce k tick w₀.store)
    (clean : NotAskedAgain k w₀.store (since w₀ w)) (key : String) :
    (since w₀ w).countP (Event.posts key) ≤ 1 := by
  apply countP_le_one
  intro past e later split posts
  cases e with
  | posted pass venue label body placed =>
      have venues := path.own_venue _ (split ▸ List.mem_append_right _ List.mem_cons_self) _ rfl
      have order : submissionKey k.venue body = key := venues ▸ eq_of_beq posts
      obtain ⟨u, u', reached, here, step, log⟩ := path.split split
      rcases step.recorded_post log with ⟨reserved, own⟩ | ⟨r, listed, same, untouched⟩
      · obtain ⟨before, wrote⟩ := List.getLast?_eq_some_iff.mp reserved
        rw [← here, wrote] at split ⊢
        rw [List.append_assoc] at split
        rw [List.countP_append, ← order, ← own, path.first_of_asked clean split]
        rfl
      · rw [← here, List.countP_eq_zero]
        intro e recorded posts'
        cases e with
        | posted pass' venue' label' body' placed' =>
            cases pass' with
            | commitments =>
                obtain ⟨x, touched, concerns⟩ := reached.swept recorded rfl r listed
                exact untouched x touched concerns
            | reconcile =>
                obtain ⟨r', listed', rfl, rfl⟩ := reached.shared recorded rfl
                have venues' := reached.own_venue _ recorded _ rfl
                have one : r' = r := by
                  apply List.inj_on_of_nodup_map filed listed' listed
                  rw [same, order, ← venues']
                  exact eq_of_beq posts'
                exact untouched _ recorded (congrArg some (congrArg Reservation.key one))
        | _ => cases posts'
  | _ => cases posts

/-- A poll that asks for an unmarked order has it POSTed. -/
theorem Path.posts_asked (path : Path R k tick w₀ w) (rests : AtRest R k tick w₀ w)
    {past later : List Event} {c : CommitmentRef} {body : Bytes}
    (split : since w₀ w = past ++ .polled c (.submit body) :: later)
    (unmarked : Unmarked k w₀.store (submissionKey k.venue body) past) :
    0 < later.countP (Event.posts (submissionKey k.venue body)) := by
  cases later with
  | nil =>
      have last : (since w₀ w).getLast? = some (.polled c (.submit body)) := by
        rw [split, List.getLast?_concat]
      exact absurd ((path.tracks_asked split _).mpr unmarked) (rests _ last)
  | cons e rest =>
      rw [List.append_cons] at split
      obtain ⟨u, u', reached, here, step, log⟩ := path.split split
      have asked : (since w₀ u).getLast? = some (.polled c (.submit body)) := by
        rw [here, List.getLast?_concat]
      have reserves := step.after_asked log asked ((reached.tracks_asked here _).mpr unmarked)
      cases rest with
      | nil =>
          have last : (since w₀ w).getLast? = some e := by
            rw [split, List.getLast?_concat]
          rw [reserves] at last
          exact (rests _ last).elim
      | cons e' rest =>
          rw [List.append_cons] at split
          obtain ⟨v, v', reached', here', step', log'⟩ := path.split split
          have reserved : (since w₀ v).getLast? = some e := by
            rw [here', List.getLast?_concat]
          rw [reserves] at reserved
          obtain ⟨placed, posts⟩ := step'.after_reserve log' reserved
          apply List.countP_pos_iff.mpr
          refine ⟨e', List.mem_cons_of_mem _ List.mem_cons_self, ?_⟩
          rw [posts]
          exact beq_self_eq_true _

theorem Path.not_asked_again (path : Path R k tick w₀ w) (rests : AtRest R k tick w₀ w)
    (once : OncePerKey (since w₀ w)) : NotAskedAgain k w₀.store (since w₀ w) := by
  intro past c body later split unmarked e recorded
  by_contra answers
  have answered : e.answers (submissionKey k.venue body) = true := by
    simpa using answers
  obtain ⟨u, u', reached, here, polls, log⟩ := path.split split
  have replied := reached.replied (submissionKey k.venue body)
  rw [(polls.recorded_poll log).answered, here] at replied
  have before : 0 < past.countP (Event.answers (submissionKey k.venue body)) :=
    List.countP_pos_iff.mpr ⟨e, recorded, answered⟩
  have after := path.posts_asked rests split unmarked
  have bound := once.1 (submissionKey k.venue body)
  rw [split, List.countP_append, List.countP_cons] at bound
  omega

theorem Path.filed_once (path : Path R k tick w₀ w) (swept : Swept k tick w₀ w)
    (once : OncePerKey (since w₀ w)) : FiledOnce k tick w₀.store := by
  have distinct : (share w₀.store tick k.maxPerTick).Nodup :=
    (share_keys w₀.store tick k.maxPerTick).of_map
  refine distinct.map_on ?_
  intro r listed r' listed' same
  by_contra other
  obtain ⟨placed, posted⟩ := path.reposted listed (swept r listed)
  obtain ⟨placed', posted'⟩ := path.reposted listed' (swept r' listed')
  have twice : 2 ≤ (since w₀ w).countP (Event.posts (submissionKey k.venue r.body)) := by
    apply two_le_countP posted posted'
    · intro one
      injection one with _ _ keys
      exact other (share_inj listed listed' keys)
    · exact beq_self_eq_true _
    · exact beq_iff_eq.mpr same.symm
  have bound := once.1 (submissionKey k.venue r.body)
  omega

theorem signs_le_answers {venue : VenueId} {es : List Event}
    (own : ∀ e ∈ es, ∀ v, e.venue? = some v → v = venue) (body : Bytes) :
    es.countP (Event.signs body) ≤ es.countP (Event.answers (submissionKey venue body)) := by
  apply List.countP_mono_left
  intro e recorded signs
  unfold Event.signs at signs
  split at signs
  · rw [Event.answers, own _ recorded _ rfl, eq_of_beq signs]
    exact beq_self_eq_true _
  · cases signs

/-- Over a faultless store a sweep reports the transactions it was handed, and has POSTed what
each submission key stands for once, with one transaction a body, exactly when its share holds
each order once and no poll asked for an order the sweep had an answer for and no marker. -/
theorem one_post_per_key {out : Except Fault RunReport}
    (run : Exec (machine S) (Faultless R) (k.run tick).run w₀ (.done out) w) :
    ∃ report, out = .ok report ∧ report.unsigned = surfaced (since w₀ w) ∧
      (OncePerKey (since w₀ w) ↔
        FiledOnce k tick w₀.store ∧ NotAskedAgain k w₀.store (since w₀ w)) := by
  obtain ⟨report, reported⟩ := run_reports run
  obtain ⟨steps, returned⟩ := run_keeps.exec run
  obtain ⟨rests, swept, unsigned⟩ := returned report reported
  have path : Path (Faultless R) k tick w₀ w := steps
  refine ⟨report, reported, unsigned, ?_, ?_⟩
  · intro once
    exact ⟨path.filed_once swept once, path.not_asked_again rests once⟩
  · rintro ⟨filed, clean⟩
    refine ⟨path.bound filed clean, ?_⟩
    intro body
    have bound := path.bound filed clean (submissionKey k.venue body)
    have replied := path.replied (submissionKey k.venue body)
    have signed := signs_le_answers path.own_venue body
    omega

end Paths

open scoped MemStore

/-- A sweep that submits one order. -/
theorem one_post_per_key_stub : ∃ (out : Except Fault RunReport) (w : World MemStore),
    (since stubWorld w).countP (Event.posts (submissionKey stubKeeper.venue stubBody)) = 1 ∧
      ∃ report, out = .ok report ∧ report.unsigned = surfaced (since stubWorld w) ∧
        (OncePerKey (since stubWorld w) ↔ FiledOnce stubKeeper stubTick stubWorld.store ∧
          NotAskedAgain stubKeeper stubWorld.store (since stubWorld w)) := by
  have passed : sweeps (Faultless anyRely) stubKeeper stubTick acceptedSweep stubWorld
      (fun _ w => (since stubWorld w).countP
        (Event.posts (submissionKey stubKeeper.venue stubBody)) == 1) = true := by decide
  obtain ⟨report, w, run, posted⟩ := Exec.of_sweeps passed
  exact ⟨_, w, eq_of_beq posted, one_post_per_key run⟩

def stubTx : UnsignedTx := ⟨1, [17], [], [254]⟩

/-- The reconcile pass is handed a transaction for the stranded order, and releases it; the
poll of the same tick asks for the order again. -/
def signedSweep : List (Input MemStore.Edit) :=
  [.ok, .sent false, .answered (.ok (.requiresSigning stubTx)), .ok, .ok, .ok, .ok,
    .polled (.submit stubBody) [], .ok, .ok, .sent false,
    .answered (.ok (.requiresSigning stubTx)), .ok]

def strandedWorld : World MemStore :=
  lived anyRely anyCall [(.run stubKeeper stubTick, strandedSweep)] stubWorld

/-- One sweep POSTs the stranded order twice and reports its transaction twice. -/
theorem posted_twice : ∃ (report : RunReport) (w : World MemStore),
    Exec (machine MemStore) (Faultless anyRely) (stubKeeper.run stubTick).run strandedWorld
      (.done (.ok report)) w ∧
    report.unsigned = [stubTx, stubTx] ∧
    (since strandedWorld w).countP (Event.posts (submissionKey stubKeeper.venue stubBody)) = 2 ∧
    ¬ OncePerKey (since strandedWorld w) := by
  have passed : sweeps (Faultless anyRely) stubKeeper stubTick signedSweep strandedWorld
      (fun report w => report.unsigned == [stubTx, stubTx] && (since strandedWorld w).countP
        (Event.posts (submissionKey stubKeeper.venue stubBody)) == 2) = true := by decide
  obtain ⟨report, w, run, test⟩ := Exec.of_sweeps passed
  obtain ⟨unsigned, twice⟩ := Bool.and_eq_true_iff.mp test
  refine ⟨report, w, run, eq_of_beq unsigned, eq_of_beq twice, ?_⟩
  intro once
  have bound := once.1 (submissionKey stubKeeper.venue stubBody)
  rw [eq_of_beq twice] at bound
  omega

end Videre.Sdk
