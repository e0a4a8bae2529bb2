import Mathlib.Data.Finset.Sort
import Videre.Host.Steps

/-! # The install-time handshake

Routing and admission read the installed entries and the shared flags. Both say
what the history of host calls says: the last registration of a venue that went
through, and the last mark on the flag it was registered with.
-/

namespace Videre.Host

open Interaction

/-! ## Body versions -/

def manifestSection : String := "venue"

/-- Keeper-side `[venue]`: the one body-schema version it encodes. -/
structure KeeperSection where
  bodyVersion : UInt32
  deriving DecidableEq, Repr

/-- A manifest's values and their reading as a keeper's section, with its refusal. -/
structure Manifest where
  Value : Type
  tryInto : Value → Except String KeeperSection

variable (M : Manifest)

/-- Parse one `[venue]` value, tagging failures with the owner. -/
def parse (owner : String) (value : M.Value) : Except String KeeperSection :=
  match M.tryInto value with
  | .ok parsed => .ok parsed
  | .error e => .error (owner ++ " [venue]: " ++ e)

def debugVersions (versions : Finset UInt32) : String :=
  "\x7b" ++ ", ".intercalate (((versions.image UInt32.toNat).sort (· ≤ ·)).map toString) ++ "\x7d"

def refuse (worker : String) (bodyVersion : UInt32) (decoded : String) : String :=
  "keeper " ++ worker ++ " encodes body version " ++ toString bodyVersion.toNat ++ "; " ++ decoded

/-- Refuse at the first declaring venue that does not decode the version. -/
def checkVenues (worker : String) (bodyVersion : UInt32) :
    List (VenueId × Finset UInt32) → Except String Unit
  | [] => .ok ()
  | (venue, versions) :: rest =>
      if bodyVersion ∈ versions then checkVenues worker bodyVersion rest
      else
        .error (refuse worker bodyVersion (venue.asStr ++ " decodes " ++ debugVersions versions))

/-- A venue with an empty set has opted out of the handshake. -/
def declaring (registered : List (VenueId × Finset UInt32)) : List (VenueId × Finset UInt32) :=
  registered.filter fun entry => entry.2 ≠ ∅

def admitWorker (worker : String) (sections : String → Option M.Value)
    (registered : List (VenueId × Finset UInt32)) : Except String Unit :=
  match sections manifestSection with
  | none => .ok ()
  | some value =>
      match parse M worker value with
      | .error e => .error e
      | .ok ⟨bodyVersion⟩ =>
          if (declaring registered).isEmpty then
            .error (refuse worker bodyVersion "no registered venue declares [venue] body_versions")
          else checkVenues worker bodyVersion (declaring registered)

def Registry.bodyVersions (r : Registry) : List (VenueId × Finset UInt32) :=
  r.adapters.entries.map fun entry => (entry.1, entry.2.bodyVersions)

def Decoded (bodyVersion : UInt32) (declared : VenueId → Option (Finset UInt32)) : Prop :=
  (∃ venue versions, declared venue = some versions ∧ versions.Nonempty) ∧
    ∀ venue versions, declared venue = some versions → versions.Nonempty →
      bodyVersion ∈ versions

theorem Decoded.congr {bodyVersion : UInt32} {declared declared' : VenueId → Option (Finset UInt32)}
    (same : ∀ venue versions, versions.Nonempty →
      (declared venue = some versions ↔ declared' venue = some versions)) :
    Decoded bodyVersion declared ↔ Decoded bodyVersion declared' := by
  constructor
  · rintro ⟨⟨venue, versions, found, nonempty⟩, decoded⟩
    exact ⟨⟨venue, versions, (same _ _ nonempty).mp found, nonempty⟩,
      fun v s h n => decoded v s ((same _ _ n).mpr h) n⟩
  · rintro ⟨⟨venue, versions, found, nonempty⟩, decoded⟩
    exact ⟨⟨venue, versions, (same _ _ nonempty).mpr found, nonempty⟩,
      fun v s h n => decoded v s ((same _ _ n).mp h) n⟩

/-! ## The history of host calls -/

inductive Record
  | registered (venue : VenueId) (installed : InstalledVenue)
  | marked (liveness : Liveness) (alive : Bool)
  deriving DecidableEq

def recordOf : HostEvent → Registry → List Record
  | .elapse _, _ => []
  | .register venue liveness bodyVersions, r =>
      match r.register venue liveness bodyVersions with
      | .ok _ => [.registered venue ⟨r.slots, liveness, bodyVersions⟩]
      | .error _ => []
  | .markDead liveness, _ => [.marked liveness false]
  | .markAlive liveness, _ => [.marked liveness true]

/-- The calls made on a registry one after another, and what they did. -/
def compose (start : Nat) (calls : List HostEvent) : List Record × Registry :=
  calls.foldl (fun (h, r) call => (h ++ recordOf call r, (host call r).2)) ([], Registry.new start)

/-- The last record `read` speaks of, as it reads it. -/
def latestOf {α : Type} (read : Record → Option α) (h : List Record) : Option α :=
  h.reverse.findSome? read

def Record.registers (venue : VenueId) : Record → Option InstalledVenue
  | .registered v installed => if v = venue then some installed else none
  | .marked _ _ => none

def Record.marks (liveness : Liveness) : Record → Option Bool
  | .registered _ _ => none
  | .marked l alive => if l = liveness then some alive else none

def Record.adapter : Record → Option Slot
  | .registered _ installed => some installed.slot
  | .marked _ _ => none

/-- The latest registration of a venue that went through. -/
def latest (h : List Record) (venue : VenueId) : Option InstalledVenue :=
  latestOf (Record.registers venue) h

/-- A flag is made alive; after that its last mark stands. -/
def alive (h : List Record) (liveness : Liveness) : Bool :=
  (latestOf (Record.marks liveness) h).getD true

/-- The version set of a venue's latest registration, dead or not. -/
def declared (h : List Record) (venue : VenueId) : Option (Finset UInt32) :=
  (latest h venue).map (·.bodyVersions)

/-! ## Admission reads the version sets alone -/

section Admission

variable {worker : String} {bodyVersion : UInt32} {sections : String → Option M.Value}
  {value : M.Value} {registered others : List (VenueId × Finset UInt32)}

theorem checkVenues_ok_iff :
    checkVenues worker bodyVersion registered = .ok () ↔
      ∀ entry ∈ registered, bodyVersion ∈ entry.2 := by
  induction registered with
  | nil => simp [checkVenues]
  | cons entry rest ih =>
      by_cases decodes : bodyVersion ∈ entry.2
      · simp [checkVenues, decodes, ih]
      · simp [checkVenues, decodes]

theorem mem_declaring {entry : VenueId × Finset UInt32} :
    entry ∈ declaring registered ↔ entry ∈ registered ∧ entry.2.Nonempty := by
  simp [declaring, Finset.nonempty_iff_ne_empty]

theorem admitWorker_ok_iff (given : sections manifestSection = some value)
    (parsed : M.tryInto value = .ok ⟨bodyVersion⟩) :
    admitWorker M worker sections registered = .ok () ↔
      (∃ entry ∈ registered, entry.2.Nonempty) ∧
        ∀ entry ∈ registered, entry.2.Nonempty → bodyVersion ∈ entry.2 := by
  have some_declares : (declaring registered).isEmpty = false ↔
      ∃ entry ∈ registered, entry.2.Nonempty := by
    rw [List.isEmpty_eq_false_iff_exists_mem]
    simp only [mem_declaring]
  simp only [admitWorker, given, parse, parsed]
  cases none_declares : (declaring registered).isEmpty with
  | true =>
      have absent : ¬ ∃ entry ∈ registered, entry.2.Nonempty := by
        rw [← some_declares, none_declares]
        decide
      simp [absent]
  | false =>
      have present := some_declares.mp none_declares
      simp only [Bool.false_eq_true, if_false, checkVenues_ok_iff, mem_declaring, present,
        true_and, and_imp]

/-- Admission does not depend on the order the map lists its entries in. -/
theorem admitWorker_perm (same : others.Perm registered) :
    admitWorker M worker sections others = .ok () ↔
      admitWorker M worker sections registered = .ok () := by
  cases given : sections manifestSection with
  | none => simp [admitWorker, given]
  | some value =>
      cases parsed : M.tryInto value with
      | error e => simp [admitWorker, given, parse, parsed]
      | ok keeper =>
          rw [admitWorker_ok_iff M given parsed, admitWorker_ok_iff M given parsed]
          simp only [same.mem_iff]

end Admission

/-! ## The registry reads as its history -/

section History

variable {h : List Record} {r r' : Registry}

theorem latestOf_append {α : Type} (read : Record → Option α) (h new : List Record) :
    latestOf read (h ++ new) = (latestOf read new).or (latestOf read h) := by
  unfold latestOf
  rw [List.reverse_append, List.findSome?_append]

theorem latest_append (new : List Record) (venue : VenueId) :
    latest (h ++ new) venue = (latest new venue).or (latest h venue) :=
  latestOf_append _ h new

theorem latest_eq_none_iff {venue : VenueId} :
    latest h venue = none ↔ ∀ installed, .registered venue installed ∉ h := by
  simp only [latest, latestOf, List.findSome?_eq_none_iff, List.mem_reverse]
  constructor
  · intro unread installed member
    have := unread _ member
    simp [Record.registers] at this
  · intro absent record member
    cases record with
    | marked liveness alive => rfl
    | registered v installed =>
        by_cases same : v = venue
        · subst same
          exact absurd member (absent installed)
        · exact if_neg same

theorem alive_append (new : List Record) (liveness : Liveness) :
    alive (h ++ new) liveness = (latestOf (Record.marks liveness) new).getD (alive h liveness) := by
  unfold alive
  rw [latestOf_append]
  cases latestOf (Record.marks liveness) new <;> rfl

/-- The history says what is installed, which flags are alive and which adapters are taken. -/
structure ReadsAs (h : List Record) (r : Registry) : Prop where
  installed : ∀ venue, r.adapters.lookup venue = latest h venue
  flags : ∀ liveness, (r.flags liveness).isAlive = alive h liveness
  adapters : h.filterMap Record.adapter = List.range r.slots

theorem ReadsAs.register (reads : ReadsAs h r) (venue : VenueId) (liveness : Liveness)
    (bodyVersions : Finset UInt32) :
    ReadsAs (h ++ [.registered venue ⟨r.slots, liveness, bodyVersions⟩])
      { r with
        adapters := r.adapters.insert venue ⟨r.slots, liveness, bodyVersions⟩
        slots := r.slots + 1 } := by
  constructor
  · intro v
    rw [latest_append]
    by_cases same : v = venue
    · subst same
      simp [AList.lookup_insert, latest, latestOf, Record.registers]
    · have other : venue ≠ v := fun h => same h.symm
      simp [AList.lookup_insert_ne same, reads.installed v, latest, latestOf, Record.registers,
        other]
  · intro l
    rw [alive_append]
    exact reads.flags l
  · rw [List.filterMap_append, reads.adapters, List.range_succ]
    rfl

theorem ReadsAs.mark (reads : ReadsAs h r) {liveness : Liveness} {flag : Flag} {mark : Bool}
    (marks : flag.isAlive = mark) :
    ReadsAs (h ++ [.marked liveness mark])
      { r with flags := Function.update r.flags liveness flag } := by
  constructor
  · intro v
    rw [latest_append]
    exact reads.installed v
  · intro l
    rw [alive_append]
    by_cases same : l = liveness
    · subst same
      simp [latestOf, Record.marks, marks]
    · have other : liveness ≠ l := fun h => same h.symm
      simp [latestOf, Record.marks, same, other, reads.flags l]
  · rw [List.filterMap_append, reads.adapters]
    exact List.append_nil _

theorem ReadsAs.host (reads : ReadsAs h r) (call : HostEvent) :
    ReadsAs (h ++ recordOf call r) (Host.host call r).2 := by
  cases call with
  | elapse nanos =>
      rw [recordOf, List.append_nil]
      exact ⟨reads.installed, reads.flags, reads.adapters⟩
  | register venue liveness bodyVersions =>
      cases registered : r.register venue liveness bodyVersions with
      | error e =>
          simp only [recordOf, Host.host, registered, List.append_nil]
          exact reads
      | ok r' =>
          simp only [recordOf, Host.host, registered]
          rw [register_frame registered]
          exact reads.register venue liveness bodyVersions
  | markDead liveness => exact reads.mark (Flag.isAlive_markDead r.now (r.flags liveness))
  | markAlive liveness => exact reads.mark (Flag.isAlive_markAlive (r.flags liveness))

theorem ReadsAs.calls (reads : ReadsAs h r) (calls : List HostEvent) :
    let after := calls.foldl (fun (h, r) call => (h ++ recordOf call r, (Host.host call r).2)) (h, r)
    ReadsAs after.1 after.2 := by
  induction calls generalizing h r with
  | nil => exact reads
  | cons call calls ih => exact ih (reads.host call)

theorem compose_reads (start : Nat) (calls : List HostEvent) :
    ReadsAs (compose start calls).1 (compose start calls).2 :=
  ReadsAs.calls ⟨fun _ => rfl, fun _ => rfl, rfl⟩ calls

theorem ReadsAs.mem_bodyVersions (reads : ReadsAs h r) {venue : VenueId}
    {versions : Finset UInt32} :
    (venue, versions) ∈ r.bodyVersions ↔ declared h venue = some versions := by
  unfold declared
  rw [← reads.installed, Option.map_eq_some_iff]
  simp only [Registry.bodyVersions, List.mem_map, Prod.mk.injEq]
  constructor
  · rintro ⟨⟨v, installed⟩, member, hv, hversions⟩
    subst hv
    exact ⟨installed, AList.mem_lookup_iff.mpr member, hversions⟩
  · rintro ⟨installed, found, hversions⟩
    exact ⟨⟨venue, installed⟩, AList.mem_lookup_iff.mp found, rfl, hversions⟩

def Incumbent (h : List Record) (venue : VenueId) : Prop :=
  ∃ installed, latest h venue = some installed ∧ alive h installed.liveness = true

theorem ReadsAs.register_error_iff (reads : ReadsAs h r) (venue : VenueId) (liveness : Liveness)
    (bodyVersions : Finset UInt32) (e : DuplicateVenue) :
    r.register venue liveness bodyVersions = .error e ↔ Incumbent h venue ∧ e = ⟨venue⟩ := by
  have incumbent : ((r.adapters.lookup venue).any fun v => (r.flags v.liveness).isAlive) = true ↔
      Incumbent h venue := by
    simp only [Incumbent, reads.installed, Option.any_eq_true, reads.flags]
  unfold Registry.register
  by_cases taken : Incumbent h venue
  · rw [if_pos (incumbent.mpr taken), Except.error.injEq]
    exact ⟨fun he => ⟨taken, he.symm⟩, fun he => he.2.symm⟩
  · rw [if_neg fun h => taken (incumbent.mp h)]
    simp [taken]

theorem ReadsAs.resolve (reads : ReadsAs h r) (venue : VenueId) :
    r.resolve venue =
      match latest h venue with
      | none => .error .unknownVenue
      | some installed =>
          if alive h installed.liveness then .ok installed.slot
          else .error (.unavailable ("venue " ++ venue.asStr ++ " is dead pending restart")) := by
  unfold Registry.resolve
  rw [reads.installed]
  cases latest h venue with
  | none => rfl
  | some installed =>
      dsimp only
      rw [reads.flags]

theorem ReadsAs.admits_iff (M : Manifest) (reads : ReadsAs h r) {worker : String}
    {sections : String → Option M.Value} {value : M.Value} {bodyVersion : UInt32}
    {registered : List (VenueId × Finset UInt32)} (given : sections manifestSection = some value)
    (parsed : M.tryInto value = .ok ⟨bodyVersion⟩) (listed : registered.Perm r.bodyVersions) :
    admitWorker M worker sections registered = .ok () ↔ Decoded bodyVersion (declared h) := by
  rw [admitWorker_perm M listed, admitWorker_ok_iff M given parsed]
  simp only [Prod.exists, Prod.forall, reads.mem_bodyVersions, Decoded]

end History

/-! ## Routing and admission follow the latest registration -/

/-- What callers and keepers meet is settled by the latest registrations and marks. -/
structure FollowsLatest (M : Manifest) (h : List Record) (r : Registry) : Prop where
  refused : ∀ venue liveness bodyVersions,
    (∃ e, r.register venue liveness bodyVersions = .error e) ↔ Incumbent h venue
  unchanged : ∀ venue liveness bodyVersions e,
    r.register venue liveness bodyVersions = .error e →
      e = ⟨venue⟩ ∧ host (.register venue liveness bodyVersions) r = ([.duplicate venue], r)
  unknown : ∀ venue, r.resolve venue = .error .unknownVenue ↔
    ∀ installed, .registered venue installed ∉ h
  unavailable : ∀ venue, (∃ text, r.resolve venue = .error (.unavailable text)) ↔
    ∃ installed, latest h venue = some installed ∧ alive h installed.liveness = false
  routed : ∀ venue slot, r.resolve venue = .ok slot ↔
    ∃ installed, latest h venue = some installed ∧ alive h installed.liveness = true ∧
      installed.slot = slot
  /-- No two registrations share an adapter. -/
  apart : (h.filterMap Record.adapter).Nodup
  admitted : ∀ worker sections value bodyVersion registered,
    sections manifestSection = some value → M.tryInto value = .ok ⟨bodyVersion⟩ →
      registered.Perm r.bodyVersions →
        (admitWorker M worker sections registered = .ok () ↔ Decoded bodyVersion (declared h))
  optedOut : ∀ worker sections venue liveness r' others registered,
    r.register venue liveness ∅ = .ok r' →
      others.Perm (r.bodyVersions.filter fun entry => entry.1 ≠ venue) →
        registered.Perm r'.bodyVersions → admitWorker M worker sections others = .ok () →
          admitWorker M worker sections registered = .ok ()

theorem ReadsAs.opted_out (M : Manifest) {h : List Record} {r r' : Registry}
    (reads : ReadsAs h r) {worker : String} {sections : String → Option M.Value} {venue : VenueId}
    {liveness : Liveness} {others : List (VenueId × Finset UInt32)}
    (registers : r.register venue liveness ∅ = .ok r')
    (rest : others.Perm (r.bodyVersions.filter fun entry => entry.1 ≠ venue))
    (admits : admitWorker M worker sections others = .ok ()) :
    admitWorker M worker sections r'.bodyVersions = .ok () := by
  have after : ReadsAs (h ++ [.registered venue ⟨r.slots, liveness, ∅⟩]) r' := by
    rw [register_frame registers]
    exact reads.register venue liveness ∅
  have same : ∀ v versions, versions.Nonempty →
      ((v, versions) ∈ r'.bodyVersions ↔ (v, versions) ∈ others) := by
    intro v versions nonempty
    rw [rest.mem_iff, List.mem_filter, reads.mem_bodyVersions, after.mem_bodyVersions]
    unfold declared
    rw [latest_append]
    by_cases here : v = venue
    · subst here
      simp [latest, latestOf, Record.registers, nonempty.ne_empty.symm]
    · have other : venue ≠ v := fun h => here h.symm
      simp [latest, latestOf, Record.registers, here, other]
  cases given : sections manifestSection with
  | none => simp [admitWorker, given]
  | some value =>
      cases parsed : M.tryInto value with
      | error e => simp [admitWorker, given, parse, parsed] at admits
      | ok keeper =>
          rw [admitWorker_ok_iff M given parsed] at admits ⊢
          obtain ⟨⟨⟨v, versions⟩, member, nonempty⟩, decoded⟩ := admits
          constructor
          · exact ⟨(v, versions), (same v versions nonempty).mpr member, nonempty⟩
          · rintro ⟨v, versions⟩ member nonempty
            exact decoded _ ((same v versions nonempty).mp member) nonempty

theorem ReadsAs.follows (M : Manifest) {h : List Record} {r : Registry} (reads : ReadsAs h r) :
    FollowsLatest M h r where
  refused venue liveness bodyVersions := by
    simp only [reads.register_error_iff]
    exact ⟨fun ⟨_, taken, _⟩ => taken, fun taken => ⟨_, taken, rfl⟩⟩
  unchanged venue liveness bodyVersions e failed := by
    obtain ⟨_, he⟩ := (reads.register_error_iff venue liveness bodyVersions e).mp failed
    refine ⟨he, ?_⟩
    rw [Host.host, failed]
  unknown venue := by
    rw [← latest_eq_none_iff, reads.resolve]
    cases latest h venue with
    | none => simp
    | some installed =>
        dsimp only
        split <;> simp
  unavailable venue := by
    rw [reads.resolve]
    cases latest h venue with
    | none => simp
    | some installed => cases lives : alive h installed.liveness <;> simp [lives]
  routed venue slot := by
    rw [reads.resolve]
    cases latest h venue with
    | none => simp
    | some installed => cases lives : alive h installed.liveness <;> simp [lives]
  apart := by
    rw [reads.adapters]
    exact List.nodup_range
  admitted worker sections value bodyVersion registered given parsed listed :=
    reads.admits_iff M given parsed listed
  optedOut worker sections venue liveness r' others registered registers rest listed admits :=
    (admitWorker_perm M listed).mpr (reads.opted_out M registers rest admits)

/-- After any registrations and marks, routing and admission follow the latest registration
of each venue; admission reads nothing else of the history. -/
theorem routing_follows_latest (M : Manifest) (start : Nat) (calls : List HostEvent) :
    FollowsLatest M (compose start calls).1 (compose start calls).2 ∧
      ∀ start' calls', (∀ venue versions, versions.Nonempty →
          (declared (compose start calls).1 venue = some versions ↔
            declared (compose start' calls').1 venue = some versions)) →
        ∀ worker sections registered registered',
          registered.Perm (compose start calls).2.bodyVersions →
            registered'.Perm (compose start' calls').2.bodyVersions →
              (admitWorker M worker sections registered = .ok () ↔
                admitWorker M worker sections registered' = .ok ()) := by
  have reads := compose_reads start calls
  refine ⟨reads.follows M, ?_⟩
  intro start' calls' same worker sections registered registered' listed listed'
  have reads' := compose_reads start' calls'
  cases given : sections manifestSection with
  | none => simp [admitWorker, given]
  | some value =>
      cases parsed : M.tryInto value with
      | error e => simp [admitWorker, given, parse, parsed]
      | ok keeper =>
          rw [reads.admits_iff M given parsed listed, reads'.admits_iff M given parsed listed']
          exact Decoded.congr same

example : admitWorker ⟨Unit, fun _ => .ok ⟨2⟩⟩ "keeper" (fun _ => some ())
    [(⟨"cow"⟩, ∅), (⟨"uni"⟩, {1, 2})] = .ok () := by
  decide

end Videre.Host
