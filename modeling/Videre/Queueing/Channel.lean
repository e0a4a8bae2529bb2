import Mathlib.Data.List.Basic

/-! # Bounded channels

A sender waits for room, a receiver takes from the front, and the receiving end may
be dropped with what is still queued. What the receiver took is a prefix of what was
sent, and all of it but the queue as long as the receiving end is there.
-/

namespace Queueing

variable {α : Type} {capacity : Nat}

structure Channel (α : Type) (capacity : Nat) where
  queue : List α
  receiving : Bool
  room : queue.length ≤ capacity
  dropped : receiving = false → queue = []

namespace Channel

def empty : Channel α capacity where
  queue := []
  receiving := true
  room := Nat.zero_le _
  dropped := fun _ => rfl

/-- Send one item; `none` while the sender waits for room, an error once the receiving end is
dropped. -/
def send (c : Channel α capacity) (item : α) : Option (Except Unit (Channel α capacity)) :=
  if c.receiving = true then
    if free : c.queue.length < capacity then
      some (.ok
        { queue := c.queue ++ [item]
          receiving := true
          room := by
            rw [List.length_append]
            exact free
          dropped := by
            intro gone
            cases gone })
    else none
  else some (.error ())

def recv (c : Channel α capacity) : Option (α × Channel α capacity) :=
  match h : c.queue with
  | item :: rest =>
      some (item,
        { queue := rest
          receiving := c.receiving
          room := by
            have := c.room
            rw [h, List.length_cons] at this
            omega
          dropped := by
            intro gone
            rw [c.dropped gone] at h
            cases h })
  | [] => none

def close (_ : Channel α capacity) : Channel α capacity where
  queue := []
  receiving := false
  room := Nat.zero_le _
  dropped := fun _ => rfl

theorem send_cases {c : Channel α capacity} {item : α}
    {result : Except Unit (Channel α capacity)} (sends : c.send item = some result) :
    (c.receiving = false ∧ result = .error ()) ∨
    (c.receiving = true ∧ ∃ c', result = .ok c' ∧ c'.queue = c.queue ++ [item] ∧
      c'.receiving = true) := by
  unfold send at sends
  by_cases there : c.receiving = true
  · rw [if_pos there] at sends
    split at sends
    next free =>
      cases sends
      exact .inr ⟨there, _, rfl, rfl, rfl⟩
    next => cases sends
  · rw [if_neg there] at sends
    cases sends
    exact .inl ⟨Bool.eq_false_iff.mpr there, rfl⟩

theorem send_of_free {c : Channel α capacity} (there : c.receiving = true)
    (free : c.queue.length < capacity) (item : α) :
    ∃ c', c.send item = some (.ok c') ∧ c'.queue = c.queue ++ [item] ∧ c'.receiving = true := by
  unfold send
  rw [if_pos there, dif_pos free]
  exact ⟨_, rfl, rfl, rfl⟩

theorem recv_spec {c c' : Channel α capacity} {item : α} (takes : c.recv = some (item, c')) :
    c.queue = item :: c'.queue ∧ c.receiving = true ∧ c'.receiving = true := by
  unfold recv at takes
  split at takes
  next first rest h =>
    cases takes
    have there : c.receiving = true := by
      by_contra gone
      rw [c.dropped (Bool.eq_false_iff.mpr gone)] at h
      cases h
    exact ⟨h, there, there⟩
  next => cases takes

theorem recv_of_cons {c : Channel α capacity} {item : α} {rest : List α}
    (queued : c.queue = item :: rest) :
    ∃ c', c.recv = some (item, c') ∧ c'.queue = rest ∧ c'.receiving = c.receiving := by
  unfold recv
  split
  next first later h =>
    rw [queued, List.cons.injEq] at h
    obtain ⟨rfl, rfl⟩ := h
    exact ⟨_, rfl, rfl, rfl⟩
  next h =>
    rw [queued] at h
    cases h

/-- Of the items `sent`, in order, the receiver took `taken`. -/
structure Carries (sent taken : List α) (c : Channel α capacity) : Prop where
  before : taken <+: sent
  whole : c.receiving = true → taken ++ c.queue = sent

theorem Carries.empty : Carries [] [] (empty : Channel α capacity) :=
  ⟨List.prefix_rfl, fun _ => rfl⟩

theorem Carries.send {sent taken : List α} {c c' : Channel α capacity} {item : α}
    (carries : Carries sent taken c) (sends : c.send item = some (.ok c')) :
    Carries (sent ++ [item]) taken c' := by
  constructor
  · exact carries.before.trans (List.prefix_append _ _)
  · intro _
    rcases send_cases sends with ⟨_, refused⟩ | ⟨there, c'', same, queued, _⟩
    · cases refused
    · cases same
      rw [queued, ← List.append_assoc, carries.whole there]

theorem Carries.recv {sent taken : List α} {c c' : Channel α capacity} {item : α}
    (carries : Carries sent taken c) (takes : c.recv = some (item, c')) :
    Carries sent (taken ++ [item]) c' := by
  obtain ⟨queued, there, _⟩ := recv_spec takes
  have whole : (taken ++ [item]) ++ c'.queue = sent := by
    rw [List.append_assoc, List.singleton_append, ← queued, carries.whole there]
  exact ⟨⟨c'.queue, whole⟩, fun _ => whole⟩

theorem Carries.close {sent taken : List α} {c : Channel α capacity}
    (carries : Carries sent taken c) : Carries sent taken c.close := by
  constructor
  · exact carries.before
  · intro there
    cases there

end Channel

end Queueing
