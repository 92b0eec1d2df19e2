import StreamBroker.Proofs.Cursor.Handed
import StreamBroker.Proofs.Except
import StreamBroker.Stream.Consumers

/-!
# The course of a consumer

A consumer is created on the messages that a stream has, and from then on messages come and go, and
the consumer collects, acknowledges and is given other settings, in any order and at any time.  An
event keeps the cursor as it was before, so that what was handed out and settled can be told from
the events alone.

## Main definitions

* `ConsumerSettings.IsAccepted`, `ConsumerSettings.MayBecome`: the settings of a new consumer, and
  what they may be changed to
* `CursorEvent`, `Cursor.Course`: what happened to a cursor, and what can happen
* `CursorEvent.Settles`: why an event settles a message
* `Course.handouts`, `Course.settled`, `Course.dueAt`: what was handed out and settled, and when a
  delivery is due

## Main results

* `ConsumerSettings.MayBecome.fixed_eq`: what a change of the settings leaves as it is
-/

namespace StreamBroker

/-! ## Settings -/

namespace ConsumerSettings

variable {current settings : ConsumerSettings}

/-- The settings of a consumer that is created: acceptable ones, with what they leave open filled
in. -/
def IsAccepted (settings : ConsumerSettings) : Prop :=
  ∃ (asked : ConsumerSettings) (name : Option String) (defaults : BrokerSettings),
    asked.check = .ok () ∧ settings = withDefaults { asked with name } defaults

/-- The settings that a consumer may be given instead of others: acceptable ones that keep what is
fixed. -/
def MayBecome (current settings : ConsumerSettings) : Prop :=
  ∃ (asked : ConsumerSettings) (name : Option String) (defaults : BrokerSettings) (who : String),
    asked.check = .ok () ∧
      settings = Stream.wantedSettings { asked with name } current defaults ∧
      Stream.checkChange who current settings = .ok ()

theorem ne_zero_of_checkPositive {l : List (String × Option Nat)} (h : checkPositive l = .ok ()) :
    ∀ x ∈ l, x.2 ≠ some 0 := by
  induction l with
  | nil => exact fun x hx => nomatch hx
  | cons x l ih =>
    rw [checkPositive] at h
    split at h
    · cases h
    · next hne => exact List.forall_mem_cons.2 ⟨hne, ih h⟩

/-- Of the numbers in acceptable settings none is zero. -/
theorem checkPositive_of_check (h : settings.check = .ok ()) : checkPositive [
    ("max_deliver", settings.maxDeliver), ("max_ack_pending", settings.maxAckPending),
    ("max_waiting", settings.maxWaiting), ("max_batch", settings.maxBatch),
    ("max_bytes", settings.maxBytes)] = .ok () := by
  rw [check] at h
  obtain ⟨⟨⟩, -, h⟩ := except_bind_eq_ok.1 h
  -- Whatever the name and the filter are, the numbers are looked at in the end.
  have hnumbers {f : Unit → Except Error Unit} {x : Except Error Unit} (h : (x >>= f) = .ok ()) :
      x = .ok () := by
    obtain ⟨⟨⟩, h, -⟩ := except_bind_eq_ok.1 h
    exact h
  dsimp only at h
  split at h
  · obtain ⟨⟨⟩, -, h⟩ := except_bind_eq_ok.1 h
    split at h
    · obtain ⟨⟨⟩, -, h⟩ := except_bind_eq_ok.1 h
      exact hnumbers h
    · exact hnumbers h
  · split at h
    · obtain ⟨⟨⟩, -, h⟩ := except_bind_eq_ok.1 h
      exact hnumbers h
    · exact hnumbers h

theorem maxDeliver_of_check (h : settings.check = .ok ()) : settings.maxDeliver ≠ some 0 :=
  ne_zero_of_checkPositive (checkPositive_of_check h) ("max_deliver", settings.maxDeliver)
    List.mem_cons_self

theorem maxBatch_of_check (h : settings.check = .ok ()) : settings.maxBatch ≠ some 0 :=
  ne_zero_of_checkPositive (checkPositive_of_check h) ("max_batch", settings.maxBatch) (by simp)

theorem IsAccepted.maxDeliver_ne (h : settings.IsAccepted) : settings.maxDeliver ≠ some 0 := by
  obtain ⟨asked, name, defaults, hcheck, rfl⟩ := h
  have hne := maxDeliver_of_check hcheck
  exact hne

theorem MayBecome.maxDeliver_ne (h : current.MayBecome settings) :
    settings.maxDeliver ≠ some 0 := by
  obtain ⟨asked, name, defaults, who, hcheck, rfl, -⟩ := h
  have hne := maxDeliver_of_check hcheck
  exact hne

theorem IsAccepted.maxBatch_ne (h : settings.IsAccepted) : settings.maxBatch ≠ some 0 := by
  obtain ⟨asked, name, defaults, hcheck, rfl⟩ := h
  have hne := maxBatch_of_check hcheck
  exact hne

theorem MayBecome.maxBatch_ne (h : current.MayBecome settings) : settings.maxBatch ≠ some 0 := by
  obtain ⟨asked, name, defaults, who, hcheck, rfl, -⟩ := h
  have hne := maxBatch_of_check hcheck
  exact hne

/-- What a change of the settings leaves as it is. -/
theorem fixed_of_checkChange {who : String} (h : Stream.checkChange who current settings = .ok ()) :
    settings.ackPolicy = current.ackPolicy ∧ settings.deliverPolicy = current.deliverPolicy ∧
      settings.maxWaiting = current.maxWaiting := by
  rw [Stream.checkChange] at h
  split at h
  · cases h
  · next hwaiting =>
    dsimp only at h
    split at h
    · cases h
    · next hfixed =>
      rw [not_or, not_or, Classical.not_not, Classical.not_not] at hfixed
      exact ⟨hfixed.1, hfixed.2.1, Classical.not_not.1 hwaiting⟩

theorem MayBecome.fixed_eq (h : current.MayBecome settings) :
    settings.ackPolicy = current.ackPolicy ∧ settings.deliverPolicy = current.deliverPolicy := by
  obtain ⟨asked, name, defaults, who, -, -, hchange⟩ := h
  obtain ⟨hack, hdeliver, -⟩ := fixed_of_checkChange hchange
  exact ⟨hack, hdeliver⟩

/-- How many pulls may wait is not changed. -/
theorem MayBecome.maxWaiting_eq (h : current.MayBecome settings) :
    settings.maxWaiting = current.maxWaiting := by
  obtain ⟨asked, name, defaults, who, -, -, hchange⟩ := h
  exact (fixed_of_checkChange hchange).2.2

/-- Settings are kept, or changed as they may. -/
def Becomes (current settings : ConsumerSettings) : Prop :=
  settings = current ∨ current.MayBecome settings

theorem Becomes.refl (settings : ConsumerSettings) : settings.Becomes settings := .inl rfl

theorem Becomes.maxWaiting_eq (h : current.Becomes settings) :
    settings.maxWaiting = current.maxWaiting := by
  rcases h with rfl | h
  · rfl
  · exact h.maxWaiting_eq

theorem Becomes.maxBatch_ne (h : current.Becomes settings) (hne : current.maxBatch ≠ some 0) :
    settings.maxBatch ≠ some 0 := by
  rcases h with rfl | h
  · exact hne
  · exact h.maxBatch_ne

end ConsumerSettings

/-! ## Events -/

/-- What happened to a cursor and the messages that it goes through. -/
inductive CursorEvent where
  /-- A message came. -/
  | stored (m : StoredMessage)
  /-- Messages went when the cursor was like this. -/
  | removed (before : Cursor) (gone : List Nat)
  /-- The cursor was like this and collected from the messages that there were. -/
  | collected (before : Cursor) (x : Index) (l : Cursor.Limits) (now : Instant)
  /-- The cursor was like this and noted an acknowledgement. -/
  | acknowledged (before : Cursor) (n : Nat) (kind : AckKind) (now : Instant)
  /-- The cursor was like this and was given other settings. -/
  | configured (before : Cursor) (settings : ConsumerSettings)

namespace CursorEvent

/-- What an event hands out. -/
def handouts : CursorEvent → List Delivery
  | collected before x l now => (before.collect x l now).2.deliveries
  | _ => []

/-- The numbers that an event settles. -/
def settled : CursorEvent → List Nat
  | collected before x l now => (before.collect x l now).2.settled
  | acknowledged before n kind now => (before.acknowledge n kind now).1
  | _ => []

/-- When a delivery is due after an event that puts it off: after the wait for an acknowledgement
when it is handed out or takes more time, and after the wait that is asked for when it failed. -/
def putsOff (n : Nat) : CursorEvent → Option Instant
  | collected before x l now =>
    if n ∈ (before.collect x l now).2.deliveries.map Delivery.sequence then
      some (now.after before.settings.ackWaitOrDefault)
    else none
  | acknowledged before k .inProgress now =>
    if n = k then some (now.after before.settings.ackWaitOrDefault) else none
  | acknowledged _ k (.nak delay) now =>
    if n = k then some (now.after (delay.getD Duration.zero)) else none
  | _ => none

/-- Why an event settles a message: an acknowledgement covers it, it was due but delivered as often
as is allowed, or it was handed out without being to be acknowledged. -/
def Settles (n : Nat) : CursorEvent → Prop
  | acknowledged before k kind _ => before.Covers k kind n
  | collected before x l now => before.IsSpent now n ∨
      before.settings.ackPolicy = .none ∧
        n ∈ (before.collect x l now).2.deliveries.map Delivery.sequence
  | _ => False

end CursorEvent

/-- What holds of all events holds of those that there were and of the last one. -/
theorem forall_mem_concat {α : Type} {p : α → Prop} {as : List α} {a : α} :
    (∀ b ∈ as ++ [a], p b) ↔ (∀ b ∈ as, p b) ∧ p a := by
  rw [List.forall_mem_append, List.forall_mem_singleton]

namespace Cursor

/-! ## Courses -/

/-- What can happen to the cursor of a consumer that is created with some settings on the messages
of an index.  Whether pulls wait is not an event. -/
inductive Course (settings : ConsumerSettings) (x₀ : Index) :
    List CursorEvent → Index → Cursor → Prop where
  | created {now : Instant} (hx : x₀.Filed) (h : settings.IsAccepted) :
      Course settings x₀ [] x₀ (start settings x₀ now)
  | stored {events : List CursorEvent} {x : Index} {c : Cursor} {m : StoredMessage}
      (course : Course settings x₀ events x c) (hnext : m.sequence = x.lastSeq + 1) :
      Course settings x₀ (events ++ [.stored m]) (x.commit m) c
  | removed {events : List CursorEvent} {x y : Index} {c : Cursor} {gone : List Nat}
      (course : Course settings x₀ events x c) (h : x.Loses gone y) :
      Course settings x₀ (events ++ [.removed c gone]) y c
  | collected {events : List CursorEvent} {x : Index} {c : Cursor}
      (course : Course settings x₀ events x c) (l : Limits) (now : Instant) :
      Course settings x₀ (events ++ [.collected c x l now]) x (c.collect x l now).1
  | acknowledged {events : List CursorEvent} {x : Index} {c : Cursor}
      (course : Course settings x₀ events x c) (n : Nat) (kind : AckKind) (now : Instant) :
      Course settings x₀ (events ++ [.acknowledged c n kind now]) x (c.acknowledge n kind now).2
  | configured {events : List CursorEvent} {x : Index} {c : Cursor} {wanted : ConsumerSettings}
      (course : Course settings x₀ events x c) (h : c.settings.MayBecome wanted) :
      Course settings x₀ (events ++ [.configured c wanted]) x { c with settings := wanted }
  | attended {events : List CursorEvent} {x : Index} {c : Cursor}
      (course : Course settings x₀ events x c) (waiting : Nat) (now : Instant) :
      Course settings x₀ events x { c with waiting, lastActive := now }

namespace Course

/-- What was handed out, in order. -/
def handouts (events : List CursorEvent) : List Delivery := events.flatMap CursorEvent.handouts

/-- The numbers of the messages that were handed out, in order. -/
def handedOut (events : List CursorEvent) : List Nat := (handouts events).map Delivery.sequence

/-- The numbers that were settled. -/
def settled (events : List CursorEvent) : List Nat := events.flatMap CursorEvent.settled

/-- When a delivery is due, by the last event that put it off. -/
def dueAt (events : List CursorEvent) (n : Nat) : Option Instant :=
  (events.filterMap (CursorEvent.putsOff n)).getLast?

theorem handouts_concat (events : List CursorEvent) (e : CursorEvent) :
    handouts (events ++ [e]) = handouts events ++ e.handouts := by
  simp [handouts]

theorem handedOut_concat (events : List CursorEvent) (e : CursorEvent) :
    handedOut (events ++ [e]) = handedOut events ++ e.handouts.map Delivery.sequence := by
  rw [handedOut, handouts_concat, List.map_append, handedOut]

theorem settled_concat (events : List CursorEvent) (e : CursorEvent) :
    settled (events ++ [e]) = settled events ++ e.settled := by
  simp [settled]

theorem dueAt_concat (events : List CursorEvent) (e : CursorEvent) (n : Nat) :
    dueAt (events ++ [e]) n = (e.putsOff n).or (dueAt events n) := by
  rw [dueAt, List.filterMap_append]
  cases h : e.putsOff n <;> simp [dueAt, h]

end Course

end Cursor

end StreamBroker
