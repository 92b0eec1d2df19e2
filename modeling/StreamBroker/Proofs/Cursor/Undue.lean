import StreamBroker.Proofs.Cursor.Limits

/-!
# Pulls that got nothing

A delivery that is due survives a pull only if the pull had no room for it.  What is gone is
forgotten, what was delivered as often as is allowed is given up, and what is repeated or has no
room is heard of.  So behind a pull that got nothing, and reports nothing as too large, no delivery
is due: whoever pulls again at the next deadline does so at a later instant.  This holds however
short the waits are, also where a delivery that is made now is due at once.

## Main results

* `Cursor.undue_collect`: behind a pull that got nothing no delivery is due
* `Cursor.lt_nextDeadline`: and the next deadline is still to come
-/

namespace StreamBroker.Cursor

variable {c : Cursor} {x : Index} {l : Limits} {h : Haul} {now : Instant}

/-- A walk over what is new that got nothing leaves the pending deliveries as they are. -/
theorem pending_deliverNew_of_none {ms : List StoredMessage} (hopen : h.oversized = none)
    (hnone : (deliverNew x l now ms c h).2.deliveries = []) :
    (deliverNew x l now ms c h).1.pending = c.pending := by
  induction ms with
  | nil =>
    rw [deliverNew]
    split <;> rfl
  | cons m ms ih =>
    rw [deliverNew] at hnone ⊢
    split
    · rfl
    · next hgoes =>
      rw [if_neg hgoes] at hnone
      split
      · next hskip =>
        rw [if_pos hskip] at hnone
        exact ih hnone
      · next htakes =>
        rw [if_neg htakes] at hnone
        split
        · next hroom =>
          rw [if_pos hroom] at hnone
          have hfilled := (pullInvariant_isFilled x l now).deliverNew ms
            (c := c.deliver now m.sequence)
            (h := if c.settings.ackPolicy = .none then
              (h.add ⟨m, (c.deliver now m.sequence).delivered.consumer, 1⟩).settle m.sequence
             else h.add ⟨m, (c.deliver now m.sequence).delivered.consumer, 1⟩)
            (by split <;> exact isFilled_add hopen _)
          exact absurd hnone hfilled.1
        · rfl

/-- A pull that got nothing, and reports nothing as too large, came to no message. -/
theorem next?_eq_none (hbatch : 1 ≤ l.batch) (hnone : (c.collect x l now).2.deliveries = [])
    (hfits : (c.collect x l now).2.oversized = none) : c.next? x now = none := by
  have hanswers := answers_collect x hbatch c now
  cases hnext : c.next? x now with
  | none => rfl
  | some m =>
    rw [hnext, Haul.Answers] at hanswers
    split at hanswers
    · exact absurd hnone hanswers.1
    · rw [hfits] at hanswers
      cases hanswers.2

/-- **Behind a pull that got nothing no delivery is due**, if it reports nothing as too large. -/
theorem undue_collect (hbatch : 1 ≤ l.batch) (hnone : (c.collect x l now).2.deliveries = [])
    (hfits : (c.collect x l now).2.oversized = none) {n : Nat} {p : PendingDelivery}
    (hp : (c.collect x l now).1.pending.get? n = some p) : now < p.deadline := by
  have hrepeat : c.nextRepeat? x now = none :=
    (Option.or_eq_none_iff.1 (next?_eq_none hbatch hnone hfits)).1
  obtain ⟨c', s, hdue, -, hpending⟩ := collectDue_of_spent hbatch hrepeat
  -- Neither what is new nor the floor changes what is pending.
  have hleft : (c.collect x l now).1.pending = c.stillPending x now := by
    simp only [collect, hdue, Option.isSome_none, Bool.false_eq_true, if_false] at hnone ⊢
    split
    · exact (pending_deliverNew_of_none rfl hnone).trans hpending
    · exact (pending_deliverNew_of_none rfl hnone).trans hpending
  rw [hleft, stillPending, SeqMap.get?_filter, Option.filter_eq_some_iff, Bool.and_eq_true] at hp
  obtain ⟨hp, hx, hkept⟩ := hp
  refine Nat.lt_of_not_le fun hle => ?_
  -- What is due was delivered as often as is allowed, and such deliveries are given up.
  rw [isExhausted_of_nextRepeat? hrepeat hp hx hle, decide_eq_true hle] at hkept
  cases hkept

/-- **Behind a pull that got nothing the next deadline is still to come.** -/
theorem lt_nextDeadline (hbatch : 1 ≤ l.batch) (hnone : (c.collect x l now).2.deliveries = [])
    (hfits : (c.collect x l now).2.oversized = none) :
    ∀ i ∈ (c.collect x l now).1.nextDeadline, now < i := by
  intro i hi
  obtain ⟨hmem, -⟩ := List.min?_eq_some_iff.1 hi
  obtain ⟨p, hp, rfl⟩ := List.mem_map.1 hmem
  obtain ⟨n, hn⟩ := SeqMap.mem_values_iff.1 hp
  exact undue_collect hbatch hnone hfits hn

end StreamBroker.Cursor
