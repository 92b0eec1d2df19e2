import StreamBroker.Proofs.Cursor.Floor

/-!
# Cursors keep track of what they need

A cursor has looked at all messages below the number that it goes on with.  Those of them that it
gets at all are pending or settled, and pending is what is neither below the floor nor settled above
it.  So a cursor needs exactly what it has not looked at yet and what is pending, and although the
floor moves past many messages at once, none of them is settled by that alone.

## Main definitions

* `Cursor.Tracks`: what a cursor knows about the messages of an index
* `Cursor.Serves`: a cursor goes on, and all that it does not need any more is settled

## Main results

* `Cursor.Tracks.needs_iff`: a message is needed if it was not looked at or is pending
* `Cursor.Serves.needs`: what a cursor needed it still needs, or has settled
* `Cursor.serves_advanceFloor`: the floor settles nothing by moving
-/

namespace StreamBroker

namespace Cursor

/-! ## What a cursor keeps track of -/

/-- What a cursor knows about the messages of an index. -/
structure Tracks (c : Cursor) (x : Index) : Prop where
  /-- What is pending is above the floor. -/
  floor_lt : ∀ {n}, c.pending.contains n = true → c.ackFloor.stream < n
  /-- What is pending was delivered. -/
  le_delivered : ∀ {n}, c.pending.contains n = true → n ≤ c.delivered.stream
  /-- What is pending is not settled. -/
  acked_eq : ∀ {n}, c.pending.contains n = true → c.acked.contains n = false
  /-- What is settled above the floor was looked at. -/
  acked_lt : ∀ {n}, c.acked.contains n = true → n < c.nextSeq
  /-- The floor is not above the last delivery. -/
  floor_le : c.ackFloor.stream ≤ c.delivered.stream
  /-- The last delivery was looked at, if there was one. -/
  delivered_lt : c.delivered.stream < max c.nextSeq 1
  /-- What was looked at is pending or settled, if the consumer gets it at all. -/
  covered : ∀ {n m}, x.get? n = some m → c.isEligible n m.subject = true → n < c.nextSeq →
    c.pending.contains n = true ∨ c.isAcked n = true
  /-- Nothing is looked at before it is there. -/
  nextSeq_le : c.nextSeq ≤ max c.startSeq (x.lastSeq + 1)

variable {c c' c'' : Cursor} {x y : Index} {settled more gone : List Nat} {n : Nat}
  {m : StoredMessage} {now : Instant}

namespace Tracks

theorem grounded (h : c.Tracks x) : c.Grounded where
  floor_le hn := Nat.le_sub_one_of_lt (h.floor_lt hn)
  le_delivered := h.le_delivered
  floor_le_delivered := h.floor_le
  delivered_lt := h.delivered_lt

theorem pending_lt (h : c.Tracks x) (hn : c.pending.contains n = true) : n < c.nextSeq := by
  have := h.floor_lt hn
  have := h.le_delivered hn
  have := h.delivered_lt
  omega

/-- **A message is needed if the cursor has not looked at it or it is pending**, and the consumer
gets it at all. -/
theorem needs_iff (h : c.Tracks x) (hm : x.get? n = some m) :
    c.needs n m.subject = true ↔ c.isEligible n m.subject = true ∧
      (c.nextSeq ≤ n ∨ c.pending.contains n = true) := by
  rw [needs, Bool.and_eq_true, Bool.or_eq_true, decide_eq_true_eq, Bool.not_eq_true']
  apply and_congr_right
  intro heligible
  constructor
  · rintro (hle | hacked)
    · exact .inl hle
    · rcases Nat.lt_or_ge n c.nextSeq with hlt | hle
      · -- It was looked at, so it is pending or settled, and it is not settled.
        rcases h.covered hm heligible hlt with hpending | hacked'
        · exact .inr hpending
        · rw [hacked'] at hacked
          cases hacked
      · exact .inl hle
  · rintro (hle | hpending)
    · exact .inl hle
    · refine .inr (Bool.eq_false_iff.2 ?_)
      intro hacked
      rcases isAcked_iff.1 hacked with hle | hacked
      · exact absurd (h.floor_lt hpending) (Nat.not_lt_of_le hle)
      · rw [h.acked_eq hpending] at hacked
        cases hacked

/-- A cursor keeps track of what is left when messages go. -/
theorem loses (h : c.Tracks x) (hloses : x.Loses gone y) : c.Tracks y :=
  { h with
    covered := fun hm => h.covered (hloses.get?_of_get? hm)
    nextSeq_le := hloses.lastSeq_eq ▸ h.nextSeq_le }

/-- A message that comes was not looked at yet. -/
theorem commit (h : c.Tracks x) (hnext : m.sequence = x.lastSeq + 1) :
    c.Tracks (x.commit m) := by
  have hlast : x.lastSeq ≤ (x.commit m).lastSeq := Nat.le_max_left _ _
  have hle := h.nextSeq_le
  refine { h with covered := fun {n w} hw heligible hlt => ?_, nextSeq_le := by omega }
  rw [Index.get?_commit] at hw
  split at hw
  · next hn =>
    -- The new message is behind all that the cursor may have looked at.
    rw [isEligible, Bool.and_eq_true, Bool.and_eq_true, decide_eq_true_eq] at heligible
    have := heligible.1.1
    omega
  · exact h.covered hw heligible hlt

end Tracks

/-- The cursor of a new consumer keeps track of what is there: it gets nothing of it that it does
not look at. -/
theorem tracks_start (settings : ConsumerSettings) (x : Index) (now : Instant) :
    (start settings x now).Tracks x where
  floor_lt h := nomatch h
  le_delivered h := nomatch h
  acked_eq h := nomatch h
  acked_lt h := nomatch h
  floor_le := Nat.le_refl _
  delivered_lt := (grounded_start settings x now).delivered_lt
  covered {n m} _ heligible hlt := by
    rw [isEligible, Bool.and_eq_true, Bool.and_eq_true, decide_eq_true_eq] at heligible
    exact absurd heligible.1.1 (Nat.not_le_of_lt hlt)
  nextSeq_le := Nat.le_max_left _ _

/-! ## Going on -/

/-- A cursor goes on in an index, and of the messages there it still needs what it needed and did
not settle. -/
structure Serves (x : Index) (c : Cursor) (settled : List Nat) (c' : Cursor) : Prop where
  /-- It gets the same messages. -/
  choice : c.SameChoice c'
  /-- It keeps track of them. -/
  tracks : c'.Tracks x
  /-- What it needed is needed or settled. -/
  claims : ∀ {n m}, x.get? n = some m → c.isEligible n m.subject = true →
    c.nextSeq ≤ n ∨ c.pending.contains n = true →
    (c'.nextSeq ≤ n ∨ c'.pending.contains n = true) ∨ n ∈ settled

namespace Serves

theorem refl (h : c.Tracks x) : Serves x c [] c := ⟨.refl c, h, fun _ _ hn => .inl hn⟩

theorem trans (h : Serves x c settled c') (h' : Serves x c' more c'') :
    Serves x c (settled ++ more) c'' := by
  refine ⟨h.choice.trans h'.choice, h'.tracks, ?_⟩
  intro n m hm heligible hn
  rcases h.claims hm heligible hn with hn | hn
  · refine (h'.claims hm ?_ hn).imp_right (List.mem_append_right _)
    rw [h.choice.isEligible_eq, heligible]
  · exact .inr (List.mem_append_left _ hn)

/-- **What a cursor needed it still needs, or has settled.** -/
theorem needs (h : Serves x c settled c') (hc : c.Tracks x) (hm : x.get? n = some m)
    (hneeds : c.needs n m.subject = true) : c'.needs n m.subject = true ∨ n ∈ settled := by
  obtain ⟨heligible, hn⟩ := (hc.needs_iff hm).1 hneeds
  apply (h.claims hm heligible hn).imp_left
  intro hn
  exact (h.tracks.needs_iff hm).2 ⟨(h.choice.isEligible_eq ..).trans heligible, hn⟩

end Serves

/-! ## Discharging -/

theorem Discharges.pending_or_settled (h : Discharges x c settled c') (hm : x.get? n = some m)
    (hn : c.pending.contains n = true) : c'.pending.contains n = true ∨ n ∈ settled := by
  by_cases hmem : n ∈ settled
  · exact .inr hmem
  · exact .inl (h.pending n (Index.contains_iff.2 ⟨m, hm⟩) hn hmem)

theorem Discharges.tracks (h : Discharges x c settled c') (hc : c.Tracks x) : c'.Tracks x where
  floor_lt {n} hn := h.ackFloor ▸ hc.floor_lt (h.of_pending n hn).1
  le_delivered {n} hn := h.delivered ▸ hc.le_delivered (h.of_pending n hn).1
  acked_eq {n} hn := by
    obtain ⟨hn, hmem⟩ := h.of_pending n hn
    apply Bool.eq_false_iff.2
    intro hacked'
    rcases (h.acked_iff n).1 hacked' with hacked | hmem'
    · rw [hc.acked_eq hn] at hacked
      cases hacked
    · exact hmem hmem'
  acked_lt {n} hn := by
    rw [h.nextSeq]
    rcases (h.acked_iff n).1 hn with hn | hn
    · exact hc.acked_lt hn
    · exact hc.pending_lt (h.of_settled n hn)
  floor_le := by
    rw [h.ackFloor, h.delivered]
    exact hc.floor_le
  delivered_lt := by
    rw [h.nextSeq, h.delivered]
    exact hc.delivered_lt
  covered {n m} hm heligible hlt := by
    rw [h.choice.isEligible_eq] at heligible
    rw [h.nextSeq] at hlt
    rcases hc.covered hm heligible hlt with hn | hn
    · -- It was pending, and may be settled now.
      apply (h.pending_or_settled hm hn).imp_right
      intro hn
      exact isAcked_iff.2 (.inr ((h.acked_iff n).2 (.inr hn)))
    · refine .inr (isAcked_iff.2 ?_)
      rw [h.ackFloor]
      exact (isAcked_iff.1 hn).imp_right fun hn => (h.acked_iff n).2 (.inl hn)
  nextSeq_le := by
    rw [h.nextSeq, h.choice.startSeq]
    exact hc.nextSeq_le

/-- A cursor that settles some of what is pending, and forgets what is gone. -/
theorem Discharges.serves (h : Discharges x c settled c') (hc : c.Tracks x) :
    Serves x c settled c' where
  choice := h.choice
  tracks := h.tracks hc
  claims {n m} hm _ hn := by
    rw [h.nextSeq]
    rcases hn with hn | hn
    · exact .inl (.inl hn)
    · exact (h.pending_or_settled hm hn).imp_left .inr

/-! ## The floor -/

theorem tracks_advanceFloor (hc : c.Tracks x) : c.advanceFloor.Tracks x where
  floor_lt {n} hn := by
    -- What is pending is above the floor, so the floor may come to right before it.
    have hlt := hc.floor_lt hn
    have hle : c.advanceFloor.ackFloor.stream ≤ n - 1 := hc.grounded.lowestOpen_le.2.2 n hn
    omega
  le_delivered := hc.le_delivered
  acked_eq {n} hn := by
    apply Bool.eq_false_iff.2
    intro hacked
    rw [acked_advanceFloor_iff, hc.acked_eq hn] at hacked
    cases hacked.2
  acked_lt hn := hc.acked_lt ((acked_advanceFloor_iff ..).1 hn).2
  floor_le := hc.grounded.lowestOpen_le.2.1
  delivered_lt := hc.delivered_lt
  covered hm heligible hlt :=
    (hc.covered hm heligible hlt).imp_right hc.grounded.isAcked_advanceFloor
  nextSeq_le := hc.nextSeq_le

/-- **The floor settles nothing by moving**: what it moves past was not needed. -/
theorem serves_advanceFloor (hc : c.Tracks x) : Serves x c [] c.advanceFloor where
  choice := ⟨rfl, rfl, rfl⟩
  tracks := tracks_advanceFloor hc
  claims _ _ hn := .inl hn

end Cursor

end StreamBroker
