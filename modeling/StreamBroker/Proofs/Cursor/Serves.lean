import StreamBroker.Proofs.Cursor.Tracks

/-!
# Cursors that go on

Every step keeps the cursor on track: a delivery is repeated, given up or made, and what is not for
the consumer is passed over.  So a cursor that hands out or notes an acknowledgement reports all
that it has settled, and still needs everything else that it needed.

## Main results

* `Cursor.serves_deliver`: one message is handed out for the first time
* `Cursor.Steps.serves`: a cursor makes some steps
-/

namespace StreamBroker

namespace Cursor

variable {c c' : Cursor} {x : Index} {settled : List Nat} {n : Nat} {m : StoredMessage}

/-! ## Handing out -/

/-- What is handed out for the first time is not behind anything that the cursor has looked at. -/
theorem Ahead.lt (hx : x.Keyed) (hc : c.Tracks x) {ms : List StoredMessage}
    (h : Ahead x c (m :: ms)) :
    c.delivered.stream < m.sequence ∧ (∀ n, c.pending.contains n = true → n < m.sequence) ∧
      ∀ n, c.acked.contains n = true → n < m.sequence := by
  obtain ⟨hget, hle⟩ := h.mem m List.mem_cons_self
  have hpos := hx.pos hget
  have hdelivered := hc.delivered_lt
  exact ⟨by omega, fun n hn => Nat.lt_of_lt_of_le (hc.pending_lt hn) hle,
    fun n hn => Nat.lt_of_lt_of_le (hc.acked_lt hn) hle⟩

/-- What was looked at is pending or settled behind a delivery, and so is what was delivered. -/
theorem covered_deliver {ms : List StoredMessage} (hx : x.Keyed) (hc : c.Tracks x)
    (h : Ahead x c (m :: ms)) (now : Instant) {w : StoredMessage} (hw : x.get? n = some w)
    (heligible : c.isEligible n w.subject = true) (hle : n ≤ m.sequence) :
    (c.deliver now m.sequence).pending.contains n = true ∨
      (c.deliver now m.sequence).isAcked n = true := by
  rcases Nat.lt_or_ge n c.nextSeq with hlt | hnext
  · rcases hc.covered hw heligible hlt with hpending | hacked
    · exact .inl ((pending_deliver_iff ..).2 (.inl hpending))
    · refine .inr (isAcked_iff.2 ?_)
      rw [(delivered_deliver c now m.sequence).2, acked_deliver_iff]
      exact (isAcked_iff.1 hacked).imp_right .inl
  · -- No other message that the consumer gets lies between the last one and the delivered one.
    rcases h.eq_or_lt hx.filed hw heligible hnext with rfl | hgt
    · by_cases hnone : c.settings.ackPolicy = .none
      · exact .inr (isAcked_iff.2 (.inr ((acked_deliver_iff ..).2 (.inr ⟨rfl, hnone⟩))))
      · exact .inl ((pending_deliver_iff ..).2 (.inr ⟨rfl, hnone⟩))
    · exact absurd hgt (Nat.not_lt_of_le hle)

theorem tracks_deliver {ms : List StoredMessage} (hx : x.Keyed) (hc : c.Tracks x)
    (h : Ahead x c (m :: ms)) (now : Instant) : (c.deliver now m.sequence).Tracks x where
  floor_lt {n} hn := by
    rw [(delivered_deliver ..).2]
    rcases (pending_deliver_iff ..).1 hn with hn | ⟨rfl, -⟩
    · exact hc.floor_lt hn
    · exact Nat.lt_of_le_of_lt hc.floor_le (h.lt hx hc).1
  le_delivered {n} hn := by
    obtain ⟨-, hpending, -⟩ := h.lt hx hc
    rw [(delivered_deliver ..).1]
    rcases (pending_deliver_iff ..).1 hn with hn | ⟨rfl, -⟩
    · exact Nat.le_of_lt (hpending n hn)
    · exact Nat.le_refl _
  acked_eq {n} hn := by
    obtain ⟨-, hpending, hacked⟩ := h.lt hx hc
    apply Bool.eq_false_iff.2
    intro hn'
    rcases (pending_deliver_iff ..).1 hn with hn | ⟨rfl, hne⟩
    · rcases (acked_deliver_iff ..).1 hn' with hn' | ⟨rfl, -⟩
      · rw [hc.acked_eq hn] at hn'
        cases hn'
      · exact Nat.lt_irrefl _ (hpending _ hn)
    · -- A policy makes the message pending or settles it, and not both.
      rcases (acked_deliver_iff ..).1 hn' with hn' | ⟨-, heq⟩
      · exact Nat.lt_irrefl _ (hacked _ hn')
      · exact hne heq
  acked_lt {n} hn := by
    obtain ⟨-, -, hacked⟩ := h.lt hx hc
    rw [nextSeq_deliver]
    rcases (acked_deliver_iff ..).1 hn with hn | ⟨rfl, -⟩
    · exact Nat.lt_succ_of_lt (hacked n hn)
    · exact Nat.lt_succ_self _
  floor_le := by
    obtain ⟨hstream, hfloor⟩ := delivered_deliver c now m.sequence
    rw [hfloor, hstream]
    exact Nat.le_trans hc.floor_le (Nat.le_of_lt (h.lt hx hc).1)
  delivered_lt := by
    rw [(delivered_deliver ..).1, nextSeq_deliver]
    omega
  covered {n w} hw heligible hlt := by
    rw [(sameChoice_deliver ..).isEligible_eq] at heligible
    rw [nextSeq_deliver] at hlt
    exact covered_deliver hx hc h now hw heligible (Nat.le_of_lt_succ hlt)
  nextSeq_le := by
    have hle := hx.le_lastSeq (h.mem m List.mem_cons_self).1
    rw [nextSeq_deliver]
    omega

/-- A message that is handed out for the first time is pending, or settled at once. -/
theorem serves_deliver {ms : List StoredMessage} (hx : x.Keyed) (hc : c.Tracks x)
    (h : Ahead x c (m :: ms)) (now : Instant) :
    Serves x c (if c.settings.ackPolicy = .none then [m.sequence] else [])
      (c.deliver now m.sequence) := by
  refine ⟨sameChoice_deliver .., tracks_deliver hx hc h now, ?_⟩
  intro n w hw heligible hn
  rw [nextSeq_deliver, pending_deliver_iff]
  rcases hn with hn | hn
  · rcases h.eq_or_lt hx.filed hw heligible hn with rfl | hgt
    · by_cases hnone : c.settings.ackPolicy = .none
      · exact .inr (by rw [if_pos hnone]; exact List.mem_cons_self)
      · exact .inl (.inr (.inr ⟨rfl, hnone⟩))
    · exact .inl (.inl hgt)
  · exact .inl (.inr (.inl hn))

/-- Where nothing is left, all numbers up to the last one were looked at. -/
theorem serves_passEnd (hc : c.Tracks x) (h : Ahead x c []) :
    Serves x c [] { c with nextSeq := max c.nextSeq (x.lastSeq + 1) } := by
  have hnext : max c.nextSeq (x.lastSeq + 1) ≤ max c.startSeq (x.lastSeq + 1) := by
    have := hc.nextSeq_le
    omega
  have hdelivered : c.delivered.stream < max (max c.nextSeq (x.lastSeq + 1)) 1 := by
    have := hc.delivered_lt
    omega
  refine ⟨⟨rfl, rfl, rfl⟩, { hc with
    acked_lt := fun hn => Nat.lt_of_lt_of_le (hc.acked_lt hn) (Nat.le_max_left _ _)
    delivered_lt := hdelivered
    covered := fun {n m} hm heligible _ => ?_
    nextSeq_le := hnext }, fun hm heligible hn => ?_⟩
  · rcases Nat.lt_or_ge n c.nextSeq with hlt | hge
    · exact hc.covered hm heligible hlt
    · exact nomatch h.complete hm heligible hge
  · rcases hn with hn | hn
    · exact nomatch h.complete hm heligible hn
    · exact .inl (.inr hn)

/-! ## Steps -/

theorem Step.serves (hx : x.Keyed) (hc : c.Tracks x) (h : Step x c settled c') :
    Serves x c settled c' := by
  cases h with
  | discharged h => exact h.serves hc
  | delivered hahead now => exact serves_deliver hx hc hahead now
  | ended hahead => exact serves_passEnd hc hahead
  | floor => exact serves_advanceFloor hc

/-- **A cursor that makes some steps still needs what it needed, or has settled it.** -/
theorem Steps.serves (hx : x.Keyed) (h : Steps x c settled c') (hc : c.Tracks x) :
    Serves x c settled c' := by
  induction h with
  | refl => exact .refl hc
  | head hstep _ ih =>
    have hserves := hstep.serves hx hc
    exact hserves.trans (ih hserves.tracks)

end Cursor

end StreamBroker
