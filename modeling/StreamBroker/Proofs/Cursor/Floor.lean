import StreamBroker.Proofs.Cursor.Steps

/-!
# The floor of a cursor

The floor lies below everything that is pending, and it only moves up.  What is settled is noted
above the floor, until the floor has moved past it; so it stays settled, and above the floor nothing
else is.  All this holds whatever the filter of the consumer was.

## Main definitions

* `Cursor.Grounded`: the floor is where it has to be
* `Cursor.Notes`: a cursor goes on, and notes just what it settles

## Main results

* `Cursor.Grounded.lowestOpen_le`: where the floor moves to
* `Cursor.Steps.notes`: what any steps note as settled
-/

namespace StreamBroker

namespace Cursor

variable {c c' c'' : Cursor} {x : Index} {settled more : List Nat} {n : Nat}

theorem isAcked_iff : c.isAcked n = true ↔ n ≤ c.ackFloor.stream ∨ c.acked.contains n = true := by
  rw [isAcked, Bool.or_eq_true, decide_eq_true_eq]

/-- The floor of a cursor is where it has to be. -/
structure Grounded (c : Cursor) : Prop where
  /-- It is below what is pending. -/
  floor_le : ∀ {n}, c.pending.contains n = true → c.ackFloor.stream ≤ n - 1
  /-- What is pending was delivered. -/
  le_delivered : ∀ {n}, c.pending.contains n = true → n ≤ c.delivered.stream
  /-- The floor is not above the last delivery. -/
  floor_le_delivered : c.ackFloor.stream ≤ c.delivered.stream
  /-- The last delivery was looked at, if there was one. -/
  delivered_lt : c.delivered.stream < max c.nextSeq 1

theorem grounded_start (settings : ConsumerSettings) (x : Index) (now : Instant) :
    (start settings x now).Grounded where
  floor_le h := nomatch h
  le_delivered h := nomatch h
  floor_le_delivered := Nat.le_refl _
  delivered_lt := by
    have : (start settings x now).delivered.stream = (start settings x now).nextSeq - 1 := rfl
    omega

/-- The floor moves up, though not above the last delivery, and stays below what is pending. -/
theorem Grounded.lowestOpen_le (hc : c.Grounded) :
    c.ackFloor.stream ≤ c.lowestOpen.stream ∧ c.lowestOpen.stream ≤ c.delivered.stream ∧
      ∀ n, c.pending.contains n = true → c.lowestOpen.stream ≤ n - 1 := by
  rw [lowestOpen]
  cases hfirst : c.pending.first? with
  | none =>
    -- Nothing is pending: the floor moves to the last delivery.
    refine ⟨hc.floor_le_delivered, Nat.le_refl _, ?_⟩
    intro n hn
    have hempty := SeqMap.isEmpty_iff.1 (SeqMap.first?_eq_none_iff.1 hfirst) n
    rw [SeqMap.contains_eq_false_iff.2 hempty] at hn
    cases hn
  | some e =>
    -- The floor moves to right before the first pending delivery.
    obtain ⟨hget, hlowest⟩ := SeqMap.first?_eq_some_iff.1 hfirst
    have hpending := SeqMap.contains_iff.2 ⟨_, hget⟩
    refine ⟨hc.floor_le hpending, Nat.le_trans (Nat.sub_le _ _) (hc.le_delivered hpending), ?_⟩
    intro n hn
    obtain ⟨p, hp⟩ := SeqMap.contains_iff.1 hn
    exact Nat.sub_le_sub_right (hlowest n p hp) 1

theorem acked_advanceFloor_iff (c : Cursor) (n : Nat) :
    c.advanceFloor.acked.contains n = true ↔
      c.lowestOpen.stream < n ∧ c.acked.contains n = true := by
  rw [advanceFloor, SeqMap.contains_startingAt, Bool.and_eq_true, decide_eq_true_eq,
    Nat.succ_le_iff]

/-- What is settled stays settled: the floor has moved past it, or it is kept above the floor. -/
theorem Grounded.isAcked_advanceFloor (hc : c.Grounded) (hn : c.isAcked n = true) :
    c.advanceFloor.isAcked n = true := by
  apply isAcked_iff.2
  rcases isAcked_iff.1 hn with hn | hn
  · exact .inl (Nat.le_trans hn hc.lowestOpen_le.1)
  · rcases Nat.lt_or_ge c.lowestOpen.stream n with hlt | hle
    · exact .inr ((acked_advanceFloor_iff ..).2 ⟨hlt, hn⟩)
    · exact .inl hle

/-! ## What is noted -/

/-- A cursor goes on, and notes just what it settles. -/
structure Notes (c : Cursor) (settled : List Nat) (c' : Cursor) : Prop where
  /-- Its floor is where it has to be. -/
  grounded : c'.Grounded
  /-- What is noted above the floor was noted before, or is settled. -/
  of_acked : ∀ {n}, c'.acked.contains n = true → c.acked.contains n = true ∨ n ∈ settled
  /-- What was settled before or is settled counts as settled. -/
  isAcked : ∀ {n}, c.isAcked n = true ∨ n ∈ settled → c'.isAcked n = true

theorem Notes.refl (hc : c.Grounded) : Notes c [] c :=
  ⟨hc, .inl, fun hn => hn.resolve_right List.not_mem_nil⟩

theorem Notes.trans (h : Notes c settled c') (h' : Notes c' more c'') :
    Notes c (settled ++ more) c'' where
  grounded := h'.grounded
  of_acked hn := by
    rw [List.mem_append]
    rcases h'.of_acked hn with hn | hn
    · exact (h.of_acked hn).imp_right .inl
    · exact .inr (.inr hn)
  isAcked hn := by
    rw [List.mem_append] at hn
    apply h'.isAcked
    rcases hn with hn | hn | hn
    · exact .inl (h.isAcked (.inl hn))
    · exact .inl (h.isAcked (.inr hn))
    · exact .inr hn

theorem Discharges.notes (h : Discharges x c settled c') (hc : c.Grounded) :
    Notes c settled c' where
  grounded :=
    { floor_le := fun hn => h.ackFloor ▸ hc.floor_le (h.of_pending _ hn).1
      le_delivered := fun hn => h.delivered ▸ hc.le_delivered (h.of_pending _ hn).1
      floor_le_delivered := h.ackFloor ▸ h.delivered ▸ hc.floor_le_delivered
      delivered_lt := h.delivered ▸ h.nextSeq ▸ hc.delivered_lt }
  of_acked hn := (h.acked_iff _).1 hn
  isAcked {n} hn := by
    rw [isAcked_iff, h.ackFloor, h.acked_iff]
    rcases hn with hn | hn
    · exact (isAcked_iff.1 hn).imp_right .inl
    · exact .inr (.inr hn)

theorem notes_advanceFloor (hc : c.Grounded) : Notes c [] c.advanceFloor where
  grounded :=
    { floor_le := hc.lowestOpen_le.2.2 _
      le_delivered := hc.le_delivered
      floor_le_delivered := hc.lowestOpen_le.2.1
      delivered_lt := hc.delivered_lt }
  of_acked hn := .inl ((acked_advanceFloor_iff ..).1 hn).2
  isAcked hn := hc.isAcked_advanceFloor (hn.resolve_right List.not_mem_nil)

/-- What is handed out for the first time is above the floor, and behind what is pending. -/
theorem notes_deliver (hc : c.Grounded) (hle : c.nextSeq ≤ n) (now : Instant) :
    Notes c (if c.settings.ackPolicy = .none then [n] else []) (c.deliver now n) where
  grounded := by
    obtain ⟨hdelivered, hfloor⟩ := delivered_deliver c now n
    have hlt := hc.delivered_lt
    have hbelow := hc.floor_le_delivered
    refine ⟨?_, ?_, ?_, ?_⟩
    · intro k hk
      rw [hfloor]
      rcases (pending_deliver_iff ..).1 hk with hk | ⟨rfl, -⟩
      · exact hc.floor_le hk
      · omega
    · intro k hk
      rw [hdelivered]
      rcases (pending_deliver_iff ..).1 hk with hk | ⟨rfl, -⟩
      · have := hc.le_delivered hk
        omega
      · exact Nat.le_refl k
    · rw [hfloor, hdelivered]
      omega
    · rw [hdelivered, nextSeq_deliver]
      omega
  of_acked hk := by
    rcases (acked_deliver_iff ..).1 hk with hk | ⟨rfl, hnone⟩
    · exact .inl hk
    · rw [if_pos hnone]
      exact .inr List.mem_cons_self
  isAcked {k} hk := by
    rw [isAcked_iff, (delivered_deliver c now n).2, acked_deliver_iff]
    rcases hk with hk | hk
    · exact (isAcked_iff.1 hk).imp_right .inl
    · split at hk
      · next hnone => exact .inr (.inr ⟨List.mem_singleton.1 hk, hnone⟩)
      · cases hk

theorem Step.notes (h : Step x c settled c') (hc : c.Grounded) : Notes c settled c' := by
  cases h with
  | discharged h => exact h.notes hc
  | delivered hahead now => exact notes_deliver hc (hahead.mem _ List.mem_cons_self).2 now
  | ended hahead =>
    have hlt := hc.delivered_lt
    have hgrounded : Grounded { c with nextSeq := max c.nextSeq (x.lastSeq + 1) } :=
      { hc with delivered_lt := by dsimp only; omega }
    exact ⟨hgrounded, .inl, fun hn => hn.resolve_right List.not_mem_nil⟩
  | floor => exact notes_advanceFloor hc

/-- **What is noted as settled is what any steps settle**, and the floor stays where it has to
be. -/
theorem Steps.notes (h : Steps x c settled c') (hc : c.Grounded) : Notes c settled c' := by
  induction h with
  | refl => exact .refl hc
  | head hstep _ ih =>
    have hnotes := hstep.notes hc
    exact hnotes.trans (ih hnotes.grounded)

end Cursor

end StreamBroker
