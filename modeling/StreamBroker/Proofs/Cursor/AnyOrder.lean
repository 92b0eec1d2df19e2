import StreamBroker.Proofs.Cursor.Handed
import StreamBroker.Proofs.Cursor.Serves

/-!
# Acknowledgements of a cursor in any order

Where deliveries are acknowledged one by one, an acknowledgement is about one delivery: it settles
it or puts it off, or it finds nothing.  The floor is another matter.  It moves when something is
settled, past everything that is not pending then, and what it moves past is not noted any more.
So between two acknowledgements the floor depends on which was first.  Behind both it does not: it
only moves up, and in the end it depends on what is pending alone.

## Main results

* `Cursor.Grounded.acknowledge_comm`: acknowledgements of two messages come to one cursor
* `Cursor.Tracks.needs_acknowledge`: what a cursor needs behind an acknowledgement
-/

namespace StreamBroker

namespace Cursor

variable {c c' : Cursor} {n k j : Nat} {kind kind' : AckKind} {now : Instant}

/-! ## The floor -/

/-- The floor depends on which deliveries are pending, and not on when they are repeated. -/
theorem lowestOpen_congr (hdelivered : c'.delivered = c.delivered)
    (h : ∀ j, (c'.pending.get? j).map PendingDelivery.consumerSeq =
      (c.pending.get? j).map PendingDelivery.consumerSeq) : c'.lowestOpen = c.lowestOpen := by
  have hnone (j : Nat) : c'.pending.get? j = none ↔ c.pending.get? j = none := by
    rw [← Option.map_eq_none_iff, h j, Option.map_eq_none_iff]
  rw [lowestOpen, lowestOpen]
  cases hfirst : c.pending.first? with
  | none =>
    have hempty := SeqMap.isEmpty_iff.1 (SeqMap.first?_eq_none_iff.1 hfirst)
    have hfirst' : c'.pending.first? = none :=
      SeqMap.first?_eq_none_iff.2 (SeqMap.isEmpty_iff.2 fun j => (hnone j).2 (hempty j))
    rw [hfirst']
    exact hdelivered
  | some e =>
    obtain ⟨i, p⟩ := e
    obtain ⟨hget, hlowest⟩ := SeqMap.first?_eq_some_iff.1 hfirst
    -- The first delivery is pending in the other cursor too, and no other comes before it.
    obtain ⟨q, hq, hseq⟩ : ∃ q, c'.pending.get? i = some q ∧ q.consumerSeq = p.consumerSeq := by
      have hmap := h i
      rw [hget] at hmap
      exact Option.map_eq_some_iff.1 hmap
    have hfirst' : c'.pending.first? = some (i, q) := by
      refine SeqMap.first?_eq_some_iff.2 ⟨hq, fun j r hr => ?_⟩
      have hj : c.pending.get? j ≠ none := by
        rw [Ne, ← hnone, hr]
        exact Option.some_ne_none r
      obtain ⟨r', hr'⟩ := Option.ne_none_iff_exists'.1 hj
      exact hlowest j r' hr'
    rw [hfirst']
    dsimp only
    rw [hseq]

/-- What an acknowledgement makes of the floor: nothing if it settles nothing, and else the floor
comes to below what is pending then. -/
theorem floor_acknowledge (c : Cursor) (n : Nat) (kind : AckKind) (now : Instant) :
    (c.settledBy n kind = [] ∧ (c.acknowledge n kind now).2.ackFloor = c.ackFloor ∧
      (c.acknowledge n kind now).2.acked = c.acked) ∨
    (c.settledBy n kind ≠ [] ∧
      (c.acknowledge n kind now).2.ackFloor = (c.acknowledge n kind now).2.lowestOpen ∧
      ∀ j, (c.acknowledge n kind now).2.acked.contains j = true ↔
        (c.acknowledge n kind now).2.ackFloor.stream < j ∧
          (c.acked.contains j = true ∨ j ∈ c.settledBy n kind)) := by
  simp only [acknowledge, settle]
  split
  · next hempty => exact .inl ⟨List.isEmpty_iff.1 hempty, rfl, rfl⟩
  · next hempty =>
    refine .inr ⟨fun h => hempty (List.isEmpty_iff.2 h), rfl, fun j => ?_⟩
    rw [acked_advanceFloor_iff, SeqSet.contains_foldl_add, Bool.or_eq_true, decide_eq_true_eq,
      or_comm (a := j ∈ _)]
    rfl

/-! ## One message -/

/-- Where deliveries are acknowledged one by one, an acknowledgement settles its own or none. -/
theorem settledBy_cases (h : c.settings.ackPolicy = .explicit) (n : Nat) (kind : AckKind) :
    c.settledBy n kind = [] ∨ c.settledBy n kind = [n] ∧ c.pending.contains n = true := by
  have hone : (if c.pending.contains n then [n] else []) = [] ∨
      (if c.pending.contains n then [n] else []) = [n] ∧ c.pending.contains n = true := by
    split
    · next hn => exact .inr ⟨rfl, hn⟩
    · exact .inl rfl
  cases kind with
  | ack | confirmedAck =>
    simp only [settledBy, h]
    exact hone
  | terminate => exact hone
  | nak | inProgress => exact .inl rfl

theorem settledBy_congr (h : c.settings.ackPolicy = .explicit)
    (hsettings : c'.settings = c.settings) (hpending : c'.pending.contains n = c.pending.contains n)
    (kind : AckKind) : c'.settledBy n kind = c.settledBy n kind := by
  cases kind <;> simp only [settledBy, hsettings, h, hpending]

/-- What is pending behind an acknowledgement is what was pending and is not settled. -/
theorem contains_acknowledge (c : Cursor) (n k : Nat) (kind : AckKind) (now : Instant) :
    (c.acknowledge n kind now).2.pending.contains k =
      (c.pending.contains k && !decide (k ∈ c.settledBy n kind)) := by
  rw [SeqMap.contains, SeqMap.contains, get?_pending_acknowledge]
  by_cases hk : k ∈ c.settledBy n kind
  · rw [if_pos hk, decide_eq_true hk, Bool.not_true, Bool.and_false]
    rfl
  · rw [if_neg hk, decide_eq_false hk, Bool.not_false, Bool.and_true]
    split
    · split
      · exact Option.isSome_map
      · rfl
    · rfl

/-- An acknowledgement of one message does not change what one of another settles. -/
theorem settledBy_acknowledge (h : c.settings.ackPolicy = .explicit) (hne : k ≠ n)
    (kind kind' : AckKind) (now : Instant) :
    (c.acknowledge n kind now).2.settledBy k kind' = c.settledBy k kind' := by
  refine settledBy_congr h (samePlace_acknowledge c n kind now).settings ?_ kind'
  have hk : k ∉ c.settledBy n kind := by
    rcases settledBy_cases h n kind with heq | ⟨heq, -⟩ <;> simp [heq, hne]
  rw [contains_acknowledge, decide_eq_false hk, Bool.not_false, Bool.and_true]

/-- An acknowledgement that settles nothing leaves the place of the floor. -/
theorem lowestOpen_acknowledge (h : c.settledBy n kind = []) (now : Instant) :
    (c.acknowledge n kind now).2.lowestOpen = c.lowestOpen := by
  refine lowestOpen_congr (samePlace_acknowledge c n kind now).delivered fun j => ?_
  rw [get?_pending_acknowledge, h, if_neg List.not_mem_nil]
  split
  · split
    · rw [Option.map_map]
      rfl
    · rfl
  · rfl

/-- An acknowledgement only moves the floor up. -/
theorem Grounded.ackFloor_le (hc : c.Grounded) (n : Nat) (kind : AckKind) (now : Instant) :
    c.ackFloor.stream ≤ (c.acknowledge n kind now).2.ackFloor.stream := by
  have hplace := samePlace_acknowledge c n kind now
  have hpending {j : Nat} (hj : (c.acknowledge n kind now).2.pending.contains j = true) :
      c.pending.contains j = true := by
    rw [contains_acknowledge, Bool.and_eq_true] at hj
    exact hj.1
  rcases floor_acknowledge c n kind now with ⟨-, hfloor, -⟩ | ⟨-, hfloor, -⟩
  · exact Nat.le_of_eq (congrArg SequencePair.stream hfloor.symm)
  · -- The floor would be grounded where it was, so it may come to below what is pending.
    have hgrounded : Grounded { (c.acknowledge n kind now).2 with ackFloor := c.ackFloor } :=
      { floor_le := fun hj => hc.floor_le (hpending hj)
        le_delivered := fun hj => hplace.delivered ▸ hc.le_delivered (hpending hj)
        floor_le_delivered := hplace.delivered ▸ hc.floor_le_delivered
        delivered_lt := hplace.delivered ▸ hplace.nextSeq ▸ hc.delivered_lt }
    rw [hfloor]
    exact hgrounded.lowestOpen_le.1

/-! ## Two messages -/

theorem SamePlace.symm (h : c.SamePlace c') : c'.SamePlace c :=
  ⟨h.settings.symm, h.startSeq.symm, h.newestOnly.symm, h.nextSeq.symm, h.delivered.symm⟩

theorem eq_of_samePlace (h : c.SamePlace c') (hfloor : c'.ackFloor = c.ackFloor)
    (hpending : c'.pending = c.pending) (hacked : c'.acked = c.acked)
    (hwaiting : c'.waiting = c.waiting) (hactive : c'.lastActive = c.lastActive) : c' = c := by
  obtain ⟨hsettings, hstart, hnewest, hnext, hdelivered⟩ := h
  cases c
  cases c'
  simp_all

/-- An acknowledgement of one message leaves the delivery of another as it is. -/
theorem get?_pending_of_ne (h : c.settings.ackPolicy = .explicit) (hne : k ≠ n) (kind : AckKind)
    (now : Instant) : (c.acknowledge n kind now).2.pending.get? k = c.pending.get? k := by
  have hk : k ∉ c.settledBy n kind := by
    rcases settledBy_cases h n kind with heq | ⟨heq, -⟩ <;> simp [heq, hne]
  simp only [get?_pending_acknowledge, if_neg hk, if_neg hne]
  split <;> rfl

/-- What becomes of a delivery that is acknowledged does not depend on the others. -/
theorem get?_pending_behind (h : c.settings.ackPolicy = .explicit) (hne : n ≠ k)
    (kind kind' : AckKind) (now : Instant) :
    ((c.acknowledge k kind' now).2.acknowledge n kind now).2.pending.get? n =
      (c.acknowledge n kind now).2.pending.get? n := by
  have hdeadline : (c.acknowledge k kind' now).2.newDeadline now kind = c.newDeadline now kind := by
    have hsettings := (samePlace_acknowledge c k kind' now).settings
    cases kind <;> simp only [newDeadline, redeliveryAt, hsettings]
  rw [get?_pending_acknowledge, settledBy_acknowledge h hne, hdeadline, get?_pending_of_ne h hne,
    get?_pending_acknowledge]

theorem pending_acknowledge_comm (h : c.settings.ackPolicy = .explicit) (hne : n ≠ k)
    (kind kind' : AckKind) (now : Instant) :
    ((c.acknowledge n kind now).2.acknowledge k kind' now).2.pending =
      ((c.acknowledge k kind' now).2.acknowledge n kind now).2.pending := by
  have hn := (samePlace_acknowledge c n kind now).settings
  have hk := (samePlace_acknowledge c k kind' now).settings
  apply SeqMap.ext_get?
  intro j
  by_cases hjn : j = n
  · subst hjn
    rw [get?_pending_behind h hne, get?_pending_of_ne (hn ▸ h) hne]
  · by_cases hjk : j = k
    · subst hjk
      rw [get?_pending_behind h (Ne.symm hne), get?_pending_of_ne (hk ▸ h) (Ne.symm hne)]
    · rw [get?_pending_of_ne (hn ▸ h) hjk, get?_pending_of_ne h hjn,
        get?_pending_of_ne (hk ▸ h) hjn, get?_pending_of_ne h hjk]

theorem lowestOpen_acknowledge_comm (h : c.settings.ackPolicy = .explicit) (hne : n ≠ k)
    (kind kind' : AckKind) (now : Instant) :
    ((c.acknowledge n kind now).2.acknowledge k kind' now).2.lowestOpen =
      ((c.acknowledge k kind' now).2.acknowledge n kind now).2.lowestOpen := by
  refine lowestOpen_congr ?_ fun j => by rw [pending_acknowledge_comm h hne]
  simp only [(samePlace_acknowledge ..).delivered]

/-- Two acknowledgements come to one place, whichever is first, if they agree on the floor. -/
theorem acknowledge_comm_of_floor (h : c.settings.ackPolicy = .explicit) (hne : n ≠ k)
    {kind kind' : AckKind} {now : Instant}
    (hfloor : ((c.acknowledge n kind now).2.acknowledge k kind' now).2.ackFloor =
      ((c.acknowledge k kind' now).2.acknowledge n kind now).2.ackFloor)
    (hacked : ((c.acknowledge n kind now).2.acknowledge k kind' now).2.acked =
      ((c.acknowledge k kind' now).2.acknowledge n kind now).2.acked) :
    ((c.acknowledge n kind now).2.acknowledge k kind' now).2 =
      ((c.acknowledge k kind' now).2.acknowledge n kind now).2 := by
  have hplace (i j : Nat) (kind kind' : AckKind) :
      c.SamePlace ((c.acknowledge i kind now).2.acknowledge j kind' now).2 :=
    (samePlace_acknowledge ..).trans (samePlace_acknowledge ..)
  -- Besides the floor and what is acknowledged, only the last activity is written.
  have hrest (c : Cursor) (i : Nat) (kind : AckKind) :
      (c.acknowledge i kind now).2.waiting = c.waiting ∧
        (c.acknowledge i kind now).2.lastActive = now := by
    simp only [acknowledge, settle]
    split <;> exact ⟨rfl, rfl⟩
  refine eq_of_samePlace ((hplace k n kind' kind).symm.trans (hplace n k kind kind')) hfloor
    (pending_acknowledge_comm h hne kind kind' now) hacked ?_ ?_
  · simp only [(hrest ..).1]
  · simp only [(hrest ..).2]

/-- An acknowledgement that settles nothing may come before or after another one. -/
theorem acknowledge_comm_of_kept (h : c.settings.ackPolicy = .explicit) (hne : n ≠ k)
    {kind' : AckKind} (hkept : c.settledBy k kind' = []) (kind : AckKind) (now : Instant) :
    ((c.acknowledge n kind now).2.acknowledge k kind' now).2 =
      ((c.acknowledge k kind' now).2.acknowledge n kind now).2 := by
  have hkept' := (settledBy_acknowledge h (Ne.symm hne) kind kind' now).trans hkept
  have hsame := settledBy_acknowledge h hne kind' kind now
  obtain ⟨hfloor, hacked⟩ : (c.acknowledge k kind' now).2.ackFloor = c.ackFloor ∧
      (c.acknowledge k kind' now).2.acked = c.acked := by
    rcases floor_acknowledge c k kind' now with ⟨-, h⟩ | ⟨h, -⟩
    · exact h
    · exact absurd hkept h
  obtain ⟨hfloor', hacked'⟩ :
      ((c.acknowledge n kind now).2.acknowledge k kind' now).2.ackFloor =
        (c.acknowledge n kind now).2.ackFloor ∧
      ((c.acknowledge n kind now).2.acknowledge k kind' now).2.acked =
        (c.acknowledge n kind now).2.acked := by
    rcases floor_acknowledge (c.acknowledge n kind now).2 k kind' now with ⟨-, h⟩ | ⟨h, -⟩
    · exact h
    · exact absurd hkept' h
  have hopen : ((c.acknowledge k kind' now).2.acknowledge n kind now).2.lowestOpen =
      (c.acknowledge n kind now).2.lowestOpen := by
    rw [← lowestOpen_acknowledge_comm h hne kind kind' now, lowestOpen_acknowledge hkept' now]
  -- The other acknowledgement settles the same in both orders.
  rcases floor_acknowledge c n kind now with ⟨hnone, hf, ha⟩ | ⟨hsome, hf, ha⟩
  · rcases floor_acknowledge (c.acknowledge k kind' now).2 n kind now with
      ⟨-, hf', ha'⟩ | ⟨hsome, -⟩
    · exact acknowledge_comm_of_floor h hne (by rw [hfloor', hf, hf', hfloor])
        (by rw [hacked', ha, ha', hacked])
    · exact absurd (hsame.trans hnone) hsome
  · rcases floor_acknowledge (c.acknowledge k kind' now).2 n kind now with
      ⟨hnone, -⟩ | ⟨-, hf', ha'⟩
    · exact absurd (hsame.symm.trans hnone) hsome
    · have heq := hf'.trans (hopen.trans hf.symm)
      refine acknowledge_comm_of_floor h hne (hfloor'.trans heq.symm) ?_
      apply SeqSet.ext_contains
      intro j
      rw [Bool.eq_iff_iff, hacked', ha, ha', heq, hacked, hsame]

/-- Two acknowledgements that both settle something leave the floor below what is pending behind
both. -/
theorem acknowledge_comm_of_settled (hc : c.Grounded) (h : c.settings.ackPolicy = .explicit)
    (hne : n ≠ k) {kind kind' : AckKind} (hn : c.settledBy n kind ≠ [])
    (hk : c.settledBy k kind' ≠ []) (now : Instant) :
    ((c.acknowledge n kind now).2.acknowledge k kind' now).2 =
      ((c.acknowledge k kind' now).2.acknowledge n kind now).2 := by
  -- What is noted above the floor in the end, whichever acknowledgement is first.
  have hnoted {n k : Nat} (hne : n ≠ k) {kind kind' : AckKind} (hn : c.settledBy n kind ≠ [])
      (hk : c.settledBy k kind' ≠ []) :
      ((c.acknowledge n kind now).2.acknowledge k kind' now).2.ackFloor =
        ((c.acknowledge n kind now).2.acknowledge k kind' now).2.lowestOpen ∧
      ∀ j, ((c.acknowledge n kind now).2.acknowledge k kind' now).2.acked.contains j = true ↔
        ((c.acknowledge n kind now).2.acknowledge k kind' now).2.ackFloor.stream < j ∧
          (c.acked.contains j = true ∨ j ∈ c.settledBy n kind ∨ j ∈ c.settledBy k kind') := by
    have hsame := settledBy_acknowledge h (Ne.symm hne) kind kind' now
    have hgrounded := ((steps_acknowledge Index.empty c n kind now).notes hc).grounded
    have hle := hgrounded.ackFloor_le k kind' now
    rcases floor_acknowledge c n kind now with ⟨hnone, -⟩ | ⟨-, -, ha⟩
    · exact absurd hnone hn
    · rcases floor_acknowledge (c.acknowledge n kind now).2 k kind' now with
        ⟨hnone, -⟩ | ⟨-, hf', ha'⟩
      · exact absurd (hsame.symm.trans hnone) hk
      · refine ⟨hf', fun j => ?_⟩
        rw [ha', ha, hsame]
        constructor
        · rintro ⟨hlt, ⟨-, hj⟩ | hj⟩
          · exact ⟨hlt, or_assoc.1 (.inl hj)⟩
          · exact ⟨hlt, .inr (.inr hj)⟩
        · rintro ⟨hlt, hj⟩
          rcases or_assoc.2 hj with hj | hj
          · exact ⟨hlt, .inl ⟨Nat.lt_of_le_of_lt hle hlt, hj⟩⟩
          · exact ⟨hlt, .inr hj⟩
  obtain ⟨hfloor, hacked⟩ := hnoted hne hn hk
  obtain ⟨hfloor', hacked'⟩ := hnoted (Ne.symm hne) hk hn
  have heq := hfloor.trans ((lowestOpen_acknowledge_comm h hne kind kind' now).trans hfloor'.symm)
  refine acknowledge_comm_of_floor h hne heq ?_
  apply SeqSet.ext_contains
  intro j
  rw [Bool.eq_iff_iff, hacked, hacked', heq, or_comm (a := j ∈ c.settledBy n kind)]

/-- **Acknowledgements of two messages come to one cursor**, whichever is first. -/
theorem Grounded.acknowledge_comm (hc : c.Grounded) (h : c.settings.ackPolicy = .explicit)
    (hne : n ≠ k) (kind kind' : AckKind) (now : Instant) :
    ((c.acknowledge n kind now).2.acknowledge k kind' now).2 =
      ((c.acknowledge k kind' now).2.acknowledge n kind now).2 := by
  by_cases hk : c.settledBy k kind' = []
  · exact acknowledge_comm_of_kept h hne hk kind now
  · by_cases hn : c.settledBy n kind = []
    · exact (acknowledge_comm_of_kept h (Ne.symm hne) hn kind' now).symm
    · exact acknowledge_comm_of_settled hc h hne hn hk now

/-! ## What is needed -/

/-- **A cursor needs behind an acknowledgement what it needed and did not settle by it.** -/
theorem Tracks.needs_acknowledge {x : Index} {m : StoredMessage} (hx : x.Keyed) (hc : c.Tracks x)
    (hm : x.get? j = some m) (n : Nat) (kind : AckKind) (now : Instant) :
    (c.acknowledge n kind now).2.needs j m.subject = true ↔
      c.needs j m.subject = true ∧ j ∉ c.settledBy n kind := by
  have hserves := (steps_acknowledge x c n kind now).serves hx hc
  have hplace := samePlace_acknowledge c n kind now
  rw [hserves.tracks.needs_iff hm, hc.needs_iff hm, hserves.choice.isEligible_eq, hplace.nextSeq,
    contains_acknowledge, Bool.and_eq_true, Bool.not_eq_true', decide_eq_false_iff_not, and_assoc]
  apply and_congr_right
  intro _
  constructor
  · rintro (hle | ⟨hpending, hmem⟩)
    · -- What was not looked at is not pending, so it is not settled.
      refine ⟨.inl hle, fun hmem => ?_⟩
      exact absurd (hc.pending_lt ((mem_settledBy_iff ..).1 hmem).1) (Nat.not_lt_of_le hle)
    · exact ⟨.inr hpending, hmem⟩
  · rintro ⟨hle | hpending, hmem⟩
    · exact .inl hle
    · exact .inr ⟨hpending, hmem⟩

end Cursor

end StreamBroker
