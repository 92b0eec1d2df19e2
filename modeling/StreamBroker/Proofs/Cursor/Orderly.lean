import Mathlib.Logic.Relation
import StreamBroker.Proofs.Cursor.Course

/-!
# The order of a cursor

A cursor keeps two numbers of every delivery, the one in its stream and its own, and both rise
together.  Floor, pending deliveries, last delivery and the number that is next stand in this order,
and what is settled stands between the floor and the last delivery, besides what is pending.  The
floor moves only sometimes, and then to right below whatever is pending first, so it is not clear by
itself that it never falls back.  It does not, because what is pending stays above it and in order.

None of this depends on what became of the stream between two pulls, nor on the settings.  A pull
may find any messages that have their numbers and begin with one.

## Main definitions

* `Cursor.Orderly`: the numbers of a cursor are in order
* `Cursor.IsAtRest`: the floor of a cursor without pending deliveries
* `Cursor.Thins`: deliveries are settled, put off, repeated or forgotten
* `Cursor.Underway`: what every step of a pull keeps
* `Cursor.GoesOn`: what may be done to a cursor

## Main results

* `Cursor.Orderly.lowestOpen`: where the floor moves to
* `Cursor.Orderly.goesOn`: the order is kept, and the floor does not fall
* `Cursor.in_order`: the order of every cursor
-/

namespace StreamBroker

/-- Two numbers of one delivery are at most two others. -/
def SequencePair.IsBelow (a b : SequencePair) : Prop :=
  a.consumer ≤ b.consumer ∧ a.stream ≤ b.stream

theorem SequencePair.IsBelow.refl (a : SequencePair) : a.IsBelow a := ⟨Nat.le_refl _, Nat.le_refl _⟩

theorem SequencePair.IsBelow.trans {a b c : SequencePair} (h : a.IsBelow b) (h' : b.IsBelow c) :
    a.IsBelow c :=
  ⟨Nat.le_trans h.1 h'.1, Nat.le_trans h.2 h'.2⟩

namespace Cursor

variable {c c' : Cursor} {x : Index} {l : Limits} {h : Haul} {n : Nat} {now : Instant}

/-! ## The order -/

/-- The numbers of a cursor are in order. -/
structure Orderly (c : Cursor) : Prop where
  /-- What is pending is not before the start. -/
  start_le : ∀ {n p}, c.pending.get? n = some p → c.startSeq ≤ n
  /-- What is pending was looked at. -/
  lt_nextSeq : ∀ {n p}, c.pending.get? n = some p → n < c.nextSeq
  /-- What is pending is above the floor. -/
  floor_lt : ∀ {n p}, c.pending.get? n = some p →
    c.ackFloor.stream < n ∧ c.ackFloor.consumer < p.consumerSeq
  /-- What is pending was delivered. -/
  le_delivered : ∀ {n p}, c.pending.get? n = some p →
    n ≤ c.delivered.stream ∧ p.consumerSeq ≤ c.delivered.consumer
  /-- The numbers of the consumer rise with those of the stream. -/
  consumerSeq_lt : ∀ {n k p q}, c.pending.get? n = some p → c.pending.get? k = some q → n < k →
    p.consumerSeq < q.consumerSeq
  /-- What is pending is not settled. -/
  not_acked : ∀ {n}, c.pending.contains n = true → c.acked.contains n = false
  /-- What is kept as settled is above the floor. -/
  floor_lt_acked : ∀ {n}, c.acked.contains n = true → c.ackFloor.stream < n
  /-- What is kept as settled was delivered. -/
  acked_le : ∀ {n}, c.acked.contains n = true → n ≤ c.delivered.stream
  /-- The floor is not above the last delivery. -/
  floor_below : c.ackFloor.IsBelow c.delivered
  /-- The last delivery was looked at, if there was one. -/
  delivered_lt : c.delivered.stream < max c.nextSeq 1
  /-- Nothing before the start is next. -/
  start_le_nextSeq : c.startSeq ≤ c.nextSeq

/-- The floor of a cursor without pending deliveries is its last delivery. -/
def IsAtRest (c : Cursor) : Prop := c.pending.isEmpty = true → c.ackFloor = c.delivered

theorem orderly_start (settings : ConsumerSettings) (x : Index) (now : Instant) :
    (start settings x now).Orderly where
  start_le h := nomatch h
  lt_nextSeq h := nomatch h
  floor_lt h := nomatch h
  le_delivered h := nomatch h
  consumerSeq_lt h := nomatch h
  not_acked h := nomatch h
  floor_lt_acked h := nomatch h
  acked_le h := nomatch h
  floor_below := .refl _
  delivered_lt := (grounded_start settings x now).delivered_lt
  start_le_nextSeq := Nat.le_refl _

/-! ## What is thinned out -/

/-- A cursor stays at its place, or passes over messages, and some of what is pending is settled,
put off, repeated or forgotten. -/
structure Thins (c c' : Cursor) : Prop where
  /-- It began with the same number. -/
  startSeq : c'.startSeq = c.startSeq
  /-- It goes back to no number. -/
  nextSeq_le : c.nextSeq ≤ c'.nextSeq
  /-- It made the same last delivery. -/
  delivered : c'.delivered = c.delivered
  /-- Its floor stays. -/
  ackFloor : c'.ackFloor = c.ackFloor
  /-- What is pending was pending under the same number of the consumer. -/
  of_pending : ∀ {n p}, c'.pending.get? n = some p →
    ∃ q, c.pending.get? n = some q ∧ q.consumerSeq = p.consumerSeq
  /-- What is settled was settled, or was pending and is not. -/
  of_acked : ∀ {n}, c'.acked.contains n = true → c.acked.contains n = true ∨
    c.pending.contains n = true ∧ c'.pending.contains n = false

theorem Orderly.thins (hc : c.Orderly) (h : c.Thins c') : c'.Orderly where
  start_le hp := by
    obtain ⟨q, hq, -⟩ := h.of_pending hp
    rw [h.startSeq]
    exact hc.start_le hq
  lt_nextSeq hp := by
    obtain ⟨q, hq, -⟩ := h.of_pending hp
    exact Nat.lt_of_lt_of_le (hc.lt_nextSeq hq) h.nextSeq_le
  floor_lt hp := by
    obtain ⟨q, hq, heq⟩ := h.of_pending hp
    rw [h.ackFloor, ← heq]
    exact hc.floor_lt hq
  le_delivered hp := by
    obtain ⟨q, hq, heq⟩ := h.of_pending hp
    rw [h.delivered, ← heq]
    exact hc.le_delivered hq
  consumerSeq_lt hp hp' hlt := by
    obtain ⟨q, hq, heq⟩ := h.of_pending hp
    obtain ⟨q', hq', heq'⟩ := h.of_pending hp'
    rw [← heq, ← heq']
    exact hc.consumerSeq_lt hq hq' hlt
  not_acked {n} hn := by
    obtain ⟨p, hp⟩ := SeqMap.contains_iff.1 hn
    obtain ⟨q, hq, -⟩ := h.of_pending hp
    refine Bool.eq_false_iff.2 fun hacked => ?_
    rcases h.of_acked hacked with hacked | ⟨-, hgone⟩
    · rw [hc.not_acked (SeqMap.contains_iff.2 ⟨q, hq⟩)] at hacked
      cases hacked
    · rw [hn] at hgone
      cases hgone
  floor_lt_acked hn := by
    rw [h.ackFloor]
    rcases h.of_acked hn with hn | ⟨hn, -⟩
    · exact hc.floor_lt_acked hn
    · obtain ⟨p, hp⟩ := SeqMap.contains_iff.1 hn
      exact (hc.floor_lt hp).1
  acked_le hn := by
    rw [h.delivered]
    rcases h.of_acked hn with hn | ⟨hn, -⟩
    · exact hc.acked_le hn
    · obtain ⟨p, hp⟩ := SeqMap.contains_iff.1 hn
      exact (hc.le_delivered hp).1
  floor_below := by
    rw [h.ackFloor, h.delivered]
    exact hc.floor_below
  delivered_lt := by
    have hlt := hc.delivered_lt
    have hle := h.nextSeq_le
    rw [h.delivered]
    omega
  start_le_nextSeq := by
    rw [h.startSeq]
    exact Nat.le_trans hc.start_le_nextSeq h.nextSeq_le

theorem thins_giveUp (hn : c.pending.contains n = true) : c.Thins (c.giveUp n) where
  startSeq := rfl
  nextSeq_le := Nat.le_refl _
  delivered := rfl
  ackFloor := rfl
  of_pending {k p} hp := by
    rw [giveUp, SeqMap.get?_erase] at hp
    split at hp
    · cases hp
    · exact ⟨p, hp, rfl⟩
  of_acked {k} hk := by
    rw [giveUp, SeqSet.add, SeqMap.contains_insert, Bool.or_eq_true, decide_eq_true_eq] at hk
    rcases hk with rfl | hk
    · refine .inr ⟨hn, ?_⟩
      rw [giveUp, SeqMap.contains_erase]
      simp
    · exact .inl hk

theorem thins_repeatDelivery (c : Cursor) (now : Instant) (n : Nat) :
    c.Thins (c.repeatDelivery now n) where
  startSeq := rfl
  nextSeq_le := Nat.le_refl _
  delivered := rfl
  ackFloor := rfl
  of_pending {k p} hp := by
    rw [repeatDelivery, SeqMap.get?_modify] at hp
    split at hp
    · obtain ⟨q, hq, rfl⟩ := Option.map_eq_some_iff.1 hp
      exact ⟨q, hq, rfl⟩
    · exact ⟨p, hp, rfl⟩
  of_acked hk := .inl hk

/-- What is gone is forgotten. -/
theorem thins_forget (c : Cursor) (x : Index) :
    c.Thins { c with pending := c.pending.filter fun n _ => x.contains n } where
  startSeq := rfl
  nextSeq_le := Nat.le_refl _
  delivered := rfl
  ackFloor := rfl
  of_pending {n p} hp := by
    rw [SeqMap.get?_filter] at hp
    exact ⟨p, (Option.filter_eq_some_iff.1 hp).1, rfl⟩
  of_acked hn := .inl hn

/-- What is looked at, or changes in what the order is not about. -/
theorem thins_of_pending_eq (hstart : c'.startSeq = c.startSeq) (hnext : c.nextSeq ≤ c'.nextSeq)
    (hdelivered : c'.delivered = c.delivered) (hfloor : c'.ackFloor = c.ackFloor)
    (hpending : c'.pending = c.pending) (hacked : c'.acked = c.acked) : c.Thins c' where
  startSeq := hstart
  nextSeq_le := hnext
  delivered := hdelivered
  ackFloor := hfloor
  of_pending {_ p} hp := ⟨p, hpending ▸ hp, rfl⟩
  of_acked hn := .inl (hacked ▸ hn)

/-! ## A new delivery -/

theorem get?_pending_deliver {k : Nat} {p : PendingDelivery}
    (hp : (c.deliver now n).pending.get? k = some p) :
    k = n ∧ p.consumerSeq = c.delivered.consumer + 1 ∨ c.pending.get? k = some p := by
  simp only [deliver] at hp
  split at hp
  · exact .inr hp
  · rw [SeqMap.get?_insert] at hp
    split at hp
    · next hk =>
      cases hp
      exact .inl ⟨hk, rfl⟩
    · exact .inr hp

theorem delivered_deliver_eq (c : Cursor) (now : Instant) (n : Nat) :
    (c.deliver now n).delivered = ⟨c.delivered.consumer + 1, n⟩ := by
  simp only [deliver]
  split <;> rfl

/-- What is handed out for the first time comes behind all that is pending or settled. -/
theorem Orderly.deliver (hc : c.Orderly) (hle : c.nextSeq ≤ n) (hpos : 0 < n) (now : Instant) :
    (c.deliver now n).Orderly := by
  have hnext := nextSeq_deliver c now n
  have hdelivered := delivered_deliver_eq c now n
  have hfloor := (delivered_deliver c now n).2
  have hlt : c.delivered.stream < n := by
    have := hc.delivered_lt
    omega
  have hbelow := hc.floor_below
  exact {
    start_le := by
      intro k p hp
      rw [(sameChoice_deliver c now n).startSeq]
      rcases get?_pending_deliver hp with ⟨rfl, -⟩ | hp
      · exact Nat.le_trans hc.start_le_nextSeq hle
      · exact hc.start_le hp
    lt_nextSeq := by
      intro k p hp
      rw [hnext]
      rcases get?_pending_deliver hp with ⟨rfl, -⟩ | hp
      · exact Nat.lt_succ_self k
      · have := (hc.le_delivered hp).1
        omega
    floor_lt := by
      intro k p hp
      rw [hfloor]
      rcases get?_pending_deliver hp with ⟨rfl, hseq⟩ | hp
      · exact ⟨Nat.lt_of_le_of_lt hbelow.2 hlt, hseq ▸ Nat.lt_succ_of_le hbelow.1⟩
      · exact hc.floor_lt hp
    le_delivered := by
      intro k p hp
      rw [hdelivered]
      rcases get?_pending_deliver hp with ⟨rfl, hseq⟩ | hp
      · exact ⟨Nat.le_refl k, Nat.le_of_eq hseq⟩
      · obtain ⟨hstream, hconsumer⟩ := hc.le_delivered hp
        exact ⟨by dsimp only; omega, by dsimp only; omega⟩
    consumerSeq_lt := by
      intro i k p q hp hq hik
      rcases get?_pending_deliver hp with ⟨rfl, -⟩ | hold
      · -- Nothing that was pending is behind the new delivery.
        rcases get?_pending_deliver hq with ⟨rfl, -⟩ | hold
        · exact absurd hik (Nat.lt_irrefl _)
        · have := (hc.le_delivered hold).1
          omega
      · rcases get?_pending_deliver hq with ⟨rfl, hseq⟩ | hold'
        · have := (hc.le_delivered hold).2
          omega
        · exact hc.consumerSeq_lt hold hold' hik
    not_acked := by
      intro k hk
      refine Bool.eq_false_iff.2 fun hacked => ?_
      -- The new delivery is pending or settled, as the policy says, and neither was before.
      rcases (pending_deliver_iff ..).1 hk with hold | ⟨rfl, hpolicy⟩
      · rcases (acked_deliver_iff ..).1 hacked with hacked | ⟨rfl, -⟩
        · rw [hc.not_acked hold] at hacked
          cases hacked
        · obtain ⟨p, hp⟩ := SeqMap.contains_iff.1 hold
          exact absurd (hc.le_delivered hp).1 (Nat.not_le_of_lt hlt)
      · rcases (acked_deliver_iff ..).1 hacked with hacked | ⟨-, hnone⟩
        · exact absurd (hc.acked_le hacked) (Nat.not_le_of_lt hlt)
        · exact hpolicy hnone
    floor_lt_acked := by
      intro k hk
      rw [hfloor]
      rcases (acked_deliver_iff ..).1 hk with hk | ⟨rfl, -⟩
      · exact hc.floor_lt_acked hk
      · exact Nat.lt_of_le_of_lt hbelow.2 hlt
    acked_le := by
      intro k hk
      rw [hdelivered]
      rcases (acked_deliver_iff ..).1 hk with hk | ⟨rfl, -⟩
      · exact Nat.le_of_lt (Nat.lt_of_le_of_lt (hc.acked_le hk) hlt)
      · exact Nat.le_refl k
    floor_below := by
      rw [hfloor, hdelivered]
      exact ⟨Nat.le_succ_of_le hbelow.1, Nat.le_of_lt (Nat.lt_of_le_of_lt hbelow.2 hlt)⟩
    delivered_lt := by
      rw [hdelivered, hnext]
      exact Nat.lt_of_lt_of_le (Nat.lt_succ_self n) (Nat.le_max_left ..)
    start_le_nextSeq := by
      rw [(sameChoice_deliver c now n).startSeq, hnext]
      exact Nat.le_succ_of_le (Nat.le_trans hc.start_le_nextSeq hle) }

/-! ## The floor -/

/-- Where the floor moves to: up, and to below all that is pending. -/
theorem Orderly.lowestOpen (hc : c.Orderly) :
    c.ackFloor.IsBelow c.lowestOpen ∧ c.lowestOpen.IsBelow c.delivered ∧
      ∀ {n p}, c.pending.get? n = some p →
        c.lowestOpen.stream < n ∧ c.lowestOpen.consumer < p.consumerSeq := by
  rw [Cursor.lowestOpen]
  cases hfirst : c.pending.first? with
  | none =>
    have hempty := SeqMap.isEmpty_iff.1 (SeqMap.first?_eq_none_iff.1 hfirst)
    refine ⟨hc.floor_below, .refl _, fun {n p} hp => ?_⟩
    rw [hempty n] at hp
    cases hp
  | some e =>
    obtain ⟨k, q⟩ := e
    obtain ⟨hq, hlowest⟩ := SeqMap.first?_eq_some_iff.1 hfirst
    obtain ⟨hstream, hconsumer⟩ := hc.floor_lt hq
    obtain ⟨hstream', hconsumer'⟩ := hc.le_delivered hq
    refine ⟨⟨Nat.le_sub_one_of_lt hconsumer, Nat.le_sub_one_of_lt hstream⟩,
      ⟨Nat.le_trans (Nat.sub_le ..) hconsumer', Nat.le_trans (Nat.sub_le ..) hstream'⟩,
      fun {n p} hp => ?_⟩
    dsimp only
    -- The first pending delivery is the lowest in both numbers.
    have hle : k ≤ n := hlowest n p hp
    rcases Nat.eq_or_lt_of_le hle with rfl | hlt
    · rw [hq, Option.some.injEq] at hp
      subst hp
      omega
    · have := hc.consumerSeq_lt hq hp hlt
      omega

theorem Orderly.advanceFloor (hc : c.Orderly) : c.advanceFloor.Orderly := by
  obtain ⟨-, hbelow, hopen⟩ := hc.lowestOpen
  have hacked {n : Nat} (hn : c.advanceFloor.acked.contains n = true) :=
    (acked_advanceFloor_iff c n).1 hn
  exact
    { hc with
      floor_lt := hopen
      not_acked := fun hn => Bool.eq_false_iff.2 fun h => by
        have hold := (hacked h).2
        rw [hc.not_acked hn] at hold
        cases hold
      floor_lt_acked := fun hn => (hacked hn).1
      acked_le := fun hn => hc.acked_le (hacked hn).2
      floor_below := hbelow }

theorem isAtRest_advanceFloor (c : Cursor) : c.advanceFloor.IsAtRest := by
  intro hempty
  have hfirst : c.pending.first? = none := SeqMap.first?_eq_none_iff.2 hempty
  show c.lowestOpen = c.delivered
  rw [lowestOpen, hfirst]

/-! ## Pulls -/

/-- A pull is on its way: the order is kept, the floor stays, and it has to move in the end only if
something is settled. -/
structure Underway (floor : SequencePair) (c : Cursor) (h : Haul) : Prop where
  orderly : c.Orderly
  ackFloor : c.ackFloor = floor
  rest : h.settled = [] → c.IsAtRest

namespace Underway

variable {floor : SequencePair} {ms : List StoredMessage} {m : StoredMessage}

/-- A pull that settles something has to move the floor. -/
theorem of_settle (horderly : c.Orderly) (hfloor : c.ackFloor = floor) (h : Haul) (n : Nat) :
    Underway floor c (h.settle n) where
  orderly := horderly
  ackFloor := hfloor
  rest hnone := absurd (List.append_eq_nil_iff.1 hnone).2 (List.cons_ne_nil n [])

theorem refuse (hc : Underway floor c h) (size : Nat) : Underway floor c (h.refuse size) := by
  rw [Haul.refuse]
  split <;> exact ⟨hc.orderly, hc.ackFloor, hc.rest⟩

theorem repeatDelivery (hc : Underway floor c h) (now : Instant) (n : Nat) (d : Delivery) :
    Underway floor (c.repeatDelivery now n) (h.add d) where
  orderly := hc.orderly.thins (thins_repeatDelivery c now n)
  ackFloor := hc.ackFloor
  rest hnone hempty := by
    refine hc.rest hnone (SeqMap.isEmpty_iff.2 fun k => ?_)
    have hk := SeqMap.contains_eq_false_iff.2 (SeqMap.isEmpty_iff.1 hempty k)
    rw [Cursor.repeatDelivery, SeqMap.contains_modify] at hk
    exact SeqMap.contains_eq_false_iff.1 hk

/-- A new delivery is pending, or settled at once. -/
theorem deliver (hc : Underway floor c h) (hle : c.nextSeq ≤ n) (hpos : 0 < n) (now : Instant)
    (d : Delivery) : Underway floor (c.deliver now n)
      (if c.settings.ackPolicy = .none then (h.add d).settle n else h.add d) := by
  have horderly := hc.orderly.deliver hle hpos now
  have hfloor := (delivered_deliver c now n).2.trans hc.ackFloor
  split
  · exact of_settle horderly hfloor _ n
  · next hpolicy =>
    refine ⟨horderly, hfloor, fun _ hempty => ?_⟩
    have hn : (c.deliver now n).pending.contains n = true :=
      (pending_deliver_iff ..).2 (.inr ⟨rfl, hpolicy⟩)
    rw [SeqMap.contains, SeqMap.isEmpty_iff.1 hempty n] at hn
    cases hn

theorem redeliver (hc : Underway floor c h) (x : Index) (l : Limits) (now : Instant)
    (ns : List Nat) :
    Underway floor (redeliver x l now ns c h).1 (redeliver x l now ns c h).2 := by
  induction ns generalizing c h with
  | nil => exact hc
  | cons n ns ih =>
    rw [Cursor.redeliver]
    split
    · exact hc
    · split
      · next m p hm hp =>
        split
        · have hgiven := hc.orderly.thins (thins_giveUp (SeqMap.contains_iff.2 ⟨p, hp⟩))
          exact ih (of_settle hgiven hc.ackFloor h n)
        · split
          · exact ih (hc.repeatDelivery now n _)
          · exact hc.refuse m.size
      · exact ih hc

theorem deliverNew (hc : Underway floor c h) (x : Index) (l : Limits) (now : Instant)
    (hascending : ms.Pairwise fun a b => a.sequence < b.sequence)
    (hms : ∀ m ∈ ms, c.nextSeq ≤ m.sequence ∧ 0 < m.sequence) :
    Underway floor (deliverNew x l now ms c h).1 (deliverNew x l now ms c h).2 := by
  induction ms generalizing c h with
  | nil =>
    rw [Cursor.deliverNew]
    split
    · exact hc
    · have hthins : c.Thins { c with nextSeq := max c.nextSeq (x.lastSeq + 1) } :=
        thins_of_pending_eq rfl (Nat.le_max_left ..) rfl rfl rfl rfl
      exact ⟨hc.orderly.thins hthins, hc.ackFloor, hc.rest⟩
  | cons m ms ih =>
    obtain ⟨hle, hpos⟩ := hms m List.mem_cons_self
    rw [Cursor.deliverNew]
    split
    · exact hc
    · split
      · exact ih hc hascending.of_cons fun w hw => hms w (List.mem_cons_of_mem m hw)
      · split
        · -- What is left is behind what was handed out, as the messages are in order.
          refine ih (hc.deliver hle hpos now _) hascending.of_cons fun w hw => ?_
          rw [nextSeq_deliver]
          exact ⟨List.rel_of_pairwise_cons hascending hw, (hms w (List.mem_cons_of_mem m hw)).2⟩
        · exact hc.refuse m.size

end Underway

/-! ## What is done to a cursor -/

/-- What becomes of a cursor that is in order: it stays so, its floor does not fall, and it is at
rest. -/
structure Holds (c c' : Cursor) : Prop where
  orderly : c'.Orderly
  floor_below : c.ackFloor.IsBelow c'.ackFloor
  rest : c'.IsAtRest

/-- The floor moves once whatever had to be done before is done. -/
theorem holds_advanceFloor (hc' : c'.Orderly) (hfloor : c.ackFloor.IsBelow c'.ackFloor) :
    c.Holds c'.advanceFloor where
  orderly := hc'.advanceFloor
  floor_below := hfloor.trans hc'.lowestOpen.1
  rest := isAtRest_advanceFloor c'

theorem Thins.floor_below (h : c.Thins c') : c.ackFloor.IsBelow c'.ackFloor :=
  h.ackFloor ▸ .refl _

theorem holds_of_thins (hc : c.Orderly) (h : c.Thins c') (hrest : c'.IsAtRest) : c.Holds c' :=
  ⟨hc.thins h, h.floor_below, hrest⟩

theorem holds_dropRemoved (hc : c.Orderly) (hrest : c.IsAtRest) (x : Index) :
    c.Holds (c.dropRemoved x) := by
  rw [dropRemoved]
  split
  · exact ⟨hc, .refl _, hrest⟩
  · have hthins := thins_forget c x
    exact holds_advanceFloor (hc.thins hthins) hthins.floor_below

/-- What is due is handed out again before the floor moves. -/
theorem underway_collectDue (hc : c.Orderly) (hrest : c.IsAtRest) (x : Index) (l : Limits)
    (now : Instant) : Underway (c.dropRemoved x).ackFloor (c.collectDue x l now).1
      (c.collectDue x l now).2 := by
  have hdropped := holds_dropRemoved hc hrest x
  have hthins : (c.dropRemoved x).Thins { c.dropRemoved x with lastActive := now } :=
    thins_of_pending_eq rfl (Nat.le_refl _) rfl rfl rfl rfl
  have hstarts :
      Underway (c.dropRemoved x).ackFloor { c.dropRemoved x with lastActive := now } {} :=
    ⟨hdropped.orderly.thins hthins, rfl, fun _ => hdropped.rest⟩
  exact hstarts.redeliver x l now _

/-- What a cursor has not looked at is behind what it has, and its numbers begin with one. -/
theorem forall_mem_startingAt (hx : x.Keyed) (n : Nat) :
    ∀ m ∈ x.startingAt n, n ≤ m.sequence ∧ 0 < m.sequence := by
  intro m hm
  obtain ⟨hget, hle⟩ := hx.filed.mem_startingAt_iff.1 hm
  exact ⟨hle, hx.pos hget⟩

theorem holds_collect (hx : x.Keyed) (hc : c.Orderly) (hrest : c.IsAtRest) (l : Limits)
    (now : Instant) : c.Holds (c.collect x l now).1 := by
  have hdropped := holds_dropRemoved hc hrest x
  have hdue := underway_collectDue hc hrest x l now
  -- The floor moves once more, behind all that was settled.
  have hends {c' : Cursor} {h : Haul} (h' : Underway (c.dropRemoved x).ackFloor c' h) :
      c.Holds (if h.settled.isEmpty then c' else c'.advanceFloor) := by
    have hfloor : c.ackFloor.IsBelow c'.ackFloor := h'.ackFloor ▸ hdropped.floor_below
    split
    · next hnone => exact ⟨h'.orderly, hfloor, h'.rest (List.isEmpty_iff.1 hnone)⟩
    · exact holds_advanceFloor h'.orderly hfloor
  simp only [collect]
  split
  · exact hends hdue
  · exact hends (hdue.deliverNew x l now (hx.filed.pairwise_startingAt _)
      (forall_mem_startingAt hx _))

/-- What is settled is taken out of the pending deliveries first, and the floor moves behind it. -/
theorem holds_settle {ns : List Nat} (hc : c.Orderly)
    (h : c.Thins { c' with acked := ns.foldl SeqSet.add c'.acked })
    (hrest : ns = [] → c'.IsAtRest) : c.Holds (c'.settle ns) := by
  rw [settle]
  split
  · next hnone =>
    obtain rfl := List.isEmpty_iff.1 hnone
    exact holds_of_thins hc h (hrest rfl)
  · have hfloor := h.floor_below
    exact holds_advanceFloor (hc.thins h) hfloor

theorem holds_acknowledge (hc : c.Orderly) (hrest : c.IsAtRest) (n : Nat) (kind : AckKind)
    (now : Instant) : c.Holds (c.acknowledge n kind now).2 := by
  have heq : (c.acknowledge n kind now).2 =
      settle { c with pending := (c.acknowledge n kind now).2.pending, lastActive := now }
        (c.settledBy n kind) := by
    simp only [acknowledge, settle]
    split <;> rfl
  have hpending {k : Nat} {p : PendingDelivery}
      (hp : (c.acknowledge n kind now).2.pending.get? k = some p) : k ∉ c.settledBy n kind ∧
        ∃ q, c.pending.get? k = some q ∧ q.consumerSeq = p.consumerSeq := by
    rw [get?_pending_acknowledge] at hp
    split at hp
    · cases hp
    · next hk =>
      refine ⟨hk, ?_⟩
      split at hp
      · split at hp
        · obtain ⟨q, hq, rfl⟩ := Option.map_eq_some_iff.1 hp
          exact ⟨q, hq, rfl⟩
        · exact ⟨p, hp, rfl⟩
      · exact ⟨p, hp, rfl⟩
  rw [heq]
  refine holds_settle hc ⟨rfl, Nat.le_refl _, rfl, rfl, fun hp => (hpending hp).2, ?_⟩ ?_
  · intro k hk
    rw [SeqSet.contains_foldl_add, Bool.or_eq_true, decide_eq_true_eq] at hk
    rcases hk with hk | hk
    · refine .inr ⟨((mem_settledBy_iff ..).1 hk).1, ?_⟩
      refine Bool.eq_false_iff.2 fun hpending' => ?_
      obtain ⟨p, hp⟩ := SeqMap.contains_iff.1 hpending'
      exact (hpending hp).1 hk
    · exact .inl hk
  · intro hnone hempty
    refine hrest (SeqMap.isEmpty_iff.2 fun k => ?_)
    have hk := SeqMap.isEmpty_iff.1 hempty k
    rw [get?_pending_acknowledge, hnone, if_neg List.not_mem_nil] at hk
    split at hk
    · split at hk
      · exact Option.map_eq_none_iff.1 hk
      · exact hk
    · exact hk

/-! ## Runs -/

/-- What may be done to a cursor.  What it collects from are any messages that have their numbers
and begin with one: whatever the stream has stored and removed since the last pull. -/
inductive GoesOn (c : Cursor) : Cursor → Prop where
  /-- It collects. -/
  | collected {x : Index} (hx : x.Keyed) (l : Limits) (now : Instant) :
      GoesOn c (c.collect x l now).1
  /-- It notes what the consumer says about a delivery. -/
  | acknowledged (n : Nat) (kind : AckKind) (now : Instant) :
      GoesOn c (c.acknowledge n kind now).2
  /-- It is given other settings. -/
  | configured (settings : ConsumerSettings) : GoesOn c { c with settings }
  /-- Pulls wait, or do not any more. -/
  | attended (waiting : Nat) (now : Instant) : GoesOn c { c with waiting, lastActive := now }

/-- **Whatever is done to a cursor keeps its order**, moves its floor up or leaves it, and leaves
it at rest. -/
theorem Orderly.goesOn (hc : c.Orderly) (hrest : c.IsAtRest) (h : c.GoesOn c') : c.Holds c' := by
  cases h with
  | collected hx l now => exact holds_collect hx hc hrest l now
  | acknowledged n kind now => exact holds_acknowledge hc hrest n kind now
  | configured settings =>
    exact holds_of_thins hc (thins_of_pending_eq rfl (Nat.le_refl _) rfl rfl rfl rfl) hrest
  | attended waiting now =>
    exact holds_of_thins hc (thins_of_pending_eq rfl (Nat.le_refl _) rfl rfl rfl rfl) hrest

theorem Orderly.run (hc : c.Orderly) (hrest : c.IsAtRest) (h : Relation.ReflTransGen GoesOn c c') :
    c.Holds c' := by
  induction h with
  | refl => exact ⟨hc, .refl _, hrest⟩
  | tail _ hstep ih =>
    obtain ⟨horderly, hfloor, hrest⟩ := ih.orderly.goesOn ih.rest hstep
    exact ⟨horderly, ih.floor_below.trans hfloor, hrest⟩

theorem holds_start (settings : ConsumerSettings) (x : Index) (now : Instant)
    (h : Relation.ReflTransGen GoesOn (start settings x now) c) : (start settings x now).Holds c :=
  (orderly_start settings x now).run (fun _ => rfl) h

/-- What happens to a cursor in a course is done to it, if the numbers begin with one. -/
theorem Course.goesOn {settings : ConsumerSettings} {x₀ : Index} {events : List CursorEvent}
    (hx₀ : x₀.Keyed) (course : Course settings x₀ events x c) :
    x.Keyed ∧ ∃ now, Relation.ReflTransGen GoesOn (start settings x₀ now) c := by
  induction course with
  | @created now _ _ => exact ⟨hx₀, now, .refl⟩
  | @stored events x c m _ hnext ih =>
    have hlt : x.lastSeq < m.sequence := by omega
    exact ⟨ih.1.commit hlt, ih.2⟩
  | removed _ hloses ih =>
    exact ⟨ih.1.of_get? hloses.get?_of_get? (Nat.le_of_eq hloses.lastSeq_eq.symm), ih.2⟩
  | collected _ l now ih =>
    obtain ⟨hx, now₀, hrun⟩ := ih
    exact ⟨hx, now₀, hrun.tail (.collected hx l now)⟩
  | acknowledged _ n kind now ih =>
    obtain ⟨hx, now₀, hrun⟩ := ih
    exact ⟨hx, now₀, hrun.tail (.acknowledged n kind now)⟩
  | @configured _ _ _ wanted _ _ ih =>
    obtain ⟨hx, now₀, hrun⟩ := ih
    exact ⟨hx, now₀, hrun.tail (.configured wanted)⟩
  | attended _ waiting now ih =>
    obtain ⟨hx, now₀, hrun⟩ := ih
    exact ⟨hx, now₀, hrun.tail (.attended waiting now)⟩

/-- The cursor of a course is in order, whatever came and went meanwhile. -/
theorem Course.orderly {settings : ConsumerSettings} {x₀ : Index} {events : List CursorEvent}
    (hx₀ : x₀.Keyed) (course : Course settings x₀ events x c) : c.Orderly ∧ c.IsAtRest := by
  obtain ⟨-, now, hrun⟩ := course.goesOn hx₀
  have hholds := holds_start settings x₀ now hrun
  exact ⟨hholds.orderly, hholds.rest⟩

/-- **The numbers of every cursor are in order**, whatever was done to it since it began: what is
pending stands between the floor and the last delivery in both its numbers, which rise together, and
what is kept as settled is above the floor and not pending.  Without pending deliveries the floor is
the last delivery, and whatever is done later, it does not fall in either number. -/
theorem in_order {settings : ConsumerSettings} {x₀ : Index} {now : Instant}
    (h : Relation.ReflTransGen GoesOn (start settings x₀ now) c) :
    c.Orderly ∧ c.IsAtRest ∧
      ∀ {c'}, Relation.ReflTransGen GoesOn c c' → c.ackFloor.IsBelow c'.ackFloor := by
  have hholds := holds_start settings x₀ now h
  exact ⟨hholds.orderly, hholds.rest, fun h' => (hholds.orderly.run hholds.rest h').floor_below⟩

/-- The second of two deliveries is settled, and then the message of the first one is removed. -/
theorem in_order_out_of_turn : ∃ settings, ∃ x₀ x : Index, ∃ c c', x.Keyed ∧
    Relation.ReflTransGen GoesOn (start settings x₀ 0) c ∧ Relation.ReflTransGen GoesOn c c' ∧
    c.pending.keys = [1] ∧ c.acked.keys = [2] ∧ c.delivered = ⟨2, 2⟩ ∧ c.ackFloor = ⟨0, 0⟩ ∧
    c'.pending.keys = [] ∧ c'.ackFloor = ⟨2, 2⟩ ∧
    c.Orderly ∧ c'.IsAtRest ∧ c.ackFloor.IsBelow c'.ackFloor := by
  obtain ⟨x₀, settings, c, c', hx₀, hc, hc', hpending, hacked, hdelivered, hfloor, hnone, hfloor'⟩ :
      ∃ x₀ settings c c',
        x₀ = (Index.empty.commit ⟨1, "s", [], [], Timestamp.ofMicros 0⟩).commit
          ⟨2, "s", [], [], Timestamp.ofMicros 0⟩ ∧
        c = (((start settings x₀ 0).collect x₀ { batch := 2 } 0).1.acknowledge 2 .ack 0).2 ∧
        c' = (c.collect (x₀.remove 1) { batch := 2 } 0).1 ∧
        c.pending.keys = [1] ∧ c.acked.keys = [2] ∧ c.delivered = ⟨2, 2⟩ ∧ c.ackFloor = ⟨0, 0⟩ ∧
        c'.pending.keys = [] ∧ c'.ackFloor = ⟨2, 2⟩ :=
    ⟨_, ConsumerSettings.withDefaults {} {}, _, _, rfl, rfl, rfl, rfl, rfl, rfl, rfl, rfl, rfl⟩
  have hsound : x₀.Sound := hx₀ ▸ (Index.empty_sound.commit (by decide)).commit (by decide)
  have hrun : Relation.ReflTransGen GoesOn (start settings x₀ 0) c := by
    rw [hc]
    exact (Relation.ReflTransGen.single (.collected hsound.toKeyed { batch := 2 } 0)).tail
      (.acknowledged 2 .ack 0)
  have hx := (hsound.remove 1).toKeyed
  have hlater : Relation.ReflTransGen GoesOn c c' := by
    rw [hc']
    exact .single (.collected hx { batch := 2 } 0)
  obtain ⟨horderly, -, hfloors⟩ := in_order hrun
  obtain ⟨-, hrest, -⟩ := in_order (hrun.trans hlater)
  exact ⟨settings, x₀, x₀.remove 1, c, c', hx, hrun, hlater, hpending, hacked, hdelivered, hfloor,
    hnone, hfloor', horderly, hrest, hfloors hlater⟩

end Cursor

end StreamBroker
