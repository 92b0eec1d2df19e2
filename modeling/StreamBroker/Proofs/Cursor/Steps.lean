import StreamBroker.Cursor
import StreamBroker.Proofs.Index.Removal

/-!
# The steps of a cursor

Whatever a cursor does is made of few kinds of steps: some of what is pending is settled, put off or
forgotten, the next message is handed out, the numbers up to the last one are done with, and the
floor moves.  The walks are taken apart here, and what is to hold of a cursor that goes on is shown
of the steps alone.

## Main definitions

* `Cursor.SameChoice`: cursors that get the same messages
* `Cursor.Ahead`: the messages that a cursor has not looked at
* `Cursor.Discharges`: what is pending is settled, put off or forgotten
* `Cursor.Step`, `Cursor.Steps`: the steps, and what is made of them
* `Cursor.Covers`: what an acknowledgement is about

## Main results

* `Cursor.steps_collect`: what is due and what is new is handed out in steps
* `Cursor.mem_settledBy_iff`: what an acknowledgement settles
* `Cursor.steps_acknowledge`: an acknowledgement is noted in steps
-/

namespace StreamBroker

namespace Cursor

variable {c c' c'' : Cursor} {x : Index} {settled more : List Nat} {n : Nat} {m : StoredMessage}
  {now : Instant}

/-- A cursor gets the same messages as another. -/
structure SameChoice (c c' : Cursor) : Prop where
  /-- It began with the same number. -/
  startSeq : c'.startSeq = c.startSeq
  /-- It leaves out the same messages. -/
  newestOnly : c'.newestOnly = c.newestOnly
  /-- It gets the same subjects. -/
  filter : c'.settings.filter = c.settings.filter

theorem SameChoice.refl (c : Cursor) : c.SameChoice c := ⟨rfl, rfl, rfl⟩

theorem SameChoice.trans (h : c.SameChoice c') (h' : c'.SameChoice c'') : c.SameChoice c'' :=
  ⟨h'.startSeq.trans h.startSeq, h'.newestOnly.trans h.newestOnly, h'.filter.trans h.filter⟩

theorem SameChoice.isEligible_eq (h : c.SameChoice c') (n : Nat) (subject : String) :
    c'.isEligible n subject = c.isEligible n subject := by
  rw [isEligible, isEligible, h.startSeq, h.newestOnly, ConsumerSettings.gets,
    ConsumerSettings.gets, h.filter]

/-! ## What is ahead -/

/-- The messages that a cursor has not looked at are among some, which come in order. -/
structure Ahead (x : Index) (c : Cursor) (ms : List StoredMessage) : Prop where
  /-- They are there, and the cursor has not looked at them. -/
  mem : ∀ m ∈ ms, x.get? m.sequence = some m ∧ c.nextSeq ≤ m.sequence
  /-- They come in the order of their numbers. -/
  ascending : ms.Pairwise fun a b => a.sequence < b.sequence
  /-- They are all that the consumer gets at all. -/
  complete : ∀ {n m}, x.get? n = some m → c.isEligible n m.subject = true → c.nextSeq ≤ n → m ∈ ms

theorem ahead_startingAt (hx : x.Filed) (c : Cursor) : Ahead x c (x.startingAt c.nextSeq) where
  mem _ hm := hx.mem_startingAt_iff.1 hm
  ascending := hx.pairwise_startingAt c.nextSeq
  complete hm _ hle := hx.mem_startingAt_iff.2
    ⟨(hx.sequence_eq hm).symm ▸ hm, (hx.sequence_eq hm).symm ▸ hle⟩

/-- No message that the consumer gets at all is between those that a cursor has looked at and the
next one. -/
theorem Ahead.eq_or_lt (hx : x.Filed) {ms : List StoredMessage} (h : Ahead x c (m :: ms))
    {w : StoredMessage} (hw : x.get? n = some w) (heligible : c.isEligible n w.subject = true)
    (hle : c.nextSeq ≤ n) : n = m.sequence ∨ m.sequence < n := by
  have hn := hx.sequence_eq hw
  rcases List.mem_cons.1 (h.complete hw heligible hle) with rfl | hmem
  · exact .inl hn.symm
  · exact .inr (hn ▸ List.rel_of_pairwise_cons h.ascending hmem)

/-- What is not for the consumer is passed over. -/
theorem Ahead.skip {ms : List StoredMessage} (hx : x.Filed) (h : Ahead x c (m :: ms))
    (heligible : ¬c.isEligible m.sequence m.subject = true) : Ahead x c ms where
  mem w hw := h.mem w (List.mem_cons_of_mem m hw)
  ascending := h.ascending.of_cons
  complete hw he hle := by
    rcases List.mem_cons.1 (h.complete hw he hle) with rfl | hmem
    · exact absurd (hx.sequence_eq hw ▸ he) heligible
    · exact hmem

theorem sameChoice_deliver (c : Cursor) (now : Instant) (n : Nat) :
    c.SameChoice (c.deliver now n) := by
  simp only [deliver]
  split <;> exact ⟨rfl, rfl, rfl⟩

theorem nextSeq_deliver (c : Cursor) (now : Instant) (n : Nat) :
    (c.deliver now n).nextSeq = n + 1 := by
  simp only [deliver]
  split <;> rfl

theorem Ahead.deliver {ms : List StoredMessage} (hx : x.Filed) (h : Ahead x c (m :: ms))
    (now : Instant) : Ahead x (c.deliver now m.sequence) ms := by
  have hchoice := sameChoice_deliver c now m.sequence
  have hnext := nextSeq_deliver c now m.sequence
  refine ⟨fun w hw => ⟨(h.mem w (List.mem_cons_of_mem m hw)).1, ?_⟩, h.ascending.of_cons, ?_⟩
  · exact hnext ▸ List.rel_of_pairwise_cons h.ascending hw
  · intro n w hw he hle
    have hm := (h.mem m List.mem_cons_self).2
    rw [hchoice.isEligible_eq] at he
    rw [hnext] at hle
    rcases List.mem_cons.1 (h.complete hw he (by omega)) with rfl | hmem
    · have := hx.sequence_eq hw
      omega
    · exact hmem

theorem pending_deliver_iff (c : Cursor) (now : Instant) (n k : Nat) :
    (c.deliver now n).pending.contains k = true ↔
      c.pending.contains k = true ∨ k = n ∧ c.settings.ackPolicy ≠ .none := by
  simp only [deliver]
  split
  · next h => simp [h]
  · next h =>
    rw [SeqMap.contains_insert, Bool.or_eq_true, decide_eq_true_eq, or_comm]
    simp [h]

theorem acked_deliver_iff (c : Cursor) (now : Instant) (n k : Nat) :
    (c.deliver now n).acked.contains k = true ↔
      c.acked.contains k = true ∨ k = n ∧ c.settings.ackPolicy = .none := by
  simp only [deliver]
  split
  · next h =>
    rw [SeqSet.add, SeqMap.contains_insert, Bool.or_eq_true, decide_eq_true_eq, or_comm]
    simp [h]
  · next h => simp [h]

theorem delivered_deliver (c : Cursor) (now : Instant) (n : Nat) :
    (c.deliver now n).delivered.stream = n ∧ (c.deliver now n).ackFloor = c.ackFloor := by
  simp only [deliver]
  split <;> exact ⟨rfl, rfl⟩

/-! ## Discharging -/

/-- A cursor stays at its place and settles some of what is pending.  Of the rest, what is gone may
be forgotten. -/
structure Discharges (x : Index) (c : Cursor) (settled : List Nat) (c' : Cursor) : Prop where
  /-- It gets the same messages. -/
  choice : c.SameChoice c'
  /-- It goes on with the same number. -/
  nextSeq : c'.nextSeq = c.nextSeq
  /-- It made the same last delivery. -/
  delivered : c'.delivered = c.delivered
  /-- Its floor stays. -/
  ackFloor : c'.ackFloor = c.ackFloor
  /-- What is pending was pending, and is not settled. -/
  of_pending : ∀ n, c'.pending.contains n = true → c.pending.contains n = true ∧ n ∉ settled
  /-- What was pending is pending, unless it is settled or gone. -/
  pending : ∀ n, x.contains n = true → c.pending.contains n = true → n ∉ settled →
    c'.pending.contains n = true
  /-- What is settled is noted. -/
  acked_iff : ∀ n, c'.acked.contains n = true ↔ c.acked.contains n = true ∨ n ∈ settled
  /-- It was pending. -/
  of_settled : ∀ n ∈ settled, c.pending.contains n = true

/-- A cursor that has the same pending and settles nothing. -/
theorem Discharges.of_eq (hchoice : c.SameChoice c') (hnext : c'.nextSeq = c.nextSeq)
    (hdelivered : c'.delivered = c.delivered) (hfloor : c'.ackFloor = c.ackFloor)
    (hpending : ∀ n, c'.pending.contains n = c.pending.contains n) (hacked : c'.acked = c.acked) :
    Discharges x c [] c' where
  choice := hchoice
  nextSeq := hnext
  delivered := hdelivered
  ackFloor := hfloor
  of_pending n hn := ⟨(hpending n).symm.trans hn, List.not_mem_nil⟩
  pending n _ hn _ := (hpending n).trans hn
  acked_iff n := by simp [hacked]
  of_settled _ hn := nomatch hn

theorem discharges_giveUp (hn : c.pending.contains n = true) :
    Discharges x c [n] (c.giveUp n) where
  choice := ⟨rfl, rfl, rfl⟩
  nextSeq := rfl
  delivered := rfl
  ackFloor := rfl
  of_pending k hk := by
    rw [giveUp, SeqMap.contains_erase, Bool.and_eq_true] at hk
    exact ⟨hk.2, by simpa using hk.1⟩
  pending k _ hk hne := by
    rw [giveUp, SeqMap.contains_erase, hk]
    simpa using hne
  acked_iff k := by
    rw [giveUp, SeqSet.add, SeqMap.contains_insert, List.mem_singleton, Bool.or_eq_true,
      decide_eq_true_eq, or_comm]
  of_settled k hk := List.mem_singleton.1 hk ▸ hn

/-- What is gone is forgotten. -/
theorem discharges_forget (c : Cursor) (x : Index) :
    Discharges x c [] { c with pending := c.pending.filter fun n _ => x.contains n } where
  choice := ⟨rfl, rfl, rfl⟩
  nextSeq := rfl
  delivered := rfl
  ackFloor := rfl
  of_pending n hn := by
    rw [SeqMap.contains_filter_fst, Bool.and_eq_true] at hn
    exact ⟨hn.1, List.not_mem_nil⟩
  pending n hx hn _ := by
    rw [SeqMap.contains_filter_fst, hn, hx]
    rfl
  acked_iff _ := by simp
  of_settled _ hn := nomatch hn

/-! ## Steps -/

/-- A cursor makes a step and settles some numbers with it. -/
inductive Step (x : Index) (c : Cursor) : List Nat → Cursor → Prop where
  /-- Some of what is pending is settled, put off or forgotten. -/
  | discharged {settled : List Nat} {c' : Cursor} (h : Discharges x c settled c') :
      Step x c settled c'
  /-- The next message is handed out.  Without acknowledgements it is settled at once. -/
  | delivered {m : StoredMessage} {ms : List StoredMessage} (h : Ahead x c (m :: ms))
      (now : Instant) : Step x c (if c.settings.ackPolicy = .none then [m.sequence] else [])
        (c.deliver now m.sequence)
  /-- Nothing is left, and the numbers up to the last one are done with. -/
  | ended (h : Ahead x c []) : Step x c [] { c with nextSeq := max c.nextSeq (x.lastSeq + 1) }
  /-- The floor moves. -/
  | floor : Step x c [] c.advanceFloor

/-- A cursor makes some steps, one after another. -/
inductive Steps (x : Index) : Cursor → List Nat → Cursor → Prop where
  | refl (c : Cursor) : Steps x c [] c
  | head {c c' c'' : Cursor} {settled more : List Nat} (h : Step x c settled c')
      (h' : Steps x c' more c'') : Steps x c (settled ++ more) c''

theorem Step.steps (h : Step x c settled c') : Steps x c settled c' := by
  have hsteps := Steps.head h (.refl c')
  rwa [List.append_nil] at hsteps

theorem Steps.trans (h : Steps x c settled c') (h' : Steps x c' more c'') :
    Steps x c (settled ++ more) c'' := by
  induction h with
  | refl => exact h'
  | head hstep _ ih =>
    rw [List.append_assoc]
    exact .head hstep (ih h')

/-- A floor that moves in the end settles nothing. -/
theorem Steps.advanceFloor (h : Steps x c settled c') : Steps x c settled c'.advanceFloor := by
  have hsteps := h.trans Step.floor.steps
  rwa [List.append_nil] at hsteps

/-- What is gone is forgotten, and the floor moves if that makes a difference. -/
theorem steps_dropRemoved (c : Cursor) (x : Index) : Steps x c [] (c.dropRemoved x) := by
  rw [dropRemoved]
  split
  · exact .refl c
  · exact (Step.discharged (discharges_forget c x)).steps.advanceFloor

/-- What is due is handed out again or given up. -/
theorem steps_redeliver (x : Index) (l : Limits) (now : Instant) (ns : List Nat) (c : Cursor)
    (h : Haul) : ∃ settled, (redeliver x l now ns c h).2.settled = h.settled ++ settled ∧
      Steps x c settled (redeliver x l now ns c h).1 := by
  induction ns generalizing c h with
  | nil => exact ⟨[], (List.append_nil _).symm, .refl c⟩
  | cons n ns ih =>
    rw [redeliver]
    split
    · exact ⟨[], (List.append_nil _).symm, .refl c⟩
    · split
      · next m p hm hp =>
        split
        · -- It was delivered as often as is allowed.
          have hgiveUp := Step.discharged (x := x)
            (discharges_giveUp (SeqMap.contains_iff.2 ⟨p, hp⟩))
          obtain ⟨settled, hsettled, hsteps⟩ := ih (c.giveUp n) (h.settle n)
          refine ⟨[n] ++ settled, ?_, .head hgiveUp hsteps⟩
          rw [hsettled, Haul.settle, List.append_assoc]
        · split
          · -- It is delivered once more, if it fits in.
            have hrepeat : Discharges x c [] (c.repeatDelivery now n) :=
              .of_eq ⟨rfl, rfl, rfl⟩ rfl rfl rfl (fun _ => SeqMap.contains_modify ..) rfl
            obtain ⟨settled, hsettled, hsteps⟩ :=
              ih (c.repeatDelivery now n) (h.add ⟨m, p.consumerSeq, p.deliveries + 1⟩)
            exact ⟨settled, hsettled, .head (.discharged hrepeat) hsteps⟩
          · refine ⟨[], ?_, .refl c⟩
            rw [Haul.refuse]
            split <;> exact (List.append_nil _).symm
      · exact ih c h

/-- What is new is handed out for the first time. -/
theorem steps_deliverNew (hx : x.Filed) (l : Limits) (now : Instant) (ms : List StoredMessage)
    (c : Cursor) (h : Haul) (hahead : Ahead x c ms) :
    ∃ settled, (deliverNew x l now ms c h).2.settled = h.settled ++ settled ∧
      Steps x c settled (deliverNew x l now ms c h).1 := by
  induction ms generalizing c h with
  | nil =>
    rw [deliverNew]
    split
    · exact ⟨[], (List.append_nil _).symm, .refl c⟩
    · exact ⟨[], (List.append_nil _).symm, (Step.ended hahead).steps⟩
  | cons m ms ih =>
    rw [deliverNew]
    split
    · exact ⟨[], (List.append_nil _).symm, .refl c⟩
    · split
      · next hskip =>
        -- The message is not for the consumer.
        refine ih c h (hahead.skip hx ?_)
        simpa using hskip
      · split
        · obtain ⟨settled, hsettled, hsteps⟩ := ih (c.deliver now m.sequence)
            (if c.settings.ackPolicy = .none then
              (h.add ⟨m, (c.deliver now m.sequence).delivered.consumer, 1⟩).settle m.sequence
             else h.add ⟨m, (c.deliver now m.sequence).delivered.consumer, 1⟩)
            (hahead.deliver hx now)
          refine ⟨_, ?_, .head (.delivered hahead now) hsteps⟩
          rw [hsettled]
          split
          · rw [Haul.settle, List.append_assoc]
            rfl
          · rfl
        · refine ⟨[], ?_, .refl c⟩
          rw [Haul.refuse]
          split <;> exact (List.append_nil _).symm

theorem steps_collectDue (c : Cursor) (x : Index) (l : Limits) (now : Instant) :
    Steps x c (c.collectDue x l now).2.settled (c.collectDue x l now).1 := by
  have hactive : Discharges x (c.dropRemoved x) [] { c.dropRemoved x with lastActive := now } :=
    .of_eq ⟨rfl, rfl, rfl⟩ rfl rfl rfl (fun _ => rfl) rfl
  obtain ⟨settled, hsettled, hsteps⟩ := steps_redeliver x l now
    (due { c.dropRemoved x with lastActive := now } now)
    { c.dropRemoved x with lastActive := now } {}
  rw [collectDue, hsettled]
  exact (steps_dropRemoved c x).trans (.head (.discharged hactive) hsteps)

/-- **A cursor hands out in steps**, which settle what the haul reports. -/
theorem steps_collect (hx : x.Filed) (c : Cursor) (l : Limits) (now : Instant) :
    Steps x c (c.collect x l now).2.settled (c.collect x l now).1 := by
  have hdue := steps_collectDue c x l now
  obtain ⟨settled, hsettled, hnew⟩ := steps_deliverNew hx l now _ (c.collectDue x l now).1
    (c.collectDue x l now).2 (ahead_startingAt hx _)
  have hall := hdue.trans hnew
  rw [← hsettled] at hall
  -- The floor is moved once, behind all that was handed out.
  have hfloor {c' : Cursor} {h : Haul} (hsteps : Steps x c h.settled c') :
      Steps x c h.settled (if h.settled.isEmpty then c' else c'.advanceFloor) := by
    split
    · exact hsteps
    · exact hsteps.advanceFloor
  simp only [collect]
  split
  · exact hfloor hdue
  · exact hfloor hall

/-! ## Acknowledgements -/

/-- An acknowledgement of a message covers a pending delivery: it is about just that one, or about
all up to the message, or it ends the deliveries of the message. -/
def Covers (c : Cursor) (n : Nat) (kind : AckKind) (k : Nat) : Prop :=
  c.pending.contains k = true ∧
    ((kind = .ack ∨ kind = .confirmedAck) ∧ (c.settings.ackPolicy = .explicit ∧ k = n ∨
      c.settings.ackPolicy = .all ∧ k ≤ n) ∨ kind = .terminate ∧ k = n)

/-- An acknowledgement settles what it covers. -/
theorem mem_settledBy_iff (c : Cursor) (n k : Nat) (kind : AckKind) :
    k ∈ c.settledBy n kind ↔ c.Covers n kind k := by
  have hone : k ∈ (if c.pending.contains n then [n] else []) ↔
      c.pending.contains k = true ∧ k = n := by
    by_cases hk : k = n
    · subst hk
      split <;> simp_all
    · split <;> simp [hk]
  have hack : k ∈ c.settledBy n .ack ↔ c.pending.contains k = true ∧
      (c.settings.ackPolicy = .explicit ∧ k = n ∨ c.settings.ackPolicy = .all ∧ k ≤ n) := by
    rw [settledBy]
    cases c.settings.ackPolicy with
    | none => simp
    | explicit => simpa using hone
    | all => simp [SeqMap.mem_keys_iff]
  -- The two acknowledgements settle the same, and a termination settles one message.
  have hconfirmed : c.settledBy n .confirmedAck = c.settledBy n .ack := rfl
  have hterminate : c.settledBy n .terminate = if c.pending.contains n then [n] else [] := rfl
  rw [Covers]
  cases kind with
  | ack => simpa using hack
  | confirmedAck => simpa [hconfirmed] using hack
  | nak delay => simp [settledBy]
  | inProgress => simp [settledBy]
  | terminate =>
    rw [hterminate, hone]
    simp

/-- A cursor settles what it has taken out of the pending deliveries. -/
theorem steps_settle {ns : List Nat}
    (h : Discharges x c ns { c' with acked := ns.foldl SeqSet.add c'.acked }) :
    Steps x c ns (c'.settle ns) := by
  rw [settle]
  split
  · next hempty =>
    obtain rfl := List.isEmpty_iff.1 hempty
    exact (Step.discharged h).steps
  · exact (Step.discharged h).steps.advanceFloor

/-- **A cursor notes an acknowledgement in steps**, which settle what it covers. -/
theorem steps_acknowledge (x : Index) (c : Cursor) (n : Nat) (kind : AckKind) (now : Instant) :
    Steps x c (c.acknowledge n kind now).1 (c.acknowledge n kind now).2 := by
  have herase (k : Nat) := SeqMap.contains_foldl_erase (c.settledBy n kind) c.pending k
  -- A delivery may be put off instead, which keeps it pending.
  have hnoted (pending : SeqMap PendingDelivery) (h : ∀ k, pending.contains k =
      ((c.settledBy n kind).foldl SeqMap.erase c.pending).contains k) :
      Steps x c (c.settledBy n kind)
        ({ c with pending, lastActive := now }.settle (c.settledBy n kind)) := by
    apply steps_settle
    refine ⟨⟨rfl, rfl, rfl⟩, rfl, rfl, rfl, ?_, ?_, ?_, ?_⟩
    · intro k hk
      rw [h, herase, Bool.and_eq_true] at hk
      exact ⟨hk.2, by simpa using hk.1⟩
    · intro k _ hk hne
      rw [h, herase, hk]
      simpa using hne
    · intro k
      rw [SeqSet.contains_foldl_add, Bool.or_eq_true, decide_eq_true_eq, or_comm]
    · exact fun k hk => ((mem_settledBy_iff ..).1 hk).1
  simp only [acknowledge]
  split
  · exact hnoted _ fun k => SeqMap.contains_modify ..
  · exact hnoted _ fun k => rfl

end Cursor

end StreamBroker
