import StreamBroker.Proofs.Broker.Queued
import StreamBroker.Proofs.Broker.Turns

/-!
# Places for waiting pulls

A pull takes a place of its consumer when it begins and gives it back when it ends, whatever it ends
by.  So the places that are taken are the pulls that wait.  A consumer without any, and without a
subscription, is removed when it has done nothing for as long as it may.

## Main definitions

* `Broker.Renewed`: the times at which that of a consumer began anew
* `Consumer.Booked`, `Broker.Books`: what is noted of consumers is what has happened

## Main results

* `Broker.Acted.books`: what is noted of consumers is what has happened
* `Broker.Acted.places`: how many places are taken, and which consumers a sweep removes
-/

namespace StreamBroker

/-- What is noted of a consumer is what has happened: so many pulls wait, it has a subscription or
none, and its time began anew at these instants. -/
structure Consumer.Booked (c : Consumer) (pulls : Nat) (subscribed : Prop)
    (event : Instant → Prop) (now : Instant) : Prop where
  /-- A place is taken for every pull that waits. -/
  waiting_eq : c.cursor.waiting = pulls
  /-- No more wait than may. -/
  waiting_le : ∀ most, c.cursor.settings.maxWaiting = some most → pulls ≤ most
  /-- It is bound if it has a subscription. -/
  bound_iff : c.bound = true ↔ subscribed
  /-- Its time did not begin anew since it was last active. -/
  event_le : ∀ i, event i → i ≤ c.cursor.lastActive
  /-- When nothing waits its time began anew when it was last active. -/
  event_last : pulls = 0 → event c.cursor.lastActive
  /-- It was not active in the future. -/
  active_le : c.cursor.lastActive ≤ now

variable {a : Act} {b : Broker} {past : List (Broker × Act)} {c c' : Consumer}
  {stream consumer : Nat}

/-- What is noted of a consumer is what has happened, also after an act. -/
theorem Act.Turns.booked {event event' : Instant → Prop} {now' : Instant}
    (h : a.Turns b stream consumer c c')
    (hc : c.Booked (b.pullsOf stream consumer) (b.Subscribes stream consumer) event b.now)
    (hevent : ∀ i, event' i ↔ event i ∨ a.Concerns b stream consumer ∧ i = b.now)
    (hnow : b.now ≤ now') :
    c'.Booked ((a.run b).pullsOf stream consumer) ((a.run b).Subscribes stream consumer) event'
      now' where
  waiting_eq := h.waiting_eq hc.waiting_eq
  waiting_le most hmost := by
    rw [h.settings.maxWaiting_eq] at hmost
    rcases h.room with hle | ⟨hmay, hle⟩
    · exact Nat.le_trans hle (hc.waiting_le most hmost)
    · rw [Cursor.mayWait, hmost, hc.waiting_eq] at hmay
      exact Nat.le_trans hle (of_decide_eq_true hmay)
  bound_iff := h.bound_iff hc.bound_iff
  event_le i hi := by
    rcases (hevent i).1 hi with hi | ⟨hconcerns, rfl⟩
    · rcases h.active with heq | ⟨heq, -⟩
      · exact heq ▸ Nat.le_trans (hc.event_le i hi) hc.active_le
      · exact heq ▸ hc.event_le i hi
    · rcases h.active with heq | ⟨-, hnot⟩
      · exact Nat.le_of_eq heq.symm
      · exact absurd hconcerns hnot
  event_last hnone := by
    refine (hevent _).2 ?_
    rcases h.idle hnone with hconcerns | ⟨hbefore, heq⟩
    · rcases h.active with heq | ⟨-, hnot⟩
      · exact .inr ⟨hconcerns, heq⟩
      · exact absurd hconcerns hnot
    · exact .inl (heq ▸ hc.event_last hbefore)
  active_le := by
    rcases h.active with heq | ⟨heq, -⟩
    · exact heq ▸ hnow
    · exact heq ▸ Nat.le_trans hc.active_le hnow

namespace Broker

/-- The time of a consumer began anew at an instant. -/
def Renewed (past : List (Broker × Act)) (stream consumer : Nat) (i : Instant) : Prop :=
  ∃ x ∈ past, x.2.Concerns x.1 stream consumer ∧ x.1.now = i

theorem renewed_cons {i : Instant} : Renewed ((b, a) :: past) stream consumer i ↔
    Renewed past stream consumer i ∨ a.Concerns b stream consumer ∧ i = b.now := by
  simp only [Renewed, List.mem_cons, or_and_right, exists_or, exists_eq_left]
  rw [or_comm, eq_comm (a := i)]

theorem Staffed.not_employs_of_le (hb : b.Staffed) (h : b.nextId ≤ consumer) :
    ¬b.Employs stream consumer := by
  rintro ⟨s, c, hhas⟩
  exact absurd (hhas.consumer_eq ▸ hb.consumer_lt s hhas.mem_streams c hhas.mem_consumers)
    (Nat.not_lt_of_le h)

/-- What is noted of the consumers of a broker is what has happened. -/
structure Books (past : List (Broker × Act)) (b : Broker) : Prop where
  /-- It is noted of each. -/
  booked : ∀ {stream consumer s c}, b.Has stream consumer s c →
    c.Booked (b.pullsOf stream consumer) (b.Subscribes stream consumer)
      (Renewed past stream consumer) b.now
  /-- No two subscriptions are of one consumer. -/
  alone : b.Alone
  /-- It has happened in the past. -/
  past_le : ∀ x ∈ past, x.1.now ≤ b.now

/-- No act gives a second subscription to a consumer. -/
theorem Books.alone_run (hbooks : Books past b) (hb : b.Staffed) (hledger : b.Ledger)
    (hproper : a.IsProper b) (hanswered : (a.run b).IsAnswered) : (a.run b).Alone := by
  have hledger' := Act.ledger hledger hb hproper
  -- A subscription was there, or its consumer had none.
  have hbefore {v : Subscription} (hv : v ∈ (a.run b).subscriptions) :
      (∃ u ∈ b.subscriptions, u.SamePost v) ∨
        v.id = b.nextId ∧ ¬b.Subscribes v.stream v.consumer := by
    rcases (Act.leaves hledger hproper (hledger'.subscription?_eq hv)).post_cases with
      ⟨u, hu, hpost⟩ | ⟨hid, s, c, hlive, hbound, -⟩
    · exact .inl ⟨u, (mem_of_subscription? hu).1, hpost⟩
    · refine .inr ⟨hid, fun hsubscribes => ?_⟩
      have hbooked := hbooks.booked (hb.has_of_liveConsumer hlive)
      rw [hbooked.bound_iff.2 hsubscribes] at hbound
      cases hbound
  intro v hv w hw hemploys hstream hconsumer
  refine hledger'.eq_of_id hw hv ?_
  rcases hbefore hv with ⟨u, hu, hpost⟩ | ⟨hid, hnone⟩ <;>
    rcases hbefore hw with ⟨t, ht, hpost'⟩ | ⟨hid', hnone'⟩
  · have hemployed : b.Employs u.stream u.consumer := by
      rw [hpost.stream_eq, hpost.consumer_eq] at hemploys
      exact Act.employs_of_run hb hledger hbooks.alone hproper hanswered
        (hledger.subscription_lt u hu).2.2 hemploys
    have heq := hbooks.alone u hu t ht hemployed
      (hpost'.stream_eq.symm.trans (hstream.trans hpost.stream_eq))
      (hpost'.consumer_eq.symm.trans (hconsumer.trans hpost.consumer_eq))
    rw [hpost'.id_eq, heq, hpost.id_eq]
  · rw [hstream, hconsumer] at hnone'
    exact absurd ⟨u, hu, hpost.stream_eq.symm, hpost.consumer_eq.symm⟩ hnone'
  · rw [← hstream, ← hconsumer] at hnone
    exact absurd ⟨t, ht, hpost'.stream_eq.symm, hpost'.consumer_eq.symm⟩ hnone
  · exact hid'.trans hid.symm

/-- **What is noted of consumers is what has happened**, at any time. -/
theorem Acted.books (h : Acted past b) : Books past b := by
  induction h with
  | started settings seed backend hclock =>
    exact ⟨fun hhas => (nomatch hhas.mem_streams), fun u hu => (nomatch hu),
      fun x hx => (nomatch hx)⟩
  | @act b past h a hproper hanswered ih =>
    have hnow := (nextId_le_of_steps h.staffed (Act.steps h.ledger hproper hanswered)).2
    refine ⟨fun {stream consumer s' c'} hhas => ?_,
      ih.alone_run h.staffed h.ledger hproper hanswered, fun x hx => ?_⟩
    · rcases Act.turns h.staffed h.ledger ih.alone hproper hanswered hhas with
        ⟨s, c, hbefore, hturns⟩ | ⟨hle, hnew, hcount, hsubscribes⟩
      · exact hturns.booked (ih.booked hbefore) (fun i => renewed_cons) hnow
      · have hcount := hcount.trans (h.ledger.pullsOf_of_le hle)
        -- A consumer that was not there was created by this act, and nothing counts for it yet.
        have hcreated : a.Concerns b stream consumer :=
          .created (h.staffed.not_employs_of_le hle) ⟨s', c', hhas⟩
        refine ⟨hnew.waiting_eq.trans hcount.symm, fun most _ => hcount ▸ Nat.zero_le _, ?_,
          fun i hi => ?_, fun _ => ?_, ?_⟩
        · rw [hnew.bound_eq, hsubscribes]
          exact iff_of_false (by simp) (h.ledger.not_subscribes_of_le hle)
        · rw [hnew.lastActive_eq]
          rcases renewed_cons.1 hi with ⟨x, hx, -, rfl⟩ | ⟨-, rfl⟩
          · exact ih.past_le x hx
          · exact Nat.le_refl _
        · exact renewed_cons.2 (.inr ⟨hcreated, hnew.lastActive_eq⟩)
        · exact hnew.lastActive_eq ▸ hnow
    · rcases List.mem_cons.1 hx with rfl | hx
      · exact hnow
      · exact Nat.le_trans (ih.past_le x hx) hnow

/-- **The places of a consumer that are taken are the pulls of it that wait**, and no more than may.
A sweep of its stream removes it if no pull waits, it has no subscription, and for as long as its
threshold its time has not begun anew. -/
theorem Acted.places (h : Acted past b) :
    (∀ {stream consumer s c}, b.Has stream consumer s c →
      c.cursor.waiting = b.pullsOf stream consumer ∧
        ∀ most, c.cursor.settings.maxWaiting = some most → c.cursor.waiting ≤ most) ∧
    ∀ {id next stream consumer s c}, (Act.operate id next .sweep).IsProper b →
      b.Has stream consumer s c →
      (¬((Act.operate id next .sweep).run b).Employs stream consumer ↔
        stream = id ∧ b.pullsOf stream consumer = 0 ∧ ¬b.Subscribes stream consumer ∧
          ∃ threshold, c.cursor.settings.inactiveThreshold = some threshold ∧
            ∀ i, Renewed past stream consumer i → i + threshold.nanos ≤ b.now) := by
  refine ⟨fun hhas => ?_, fun {id next stream consumer s c} hproper hhas => ?_⟩
  · have hbooked := h.books.booked hhas
    rw [hbooked.waiting_eq]
    exact ⟨rfl, hbooked.waiting_le⟩
  · have hbooked := h.books.booked hhas
    have hkept := h.staffed.employs_sweep_iff hproper.2.2.2 hhas
    have hbound : c.bound = false ↔ ¬b.Subscribes stream consumer := by
      rw [← hbooked.bound_iff, Bool.not_eq_true]
    -- A consumer without pulls was last active when it was last renewed.
    have hidle (hnone : b.pullsOf stream consumer = 0) (threshold : Duration) :
        threshold.nanos ≤ b.now - c.cursor.lastActive ↔
          ∀ i, Renewed past stream consumer i → i + threshold.nanos ≤ b.now := by
      rw [Nat.le_sub_iff_add_le' hbooked.active_le]
      exact ⟨fun hlong i hi =>
        Nat.le_trans (Nat.add_le_add_right (hbooked.event_le i hi) _) hlong,
        fun hall => hall _ (hbooked.event_last hnone)⟩
    rw [Act.run, hkept, Classical.not_imp, Bool.not_eq_false, Stream.isAbandoned,
      Cursor.isInactive, hbooked.waiting_eq]
    refine and_congr_right fun _ => ?_
    simp only [Bool.and_eq_true, Bool.not_eq_true', decide_eq_true_eq, hbound]
    rw [← and_assoc, and_comm (a := ¬_), and_assoc]
    refine and_congr_right fun hnone => and_congr_right fun _ => ?_
    cases c.cursor.settings.inactiveThreshold with
    | none => simp
    | some threshold => simp [hidle hnone]

/-- A consumer that may do nothing for a second is asked `0.9` seconds after it was created, and a
second later a sweep removes it. -/
theorem places_idle : ∃ past b s c, Acted past b ∧ (Act.operate 0 3 .sweep).IsProper b ∧
    b.Has 0 1 s c ∧ c.cursor.waiting = 0 ∧
    ¬((Act.operate 0 3 .sweep).run b).Employs 0 1 ∧ b.pullsOf 0 1 = 0 ∧ ¬b.Subscribes 0 1 ∧
    ∃ threshold, c.cursor.settings.inactiveThreshold = some threshold ∧
      ∀ i, Renewed past 0 1 i → i + threshold.nanos ≤ b.now := by
  have hstarted := Acted.started {} 0 Stream.blankBackend (show Stream.epochClock.IsDated from rfl)
  have hopened := hstarted.act (a := .openStream Stream.plainSettings) trivial (by decide +kernel)
  have hhired := hopened.act (a := .operate 0 2 (.upsertConsumer .create 1 "" {}
    { durableName := some "c", inactiveThreshold := some ⟨1000000000⟩ }))
    (Act.isProper_hire (by decide +kernel) (by decide +kernel) (by decide +kernel))
    (by decide +kernel)
  have hwaited := hhired.act (a := .wait 900000000) ⟨by decide +kernel, by decide +kernel⟩
    (by decide +kernel)
  have hpulled := hwaited.act (a := .pull 0 1 { noWait := true }) trivial (by decide +kernel)
  have hidle := hpulled.act (a := .wait 1900000000) ⟨by decide +kernel, by decide +kernel⟩
    (by decide +kernel)
  have hemployed : Employs _ 0 1 := hidle.staffed.employs_iff.2 (by decide +kernel)
  obtain ⟨s, c, hhas⟩ := hemployed
  have hswept := hidle.act (a := .operate 0 3 .sweep)
    (Act.isProper_operate rfl (fun _ => trivial) Nat.le_refl (by decide +kernel)
      (by decide +kernel)) (by decide +kernel)
  have hgone : ¬Employs _ 0 1 := mt hswept.staffed.employs_iff.1 (by decide +kernel)
  have hplaces := hidle.places
  have hremoved := (hplaces.2 hswept.isProper hhas).1 hgone
  refine ⟨_, _, s, c, hidle, hswept.isProper, hhas, ?_, hgone, hremoved.2⟩
  rw [(hplaces.1 hhas).1, hremoved.2.1]

/-- That a consumer is asked for what it does not allow does not count: one that may do nothing for
a second is removed `0.2` seconds after it was asked for no message. -/
theorem exists_idle_asked : ∃ past b s c t threshold, Acted past b ∧
    (t, Act.pull 0 1 { batch := 0 }) ∈ past ∧ t.Employs 0 1 ∧
    (Act.operate 0 3 .sweep).IsProper b ∧ b.Has 0 1 s c ∧
    c.cursor.settings.inactiveThreshold = some threshold ∧ b.now < t.now + threshold.nanos ∧
    ¬((Act.operate 0 3 .sweep).run b).Employs 0 1 := by
  have hstarted := Acted.started {} 0 Stream.blankBackend (show Stream.epochClock.IsDated from rfl)
  have hopened := hstarted.act (a := .openStream Stream.plainSettings) trivial (by decide +kernel)
  have hhired := hopened.act (a := .operate 0 2 (.upsertConsumer .create 1 "" {}
    { durableName := some "c", inactiveThreshold := some ⟨1000000000⟩ }))
    (Act.isProper_hire (by decide +kernel) (by decide +kernel) (by decide +kernel))
    (by decide +kernel)
  have hwaited := hhired.act (a := .wait 900000000) ⟨by decide +kernel, by decide +kernel⟩
    (by decide +kernel)
  have hpulled := hwaited.act (a := .pull 0 1 { batch := 0 }) trivial (by decide +kernel)
  have hidle := hpulled.act (a := .wait 1100000000) ⟨by decide +kernel, by decide +kernel⟩
    (by decide +kernel)
  have hemployed : Employs _ 0 1 := hidle.staffed.employs_iff.2 (by decide +kernel)
  obtain ⟨s, c, hhas⟩ := hemployed
  have hswept := hidle.act (a := .operate 0 3 .sweep)
    (Act.isProper_operate rfl (fun _ => trivial) Nat.le_refl (by decide +kernel)
      (by decide +kernel)) (by decide +kernel)
  have hgone : ¬Employs _ 0 1 := mt hswept.staffed.employs_iff.1 (by decide +kernel)
  refine ⟨_, _, s, c, _, ⟨1000000000⟩, hidle, List.mem_cons_of_mem _ List.mem_cons_self,
    hwaited.staffed.employs_iff.2 (by decide +kernel), hswept.isProper, hhas, ?_,
    by decide +kernel, hgone⟩
  have hlive := congrArg (fun found => found.toOption.map (·.2.cursor.settings.inactiveThreshold))
    (hidle.staffed.liveConsumer_of_has hhas)
  exact Option.some.inj (hlive.symm.trans (by decide +kernel))

end Broker

end StreamBroker
