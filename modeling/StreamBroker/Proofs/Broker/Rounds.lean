import StreamBroker.Proofs.Broker.Pulls
import StreamBroker.Proofs.Broker.Serving
import StreamBroker.Proofs.Cursor.Undue

/-!
# The rounds of a pull

A pull that waits goes round: it looks, and if it got nothing it waits until its consumer is told to
look again or its timer goes off.  A round that leads to another one must not leave the pull ready
for it, or the pull would go round without end at one instant.  It does not: behind a look that got
nothing no delivery is due, so the timer goes off later; and the pull has seen the last signal of
its consumer, so it was told nothing that it has not looked for.

The timer never goes off after the deadline of the pull, and a look at the deadline or later is the
last one.

## Main definitions

* `Act.Looks`: an act in which a pull looks
* `Act.Tells`: an act that tells a consumer to look again
* `Broker.Dozes`: how a look leaves a pull waiting

## Main results

* `Act.looks_or_keeps`: an act lets a pull look, or leaves it waiting as it was
* `Broker.Acted.last_look`: what has happened since a pull looked last
* `Broker.Acted.rounds`: the rounds of a pull
-/

namespace StreamBroker

theorem Instant.nextMilli_mono {i j : Instant} (h : i ≤ j) : i.nextMilli ≤ j.nextMilli :=
  Nat.mul_le_mul_right _ (Nat.div_le_div_right (Nat.add_le_add_right h _))

namespace Stream

variable {s s' : Stream} {c : Consumer} {l : Cursor.Limits} {clock : Clock} {b b' : Backend}
  {collected : Collected}

/-- When a pull got nothing, the next delivery that is repeated is so at a later instant. -/
theorem lt_nextDeadline_collect (hbatch : l.batch ≠ 0)
    (h : s.collect c l clock b = (.ok collected, s', b')) (hnone : collected.deliveries = []) :
    ∀ i ∈ collected.nextDeadline, clock.elapsed < i := by
  obtain ⟨x, haul, cursor, -, -, hcollect, -, -, -, hok⟩ := collect_eq h (by simp)
  obtain ⟨hdeliveries, hdeadline, hfits⟩ := hok collected rfl
  rw [hnone] at hdeliveries
  rw [oversizedError, ← hdeliveries, List.isEmpty_nil, if_pos rfl, Option.map_eq_none_iff] at hfits
  have hlater (hnone : (c.cursor.collect x l clock.elapsed).2.deliveries = [])
      (hfits : (c.cursor.collect x l clock.elapsed).2.oversized = none) :
      ∀ i ∈ (c.cursor.collect x l clock.elapsed).1.nextDeadline, clock.elapsed < i :=
    Cursor.lt_nextDeadline (Nat.one_le_iff_ne_zero.2 hbatch) hnone hfits
  rw [hcollect] at hlater
  rw [hdeadline]
  exact hlater hdeliveries.symm hfits

end Stream

/-! ## Looking and being told -/

/-- The last signal of the consumer of a pull. -/
def Broker.signalOf (b : Broker) (p : Pull) : Option Nat :=
  (b.consumerById? p.stream p.consumer).map Consumer.signal

/-- A pull looks in an act: it begins, as one of its own or as that of a subscription, or it looks
again. -/
def Act.Looks (a : Act) (b : Broker) (id : Nat) : Prop :=
  match a with
  | look i => i = id
  | pull .. | begin _ => b.nextId = id
  | _ => False

/-- An act tells the consumer of a pull to look again. -/
def Act.Tells (a : Act) (b : Broker) (p : Pull) : Prop := (a.run b).signalOf p ≠ b.signalOf p

namespace Broker

variable {b : Broker} {p q : Pull} {stream consumer : Nat} {r : PullRequest}

/-- A pull is ready when its timer has gone off, or there is a signal that it has not seen. -/
theorem isReady_iff : b.isReady p = true ↔
    p.wake.nextMilli ≤ b.now ∨ b.signalOf p ≠ some p.seen := by
  rw [isReady, isDue, signalOf, Bool.or_eq_true, decide_eq_true_eq]
  refine or_congr_right ?_
  cases b.consumerById? p.stream p.consumer <;> simp

/-- How a look at an instant leaves a pull waiting: its timer goes off later, though not after its
deadline, and it has seen the last signal of its consumer. -/
structure Dozes (b : Broker) (i : Instant) (p : Pull) : Prop where
  lt_wake : i < p.wake
  wake_le : p.wake ≤ p.deadline
  signalOf_eq : b.signalOf p = some p.seen

/-! ## One look -/

/-- A look that leaves a pull waiting was one before its deadline, and the timer of the pull goes
off later. -/
theorem Staffed.glance_waits (hb : b.Staffed) (hbatch : p.request.batch ≠ 0)
    (h : (glance p b).1 = .waits q) :
    q.id = p.id ∧ b.now < p.deadline ∧ b.now < q.wake ∧ q.wake ≤ q.deadline := by
  cases hb.glances p with
  | missed hlive heq => cases (congrArg Prod.fst heq).symm.trans h
  | failed hcollects heq => cases (congrArg Prod.fst heq).symm.trans h
  | ended hcollects heq => cases (congrArg Prod.fst heq).symm.trans h
  | @waits s s' c backend collected hcollects hnone hlt heq =>
    cases (congrArg Prod.fst heq).symm.trans h
    have hlater := Stream.lt_nextDeadline_collect hbatch hcollects.collect_eq hnone
    refine ⟨rfl, hlt, ?_⟩
    cases hnext : collected.nextDeadline with
    | none => exact ⟨hlt, Nat.le_refl _⟩
    | some i => exact ⟨Nat.lt_min.2 ⟨hlater i hnext, hlt⟩, Nat.min_le_right ..⟩

/-- A pull that looks is over, or it waits on and looks again later. -/
theorem Staffed.dozes_lookOnce (hb : b.Staffed) (hbatch : p.request.batch ≠ 0)
    (hanswered : (lookOnce p b).IsAnswered) (hq : q ∈ (lookOnce p b).pulls) :
    q ∈ b.pulls ∨ q.id = p.id ∧ b.now < p.deadline ∧ (lookOnce p b).Dozes b.now q := by
  obtain ⟨hcarries, hpulls⟩ := carries_lookOnce hb hbatch (isAnswered_glance hanswered)
  refine or_iff_not_imp_left.2 fun hnew => ?_
  obtain ⟨s, c, hhas, hseen, -⟩ := (hpulls q hq).resolve_left hnew
  -- What it has seen is the signal that its consumer has now.
  have hsignal : (lookOnce p b).signalOf q = some q.seen := by
    rw [signalOf, hcarries.staffed.consumerById?_eq hhas, Option.map_some, hseen]
  obtain ⟨⟨_, _, _, htouched⟩, -⟩ := glance_eq p b
  cases hg : (glance p b).1 with
  | «over» result =>
    rw [lookOnce_of_over hg, htouched, finishPull] at hq
    dsimp only at hq
    rw [leavePlace, pulls_modifyConsumer] at hq
    exact absurd hq hnew
  | waits w =>
    obtain ⟨hid, hlt, hwake, hle⟩ := hb.glance_waits hbatch hg
    rw [lookOnce_of_waits hg, htouched] at hq
    rcases List.mem_append.1 hq with hq | hq
    · exact absurd hq hnew
    · obtain rfl := List.mem_singleton.1 hq
      exact ⟨hid, hlt, hwake, hle, hsignal⟩

/-- A pull that begins waits on only to look again later. -/
theorem Staffed.dozes_startPull (hb : b.Staffed)
    (hanswered : (startPull stream consumer r b).2.IsAnswered)
    (hq : q ∈ (startPull stream consumer r b).2.pulls) :
    q ∈ b.pulls ∨ q.id = b.nextId ∧ (startPull stream consumer r b).2.Dozes b.now q := by
  cases startsPull stream consumer r b with
  | refused hcheck heq =>
    rw [heq] at hq
    exact .inl hq
  | full hfound hcheck hmay ht heq =>
    subst ht
    rw [heq] at hq
    exact .inl (pulls_modifyConsumer b.freshId.2 stream consumer _ ▸ hq)
  | looks hfound hcheck hmay heq =>
    rw [heq] at hanswered hq ⊢
    rcases (hb.enlist stream consumer).dozes_lookOnce (batch_ne_of_check hcheck) hanswered hq with
      hold | ⟨hid, -, hdozes⟩
    · exact .inl (pulls_enlist stream consumer b ▸ hold)
    · rw [now_enlist] at hdozes
      exact .inr ⟨hid, hdozes⟩

/-- A pull that waits is found by its number. -/
theorem Ledger.pull?_eq (hb : b.Ledger) (hp : p ∈ b.pulls) : b.pull? p.id = some p := by
  cases hfind : b.pull? p.id with
  | none => exact absurd (List.find?_eq_none.1 hfind p hp) (by simp)
  | some q =>
    obtain ⟨hq, hid⟩ := mem_of_pull? hfind
    rw [hb.eq_of_pull_id hq hp hid]

/-- **At its deadline or later a pull looks for the last time.** -/
theorem Ledger.over_of_deadline (hb : b.Ledger) (hs : b.Staffed) (hp : p ∈ b.pulls)
    (hover : p.deadline ≤ b.now) : ∀ q ∈ ((Act.look p.id).run b).pulls, q.id ≠ p.id := by
  intro q hq
  have hwithout : (b.withoutPull p.id).Staffed := ((Step.withdrawn p.id).carries hs).staffed
  simp only [Act.run, hb.pull?_eq hp, Broker.lookAgain] at hq
  obtain ⟨_, _, _, ⟨result, -, heq⟩ | ⟨w, -, ⟨v, hwaits⟩, -⟩⟩ :=
    lookOnce_cases p (b.withoutPull p.id)
  · rw [heq] at hq
    simpa using (List.mem_filter.1 hq).2
  · obtain ⟨-, hlt, -⟩ := hwithout.glance_waits (hb.batch_ne p hp) hwaits
    exact absurd hover (Nat.not_le_of_lt hlt)

end Broker

/-! ## One act -/

/-- An act in which no pull looks is not one in which a pull looks that waited before. -/
theorem Act.not_looks {a : Act} {b : Broker} {q : Pull} (hb : b.Ledger) (hq : q ∈ b.pulls)
    (hlook : ∀ i, a = look i → b.pull? i = none) : ¬a.Looks b q.id := by
  -- A pull that waited before has a number that was given before.
  have hlt := hb.id_lt _ (List.mem_append_left _ (List.mem_map_of_mem hq))
  cases a with
  | look i =>
    rintro rfl
    cases (hb.pull?_eq hq).symm.trans (hlook q.id rfl)
  | pull | begin => exact Nat.ne_of_gt hlt
  | _ => exact id

/-- **An act lets a pull look, or leaves it waiting as it was.** -/
theorem Act.looks_or_keeps {a : Act} {b : Broker} {p : Pull} (hb : b.Ledger) (hs : b.Staffed)
    (hanswered : (a.run b).IsAnswered) (hp : p ∈ (a.run b).pulls) :
    a.Looks b p.id ∧ (a.run b).Dozes b.now p ∨
      ¬a.Looks b p.id ∧ ∃ q ∈ b.pulls, q.SameWait p := by
  cases a.onPulls b with
  | rests hpulls _ hlook =>
    obtain ⟨q, hq, parked, rfl⟩ := hpulls p hp
    have hnot : ¬a.Looks b q.id := Act.not_looks hb hq hlook
    exact .inr ⟨hnot, q, hq, parked, rfl⟩
  | @begins stream consumer r subscriptions ha hrun =>
    rw [hrun] at hanswered hp ⊢
    have hlooks : a.Looks b p.id ↔ b.nextId = p.id := by
      rcases ha with rfl | ⟨id, rfl⟩ <;> exact Iff.rfl
    rw [hlooks]
    rcases hs.dozes_startPull hanswered hp with hp | ⟨hid, hdozes⟩
    · -- The pull that begins has a new number, so one that waited is another.
      have hlt := hb.id_lt _ (List.mem_append_left _ (List.mem_map_of_mem hp))
      exact .inr ⟨Nat.ne_of_gt hlt, p, hp, p.parked, rfl⟩
    · exact .inl ⟨hid.symm, hdozes.lt_wake, hdozes.wake_le, hdozes.signalOf_eq⟩
  | @looks w hw ha hrun =>
    subst ha
    rw [hrun, Broker.lookAgain] at hanswered hp
    rw [hrun]
    have hwithout : (b.withoutPull w.id).Staffed :=
      ((Broker.Step.withdrawn w.id).carries hs).staffed
    rcases hwithout.dozes_lookOnce (hb.batch_ne w hw) hanswered hp with hp | ⟨hid, -, hdozes⟩
    · obtain ⟨hp, hne⟩ := List.mem_filter.1 hp
      exact .inr ⟨fun hid => bne_iff_ne.1 hne (Eq.symm hid), p, hp, p.parked, rfl⟩
    · exact .inl ⟨hid.symm, hdozes⟩

namespace Broker

variable {b b' : Broker} {past : List (Broker × Act)} {p q : Pull}

/-! ## What is done at an instant -/

theorem mem_pulls_startPull {stream consumer : Nat} {r : PullRequest} (hp : p ∈ b.pulls) :
    p ∈ (startPull stream consumer r b).2.pulls := by
  rcases startPull_ends stream consumer r b with ⟨_, hpulls, -⟩ | ⟨q, _, _, hpulls, -⟩
  · exact hpulls ▸ hp
  · exact hpulls ▸ List.mem_append_left _ hp

theorem mem_pulls_progress (u : Subscription) (hp : p ∈ b.pulls) : p ∈ (progress u b).pulls := by
  obtain ⟨outcomes, v, -, heq | ⟨r, heq⟩⟩ := progress_cases u b
  · rw [heq]
    exact hp
  · rw [heq]
    exact mem_pulls_startPull (b := { b with outcomes }) hp

/-- A subscription that goes on leaves all pulls that wait. -/
theorem mem_pulls_deliver (u : Subscription) (hp : p ∈ b.pulls) : p ∈ (deliver u b).pulls := by
  rw [deliver]
  generalize u.batch + 2 = n
  induction n generalizing b with
  | zero => exact hp
  | succ n ih =>
    rw [deliverSteps]
    split
    · next v hv =>
      split
      · exact ih (mem_pulls_progress v hp)
      · exact hp
    · exact hp

/-- A pull that looks leaves all others. -/
theorem mem_pulls_resume (hp : p ∈ b.pulls) (hne : p.id ≠ q.id) : p ∈ (resume q b).pulls := by
  have hothers : p ∈ (b.withoutPull q.id).pulls := List.mem_filter.2 ⟨hp, bne_iff_ne.2 hne⟩
  have hlooked : p ∈ (lookAgain q b).pulls := by
    rw [lookAgain]
    obtain ⟨_, _, _, ⟨_, -, heq⟩ | ⟨_, -, -, heq⟩⟩ := lookOnce_cases q (b.withoutPull q.id)
    · exact heq ▸ hothers
    · exact heq ▸ List.mem_append_left _ hothers
  rw [resume]
  split
  · exact mem_pulls_deliver _ hlooked
  · exact hlooked

theorem pulls_sweepStreams (ids : List Nat) (b : Broker) :
    (sweepStreams ids b).2.pulls = b.pulls := by
  induction ids generalizing b with
  | nil => rfl
  | cons id ids ih =>
    have hsplit : sweepStreams (id :: ids) b =
        match (onStream id fun s backend => s.sweep b.clock backend).attempt b with
        | (.ok _, t) => sweepStreams ids t
        | (.error e, t) => (.error e, t) := by
      show (Action.andThen Action.read fun b =>
        Action.andThen (Action.attempt (onStream id fun s backend => s.sweep b.clock backend))
          fun _ => sweepStreams ids) b = _
      simp only [Action.andThen, Action.read]
      generalize (onStream id fun s backend => s.sweep b.clock backend).attempt b = r
      obtain ⟨_ | _, _⟩ := r <;> rfl
    -- Neither a sweep that succeeds nor one that fails begins or ends a pull.
    have hone : ((onStream id fun s backend => s.sweep b.clock backend).attempt b).2.pulls =
        b.pulls := by
      have hpulls := pulls_onStream id (fun s backend => s.sweep b.clock backend) b
      rw [Action.attempt]
      split
      · next t heq =>
        rw [heq] at hpulls
        exact hpulls
      · next reply t _ heq =>
        rw [heq] at hpulls
        exact hpulls
    rw [hsplit]
    split
    · next t heq =>
      rw [heq] at hone
      exact (ih t).trans hone
    · next t heq =>
      rw [heq] at hone
      exact hone

/-- **What is done at an instant lets no pull look that is not ready.** -/
theorem Ledger.mem_pulls_of_step? (hb : b.Ledger) (h : b.step? = some b') (hp : p ∈ b.pulls)
    (hready : b.isReady p = false) : p ∈ b'.pulls := by
  have hswept : p ∈ b.sweep.pulls :=
    (pulls_sweepStreams (b.streams.map Stream.id) b).symm ▸ hp
  have hresumed {w : Pull} (hw : b.readyPull? = some w) : p ∈ (resume w b).pulls := by
    -- The pull that is resumed is ready, and no other has its number.
    refine mem_pulls_resume hp fun hid => ?_
    obtain rfl := hb.eq_of_pull_id hp (List.mem_of_find?_eq_some hw) hid
    have hready' := List.find?_some hw
    rw [hready, Bool.and_false] at hready'
    cases hready'
  rw [step?] at h
  split at h
  · next hw =>
    split at h
    · cases h
      exact hresumed hw
    · cases h
      exact hswept
  · cases h
    exact hswept
  · next hw =>
    cases h
    exact hresumed hw
  · obtain ⟨u, -, rfl⟩ := Option.map_eq_some_iff.1 h
    exact mem_pulls_deliver u hp

/-! ## Runs -/

/-- **Since a pull looked last, it has waited as it did then**, and if its consumer has another
signal now than it has seen, it was told so. -/
theorem Acted.last_look (h : Acted past b) (hp : p ∈ b.pulls) :
    ∃ recent t a older, past = recent ++ (t, a) :: older ∧ a.Looks t p.id ∧
      (∀ e ∈ recent, ¬e.2.Looks e.1 p.id) ∧ t.now < p.wake ∧ p.wake ≤ p.deadline ∧
      (b.signalOf p = some p.seen ∨ ∃ e ∈ recent, e.2.Tells e.1 p) := by
  induction h generalizing p with
  | started => cases hp
  | @act b past h a hproper hanswered ih =>
    rcases Act.looks_or_keeps h.ledger h.staffed hanswered hp with
      ⟨hlooks, hdozes⟩ | ⟨hlooks, q, hq, parked, rfl⟩
    · exact ⟨[], b, a, past, rfl, hlooks, List.forall_mem_nil _, hdozes.lt_wake, hdozes.wake_le,
        .inl hdozes.signalOf_eq⟩
    · obtain ⟨recent, t, a', older, rfl, hlooks', hrecent, hlt, hle, hseen⟩ := ih hq
      refine ⟨(b, a) :: recent, t, a', older, rfl, hlooks', ?_, hlt, hle, ?_⟩
      · exact List.forall_mem_cons.2 ⟨hlooks, hrecent⟩
      · rcases hseen with hseen | ⟨e, he, htells⟩
        · by_cases htells : a.Tells b q
          · exact .inr ⟨(b, a), List.mem_cons_self, htells⟩
          · exact .inl ((Classical.not_not.1 htells).trans hseen)
        · exact .inr ⟨e, List.mem_cons_of_mem _ he, htells⟩

/-- **The rounds of a pull lead on.**  A pull from any consumer that got nothing, and reports
nothing as too large, leaves no delivery that is due.  So a pull that waits is ready for another
round only if time has passed since it looked last, or an act since then has told its consumer.  As
long as it is not ready, nothing that is done lets it look, neither what is to be done at the
instant nor its caller.  When it looks at its deadline or later it waits no more, and when nothing
is left to be done its deadline is still to come. -/
theorem Acted.rounds (h : Acted past b) (hp : p ∈ b.pulls) :
    (∀ (c : Cursor) (x : Index) (l : Cursor.Limits) (now : Instant), 1 ≤ l.batch →
      (c.collect x l now).2.deliveries = [] → (c.collect x l now).2.oversized = none →
      ∀ n d, (c.collect x l now).1.pending.get? n = some d → now < d.deadline) ∧
    (∃ recent t a older, past = recent ++ (t, a) :: older ∧ a.Looks t p.id ∧
      (∀ e ∈ recent, ¬e.2.Looks e.1 p.id) ∧ t.now < p.wake ∧ p.wake ≤ p.deadline ∧
      (b.isReady p = true → t.now < b.now ∨ ∃ e ∈ recent, e.2.Tells e.1 p)) ∧
    (b.isReady p = false → lookIfDue p.id b = b ∧ ∀ b', b.step? = some b' → p ∈ b'.pulls) ∧
    (p.deadline ≤ b.now → ∀ q ∈ ((Act.look p.id).run b).pulls, q.id ≠ p.id) ∧
    (b.step? = none → p.parked = false → b.now < p.deadline.nextMilli) := by
  obtain ⟨recent, t, a, older, hpast, hlooks, hrecent, hlt, hle, hseen⟩ := h.last_look hp
  refine ⟨fun c x l now hbatch hnone hfits n d hd => Cursor.undue_collect hbatch hnone hfits hd,
    ⟨recent, t, a, older, hpast, hlooks, hrecent, hlt, hle, fun hready => ?_⟩, fun hready => ⟨?_,
      fun b' hstep => h.ledger.mem_pulls_of_step? hstep hp hready⟩,
    h.ledger.over_of_deadline h.staffed hp, fun hsettled hparked => ?_⟩
  · rcases isReady_iff.1 hready with hdue | hsignal
    · exact .inl (Nat.lt_of_lt_of_le hlt (Nat.le_trans (Instant.le_nextMilli _) hdue))
    · exact .inr (hseen.resolve_left hsignal)
  · rw [isReady, Bool.or_eq_false_iff] at hready
    simp only [lookIfDue, h.ledger.pull?_eq hp, hready.1, Bool.false_eq_true, if_false]
  · -- A pull that is left waiting is not due, so it is not at its deadline.
    have hready := isReady_of_step? hsettled hp hparked
    rw [isReady, isDue, Bool.or_eq_false_iff, decide_eq_false_iff_not, Nat.not_le] at hready
    exact Nat.lt_of_lt_of_le hready.1 (Instant.nextMilli_mono hle)

/-- A message is pending when a pull begins, and when its delivery is due to be repeated the pull is
ready. -/
theorem rounds_due : ∃ past b p, Acted past b ∧ p ∈ b.pulls ∧ b.isReady p = true ∧
    p.wake = 30000000000 ∧ p.deadline = 60000000000 ∧
    ∃ recent t a older, past = recent ++ (t, a) :: older ∧ a.Looks t p.id ∧
      (∀ e ∈ recent, ¬e.2.Looks e.1 p.id) ∧
      (t.now < b.now ∨ ∃ e ∈ recent, e.2.Tells e.1 p) := by
  have hstarted := Acted.started {} 0 Stream.blankBackend (show Stream.epochClock.IsDated from rfl)
  have hopened := hstarted.act (a := .openStream Stream.plainSettings) trivial (by decide +kernel)
  have hhired := hopened.act (a := .operate 0 2 (.upsertConsumer .create 1 "" {}
    { durableName := some "c" }))
    (Act.isProper_hire (by decide +kernel) (by decide +kernel) (by decide +kernel))
    (by decide +kernel)
  have hstored := hhired.act (a := .operate 0 2 Stream.plainPublish)
    (Act.isProper_operate rfl (fun _ => trivial) Nat.le_refl (by decide +kernel)
      (by decide +kernel)) (by decide +kernel)
  have hserved := hstored.act (a := .pull 0 1 { noWait := true }) trivial (by decide +kernel)
  have hwaits := hserved.act (a := .pull 0 1 { expires := some ⟨60000000000⟩ }) trivial
    (by decide +kernel)
  have hdue := hwaits.act (a := .wait 30000000000) ⟨by decide +kernel, by decide +kernel⟩
    (by decide +kernel)
  have hrounds {past : List (Broker × Act)} {b : Broker} (h : Acted past b)
      (hready : ∃ p ∈ b.pulls, b.isReady p = true ∧ p.wake = 30000000000 ∧
        p.deadline = 60000000000) := hready.imp fun p hp => And.intro hp (h.rounds hp.1)
  obtain ⟨p, ⟨hp, hready, hwake, hdeadline⟩, hrounds⟩ := hrounds hdue (by decide +kernel)
  obtain ⟨-, ⟨recent, t, a, older, hpast, hlooks, hrecent, -, -, hagain⟩, -⟩ := hrounds
  exact ⟨_, _, p, hdue, hp, hready, hwake, hdeadline, recent, t, a, older, hpast, hlooks, hrecent,
    hagain hready⟩

end Broker

end StreamBroker
