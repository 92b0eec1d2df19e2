import Mathlib.Logic.Relation
import StreamBroker.Proofs.Broker.History

/-!
# What is done to a broker

The steps of a broker leave open who pulls for whom: any pull may look, and subscriptions come and
go as they like.  Where this matters pulls and subscriptions have to be begun as they are in fact.
Then every pull has a number of its own, and the pull of a subscription is one of its consumer.

## Main definitions

* `Broker.Quiet`: nothing is begun
* `Broker.StartsPull`: how a pull begins
* `Broker.Deed`: what is done to a broker
* `Broker.Chronicle`: the states that a broker has been in by what was done
* `Broker.Tidy`: pulls are told apart, and subscriptions have pulls of their own

## Main results

* `Broker.lookOnce_cases`, `Broker.startsPull`: what becomes of a pull that looks or begins
* `Broker.Deed.steps`: what is done is made of steps
* `Broker.Chronicle.staffed`, `Broker.Chronicle.tidy`: what holds at any time
-/

namespace StreamBroker

/-- One pull asks for the same as another, under the same number. -/
structure Pull.SameRequest (p q : Pull) : Prop where
  /-- They have one number. -/
  id_eq : q.id = p.id
  /-- They ask one stream. -/
  stream_eq : q.stream = p.stream
  /-- They ask one consumer. -/
  consumer_eq : q.consumer = p.consumer
  /-- They ask for the same. -/
  request_eq : q.request = p.request

theorem Pull.SameRequest.refl (p : Pull) : p.SameRequest p := ⟨rfl, rfl, rfl, rfl⟩

/-- One subscription pulls for the same consumer as another, and has no other pull. -/
structure Subscription.SameTask (u v : Subscription) : Prop where
  /-- They pull from one stream. -/
  stream_eq : v.stream = u.stream
  /-- They pull for one consumer. -/
  consumer_eq : v.consumer = u.consumer
  /-- They have the same pull, or the other has none any more. -/
  pull_eq : v.pull = u.pull ∨ v.pull = none

/-- Counting a message touches nothing but what counts. -/
theorem Subscription.count_eq (u : Subscription) : ∃ counted offering,
    u.count = { u with counted, offering } := by
  rw [count]
  split
  · split <;> exact ⟨_, _, rfl⟩
  · exact ⟨_, _, rfl⟩

/-- Putting a message into the queue touches nothing but what holds messages. -/
theorem Subscription.send_eq (u : Subscription) : ∃ queue outbox offering,
    u.send = { u with queue, outbox, offering } := by
  rw [send]
  split
  · split <;> exact ⟨_, _, _, rfl⟩
  · exact ⟨_, _, _, rfl⟩

theorem Subscription.offer_eq (n : Nat) (u : Subscription) : ∃ queue outbox counted offering,
    u.offer n = { u with queue, outbox, counted, offering } := by
  induction n generalizing u with
  | zero => exact ⟨_, _, _, _, rfl⟩
  | succ n ih =>
    obtain ⟨counted, _, hcount⟩ := u.count_eq
    obtain ⟨queue, outbox, offering, hsend⟩ := u.count.send_eq
    rw [offer, hsend, hcount]
    dsimp only
    split
    · exact ⟨_, _, _, _, rfl⟩
    · obtain ⟨_, _, _, _, hrest⟩ := ih { u with queue, outbox, counted, offering }
      exact ⟨_, _, _, _, hrest⟩

/-- Filling up the queue touches nothing but what holds and counts messages. -/
theorem Subscription.pump_eq (u : Subscription) : ∃ queue outbox counted offering,
    u.pump = { u with queue, outbox, counted, offering } := offer_eq u.outbox.length u

theorem Subscription.SameTask.refl (u : Subscription) : u.SameTask u := ⟨rfl, rfl, .inl rfl⟩

namespace Broker

variable {b b' t : Broker} {past : List Broker} {p q : Pull} {u v : Subscription}
  {stream consumer : Nat} {r : PullRequest}

/-! ## Deeds -/

/-- Nothing is begun: what waits has waited before. -/
structure Quiet (b b' : Broker) : Prop where
  /-- Numbers are not taken back. -/
  nextId_le : b.nextId ≤ b'.nextId
  /-- A pull that waits has waited before. -/
  pulls : ∀ q ∈ b'.pulls, ∃ p ∈ b.pulls, p.SameRequest q
  /-- A subscription has been there before. -/
  subscriptions : ∀ v ∈ b'.subscriptions, ∃ u ∈ b.subscriptions, u.SameTask v

theorem Quiet.of_eq (hnext : b.nextId ≤ b'.nextId) (hpulls : b'.pulls = b.pulls)
    (hsubscriptions : b'.subscriptions = b.subscriptions) : b.Quiet b' where
  nextId_le := hnext
  pulls q hq := ⟨q, hpulls ▸ hq, .refl q⟩
  subscriptions v hv := ⟨v, hsubscriptions ▸ hv, .refl v⟩

/-- What is done to a broker. -/
inductive Deed (b : Broker) : Broker → Prop where
  /-- A step that begins nothing. -/
  | quiet {b' : Broker} (hstep : b.Step b') (h : b.Quiet b') : Deed b b'
  /-- A pull begins, and may be over at once. -/
  | pulled (stream consumer : Nat) (r : PullRequest) : Deed b (startPull stream consumer r b).2
  /-- A pull that waits looks again. -/
  | looked {p : Pull} (hp : p ∈ b.pulls) : Deed b (lookAgain p b)
  /-- A subscription begins, or is refused. -/
  | subscribed (stream consumer : Nat) : Deed b ((subscribe stream consumer).run b).2
  /-- A subscription goes on, and may begin a pull. -/
  | progressed {u : Subscription} (hu : u ∈ b.subscriptions) : Deed b (progress u b)

/-- No pull that is over has run out of numbers. -/
def IsAnswered (b : Broker) : Prop := ∀ o ∈ b.outcomes, o.result ≠ .error .numbersExhausted

instance (b : Broker) : Decidable b.IsAnswered :=
  inferInstanceAs (Decidable (∀ o ∈ b.outcomes, o.result ≠ .error .numbersExhausted))

/-- The states that a broker has been in by what was done, the present one first. -/
inductive Chronicle : List Broker → Prop where
  | started (settings : BrokerSettings) (seed : Nat) {clock : Clock} (backend : Backend)
      (hclock : clock.IsDated) : Chronicle [start settings seed clock backend]
  | done {b b' : Broker} {past : List Broker} (h : Chronicle (b :: past)) (hdeed : b.Deed b')
      (hanswered : b'.IsAnswered) : Chronicle (b' :: b :: past)

/-- Pulls are told apart from those to come, and subscriptions have pulls of their own. -/
structure Tidy (b : Broker) : Prop where
  /-- The numbers of pulls were given. -/
  id_lt : ∀ p ∈ b.pulls, p.id < b.nextId
  /-- Pulls ask for something. -/
  batch_ne : ∀ p ∈ b.pulls, p.request.batch ≠ 0
  /-- So were the numbers of the pulls of subscriptions. -/
  pull_lt : ∀ u ∈ b.subscriptions, ∀ i, u.pull = some i → i < b.nextId
  /-- The pull of a subscription is one of its consumer. -/
  own : ∀ u ∈ b.subscriptions, ∀ p ∈ b.pulls, u.pull = some p.id →
    p.stream = u.stream ∧ p.consumer = u.consumer

/-! ## What is touched -/

/-- Changing a consumer touches nothing but streams. -/
theorem modifyConsumer_eq (b : Broker) (stream consumer : Nat) (f : Consumer → Consumer) :
    ∃ streams formerStreams,
      b.modifyConsumer stream consumer f = { b with streams, formerStreams } := by
  rw [modifyConsumer]
  split
  · exact ⟨_, _, rfl⟩
  · exact ⟨_, _, rfl⟩

@[simp] theorem outcomes_modifyConsumer (b : Broker) (stream consumer : Nat)
    (f : Consumer → Consumer) : (b.modifyConsumer stream consumer f).outcomes = b.outcomes := by
  obtain ⟨_, _, h⟩ := modifyConsumer_eq b stream consumer f
  rw [h]

@[simp] theorem subscriptions_modifyConsumer (b : Broker) (stream consumer : Nat)
    (f : Consumer → Consumer) :
    (b.modifyConsumer stream consumer f).subscriptions = b.subscriptions := by
  obtain ⟨_, _, h⟩ := modifyConsumer_eq b stream consumer f
  rw [h]

@[simp] theorem nextId_modifyConsumer (b : Broker) (stream consumer : Nat)
    (f : Consumer → Consumer) : (b.modifyConsumer stream consumer f).nextId = b.nextId := by
  obtain ⟨_, _, h⟩ := modifyConsumer_eq b stream consumer f
  rw [h]

/-- The broker when a pull that begins has taken a number and a place. -/
def enlist (stream consumer : Nat) (b : Broker) : Broker :=
  b.freshId.2.modifyConsumer stream consumer (Attendance.arrive.change b.now)

theorem enlist_eq (stream consumer : Nat) (b : Broker) : ∃ streams formerStreams,
    b.enlist stream consumer = { b with nextId := b.nextId + 1, streams, formerStreams } :=
  modifyConsumer_eq b.freshId.2 stream consumer _

@[simp] theorem pulls_enlist (stream consumer : Nat) (b : Broker) :
    (b.enlist stream consumer).pulls = b.pulls := pulls_modifyConsumer ..

@[simp] theorem outcomes_enlist (stream consumer : Nat) (b : Broker) :
    (b.enlist stream consumer).outcomes = b.outcomes := outcomes_modifyConsumer ..

@[simp] theorem nextId_enlist (stream consumer : Nat) (b : Broker) :
    (b.enlist stream consumer).nextId = b.nextId + 1 := nextId_modifyConsumer ..

@[simp] theorem now_enlist (stream consumer : Nat) (b : Broker) :
    (b.enlist stream consumer).now = b.now := congrArg Clock.elapsed (clock_modifyConsumer ..)

/-- An operation on a stream touches nothing but streams and what is stored. -/
theorem onStream_eq {α : Type} (id : Nat)
    (f : Stream → Backend → Except Error α × Stream × Backend) (b : Broker) :
    ∃ streams formerStreams backend,
      (onStream id f b).2 = { b with streams, formerStreams, backend } := by
  rw [onStream]
  split
  · exact ⟨_, _, _, rfl⟩
  · exact ⟨_, _, _, rfl⟩

/-- Creating a stream takes a number and touches nothing but streams and what is stored. -/
theorem openStream_eq (settings : StreamSettings) (b : Broker) : ∃ streams backend,
    ((openStream settings).run b).2 =
      { b with nextId := b.nextId + 1, streams, backend } := by
  cases opens settings b with
  | failed hopen heq | ringless hopen heq | opened hopen heq => exact ⟨_, _, congrArg Prod.snd heq⟩

/-- Deleting a stream touches nothing but streams and what is stored. -/
theorem deleteStream_eq (name : String) (b : Broker) : ∃ streams formerStreams backend,
    ((deleteStream name).run b).2 = { b with streams, formerStreams, backend } := by
  cases deletes name b with
  | missed hnone heq | deleted hs hdestroy heq => exact ⟨_, _, _, congrArg Prod.snd heq⟩

/-- A look touches nothing but streams and what is stored, and a pull that waits after it asks for
the same as before. -/
theorem glance_eq (p : Pull) (b : Broker) :
    (∃ streams formerStreams backend,
      (glance p b).2 = { b with streams, formerStreams, backend }) ∧
      ∀ q, (glance p b).1 = .waits q → p.SameRequest q := by
  rw [glance]
  cases hlive : b.liveConsumer p.stream p.consumer with
  | error e => exact ⟨⟨_, _, _, rfl⟩, fun q hq => by cases hq⟩
  | ok found =>
    obtain ⟨s, c⟩ := found
    dsimp only
    have htouched := onStream_eq s.id (fun s backend =>
      s.collect c ⟨p.request.batch, p.request.maxBytes⟩ b.clock backend) b
    cases hr : onStream s.id (fun s backend =>
        s.collect c ⟨p.request.batch, p.request.maxBytes⟩ b.clock backend) b with
    | mk reply t =>
      rw [hr] at htouched
      cases reply with
      | error e => exact ⟨htouched, fun q hq => by cases hq⟩
      | ok collected =>
        dsimp only
        split
        · exact ⟨htouched, fun q hq => by cases hq⟩
        · refine ⟨htouched, fun q hq => ?_⟩
          cases hq
          exact ⟨rfl, rfl, rfl, rfl⟩

/-- A pull that looks is over, or waits behind all others. -/
theorem lookOnce_cases (p : Pull) (b : Broker) :
    ∃ streams formerStreams backend,
      (∃ result, (glance p b).1 = .over result ∧ lookOnce p b =
        { b with streams, formerStreams, backend, outcomes := b.outcomes ++ [⟨p.id, result⟩] }) ∨
      ∃ q, p.SameRequest q ∧ (∃ w, (glance p b).1 = .waits w) ∧ lookOnce p b = { b with
        streams, formerStreams, backend, pulls := b.pulls ++ [q], turns := b.turns + 1 } := by
  obtain ⟨⟨ss, fs, backend, htouched⟩, hsame⟩ := glance_eq p b
  rw [lookOnce]
  cases hg : glance p b with
  | mk step t =>
    rw [hg] at htouched hsame
    obtain rfl : t = { b with streams := ss, formerStreams := fs, backend } := htouched
    cases step with
    | «over» result =>
      obtain ⟨streams, formerStreams, hleft⟩ :=
        modifyConsumer_eq { b with streams := ss, formerStreams := fs, backend } p.stream p.consumer
          (·.mapCursor (·.removeWaiting b.now))
      refine ⟨streams, formerStreams, backend, .inl ⟨result, rfl, ?_⟩⟩
      simp only [finishPull, leavePlace]
      rw [show Broker.now { b with streams := ss, formerStreams := fs, backend } = b.now from rfl,
        hleft]
    | waits w =>
      obtain ⟨hid, hstream, hconsumer, hrequest⟩ := hsame w rfl
      exact ⟨ss, fs, backend, .inr ⟨{ w with turn := b.turns }, ⟨hid, hstream, hconsumer, hrequest⟩,
        ⟨w, rfl⟩, rfl⟩⟩

/-- A request that is allowed asks for something. -/
theorem batch_ne_of_check {settings : ConsumerSettings} (h : r.check settings = .ok ()) :
    r.batch ≠ 0 := by
  intro hzero
  rw [PullRequest.check, if_pos hzero] at h
  cases h

/-- A pull of a consumer that is not there is refused. -/
theorem startPull_none (h : b.consumerById? stream consumer = none) (r : PullRequest) :
    startPull stream consumer r b = (b.nextId, { b.freshId.2 with
      outcomes := b.outcomes ++ [⟨b.nextId, .error (.consumerNotFound "")⟩] }) := by
  have hfound : b.freshId.2.consumerById? stream consumer = none := h
  simp only [startPull, hfound]
  rfl

/-- A pull that is not allowed is refused, and that it was tried is noted if it is for want of a
place. -/
theorem startPull_error {c : Consumer} {e : Error} (h : b.consumerById? stream consumer = some c)
    (hcheck : checkPull c r = .error e) : startPull stream consumer r b =
      (b.nextId, { noteAttempt stream c r b.freshId.2 with
        outcomes := (noteAttempt stream c r b.freshId.2).outcomes ++ [⟨b.nextId, .error e⟩] }) := by
  have hfound : b.freshId.2.consumerById? stream consumer = some c := h
  simp only [startPull, hfound, hcheck]
  rfl

/-- A pull that is allowed takes a place and looks. -/
theorem startPull_ok {c : Consumer} (h : b.consumerById? stream consumer = some c)
    (hcheck : checkPull c r = .ok ()) :
    let deadline := b.now.after (r.patience c.cursor.settings b.settings.fetchExpires)
    startPull stream consumer r b = (b.nextId,
      lookOnce { id := b.nextId, stream, consumer, request := r, deadline, wake := deadline }
        (b.enlist stream consumer)) := by
  have hfound : b.freshId.2.consumerById? stream consumer = some c := h
  obtain ⟨_, _, henlist⟩ := enlist_eq stream consumer b
  have hplace : takePlace stream consumer b.freshId.2 = _ := henlist
  simp only [startPull, hfound, hcheck, hplace, henlist]
  rfl

/-- How a pull begins. -/
inductive StartsPull (stream consumer : Nat) (r : PullRequest) (b : Broker) : Prop where
  /-- It is refused: its consumer is not there, or does not allow what is asked for. -/
  | refused {e : Error} (hcheck : ∀ c, b.consumerById? stream consumer = some c →
        r.check c.cursor.settings = .error e)
      (heq : startPull stream consumer r b = (b.nextId,
        { b.freshId.2 with outcomes := b.outcomes ++ [⟨b.nextId, .error e⟩] }))
  /-- It is refused a place, and that it was tried is noted. -/
  | full {c : Consumer} {e : Error} {t : Broker} (hfound : b.consumerById? stream consumer = some c)
      (hcheck : r.check c.cursor.settings = .ok ()) (hmay : c.cursor.mayWait = false)
      (ht : t = b.freshId.2.modifyConsumer stream consumer (Attendance.touch.change b.now))
      (heq : startPull stream consumer r b =
        (b.nextId, { t with outcomes := t.outcomes ++ [⟨b.nextId, .error e⟩] }))
  /-- It takes a place and looks. -/
  | looks {c : Consumer} {deadline : Instant} (hfound : b.consumerById? stream consumer = some c)
      (hcheck : r.check c.cursor.settings = .ok ()) (hmay : c.cursor.mayWait = true)
      (heq : startPull stream consumer r b = (b.nextId,
        lookOnce { id := b.nextId, stream, consumer, request := r, deadline, wake := deadline }
          (b.enlist stream consumer)))

theorem startsPull (stream consumer : Nat) (r : PullRequest) (b : Broker) :
    StartsPull stream consumer r b := by
  cases hfind : b.consumerById? stream consumer with
  | none =>
    refine .refused (fun c hc => ?_) (startPull_none hfind r)
    cases hfind.symm.trans hc
  | some c =>
    have hid : c.id = consumer := by
      rw [consumerById?] at hfind
      obtain ⟨s, -, hc⟩ := Option.bind_eq_some_iff.1 hfind
      simpa using List.find?_some hc
    -- The request is checked before a place is looked for, and only the want of a place is noted.
    cases hcheck : r.check c.cursor.settings with
    | error e =>
      have hrefused : checkPull c r = .error e := by
        rw [checkPull, hcheck]
        rfl
      have hbegun := startPull_error hfind hrefused
      rw [noteAttempt, hcheck] at hbegun
      refine .refused (fun d hd => ?_) hbegun
      cases hfind.symm.trans hd
      exact hcheck
    | ok u =>
      cases hmay : c.cursor.mayWait with
      | false =>
        have hrefused : checkPull c r = .error (.exceededMaxWaiting c.name) := by
          rw [checkPull, hcheck, hmay]
          rfl
        have hbegun := startPull_error hfind hrefused
        rw [noteAttempt, hcheck, hid] at hbegun
        exact .full hfind hcheck hmay rfl hbegun
      | true =>
        have hallowed : checkPull c r = .ok () := by
          rw [checkPull, hcheck, hmay]
          rfl
        exact .looks hfind hcheck hmay (startPull_ok hfind hallowed)

/-- A subscription is refused, or its consumer had none and it begins without anything. -/
theorem subscribe_cases (stream consumer : Nat) (b : Broker) :
    ((subscribe stream consumer).run b).2 = b ∨
      ∃ s c batch, b.liveConsumer stream consumer = .ok (s, c) ∧ c.bound = false ∧
        (c.cursor.settings.maxBatch ≠ some 0 → batch ≠ 0) ∧
        ((subscribe stream consumer).run b).2 =
          { b.freshId.2.modifyConsumer s.id c.id (Attendance.bind.change b.now) with
            subscriptions :=
              b.subscriptions ++ [{ id := b.nextId, stream, consumer, batch }] } := by
  cases hlive : b.liveConsumer stream consumer with
  | error e =>
    rw [subscribe, Action.bind_ok (Action.run_read b), hlive]
    exact .inl (congrArg Prod.snd (Action.bind_error (e := e) rfl))
  | ok found =>
    obtain ⟨s, c⟩ := found
    rw [subscribe, Action.bind_ok (Action.run_read b), run_check_bind hlive]
    dsimp only
    cases hbound : c.bound with
    | true => exact .inl rfl
    | false =>
      obtain ⟨streams, formerStreams, htouched⟩ :=
        modifyConsumer_eq b.freshId.2 s.id c.id (Attendance.bind.change b.now)
      have hkept : (b.freshId.2.modifyConsumer s.id c.id
          (Attendance.bind.change b.now)).subscriptions = b.subscriptions := by
        rw [htouched]
        rfl
      rw [← hkept]
      cases hmost : c.cursor.settings.maxBatch with
      | some most =>
        refine .inr ⟨s, c, min most pushBatch, rfl, hbound, fun hne => ?_, rfl⟩
        rw [Ne, Nat.min_eq_zero_iff, not_or]
        exact ⟨fun hzero => hne (hmost.trans (congrArg some hzero)), by decide⟩
      | none => exact .inr ⟨s, c, pushBatch, rfl, hbound, fun _ => by decide, rfl⟩

/-- What came of the pull of a subscription is received, and nobody asks about it any more. -/
theorem receiveOutcome_cases (u : Subscription) (b : Broker) : receiveOutcome u b = (u, b) ∨
    ∃ i r, u.pull = some i ∧ b.outcome? i = some r ∧
      receiveOutcome u b = (u.receive r, b.forgetOutcome i) := by
  rw [receiveOutcome]
  split
  · exact .inl rfl
  · next i hi =>
    split
    · next r hr => exact .inr ⟨i, r, hi, hr, rfl⟩
    · exact .inl rfl

/-- A subscription that goes on receives what came of its pull, and may begin the next one. -/
theorem progress_cases (u : Subscription) (b : Broker) : ∃ outcomes v, u.SameTask v ∧
    (progress u b = { b with outcomes }.putSubscription v ∨
      ∃ r, progress u b = (startPull u.stream u.consumer r { b with outcomes }).2.putSubscription
        { v with pull := some b.nextId }) := by
  obtain ⟨outcomes, hreceived, hsame⟩ : ∃ outcomes,
      (receiveOutcome u b).2 = { b with outcomes } ∧ u.SameTask (receiveOutcome u b).1 := by
    rcases receiveOutcome_cases u b with heq | ⟨i, r, -, -, heq⟩
    · rw [heq]
      exact ⟨_, rfl, .refl u⟩
    · rw [heq]
      refine ⟨_, rfl, ?_⟩
      cases r <;> exact ⟨rfl, rfl, .inr rfl⟩
  obtain ⟨queue, outbox, counted, offering, hpump⟩ := (receiveOutcome u b).1.pump_eq
  refine ⟨outcomes, (receiveOutcome u b).1.pump, ?_, ?_⟩
  · rw [hpump]
    exact ⟨hsame.1, hsame.2, hsame.3⟩
  rw [progress]
  cases hr : receiveOutcome u b with
  | mk v t =>
    rw [hr] at hreceived hsame hpump
    obtain rfl : t = { b with outcomes } := hreceived
    obtain ⟨hstream, hconsumer, -⟩ := hsame
    dsimp only
    rw [hpump]
    split
    · refine .inr ⟨{ batch := v.batch }, ?_⟩
      simp only [beginPull]
      rw [show v.stream = u.stream from hstream, show v.consumer = u.consumer from hconsumer]
      cases startsPull u.stream u.consumer { batch := v.batch } { b with outcomes } with
      | refused _ h | full _ _ _ _ h | looks _ _ _ h => rw [h]
    · exact .inl rfl

/-! ## Steps that begin nothing -/

theorem Deed.operated {id next : Nat} {op : StreamOp}
    (hop : ∀ s, b.liveStream id = .ok s → op.IsProper s) (hnext : op.Numbers b.nextId next)
    (hreply : (onStream id (op.run b.clock) { b with nextId := next }).1 ≠
      .error .numbersExhausted) :
    b.Deed (onStream id (op.run b.clock) { b with nextId := next }).2 := by
  refine .quiet (.operated hop hnext hreply) ?_
  obtain ⟨streams, formerStreams, backend, htouched⟩ :=
    onStream_eq id (op.run b.clock) { b with nextId := next }
  rw [htouched]
  exact .of_eq hnext.le rfl rfl

theorem Deed.opened (b : Broker) (settings : StreamSettings) :
    b.Deed ((openStream settings).run b).2 := by
  refine .quiet (.opened settings) ?_
  obtain ⟨_, _, h⟩ := openStream_eq settings b
  rw [h]
  exact .of_eq (Nat.le_succ _) rfl rfl

/-! ## What is done is made of steps -/

theorem isAnswered_glance (h : (lookOnce p b).IsAnswered) : (glance p b).1.IsAnswered := by
  obtain ⟨_, _, _, ⟨result, hglance, hlook⟩ | ⟨q, -, ⟨w, hglance⟩, -⟩⟩ := lookOnce_cases p b
  · rw [hglance]
    refine h ⟨p.id, result⟩ ?_
    rw [hlook]
    exact List.mem_append_right _ List.mem_cons_self
  · rw [hglance]
    trivial

/-- A look is a step, if it does not run out of numbers. -/
theorem step_of_lookOnce (hbatch : p.request.batch ≠ 0) (h : (lookOnce p b).IsAnswered) :
    b.Step (lookOnce p b) := .looked hbatch (isAnswered_glance h)

theorem step_freshId (b : Broker) : b.Step b.freshId.2 := .aside rfl rfl rfl rfl (Nat.le_succ _)

theorem steps_enlist (stream consumer : Nat) (b : Broker) :
    Relation.ReflTransGen Step b (b.enlist stream consumer) :=
  .head (step_freshId b) (.single (.attended stream consumer .arrive))

theorem steps_startPull (h : (startPull stream consumer r b).2.IsAnswered) :
    Relation.ReflTransGen Step b (startPull stream consumer r b).2 := by
  cases startsPull stream consumer r b with
  | refused hcheck heq =>
    rw [heq]
    exact .single (.aside rfl rfl rfl rfl (Nat.le_succ _))
  | full hfound hcheck hmay ht heq =>
    subst ht
    rw [heq]
    exact .head (step_freshId b) (.head (.attended stream consumer .touch)
      (.single (.aside rfl rfl rfl rfl (Nat.le_refl _))))
  | looks hfound hcheck hmay heq =>
    -- It has not run out of numbers if what came of it is answered.
    rw [heq] at h ⊢
    exact (steps_enlist stream consumer b).tail (step_of_lookOnce (batch_ne_of_check hcheck) h)

/-- **What is done to a broker is made of steps.** -/
theorem Deed.steps (hb : b.Tidy) (h : b.Deed b') (hanswered : b'.IsAnswered) :
    Relation.ReflTransGen Step b b' := by
  cases h with
  | quiet hstep h => exact .single hstep
  | pulled stream consumer r => exact steps_startPull hanswered
  | @looked p hp =>
    -- The pull is taken out of the queue, and then it looks.
    exact .head (.withdrawn p.id) (.single (step_of_lookOnce (hb.batch_ne p hp) hanswered))
  | subscribed stream consumer =>
    rcases subscribe_cases stream consumer b with heq | ⟨s, c, batch, -, -, -, heq⟩
    · rw [heq]
    · rw [heq]
      -- A number is taken, the consumer is bound, and the list of subscriptions grows.
      exact .head (step_freshId b) (.head (.attended s.id c.id .bind)
        (.single (.aside rfl rfl rfl rfl (Nat.le_refl _))))
  | @progressed u hu =>
    obtain ⟨outcomes, v, -, heq | ⟨r, heq⟩⟩ := progress_cases u b
    · rw [heq]
      exact .single (.aside rfl rfl rfl rfl (Nat.le_refl _))
    · rw [heq] at hanswered ⊢
      have hreceived : b.Step { b with outcomes } := .aside rfl rfl rfl rfl (Nat.le_refl _)
      exact .head hreceived
        ((steps_startPull hanswered).tail (.aside rfl rfl rfl rfl (Nat.le_refl _)))

/-! ## Pulls are told apart -/

/-- At most one pull is begun, for one consumer and under a new number. -/
structure Begins (b : Broker) (stream consumer : Nat) (b' : Broker) : Prop where
  /-- Numbers are not taken back. -/
  nextId_le : b.nextId ≤ b'.nextId
  /-- A pull has waited before, or is new. -/
  pulls : ∀ q ∈ b'.pulls, (∃ p ∈ b.pulls, p.SameRequest q) ∨
    (b.nextId ≤ q.id ∧ q.id < b'.nextId) ∧ q.request.batch ≠ 0 ∧
      q.stream = stream ∧ q.consumer = consumer
  /-- A subscription has been there before, or has no pull, or a new one. -/
  subscriptions : ∀ v ∈ b'.subscriptions, (∃ u ∈ b.subscriptions, u.SameTask v) ∨
    ∀ i, v.pull = some i → (b.nextId ≤ i ∧ i < b'.nextId) ∧
      stream = v.stream ∧ consumer = v.consumer

theorem Quiet.begins (h : b.Quiet b') (stream consumer : Nat) : b.Begins stream consumer b' where
  nextId_le := h.nextId_le
  pulls q hq := .inl (h.pulls q hq)
  subscriptions v hv := .inl (h.subscriptions v hv)

theorem Begins.of_eq (hnext : b.nextId ≤ b'.nextId) (hpulls : b'.pulls = b.pulls)
    (hsubscriptions : b'.subscriptions = b.subscriptions) : b.Begins stream consumer b' :=
  (Quiet.of_eq hnext hpulls hsubscriptions).begins stream consumer

theorem Tidy.begins (hb : b.Tidy) (h : b.Begins stream consumer b') : b'.Tidy where
  id_lt q hq := by
    rcases h.pulls q hq with ⟨p, hp, hsame⟩ | ⟨⟨-, hlt⟩, -⟩
    · exact hsame.id_eq ▸ Nat.lt_of_lt_of_le (hb.id_lt p hp) h.nextId_le
    · exact hlt
  batch_ne q hq := by
    rcases h.pulls q hq with ⟨p, hp, hsame⟩ | ⟨-, hbatch, -⟩
    · exact hsame.request_eq ▸ hb.batch_ne p hp
    · exact hbatch
  pull_lt v hv i hi := by
    rcases h.subscriptions v hv with ⟨u, hu, hsame⟩ | hnew
    · rcases hsame.pull_eq with heq | hnone
      · exact Nat.lt_of_lt_of_le (hb.pull_lt u hu i (heq ▸ hi)) h.nextId_le
      · rw [hnone] at hi
        cases hi
    · exact (hnew i hi).1.2
  own v hv q hq hpull := by
    rcases h.subscriptions v hv with ⟨u, hu, htask⟩ | hnew
    · have hold : u.pull = some q.id := by
        rcases htask.pull_eq with heq | hnone
        · exact heq ▸ hpull
        · rw [hnone] at hpull
          cases hpull
      rcases h.pulls q hq with ⟨p, hp, hsame⟩ | ⟨⟨hle, -⟩, -⟩
      · obtain ⟨hstream, hconsumer⟩ := hb.own u hu p hp (hsame.id_eq ▸ hold)
        exact ⟨by rw [hsame.stream_eq, hstream, htask.stream_eq],
          by rw [hsame.consumer_eq, hconsumer, htask.consumer_eq]⟩
      · -- The subscription had its pull before this one was begun.
        exact absurd (hb.pull_lt u hu q.id hold) (Nat.not_lt.2 hle)
    · -- Its pull is new, so it is the one that was begun.
      obtain ⟨⟨hle, -⟩, hstream, hconsumer⟩ := hnew q.id hpull
      rcases h.pulls q hq with ⟨p, hp, hsame⟩ | ⟨-, -, hstream', hconsumer'⟩
      · exact absurd (hb.id_lt p hp) (Nat.not_lt.2 (hsame.id_eq ▸ hle))
      · exact ⟨hstream'.trans hstream, hconsumer'.trans hconsumer⟩

theorem begins_startPull (stream consumer : Nat) (r : PullRequest) (b : Broker) :
    b.Begins stream consumer (startPull stream consumer r b).2 ∧
      (startPull stream consumer r b).2.subscriptions = b.subscriptions ∧
      (startPull stream consumer r b).2.nextId = b.nextId + 1 := by
  cases startsPull stream consumer r b with
  | refused hcheck heq =>
    rw [heq]
    exact ⟨Begins.of_eq (Nat.le_succ _) rfl rfl, rfl, rfl⟩
  | full hfound hcheck hmay ht heq =>
    obtain ⟨streams, formerStreams, htouched⟩ :=
      modifyConsumer_eq b.freshId.2 stream consumer (Attendance.touch.change b.now)
    rw [heq, ht, htouched]
    exact ⟨Begins.of_eq (Nat.le_succ _) rfl rfl, rfl, rfl⟩
  | @looks c deadline hfound hcheck hmay heq =>
    obtain ⟨ss, fs, henlist⟩ := enlist_eq stream consumer b
    rw [heq, henlist]
    obtain ⟨streams, formerStreams, backend, ⟨result, -, hlook⟩ | ⟨q, hsame, -, hlook⟩⟩ :=
      lookOnce_cases
        { id := b.nextId, stream, consumer, request := r, deadline, wake := deadline }
        { b with nextId := b.nextId + 1, streams := ss, formerStreams := fs }
    · rw [hlook]
      exact ⟨Begins.of_eq (Nat.le_succ _) rfl rfl, rfl, rfl⟩
    · rw [hlook]
      refine ⟨⟨Nat.le_succ _, fun w hw => ?_, fun v hv => .inl ⟨v, hv, .refl v⟩⟩, rfl, rfl⟩
      rcases List.mem_append.1 hw with hw | hw
      · exact .inl ⟨w, hw, .refl w⟩
      · obtain rfl := List.mem_singleton.1 hw
        have hnew : w.id = b.nextId := hsame.id_eq
        refine .inr ⟨⟨Nat.le_of_eq hnew.symm, Nat.lt_succ_of_le (Nat.le_of_eq hnew)⟩, ?_,
          hsame.stream_eq, hsame.consumer_eq⟩
        rw [hsame.request_eq]
        exact batch_ne_of_check hcheck

theorem mem_putSubscription (h : v ∈ (b.putSubscription u).subscriptions) :
    v = u ∨ v ∈ b.subscriptions ∧ v.id ≠ u.id := by
  obtain ⟨w, hw, rfl⟩ := List.mem_map.1 h
  by_cases heq : w.id = u.id
  · exact .inl (if_pos (beq_iff_eq.2 heq))
  · have hkept : (if w.id == u.id then u else w) = w := if_neg (by simpa using heq)
    exact .inr (hkept.symm ▸ ⟨hw, heq⟩)

/-- A pull that looks again asks for the same. -/
theorem quiet_lookAgain (hp : p ∈ b.pulls) : b.Quiet (lookAgain p b) := by
  have hold : ∀ q ∈ (b.withoutPull p.id).pulls, ∃ w ∈ b.pulls, w.SameRequest q :=
    fun q hq => ⟨q, (List.mem_filter.1 hq).1, .refl q⟩
  have hsubs : ∀ v ∈ b.subscriptions, ∃ u ∈ b.subscriptions, u.SameTask v :=
    fun v hv => ⟨v, hv, .refl v⟩
  rw [lookAgain]
  obtain ⟨streams, formerStreams, backend, ⟨result, -, hlook⟩ | ⟨q, hsame, -, hlook⟩⟩ :=
    lookOnce_cases p (b.withoutPull p.id)
  · rw [hlook]
    exact ⟨Nat.le_refl _, hold, hsubs⟩
  · rw [hlook]
    refine ⟨Nat.le_refl _, fun w hw => ?_, hsubs⟩
    rcases List.mem_append.1 hw with hw | hw
    · exact hold w hw
    · obtain rfl := List.mem_singleton.1 hw
      exact ⟨p, hp, hsame⟩

/-- A subscription begins at most one pull, for its own consumer. -/
theorem begins_progress (hu : u ∈ b.subscriptions) :
    b.Begins u.stream u.consumer (progress u b) := by
  obtain ⟨outcomes, v, htask, heq | ⟨r, heq⟩⟩ := progress_cases u b
  · rw [heq]
    refine ⟨Nat.le_refl _, fun q hq => .inl ⟨q, hq, .refl q⟩, fun w hw => .inl ?_⟩
    rcases mem_putSubscription hw with rfl | ⟨hw, -⟩
    · exact ⟨u, hu, htask⟩
    · exact ⟨w, hw, .refl w⟩
  · obtain ⟨⟨hle, hpulls, -⟩, hsubs, hnext⟩ :=
      begins_startPull u.stream u.consumer r { b with outcomes }
    rw [heq]
    refine ⟨hle, hpulls, fun w hw => ?_⟩
    rcases mem_putSubscription hw with rfl | ⟨hw, -⟩
    · refine .inr fun i hi => ?_
      cases hi
      exact ⟨⟨Nat.le_refl _, hnext ▸ Nat.lt_succ_self _⟩, htask.stream_eq.symm,
        htask.consumer_eq.symm⟩
    · rw [hsubs] at hw
      exact .inl ⟨w, hw, .refl w⟩

/-- What is done begins at most one pull. -/
theorem Deed.begins (h : b.Deed b') : ∃ stream consumer, b.Begins stream consumer b' := by
  cases h with
  | quiet hstep h => exact ⟨0, 0, h.begins 0 0⟩
  | pulled stream consumer r => exact ⟨stream, consumer, (begins_startPull stream consumer r b).1⟩
  | looked hp => exact ⟨0, 0, (quiet_lookAgain hp).begins 0 0⟩
  | subscribed stream consumer =>
    rcases subscribe_cases stream consumer b with heq | ⟨s, c, batch, -, -, -, heq⟩
    · rw [heq]
      exact ⟨0, 0, Begins.of_eq (Nat.le_refl _) rfl rfl⟩
    · obtain ⟨streams, formerStreams, htouched⟩ :=
        modifyConsumer_eq b.freshId.2 s.id c.id (Attendance.bind.change b.now)
      rw [heq, htouched]
      refine ⟨0, 0, Nat.le_succ _, fun q hq => .inl ⟨q, hq, .refl q⟩, fun v hv => ?_⟩
      rcases List.mem_append.1 hv with hv | hv
      · exact .inl ⟨v, hv, .refl v⟩
      · obtain rfl := List.mem_singleton.1 hv
        exact .inr fun i hi => (by cases hi)
  | progressed hu => exact ⟨_, _, begins_progress hu⟩

/-! ## At any time -/

theorem staffed_of_steps (hb : b.Staffed) (h : Relation.ReflTransGen Step b b') : b'.Staffed := by
  induction h with
  | refl => exact hb
  | tail h hstep ih => exact (hstep.carries ih).staffed

theorem nextId_le_of_steps (hb : b.Staffed) (h : Relation.ReflTransGen Step b b') :
    b.nextId ≤ b'.nextId ∧ b.now ≤ b'.now := by
  induction h with
  | refl => exact ⟨Nat.le_refl _, Nat.le_refl _⟩
  | tail h hstep ih =>
    have hcarries := hstep.carries (staffed_of_steps hb h)
    exact ⟨Nat.le_trans ih.1 hcarries.nextId_le, Nat.le_trans ih.2 hcarries.now_le⟩

theorem Staffed.enlist (hb : b.Staffed) (stream consumer : Nat) :
    (b.enlist stream consumer).Staffed := staffed_of_steps hb (steps_enlist stream consumer b)

/-- **Pulls are told apart, and subscriptions have pulls of their own**, at any time. -/
theorem Chronicle.tidy (h : Chronicle (b :: past)) : b.Tidy := by
  generalize hstates : b :: past = states at h
  induction h generalizing b past with
  | started settings seed backend hclock =>
    cases hstates
    refine ⟨?_, ?_, ?_, ?_⟩ <;> intro x hx <;> cases hx
  | done h hdeed hanswered ih =>
    cases hstates
    obtain ⟨stream, consumer, hbegins⟩ := hdeed.begins
    exact (ih rfl).begins hbegins

theorem Chronicle.staffed (h : Chronicle (b :: past)) : b.Staffed := by
  generalize hstates : b :: past = states at h
  induction h generalizing b past with
  | started settings seed backend hclock =>
    cases hstates
    exact (History.started settings seed backend hclock).staffed
  | done h hdeed hanswered ih =>
    cases hstates
    exact staffed_of_steps (ih rfl) (hdeed.steps h.tidy hanswered)

end Broker

end StreamBroker
