import StreamBroker.Proofs.Broker.Ledger

/-!
# Acts

Every single thing that is done to a broker is an act, and acts are data: what was done can be
looked back at.  The work on behalf of a subscriber is cut into as many acts as there are moments in
between at which something else may be done: what came of a pull is received, a message is counted,
it goes into the queue, the next pull begins.

Whatever the acts are, the ledger is kept: nobody but a subscription knows the number of its pull.

## Main definitions

* `Act`, `Act.run`: the acts, and what they do
* `Act.IsProper`: what goes without saying about an act
* `Broker.endPull`: the pull of a subscription is given up
* `Broker.Acted`: what was done to a broker
* `Act.OnPulls`: what an act does with the pulls

## Main results

* `Act.steps`, `Act.ledger`: an act is made of steps, and keeps the ledger
* `Act.onPulls`: every act does one of few things with the pulls
* `Broker.Acted.staffed`, `Broker.Acted.ledger`: what holds at any time
* `Broker.Acted.progress`: a subscription that goes on does so act by act
-/

namespace StreamBroker

/-- An operation that is asked for, or done from time to time.  It is pulls that collect, and for
their sake and that of subscriptions consumers are attended to. -/
def StreamOp.isAsked : StreamOp → Bool
  | collect .. | attend .. => false
  | _ => true

/-- A thing that is done to a broker. -/
inductive Act where
  /-- An operation on a stream; the numbers up to the next one have been given. -/
  | operate (id next : Nat) (op : StreamOp)
  /-- A stream is created. -/
  | openStream (settings : StreamSettings)
  /-- A stream is deleted. -/
  | deleteStream (name : String)
  /-- A pull begins, and may be over at once. -/
  | pull (stream consumer : Nat) (r : PullRequest)
  /-- A pull that waits looks again. -/
  | look (id : Nat)
  /-- A pull is given up. -/
  | abort (id : Nat)
  /-- A pull waits with or without somebody who waits for it. -/
  | park (id : Nat) (parked : Bool)
  /-- Somebody has asked about a pull that is over. -/
  | forget (id : Nat)
  /-- A subscription begins, or is refused. -/
  | subscribe (stream consumer : Nat)
  /-- A subscription receives what came of its pull. -/
  | receive (id : Nat)
  /-- A subscription counts the message that is next to go into its queue. -/
  | count (id : Nat)
  /-- The message goes into the queue, if there is room. -/
  | send (id : Nat)
  /-- A subscription that has nothing more for its queue begins the next pull. -/
  | begin (id : Nat)
  /-- A subscriber takes a message, if there is one. -/
  | take (id : Nat)
  /-- A subscription ends. -/
  | drop (id : Nat)
  /-- Time passes. -/
  | wait (i : Instant)
  /-- Numbers, names and turns are given, calls to the store are to fail, iterators and the sweeper
  come and go. -/
  | aside (backend : Backend) (nextId namesMade turns : Nat) (iterators : List MessageIterator)
      (sweeper : Option Sweeper)
  /-- A new broker begins on the same store. -/
  | restart

namespace Broker

/-- Does something for a subscription, if it is there. -/
def forSubscription (id : Nat) (f : Subscription → Broker → Broker) (b : Broker) : Broker :=
  match b.subscription? id with
  | some u => f u b
  | none => b

theorem forSubscription_of_some {b : Broker} {id : Nat} {u : Subscription}
    (h : b.subscription? id = some u) (f : Subscription → Broker → Broker) :
    b.forSubscription id f = f u b := by rw [forSubscription, h]

theorem forSubscription_of_none {b : Broker} {id : Nat} (h : b.subscription? id = none)
    (f : Subscription → Broker → Broker) : b.forSubscription id f = b := by
  rw [forSubscription, h]

end Broker

namespace Act

/-- What an act does. -/
def run (a : Act) (b : Broker) : Broker :=
  match a with
  | operate id next op => (Broker.onStream id (op.run b.clock) { b with nextId := next }).2
  | openStream settings => ((Broker.openStream settings).run b).2
  | deleteStream name => ((Broker.deleteStream name).run b).2
  | pull stream consumer r => (Broker.startPull stream consumer r b).2
  | look id =>
    match b.pull? id with
    | some p => Broker.lookAgain p b
    | none => b
  | abort id => Broker.abortPull id b
  | park id parked => Broker.park id parked b
  | forget id => b.forgetOutcome id
  | subscribe stream consumer => ((Broker.subscribe stream consumer).run b).2
  | receive id => b.forSubscription id fun u b =>
    (Broker.receiveOutcome u b).2.putSubscription (Broker.receiveOutcome u b).1
  | count id => b.forSubscription id fun u b => b.putSubscription u.count
  | send id => b.forSubscription id fun u b => b.putSubscription u.send
  | begin id => b.forSubscription id fun u b => if u.isIdle then Broker.beginPull u b else b
  | take id => (Broker.takeMessage id b).2
  | drop id => Broker.dropSubscription id b
  | wait i => b.atInstant i
  | aside backend nextId namesMade turns iterators sweeper =>
    { b with backend, nextId := max b.nextId nextId, namesMade, turns, iterators, sweeper }
  | restart => b.restart

/-- What goes without saying about an act: operations are asked for as a broker asks for them and
are answered, nobody else knows the pull of a subscription, and time does not go back. -/
def IsProper (a : Act) (b : Broker) : Prop :=
  match a with
  | operate id next op => op.isAsked = true ∧ (∀ s, b.liveStream id = .ok s → op.IsProper s) ∧
      op.Numbers b.nextId next ∧
      (Broker.onStream id (op.run b.clock) { b with nextId := next }).1 ≠ .error .numbersExhausted
  | abort id | forget id => ∀ u ∈ b.subscriptions, u.pull ≠ some id
  | wait i => b.now ≤ i ∧ (b.clock.atInstant i).IsDated
  | _ => True

/-- An operation that takes no number and changes no settings may be asked for at any time. -/
theorem isProper_operate {b : Broker} {id next : Nat} {op : StreamOp} (hasked : op.isAsked = true)
    (hop : ∀ s, op.IsProper s) (hnumbers : ∀ n, op.Numbers n n) (hnext : b.nextId = next)
    (hreply : (Broker.onStream id (op.run b.clock) { b with nextId := next }).1 ≠
      .error .numbersExhausted) : (operate id next op).IsProper b :=
  ⟨hasked, fun s _ => hop s, hnext ▸ hnumbers _, hreply⟩

/-- A consumer may be asked for under a number that no other has. -/
theorem isProper_hire {b : Broker} {id i next : Nat} {mode : UpsertMode} {madeUp : String}
    {defaults : BrokerSettings} {settings : ConsumerSettings}
    (hnew : ∀ s ∈ b.streams, s.consumerById? i = none) (hnext : b.nextId ≤ i ∧ i < next)
    (hreply : (Broker.onStream id ((StreamOp.upsertConsumer mode i madeUp defaults settings).run
      b.clock) { b with nextId := next }).1 ≠ .error .numbersExhausted) :
    (operate id next (.upsertConsumer mode i madeUp defaults settings)).IsProper b :=
  ⟨rfl, fun s hs => hnew s (Broker.liveStream_eq_ok hs).1, hnext, hreply⟩

end Act

namespace Broker

variable {b b' t : Broker} {past : List (Broker × Act)} {a : Act} {p q : Pull}
  {u v : Subscription} {stream consumer id i : Nat} {r : PullRequest}

/-- What was done to a broker, and how it was before; what was done last comes first. -/
inductive Acted : List (Broker × Act) → Broker → Prop where
  | started (settings : BrokerSettings) (seed : Nat) {clock : Clock} (backend : Backend)
      (hclock : clock.IsDated) : Acted [] (start settings seed clock backend)
  | act {b : Broker} {past : List (Broker × Act)} (h : Acted past b) {a : Act}
      (hproper : a.IsProper b) (hanswered : (a.run b).IsAnswered) :
      Acted ((b, a) :: past) (a.run b)

/-! ## Acts -/

theorem steps_abortPull (id : Nat) (b : Broker) :
    Relation.ReflTransGen Step b (abortPull id b) := by
  rw [abortPull]
  split
  · next p hp =>
    exact .head (.withdrawn id) (.single (.attended p.stream p.consumer .leave))
  · exact .refl

theorem steps_startPull_putSubscription (hanswered : (startPull stream consumer r b).2.IsAnswered)
    (u : Subscription) : Relation.ReflTransGen Step b
      ((startPull stream consumer r b).2.putSubscription u) :=
  (steps_startPull hanswered).tail (.aside rfl rfl rfl rfl (Nat.le_refl _))

/-- The pull of a subscription is given up, if it has one. -/
def endPull (u : Subscription) (b : Broker) : Broker :=
  match u.pull with
  | some i => (abortPull i b).forgetOutcome i
  | none => b

theorem steps_endPull (u : Subscription) (b : Broker) :
    Relation.ReflTransGen Step b (endPull u b) := by
  rw [endPull]
  split
  · exact (steps_abortPull _ b).tail (.aside rfl rfl rfl rfl (Nat.le_refl _))
  · exact .refl

/-- What is done for any subscription keeps the ledger if it does so for each that is there. -/
theorem Ledger.forSubscription (hb : b.Ledger) {f : Subscription → Broker → Broker}
    (hf : ∀ u ∈ b.subscriptions, (f u b).Ledger) : (b.forSubscription id f).Ledger := by
  rw [Broker.forSubscription]
  split
  · next u hu => exact hf u (mem_of_subscription? hu).1
  · exact hb

end Broker

namespace Act

/-- What a subscription holds is received, offered or handed out. -/
def isHandling : Act → Bool
  | receive _ | count _ | send _ | take _ => true
  | _ => false

/-- What a subscription holds changes, and nothing else, but that an outcome may be received. -/
theorem run_handling {a : Act} (b : Broker) (ha : a.isHandling = true) : a.run b = b ∨
    ∃ u v outcomes, u ∈ b.subscriptions ∧ u.SamePost v ∧ outcomes ⊆ b.outcomes ∧
      a.run b = { b with outcomes }.putSubscription v := by
  -- Nothing is done for a subscription that is not there.
  have hfor (id : Nat) (f : Subscription → Broker → Broker)
      (hf : ∀ u, ∃ v outcomes, u.SamePost v ∧ outcomes ⊆ b.outcomes ∧
        f u b = { b with outcomes }.putSubscription v) :
      b.forSubscription id f = b ∨ ∃ u v outcomes, u ∈ b.subscriptions ∧ u.SamePost v ∧
        outcomes ⊆ b.outcomes ∧ b.forSubscription id f = { b with outcomes }.putSubscription v := by
    rw [Broker.forSubscription]
    split
    · next u hu =>
      obtain ⟨v, outcomes, hpost, houtcomes, heq⟩ := hf u
      exact .inr ⟨u, v, outcomes, (Broker.mem_of_subscription? hu).1, hpost, houtcomes, heq⟩
    · exact .inl rfl
  cases a with
  | receive id =>
    rw [run]
    refine hfor id _ fun u => ?_
    rcases Broker.receiveOutcome_cases u b with heq | ⟨i, result, -, -, heq⟩ <;> rw [heq]
    · exact ⟨u, _, .refl u, List.Subset.refl _, rfl⟩
    · have hpost : u.SamePost (u.receive result) := by cases result <;> exact ⟨rfl, rfl, rfl, rfl⟩
      exact ⟨_, _, hpost, List.filter_subset_self _, rfl⟩
  | count id =>
    rw [run]
    refine hfor id _ fun u => ?_
    obtain ⟨_, _, hcount⟩ := u.count_eq
    exact ⟨u.count, b.outcomes, hcount ▸ ⟨rfl, rfl, rfl, rfl⟩, List.Subset.refl _, rfl⟩
  | send id =>
    rw [run]
    refine hfor id _ fun u => ?_
    obtain ⟨_, _, _, hsend⟩ := u.send_eq
    exact ⟨u.send, b.outcomes, hsend ▸ ⟨rfl, rfl, rfl, rfl⟩, List.Subset.refl _, rfl⟩
  | take id =>
    rw [run, Broker.takeMessage]
    split
    · exact .inl rfl
    · next u hu =>
      split
      · next d queue _ =>
        exact .inr ⟨u, u.taken d queue, b.outcomes, (Broker.mem_of_subscription? hu).1,
          ⟨rfl, rfl, rfl, rfl⟩, List.Subset.refl _, rfl⟩
      · exact .inl rfl
  | _ => cases ha

/-- A subscription that has nothing more to offer begins its next pull. -/
theorem run_begin {b : Broker} {u : Subscription} {id : Nat} (hu : b.subscription? id = some u)
    (hidle : u.isIdle = true) : (begin id).run b =
      (Broker.startPull u.stream u.consumer { batch := u.batch } b).2.putSubscription
        { u with pull := some b.nextId } := by
  simp only [run, Broker.forSubscription, hu, hidle, if_true, Broker.beginPull,
    Broker.startPull_fst]

/-- A pull begins for a subscription that has nothing more to offer, or nothing happens. -/
theorem run_begin_cases (id : Nat) (b : Broker) :
    (begin id).run b = b ∧ (∀ u, b.subscription? id = some u → u.isIdle = false) ∨
      ∃ u, b.subscription? id = some u ∧ u.isIdle = true ∧ (begin id).run b =
        (Broker.startPull u.stream u.consumer { batch := u.batch } b).2.putSubscription
          { u with pull := some b.nextId } := by
  cases hu : b.subscription? id with
  | none => exact .inl ⟨by rw [run, Broker.forSubscription_of_none hu], nofun⟩
  | some u =>
    cases hidle : u.isIdle with
    | false =>
      refine .inl ⟨?_, fun v hv => Option.some.inj hv ▸ hidle⟩
      rw [run, Broker.forSubscription_of_some hu, if_neg (Bool.eq_false_iff.1 hidle)]
    | true => exact .inr ⟨u, rfl, hidle, run_begin hu hidle⟩

end Act

/-- **An act is made of steps.** -/
theorem Act.steps {a : Act} {b : Broker} (hb : b.Ledger) (hproper : a.IsProper b)
    (hanswered : (a.run b).IsAnswered) : Relation.ReflTransGen Broker.Step b (a.run b) := by
  -- What is seen by neither streams nor pulls is a step aside.
  have haside {b' : Broker} (hstreams : b'.streams = b.streams)
      (hformer : b'.formerStreams = b.formerStreams) (hpulls : b'.pulls = b.pulls)
      (hclock : b'.clock = b.clock) (hnext : b.nextId ≤ b'.nextId) :
      Relation.ReflTransGen Broker.Step b b' :=
    .single (.aside hstreams hformer hpulls hclock hnext)
  have hhandled (ha : a.isHandling = true) : Relation.ReflTransGen Broker.Step b (a.run b) := by
    rcases run_handling b ha with hrun | ⟨_, _, _, -, -, -, hrun⟩ <;> rw [hrun]
    exact haside rfl rfl rfl rfl (Nat.le_refl _)
  cases a with
  | operate id next op => exact .single (.operated hproper.2.1 hproper.2.2.1 hproper.2.2.2)
  | openStream settings => exact .single (.opened settings)
  | deleteStream name => exact .single (.deleted name)
  | pull stream consumer r => exact Broker.steps_startPull hanswered
  | look id =>
    cases hp : b.pull? id with
    | some p =>
      simp only [run, hp] at hanswered ⊢
      have hbatch := hb.batch_ne p (Broker.mem_of_pull? hp).1
      exact .head (.withdrawn p.id) (.single (Broker.step_of_lookOnce hbatch hanswered))
    | none =>
      simp only [run, hp]
      exact .refl
  | abort id => exact Broker.steps_abortPull id b
  | park id parked => exact .single (.parked id parked)
  | forget id => exact haside rfl rfl rfl rfl (Nat.le_refl _)
  | subscribe stream consumer =>
    rw [run]
    rcases Broker.subscribe_cases stream consumer b with heq | ⟨s, c, batch, -, -, -, heq⟩
    · rw [heq]
    · rw [heq]
      exact .head (Broker.step_freshId b) (.head (.attended s.id c.id .bind)
        (.single (.aside rfl rfl rfl rfl (Nat.le_refl _))))
  | receive id | count id | send id | take id => exact hhandled rfl
  | begin id =>
    rcases run_begin_cases id b with ⟨hrun, -⟩ | ⟨u, -, -, hrun⟩
    · rw [hrun]
    · rw [hrun] at hanswered ⊢
      exact Broker.steps_startPull_putSubscription hanswered _
  | drop id =>
    rw [run, Broker.dropSubscription]
    split
    · exact .refl
    · next u hu =>
      exact ((Broker.steps_endPull u b).tail (.attended u.stream u.consumer .unbind)).tail
        (.aside rfl rfl rfl rfl (Nat.le_refl _))
  | wait i => exact .single (.waited hproper.1 hproper.2)
  | aside => exact haside rfl rfl rfl rfl (Nat.le_max_left _ _)
  | restart => exact .single .restarted

/-- **Pulls and subscriptions are told apart** after every act. -/
theorem Act.ledger {a : Act} {b : Broker} (hb : b.Ledger) (hs : b.Staffed)
    (hproper : a.IsProper b) : (a.run b).Ledger := by
  cases a with
  | operate id next op =>
    obtain ⟨_, _, _, h⟩ := Broker.onStream_eq id (op.run b.clock) { b with nextId := next }
    rw [run, h]
    exact hb.of_eq hproper.2.2.1.le rfl rfl rfl
  | openStream settings =>
    obtain ⟨_, _, h⟩ := Broker.openStream_eq settings b
    rw [run, h]
    exact hb.of_eq (Nat.le_succ _) rfl rfl rfl
  | deleteStream name =>
    obtain ⟨_, _, _, h⟩ := Broker.deleteStream_eq name b
    rw [run, h]
    exact hb.of_eq (Nat.le_refl _) rfl rfl rfl
  | pull stream consumer r => exact hb.startPull hs stream consumer r
  | look id =>
    rw [run]
    split
    · next p hp =>
      obtain ⟨hmem, rfl⟩ := Broker.mem_of_pull? hp
      exact hb.lookAgain hmem
    · exact hb
  | abort id =>
    obtain ⟨_, _, h⟩ := Broker.abortPull_eq id b
    rw [run, h]
    exact (hb.withoutPull hproper).of_eq (Nat.le_refl _) rfl rfl rfl
  | park id parked => exact hb.park id parked
  | forget id => exact hb.forgetOutcome hproper
  | subscribe stream consumer =>
    rw [run]
    rcases Broker.subscribe_cases stream consumer b with heq | ⟨s, c, batch, hlive, -, -, heq⟩
    · rwa [heq]
    · rw [heq]
      -- Its stream and its consumer are there, so their numbers were given.
      obtain ⟨hmem, rfl, hc, rfl⟩ := hs.has_of_liveConsumer hlive
      exact hb.subscribed (Broker.nextId_modifyConsumer ..) (Broker.pulls_modifyConsumer ..)
        (Broker.outcomes_modifyConsumer ..) rfl (hs.id_lt _ (Broker.mem_streamIds hmem))
        (hs.consumer_lt s hmem c hc)
  | receive id =>
    rw [run]
    exact hb.forSubscription fun u hu => hb.receiveOutcome hu
  | count id =>
    rw [run]
    refine hb.forSubscription fun u hu => ?_
    obtain ⟨_, _, hcount⟩ := u.count_eq
    rw [hcount]
    exact hb.putSubscription hu ⟨rfl, rfl, rfl, rfl⟩ (.inr rfl)
  | send id =>
    rw [run]
    refine hb.forSubscription fun u hu => ?_
    obtain ⟨_, _, _, hsend⟩ := u.send_eq
    rw [hsend]
    exact hb.putSubscription hu ⟨rfl, rfl, rfl, rfl⟩ (.inr rfl)
  | begin id =>
    rw [run]
    refine hb.forSubscription fun u hu => ?_
    split
    · exact hb.beginPull hs hu
    · exact hb
  | take id =>
    rw [run, Broker.takeMessage]
    split
    · exact hb
    · next u hu =>
      split
      · exact hb.putSubscription (Broker.mem_of_subscription? hu).1 ⟨rfl, rfl, rfl, rfl⟩ (.inr rfl)
      · exact hb
  | drop id => exact hb.dropSubscription id
  | wait i => exact hb.of_eq (Nat.le_refl _) rfl rfl rfl
  | aside => exact hb.of_eq (Nat.le_max_left _ _) rfl rfl rfl
  | restart => exact .of_nil rfl rfl rfl

/-! ## What acts do with pulls -/

namespace Act

/-- What an act does with pulls: none looks, or one begins, or one looks again. -/
inductive OnPulls (a : Act) (b : Broker) : Prop where
  /-- Pulls that wait have waited before, and nothing has come of any. -/
  | rests (hpulls : ∀ p ∈ (a.run b).pulls, ∃ q ∈ b.pulls, ∃ parked, p = { q with parked })
      (houtcomes : (a.run b).outcomes ⊆ b.outcomes) (hlook : ∀ i, a = look i → b.pull? i = none)
  /-- A pull begins, as one of its own or as that of a subscription. -/
  | begins {stream consumer : Nat} {r : PullRequest} {subscriptions : List Subscription}
      (ha : a = pull stream consumer r ∨ ∃ id, a = begin id)
      (hrun : a.run b = { (Broker.startPull stream consumer r b).2 with subscriptions })
  /-- A pull that waits looks again. -/
  | looks {p : Pull} (hp : p ∈ b.pulls) (ha : a = look p.id) (hrun : a.run b = Broker.lookAgain p b)

/-- **An act lets at most one pull look**, one that begins or one that waits. -/
theorem onPulls (a : Act) (b : Broker) : a.OnPulls b := by
  have hkept (hpulls : (a.run b).pulls ⊆ b.pulls) (houtcomes : (a.run b).outcomes ⊆ b.outcomes)
      (hlook : ∀ i, a = look i → b.pull? i = none) : a.OnPulls b :=
    .rests (fun p hp => ⟨p, hpulls hp, p.parked, rfl⟩) houtcomes hlook
  have hsame {t : Broker} (hrun : a.run b = t) (hpulls : t.pulls = b.pulls)
      (houtcomes : t.outcomes = b.outcomes) (hlook : ∀ i, a = look i → b.pull? i = none) :
      a.OnPulls b :=
    hkept (by rw [hrun, hpulls]; exact List.Subset.refl _)
      (by rw [hrun, houtcomes]; exact List.Subset.refl _) hlook
  have hhandled (ha : a.isHandling = true) (hlook : ∀ i, a = look i → b.pull? i = none) :
      a.OnPulls b := by
    rcases run_handling b ha with hrun | ⟨u, v, outcomes, -, -, houtcomes, hrun⟩
    · exact hsame hrun rfl rfl hlook
    · exact hkept (by rw [hrun]; exact List.Subset.refl _) (by rw [hrun]; exact houtcomes) hlook
  cases a with
  | operate id next op =>
    obtain ⟨_, _, _, h⟩ := Broker.onStream_eq id (op.run b.clock) { b with nextId := next }
    exact hsame h rfl rfl fun _ h => by cases h
  | openStream settings =>
    obtain ⟨_, _, h⟩ := Broker.openStream_eq settings b
    exact hsame h rfl rfl fun _ h => by cases h
  | deleteStream name =>
    obtain ⟨_, _, _, h⟩ := Broker.deleteStream_eq name b
    exact hsame h rfl rfl fun _ h => by cases h
  | pull stream consumer r => exact .begins (.inl rfl) rfl
  | look id =>
    cases hp : b.pull? id with
    | none =>
      have hrun : (look id).run b = b := by simp only [run, hp]
      exact hsame hrun rfl rfl fun i hi => (Act.look.inj hi) ▸ hp
    | some p =>
      obtain ⟨hmem, rfl⟩ := Broker.mem_of_pull? hp
      exact .looks hmem rfl (by simp only [run, hp])
  | abort id =>
    obtain ⟨_, _, h⟩ := Broker.abortPull_eq id b
    have hrun : (abort id).run b = _ := h
    refine hkept ?_ ?_ (fun _ h => by cases h) <;> rw [hrun]
    · exact List.filter_subset_self _
    · exact List.Subset.refl _
  | park id parked =>
    refine .rests (fun p hp => ?_) (List.Subset.refl _) fun _ h => by cases h
    obtain ⟨q, hq, rfl⟩ := List.mem_map.1 hp
    refine ⟨q, hq, ?_⟩
    split
    · exact ⟨parked, rfl⟩
    · exact ⟨q.parked, rfl⟩
  | forget id => exact hkept (List.Subset.refl _) (List.filter_subset_self _) fun _ h => by cases h
  | subscribe stream consumer =>
    rcases Broker.subscribe_cases stream consumer b with heq | ⟨s, c, batch, -, -, -, heq⟩
    · exact hsame heq rfl rfl fun _ h => by cases h
    · exact hsame heq (Broker.pulls_modifyConsumer ..) (Broker.outcomes_modifyConsumer ..)
        fun _ h => by cases h
  | receive id | count id | send id | take id => exact hhandled rfl fun _ h => by cases h
  | begin id =>
    rcases run_begin_cases id b with ⟨hrun, -⟩ | ⟨u, -, -, hrun⟩
    · exact hsame hrun rfl rfl fun _ h => by cases h
    · exact .begins (.inr ⟨id, rfl⟩) hrun
  | drop id =>
    cases hu : b.subscription? id with
    | none =>
      have hrun : (drop id).run b = b := by simp only [run, Broker.dropSubscription, hu]
      exact hsame hrun rfl rfl fun _ h => by cases h
    | some u =>
      obtain ⟨_, _, h⟩ := Broker.dropSubscription_eq hu
      have hrun : (drop id).run b = _ := h
      refine hkept ?_ ?_ (fun _ h => by cases h) <;> rw [hrun] <;> exact List.filter_subset_self _
  | wait | aside => exact hsame rfl rfl rfl fun _ h => by cases h
  -- Pulls do not outlive their broker.
  | restart => exact hkept (List.nil_subset _) (List.nil_subset _) fun _ h => by cases h

end Act

namespace Broker

variable {b : Broker} {past : List (Broker × Act)} {u v : Subscription} {id : Nat}

/-! ## At any time -/

/-- **Streams, consumers, pulls and subscriptions are told apart**, at any time. -/
theorem Acted.staffed_ledger (h : Acted past b) : b.Staffed ∧ b.Ledger := by
  induction h with
  | started settings seed backend hclock =>
    exact ⟨(History.started settings seed backend hclock).staffed, .of_nil rfl rfl rfl⟩
  | act h hproper hanswered ih =>
    exact ⟨staffed_of_steps ih.1 (Act.steps ih.2 hproper hanswered),
      Act.ledger ih.2 ih.1 hproper⟩

theorem Acted.staffed (h : Acted past b) : b.Staffed := h.staffed_ledger.1

theorem Acted.ledger (h : Acted past b) : b.Ledger := h.staffed_ledger.2

/-- What was done last went without saying. -/
theorem Acted.isProper {a : Act} {b' : Broker} (h : Acted ((b, a) :: past) b') : a.IsProper b := by
  cases h with
  | act _ hproper _ => exact hproper

/-! ## Going on -/

theorem onStream_subscriptions {α : Type} (id : Nat)
    (f : Stream → Backend → Except Error α × Stream × Backend) (b : Broker)
    (us : List Subscription) : onStream id f { b with subscriptions := us } =
      ((onStream id f b).1, { (onStream id f b).2 with subscriptions := us }) := by
  have hlive : Broker.liveStream { b with subscriptions := us } id = b.liveStream id := rfl
  rw [onStream, onStream, hlive]
  cases b.liveStream id <;> rfl

/-- A pull that looks does not see what subscriptions there are. -/
theorem glance_subscriptions (p : Pull) (b : Broker) (us : List Subscription) :
    glance p { b with subscriptions := us } =
      ((glance p b).1, { (glance p b).2 with subscriptions := us }) := by
  have hlive : Broker.liveConsumer { b with subscriptions := us } p.stream p.consumer =
      b.liveConsumer p.stream p.consumer := rfl
  rw [glance, glance, hlive]
  cases b.liveConsumer p.stream p.consumer with
  | error e => rfl
  | ok found =>
    dsimp only
    rw [onStream_subscriptions]
    cases onStream found.1.id (fun s backend => s.collect found.2
        ⟨p.request.batch, p.request.maxBytes⟩ b.clock backend) b with
    | mk reply t =>
      cases reply with
      | error e => rfl
      | ok collected =>
        have hover : isOver { t with subscriptions := us } p
            (deliveredBy found.1 found.2 collected) =
              isOver t p (deliveredBy found.1 found.2 collected) := rfl
        dsimp only
        rw [hover]
        split <;> rfl

theorem modifyConsumer_subscriptions (b : Broker) (stream consumer : Nat)
    (f : Consumer → Consumer) (us : List Subscription) :
    Broker.modifyConsumer { b with subscriptions := us } stream consumer f =
      { b.modifyConsumer stream consumer f with subscriptions := us } := by
  have hfound : Broker.streamById? { b with subscriptions := us } stream =
      b.streamById? stream := rfl
  rw [modifyConsumer, modifyConsumer, hfound]
  split <;> rfl

theorem lookOnce_subscriptions (p : Pull) (b : Broker) (us : List Subscription) :
    lookOnce p { b with subscriptions := us } = { lookOnce p b with subscriptions := us } := by
  rw [lookOnce, lookOnce, glance_subscriptions]
  cases glance p b with
  | mk step t =>
    cases step with
    | «over» result => simp only [finishPull, leavePlace, modifyConsumer_subscriptions]; rfl
    | waits q => rfl

theorem startPull_subscriptions (stream consumer : Nat) (r : PullRequest) (b : Broker)
    (us : List Subscription) : (startPull stream consumer r { b with subscriptions := us }).2 =
      { (startPull stream consumer r b).2 with subscriptions := us } := by
  cases hc : b.consumerById? stream consumer with
  | none =>
    have hc' : Broker.consumerById? { b with subscriptions := us } stream consumer = none := hc
    rw [startPull_none hc, startPull_none hc']
    rfl
  | some c =>
    have hc' : Broker.consumerById? { b with subscriptions := us } stream consumer = some c := hc
    cases hcheck : checkPull c r with
    | error e =>
      -- A refusal for want of room is noted with the consumer; any other is noted nowhere.
      have hnote : noteAttempt stream c r (Broker.freshId { b with subscriptions := us }).2 =
          { noteAttempt stream c r b.freshId.2 with subscriptions := us } := by
        rw [noteAttempt, noteAttempt]
        split
        · exact modifyConsumer_subscriptions b.freshId.2 stream c.id _ us
        · rfl
      rw [startPull_error hc hcheck, startPull_error hc' hcheck, hnote]
    | ok _ =>
      have hplace : Broker.enlist stream consumer { b with subscriptions := us } =
          { b.enlist stream consumer with subscriptions := us } :=
        modifyConsumer_subscriptions b.freshId.2 stream consumer _ us
      have hnow : Broker.now { b with subscriptions := us } = b.now := rfl
      rw [startPull_ok hc hcheck, startPull_ok hc' hcheck, hnow, hplace, lookOnce_subscriptions]

theorem Acted.isAnswered (h : Acted past b) : b.IsAnswered := by
  cases h with
  | started settings seed backend hclock => exact fun o ho => (by cases ho)
  | act h hproper hanswered => exact hanswered

/-- The pull that a subscription begins does not depend on how it was noted before. -/
theorem beginPull_putSubscription (b : Broker) (h : v.id = u.id) :
    beginPull u (b.putSubscription v) = beginPull u b := by
  have hframe := startPull_subscriptions u.stream u.consumer { batch := u.batch } b
    (b.putSubscription v).subscriptions
  have hsame : { b with subscriptions := (b.putSubscription v).subscriptions } =
      b.putSubscription v := rfl
  obtain ⟨-, hsubscriptions, -⟩ := begins_startPull u.stream u.consumer { batch := u.batch } b
  have hput : (b.putSubscription v).subscriptions =
      ((startPull u.stream u.consumer { batch := u.batch } b).2.putSubscription v).subscriptions :=
    congrArg (List.map _) hsubscriptions.symm
  rw [hsame, hput] at hframe
  rw [beginPull, beginPull]
  dsimp only
  rw [startPull_fst, startPull_fst, hframe]
  exact putSubscription_putSubscription _ h.symm

/-- What is done for a subscription that is there. -/
theorem forSubscription_eq (hb : b.Ledger) (hu : u ∈ b.subscriptions)
    (f : Subscription → Broker → Broker) : b.forSubscription u.id f = f u b :=
  forSubscription_of_some (hb.subscription?_eq hu) f

/-- Messages are offered act by act. -/
theorem Acted.offer (h : Acted past b) (hu : u ∈ b.subscriptions) (n : Nat) :
    ∃ acts, Acted (acts ++ past) (b.putSubscription (u.offer n)) := by
  induction n generalizing b past u with
  | zero => exact ⟨[], (h.ledger.putSubscription_self hu).symm ▸ h⟩
  | succ n ih =>
    obtain ⟨_, _, hcount⟩ := u.count_eq
    obtain ⟨_, _, _, hsend⟩ := u.count.send_eq
    have hid : u.count.id = u.id := by rw [hcount]
    have hid' : u.count.send.id = u.count.id := by rw [hsend]
    have hcount_run : (Act.count u.id).run b = b.putSubscription u.count := by
      rw [Act.run, forSubscription_eq h.ledger hu]
    have hcounted : Acted ((b, .count u.id) :: past) (b.putSubscription u.count) :=
      hcount_run ▸ h.act (a := .count u.id) trivial (hcount_run ▸ h.isAnswered)
    have hmem := mem_putSubscription_self hu hid
    have hsend_run : (Act.send u.count.id).run (b.putSubscription u.count) =
        b.putSubscription u.count.send := by
      rw [Act.run, forSubscription_eq hcounted.ledger hmem, putSubscription_putSubscription b hid']
    have hsent : Acted ((b.putSubscription u.count, .send u.count.id) :: (b, .count u.id) :: past)
        (b.putSubscription u.count.send) :=
      hsend_run ▸ hcounted.act (a := .send u.count.id) trivial (hsend_run ▸ h.isAnswered)
    rw [Subscription.offer]
    split
    · exact ⟨[_, _], hsent⟩
    · -- Whatever found room, the next message is offered.
      have hmem' := mem_putSubscription_self hu (hid'.trans hid)
      obtain ⟨acts, hoffered⟩ := ih hsent hmem'
      obtain ⟨_, _, _, _, hoffer⟩ := u.count.send.offer_eq n
      have hid'' : (u.count.send.offer n).id = u.count.send.id := by rw [hoffer]
      rw [putSubscription_putSubscription b hid''] at hoffered
      exact ⟨acts ++ [_, _], by rwa [List.append_assoc]⟩

/-- **A subscription that goes on does so act by act.** -/
theorem Acted.progress (h : Acted past b) (hu : u ∈ b.subscriptions)
    (hanswered : (progress u b).IsAnswered) :
    ∃ acts, Acted (acts ++ past) (Broker.progress u b) := by
  -- It receives, offers what it holds, and if nothing is left then, it begins the next pull.
  have hsubscriptions : (receiveOutcome u b).2.subscriptions = b.subscriptions := by
    rcases receiveOutcome_cases u b with heq | ⟨i, r, -, -, heq⟩ <;> exact heq ▸ rfl
  have hanswered' : (receiveOutcome u b).2.IsAnswered := by
    rcases receiveOutcome_cases u b with heq | ⟨i, r, -, -, heq⟩
    · rw [heq]
      exact h.isAnswered
    · rw [heq]
      exact fun o ho => h.isAnswered o (List.mem_filter.1 ho).1
  have hid : (receiveOutcome u b).1.id = u.id := by
    rcases receiveOutcome_cases u b with heq | ⟨i, r, -, -, heq⟩
    · rw [heq]
    · rw [heq]
      cases r <;> rfl
  have hreceive_run : (Act.receive u.id).run b =
      (receiveOutcome u b).2.putSubscription (receiveOutcome u b).1 := by
    rw [Act.run, forSubscription_eq h.ledger hu]
  have hreceived : Acted ((b, .receive u.id) :: past)
      ((receiveOutcome u b).2.putSubscription (receiveOutcome u b).1) :=
    hreceive_run ▸ h.act (a := .receive u.id) trivial (hreceive_run ▸ hanswered')
  have hmem := mem_putSubscription_self (hsubscriptions ▸ hu) hid
  obtain ⟨acts, hpumped⟩ := hreceived.offer hmem (receiveOutcome u b).1.outbox.length
  obtain ⟨_, _, _, _, hoffer⟩ := (receiveOutcome u b).1.pump_eq
  have hid' : (receiveOutcome u b).1.pump.id = (receiveOutcome u b).1.id := by rw [hoffer]
  have hpumped : Acted (acts ++ (b, .receive u.id) :: past)
      ((receiveOutcome u b).2.putSubscription (receiveOutcome u b).1.pump) := by
    rwa [← Subscription.pump, putSubscription_putSubscription _ hid'] at hpumped
  rw [Broker.progress] at hanswered ⊢
  cases hr : receiveOutcome u b with
  | mk v t =>
    rw [hr] at hanswered hpumped hid' hsubscriptions hid
    dsimp only at hanswered hpumped hid' hsubscriptions hid ⊢
    cases hidle : v.pump.isIdle with
    | false =>
      rw [if_neg (by simp)]
      exact ⟨acts ++ [(b, .receive u.id)], by simpa using hpumped⟩
    | true =>
      rw [hidle, if_pos rfl] at hanswered
      rw [if_pos rfl]
      have hmem' : v.pump ∈ (t.putSubscription v.pump).subscriptions :=
        mem_putSubscription_self (hsubscriptions ▸ hu) (hid'.trans hid)
      have hbegin_run : (Act.begin v.pump.id).run (t.putSubscription v.pump) =
          beginPull v.pump t := by
        rw [Act.run, forSubscription_eq hpumped.ledger hmem', if_pos hidle]
        exact beginPull_putSubscription t rfl
      have hbegun := hpumped.act (a := .begin v.pump.id) trivial (hbegin_run ▸ hanswered)
      rw [hbegin_run] at hbegun
      exact ⟨(t.putSubscription v.pump, .begin v.pump.id) :: (acts ++ [(b, .receive u.id)]), by
        simpa using hbegun⟩

end Broker

end StreamBroker
