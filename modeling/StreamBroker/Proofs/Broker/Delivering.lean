import StreamBroker.Proofs.Broker.Places

/-!
# Subscriptions that go on delivering

A subscription pulls for its subscriber, one pull after the other, for as long as its consumer is
there.  Nothing that a pull finds can stop it: it asks for so many messages and limits nothing else.
But a pull can be refused when it begins, and with the first one that is the subscription ends,
although its consumer is there and it goes on being the one that the consumer has.

A pull of a subscription is refused if other pulls have taken all places of the consumer, or if the
consumer does not allow as much at once any more as when the subscription began.

## Main definitions

* `Broker.Declines`, `Broker.WasDeclined`: a subscription begins a pull that its consumer refuses

## Main results

* `Act.outcomes_cases`: what comes of pulls comes of their beginning, or of a look
* `Broker.Acted.delivering`: a subscription ends only by a pull that was refused
-/

namespace StreamBroker

/-- What a pull may be refused for that limits nothing but how many messages it asks for. -/
theorem PullRequest.check_cases {batch : Nat} {settings : ConsumerSettings} {e : Error}
    (h : PullRequest.check { batch } settings = .error e) (hbatch : batch ≠ 0) :
    ∃ most, settings.maxBatch = some most ∧ most < batch := by
  by_contra hall
  simp only [not_exists, not_and, Nat.not_lt] at hall
  have hok : PullRequest.check { batch } settings = .ok () := by
    simp only [PullRequest.check, if_neg hbatch]
    cases hmost : settings.maxBatch with
    | none => cases settings.maxBytes <;> cases settings.maxExpires <;> rfl
    | some most =>
      dsimp only
      rw [if_neg (Nat.not_lt_of_le (hall most hmost))]
      cases settings.maxBytes <;> cases settings.maxExpires <;> rfl
  cases h.symm.trans hok

/-- What comes of pulls comes of their beginning, or of a look. -/
theorem Act.outcomes_cases {a : Act} {b : Broker} {o : Outcome} (ho : o ∈ (a.run b).outcomes)
    (hnew : o ∉ b.outcomes) : o.pull = b.nextId ∨
      ∃ p ∈ b.pulls, p.id = o.pull ∧
        (Broker.glance p (b.withoutPull p.id)).1 = .over o.result ∧
          a.run b = Broker.lookAgain p b := by
  cases a.onPulls b with
  | rests _ houtcomes => exact absurd (houtcomes ho) hnew
  | @begins stream consumer r _ _ hrun =>
    rw [hrun] at ho
    rcases Broker.startPull_ends stream consumer r b with
      ⟨result, -, hends⟩ | ⟨q, s, c, -, hends, -⟩
    · have ho := (List.mem_append.1 (hends ▸ ho)).resolve_left hnew
      exact .inl (congrArg Outcome.pull (List.mem_singleton.1 ho))
    · exact absurd (hends ▸ ho) hnew
  | @looks p hp _ hrun =>
    rw [hrun, Broker.lookAgain] at ho
    obtain ⟨_, _, _, ⟨result, hglance, hlook⟩ | ⟨q, -, -, hlook⟩⟩ :=
      Broker.lookOnce_cases p (b.withoutPull p.id)
    · rw [hlook] at ho
      obtain rfl := List.mem_singleton.1 ((List.mem_append.1 ho).resolve_left hnew)
      exact .inr ⟨p, hp, rfl, hglance, hrun⟩
    · rw [hlook] at ho
      exact absurd ho hnew

namespace Broker

variable {b t : Broker} {past : List (Broker × Act)} {a : Act} {p : Pull} {u v : Subscription}
  {s s' : Stream} {c c' : Consumer} {stream consumer id : Nat} {e : Error}

/-! ## Looking -/

/-- A look of a pull that limits nothing but how many messages it asks for is not refused, if its
consumer is there. -/
theorem Staffed.glance_ne_error (hb : b.Staffed) {batch : Nat} (hrequest : p.request = { batch })
    (hbatch : batch ≠ 0) (hanswered : (lookOnce p b).IsAnswered)
    (hemploys : (lookOnce p b).Employs p.stream p.consumer) :
    (glance p b).1 ≠ .over (.error e) := by
  obtain ⟨s', c', h⟩ := hemploys
  obtain ⟨s, c, hhas, -⟩ := hb.has_lookOnce (hrequest ▸ hbatch) hanswered h
  have hglance := isAnswered_glance hanswered
  cases hb.glances p with
  | missed hlive heq => cases hlive.symm.trans (hb.liveConsumer_of_has hhas)
  | failed hcollects heq =>
    rw [heq] at hglance
    have hr := hcollects.collect_eq
    rw [hrequest] at hr
    -- A pull without a limit of octets fails for nothing but want of numbers.
    obtain ⟨collected, hok⟩ := Stream.collect_ok hr hglance.ne_error
    cases hok
  | ended hcollects heq | waits hcollects hnone hlt heq =>
    rw [heq]
    exact nofun

/-! ## Beginning -/

/-- A subscription that is to begin a pull will be refused by its consumer: as much is not allowed
at once any more, or other pulls have taken all places. -/
def Declines (b : Broker) (u : Subscription) : Prop :=
  u.isIdle = true ∧ ∃ s c, b.Has u.stream u.consumer s c ∧
    ((∃ most, c.cursor.settings.maxBatch = some most ∧ most < u.batch) ∨
      c.cursor.settings.maxWaiting = some (b.pullsOf u.stream u.consumer))

/-- A pull that is refused at once although its consumer is there. -/
theorem Staffed.refused_startPull (hb : b.Staffed) (hledger : b.Ledger) {batch : Nat}
    (hbatch : batch ≠ 0) (hanswered : (startPull stream consumer { batch } b).2.IsAnswered)
    (hemploys : (startPull stream consumer { batch } b).2.Employs stream consumer)
    (ho : ⟨b.nextId, .error e⟩ ∈ (startPull stream consumer { batch } b).2.outcomes) :
    ∃ s c, b.Has stream consumer s c ∧
      ((∃ most, c.cursor.settings.maxBatch = some most ∧ most < batch) ∨
        c.cursor.mayWait = false) := by
  have hold : (⟨b.nextId, .error e⟩ : Outcome) ∉ b.outcomes := fun ho =>
    Nat.lt_irrefl _ (hledger.id_lt _ (List.mem_append_right _ (List.mem_map_of_mem ho)))
  obtain ⟨s', c', hafter⟩ := hemploys
  obtain ⟨s, c, hhas, -⟩ := hb.has_startPull hanswered hafter
  have hfound := hb.consumerById?_eq hhas
  refine ⟨s, c, hhas, ?_⟩
  cases startsPull stream consumer { batch } b with
  | refused hcheck heq => exact .inl (PullRequest.check_cases (hcheck c hfound) hbatch)
  | full hd hcheck hmay ht heq => exact .inr (Option.some.inj (hfound.symm.trans hd) ▸ hmay)
  | @looks d deadline hd hcheck hmay heq =>
    -- Once it looks it is not refused.
    rw [heq] at hanswered hafter ho
    have hnot := (hb.enlist stream consumer).glance_ne_error (e := e) rfl hbatch hanswered
      ⟨s', c', hafter⟩
    obtain ⟨_, _, _, ⟨result, hglance, hlook⟩ | ⟨q, -, -, hlook⟩⟩ := lookOnce_cases
      { id := b.nextId, stream, consumer, request := { batch }, deadline, wake := deadline }
      (b.enlist stream consumer)
    · rw [hlook, outcomes_enlist] at ho
      rcases List.mem_append.1 ho with ho | ho
      · exact absurd ho hold
      · have hsame := List.mem_singleton.1 ho
        rw [Outcome.mk.injEq] at hsame
        exact absurd (hsame.2 ▸ hglance) hnot
    · rw [hlook, outcomes_enlist] at ho
      exact absurd ho hold

/-! ## At any time -/

/-- A consumer allows some batch. -/
theorem Acted.maxBatch_ne (h : Acted past b) (hhas : b.Has stream consumer s c) :
    c.cursor.settings.maxBatch ≠ some 0 := by
  induction h generalizing s c with
  | started settings seed backend hclock => exact nomatch hhas.mem_streams
  | @act b past h a hproper hanswered ih =>
    rcases Act.turns h.staffed h.ledger h.books.alone hproper hanswered hhas with
      ⟨s, c, hbefore, hturns⟩ | ⟨-, hnew, -⟩
    · exact hturns.settings.maxBatch_ne (ih hbefore)
    · exact hnew.settings.maxBatch_ne

/-- A subscription pulls for something. -/
theorem Acted.batch_ne (h : Acted past b) (hu : b.subscription? id = some u) : u.batch ≠ 0 := by
  induction h generalizing u with
  | started settings seed backend hclock => cases hu
  | @act b past h a hproper hanswered ih =>
    rcases (Act.leaves h.ledger hproper hu).post_cases with
      ⟨v, hv, hpost⟩ | ⟨-, s, c, hlive, -, hbatch⟩
    · exact hpost.batch_eq ▸ ih hv
    · exact hbatch (h.maxBatch_ne (h.staffed.has_of_liveConsumer hlive))

/-- A subscription has begun a pull that its consumer refused. -/
def WasDeclined (past : List (Broker × Act)) (id : Nat) : Prop :=
  ∃ x ∈ past, x.2 = .begin id ∧ ∃ u, x.1.subscription? id = some u ∧ x.1.Declines u

/-- What came of the pull of a subscription is an outcome of it. -/
theorem mem_outcomes_of_came {r : Except Error (List Delivered)} (hu : b.subscription? id = some u)
    (h : b.came id = some r) : ∃ i, u.pull = some i ∧ ⟨i, r⟩ ∈ b.outcomes := by
  rw [came_eq hu] at h
  obtain ⟨i, hi, hr⟩ := Option.bind_eq_some_iff.1 h
  obtain ⟨o, ho, rfl⟩ := Option.map_eq_some_iff.1 hr
  obtain rfl : o.pull = i := by simpa using List.find?_some ho
  exact ⟨o.pull, hi, List.mem_of_find?_eq_some ho⟩

/-- What came of the pull of a subscription since an act that is not its own came of a look. -/
theorem Ledger.came_of_look (hb : b.Ledger) (hu : b.subscription? id = some u)
    (hu' : (a.run b).subscription? id = some u) (hbefore : b.came id = none)
    {r : Except Error (List Delivered)} (hafter : (a.run b).came id = some r) :
    ∃ p ∈ b.pulls, u.pull = some p.id ∧ (glance p (b.withoutPull p.id)).1 = .over r ∧
      a.run b = Broker.lookAgain p b := by
  obtain ⟨i, hi, ho⟩ := mem_outcomes_of_came hu' hafter
  have hnew : ⟨i, r⟩ ∉ b.outcomes := fun ho => by
    rw [came_eq hu, hi, Option.bind_some, outcome?, Option.map_eq_none_iff,
      List.find?_eq_none] at hbefore
    exact hbefore _ ho (beq_self_eq_true i)
  rcases Act.outcomes_cases ho hnew with hid | ⟨p, hp, hid, hglance, hrun⟩
  · -- A pull that begins is not that of the subscription, which has one.
    have hlt := hb.id_lt i (hb.pull_mem u (mem_of_subscription? hu).1 i hi)
    exact absurd hlt (Nat.not_lt_of_le (Nat.le_of_eq hid.symm))
  · exact ⟨p, hp, hid ▸ hi, hglance, hrun⟩

/-- A subscription whose pull is refused when it begins. -/
theorem Acted.declines (h : Acted past b) (hu : b.subscription? id = some u)
    (hidle : u.isIdle = true) (hanswered : ((Act.begin id).run b).IsAnswered)
    (hemploys : ((Act.begin id).run b).Employs u.stream u.consumer)
    (hcame : ((Act.begin id).run b).came id = some (.error e)) : b.Declines u := by
  have hid := (mem_of_subscription? hu).2
  have hrun := Act.run_begin hu hidle
  have hsubscriptions := (begins_startPull u.stream u.consumer { batch := u.batch } b).2.1
  have hu' : ((Act.begin id).run b).subscription? id = some { u with pull := some b.nextId } := by
    rw [hrun]
    exact subscription?_put_self ((subscription?_congr hsubscriptions id).trans hu) hid
  obtain ⟨i, hi, ho⟩ := mem_outcomes_of_came hu' hcame
  obtain rfl : b.nextId = i := Option.some.inj hi
  rw [hrun] at hanswered hemploys ho
  obtain ⟨s', c', hafter⟩ := hemploys
  obtain ⟨s, c, hhas, hlimit | hfull⟩ := h.staffed.refused_startPull h.ledger (h.batch_ne hu)
    hanswered ⟨s', c', hafter.1, hafter.2, hafter.3, hafter.4⟩ ho
  · exact ⟨hidle, s, c, hhas, .inl hlimit⟩
  · -- All slots are taken: no more are noted than there may be, and none was left.
    have hbooked := h.books.booked hhas
    refine ⟨hidle, s, c, hhas, .inr ?_⟩
    rw [Cursor.mayWait, hbooked.waiting_eq] at hfull
    cases hmost : c.cursor.settings.maxWaiting with
    | none => simp [hmost] at hfull
    | some most =>
      have hle := hbooked.waiting_le most hmost
      simp only [hmost, decide_eq_false_iff_not, Nat.not_lt] at hfull
      rw [Nat.le_antisymm hle hfull]

/-- **While its consumer is there a subscription ends only by a pull that was refused**, and an error
comes of no other pull. -/
theorem Acted.delivers (h : Acted past b) (hu : b.subscription? id = some u)
    (hemploys : b.Employs u.stream u.consumer) :
    (u.running = false → WasDeclined past id) ∧
      ∀ e, b.came id = some (.error e) → WasDeclined past id := by
  induction h generalizing u with
  | started settings seed backend hclock => cases hu
  | @act b past h a hproper hanswered ih =>
    have hmore (hdeclined : WasDeclined past id) : WasDeclined ((b, a) :: past) id :=
      hdeclined.imp fun x hx => hx.imp_left (List.mem_cons_of_mem _)
    have hih {v : Subscription} (hv : b.subscription? id = some v) (hpost : v.SamePost u) :
        (v.running = false → WasDeclined ((b, a) :: past) id) ∧
          ∀ e, b.came id = some (.error e) → WasDeclined ((b, a) :: past) id := by
      rw [hpost.stream_eq, hpost.consumer_eq] at hemploys
      have hbefore := Act.employs_of_run h.staffed h.ledger h.books.alone hproper hanswered
        (h.ledger.subscription_lt v (mem_of_subscription? hv).1).2.2 hemploys
      exact (ih hv hbefore).imp (hmore ∘ ·) fun h e he => hmore (h e he)
    -- Where the pull is not touched, what came of it came before.
    have hsame {v : Subscription} (hv : b.subscription? id = some v) (hpost : v.SamePost u)
        (hrunning : u.running = v.running) (hcame : (a.run b).came id = b.came id) :
        (u.running = false → WasDeclined ((b, a) :: past) id) ∧
          ∀ e, (a.run b).came id = some (.error e) → WasDeclined ((b, a) :: past) id := by
      rw [hrunning, hcame]
      exact hih hv hpost
    cases a.leaves h.ledger hproper hu with
    | begun _ _ _ _ _ hcame =>
      exact ⟨fun hstopped => (nomatch hstopped), fun e he => by simp [hcame] at he⟩
    | kept hv hcame =>
      refine ⟨(hih hv (.refl u)).1, fun e he => ?_⟩
      rcases hcame with hnone | hcame
      · -- A look is not refused.
        obtain ⟨p, hp, hpull, hglance, hrun⟩ := h.ledger.came_of_look hv hu hnone he
        obtain ⟨hstream, hconsumer, hrequest⟩ :=
          h.ledger.own u (mem_of_subscription? hv).1 p hp hpull
        have hstaffed := staffed_of_steps h.staffed (.single (.withdrawn p.id))
        rw [hrun] at hanswered hemploys
        rw [← hstream, ← hconsumer] at hemploys
        exact absurd hglance
          (hstaffed.glance_ne_error hrequest (h.batch_ne hv) hanswered hemploys)
      · exact (hih hv (.refl u)).2 e (hcame ▸ he)
    | @received v r hv hcame hleft =>
      refine ⟨fun hstopped => ?_, fun e he => by simp [hleft] at he⟩
      cases r with
      | ok got => exact (hih hv ⟨rfl, rfl, rfl, rfl⟩).1 hstopped
      | error e => exact (hih hv ⟨rfl, rfl, rfl, rfl⟩).2 e hcame
    | @counted v hv hcame =>
      obtain ⟨_, _, hcount⟩ := v.count_eq
      exact hsame hv (hcount ▸ ⟨rfl, rfl, rfl, rfl⟩) (hcount ▸ rfl) hcame
    | @sent v hv hcame =>
      obtain ⟨_, _, _, hsend⟩ := v.send_eq
      exact hsame hv (hsend ▸ ⟨rfl, rfl, rfl, rfl⟩) (hsend ▸ rfl) hcame
    | @pulled v hv hidle ha =>
      refine ⟨fun hstopped => ?_, fun e he => ?_⟩
      · have hrunning : v.running = true := by
          simp only [Subscription.isIdle, Bool.and_eq_true] at hidle
          exact hidle.1.1
        exact absurd (hrunning.symm.trans hstopped) (by simp)
      · subst ha
        exact ⟨_, List.mem_cons_self, rfl, v, hv, h.declines hv hidle hanswered hemploys he⟩
    | taken hv hqueue hcame => exact hsame hv ⟨rfl, rfl, rfl, rfl⟩ rfl hcame

/-- A subscription that has stopped and holds nothing, while its consumer is there. -/
theorem Acted.exists_ended (h : Acted past b) (id stream consumer : Nat)
    (hstopped : (b.subscription? id).map (fun u => (u.stream, u.consumer, u.running,
      u.queue.length, u.outbox.length)) = some (stream, consumer, false, 0, 0))
    (hemployed : (b.liveConsumer stream consumer).isOk = true) :
    ∃ u, b.subscription? id = some u ∧ b.Employs u.stream u.consumer ∧ u.running = false ∧
      (takeMessage id b).1 = .ended := by
  obtain ⟨u, hu, htask⟩ := Option.map_eq_some_iff.1 hstopped
  simp only [Prod.mk.injEq, List.length_eq_zero_iff] at htask
  obtain ⟨rfl, rfl, hrunning, hqueue, houtbox⟩ := htask
  exact ⟨u, hu, h.staffed.employs_iff.2 hemployed, hrunning, by
    simp [takeMessage, hu, hqueue, hrunning, houtbox]⟩

/-- **A subscription goes on delivering while its consumer is there**, and its subscriber is told
that it has ended only if it has begun a pull that was refused: because other pulls had taken all
places of the consumer, or because it asked for more than the consumer then allowed at once. -/
theorem Acted.delivering (h : Acted past b) (hu : b.subscription? id = some u)
    (hemploys : b.Employs u.stream u.consumer)
    (hended : u.running = false ∨ (takeMessage id b).1 = .ended) : WasDeclined past id := by
  refine (h.delivers hu hemploys).1 ?_
  rcases hended with hstopped | hended
  · exact hstopped
  · rw [takeMessage, hu] at hended
    dsimp only at hended
    split at hended
    · cases hended
    · split at hended
      · cases hended
      · next hdone =>
        simp only [Bool.or_eq_true, not_or, Bool.not_eq_true] at hdone
        exact hdone.1

/-- A subscription that pulls eight messages at once ends when its consumer allows four. -/
theorem delivering_lowered : ∃ past b u, Acted past b ∧ b.subscription? 2 = some u ∧
    b.Employs u.stream u.consumer ∧ u.running = false ∧ WasDeclined past 2 := by
  have hstarted := Acted.started {} 0 Stream.blankBackend (show Stream.epochClock.IsDated from rfl)
  have hopened := hstarted.act (a := .openStream Stream.plainSettings) trivial (by decide +kernel)
  have hhired := hopened.act (a := .operate 0 2
    (.upsertConsumer .create 1 "" {} { durableName := some "c", maxBatch := some 8 }))
    (Act.isProper_hire (by decide +kernel) (by decide +kernel) (by decide +kernel))
    (by decide +kernel)
  have hsubscribed := hhired.act (a := .subscribe 0 1) trivial (by decide +kernel)
  have hlowered := hsubscribed.act (a := .operate 0 4
    (.upsertConsumer .update 3 "" {} { durableName := some "c", maxBatch := some 4 }))
    (Act.isProper_hire (by decide +kernel) (by decide +kernel) (by decide +kernel))
    (by decide +kernel)
  have hbegun := hlowered.act (a := .begin 2) trivial (by decide +kernel)
  have hreceived := hbegun.act (a := .receive 2) trivial (by decide +kernel)
  obtain ⟨u, hu, hemploys, hstopped, -⟩ :=
    hreceived.exists_ended 2 0 1 (by decide +kernel) (by decide +kernel)
  exact ⟨_, _, u, hreceived, hu, hemploys, hstopped,
    hreceived.delivering hu hemploys (.inl hstopped)⟩

/-- A subscription can end while its consumer is there, and its subscriber is told so: another pull
has taken the only place when it begins its own. -/
theorem exists_ended_delivering : ∃ past b u, Acted past b ∧ b.subscription? 3 = some u ∧
    b.Employs u.stream u.consumer ∧ u.running = false ∧ (takeMessage 3 b).1 = .ended := by
  have hstarted := Acted.started {} 0 Stream.blankBackend (show Stream.epochClock.IsDated from rfl)
  have hopened := hstarted.act (a := .openStream Stream.plainSettings) trivial (by decide +kernel)
  have hhired := hopened.act (a := .operate 0 2
    (.upsertConsumer .create 1 "" {} { durableName := some "c", maxWaiting := some 1 }))
    (Act.isProper_hire (by decide +kernel) (by decide +kernel) (by decide +kernel))
    (by decide +kernel)
  have hpulled := hhired.act (a := .pull 0 1 {}) trivial (by decide +kernel)
  have hsubscribed := hpulled.act (a := .subscribe 0 1) trivial (by decide +kernel)
  have hbegun := hsubscribed.act (a := .begin 3) trivial (by decide +kernel)
  have hreceived := hbegun.act (a := .receive 3) trivial (by decide +kernel)
  obtain ⟨u, hended⟩ := hreceived.exists_ended 3 0 1 (by decide +kernel) (by decide +kernel)
  exact ⟨_, _, u, hreceived, hended⟩

end Broker

end StreamBroker
