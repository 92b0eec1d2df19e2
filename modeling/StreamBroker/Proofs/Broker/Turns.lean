import StreamBroker.Proofs.Broker.Serving

/-!
# What acts make of consumers

An act begins pulls of consumers or ends them, gives consumers a subscription or takes it away, and
what is noted of them goes with it.  Some acts concern a consumer, so that its time begins anew; all
others leave it.

A consumer that is asked for what it does not allow is not concerned: the request is refused before
anything is noted.  One that is asked and has no place is.

## Main definitions

* `Broker.Subscribes`: whether a consumer has a subscription
* `Broker.Alone`: no two subscriptions are of one consumer
* `Act.Concerns`: an act after which the time of a consumer begins anew
* `Act.Turns`: what an act makes of a consumer

## Main results

* `Act.turns`: an act turns a consumer, or the consumer is new
-/

namespace StreamBroker

namespace Broker

/-- A consumer has a subscription. -/
def Subscribes (b : Broker) (stream consumer : Nat) : Prop :=
  ∃ u ∈ b.subscriptions, u.stream = stream ∧ u.consumer = consumer

/-- No two subscriptions are of one consumer, as long as it is there. -/
def Alone (b : Broker) : Prop :=
  ∀ u ∈ b.subscriptions, ∀ v ∈ b.subscriptions, b.Employs u.stream u.consumer →
    v.stream = u.stream → v.consumer = u.consumer → v = u

end Broker

namespace Act

/-- An act begins a pull of a consumer, with a request. -/
inductive Asks (b : Broker) (stream consumer : Nat) : Act → PullRequest → Prop where
  | pull (r : PullRequest) : Asks b stream consumer (.pull stream consumer r) r
  | begin {id : Nat} {u : Subscription} (hu : b.subscription? id = some u)
      (hidle : u.isIdle = true) (hstream : u.stream = stream) (hconsumer : u.consumer = consumer) :
      Asks b stream consumer (.begin id) { batch := u.batch }

/-- An act after which the time of a consumer begins anew. -/
inductive Concerns (a : Act) (b : Broker) (stream consumer : Nat) : Prop where
  /-- The consumer is created. -/
  | created (hbefore : ¬b.Employs stream consumer) (hafter : (a.run b).Employs stream consumer)
  /-- It is pulled from, with a request that it allows. -/
  | asked {r : PullRequest} {s : Stream} {c : Consumer} (hask : Asks b stream consumer a r)
      (hhas : b.Has stream consumer s c) (hallowed : r.check c.cursor.settings = .ok ())
  /-- A pull of it ends. -/
  | ended {p : Pull} (hp : p ∈ b.pulls) (hof : p.isOf stream consumer = true)
      (hend : ∀ q ∈ (a.run b).pulls, q.id ≠ p.id)
  /-- It acknowledges a delivery. -/
  | acknowledged {next n : Nat} {kind : AckKind}
      (hack : a = .operate stream next (.acknowledge consumer n kind))
  /-- Its subscription ends. -/
  | unbound (hbefore : b.Subscribes stream consumer)
      (hafter : ¬(a.run b).Subscribes stream consumer)

end Act

/-- What an act makes of a consumer. -/
structure Act.Turns (a : Act) (b : Broker) (stream consumer : Nat) (c c' : Consumer) : Prop where
  /-- A place is taken or given back as a pull begins or ends. -/
  waiting_eq : c.cursor.waiting = b.pullsOf stream consumer →
    c'.cursor.waiting = (a.run b).pullsOf stream consumer
  /-- A pull begins only where there is a place. -/
  room : (a.run b).pullsOf stream consumer ≤ b.pullsOf stream consumer ∨
    c.cursor.mayWait = true ∧ (a.run b).pullsOf stream consumer ≤ b.pullsOf stream consumer + 1
  /-- It has settings that are allowed. -/
  settings : c.cursor.settings.Becomes c'.cursor.settings
  /-- It is bound and unbound as a subscription begins or ends. -/
  bound_iff : (c.bound = true ↔ b.Subscribes stream consumer) →
    (c'.bound = true ↔ (a.run b).Subscribes stream consumer)
  /-- It is active now, or the act does not concern it. -/
  active : c'.cursor.lastActive = b.now ∨
    c'.cursor.lastActive = c.cursor.lastActive ∧ ¬a.Concerns b stream consumer
  /-- When nothing waits after an act that does not concern it, it was so before. -/
  idle : (a.run b).pullsOf stream consumer = 0 → a.Concerns b stream consumer ∨
    b.pullsOf stream consumer = 0 ∧ c'.cursor.lastActive = c.cursor.lastActive

variable {a : Act} {b b' : Broker} {s s' : Stream} {c c' d : Consumer} {p q : Pull}
  {stream consumer : Nat} {r : PullRequest}

namespace Broker

theorem subscribes_congr (h : b'.subscriptions = b.subscriptions) (stream consumer : Nat) :
    b'.Subscribes stream consumer ↔ b.Subscribes stream consumer := by
  rw [Subscribes, h, Subscribes]

/-- What a subscription holds does not matter. -/
theorem Ledger.subscribes_putSubscription (hb : b.Ledger) {u v : Subscription}
    (hu : u ∈ b.subscriptions) (hpost : u.SamePost v) (stream consumer : Nat) :
    (b.putSubscription v).Subscribes stream consumer ↔ b.Subscribes stream consumer := by
  constructor
  · rintro ⟨w, hw, hof⟩
    rcases mem_putSubscription hw with rfl | ⟨hw, -⟩
    · rw [hpost.stream_eq, hpost.consumer_eq] at hof
      exact ⟨u, hu, hof⟩
    · exact ⟨w, hw, hof⟩
  · rintro ⟨w, hw, hof⟩
    by_cases heq : w.id = v.id
    · obtain rfl := hb.eq_of_id hw hu (heq.trans hpost.id_eq)
      rw [← hpost.stream_eq, ← hpost.consumer_eq] at hof
      exact ⟨v, mem_putSubscription_self hu hpost.id_eq, hof⟩
    · exact ⟨w, List.mem_map.2 ⟨w, hw, if_neg (by simpa using heq)⟩, hof⟩

theorem Ledger.not_subscribes_of_le (hb : b.Ledger) (h : b.nextId ≤ consumer) :
    ¬b.Subscribes stream consumer := by
  rintro ⟨u, hu, -, rfl⟩
  exact absurd (hb.subscription_lt u hu).2.2 (Nat.not_lt_of_le h)

end Broker

namespace Act

/-- An act does not concern a consumer that is there, if it does none of these. -/
theorem not_concerns (hb : b.Staffed) (hhas : b.Has stream consumer s c)
    (hask : ∀ r, Asks b stream consumer a r → r.check c.cursor.settings ≠ .ok ())
    (hpulls : ∀ p ∈ b.pulls, p.isOf stream consumer = true → ∃ q ∈ (a.run b).pulls, q.id = p.id)
    (hack : ∀ next n kind, a ≠ .operate stream next (.acknowledge consumer n kind))
    (hsubscribes : b.Subscribes stream consumer → (a.run b).Subscribes stream consumer) :
    ¬a.Concerns b stream consumer := by
  intro h
  cases h with
  | created hbefore hafter => exact hbefore ⟨s, c, hhas⟩
  | asked hask' hhas' hallowed =>
    obtain ⟨rfl, rfl⟩ := hb.has_unique hhas hhas'
    exact hask _ hask' hallowed
  | ended hp hof hend =>
    obtain ⟨q, hq, hid⟩ := hpulls _ hp hof
    exact hend q hq hid
  | acknowledged heq => exact hack _ _ _ heq
  | unbound hbefore hafter => exact hafter (hsubscribes hbefore)

/-- An act that does not concern a consumer leaves it as it was. -/
theorem Turns.quiet (hstays : c.Stays b.now false c')
    (hpulls : (a.run b).pullsOf stream consumer = b.pullsOf stream consumer)
    (hsubscribes : (a.run b).Subscribes stream consumer ↔ b.Subscribes stream consumer)
    (hnot : ¬a.Concerns b stream consumer) : a.Turns b stream consumer c c' where
  waiting_eq h := by rw [hstays.waiting_eq, hpulls, h]
  room := .inl (Nat.le_of_eq hpulls)
  settings := hstays.settings
  bound_iff h := by rw [hstays.bound_eq, hsubscribes, h]
  active := .inr ⟨hstays.lastActive_eq, hnot⟩
  idle h := .inr ⟨hpulls ▸ h, hstays.lastActive_eq⟩

/-! ## One act -/

/-- The consumer of a pull that begins or looks. -/
theorem Turns.of_serves
    (h : c.Serves b.now (b.pullsOf stream consumer) ((a.run b).pullsOf stream consumer) c')
    (hroom : (a.run b).pullsOf stream consumer ≤ b.pullsOf stream consumer ∨
      c.cursor.mayWait = true ∧
        (a.run b).pullsOf stream consumer ≤ b.pullsOf stream consumer + 1)
    (hsubscribes : (a.run b).Subscribes stream consumer ↔ b.Subscribes stream consumer)
    (hidle : (a.run b).pullsOf stream consumer = 0 → a.Concerns b stream consumer) :
    a.Turns b stream consumer c c' where
  waiting_eq := h.waiting_eq
  room := hroom
  settings := h.settings
  bound_iff h' := by rw [h.bound_eq, hsubscribes, h']
  active := .inl h.lastActive_eq
  idle hnone := .inl (hidle hnone)

/-- An act that begins no pull and ends none leaves a consumer that it does not do anything with. -/
theorem Turns.aside (hb : b.Staffed) (hhas : b.Has stream consumer s c)
    (hstays : c.Stays b.now false c') (hpulls : (a.run b).pulls = b.pulls)
    (hsubscribes : (a.run b).Subscribes stream consumer ↔ b.Subscribes stream consumer)
    (hask : ∀ r, ¬Asks b stream consumer a r)
    (hack : ∀ next n kind, a ≠ .operate stream next (.acknowledge consumer n kind)) :
    a.Turns b stream consumer c c' :=
  .quiet hstays (Broker.pullsOf_congr hpulls ..) hsubscribes
    (not_concerns hb hhas (fun r h => absurd h (hask r))
      (fun p hp _ => ⟨p, hpulls.symm ▸ hp, rfl⟩) hack hsubscribes.2)

/-- An act asks something of a consumer, by a pull or an operation on its stream. -/
def asks : Act → Bool
  | operate .. | pull .. | begin _ => true
  | _ => false

theorem not_asks (ha : a.asks = false) : (∀ r, ¬Asks b stream consumer a r) ∧
    ∀ next n kind, a ≠ .operate stream next (.acknowledge consumer n kind) := by
  refine ⟨fun r hask => ?_, fun next n kind heq => ?_⟩
  · cases hask <;> cases ha
  · rw [heq] at ha
    cases ha

/-- An act that does nothing leaves consumers as they are. -/
theorem turns_same (hb : b.Staffed) (hrun : a.run b = b) (ha : a.asks = false)
    (h : (a.run b).Has stream consumer s' c') :
    ∃ s c, b.Has stream consumer s c ∧ a.Turns b stream consumer c c' :=
  have hhas : b.Has stream consumer s' c' := hrun ▸ h
  have ⟨hask, hack⟩ := not_asks ha
  ⟨s', c', hhas, .aside hb hhas (.refl _ c') (congrArg Broker.pulls hrun) (by rw [hrun]) hask hack⟩

/-- The consumer of a pull that looks again. -/
theorem turns_look (hb : b.Staffed) (hledger : b.Ledger) {id : Nat}
    (hanswered : ((look id).run b).IsAnswered) (h : ((look id).run b).Has stream consumer s' c') :
    ∃ s c, b.Has stream consumer s c ∧ (look id).Turns b stream consumer c c' := by
  cases hfound : b.pull? id with
  | none => exact turns_same hb (by simp only [run, hfound]) rfl h
  | some p =>
    obtain ⟨hp, -⟩ := Broker.mem_of_pull? hfound
    have hrun : (look id).run b = Broker.lookAgain p b := by simp only [run, hfound]
    have hsubscribes := Broker.subscribes_congr (Broker.subscriptions_lookAgain p b) stream consumer
    rw [← hrun] at hsubscribes
    have hquiet := Broker.quiet_lookAgain hp
    rw [hrun] at h hanswered
    obtain ⟨s, c, hhas, ⟨hof, hserves, hle⟩ | ⟨hof, hstays, hcount⟩⟩ :=
      hb.has_lookAgain hledger hp hanswered h
    · refine ⟨s, c, hhas, .of_serves (hrun ▸ hserves) (.inl (hrun ▸ hle)) hsubscribes
        fun hnone => .ended hp hof fun q hq hid => ?_⟩
      -- What waits under its number is the pull, and one of the consumer.
      rw [hrun] at hq hnone
      obtain ⟨w, hw, hsame⟩ := hquiet.pulls q hq
      obtain rfl := hledger.eq_of_pull_id hw hp (hsame.id_eq.symm.trans hid)
      exact List.countP_eq_zero.1 hnone q hq ((hsame.isOf_eq ..).trans hof)
    · obtain ⟨hask, hack⟩ := not_asks (a := look id) rfl
      refine ⟨s, c, hhas, .quiet hstays (hrun ▸ hcount) hsubscribes (not_concerns hb hhas
        (fun r h => absurd h (hask r)) (fun w hw hof' => ?_) hack hsubscribes.2)⟩
      have hne : w.id ≠ p.id := fun heq => by
        rw [hledger.eq_of_pull_id hw hp heq, hof] at hof'
        cases hof'
      have hkept : w ∈ (b.withoutPull p.id).pulls := List.mem_filter.2 ⟨hw, bne_iff_ne.2 hne⟩
      rw [hrun, Broker.lookAgain]
      obtain ⟨_, _, _, ⟨result, -, hlook⟩ | ⟨q, -, -, hlook⟩⟩ :=
        Broker.lookOnce_cases p (b.withoutPull p.id)
      · exact ⟨w, by rwa [hlook], rfl⟩
      · exact ⟨w, by rw [hlook]; exact List.mem_append_left _ hkept, rfl⟩

/-- The consumer of a pull that begins. -/
theorem turns_startPull (hb : b.Staffed) {stream' consumer' : Nat} {t : Broker}
    (ht : t = (Broker.startPull stream' consumer' r b).2) (hanswered : t.IsAnswered)
    (hstreams : (a.run b).streams = t.streams) (hpulls : (a.run b).pulls = t.pulls)
    (hsubscribes : (a.run b).Subscribes stream consumer ↔ b.Subscribes stream consumer)
    (hask : ∀ r', Asks b stream consumer a r' ↔
      stream = stream' ∧ consumer = consumer' ∧ r' = r)
    (hack : ∀ next n kind, a ≠ .operate stream next (.acknowledge consumer n kind))
    (h : (a.run b).Has stream consumer s' c') :
    ∃ s c, b.Has stream consumer s c ∧ a.Turns b stream consumer c c' := by
  subst ht
  obtain ⟨s, c, hhas, ⟨hstream, hconsumer, hcheck, hserves, hroom⟩ | ⟨hcheck, hstays, hcount⟩⟩ :=
    hb.has_startPull hanswered ⟨hstreams ▸ h.1, h.2, h.3, h.4⟩
  · have hcount := Broker.pullsOf_congr hpulls stream consumer
    rw [← hcount] at hserves hroom
    exact ⟨s, c, hhas, .of_serves hserves hroom hsubscribes fun _ =>
      .asked ((hask r).2 ⟨hstream, hconsumer, rfl⟩) hhas hcheck⟩
  · refine ⟨s, c, hhas, .quiet hstays ((Broker.pullsOf_congr hpulls ..).trans hcount) hsubscribes
      (not_concerns hb hhas (fun r' hask' => ?_) (fun p hp _ => ⟨p, ?_, rfl⟩) hack hsubscribes.2)⟩
    · obtain ⟨hstream, hconsumer, rfl⟩ := (hask r').1 hask'
      exact hcheck hstream hconsumer
    · rw [hpulls]
      -- Pulls that wait go on waiting, whether or not another one joins them.
      rcases Broker.startPull_ends stream' consumer' r b with
        ⟨result, hpulls, -⟩ | ⟨q, _, _, hpulls, -⟩
      · exact hpulls ▸ hp
      · exact hpulls ▸ List.mem_append_left _ hp

/-- The consumer of a pull that is given up. -/
theorem turns_abort (hb : b.Staffed) (hledger : b.Ledger) {id : Nat}
    (h : ((abort id).run b).Has stream consumer s' c') :
    ∃ s c, b.Has stream consumer s c ∧ (abort id).Turns b stream consumer c c' := by
  have hrun : (abort id).run b = Broker.abortPull id b := rfl
  obtain ⟨_, _, habort⟩ := Broker.abortPull_eq id b
  have hsubscribes : ((abort id).run b).Subscribes stream consumer ↔
      b.Subscribes stream consumer := by
    rw [hrun, habort]
    rfl
  have hpulls : ((abort id).run b).pulls = b.pulls.filter fun p => p.id != id := by
    rw [hrun, habort]
  obtain ⟨s, c, hhas, ⟨p, hp, hid, hof, hserves, hle⟩ | ⟨hother, rfl, hcount⟩⟩ :=
    hb.has_abortPull hledger h
  · refine ⟨s, c, hhas, .of_serves hserves (.inl hle) hsubscribes
      fun hnone => .ended hp hof fun q hq => ?_⟩
    rw [hpulls] at hq
    exact hid ▸ bne_iff_ne.1 (List.mem_filter.1 hq).2
  · obtain ⟨hask, hack⟩ := not_asks (a := abort id) rfl
    refine ⟨s, c', hhas, .quiet (.refl _ c') hcount hsubscribes (not_concerns hb hhas
      (fun r h => absurd h (hask r)) (fun p hp hof => ⟨p, ?_, rfl⟩) hack hsubscribes.2)⟩
    rw [hpulls]
    refine List.mem_filter.2 ⟨hp, bne_iff_ne.2 fun hid => ?_⟩
    -- The pull that is given up is one of another consumer.
    rw [hother p hp hid] at hof
    cases hof

/-- The consumer of a subscription that ends, and those of others. -/
theorem turns_drop (hb : b.Staffed) (hledger : b.Ledger) (halone : b.Alone) {id : Nat}
    (h : ((drop id).run b).Has stream consumer s' c') :
    ∃ s c, b.Has stream consumer s c ∧ (drop id).Turns b stream consumer c c' := by
  have hrun : (drop id).run b = Broker.dropSubscription id b := rfl
  cases hu : b.subscription? id with
  | none =>
    have hdrop : (drop id).run b = b := by rw [hrun, Broker.dropSubscription, hu]
    exact turns_same hb hdrop rfl h
  | some u =>
    obtain ⟨hmem, rfl⟩ := Broker.mem_of_subscription? hu
    obtain ⟨_, _, hdrop⟩ := Broker.dropSubscription_eq hu
    -- Its pull is given up before its consumer is let go.
    have hpulls : ((drop u.id).run b).pulls = b.pulls.filter fun p => u.pull ≠ some p.id := by
      rw [hrun, hdrop]
    have hsubscriptions : ((drop u.id).run b).subscriptions =
        b.subscriptions.filter fun v => v.id != u.id := by
      rw [hrun, hdrop]
    have hcount : ((drop u.id).run b).pullsOf stream consumer =
        (Broker.endPull u b).pullsOf stream consumer := by
      refine Broker.pullsOf_congr ?_ ..
      rw [hrun, Broker.dropSubscription, hu]
      exact Broker.pulls_modifyConsumer ..
    have hafter : ((Broker.endPull u b).modifyConsumer u.stream u.consumer
        (Attendance.unbind.change b.now)).Has stream consumer s' c' := by
      rw [hrun, Broker.dropSubscription, hu] at h
      have hnow := Broker.now_endPull u b
      rw [← hnow]
      exact ⟨h.1, h.2, h.3, h.4⟩
    obtain ⟨t, d, hd, rfl⟩ := (Broker.staffed_of_steps hb
      (Broker.steps_endPull u b)).has_modifyConsumer (f := Attendance.unbind.change b.now)
        (fun _ => rfl) hafter
    obtain ⟨s, c, hhas, hbound, hmost, hwaiting, hle, hother⟩ := hb.has_endPull hledger hmem hd
    rw [← hcount] at hwaiting hle hother
    refine ⟨s, c, hhas, ?_⟩
    split
    · next hof =>
      obtain ⟨rfl, rfl⟩ := hof
      -- No other subscription has this consumer.
      have hnone : ¬((drop u.id).run b).Subscribes u.stream u.consumer := by
        rintro ⟨v, hv, hof⟩
        rw [hsubscriptions] at hv
        obtain ⟨hv, hne⟩ := List.mem_filter.1 hv
        exact bne_iff_ne.1 hne (congrArg _ (halone u hmem v hv ⟨s, c, hhas⟩ hof.1 hof.2))
      exact ⟨hwaiting, .inl hle, hmost, fun _ => ⟨fun h => (by cases h), fun h => absurd h hnone⟩,
        .inl rfl, fun _ => .inl (.unbound ⟨u, hmem, rfl, rfl⟩ hnone)⟩
    · next hof =>
      obtain ⟨rfl, hcount⟩ := hother hof
      have hsubscribes : ((drop u.id).run b).Subscribes stream consumer ↔
          b.Subscribes stream consumer := by
        rw [Broker.Subscribes, hsubscriptions]
        constructor
        · rintro ⟨v, hv, hv_of⟩
          exact ⟨v, (List.mem_filter.1 hv).1, hv_of⟩
        · rintro ⟨v, hv, hv_of⟩
          refine ⟨v, List.mem_filter.2 ⟨hv, bne_iff_ne.2 fun hid => hof ?_⟩, hv_of⟩
          obtain rfl := hledger.eq_of_id hv hmem hid
          exact ⟨hv_of.1.symm, hv_of.2.symm⟩
      obtain ⟨hask, hack⟩ := not_asks (a := drop u.id) rfl
      refine .quiet (.refl _ d) hcount hsubscribes (not_concerns hb hhas
        (fun r h => absurd h (hask r)) (fun p hp hp_of => ⟨p, ?_, rfl⟩) hack hsubscribes.2)
      rw [hpulls]
      -- The pull that goes is one of its own consumer, not of this one.
      refine List.mem_filter.2 ⟨hp, decide_eq_true fun hpull => hof ?_⟩
      obtain ⟨hstream, hconsumer, -⟩ := hledger.own u hmem p hp hpull
      exact hstream ▸ hconsumer ▸ of_decide_eq_true hp_of

/-- The consumer of a subscription that begins. -/
theorem turns_subscribe (hb : b.Staffed) {stream' consumer' : Nat}
    (h : ((subscribe stream' consumer').run b).Has stream consumer s' c') :
    ∃ s c, b.Has stream consumer s c ∧
      (subscribe stream' consumer').Turns b stream consumer c c' := by
  have hrun : (subscribe stream' consumer').run b =
      ((Broker.subscribe stream' consumer').run b).2 := rfl
  rcases Broker.subscribe_cases stream' consumer' b with heq | ⟨t, d, batch, hlive, -, -, heq⟩
  · exact turns_same hb (hrun.trans heq) rfl h
  · obtain ⟨-, rfl, -, rfl⟩ := hb.has_of_liveConsumer hlive
    rw [← hrun] at heq
    have hpulls : ((subscribe t.id d.id).run b).pulls = b.pulls := by
      rw [heq]
      exact Broker.pulls_modifyConsumer ..
    have hsubscriptions : ((subscribe t.id d.id).run b).subscriptions =
        b.subscriptions ++ [⟨b.nextId, t.id, d.id, batch, [], [], {}, false, none, true⟩] := by
      rw [heq]
    have hkept (hsubscribes : b.Subscribes stream consumer) :
        ((subscribe t.id d.id).run b).Subscribes stream consumer := by
      obtain ⟨u, hu, hof⟩ := hsubscribes
      exact ⟨u, hsubscriptions ▸ List.mem_append_left _ hu, hof⟩
    rw [heq] at h
    obtain ⟨s, c, hhas, rfl⟩ := (Broker.staffed_of_steps hb
      (.single (Broker.step_freshId b))).has_modifyConsumer (f := Attendance.bind.change b.now)
        (fun _ => rfl) ⟨h.1, h.2, h.3, h.4⟩
    have hhas : b.Has stream consumer s c := ⟨hhas.1, hhas.2, hhas.3, hhas.4⟩
    -- Whoever subscribes asks for nothing yet.
    have hnot : ¬(subscribe t.id d.id).Concerns b stream consumer :=
      not_concerns hb hhas (fun r h => nomatch h) (fun p hp _ => ⟨p, hpulls ▸ hp, rfl⟩)
        (fun _ _ _ h => nomatch h) hkept
    have hcount := Broker.pullsOf_congr hpulls stream consumer
    refine ⟨s, c, hhas, ?_⟩
    split
    · next hof =>
      have hbound : ((subscribe t.id d.id).run b).Subscribes stream consumer :=
        ⟨_, hsubscriptions ▸ List.mem_append_right _ List.mem_cons_self, hof.1.symm, hof.2.symm⟩
      exact ⟨fun h => h.trans hcount.symm, .inl (Nat.le_of_eq hcount), .refl _,
        fun _ => ⟨fun _ => hbound, fun _ => rfl⟩, .inr ⟨rfl, hnot⟩,
        fun hnone => .inr ⟨hcount ▸ hnone, rfl⟩⟩
    · next hof =>
      refine .quiet (.refl _ c) hcount ⟨fun ⟨u, hu, hu_of⟩ => ?_, hkept⟩ hnot
      rw [hsubscriptions] at hu
      rcases List.mem_append.1 hu with hu | hu
      · exact ⟨u, hu, hu_of⟩
      · obtain rfl := List.mem_singleton.1 hu
        exact absurd ⟨hu_of.1.symm, hu_of.2.symm⟩ hof

/-- The consumers of a stream that is operated on. -/
theorem turns_operate (hb : b.Staffed) {id next : Nat} {op : StreamOp}
    (hproper : (operate id next op).IsProper b)
    (h : ((operate id next op).run b).Has stream consumer s' c') :
    (∃ s c, b.Has stream consumer s c ∧ (operate id next op).Turns b stream consumer c c') ∨
      b.nextId ≤ consumer ∧ c'.IsNew b.now ∧
        ((operate id next op).run b).pullsOf stream consumer = b.pullsOf stream consumer ∧
        (((operate id next op).run b).Subscribes stream consumer ↔
          b.Subscribes stream consumer) := by
  obtain ⟨hasked, -, hnumbers, hreply⟩ := hproper
  obtain ⟨_, _, _, htouched⟩ := Broker.onStream_eq id (op.run b.clock) { b with nextId := next }
  have hrun : (operate id next op).run b = _ := htouched
  have hcount : ((operate id next op).run b).pullsOf stream consumer =
      b.pullsOf stream consumer := by
    rw [hrun]
    rfl
  have hsubscribes : ((operate id next op).run b).Subscribes stream consumer ↔
      b.Subscribes stream consumer := by
    rw [hrun]
    rfl
  have hattend (i : Nat) (a : Attendance) : op ≠ .attend i a := by
    rintro rfl
    cases hasked
  rcases hb.has_onStream hattend hreply h with
    ⟨s, c, hhas, hstays⟩ | ⟨mode, madeUp, defaults, settings, rfl, hnew⟩
  · refine .inl ⟨s, c, hhas, ?_⟩
    cases hactive : decide (stream = id) && op.isDoneBy consumer with
    | false =>
      rw [hactive] at hstays
      refine .aside hb hhas hstays (by rw [hrun]) hsubscribes (fun r h => nomatch h)
        fun _ n kind heq => ?_
      cases heq
      simp [StreamOp.isDoneBy] at hactive
    | true =>
      rw [hactive] at hstays
      obtain ⟨hstream, hdone⟩ := Bool.and_eq_true_iff.1 hactive
      obtain rfl := of_decide_eq_true hstream
      -- Of what a consumer does only an acknowledgement is asked for.
      have hconcerns : (operate stream next op).Concerns b stream consumer := by
        cases op with
        | acknowledge i n kind =>
          obtain rfl : i = consumer := beq_iff_eq.1 hdone
          exact .acknowledged rfl
        | collect => cases hasked
        | _ => cases hdone
      exact ⟨fun h => hstays.waiting_eq.trans (h.trans hcount.symm), .inl (Nat.le_of_eq hcount),
        hstays.settings, fun h => by rw [hstays.bound_eq, hsubscribes, h],
        .inl hstays.lastActive_eq, fun _ => .inl hconcerns⟩
  · exact .inr ⟨hnumbers.1, hnew, hcount, hsubscribes⟩

/-- The consumer of a subscription that begins a pull. -/
theorem turns_begin (hb : b.Staffed) (hledger : b.Ledger) {id : Nat}
    (hanswered : ((begin id).run b).IsAnswered)
    (h : ((begin id).run b).Has stream consumer s' c') :
    ∃ s c, b.Has stream consumer s c ∧ (begin id).Turns b stream consumer c c' := by
  rcases run_begin_cases id b with ⟨hrun, hbusy⟩ | ⟨u, hu, hidle, hrun⟩
  · have hhas : b.Has stream consumer s' c' := hrun ▸ h
    refine ⟨s', c', hhas, .aside hb hhas (.refl _ c') (congrArg Broker.pulls hrun) (by rw [hrun])
      (fun r hask => ?_) fun _ _ _ h => nomatch h⟩
    cases hask with
    | begin hu hidle => exact absurd hidle (Bool.eq_false_iff.1 (hbusy _ hu))
  · obtain ⟨hmem, -⟩ := Broker.mem_of_subscription? hu
    obtain ⟨-, hsubscriptions, -⟩ :=
      Broker.begins_startPull u.stream u.consumer { batch := u.batch } b
    rw [hrun] at hanswered
    refine turns_startPull hb rfl hanswered (by rw [hrun]; rfl) (by rw [hrun]; rfl) ?_
      (fun r => ⟨fun hask => ?_, ?_⟩) (fun _ _ _ h => nomatch h) h
    · -- The subscription notes its pull, and serves the consumer that it served.
      have hpost : u.SamePost { u with pull := some b.nextId } := ⟨rfl, rfl, rfl, rfl⟩
      rw [hrun,
        (hledger.startPull hb ..).subscribes_putSubscription (hsubscriptions ▸ hmem) hpost]
      exact Broker.subscribes_congr hsubscriptions ..
    · cases hask with
      | begin hu' _ hstream hconsumer =>
        cases hu.symm.trans hu'
        exact ⟨hstream.symm, hconsumer.symm, rfl⟩
    · rintro ⟨rfl, rfl, rfl⟩
      exact .begin hu hidle rfl rfl

/-- The consumers while pulls wait with or without somebody who waits for them. -/
theorem turns_park (hb : b.Staffed) {id : Nat} {parked : Bool}
    (h : ((park id parked).run b).Has stream consumer s' c') :
    ∃ s c, b.Has stream consumer s c ∧ (park id parked).Turns b stream consumer c c' := by
  have hhas : b.Has stream consumer s' c' := ⟨h.1, h.2, h.3, h.4⟩
  have hsame (p : Pull) : p.SameRequest (if p.id == id then { p with parked } else p) := by
    split <;> exact ⟨rfl, rfl, rfl, rfl⟩
  refine ⟨s', c', hhas, .quiet (.refl _ c') ?_ Iff.rfl (not_concerns hb hhas (fun r h => nomatch h)
    (fun p hp _ => ⟨_, List.mem_map_of_mem hp, (hsame p).id_eq⟩) (fun _ _ _ h => nomatch h)
    fun h => h)⟩
  rw [Broker.pullsOf, run, Broker.park, List.countP_map, Broker.pullsOf]
  exact List.countP_congr fun p _ => by rw [Function.comp_apply, (hsame p).isOf_eq]

/-- **What an act makes of a consumer**: it turns it, or the consumer is new. -/
theorem turns (hb : b.Staffed) (hledger : b.Ledger) (halone : b.Alone) (hproper : a.IsProper b)
    (hanswered : (a.run b).IsAnswered) (h : (a.run b).Has stream consumer s' c') :
    (∃ s c, b.Has stream consumer s c ∧ a.Turns b stream consumer c c') ∨
      b.nextId ≤ consumer ∧ c'.IsNew b.now ∧
        (a.run b).pullsOf stream consumer = b.pullsOf stream consumer ∧
        ((a.run b).Subscribes stream consumer ↔ b.Subscribes stream consumer) := by
  have haside (ha : a.asks = false) (hhas : b.Has stream consumer s' c')
      (hpulls : (a.run b).pulls = b.pulls)
      (hsubscribes : (a.run b).Subscribes stream consumer ↔ b.Subscribes stream consumer) :
      ∃ s c, b.Has stream consumer s c ∧ a.Turns b stream consumer c c' :=
    have ⟨hask, hack⟩ := not_asks ha
    ⟨s', c', hhas, .aside hb hhas (.refl _ c') hpulls hsubscribes hask hack⟩
  have hhandled (ha : a.isHandling = true) (hasks : a.asks = false) :
      ∃ s c, b.Has stream consumer s c ∧ a.Turns b stream consumer c c' := by
    rcases run_handling b ha with hrun | ⟨u, v, outcomes, hu, hpost, -, hrun⟩
    · exact turns_same hb hrun hasks h
    · have hhas : b.Has stream consumer s' c' := by
        rw [hrun] at h
        exact ⟨h.1, h.2, h.3, h.4⟩
      refine haside hasks hhas (by rw [hrun]; rfl) ?_
      rw [hrun]
      exact hledger.subscribes_putSubscription hu hpost ..
  cases a with
  | operate id next op => exact turns_operate hb hproper h
  | openStream settings =>
    obtain ⟨_, _, heq⟩ := Broker.openStream_eq settings b
    have hrun : (openStream settings).run b = _ := heq
    exact .inl (haside rfl (Broker.has_openStream h) (by rw [hrun]) (by rw [hrun]; rfl))
  | deleteStream name =>
    obtain ⟨_, _, _, heq⟩ := Broker.deleteStream_eq name b
    have hrun : (deleteStream name).run b = _ := heq
    exact .inl (haside rfl (Broker.has_deleteStream h) (by rw [hrun]) (by rw [hrun]; rfl))
  | pull stream' consumer' r =>
    have hsubscriptions := (Broker.begins_startPull stream' consumer' r b).2.1
    refine .inl (turns_startPull hb rfl hanswered rfl rfl
      (Broker.subscribes_congr hsubscriptions ..) (fun r' => ⟨fun hask => ?_, ?_⟩)
      (fun _ _ _ h => nomatch h) h)
    · cases hask
      exact ⟨rfl, rfl, rfl⟩
    · rintro ⟨rfl, rfl, rfl⟩
      exact .pull r'
  | look id => exact .inl (turns_look hb hledger hanswered h)
  | abort id => exact .inl (turns_abort hb hledger h)
  | park id parked => exact .inl (turns_park hb h)
  | subscribe stream' consumer' => exact .inl (turns_subscribe hb h)
  | receive id | count id | send id | take id => exact .inl (hhandled rfl rfl)
  | begin id => exact .inl (turns_begin hb hledger hanswered h)
  | drop id => exact .inl (turns_drop hb hledger halone h)
  | forget id | wait i | aside => exact .inl (haside rfl ⟨h.1, h.2, h.3, h.4⟩ rfl Iff.rfl)
  | restart => exact nomatch h.mem_streams

/-- A consumer that is there was there, if its number was given. -/
theorem employs_of_run (hb : b.Staffed) (hledger : b.Ledger) (halone : b.Alone)
    (hproper : a.IsProper b) (hanswered : (a.run b).IsAnswered) (hlt : consumer < b.nextId)
    (h : (a.run b).Employs stream consumer) : b.Employs stream consumer := by
  obtain ⟨s', c', hhas⟩ := h
  rcases turns hb hledger halone hproper hanswered hhas with ⟨s, c, hhas, -⟩ | ⟨hle, -⟩
  · exact ⟨s, c, hhas⟩
  · exact absurd hle (Nat.not_le_of_lt hlt)

end Act

end StreamBroker
