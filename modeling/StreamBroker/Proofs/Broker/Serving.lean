import StreamBroker.Proofs.Broker.Acts
import StreamBroker.Proofs.Broker.Standing

/-!
# Pulls and their consumers

While a pull waits it takes a place of its consumer.  This module says what becomes of consumers
when a pull begins, looks and is given up: that of the pull is active, and as many of its places are
taken as pulls of it wait; all others are left.

## Main definitions

* `Broker.pullsOf`: how many pulls of a consumer wait
* `Consumer.Serves`: what becomes of the consumer of a pull

## Main results

* `Broker.Staffed.has_startPull`, `Broker.Staffed.has_lookAgain`, `Broker.Staffed.has_abortPull`:
  what becomes of consumers when a pull begins, when it looks again, and when it is given up
-/

namespace StreamBroker

/-- A pull is one of a consumer. -/
def Pull.isOf (p : Pull) (stream consumer : Nat) : Bool :=
  decide (stream = p.stream ∧ consumer = p.consumer)

theorem Pull.SameRequest.isOf_eq {p q : Pull} (h : p.SameRequest q) (stream consumer : Nat) :
    q.isOf stream consumer = p.isOf stream consumer := by
  rw [isOf, isOf, h.stream_eq, h.consumer_eq]

/-- A consumer is active now, and as many of its places are taken after it as pulls wait. -/
structure Consumer.Serves (c : Consumer) (now : Instant) (before after : Nat) (c' : Consumer) :
    Prop where
  /-- It has its subscription. -/
  bound_eq : c'.bound = c.bound
  /-- It has settings that are allowed. -/
  settings : c.cursor.settings.Becomes c'.cursor.settings
  /-- It is active now. -/
  lastActive_eq : c'.cursor.lastActive = now
  /-- A place is taken or given back as a pull begins or ends. -/
  waiting_eq : c.cursor.waiting = before → c'.cursor.waiting = after

namespace Broker

variable {b b' : Broker} {s' : Stream} {c' : Consumer} {p q : Pull} {stream consumer : Nat}
  {r : PullRequest}

/-- How many pulls of a consumer wait. -/
def pullsOf (b : Broker) (stream consumer : Nat) : Nat :=
  b.pulls.countP (·.isOf stream consumer)

theorem pullsOf_congr (h : b'.pulls = b.pulls) (stream consumer : Nat) :
    b'.pullsOf stream consumer = b.pullsOf stream consumer := by rw [pullsOf, h, pullsOf]

/-- A pull that waits is one of its consumer. -/
theorem Ledger.pullsOf_eq (hb : b.Ledger) (hp : p ∈ b.pulls) (stream consumer : Nat) :
    b.pullsOf stream consumer =
      (b.withoutPull p.id).pullsOf stream consumer + if p.isOf stream consumer then 1 else 0 := by
  rw [pullsOf, (hb.perm_withoutPull hp).countP_eq, List.countP_cons, pullsOf]

theorem Ledger.pullsOf_of_le (hb : b.Ledger) (h : b.nextId ≤ consumer) :
    b.pullsOf stream consumer = 0 := by
  refine List.countP_eq_zero.2 fun p hp hof => ?_
  exact absurd ((of_decide_eq_true hof).2 ▸ (hb.place_lt p hp).2) (Nat.not_lt_of_le h)

/-- Pulls of one number are one. -/
theorem Ledger.eq_of_pull_id (hb : b.Ledger) (hp : p ∈ b.pulls) (hq : q ∈ b.pulls)
    (h : p.id = q.id) : p = q :=
  List.inj_on_of_nodup_map (List.nodup_append.1 hb.ids).1 hp hq h

theorem lookOnce_of_over {result : Except Error (List Delivered)}
    (h : (glance p b).1 = .over result) :
    lookOnce p b = finishPull p result (glance p b).2 := by
  rw [lookOnce]
  generalize glance p b = looked at h ⊢
  obtain ⟨step, t⟩ := looked
  cases h
  rfl

theorem lookOnce_of_waits (h : (glance p b).1 = .waits q) :
    lookOnce p b = lineUp q (glance p b).2 := by
  rw [lookOnce]
  generalize glance p b = looked at h ⊢
  obtain ⟨step, t⟩ := looked
  cases h
  rfl

/-- What becomes of consumers when a pull looks: it goes on waiting, or it is over and a place of
its consumer is given back. -/
theorem Staffed.has_lookOnce (hb : b.Staffed) (hbatch : p.request.batch ≠ 0)
    (hanswered : (lookOnce p b).IsAnswered) (h : (lookOnce p b).Has stream consumer s' c') :
    ∃ s c, b.Has stream consumer s c ∧
      (p.isOf stream consumer = true ∧
          c.Serves b.now (b.pullsOf stream consumer + 1) ((lookOnce p b).pullsOf stream consumer)
            c' ∧
          (lookOnce p b).pullsOf stream consumer ≤ b.pullsOf stream consumer + 1 ∨
        p.isOf stream consumer = false ∧ c.Stays b.now false c' ∧
          (lookOnce p b).pullsOf stream consumer = b.pullsOf stream consumer) := by
  have hglance := isAnswered_glance hanswered
  have hstaffed := (carries_glance hb hbatch hglance).1.staffed
  obtain ⟨⟨_, _, _, heq⟩, hsame⟩ := glance_eq p b
  have hpulls : (glance p b).2.pulls = b.pulls := by rw [heq]
  have hnow : (glance p b).2.now = b.now := by
    rw [heq]
    rfl
  cases hstep : (glance p b).1 with
  | «over» result =>
    -- It is over and gives back a place of its consumer.
    have hlook := lookOnce_of_over hstep
    have hleft : ((glance p b).2.modifyConsumer p.stream p.consumer
        (Attendance.leave.change b.now)).Has stream consumer s' c' := by
      rw [hlook] at h
      rw [finishPull, leavePlace, hnow] at h
      exact ⟨h.1, h.2, h.3, h.4⟩
    have hcount : (lookOnce p b).pullsOf stream consumer = b.pullsOf stream consumer := by
      rw [hlook]
      exact pullsOf_congr ((pulls_modifyConsumer ..).trans hpulls) ..
    obtain ⟨t, d, hd, rfl⟩ := hstaffed.has_modifyConsumer
      (f := Attendance.leave.change b.now) (fun _ => rfl) hleft
    obtain ⟨s, c, hhas, hstays⟩ := hb.has_glance hglance hd
    refine ⟨s, c, hhas, ?_⟩
    rw [hcount]
    split
    · next hof =>
      refine .inl ⟨decide_eq_true hof, ⟨hstays.bound_eq, hstays.settings, rfl, fun h => ?_⟩,
        Nat.le_succ _⟩
      show d.cursor.waiting - 1 = _
      rw [hstays.waiting_eq, h, Nat.add_sub_cancel]
    · next hof =>
      rw [decide_eq_false hof] at hstays
      exact .inr ⟨decide_eq_false hof, hstays, rfl⟩
  | waits q =>
    -- It waits on and keeps its place.
    have hlook := lookOnce_of_waits hstep
    have hcount : (lookOnce p b).pullsOf stream consumer =
        b.pullsOf stream consumer + if p.isOf stream consumer then 1 else 0 := by
      rw [hlook, pullsOf, lineUp, hpulls, List.countP_append, List.countP_singleton, pullsOf]
      exact congrArg (fun of : Bool => _ + if of then 1 else 0) ((hsame q hstep).isOf_eq ..)
    rw [hlook] at h
    obtain ⟨s, c, hhas, hstays⟩ := hb.has_glance (p := p) hglance ⟨h.1, h.2, h.3, h.4⟩
    refine ⟨s, c, hhas, ?_⟩
    rw [← Pull.isOf] at hstays
    have hactive := hstays.lastActive_eq
    cases hof : p.isOf stream consumer with
    | true =>
      rw [hof, if_pos rfl] at hcount hactive
      exact .inl ⟨rfl, ⟨hstays.bound_eq, hstays.settings, hactive,
        fun h => hstays.waiting_eq.trans (h.trans hcount.symm)⟩, Nat.le_of_eq hcount⟩
    | false =>
      rw [hof] at hcount hstays
      exact .inr ⟨rfl, hstays, hcount⟩

/-- What becomes of consumers when a pull that waits looks again. -/
theorem Staffed.has_lookAgain (hb : b.Staffed) (hledger : b.Ledger) (hp : p ∈ b.pulls)
    (hanswered : (lookAgain p b).IsAnswered) (h : (lookAgain p b).Has stream consumer s' c') :
    ∃ s c, b.Has stream consumer s c ∧
      (p.isOf stream consumer = true ∧
          c.Serves b.now (b.pullsOf stream consumer) ((lookAgain p b).pullsOf stream consumer) c' ∧
          (lookAgain p b).pullsOf stream consumer ≤ b.pullsOf stream consumer ∨
        p.isOf stream consumer = false ∧ c.Stays b.now false c' ∧
          (lookAgain p b).pullsOf stream consumer = b.pullsOf stream consumer) := by
  have hstaffed : (b.withoutPull p.id).Staffed :=
    staffed_of_steps hb (.single (.withdrawn p.id))
  have hpulls := hledger.pullsOf_eq hp stream consumer
  obtain ⟨s, c, hhas, hplace⟩ := hstaffed.has_lookOnce (hledger.batch_ne p hp) hanswered h
  refine ⟨s, c, ⟨hhas.1, hhas.2, hhas.3, hhas.4⟩, ?_⟩
  rcases hplace with ⟨hof, hserves, hle⟩ | ⟨hof, hstays, hcount⟩
  · rw [hof, if_pos rfl] at hpulls
    rw [← hpulls] at hserves hle
    exact .inl ⟨hof, hserves, hle⟩
  · rw [hof] at hpulls
    exact .inr ⟨hof, hstays, hcount.trans hpulls.symm⟩

/-- What becomes of consumers when a pull begins: one that allows the request is active, and if it
has a place it may be taken. -/
theorem Staffed.has_startPull (hb : b.Staffed) {stream' consumer' : Nat}
    (hanswered : (startPull stream' consumer' r b).2.IsAnswered)
    (h : (startPull stream' consumer' r b).2.Has stream consumer s' c') :
    ∃ s c, b.Has stream consumer s c ∧
      (stream = stream' ∧ consumer = consumer' ∧ r.check c.cursor.settings = .ok () ∧
          c.Serves b.now (b.pullsOf stream consumer)
            ((startPull stream' consumer' r b).2.pullsOf stream consumer) c' ∧
          ((startPull stream' consumer' r b).2.pullsOf stream consumer ≤
              b.pullsOf stream consumer ∨
            c.cursor.mayWait = true ∧ (startPull stream' consumer' r b).2.pullsOf stream consumer ≤
              b.pullsOf stream consumer + 1) ∨
        (stream = stream' → consumer = consumer' → r.check c.cursor.settings ≠ .ok ()) ∧
          c.Stays b.now false c' ∧ (startPull stream' consumer' r b).2.pullsOf stream consumer =
            b.pullsOf stream consumer) := by
  have hfresh : b.freshId.2.Staffed := staffed_of_steps hb (.single (step_freshId b))
  -- The consumer that is there is the one that was asked.
  have hasked {s : Stream} {c d : Consumer} (hd : b.consumerById? stream' consumer' = some d)
      (hhas : b.freshId.2.Has stream consumer s c) :
      b.Has stream consumer s c ∧ (stream = stream' → consumer = consumer' → c = d) := by
    have hhas : b.Has stream consumer s c := ⟨hhas.1, hhas.2, hhas.3, hhas.4⟩
    refine ⟨hhas, ?_⟩
    rintro rfl rfl
    exact Option.some.inj ((hb.consumerById?_eq hhas).symm.trans hd)
  cases startsPull stream' consumer' r b with
  | refused hcheck heq =>
    rw [heq] at h ⊢
    have hhas : b.Has stream consumer s' c' := ⟨h.1, h.2, h.3, h.4⟩
    refine ⟨s', c', hhas, .inr ⟨?_, .refl _ c', rfl⟩⟩
    rintro rfl rfl
    rw [hcheck c' (hb.consumerById?_eq hhas)]
    simp
  | full hd hcheck hmay ht heq =>
    subst ht
    rw [heq] at h ⊢
    obtain ⟨s, c, hhas, rfl⟩ := hfresh.has_modifyConsumer (f := Attendance.touch.change b.now)
      (fun _ => rfl) (⟨h.1, h.2, h.3, h.4⟩ : (b.freshId.2.modifyConsumer stream' consumer'
        (Attendance.touch.change b.now)).Has stream consumer s' c')
    have hcount : (b.freshId.2.modifyConsumer stream' consumer'
        (Attendance.touch.change b.now)).pullsOf stream consumer = b.pullsOf stream consumer :=
      pullsOf_congr (pulls_modifyConsumer ..) ..
    obtain ⟨hhas, hfound⟩ := hasked hd hhas
    refine ⟨s, c, hhas, ?_⟩
    split
    · next hof =>
      obtain rfl := hfound hof.1 hof.2
      exact .inl ⟨hof.1, hof.2, hcheck, ⟨rfl, .refl _, rfl, fun h => h.trans hcount.symm⟩,
        .inl (Nat.le_of_eq hcount)⟩
    · next hof =>
      exact .inr ⟨fun hstream hconsumer => absurd ⟨hstream, hconsumer⟩ hof, .refl _ c, hcount⟩
  | looks hd hcheck hmay heq =>
    rw [heq] at h hanswered ⊢
    obtain ⟨t, e, hafter, hplace⟩ :=
      (hb.enlist stream' consumer').has_lookOnce (batch_ne_of_check hcheck) hanswered h
    rw [pullsOf_congr (pulls_enlist stream' consumer' b), now_enlist] at hplace
    obtain ⟨s, c, hhas, rfl⟩ := hfresh.has_modifyConsumer (f := Attendance.arrive.change b.now)
      (fun _ => rfl) hafter
    obtain ⟨hhas, hfound⟩ := hasked hd hhas
    refine ⟨s, c, hhas, ?_⟩
    rcases hplace with ⟨hof, hserves, hle⟩ | ⟨hof, hstays, hcount⟩
    · have hof := of_decide_eq_true hof
      obtain rfl := hfound hof.1 hof.2
      rw [if_pos hof] at hserves
      exact .inl ⟨hof.1, hof.2, hcheck, ⟨hserves.bound_eq, hserves.settings,
        hserves.lastActive_eq, fun h => hserves.waiting_eq (congrArg (· + 1) h)⟩, .inr ⟨hmay, hle⟩⟩
    · have hof := of_decide_eq_false hof
      rw [if_neg hof] at hstays
      exact .inr ⟨fun hstream hconsumer => absurd ⟨hstream, hconsumer⟩ hof, hstays, hcount⟩

/-- What becomes of consumers when a pull is given up: a place of its consumer is given back. -/
theorem Staffed.has_abortPull (hb : b.Staffed) (hledger : b.Ledger) {id : Nat}
    (h : (abortPull id b).Has stream consumer s' c') : ∃ s c, b.Has stream consumer s c ∧
      ((∃ p ∈ b.pulls, p.id = id ∧ p.isOf stream consumer = true ∧
          c.Serves b.now (b.pullsOf stream consumer) ((abortPull id b).pullsOf stream consumer)
            c' ∧
          (abortPull id b).pullsOf stream consumer ≤ b.pullsOf stream consumer) ∨
        (∀ p ∈ b.pulls, p.id = id → p.isOf stream consumer = false) ∧ c' = c ∧
          (abortPull id b).pullsOf stream consumer = b.pullsOf stream consumer) := by
  cases hp : b.pull? id with
  | none =>
    have habort : abortPull id b = b := by rw [abortPull, hp]
    rw [habort] at h ⊢
    exact ⟨s', c', h, .inr ⟨fun p hp' hid => absurd (beq_iff_eq.2 hid)
      (List.find?_eq_none.1 hp p hp'), rfl, rfl⟩⟩
  | some p =>
    obtain ⟨hmem, rfl⟩ := mem_of_pull? hp
    have habort : abortPull p.id b = (b.withoutPull p.id).modifyConsumer p.stream p.consumer
        (Attendance.leave.change b.now) := by
      rw [abortPull, hp]
      rfl
    -- The place is given back when the pull is not among those that wait any more.
    have hcount : (abortPull p.id b).pullsOf stream consumer =
        (b.withoutPull p.id).pullsOf stream consumer := by
      rw [habort]
      exact pullsOf_congr (pulls_modifyConsumer ..) ..
    have hpulls := hledger.pullsOf_eq hmem stream consumer
    rw [habort] at h
    obtain ⟨s, c, hhas, rfl⟩ := (staffed_of_steps hb (.single (.withdrawn p.id))).has_modifyConsumer
      (f := Attendance.leave.change b.now) (fun _ => rfl) h
    refine ⟨s, c, ⟨hhas.1, hhas.2, hhas.3, hhas.4⟩, ?_⟩
    rw [hcount]
    split
    · next hof =>
      have hof : p.isOf stream consumer = true := decide_eq_true hof
      rw [hof, if_pos rfl] at hpulls
      refine .inl ⟨p, hmem, rfl, hof, ⟨rfl, .refl _, rfl, fun h => ?_⟩, hpulls ▸ Nat.le_succ _⟩
      show c.cursor.waiting - 1 = _
      rw [h, hpulls, Nat.add_sub_cancel]
    · next hof =>
      have hof : p.isOf stream consumer = false := decide_eq_false hof
      rw [hof] at hpulls
      exact .inr ⟨fun q hq hid => hledger.eq_of_pull_id hq hmem hid ▸ hof, rfl, hpulls.symm⟩

theorem now_endPull (u : Subscription) (b : Broker) : (endPull u b).now = b.now := by
  rw [endPull]
  split
  · next i _ =>
    obtain ⟨_, _, habort⟩ := abortPull_eq i b
    rw [habort]
    rfl
  · rfl

/-- What becomes of consumers when the pull of a subscription is given up. -/
theorem Staffed.has_endPull (hb : b.Staffed) (hledger : b.Ledger) {u : Subscription}
    (hu : u ∈ b.subscriptions) (h : (endPull u b).Has stream consumer s' c') :
    ∃ s c, b.Has stream consumer s c ∧ c'.bound = c.bound ∧
      c.cursor.settings.Becomes c'.cursor.settings ∧
      (c.cursor.waiting = b.pullsOf stream consumer →
        c'.cursor.waiting = (endPull u b).pullsOf stream consumer) ∧
      (endPull u b).pullsOf stream consumer ≤ b.pullsOf stream consumer ∧
      (¬(stream = u.stream ∧ consumer = u.consumer) →
        c' = c ∧ (endPull u b).pullsOf stream consumer = b.pullsOf stream consumer) := by
  cases hpull : u.pull with
  | none =>
    have hsame : endPull u b = b := by rw [endPull, hpull]
    rw [hsame] at h ⊢
    exact ⟨s', c', h, rfl, .refl _, id, Nat.le_refl _, fun _ => ⟨rfl, rfl⟩⟩
  | some i =>
    have hsame : endPull u b = (abortPull i b).forgetOutcome i := by rw [endPull, hpull]
    rw [hsame] at h ⊢
    have hcount : ((abortPull i b).forgetOutcome i).pullsOf stream consumer =
        (abortPull i b).pullsOf stream consumer := rfl
    rw [hcount]
    have habort : (abortPull i b).Has stream consumer s' c' := ⟨h.1, h.2, h.3, h.4⟩
    obtain ⟨s, c, hhas, ⟨p, hp, hid, hof, hserves, hle⟩ | ⟨-, rfl, hcount⟩⟩ :=
      hb.has_abortPull hledger habort
    · refine ⟨s, c, hhas, hserves.bound_eq, hserves.settings, hserves.waiting_eq, hle,
        fun hne => absurd ?_ hne⟩
      -- Its pull is one of its consumer.
      obtain ⟨hstream, hconsumer, -⟩ := hledger.own u hu p hp (hid ▸ hpull)
      exact hstream ▸ hconsumer ▸ of_decide_eq_true hof
    · exact ⟨s, c', hhas, rfl, .refl _, fun h => h.trans hcount.symm, Nat.le_of_eq hcount,
        fun _ => ⟨rfl, hcount⟩⟩

end Broker

end StreamBroker
