import StreamBroker.Proofs.Broker.Acts
import StreamBroker.Proofs.Stream.Restart

/-!
# The queue of a subscription

A subscription gets messages by pulls, offers them one after the other, and the subscriber takes
them from a queue.  Whatever happens in between, the subscriber takes just what was fetched, in the
same order, and what is counted is what was offered and not taken.

## Main definitions

* `Broker.came`: what came of the pull of a subscription
* `Act.fetched`, `Act.offered`, `Act.taken`: the messages that an act fetches for a subscription,
  offers to its subscriber, and hands to the subscriber
* `Act.Leaves`: what an act leaves of a subscription
* `Subscription.Flow`: where the messages of a subscription are

## Main results

* `Act.leaves`: an act leaves a subscription as it was, or does one thing with it
* `Broker.Acted.queued`: what was taken is what was fetched, and what is counted
-/

namespace StreamBroker

/-- How many messages there are on a list, and how many octets of payload. -/
def Queued.of (ds : List Delivered) : Queued :=
  ⟨ds.length, (ds.map fun d => d.delivery.message.payload.length).sum⟩

/-- The message that is counted and waits for room in the queue. -/
def Subscription.waiting (u : Subscription) : List Delivered :=
  if u.offering then u.outbox.take 1 else []

namespace Broker

/-- What came of the pull of a subscription and was not received. -/
def came (b : Broker) (id : Nat) : Option (Except Error (List Delivered)) := do
  let u ← b.subscription? id
  let i ← u.pull
  b.outcome? i

/-- The messages that came and were not received. -/
def arrived (b : Broker) (id : Nat) : List Delivered :=
  match b.came id with
  | some (.ok got) => got
  | _ => []

end Broker

namespace Act

/-- The messages that an act fetches for a subscription: its pull is over. -/
def fetched (a : Act) (b : Broker) (id : Nat) : List Delivered :=
  match b.came id with
  | none => (a.run b).arrived id
  | some _ => []

/-- The message that an act offers to a subscriber: it is counted. -/
def offered (a : Act) (b : Broker) (id : Nat) : List Delivered :=
  match a with
  | count i =>
    match i == id, b.subscription? i with
    | true, some u => if u.offering then [] else u.outbox.take 1
    | _, _ => []
  | _ => []

/-- The message that an act hands to a subscriber. -/
def taken (a : Act) (b : Broker) (id : Nat) : List Delivered :=
  match a with
  | take i =>
    match i == id, (Broker.takeMessage i b).1 with
    | true, .message d => [d]
    | _, _ => []
  | _ => []

/-- All messages of a kind that what was done has brought, the first one first. -/
def gather (f : Act → Broker → Nat → List Delivered) (id : Nat) :
    List (Broker × Act) → List Delivered
  | [] => []
  | (b, a) :: past => gather f id past ++ f a b id

/-- What an act leaves of a subscription: it was not there before, or it is as it was, or one thing
was done with it. -/
inductive Leaves (a : Act) (b : Broker) (id : Nat) : Subscription → Prop where
  /-- The subscription of a consumer that has none begins, with nothing. -/
  | begun {stream consumer batch : Nat} {s : Stream} {c : Consumer}
      (ha : a = subscribe stream consumer)
      (hlive : b.liveConsumer stream consumer = .ok (s, c)) (hbound : c.bound = false)
      (hbatch : c.cursor.settings.maxBatch ≠ some 0 → batch ≠ 0)
      (hid : b.nextId = id) (hcame : (a.run b).came id = none)
      (hoffered : a.offered b id = []) (htaken : a.taken b id = []) :
      Leaves a b id { id, stream, consumer, batch }
  /-- Nothing is done with it, except that its pull may be over. -/
  | kept {u : Subscription} (hu : b.subscription? id = some u)
      (hcame : b.came id = none ∨ (a.run b).came id = b.came id)
      (hoffered : a.offered b id = []) (htaken : a.taken b id = []) : Leaves a b id u
  /-- It receives what came of its pull. -/
  | received {u : Subscription} {r : Except Error (List Delivered)}
      (hu : b.subscription? id = some u) (hcame : b.came id = some r)
      (hleft : (a.run b).came id = none)
      (hoffered : a.offered b id = []) (htaken : a.taken b id = []) : Leaves a b id (u.receive r)
  /-- It counts a message. -/
  | counted {u : Subscription} (hu : b.subscription? id = some u)
      (hcame : (a.run b).came id = b.came id)
      (hoffered : a.offered b id = if u.offering then [] else u.outbox.take 1)
      (htaken : a.taken b id = []) : Leaves a b id u.count
  /-- It puts a message into its queue. -/
  | sent {u : Subscription} (hu : b.subscription? id = some u)
      (hcame : (a.run b).came id = b.came id)
      (hoffered : a.offered b id = []) (htaken : a.taken b id = []) : Leaves a b id u.send
  /-- It begins a pull, which may be over at once. -/
  | pulled {u : Subscription} (hu : b.subscription? id = some u) (hidle : u.isIdle = true)
      (ha : a = begin id) (hoffered : a.offered b id = []) (htaken : a.taken b id = []) :
      Leaves a b id { u with pull := some b.nextId }
  /-- Its subscriber takes a message. -/
  | taken {u : Subscription} {d : Delivered} {queue : List Delivered}
      (hu : b.subscription? id = some u) (hqueue : u.queue = d :: queue)
      (hcame : (a.run b).came id = b.came id)
      (hoffered : a.offered b id = []) (htaken : a.taken b id = [d]) :
      Leaves a b id (u.taken d queue)

end Act

namespace Broker

variable {b b' : Broker} {past : List (Broker × Act)} {a : Act} {u v : Subscription}
  {id i : Nat} {r : Except Error (List Delivered)}

/-! ## What comes of pulls -/

theorem subscription?_congr (h : b'.subscriptions = b.subscriptions) (id : Nat) :
    b'.subscription? id = b.subscription? id := by rw [subscription?, h, subscription?]

theorem subscription?_putSubscription (b : Broker) (v : Subscription) (id : Nat) :
    (b.putSubscription v).subscription? id =
      (b.subscription? id).map fun w => if w.id == v.id then v else w := by
  rw [subscription?, putSubscription, List.find?_map, subscription?]
  congr 2
  funext w
  by_cases h : w.id = v.id <;> simp [h]

theorem subscription?_put_self (hu : b.subscription? id = some u) (hv : v.id = id) :
    (b.putSubscription v).subscription? id = some v := by
  rw [subscription?_putSubscription, hu, Option.map_some, (mem_of_subscription? hu).2, hv,
    beq_self_eq_true, if_pos rfl]

theorem subscription?_put_of_ne (b : Broker) (hv : v.id ≠ id) :
    (b.putSubscription v).subscription? id = b.subscription? id := by
  rw [subscription?_putSubscription]
  cases hu : b.subscription? id with
  | none => rfl
  | some u =>
    rw [Option.map_some, (mem_of_subscription? hu).2, if_neg (by simpa using hv.symm)]

theorem outcome?_congr (h : b'.outcomes = b.outcomes) (i : Nat) :
    b'.outcome? i = b.outcome? i := by rw [outcome?, h, outcome?]

/-- What came of a pull is what came of it first. -/
theorem outcome?_append (h : b'.outcomes = b.outcomes ++ [⟨i, r⟩]) (j : Nat) :
    (b'.outcome? j) = (b.outcome? j).or (if i = j then some r else none) := by
  rw [outcome?, h, List.find?_append, Option.map_or, outcome?]
  by_cases hij : i = j <;> simp [hij]

theorem outcome?_filter {p : Outcome → Bool} (h : b'.outcomes = b.outcomes.filter p) {j : Nat}
    (hp : ∀ o, o.pull = j → p o = true) : b'.outcome? j = b.outcome? j := by
  rw [outcome?, h, List.find?_filter, outcome?]
  congr 2
  funext o
  by_cases ho : o.pull = j
  · simp [hp o ho, ho]
  · simp [ho]

theorem outcome?_forgetOutcome {j : Nat} (h : j ≠ i) :
    (b.forgetOutcome i).outcome? j = b.outcome? j :=
  outcome?_filter rfl fun _ ho => bne_iff_ne.2 (ho ▸ h)

theorem came_eq (hu : b.subscription? id = some u) : b.came id = u.pull.bind b.outcome? := by
  rw [came, hu]
  rfl

/-- What is over stays over when a pull begins. -/
theorem outcome?_startPull (stream consumer : Nat) (request : PullRequest)
    (h : b.outcome? i = some r) : (startPull stream consumer request b).2.outcome? i = some r := by
  rcases startPull_ends stream consumer request b with
    ⟨result, -, houtcomes⟩ | ⟨q, s, c, -, houtcomes, -⟩
  · rw [outcome?_append houtcomes, h]
    rfl
  · rw [outcome?, houtcomes]
    exact h

/-- What is over stays over when a pull looks again. -/
theorem outcome?_lookAgain (p : Pull) (h : b.outcome? i = some r) :
    (lookAgain p b).outcome? i = some r := by
  have h : (b.withoutPull p.id).outcome? i = some r := h
  rw [lookAgain]
  obtain ⟨_, _, _, ⟨result, -, hlook⟩ | ⟨q, -, -, hlook⟩⟩ := lookOnce_cases p (b.withoutPull p.id)
  · rw [hlook, outcome?_append (b := b.withoutPull p.id) rfl, h]
    rfl
  · rw [hlook]
    exact h

end Broker

namespace Act

variable {a : Act} {b : Broker} {u u' : Subscription} {id : Nat}

/-- An act that does nothing with a subscription may only end its pull. -/
theorem Leaves.kept_of (hu : b.subscription? id = some u)
    (hu' : (a.run b).subscription? id = some u)
    (hkept : ∀ i r, u.pull = some i → b.outcome? i = some r → (a.run b).outcome? i = some r)
    (hoffered : a.offered b id = []) (htaken : a.taken b id = []) : a.Leaves b id u := by
  refine .kept hu ?_ hoffered htaken
  rw [Broker.came_eq hu, Broker.came_eq hu']
  cases hpull : u.pull with
  | none => exact .inl rfl
  | some i =>
    cases hr : b.outcome? i with
    | none => exact .inl hr
    | some r => exact .inr ((hkept i r hpull hr).trans hr.symm)

/-- An act that does nothing leaves a subscription as it was. -/
theorem Leaves.of_run_eq (hrun : a.run b = b) (hu : (a.run b).subscription? id = some u)
    (hoffered : a.offered b id = []) (htaken : a.taken b id = []) : a.Leaves b id u :=
  .kept_of (hrun ▸ hu) hu (fun _ _ _ hr => hrun.symm ▸ hr) hoffered htaken

/-- An act that puts one subscription in its place does something with that one, and leaves the
others as they are. -/
theorem Leaves.put {t : Broker} {i : Nat} {v w : Subscription}
    (hrun : a.run b = t.putSubscription w) (hsame : t.subscriptions = b.subscriptions)
    (hv : b.subscription? i = some v) (hw : w.id = v.id)
    (hu : (a.run b).subscription? id = some u)
    (hkept : ∀ x ∈ b.subscriptions, x.id ≠ i → ∀ k r, x.pull = some k →
      b.outcome? k = some r → t.outcome? k = some r)
    (hoffered : i ≠ id → a.offered b id = []) (htaken : i ≠ id → a.taken b id = [])
    (hdone : (a.run b).subscription? i = some w → a.Leaves b i w) : a.Leaves b id u := by
  have hid := hw.trans (Broker.mem_of_subscription? hv).2
  by_cases hi : i = id
  · subst hi
    have hu' := hu
    rw [hrun, Broker.subscription?_put_self ((Broker.subscription?_congr hsame i).trans hv) hid]
      at hu'
    cases hu'
    exact hdone hu
  · have hu' := hu
    rw [hrun, Broker.subscription?_put_of_ne t (hid ▸ hi), Broker.subscription?_congr hsame] at hu'
    obtain ⟨hmem, hne⟩ := Broker.mem_of_subscription? hu'
    refine .kept_of hu' hu (fun k r hk hr => ?_) (hoffered hi) (htaken hi)
    rw [hrun]
    exact hkept u hmem (fun heq => hi (heq.symm.trans hne)) k r hk hr

/-- A subscription pulls for the consumer that it has pulled for, unless it is new: then the
consumer had none. -/
theorem Leaves.post_cases {v : Subscription} (h : a.Leaves b id v) :
    (∃ u, b.subscription? id = some u ∧ u.SamePost v) ∨
      v.id = b.nextId ∧ ∃ s c, b.liveConsumer v.stream v.consumer = .ok (s, c) ∧
        c.bound = false ∧ (c.cursor.settings.maxBatch ≠ some 0 → v.batch ≠ 0) := by
  have hkept {u : Subscription} (hu : b.subscription? id = some u) (hpost : u.SamePost v) :
      (∃ u, b.subscription? id = some u ∧ u.SamePost v) ∨
        v.id = b.nextId ∧ ∃ s c, b.liveConsumer v.stream v.consumer = .ok (s, c) ∧
          c.bound = false ∧ (c.cursor.settings.maxBatch ≠ some 0 → v.batch ≠ 0) :=
    .inl ⟨u, hu, hpost⟩
  cases h with
  | begun _ hlive hbound hbatch hid => exact .inr ⟨hid.symm, _, _, hlive, hbound, hbatch⟩
  | kept hu => exact hkept hu (.refl _)
  | @received u r hu =>
    have hpost : u.SamePost (u.receive r) := by cases r <;> exact ⟨rfl, rfl, rfl, rfl⟩
    exact hkept hu hpost
  | @counted u hu =>
    obtain ⟨_, _, hcount⟩ := u.count_eq
    have hpost : u.SamePost u.count := hcount ▸ ⟨rfl, rfl, rfl, rfl⟩
    exact hkept hu hpost
  | @sent u hu =>
    obtain ⟨_, _, _, hsend⟩ := u.send_eq
    have hpost : u.SamePost u.send := hsend ▸ ⟨rfl, rfl, rfl, rfl⟩
    exact hkept hu hpost
  | pulled hu => exact hkept hu ⟨rfl, rfl, rfl, rfl⟩
  | taken hu => exact hkept hu ⟨rfl, rfl, rfl, rfl⟩

/-! ### Act by act -/

/-- A pull that looks again may be that of a subscription, and over. -/
theorem leaves_look {i : Nat} (hu : ((look i).run b).subscription? id = some u) :
    (look i).Leaves b id u := by
  cases hp : b.pull? i with
  | none =>
    have hrun : (look i).run b = b := by simp only [run, hp]
    exact .of_run_eq hrun hu rfl rfl
  | some p =>
    have hrun : (look i).run b = Broker.lookAgain p b := by simp only [run, hp]
    refine .kept_of ?_ hu (fun j r _ hr => ?_) rfl rfl
    · rw [hrun] at hu
      exact (Broker.subscription?_congr (Broker.subscriptions_lookAgain p b) id).symm.trans hu
    · rw [hrun]
      exact Broker.outcome?_lookAgain p hr

/-- What is forgotten did not come of the pull of a subscription. -/
theorem leaves_forget {i : Nat} (hforeign : ∀ v ∈ b.subscriptions, v.pull ≠ some i)
    (hu : ((forget i).run b).subscription? id = some u) : (forget i).Leaves b id u := by
  refine .kept_of hu hu (fun j r hj hr => ?_) rfl rfl
  have hne : j ≠ i := fun heq => hforeign u (Broker.mem_of_subscription? hu).1 (heq ▸ hj)
  exact (Broker.outcome?_forgetOutcome hne).trans hr

theorem leaves_subscribe {stream consumer : Nat}
    (hu : ((subscribe stream consumer).run b).subscription? id = some u) :
    (subscribe stream consumer).Leaves b id u := by
  rcases Broker.subscribe_cases stream consumer b with
    heq | ⟨s, c, batch, hlive, hbound, hbatch, heq⟩
  · have hrun : (subscribe stream consumer).run b = b := heq
    exact .of_run_eq hrun hu rfl rfl
  · have hrun : (subscribe stream consumer).run b = _ := heq
    have hu' := hu
    rw [Broker.subscription?, hrun, List.find?_append, ← Broker.subscription?] at hu'
    cases hv : b.subscription? id with
    | some v =>
      rw [hv] at hu'
      cases hu'
      have houtcomes : ((subscribe stream consumer).run b).outcomes = b.outcomes := by
        rw [hrun]
        exact Broker.outcomes_modifyConsumer ..
      exact .kept_of hv hu (fun i r _ hr => (Broker.outcome?_congr houtcomes i).trans hr) rfl rfl
    | none =>
      -- The one that is new has the next number, and has pulled nothing.
      rw [hv, Option.none_or] at hu'
      obtain rfl := List.mem_singleton.1 (List.mem_of_find?_eq_some hu')
      obtain rfl : b.nextId = id := (Broker.mem_of_subscription? hu).2
      exact .begun rfl hlive hbound hbatch rfl ((Broker.came_eq hu).trans rfl) rfl rfl

theorem leaves_receive (hb : b.Ledger) {i : Nat}
    (hu : ((receive i).run b).subscription? id = some u) : (receive i).Leaves b id u := by
  cases hv : b.subscription? i with
  | none =>
    have hrun : (receive i).run b = b := by rw [run, Broker.forSubscription_of_none hv]
    exact .of_run_eq hrun hu rfl rfl
  | some v =>
    have hrun : (receive i).run b =
        (Broker.receiveOutcome v b).2.putSubscription (Broker.receiveOutcome v b).1 := by
      rw [run, Broker.forSubscription_of_some hv]
    rcases Broker.receiveOutcome_cases v b with heq | ⟨j, r, hj, hr, heq⟩
    · rw [heq] at hrun
      refine .put hrun rfl hv rfl hu (fun _ _ _ _ _ _ hr => hr) (fun _ => rfl) (fun _ => rfl)
        fun hv' => ?_
      exact .kept_of hv hv' (fun k r _ hr => hrun.symm ▸ hr) rfl rfl
    · rw [heq] at hrun
      obtain ⟨hpost, hnone⟩ : (v.receive r).id = v.id ∧ (v.receive r).pull = none := by
        cases r <;> exact ⟨rfl, rfl⟩
      obtain ⟨hmem, hid⟩ := Broker.mem_of_subscription? hv
      refine .put hrun rfl hv hpost hu (fun w hw hne k r' hk hr' => ?_) (fun _ => rfl)
        (fun _ => rfl) fun hv' => ?_
      · -- The pull of one subscription is not that of another.
        have hother : k ≠ j := fun heq =>
          hne (hid ▸ congrArg _ (hb.apart w hw v hmem k hk (heq ▸ hj)))
        exact (Broker.outcome?_forgetOutcome hother).trans hr'
      · refine .received hv ?_ ?_ rfl rfl
        · rw [Broker.came_eq hv, hj]
          exact hr
        · rw [Broker.came_eq hv', hnone]
          rfl

theorem leaves_count {i : Nat} (hu : ((count i).run b).subscription? id = some u) :
    (count i).Leaves b id u := by
  cases hv : b.subscription? i with
  | none =>
    have hrun : (count i).run b = b := by rw [run, Broker.forSubscription_of_none hv]
    exact .of_run_eq hrun hu (by simp [offered, hv]) rfl
  | some v =>
    have hrun : (count i).run b = b.putSubscription v.count := by
      rw [run, Broker.forSubscription_of_some hv]
    obtain ⟨_, _, hcount⟩ := v.count_eq
    refine .put hrun rfl hv (by rw [hcount]) hu (fun _ _ _ _ _ _ hr => hr)
      (fun hi => by simp [offered, hi]) (fun _ => rfl) fun hv' => ?_
    refine .counted hv ?_ ?_ rfl
    · rw [Broker.came_eq hv', Broker.came_eq hv, hrun, hcount]
      rfl
    · simp only [offered, hv, beq_self_eq_true]

theorem leaves_send {i : Nat} (hu : ((send i).run b).subscription? id = some u) :
    (send i).Leaves b id u := by
  cases hv : b.subscription? i with
  | none =>
    have hrun : (send i).run b = b := by rw [run, Broker.forSubscription_of_none hv]
    exact .of_run_eq hrun hu rfl rfl
  | some v =>
    have hrun : (send i).run b = b.putSubscription v.send := by
      rw [run, Broker.forSubscription_of_some hv]
    obtain ⟨_, _, _, hsend⟩ := v.send_eq
    refine .put hrun rfl hv (by rw [hsend]) hu (fun _ _ _ _ _ _ hr => hr) (fun _ => rfl)
      (fun _ => rfl) fun hv' => ?_
    refine .sent hv ?_ rfl rfl
    rw [Broker.came_eq hv', Broker.came_eq hv, hrun, hsend]
    rfl

theorem leaves_begin {i : Nat} (hu : ((begin i).run b).subscription? id = some u) :
    (begin i).Leaves b id u := by
  rcases run_begin_cases i b with ⟨hrun, -⟩ | ⟨v, hv, hidle, hrun⟩
  · exact .of_run_eq hrun hu rfl rfl
  · have hsubscriptions :=
      (Broker.begins_startPull v.stream v.consumer { batch := v.batch } b).2.1
    refine .put (w := { v with pull := some b.nextId }) hrun hsubscriptions hv rfl hu
      (fun _ _ _ _ _ _ hr => Broker.outcome?_startPull _ _ _ hr) (fun _ => rfl) (fun _ => rfl)
      fun _ => ?_
    exact .pulled hv hidle rfl rfl rfl

theorem leaves_take {i : Nat} (hu : ((take i).run b).subscription? id = some u) :
    (take i).Leaves b id u := by
  cases hv : b.subscription? i with
  | none =>
    have hrun : (take i).run b = b := by simp only [run, Broker.takeMessage, hv]
    exact .of_run_eq hrun hu rfl (by simp [taken, Broker.takeMessage, hv])
  | some v =>
    cases hqueue : v.queue with
    | nil =>
      have hrun : (take i).run b = b := by simp only [run, Broker.takeMessage, hv, hqueue]
      refine .of_run_eq hrun hu rfl ?_
      -- Nothing is taken from an empty queue.
      simp only [taken, Broker.takeMessage, hv, hqueue]
      split
      · next d _ hd => split at hd <;> cases hd
      · rfl
    | cons d queue =>
      have hrun : (take i).run b = b.putSubscription (v.taken d queue) := by
        simp only [run, Broker.takeMessage, hv, hqueue]
      refine .put hrun rfl hv rfl hu (fun _ _ _ _ _ _ hr => hr) (fun _ => rfl)
        (fun hi => by simp [taken, hi]) fun hv' => ?_
      refine .taken hv hqueue ?_ rfl ?_
      · rw [Broker.came_eq hv', Broker.came_eq hv, hrun]
        rfl
      · simp only [taken, Broker.takeMessage, hv, hqueue, beq_self_eq_true]

theorem leaves_drop (hb : b.Ledger) {i : Nat}
    (hu : ((drop i).run b).subscription? id = some u) : (drop i).Leaves b id u := by
  cases hv : b.subscription? i with
  | none =>
    have hrun : (drop i).run b = b := by simp only [run, Broker.dropSubscription, hv]
    exact .of_run_eq hrun hu rfl rfl
  | some v =>
    obtain ⟨hmem, hid⟩ := Broker.mem_of_subscription? hv
    obtain ⟨_, _, h⟩ := Broker.dropSubscription_eq hv
    have hrun : (drop i).run b = _ := h
    obtain ⟨hmem', hid'⟩ := Broker.mem_of_subscription? hu
    rw [hrun] at hmem'
    obtain ⟨hmem', hne⟩ := List.mem_filter.1 hmem'
    have hother : id ≠ i := hid' ▸ bne_iff_ne.1 hne
    have hu' : b.subscription? id = some u := hid' ▸ hb.subscription?_eq hmem'
    refine .kept_of hu' hu (fun k r hk hr => ?_) rfl rfl
    -- The pull of the one that ends is not that of another.
    have hpull : v.pull ≠ some k := fun hk' =>
      hother (hid'.symm.trans ((congrArg _ (hb.apart u hmem' v hmem k hk hk')).trans hid))
    rw [hrun]
    refine (Broker.outcome?_filter (b := b) rfl fun o ho => ?_).trans hr
    exact decide_eq_true (ho ▸ hpull)

/-- **An act leaves a subscription as it was, or does one thing with it.** -/
theorem leaves (hb : b.Ledger) (hproper : a.IsProper b)
    (hu : (a.run b).subscription? id = some u) : a.Leaves b id u := by
  cases a with
  | operate i next op =>
    obtain ⟨_, _, _, h⟩ := Broker.onStream_eq i (op.run b.clock) { b with nextId := next }
    have hrun : (operate i next op).run b = _ := h
    exact .kept_of (by rwa [hrun] at hu) hu (fun j r _ hr => by rwa [hrun]) rfl rfl
  | openStream settings =>
    obtain ⟨_, _, h⟩ := Broker.openStream_eq settings b
    have hrun : (openStream settings).run b = _ := h
    exact .kept_of (by rwa [hrun] at hu) hu (fun j r _ hr => by rwa [hrun]) rfl rfl
  | deleteStream name =>
    obtain ⟨_, _, _, h⟩ := Broker.deleteStream_eq name b
    have hrun : (deleteStream name).run b = _ := h
    exact .kept_of (by rwa [hrun] at hu) hu (fun j r _ hr => by rwa [hrun]) rfl rfl
  | pull stream consumer request =>
    have hsubscriptions := (Broker.begins_startPull stream consumer request b).2.1
    refine .kept_of ?_ hu (fun i r _ => Broker.outcome?_startPull stream consumer request) rfl rfl
    exact (Broker.subscription?_congr hsubscriptions id).symm.trans hu
  | look i => exact leaves_look hu
  | abort i =>
    obtain ⟨_, _, h⟩ := Broker.abortPull_eq i b
    have hrun : (abort i).run b = _ := h
    exact .kept_of (by rwa [hrun] at hu) hu (fun j r _ hr => by rwa [hrun]) rfl rfl
  | forget i => exact leaves_forget hproper hu
  | subscribe stream consumer => exact leaves_subscribe hu
  | receive i => exact leaves_receive hb hu
  | count i => exact leaves_count hu
  | send i => exact leaves_send hu
  | begin i => exact leaves_begin hu
  | take i => exact leaves_take hu
  | drop i => exact leaves_drop hb hu
  | park | wait | aside => exact .kept_of hu hu (fun j r _ hr => hr) rfl rfl
  | restart => cases hu

/-- Nothing is done for a subscription that is not there. -/
theorem offered_taken_of_none (a : Act) (h : b.subscription? id = none) :
    a.offered b id = [] ∧ a.taken b id = [] := by
  cases a with
  | count i =>
    refine ⟨?_, rfl⟩
    by_cases hi : i = id
    · simp [offered, hi, h]
    · simp [offered, hi]
  | take i =>
    refine ⟨rfl, ?_⟩
    by_cases hi : i = id
    · simp [taken, Broker.takeMessage, hi, h]
    · simp [taken, hi]
  | _ => exact ⟨rfl, rfl⟩

end Act

/-! ## Where the messages are -/

/-- Where the messages of a subscription are that were fetched for it, and what it counts. -/
structure Subscription.Flow (past : List (Broker × Act)) (b : Broker) (id : Nat)
    (u : Subscription) : Prop where
  /-- What was offered was taken, or is in the queue, or waits for room in it. -/
  offered_eq : Act.gather Act.offered id past =
    Act.gather Act.taken id past ++ u.queue ++ u.waiting
  /-- What was fetched was taken, or is in the queue or in front of it, or was not received. -/
  fetched_eq : Act.gather Act.fetched id past =
    Act.gather Act.taken id past ++ u.queue ++ u.outbox ++ b.arrived id
  /-- What is counted was offered and not taken. -/
  counted_eq : u.counted = Queued.of (u.queue ++ u.waiting)
  /-- Only a message that is there is offered. -/
  outbox_ne : u.offering = true → u.outbox ≠ []

namespace Broker

variable {b : Broker} {past : List (Broker × Act)} {a : Act} {u v : Subscription} {id : Nat}

/-- What an act fetches for a subscription comes behind what came before. -/
theorem fetched_arrived (h : b.came id = none ∨ (a.run b).came id = b.came id) :
    b.arrived id ++ a.fetched b id = (a.run b).arrived id := by
  rw [Act.fetched]
  cases hcame : b.came id with
  | none =>
    have hnone : b.arrived id = [] := by rw [arrived, hcame]
    rw [hnone, List.nil_append]
  | some r =>
    have heq : (a.run b).came id = b.came id := h.resolve_left (by simp [hcame])
    rw [List.append_nil, arrived, arrived, heq]

end Broker

namespace Queued

theorem of_append (ds : List Delivered) (d : Delivered) : of (ds ++ [d]) = (of ds).add d := by
  simp [of, add]

theorem of_cons_take (d : Delivered) (ds : List Delivered) : (of (d :: ds)).take d = of ds := by
  simp [of, take]

end Queued

namespace Subscription.Flow

variable {b : Broker} {past : List (Broker × Act)} {a : Act} {u v : Subscription} {id : Nat}

/-- An act that does nothing with a subscription but that its pull may be over. -/
theorem kept (h : u.Flow past b id) (hcame : b.came id = none ∨ (a.run b).came id = b.came id)
    (hoffered : a.offered b id = []) (htaken : a.taken b id = []) :
    u.Flow ((b, a) :: past) (a.run b) id where
  offered_eq := by rw [Act.gather, Act.gather, hoffered, htaken, List.append_nil, List.append_nil,
    h.offered_eq]
  fetched_eq := by rw [Act.gather, Act.gather, htaken, List.append_nil, h.fetched_eq,
    List.append_assoc, Broker.fetched_arrived hcame]
  counted_eq := h.counted_eq
  outbox_ne := h.outbox_ne

/-- What came of the pull waits in front of the queue. -/
theorem received (h : u.Flow past b id) {r : Except Error (List Delivered)}
    (hcame : b.came id = some r) (hleft : (a.run b).came id = none)
    (hoffered : a.offered b id = []) (htaken : a.taken b id = []) :
    (u.receive r).Flow ((b, a) :: past) (a.run b) id := by
  have hfetched : a.fetched b id = [] := by rw [Act.fetched, hcame]
  have hnone : (a.run b).arrived id = [] := by rw [Broker.arrived, hleft]
  have hfetched_eq := h.fetched_eq
  rw [Broker.arrived, hcame] at hfetched_eq
  cases r with
  | error e =>
    refine ⟨?_, ?_, h.counted_eq, h.outbox_ne⟩
    · rw [Act.gather, Act.gather, hoffered, htaken, List.append_nil, List.append_nil]
      exact h.offered_eq
    · rw [Act.gather, Act.gather, hfetched, htaken, List.append_nil, List.append_nil, hnone]
      exact hfetched_eq
  | ok got =>
    -- What waits to be sent stays in front of what comes.
    have hwaiting : (u.receive (.ok got)).waiting = u.waiting := by
      cases hoffering : u.offering with
      | false => simp [waiting, receive, hoffering]
      | true =>
        obtain ⟨d, outbox, hout⟩ := List.exists_cons_of_ne_nil (h.outbox_ne hoffering)
        simp [waiting, receive, hoffering, hout]
    refine ⟨?_, ?_, ?_, fun hoffering => ?_⟩
    · rw [Act.gather, Act.gather, hoffered, htaken, List.append_nil, List.append_nil, hwaiting]
      exact h.offered_eq
    · rw [Act.gather, Act.gather, hfetched, htaken, List.append_nil, List.append_nil, hnone,
        List.append_nil, hfetched_eq]
      simp only [receive, List.append_assoc]
    · rw [hwaiting]
      exact h.counted_eq
    · exact List.append_ne_nil_of_left_ne_nil (h.outbox_ne hoffering) got

/-- The message that is next is offered, unless it was. -/
theorem counted (h : u.Flow past b id) (hcame : (a.run b).came id = b.came id)
    (hoffered : a.offered b id = if u.offering then [] else u.outbox.take 1)
    (htaken : a.taken b id = []) : u.count.Flow ((b, a) :: past) (a.run b) id := by
  cases hout : u.outbox with
  | nil =>
    have hsame : u.count = u := by rw [count, hout]
    rw [hsame]
    refine h.kept (.inr hcame) (hoffered.trans ?_) htaken
    rw [hout, List.take_nil, ite_self]
  | cons d outbox =>
    cases hoffering : u.offering with
    | true =>
      have hsame : u.count = u := by
        rw [count, hout]
        exact if_pos hoffering
      rw [hsame]
      exact h.kept (.inr hcame) (hoffered.trans (by rw [hoffering, if_pos rfl])) htaken
    | false =>
      have hcount : u.count = { u with offering := true, counted := u.counted.add d } := by
        simp [count, hout, hoffering]
      have hnone : u.waiting = [] := by rw [waiting, hoffering, if_neg (by simp)]
      rw [hoffering, if_neg (by simp), hout] at hoffered
      rw [hcount]
      refine ⟨?_, ?_, ?_, fun _ => ?_⟩
      · rw [Act.gather, Act.gather, hoffered, htaken, List.append_nil, h.offered_eq, hnone]
        simp [waiting, hout]
      · rw [Act.gather, Act.gather, htaken, List.append_nil, h.fetched_eq, List.append_assoc,
          Broker.fetched_arrived (.inr hcame)]
      · rw [h.counted_eq, hnone, List.append_nil, ← Queued.of_append]
        simp [waiting, hout]
      · simp [hout]

/-- The message that was offered is in the queue, or waits for room. -/
theorem sent (h : u.Flow past b id) (hcame : (a.run b).came id = b.came id)
    (hoffered : a.offered b id = []) (htaken : a.taken b id = []) :
    u.send.Flow ((b, a) :: past) (a.run b) id := by
  by_cases hroom : u.offering = true ∧ u.queue.length < u.batch
  · obtain ⟨d, outbox, hout⟩ := List.exists_cons_of_ne_nil (h.outbox_ne hroom.1)
    have hsend : u.send = { u with queue := u.queue ++ [d], outbox, offering := false } := by
      simp [send, hout, hroom]
    -- The message that waited for room is the first of the outbox, and none waits behind it.
    have hnone : Subscription.waiting { u with
        queue := u.queue ++ [d], outbox, offering := false } = [] := rfl
    have hwaiting : u.waiting = [d] := by
      rw [waiting, hroom.1, if_pos rfl, hout]
      rfl
    rw [hsend]
    refine ⟨?_, ?_, ?_, fun hfalse => by cases hfalse⟩
    · rw [Act.gather, Act.gather, hoffered, htaken, List.append_nil, List.append_nil,
        h.offered_eq, hnone, hwaiting]
      simp
    · rw [Act.gather, Act.gather, htaken, List.append_nil, h.fetched_eq, List.append_assoc,
        Broker.fetched_arrived (.inr hcame), hout]
      simp
    · rw [hnone, List.append_nil, h.counted_eq, hwaiting]
  · have hsame : u.send = u := by
      rw [send]
      split
      · exact if_neg (by simpa using hroom)
      · rfl
    rw [hsame]
    exact h.kept (.inr hcame) hoffered htaken

/-- The subscriber takes the message in front of the queue. -/
theorem taken (h : u.Flow past b id) {d : Delivered} {queue : List Delivered}
    (hqueue : u.queue = d :: queue) (hcame : (a.run b).came id = b.came id)
    (hoffered : a.offered b id = []) (htaken : a.taken b id = [d]) :
    (u.taken d queue).Flow ((b, a) :: past) (a.run b) id := by
  have hwaiting : (u.taken d queue).waiting = u.waiting := rfl
  refine ⟨?_, ?_, ?_, h.outbox_ne⟩
  · rw [Act.gather, Act.gather, hoffered, htaken, List.append_nil, h.offered_eq, hwaiting, hqueue]
    simp [Subscription.taken]
  · rw [Act.gather, Act.gather, htaken, h.fetched_eq, List.append_assoc,
      Broker.fetched_arrived (.inr hcame), hqueue]
    simp [Subscription.taken]
  · have hcounted : (u.taken d queue).counted = u.counted.take d := rfl
    rw [hcounted, h.counted_eq, hwaiting, hqueue, List.cons_append, Queued.of_cons_take]
    rfl

end Subscription.Flow

namespace Broker

variable {b : Broker} {past : List (Broker × Act)} {a : Act} {u : Subscription} {id : Nat}

theorem arrived_of_none (h : b.subscription? id = none) : b.arrived id = [] := by
  rw [arrived, came, h]
  rfl

theorem Ledger.subscription?_of_le (hb : b.Ledger) (hid : b.nextId ≤ id) :
    b.subscription? id = none := by
  cases hu : b.subscription? id with
  | none => rfl
  | some u =>
    obtain ⟨hmem, rfl⟩ := mem_of_subscription? hu
    exact absurd (hb.subscription_lt u hmem).1 (Nat.not_lt_of_le hid)

/-- Nothing is done for a subscription before it has its number. -/
theorem Acted.gather_eq_nil (h : Acted past b) (hid : b.nextId ≤ id) :
    Act.gather Act.fetched id past = [] ∧ Act.gather Act.offered id past = [] ∧
      Act.gather Act.taken id past = [] := by
  induction h with
  | started settings seed backend hclock => exact ⟨rfl, rfl, rfl⟩
  | @act b past h a hproper hanswered ih =>
    have hle := (nextId_le_of_steps h.staffed (Act.steps h.ledger hproper hanswered)).1
    have hbefore := h.ledger.subscription?_of_le (Nat.le_trans hle hid)
    have hafter := (h.act hproper hanswered).ledger.subscription?_of_le hid
    obtain ⟨hfetched, hoffered, htaken⟩ := ih (Nat.le_trans hle hid)
    obtain ⟨hoffers, htakes⟩ := a.offered_taken_of_none hbefore
    have hfetches : a.fetched b id = [] := by
      rw [Act.fetched]
      split
      · exact arrived_of_none hafter
      · rfl
    refine ⟨?_, ?_, ?_⟩ <;> rw [Act.gather]
    · rw [hfetched, hfetches, List.append_nil]
    · rw [hoffered, hoffers, List.append_nil]
    · rw [htaken, htakes, List.append_nil]

/-- **Where the messages of a subscription are**, at any time. -/
theorem Acted.flow (h : Acted past b) (hu : b.subscription? id = some u) : u.Flow past b id := by
  induction h generalizing u with
  | started settings seed backend hclock => cases hu
  | @act b past h a hproper hanswered ih =>
    cases a.leaves h.ledger hproper hu with
    | begun ha hlive hbound hbatch hid hcame hoffered htaken =>
      obtain ⟨hfetched, hoffered', htaken'⟩ := h.gather_eq_nil (Nat.le_of_eq hid)
      have hnone : (a.run b).arrived id = [] := by rw [arrived, hcame]
      have hfetches : a.fetched b id = [] := by
        rw [Act.fetched, hnone]
        split <;> rfl
      refine ⟨?_, ?_, rfl, fun hfalse => by cases hfalse⟩
      · rw [Act.gather, Act.gather, hoffered', hoffered, htaken', htaken]
        rfl
      · rw [Act.gather, Act.gather, hfetched, hfetches, htaken', htaken, hnone]
        rfl
    | kept hbefore hcame hoffered htaken => exact (ih hbefore).kept hcame hoffered htaken
    | received hbefore hcame hleft hoffered htaken =>
      exact (ih hbefore).received hcame hleft hoffered htaken
    | counted hbefore hcame hoffered htaken => exact (ih hbefore).counted hcame hoffered htaken
    | sent hbefore hcame hoffered htaken => exact (ih hbefore).sent hcame hoffered htaken
    | @pulled u hbefore hidle ha hoffered htaken =>
      -- A subscription that begins a pull has none.
      have hnone : u.pull = none := by
        simp only [Subscription.isIdle, Bool.and_eq_true, Option.isNone_iff_eq_none] at hidle
        exact hidle.2
      have hcame : b.came id = none := by
        rw [came_eq hbefore, hnone]
        rfl
      obtain ⟨hoffered_eq, hfetched_eq, hcounted_eq, houtbox⟩ :=
        (ih hbefore).kept (.inl hcame) hoffered htaken
      exact ⟨hoffered_eq, hfetched_eq, hcounted_eq, houtbox⟩
    | taken hbefore hqueue hcame hoffered htaken =>
      exact (ih hbefore).taken hqueue hcame hoffered htaken

/-- **What was fetched for a subscriber is what it has taken and, behind that, what is held for
it**, all in the same order.  What is counted is the part of it that was offered and not taken, and a
message that can be taken is counted. -/
theorem Acted.queued (h : Acted past b) (hu : b.subscription? id = some u) :
    Act.gather Act.fetched id past =
        Act.gather Act.taken id past ++ (u.queue ++ u.outbox ++ b.arrived id) ∧
      (∃ left, left <+: u.queue ++ u.outbox ∧
        Act.gather Act.offered id past = Act.gather Act.taken id past ++ left ∧
        u.pendingSize =
          (left.length, (left.map fun d => d.delivery.message.payload.length).sum)) ∧
      ∀ d queue, u.queue = d :: queue → 1 ≤ u.counted.messages ∧
        d.delivery.message.payload.length ≤ u.counted.bytes := by
  obtain ⟨hoffered, hfetched, hcounted, -⟩ := h.flow hu
  refine ⟨?_, ⟨u.queue ++ u.waiting, ?_, ?_, ?_⟩, fun d queue hqueue => ?_⟩
  · rw [hfetched, List.append_assoc, List.append_assoc, List.append_assoc]
  · refine (List.prefix_append_right_inj _).2 ?_
    rw [Subscription.waiting]
    split
    · exact List.take_prefix _ _
    · exact List.nil_prefix
  · rw [hoffered, List.append_assoc]
  · rw [Subscription.pendingSize, hcounted]
    rfl
  · rw [hcounted, hqueue]
    simp [Queued.of]

/-- Two messages are fetched at once, and the subscriber has taken the first. -/
theorem queued_second : ∃ past b u, Acted past b ∧ b.subscription? 2 = some u ∧
    (Act.gather Act.fetched 2 past).map (·.delivery.message.payload) = [[1], [2, 3]] ∧
    (Act.gather Act.taken 2 past).map (·.delivery.message.payload) = [[1]] ∧
    u.pendingSize = (1, 2) ∧
    Act.gather Act.fetched 2 past =
      Act.gather Act.taken 2 past ++ (u.queue ++ u.outbox ++ b.arrived 2) := by
  have hstarted := Acted.started {} 0 Stream.blankBackend (show Stream.epochClock.IsDated from rfl)
  have hopened := hstarted.act (a := .openStream Stream.plainSettings) trivial (by decide +kernel)
  have hhired := hopened.act (a := .operate 0 2
    (.upsertConsumer .create 1 "" {} { durableName := some "c" }))
    (Act.isProper_hire (by decide +kernel) (by decide +kernel) (by decide +kernel))
    (by decide +kernel)
  have hsubscribed := hhired.act (a := .subscribe 0 1) trivial (by decide +kernel)
  have hfirst := hsubscribed.act (a := .operate 0 3 (.publish 9 {} ⟨"S", [1], []⟩))
    (Act.isProper_operate rfl (fun _ => trivial) Nat.le_refl (by decide +kernel)
      (by decide +kernel)) (by decide +kernel)
  have hsecond := hfirst.act (a := .operate 0 3 (.publish 9 {} ⟨"S", [2, 3], []⟩))
    (Act.isProper_operate rfl (fun _ => trivial) Nat.le_refl (by decide +kernel)
      (by decide +kernel)) (by decide +kernel)
  have hbegun := hsecond.act (a := .begin 2) trivial (by decide +kernel)
  have hreceived := hbegun.act (a := .receive 2) trivial (by decide +kernel)
  have hcounted := hreceived.act (a := .count 2) trivial (by decide +kernel)
  have hsent := hcounted.act (a := .send 2) trivial (by decide +kernel)
  have hcounted' := hsent.act (a := .count 2) trivial (by decide +kernel)
  have htaken := hcounted'.act (a := .take 2) trivial (by decide +kernel)
  have hheld {past : List (Broker × Act)} {b : Broker} (_ : Acted past b)
      (hsome : (b.subscription? 2).isSome = true) : ∃ u, b.subscription? 2 = some u :=
    Option.isSome_iff_exists.1 hsome
  obtain ⟨u, hu⟩ := hheld htaken (by decide +kernel)
  have hqueued := htaken.queued hu
  have hpending := congrArg (Option.map Subscription.pendingSize) hu
  refine ⟨_, _, u, htaken, hu, by decide +kernel, by decide +kernel, ?_, hqueued.1⟩
  exact Option.some.inj (hpending.symm.trans (by decide +kernel))

end Broker

end StreamBroker
