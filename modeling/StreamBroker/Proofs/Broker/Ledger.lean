import Mathlib.Data.List.Perm.Subperm
import StreamBroker.Proofs.Broker.Deeds

/-!
# The ledger of a broker

Pulls and subscriptions are told apart by numbers that are not used again, and the pull of a
subscription is its own.  This is kept in whatever way pulls begin, look, end and are asked about,
as long as nobody else knows the number of the pull of a subscription.

## Main definitions

* `Broker.pullIds`: the pulls that wait or are over
* `Broker.Ledger`: pulls and subscriptions are told apart
* `Broker.Shrinks`: nothing is begun, and no pull of a subscription is lost

## Main results

* `Broker.Ledger.shrinks`, `Broker.Ledger.begun`, `Broker.Ledger.subscribed`: what keeps the ledger
* `Broker.startPull_ends`: a pull that begins is over at once, or waits
* `Broker.dropSubscription_eq`: a subscription that ends takes its pull with it
-/

namespace StreamBroker

/-- Two subscriptions differ in nothing but what they hold and wait for. -/
structure Subscription.SamePost (u v : Subscription) : Prop where
  /-- They have one number. -/
  id_eq : v.id = u.id
  /-- They pull from one stream. -/
  stream_eq : v.stream = u.stream
  /-- They pull for one consumer. -/
  consumer_eq : v.consumer = u.consumer
  /-- They pull for as much. -/
  batch_eq : v.batch = u.batch

theorem Subscription.SamePost.refl (u : Subscription) : u.SamePost u := ⟨rfl, rfl, rfl, rfl⟩

namespace Broker

variable {b b' t : Broker} {p q : Pull} {u v : Subscription} {stream consumer id i : Nat}
  {r : PullRequest}

/-- The numbers of the pulls that wait or are over. -/
def pullIds (b : Broker) : List Nat := b.pulls.map (·.id) ++ b.outcomes.map (·.pull)

/-! ## What is touched -/

@[simp] theorem pullIds_modifyConsumer (b : Broker) (stream consumer : Nat)
    (f : Consumer → Consumer) : (b.modifyConsumer stream consumer f).pullIds = b.pullIds := by
  rw [pullIds, pulls_modifyConsumer, outcomes_modifyConsumer, pullIds]

theorem mem_of_subscription? (h : b.subscription? id = some u) :
    u ∈ b.subscriptions ∧ u.id = id :=
  ⟨List.mem_of_find?_eq_some h, by simpa using List.find?_some h⟩

/-- A subscription is put in the place of the one with its number. -/
theorem subscriptionIds_putSubscription (b : Broker) (u : Subscription) :
    (b.putSubscription u).subscriptions.map (·.id) = b.subscriptions.map (·.id) := by
  simp only [putSubscription, List.map_map]
  refine List.map_congr_left fun v _ => ?_
  show (if v.id == u.id then u else v).id = v.id
  split
  · next heq => exact (beq_iff_eq.1 heq).symm
  · rfl

theorem mem_of_pull? (h : b.pull? id = some p) : p ∈ b.pulls ∧ p.id = id :=
  ⟨List.mem_of_find?_eq_some h, by simpa using List.find?_some h⟩

/-- A pull that looks goes on waiting or is over, but is not lost. -/
theorem pullIds_lookOnce (p : Pull) (b : Broker) :
    (lookOnce p b).pullIds.Perm (p.id :: b.pullIds) := by
  obtain ⟨_, _, _, ⟨result, -, h⟩ | ⟨q, hsame, -, h⟩⟩ := lookOnce_cases p b
  · rw [h]
    simp only [pullIds, List.map_append, List.map_cons, List.map_nil, ← List.append_assoc]
    exact List.perm_append_singleton _ _
  · rw [h]
    simp only [pullIds, List.map_append, List.map_cons, List.map_nil, hsame.id_eq,
      List.append_assoc, List.singleton_append]
    exact List.perm_middle

theorem subscriptions_lookAgain (p : Pull) (b : Broker) :
    (lookAgain p b).subscriptions = b.subscriptions := by
  rw [lookAgain]
  obtain ⟨_, _, _, ⟨result, -, h⟩ | ⟨q, -, -, h⟩⟩ := lookOnce_cases p (b.withoutPull p.id)
  · rw [h]
    rfl
  · rw [h]
    rfl

/-- Only a pull of a consumer that is there goes on waiting. -/
theorem liveConsumer_of_waits (h : (glance p b).1 = .waits q) :
    ∃ s c, b.liveConsumer p.stream p.consumer = .ok (s, c) := by
  rw [glance] at h
  cases hlive : b.liveConsumer p.stream p.consumer with
  | error e =>
    rw [hlive] at h
    cases h
  | ok found => exact ⟨found.1, found.2, rfl⟩

/-! ## The ledger -/

/-- Pulls and subscriptions are told apart by numbers that were given, and the pull of a
subscription is its own. -/
structure Ledger (b : Broker) : Prop where
  /-- No two pulls have one number. -/
  ids : b.pullIds.Nodup
  /-- The numbers of pulls were given. -/
  id_lt : ∀ i ∈ b.pullIds, i < b.nextId
  /-- Pulls ask for something. -/
  batch_ne : ∀ p ∈ b.pulls, p.request.batch ≠ 0
  /-- Pulls wait for consumers that have been there. -/
  place_lt : ∀ p ∈ b.pulls, p.stream < b.nextId ∧ p.consumer < b.nextId
  /-- No two subscriptions have one number. -/
  subscriptionIds : (b.subscriptions.map (·.id)).Nodup
  /-- The numbers of subscriptions were given, and theirs of streams and consumers. -/
  subscription_lt : ∀ u ∈ b.subscriptions,
    u.id < b.nextId ∧ u.stream < b.nextId ∧ u.consumer < b.nextId
  /-- The pull of a subscription waits or is over. -/
  pull_mem : ∀ u ∈ b.subscriptions, ∀ i, u.pull = some i → i ∈ b.pullIds
  /-- No two subscriptions have one pull. -/
  apart : ∀ u ∈ b.subscriptions, ∀ v ∈ b.subscriptions, ∀ i, u.pull = some i → v.pull = some i →
    u = v
  /-- The pull of a subscription is one of its consumer, for as much as goes into the queue. -/
  own : ∀ u ∈ b.subscriptions, ∀ p ∈ b.pulls, u.pull = some p.id →
    p.stream = u.stream ∧ p.consumer = u.consumer ∧ p.request = { batch := u.batch }

/-- Nothing is begun, and no pull of a subscription is lost. -/
structure Shrinks (b b' : Broker) : Prop where
  /-- Numbers are not taken back. -/
  nextId_le : b.nextId ≤ b'.nextId
  /-- Pulls have waited before, or are over. -/
  pullIds : b'.pullIds.Subperm b.pullIds
  /-- A pull that waits has waited before. -/
  pulls : ∀ q ∈ b'.pulls, ∃ p ∈ b.pulls, p.SameRequest q
  /-- Subscriptions were there before, -/
  subscriptionIds : (b'.subscriptions.map (·.id)).Sublist (b.subscriptions.map (·.id))
  /-- and have their pulls, or have received what came of them. -/
  subscriptions : ∀ v ∈ b'.subscriptions, ∃ u ∈ b.subscriptions, u.SamePost v ∧
    (v.pull = none ∨ v.pull = u.pull ∧ ∀ i, u.pull = some i → i ∈ b'.pullIds)

theorem Shrinks.of_eq (hnext : b.nextId ≤ b'.nextId) (hpulls : b'.pulls = b.pulls)
    (houtcomes : b'.outcomes = b.outcomes) (hsubscriptions : b'.subscriptions = b.subscriptions)
    (hb : b.Ledger) : b.Shrinks b' := by
  have hids : b'.pullIds = b.pullIds := by rw [Broker.pullIds, hpulls, houtcomes, Broker.pullIds]
  refine ⟨hnext, hids ▸ List.Subperm.refl _, fun q hq => ⟨q, hpulls ▸ hq, .refl q⟩,
    hsubscriptions ▸ List.Sublist.refl _, fun v hv => ?_⟩
  rw [hsubscriptions] at hv
  exact ⟨v, hv, .refl v, .inr ⟨rfl, fun i hi => hids ▸ hb.pull_mem v hv i hi⟩⟩

namespace Ledger

/-- Where nothing waits there is nothing to tell apart. -/
theorem of_nil (hpulls : b.pulls = []) (houtcomes : b.outcomes = [])
    (hsubscriptions : b.subscriptions = []) : b.Ledger := by
  refine ⟨?_, ?_, ?_, ?_, ?_, ?_, ?_, ?_, ?_⟩ <;>
    simp [pullIds, hpulls, houtcomes, hsubscriptions]

/-- Subscriptions of one number are one. -/
theorem eq_of_id (hb : b.Ledger) (hu : u ∈ b.subscriptions) (hv : v ∈ b.subscriptions)
    (h : u.id = v.id) : u = v :=
  List.inj_on_of_nodup_map hb.subscriptionIds hu hv h

theorem subscription?_eq (hb : b.Ledger) (hu : u ∈ b.subscriptions) :
    b.subscription? u.id = some u := by
  have hfound : (b.subscription? u.id).isSome :=
    List.find?_isSome.2 ⟨u, hu, beq_self_eq_true u.id⟩
  obtain ⟨v, hv⟩ := Option.isSome_iff_exists.1 hfound
  obtain ⟨hmem, hid⟩ := mem_of_subscription? hv
  rw [hv, hb.eq_of_id hmem hu hid]

theorem shrinks (hb : b.Ledger) (h : b.Shrinks b') : b'.Ledger where
  ids := by
    obtain ⟨l, hperm, hsublist⟩ := h.pullIds
    exact hperm.nodup_iff.1 (hb.ids.sublist hsublist)
  id_lt i hi := Nat.lt_of_lt_of_le (hb.id_lt i (h.pullIds.subset hi)) h.nextId_le
  batch_ne q hq := by
    obtain ⟨p, hp, hsame⟩ := h.pulls q hq
    exact hsame.request_eq ▸ hb.batch_ne p hp
  place_lt q hq := by
    obtain ⟨p, hp, hsame⟩ := h.pulls q hq
    rw [hsame.stream_eq, hsame.consumer_eq]
    exact (hb.place_lt p hp).imp (Nat.lt_of_lt_of_le · h.nextId_le)
      (Nat.lt_of_lt_of_le · h.nextId_le)
  subscriptionIds := hb.subscriptionIds.sublist h.subscriptionIds
  subscription_lt v hv := by
    obtain ⟨u, hu, hsame, -⟩ := h.subscriptions v hv
    obtain ⟨hid, hstream, hconsumer⟩ := hb.subscription_lt u hu
    rw [hsame.id_eq, hsame.stream_eq, hsame.consumer_eq]
    exact ⟨Nat.lt_of_lt_of_le hid h.nextId_le, Nat.lt_of_lt_of_le hstream h.nextId_le,
      Nat.lt_of_lt_of_le hconsumer h.nextId_le⟩
  pull_mem v hv i hi := by
    obtain ⟨u, hu, -, hnone | ⟨heq, hkept⟩⟩ := h.subscriptions v hv
    · rw [hnone] at hi
      cases hi
    · exact hkept i (heq ▸ hi)
  apart v hv w hw i hvi hwi := by
    obtain ⟨u, hu, hsame, hnone | ⟨heq, -⟩⟩ := h.subscriptions v hv
    · rw [hnone] at hvi
      cases hvi
    obtain ⟨t, ht, hsame', hnone | ⟨heq', -⟩⟩ := h.subscriptions w hw
    · rw [hnone] at hwi
      cases hwi
    -- They were one before, and no subscription was doubled.
    obtain rfl := hb.apart u hu t ht i (heq ▸ hvi) (heq' ▸ hwi)
    refine List.inj_on_of_nodup_map (hb.subscriptionIds.sublist h.subscriptionIds) hv hw ?_
    rw [hsame.id_eq, hsame'.id_eq]
  own v hv q hq hpull := by
    obtain ⟨u, hu, hpost, hnone | ⟨heq, -⟩⟩ := h.subscriptions v hv
    · rw [hnone] at hpull
      cases hpull
    obtain ⟨p, hp, hsame⟩ := h.pulls q hq
    obtain ⟨hstream, hconsumer, hrequest⟩ := hb.own u hu p hp (hsame.id_eq ▸ heq ▸ hpull)
    exact ⟨by rw [hsame.stream_eq, hpost.stream_eq, hstream],
      by rw [hsame.consumer_eq, hpost.consumer_eq, hconsumer],
      by rw [hsame.request_eq, hpost.batch_eq, hrequest]⟩

/-- A pull is begun under a new number. -/
theorem begun (hb : b.Ledger) (hnext : b'.nextId = b.nextId + 1)
    (hids : b'.pullIds.Perm (b.nextId :: b.pullIds))
    (hpulls : ∀ q ∈ b'.pulls, q ∈ b.pulls ∨ q.id = b.nextId ∧ q.request.batch ≠ 0 ∧
      q.stream < b'.nextId ∧ q.consumer < b'.nextId)
    (hsubscriptions : b'.subscriptions = b.subscriptions) : b'.Ledger where
  ids := hids.nodup_iff.2 (List.nodup_cons.2 ⟨fun h => Nat.lt_irrefl _ (hb.id_lt _ h), hb.ids⟩)
  id_lt i hi := by
    rw [hnext]
    rcases List.mem_cons.1 (hids.mem_iff.1 hi) with rfl | hi
    · exact Nat.lt_succ_self _
    · exact Nat.lt_succ_of_lt (hb.id_lt i hi)
  batch_ne q hq := (hpulls q hq).elim (hb.batch_ne q) (·.2.1)
  place_lt q hq := by
    refine (hpulls q hq).elim (fun hq => ?_) (·.2.2)
    rw [hnext]
    exact (hb.place_lt q hq).imp Nat.lt_succ_of_lt Nat.lt_succ_of_lt
  subscriptionIds := hsubscriptions ▸ hb.subscriptionIds
  subscription_lt u hu := by
    obtain ⟨hid, hstream, hconsumer⟩ := hb.subscription_lt u (hsubscriptions ▸ hu)
    rw [hnext]
    exact ⟨Nat.lt_succ_of_lt hid, Nat.lt_succ_of_lt hstream, Nat.lt_succ_of_lt hconsumer⟩
  pull_mem u hu i hi :=
    hids.mem_iff.2 (List.mem_cons_of_mem _ (hb.pull_mem u (hsubscriptions ▸ hu) i hi))
  apart u hu v hv := hb.apart u (hsubscriptions ▸ hu) v (hsubscriptions ▸ hv)
  own u hu q hq hpull := by
    rw [hsubscriptions] at hu
    rcases hpulls q hq with hq | ⟨hid, -⟩
    · exact hb.own u hu q hq hpull
    · -- No subscription has had a pull of a number that is new.
      exact absurd (hb.id_lt _ (hb.pull_mem u hu q.id hpull)) (hid ▸ Nat.lt_irrefl _)

/-- A pull that is nobody's is taken over by a subscription that has none. -/
theorem assign (hb : b.Ledger) (hu : u ∈ b.subscriptions) (hi : i ∈ b.pullIds)
    (hfree : ∀ v ∈ b.subscriptions, v.pull ≠ some i)
    (hown : ∀ p ∈ b.pulls, p.id = i →
      p.stream = u.stream ∧ p.consumer = u.consumer ∧ p.request = { batch := u.batch }) :
    (b.putSubscription { u with pull := some i }).Ledger := by
  have hids := subscriptionIds_putSubscription b { u with pull := some i }
  have hmem {v : Subscription}
      (hv : v ∈ (b.putSubscription { u with pull := some i }).subscriptions) :
      v = { u with pull := some i } ∨ v ∈ b.subscriptions :=
    (mem_putSubscription hv).imp_right And.left
  exact {
    ids := hb.ids
    id_lt := hb.id_lt
    batch_ne := hb.batch_ne
    place_lt := hb.place_lt
    subscriptionIds := hids ▸ hb.subscriptionIds
    subscription_lt := by
      intro v hv
      rcases hmem hv with rfl | hv
      · exact hb.subscription_lt u hu
      · exact hb.subscription_lt v hv
    pull_mem := by
      intro v hv j hj
      rcases hmem hv with rfl | hv
      · cases hj
        exact hi
      · exact hb.pull_mem v hv j hj
    apart := by
      intro v hv w hw j hvj hwj
      rcases hmem hv with rfl | hv <;> rcases hmem hw with rfl | hw
      · rfl
      · cases hvj
        exact absurd hwj (hfree w hw)
      · cases hwj
        exact absurd hvj (hfree v hv)
      · exact hb.apart v hv w hw j hvj hwj
    own := by
      intro v hv p hp hpull
      rcases hmem hv with rfl | hv
      · exact hown p hp (Option.some.inj hpull).symm
      · exact hb.own v hv p hp hpull }

/-- A subscription begins, of a consumer that has been there. -/
theorem subscribed {batch : Nat} (hb : b.Ledger) (hnext : b'.nextId = b.nextId + 1)
    (hpulls : b'.pulls = b.pulls) (houtcomes : b'.outcomes = b.outcomes)
    (hsubscriptions : b'.subscriptions =
      b.subscriptions ++ [{ id := b.nextId, stream, consumer, batch }])
    (hstream : stream < b.nextId) (hconsumer : consumer < b.nextId) : b'.Ledger := by
  have hids : b'.pullIds = b.pullIds := by rw [pullIds, hpulls, houtcomes, pullIds]
  have hmem {v : Subscription} (hv : v ∈ b'.subscriptions) :
      v ∈ b.subscriptions ∨ v = { id := b.nextId, stream, consumer, batch } := by
    rw [hsubscriptions] at hv
    exact (List.mem_append.1 hv).imp_right List.mem_singleton.1
  exact {
    ids := hids ▸ hb.ids
    id_lt := fun i hi => hnext ▸ Nat.lt_succ_of_lt (hb.id_lt i (hids ▸ hi))
    batch_ne := hpulls ▸ hb.batch_ne
    place_lt := by
      intro p hp
      rw [hnext]
      exact (hb.place_lt p (hpulls ▸ hp)).imp Nat.lt_succ_of_lt Nat.lt_succ_of_lt
    subscriptionIds := by
      rw [hsubscriptions, List.map_append, List.nodup_append]
      refine ⟨hb.subscriptionIds, List.pairwise_singleton .., fun i hi j hj => ?_⟩
      obtain ⟨u, hu, rfl⟩ := List.mem_map.1 hi
      obtain rfl : j = b.nextId := List.mem_singleton.1 hj
      exact Nat.ne_of_lt (hb.subscription_lt u hu).1
    subscription_lt := by
      intro v hv
      rw [hnext]
      rcases hmem hv with hv | rfl
      · obtain ⟨hid, hstream, hconsumer⟩ := hb.subscription_lt v hv
        exact ⟨Nat.lt_succ_of_lt hid, Nat.lt_succ_of_lt hstream, Nat.lt_succ_of_lt hconsumer⟩
      · exact ⟨Nat.lt_succ_self _, Nat.lt_succ_of_lt hstream, Nat.lt_succ_of_lt hconsumer⟩
    -- The new subscription has no pull yet.
    pull_mem := by
      intro v hv i hi
      rcases hmem hv with hv | rfl
      · exact hids ▸ hb.pull_mem v hv i hi
      · cases hi
    apart := by
      intro v hv w hw i hvi hwi
      rcases hmem hv with hv | rfl
      · rcases hmem hw with hw | rfl
        · exact hb.apart v hv w hw i hvi hwi
        · cases hwi
      · cases hvi
    own := by
      intro v hv p hp hpull
      rcases hmem hv with hv | rfl
      · exact hb.own v hv p (hpulls ▸ hp) hpull
      · cases hpull }

theorem of_eq (hb : b.Ledger) (hnext : b.nextId ≤ b'.nextId) (hpulls : b'.pulls = b.pulls)
    (houtcomes : b'.outcomes = b.outcomes) (hsubscriptions : b'.subscriptions = b.subscriptions) :
    b'.Ledger := hb.shrinks (.of_eq hnext hpulls houtcomes hsubscriptions hb)

/-- What a subscription holds may change. -/
theorem putSubscription (hb : b.Ledger) (hu : u ∈ b.subscriptions) (hpost : u.SamePost v)
    (hpull : v.pull = none ∨ v.pull = u.pull) : (b.putSubscription v).Ledger := by
  refine hb.shrinks ⟨Nat.le_refl _, List.Subperm.refl _, fun q hq => ⟨q, hq, .refl q⟩, ?_,
    fun w hw => ?_⟩
  · rw [subscriptionIds_putSubscription]
  · rcases mem_putSubscription hw with rfl | ⟨hw, -⟩
    · exact ⟨u, hu, hpost, hpull.imp_right fun heq => ⟨heq, hb.pull_mem u hu⟩⟩
    · exact ⟨w, hw, .refl w, .inr ⟨rfl, hb.pull_mem w hw⟩⟩

/-- A pull that is no subscription's may end without an outcome. -/
theorem withoutPull (hb : b.Ledger) (hfree : ∀ u ∈ b.subscriptions, u.pull ≠ some id) :
    (b.withoutPull id).Ledger := by
  have hsublist : (b.withoutPull id).pullIds.Sublist b.pullIds :=
    (List.filter_sublist.map _).append (List.Sublist.refl _)
  refine hb.shrinks ⟨Nat.le_refl _, hsublist.subperm,
    fun q hq => ⟨q, (List.mem_filter.1 hq).1, .refl q⟩, List.Sublist.refl _, fun v hv =>
    ⟨v, hv, .refl v, .inr ⟨rfl, fun i hi => ?_⟩⟩⟩
  have hne : i ≠ id := fun heq => hfree v hv (heq ▸ hi)
  rcases List.mem_append.1 (hb.pull_mem v hv i hi) with hmem | hmem
  · obtain ⟨p, hp, rfl⟩ := List.mem_map.1 hmem
    exact List.mem_append_left _
      (List.mem_map_of_mem (List.mem_filter.2 ⟨hp, bne_iff_ne.2 hne⟩))
  · exact List.mem_append_right _ hmem

/-- What came of a pull that is no subscription's may be forgotten. -/
theorem forgetOutcome (hb : b.Ledger) (hfree : ∀ u ∈ b.subscriptions, u.pull ≠ some id) :
    (b.forgetOutcome id).Ledger := by
  have hsublist : (b.forgetOutcome id).pullIds.Sublist b.pullIds :=
    (List.Sublist.refl _).append (List.filter_sublist.map _)
  refine hb.shrinks ⟨Nat.le_refl _, hsublist.subperm, fun q hq => ⟨q, hq, .refl q⟩,
    List.Sublist.refl _, fun v hv => ⟨v, hv, .refl v, .inr ⟨rfl, fun i hi => ?_⟩⟩⟩
  have hne : i ≠ id := fun heq => hfree v hv (heq ▸ hi)
  rcases List.mem_append.1 (hb.pull_mem v hv i hi) with hmem | hmem
  · exact List.mem_append_left _ hmem
  · obtain ⟨o, ho, rfl⟩ := List.mem_map.1 hmem
    exact List.mem_append_right _
      (List.mem_map_of_mem (List.mem_filter.2 ⟨ho, bne_iff_ne.2 hne⟩))

/-- A pull is one among all that wait. -/
theorem perm_withoutPull (hb : b.Ledger) (hp : p ∈ b.pulls) :
    b.pulls.Perm (p :: (b.withoutPull p.id).pulls) := by
  have hids : (b.pulls.map (·.id)).Nodup := (List.nodup_append.1 hb.ids).1
  obtain ⟨l₁, l₂, heq⟩ := List.append_of_mem hp
  have hpulls : (b.withoutPull p.id).pulls = l₁ ++ l₂ := by
    rw [heq, List.map_append, List.map_cons, List.nodup_append] at hids
    obtain ⟨-, hlater, hapart⟩ := hids
    rw [Broker.withoutPull, heq, List.filter_append, List.filter_cons_of_neg (by simp)]
    refine congrArg₂ _ (List.filter_eq_self.2 fun q hq => bne_iff_ne.2 ?_)
      (List.filter_eq_self.2 fun q hq => bne_iff_ne.2 fun hid => ?_)
    · exact hapart _ (List.mem_map_of_mem hq) _ List.mem_cons_self
    · exact (List.nodup_cons.1 hlater).1 (hid ▸ List.mem_map_of_mem hq)
  rw [hpulls, heq]
  exact List.perm_middle

/-- A pull that looks again waits as before, or is over. -/
theorem lookAgain (hb : b.Ledger) (hp : p ∈ b.pulls) : (Broker.lookAgain p b).Ledger := by
  have hids : (Broker.lookAgain p b).pullIds.Perm b.pullIds :=
    (pullIds_lookOnce p (b.withoutPull p.id)).trans
      (((hb.perm_withoutPull hp).map (·.id)).append_right _).symm
  have hquiet := quiet_lookAgain hp
  have hsubscriptions := subscriptions_lookAgain p b
  refine hb.shrinks ⟨hquiet.nextId_le, hids.subperm, hquiet.pulls,
    hsubscriptions ▸ List.Sublist.refl _, fun v hv => ?_⟩
  rw [hsubscriptions] at hv
  exact ⟨v, hv, .refl v, .inr ⟨rfl, fun i hi => hids.mem_iff.2 (hb.pull_mem v hv i hi)⟩⟩

/-- Whoever waits for a pull, it stays the pull it is. -/
theorem park (hb : b.Ledger) (id : Nat) (parked : Bool) : (Broker.park id parked b).Ledger := by
  have hids : (Broker.park id parked b).pullIds = b.pullIds := by
    simp only [pullIds, Broker.park, List.map_map]
    refine congrArg (· ++ _) (List.map_congr_left fun p _ => ?_)
    show (if p.id == id then { p with parked } else p).id = p.id
    split <;> rfl
  refine hb.shrinks ⟨Nat.le_refl _, hids ▸ List.Subperm.refl _, fun q hq => ?_,
    List.Sublist.refl _, fun v hv => ⟨v, hv, .refl v, .inr ⟨rfl, hids ▸ hb.pull_mem v hv⟩⟩⟩
  obtain ⟨p, hp, rfl⟩ := List.mem_map.1 hq
  refine ⟨p, hp, ?_⟩
  split <;> exact ⟨rfl, rfl, rfl, rfl⟩

/-- What came of a pull is received by the subscription that it belongs to. -/
theorem receiveOutcome (hb : b.Ledger) (hu : u ∈ b.subscriptions) :
    ((Broker.receiveOutcome u b).2.putSubscription (Broker.receiveOutcome u b).1).Ledger := by
  rcases receiveOutcome_cases u b with heq | ⟨i, r, hi, -, heq⟩
  · rw [heq]
    exact hb.putSubscription hu (.refl u) (.inr rfl)
  · rw [heq]
    obtain ⟨hpost, hnone⟩ : u.SamePost (u.receive r) ∧ (u.receive r).pull = none := by
      cases r <;> exact ⟨⟨rfl, rfl, rfl, rfl⟩, rfl⟩
    -- Its pull was its own, so nobody else misses what came of it.
    refine (hb.putSubscription hu hpost (.inl hnone)).forgetOutcome fun v hv hpull => ?_
    rcases mem_putSubscription hv with rfl | ⟨hv, hne⟩
    · rw [hnone] at hpull
      cases hpull
    · exact hne (hpost.id_eq ▸ congrArg _ (hb.apart v hv u hu i hpull hi))

end Ledger

/-! ## Pulls that begin -/

/-- A pull that begins is over at once, or it waits behind all others for a consumer that is
there. -/
theorem startPull_ends (stream consumer : Nat) (r : PullRequest) (b : Broker) :
    (∃ result, (startPull stream consumer r b).2.pulls = b.pulls ∧
      (startPull stream consumer r b).2.outcomes = b.outcomes ++ [⟨b.nextId, result⟩]) ∨
    ∃ q s c, (startPull stream consumer r b).2.pulls = b.pulls ++ [q] ∧
      (startPull stream consumer r b).2.outcomes = b.outcomes ∧ q.id = b.nextId ∧
      q.stream = stream ∧ q.consumer = consumer ∧ q.request = r ∧ r.batch ≠ 0 ∧
      (b.enlist stream consumer).liveConsumer stream consumer = .ok (s, c) := by
  cases startsPull stream consumer r b with
  | refused hcheck heq =>
    rw [heq]
    exact .inl ⟨_, rfl, rfl⟩
  | full hfound hcheck hmay ht heq =>
    -- The attempt is noted with the consumer, and no pull is.
    subst ht
    rw [heq]
    exact .inl ⟨_, pulls_modifyConsumer .., congrArg (· ++ _) (outcomes_modifyConsumer ..)⟩
  | @looks c deadline hfound hcheck hmay heq =>
    rw [heq]
    obtain ⟨_, _, _, ⟨result, -, h⟩ | ⟨q, hsame, ⟨w, hwaits⟩, h⟩⟩ := lookOnce_cases
      { id := b.nextId, stream, consumer, request := r, deadline, wake := deadline }
      (b.enlist stream consumer)
    · rw [h]
      exact .inl ⟨_, pulls_enlist .., congrArg (· ++ _) (outcomes_enlist ..)⟩
    · obtain ⟨s, c, hlive⟩ := liveConsumer_of_waits hwaits
      rw [h]
      exact .inr ⟨q, s, c, congrArg (· ++ _) (pulls_enlist ..), outcomes_enlist .., hsame.id_eq,
        hsame.stream_eq, hsame.consumer_eq, hsame.request_eq, batch_ne_of_check hcheck, hlive⟩

theorem pullIds_startPull (stream consumer : Nat) (r : PullRequest) (b : Broker) :
    (startPull stream consumer r b).2.pullIds.Perm (b.nextId :: b.pullIds) := by
  rcases startPull_ends stream consumer r b with
    ⟨result, hpulls, houtcomes⟩ | ⟨q, s, c, hpulls, houtcomes, hid, -⟩
  · rw [pullIds, hpulls, houtcomes, List.map_append, ← List.append_assoc]
    exact List.perm_append_singleton _ _
  · rw [pullIds, hpulls, houtcomes, List.map_append, List.append_assoc, List.map_singleton, hid]
    exact List.perm_middle

theorem startPull_fst (stream consumer : Nat) (r : PullRequest) (b : Broker) :
    (startPull stream consumer r b).1 = b.nextId := by
  cases startsPull stream consumer r b with
  | refused _ heq | full _ _ _ _ heq | looks _ _ _ heq => rw [heq]

/-- A pull that begins is told apart from all others. -/
theorem Ledger.startPull (hb : b.Ledger) (hs : b.Staffed) (stream consumer : Nat)
    (r : PullRequest) : (Broker.startPull stream consumer r b).2.Ledger := by
  obtain ⟨-, hsubscriptions, hnext⟩ := begins_startPull stream consumer r b
  have hids := pullIds_startPull stream consumer r b
  rcases startPull_ends stream consumer r b with
    ⟨result, hpulls, -⟩ | ⟨q, s, c, hpulls, -, hid, rfl, rfl, rfl, hne, hlive⟩
  · exact hb.begun hnext hids (fun p hp => .inl (hpulls ▸ hp)) hsubscriptions
  · refine hb.begun hnext hids (fun p hp => ?_) hsubscriptions
    rw [hpulls] at hp
    refine (List.mem_append.1 hp).imp_right fun hp => ?_
    obtain rfl := List.mem_singleton.1 hp
    have hstaffed := hs.enlist p.stream p.consumer
    obtain ⟨hmem, hstream, hc, hconsumer⟩ := hstaffed.has_of_liveConsumer hlive
    have hstream_lt := hstaffed.id_lt _ (mem_streamIds hmem)
    have hconsumer_lt := hstaffed.consumer_lt s hmem c hc
    rw [hstream, nextId_enlist] at hstream_lt
    rw [hconsumer, nextId_enlist] at hconsumer_lt
    exact ⟨hid, hne, hnext ▸ hstream_lt, hnext ▸ hconsumer_lt⟩

/-- The pull that a subscription begins is its own. -/
theorem Ledger.beginPull (hb : b.Ledger) (hs : b.Staffed) (hu : u ∈ b.subscriptions) :
    (Broker.beginPull u b).Ledger := by
  have hids := pullIds_startPull u.stream u.consumer { batch := u.batch } b
  obtain ⟨-, hsubscriptions, -⟩ := begins_startPull u.stream u.consumer { batch := u.batch } b
  have hid := startPull_fst u.stream u.consumer { batch := u.batch } b
  rw [Broker.beginPull]
  dsimp only
  rw [hid]
  refine (hb.startPull hs _ _ _).assign (hsubscriptions ▸ hu)
    (hids.mem_iff.2 List.mem_cons_self) (fun v hv hpull => ?_) fun p hp hpid => ?_
  · exact Nat.lt_irrefl _ (hb.id_lt _ (hb.pull_mem v (hsubscriptions ▸ hv) _ hpull))
  · have hold : p ∉ b.pulls := fun hp =>
      Nat.lt_irrefl _ (hb.id_lt _ (hpid ▸ List.mem_append_left _ (List.mem_map_of_mem hp)))
    rcases startPull_ends u.stream u.consumer { batch := u.batch } b with
      ⟨result, hpulls, -⟩ | ⟨q, s, c, hpulls, -, -, hstream, hconsumer, hrequest, -⟩
    · exact absurd (hpulls ▸ hp) hold
    · rw [hpulls] at hp
      obtain rfl := List.mem_singleton.1 ((List.mem_append.1 hp).resolve_left hold)
      exact ⟨hstream, hconsumer, hrequest⟩

/-- A pull that is given up does not wait any more. -/
theorem abortPull_eq (id : Nat) (b : Broker) : ∃ streams formerStreams,
    abortPull id b = { b with
      streams, formerStreams, pulls := b.pulls.filter fun p => p.id != id } := by
  rw [abortPull]
  cases hp : b.pull? id with
  | some p =>
    obtain ⟨streams, formerStreams, h⟩ := modifyConsumer_eq (b.withoutPull id) p.stream p.consumer
      (·.mapCursor (·.removeWaiting b.now))
    exact ⟨streams, formerStreams, h⟩
  | none =>
    have hpulls : (b.pulls.filter fun p => p.id != id) = b.pulls :=
      List.filter_eq_self.2 fun p hp' => by simpa using List.find?_eq_none.1 hp p hp'
    exact ⟨b.streams, b.formerStreams, by rw [hpulls]⟩

/-- A subscription that ends takes its pull with it, and what came of it. -/
theorem dropSubscription_eq (hu : b.subscription? id = some u) : ∃ streams formerStreams,
    dropSubscription id b = { b with
      streams, formerStreams
      pulls := b.pulls.filter fun p => u.pull ≠ some p.id
      outcomes := b.outcomes.filter fun o => u.pull ≠ some o.pull
      subscriptions := b.subscriptions.filter fun v => v.id != id } := by
  cases hpull : u.pull with
  | none =>
    obtain ⟨streams, formerStreams, h⟩ :=
      modifyConsumer_eq b u.stream u.consumer (Attendance.unbind.change b.now)
    have hdrop : dropSubscription id b =
        { b.modifyConsumer u.stream u.consumer (Attendance.unbind.change b.now) with
          subscriptions := (b.modifyConsumer u.stream u.consumer
            (Attendance.unbind.change b.now)).subscriptions.filter fun v => v.id != id } := by
      simp only [dropSubscription, hu, hpull]
      rfl
    refine ⟨streams, formerStreams, ?_⟩
    rw [hdrop, h]
    simp
  | some i =>
    -- Its pull is given up where it waits, and forgotten where it is over.
    obtain ⟨ss, fs, habort⟩ := abortPull_eq i b
    obtain ⟨streams, formerStreams, h⟩ := modifyConsumer_eq ((abortPull i b).forgetOutcome i)
      u.stream u.consumer (Attendance.unbind.change (abortPull i b).now)
    have hdrop : dropSubscription id b =
        { ((abortPull i b).forgetOutcome i).modifyConsumer u.stream u.consumer
            (Attendance.unbind.change (abortPull i b).now) with
          subscriptions := (((abortPull i b).forgetOutcome i).modifyConsumer u.stream u.consumer
            (Attendance.unbind.change (abortPull i b).now)).subscriptions.filter
              fun v => v.id != id } := by
      simp only [dropSubscription, hu, hpull]
      rfl
    refine ⟨streams, formerStreams, ?_⟩
    rw [hdrop, h, habort]
    have hfilter {α : Type} (f : α → Nat) (l : List α) :
        (l.filter fun x => f x != i) = l.filter fun x => decide (some i ≠ some (f x)) :=
      List.filter_congr fun x _ => by
        rw [Bool.eq_iff_iff, bne_iff_ne, decide_eq_true_iff, Ne, Ne, Option.some_inj, eq_comm]
    simp only [forgetOutcome, hfilter]

/-- A subscription that ends takes nobody else's pull with it. -/
theorem Ledger.dropSubscription (hb : b.Ledger) (id : Nat) :
    (Broker.dropSubscription id b).Ledger := by
  cases hu : b.subscription? id with
  | none =>
    rw [Broker.dropSubscription, hu]
    exact hb
  | some u =>
    obtain ⟨hmem, rfl⟩ := mem_of_subscription? hu
    obtain ⟨_, _, h⟩ := dropSubscription_eq hu
    rw [h]
    refine hb.shrinks ⟨Nat.le_refl _, ?_, fun q hq => ⟨q, (List.mem_filter.1 hq).1, .refl q⟩,
      List.filter_sublist.map _, fun v hv => ?_⟩
    · exact ((List.filter_sublist.map _).append (List.filter_sublist.map _)).subperm
    · obtain ⟨hv, hne⟩ := List.mem_filter.1 hv
      refine ⟨v, hv, .refl v, .inr ⟨rfl, fun i hi => ?_⟩⟩
      -- No other subscription has the pull that goes, so what others wait for stays.
      have hother : u.pull ≠ some i := fun hi' =>
        bne_iff_ne.1 hne (congrArg _ (hb.apart v hv u hmem i hi hi'))
      rcases List.mem_append.1 (hb.pull_mem v hv i hi) with hi | hi
      · obtain ⟨p, hp, rfl⟩ := List.mem_map.1 hi
        exact List.mem_append_left _
          (List.mem_map_of_mem (List.mem_filter.2 ⟨hp, decide_eq_true hother⟩))
      · obtain ⟨o, ho, rfl⟩ := List.mem_map.1 hi
        exact List.mem_append_right _
          (List.mem_map_of_mem (List.mem_filter.2 ⟨ho, decide_eq_true hother⟩))

/-! ## Subscriptions that are put -/

theorem putSubscription_putSubscription (b : Broker) (h : v.id = u.id) :
    (b.putSubscription u).putSubscription v = b.putSubscription v := by
  simp only [putSubscription, List.map_map]
  congr 1
  refine List.map_congr_left fun w _ => ?_
  by_cases heq : w.id = u.id
  · simp [heq, h]
  · simp [heq, h]

theorem Ledger.putSubscription_self (hb : b.Ledger) (hu : u ∈ b.subscriptions) :
    b.putSubscription u = b := by
  have hsame : (b.subscriptions.map fun v => if v.id == u.id then u else v) = b.subscriptions := by
    refine (List.map_congr_left fun v hv => ?_).trans (List.map_id _)
    split
    · next heq => exact hb.eq_of_id hu hv (beq_iff_eq.1 heq).symm
    · rfl
  rw [Broker.putSubscription, hsame]

theorem mem_putSubscription_self (hu : u ∈ b.subscriptions) (h : v.id = u.id) :
    v ∈ (b.putSubscription v).subscriptions :=
  List.mem_map.2 ⟨u, hu, if_pos (beq_iff_eq.2 h.symm)⟩

end Broker

end StreamBroker
