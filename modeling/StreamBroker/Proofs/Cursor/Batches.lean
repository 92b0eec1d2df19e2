import StreamBroker.Proofs.Cursor.AnyOrder
import StreamBroker.Proofs.Cursor.Limits
import StreamBroker.Proofs.Cursor.PassedOver
import StreamBroker.Proofs.Index.Queries

/-!
# Pulls in any batches

One pull for many messages does what two pulls for some of them each do, one right behind the other.
The second one goes on where the first one stopped: what the first one has repeated is not due any
more, as long as the wait for an acknowledgement is not zero, what it has given up is not pending,
and what it has handed out is behind the cursor.  If the first one stopped for another reason than
that it had all that it may have, the second one gets nothing.  Only the floor is moved in between,
and no part of a pull looks at it.

## Main definitions

* `Cursor.walk`: a pull without the floor
* `Cursor.IsDone`: nothing is left to be handed out

## Main results

* `Cursor.walk_resume`: a walk may be interrupted
* `Cursor.walk_append`: a walk that begins with a haul adds to it
* `Cursor.walk_withNotes`: a walk does not look at the floor
* `Cursor.Course.collect_add`: two pulls are one
-/

namespace StreamBroker.Cursor

variable {settings : ConsumerSettings} {x₀ x : Index} {events : List CursorEvent} {c c' : Cursor}
  {h h' g : Haul} {m : StoredMessage} {ms ms' : List StoredMessage} {i k n : Nat} {now : Instant}

/-- The haul with a message that a cursor hands out for the first time. -/
def Haul.addNew (h : Haul) (c : Cursor) (m : StoredMessage) : Haul :=
  let h := h.add ⟨m, c.delivered.consumer + 1, 1⟩
  if c.settings.ackPolicy = .none then h.settle m.sequence else h

/-- The second part of a pull: what is new. -/
def deliverAhead (x : Index) (l : Limits) (now : Instant) (r : Cursor × Haul) : Cursor × Haul :=
  deliverNew x l now (x.startingAt r.1.nextSeq) r.1 r.2

/-- A pull without the floor: what is due, then what is new. -/
def walk (x : Index) (l : Limits) (now : Instant) (c : Cursor) (h : Haul) : Cursor × Haul :=
  deliverAhead x l now (redeliver x l now (c.due now) c h)

/-- The cursor behind a pull: the floor is moved if something was settled. -/
def withFloor (r : Cursor × Haul) : Cursor :=
  if r.2.settled.isEmpty then r.1 else r.1.advanceFloor

/-- A pull that may have any number of bytes reports nothing. -/
theorem pullInvariant_unreported (x : Index) (n : Nat) (now : Instant) :
    PullInvariant x { batch := n } now fun _ h => h.oversized = none where
  givenUp h := h
  repeated h _ _ := h
  delivered h _ _ _ := h
  settled h := h
  refused _ hfits := nomatch hfits
  ended h := h
  floor h := h

/-- A pull forgets what is gone, walks, and moves the floor. -/
theorem collect_eq (c : Cursor) (x : Index) (n : Nat) (now : Instant) :
    c.collect x { batch := n } now =
      (withFloor (walk x { batch := n } now ((c.dropRemoved x).touch now) {}),
        (walk x { batch := n } now ((c.dropRemoved x).touch now) {}).2) := by
  have hnone : (c.collectDue x { batch := n } now).2.oversized = none :=
    (pullInvariant_unreported x n now).redeliver _ rfl
  simp only [collect, hnone]
  rfl

/-! ## Going on with what is due -/

/-- What is due when the first of what is due is put off or given up. -/
theorem due_eq_of_cons {ns : List Nat} (hdue : c.due now = n :: ns)
    (hrest : ∀ k ≠ n, c'.pending.get? k = c.pending.get? k)
    (hfirst : ∀ p, c'.pending.get? n = some p → now < p.deadline) : c'.due now = ns := by
  have hascending : (n :: ns).Pairwise (· < ·) := hdue ▸ SeqMap.keys_ascending _
  refine eq_of_ascending id (SeqMap.keys_ascending _) hascending.of_cons fun k => ?_
  have hmem : k ∈ c.due now ↔ k = n ∨ k ∈ ns := by rw [hdue, List.mem_cons]
  rw [mem_due_iff] at hmem ⊢
  by_cases hk : k = n
  · subst hk
    constructor
    · rintro ⟨p, hp, hle⟩
      exact absurd (hfirst p hp) (Nat.not_lt_of_le hle)
    · exact fun hk => absurd (List.rel_of_pairwise_cons hascending hk) (Nat.lt_irrefl k)
  · rw [hrest k hk, hmem, or_iff_right hk]

theorem due_giveUp {ns : List Nat} (hdue : c.due now = n :: ns) : (c.giveUp n).due now = ns := by
  refine due_eq_of_cons hdue (fun k hk => ?_) fun p hp => ?_
  · rw [giveUp, SeqMap.get?_erase, if_neg hk]
  · rw [giveUp, SeqMap.get?_erase, if_pos rfl] at hp
    cases hp

theorem due_repeatDelivery {ns : List Nat} (hwait : now < c.redeliveryAt now)
    (hdue : c.due now = n :: ns) : (c.repeatDelivery now n).due now = ns := by
  refine due_eq_of_cons hdue (fun k hk => ?_) fun p hp => ?_
  · rw [repeatDelivery, SeqMap.get?_modify, if_neg hk]
  · rw [repeatDelivery, SeqMap.get?_modify, if_pos rfl, Option.map_eq_some_iff] at hp
    obtain ⟨q, -, rfl⟩ := hp
    exact hwait

theorem isReached_mono (hle : k ≤ i) (hreached : Limits.isReached { batch := k } h = false) :
    Limits.isReached { batch := i } h = false := by
  rw [Limits.isReached, decide_eq_false_iff_not, Nat.not_le] at hreached ⊢
  exact Nat.lt_of_lt_of_le hreached hle

/-- A walk over what is due may be interrupted, and one that has not all that it may have has come
to its end. -/
theorem redeliver_resume (hwait : now < c.redeliveryAt now) (hle : k ≤ i) (h : Haul) {ns : List Nat}
    (hdue : c.due now = ns) (hthere : ∀ n, c.pending.contains n = true → x.contains n = true) :
    redeliver x { batch := i } now ns c h =
        redeliver x { batch := i } now ((redeliver x { batch := k } now ns c h).1.due now)
          (redeliver x { batch := k } now ns c h).1 (redeliver x { batch := k } now ns c h).2 ∧
      (Limits.isReached { batch := k } (redeliver x { batch := k } now ns c h).2 = false →
        (redeliver x { batch := k } now ns c h).1.due now = []) := by
  induction ns generalizing c h with
  | nil =>
    rw [redeliver, redeliver, hdue]
    exact ⟨rfl, fun _ => rfl⟩
  | cons n ns ih =>
    cases hreached : Limits.isReached { batch := k } h with
    | true =>
      have hstop : redeliver x { batch := k } now (n :: ns) c h = (c, h) := by
        rw [redeliver, if_pos hreached]
      rw [hstop, hdue, hreached]
      exact ⟨rfl, fun h => by cases h⟩
    | false =>
      -- What is due is pending, and what is pending is there.
      obtain ⟨p, hp, -⟩ := (mem_due_iff c now n).1 (hdue ▸ List.mem_cons_self)
      obtain ⟨m, hm⟩ := Index.contains_iff.1 (hthere n (SeqMap.contains_iff.2 ⟨p, hp⟩))
      have hreached' := isReached_mono hle hreached
      simp only [redeliver, hreached, hreached', hm, hp, Limits.fits, Bool.false_eq_true, if_false,
        if_true]
      split
      · exact ih (c := c.giveUp n) hwait (h.settle n) (due_giveUp hdue) fun j hj => by
          rw [giveUp, SeqMap.contains_erase, Bool.and_eq_true] at hj
          exact hthere j hj.2
      · exact ih (c := c.repeatDelivery now n) hwait (h.add ⟨m, p.consumerSeq, p.deliveries + 1⟩)
          (due_repeatDelivery hwait hdue) fun j hj => by
            rw [repeatDelivery, SeqMap.contains_modify] at hj
            exact hthere j hj

/-! ## Going on with what is new -/

theorem deliverNew_of_stopped {l : Limits} (hstop : (l.isReached h || c.isBlocked) = true)
    (ms : List StoredMessage) : deliverNew x l now ms c h = (c, h) := by
  cases ms <;> rw [deliverNew, if_pos hstop]

theorem deliverNew_skip {l : Limits} (hgoes : ¬(l.isReached h || c.isBlocked) = true)
    (hskip : c.isEligible m.sequence m.subject = false) :
    deliverNew x l now (m :: ms) c h = deliverNew x l now ms c h := by
  rw [deliverNew, if_neg hgoes, hskip, if_pos (by simp)]

theorem deliverNew_take (hgoes : ¬(Limits.isReached { batch := k } h || c.isBlocked) = true)
    (htake : c.isEligible m.sequence m.subject = true) :
    deliverNew x { batch := k } now (m :: ms) c h =
      deliverNew x { batch := k } now ms (c.deliver now m.sequence) (h.addNew c m) := by
  have hnumber : (c.deliver now m.sequence).delivered.consumer = c.delivered.consumer + 1 := by
    rw [deliver]
    dsimp only
    split <;> rfl
  have hfits : Limits.fits { batch := k } h m.size = true := rfl
  rw [deliverNew, if_neg hgoes, htake, if_neg (by simp), if_pos hfits]
  dsimp only
  rw [hnumber, Haul.addNew]

/-- Only the messages that the consumer gets make a difference. -/
theorem deliverNew_filter (x : Index) (k : Nat) (now : Instant) (ms : List StoredMessage)
    (c : Cursor) (h : Haul) : deliverNew x { batch := k } now ms c h =
      deliverNew x { batch := k } now (ms.filter fun m => c.isEligible m.sequence m.subject) c h := by
  induction ms generalizing c h with
  | nil => rfl
  | cons m ms ih =>
    by_cases hstop : (Limits.isReached { batch := k } h || c.isBlocked) = true
    · rw [deliverNew_of_stopped hstop, deliverNew_of_stopped hstop]
    · cases heligible : c.isEligible m.sequence m.subject with
      | false =>
        rw [List.filter_cons_of_neg (by simp [heligible]), ← ih, deliverNew_skip hstop heligible]
      | true =>
        have hsame : (fun m : StoredMessage => c.isEligible m.sequence m.subject) =
            fun w => (c.deliver now m.sequence).isEligible w.sequence w.subject := by
          funext w
          rw [(sameChoice_deliver c now m.sequence).isEligible_eq]
        rw [List.filter_cons_of_pos (by simp [heligible]), deliverNew_take hstop heligible,
          deliverNew_take hstop heligible, ih, hsame]

/-- What is handed out does not depend on how what is ahead is listed. -/
theorem deliverNew_congr (k : Nat) (now : Instant) (h : Haul) (hms : Ahead x c ms)
    (hms' : Ahead x c ms') :
    deliverNew x { batch := k } now ms c h = deliverNew x { batch := k } now ms' c h := by
  have hmem {ms ms' : List StoredMessage} (hms : Ahead x c ms) (hms' : Ahead x c ms')
      {m : StoredMessage} (hm : m ∈ ms ∧ c.isEligible m.sequence m.subject = true) :
      m ∈ ms' ∧ c.isEligible m.sequence m.subject = true :=
    ⟨hms'.complete (hms.mem m hm.1).1 hm.2 (hms.mem m hm.1).2, hm.2⟩
  rw [deliverNew_filter x k now ms, deliverNew_filter x k now ms']
  congr 1
  refine eq_of_ascending (·.sequence) (hms.ascending.filter _) (hms'.ascending.filter _) fun m => ?_
  rw [List.mem_filter, List.mem_filter]
  exact ⟨hmem hms hms', hmem hms' hms⟩

/-- Behind the last message nothing is ahead. -/
theorem ahead_nil (hx : x.Filed) (hlast : x.lastSeq < c.nextSeq) : Ahead x c [] where
  mem _ hm := nomatch hm
  ascending := List.Pairwise.nil
  complete hm _ hle := absurd (hx.le_lastSeq hm) (Nat.not_le_of_lt (Nat.lt_of_lt_of_le hlast hle))

theorem deliverNew_of_lt (hx : x.Filed) (k : Nat) (now : Instant) (h : Haul)
    (hlast : x.lastSeq < c.nextSeq) (hms : Ahead x c ms) :
    deliverNew x { batch := k } now ms c h = (c, h) := by
  rw [deliverNew_congr k now h hms (ahead_nil hx hlast), deliverNew]
  split
  · rfl
  · rw [Nat.max_eq_left hlast]

/-- A walk over what is new may be interrupted. -/
theorem deliverNew_resume (hx : x.Filed) (hle : k ≤ i) (h : Haul) (hms : Ahead x c ms) :
    deliverNew x { batch := i } now ms c h =
      deliverAhead x { batch := i } now (deliverNew x { batch := k } now ms c h) := by
  induction ms generalizing c h with
  | nil =>
    by_cases hstop : (Limits.isReached { batch := k } h || c.isBlocked) = true
    · rw [deliverNew_of_stopped hstop]
      exact deliverNew_congr _ now h hms (ahead_startingAt hx c)
    · have hend : deliverNew x { batch := k } now [] c h =
          ({ c with nextSeq := max c.nextSeq (x.lastSeq + 1) }, h) := by
        rw [deliverNew, if_neg hstop]
      have hlast : x.lastSeq < max c.nextSeq (x.lastSeq + 1) :=
        Nat.lt_of_succ_le (Nat.le_max_right _ _)
      rw [hend, deliverAhead, deliverNew_of_lt hx _ now h hlast (ahead_startingAt hx _)]
      rw [Bool.or_eq_true, not_or, Bool.not_eq_true] at hstop
      rw [deliverNew, isReached_mono hle hstop.1, Bool.false_or, if_neg hstop.2]
  | cons m ms ih =>
    by_cases hstop : (Limits.isReached { batch := k } h || c.isBlocked) = true
    · rw [deliverNew_of_stopped hstop]
      exact deliverNew_congr _ now h hms (ahead_startingAt hx c)
    · have hgoes : ¬(Limits.isReached { batch := i } h || c.isBlocked) = true := by
        rw [Bool.or_eq_true, not_or, Bool.not_eq_true] at hstop ⊢
        exact ⟨isReached_mono hle hstop.1, hstop.2⟩
      cases heligible : c.isEligible m.sequence m.subject with
      | false =>
        rw [deliverNew_skip hgoes heligible, deliverNew_skip hstop heligible]
        exact ih h (hms.skip hx (by simp [heligible]))
      | true =>
        rw [deliverNew_take hgoes heligible, deliverNew_take hstop heligible]
        exact ih (h.addNew c m) (hms.deliver hx now)

/-! ## Coming to the end -/

/-- Nothing is left to be handed out: nothing is due, and no more may be pending or no message is
left. -/
structure IsDone (x : Index) (now : Instant) (c : Cursor) : Prop where
  due_eq : c.due now = []
  spent : c.isBlocked = true ∨ x.lastSeq < c.nextSeq

/-- **Where nothing is left, a walk does nothing.** -/
theorem IsDone.walk_eq (hc : c.IsDone x now) (hx : x.Filed) (k : Nat) (h : Haul) :
    walk x { batch := k } now c h = (c, h) := by
  rw [walk, hc.due_eq, redeliver, deliverAhead]
  rcases hc.spent with hblocked | hlast
  · exact deliverNew_of_stopped (by rw [hblocked, Bool.or_true]) _
  · exact deliverNew_of_lt hx k now h hlast (ahead_startingAt hx c)

theorem due_eq_nil_iff (c : Cursor) (now : Instant) :
    c.due now = [] ↔ ∀ n p, c.pending.get? n = some p → now < p.deadline := by
  rw [List.eq_nil_iff_forall_not_mem]
  simp only [mem_due_iff]
  exact ⟨fun h n p hp => Nat.lt_of_not_le fun hle => h n ⟨p, hp, hle⟩,
    fun h n ⟨p, hp, hle⟩ => absurd (h n p hp) (Nat.not_lt_of_le hle)⟩

/-- No pull makes a delivery that is due at once. -/
theorem pullInvariant_undue (x : Index) (l : Limits)
    (hwait : now < now.after settings.ackWaitOrDefault) :
    PullInvariant x l now fun c _ => c.settings = settings ∧
      ∀ n p, c.pending.get? n = some p → now < p.deadline where
  givenUp {c _ k} h := by
    refine ⟨h.1, fun n p hp => ?_⟩
    rw [giveUp, SeqMap.get?_erase] at hp
    split at hp
    · cases hp
    · exact h.2 n p hp
  repeated {c _ k _} h _ _ := by
    refine ⟨h.1, fun n p hp => ?_⟩
    rw [repeatDelivery, SeqMap.get?_modify] at hp
    split at hp
    · obtain ⟨q, -, rfl⟩ := Option.map_eq_some_iff.1 hp
      rw [redeliveryAt, h.1]
      exact hwait
    · exact h.2 n p hp
  delivered {c _ d} h _ _ _ := by
    rw [deliver]
    dsimp only
    split
    · exact h
    · refine ⟨h.1, fun n p hp => ?_⟩
      rw [SeqMap.get?_insert] at hp
      split at hp
      · cases hp
        dsimp only [redeliveryAt]
        rw [h.1]
        exact hwait
      · exact h.2 n p hp
  settled h := h
  refused h _ := h
  ended h := h
  floor h := h

/-- No pull changes the settings or the time. -/
theorem pullInvariant_kept (x : Index) (l : Limits) (now : Instant) (c₀ : Cursor) :
    PullInvariant x l now fun c _ => c.settings = c₀.settings ∧ c.lastActive = c₀.lastActive where
  givenUp h := h
  repeated h _ _ := h
  delivered h _ _ _ := by
    rw [deliver]
    dsimp only
    split <;> exact h
  settled h := h
  refused h _ := h
  ended h := h
  floor h := h

/-- Behind what is new nothing is due, and if a pull has not all that it may have, nothing is left. -/
theorem deliverAhead_done (hx : x.Filed) {r : Cursor × Haul} (hsettings : r.1.settings = c.settings)
    (hwait : now < c.redeliveryAt now) (hdue : r.1.due now = []) (hnone : r.2.oversized = none) :
    (deliverAhead x { batch := k } now r).1.due now = [] ∧
      (Limits.isReached { batch := k } (deliverAhead x { batch := k } now r).2 = false →
        (deliverAhead x { batch := k } now r).1.isBlocked = true ∨
          x.lastSeq < (deliverAhead x { batch := k } now r).1.nextSeq) := by
  have hundue : PullInvariant x { batch := k } now fun c' _ => c'.settings = c.settings ∧
      ∀ n p, c'.pending.get? n = some p → now < p.deadline := pullInvariant_undue x _ hwait
  obtain ⟨-, hlater⟩ := hundue.deliverNew (x.startingAt r.1.nextSeq) (h := r.2)
    ⟨hsettings, (due_eq_nil_iff ..).1 hdue⟩
  have hunreported := (pullInvariant_unreported x k now).deliverNew (c := r.1)
    (x.startingAt r.1.nextSeq) hnone
  obtain ⟨new, -, -, -, hroom⟩ := advances_deliverNew hx { batch := k } now _ r.1 r.2
    (ahead_startingAt hx r.1)
  refine ⟨(due_eq_nil_iff ..).2 hlater, fun hreached => ?_⟩
  cases hblocked : (deliverAhead x { batch := k } now r).1.isBlocked with
  | true => exact .inl rfl
  | false => exact .inr (hroom ⟨hreached, hblocked, hunreported, fun _ _ _ _ => rfl⟩)

/-- **A walk may be interrupted**, and one that has not all that it may have leaves nothing. -/
theorem walk_resume (hx : x.Filed) (hwait : now < c.redeliveryAt now) (hle : k ≤ i)
    (hnone : h.oversized = none) (hthere : ∀ n, c.pending.contains n = true → x.contains n = true) :
    walk x { batch := i } now c h = walk x { batch := i } now
        (walk x { batch := k } now c h).1 (walk x { batch := k } now c h).2 ∧
      (Limits.isReached { batch := k } (walk x { batch := k } now c h).2 = false →
        (walk x { batch := k } now c h).1.IsDone x now) := by
  obtain ⟨hresume, hdone⟩ := redeliver_resume hwait hle h rfl hthere
  have hkept := (pullInvariant_kept x { batch := k } now c).redeliver (c.due now) (h := h) ⟨rfl, rfl⟩
  have hreported := (pullInvariant_unreported x k now).redeliver (c := c) (c.due now) hnone
  have hwalk : walk x { batch := k } now c h =
      deliverAhead x { batch := k } now (redeliver x { batch := k } now (c.due now) c h) := rfl
  have hwalk' := congrArg (deliverAhead x { batch := i } now) hresume
  rw [← walk, ← walk] at hwalk'
  rw [hwalk, hwalk']
  generalize redeliver x { batch := k } now (c.due now) c h = r at *
  cases hreached : Limits.isReached { batch := k } r.2 with
  | true =>
    -- The walk has stopped at what is due.
    have hstop : deliverAhead x { batch := k } now r = r :=
      deliverNew_of_stopped (by rw [hreached, Bool.true_or]) _
    rw [hstop, hreached]
    exact ⟨rfl, fun h => by cases h⟩
  | false =>
    have hdue := hdone hreached
    obtain ⟨hdone, hlast⟩ := deliverAhead_done hx hkept.1 hwait hdue hreported
    have hnew : deliverAhead x { batch := i } now r =
        deliverAhead x { batch := i } now (deliverAhead x { batch := k } now r) :=
      deliverNew_resume hx hle r.2 (ahead_startingAt hx r.1)
    refine ⟨?_, fun hreached => ⟨hdone, hlast hreached⟩⟩
    rw [walk, walk, hdue, hdone, redeliver, redeliver]
    exact hnew

/-! ## Two hauls -/

/-- A haul with another one behind it. -/
instance : Append Haul where
  append g h :=
    { deliveries := g.deliveries ++ h.deliveries
      settled := g.settled ++ h.settled
      oversized := h.oversized
      bytes := g.bytes + h.bytes }

theorem append_settle (g h : Haul) (n : Nat) : (g ++ h).settle n = g ++ h.settle n :=
  congrArg (fun s => { g ++ h with settled := s }) (List.append_assoc ..)

theorem append_add (g h : Haul) (d : Delivery) : (g ++ h).add d = g ++ h.add d := by
  have hd : (g ++ h).deliveries ++ [d] = g.deliveries ++ (h.deliveries ++ [d]) :=
    List.append_assoc ..
  have hb : (g ++ h).bytes + d.message.size = g.bytes + (h.bytes + d.message.size) :=
    Nat.add_assoc ..
  rw [Haul.add, hd, hb]
  rfl

theorem append_addNew (g h : Haul) (c : Cursor) (m : StoredMessage) :
    (g ++ h).addNew c m = g ++ h.addNew c m := by
  simp only [Haul.addNew, append_add, append_settle]
  split <;> rfl

theorem settled_addNew (h : Haul) (c : Cursor) (m : StoredMessage) : (h.addNew c m).settled =
    h.settled ++ if c.settings.ackPolicy = .none then [m.sequence] else [] := by
  rw [Haul.addNew]
  split
  · rfl
  · exact (List.append_nil _).symm

theorem isReached_append (g h : Haul) (k : Nat) :
    Limits.isReached { batch := g.deliveries.length + k } (g ++ h) =
      Limits.isReached { batch := k } h := by
  have hlength : (g ++ h).deliveries.length = g.deliveries.length + h.deliveries.length :=
    List.length_append
  rw [Limits.isReached, Limits.isReached, hlength, decide_eq_decide]
  exact Nat.add_le_add_iff_left

theorem redeliver_append (g : Haul) (k : Nat) (ns : List Nat) (c : Cursor) (h : Haul) :
    redeliver x { batch := g.deliveries.length + k } now ns c (g ++ h) =
      ((redeliver x { batch := k } now ns c h).1, g ++ (redeliver x { batch := k } now ns c h).2) := by
  induction ns generalizing c h with
  | nil => rfl
  | cons n ns ih =>
    have hfits (b : Nat) (h : Haul) (size : Nat) : Limits.fits { batch := b } h size = true := rfl
    rw [redeliver, redeliver, isReached_append]
    split
    · rfl
    · split
      · split
        · rw [append_settle]
          exact ih ..
        · rw [if_pos (hfits ..), if_pos (hfits ..), append_add]
          exact ih ..
      · exact ih ..

theorem deliverNew_append (g : Haul) (k : Nat) (ms : List StoredMessage) (c : Cursor) (h : Haul) :
    deliverNew x { batch := g.deliveries.length + k } now ms c (g ++ h) =
      ((deliverNew x { batch := k } now ms c h).1,
        g ++ (deliverNew x { batch := k } now ms c h).2) := by
  induction ms generalizing c h with
  | nil =>
    rw [deliverNew, deliverNew, isReached_append]
    split <;> rfl
  | cons m ms ih =>
    by_cases hstop : (Limits.isReached { batch := k } h || c.isBlocked) = true
    · rw [deliverNew_of_stopped hstop, deliverNew_of_stopped (by rwa [isReached_append])]
    · have hgoes : ¬(Limits.isReached { batch := g.deliveries.length + k } (g ++ h) ||
          c.isBlocked) = true := by
        rwa [isReached_append]
      cases heligible : c.isEligible m.sequence m.subject with
      | false => rw [deliverNew_skip hgoes heligible, deliverNew_skip hstop heligible, ih]
      | true =>
        rw [deliverNew_take hgoes heligible, deliverNew_take hstop heligible, append_addNew, ih]

/-- **A walk that begins with a haul adds to it** what it would hand out without one. -/
theorem walk_append (x : Index) (now : Instant) (c : Cursor) (g : Haul) (k : Nat) (h : Haul) :
    walk x { batch := g.deliveries.length + k } now c (g ++ h) =
      ((walk x { batch := k } now c h).1, g ++ (walk x { batch := k } now c h).2) := by
  rw [walk, redeliver_append, deliverAhead, deliverNew_append]
  rfl

/-! ## The floor in between -/

/-- A cursor with another floor, and with other numbers noted above it. -/
def withNotes (c : Cursor) (floor : SequencePair) (acked : SeqSet) : Cursor :=
  { c with ackFloor := floor, acked }

theorem redeliver_withNotes (x : Index) (l : Limits) (now : Instant) (ns : List Nat) (c : Cursor)
    (h : Haul) : ∃ s, (redeliver x l now ns c h).2.settled = h.settled ++ s ∧
      ∀ floor acked, redeliver x l now ns (c.withNotes floor acked) h =
        ((redeliver x l now ns c h).1.withNotes floor (s.foldl SeqSet.add acked),
          (redeliver x l now ns c h).2) := by
  induction ns generalizing c h with
  | nil => exact ⟨[], (List.append_nil _).symm, fun _ _ => rfl⟩
  | cons n ns ih =>
    have hp (floor : SequencePair) (acked : SeqSet) :
        (c.withNotes floor acked).pending.get? n = c.pending.get? n := rfl
    have hexhausted (floor : SequencePair) (acked : SeqSet) (p : PendingDelivery) :
        (c.withNotes floor acked).isExhausted p = c.isExhausted p := rfl
    simp only [redeliver, hp, hexhausted]
    split
    · exact ⟨[], (List.append_nil _).symm, fun _ _ => rfl⟩
    · split
      · split
        · -- Only what is given up is noted, so the notes grow by what is settled.
          obtain ⟨s, hsettled, heq⟩ := ih (c.giveUp n) (h.settle n)
          refine ⟨n :: s, ?_, fun floor acked => heq floor (acked.add n)⟩
          rw [hsettled, Haul.settle, List.append_assoc]
          rfl
        · split
          · exact ih (c.repeatDelivery now n) _
          · refine ⟨[], ?_, fun _ _ => rfl⟩
            rw [Haul.refuse]
            split <;> exact (List.append_nil _).symm
      · exact ih c h

theorem deliver_withNotes (c : Cursor) (floor : SequencePair) (acked : SeqSet) (now : Instant)
    (n : Nat) : (c.withNotes floor acked).deliver now n = (c.deliver now n).withNotes floor
      (if c.settings.ackPolicy = .none then acked.add n else acked) := by
  by_cases hnone : c.settings.ackPolicy = .none
  · have hnone' : (c.withNotes floor acked).settings.ackPolicy = .none := hnone
    simp only [deliver, if_pos hnone, if_pos hnone']
    rfl
  · have hacks : (c.withNotes floor acked).settings.ackPolicy ≠ .none := hnone
    simp only [deliver, if_neg hnone, if_neg hacks]
    rfl

theorem deliverNew_withNotes (x : Index) (k : Nat) (now : Instant) (ms : List StoredMessage)
    (c : Cursor) (h : Haul) : ∃ s, (deliverNew x { batch := k } now ms c h).2.settled =
        h.settled ++ s ∧
      ∀ floor acked, deliverNew x { batch := k } now ms (c.withNotes floor acked) h =
        ((deliverNew x { batch := k } now ms c h).1.withNotes floor (s.foldl SeqSet.add acked),
          (deliverNew x { batch := k } now ms c h).2) := by
  induction ms generalizing c h with
  | nil =>
    refine ⟨[], ?_, fun floor acked => ?_⟩
    · rw [deliverNew, List.append_nil]
      split <;> rfl
    · have hblocked : (c.withNotes floor acked).isBlocked = c.isBlocked := rfl
      rw [deliverNew, deliverNew, hblocked]
      split <;> rfl
  | cons m ms ih =>
    by_cases hstop : (Limits.isReached { batch := k } h || c.isBlocked) = true
    · rw [deliverNew_of_stopped hstop]
      exact ⟨[], (List.append_nil _).symm, fun floor acked =>
        deliverNew_of_stopped (c := c.withNotes floor acked) hstop _⟩
    · cases heligible : c.isEligible m.sequence m.subject with
      | false =>
        obtain ⟨s, hsettled, heq⟩ := ih c h
        rw [deliverNew_skip hstop heligible]
        refine ⟨s, hsettled, fun floor acked => ?_⟩
        rw [deliverNew_skip (c := c.withNotes floor acked) hstop heligible]
        exact heq floor acked
      | true =>
        obtain ⟨s, hsettled, heq⟩ := ih (c.deliver now m.sequence) (h.addNew c m)
        rw [deliverNew_take hstop heligible]
        refine ⟨(if c.settings.ackPolicy = .none then [m.sequence] else []) ++ s, ?_,
          fun floor acked => ?_⟩
        · rw [hsettled, ← List.append_assoc, settled_addNew]
        · have hadd : h.addNew (c.withNotes floor acked) m = h.addNew c m := rfl
          rw [deliverNew_take (c := c.withNotes floor acked) hstop heligible, deliver_withNotes,
            hadd, heq, List.foldl_append]
          split <;> rfl

/-- **A walk does not look at the floor**, and only adds to what is noted above it. -/
theorem walk_withNotes (x : Index) (k : Nat) (now : Instant) (c : Cursor) (h : Haul) :
    ∃ s, (walk x { batch := k } now c h).2.settled = h.settled ++ s ∧
      ∀ floor acked, walk x { batch := k } now (c.withNotes floor acked) h =
        ((walk x { batch := k } now c h).1.withNotes floor (s.foldl SeqSet.add acked),
          (walk x { batch := k } now c h).2) := by
  obtain ⟨s, hsettled, heq⟩ := redeliver_withNotes x { batch := k } now (c.due now) c h
  obtain ⟨s', hsettled', heq'⟩ := deliverNew_withNotes x k now
    (x.startingAt (redeliver x { batch := k } now (c.due now) c h).1.nextSeq)
    (redeliver x { batch := k } now (c.due now) c h).1
    (redeliver x { batch := k } now (c.due now) c h).2
  refine ⟨s ++ s', ?_, fun floor acked => ?_⟩
  · rw [walk, deliverAhead, hsettled', hsettled, List.append_assoc]
  · have hdue : (c.withNotes floor acked).due now = c.due now := rfl
    rw [walk, hdue, heq, List.foldl_append]
    exact heq' floor (s.foldl SeqSet.add acked)

/-! ## Two pulls -/

theorem IsDone.withFloor {r : Cursor × Haul} (h : r.1.IsDone x now) :
    (Cursor.withFloor r).IsDone x now := by
  rw [Cursor.withFloor]
  split
  · exact h
  · exact ⟨h.due_eq, h.spent⟩

theorem lowestOpen_withFloor (r : Cursor × Haul) : (withFloor r).lowestOpen = r.1.lowestOpen := by
  rw [withFloor]
  split <;> rfl

theorem ackFloor_withFloor {r : Cursor × Haul} (hsettled : r.2.settled ≠ []) :
    (withFloor r).ackFloor = r.1.lowestOpen := by
  rw [withFloor, if_neg fun h => hsettled (List.isEmpty_iff.1 h)]
  rfl

/-- Where a pull has nothing to forget, it is a walk and the floor. -/
theorem collect_eq_walk (hthere : ∀ n, c.pending.contains n = true → x.contains n = true)
    (hactive : c.lastActive = now) (k : Nat) : c.collect x { batch := k } now =
      (withFloor (walk x { batch := k } now c {}), (walk x { batch := k } now c {}).2) := by
  have hsame : (c.dropRemoved x).touch now = c := by
    rw [dropRemoved_eq hthere, ← hactive]
    rfl
  rw [collect_eq, hsame]

/-- A pull that has nothing has made no new delivery. -/
theorem pullInvariant_delivered (x : Index) (l : Limits) (now : Instant) (c₀ : Cursor) :
    PullInvariant x l now fun c h => h.deliveries = [] → c.delivered = c₀.delivered where
  givenUp h := h
  repeated _ _ _ hnone := absurd hnone (List.append_ne_nil_of_right_ne_nil _ (List.cons_ne_nil _ _))
  delivered _ _ _ _ hnone :=
    absurd hnone (List.append_ne_nil_of_right_ne_nil _ (List.cons_ne_nil _ _))
  settled h := h
  refused {_ h size} hc _ hnone := hc <| by
    rw [Haul.refuse] at hnone
    split at hnone <;> exact hnone
  ended h := h
  floor h := h

/-- A pull that settles nothing leaves pending what is, under the same numbers. -/
theorem exists_pending_collect (haccounts : Accounts events x c)
    (hthere : ∀ n, c.pending.contains n = true → x.contains n = true) (l : Limits) (now : Instant)
    (hnone : (c.collect x l now).2.settled = []) {p : PendingDelivery}
    (hp : c.pending.get? n = some p) :
    ∃ q, (c.collect x l now).1.pending.get? n = some q ∧ q.consumerSeq = p.consumerSeq := by
  obtain ⟨again, new, given, -, hs, hhands, -⟩ :=
    hands_collect haccounts.filed haccounts.pending_lt l now
  rw [hnone] at hs
  obtain rfl : given = [] := (List.append_eq_nil_iff.1 hs.symm).1
  by_cases hagain : n ∈ again.map Delivery.sequence
  · obtain ⟨d, hd, rfl⟩ := List.mem_map.1 hagain
    obtain ⟨-, p', hp', -, -, hseq, -⟩ := hhands.of_again d hd
    rw [hp, Option.some.injEq] at hp'
    exact ⟨_, hhands.pending_again d hd, hp' ▸ hseq⟩
  · have hpending := SeqMap.contains_iff.2 ⟨p, hp⟩
    have hnew := hhands.passes.notMem (haccounts.pending_lt hpending)
    rw [hhands.pending_eq n hagain List.not_mem_nil (.inr hnew), if_pos (hthere n hpending)]
    exact ⟨p, hp, rfl⟩

/-- What is pending behind a pull was pending, or is behind all that was. -/
theorem Accounts.le_of_pending_collect (haccounts : Accounts events x c) (l : Limits)
    (now : Instant) {p q : PendingDelivery} (hp : c.pending.get? k = some p)
    (hlowest : ∀ j r, c.pending.get? j = some r → k ≤ j)
    (hq : (c.collect x l now).1.pending.get? n = some q) : k ≤ n := by
  obtain ⟨again, new, given, -, -, hhands, -⟩ :=
    hands_collect haccounts.filed haccounts.pending_lt l now
  obtain ⟨-, ⟨d, hd, rfl, -⟩ | ⟨-, hn, -⟩⟩ := hhands.pending_cases haccounts.pending_lt hq
  · rcases List.mem_append.1 hd with hd | hd
    · obtain ⟨-, p', hp', -⟩ := hhands.of_again d hd
      exact hlowest _ p' hp'
    · have hlt := haccounts.pending_lt (SeqMap.contains_iff.2 ⟨p, hp⟩)
      exact Nat.le_of_lt (Nat.lt_of_lt_of_le hlt (hhands.passes.mem hd).2.2.1)
  · exact hlowest n q hn

/-- A pull that settles nothing leaves the place of the floor, if something is pending or nothing is
handed out. -/
theorem lowestOpen_collect (haccounts : Accounts events x c)
    (hthere : ∀ n, c.pending.contains n = true → x.contains n = true) (l : Limits) (now : Instant)
    (hnone : (c.collect x l now).2.settled = [])
    (hopen : c.pending.isEmpty = false ∨ (c.collect x l now).2.deliveries = []) :
    (c.collect x l now).1.lowestOpen = c.lowestOpen := by
  rcases hopen with hopen | hempty
  · -- The first delivery stays the first one: what is new is behind it.
    obtain ⟨⟨k, p⟩, hfirst⟩ : ∃ e, c.pending.first? = some e := by
      refine Option.ne_none_iff_exists'.1 fun h => ?_
      rw [SeqMap.first?_eq_none_iff.1 h] at hopen
      cases hopen
    obtain ⟨hp, hlowest⟩ := SeqMap.first?_eq_some_iff.1 hfirst
    obtain ⟨q, hq, hseq⟩ := exists_pending_collect haccounts hthere l now hnone hp
    have hfirst' : (c.collect x l now).1.pending.first? = some (k, q) :=
      SeqMap.first?_eq_some_iff.2 ⟨hq, fun j r hr =>
        haccounts.le_of_pending_collect l now hp hlowest hr⟩
    rw [lowestOpen, lowestOpen, hfirst, hfirst']
    dsimp only
    rw [hseq]
  · -- Nothing is handed out, so the same is pending.
    have hdelivered := (pullInvariant_delivered x l now c).collect
      (fun _ => (samePlace_dropRemoved c x).delivered) hempty
    obtain ⟨again, new, given, hd, hs, hhands, -⟩ :=
      hands_collect haccounts.filed haccounts.pending_lt l now
    rw [hnone] at hs
    obtain rfl : given = [] := (List.append_eq_nil_iff.1 hs.symm).1
    rw [hempty] at hd
    obtain ⟨rfl, rfl⟩ := List.append_eq_nil_iff.1 hd.symm
    refine lowestOpen_congr hdelivered fun j => ?_
    rw [hhands.pending_eq j List.not_mem_nil List.not_mem_nil (.inr List.not_mem_nil)]
    split
    · rfl
    · next hj =>
      cases hp : c.pending.get? j with
      | none => rfl
      | some p => exact absurd (hthere j (SeqMap.contains_iff.2 ⟨p, hp⟩)) hj

/-- A second walk does not look at the floor that the first one has moved, and if it settles
something, the floor comes to the same place in the end. -/
theorem withFloor_append (now : Instant) {r : Cursor × Haul}
    (hle : r.2.settled ≠ [] → r.1.lowestOpen.stream ≤
      (walk x { batch := k } now (withFloor r) {}).1.lowestOpen.stream)
    (hsame : r.2.settled ≠ [] → (walk x { batch := k } now (withFloor r) {}).2.settled = [] →
      (walk x { batch := k } now (withFloor r) {}).1.lowestOpen = r.1.lowestOpen) :
    withFloor ((walk x { batch := k } now r.1 {}).1, r.2 ++ (walk x { batch := k } now r.1 {}).2) =
        withFloor (walk x { batch := k } now (withFloor r) {}) ∧
      (walk x { batch := k } now r.1 {}).2 = (walk x { batch := k } now (withFloor r) {}).2 := by
  obtain ⟨s, hs, hnotes⟩ := walk_withNotes x k now r.1 {}
  by_cases hnone : r.2.settled = []
  · have hfloor : withFloor r = r.1 := by rw [withFloor, hnone, List.isEmpty_nil, if_pos rfl]
    have hsettled : (r.2 ++ (walk x { batch := k } now r.1 {}).2).settled =
        (walk x { batch := k } now r.1 {}).2.settled := by
      show r.2.settled ++ _ = _
      rw [hnone, List.nil_append]
    rw [hfloor, withFloor, withFloor]
    dsimp only
    rw [hsettled]
    exact ⟨rfl, rfl⟩
  · -- The floor was moved in between.
    have hfloor : withFloor r = r.1.withNotes r.1.lowestOpen
        (r.1.acked.startingAt (r.1.lowestOpen.stream + 1)) := by
      rw [withFloor, if_neg fun h => hnone (List.isEmpty_iff.1 h)]
      rfl
    have hacked : (walk x { batch := k } now r.1 {}).1.acked = s.foldl SeqSet.add r.1.acked :=
      congrArg (fun q => q.1.acked) (hnotes r.1.ackFloor r.1.acked)
    have hle := hle hnone
    have hsame := hsame hnone
    rw [hfloor, hnotes] at hle hsame ⊢
    generalize walk x { batch := k } now r.1 {} = q at *
    obtain rfl : q.2.settled = s := hs
    have hall : ¬(r.2 ++ q.2).settled.isEmpty = true := fun h =>
      hnone (List.append_eq_nil_iff.1 (List.isEmpty_iff.1 h)).1
    refine ⟨?_, rfl⟩
    rw [withFloor, withFloor, if_neg hall]
    dsimp only at hle hsame ⊢
    split
    · next hempty =>
      rw [List.isEmpty_iff] at hempty
      have hlowest : q.1.lowestOpen = r.1.lowestOpen := hsame hempty
      rw [hempty] at hacked ⊢
      show q.1.withNotes q.1.lowestOpen (q.1.acked.startingAt (q.1.lowestOpen.stream + 1)) = _
      rw [hlowest, hacked]
      rfl
    · show q.1.withNotes q.1.lowestOpen (q.1.acked.startingAt (q.1.lowestOpen.stream + 1)) =
        q.1.withNotes q.1.lowestOpen ((q.2.settled.foldl SeqSet.add
          (r.1.acked.startingAt (r.1.lowestOpen.stream + 1))).startingAt
            (q.1.lowestOpen.stream + 1))
      have hle : r.1.lowestOpen.stream + 1 ≤ q.1.lowestOpen.stream + 1 := Nat.succ_le_succ hle
      rw [hacked, SeqSet.startingAt_foldl_add _ _ hle]

theorem append_nil (h : Haul) (hnone : h.oversized = none) : h ++ ({} : Haul) = h := by
  obtain ⟨deliveries, settled, oversized, bytes⟩ := h
  obtain rfl : oversized = none := hnone
  show Haul.mk (deliveries ++ []) (settled ++ []) none bytes = _
  rw [List.append_nil, List.append_nil]

/-- A pull for nothing gets nothing. -/
theorem settled_walk_zero (x : Index) (now : Instant) (c : Cursor) :
    (walk x { batch := 0 } now c {}).2.settled = [] := by
  have hstop (ns : List Nat) : redeliver x { batch := 0 } now ns c {} = (c, {}) := by
    cases ns with
    | nil => rfl
    | cons n ns => rw [redeliver, if_pos (by rfl)]
  rw [walk, hstop, deliverAhead, deliverNew_of_stopped (by rfl)]

theorem steps_walk (hx : x.Filed) (l : Limits) (now : Instant) (c : Cursor) (h : Haul) :
    ∃ settled, Steps x c settled (walk x l now c h).1 := by
  obtain ⟨again, -, hagain⟩ := steps_redeliver x l now (c.due now) c h
  obtain ⟨new, -, hnew⟩ := steps_deliverNew hx l now _ (redeliver x l now (c.due now) c h).1
    (redeliver x l now (c.due now) c h).2 (ahead_startingAt hx _)
  exact ⟨again ++ new, hagain.trans hnew⟩

/-- A walk only lets the floor come further up. -/
theorem ackFloor_le_walk (hx : x.Filed) (hc : c.Grounded) (k : Nat) (now : Instant) :
    c.ackFloor.stream ≤ (walk x { batch := k } now c {}).1.lowestOpen.stream := by
  obtain ⟨settled, hsteps⟩ := steps_walk hx { batch := k } now c {}
  obtain ⟨s, -, hnotes⟩ := walk_withNotes x k now c {}
  have hfloor : (walk x { batch := k } now c {}).1.ackFloor = c.ackFloor :=
    congrArg (fun q => q.1.ackFloor) (hnotes c.ackFloor c.acked)
  rw [← hfloor]
  exact (hsteps.notes hc).grounded.lowestOpen_le.1

/-- Behind a pull that has something, a pull that settles nothing finds something pending, or has
nothing. -/
theorem Course.open_or_nothing (course : Course settings x₀ events x c) (l l' : Limits)
    (now : Instant) (hsome : (c.collect x l now).2.deliveries ≠ [])
    (hnone : ((c.collect x l now).1.collect x l' now).2.settled = []) :
    (c.collect x l now).1.pending.isEmpty = false ∨
      ((c.collect x l now).1.collect x l' now).2.deliveries = [] := by
  have haccounts := course.accounts
  have haccounts' := (course.collected l now).accounts
  obtain ⟨again, new, given, hd, -, hhands, -⟩ :=
    hands_collect haccounts.filed haccounts.pending_lt l now
  by_cases hpolicy : c.settings.ackPolicy = .none
  · -- Nothing is pending, and what is new would be settled at once.
    have hpolicy' : (c.collect x l now).1.settings.ackPolicy = .none := by
      rw [hhands.settings_eq, hpolicy]
    obtain ⟨again', new', given', hd', hs', hhands', -⟩ :=
      hands_collect haccounts'.filed haccounts'.pending_lt l' now
    rw [hnone, if_pos hpolicy'] at hs'
    have hnew : new' = [] := List.map_eq_nil_iff.1 (List.append_eq_nil_iff.1 hs'.symm).2
    have hagain : again' = [] := by
      refine List.eq_nil_iff_forall_not_mem.2 fun d hd => ?_
      obtain ⟨-, p, hp, -⟩ := hhands'.of_again d hd
      rw [haccounts'.pending_eq_none hpolicy'] at hp
      cases hp
    exact .inr (by rw [hd', hnew, hagain]; rfl)
  · obtain ⟨d, hmem⟩ := List.exists_mem_of_ne_nil _ hsome
    rw [hd, List.mem_append] at hmem
    exact .inl (SeqMap.isEmpty_eq_false_iff.2
      ⟨d.sequence, _, hmem.elim (hhands.pending_again d) (hhands.pending_new hpolicy d)⟩)

/-- A wait that is not zero ends later. -/
theorem lt_redeliveryAt (hwait : 0 < c.settings.ackWaitOrDefault.nanos) (now : Instant) :
    now < c.redeliveryAt now := by
  have hlongest : 0 < (c.settings.ackWaitOrDefault.min Instant.longestWait).nanos := by
    rw [Duration.min]
    split
    · decide
    · exact hwait
  exact Nat.lt_add_of_pos_right hlongest

theorem lastActive_collect (c : Cursor) (x : Index) (l : Limits) (now : Instant) :
    (c.collect x l now).1.lastActive = now :=
  ((pullInvariant_kept x l now (c.touch now)).collect
    ⟨(samePlace_dropRemoved c x).settings, rfl⟩).2

theorem oversized_collect (c : Cursor) (x : Index) (n : Nat) (now : Instant) :
    (c.collect x { batch := n } now).2.oversized = none :=
  (pullInvariant_unreported x n now).collect rfl

/-- A pull that settles something and has all that it may have has something. -/
theorem deliveries_collect_ne_nil (c : Cursor) (x : Index) (n : Nat) (now : Instant)
    (hsettled : (c.collect x { batch := n } now).2.settled ≠ [])
    (hlength : (c.collect x { batch := n } now).2.deliveries.length = n) :
    (c.collect x { batch := n } now).2.deliveries ≠ [] := by
  intro hnone
  rw [hnone, List.length_nil] at hlength
  subst hlength
  rw [collect_eq] at hsettled
  exact hsettled (settled_walk_zero ..)

/-- **Two pulls are one.**  At any time in any course of a consumer whose wait for an acknowledgement
is not zero, a pull for so many messages and one for some more right behind it hand out and settle,
one after the other, what one pull for all of them does, and leave the same cursor. -/
theorem Course.collect_add (course : Course settings x₀ events x c)
    (hwait : 0 < c.settings.ackWaitOrDefault.nanos) (n k : Nat) (now : Instant) :
    c.collect x { batch := n + k } now =
      (((c.collect x { batch := n } now).1.collect x { batch := k } now).1,
        (c.collect x { batch := n } now).2 ++
          ((c.collect x { batch := n } now).1.collect x { batch := k } now).2) := by
  have haccounts := course.accounts
  have hx := haccounts.filed
  have hwait' : now < ((c.dropRemoved x).touch now).redeliveryAt now := by
    refine lt_redeliveryAt ?_ now
    show 0 < (c.dropRemoved x).settings.ackWaitOrDefault.nanos
    rw [(samePlace_dropRemoved c x).settings]
    exact hwait
  obtain ⟨hresume, hdone⟩ := walk_resume (k := n) (i := n + k) (h := {}) hx hwait'
    (Nat.le_add_right n k) rfl fun _ => contains_of_pending_dropRemoved
  -- What is known of the first pull and of the second.
  have hthere (j : Nat) (hj : (c.collect x { batch := n } now).1.pending.contains j = true) :
      x.contains j = true :=
    contains_of_pending_collect hx haccounts.pending_lt { batch := n } now hj
  have hwithin := isWithin_collect c x { batch := n } now
  have hreported := oversized_collect c x n now
  have hsome := deliveries_collect_ne_nil c x n now
  have hgrounded := (course.collected { batch := n } now).surveys.grounded
  have hopen := course.open_or_nothing { batch := n } { batch := k } now
  have hlowest := lowestOpen_collect (course.collected { batch := n } now).accounts hthere
    { batch := k } now
  rw [collect_eq c x (n + k), hresume]
  rw [collect_eq_walk hthere (lastActive_collect ..) k] at hopen hlowest ⊢
  rw [collect_eq c x n] at *
  generalize walk x { batch := n } now ((c.dropRemoved x).touch now) {} = r at *
  dsimp only at *
  cases hreached : Limits.isReached { batch := n } r.2 with
  | false =>
    -- Nothing is left for the second pull.
    have hr := hdone hreached
    rw [hr.walk_eq hx, hr.withFloor.walk_eq hx, append_nil r.2 hreported]
    rfl
  | true =>
    have hlength : r.2.deliveries.length = n :=
      Nat.le_antisymm hwithin.length_le (of_decide_eq_true hreached)
    have hle := ackFloor_le_walk hx hgrounded k now
    obtain ⟨hcursor, hhaul⟩ := withFloor_append (x := x) (k := k) now (r := r)
      (fun hsettled => by rwa [ackFloor_withFloor hsettled] at hle) fun hsettled hnone => by
        have hsame := hlowest hnone (hopen (hsome hsettled hlength) hnone)
        rwa [lowestOpen_withFloor, lowestOpen_withFloor] at hsame
    have happend := walk_append x now r.1 r.2 k {}
    rw [hlength, append_nil r.2 hreported] at happend
    rw [happend, hcursor, hhaul]

/-- Two messages are pulled one by one, or at once. -/
theorem collect_add_one :
    ∃ settings x₀ events x c, Course settings x₀ events x c ∧
      (c.collect x { batch := 1 } 0).2.deliveries.length = 1 ∧
      (c.collect x { batch := 1 + 1 } 0).2.deliveries.length = 2 ∧
      c.collect x { batch := 1 + 1 } 0 =
        (((c.collect x { batch := 1 } 0).1.collect x { batch := 1 } 0).1,
          (c.collect x { batch := 1 } 0).2 ++
            ((c.collect x { batch := 1 } 0).1.collect x { batch := 1 } 0).2) := by
  obtain ⟨x₀, settings, c, hx₀, hsettings, hc, hwait, hone, htwo⟩ :
      ∃ x₀ settings c,
        x₀ = (Index.empty.commit ⟨1, "s", [], [], Timestamp.ofMicros 0⟩).commit
          ⟨2, "s", [], [], Timestamp.ofMicros 0⟩ ∧
        settings = ConsumerSettings.withDefaults { name := some "C" } {} ∧
        c = start settings x₀ 0 ∧ 0 < c.settings.ackWaitOrDefault.nanos ∧
        (c.collect x₀ { batch := 1 } 0).2.deliveries.length = 1 ∧
        (c.collect x₀ { batch := 1 + 1 } 0).2.deliveries.length = 2 :=
    ⟨_, _, _, rfl, rfl, rfl, by decide, rfl, rfl⟩
  have hfiled : x₀.Filed := hx₀ ▸ (Index.empty_sound.filed.commit _).commit _
  have haccepted : settings.IsAccepted := ⟨{}, some "C", {}, rfl, hsettings⟩
  have course : Course settings x₀ [] x₀ c := hc ▸ Course.created hfiled haccepted
  exact ⟨settings, x₀, [], x₀, c, course, hone, htwo, course.collect_add hwait 1 1 0⟩

end StreamBroker.Cursor
