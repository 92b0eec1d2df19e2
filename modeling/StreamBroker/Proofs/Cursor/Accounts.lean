import Mathlib.Data.List.Nodup
import StreamBroker.Proofs.Cursor.Course

/-!
# Deliveries are repeated until they are settled

A cursor accounts for what it has handed out: what is to be acknowledged is pending until it is
settled or removed, and a pending delivery knows how often it was made, under which number of the
consumer, and when it is due.  What is settled is behind the cursor and not pending, so nothing
hands it out again.

## Main definitions

* `Cursor.Accounts`: what a cursor knows of the events that led to it

## Main results

* `Cursor.Accounts.collected`, `Cursor.Accounts.acknowledged`, …: every event keeps the accounts
* `Cursor.Course.kept_until_settled`: what was handed out is kept until it is settled, repeated when
  it is due, and not handed out any more then
-/

namespace StreamBroker

namespace Cursor

variable {events : List CursorEvent} {x y : Index} {c : Cursor} {n : Nat} {d : Delivery}

/-- What a cursor knows of the events that led to it. -/
structure Accounts (events : List CursorEvent) (x : Index) (c : Cursor) : Prop where
  /-- The messages are found under their numbers. -/
  filed : x.Filed
  /-- Every message may be delivered once. -/
  maxDeliver_ne : c.settings.maxDeliver ≠ some 0
  /-- The cursor has gone over what it has handed out. -/
  lt_nextSeq : ∀ n ∈ Course.handedOut events, n < c.nextSeq
  /-- What was handed out was there. -/
  le_lastSeq : ∀ n ∈ Course.handedOut events, n ≤ x.lastSeq
  /-- What is settled was handed out. -/
  settled_subset : ∀ n ∈ Course.settled events, n ∈ Course.handedOut events
  /-- What is pending was handed out and is not settled. -/
  pending_mem : ∀ {n p}, c.pending.get? n = some p →
    n ∈ Course.handedOut events ∧ n ∉ Course.settled events
  /-- It was handed out as often as it says. -/
  deliveries_eq : ∀ {n p}, c.pending.get? n = some p →
    p.deliveries = (Course.handedOut events).count n
  /-- It was handed out under one number of the consumer. -/
  consumerSeq_eq : ∀ {n p}, c.pending.get? n = some p → ∀ d ∈ Course.handouts events,
    d.sequence = n → d.consumerSeq = p.consumerSeq
  /-- It is due when the events say so. -/
  dueAt_eq : ∀ {n p}, c.pending.get? n = some p → Course.dueAt events n = some p.deadline
  /-- What was handed out to be acknowledged is pending until it is settled or removed. -/
  kept : c.settings.ackPolicy ≠ .none → ∀ n ∈ Course.handedOut events, x.contains n = true →
    n ∉ Course.settled events → c.pending.contains n = true
  /-- What was handed out without being to be acknowledged is settled. -/
  unacknowledged : c.settings.ackPolicy = .none → ∀ n ∈ Course.handedOut events,
    n ∈ Course.settled events

theorem accounts_start {settings : ConsumerSettings} (hx : x.Filed) (h : settings.IsAccepted)
    (now : Instant) : Accounts [] x (start settings x now) where
  filed := hx
  maxDeliver_ne := h.maxDeliver_ne
  lt_nextSeq _ hn := nomatch hn
  le_lastSeq _ hn := nomatch hn
  settled_subset _ hn := nomatch hn
  pending_mem hp := nomatch hp
  deliveries_eq hp := nomatch hp
  consumerSeq_eq hp := nomatch hp
  dueAt_eq hp := nomatch hp
  kept _ _ hn := nomatch hn
  unacknowledged _ _ hn := nomatch hn

namespace Accounts

theorem pending_lt (h : Accounts events x c) (hn : c.pending.contains n = true) :
    n < c.nextSeq := by
  obtain ⟨p, hp⟩ := SeqMap.contains_iff.1 hn
  exact h.lt_nextSeq n (h.pending_mem hp).1

/-- Without acknowledgements nothing is pending. -/
theorem pending_eq_none (h : Accounts events x c) (hnone : c.settings.ackPolicy = .none) (n : Nat) :
    c.pending.get? n = none := by
  cases hp : c.pending.get? n with
  | none => rfl
  | some p =>
    obtain ⟨hn, hsettled⟩ := h.pending_mem hp
    exact absurd (h.unacknowledged hnone n hn) hsettled

/-- An event that hands out nothing and settles nothing, after which the same is pending. -/
theorem quiet (h : Accounts events x c) {e : CursorEvent} {c' : Cursor}
    (hhandouts : e.handouts = []) (hsettled : e.settled = []) (hputsOff : ∀ n, e.putsOff n = none)
    (hy : y.Filed) (hlast : x.lastSeq ≤ y.lastSeq)
    (hcontains : ∀ n ≤ x.lastSeq, y.contains n = true → x.contains n = true)
    (hpending : c'.pending = c.pending) (hnext : c'.nextSeq = c.nextSeq)
    (hpolicy : c'.settings.ackPolicy = c.settings.ackPolicy)
    (hmost : c'.settings.maxDeliver ≠ some 0) : Accounts (events ++ [e]) y c' := by
  have hhandouts' : Course.handouts (events ++ [e]) = Course.handouts events := by
    rw [Course.handouts_concat, hhandouts, List.append_nil]
  have hhanded' : Course.handedOut (events ++ [e]) = Course.handedOut events := by
    rw [Course.handedOut, hhandouts', Course.handedOut]
  have hsettled' : Course.settled (events ++ [e]) = Course.settled events := by
    rw [Course.settled_concat, hsettled, List.append_nil]
  exact {
    filed := hy
    maxDeliver_ne := hmost
    lt_nextSeq := by
      rw [hhanded', hnext]
      exact h.lt_nextSeq
    le_lastSeq := by
      rw [hhanded']
      exact fun n hn => Nat.le_trans (h.le_lastSeq n hn) hlast
    settled_subset := by
      rw [hhanded', hsettled']
      exact h.settled_subset
    pending_mem := by
      rw [hhanded', hsettled', hpending]
      exact h.pending_mem
    deliveries_eq := by
      rw [hhanded', hpending]
      exact h.deliveries_eq
    consumerSeq_eq := by
      rw [hhandouts', hpending]
      exact h.consumerSeq_eq
    dueAt_eq := by
      intro n p hp
      rw [Course.dueAt_concat, hputsOff, Option.none_or]
      exact h.dueAt_eq (hpending ▸ hp)
    kept := by
      rw [hhanded', hsettled', hpolicy, hpending]
      exact fun hacks n hn hy => h.kept hacks n hn (hcontains n (h.le_lastSeq n hn) hy)
    unacknowledged := by
      rw [hhanded', hsettled', hpolicy]
      exact h.unacknowledged }

theorem stored (h : Accounts events x c) {m : StoredMessage} (hnext : m.sequence = x.lastSeq + 1) :
    Accounts (events ++ [.stored m]) (x.commit m) c := by
  refine h.quiet rfl rfl (fun _ => rfl) (h.filed.commit m) (Nat.le_max_left _ _) ?_ rfl rfl rfl
    h.maxDeliver_ne
  intro n hn hcontains
  obtain ⟨w, hw⟩ := Index.contains_iff.1 hcontains
  -- The message that comes has a number that none was given before.
  rw [Index.get?_commit, if_neg (by omega)] at hw
  exact Index.contains_iff.2 ⟨w, hw⟩

theorem removed (h : Accounts events x c) {gone : List Nat} (hloses : x.Loses gone y) :
    Accounts (events ++ [.removed c gone]) y c := by
  refine h.quiet rfl rfl (fun _ => rfl) (h.filed.loses hloses) (Nat.le_of_eq hloses.lastSeq_eq.symm)
    ?_ rfl rfl rfl h.maxDeliver_ne
  intro n _ hcontains
  obtain ⟨w, hw⟩ := Index.contains_iff.1 hcontains
  exact Index.contains_iff.2 ⟨w, hloses.get?_of_get? hw⟩

theorem configured (h : Accounts events x c) {wanted : ConsumerSettings}
    (hwanted : c.settings.MayBecome wanted) :
    Accounts (events ++ [.configured c wanted]) x { c with settings := wanted } :=
  h.quiet rfl rfl (fun _ => rfl) h.filed (Nat.le_refl _) (fun _ _ hn => hn) rfl rfl
    hwanted.fixed_eq.1 hwanted.maxDeliver_ne

theorem attended (h : Accounts events x c) (waiting : Nat) (now : Instant) :
    Accounts events x { c with waiting, lastActive := now } :=
  ⟨h.filed, h.maxDeliver_ne, h.lt_nextSeq, h.le_lastSeq, h.settled_subset, h.pending_mem,
    h.deliveries_eq, h.consumerSeq_eq, h.dueAt_eq, h.kept, h.unacknowledged⟩

/-! ## Handing out -/

section Handing

variable {c' : Cursor} {now : Instant} {again new : List Delivery} {given : List Nat}

/-- What a cursor may hand out: something that is not settled, which counts how often it was handed
out before, and was due if it was. -/
theorem of_handout (h : Accounts events x c) (hhands : Hands x now c again new given c')
    (hd : d ∈ again ++ new) :
    d.sequence ∉ Course.settled events ∧
      d.deliveries = (Course.handedOut events).count d.sequence + 1 ∧
      (∀ most, c.settings.maxDeliver = some most → d.deliveries ≤ most) ∧
      (∀ e ∈ Course.handouts events, e.sequence = d.sequence → e.consumerSeq = d.consumerSeq) ∧
      (d.sequence ∈ Course.handedOut events → c.settings.ackPolicy ≠ .none ∧
        c.pending.contains d.sequence = true ∧
        ∃ due, Course.dueAt events d.sequence = some due ∧ due ≤ now) := by
  rcases List.mem_append.1 hd with hd | hd
  · -- It was pending, and that says what was handed out before.
    obtain ⟨-, p, hp, hdue, hexhausted, hseq, hdeliveries⟩ := hhands.of_again d hd
    refine ⟨(h.pending_mem hp).2, ?_, ?_, ?_, ?_⟩
    · rw [hdeliveries, h.deliveries_eq hp]
    · intro most hmost
      apply Decidable.byContradiction
      intro hlt
      have hspent := (isExhausted_iff c p).2 ⟨most, hmost, by omega⟩
      rw [hexhausted] at hspent
      cases hspent
    · intro e he heq
      rw [hseq, h.consumerSeq_eq hp e he heq]
    · intro _
      refine ⟨fun hnone => ?_, SeqMap.contains_iff.2 ⟨p, hp⟩, p.deadline, h.dueAt_eq hp, hdue⟩
      rw [h.pending_eq_none hnone] at hp
      cases hp
  · -- It is behind everything that was handed out before.
    have hle := (hhands.passes.mem hd).2.2.1
    have hnew : d.sequence ∉ Course.handedOut events := fun hmem => by
      have := h.lt_nextSeq _ hmem
      omega
    have hdeliveries := hhands.passes.deliveries_eq d hd
    refine ⟨fun hmem => hnew (h.settled_subset _ hmem), ?_, ?_, ?_, fun hmem => absurd hmem hnew⟩
    · rw [hdeliveries, List.count_eq_zero_of_not_mem hnew]
    · rintro most hmost
      rw [hdeliveries]
      have hne := h.maxDeliver_ne
      rw [hmost] at hne
      exact Nat.one_le_iff_ne_zero.2 fun hzero => hne (congrArg some hzero)
    · intro e he heq
      exact absurd (heq ▸ List.mem_map_of_mem he) hnew

theorem handedOut_of_again (h : Accounts events x c) (hhands : Hands x now c again new given c')
    (hn : n ∈ again.map Delivery.sequence) : n ∈ Course.handedOut events := by
  obtain ⟨d, hd, rfl⟩ := List.mem_map.1 hn
  obtain ⟨-, p, hp, -⟩ := hhands.of_again d hd
  exact (h.pending_mem hp).1

theorem handedOut_of_given (h : Accounts events x c) (hhands : Hands x now c again new given c')
    (hn : n ∈ given) : n ∈ Course.handedOut events := by
  obtain ⟨p, -, hp, -⟩ := hhands.of_given n hn
  exact (h.pending_mem hp).1

/-- Without acknowledgements nothing that is handed out is pending either. -/
theorem pending_eq_none_of_hands (h : Accounts events x c)
    (hhands : Hands x now c again new given c') (hnone : c.settings.ackPolicy = .none) (n : Nat) :
    c'.pending.get? n = none := by
  cases hq : c'.pending.get? n with
  | none => rfl
  | some q =>
    obtain ⟨-, ⟨d, -, rfl, hd, -⟩ | ⟨-, hp, -⟩⟩ := hhands.pending_cases h.pending_lt hq
    · obtain ⟨-, p, hp, -⟩ := hhands.of_again d (hd hnone)
      rw [h.pending_eq_none hnone] at hp
      cases hp
    · rw [h.pending_eq_none hnone] at hp
      cases hp

/-- What is handed out was handed out before or is new. -/
theorem handedOut_cases (h : Accounts events x c) (hhands : Hands x now c again new given c')
    (hn : n ∈ Course.handedOut events ++ (again ++ new).map Delivery.sequence) :
    n ∈ Course.handedOut events ∨ ∃ d ∈ new, d.sequence = n := by
  rw [List.map_append, List.mem_append, List.mem_append] at hn
  rcases hn with hn | hn | hn
  · exact .inl hn
  · exact .inl (h.handedOut_of_again hhands hn)
  · exact .inr (List.mem_map.1 hn)

/-- What is pending is not among what is settled with it. -/
theorem not_settled_of_hands (h : Accounts events x c) (hhands : Hands x now c again new given c')
    {q : PendingDelivery} (hq : c'.pending.get? n = some q) : n ∉ given ++
      (if c.settings.ackPolicy = .none then new.map Delivery.sequence else []) := by
  rw [List.mem_append]
  rintro (hmem | hmem)
  · rw [hhands.pending_given n hmem] at hq
    cases hq
  · split at hmem
    · next hnone =>
      rw [h.pending_eq_none_of_hands hhands hnone] at hq
      cases hq
    · cases hmem

/-- What is handed out is accounted for. -/
theorem hands (h : Accounts events x c) (hhands : Hands x now c again new given c')
    {e : CursorEvent} (hhandouts : e.handouts = again ++ new)
    (hsettled : e.settled = given ++
      (if c.settings.ackPolicy = .none then new.map Delivery.sequence else []))
    (hputsOff : ∀ n, e.putsOff n = if n ∈ (again ++ new).map Delivery.sequence then
      some (c.redeliveryAt now) else none) : Accounts (events ++ [e]) x c' := by
  have hpolicy : c'.settings.ackPolicy = c.settings.ackPolicy :=
    congrArg ConsumerSettings.ackPolicy hhands.settings_eq
  have hhanded : Course.handedOut (events ++ [e]) =
      Course.handedOut events ++ (again ++ new).map Delivery.sequence := by
    rw [Course.handedOut_concat, hhandouts]
  have hsettled' : Course.settled (events ++ [e]) = Course.settled events ++ (given ++
      (if c.settings.ackPolicy = .none then new.map Delivery.sequence else [])) := by
    rw [Course.settled_concat, hsettled]
  exact {
    filed := h.filed
    maxDeliver_ne := hhands.settings_eq ▸ h.maxDeliver_ne
    lt_nextSeq := by
      intro n hn
      rcases h.handedOut_cases hhands (hhanded ▸ hn) with hn | ⟨d, hd, rfl⟩
      · exact Nat.lt_of_lt_of_le (h.lt_nextSeq n hn) hhands.passes.nextSeq_le
      · exact (hhands.passes.mem hd).2.2.2
    le_lastSeq := by
      intro n hn
      rcases h.handedOut_cases hhands (hhanded ▸ hn) with hn | ⟨d, hd, rfl⟩
      · exact h.le_lastSeq n hn
      · exact h.filed.le_lastSeq (hhands.passes.mem hd).1
    settled_subset := by
      intro n hn
      rw [hsettled', List.mem_append, List.mem_append] at hn
      rw [hhanded, List.map_append, List.mem_append, List.mem_append]
      rcases hn with hn | hn | hn
      · exact .inl (h.settled_subset n hn)
      · exact .inl (h.handedOut_of_given hhands hn)
      · split at hn
        · exact .inr (.inr hn)
        · cases hn
    pending_mem := by
      intro n q hq
      have hnot := h.not_settled_of_hands hhands hq
      rw [hhanded, hsettled', List.mem_append, List.mem_append, not_or]
      obtain ⟨-, ⟨d, hd, rfl, -, -⟩ | ⟨-, hp, -⟩⟩ := hhands.pending_cases h.pending_lt hq
      · exact ⟨.inr (List.mem_map_of_mem hd), (h.of_handout hhands hd).1, hnot⟩
      · exact ⟨.inl (h.pending_mem hp).1, (h.pending_mem hp).2, hnot⟩
    deliveries_eq := by
      intro n q hq
      rw [hhanded, List.count_append]
      obtain ⟨-, ⟨d, hd, rfl, -, rfl⟩ | ⟨hnot, hp, -⟩⟩ := hhands.pending_cases h.pending_lt hq
      · rw [List.count_eq_one_of_mem hhands.nodup (List.mem_map_of_mem hd)]
        exact (h.of_handout hhands hd).2.1
      · rw [List.count_eq_zero_of_not_mem hnot]
        exact h.deliveries_eq hp
    consumerSeq_eq := by
      intro n q hq w hw hseq
      rw [Course.handouts_concat, hhandouts, List.mem_append] at hw
      obtain ⟨-, ⟨d, hd, rfl, -, rfl⟩ | ⟨hnot, hp, -⟩⟩ := hhands.pending_cases h.pending_lt hq
      · rcases hw with hw | hw
        · exact (h.of_handout hhands hd).2.2.2.1 w hw hseq
        · rw [List.inj_on_of_nodup_map hhands.nodup hw hd hseq]
      · rcases hw with hw | hw
        · exact h.consumerSeq_eq hp w hw hseq
        · exact absurd (hseq ▸ List.mem_map_of_mem hw) hnot
    dueAt_eq := by
      intro n q hq
      rw [Course.dueAt_concat, hputsOff]
      obtain ⟨-, ⟨d, hd, rfl, -, rfl⟩ | ⟨hnot, hp, -⟩⟩ := hhands.pending_cases h.pending_lt hq
      · rw [if_pos (List.mem_map_of_mem hd)]
        rfl
      · rw [if_neg hnot]
        exact h.dueAt_eq hp
    -- What is handed out now is pending, and what was pending before is so unless it was given up.
    kept := by
      intro hacks n hn hx hnot
      rw [hpolicy] at hacks
      rw [hhanded, List.mem_append] at hn
      rw [hsettled', List.mem_append, List.mem_append, not_or, not_or] at hnot
      obtain ⟨hnot, hgiven, -⟩ := hnot
      by_cases hnow : n ∈ (again ++ new).map Delivery.sequence
      · obtain ⟨d, hd, rfl⟩ := List.mem_map.1 hnow
        rcases List.mem_append.1 hd with hd | hd
        · exact SeqMap.contains_iff.2 ⟨_, hhands.pending_again d hd⟩
        · exact SeqMap.contains_iff.2 ⟨_, hhands.pending_new hacks d hd⟩
      · have hold := h.kept hacks n (hn.resolve_right hnow) hx hnot
        rw [List.map_append, List.mem_append, not_or] at hnow
        rw [SeqMap.contains, hhands.pending_eq n hnow.1 hgiven (.inr hnow.2), if_pos hx]
        exact hold
    unacknowledged := by
      intro hnone n hn
      rw [hpolicy] at hnone
      rw [hsettled', if_pos hnone, List.mem_append, List.mem_append]
      rcases h.handedOut_cases hhands (hhanded ▸ hn) with hn | ⟨d, hd, rfl⟩
      · exact .inl (h.unacknowledged hnone n hn)
      · exact .inr (.inr (List.mem_map_of_mem hd)) }

theorem collected (h : Accounts events x c) (l : Limits) (now : Instant) :
    Accounts (events ++ [.collected c x l now]) x (c.collect x l now).1 := by
  obtain ⟨again, new, given, hd, hs, hhands, -⟩ := hands_collect h.filed h.pending_lt l now
  refine h.hands hhands hd hs fun n => ?_
  rw [CursorEvent.putsOff, hd]
  rfl

end Handing

/-! ## Acknowledging -/

theorem putsOff_acknowledged (c : Cursor) (n k : Nat) (kind : AckKind) (now : Instant) :
    CursorEvent.putsOff k (.acknowledged c n kind now) =
      if k = n then c.newDeadline now kind else none := by
  cases kind with
  | nak delay => rfl
  | inProgress => rfl
  | ack => exact (ite_self _).symm
  | confirmedAck => exact (ite_self _).symm
  | terminate => exact (ite_self _).symm

/-- What is pending behind an acknowledgement was pending before, and may have been put off. -/
theorem exists_pending_of_acknowledge {n k : Nat} {kind : AckKind} {now : Instant}
    {q : PendingDelivery} (hq : (c.acknowledge n kind now).2.pending.get? k = some q) :
    k ∉ c.settledBy n kind ∧ ∃ p, c.pending.get? k = some p ∧ q.consumerSeq = p.consumerSeq ∧
      q.deliveries = p.deliveries ∧ some q.deadline =
        (CursorEvent.putsOff k (.acknowledged c n kind now)).or (some p.deadline) := by
  rw [get?_pending_acknowledge] at hq
  rw [putsOff_acknowledged]
  split at hq
  · cases hq
  · next hnot =>
    refine ⟨hnot, ?_⟩
    cases hdeadline : c.newDeadline now kind with
    | none =>
      rw [hdeadline] at hq
      exact ⟨q, hq, rfl, rfl, by rw [ite_self, Option.none_or]⟩
    | some deadline =>
      rw [hdeadline] at hq
      dsimp only at hq
      split at hq
      · next hk =>
        obtain ⟨p, hp, rfl⟩ := Option.map_eq_some_iff.1 hq
        exact ⟨p, hp, rfl, rfl, by rw [if_pos hk]; rfl⟩
      · next hk => exact ⟨q, hq, rfl, rfl, by rw [if_neg hk]; rfl⟩

/-- An acknowledgement settles what it covers, or puts a delivery off. -/
theorem acknowledged (h : Accounts events x c) (n : Nat) (kind : AckKind) (now : Instant) :
    Accounts (events ++ [.acknowledged c n kind now]) x (c.acknowledge n kind now).2 := by
  have hplace := samePlace_acknowledge c n kind now
  have hpolicy : (c.acknowledge n kind now).2.settings.ackPolicy = c.settings.ackPolicy :=
    congrArg ConsumerSettings.ackPolicy hplace.settings
  have hhandouts : Course.handouts (events ++ [.acknowledged c n kind now]) =
      Course.handouts events := by
    rw [Course.handouts_concat]
    exact List.append_nil _
  have hhanded : Course.handedOut (events ++ [.acknowledged c n kind now]) =
      Course.handedOut events := by
    rw [Course.handedOut, hhandouts, Course.handedOut]
  have hsettled : Course.settled (events ++ [.acknowledged c n kind now]) =
      Course.settled events ++ c.settledBy n kind := Course.settled_concat ..
  exact {
    filed := h.filed
    maxDeliver_ne := hplace.settings ▸ h.maxDeliver_ne
    lt_nextSeq := by
      rw [hhanded, hplace.nextSeq]
      exact h.lt_nextSeq
    le_lastSeq := by
      rw [hhanded]
      exact h.le_lastSeq
    settled_subset := by
      intro k hk
      rw [hsettled, List.mem_append] at hk
      rw [hhanded]
      rcases hk with hk | hk
      · exact h.settled_subset k hk
      · obtain ⟨p, hp⟩ := SeqMap.contains_iff.1 ((mem_settledBy_iff ..).1 hk).1
        exact (h.pending_mem hp).1
    pending_mem := by
      intro k q hq
      obtain ⟨hnot, p, hp, -⟩ := exists_pending_of_acknowledge hq
      rw [hhanded, hsettled, List.mem_append, not_or]
      exact ⟨(h.pending_mem hp).1, (h.pending_mem hp).2, hnot⟩
    deliveries_eq := by
      intro k q hq
      obtain ⟨-, p, hp, -, hdeliveries, -⟩ := exists_pending_of_acknowledge hq
      rw [hhanded, hdeliveries, h.deliveries_eq hp]
    consumerSeq_eq := by
      intro k q hq d hd hseq
      obtain ⟨-, p, hp, hconsumerSeq, -⟩ := exists_pending_of_acknowledge hq
      rw [hhandouts] at hd
      rw [h.consumerSeq_eq hp d hd hseq, hconsumerSeq]
    dueAt_eq := by
      intro k q hq
      obtain ⟨-, p, hp, -, -, hdeadline⟩ := exists_pending_of_acknowledge hq
      rw [Course.dueAt_concat, h.dueAt_eq hp, hdeadline]
    kept := by
      intro hacks k hk hx hnot
      rw [hhanded] at hk
      rw [hsettled, List.mem_append, not_or] at hnot
      obtain ⟨p, hp⟩ := SeqMap.contains_iff.1 (h.kept (hpolicy ▸ hacks) k hk hx hnot.1)
      -- What is not settled stays, whenever it is due now.
      rw [SeqMap.contains, get?_pending_acknowledge, if_neg hnot.2, hp]
      split
      · split <;> rfl
      · rfl
    unacknowledged := by
      intro hnone k hk
      rw [hhanded] at hk
      rw [hsettled]
      exact List.mem_append_left _ (h.unacknowledged (hpolicy ▸ hnone) k hk) }

end Accounts

/-! ## Courses -/

variable {settings : ConsumerSettings} {x₀ : Index}

theorem Course.accounts (course : Course settings x₀ events x c) : Accounts events x c := by
  induction course with
  | created hx h => exact accounts_start hx h _
  | stored course hnext ih => exact ih.stored hnext
  | removed course h ih => exact ih.removed h
  | collected course l now ih => exact ih.collected l now
  | acknowledged course n kind now ih => exact ih.acknowledged n kind now
  | configured course h ih => exact ih.configured h
  | attended course waiting now ih => exact ih.attended waiting now

/-- What an event of a course settles, it settles for a reason. -/
theorem Course.settles (course : Course settings x₀ events x c) :
    ∀ e ∈ events, ∀ n ∈ e.settled, e.Settles n := by
  induction course with
  | created hx h => exact fun e he => nomatch he
  | stored course hnext ih => exact forall_mem_concat.2 ⟨ih, fun n hn => nomatch hn⟩
  | removed course h ih => exact forall_mem_concat.2 ⟨ih, fun n hn => nomatch hn⟩
  | collected course l now ih =>
    have haccounts := course.accounts
    obtain ⟨again, new, given, hd, hs, hhands, -⟩ :=
      hands_collect haccounts.filed haccounts.pending_lt l now
    refine forall_mem_concat.2 ⟨ih, fun n hn => ?_⟩
    rw [CursorEvent.settled, hs, List.mem_append] at hn
    rcases hn with hn | hn
    · exact .inl (hhands.of_given n hn)
    · split at hn
      · -- Without acknowledgements what is new is settled as it is handed out.
        next hnone =>
        refine .inr ⟨hnone, ?_⟩
        rw [hd, List.map_append]
        exact List.mem_append_right _ hn
      · cases hn
  | acknowledged course n kind now ih =>
    exact forall_mem_concat.2 ⟨ih, fun k hk => (mem_settledBy_iff ..).1 hk⟩
  | configured course h ih => exact forall_mem_concat.2 ⟨ih, fun n hn => nomatch hn⟩
  | attended course waiting now ih => exact ih

/-- **A delivery is kept until it is settled, and not repeated any more then.**  At any time in any
course of a consumer, what was handed out to be acknowledged is pending as long as it is in the
stream and not settled, and it is settled only by an acknowledgement that covers it or when it is
due but was delivered as often as is allowed.  What is collected next is handed out once; it is not
settled, nor was it handed out before without being to be acknowledged; it tells how often its
message was handed out, which is not more often than is allowed now, and it has the number of the
consumer that its message had before.  If it was handed out before, it is pending and due. -/
theorem Course.kept_until_settled (course : Course settings x₀ events x c) :
    (∀ n ∈ handedOut events, c.settings.ackPolicy ≠ .none → x.contains n = true →
      n ∉ settled events → c.pending.contains n = true) ∧
    (∀ e ∈ events, ∀ n ∈ e.settled, e.Settles n) ∧
    ∀ (l : Limits) (now : Instant),
      ((c.collect x l now).2.deliveries.map Delivery.sequence).Nodup ∧
      ∀ d ∈ (c.collect x l now).2.deliveries,
        d.sequence ∉ settled events ∧
        (c.settings.ackPolicy = .none → d.sequence ∉ handedOut events) ∧
        d.deliveries = (handedOut events).count d.sequence + 1 ∧
        (∀ most, c.settings.maxDeliver = some most → d.deliveries ≤ most) ∧
        (∀ e ∈ handouts events, e.sequence = d.sequence → e.consumerSeq = d.consumerSeq) ∧
        (d.sequence ∈ handedOut events → c.pending.contains d.sequence = true ∧
          ∃ due, dueAt events d.sequence = some due ∧ due ≤ now) := by
  have haccounts := course.accounts
  refine ⟨fun n hn hacks => haccounts.kept hacks n hn, course.settles, fun l now => ?_⟩
  obtain ⟨again, new, given, hd, -, hhands, -⟩ :=
    hands_collect haccounts.filed haccounts.pending_lt l now
  rw [hd]
  refine ⟨hhands.nodup, fun d hd => ?_⟩
  obtain ⟨hsettled, hdeliveries, hmost, hconsumerSeq, hbefore⟩ := haccounts.of_handout hhands hd
  refine ⟨hsettled, fun hnone hn => ?_, hdeliveries, hmost, hconsumerSeq, fun hn => ?_⟩
  · exact (hbefore hn).1 hnone
  · exact (hbefore hn).2

/-- What is not acknowledged in time is handed out a second time. -/
theorem repeated_after_wait :
    ∃ settings x₀ events x c d, Course settings x₀ events x c ∧ Course.handedOut events = [1] ∧
      (c.collect x { batch := 1 } (Duration.ofSeconds 30).nanos).2.deliveries = [d] ∧
      d.deliveries = 2 ∧ ∃ due, Course.dueAt events 1 = some due ∧
        due ≤ (Duration.ofSeconds 30).nanos := by
  obtain ⟨x₀, settings, c, d, hx₀, hsettings, hc, hhanded, hcollect, hd⟩ :
      ∃ x₀ settings c d, x₀ = Index.empty.commit ⟨1, "s", [], [], Timestamp.ofMicros 0⟩ ∧
        settings = ConsumerSettings.withDefaults { name := some "C" } {} ∧
        c = ((start settings x₀ 0).collect x₀ { batch := 1 } 0).1 ∧
        Course.handedOut [.collected (start settings x₀ 0) x₀ { batch := 1 } 0] = [1] ∧
        (c.collect x₀ { batch := 1 } (Duration.ofSeconds 30).nanos).2.deliveries = [d] ∧
        d.sequence = 1 := ⟨_, _, _, _, rfl, rfl, rfl, rfl, rfl, rfl⟩
  have hfiled : x₀.Filed := hx₀ ▸ Index.empty_sound.filed.commit _
  have haccepted : settings.IsAccepted := ⟨{}, some "C", {}, rfl, hsettings⟩
  have course : Course settings x₀ _ x₀ c :=
    hc ▸ (Course.created hfiled haccepted).collected { batch := 1 } 0
  obtain ⟨-, -, hnext⟩ := course.kept_until_settled
  obtain ⟨-, -, hdeliveries, -, -, hdue⟩ :=
    (hnext { batch := 1 } (Duration.ofSeconds 30).nanos).2 d (by rw [hcollect]; simp)
  rw [hd] at hdeliveries hdue
  refine ⟨_, _, _, _, _, d, course, hhanded, hcollect, ?_, ?_⟩
  · rw [hdeliveries]
    exact congrArg (fun ns => List.count 1 ns + 1) hhanded
  · exact (hdue (hhanded ▸ List.mem_singleton_self 1)).2

end Cursor

end StreamBroker
