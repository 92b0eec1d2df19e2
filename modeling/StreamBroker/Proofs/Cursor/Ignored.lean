import StreamBroker.Proofs.Cursor.Accounts

/-!
# Acknowledgements of what is not pending

A number that was never handed out, or is settled, or was forgotten with its message, is not
pending.  Where deliveries are acknowledged one by one, an acknowledgement of such a number is
ignored.  Where one is about all messages up to a number, the number itself is not looked up: an
acknowledgement that comes twice, or too early, or of a number that does not exist, settles whatever
is pending below it.

## Main definitions

* `Cursor.Sweeps`: an acknowledgement finds something pending below its own number

## Main results

* `Cursor.acknowledge_eq_iff`: an acknowledgement is ignored unless it sweeps
* `Cursor.Sweeps.acknowledge_eq`: one that sweeps is one of the highest number that is pending below
* `Cursor.Course.unknown_sweeps`: what becomes of any acknowledgement of what is not pending
-/

namespace StreamBroker.Cursor

variable {settings : ConsumerSettings} {x₀ x : Index} {events : List CursorEvent} {c : Cursor}
  {n k : Nat} {kind : AckKind} {now : Instant}

/-- An acknowledgement is about all messages up to a number, and finds some of them pending below
it. -/
def Sweeps (c : Cursor) (n : Nat) (kind : AckKind) : Prop :=
  c.settings.ackPolicy = .all ∧ (kind = .ack ∨ kind = .confirmedAck) ∧
    ∃ k < n, c.pending.contains k = true

/-! ## Ignored -/

theorem settledBy_eq_nil_iff (hn : c.pending.contains n = false) :
    c.settledBy n kind = [] ↔ ¬c.Sweeps n kind := by
  have hne {k : Nat} (hk : c.pending.contains k = true) : k ≠ n := fun h => by
    rw [h, hn] at hk
    cases hk
  rw [List.eq_nil_iff_forall_not_mem]
  constructor
  · rintro hnone ⟨hall, hkind, k, hlt, hk⟩
    exact hnone k ((mem_settledBy_iff ..).2 ⟨hk, .inl ⟨hkind, .inr ⟨hall, Nat.le_of_lt hlt⟩⟩⟩)
  · intro hnot k hmem
    obtain ⟨hk, ⟨hkind, ⟨-, heq⟩ | ⟨hall, hle⟩⟩ | ⟨-, heq⟩⟩ := (mem_settledBy_iff ..).1 hmem
    · exact hne hk heq
    · exact hnot ⟨hall, hkind, k, Nat.lt_of_le_of_ne hle (hne hk), hk⟩
    · exact hne hk heq

/-- What is not pending is not put off either. -/
theorem pending_acknowledge_of_ignored (hn : c.pending.contains n = false)
    (hnone : c.settledBy n kind = []) (now : Instant) :
    (c.acknowledge n kind now).2.pending = c.pending := by
  apply SeqMap.ext_get?
  intro k
  rw [get?_pending_acknowledge, hnone, if_neg List.not_mem_nil]
  split
  · split
    · next hk => rw [hk, SeqMap.contains_eq_false_iff.1 hn, Option.map_none]
    · rfl
  · rfl

/-- **An acknowledgement of what is not pending is ignored, unless it sweeps.** -/
theorem acknowledge_eq_iff (hn : c.pending.contains n = false) :
    c.acknowledge n kind now = ([], { c with lastActive := now }) ↔ ¬c.Sweeps n kind := by
  rw [← settledBy_eq_nil_iff hn]
  constructor
  · exact fun h => congrArg Prod.fst h
  · intro hnone
    have hpending := pending_acknowledge_of_ignored hn hnone now
    simp only [acknowledge, hnone, settle, List.isEmpty_nil, if_true] at hpending ⊢
    rw [hpending]

/-! ## Swept -/

/-- Of what is pending below a number there is a highest one. -/
theorem exists_highest_pending (hn : c.pending.contains n = false)
    (h : ∃ k < n, c.pending.contains k = true) :
    ∃ k < n, c.pending.contains k = true ∧
      ∀ j, k < j → j ≤ n → c.pending.contains j = false := by
  obtain ⟨i, hi, hpending⟩ := h
  cases hlast : (c.pending.filter fun k _ => decide (k ≤ n)).last? with
  | none =>
    have hempty := SeqMap.isEmpty_iff.1 (SeqMap.last?_eq_none_iff.1 hlast) i
    rw [← SeqMap.contains_eq_false_iff, SeqMap.contains_filter_fst, hpending,
      decide_eq_true (Nat.le_of_lt hi)] at hempty
    cases hempty
  | some e =>
    obtain ⟨hget, hhighest⟩ := SeqMap.last?_eq_some_iff.1 hlast
    have hk := SeqMap.contains_iff.2 ⟨_, hget⟩
    rw [SeqMap.contains_filter_fst, Bool.and_eq_true, decide_eq_true_eq] at hk
    refine ⟨e.1, Nat.lt_of_le_of_ne hk.2 fun heq => ?_, hk.1, fun j hlt hle => ?_⟩
    · rw [← heq, hk.1] at hn
      cases hn
    · refine Bool.eq_false_iff.2 fun hj => Nat.not_le_of_lt hlt ?_
      obtain ⟨w, hw⟩ := SeqMap.contains_iff.1
        ((SeqMap.contains_filter_fst c.pending (fun k => decide (k ≤ n)) j).trans
          (by rw [hj, decide_eq_true hle]; rfl))
      exact hhighest j w hw

/-- **An acknowledgement that sweeps is one of the highest number that is pending below its own.** -/
theorem Sweeps.acknowledge_eq (h : c.Sweeps n kind) (hk : k < n)
    (hnone : ∀ j, k < j → j ≤ n → c.pending.contains j = false) (now : Instant) :
    c.acknowledge n kind now = c.acknowledge k kind now := by
  obtain ⟨hall, hkind, -⟩ := h
  -- Nothing is pending between the two numbers.
  have hsame : c.pending.keys.filter (· ≤ n) = c.pending.keys.filter (· ≤ k) := by
    refine List.filter_congr fun j hj => ?_
    rw [SeqMap.mem_keys_iff] at hj
    rw [decide_eq_decide]
    constructor
    · intro hle
      refine Nat.le_of_not_lt fun hlt => ?_
      rw [hnone j hlt hle] at hj
      cases hj
    · exact fun hle => Nat.le_trans hle (Nat.le_of_lt hk)
  rcases hkind with rfl | rfl
  · simp only [acknowledge, settledBy, newDeadline, hall, hsame]
  · simp only [acknowledge, settledBy, newDeadline, hall, hsame]

/-! ## Courses -/

/-- **An acknowledgement of what is not pending is ignored, or it sweeps.**  At any time in any
course of a consumer, a number is not pending if it was never handed out or is settled, or behind a
pull if its message is gone.  An acknowledgement of a number that is not pending, whatever it says,
settles nothing and leaves all as it is but the time, unless it is about all messages up to the
number and one of them is pending.  Then it is as good as an acknowledgement of the highest one that
is. -/
theorem Course.unknown_sweeps (course : Course settings x₀ events x c) (n : Nat) (kind : AckKind)
    (now : Instant) :
    (n ∉ handedOut events ∨ n ∈ settled events → c.pending.contains n = false) ∧
    (x.contains n = false → ∀ l, (c.collect x l now).1.pending.contains n = false) ∧
    (c.pending.contains n = false →
      (c.acknowledge n kind now = ([], { c with lastActive := now }) ↔ ¬c.Sweeps n kind) ∧
      (c.Sweeps n kind → ∃ k < n, c.pending.contains k = true ∧
        (∀ j, k < j → j ≤ n → c.pending.contains j = false) ∧
        k ∈ (c.acknowledge n kind now).1 ∧
        c.acknowledge n kind now = c.acknowledge k kind now)) := by
  have haccounts := course.accounts
  refine ⟨fun hn => ?_, fun hx l => ?_, fun hn => ⟨acknowledge_eq_iff hn, fun hsweeps => ?_⟩⟩
  · refine Bool.eq_false_iff.2 fun hpending => ?_
    obtain ⟨p, hp⟩ := SeqMap.contains_iff.1 hpending
    obtain ⟨hhanded, hsettled⟩ := haccounts.pending_mem hp
    exact hn.elim (absurd hhanded) fun h => hsettled h
  · refine Bool.eq_false_iff.2 fun hpending => ?_
    rw [contains_of_pending_collect haccounts.filed haccounts.pending_lt l now hpending] at hx
    cases hx
  · obtain ⟨hall, hkind, hbelow⟩ := hsweeps
    obtain ⟨k, hk, hpending, hnone⟩ := exists_highest_pending hn hbelow
    refine ⟨k, hk, hpending, hnone, ?_, Sweeps.acknowledge_eq ⟨hall, hkind, hbelow⟩ hk hnone now⟩
    exact (mem_settledBy_iff ..).2
      ⟨hpending, .inl ⟨hkind, .inr ⟨hall, Nat.le_of_lt hk⟩⟩⟩

/-- A message that is settled already is acknowledged once more, and another one is settled. -/
theorem unknown_sweeps_twice :
    ∃ settings x₀ events x c, Course settings x₀ events x c ∧ Course.settled events = [2] ∧
      c.pending.contains 2 = false ∧ c.pending.contains 1 = true ∧
      (c.acknowledge 2 .ack 0).1 = [1] ∧ (c.acknowledge 2 .ack 0).2.pending.contains 1 = false ∧
      c.acknowledge 2 .ack 0 = c.acknowledge 1 .ack 0 := by
  obtain ⟨x₀, settings, c, events, hx₀, hsettings, hevents, hc, hall, hkeys, hsettled⟩ :
      ∃ x₀ settings c events,
        x₀ = (Index.empty.commit ⟨1, "s", [], [], Timestamp.ofMicros 0⟩).commit
          ⟨2, "s", [], [], Timestamp.ofMicros 0⟩ ∧
        settings = ConsumerSettings.withDefaults { name := some "C", ackPolicy := .all } {} ∧
        events = [.collected (start settings x₀ 0) x₀ { batch := 2 } 0,
          .acknowledged ((start settings x₀ 0).collect x₀ { batch := 2 } 0).1 2 .terminate 0] ∧
        c = (((start settings x₀ 0).collect x₀ { batch := 2 } 0).1.acknowledge 2 .terminate 0).2 ∧
        c.settings.ackPolicy = .all ∧ c.pending.keys = [1] ∧ Course.settled events = [2] :=
    ⟨_, _, _, _, rfl, rfl, rfl, rfl, rfl, rfl, rfl⟩
  have hfiled : x₀.Filed := hx₀ ▸ (Index.empty_sound.filed.commit _).commit _
  have haccepted : settings.IsAccepted := ⟨{ ackPolicy := .all }, some "C", {}, rfl, hsettings⟩
  have course : Course settings x₀ events x₀ c := by
    rw [hevents, hc]
    exact ((Course.created hfiled haccepted).collected { batch := 2 } 0).acknowledged 2 .terminate 0
  have hone : c.pending.contains 1 = true :=
    SeqMap.mem_keys_iff.1 (hkeys ▸ List.mem_singleton_self 1)
  obtain ⟨hnot, -, hsweeps⟩ := course.unknown_sweeps 2 .ack 0
  have htwo := hnot (.inr (hsettled ▸ List.mem_singleton_self 2))
  obtain ⟨k, -, hk, -, -, heq⟩ := (hsweeps htwo).2 ⟨hall, .inl rfl, 1, by decide, hone⟩
  obtain rfl : k = 1 := by
    rw [← SeqMap.mem_keys_iff, hkeys] at hk
    exact List.mem_singleton.1 hk
  have hfirst : c.settledBy 2 .ack = [1] := by
    simp only [settledBy, hall, hkeys]
    rfl
  have hgone : (c.acknowledge 2 .ack 0).2.pending.get? 1 = none := by
    rw [get?_pending_acknowledge, hfirst, if_pos (List.mem_singleton_self 1)]
  exact ⟨settings, x₀, events, x₀, c, course, hsettled, htwo, hone, hfirst,
    SeqMap.contains_eq_false_iff.2 hgone, heq⟩

end StreamBroker.Cursor
