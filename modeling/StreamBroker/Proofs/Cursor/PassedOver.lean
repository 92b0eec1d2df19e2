import StreamBroker.Proofs.Cursor.Accounts
import StreamBroker.Proofs.Cursor.Floor

/-!
# What a cursor has passed over

A cursor that goes on passes over the messages that its filter leaves out, and never comes back to
them.  When its consumer is given another filter, such a message may be one that the consumer gets,
and then it counts as needed: it is behind the cursor and not settled, although nothing hands it out
any more.  It is needed until the floor has moved past it.

## Main definitions

* `CursorEvent.PassesOver`: a message is passed over because of the filter
* `Cursor.Surveys`: a cursor has handed out or passed over what is behind it

## Main results

* `Cursor.Surveys.collected`, `Cursor.Surveys.acknowledged`, …: every event keeps it so
* `Cursor.Course.needs_iff`: what a cursor needs is ahead of it, pending, or passed over
* `Cursor.Course.not_delivered_of_passedOver`: what was passed over is not handed out any more
-/

namespace StreamBroker

/-- A cursor goes on behind a message that its filter leaves out. -/
def CursorEvent.PassesOver (m : StoredMessage) : CursorEvent → Prop
  | collected before x l now => x.get? m.sequence = some m ∧
      before.settings.gets m.subject = false ∧ before.nextSeq ≤ m.sequence ∧
        m.sequence < (before.collect x l now).1.nextSeq
  | _ => False

namespace Cursor

variable {events : List CursorEvent} {x y : Index} {c c' : Cursor} {n : Nat} {m : StoredMessage}
  {settings : ConsumerSettings} {subject : String}

/-- What a consumer gets by another filter as well as by its own, it gets. -/
theorem isEligible_of_gets (h : isEligible { c with settings } n subject = true)
    (hgets : c.settings.gets subject = true) : c.isEligible n subject = true := by
  simp only [isEligible, Bool.and_eq_true] at h ⊢
  exact ⟨⟨h.1.1, hgets⟩, h.2⟩

theorem startSeq_le_of_isEligible (h : c.isEligible n subject = true) : c.startSeq ≤ n := by
  rw [isEligible, Bool.and_eq_true, Bool.and_eq_true, decide_eq_true_eq] at h
  exact h.1.1

/-- A cursor has handed out or passed over what is behind it, and its floor tells what is
settled. -/
structure Surveys (events : List CursorEvent) (x : Index) (c : Cursor) : Prop where
  /-- The floor is where it has to be. -/
  grounded : c.Grounded
  /-- Nothing is looked at before it is there. -/
  nextSeq_le : c.nextSeq ≤ max c.startSeq (x.lastSeq + 1)
  /-- What is noted above the floor is settled. -/
  of_acked : ∀ {n}, c.acked.contains n = true → n ∈ Course.settled events
  /-- What is settled counts as settled. -/
  isAcked : ∀ {n}, n ∈ Course.settled events → c.isAcked n = true
  /-- What is behind the cursor was handed out or passed over, whatever the filter is now. -/
  behind : ∀ {n m} (settings : ConsumerSettings), x.get? n = some m →
    isEligible { c with settings } n m.subject = true → n < c.nextSeq →
      n ∈ Course.handedOut events ∨ ∃ e ∈ events, e.PassesOver m
  /-- What was passed over is behind the cursor and was not handed out. -/
  of_passesOver : ∀ e ∈ events, ∀ m, e.PassesOver m →
    m.sequence < c.nextSeq ∧ m.sequence ∉ Course.handedOut events

theorem surveys_start (settings : ConsumerSettings) (x : Index) (now : Instant) :
    Surveys [] x (start settings x now) where
  grounded := grounded_start settings x now
  nextSeq_le := Nat.le_max_left _ _
  of_acked hn := nomatch hn
  isAcked hn := nomatch hn
  behind _ _ heligible hlt := absurd (startSeq_le_of_isEligible heligible) (Nat.not_le_of_lt hlt)
  of_passesOver _ he := nomatch he

namespace Surveys

/-- An event that hands out nothing and passes over nothing, after which the cursor is at the same
place. -/
theorem stays (h : Surveys events x c) {e : CursorEvent} (hhandouts : e.handouts = [])
    (hpasses : ∀ m, ¬e.PassesOver m) (hnotes : Notes c e.settled c')
    (hstart : c'.startSeq = c.startSeq) (hnewest : c'.newestOnly = c.newestOnly)
    (hnext : c'.nextSeq = c.nextSeq) (hlast : x.lastSeq ≤ y.lastSeq)
    (hkeeps : ∀ {n m}, y.get? n = some m → x.get? n = some m ∨ x.lastSeq < n) :
    Surveys (events ++ [e]) y c' := by
  have hhanded : Course.handedOut (events ++ [e]) = Course.handedOut events := by
    rw [Course.handedOut_concat, hhandouts]
    exact List.append_nil _
  have heligible (settings : ConsumerSettings) (n : Nat) (subject : String) :
      isEligible { c' with settings } n subject = isEligible { c with settings } n subject := by
    simp only [isEligible, hstart, hnewest]
  exact {
    grounded := hnotes.grounded
    nextSeq_le := by
      have := h.nextSeq_le
      omega
    of_acked := by
      intro n hn
      rw [Course.settled_concat, List.mem_append]
      exact (hnotes.of_acked hn).imp_left h.of_acked
    isAcked := by
      intro n hn
      rw [Course.settled_concat, List.mem_append] at hn
      exact hnotes.isAcked (hn.imp_left h.isAcked)
    behind := by
      intro n m settings hm he hlt
      rw [heligible] at he
      rw [hnext] at hlt
      rw [hhanded]
      rcases hkeeps hm with hm | hnew
      · apply (h.behind settings hm he hlt).imp_right
        rintro ⟨e, he, hpasses⟩
        exact ⟨e, List.mem_append_left _ he, hpasses⟩
      · -- A message that comes is behind all that was looked at.
        have hstart := startSeq_le_of_isEligible he
        have hle := h.nextSeq_le
        dsimp only at hstart
        omega
    of_passesOver := by
      rw [hhanded, hnext]
      exact forall_mem_concat.2 ⟨h.of_passesOver, fun m hm => absurd hm (hpasses m)⟩ }

theorem stored (h : Surveys events x c) (hnext : m.sequence = x.lastSeq + 1) :
    Surveys (events ++ [.stored m]) (x.commit m) c := by
  refine h.stays rfl (fun _ hm => hm) (.refl h.grounded) rfl rfl rfl (Nat.le_max_left _ _) ?_
  intro n w hw
  rw [Index.get?_commit] at hw
  split at hw
  · exact .inr (by omega)
  · exact .inl hw

theorem removed (h : Surveys events x c) {gone : List Nat} (hloses : x.Loses gone y) :
    Surveys (events ++ [.removed c gone]) y c :=
  h.stays rfl (fun _ hm => hm) (.refl h.grounded) rfl rfl rfl (Nat.le_of_eq hloses.lastSeq_eq.symm)
    fun hm => .inl (hloses.get?_of_get? hm)

theorem configured (h : Surveys events x c) (wanted : ConsumerSettings) :
    Surveys (events ++ [.configured c wanted]) x { c with settings := wanted } := by
  have hnotes : Notes c [] { c with settings := wanted } :=
    ⟨⟨h.grounded.floor_le, h.grounded.le_delivered, h.grounded.floor_le_delivered,
      h.grounded.delivered_lt⟩, .inl, fun hn => hn.resolve_right List.not_mem_nil⟩
  exact h.stays rfl (fun _ hm => hm) hnotes rfl rfl rfl (Nat.le_refl _) .inl

theorem acknowledged (h : Surveys events x c) (n : Nat) (kind : AckKind) (now : Instant) :
    Surveys (events ++ [.acknowledged c n kind now]) x (c.acknowledge n kind now).2 := by
  have hplace := samePlace_acknowledge c n kind now
  exact h.stays rfl (fun _ hm => hm) ((steps_acknowledge x c n kind now).notes h.grounded)
    hplace.startSeq hplace.newestOnly hplace.nextSeq (Nat.le_refl _) .inl

theorem attended (h : Surveys events x c) (waiting : Nat) (now : Instant) :
    Surveys events x { c with waiting, lastActive := now } :=
  ⟨⟨h.grounded.floor_le, h.grounded.le_delivered, h.grounded.floor_le_delivered,
    h.grounded.delivered_lt⟩, h.nextSeq_le, h.of_acked, h.isAcked, h.behind, h.of_passesOver⟩

/-- A cursor that collects hands out what its filter lets through of what it goes over, and passes
over the rest. -/
theorem collected (h : Surveys events x c) (haccounts : Accounts events x c) (l : Limits)
    (now : Instant) : Surveys (events ++ [.collected c x l now]) x (c.collect x l now).1 := by
  obtain ⟨again, new, given, hd, -, hhands, -⟩ :=
    hands_collect haccounts.filed haccounts.pending_lt l now
  have hnotes := (steps_collect haccounts.filed c l now).notes h.grounded
  have hpasses := hhands.passes
  have hhanded : Course.handedOut (events ++ [.collected c x l now]) =
      Course.handedOut events ++ (again ++ new).map Delivery.sequence := by
    rw [Course.handedOut_concat, CursorEvent.handouts, hd]
  exact {
    grounded := hnotes.grounded
    nextSeq_le := by
      have hle := h.nextSeq_le
      have hle' := hpasses.le_nextSeq
      rw [hhands.sameChoice.startSeq]
      omega
    of_acked := by
      intro n hn
      rw [Course.settled_concat, List.mem_append]
      exact (hnotes.of_acked hn).imp_left h.of_acked
    isAcked := by
      intro n hn
      rw [Course.settled_concat, List.mem_append] at hn
      exact hnotes.isAcked (hn.imp_left h.isAcked)
    behind := by
      intro n m settings hm heligible hlt
      obtain rfl := haccounts.filed.sequence_eq hm
      have heligible : isEligible { c with settings } m.sequence m.subject = true := by
        simpa only [isEligible, hhands.sameChoice.startSeq, hhands.sameChoice.newestOnly]
          using heligible
      rw [hhanded, List.mem_append]
      rcases Nat.lt_or_ge m.sequence c.nextSeq with hbehind | hahead
      · rcases h.behind settings hm heligible hbehind with hmem | ⟨e, he, hover⟩
        · exact .inl (.inl hmem)
        · exact .inr ⟨e, List.mem_append_left _ he, hover⟩
      · -- The filter of now decides about what the cursor goes over now.
        by_cases hgets : c.settings.gets m.subject = true
        · obtain ⟨d, hmem, hdm⟩ := List.mem_map.1 ((hpasses.mem_iff m).2
            ⟨hm, isEligible_of_gets heligible hgets, hahead, hlt⟩)
          refine .inl (.inr (List.mem_map.2 ⟨d, List.mem_append_right _ hmem, ?_⟩))
          rw [Delivery.sequence, hdm]
        · exact .inr ⟨_, List.mem_append_right _ (List.mem_singleton_self _), hm,
            Bool.eq_false_iff.2 hgets, hahead, hlt⟩
    of_passesOver := by
      rw [hhanded]
      refine forall_mem_concat.2 ⟨fun e he m hover => ?_, fun m hover => ?_⟩
      · obtain ⟨hlt, hmem⟩ := h.of_passesOver e he m hover
        refine ⟨Nat.lt_of_lt_of_le hlt hpasses.nextSeq_le, fun hnow => ?_⟩
        rcases haccounts.handedOut_cases hhands hnow with hbefore | ⟨d, hdmem, hseq⟩
        · exact hmem hbefore
        · exact hpasses.notMem hlt (List.mem_map.2 ⟨d, hdmem, hseq⟩)
      · obtain ⟨hm, hgets, hle, hlt⟩ := hover
        refine ⟨hlt, fun hnow => ?_⟩
        rcases haccounts.handedOut_cases hhands hnow with hbefore | ⟨d, hdmem, hseq⟩
        · exact absurd (haccounts.lt_nextSeq _ hbefore) (Nat.not_lt_of_le hle)
        · -- What is handed out for the first time is let through by the filter.
          obtain ⟨hget, heligible, -⟩ := hpasses.mem hdmem
          rw [hseq, hm, Option.some.injEq] at hget
          rw [isEligible, ← hget, hgets, Bool.and_false, Bool.false_and] at heligible
          cases heligible }

end Surveys

/-! ## Courses -/

variable {x₀ : Index}

theorem Course.surveys (course : Course settings x₀ events x c) : Surveys events x c := by
  induction course with
  | created hx h => exact surveys_start ..
  | stored course hnext ih => exact ih.stored hnext
  | removed course h ih => exact ih.removed h
  | collected course l now ih => exact ih.collected course.accounts l now
  | acknowledged course n kind now ih => exact ih.acknowledged n kind now
  | configured course h ih => exact ih.configured _
  | attended course waiting now ih => exact ih.attended waiting now

/-- **What a cursor needs is ahead of it, or above its floor and pending or passed over**, if the
consumer gets it at all. -/
theorem Course.needs_iff (course : Course settings x₀ events x c) (hm : x.get? n = some m) :
    c.needs n m.subject = true ↔ c.isEligible n m.subject = true ∧ (c.nextSeq ≤ n ∨
      c.ackFloor.stream < n ∧ (c.pending.contains n = true ∨ ∃ e ∈ events, e.PassesOver m)) := by
  have haccounts := course.accounts
  have hsurveys := course.surveys
  rw [needs, Bool.and_eq_true, Bool.or_eq_true, decide_eq_true_eq, Bool.not_eq_true']
  refine and_congr_right fun heligible => or_congr_right' fun hlt => ?_
  constructor
  · intro hopen
    have hsettled : n ∉ Course.settled events := fun hmem => by
      rw [hsurveys.isAcked hmem] at hopen
      cases hopen
    have hfloor : c.ackFloor.stream < n := by
      rw [← Bool.not_eq_true, isAcked_iff, not_or] at hopen
      exact Nat.lt_of_not_le hopen.1
    refine ⟨hfloor, ?_⟩
    -- What was handed out and is not settled is kept.
    apply (hsurveys.behind c.settings hm heligible (Nat.lt_of_not_le hlt)).imp_left
    intro hhanded
    refine haccounts.kept (fun hnone => ?_) n hhanded (Index.contains_iff.2 ⟨m, hm⟩) hsettled
    exact hsettled (haccounts.unacknowledged hnone n hhanded)
  · rintro ⟨hfloor, hleft⟩
    apply Bool.eq_false_iff.2
    intro hacked
    have hsettled : n ∈ Course.settled events :=
      hsurveys.of_acked ((isAcked_iff.1 hacked).resolve_left (Nat.not_le_of_lt hfloor))
    rcases hleft with hpending | ⟨e, he, hover⟩
    · obtain ⟨p, hp⟩ := SeqMap.contains_iff.1 hpending
      exact (haccounts.pending_mem hp).2 hsettled
    · obtain rfl := haccounts.filed.sequence_eq hm
      exact (hsurveys.of_passesOver e he m hover).2 (haccounts.settled_subset _ hsettled)

/-- **What was passed over is not handed out any more**, whenever the cursor collects. -/
theorem Course.not_delivered_of_passedOver (course : Course settings x₀ events x c)
    (hover : ∃ e ∈ events, e.PassesOver m) :
    m.sequence < c.nextSeq ∧ c.pending.contains m.sequence = false ∧
      ∀ l now, m.sequence ∉ (c.collect x l now).2.deliveries.map Delivery.sequence := by
  have haccounts := course.accounts
  obtain ⟨e, he, hover⟩ := hover
  obtain ⟨hlt, hmem⟩ := course.surveys.of_passesOver e he m hover
  refine ⟨hlt, ?_, fun l now hnow => ?_⟩
  · apply Bool.eq_false_iff.2
    intro hpending
    obtain ⟨p, hp⟩ := SeqMap.contains_iff.1 hpending
    exact hmem (haccounts.pending_mem hp).1
  · have hnext :=
      (course.collected l now).surveys.of_passesOver e (List.mem_append_left _ he) m hover
    rw [handedOut_concat] at hnext
    exact hnext.2 (List.mem_append_right _ hnow)

end Cursor

end StreamBroker
