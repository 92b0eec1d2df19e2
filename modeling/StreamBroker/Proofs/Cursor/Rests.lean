import StreamBroker.Proofs.Cursor.Handed

/-!
# Cursors that rest

A cursor rests when it has nothing to hand out before an instant: no delivery is repeated before
then, and for what is new either no more deliveries may be pending, or nothing is left.  A pull that
got nothing leaves its cursor at rest until the instant at which it is to look again, and before
that instant nobody else gets anything from the cursor either.  It stays at rest when messages go,
as long as they are not those that are pending: one that is pending and goes makes room.

## Main definitions

* `Cursor.Rests`: a cursor has nothing to hand out before an instant

## Main results

* `Cursor.rests_of_collect`: a cursor that handed out nothing rests
* `Cursor.Rests.collect_eq`: a cursor that rests hands out nothing
* `Cursor.Rests.of_subset`: it rests when messages go
-/

namespace StreamBroker.Cursor

variable {c c' : Cursor} {x y : Index} {l : Limits} {now wake : Instant}

/-- A cursor has nothing to hand out before an instant. -/
structure Rests (c : Cursor) (x : Index) (wake : Instant) : Prop where
  /-- No delivery is repeated before. -/
  le_deadline : ∀ n p, c.pending.get? n = some p → wake ≤ p.deadline
  /-- No more deliveries may be pending, or the consumer gets none of the messages that are left. -/
  spent : c.isBlocked = true ∨ ∀ m, x.get? m.sequence = some m → c.nextSeq ≤ m.sequence →
    c.isEligible m.sequence m.subject = false

namespace Rests

/-- Fewer messages are no reason to hand out one. -/
theorem of_subset (h : c.Rests x wake)
    (hsub : ∀ n m, y.get? n = some m → x.get? n = some m) : c.Rests y wake where
  le_deadline := h.le_deadline
  spent := h.spent.imp_right fun hall m hm => hall m (hsub _ m hm)

/-- A cursor at the same place that keeps the same deliveries rests as well. -/
theorem congr (h : c.Rests x wake) (hplace : c.SamePlace c') (hpending : c'.pending = c.pending) :
    c'.Rests x wake where
  le_deadline n p hp := h.le_deadline n p (hpending ▸ hp)
  spent := by
    rw [isBlocked, hplace.settings, hpending, hplace.nextSeq]
    refine h.spent.imp_right fun hall m hm hle => ?_
    rw [hplace.sameChoice.isEligible_eq]
    exact hall m hm hle

end Rests

/-! ## Coming to rest -/

/-- A pull that got nothing new ended where no more deliveries may be pending, or behind all
messages. -/
theorem spent_deliverNew (hbatch : l.batch ≠ 0) (ms : List StoredMessage) (c : Cursor) (h : Haul)
    (hnone : (deliverNew x l now ms c h).2.deliveries = [])
    (hfits : (deliverNew x l now ms c h).2.oversized = none) :
    (deliverNew x l now ms c h).1.isBlocked = true ∨
      x.lastSeq < (deliverNew x l now ms c h).1.nextSeq := by
  -- An empty haul is below every limit.
  have hfull {c : Cursor} {h : Haul} (hd : h.deliveries = [])
      (hstop : (l.isReached h || c.isBlocked) = true) : c.isBlocked = true := by
    rw [Limits.isReached, hd] at hstop
    simpa [hbatch] using hstop
  induction ms generalizing c h with
  | nil =>
    rw [deliverNew] at hnone hfits ⊢
    split at hnone
    · next hstop =>
      rw [if_pos hstop]
      exact .inl (hfull hnone hstop)
    · next hgoes =>
      rw [if_neg hgoes]
      exact .inr (Nat.lt_of_succ_le (Nat.le_max_right _ _))
  | cons m ms ih =>
    rw [deliverNew] at hnone hfits ⊢
    split at hnone
    · next hstop =>
      rw [if_pos hstop]
      exact .inl (hfull hnone hstop)
    · next hgoes =>
      rw [if_neg hgoes] at hfits ⊢
      split at hnone
      · next hskip =>
        rw [if_pos hskip] at hfits ⊢
        exact ih c h hnone hfits
      · next heligible =>
        rw [if_neg heligible] at hfits ⊢
        split at hnone
        · next hroom =>
          rw [if_pos hroom] at hfits ⊢
          exact ih _ _ hnone hfits
        · next hroom =>
          -- A message without room in an empty haul is too large.
          rw [if_neg hroom] at hfits
          have hempty : h.deliveries = [] := by
            rw [Haul.refuse] at hnone
            split at hnone <;> exact hnone
          rw [Haul.refuse, hempty, List.isEmpty_nil, if_pos rfl] at hfits
          cases hfits

/-- **A cursor that handed out nothing rests** until the first of its deliveries is repeated. -/
theorem rests_of_collect {haul : Haul} (hx : x.Filed) (hbatch : l.batch ≠ 0)
    (h : c.collect x l now = (c', haul)) (hnone : haul.deliveries = [])
    (hfits : haul.oversized = none) (hwake : ∀ i ∈ c'.nextDeadline, wake ≤ i) :
    c'.Rests x wake := by
  have hspent : c'.isBlocked = true ∨ x.lastSeq < c'.nextSeq := by
    rw [collect] at h
    dsimp only at h
    by_cases hoversized : (c.collectDue x l now).2.oversized.isSome = true
    · rw [if_pos hoversized] at h
      cases h
      rw [hfits] at hoversized
      cases hoversized
    · rw [if_neg hoversized] at h
      cases h
      have hleft := spent_deliverNew hbatch _ _ _ hnone hfits
      split
      · exact hleft
      · exact hleft
  refine ⟨fun n p hp => ?_, hspent.imp_right fun hlast m hm hle => ?_⟩
  · cases hdeadline : c'.nextDeadline with
    | none =>
      rw [nextDeadline, List.min?_eq_none_iff, List.map_eq_nil_iff] at hdeadline
      have hmem := SeqMap.mem_values_iff.2 ⟨n, hp⟩
      rw [hdeadline] at hmem
      cases hmem
    | some i =>
      have hi := (List.min?_eq_some_iff.1 hdeadline).2 p.deadline
        (List.mem_map_of_mem (SeqMap.mem_values_iff.2 ⟨n, hp⟩))
      exact Nat.le_trans (hwake i hdeadline) hi
  · exact absurd (hx.le_lastSeq hm) (Nat.not_le_of_lt (Nat.lt_of_lt_of_le hlast hle))

/-! ## At rest -/

/-- Nothing is forgotten when all that is pending is there. -/
theorem dropRemoved_eq (h : ∀ n, c.pending.contains n = true → x.contains n = true) :
    c.dropRemoved x = c := by
  have hkept : c.pending.filter (fun n _ => x.contains n) = c.pending := by
    refine SeqMap.ext_get? fun n => ?_
    rw [SeqMap.get?_filter]
    cases hp : c.pending.get? n with
    | none => rfl
    | some p => simp [h n (SeqMap.contains_iff.2 ⟨p, hp⟩)]
  rw [dropRemoved, hkept, if_pos rfl]

/-- Where the consumer gets no message, nothing is handed out for the first time. -/
theorem deliverNew_eq (x : Index) (l : Limits) (now : Instant) (ms : List StoredMessage) (h : Haul)
    (hspent : c.isBlocked = true ∨ ∀ m ∈ ms, c.isEligible m.sequence m.subject = false) :
    ∃ next, c.nextSeq ≤ next ∧ deliverNew x l now ms c h = ({ c with nextSeq := next }, h) := by
  induction ms with
  | nil =>
    rw [deliverNew]
    split
    · exact ⟨c.nextSeq, Nat.le_refl _, rfl⟩
    · exact ⟨_, Nat.le_max_left _ _, rfl⟩
  | cons m ms ih =>
    rw [deliverNew]
    split
    · exact ⟨c.nextSeq, Nat.le_refl _, rfl⟩
    · next hgoes =>
      rw [Bool.or_eq_true, not_or] at hgoes
      have hall := hspent.resolve_left hgoes.2
      rw [if_pos (by simp [hall m List.mem_cons_self])]
      exact ih (.inr fun w hw => hall w (List.mem_cons_of_mem m hw))

/-- **A cursor that rests hands out nothing**, whoever asks and whatever for, and rests on, unless a
message that is pending has gone. -/
theorem Rests.collect_eq (h : c.Rests x wake) (hx : x.Filed) (hnow : now < wake)
    (hpending : ∀ n, c.pending.contains n = true → x.contains n = true) :
    (c.collect x l now).2 = {} ∧ (c.collect x l now).1.Rests x wake := by
  have hdrop := dropRemoved_eq hpending
  -- Before it wakes nothing is due.
  have hdue : due { c with lastActive := now } now = [] := by
    refine List.eq_nil_iff_forall_not_mem.2 fun n hn => ?_
    obtain ⟨p, hp, hle⟩ := (mem_due_iff _ _ _).1 hn
    exact absurd (h.le_deadline n p hp) (Nat.not_le_of_lt (Nat.lt_of_le_of_lt hle hnow))
  have hcollectDue : c.collectDue x l now = ({ c with lastActive := now }, {}) := by
    simp only [collectDue, hdrop, hdue]
    rfl
  have hrests : Rests { c with lastActive := now } x wake := h.congr ⟨rfl, rfl, rfl, rfl, rfl⟩ rfl
  -- What is new is not for it, or it may have no more: the cursor passes over it at most.
  obtain ⟨next, hle, hnew⟩ := deliverNew_eq x l now
    (x.startingAt { c with lastActive := now }.nextSeq) {}
    (hrests.spent.imp_right fun hall m hm =>
      hall m (hx.mem_startingAt_iff.1 hm).1 (hx.mem_startingAt_iff.1 hm).2)
  have hcollect : c.collect x l now = ({ c with lastActive := now, nextSeq := next }, {}) := by
    simp only [collect, hcollectDue, hnew]
    rfl
  rw [hcollect]
  refine ⟨rfl, hrests.le_deadline, hrests.spent.imp_right fun hall m hm hm' => ?_⟩
  exact hall m hm (Nat.le_trans hle hm')

end StreamBroker.Cursor
