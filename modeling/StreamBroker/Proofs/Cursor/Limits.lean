import StreamBroker.Proofs.Cursor.Accounts
import StreamBroker.Proofs.Cursor.Rests

/-!
# The limits of a pull

A pull has so many messages and so many bytes for what is repeated and for what is new, and a
consumer has so many slots for what is pending.  What a pull gives up frees its slot at once, so
that the same pull may fill it again.  A message that is too large for what is left ends the pull;
it is reported only if the pull has nothing, which is when it is too large for the whole pull.

## Main definitions

* `Cursor.PullInvariant`: what every step of a pull keeps
* `Cursor.next?`: the message that a pull comes to first, however large it is

## Main results

* `Cursor.PullInvariant.collect`: what every step keeps, the whole pull keeps
* `Cursor.answers_collect`: a pull has something, or reports the message that it came to first
* `Cursor.Course.collect_within`: a pull keeps all limits
-/

namespace StreamBroker.Cursor

variable {settings : ConsumerSettings} {x₀ x : Index} {events : List CursorEvent} {c c' : Cursor}
  {l : Limits} {h : Haul} {m : StoredMessage} {n : Nat} {now : Instant}

/-! ## Pulls step by step -/

/-- What every step of a pull keeps. -/
structure PullInvariant (x : Index) (l : Limits) (now : Instant) (P : Cursor → Haul → Prop) :
    Prop where
  /-- A delivery is given up. -/
  givenUp : ∀ {c h n}, P c h → P (c.giveUp n) (h.settle n)
  /-- A delivery is repeated, if there is room for it. -/
  repeated : ∀ {c h n d}, P c h → l.isReached h = false → l.fits h d.message.size = true →
    P (c.repeatDelivery now n) (h.add d)
  /-- A message is handed out for the first time, if there is room and a slot for it. -/
  delivered : ∀ {c h d}, P c h → l.isReached h = false → c.isBlocked = false →
    l.fits h d.message.size = true → P (c.deliver now d.sequence) (h.add d)
  /-- It is settled at once. -/
  settled : ∀ {c h n}, P c h → P c (h.settle n)
  /-- A message has no room. -/
  refused : ∀ {c h size}, P c h → l.fits h size = false → P c (h.refuse size)
  /-- The numbers up to the last one are done with. -/
  ended : ∀ {c h next}, P c h → P { c with nextSeq := next } h
  /-- The floor moves. -/
  floor : ∀ {c h}, P c h → P c.advanceFloor h

namespace PullInvariant

variable {P : Cursor → Haul → Prop}

theorem redeliver (hP : PullInvariant x l now P) (ns : List Nat) (hc : P c h) :
    P (redeliver x l now ns c h).1 (redeliver x l now ns c h).2 := by
  induction ns generalizing c h with
  | nil => exact hc
  | cons n ns ih =>
    rw [Cursor.redeliver]
    split
    · exact hc
    · next hreached =>
      split
      · next m p hm hp =>
        split
        · exact ih (hP.givenUp hc)
        · split
          · next hfits => exact ih (hP.repeated hc (Bool.eq_false_iff.2 hreached) hfits)
          · next hfits => exact hP.refused hc (Bool.eq_false_iff.2 hfits)
      · exact ih hc

theorem deliverNew (hP : PullInvariant x l now P) (ms : List StoredMessage) (hc : P c h) :
    P (deliverNew x l now ms c h).1 (deliverNew x l now ms c h).2 := by
  induction ms generalizing c h with
  | nil =>
    rw [Cursor.deliverNew]
    split
    · exact hc
    · exact hP.ended hc
  | cons m ms ih =>
    rw [Cursor.deliverNew]
    split
    · exact hc
    · next hgoes =>
      rw [Bool.or_eq_true, not_or, Bool.not_eq_true, Bool.not_eq_true] at hgoes
      split
      · exact ih hc
      · split
        · next hfits =>
          have hadded := hP.delivered (d := ⟨m, (c.deliver now m.sequence).delivered.consumer, 1⟩)
            hc hgoes.1 hgoes.2 hfits
          dsimp only
          split
          · exact ih (hP.settled hadded)
          · exact ih hadded
        · next hfits => exact hP.refused hc (Bool.eq_false_iff.2 hfits)

/-- **What every step of a pull keeps, the whole pull keeps**, from where what is gone is
forgotten. -/
theorem collect (hP : PullInvariant x l now P)
    (hc : P { c.dropRemoved x with lastActive := now } {}) :
    P (c.collect x l now).1 (c.collect x l now).2 := by
  have hdue : P (c.collectDue x l now).1 (c.collectDue x l now).2 := hP.redeliver _ hc
  have hfloor {c : Cursor} {h : Haul} (hc : P c h) :
      P (if h.settled.isEmpty then c else c.advanceFloor) h := by
    split
    · exact hc
    · exact hP.floor hc
  simp only [Cursor.collect]
  split
  · exact hfloor hdue
  · exact hfloor (hP.deliverNew _ hdue)

end PullInvariant

/-! ## Room and slots -/

/-- A haul is within the limits of a pull. -/
structure Haul.IsWithin (h : Haul) (l : Limits) : Prop where
  /-- It has not more messages than it may have. -/
  length_le : h.deliveries.length ≤ l.batch
  /-- Its size is that of its messages. -/
  bytes_eq : h.bytes = (h.deliveries.map fun d => d.message.size).sum
  /-- It is not larger than it may be. -/
  bytes_le : ∀ most, l.maxBytes = some most → h.bytes ≤ most

theorem Haul.IsWithin.add {d : Delivery} (h' : h.IsWithin l) (hreached : l.isReached h = false)
    (hfits : l.fits h d.message.size = true) : (h.add d).IsWithin l where
  length_le := by
    rw [Limits.isReached, decide_eq_false_iff_not, Nat.not_le] at hreached
    rw [Haul.add, List.length_append]
    exact hreached
  bytes_eq := by simp [Haul.add, h'.bytes_eq]
  bytes_le most hmost := by
    rw [Limits.fits, hmost] at hfits
    exact of_decide_eq_true hfits

theorem Haul.IsWithin.refuse (h' : h.IsWithin l) (size : Nat) : (h.refuse size).IsWithin l := by
  rw [Haul.refuse]
  split
  · exact ⟨h'.length_le, h'.bytes_eq, h'.bytes_le⟩
  · exact h'

theorem pullInvariant_isWithin (x : Index) (l : Limits) (now : Instant) :
    PullInvariant x l now fun _ h => h.IsWithin l where
  givenUp h := ⟨h.length_le, h.bytes_eq, h.bytes_le⟩
  repeated h hreached hfits := h.add hreached hfits
  delivered h hreached _ hfits := h.add hreached hfits
  settled h := ⟨h.length_le, h.bytes_eq, h.bytes_le⟩
  refused h _ := h.refuse _
  ended h := h
  floor h := h

theorem isWithin_collect (c : Cursor) (x : Index) (l : Limits) (now : Instant) :
    (c.collect x l now).2.IsWithin l :=
  (pullInvariant_isWithin x l now).collect ⟨Nat.zero_le _, rfl, fun _ _ => Nat.zero_le _⟩

/-- A cursor has its settings, and at most so many deliveries pending. -/
def HoldsAtMost (settings : ConsumerSettings) (bound : Nat) (c : Cursor) : Prop :=
  c.settings = settings ∧ c.pending.size ≤ bound

/-- Where deliveries are acknowledged, a new one takes a slot only if there is one. -/
theorem pullInvariant_holdsAtMost {most bound : Nat} (hacks : settings.ackPolicy ≠ .none)
    (hmost : settings.maxAckPending = some most) (hle : most ≤ bound) :
    PullInvariant x l now fun c _ => c.HoldsAtMost settings bound where
  givenUp h := ⟨h.1, Nat.le_trans (SeqMap.size_erase_le ..) h.2⟩
  repeated h _ _ := ⟨h.1, Nat.le_trans (Nat.le_of_eq (SeqMap.size_modify ..)) h.2⟩
  delivered {c _ d} h _ hslot _ := by
    obtain ⟨rfl, -⟩ := h
    have hlt : c.pending.size < most := by simpa [isBlocked, hacks, hmost] using hslot
    rw [HoldsAtMost, deliver]
    dsimp only
    rw [if_neg hacks]
    have hone := SeqMap.size_insert_le c.pending d.sequence
      ⟨c.delivered.consumer + 1, 1, c.redeliveryAt now⟩
    exact ⟨rfl, Nat.le_trans hone (Nat.le_trans hlt hle)⟩
  settled h := h
  refused h _ := h
  ended h := h
  floor h := h

/-- A haul that has something reports nothing. -/
def Haul.IsFilled (h : Haul) : Prop := h.deliveries ≠ [] ∧ h.oversized = none

theorem Haul.IsFilled.refuse (h' : h.IsFilled) (size : Nat) : (h.refuse size).IsFilled := by
  rw [Haul.refuse, if_neg]
  · exact h'
  · rw [List.isEmpty_iff]
    exact h'.1

theorem isFilled_add (h' : h.oversized = none) (d : Delivery) : (h.add d).IsFilled :=
  ⟨List.append_ne_nil_of_right_ne_nil _ (List.cons_ne_nil _ _), h'⟩

theorem pullInvariant_isFilled (x : Index) (l : Limits) (now : Instant) :
    PullInvariant x l now fun _ h => h.IsFilled where
  givenUp h := h
  repeated h _ _ := isFilled_add h.2 _
  delivered h _ _ _ := isFilled_add h.2 _
  settled h := h
  refused h _ := h.refuse _
  ended h := h
  floor h := h

/-! ## What comes first -/

/-- The first delivery that is due and may be made once more. -/
def nextRepeat? (c : Cursor) (x : Index) (now : Instant) : Option StoredMessage :=
  let repeatable := c.pending.filter fun n p =>
    x.contains n && decide (p.deadline ≤ now) && !c.isExhausted p
  repeatable.first?.bind fun e => x.get? e.1

/-- What stays pending when what is gone is forgotten, and what is due but was delivered as often
as is allowed is given up. -/
def stillPending (c : Cursor) (x : Index) (now : Instant) : SeqMap PendingDelivery :=
  c.pending.filter fun n p => x.contains n && !(decide (p.deadline ≤ now) && c.isExhausted p)

/-- The first message that the consumer gets of those that the cursor has not looked at. -/
def nextNew? (c : Cursor) (x : Index) : Option StoredMessage :=
  (x.startingAt c.nextSeq).find? fun m => c.isEligible m.sequence m.subject

/-- The message that a pull comes to first: one that is repeated, or a new one if there is a slot
for it. -/
def next? (c : Cursor) (x : Index) (now : Instant) : Option StoredMessage :=
  (c.nextRepeat? x now).or
    (if isBlocked { c with pending := c.stillPending x now } then none else c.nextNew? x)

/-- What a pull comes to with the first message: it has something if the message fits in, and
reports the message if it does not. -/
def Haul.Answers (h : Haul) (l : Limits) (next : Option StoredMessage) : Prop :=
  match next with
  | some m => if l.fits {} m.size then h.IsFilled else h.deliveries = [] ∧ h.oversized = some m.size
  | none => h.deliveries = [] ∧ h.oversized = none

/-! ## Coming to it -/

theorem not_isReached (hbatch : 1 ≤ l.batch) (s : List Nat) :
    ¬l.isReached { settled := s } = true := by
  rw [Limits.isReached, decide_eq_true_eq, Nat.not_le]
  exact hbatch

/-- What a pull settles takes no room. -/
theorem fits_eq (l : Limits) (s : List Nat) (size : Nat) :
    l.fits { settled := s } size = l.fits {} size := rfl

section Due

variable (hthere : ∀ n, c.pending.contains n = true → x.contains n = true)

include hthere

/-- A walk that has nothing yet gives up what was delivered as often as is allowed, and goes on. -/
theorem redeliver_spent (hbatch : 1 ≤ l.batch) (spent rest s : List Nat)
    (hspent : ∀ n ∈ spent, ∀ p, c.pending.get? n = some p → c.isExhausted p = true) :
    ∃ c' s', redeliver x l now (spent ++ rest) c { settled := s } =
        redeliver x l now rest c' { settled := s' } ∧ c.SamePlace c' ∧
      ∀ n, c'.pending.get? n = if n ∈ spent then none else c.pending.get? n := by
  induction spent generalizing c s with
  | nil => exact ⟨c, s, rfl, .refl c, fun n => by rw [if_neg List.not_mem_nil]⟩
  | cons n spent ih =>
    rw [List.cons_append, redeliver, if_neg (not_isReached hbatch s)]
    cases hp : c.pending.get? n with
    | none =>
      -- It is not pending any more.
      obtain ⟨c', s', heq, hplace, hpending⟩ :=
        ih hthere s fun k hk => hspent k (List.mem_cons_of_mem n hk)
      refine ⟨c', s', ?_, hplace, fun k => ?_⟩
      · split
        · next hp' => cases hp'
        · exact heq
      · rw [hpending]
        by_cases hk : k = n
        · simp [hk, hp]
        · simp [hk]
    | some p =>
      obtain ⟨m, hm⟩ := Index.contains_iff.1 (hthere n (SeqMap.contains_iff.2 ⟨p, hp⟩))
      obtain ⟨c', s', heq, hplace, hpending⟩ := ih (c := c.giveUp n) (fun k hk => by
          rw [giveUp, SeqMap.contains_erase, Bool.and_eq_true] at hk
          exact hthere k hk.2)
        (s ++ [n]) fun k hk q hq => by
          rw [giveUp, SeqMap.get?_erase] at hq
          split at hq
          · cases hq
          · exact hspent k (List.mem_cons_of_mem n hk) q hq
      have hgiven : c.SamePlace (c.giveUp n) := ⟨rfl, rfl, rfl, rfl, rfl⟩
      refine ⟨c', s', ?_, hgiven.trans hplace, fun k => ?_⟩
      · rw [hm]
        dsimp only
        rw [if_pos (hspent n List.mem_cons_self p hp)]
        exact heq
      · rw [hpending, giveUp, SeqMap.get?_erase]
        by_cases hk : k = n <;> simp [hk]

/-- When all that is due is given up, what may be delivered once more is not due. -/
theorem redeliver_eq_of_spent (hbatch : 1 ≤ l.batch) (now : Instant)
    (hnone : ∀ n p, c.pending.get? n = some p → p.deadline ≤ now → c.isExhausted p = true) :
    ∃ c' s, redeliver x l now (c.due now) c {} = (c', { settled := s }) ∧ c.SamePlace c' ∧
      c'.pending = c.stillPending x now := by
  obtain ⟨c', s, heq, hplace, hpending⟩ := redeliver_spent hthere hbatch (c.due now) [] []
    fun n hn p hp => by
      obtain ⟨q, hq, hdue⟩ := (mem_due_iff ..).1 hn
      rw [hp, Option.some.injEq] at hq
      exact hnone n p hp (hq ▸ hdue)
  rw [List.append_nil] at heq
  refine ⟨c', s, heq, hplace, SeqMap.ext_get? fun n => ?_⟩
  rw [hpending, stillPending, SeqMap.get?_filter]
  cases hp : c.pending.get? n with
  | none => simp
  | some p =>
    have hx := hthere n (SeqMap.contains_iff.2 ⟨p, hp⟩)
    by_cases hdue : p.deadline ≤ now
    · rw [if_pos ((mem_due_iff ..).2 ⟨p, hp, hdue⟩)]
      simp [Option.filter_some, hdue, hnone n p hp hdue]
    · rw [if_neg]
      · simp [Option.filter_some, hx, hdue]
      · intro hmem
        obtain ⟨q, hq, hdue'⟩ := (mem_due_iff ..).1 hmem
        rw [hp, Option.some.injEq] at hq
        exact hdue (hq ▸ hdue')

/-- The first delivery that may be made once more is repeated if it fits in, and ends the pull if it
does not. -/
theorem answers_redeliver (hbatch : 1 ≤ l.batch) {p : PendingDelivery} (hm : x.get? n = some m)
    (hp : c.pending.get? n = some p) (hdue : p.deadline ≤ now) (hmay : c.isExhausted p = false)
    (hfirst : ∀ k q, c.pending.get? k = some q → q.deadline ≤ now → c.isExhausted q = false →
      n ≤ k) :
    (redeliver x l now (c.due now) c {}).2.Answers l (some m) := by
  -- All that is due before it was delivered as often as is allowed.
  obtain ⟨before, behind, hsplit⟩ := List.append_of_mem ((mem_due_iff ..).2 ⟨p, hp, hdue⟩)
  have hascending : (c.due now).Pairwise (· < ·) := SeqMap.keys_ascending _
  rw [hsplit, List.pairwise_append] at hascending
  have hlt {k : Nat} (hk : k ∈ before) : k < n := hascending.2.2 k hk n List.mem_cons_self
  obtain ⟨c', s, heq, hplace, hpending⟩ := redeliver_spent hthere hbatch before
    (n :: behind) [] fun k hk q hq => by
      obtain ⟨r, hr, hdue'⟩ := (mem_due_iff c now k).1 (hsplit ▸ List.mem_append_left _ hk)
      rw [hq, Option.some.injEq] at hr
      cases hmay' : c.isExhausted q with
      | true => rfl
      | false => exact absurd (hfirst k q hq (hr ▸ hdue') hmay') (Nat.not_le_of_lt (hlt hk))
  have hp' : c'.pending.get? n = some p := by
    rw [hpending, if_neg fun hmem => Nat.lt_irrefl n (hlt hmem)]
    exact hp
  rw [hsplit]
  show Haul.Answers (redeliver x l now (before ++ n :: behind) c { settled := [] }).2 l (some m)
  rw [heq, redeliver, if_neg (not_isReached hbatch s), hm, hp']
  dsimp only
  rw [hplace.isExhausted_eq, hmay, if_neg Bool.false_ne_true, fits_eq, Haul.Answers]
  by_cases hfits : l.fits {} m.size = true
  · rw [if_pos hfits, if_pos hfits]
    exact (pullInvariant_isFilled x l now).redeliver _ (isFilled_add rfl _)
  · rw [if_neg hfits, if_neg hfits]
    exact ⟨rfl, rfl⟩

end Due

/-- The first new message is handed out if it fits in, and ends the pull if it does not. -/
theorem answers_deliverNew (hbatch : 1 ≤ l.batch) (ms : List StoredMessage) (c : Cursor)
    (s : List Nat) : (deliverNew x l now ms c { settled := s }).2.Answers l
      (if c.isBlocked then none else ms.find? fun m => c.isEligible m.sequence m.subject) := by
  induction ms with
  | nil =>
    rw [deliverNew, List.find?_nil, ite_self]
    split <;> exact ⟨rfl, rfl⟩
  | cons m ms ih =>
    rw [deliverNew, Bool.eq_false_iff.2 (not_isReached hbatch s), Bool.false_or]
    split
    · exact ⟨rfl, rfl⟩
    · next hslot =>
      rw [if_neg hslot] at ih
      rw [List.find?_cons]
      cases hm : c.isEligible m.sequence m.subject with
      | false => exact ih
      | true =>
        rw [Bool.not_true, if_neg Bool.false_ne_true, fits_eq, Haul.Answers]
        by_cases hfits : l.fits {} m.size = true
        · rw [if_pos hfits, if_pos hfits]
          -- Whatever comes behind it, the pull has something.
          refine (pullInvariant_isFilled x l now).deliverNew _ ?_
          split <;> exact isFilled_add rfl _
        · rw [if_neg hfits, if_neg hfits]
          exact ⟨rfl, rfl⟩

/-- What is reported is not handed out, so the cursor has not moved. -/
theorem deliverNew_eq_of_oversized (ms : List StoredMessage) (h : Haul) (hnone : h.oversized = none)
    (hsome : (deliverNew x l now ms c h).2.oversized.isSome = true) :
    (deliverNew x l now ms c h).1 = c := by
  induction ms with
  | nil =>
    rw [deliverNew] at hsome
    split at hsome <;> simp [hnone] at hsome
  | cons m ms ih =>
    rw [deliverNew] at hsome ⊢
    split
    · rfl
    · next hgoes =>
      rw [if_neg hgoes] at hsome
      split
      · next hskip =>
        rw [if_pos hskip] at hsome
        exact ih hsome
      · next htakes =>
        rw [if_neg htakes] at hsome
        split
        · next hfits =>
          -- A haul that has something reports nothing.
          rw [if_pos hfits] at hsome
          have hfilled := (pullInvariant_isFilled x l now).deliverNew ms
            (c := c.deliver now m.sequence)
            (h := if c.settings.ackPolicy = .none then
              (h.add ⟨m, (c.deliver now m.sequence).delivered.consumer, 1⟩).settle m.sequence
             else h.add ⟨m, (c.deliver now m.sequence).delivered.consumer, 1⟩)
            (by split <;> exact isFilled_add hnone _)
          rw [hfilled.2] at hsome
          cases hsome
        · rfl

/-! ## The whole pull -/

/-- What is new does not change what a pull has come to. -/
theorem answers_collect_of_due (hdue : (c.collectDue x l now).2.Answers l (some m)) :
    (c.collect x l now).2.Answers l (some m) := by
  simp only [collect]
  split
  · exact hdue
  · next hnone =>
    rw [Haul.Answers] at hdue ⊢
    split
    · next hfits =>
      rw [if_pos hfits] at hdue
      exact (pullInvariant_isFilled x l now).deliverNew _ hdue
    · next hfits =>
      rw [if_neg hfits] at hdue
      rw [hdue.2] at hnone
      exact absurd rfl hnone

/-- When nothing is repeated, a pull comes to what is new. -/
theorem answers_collect_of_spent {s : List Nat}
    (hdue : c.collectDue x l now = (c', { settled := s })) (hbatch : 1 ≤ l.batch)
    (hplace : c.SamePlace c') (hpending : c'.pending = c.stillPending x now) :
    (c.collect x l now).2.Answers l
      (if isBlocked { c with pending := c.stillPending x now } then none else c.nextNew? x) := by
  have hblocked : isBlocked { c with pending := c.stillPending x now } = c'.isBlocked := by
    rw [isBlocked, isBlocked, hpending, hplace.settings]
  have hnew : c.nextNew? x =
      (x.startingAt c'.nextSeq).find? fun m => c'.isEligible m.sequence m.subject := by
    simp only [nextNew?, hplace.nextSeq, hplace.sameChoice.isEligible_eq]
  rw [hblocked, hnew]
  simp only [collect, hdue]
  exact answers_deliverNew hbatch _ c' s

/-- The delivery that is repeated first is the first one of those that may be made once more. -/
theorem nextRepeat?_eq_some (h : c.nextRepeat? x now = some m) :
    ∃ n p, x.get? n = some m ∧ c.pending.get? n = some p ∧ p.deadline ≤ now ∧
      c.isExhausted p = false ∧ ∀ k q, c.pending.get? k = some q → x.contains k = true →
        q.deadline ≤ now → c.isExhausted q = false → n ≤ k := by
  obtain ⟨⟨n, p⟩, hfirst, hm⟩ := Option.bind_eq_some_iff.1 h
  obtain ⟨hget, hlowest⟩ := SeqMap.first?_eq_some_iff.1 hfirst
  simp only [SeqMap.get?_filter, Option.filter_eq_some_iff, Bool.and_eq_true, decide_eq_true_eq,
    Bool.not_eq_true', and_assoc] at hget hlowest
  obtain ⟨hp, -, hdue, hmay⟩ := hget
  exact ⟨n, p, hm, hp, hdue, hmay, fun k q hq hk hdue' hmay' =>
    hlowest k q ⟨hq, hk, hdue', hmay'⟩⟩

/-- If nothing is repeated, what is due was delivered as often as is allowed. -/
theorem isExhausted_of_nextRepeat? (h : c.nextRepeat? x now = none) {p : PendingDelivery}
    (hp : c.pending.get? n = some p) (hn : x.contains n = true) (hdue : p.deadline ≤ now) :
    c.isExhausted p = true := by
  have hempty : (c.pending.filter fun n p =>
      x.contains n && decide (p.deadline ≤ now) && !c.isExhausted p).first? = none := by
    rw [nextRepeat?, Option.bind_eq_none_iff] at h
    refine Option.eq_none_iff_forall_ne_some.2 fun e hfirst => ?_
    -- What is repeated is there.
    obtain ⟨hget, -⟩ := SeqMap.first?_eq_some_iff.1 hfirst
    simp only [SeqMap.get?_filter, Option.filter_eq_some_iff, Bool.and_eq_true] at hget
    obtain ⟨m, hm⟩ := Index.contains_iff.1 hget.2.1.1
    cases (h e hfirst).symm.trans hm
  have hnone := SeqMap.isEmpty_iff.1 (SeqMap.first?_eq_none_iff.1 hempty) n
  rw [SeqMap.get?_filter, hp, Option.filter_some] at hnone
  simpa [hn, hdue] using hnone

/-- If nothing is repeated, what is pending then is what was, without what is gone and what is given
up. -/
theorem collectDue_of_spent (hbatch : 1 ≤ l.batch) (h : c.nextRepeat? x now = none) :
    ∃ c' s, c.collectDue x l now = (c', { settled := s }) ∧ c.SamePlace c' ∧
      c'.pending = c.stillPending x now := by
  have hplace : c.SamePlace { c.dropRemoved x with lastActive := now } :=
    (samePlace_dropRemoved c x).trans ⟨rfl, rfl, rfl, rfl, rfl⟩
  have hleft (n : Nat) := get?_pending_dropRemoved c x n
  have hthere (n : Nat) (hn : (c.dropRemoved x).pending.contains n = true) :
      x.contains n = true := contains_of_pending_dropRemoved hn
  obtain ⟨c', s, heq, hplace', hpending⟩ := redeliver_eq_of_spent
    (c := { c.dropRemoved x with lastActive := now }) hthere hbatch now fun n p hp hdue => by
      have hx := hthere n (SeqMap.contains_iff.2 ⟨p, hp⟩)
      have hp' := ((if_pos hx).symm.trans (hleft n).symm).trans hp
      rw [hplace.isExhausted_eq]
      exact isExhausted_of_nextRepeat? h hp' hx hdue
  refine ⟨c', s, heq, hplace.trans hplace', hpending.trans ?_⟩
  -- What is gone does not stay pending, whether it is forgotten first or not.
  apply SeqMap.ext_get?
  intro n
  simp only [stillPending, SeqMap.get?_filter, hleft, hplace.isExhausted_eq]
  split
  · rfl
  · next hx => cases c.pending.get? n <;> simp [Option.filter_some, hx]

/-- **A pull has something, or reports the message that it came to first.** -/
theorem answers_collect (x : Index) (hbatch : 1 ≤ l.batch) (c : Cursor) (now : Instant) :
    (c.collect x l now).2.Answers l (c.next? x now) := by
  have hplace : c.SamePlace { c.dropRemoved x with lastActive := now } :=
    (samePlace_dropRemoved c x).trans ⟨rfl, rfl, rfl, rfl, rfl⟩
  have hleft (n : Nat) := get?_pending_dropRemoved c x n
  have hthere (n : Nat) (hn : (c.dropRemoved x).pending.contains n = true) :
      x.contains n = true := contains_of_pending_dropRemoved hn
  rw [next?]
  cases hfirst : c.nextRepeat? x now with
  | some m =>
    obtain ⟨n, p, hm, hp, hdue, hmay, hlowest⟩ := nextRepeat?_eq_some hfirst
    have hx := Index.contains_iff.2 ⟨m, hm⟩
    rw [Option.some_or]
    -- The lowest that is due and may be handed out again is what the pull comes to first.
    refine answers_collect_of_due (answers_redeliver hthere hbatch hm ?_ hdue ?_ ?_)
    · exact (hleft n).trans ((if_pos hx).trans hp)
    · rw [hplace.isExhausted_eq, hmay]
    · intro k q hq hdue' hmay'
      have hk := hthere k (SeqMap.contains_iff.2 ⟨q, hq⟩)
      rw [hplace.isExhausted_eq] at hmay'
      exact hlowest k q (((if_pos hk).symm.trans (hleft k).symm).trans hq) hk hdue' hmay'
  | none =>
    -- Nothing is handed out again, so the pull comes to what is new.
    obtain ⟨c', s, heq, hplace', hpending⟩ := collectDue_of_spent hbatch hfirst
    rw [Option.none_or]
    exact answers_collect_of_spent heq hbatch hplace' hpending

/-- A pull that reports a message has not moved its cursor. -/
theorem place_collect_of_oversized (hx : x.Filed) (c : Cursor) (l : Limits) (now : Instant)
    (hsome : (c.collect x l now).2.oversized.isSome = true) :
    (c.collect x l now).1.nextSeq = c.nextSeq ∧
      (c.collect x l now).1.delivered = c.delivered := by
  have hdrop : c.SamePlace { c.dropRemoved x with lastActive := now } :=
    (samePlace_dropRemoved c x).trans ⟨rfl, rfl, rfl, rfl, rfl⟩
  obtain ⟨again, given, -, -, -, -, hrepeat⟩ := redelivers_redeliver hx l now
    (nodup_due { c.dropRemoved x with lastActive := now } now)
    { c.dropRemoved x with lastActive := now } {}
  have hdue : c.SamePlace (c.collectDue x l now).1 := hdrop.trans hrepeat.samePlace
  -- A move of the floor is no move of the cursor.
  have hfloor {c₁ : Cursor} (hplace : c.SamePlace c₁) (h : Haul) :
      (if h.settled.isEmpty then c₁ else c₁.advanceFloor).nextSeq = c.nextSeq ∧
        (if h.settled.isEmpty then c₁ else c₁.advanceFloor).delivered = c.delivered := by
    split
    · exact ⟨hplace.nextSeq, hplace.delivered⟩
    · exact ⟨hplace.nextSeq, hplace.delivered⟩
  simp only [collect] at hsome ⊢
  split at hsome
  · next hoversized =>
    rw [if_pos hoversized]
    exact hfloor hdue _
  · next hoversized =>
    rw [if_neg hoversized]
    have hnone : (c.collectDue x l now).2.oversized = none := by
      simpa using hoversized
    have hstays := deliverNew_eq_of_oversized _ _ hnone hsome
    rw [hstays]
    exact hfloor hdue _

/-- A pull reports a message exactly if it got nothing and the message that it came to first is too
large. -/
theorem oversized_collect_iff (x : Index) (hbatch : 1 ≤ l.batch) (c : Cursor) (now : Instant)
    (size : Nat) : (c.collect x l now).2.oversized = some size ↔
      (c.collect x l now).2.deliveries = [] ∧ ∃ m most, c.next? x now = some m ∧
        l.maxBytes = some most ∧ most < m.size ∧ size = m.size := by
  have hanswers := answers_collect x hbatch c now
  cases hnext : c.next? x now with
  | none =>
    rw [hnext] at hanswers
    simp [hanswers.2]
  | some m =>
    rw [hnext, Haul.Answers] at hanswers
    by_cases hfits : l.fits {} m.size = true
    · rw [if_pos hfits] at hanswers
      simp [hanswers.1, hanswers.2]
    · rw [if_neg hfits] at hanswers
      cases hmost : l.maxBytes with
      | none => simp [Limits.fits, hmost] at hfits
      | some most =>
        have hlt : most < m.size := by simpa [Limits.fits, hmost] using hfits
        simp [hanswers.1, hanswers.2, hlt, eq_comm]

/-- **A pull keeps all limits.**  At any time in any course of a consumer, a pull hands out every
message once, not more messages than it may have and not more bytes.  Where deliveries are
acknowledged, not more are pending then than may be, unless more were pending before, and where they
are not, none is.  The pull reports the size of a message exactly if it got nothing and the message
that it came to first is larger than all that it may have, and then the cursor has not moved. -/
theorem Course.collect_within (course : Course settings x₀ events x c) (hbatch : 1 ≤ l.batch)
    (now : Instant) :
    ((c.collect x l now).2.deliveries.map Delivery.sequence).Nodup ∧
    (c.collect x l now).2.deliveries.length ≤ l.batch ∧
    (∀ most, l.maxBytes = some most →
      ((c.collect x l now).2.deliveries.map fun d => d.message.size).sum ≤ most) ∧
    (c.settings.ackPolicy ≠ .none → ∀ most, c.settings.maxAckPending = some most →
      (c.collect x l now).1.pending.size ≤ max most c.pending.size) ∧
    (c.settings.ackPolicy = .none → (c.collect x l now).1.pending = SeqMap.empty) ∧
    (∀ size, (c.collect x l now).2.oversized = some size ↔
      (c.collect x l now).2.deliveries = [] ∧ ∃ m most, c.next? x now = some m ∧
        l.maxBytes = some most ∧ most < m.size ∧ size = m.size) ∧
    ((c.collect x l now).2.oversized.isSome = true →
      (c.collect x l now).1.nextSeq = c.nextSeq ∧
        (c.collect x l now).1.delivered = c.delivered) := by
  have haccounts := course.accounts
  obtain ⟨again, new, given, hd, -, hhands, -⟩ :=
    hands_collect haccounts.filed haccounts.pending_lt l now
  have hwithin := isWithin_collect c x l now
  refine ⟨hd ▸ hhands.nodup, hwithin.length_le, fun most hmost => ?_, fun hacks most hmost => ?_,
    fun hnone => ?_, oversized_collect_iff x hbatch c now,
    place_collect_of_oversized haccounts.filed c l now⟩
  · rw [← hwithin.bytes_eq]
    exact hwithin.bytes_le most hmost
  · have hdropped : (c.dropRemoved x).pending.size ≤ c.pending.size := by
      rw [dropRemoved]
      split
      · exact Nat.le_refl _
      · exact SeqMap.size_filter_le ..
    have hholds : (c.collect x l now).1.HoldsAtMost c.settings (max most c.pending.size) :=
      (pullInvariant_holdsAtMost hacks hmost (Nat.le_max_left _ _)).collect
        ⟨(samePlace_dropRemoved c x).settings, Nat.le_trans hdropped (Nat.le_max_right _ _)⟩
    exact hholds.2
  · have hnone' : (c.collect x l now).1.settings.ackPolicy = .none := by
      rw [hhands.settings_eq, hnone]
    have hempty := (course.collected l now).accounts.pending_eq_none hnone'
    exact SeqMap.eq_empty_of_isEmpty (SeqMap.isEmpty_iff.2 hempty)

/-- A message that is larger than all that a pull may have is reported, and stays in front of the
cursor. -/
theorem collect_within_nothing :
    ∃ settings x₀ events x c m, Course settings x₀ events x c ∧ c.next? x 0 = some m ∧
      (c.collect x { batch := 1, maxBytes := some 0 } 0).2.oversized = some m.size ∧
      (c.collect x { batch := 1, maxBytes := some 0 } 0).1.nextSeq = m.sequence := by
  obtain ⟨x₀, settings, c, m, hx₀, hsettings, hc, hnext, hseq, hsize, hnone⟩ :
      ∃ x₀ settings c m, x₀ = Index.empty.commit ⟨1, "s", [], [], Timestamp.ofMicros 0⟩ ∧
        settings = ConsumerSettings.withDefaults { name := some "C" } {} ∧
        c = start settings x₀ 0 ∧ c.next? x₀ 0 = some m ∧ c.nextSeq = m.sequence ∧ 0 < m.size ∧
        (c.collect x₀ { batch := 1, maxBytes := some 0 } 0).2.deliveries = [] :=
    ⟨_, _, _, _, rfl, rfl, rfl, rfl, rfl, by decide, rfl⟩
  have hfiled : x₀.Filed := hx₀ ▸ Index.empty_sound.filed.commit _
  have haccepted : settings.IsAccepted := ⟨{}, some "C", {}, rfl, hsettings⟩
  have course : Course settings x₀ [] x₀ c := hc ▸ Course.created hfiled haccepted
  obtain ⟨-, -, -, -, -, hoversized, hstays⟩ :=
    course.collect_within (l := { batch := 1, maxBytes := some 0 }) (Nat.le_refl 1) 0
  have hreports := (hoversized m.size).2 ⟨hnone, m, 0, hnext, rfl, hsize, rfl⟩
  refine ⟨settings, x₀, [], x₀, c, m, course, hnext, hreports, ?_⟩
  rw [(hstays (by rw [hreports]; rfl)).1, hseq]

end StreamBroker.Cursor
