import StreamBroker.Proofs.Index.Limits
import StreamBroker.Proofs.Index.Purged

/-!
# What is kept of a stream that is full

When a message has come, its subject is cut down, and then the oldest messages go one by one until
there is not too much any more.  What this comes to is said without a loop: of its subject the
newest messages are kept, and of what is then left the longest end that is within the limits.

It is enough to look at the subject of the message that came.  All subjects together come to the
same, because a subject that is within its limit loses nothing, and it does not matter in which
order the subjects are looked at or whether one is looked at twice.

As everywhere, the first message cannot go when it would have to while the highest number of all was
given: then the message that came has filled the stream for good.

## Main definitions

* `Retention.Fitting`, `Retention.IsNewestFitting`: messages within the limits, and the most of them
* `Retention.sparing`: messages without what a subject has too much of
* `Retention.Keeps`: what is to be kept when a message has come

## Main results

* `Retention.trimSubjects_eq`: only one subject is cut down
* `Retention.isNewestFitting_trimOldest`: the loop stops at the longest end within the limits
* `Index.Coherent.keeps_newest`: exactly the newest messages are kept
-/

namespace StreamBroker

namespace Retention

variable {settings : StreamSettings} {x : Index} {m : StoredMessage} {ms kept : List StoredMessage}
  {subject : String}

/-! ## What is to be kept -/

/-- There are not more messages and not more octets than settings allow. -/
structure Fitting (settings : StreamSettings) (ms : List StoredMessage) : Prop where
  /-- The number of messages. -/
  size_le : ∀ most, settings.maxMessages = some most → ms.length ≤ most
  /-- The size of all messages. -/
  bytes_le : ∀ most, settings.maxBytes = some most → (ms.map StoredMessage.size).sum ≤ most

/-- Of some messages the longest end that is within the limits. -/
structure IsNewestFitting (settings : StreamSettings) (ms kept : List StoredMessage) : Prop where
  /-- What goes is older than what is kept. -/
  suffix : kept <:+ ms
  /-- What is kept is within the limits. -/
  fitting : Fitting settings kept
  /-- No more could be kept. -/
  longest : ∀ l, l <:+ ms → Fitting settings l → l <:+ kept

/-- Messages without those that a subject has too much of, the newest of the subject spared. -/
def sparing (settings : StreamSettings) (subject : String) (ms : List StoredMessage) :
    List StoredMessage :=
  match settings.maxMessagesPerSubject with
  | none => ms
  | some most => ms.filter fun m =>
      decide (m.subject ≠ subject ∨
        m ∈ (ms.filter fun w => decide (w.subject = subject)).rtake most)

/-- What is to be kept when a message of a subject has come. -/
def Keeps (settings : StreamSettings) (subject : String) (ms kept : List StoredMessage) : Prop :=
  match settings.discard with
  | .new => kept = sparing settings subject ms
  | .old => IsNewestFitting settings (sparing settings subject ms) kept

/-- A message that is too large for the stream takes all that is older with it, and goes. -/
theorem IsNewestFitting.eq_nil (h : IsNewestFitting settings ms kept) {most : Nat}
    (hmost : settings.maxBytes = some most) (hlast : ms.getLast? = some m) (hm : most < m.size) :
    kept = [] := by
  by_contra hne
  have hmem : m ∈ kept := by
    obtain ⟨front, rfl⟩ := h.suffix
    rw [List.getLast?_append_of_ne_nil _ hne] at hlast
    exact List.mem_of_getLast? hlast
  have hle := List.single_le_sum (fun _ _ => Nat.zero_le _) _
    (List.mem_map_of_mem (f := StoredMessage.size) hmem)
  exact absurd (Nat.le_trans hle (h.fitting.bytes_le most hmost)) (Nat.not_le_of_lt hm)

/-! ## One subject or all -/

/-- A subject that is within its limit loses nothing. -/
theorem trimSubject_of_length_le (hx : x.Tallied) {most : Nat}
    (h : (x.ofSubject subject).length ≤ most) : trimSubject most x subject = ([], x) := by
  have hzero : (x.subjectSequences subject).length - most = 0 := by
    rw [hx.subjectSequences_eq, List.length_map]
    exact Nat.sub_eq_zero_of_le h
  rw [trimSubject, hzero, List.take_zero, Index.removeAll]

theorem trimSubjects_cons (most : Nat) (subject : String) (subjects : List String) (x : Index) :
    trimSubjects most (subject :: subjects) x =
      ((trimSubject most x subject).1 ++
          (trimSubjects most subjects (trimSubject most x subject).2).1,
        (trimSubjects most subjects (trimSubject most x subject).2).2) := rfl

theorem trimSubjects_of_length_le (hx : x.Tallied) {most : Nat} {subjects : List String}
    (h : ∀ other, (x.ofSubject other).length ≤ most) : trimSubjects most subjects x = ([], x) := by
  induction subjects with
  | nil => rfl
  | cons other subjects ih =>
    rw [trimSubjects_cons, trimSubject_of_length_le hx (h other), ih, List.append_nil]

/-- **Only one subject is cut down** if all others are within their limit, in whatever order the
subjects are looked at. -/
theorem trimSubjects_eq (hx : x.Coherent) {most : Nat} {subjects : List String}
    (hothers : ∀ other, other ≠ subject → (x.ofSubject other).length ≤ most)
    (h : subject ∈ subjects) : trimSubjects most subjects x = trimSubject most x subject := by
  induction subjects with
  | nil => cases h
  | cons other subjects ih =>
    rw [trimSubjects_cons]
    by_cases hother : other = subject
    · subst hother
      have hremoves := removes_trimSubject most x other
      have hfit (s : String) : ((trimSubject most x other).2.ofSubject s).length ≤ most := by
        by_cases hs : s = other
        · exact hs ▸ length_trimSubject_le hx most s
        · exact Nat.le_trans
            (Index.length_ofSubject_le (hremoves.loses.toList_sublist hx.toFiled) s)
            (hothers s hs)
      rw [trimSubjects_of_length_le (hremoves.coherent hx).toTallied hfit, List.append_nil]
    · rw [trimSubject_of_length_le hx.toTallied (hothers other hother)]
      exact ih ((List.mem_cons.1 h).resolve_left (Ne.symm hother))

/-- What is left when a subject is cut down. -/
theorem toList_trimSubject_eq_sparing (hx : x.Tallied) {most : Nat}
    (hmost : settings.maxMessagesPerSubject = some most) :
    (trimSubject most x subject).2.toList = sparing settings subject x.toList := by
  have hnodup : (x.ofSubject subject).Nodup :=
    (hx.pairwise_toList.filter _).imp fun hlt heq => Nat.ne_of_lt hlt (congrArg _ heq)
  have hgone : (x.subjectSequences subject).take
      ((x.subjectSequences subject).length - most) =
        ((x.ofSubject subject).rdrop most).map (·.sequence) := by
    rw [hx.subjectSequences_eq, List.length_map, ← List.map_take]
    rfl
  rw [trimSubject, hgone, Index.toList_removeAll hx.toFiled, sparing, hmost]
  refine List.filter_congr fun m hm => decide_eq_decide.2 ?_
  have hget := hx.mem_toList_iff.1 hm
  have hmem : m.sequence ∈ ((x.ofSubject subject).rdrop most).map (·.sequence) ↔
      m ∈ (x.ofSubject subject).rdrop most := by
    refine ⟨fun h => ?_, fun h => List.mem_map_of_mem h⟩
    obtain ⟨w, hw, heq⟩ := List.mem_map.1 h
    -- There is one message under a number.
    have hwget := (hx.mem_ofSubject_iff.1 (List.mem_of_mem_take hw)).1
    rw [heq, hget, Option.some.injEq] at hwget
    exact hwget ▸ hw
  rw [hmem, mem_rdrop_iff hnodup, hx.mem_ofSubject_iff, not_and_or, not_not, not_and_or,
    Index.ofSubject]
  simp only [hget, not_true_eq_false, false_or]

/-! ## The oldest messages -/

theorem fits_iff : x.Fits settings ↔ Fitting settings x.toList :=
  ⟨fun h => ⟨h.size_le, h.bytes_le⟩, fun h => ⟨h.size_le, h.bytes_le⟩⟩

theorem trimOldest_eq (settings : StreamSettings) (x : Index) :
    trimOldest settings x = trimFront settings x.messages.keys x := by
  rw [trimOldest]
  split
  · rfl
  · next hfull =>
    cases x.messages.keys with
    | nil => rfl
    | cons n ns => rw [trimFront, if_neg hfull]

/-- Nothing more than what is within the limits can be kept, so all of it is. -/
theorem isNewestFitting_self (h : Fitting settings ms) : IsNewestFitting settings ms ms :=
  ⟨List.suffix_refl ms, h, fun _ hl _ => hl⟩

/-- If there is too much, what is kept is what would be kept without the oldest message. -/
theorem IsNewestFitting.cons (h : IsNewestFitting settings ms kept)
    (hfull : ¬Fitting settings (m :: ms)) : IsNewestFitting settings (m :: ms) kept where
  suffix := h.suffix.trans (List.suffix_cons m ms)
  fitting := h.fitting
  longest l hl hfits := by
    rcases List.suffix_cons_iff.1 hl with rfl | hl
    · exact absurd hfits hfull
    · exact h.longest l hl hfits

/-- An index without its first message. -/
theorem toList_remove_first (hx : x.Filed) (h : x.toList = m :: ms) :
    (x.remove m.sequence).toList = ms := by
  have hcontains : x.contains m.sequence = true :=
    Index.contains_iff.2 ⟨m, hx.mem_toList_iff.1 (h ▸ List.mem_cons_self)⟩
  have hremove : x.remove m.sequence = (x.removeAll [m.sequence]).2 := by
    rw [Index.removeAll, if_pos hcontains]
    rfl
  have hasc := h ▸ hx.pairwise_toList
  rw [hremove, Index.toList_removeAll hx, h, List.filter_cons_of_neg (by simp),
    List.filter_eq_self]
  intro w hw
  have hlt := List.rel_of_pairwise_cons hasc hw
  simpa using Nat.ne_of_gt hlt

theorem isNewestFitting_trimFront (hx : x.Coherent) :
    IsNewestFitting settings x.toList
      (trimFront settings (x.toList.map (·.sequence)) x).2.toList := by
  induction hlist : x.toList generalizing x with
  | nil =>
    rw [List.map_nil, trimFront, hlist]
    exact isNewestFitting_self ⟨fun _ _ => Nat.zero_le _, fun _ _ => Nat.zero_le _⟩
  | cons m ms ih =>
    rw [List.map_cons, trimFront]
    split
    · next hfull =>
      -- All of them do not fit, so the newest that fit are among what is left.
      have hfits : ¬Fitting settings (m :: ms) := by
        rw [← hlist, ← fits_iff, ← isFull_eq_false_iff hx, hfull]
        exact Bool.noConfusion
      exact (ih (hx.remove _) (toList_remove_first hx.toFiled hlist)).cons hfits
    · next hfull =>
      rw [hlist]
      refine isNewestFitting_self ?_
      rw [← hlist, ← fits_iff, ← isFull_eq_false_iff hx]
      exact Bool.eq_false_iff.2 hfull

/-- **The loop stops at the longest end of the messages that is within the limits.** -/
theorem isNewestFitting_trimOldest (hx : x.Coherent) :
    IsNewestFitting settings x.toList (trimOldest settings x).2.toList := by
  rw [trimOldest_eq, hx.keys_eq_map]
  exact isNewestFitting_trimFront hx

/-! ## A message has come -/

/-- What is left when the limits have been enforced on a subject. -/
theorem keeps_enforceLimits (hx : x.Coherent) (settings : StreamSettings) (subject : String) :
    Keeps settings subject x.toList (enforceLimits settings (some subject) x).2.toList := by
  -- First the subject is cut down.
  obtain ⟨y, gone, hremoves, hlist, heq⟩ : ∃ y gone, x.Removes gone y ∧
      y.toList = sparing settings subject x.toList ∧
      (enforceLimits settings (some subject) x).2 =
        match settings.discard with
        | .new => y
        | .old => (trimOldest settings y).2 := by
    rw [enforceLimits]
    cases hmost : settings.maxMessagesPerSubject with
    | none =>
      refine ⟨x, [], .refl x, by rw [sparing, hmost], ?_⟩
      cases settings.discard <;> rfl
    | some most =>
      refine ⟨_, _, removes_trimSubject most x subject,
        toList_trimSubject_eq_sparing hx.toTallied hmost, ?_⟩
      cases settings.discard <;> rfl
  rw [Keeps, heq, ← hlist]
  cases settings.discard with
  | new => rfl
  | old => exact isNewestFitting_trimOldest (hremoves.coherent hx)

end Retention

namespace Index

variable {settings : StreamSettings} {x : Index} {m : StoredMessage}

open Retention

theorem first?_eq_head? (x : Index) : x.first? = x.toList.head? := by
  rw [first?, toList, SeqMap.values, List.head?_map, SeqMap.entries, List.head?_reverse]
  rfl

/-- For a message that has come it is enough to look at its own subject. -/
theorem Coherent.enforceLimits_none (hx : x.Coherent) (hfit : x.SubjectsFit settings)
    (hm : x.lastSeq < m.sequence) :
    enforceLimits settings none (x.commit m) =
      enforceLimits settings (some m.subject) (x.commit m) := by
  have hy := hx.commit hm
  simp only [enforceLimits]
  cases hmost : settings.maxMessagesPerSubject with
  | none => rfl
  | some most =>
    -- Only the subject of the message has grown.
    have hothers (other : String) (hne : other ≠ m.subject) :
        ((x.commit m).ofSubject other).length ≤ most := by
      rw [ofSubject_commit_of_ne hx.toFiled hm hne]
      exact hfit most hmost other
    have hmem : m.subject ∈ trimmedSubjects (x.commit m) none := by
      refine mem_trimmedSubjects hy (List.ne_nil_of_mem ?_ (a := m))
      rw [ofSubject_commit_self hx.toFiled hm]
      exact List.mem_append_right _ (List.mem_singleton_self m)
    have hself : m.subject ∈ trimmedSubjects (x.commit m) (some m.subject) :=
      List.mem_singleton_self _
    simp only [trimSubjects_eq hy hothers hmem, trimSubjects_eq hy hothers hself]

/-- What stays is what is kept, and nothing that stays has gone. -/
theorem Loses.mem_toList_iff {y : Index} {gone : List Nat} (h : x.Loses gone y) (hx : x.Filed)
    (hm : m ∈ x.toList) : m ∈ y.toList ↔ m.sequence ∉ gone := by
  rw [(hx.loses h).mem_toList_iff, h.get?_eq, hx.mem_toList_iff.1 hm]
  by_cases hgone : m.sequence ∈ gone <;> simp [hgone]

/-- **Exactly the newest messages are kept** when one has come to an index whose subjects were
within their limit, and it is enough to look at the subject of the message.  Of this subject the
newest messages are kept, as many as one may have, and of what is then left the longest end that is
within the limits on the whole, if old messages go for new ones: nothing at all, if the last message
alone is too large.

The messages cannot go if the first one is among them and the message that came was given the
highest number of all. -/
theorem Coherent.keeps_newest (hx : x.Coherent) (hfit : x.SubjectsFit settings)
    (hm : x.lastSeq < m.sequence) :
    enforceLimits settings none (x.commit m) =
        enforceLimits settings (some m.subject) (x.commit m) ∧
    ∃ kept, Keeps settings m.subject (x.toList ++ [m]) kept ∧
      (settings.discard = .old → ∀ most, settings.maxBytes = some most →
        ∀ w, (sparing settings m.subject (x.toList ++ [m])).getLast? = some w →
          most < w.size → kept = []) ∧
      (((x.commit m).settle (enforceLimits settings (some m.subject) (x.commit m))).1 =
          .error .numbersExhausted ↔
        wordLimit ≤ m.sequence + 1 ∧ ∃ w, (x.toList ++ [m]).head? = some w ∧ w ∉ kept) ∧
      (¬(wordLimit ≤ m.sequence + 1 ∧ ∃ w, (x.toList ++ [m]).head? = some w ∧ w ∉ kept) →
        ∃ gone y, (x.commit m).settle (enforceLimits settings (some m.subject) (x.commit m)) =
            (.ok gone, y) ∧
          (x.commit m).Loses gone y ∧ y.toList = kept ∧ y.Coherent) := by
  have hy := hx.commit hm
  have hlist := toList_commit hx.toFiled hm
  have hkeeps := keeps_enforceLimits hy settings m.subject
  have hremoves := removes_enforceLimits settings (some m.subject) (x.commit m)
  have hlast : (x.commit m).lastSeq = m.sequence := Nat.max_eq_right (Nat.le_of_lt hm)
  -- The first message goes exactly if it is not among those that are kept.
  have hstuck : (x.commit m).isStuck (enforceLimits settings (some m.subject) (x.commit m)).1 =
      true ↔ wordLimit ≤ m.sequence + 1 ∧ ∃ w, (x.toList ++ [m]).head? = some w ∧
        w ∉ (enforceLimits settings (some m.subject) (x.commit m)).2.toList := by
    rw [hremoves.loses.isStuck_iff hy, hlast, first?_eq_head?, hlist]
    refine and_congr_right fun _ => exists_congr fun w => and_congr_right fun hw => ?_
    rw [hremoves.loses.mem_toList_iff hy.toFiled (hlist ▸ List.mem_of_head? hw), not_not]
  rw [hlist] at hkeeps
  refine ⟨hx.enforceLimits_none hfit hm, _, hkeeps, fun hold most hmost w hw hlt => ?_, ?_, ?_⟩
  · rw [Keeps, hold] at hkeeps
    exact hkeeps.eq_nil hmost hw hlt
  · rw [← hstuck, settle]
    split
    · next h => simp [h]
    · next h => simp [h]
  · intro hnot
    exact ⟨_, _, settle_of_not_isStuck (mt hstuck.1 hnot), hremoves.loses, rfl,
      hremoves.coherent hy⟩

/-- Of four messages of which three are of one subject, two of the subject may stay, and then two on
the whole.  The message that is given the highest number of all does not come to that. -/
theorem keeps_newest_two : ∃ (settings : StreamSettings) (x : Index),
    x.toList.map (·.sequence) = [1, 2, 3] ∧
    (∃ (m : StoredMessage) (gone : List Nat) (y : Index), m.sequence = 4 ∧
      (x.commit m).settle (enforceLimits settings none (x.commit m)) = (.ok gone, y) ∧
        y.toList.map (·.sequence) = [3, 4]) ∧
    ∃ m : StoredMessage, m.sequence = wordLimit - 1 ∧
      ((x.commit m).settle (enforceLimits settings none (x.commit m))).1 =
        .error .numbersExhausted := by
  let message (n : Nat) (subject : String) : StoredMessage :=
    ⟨n, subject, [], [], Timestamp.ofMicros 0⟩
  let settings : StreamSettings := { maxMessages := some 2, maxMessagesPerSubject := some 2 }
  let x := restore [message 1 "s.a", message 2 "s.b", message 3 "s.a"] 0
  have hx : x.Coherent := restore_coherent (by decide) 0
  have hlist : x.toList = [message 1 "s.a", message 2 "s.b", message 3 "s.a"] := by decide
  have hfit : x.SubjectsFit settings := by
    rintro _ ⟨⟩ subject
    rw [ofSubject, hlist]
    by_cases ha : "s.a" = subject
    · subst ha
      decide
    · rw [List.filter_cons_of_neg (by simpa [message] using ha)]
      exact List.length_filter_le ..
  refine ⟨settings, x, by rw [hlist]; rfl, ⟨message 4 "s.a", ?_⟩,
    message (wordLimit - 1) "s.a", rfl, ?_⟩
  · obtain ⟨hall, kept, hkeeps, -, -, hgoes⟩ :=
      hx.keeps_newest hfit (m := message 4 "s.a") (by decide)
    obtain ⟨gone, y, hsettle, -, rfl, -⟩ := hgoes fun h => absurd h.1 (by decide)
    refine ⟨gone, y, rfl, hall ▸ hsettle, ?_⟩
    have hsparing : sparing settings "s.a" (x.toList ++ [message 4 "s.a"]) =
        [message 2 "s.b", message 3 "s.a", message 4 "s.a"] := by decide
    have hnewest : IsNewestFitting settings
        [message 2 "s.b", message 3 "s.a", message 4 "s.a"] y.toList := hsparing ▸ hkeeps
    have hsuffix := hnewest.longest [message 3 "s.a", message 4 "s.a"] ⟨[message 2 "s.b"], rfl⟩
      ⟨by rintro _ ⟨⟩; decide, by rintro _ ⟨⟩⟩
    rw [← hsuffix.eq_of_length_le (hnewest.fitting.size_le 2 rfl)]
    rfl
  · obtain ⟨hall, kept, hkeeps, -, hstuck, -⟩ :=
      hx.keeps_newest hfit (m := message (wordLimit - 1) "s.a") (by decide)
    rw [hall]
    refine hstuck.2 ⟨by decide, message 1 "s.a", by rw [hlist]; rfl, fun hmem => ?_⟩
    have hnewest : IsNewestFitting settings
        (sparing settings "s.a" (x.toList ++ [message (wordLimit - 1) "s.a"])) kept := hkeeps
    exact absurd (hnewest.suffix.subset hmem) (by decide +kernel)

end Index

end StreamBroker
