import StreamBroker.Proofs.Index.Queries
import StreamBroker.Proofs.Index.Removal

/-!
# The indexes that can be reached

An index begins with messages that were read back, and then messages are stored and removed in every
way there is.  Whatever happens, all that it keeps beside its messages is right, so its answers are
those of a scan, and no difference that it takes is cut off at zero.

The numbers that a stream gives begin with one, but the index does not check what is read back: a
message that was written under the number zero is taken as it is.  As long as it is there the first
number is zero, and that is the only way in which the first number is not at least one.

## Main definitions

* `Index.Reached`: the indexes that can be reached
* `Index.Answers`: every answer is the one that a scan gives
* `Index.Unsaturated`: no difference is cut off at zero

## Main results

* `Index.Reached.consistent`: what holds of all indexes that can be reached
-/

namespace StreamBroker

namespace Index

variable {ms : List StoredMessage} {x y : Index} {gone : List Nat}

/-- The indexes that can be reached from messages that were read back in the order of their
numbers. -/
inductive Reached (ms : List StoredMessage) : Index → Prop where
  | restored (hasc : ms.Pairwise fun a b => a.sequence < b.sequence) (watermark : Nat) :
      Reached ms (restore ms watermark)
  | stored {x : Index} {settings : StreamSettings} {maxPayload : Nat} {now : Timestamp}
      {e : Expectations} {m : Message} {stored : StoredMessage} (h : Reached ms x)
      (hprepare : x.prepare settings maxPayload now e m = .ok stored) :
      Reached ms (x.commit stored)
  | removed {x : Index} (h : Reached ms x) (n : Nat) : Reached ms (x.remove n)
  | purged {x : Index} {r : PurgeRequest} {left : List Nat × Index} (h : Reached ms x)
      (hpurge : x.purge r = .ok left) : Reached ms left.2
  | expired {x : Index} (h : Reached ms x) (settings : StreamSettings) (now : Timestamp) :
      Reached ms (Retention.expire settings now x).2
  | limited {x : Index} (h : Reached ms x) (settings : StreamSettings) (subject : Option String) :
      Reached ms (Retention.enforceLimits settings subject x).2
  | released {x : Index} (h : Reached ms x) (policy : RetentionPolicy)
      (needed : Retention.Needed) (candidates : List Nat) :
      Reached ms (Retention.release policy needed candidates x).2
  | unclaimed {x : Index} (h : Reached ms x) (needed : Retention.Needed) :
      Reached ms (Retention.releaseUnclaimed needed x).2

/-- Every answer of an index is the one that a scan of its messages gives. -/
structure Answers (x : Index) : Prop where
  /-- The newest message of a subject. -/
  lastForSubject_eq : ∀ subject, x.lastForSubject subject = (x.ofSubject subject).getLast?
  /-- The newest message of every subject of a pattern. -/
  lastPerSubject_eq : ∀ pattern, x.lastPerSubject pattern = x.newestMatching pattern
  /-- The numbers of the messages of a pattern. -/
  matchingSequences_eq : ∀ pattern,
    x.matchingSequences pattern = (x.matching pattern).map (·.sequence)
  /-- The counts of the subjects of a pattern that have messages, each subject once. -/
  counts : ∀ pattern consumers, ∃ counts,
    (x.state (some pattern) consumers).subjects = some counts ∧ (counts.map (·.1)).Nodup ∧
      ∀ subject count, (subject, count) ∈ counts ↔ subjectMatches subject pattern = true ∧
        count = (x.ofSubject subject).length ∧ count ≠ 0
  /-- The numbers between the bounds that there are no messages of. -/
  numDeleted_eq : ∀ filter consumers, (x.state filter consumers).numDeleted = x.missing.length

/-- No difference that an index takes is cut off at zero. -/
structure Unsaturated (x : Index) : Prop where
  /-- The size of all messages is not below that of a message that goes. -/
  size_le_bytes : ∀ n m, x.get? n = some m → m.size ≤ x.bytes
  /-- If there are messages, the last number is not below the first. -/
  firstSeq_le : x.size ≠ 0 → x.firstSeq ≤ x.lastSeq
  /-- There are not more messages than numbers between the bounds. -/
  size_le : x.size ≠ 0 → x.size ≤ x.lastSeq - x.firstSeq + 1

theorem Coherent.answers (hx : x.Coherent) : x.Answers where
  lastForSubject_eq := hx.lastForSubject_eq
  lastPerSubject_eq := hx.lastPerSubject_eq
  matchingSequences_eq := hx.matchingSequences_eq
  counts pattern consumers := by
    refine ⟨_, rfl, ?_, hx.mem_counts_iff pattern⟩
    rw [List.map_map]
    exact hx.nodup_subjects.sublist (List.filter_sublist.map _)
  numDeleted_eq := hx.numDeleted_eq

theorem Coherent.unsaturated (hx : x.Coherent) : x.Unsaturated where
  size_le_bytes n m hm := by
    rw [hx.bytes_remove hm]
    exact Nat.le_add_right _ _
  firstSeq_le hne := by
    rcases hx.bounds_cases with ⟨hzero, -⟩ | ⟨-, hle⟩
    · exact absurd hzero hne
    · exact hle
  size_le hne := by
    have hsum := hx.size_add_missing
    rcases hx.bounds_cases with ⟨hzero, -⟩ | ⟨-, hle⟩
    · exact absurd hzero hne
    · omega

/-- Where an index comes from: it is coherent, and has a message of the number zero only if one was
read back. -/
structure Descends (ms : List StoredMessage) (x : Index) : Prop extends Coherent x where
  /-- No message is stored under zero. -/
  of_zero : ∀ {m}, x.get? 0 = some m → ∃ w ∈ ms, w.sequence = 0

theorem Descends.removes (hx : Descends ms x) (h : x.Removes gone y) : Descends ms y where
  toCoherent := h.coherent hx.toCoherent
  of_zero hm := hx.of_zero (h.loses.get?_of_get? hm)

/-- What comes is stored behind the last number, and what goes goes one after the other. -/
theorem Reached.descends (h : Reached ms x) : Descends ms x := by
  induction h with
  | restored hasc watermark =>
    refine ⟨restore_coherent hasc watermark, fun hm => ?_⟩
    exact ⟨_, (get?_restore_eq_some_iff hasc).1 hm⟩
  | @stored x _ _ now _ m _ h hprepare ih =>
    obtain ⟨-, -, rfl⟩ := prepare_eq_ok hprepare
    refine ⟨ih.toCoherent.commit (Nat.lt_succ_self _), fun hm => ?_⟩
    -- A number that is given is never zero, so a message of number zero was restored.
    have hne : 0 ≠ (m.stored (x.lastSeq + 1) now).sequence := (Nat.succ_ne_zero _).symm
    rw [get?_commit, if_neg hne] at hm
    exact ih.of_zero hm
  | @removed x h n ih =>
    cases hn : x.contains n with
    | false => rwa [remove_of_get?_eq_none (contains_eq_false_iff.1 hn)]
    | true => exact ih.removes (.single hn)
  | purged h hpurge ih => exact ih.removes (removes_purge hpurge)
  | expired h settings now ih => exact ih.removes (Retention.removes_expire settings now _)
  | limited h settings subject ih =>
    exact ih.removes (Retention.removes_enforceLimits settings subject _)
  | released h policy needed candidates ih =>
    exact ih.removes (Retention.removes_release policy needed candidates _)
  | unclaimed h needed ih => exact ih.removes (Retention.removes_releaseUnclaimed needed _)

/-- The first number is zero only because of a message of that number. -/
theorem Descends.firstSeq_cases (hx : Descends ms x) :
    1 ≤ x.firstSeq ∨ x.contains 0 = true ∧ ∃ m ∈ ms, m.sequence = 0 := by
  rw [hx.firstSeq_eq]
  rcases lowest_cases x.messages x.lastSeq with ⟨-, h⟩ | ⟨m, hm⟩
  · exact .inl (h ▸ Nat.succ_pos _)
  · rcases Nat.eq_zero_or_pos (lowest x.messages x.lastSeq) with hzero | hpos
    · rw [hzero] at hm
      exact .inr ⟨contains_iff.2 ⟨m, hm⟩, hx.of_zero hm⟩
    · exact .inl hpos

/-- **All that an index keeps beside its messages is right, however it was reached**: the subject
index is the inverse of the messages, the size is the sum of their sizes, no number is above the
last, and the first number is the lowest, or the one behind the last.  So its answers are those of a
scan, and no difference is cut off at zero.  The first number is at least one, unless a message with
the number zero was read back and is still there. -/
theorem Reached.consistent (h : Reached ms x) :
    x.Coherent ∧ x.Answers ∧ x.Unsaturated ∧ x.firstSeq ≤ x.lastSeq + 1 ∧
      (1 ≤ x.firstSeq ∨ x.contains 0 = true ∧ ∃ m ∈ ms, m.sequence = 0) := by
  have hx := h.descends
  refine ⟨hx.toCoherent, hx.answers, hx.unsaturated, ?_, hx.firstSeq_cases⟩
  rcases hx.bounds_cases with ⟨-, hfirst⟩ | ⟨-, hle⟩
  · exact Nat.le_of_eq hfirst
  · exact Nat.le_succ_of_le hle

/-- Of three messages with a gap between them the first goes, and the numbers behind the last were
given before. -/
theorem missing_behind_and_between : ∃ ms x, Reached ms x ∧ ms.map (·.sequence) = [1, 2, 4] ∧
    x.toList.map (·.sequence) = [2, 4] ∧ x.lastSeq = 6 ∧ 1 ≤ x.firstSeq ∧
      (x.state none 0).numDeleted = 3 := by
  let message (n : Nat) : StoredMessage := ⟨n, "s", [], [], Timestamp.ofMicros 0⟩
  have h : Reached [message 1, message 2, message 4] _ :=
    .removed (.restored (by simp [message]) 6) 1
  obtain ⟨-, hanswers, -, -, hfirst⟩ := h.consistent
  refine ⟨_, _, h, rfl, rfl, rfl, hfirst.resolve_right ?_, ?_⟩
  · rintro ⟨hzero, -⟩
    cases hzero
  · rw [hanswers.numDeleted_eq]
    rfl

/-- A message that was written under zero is read back, and then the first number is zero. -/
theorem first_zero_read_back :
    ∃ ms x, ms.map (·.sequence) = [0] ∧ Reached ms x ∧ ¬1 ≤ x.firstSeq := by
  let message : StoredMessage := ⟨0, "s.a", [120], [], Timestamp.ofMicros 0⟩
  have h : Reached [message] (restore [message] 0) := .restored (List.pairwise_singleton ..) 0
  exact ⟨_, _, rfl, h, by decide⟩

end Index

end StreamBroker
