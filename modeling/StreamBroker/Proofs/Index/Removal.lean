import StreamBroker.Retention
import StreamBroker.Proofs.Index.Sound

/-!
# What removals take from an index

Messages leave an index in many ways, but always one after the other, and only messages that are
there.  Retention and requests differ in the numbers they choose, and all that is shown of them is
shown of one message that goes.

What it comes to is a loss: some numbers that there were messages of go, each once, and nothing else
changes.  No property of the journal depends on more than that.

## Main definitions

* `Index.Removes`: messages go one after the other
* `Index.Loses`: some messages go, and everything else stays

## Main results

* `Index.Removes.coherent`, `Index.Removes.loses`: what removals preserve, and what they come to
* `Index.removes_removeAll`: the removal that all others are made of
* `Retention.removes_enforceLimits`, `Retention.removes_release`, …: what retention takes
* `Index.Loses.trans`: losses one after the other
-/

namespace StreamBroker

namespace Index

variable {x y z : Index} {gone more : List Nat}

/-- Messages go from an index one after the other. -/
inductive Removes : Index → List Nat → Index → Prop where
  | refl (x : Index) : Removes x [] x
  | cons {x y : Index} {n : Nat} {gone : List Nat} (hn : x.contains n = true)
      (h : Removes (x.remove n) gone y) : Removes x (n :: gone) y

namespace Removes

theorem single {n : Nat} (hn : x.contains n = true) : x.Removes [n] (x.remove n) :=
  .cons hn (.refl _)

theorem trans (h : x.Removes gone y) (h' : y.Removes more z) : x.Removes (gone ++ more) z := by
  induction h with
  | refl x => exact h'
  | cons hn h ih => exact .cons hn (ih h')

/-- What is kept beside the messages stays right. -/
theorem coherent (h : x.Removes gone y) (hx : x.Coherent) : y.Coherent := by
  induction h with
  | refl x => exact hx
  | cons hn h ih => exact ih (hx.remove _)

end Removes

/-- The messages of some numbers go from an index, and everything else stays. -/
structure Loses (x : Index) (gone : List Nat) (y : Index) : Prop where
  /-- There was a message of every number that goes. -/
  contains : ∀ n ∈ gone, x.contains n = true
  /-- No number goes twice. -/
  nodup : gone.Nodup
  /-- The messages of the other numbers stay. -/
  get?_eq : ∀ n, y.get? n = if n ∈ gone then none else x.get? n
  /-- The last number stays. -/
  lastSeq_eq : y.lastSeq = x.lastSeq
  /-- What is kept beside the messages is right if it was. -/
  sound : x.Sound → y.Sound

namespace Loses

theorem refl (x : Index) : x.Loses [] x where
  contains n hn := by cases hn
  nodup := List.nodup_nil
  get?_eq n := by simp
  lastSeq_eq := rfl
  sound := id

theorem get?_of_not_mem (h : x.Loses gone y) {n : Nat} (hn : n ∉ gone) :
    y.get? n = x.get? n := by
  rw [h.get?_eq, if_neg hn]

theorem get?_eq_none (h : x.Loses gone y) {n : Nat} (hn : n ∈ gone) : y.get? n = none := by
  rw [h.get?_eq, if_pos hn]

theorem contains_eq (h : x.Loses gone y) (n : Nat) :
    y.contains n = (!decide (n ∈ gone) && x.contains n) := by
  rw [Index.contains, Index.contains, h.get?_eq]
  by_cases hn : n ∈ gone <;> simp [hn]

theorem get?_of_get? (h : x.Loses gone y) {n : Nat} {m : StoredMessage} (hn : y.get? n = some m) :
    x.get? n = some m := by
  rw [h.get?_eq] at hn
  split at hn
  · cases hn
  · exact hn

/-- Losses one after the other are one loss. -/
theorem trans (h : x.Loses gone y) (h' : y.Loses more z) : x.Loses (gone ++ more) z where
  contains n hn := by
    rcases List.mem_append.1 hn with hn | hn
    · exact h.contains n hn
    · -- What goes later was there at first.
      have := h'.contains n hn
      rw [h.contains_eq, Bool.and_eq_true] at this
      exact this.2
  nodup := by
    refine List.nodup_append.2 ⟨h.nodup, h'.nodup, ?_⟩
    intro n hn k hk e
    -- What went at first is not there to go again.
    have := h'.contains k hk
    rw [h.contains_eq, ← e] at this
    simp [hn] at this
  get?_eq n := by
    rw [h'.get?_eq, h.get?_eq]
    by_cases hn : n ∈ gone <;> by_cases hk : n ∈ more <;> simp [hn, hk]
  lastSeq_eq := h'.lastSeq_eq.trans h.lastSeq_eq
  sound hx := h'.sound (h.sound hx)

end Loses

theorem Filed.loses (hx : x.Filed) (h : x.Loses gone y) : y.Filed :=
  hx.of_get? h.get?_of_get? (Nat.le_of_eq h.lastSeq_eq.symm)

theorem Keyed.loses (hx : x.Keyed) (h : x.Loses gone y) : y.Keyed :=
  hx.of_get? h.get?_of_get? (Nat.le_of_eq h.lastSeq_eq.symm)

/-! ## Requests -/

theorem loses_remove {n : Nat} (hn : x.contains n = true) : x.Loses [n] (x.remove n) where
  contains k hk := by
    rw [List.mem_singleton] at hk
    rw [hk, hn]
  nodup := List.pairwise_singleton ..
  get?_eq k := by
    rw [get?_remove]
    simp only [List.mem_singleton]
  lastSeq_eq := lastSeq_remove x n
  sound hx := hx.remove n

/-- Messages that go one after the other are lost together. -/
theorem Removes.loses (h : x.Removes gone y) : x.Loses gone y := by
  induction h with
  | refl x => exact .refl x
  | cons hn h ih => exact (loses_remove hn).trans ih

/-- The removal that all others are made of. -/
theorem removes_removeAll (x : Index) (ns : List Nat) :
    x.Removes (x.removeAll ns).1 (x.removeAll ns).2 := by
  induction ns generalizing x with
  | nil => exact .refl x
  | cons n ns ih =>
    rw [removeAll]
    split
    · next hn => exact .cons hn (ih (x.remove n))
    · exact ih x

theorem loses_removeAll (x : Index) (ns : List Nat) :
    x.Loses (x.removeAll ns).1 (x.removeAll ns).2 := (removes_removeAll x ns).loses

/-- What goes is what was asked for, as far as there is a message. -/
theorem mem_removeAll_iff (x : Index) (ns : List Nat) (n : Nat) :
    n ∈ (x.removeAll ns).1 ↔ n ∈ ns ∧ x.contains n = true := by
  induction ns generalizing x with
  | nil => simp [removeAll]
  | cons k ns ih =>
    rw [removeAll]
    split
    · next hk =>
      -- The first number went, so it is not found when the others are looked up.
      have hgone := (loses_remove hk).contains_eq n
      simp only [List.mem_singleton] at hgone
      simp only [List.mem_cons, ih, hgone, Bool.and_eq_true]
      by_cases hn : n = k
      · simp [hn, hk]
      · simp [hn]
    · next hk =>
      rw [ih, List.mem_cons]
      constructor
      · exact fun h => ⟨.inr h.1, h.2⟩
      · rintro ⟨rfl | hn, hc⟩
        · exact absurd hc hk
        · exact ⟨hn, hc⟩

theorem get?_removeAll (x : Index) (ns : List Nat) (n : Nat) :
    (x.removeAll ns).2.get? n = if n ∈ ns then none else x.get? n := by
  simp only [(loses_removeAll x ns).get?_eq, mem_removeAll_iff]
  cases hc : x.contains n with
  | false => simp [contains_eq_false_iff.1 hc]
  | true => simp

theorem purge_eq_ok {r : PurgeRequest} {left : List Nat × Index} (h : x.purge r = .ok left) :
    left = x.removeAll (x.purgeSelection r) := by
  rw [purge] at h
  split at h
  · cases h
  · cases h
    rfl

theorem removes_purge {r : PurgeRequest} {left : List Nat × Index} (h : x.purge r = .ok left) :
    x.Removes left.1 left.2 := purge_eq_ok h ▸ removes_removeAll x _

theorem loses_purge {r : PurgeRequest} {left : List Nat × Index} (h : x.purge r = .ok left) :
    x.Loses left.1 left.2 := (removes_purge h).loses

theorem mem_purgeSelection {r : PurgeRequest} {left : List Nat × Index} (h : x.purge r = .ok left)
    {n : Nat} (hn : n ∈ left.1) : n ∈ x.purgeSelection r := by
  rw [purge_eq_ok h, mem_removeAll_iff] at hn
  exact hn.1

end Index

/-! ## Retention -/

namespace Retention

theorem removes_expire (settings : StreamSettings) (now : Timestamp) (x : Index) :
    x.Removes (expire settings now x).1 (expire settings now x).2 := by
  rw [expire]
  split
  · exact .refl x
  · exact Index.removes_removeAll x _

theorem loses_expire (settings : StreamSettings) (now : Timestamp) (x : Index) :
    x.Loses (expire settings now x).1 (expire settings now x).2 :=
  (removes_expire settings now x).loses

theorem removes_trimSubjects (most : Nat) (subjects : List String) (x : Index) :
    x.Removes (trimSubjects most subjects x).1 (trimSubjects most subjects x).2 := by
  induction subjects generalizing x with
  | nil => exact .refl x
  | cons subject subjects ih => exact (Index.removes_removeAll x _).trans (ih _)

theorem removes_trimFront (settings : StreamSettings) (ns : List Nat) (x : Index)
    (hns : ns.Nodup) (hc : ∀ n ∈ ns, x.contains n = true) :
    x.Removes (trimFront settings ns x).1 (trimFront settings ns x).2 := by
  induction ns generalizing x with
  | nil => exact .refl x
  | cons n ns ih =>
    rw [List.nodup_cons] at hns
    rw [trimFront]
    split
    · -- The others are still there, because no number comes twice.
      have hn := hc n List.mem_cons_self
      refine .cons hn (ih _ hns.2 ?_)
      intro k hk
      have hne : k ≠ n := fun h => hns.1 (h ▸ hk)
      rw [(Index.loses_remove hn).contains_eq, hc k (List.mem_cons_of_mem n hk)]
      simp [hne]
    · exact .refl x

theorem removes_trimOldest (settings : StreamSettings) (x : Index) :
    x.Removes (trimOldest settings x).1 (trimOldest settings x).2 := by
  rw [trimOldest]
  split
  · exact removes_trimFront settings _ x x.messages.keys_nodup fun n hn => SeqMap.mem_keys_iff.1 hn
  · exact .refl x

theorem removes_enforceLimits (settings : StreamSettings) (subject : Option String) (x : Index) :
    x.Removes (enforceLimits settings subject x).1 (enforceLimits settings subject x).2 := by
  rw [enforceLimits]
  cases settings.maxMessagesPerSubject with
  | none =>
    cases settings.discard with
    | new => exact .refl x
    | old => exact removes_trimOldest settings x
  | some most =>
    -- What a subject has too much of goes before what the stream has too much of.
    have hsubjects := removes_trimSubjects most (trimmedSubjects x subject) x
    cases settings.discard with
    | new => exact hsubjects
    | old => exact hsubjects.trans (removes_trimOldest settings _)

theorem loses_enforceLimits (settings : StreamSettings) (subject : Option String) (x : Index) :
    x.Loses (enforceLimits settings subject x).1 (enforceLimits settings subject x).2 :=
  (removes_enforceLimits settings subject x).loses

theorem removes_release (policy : RetentionPolicy) (needed : Needed) (candidates : List Nat)
    (x : Index) :
    x.Removes (release policy needed candidates x).1 (release policy needed candidates x).2 := by
  cases policy with
  | limits => exact .refl x
  | workQueue => exact Index.removes_removeAll x _
  | interest => exact Index.removes_removeAll x _

theorem loses_release (policy : RetentionPolicy) (needed : Needed) (candidates : List Nat)
    (x : Index) :
    x.Loses (release policy needed candidates x).1 (release policy needed candidates x).2 :=
  (removes_release policy needed candidates x).loses

theorem removes_releaseUnclaimed (needed : Needed) (x : Index) :
    x.Removes (releaseUnclaimed needed x).1 (releaseUnclaimed needed x).2 :=
  Index.removes_removeAll x _

theorem loses_releaseUnclaimed (needed : Needed) (x : Index) :
    x.Loses (releaseUnclaimed needed x).1 (releaseUnclaimed needed x).2 :=
  (removes_releaseUnclaimed needed x).loses

end Retention

end StreamBroker
