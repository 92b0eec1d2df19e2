import StreamBroker.Proofs.Index.Reached
import StreamBroker.Proofs.Index.Trimmed
import StreamBroker.Stream.Log

/-!
# What a purge takes

A request to purge covers the messages of a pattern, or all of them, and spares the newest of those
it covers, or those from a number on.  The index finds what is covered in its subject index and
removes one message after the other; what is shown here is what a scan of the messages would select,
and that nothing else goes.

The law has an exception that no request can see.  When the first message goes, the first number
moves, and the place behind the last number is looked up for it even if another message is left.
Once the highest number of all was given there is no such place, and a request that asks for the
first message comes to nothing.

## Main definitions

* `Index.settle`: what comes of it when messages have gone from an index
* `Index.answerPurge`: the answer to a request, with what is left of the index
* `Index.Selects`: the messages that a request asks for, as a scan finds them
* `Index.IsOutOfReach`: the requests that come to nothing

## Main results

* `Stream.reduce_eq`, `Stream.purge_eq`: a stream does with its index what is said here
* `Index.Reached.purge_exact`: exactly what was asked for goes
-/

namespace StreamBroker

/-- Whether a request spares messages in two ways at once. -/
def PurgeRequest.isAmbiguous (r : PurgeRequest) : Bool := r.keep.isSome && r.sequence.isSome

namespace Index

variable {x y : Index} {gone : List Nat} {ms : List StoredMessage} {m : StoredMessage}
  {r : PurgeRequest}

/-! ## What is left -/

/-- What comes of it when messages have gone from an index: their numbers, and what is left, unless
the first number has nowhere to go. -/
def settle (x : Index) (left : List Nat × Index) : Except Error (List Nat) × Index :=
  if x.isStuck left.1 then (.error .numbersExhausted, x.removeStuck left.1)
  else (.ok left.1, left.2)

/-- The answer to a request to purge, and what is left of the index. -/
def answerPurge (x : Index) (r : PurgeRequest) : Except Error (List Nat) × Index :=
  match x.purge r with
  | .error e => (.error e, x)
  | .ok left => x.settle left

theorem settle_of_isStuck {left : List Nat × Index} (h : x.isStuck left.1 = true) :
    x.settle left = (.error .numbersExhausted, x.removeStuck left.1) := if_pos h

theorem settle_of_not_isStuck {left : List Nat × Index} (h : ¬x.isStuck left.1 = true) :
    x.settle left = (.ok left.1, left.2) := if_neg h

theorem Coherent.sequence_eq_firstSeq (hx : x.Coherent) (h : x.first? = some m) :
    x.get? m.sequence = some m ∧ m.sequence = x.firstSeq := by
  obtain ⟨e, he, rfl⟩ := Option.map_eq_some_iff.1 h
  have hget : x.get? e.1 = some e.2 := (SeqMap.first?_eq_some_iff.1 he).1
  have hsequence := hx.sequence_eq hget
  refine ⟨hsequence ▸ hget, ?_⟩
  rw [hsequence, hx.firstSeq_eq, lowest, he]

/-- Messages that go are stuck if the first message is among them, and there is no number behind the
last. -/
theorem Loses.isStuck_iff (h : x.Loses gone y) (hx : x.Coherent) :
    x.isStuck gone = true ↔
      wordLimit ≤ x.lastSeq + 1 ∧ ∃ m, x.first? = some m ∧ m.sequence ∈ gone := by
  rw [isStuck, Bool.and_eq_true, decide_eq_true_eq, List.contains_iff_mem]
  refine and_congr_right fun _ => ⟨fun hfirst => ?_, ?_⟩
  · -- The first number is that of a message, because it goes.
    obtain ⟨m, hm⟩ := contains_iff.1 (h.contains _ hfirst)
    refine ⟨m, ?_, hx.sequence_eq hm ▸ hfirst⟩
    have hlowest : x.messages.first? = some (x.firstSeq, m) :=
      SeqMap.first?_eq_some_iff.2 ⟨hm, fun k w hw => hx.firstSeq_le hw⟩
    rw [first?, hlowest, Option.map_some]
  · rintro ⟨m, hm, hgone⟩
    exact (hx.sequence_eq_firstSeq hm).2 ▸ hgone

/-! ## What is asked for -/

/-- The numbers of an index are those of its messages. -/
theorem Filed.keys_eq_map (hx : x.Filed) : x.messages.keys = x.toList.map (·.sequence) := by
  refine eq_of_ascending id (SeqMap.keys_ascending _) (List.pairwise_map.2 hx.pairwise_toList)
    fun n => ?_
  rw [SeqMap.mem_keys_iff, List.mem_map]
  refine contains_iff.trans ⟨?_, ?_⟩
  · rintro ⟨m, hm⟩
    obtain rfl := hx.sequence_eq hm
    exact ⟨m, hx.mem_toList_iff.2 hm, rfl⟩
  · rintro ⟨m, hm, rfl⟩
    exact ⟨m, hx.mem_toList_iff.1 hm⟩

/-- The messages that a request covers, in the order of their numbers. -/
def covered (x : Index) (r : PurgeRequest) : List StoredMessage :=
  match r.filter with
  | some pattern => x.matching pattern
  | none => x.toList

/-- A request asks for a message: it covers it and does not spare it. -/
structure Selects (x : Index) (r : PurgeRequest) (m : StoredMessage) : Prop where
  /-- The message is stored, and its subject matches the filter if there is one. -/
  covered : m ∈ x.covered r
  /-- It is not among the newest of the covered ones that are to be kept. -/
  not_kept : ∀ keep, r.keep = some keep → m ∉ (x.covered r).rtake keep
  /-- Its number is below the one from which on messages are spared. -/
  lt : ∀ below, r.sequence = some below → m.sequence < below

theorem covered_sublist (x : Index) (r : PurgeRequest) : (x.covered r).Sublist x.toList := by
  rw [covered]
  split
  · exact List.filter_sublist
  · exact List.Sublist.refl _

theorem Selects.get? (h : x.Selects r m) (hx : x.Filed) : x.get? m.sequence = some m :=
  hx.mem_toList_iff.1 ((x.covered_sublist r).subset h.covered)

/-- What is left of the messages that a request covers without those that it spares. -/
def askedFor (x : Index) (r : PurgeRequest) : List StoredMessage :=
  match r.keep, r.sequence with
  | some keep, _ => (x.covered r).rdrop keep
  | none, some below => (x.covered r).filter fun m => decide (m.sequence < below)
  | none, none => x.covered r

theorem askedFor_sublist (x : Index) (r : PurgeRequest) :
    (x.askedFor r).Sublist (x.covered r) := by
  rw [askedFor]
  split
  · exact List.take_sublist ..
  · exact List.filter_sublist
  · exact List.Sublist.refl _

theorem Filed.pairwise_askedFor (hx : x.Filed) (r : PurgeRequest) :
    (x.askedFor r).Pairwise fun a b => a.sequence < b.sequence :=
  hx.pairwise_toList.sublist ((x.askedFor_sublist r).trans (x.covered_sublist r))

/-- A request that spares messages in one way at most selects what it asks for. -/
theorem Filed.mem_askedFor_iff (hx : x.Filed)
    (h : r.isAmbiguous = false) : m ∈ x.askedFor r ↔ x.Selects r m := by
  have hnodup : (x.covered r).Nodup :=
    (hx.pairwise_toList.sublist (x.covered_sublist r)).imp fun hlt heq =>
      Nat.ne_of_lt hlt (congrArg _ heq)
  rw [askedFor]
  cases hkeep : r.keep with
  | some keep =>
    rw [mem_rdrop_iff hnodup]
    refine ⟨fun hm => ⟨hm.1, ?_, ?_⟩, fun hm => ⟨hm.covered, hm.not_kept keep hkeep⟩⟩
    · rw [hkeep]
      rintro _ ⟨⟩
      exact hm.2
    · intro below hbelow
      rw [PurgeRequest.isAmbiguous, hkeep, hbelow] at h
      cases h
  | none =>
    have hkept : ∀ keep, r.keep = some keep → m ∉ (x.covered r).rtake keep := by
      rw [hkeep]
      rintro _ ⟨⟩
    cases hbelow : r.sequence with
    | some below =>
      rw [List.mem_filter, decide_eq_true_eq]
      refine ⟨fun hm => ⟨hm.1, hkept, ?_⟩, fun hm => ⟨hm.covered, hm.lt below hbelow⟩⟩
      rw [hbelow]
      rintro _ ⟨⟩
      exact hm.2
    | none =>
      refine ⟨fun hm => ⟨hm, hkept, ?_⟩, Selects.covered⟩
      rw [hbelow]
      rintro _ ⟨⟩

/-- What the index finds to be covered are the numbers of what a scan covers. -/
theorem Tallied.candidates_eq (hx : x.Tallied) (r : PurgeRequest) :
    (match r.filter with
      | some pattern => x.matchingSequences pattern
      | none => x.messages.keys) = (x.covered r).map (·.sequence) := by
  rw [covered]
  split
  · exact hx.matchingSequences_eq _
  · exact hx.keys_eq_map

/-- What the index finds to remove are the numbers of what a scan selects. -/
theorem Tallied.purgeSelection_eq (hx : x.Tallied) (r : PurgeRequest) :
    x.purgeSelection r = (x.askedFor r).map (·.sequence) := by
  rw [purgeSelection, askedFor]
  cases r.keep with
  | some keep =>
    refine (congrArg (fun ns => ns.take (ns.length - keep)) (hx.candidates_eq r)).trans ?_
    rw [List.length_map, ← List.map_take]
    rfl
  | none =>
    cases r.sequence with
    | some below =>
      refine (congrArg (List.filter fun n => decide (n < below)) (hx.candidates_eq r)).trans ?_
      rw [List.filter_map]
      rfl
    | none => exact hx.candidates_eq r

/-! ## What goes -/

/-- Only what is there goes, in the order in which it was asked for. -/
theorem removeAll_sublist (x : Index) (ns : List Nat) : (x.removeAll ns).1.Sublist ns := by
  induction ns generalizing x with
  | nil => exact List.Sublist.refl _
  | cons n ns ih =>
    rw [removeAll]
    split
    · exact (ih _).cons_cons n
    · exact (ih x).cons n

/-- Exactly the messages that a request asks for have gone. -/
structure Purges (x : Index) (r : PurgeRequest) (gone : List Nat) (y : Index) : Prop where
  /-- The numbers come in ascending order. -/
  ascending : gone.Pairwise (· < ·)
  /-- They are those of the messages that the request asks for. -/
  mem_iff : ∀ n, n ∈ gone ↔ ∃ m, m.sequence = n ∧ x.Selects r m
  /-- Every other message is as it was. -/
  get?_eq : ∀ n, y.get? n = if n ∈ gone then none else x.get? n
  /-- The last number stays. -/
  lastSeq_eq : y.lastSeq = x.lastSeq

/-- A request asks for the first message, and there is no number behind the last one. -/
def IsOutOfReach (x : Index) (r : PurgeRequest) : Prop :=
  wordLimit ≤ x.lastSeq + 1 ∧ ∃ m, x.first? = some m ∧ x.Selects r m

theorem Tallied.purges_removeAll (hx : x.Tallied)
    (h : r.isAmbiguous = false) :
    x.Purges r (x.removeAll (x.purgeSelection r)).1 (x.removeAll (x.purgeSelection r)).2 where
  ascending := by
    refine List.Pairwise.sublist (x.removeAll_sublist _) ?_
    rw [hx.purgeSelection_eq, List.pairwise_map]
    exact hx.pairwise_askedFor r
  mem_iff n := by
    rw [mem_removeAll_iff, hx.purgeSelection_eq, List.mem_map]
    simp only [hx.mem_askedFor_iff h]
    constructor
    · rintro ⟨⟨m, hm, hn⟩, -⟩
      exact ⟨m, hn, hm⟩
    · rintro ⟨m, rfl, hm⟩
      exact ⟨⟨m, hm, rfl⟩, contains_iff.2 ⟨m, hm.get? hx.toFiled⟩⟩
  get?_eq := (loses_removeAll x _).get?_eq
  lastSeq_eq := (loses_removeAll x _).lastSeq_eq

theorem Purges.isStuck_iff (h : x.Purges r gone y) (hloses : x.Loses gone y) (hx : x.Coherent) :
    x.isStuck gone = true ↔ x.IsOutOfReach r := by
  rw [hloses.isStuck_iff hx, IsOutOfReach]
  refine and_congr_right fun _ => exists_congr fun m => and_congr_right fun hm => ?_
  rw [h.mem_iff]
  constructor
  · rintro ⟨w, hw, hselects⟩
    -- There is one message under a number.
    have hget := hselects.get? hx.toFiled
    rw [hw, (hx.sequence_eq_firstSeq hm).1, Option.some.injEq] at hget
    exact hget ▸ hselects
  · exact fun hselects => ⟨m, rfl, hselects⟩

/-- **Exactly what was asked for goes.**  A request is refused, and changes nothing, if it says both
how many messages to keep and from which number on.  Otherwise the numbers that went are told in
ascending order; they are those of the stored messages whose subject matches the filter, if there is
one, and that are not among the newest that are to be kept, or that are below the number.  All other
messages and the last number stay, and all that is kept beside them is right.

The only requests that come to nothing are those that ask for the first message when the highest
number of all was given. -/
theorem Reached.purge_exact (hx : Reached ms x) (r : PurgeRequest) :
    (x.answerPurge r =
        (.error (.invalidConfig "purge accepts either keep or sequence, not both"), x) ↔
      r.isAmbiguous = true) ∧
    ((x.answerPurge r).1 = .error .numbersExhausted ↔
      r.isAmbiguous = false ∧ x.IsOutOfReach r) ∧
    (r.isAmbiguous = false → ¬x.IsOutOfReach r →
      ∃ gone y, x.answerPurge r = (.ok gone, y) ∧ x.Purges r gone y ∧
        Reached ms y ∧ y.Coherent) := by
  have hcoherent := hx.descends.toCoherent
  cases hboth : r.isAmbiguous with
  | true =>
    have hpurge : x.purge r =
        .error (.invalidConfig "purge accepts either keep or sequence, not both") := if_pos hboth
    simp [answerPurge, hpurge]
  | false =>
    have hpurge : x.purge r = .ok (x.removeAll (x.purgeSelection r)) :=
      if_neg (Bool.eq_false_iff.1 hboth)
    have hpurges := hcoherent.purges_removeAll hboth
    have hstuck := hpurges.isStuck_iff (loses_removeAll x _) hcoherent
    have hanswer : x.answerPurge r = x.settle (x.removeAll (x.purgeSelection r)) := by
      rw [answerPurge, hpurge]
    by_cases hreach : x.IsOutOfReach r
    · simp [hanswer, settle_of_isStuck (hstuck.2 hreach), hreach]
    · rw [settle_of_not_isStuck (mt hstuck.1 hreach)] at hanswer
      refine ⟨by simp [hanswer], by simp [hanswer, hreach], fun _ _ => ?_⟩
      exact ⟨_, _, hanswer, hpurges, .purged hx hpurge,
        (removes_purge hpurge).coherent hcoherent⟩

/-- Of three messages up to the highest number of all, one in the middle can go and the first one
cannot, although others are left. -/
theorem purge_exact_in_the_middle : ∃ ms x, Reached ms x ∧
    x.toList.map (·.sequence) = [1, 2, wordLimit - 1] ∧
    (∃ y, x.answerPurge { filter := some "s.b" } = (.ok [2], y) ∧
      ∀ n, n ≠ 2 → y.get? n = x.get? n) ∧
    (x.answerPurge { sequence := some 2 }).1 = .error .numbersExhausted := by
  let message (n : Nat) (subject : String) : StoredMessage :=
    ⟨n, subject, [], [], Timestamp.ofMicros 0⟩
  let x := restore [message 1 "s.a", message 2 "s.b", message (wordLimit - 1) "s.a"] 0
  have h : Reached _ x := .restored (by simp [message]; decide) 0
  have hfirst : x.first? = some (message 1 "s.a") := by decide +kernel
  refine ⟨_, x, h, by decide +kernel, ?_, ?_⟩
  · have hcovered : x.covered { filter := some "s.b" } = [message 2 "s.b"] := by decide +kernel
    have hselects {m : StoredMessage} (hm : x.Selects { filter := some "s.b" } m) :
        m = message 2 "s.b" := List.mem_singleton.1 (hcovered ▸ hm.covered)
    obtain ⟨gone, y, hanswer, hpurges, -⟩ :=
      (h.purge_exact { filter := some "s.b" }).2.2 rfl fun ⟨_, m, hm, hasked⟩ => by
        rw [hfirst, hselects hasked] at hm
        exact absurd hm (by decide +kernel)
    have hgone : gone = [2] := by
      refine eq_of_ascending id hpurges.ascending (List.pairwise_singleton ..) fun n => ?_
      rw [hpurges.mem_iff, List.mem_singleton]
      constructor
      · rintro ⟨m, rfl, hm⟩
        rw [hselects hm]
      · rintro rfl
        exact ⟨message 2 "s.b", rfl, by rw [hcovered]; exact List.mem_singleton_self _,
          fun _ => nofun, fun _ => nofun⟩
    rw [hgone] at hanswer hpurges
    exact ⟨y, hanswer, fun n hn => (hpurges.get?_eq n).trans (if_neg (by simpa using hn))⟩
  · refine (h.purge_exact { sequence := some 2 }).2.1.2 ⟨rfl, by decide +kernel, _, hfirst, ?_⟩
    exact ⟨by decide +kernel, fun _ => nofun, fun below hbelow => by cases hbelow; decide⟩

end Index

namespace Stream

variable {s : Stream}

/-! ## What a stream keeps -/

/-- A stream keeps of its index what comes of it when messages have gone. -/
theorem reduce_eq (s : Stream) (f : Index → List Nat × Index) :
    s.reduce f =
      ((s.index.settle (f s.index)).1, { s with index := (s.index.settle (f s.index)).2 }) := by
  simp only [reduce, Index.settle]
  split <;> rfl

/-- A stream whose filter is valid goes by the messages left. -/
theorem purge_of_valid {r : PurgeRequest}
    (h : ∀ pattern, r.filter = some pattern → checkFilter pattern = .ok ()) (b : Backend) :
    s.purge r b =
      match s.index.purge r with
      | .error e => (.error e, s, b)
      | .ok left =>
        match s.reduce fun _ => left with
        | (.error e, s) => (.error e, s, b)
        | (.ok gone, s) =>
          match s.discard gone b with
          | (.error e, b) => (.error e, s, b)
          | (.ok (), b) => (.ok gone.length, s.notifyAll, b) := by
  rw [purge]
  cases hfilter : r.filter with
  | none => rfl
  | some pattern =>
    have hvalid := h pattern hfilter
    dsimp only
    generalize checkFilter pattern = checked at hvalid ⊢
    cases hvalid
    rfl

/-- A stream answers a request with a valid filter as its index does, and what went from the index
goes from the journal. -/
theorem purge_eq {r : PurgeRequest}
    (h : ∀ pattern, r.filter = some pattern → checkFilter pattern = .ok ()) (b : Backend) :
    s.purge r b =
      let t := { s with index := (s.index.answerPurge r).2 }
      match (s.index.answerPurge r).1 with
      | .error e => (.error e, t, b)
      | .ok gone =>
        match t.discard gone b with
        | (.error e, b) => (.error e, t, b)
        | (.ok (), b) => (.ok gone.length, t.notifyAll, b) := by
  rw [purge_of_valid h, Index.answerPurge]
  cases s.index.purge r with
  | error e => rfl
  | ok left =>
    simp only [reduce_eq]
    cases (s.index.settle left).1 <;> rfl

end Stream

end StreamBroker
