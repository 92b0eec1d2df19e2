import StreamBroker.Proofs.Stream.Announced
import StreamBroker.Proofs.Stream.Steady

/-!
# The newest message of a subject

A stream that lets nothing go on its own keeps the newest message of every subject, until a newer
one comes: a limit on the messages of a subject and a request to cut a subject down leave the newest
one there.  So the newest message of a subject is the last that has come, or the one that was the
newest before.

## Main definitions

* `Stream.KeepsNewest`: the newest message of a subject stays until a newer one comes

## Main results

* `Stream.keepsNewest_publish`, `Stream.keepsNewestOf_purge`: publishing and cutting down
* `Stream.KeepsNewestOf.getLast?_eq`: the newest message is the last that has come, if one has
-/

namespace StreamBroker.Stream

variable {s s' : Stream} {b b' : Backend} {subject : String}

/-- The newest message of a subject is what it was, or one that has come. -/
def KeepsNewestOf (s s' : Stream) (subject : String) : Prop :=
  (s'.index.ofSubject subject).getLast? = (s.index.ofSubject subject).getLast? ∨
    ∃ m, (s'.index.ofSubject subject).getLast? = some m ∧ s.index.lastSeq < m.sequence

/-- The newest message of every subject is what it was, or one that has come. -/
def KeepsNewest (s s' : Stream) : Prop := ∀ subject, s.KeepsNewestOf s' subject

theorem keepsNewest_of_index_eq (h : s'.index = s.index) : s.KeepsNewest s' :=
  fun _ => .inl (by rw [h])

/-- The newest of some elements is among those that are kept, unless none is kept. -/
theorem getLast?_rtake {α : Type} (l : List α) {most : Nat} (h : 1 ≤ most) :
    (l.rtake most).getLast? = l.getLast? := by
  rcases List.eq_nil_or_concat l with rfl | ⟨front, a, rfl⟩
  · rw [List.rtake_nil]
  · obtain ⟨n, rfl⟩ : ∃ n, most = n + 1 := ⟨most - 1, by omega⟩
    rw [List.concat_eq_append, List.rtake_concat_succ, List.getLast?_concat,
      List.getLast?_concat]

/-- A subject that is cut down keeps its newest message. -/
theorem getLast?_trimSubject {x : Index} (hx : x.Tallied) {most : Nat} (hmost : 1 ≤ most)
    (subject other : String) :
    ((Retention.trimSubject most x subject).2.ofSubject other).getLast? =
      (x.ofSubject other).getLast? := by
  rw [Retention.ofSubject_trimSubject hx]
  split
  · next h => rw [h, getLast?_rtake _ hmost]
  · rfl

/-- A message is received as the newest of its subject. -/
theorem getLast?_received (hx : s.index.Sound) {m : StoredMessage}
    (hm : s.index.lastSeq < m.sequence)
    (hmost : ∀ most ∈ s.settings.maxMessagesPerSubject, 1 ≤ most) (subject : String) :
    ((s.received m).ofSubject subject).getLast? =
      if subject = m.subject then some m else (s.index.ofSubject subject).getLast? := by
  have hcommit : ((s.index.commit m).ofSubject subject).getLast? =
      if subject = m.subject then some m else (s.index.ofSubject subject).getLast? := by
    split
    · next h => rw [h, Index.ofSubject_commit_self hx.coherent.toFiled hm, List.getLast?_concat]
    · next h => rw [Index.ofSubject_commit_of_ne hx.coherent.toFiled hm h]
  rw [received, ← hcommit]
  split
  · next most heq =>
    exact getLast?_trimSubject (hx.coherent.commit hm).toTallied (hmost most heq) _ _
  · rfl

/-- What is there after a publish, if it is not refused. -/
theorem index_publish (hs : s.settings.IsSteady) {maxPayload : Nat} {clock : Clock}
    {e : Expectations} {m : Message} {reply : Except Error Nat}
    (h : s.publish maxPayload clock e m b = (reply, s', b'))
    (hreply : reply ≠ .error .numbersExhausted) : s'.index = s.index ∨
      s'.index = s.received (m.stored (s.index.lastSeq + 1) clock.wall.toMicro) := by
  rcases publish_cases h with ⟨-, rfl, -⟩ | ⟨rfl, -⟩ | ⟨t, b₁, hevict, hrest⟩
  · exact .inl rfl
  · exact absurd rfl hreply
  rw [evict_steady hs] at hevict
  cases hevict
  rcases hrest with ⟨-, rfl, -⟩ | ⟨-, -, hstore⟩
  · exact .inl rfl
  rcases storeMessage_cases hstore with ⟨e, -, -, rfl⟩ | ⟨b₂, -, ⟨rfl, -⟩ | ⟨u, hu, -, rfl, -⟩⟩
  · exact .inl rfl
  · exact absurd rfl hreply
  · refine .inr ?_
    show u.index = _
    rw [hu, index_announce]
    exact makeRoom_plain hs.isPlain _

/-- **A publish keeps the newest messages** or stores a newer one. -/
theorem keepsNewest_publish (hs : s.settings.IsSteady)
    (hmost : ∀ most ∈ s.settings.maxMessagesPerSubject, 1 ≤ most) (hx : s.index.Sound)
    {maxPayload : Nat} {clock : Clock} {e : Expectations} {m : Message} {reply : Except Error Nat}
    (h : s.publish maxPayload clock e m b = (reply, s', b'))
    (hreply : reply ≠ .error .numbersExhausted) : s.KeepsNewest s' := by
  rcases index_publish hs h hreply with hindex | hindex
  · exact keepsNewest_of_index_eq hindex
  · intro subject
    rw [KeepsNewestOf, hindex, getLast?_received hx (Nat.lt_succ_self _) hmost]
    split
    · exact .inr ⟨_, rfl, Nat.lt_succ_self _⟩
    · exact .inl rfl

/-- What is left after a request to cut a subject down, if it is not refused. -/
theorem index_purge_subject (hx : s.index.Sound) (hsubject : checkSubject subject = .ok ())
    {keep : Option Nat} {reply : Except Error Nat}
    (h : s.purge { filter := some subject, keep } b = (reply, s', b'))
    (hreply : reply ≠ .error .numbersExhausted) :
    (s'.index = s.index ∧ ∃ e, reply = .error e) ∨
      s'.index = (Retention.trimSubject (keep.getD 0) s.index subject).2 := by
  rcases purge_cases h with ⟨rfl, -, he⟩ | ⟨rfl, -⟩ | ⟨left, t, hpurge, rfl, ht, -⟩
  · exact .inl ⟨rfl, he⟩
  · exact absurd rfl hreply
  · have hleft := Except.ok.inj
      (hpurge.symm.trans (Index.purge_subject hx.coherent.toTallied hsubject keep))
    rcases ht with rfl | rfl <;> exact .inr (congrArg Prod.snd hleft)

/-- **A request to cut a subject down keeps the newest messages** of other subjects, and that of the
subject if it is to keep one. -/
theorem keepsNewestOf_purge (hx : s.index.Sound) (hsubject : checkSubject subject = .ok ())
    {keep : Option Nat} {other : String} (hkeep : other = subject → 1 ≤ keep.getD 0)
    {reply : Except Error Nat}
    (h : s.purge { filter := some subject, keep } b = (reply, s', b'))
    (hreply : reply ≠ .error .numbersExhausted) : s.KeepsNewestOf s' other := by
  rcases index_purge_subject hx hsubject h hreply with ⟨hindex, -⟩ | hindex
  · exact keepsNewest_of_index_eq hindex other
  · rw [KeepsNewestOf, hindex, Retention.ofSubject_trimSubject hx.coherent.toTallied]
    split
    · next heq => exact .inl (by rw [heq, getLast?_rtake _ (hkeep heq)])
    · exact .inl rfl

/-- Of messages that match a pattern, those of a subject that matches are all there are. -/
theorem filter_matching_subject {pattern : String} (h : subjectMatches subject pattern = true)
    (ms : List StoredMessage) :
    (ms.filter fun m => subjectMatches m.subject pattern).filter
        (fun m => decide (m.subject = subject)) =
      ms.filter fun m => decide (m.subject = subject) := by
  rw [List.filter_filter]
  refine List.filter_congr fun m _ => ?_
  by_cases hm : m.subject = subject
  · simp [hm, h]
  · simp [hm]

theorem filter_newcomers_subject (s s' : Stream) (subject : String) :
    (s.newcomers s').filter (fun m => decide (m.subject = subject)) =
      (s'.index.ofSubject subject).filter fun m => decide (s.index.lastSeq < m.sequence) := by
  rw [newcomers, Index.ofSubject, List.filter_filter, List.filter_filter]
  exact List.filter_congr fun _ _ => Bool.and_comm _ _

/-- No message of a subject comes where its newest message is what it was. -/
theorem newcomers_of_getLast?_eq (hs : s.index.Filed) (hs' : s'.index.Filed)
    (h : (s'.index.ofSubject subject).getLast? = (s.index.ofSubject subject).getLast?) :
    (s.newcomers s').filter (fun m => decide (m.subject = subject)) = [] := by
  rw [filter_newcomers_subject, List.filter_eq_nil_iff]
  intro m hm
  obtain ⟨w, hw⟩ := Option.ne_none_iff_exists'.1 fun hnone =>
    List.ne_nil_of_mem hm (List.getLast?_eq_none_iff.1 hnone)
  have hle : m.sequence ≤ w.sequence :=
    (getLast?_of_ascending (·.sequence) (hs'.pairwise_toList.filter _) hw).2 m hm
  -- What is the newest now came before, and so did what is older.
  have hbefore := List.mem_of_getLast? (h.symm.trans hw)
  have hbound := hs.le_lastSeq (hs.mem_ofSubject_iff.1 hbefore).1
  simpa using Nat.le_trans hle hbound

/-- **The newest message of a subject** is the last that has come, or else the one that was the
newest before. -/
theorem KeepsNewestOf.getLast?_eq (h : s.KeepsNewestOf s' subject) (hs : s.index.Filed)
    (hs' : s'.index.Filed) : (s'.index.ofSubject subject).getLast? =
      ((s.newcomers s').filter fun m => decide (m.subject = subject)).getLast?.or
        (s.index.ofSubject subject).getLast? := by
  rcases h with heq | ⟨m, hm, hlt⟩
  · rw [newcomers_of_getLast?_eq hs hs' heq, heq]
    rfl
  · have hlast : ((s'.index.ofSubject subject).filter
        fun m => decide (s.index.lastSeq < m.sequence)).getLast? = some m := by
      obtain ⟨front, hfront⟩ := List.getLast?_eq_some_iff.1 hm
      rw [hfront, List.filter_append, List.filter_cons_of_pos (by simpa using hlt),
        List.filter_nil, List.getLast?_concat]
    rw [filter_newcomers_subject, hlast, hm]
    rfl

end StreamBroker.Stream
