import StreamBroker.Proofs.LogStore.Holds

/-!
# A directory in the place of memory

A store in a directory and a store in memory that are given the same calls answer alike.  They start
empty, and from then on a namespace with a name that a directory can have holds the same log in
both, since every call has the same effect on the log it is about and none on others.

A directory refuses some names outright.  Of those that it accepts, one is too long for the file
system when it has more than two hundred and fifty-five octets: the two stores differ there, and
only there, and every call that comes as far as the file system shows it by failing.  An append of
nothing does not come so far.

## Main definitions

* `LogStore.answers`: the answers to calls, one after the other
* `LogCall.isOverlong`: a call that the file system fails for the length of a name
* `DirectoryStore.Mirrors`: a directory holds the logs that memory holds

## Main results

* `DirectoryStore.Mirrors.answer`: one call
* `DirectoryStore.Mirrors.answers`: any number of them
* `LogStore.answers_directory`: a directory answers as memory does
-/

namespace StreamBroker

/-- Whether a call comes as far as the file system with a name that is too long for it. -/
def LogCall.isOverlong : LogCall → Bool
  | append _ [] => false
  | call => decide (DirectoryStore.maxNameLength < call.ns.utf8ByteSize)

/-- The answer to a call, or the failure of the file system. -/
def LogCall.limit (call : LogCall) (reply : Except StorageError LogReply) :
    Except StorageError LogReply :=
  if call.isOverlong then .error .io else reply

/-- The answers to calls, one after the other. -/
def LogStore.answers (s : LogStore) : List LogCall → List (Except StorageError LogReply)
  | [] => []
  | call :: calls => (s.answer call).1 :: answers (s.answer call).2 calls

namespace DirectoryStore

variable {s : DirectoryStore} {m : MemoryStore} {ns : String} {call : LogCall}
  {calls : List LogCall}

/-! ## Names that are too long -/

theorem directory?_of_overlong (hns : checkNamespace ns = .ok ())
    (hlong : maxNameLength < ns.utf8ByteSize) : s.directory? ns = .error .io := by
  rw [directory?, hns]
  exact if_pos hlong

/-- Every call that comes as far as the file system fails, and leaves the store as it is. -/
theorem answer_of_isOverlong (hns : checkNamespace call.ns = .ok ()) (h : call.isOverlong = true) :
    s.answer call = (.error .io, s) := by
  have hdir (hlong : maxNameLength < call.ns.utf8ByteSize) : s.directory? call.ns = .error .io :=
    directory?_of_overlong hns hlong
  cases call with
  | append ns es =>
    cases es with
    | nil => cases h
    | cons e es =>
      simp only [LogCall.ns] at hdir
      simp [answer, append, hdir (of_decide_eq_true h), Except.map]
  | bounds ns =>
    simp only [LogCall.ns] at hdir
    simp only [answer, namespaceIndices, hdir (of_decide_eq_true h)]
    rfl
  | compactBefore ns index =>
    simp only [LogCall.ns] at hdir
    simp [answer, compactBefore, hdir (of_decide_eq_true h), Except.map]
  | readRange ns start stop =>
    simp only [LogCall.ns] at hdir
    simp only [answer, readRange, hdir (of_decide_eq_true h)]
    rfl
  | removeNamespace ns =>
    simp only [LogCall.ns] at hdir
    simp [answer, hdir (of_decide_eq_true h)]
  | deleteEntry ns index =>
    simp only [LogCall.ns] at hdir
    simp [answer, deleteEntry, hdir (of_decide_eq_true h), Except.map]

/-! ## The same logs in both stores -/

/-- A directory holds the logs that memory holds, under every name that a directory can have. -/
def Mirrors (s : DirectoryStore) (m : MemoryStore) : Prop :=
  ∀ ns, checkNamespace ns = .ok () → ns.utf8ByteSize ≤ maxNameLength → s.Holds ns (m.log ns)

theorem mirrors_empty : Mirrors {} {} := by
  intro ns hns hfits
  refine ⟨none, ?_, Lists.nil⟩
  rw [directory?, hns]
  exact if_neg (Nat.not_lt.2 hfits)

/-- **One call** is answered alike, unless its name is too long, and leaves the same logs behind. -/
theorem Mirrors.answer (h : s.Mirrors m) (hns : checkNamespace call.ns = .ok ())
    (hcall : call.IsInRange) :
    (s.answer call).1 = call.limit (.ok (m.answer call).1) ∧
      (s.answer call).2.Mirrors (m.answer call).2 := by
  rw [LogCall.limit]
  have hothers {t : DirectoryStore} {ns : String} (hne : ns ≠ call.ns)
      (ht : t.directory? ns = s.directory? ns) (hns : checkNamespace ns = .ok ())
      (hfits : ns.utf8ByteSize ≤ maxNameLength) : t.Holds ns ((m.answer call).2.log ns) := by
    obtain ⟨u, hu, hlog⟩ := h ns hns hfits
    rw [MemoryStore.log_answer_of_ne hne]
    exact ⟨u, ht.trans hu, hlog⟩
  by_cases hlong : maxNameLength < call.ns.utf8ByteSize
  · -- The log that memory keeps under such a name is no log of a directory.
    have hmirrors {t : DirectoryStore} (ht : t = s) : t.Mirrors (m.answer call).2 := by
      rintro ns hns hfits
      exact hothers (by rintro rfl; omega) (ht ▸ rfl) hns hfits
    by_cases hover : call.isOverlong = true
    · rw [answer_of_isOverlong hns hover, if_pos hover]
      exact ⟨rfl, hmirrors rfl⟩
    · rw [if_neg hover]
      cases call with
      | append ns es =>
        cases es with
        | nil => exact ⟨rfl, hmirrors rfl⟩
        | cons e es => exact absurd (decide_eq_true hlong) hover
      | bounds | compactBefore | readRange | removeNamespace | deleteEntry =>
        exact absurd (decide_eq_true hlong) hover
  · have heffect := m.answer_eq_effect call
    have hanswer := (h call.ns hns (Nat.not_lt.1 hlong)).answer hcall
    have hover : ¬call.isOverlong = true := by
      unfold LogCall.isOverlong
      split
      · simp
      · simpa using hlong
    rw [if_neg hover, heffect.1]
    refine ⟨hanswer.1, fun ns hns' hfits => ?_⟩
    by_cases hne : ns = call.ns
    · subst hne
      rw [heffect.2]
      exact hanswer.2
    · exact hothers hne (directory?_answer_of_ne hne) hns' hfits

/-- **Any number of calls** is answered so. -/
theorem Mirrors.answers (h : s.Mirrors m)
    (hns : ∀ call ∈ calls, checkNamespace call.ns = .ok ())
    (hcalls : ∀ call ∈ calls, call.IsInRange) :
    (LogStore.directory s).answers calls =
      List.zipWith LogCall.limit calls ((LogStore.memory m).answers calls) := by
  induction calls generalizing s m with
  | nil => rfl
  | cons call calls ih =>
    obtain ⟨hreply, hnext⟩ :=
      h.answer (hns call List.mem_cons_self) (hcalls call List.mem_cons_self)
    simp only [LogStore.answers, List.zipWith_cons_cons]
    refine congrArg₂ List.cons hreply ?_
    exact ih hnext (fun c hc => hns c (List.mem_cons_of_mem call hc))
      fun c hc => hcalls c (List.mem_cons_of_mem call hc)

end DirectoryStore

namespace LogStore

variable {calls : List LogCall}

theorem length_answers (s : LogStore) (calls : List LogCall) :
    (s.answers calls).length = calls.length := by
  induction calls generalizing s with
  | nil => rfl
  | cons call calls ih => exact congrArg (· + 1) (ih _)

/-- Where no call fails, none is limited. -/
theorem zipWith_limit_eq {replies : List (Except StorageError LogReply)}
    (hlength : replies.length = calls.length)
    (h : ∀ reply ∈ List.zipWith LogCall.limit calls replies, reply ≠ .error .io) :
    List.zipWith LogCall.limit calls replies = replies := by
  induction calls generalizing replies with
  | nil => rw [List.zipWith_nil_left, eq_comm, List.length_eq_zero_iff.1 hlength]
  | cons call calls ih =>
    cases replies with
    | nil => cases hlength
    | cons reply replies =>
      rw [List.zipWith_cons_cons, List.forall_mem_cons] at h
      have hcall : ¬call.isOverlong = true := fun hc => h.1 (if_pos hc)
      rw [List.zipWith_cons_cons, LogCall.limit, if_neg hcall, ih (Nat.succ.inj hlength) h.2]

/-- **A directory answers as memory does.**  Both stores start empty and are given the same calls,
about any namespaces whose names the directory accepts.  If the file system fails none of them, then
the answers are the same; and it fails just those that come to it with a name that is too long. -/
theorem answers_directory (hns : ∀ call ∈ calls, DirectoryStore.checkNamespace call.ns = .ok ())
    (hcalls : ∀ call ∈ calls, call.IsInRange) :
    ((∀ reply ∈ (directory {}).answers calls, reply ≠ .error .io) →
      (directory {}).answers calls = (memory {}).answers calls) ∧
    (directory {}).answers calls =
      List.zipWith LogCall.limit calls ((memory {}).answers calls) := by
  have heq := DirectoryStore.mirrors_empty.answers hns hcalls
  refine ⟨fun hio => ?_, heq⟩
  rw [heq] at hio ⊢
  exact zipWith_limit_eq (length_answers _ calls) hio

/-- Calls about two namespaces that take turns: a number that is written twice in one call, the
largest number, empty and backward ranges, and a namespace that is removed and written again. -/
def turns : List LogCall :=
  let largest := wordLimit - 1
  [.append "orders" [(7, [1]), (largest, [2]), (7, [3]), (10, [])],
    .append "orders.index" [(7, [4])], .bounds "orders", .readRange "orders" 7 largest,
    .readRange "orders" 10 7, .deleteEntry "orders" 7, .deleteEntry "orders" 7,
    .compactBefore "orders.index" 6, .compactBefore "orders" 10, .bounds "orders",
    .readRange "orders" 0 largest, .compactBefore "orders" largest, .bounds "orders",
    .removeNamespace "orders.index", .append "orders.index" [], .bounds "orders.index",
    .append "orders.index" [(0, [5])], .readRange "orders.index" 0 1]

/-- The answers to them. -/
def turnReplies : List (Except StorageError LogReply) :=
  let largest := wordLimit - 1
  [.ok .done, .ok .done, .ok (.bounds (some (7, largest))),
    .ok (.entries [(7, [3]), (10, [])]), .ok (.entries []), .ok (.existed true),
    .ok (.existed false), .ok .done, .ok .done, .ok (.bounds (some (largest, largest))),
    .ok (.entries []), .ok .done, .ok (.bounds none), .ok .done, .ok .done, .ok (.bounds none),
    .ok .done, .ok (.entries [(0, [5])])]

/-- Both stores give the same answers to such calls. -/
theorem turns_answered_alike :
    (∀ call ∈ turns, DirectoryStore.checkNamespace call.ns = .ok ()) ∧
      (∀ call ∈ turns, call.IsInRange) ∧
      (∀ reply ∈ (directory {}).answers turns, reply ≠ .error .io) ∧
      (directory {}).answers turns = turnReplies ∧ (memory {}).answers turns = turnReplies := by
  have hns : ∀ call ∈ turns, DirectoryStore.checkNamespace call.ns = .ok () := by
    have horders : DirectoryStore.checkNamespace "orders" = .ok () := rfl
    have hindex : DirectoryStore.checkNamespace "orders.index" = .ok () := rfl
    simp [turns, LogCall.ns, horders, hindex]
  have hcalls : ∀ call ∈ turns, call.IsInRange := by
    simp only [turns, LogCall.IsInRange, List.forall_mem_cons, List.not_mem_nil, false_imp_iff,
      implies_true, and_true, true_and]
    decide
  obtain ⟨halike, hlimit⟩ := answers_directory hns hcalls
  have hmemory : (memory {}).answers turns = turnReplies := rfl
  have hio : ∀ reply ∈ (directory {}).answers turns, reply ≠ .error .io := by
    have hreplies : List.zipWith LogCall.limit turns turnReplies = turnReplies := rfl
    rw [hlimit, hmemory, hreplies]
    simp [turnReplies]
  exact ⟨hns, hcalls, hio, (halike hio).trans hmemory, hmemory⟩

end LogStore

end StreamBroker
