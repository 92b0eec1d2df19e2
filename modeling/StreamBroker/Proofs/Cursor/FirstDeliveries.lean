import StreamBroker.Proofs.Cursor.Accounts
import StreamBroker.Proofs.Index.Queries
import StreamBroker.Proofs.Subject

/-!
# First deliveries

What a consumer is to get can be listed without its cursor: what its policy selects of the messages
that there are when it is created, and behind it what matches of all that comes later.  A cursor
hands out just this list, in order, as far as the messages are still there when it comes to them.

## Main definitions

* `Course.reference`: what a consumer is to get
* `Course.missed`: what went before the cursor came to it
* `Course.firsts`: the first delivery of every message that was handed out
* `Cursor.Follows`: how far a cursor has come on the list

## Main results

* `Cursor.mem_selected_iff`: what a policy selects is what a cursor that begins is to hand out
* `Cursor.Course.first_deliveries`: the first deliveries are the list
-/

namespace StreamBroker

/-! ## What a consumer is to get -/

namespace CursorEvent

/-- The message that comes. -/
def arrival? : CursorEvent → Option StoredMessage
  | stored m => some m
  | _ => none

/-- The numbers that go before the cursor comes to them. -/
def missed : CursorEvent → List Nat
  | removed before gone => gone.filter fun n => decide (before.nextSeq ≤ n)
  | _ => []

/-- An event that leaves the filter of the consumer as it is. -/
def KeepsFilter : CursorEvent → Prop
  | configured before settings => settings.filter = before.settings.filter
  | _ => True

end CursorEvent

namespace Cursor

variable {settings : ConsumerSettings} {x₀ x y : Index} {events : List CursorEvent} {c c' : Cursor}
  {m : StoredMessage} {d : Delivery} {n : Nat}

namespace Course

/-- The messages of an index that match the filter of a consumer. -/
def matching (settings : ConsumerSettings) (x : Index) : List StoredMessage :=
  x.toList.filter fun m => settings.gets m.subject

/-- What a consumer is to get of the messages that there are when it is created: all of them, the
newest one, none, those from a number on, or the newest one of every subject. -/
def selected (settings : ConsumerSettings) (x : Index) : List StoredMessage :=
  match settings.deliverPolicy with
  | .all => matching settings x
  | .last => (matching settings x).getLast?.toList
  | .new => []
  | .byStartSequence n => (matching settings x).filter fun m => decide (n ≤ m.sequence)
  | .lastPerSubject => (matching settings x).filter fun m =>
      (matching settings x).all fun w => decide (w.subject = m.subject → w.sequence ≤ m.sequence)

/-- Whether a consumer is to get a message that comes later. -/
def expects (settings : ConsumerSettings) (m : StoredMessage) : Bool :=
  settings.gets m.subject &&
    match settings.deliverPolicy with
    | .byStartSequence n => decide (n ≤ m.sequence)
    | _ => true

/-- What a consumer is to get: what is selected at first, and what matches of all that comes. -/
def reference (settings : ConsumerSettings) (x₀ : Index) (events : List CursorEvent) :
    List StoredMessage :=
  selected settings x₀ ++ (events.filterMap CursorEvent.arrival?).filter (expects settings)

/-- The numbers that went before the cursor came to them. -/
def missed (events : List CursorEvent) : List Nat := events.flatMap CursorEvent.missed

/-- Deliveries with one more behind them, if it is the first one of its message. -/
def note (firsts : List Delivery) (d : Delivery) : List Delivery :=
  if d.sequence ∈ firsts.map Delivery.sequence then firsts else firsts ++ [d]

/-- The first delivery of every message, in order. -/
def firsts (events : List CursorEvent) : List Delivery := (handouts events).foldl note []

theorem reference_concat (settings : ConsumerSettings) (x₀ : Index) (events : List CursorEvent)
    (e : CursorEvent) : reference settings x₀ (events ++ [e]) =
      reference settings x₀ events ++ e.arrival?.toList.filter (expects settings) := by
  rw [reference, List.filterMap_append, List.filter_append, ← List.append_assoc, reference]
  cases h : e.arrival? <;> simp [h]

theorem missed_concat (events : List CursorEvent) (e : CursorEvent) :
    missed (events ++ [e]) = missed events ++ e.missed := by
  simp [missed]

variable {e : CursorEvent}

theorem reference_of_arrival?_eq_none (h : e.arrival? = none) :
    reference settings x₀ (events ++ [e]) = reference settings x₀ events := by
  rw [reference_concat, h]
  exact List.append_nil _

theorem missed_of_eq_nil (h : e.missed = []) : missed (events ++ [e]) = missed events := by
  rw [missed_concat, h, List.append_nil]

theorem firsts_concat (events : List CursorEvent) (e : CursorEvent) :
    firsts (events ++ [e]) = e.handouts.foldl note (firsts events) := by
  rw [firsts, handouts_concat, List.foldl_append, firsts]

theorem firsts_of_handouts_eq_nil (h : e.handouts = []) :
    firsts (events ++ [e]) = firsts events := by
  rw [firsts_concat, h]
  rfl

theorem mem_foldl_note_iff (ds firsts : List Delivery) (n : Nat) :
    n ∈ (ds.foldl note firsts).map Delivery.sequence ↔
      n ∈ firsts.map Delivery.sequence ∨ n ∈ ds.map Delivery.sequence := by
  induction ds generalizing firsts with
  | nil => simp
  | cons d ds ih =>
    rw [List.foldl_cons, ih, note]
    split
    · next hmem =>
      rw [List.map_cons, List.mem_cons]
      constructor
      · exact fun h => h.imp_right .inr
      · rintro (h | rfl | h)
        · exact .inl h
        · exact .inl hmem
        · exact .inr h
    · simp [or_assoc]

/-- What was handed out was handed out a first time. -/
theorem mem_firsts_iff (events : List CursorEvent) (n : Nat) :
    n ∈ (firsts events).map Delivery.sequence ↔ n ∈ handedOut events := by
  rw [firsts, mem_foldl_note_iff, handedOut]
  simp

/-- What was handed out before is not handed out for the first time. -/
theorem foldl_note_of_mem {ds firsts : List Delivery}
    (h : ∀ d ∈ ds, d.sequence ∈ firsts.map Delivery.sequence) : ds.foldl note firsts = firsts := by
  induction ds with
  | nil => rfl
  | cons d ds ih =>
    rw [List.foldl_cons, note, if_pos (h d List.mem_cons_self),
      ih fun d hd => h d (List.mem_cons_of_mem _ hd)]

/-- What was not handed out before is. -/
theorem foldl_note_of_notMem {ds firsts : List Delivery}
    (hasc : ds.Pairwise fun d e => d.sequence < e.sequence)
    (h : ∀ d ∈ ds, d.sequence ∉ firsts.map Delivery.sequence) :
    ds.foldl note firsts = firsts ++ ds := by
  induction ds generalizing firsts with
  | nil => exact (List.append_nil _).symm
  | cons d ds ih =>
    rw [List.pairwise_cons] at hasc
    rw [List.foldl_cons, note, if_neg (h d List.mem_cons_self), ih hasc.2, List.append_assoc]
    · rfl
    · intro e he
      rw [List.map_append, List.mem_append, not_or]
      refine ⟨h e (List.mem_cons_of_mem _ he), ?_⟩
      exact fun heq => Nat.ne_of_gt (hasc.1 e he) (List.mem_singleton.1 heq)

end Course

open Course

/-! ## Where a cursor begins -/

theorem mem_matching_iff (hx : x.Filed) : m ∈ matching settings x ↔
    x.get? m.sequence = some m ∧ settings.gets m.subject = true := by
  rw [matching, List.mem_filter, hx.mem_toList_iff]

theorem pairwise_matching (hx : x.Filed) (settings : ConsumerSettings) :
    (matching settings x).Pairwise fun a b => a.sequence < b.sequence :=
  hx.pairwise_toList.filter _

theorem pairwise_selected (hx : x.Filed) (settings : ConsumerSettings) :
    (selected settings x).Pairwise fun a b => a.sequence < b.sequence := by
  have hmatching := pairwise_matching hx settings
  rw [selected]
  cases settings.deliverPolicy with
  | all => exact hmatching
  | last =>
    cases (matching settings x).getLast? with
    | none => exact .nil
    | some m => exact List.pairwise_singleton ..
  | new => exact .nil
  | byStartSequence n => exact hmatching.filter _
  | lastPerSubject => exact hmatching.filter _

/-- A cursor that begins hands out what matches from its first number on, and of the newest messages
only these. -/
theorem isEligible_start (settings : ConsumerSettings) (x : Index) (now : Instant) (n : Nat)
    (subject : String) : (start settings x now).isEligible n subject = true ↔
      firstDelivery settings x ≤ n ∧ settings.gets subject = true ∧
        ∀ newest, newestOf settings x = some newest →
          newest.cutoff < n ∨ newest.sequences.contains n = true := by
  rw [isEligible, Bool.and_eq_true, Bool.and_eq_true, decide_eq_true_eq, and_assoc]
  refine and_congr_right fun _ => and_congr_right fun _ => ?_
  rw [start]
  cases newestOf settings x with
  | none => simp
  | some newest => simp

/-- The last message that matches is the newest one. -/
theorem getLast?_matching (hx : x.Filed) (h : (matching settings x).getLast? = some m) :
    m ∈ matching settings x ∧ ∀ w ∈ matching settings x, w.sequence ≤ m.sequence :=
  getLast?_of_ascending (·.sequence) (pairwise_matching hx settings) h

/-- A cursor that is to begin with the newest message has only this one ahead of it. -/
theorem mem_newest_iff (hx : x.Filed) : m ∈ (matching settings x).getLast?.toList ↔
    x.get? m.sequence = some m ∧ settings.gets m.subject = true ∧
      (match (matching settings x).getLast? with
        | some newest => newest.sequence
        | none => x.lastSeq + 1) ≤ m.sequence := by
  cases hlast : (matching settings x).getLast? with
  | none =>
    constructor
    · intro hm
      cases hm
    · rintro ⟨hm, -, hlt⟩
      exact absurd (hx.le_lastSeq hm) (Nat.not_le_of_lt hlt)
  | some newest =>
    obtain ⟨hmem, hmost⟩ := getLast?_matching hx hlast
    have hnewest := (mem_matching_iff hx).1 hmem
    rw [Option.toList_some, List.mem_singleton]
    constructor
    · rintro rfl
      exact ⟨hnewest.1, hnewest.2, Nat.le_refl _⟩
    · rintro ⟨hm, hgets, hle⟩
      -- It is not above the newest one, so it has its number.
      have hge := hmost m ((mem_matching_iff hx).2 ⟨hm, hgets⟩)
      rw [Nat.le_antisymm hge hle, hnewest.1] at hm
      exact (Option.some.inj hm).symm

/-- What is chosen as the newest messages of the subjects are these. -/
theorem mem_newestPerSubject_iff (hx : x.Sound) : (m ∈ (matching settings x).filter fun m =>
      (matching settings x).all fun w =>
        decide (w.subject = m.subject → w.sequence ≤ m.sequence)) ↔
    x.get? m.sequence = some m ∧ settings.gets m.subject = true ∧
      (SeqSet.ofList ((x.lastPerSubject (settings.filter.getD ">")).map (·.sequence))).contains
        m.sequence = true := by
  have hmatching (w : StoredMessage) : w ∈ matching settings x ↔
      x.get? w.sequence = some w ∧ settings.gets w.subject = true := mem_matching_iff hx.filed
  simp only [List.mem_filter, List.all_eq_true, decide_eq_true_eq, hmatching, and_assoc]
  refine and_congr_right fun hm => and_congr_right fun hgets => ?_
  -- No other message has its number.
  have hnumber : m.sequence ∈ (x.lastPerSubject (settings.filter.getD ">")).map (·.sequence) ↔
      m ∈ x.lastPerSubject (settings.filter.getD ">") := by
    refine ⟨fun h => ?_, List.mem_map_of_mem⟩
    obtain ⟨w, hw, heq⟩ := List.mem_map.1 h
    have hget := ((hx.coherent.mem_lastPerSubject_iff _).1 hw).1
    rw [heq, hm, Option.some.injEq] at hget
    exact hget ▸ hw
  rw [SeqSet.contains_ofList, decide_eq_true_eq, hnumber, hx.coherent.mem_lastPerSubject_iff,
    ← ConsumerSettings.gets_eq]
  constructor
  · intro hmost
    refine ⟨hm, hgets, fun w hw hsubject => hmost w ⟨hw, ?_⟩ hsubject⟩
    exact hsubject ▸ hgets
  · exact fun ⟨_, _, hmost⟩ w ⟨hw, _⟩ hsubject => hmost w hw hsubject

/-- **What a policy selects is what a cursor that begins is to hand out** of what there is. -/
theorem mem_selected_iff (hx : x.Sound) (now : Instant) : m ∈ selected settings x ↔
    x.get? m.sequence = some m ∧
      (start settings x now).isEligible m.sequence m.subject = true := by
  rw [isEligible_start, selected, firstDelivery, newestOf]
  cases hpolicy : settings.deliverPolicy with
  | all =>
    dsimp only
    rw [mem_matching_iff hx.filed]
    constructor
    · exact fun ⟨hm, hgets⟩ => ⟨hm, hx.firstSeq_le hm, hgets, nofun⟩
    · exact fun ⟨hm, _, hgets, _⟩ => ⟨hm, hgets⟩
  | last =>
    refine (mem_newest_iff hx.filed).trans ?_
    constructor
    · exact fun ⟨hm, hgets, hle⟩ => ⟨hm, hle, hgets, nofun⟩
    · exact fun ⟨hm, hle, hgets, _⟩ => ⟨hm, hgets, hle⟩
  | new =>
    constructor
    · intro hm
      cases hm
    · rintro ⟨hm, hlt, -⟩
      exact absurd (hx.le_lastSeq hm) (Nat.not_le_of_lt hlt)
  | byStartSequence n =>
    dsimp only
    rw [List.mem_filter, mem_matching_iff hx.filed, decide_eq_true_eq]
    constructor
    · exact fun ⟨⟨hm, hgets⟩, hle⟩ => ⟨hm, Nat.max_le.2 ⟨hle, hx.pos hm⟩, hgets, nofun⟩
    · exact fun ⟨hm, hle, hgets, _⟩ => ⟨⟨hm, hgets⟩, (Nat.max_le.1 hle).1⟩
  | lastPerSubject =>
    refine (mem_newestPerSubject_iff hx).trans ?_
    constructor
    · rintro ⟨hm, hgets, hnewest⟩
      refine ⟨hm, hx.firstSeq_le hm, hgets, fun newest h => ?_⟩
      cases h
      exact .inr hnewest
    · rintro ⟨hm, -, hgets, hnewest⟩
      have habove := Nat.not_lt_of_le (hx.le_lastSeq hm)
      exact ⟨hm, hgets, (hnewest _ rfl).resolve_left habove⟩

/-- A cursor begins at most behind all messages that there are, unless it is to begin with a number
that is not given yet. -/
theorem firstDelivery_le_iff (hx : x.Sound) (hn : x.lastSeq < n) :
    firstDelivery settings x ≤ n ↔
      (match settings.deliverPolicy with
        | .byStartSequence k => decide (k ≤ n)
        | _ => true) = true := by
  have hfirst : x.firstSeq ≤ n := by
    rw [hx.firstSeq_eq]
    rcases Index.lowest_cases x.messages x.lastSeq with ⟨-, h⟩ | ⟨m, hm⟩
    · omega
    · exact Nat.le_trans (hx.le_lastSeq hm) (Nat.le_of_lt hn)
  rw [firstDelivery]
  cases settings.deliverPolicy with
  | all => simpa using hfirst
  | last =>
    show (match (matching settings x).getLast? with
      | some m => m.sequence
      | none => x.lastSeq + 1) ≤ n ↔ _
    cases hlast : (matching settings x).getLast? with
    | none => simpa using Nat.succ_le_of_lt hn
    | some m =>
      have hm := (mem_matching_iff hx.filed).1 (getLast?_matching hx.filed hlast).1
      simpa using Nat.le_trans (hx.le_lastSeq hm.1) (Nat.le_of_lt hn)
  | new => simpa using Nat.succ_le_of_lt hn
  -- Only here a cursor may begin with a number that is not given yet.
  | byStartSequence k =>
    dsimp only
    rw [decide_eq_true_eq]
    omega
  | lastPerSubject => simpa using hfirst

/-- **What a consumer expects of later messages is what a cursor that begins is to hand out.** -/
theorem expects_iff (hx : x.Sound) (now : Instant) (hm : x.lastSeq < m.sequence) :
    expects settings m = true ↔
      (start settings x now).isEligible m.sequence m.subject = true := by
  rw [isEligible_start, firstDelivery_le_iff hx hm, expects, Bool.and_eq_true, and_comm]
  refine and_congr_right fun _ => (and_iff_left fun newest h => ?_).symm
  -- Of later messages nothing is left out.
  rw [newestOf] at h
  split at h
  · cases h
    exact .inl hm
  · cases h

/-! ## How far a cursor has come -/

/-- A cursor has handed out what it is to hand out as far as it has come, and the rest is ahead. -/
structure Follows (settings : ConsumerSettings) (x₀ : Index) (events : List CursorEvent) (x : Index)
    (c : Cursor) : Prop where
  /-- The consumer gets the messages that it was to get at first. -/
  choice : (start settings x₀ 0).SameChoice c
  /-- Numbers do not go back. -/
  lastSeq_le : x₀.lastSeq ≤ x.lastSeq
  /-- Nothing is looked at before it is there. -/
  nextSeq_le : c.nextSeq ≤ max c.startSeq (x.lastSeq + 1)
  /-- The list is in the order of the stream. -/
  ascending : (reference settings x₀ events).Pairwise fun a b => a.sequence < b.sequence
  /-- What is listed was there. -/
  le_lastSeq : ∀ m ∈ reference settings x₀ events, m.sequence ≤ x.lastSeq
  /-- What was missed was there. -/
  missed_le : ∀ n ∈ missed events, n ≤ x.lastSeq
  /-- What is ahead and was not missed is what the cursor is to hand out. -/
  ahead_iff : ∀ {m}, c.nextSeq ≤ m.sequence →
    (m ∈ reference settings x₀ events ∧ m.sequence ∉ missed events ↔
      x.get? m.sequence = some m ∧ c.isEligible m.sequence m.subject = true)
  /-- What lies behind and was not missed was handed out. -/
  map_message : (firsts events).map (·.message) = (reference settings x₀ events).filter fun m =>
    decide (m.sequence < c.nextSeq ∧ m.sequence ∉ missed events)
  /-- The deliveries are counted. -/
  map_consumerSeq :
    (firsts events).map (·.consumerSeq) = List.range' 1 (firsts events).length
  /-- The last one is known. -/
  delivered_eq : c.delivered.consumer = (firsts events).length

theorem follows_start (hx : x₀.Sound) (now : Instant) :
    Follows settings x₀ [] x₀ (start settings x₀ now) where
  choice := ⟨rfl, rfl, rfl⟩
  lastSeq_le := Nat.le_refl _
  nextSeq_le := Nat.le_max_left _ _
  ascending := by
    rw [reference]
    simpa using pairwise_selected hx.filed settings
  le_lastSeq m hm := by
    rw [reference] at hm
    exact hx.le_lastSeq ((mem_selected_iff hx 0).1 (by simpa using hm)).1
  missed_le _ hn := nomatch hn
  ahead_iff {m} _ := by
    rw [reference, ← mem_selected_iff hx]
    simp [missed]
  map_message := by
    -- Nothing that is selected lies behind the first number.
    refine (List.filter_eq_nil_iff.2 fun m hm => ?_).symm
    rw [reference] at hm
    have heligible := ((mem_selected_iff hx now).1 (by simpa using hm)).2
    rw [decide_eq_true_eq]
    exact fun h => Nat.not_le_of_lt h.1 ((isEligible_start ..).1 heligible).1
  map_consumerSeq := rfl
  delivered_eq := rfl

namespace Follows

theorem pairwise_firsts (h : Follows settings x₀ events x c) :
    (firsts events).Pairwise fun d e => d.sequence < e.sequence := by
  have hasc := h.ascending.filter fun m =>
    decide (m.sequence < c.nextSeq ∧ m.sequence ∉ missed events)
  rwa [← h.map_message, List.pairwise_map] at hasc

/-- A cursor that is at the same place has come as far. -/
theorem congr (h : Follows settings x₀ events x c) (hchoice : c.SameChoice c')
    (hnext : c'.nextSeq = c.nextSeq) (hdelivered : c'.delivered = c.delivered) :
    Follows settings x₀ events x c' where
  choice := h.choice.trans hchoice
  lastSeq_le := h.lastSeq_le
  nextSeq_le := by
    rw [hnext, hchoice.startSeq]
    exact h.nextSeq_le
  ascending := h.ascending
  le_lastSeq := h.le_lastSeq
  missed_le := h.missed_le
  ahead_iff hle := by
    rw [hchoice.isEligible_eq]
    exact h.ahead_iff (hnext ▸ hle)
  map_message := by rw [h.map_message, hnext]
  map_consumerSeq := h.map_consumerSeq
  delivered_eq := by rw [hdelivered, h.delivered_eq]

/-- An event that neither hands out nor brings nor takes anything changes no list. -/
theorem quiet (h : Follows settings x₀ events x c) {e : CursorEvent} (hhandouts : e.handouts = [])
    (harrival : e.arrival? = none) (hmissed : e.missed = []) :
    Follows settings x₀ (events ++ [e]) x c := by
  have hfirsts : firsts (events ++ [e]) = firsts events := firsts_of_handouts_eq_nil hhandouts
  have hreference : reference settings x₀ (events ++ [e]) = reference settings x₀ events :=
    reference_of_arrival?_eq_none harrival
  have hmissed' : missed (events ++ [e]) = missed events := missed_of_eq_nil hmissed
  exact {
    choice := h.choice
    lastSeq_le := h.lastSeq_le
    nextSeq_le := h.nextSeq_le
    ascending := hreference ▸ h.ascending
    le_lastSeq := hreference ▸ h.le_lastSeq
    missed_le := hmissed' ▸ h.missed_le
    ahead_iff := fun hle => by
      rw [hreference, hmissed']
      exact h.ahead_iff hle
    map_message := by rw [hfirsts, hreference, hmissed', h.map_message]
    map_consumerSeq := by rw [hfirsts, h.map_consumerSeq]
    delivered_eq := by rw [hfirsts, h.delivered_eq] }

/-- The list gets longer by a message that comes, if the consumer is to get it. -/
theorem reference_stored (h : Follows settings x₀ events x c) (hx₀ : x₀.Sound)
    (hnext : m.sequence = x.lastSeq + 1) : reference settings x₀ (events ++ [.stored m]) =
      reference settings x₀ events ++
        (if c.isEligible m.sequence m.subject = true then [m] else []) := by
  have hlater : x₀.lastSeq < m.sequence := by
    have hle := h.lastSeq_le
    omega
  have hexpects : expects settings m = c.isEligible m.sequence m.subject := by
    rw [Bool.eq_iff_iff, expects_iff hx₀ 0 hlater, h.choice.isEligible_eq]
  rw [reference_concat]
  show _ ++ [m].filter (expects settings) = _
  rw [List.filter_singleton, hexpects, Bool.cond_eq_ite]

/-- A message that comes is ahead of the cursor if the consumer is to get it. -/
theorem nextSeq_le_of_isEligible (h : Follows settings x₀ events x c)
    (hnext : m.sequence = x.lastSeq + 1) (heligible : c.isEligible m.sequence m.subject = true) :
    c.nextSeq ≤ m.sequence := by
  have hle := h.nextSeq_le
  rw [isEligible, Bool.and_eq_true, Bool.and_eq_true, decide_eq_true_eq] at heligible
  have hstart := heligible.1.1
  omega

/-- A message that comes was neither listed nor missed before. -/
theorem not_mem_of_next (h : Follows settings x₀ events x c) (hnext : m.sequence = x.lastSeq + 1) :
    m ∉ reference settings x₀ events ∧ m.sequence ∉ missed events := by
  constructor
  · intro hmem
    have hle := h.le_lastSeq m hmem
    omega
  · intro hmem
    have hle := h.missed_le _ hmem
    omega

/-- A message comes. -/
theorem stored (h : Follows settings x₀ events x c) (hx₀ : x₀.Sound)
    (hnext : m.sequence = x.lastSeq + 1) :
    Follows settings x₀ (events ++ [.stored m]) (x.commit m) c := by
  have hlast : (x.commit m).lastSeq = x.lastSeq + 1 := by
    show max x.lastSeq m.sequence = _
    omega
  have hfirsts : firsts (events ++ [.stored m]) = firsts events := firsts_of_handouts_eq_nil rfl
  have hmissed : missed (events ++ [.stored m]) = missed events := missed_of_eq_nil rfl
  have hreference := h.reference_stored hx₀ hnext
  have hnew {w : StoredMessage}
      (hw : w ∈ if c.isEligible m.sequence m.subject = true then [m] else []) :
      w = m ∧ c.isEligible m.sequence m.subject = true := by
    split at hw
    · next heligible => exact ⟨List.mem_singleton.1 hw, heligible⟩
    · cases hw
  exact {
    choice := h.choice
    lastSeq_le := by
      have hle := h.lastSeq_le
      omega
    nextSeq_le := by
      have hle := h.nextSeq_le
      omega
    ascending := by
      rw [hreference, List.pairwise_append]
      refine ⟨h.ascending, ?_, fun w hw v hv => ?_⟩
      · split
        · exact List.pairwise_singleton ..
        · exact .nil
      · have hle := h.le_lastSeq w hw
        rw [(hnew hv).1]
        omega
    le_lastSeq := by
      intro w hw
      rw [hreference, List.mem_append] at hw
      rcases hw with hw | hw
      · have hle := h.le_lastSeq w hw
        omega
      · exact Nat.le_of_eq (by rw [(hnew hw).1, hnext, hlast])
    missed_le := by
      intro n hn
      have hle := h.missed_le n (hmissed ▸ hn)
      omega
    ahead_iff := by
      intro w hle
      rw [hreference, hmissed, List.mem_append, Index.get?_commit]
      by_cases hw : w.sequence = m.sequence
      · obtain ⟨hfresh, hkept⟩ := h.not_mem_of_next (hw.trans hnext)
        rw [if_pos hw, Option.some.injEq]
        constructor
        · rintro ⟨hmem | hmem, -⟩
          · exact absurd hmem hfresh
          · obtain ⟨rfl, heligible⟩ := hnew hmem
            exact ⟨rfl, heligible⟩
        · rintro ⟨rfl, heligible⟩
          refine ⟨.inr ?_, hkept⟩
          rw [if_pos heligible]
          exact List.mem_singleton_self _
      · rw [if_neg hw, ← h.ahead_iff hle]
        refine and_congr_left fun _ => or_iff_left fun hmem => ?_
        exact hw (congrArg _ (hnew hmem).1)
    map_message := by
      -- The cursor has not come to the message.
      rw [hfirsts, hreference, hmissed, List.filter_append, h.map_message]
      refine (List.append_right_eq_self.2 (List.filter_eq_nil_iff.2 fun w hw => ?_)).symm
      obtain ⟨rfl, heligible⟩ := hnew hw
      rw [decide_eq_true_eq]
      exact fun hbehind => Nat.not_le_of_lt hbehind.1 (h.nextSeq_le_of_isEligible hnext heligible)
    map_consumerSeq := by rw [hfirsts, h.map_consumerSeq]
    delivered_eq := by rw [hfirsts, h.delivered_eq] }

/-- What goes ahead of the cursor is missed, and what goes behind it was handed out. -/
theorem removed (h : Follows settings x₀ events x c) (hx : x.Filed) {gone : List Nat}
    (hloses : x.Loses gone y) : Follows settings x₀ (events ++ [.removed c gone]) y c := by
  have hfirsts : firsts (events ++ [.removed c gone]) = firsts events :=
    firsts_of_handouts_eq_nil rfl
  have hreference : reference settings x₀ (events ++ [.removed c gone]) =
      reference settings x₀ events := reference_of_arrival?_eq_none rfl
  have hmissed (n : Nat) : n ∈ missed (events ++ [.removed c gone]) ↔
      n ∈ missed events ∨ n ∈ gone ∧ c.nextSeq ≤ n := by
    rw [missed_concat, List.mem_append, CursorEvent.missed, List.mem_filter, decide_eq_true_eq]
  exact {
    choice := h.choice
    lastSeq_le := hloses.lastSeq_eq ▸ h.lastSeq_le
    nextSeq_le := hloses.lastSeq_eq ▸ h.nextSeq_le
    ascending := hreference ▸ h.ascending
    le_lastSeq := hloses.lastSeq_eq ▸ hreference ▸ h.le_lastSeq
    missed_le := by
      intro n hn
      rw [hloses.lastSeq_eq]
      rcases (hmissed n).1 hn with hn | ⟨hn, -⟩
      · exact h.missed_le n hn
      · obtain ⟨m, hm⟩ := Index.contains_iff.1 (hloses.contains n hn)
        exact hx.le_lastSeq hm
    ahead_iff := by
      intro m hle
      rw [hreference, hmissed, hloses.get?_eq]
      have hahead := h.ahead_iff hle
      by_cases hgone : m.sequence ∈ gone
      · simp [hgone, hle]
      · simp [hgone, hahead]
    map_message := by
      rw [hfirsts, hreference, h.map_message]
      refine List.filter_congr fun m _ => ?_
      rw [decide_eq_decide, hmissed]
      constructor
      · exact fun ⟨hlt, hnot⟩ => ⟨hlt, not_or.2 ⟨hnot, fun h => Nat.not_le_of_lt hlt h.2⟩⟩
      · exact fun ⟨hlt, hnot⟩ => ⟨hlt, (not_or.1 hnot).1⟩
    map_consumerSeq := by rw [hfirsts, h.map_consumerSeq]
    delivered_eq := by rw [hfirsts, h.delivered_eq] }

/-- What is handed out for the first time is what comes next on the list. -/
theorem map_message_passes (h : Follows settings x₀ events x c) {new : List Delivery}
    (hpasses : Passes x c new c') (hbehind : ∀ d ∈ firsts events, d.sequence < c.nextSeq) :
    (firsts events).map (·.message) ++ new.map (·.message) =
      (reference settings x₀ events).filter fun m =>
        decide (m.sequence < c'.nextSeq ∧ m.sequence ∉ missed events) := by
  have hle := hpasses.nextSeq_le
  -- Both lists are in order, and the same messages are on them.
  refine eq_of_ascending (·.sequence) ?_ (h.ascending.filter _) fun m => ?_
  · rw [← List.map_append, List.pairwise_map, List.pairwise_append]
    refine ⟨h.pairwise_firsts, hpasses.ascending, fun d hd e he => ?_⟩
    exact Nat.lt_of_lt_of_le (hbehind d hd) (hpasses.mem he).2.2.1
  · rw [List.mem_append, h.map_message, hpasses.mem_iff]
    simp only [List.mem_filter, decide_eq_true_eq]
    constructor
    · rintro (⟨hmem, hlt, hnot⟩ | ⟨hm, heligible, hahead, hlt⟩)
      · exact ⟨hmem, Nat.lt_of_lt_of_le hlt hle, hnot⟩
      · obtain ⟨hmem, hnot⟩ := (h.ahead_iff hahead).2 ⟨hm, heligible⟩
        exact ⟨hmem, hlt, hnot⟩
    · rintro ⟨hmem, hlt, hnot⟩
      rcases Nat.lt_or_ge m.sequence c.nextSeq with hbehind | hahead
      · exact .inl ⟨hmem, hbehind, hnot⟩
      · obtain ⟨hm, heligible⟩ := (h.ahead_iff hahead).1 ⟨hmem, hnot⟩
        exact .inr ⟨hm, heligible, hahead, hlt⟩

/-- Messages are handed out. -/
theorem collected (h : Follows settings x₀ events x c) (haccounts : Accounts events x c)
    (l : Limits) (now : Instant) :
    Follows settings x₀ (events ++ [.collected c x l now]) x (c.collect x l now).1 := by
  obtain ⟨again, new, given, hd, -, hhands, -⟩ :=
    hands_collect haccounts.filed haccounts.pending_lt l now
  have hpasses := hhands.passes
  have hle := hpasses.nextSeq_le
  have hbehind {n : Nat} (hn : n ∈ (firsts events).map Delivery.sequence) : n < c.nextSeq :=
    haccounts.lt_nextSeq n ((mem_firsts_iff events n).1 hn)
  -- What is repeated was handed out before, and what is new was not.
  have hagain : ∀ d ∈ again, d.sequence ∈ (firsts events).map Delivery.sequence := by
    intro d hd
    obtain ⟨-, p, hp, -⟩ := hhands.of_again d hd
    exact (mem_firsts_iff ..).2 (haccounts.pending_mem hp).1
  have hnew : ∀ d ∈ new, d.sequence ∉ (firsts events).map Delivery.sequence :=
    fun d hd hmem => hpasses.notMem (hbehind hmem) (List.mem_map_of_mem hd)
  have hfirsts : firsts (events ++ [.collected c x l now]) = firsts events ++ new := by
    rw [firsts_concat, CursorEvent.handouts, hd, List.foldl_append, foldl_note_of_mem hagain,
      foldl_note_of_notMem hpasses.ascending hnew]
  have hreference : reference settings x₀ (events ++ [.collected c x l now]) =
      reference settings x₀ events := reference_of_arrival?_eq_none rfl
  have hmissed : missed (events ++ [.collected c x l now]) = missed events := missed_of_eq_nil rfl
  exact {
    choice := h.choice.trans hhands.sameChoice
    lastSeq_le := h.lastSeq_le
    nextSeq_le := by
      have hfrom := h.nextSeq_le
      have hto := hpasses.le_nextSeq
      rw [hhands.sameChoice.startSeq]
      omega
    ascending := hreference ▸ h.ascending
    le_lastSeq := hreference ▸ h.le_lastSeq
    missed_le := hmissed ▸ h.missed_le
    ahead_iff := by
      intro m hahead
      rw [hreference, hmissed, hhands.sameChoice.isEligible_eq]
      exact h.ahead_iff (Nat.le_trans hle hahead)
    map_message := by
      rw [hfirsts, hreference, hmissed, List.map_append]
      exact h.map_message_passes hpasses fun d hd => hbehind (List.mem_map_of_mem hd)
    map_consumerSeq := by
      rw [hfirsts, List.map_append, h.map_consumerSeq, hpasses.consumerSeq_eq, h.delivered_eq,
        List.length_append, Nat.add_comm _ 1, List.range'_append_1]
    delivered_eq := by rw [hfirsts, hpasses.delivered_eq, h.delivered_eq, List.length_append] }

end Follows

theorem Course.follows (course : Course settings x₀ events x c) (hx₀ : x₀.Sound)
    (hfilter : ∀ e ∈ events, e.KeepsFilter) : Follows settings x₀ events x c := by
  induction course with
  | created _ _ => exact follows_start hx₀ _
  | stored course hnext ih =>
    exact (ih (List.forall_mem_append.1 hfilter).1).stored hx₀ hnext
  | removed course hloses ih =>
    exact (ih (List.forall_mem_append.1 hfilter).1).removed course.accounts.filed hloses
  | collected course l now ih =>
    exact (ih (List.forall_mem_append.1 hfilter).1).collected course.accounts l now
  | @acknowledged _ _ c course n kind now ih =>
    have hplace := samePlace_acknowledge c n kind now
    exact ((ih (List.forall_mem_append.1 hfilter).1).quiet rfl rfl rfl).congr hplace.sameChoice
      hplace.nextSeq hplace.delivered
  | configured course hwanted ih =>
    obtain ⟨hbefore, hlast⟩ := List.forall_mem_append.1 hfilter
    have hkept := hlast _ (List.mem_singleton_self _)
    exact ((ih hbefore).quiet rfl rfl rfl).congr ⟨rfl, rfl, hkept⟩ rfl rfl
  | attended course waiting now ih => exact (ih hfilter).congr ⟨rfl, rfl, rfl⟩ rfl rfl

/-- **The first deliveries are the list of what a consumer is to get.**  At any time in any course
of a consumer whose filter stays, the first deliveries come in the order of the stream, each message
once, and are numbered from one on.  Whenever a pull does not come to its limits, they are all that
the policy selected at first and all that matched of what came later, except for what went before
the cursor came to it. -/
theorem Course.first_deliveries (course : Course settings x₀ events x c) (hx₀ : x₀.Sound)
    (hfilter : ∀ e ∈ events, e.KeepsFilter) :
    (firsts events).Pairwise (fun d e => d.sequence < e.sequence) ∧
    (firsts events).map (·.consumerSeq) = List.range' 1 (firsts events).length ∧
    ∀ (l : Limits) (now : Instant), HasRoom x l (c.collect x l now).1 (c.collect x l now).2 →
      (firsts (events ++ [.collected c x l now])).map (·.message) =
        (reference settings x₀ events).filter fun m => decide (m.sequence ∉ missed events) := by
  have hfollows := course.follows hx₀ hfilter
  refine ⟨hfollows.pairwise_firsts, hfollows.map_consumerSeq, fun l now hroom => ?_⟩
  obtain ⟨_, _, _, -, -, -, hlast⟩ :=
    hands_collect course.accounts.filed course.accounts.pending_lt l now
  rw [(hfollows.collected course.accounts l now).map_message, reference_of_arrival?_eq_none rfl,
    missed_of_eq_nil rfl]
  -- The cursor has gone over all that is listed.
  refine List.filter_congr fun m hm => ?_
  rw [decide_eq_decide]
  exact and_iff_right (Nat.lt_of_le_of_lt (hfollows.le_lastSeq m hm) (hlast hroom))

/-- What goes before it is collected is left out, and what comes in the meantime is not. -/
theorem firsts_without_missed :
    ∃ settings x₀ events x c, Course settings x₀ events x c ∧
      (reference settings x₀ events).map (·.sequence) = [1, 2, 3] ∧ missed events = [1] ∧
      ∃ l now, (firsts (events ++ [.collected c x l now])).map Delivery.sequence = [2, 3] := by
  have hsound : (Index.empty.commit ⟨1, "s", [], [], Timestamp.ofMicros 0⟩).Sound :=
    Index.empty_sound.commit Nat.zero_lt_one
  have hbegun : Course (ConsumerSettings.withDefaults { name := some "C" } {}) _ [] _
      (start _ _ 0) := .created hsound.filed ⟨{}, some "C", {}, rfl, rfl⟩
  have course := ((hbegun.stored (m := ⟨2, "s", [], [], Timestamp.ofMicros 0⟩) rfl).removed
    (Index.loses_remove (n := 1) rfl)).stored (m := ⟨3, "s", [], [], Timestamp.ofMicros 0⟩) rfl
  refine ⟨_, _, _, _, _, course, rfl, rfl, { batch := 3 }, 0, ?_⟩
  obtain ⟨-, -, hlist⟩ := course.first_deliveries hsound (by simp [CursorEvent.KeepsFilter])
  have hmessages := hlist { batch := 3 } 0 ⟨rfl, rfl, rfl, fun _ _ _ _ => rfl⟩
  have hsequences := congrArg (List.map (·.sequence)) hmessages
  rw [List.map_map] at hsequences
  exact hsequences.trans rfl

end Cursor

end StreamBroker
