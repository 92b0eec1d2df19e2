import StreamBroker.Feed

/-!
# What a feed has ahead

At any time there is a list of messages that a feed is still to read: what is left of the messages
that were there at first, and those of the announcements in the ring that it shows.  Reading takes
from the front of this list, announcing adds at its end, and a reader who falls behind by more than
the ring holds loses announcements.

## Main definitions

* `Feed.ahead`: what a feed is still to read
* `Feed.KeepsUp`: the ring holds all that a feed has not read
* `Feed.Advances`: a feed that is further on

## Main results

* `Feed.drain_cases`: reading takes from the front of what is ahead
* `Feed.ahead_append`: announcements are added at its end, for a feed that keeps up
* `Feed.ahead_append_sublist`: at all events nothing else is added
-/

namespace StreamBroker.Feed

variable {f f' : Feed} {events : List StoredMessage}

/-- What a feed is still to read. -/
def ahead (f : Feed) (events : List StoredMessage) : List StoredMessage :=
  f.snapshot ++ (f.unread events).filter f.shows

/-- The ring holds all announcements that a feed has not read. -/
def KeepsUp (f : Feed) (events : List StoredMessage) : Prop :=
  events.length ≤ f.position + f.capacity

instance : Decidable (f.KeepsUp events) := inferInstanceAs (Decidable (_ ≤ _))

/-- A feed of the same messages that is further on. -/
structure Advances (f f' : Feed) : Prop where
  /-- It is a feed of the same stream. -/
  stream_eq : f'.stream = f.stream
  /-- It follows the same pattern. -/
  pattern_eq : f'.pattern = f.pattern
  /-- It was opened at the same time. -/
  high_eq : f'.high = f.high
  /-- It has the same ring. -/
  capacity_eq : f'.capacity = f.capacity

theorem Advances.shows_eq (h : f.Advances f') : f'.shows = f.shows := by
  funext m
  rw [shows, shows, h.high_eq, h.pattern_eq]

/-! ## Taking items -/

/-- Elements are passed from the front and give their items.  Whoever gets fewer items than wanted
has passed everything, and so has whoever wants as many as there are elements. -/
theorem takeItems_cases {α β : Type} {item : β → Option α} {most passed : Nat} {bs : List β}
    {items : List α} (h : takeItems item most bs = (items, passed)) :
    ∃ read rest, bs = read ++ rest ∧ passed = read.length ∧ items = read.filterMap item ∧
      (items.length < most ∨ bs.length ≤ most → rest = []) ∧ (most = 0 → read = []) := by
  -- The cases are: enough, no element left, an element with an item, an element without.
  fun_induction takeItems item most bs generalizing items passed with
  | case1 bs =>
    cases h
    refine ⟨[], bs, rfl, rfl, rfl, fun hall => ?_, fun _ => rfl⟩
    rcases hall with hlt | hle
    · cases hlt
    · exact List.length_eq_zero_iff.1 (Nat.le_zero.1 hle)
  | case2 n =>
    cases h
    exact ⟨[], [], rfl, rfl, rfl, fun _ => rfl, fun _ => rfl⟩
  | case3 n b bs a hb items' passed' htake ih =>
    cases h
    obtain ⟨read, rest, rfl, rfl, rfl, hall, -⟩ := ih htake
    refine ⟨b :: read, rest, rfl, rfl, by simp [hb], fun h => hall ?_, fun h => by cases h⟩
    exact h.imp Nat.lt_of_succ_lt_succ Nat.le_of_succ_le_succ
  | case4 n b bs hb items' passed' htake ih =>
    cases h
    obtain ⟨read, rest, rfl, rfl, rfl, hall, -⟩ := ih htake
    refine ⟨b :: read, rest, rfl, rfl, by simp [hb], fun h => hall ?_, fun h => by cases h⟩
    exact h.imp_right Nat.le_of_succ_le

/-! ## Reading -/

/-- A feed has not read more than there is. -/
theorem resume_le (h : f.position ≤ events.length) : f.resume events.length ≤ events.length :=
  Nat.max_le.2 ⟨h, Nat.sub_le _ _⟩

theorem length_unread (f : Feed) (events : List StoredMessage) :
    (f.unread events).length = events.length - f.resume events.length := by
  rw [unread, List.length_reverse, List.length_take, Nat.min_eq_left (Nat.sub_le _ _)]

/-- What is read is not ahead any more. -/
theorem unread_of_position_eq {read : Nat} (hcapacity : f'.capacity = f.capacity)
    (hposition : f'.position = f.resume events.length + read) :
    f'.unread events = (f.unread events).drop read := by
  have hresume : f'.resume events.length = f.resume events.length + read := by
    have hle : events.length - f.capacity ≤ f.resume events.length := Nat.le_max_right _ _
    rw [resume, hposition, hcapacity]
    omega
  have hlength : (events.take (events.length - f.resume events.length)).length =
      events.length - f.resume events.length := by
    rw [List.length_take, Nat.min_eq_left (Nat.sub_le _ _)]
  rw [unread, unread, List.drop_reverse, hresume, hlength, List.take_take, Nat.sub_sub,
    Nat.min_eq_left (by omega)]

/-- What was read is behind, whatever it was. -/
theorem ahead_of_advances {rest : List StoredMessage} {read : List StoredMessage}
    (h : f.Advances f') (hunread : f.unread events = read ++ rest)
    (hposition : f'.position = f.resume events.length + read.length) :
    f'.ahead events = f'.snapshot ++ rest.filter f.shows := by
  rw [ahead, h.shows_eq, unread_of_position_eq h.capacity_eq hposition, hunread, List.drop_left]

/-- **Reading takes from the front** of what is ahead, and takes all of it if as many items are
wanted as a feed can have at most. -/
theorem drain_cases {α : Type} {item : StoredMessage → Option α} {most : Nat} {items : List α}
    (h : f.drain events item most = (items, f')) :
    ∃ read rest, f.ahead events = read ++ rest ∧ items = read.filterMap item ∧
      f'.ahead events = rest ∧ f.Advances f' ∧
      (f.position ≤ events.length → f'.position ≤ events.length) ∧
      (f.available events ≤ most → rest = []) := by
  simp only [drain] at h
  cases hold : takeItems item most f.snapshot with
  | mk old passed =>
    cases hnew : takeItems (fun m => if f.shows m then item m else none) (most - old.length)
        (f.unread events) with
    | mk new count =>
      simp only [hold, hnew] at h
      obtain ⟨rfl, hf'⟩ := Prod.mk.inj h
      obtain ⟨readOld, restOld, hsnapshot, rfl, rfl, hallOld, -⟩ := takeItems_cases hold
      obtain ⟨read, rest, hunread, rfl, rfl, hall, hnone⟩ := takeItems_cases hnew
      have hlength := length_unread f events
      have hadvances : f.Advances f' := hf' ▸ ⟨rfl, rfl, rfl, rfl⟩
      have hahead : f'.ahead events = restOld ++ rest.filter f.shows := by
        rw [ahead_of_advances hadvances hunread (hf' ▸ rfl), ← hf', hsnapshot, List.drop_left]
      have hposition (hp : f.position ≤ events.length) : f'.position ≤ events.length := by
        have hle := resume_le hp
        rw [hunread, List.length_append] at hlength
        rw [← hf']
        dsimp only
        omega
      have hrest (hmany : f.available events ≤ most) : restOld ++ rest.filter f.shows = [] := by
        have hfew : (readOld.filterMap item).length ≤ f.snapshot.length := by
          rw [hsnapshot, List.length_append]
          exact Nat.le_trans (List.length_filterMap_le _ _) (Nat.le_add_right _ _)
        rw [available] at hmany
        rw [hallOld (.inr (by omega)), hall (.inr (by omega))]
        rfl
      have hitems : read.filterMap (fun m => if f.shows m then item m else none) =
          (read.filter f.shows).filterMap item := by
        rw [List.filterMap_filter]
      refine ⟨readOld ++ read.filter f.shows, restOld ++ rest.filter f.shows, ?_, ?_, hahead,
        hadvances, hposition, hrest⟩
      · rw [ahead, hunread, hsnapshot, List.filter_append]
        by_cases hmost : (readOld.filterMap item).length < most
        · -- Announcements are read when nothing is left of the messages from the beginning.
          simp [hallOld (.inl hmost)]
        · simp [hnone (by omega)]
      · rw [List.filterMap_append, hitems]

/-! ## Announcing -/

/-- What is announced is added to what is not read, which loses what the ring cannot hold. -/
theorem unread_append (h : f.position ≤ events.length) (news : List StoredMessage) :
    f.unread (news ++ events) = (f.unread events ++ news.reverse).drop
      (f.resume (news ++ events).length - f.resume events.length) := by
  have hle := resume_le h
  have hgrow : f.resume events.length ≤ f.resume (news ++ events).length := by
    simp only [resume, List.length_append]
    omega
  -- What was unread and what is announced are all announcements from the old place on.
  have hwhole : f.unread events ++ news.reverse =
      ((news ++ events).take ((news ++ events).length - f.resume events.length)).reverse := by
    have htake : (news ++ events).length - f.resume events.length =
        news.length + (events.length - f.resume events.length) := by
      rw [List.length_append]
      omega
    rw [htake, List.take_length_add_append, List.reverse_append, unread]
  have hlength : ((news ++ events).take
      ((news ++ events).length - f.resume events.length)).length =
        (news ++ events).length - f.resume events.length := by
    rw [List.length_take, Nat.min_eq_left (Nat.sub_le _ _)]
  rw [hwhole, unread, List.drop_reverse, hlength, List.take_take]
  congr 2
  omega

/-- At all events nothing else is added. -/
theorem ahead_append_sublist (h : f.position ≤ events.length) (news : List StoredMessage) :
    (f.ahead (news ++ events)).Sublist (f.ahead events ++ news.reverse.filter f.shows) := by
  rw [ahead, ahead, unread_append h, List.append_assoc, ← List.filter_append]
  exact (List.Sublist.refl _).append ((List.drop_sublist _ _).filter _)

/-- **Announcements are added at the end** of what is ahead of a feed that keeps up. -/
theorem ahead_append (h : f.position ≤ events.length) {news : List StoredMessage}
    (hkeeps : f.KeepsUp (news ++ events)) :
    f.ahead (news ++ events) = f.ahead events ++ news.reverse.filter f.shows := by
  have hresume : f.resume (news ++ events).length - f.resume events.length = 0 := by
    have : (news ++ events).length ≤ f.position + f.capacity := hkeeps
    simp only [resume] at this ⊢
    omega
  rw [ahead, ahead, unread_append h, hresume, List.drop_zero, List.filter_append,
    List.append_assoc]

/-- A feed that is opened has the messages ahead that were there. -/
theorem ahead_start (s : Stream) (pattern : String) (beginning : WatchStart) (watchBuffer : Nat) :
    (start s pattern beginning watchBuffer).ahead s.events = s.snapshot pattern beginning := by
  have hnone : (start s pattern beginning watchBuffer).unread s.events = [] := by
    have hlength := length_unread (start s pattern beginning watchBuffer) s.events
    have hle : s.events.length ≤ (start s pattern beginning watchBuffer).resume s.events.length :=
      Nat.le_max_left _ _
    exact List.eq_nil_of_length_eq_zero (by omega)
  rw [ahead, hnone, List.filter_nil, List.append_nil, start]

end StreamBroker.Feed
