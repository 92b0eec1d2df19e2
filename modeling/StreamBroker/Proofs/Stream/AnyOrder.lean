import StreamBroker.Proofs.Cursor.AnyOrder
import StreamBroker.Proofs.Cursor.PassedOver
import StreamBroker.Proofs.Index.AnyOrder
import StreamBroker.Proofs.Stream.Courses
import StreamBroker.Proofs.Stream.Interest
import StreamBroker.Proofs.Stream.Limits

/-!
# Acknowledgements in any order

Acknowledgements reach a stream in the order of a queue, which is not the order in which consumers
made them.  Nothing comes of the difference where deliveries are acknowledged one by one, if no two
acknowledgements of a consumer are about one message.

A message that two consumers acknowledge is the case that needs care.  In a stream that keeps what
is needed the first acknowledgement may find that the other consumer still needs it, and then it
stays until the second.  Which one lets it go depends on the order, but not whether it goes.

## Main definitions

* `Acknowledgement`, `Stream.heed`: what a consumer says, and some of that noted in order
* `Stream.noted?`: what one acknowledgement makes of a stream, unless it runs out of numbers
* `Stream.Attentive`: what a stream has to be like

## Main results

* `Stream.Attentive.noted?_comm`: two acknowledgements may come in any order
* `Stream.Life.acknowledgements_commute`: so may any number of them, throughout a life
-/

namespace StreamBroker

/-- What a consumer says about a delivery. -/
structure Acknowledgement where
  /-- The number of the consumer. -/
  consumer : Nat
  /-- The number of the message. -/
  number : Nat
  kind : AckKind
  deriving DecidableEq, Repr

namespace Stream

/-- Notes acknowledgements one after the other. -/
def heed (clock : Clock) : List Acknowledgement → Stream → Backend → Stream × Backend
  | [], s, b => (s, b)
  | a :: as, s, b =>
    let (_, s, b) := (StreamOp.acknowledge a.consumer a.number a.kind).run clock s b
    heed clock as s b

variable {s t u : Stream} {b : Backend} {x y : Index} {c d : Consumer} {a a' : Acknowledgement}
  {n k : Nat} {m : StoredMessage} {now : Instant} {clock : Clock}

/-! ## What lets a message go -/

/-- Whether the retention policy lets a message go that a consumer has settled. -/
def lets (s : Stream) (n : Nat) : Bool :=
  match s.settings.retention with
  | .limits => false
  | .workQueue => s.index.contains n
  | .interest =>
    match s.index.get? n with
    | some m => !s.isNeeded n m.subject
    | none => false

theorem lets_iff : s.lets n = true ↔ ∃ m, s.index.get? n = some m ∧
    (s.settings.retention = .workQueue ∨
      s.settings.retention = .interest ∧ s.isNeeded n m.subject = false) := by
  rw [lets]
  cases s.settings.retention with
  | limits => simp
  | workQueue => simp [Index.contains_iff]
  | interest => cases s.index.get? n <;> simp

/-- A stream lets a message go if another one does that has the message and needs it no less. -/
theorem lets_of_lets (h : s.lets n = true) (hget : t.index.get? n = s.index.get? n)
    (hretention : t.settings.retention = s.settings.retention)
    (hneeded : s.settings.retention = .interest → ∀ m, s.index.get? n = some m →
      t.isNeeded n m.subject = true → s.isNeeded n m.subject = true) : t.lets n = true := by
  obtain ⟨m, hm, hpolicy⟩ := lets_iff.1 h
  refine lets_iff.2 ⟨m, hget.trans hm, ?_⟩
  rw [hretention]
  refine hpolicy.imp_right fun ⟨hinterest, hfree⟩ => ⟨hinterest, Bool.eq_false_iff.2 fun ht => ?_⟩
  rw [hneeded hinterest m hm ht] at hfree
  cases hfree

theorem lets_congr (hget : t.index.get? n = s.index.get? n)
    (hretention : t.settings.retention = s.settings.retention)
    (hneeded : s.settings.retention = .interest → ∀ m, s.index.get? n = some m →
      t.isNeeded n m.subject = s.isNeeded n m.subject) : t.lets n = s.lets n := by
  refine Bool.eq_iff_iff.2 ⟨fun h => ?_, fun h => ?_⟩
  · exact lets_of_lets h hget.symm hretention.symm fun hinterest m hm hs =>
      (hneeded (hretention ▸ hinterest) m (hget ▸ hm)).trans hs
  · exact lets_of_lets h hget hretention fun hinterest m hm ht =>
      (hneeded hinterest m hm).symm.trans ht

/-- What is released of one message that was settled. -/
theorem releasing_singleton (s : Stream) (n : Nat) : s.releasing [n] s.index =
    if s.lets n then ([n], s.index.remove n) else ([], s.index) := by
  cases hretention : s.settings.retention with
  | limits => simp [releasing, Retention.release, lets, hretention]
  | workQueue => simp [releasing, Retention.release, lets, hretention, Index.removeAll]
  | interest =>
    cases hn : s.index.get? n with
    | none => simp [releasing, Retention.release, lets, hretention, hn, Index.removeAll]
    | some m =>
      have hcontains : s.index.contains n = true := Index.contains_iff.2 ⟨m, hn⟩
      cases hneeded : s.isNeeded n m.subject <;>
        simp [releasing, Retention.release, lets, hretention, hn, hneeded, hcontains,
          Index.removeAll]

theorem releasing_nil (s : Stream) : s.releasing [] s.index = ([], s.index) := by
  simp only [releasing, Retention.release]
  cases s.settings.retention <;> rfl

/-! ## One acknowledgement -/

/-- The numbers that an acknowledgement of a consumer settles. -/
def settledOf (c : Consumer) (a : Acknowledgement) : List Nat := c.cursor.settledBy a.number a.kind

/-- The stream when the cursor of a consumer has noted an acknowledgement, and the pulls of the
consumer are told to look again. -/
def marked (s : Stream) (now : Instant) (c : Consumer) (a : Acknowledgement) : Stream :=
  (s.modifyConsumer c.id
    (·.mapCursor fun _ => (c.cursor.acknowledge a.number a.kind now).2)).modifyConsumer c.id
      Consumer.notify

/-- Whether the message of an acknowledgement is settled by it and goes. -/
def goes (s : Stream) (now : Instant) (c : Consumer) (a : Acknowledgement) : Bool :=
  decide (a.number ∈ settledOf c a) && (s.marked now c a).lets a.number

/-- The stream with an index that is another one if there is one. -/
def withIndex? (s : Stream) (x : Option Index) : Option Stream :=
  x.map fun index => { s with index }

/-- The stream when an acknowledgement is noted, unless that runs out of numbers.  A consumer that
does not exist says nothing. -/
def noted? (s : Stream) (now : Instant) (a : Acknowledgement) : Option Stream :=
  match s.consumers.find? fun c => c.id == a.consumer with
  | none => some s
  | some c => (s.marked now c a).withIndex? (s.index.drop? a.number (s.goes now c a))

/-- What comes of an acknowledgement. -/
theorem noted?_cases (h : s.noted? now a = some t) :
    t = s ∨ ∃ c y, (s.consumers.find? fun e => e.id == a.consumer) = some c ∧
      s.index.drop? a.number (s.goes now c a) = some y ∧
      t = { s.marked now c a with index := y } := by
  rw [noted?] at h
  split at h
  · exact .inl (Option.some.inj h).symm
  · next c hfind =>
    obtain ⟨y, hy, rfl⟩ := Option.map_eq_some_iff.1 h
    exact .inr ⟨c, y, hfind, hy, rfl⟩

/-- What an acknowledgement makes of a stream where deliveries are acknowledged one by one. -/
theorem acknowledge_eq (hs : s.takesAcks = true) (hc : c.cursor.settings.ackPolicy = .explicit)
    (a : Acknowledgement) (clock : Clock) (b : Backend) :
    (∃ y, s.index.drop? a.number (s.goes clock.elapsed c a) = some y ∧
        (s.acknowledge c a.number a.kind clock b).2.1 =
          { s.marked clock.elapsed c a with index := y }) ∨
      (s.index.drop? a.number (s.goes clock.elapsed c a) = none ∧
        (s.acknowledge c a.number a.kind clock b).2.1.takesAcks = false) := by
  obtain ⟨t, ht⟩ : ∃ t, t = s.modifyConsumer c.id
      (·.mapCursor fun _ => (c.cursor.acknowledge a.number a.kind clock.elapsed).2) := ⟨_, rfl⟩
  have hindex : t.index = s.index := ht ▸ rfl
  -- The signal that follows does not change who needs a message.
  have hlets : t.lets a.number = (s.marked clock.elapsed c a).lets a.number := by
    rw [ht]
    refine lets_congr rfl rfl fun _ m _ => ?_
    rw [marked, isNeeded_congr (cursors_notify _ _)]
  have hreleasing : t.releasing (settledOf c a) t.index =
      if s.goes clock.elapsed c a then ([a.number], s.index.remove a.number)
      else ([], s.index) := by
    rw [goes, ← hlets]
    rcases Cursor.settledBy_cases hc a.number a.kind with heq | ⟨heq, -⟩
    · rw [settledOf, heq, releasing_nil, hindex]
      rfl
    · rw [settledOf, heq, releasing_singleton, hindex]
      simp
  have hnotify (y : Index) : modifyConsumer { t with index := y } c.id Consumer.notify =
      { s.marked clock.elapsed c a with index := y } := by
    rw [ht]
    rfl
  have hsettled : (c.cursor.acknowledge a.number a.kind clock.elapsed).1 = settledOf c a := rfl
  simp only [acknowledge, hs, if_true, ← ht, reduceAll, reduce, hsettled, hreleasing]
  cases s.goes clock.elapsed c a with
  | false =>
    refine .inl ⟨s.index, rfl, ?_⟩
    have hstuck : t.index.isStuck [] = false := by simp [Index.isStuck]
    simp only [Bool.false_eq_true, if_false, hstuck]
    exact hnotify _
  | true =>
    rw [hindex]
    cases hstuck : s.index.isStuck [a.number] with
    | false =>
      refine .inl ⟨s.index.remove a.number, ?_, ?_⟩
      · simp [Index.drop?, hstuck]
      · simp only [if_true, hstuck, Bool.false_eq_true, if_false]
        exact hnotify _
    | true =>
      refine .inr ⟨?_, ?_⟩
      · simp [Index.drop?, hstuck]
      · simp [hstuck]

/-! ## What an acknowledgement leaves -/

/-- What a stream has to be like for the order of acknowledgements to make no difference. -/
structure Attentive (s : Stream) : Prop where
  /-- What the index keeps beside its messages is right. -/
  sound : s.index.Sound
  /-- No two consumers have one number. -/
  ids : (s.consumers.map (·.id)).Nodup
  /-- The floors are where they have to be. -/
  grounded : ∀ c ∈ s.consumers, c.cursor.Grounded
  /-- Where it counts what is needed, the cursors keep track of the messages. -/
  tracks : s.settings.retention = .interest → ∀ c ∈ s.consumers, c.cursor.Tracks s.index

/-- A consumer of which the cursor has noted an acknowledgement. -/
def hearing (now : Instant) (c : Consumer) (a : Acknowledgement) (d : Consumer) : Consumer :=
  if d.id == c.id then
    (d.mapCursor fun _ => (c.cursor.acknowledge a.number a.kind now).2).notify
  else d

theorem hearing_id (now : Instant) (c : Consumer) (a : Acknowledgement) (d : Consumer) :
    (hearing now c a d).id = d.id := by
  rw [hearing]
  split <;> rfl

theorem marked_eq (s : Stream) (now : Instant) (c : Consumer) (a : Acknowledgement) :
    s.marked now c a =
      { s with
        consumers := s.consumers.map (hearing now c a)
        formerConsumers := s.formerConsumers.map (hearing now c a) } := by
  have hmap (cs : List Consumer) :
      (cs.map fun d => if d.id == c.id then
        d.mapCursor fun _ => (c.cursor.acknowledge a.number a.kind now).2 else d).map
          (fun d => if d.id == c.id then d.notify else d) = cs.map (hearing now c a) := by
    rw [List.map_map]
    refine List.map_congr_left fun d _ => ?_
    by_cases hd : d.id = c.id <;> simp [hearing, hd, Consumer.mapCursor]
  simp only [marked, modifyConsumer, hmap]

/-- A consumer is found behind an acknowledgement as it was found before. -/
theorem find?_marked (s : Stream) (now : Instant) (c : Consumer) (a : Acknowledgement) (id : Nat) :
    ((s.marked now c a).consumers.find? fun d => d.id == id) =
      (s.consumers.find? fun d => d.id == id).map (hearing now c a) := by
  have hsame : ((fun d : Consumer => d.id == id) ∘ hearing now c a) = fun d => d.id == id := by
    funext d
    simp only [Function.comp, hearing_id]
  rw [marked_eq, List.find?_map, hsame]

namespace Attentive

theorem eq_of_id (hs : s.Attentive) (hc : c ∈ s.consumers) (hd : d ∈ s.consumers)
    (h : d.id = c.id) : d = c := List.inj_on_of_nodup_map hs.ids hd hc h

/-- The cursor of a consumer behind an acknowledgement. -/
theorem cursor_hearing (hs : s.Attentive) (hc : c ∈ s.consumers) (hd : d ∈ s.consumers)
    (now : Instant) (a : Acknowledgement) :
    (d = c ∧ (hearing now c a d).cursor = (c.cursor.acknowledge a.number a.kind now).2) ∨
      (d.id ≠ c.id ∧ hearing now c a d = d) := by
  rw [hearing]
  by_cases heq : d.id = c.id
  · rw [if_pos (beq_iff_eq.2 heq)]
    exact .inl ⟨hs.eq_of_id hc hd heq, rfl⟩
  · rw [if_neg (by simpa using heq)]
    exact .inr ⟨heq, rfl⟩

/-- What is needed behind an acknowledgement. -/
theorem isNeeded_marked_iff (hs : s.Attentive) (hinterest : s.settings.retention = .interest)
    (hc : c ∈ s.consumers) (hm : s.index.get? n = some m) (now : Instant) (a : Acknowledgement) :
    (s.marked now c a).isNeeded n m.subject = true ↔
      ∃ d ∈ s.consumers, d.cursor.needs n m.subject = true ∧ (d = c → n ∉ settledOf c a) := by
  rw [isNeeded, marked_eq, List.any_map, List.any_eq_true]
  refine exists_congr fun d => and_congr_right fun hd => ?_
  rw [Function.comp]
  rcases hs.cursor_hearing hc hd now a with ⟨rfl, heq⟩ | ⟨hne, heq⟩
  · rw [heq, (hs.tracks hinterest d hd).needs_acknowledge hs.sound.toKeyed hm]
    simp [settledOf]
  · rw [heq]
    have hne : d ≠ c := fun h => hne (congrArg Consumer.id h)
    simp [hne]

/-- An acknowledgement makes nothing needed. -/
theorem isNeeded_of_marked (hs : s.Attentive) (hinterest : s.settings.retention = .interest)
    (hc : c ∈ s.consumers) (hm : s.index.get? n = some m) {a : Acknowledgement}
    (h : (s.marked now c a).isNeeded n m.subject = true) : s.isNeeded n m.subject = true := by
  obtain ⟨d, hd, hneeds, -⟩ := (hs.isNeeded_marked_iff hinterest hc hm now a).1 h
  exact List.any_eq_true.2 ⟨d, hd, hneeds⟩

/-- What an acknowledgement does not settle is needed as before. -/
theorem isNeeded_marked_of_notMem (hs : s.Attentive)
    (hinterest : s.settings.retention = .interest) (hc : c ∈ s.consumers)
    (hm : s.index.get? n = some m) {a : Acknowledgement} (hn : n ∉ settledOf c a) :
    (s.marked now c a).isNeeded n m.subject = s.isNeeded n m.subject := by
  refine Bool.eq_iff_iff.2 ⟨hs.isNeeded_of_marked hinterest hc hm, fun h => ?_⟩
  obtain ⟨d, hd, hneeds⟩ := List.any_eq_true.1 h
  exact (hs.isNeeded_marked_iff hinterest hc hm now a).2 ⟨d, hd, hneeds, fun _ => hn⟩

theorem marked (hs : s.Attentive) (hc : c ∈ s.consumers) (now : Instant) (a : Acknowledgement) :
    (s.marked now c a).Attentive := by
  have hsteps := Cursor.steps_acknowledge s.index c.cursor a.number a.kind now
  rw [marked_eq]
  refine ⟨hs.sound, ?_, ?_, fun hinterest => ?_⟩
  · rw [List.map_map]
    have hsame : ((·.id) ∘ hearing now c a) = fun d : Consumer => d.id :=
      funext fun d => hearing_id now c a d
    rw [hsame]
    exact hs.ids
  · intro e he
    obtain ⟨d, hd, rfl⟩ := List.mem_map.1 he
    -- The consumer that is told has moved by steps, the others have stayed.
    rcases hs.cursor_hearing hc hd now a with ⟨-, heq⟩ | ⟨-, heq⟩
    · rw [heq]
      exact (hsteps.notes (hs.grounded c hc)).grounded
    · rw [heq]
      exact hs.grounded d hd
  · intro e he
    obtain ⟨d, hd, rfl⟩ := List.mem_map.1 he
    rcases hs.cursor_hearing hc hd now a with ⟨-, heq⟩ | ⟨-, heq⟩
    · rw [heq]
      exact (hsteps.serves hs.sound.toKeyed (hs.tracks hinterest c hc)).tracks
    · rw [heq]
      exact hs.tracks hinterest d hd

theorem drop? (hs : s.Attentive) {goes : Bool} (h : s.index.drop? n goes = some y) :
    Attentive { s with index := y } := by
  rcases Index.drop?_cases h with ⟨rfl, -⟩ | ⟨rfl, -, -⟩
  · exact hs
  · refine ⟨hs.sound.remove n, hs.ids, hs.grounded, fun hinterest c hc => ?_⟩
    cases hn : s.index.contains n with
    | false =>
      rw [Index.remove_of_get?_eq_none (Index.contains_eq_false_iff.1 hn)]
      exact hs.tracks hinterest c hc
    | true => exact (hs.tracks hinterest c hc).loses (Index.loses_remove hn)

/-! ## Two acknowledgements -/

/-- A consumer comes to the same, whichever of two acknowledgements is first, if they are not of one
message by one consumer. -/
theorem hearing_comm (hs : s.Attentive) (hc : c ∈ s.consumers) (hd : d ∈ s.consumers)
    (hexplicit : c.cursor.settings.ackPolicy = .explicit)
    (hne : d = c → a'.number ≠ a.number) (now : Instant) (e : Consumer) :
    hearing now (hearing now c a d) a' (hearing now c a e) =
      hearing now (hearing now d a' c) a (hearing now d a' e) := by
  by_cases hsame : d.id = c.id
  · obtain rfl := hs.eq_of_id hc hd hsame
    have hcomm := (hs.grounded d hd).acknowledge_comm hexplicit (Ne.symm (hne rfl)) a.kind a'.kind
      now
    by_cases he : e.id = d.id
    · simp [hearing, he, Consumer.mapCursor, Consumer.notify, hcomm]
    · simp [hearing, he, Consumer.notify, Consumer.mapCursor]
  · -- The consumers are two, and each hears its own acknowledgement.
    have hsame' : c.id ≠ d.id := Ne.symm hsame
    have hd' : hearing now c a d = d := by simp [hearing, hsame]
    have hc' : hearing now d a' c = c := by simp [hearing, hsame']
    rw [hd', hc']
    by_cases he : e.id = c.id
    · simp [hearing, he, hsame', Consumer.mapCursor, Consumer.notify]
    · by_cases he' : e.id = d.id
      · simp [hearing, he', hsame, Consumer.mapCursor, Consumer.notify]
      · simp [hearing, he, he']

/-- The cursors come to the same, whichever of two acknowledgements is first. -/
theorem marked_comm (hs : s.Attentive) (hc : c ∈ s.consumers) (hd : d ∈ s.consumers)
    (hexplicit : c.cursor.settings.ackPolicy = .explicit)
    (hne : d = c → a'.number ≠ a.number) (now : Instant) :
    (s.marked now c a).marked now (hearing now c a d) a' =
      (s.marked now d a').marked now (hearing now d a' c) a := by
  have hcomm := hs.hearing_comm hc hd hexplicit hne now
  simp only [marked_eq, List.map_map]
  congr 1 <;> exact List.map_congr_left fun e _ => hcomm e

/-- An acknowledgement settles the same behind another one. -/
theorem settledOf_hearing (hs : s.Attentive) (hc : c ∈ s.consumers) (hd : d ∈ s.consumers)
    (hexplicit : c.cursor.settings.ackPolicy = .explicit)
    (hne : d = c → a'.number ≠ a.number) (now : Instant) :
    settledOf (hearing now c a d) a' = settledOf d a' := by
  rcases hs.cursor_hearing hc hd now a with ⟨rfl, heq⟩ | ⟨-, heq⟩
  · rw [settledOf, settledOf, heq, Cursor.settledBy_acknowledge hexplicit (hne rfl)]
  · rw [heq]

end Attentive

/-- What two acknowledgements make of a stream: the cursors note both, and then the messages go. -/
theorem Attentive.noted?_bind (hs : s.Attentive)
    (hfind : (s.consumers.find? fun e => e.id == a.consumer) = some c)
    (hfind' : (s.consumers.find? fun e => e.id == a'.consumer) = some d)
    (hexplicit : c.cursor.settings.ackPolicy = .explicit)
    (hne : d = c → a'.number ≠ a.number) (now : Instant) :
    (s.noted? now a).bind (·.noted? now a') =
      ((s.marked now c a).marked now (hearing now c a d) a').withIndex?
        ((s.index.drop? a.number (s.goes now c a)).bind fun y => y.drop? a'.number
          (decide (a'.number ∈ settledOf d a') &&
            lets { (s.marked now c a).marked now (hearing now c a d) a' with index := y }
              a'.number)) := by
  have hc := List.mem_of_find?_eq_some hfind
  have hd := List.mem_of_find?_eq_some hfind'
  rw [noted?, hfind]
  dsimp only
  cases hdrop : s.index.drop? a.number (s.goes now c a) with
  | none => rfl
  | some y =>
    -- The other consumer is found again, with what it was told noted.
    have hfind'' : ((s.marked now c a).consumers.find? fun e => e.id == a'.consumer) =
        some (hearing now c a d) := by
      rw [find?_marked, hfind']
      rfl
    simp only [withIndex?, Option.map_some, Option.bind_some, noted?, hfind'', goes,
      hs.settledOf_hearing hc hd hexplicit hne]
    rfl

namespace Attentive

/-- Whether a message goes does not depend on acknowledgements of others. -/
theorem lets_behind (hs : s.Attentive) (hc : c ∈ s.consumers)
    (hexplicit : c.cursor.settings.ackPolicy = .explicit) (hne : n ≠ a.number)
    (hget : y.get? n = s.index.get? n) :
    lets { s.marked now c a with index := y } n = s.lets n := by
  have hn : n ∉ settledOf c a := by
    rcases Cursor.settledBy_cases hexplicit a.number a.kind with heq | ⟨heq, -⟩ <;>
      simp [settledOf, heq, hne]
  refine lets_congr hget rfl fun hinterest m hm => ?_
  exact hs.isNeeded_marked_of_notMem hinterest hc hm hn

theorem mem_hearing (hc : d ∈ s.consumers) (now : Instant) (c : Consumer) (a : Acknowledgement) :
    hearing now c a d ∈ (s.marked now c a).consumers := by
  rw [marked_eq]
  exact List.mem_map_of_mem hc

theorem ackPolicy_hearing (hs : s.Attentive) (hc : c ∈ s.consumers) (hd : d ∈ s.consumers)
    (now : Instant) (a : Acknowledgement) :
    (hearing now c a d).cursor.settings.ackPolicy = d.cursor.settings.ackPolicy := by
  rcases hs.cursor_hearing hc hd now a with ⟨rfl, heq⟩ | ⟨-, heq⟩
  · rw [heq, (Cursor.samePlace_acknowledge ..).settings]
  · rw [heq]

/-- Of two messages each goes if its own acknowledgement makes it go. -/
theorem noted?_bind_of_ne (hs : s.Attentive)
    (hfind : (s.consumers.find? fun e => e.id == a.consumer) = some c)
    (hfind' : (s.consumers.find? fun e => e.id == a'.consumer) = some d)
    (hexplicit : c.cursor.settings.ackPolicy = .explicit) (hne : a'.number ≠ a.number)
    (now : Instant) :
    (s.noted? now a).bind (·.noted? now a') =
      ((s.marked now c a).marked now (hearing now c a d) a').withIndex?
        ((s.index.drop? a.number (s.goes now c a)).bind
          (·.drop? a'.number (s.goes now d a'))) := by
  have hc := List.mem_of_find?_eq_some hfind
  have hd := List.mem_of_find?_eq_some hfind'
  rw [hs.noted?_bind hfind hfind' hexplicit (fun _ => hne),
    hs.marked_comm hc hd hexplicit (fun _ => hne)]
  congr 1
  refine Option.bind_congr fun y hy => ?_
  -- The other message is there whether or not the first has gone.
  have hget : y.get? a'.number = s.index.get? a'.number := by
    rcases Index.drop?_cases hy with ⟨rfl, -⟩ | ⟨rfl, -, -⟩
    · rfl
    · rw [Index.get?_remove, if_neg hne]
  rw [goes, (hs.marked hd now a').lets_behind (mem_hearing hc now d a')
    ((hs.ackPolicy_hearing hd hc now a').trans hexplicit) hne hget]

/-- A message that two consumers acknowledge goes if one of them settles it and then it is not
kept. -/
theorem noted?_bind_of_eq (hs : s.Attentive)
    (hfind : (s.consumers.find? fun e => e.id == a.consumer) = some c)
    (hfind' : (s.consumers.find? fun e => e.id == a'.consumer) = some d)
    (hexplicit : c.cursor.settings.ackPolicy = .explicit) (hne : d ≠ c)
    (heq : a'.number = a.number) (now : Instant) :
    (s.noted? now a).bind (·.noted? now a') =
      ((s.marked now c a).marked now (hearing now c a d) a').withIndex?
        (s.index.drop? a.number
          ((decide (a.number ∈ settledOf c a) || decide (a.number ∈ settledOf d a')) &&
            ((s.marked now c a).marked now (hearing now c a d) a').lets a.number)) := by
  have hc := List.mem_of_find?_eq_some hfind
  have hd := List.mem_of_find?_eq_some hfind'
  have hmarked := hs.marked hc now a
  have hmem := mem_hearing hd now c a
  rw [hs.noted?_bind hfind hfind' hexplicit (fun h => absurd h hne), heq]
  congr 1
  cases hgoes : s.goes now c a with
  | true =>
    -- The first lets it go, so it would go in the end as well, and the second does not find it.
    obtain ⟨hsettled, hlets⟩ := Bool.and_eq_true_iff.1 hgoes
    have hlets' : ((s.marked now c a).marked now (hearing now c a d) a').lets a.number = true :=
      lets_of_lets hlets rfl rfl fun hinterest m hm hneeded =>
        hmarked.isNeeded_of_marked hinterest hmem hm hneeded
    rw [hsettled, hlets', Bool.true_or, Bool.and_true]
    cases hdrop : s.index.drop? a.number true with
    | none => rfl
    | some y =>
      have hgone : y.get? a.number = none := by
        rcases Index.drop?_cases hdrop with ⟨-, ⟨⟩⟩ | ⟨rfl, -, -⟩
        rw [Index.get?_remove, if_pos rfl]
      have hnot : lets { (s.marked now c a).marked now (hearing now c a d) a' with index := y }
          a.number = false := by
        refine Bool.eq_false_iff.2 fun h => ?_
        obtain ⟨m, hm, -⟩ := lets_iff.1 h
        rw [hgone] at hm
        cases hm
      rw [Option.bind_some, hnot, Bool.and_false]
      rfl
  | false =>
    rw [Index.drop?_false, Option.bind_some]
    congr 1
    by_cases hsettled : a.number ∈ settledOf d a'
    · rw [decide_eq_true hsettled, Bool.or_true]
      rfl
    · -- The second does not change whether it goes, so the first would have let it go.
      have hn : a.number ∉ settledOf (hearing now c a d) a' := by
        rwa [hs.settledOf_hearing hc hd hexplicit fun h => absurd h hne]
      have hlets : ((s.marked now c a).marked now (hearing now c a d) a').lets a.number =
          (s.marked now c a).lets a.number :=
        lets_congr rfl rfl fun hinterest m hm =>
          hmarked.isNeeded_marked_of_notMem hinterest hmem hm hn
      rw [decide_eq_false hsettled, Bool.false_and, Bool.or_false, hlets]
      exact hgoes.symm

/-- A consumer that does not exist says nothing, before or after another one. -/
theorem noted?_bind_of_absent (h : (s.consumers.find? fun e => e.id == a.consumer) = none)
    (a' : Acknowledgement) (now : Instant) :
    (s.noted? now a').bind (·.noted? now a) = (s.noted? now a).bind (·.noted? now a') := by
  have habsent {t : Stream} (ht : s.noted? now a' = some t) : t.noted? now a = some t := by
    have hfind : (t.consumers.find? fun e => e.id == a.consumer) = none := by
      rcases noted?_cases ht with rfl | ⟨c, y, -, -, rfl⟩
      · exact h
      · rw [find?_marked, h]
        rfl
    rw [noted?, hfind]
  have hsame : s.noted? now a = some s := by rw [noted?, h]
  rw [hsame, Option.bind_some]
  cases ht : s.noted? now a' with
  | none => rfl
  | some t => exact habsent ht

/-- **Two acknowledgements may come in any order**, unless they are of one message by one
consumer. -/
theorem noted?_comm (hs : s.Attentive)
    (hexplicit : ∀ e ∈ s.consumers, e.id = a.consumer ∨ e.id = a'.consumer →
      e.cursor.settings.ackPolicy = .explicit)
    (hne : (a.consumer, a.number) ≠ (a'.consumer, a'.number)) (now : Instant) :
    (s.noted? now a).bind (·.noted? now a') = (s.noted? now a').bind (·.noted? now a) := by
  cases hfind : s.consumers.find? fun e => e.id == a.consumer with
  | none => exact (noted?_bind_of_absent hfind a' now).symm
  | some c =>
    cases hfind' : s.consumers.find? fun e => e.id == a'.consumer with
    | none => exact noted?_bind_of_absent hfind' a now
    | some d =>
      have hc := List.mem_of_find?_eq_some hfind
      have hd := List.mem_of_find?_eq_some hfind'
      have hcid : c.id = a.consumer := by simpa using List.find?_some hfind
      have hdid : d.id = a'.consumer := by simpa using List.find?_some hfind'
      have hce := hexplicit c hc (.inl hcid)
      have hde := hexplicit d hd (.inr hdid)
      by_cases hnumber : a'.number = a.number
      · -- Both are about one message, so they are of two consumers.
        have hdc : d ≠ c := by
          rintro rfl
          exact hne (Prod.ext (hcid.symm.trans hdid) hnumber.symm)
        rw [hs.noted?_bind_of_eq hfind hfind' hce hdc hnumber,
          hs.noted?_bind_of_eq hfind' hfind hde (Ne.symm hdc) hnumber.symm,
          hs.marked_comm hc hd hce fun h => absurd h hdc, hnumber, Bool.or_comm]
      · rw [hs.noted?_bind_of_ne hfind hfind' hce hnumber,
          hs.noted?_bind_of_ne hfind' hfind hde (Ne.symm hnumber),
          hs.marked_comm hc hd hce fun _ => hnumber, hs.sound.drop?_comm]

theorem noted? (hs : s.Attentive) (h : s.noted? now a = some t) : t.Attentive := by
  rcases noted?_cases h with rfl | ⟨c, y, hfind, hdrop, rfl⟩
  · exact hs
  · exact (hs.marked (List.mem_of_find?_eq_some hfind) now a).drop? hdrop

/-- An acknowledgement does not change how deliveries are acknowledged. -/
theorem exists_of_noted? (hs : s.Attentive) (h : s.noted? now a = some t) (hd : d ∈ t.consumers) :
    ∃ c ∈ s.consumers, d.id = c.id ∧
      d.cursor.settings.ackPolicy = c.cursor.settings.ackPolicy := by
  rcases noted?_cases h with rfl | ⟨c, y, hfind, -, rfl⟩
  · exact ⟨d, hd, rfl, rfl⟩
  · rw [marked_eq] at hd
    obtain ⟨e, he, rfl⟩ := List.mem_map.1 hd
    exact ⟨e, he, hearing_id .., hs.ackPolicy_hearing (List.mem_of_find?_eq_some hfind) he now a⟩

/-! ## Any number of them -/

/-- **Acknowledgements may come in any order**, if no two are of one message by one consumer. -/
theorem noted?_perm (hs : s.Attentive) {as as' : List Acknowledgement} (hperm : as.Perm as')
    (hnodup : (as.map fun a => (a.consumer, a.number)).Nodup)
    (hexplicit : ∀ a ∈ as, ∀ c ∈ s.consumers, c.id = a.consumer →
      c.cursor.settings.ackPolicy = .explicit) (now : Instant) :
    as.foldlM (fun t a => t.noted? now a) s = as'.foldlM (fun t a => t.noted? now a) s := by
  -- Induction on the exchanges that lead from one order to the other.
  induction hperm generalizing s with
  | nil => rfl
  | cons a hperm ih =>
    rw [List.foldlM_cons, List.foldlM_cons]
    rw [List.map_cons, List.nodup_cons] at hnodup
    refine Option.bind_congr fun t ht => ih (hs.noted? ht) hnodup.2 fun a' ha' d hd hid => ?_
    obtain ⟨c, hc, hsame, hpolicy⟩ := hs.exists_of_noted? ht hd
    rw [hpolicy]
    exact hexplicit a' (List.mem_cons_of_mem a ha') c hc (hsame.symm.trans hid)
  | swap a a' as =>
    have hne : (a'.consumer, a'.number) ≠ (a.consumer, a.number) := by
      rw [List.map_cons, List.map_cons, List.nodup_cons, List.mem_cons, not_or] at hnodup
      exact hnodup.1.1
    have hboth (e : Consumer) (he : e ∈ s.consumers)
        (hid : e.id = a'.consumer ∨ e.id = a.consumer) :
        e.cursor.settings.ackPolicy = .explicit := by
      rcases hid with hid | hid
      · exact hexplicit a' List.mem_cons_self e he hid
      · exact hexplicit a (List.mem_cons_of_mem _ List.mem_cons_self) e he hid
    have hcomm := hs.noted?_comm hboth hne now
    simp only [List.foldlM_cons]
    rw [← bind_assoc, ← bind_assoc]
    exact congrArg (· >>= _) hcomm
  | trans hperm hperm' ih ih' =>
    rw [ih hs hnodup hexplicit]
    exact ih' hs ((hperm.map _).nodup_iff.1 hnodup) fun a ha =>
      hexplicit a (hperm.mem_iff.2 ha)

end Attentive

/-! ## Noting them -/

theorem run_acknowledge_of_find? (hc : (s.consumers.find? fun e => e.id == a.consumer) = some c)
    (clock : Clock) (b : Backend) :
    ((StreamOp.acknowledge a.consumer a.number a.kind).run clock s b).2 =
      (s.acknowledge c a.number a.kind clock b).2 := by
  rw [StreamOp.run, StreamOp.asConsumer, hc]
  dsimp only
  rw [StreamOp.acknowledged]
  split <;> rfl

theorem run_acknowledge_of_absent (hc : (s.consumers.find? fun e => e.id == a.consumer) = none)
    (clock : Clock) (b : Backend) :
    ((StreamOp.acknowledge a.consumer a.number a.kind).run clock s b).2 = (s, b) := by
  rw [StreamOp.run, StreamOp.asConsumer, hc]

theorem heed_cons (clock : Clock) (a : Acknowledgement) (as : List Acknowledgement) (s : Stream)
    (b : Backend) : heed clock (a :: as) s b =
      heed clock as ((StreamOp.acknowledge a.consumer a.number a.kind).run clock s b).2.1
        ((StreamOp.acknowledge a.consumer a.number a.kind).run clock s b).2.2 := rfl

/-- A stream that has stopped noting acknowledgements stays as it is. -/
theorem heed_of_stopped (hs : s.takesAcks = false) (clock : Clock) (as : List Acknowledgement)
    (b : Backend) : (heed clock as s b).1 = s := by
  induction as generalizing b with
  | nil => rfl
  | cons a as ih =>
    rw [heed_cons]
    cases hfind : s.consumers.find? fun e => e.id == a.consumer with
    | none =>
      rw [run_acknowledge_of_absent hfind]
      exact ih b
    | some c =>
      rw [run_acknowledge_of_find? hfind, acknowledge, if_neg (by simp [hs])]
      exact ih b

/-- **Acknowledgements are noted one after the other**, up to one that runs out of numbers. -/
theorem Attentive.heed_cases (hs : s.Attentive) (htakes : s.takesAcks = true)
    {as : List Acknowledgement} (hexplicit : ∀ a ∈ as, ∀ c ∈ s.consumers, c.id = a.consumer →
      c.cursor.settings.ackPolicy = .explicit) (clock : Clock) (b : Backend) :
    as.foldlM (fun t a => t.noted? clock.elapsed a) s = some (heed clock as s b).1 ∨
      (as.foldlM (fun t a => t.noted? clock.elapsed a) s = none ∧
        (heed clock as s b).1.takesAcks = false) := by
  induction as generalizing s b with
  | nil => exact .inl rfl
  | cons a as ih =>
    rw [List.foldlM_cons, heed_cons]
    cases hfind : s.consumers.find? fun e => e.id == a.consumer with
    | none =>
      have hnoted : s.noted? clock.elapsed a = some s := by rw [Stream.noted?, hfind]
      rw [run_acknowledge_of_absent hfind, hnoted]
      exact ih hs htakes (fun a' ha' => hexplicit a' (List.mem_cons_of_mem a ha')) b
    | some c =>
      have hc := List.mem_of_find?_eq_some hfind
      have hid : c.id = a.consumer := by simpa using List.find?_some hfind
      rw [run_acknowledge_of_find? hfind]
      rcases acknowledge_eq htakes (hexplicit a List.mem_cons_self c hc hid) a clock b with
        ⟨y, hy, heq⟩ | ⟨hnone, hstopped⟩
      · have hnoted : s.noted? clock.elapsed a =
            some { s.marked clock.elapsed c a with index := y } := by
          rw [Stream.noted?, hfind]
          dsimp only
          rw [hy]
          rfl
        rw [hnoted, heq]
        -- A note keeps the policies of all consumers, so the induction goes on with what follows.
        refine ih (hs.noted? hnoted) htakes (fun a' ha' d hd hid => ?_) _
        obtain ⟨e, he, hsame, hpolicy⟩ := hs.exists_of_noted? hnoted hd
        rw [hpolicy]
        exact hexplicit a' (List.mem_cons_of_mem a ha') e he (hsame.symm.trans hid)
      · have hnoted : s.noted? clock.elapsed a = none := by
          rw [Stream.noted?, hfind]
          dsimp only
          rw [hnone]
          rfl
        rw [hnoted, heed_of_stopped hstopped]
        exact .inr ⟨rfl, hstopped⟩

/-- It runs out of numbers only where the largest one was given. -/
theorem exhausted_of_noted? {as : List Acknowledgement}
    (h : as.foldlM (fun t a => t.noted? now a) s = none) : wordLimit ≤ s.index.lastSeq + 1 := by
  induction as generalizing s with
  | nil => cases h
  | cons a as ih =>
    rw [List.foldlM_cons] at h
    cases hnoted : s.noted? now a with
    | none =>
      rw [noted?] at hnoted
      split at hnoted
      · cases hnoted
      · next c _ =>
        rw [withIndex?, Option.map_eq_none_iff, Index.drop?] at hnoted
        split at hnoted
        · split at hnoted
          · next hstuck => exact (Index.isStuck_iff.1 hstuck).1
          · cases hnoted
        · cases hnoted
    | some t =>
      rw [hnoted] at h
      -- Acknowledgements give no numbers.
      have hlast : t.index.lastSeq = s.index.lastSeq := by
        rcases noted?_cases hnoted with rfl | ⟨c, y, -, hdrop, rfl⟩
        · rfl
        · rcases Index.drop?_cases hdrop with ⟨rfl, -⟩ | ⟨rfl, -, -⟩
          · rfl
          · exact Index.lastSeq_remove ..
      rw [← hlast]
      exact ih h

variable {others : Backend → Backend → Prop} {events : List StreamEvent} {b₀ : Backend}

/-- A stream is attentive throughout a life in which no consumer is given another filter. -/
theorem Life.attentive (hb₀ : b₀.Legible s.journal?)
    (hothers : ∀ {b b'}, others b b' → b.Legible s.journal? → b'.Legible s.journal?)
    (life : Life others b₀ events s b)
    (hfilters : ∀ before op reply, .operated before op reply ∈ events →
      op.KeepsFilters before reply) : s.Attentive where
  sound := (life.limited hb₀ hothers rfl).sound
  ids := life.roster.ids
  grounded c hc := by
    obtain ⟨_, _, _, course, -⟩ := life.exists_course c hc
    exact course.surveys.grounded
  tracks hinterest c hc :=
    (life.claimed hinterest hfilters).tracks _ (List.mem_map.2 ⟨c, hc, rfl⟩)

/-- **Acknowledgements commute**: at every point of a life in which no consumer is given another
filter, acknowledgements at one instant by consumers that acknowledge one by one, no two of one
message by one consumer, leave the same stream in whatever order they are noted: its messages, what
it counts and its consumers.  At the largest number some cannot be noted, and then noting them stops
in every order. -/
theorem Life.acknowledgements_commute (hb₀ : b₀.Legible s.journal?)
    (hothers : ∀ {b b'}, others b b' → b.Legible s.journal? → b'.Legible s.journal?)
    (life : Life others b₀ events s b)
    (hfilters : ∀ before op reply, .operated before op reply ∈ events →
      op.KeepsFilters before reply)
    {as as' : List Acknowledgement} (hperm : as.Perm as')
    (hnodup : (as.map fun a => (a.consumer, a.number)).Nodup)
    (hexplicit : ∀ a ∈ as, ∀ c ∈ s.consumers, c.id = a.consumer →
      c.cursor.settings.ackPolicy = .explicit) (clock : Clock) :
    (heed clock as s b).1 = (heed clock as' s b).1 ∨
      (wordLimit ≤ s.index.lastSeq + 1 ∧ (heed clock as s b).1.takesAcks = false ∧
        (heed clock as' s b).1.takesAcks = false) := by
  cases htakes : s.takesAcks with
  | false => exact .inl ((heed_of_stopped htakes ..).trans (heed_of_stopped htakes ..).symm)
  | true =>
    have hs := life.attentive hb₀ hothers hfilters
    have hcommute := hs.noted?_perm hperm hnodup hexplicit clock.elapsed
    have hexplicit' : ∀ a ∈ as', ∀ c ∈ s.consumers, c.id = a.consumer →
        c.cursor.settings.ackPolicy = .explicit :=
      fun a ha => hexplicit a (hperm.mem_iff.2 ha)
    rcases hs.heed_cases htakes hexplicit clock b with hsome | ⟨hnone, hstopped⟩
    · rcases hs.heed_cases htakes hexplicit' clock b with hsome' | ⟨hnone', -⟩
      · exact .inl (Option.some.inj (hsome.symm.trans (hcommute.trans hsome')))
      · cases hsome.symm.trans (hcommute.trans hnone')
    · rcases hs.heed_cases htakes hexplicit' clock b with hsome' | ⟨-, hstopped'⟩
      · cases hnone.symm.trans (hcommute.trans hsome')
      · exact .inr ⟨exhausted_of_noted? hnone, hstopped, hstopped'⟩

/-- A message that two consumers have is gone when both have acknowledged it, whichever was
first. -/
theorem gone_in_either_order :
    ∃ events s b, Life (Backend.Disturbance "stream_S") blankBackend events s b ∧
      s.index.contains 1 = true ∧
      (heed epochClock [⟨0, 1, .ack⟩, ⟨1, 1, .ack⟩] s b).1 =
        (heed epochClock [⟨1, 1, .ack⟩, ⟨0, 1, .ack⟩] s b).1 ∧
      (heed epochClock [⟨0, 1, .ack⟩, ⟨1, 1, .ack⟩] s b).1.index.contains 1 = false := by
  have hclock : epochClock.IsDated := rfl
  obtain ⟨s₀, b₀, s₁, b₁, s₂, b₂, s₃, b₃, s₄, b₄, s, b, c, d, hopen, hfirst, hsecond, hpublish,
      hcollect, hcollect', hnew, hnew', hnone, hnone', hjournal, hthere, hgone, htakes, hall⟩ :
      ∃ s₀ b₀ s₁ b₁ s₂ b₂ s₃ b₃ s₄ b₄ s b c d,
        open? 0 { name := "S", retention := .interest } epochClock blankBackend = (.ok s₀, b₀) ∧
        (StreamOp.upsertConsumer .create 0 "C" {} {}).run epochClock s₀ b₀ =
          (.ok (.consumer 0), s₁, b₁) ∧
        (StreamOp.upsertConsumer .create 1 "D" {} {}).run epochClock s₁ b₁ =
          (.ok (.consumer 1), s₂, b₂) ∧
        plainPublish.run epochClock s₂ b₂ = (.ok (.stored 1), s₃, b₃) ∧
        (StreamOp.collect 0 { batch := 1 }).run epochClock s₃ b₃ = (.ok (.collected c), s₄, b₄) ∧
        (StreamOp.collect 1 { batch := 1 }).run epochClock s₄ b₄ = (.ok (.collected d), s, b) ∧
        s₀.consumerById? 0 = none ∧ s₁.consumerById? 1 = none ∧ s₀.consumer? "C" = none ∧
        s₁.consumer? "D" = none ∧ s.journal? = some "stream_S" ∧ s.index.contains 1 = true ∧
        (heed epochClock [⟨0, 1, .ack⟩, ⟨1, 1, .ack⟩] s b).1.index.contains 1 = false ∧
        (heed epochClock [⟨0, 1, .ack⟩, ⟨1, 1, .ack⟩] s b).1.takesAcks = true ∧
        (s.consumers.all fun c => decide (c.cursor.settings.ackPolicy = .explicit)) = true :=
    ⟨_, _, _, _, _, _, _, _, _, _, _, _, _, _, rfl, rfl, rfl, rfl, rfl, rfl, rfl, rfl, rfl, rfl,
      rfl, rfl, rfl, rfl, rfl⟩
  have hadd : (StreamOp.upsertConsumer .create 0 "C" {} {}).IsProper s₀ := hnew
  have hadd' : (StreamOp.upsertConsumer .create 1 "D" {} {}).IsProper s₁ := hnew'
  have life : Life (Backend.Disturbance "stream_S") blankBackend _ s b :=
    (((((Life.opened rfl hclock hopen).operated hadd hclock hfirst nofun).operated hadd' hclock
      hsecond nofun).operated (by trivial) hclock hpublish nofun).operated (by trivial) hclock
        hcollect nofun).operated (by trivial) hclock hcollect' nofun
  have hblank : blankBackend.Legible s.journal? := fun ns _ =>
    ⟨SeqMap.empty, (blankBackend_keeps ns).holds, Journal.Mirrors.empty.readable Index.empty_sound⟩
  have hothers {b b' : Backend} (h : Backend.Disturbance "stream_S" b b')
      (hb : b.Legible s.journal?) : b'.Legible s.journal? := by
    rw [hjournal] at hb ⊢
    exact h.legible hb
  have hcommute := life.acknowledgements_commute hblank hothers (fun before op reply hmem => by
    simp only [List.cons_append, List.nil_append, List.mem_cons, reduceCtorEq, false_or,
      StreamEvent.operated.injEq, List.not_mem_nil, or_false] at hmem
    -- No consumer was there under the name of one that was created.
    rcases hmem with ⟨rfl, rfl, rfl⟩ | ⟨rfl, rfl, rfl⟩ | ⟨rfl, rfl, rfl⟩ | ⟨rfl, rfl, rfl⟩ |
      ⟨rfl, rfl, rfl⟩
    · exact fun _ d hd => nomatch hnone.symm.trans hd
    · exact fun _ d hd => nomatch hnone'.symm.trans hd
    all_goals trivial)
    (List.Perm.swap ⟨1, 1, .ack⟩ ⟨0, 1, .ack⟩ []) (by decide)
    (fun _ _ c hc _ => by simpa using List.all_eq_true.1 hall c hc) epochClock
  refine ⟨_, s, b, life, hthere, ?_, hgone⟩
  rcases hcommute with heq | ⟨-, hstopped, -⟩
  · exact heq
  · rw [htakes] at hstopped
    cases hstopped

end Stream

end StreamBroker
