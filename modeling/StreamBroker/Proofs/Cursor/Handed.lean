import StreamBroker.Proofs.Cursor.Serves

/-!
# What a cursor hands out

A cursor hands out some pending deliveries again, gives up those that were handed out too often, and
goes on over what is new.  Each walk is described once, as a relation between the cursors before and
behind it and the deliveries that it makes; a stretch of a walk is composed of the stretches that it
is made of, so only single deliveries are looked at.

## Main definitions

* `Cursor.Redelivers`: some deliveries are repeated and others given up
* `Cursor.Passes`, `Cursor.Advances`: the messages from one number up to another are handed out
* `Cursor.IsSpent`: a delivery that is given up instead of being repeated
* `Cursor.Hands`: what is handed out in all, and what is pending then

## Main results

* `Cursor.redelivers_redeliver`, `Cursor.advances_deliverNew`: the two walks
* `Cursor.hands_collect`: a cursor collects
* `Cursor.get?_pending_acknowledge`: what is pending behind an acknowledgement
-/

namespace StreamBroker

/-- The number of the message that is handed out. -/
abbrev Delivery.sequence (d : Delivery) : Nat := d.message.sequence

namespace Cursor

variable {c c' c'' : Cursor} {x : Index} {n : Nat} {m : StoredMessage} {now : Instant}
  {again again' new new' : List Delivery} {given given' : List Nat} {d : Delivery}

/-- A cursor has come to the same place as another. -/
structure SamePlace (c c' : Cursor) : Prop where
  /-- It has the same settings. -/
  settings : c'.settings = c.settings
  /-- It began with the same number. -/
  startSeq : c'.startSeq = c.startSeq
  /-- It leaves out the same messages. -/
  newestOnly : c'.newestOnly = c.newestOnly
  /-- It goes on with the same number. -/
  nextSeq : c'.nextSeq = c.nextSeq
  /-- It made the same last delivery. -/
  delivered : c'.delivered = c.delivered

namespace SamePlace

theorem refl (c : Cursor) : c.SamePlace c := ⟨rfl, rfl, rfl, rfl, rfl⟩

theorem trans (h : c.SamePlace c') (h' : c'.SamePlace c'') : c.SamePlace c'' where
  settings := h'.settings.trans h.settings
  startSeq := h'.startSeq.trans h.startSeq
  newestOnly := h'.newestOnly.trans h.newestOnly
  nextSeq := h'.nextSeq.trans h.nextSeq
  delivered := h'.delivered.trans h.delivered

theorem sameChoice (h : c.SamePlace c') : c.SameChoice c' :=
  ⟨h.startSeq, h.newestOnly, congrArg ConsumerSettings.filter h.settings⟩

theorem isExhausted_eq (h : c.SamePlace c') (p : PendingDelivery) :
    c'.isExhausted p = c.isExhausted p := by
  rw [isExhausted, h.settings, isExhausted]

theorem redeliveryAt_eq (h : c.SamePlace c') (now : Instant) :
    c'.redeliveryAt now = c.redeliveryAt now := by
  rw [redeliveryAt, h.settings, redeliveryAt]

end SamePlace

/-! ## Repeating -/

/-- A cursor repeats some deliveries and gives up others. -/
structure Redelivers (x : Index) (now : Instant) (c : Cursor) (again : List Delivery)
    (given : List Nat) (c' : Cursor) : Prop where
  /-- What is repeated was pending, and may be delivered once more. -/
  of_again : ∀ d ∈ again, x.get? d.sequence = some d.message ∧ ∃ p,
    c.pending.get? d.sequence = some p ∧ c.isExhausted p = false ∧
      d.consumerSeq = p.consumerSeq ∧ d.deliveries = p.deliveries + 1
  /-- Nothing is repeated twice. -/
  nodup : (again.map Delivery.sequence).Nodup
  /-- What is given up was pending, and was delivered as often as is allowed. -/
  of_given : ∀ n ∈ given, ∃ p, c.pending.get? n = some p ∧ c.isExhausted p = true
  /-- What is repeated is pending again. -/
  pending_again : ∀ d ∈ again,
    c'.pending.get? d.sequence = some ⟨d.consumerSeq, d.deliveries, c.redeliveryAt now⟩
  /-- What is given up is not pending any more. -/
  pending_given : ∀ n ∈ given, c'.pending.get? n = none
  /-- All else is pending as before. -/
  pending_eq : ∀ n, n ∉ again.map Delivery.sequence → n ∉ given →
    c'.pending.get? n = c.pending.get? n
  /-- The cursor stays at its place. -/
  samePlace : c.SamePlace c'

namespace Redelivers

theorem refl (x : Index) (now : Instant) (c : Cursor) : Redelivers x now c [] [] c where
  of_again _ hd := nomatch hd
  nodup := List.nodup_nil
  of_given _ hn := nomatch hn
  pending_again _ hd := nomatch hd
  pending_given _ hn := nomatch hn
  pending_eq _ _ _ := rfl
  samePlace := .refl c

/-- Two stretches are one, if the second does not come to what the first has repeated. -/
theorem trans (h : Redelivers x now c again given c')
    (h' : Redelivers x now c' again' given' c'')
    (hagain : ∀ d ∈ again', d.sequence ∉ again.map Delivery.sequence)
    (hgiven : ∀ n ∈ given', n ∉ again.map Delivery.sequence) :
    Redelivers x now c (again ++ again') (given ++ given') c'' := by
  -- What the first stretch has given up is not pending when the second one begins.
  have hopen {n : Nat} {p : PendingDelivery} (hp : c'.pending.get? n = some p)
      (hn : n ∉ again.map Delivery.sequence) : n ∉ given ∧ c.pending.get? n = some p := by
    have hmem : n ∉ given := fun hmem => by
      rw [h.pending_given n hmem] at hp
      cases hp
    exact ⟨hmem, (h.pending_eq n hn hmem).symm.trans hp⟩
  have hkept {n : Nat} (hn : n ∈ again.map Delivery.sequence) :
      n ∉ again'.map Delivery.sequence ∧ n ∉ given' := by
    refine ⟨fun hmem => ?_, fun hmem => hgiven n hmem hn⟩
    obtain ⟨e, he, rfl⟩ := List.mem_map.1 hmem
    exact hagain e he hn
  exact {
    of_again := by
      intro d hd
      rcases List.mem_append.1 hd with hd | hd
      · exact h.of_again d hd
      · obtain ⟨hm, p, hp, hexhausted, hseq⟩ := h'.of_again d hd
        rw [h.samePlace.isExhausted_eq p] at hexhausted
        exact ⟨hm, p, (hopen hp (hagain d hd)).2, hexhausted, hseq⟩
    nodup := by
      rw [List.map_append, List.nodup_append]
      refine ⟨h.nodup, h'.nodup, ?_⟩
      rintro n hn k hk rfl
      exact (hkept hn).1 hk
    of_given := by
      intro n hn
      rcases List.mem_append.1 hn with hn | hn
      · exact h.of_given n hn
      · obtain ⟨p, hp, hexhausted⟩ := h'.of_given n hn
        exact ⟨p, (hopen hp (hgiven n hn)).2, (h.samePlace.isExhausted_eq p).symm.trans hexhausted⟩
    pending_again := by
      intro d hd
      rcases List.mem_append.1 hd with hd | hd
      · obtain ⟨hnot, hnot'⟩ := hkept (List.mem_map_of_mem hd)
        rw [h'.pending_eq d.sequence hnot hnot', h.pending_again d hd]
      · rw [h'.pending_again d hd, h.samePlace.redeliveryAt_eq]
    pending_given := by
      intro n hn
      rcases List.mem_append.1 hn with hn | hn
      · have hnone := h.pending_given n hn
        rw [h'.pending_eq n ?_ ?_, hnone]
        · intro hmem
          obtain ⟨d, hd, rfl⟩ := List.mem_map.1 hmem
          obtain ⟨-, p, hp, -⟩ := h'.of_again d hd
          rw [hnone] at hp
          cases hp
        · intro hmem
          obtain ⟨p, hp, -⟩ := h'.of_given n hmem
          rw [hnone] at hp
          cases hp
      · exact h'.pending_given n hn
    pending_eq := by
      intro n hn hmem
      rw [List.map_append, List.mem_append, not_or] at hn
      rw [List.mem_append, not_or] at hmem
      rw [h'.pending_eq n hn.2 hmem.2, h.pending_eq n hn.1 hmem.1]
    samePlace := h.samePlace.trans h'.samePlace }

end Redelivers

theorem redelivers_giveUp {p : PendingDelivery} (hp : c.pending.get? n = some p)
    (hexhausted : c.isExhausted p = true) : Redelivers x now c [] [n] (c.giveUp n) where
  of_again _ hd := nomatch hd
  nodup := List.nodup_nil
  of_given k hk := by
    rw [List.mem_singleton.1 hk]
    exact ⟨p, hp, hexhausted⟩
  pending_again _ hd := nomatch hd
  pending_given k hk := by
    rw [giveUp, List.mem_singleton.1 hk, SeqMap.get?_erase, if_pos rfl]
  pending_eq k _ hk := by
    rw [giveUp, SeqMap.get?_erase, if_neg (by simpa using hk)]
  samePlace := ⟨rfl, rfl, rfl, rfl, rfl⟩

theorem redelivers_repeatDelivery {p : PendingDelivery} (hm : x.get? m.sequence = some m)
    (hp : c.pending.get? m.sequence = some p) (hexhausted : c.isExhausted p = false) :
    Redelivers x now c [⟨m, p.consumerSeq, p.deliveries + 1⟩] []
      (c.repeatDelivery now m.sequence) where
  of_again d hd := by
    rw [List.mem_singleton.1 hd]
    exact ⟨hm, p, hp, hexhausted, rfl, rfl⟩
  nodup := List.pairwise_singleton ..
  of_given _ hk := nomatch hk
  pending_again d hd := by
    rw [List.mem_singleton.1 hd, repeatDelivery, SeqMap.get?_modify, if_pos rfl, hp,
      Option.map_some]
  pending_given _ hk := nomatch hk
  pending_eq k hk _ := by
    rw [repeatDelivery, SeqMap.get?_modify, if_neg (by simpa using hk)]
  samePlace := ⟨rfl, rfl, rfl, rfl, rfl⟩

/-- **What is due is repeated, or given up when it was delivered as often as is allowed**, as far as
the limits of the pull allow. -/
theorem redelivers_redeliver (hx : x.Filed) (l : Limits) (now : Instant) {ns : List Nat}
    (hns : ns.Nodup) (c : Cursor) (h : Haul) :
    ∃ again given, (redeliver x l now ns c h).2.deliveries = h.deliveries ++ again ∧
      (redeliver x l now ns c h).2.settled = h.settled ++ given ∧
      (∀ d ∈ again, d.sequence ∈ ns) ∧ (∀ n ∈ given, n ∈ ns) ∧
      Redelivers x now c again given (redeliver x l now ns c h).1 := by
  -- A walk that ends has repeated nothing more.
  have hstop (ns : List Nat) (c : Cursor) (h h' : Haul) (hd : h'.deliveries = h.deliveries)
      (hs : h'.settled = h.settled) : ∃ again given, h'.deliveries = h.deliveries ++ again ∧
        h'.settled = h.settled ++ given ∧ (∀ d ∈ again, d.sequence ∈ ns) ∧ (∀ n ∈ given, n ∈ ns) ∧
          Redelivers x now c again given c :=
    ⟨[], [], by rw [hd, List.append_nil], by rw [hs, List.append_nil], by simp, by simp,
      .refl x now c⟩
  induction ns generalizing c h with
  | nil => exact hstop [] c h h rfl rfl
  | cons n ns ih =>
    rw [List.nodup_cons] at hns
    rw [redeliver]
    split
    · exact hstop _ c h h rfl rfl
    · split
      · next m p hm hp =>
        obtain rfl := hx.sequence_eq hm
        split
        · next hexhausted =>
          obtain ⟨again, given, hd, hs, hagain, hgiven, hrest⟩ :=
            ih hns.2 (c.giveUp m.sequence) (h.settle m.sequence)
          refine ⟨again, m.sequence :: given, hd, ?_, ?_, ?_, ?_⟩
          · rw [hs, Haul.settle, List.append_assoc]
            rfl
          · exact fun d hd => List.mem_cons_of_mem _ (hagain d hd)
          · exact fun k hk => List.mem_cons.2 ((List.mem_cons.1 hk).imp_right (hgiven k))
          · exact (redelivers_giveUp hp hexhausted).trans hrest (by simp) (by simp)
        · next hexhausted =>
          split
          · obtain ⟨again, given, hd, hs, hagain, hgiven, hrest⟩ :=
              ih hns.2 (c.repeatDelivery now m.sequence)
                (h.add ⟨m, p.consumerSeq, p.deliveries + 1⟩)
            -- No number comes twice, so the rest of the walk does not come to this one.
            have hfirst : Redelivers x now c _ _ (c.repeatDelivery now m.sequence) :=
              redelivers_repeatDelivery hm hp (Bool.eq_false_iff.2 hexhausted)
            have hall := hfirst.trans hrest
              (fun d hd hmem => hns.1 ((List.mem_singleton.1 hmem : _ = m.sequence) ▸ hagain d hd))
              (fun k hk hmem => hns.1 ((List.mem_singleton.1 hmem : _ = m.sequence) ▸ hgiven k hk))
            refine ⟨_, _, ?_, hs, ?_, ?_, hall⟩
            · rw [hd, Haul.add, List.append_assoc]
            · intro d hd
              rcases List.mem_cons.1 hd with rfl | hd
              · exact List.mem_cons_self
              · exact List.mem_cons_of_mem _ (hagain d hd)
            · exact fun k hk => List.mem_cons_of_mem _ (hgiven k hk)
          · apply hstop
            · rw [Haul.refuse]
              split <;> rfl
            · rw [Haul.refuse]
              split <;> rfl
      · obtain ⟨again, given, hd, hs, hagain, hgiven, hrest⟩ := ih hns.2 c h
        exact ⟨again, given, hd, hs, fun d hd => List.mem_cons_of_mem n (hagain d hd),
          fun k hk => List.mem_cons_of_mem n (hgiven k hk), hrest⟩

/-! ## Going on -/

/-- What is handed out when a cursor passes over messages. -/
structure Passes (x : Index) (c : Cursor) (new : List Delivery) (c' : Cursor) : Prop where
  /-- What is handed out is what the consumer gets of the messages that were gone over. -/
  mem_iff : ∀ m, m ∈ new.map (·.message) ↔ x.get? m.sequence = some m ∧
    c.isEligible m.sequence m.subject = true ∧ c.nextSeq ≤ m.sequence ∧ m.sequence < c'.nextSeq
  /-- It comes in the order of the stream. -/
  ascending : new.Pairwise fun d e => d.sequence < e.sequence
  /-- Every delivery gets the next number of the consumer. -/
  consumerSeq_eq : new.map (·.consumerSeq) = List.range' (c.delivered.consumer + 1) new.length
  /-- It is the first one of its message. -/
  deliveries_eq : ∀ d ∈ new, d.deliveries = 1
  /-- The numbers of the consumer are counted. -/
  delivered_eq : c'.delivered.consumer = c.delivered.consumer + new.length
  /-- The cursor does not go back. -/
  nextSeq_le : c.nextSeq ≤ c'.nextSeq
  /-- It does not go on behind the last message. -/
  le_nextSeq : c'.nextSeq ≤ max c.nextSeq (x.lastSeq + 1)

theorem Passes.mem (h : Passes x c new c') (hd : d ∈ new) :
    x.get? d.sequence = some d.message ∧ c.isEligible d.sequence d.message.subject = true ∧
      c.nextSeq ≤ d.sequence ∧ d.sequence < c'.nextSeq :=
  (h.mem_iff d.message).1 (List.mem_map_of_mem hd)

/-- What is new is behind all that the cursor has gone over. -/
theorem Passes.notMem (h : Passes x c new c') (hn : n < c.nextSeq) :
    n ∉ new.map Delivery.sequence := by
  intro hmem
  obtain ⟨d, hd, rfl⟩ := List.mem_map.1 hmem
  exact absurd (h.mem hd).2.2.1 (Nat.not_le_of_lt hn)

/-- What is handed out is decided by the places of the cursors. -/
theorem Passes.congr {c₁ c₂ : Cursor} (h : Passes x c₁ new c₂) (hc : c.SamePlace c₁)
    (hc' : c₂.SamePlace c') : Passes x c new c' where
  mem_iff m := by
    rw [h.mem_iff, hc.sameChoice.isEligible_eq, hc.nextSeq, hc'.nextSeq]
  ascending := h.ascending
  consumerSeq_eq := by rw [h.consumerSeq_eq, hc.delivered]
  deliveries_eq := h.deliveries_eq
  delivered_eq := by rw [hc'.delivered, h.delivered_eq, hc.delivered]
  nextSeq_le := hc'.nextSeq ▸ hc.nextSeq ▸ h.nextSeq_le
  le_nextSeq := hc'.nextSeq ▸ hc.nextSeq ▸ h.le_nextSeq

/-- A cursor goes on over messages and hands out those that its consumer gets. -/
structure Advances (x : Index) (now : Instant) (c : Cursor) (new : List Delivery)
    (c' : Cursor) : Prop extends Passes x c new c' where
  /-- What is handed out is pending, if it is to be acknowledged. -/
  pending_new : c.settings.ackPolicy ≠ .none → ∀ d ∈ new,
    c'.pending.get? d.sequence = some ⟨d.consumerSeq, d.deliveries, c.redeliveryAt now⟩
  /-- All else is pending as before. -/
  pending_eq : ∀ n, c.settings.ackPolicy = .none ∨ n ∉ new.map Delivery.sequence →
    c'.pending.get? n = c.pending.get? n
  /-- The settings stay. -/
  settings_eq : c'.settings = c.settings
  /-- The consumer gets the same messages. -/
  sameChoice : c.SameChoice c'

namespace Advances

/-- A cursor that has looked at the numbers up to another one, where nothing is for its consumer. -/
theorem skip {next : Nat} (hle : c.nextSeq ≤ next) (hlast : next ≤ max c.nextSeq (x.lastSeq + 1))
    (hnone : ∀ m, x.get? m.sequence = some m → c.isEligible m.sequence m.subject = true →
      ¬(c.nextSeq ≤ m.sequence ∧ m.sequence < next)) :
    Advances x now c [] { c with nextSeq := next } where
  mem_iff m := by
    constructor
    · intro hm
      cases hm
    · rintro ⟨hm, heligible, hbetween⟩
      exact absurd hbetween (hnone m hm heligible)
  ascending := List.Pairwise.nil
  consumerSeq_eq := rfl
  deliveries_eq _ hd := nomatch hd
  delivered_eq := rfl
  nextSeq_le := hle
  le_nextSeq := hlast
  pending_new _ _ hd := nomatch hd
  pending_eq _ _ := rfl
  settings_eq := rfl
  sameChoice := ⟨rfl, rfl, rfl⟩

theorem refl (x : Index) (now : Instant) (c : Cursor) : Advances x now c [] c :=
  skip (Nat.le_refl _) (Nat.le_max_left _ _) (by omega)

/-- Two stretches are one. -/
theorem trans (h : Advances x now c new c') (h' : Advances x now c' new' c'') :
    Advances x now c (new ++ new') c'' where
  mem_iff m := by
    have hle := h.nextSeq_le
    have hle' := h'.nextSeq_le
    rw [List.map_append, List.mem_append, h.mem_iff, h'.mem_iff, h.sameChoice.isEligible_eq]
    constructor
    · rintro (⟨hm, he, hl, hr⟩ | ⟨hm, he, hl, hr⟩)
      · exact ⟨hm, he, hl, by omega⟩
      · exact ⟨hm, he, by omega, hr⟩
    · rintro ⟨hm, he, hl, hr⟩
      rcases Nat.lt_or_ge m.sequence c'.nextSeq with hlt | hge
      · exact .inl ⟨hm, he, hl, hlt⟩
      · exact .inr ⟨hm, he, hge, hr⟩
  ascending := by
    refine List.pairwise_append.2 ⟨h.ascending, h'.ascending, ?_⟩
    intro d hd e he
    exact Nat.lt_of_lt_of_le (h.mem hd).2.2.2 (h'.mem he).2.2.1
  consumerSeq_eq := by
    rw [List.map_append, h.consumerSeq_eq, h'.consumerSeq_eq, h.delivered_eq, List.length_append,
      Nat.add_right_comm, List.range'_append_1]
  deliveries_eq d hd := (List.mem_append.1 hd).elim (h.deliveries_eq d) (h'.deliveries_eq d)
  delivered_eq := by
    rw [h'.delivered_eq, h.delivered_eq, List.length_append, Nat.add_assoc]
  nextSeq_le := Nat.le_trans h.nextSeq_le h'.nextSeq_le
  le_nextSeq := by
    have hle := h.le_nextSeq
    have hle' := h'.le_nextSeq
    omega
  pending_new hacks d hd := by
    have hacks' : c'.settings.ackPolicy ≠ .none := h.settings_eq ▸ hacks
    rcases List.mem_append.1 hd with hd | hd
    · -- The second stretch is behind what the first one has handed out.
      rw [h'.pending_eq d.sequence (.inr ?_), h.pending_new hacks d hd]
      intro hmem
      obtain ⟨e, he, heq⟩ := List.mem_map.1 hmem
      have hlt := (h.mem hd).2.2.2
      have hge := (h'.mem he).2.2.1
      omega
    · rw [h'.pending_new hacks' d hd, redeliveryAt, h.settings_eq, redeliveryAt]
  pending_eq n hn := by
    rw [List.map_append, List.mem_append, not_or] at hn
    rw [h'.pending_eq n (hn.imp (fun hnone => h.settings_eq ▸ hnone) (·.2)),
      h.pending_eq n (hn.imp_right (·.1))]
  settings_eq := h'.settings_eq.trans h.settings_eq
  sameChoice := h.sameChoice.trans h'.sameChoice

end Advances

/-- The next message that the consumer gets is handed out. -/
theorem advances_deliver (hx : x.Filed) {ms : List StoredMessage} (h : Ahead x c (m :: ms))
    (heligible : c.isEligible m.sequence m.subject = true) (now : Instant) :
    Advances x now c [⟨m, (c.deliver now m.sequence).delivered.consumer, 1⟩]
      (c.deliver now m.sequence) where
  mem_iff w := by
    obtain ⟨hm, hle⟩ := h.mem m List.mem_cons_self
    rw [nextSeq_deliver]
    constructor
    · intro hw
      obtain rfl : w = m := by simpa using hw
      exact ⟨hm, heligible, hle, Nat.lt_succ_self _⟩
    · rintro ⟨hw, he, hl, hlt⟩
      rcases h.eq_or_lt hx hw he hl with heq | hgt
      · rw [heq, hm] at hw
        cases hw
        exact List.mem_cons_self
      · omega
  ascending := List.pairwise_singleton ..
  consumerSeq_eq := by
    simp only [deliver]
    split <;> rfl
  deliveries_eq d hd := by rw [List.mem_singleton.1 hd]
  delivered_eq := by
    simp only [deliver]
    split <;> rfl
  nextSeq_le := by
    rw [nextSeq_deliver]
    exact Nat.le_succ_of_le (h.mem m List.mem_cons_self).2
  le_nextSeq := by
    have hle := hx.le_lastSeq (h.mem m List.mem_cons_self).1
    rw [nextSeq_deliver]
    omega
  pending_new hacks d hd := by
    rw [List.mem_singleton.1 hd]
    simp only [deliver, if_neg hacks]
    rw [SeqMap.get?_insert, if_pos rfl]
    rfl
  pending_eq n hn := by
    simp only [deliver]
    split
    · rfl
    · next hacks =>
      have hne : n ≠ m.sequence := by simpa using hn.resolve_left hacks
      rw [SeqMap.get?_insert, if_neg hne]
  settings_eq := by
    simp only [deliver]
    split <;> rfl
  sameChoice := sameChoice_deliver c now m.sequence

/-- A pull that came to its end at a cursor has not come to its limits: it may have more, more may
be pending, and what the consumer is still to get has room. -/
structure HasRoom (x : Index) (l : Limits) (c : Cursor) (h : Haul) : Prop where
  /-- The pull has not all messages that it may have. -/
  isReached_eq : l.isReached h = false
  /-- More deliveries may be pending. -/
  isBlocked_eq : c.isBlocked = false
  /-- No message was found that has no room at all. -/
  oversized_eq : h.oversized = none
  /-- Any message that is left would fit. -/
  fits_eq : ∀ m, x.get? m.sequence = some m → c.isEligible m.sequence m.subject = true →
    c.nextSeq ≤ m.sequence → l.fits h m.size = true

/-- **What is new is handed out in order**, and where the limits of the pull are not come to, the
cursor has gone over all messages. -/
theorem advances_deliverNew (hx : x.Filed) (l : Limits) (now : Instant) (ms : List StoredMessage)
    (c : Cursor) (h : Haul) (hahead : Ahead x c ms) :
    ∃ new, (deliverNew x l now ms c h).2.deliveries = h.deliveries ++ new ∧
      (deliverNew x l now ms c h).2.settled = h.settled ++
        (if c.settings.ackPolicy = .none then new.map Delivery.sequence else []) ∧
      Advances x now c new (deliverNew x l now ms c h).1 ∧
      (HasRoom x l (deliverNew x l now ms c h).1 (deliverNew x l now ms c h).2 →
        x.lastSeq < (deliverNew x l now ms c h).1.nextSeq) := by
  -- At the limits nothing more is handed out.
  have hlimit (c : Cursor) (h : Haul) (hlimit : (l.isReached h || c.isBlocked) = true) :
      HasRoom x l c h → x.lastSeq < c.nextSeq := by
    intro hroom
    rw [hroom.isReached_eq, hroom.isBlocked_eq] at hlimit
    cases hlimit
  have hstop (c : Cursor) (h h' : Haul) (hd : h'.deliveries = h.deliveries)
      (hs : h'.settled = h.settled) (hroom : HasRoom x l c h' → x.lastSeq < c.nextSeq) :
      ∃ new, h'.deliveries = h.deliveries ++ new ∧ h'.settled = h.settled ++
        (if c.settings.ackPolicy = .none then new.map Delivery.sequence else []) ∧
        Advances x now c new c ∧ (HasRoom x l c h' → x.lastSeq < c.nextSeq) :=
    ⟨[], by rw [hd, List.append_nil], by simp [hs], .refl x now c, hroom⟩
  induction ms generalizing c h with
  | nil =>
    rw [deliverNew]
    split
    · next hfull => exact hstop c h h rfl rfl (hlimit c h hfull)
    · -- Nothing is ahead, so the cursor goes on behind the last number.
      refine ⟨[], (List.append_nil _).symm, by simp, .skip (Nat.le_max_left _ _) (Nat.le_refl _) ?_,
        fun _ => Nat.lt_of_succ_le (Nat.le_max_right _ _)⟩
      rintro m hm heligible ⟨hle, -⟩
      exact absurd (hahead.complete hm heligible hle) List.not_mem_nil
  | cons m ms ih =>
    rw [deliverNew]
    split
    · next hfull => exact hstop c h h rfl rfl (hlimit c h hfull)
    · split
      · next hskip => exact ih c h (hahead.skip hx (by simpa using hskip))
      · next heligible =>
        have heligible : c.isEligible m.sequence m.subject = true := by simpa using heligible
        split
        · obtain ⟨new, hd, hs, hrest, hroom⟩ := ih (c.deliver now m.sequence)
            (if c.settings.ackPolicy = .none then
              (h.add ⟨m, (c.deliver now m.sequence).delivered.consumer, 1⟩).settle m.sequence
             else h.add ⟨m, (c.deliver now m.sequence).delivered.consumer, 1⟩)
            (hahead.deliver hx now)
          have hfirst := advances_deliver hx hahead heligible now
          refine ⟨_, ?_, ?_, hfirst.trans hrest, hroom⟩
          · rw [hd]
            split <;> exact List.append_assoc ..
          · rw [hs, hfirst.settings_eq]
            split
            · exact List.append_assoc ..
            · rfl
        · next hfits =>
          apply hstop
          · rw [Haul.refuse]
            split <;> rfl
          · rw [Haul.refuse]
            split <;> rfl
          · intro hroom
            -- The message that has no room is the one that is next.
            obtain ⟨hm, hle⟩ := hahead.mem m List.mem_cons_self
            have hfits' := hroom.fits_eq m hm heligible hle
            rw [Haul.refuse] at hfits'
            split at hfits' <;> exact absurd hfits' hfits

/-! ## Collecting -/

/-- What is pending and was removed is forgotten. -/
theorem get?_pending_dropRemoved (c : Cursor) (x : Index) (n : Nat) :
    (c.dropRemoved x).pending.get? n = if x.contains n = true then c.pending.get? n else none := by
  have hkept : (c.pending.filter fun k _ => x.contains k).get? n =
      if x.contains n = true then c.pending.get? n else none := by
    rw [SeqMap.get?_filter]
    cases c.pending.get? n <;> by_cases h : x.contains n = true <;> simp [h]
  rw [dropRemoved]
  split
  · next hsize => rw [← hkept, SeqMap.filter_eq_of_size hsize]
  · exact hkept

/-- What is pending then is there. -/
theorem contains_of_pending_dropRemoved (hn : (c.dropRemoved x).pending.contains n = true) :
    x.contains n = true := by
  rw [SeqMap.contains, get?_pending_dropRemoved] at hn
  split at hn
  · next hx => exact hx
  · cases hn

theorem samePlace_dropRemoved (c : Cursor) (x : Index) : c.SamePlace (c.dropRemoved x) := by
  rw [dropRemoved]
  split <;> exact ⟨rfl, rfl, rfl, rfl, rfl⟩

/-- A delivery is due, and was made as often as is allowed. -/
def IsSpent (c : Cursor) (now : Instant) (n : Nat) : Prop :=
  ∃ p most, c.pending.get? n = some p ∧ p.deadline ≤ now ∧ c.settings.maxDeliver = some most ∧
    most ≤ p.deliveries

theorem isExhausted_iff (c : Cursor) (p : PendingDelivery) :
    c.isExhausted p = true ↔ ∃ most, c.settings.maxDeliver = some most ∧ most ≤ p.deliveries := by
  rw [isExhausted]
  cases c.settings.maxDeliver <;> simp

theorem nodup_due (c : Cursor) (now : Instant) : (c.due now).Nodup := SeqMap.keys_nodup _

theorem mem_due_iff (c : Cursor) (now : Instant) (n : Nat) :
    n ∈ c.due now ↔ ∃ p, c.pending.get? n = some p ∧ p.deadline ≤ now := by
  rw [due, SeqMap.mem_keys_iff, SeqMap.contains_iff]
  simp only [SeqMap.get?_filter, Option.filter_eq_some_iff, decide_eq_true_eq]

/-- A cursor hands out some deliveries again and others for the first time, and gives up some. -/
structure Hands (x : Index) (now : Instant) (c : Cursor) (again new : List Delivery)
    (given : List Nat) (c' : Cursor) : Prop where
  /-- What is handed out again was pending and due, and may be delivered once more. -/
  of_again : ∀ d ∈ again, x.get? d.sequence = some d.message ∧ ∃ p,
    c.pending.get? d.sequence = some p ∧ p.deadline ≤ now ∧ c.isExhausted p = false ∧
      d.consumerSeq = p.consumerSeq ∧ d.deliveries = p.deliveries + 1
  /-- What is given up was due and delivered as often as is allowed. -/
  of_given : ∀ n ∈ given, c.IsSpent now n
  /-- The rest is new. -/
  passes : Passes x c new c'
  /-- No message is handed out twice. -/
  nodup : ((again ++ new).map Delivery.sequence).Nodup
  /-- What is handed out again is pending again. -/
  pending_again : ∀ d ∈ again,
    c'.pending.get? d.sequence = some ⟨d.consumerSeq, d.deliveries, c.redeliveryAt now⟩
  /-- What is new is pending, if it is to be acknowledged. -/
  pending_new : c.settings.ackPolicy ≠ .none → ∀ d ∈ new,
    c'.pending.get? d.sequence = some ⟨d.consumerSeq, d.deliveries, c.redeliveryAt now⟩
  /-- What is given up is not pending any more. -/
  pending_given : ∀ n ∈ given, c'.pending.get? n = none
  /-- All else is pending as before, as long as it is there. -/
  pending_eq : ∀ n, n ∉ again.map Delivery.sequence → n ∉ given →
    (c.settings.ackPolicy = .none ∨ n ∉ new.map Delivery.sequence) →
      c'.pending.get? n = if x.contains n = true then c.pending.get? n else none
  /-- The settings stay. -/
  settings_eq : c'.settings = c.settings
  /-- The consumer gets the same messages. -/
  sameChoice : c.SameChoice c'

namespace Hands

/-- What is pending was handed out now, or it was pending before and is still there. -/
theorem pending_cases (h : Hands x now c again new given c')
    (hlt : ∀ {n}, c.pending.contains n = true → n < c.nextSeq) {q : PendingDelivery}
    (hq : c'.pending.get? n = some q) : n ∉ given ∧
      ((∃ d ∈ again ++ new, d.sequence = n ∧ (c.settings.ackPolicy = .none → d ∈ again) ∧
          q = ⟨d.consumerSeq, d.deliveries, c.redeliveryAt now⟩) ∨
        n ∉ (again ++ new).map Delivery.sequence ∧ c.pending.get? n = some q ∧
          x.contains n = true) := by
  have hgiven : n ∉ given := fun hmem => by
    rw [h.pending_given n hmem] at hq
    cases hq
  refine ⟨hgiven, ?_⟩
  have hold (hagain : n ∉ again.map Delivery.sequence)
      (hnew : c.settings.ackPolicy = .none ∨ n ∉ new.map Delivery.sequence) :
      c.pending.get? n = some q ∧ x.contains n = true := by
    rw [h.pending_eq n hagain hgiven hnew] at hq
    split at hq
    · next hx => exact ⟨hq, hx⟩
    · cases hq
  by_cases hagain : n ∈ again.map Delivery.sequence
  · obtain ⟨d, hd, rfl⟩ := List.mem_map.1 hagain
    rw [h.pending_again d hd, Option.some.injEq] at hq
    exact .inl ⟨d, List.mem_append_left _ hd, rfl, fun _ => hd, hq.symm⟩
  · by_cases hnew : n ∈ new.map Delivery.sequence
    · obtain ⟨d, hd, rfl⟩ := List.mem_map.1 hnew
      by_cases hnone : c.settings.ackPolicy = .none
      · -- Without acknowledgements it would have been pending before.
        have hp := (hold hagain (.inl hnone)).1
        exact absurd hnew (h.passes.notMem (hlt (SeqMap.contains_iff.2 ⟨q, hp⟩)))
      · rw [h.pending_new hnone d hd, Option.some.injEq] at hq
        exact .inl ⟨d, List.mem_append_right _ hd, rfl, fun h => absurd h hnone, hq.symm⟩
    · rw [List.map_append, List.mem_append, not_or]
      exact .inr ⟨⟨hagain, hnew⟩, hold hagain (.inr hnew)⟩

end Hands

section Walks

variable {c₀ c₁ c₂ : Cursor} (hlt : ∀ {n}, c.pending.contains n = true → n < c.nextSeq)
  (hplace₀ : c.SamePlace c₀)
  (hpending₀ : ∀ n, c₀.pending.get? n = if x.contains n = true then c.pending.get? n else none)
  (hagain : ∀ d ∈ again, d.sequence ∈ c₀.due now) (hgiven : ∀ n ∈ given, n ∈ c₀.due now)
  (h : Redelivers x now c₀ again given c₁) (h' : Advances x now c₁ new c₂)
  (hplace : c₂.SamePlace c') (hpending : c'.pending = c₂.pending)

include hpending₀ in
/-- What is pending and was not removed was pending before. -/
theorem pending_of_left {n : Nat} {p : PendingDelivery} (hp : c₀.pending.get? n = some p) :
    c.pending.get? n = some p := by
  rw [hpending₀] at hp
  split at hp
  · exact hp
  · cases hp

include hpending₀ in
theorem exists_due (hn : n ∈ c₀.due now) {p : PendingDelivery} (hp : c₀.pending.get? n = some p) :
    c.pending.get? n = some p ∧ p.deadline ≤ now := by
  obtain ⟨q, hq, hdue⟩ := (mem_due_iff ..).1 hn
  rw [hp, Option.some.injEq] at hq
  exact ⟨pending_of_left hpending₀ hp, hq ▸ hdue⟩

include hlt hplace₀ hpending₀ hagain hgiven h h' hplace hpending

/-- A cursor that repeats what is due and then goes on has handed out. -/
theorem hands_of_walks : Hands x now c again new given c' := by
  have hplace₁ := hplace₀.trans h.samePlace
  have hpasses : Passes x c new c' := h'.toPasses.congr hplace₁ hplace
  have hnew {n : Nat} (hn : c.pending.contains n = true) : n ∉ new.map Delivery.sequence :=
    hpasses.notMem (hlt hn)
  have hpended {d : Delivery} (hd : d ∈ again) : c.pending.contains d.sequence = true := by
    obtain ⟨-, p, hp, -⟩ := h.of_again d hd
    exact SeqMap.contains_iff.2 ⟨p, pending_of_left hpending₀ hp⟩
  have hpended' {n : Nat} (hn : n ∈ given) : c.pending.contains n = true := by
    obtain ⟨p, hp, -⟩ := h.of_given n hn
    exact SeqMap.contains_iff.2 ⟨p, pending_of_left hpending₀ hp⟩
  exact {
    passes := hpasses
    of_again := by
      intro d hd
      obtain ⟨hm, p, hp, hexhausted, hseq⟩ := h.of_again d hd
      obtain ⟨hp, hdue⟩ := exists_due hpending₀ (hagain d hd) hp
      exact ⟨hm, p, hp, hdue, (hplace₀.isExhausted_eq p).symm.trans hexhausted, hseq⟩
    of_given := by
      intro n hn
      obtain ⟨p, hp, hexhausted⟩ := h.of_given n hn
      obtain ⟨hp, hdue⟩ := exists_due hpending₀ (hgiven n hn) hp
      rw [hplace₀.isExhausted_eq, isExhausted_iff] at hexhausted
      obtain ⟨most, hmost, hle⟩ := hexhausted
      exact ⟨p, most, hp, hdue, hmost, hle⟩
    nodup := by
      rw [List.map_append, List.nodup_append]
      refine ⟨h.nodup, ?_, ?_⟩
      · exact List.pairwise_map.2 (hpasses.ascending.imp fun hlt => Nat.ne_of_lt hlt)
      · rintro n hn k hk rfl
        obtain ⟨d, hd, rfl⟩ := List.mem_map.1 hn
        exact hnew (hpended hd) hk
    pending_again := by
      intro d hd
      rw [hpending, h'.pending_eq _ (.inr (hnew (hpended hd))), h.pending_again d hd,
        hplace₀.redeliveryAt_eq]
    pending_new := by
      intro hacks d hd
      rw [hpending, h'.pending_new (hplace₁.settings.symm ▸ hacks) d hd, hplace₁.redeliveryAt_eq]
    pending_given := by
      intro n hn
      rw [hpending, h'.pending_eq n (.inr (hnew (hpended' hn))), h.pending_given n hn]
    pending_eq := by
      intro n hn hn' hn''
      rw [hpending, h'.pending_eq n (hn''.imp_left fun hnone => hplace₁.settings ▸ hnone),
        h.pending_eq n hn hn', hpending₀]
    settings_eq := by
      rw [hplace.settings, h'.settings_eq, hplace₁.settings]
    sameChoice := hplace₁.sameChoice.trans (h'.sameChoice.trans hplace.sameChoice) }

end Walks

theorem samePlace_advanceFloor (c : Cursor) : c.SamePlace c.advanceFloor :=
  ⟨rfl, rfl, rfl, rfl, rfl⟩

/-- Whether a pull could go on is decided by the place of the cursor and what is pending. -/
theorem HasRoom.congr {l : Limits} {h : Haul} (hroom : HasRoom x l c' h) (hplace : c.SamePlace c')
    (hpending : c'.pending = c.pending) : HasRoom x l c h where
  isReached_eq := hroom.isReached_eq
  isBlocked_eq := by
    rw [isBlocked, ← hplace.settings, ← hpending]
    exact hroom.isBlocked_eq
  oversized_eq := hroom.oversized_eq
  fits_eq m hm he hle := hroom.fits_eq m hm ((hplace.sameChoice.isEligible_eq ..).trans he)
    (hplace.nextSeq.symm ▸ hle)

/-- **What a cursor collects** is what is due, and then what is new.  If the pull did not come to
its limits, the cursor has gone over all messages. -/
theorem hands_collect (hx : x.Filed) (hlt : ∀ {n}, c.pending.contains n = true → n < c.nextSeq)
    (l : Limits) (now : Instant) :
    ∃ again new given, (c.collect x l now).2.deliveries = again ++ new ∧
      (c.collect x l now).2.settled = given ++
        (if c.settings.ackPolicy = .none then new.map Delivery.sequence else []) ∧
      Hands x now c again new given (c.collect x l now).1 ∧
      (HasRoom x l (c.collect x l now).1 (c.collect x l now).2 →
        x.lastSeq < (c.collect x l now).1.nextSeq) := by
  have hplace₀ : c.SamePlace { c.dropRemoved x with lastActive := now } :=
    (samePlace_dropRemoved c x).trans ⟨rfl, rfl, rfl, rfl, rfl⟩
  obtain ⟨again, given, hd, hs, hagain, hgiven, hrepeat⟩ := redelivers_redeliver hx l now
    (nodup_due { c.dropRemoved x with lastActive := now } now)
    { c.dropRemoved x with lastActive := now } {}
  have hdue : redeliver x l now (due { c.dropRemoved x with lastActive := now } now)
      { c.dropRemoved x with lastActive := now } {} = c.collectDue x l now := rfl
  rw [hdue] at hd hs hrepeat
  have hsettings := (hplace₀.trans hrepeat.samePlace).settings
  -- The floor is moved once in the end, which changes neither the place nor what is pending.
  have hfloor {c₂ : Cursor} {h : Haul} (new : List Delivery)
      (hd : h.deliveries = again ++ new) (hs : h.settled = given ++
        (if c.settings.ackPolicy = .none then new.map Delivery.sequence else []))
      (hnew : Advances x now (c.collectDue x l now).1 new c₂)
      (hroom : HasRoom x l c₂ h → x.lastSeq < c₂.nextSeq)
      (hcollect : c.collect x l now = (if h.settled.isEmpty then c₂ else c₂.advanceFloor, h)) :
      ∃ again new given, (c.collect x l now).2.deliveries = again ++ new ∧
        (c.collect x l now).2.settled = given ++
          (if c.settings.ackPolicy = .none then new.map Delivery.sequence else []) ∧
        Hands x now c again new given (c.collect x l now).1 ∧
        (HasRoom x l (c.collect x l now).1 (c.collect x l now).2 →
          x.lastSeq < (c.collect x l now).1.nextSeq) := by
    have hplace : c₂.SamePlace (c.collect x l now).1 ∧
        (c.collect x l now).1.pending = c₂.pending := by
      rw [hcollect]
      dsimp only
      split
      · exact ⟨.refl c₂, rfl⟩
      · exact ⟨samePlace_advanceFloor c₂, rfl⟩
    have hhaul : (c.collect x l now).2 = h := by rw [hcollect]
    refine ⟨again, new, given, hhaul ▸ hd, hhaul ▸ hs, ?_, ?_⟩
    · exact hands_of_walks hlt hplace₀ (get?_pending_dropRemoved c x) hagain hgiven hrepeat hnew
        hplace.1 hplace.2
    · intro hleft
      rw [hhaul] at hleft
      rw [hplace.1.nextSeq]
      exact hroom (hleft.congr hplace.1 hplace.2)
  by_cases hoversized : (c.collectDue x l now).2.oversized.isSome = true
  · -- A repeated delivery that has no room at all ends the pull.
    refine hfloor [] (by rw [hd]; simp) (by rw [hs]; simp) (.refl x now _) ?_ ?_
    · intro hroom
      rw [hroom.oversized_eq] at hoversized
      cases hoversized
    · simp only [collect, if_pos hoversized]
  · obtain ⟨new, hd', hs', hnew, hroom⟩ := advances_deliverNew hx l now _
      (c.collectDue x l now).1 (c.collectDue x l now).2 (ahead_startingAt hx _)
    refine hfloor new ?_ ?_ hnew hroom ?_
    · rw [hd', hd]
      rfl
    · rw [hs', hs, hsettings]
      rfl
    · simp only [collect, if_neg hoversized]

/-- What is handed out is there, whether for the first time or again. -/
theorem get?_of_mem_collect (hx : x.Filed) (c : Cursor) (l : Limits) (now : Instant) {d : Delivery}
    (hd : d ∈ (c.collect x l now).2.deliveries) : x.get? d.sequence = some d.message := by
  obtain ⟨again, given, hdue, -, -, -, hrepeat⟩ := redelivers_redeliver hx l now
    (nodup_due { c.dropRemoved x with lastActive := now } now)
    { c.dropRemoved x with lastActive := now } {}
  have hdue : (c.collectDue x l now).2.deliveries = again := hdue
  simp only [collect] at hd
  split at hd
  · rw [hdue] at hd
    exact (hrepeat.of_again d hd).1
  · obtain ⟨new, hnew, -, hadvances, -⟩ := advances_deliverNew hx l now _
      (c.collectDue x l now).1 (c.collectDue x l now).2 (ahead_startingAt hx _)
    rw [hnew, hdue, List.mem_append] at hd
    exact hd.elim (fun hd => (hrepeat.of_again d hd).1) fun hd => (hadvances.mem hd).1

/-- What is pending behind a pull is there: what is gone was forgotten. -/
theorem contains_of_pending_collect (hx : x.Filed)
    (hlt : ∀ {n}, c.pending.contains n = true → n < c.nextSeq) (l : Limits) (now : Instant)
    (hn : (c.collect x l now).1.pending.contains n = true) : x.contains n = true := by
  obtain ⟨again, new, given, hd, -, hhands, -⟩ := hands_collect hx hlt l now
  obtain ⟨q, hq⟩ := SeqMap.contains_iff.1 hn
  obtain ⟨-, ⟨d, hmem, rfl, -⟩ | ⟨-, -, hthere⟩⟩ := hhands.pending_cases hlt hq
  · rw [← hd] at hmem
    exact Index.contains_iff.2 ⟨_, get?_of_mem_collect hx c l now hmem⟩
  · exact hthere

/-! ## Acknowledging -/

theorem samePlace_acknowledge (c : Cursor) (n : Nat) (kind : AckKind) (now : Instant) :
    c.SamePlace (c.acknowledge n kind now).2 := by
  simp only [acknowledge, settle]
  split <;> exact ⟨rfl, rfl, rfl, rfl, rfl⟩

/-- What is settled is not pending any more, and what is put off is pending until another time. -/
theorem get?_pending_acknowledge (c : Cursor) (n k : Nat) (kind : AckKind) (now : Instant) :
    (c.acknowledge n kind now).2.pending.get? k =
      if k ∈ c.settledBy n kind then none
      else match c.newDeadline now kind with
        | some deadline =>
          if k = n then (c.pending.get? k).map ({ · with deadline }) else c.pending.get? k
        | none => c.pending.get? k := by
  -- What is settled is taken out first, so nothing that is settled is put off.
  have hpending : (c.acknowledge n kind now).2.pending =
      match c.newDeadline now kind with
      | some deadline =>
        ((c.settledBy n kind).foldl SeqMap.erase c.pending).modify n ({ · with deadline })
      | none => (c.settledBy n kind).foldl SeqMap.erase c.pending := by
    simp only [acknowledge, settle]
    split <;> rfl
  rw [hpending]
  cases c.newDeadline now kind with
  | none => exact SeqMap.get?_foldl_erase ..
  | some deadline =>
    dsimp only
    rw [SeqMap.get?_modify, SeqMap.get?_foldl_erase]
    by_cases hmem : k ∈ c.settledBy n kind
    · simp only [if_pos hmem, Option.map_none, ite_self]
    · simp only [if_neg hmem]

end Cursor

end StreamBroker
