import Mathlib.Data.List.Nodup
import StreamBroker.Json.Record
import StreamBroker.Proofs.Except

/-!
# Records are read back

A record is read from the object that has a member for each of its fields, in their order.  Every
field is found by its name, whatever stands around it, so a combination of fields is read when its
parts are.

## Main definitions

* `Json.RecordDecoder.Reads`: members with the names of the fields, from which a value is read

## Main results

* `Json.RecordDecoder.Reads.record`: a record is read from the object of its members
* `Json.RecordDecoder.exists_run_of_record`: what is read as a record was read from some fields
-/

namespace StreamBroker.Json

variable {α β : Type} {a : α} {name : String} {v : Json} {f : Decoder α}
  {ms ns : List (String × Json)}

/-! ## Fields -/

/-- A field is found whose name no other field has. -/
theorem Fields.find?_of_mem {fields : Fields} (hnodup : (fields.members.map (·.1)).Nodup)
    {m : String × Json} (hm : m ∈ fields.members) :
    ∃ place, fields.find? m.1 = some (place, m.2) := by
  obtain ⟨i, hi⟩ := List.mem_iff_getElem?.1 hm
  have hsome : (fields.members.zipIdx.find? fun n => n.1.1 == m.1).isSome = true := by
    rw [List.find?_isSome]
    exact ⟨(m, i), List.mk_mem_zipIdx_iff_getElem?.2 hi, beq_self_eq_true _⟩
  obtain ⟨⟨n, j⟩, hn⟩ := Option.isSome_iff_exists.1 hsome
  have hname : n.1 = m.1 := by
    simpa using List.find?_some hn
  have hmem : n ∈ fields.members :=
    List.mem_iff_getElem?.2 ⟨j, List.mk_mem_zipIdx_iff_getElem?.1 (List.mem_of_find?_eq_some hn)⟩
  have heq : n = m := List.inj_on_of_nodup_map hnodup hmem hm hname
  refine ⟨j, ?_⟩
  rw [Fields.find?, hn, heq]
  rfl

/-- Nothing is repeated among fields of different names. -/
theorem Fields.repetition?_eq_none {fields : Fields}
    (hnodup : (fields.members.map (·.1)).Nodup) : fields.repetition? = none := by
  have hnone : ((fields.members.map (·.1)).zipIdx.find? fun m =>
      ((fields.members.map (·.1)).take m.2).contains m.1) = none := by
    rw [List.find?_eq_none]
    rintro ⟨name, i⟩ hname hcontains
    have hi := List.mk_mem_zipIdx_iff_getElem?.1 hname
    obtain ⟨j, hj⟩ := List.mem_iff_getElem?.1 (List.contains_iff_mem.1 hcontains)
    rw [List.getElem?_take] at hj
    split at hj
    · next hlt =>
      have hlength := (List.getElem?_eq_some_iff.1 hj).1
      have := (List.getElem?_inj hlength hnodup).1 (hj.trans hi.symm)
      omega
    · cases hj
  rw [Fields.repetition?, hnone]
  rfl

namespace RecordDecoder

/-- Members that have the names of the fields and from which a value is read, wherever they
stand. -/
structure Reads (d : RecordDecoder α) (ms : List (String × Json)) (a : α) : Prop where
  /-- The members have the names of the fields. -/
  names_eq : ms.map (·.1) = d.names
  /-- The value is read where the members are found. -/
  run_eq : ∀ fields : Fields, (∀ m ∈ ms, ∃ place, fields.find? m.1 = some (place, m.2)) →
    d.run fields = .ok a

theorem reads_pure (a : α) : (pure a : RecordDecoder α).Reads [] a :=
  ⟨rfl, fun _ _ => rfl⟩

/-- Two parts of a record are read from the members of both. -/
theorem Reads.seq {d : RecordDecoder (α → β)} {e : RecordDecoder α} {g : α → β}
    (hd : d.Reads ms g) (he : e.Reads ns a) : (d <*> e).Reads (ms ++ ns) (g a) where
  names_eq := by rw [List.map_append, hd.names_eq, he.names_eq, names_seq]
  run_eq fields hfields := by
    have hdrun := hd.run_eq fields fun m hm => hfields m (List.mem_append_left _ hm)
    have herun := he.run_eq fields fun m hm => hfields m (List.mem_append_right _ hm)
    show (RecordDecoder.seq d e).run fields = _
    rw [RecordDecoder.seq]
    dsimp only
    rw [hdrun, herun]

theorem Reads.map {e : RecordDecoder α} (he : e.Reads ms a) (g : α → β) :
    (g <$> e).Reads ms (g a) :=
  (reads_pure g).seq he

theorem reads_required (h : f v = .ok a) : (required name f).Reads [(name, v)] a where
  names_eq := rfl
  run_eq fields hfields := by
    obtain ⟨place, hfind⟩ := hfields _ (List.mem_singleton_self _)
    simp only [required, hfind, h]
    rfl

theorem reads_defaulted {value : α} (h : f v = .ok a) :
    (defaulted name f value).Reads [(name, v)] a where
  names_eq := rfl
  run_eq fields hfields := by
    obtain ⟨place, hfind⟩ := hfields _ (List.mem_singleton_self _)
    simp only [defaulted, hfind, h]
    rfl

theorem reads_nullable {a : Option α} (h : f.option v = .ok a) :
    (nullable name f).Reads [(name, v)] a where
  names_eq := rfl
  run_eq fields hfields := by
    obtain ⟨place, hfind⟩ := hfields _ (List.mem_singleton_self _)
    simp only [nullable, hfind, h]
    rfl

/-- **A record is read from the object of its members.** -/
theorem Reads.record {d : RecordDecoder α} (h : d.Reads ms a) (hnodup : d.names.Nodup) :
    Json.record d (.obj ms) = .ok a := by
  have hall : (ms.filter fun m => d.names.contains m.1) = ms := by
    rw [List.filter_eq_self]
    intro m hm
    rw [List.contains_iff_mem, ← h.names_eq]
    exact List.mem_map_of_mem hm
  rw [← h.names_eq] at hnodup
  have hrun := h.run_eq ⟨ms, false⟩ fun m hm => Fields.find?_of_mem hnodup hm
  have hrepetition : (Fields.mk ms false).repetition? = none := Fields.repetition?_eq_none hnodup
  rw [Json.record, hall, hrun, hrepetition]

/-! ## What was read -/

/-- What is read as a record was read from some fields. -/
theorem exists_run_of_record {d : RecordDecoder α} (h : Json.record d v = .ok a) :
    ∃ fields, d.run fields = .ok a := by
  cases v with
  | obj members =>
    simp only [Json.record] at h
    split at h
    · next hrun _ =>
      cases h
      exact ⟨_, hrun⟩
    · cases h
    · cases h
    · cases h
  | arr items =>
    rw [Json.record] at h
    obtain ⟨a', hrun, h⟩ := except_bind_eq_ok.1 h
    rw [except_mapError_eq_ok] at hrun
    split at h
    · cases h
    · cases h
      exact ⟨_, hrun⟩
  | null | bool | int | decimal | str | garbled => cases h

/-- Both parts of a record that was read were read. -/
theorem exists_run_of_seq {d : RecordDecoder (α → β)} {e : RecordDecoder α} {fields : Fields}
    {b : β} (h : (d <*> e).run fields = .ok b) :
    ∃ g a, d.run fields = .ok g ∧ e.run fields = .ok a ∧ g a = b := by
  have h : (RecordDecoder.seq d e).run fields = .ok b := h
  simp only [RecordDecoder.seq] at h
  split at h
  · next hd he =>
    cases h
    exact ⟨_, _, hd, he, rfl⟩
  all_goals cases h

theorem exists_run_of_map {e : RecordDecoder α} {g : α → β} {fields : Fields} {b : β}
    (h : (g <$> e).run fields = .ok b) : ∃ a, e.run fields = .ok a ∧ g a = b := by
  obtain ⟨g', a, hg, ha, rfl⟩ := exists_run_of_seq (d := RecordDecoder.pure g) h
  cases hg
  exact ⟨a, ha, rfl⟩

/-- A field that was read was read from a value. -/
theorem exists_of_run_required {fields : Fields} (h : (required name f).run fields = .ok a) :
    ∃ v, f v = .ok a := by
  simp only [required] at h
  split at h
  · next v _ => exact ⟨v, except_mapError_eq_ok.1 h⟩
  · cases h

end RecordDecoder

end StreamBroker.Json
