import StreamBroker.Settings.Consumer

/-!
# Which subjects patterns stand for

Whether a subject is among those of a pattern, and whether two patterns have a subject in common, is
decided token by token from the left, so what the comparisons have to do with each other is shown by
going through the tokens in the same way.

## Main results

* `subjectMatches_rest`: one pattern stands for all subjects
* `ConsumerSettings.gets_eq`: what a consumer gets, with or without a filter
* `patternsOverlap_of_subjectMatches`: patterns with a subject in common overlap
* `patternsOverlap_of_patternIsSubset`: patterns that have a pattern in common overlap
* `patternsOverlap_comm`: patterns overlap each other
* `checkDisjoint_eq_ok_iff`: lists of patterns that do not overlap
-/

namespace StreamBroker

variable {s p : Token} {ss ps qs : List Token}

/-- Every subject has a token. -/
theorem subjectMatches_rest (subject : String) : subjectMatches subject ">" = true := by
  rw [subjectMatches, show tokens ">" = [Token.rest] from rfl]
  cases h : tokens subject with
  | nil => exact absurd h (Token.split_ne_nil _)
  | cons t ts => simp [tokensMatch]

/-- Without a filter a consumer gets all subjects. -/
theorem ConsumerSettings.gets_eq (settings : ConsumerSettings) (subject : String) :
    settings.gets subject = subjectMatches subject (settings.filter.getD ">") := by
  rw [gets]
  cases settings.filter with
  | none => exact (subjectMatches_rest subject).symm
  | some filter => rfl

theorem tokensMatch_cons (h : tokensMatch (s :: ss) (p :: ps) = true) (hrest : p ≠ Token.rest) :
    (p = Token.star ∨ p = s) ∧ tokensMatch ss ps = true := by
  rw [tokensMatch, if_neg (by simpa using hrest)] at h
  split at h
  · next hstar => exact ⟨.inl (by simpa using hstar), h⟩
  · split at h
    · next heq => exact ⟨.inr (by simpa using heq), h⟩
    · cases h

theorem tokensOverlap_of_tokensMatch (hp : tokensMatch ss ps = true)
    (hq : tokensMatch ss qs = true) : tokensOverlap ps qs = true := by
  induction ss generalizing ps qs with
  | nil =>
    cases ps with
    | nil =>
      cases qs with
      | nil => rfl
      | cons q qs => cases hq
    | cons p ps => cases hp
  | cons s ss ih =>
    cases ps with
    | nil => cases hp
    | cons p ps =>
      cases qs with
      | nil => cases hq
      | cons q qs =>
        rw [tokensOverlap]
        split
        · rfl
        · next hrest =>
          -- Neither token stands for the rest, so both stand for the first token of the subject.
          rw [Bool.or_eq_true, not_or, beq_iff_eq, beq_iff_eq] at hrest
          obtain ⟨hp, hps⟩ := tokensMatch_cons hp hrest.1
          obtain ⟨hq, hqs⟩ := tokensMatch_cons hq hrest.2
          split
          · exact ih hps hqs
          · next hstar =>
            rw [Bool.or_eq_true, not_or, beq_iff_eq, beq_iff_eq] at hstar
            have heq : p = q := (hp.resolve_left hstar.1).trans (hq.resolve_left hstar.2).symm
            rw [if_pos (beq_iff_eq.2 heq)]
            exact ih hps hqs

/-- **Patterns that stand for the same subject overlap.** -/
theorem patternsOverlap_of_subjectMatches {subject pattern other : String}
    (h : subjectMatches subject pattern = true) (h' : subjectMatches subject other = true) :
    patternsOverlap pattern other = true :=
  tokensOverlap_of_tokensMatch h h'

theorem tokensSubset_cons (h : tokensSubset (s :: ss) (p :: ps) = true) (hrest : p ≠ Token.rest) :
    s ≠ Token.rest ∧ (p = Token.star ∨ p = s) ∧ tokensSubset ss ps = true := by
  rw [tokensSubset, if_neg (by simpa using hrest)] at h
  split at h
  · cases h
  · next hs =>
    refine ⟨by simpa using hs, ?_⟩
    split at h
    · next hstar =>
      split at h
      · next hp => exact ⟨.inl (by simpa using hp), h⟩
      · cases h
    · split at h
      · next hp => exact ⟨.inl (by simpa using hp), h⟩
      · split at h
        · next heq => exact ⟨.inr (beq_iff_eq.1 heq).symm, h⟩
        · cases h

theorem tokensOverlap_of_tokensSubset (hp : tokensSubset ss ps = true)
    (hq : tokensSubset ss qs = true) : tokensOverlap ps qs = true := by
  induction ss generalizing ps qs with
  | nil =>
    cases ps with
    | nil =>
      cases qs with
      | nil => rfl
      | cons q qs => cases hq
    | cons p ps => cases hp
  | cons s ss ih =>
    cases ps with
    | nil => cases hp
    | cons p ps =>
      cases qs with
      | nil => cases hq
      | cons q qs =>
        rw [tokensOverlap]
        split
        · rfl
        · next hrest =>
          -- Neither token stands for the rest, so both cover the first token of the pattern.
          rw [Bool.or_eq_true, not_or, beq_iff_eq, beq_iff_eq] at hrest
          obtain ⟨-, hp, hps⟩ := tokensSubset_cons hp hrest.1
          obtain ⟨-, hq, hqs⟩ := tokensSubset_cons hq hrest.2
          split
          · exact ih hps hqs
          · next hstar =>
            rw [Bool.or_eq_true, not_or, beq_iff_eq, beq_iff_eq] at hstar
            have heq : p = q := (hp.resolve_left hstar.1).trans (hq.resolve_left hstar.2).symm
            rw [if_pos (beq_iff_eq.2 heq)]
            exact ih hps hqs

/-- **Patterns that stand for all subjects of one pattern overlap.** -/
theorem patternsOverlap_of_patternIsSubset {sub pattern other : String}
    (h : patternIsSubset sub pattern = true) (h' : patternIsSubset sub other = true) :
    patternsOverlap pattern other = true :=
  tokensOverlap_of_tokensSubset h h'

theorem tokensOverlap_comm (ps qs : List Token) : tokensOverlap ps qs = tokensOverlap qs ps := by
  induction ps generalizing qs with
  | nil => cases qs <;> rfl
  | cons p ps ih =>
    cases qs with
    | nil => rfl
    | cons q qs =>
      have heq : (p == q) = (q == p) := BEq.comm
      rw [tokensOverlap, tokensOverlap, Bool.or_comm (p == Token.rest),
        Bool.or_comm (p == Token.star), ih, heq]

/-- Patterns overlap each other. -/
theorem patternsOverlap_comm (a b : String) : patternsOverlap a b = patternsOverlap b a :=
  tokensOverlap_comm ..

/-- A list of patterns is accepted if no two of them overlap. -/
theorem checkDisjoint_eq_ok_iff {patterns : List String} : checkDisjoint patterns = .ok () ↔
    patterns.Pairwise fun a b => patternsOverlap a b = false := by
  induction patterns with
  | nil => exact ⟨fun _ => List.Pairwise.nil, fun _ => rfl⟩
  | cons a rest ih =>
    rw [checkDisjoint, List.pairwise_cons, ← ih]
    cases hfind : rest.find? (patternsOverlap a) with
    | none =>
      have hnone := List.find?_eq_none.1 hfind
      exact ⟨fun h => ⟨fun b hb => Bool.eq_false_iff.2 (hnone b hb), h⟩, fun h => h.2⟩
    | some b =>
      have hoverlap : patternsOverlap a b = true := by simpa using List.find?_some hfind
      constructor
      · intro h
        cases h
      · intro h
        rw [h.1 b (List.mem_of_find?_eq_some hfind)] at hoverlap
        cases hoverlap

end StreamBroker
