/-!
# Tokens of a dotted text

A subject is a text cut at its dots.  Every dot separates two tokens, so a text with `n` dots has
exactly `n + 1` tokens, some of them possibly empty, and the empty text has one empty token.

## Main definitions

* `Token`: the characters between two dots.
* `Token.split`: the tokens of a list of characters.
* `Token.join`: the text with given tokens.

## Main results

* `Token.join_split`: cutting loses nothing.
* `Token.split_join`: dot-free tokens are recovered from their joined text.
-/

namespace StreamBroker

/-- The characters between two dots of a subject. -/
abbrev Token := List Char

namespace Token

/-- The wildcard for exactly one token. -/
def star : Token := ['*']

/-- The wildcard for one or more trailing tokens. -/
def rest : Token := ['>']

def text (t : Token) : String := String.ofList t

/-- Puts a character in front of a cut text: a dot opens a new first token. -/
def consChar (c : Char) : List Token → List Token
  | [] => [[c]]
  | t :: ts => if c == '.' then [] :: t :: ts else (c :: t) :: ts

/-- The tokens of a text, in order: cut at every dot. -/
def split (cs : List Char) : List Token := cs.foldr consChar [[]]

/-- The text whose tokens are given, with one dot between neighbours. -/
def join : List Token → List Char
  | [] => []
  | [t] => t
  | t :: u :: ts => t ++ '.' :: join (u :: ts)

@[simp] theorem split_nil : split [] = [[]] := rfl

theorem split_cons (c : Char) (cs : List Char) : split (c :: cs) = consChar c (split cs) := rfl

theorem split_ne_nil (cs : List Char) : split cs ≠ [] := by
  cases cs with
  | nil => simp
  | cons c cs =>
    rw [split_cons]
    cases split cs with
    | nil => simp [consChar]
    | cons t ts =>
      rw [consChar]
      split <;> simp

theorem split_dot_cons (cs : List Char) : split ('.' :: cs) = [] :: split cs := by
  rw [split_cons]
  cases hs : split cs with
  | nil => exact absurd hs (split_ne_nil cs)
  | cons t ts => rfl

/-- Cutting at the dots and joining with dots gives the text back. -/
theorem join_split (cs : List Char) : join (split cs) = cs := by
  induction cs with
  | nil => rfl
  | cons c cs ih =>
    by_cases hc : c = '.'
    · subst hc
      rw [split_dot_cons]
      cases hs : split cs with
      | nil => exact absurd hs (split_ne_nil cs)
      | cons t ts => rw [hs] at ih; simp [join, ih]
    · rw [split_cons]
      cases hs : split cs with
      | nil => exact absurd hs (split_ne_nil cs)
      | cons t ts =>
        rw [hs] at ih
        cases ts with
        | nil => simpa [consChar, hc, join] using ih
        | cons u us => simpa [consChar, hc, join] using ih

/-- No token of a cut text holds a dot. -/
theorem dot_notMem_of_mem_split {cs : List Char} {t : Token} (h : t ∈ split cs) : '.' ∉ t := by
  induction cs generalizing t with
  | nil => simp at h; simp [h]
  | cons c cs ih =>
    by_cases hc : c = '.'
    · subst hc
      rw [split_dot_cons] at h
      rcases List.mem_cons.1 h with rfl | h
      · simp
      · exact ih h
    · rw [split_cons] at h
      cases hs : split cs with
      | nil => exact absurd hs (split_ne_nil cs)
      | cons u us =>
        rw [hs] at h ih
        simp only [consChar, beq_iff_eq, hc, if_false] at h
        rcases List.mem_cons.1 h with rfl | h
        · intro hm
          rcases List.mem_cons.1 hm with hm | hm
          · exact hc hm.symm
          · exact ih List.mem_cons_self hm
        · exact ih (List.mem_cons_of_mem _ h)

theorem split_of_dot_notMem {t : Token} (h : '.' ∉ t) : split t = [t] := by
  induction t with
  | nil => rfl
  | cons c cs ih =>
    have hc : c ≠ '.' := fun e => h (by simp [e])
    have hcs : '.' ∉ cs := fun m => h (List.mem_cons_of_mem _ m)
    simp [split_cons, consChar, hc, ih hcs]

theorem split_append_dot {t : Token} (h : '.' ∉ t) (cs : List Char) :
    split (t ++ '.' :: cs) = t :: split cs := by
  induction t with
  | nil => simp [split_dot_cons]
  | cons c t ih =>
    have hc : c ≠ '.' := fun e => h (by simp [e])
    have ht : '.' ∉ t := fun m => h (List.mem_cons_of_mem _ m)
    simp [split_cons, consChar, hc, ih ht]

/-- A non-empty list of dot-free tokens is what its joined text is cut into. -/
theorem split_join {ts : List Token} (hne : ts ≠ []) (h : ∀ t ∈ ts, '.' ∉ t) :
    split (join ts) = ts := by
  induction ts with
  | nil => exact absurd rfl hne
  | cons t ts ih =>
    cases ts with
    | nil => simpa [join] using split_of_dot_notMem (h t (by simp))
    | cons u us =>
      rw [join, split_append_dot (h t (by simp)), ih (by simp)]
      intro x hx
      exact h x (List.mem_cons_of_mem _ hx)

end Token

def tokens (s : String) : List Token := Token.split s.toList

end StreamBroker
