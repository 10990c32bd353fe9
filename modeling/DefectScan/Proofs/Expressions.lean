import DefectScan.Proofs.FirstOccurrence
import Mathlib.Data.List.Basic

/-!
# Regular expressions

An expression can match at a place of a text in several ways. They are listed in the order in which
they are preferred (`Expression.tries`): of two ways out the first is tried first, a greedy repetition
goes on as long as it can, and a lazy one stops as soon as it can. The first way is the match
(`Expression.matchAt`). Whatever is looked for in the list is looked for part by part,

    (both a b).first k s = a.first (b.first k) s

which is how a search goes back to the last choice when what follows fails.
-/

namespace DefectScan

open Text Pattern

inductive Expression
  | empty
  /-- A place with a word character on one side only. -/
  | boundary
  /-- One character of a class. -/
  | char (p : Char → Bool)
  | both (a b : Expression)
  /-- One or the other, rather the first. -/
  | either (a b : Expression)
  /-- Any number of times, as many as possible or as few. -/
  | many (greedy : Bool) (a : Expression)
  /-- What is matched is captured. -/
  | group (a : Expression)

namespace Expression

/-- How far a text has been read. -/
structure Progress where
  /-- The text behind, last character first. -/
  behind : List Char
  captured : List (List Char)
  rest : List Char

namespace Progress

def atBoundary (s : Progress) : Bool := s.behind.head?.any isWord != s.rest.head?.any isWord

/-- Captures what was read since an earlier place. -/
def capture (start s : Progress) : Progress :=
  { s with captured := s.captured ++ [start.rest.take (start.rest.length - s.rest.length)] }

theorem capture_append (behind before : List Char) (captured captured' : List (List Char))
    (done rest : List Char) :
    capture ⟨behind, captured, done ++ rest⟩ ⟨before, captured', rest⟩
      = ⟨before, captured' ++ [done], rest⟩ := by
  simp [capture]

end Progress

/-- The ways to repeat a step. Only a step that reads something is repeated. -/
def repeated (greedy : Bool) (step : Progress → List Progress) : Nat → Progress → List Progress
  | 0, s => [s]
  | n + 1, s =>
    let more := ((step s).filter (·.rest.length < s.rest.length)).flatMap (repeated greedy step n)
    if greedy then more ++ [s] else s :: more

/-- The ways to match an expression at a place, in the order in which they are preferred. -/
def tries : Expression → Progress → List Progress
  | empty, s => [s]
  | boundary, s => if s.atBoundary then [s] else []
  | char _, ⟨_, _, []⟩ => []
  | char p, ⟨behind, captured, c :: rest⟩ => if p c then [⟨c :: behind, captured, rest⟩] else []
  | both a b, s => (a.tries s).flatMap b.tries
  | either a b, s => a.tries s ++ b.tries s
  | many greedy a, s => repeated greedy a.tries s.rest.length s
  | group a, s => (a.tries s).map s.capture

/-- The match at a place between what stands behind and a text. -/
def matchAt (e : Expression) (behind text : List Char) : Option Hit :=
  (e.tries ⟨behind, [], text⟩).head?.map fun s => ⟨s.captured, s.rest⟩

/-- There is a match somewhere in a text. -/
def Matches (e : Expression) (text : List Char) : Prop :=
  ∃ pre post hit, text = pre ++ post ∧ e.matchAt pre.reverse post = some hit

/-- The leftmost match in a text. -/
structure Finds (e : Expression) (text before matched : List Char) (hit : Hit) : Prop where
  parts : text = before ++ (matched ++ hit.rest)
  matches_here : e.matchAt before.reverse (matched ++ hit.rest) = some hit
  none_before : ∀ pre post, text = pre ++ post → pre.length < before.length →
    e.matchAt pre.reverse post = none

/-! ## Searching the ways to match -/

/-- The first way to match that leads to an answer. -/
def first {α : Type} (e : Expression) (k : Progress → Option α) (s : Progress) : Option α :=
  (e.tries s).findSome? k

section
variable {α : Type} {k : Progress → Option α}

theorem matchAt_eq (e : Expression) (behind text : List Char) : e.matchAt behind text
    = e.first (fun s => some ⟨s.captured, s.rest⟩) ⟨behind, [], text⟩ := by
  rw [matchAt, first]
  cases e.tries ⟨behind, [], text⟩ <;> rfl

theorem first_both (a b : Expression) (k : Progress → Option α) (s : Progress) :
    (both a b).first k s = a.first (b.first k) s := by
  rw [first, tries, first]
  induction a.tries s with
  | nil => rfl
  | cons t ts ih =>
    rw [List.flatMap_cons, List.findSome?_append, ih, List.findSome?_cons, first]
    cases (b.tries t).findSome? k <;> rfl

theorem first_either (a b : Expression) (k : Progress → Option α) (s : Progress) :
    (either a b).first k s = (a.first k s).or (b.first k s) := by
  rw [first, tries, List.findSome?_append]
  rfl

theorem first_group (a : Expression) (k : Progress → Option α) (s : Progress) :
    (group a).first k s = a.first (fun t => k (s.capture t)) s := by
  rw [first, tries, List.findSome?_map]
  rfl

theorem first_boundary (k : Progress → Option α) (s : Progress) :
    boundary.first k s = if s.atBoundary then k s else none := by
  rw [first, tries]
  split
  · exact List.findSome?_singleton
  · rfl

theorem first_char_cons (p : Char → Bool) (behind : List Char) (captured : List (List Char)) (c : Char)
    (rest : List Char) : (char p).first k ⟨behind, captured, c :: rest⟩
      = if p c then k ⟨c :: behind, captured, rest⟩ else none := by
  rw [first, tries]
  split
  · exact List.findSome?_singleton
  · rfl

end

/-! ## Repetition -/

theorem repeated_of_nil (greedy : Bool) (step : Progress → List Progress) (n : Nat) {s : Progress}
    (hs : s.rest.length = 0) : repeated greedy step n s = [s] := by
  cases n with
  | zero => rfl
  | succ n => cases greedy <;> simp [repeated, hs]

/-- How often a step may be repeated does not matter where all that is left could be read. -/
theorem repeated_congr (greedy : Bool) (step : Progress → List Progress) {m n : Nat} {s : Progress}
    (hm : s.rest.length ≤ m) (hn : s.rest.length ≤ n) :
    repeated greedy step m s = repeated greedy step n s := by
  induction m generalizing n s with
  | zero => rw [repeated_of_nil greedy step n (Nat.le_zero.mp hm), repeated]
  | succ m ih =>
    cases n with
    | zero => rw [repeated_of_nil greedy step _ (Nat.le_zero.mp hn), repeated]
    | succ n =>
      have hmore : ∀ t ∈ (step s).filter (·.rest.length < s.rest.length),
          repeated greedy step m t = repeated greedy step n t := by
        intro t ht
        have hlt : t.rest.length < s.rest.length := by simpa using (List.mem_filter.mp ht).2
        exact ih (by omega) (by omega)
      rw [repeated, repeated, List.flatMap_congr hmore]

/-- A repetition stops, or it is matched once and goes on. -/
theorem tries_many (greedy : Bool) (a : Expression) (s : Progress) :
    (many greedy a).tries s =
      let more := ((a.tries s).filter (·.rest.length < s.rest.length)).flatMap (many greedy a).tries
      if greedy then more ++ [s] else s :: more := by
  rw [tries]
  cases hlength : s.rest.length with
  | zero => cases greedy <;> simp [repeated]
  | succ n =>
    have hmore : ∀ t ∈ (a.tries s).filter (·.rest.length < n + 1),
        repeated greedy a.tries n t = (many greedy a).tries t := by
      intro t ht
      have hlt : t.rest.length < n + 1 := by simpa using (List.mem_filter.mp ht).2
      exact repeated_congr greedy a.tries (by omega) (Nat.le_refl _)
    rw [repeated, hlength, List.flatMap_congr hmore]

section
variable {α : Type} (a : Expression) (k : Progress → Option α) (s : Progress)

/-- Where a repetition leads that has been matched once more. -/
def again (greedy : Bool) (t : Progress) : Option α :=
  if t.rest.length < s.rest.length then (many greedy a).first k t else none

theorem findSome?_again (greedy : Bool) (ts : List Progress) :
    ((ts.filter (·.rest.length < s.rest.length)).flatMap (many greedy a).tries).findSome? k
      = ts.findSome? (again a k s greedy) := by
  induction ts with
  | nil => rfl
  | cons t ts ih =>
    rw [List.findSome?_cons, again, List.filter_cons]
    by_cases ht : t.rest.length < s.rest.length
    · rw [if_pos ht, if_pos (decide_eq_true ht), List.flatMap_cons, List.findSome?_append, ih, first]
      cases ((many greedy a).tries t).findSome? k <;> rfl
    · rw [if_neg ht, if_neg (by simpa using ht), ih]

theorem first_greedy : (many true a).first k s = (a.first (again a k s true) s).or (k s) := by
  rw [first, tries_many]
  simp only [if_true, List.findSome?_append, findSome?_again, List.findSome?_singleton]
  rfl

theorem first_lazy : (many false a).first k s = (k s).or (a.first (again a k s false) s) := by
  rw [first, tries_many]
  simp only [Bool.false_eq_true, if_false, List.findSome?_cons, findSome?_again]
  cases k s <;> rfl

end

/-! ## Characters -/

/-- One character. -/
def letter (z : Char) : Expression := char (· = z)

/-- A text as it stands. -/
def text : List Char → Expression
  | [] => empty
  | c :: cs => both (letter c) (text cs)

/-- Blanks, as many as there are. -/
def blanks : Expression := many true (char isBlank)

section
variable {α : Type} {k : Progress → Option α} {behind : List Char} {captured : List (List Char)}

theorem first_letter_self (z : Char) (rest : List Char) :
    (letter z).first k ⟨behind, captured, z :: rest⟩ = k ⟨z :: behind, captured, rest⟩ := by
  rw [letter, first_char_cons, if_pos (decide_eq_true rfl)]

theorem first_letter_of_ne {z c : Char} (h : c ≠ z) (rest : List Char) :
    (letter z).first k ⟨behind, captured, c :: rest⟩ = none := by
  rw [letter, first_char_cons, if_neg (by simpa using h)]

theorem first_text (w : List Char) (k : Progress → Option α) (behind : List Char)
    (captured : List (List Char)) (rest : List Char) : (text w).first k ⟨behind, captured, rest⟩
      = (literal w rest).bind fun after => k ⟨w.reverse ++ behind, captured, after⟩ := by
  induction w generalizing behind rest with
  | nil => exact List.findSome?_singleton
  | cons c w ih =>
    rw [text, first_both]
    cases rest with
    | nil => rfl
    | cons d rest =>
      rw [literal]
      by_cases hd : d = c
      · subst hd
        rw [first_letter_self, ih, if_pos rfl, List.reverse_cons, List.append_assoc]
        rfl
      · rw [first_letter_of_ne hd, if_neg hd]
        rfl

theorem first_class_cons {p : Char → Bool} {c : Char} (hc : p c = true) (tail : List Char) :
    (many true (char p)).first k ⟨behind, captured, c :: tail⟩
      = ((many true (char p)).first k ⟨c :: behind, captured, tail⟩).or
          (k ⟨behind, captured, c :: tail⟩) := by
  rw [first_greedy, first_char_cons, if_pos hc, again, if_pos (by simp)]

theorem first_class_of_not {p : Char → Bool} {tail : List Char}
    (h : ∀ c, tail.head? = some c → p c = false) :
    (many true (char p)).first k ⟨behind, captured, tail⟩ = k ⟨behind, captured, tail⟩ := by
  rw [first_greedy]
  cases tail with
  | nil => rfl
  | cons c tail =>
    rw [first_char_cons, if_neg (by simp [h c rfl])]
    rfl

/-- What cannot begin with a character of a class begins behind all of them there are. -/
theorem first_class_append {p : Char → Bool} {w tail : List Char} (hw : ∀ c ∈ w, p c = true)
    (htail : ∀ c, tail.head? = some c → p c = false)
    (hk : ∀ behind c rest, p c = true → k ⟨behind, captured, c :: rest⟩ = none) :
    (many true (char p)).first k ⟨behind, captured, w ++ tail⟩
      = k ⟨w.reverse ++ behind, captured, tail⟩ := by
  induction w generalizing behind with
  | nil => exact first_class_of_not htail
  | cons c w ih =>
    obtain ⟨hc, hw⟩ := List.forall_mem_cons.mp hw
    rw [List.cons_append, first_class_cons hc, ih hw, hk _ c _ hc, Option.or_none, List.reverse_cons,
      List.append_assoc]
    rfl

theorem first_letter_eq (z : Char) (rest : List Char) : (letter z).first k ⟨behind, captured, rest⟩
    = (literal [z] rest).bind fun after => k ⟨z :: behind, captured, after⟩ := by
  cases rest with
  | nil => rfl
  | cons c rest =>
    rw [literal]
    by_cases hc : c = z
    · subst hc
      rw [first_letter_self, if_pos rfl]
      rfl
    · rw [first_letter_of_ne hc, if_neg hc]
      rfl

/-- A run of a class and then a character that is not of it. -/
theorem first_class_letter {p : Char → Bool} {z : Char} (hz : p z = false) {w tail : List Char}
    (hw : ∀ c ∈ w, p c = true) (htail : ∀ c, tail.head? = some c → p c = false) :
    (both (many true (char p)) (letter z)).first k ⟨behind, captured, w ++ tail⟩
      = (letter z).first k ⟨w.reverse ++ behind, captured, tail⟩ := by
  rw [first_both]
  refine first_class_append hw htail fun behind c rest hc => first_letter_of_ne ?_ rest
  rintro rfl
  rw [hz] at hc
  cases hc

theorem first_blanks_cons {c : Char} (hc : isBlank c = true) (tail : List Char) :
    blanks.first k ⟨behind, captured, c :: tail⟩
      = (blanks.first k ⟨c :: behind, captured, tail⟩).or (k ⟨behind, captured, c :: tail⟩) :=
  first_class_cons hc tail

theorem first_blanks_of_not {tail : List Char} (h : ∀ c, tail.head? = some c → isBlank c = false) :
    blanks.first k ⟨behind, captured, tail⟩ = k ⟨behind, captured, tail⟩ :=
  first_class_of_not h

theorem first_blanks_letter {z : Char} (hz : isBlank z = false) {w tail : List Char}
    (hw : AllBlank w) (htail : ∀ c, tail.head? = some c → isBlank c = false) :
    (both blanks (letter z)).first k ⟨behind, captured, w ++ tail⟩
      = (letter z).first k ⟨w.reverse ++ behind, captured, tail⟩ :=
  first_class_letter hz hw htail

end

end Expression

end DefectScan
