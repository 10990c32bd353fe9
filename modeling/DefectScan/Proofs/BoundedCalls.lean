import DefectScan.Proofs.CallExpressions

/-!
# Calls that are given a bound

A call is a name at the start of a word, blanks and a text between parentheses. The patterns of the
proposals read exactly the calls whose arguments have a simple form (`ReadsCalls`). The first call with
such arguments is what the search for the expression of its function finds, it is the one that is
rewritten, and all around it stays (`bound_rewrites_first_call`).
-/

namespace DefectScan.Proposal

open Pattern Text

/-! ## Calls -/

/-- A call in a line: what stands before it, the blanks before its parenthesis, what is between its
parentheses, the arguments that are written there, and what stands behind it. -/
structure Call where
  before : List Char
  blanks : List Char
  inside : List Char
  arguments : List (List Char)
  after : List Char

namespace Call

variable (f : String) (Arguments : List Char → List (List Char) → Prop) (line : List Char)

def text (k : Call) : List Char := f.toList ++ (k.blanks ++ '(' :: (k.inside ++ [')']))

/-- A call of a function in a line, with arguments of some form. -/
structure In (k : Call) : Prop where
  parts : line = k.before ++ (k.text f ++ k.after)
  wordStart : WordStart k.before
  blanks : AllBlank k.blanks
  arguments : Arguments k.inside k.arguments

/-- The first of these calls. -/
structure FirstIn (k : Call) : Prop where
  isIn : k.In f Arguments line
  first : ∀ other : Call, other.In f Arguments line → k.before.length ≤ other.before.length

end Call

def HasCall (f : String) (Arguments : List Char → List (List Char) → Prop) (line : List Char) :
    Prop :=
  ∃ k : Call, k.In f Arguments line

/-- A pattern that reads the calls of a function with arguments of some form. -/
structure ReadsCalls (p : Pattern) (f : String)
    (Arguments : List Char → List (List Char) → Prop) : Prop where
  startsWord : p.startsWord = true
  read_iff : ∀ text hit, p.read text = some hit ↔ ∃ w inside, AllBlank w ∧
    text = f.toList ++ (w ++ '(' :: (inside ++ ')' :: hit.rest)) ∧ Arguments inside hit.captured

theorem copyCall_readsCalls (f : String) : ReadsCalls (copyCall f) f CopyArguments where
  startsWord := rfl
  read_iff := by
    intro text hit
    simp only [copyCall, Option.bind_eq_bind, Option.bind_eq_some_iff, word_eq_some_iff,
      mark_eq_some_iff (m := "(") rfl (by decide : isBlank '(' = false), argument_eq_some_iff]
    constructor
    · rintro ⟨_, rfl, opened, ⟨w, hw, rfl⟩, d, hd, afterComma, hcomma, ⟨b, rest⟩, hbalanced, source,
        hsource, hhit⟩
      cases hhit
      obtain ⟨hb, post, rfl, rfl⟩ := flat_of_balanced hbalanced
      -- the first argument ends at the first comma or parenthesis, which has to be a comma
      obtain ⟨a, tail, rfl, htake, hdrop, ha⟩ :=
        exists_span (p := fun c => c ≠ ',' && c ≠ '(' && c ≠ ')') opened
      rw [htake] at hd
      rw [hdrop] at hcomma
      simp only [Bool.and_eq_true, decide_eq_true_eq] at ha
      refine ⟨w, a ++ ',' :: b, hw, by simp [hcomma], .intro ?_ ?_ hb hd hsource⟩
      · exact fun c hc => ⟨(ha c hc).1.2, (ha c hc).2⟩
      · exact fun hmem => (ha ',' hmem).1.1 rfl
    · rintro ⟨w, inside, hw, rfl, harguments⟩
      obtain ⟨captured, rest⟩ := hit
      cases harguments with
      | @intro a b d source ha hcomma hb hd hsource =>
        have hplain : ∀ c ∈ a, (c ≠ ',' && c ≠ '(' && c ≠ ')') = true := by
          intro c hc
          have hne : c ≠ ',' := fun h => hcomma (h ▸ hc)
          simp [hne, (ha c hc).1, (ha c hc).2]
        obtain ⟨htake, hdrop⟩ := span_eq (c := ',') hplain (by decide) (b ++ ')' :: rest)
        exact ⟨_, rfl, a ++ ',' :: (b ++ ')' :: rest), ⟨w, hw, by simp⟩, d, by rwa [htake],
          b ++ ')' :: rest, by rw [hdrop]; rfl, (b, ')' :: rest), hb.balanced_eq rest, source,
          hsource, rfl⟩

theorem lineRead_readsCalls : ReadsCalls lineRead "gets" ReadArgument where
  startsWord := rfl
  read_iff := by
    intro text hit
    simp only [lineRead, Option.bind_eq_bind, Option.bind_eq_some_iff, word_eq_some_iff,
      mark_eq_some_iff (m := "(") rfl (by decide : isBlank '(' = false), argument_eq_some_iff]
    constructor
    · rintro ⟨_, rfl, opened, ⟨w, hw, rfl⟩, d, hd, rest, hclose, hhit⟩
      cases hhit
      obtain ⟨a, tail, rfl, htake, hdrop, ha⟩ :=
        exists_span (p := fun c => c ≠ '(' && c ≠ ')') opened
      rw [htake] at hd
      rw [hdrop] at hclose
      simp only [Bool.and_eq_true, decide_eq_true_eq] at ha
      exact ⟨w, a, hw, by simp [hclose], .intro ha hd⟩
    · rintro ⟨w, inside, hw, rfl, harguments⟩
      obtain ⟨captured, rest⟩ := hit
      cases harguments with
      | @intro d ha hd =>
        have hplain : ∀ c ∈ inside, (c ≠ '(' && c ≠ ')') = true := by
          intro c hc
          simp [(ha c hc).1, (ha c hc).2]
        obtain ⟨htake, hdrop⟩ := span_eq (c := ')') hplain (by decide) rest
        exact ⟨_, rfl, inside ++ ')' :: rest, ⟨w, hw, by simp⟩, d, by rwa [htake], rest,
          by rw [hdrop]; rfl, rfl⟩

namespace ReadsCalls

variable {p : Pattern} {f : String} {Arguments : List Char → List (List Char) → Prop}

theorem lawful (h : ReadsCalls p f Arguments) : p.Lawful := by
  intro text hit hread
  obtain ⟨w, inside, -, rfl, -⟩ := (h.read_iff text hit).mp hread
  exact ⟨f.toList ++ (w ++ '(' :: (inside ++ [')'])), by simp⟩

theorem consuming (h : ReadsCalls p f Arguments) : p.Consuming := by
  intro text hit hread
  obtain ⟨w, inside, -, rfl, -⟩ := (h.read_iff text hit).mp hread
  simp only [List.length_append, List.length_cons]
  omega

/-- A call stands wherever the pattern can be read. -/
theorem exists_call_of_readAt (h : ReadsCalls p f Arguments) {line pre post : List Char} {hit : Hit}
    (hline : line = pre ++ post) (hread : p.readAt pre.reverse post = some hit) :
    ∃ k : Call, k.In f Arguments line ∧ k.before = pre ∧ post = k.text f ++ hit.rest ∧
      k.arguments = hit.captured ∧ k.after = hit.rest := by
  obtain ⟨hstart, hread⟩ := (readAt_eq_some_iff h.startsWord).mp hread
  obtain ⟨w, inside, hw, hpost, harguments⟩ := (h.read_iff post hit).mp hread
  have htext : post = f.toList ++ (w ++ '(' :: (inside ++ [')'])) ++ hit.rest := by simp [hpost]
  exact ⟨⟨pre, w, inside, hit.captured, hit.rest⟩,
    ⟨by rw [hline, htext]; rfl, hstart, hw, harguments⟩, rfl, htext, rfl, rfl⟩

theorem readAt_of_call (h : ReadsCalls p f Arguments) {line : List Char} {k : Call}
    (hk : k.In f Arguments line) :
    p.readAt k.before.reverse (k.text f ++ k.after) = some ⟨k.arguments, k.after⟩ := by
  rw [readAt_eq_some_iff h.startsWord, h.read_iff]
  exact ⟨hk.wordStart, k.blanks, k.inside, hk.blanks, by simp [Call.text], hk.arguments⟩

theorem firstCall (h : ReadsCalls p f Arguments) {line : List Char} {o : Occurrence}
    (ho : p.first? line = some o) :
    ∃ k : Call, k.FirstIn f Arguments line ∧ k.before = o.behind.reverse ∧
      k.arguments = o.captured ∧ k.after = o.after := by
  obtain ⟨hparts, hread, hbefore⟩ := leftmost_of_first? h.lawful h.consuming ho
  obtain ⟨k, hk, hkbefore, -, harguments, hafter⟩ :=
    h.exists_call_of_readAt hparts (by rwa [List.reverse_reverse])
  refine ⟨k, ⟨hk, ?_⟩, hkbefore, harguments, hafter⟩
  intro other hother
  -- a call further left would have been read there
  apply Nat.le_of_not_lt
  intro hlt
  have hnone := hbefore other.before _ hother.parts (by simpa [hkbefore] using hlt)
  rw [h.readAt_of_call hother] at hnone
  cases hnone

theorem first?_eq_none (h : ReadsCalls p f Arguments) {line : List Char} :
    p.first? line = none ↔ ¬ HasCall f Arguments line := by
  rw [first?_eq_none_iff h.lawful h.consuming]
  constructor
  · rintro hnone ⟨k, hk⟩
    have := hnone k.before _ hk.parts
    rw [h.readAt_of_call hk] at this
    cases this
  · intro hno pre post hsplit
    cases hread : p.readAt pre.reverse post with
    | none => rfl
    | some hit =>
      obtain ⟨k, hk, -⟩ := h.exists_call_of_readAt hsplit hread
      exact absurd ⟨k, hk⟩ hno

variable {e : Expression} (he : ∀ behind text, p.readAt behind text = e.matchAt behind text)
include he

theorem hasCall_iff_matches (h : ReadsCalls p f Arguments) (line : List Char) :
    HasCall f Arguments line ↔ e.Matches line := by
  constructor
  · rintro ⟨k, hk⟩
    have hread := h.readAt_of_call hk
    rw [he] at hread
    exact ⟨k.before, _, _, hk.parts, hread⟩
  · rintro ⟨pre, post, hit, hline, hmatch⟩
    rw [← he] at hmatch
    obtain ⟨k, hk, -⟩ := h.exists_call_of_readAt hline hmatch
    exact ⟨k, hk⟩

/-- The first call is what the search for an expression finds that the pattern reads. -/
theorem finds_firstCall (h : ReadsCalls p f Arguments) {line : List Char} {k : Call}
    (hk : k.FirstIn f Arguments line) :
    e.Finds line k.before (k.text f) ⟨k.arguments, k.after⟩ where
  parts := hk.isIn.parts
  matches_here := by
    rw [← he]
    exact h.readAt_of_call hk.isIn
  none_before := by
    intro pre post hline hlt
    rw [← he]
    cases hread : p.readAt pre.reverse post with
    | none => rfl
    | some hit =>
      obtain ⟨other, hother, hbefore, -⟩ := h.exists_call_of_readAt hline hread
      have hfirst := hk.first other hother
      rw [hbefore] at hfirst
      omega

end ReadsCalls

/-! ## Main result -/

/-- The expression of the calls of a function that are given a bound. -/
def expressionFor (f : String) : Expression :=
  if f = "gets" then readExpression else copyExpression f

/-- The call of a line that is given a bound, with the name of its function and the call that stands
for it: the first copy, else the first concatenation, else the first line that is read. -/
inductive Bounds (line : List Char) : String → Call → List Char → Prop
  | copy {k : Call} {d source : List Char} (hk : k.FirstIn "strcpy" CopyArguments line)
      (harguments : k.arguments = [d, source]) :
      Bounds line "strcpy" k
        ("strncpy(".toList ++ d ++ ", ".toList ++ source ++ ", sizeof(".toList ++ d
          ++ ") - 1)".toList)
  | concatenation {k : Call} {d source : List Char} (hcopy : ¬ HasCall "strcpy" CopyArguments line)
      (hk : k.FirstIn "strcat" CopyArguments line) (harguments : k.arguments = [d, source]) :
      Bounds line "strcat" k
        ("strncat(".toList ++ d ++ ", ".toList ++ source ++ ", sizeof(".toList ++ d
          ++ ") - strlen(".toList ++ d ++ ") - 1)".toList)
  | read {k : Call} {d : List Char} (hcopy : ¬ HasCall "strcpy" CopyArguments line)
      (hconcatenation : ¬ HasCall "strcat" CopyArguments line)
      (hk : k.FirstIn "gets" ReadArgument line) (harguments : k.arguments = [d]) :
      Bounds line "gets" k
        ("fgets(".toList ++ d ++ ", sizeof(".toList ++ d ++ "), stdin)".toList)

/-- A call that begins with a word and ends with its own parenthesis. Of its arguments the first has
no parentheses, and in a copy no comma, and the second has single pairs of parentheses only. -/
structure SimpleCall (line : List Char) (f : String) (k : Call) : Prop where
  parts : line = k.before ++ (k.text f ++ k.after)
  wordStart : WordStart k.before
  blanks : AllBlank k.blanks
  closes : ClosesFirst k.inside
  destination : ∀ d, k.arguments[0]? = some d → NoParens d ∧ (f ≠ "gets" → ',' ∉ d)
  source : ∀ source, k.arguments[1]? = some source → Flat source

theorem simpleCall_of_copy {line : List Char} {f : String} {k : Call}
    (h : k.In f CopyArguments line) : SimpleCall line f k := by
  obtain ⟨hparts, hstart, hblanks, harguments⟩ := h
  obtain ⟨hdestination, hsource⟩ := harguments.simple
  exact ⟨hparts, hstart, hblanks, harguments.flat.closesFirst,
    fun d hd => ⟨(hdestination d hd).1, fun _ => (hdestination d hd).2⟩, hsource⟩

theorem Bounds.simpleCall {line new : List Char} {f : String} {k : Call}
    (h : Bounds line f k new) : SimpleCall line f k := by
  cases h with
  | copy hk => exact simpleCall_of_copy hk.isIn
  | concatenation _ hk => exact simpleCall_of_copy hk.isIn
  | read _ _ hk =>
    obtain ⟨hparts, hstart, hblanks, harguments⟩ := hk.isIn
    obtain ⟨hdestination, hsource⟩ := harguments.simple
    exact ⟨hparts, hstart, hblanks, harguments.flat.closesFirst,
      fun d hd => ⟨hdestination d hd, fun hne => absurd rfl hne⟩, hsource⟩

theorem Bounds.finds {line new : List Char} {f : String} {k : Call} (h : Bounds line f k new) :
    (expressionFor f).Finds line k.before (k.text f) ⟨k.arguments, k.after⟩ := by
  cases h with
  | copy hk =>
    exact (copyCall_readsCalls _).finds_firstCall (copyCall_readAt_eq (c := 's') rfl (by decide)) hk
  | concatenation _ hk =>
    exact (copyCall_readsCalls _).finds_firstCall (copyCall_readAt_eq (c := 's') rfl (by decide)) hk
  | read _ _ hk => exact lineRead_readsCalls.finds_firstCall lineRead_readAt_eq hk

section
variable {f g ending note : String} {size : List Char → List Char} {line : List Char}

theorem boundedCopy_eq_none_iff :
    boundedCopy f g ending note size line = none ↔ ¬ HasCall f CopyArguments line := by
  rw [boundedCopy, Option.map_eq_none_iff, (copyCall_readsCalls f).first?_eq_none]

theorem exists_of_boundedCopy {c : Change} (h : boundedCopy f g ending note size line = some c) :
    ∃ k : Call, ∃ d source, k.FirstIn f CopyArguments line ∧ k.arguments = [d, source] ∧
      c.text = k.before ++ (g.toList ++ '(' :: d ++ ", ".toList ++ source ++ ", ".toList ++ size d
        ++ ending.toList ++ k.after) ∧ c.edit = .replaceLine := by
  obtain ⟨o, ho, rfl⟩ := Option.map_eq_some_iff.mp h
  obtain ⟨k, hk, hbefore, harguments, hafter⟩ := (copyCall_readsCalls f).firstCall ho
  obtain ⟨d, source, hpair⟩ := hk.isIn.arguments.eq_pair
  refine ⟨k, d, source, hk, hpair, ?_, rfl⟩
  rw [harguments] at hpair
  simp [Occurrence.replace, captured, hpair, hbefore, hafter]

end

theorem exists_of_lineRead {line : List Char} {o : Occurrence}
    (ho : lineRead.first? line = some o) :
    ∃ k : Call, ∃ d, k.FirstIn "gets" ReadArgument line ∧ k.arguments = [d] ∧
      captured o 0 = d ∧ k.before = o.behind.reverse ∧ k.after = o.after := by
  obtain ⟨k, hk, hbefore, harguments, hafter⟩ := lineRead_readsCalls.firstCall ho
  obtain ⟨d, hsingle⟩ := hk.isIn.arguments.eq_singleton
  refine ⟨k, d, hk, hsingle, ?_, hbefore, hafter⟩
  rw [captured, ← harguments, hsingle]
  rfl

/-! The pieces of a new call, put together. -/

theorem sizeOf_eq (d : List Char) : sizeOf d = "sizeof(".toList ++ d ++ [')'] := rfl

theorem spaceLeft_eq (d : List Char) :
    spaceLeft d = sizeOf d ++ " - strlen(".toList ++ d ++ [')'] := rfl

theorem strncpy_eq (d source : List Char) :
    "strncpy".toList ++ '(' :: d ++ ", ".toList ++ source ++ ", ".toList ++ sizeOf d
        ++ " - 1)".toList
      = "strncpy(".toList ++ d ++ ", ".toList ++ source ++ ", sizeof(".toList ++ d
        ++ ") - 1)".toList := by
  have hname : "strncpy(".toList = "strncpy".toList ++ ['('] := rfl
  have hsize : ", sizeof(".toList = ", ".toList ++ "sizeof(".toList := rfl
  have hend : ") - 1)".toList = ')' :: " - 1)".toList := rfl
  simp only [hname, hsize, hend, sizeOf_eq, List.append_assoc, List.cons_append, List.nil_append]

theorem strncat_eq (d source : List Char) :
    "strncat".toList ++ '(' :: d ++ ", ".toList ++ source ++ ", ".toList ++ spaceLeft d
        ++ " - 1)".toList
      = "strncat(".toList ++ d ++ ", ".toList ++ source ++ ", sizeof(".toList ++ d
        ++ ") - strlen(".toList ++ d ++ ") - 1)".toList := by
  have hname : "strncat(".toList = "strncat".toList ++ ['('] := rfl
  have hsize : ", sizeof(".toList = ", ".toList ++ "sizeof(".toList := rfl
  have hlength : ") - strlen(".toList = ')' :: " - strlen(".toList := rfl
  have hend : ") - 1)".toList = ')' :: " - 1)".toList := rfl
  simp only [hname, hsize, hlength, hend, spaceLeft_eq, sizeOf_eq, List.append_assoc,
    List.cons_append, List.nil_append]

theorem fgets_eq (d : List Char) :
    "fgets(".toList ++ d ++ ", ".toList ++ sizeOf d ++ ", stdin)".toList
      = "fgets(".toList ++ d ++ ", sizeof(".toList ++ d ++ "), stdin)".toList := by
  have hsize : ", sizeof(".toList = ", ".toList ++ "sizeof(".toList := rfl
  have hend : "), stdin)".toList = ')' :: ", stdin)".toList := rfl
  simp only [hsize, hend, sizeOf_eq, List.append_assoc, List.cons_append, List.nil_append]

theorem exists_bounds {line : List Char} {c : Change} (h : bound line = some c) :
    ∃ f k new, Bounds line f k new ∧ c.text = k.before ++ (new ++ k.after) ∧
      c.edit = .replaceLine := by
  simp only [bound, Option.orElse_eq_or, Option.or_eq_some_iff, boundedCopy_eq_none_iff] at h
  rcases h with h | ⟨hcopy, h | ⟨hconcatenation, h⟩⟩
  · obtain ⟨k, d, source, hk, harguments, htext, hedit⟩ := exists_of_boundedCopy h
    rw [strncpy_eq] at htext
    exact ⟨_, k, _, .copy hk harguments, htext, hedit⟩
  · obtain ⟨k, d, source, hk, harguments, htext, hedit⟩ := exists_of_boundedCopy h
    rw [strncat_eq] at htext
    exact ⟨_, k, _, .concatenation hcopy hk harguments, htext, hedit⟩
  · obtain ⟨o, ho, rfl⟩ := Option.map_eq_some_iff.mp h
    obtain ⟨k, d, hk, harguments, hd, hbefore, hafter⟩ := exists_of_lineRead ho
    refine ⟨_, k, _, .read hcopy hconcatenation hk harguments, ?_, rfl⟩
    rw [← fgets_eq, hbefore, hafter, ← hd]
    exact List.append_assoc _ _ _

theorem bound_eq_none_iff {line : List Char} : bound line = none ↔
    ¬ HasCall "strcpy" CopyArguments line ∧ ¬ HasCall "strcat" CopyArguments line ∧
      ¬ HasCall "gets" ReadArgument line := by
  simp only [bound, Option.orElse_eq_or, Option.or_eq_none_iff, boundedCopy_eq_none_iff,
    Option.map_eq_none_iff, lineRead_readsCalls.first?_eq_none]

theorem exists_change_iff (line : List Char) :
    (∃ c, changeFor .bufferOverflow line = some c) ↔ HasCall "strcpy" CopyArguments line ∨
      HasCall "strcat" CopyArguments line ∨ HasCall "gets" ReadArgument line := by
  rw [← Option.isSome_iff_exists, ← Option.ne_none_iff_isSome]
  show ¬ bound line = none ↔ _
  rw [bound_eq_none_iff]
  simp only [Classical.not_and_iff_not_or_not, Classical.not_not]

/-- A line is changed exactly if it has a call whose arguments have the simple form, which is to say
that one of the three expressions matches in it. Then the first such copy, else the first such
concatenation, else the first such call that reads a line becomes the call with a bound, with the same
arguments, and all that stands around it stays. This call is the leftmost match of its expression. -/
theorem bound_rewrites_first_call (line : List Char) :
    ((∃ c, changeFor .bufferOverflow line = some c) ↔ HasCall "strcpy" CopyArguments line ∨
      HasCall "strcat" CopyArguments line ∨ HasCall "gets" ReadArgument line) ∧
    ((∃ c, changeFor .bufferOverflow line = some c) ↔
      ∃ f, (f = "strcpy" ∨ f = "strcat" ∨ f = "gets") ∧ (expressionFor f).Matches line) ∧
    ∀ c, changeFor .bufferOverflow line = some c → ∃ f k new, Bounds line f k new ∧
      SimpleCall line f k ∧
      (expressionFor f).Finds line k.before (k.text f) ⟨k.arguments, k.after⟩ ∧
      c.text = k.before ++ (new ++ k.after) ∧ c.edit = .replaceLine := by
  have hcopy := (copyCall_readsCalls "strcpy").hasCall_iff_matches
    (copyCall_readAt_eq (c := 's') rfl (by decide)) line
  have hconcatenation := (copyCall_readsCalls "strcat").hasCall_iff_matches
    (copyCall_readAt_eq (c := 's') rfl (by decide)) line
  have hread := lineRead_readsCalls.hasCall_iff_matches lineRead_readAt_eq line
  refine ⟨exists_change_iff line, ?_, ?_⟩
  · rw [exists_change_iff, hcopy, hconcatenation, hread]
    constructor
    · rintro (h | h | h)
      · exact ⟨_, .inl rfl, h⟩
      · exact ⟨_, .inr (.inl rfl), h⟩
      · exact ⟨_, .inr (.inr rfl), h⟩
    · rintro ⟨_, rfl | rfl | rfl, h⟩
      · exact .inl h
      · exact .inr (.inl h)
      · exact .inr (.inr h)
  · intro c hc
    obtain ⟨f, k, new, hbounds, htext, hedit⟩ := exists_bounds hc
    exact ⟨f, k, new, hbounds, hbounds.simpleCall, hbounds.finds, htext, hedit⟩

def crowdedLine : List Char :=
  "mystrcpy(a, b); strcpy(f(a), b); gets(q); strcat(u, h((v))); strcat\t(d , $1(y) );//)".toList

def mendedLine : List Char :=
  ("mystrcpy(a, b); strcpy(f(a), b); gets(q); strcat(u, h((v))); " ++
    "strncat(d, $1(y), sizeof(d) - strlen(d) - 1);//)").toList

/-- Two copies, a line that is read and a concatenation stand before the call that is rewritten. -/
theorem bound_rewrites_first_call_crowded :
    ∃ c, changeFor .bufferOverflow crowdedLine = some c ∧ c.text = mendedLine ∧
      ∃ f k new, Bounds crowdedLine f k new ∧ SimpleCall crowdedLine f k ∧
        (expressionFor f).Finds crowdedLine k.before (k.text f) ⟨k.arguments, k.after⟩ ∧
        c.text = k.before ++ (new ++ k.after) ∧ c.edit = .replaceLine := by
  have hchange : (changeFor .bufferOverflow crowdedLine).map (·.text) = some mendedLine := by
    decide +kernel
  obtain ⟨c, hc, htext⟩ := Option.map_eq_some_iff.mp hchange
  exact ⟨c, hc, htext, (bound_rewrites_first_call crowdedLine).2.2 c hc⟩

end DefectScan.Proposal
