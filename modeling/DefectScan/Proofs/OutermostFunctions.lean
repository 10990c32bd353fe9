import DefectScan.Proofs.DocumentOrder

/-!
# Functions inside of functions

The search for functions goes through the named nodes of a tree and ends at each function definition
that it meets. So it meets those that are in no other one (`Outermost`), at any depth,

    path ∈ paths ↔ ∃ function, Outermost root path function ∧ LacksReturn text function

and a definition inside of another is never looked at, although the grammar lets one stand among the
statements of a body (`functionInFunction`).
-/

namespace DefectScan.Structural

open Node Parse

/-! ## Outermost definitions -/

/-- A function definition at its path. None of the nodes above it is one too, and the path leads
through named nodes. -/
structure Outermost (root : Node) (path : List Nat) (function : Node) : Prop where
  at_path : root.at? path = some function
  kind : function.kind = "function_definition"
  not_inside : ∀ above n, above <+: path → above ≠ path → root.at? above = some n →
    n.kind ≠ "function_definition"
  named : ∀ above n, above <+: path → above ≠ [] → root.at? above = some n → n.named = true

theorem outermost_nil_iff {root function : Node} :
    Outermost root [] function ↔ function = root ∧ root.kind = "function_definition" := by
  constructor
  · rintro ⟨hat, hkind, -, -⟩
    cases hat
    exact ⟨rfl, hkind⟩
  · rintro ⟨rfl, hkind⟩
    refine ⟨rfl, hkind, ?_, ?_⟩
    · intro above n habove hne
      exact absurd (List.prefix_nil.mp habove) hne
    · intro above n habove hne
      exact absurd (List.prefix_nil.mp habove) hne

theorem at?_cons {root child : Node} {i : Nat} (h : root.children[i]? = some child)
    (path : List Nat) : root.at? (i :: path) = child.at? path := by
  rw [at?, h, Option.bind_some]

theorem outermost_cons_iff {root function : Node} {i : Nat} {path : List Nat} :
    Outermost root (i :: path) function ↔ root.kind ≠ "function_definition" ∧
      ∃ child, root.children[i]? = some child ∧ child.named = true ∧
        Outermost child path function := by
  constructor
  · rintro ⟨hat, hkind, hinside, hnamed⟩
    obtain ⟨child, hchild, hpath⟩ : ∃ child, root.children[i]? = some child ∧
        child.at? path = some function := by simpa [at?, Option.bind_eq_some_iff] using hat
    have hroot := hinside [] root List.nil_prefix (by simp) rfl
    refine ⟨hroot, child, hchild, ?_, hpath, hkind, ?_, ?_⟩
    · exact hnamed [i] child (by simp) (by simp) (at?_cons hchild [])
    · intro above n habove hne hn
      refine hinside (i :: above) n ?_ (by simpa using hne) (by rwa [at?_cons hchild])
      exact List.cons_prefix_cons.mpr ⟨rfl, habove⟩
    · intro above n habove _ hn
      refine hnamed (i :: above) n ?_ (by simp) (by rwa [at?_cons hchild])
      exact List.cons_prefix_cons.mpr ⟨rfl, habove⟩
  · rintro ⟨hroot, child, hchild, hnamed, hat, hkind, hinside, hbelow⟩
    refine ⟨by rwa [at?_cons hchild], hkind, ?_, ?_⟩
    · intro above n habove hne hn
      cases above with
      | nil =>
        cases hn
        exact hroot
      | cons j above =>
        obtain ⟨rfl, hrest⟩ := List.cons_prefix_cons.mp habove
        rw [at?_cons hchild] at hn
        exact hinside above n hrest (by simpa using hne) hn
    · intro above n habove hne hn
      cases above with
      | nil => exact absurd rfl hne
      | cons j above =>
        obtain ⟨rfl, hrest⟩ := List.cons_prefix_cons.mp habove
        rw [at?_cons hchild] at hn
        cases above with
        | nil =>
          cases hn
          exact hnamed
        | cons k above => exact hbelow (k :: above) n hrest (by simp) hn

/-- The definitions that the search meets are the outermost ones. -/
theorem functionAt_iff_outermost {root function : Node} {path : List Nat} :
    FunctionAt root path function ↔ Outermost root path function := by
  induction path generalizing root with
  | nil =>
    rw [outermost_nil_iff]
    constructor
    · intro h
      cases h with
      | here hkind => exact ⟨rfl, hkind⟩
    · rintro ⟨rfl, hkind⟩
      exact .here hkind
  | cons i path ih =>
    rw [outermost_cons_iff]
    constructor
    · intro h
      cases h with
      | inside hkind hchild hnamed h => exact ⟨hkind, _, hchild, hnamed, ih.mp h⟩
    · rintro ⟨hkind, child, hchild, hnamed, h⟩
      exact .inside hkind hchild hnamed (ih.mpr h)

/-! ## Main result -/

theorem exists_found_of_mem {text : List Char} {root : Node} {paths : List (List Nat)}
    {found : List Finding} (h : List.Forall₂ (FoundAt text root) paths found) {path : List Nat}
    (hmem : path ∈ paths) : ∃ f ∈ found, FoundAt text root path f := by
  induction h with
  | nil => cases hmem
  | @cons p f paths found hf _ ih =>
    rcases List.mem_cons.mp hmem with rfl | hmem
    · exact ⟨f, List.mem_cons_self, hf⟩
    · obtain ⟨g, hg, hfound⟩ := ih hmem
      exact ⟨g, List.mem_cons_of_mem _ hg, hfound⟩

/-- In a tree without a fault every function definition at any depth that is in no other one and
lacks a return is reported at its line. There is one finding for each of these, in document order,
and none for a definition inside of another. -/
theorem scanTree_checks_outermost (text : List Char) (root : Node) (hsound : ¬ Faulty root) :
    (∀ path function, Outermost root path function → LacksReturn text function →
      ∃ f ∈ scanTree text root, f.category = .missingReturn ∧ f.line = function.start.row + 1) ∧
    ∃ paths : List (List Nat), paths.Pairwise (· < ·) ∧
      List.Forall₂ (FoundAt text root) paths (scanTree text root) ∧
      ∀ path, path ∈ paths ↔
        ∃ function, Outermost root path function ∧ LacksReturn text function := by
  obtain ⟨paths, hpaths, hfound, hmem⟩ := exists_paths_iff_functionAt text root
  simp only [functionAt_iff_outermost] at hmem
  rw [← scanTree_of_not_faulty hsound] at hfound
  refine ⟨?_, paths, hpaths, hfound, hmem⟩
  intro path function hout hlacks
  obtain ⟨f, hf, function', hat, -, -, hcategory, hline⟩ :=
    exists_found_of_mem hfound ((hmem path).mpr ⟨function, hout, hlacks⟩)
  rw [hout.at_path] at hat
  cases hat
  exact ⟨f, hf, hcategory, hline⟩

/-- The text of a function `f` with a return behind the definition of a function `g` in its body,
and of a function `h` behind it. Neither `g` nor `h` has a return. -/
def functionInFunctionText : List Char :=
  "int f() \x7b\nint g() \x7b\x7d\nreturn 1;\n\x7d\nint h() \x7b\x7d".toList

def functionInFunction : Node :=
  ⟨"source_text", true, .plain, false, [], ⟨0, 0, 0⟩, ⟨43, 4, 10⟩, [
    ⟨"function_definition", true, .plain, false, [], ⟨0, 0, 0⟩, ⟨32, 3, 1⟩, [
      ⟨"primitive_type", true, .plain, false, ["type"], ⟨0, 0, 0⟩, ⟨3, 0, 3⟩, []⟩,
      ⟨"function_declarator", true, .plain, false, ["declarator"], ⟨4, 0, 4⟩, ⟨7, 0, 7⟩, [
        ⟨"identifier", true, .plain, false, ["declarator"], ⟨4, 0, 4⟩, ⟨5, 0, 5⟩, []⟩,
        ⟨"parameter_list", true, .plain, false, [], ⟨5, 0, 5⟩, ⟨7, 0, 7⟩, [
          ⟨"(", false, .plain, false, [], ⟨5, 0, 5⟩, ⟨6, 0, 6⟩, []⟩,
          ⟨")", false, .plain, false, [], ⟨6, 0, 6⟩, ⟨7, 0, 7⟩, []⟩]⟩]⟩,
      ⟨"compound_statement", true, .plain, false, ["body"], ⟨8, 0, 8⟩, ⟨32, 3, 1⟩, [
        ⟨"\x7b", false, .plain, false, [], ⟨8, 0, 8⟩, ⟨9, 0, 9⟩, []⟩,
        ⟨"function_definition", true, .plain, false, [], ⟨10, 1, 0⟩, ⟨20, 1, 10⟩, [
          ⟨"primitive_type", true, .plain, false, ["type"], ⟨10, 1, 0⟩, ⟨13, 1, 3⟩, []⟩,
          ⟨"function_declarator", true, .plain, false, ["declarator"], ⟨14, 1, 4⟩, ⟨17, 1, 7⟩, [
            ⟨"identifier", true, .plain, false, ["declarator"], ⟨14, 1, 4⟩, ⟨15, 1, 5⟩, []⟩,
            ⟨"parameter_list", true, .plain, false, [], ⟨15, 1, 5⟩, ⟨17, 1, 7⟩, [
              ⟨"(", false, .plain, false, [], ⟨15, 1, 5⟩, ⟨16, 1, 6⟩, []⟩,
              ⟨")", false, .plain, false, [], ⟨16, 1, 6⟩, ⟨17, 1, 7⟩, []⟩]⟩]⟩,
          ⟨"compound_statement", true, .plain, false, ["body"], ⟨18, 1, 8⟩, ⟨20, 1, 10⟩, [
            ⟨"\x7b", false, .plain, false, [], ⟨18, 1, 8⟩, ⟨19, 1, 9⟩, []⟩,
            ⟨"\x7d", false, .plain, false, [], ⟨19, 1, 9⟩, ⟨20, 1, 10⟩, []⟩]⟩]⟩,
        ⟨"return_statement", true, .plain, false, [], ⟨21, 2, 0⟩, ⟨30, 2, 9⟩, [
          ⟨"return", false, .plain, false, [], ⟨21, 2, 0⟩, ⟨27, 2, 6⟩, []⟩,
          ⟨"number_literal", true, .plain, false, [], ⟨28, 2, 7⟩, ⟨29, 2, 8⟩, []⟩,
          ⟨";", false, .plain, false, [], ⟨29, 2, 8⟩, ⟨30, 2, 9⟩, []⟩]⟩,
        ⟨"\x7d", false, .plain, false, [], ⟨31, 3, 0⟩, ⟨32, 3, 1⟩, []⟩]⟩]⟩,
    ⟨"function_definition", true, .plain, false, [], ⟨33, 4, 0⟩, ⟨43, 4, 10⟩, [
      ⟨"primitive_type", true, .plain, false, ["type"], ⟨33, 4, 0⟩, ⟨36, 4, 3⟩, []⟩,
      ⟨"function_declarator", true, .plain, false, ["declarator"], ⟨37, 4, 4⟩, ⟨40, 4, 7⟩, [
        ⟨"identifier", true, .plain, false, ["declarator"], ⟨37, 4, 4⟩, ⟨38, 4, 5⟩, []⟩,
        ⟨"parameter_list", true, .plain, false, [], ⟨38, 4, 5⟩, ⟨40, 4, 7⟩, [
          ⟨"(", false, .plain, false, [], ⟨38, 4, 5⟩, ⟨39, 4, 6⟩, []⟩,
          ⟨")", false, .plain, false, [], ⟨39, 4, 6⟩, ⟨40, 4, 7⟩, []⟩]⟩]⟩,
      ⟨"compound_statement", true, .plain, false, ["body"], ⟨41, 4, 8⟩, ⟨43, 4, 10⟩, [
        ⟨"\x7b", false, .plain, false, [], ⟨41, 4, 8⟩, ⟨42, 4, 9⟩, []⟩,
        ⟨"\x7d", false, .plain, false, [], ⟨42, 4, 9⟩, ⟨43, 4, 10⟩, []⟩]⟩]⟩]⟩

theorem functionInFunction_sound : ¬ Faulty functionInFunction := by decide +kernel

/-- The function `h` is reported, at its line. -/
theorem scanTree_checks_outermost_behind_nested :
    ¬ Faulty functionInFunction ∧ ∃ f ∈ scanTree functionInFunctionText functionInFunction,
      f.category = .missingReturn ∧ f.line = 5 := by
  have hout : Outermost functionInFunction [1] _ :=
    functionAt_iff_outermost.mp (.inside (by decide) rfl rfl (.here rfl))
  obtain ⟨hfound, -⟩ := scanTree_checks_outermost functionInFunctionText functionInFunction
    functionInFunction_sound
  refine ⟨functionInFunction_sound, hfound [1] _ hout ?_⟩
  exact (lacksReturn_iff_isSome_checkFunction _ _).mpr (by decide +kernel)

/-- The function `g` lacks a return too, and nothing is reported on it. -/
theorem nested_function_escapes :
    ¬ ∀ (text : List Char) (root : Node), ¬ Faulty root → ∀ path function,
      root.at? path = some function → function.kind = "function_definition" →
      LacksReturn text function →
      ∃ f ∈ scanTree text root, f.category = .missingReturn ∧ f.line = function.start.row + 1 := by
  intro h
  have hlines : (scanTree functionInFunctionText functionInFunction).map (·.line) = [5] := by
    decide +kernel
  obtain ⟨f, hf, -, hline⟩ := h functionInFunctionText functionInFunction functionInFunction_sound
    [0, 2, 1] _ rfl rfl ((lacksReturn_iff_isSome_checkFunction _ _).mpr (by decide +kernel))
  have hmem := List.mem_map_of_mem (f := (·.line)) hf
  rw [hlines, List.mem_singleton, hline] at hmem
  exact absurd hmem (by decide)

end DefectScan.Structural
