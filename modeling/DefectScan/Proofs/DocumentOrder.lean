import DefectScan.Structural
import Mathlib.Data.List.Forall2
import Mathlib.Order.Lex

/-!
# The structural detector in document order

A node of a tree is known by its path, the places among the children that lead to it. Document order
is the lexicographic order of the paths: a node comes before what is in it, and that before what
follows it. The nodes of a tree with their paths are listed in this order (`Node.places`).

The search for an error goes only into nodes that are marked as having one. Where the marks are set
(`Marked`) it still finds the first in document order. The walk for functions keeps a stack, and what
it has found is at each step, with what the recursive traversal `functions` finds in the nodes on the
stack, the last one first, always the same:

    (walk text stack findings).toList
      = findings.toList ++ (stack.toList.reverse.flatMap functions).filterMap (checkFunction text)

So a scan of any tree is either one syntax error, at the first node in document order that is an error
or missing, or else at the first statement outside of all functions; or it has a finding for each
function that lacks a return, in document order.
-/

namespace DefectScan

namespace Node

/-! ## Paths -/

/-- The node at the end of a path. -/
def at? : List Nat → Node → Option Node
  | [], n => some n
  | i :: path, n => n.children[i]?.bind (at? path)

theorem at?_append (path path' : List Nat) (n : Node) :
    n.at? (path ++ path') = (n.at? path).bind (at? path') := by
  induction path generalizing n with
  | nil => rfl
  | cons i path ih =>
    rw [List.cons_append, at?, at?, Option.bind_assoc]
    exact congrArg _ (funext ih)

mutual
/-- The nodes of a tree with their paths, in document order. -/
def places : Node → List (List Nat × Node)
  | ⟨kind, named, role, hasError, labels, start, stop, children⟩ =>
    ([], ⟨kind, named, role, hasError, labels, start, stop, children⟩) :: placesOf 0 children

/-- The same for the children of a node from some number on. -/
def placesOf (i : Nat) : List Node → List (List Nat × Node)
  | [] => []
  | n :: ns => n.places.map (fun x => (i :: x.1, x.2)) ++ placesOf (i + 1) ns
end

mutual
theorem mem_places : ∀ (n : Node) (path : List Nat) (m : Node),
    (path, m) ∈ n.places ↔ n.at? path = some m
  | ⟨kind, named, role, hasError, labels, start, stop, children⟩, path, m => by
    rw [places, List.mem_cons, mem_placesOf children 0 path m]
    cases path with
    | nil => simp [at?, eq_comm]
    | cons i path => simp [at?]

theorem mem_placesOf : ∀ (ns : List Node) (k : Nat) (path : List Nat) (m : Node),
    (path, m) ∈ placesOf k ns ↔
      ∃ i rest, path = (k + i) :: rest ∧ ns[i]?.bind (at? rest) = some m
  | [], k, path, m => by simp [placesOf]
  | n :: ns, k, path, m => by
    rw [placesOf, List.mem_append, mem_placesOf ns (k + 1) path m, List.mem_map]
    constructor
    · rintro (⟨⟨rest, m'⟩, hmem, heq⟩ | ⟨i, rest, rfl, hm⟩)
      · obtain ⟨rfl, rfl⟩ : path = k :: rest ∧ m = m' := by simpa [eq_comm] using heq
        exact ⟨0, rest, rfl, by simpa using (mem_places n rest m).mp hmem⟩
      · exact ⟨i + 1, rest, by congr 1; omega, by simpa using hm⟩
    · rintro ⟨i, rest, rfl, hm⟩
      cases i with
      | zero => exact Or.inl ⟨(rest, m), (mem_places n rest m).mpr (by simpa using hm), rfl⟩
      | succ i => exact Or.inr ⟨i, rest, by congr 1; omega, by simpa using hm⟩
end

mutual
theorem pairwise_places : ∀ n : Node, n.places.Pairwise (fun x y => x.1 < y.1)
  | ⟨kind, named, role, hasError, labels, start, stop, children⟩ => by
    rw [places, List.pairwise_cons]
    refine ⟨?_, pairwise_placesOf children 0⟩
    rintro ⟨path, m⟩ hmem
    obtain ⟨i, rest, rfl, -⟩ := (mem_placesOf _ _ _ _).mp hmem
    exact List.nil_lt_cons _ _

theorem pairwise_placesOf : ∀ (ns : List Node) (k : Nat),
    (placesOf k ns).Pairwise (fun x y => x.1 < y.1)
  | [], _ => by
    rw [placesOf]
    exact .nil
  | n :: ns, k => by
    rw [placesOf, List.pairwise_append, List.pairwise_map]
    refine ⟨?_, pairwise_placesOf ns (k + 1), ?_⟩
    · refine (pairwise_places n).imp ?_
      intro x y hlt
      exact List.cons_lt_cons_iff.mpr (Or.inr ⟨rfl, hlt⟩)
    · intro x hx y hy
      obtain ⟨x', -, rfl⟩ := List.mem_map.mp hx
      obtain ⟨i, rest, hpath, -⟩ := (mem_placesOf _ _ y.1 y.2).mp hy
      rw [hpath]
      exact List.cons_lt_cons_iff.mpr (Or.inl (by omega))
end

/-- The first node in document order, at its path, for which `p` holds. -/
structure FirstAt (root : Node) (p : Node → Prop) (path : List Nat) (n : Node) : Prop where
  at_path : root.at? path = some n
  holds : p n
  none_before : ∀ path' m, path' < path → root.at? path' = some m → ¬ p m

theorem firstAt_of_find? {root : Node} {p : Node → Prop} [DecidablePred p] {x : List Nat × Node}
    (h : root.places.find? (fun x => p x.2) = some x) : root.FirstAt p x.1 x.2 := by
  obtain ⟨hp, before, after, hsplit, hbefore⟩ := List.find?_eq_some_iff_append.mp h
  have hpairwise := pairwise_places root
  rw [hsplit, List.pairwise_append] at hpairwise
  refine ⟨(mem_places _ _ _).mp (List.mem_of_find?_eq_some h), by simpa using hp, ?_⟩
  intro path m hlt hm
  have hmem := (mem_places root path m).mpr hm
  rw [hsplit, List.mem_append, List.mem_cons] at hmem
  rcases hmem with hmem | rfl | hmem
  · simpa using hbefore _ hmem
  · exact absurd hlt (List.lt_irrefl _)
  · exact absurd hlt (List.lt_asymm ((List.pairwise_cons.mp hpairwise.2.1).1 _ hmem))

theorem forall_not_of_find? {root : Node} {p : Node → Prop} [DecidablePred p]
    (h : root.places.find? (fun x => p x.2) = none) :
    ∀ path m, root.at? path = some m → ¬ p m := by
  intro path m hm
  simpa using List.find?_eq_none.mp h _ ((mem_places root path m).mpr hm)

end Node

namespace Structural

open Node Parse

/-! ## The first bad node -/

/-- An error, or a token that is missing. -/
def IsBad (n : Node) : Prop := n.role ≠ .plain

instance : DecidablePred IsBad := fun n => inferInstanceAs (Decidable (n.role ≠ .plain))

/-- Every node above a bad one is marked as having an error. -/
def MarkedAbove (root : Node) : Prop :=
  ∀ path n below bad, root.at? path = some n → n.at? below = some bad → IsBad bad → below ≠ [] →
    n.hasError = true

/-- Moreover the root is marked if it is bad itself. -/
structure Marked (root : Node) : Prop where
  above : MarkedAbove root
  root : IsBad root → root.hasError = true

theorem marked_iff (root : Node) : Marked root ↔
    (∀ x ∈ root.places, ∀ y ∈ x.2.places, IsBad y.2 → y.1 ≠ [] → x.2.hasError = true) ∧
      (IsBad root → root.hasError = true) := by
  simp only [Prod.forall, mem_places]
  exact ⟨fun h => ⟨fun path n hn below bad => h.above path n below bad hn, h.root⟩,
    fun h => ⟨fun path n below bad hn => h.1 path n hn below bad, h.2⟩⟩

instance : DecidablePred Marked := fun root => decidable_of_iff' _ (marked_iff root)

theorem MarkedAbove.child {root child : Node} (h : MarkedAbove root) (hmem : child ∈ root.children) :
    MarkedAbove child := by
  obtain ⟨i, hi⟩ := List.mem_iff_getElem?.mp hmem
  intro path n below bad hn
  exact h (i :: path) n below bad (by rw [at?, hi, Option.bind_some, hn])

/-- Below a node that is not marked nothing is bad. -/
theorem find?_of_not_marked {n : Node} (h : MarkedAbove n) (hbad : ¬ IsBad n)
    (herror : n.hasError = false) : (n.places.find? fun x => IsBad x.2) = none := by
  rw [List.find?_eq_none]
  rintro ⟨path, m⟩ hmem hm
  rw [mem_places] at hmem
  rw [decide_eq_true_eq] at hm
  have hpath : path ≠ [] := by
    rintro rfl
    cases hmem
    exact hbad hm
  have hmark := h [] n path m rfl hmem hm hpath
  rw [herror] at hmark
  cases hmark

mutual
theorem firstBad_eq : ∀ {n : Node}, MarkedAbove n →
    firstBad n = (n.places.find? fun x => IsBad x.2).map Prod.snd
  | ⟨kind, named, role, hasError, labels, start, stop, children⟩, h => by
    have hchildren := firstBadOf_eq (fun child hmem => h.child hmem) 0
    unfold firstBad
    cases role with
    | error => simp [places, IsBad]
    | missing => simp [places, IsBad]
    | plain =>
      cases hasError with
      | true => simpa [places, IsBad] using hchildren
      | false =>
        rw [find?_of_not_marked h (by simp [IsBad]) rfl]
        rfl

theorem firstBadOf_eq : ∀ {ns : List Node}, (∀ n ∈ ns, MarkedAbove n) → ∀ k : Nat,
    firstBadOf ns = ((placesOf k ns).find? fun x => IsBad x.2).map Prod.snd
  | [], _, _ => by
    rw [firstBadOf, placesOf]
    rfl
  | n :: ns, h, k => by
    obtain ⟨hn, hns⟩ := List.forall_mem_cons.mp h
    have hfirst := firstBad_eq hn
    have hrest := firstBadOf_eq hns (k + 1)
    have hsame : (fun x : List Nat × Node => decide (IsBad x.2))
        ∘ (fun x : List Nat × Node => (k :: x.1, x.2)) = fun x => decide (IsBad x.2) := rfl
    rw [firstBadOf, placesOf, List.find?_append, List.find?_map, hsame, hfirst, hrest]
    cases n.places.find? fun x => IsBad x.2 with
    | none => simp
    | some x => simp
end

/-- Neither the guard at the root nor the marks below it hide the first bad node. -/
theorem guarded_firstBad_eq {root : Node} (h : Marked root) :
    (if root.hasError then firstBad root else none)
      = (root.places.find? fun x => IsBad x.2).map Prod.snd := by
  cases herror : root.hasError with
  | true => exact firstBad_eq h.above
  | false =>
    have hroot : ¬ IsBad root := fun hbad => by simp [h.root hbad] at herror
    rw [find?_of_not_marked h.above hroot herror]
    rfl

/-! ## Functions -/

mutual
/-- The function definitions of a tree, without those inside of others. -/
def functions : Node → List Node
  | ⟨kind, named, role, hasError, labels, start, stop, children⟩ =>
    if kind = "function_definition" then
      [⟨kind, named, role, hasError, labels, start, stop, children⟩]
    else functionsOf children

def functionsOf : List Node → List Node
  | [] => []
  | n :: ns => if n.named then functions n ++ functionsOf ns else functionsOf ns
end

theorem functionsOf_eq_flatMap (ns : List Node) :
    functionsOf ns = (ns.filter (·.named)).flatMap functions := by
  induction ns with
  | nil => rw [functionsOf, List.filter_nil, List.flatMap_nil]
  | cons n ns ih =>
    rw [functionsOf, List.filter_cons, ih]
    split
    · rw [List.flatMap_cons]
    · rfl

theorem functions_of_function {n : Node} (h : n.kind = "function_definition") :
    functions n = [n] := by
  cases n
  rw [functions, if_pos h]

theorem functions_of_other {n : Node} (h : n.kind ≠ "function_definition") :
    functions n = n.namedChildren.flatMap functions := by
  cases n
  rw [functions, if_neg h, functionsOf_eq_flatMap]
  rfl

/-- At each step of the walk the functions that are still to be checked are those of the nodes on the
stack, the last node first. -/
theorem toList_walk (text : List Char) (stack : Array Node) (findings : Array Finding) :
    (walk text stack findings).toList
      = findings.toList ++ (stack.toList.reverse.flatMap functions).filterMap (checkFunction text) := by
  fun_induction walk text stack findings with
  | case1 stack findings hback =>
    rw [Array.back?_eq_none_iff.mp hback]
    simp
  | case2 stack findings n hback hkind f hcheck ih =>
    rw [ih, toList_of_back? hback, Array.toList_push, List.reverse_append, List.reverse_singleton,
      List.singleton_append, List.flatMap_cons, functions_of_function hkind, List.singleton_append,
      List.filterMap_cons, hcheck, List.append_assoc, List.singleton_append]
  | case3 stack findings n hback hkind hcheck ih =>
    rw [ih, toList_of_back? hback, List.reverse_append, List.reverse_singleton, List.singleton_append,
      List.flatMap_cons, functions_of_function hkind, List.singleton_append, List.filterMap_cons,
      hcheck]
  | case4 stack findings n hback hkind ih =>
    -- the children come off the stack in their own order, before all that was below their parent
    rw [ih, toList_of_back? hback, Array.toList_appendList, List.reverse_append, List.reverse_reverse,
      List.reverse_append, List.reverse_singleton, List.singleton_append, List.flatMap_cons,
      List.flatMap_append, functions_of_other hkind]

theorem toList_walk_root (text : List Char) (root : Node) :
    (walk text #[root] #[]).toList = (functions root).filterMap (checkFunction text) := by
  rw [toList_walk]
  simp

theorem mem_walk_root {text : List Char} {root : Node} {f : Finding} :
    f ∈ (walk text #[root] #[]).toList ↔
      ∃ function ∈ functions root, checkFunction text function = some f := by
  rw [toList_walk_root, List.mem_filterMap]

/-- A function definition at its path that is in no other one; all nodes on the way are named. -/
inductive FunctionAt : Node → List Nat → Node → Prop
  | here {n : Node} (hkind : n.kind = "function_definition") : FunctionAt n [] n
  | inside {n child function : Node} {i : Nat} {path : List Nat}
      (hkind : n.kind ≠ "function_definition") (hchild : n.children[i]? = some child)
      (hnamed : child.named = true) (h : FunctionAt child path function) :
      FunctionAt n (i :: path) function

theorem FunctionAt.at_path {root function : Node} {path : List Nat} (h : FunctionAt root path function) :
    root.at? path = some function ∧ function.kind = "function_definition" := by
  induction h with
  | here hkind => exact ⟨rfl, hkind⟩
  | inside _ hchild _ _ ih =>
    rw [at?, hchild]
    exact ih

mutual
/-- The function definitions of a tree with their paths. -/
def functionPlaces : Node → List (List Nat × Node)
  | ⟨kind, named, role, hasError, labels, start, stop, children⟩ =>
    if kind = "function_definition" then
      [([], ⟨kind, named, role, hasError, labels, start, stop, children⟩)]
    else functionPlacesOf 0 children

def functionPlacesOf (i : Nat) : List Node → List (List Nat × Node)
  | [] => []
  | n :: ns =>
    (if n.named then (functionPlaces n).map fun x => (i :: x.1, x.2) else [])
      ++ functionPlacesOf (i + 1) ns
end

mutual
theorem functions_eq : ∀ n : Node, functions n = (functionPlaces n).map Prod.snd
  | ⟨kind, named, role, hasError, labels, start, stop, children⟩ => by
    unfold functions functionPlaces
    split
    · rfl
    · exact functionsOf_eq children 0

theorem functionsOf_eq : ∀ (ns : List Node) (k : Nat),
    functionsOf ns = (functionPlacesOf k ns).map Prod.snd
  | [], _ => by
    rw [functionsOf, functionPlacesOf, List.map_nil]
  | n :: ns, k => by
    have hrest := functionsOf_eq ns (k + 1)
    rw [functionsOf, functionPlacesOf, List.map_append, ← hrest]
    split
    · rw [functions_eq n, List.map_map]
      rfl
    · rfl
end

mutual
theorem functionPlaces_sublist : ∀ n : Node, (functionPlaces n).Sublist n.places
  | ⟨kind, named, role, hasError, labels, start, stop, children⟩ => by
    unfold functionPlaces
    rw [places]
    split
    · exact List.singleton_sublist.mpr List.mem_cons_self
    · exact (functionPlacesOf_sublist children 0).cons _

theorem functionPlacesOf_sublist : ∀ (ns : List Node) (k : Nat),
    (functionPlacesOf k ns).Sublist (placesOf k ns)
  | [], _ => by
    rw [functionPlacesOf]
    exact List.nil_sublist _
  | n :: ns, k => by
    have hrest := functionPlacesOf_sublist ns (k + 1)
    rw [functionPlacesOf, placesOf]
    split
    · exact ((functionPlaces_sublist n).map _).append hrest
    · exact hrest.trans (List.sublist_append_right _ _)
end

mutual
theorem mem_functionPlaces : ∀ (n : Node) (path : List Nat) (function : Node),
    (path, function) ∈ functionPlaces n ↔ FunctionAt n path function
  | ⟨kind, named, role, hasError, labels, start, stop, children⟩, path, function => by
    unfold functionPlaces
    split
    · next hkind =>
      rw [List.mem_singleton, Prod.mk.injEq]
      constructor
      · rintro ⟨rfl, rfl⟩
        exact .here hkind
      · intro h
        cases h with
        | here => exact ⟨rfl, rfl⟩
        | inside hne => exact absurd hkind hne
    · next hkind =>
      rw [mem_functionPlacesOf children 0 path function]
      constructor
      · rintro ⟨i, rest, child, rfl, hchild, hnamed, h⟩
        rw [Nat.zero_add]
        exact .inside hkind hchild hnamed h
      · intro h
        cases h with
        | here hkind' => exact absurd hkind' hkind
        | @inside _ child _ i rest _ hchild hnamed h =>
          exact ⟨i, rest, child, by rw [Nat.zero_add], hchild, hnamed, h⟩

theorem mem_functionPlacesOf : ∀ (ns : List Node) (k : Nat) (path : List Nat) (function : Node),
    (path, function) ∈ functionPlacesOf k ns ↔ ∃ i rest child, path = (k + i) :: rest ∧
      ns[i]? = some child ∧ child.named = true ∧ FunctionAt child rest function
  | [], k, path, function => by simp [functionPlacesOf]
  | n :: ns, k, path, function => by
    have hfirst : (path, function) ∈ (if n.named then (functionPlaces n).map fun x => (k :: x.1, x.2)
        else []) ↔ ∃ rest, path = k :: rest ∧ n.named = true ∧ FunctionAt n rest function := by
      split
      · next hnamed =>
        simp only [List.mem_map, Prod.mk.injEq, Prod.exists, mem_functionPlaces n, hnamed, true_and]
        grind
      · next hnamed => simp [hnamed]
    rw [functionPlacesOf, List.mem_append, mem_functionPlacesOf ns (k + 1) path function, hfirst]
    constructor
    · rintro (⟨rest, rfl, hnamed, h⟩ | ⟨i, rest, child, rfl, hchild, hnamed, h⟩)
      · exact ⟨0, rest, n, rfl, rfl, hnamed, h⟩
      · exact ⟨i + 1, rest, child, by congr 1; omega, hchild, hnamed, h⟩
    · rintro ⟨i, rest, child, rfl, hchild, hnamed, h⟩
      cases i with
      | zero =>
        cases hchild
        exact Or.inl ⟨rest, rfl, hnamed, h⟩
      | succ i => exact Or.inr ⟨i, rest, child, by congr 1; omega, hchild, hnamed, h⟩
end

theorem exists_path_of_mem_functions {root function : Node} (h : function ∈ functions root) :
    ∃ path, root.at? path = some function := by
  rw [functions_eq] at h
  obtain ⟨⟨path, n⟩, hmem, rfl⟩ := List.mem_map.mp h
  exact ⟨path, ((mem_functionPlaces root path n).mp hmem).at_path.1⟩

/-- A function is not of plain type `void`, and no statement directly in its body is a return. -/
structure LacksReturn (text : List Char) (function : Node) : Prop where
  not_void : ¬ ((∃ t, function.child? "type" = some t ∧ Text.trim (textOf text t) = "void".toList) ∧
    ∃ d, function.child? "declarator" = some d ∧ d.kind = "function_declarator")
  no_return : ∃ body, function.child? "body" = some body ∧
    ∀ statement ∈ body.children, statement.named = true → statement.kind ≠ "return_statement"

theorem returnsVoid_iff (text : List Char) (function : Node) :
    returnsVoid text function = true ↔
      (∃ t, function.child? "type" = some t ∧ Text.trim (textOf text t) = "void".toList) ∧
        ∃ d, function.child? "declarator" = some d ∧ d.kind = "function_declarator" := by
  unfold returnsVoid
  rw [Bool.and_eq_true]
  refine and_congr ?_ ?_
  · cases function.child? "type" <;> simp
  · cases function.child? "declarator" <;> simp

theorem hasReturn_eq_false_iff (body : Node) : hasReturn body = false ↔
    ∀ statement ∈ body.children, statement.named = true → statement.kind ≠ "return_statement" := by
  simp [hasReturn, namedChildren]

theorem lacksReturn_of_checkFunction {text : List Char} {function : Node} {f : Finding}
    (h : checkFunction text function = some f) :
    LacksReturn text function ∧ f.category = .missingReturn ∧ f.line = function.start.row + 1 := by
  obtain ⟨hvoid, ⟨body, hbody, hreturn⟩, rfl⟩ := checkFunction_eq_some_iff.mp h
  have hstatements := (hasReturn_eq_false_iff body).mp hreturn
  have hvalue := mt (returnsVoid_iff text function).mpr (by simp [hvoid])
  exact ⟨⟨hvalue, body, hbody, hstatements⟩, rfl, rfl⟩

theorem LacksReturn.isSome_checkFunction {text : List Char} {function : Node}
    (h : LacksReturn text function) : (checkFunction text function).isSome = true := by
  obtain ⟨hvoid, body, hbody, hstatements⟩ := h
  have hreturn := (hasReturn_eq_false_iff body).mpr hstatements
  have hvalue := eq_false_of_ne_true (mt (returnsVoid_iff text function).mp hvoid)
  exact Option.isSome_iff_exists.mpr
    ⟨_, checkFunction_eq_some_iff.mpr ⟨hvalue, ⟨body, hbody, hreturn⟩, rfl⟩⟩

/-- The finding on the function at a path. -/
def FoundAt (text : List Char) (root : Node) (path : List Nat) (f : Finding) : Prop :=
  ∃ function, root.at? path = some function ∧ function.kind = "function_definition" ∧
    LacksReturn text function ∧ f.category = .missingReturn ∧ f.line = function.start.row + 1

theorem forall₂_filterMap {text : List Char} {root : Node} {xs : List (List Nat × Node)}
    (h : ∀ x ∈ xs, root.at? x.1 = some x.2 ∧ x.2.kind = "function_definition") :
    List.Forall₂ (FoundAt text root)
      ((xs.filter fun x => (checkFunction text x.2).isSome).map Prod.fst)
      ((xs.map Prod.snd).filterMap (checkFunction text)) := by
  induction xs with
  | nil => exact .nil
  | cons x xs ih =>
    obtain ⟨⟨hat, hkind⟩, hrest⟩ := List.forall_mem_cons.mp h
    rw [List.filter_cons, List.map_cons, List.filterMap_cons]
    cases hcheck : checkFunction text x.2 with
    | none => exact ih hrest
    | some f => exact .cons ⟨x.2, hat, hkind, lacksReturn_of_checkFunction hcheck⟩ (ih hrest)

theorem lacksReturn_iff_isSome_checkFunction (text : List Char) (function : Node) :
    LacksReturn text function ↔ (checkFunction text function).isSome = true := by
  constructor
  · exact LacksReturn.isSome_checkFunction
  · intro h
    obtain ⟨f, hf⟩ := Option.isSome_iff_exists.mp h
    exact (lacksReturn_of_checkFunction hf).1

/-- What is found is found at the functions that lack a return, in document order and at each once. -/
theorem exists_paths_iff_functionAt (text : List Char) (root : Node) :
    ∃ paths : List (List Nat), paths.Pairwise (· < ·) ∧
      List.Forall₂ (FoundAt text root) paths (walk text #[root] #[]).toList ∧
      ∀ path, path ∈ paths ↔ ∃ function, FunctionAt root path function ∧ LacksReturn text function := by
  refine ⟨((functionPlaces root).filter fun x => (checkFunction text x.2).isSome).map Prod.fst,
    ?_, ?_, fun path => ?_⟩
  · rw [List.pairwise_map]
    exact (pairwise_places root).sublist (List.filter_sublist.trans (functionPlaces_sublist root))
  · rw [toList_walk_root, functions_eq]
    exact forall₂_filterMap fun x hx => ((mem_functionPlaces root x.1 x.2).mp hx).at_path
  · simp only [List.mem_map, List.mem_filter, Prod.exists, exists_eq_right, exists_and_right,
      mem_functionPlaces, lacksReturn_iff_isSome_checkFunction]

/-! ## Main result -/

/-- A statement that is not only a semicolon. -/
structure IsLoose (n : Node) : Prop where
  named : n.named = true
  statement : n.kind.endsWith "_statement" = true
  not_empty : ¬ (n.kind = "expression_statement" ∧ ∀ m ∈ n.children, m.named = false)

/-- The node that makes a tree faulty: the first bad one, or if there is none, the first loose
statement directly in the root. -/
inductive FaultAt (root : Node) : Node → Prop
  | bad {path : List Nat} {n : Node} (h : root.FirstAt IsBad path n) : FaultAt root n
  | loose {before after : List Node} {n : Node}
      (hsound : ∀ path m, root.at? path = some m → ¬ IsBad m)
      (hsplit : root.children = before ++ n :: after) (hbefore : ∀ m ∈ before, ¬ IsLoose m)
      (hn : IsLoose n) : FaultAt root n

/-- Some node is bad, or a child of the root is a loose statement. -/
def Faulty (root : Node) : Prop :=
  (∃ path n, root.at? path = some n ∧ IsBad n) ∨ ∃ n ∈ root.children, IsLoose n

theorem isLoose_iff (n : Node) :
    IsLoose n ↔ n.named = true ∧ (isStatement n && !isEmptyStatement n) = true := by
  have hempty : isEmptyStatement n = true ↔
      n.kind = "expression_statement" ∧ ∀ m ∈ n.children, m.named = false := by
    simp [isEmptyStatement, namedChildren]
  rw [Bool.and_eq_true, Bool.not_eq_true', ← Bool.not_eq_true, hempty]
  constructor
  · rintro ⟨hnamed, hstatement, hempty⟩
    exact ⟨hnamed, hstatement, hempty⟩
  · rintro ⟨hnamed, hstatement, hempty⟩
    exact ⟨hnamed, hstatement, hempty⟩

instance : DecidablePred IsLoose := fun n => decidable_of_iff' _ (isLoose_iff n)

theorem faulty_iff (root : Node) :
    Faulty root ↔ (∃ x ∈ root.places, IsBad x.2) ∨ ∃ n ∈ root.children, IsLoose n := by
  simp only [Faulty, Prod.exists, mem_places]

instance : DecidablePred Faulty := fun root => decidable_of_iff' _ (faulty_iff root)

theorem find?_namedChildren (root : Node) :
    (root.namedChildren.find? fun n => isStatement n && !isEmptyStatement n)
      = root.children.find? fun n => IsLoose n := by
  rw [namedChildren, List.find?_filter]
  congr 1
  funext n
  exact decide_eq_decide.mpr (isLoose_iff n).symm

theorem fault?_spec (text : List Char) {root : Node} (hmarked : Marked root) :
    (∃ fault n, fault? text root = some fault ∧ FaultAt root n ∧ fault.place = n.start) ∨
      (fault? text root = none ∧ ¬ Faulty root) := by
  unfold fault?
  rw [guarded_firstBad_eq hmarked, find?_namedChildren]
  cases hbad : root.places.find? fun x => IsBad x.2 with
  | some x =>
    left
    dsimp only [Option.map_some]
    split
    · exact ⟨_, x.2, rfl, .bad (firstAt_of_find? hbad), rfl⟩
    · exact ⟨_, x.2, rfl, .bad (firstAt_of_find? hbad), rfl⟩
  | none =>
    have hsound := forall_not_of_find? hbad
    cases hloose : root.children.find? fun n => IsLoose n with
    | some n =>
      obtain ⟨hn, before, after, hsplit, hbefore⟩ := List.find?_eq_some_iff_append.mp hloose
      exact Or.inl ⟨_, n, rfl, .loose hsound hsplit (by simpa using hbefore) (by simpa using hn), rfl⟩
    | none =>
      refine Or.inr ⟨rfl, ?_⟩
      rintro (⟨path, n, hn, hnbad⟩ | ⟨n, hn, hnloose⟩)
      · exact hsound path n hn hnbad
      · simpa [hnloose] using List.find?_eq_none.mp hloose n hn

theorem FaultAt.faulty {root n : Node} (h : FaultAt root n) : Faulty root := by
  cases h with
  | bad h => exact Or.inl ⟨_, _, h.at_path, h.holds⟩
  | loose hsound hsplit hbefore hn => exact Or.inr ⟨n, by simp [hsplit], hn⟩

/-- Where nothing is bad, nothing has to be marked. -/
theorem marked_of_not_faulty {root : Node} (h : ¬ Faulty root) : Marked root := by
  have hsound : ∀ path n, root.at? path = some n → ¬ IsBad n :=
    fun path n hn hbad => h (Or.inl ⟨path, n, hn, hbad⟩)
  constructor
  · intro path n below bad hn hbelow hbad
    exact absurd hbad (hsound (path ++ below) bad (by rw [at?_append, hn, Option.bind_some, hbelow]))
  · intro hbad
    exact absurd hbad (hsound [] root rfl)

theorem scanTree_of_not_faulty {text : List Char} {root : Node} (h : ¬ Faulty root) :
    scanTree text root = (walk text #[root] #[]).toList := by
  rcases fault?_spec text (marked_of_not_faulty h) with ⟨fault, n, -, hat, -⟩ | ⟨hfault, -⟩
  · exact absurd hat.faulty h
  · rw [scanTree, hfault]

theorem Fault.description_of_place {f : Fault} {p : Position} (h : f.place = p) :
    f.description = "Syntax error: " ++ f.reason ++ " at line " ++ toString (p.row + 1)
      ++ ", column " ++ toString (p.column + 1) := by
  subst h
  rfl

/-- Whatever the tree, if its marks are set, a scan is either one syntax error or functions without a
return. It is a syntax error exactly if the tree is faulty, and then names the place of the fault.
Else there is a finding for each function that lacks a return, in document order. -/
theorem scanTree_of_any_tree (text : List Char) (root : Node) (hmarked : Marked root) :
    (Faulty root ↔ ∃ f, scanTree text root = [f] ∧ f.category = .syntaxError ∧ f.line = 0) ∧
      (Faulty root → ∃ n reason, FaultAt root n ∧ scanTree text root =
        [.atLine .syntaxError 0 ("Syntax error: " ++ reason ++ " at line "
          ++ toString (n.start.row + 1) ++ ", column " ++ toString (n.start.column + 1)) .structural]) ∧
      (¬ Faulty root → ∃ paths : List (List Nat), paths.Pairwise (· < ·) ∧
        List.Forall₂ (FoundAt text root) paths (scanTree text root) ∧
        ∀ path, path ∈ paths ↔
          ∃ function, FunctionAt root path function ∧ LacksReturn text function) := by
  rcases fault?_spec text hmarked with ⟨fault, n, hfault, hat, hplace⟩ | ⟨-, hsound⟩
  · have hscan : scanTree text root = [.atLine .syntaxError 0 fault.description .structural] := by
      rw [scanTree, hfault]
    refine ⟨⟨fun _ => ⟨_, hscan, rfl, rfl⟩, fun _ => hat.faulty⟩,
      fun _ => ⟨n, fault.reason, hat, ?_⟩, fun hno => absurd hat.faulty hno⟩
    rw [hscan, Fault.description_of_place hplace]
  · obtain ⟨paths, hpaths, hfound, hmem⟩ := exists_paths_iff_functionAt text root
    rw [← scanTree_of_not_faulty hsound] at hfound
    refine ⟨⟨fun h => absurd h hsound, ?_⟩, fun h => absurd h hsound,
      fun _ => ⟨paths, hpaths, hfound, hmem⟩⟩
    rintro ⟨f, hf, hcategory, -⟩
    rw [hf] at hfound
    cases hfound with
    | cons hf' _ =>
      obtain ⟨function, -, -, -, hcategory', -⟩ := hf'
      rw [hcategory'] at hcategory
      cases hcategory

/-- The text of a function `f` in which a parenthesis is not closed, and of a function `g` behind it
that is no function at all. -/
def twoFaultsText : List Char := "int f() \x7b\n  return (1;\n\x7d\nint g( \x7b\x7d".toList

def twoFaults : Node :=
  ⟨"source_text", true, .plain, true, [], ⟨0, 0, 0⟩, ⟨34, 3, 9⟩, [
    ⟨"function_definition", true, .plain, true, [], ⟨0, 0, 0⟩, ⟨24, 2, 1⟩, [
      ⟨"primitive_type", true, .plain, false, ["type"], ⟨0, 0, 0⟩, ⟨3, 0, 3⟩, []⟩,
      ⟨"function_declarator", true, .plain, false, ["declarator"], ⟨4, 0, 4⟩, ⟨7, 0, 7⟩, [
        ⟨"identifier", true, .plain, false, ["declarator"], ⟨4, 0, 4⟩, ⟨5, 0, 5⟩, []⟩,
        ⟨"parameter_list", true, .plain, false, [], ⟨5, 0, 5⟩, ⟨7, 0, 7⟩, [
          ⟨"(", false, .plain, false, [], ⟨5, 0, 5⟩, ⟨6, 0, 6⟩, []⟩,
          ⟨")", false, .plain, false, [], ⟨6, 0, 6⟩, ⟨7, 0, 7⟩, []⟩]⟩]⟩,
      ⟨"compound_statement", true, .plain, true, ["body"], ⟨8, 0, 8⟩, ⟨24, 2, 1⟩, [
        ⟨"\x7b", false, .plain, false, [], ⟨8, 0, 8⟩, ⟨9, 0, 9⟩, []⟩,
        ⟨"return_statement", true, .plain, true, [], ⟨12, 1, 2⟩, ⟨22, 1, 12⟩, [
          ⟨"return", false, .plain, false, [], ⟨12, 1, 2⟩, ⟨18, 1, 8⟩, []⟩,
          ⟨"parenthesized_expression", true, .plain, true, [], ⟨19, 1, 9⟩, ⟨21, 1, 11⟩, [
            ⟨"(", false, .plain, false, [], ⟨19, 1, 9⟩, ⟨20, 1, 10⟩, []⟩,
            ⟨"number_literal", true, .plain, false, [], ⟨20, 1, 10⟩, ⟨21, 1, 11⟩, []⟩,
            ⟨")", false, .missing, true, [], ⟨21, 1, 11⟩, ⟨21, 1, 11⟩, []⟩]⟩,
          ⟨";", false, .plain, false, [], ⟨21, 1, 11⟩, ⟨22, 1, 12⟩, []⟩]⟩,
        ⟨"\x7d", false, .plain, false, [], ⟨23, 2, 0⟩, ⟨24, 2, 1⟩, []⟩]⟩]⟩,
    ⟨"ERROR", true, .error, true, [], ⟨25, 3, 0⟩, ⟨34, 3, 9⟩, [
      ⟨"primitive_type", true, .plain, false, ["type"], ⟨25, 3, 0⟩, ⟨28, 3, 3⟩, []⟩,
      ⟨"identifier", true, .plain, false, [], ⟨29, 3, 4⟩, ⟨30, 3, 5⟩, []⟩,
      ⟨"(", false, .plain, false, [], ⟨30, 3, 5⟩, ⟨31, 3, 6⟩, []⟩,
      ⟨"compound_statement", true, .plain, false, [], ⟨32, 3, 7⟩, ⟨34, 3, 9⟩, [
        ⟨"\x7b", false, .plain, false, [], ⟨32, 3, 7⟩, ⟨33, 3, 8⟩, []⟩,
        ⟨"\x7d", false, .plain, false, [], ⟨33, 3, 8⟩, ⟨34, 3, 9⟩, []⟩]⟩]⟩]⟩

/-- The first of the two faults is reported: the parenthesis that is missing, behind nodes that the
search does not go into. -/
theorem scanTree_of_two_faults : Marked twoFaults ∧ Faulty twoFaults ∧
    (∃ n reason, FaultAt twoFaults n ∧ scanTree twoFaultsText twoFaults =
      [.atLine .syntaxError 0 ("Syntax error: " ++ reason ++ " at line "
        ++ toString (n.start.row + 1) ++ ", column " ++ toString (n.start.column + 1)) .structural]) ∧
    (scanTree twoFaultsText twoFaults).map (·.description)
      = ["Syntax error: missing `)` at line 2, column 12"] := by
  have hmarked : Marked twoFaults := by decide +kernel
  have hfaulty : Faulty twoFaults := by decide +kernel
  obtain ⟨-, hfault, -⟩ := scanTree_of_any_tree twoFaultsText twoFaults hmarked
  exact ⟨hmarked, hfaulty, hfault hfaulty, by decide +kernel⟩

end Structural

end DefectScan
