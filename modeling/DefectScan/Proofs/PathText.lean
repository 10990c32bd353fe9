import DefectScan.Files.Path
import Mathlib.Data.List.DropRight
import Mathlib.Tactic.MkIffOfInductiveProp

/-!
# Paths below a directory

A file in a directory has the path of the directory, a slash and its name. The parts of such a path
are those of the directory and the name (`parts_below`), the sibling with another extension stands in
the same directory (`withExtension_below`), and the path above it has the same components as the
directory's (`exists_parent_below`).
-/

namespace DefectScan.Path

/-! ## Parts -/

theorem parts_go_eq (cs : List Char) : parts.go cs = cs.splitOn '/' := by
  induction cs with
  | nil => rw [parts.go, List.splitOn_nil]
  | cons c cs ih =>
    rw [parts.go, List.splitOn_cons_eq_if_modifyHead, ih]
    by_cases hc : c = '/'
    · simp [hc]
    · rw [if_neg hc, if_neg (by simpa using hc)]
      cases hsplit : cs.splitOn '/' with
      | nil => exact absurd hsplit (List.splitOn_ne_nil _ _)
      | cons x xs => rfl

theorem parts_eq (p : String) : parts p = (p.toList.splitOn '/').map String.ofList := by
  rw [parts, parts_go_eq]

theorem parts_ne_nil (p : String) : parts p ≠ [] := by
  rw [parts_eq, ne_eq, List.map_eq_nil_iff]
  exact List.splitOn_ne_nil _ _

theorem parts_append (a b : String) : parts (a ++ "/" ++ b) = parts a ++ parts b := by
  have htext : (a ++ "/" ++ b).toList = a.toList ++ '/' :: b.toList := by simp
  rw [parts_eq, htext, List.splitOn_append_cons_self, List.map_append, ← parts_eq, ← parts_eq]

theorem parts_of_not_mem {name : String} (h : '/' ∉ name.toList) : parts name = [name] := by
  rw [parts_eq, List.splitOn_eq_singleton h, List.map_singleton, String.ofList_toList]

theorem ofParts_parts (p : String) : ofParts (parts p) = p := by
  apply String.toList_inj.mp
  rw [ofParts, String.toList_intercalate, parts_eq, List.map_map]
  have hid : (String.toList ∘ String.ofList) = id := funext fun cs => String.toList_ofList
  rw [hid, List.map_id]
  exact List.intercalate_splitOn '/'

theorem parts_ofParts {ps : List String} (hne : ps ≠ []) (h : ∀ part ∈ ps, '/' ∉ part.toList) :
    parts (ofParts ps) = ps := by
  have hchars : ∀ cs ∈ ps.map String.toList, '/' ∉ cs := by
    simpa only [List.forall_mem_map] using h
  have hsplit : (ofParts ps).toList.splitOn '/' = ps.map String.toList := by
    rw [ofParts, String.toList_intercalate]
    exact List.splitOn_intercalate '/' hchars (by simpa using hne)
  rw [parts_eq, hsplit, List.map_map]
  have hid : (String.ofList ∘ String.toList) = id := funext fun s => String.ofList_toList
  rw [hid, List.map_id]

theorem not_mem_of_mem_splitOn {text cs : List Char} (h : cs ∈ text.splitOn '/') : '/' ∉ cs := by
  induction text generalizing cs with
  | nil =>
    rw [List.splitOn_nil, List.mem_singleton] at h
    simp [h]
  | cons c text ih =>
    rw [List.splitOn_cons_eq_if_modifyHead] at h
    split at h
    · rcases List.mem_cons.mp h with rfl | h
      · exact List.not_mem_nil
      · exact ih h
    · next hc =>
      cases hsplit : text.splitOn '/' with
      | nil => exact absurd hsplit (List.splitOn_ne_nil _ _)
      | cons first others =>
        rw [hsplit] at h ih
        rcases List.mem_cons.mp h with rfl | h
        · have hfirst : '/' ∉ first := ih List.mem_cons_self
          have hne : '/' ≠ c := fun heq => hc (beq_iff_eq.mpr heq.symm)
          simp [hfirst, hne]
        · exact ih (List.mem_cons_of_mem _ h)

theorem not_mem_of_mem_parts {p part : String} (h : part ∈ parts p) : '/' ∉ part.toList := by
  rw [parts_eq] at h
  obtain ⟨cs, hcs, rfl⟩ := List.mem_map.mp h
  rw [String.toList_ofList]
  exact not_mem_of_mem_splitOn hcs

/-- A path whose first part is empty starts with a slash. -/
theorem isAbsolute_of_head? {p : String} (hne : p ≠ "") (h : (parts p).head? = some "") :
    isAbsolute p = true := by
  rw [parts_eq] at h
  cases htext : p.toList with
  | nil => exact absurd (String.toList_eq_nil_iff.mp htext) hne
  | cons c cs =>
    by_cases hc : c = '/'
    · simp [isAbsolute, htext, hc]
    · rw [htext, List.splitOn_cons_eq_if_modifyHead, if_neg (by simpa using hc)] at h
      cases hsplit : cs.splitOn '/' with
      | nil => exact absurd hsplit (List.splitOn_ne_nil _ _)
      | cons first others => simp [hsplit] at h

/-! ## Parts without those at the end that are no components -/

theorem exists_parts_eq (p : String) :
    ∃ voids, parts p = trimmedParts p ++ voids ∧ ∀ part ∈ voids, isVoid part = true := by
  refine ⟨((parts p).reverse.takeWhile isVoid).reverse, ?_, fun part hpart => ?_⟩
  · rw [trimmedParts, ← List.reverse_append, List.takeWhile_append_dropWhile, List.reverse_reverse]
  · exact List.mem_takeWhile_imp (List.mem_reverse.mp hpart)

theorem parts_ofParts_trimmedParts {p : String} (h : trimmedParts p ≠ []) :
    parts (ofParts (trimmedParts p)) = trimmedParts p := by
  obtain ⟨voids, hparts, -⟩ := exists_parts_eq p
  refine parts_ofParts h fun part hpart => ?_
  have hmem : part ∈ parts p := hparts ▸ List.mem_append_left voids hpart
  exact not_mem_of_mem_parts hmem

theorem trimmedParts_ofParts (p : String) :
    trimmedParts (ofParts (trimmedParts p)) = trimmedParts p := by
  by_cases h : trimmedParts p = []
  · rw [h]
    decide +kernel
  · rw [trimmedParts, parts_ofParts_trimmedParts h, trimmedParts, List.reverse_reverse,
      List.dropWhile_idempotent]

theorem ofParts_trimmedParts_ne {p : String} (h : trimmedParts p ≠ []) :
    ofParts (trimmedParts p) ≠ "" := by
  intro hempty
  have htrimmed := trimmedParts_ofParts p
  rw [hempty] at htrimmed
  exact h (htrimmed.symm.trans (by decide +kernel))

/-- The text of the trimmed parts stands at the start of the path. -/
theorem exists_eq_append (p : String) : ∃ rest, p = ofParts (trimmedParts p) ++ rest := by
  obtain ⟨voids, hparts, -⟩ := exists_parts_eq p
  have htext : p = ofParts (trimmedParts p ++ voids) := by rw [← hparts, ofParts_parts]
  by_cases htrimmed : trimmedParts p = []
  · refine ⟨p, ?_⟩
    rw [htrimmed]
    simp [ofParts]
  · by_cases hvoids : voids = []
    · refine ⟨"", ?_⟩
      rw [hvoids, List.append_nil] at htext
      simpa using htext
    · refine ⟨"/" ++ ofParts voids, ?_⟩
      rw [ofParts, String.intercalate_append_of_ne_nil htrimmed hvoids, String.append_assoc] at htext
      exact htext

theorem utf8ByteSize_ofParts_le (p : String) :
    (ofParts (trimmedParts p)).utf8ByteSize ≤ p.utf8ByteSize := by
  obtain ⟨rest, hrest⟩ := exists_eq_append p
  have hsize := congrArg String.utf8ByteSize hrest
  rw [String.utf8ByteSize_append] at hsize
  omega

theorem mem_of_mem_ofParts {p : String} {c : Char} (h : c ∈ (ofParts (trimmedParts p)).toList) :
    c ∈ p.toList := by
  obtain ⟨rest, hrest⟩ := exists_eq_append p
  rw [hrest, String.toList_append]
  exact List.mem_append_left _ h

/-! ## Names -/

/-- A name that a file in a directory can have. -/
@[mk_iff]
structure Plain (name : String) : Prop where
  ne_empty : name ≠ ""
  no_slash : '/' ∉ name.toList
  ne_dot : name ≠ "."
  ne_up : name ≠ ".."

instance : DecidablePred Plain := fun name => decidable_of_iff _ (plain_iff name).symm

section
variable {dir name : String}

theorem Plain.not_void (h : Plain name) : isVoid name = false := by
  simp [isVoid, h.ne_empty, h.ne_dot]

theorem parts_below (dir : String) (h : Plain name) :
    parts (dir ++ "/" ++ name) = parts dir ++ [name] := by
  rw [parts_append, parts_of_not_mem h.no_slash]

theorem ofParts_below (dir : String) (h : Plain name) :
    ofParts (parts dir ++ [name]) = dir ++ "/" ++ name := by
  rw [← parts_below dir h, ofParts_parts]

theorem trimmedParts_below (dir : String) (h : Plain name) :
    trimmedParts (dir ++ "/" ++ name) = parts dir ++ [name] := by
  rw [trimmedParts, parts_below dir h, List.reverse_concat, List.dropWhile_cons,
    if_neg (by simp [h.not_void]), ← List.reverse_concat, List.reverse_reverse]

theorem getLast?_components_below (dir : String) (h : Plain name) :
    (components (dir ++ "/" ++ name)).getLast? = some (.normal name) := by
  rw [components, parts_below dir h]
  simp [h.not_void, componentOf, h.ne_up]

theorem withExtension_below (dir extension : String) (h : Plain name)
    (hsibling : Plain ((splitName name).1 ++ "." ++ extension)) :
    withExtension (dir ++ "/" ++ name) extension
      = dir ++ "/" ++ ((splitName name).1 ++ "." ++ extension) := by
  have hname : fileName? (dir ++ "/" ++ name) = some name := by
    rw [fileName?, getLast?_components_below dir h]
  rw [withExtension, hname, trimmedParts_below dir h, List.dropLast_concat]
  exact ofParts_below dir hsibling

theorem void_of_trimmedParts (h : trimmedParts dir = []) {part : String} (hpart : part ∈ parts dir) :
    isVoid part = true := by
  obtain ⟨voids, hparts, hvoids⟩ := exists_parts_eq dir
  rw [hparts, h, List.nil_append] at hpart
  exact hvoids part hpart

/-- A relative path to a file starts with a dot, if no component stands before its name. -/
theorem head?_of_not_absolute (h : Plain name) (habsolute : ¬ isAbsolute (dir ++ "/" ++ name) = true)
    (htrimmed : trimmedParts dir = []) : (parts (dir ++ "/" ++ name)).head? = some "." := by
  obtain ⟨first, others, hparts⟩ := List.exists_cons_of_ne_nil (parts_ne_nil dir)
  have hhead : (parts (dir ++ "/" ++ name)).head? = some first := by
    rw [parts_below dir h, hparts, List.cons_append, List.head?_cons]
  have hfirst : isVoid first = true := void_of_trimmedParts htrimmed (hparts ▸ List.mem_cons_self)
  rw [isVoid, Bool.or_eq_true, decide_eq_true_eq, decide_eq_true_eq] at hfirst
  rcases hfirst with rfl | rfl
  · exact absurd (isAbsolute_of_head? (by simp [String.append_eq_empty_iff]) hhead) habsolute
  · exact hhead

/-- The path above a file in a directory has the components of the directory's path. -/
theorem exists_parent_below (dir : String) (h : Plain name) :
    ∃ up, parent? (dir ++ "/" ++ name) = some up ∧ up ≠ "" ∧ trimmedParts up = trimmedParts dir ∧
      up.utf8ByteSize ≤ max 1 dir.utf8ByteSize ∧ ('\x00' ∈ up.toList → '\x00' ∈ dir.toList) := by
  have hparent : parent? (dir ++ "/" ++ name) = if (trimmedParts dir).isEmpty then
      some (if isAbsolute (dir ++ "/" ++ name) then "/"
        else if (parts (dir ++ "/" ++ name)).head? = some "." then "." else "")
      else some (ofParts (trimmedParts dir)) := by
    rw [parent?, getLast?_components_below dir h]
    simp only [trimmedParts_below dir h, List.dropLast_concat]
    rfl
  by_cases htrimmed : trimmedParts dir = []
  · rw [htrimmed, List.isEmpty_nil, if_pos rfl] at hparent
    rw [htrimmed]
    by_cases habsolute : isAbsolute (dir ++ "/" ++ name) = true
    · rw [if_pos habsolute] at hparent
      refine ⟨"/", hparent, by decide, by decide +kernel, Nat.le_max_left 1 _, fun hend => ?_⟩
      simp at hend
    · rw [if_neg habsolute, if_pos (head?_of_not_absolute h habsolute htrimmed)] at hparent
      refine ⟨".", hparent, by decide, by decide +kernel, Nat.le_max_left 1 _, fun hend => ?_⟩
      simp at hend
  · rw [if_neg (by simpa using htrimmed)] at hparent
    have hsize : (ofParts (trimmedParts dir)).utf8ByteSize ≤ max 1 dir.utf8ByteSize :=
      (utf8ByteSize_ofParts_le dir).trans (Nat.le_max_right 1 _)
    exact ⟨_, hparent, ofParts_trimmedParts_ne htrimmed, trimmedParts_ofParts dir, hsize,
      mem_of_mem_ofParts⟩

theorem trimmedParts_slash (dir : String) : trimmedParts (dir ++ "/") = trimmedParts dir := by
  have hparts : parts (dir ++ "/") = parts dir ++ [""] := by
    have hparts := parts_append dir ""
    rwa [String.append_empty, show parts "" = [""] from by decide +kernel] at hparts
  rw [trimmedParts, hparts, List.reverse_concat, List.dropWhile_cons, if_pos (by decide), trimmedParts]

/-- The path of a file in a directory, with one slash before its name. -/
theorem exists_join {root : String} (h : root ≠ "") :
    ∃ dir, (root = dir ∨ root = dir ++ "/") ∧
      ∀ name, Plain name → join root name = dir ++ "/" ++ name := by
  have hrelative (name : String) (hname : Plain name) : isAbsolute name = false := by
    cases htext : name.toList with
    | nil => simp [isAbsolute, htext]
    | cons c cs =>
      have hc : c ≠ '/' := fun hc => hname.no_slash (by simp [htext, hc])
      simp [isAbsolute, htext, hc]
  by_cases hslash : root.toList.getLast? = some '/'
  · obtain ⟨front, hfront⟩ := List.getLast?_eq_some_iff.mp hslash
    have hroot : root = String.ofList front ++ "/" := String.toList_inj.mp (by simp [hfront])
    refine ⟨String.ofList front, .inr hroot, fun name hname => ?_⟩
    rw [join, hrelative name hname, if_neg (by simpa using h), if_pos hslash, ← hroot]
  · refine ⟨root, .inl rfl, fun name hname => ?_⟩
    rw [join, hrelative name hname, if_neg (by simpa using h), if_neg hslash]

theorem mem_of_mem_splitName {c : Char} (h : c ∈ (splitName name).1.toList) : c ∈ name.toList := by
  rw [splitName] at h
  split at h
  · exact h
  · rw [String.toList_ofList] at h
    exact List.mem_of_mem_take h

theorem plain_sibling (h : Plain name) : Plain ((splitName name).1 ++ "." ++ "tmp") := by
  have hlength : 4 ≤ ((splitName name).1 ++ "." ++ "tmp").toList.length := by simp
  refine ⟨?_, fun hslash => ?_, ?_, ?_⟩
  · intro heq
    simp [heq] at hlength
  · rw [String.toList_append, String.toList_append, List.mem_append, List.mem_append] at hslash
    rcases hslash with (hslash | hslash) | hslash
    · exact h.no_slash (mem_of_mem_splitName hslash)
    · simp at hslash
    · simp at hslash
  · intro heq
    simp [heq] at hlength
  · intro heq
    simp [heq] at hlength

end

end DefectScan.Path
