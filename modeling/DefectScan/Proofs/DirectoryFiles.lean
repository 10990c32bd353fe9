import DefectScan.Proofs.TreeWalk
import Mathlib.Logic.Function.Basic

/-!
# Files in one directory

What the files of a directory hold is a map from names to contents (`Holds`). Where the directory was
empty and only its files are read and replaced since, each operation is one on this map: a read finds
what is held (`Files.run_readOptional`), and a file that is replaced by way of its sibling leaves the map
`Files.left` (`Files.run_replace`). The rest of the tree stays as it was, so the path of the directory
leads there still, over links and all.
-/

namespace DefectScan

namespace Entry

/-! ## Files in one directory -/

/-- A path leads to a directory in which nothing is yet; `dir` is the path before the slash that
stands before the names of the files. -/
structure Fresh (t : Entry) (root dir : String) (names : List String) : Prop where
  leads : Leads t true maxLinks [] (Path.trimmedParts dir) names
  empty : t.get? names = some (directory [])
  join : ∀ name, Path.Plain name → Path.join root name = dir ++ "/" ++ name
  no_end : '\x00' ∉ dir.toList
  short : dir.utf8ByteSize ≤ maxPath

theorem exists_fresh {t : Entry} {root : String} (h : t.at? root = some (directory [])) :
    ∃ dir names, Fresh t root dir names := by
  rw [at?] at h
  split at h
  · next names hlocate =>
    obtain ⟨hne, hend, hshort, hfollow⟩ := locate_eq_ok_iff.mp hlocate
    obtain ⟨dir, hdir, hjoin⟩ := Path.exists_join hne
    obtain ⟨voids, hparts, hvoids⟩ := Path.exists_parts_eq root
    have hleads := (follow_eq_present_iff.mp hfollow).of_append hparts hvoids
    rcases hdir with rfl | rfl
    · exact ⟨root, names, hleads, h, hjoin, hend, hshort⟩
    · rw [Path.trimmedParts_slash] at hleads
      rw [String.toList_append] at hend
      rw [String.utf8ByteSize_append] at hshort
      exact ⟨dir, names, hleads, h, hjoin, fun hmem => hend (List.mem_append_left _ hmem),
        Nat.le_of_add_right_le hshort⟩
  · cases h

/-- The entries of a directory are files that hold this. -/
structure Holds (entries : List (String × Entry)) (held : String → Option ByteArray) : Prop where
  lookup : ∀ name, entries.lookup name = (held name).map file
  /-- A name stands once: what is removed is gone. -/
  nodup : (entries.map Prod.fst).Nodup
  /-- No long name gets in, so an entry that is there needs no check. -/
  short : ∀ name, (held name).isSome → name.utf8ByteSize ≤ maxName

section
variable {entries : List (String × Entry)} {held : String → Option ByteArray} {name : String}

theorem holds_nil : Holds [] fun _ => none :=
  ⟨fun _ => rfl, List.nodup_nil, fun _ h => nomatch h⟩

theorem Holds.put (h : Holds entries held) (hname : name.utf8ByteSize ≤ maxName) (content : ByteArray) :
    Holds (alter name (fun _ => some (file content)) entries)
      (Function.update held name (some content)) where
  lookup other := by
    by_cases hother : other = name
    · subst hother
      rw [lookup_alter_some, Function.update_self, Option.map_some]
    · rw [lookup_alter_of_ne hother, Function.update_of_ne hother, h.lookup]
  nodup := nodup_alter _ h.nodup
  short other hother := by
    by_cases heq : other = name
    · rwa [heq]
    · rw [Function.update_of_ne heq] at hother
      exact h.short other hother

theorem Holds.remove (h : Holds entries held) (name : String) :
    Holds (alter name (fun _ => none) entries) (Function.update held name none) where
  lookup other := by
    by_cases hother : other = name
    · subst hother
      rw [lookup_alter_none h.nodup, Function.update_self, Option.map_none]
    · rw [lookup_alter_of_ne hother, Function.update_of_ne hother, h.lookup]
  nodup := nodup_alter _ h.nodup
  short other hother := by
    by_cases heq : other = name
    · simp [heq] at hother
    · rw [Function.update_of_ne heq] at hother
      exact h.short other hother

end

/-- Why there can be no file of a name in the directory of a path. -/
def refusal? (root name : String) : Option FileError :=
  if (Path.join root name).toList.contains '\x00' then some .endInside
  else if maxPath < (Path.join root name).utf8ByteSize || maxName < name.utf8ByteSize then
    some .nameTooLong
  else none

theorem refusal?_cases {root name : String} {e : FileError} (h : refusal? root name = some e) :
    e = .endInside ∨ e = .nameTooLong := by
  rw [refusal?] at h
  split at h
  · exact .inl (Option.some_inj.mp h).symm
  · split at h
    · exact .inr (Option.some_inj.mp h).symm
    · cases h

theorem le_maxName_of_refusal? {root name : String} (h : refusal? root name = none) :
    name.utf8ByteSize ≤ maxName := by
  rw [refusal?] at h
  split at h
  · cases h
  · split at h
    · cases h
    · next hlong =>
      simp only [Bool.or_eq_true, decide_eq_true_eq, not_or, Nat.not_lt] at hlong
      exact hlong.2

section
variable {t : Entry} {root dir name : String} {names : List String} {entries : List (String × Entry)}
  {held : String → Option ByteArray}

theorem Fresh.directoryAt (h : Fresh t root dir names) (entries : List (String × Entry)) :
    (t.fill names entries).DirectoryAt names := by
  have hget := get?_fill h.empty entries []
  rw [List.append_nil] at hget
  exact ⟨entries, hget⟩

theorem Fresh.get?_file (h : Fresh t root dir names) (hholds : Holds entries held) (name : String) :
    (t.fill names entries).get? (names ++ [name]) = (held name).map file := by
  rw [get?_fill h.empty, get?, ← hholds.lookup]
  cases entries.lookup name <;> rfl

/-- Where the path of a file in the directory leads. -/
theorem Fresh.locate_file (h : Fresh t root dir names) (hholds : Holds entries held)
    (hname : Path.Plain name) (last : Bool) :
    (t.fill names entries).locate last (Path.join root name) = (refusal? root name).elim
      (.ok (if (held name).isSome then .present (names ++ [name]) else .absent names name)) .error := by
  have hnamed : Named name := ⟨hname.not_void, hname.ne_up⟩
  have hpath : Path.join root name ≠ "" := by
    rw [h.join name hname]
    simp [String.append_eq_empty_iff]
  obtain ⟨voids, hparts, hvoids⟩ := Path.exists_parts_eq dir
  have hfollow : ∃ fewer, follow (t.fill names entries) last maxLinks []
      (Path.parts (Path.join root name)) = follow (t.fill names entries) last fewer names [name] := by
    obtain ⟨fewer, hfewer⟩ := (h.leads.of_keeps (keeps_fill h.empty entries)).follow_append last
      (List.append_ne_nil_of_right_ne_nil voids (List.cons_ne_nil name []))
    refine ⟨fewer, ?_⟩
    rw [h.join name hname, Path.parts_below dir hname, hparts, List.append_assoc, hfewer,
      follow_voids (h.directoryAt entries) hvoids]
  obtain ⟨fewer, hfewer⟩ := hfollow
  have hget := h.get?_file hholds name
  rw [locate, if_neg hpath, refusal?]
  split
  · rfl
  · cases hheld : held name with
    | none =>
      rw [hheld] at hget
      rw [hfewer, follow_absent (h.directoryAt entries) hnamed hget]
      by_cases hlong : maxPath < (Path.join root name).utf8ByteSize
      · simp [hlong]
      · by_cases hlong' : maxName < name.utf8ByteSize <;> simp [hlong, hlong']
    | some content =>
      rw [hheld] at hget
      have hlink : ∀ target, file content ≠ link target := fun _ => Entry.noConfusion
      rw [hfewer, follow_step hnamed hget hlink, follow_nil]
      have hshort : ¬ maxName < name.utf8ByteSize :=
        Nat.not_lt.mpr (hholds.short name (by simp [hheld]))
      by_cases hlong : maxPath < (Path.join root name).utf8ByteSize <;> simp [hlong, hshort]

theorem Fresh.read_file (h : Fresh t root dir names) (hholds : Holds entries held)
    (hname : Path.Plain name) :
    (t.fill names entries).read (Path.join root name)
      = (refusal? root name).elim ((held name).elim (.error .notFound) .ok) .error := by
  have hget := h.get?_file hholds name
  rw [read, h.locate_file hholds hname]
  cases refusal? root name with
  | some e => rfl
  | none =>
    cases hheld : held name with
    | none => rfl
    | some content =>
      rw [hheld] at hget
      simp only [Option.elim_none, Option.elim_some, Option.isSome_some, if_true, bind, Except.bind,
        hget, Option.map_some]

theorem Fresh.write_file (h : Fresh t root dir names) (hholds : Holds entries held)
    (hname : Path.Plain name) (content : ByteArray) :
    (t.fill names entries).write (Path.join root name) content = (refusal? root name).elim
      (.ok (t.fill names (alter name (fun _ => some (file content)) entries))) .error := by
  have hget := h.get?_file hholds name
  rw [write, h.locate_file hholds hname]
  cases refusal? root name with
  | some e => rfl
  | none =>
    cases hheld : held name with
    | none => exact congrArg Except.ok (update_fill h.empty entries _ name)
    | some old =>
      rw [hheld] at hget
      simp only [Option.elim_none, Option.isSome_some, if_true, bind, Except.bind, hget,
        Option.map_some, update_fill h.empty]

theorem Fresh.locateTarget_file (h : Fresh t root dir names) (hname : Path.Plain name) (t' : Entry) :
    t'.locateTarget (Path.join root name) = t'.locate false (Path.join root name) := by
  have hparts : ((Path.parts (dir ++ "/" ++ name)).reverse.dropWhile (· = "")).reverse
      = Path.parts dir ++ [name] := by
    rw [Path.parts_below dir hname, List.reverse_concat, List.dropWhile_cons,
      if_neg (by simpa using hname.ne_empty), ← List.reverse_concat, List.reverse_reverse]
  rw [locateTarget, h.join name hname, hparts]
  simp only [List.getLast?_concat]
  rw [if_neg (by simp [hname.ne_dot, hname.ne_up]), Path.ofParts_below dir hname]

theorem Fresh.endsInSlash_file (h : Fresh t root dir names) (hname : Path.Plain name) :
    endsInSlash (Path.join root name) = false := by
  rw [endsInSlash, h.join name hname, decide_eq_false_iff_not]
  intro hslash
  cases hlast : name.toList.getLast? with
  | none => exact hname.ne_empty (String.toList_eq_nil_iff.mp (List.getLast?_eq_none_iff.mp hlast))
  | some c =>
    rw [String.toList_append, List.getLast?_append, hlast, Option.some_or, Option.some_inj] at hslash
    exact hname.no_slash (hslash ▸ List.mem_of_getLast? hlast)

/-- A file takes the place of another in its directory. -/
theorem Fresh.rename_file (h : Fresh t root dir names) (hholds : Holds entries held)
    {source target : String} (hsource : Path.Plain source) (htarget : Path.Plain target)
    (hrefusal : refusal? root source = none) {content : ByteArray}
    (hheld : held source = some content) :
    (t.fill names entries).rename (Path.join root source) (Path.join root target)
      = (refusal? root target).elim (.ok (t.fill names (if target = source then entries else
          alter target (fun _ => some (file content)) (alter source (fun _ => none) entries)))) .error := by
  have hget := h.get?_file hholds source
  rw [hheld] at hget
  have hplace := h.locate_file hholds hsource false
  rw [hrefusal, hheld] at hplace
  have hother := h.locate_file hholds htarget false
  rw [rename, hplace, h.locateTarget_file htarget, hother, h.endsInSlash_file htarget]
  cases refusal? root target with
  | some e => rfl
  | none =>
    simp only [Option.elim_none, bind, Except.bind, Option.isSome_some, if_true, hget, Option.map_some,
      isDirectory, Option.getD_some, Bool.not_false, Bool.true_and]
    have hmove : update (fun _ => some (file content)) (names ++ [target])
        (update (fun _ => none) (names ++ [source]) (t.fill names entries))
        = t.fill names (alter target (fun _ => some (file content))
          (alter source (fun _ => none) entries)) := by
      rw [update_fill h.empty, update_fill h.empty]
    cases hheld' : held target with
    | none =>
      have hne : target ≠ source := fun heq => by simp [heq, hheld] at hheld'
      rw [if_neg hne]
      exact congrArg Except.ok hmove
    | some old =>
      have hold := h.get?_file hholds target
      rw [hheld'] at hold
      by_cases heq : target = source
      · simp [heq]
      · simp only [Option.isSome_some, if_true, Bool.false_eq_true, if_false,
          List.append_cancel_left_eq, List.cons.injEq, and_true, heq, hold, Option.map_some,
          isDirectory, hmove]

/-! ## The directory itself -/

/-- A path with the same components leads to the directory too, and to something where the link at its
end is not followed. -/
theorem Fresh.locate_directory (h : Fresh t root dir names) (entries : List (String × Entry))
    {path : String} (htrimmed : Path.trimmedParts path = Path.trimmedParts dir) (hne : path ≠ "")
    (hend : '\x00' ∉ path.toList) (hshort : path.utf8ByteSize ≤ maxPath) :
    (t.fill names entries).locate true path = .ok (.present names) ∧
      ∃ names', (t.fill names entries).locate false path = .ok (.present names') := by
  have hleads : Leads (t.fill names entries) true maxLinks [] (Path.parts path) names := by
    obtain ⟨voids, hparts, hvoids⟩ := Path.exists_parts_eq path
    rw [hparts, htrimmed]
    exact (h.leads.of_keeps (keeps_fill h.empty entries)).append_voids (h.directoryAt entries) hvoids
  obtain ⟨names', hleads'⟩ := hleads.unfollowed
  exact ⟨locate_eq_ok_iff.mpr ⟨hne, hend, hshort, follow_eq_present_iff.mpr hleads⟩,
    names', locate_eq_ok_iff.mpr ⟨hne, hend, hshort, follow_eq_present_iff.mpr hleads'⟩⟩

theorem Fresh.makeDirectory_again (h : Fresh t root dir names) (entries : List (String × Entry))
    {path : String} (htrimmed : Path.trimmedParts path = Path.trimmedParts dir) (hne : path ≠ "")
    (hend : '\x00' ∉ path.toList) (hshort : path.utf8ByteSize ≤ maxPath) :
    (t.fill names entries).makeDirectory path = .error .exists := by
  have hexists : ∃ names', (t.fill names entries).locate false
      (if Path.ofParts (Path.trimmedParts path) = "" then path
        else Path.ofParts (Path.trimmedParts path)) = .ok (.present names') := by
    split
    · exact (h.locate_directory entries htrimmed hne hend hshort).2
    · next hne' =>
      exact (h.locate_directory entries ((Path.trimmedParts_ofParts path).trans htrimmed) hne'
        (fun hmem => hend (Path.mem_of_mem_ofParts hmem))
        ((Path.utf8ByteSize_ofParts_le path).trans hshort)).2
  obtain ⟨names', hlocate⟩ := hexists
  rw [makeDirectory]
  simp only [hlocate]
  rfl

end

end Entry

namespace TreeM

theorem run_changing (f : Entry → Except FileError Entry) (t : Entry) :
    (changing f).run t = match f t with
      | .ok t' => (.ok (), t')
      | .error e => (.error e, t) := by
  unfold changing
  cases h : f t with
  | ok t' => simp [h]; rfl
  | error e => simp [h]; rfl

theorem run_read (path : String) (t : Entry) :
    (FileSystem.read path : TreeM _).run t = (t.read path, t) := rfl

theorem run_kind? (path : String) (t : Entry) :
    (FileSystem.kind? path : TreeM _).run t = (t.kind? path, t) := rfl

theorem run_write (path : String) (content : ByteArray) (t : Entry) :
    (FileSystem.write path content : TreeM _).run t = match t.write path content with
      | .ok t' => (.ok (), t')
      | .error e => (.error e, t) :=
  run_changing _ t

theorem run_makeDirectory (path : String) (t : Entry) :
    (FileSystem.makeDirectory path : TreeM _).run t = match t.makeDirectory path with
      | .ok t' => (.ok (), t')
      | .error e => (.error e, t) :=
  run_changing _ t

theorem run_rename (source target : String) (t : Entry) :
    (FileSystem.rename source target : TreeM _).run t = match t.rename source target with
      | .ok t' => (.ok (), t')
      | .error e => (.error e, t) :=
  run_changing _ t

end TreeM

namespace Files

theorem exists_ancestors (path : String) : ∃ above, ancestors path = path :: above := by
  unfold ancestors
  cases (Path.components path).length with
  | zero => exact ⟨[], rfl⟩
  | succ n =>
    rw [ancestors.go]
    split
    · exact ⟨_, rfl⟩
    · exact ⟨[], rfl⟩

section
variable {t : Entry} {root dir name : String} {names : List String} {entries : List (String × Entry)}
  {held : String → Option ByteArray}

/-- The directory of the files is there: nothing is made. -/
theorem run_makeParent (h : t.Fresh root dir names) (entries : List (String × Entry))
    (hname : Path.Plain name) :
    (makeParent (Path.join root name) : TreeM (Except FileError Unit)).run
        (t.fill names entries) = (.ok (), t.fill names entries) := by
  obtain ⟨up, hup, hne, htrimmed, hsize, hend⟩ := Path.exists_parent_below dir hname
  obtain ⟨above, habove⟩ := exists_ancestors up
  have hend' : '\x00' ∉ up.toList := fun hmem => h.no_end (hend hmem)
  have hshort : up.utf8ByteSize ≤ Entry.maxPath := hsize.trans (Nat.max_le.mpr ⟨by decide, h.short⟩)
  have hmake := h.makeDirectory_again entries htrimmed hne hend' hshort
  have hkind : (t.fill names entries).kind? up = some .directory := by
    obtain ⟨entries', hget⟩ := h.directoryAt entries
    rw [Entry.kind?, Entry.at?, (h.locate_directory entries htrimmed hne hend' hshort).1]
    simp only [hget]
    rfl
  have hdirectory : (isDirectory up : TreeM Bool).run (t.fill names entries)
      = (true, t.fill names entries) := by
    rw [isDirectory, StateT.run_bind, TreeM.run_kind?, hkind]
    rfl
  rw [makeParent, h.join name hname, hup]
  simp only [hne, if_false]
  rw [makeDirectories, habove, makeAll, if_neg hne, StateT.run_bind, TreeM.run_makeDirectory, hmake]
  show StateT.run (_ >>= _) _ = _
  rw [StateT.run_bind, hdirectory]
  rfl

theorem run_readOptional (h : t.Fresh root dir names) (hholds : Entry.Holds entries held)
    (hname : Path.Plain name) :
    (readOptional (Path.join root name) : TreeM (Except FileError (Option ByteArray))).run
        (t.fill names entries)
      = ((Entry.refusal? root name).elim (.ok (held name)) .error, t.fill names entries) := by
  rw [readOptional, StateT.run_bind, TreeM.run_read, h.read_file hholds hname]
  cases hrefusal : Entry.refusal? root name with
  | some e =>
    rcases Entry.refusal?_cases hrefusal with rfl | rfl
    · rfl
    · rfl
  | none => cases held name <;> rfl

/-- The name of the file by way of which a file is written. -/
def sibling (name : String) : String := (Path.splitName name).1 ++ "." ++ "tmp"

/-- What the files hold after one was written. Its sibling is gone, unless the file was refused when
the sibling was there. -/
def left (root name : String) (content : ByteArray) (held : String → Option ByteArray) :
    String → Option ByteArray :=
  if (Entry.refusal? root (sibling name)).isSome then held
  else if (Entry.refusal? root name).isSome then Function.update held (sibling name) (some content)
  else Function.update (Function.update held (sibling name) none) name (some content)

/-- A file is replaced: the sibling is written, and then takes its place. -/
theorem run_replace (h : t.Fresh root dir names) (hholds : Entry.Holds entries held)
    (hname : Path.Plain name) (content : ByteArray) :
    ∃ entries', (replace (Path.join root name) content : TreeM (Except FileError Unit)).run
        (t.fill names entries)
      = (((Entry.refusal? root (sibling name)).or (Entry.refusal? root name)).elim (.ok ()) .error,
        t.fill names entries') ∧
      Entry.Holds entries' (left root name content held) := by
  have hsibling : Path.Plain (sibling name) := Path.plain_sibling hname
  have hpath : Path.withExtension (Path.join root name) "tmp" = Path.join root (sibling name) := by
    rw [h.join name hname, h.join _ hsibling]
    exact Path.withExtension_below dir "tmp" hname hsibling
  rw [replace, StateT.run_bind, run_makeParent h entries hname]
  show ∃ entries', StateT.run (_ >>= _) (t.fill names entries) = _ ∧ _
  rw [hpath, StateT.run_bind, TreeM.run_write, h.write_file hholds hsibling, left]
  cases hrefusal : Entry.refusal? root (sibling name) with
  | some e => exact ⟨entries, rfl, hholds⟩
  | none =>
    have hput := hholds.put (Entry.le_maxName_of_refusal? hrefusal) content
    have hrename := h.rename_file hput hsibling hname hrefusal (Function.update_self ..)
    show ∃ entries', StateT.run (FileSystem.rename _ _)
      (t.fill names (Entry.alter (sibling name) (fun _ => some (.file content)) entries)) = _ ∧ _
    rw [TreeM.run_rename, hrename]
    cases hrefusal' : Entry.refusal? root name with
    | some e => exact ⟨_, rfl, hput⟩
    | none =>
      refine ⟨_, rfl, ?_⟩
      -- A name that is its own sibling is written in place.
      by_cases heq : name = sibling name
      · rw [if_pos heq]
        simpa [← heq] using hput
      · rw [if_neg heq]
        have hmoved := (hput.remove (sibling name)).put (Entry.le_maxName_of_refusal? hrefusal') content
        simpa using hmoved

end

end Files

end DefectScan
